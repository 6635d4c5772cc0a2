import MiniVirt.Kvm.Spec.Ept
import Mathlib.Tactic.SplitIfs

/-!
# Sequences of EPT violations

The hardware walk reads the last-level entries that `EptInv` speaks of (`EptInv.hwWalk_eq`), and
two addresses below 2^48 share theirs exactly when they lie in one page (`eptPath_index_iff`).  So
after any sequence of calls the walk finds the pages of the calls that returned 0 and nothing else.
-/

namespace MiniVirt.Kvm

open RadixTable

/-! ### Indices and pages -/

theorem eptIndex_val (gpa : BitVec 64) (shift : Nat) :
    (eptIndex gpa shift : Nat) = gpa.toNat / 2 ^ shift % 512 := by
  have h : (eptIndex gpa shift : Nat) = (gpa >>> shift &&& 511).toNat := rfl
  rw [h, BitVec.toNat_and, BitVec.toNat_ushiftRight, Nat.shiftRight_eq_div_pow]
  exact Nat.and_two_pow_sub_one_eq_mod _ 9

theorem page_toNat (gpa : BitVec 64) : (gpa >>> 12).toNat = gpa.toNat / 4096 := by
  rw [BitVec.toNat_ushiftRight, Nat.shiftRight_eq_div_pow]

theorem and_pageMask_toNat (gpa : BitVec 64) :
    (gpa &&& pageMask).toNat = gpa.toNat / 4096 * 4096 := by
  have h : gpa &&& pageMask = (gpa >>> 12) <<< 12 := by
    ext i hi
    have hm := (by decide : ∀ i < 64, pageMask.getLsbD i = decide (12 ≤ i)) i hi
    rw [BitVec.getLsbD_eq_getElem hi] at hm
    by_cases h12 : i < 12
    · simp [hm, h12]
    · have hi' : 12 + (i - 12) = i := by omega
      simp [hm, h12, hi', BitVec.getLsbD_eq_getElem hi]
      omega
  rw [h, BitVec.toNat_shiftLeft, page_toNat, Nat.shiftLeft_eq]
  have := gpa.isLt
  omega

/-- Two addresses below 2^48 use the same last-level entry iff they lie in the same page. -/
theorem eptPath_index_iff {g g' : BitVec 64} (hg : g.toNat < 2 ^ 48) (hg' : g'.toNat < 2 ^ 48) :
    (eptPath g = eptPath g' ∧ eptIndex g 12 = eptIndex g' 12) ↔ g >>> 12 = g' >>> 12 := by
  rw [← BitVec.toNat_inj, page_toNat, page_toNat]
  simp only [eptPath, List.map_cons, List.map_nil, List.cons.injEq, and_true, Fin.ext_iff,
    eptIndex_val]
  omega

theorem eptPath_and_pageMask (g : BitVec 64) : eptPath (g &&& pageMask) = eptPath g := by
  simp only [eptPath, List.map_cons, List.map_nil, List.cons.injEq, and_true, Fin.ext_iff,
    eptIndex_val, and_pageMask_toNat]
  omega

theorem eptIndex_and_pageMask (g : BitVec 64) : eptIndex (g &&& pageMask) 12 = eptIndex g 12 := by
  rw [Fin.ext_iff, eptIndex_val, eptIndex_val, and_pageMask_toNat]
  omega

theorem and_pageMask_congr {g g' : BitVec 64} (h : g >>> 12 = g' >>> 12) :
    g &&& pageMask = g' &&& pageMask := by
  rw [← BitVec.toNat_inj, page_toNat, page_toNat] at h
  rw [← BitVec.toNat_inj, and_pageMask_toNat, and_pageMask_toNat, h]

/-! ### The hardware walk -/

/-- What a last-level entry says to the hardware. -/
def eptDecode (e : BitVec 64) : EptWalk := if eptPresent e then .leaf e else .notPresent

/-- The table that the hardware goes to from an entry above the last level. -/
def hwChild (e : BitVec 64) : Option Pfn := if eptPresent e then some (pfnOf e) else none

theorem eptPresent_zero : eptPresent 0 = false := by decide

namespace EptInv

variable {s : EptState} {p : List (Fin 512)} {table : Pfn}

theorem hwWalkFrom_eq (h : EptInv s) (gpa : BitVec 64) (shifts : List Nat)
    (hp : s.walk p = some table) (hlen : p.length + shifts.length = 3) :
    hwWalkFrom s.mem gpa shifts table =
      eptDecode (s.leafAt (p ++ shifts.map (eptIndex gpa)) (eptIndex gpa 12)) := by
  induction shifts generalizing p table with
  | nil => rw [List.map_nil, List.append_nil, EptState.leafAt, hp]; rfl
  | cons shift shifts ih =>
    rw [List.length_cons] at hlen
    have hwalk : s.walk (p ++ [eptIndex gpa shift]) =
        eptChild (s.mem table (eptIndex gpa shift)) := by
      have hp' : walk eptChild s.mem s.ept.pml4 p = some table := hp
      rw [EptState.walk, walk_append_singleton, hp', Option.bind_some]
    rw [hwWalkFrom, List.map_cons, ← List.singleton_append, ← List.append_assoc]
    rcases h.linked (by omega) hp (eptIndex gpa shift) with he | ⟨np, he⟩
    · have hnone : s.walk (p ++ [eptIndex gpa shift] ++ shifts.map (eptIndex gpa)) = none := by
        rw [he, eptChild_zero] at hwalk
        have hwalk' : walk eptChild s.mem s.ept.pml4 (p ++ [eptIndex gpa shift]) = none := hwalk
        rw [EptState.walk, walk_append, hwalk', Option.bind_none]
      rw [he, EptState.leafAt, hnone, Option.elim_none, eptPresent_zero, Bool.not_false, if_pos rfl]
      rfl
    · rw [he, eptChild_eptLink] at hwalk
      rw [he, eptPresent_eptLink, eptLink_and_reserved, pfnOf_eptLink, Bool.not_true,
        if_neg Bool.false_ne_true, if_neg (by decide)]
      exact ih hwalk (by rw [List.length_append, List.length_singleton]; omega)

theorem hwWalk_eq (h : EptInv s) (heptp : pfnOf s.ept.eptp = s.ept.pml4) (gpa : BitVec 64) :
    hwWalk s.mem s.ept.eptp gpa = eptDecode (s.leafAt (eptPath gpa) (eptIndex gpa 12)) := by
  rw [hwWalk, heptp]
  exact h.hwWalkFrom_eq (p := []) gpa [39, 30, 21] rfl rfl

/-- The hardware finds the tables that the module built. -/
theorem walk_hwChild (h : EptInv s) (hp : p.length ≤ 3) :
    RadixTable.walk hwChild s.mem s.ept.pml4 p = s.walk p := by
  induction p using List.reverseRecOn with
  | nil => rfl
  | append_singleton p i ih =>
    rw [List.length_append, List.length_singleton] at hp
    rw [EptState.walk, walk_append_singleton, walk_append_singleton, ih (by omega)]
    cases hw : s.walk p with
    | none => rw [show walk eptChild s.mem s.ept.pml4 p = none from hw, Option.bind_none,
        Option.bind_none]
    | some a =>
      rw [show walk eptChild s.mem s.ept.pml4 p = some a from hw, Option.bind_some,
        Option.bind_some]
      rcases h.linked (by omega) hw i with he | ⟨np, he⟩
      · rw [he]; rfl
      · rw [he, eptChild_eptLink, hwChild, if_pos (eptPresent_eptLink np), pfnOf_eptLink]

/-- The root of a VM as `mini_ept_init()` leaves it. -/
theorem init (m : PageMem) (pml4 : Pfn) (eptp : BitVec 64) (allocs : List (Option Pfn))
    (hallocs : (pml4 :: allocs.reduceOption).Nodup) :
    EptInv ⟨m.zeroPage pml4, ⟨pml4, eptp, []⟩, allocs⟩ := by
  have hwalk : ∀ (p : List (Fin 512)) a,
      RadixTable.walk eptChild (m.zeroPage pml4) pml4 p = some a → p = [] ∧ a = pml4 := by
    intro p a ha
    cases p with
    | nil => exact ⟨rfl, (Option.some.inj ha).symm⟩
    | cons i p =>
      rw [walk_cons, PageMem.zeroPage, fillPage_self, eptChild_zero] at ha
      exact absurd ha (by simp)
  refine ⟨separated_fillPage eptChild_zero, ?_, ?_, (List.nodup_cons.1 hallocs).2, ?_⟩
  · intro p a hp0 _ ha
    exact absurd (hwalk p a ha).1 hp0
  · intro p a _ ha i
    rw [(hwalk p a ha).2]
    exact .inl fillPage_self
  · intro np hnp
    rw [List.mem_singleton]
    rintro rfl
    exact (List.nodup_cons.1 hallocs).1 hnp

end EptInv

/-! ### Calls -/

/-- The EPT of the VM that the call is about. -/
def St.eptState (s : St) : EptState := ⟨s.hw.mem, s.kvm.ept, s.allocs⟩

/-- The exit for an EPT violation at `gpa` as far as the handler sees it. -/
def St.recordGpa (s : St) (gpa : BitVec 64) : St :=
  match s.current with
  | none => s
  | some p => { s with hw := s.hw.vmwrite p .guestPhysicalAddress gpa }

/-- An EPT violation at `gpa` and its handling. -/
def eptViolation (gpa : BitVec 64) : M Int := do
  modify fun s => s.recordGpa gpa
  miniEptHandleViolation

/-- EPT violations one after the other, with what each call returned. -/
def eptViolations : List (BitVec 64) → M (List (BitVec 64 × Int))
  | [] => return []
  | gpa :: gpas => do
    let r ← eptViolation gpa
    let log ← eptViolations gpas
    return (gpa, r) :: log

/-- `mini_ept_handle_violation()` is `eptHandleViolation` at the address of the current VMCS. -/
theorem miniEptHandleViolation_run {s : St} {p : Phys} (hcur : s.current = some p) :
    let (r, s') := miniEptHandleViolation.run s
    eptHandleViolation s.kvm.slot s.eptState ((s.hw.vmcs p).field .guestPhysicalAddress) =
        (s'.eptState, r) ∧
      s'.kvm.slot = s.kvm.slot ∧ s'.current = s.current := by
  simp only [miniEptHandleViolation, miniVmread, emit, modifyVcpu, StateT.run_bind, StateT.run_get,
    StateT.run_modify, StateT.run_pure, pure_bind, hcur, Option.map_some, Option.getD_some]
  split_ifs <;> exact ⟨rfl, rfl, hcur⟩

theorem eptViolation_run {s : St} {p : Phys} (hcur : s.current = some p) (gpa : BitVec 64) :
    let (r, s') := (eptViolation gpa).run s
    eptHandleViolation s.kvm.slot s.eptState gpa = (s'.eptState, r) ∧
      s'.kvm.slot = s.kvm.slot ∧ s'.current = s.current := by
  have hcur' : (s.recordGpa gpa).current = some p := by
    rw [St.recordGpa, hcur]
    exact hcur
  have hfield : ((s.recordGpa gpa).hw.vmcs p).field .guestPhysicalAddress = gpa := by
    rw [St.recordGpa, hcur]
    simp [Hw.vmwrite, Hw.setVmcs]
  have hept : (s.recordGpa gpa).eptState = s.eptState ∧ (s.recordGpa gpa).kvm = s.kvm := by
    rw [St.recordGpa, hcur]
    exact ⟨rfl, rfl⟩
  have h := miniEptHandleViolation_run hcur'
  rw [hfield, hept.1, hept.2, hcur', ← hcur] at h
  exact h

/-! ### The memslot -/

/-- The memslot is page-aligned, as `mini_kvm_set_memregion()` makes sure, and lies below 2^48. -/
structure MiniKvmMemslot.Below48 (slot : MiniKvmMemslot) : Prop where
  aligned : slot.baseGpa.toNat % 4096 = 0
  below : slot.baseGpa.toNat + slot.npages.toNat * 4096 ≤ 2 ^ 48

/-- `g` is an address of the memslot. -/
def MiniKvmMemslot.Contains (slot : MiniKvmMemslot) (g : BitVec 64) : Prop :=
  slot.valid = true ∧ slot.baseGpa.toNat ≤ g.toNat ∧
    g.toNat < slot.baseGpa.toNat + slot.npages.toNat * 4096

theorem MiniKvmMemslot.Below48.covers_iff {slot : MiniKvmMemslot} (h : slot.Below48)
    (g : BitVec 64) : slot.covers (g &&& pageMask) = true ↔ slot.Contains g := by
  have hend : (slot.baseGpa + slot.npages <<< 12).toNat =
      slot.baseGpa.toNat + slot.npages.toNat * 4096 := by
    have := h.below
    rw [BitVec.toNat_add, BitVec.toNat_shiftLeft, Nat.shiftLeft_eq]
    omega
  have := h.aligned
  simp only [MiniKvmMemslot.covers, MiniKvmMemslot.Contains, BitVec.lt_def, BitVec.le_def, hend,
    and_pageMask_toNat, Bool.and_eq_true, Bool.not_eq_true', decide_eq_false_iff_not, and_assoc]
  exact and_congr_right fun _ => by omega

/-! ### What the tables represent -/

/-- Some call of the log for the page of `g` returned 0. -/
def Mapped (log : List (BitVec 64 × Int)) (g : BitVec 64) : Prop :=
  ∃ c ∈ log, c.2 = 0 ∧ c.1 >>> 12 = g >>> 12

/-- The invariant of the tables together with what they stand for, the calls of the log. -/
structure EptRepr (slot : MiniKvmMemslot) (log : List (BitVec 64 × Int)) (s : EptState) :
    Prop where
  inv : EptInv s
  eptp : pfnOf s.ept.eptp = s.ept.pml4
  mapped : ∀ g, g.toNat < 2 ^ 48 → Mapped log g →
    slot.Contains g ∧ s.leafAt (eptPath g) (eptIndex g 12) = eptLeaf (slot.pageOf g)
  unmapped : ∀ g, g.toNat < 2 ^ 48 → ¬ Mapped log g →
    s.leafAt (eptPath g) (eptIndex g 12) = 0

theorem mapped_append {log log' : List (BitVec 64 × Int)} {g : BitVec 64} :
    Mapped (log ++ log') g ↔ Mapped log g ∨ Mapped log' g := by
  simp only [Mapped, List.mem_append, or_and_right, exists_or]

theorem mapped_singleton {gpa g : BitVec 64} {r : Int} :
    Mapped [(gpa, r)] g ↔ r = 0 ∧ gpa >>> 12 = g >>> 12 := by
  simp only [Mapped, List.mem_singleton, exists_eq_left]

/-- One call keeps the representation. -/
theorem EptRepr.step {slot : MiniKvmMemslot} (hslot : slot.Below48) {s : EptState}
    {log : List (BitVec 64 × Int)} (h : EptRepr slot log s) {gpa : BitVec 64}
    (hgpa : gpa.toNat < 2 ^ 48) :
    EptRepr slot (log ++ [(gpa, (eptHandleViolation slot s gpa).2)])
      (eptHandleViolation slot s gpa).1 := by
  have hcall := h.inv.eptHandleViolation_cases slot gpa
  generalize eptHandleViolation slot s gpa = x at hcall ⊢
  obtain ⟨s', r⟩ := x
  obtain ⟨hinv, hpml4, heptp, hcase⟩ := hcall
  refine ⟨hinv, (congrArg pfnOf heptp).trans (h.eptp.trans hpml4.symm), ?_, ?_⟩
  · intro g hg hm
    rw [mapped_append, mapped_singleton] at hm
    rcases hcase with ⟨hr, hsame⟩ | ⟨hr, hcov, hleaf⟩
    · rw [hsame.leafAt rfl]
      exact h.mapped g hg (hm.resolve_right fun h => hr h.1)
    · rw [hleaf rfl, eptPath_and_pageMask, eptIndex_and_pageMask]
      by_cases hpage : g >>> 12 = gpa >>> 12
      · have hmask := and_pageMask_congr hpage
        rw [if_pos ((eptPath_index_iff hg hgpa).2 hpage), ← hslot.covers_iff, hmask]
        refine ⟨hcov, ?_⟩
        rw [MiniKvmMemslot.pageOf, MiniKvmMemslot.pageOf, hmask]
      · rw [if_neg fun h => hpage ((eptPath_index_iff hg hgpa).1 h)]
        exact h.mapped g hg (hm.resolve_right fun h => hpage h.2.symm)
  · intro g hg hm
    rw [mapped_append, mapped_singleton, not_or] at hm
    rcases hcase with ⟨hr, hsame⟩ | ⟨hr, hcov, hleaf⟩
    · rw [hsame.leafAt rfl]
      exact h.unmapped g hg hm.1
    · rw [hleaf rfl, eptPath_and_pageMask, eptIndex_and_pageMask,
        if_neg fun h => hm.2 ⟨hr, ((eptPath_index_iff hg hgpa).1 h).symm⟩]
      exact h.unmapped g hg hm.1

/-- The representation over a run of calls. -/
theorem EptRepr.run {slot : MiniKvmMemslot} (hslot : slot.Below48) {gpas : List (BitVec 64)}
    (hgpas : ∀ gpa ∈ gpas, gpa.toNat < 2 ^ 48) {s : St} {p : Phys} (hcur : s.current = some p)
    (hs : s.kvm.slot = slot) {log : List (BitVec 64 × Int)} (h : EptRepr slot log s.eptState) :
    EptRepr slot (log ++ ((eptViolations gpas).run s).1) ((eptViolations gpas).run s).2.eptState ∧
      ((eptViolations gpas).run s).2.kvm.slot = slot ∧
      ((eptViolations gpas).run s).2.current = some p := by
  induction gpas generalizing s log with
  | nil =>
    have hnil : EptRepr slot (log ++ []) s.eptState := by rwa [List.append_nil]
    exact ⟨hnil, hs, hcur⟩
  | cons gpa gpas ih =>
    have hone := eptViolation_run hcur gpa
    have hstep := h.step hslot (hgpas gpa List.mem_cons_self)
    obtain ⟨he, hs₁, hcur₁⟩ := hone
    rw [← hs, he] at hstep
    rw [hs] at hs₁ hstep
    have hrest := ih (fun g hg => hgpas g (List.mem_cons_of_mem _ hg)) (hcur₁.trans hcur) hs₁ hstep
    rw [List.append_assoc] at hrest
    exact hrest

/-! ### The result -/

/-- `a` is a table page above the last level, as the hardware finds it from the EPTP. -/
def NonLeafTable (m : PageMem) (eptp : BitVec 64) (a : Pfn) : Prop :=
  ∃ p : List (Fin 512), p.length ≤ 2 ∧ walk hwChild m (pfnOf eptp) p = some a

/-- The tables `m` below `ept.eptp` translate exactly the pages of the calls that returned 0, each
to its pinned page, with tracked tables that are pairwise different. -/
structure EptRepresents (slot : MiniKvmMemslot) (log : List (BitVec 64 × Int)) (m : PageMem)
    (ept : MiniKvmEpt) : Prop where
  present_iff : ∀ g, g.toNat < 2 ^ 48 → (hwWalk m ept.eptp g ≠ .notPresent ↔ Mapped log g)
  translation : ∀ g, g.toNat < 2 ^ 48 → Mapped log g →
    hwWalk m ept.eptp g = .leaf (pageToPhys (slot.pageOf g) ||| eptEntryRwx ||| eptMemtypeWb)
  inside : ∀ g, g.toNat < 2 ^ 48 → hwWalk m ept.eptp g ≠ .notPresent → slot.Contains g
  nonLeaf : ∀ a i, NonLeafTable m ept.eptp a → eptPresent (m a i) →
    m a i &&& 0xf8 = 0 ∧ pfnOf (m a i) ∈ ept.tracked
  distinct : ∀ a i b j, NonLeafTable m ept.eptp a → NonLeafTable m ept.eptp b →
    eptPresent (m a i) → eptPresent (m b j) → pfnOf (m a i) = pfnOf (m b j) → a = b ∧ i = j

theorem eptDecode_eptLeaf (page : Pfn) : eptDecode (eptLeaf page) = .leaf (eptLeaf page) :=
  if_pos (eptPresent_eptLeaf page)

/-- A present entry above the last level extends the path to its table. -/
theorem EptInv.walk_entry {s : EptState} (h : EptInv s) {p : List (Fin 512)} (hp : p.length ≤ 2)
    {a : Pfn} (ha : s.walk p = some a) {i : Fin 512} (hi : eptPresent (s.mem a i)) :
    ∃ np, s.mem a i = eptLink np ∧ s.walk (p ++ [i]) = some np := by
  rcases h.linked hp ha i with he | ⟨np, he⟩
  · rw [he, eptPresent_zero] at hi
    exact absurd hi Bool.false_ne_true
  · refine ⟨np, he, ?_⟩
    have ha' : walk eptChild s.mem s.ept.pml4 p = some a := ha
    rw [EptState.walk, walk_append_singleton, ha', Option.bind_some, he, eptChild_eptLink]

theorem EptRepr.represents {slot : MiniKvmMemslot} {log : List (BitVec 64 × Int)} {s : EptState}
    (h : EptRepr slot log s) : EptRepresents slot log s.mem s.ept := by
  have hwalk := h.inv.hwWalk_eq h.eptp
  have hmapped : ∀ g, g.toNat < 2 ^ 48 → Mapped log g →
      hwWalk s.mem s.ept.eptp g = .leaf (eptLeaf (slot.pageOf g)) := by
    intro g hg hm
    rw [hwalk, (h.mapped g hg hm).2, eptDecode_eptLeaf]
  have hiff : ∀ g, g.toNat < 2 ^ 48 → (hwWalk s.mem s.ept.eptp g ≠ .notPresent ↔ Mapped log g) := by
    intro g hg
    refine ⟨fun hne => by_contra fun hm => hne ?_, fun hm => ?_⟩
    · rw [hwalk, h.unmapped g hg hm, eptDecode, if_neg (by rw [eptPresent_zero]; decide)]
    · rw [hmapped g hg hm]
      exact EptWalk.noConfusion
  have htable : ∀ a, NonLeafTable s.mem s.ept.eptp a → ∃ p : List (Fin 512), p.length ≤ 2 ∧
      s.walk p = some a := by
    rintro a ⟨p, hp, ha⟩
    rw [h.eptp, h.inv.walk_hwChild (by omega)] at ha
    exact ⟨p, hp, ha⟩
  refine ⟨hiff, hmapped, fun g hg hne => (h.mapped g hg ((hiff g hg).1 hne)).1, ?_, ?_⟩
  · -- a non-leaf entry links to a table on the list of pages
    intro a i ha hi
    obtain ⟨p, hp, hpa⟩ := htable a ha
    obtain ⟨np, he, hnp⟩ := h.inv.walk_entry hp hpa hi
    rw [he, pfnOf_eptLink]
    refine ⟨eptLink_and_reserved np, h.inv.tracked (by simp) ?_ hnp⟩
    rw [List.length_append, List.length_singleton]
    omega
  · -- two entries that link to the same table are at the end of the same walk
    intro a i b j ha hb hi hj heq
    obtain ⟨p, hp, hpa⟩ := htable a ha
    obtain ⟨q, hq, hqb⟩ := htable b hb
    obtain ⟨np, hei, hnp⟩ := h.inv.walk_entry hp hpa hi
    obtain ⟨nq, hej, hnq⟩ := h.inv.walk_entry hq hqb hj
    rw [hei, hej, pfnOf_eptLink, pfnOf_eptLink] at heq
    rw [← heq] at hnq
    have hlen : ∀ {r : List (Fin 512)} (k : Fin 512), r.length ≤ 2 → (r ++ [k]).length ≤ 3 := by
      intro r k hr
      rw [List.length_append, List.length_singleton]
      omega
    have hpath := h.inv.separated (hlen i hp) (hlen j hq) hnp hnq
    obtain ⟨rfl, hij⟩ := List.append_inj' hpath rfl
    rw [hpa] at hqb
    exact ⟨Option.some.inj hqb, List.singleton_inj.1 hij⟩

/-- A call that fails changes no translation. -/
theorem EptRepr.hwWalk_of_error {slot : MiniKvmMemslot} {log : List (BitVec 64 × Int)} {s : St}
    (h : EptRepr slot log s.eptState) {p : Phys} (hcur : s.current = some p) {gpa : BitVec 64}
    (hr : ((eptViolation gpa).run s).1 ≠ 0) (g : BitVec 64) :
    hwWalk ((eptViolation gpa).run s).2.hw.mem ((eptViolation gpa).run s).2.kvm.ept.eptp g =
      hwWalk s.hw.mem s.kvm.ept.eptp g := by
  have hcall := h.inv.eptHandleViolation_cases s.kvm.slot gpa
  rw [(eptViolation_run hcur gpa).1] at hcall
  obtain ⟨hinv, hpml4, heptp, ⟨-, hsame⟩ | ⟨hr0, -⟩⟩ := hcall
  · have hafter := hinv.hwWalk_eq ((congrArg pfnOf heptp).trans (h.eptp.trans hpml4.symm)) g
    rw [hsame.leafAt rfl, ← h.inv.hwWalk_eq h.eptp g] at hafter
    exact hafter
  · exact absurd hr0 hr

theorem EptRepr.init {m : PageMem} {pml4 : Pfn} {s : St} (slot : MiniKvmMemslot)
    (hinit : miniEptInit m (some pml4) = .ok (s.hw.mem, s.kvm.ept))
    (hallocs : (pml4 :: s.allocs.reduceOption).Nodup) : EptRepr slot [] s.eptState := by
  obtain ⟨hmem, hept⟩ := Prod.mk.inj (Except.ok.inj hinit)
  have heptp : pfnOf (pageToPhys pml4 ||| vmxEptpMtWb ||| vmxEptpPwl4) = pml4 := by
    rw [BitVec.or_assoc]
    exact pfnOf_or pml4 (by decide)
  have hinv := EptInv.init m pml4 (pageToPhys pml4 ||| vmxEptpMtWb ||| vmxEptpPwl4) s.allocs hallocs
  rw [hmem, hept] at hinv
  refine ⟨hinv, ?_, ?_, fun g _ _ => ?_⟩
  · rw [St.eptState, ← hept]
    exact heptp
  · rintro g _ ⟨c, hc, -⟩
    exact absurd hc List.not_mem_nil
  · have hpml4 : s.eptState.ept.pml4 = pml4 := congrArg MiniKvmEpt.pml4 hept.symm
    have hentry : s.eptState.mem pml4 (eptIndex g 39) = 0 := by
      rw [St.eptState, ← hmem]
      exact fillPage_self
    have hnone : s.eptState.walk (eptPath g) = none := by
      rw [EptState.walk, eptPath, List.map_cons, walk_cons, hpml4, hentry, eptChild_zero,
        Option.bind_none]
    rw [EptState.leafAt, hnone, Option.elim_none]

/-- After any sequence of EPT violations the tables represent the calls that returned 0, and a
further call that fails changes no translation. -/
theorem eptViolations_represents (m : PageMem) (pml4 : Pfn) (s : St) (p : Phys)
    (hcur : s.current = some p) (hinit : miniEptInit m (some pml4) = .ok (s.hw.mem, s.kvm.ept))
    (hallocs : (pml4 :: s.allocs.reduceOption).Nodup) (hslot : s.kvm.slot.Below48)
    (gpas : List (BitVec 64)) (hgpas : ∀ gpa ∈ gpas, gpa.toNat < 2 ^ 48) :
    let s' := ((eptViolations gpas).run s).2
    EptRepresents s.kvm.slot ((eptViolations gpas).run s).1 s'.hw.mem s'.kvm.ept ∧
      ∀ gpa, gpa.toNat < 2 ^ 48 → ((eptViolation gpa).run s').1 ≠ 0 → ∀ g, g.toNat < 2 ^ 48 →
        let s'' := ((eptViolation gpa).run s').2
        hwWalk s''.hw.mem s''.kvm.ept.eptp g = hwWalk s'.hw.mem s'.kvm.ept.eptp g := by
  obtain ⟨hrepr, -, hcur'⟩ := EptRepr.run hslot hgpas hcur rfl (EptRepr.init _ hinit hallocs)
  exact ⟨hrepr.represents, fun gpa _ hr g _ => hrepr.hwWalk_of_error hcur' hr g⟩

/-- A VM with a memslot of 16 pages at 0, its root at page 1, three pages to allocate. -/
def smallVm : St :=
  { (default : St) with
    hw := { (default : Hw) with
      cpu := fun _ => { (default : Cpu) with current := some 0x5000 }
      mem := PageMem.zeroPage (fun _ _ => 0) 1 }
    kvm := { (default : MiniKvm) with
      slot := ⟨true, 0, 16, fun i => BitVec.ofNat 40 (100 + i)⟩
      ept := ⟨1, pageToPhys 1 ||| vmxEptpMtWb ||| vmxEptpPwl4, []⟩ }
    allocs := [some 2, some 3, none, some 4] }

theorem eptViolations_represents_smallVm :
    let gpas := [0x1000, 0x1000, 0x20000]
    let s' := ((eptViolations gpas).run smallVm).2
    EptRepresents smallVm.kvm.slot ((eptViolations gpas).run smallVm).1 s'.hw.mem s'.kvm.ept ∧
      ∀ gpa, gpa.toNat < 2 ^ 48 → ((eptViolation gpa).run s').1 ≠ 0 → ∀ g, g.toNat < 2 ^ 48 →
        let s'' := ((eptViolation gpa).run s').2
        hwWalk s''.hw.mem s''.kvm.ept.eptp g = hwWalk s'.hw.mem s'.kvm.ept.eptp g :=
  eptViolations_represents (fun _ _ => 0) 1 smallVm 0x5000 rfl rfl (by decide) ⟨rfl, by decide⟩
    [0x1000, 0x1000, 0x20000] (by simp)

end MiniVirt.Kvm
