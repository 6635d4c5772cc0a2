import MiniVirt.Kvm.Spec.EptRun

/-!
# Several EPTs in one memory

What an EPT translates depends on its own pages only (`EptInv.congr`, `EptInv.leafAt_congr`), and handling
a violation changes its own pages only (`EptInv.violation_inside`).  While the memslot stays, a translation
that is there stays as it is (`EptInv.violation_kept`), so the translations of an EPT grow.
-/

namespace MiniVirt.Kvm

open RadixTable

/-- The pages of an EPT. -/
def MiniKvmEpt.pages (ept : MiniKvmEpt) : List Pfn := ept.pml4 :: ept.tracked

/-- Every last-level entry is zero or maps the page of the memslot for its address. -/
def EptState.MapsSlot (s : EptState) (slot : MiniKvmMemslot) : Prop :=
  ∀ ⦃q : List (Fin 512)⦄, q.length = 3 → ∀ j, s.leafAt q j = 0 ∨ slot.valid = true ∧
    ∃ g : BitVec 64, g.toNat < 2 ^ 48 ∧ eptPath g = q ∧ eptIndex g 12 = j ∧
      s.leafAt q j = eptLeaf (slot.pageOf g)

/-- Every last-level entry of `s` that is not zero is the same in `s'`. -/
def LeavesKept (s s' : EptState) : Prop :=
  ∀ ⦃q : List (Fin 512)⦄, q.length = 3 → ∀ j, s.leafAt q j ≠ 0 → s'.leafAt q j = s.leafAt q j

theorem SameLeaves.kept {s s' : EptState} (h : SameLeaves s s') : LeavesKept s s' :=
  fun _ hq j _ => h.leafAt hq j

theorem SameLeaves.mapsSlot {s s' : EptState} (h : SameLeaves s s') {slot : MiniKvmMemslot}
    (hs : s.MapsSlot slot) : s'.MapsSlot slot := by
  intro q hq j
  rw [h.leafAt hq j]
  exact hs hq j

namespace EptInv

variable {s : EptState} {p : List (Fin 512)} {table : Pfn}

theorem mem_pages (h : EptInv s) (hp : p.length ≤ 3) (hw : s.walk p = some table) : table ∈ s.ept.pages := by
  cases p with
  | nil =>
    obtain rfl : s.ept.pml4 = table := Option.some.inj hw
    exact List.mem_cons_self
  | cons i p => exact List.mem_cons_of_mem _ (h.tracked (List.cons_ne_nil i p) hp hw)

/-! ### Other pages -/

section Congr

variable {mem : PageMem} (hmem : ∀ a ∈ s.ept.pages, mem a = s.mem a)

include hmem

theorem walk_congr (h : EptInv s) (hp : p.length ≤ 3) : ({ s with mem := mem } : EptState).walk p = s.walk p := by
  refine RadixTable.walk_congr fun p₁ i p₂ b hq hb => congrFun (hmem b ?_) i
  refine h.mem_pages (p := p₁) ?_ hb
  rw [hq, List.length_append] at hp
  omega

theorem leafAt_congr (h : EptInv s) (hp : p.length = 3) (j : Fin 512) :
    ({ s with mem := mem } : EptState).leafAt p j = s.leafAt p j := by
  rw [EptState.leafAt, h.walk_congr hmem hp.le, EptState.leafAt]
  cases hw : s.walk p with
  | none => rfl
  | some a => exact congrFun (hmem a (h.mem_pages hp.le hw)) j

theorem congr (h : EptInv s) : EptInv { s with mem := mem } where
  separated := by
    intro p q a hp hq hpa hqa
    have hpa' : s.walk p = some a := (h.walk_congr hmem hp).symm.trans hpa
    have hqa' : s.walk q = some a := (h.walk_congr hmem hq).symm.trans hqa
    exact h.separated hp hq hpa' hqa'
  tracked := by
    intro p a hp0 hp ha
    exact h.tracked hp0 hp ((h.walk_congr hmem hp).symm.trans ha)
  linked := by
    intro p a hp ha i
    have ha' : s.walk p = some a := (h.walk_congr hmem (by omega)).symm.trans ha
    have hpage : mem a i = s.mem a i := congrFun (hmem a (h.mem_pages (by omega) ha')) i
    show mem a i = 0 ∨ ∃ np, mem a i = eptLink np
    rw [hpage]
    exact h.linked hp ha' i
  nodup := h.nodup
  fresh := h.fresh

end Congr

/-! ### Allocations to come -/

theorem withAllocs (h : EptInv s) {as : List (Option Pfn)} (hnodup : as.reduceOption.Nodup)
    (hfresh : ∀ np ∈ as.reduceOption, np ∉ s.ept.pages) : EptInv { s with allocs := as } :=
  ⟨h.separated, h.tracked, h.linked, hnodup, hfresh⟩

/-! ### One violation -/

/-- From `s` to `s'` only pages of `s'` change. -/
structure Inside (s s' : EptState) : Prop where
  pml4 : s'.ept.pml4 = s.ept.pml4
  tracked : s.ept.tracked ⊆ s'.ept.tracked
  mem : ∀ a, a ∉ s'.ept.pages → s'.mem a = s.mem a

theorem Inside.refl (s : EptState) : Inside s s := ⟨rfl, fun _ h => h, fun _ _ => rfl⟩

theorem Inside.pages {s s' : EptState} (h : Inside s s') : s.ept.pages ⊆ s'.ept.pages := by
  unfold MiniKvmEpt.pages
  rw [h.pml4]
  exact List.cons_subset_cons _ h.tracked

theorem Inside.trans {s₁ s₂ s₃ : EptState} (h₁ : Inside s₁ s₂) (h₂ : Inside s₂ s₃) : Inside s₁ s₃ := by
  refine ⟨h₂.pml4.trans h₁.pml4, fun a ha => h₂.tracked (h₁.tracked ha), fun a ha => ?_⟩
  rw [h₂.mem a ha, h₁.mem a fun h => ha (h₂.pages h)]

theorem inside_link {i : Fin 512} {np : Pfn} {as : List (Option Pfn)} (htable : table ∈ s.ept.pages) :
    Inside s (s.link table i np as) := by
  refine ⟨rfl, fun a ha => List.mem_append_left _ ha, fun a ha => ?_⟩
  have hpages : (s.link table i np as).ept.pages = s.ept.pages ++ [np] := rfl
  rw [hpages, List.mem_append, not_or, List.mem_singleton] at ha
  have hat : a ≠ table := fun h => ha.1 (h ▸ htable)
  funext j
  exact mem_link_old ha.2 (by simp [hat])

theorem inside_writeLeaf {i : Fin 512} {e : BitVec 64} (htable : table ∈ s.ept.pages) :
    Inside s (s.writeLeaf table i e) := by
  refine ⟨rfl, fun a ha => ha, fun a ha => ?_⟩
  have hat : a ≠ table := by
    rintro rfl
    exact ha htable
  funext j
  exact setEntry_of_ne (by simp [hat])

theorem eptNextTable_inside (s : EptState) (i : Fin 512) (htable : table ∈ s.ept.pages) :
    Inside s (eptNextTable s table i true).1 := by
  rcases eptNextTable_cases s table i with ⟨b, hb, he⟩ | ⟨as, ha, he⟩ | ⟨np, as, ha, hi, he⟩
  · rw [he]
    exact .refl s
  · rw [he]
    exact ⟨rfl, fun _ h => h, fun _ _ => rfl⟩
  · rw [he]
    exact inside_link htable

theorem eptWalkTables_inside (h : EptInv s) (gpa : BitVec 64) (shifts : List Nat)
    (hp : s.walk p = some table) (hlen : p.length + shifts.length = 3) :
    Inside s (eptWalkTables gpa true shifts s table).1 := by
  induction shifts generalizing s p table with
  | nil => exact .refl s
  | cons shift shifts ih =>
    rw [List.length_cons] at hlen
    have hstep := eptNextTable_spec (i := eptIndex gpa shift) h hp (by omega)
    have hinside := eptNextTable_inside s (eptIndex gpa shift) (h.mem_pages (by omega) hp)
    rw [eptWalkTables]
    generalize eptNextTable s table (eptIndex gpa shift) true = x at hstep hinside ⊢
    rcases x with ⟨s₁, _ | b⟩
    · exact hinside
    · obtain ⟨h₁, hsame, hb⟩ := hstep
      exact hinside.trans (ih h₁ (hb b rfl) (by rw [List.length_append, List.length_singleton]; omega))

theorem violation_inside (h : EptInv s) (slot : MiniKvmMemslot) (gpa : BitVec 64) :
    Inside s (eptHandleViolation slot s gpa).1 := by
  unfold eptHandleViolation
  dsimp only
  split
  · exact .refl s
  · have hinside := h.eptWalkTables_inside (p := []) (gpa &&& pageMask) [39, 30, 21] rfl rfl
    have hspec := h.miniEptWalk_spec (gpa &&& pageMask)
    unfold miniEptWalk at hspec ⊢
    generalize eptWalkTables (gpa &&& pageMask) true [39, 30, 21] s s.ept.pml4 = x at hinside hspec ⊢
    rcases x with ⟨s', _ | table⟩
    · exact hinside
    · obtain ⟨h', -, hwalk⟩ := hspec
      have htable : table ∈ s'.ept.pages := h'.mem_pages (p := eptPath (gpa &&& pageMask)) (by rfl)
        (hwalk _ _ rfl).1
      exact hinside.trans (inside_writeLeaf htable)

/-- A violation keeps the translations that are there, and maps pages of the memslot. -/
theorem violation_kept (h : EptInv s) {slot : MiniKvmMemslot} (hs : s.MapsSlot slot) {gpa : BitVec 64}
    (hgpa : gpa.toNat < 2 ^ 48) : let s' := (eptHandleViolation slot s gpa).1
    EptInv s' ∧ s'.MapsSlot slot ∧ LeavesKept s s' ∧ s'.ept.eptp = s.ept.eptp := by
  have hcall := h.eptHandleViolation_cases slot gpa
  generalize eptHandleViolation slot s gpa = x at hcall ⊢
  obtain ⟨s', r⟩ := x
  obtain ⟨hinv, hpml4, heptp, ⟨-, hsame⟩ | ⟨-, hcov, hleaf⟩⟩ := hcall
  · exact ⟨hinv, hsame.mapsSlot hs, hsame.kept, heptp⟩
  · have hvalid : slot.valid = true := by
      unfold MiniKvmMemslot.covers at hcov
      simp only [Bool.and_eq_true] at hcov
      exact hcov.1.1
    rw [eptPath_and_pageMask, eptIndex_and_pageMask] at hleaf
    refine ⟨hinv, fun q hq j => ?_, fun q hq j hne => ?_, heptp⟩
    · by_cases hqj : q = eptPath gpa ∧ j = eptIndex gpa 12
      · refine .inr ⟨hvalid, gpa, hgpa, hqj.1.symm, hqj.2.symm, ?_⟩
        rw [hleaf hq, if_pos hqj]
      · rw [hleaf hq, if_neg hqj]
        exact hs hq j
    · rw [hleaf hq]
      split
      · rename_i hqj
        obtain ⟨rfl, rfl⟩ := hqj
        -- the entry was written before for the same page
        obtain ⟨-, g, hg, hpath, hindex, hold⟩ := (hs hq _).resolve_left hne
        have hpage := (eptPath_index_iff hg hgpa).1 ⟨hpath, hindex⟩
        rw [hold, MiniKvmMemslot.pageOf, MiniKvmMemslot.pageOf, and_pageMask_congr hpage]
      · rfl

/-! ### The hardware walk -/

/-- What the hardware finds stays while the entries stay. -/
theorem hwWalk_kept {s' : EptState} (h : EptInv s) (h' : EptInv s') (heptp : pfnOf s.ept.eptp = s.ept.pml4)
    (heptp' : pfnOf s'.ept.eptp = s'.ept.pml4) (hkept : LeavesKept s s') {gpa e : BitVec 64}
    (hleaf : hwWalk s.mem s.ept.eptp gpa = .leaf e) : hwWalk s'.mem s'.ept.eptp gpa = .leaf e := by
  rw [h.hwWalk_eq heptp] at hleaf
  have hne : s.leafAt (eptPath gpa) (eptIndex gpa 12) ≠ 0 := by
    intro hzero
    have hnone : eptDecode 0 = .notPresent := by decide
    rw [hzero, hnone] at hleaf
    exact absurd hleaf (by simp)
  rw [h'.hwWalk_eq heptp', hkept rfl _ hne, hleaf]

end EptInv

end MiniVirt.Kvm
