import MiniVirt.Kvm.Ept
import Mathlib.Data.List.ReduceOption

/-!
# The EPT of a VM represents the violations handled so far

`EptInv` is the invariant of the tables: below the root they form a radix tree of depth 3 whose
pages are all different and all tracked, and every entry above the last level is zero or a link.
One level of the walk keeps it (`EptInv.eptNextTable_spec`), hence so does the whole walk, and in the end
a handled violation changes the leaf entry of its own page and no other
(`EptInv.eptHandleViolation_cases`).
-/

namespace MiniVirt.Kvm

open RadixTable

/-! ### Entries -/

/-- The table that an entry above the last level refers to. -/
def eptChild (e : BitVec 64) : Option Pfn :=
  if e &&& eptPteRead = 0 then none else some (pfnOf e)

/-- A non-leaf entry as `mini_ept_walk()` writes it. -/
def eptLink (np : Pfn) : BitVec 64 := pageToPhys np ||| eptEntryRwx

theorem eptChild_zero : eptChild 0 = none := by decide

/-- A page address with other bits set still refers to the page. -/
theorem pfnOf_or {c : BitVec 64} (np : Pfn) (hc : c &&& eptPteAddrMask = 0) :
    pfnOf (pageToPhys np ||| c) = np := by
  have hmask : ∀ i < 40, eptPteAddrMask.getLsbD (12 + i) = true := by decide
  have hlow : ∀ i < 40, c.getLsbD (12 + i) = false := by
    intro i hi
    have := congrArg (fun x => x.getLsbD (12 + i)) hc
    simpa [BitVec.getLsbD_and, hmask i hi] using this
  ext i hi
  have h64 : 12 + i < 64 := by omega
  have hm := hmask i hi
  have hl := hlow i hi
  rw [BitVec.getLsbD_eq_getElem h64] at hm hl
  simp [pfnOf, pageToPhys, hm, hl, h64, BitVec.getLsbD_eq_getElem hi]

theorem pfnOf_eptLink (np : Pfn) : pfnOf (eptLink np) = np := pfnOf_or np (by decide)

theorem pageToPhys_and_low (np : Pfn) : pageToPhys np &&& 0xfff = 0#64 := by
  ext i hi
  have h := (by decide : ∀ i < 64, 12 ≤ i → (0xfff : BitVec 64).getLsbD i = false) i hi
  rw [BitVec.getLsbD_eq_getElem hi] at h
  by_cases h12 : i < 12
  · simp [pageToPhys, h12]
  · rw [BitVec.getElem_and, h (by omega), Bool.and_false, BitVec.getElem_zero]

/-- Below the page address, an entry has the bits that were put there. -/
theorem or_and_low {c k : BitVec 64} (np : Pfn) (hk : 0xfff &&& k = k) :
    (pageToPhys np ||| c) &&& k = c &&& k := by
  have h : pageToPhys np &&& k = 0#64 := by
    rw [← hk, ← BitVec.and_assoc, pageToPhys_and_low, BitVec.zero_and]
  rw [BitVec.and_or_distrib_right, h, BitVec.zero_or]

theorem eptChild_eptLink (np : Pfn) : eptChild (eptLink np) = some np := by
  have h : eptLink np &&& eptPteRead ≠ 0 := by
    rw [eptLink, or_and_low np (by decide)]
    decide
  rw [eptChild, if_neg h, pfnOf_eptLink]

theorem eptPresent_eptLink (np : Pfn) : eptPresent (eptLink np) = true := by
  rw [eptPresent, eptLink, or_and_low np (by decide)]
  decide

theorem eptLink_and_reserved (np : Pfn) : eptLink np &&& 0xf8 = 0 := by
  rw [eptLink, or_and_low np (by decide)]
  decide

theorem eptPresent_eptLeaf (page : Pfn) : eptPresent (eptLeaf page) = true := by
  rw [eptPresent, eptLeaf, BitVec.or_assoc, or_and_low page (by decide)]
  decide

/-! ### The invariant -/

/-- The pinned page behind the guest-physical page of `gpa`. -/
def MiniKvmMemslot.pageOf (slot : MiniKvmMemslot) (gpa : BitVec 64) : Pfn :=
  slot.pages (((gpa &&& pageMask) - slot.baseGpa) >>> 12).toNat

/-- The page of tables reached from the root of `s` along a path. -/
abbrev EptState.walk (s : EptState) (p : List (Fin 512)) : Option Pfn :=
  RadixTable.walk eptChild s.mem s.ept.pml4 p

/-- The last-level entry at the path `p` and the index `i`, zero when the path is not there. -/
def EptState.leafAt (s : EptState) (p : List (Fin 512)) (i : Fin 512) : BitVec 64 :=
  (s.walk p).elim 0 fun a => s.mem a i

/-- The indices of the tables that a walk for `gpa` goes through. -/
def eptPath (gpa : BitVec 64) : List (Fin 512) := [39, 30, 21].map (eptIndex gpa)

/-- The state after a new table page is linked at `(table, i)`. -/
def EptState.link (s : EptState) (table : Pfn) (i : Fin 512) (np : Pfn) (as : List (Option Pfn)) :
    EptState where
  mem := setEntry (fillPage s.mem np 0) table i (eptLink np)
  ept := { s.ept with tracked := s.ept.tracked ++ [np] }
  allocs := as

/-- The state after the last-level entry `(t, i)` is written. -/
def EptState.writeLeaf (s : EptState) (t : Pfn) (i : Fin 512) (e : BitVec 64) : EptState :=
  { s with mem := s.mem.set t i e }

structure EptInv (s : EptState) : Prop where
  separated : Separated eptChild s.mem s.ept.pml4 3
  tracked : ∀ ⦃p a⦄, p ≠ [] → p.length ≤ 3 → s.walk p = some a → a ∈ s.ept.tracked
  linked : ∀ ⦃p a⦄, p.length ≤ 2 → s.walk p = some a → ∀ i,
    s.mem a i = 0 ∨ ∃ np, s.mem a i = eptLink np
  nodup : s.allocs.reduceOption.Nodup
  fresh : ∀ np ∈ s.allocs.reduceOption, np ∉ s.ept.pml4 :: s.ept.tracked

/-- `s'` comes from `s` with the same root and without a change to a last-level entry. -/
structure SameLeaves (s s' : EptState) : Prop where
  pml4 : s'.ept.pml4 = s.ept.pml4
  eptp : s'.ept.eptp = s.ept.eptp
  leafAt : ∀ ⦃p⦄, p.length = 3 → ∀ i, s'.leafAt p i = s.leafAt p i

theorem SameLeaves.refl (s : EptState) : SameLeaves s s := ⟨rfl, rfl, fun _ _ _ => rfl⟩

theorem SameLeaves.trans {s₁ s₂ s₃ : EptState} (h₁ : SameLeaves s₁ s₂) (h₂ : SameLeaves s₂ s₃) :
    SameLeaves s₁ s₃ :=
  ⟨h₂.pml4.trans h₁.pml4, h₂.eptp.trans h₁.eptp,
    fun _ hp i => (h₂.leafAt hp i).trans (h₁.leafAt hp i)⟩

namespace EptInv

variable {s : EptState} {p : List (Fin 512)} {table np : Pfn} {i : Fin 512}
  {as : List (Option Pfn)}

theorem unreached (h : EptInv s) (ha : s.allocs = some np :: as) :
    Unreached eptChild s.mem s.ept.pml4 3 np := by
  intro p hp hw
  have hnp := h.fresh np (by rw [ha, List.reduceOption_cons_of_some]; exact List.mem_cons_self)
  rw [List.mem_cons, not_or] at hnp
  cases p with
  | nil => exact hnp.1 (Option.some.inj hw).symm
  | cons j p => exact hnp.2 (h.tracked (List.cons_ne_nil j p) hp hw)

/-- Allocations that fail or are not used leave the invariant. -/
theorem dropAllocs (h : EptInv s) (ha : as <:+ s.allocs) : EptInv { s with allocs := as } where
  separated := h.separated
  tracked := h.tracked
  linked := h.linked
  nodup := by
    obtain ⟨bs, hbs⟩ := ha
    have := h.nodup
    rw [← hbs, List.reduceOption_append] at this
    exact this.sublist (List.sublist_append_right _ _)
  fresh := by
    obtain ⟨bs, hbs⟩ := ha
    intro np hnp
    refine h.fresh np ?_
    rw [← hbs, List.reduceOption_append]
    exact List.mem_append_right _ hnp

theorem walk_link (h : EptInv s) (ha : s.allocs = some np :: as)
    (hp : s.walk p = some table) (hpd : p.length ≤ 2) (hi : eptChild (s.mem table i) = none)
    {q : List (Fin 512)} (hq : q.length ≤ 3) :
    (s.link table i np as).walk q = if q = p ++ [i] then some np else s.walk q :=
  h.separated.walk_link (h.unreached ha) eptChild_zero (eptChild_eptLink np) hp (by omega) hi hq

theorem mem_link_new (hne : np ≠ table) (j : Fin 512) :
    (s.link table i np as).mem np j = 0 := by
  have hj : (np, j) ≠ (table, i) := by simp [hne]
  exact (setEntry_of_ne hj).trans fillPage_self

theorem mem_link_old {c : Pfn} {j : Fin 512} (hc : c ≠ np) (hcj : (c, j) ≠ (table, i)) :
    (s.link table i np as).mem c j = s.mem c j := by
  exact (setEntry_of_ne hcj).trans (congrFun (fillPage_of_ne hc) j)

theorem link (h : EptInv s) (ha : s.allocs = some np :: as) (hp : s.walk p = some table)
    (hpd : p.length ≤ 2) (hi : eptChild (s.mem table i) = none) :
    EptInv (s.link table i np as) := by
  -- no walk comes to the new page, so it is not one of the tables
  have hun := h.unreached ha
  have hne : np ≠ table := by
    rintro rfl
    exact hun p (by omega) hp
  have hwalk := fun {q} => walk_link h ha hp hpd hi (q := q)
  have hmem : np ∈ s.allocs.reduceOption := by
    rw [ha, List.reduceOption_cons_of_some]
    exact List.mem_cons_self
  have hnodup := h.nodup
  rw [ha, List.reduceOption_cons_of_some, List.nodup_cons] at hnodup
  constructor
  · exact h.separated.link hun eptChild_zero (eptChild_eptLink np) hp (by omega) hi
  · intro q c hq0 hq hc
    rw [hwalk hq] at hc
    refine List.mem_append.2 ?_
    split at hc
    · exact .inr (List.mem_singleton.2 (Option.some.inj hc).symm)
    · exact .inl (h.tracked hq0 hq hc)
  · -- the new table has no entries yet; of the old ones only `i` of `table` changes
    intro q c hq hc j
    rw [hwalk (by omega)] at hc
    split at hc
    · obtain rfl := Option.some.inj hc
      exact .inl (mem_link_new hne j)
    · have hcn : c ≠ np := by
        rintro rfl
        exact hun q (by omega) hc
      by_cases hcj : (c, j) = (table, i)
      · obtain ⟨rfl, rfl⟩ := Prod.mk.inj hcj
        exact .inr ⟨np, setEntry_self⟩
      · rw [mem_link_old hcn hcj]
        exact h.linked hq hc j
  · exact hnodup.2
  · intro np' hnp'
    have hold := h.fresh np' (by
      rw [ha, List.reduceOption_cons_of_some]
      exact List.mem_cons_of_mem _ hnp')
    rw [EptState.link, ← List.cons_append, List.mem_append, not_or]
    refine ⟨hold, fun h' => hnodup.1 ?_⟩
    rwa [← List.mem_singleton.1 h']

theorem sameLeaves_link (h : EptInv s) (ha : s.allocs = some np :: as)
    (hp : s.walk p = some table) (hpd : p.length ≤ 2) (hi : eptChild (s.mem table i) = none) :
    SameLeaves s (s.link table i np as) := by
  have hun := h.unreached ha
  refine ⟨rfl, rfl, fun q hq j => ?_⟩
  rw [EptState.leafAt, EptState.leafAt, walk_link h ha hp hpd hi hq.le]
  split
  · rename_i hqp
    -- the new table is empty, and there was none before
    have hnone : s.walk q = none := by
      have hp' : walk eptChild s.mem s.ept.pml4 p = some table := hp
      rw [hqp, EptState.walk, walk_append, hp', Option.bind_some, walk_cons, hi, Option.bind_none]
    have hne : np ≠ table := by
      rintro rfl
      exact hun p (by omega) hp
    rw [hnone]
    exact mem_link_new hne j
  · cases hc : s.walk q with
    | none => rfl
    | some c =>
      have hcn : c ≠ np := by
        rintro rfl
        exact hun q hq.le hc
      have hct : c ≠ table := by
        rintro rfl
        have := h.separated hq.le (by omega) hc hp
        rw [this] at hq
        omega
      exact mem_link_old hcn (by simp [hct])

/-! ### One level of the walk, and the walk -/

/-- All that one level of an allocating walk can do. -/
theorem eptNextTable_cases (s : EptState) (table : Pfn) (i : Fin 512) :
    (∃ b, eptChild (s.mem table i) = some b ∧ eptNextTable s table i true = (s, some b)) ∨
    (∃ as, as <:+ s.allocs ∧ eptNextTable s table i true = ({ s with allocs := as }, none)) ∨
    ∃ np as, s.allocs = some np :: as ∧ eptChild (s.mem table i) = none ∧
      eptNextTable s table i true = (s.link table i np as, some np) := by
  by_cases hr : s.mem table i &&& eptPteRead = 0
  · rw [eptNextTable, if_pos hr, Bool.not_true, if_neg Bool.false_ne_true]
    by_cases hfull : s.ept.tracked.length ≥ miniKvmEptTrackMax
    · rw [if_pos hfull]
      exact .inr (.inl ⟨s.allocs, List.suffix_refl _, rfl⟩)
    rw [if_neg hfull]
    split
    · exact .inr (.inl ⟨s.allocs, List.suffix_refl _, rfl⟩)
    · rename_i as ha
      exact .inr (.inl ⟨as, ⟨[none], by rw [ha]; rfl⟩, rfl⟩)
    · rename_i np as ha
      refine .inr (.inr ⟨np, as, ha, by rw [eptChild, if_pos hr], ?_⟩)
      have hread : ((s.mem.zeroPage np).set table i (eptLink np)) table i = eptLink np :=
        setEntry_self
      exact Prod.ext rfl (congrArg some ((congrArg pfnOf hread).trans (pfnOf_eptLink np)))
  · rw [eptNextTable, if_neg hr]
    exact .inl ⟨_, by rw [eptChild, if_neg hr], rfl⟩

theorem eptNextTable_spec (h : EptInv s) (hp : s.walk p = some table) (hpd : p.length ≤ 2) :
    let (s', r) := eptNextTable s table i true
    EptInv s' ∧ SameLeaves s s' ∧ ∀ b, r = some b → s'.walk (p ++ [i]) = some b := by
  rcases eptNextTable_cases s table i with ⟨b, hb, he⟩ | ⟨as, ha, he⟩ | ⟨np, as, ha, hi, he⟩
  · rw [he]
    refine ⟨h, .refl s, ?_⟩
    rintro _ ⟨⟩
    have hp' : walk eptChild s.mem s.ept.pml4 p = some table := hp
    rw [EptState.walk, walk_append, hp', Option.bind_some, walk_cons, hb, Option.bind_some, walk_nil]
  · rw [he]
    refine ⟨h.dropAllocs ha, ⟨rfl, rfl, fun _ _ _ => rfl⟩, ?_⟩
    rintro _ ⟨⟩
  · rw [he]
    refine ⟨h.link ha hp hpd hi, h.sameLeaves_link ha hp hpd hi, ?_⟩
    rintro _ ⟨⟩
    rw [walk_link h ha hp hpd hi (by rw [List.length_append, List.length_singleton]; omega),
      if_pos rfl]

theorem eptWalkTables_spec (h : EptInv s) (gpa : BitVec 64) (shifts : List Nat)
    (hp : s.walk p = some table) (hlen : p.length + shifts.length = 3) :
    let (s', r) := eptWalkTables gpa true shifts s table
    EptInv s' ∧ SameLeaves s s' ∧
      ∀ t, r = some t → s'.walk (p ++ shifts.map (eptIndex gpa)) = some t := by
  induction shifts generalizing s p table with
  | nil =>
    refine ⟨h, .refl s, ?_⟩
    rintro _ ⟨⟩
    rw [List.map_nil, List.append_nil]
    exact hp
  | cons shift shifts ih =>
    rw [List.length_cons] at hlen
    have hstep := eptNextTable_spec (i := eptIndex gpa shift) h hp (by omega)
    rw [eptWalkTables]
    generalize eptNextTable s table (eptIndex gpa shift) true = x at hstep ⊢
    rcases x with ⟨s₁, _ | b⟩
    · refine ⟨hstep.1, hstep.2.1, ?_⟩
      rintro _ ⟨⟩
    · obtain ⟨h₁, hsame, hb⟩ := hstep
      have hrest := ih h₁ (hb b rfl) (by rw [List.length_append, List.length_singleton]; omega)
      refine ⟨hrest.1, hsame.trans hrest.2.1, ?_⟩
      intro t ht
      rw [List.map_cons, ← List.singleton_append, ← List.append_assoc]
      exact hrest.2.2 t ht

theorem miniEptWalk_spec (h : EptInv s) (gpa : BitVec 64) :
    let (s', r) := miniEptWalk s gpa true
    EptInv s' ∧ SameLeaves s s' ∧
      ∀ t i, r = some (t, i) → s'.walk (eptPath gpa) = some t ∧ i = eptIndex gpa 12 := by
  have hw := eptWalkTables_spec (p := []) h gpa [39, 30, 21] rfl rfl
  rw [miniEptWalk]
  generalize eptWalkTables gpa true [39, 30, 21] s s.ept.pml4 = x at hw ⊢
  rcases x with ⟨s', _ | t⟩
  · refine ⟨hw.1, hw.2.1, ?_⟩
    rintro _ _ ⟨⟩
  · refine ⟨hw.1, hw.2.1, ?_⟩
    rintro _ _ ⟨⟩
    exact ⟨hw.2.2 t rfl, rfl⟩

/-! ### Writing a leaf -/

theorem leaf {t : Pfn} {e : BitVec 64} (h : EptInv s) (hp : s.walk p = some t)
    (hlen : p.length = 3) : EptInv (s.writeLeaf t i e) := by
  have hwalk : ∀ q : List (Fin 512), q.length ≤ 3 → (s.writeLeaf t i e).walk q = s.walk q :=
    fun q hq => h.separated.walk_leaf hp hlen hq
  refine ⟨h.separated.leaf hp hlen, ?_, ?_, h.nodup, h.fresh⟩
  · intro q c hq0 hq hc
    rw [hwalk q hq] at hc
    exact h.tracked hq0 hq hc
  · intro q c hq hc j
    rw [hwalk q (by omega)] at hc
    have hct : c ≠ t := by
      rintro rfl
      have := h.separated (by omega) hlen.le hc hp
      rw [this] at hq
      omega
    have hmem : (s.writeLeaf t i e).mem c j = s.mem c j := setEntry_of_ne (by simp [hct])
    rw [hmem]
    exact h.linked hq hc j

theorem leafAt_writeLeaf {t : Pfn} {e : BitVec 64} (h : EptInv s) (hp : s.walk p = some t)
    (hlen : p.length = 3) {q : List (Fin 512)} (hq : q.length = 3) (j : Fin 512) :
    (s.writeLeaf t i e).leafAt q j = if q = p ∧ j = i then e else s.leafAt q j := by
  have hwalk : (s.writeLeaf t i e).walk q = s.walk q := h.separated.walk_leaf hp hlen hq.le
  rw [EptState.leafAt, hwalk, EptState.leafAt]
  cases hc : s.walk q with
  | none =>
    rw [if_neg]
    · rfl
    · rintro ⟨rfl, -⟩
      rw [hp] at hc
      exact Option.some_ne_none t hc
  | some c =>
    by_cases hqp : q = p
    · obtain rfl : c = t := by
        rw [hqp, hp] at hc
        exact (Option.some.inj hc).symm
      by_cases hj : j = i
      · rw [if_pos ⟨hqp, hj⟩, hj]
        exact setEntry_self
      · rw [if_neg fun h => hj h.2]
        exact setEntry_of_ne (by simp [hj])
    · have hct : c ≠ t := by
        rintro rfl
        exact hqp (h.separated hq.le hlen.le hc hp)
      rw [if_neg fun h => hqp h.1]
      exact setEntry_of_ne (by simp [hct])

/-- All that a call of `mini_ept_handle_violation()` does to the translations. -/
theorem eptHandleViolation_cases (h : EptInv s) (slot : MiniKvmMemslot) (gpa : BitVec 64) :
    let (s', r) := eptHandleViolation slot s gpa
    EptInv s' ∧ s'.ept.pml4 = s.ept.pml4 ∧ s'.ept.eptp = s.ept.eptp ∧
      (r ≠ 0 ∧ SameLeaves s s' ∨
        r = 0 ∧ slot.covers (gpa &&& pageMask) = true ∧ ∀ ⦃q : List (Fin 512)⦄, q.length = 3 → ∀ j,
          s'.leafAt q j =
            if q = eptPath (gpa &&& pageMask) ∧ j = eptIndex (gpa &&& pageMask) 12 then
              eptLeaf (slot.pageOf gpa)
            else s.leafAt q j) := by
  rw [eptHandleViolation]
  by_cases hc : slot.covers (gpa &&& pageMask)
  · rw [hc, Bool.not_true, if_neg Bool.false_ne_true]
    have hw := h.miniEptWalk_spec (gpa &&& pageMask)
    generalize miniEptWalk s (gpa &&& pageMask) true = x at hw ⊢
    rcases x with ⟨s', _ | ⟨t, i⟩⟩
    · exact ⟨hw.1, hw.2.1.pml4, hw.2.1.eptp, .inl ⟨by decide, hw.2.1⟩⟩
    · obtain ⟨h', hsame, hti⟩ := hw
      obtain ⟨ht, rfl⟩ := hti t i rfl
      refine ⟨h'.leaf ht rfl, hsame.pml4, hsame.eptp, .inr ⟨rfl, rfl, fun q hq j => ?_⟩⟩
      rw [← hsame.leafAt hq j]
      exact h'.leafAt_writeLeaf ht rfl hq j
  · rw [Bool.eq_false_iff.2 hc, Bool.not_false, if_pos rfl]
    exact ⟨h, rfl, rfl, .inl ⟨by decide, .refl s⟩⟩

end EptInv

end MiniVirt.Kvm
