import MiniVirt.Kvm.Spec.EptRun
import Mathlib.Data.Finset.Insert
import Mathlib.Data.Finset.Card

/-!
# How many table pages a walk takes

`TablesAt s S` says that the tables below the root lie exactly at the paths `S` and that each of them is
counted once in `tracked[]`.  As long as `alloc_page()` does not fail, a walk that does not get through has
found `tracked[]` full and a path without a table (`TablesAt.eptWalkTables`), and all other walks add
the paths they go along.
-/

namespace MiniVirt.Kvm

open RadixTable

/-- The tables below the root are at the paths `S`, and no allocation fails before `tracked[]` is full. -/
structure TablesAt (s : EptState) (S : Finset (List (Fin 512))) : Prop where
  inv : EptInv s
  mem_iff : ∀ p, p ∈ S ↔ p ≠ [] ∧ p.length ≤ 3 ∧ (s.walk p).isSome
  card : S.card = s.ept.tracked.length
  le : s.ept.tracked.length ≤ miniKvmEptTrackMax
  allocs : ∀ a ∈ s.allocs, a.isSome
  enough : miniKvmEptTrackMax ≤ s.ept.tracked.length + s.allocs.length

namespace TablesAt

variable {s : EptState} {S : Finset (List (Fin 512))} {p : List (Fin 512)} {table : Pfn} {i : Fin 512}

/-- A level of the walk finds its table, adds it, or finds `tracked[]` full. -/
theorem eptNextTable_cases (h : TablesAt s S) (table : Pfn) (i : Fin 512) :
    (∃ b, eptChild (s.mem table i) = some b ∧ eptNextTable s table i true = (s, some b)) ∨
    (eptChild (s.mem table i) = none ∧ miniKvmEptTrackMax ≤ s.ept.tracked.length ∧
      eptNextTable s table i true = (s, none)) ∨
    ∃ np as, s.allocs = some np :: as ∧ eptChild (s.mem table i) = none ∧
      s.ept.tracked.length < miniKvmEptTrackMax ∧
      eptNextTable s table i true = (s.link table i np as, some np) := by
  by_cases hfull : miniKvmEptTrackMax ≤ s.ept.tracked.length
  · unfold eptNextTable
    by_cases hr : s.mem table i &&& eptPteRead = 0
    · rw [if_pos hr, Bool.not_true, if_neg Bool.false_ne_true, if_pos hfull]
      exact .inr (.inl ⟨by rw [eptChild, if_pos hr], hfull, rfl⟩)
    · rw [if_neg hr]
      exact .inl ⟨_, by rw [eptChild, if_neg hr], rfl⟩
  · have hroom : s.ept.tracked.length < miniKvmEptTrackMax := by omega
    rcases EptInv.eptNextTable_cases s table i with hfound | ⟨as, has, hnone⟩ | ⟨np, as, ha, hi, he⟩
    · exact .inl hfound
    · -- there is room, so only a failed allocation could have stopped the walk
      exfalso
      have hlen := h.enough
      unfold eptNextTable at hnone
      by_cases hr : s.mem table i &&& eptPteRead = 0
      · rw [if_pos hr, Bool.not_true, if_neg Bool.false_ne_true, if_neg hfull] at hnone
        split at hnone
        · rename_i hallocs
          rw [hallocs, List.length_nil] at hlen
          omega
        · rename_i hallocs
          have hsome := h.allocs none (by rw [hallocs]; exact List.mem_cons_self)
          exact absurd hsome (by simp)
        · exact absurd (Prod.mk.inj hnone).2 (by simp)
      · rw [if_neg hr] at hnone
        exact absurd (Prod.mk.inj hnone).2 (by simp)
    · exact .inr (.inr ⟨np, as, ha, hi, hroom, he⟩)

theorem link (h : TablesAt s S) {np : Pfn} {as : List (Option Pfn)} (ha : s.allocs = some np :: as)
    (hp : s.walk p = some table) (hpd : p.length ≤ 2) (hi : eptChild (s.mem table i) = none)
    (hroom : s.ept.tracked.length < miniKvmEptTrackMax) :
    TablesAt (s.link table i np as) (insert (p ++ [i]) S) := by
  have hwalk := fun {q} => h.inv.walk_link ha hp hpd hi (q := q)
  -- there was no table there
  have hnew : p ++ [i] ∉ S := by
    have hp' : walk eptChild s.mem s.ept.pml4 p = some table := hp
    rw [h.mem_iff, EptState.walk, walk_append_singleton, hp', Option.bind_some, hi]
    simp
  have hlen : (s.link table i np as).ept.tracked.length = s.ept.tracked.length + 1 := List.length_append
  constructor
  · exact h.inv.link ha hp hpd hi
  · intro q
    rw [Finset.mem_insert, h.mem_iff]
    by_cases hq : q.length ≤ 3
    · rw [hwalk hq]
      by_cases hqp : q = p ++ [i]
      · rw [if_pos hqp]
        exact iff_of_true (.inl hqp) ⟨by rw [hqp]; simp, hq, rfl⟩
      · rw [if_neg hqp, or_iff_right hqp]
    · refine iff_of_false ?_ fun hand => hq hand.2.1
      rintro (rfl | hand)
      · rw [List.length_append, List.length_singleton] at hq
        omega
      · exact hq hand.2.1
  · rw [Finset.card_insert_of_notMem hnew, h.card, hlen]
  · rw [hlen]
    exact hroom
  · intro a hmem
    refine h.allocs a ?_
    rw [ha]
    exact List.mem_cons_of_mem _ hmem
  · have henough := h.enough
    rw [ha, List.length_cons] at henough
    rw [hlen]
    show miniKvmEptTrackMax ≤ s.ept.tracked.length + 1 + as.length
    omega

/-- What a walk that starts at the path `p` does to the tables at `S`, where `path` is the whole path. -/
structure Walked (S S' : Finset (List (Fin 512))) (p path : List (Fin 512)) (ok : Bool) : Prop where
  grows : S ⊆ S'
  new : ∀ q ∈ S', q ∈ S ∨ q <+: path ∧ q ≠ []
  found : ok = true → ∀ q, q <+: path → p.length < q.length → q ∈ S'
  full : ok = false → miniKvmEptTrackMax ≤ S'.card ∧ ∃ q, q <+: path ∧ q ≠ [] ∧ q ∉ S'

theorem eptWalkTables (h : TablesAt s S) (gpa : BitVec 64) (shifts : List Nat) (hp : s.walk p = some table)
    (hlen : p.length + shifts.length = 3) :
    let (s', r) := eptWalkTables gpa true shifts s table
    ∃ S', TablesAt s' S' ∧ Walked S S' p (p ++ shifts.map (eptIndex gpa)) r.isSome := by
  induction shifts generalizing s S p table with
  | nil =>
    refine ⟨S, h, fun q hq => hq, fun q hq => .inl hq, fun _ q hq hlt => ?_, fun h => by cases h⟩
    rw [List.map_nil, List.append_nil] at hq
    exact absurd hq.length_le (by omega)
  | cons shift shifts ih =>
    rw [List.length_cons] at hlen
    have hpath : p ++ (shift :: shifts).map (eptIndex gpa) =
        p ++ [eptIndex gpa shift] ++ shifts.map (eptIndex gpa) := by
      rw [List.map_cons, List.append_assoc, List.singleton_append]
    have hlen' : (p ++ [eptIndex gpa shift]).length = p.length + 1 := List.length_append
    have hpre : p ++ [eptIndex gpa shift] <+: p ++ [eptIndex gpa shift] ++ shifts.map (eptIndex gpa) :=
      List.prefix_append ..
    have hstep := EptInv.eptNextTable_spec (i := eptIndex gpa shift) h.inv hp (by omega)
    rw [Kvm.eptWalkTables, hpath]
    -- a longer prefix is the path of this level or one of the levels below
    have hcover : ∀ {S' : Finset (List (Fin 512))}, p ++ [eptIndex gpa shift] ∈ S' →
        (∀ q, q <+: p ++ [eptIndex gpa shift] ++ shifts.map (eptIndex gpa) →
          (p ++ [eptIndex gpa shift]).length < q.length → q ∈ S') →
        ∀ q, q <+: p ++ [eptIndex gpa shift] ++ shifts.map (eptIndex gpa) → p.length < q.length → q ∈ S' := by
      intro S' hmem hbelow q hq hlt
      by_cases heq : q.length = p.length + 1
      · have := List.prefix_of_prefix_length_le hq hpre (by omega)
        rw [this.eq_of_length (by omega)]
        exact hmem
      · exact hbelow q hq (by omega)
    rcases h.eptNextTable_cases table (eptIndex gpa shift) with ⟨b, hb, he⟩ | ⟨hi, hfull, he⟩ |
        ⟨np, as, ha, hi, hroom, he⟩
    · rw [he] at hstep ⊢
      have hwalk := hstep.2.2 b rfl
      have hrest := ih h hwalk (by omega)
      dsimp only
      generalize Kvm.eptWalkTables gpa true shifts s b = x at hrest ⊢
      obtain ⟨s', r⟩ := x
      obtain ⟨S', h', hw⟩ := hrest
      refine ⟨S', h', hw.grows, hw.new, fun hr => hcover (hw.grows ?_) (hw.found hr), hw.full⟩
      exact (h.mem_iff _).2 ⟨by simp, by omega, by rw [hwalk]; rfl⟩
    · rw [he]
      refine ⟨S, h, fun q hq => hq, fun q hq => .inl hq, ?_, fun _ => ⟨?_, p ++ [eptIndex gpa shift], hpre, ?_, ?_⟩⟩
      · intro hr
        cases hr
      · rw [h.card]
        exact hfull
      · simp
      · have hp' : walk eptChild s.mem s.ept.pml4 p = some table := hp
        rw [h.mem_iff, EptState.walk, walk_append_singleton, hp', Option.bind_some, hi]
        simp
    · rw [he] at hstep ⊢
      have hrest := ih (h.link ha hp (by omega) hi hroom) (hstep.2.2 np rfl) (by omega)
      dsimp only
      generalize Kvm.eptWalkTables gpa true shifts (s.link table (eptIndex gpa shift) np as) np = x at hrest ⊢
      obtain ⟨s', r⟩ := x
      obtain ⟨S', h', hw⟩ := hrest
      refine ⟨S', h', fun q hq => hw.grows (Finset.mem_insert_of_mem hq), ?_, ?_, hw.full⟩
      · intro q hq
        rcases hw.new q hq with hq | hq
        · rcases Finset.mem_insert.1 hq with rfl | hq
          · exact .inr ⟨hpre, by simp⟩
          · exact .inl hq
        · exact .inr hq
      · intro hr
        exact hcover (hw.grows (Finset.mem_insert_self ..)) (hw.found hr)

theorem writeLeaf {t : Pfn} {e : BitVec 64} (h : TablesAt s S) (hp : s.walk p = some t) (hlen : p.length = 3) :
    TablesAt (s.writeLeaf t i e) S := by
  have hwalk : ∀ q : List (Fin 512), q.length ≤ 3 → (s.writeLeaf t i e).walk q = s.walk q :=
    fun q hq => h.inv.separated.walk_leaf hp hlen hq
  refine ⟨h.inv.leaf hp hlen, fun q => ?_, h.card, h.le, h.allocs, h.enough⟩
  rw [h.mem_iff]
  by_cases hq : q.length ≤ 3
  · rw [hwalk q hq]
  · exact iff_of_false (fun hand => hq hand.2.1) fun hand => hq hand.2.1

/-- A violation inside the memslot is handled, or `tracked[]` is full and a table is missing. -/
theorem eptHandleViolation (h : TablesAt s S) {slot : MiniKvmMemslot} {gpa : BitVec 64}
    (hcov : slot.covers (gpa &&& pageMask) = true) :
    let (s', r) := eptHandleViolation slot s gpa
    ∃ S', TablesAt s' S' ∧ Walked S S' [] (eptPath gpa) (r == 0) := by
  unfold Kvm.eptHandleViolation miniEptWalk
  dsimp only
  rw [hcov, Bool.not_true, if_neg Bool.false_ne_true]
  have hw := h.eptWalkTables (p := []) (gpa &&& pageMask) [39, 30, 21] rfl rfl
  have hspec := h.inv.eptWalkTables_spec (p := []) (gpa &&& pageMask) [39, 30, 21] rfl rfl
  generalize Kvm.eptWalkTables (gpa &&& pageMask) true [39, 30, 21] s s.ept.pml4 = x at hw hspec ⊢
  have hpath : [] ++ [39, 30, 21].map (eptIndex (gpa &&& pageMask)) = eptPath gpa :=
    eptPath_and_pageMask gpa
  rw [hpath] at hw hspec
  obtain ⟨s', r⟩ := x
  obtain ⟨S', h', hw⟩ := hw
  cases r with
  | none => exact ⟨S', h', hw⟩
  | some t => exact ⟨S', h'.writeLeaf (hspec.2.2 t rfl) rfl, hw⟩

end TablesAt

end MiniVirt.Kvm
