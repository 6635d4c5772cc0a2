import Mathlib.Algebra.Order.Group.Multiset

/-!
# Ledgers

A ledger is the list of what a program does with its resources: it takes them, uses them and gives
them back.  `Runs m l m'` says that the ledger `l` leads from the holdings `m` to the holdings `m'`
and that whatever it uses or gives back is held at that moment.  Holdings are multisets, so a resource
may be held more than once.

A part of a program is about its own holdings only, and `Runs.frame` adds those of the others.
-/

namespace MiniVirt

inductive LedgerEvent (ρ : Type) where
  | take (r : ρ)
  | use (r : ρ)
  | give (r : ρ)
  deriving DecidableEq

namespace Ledger

variable {ρ : Type} [DecidableEq ρ]

def Runs : Multiset ρ → List (LedgerEvent ρ) → Multiset ρ → Prop
  | m, [], m' => m = m'
  | m, .take r :: l, m' => Runs (r ::ₘ m) l m'
  | m, .use r :: l, m' => r ∈ m ∧ Runs m l m'
  | m, .give r :: l, m' => r ∈ m ∧ Runs (m.erase r) l m'

/-- How often `r` is taken. -/
def takes (l : List (LedgerEvent ρ)) (r : ρ) : Nat := l.count (.take r)

/-- How often `r` is given back. -/
def gives (l : List (LedgerEvent ρ)) (r : ρ) : Nat := l.count (.give r)

variable {m m' m'' : Multiset ρ} {l l' : List (LedgerEvent ρ)} {r : ρ}

theorem Runs.refl (m : Multiset ρ) : Runs m [] m := rfl

theorem Runs.append (h : Runs m l m') (h' : Runs m' l' m'') : Runs m (l ++ l') m'' := by
  induction l generalizing m with
  | nil =>
    obtain rfl : m = m' := h
    exact h'
  | cons e l ih =>
    cases e with
    | take r => exact ih h
    | use r => exact ⟨h.1, ih h.2⟩
    | give r => exact ⟨h.1, ih h.2⟩

/-- The holdings in the middle of a ledger. -/
theorem Runs.split (h : Runs m (l ++ l') m'') : ∃ m', Runs m l m' ∧ Runs m' l' m'' := by
  induction l generalizing m with
  | nil => exact ⟨m, rfl, h⟩
  | cons e l ih =>
    cases e with
    | take r => exact ih h
    | use r =>
      obtain ⟨m', h₁, h₂⟩ := ih h.2
      exact ⟨m', ⟨h.1, h₁⟩, h₂⟩
    | give r =>
      obtain ⟨m', h₁, h₂⟩ := ih h.2
      exact ⟨m', ⟨h.1, h₁⟩, h₂⟩

/-- What others hold does not matter. -/
theorem Runs.frame (h : Runs m l m') (f : Multiset ρ) : Runs (m + f) l (m' + f) := by
  induction l generalizing m with
  | nil => exact congrArg (· + f) h
  | cons e l ih =>
    cases e with
    | take r =>
      show Runs (r ::ₘ (m + f)) l (m' + f)
      rw [← Multiset.cons_add]
      exact ih h
    | use r => exact ⟨Multiset.mem_add.2 (.inl h.1), ih h.2⟩
    | give r =>
      refine ⟨Multiset.mem_add.2 (.inl h.1), ?_⟩
      rw [Multiset.erase_add_left_pos f h.1]
      exact ih h.2

/-! ### Runs of one kind -/

theorem runs_takes (m : Multiset ρ) (rs : List ρ) : Runs m (rs.map .take) ((rs : Multiset ρ) + m) := by
  induction rs generalizing m with
  | nil => exact (zero_add m).symm
  | cons r rs ih =>
    have hstep := ih (r ::ₘ m)
    rw [Multiset.add_cons, ← Multiset.cons_add, Multiset.cons_coe] at hstep
    exact hstep

theorem runs_uses {rs : List ρ} (h : ∀ r ∈ rs, r ∈ m) : Runs m (rs.map .use) m := by
  induction rs with
  | nil => rfl
  | cons r rs ih =>
    exact ⟨h r List.mem_cons_self, ih fun r' hr' => h r' (List.mem_cons_of_mem r hr')⟩

theorem runs_gives (m : Multiset ρ) (rs : List ρ) : Runs ((rs : Multiset ρ) + m) (rs.map .give) m := by
  induction rs with
  | nil => exact zero_add m
  | cons r rs ih =>
    refine ⟨Multiset.mem_add.2 (.inl (Multiset.mem_coe.2 List.mem_cons_self)), ?_⟩
    rw [← Multiset.cons_coe, Multiset.cons_add, Multiset.erase_cons_head]
    exact ih

/-! ### Runs over the images of a list -/

variable {α : Type} (f : α → ρ) (as : List α)

theorem runs_takes_map (m : Multiset ρ) : Runs m (as.map fun a => .take (f a)) ((as.map f : Multiset ρ) + m) := by
  have h := runs_takes m (as.map f)
  rwa [List.map_map] at h

theorem runs_uses_map (h : ∀ a ∈ as, f a ∈ m) : Runs m (as.map fun a => .use (f a)) m := by
  have huses : ∀ r ∈ as.map f, r ∈ m := by
    intro r hr
    obtain ⟨a, ha, rfl⟩ := List.mem_map.1 hr
    exact h a ha
  have h := runs_uses huses
  rwa [List.map_map] at h

theorem runs_gives_map (m : Multiset ρ) : Runs ((as.map f : Multiset ρ) + m) (as.map fun a => .give (f a)) m := by
  have h := runs_gives m (as.map f)
  rwa [List.map_map] at h

/-! ### Counting -/

/-- What has been taken has been given back or is held. -/
theorem Runs.count (h : Runs m l m') (r : ρ) : m.count r + takes l r = gives l r + m'.count r := by
  unfold takes gives
  induction l generalizing m with
  | nil =>
    obtain rfl : m = m' := h
    simp
  | cons e l ih =>
    cases e with
    | take q =>
      have hrest := ih h
      rw [Multiset.count_cons] at hrest
      simp only [List.count_cons, beq_iff_eq, LedgerEvent.take.injEq, reduceCtorEq, if_false]
      by_cases hq : r = q
      · subst hq
        rw [if_pos rfl] at hrest
        rw [if_pos rfl]
        omega
      · rw [if_neg hq] at hrest
        rw [if_neg fun h => hq h.symm]
        omega
    | use q =>
      have hrest := ih h.2
      simp only [List.count_cons, beq_iff_eq, reduceCtorEq, if_false]
      omega
    | give q =>
      have hrest := ih h.2
      simp only [List.count_cons, beq_iff_eq, LedgerEvent.give.injEq, reduceCtorEq, if_false]
      by_cases hq : q = r
      · subst hq
        have hpos := Multiset.count_pos.2 h.1
        rw [Multiset.count_erase_self] at hrest
        rw [if_pos rfl]
        omega
      · rw [Multiset.count_erase_of_ne (fun h => hq h.symm)] at hrest
        rw [if_neg hq]
        omega

end Ledger

end MiniVirt
