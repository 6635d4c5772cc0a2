import MiniVirt.Lib.Ledger
import Mathlib.Algebra.BigOperators.Group.List.Basic
import Mathlib.Algebra.Ring.Int.Defs

/-!
# Threads over a shared state

A `Pool` is a shared state with threads, each in a local state of its own.  `Pool.exec f i` lets the thread
`i` take its next step: `f t` is a program on the shared state that returns the next local state of a thread in
`t`.  Threads keep their numbers, new ones come last.

When every thread holds some resources, a step is about what its own thread and the shared state hold, and
`Pool.runs_set` adds what the other threads hold.
-/

namespace MiniVirt

variable {σ τ : Type}

structure Pool (σ τ : Type) where
  shared : σ
  threads : List τ

namespace Pool

variable {f : τ → StateM σ τ} {x : Pool σ τ} {t : τ} {i : Nat}

def spawn (x : Pool σ τ) (t : τ) : Pool σ τ := { x with threads := x.threads ++ [t] }

/-- The next step of the thread `i`; nothing if there is no such thread. -/
def exec (f : τ → StateM σ τ) (x : Pool σ τ) (i : Nat) : Pool σ τ :=
  match x.threads[i]? with
  | none => x
  | some t => ⟨((f t).run x.shared).2, x.threads.set i ((f t).run x.shared).1⟩

theorem exec_none (h : x.threads[i]? = none) : x.exec f i = x := by
  unfold exec
  rw [h]

theorem exec_some (h : x.threads[i]? = some t) :
    x.exec f i = ⟨((f t).run x.shared).2, x.threads.set i ((f t).run x.shared).1⟩ := by
  unfold exec
  rw [h]

/-- A step that changes nothing. -/
theorem exec_self (h : x.threads[i]? = some t) (hf : (f t).run x.shared = (t, x.shared)) : x.exec f i = x := by
  obtain ⟨hlt, rfl⟩ := List.getElem?_eq_some_iff.1 h
  rw [exec_some h, hf, List.set_getElem_self hlt]

/-- A thread after the step is the one that took it or was there before. -/
theorem getElem?_set_cases {l : List τ} {j : Nat} {t' u : τ} (h : (l.set i t')[j]? = some u) :
    j = i ∧ u = t' ∨ j ≠ i ∧ l[j]? = some u := by
  rw [List.getElem?_set] at h
  by_cases hij : i = j
  · rw [if_pos hij] at h
    split at h
    · exact .inl ⟨hij.symm, (Option.some.inj h).symm⟩
    · cases h
  · rw [if_neg hij] at h
    exact .inr ⟨fun hji => hij hji.symm, h⟩

theorem getElem?_set_self {l : List τ} (h : l[i]? = some t) (t' : τ) : (l.set i t')[i]? = some t' := by
  obtain ⟨hlt, -⟩ := List.getElem?_eq_some_iff.1 h
  rw [List.getElem?_set, if_pos rfl, if_pos hlt]

/-- A sum over all threads, as that over one of them and the others. -/
theorem sum_map_eq_add {M : Type} [AddCommMonoid M] (g : τ → M) {l : List τ} (h : l[i]? = some t) :
    (l.map g).sum = g t + ((l.eraseIdx i).map g).sum := by
  obtain ⟨hlt, rfl⟩ := List.getElem?_eq_some_iff.1 h
  have hlt' : i < (l.map g).length := by rwa [List.length_map]
  have hsum := List.add_sum_eraseIdx hlt' fun a _ => AddCommute.all _ a
  rw [List.getElem_map, List.eraseIdx_map] at hsum
  exact hsum.symm

/-- If each turn of a thread leaves less to do, a schedule takes off as much as it gives the thread turns. -/
theorem left_foldl_exec {left : τ → Nat} (hstep : ∀ t s, left ((f t).run s).1 ≤ left t - 1) (sched : List Nat)
    {x : Pool σ τ} (h : (sched.foldl (exec f) x).threads[i]? = some t) :
    ∃ t₀, x.threads[i]? = some t₀ ∧ left t ≤ left t₀ - sched.count i := by
  induction sched generalizing x with
  | nil => exact ⟨t, h, Nat.le_refl _⟩
  | cons j sched ih =>
    obtain ⟨t₁, ht₁, hleft⟩ := ih h
    rw [List.count_cons]
    cases hj : x.threads[j]? with
    | none =>
      rw [exec_none hj] at ht₁
      have hne : j ≠ i := by
        rintro rfl
        cases hj.symm.trans ht₁
      exact ⟨t₁, ht₁, by rwa [if_neg (by simpa using hne), Nat.add_zero]⟩
    | some u =>
      rw [exec_some hj] at ht₁
      obtain ⟨rfl, rfl⟩ | ⟨hne, ht₁⟩ := getElem?_set_cases ht₁
      · have hturn := hstep u x.shared
        refine ⟨u, hj, ?_⟩
        rw [if_pos (beq_self_eq_true i)]
        omega
      · exact ⟨t₁, ht₁, by rwa [if_neg (by simpa using hne.symm), Nat.add_zero]⟩

/-! ### What the threads hold -/

section Held

variable {ρ : Type} (held : τ → Multiset ρ)

/-- What the threads hold together. -/
def heldBy (l : List τ) : Multiset ρ := (l.map held).sum

theorem heldBy_append_singleton (l : List τ) (t : τ) : heldBy held (l ++ [t]) = heldBy held l + held t := by
  unfold heldBy
  rw [List.map_append, List.sum_append, List.map_singleton, List.sum_singleton]

theorem heldBy_eq_zero {l : List τ} (h : ∀ t ∈ l, held t = 0) : heldBy held l = 0 := by
  refine List.sum_eq_zero fun m hm => ?_
  obtain ⟨t, ht, rfl⟩ := List.mem_map.1 hm
  exact h t ht

theorem mem_heldBy {l : List τ} {r : ρ} : r ∈ heldBy held l ↔ ∃ t ∈ l, r ∈ held t := by
  unfold heldBy
  induction l with
  | nil => simp
  | cons t l ih =>
    rw [List.map_cons, List.sum_cons, Multiset.mem_add, ih]
    simp

/-- What one thread holds, and the others. -/
theorem heldBy_eq_add {l : List τ} (h : l[i]? = some t) :
    heldBy held l = held t + heldBy held (l.eraseIdx i) :=
  sum_map_eq_add held h

theorem heldBy_set_eq_add {l : List τ} (h : l[i]? = some t) (t' : τ) :
    heldBy held (l.set i t') = held t' + heldBy held (l.eraseIdx i) := by
  rw [heldBy_eq_add held (getElem?_set_self h t'), List.eraseIdx_set_eq]

/-- A step leads from holdings to holdings if it does so for its own thread alone. -/
theorem runs_set [DecidableEq ρ] {l : List τ} (h : l[i]? = some t) {t' : τ} {m m' : Multiset ρ}
    {log : List (LedgerEvent ρ)} (hstep : Ledger.Runs (m + held t) log (m' + held t')) :
    Ledger.Runs (m + heldBy held l) log (m' + heldBy held (l.set i t')) := by
  rw [heldBy_eq_add held h, heldBy_set_eq_add held h, ← add_assoc, ← add_assoc]
  exact hstep.frame _

end Held

/-! ### Threads with parts of their own -/

section Parts

variable {κ : Type}

/-- Each thread has a part of the shared state to itself, by its key.  `At` says where it is with that part, `G` holds
of the shared state, and `n` is a counter to which each thread has contributed `w`. -/
structure OwnParts (f : τ → StateM σ τ) (key : τ → κ) (At : σ → τ → Prop) (G : σ → Prop) (n : σ → Int)
    (w : σ → τ → Int) : Prop where
  key_step : ∀ s t, key ((f t).run s).1 = key t
  own : ∀ s t, G s → At s t → G ((f t).run s).2 ∧ At ((f t).run s).2 ((f t).run s).1 ∧
    n ((f t).run s).2 - n s = w ((f t).run s).2 ((f t).run s).1 - w s t
  others : ∀ s t u, G s → At s t → key u ≠ key t → At s u → At ((f t).run s).2 u ∧ w ((f t).run s).2 u = w s u

/-- What a pool of such threads keeps. -/
structure Parts (key : τ → κ) (At : σ → τ → Prop) (G : σ → Prop) (n : σ → Int) (w : σ → τ → Int) (keys : List κ)
    (c : Int)
    (x : Pool σ τ) : Prop where
  keys : x.threads.map key = keys
  shared : G x.shared
  threads : ∀ t ∈ x.threads, At x.shared t
  count : n x.shared = c + (x.threads.map (w x.shared)).sum

variable {key : τ → κ} {At : σ → τ → Prop} {G : σ → Prop} {n : σ → Int} {w : σ → τ → Int} {keys : List κ} {c : Int}

theorem Parts.exec (hf : OwnParts f key At G n w) (hkeys : keys.Nodup) (h : Parts key At G n w keys c x) (i : Nat) :
    Parts key At G n w keys c (x.exec f i) := by
  cases hi : x.threads[i]? with
  | none => rwa [exec_none hi]
  | some t =>
    have hmem := List.mem_of_getElem? hi
    obtain ⟨hshared, hown, hcount⟩ := hf.own x.shared t h.shared (h.threads t hmem)
    have hothers : ∀ j u, j ≠ i → x.threads[j]? = some u →
        At ((f t).run x.shared).2 u ∧ w ((f t).run x.shared).2 u = w x.shared u := by
      intro j u hj hu
      apply hf.others x.shared t u h.shared (h.threads t hmem) _ (h.threads u (List.mem_of_getElem? hu))
      -- another thread has another key
      intro hkey
      have hnodup : (x.threads.map key).Nodup := by rwa [h.keys]
      have hlt := (List.getElem?_eq_some_iff.1 hu).1
      apply hj
      apply (List.getElem?_inj (by rwa [List.length_map]) hnodup).1
      rw [List.getElem?_map, List.getElem?_map, hu, hi, Option.map_some, Option.map_some, hkey]
    rw [exec_some hi]
    refine ⟨?_, hshared, fun u hu => ?_, ?_⟩
    · show (x.threads.set i ((f t).run x.shared).1).map key = keys
      rw [List.map_set, hf.key_step, ← h.keys]
      obtain ⟨hlt, rfl⟩ := List.getElem?_eq_some_iff.1 hi
      rw [← List.getElem_map key (h := by rwa [List.length_map]), List.set_getElem_self]
    · obtain ⟨j, hj⟩ := List.mem_iff_getElem?.1 hu
      obtain ⟨-, rfl⟩ | ⟨hne, hu⟩ := getElem?_set_cases hj
      · exact hown
      · exact (hothers j u hne hu).1
    · have hrest : (x.threads.eraseIdx i).map (w ((f t).run x.shared).2) = (x.threads.eraseIdx i).map (w x.shared) := by
        apply List.map_congr_left
        intro u hu
        obtain ⟨j, hne, hj⟩ := List.mem_eraseIdx_iff_getElem?.1 hu
        exact (hothers j u hne hj).2
      have hbefore := h.count
      rw [sum_map_eq_add _ hi] at hbefore
      show n ((f t).run x.shared).2 =
        c + ((x.threads.set i ((f t).run x.shared).1).map (w ((f t).run x.shared).2)).sum
      rw [sum_map_eq_add _ (getElem?_set_self hi _), List.eraseIdx_set_eq, hrest]
      omega

theorem Parts.run (hf : OwnParts f key At G n w) (hkeys : keys.Nodup) (h : Parts key At G n w keys c x)
    (sched : List Nat) :
    Parts key At G n w keys c (sched.foldl (Pool.exec f) x) := by
  induction sched generalizing x with
  | nil => exact h
  | cons i sched ih => exact ih (h.exec hf hkeys i)

end Parts

end Pool

end MiniVirt
