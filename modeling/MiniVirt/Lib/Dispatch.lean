import MiniVirt.Lib.Runs
import Mathlib.Data.List.Basic
import Mathlib.Logic.Function.Basic

/-!
# A machine made of components

Every input of the machine belongs to one of its components, which answers it and changes its own state; a
component may also fail to answer, and then the machine does.  `runAll_iff` says that such a machine is the
product of its components: a run of it is a run of each component on the inputs that are its own.
-/

namespace MiniVirt.Dispatch

variable {ι ο τ κ : Type} {σ : κ → Type}

/-- A run of one component with its transcript, the inputs with the answers. -/
def run (step : ι → τ → Option (ο × τ)) : τ → List ι → Option (List (ι × ο) × τ)
  | t, [] => some ([], t)
  | t, x :: xs =>
    (step x t).bind fun y => (run step y.2 xs).map fun z => ((x, y.1) :: z.1, z.2)

variable [DecidableEq κ]

/-- A run of the machine; `owner x` is the component that the input `x` belongs to. -/
def runAll (step : ∀ k, ι → σ k → Option (ο × σ k)) (owner : ι → κ) :
    (∀ k, σ k) → List ι → Option (List (ι × ο) × ∀ k, σ k)
  | s, [] => some ([], s)
  | s, x :: xs =>
    (step (owner x) x (s (owner x))).bind fun y =>
      (runAll step owner (Function.update s (owner x) y.2) xs).map fun z => ((x, y.1) :: z.1, z.2)

section Run

variable {step : ι → τ → Option (ο × τ)} {t t' : τ} {x : ι} {xs : List ι} {l : List (ι × ο)}

theorem run_cons_iff {p : ι × ο} : run step t (x :: xs) = some (p :: l, t') ↔
    p.1 = x ∧ ∃ u, step x t = some (p.2, u) ∧ run step u xs = some (l, t') := by
  obtain ⟨x', o⟩ := p
  simp only [run, Option.bind_eq_some_iff, Option.map_eq_some_iff, Prod.mk.injEq, List.cons.injEq]
  constructor
  · rintro ⟨⟨o', u⟩, hstep, ⟨l', u'⟩, hrun, ⟨⟨rfl, rfl⟩, rfl⟩, rfl⟩
    exact ⟨rfl, u, hstep, hrun⟩
  · rintro ⟨rfl, u, hstep, hrun⟩
    exact ⟨(o, u), hstep, (l, t'), hrun, ⟨⟨rfl, rfl⟩, rfl⟩, rfl⟩

/-- What each input keeps, a run keeps. -/
theorem run_inv {Inv : τ → Prop} (hstep : ∀ x t o t', step x t = some (o, t') → Inv t → Inv t')
    (h : run step t xs = some (l, t')) (ht : Inv t) : Inv t' := by
  induction xs generalizing t l with
  | nil =>
    obtain ⟨-, rfl⟩ : [] = l ∧ t = t' := by simpa [run] using h
    exact ht
  | cons x xs ih =>
    cases l with
    | nil => simp [run, Option.bind_eq_some_iff] at h
    | cons p l =>
      obtain ⟨-, u, hone, hrest⟩ := run_cons_iff.1 h
      exact ih hrest (hstep x t _ u hone ht)

/-- A component whose next state is `f` of the state and the input. -/
theorem run_state {f : τ → ι → τ} (hstep : ∀ x t o t', step x t = some (o, t') → t' = f t x)
    (h : run step t xs = some (l, t')) : t' = runSteps f t xs := by
  induction xs generalizing t l with
  | nil =>
    obtain ⟨-, rfl⟩ : [] = l ∧ t = t' := by simpa [run] using h
    rfl
  | cons x xs ih =>
    cases l with
    | nil => simp [run, Option.bind_eq_some_iff] at h
    | cons p l =>
      obtain ⟨-, u, hone, hrest⟩ := run_cons_iff.1 h
      rw [runSteps, ← hstep x t _ u hone]
      exact ih hrest

end Run

variable {step : ∀ k, ι → σ k → Option (ο × σ k)} {owner : ι → κ} {s s' s'' : ∀ k, σ k} {x : ι} {xs ys : List ι}
  {l l' : List (ι × ο)}

theorem runAll_cons_iff {p : ι × ο} : runAll step owner s (x :: xs) = some (p :: l, s') ↔
    p.1 = x ∧ ∃ u, step (owner x) x (s (owner x)) = some (p.2, u) ∧
      runAll step owner (Function.update s (owner x) u) xs = some (l, s') := by
  obtain ⟨x', o⟩ := p
  simp only [runAll, Option.bind_eq_some_iff, Option.map_eq_some_iff, Prod.mk.injEq, List.cons.injEq]
  constructor
  · rintro ⟨⟨o', u⟩, hstep, ⟨l', u'⟩, hrun, ⟨⟨rfl, rfl⟩, rfl⟩, rfl⟩
    exact ⟨rfl, u, hstep, hrun⟩
  · rintro ⟨rfl, u, hstep, hrun⟩
    exact ⟨(o, u), hstep, (l, s'), hrun, ⟨⟨rfl, rfl⟩, rfl⟩, rfl⟩

/-- One input of the component `k`. -/
theorem runAll_one {k : κ} (hk : owner x = k) {o : ο} {u : σ k} (h : step k x (s k) = some (o, u)) :
    runAll step owner s [x] = some ([(x, o)], Function.update s k u) := by
  subst hk
  exact runAll_cons_iff.2 ⟨rfl, u, h, rfl⟩

theorem runAll_append (h : runAll step owner s xs = some (l, s')) (h' : runAll step owner s' ys = some (l', s'')) :
    runAll step owner s (xs ++ ys) = some (l ++ l', s'') := by
  induction xs generalizing s l with
  | nil =>
    obtain ⟨rfl, rfl⟩ : [] = l ∧ s = s' := by simpa [runAll] using h
    exact h'
  | cons x xs ih =>
    cases l with
    | nil => simp [runAll, Option.bind_eq_some_iff] at h
    | cons p l =>
      obtain ⟨hp, u, hstep, hrun⟩ := runAll_cons_iff.1 h
      rw [List.cons_append, List.cons_append]
      exact runAll_cons_iff.2 ⟨hp, u, hstep, ih hrun⟩

/-- A run of the machine is a run of each component on the inputs that are its own. -/
theorem runAll_iff : runAll step owner s xs = some (l, s') ↔ l.map Prod.fst = xs ∧
    ∀ k, run (step k) (s k) (xs.filter (owner · = k)) = some (l.filter (owner ·.1 = k), s' k) := by
  induction xs generalizing s l with
  | nil =>
    constructor
    · intro h
      obtain ⟨rfl, rfl⟩ : [] = l ∧ s = s' := by simpa [runAll] using h
      exact ⟨rfl, fun k => rfl⟩
    · rintro ⟨hl, h⟩
      obtain rfl := List.map_eq_nil_iff.1 hl
      have hs : s = s' := funext fun k => by simpa [run] using h k
      rw [hs]
      rfl
  | cons x xs ih =>
    cases l with
    | nil => simp [runAll, Option.bind_eq_some_iff]
    | cons p l =>
      rw [runAll_cons_iff]
      constructor
      · rintro ⟨rfl, u, hstep, hrun⟩
        obtain ⟨rfl, hparts⟩ := ih.1 hrun
        refine ⟨rfl, fun k => ?_⟩
        -- the first input goes to its owner, and is filtered out for every other component
        have hpart := hparts k
        by_cases hk : owner p.1 = k
        · subst hk
          rw [Function.update_self] at hpart
          simp only [List.filter_cons, decide_true, if_true]
          exact run_cons_iff.2 ⟨rfl, u, hstep, hpart⟩
        · rw [Function.update_of_ne (Ne.symm hk)] at hpart
          simpa [List.filter_cons, hk] using hpart
      · rintro ⟨hl, hparts⟩
        obtain ⟨rfl, rfl⟩ : p.1 = x ∧ l.map Prod.fst = xs := by simpa using hl
        have hown := hparts (owner p.1)
        simp only [List.filter_cons, decide_true, if_true] at hown
        obtain ⟨-, u, hstep, hrest⟩ := run_cons_iff.1 hown
        refine ⟨rfl, u, hstep, ih.2 ⟨rfl, fun k => ?_⟩⟩
        by_cases hk : owner p.1 = k
        · subst hk
          rw [Function.update_self]
          exact hrest
        · rw [Function.update_of_ne (Ne.symm hk)]
          simpa [List.filter_cons, hk] using hparts k

end MiniVirt.Dispatch
