import Mathlib.Logic.Basic

/-!
# Runs of a step function

`runSteps step s is` is the state after the inputs `is`, and `AllSteps step P s is` says that `P`
holds at every step on the way, of the state before the step and its input.  `AllSteps.inv` is the
induction over a run, and `allSteps_iff` lifts an equivalence that an invariant gives for single
steps to runs.  `stepsLog step f s is` is what `f` logs at the steps.
-/

namespace MiniVirt

variable {σ ι : Type} {step : σ → ι → σ} {Inv : σ → Prop} {Env P Q : σ → ι → Prop}

/-- The state after the inputs `is`. -/
def runSteps (step : σ → ι → σ) : σ → List ι → σ
  | s, [] => s
  | s, i :: is => runSteps step (step s i) is

/-- `P` holds at every step of the run. -/
def AllSteps (step : σ → ι → σ) (P : σ → ι → Prop) : σ → List ι → Prop
  | _, [] => True
  | s, i :: is => P s i ∧ AllSteps step P (step s i) is

instance decidableAllSteps [∀ s i, Decidable (P s i)] :
    (s : σ) → (is : List ι) → Decidable (AllSteps step P s is)
  | _, [] => .isTrue trivial
  | s, i :: is =>
    haveI := decidableAllSteps (step s i) is
    inferInstanceAs (Decidable (P s i ∧ AllSteps step P (step s i) is))

/-- What `f` logs at the steps of the run. -/
def stepsLog {ω : Type} (step : σ → ι → σ) (f : σ → ι → List ω) : σ → List ι → List ω
  | _, [] => []
  | s, i :: is => f s i ++ stepsLog step f (step s i) is

theorem runSteps_append (s : σ) (is js : List ι) :
    runSteps step s (is ++ js) = runSteps step (runSteps step s is) js := by
  induction is generalizing s with
  | nil => rfl
  | cons i is ih => exact ih (step s i)

theorem stepsLog_append {ω : Type} {f : σ → ι → List ω} (s : σ) (is js : List ι) :
    stepsLog step f s (is ++ js) = stepsLog step f s is ++ stepsLog step f (runSteps step s is) js := by
  induction is generalizing s with
  | nil => rfl
  | cons i is ih =>
    rw [List.cons_append, stepsLog, stepsLog, ih, List.append_assoc]
    rfl

theorem allSteps_append {s : σ} {is js : List ι} :
    AllSteps step P s (is ++ js) ↔ AllSteps step P s is ∧ AllSteps step P (runSteps step s is) js := by
  induction is generalizing s with
  | nil => exact (true_and _).symm.to_iff
  | cons i is ih =>
    rw [List.cons_append, AllSteps, AllSteps, ih, and_assoc]
    rfl

theorem AllSteps.of_forall (h : ∀ s i, P s i) (s : σ) (is : List ι) : AllSteps step P s is := by
  induction is generalizing s with
  | nil => trivial
  | cons i is ih => exact ⟨h s i, ih (step s i)⟩

theorem AllSteps.and {s : σ} {is : List ι} (h : AllSteps step P s is) (h' : AllSteps step Q s is) :
    AllSteps step (fun s i => P s i ∧ Q s i) s is := by
  induction is generalizing s with
  | nil => trivial
  | cons i is ih => exact ⟨⟨h.1, h'.1⟩, ih h.2 h'.2⟩

/-- An invariant of the steps that satisfy `P` holds at the end of a run of such steps. -/
theorem AllSteps.inv (hstep : ∀ s i, Inv s → P s i → Inv (step s i)) {s : σ} {is : List ι}
    (hs : Inv s) (h : AllSteps step P s is) : Inv (runSteps step s is) := by
  induction is generalizing s with
  | nil => exact hs
  | cons i is ih => exact ih (hstep s i hs h.1) h.2

theorem AllSteps.mono (hstep : ∀ s i, Inv s → P s i → Inv (step s i) ∧ Q s i) {s : σ} {is : List ι}
    (hs : Inv s) (h : AllSteps step P s is) : AllSteps step Q s is := by
  induction is generalizing s with
  | nil => trivial
  | cons i is ih =>
    obtain ⟨hinv, hq⟩ := hstep s i hs h.1
    exact ⟨hq, ih hinv h.2⟩

/-- If the log of every step that satisfies `P` fits the step, the log of a run of such steps fits the run. -/
theorem AllSteps.log {ω : Type} {R : List ω → σ → σ → Prop} {f : σ → ι → List ω} (hnil : ∀ s, R [] s s)
    (happend : ∀ {l l' s s' s''}, R l s s' → R l' s' s'' → R (l ++ l') s s'')
    (hstep : ∀ s i, P s i → R (f s i) s (step s i)) {s : σ} {is : List ι} (h : AllSteps step P s is) :
    R (stepsLog step f s is) s (runSteps step s is) := by
  induction is generalizing s with
  | nil => exact hnil s
  | cons i is ih => exact happend (hstep s i h.1) (ih h.2)

/-- Under an invariant that the steps with `Env` and `Q` keep, `P` and `Q` are equivalent along a
run if they are at every step. -/
theorem allSteps_iff (hinv : ∀ s i, Inv s → Env s i → Q s i → Inv (step s i))
    (hiff : ∀ s i, Inv s → Env s i → (P s i ↔ Q s i)) {s : σ} {is : List ι} (hs : Inv s)
    (henv : AllSteps step Env s is) : AllSteps step P s is ↔ AllSteps step Q s is := by
  induction is generalizing s with
  | nil => exact Iff.rfl
  | cons i is ih =>
    have hi := hiff s i hs henv.1
    exact ⟨fun h => ⟨hi.1 h.1, (ih (hinv s i hs henv.1 (hi.1 h.1)) henv.2).1 h.2⟩,
      fun h => ⟨hi.2 h.1, (ih (hinv s i hs henv.1 h.1) henv.2).2 h.2⟩⟩

/-- A property of the states on the way, the first one included. -/
theorem forall_prefix_iff {R : σ → Prop} {s : σ} {is : List ι} :
    (∀ pre, pre <+: is → R (runSteps step s pre)) ↔ R s ∧ AllSteps step (fun s i => R (step s i)) s is := by
  induction is generalizing s with
  | nil =>
    simp only [List.prefix_nil, forall_eq, AllSteps, and_true]
    exact Iff.rfl
  | cons i is ih =>
    rw [AllSteps, ← ih]
    constructor
    · intro h
      exact ⟨h [] (List.nil_prefix), fun pre hpre => h (i :: pre) (List.cons_prefix_cons.2 ⟨rfl, hpre⟩)⟩
    · rintro ⟨hs, h⟩ pre hpre
      cases pre with
      | nil => exact hs
      | cons j pre =>
        obtain ⟨rfl, htail⟩ := List.cons_prefix_cons.1 hpre
        exact h pre htail

/-- A property of the steps, each with the run before it. -/
theorem allSteps_iff_forall_append {s : σ} {is : List ι} :
    AllSteps step P s is ↔ ∀ pre i, pre ++ [i] <+: is → P (runSteps step s pre) i := by
  induction is generalizing s with
  | nil =>
    refine iff_of_true trivial fun pre i hpre => ?_
    exact absurd (List.prefix_nil.1 hpre) (by simp)
  | cons j is ih =>
    rw [AllSteps, ih]
    constructor
    · rintro ⟨hj, h⟩ pre i hpre
      cases pre with
      | nil =>
        obtain ⟨rfl, -⟩ := List.cons_prefix_cons.1 hpre
        exact hj
      | cons k pre =>
        obtain ⟨rfl, htail⟩ := List.cons_prefix_cons.1 hpre
        exact h pre i htail
    · intro h
      exact ⟨h [] j (List.cons_prefix_cons.2 ⟨rfl, List.nil_prefix⟩), fun pre i hpre =>
        h (j :: pre) i (List.cons_prefix_cons.2 ⟨rfl, hpre⟩)⟩

end MiniVirt
