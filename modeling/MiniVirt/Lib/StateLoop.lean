import MiniVirt.Lib.StateProg

/-!
# Loops in a state monad

`loopM body out n b` runs `body` from the loop variable `b`, at most `n` times: the body goes on with a
new value of the loop variable or leaves the loop with a result, and `out` is the result when the
bound is reached.  `LoopAll body P n b s` says that `P` holds at every start of the body, and `loopLog body f n b s`
is what `f` logs at these starts.
-/

namespace MiniVirt

variable {σ β γ : Type}

/-- `body` in a loop that makes at most `n` rounds. -/
def loopM (body : β → StateM σ (β ⊕ γ)) (out : γ) : Nat → β → StateM σ γ
  | 0, _ => pure out
  | n + 1, b => do
    match ← body b with
    | .inl b' => loopM body out n b'
    | .inr c => pure c

/-- `P` holds whenever the body of the loop starts. -/
def LoopAll (body : β → StateM σ (β ⊕ γ)) (P : β → σ → Prop) : Nat → β → σ → Prop
  | 0, _, _ => True
  | n + 1, b, s => P b s ∧
    match (body b).run s with
    | (.inl b', s') => LoopAll body P n b' s'
    | (.inr _, _) => True

/-- What `f` logs at the starts of the body. -/
def loopLog {ω : Type} (body : β → StateM σ (β ⊕ γ)) (f : β → σ → List ω) : Nat → β → σ → List ω
  | 0, _, _ => []
  | n + 1, b, s => f b s ++
    match (body b).run s with
    | (.inl b', s') => loopLog body f n b' s'
    | (.inr _, _) => []

variable {body : β → StateM σ (β ⊕ γ)} {out : γ} {P : β → σ → Prop} {I J : σ → Prop}

theorem loopM_succ_run (n : Nat) (b : β) (s : σ) :
    (loopM body out (n + 1) b).run s =
      match (body b).run s with
      | (.inl b', s') => (loopM body out n b').run s'
      | (.inr c, s') => (c, s') := by
  rw [loopM, run_bind]
  generalize (body b).run s = y
  obtain ⟨r, s'⟩ := y
  cases r <;> rfl

theorem LoopAll.of_forall (h : ∀ b s, P b s) {n : Nat} {b : β} {s : σ} : LoopAll body P n b s := by
  induction n generalizing b s with
  | zero => trivial
  | succ n ih =>
    rw [LoopAll]
    refine ⟨h b s, ?_⟩
    generalize (body b).run s = y
    obtain ⟨r, s'⟩ := y
    cases r with
    | inl b' => exact ih
    | inr c => trivial

/-- What every round keeps, the loop keeps. -/
theorem Within.loopM {G : Guarantee σ} (h : ∀ b, Within G (body b)) (n : Nat) (b : β) :
    Within G (loopM body out n b) := by
  induction n generalizing b with
  | zero => exact .pure out
  | succ n ih =>
    refine (h b).bind fun r => ?_
    cases r with
    | inl b' => exact ih b'
    | inr c => exact .pure c

/-- If the log of every round that starts with `P` fits the round, the log of the loop fits the loop. -/
theorem loopM_log {ω : Type} {R : List ω → σ → σ → Prop} {f : β → σ → List ω} (hnil : ∀ s, R [] s s)
    (happend : ∀ {l l' s s' s''}, R l s s' → R l' s' s'' → R (l ++ l') s s'')
    (hbody : ∀ b s, P b s → R (f b s) s ((body b).run s).2) (n : Nat) {b : β} {s : σ}
    (h : LoopAll body P n b s) : R (loopLog body f n b s) s ((loopM body out n b).run s).2 := by
  induction n generalizing b s with
  | zero => exact hnil s
  | succ n ih =>
    obtain ⟨hP, hrest⟩ := h
    have hround := hbody b s hP
    rw [loopM_succ_run, loopLog]
    generalize (body b).run s = y at hround hrest ⊢
    obtain ⟨r, s'⟩ := y
    cases r with
    | inl b' => exact happend hround (ih hrest)
    | inr c =>
      rw [List.append_nil]
      exact hround

/-- After a round: the invariant `I`, or `Q` if the loop is left. -/
def RoundPost (I : β → σ → Prop) (Q : γ → σ → Prop) : (β ⊕ γ) × σ → Prop
  | (.inl b, s) => I b s
  | (.inr c, s) => Q c s

/-- A loop invariant, over the loop variable and the state, and what holds when the loop is left. -/
theorem loopM_post {I : β → σ → Prop} {Q : γ → σ → Prop}
    (hbody : ∀ b s, I b s → RoundPost I Q ((body b).run s)) (hout : ∀ b s, I b s → Q out s) (n : Nat)
    {b : β} {s : σ} (h : I b s) :
    Q ((loopM body out n b).run s).1 ((loopM body out n b).run s).2 := by
  induction n generalizing b s with
  | zero => exact hout b s h
  | succ n ih =>
    have hround := hbody b s h
    rw [loopM_succ_run]
    generalize (body b).run s = y at hround ⊢
    obtain ⟨r, s'⟩ := y
    cases r with
    | inl b' => exact ih hround
    | inr c => exact hround

end MiniVirt
