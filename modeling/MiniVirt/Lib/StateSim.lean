import MiniVirt.Lib.StateLoop

/-!
# Two runs of a program in a state monad

`Sim R m m'` says that the programs `m` and `m'`, started in states that `R` relates, give the same result and
end in states that `R` relates.
-/

namespace MiniVirt

variable {σ α β γ : Type}

def Sim (R : σ → σ → Prop) (m m' : StateM σ α) : Prop :=
  ∀ s s', R s s' → (m.run s).1 = (m'.run s').1 ∧ R (m.run s).2 (m'.run s').2

namespace Sim

variable {R : σ → σ → Prop} {m m' : StateM σ α} {f f' : α → StateM σ β}

theorem pure (a : α) : Sim R (Pure.pure a : StateM σ α) (Pure.pure a) := fun _ _ h => ⟨rfl, h⟩

theorem bind (hm : Sim R m m') (hf : ∀ a, Sim R (f a) (f' a)) : Sim R (m >>= f) (m' >>= f') := by
  intro s s' h
  obtain ⟨hres, hrel⟩ := hm s s' h
  have hnext := hf (m.run s).1 _ _ hrel
  rw [run_bind, run_bind, ← hres]
  exact hnext

/-- A program that first looks at the state. -/
theorem get_bind {g g' : σ → StateM σ β} (h : ∀ s s', R s s' → Sim R (g s) (g' s')) :
    Sim R (MonadState.get >>= g) (MonadState.get >>= g') := fun s s' hs => h s s' hs s s' hs

theorem modify {g : σ → σ} (h : ∀ s s', R s s' → R (g s) (g s')) :
    Sim R (modify g : StateM σ PUnit) (modify g) := fun s s' hs => ⟨rfl, h s s' hs⟩

theorem ite {c c' : Prop} [Decidable c] [Decidable c'] {m₁ m₂ m₁' m₂' : StateM σ α} (hc : c ↔ c')
    (h₁ : Sim R m₁ m₁') (h₂ : Sim R m₂ m₂') : Sim R (if c then m₁ else m₂) (if c' then m₁' else m₂') := by
  by_cases h : c
  · rwa [if_pos h, if_pos (hc.1 h)]
  · rwa [if_neg h, if_neg (mt hc.2 h)]

theorem loopM {body body' : β → StateM σ (β ⊕ γ)} {out : γ} (h : ∀ b, Sim R (body b) (body' b)) (n : Nat) (b : β) :
    Sim R (loopM body out n b) (MiniVirt.loopM body' out n b) := by
  induction n generalizing b with
  | zero => exact .pure out
  | succ n ih =>
    refine (h b).bind fun r => ?_
    cases r with
    | inl b' => exact ih b'
    | inr c => exact .pure c

end Sim

end MiniVirt
