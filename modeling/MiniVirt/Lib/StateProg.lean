import Mathlib.Order.Basic

/-!
# Reasoning about programs in a state monad

A program is a `StateM σ α`.  `Within G m` says that wherever `m` starts, it ends in a state that the
guarantee `G` allows.  A `Guarantee` is a reflexive and transitive relation on states, so a program
keeps it as soon as each of its steps does (`Within.bind`); "everything else is unchanged" is a fact
of this kind.  `Ends Q m` says what holds when `m` is done, wherever it starts.
-/

namespace MiniVirt

variable {σ α β : Type}

theorem run_bind (m : StateM σ α) (f : α → StateM σ β) (s : σ) :
    (m >>= f).run s = (f (m.run s).1).run (m.run s).2 := rfl

theorem run_ite (c : Prop) [Decidable c] (m₁ m₂ : StateM σ α) (s : σ) :
    (if c then m₁ else m₂).run s = if c then m₁.run s else m₂.run s := by
  split <;> rfl

theorem run_pure (a : α) (s : σ) : (pure a : StateM σ α).run s = (a, s) := rfl

theorem run_get (s : σ) : (MonadState.get : StateM σ σ).run s = (s, s) := rfl

/-! ### Guarantees -/

/-- A reflexive and transitive relation on states: what a program may do to the state. -/
structure Guarantee (σ : Type) where
  /-- `rel s s'`: a program started in `s` may end in `s'`. -/
  rel : σ → σ → Prop
  /-- Doing nothing is allowed. -/
  refl : ∀ s, rel s s
  /-- Two allowed changes, one after the other, are allowed. -/
  trans : ∀ {s₁ s₂ s₃}, rel s₁ s₂ → rel s₂ s₃ → rel s₁ s₃

/-- `m` changes the state only as the guarantee `G` allows. -/
def Within (G : Guarantee σ) (m : StateM σ α) : Prop :=
  ∀ s, G.rel s (m.run s).2

namespace Within

variable {G : Guarantee σ} {m : StateM σ α} {f : α → StateM σ β}

theorem pure (a : α) : Within G (Pure.pure a : StateM σ α) := fun s => G.refl s

theorem bind (hm : Within G m) (hf : ∀ a, Within G (f a)) : Within G (m >>= f) := fun s =>
  G.trans (hm s) (hf (m.run s).1 (m.run s).2)

theorem get : Within G (MonadState.get : StateM σ σ) := fun s => G.refl s

theorem modify {g : σ → σ} (h : ∀ s, G.rel s (g s)) : Within G (modify g : StateM σ PUnit) := h

/-- What keeps a guarantee keeps a weaker one. -/
theorem mono {H : Guarantee σ} (hm : Within G m) (h : ∀ s s', G.rel s s' → H.rel s s') : Within H m :=
  fun s => h s (m.run s).2 (hm s)

theorem ite {c : Prop} [Decidable c] {m₁ m₂ : StateM σ α} (h₁ : Within G m₁)
    (h₂ : Within G m₂) : Within G (if c then m₁ else m₂) := by
  split
  · exact h₁
  · exact h₂

end Within

/-! ### Ends -/

/-- Wherever `m` starts, `Q` holds of its result and of the state in which it ends. -/
structure Ends (Q : α → σ → Prop) (m : StateM σ α) : Prop where
  of_run : ∀ s, Q (m.run s).1 (m.run s).2

namespace Ends

variable {Q : β → σ → Prop} {m : StateM σ α} {f : α → StateM σ β}

/-- The last part of a program decides how it ends. -/
theorem bind (hf : ∀ a, Ends Q (f a)) : Ends Q (m >>= f) := ⟨fun s => (hf (m.run s).1).of_run (m.run s).2⟩

theorem pure {b : β} (h : ∀ s, Q b s) : Ends Q (Pure.pure b : StateM σ β) := ⟨h⟩

theorem ite {c : Prop} [Decidable c] {m₁ m₂ : StateM σ β} (h₁ : Ends Q m₁) (h₂ : Ends Q m₂) :
    Ends Q (if c then m₁ else m₂) := by
  split
  · exact h₁
  · exact h₂

end Ends

end MiniVirt
