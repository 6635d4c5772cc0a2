import Mathlib.Data.Fintype.Pigeonhole
import Mathlib.Logic.Function.Iterate

/-!
# Iterations in a finite type

An iteration that meets `P` at all meets it before it has seen every value of its type.
-/

namespace MiniVirt

variable {α : Type} [Fintype α] {f : α → α} {P : α → Prop}

theorem exists_iterate_lt_card {x : α} (h : ∃ k, P (f^[k] x)) : ∃ k < Fintype.card α, P (f^[k] x) := by
  classical
  refine ⟨Nat.find h, ?_, Nat.find_spec h⟩
  by_contra hle
  -- two of the values before the first stop are equal, and from there the rest of the way is shorter
  obtain ⟨i, j, hne, hij⟩ := Fintype.exists_ne_map_eq_of_card_lt (fun k : Fin (Nat.find h + 1) => f^[k] x)
    (by rw [Fintype.card_fin]; omega)
  have hshort : ∀ i j : Nat, i < j → j ≤ Nat.find h → f^[i] x = f^[j] x → False := by
    intro i j hlt hj heq
    have hrest : f^[Nat.find h - j + i] x = f^[Nat.find h] x := by
      rw [Function.iterate_add_apply, heq, ← Function.iterate_add_apply, Nat.sub_add_cancel hj]
    refine Nat.find_min h (m := Nat.find h - j + i) (by omega) ?_
    rw [hrest]
    exact Nat.find_spec h
  have hi := i.isLt
  have hj := j.isLt
  obtain hlt | hlt := Nat.lt_or_gt_of_ne fun h => hne (Fin.ext h)
  · exact hshort i j hlt (by omega) hij
  · exact hshort j i hlt (by omega) hij.symm

end MiniVirt
