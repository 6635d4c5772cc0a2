import Mathlib.Data.List.Basic

/-!
# Sliding windows

A window holds the last elements of a stream; before the stream is long enough, the rest of it is a fill element.
A pattern without the fill element is in the window if and only if the stream ends with it
(`window_eq_iff_suffix`).
-/

namespace MiniVirt

variable {α : Type}

/-- The last `n` elements of the stream `l`, behind `z`s. -/
def window (n : Nat) (z : α) (l : List α) : List α := (List.replicate n z ++ l).drop l.length

variable {n : Nat} {z : α}

theorem window_concat (hn : 0 < n) (l : List α) (a : α) : window n z (l ++ [a]) = (window n z l).tail ++ [a] := by
  unfold window
  rw [List.length_append, List.length_singleton, ← List.append_assoc, List.tail_drop,
    List.drop_append_of_le_length]
  rw [List.length_append, List.length_replicate]
  omega

/-- The fill element is no part of the pattern, so a partly filled window does not match. -/
theorem window_eq_iff_suffix {p : List α} (hz : z ∉ p) (l : List α) : window p.length z l = p ↔ p <:+ l := by
  unfold window
  by_cases hlen : p.length ≤ l.length
  · have hdrop : (List.replicate p.length z ++ l).drop l.length = l.drop (l.length - p.length) := by
      rw [List.drop_append, List.length_replicate, List.drop_of_length_le (by rwa [List.length_replicate]),
        List.nil_append]
    rw [hdrop, List.suffix_iff_eq_drop]
    exact eq_comm
  · refine iff_of_false (fun heq => hz ?_) fun hsuffix => hlen hsuffix.length_le
    -- the first element of the window is still a fill element
    rw [← heq, List.drop_append_of_le_length (by rw [List.length_replicate]; omega), List.drop_replicate]
    exact List.mem_append_left l (List.mem_replicate.2 ⟨by omega, rfl⟩)

end MiniVirt
