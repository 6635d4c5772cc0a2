import Mathlib.Data.List.Induction

/-!
# Blocks written to a list

The writes are pairs of a position and a block.  After any number of them that fit, what is found at a place is
what the latest write to it has put there, and what was there at first if there is none (`getElem?_overwrites`).
-/

namespace MiniVirt.WriteLog

variable {α : Type}

/-- `l` with `l'` from position `i` on. -/
def overwrite (l : List α) (i : Nat) (l' : List α) : List α := l.take i ++ l' ++ l.drop (i + l'.length)

def overwrites (l : List α) (ws : List (Nat × List α)) : List α := ws.foldl (fun l w => overwrite l w.1 w.2) l

/-- What a write puts at `a`. -/
def at? (w : Nat × List α) (a : Nat) : Option α := if w.1 ≤ a then w.2[a - w.1]? else none

/-- What the latest write to `a` has put there. -/
def latest (ws : List (Nat × List α)) (a : Nat) : Option α := ws.foldl (fun v w => (at? w a).or v) none

variable {l l' : List α} {w : Nat × List α} {ws : List (Nat × List α)} {i a : Nat}

theorem length_overwrite (h : i + l'.length ≤ l.length) : (overwrite l i l').length = l.length := by
  simp only [overwrite, List.length_append, List.length_take, List.length_drop]
  omega

theorem getElem?_overwrite (h : i + l'.length ≤ l.length) : (overwrite l i l')[a]? = (at? (i, l') a).or l[a]? := by
  have htake : (l.take i).length = i := by
    rw [List.length_take]
    omega
  unfold overwrite at?
  by_cases hbefore : a < i
  · -- in front of the block
    rw [if_neg (by simpa using hbefore), Option.none_or, List.append_assoc,
      List.getElem?_append_left (by omega), List.getElem?_take, if_pos hbefore]
  · rw [if_pos (by simpa using hbefore)]
    dsimp only
    by_cases hin : a < i + l'.length
    · rw [List.append_assoc, List.getElem?_append_right (by omega), htake, List.getElem?_append_left (by omega),
        List.getElem?_eq_getElem (by omega), Option.some_or]
    · have hafter : l'[a - i]? = none := List.getElem?_eq_none (by omega)
      rw [List.getElem?_append_right (by rw [List.length_append]; omega), List.length_append, htake,
        List.getElem?_drop, hafter, Option.none_or]
      congr 1
      omega

theorem overwrites_concat (l : List α) (ws : List (Nat × List α)) (w : Nat × List α) :
    overwrites l (ws ++ [w]) = overwrite (overwrites l ws) w.1 w.2 := by
  simp [overwrites]

theorem latest_concat (ws : List (Nat × List α)) (w : Nat × List α) (a : Nat) :
    latest (ws ++ [w]) a = (at? w a).or (latest ws a) := by
  simp [latest]

/-- Nothing has been written to `a`. -/
theorem latest_eq_none (h : ∀ w ∈ ws, a < w.1 ∨ w.1 + w.2.length ≤ a) : latest ws a = none := by
  induction ws using List.reverseRecOn with
  | nil => rfl
  | append_singleton ws w ih =>
    have hw : at? w a = none := by
      unfold at?
      split
      · have hpast := h w (by simp)
        exact List.getElem?_eq_none (by omega)
      · rfl
    rw [latest_concat, hw, Option.none_or]
    exact ih fun w' hw' => h w' (List.mem_append_left _ hw')

theorem isSome_latest (h : ∃ w ∈ ws, w.1 ≤ a ∧ a < w.1 + w.2.length) : (latest ws a).isSome := by
  induction ws using List.reverseRecOn with
  | nil => simp at h
  | append_singleton ws w ih =>
    rw [latest_concat]
    obtain ⟨w', hw', hle, hlt⟩ := h
    rcases List.mem_append.1 hw' with hbefore | hlast
    · rw [Option.isSome_or, ih ⟨w', hbefore, hle, hlt⟩, Bool.or_true]
    · obtain rfl := List.mem_singleton.1 hlast
      unfold at?
      rw [if_pos hle, List.getElem?_eq_getElem (by omega)]
      rfl

theorem length_overwrites (h : ∀ w ∈ ws, w.1 + w.2.length ≤ l.length) : (overwrites l ws).length = l.length := by
  induction ws using List.reverseRecOn with
  | nil => rfl
  | append_singleton ws w ih =>
    have hrest := ih fun w' hw' => h w' (List.mem_append_left _ hw')
    have hw := h w (by simp)
    rw [overwrites_concat, length_overwrite (by omega), hrest]

/-- Every place holds what the latest write to it has put there. -/
theorem getElem?_overwrites (h : ∀ w ∈ ws, w.1 + w.2.length ≤ l.length) :
    (overwrites l ws)[a]? = (latest ws a).or l[a]? := by
  induction ws using List.reverseRecOn with
  | nil => rfl
  | append_singleton ws w ih =>
    have hbefore : ∀ w' ∈ ws, w'.1 + w'.2.length ≤ l.length := fun w' hw' => h w' (List.mem_append_left _ hw')
    have hw := h w (by simp)
    rw [overwrites_concat, latest_concat, getElem?_overwrite (by rw [length_overwrites hbefore]; omega), ih hbefore,
      Option.or_assoc]

end MiniVirt.WriteLog
