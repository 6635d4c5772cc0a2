import Mathlib.Data.List.Basic

/-!
# First in, first out

An unbounded queue, its operations in the order in which they happen.  `Fifo.Run q ops q'` says that the
operations `ops` lead from the queue `q` to `q'`, every `take` getting the oldest element.
-/

namespace MiniVirt.Fifo

variable {α : Type}

inductive Op (α : Type) where
  | put (a : α)
  | take (a : α)
  deriving DecidableEq

def Op.putElem : Op α → Option α
  | .put a => some a
  | .take _ => none

def Op.takenElem : Op α → Option α
  | .put _ => none
  | .take a => some a

/-- The elements that went in, the oldest first. -/
def puts (ops : List (Op α)) : List α := ops.filterMap Op.putElem

/-- The elements that came out. -/
def takes (ops : List (Op α)) : List α := ops.filterMap Op.takenElem

inductive Run : List α → List (Op α) → List α → Prop
  | nil (q : List α) : Run q [] q
  | put {q q' : List α} {ops : List (Op α)} (a : α) (h : Run (q ++ [a]) ops q') : Run q (.put a :: ops) q'
  | take {q q' : List α} {ops : List (Op α)} (a : α) (h : Run q ops q') : Run (a :: q) (.take a :: ops) q'

variable {q q' q'' : List α} {ops ops' : List (Op α)}

@[simp]
theorem puts_map_put (l : List α) : puts (l.map .put) = l := by
  unfold puts
  rw [List.filterMap_map]
  exact List.filterMap_some

@[simp]
theorem takes_map_put (l : List α) : takes (l.map .put) = [] := by
  unfold takes
  rw [List.filterMap_map]
  exact List.filterMap_eq_nil_iff.2 fun _ _ => rfl

namespace Run

theorem append (h : Run q ops q') (h' : Run q' ops' q'') : Run q (ops ++ ops') q'' := by
  induction h with
  | nil => exact h'
  | put a _ ih => exact .put a (ih h')
  | take a _ ih => exact .take a (ih h')

theorem of_puts (q l : List α) : Run q (l.map .put) (q ++ l) := by
  induction l generalizing q with
  | nil =>
    rw [List.append_nil]
    exact .nil q
  | cons a l ih =>
    have hrest := ih (q ++ [a])
    rw [List.append_assoc] at hrest
    exact .put a hrest

theorem split (h : Run q (ops ++ ops') q'') : ∃ q', Run q ops q' ∧ Run q' ops' q'' := by
  induction ops generalizing q with
  | nil => exact ⟨q, .nil q, h⟩
  | cons op ops ih =>
    cases h with
    | put a h =>
      obtain ⟨q', hops, hrest⟩ := ih h
      exact ⟨q', .put a hops, hrest⟩
    | take a h =>
      obtain ⟨q', hops, hrest⟩ := ih h
      exact ⟨q', .take a hops, hrest⟩

/-- What was in the queue and what went in has come out or is still there, in this order. -/
theorem takes_append_eq (h : Run q ops q') : takes ops ++ q' = q ++ puts ops := by
  induction h with
  | nil q => exact (List.append_nil q).symm
  | @put q q' ops a h ih =>
    show takes ops ++ q' = q ++ a :: puts ops
    rw [ih, List.append_assoc]
    rfl
  | @take q q' ops a h ih => exact congrArg (a :: ·) ih

/-- At every moment what has come out of a queue that was empty is a prefix of what has gone in. -/
theorem takes_isPrefix (h : Run [] ops q') {pre : List (Op α)} (hpre : pre <+: ops) : takes pre <+: puts pre := by
  obtain ⟨rest, rfl⟩ := hpre
  obtain ⟨q'', hrun, -⟩ := h.split
  exact ⟨q'', hrun.takes_append_eq⟩

end Run

end MiniVirt.Fifo
