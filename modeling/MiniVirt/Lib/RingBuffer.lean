import Mathlib.Data.List.Basic
import Mathlib.Data.Nat.ModEq
import Mathlib.Logic.Function.Basic
import Mathlib.Tactic.Ring

/-!
# Ring buffers with free-running counters

A ring of `cap` cells with two counters of `w` bits that are never reduced: the next element goes to cell
`head % cap` and the oldest one is in cell `tail % cap`.  `contents` is the queue that the ring stands
for.  It is right across the wrap of the counters because `cap` divides `2 ^ w`.
-/

namespace MiniVirt.RingBuffer

variable {α : Type} {w cap : Nat} {buf buf' : Nat → α} {head tail : BitVec w}

/-- The elements in the ring, the oldest first. -/
def contents (cap : Nat) (buf : Nat → α) (head tail : BitVec w) : List α :=
  (List.range (head - tail).toNat).map fun i => buf ((tail.toNat + i) % cap)

@[simp]
theorem length_contents : (contents cap buf head tail).length = (head - tail).toNat := by
  unfold contents
  rw [List.length_map, List.length_range]

theorem sub_eq_zero_iff : (head - tail).toNat = 0 ↔ head = tail := by
  constructor
  · intro h
    exact BitVec.sub_eq_iff_eq_add.1 (BitVec.eq_of_toNat_eq h) |>.trans (BitVec.zero_add tail)
  · rintro rfl
    simp

theorem contents_eq_nil_iff : contents cap buf head tail = [] ↔ head = tail := by
  rw [← List.length_eq_zero_iff, length_contents, sub_eq_zero_iff]

@[simp]
theorem contents_self : contents cap buf head head = [] := contents_eq_nil_iff.2 rfl

/-- The counter of the `i`-th cell from `tail` on, reduced or not. -/
theorem cell_eq (hcap : cap ∣ 2 ^ w) (tail : BitVec w) (i : Nat) :
    (tail + BitVec.ofNat w i).toNat % cap = (tail.toNat + i) % cap := by
  rw [BitVec.toNat_add, BitVec.toNat_ofNat, Nat.add_mod_mod, Nat.mod_mod_of_dvd _ hcap]

theorem head_cell (hcap : cap ∣ 2 ^ w) (head tail : BitVec w) :
    head.toNat % cap = (tail.toNat + (head - tail).toNat) % cap := by
  have hhead : head = tail + BitVec.ofNat w (head - tail).toNat := by
    rw [BitVec.ofNat_toNat, BitVec.setWidth_eq, BitVec.add_comm, BitVec.sub_add_cancel]
  have hcell := cell_eq hcap tail (head - tail).toNat
  rwa [← hhead] at hcell

theorem toNat_one (h : 1 < 2 ^ w) : (1 : BitVec w).toNat = 1 := by
  show (BitVec.ofNat w 1).toNat = 1
  rw [BitVec.toNat_ofNat, Nat.mod_eq_of_lt h]

theorem succ_sub (h : (head - tail).toNat + 1 < 2 ^ w) : (head + 1 - tail).toNat = (head - tail).toNat + 1 := by
  have hone : (1 : BitVec w).toNat = 1 := toNat_one (by omega)
  have hassoc : head + 1 - tail = head - tail + 1 := by
    rw [BitVec.sub_eq_add_neg, BitVec.sub_eq_add_neg, BitVec.add_assoc, BitVec.add_comm 1, ← BitVec.add_assoc]
  rw [hassoc, BitVec.toNat_add, hone, Nat.mod_eq_of_lt h]

theorem sub_succ (h : head ≠ tail) : (head - tail).toNat = (head - (tail + 1)).toNat + 1 := by
  have hpos : (head - tail).toNat ≠ 0 := fun hzero => h (sub_eq_zero_iff.1 hzero)
  have hlt := (head - tail).isLt
  have hone : (1 : BitVec w).toNat = 1 := toNat_one (by omega)
  have hassoc : head - (tail + 1) = head - tail - 1 := by
    rw [BitVec.sub_eq_add_neg, BitVec.sub_eq_add_neg, BitVec.sub_eq_add_neg, BitVec.neg_add,
      BitVec.sub_eq_add_neg, BitVec.add_assoc]
  have hle : (1 : BitVec w) ≤ head - tail := by
    rw [BitVec.le_def, hone]
    omega
  rw [hassoc, BitVec.toNat_sub_of_le hle, hone]
  omega

/-- An element that goes into a ring with a free cell comes last. -/
theorem contents_push (hcap : cap ∣ 2 ^ w) (hfree : (head - tail).toNat < cap)
    (hlt : (head - tail).toNat + 1 < 2 ^ w) (b : α) :
    contents cap (Function.update buf (head.toNat % cap) b) (head + 1) tail = contents cap buf head tail ++ [b] := by
  unfold contents
  rw [succ_sub hlt, List.range_succ, List.map_append, List.map_singleton, head_cell hcap head tail,
    Function.update_self]
  congr 1
  apply List.map_congr_left
  intro i hi
  have hi' := List.mem_range.1 hi
  refine Function.update_of_ne (fun h => ?_) ..
  -- two counters less than `cap` apart are in different cells
  have hmod : i % cap = (head - tail).toNat % cap := Nat.ModEq.add_left_cancel' tail.toNat h
  rw [Nat.mod_eq_of_lt (by omega), Nat.mod_eq_of_lt hfree] at hmod
  omega

/-- The oldest element comes out. -/
theorem contents_pop (hcap : cap ∣ 2 ^ w) (hne : head ≠ tail) :
    contents cap buf head tail = buf (tail.toNat % cap) :: contents cap buf head (tail + 1) := by
  unfold contents
  rw [sub_succ hne, List.range_succ_eq_map, List.map_cons, List.map_map, Nat.add_zero]
  congr 1
  apply List.map_congr_left
  intro i _
  have hcell : ∀ j, (tail.toNat + j) % cap = (tail + BitVec.ofNat w j).toNat % cap :=
      fun j => (cell_eq hcap tail j).symm
  have hcell' := cell_eq hcap (tail + 1) i
  have hsum : tail + 1 + BitVec.ofNat w i = tail + BitVec.ofNat w (i + 1) := by
    rw [BitVec.ofNat_add, BitVec.add_assoc]
    exact congrArg (tail + ·) (BitVec.add_comm _ _)
  rw [Function.comp_apply, hcell, ← hcell', hsum]

/-- Elements `cap` apart are equal. -/
def Periodic (cap : Nat) (l : List α) : Prop := ∀ i, i + cap < l.length → l[i]? = l[i + cap]?

theorem Periodic.of_append {l l' : List α} (h : Periodic cap (l ++ l')) : Periodic cap l := by
  intro i hi
  have heq := h i (by rw [List.length_append]; omega)
  rwa [List.getElem?_append_left (by omega), List.getElem?_append_left hi] at heq

theorem Periodic.getElem?_eq {l : List α} (h : Periodic cap l) {i j : Nat} (hmod : i % cap = j % cap) (hle : i ≤ j)
    (hj : j < l.length) : l[i]? = l[j]? := by
  obtain ⟨k, hk⟩ := (Nat.modEq_iff_dvd' hle).1 hmod
  obtain rfl : j = i + cap * k := by omega
  clear hmod hle hk
  induction k with
  | zero => rfl
  | succ k ih =>
    have hmul : i + cap * (k + 1) = i + cap * k + cap := by ring
    rw [hmul] at hj ⊢
    rw [ih (by omega)]
    exact h _ hj

theorem getElem?_contents {i : Nat} (hi : i < (head - tail).toNat) :
    (contents cap buf head tail)[i]? = some (buf ((tail.toNat + i) % cap)) := by
  unfold contents
  rw [List.getElem?_map, List.getElem?_range hi, Option.map_some]

/-- What is read from the ring is periodic, since elements `cap` apart are in one cell. -/
theorem contents_periodic : Periodic cap (contents cap buf head tail) := by
  intro i hi
  rw [length_contents] at hi
  rw [getElem?_contents hi, getElem?_contents (by omega), ← Nat.add_assoc, Nat.add_mod_right]

/-- A push with no free cell keeps the queue if the new element is the one it replaces. -/
theorem contents_push_of_periodic (hcap : cap ∣ 2 ^ w) (hlt : (head - tail).toNat + 1 < 2 ^ w) {b : α}
    (h : Periodic cap (contents cap buf head tail ++ [b])) :
    contents cap (Function.update buf (head.toNat % cap) b) (head + 1) tail = contents cap buf head tail ++ [b] := by
  have hlen : (contents cap buf head tail ++ [b]).length = (head - tail).toNat + 1 := by
    rw [List.length_append, length_contents, List.length_singleton]
  have hlast : (contents cap buf head tail ++ [b])[(head - tail).toNat]? = some b := by
    rw [List.getElem?_append_right (by rw [length_contents]), length_contents, Nat.sub_self]
    rfl
  apply List.ext_getElem?
  intro i
  by_cases hi : i < (head - tail).toNat + 1
  · rw [getElem?_contents (by rwa [succ_sub hlt])]
    by_cases hcell : (tail.toNat + i) % cap = head.toNat % cap
    · have hmod : i % cap = (head - tail).toNat % cap := by
        rw [head_cell hcap head tail] at hcell
        exact Nat.ModEq.add_left_cancel' tail.toNat hcell
      rw [hcell, Function.update_self, h.getElem?_eq hmod (by omega) (by omega), hlast]
    · have hne : i ≠ (head - tail).toNat := fun heq => hcell (by rw [heq, ← head_cell hcap])
      rw [Function.update_of_ne hcell, List.getElem?_append_left (by rw [length_contents]; omega),
        getElem?_contents (by omega)]
  · rw [List.getElem?_eq_none (by rw [length_contents, succ_sub hlt]; omega), List.getElem?_eq_none (by omega)]

end MiniVirt.RingBuffer
