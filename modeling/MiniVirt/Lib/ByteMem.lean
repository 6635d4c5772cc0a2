import Mathlib.Data.BitVec
import Mathlib.Data.List.GetD
import Mathlib.Tactic.Ring

/-!
# Byte memories

A `ByteMem` gives a byte for every address.  `read` and `write` move lists of bytes, `load` and `store`
little-endian numbers, `gather` and `scatter` bytes that do not lie side by side.
-/

namespace MiniVirt

abbrev ByteMem := Nat → BitVec 8

/-! ### Little-endian numbers -/

/-- The number that the bytes encode, the least significant byte first. -/
def leNat : List (BitVec 8) → Nat
  | [] => 0
  | b :: l => b.toNat + 256 * leNat l

/-- The `n` least significant bytes of `v`, the least significant first. -/
def leBytes : Nat → Nat → List (BitVec 8)
  | 0, _ => []
  | n + 1, v => BitVec.ofNat 8 v :: leBytes n (v / 256)

@[simp]
theorem length_leBytes (n v : Nat) : (leBytes n v).length = n := by
  induction n generalizing v with
  | zero => rfl
  | succ n ih => rw [leBytes, List.length_cons, ih]

theorem leNat_leBytes (n v : Nat) : leNat (leBytes n v) = v % 256 ^ n := by
  induction n generalizing v with
  | zero => rw [leBytes, leNat, pow_zero, Nat.mod_one]
  | succ n ih =>
    have hmul : v % 256 ^ (n + 1) = v % 256 + 256 * (v / 256 % 256 ^ n) := by
      rw [pow_succ', Nat.mod_mul]
    rw [leBytes, leNat, ih, BitVec.toNat_ofNat, hmul]

theorem leNat_append (l l' : List (BitVec 8)) : leNat (l ++ l') = leNat l + 256 ^ l.length * leNat l' := by
  induction l with
  | nil => simp [leNat]
  | cons b l ih =>
    rw [List.cons_append, leNat, leNat, ih, List.length_cons, pow_succ]
    ring

theorem leNat_lt (l : List (BitVec 8)) : leNat l < 256 ^ l.length := by
  induction l with
  | nil => simp [leNat]
  | cons b l ih =>
    have hb : b.toNat < 256 := b.isLt
    rw [leNat, List.length_cons, pow_succ]
    omega

theorem leNat_inj {l l' : List (BitVec 8)} (h : l.length = l'.length) (hn : leNat l = leNat l') :
    l = l' := by
  induction l generalizing l' with
  | nil => exact (List.length_eq_zero_iff.1 h.symm).symm
  | cons b l ih =>
    cases l' with
    | nil => cases h
    | cons b' l' =>
      rw [leNat, leNat] at hn
      have hb : b.toNat < 256 := b.isLt
      have hb' : b'.toNat < 256 := b'.isLt
      rw [BitVec.eq_of_toNat_eq (by omega : b.toNat = b'.toNat), ih (Nat.succ.inj h) (by omega)]

/-! ### Dwords -/

theorem ofNat_leNat_inj {l l' : List (BitVec 8)} (hlen : l.length = l'.length) (hle : l.length ≤ 4) :
    BitVec.ofNat 32 (leNat l) = .ofNat 32 (leNat l') ↔ l = l' := by
  constructor
  · intro heq
    have hpow : 256 ^ l.length ≤ 2 ^ 32 := Nat.pow_le_pow_right (by decide) hle
    have hlt := (leNat_lt l).trans_le hpow
    have hlt' := (leNat_lt l').trans_le (hlen ▸ hpow)
    have hnat := congrArg BitVec.toNat heq
    rw [BitVec.toNat_ofNat, BitVec.toNat_ofNat, Nat.mod_eq_of_lt hlt, Nat.mod_eq_of_lt hlt'] at hnat
    exact leNat_inj hlen hnat
  · intro heq
    rw [heq]

theorem toNat_byte (r : BitVec 32) (k : Nat) : ((r >>> k).setWidth 8).toNat = r.toNat / 2 ^ k % 256 := by
  rw [BitVec.toNat_setWidth, BitVec.toNat_ushiftRight, Nat.shiftRight_eq_div_pow]

theorem toNat_shift_and (r : BitVec 32) (k j : Nat) (hj : j ≤ 32) :
    ((r >>> k) &&& BitVec.ofNat 32 (2 ^ j - 1)).toNat = r.toNat / 2 ^ k % 2 ^ j := by
  have hpow := Nat.pow_le_pow_right (by decide : 0 < 2) hj
  rw [BitVec.toNat_and, BitVec.toNat_ofNat, Nat.mod_eq_of_lt (by have := Nat.two_pow_pos j; omega),
    Nat.and_two_pow_sub_one_eq_mod, BitVec.toNat_ushiftRight, Nat.shiftRight_eq_div_pow]

namespace ByteMem

variable {m m' : ByteMem} {a b n k : Nat} {l : List (BitVec 8)}

/-! ### Reading and writing -/

/-- The `n` bytes from `a` on. -/
def read (m : ByteMem) (a n : Nat) : List (BitVec 8) := (List.range n).map fun i => m (a + i)

/-- The memory with the bytes `l` from `a` on. -/
def write (m : ByteMem) (a : Nat) (l : List (BitVec 8)) : ByteMem :=
  fun i => if a ≤ i then (l[i - a]?).getD (m i) else m i

@[simp]
theorem length_read (m : ByteMem) (a n : Nat) : (m.read a n).length = n := by
  rw [read, List.length_map, List.length_range]

theorem getElem_read (h : k < (m.read a n).length) : (m.read a n)[k] = m (a + k) := by
  simp [read]

theorem getElem?_read {m : ByteMem} {a n k : Nat} (h : k < n) : (m.read a n)[k]? = some (m (a + k)) := by
  unfold read
  rw [List.getElem?_map, List.getElem?_range h, Option.map_some]

/-- What a write leaves at an address depends on what was there. -/
theorem write_congr (h : m' b = m b) : m'.write a l b = m.write a l b := by
  unfold write
  rw [h]

theorem write_of_lt (h : b < a) : m.write a l b = m b := if_neg (by omega)

theorem write_of_ge (h : a + l.length ≤ b) : m.write a l b = m b := by
  rw [write, if_pos (by omega), List.getElem?_eq_none (by omega), Option.getD_none]

theorem write_of_not_mem (h : b < a ∨ a + l.length ≤ b) : m.write a l b = m b := by
  obtain h | h := h
  · exact write_of_lt h
  · exact write_of_ge h

theorem write_of_mem (h : k < l.length) : m.write a l (a + k) = l[k] := by
  rw [write, if_pos (by omega), Nat.add_sub_cancel_left, List.getElem?_eq_getElem h,
    Option.getD_some]

@[simp]
theorem write_nil (m : ByteMem) (a : Nat) : m.write a [] = m := by
  funext i
  by_cases h : i < a
  · exact write_of_lt h
  · exact write_of_ge (by simpa using h)

/-- A write is a write of its first byte and then of the others. -/
theorem write_cons (m : ByteMem) (a : Nat) (v : BitVec 8) (l : List (BitVec 8)) :
    m.write a (v :: l) = (m.write a [v]).write (a + 1) l := by
  funext i
  by_cases hlt : i < a + 1
  · rw [write_of_lt hlt]
    by_cases hi : i < a
    · rw [write_of_lt hi, write_of_lt hi]
    · have hzero : i = a + 0 := by omega
      rw [hzero, write_of_mem (by simp), write_of_mem (by simp)]
      rfl
  · obtain ⟨k, rfl⟩ : ∃ k, i = a + 1 + k := ⟨i - (a + 1), by omega⟩
    by_cases hk : k < l.length
    · rw [write_of_mem hk, show a + 1 + k = a + (k + 1) by omega, write_of_mem (by simpa using hk)]
      rfl
    · rw [write_of_ge (by rw [List.length_cons]; omega), write_of_ge (by omega),
        write_of_ge (by rw [List.length_singleton]; omega)]

theorem read_congr (h : ∀ i, a ≤ i → i < a + n → m' i = m i) : m'.read a n = m.read a n := by
  unfold read
  apply List.map_congr_left
  intro i hi
  have := List.mem_range.1 hi
  exact h (a + i) (by omega) (by omega)

theorem read_write_of_disjoint (h : b + n ≤ a ∨ a + l.length ≤ b) :
    (m.write a l).read b n = m.read b n := by
  apply read_congr
  intro i hb hn
  rcases h with h | h
  · exact write_of_lt (by omega)
  · exact write_of_ge (by omega)

theorem read_write_self (m : ByteMem) (a : Nat) (l : List (BitVec 8)) :
    (m.write a l).read a l.length = l := by
  apply List.ext_getElem
  · simp
  · intro k hk hk'
    rw [getElem_read hk, write_of_mem hk']

theorem read_add (m : ByteMem) (a n k : Nat) : m.read a (n + k) = m.read a n ++ m.read (a + n) k := by
  unfold read
  rw [List.range_add, List.map_append, List.map_map]
  congr 1
  apply List.map_congr_left
  intro i _
  rw [Function.comp, Nat.add_assoc]

theorem take_read (m : ByteMem) (a n k : Nat) : (m.read a n).take k = m.read a (min n k) := by
  unfold read
  rw [← List.map_take, List.take_range, Nat.min_comm]

theorem drop_read (m : ByteMem) (h : k ≤ n) : (m.read a n).drop k = m.read (a + k) (n - k) := by
  obtain ⟨j, rfl⟩ := Nat.exists_eq_add_of_le h
  rw [read_add, List.drop_left' (length_read ..), Nat.add_sub_cancel_left]

/-! ### Scattered bytes -/

/-- The bytes at the addresses `as`. -/
def gather (m : ByteMem) (as : List Nat) : List (BitVec 8) := as.map m

/-- The memory with the bytes `l` at the addresses `as`, as far as both go. -/
def scatter (m : ByteMem) : List Nat → List (BitVec 8) → ByteMem
  | a :: as, b :: l => scatter (Function.update m a b) as l
  | _, _ => m

theorem read_eq_gather (m : ByteMem) (a n : Nat) : m.read a n = m.gather (List.range' a n) := by
  unfold read gather
  rw [List.range'_eq_map_range, List.map_map]
  rfl

theorem gather_append (m : ByteMem) (as as' : List Nat) : m.gather (as ++ as') = m.gather as ++ m.gather as' :=
  List.map_append

theorem gather_congr {as : List Nat} (h : ∀ a ∈ as, m' a = m a) : m'.gather as = m.gather as := List.map_congr_left h

@[simp]
theorem length_gather (m : ByteMem) (as : List Nat) : (m.gather as).length = as.length := List.length_map _

@[simp]
theorem scatter_nil (m : ByteMem) (as : List Nat) : m.scatter as [] = m := by
  cases as <;> rfl

theorem write_singleton (m : ByteMem) (a : Nat) (v : BitVec 8) : m.write a [v] = Function.update m a v := by
  funext i
  by_cases hi : i = a
  · rw [hi, Function.update_self]
    exact write_of_mem (k := 0) (by simp)
  · rw [Function.update_of_ne hi]
    refine write_of_not_mem ?_
    rw [List.length_singleton]
    omega

theorem scatter_append {as : List Nat} (h : as.length ≤ l.length) (m : ByteMem) (as' : List Nat) :
    m.scatter (as ++ as') l = (m.scatter as l).scatter as' (l.drop as.length) := by
  induction as generalizing m l with
  | nil => rfl
  | cons a as ih =>
    obtain ⟨b, l, rfl⟩ := List.exists_cons_of_length_pos (Nat.zero_lt_of_lt h)
    exact ih (Nat.le_of_succ_le_succ h) _

/-- There is nothing to put at the other addresses. -/
theorem scatter_append_of_le {as : List Nat} (h : l.length ≤ as.length) (m : ByteMem) (as' : List Nat) :
    m.scatter (as ++ as') l = m.scatter as l := by
  induction as generalizing m l with
  | nil =>
    obtain rfl := List.length_eq_zero_iff.1 (Nat.le_zero.1 h)
    rw [scatter_nil, scatter_nil]
  | cons a as ih =>
    cases l with
    | nil => rfl
    | cons b l => exact ih (Nat.le_of_succ_le_succ h) _

theorem scatter_range' (m : ByteMem) (a n : Nat) (l : List (BitVec 8)) :
    m.scatter (List.range' a n) l = m.write a (l.take n) := by
  induction n generalizing m a l with
  | zero =>
    rw [List.take_zero, write_nil]
    rfl
  | succ n ih =>
    cases l with
    | nil => rw [scatter_nil, List.take_nil, write_nil]
    | cons b l =>
      rw [List.range'_succ, List.take_succ_cons, write_cons, write_singleton]
      exact ih _ _ _

theorem scatter_of_not_mem {as : List Nat} (h : a ∉ as.take l.length) (m : ByteMem) : m.scatter as l a = m a := by
  induction as generalizing m l with
  | nil => rfl
  | cons a' as ih =>
    cases l with
    | nil => rfl
    | cons b l =>
      rw [List.length_cons, List.take_succ_cons, List.mem_cons, not_or] at h
      exact (ih h.2 _).trans (Function.update_of_ne h.1 _ _)

theorem gather_scatter {as : List Nat} (hnodup : as.Nodup) (h : l.length ≤ as.length) (m : ByteMem) :
    (m.scatter as l).gather as = l ++ (m.gather as).drop l.length := by
  induction as generalizing m l with
  | nil =>
    obtain rfl := List.length_eq_zero_iff.1 (Nat.le_zero.1 h)
    rfl
  | cons a as ih =>
    cases l with
    | nil => rfl
    | cons b l =>
      obtain ⟨ha, hnodup⟩ := List.nodup_cons.1 hnodup
      have hrest := ih hnodup (Nat.le_of_succ_le_succ h) (Function.update m a b)
      have hkept : gather (Function.update m a b) as = m.gather as :=
        gather_congr fun i hi => Function.update_of_ne (ne_of_mem_of_not_mem hi ha) _ _
      show scatter (Function.update m a b) as l a :: gather (scatter (Function.update m a b) as l) as =
        b :: (l ++ (gather m as).drop l.length)
      rw [hrest, scatter_of_not_mem fun hmem => ha (List.mem_of_mem_take hmem), Function.update_self, hkept]

theorem gather_scatter_of_disjoint {as as' : List Nat} (h : ∀ a ∈ as', a ∉ as) (m : ByteMem) (l : List (BitVec 8)) :
    (m.scatter as l).gather as' = m.gather as' :=
  gather_congr fun a ha => scatter_of_not_mem (fun hmem => h a ha (List.mem_of_mem_take hmem)) m

/-! ### Overlays -/

/-- The memory with the bytes that `p` has. -/
def overlay (m : ByteMem) (p : Nat → Option (BitVec 8)) : ByteMem := fun i => (p i).getD (m i)

variable {p : Nat → Option (BitVec 8)}

theorem overlay_of_none (h : p a = none) (m : ByteMem) : m.overlay p a = m a := by
  rw [overlay, h, Option.getD_none]

theorem read_overlay (h : ∀ i, a ≤ i → i < a + n → p i = none) (m : ByteMem) : (m.overlay p).read a n = m.read a n :=
  read_congr fun i ha hn => overlay_of_none (h i ha hn) m

/-- A write elsewhere may as well come first. -/
theorem write_overlay (h : ∀ i, a ≤ i → i < a + l.length → p i = none) (m : ByteMem) :
    (m.overlay p).write a l = (m.write a l).overlay p := by
  funext i
  by_cases hi : a ≤ i ∧ i < a + l.length
  · rw [overlay_of_none (h i hi.1 hi.2)]
    exact write_congr (overlay_of_none (h i hi.1 hi.2) m)
  · rw [write_of_not_mem (by omega), overlay, overlay, write_of_not_mem (by omega)]

/-- Of two overlays the second one counts. -/
theorem overlay_overlay (m : ByteMem) (p q : Nat → Option (BitVec 8)) :
    (m.overlay p).overlay q = m.overlay fun i => (q i).or (p i) := by
  funext i
  unfold overlay
  cases hq : q i <;> simp [hq]

/-! ### Numbers -/

/-- The `n`-byte number at `a`. -/
def load (m : ByteMem) (a n : Nat) : Nat := leNat (m.read a n)

/-- The memory with the `n`-byte number `v` at `a`. -/
def store (m : ByteMem) (a n v : Nat) : ByteMem := m.write a (leBytes n v)

theorem store_of_not_mem {m : ByteMem} {a n v b : Nat} (h : b < a ∨ a + n ≤ b) : m.store a n v b = m b :=
  write_of_not_mem (by rwa [length_leBytes])

theorem store_congr (h : m' b = m b) (a n v : Nat) : m'.store a n v b = m.store a n v b := write_congr h

theorem load_congr (h : ∀ i, a ≤ i → i < a + n → m' i = m i) : m'.load a n = m.load a n := by
  rw [load, load, read_congr h]

theorem load_inj (h : m.load a n = m'.load a n) {i : Nat} (ha : a ≤ i) (hi : i < a + n) : m i = m' i := by
  have hread : m.read a n = m'.read a n := leNat_inj (by simp) h
  obtain ⟨k, rfl⟩ := Nat.exists_eq_add_of_le ha
  have hk : k < (m.read a n).length := by
    rw [length_read]
    omega
  have hk' : k < (m'.read a n).length := by rwa [← hread]
  rw [← getElem_read hk, ← getElem_read hk']
  exact List.getElem_of_eq hread _

theorem load_store_of_not_mem {v : Nat} (h : b + k ≤ a ∨ a + n ≤ b) : (m.store a n v).load b k = m.load b k :=
  load_congr fun i hi hi' => store_of_not_mem (by omega)

theorem load_store_self (m : ByteMem) (a n v : Nat) : (m.store a n v).load a n = v % 256 ^ n := by
  have h := read_write_self m a (leBytes n v)
  rw [length_leBytes] at h
  rw [load, store, h, leNat_leBytes]

theorem load_lt (m : ByteMem) (a n : Nat) : m.load a n < 256 ^ n := by
  have h := leNat_lt (m.read a n)
  rwa [length_read] at h

end ByteMem

end MiniVirt
