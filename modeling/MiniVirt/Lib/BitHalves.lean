import Mathlib.Data.BitVec

/-!
# The two halves of a 64-bit number
-/

namespace MiniVirt

theorem eq_append_halves (a : BitVec 64) : a.extractLsb' 32 32 ++ a.extractLsb' 0 32 = a := by
  ext i hi
  simp
  grind

theorem low_half (a : BitVec 64) : a.setWidth 32 = a.extractLsb' 0 32 := BitVec.setWidth_eq_extractLsb' (by decide)

theorem high_half (a : BitVec 64) : (a >>> 32).setWidth 32 = a.extractLsb' 32 32 := by
  ext i hi
  simp

variable {h l h' l' : BitVec 32}

theorem halves_append (h l : BitVec 32) :
    BitVec.extractLsb' 32 32 (h ++ l) = h ∧ BitVec.extractLsb' 0 32 (h ++ l) = l :=
  ⟨BitVec.extractLsb'_append_eq_left, BitVec.extractLsb'_append_eq_right⟩

theorem append_inj (heq : h ++ l = h' ++ l') : h = h' ∧ l = l' := by
  have hhigh := congrArg (BitVec.extractLsb' 32 32) heq
  have hlow := congrArg (BitVec.extractLsb' 0 32) heq
  rw [(halves_append h l).1, (halves_append h' l').1] at hhigh
  rw [(halves_append h l).2, (halves_append h' l').2] at hlow
  exact ⟨hhigh, hlow⟩

theorem setWidth_eq_append (a : BitVec 32) : a.setWidth 64 = 0#32 ++ a := BitVec.setWidth_eq_append (by decide)

theorem shiftLeft_eq_append (a : BitVec 32) : a.setWidth 64 <<< 32 = a ++ 0#32 := by
  ext i hi
  simp
  grind

/-- The high half with another low half. -/
theorem and_high_or (h l a : BitVec 32) :
    (h ++ l) &&& (0xffffffff00000000 : BitVec 64) ||| a.setWidth 64 = h ++ a := by
  have hmask : (0xffffffff00000000 : BitVec 64) = BitVec.allOnes 32 ++ 0#32 := by decide
  rw [hmask, setWidth_eq_append, BitVec.and_append, BitVec.or_append, BitVec.and_allOnes, BitVec.and_zero,
    BitVec.or_zero, BitVec.zero_or]

/-- The low half with another high half. -/
theorem and_low_or (h l a : BitVec 32) :
    (h ++ l) &&& (0xffffffff : BitVec 64) ||| a.setWidth 64 <<< 32 = a ++ l := by
  have hmask : (0xffffffff : BitVec 64) = 0#32 ++ BitVec.allOnes 32 := by decide
  rw [hmask, shiftLeft_eq_append, BitVec.and_append, BitVec.or_append, BitVec.and_allOnes, BitVec.and_zero,
    BitVec.or_zero, BitVec.zero_or]

theorem eq_zero_iff_halves {a : BitVec 64} (ha : a = h ++ l) : a = 0 ↔ h = 0 ∧ l = 0 := by
  have hzero : (0 : BitVec 64) = 0#32 ++ 0#32 := by decide
  constructor
  · intro heq
    exact append_inj (ha.symm.trans (heq.trans hzero))
  · rintro ⟨rfl, rfl⟩
    exact ha.trans hzero.symm

theorem append_lt_iff : (h ++ l).toNat < 2 ^ 32 ↔ h = 0 := by
  rw [BitVec.toNat_append, ← Nat.shiftLeft_add_eq_or_of_lt l.isLt, Nat.shiftLeft_eq, ← BitVec.toNat_inj]
  have hl := l.isLt
  show _ ↔ h.toNat = 0
  omega

theorem and_not_eq_self_iff {w : Nat} {x y : BitVec w} : x &&& ~~~y = x ↔ x &&& y = 0 := by
  constructor
  · intro heq
    calc x &&& y = x &&& ~~~y &&& y := by rw [heq]
      _ = x &&& (y &&& ~~~y) := by rw [BitVec.and_assoc, BitVec.and_comm y]
      _ = 0 := by
        rw [BitVec.and_not_self]
        exact BitVec.and_zero
  · intro hzero
    calc x &&& ~~~y = (x &&& y) ||| (x &&& ~~~y) := by
          rw [hzero]
          exact BitVec.zero_or.symm
      _ = x &&& (y ||| ~~~y) := (BitVec.and_or_distrib_left ..).symm
      _ = x := by rw [BitVec.or_not_self, BitVec.and_allOnes]

/-! ### Powers of two -/

section

variable {a m : BitVec 64} {k : Nat}

theorem toNat_sub_one (hm : m.toNat = 2 ^ k) : (m - 1).toNat = 2 ^ k - 1 := by
  have hone : (1 : BitVec 64) ≤ m := by
    rw [BitVec.le_def, hm]
    exact Nat.two_pow_pos k
  rw [BitVec.toNat_sub_of_le hone, hm]
  rfl

theorem dvd_iff_and_eq_zero (hm : m.toNat = 2 ^ k) : m.toNat ∣ a.toNat ↔ a &&& (m - 1) = 0 := by
  rw [← BitVec.toNat_inj, BitVec.toNat_and, toNat_sub_one hm, Nat.and_two_pow_sub_one_eq_mod, hm]
  exact Nat.dvd_iff_mod_eq_zero

theorem and_not_eq_zero_iff (hm : m.toNat = 2 ^ k) : a &&& ~~~(m - 1) = 0 ↔ a.toNat < 2 ^ k := by
  rw [← and_not_eq_self_iff, BitVec.not_not, ← BitVec.toNat_inj, BitVec.toNat_and, toNat_sub_one hm,
    Nat.and_two_pow_sub_one_eq_mod]
  exact Nat.mod_eq_iff_lt (Nat.two_pow_pos k).ne'

/-- A multiple of `m` is a multiple of 16. -/
theorem not_and_not_low (hm : m.toNat = 2 ^ k) (hk : 4 ≤ k) : ~~~(m - 1) &&& (~~~0xf : BitVec 64) = ~~~(m - 1) := by
  have hlow : (m - 1) &&& 0xf = 0xf := by
    apply BitVec.eq_of_toNat_eq
    rw [BitVec.toNat_and, toNat_sub_one hm]
    show (2 ^ k - 1) &&& (2 ^ 4 - 1) = 15
    obtain ⟨j, rfl⟩ := Nat.exists_eq_add_of_le hk
    have hpos := Nat.two_pow_pos j
    rw [Nat.and_two_pow_sub_one_eq_mod, Nat.pow_add]
    omega
  rw [← BitVec.not_or, ← hlow]
  congr 1
  ext i hi
  simp
  grind

end

end MiniVirt
