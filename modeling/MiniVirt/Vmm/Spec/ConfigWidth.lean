import MiniVirt.Vmm.Spec.BarLaw

/-!
# Accesses to the configuration space of different widths

An access of two or four bytes should be the accesses to its bytes.  `pt_config_read()` and
`pt_config_write()` shadow the BARs and the Message Control word of MSI-X by different range tests;
`widthLaw_iff` says for which accesses that makes no difference.
-/

namespace MiniVirt.Vmm

variable {R : ConfigRegion}

/-! ### The law -/

/-- A naturally aligned access of two or four bytes. -/
structure WideAccess where
  reg : Nat
  len : Nat
  width : len = 2 ∨ len = 4
  aligned : reg % len = 0
  inSpace : reg + len ≤ 256

namespace PciDev

/-- The writes of the bytes, one by one; each call makes its own ioctls. -/
def writeBytes (x : PciDev R) : (Nat → Ioctls) → Nat → List (BitVec 8) → PciDev R
  | _, _, [] => x
  | io, reg, b :: bytes => (x.write (io 0) reg 1 (b.setWidth 32)).writeBytes (fun i => io (i + 1)) (reg + 1) bytes

/-- Every naturally aligned read gives the same. -/
def SameReads (barType : Nat → BitVec 32) (x y : PciDev R) : Prop :=
  ∀ reg len, len = 1 ∨ len = 2 ∨ len = 4 → reg % len = 0 → reg + len ≤ 256 →
    x.read barType reg len = y.read barType reg len

/-- The read is the reads of its bytes. -/
def ReadLaw (x : PciDev R) (barType : Nat → BitVec 32) (a : WideAccess) : Prop :=
  x.read barType a.reg a.len =
    .ofNat 32 (leNat ((List.range a.len).map fun i => (x.read barType (a.reg + i) 1).setWidth 8))

/-- The write of `val` is the writes of its bytes. -/
def WriteLaw (x : PciDev R) (barType : Nat → BitVec 32) (a : WideAccess) (val : BitVec 32) : Prop :=
  ∀ io io', SameReads barType (x.write io a.reg a.len val) (x.writeBytes io' a.reg (leBytes a.len val.toNat))

/-! ### The condition -/

/-- The access is to the dword in which the Message Control word is the upper half. -/
def CoversMsgctl (x : PciDev R) (a : WideAccess) : Prop := x.vf.msixCap ≠ 0 ∧ a.reg = x.vf.msixCap ∧ a.len = 4

/-- The byte at `i`, whether or not there is a Message Control word. -/
def plain (x : PciDev R) (barType : Nat → BitVec 32) (i : Nat) : BitVec 8 :=
  match x.vf.barDword barType i with
  | some r => (r >>> (i % 4 * 8)).setWidth 8
  | none => R.read x.region i

/-- Behind the shadow of Message Control the same value is read. -/
def ReadOk (x : PciDev R) (barType : Nat → BitVec 32) (a : WideAccess) : Prop :=
  x.CoversMsgctl a → x.plain barType (x.vf.msixCap + 2) = x.vf.msixMsgctl.setWidth 8 ∧
    x.plain barType (x.vf.msixCap + 3) = (x.vf.msixMsgctl >>> 8).setWidth 8

/-- How many bytes of the access go to the device when they are written one by one. -/
def deviceLen (x : PciDev R) (a : WideAccess) : Nat :=
  if x.vf.msixCap ≠ 0 ∧ x.vf.msixCap ≤ a.reg ∧ a.reg < x.vf.msixCap + 4 then min a.len (x.vf.msixCap + 2 - a.reg)
  else a.len

/-- A write to a BAR leaves what is read, a write that covers Message Control leaves Enable and Function Mask, and
the registers of the device read the same with the bytes that it gets in the one case and in the other. -/
structure WriteOk (x : PciDev R) (barType : Nat → BitVec 32) (a : WideAccess) (val : BitVec 32) : Prop where
  barLo : ∀ b, x.vf.configTarget a.reg a.len = .barLo b →
    ((val &&& 0xfffffff0) &&& ~~~((x.vf.barSize b - 1).setWidth 32)) ||| barType b =
      ((x.vf.barVal b).setWidth 32 &&& ~~~((x.vf.barSize b - 1).setWidth 32)) ||| barType b
  barHi : ∀ b, x.vf.configTarget a.reg a.len = .barHi b → val = (x.vf.barVal b >>> 32).setWidth 32
  msgctl : x.CoversMsgctl a →
    val.getLsbD 31 = x.vf.msixMsgctl.getLsbD 15 ∧ val.getLsbD 30 = x.vf.msixMsgctl.getLsbD 14
  device : ∀ i, i < 256 → x.vf.barDword barType i = none →
    R.read (if x.vf.configTarget a.reg a.len = .device then R.pwrite x.region a.reg (leBytes a.len val.toNat)
      else x.region) i =
      R.read (R.pwrite x.region a.reg ((leBytes a.len val.toNat).take (x.deviceLen a))) i

end PciDev

/-! ### The Message Control word -/

theorem byte_mask (i : Nat) : (0xff : BitVec 32).getLsbD i = decide (i < 8) := by
  by_cases hi : i < 32
  · have hall : ∀ i < 32, (0xff : BitVec 32).getLsbD i = decide (i < 8) := by decide
    exact hall i hi
  · rw [BitVec.getLsbD_of_ge _ _ (by omega), decide_eq_false (by omega)]

theorem readMsgctl_byte (msgctl : BitVec 16) (pos : Nat) :
    (readMsgctl msgctl pos 1).setWidth 8 = (msgctl >>> (pos * 8)).setWidth 8 := by
  show ((0 : BitVec 32) ||| (((msgctl.setWidth 32 >>> ((pos + 0) * 8)) &&& 0xff) <<< (0 * 8))).setWidth 8 = _
  apply BitVec.eq_of_getLsbD_eq
  intro i hi
  have hlt := msgctl.getLsbD_of_ge (pos * 8 + i)
  simp only [BitVec.getLsbD_setWidth, BitVec.getLsbD_or, BitVec.getLsbD_and, BitVec.getLsbD_ushiftRight,
    BitVec.getLsbD_shiftLeft, byte_mask]
  grind

theorem readMsgctl_word (msgctl : BitVec 16) : readMsgctl msgctl 0 2 = msgctl.setWidth 32 := by
  show ((0 : BitVec 32) ||| (((msgctl.setWidth 32 >>> ((0 + 0) * 8)) &&& 0xff) <<< (0 * 8))) |||
    (((msgctl.setWidth 32 >>> ((0 + 1) * 8)) &&& 0xff) <<< (1 * 8)) = _
  apply BitVec.eq_of_getLsbD_eq
  intro i hi
  have hlt := msgctl.getLsbD_of_ge i
  simp only [BitVec.getLsbD_setWidth, BitVec.getLsbD_or, BitVec.getLsbD_and, BitVec.getLsbD_ushiftRight,
    BitVec.getLsbD_shiftLeft, byte_mask]
  grind

/-- The low byte of Message Control has no bit that can be written. -/
theorem writeMsgctl_low (msgctl : BitVec 16) (val : BitVec 32) : Vf.writeMsgctl msgctl 0 1 val = msgctl := by
  have hmask : (0xc000 : BitVec 16) &&& (0xff <<< (0 * 8)) = 0#16 := by decide
  show (msgctl &&& ~~~((0xc000 : BitVec 16) &&& (0xff <<< (0 * 8)))) |||
    (_ &&& ((0xc000 : BitVec 16) &&& (0xff <<< (0 * 8)))) = msgctl
  rw [hmask, BitVec.and_zero, BitVec.or_zero, BitVec.not_zero, BitVec.and_allOnes]

theorem writeMsgctl_high (msgctl : BitVec 16) (val : BitVec 32) :
    Vf.writeMsgctl msgctl 1 1 val =
      (msgctl &&& (0x3fff : BitVec 16)) ||| (((val.setWidth 8).setWidth 16 <<< 8) &&& (0xc000 : BitVec 16)) := by
  show (msgctl &&& ~~~((0xc000 : BitVec 16) &&& (0xff <<< (1 * 8)))) |||
    ((((val >>> (0 * 8)).setWidth 8).setWidth 16 <<< (1 * 8)) &&& ((0xc000 : BitVec 16) &&& (0xff <<< (1 * 8)))) = _
  have hmask : (0xc000 : BitVec 16) &&& (0xff <<< (1 * 8)) = 0xc000 := by decide
  have hshift : val >>> (0 * 8) = val := BitVec.ushiftRight_zero val
  rw [hmask, hshift]
  rfl

theorem writeMsgctl_word (msgctl : BitVec 16) (val : BitVec 32) :
    Vf.writeMsgctl msgctl 0 2 val = Vf.writeMsgctl msgctl 1 1 (val >>> 8) := by
  have htwo : Vf.writeMsgctl msgctl 0 2 val = Vf.writeMsgctl (Vf.writeMsgctl msgctl 0 1 val) 1 1 (val >>> 8) := by
    unfold Vf.writeMsgctl
    simp only [List.range_succ, List.range_zero, List.foldl_cons, List.foldl_nil, List.nil_append, List.cons_append]
    rfl
  rw [htwo, writeMsgctl_low]

/-- Bits 15 and 14 are written. -/
theorem writeMsgctl_high_bit (msgctl : BitVec 16) (val : BitVec 32) {i : Nat} (hi : i < 16) :
    (Vf.writeMsgctl msgctl 1 1 val).getLsbD i = if i < 14 then msgctl.getLsbD i else val.getLsbD (i - 8) := by
  have hkeep : ∀ i < 16, (0x3fff : BitVec 16).getLsbD i = decide (i < 14) := by decide
  have hmask : ∀ i < 16, (0xc000 : BitVec 16).getLsbD i = decide (14 ≤ i) := by decide
  rw [writeMsgctl_high, BitVec.getLsbD_or, BitVec.getLsbD_and, BitVec.getLsbD_and, hkeep i hi, hmask i hi,
    BitVec.getLsbD_shiftLeft, BitVec.getLsbD_setWidth, BitVec.getLsbD_setWidth]
  grind

theorem writeMsgctl_high_eq_iff {msgctl : BitVec 16} {val : BitVec 32} :
    Vf.writeMsgctl msgctl 1 1 val = msgctl ↔ val.getLsbD 7 = msgctl.getLsbD 15 ∧ val.getLsbD 6 = msgctl.getLsbD 14 := by
  constructor
  · intro h
    have hbit : ∀ i < 16, (if i < 14 then msgctl.getLsbD i else val.getLsbD (i - 8)) = msgctl.getLsbD i := by
      intro i hi
      rw [← writeMsgctl_high_bit msgctl val hi, h]
    exact ⟨hbit 15 (by decide), hbit 14 (by decide)⟩
  · rintro ⟨h7, h6⟩
    apply BitVec.eq_of_getLsbD_eq
    intro i hi
    rw [writeMsgctl_high_bit msgctl val hi]
    split
    · rfl
    · obtain rfl | rfl : i = 14 ∨ i = 15 := by omega
      · exact h6
      · exact h7

/-! ### Dwords -/

/-- A part of a dword is made of its bytes. -/
theorem part_eq_bytes (r : BitVec 32) {reg len : Nat} (hlen : len = 1 ∨ len = 2 ∨ len = 4) (halign : reg % len = 0) :
    (if len = 4 then r else (r >>> (reg % 4 * 8)) &&& (if len = 2 then 0xffff else 0xff)) =
      .ofNat 32 (leNat ((List.range len).map fun i => (r >>> ((reg + i) % 4 * 8)).setWidth 8)) := by
  have hr := r.isLt
  have hzero : reg + 0 = reg := Nat.add_zero reg
  apply BitVec.eq_of_toNat_eq
  rcases hlen with rfl | rfl | rfl
  · rw [if_neg (by decide), if_neg (by decide)]
    show _ = (BitVec.ofNat 32 (leNat [_])).toNat
    rw [leNat, leNat, BitVec.toNat_ofNat, toNat_byte]
    refine (toNat_shift_and r _ 8 (by decide)).trans ?_
    rw [hzero]
    omega
  · rw [if_neg (by decide), if_pos rfl]
    show _ = (BitVec.ofNat 32 (leNat [_, _])).toNat
    rw [leNat, leNat, leNat, BitVec.toNat_ofNat, toNat_byte, toNat_byte]
    refine (toNat_shift_and r _ 16 (by decide)).trans ?_
    have hnext : (reg + 1) % 4 * 8 = reg % 4 * 8 + 8 := by omega
    rw [hzero, hnext, Nat.pow_add, ← Nat.div_div_eq_div_mul]
    omega
  · rw [if_pos rfl]
    show _ = (BitVec.ofNat 32 (leNat [_, _, _, _])).toNat
    rw [leNat, leNat, leNat, leNat, leNat, BitVec.toNat_ofNat, toNat_byte, toNat_byte, toNat_byte, toNat_byte]
    have h0 : reg % 4 = 0 := halign
    have h1 : (reg + 1) % 4 = 1 := by omega
    have h2 : (reg + 2) % 4 = 2 := by omega
    have h3 : (reg + 3) % 4 = 3 := by omega
    rw [hzero, h0, h1, h2, h3]
    omega

namespace Vf

/-- A BAR register is the same at each of its bytes. -/
theorem barDword_congr (vf : Vf) (barType : Nat → BitVec 32) {reg reg' : Nat} (h : reg / 4 = reg' / 4) :
    vf.barDword barType reg = vf.barDword barType reg' := by
  have hrange : (0x10 ≤ reg ∧ reg < 0x28) ↔ (0x10 ≤ reg' ∧ reg' < 0x28) := by omega
  have htarget : vf.barReadTarget reg = vf.barReadTarget reg' := by
    unfold barReadTarget
    congr 1
    funext j
    have hlo : (0x10 + j * 4 ≤ reg ∧ reg < 0x10 + j * 4 + 4) ↔ (0x10 + j * 4 ≤ reg' ∧ reg' < 0x10 + j * 4 + 4) := by
      omega
    have hhi : (0x10 + j * 4 + 4 ≤ reg ∧ reg < 0x10 + j * 4 + 8) ↔
        (0x10 + j * 4 + 4 ≤ reg' ∧ reg' < 0x10 + j * 4 + 8) := by omega
    simp only [hlo, hhi]
  unfold barDword
  rw [htarget]
  simp only [hrange]

theorem barReadTarget_eq_barTarget (vf : Vf) {reg : Nat} (halign : reg % 4 = 0) :
    vf.barReadTarget reg = vf.barTarget reg := by
  unfold barReadTarget barTarget
  congr 1
  funext j
  have hlo : (0x10 + j * 4 ≤ reg ∧ reg < 0x10 + j * 4 + 4) ↔ reg = 0x10 + j * 4 := by omega
  have hhi : (0x10 + j * 4 + 4 ≤ reg ∧ reg < 0x10 + j * 4 + 8) ↔ reg = 0x10 + j * 4 + 4 := by omega
  simp only [hlo, hhi]

end Vf

/-! ### Reads -/

namespace PciDev

variable {x y : PciDev R} {barType : Nat → BitVec 32}

/-- The byte at `i` is one of the two bytes of Message Control. -/
def IsMsgctl (x : PciDev R) (i : Nat) : Prop :=
  x.vf.msixCap ≠ 0 ∧ x.vf.msixCap + 2 ≤ i ∧ i < x.vf.msixCap + 4

instance (x : PciDev R) (i : Nat) : Decidable (x.IsMsgctl i) := inferInstanceAs (Decidable (_ ∧ _))

theorem read_plain {reg len : Nat} (hlen : len = 1 ∨ len = 2 ∨ len = 4) (halign : reg % len = 0)
    (hout : ¬(x.vf.msixCap ≠ 0 ∧ x.vf.msixCap + 2 ≤ reg ∧ reg + len ≤ x.vf.msixCap + 4)) :
    x.read barType reg len = .ofNat 32 (leNat ((List.range len).map fun i => x.plain barType (reg + i))) := by
  have hdword : ∀ i < len, x.vf.barDword barType (reg + i) = x.vf.barDword barType reg := by
    intro i hi
    apply Vf.barDword_congr
    rcases hlen with rfl | rfl | rfl <;> omega
  unfold read Vf.ptConfigRead
  rw [if_neg hout]
  cases hbar : x.vf.barDword barType reg with
  | some r =>
    have hplain : ∀ i ∈ List.range len, x.plain barType (reg + i) = (r >>> ((reg + i) % 4 * 8)).setWidth 8 := by
      intro i hi
      unfold plain
      rw [hdword i (List.mem_range.1 hi), hbar]
    rw [List.map_congr_left hplain]
    exact part_eq_bytes r hlen halign
  | none =>
    have hplain : ∀ i ∈ List.range len, x.plain barType (reg + i) = R.read x.region (reg + i) := by
      intro i hi
      unfold plain
      rw [hdword i (List.mem_range.1 hi), hbar]
    rw [List.map_congr_left hplain]
    rfl

theorem read_byte (i : Nat) : (x.read barType i 1).setWidth 8 =
    if x.IsMsgctl i then (x.vf.msixMsgctl >>> ((i - (x.vf.msixCap + 2)) * 8)).setWidth 8 else x.plain barType i := by
  by_cases hmsgctl : x.IsMsgctl i
  · have hshadow : x.vf.msixCap ≠ 0 ∧ x.vf.msixCap + 2 ≤ i ∧ i + 1 ≤ x.vf.msixCap + 4 := hmsgctl
    unfold read Vf.ptConfigRead
    rw [if_pos hmsgctl, if_pos hshadow, readMsgctl_byte]
  · rw [if_neg hmsgctl, read_plain (.inl rfl) (Nat.mod_one i) hmsgctl]
    show (BitVec.ofNat 32 (leNat [x.plain barType (i + 0)])).setWidth 8 = _
    apply BitVec.eq_of_toNat_eq
    have hlt := (x.plain barType i).isLt
    have hzero : i + 0 = i := Nat.add_zero i
    rw [BitVec.toNat_setWidth, BitVec.toNat_ofNat, leNat, leNat, hzero]
    omega

/-- Where the capability is. -/
def CapOk (x : PciDev R) : Prop := x.vf.msixCap % 4 = 0 ∧ x.vf.msixCap + 4 ≤ 256

theorem read_msgctl (barType : Nat → BitVec 32) (hne : x.vf.msixCap ≠ 0) :
    (x.read barType (x.vf.msixCap + 2) 1).setWidth 8 = x.vf.msixMsgctl.setWidth 8 ∧
      (x.read barType (x.vf.msixCap + 3) 1).setWidth 8 = (x.vf.msixMsgctl >>> 8).setWidth 8 := by
  have hlow : x.IsMsgctl (x.vf.msixCap + 2) := ⟨hne, by omega, by omega⟩
  have hhigh : x.IsMsgctl (x.vf.msixCap + 3) := ⟨hne, by omega, by omega⟩
  have hone : x.vf.msixCap + 3 - (x.vf.msixCap + 2) = 1 := by omega
  rw [read_byte, read_byte, if_pos hlow, if_pos hhigh, Nat.sub_self, hone]
  exact ⟨rfl, rfl⟩

theorem msgctl_eq_bytes (msgctl : BitVec 16) : msgctl.setWidth 32 =
    .ofNat 32 (leNat [msgctl.setWidth 8, (msgctl >>> 8).setWidth 8]) := by
  have hlt := msgctl.isLt
  apply BitVec.eq_of_toNat_eq
  rw [leNat, leNat, leNat, BitVec.toNat_setWidth, BitVec.toNat_ofNat, BitVec.toNat_setWidth, BitVec.toNat_setWidth,
    BitVec.toNat_ushiftRight, Nat.shiftRight_eq_div_pow]
  omega

/-- A wide access that is not to the word covers its bytes only from the dword on. -/
theorem covers_of_isMsgctl (hcap : x.vf.msixCap % 4 = 0) {reg len i : Nat} (hlen : len = 2 ∨ len = 4)
    (halign : reg % len = 0) (hout : ¬(x.vf.msixCap ≠ 0 ∧ x.vf.msixCap + 2 ≤ reg ∧ reg + len ≤ x.vf.msixCap + 4))
    (hi : i < len) (hmsgctl : x.IsMsgctl (reg + i)) : reg = x.vf.msixCap ∧ len = 4 ∧ (i = 2 ∨ i = 3) := by
  obtain ⟨hne, hle, hlt⟩ := hmsgctl
  rcases hlen with rfl | rfl <;> omega

theorem readLaw_iff (hcap : x.CapOk) (a : WideAccess) : x.ReadLaw barType a ↔ x.ReadOk barType a := by
  obtain ⟨reg, len, hlen, halign, hspace⟩ := a
  by_cases hword : x.vf.msixCap ≠ 0 ∧ x.vf.msixCap + 2 ≤ reg ∧ reg + len ≤ x.vf.msixCap + 4
  · -- the Message Control word itself
    obtain ⟨hne, hle, hle'⟩ := hword
    obtain rfl : len = 2 := by omega
    obtain rfl : reg = x.vf.msixCap + 2 := by omega
    refine iff_of_true ?_ fun hcovers => absurd hcovers.2.1 (by simp)
    obtain ⟨hlow, hhigh⟩ := read_msgctl barType hne
    have hread : x.read barType (x.vf.msixCap + 2) 2 = x.vf.msixMsgctl.setWidth 32 := by
      unfold read Vf.ptConfigRead
      rw [if_pos ⟨hne, hle, hle'⟩, Nat.sub_self, readMsgctl_word]
    show x.read barType (x.vf.msixCap + 2) 2 = .ofNat 32 (leNat
      [(x.read barType (x.vf.msixCap + 2) 1).setWidth 8, (x.read barType (x.vf.msixCap + 3) 1).setWidth 8])
    rw [hread, hlow, hhigh, msgctl_eq_bytes]
  · have hpart : x.ReadLaw barType ⟨reg, len, hlen, halign, hspace⟩ ↔
        ∀ i ∈ List.range len, x.plain barType (reg + i) = (x.read barType (reg + i) 1).setWidth 8 := by
      unfold ReadLaw
      rw [read_plain (.inr hlen) halign hword, ofNat_leNat_inj (by simp) (by simp; omega), List.map_inj_left]
    rw [hpart]
    constructor
    · rintro h ⟨hne, rfl, rfl⟩
      obtain ⟨hlow, hhigh⟩ := read_msgctl barType hne
      exact ⟨(h 2 (by decide)).trans hlow, (h 3 (by decide)).trans hhigh⟩
    · intro hok i hi
      rw [List.mem_range] at hi
      by_cases hmsgctl : x.IsMsgctl (reg + i)
      · obtain ⟨rfl, rfl, hpos⟩ := covers_of_isMsgctl hcap.1 hlen halign hword hi hmsgctl
        obtain ⟨hlow, hhigh⟩ := read_msgctl barType hmsgctl.1
        obtain ⟨hlow', hhigh'⟩ := hok ⟨hmsgctl.1, rfl, rfl⟩
        rcases hpos with rfl | rfl
        · exact hlow'.trans hlow.symm
        · exact hhigh'.trans hhigh.symm
      · rw [read_byte, if_neg hmsgctl]

/-- What a reader can tell apart. -/
theorem sameReads_iff (hcap : x.CapOk) (hsame : y.vf.msixCap = x.vf.msixCap) : SameReads barType x y ↔
    (x.vf.msixCap ≠ 0 → x.vf.msixMsgctl = y.vf.msixMsgctl) ∧ ∀ i < 256, x.plain barType i = y.plain barType i := by
  obtain ⟨halign, hspace⟩ := hcap
  constructor
  · intro h
    constructor
    · intro hne
      -- a read of the word at Message Control shows it
      have hread : ∀ z : PciDev R, z.vf.msixCap = x.vf.msixCap →
          z.read barType (x.vf.msixCap + 2) 2 = z.vf.msixMsgctl.setWidth 32 := by
        intro z hz
        unfold read Vf.ptConfigRead
        rw [if_pos (by rw [hz]; exact ⟨hne, by omega, by omega⟩), hz, Nat.sub_self, readMsgctl_word]
      have hword := h (x.vf.msixCap + 2) 2 (.inr (.inl rfl)) (by omega) (by omega)
      rw [hread x rfl, hread y hsame] at hword
      have hlow := congrArg (BitVec.setWidth 16) hword
      simpa using hlow
    · intro i hi
      -- and the dword around byte `i` shows that byte
      have hdword := h (i - i % 4) 4 (.inr (.inr rfl)) (by omega) (by omega)
      rw [read_plain (.inr (.inr rfl)) (by omega) (by omega),
        read_plain (.inr (.inr rfl)) (by omega) (by rw [hsame]; omega), ofNat_leNat_inj (by simp) (by simp),
        List.map_inj_left] at hdword
      have hbyte := hdword (i % 4) (List.mem_range.2 (by omega))
      have hi' : i - i % 4 + i % 4 = i := by omega
      rwa [hi'] at hbyte
  · rintro ⟨hmsgctl, hplain⟩ reg len hlen hreg hlt
    by_cases hword : x.vf.msixCap ≠ 0 ∧ x.vf.msixCap + 2 ≤ reg ∧ reg + len ≤ x.vf.msixCap + 4
    · have hword' := hword
      rw [← hsame] at hword'
      unfold read Vf.ptConfigRead
      rw [if_pos hword, if_pos hword', hmsgctl hword.1, hsame]
    · have hword' := hword
      rw [← hsame] at hword'
      rw [read_plain hlen hreg hword, read_plain hlen hreg hword']
      congr 2
      refine List.map_congr_left fun i hi => hplain _ ?_
      have hi := List.mem_range.1 hi
      omega

/-! ### Writes of single bytes -/

theorem shadow_msixMsgctl {vf vf' : Vf} (h : vf'.shadow = vf.shadow) : vf'.msixCap = vf.msixCap ∧
    vf'.msixMsgctl = vf.msixMsgctl := ⟨congrArg Vf.Shadow.msixCap h, congrArg Vf.Shadow.msixMsgctl h⟩

theorem isMsgctl_congr (h : y.vf.shadow = x.vf.shadow) (i : Nat) : y.IsMsgctl i ↔ x.IsMsgctl i := by
  unfold IsMsgctl
  rw [(shadow_msixMsgctl h).1]

theorem configTarget_byte (vf : Vf) (reg : Nat) : vf.configTarget reg 1 =
    if vf.msixCap ≠ 0 ∧ vf.msixCap + 2 ≤ reg ∧ reg < vf.msixCap + 4 then .msgctl else .device := by
  unfold Vf.configTarget
  dsimp only
  rw [if_neg (by simp)]

/-- A write to Message Control changes the shadow word. -/
theorem write_msgctl {reg len : Nat} (h : x.vf.configTarget reg len = .msgctl) (io : Ioctls) (val : BitVec 32) :
    (x.write io reg len val).vf.shadow = { x.vf.shadow with
        msixMsgctl := Vf.writeMsgctl x.vf.msixMsgctl (reg - (x.vf.msixCap + 2)) len val } ∧
      (x.write io reg len val).region = x.region := by
  constructor
  · show (x.vf.ptConfigWrite io reg len val).shadow = _
    unfold Vf.ptConfigWrite
    rw [h]
    dsimp only
    split
    · exact Vf.shadow_msixSetupIrqs io _
    · rfl
  · show (if _ then _ else _) = _
    rw [h, if_neg (by simp)]

theorem write_device {reg len : Nat} (h : x.vf.configTarget reg len = .device) (io : Ioctls) (val : BitVec 32) :
    (x.write io reg len val).vf.shadow = x.vf.shadow ∧
      (x.write io reg len val).region = R.pwrite x.region reg (leBytes len val.toNat) := by
  constructor
  · show (x.vf.ptConfigWrite io reg len val).shadow = _
    unfold Vf.ptConfigWrite
    rw [h]
    exact Vf.shadow_pwriteRegion ..
  · show (if _ then _ else _) = _
    rw [h, if_pos rfl]

theorem leBytes_byte (b : BitVec 8) : leBytes 1 (b.setWidth 32).toNat = [b] := by
  rw [leBytes, leBytes, BitVec.toNat_setWidth_of_le (by decide), BitVec.ofNat_toNat, BitVec.setWidth_eq]

/-- The bytes that do not belong to Message Control go to the device. -/
theorem writeBytes_device (io : Nat → Ioctls) (reg : Nat) (bytes : List (BitVec 8))
    (hout : ∀ i < bytes.length, ¬x.IsMsgctl (reg + i)) :
    (x.writeBytes io reg bytes).vf.shadow = x.vf.shadow ∧
      (x.writeBytes io reg bytes).region = R.pwrite x.region reg bytes := by
  induction bytes generalizing x io reg with
  | nil => exact ⟨rfl, rfl⟩
  | cons b bytes ih =>
    have htarget : x.vf.configTarget reg 1 = .device :=
      (configTarget_byte x.vf reg).trans (if_neg (hout 0 (Nat.succ_pos _)))
    obtain ⟨hshadow, hregion⟩ := write_device htarget (io 0) (b.setWidth 32)
    have hrest : ∀ i < bytes.length, ¬(x.write (io 0) reg 1 (b.setWidth 32)).IsMsgctl (reg + 1 + i) := by
      intro i hi
      rw [isMsgctl_congr hshadow, Nat.add_assoc, Nat.add_comm 1]
      exact hout (i + 1) (Nat.succ_lt_succ hi)
    obtain ⟨hshadow', hregion'⟩ := ih (fun i => io (i + 1)) (reg + 1) hrest
    rw [leBytes_byte] at hregion
    rw [hregion] at hregion'
    exact ⟨hshadow'.trans hshadow, hregion'⟩

/-- The two bytes of Message Control. -/
theorem writeBytes_msgctl (hne : x.vf.msixCap ≠ 0) (io : Nat → Ioctls) (b b' : BitVec 8) :
    (x.writeBytes io (x.vf.msixCap + 2) [b, b']).vf.shadow = { x.vf.shadow with
        msixMsgctl := Vf.writeMsgctl x.vf.msixMsgctl 1 1 (b'.setWidth 32) } ∧
      (x.writeBytes io (x.vf.msixCap + 2) [b, b']).region = x.region := by
  have hlow : x.vf.configTarget (x.vf.msixCap + 2) 1 = .msgctl := by
    rw [configTarget_byte, if_pos ⟨hne, by omega, by omega⟩]
  obtain ⟨hshadow, hregion⟩ := write_msgctl hlow (io 0) (b.setWidth 32)
  rw [Nat.sub_self, writeMsgctl_low] at hshadow
  have hshadow : (x.write (io 0) (x.vf.msixCap + 2) 1 (b.setWidth 32)).vf.shadow = x.vf.shadow := hshadow
  show ((x.write (io 0) (x.vf.msixCap + 2) 1 (b.setWidth 32)).write (io 1) (x.vf.msixCap + 2 + 1) 1
    (b'.setWidth 32)).vf.shadow = _ ∧ ((x.write (io 0) (x.vf.msixCap + 2) 1 (b.setWidth 32)).write (io 1)
      (x.vf.msixCap + 2 + 1) 1 (b'.setWidth 32)).region = _
  generalize x.write (io 0) (x.vf.msixCap + 2) 1 (b.setWidth 32) = y at hshadow hregion ⊢
  obtain ⟨hcap, hmsgctl⟩ := shadow_msixMsgctl hshadow
  have hhigh : y.vf.configTarget (x.vf.msixCap + 2 + 1) 1 = .msgctl := by
    rw [configTarget_byte, hcap, if_pos ⟨hne, by omega, by omega⟩]
  obtain ⟨hshadow', hregion'⟩ := write_msgctl hhigh (io 1) (b'.setWidth 32)
  have hpos : x.vf.msixCap + 2 + 1 - (x.vf.msixCap + 2) = 1 := by omega
  rw [hcap, hmsgctl, hshadow, hpos] at hshadow'
  exact ⟨hshadow', hregion'.trans hregion⟩

theorem writeBytes_append (io : Nat → Ioctls) (reg : Nat) (l l' : List (BitVec 8)) :
    x.writeBytes io reg (l ++ l') =
      (x.writeBytes io reg l).writeBytes (fun i => io (i + l.length)) (reg + l.length) l' := by
  induction l generalizing x io reg with
  | nil => rfl
  | cons b l ih =>
    show (x.write (io 0) reg 1 (b.setWidth 32)).writeBytes (fun i => io (i + 1)) (reg + 1) (l ++ l') = _
    rw [ih, List.length_cons, Nat.add_assoc, Nat.add_comm 1]
    rfl

end PciDev

/-! ### Writes to a BAR -/

namespace Vf

variable {vf vf' : Vf} {b reg len : Nat}

/-- What is read as the low and as the high dword of BAR `b`. -/
def loDword (vf : Vf) (barType : Nat → BitVec 32) (b : Nat) : BitVec 32 :=
  ((vf.barVal b).setWidth 32 &&& ~~~((vf.barSize b - 1).setWidth 32)) ||| barType b

def hiDword (vf : Vf) (b : Nat) : BitVec 32 := (vf.barVal b >>> 32).setWidth 32

variable {barType : Nat → BitVec 32}

theorem barDword_lo (h : vf.configTarget reg len = .barLo b) :
    vf.barDword barType reg = some (vf.loDword barType b) := by
  obtain ⟨hle, hlt, -, htarget, hsize⟩ := configTarget_bar h (.inl rfl)
  have halign : reg % 4 = 0 := by
    have hreg := (barTarget_eq_some htarget).1 rfl
    omega
  unfold barDword
  rw [if_pos ⟨hle, hlt⟩, barReadTarget_eq_barTarget vf halign, htarget]
  exact if_neg hsize

theorem barDword_hi (h : vf.configTarget reg len = .barHi b) : vf.barDword barType reg = some (vf.hiDword b) := by
  obtain ⟨hle, hlt, -, htarget, hsize⟩ := configTarget_bar h (.inr rfl)
  have halign : reg % 4 = 0 := by
    have hreg := (barTarget_eq_some htarget).2 rfl
    omega
  unfold barDword
  rw [if_pos ⟨hle, hlt⟩, barReadTarget_eq_barTarget vf halign, htarget]
  exact if_neg hsize

/-- The same BARs with other values in them. -/
structure SameBars (vf vf' : Vf) : Prop where
  barSize : vf'.barSize = vf.barSize
  barIs64 : vf'.barIs64 = vf.barIs64

namespace SameBars

variable (h : SameBars vf vf')

include h

theorem barReadTarget (reg : Nat) : vf'.barReadTarget reg = vf.barReadTarget reg := by
  unfold Vf.barReadTarget
  rw [h.barIs64]

theorem configTarget (hcap : vf'.msixCap = vf.msixCap) (reg len : Nat) :
    vf'.configTarget reg len = vf.configTarget reg len := by
  unfold Vf.configTarget barTarget
  rw [h.barSize, h.barIs64, hcap]

theorem barDword_eq (hlo : ∀ i, vf'.loDword barType i = vf.loDword barType i)
    (hhi : ∀ i, vf'.hiDword i = vf.hiDword i) (reg : Nat) : vf'.barDword barType reg = vf.barDword barType reg := by
  unfold barDword
  rw [h.barReadTarget, h.barSize]
  cases vf.barReadTarget reg with
  | none => rfl
  | some t =>
    cases t with
    | barLo i =>
      have hlo : ((vf'.barVal i).setWidth 32 &&& ~~~((vf.barSize i - 1).setWidth 32)) ||| barType i =
          vf.loDword barType i := by
        rw [← hlo i, ← h.barSize]
        rfl
      dsimp only
      rw [hlo]
      rfl
    | barHi i =>
      have hhi : (vf'.barVal i >>> 32).setWidth 32 = vf.hiDword i := hhi i
      dsimp only
      rw [hhi]
      rfl
    | msgctl => rfl
    | device => rfl

/-- Which bytes are bytes of a BAR does not depend on the values. -/
theorem barDword_none (reg : Nat) : vf'.barDword barType reg = none ↔ vf.barDword barType reg = none := by
  unfold barDword
  rw [h.barReadTarget, h.barSize]
  split
  · cases vf.barReadTarget reg with
    | none => rfl
    | some t =>
      cases t with
      | barLo i =>
        dsimp only
        split <;> simp
      | barHi i =>
        dsimp only
        split <;> simp
      | msgctl => rfl
      | device => rfl
  · rfl

/-- A write to the low dword of BAR `b` is seen there only. -/
theorem barDword_lo_iff (hcap : vf'.msixCap = vf.msixCap) (htarget : vf.configTarget reg len = .barLo b)
    (hother : ∀ i, i ≠ b → vf'.barVal i = vf.barVal i) (hhi : vf'.hiDword b = vf.hiDword b) :
    (∀ i < 256, vf'.barDword barType i = vf.barDword barType i) ↔ vf'.loDword barType b = vf.loDword barType b := by
  obtain ⟨-, hlt, -⟩ := configTarget_bar htarget (.inl rfl)
  constructor
  · intro hall
    have hreg := hall reg (by omega)
    rw [barDword_lo htarget, barDword_lo ((h.configTarget hcap reg len).trans htarget)] at hreg
    exact Option.some.inj hreg
  · intro hlo i _
    refine h.barDword_eq (fun j => ?_) (fun j => ?_) i
    · by_cases hj : j = b
      · rw [hj, hlo]
      · unfold loDword
        rw [hother j hj, h.barSize]
    · by_cases hj : j = b
      · rw [hj, hhi]
      · unfold hiDword
        rw [hother j hj]

theorem barDword_hi_iff (hcap : vf'.msixCap = vf.msixCap) (htarget : vf.configTarget reg len = .barHi b)
    (hother : ∀ i, i ≠ b → vf'.barVal i = vf.barVal i) (hlo : vf'.loDword barType b = vf.loDword barType b) :
    (∀ i < 256, vf'.barDword barType i = vf.barDword barType i) ↔ vf'.hiDword b = vf.hiDword b := by
  obtain ⟨-, hlt, -⟩ := configTarget_bar htarget (.inr rfl)
  constructor
  · intro hall
    have hreg := hall reg (by omega)
    rw [barDword_hi htarget, barDword_hi ((h.configTarget hcap reg len).trans htarget)] at hreg
    exact Option.some.inj hreg
  · intro hhi i _
    refine h.barDword_eq (fun j => ?_) (fun j => ?_) i
    · by_cases hj : j = b
      · rw [hj, hlo]
      · unfold loDword
        rw [hother j hj, h.barSize]
    · by_cases hj : j = b
      · rw [hj, hhi]
      · unfold hiDword
        rw [hother j hj]

end SameBars

end Vf

/-! ### Wide writes -/

namespace PciDev

variable {x w n : PciDev R} {barType : Nat → BitVec 32}

/-- The bytes are the same if the BARs are, and the registers of the device. -/
theorem plain_eq_iff (hnone : ∀ i, w.vf.barDword barType i = none ↔ n.vf.barDword barType i = none) :
    (∀ i < 256, w.plain barType i = n.plain barType i) ↔
      (∀ i < 256, w.vf.barDword barType i = n.vf.barDword barType i) ∧
        ∀ i < 256, n.vf.barDword barType i = none → R.read w.region i = R.read n.region i := by
  constructor
  · intro h
    constructor
    · intro i hi
      cases hw : w.vf.barDword barType i with
      | none => exact ((hnone i).1 hw).symm
      | some r =>
        cases hn : n.vf.barDword barType i with
        | none => rw [(hnone i).2 hn] at hw; cases hw
        | some r' =>
          -- the four bytes of the dword
          have hbytes : (List.range 4).map (fun k => (r >>> ((i - i % 4 + k) % 4 * 8)).setWidth 8) =
              (List.range 4).map fun k => ((r' >>> ((i - i % 4 + k) % 4 * 8)).setWidth 8 : BitVec 8) := by
            refine List.map_congr_left fun k hk => ?_
            have hk := List.mem_range.1 hk
            have hplain := h (i - i % 4 + k) (by omega)
            unfold plain at hplain
            rw [Vf.barDword_congr w.vf barType (by omega : (i - i % 4 + k) / 4 = i / 4),
              Vf.barDword_congr n.vf barType (by omega : (i - i % 4 + k) / 4 = i / 4), hw, hn] at hplain
            exact hplain
          have hr := part_eq_bytes r (.inr (.inr rfl)) (by omega : (i - i % 4) % 4 = 0)
          have hr' := part_eq_bytes r' (.inr (.inr rfl)) (by omega : (i - i % 4) % 4 = 0)
          rw [if_pos rfl] at hr hr'
          rw [hr, hr', hbytes]
    · intro i hi hn
      have hplain := h i hi
      unfold plain at hplain
      rw [hn, (hnone i).2 hn] at hplain
      exact hplain
  · rintro ⟨hbar, hregion⟩ i hi
    unfold plain
    rw [hbar i hi]
    cases hn : n.vf.barDword barType i with
    | none => exact hregion i hi hn
    | some r => rfl

theorem ofNat_byte (val : BitVec 32) (k : Nat) : BitVec.ofNat 8 (val.toNat / 2 ^ k) = (val >>> k).setWidth 8 := by
  apply BitVec.eq_of_toNat_eq
  rw [toNat_byte, BitVec.toNat_ofNat]

/-- An access of bytes that are not Message Control. -/
theorem writeBytes_out (io : Nat → Ioctls) (a : WideAccess) (val : BitVec 32)
    (hout : ∀ i < a.len, ¬x.IsMsgctl (a.reg + i)) :
    (x.writeBytes io a.reg (leBytes a.len val.toNat)).vf.shadow = x.vf.shadow ∧
      (x.writeBytes io a.reg (leBytes a.len val.toNat)).region =
        R.pwrite x.region a.reg ((leBytes a.len val.toNat).take (x.deviceLen a)) := by
  have hpos : 0 < a.len := by
    have hwidth := a.width
    omega
  have hlen : x.deviceLen a = a.len := by
    unfold deviceLen
    split
    · rename_i hin
      have hfirst : ¬(x.vf.msixCap ≠ 0 ∧ x.vf.msixCap + 2 ≤ a.reg + 0 ∧ a.reg + 0 < x.vf.msixCap + 4) := hout 0 hpos
      have hlast : ¬(x.vf.msixCap ≠ 0 ∧ x.vf.msixCap + 2 ≤ a.reg + (x.vf.msixCap + 2 - a.reg) ∧
          a.reg + (x.vf.msixCap + 2 - a.reg) < x.vf.msixCap + 4) ∨ a.len ≤ x.vf.msixCap + 2 - a.reg := by
        by_cases hlt : x.vf.msixCap + 2 - a.reg < a.len
        · exact .inl (hout _ hlt)
        · exact .inr (by omega)
      omega
    · rfl
  rw [hlen, List.take_of_length_le (by simp)]
  exact writeBytes_device io a.reg _ fun i hi => hout i (by simpa using hi)

/-- The dword in which Message Control is the upper half: two bytes go to the device. -/
theorem writeBytes_covers (io : Nat → Ioctls) (a : WideAccess) (val : BitVec 32)
    (hcovers : x.CoversMsgctl a) :
    (x.writeBytes io a.reg (leBytes a.len val.toNat)).vf.shadow = { x.vf.shadow with
        msixMsgctl := Vf.writeMsgctl x.vf.msixMsgctl 1 1 (((val >>> 24).setWidth 8).setWidth 32) } ∧
      (x.writeBytes io a.reg (leBytes a.len val.toNat)).region =
        R.pwrite x.region a.reg ((leBytes a.len val.toNat).take (x.deviceLen a)) := by
  obtain ⟨hne, hreg, hlen⟩ := hcovers
  have htwo : x.deviceLen a = 2 := by
    unfold deviceLen
    rw [if_pos ⟨hne, by omega, by omega⟩]
    omega
  -- the lower half goes to the device, the upper one to Message Control
  have hsplit : leBytes a.len val.toNat = [BitVec.ofNat 8 val.toNat, BitVec.ofNat 8 (val.toNat / 256)] ++
      [BitVec.ofNat 8 (val.toNat / 256 / 256), BitVec.ofNat 8 (val.toNat / 2 ^ 24)] := by
    have hdiv : val.toNat / 2 ^ 24 = val.toNat / 256 / 256 / 256 := by omega
    rw [hlen, hdiv]
    rfl
  rw [htwo, hsplit, writeBytes_append, ofNat_byte, hreg]
  obtain ⟨hshadow, hregion⟩ := writeBytes_device (x := x) io x.vf.msixCap
    [BitVec.ofNat 8 val.toNat, BitVec.ofNat 8 (val.toNat / 256)] (by
      rintro i hi ⟨-, hle, -⟩
      simp at hi
      omega)
  show (PciDev.writeBytes _ (fun i => io (i + 2)) (x.vf.msixCap + 2) _).vf.shadow = _ ∧
    (PciDev.writeBytes _ (fun i => io (i + 2)) (x.vf.msixCap + 2) _).region = R.pwrite x.region x.vf.msixCap
      [BitVec.ofNat 8 val.toNat, BitVec.ofNat 8 (val.toNat / 256)]
  generalize x.writeBytes io x.vf.msixCap [BitVec.ofNat 8 val.toNat, BitVec.ofNat 8 (val.toNat / 256)] = y
    at hshadow hregion ⊢
  obtain ⟨hcap', hmsgctl⟩ := shadow_msixMsgctl hshadow
  rw [← hcap'] at hne hregion ⊢
  obtain ⟨hshadow', hregion'⟩ := writeBytes_msgctl hne (fun i => io (i + 2))
    (BitVec.ofNat 8 (val.toNat / 256 / 256)) ((val >>> 24).setWidth 8)
  rw [hshadow, hmsgctl] at hshadow'
  rw [hregion] at hregion'
  exact ⟨hshadow', hregion'⟩

/-- The Message Control word itself. -/
theorem writeBytes_word (hne : x.vf.msixCap ≠ 0) (io : Nat → Ioctls) (val : BitVec 32) :
    (x.writeBytes io (x.vf.msixCap + 2) (leBytes 2 val.toNat)).vf.shadow = { x.vf.shadow with
        msixMsgctl := Vf.writeMsgctl x.vf.msixMsgctl 0 2 val } ∧
      (x.writeBytes io (x.vf.msixCap + 2) (leBytes 2 val.toNat)).region = x.region := by
  have hbytes : leBytes 2 val.toNat = [BitVec.ofNat 8 val.toNat, BitVec.ofNat 8 (val.toNat / 2 ^ 8)] := rfl
  have hhigh : Vf.writeMsgctl x.vf.msixMsgctl 1 1 (((val >>> 8).setWidth 8).setWidth 32) =
      Vf.writeMsgctl x.vf.msixMsgctl 1 1 (val >>> 8) := by
    rw [writeMsgctl_high, writeMsgctl_high]
    congr 4
    rw [BitVec.setWidth_setWidth_of_le _ (by decide), BitVec.setWidth_eq]
  rw [hbytes, ofNat_byte, writeMsgctl_word, ← hhigh]
  exact writeBytes_msgctl hne io _ _

theorem plain_congr (hshadow : w.vf.shadow = n.vf.shadow) (hregion : w.region = n.region) (i : Nat) :
    w.plain barType i = n.plain barType i := by
  have hbars : Vf.SameBars n.vf w.vf := ⟨congrArg Vf.Shadow.barSize hshadow, congrArg Vf.Shadow.barIs64 hshadow⟩
  have hval : w.vf.barVal = n.vf.barVal := congrArg Vf.Shadow.barVal hshadow
  have hbar : w.vf.barDword barType i = n.vf.barDword barType i := by
    apply hbars.barDword_eq <;> intro j
    · unfold Vf.loDword
      rw [hval, hbars.barSize]
    · unfold Vf.hiDword
      rw [hval]
  unfold plain
  rw [hbar, hregion]

/-- What the single bytes leave. -/
structure Narrow (x n : PciDev R) (a : WideAccess) (val : BitVec 32) : Prop where
  bars : Vf.SameBars x.vf n.vf
  barVal : n.vf.barVal = x.vf.barVal
  msixCap : n.vf.msixCap = x.vf.msixCap
  msgctl : x.vf.msixMsgctl = n.vf.msixMsgctl ↔ (x.CoversMsgctl a →
    val.getLsbD 31 = x.vf.msixMsgctl.getLsbD 15 ∧ val.getLsbD 30 = x.vf.msixMsgctl.getLsbD 14)
  region : n.region = R.pwrite x.region a.reg ((leBytes a.len val.toNat).take (x.deviceLen a))

theorem writeBytes_narrow (hcap : x.CapOk) (io : Nat → Ioctls) (a : WideAccess) (val : BitVec 32)
    (hword : ¬(x.vf.msixCap ≠ 0 ∧ x.vf.msixCap + 2 ≤ a.reg ∧ a.reg + a.len ≤ x.vf.msixCap + 4)) :
    Narrow x (x.writeBytes io a.reg (leBytes a.len val.toNat)) a val := by
  by_cases hcovers : x.CoversMsgctl a
  · obtain ⟨hshadow, hregion⟩ := writeBytes_covers io a val hcovers
    refine ⟨⟨congrArg Vf.Shadow.barSize hshadow, congrArg Vf.Shadow.barIs64 hshadow⟩,
      congrArg Vf.Shadow.barVal hshadow, congrArg Vf.Shadow.msixCap hshadow, ?_, hregion⟩
    have hmsgctl := congrArg Vf.Shadow.msixMsgctl hshadow
    have hmsgctl : (x.writeBytes io a.reg (leBytes a.len val.toNat)).vf.msixMsgctl =
      Vf.writeMsgctl x.vf.msixMsgctl 1 1 (((val >>> 24).setWidth 8).setWidth 32) := hmsgctl
    have hbit : ∀ i < 8, (((val >>> 24).setWidth 8).setWidth 32).getLsbD i = val.getLsbD (24 + i) := by
      intro i hi
      simp [hi]
      omega
    rw [hmsgctl, eq_comm, writeMsgctl_high_eq_iff, hbit 7 (by decide), hbit 6 (by decide)]
    exact ⟨fun h _ => h, fun h => h hcovers⟩
  · have hout : ∀ i < a.len, ¬x.IsMsgctl (a.reg + i) := fun i hi hmsgctl =>
      have hcov := covers_of_isMsgctl hcap.1 a.width a.aligned hword hi hmsgctl
      hcovers ⟨hmsgctl.1, hcov.1, hcov.2.1⟩
    obtain ⟨hshadow, hregion⟩ := writeBytes_out io a val hout
    refine ⟨⟨congrArg Vf.Shadow.barSize hshadow, congrArg Vf.Shadow.barIs64 hshadow⟩,
      congrArg Vf.Shadow.barVal hshadow, congrArg Vf.Shadow.msixCap hshadow, ?_, hregion⟩
    exact iff_of_true (congrArg Vf.Shadow.msixMsgctl hshadow).symm fun h => absurd h hcovers

/-- What the wide write leaves. -/
structure Wide (x w : PciDev R) (barType : Nat → BitVec 32) (a : WideAccess) (val : BitVec 32) : Prop where
  bars : Vf.SameBars x.vf w.vf
  msixCap : w.vf.msixCap = x.vf.msixCap
  msgctl : w.vf.msixMsgctl = x.vf.msixMsgctl
  barDword : (∀ i < 256, w.vf.barDword barType i = x.vf.barDword barType i) ↔
    (∀ b, x.vf.configTarget a.reg a.len = .barLo b →
      ((val &&& 0xfffffff0) &&& ~~~((x.vf.barSize b - 1).setWidth 32)) ||| barType b =
        ((x.vf.barVal b).setWidth 32 &&& ~~~((x.vf.barSize b - 1).setWidth 32)) ||| barType b) ∧
    ∀ b, x.vf.configTarget a.reg a.len = .barHi b → val = (x.vf.barVal b >>> 32).setWidth 32

/-- A write to the low dword of BAR `b`. -/
theorem write_barLo {reg len b : Nat} (h : x.vf.configTarget reg len = .barLo b) (io : Ioctls) (val : BitVec 32) :
    (x.write io reg len val).vf = { x.vf with
      barVal := Function.update x.vf.barVal b
        ((x.vf.barVal b).extractLsb' 32 32 ++ (val &&& 0xfffffff0 : BitVec 32)) } := by
  show x.vf.ptConfigWrite io reg len val = _
  rw [← and_high_or _ ((x.vf.barVal b).extractLsb' 0 32), eq_append_halves]
  unfold Vf.ptConfigWrite
  rw [h]

theorem write_barHi {reg len b : Nat} (h : x.vf.configTarget reg len = .barHi b) (io : Ioctls) (val : BitVec 32) :
    (x.write io reg len val).vf = { x.vf with
      barVal := Function.update x.vf.barVal b (val ++ (x.vf.barVal b).extractLsb' 0 32) } := by
  show x.vf.ptConfigWrite io reg len val = _
  rw [← and_low_or ((x.vf.barVal b).extractLsb' 32 32), eq_append_halves, BitVec.or_comm]
  unfold Vf.ptConfigWrite
  rw [h]

theorem configTarget_msgctl {reg len : Nat} (h : x.vf.configTarget reg len = .msgctl) : x.IsMsgctl reg := by
  rcases x.vf.configTarget_cases reg len with hrest | ⟨b, hlo | hhi, -⟩
  · rw [h] at hrest
    by_contra hout
    have hdevice : x.vf.restTarget reg = .device := if_neg hout
    rw [hdevice] at hrest
    cases hrest
  · rw [h] at hlo
    cases hlo
  · rw [h] at hhi
    cases hhi

theorem write_wide (hcap : x.CapOk) (io : Ioctls) (a : WideAccess) (val : BitVec 32)
    (hword : ¬(x.vf.msixCap ≠ 0 ∧ x.vf.msixCap + 2 ≤ a.reg ∧ a.reg + a.len ≤ x.vf.msixCap + 4)) :
    Wide x (x.write io a.reg a.len val) barType a val := by
  cases htarget : x.vf.configTarget a.reg a.len with
  | barLo b =>
    have hval := write_barLo htarget io val
    have hlo : (x.write io a.reg a.len val).vf.loDword barType b =
        ((val &&& 0xfffffff0) &&& ~~~((x.vf.barSize b - 1).setWidth 32)) ||| barType b := by
      unfold Vf.loDword
      rw [hval]
      dsimp only
      rw [Function.update_self, low_half (_ ++ _), (halves_append _ _).2]
    have hhi : (x.write io a.reg a.len val).vf.hiDword b = x.vf.hiDword b := by
      unfold Vf.hiDword
      rw [hval]
      dsimp only
      rw [Function.update_self, high_half, high_half, (halves_append _ _).1]
    generalize x.write io a.reg a.len val = w at hval hlo hhi ⊢
    have hother : ∀ i, i ≠ b → w.vf.barVal i = x.vf.barVal i := by
      intro i hi
      rw [hval]
      exact Function.update_of_ne hi ..
    refine ⟨⟨by rw [hval], by rw [hval]⟩, by rw [hval], by rw [hval], ?_⟩
    rw [Vf.SameBars.barDword_lo_iff ⟨by rw [hval], by rw [hval]⟩ (by rw [hval]) htarget hother hhi, hlo, htarget]
    constructor
    · intro h
      refine ⟨fun b' hb' => ?_, by simp⟩
      cases hb'
      exact h
    · exact fun h => h.1 b rfl
  | barHi b =>
    have hval := write_barHi htarget io val
    have hlo : (x.write io a.reg a.len val).vf.loDword barType b = x.vf.loDword barType b := by
      unfold Vf.loDword
      rw [hval]
      dsimp only
      rw [Function.update_self, low_half (_ ++ _), (halves_append _ _).2, low_half (x.vf.barVal b)]
    have hhi : (x.write io a.reg a.len val).vf.hiDword b = val := by
      unfold Vf.hiDword
      rw [hval]
      dsimp only
      rw [Function.update_self, high_half, (halves_append _ _).1]
    generalize x.write io a.reg a.len val = w at hval hlo hhi ⊢
    have hother : ∀ i, i ≠ b → w.vf.barVal i = x.vf.barVal i := by
      intro i hi
      rw [hval]
      exact Function.update_of_ne hi ..
    refine ⟨⟨by rw [hval], by rw [hval]⟩, by rw [hval], by rw [hval], ?_⟩
    rw [Vf.SameBars.barDword_hi_iff ⟨by rw [hval], by rw [hval]⟩ (by rw [hval]) htarget hother hlo, hhi, htarget]
    constructor
    · intro h
      refine ⟨by simp, fun b' hb' => ?_⟩
      cases hb'
      exact h
    · exact fun h => h.2 b rfl
  | msgctl =>
    -- the word is the only aligned access to the upper half
    obtain ⟨hne, hle, hlt⟩ := configTarget_msgctl htarget
    have halign := a.aligned
    have hcap := hcap.1
    rcases a.width with hlen | hlen <;> rw [hlen] at halign hword <;> omega
  | device =>
    obtain ⟨hshadow, -⟩ := write_device htarget io val
    have hbars : Vf.SameBars x.vf (x.write io a.reg a.len val).vf :=
      ⟨congrArg Vf.Shadow.barSize hshadow, congrArg Vf.Shadow.barIs64 hshadow⟩
    have hval : (x.write io a.reg a.len val).vf.barVal = x.vf.barVal := congrArg Vf.Shadow.barVal hshadow
    refine ⟨hbars, congrArg Vf.Shadow.msixCap hshadow, congrArg Vf.Shadow.msixMsgctl hshadow, ?_⟩
    rw [htarget]
    refine iff_of_true (fun i _ => hbars.barDword_eq (fun j => ?_) (fun j => ?_) i) ⟨by simp, by simp⟩
    · unfold Vf.loDword
      rw [hval, hbars.barSize]
    · unfold Vf.hiDword
      rw [hval]

/-- The wide write is the writes of its bytes if and only if the condition holds. -/
theorem writeLaw_iff (hcap : x.CapOk) (a : WideAccess) (val : BitVec 32) :
    x.WriteLaw barType a val ↔ x.WriteOk barType a val := by
  by_cases hword : x.vf.msixCap ≠ 0 ∧ x.vf.msixCap + 2 ≤ a.reg ∧ a.reg + a.len ≤ x.vf.msixCap + 4
  · obtain ⟨reg, len, hlen, halign, hspace⟩ := a
    obtain ⟨hne, hle, hle'⟩ := hword
    dsimp only at hle hle'
    obtain rfl : len = 2 := by omega
    obtain rfl : reg = x.vf.msixCap + 2 := by omega
    have htarget : x.vf.configTarget (x.vf.msixCap + 2) 2 = .msgctl := by
      unfold Vf.configTarget
      dsimp only
      rw [if_neg (by simp)]
      exact if_pos ⟨hne, by omega, by omega⟩
    refine iff_of_true (fun io io' => ?_) ⟨fun b hb => ?_, fun b hb => ?_, fun hcovers => ?_, fun i _ _ => ?_⟩
    · obtain ⟨hshadow, hregion⟩ := write_msgctl htarget io val
      obtain ⟨hshadow', hregion'⟩ := writeBytes_word hne io' val
      rw [Nat.sub_self, ← hshadow'] at hshadow
      have hcap' : (x.write io (x.vf.msixCap + 2) 2 val).vf.msixCap = x.vf.msixCap :=
        congrArg Vf.Shadow.msixCap (hshadow.trans hshadow')
      show SameReads barType (x.write io (x.vf.msixCap + 2) 2 val)
        (x.writeBytes io' (x.vf.msixCap + 2) (leBytes 2 val.toNat))
      rw [sameReads_iff (by unfold CapOk; rw [hcap']; exact hcap) (congrArg Vf.Shadow.msixCap hshadow).symm]
      exact ⟨fun _ => congrArg Vf.Shadow.msixMsgctl hshadow,
        fun i _ => plain_congr hshadow (hregion.trans hregion'.symm) i⟩
    · rw [htarget] at hb
      cases hb
    · rw [htarget] at hb
      cases hb
    · exact absurd hcovers.2.1 (by simp)
    · have hzero : x.deviceLen ⟨x.vf.msixCap + 2, 2, hlen, halign, hspace⟩ = 0 := by
        unfold deviceLen
        dsimp only
        rw [if_pos ⟨hne, by omega, by omega⟩]
        omega
      dsimp only
      rw [hzero, htarget, if_neg (by simp)]
      rfl
  · -- the answers of the ioctls are not seen in the configuration space
    have hlaw : ∀ io io', SameReads barType (x.write io a.reg a.len val)
        (x.writeBytes io' a.reg (leBytes a.len val.toNat)) ↔ x.WriteOk barType a val := by
      intro io io'
      have hw : Wide x (x.write io a.reg a.len val) barType a val := write_wide hcap io a val hword
      have hn : Narrow x (x.writeBytes io' a.reg (leBytes a.len val.toNat)) a val :=
        writeBytes_narrow hcap io' a val hword
      have hregion : (x.write io a.reg a.len val).region = if x.vf.configTarget a.reg a.len = .device then
        R.pwrite x.region a.reg (leBytes a.len val.toNat) else x.region := rfl
      generalize x.write io a.reg a.len val = w at hw hregion ⊢
      generalize x.writeBytes io' a.reg (leBytes a.len val.toNat) = n at hn ⊢
      have hbar : ∀ i, n.vf.barDword barType i = x.vf.barDword barType i :=
        hn.bars.barDword_eq (fun i => by unfold Vf.loDword; rw [hn.barVal, hn.bars.barSize])
          fun i => by unfold Vf.hiDword; rw [hn.barVal]
      have hnone : ∀ i, w.vf.barDword barType i = none ↔ n.vf.barDword barType i = none := by
        intro i
        rw [hbar i]
        exact hw.bars.barDword_none i
      rw [sameReads_iff (by unfold CapOk; rw [hw.msixCap]; exact hcap) (hn.msixCap.trans hw.msixCap.symm),
        plain_eq_iff hnone, hw.msixCap, hw.msgctl, hregion, hn.region]
      simp only [hbar]
      rw [hw.barDword]
      constructor
      · rintro ⟨hmsgctl, ⟨hlo, hhi⟩, hdevice⟩
        exact ⟨hlo, hhi, fun hcovers => hn.msgctl.1 (hmsgctl hcovers.1) hcovers, hdevice⟩
      · rintro ⟨hlo, hhi, hmsgctl, hdevice⟩
        exact ⟨fun _ => hn.msgctl.2 hmsgctl, ⟨hlo, hhi⟩, hdevice⟩
    constructor
    · intro h
      exact (hlaw ⟨fun _ => true, true⟩ fun _ => ⟨fun _ => true, true⟩).1 (h _ _)
    · intro h io io'
      exact (hlaw io io').2 h

end PciDev

/-! ### The law of the program -/

theorem findMsixCap_aligned (config : ByteMem) (n : Nat) (off : BitVec 8) :
    findMsixCap config n (off &&& 0xfc) % 4 = 0 ∧ findMsixCap config n (off &&& 0xfc) + 4 ≤ 256 := by
  have hmask : ∀ b : BitVec 8, (b &&& 0xfc).toNat % 4 = 0 ∧ (b &&& 0xfc).toNat + 4 ≤ 256 := by decide
  have hzero : 0 % 4 = 0 ∧ 0 + 4 ≤ 256 := by decide
  induction n generalizing off with
  | zero => exact hzero
  | succ n ih =>
    unfold findMsixCap
    split
    · exact hzero
    split
    · exact hmask off
    · exact ih _

/-- With the capability where `vfio_setup()` has found it, the reads and the writes for which the width makes no
difference. -/
theorem widthLaw_iff (device : VfioDevice) (msixSlowpath : Bool) (nextFd : Nat) (x : PciDev R)
    (hcap : x.vf.msixCap = (vfioSetup device msixSlowpath nextFd).msixCap) (barType : Nat → BitVec 32)
    (a : WideAccess) : (x.ReadLaw barType a ↔ x.ReadOk barType a) ∧
      ∀ val, x.WriteLaw barType a val ↔ x.WriteOk barType a val := by
  have hok : x.CapOk := by
    unfold PciDev.CapOk
    rw [hcap]
    exact findMsixCap_aligned device.config 16 _
  exact ⟨PciDev.readLaw_iff hok a, fun val => PciDev.writeLaw_iff hok a val⟩

/-- A configuration space that is memory. -/
def memRegion : ConfigRegion := ⟨ByteMem, fun r i => r i, fun r i b => Function.update r i b⟩

/-- The device has an MSI-X capability at 0x40. -/
def msixDevice : VfioDevice where
  region := fun _ => some 0
  barSize := fun _ => 0
  config := fun a => if a = 0x34 then 0x40 else if a = 0x40 then 0x11 else 0

/-- The guest has set Enable and Function Mask. -/
def enabled : PciDev memRegion :=
  PciDev.write ⟨vfioSetup msixDevice false 0, msixDevice.config⟩ ⟨fun _ => true, true⟩ 0x42 2 0xc000

/-- Enable is not set in the dword, which comes from the device. -/
theorem not_widthLaw : ¬∀ (R : ConfigRegion) (device : VfioDevice) (msixSlowpath : Bool) (nextFd : Nat) (x : PciDev R),
    x.vf.msixCap = (vfioSetup device msixSlowpath nextFd).msixCap → ∀ (barType : Nat → BitVec 32) (a : WideAccess),
      x.ReadLaw barType a ∧ ∀ val, x.WriteLaw barType a val := by
  intro h
  have hread : enabled.read msixDevice.barType 0x40 4 = _ :=
    (h memRegion msixDevice false 0 enabled (by decide +kernel) msixDevice.barType
      ⟨0x40, 4, .inr rfl, rfl, by decide⟩).1
  exact absurd hread (by decide +kernel)

/-- The dword after the capability pointer. -/
theorem widthLaw_iff_enabled : enabled.ReadLaw msixDevice.barType ⟨0x38, 4, .inr rfl, rfl, by decide⟩ ∧
    enabled.WriteLaw msixDevice.barType ⟨0x38, 4, .inr rfl, rfl, by decide⟩ 0x12345678 := by
  have hlaw := widthLaw_iff msixDevice false 0 enabled (by decide +kernel) msixDevice.barType
    ⟨0x38, 4, .inr rfl, rfl, by decide⟩
  have hout : ¬enabled.CoversMsgctl ⟨0x38, 4, .inr rfl, rfl, by decide⟩ := by
    rintro ⟨-, hreg, -⟩
    exact absurd hreg (by decide +kernel)
  have htarget : enabled.vf.configTarget 0x38 4 = .device := by decide +kernel
  have hlen : enabled.deviceLen ⟨0x38, 4, .inr rfl, rfl, by decide⟩ = 4 := by decide +kernel
  refine ⟨hlaw.1.2 fun hcovers => absurd hcovers hout, (hlaw.2 _).2 ⟨fun b hb => ?_, fun b hb => ?_,
    fun hcovers => absurd hcovers hout, fun i _ _ => ?_⟩⟩
  · rw [htarget] at hb
    cases hb
  · rw [htarget] at hb
    cases hb
  · rw [if_pos htarget, hlen]
    rfl

end MiniVirt.Vmm
