import MiniVirt.Lib.BitHalves
import MiniVirt.Lib.Runs
import MiniVirt.Vmm.PciConfig

/-!
# BARs

A BAR of the passthrough device should read back the address that was written to it, in multiples of its
size, and should be decoded there.  `pt_config_read()` applies the size to the low half only, and
`handle_pt_mmio()` not at all, so a BAR does so for the addresses that are multiples of its size, if no
BAR before it is decoded in its window (`barLaw_iff`).
-/

namespace MiniVirt.Vmm

/-! ### The law -/

/-- The last value written to BAR `b` after the access, `w` being the one before; a BAR of 64 bits is written
in two dwords. -/
def VfAct.barWrite (b : Nat) (wide : Bool) (w : BitVec 64) : VfAct → BitVec 64
  | .config reg len val _ =>
    if len = 4 ∧ reg = 0x10 + b * 4 then w.extractLsb' 32 32 ++ val
    else if len = 4 ∧ wide ∧ reg = 0x10 + b * 4 + 4 then val ++ w.extractLsb' 0 32
    else w
  | .mmio _ => w

def lastWritten (b : Nat) (wide : Bool) (acts : List VfAct) : BitVec 64 := acts.foldl (VfAct.barWrite b wide) 0

namespace Vf

/-- BAR `b` over its whole width. -/
def readBack (vf : Vf) (barType : Nat → BitVec 32) (pread : Nat → Nat → Option (BitVec 32)) (b : Nat) : BitVec 64 :=
  if vf.barIs64 b then
    vf.ptConfigRead barType pread (0x10 + b * 4 + 4) 4 ++ vf.ptConfigRead barType pread (0x10 + b * 4) 4
  else (vf.ptConfigRead barType pread (0x10 + b * 4) 4).setWidth 64

/-- The address in a BAR register. -/
def readBackAddr (vf : Vf) (barType : Nat → BitVec 32) (pread : Nat → Nat → Option (BitVec 32)) (b : Nat) : BitVec 64 :=
  vf.readBack barType pread b &&& (~~~0xf : BitVec 64)

/-- BAR `b`, into which `w` was written last. -/
structure BarLaw (vf : Vf) (barType : Nat → BitVec 32) (pread : Nat → Nat → Option (BitVec 32)) (b : Nat)
    (w : BitVec 64) : Prop where
  readBack : vf.readBack barType pread b = (w &&& ~~~(vf.barSize b - 1)) ||| (barType b).setWidth 64
  decode : ∀ pa off, vf.decode pa = some (b, off) ↔
    vf.readBackAddr barType pread b ≠ 0 ∧ (vf.readBackAddr barType pread b).toNat ≤ pa.toNat ∧
      pa.toNat < (vf.readBackAddr barType pread b).toNat + (vf.barSize b).toNat ∧
        off = pa - vf.readBackAddr barType pread b

/-- `b` is a BAR of its own, not the upper half of another one, and its size is a power of two. -/
structure IsBar (vf : Vf) (b : Nat) : Prop where
  lt : b < pciNumBars
  own : ∀ i, i + 1 = b → vf.barIs64 i = false
  wide : vf.barIs64 b = true → b + 1 < pciNumBars
  size : ∃ k, 4 ≤ k ∧ (vf.barSize b).toNat = 2 ^ k

/-- The windows of BARs `i` and `j` do not meet, at the addresses that they read back. -/
def Apart (vf : Vf) (barType : Nat → BitVec 32) (pread : Nat → Nat → Option (BitVec 32)) (i j : Nat) : Prop :=
  (vf.readBackAddr barType pread i).toNat + (vf.barSize i).toNat ≤ (vf.readBackAddr barType pread j).toNat ∨
    (vf.readBackAddr barType pread j).toNat + (vf.barSize j).toNat ≤ (vf.readBackAddr barType pread i).toNat

/-- The BARs that read back an address are placed disjointly. -/
def Placed (vf : Vf) (barType : Nat → BitVec 32) (pread : Nat → Nat → Option (BitVec 32)) : Prop :=
  ∀ i, i < pciNumBars → ∀ j, j < pciNumBars → vf.barSize i ≠ 0 ∧ vf.barSize j ≠ 0 ∧
    vf.readBackAddr barType pread i ≠ 0 ∧ vf.readBackAddr barType pread j ≠ 0 ∧ i ≠ j → vf.Apart barType pread i j

instance (vf : Vf) (barType : Nat → BitVec 32) (pread : Nat → Nat → Option (BitVec 32)) (i j : Nat) :
    Decidable (vf.Apart barType pread i j) := inferInstanceAs (Decidable (_ ∨ _))

instance (vf : Vf) (barType : Nat → BitVec 32) (pread : Nat → Nat → Option (BitVec 32)) :
    Decidable (vf.Placed barType pread) :=
  inferInstanceAs (Decidable (∀ i, i < pciNumBars → ∀ j, j < pciNumBars → _ → vf.Apart barType pread i j))

/-- The program decodes an access to `pa` at BAR `b`, unless a BAR before it gets it. -/
def Hits (vf : Vf) (b : Nat) (pa : BitVec 64) : Prop :=
  vf.barBase b ≠ 0 ∧ vf.barSize b ≠ 0 ∧ vf.barBase b ≤ pa ∧ pa < vf.barBase b + vf.barSize b

/-- No BAR before `b` gets an access to `b`. -/
def Alone (vf : Vf) (b : Nat) : Prop := ∀ pa, vf.Hits b pa → ∀ i, i < b → ¬vf.Hits i pa

/-- The BARs before `b` get every access to `b`. -/
def Hidden (vf : Vf) (b : Nat) : Prop := ∀ pa, vf.Hits b pa → ∃ i, i < b ∧ vf.Hits i pa

/-! ### What the configuration space is made of -/

/-- The part of `vf` that `pt_config_read()` looks at. -/
structure Shadow where
  barSize : Nat → BitVec 64
  barIs64 : Nat → Bool
  barVal : Nat → BitVec 64
  msixCap : Nat
  msixMsgctl : BitVec 16

def shadow (vf : Vf) : Shadow := ⟨vf.barSize, vf.barIs64, vf.barVal, vf.msixCap, vf.msixMsgctl⟩

variable {vf vf' : Vf}

theorem shadow_pwriteRegion (vf : Vf) (i : Nat) (off : BitVec 64) (bytes : List (BitVec 8)) :
    (vf.pwriteRegion i off bytes).shadow = vf.shadow := by
  unfold pwriteRegion
  split <;> rfl

theorem shadow_forwardCtrl (vf : Vf) (v : Nat) : (vf.forwardCtrl v).shadow = vf.shadow := by
  unfold forwardCtrl
  split
  · exact shadow_pwriteRegion ..
  · rfl

theorem shadow_foldl {f : Vf → Nat → Vf} (hf : ∀ vf v, (f vf v).shadow = vf.shadow) (l : List Nat) (vf : Vf) :
    (l.foldl f vf).shadow = vf.shadow := by
  induction l generalizing vf with
  | nil => rfl
  | cons v l ih => exact (ih (f vf v)).trans (hf vf v)

theorem shadow_setupVector (io : Ioctls) (vf : Vf) (v : Nat) : (setupVector io vf v).shadow = vf.shadow := by
  unfold setupVector
  split <;> rfl

theorem shadow_syncCtrl (vf : Vf) (v : Nat) : (vf.syncCtrl v).shadow = vf.shadow := by
  unfold syncCtrl
  split
  · rfl
  · exact shadow_forwardCtrl vf v

theorem shadow_msixSetupIrqs (io : Ioctls) (vf : Vf) : (vf.msixSetupIrqs io).shadow = vf.shadow := by
  have hsetup : ∀ l : List Nat, (l.foldl (setupVector io) vf.msixUpdateRoutes).shadow = vf.shadow :=
    fun l => shadow_foldl (shadow_setupVector io) l vf.msixUpdateRoutes
  unfold msixSetupIrqs
  dsimp only
  split
  · exact (shadow_foldl shadow_syncCtrl _ _).trans (hsetup _)
  · exact hsetup _

theorem shadow_forwardMmio (vf : Vf) (b : Nat) (off : BitVec 64) (m : Mmio) :
    (vf.forwardMmio b off m).2.shadow = vf.shadow := by
  unfold forwardMmio
  split
  · exact shadow_pwriteRegion ..
  · rfl

theorem shadow_tableWrite (vf : Vf) (pos : Nat) (m : Mmio) : (vf.tableWrite pos m).shadow = vf.shadow := by
  have hctrl : ∀ (w : Vf) (c : Prop) [Decidable c] (v : Nat),
      (if c then w.forwardCtrl v else w).shadow = w.shadow := by
    intro w c _ v
    split
    · exact shadow_forwardCtrl w v
    · rfl
  have hroutes : ∀ (w : Vf) (c : Prop) [Decidable c], (if c then w.msixUpdateRoutes else w).shadow = w.shadow := by
    intro w c _
    split <;> rfl
  unfold tableWrite
  exact (hroutes _ _).trans (hctrl _ _ _)

theorem shadow_handlePtMmio (vf : Vf) (m : Mmio) : (vf.handlePtMmio m).2.shadow = vf.shadow := by
  rw [handlePtMmio_decode]
  split
  · unfold handleBar
    split
    · refine (shadow_forwardMmio ..).trans ?_
      unfold shadowVectors countNotify
      split <;> split <;> rfl
    split
    · dsimp only
      split
      · exact shadow_tableWrite ..
      · rfl
    · exact shadow_forwardMmio ..
  · rfl

/-! ### Which register a write hits -/

theorem findSome?_range_eq_some {α : Type} {n b : Nat} {f : Nat → Option α} {x : α} (hb : b < n) (hx : f b = some x)
    (hlt : ∀ i, i < b → f i = none) : (List.range n).findSome? f = some x := by
  induction n with
  | zero => exact absurd hb (Nat.not_lt_zero b)
  | succ n ih =>
    rw [List.range_succ, List.findSome?_append]
    rcases Nat.lt_succ_iff_lt_or_eq.1 hb with hlt' | rfl
    · rw [ih hlt']
      rfl
    · have hnone : (List.range b).findSome? f = none :=
        List.findSome?_eq_none_iff.2 fun i hi => hlt i (List.mem_range.1 hi)
      rw [hnone]
      simp [hx]

variable {b : Nat}

theorem size_ne_zero (h : vf.IsBar b) : vf.barSize b ≠ 0 := by
  obtain ⟨k, -, hk⟩ := h.size
  intro hzero
  rw [hzero] at hk
  exact absurd hk.symm (Nat.two_pow_pos k).ne'

theorem barTarget_lo (h : vf.IsBar b) : vf.barTarget (0x10 + b * 4) = some (.barLo b) := by
  refine findSome?_range_eq_some h.lt (if_pos rfl) fun i hi => ?_
  rw [if_neg (by omega), if_neg]
  rintro ⟨hwide, hreg⟩
  have hfalse := h.own i (by omega)
  rw [hwide] at hfalse
  cases hfalse

theorem barTarget_hi (h : vf.IsBar b) (hwide : vf.barIs64 b = true) :
    vf.barTarget (0x10 + b * 4 + 4) = some (.barHi b) := by
  refine findSome?_range_eq_some h.lt ?_ fun i hi => ?_
  · rw [if_neg (by omega), if_pos ⟨hwide, rfl⟩]
  · rw [if_neg (by omega), if_neg (by omega)]

/-- Where a write goes that no BAR takes. -/
def restTarget (vf : Vf) (reg : Nat) : ConfigTarget :=
  if vf.msixCap ≠ 0 ∧ vf.msixCap + 2 ≤ reg ∧ reg < vf.msixCap + 4 then .msgctl else .device

theorem restTarget_ne (vf : Vf) (reg i : Nat) : vf.restTarget reg ≠ .barLo i ∧ vf.restTarget reg ≠ .barHi i := by
  unfold restTarget
  split <;> exact ⟨by simp, by simp⟩

/-- A write goes to no BAR, or it is the write of a dword to the register of one. -/
theorem configTarget_cases (vf : Vf) (reg len : Nat) : vf.configTarget reg len = vf.restTarget reg ∨
    ∃ b, (vf.configTarget reg len = .barLo b ∨ vf.configTarget reg len = .barHi b) ∧ 0x10 ≤ reg ∧ reg < 0x28 ∧
      len = 4 ∧ vf.barTarget reg = some (vf.configTarget reg len) ∧ vf.barSize b ≠ 0 := by
  unfold configTarget
  dsimp only
  by_cases hrange : 0x10 ≤ reg ∧ reg < 0x28 ∧ len = 4
  · rw [if_pos hrange]
    cases vf.barTarget reg with
    | none => exact .inl rfl
    | some t =>
      cases t with
      | barLo i =>
        dsimp only
        by_cases hsize : vf.barSize i = 0
        · rw [if_pos hsize]
          exact .inl rfl
        · rw [if_neg hsize]
          exact .inr ⟨i, .inl rfl, hrange.1, hrange.2.1, hrange.2.2, rfl, hsize⟩
      | barHi i =>
        dsimp only
        by_cases hsize : vf.barSize i = 0
        · rw [if_pos hsize]
          exact .inl rfl
        · rw [if_neg hsize]
          exact .inr ⟨i, .inr rfl, hrange.1, hrange.2.1, hrange.2.2, rfl, hsize⟩
      | msgctl => exact .inl rfl
      | device => exact .inl rfl
  · rw [if_neg hrange]
    exact .inl rfl

theorem configTarget_bar {reg len : Nat} {t : ConfigTarget} (h : vf.configTarget reg len = t)
    (hbar : t = .barLo b ∨ t = .barHi b) :
    0x10 ≤ reg ∧ reg < 0x28 ∧ len = 4 ∧ vf.barTarget reg = some t ∧ vf.barSize b ≠ 0 := by
  subst h
  rcases vf.configTarget_cases reg len with hrest | ⟨i, hi, hle, hlt, hlen, htarget, hsize⟩
  · rw [hrest] at hbar
    exact absurd hbar (not_or.2 (vf.restTarget_ne reg b))
  · have hib : i = b := by
      rcases hi with hi | hi <;> rw [hi] at hbar <;> simpa using hbar
    exact ⟨hle, hlt, hlen, htarget, hib ▸ hsize⟩

theorem barTarget_eq_some {reg : Nat} {t : ConfigTarget} (h : vf.barTarget reg = some t) :
    (t = .barLo b → reg = 0x10 + b * 4) ∧ (t = .barHi b → vf.barIs64 b = true ∧ reg = 0x10 + b * 4 + 4) := by
  obtain ⟨i, -, hi⟩ := List.exists_of_findSome?_eq_some h
  by_cases hlo : reg = 0x10 + i * 4
  · rw [if_pos hlo] at hi
    cases hi
    refine ⟨fun heq => ?_, fun heq => by cases heq⟩
    cases heq
    exact hlo
  · rw [if_neg hlo] at hi
    split at hi
    · rename_i hhi
      cases hi
      refine ⟨fun heq => (by cases heq), fun heq => ?_⟩
      cases heq
      exact hhi
    · cases hi

/-- The registers of a BAR are its own. -/
theorem configTarget_lo (h : vf.IsBar b) : vf.configTarget (0x10 + b * 4) 4 = .barLo b := by
  have hlt := h.lt
  unfold pciNumBars at hlt
  unfold configTarget
  dsimp only
  rw [if_pos (by omega), barTarget_lo h]
  dsimp only
  rw [if_neg (size_ne_zero h)]

theorem configTarget_hi (h : vf.IsBar b) (hwide : vf.barIs64 b = true) :
    vf.configTarget (0x10 + b * 4 + 4) 4 = .barHi b := by
  have hlt := h.wide hwide
  unfold pciNumBars at hlt
  unfold configTarget
  dsimp only
  rw [if_pos (by omega), barTarget_hi h hwide]
  dsimp only
  rw [if_neg (size_ne_zero h)]

theorem barVal_device (vf : Vf) (i : Nat) (off : BitVec 64) (bytes : List (BitVec 8)) :
    (vf.pwriteRegion i off bytes).barVal = vf.barVal := congrArg Shadow.barVal (shadow_pwriteRegion ..)

/-- What a write does to BAR `b`. -/
theorem ptConfigWrite_barVal (h : vf.IsBar b) (io : Ioctls) (reg len : Nat) (val : BitVec 32) :
    (vf.ptConfigWrite io reg len val).barVal b =
      if len = 4 ∧ reg = 0x10 + b * 4 then
        (vf.barVal b &&& 0xffffffff00000000) ||| (val &&& 0xfffffff0).setWidth 64
      else if len = 4 ∧ vf.barIs64 b ∧ reg = 0x10 + b * 4 + 4 then
        (val.setWidth 64 <<< 32) ||| (vf.barVal b &&& 0xffffffff)
      else vf.barVal b := by
  -- a dword at the place of BAR `b` has no other target
  have hmiss (hlo : vf.configTarget reg len ≠ .barLo b) (hhi : vf.configTarget reg len ≠ .barHi b) :
      ¬(len = 4 ∧ reg = 0x10 + b * 4) ∧ ¬(len = 4 ∧ vf.barIs64 b ∧ reg = 0x10 + b * 4 + 4) := by
    refine ⟨?_, ?_⟩
    · rintro ⟨rfl, rfl⟩
      exact hlo (configTarget_lo h)
    · rintro ⟨rfl, hwide, rfl⟩
      exact hhi (configTarget_hi h hwide)
  unfold ptConfigWrite
  cases htarget : vf.configTarget reg len with
  | barLo i =>
    obtain ⟨-, -, rfl, hbar, -⟩ := configTarget_bar htarget (.inl rfl)
    have hreg := (barTarget_eq_some hbar).1 rfl
    show Function.update vf.barVal i _ b = _
    by_cases hi : b = i
    · subst hi
      rw [if_pos ⟨rfl, hreg⟩, Function.update_self]
    · rw [htarget] at hmiss
      obtain ⟨hlo, hhi⟩ := hmiss (by simpa using fun heq => hi heq.symm) (by simp)
      rw [if_neg hlo, if_neg hhi, Function.update_of_ne hi]
  | barHi i =>
    obtain ⟨-, -, rfl, hbar, -⟩ := configTarget_bar htarget (.inr rfl)
    obtain ⟨hwide, hreg⟩ := (barTarget_eq_some hbar).2 rfl
    show Function.update vf.barVal i _ b = _
    by_cases hi : b = i
    · subst hi
      rw [if_neg (by omega), if_pos ⟨rfl, hwide, hreg⟩, Function.update_self]
    · rw [htarget] at hmiss
      obtain ⟨hlo, hhi⟩ := hmiss (by simp) (by simpa using fun heq => hi heq.symm)
      rw [if_neg hlo, if_neg hhi, Function.update_of_ne hi]
  | msgctl =>
    rw [htarget] at hmiss
    obtain ⟨hlo, hhi⟩ := hmiss (by simp) (by simp)
    rw [if_neg hlo, if_neg hhi]
    dsimp only
    split
    · exact congrFun (congrArg Shadow.barVal (shadow_msixSetupIrqs io _)) b
    · rfl
  | device =>
    rw [htarget] at hmiss
    obtain ⟨hlo, hhi⟩ := hmiss (by simp) (by simp)
    rw [if_neg hlo, if_neg hhi]
    exact congrFun (barVal_device ..) b

/-- What no write changes. -/
theorem ptConfigWrite_static (vf : Vf) (io : Ioctls) (reg len : Nat) (val : BitVec 32) :
    (vf.ptConfigWrite io reg len val).barSize = vf.barSize ∧ (vf.ptConfigWrite io reg len val).barIs64 = vf.barIs64 ∧
      (vf.ptConfigWrite io reg len val).msixCap = vf.msixCap := by
  have hsame : ∀ {vf' vf'' : Vf}, vf''.shadow = vf'.shadow →
      vf''.barSize = vf'.barSize ∧ vf''.barIs64 = vf'.barIs64 ∧ vf''.msixCap = vf'.msixCap :=
    fun h => ⟨congrArg Shadow.barSize h, congrArg Shadow.barIs64 h, congrArg Shadow.msixCap h⟩
  unfold ptConfigWrite
  split
  · exact ⟨rfl, rfl, rfl⟩
  · exact ⟨rfl, rfl, rfl⟩
  · dsimp only
    split
    · have hshadow := shadow_msixSetupIrqs io
        { vf with msixMsgctl := writeMsgctl vf.msixMsgctl (reg - (vf.msixCap + 2)) len val }
      exact ⟨congrArg Shadow.barSize hshadow, congrArg Shadow.barIs64 hshadow, congrArg Shadow.msixCap hshadow⟩
    · exact ⟨rfl, rfl, rfl⟩
  · exact hsame (shadow_pwriteRegion ..)

/-! ### The value of a BAR -/

theorem and_not_append (h l : BitVec 32) :
    (h ++ l) &&& (~~~0xf : BitVec 64) = h ++ (l &&& 0xfffffff0 : BitVec 32) := by
  have hmask : (~~~0xf : BitVec 64) = BitVec.allOnes 32 ++ (0xfffffff0 : BitVec 32) := by decide
  rw [hmask, BitVec.and_append, BitVec.and_allOnes]

end Vf

namespace VfAct

open Vf

variable {vf : Vf} {b : Nat}

theorem step_static (vf : Vf) (a : VfAct) : (a.step vf).barSize = vf.barSize ∧ (a.step vf).barIs64 = vf.barIs64 ∧
    (a.step vf).msixCap = vf.msixCap := by
  cases a with
  | mmio m =>
    have hshadow := shadow_handlePtMmio vf m
    exact ⟨congrArg Shadow.barSize hshadow, congrArg Shadow.barIs64 hshadow, congrArg Shadow.msixCap hshadow⟩
  | config reg len val io => exact ptConfigWrite_static vf io reg len val

/-- The shadow of a BAR is the last value written, without its low four bits. -/
theorem step_barVal (h : vf.IsBar b) {w : BitVec 64} (hw : vf.barVal b = w &&& (~~~0xf : BitVec 64)) (a : VfAct) :
    (a.step vf).barVal b = a.barWrite b (vf.barIs64 b) w &&& (~~~0xf : BitVec 64) := by
  cases a with
  | mmio m => exact (congrFun (congrArg Shadow.barVal (shadow_handlePtMmio vf m)) b).trans hw
  | config reg len val io =>
    refine (ptConfigWrite_barVal h io reg len val).trans ?_
    unfold VfAct.barWrite
    dsimp only
    rw [hw, ← eq_append_halves w, and_not_append, (halves_append _ _).1, (halves_append _ _).2]
    split
    · rw [and_high_or, and_not_append]
    split
    · rw [BitVec.or_comm, and_low_or, and_not_append]
    · rw [and_not_append]

end VfAct

namespace Vf

variable {vf : Vf} {b : Nat}

theorem IsBar.congr {vf' : Vf} (h : vf.IsBar b) (hsize : vf'.barSize = vf.barSize) (hwide : vf'.barIs64 = vf.barIs64) :
    vf'.IsBar b :=
  ⟨h.lt, by rw [hwide]; exact h.own, by rw [hwide]; exact h.wide, by rw [hsize]; exact h.size⟩

/-- The shadow after a run. -/
theorem run_barVal (h : vf.IsBar b) {w : BitVec 64} (hw : vf.barVal b = w &&& (~~~0xf : BitVec 64))
    (acts : List VfAct) : (runSteps VfAct.step vf acts).barVal b =
      acts.foldl (VfAct.barWrite b (vf.barIs64 b)) w &&& (~~~0xf : BitVec 64) := by
  induction acts generalizing vf w with
  | nil => exact hw
  | cons a acts ih =>
    obtain ⟨hsize, hwide, -⟩ := a.step_static vf
    have hrest := ih (h.congr hsize hwide) (VfAct.step_barVal h hw a)
    rw [hwide] at hrest
    exact hrest

/-! ### Reading a BAR back -/

theorem barReadTarget_lo (h : vf.IsBar b) : vf.barReadTarget (0x10 + b * 4) = some (.barLo b) := by
  refine findSome?_range_eq_some h.lt (if_pos (by omega)) fun i hi => ?_
  rw [if_neg (by omega), if_neg]
  rintro ⟨hwide, hreg⟩
  have hfalse := h.own i (by omega)
  rw [hwide] at hfalse
  cases hfalse

theorem barReadTarget_hi (h : vf.IsBar b) (hwide : vf.barIs64 b = true) :
    vf.barReadTarget (0x10 + b * 4 + 4) = some (.barHi b) := by
  refine findSome?_range_eq_some h.lt ?_ fun i hi => ?_
  · rw [if_neg (by omega), if_pos ⟨hwide, by omega⟩]
  · rw [if_neg (by omega), if_neg (by omega)]

theorem ptConfigRead_lo (h : vf.IsBar b) (barType : Nat → BitVec 32) (pread : Nat → Nat → Option (BitVec 32)) :
    vf.ptConfigRead barType pread (0x10 + b * 4) 4 =
      ((vf.barVal b).setWidth 32 &&& ~~~((vf.barSize b - 1).setWidth 32)) ||| barType b := by
  have hlt := h.lt
  unfold pciNumBars at hlt
  unfold ptConfigRead barDword
  rw [if_neg (by omega), if_pos (by omega), barReadTarget_lo h]
  dsimp only
  rw [if_neg (size_ne_zero h)]
  rfl

theorem ptConfigRead_hi (h : vf.IsBar b) (hwide : vf.barIs64 b = true) (barType : Nat → BitVec 32)
    (pread : Nat → Nat → Option (BitVec 32)) :
    vf.ptConfigRead barType pread (0x10 + b * 4 + 4) 4 = (vf.barVal b >>> 32).setWidth 32 := by
  have hlt := h.wide hwide
  unfold pciNumBars at hlt
  unfold ptConfigRead barDword
  rw [if_neg (by omega), if_pos (by omega), barReadTarget_hi h hwide]
  dsimp only
  rw [if_neg (size_ne_zero h)]
  rfl

variable {barType : Nat → BitVec 32} {pread : Nat → Nat → Option (BitVec 32)} {wh wl mh ml : BitVec 32}

/-- The size masks the low half only. -/
theorem readBack_append (h : vf.IsBar b) (hw : vf.barVal b = wh ++ wl) (hm : vf.barSize b - 1 = mh ++ ml)
    (hnarrow : vf.barIs64 b = false → wh = 0) :
    vf.readBack barType pread b = wh ++ ((wl &&& ~~~ml) ||| barType b) := by
  unfold readBack
  rw [ptConfigRead_lo h, hw, hm, low_half, low_half, (halves_append _ _).2, (halves_append _ _).2]
  cases hwide : vf.barIs64 b with
  | false =>
    rw [if_neg (by simp), hnarrow hwide]
    exact setWidth_eq_append _
  | true =>
    rw [if_pos rfl, ptConfigRead_hi h hwide, hw, high_half, (halves_append _ _).1]

/-! ### Where a BAR is decoded -/

theorem barHit_eq_some_iff {pa : BitVec 64} :
    vf.barHit pa = some b ↔ vf.Hits b pa ∧ b < pciNumBars ∧ ∀ i, i < b → ¬vf.Hits i pa := by
  unfold barHit Hits
  rw [List.find?_range_eq_some, List.mem_range]
  simp only [Bool.not_eq_true', decide_eq_true_eq, decide_eq_false_iff_not]

/-- Where the program looks for a BAR, in numbers. -/
theorem hits_iff {pa : BitVec 64} : vf.Hits b pa ↔ vf.barBase b ≠ 0 ∧
    (vf.barBase b).toNat ≤ pa.toNat ∧ pa.toNat < (vf.barBase b).toNat + (vf.barSize b).toNat ∧
      (vf.barBase b).toNat + (vf.barSize b).toNat < 2 ^ 64 := by
  have hbase := (vf.barBase b).isLt
  have hsize := (vf.barSize b).isLt
  unfold Hits
  rw [BitVec.le_def, BitVec.lt_def, BitVec.toNat_add]
  have hzero : vf.barSize b ≠ 0 ↔ (vf.barSize b).toNat ≠ 0 := by
    rw [ne_eq, ← BitVec.toNat_inj]
    rfl
  rw [hzero]
  constructor
  · rintro ⟨hne, -, hle, hlt⟩
    refine ⟨hne, hle, ?_⟩
    omega
  · rintro ⟨hne, hle, hlt, hwrap⟩
    refine ⟨hne, ?_, hle, ?_⟩
    · omega
    · rwa [Nat.mod_eq_of_lt hwrap]

/-- The first BAR that is hit gets the access. -/
theorem decode_eq_some_iff (hb : b < pciNumBars) {pa off : BitVec 64} :
    vf.decode pa = some (b, off) ↔ (vf.Hits b pa ∧ ∀ i, i < b → ¬vf.Hits i pa) ∧ off = pa - vf.barBase b := by
  unfold decode
  rw [Option.map_eq_some_iff]
  constructor
  · rintro ⟨b', hhit, heq⟩
    obtain ⟨rfl, rfl⟩ := Prod.mk.inj heq
    obtain ⟨hhits, -, hfirst⟩ := barHit_eq_some_iff.1 hhit
    exact ⟨⟨hhits, hfirst⟩, rfl⟩
  · rintro ⟨⟨hhits, hfirst⟩, rfl⟩
    exact ⟨b, barHit_eq_some_iff.2 ⟨hhits, hb, hfirst⟩, rfl⟩

/-! ### The law of one BAR -/

/-- The address in BAR `b` is a multiple of its size, and the window ends before the address space does. -/
def Aligned (vf : Vf) (b : Nat) : Prop :=
  (vf.barSize b).toNat ∣ (vf.barBase b).toNat ∧ (vf.barBase b).toNat + (vf.barSize b).toNat < 2 ^ 64

/-- The halves of a BAR: what is in it, and what is read as its address. -/
structure Halves (vf : Vf) (barType : Nat → BitVec 32) (pread : Nat → Nat → Option (BitVec 32)) (b : Nat)
    (w : BitVec 64) (hi lo mh ml : BitVec 32) : Prop where
  base : vf.barBase b = hi ++ lo
  mask : vf.barSize b - 1 = mh ++ ml
  addr : vf.readBackAddr barType pread b = hi ++ (lo &&& ~~~ml)
  law : vf.readBack barType pread b = (w &&& ~~~(vf.barSize b - 1)) ||| (barType b).setWidth 64 ↔ hi &&& mh = 0

theorem IsBar.halves (h : vf.IsBar b) (htype : barType b &&& 0xfffffff0 = 0) {w : BitVec 64}
    (hw : vf.barVal b = w &&& (~~~0xf : BitVec 64)) (hnarrow : vf.barIs64 b = false → w.extractLsb' 32 32 = 0) :
    ∃ hi lo mh ml, vf.Halves barType pread b w hi lo mh ml := by
  obtain ⟨k, hk, hsize⟩ := h.size
  have hmask := (eq_append_halves (vf.barSize b - 1)).symm
  have hml := not_and_not_low hsize hk
  generalize (vf.barSize b - 1).extractLsb' 32 32 = mh at hmask
  generalize (vf.barSize b - 1).extractLsb' 0 32 = ml at hmask
  rw [← eq_append_halves w, and_not_append] at hw
  have hw' := (eq_append_halves w).symm
  generalize w.extractLsb' 32 32 = wh at hw hw' hnarrow
  generalize w.extractLsb' 0 32 = wl at hw hw'
  have hread : vf.readBack barType pread b = wh ++ ((wl &&& 0xfffffff0 &&& ~~~ml) ||| barType b) :=
    readBack_append h hw hmask hnarrow
  have hbase : vf.barBase b = wh ++ (wl &&& 0xfffffff0 : BitVec 32) := by
    unfold barBase
    rw [hw, and_not_append, BitVec.and_assoc, BitVec.and_self]
  -- the low four bits are masked as a part of the size
  rw [hmask, BitVec.not_append, and_not_append] at hml
  have hlow := (append_inj hml).2
  have hlo : (wl &&& 0xfffffff0) &&& ~~~ml = wl &&& ~~~ml := by
    rw [BitVec.and_assoc, BitVec.and_comm 0xfffffff0, hlow]
  refine ⟨wh, wl &&& 0xfffffff0, mh, ml, hbase, hmask, ?_, ?_⟩
  · unfold readBackAddr
    have hor : ∀ a : BitVec 32, a ||| 0 = a := fun _ => BitVec.or_zero
    rw [hread, and_not_append, BitVec.and_or_distrib_right, htype, hor, BitVec.and_assoc, hlow]
  · have hexpect : (w &&& ~~~(vf.barSize b - 1)) ||| (barType b).setWidth 64 =
        (wh &&& ~~~mh) ++ ((wl &&& ~~~ml) ||| barType b) := by
      rw [hw', hmask, BitVec.not_append, setWidth_eq_append, BitVec.and_append, BitVec.or_append, BitVec.or_zero]
    rw [hread, hexpect, hlo, ← and_not_eq_self_iff]
    exact ⟨fun heq => (append_inj heq).1.symm, fun heq => by rw [heq]⟩

/-- A BAR reads back the address 0 if its base lies below its size and below 4 GiB. -/
theorem Halves.addr_eq_zero_iff {k : Nat} {w : BitVec 64} {hi lo mh ml : BitVec 32}
    (h : vf.Halves barType pread b w hi lo mh ml) (hsize : (vf.barSize b).toNat = 2 ^ k) :
    vf.readBackAddr barType pread b = 0 ↔ (vf.barBase b).toNat < min (vf.barSize b).toNat (2 ^ 32) := by
  have hlow : vf.barBase b &&& ~~~(vf.barSize b - 1) = (hi &&& ~~~mh) ++ (lo &&& ~~~ml) := by
    rw [h.base, h.mask, BitVec.not_append, BitVec.and_append]
  rw [eq_zero_iff_halves h.addr, lt_min_iff, hsize, ← and_not_eq_zero_iff hsize, eq_zero_iff_halves hlow, h.base,
    append_lt_iff]
  constructor
  · rintro ⟨rfl, hlo⟩
    exact ⟨⟨BitVec.zero_and, hlo⟩, rfl⟩
  · rintro ⟨⟨-, hlo⟩, hhi⟩
    exact ⟨hhi, hlo⟩

/-- A BAR obeys the law if and only if it is aligned and gets the accesses to it, or it reads back the address
0 and gets none. -/
theorem barLaw_iff_aligned (h : vf.IsBar b) (htype : barType b &&& 0xfffffff0 = 0) {w : BitVec 64}
    (hw : vf.barVal b = w &&& (~~~0xf : BitVec 64)) (hnarrow : vf.barIs64 b = false → w.extractLsb' 32 32 = 0) :
    vf.BarLaw barType pread b w ↔ vf.Aligned b ∧ vf.Alone b ∨
      (vf.barBase b).toNat < min (vf.barSize b).toNat (2 ^ 32) ∧ vf.Hidden b := by
  obtain ⟨hi, lo, mh, ml, hhalves⟩ : ∃ hi lo mh ml, vf.Halves barType pread b w hi lo mh ml :=
    h.halves htype hw hnarrow
  obtain ⟨k, -, hsize⟩ := h.size
  have hpos := Nat.two_pow_pos k
  rw [← hhalves.addr_eq_zero_iff hsize]
  obtain ⟨hbase, hmask, haddr, hlaw⟩ := hhalves
  -- aligned in both halves; only the low one is masked on a read
  have halign : (vf.barSize b).toNat ∣ (vf.barBase b).toNat ↔ hi &&& mh = 0 ∧ lo &&& ml = 0 := by
    rw [dvd_iff_and_eq_zero hsize, hbase, hmask, BitVec.and_append]
    exact eq_zero_iff_halves rfl
  have hsame : vf.readBackAddr barType pread b = vf.barBase b ↔ lo &&& ml = 0 := by
    rw [haddr, hbase, ← and_not_eq_self_iff]
    exact ⟨fun heq => (append_inj heq).2, fun heq => by rw [heq]⟩
  constructor
  · rintro ⟨hread, hdecode⟩
    by_cases haddr0 : vf.readBackAddr barType pread b = 0
    · -- nothing may be decoded, so a BAR before this one gets what hits it
      refine .inr ⟨haddr0, fun pa hhits => ?_⟩
      by_contra hnone
      have hget := (decode_eq_some_iff h.lt).2
        ⟨⟨hhits, fun i hi hhit => hnone ⟨i, hi, hhit⟩⟩, (rfl : pa - vf.barBase b = _)⟩
      exact ((hdecode pa (pa - vf.barBase b)).1 hget).1 haddr0
    · -- what is decoded at the address that is read back
      have hget := (hdecode (vf.readBackAddr barType pread b) 0).2
        ⟨haddr0, le_rfl, by omega, (BitVec.sub_self _).symm⟩
      obtain ⟨⟨hhits, -⟩, hoff⟩ := (decode_eq_some_iff h.lt).1 hget
      have heq : vf.readBackAddr barType pread b = vf.barBase b := by
        calc vf.readBackAddr barType pread b = vf.readBackAddr barType pread b - vf.barBase b + vf.barBase b :=
              (BitVec.sub_add_cancel ..).symm
          _ = 0 + vf.barBase b := by rw [← hoff]
          _ = vf.barBase b := BitVec.zero_add _
      refine .inl ⟨⟨halign.2 ⟨hlaw.1 hread, hsame.1 heq⟩, (hits_iff.1 hhits).2.2.2⟩, fun pa hpa => ?_⟩
      obtain ⟨-, hle, hlt, -⟩ := hits_iff.1 hpa
      rw [← heq] at hle hlt
      exact ((decode_eq_some_iff h.lt).1 ((hdecode pa _).2 ⟨haddr0, hle, hlt, rfl⟩)).1.2
  · rintro (⟨⟨hdvd, hwrap⟩, halone⟩ | ⟨haddr0, hhidden⟩)
    · obtain ⟨hhi, hlo⟩ := halign.1 hdvd
      refine ⟨hlaw.2 hhi, fun pa off => ?_⟩
      -- the window that is decoded is the one that is read back
      rw [decode_eq_some_iff h.lt, hsame.2 hlo]
      constructor
      · rintro ⟨⟨hhits, -⟩, hoff⟩
        obtain ⟨hne, hle, hlt, -⟩ := hits_iff.1 hhits
        exact ⟨hne, hle, hlt, hoff⟩
      · rintro ⟨hne, hle, hlt, hoff⟩
        have hhits := hits_iff.2 ⟨hne, hle, hlt, hwrap⟩
        exact ⟨⟨hhits, halone pa hhits⟩, hoff⟩
    · refine ⟨hlaw.2 ?_, fun pa off => ?_⟩
      · rw [((eq_zero_iff_halves haddr).1 haddr0).1]
        exact BitVec.zero_and
      rw [decode_eq_some_iff h.lt]
      constructor
      · rintro ⟨⟨hhits, hfirst⟩, -⟩
        obtain ⟨i, hi, hhit⟩ := hhidden pa hhits
        exact absurd hhit (hfirst i hi)
      · rintro ⟨hne, -⟩
        exact absurd haddr0 hne

end Vf

open Vf

theorem barType_and (device : VfioDevice) (b : Nat) : device.barType b &&& 0xfffffff0 = 0 := by
  unfold VfioDevice.barType
  split
  · exact BitVec.zero_and
  · rw [BitVec.and_assoc]
    exact BitVec.and_zero

/-- A BAR of 32 bits has no high half. -/
theorem lastWritten_narrow (b : Nat) (acts : List VfAct) : (lastWritten b false acts).extractLsb' 32 32 = 0 := by
  have hstep : ∀ (w : BitVec 64) (a : VfAct), w.extractLsb' 32 32 = 0 →
      (VfAct.barWrite b false w a).extractLsb' 32 32 = 0 := by
    intro w a hw
    cases a with
    | mmio m => exact hw
    | config reg len val io =>
      unfold VfAct.barWrite
      dsimp only
      split
      · rw [(halves_append _ _).1, hw]
      split
      · rename_i hwide
        exact absurd hwide.2.1 (by simp)
      · exact hw
  have hrun : ∀ w : BitVec 64, w.extractLsb' 32 32 = 0 →
      (acts.foldl (VfAct.barWrite b false) w).extractLsb' 32 32 = 0 := by
    induction acts with
    | nil => exact fun w hw => hw
    | cons a acts ih => exact fun w hw => ih _ (hstep w a hw)
  exact hrun 0 (by decide)

theorem run_static (vf : Vf) (acts : List VfAct) :
    (runSteps VfAct.step vf acts).barSize = vf.barSize ∧ (runSteps VfAct.step vf acts).barIs64 = vf.barIs64 ∧
      (runSteps VfAct.step vf acts).msixCap = vf.msixCap := by
  induction acts generalizing vf with
  | nil => exact ⟨rfl, rfl, rfl⟩
  | cons a acts ih =>
    obtain ⟨hsize, hwide, hcap⟩ := ih (a.step vf)
    obtain ⟨hsize', hwide', hcap'⟩ := a.step_static vf
    exact ⟨hsize.trans hsize', hwide.trans hwide', hcap.trans hcap'⟩

/-- The address that was written last. -/
def lastAddr (b : Nat) (wide : Bool) (acts : List VfAct) : BitVec 64 := lastWritten b wide acts &&& (~~~0xf : BitVec 64)

/-- After any run a BAR obeys the law if and only if the address written last is a multiple of its size, its
window ends before the address space does, and no BAR before it is decoded there; or it reads back the address
0, and the BARs before it get whatever is decoded there. -/
theorem barLaw_iff (device : VfioDevice) (msixSlowpath : Bool) (nextFd : Nat) (acts : List VfAct)
    (pread : Nat → Nat → Option (BitVec 32)) (b : Nat) (hbar : (vfioSetup device msixSlowpath nextFd).IsBar b) :
    (runSteps VfAct.step (vfioSetup device msixSlowpath nextFd) acts).BarLaw device.barType pread b
        (lastWritten b ((vfioSetup device msixSlowpath nextFd).barIs64 b) acts) ↔
      ((device.barSize b).toNat ∣ (lastAddr b ((vfioSetup device msixSlowpath nextFd).barIs64 b) acts).toNat ∧
        (lastAddr b ((vfioSetup device msixSlowpath nextFd).barIs64 b) acts).toNat + (device.barSize b).toNat <
          2 ^ 64) ∧ (runSteps VfAct.step (vfioSetup device msixSlowpath nextFd) acts).Alone b ∨
      (lastAddr b ((vfioSetup device msixSlowpath nextFd).barIs64 b) acts).toNat <
        min (device.barSize b).toNat (2 ^ 32) ∧
          (runSteps VfAct.step (vfioSetup device msixSlowpath nextFd) acts).Hidden b := by
  have hinitial : (vfioSetup device msixSlowpath nextFd).barVal b = 0 &&& (~~~0xf : BitVec 64) := by
    show (0 : BitVec 64) = _
    decide
  -- the shadow follows what is written, also over MMIO accesses
  have hval : (runSteps VfAct.step (vfioSetup device msixSlowpath nextFd) acts).barVal b =
      lastWritten b ((vfioSetup device msixSlowpath nextFd).barIs64 b) acts &&& (~~~0xf : BitVec 64) :=
    run_barVal hbar hinitial acts
  obtain ⟨hsize, hwide, -⟩ := run_static (vfioSetup device msixSlowpath nextFd) acts
  have hdevice : (vfioSetup device msixSlowpath nextFd).barSize = device.barSize := rfl
  generalize vfioSetup device msixSlowpath nextFd = vf at *
  have hbase : (runSteps VfAct.step vf acts).barBase b = lastAddr b (vf.barIs64 b) acts := by
    unfold barBase lastAddr
    rw [hval, BitVec.and_assoc, BitVec.and_self]
  rw [barLaw_iff_aligned (hbar.congr hsize hwide) (barType_and device b) hval]
  · unfold Aligned
    rw [hbase, hsize, hdevice]
  · intro hnarrow
    rw [hwide] at hnarrow
    rw [hnarrow]
    exact lastWritten_narrow b acts

/-- BAR 0 has 32 bits and 4 KiB, and BAR 2 has 64 bits and 8 GiB. -/
def twoBars : VfioDevice where
  region := fun _ => some 0
  barSize := fun b => if b = 0 then 0x1000 else if b = 2 then 0x200000000 else 0
  config := fun a => if a = 0x18 then 0x4 else 0

theorem twoBars_isBar : (vfioSetup twoBars false 0).IsBar 2 := by
  refine ⟨by decide, fun i hi => ?_, fun _ => by decide, 33, by decide, by decide⟩
  obtain rfl : i = 1 := by omega
  decide

/-- A write of all-ones to a BAR of 8 GiB reads back as a size of 4 GiB. -/
theorem not_barLaw : ¬∀ (device : VfioDevice) (msixSlowpath : Bool) (nextFd : Nat) (acts : List VfAct)
    (pread : Nat → Nat → Option (BitVec 32)) (b : Nat), (vfioSetup device msixSlowpath nextFd).IsBar b →
      (runSteps VfAct.step (vfioSetup device msixSlowpath nextFd) acts).Placed device.barType pread →
        (runSteps VfAct.step (vfioSetup device msixSlowpath nextFd) acts).BarLaw device.barType pread b
          (lastWritten b ((vfioSetup device msixSlowpath nextFd).barIs64 b) acts) := by
  intro h
  have hread := (h twoBars false 0
    [.config 0x18 4 0xffffffff ⟨fun _ => true, true⟩, .config 0x1c 4 0xffffffff ⟨fun _ => true, true⟩] (fun _ _ => none)
    2 twoBars_isBar (by decide +kernel)).readBack
  exact absurd hread (by decide +kernel)

/-- BAR 0 is placed below 4 GiB, and BAR 2 at 8 GiB. -/
def placeBars : List VfAct :=
  [.config 0x10 4 0xfebf1000 ⟨fun _ => true, true⟩, .config 0x18 4 0 ⟨fun _ => true, true⟩,
    .config 0x1c 4 2 ⟨fun _ => true, true⟩]

theorem placeBars_alone : (runSteps VfAct.step (vfioSetup twoBars false 0) placeBars).Alone 2 := by
  intro pa hpa i hi hhit
  have hbase₂ : ((runSteps VfAct.step (vfioSetup twoBars false 0) placeBars).barBase 2).toNat = 0x200000000 := by
    decide +kernel
  obtain ⟨-, hle, -, -⟩ := hits_iff.1 hpa
  rcases Nat.le_one_iff_eq_zero_or_eq_one.1 (Nat.le_of_lt_succ hi) with rfl | rfl
  · have hend : ((runSteps VfAct.step (vfioSetup twoBars false 0) placeBars).barBase 0).toNat +
        ((runSteps VfAct.step (vfioSetup twoBars false 0) placeBars).barSize 0).toNat = 0xfebf2000 := by
      decide +kernel
    obtain ⟨-, -, hlt, -⟩ := hits_iff.1 hhit
    omega
  · exact hhit.2.1 (by decide +kernel)

/-- Both are placed, and BAR 2 reads back and is decoded as it should be. -/
theorem barLaw_iff_large : (runSteps VfAct.step (vfioSetup twoBars false 0) placeBars).BarLaw twoBars.barType
    (fun _ _ => none) 2 (lastWritten 2 ((vfioSetup twoBars false 0).barIs64 2) placeBars) :=
  (barLaw_iff twoBars false 0 placeBars (fun _ _ => none) 2 twoBars_isBar).2
    (.inl ⟨by decide +kernel, placeBars_alone⟩)

end MiniVirt.Vmm
