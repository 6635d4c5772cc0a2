import MiniVirt.Kvm.Spec.Delivery
import MiniVirt.Kvm.Session

/-!
# Port I/O of the guest

An I/O exit is decoded from its qualification, an OUT hands on the low bytes of RAX, and RIP moves on by the
length of the instruction.  Every IN sets the whole of RAX to 0, so an IN of one or two bytes loses what the rest
of RAX held (`ioExit_iff`).
-/

namespace MiniVirt.Kvm

/-! ### The qualification -/

/-- The exit qualification of an I/O instruction. -/
structure IoQual where
  /-- The number of bytes, from bits 2:0. -/
  bytes : Nat
  isIn : Bool
  string : Bool
  port : BitVec 16
  deriving DecidableEq

/-- The layout of SDM Table 28-5. -/
def IoQual.ofBits (qual : BitVec 64) : IoQual where
  bytes := (qual.extractLsb' 0 3).toNat + 1
  isIn := qual.getLsbD 3
  string := qual.getLsbD 4
  port := qual.extractLsb' 16 16

def St.ioQual (s : St) : IoQual := .ofBits (s.field .exitQualification)

def St.rax (s : St) : BitVec 64 := s.vcpu.regs 0

/-! ### The law -/

/-- What an OUT is to hand on: the low bytes of RAX, zero-extended. -/
def IoQual.out (q : IoQual) (rax : BitVec 64) : IoOut where
  port := q.port.setWidth 32
  val := (rax.setWidth (8 * q.bytes)).setWidth 32

/-- `rax'` is `rax` after an IN of `n` bytes. -/
def InMerges (n : Nat) (rax rax' : BitVec 64) : Prop :=
  (n = 4 → rax' >>> 32 = 0) ∧ (n ≠ 4 → rax' >>> (8 * n) = rax >>> (8 * n))

/-- The state after the exit for an I/O instruction. -/
def St.afterIo (s : St) : St := (handleIoInstruction.run s).2

/-- What the exit for an I/O instruction does in the state `s`. -/
structure IoLaw (s : St) : Prop where
  /-- A string instruction ends KVM_RUN with an error, and changes nothing of the guest. -/
  string : s.ioQual.string = true →
    (handleIoInstruction.run s).1 = some (-eio) ∧ s.afterIo.vcpu.regs = s.vcpu.regs ∧
      s.afterIo.field .guestRip = s.field .guestRip ∧ s.afterIo.kvm.serial = s.kvm.serial ∧
        s.afterIo.ioOuts = s.ioOuts
  /-- An OUT hands on the low bytes of RAX and changes no register. -/
  out : s.ioQual.string = false → s.ioQual.isIn = false →
    s.afterIo.ioOuts = s.ioOuts ++ [s.ioQual.out s.rax] ∧ s.afterIo.vcpu.regs = s.vcpu.regs ∧
      s.afterIo.kvm.serial =
        if s.ioQual.port = 0x3f8 then (miniSerialOut s.kvm.serial (s.rax.setWidth 8)).1 else s.kvm.serial
  /-- An IN changes the low bytes of RAX only. -/
  in_ : s.ioQual.string = false → s.ioQual.isIn = true →
    InMerges s.ioQual.bytes s.rax s.afterIo.rax ∧ (∀ r, r ≠ 0 → s.afterIo.vcpu.regs r = s.vcpu.regs r) ∧
      s.afterIo.kvm.serial = s.kvm.serial ∧ s.afterIo.ioOuts = s.ioOuts
  /-- The guest goes on, and RIP moves on once. -/
  rip : s.ioQual.string = false → (handleIoInstruction.run s).1 = none ∧
    s.afterIo.field .guestRip = s.field .guestRip + s.field .vmExitInstructionLen

/-- An IN of one or two bytes finds nothing above them in RAX. -/
def InFits (s : St) : Prop :=
  s.ioQual.string = false → s.ioQual.isIn = true → s.ioQual.bytes ≠ 4 → s.rax >>> (8 * s.ioQual.bytes) = 0

/-! ### The decoding -/

theorem and_twoPow_ne_zero_iff (q : BitVec 64) (k : Nat) :
    q &&& BitVec.twoPow 64 k ≠ 0 ↔ q.getLsbD k = true := by
  rw [BitVec.and_twoPow]
  by_cases hq : q.getLsbD k = true
  · rw [if_pos hq]
    refine iff_of_true (fun h => ?_) hq
    have hk := BitVec.lt_of_getLsbD hq
    have := congrArg (fun x => x.getLsbD k) h
    simp [hk] at this
  · rw [if_neg hq]
    exact iff_of_false (fun h => h rfl) hq

theorem ioQual_isIn (q : BitVec 64) : (IoQual.ofBits q).isIn = true ↔ q &&& 8 ≠ 0 :=
  (and_twoPow_ne_zero_iff q 3).symm

theorem ioQual_string (q : BitVec 64) : (IoQual.ofBits q).string = true ↔ q &&& 0x10 ≠ 0 :=
  (and_twoPow_ne_zero_iff q 4).symm

/-- `size` in the code. -/
theorem ioQual_size (q : BitVec 64) :
    ((q &&& 7).setWidth 32 + 1 : BitVec 32) = BitVec.ofNat 32 (IoQual.ofBits q).bytes := by
  apply BitVec.eq_of_toNat_eq
  have hand (n : Nat) : n &&& 7 = n % 8 := Nat.and_two_pow_sub_one_eq_mod n 3
  simp [IoQual.ofBits, hand]

/-- `port` in the code. -/
theorem ioQual_port (q : BitVec 64) :
    ((q >>> 16).setWidth 32 &&& 0xffff : BitVec 32) = (IoQual.ofBits q).port.setWidth 32 := by
  apply BitVec.eq_of_toNat_eq
  have hand (n : Nat) : n &&& 65535 = n % 65536 := Nat.and_two_pow_sub_one_eq_mod n 16
  simp [IoQual.ofBits, hand]
  omega

/-- `val` in the code. -/
theorem ioQual_val {q : BitVec 64} (h : (IoQual.ofBits q).bytes ∈ [1, 2, 4]) (rax : BitVec 64) :
    rax.setWidth 32 &&& ioMask ((q &&& 7).setWidth 32 + 1) = ((IoQual.ofBits q).out rax).val := by
  have hand8 (n : Nat) : n &&& 255 = n % 256 := Nat.and_two_pow_sub_one_eq_mod n 8
  have hand16 (n : Nat) : n &&& 65535 = n % 65536 := Nat.and_two_pow_sub_one_eq_mod n 16
  have hand32 (n : Nat) : n &&& 4294967295 = n % 4294967296 := Nat.and_two_pow_sub_one_eq_mod n 32
  unfold IoQual.out
  rw [ioQual_size]
  generalize (IoQual.ofBits q).bytes = n at h ⊢
  apply BitVec.eq_of_toNat_eq
  simp only [List.mem_cons, List.not_mem_nil, or_false] at h
  obtain rfl | rfl | rfl := h
  · simp [ioMask, hand8]
    omega
  · simp [ioMask, hand16]
    omega
  · simp [ioMask, hand32]

/-- Whatever the size, the serial port gets the low byte. -/
theorem ioMask_byte (rax : BitVec 64) (size : BitVec 32) :
    (rax.setWidth 32 &&& ioMask size).setWidth 8 = rax.setWidth 8 := by
  have hmask (m : BitVec 32) (hm : m.setWidth 8 = BitVec.allOnes 8) :
      (rax.setWidth 32 &&& m).setWidth 8 = rax.setWidth 8 := by
    rw [BitVec.setWidth_and, hm, BitVec.and_allOnes, BitVec.setWidth_setWidth_of_le _ (by omega)]
  unfold ioMask
  split
  · exact hmask _ (by decide)
  · split
    · exact hmask _ (by decide)
    · exact hmask _ (by decide)

/-! ### The access -/

/-- What an access acts on. -/
structure IoView where
  regs : Fin 16 → BitVec 64
  serial : List (BitVec 8)
  ioOuts : List IoOut
  lineCopies : List LineCopy

def St.io (s : St) : IoView := ⟨s.vcpu.regs, s.kvm.serial, s.ioOuts, s.lineCopies⟩

/-- The view after `val` is handed on to the serial port. -/
def IoView.serialOut (v : IoView) (c : BitVec 8) : IoView :=
  let out := miniSerialOut v.serial c
  { v with serial := out.1, lineCopies := v.lineCopies ++ out.2.toList }

/-- The view after an OUT that hands on `x`; the serial port takes the byte `c`. -/
def IoView.out (v : IoView) (x : IoOut) (c : BitVec 8) : IoView :=
  let v' : IoView := { v with ioOuts := v.ioOuts ++ [x] }
  if x.port = 0x3f8 then v'.serialOut c else v'

section View

variable (v : IoView)

theorem IoView.out_regs (x : IoOut) (c : BitVec 8) : (v.out x c).regs = v.regs := by
  unfold IoView.out
  dsimp only
  split
  · rfl
  · rfl

theorem IoView.out_ioOuts (x : IoOut) (c : BitVec 8) : (v.out x c).ioOuts = v.ioOuts ++ [x] := by
  unfold IoView.out
  dsimp only
  split
  · rfl
  · rfl

/-- The capture buffer and the copies change if the port is that of the serial port. -/
theorem IoView.out_of_port {x : IoOut} {port : BitVec 16} (h : x.port = port.setWidth 32) (c : BitVec 8) :
    v.out x c =
      let v' : IoView := { v with ioOuts := v.ioOuts ++ [x] }
      if port = 0x3f8 then v'.serialOut c else v' := by
  have hport : x.port = 0x3f8 ↔ port = 0x3f8 := by
    rw [h, BitVec.toNat_eq, BitVec.toNat_eq, BitVec.toNat_setWidth, Nat.mod_eq_of_lt (by omega)]
    rfl
  unfold IoView.out
  simp only [hport]

theorem IoView.out_serial {x : IoOut} {port : BitVec 16} (h : x.port = port.setWidth 32) (c : BitVec 8) :
    (v.out x c).serial = if port = 0x3f8 then (miniSerialOut v.serial c).1 else v.serial := by
  rw [v.out_of_port h]
  dsimp only
  split
  · rfl
  · rfl

end View

theorem ioAccess_in {q : BitVec 64} (h : (IoQual.ofBits q).isIn = true) (s : St) :
    ((ioAccess q).run s).2.io = { s.io with regs := Function.update s.io.regs 0 0 } := by
  unfold ioAccess
  rw [run_ite, if_pos ((ioQual_isIn q).1 h)]
  rfl

theorem ioAccess_out {q : BitVec 64} (h : (IoQual.ofBits q).isIn = false) (s : St) :
    ∃ x : IoOut, x.port = (IoQual.ofBits q).port.setWidth 32 ∧
      ((IoQual.ofBits q).bytes ∈ [1, 2, 4] → x = (IoQual.ofBits q).out s.rax) ∧
        ((ioAccess q).run s).2.io = s.io.out x (s.rax.setWidth 8) := by
  have hin : ¬q &&& 8 ≠ 0 := by
    rw [← ioQual_isIn]
    exact ne_true_of_eq_false h
  let val := s.rax.setWidth 32 &&& ioMask ((q &&& 7).setWidth 32 + 1)
  refine ⟨⟨(q >>> 16).setWidth 32 &&& 0xffff, val⟩, ioQual_port q, fun hbytes => ?_, ?_⟩
  · rw [ioQual_port]
    exact congrArg (IoOut.mk _) (ioQual_val hbytes s.rax)
  · unfold ioAccess
    rw [run_ite, if_neg hin, run_bind, run_get]
    dsimp only
    rw [run_bind, run_ite, ioMask_byte]
    unfold IoView.out
    by_cases hport : (q >>> 16).setWidth 32 &&& 0xffff = miniKvmSerialPort
    · rw [if_pos hport, if_pos (by exact hport)]
      rfl
    · rw [if_neg hport, if_neg (by exact hport)]
      rfl

theorem ioAccess_hw (q : BitVec 64) (s : St) :
    ((ioAccess q).run s).2.hw = s.hw ∧ ((ioAccess q).run s).2.cpu = s.cpu := by
  unfold ioAccess
  rw [run_ite]
  split
  · exact ⟨rfl, rfl⟩
  · rw [run_bind, run_bind, run_ite]
    split
    · exact ⟨rfl, rfl⟩
    · exact ⟨rfl, rfl⟩

/-! ### The handler -/

/-- `s` with the VMREADs of the fields `fs` in its trace. -/
def St.reads (s : St) : List VmcsField → St
  | [] => s
  | f :: fs => St.reads { s with trace := s.trace ++ [.vmread s.cpu s.current s.vcpu.vmcsPhys f] } fs

theorem miniHandleIoExit_run (s : St) :
    miniHandleIoExit.run s =
      if s.ioQual.string = true then (-eio, s.reads [.exitQualification])
      else ioAdvance.run ((ioAccess (s.field .exitQualification)).run (s.reads [.exitQualification])).2 := by
  have hstring : s.ioQual.string = true ↔ _ := ioQual_string (s.field .exitQualification)
  unfold miniHandleIoExit
  rw [run_bind]
  change (ite (s.field .exitQualification &&& 0x10 ≠ 0) _ _ : M Int).run (s.reads [.exitQualification]) = _
  rw [run_ite]
  by_cases h : s.field .exitQualification &&& 0x10 ≠ 0
  · rw [if_pos h, if_pos (hstring.2 h), run_pure]
  · rw [if_neg h, if_neg (fun hs => h (hstring.1 hs)), run_bind]
    rfl

theorem ioAdvance_run (s : St) :
    ioAdvance.run s =
      let s₁ := ((miniVmwrite .guestRip (s.field .guestRip + s.field .vmExitInstructionLen)).run
        (s.reads [.vmExitInstructionLen, .guestRip])).2
      (0, { s₁ with vcpu := { s₁.vcpu with nIoExits := s₁.vcpu.nIoExits + 1 } }) := rfl

theorem ioAdvance_io (s : St) : (ioAdvance.run s).2.io = s.io := by
  rw [ioAdvance_run]
  dsimp only
  rw [miniVmwrite_run]
  rfl

theorem ioAdvance_rip {s : St} {p : Phys} (h : s.current = some p) :
    (ioAdvance.run s).2.field .guestRip = s.field .guestRip + s.field .vmExitInstructionLen := by
  have hs : (s.reads [.vmExitInstructionLen, .guestRip]).current = some p := h
  have hwrite := (miniVmwrite_field hs .guestRip (s.field .guestRip + s.field .vmExitInstructionLen)).2 .guestRip
  rw [if_pos rfl] at hwrite
  rw [ioAdvance_run]
  exact hwrite

/-- Around the handler, interrupts are on. -/
theorem handleIoInstruction_run (s : St) :
    handleIoInstruction.run s =
      let y := miniHandleIoExit.run { s with irqsOff := false }
      if y.1 ≠ 0 then (exitInternalError y.1).run { y.2 with irqsOff := true }
      else (none, { y.2 with irqsOff := true }) := by
  unfold handleIoInstruction
  rw [run_bind, run_bind, run_bind, run_ite]
  rfl

theorem handleIoInstruction_string {s : St} (h : s.ioQual.string = true) :
    (handleIoInstruction.run s).1 = some (-eio) ∧ s.afterIo.field .guestRip = s.field .guestRip ∧
      s.afterIo.io = s.io := by
  have hrun := miniHandleIoExit_run { s with irqsOff := false }
  rw [if_pos (by exact h)] at hrun
  unfold St.afterIo
  rw [handleIoInstruction_run, hrun]
  exact ⟨rfl, rfl, rfl⟩

/-- The state in which the access is made. -/
def St.beforeAccess (s : St) : St := St.reads { s with irqsOff := false } [.exitQualification]

/-- A scalar access is the access itself and then the move of RIP. -/
theorem handleIoInstruction_scalar {s : St} (h : s.ioQual.string = false) :
    handleIoInstruction.run s =
      (none, { (ioAdvance.run ((ioAccess (s.field .exitQualification)).run s.beforeAccess).2).2 with
        irqsOff := true }) := by
  have hrun : miniHandleIoExit.run { s with irqsOff := false } =
      ioAdvance.run ((ioAccess (s.field .exitQualification)).run s.beforeAccess).2 := by
    have hne : s.ioQual.string ≠ true := by
      rw [h]
      decide
    exact (miniHandleIoExit_run _).trans (if_neg hne)
  rw [handleIoInstruction_run, hrun]
  rfl

theorem afterIo_io {s : St} (h : s.ioQual.string = false) :
    s.afterIo.io = ((ioAccess (s.field .exitQualification)).run s.beforeAccess).2.io := by
  unfold St.afterIo
  rw [handleIoInstruction_scalar h]
  exact ioAdvance_io _

theorem afterIo_in {s : St} (hstring : s.ioQual.string = false) (hin : s.ioQual.isIn = true) :
    s.afterIo.io = { s.io with regs := Function.update s.io.regs 0 0 } := by
  rw [afterIo_io hstring]
  exact ioAccess_in hin s.beforeAccess

theorem afterIo_out {s : St} (hstring : s.ioQual.string = false) (hin : s.ioQual.isIn = false) :
    ∃ x : IoOut, x.port = s.ioQual.port.setWidth 32 ∧ (s.ioQual.bytes ∈ [1, 2, 4] → x = s.ioQual.out s.rax) ∧
      s.afterIo.io = s.io.out x (s.rax.setWidth 8) := by
  rw [afterIo_io hstring]
  exact ioAccess_out hin s.beforeAccess

theorem afterIo_rip {s : St} {p : Phys} (hs : s.current = some p) (h : s.ioQual.string = false) :
    (handleIoInstruction.run s).1 = none ∧
      s.afterIo.field .guestRip = s.field .guestRip + s.field .vmExitInstructionLen := by
  have hhw := ioAccess_hw (s.field .exitQualification) s.beforeAccess
  unfold St.afterIo
  rw [handleIoInstruction_scalar h]
  generalize ((ioAccess (s.field .exitQualification)).run s.beforeAccess).2 = a at hhw ⊢
  obtain ⟨hhw, hcpu⟩ := hhw
  have hfield : a.field = s.field := by
    unfold St.field St.current
    rw [hhw, hcpu]
    rfl
  have ha : a.current = some p := by
    unfold St.current
    rw [hhw, hcpu]
    exact hs
  rw [← hfield]
  exact ⟨rfl, ioAdvance_rip ha⟩

theorem inMerges_zero_iff (n : Nat) (rax : BitVec 64) :
    InMerges n rax 0 ↔ (n ≠ 4 → rax >>> (8 * n) = 0) := by
  have hzero (k : Nat) : (0 : BitVec 64) >>> k = 0 := BitVec.zero_ushiftRight
  unfold InMerges
  rw [hzero, hzero]
  constructor
  · intro h hn
    exact (h.2 hn).symm
  · intro h
    exact ⟨fun _ => rfl, fun hn => (h hn).symm⟩

/-! ### The law holds when an IN fits -/

theorem ioExit_iff {s : St} {p : Phys} (hs : s.current = some p) (hsize : s.ioQual.bytes ∈ [1, 2, 4]) :
    IoLaw s ↔ InFits s := by
  -- the IN itself, which sets RAX to 0
  have hregs (hstring : s.ioQual.string = false) (hin : s.ioQual.isIn = true) :
      s.afterIo.vcpu.regs = Function.update s.vcpu.regs 0 0 := congrArg IoView.regs (afterIo_in hstring hin)
  have hrax (hstring : s.ioQual.string = false) (hin : s.ioQual.isIn = true) : s.afterIo.rax = 0 := by
    unfold St.rax
    rw [hregs hstring hin, Function.update_self]
  constructor
  · intro h hstring hin
    have hmerges := (h.in_ hstring hin).1
    rwa [hrax hstring hin, inMerges_zero_iff] at hmerges
  · intro h
    refine ⟨fun hstring => ?_, fun hstring hin => ?_, fun hstring hin => ?_, afterIo_rip hs⟩
    · obtain ⟨hr, hrip, hio⟩ := handleIoInstruction_string hstring
      exact ⟨hr, congrArg IoView.regs hio, hrip, congrArg IoView.serial hio, congrArg IoView.ioOuts hio⟩
    · obtain ⟨x, hport, hx, hio⟩ := afterIo_out hstring hin
      refine ⟨?_, (congrArg IoView.regs hio).trans (IoView.out_regs _ _ _), ?_⟩
      · rw [← hx hsize]
        exact (congrArg IoView.ioOuts hio).trans (IoView.out_ioOuts _ _ _)
      · exact (congrArg IoView.serial hio).trans (IoView.out_serial _ hport _)
    · have hio := afterIo_in hstring hin
      refine ⟨?_, fun r hr => ?_, congrArg IoView.serial hio, congrArg IoView.ioOuts hio⟩
      · rw [hrax hstring hin, inMerges_zero_iff]
        exact h hstring hin
      · rw [hregs hstring hin, Function.update_of_ne hr]

/-- An exit for `in al, dx` from the port 0x3f8. -/
def inByteExit (rax : BitVec 64) : ExitInfo where
  reason := 30
  field
    | .exitQualification => 0x3f80008
    | .vmExitInstructionLen => 1
    | _ => 0
  regs r := if r = 0 then rax else 0
  kernelGsBase := 0

/-- The state in which the exit is handled, in the first iteration of a vCPU after its setup. -/
def inByteState (rax : BitVec 64) : St :=
  let x := runSteps Session.step Session.start [.run 0 [] World.haltRun]
  ((vmxEnterEnd (.exit (inByteExit rax))).run (runLoopEnter.run x.s).2).2

theorem ioExit_iff_inByte : IoLaw (inByteState 0) ↔ InFits (inByteState 0) :=
  ioExit_iff (p := 0x1000) (by decide +kernel) (by decide +kernel)

theorem not_ioLaw : ¬∀ (s : St) (p : Phys), s.current = some p → s.ioQual.bytes ∈ [1, 2, 4] → IoLaw s := by
  intro h
  have hlaw := h (inByteState 0x100) 0x1000 (by decide +kernel) (by decide +kernel)
  have hmerges := (hlaw.in_ (by decide +kernel) (by decide +kernel)).1.2 (by decide +kernel)
  revert hmerges
  decide +kernel

end MiniVirt.Kvm
