import MiniVirt.Kvm.Interrupt
import MiniVirt.Kvm.Ept
import MiniVirt.Kvm.Device

/-!
# `vcpu.c`: the run loop

`mini_vcpu_run_loop()` is cut at the points where other code runs.  `runLoopLoad` is what comes
before the loop.  `runLoopEnter` is one iteration up to the moment the guest runs, `runLoopExit` the
rest of the iteration, with the outcome of the entry as its argument.  `none` stands for going on,
`some r` for leaving the loop with `r`.

The entry follows SDM 27 and 28: without a current VMCS, or in the wrong launch state for the
instruction, VMLAUNCH and VMRESUME fail whatever the supplied outcome is.
-/

namespace MiniVirt.Kvm

/-! ### The entry -/

/-- What the guest and the hardware leave at a true VM exit. -/
structure ExitInfo where
  /-- Bits 30:0 of the exit reason; bit 31 is clear. -/
  reason : BitVec 31
  /-- The values of the fields that the exit saves. -/
  field : VmcsField → BitVec 64
  regs : Fin 16 → BitVec 64
  /-- IA32_KERNEL_GS_BASE, which the guest changes with SWAPGS. -/
  kernelGsBase : BitVec 64
  deriving Inhabited

/-- How `mini_vmx_enter()` ends. -/
inductive EntryOutcome where
  | vmFail (error : BitVec 64)
  | entryFailure (reason : BitVec 31) (qual : BitVec 64)
  | exit (i : ExitInfo)

/-- The fields of a VMCS after a true VM exit. -/
def ExitInfo.save (i : ExitInfo) (field : VmcsField → BitVec 64) : VmcsField → BitVec 64
  | .vmExitReason => i.reason.setWidth 64
  | .vmEntryIntrInfoField => field .vmEntryIntrInfoField &&& ~~~0x80000000
  | f => if f.savedOnExit then i.field f else field f

def Hw.setKernelGsBase (hw : Hw) (c : CpuId) (v : BitVec 64) : Hw :=
  hw.setCpu c { hw.cpu c with kernelGsBase := v }

/-- A true VM exit on CPU `c` with the VMCS at `p`. -/
def Hw.vmExit (hw : Hw) (c : CpuId) (p : Phys) (i : ExitInfo) : Hw :=
  (hw.setVmcs p { hw.vmcs p with field := i.save (hw.vmcs p).field, launched := true }).setKernelGsBase
    c i.kernelGsBase

/-- A VM-entry failure that is reported with bit 31 of the exit reason. -/
def Hw.vmEntryFailure (hw : Hw) (p : Phys) (reason : BitVec 31) (qual : BitVec 64) : Hw :=
  (hw.vmwrite p .vmExitReason (reason.setWidth 64 ||| 0x80000000)).vmwrite p .exitQualification qual

/-- What `mini_vmx_enter()` does before VMLAUNCH or VMRESUME. -/
def vmxWriteHostRsp : M Unit := do
  let h ← hostRegs
  let _ ← miniVmwrite .hostRsp h.stackPointer

/-- The entry itself, for the record. -/
def recordEntry : M Unit := do
  let s ← get
  emit (.enter s.cpu s.current s.vcpu.vmcsPhys s.vcpu.launched
    (s.current.map fun p => (s.hw.vmcs p).launched))

/-- `vmx_entry.S` stores 15 general registers; `regs[4]` is RSP's place and stays. -/
def saveGuestRegs (regs old : Fin 16 → BitVec 64) : Fin 16 → BitVec 64 :=
  Function.update regs 4 (old 4)

/-- The rest of `mini_vmx_enter()` with its return value: 0 after an exit, 1 after VMfail. -/
def vmxEnterEnd (o : EntryOutcome) : M Int := do
  let s ← get
  match s.current with
  | none => return 1
  | some p =>
    if (s.hw.vmcs p).launched ≠ s.vcpu.launched then
      -- error 5 for VMRESUME and 4 for VMLAUNCH
      modifyHw fun hw => hw.vmwrite p .vmInstructionError (if s.vcpu.launched then 5 else 4)
      return 1
    else
      match o with
      | .vmFail error =>
        modifyHw fun hw => hw.vmwrite p .vmInstructionError error
        return 1
      | .entryFailure reason qual =>
        modifyHw fun hw => hw.vmEntryFailure p reason qual
        emit (.entryFailure p (s.hw.vmcs p).launched)
        return 0
      | .exit i =>
        modifyHw fun hw => hw.vmExit s.cpu p i
        modifyVcpu fun v => { v with regs := saveGuestRegs i.regs v.regs }
        return 0

/-! ### Before the loop -/

/-- What the environment decides in one KVM_RUN: the results of the VMCLEAR, the VMPTRLD and the
INVEPT, and the outcomes of its entries, of which there is at least one. -/
structure RunCall where
  clearOk : Bool
  ptrldOk : Bool
  inveptOk : Bool
  first : EntryOutcome
  rest : List EntryOutcome

/-- The migration branch after its VMPTRLD. -/
def runLoopAttach (inveptOk : Bool) : M Unit := do
  let _ ← miniEptInveptGlobal inveptOk
  modify fun s => { s with vcpu := { s.vcpu with loadedCpu := some s.cpu } }
  miniVmxFixupHostForCpu

/-- The migration branch. -/
def runLoopMigrate (o : RunCall) : M (Option Int) := do
  miniVmcsClear o.clearOk
  let r ← miniVmptrld (← get).vcpu.vmcsPhys o.ptrldOk
  if r ≠ 0 then
    setExitReason .internalError
    return some (-eio)
  else
    runLoopAttach o.inveptOk
    return none

def runLoopLoad (o : RunCall) : M (Option Int) := do
  let s ← get
  if !(← cpuInVmxOperation s.cpu) then
    setExitReason .internalError
    return some (-eproto)
  else if s.vcpu.loadedCpu ≠ some s.cpu then
    runLoopMigrate o
  else
    return none

/-! ### One iteration, up to the entry -/

def x86EflagsIf : BitVec 64 := 0x200

/-- The injection window, for an event to inject. -/
def runLoopInject : M Unit := do
  let rflags := (← miniVmread .guestRflags).getD 0
  let _ ← miniVmwrite .guestRflags (rflags ||| x86EflagsIf)
  let ib := (← miniVmread .guestInterruptibilityInfo).getD 0
  let _ ← miniVmwrite .guestInterruptibilityInfo (ib &&& ~~~3)
  modifyVcpu fun v => { v with nInjected := v.nInjected + 1 }

/-- The VM-entry field is written for the event `intr`, and the rest up to VMLAUNCH or VMRESUME; the
result is the host's IA32_KERNEL_GS_BASE. -/
def runLoopWrite (intr : BitVec 32) : M (BitVec 64) := do
  let _ ← miniVmwrite .vmEntryIntrInfoField (intr.setWidth 64)
  let s ← get
  let gsShadow := (s.hw.cpu s.cpu).kernelGsBase
  localIrqDisable
  vmxWriteHostRsp
  return gsShadow

/-- One iteration up to VMLAUNCH or VMRESUME. -/
def runLoopPrepare : M (BitVec 64) := do
  miniVmxRefreshHostState
  let intr ← miniVcpuTakeIntrInfo
  if intr ≠ 0 then
    runLoopInject
  runLoopWrite intr

/-- One iteration up to the moment the guest runs. -/
def runLoopEnter : M (BitVec 64) := do
  let gsShadow ← runLoopPrepare
  recordEntry
  return gsShadow

/-! ### One iteration, after the entry -/

/-- The basic exit reasons that the run loop handles. -/
inductive BasicExit where
  | exceptionNmi | externalInterrupt | tripleFault | cpuid | hlt | ioInstruction | eptViolation
  | other
  deriving DecidableEq

/-- The `EXIT_REASON_*` numbers. -/
def BasicExit.ofReason (reason : BitVec 64) : BasicExit :=
  if reason = 0 then .exceptionNmi
  else if reason = 1 then .externalInterrupt
  else if reason = 2 then .tripleFault
  else if reason = 10 then .cpuid
  else if reason = 12 then .hlt
  else if reason = 30 then .ioInstruction
  else if reason = 48 then .eptViolation
  else .other

/-- Leaving the loop with an error. -/
def exitInternalError (r : Int) : M (Option Int) := do
  setExitReason .internalError
  localIrqEnable
  return some r

def handleExternalInterrupt : M (Option Int) := do
  localIrqEnable
  modifyVcpu fun v => { v with nExtintExits := v.nExtintExits + 1 }
  localIrqDisable
  return none

def handleExceptionNmi : M (Option Int) := do
  let info := (← miniVmread .vmExitIntrInfo).getD 0
  if info &&& 0x700 = intrTypeNmiIntr.setWidth 64 ∧ info &&& 0xff = 2 then
    modifyVcpu fun v => { v with nNmiExits := v.nNmiExits + 1 }
    miniVcpuReinjectNmi
    return none
  else
    let _ ← miniVmread .guestRip
    miniDumpVmcs
    exitInternalError (-eio)

def handleIoInstruction : M (Option Int) := do
  localIrqEnable
  let r ← miniHandleIoExit
  localIrqDisable
  if r ≠ 0 then
    exitInternalError r
  else
    return none

def handleEptViolation : M (Option Int) := do
  let r ← miniEptHandleViolation
  if r ≠ 0 then
    miniDumpVmcs
    exitInternalError r
  else
    return none

def handleCpuid : M (Option Int) := do
  modifyVcpu fun v => { v with regs := Function.update v.regs 0 0 }
  let rip := (← miniVmread .guestRip).getD 0
  let len := (← miniVmread .vmExitInstructionLen).getD 0
  let _ ← miniVmwrite .guestRip (rip + len)
  return none

def handleHlt : M (Option Int) := do
  modifyVcpu fun v => { v with nHltExits := v.nHltExits + 1 }
  setExitReason .hlt
  localIrqEnable
  return some 0

def handleTripleFault : M (Option Int) := do
  miniDumpVmcs
  setExitReason .shutdown
  localIrqEnable
  return some 0

def handleUnknown : M (Option Int) := do
  miniDumpVmcs
  exitInternalError (-eio)

/-- The `switch (reason)`. -/
def handleExit : BasicExit → M (Option Int)
  | .exceptionNmi => handleExceptionNmi
  | .externalInterrupt => handleExternalInterrupt
  | .tripleFault => handleTripleFault
  | .cpuid => handleCpuid
  | .hlt => handleHlt
  | .ioInstruction => handleIoInstruction
  | .eptViolation => handleEptViolation
  | .other => handleUnknown

/-- `mini_vmx_enter()` returned 1. -/
def entryVmFail : M (Option Int) := do
  miniVmxReportError
  miniDumpVmcs
  exitInternalError (-eio)

/-- The exit reason has bit 31 set. -/
def entryFailed : M (Option Int) := do
  let _ ← miniVmread .exitQualification
  miniDumpVmcs
  exitInternalError (-eio)

/-- A true VM exit. -/
def trueExit (reason64 : BitVec 64) : M (Option Int) := do
  miniVcpuCompleteIntrInfo
  handleExit (.ofReason (reason64 &&& 0xffff))

/-- What follows when `mini_vmx_enter()` returned 0 and the flag is set. -/
def examineExit : M (Option Int) := do
  modifyVcpu fun v => { v with nExits := v.nExits + 1 }
  let reason64 := (← miniVmread .vmExitReason).getD 0
  if reason64 &&& 0x80000000 ≠ 0 then
    entryFailed
  else
    trueExit reason64

def afterEntry : M (Option Int) := do
  modifyVcpu fun v => if !v.launched then { v with launched := true } else v
  examineExit

/-- `mini_wrmsr(MSR_KERNEL_GS_BASE, v)` on the executing CPU. -/
def wrmsrKernelGsBase (v : BitVec 64) : M Unit :=
  modify fun s => { s with hw := s.hw.setKernelGsBase s.cpu v }

def runLoopExit (gsShadow : BitVec 64) (o : EntryOutcome) : M (Option Int) := do
  let r ← vmxEnterEnd o
  wrmsrKernelGsBase gsShadow
  if r ≠ 0 then
    entryVmFail
  else
    afterEntry

/-! ### The loop -/

/-- One iteration. -/
def runLoopBody (o : EntryOutcome) : M (Option Int) := do
  let gsShadow ← runLoopEnter
  runLoopExit gsShadow o

/-- The loop for the outcomes given; `none` when it has not ended with the last of them. -/
def runLoop : EntryOutcome → List EntryOutcome → M (Option Int)
  | o, [] => runLoopBody o
  | o, o' :: os => do
    match ← runLoopBody o with
    | some r => return some r
    | none => runLoop o' os

def miniVcpuRunLoop (o : RunCall) : M (Option Int) := do
  setExitReason .unknown
  preemptDisable
  match ← runLoopLoad o with
  | some r =>
    preemptEnable
    return some r
  | none =>
    match ← runLoop o.first o.rest with
    | some r =>
      preemptEnable
      return some r
    | none => return none

end MiniVirt.Kvm
