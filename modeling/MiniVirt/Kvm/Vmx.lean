import MiniVirt.Kvm.Machine

/-!
# `vmx.c`: VMX instructions, VMCS setup and teardown

The four instruction wrappers first, then `mini_vmcs_clear()`, the control negotiation, the host
and guest state, and `mini_vcpu_vmx_setup()` / `mini_vcpu_vmx_teardown()`.

A VMREAD or VMWRITE without a current VMCS is VMfailInvalid: the wrapper returns `-EIO` and the
caller's variable keeps its value, which is what `none` stands for in `miniVmread`.
-/

namespace MiniVirt.Kvm

/-! ### VMX instructions -/

def miniVmread (f : VmcsField) : M (Option (BitVec 64)) := do
  let s ← get
  emit (.vmread s.cpu s.current s.vcpu.vmcsPhys f)
  return s.current.map fun p => (s.hw.vmcs p).field f

/-- VMWRITE of the field `f` of the VMCS at `p`. -/
def Hw.vmwrite (hw : Hw) (p : Phys) (f : VmcsField) (v : BitVec 64) : Hw :=
  hw.setVmcs p { hw.vmcs p with field := Function.update (hw.vmcs p).field f v }

def miniVmwrite (f : VmcsField) (v : BitVec 64) : M Int := do
  let s ← get
  emit (.vmwrite s.cpu s.current s.vcpu.vmcsPhys f v)
  match s.current with
  | none => return -eio
  | some p =>
    modifyHw fun hw => hw.vmwrite p f v
    return 0

/-- A sequence of `mini_vmwrite()` calls whose results are ignored. -/
def vmwriteAll : List (VmcsField × BitVec 64) → M Unit
  | [] => return ()
  | (f, v) :: l => do
    let _ ← miniVmwrite f v
    vmwriteAll l

/-- VMPTRLD on CPU `c`: the VMCS becomes active and current there. -/
def Hw.vmptrld (hw : Hw) (c : CpuId) (p : Phys) : Hw :=
  hw.setCpu c { hw.cpu c with
    current := some p, active := Function.update (hw.cpu c).active p true }

/-- VMCLEAR on CPU `c`: the VMCS becomes inactive there, its launch state "clear", and the
current-VMCS pointer is reset if it was this VMCS. -/
def Hw.vmclear (hw : Hw) (c : CpuId) (p : Phys) : Hw :=
  (hw.setCpu c { hw.cpu c with
    current := if (hw.cpu c).current = some p then none else (hw.cpu c).current
    active := Function.update (hw.cpu c).active p false }).setVmcs p
      { hw.vmcs p with launched := false }

def miniVmptrld (phys : Phys) (ok : Bool) : M Int := do
  if ok then
    let c := (← get).cpu
    modifyHw fun hw => hw.vmptrld c phys
    emit (.vmptrld c phys)
    return 0
  else
    return -eio

/-- `mini_vmclear()` executed on the CPU `c`. -/
def vmclearOn (c : CpuId) (phys : Phys) (ok : Bool) : M Int := do
  if ok then
    modifyHw fun hw => hw.vmclear c phys
    emit (.vmclear c phys)
    return 0
  else
    return -eio

def miniVmclear (phys : Phys) (ok : Bool) : M Int := do
  vmclearOn (← get).cpu phys ok

/-- `mini_cpu_in_vmx_operation()` asked on the CPU `c`. -/
def cpuInVmxOperation (c : CpuId) : M Bool := return ((← get).hw.cpu c).vmxonDone

def miniVmclearIpi (c : CpuId) (phys : Phys) (ok : Bool) : M Int := do
  if ← cpuInVmxOperation c then
    vmclearOn c phys ok
  else
    return -enodev

/-- `smp_call_function_single(c, mini_vmclear_ipi, ..., 1)`: the callback does not run on a CPU
that is offline. -/
def smpVmclear (c : CpuId) (phys : Phys) (ok : Bool) : M Int := do
  if ((← get).hw.cpu c).online then
    miniVmclearIpi c phys ok
  else
    return -enxio

/-- The VMCLEAR of `mini_vmcs_clear()`: here if `cpu` is the executing CPU, else by an IPI. -/
def vmclearAt (cpu : CpuId) (phys : Phys) (ok : Bool) : M Int := do
  if cpu = (← get).cpu then
    miniVmclear phys ok
  else
    smpVmclear cpu phys ok

/-- `mini_vmcs_clear()`: VMCLEAR on the CPU recorded in `loaded_cpu`.  Its result is only
reported in the log. -/
def miniVmcsClear (ok : Bool) : M Unit := do
  recordClear
  modifyVcpu fun v => { v with launched := false }
  let s ← get
  match s.vcpu.loadedCpu with
  | none => return ()
  | some cpu =>
    preemptDisable
    let _ ← vmclearAt cpu s.vcpu.vmcsPhys ok
    preemptEnable
    modifyVcpu fun v => { v with loadedCpu := none }

/-! ### Control negotiation -/

/-- The capability MSRs that `mini_compute_controls()` chooses from. -/
inductive CtlMsr where
  | pinbased | truePinbased | procbased | trueProcbased | procbased2 | exit | trueExit | entry
  | trueEntry
  deriving DecidableEq

def miniVmxAdjustControl (desired : BitVec 32) (msr : BitVec 64) : BitVec 32 :=
  let mustBeOne := msr.setWidth 32
  let canBeOne := (msr >>> 32).setWidth 32
  desired &&& canBeOne ||| mustBeOne

structure MiniVmcsControls where
  pinBased : BitVec 32
  cpuBased : BitVec 32
  secondary : BitVec 32
  exit : BitVec 32
  entry : BitVec 32
  deriving DecidableEq

def cpuBasedActivateSecondaryControls : BitVec 32 := 0x80000000
def secondaryExecEnableEpt : BitVec 32 := 0x2

/-- The controls adjusted to the machine.  `rdmsr m` is what RDMSR of the capability MSR `m` gives
and `t` is `mk_global.true_ctls`. -/
def adjustedControls (t : Bool) (rdmsr : CtlMsr → BitVec 64) : MiniVmcsControls where
  -- PIN_BASED_EXT_INTR_MASK | PIN_BASED_NMI_EXITING
  pinBased := miniVmxAdjustControl 0x9 (rdmsr (if t then .truePinbased else .pinbased))
  -- CPU_BASED_HLT_EXITING | CPU_BASED_UNCOND_IO_EXITING | CPU_BASED_ACTIVATE_SECONDARY_CONTROLS
  cpuBased := miniVmxAdjustControl 0x81000080 (rdmsr (if t then .trueProcbased else .procbased))
  secondary := miniVmxAdjustControl secondaryExecEnableEpt (rdmsr .procbased2)
  -- VM_EXIT_HOST_ADDR_SPACE_SIZE | VM_EXIT_LOAD_IA32_EFER
  exit := miniVmxAdjustControl 0x200200 (rdmsr (if t then .trueExit else .exit))
  -- VM_ENTRY_IA32E_MODE | VM_ENTRY_LOAD_IA32_EFER
  entry := miniVmxAdjustControl 0x8200 (rdmsr (if t then .trueEntry else .entry))

def miniComputeControls (t : Bool) (rdmsr : CtlMsr → BitVec 64) :
    Except Int MiniVmcsControls :=
  let c := adjustedControls t rdmsr
  if c.cpuBased &&& cpuBasedActivateSecondaryControls = 0 ∨
      c.secondary &&& secondaryExecEnableEpt = 0 then
    .error (-eopnotsupp)
  else
    .ok c

/-! ### Host and guest state -/

def x86Cr4Vmxe : BitVec 64 := 0x2000

def miniHostCr4 (h : HostRegs) : BitVec 64 := h.cr4Shadow ||| x86Cr4Vmxe

/-- The host registers of the executing CPU. -/
def hostRegs : M HostRegs := do
  let s ← get
  return (s.hw.cpu s.cpu).host

def miniVmxRefreshHostState : M Unit := do
  let h ← hostRegs
  vmwriteAll [(.hostCr3, h.cr3), (.hostCr4, miniHostCr4 h), (.hostGsBase, h.kernelmodeGsBase),
    (.hostFsBase, h.fsBase)]

def miniVmxFixupHostForCpu : M Unit := do
  let h ← hostRegs
  vmwriteAll [(.hostTrBase, h.tss), (.hostGdtrBase, h.gdt)]
  if (← get).hw.ia32Emulation then
    vmwriteAll [(.hostIa32SysenterEsp, h.entryStack)]

def miniVmxSetConstantHostState : M Unit := do
  let h ← hostRegs
  vmwriteAll [(.hostCr0, h.cr0), (.hostCr3, h.cr3), (.hostCr4, miniHostCr4 h),
    (.hostCsSelector, 0x10), (.hostDsSelector, 0), (.hostEsSelector, 0), (.hostSsSelector, 0x18),
    (.hostTrSelector, 0x40), (.hostFsSelector, 0), (.hostGsSelector, 0), (.hostIdtrBase, h.idt),
    (.hostIa32SysenterCs, h.sysenterCs &&& 0xffffffff), (.hostIa32SysenterEip, h.sysenterEip)]
  if !(← get).hw.ia32Emulation then
    vmwriteAll [(.hostIa32SysenterEsp, 0)]
  vmwriteAll [(.hostIa32Efer, h.efer)]
  miniVmxFixupHostForCpu
  vmwriteAll [(.hostFsBase, h.fsBase), (.hostGsBase, h.kernelmodeGsBase),
    (.hostRip, h.vmexitAddress)]

def miniKvmGuestRip : BitVec 64 := 0x1000
def miniKvmGuestRsp : BitVec 64 := 0x100000
def miniKvmGuestCr3 : BitVec 64 := 0x6000

/-- PE, MP, ET, NE, WP and PG. -/
def miniGuestCr0 : BitVec 64 := 0x80010033
/-- PAE and VMXE. -/
def miniGuestCr4 : BitVec 64 := 0x2020
/-- SCE, LME and LMA. -/
def miniGuestEfer : BitVec 64 := 0x501

def miniSegArLdtUnusable : BitVec 64 := 0x10000
def miniSegArCs64 : BitVec 64 := 0xA09B
def miniSegArTss64 : BitVec 64 := 0x8B

def miniVmxSetGuestState : M Unit :=
  vmwriteAll [(.guestRip, miniKvmGuestRip), (.guestRsp, miniKvmGuestRsp),
    (.guestCr3, miniKvmGuestCr3), (.guestRflags, 0x2), (.guestCr0, miniGuestCr0),
    (.guestCr4, miniGuestCr4), (.guestIa32Efer, miniGuestEfer), (.guestDr7, 0x400),
    (.guestInterruptibilityInfo, 0), (.guestPendingDbgExceptions, 0), (.guestActivityState, 0),
    (.guestSysenterCs, 0), (.guestSysenterEsp, 0), (.guestSysenterEip, 0),
    (.guestCsSelector, 0x8), (.guestCsBase, 0), (.guestCsLimit, 0xffffffff),
    (.guestCsArBytes, miniSegArCs64), (.guestSsSelector, 0),
    (.guestSsArBytes, miniSegArLdtUnusable), (.guestDsSelector, 0),
    (.guestDsArBytes, miniSegArLdtUnusable), (.guestEsSelector, 0),
    (.guestEsArBytes, miniSegArLdtUnusable), (.guestFsSelector, 0),
    (.guestFsArBytes, miniSegArLdtUnusable), (.guestGsSelector, 0),
    (.guestGsArBytes, miniSegArLdtUnusable), (.guestLdtrSelector, 0),
    (.guestLdtrArBytes, miniSegArLdtUnusable), (.guestFsBase, 0), (.guestGsBase, 0),
    (.guestLdtrBase, 0), (.guestTrSelector, 0x10), (.guestTrBase, 0), (.guestTrLimit, 0x67),
    (.guestTrArBytes, miniSegArTss64), (.guestGdtrBase, 0), (.guestGdtrLimit, 0xffff),
    (.guestIdtrBase, 0), (.guestIdtrLimit, 0xffff)]

/-! ### Diagnostics -/

def dumpFields : List VmcsField :=
  [.pinBasedVmExecControl, .cpuBasedVmExecControl, .secondaryVmExecControl, .vmExitControls,
    .vmEntryControls, .exceptionBitmap, .eptPointer, .vmcsLinkPointer, .guestRip, .guestRsp,
    .guestCr0, .guestCr3, .guestCr4, .guestIa32Efer, .guestRflags, .guestCsSelector,
    .guestCsArBytes, .guestTrArBytes, .guestActivityState, .guestInterruptibilityInfo, .hostRip,
    .hostRsp, .hostCr0, .hostCr3, .hostCr4, .hostCsSelector, .hostSsSelector, .hostTrSelector,
    .hostTrBase, .hostGdtrBase, .hostIdtrBase, .hostGsBase, .hostIa32SysenterEsp, .hostIa32Efer]

/-- The VMREADs of a list of fields, their values going to the log only. -/
def vmreadAll : List VmcsField → M Unit
  | [] => return ()
  | f :: l => do
    let _ ← miniVmread f
    vmreadAll l

def miniDumpVmcs : M Unit := vmreadAll dumpFields

def miniVmxReportError : M Unit := vmreadAll [.vmInstructionError]

/-! ### Setup and teardown -/

/-- What the environment decides in one call of `mini_vcpu_vmx_setup()`. -/
structure SetupCall where
  /-- The result of `alloc_page()`. -/
  page : Option Pfn
  vmclearOk : Bool
  vmptrldOk : Bool
  rdmsr : CtlMsr → BitVec 64
  /-- The VMCLEAR of `mini_vmcs_clear()` succeeds. -/
  unloadOk : Bool

/-- `__free_page(vcpu->vmcs_page)` followed by `vcpu->vmcs_page = NULL`. -/
def freeVmcsPage (page : Pfn) : M Unit := do
  let hw := (← get).hw
  emit (.freeVmcs page fun c => (hw.cpu c).active (pageToPhys page))
  modifyVcpu fun v => { v with vmcsPage := none }

def vmcsControlFields (c : MiniVmcsControls) (eptp : BitVec 64) : List (VmcsField × BitVec 64) :=
  [(.pinBasedVmExecControl, c.pinBased.setWidth 64),
    (.cpuBasedVmExecControl, c.cpuBased.setWidth 64),
    (.secondaryVmExecControl, c.secondary.setWidth 64), (.vmExitControls, c.exit.setWidth 64),
    (.vmEntryControls, c.entry.setWidth 64),
    -- #DB, #UD, #GP and #PF
    (.exceptionBitmap, 0x6042), (.pageFaultErrorCodeMask, 0), (.pageFaultErrorCodeMatch, 0),
    (.cr3TargetCount, 0), (.vmcsLinkPointer, 0xffffffffffffffff), (.tprThreshold, 0),
    (.eptPointer, eptp)]

/-- `mini_vcpu_vmx_setup()` with the VMCS loaded. -/
def vmxSetupLoaded (page : Pfn) (o : SetupCall) : M Int := do
  modify fun s => { s with vcpu := { s.vcpu with loadedCpu := some s.cpu } }
  let s ← get
  match miniComputeControls s.hw.trueCtls o.rdmsr with
  | .error r =>
    miniVmcsClear o.unloadOk
    freeVmcsPage page
    return r
  | .ok c =>
    vmwriteAll (vmcsControlFields c s.kvm.ept.eptp)
    miniVmxSetGuestState
    miniVmxSetConstantHostState
    miniVmcsClear o.unloadOk
    return 0

/-- The VMCS page is allocated and its revision identifier written. -/
def vmxSetupPage (page : Pfn) : M Unit := do
  modifyVcpu fun v => { v with vmcsPage := some page, vmcsPhys := pageToPhys page }
  modifyHw fun hw => hw.setVmcs (pageToPhys page)
    { hw.vmcs (pageToPhys page) with revisionId := hw.vmcsRevisionId }

def miniVcpuVmxSetup (o : SetupCall) : M Int := do
  match o.page with
  | none => return -enomem
  | some page =>
    vmxSetupPage page
    let r ← miniVmclear (pageToPhys page) o.vmclearOk
    if r ≠ 0 then
      freeVmcsPage page
      return r
    else
      let r ← miniVmptrld (pageToPhys page) o.vmptrldOk
      if r ≠ 0 then
        freeVmcsPage page
        return r
      else
        vmxSetupLoaded page o

def miniVcpuVmxTeardown (unloadOk : Bool) : M Unit := do
  match (← get).vcpu.vmcsPage with
  | none => return ()
  | some page =>
    miniVmcsClear unloadOk
    freeVmcsPage page

end MiniVirt.Kvm
