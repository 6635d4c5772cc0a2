import MiniVirt.Lib.StateProg
import Mathlib.Data.BitVec
import Mathlib.Logic.Function.Basic

/-!
# The machine under mini-kvm and the structures of `mini-kvm.h`

`Hw` is what the VMX instructions act on.  Every CPU has one current-VMCS pointer and a set of
VMCSs that are active on it; every VMCS region has its fields and a launch state.  The program is
written in `M`, the state monad over `St`: the CPU the code executes on, the machine, the VM and
the vCPU the call is about.  `St.trace` records what results about runs speak of, the accesses
to the current VMCS, the VM entries and the VMCS pages given back; `St.vmcsClears`, `St.invepts`,
`St.ioOuts` and `St.lineCopies` record what the results about interrupts, about the EPT caches and about
port I/O speak of.

Whether VMPTRLD, VMCLEAR or an allocation succeeds is up to the environment, and is an argument of
the operation concerned.
-/

namespace MiniVirt.Kvm

abbrev CpuId := Nat

/-- A page frame number: bits 51:12 of a physical address. -/
abbrev Pfn := BitVec 40

abbrev Phys := BitVec 64

def pageToPhys (page : Pfn) : Phys := page.setWidth 64 <<< 12

/-! ### Error codes (`linux/errno.h`) -/

def eio : Int := 5
def enxio : Int := 6
def enomem : Int := 12
def efault : Int := 14
def ebusy : Int := 16
def enodev : Int := 19
def einval : Int := 22
def eproto : Int := 71
def eopnotsupp : Int := 95

/-! ### VMCS -/

/-- The VMCS fields the module reads or writes, under the names of `asm/vmx.h`. -/
inductive VmcsField where
  | pinBasedVmExecControl | cpuBasedVmExecControl | secondaryVmExecControl | vmExitControls
  | vmEntryControls | exceptionBitmap | pageFaultErrorCodeMask | pageFaultErrorCodeMatch
  | cr3TargetCount | vmcsLinkPointer | tprThreshold | eptPointer | vmEntryIntrInfoField
  | guestRip | guestRsp | guestCr0 | guestCr3 | guestCr4 | guestRflags | guestIa32Efer | guestDr7
  | guestInterruptibilityInfo | guestPendingDbgExceptions | guestActivityState
  | guestSysenterCs | guestSysenterEsp | guestSysenterEip
  | guestCsSelector | guestCsBase | guestCsLimit | guestCsArBytes
  | guestSsSelector | guestSsArBytes | guestDsSelector | guestDsArBytes
  | guestEsSelector | guestEsArBytes | guestFsSelector | guestFsBase | guestFsArBytes
  | guestGsSelector | guestGsBase | guestGsArBytes
  | guestLdtrSelector | guestLdtrBase | guestLdtrArBytes
  | guestTrSelector | guestTrBase | guestTrLimit | guestTrArBytes
  | guestGdtrBase | guestGdtrLimit | guestIdtrBase | guestIdtrLimit
  | hostCr0 | hostCr3 | hostCr4 | hostCsSelector | hostDsSelector | hostEsSelector
  | hostSsSelector | hostTrSelector | hostFsSelector | hostGsSelector
  | hostFsBase | hostGsBase | hostTrBase | hostGdtrBase | hostIdtrBase
  | hostIa32SysenterCs | hostIa32SysenterEsp | hostIa32SysenterEip | hostIa32Efer
  | hostRip | hostRsp
  | vmExitReason | exitQualification | vmExitIntrInfo | idtVectoringInfoField
  | vmExitInstructionLen | guestPhysicalAddress | vmInstructionError
  deriving DecidableEq

/-- The fields a true VM exit writes: the guest state and the exit information. -/
def VmcsField.savedOnExit : VmcsField → Bool
  | .guestRip | .guestRsp | .guestCr0 | .guestCr3 | .guestCr4 | .guestRflags | .guestIa32Efer
  | .guestDr7 | .guestInterruptibilityInfo | .guestPendingDbgExceptions | .guestActivityState
  | .guestSysenterCs | .guestSysenterEsp | .guestSysenterEip
  | .guestCsSelector | .guestCsBase | .guestCsLimit | .guestCsArBytes
  | .guestSsSelector | .guestSsArBytes | .guestDsSelector | .guestDsArBytes
  | .guestEsSelector | .guestEsArBytes | .guestFsSelector | .guestFsBase | .guestFsArBytes
  | .guestGsSelector | .guestGsBase | .guestGsArBytes
  | .guestLdtrSelector | .guestLdtrBase | .guestLdtrArBytes
  | .guestTrSelector | .guestTrBase | .guestTrLimit | .guestTrArBytes
  | .guestGdtrBase | .guestGdtrLimit | .guestIdtrBase | .guestIdtrLimit
  | .exitQualification | .vmExitIntrInfo | .idtVectoringInfoField
  | .vmExitInstructionLen | .guestPhysicalAddress => true
  | _ => false

/-- A VMCS region.  `launched` is the hardware's launch state, not the module's flag. -/
structure Vmcs where
  revisionId : BitVec 32
  field : VmcsField → BitVec 64
  launched : Bool
  deriving Inhabited

/-- The host registers and addresses that the host-state area is filled from. -/
structure HostRegs where
  cr0 : BitVec 64
  cr3 : BitVec 64
  cr4Shadow : BitVec 64
  kernelmodeGsBase : BitVec 64
  fsBase : BitVec 64
  tss : BitVec 64
  gdt : BitVec 64
  entryStack : BitVec 64
  idt : BitVec 64
  sysenterCs : BitVec 64
  sysenterEip : BitVec 64
  efer : BitVec 64
  stackPointer : BitVec 64
  vmexitAddress : BitVec 64
  deriving Inhabited

structure Cpu where
  online : Bool
  /-- `mini_vmxon_done`: this CPU is in VMX operation. -/
  vmxonDone : Bool
  /-- The current-VMCS pointer. -/
  current : Option Phys
  /-- The VMCSs active on this CPU. -/
  active : Phys → Bool
  /-- IA32_KERNEL_GS_BASE. -/
  kernelGsBase : BitVec 64
  host : HostRegs
  deriving Inhabited

/-- The contents of the pages used as EPT tables: 512 entries of 64 bits each. -/
abbrev PageMem := Pfn → Fin 512 → BitVec 64

structure Hw where
  cpu : CpuId → Cpu
  vmcs : Phys → Vmcs
  mem : PageMem
  /-- `IS_ENABLED(CONFIG_IA32_EMULATION)` of the running kernel. -/
  ia32Emulation : Bool
  /-- `mk_global.vmcs_revision_id`. -/
  vmcsRevisionId : BitVec 32
  /-- `mk_global.true_ctls`. -/
  trueCtls : Bool
  deriving Inhabited

def Hw.setCpu (hw : Hw) (c : CpuId) (x : Cpu) : Hw :=
  { hw with cpu := Function.update hw.cpu c x }

def Hw.setVmcs (hw : Hw) (p : Phys) (x : Vmcs) : Hw :=
  { hw with vmcs := Function.update hw.vmcs p x }

/-! ### `mini-kvm.h` -/

def miniKvmSerialSize : Nat := 512

def miniKvmEptTrackMax : Nat := 1024

structure MiniKvmMemslot where
  valid : Bool
  baseGpa : BitVec 64
  npages : BitVec 64
  /-- `pages[]`, the result of `pin_user_pages()`. -/
  pages : Nat → Pfn
  deriving Inhabited

structure MiniKvmEpt where
  pml4 : Pfn
  eptp : BitVec 64
  /-- `tracked[0 .. nr_tracked)`. -/
  tracked : List Pfn
  deriving Inhabited

structure MiniKvm where
  slot : MiniKvmMemslot
  ept : MiniKvmEpt
  /-- `serial[0 .. serial_len)`. -/
  serial : List (BitVec 8)
  deriving Inhabited

/-- For the register numbers in `regs`. -/
instance nrRegs_neZero : NeZero 16 := ⟨by decide⟩

structure MiniKvmVcpu where
  regs : Fin 16 → BitVec 64
  vmcsPage : Option Pfn
  vmcsPhys : Phys
  launched : Bool
  /-- `loaded_cpu`, with `none` for -1. -/
  loadedCpu : Option CpuId
  pendingIntrInfo : BitVec 32
  nExits : Nat
  nIoExits : Nat
  nEptViolations : Nat
  nHltExits : Nat
  nExtintExits : Nat
  nNmiExits : Nat
  nInjected : Nat
  deriving Inhabited

/-- A vCPU as `kzalloc()` and `mini_kvm_create_vcpu()` leave it before the VMX setup. -/
def MiniKvmVcpu.fresh : MiniKvmVcpu where
  regs := fun _ => 0
  vmcsPage := none
  vmcsPhys := 0
  launched := false
  loadedCpu := none
  pendingIntrInfo := 0
  nExits := 0
  nIoExits := 0
  nEptViolations := 0
  nHltExits := 0
  nExtintExits := 0
  nNmiExits := 0
  nInjected := 0

/-- `run->exit_reason`. -/
inductive KvmExit where
  | unknown | hlt | shutdown | internalError
  deriving DecidableEq, Inhabited

/-! ### The state of a call and its trace -/

/-- What a call does that results about runs speak of.  `current` is the current-VMCS pointer of the
executing CPU at that moment and `own` the VMCS of the vCPU that the call is about. -/
inductive Event where
  | vmread (cpu : CpuId) (current : Option Phys) (own : Phys) (f : VmcsField)
  | vmwrite (cpu : CpuId) (current : Option Phys) (own : Phys) (f : VmcsField) (v : BitVec 64)
  /-- `mini_vmx_enter()` with the flag `launched`; `vmcsLaunched` is the launch state of the
  current VMCS, if there is one. -/
  | enter (cpu : CpuId) (current : Option Phys) (own : Phys) (launched : Bool)
      (vmcsLaunched : Option Bool)
  /-- An entry with the VMCS `p`, in that launch state, that failed with bit 31 of the exit
  reason. -/
  | entryFailure (p : Phys) (vmcsLaunched : Bool)
  /-- A VMPTRLD that succeeded. -/
  | vmptrld (cpu : CpuId) (p : Phys)
  /-- A VMCLEAR that succeeded. -/
  | vmclear (cpu : CpuId) (p : Phys)
  /-- `__free_page()` of a VMCS page; `active` says where its VMCS is active at that moment. -/
  | freeVmcs (page : Pfn) (active : CpuId → Bool)

/-- `port` and `val` of an OUT, which `mini_handle_io_exit()` hands on: the low byte of `val` to
`mini_serial_out()`, or both to the log. -/
structure IoOut where
  port : BitVec 32
  val : BitVec 32
  deriving DecidableEq

/-- A `memcpy()` of `len` bytes from `serial + start` to the local array `line`; both are C ints. -/
structure LineCopy where
  start : Int
  len : Int
  deriving DecidableEq

structure St where
  /-- `raw_smp_processor_id()`: no call here migrates. -/
  cpu : CpuId
  hw : Hw
  kvm : MiniKvm
  vcpu : MiniKvmVcpu
  exitReason : KvmExit
  irqsOff : Bool
  preemptCount : Nat
  /-- The results that the coming `alloc_page()` calls will have, `none` for a failure. -/
  allocs : List (Option Pfn)
  trace : List Event
  /-- Whether interrupts were off, at each call of `mini_vmcs_clear()`. -/
  vmcsClears : List Bool
  /-- The CPUs that have executed INVEPT with success. -/
  invepts : List CpuId
  /-- What the guest's OUTs have handed on. -/
  ioOuts : List IoOut
  /-- The lines that `mini_serial_out()` has copied. -/
  lineCopies : List LineCopy
  deriving Inhabited

abbrev M := StateM St

def St.current (s : St) : Option Phys := (s.hw.cpu s.cpu).current

/-- The field `f` of the current VMCS, 0 without one. -/
def St.field (s : St) (f : VmcsField) : BitVec 64 :=
  (s.current.map fun p => (s.hw.vmcs p).field f).getD 0

def modifyVcpu (f : MiniKvmVcpu → MiniKvmVcpu) : M Unit :=
  modify fun s => { s with vcpu := f s.vcpu }

def modifyHw (f : Hw → Hw) : M Unit :=
  modify fun s => { s with hw := f s.hw }

def setExitReason (r : KvmExit) : M Unit := modify fun s => { s with exitReason := r }

def localIrqDisable : M Unit := modify fun s => { s with irqsOff := true }

def localIrqEnable : M Unit := modify fun s => { s with irqsOff := false }

def preemptDisable : M Unit := modify fun s => { s with preemptCount := s.preemptCount + 1 }

def preemptEnable : M Unit := modify fun s => { s with preemptCount := s.preemptCount - 1 }

def emit (e : Event) : M Unit := modify fun s => { s with trace := s.trace ++ [e] }

def recordClear : M Unit := modify fun s => { s with vmcsClears := s.vmcsClears ++ [s.irqsOff] }

def recordInvept : M Unit := modify fun s => { s with invepts := s.invepts ++ [s.cpu] }

def recordOut (x : IoOut) : M Unit := modify fun s => { s with ioOuts := s.ioOuts ++ [x] }

end MiniVirt.Kvm
