import MiniVirt.Kvm.World

/-!
# `mini_vcpu_vmx_setup()`, step by step

KVM_CREATE_VCPU runs in a thread that may be preempted and go on on another CPU, and the setup of the VMCS
does nothing against that.  A `Sched` is the world with the setups that are under way, each with the CPU that
its thread executes on.  Its steps are the single steps of the setups, their migrations, and KVM_RUN and
the release of the vCPUs that have been set up.
-/

namespace MiniVirt.Kvm

/-! ### One setup -/

/-- What a setup does next. -/
inductive SetupPc where
  | vmclear
  | vmptrld
  /-- `vcpu->loaded_cpu = raw_smp_processor_id()`. -/
  | recordCpu
  | computeControls
  /-- The value of the VMWRITE with the number `k` is taken. -/
  | value (c : MiniVmcsControls) (k : Nat)
  | vmwrite (c : MiniVmcsControls) (k : Nat) (f : VmcsField) (v : BitVec 64)
  /-- `mini_vmcs_clear()`; the result will be `r`. -/
  | unload (r : Int)
  | freePage (r : Int)
  | returned (r : Int)
  deriving DecidableEq

/-- The VMWRITEs of the setup, one after the other. -/
def setupBody (c : MiniVmcsControls) : M Unit := do
  vmwriteAll (vmcsControlFields c (← get).kvm.ept.eptp)
  miniVmxSetGuestState
  miniVmxSetConstantHostState

def Event.write? : Event → Option (VmcsField × BitVec 64)
  | .vmwrite _ _ _ f v => some (f, v)
  | _ => none

/-- Their fields, with the values on the executing CPU. -/
def setupWrites (c : MiniVmcsControls) (s : St) : List (VmcsField × BitVec 64) :=
  ((setupBody c).run { s with trace := [] }).2.trace.filterMap Event.write?

/-- One step of the setup, after the VMCS page has been allocated. -/
def setupStep (page : Pfn) (o : SetupCall) : SetupPc → M SetupPc
  | .vmclear => do
    let r ← miniVmclear (pageToPhys page) o.vmclearOk
    return if r ≠ 0 then .freePage r else .vmptrld
  | .vmptrld => do
    let r ← miniVmptrld (pageToPhys page) o.vmptrldOk
    return if r ≠ 0 then .freePage r else .recordCpu
  | .recordCpu => do
    modify fun s => { s with vcpu := { s.vcpu with loadedCpu := some s.cpu } }
    return .computeControls
  | .computeControls => do
    match miniComputeControls (← get).hw.trueCtls o.rdmsr with
    | .error r => return .unload r
    | .ok c => return .value c 0
  | .value c k => do
    match (setupWrites c (← get))[k]? with
    | some (f, v) => return .vmwrite c k f v
    | none => return .unload 0
  | .vmwrite c k f v => do
    let _ ← miniVmwrite f v
    return .value c (k + 1)
  | .unload r => do
    miniVmcsClear o.unloadOk
    return if r ≠ 0 then .freePage r else .returned 0
  | .freePage r => do
    freeVmcsPage page
    return .returned r
  | .returned r => return .returned r

/-! ### All setups -/

/-- A thread in `mini_vcpu_vmx_setup()`.  `loadCpu` and `written` are ghosts: the CPU that has executed the
VMPTRLD, until `mini_vmcs_clear()`, and the VMWRITEs so far. -/
structure SetupThread where
  cpu : CpuId
  vm : VmId
  page : Pfn
  vcpu : MiniKvmVcpu
  call : SetupCall
  pc : SetupPc
  loadCpu : Option CpuId
  written : List (VmcsField × BitVec 64)

/-- The thread after a step that has ended in `s`. -/
def SetupThread.after (t : SetupThread) (pc : SetupPc) (s : St) : SetupThread :=
  { t with
    vcpu := s.vcpu
    pc := pc
    loadCpu :=
      match t.pc, pc with
      | .vmptrld, .recordCpu => some t.cpu
      | .unload _, _ => none
      | _, _ => t.loadCpu
    written :=
      match t.pc with
      | .vmwrite _ _ f v => t.written ++ [(f, v)]
      | _ => t.written }

structure Sched where
  world : World
  setup : VcpuId → Option SetupThread

inductive SchedOp where
  /-- `mini_vcpu_vmx_setup()` up to the allocation of the VMCS page. -/
  | start (u : VcpuId) (m : VmId) (cpu : CpuId) (o : SetupCall)
  | step (u : VcpuId)
  | migrate (u : VcpuId) (cpu : CpuId)
  /-- `mini_kvm_create_vcpu()` goes on with the result. -/
  | finish (u : VcpuId)
  | run (u : VcpuId) (cpu : CpuId) (allocs : List (Option Pfn)) (o : RunCall)
  | teardown (u : VcpuId) (cpu : CpuId) (unloadOk : Bool)

namespace Sched

/-- A call for a vCPU that has been set up. -/
def call (x : Sched) (op : Op) : Sched × List Event :=
  ({ x with world := (x.world.exec op).1 }, (x.world.exec op).2)

/-- One step, with its events.  A step that the vCPU is not at is not made. -/
def exec (x : Sched) : SchedOp → Sched × List Event
  | .start u m cpu o =>
    match x.setup u, x.world.vcpu u, o.page with
    | none, none, some page =>
      let s := ((vmxSetupPage page).run (x.world.call cpu m .fresh [])).2
      ({ world := x.world.finish u m s none
         setup := Function.update x.setup u (some ⟨cpu, m, page, s.vcpu, o, .vmclear, none, []⟩) }, s.trace)
    | _, _, _ => (x, [])
  | .step u =>
    match x.setup u with
    | none => (x, [])
    | some t =>
      let (pc, s) := (setupStep t.page t.call t.pc).run (x.world.call t.cpu t.vm t.vcpu [])
      ({ world := x.world.finish u t.vm s none
         setup := Function.update x.setup u (some (t.after pc s)) }, s.trace)
  | .migrate u cpu =>
    match x.setup u with
    | none => (x, [])
    | some t => ({ x with setup := Function.update x.setup u (some { t with cpu := cpu }) }, [])
  | .finish u =>
    match x.setup u with
    | none => (x, [])
    | some t =>
      match t.pc with
      | .returned r =>
        let v : Option LiveVcpu := if r = 0 then some ⟨t.vm, t.vcpu⟩ else none
        ({ world := { x.world with vcpu := Function.update x.world.vcpu u v }
           setup := Function.update x.setup u none }, [])
      | _ => (x, [])
  | .run u cpu allocs o => x.call (.run u cpu allocs o)
  | .teardown u cpu ok => x.call (.teardown u cpu ok)

def step (x : Sched) (op : SchedOp) : Sched := (x.exec op).1

/-- The events of one step. -/
def events (x : Sched) (op : SchedOp) : List Event := (x.exec op).2

end Sched

end MiniVirt.Kvm
