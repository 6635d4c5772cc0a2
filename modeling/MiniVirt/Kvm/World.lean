import MiniVirt.Kvm.Vcpu

/-!
# Any number of VMs

A `World` is the machine with all VMs and vCPUs of the module.  `World.step` is one call:
`mini_vcpu_vmx_setup()` for a new vCPU (from KVM_CREATE_VCPU), `mini_vcpu_run_loop()` (KVM_RUN) or
`mini_vcpu_vmx_teardown()` (the release of a vCPU), on a CPU that is chosen freely and from which
the call does not migrate.
-/

namespace MiniVirt.Kvm

abbrev VmId := Nat
abbrev VcpuId := Nat

/-- A vCPU that has been set up, with the VM it belongs to. -/
structure LiveVcpu where
  vm : VmId
  vcpu : MiniKvmVcpu

structure World where
  hw : Hw
  kvm : VmId → MiniKvm
  /-- The vCPUs between their setup and their teardown. -/
  vcpu : VcpuId → Option LiveVcpu
  /-- The events of all calls so far. -/
  trace : List Event

inductive Op where
  | setup (u : VcpuId) (m : VmId) (cpu : CpuId) (o : SetupCall)
  | run (u : VcpuId) (cpu : CpuId) (allocs : List (Option Pfn)) (o : RunCall)
  | teardown (u : VcpuId) (cpu : CpuId) (unloadOk : Bool)

namespace World

/-- The state in which a call for the vCPU `v` of the VM `m` starts on `cpu`. -/
def call (w : World) (cpu : CpuId) (m : VmId) (v : MiniKvmVcpu) (allocs : List (Option Pfn)) : St where
  cpu := cpu
  hw := w.hw
  kvm := w.kvm m
  vcpu := v
  exitReason := .unknown
  irqsOff := false
  preemptCount := 0
  allocs := allocs
  trace := []
  vmcsClears := []
  invepts := []
  ioOuts := []
  lineCopies := []

/-- The world after a call for the vCPU `u` that ended in `s`; `v` is what is left of the vCPU. -/
def finish (w : World) (u : VcpuId) (m : VmId) (s : St) (v : Option MiniKvmVcpu) : World where
  hw := s.hw
  kvm := Function.update w.kvm m s.kvm
  vcpu := Function.update w.vcpu u (v.map (⟨m, ·⟩))
  trace := w.trace ++ s.trace

/-- One call, with its events.  A setup of a vCPU that exists and a call for one that does not are
not made. -/
def exec (w : World) : Op → World × List Event
  | .setup u m cpu o =>
    match w.vcpu u with
    | some _ => (w, [])
    | none =>
      let (r, s) := (miniVcpuVmxSetup o).run (w.call cpu m .fresh [])
      (w.finish u m s (if r = 0 then some s.vcpu else none), s.trace)
  | .run u cpu allocs o =>
    match w.vcpu u with
    | none => (w, [])
    | some ⟨m, v⟩ =>
      let (_, s) := (miniVcpuRunLoop o).run (w.call cpu m v allocs)
      (w.finish u m s (some s.vcpu), s.trace)
  | .teardown u cpu ok =>
    match w.vcpu u with
    | none => (w, [])
    | some ⟨m, v⟩ =>
      let (_, s) := (miniVcpuVmxTeardown ok).run (w.call cpu m v [])
      (w.finish u m s none, s.trace)

def step (w : World) (op : Op) : World := (w.exec op).1

/-- The events of one call. -/
def events (w : World) (op : Op) : List Event := (w.exec op).2

end World

end MiniVirt.Kvm
