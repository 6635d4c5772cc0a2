import MiniVirt.Kvm.Lifecycle
import MiniVirt.Kvm.Session

/-!
# The EPT caches of the CPUs

A CPU that runs a guest caches translations of its EPT under the EPTP.  `Machine` is the module with
the caches of all CPUs, and its steps are the ioctls and closes of `LifeOp`, the parts of KVM_RUN (on any
number of CPUs at once) and the filling of a cache.  INVEPT empties the cache of its CPU, and nothing else
takes an entry out.

What a KVM_RUN keeps to itself (`run->exit_reason`, the interrupt flag, the preemption count) is not
carried from one part to the next: nothing reads it.
-/

namespace MiniVirt.Kvm

/-- The translation of the page of `gpa` under `eptp`: the last-level entry `leaf`, with the host page. -/
structure CacheEntry where
  eptp : BitVec 64
  gpa : BitVec 64
  leaf : BitVec 64
  deriving DecidableEq

/-- Where a vCPU is in KVM_RUN. -/
inductive RunPhase where
  | idle
  | loop (cpu : CpuId)
  /-- The guest runs with the EPTP that the entry has loaded. -/
  | guest (cpu : CpuId) (gsShadow : BitVec 64) (eptp : BitVec 64)
  deriving DecidableEq

structure Machine where
  kernel : Kernel
  phase : VcpuPtr → RunPhase
  cache : CpuId → List CacheEntry

inductive MachineOp where
  /-- An ioctl or a close; KVM_RUN is made in parts. -/
  | life (op : LifeOp)
  /-- KVM_RUN up to the loop. -/
  | begin (fd : Fd) (cpu : CpuId) (o : RunCall)
  /-- One iteration up to the entry. -/
  | enter (v : VcpuPtr)
  /-- The CPU of a guest that runs caches the translation of `gpa`. -/
  | fill (v : VcpuPtr) (gpa : BitVec 64)
  /-- The outcome of the entry and the rest of the iteration. -/
  | exit (v : VcpuPtr) (allocs : List (Option Pfn)) (o : EntryOutcome)

namespace Machine

/-- The vCPU of an open descriptor is in KVM_RUN, which holds a reference to the file. -/
def running (x : Machine) (fd : Fd) : Bool :=
  match x.kernel.files.lookup fd with
  | some (.vcpu v) => x.phase v ≠ .idle
  | _ => false

/-- The caches after a call that has ended in `s`: an INVEPT empties that of the CPU that executes it. -/
def flushed (x : Machine) (s : St) (c : CpuId) : List CacheEntry := if c ∈ s.invepts then [] else x.cache c

/-- The phase after a part of KVM_RUN on `cpu` that has returned `r`. -/
def phaseAfter (cpu : CpuId) (r : Option Int) : RunPhase := if r.isNone then .loop cpu else .idle

/-- One step.  A step that does not fit the phase is not made. -/
def step (x : Machine) : MachineOp → Machine
  | .life op =>
    match op with
    | .run .. => x
    | .close fd .. => if x.running fd then x else { x with kernel := x.kernel.step op }
    | .createVm _ | .setMemregion .. | .createVcpu .. => { x with kernel := x.kernel.step op }
  | .begin fd cpu o =>
    match x.kernel.files.lookup fd with
    | some (.vcpu v) =>
      if x.phase v = .idle then
        let (r, kernel) := (onVcpu v cpu [] (Session.runHead o)).run x.kernel
        { kernel := kernel
          phase := Function.update x.phase v (phaseAfter cpu r)
          cache := x.flushed ((Session.runHead o).run (x.kernel.call cpu v [])).2 }
      else x
    | _ => x
  | .enter v =>
    match x.phase v with
    | .loop cpu =>
      let (gsShadow, kernel) := (onVcpu v cpu [] runLoopEnter).run x.kernel
      { x with
        kernel := kernel
        phase := Function.update x.phase v
          (.guest cpu gsShadow ((kernel.call cpu v []).field .eptPointer)) }
    | _ => x
  | .fill v gpa =>
    match x.phase v with
    | .guest cpu _ eptp =>
      match hwWalk x.kernel.hw.mem eptp gpa with
      | .leaf e => { x with cache := Function.update x.cache cpu (⟨eptp, gpa, e⟩ :: x.cache cpu) }
      | _ => x
    | _ => x
  | .exit v allocs o =>
    match x.phase v with
    | .guest cpu gsShadow _ =>
      let (r, kernel) := (onVcpu v cpu allocs (runLoopExit gsShadow o)).run x.kernel
      { x with kernel := kernel, phase := Function.update x.phase v (phaseAfter cpu r) }
    | _ => x

end Machine

end MiniVirt.Kvm
