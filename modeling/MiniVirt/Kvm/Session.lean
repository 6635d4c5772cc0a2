import MiniVirt.Kvm.Vcpu

/-!
# One vCPU, step by step

`vcpu->mutex` lets one ioctl of a vCPU in at a time.  A `Session` is a vCPU at a point where other
code runs: between two ioctls, at the head of the run loop, or with the guest running.  Its steps
are MINI_KVM_VCPU_INJECT_IRQ and the three parts of KVM_RUN.

`accepted` and `delivered` are ghosts: the vectors of the requests that returned 0, and of the
external interrupts that reached the guest, in order.
-/

namespace MiniVirt.Kvm

inductive Phase where
  /-- Between two ioctls. -/
  | idle
  /-- At the head of the run loop. -/
  | loop
  /-- The guest runs; the host's IA32_KERNEL_GS_BASE is kept meanwhile. -/
  | guest (gsShadow : BitVec 64)
  deriving DecidableEq

structure Session where
  s : St
  phase : Phase
  accepted : List (BitVec 8)
  delivered : List (BitVec 8)

inductive Input where
  /-- MINI_KVM_VCPU_INJECT_IRQ. -/
  | injectIrq (vector : Int)
  /-- KVM_RUN on the CPU `cpu`, up to the loop; `o` gives the results of its VMCLEAR and VMPTRLD. -/
  | run (cpu : CpuId) (allocs : List (Option Pfn)) (o : RunCall)
  /-- One iteration up to the entry. -/
  | enter
  /-- A true VM exit and the rest of the iteration; `delivered` says whether the event that was
  injected, if any, reached the guest. -/
  | exit (i : ExitInfo) (delivered : Bool)

/-! ### Events -/

/-- Bit 31 of an interruption information. -/
def infoValid (info : BitVec 64) : Prop := info &&& 0x80000000 ≠ 0

/-- Bits 10:8 of an interruption information; 0 is "external interrupt". -/
def infoType (info : BitVec 64) : BitVec 64 := info >>> 8 &&& 7

def infoVector (info : BitVec 64) : BitVec 8 := info.setWidth 8

instance (info : BitVec 64) : Decidable (infoValid info) := inferInstanceAs (Decidable (_ ≠ _))

/-- The vector of a valid interruption information whose type is "external interrupt". -/
def extVector (info : BitVec 64) : Option (BitVec 8) :=
  if infoValid info ∧ infoType info = 0 then some (infoVector info) else none

namespace Session

/-- The external interrupt in the event slot. -/
def inSlot (x : Session) : Option (BitVec 8) := extVector (x.s.vcpu.pendingIntrInfo.setWidth 64)

/-- The external interrupt in the VM-entry field of the entry in progress. -/
def inEntry (x : Session) : Option (BitVec 8) :=
  match x.phase with
  | .guest _ => extVector (x.s.field .vmEntryIntrInfoField)
  | _ => none

/-! ### Steps -/

/-- What a part of KVM_RUN leaves: with a result KVM_RUN ends, without one it goes on. -/
def afterPart (x : Session) (y : Option Int × St) : Session :=
  match y with
  | (none, s) => { x with s := s, phase := .loop }
  | (some _, s) => { x with s := (preemptEnable.run s).2, phase := .idle }

/-- KVM_RUN up to the loop. -/
def runHead (o : RunCall) : M (Option Int) := do
  setExitReason .unknown
  preemptDisable
  runLoopLoad o

/-- One step.  An input that does not fit the phase is not made. -/
def step (x : Session) : Input → Session
  | .injectIrq vector =>
    if x.phase = .idle then
      let r := (miniVcpuInjectIrq vector).run x.s
      { x with
        s := r.2
        accepted := if r.1 = 0 then x.accepted ++ [BitVec.ofInt 8 vector] else x.accepted }
    else x
  | .run cpu allocs o =>
    if x.phase = .idle then
      x.afterPart ((runHead o).run { x.s with cpu := cpu, allocs := allocs })
    else x
  | .enter =>
    if x.phase = .loop then
      let r := runLoopEnter.run x.s
      { x with s := r.2, phase := .guest r.1 }
    else x
  | .exit i delivered =>
    match x.phase with
    | .guest gsShadow =>
      { x.afterPart ((runLoopExit gsShadow (.exit i)).run x.s) with
        delivered := if delivered then x.delivered ++ x.inEntry.toList else x.delivered }
    | _ => x

end Session

end MiniVirt.Kvm
