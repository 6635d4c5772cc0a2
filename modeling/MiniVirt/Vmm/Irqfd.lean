import MiniVirt.Vmm.State

/-!
# `minivmm -e`: the worker thread against the guest's interrupt handler

With `-e`, `service_vq()` runs on the `virtio_worker()` thread and its interrupt is a write to an
eventfd, which KVM turns into a pulse.  A step here is one of the worker's accesses to what it shares
with the vCPU thread, or one of the driver's: the load and the store of each update of `int_status`
are two steps.  Pulses that the guest has not taken coalesce.
-/

namespace MiniVirt.Vmm

/-- Where the worker is in `virtio_raise_irq()`. -/
inductive RaisePc where
  | none
  /-- `int_status` is loaded. -/
  | loaded (v : BitVec 32)
  /-- `int_status` is stored, the eventfd not yet written. -/
  | stored
  deriving DecidableEq

/-- Where the driver's interrupt handler is. -/
inductive HandlerPc where
  | idle
  | started
  /-- INT_STATUS read as `v`, not 0. -/
  | read (v : BitVec 32)
  /-- The write of `v` to INT_ACK has loaded `int_status`. -/
  | acking (v x : BitVec 32)
  /-- Consuming used entries. -/
  | draining
  deriving DecidableEq

/-- The state that the two threads share, and where they are. -/
structure Irqfd where
  intStatus : BitVec 32
  /-- `did` of the calls of `service_vq()` that are going on, the innermost first. -/
  calls : List Bool
  raise : RaisePc
  handler : HandlerPc
  /-- A pulse is outstanding: no handler has started since the eventfd was written. -/
  pulse : Bool
  /-- How many used entries there are. -/
  pushed : Nat
  /-- How many of them the driver has consumed. -/
  consumed : Nat

def Irqfd.initial : Irqfd where
  intStatus := 0
  calls := []
  raise := .none
  handler := .idle
  pulse := false
  pushed := 0
  consumed := 0

inductive IrqfdStep where
  /-- A call of `service_vq()`, by the worker or by the transmit handler of the console. -/
  | call
  | push
  /-- The end of a call that has pushed nothing. -/
  | ret
  | load
  | store
  /-- The write to the eventfd, with which a call ends that has pushed something. -/
  | pulse
  | start
  | readStatus
  | ackLoad
  | ackStore
  | consume
  | finish
  deriving DecidableEq

/-- A step, `none` where it cannot be taken. -/
def Irqfd.step (s : Irqfd) : IrqfdStep → Option Irqfd
  | .call =>
    match s.raise with
    | .none => some { s with calls := false :: s.calls }
    | _ => none
  | .push =>
    match s.calls, s.raise with
    | _ :: cs, .none => some { s with calls := true :: cs, pushed := s.pushed + 1 }
    | _, _ => none
  | .ret =>
    match s.calls, s.raise with
    | false :: cs, .none => some { s with calls := cs }
    | _, _ => none
  | .load =>
    match s.calls, s.raise with
    | true :: _, .none => some { s with raise := .loaded s.intStatus }
    | _, _ => none
  | .store =>
    match s.raise with
    | .loaded v => some { s with intStatus := v ||| vmmioIntVring, raise := .stored }
    | _ => none
  | .pulse =>
    match s.calls, s.raise with
    | true :: cs, .stored => some { s with calls := cs, raise := .none, pulse := true }
    | _, _ => none
  | .start =>
    match s.handler with
    | .idle => some { s with handler := .started, pulse := false }
    | _ => none
  | .readStatus =>
    match s.handler with
    | .started => some { s with handler := if s.intStatus = 0 then .idle else .read s.intStatus }
    | _ => none
  | .ackLoad =>
    match s.handler with
    | .read v => some { s with handler := .acking v s.intStatus }
    | _ => none
  | .ackStore =>
    match s.handler with
    | .acking v x => some { s with intStatus := x &&& ~~~v, handler := .draining }
    | _ => none
  | .consume =>
    match s.handler with
    | .draining => if s.consumed < s.pushed then some { s with consumed := s.consumed + 1 } else none
    | _ => none
  | .finish =>
    match s.handler with
    | .draining => if s.consumed < s.pushed then none else some { s with handler := .idle }
    | _ => none

/-- The state after a sequence of steps, `none` if one of them cannot be taken. -/
def Irqfd.run (s : Irqfd) (ls : List IrqfdStep) : Option Irqfd := ls.foldlM Irqfd.step s

end MiniVirt.Vmm
