import MiniVirt.Vmm.PciBus
import MiniVirt.Vmm.Running
import MiniVirt.Vmm.VirtioMmio

/-!
# `minivmm.c`: the exits to the VMM

`handle_io()`, the dispatch of KVM_EXIT_MMIO and `run_loop()` over the state of all devices.  A result `none`
stands for a call that never returns.
-/

namespace MiniVirt.Vmm

/-! ### The state -/

structure MiniVmm where
  serial : Serial
  virtio : St
  pci : PciBus
  exitCounts : Nat → Nat
  /-- `run_loop()` is in KVM_RUN, not at the head of the loop. -/
  inRun : Bool

def MiniVmm.running (s : MiniVmm) : Bool := s.serial.console.running

/-! ### `handle_io()` -/

def com1Base : BitVec 16 := 0x3f8
def com1NrRegs : BitVec 16 := 8

/-- The port is one of COM1. -/
def Com1Port (port : BitVec 16) : Prop := com1Base ≤ port ∧ port < com1Base + com1NrRegs

instance (port : BitVec 16) : Decidable (Com1Port port) := inferInstanceAs (Decidable (_ ∧ _))

/-- The port is one of COM2, COM3 or COM4. -/
def OtherComPort (port : BitVec 16) : Prop :=
  0x2e8 ≤ port ∧ port < 0x2f0 ∨ 0x2f8 ≤ port ∧ port < 0x300 ∨ 0x3e8 ≤ port ∧ port < 0x3f0

instance (port : BitVec 16) : Decidable (OtherComPort port) := inferInstanceAs (Decidable (_ ∨ _ ∨ _))

/-- `serial_io()`: `none` for -1, else `*val` afterwards. -/
def serialIo (s : Serial) (port : BitVec 16) (isWrite : Bool) (val : BitVec 8) : Option (BitVec 8 × Serial) :=
  if Com1Port port then
    let reg := (port - com1Base).setWidth 8
    if isWrite then some (val, serialWriteReg s reg val) else some (serialReadReg s reg)
  else if OtherComPort port then
    some (if isWrite then val else 0xff, s)
  else none

def genericIoIn : IoSize → BitVec 32
  | .dword => 0xffffffff
  | .word => 0xffff
  | .byte => 0xff

namespace MiniVmm

/-- `serial_io()`, then `power_io()`: `none` if neither has handled the access, else `val` afterwards. -/
def byteIo (port : BitVec 16) (isWrite : Bool) (val : BitVec 8) (s : Serial) : Option (BitVec 8 × Serial) :=
  match serialIo s port isWrite val with
  | some y => some y
  | none => (powerIo s.console.running port isWrite val).map fun y => (y.1, s.setRunning y.2)

/-- A round of the loop of `handle_io()` past `pci_config_io()`: what is at `p` afterwards. -/
def ioByte (port : BitVec 16) (isWrite : Bool) (size : IoSize) (x : BitVec 32) (s : MiniVmm) : BitVec 32 × MiniVmm :=
  match byteIo port isWrite (if isWrite then x.setWidth 8 else 0) s.serial with
  | some (val, serial) => (if isWrite then x else size.trunc (val.setWidth 32), { s with serial := serial })
  | none => (if isWrite then x else size.trunc (genericIoIn size), s)

/-- A round of the loop of `handle_io()`, for the item `x` at `p`. -/
def ioItem (a : PtAnswers) (port : BitVec 16) (isWrite : Bool) (size : IoSize) (x : BitVec 32) (s : MiniVmm) :
    BitVec 32 × MiniVmm :=
  if port = pciCfgAddrPort ∨ PciDataPort port then
    match s.pci.pciConfigIo a port isWrite (if isWrite then size.trunc x else 0) size with
    | some (wv, pci) => (if isWrite then x else size.trunc wv, { s with pci := pci })
    | none => ioByte port isWrite size x s
  else ioByte port isWrite size x s

/-- The loop of `handle_io()`, over the items of the data area with the answers that each of them meets. -/
def handleIo (port : BitVec 16) (isWrite : Bool) (size : IoSize) :
    List (BitVec 32 × PtAnswers) → MiniVmm → List (BitVec 32) × MiniVmm
  | [], s => ([], s)
  | (x, a) :: items, s =>
    let (x', s) := ioItem a port isWrite size x s
    let (xs, s) := handleIo port isWrite size items s
    (x' :: xs, s)

/-! ### KVM_EXIT_MMIO -/

/-- `handle_virtio_mmio()` in a window: `run->mmio.data` afterwards. -/
def virtioMmio (d : Dev) (m : Mmio) (s : St) : Option (List (BitVec 8) × St) :=
  let off := (m.physAddr - d.base).toNat
  if m.isWrite then
    match (virtioMmioWrite d off m.len (.ofNat 64 (leNat m.data))).run s with
    | (none, _) => none
    | (some (), s) => some (m.data, s)
  else some (leBytes m.len (virtioMmioRead s d off m.len).toNat, s)

/-- What `run_loop()` does for KVM_EXIT_MMIO. -/
def handleMmio (a : PtAnswers) (m : Mmio) (s : MiniVmm) : Option (List (BitVec 8) × MiniVmm) :=
  match virtioWindow m.physAddr with
  | some d => (virtioMmio d m s.virtio).map fun y => (y.1, { s with virtio := y.2 })
  | none =>
    match s.pci.ptMmio a m with
    | some (data, pci) => some (data, { s with pci := pci })
    | none => some (if m.isWrite then m.data else List.replicate m.len 0, s)

end MiniVmm

/-! ### `run_loop()` -/

/-- What a KVM_RUN returns with: `run->exit_reason` and what goes with it. -/
inductive KvmRun where
  | io (port : BitVec 16) (isWrite : Bool) (size : IoSize) (items : List (BitVec 32 × PtAnswers))
  | hlt
  | mmio (m : Mmio) (a : PtAnswers)
  | shutdown
  | failEntry
  | internalError
  /-- Another exit reason. -/
  | other (reason : Nat)
  /-- KVM_RUN fails with EINTR. -/
  | eintr
  /-- KVM_RUN fails with another error. -/
  | error

/-- The `KVM_EXIT_*` number. -/
def KvmRun.reason : KvmRun → Option Nat
  | .io .. => some 2
  | .hlt => some 5
  | .mmio .. => some 6
  | .shutdown => some 8
  | .failEntry => some 9
  | .internalError => some 17
  | .other reason => some reason
  | .eintr | .error => none

/-- What the guest finds after an exit: the data area of a port access, or the data of an MMIO access. -/
inductive Reply where
  | items (l : List (BitVec 32))
  | data (l : List (BitVec 8))
  | nothing
  deriving DecidableEq

/-- How `run_loop()` ends. -/
inductive LoopEnd where
  /-- `running` is 0 at the head of the loop. -/
  | stopped
  /-- KVM_EXIT_SHUTDOWN. -/
  | shutdown
  /-- `DIE()`. -/
  | died
  /-- A handler never returns. -/
  | hung
  deriving DecidableEq

namespace MiniVmm

/-- `exit_counts[run->exit_reason]++`. -/
def count (s : MiniVmm) (e : KvmRun) : MiniVmm :=
  match e.reason with
  | some r => if r < 64 then { s with exitCounts := Function.update s.exitCounts r (s.exitCounts r + 1) } else s
  | none => s

/-- The `switch (run->exit_reason)`, and the handling of a KVM_RUN that fails. -/
def handleExit (e : KvmRun) (s : MiniVmm) : Reply × MiniVmm × Option LoopEnd :=
  match e with
  | .io port isWrite size items =>
    let (l, s) := handleIo port isWrite size items s
    (.items l, s, none)
  | .mmio m a =>
    match handleMmio a m s with
    | some (data, s) => (.data data, s, none)
    | none => (.nothing, s, some .hung)
  | .hlt | .other _ | .eintr => (.nothing, s, none)
  | .shutdown => (.nothing, s, some .shutdown)
  | .failEntry | .internalError | .error => (.nothing, s, some .died)

/-- What the threads of the program and the guest do, one at a time. -/
inductive Op where
  /-- The loop looks at `running`, and calls KVM_RUN. -/
  | enter
  /-- KVM_RUN returns with `e`, and the rest of the body of the loop is done. -/
  | exit (e : KvmRun)
  /-- `input_thread()` has read these bytes. -/
  | input (l : List (BitVec 8))
  /-- `virtio_worker()` calls `service_vq()`. -/
  | service (d : Dev) (qi : Nat)
  /-- The guest, or the passthrough device, writes to RAM. -/
  | ram (off : Nat) (l : List (BitVec 8))
  /-- `on_signal()`. -/
  | signal

/-- One step, with the end of `run_loop()` if it comes to it.  An `enter` or an `exit` that does not fit is not
made. -/
def step (s : MiniVmm) : Op → Reply × MiniVmm × Option LoopEnd
  | .enter =>
    if s.inRun then (.nothing, s, none)
    else if s.running then (.nothing, { s with inRun := true }, none)
    else (.nothing, s, some .stopped)
  | .exit e => if s.inRun then handleExit e { s.count e with inRun := false } else (.nothing, s, none)
  | .input l => (.nothing, { s with serial := l.foldl serialRecv s.serial }, none)
  | .service d qi =>
    match (serviceVq d qi).run s.virtio with
    | (none, _) => (.nothing, s, some .hung)
    | (some (), v) => (.nothing, { s with virtio := v }, none)
  | .ram off l => (.nothing, { s with virtio := { s.virtio with mem := s.virtio.mem.write off l } }, none)
  | .signal => (.nothing, { s with serial := s.serial.setRunning false }, none)

/-- The steps up to the end of `run_loop()`, with the replies to the guest. -/
def runLoop : MiniVmm → List Op → List Reply × MiniVmm × Option LoopEnd
  | s, [] => ([], s, none)
  | s, op :: ops =>
    match s.step op with
    | (r, s, some e) => ([r], s, some e)
    | (r, s, none) =>
      let (l, y) := runLoop s ops
      (r :: l, y)

end MiniVmm

end MiniVirt.Vmm
