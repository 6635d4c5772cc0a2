import MiniVirt.Lib.ByteMem
import MiniVirt.Lib.StateLoop
import Mathlib.Logic.Function.Basic

/-!
# The state of `minivmm.c`

Guest RAM, the two virtio-mmio devices, the echo FIFO of the console and the file behind the block
device.  The device model is written in `V`, the state monad over `St`; a pointer into `guest_mem`
is its offset.  `St.trace` records every access to guest RAM and what the outside world sees.
-/

namespace MiniVirt.Vmm

/-! ### Constants -/

def vringDescFNext : BitVec 16 := 1
def vringDescFWrite : BitVec 16 := 2
def vringNumMax : Nat := 256
def vqMax : Nat := 4
def vqMaxSegs : Nat := 64

def vmmioMagicValue : BitVec 64 := 0x74726976
def vmmioIntVring : BitVec 32 := 1

def virtioIdBlk : BitVec 32 := 2
def virtioIdConsole : BitVec 32 := 3
def virtioFVersion1Bit : Nat := 32

def virtioBlkTIn : Nat := 0
def virtioBlkTOut : Nat := 1
def virtioBlkTFlush : Nat := 4
def virtioBlkSOk : Nat := 0
def virtioBlkSIoerr : Nat := 1
def virtioBlkSUnsupp : Nat := 2

/-- `CON_IN_SZ`. -/
def conInSz : Nat := 8192

/-! ### Devices -/

/-- `vdev_console` and `vdev_blk`. -/
inductive Dev where
  | console | blk
  deriving DecidableEq, Inhabited

namespace Dev

def base : Dev → BitVec 64
  | console => 0xd0000000
  | blk => 0xd0000200

def gsi : Dev → Nat
  | console => 5
  | blk => 6

def deviceId : Dev → BitVec 32
  | console => virtioIdConsole
  | blk => virtioIdBlk

def devFeatures : Dev → BitVec 64
  | console => 1 <<< virtioFVersion1Bit
  | blk => 1 <<< virtioFVersion1Bit

/-- Queue 0 of the console receives, queue 1 transmits. -/
def nqueues : Dev → Nat
  | console => 2
  | blk => 1

def configLen : Dev → Nat
  | console => 12
  | blk => 8

end Dev

/-- `struct vq`. -/
structure Vq where
  num : BitVec 32
  desc : BitVec 64
  avail : BitVec 64
  used : BitVec 64
  ready : BitVec 32
  lastAvailIdx : BitVec 16
  deriving DecidableEq

def Vq.zero : Vq where
  num := 0
  desc := 0
  avail := 0
  used := 0
  ready := 0
  lastAvailIdx := 0

/-- `struct virtio_dev`, less the fields that never change. -/
structure VirtioDev where
  status : BitVec 32
  intStatus : BitVec 32
  drvFeatures : BitVec 64
  devFeatSel : BitVec 32
  drvFeatSel : BitVec 32
  queueSel : BitVec 32
  vq : Nat → Vq
  config : ByteMem

/-- `con_in`, with free-running counters. -/
structure ConIn where
  buf : ByteMem
  head : BitVec 32
  tail : BitVec 32

/-- What the kernel makes of a `pread()` or `pwrite()`. -/
inductive Io where
  /-- It fails: `EIO`, `ENOSPC`, `EFBIG`, `EINVAL` for an end that no `off_t` can express. -/
  | error
  /-- It stops after `n` bytes: the disk is full, or the limit of the file size is reached, and in any call after
  `maxRwCount` bytes. -/
  | upTo (n : Nat)
  deriving DecidableEq

/-- `MAX_RW_COUNT`: no call transfers more. -/
def maxRwCount : Nat := 0x7ffff000

/-- `struct blk_backend`: the content of the file and the capacity in sectors. -/
structure BlkBackend where
  content : List (BitVec 8)
  capacity : BitVec 64
  /-- What becomes of the coming calls on `fd`; those that are not listed transfer all they can. -/
  ios : List Io

/-! ### The program state -/

/-- What the record of a run is about. -/
inductive Event where
  /-- A read of the `len` bytes of guest RAM from `off` on. -/
  | read (off len : Nat)
  /-- A write to the `len` bytes of guest RAM from `off` on. -/
  | write (off len : Nat)
  /-- Bytes for stdout. -/
  | stdout (l : List (BitVec 8))
  /-- `kvm_irq_line()`. -/
  | irqLine (gsi : Nat) (level : Bool)
  /-- A write to the irqfd of the device. -/
  | irqfd (d : Dev)
  /-- `push_used()` has written an element to the used ring and moved the index on. -/
  | used (d : Dev) (qi : Nat) (head : BitVec 16) (len : BitVec 32)
  /-- `service_vq()` is done with the entry that it has read at `slot`. -/
  | consumed (d : Dev) (qi slot : Nat) (head : BitVec 16)
  deriving DecidableEq

structure St where
  /-- `guest_mem`. -/
  mem : ByteMem
  memSize : BitVec 64
  dev : Dev → VirtioDev
  conIn : ConIn
  blk : BlkBackend
  useEventfd : Bool
  /-- The bytes that uninitialised local variables will hold. -/
  stale : ByteMem
  trace : List Event

abbrev V := StateM St

def St.log (s : St) (e : Event) : St := { s with trace := s.trace ++ [e] }

def emit (e : Event) : V Unit := modify fun s => s.log e

@[simp]
theorem St.log_mem (s : St) (e : Event) : (s.log e).mem = s.mem := rfl

@[simp]
theorem St.log_memSize (s : St) (e : Event) : (s.log e).memSize = s.memSize := rfl

theorem emit_run (e : Event) (s : St) : (emit e).run s = ((), s.log e) := rfl

/-- Queue `qi` of device `d`. -/
def St.vq (s : St) (d : Dev) (qi : Nat) : Vq := (s.dev d).vq qi

def St.setDev (s : St) (d : Dev) (v : VirtioDev) : St :=
  { s with dev := Function.update s.dev d v }

def VirtioDev.setVq (v : VirtioDev) (qi : Nat) (q : Vq) : VirtioDev :=
  { v with vq := Function.update v.vq qi q }

@[simp]
theorem St.dev_setDev_self (s : St) (d : Dev) (v : VirtioDev) : (s.setDev d v).dev d = v := by
  show Function.update s.dev d v d = v
  exact Function.update_self ..

theorem St.dev_setDev_of_ne {d d' : Dev} (h : d' ≠ d) (s : St) (v : VirtioDev) :
    (s.setDev d v).dev d' = s.dev d' := by
  show Function.update s.dev d v d' = s.dev d'
  exact Function.update_of_ne h ..

theorem St.setDev_setDev (s : St) (d : Dev) (v w : VirtioDev) :
    (s.setDev d v).setDev d w = s.setDev d w := by
  unfold St.setDev
  congr 1
  exact Function.update_idem ..

@[simp]
theorem VirtioDev.vq_setVq_self (v : VirtioDev) (qi : Nat) (q : Vq) : (v.setVq qi q).vq qi = q := by
  show Function.update v.vq qi q qi = q
  exact Function.update_self ..

theorem VirtioDev.vq_setVq_of_ne {qi i : Nat} (h : i ≠ qi) (v : VirtioDev) (q : Vq) :
    (v.setVq qi q).vq i = v.vq i := by
  show Function.update v.vq qi q i = v.vq i
  exact Function.update_of_ne h ..

def modifyDev (d : Dev) (f : VirtioDev → VirtioDev) : V Unit :=
  modify fun s => s.setDev d (f (s.dev d))

def modifyVq (d : Dev) (qi : Nat) (f : Vq → Vq) : V Unit :=
  modifyDev d fun v => v.setVq qi (f (v.vq qi))

/-- The next `n` bytes of an uninitialised local variable. -/
def takeStale (n : Nat) : V (List (BitVec 8)) := do
  let s ← get
  set { s with stale := fun i => s.stale (n + i) }
  return s.stale.read 0 n

/-! ### Guest RAM -/

/-- `gpa2hva()`: the offset of the range, if it lies in guest RAM. -/
def gpa2hva (memSize gpa len : BitVec 64) : Option Nat :=
  if gpa + len < gpa ∨ memSize < gpa + len then none else some gpa.toNat

def guestRead (off n : Nat) : V (List (BitVec 8)) := do
  emit (.read off n)
  return (← get).mem.read off n

def guestLoad (off n : Nat) : V Nat := do
  emit (.read off n)
  return (← get).mem.load off n

def guestWrite (off : Nat) (l : List (BitVec 8)) : V Unit := do
  emit (.write off l.length)
  modify fun s => { s with mem := s.mem.write off l }

def guestStore (off n v : Nat) : V Unit := guestWrite off (leBytes n v)

/-! ### Interrupts -/

def kvmIrqLine (gsi : Nat) (level : Bool) : V Unit := emit (.irqLine gsi level)

def virtioRaiseIrq (d : Dev) : V Unit := do
  modifyDev d fun v => { v with intStatus := v.intStatus ||| vmmioIntVring }
  if (← get).useEventfd then
    emit (.irqfd d)
  else
    kvmIrqLine d.gsi true

def virtioLowerIrq (d : Dev) : V Unit := do
  let s ← get
  if s.useEventfd then
    return
  else if (s.dev d).intStatus = 0 then
    kvmIrqLine d.gsi false
  else
    return

end MiniVirt.Vmm
