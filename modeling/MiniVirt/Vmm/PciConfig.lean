import MiniVirt.Vmm.Vfio

/-!
# `minivmm.c`: the configuration space of the passthrough device

`pt_config_read()`, and the device with the region behind its configuration space.  Writes are in
`Vf.ptConfigWrite`.
-/

namespace MiniVirt.Vmm

/-- `bar_type`: what `vfio_setup()` finds in the low bits of a BAR register. -/
def VfioDevice.barType (device : VfioDevice) (b : Nat) : BitVec 32 :=
  if device.barSize b = 0 then 0 else (device.config (0x10 + b * 4)).setWidth 32 &&& 0xf

/-! ### `pt_config_read()` -/

/-- Bytes of the Message Control word, from its byte `pos` on. -/
def readMsgctl (msgctl : BitVec 16) (pos len : Nat) : BitVec 32 :=
  (List.range len).foldl (fun val i => val ||| (((msgctl.setWidth 32 >>> ((pos + i) * 8)) &&& 0xff) <<< (i * 8))) 0

namespace Vf

/-- The BAR register that the byte at `reg` lies in. -/
def barReadTarget (vf : Vf) (reg : Nat) : Option ConfigTarget :=
  (List.range pciNumBars).findSome? fun i =>
    if 0x10 + i * 4 ≤ reg ∧ reg < 0x10 + i * 4 + 4 then
      some (.barLo i)
    else if vf.barIs64 i ∧ 0x10 + i * 4 + 4 ≤ reg ∧ reg < 0x10 + i * 4 + 8 then
      some (.barHi i)
    else none

/-- The dword that a BAR register is read as. -/
def barDword (vf : Vf) (barType : Nat → BitVec 32) (reg : Nat) : Option (BitVec 32) :=
  if 0x10 ≤ reg ∧ reg < 0x28 then
    match vf.barReadTarget reg with
    | some (.barLo b) =>
      if vf.barSize b = 0 then none
      else some (((vf.barVal b).setWidth 32 &&& ~~~((vf.barSize b - 1).setWidth 32)) ||| barType b)
    | some (.barHi b) => if vf.barSize b = 0 then none else some ((vf.barVal b >>> 32).setWidth 32)
    | _ => none
  else none

/-- `pread` reads the region behind the configuration space: `none` for -1. -/
def ptConfigRead (vf : Vf) (barType : Nat → BitVec 32) (pread : Nat → Nat → Option (BitVec 32)) (reg len : Nat) :
    BitVec 32 :=
  if vf.msixCap ≠ 0 ∧ vf.msixCap + 2 ≤ reg ∧ reg + len ≤ vf.msixCap + 4 then
    readMsgctl vf.msixMsgctl (reg - (vf.msixCap + 2)) len
  else
    match vf.barDword barType reg with
    | some r => if len = 4 then r else (r >>> (reg % 4 * 8)) &&& (if len = 2 then 0xffff else 0xff)
    | none => (pread reg len).getD 0xffffffff

/-! ### `handle_pt_mmio()` -/

/-- The BAR and the offset that an access goes to. -/
def decode (vf : Vf) (pa : BitVec 64) : Option (Nat × BitVec 64) := (vf.barHit pa).map fun b => (b, pa - vf.barBase b)

/-- What `handle_pt_mmio()` does once it has the BAR and the offset. -/
def handleBar (vf : Vf) (b : Nat) (off : BitVec 64) (m : Mmio) : PtReply × Vf :=
  if b = 0 then
    vf.handleBar0Legacy off m
  else if vf.TableHit b off m.len then
    let pos := ((off - vf.msixTableOff.setWidth 64).setWidth 32).toNat
    if m.isWrite then
      (.written, vf.tableWrite pos m)
    else
      (.data (vf.msixShadow.read pos m.len), { vf with accesses := vf.accesses ++ [.shadow pos m.len] })
  else vf.forwardMmio b off m

theorem handlePtMmio_decode (vf : Vf) (m : Mmio) :
    vf.handlePtMmio m =
      match vf.decode m.physAddr with
      | some (b, off) => vf.handleBar b off m
      | none => (.unhandled, vf) := by
  unfold handlePtMmio decode handleBar
  cases vf.barHit m.physAddr with
  | none => rfl
  | some b => rfl

end Vf

/-! ### The region behind the configuration space -/

/-- The configuration registers of the device, byte by byte; an access of several bytes is one of its bytes, in
ascending order. -/
structure ConfigRegion where
  State : Type
  read : State → Nat → BitVec 8
  write : State → Nat → BitVec 8 → State

namespace ConfigRegion

variable (R : ConfigRegion)

def pread (r : R.State) (reg len : Nat) : Option (BitVec 32) :=
  some (.ofNat 32 (leNat ((List.range len).map fun i => R.read r (reg + i))))

def pwrite : R.State → Nat → List (BitVec 8) → R.State
  | r, _, [] => r
  | r, reg, b :: bytes => pwrite (R.write r reg b) (reg + 1) bytes

end ConfigRegion

/-- The passthrough device as the guest sees it through its configuration space. -/
structure PciDev (R : ConfigRegion) where
  vf : Vf
  region : R.State

namespace PciDev

variable {R : ConfigRegion}

def read (x : PciDev R) (barType : Nat → BitVec 32) (reg len : Nat) : BitVec 32 :=
  x.vf.ptConfigRead barType (R.pread x.region) reg len

def write (x : PciDev R) (io : Ioctls) (reg len : Nat) (val : BitVec 32) : PciDev R where
  vf := x.vf.ptConfigWrite io reg len val
  region :=
    if x.vf.configTarget reg len = .device then R.pwrite x.region reg (leBytes len val.toNat) else x.region

end PciDev

end MiniVirt.Vmm
