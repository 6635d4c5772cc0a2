import MiniVirt.Lib.ByteMem
import Mathlib.Logic.Function.Basic

/-!
# `minivmm.c`: VFIO passthrough

The part of `vf` that the MSI-X code uses, what `vfio_setup()` reads from the device, the writes to
its configuration space and the dispatch of a KVM_EXIT_MMIO to its BARs.  `Vf.accesses` records every
index into `msix_shadow` and into the local array `regs`; what KVM and VFIO have been told last stands
in `routing`, `irqfds` and `irqs`.
-/

namespace MiniVirt.Vmm

def pciNumBars : Nat := 6
def msixGsiBase : Nat := 24

/-- `sizeof(vf.msix_shadow)`. -/
def msixShadowSize : Nat := 32 * 16

/-- `sizeof(regs)` in `handle_bar0_legacy()`. -/
def regsSize : Nat := 4

/-! ### The state -/

/-- An access to an array of the program. -/
inductive HostAccess where
  | shadow (pos len : Nat)
  | regs (pos len : Nat)
  deriving DecidableEq

/-- An entry of a `struct kvm_irq_routing`. -/
inductive RouteEntry where
  | irqchip (gsi irqchip pin : Nat)
  | msi (gsi addressLo addressHi data : Nat)
  deriving DecidableEq

def kvmIrqchipPicMaster : Nat := 0
def kvmIrqchipPicSlave : Nat := 1
def kvmIrqchipIoapic : Nat := 2

structure Vf where
  /-- The file offset of a region, for the regions that the device has. -/
  region : Nat → Option (BitVec 64)
  barSize : Nat → BitVec 64
  barIs64 : Nat → Bool
  barVal : Nat → BitVec 64
  msixCfgVec : BitVec 16
  msixQVec : BitVec 16
  msixCap : Nat
  msixNr : Nat
  msixNr_le : msixNr ≤ 2048
  msixTableOff : BitVec 32
  msixTableBar : Nat
  msixShadow : ByteMem
  msixMsgctl : BitVec 16
  msixEfd : Nat → Int
  msixRoutingDone : Bool
  ptNotifies : BitVec 64
  ptNotifyLast : BitVec 16
  ptCtrlFwd : BitVec 64
  msixSlowpath : Bool
  /-- The descriptor that `eventfd()` returns next. -/
  nextFd : Nat
  /-- The table last passed to KVM_SET_GSI_ROUTING. -/
  routing : Option (List RouteEntry)
  /-- The descriptors and GSIs that KVM_IRQFD has bound. -/
  irqfds : List (Int × Nat)
  /-- The descriptors that VFIO_DEVICE_SET_IRQS has taken over. -/
  irqs : Option (List Int)
  /-- The writes to the device: file offset and bytes. -/
  pwrites : List (BitVec 64 × List (BitVec 8))
  accesses : List HostAccess

/-! ### `vfio_setup()` -/

/-- What the device has when the program starts. -/
structure VfioDevice where
  region : Nat → Option (BitVec 64)
  barSize : Nat → BitVec 64
  config : ByteMem

/-- The loop over the capability list, from offset `off` on. -/
def findMsixCap (config : ByteMem) : Nat → BitVec 8 → Nat
  | 0, _ => 0
  | n + 1, off =>
    if off = 0 then 0
    else if config off.toNat = 0x11 then off.toNat
    else findMsixCap config n (config (off.toNat + 1) &&& 0xfc)

/-- `msix_cap` in `main()` of `msixdump.c`, which has the same loop. -/
def msixdumpCap (config : ByteMem) : Nat := findMsixCap config 16 (config 0x34 &&& 0xfc)

def vfioSetup (device : VfioDevice) (msixSlowpath : Bool) (nextFd : Nat) : Vf :=
  let cap := findMsixCap device.config 16 (device.config 0x34 &&& 0xfc)
  let msgctl : BitVec 16 := if cap = 0 then 0 else .ofNat 16 (device.config.load (cap + 2) 2)
  let tbl : BitVec 32 := if cap = 0 then 0 else .ofNat 32 (device.config.load (cap + 4) 4)
  { region := device.region
    barSize := device.barSize
    barIs64 := fun b => device.barSize b ≠ 0 ∧ (device.config (0x10 + b * 4) >>> 1) &&& 0x3 = 0x2
    barVal := fun _ => 0
    msixCfgVec := 0
    msixQVec := 0
    msixCap := cap
    msixNr := if cap = 0 then 0 else (msgctl &&& 0x7ff).toNat + 1
    msixNr_le := by
      have h : (msgctl &&& 0x7ff).toNat ≤ 0x7ff := by
        rw [BitVec.toNat_and]
        exact Nat.and_le_right
      split <;> omega
    msixTableOff := tbl &&& (~~~0x7 : BitVec 32)
    msixTableBar := (tbl &&& 0x7).toNat
    msixShadow := fun _ => 0
    msixMsgctl := msgctl
    msixEfd := fun _ => if cap = 0 then 0 else -1
    msixRoutingDone := false
    ptNotifies := 0
    ptNotifyLast := 0
    ptCtrlFwd := 0
    msixSlowpath := msixSlowpath
    nextFd := nextFd
    routing := none
    irqfds := []
    irqs := none
    pwrites := []
    accesses := [] }

namespace Vf

/-! ### The shadow table -/

/-- The number of vectors that have an entry in the shadow table. -/
def nr (vf : Vf) : Nat := if 32 < vf.msixNr then 32 else vf.msixNr

def addrLo (vf : Vf) (v : Nat) : Nat := vf.msixShadow.load (v * 16) 4
def addrHi (vf : Vf) (v : Nat) : Nat := vf.msixShadow.load (v * 16 + 4) 4
def msgData (vf : Vf) (v : Nat) : Nat := vf.msixShadow.load (v * 16 + 8) 4

/-- The access to the entry of vector `v`, field by field. -/
def entryAccesses (v : Nat) : List HostAccess :=
  [.shadow (v * 16) 4, .shadow (v * 16 + 4) 4, .shadow (v * 16 + 8) 4, .shadow (v * 16 + 12) 4]

/-- `!addr_lo && !addr_hi`. -/
def Unprogrammed (vf : Vf) (v : Nat) : Prop := vf.addrLo v = 0 ∧ vf.addrHi v = 0

instance (vf : Vf) (v : Nat) : Decidable (vf.Unprogrammed v) :=
  inferInstanceAs (Decidable (_ ∧ _))

/-- `pwrite()` to the region with index `i`. -/
def pwriteRegion (vf : Vf) (i : Nat) (off : BitVec 64) (bytes : List (BitVec 8)) : Vf :=
  match vf.region i with
  | some offset => { vf with pwrites := vf.pwrites ++ [(offset + off, bytes)] }
  | none => vf

/-- The Vector Control of vector `v`, written through to the table of the device. -/
def forwardCtrl (vf : Vf) (v : Nat) : Vf :=
  match vf.region vf.msixTableBar with
  | some _ =>
    { vf.pwriteRegion vf.msixTableBar (vf.msixTableOff.setWidth 64 + .ofNat 64 (v * 16 + 12))
        (vf.msixShadow.read (v * 16 + 12) 4) with
      ptCtrlFwd := vf.ptCtrlFwd + 1
      accesses := vf.accesses ++ [.shadow (v * 16 + 12) 4] }
  | none => { vf with accesses := vf.accesses ++ [.shadow (v * 16 + 12) 4] }

/-! ### `msix_update_routes()` -/

/-- The IOAPIC pins, then the pins of the two PICs. -/
def defaultRoutes : List RouteEntry :=
  (List.range 24).map (fun g => .irqchip g kvmIrqchipIoapic g) ++
    (List.range 16).map fun g =>
      .irqchip g (if g < 8 then kvmIrqchipPicMaster else kvmIrqchipPicSlave) (if g < 8 then g else g - 8)

def msiRoute (vf : Vf) (v : Nat) : Option RouteEntry :=
  if vf.Unprogrammed v then none
  else some (.msi (msixGsiBase + v) (vf.addrLo v) (vf.addrHi v) (vf.msgData v))

def msixUpdateRoutes (vf : Vf) : Vf :=
  { vf with
    routing := some (defaultRoutes ++ (List.range vf.nr).filterMap vf.msiRoute)
    accesses := vf.accesses ++ (List.range vf.nr).flatMap entryAccesses }

end Vf

/-! ### `msix_setup_irqs()` -/

/-- Which ioctls succeed. -/
structure Ioctls where
  /-- KVM_IRQFD for a vector. -/
  irqfd : Nat → Bool
  /-- VFIO_DEVICE_SET_IRQS. -/
  setIrqs : Bool

namespace Vf

/-- A round of the loop that creates the eventfds. -/
def setupVector (io : Ioctls) (vf : Vf) (v : Nat) : Vf :=
  if vf.Unprogrammed v then vf
  else
    { vf with
      msixEfd := Function.update vf.msixEfd v vf.nextFd
      irqfds :=
        if vf.msixSlowpath = false ∧ io.irqfd v = true then
          vf.irqfds ++ [((vf.nextFd : Int), msixGsiBase + v)]
        else vf.irqfds
      nextFd := vf.nextFd + 1 }

/-- A round of the loop that writes the mask bits to the device. -/
def syncCtrl (vf : Vf) (v : Nat) : Vf := if vf.Unprogrammed v then vf else vf.forwardCtrl v

def msixSetupIrqs (io : Ioctls) (vf : Vf) : Vf :=
  let vf := (List.range vf.nr).foldl (setupVector io) vf.msixUpdateRoutes
  let vf := { vf with accesses := vf.accesses ++ (List.range vf.nr).flatMap entryAccesses }
  if io.setIrqs then
    let vf := { vf with irqs := some ((List.range vf.nr).map vf.msixEfd), msixRoutingDone := true }
    (List.range vf.nr).foldl syncCtrl vf
  else vf

/-! ### `pt_config_write()` -/

/-- What a write to the configuration space goes to. -/
inductive ConfigTarget where
  | barLo (b : Nat)
  | barHi (b : Nat)
  /-- The Message Control word of the MSI-X capability. -/
  | msgctl
  | device
  deriving DecidableEq

/-- The BAR register that a write of a dword at `reg` hits. -/
def barTarget (vf : Vf) (reg : Nat) : Option ConfigTarget :=
  (List.range pciNumBars).findSome? fun i =>
    if reg = 0x10 + i * 4 then
      some (.barLo i)
    else if vf.barIs64 i ∧ reg = 0x10 + i * 4 + 4 then
      some (.barHi i)
    else none

def configTarget (vf : Vf) (reg len : Nat) : ConfigTarget :=
  let bar :=
    if 0x10 ≤ reg ∧ reg < 0x28 ∧ len = 4 then
      match vf.barTarget reg with
      | some (.barLo b) => if vf.barSize b = 0 then none else some (.barLo b)
      | some (.barHi b) => if vf.barSize b = 0 then none else some (.barHi b)
      | _ => none
    else none
  match bar with
  | some t => t
  | none => if vf.msixCap ≠ 0 ∧ vf.msixCap + 2 ≤ reg ∧ reg < vf.msixCap + 4 then .msgctl else .device

/-- The Message Control word after a write of `len` bytes at its byte `pos`: only Enable and Function
Mask can be written. -/
def writeMsgctl (msgctl : BitVec 16) (pos len : Nat) (val : BitVec 32) : BitVec 16 :=
  (List.range len).foldl
    (fun m i =>
      let b : BitVec 8 := (val >>> (i * 8)).setWidth 8
      let bitpos := (pos + i) * 8
      if bitpos < 16 then
        let mask : BitVec 16 := 0xc000 &&& (0xff <<< bitpos)
        (m &&& ~~~mask) ||| ((b.setWidth 16 <<< bitpos) &&& mask)
      else m)
    msgctl

/-- Enable is set and Function Mask is clear. -/
def Live (vf : Vf) : Prop := vf.msixMsgctl &&& 0x8000 ≠ 0 ∧ vf.msixMsgctl &&& 0x4000 = 0

instance (vf : Vf) : Decidable vf.Live := inferInstanceAs (Decidable (_ ∧ _))

def vfioPciConfigRegionIndex : Nat := 7

def ptConfigWrite (io : Ioctls) (reg len : Nat) (val : BitVec 32) (vf : Vf) : Vf :=
  match vf.configTarget reg len with
  | .barHi b =>
    let bar := (val.setWidth 64 <<< 32) ||| (vf.barVal b &&& 0xffffffff)
    { vf with barVal := Function.update vf.barVal b bar }
  | .barLo b =>
    let bar := (vf.barVal b &&& 0xffffffff00000000) ||| (val &&& 0xfffffff0).setWidth 64
    { vf with barVal := Function.update vf.barVal b bar }
  | .msgctl =>
    let vf := { vf with msixMsgctl := writeMsgctl vf.msixMsgctl (reg - (vf.msixCap + 2)) len val }
    if vf.Live ∧ vf.msixRoutingDone = false then
      vf.msixSetupIrqs io
    else vf
  | .device => vf.pwriteRegion vfioPciConfigRegionIndex (.ofNat 64 reg) (leBytes len val.toNat)

end Vf

/-! ### `handle_pt_mmio()` -/

/-- A KVM_EXIT_MMIO; `data` holds `run->mmio.len` bytes. -/
structure Mmio where
  physAddr : BitVec 64
  isWrite : Bool
  data : List (BitVec 8)
  len_pos : 0 < data.length
  len_le : data.length ≤ 8

def Mmio.len (m : Mmio) : Nat := m.data.length

/-- What the handler answers. -/
inductive PtReply where
  /-- No BAR is hit: -1. -/
  | unhandled
  | written
  /-- `run->mmio.data` after a read from the shadow table. -/
  | data (bytes : List (BitVec 8))
  /-- A read of `len` bytes that the region of BAR `b` answers. -/
  | device (b : Nat) (off : BitVec 64) (len : Nat)

namespace Vf

/-- The access forwarded to the region of BAR `b`. -/
def forwardMmio (vf : Vf) (b : Nat) (off : BitVec 64) (m : Mmio) : PtReply × Vf :=
  if m.isWrite then
    (.written, vf.pwriteRegion b off m.data)
  else (.device b off m.len, vf)

/-- The count of the QUEUE_NOTIFY writes. -/
def countNotify (vf : Vf) (off : BitVec 64) (m : Mmio) : Vf :=
  if off = 0x10 ∧ m.isWrite then
    { vf with
      ptNotifyLast := .ofNat 16 (leNat (m.data.take 2))
      ptNotifies := vf.ptNotifies + 1 }
  else vf

/-- The shadows of the vector registers, which are put into `regs` and taken out again. -/
def shadowVectors (vf : Vf) (off : BitVec 64) (m : Mmio) : Vf :=
  if 0x14 ≤ off ∧ off < 0x18 ∧ m.isWrite then
    let regs : ByteMem := (ByteMem.store (fun _ => 0) 0 2 vf.msixCfgVec.toNat).store 2 2 vf.msixQVec.toNat
    let regs := regs.write (off - 0x14).toNat m.data
    { vf with
      msixCfgVec := .ofNat 16 (regs.load 0 2)
      msixQVec := .ofNat 16 (regs.load 2 2)
      accesses := vf.accesses ++ [.regs (off - 0x14).toNat m.len] }
  else vf

def handleBar0Legacy (off : BitVec 64) (m : Mmio) (vf : Vf) : PtReply × Vf :=
  ((vf.countNotify off m).shadowVectors off m).forwardMmio 0 off m

def barBase (vf : Vf) (b : Nat) : BitVec 64 := vf.barVal b &&& (~~~0xf : BitVec 64)

/-- The first BAR that `pa` lies in. -/
def barHit (vf : Vf) (pa : BitVec 64) : Option Nat :=
  (List.range pciNumBars).find? fun b =>
    vf.barBase b ≠ 0 ∧ vf.barSize b ≠ 0 ∧ vf.barBase b ≤ pa ∧ pa < vf.barBase b + vf.barSize b

/-- The access lies in the MSI-X table. -/
def TableHit (vf : Vf) (b : Nat) (off : BitVec 64) (len : Nat) : Prop :=
  b = vf.msixTableBar ∧ vf.msixCap ≠ 0 ∧ vf.msixTableOff.setWidth 64 ≤ off ∧
    off + .ofNat 64 len ≤ vf.msixTableOff.setWidth 64 + .ofNat 64 vf.msixNr * 16

instance (vf : Vf) (b : Nat) (off : BitVec 64) (len : Nat) : Decidable (vf.TableHit b off len) :=
  inferInstanceAs (Decidable (_ ∧ _ ∧ _ ∧ _))

/-- A write to the MSI-X table at `pos`. -/
def tableWrite (vf : Vf) (pos : Nat) (m : Mmio) : Vf :=
  let vf := { vf with
    msixShadow := vf.msixShadow.write pos m.data
    accesses := vf.accesses ++ [.shadow pos m.len] }
  let vec := pos / 16
  let fld := pos % 16
  let vf := if 12 ≤ fld ∨ 12 < fld + m.len then vf.forwardCtrl vec else vf
  if vf.msixRoutingDone ∧ fld < 12 then vf.msixUpdateRoutes else vf

def handlePtMmio (m : Mmio) (vf : Vf) : PtReply × Vf :=
  match vf.barHit m.physAddr with
  | none => (.unhandled, vf)
  | some b =>
    let off := m.physAddr - vf.barBase b
    if b = 0 then
      vf.handleBar0Legacy off m
    else if vf.TableHit b off m.len then
      let pos := ((off - vf.msixTableOff.setWidth 64).setWidth 32).toNat
      if m.isWrite then
        (.written, vf.tableWrite pos m)
      else
        (.data (vf.msixShadow.read pos m.len), { vf with accesses := vf.accesses ++ [.shadow pos m.len] })
    else vf.forwardMmio b off m

end Vf

/-- What the guest does to the device. -/
inductive VfAct where
  | mmio (m : Mmio)
  /-- A write to the configuration space, with the answers of the ioctls that it makes. -/
  | config (reg len : Nat) (val : BitVec 32) (io : Ioctls)

def VfAct.step (vf : Vf) : VfAct → Vf
  | .mmio m => (vf.handlePtMmio m).2
  | .config reg len val io => vf.ptConfigWrite io reg len val

end MiniVirt.Vmm
