import MiniVirt.Vmm.Virtio

/-!
# `minivmm.c`: the virtio-mmio registers

The register file, the device instances as the program starts with them, `blk_open()` and the
dispatch of a KVM_EXIT_MMIO to the two windows.
-/

namespace MiniVirt.Vmm

/-! ### Register offsets -/

def vmmioMagic : Nat := 0x000
def vmmioVersion : Nat := 0x004
def vmmioDeviceId : Nat := 0x008
def vmmioVendorId : Nat := 0x00c
def vmmioDevFeatures : Nat := 0x010
def vmmioDevFeaturesSel : Nat := 0x014
def vmmioDrvFeatures : Nat := 0x020
def vmmioDrvFeaturesSel : Nat := 0x024
def vmmioQueueSel : Nat := 0x030
def vmmioQueueNumMax : Nat := 0x034
def vmmioQueueNum : Nat := 0x038
def vmmioQueueReady : Nat := 0x044
def vmmioQueueNotify : Nat := 0x050
def vmmioIntStatus : Nat := 0x060
def vmmioIntAck : Nat := 0x064
def vmmioStatus : Nat := 0x070
def vmmioQueueDescLow : Nat := 0x080
def vmmioQueueDescHigh : Nat := 0x084
def vmmioQueueAvailLow : Nat := 0x090
def vmmioQueueAvailHigh : Nat := 0x094
def vmmioQueueUsedLow : Nat := 0x0a0
def vmmioQueueUsedHigh : Nat := 0x0a4
def vmmioConfigGen : Nat := 0x0fc
def vmmioConfig : Nat := 0x100

/-! ### Reads and writes -/

/-- The index that `vq` gets from `queue_sel`. -/
def VirtioDev.selected (v : VirtioDev) : Nat := if v.queueSel.toNat < vqMax then v.queueSel.toNat else 0

def virtioMmioRead (s : St) (d : Dev) (off len : Nat) : BitVec 64 :=
  let v := s.dev d
  let vq := v.vq v.selected
  if off = vmmioMagic then vmmioMagicValue
  else if off = vmmioVersion then 2
  else if off = vmmioDeviceId then d.deviceId.setWidth 64
  else if off = vmmioVendorId then 0xffff
  else if off = vmmioDevFeatures then
    (d.devFeatures >>> (32 * (v.devFeatSel &&& 1).toNat)) &&& 0xffffffff
  else if off = vmmioQueueNumMax then
    if v.queueSel.toNat < d.nqueues then .ofNat 64 vringNumMax else 0
  else if off = vmmioQueueReady then vq.ready.signExtend 64
  else if off = vmmioIntStatus then v.intStatus.setWidth 64
  else if off = vmmioStatus then v.status.setWidth 64
  else if off = vmmioConfigGen then 0
  else if vmmioConfig ≤ off ∧ off + len ≤ vmmioConfig + d.configLen then
    .ofNat 64 (v.config.load (off - vmmioConfig) len)
  else 0

/-- `(a & 0xffffffff00000000) | (uint32_t)val`. -/
def setLow (a val : BitVec 64) : BitVec 64 :=
  (a &&& 0xffffffff00000000) ||| (val.setWidth 32).setWidth 64

/-- `(a & 0xffffffff) | ((uint64_t)(uint32_t)val << 32)`. -/
def setHigh (a val : BitVec 64) : BitVec 64 :=
  (a &&& 0xffffffff) ||| (val.setWidth 32).setWidth 64 <<< 32

def Vq.reset (q : Vq) : Vq := { q with ready := 0, lastAvailIdx := 0 }

def virtioReset (d : Dev) : V Unit := do
  modifyDev d fun v => { v with status := 0, intStatus := 0 }
  kvmIrqLine d.gsi false
  modifyDev d fun v => { v with vq := fun i => if i < d.nqueues then (v.vq i).reset else v.vq i }

/-- The registers of the selected queue, under their offsets. -/
def Vq.write (q : Vq) (off : Nat) (val : BitVec 64) : Option Vq :=
  if off = vmmioQueueNum then some { q with num := val.setWidth 32 }
  else if off = vmmioQueueReady then some { q with ready := val.setWidth 32 }
  else if off = vmmioQueueDescLow then some { q with desc := setLow q.desc val }
  else if off = vmmioQueueDescHigh then some { q with desc := setHigh q.desc val }
  else if off = vmmioQueueAvailLow then some { q with avail := setLow q.avail val }
  else if off = vmmioQueueAvailHigh then some { q with avail := setHigh q.avail val }
  else if off = vmmioQueueUsedLow then some { q with used := setLow q.used val }
  else if off = vmmioQueueUsedHigh then some { q with used := setHigh q.used val }
  else none

/-- The registers that are fields of the device, and the configuration space. -/
def VirtioDev.write (v : VirtioDev) (d : Dev) (off len : Nat) (val : BitVec 64) : VirtioDev :=
  if off = vmmioDevFeaturesSel then { v with devFeatSel := val.setWidth 32 }
  else if off = vmmioDrvFeaturesSel then { v with drvFeatSel := val.setWidth 32 }
  else if off = vmmioDrvFeatures then
    if v.drvFeatSel &&& 1 ≠ 0 then
      { v with drvFeatures := v.drvFeatures ||| (val &&& 0xffffffff) <<< 32 }
    else
      { v with drvFeatures := v.drvFeatures ||| (val &&& 0xffffffff) }
  else if off = vmmioQueueSel then { v with queueSel := val.setWidth 32 }
  else if vmmioConfig ≤ off ∧ off + len ≤ vmmioConfig + d.configLen then
    { v with config := v.config.store (off - vmmioConfig) len val.toNat }
  else v

def virtioMmioWrite (d : Dev) (off len : Nat) (val : BitVec 64) : V (Option Unit) := do
  let v := (← get).dev d
  if off = vmmioQueueNotify then
    serviceVq d (val &&& 0xffff).toNat
  else if off = vmmioIntAck then
    modifyDev d fun v => { v with intStatus := v.intStatus &&& ~~~(val.setWidth 32) }
    virtioLowerIrq d
    return some ()
  else if off = vmmioStatus then
    if val = 0 then
      virtioReset d
    else
      modifyDev d fun v => { v with status := val.setWidth 32 }
    return some ()
  else
    match (v.vq v.selected).write off val with
    | some q => modifyDev d fun v => v.setVq v.selected q
    | none => modifyDev d fun v => v.write d off len val
    return some ()

def virtioRegionSize : Nat := 0x200

/-- The device whose window `handle_virtio_mmio()` finds `pa` in. -/
def virtioWindow (pa : BitVec 64) : Option Dev :=
  if Dev.console.base.toNat ≤ pa.toNat ∧ pa.toNat < Dev.console.base.toNat + virtioRegionSize then
    some .console
  else if Dev.blk.base.toNat ≤ pa.toNat ∧ pa.toNat < Dev.blk.base.toNat + virtioRegionSize then
    some .blk
  else none

/-- `handle_virtio_mmio()` for a write; outside the windows it returns -1 and does nothing. -/
def handleVirtioMmioWrite (pa : BitVec 64) (len : Nat) (val : BitVec 64) : V (Option Unit) := do
  match virtioWindow pa with
  | some d => virtioMmioWrite d (pa - d.base).toNat len val
  | none => return some ()

/-! ### The start of the program -/

/-- The device instances before `blk_open()`. -/
def VirtioDev.initial (config : List (BitVec 8)) : VirtioDev where
  status := 0
  intStatus := 0
  drvFeatures := 0
  devFeatSel := 0
  drvFeatSel := 0
  queueSel := 0
  vq := fun _ => .zero
  config := ByteMem.write (fun _ => 0) 0 config

/-- `blk_open()` of a file with this content. -/
def blkOpen (content : List (BitVec 8)) : BlkBackend where
  content := content
  capacity := .ofNat 64 (content.length / 512)
  ios := []

/-- The program before the guest runs, with guest RAM `mem` of `memSize` bytes. -/
def St.initial (mem : ByteMem) (memSize : BitVec 64) (content : List (BitVec 8)) (useEventfd : Bool)
    (stale : ByteMem) : St where
  mem := mem
  memSize := memSize
  dev
    | .console => .initial [80, 0, 24, 0, 1, 0, 0, 0, 0, 0, 0, 0]
    | .blk => .initial (leBytes 8 (content.length / 512))
  conIn := ⟨fun _ => 0, 0, 0⟩
  blk := blkOpen content
  useEventfd := useEventfd
  stale := stale
  trace := []

end MiniVirt.Vmm
