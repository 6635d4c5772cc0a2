import MiniVirt.Vmm.PciConfig

/-!
# `minivmm.c`: configuration mechanism 1

`pci_config_io()`: the address register at 0xcf8 and the data window at 0xcfc, with the host bridge at 00:00.0 and
the passthrough device at 00:01.0.  What the physical device and the ioctls answer while an access is handled is
an argument.
-/

namespace MiniVirt.Vmm

def pciCfgAddrPort : BitVec 16 := 0xcf8
def pciCfgDataPort : BitVec 16 := 0xcfc
def ptBus : BitVec 32 := 0
def ptDevfn : BitVec 32 := 0x08

/-- `run->io.size`. -/
inductive IoSize where
  | byte | word | dword
  deriving DecidableEq

namespace IoSize

def bytes : IoSize → Nat
  | byte => 1
  | word => 2
  | dword => 4

/-- `x` in a field of this size, read again without a sign. -/
def trunc (size : IoSize) (x : BitVec 32) : BitVec 32 :=
  match size with
  | byte => x &&& 0xff
  | word => x &&& 0xffff
  | dword => x

end IoSize

/-- What the physical device and the ioctls answer while one access is handled. -/
structure PtAnswers where
  io : Ioctls
  /-- `pread()` from the region behind the configuration space. -/
  config : Nat → Nat → Option (BitVec 32)
  /-- `pread()` from the region of a BAR: `none` for -1. -/
  bar : Nat → BitVec 64 → Nat → Option (List (BitVec 8))

/-- `vf` with `pci_cfg_addr`. -/
structure PciBus where
  ready : Bool
  vf : Vf
  barType : Nat → BitVec 32
  hostbridgeCfg : ByteMem
  pciCfgAddr : BitVec 32

/-- The loop over the bytes of a write to the host bridge. -/
def hostbridgeWrite (cfg : ByteMem) (reg size : Nat) (val : BitVec 32) : ByteMem :=
  (List.range size).foldl
    (fun cfg i => if reg + i < 256 then Function.update cfg (reg + i) ((val >>> (i * 8)).setWidth 8) else cfg) cfg

/-- The loop over the bytes of a read from the host bridge. -/
def hostbridgeRead (cfg : ByteMem) (reg size : Nat) : BitVec 32 :=
  (List.range size).foldl
    (fun v i => if reg + i < 256 then v ||| (cfg (reg + i)).setWidth 32 <<< (i * 8) else v) 0

/-- The port lies in the data window. -/
def PciDataPort (port : BitVec 16) : Prop := pciCfgDataPort ≤ port ∧ port < pciCfgDataPort + 4

instance (port : BitVec 16) : Decidable (PciDataPort port) := inferInstanceAs (Decidable (_ ∧ _))

namespace PciBus

/-- `bus`, `devfn` and `reg` of an access to the data window. -/
def busNr (s : PciBus) : BitVec 32 := (s.pciCfgAddr >>> 16) &&& 0xff

def devfn (s : PciBus) : BitVec 32 := (s.pciCfgAddr >>> 8) &&& 0xff

def reg (s : PciBus) (port : BitVec 16) : Nat :=
  ((s.pciCfgAddr &&& 0xfc) ||| (port - pciCfgDataPort).setWidth 32).toNat

/-- What is read where no device is. -/
def absent (s : PciBus) (isWrite : Bool) (val : BitVec 32) : BitVec 32 × PciBus :=
  (if isWrite then val else 0xffffffff, s)

/-- An access to the data window, with `*val` afterwards. -/
def dataIo (a : PtAnswers) (port : BitVec 16) (isWrite : Bool) (val : BitVec 32) (size : IoSize) (s : PciBus) :
    BitVec 32 × PciBus :=
  if s.pciCfgAddr &&& 0x80000000 = 0 then s.absent isWrite val
  else if s.busNr ≠ ptBus then s.absent isWrite val
  else if s.devfn = 0 then
    if isWrite then
      (val, { s with hostbridgeCfg := hostbridgeWrite s.hostbridgeCfg (s.reg port) size.bytes val })
    else (hostbridgeRead s.hostbridgeCfg (s.reg port) size.bytes, s)
  else if s.devfn = ptDevfn then
    if isWrite then
      (val, { s with vf := s.vf.ptConfigWrite a.io (s.reg port) size.bytes val })
    else (s.vf.ptConfigRead s.barType a.config (s.reg port) size.bytes, s)
  else s.absent isWrite val

/-- `pci_config_io()`: `none` for -1, else `*val` afterwards. -/
def pciConfigIo (a : PtAnswers) (port : BitVec 16) (isWrite : Bool) (val : BitVec 32) (size : IoSize) (s : PciBus) :
    Option (BitVec 32 × PciBus) :=
  if !s.ready then none
  else if port = pciCfgAddrPort ∧ size = .dword then
    if isWrite then some (val, { s with pciCfgAddr := val }) else some (s.pciCfgAddr, s)
  else if PciDataPort port then some (s.dataIo a port isWrite val size)
  else none

/-- `handle_pt_mmio()`: `none` for -1, else `run->mmio.data` afterwards. -/
def ptMmio (a : PtAnswers) (m : Mmio) (s : PciBus) : Option (List (BitVec 8) × PciBus) :=
  if !s.ready then none
  else
    let (reply, vf) := s.vf.handlePtMmio m
    let s := { s with vf := vf }
    match reply with
    | .unhandled => none
    | .written => some (m.data, s)
    | .data bytes => some (bytes, s)
    | .device b off len =>
      match a.bar b off len with
      | none => some (m.data, s)
      | some l => some (l.take len ++ m.data.drop (l.take len).length, s)

end PciBus

end MiniVirt.Vmm
