import MiniVirt.Lib.ByteMem
import Mathlib.Logic.Function.Basic

/-!
# `minivmm.c`: the 16550A serial port

`struct serial_state` with the three operations that run under its lock: a register write, a register
read and a received byte.  `irqLog` records the levels sent through `kvm_irq_line()`; the console
behind THR is part of the state.
-/

namespace MiniVirt.Vmm

/-! ### `serial_reg.h` -/

def uartRx : BitVec 8 := 0
def uartIer : BitVec 8 := 1
def uartIir : BitVec 8 := 2
def uartFcr : BitVec 8 := 2
def uartLcr : BitVec 8 := 3
def uartMcr : BitVec 8 := 4
def uartLsr : BitVec 8 := 5
def uartMsr : BitVec 8 := 6
def uartScr : BitVec 8 := 7

def uartIerRdi : BitVec 8 := 0x01
def uartIerThri : BitVec 8 := 0x02
def uartIerRlsi : BitVec 8 := 0x04
def uartIerMsi : BitVec 8 := 0x08
def uartIerAllIntr : BitVec 8 := 0x0f

def uartIirMsi : BitVec 8 := 0x00
def uartIirThri : BitVec 8 := 0x02
def uartIirRdi : BitVec 8 := 0x04
def uartIirRlsi : BitVec 8 := 0x06
def uartIirNoInt : BitVec 8 := 0x01
def uartIirId : BitVec 8 := 0x0e
def uartIirFifoEnabled : BitVec 8 := 0xc0

def uartFcrEnableFifo : BitVec 8 := 0x01
def uartFcrClearRcvr : BitVec 8 := 0x02
def uartFcrClearXmit : BitVec 8 := 0x04
def uartFcrDmaSelect : BitVec 8 := 0x08
def uartFcrTriggerMask : BitVec 8 := 0xc0

def uartLcrDlab : BitVec 8 := 0x80

def uartMcrDtr : BitVec 8 := 0x01
def uartMcrRts : BitVec 8 := 0x02
def uartMcrOut1 : BitVec 8 := 0x04
def uartMcrOut2 : BitVec 8 := 0x08
def uartMcrLoop : BitVec 8 := 0x10

def uartMsrDcd : BitVec 8 := 0x80
def uartMsrDsr : BitVec 8 := 0x20
def uartMsrCts : BitVec 8 := 0x10
def uartMsrAnyDelta : BitVec 8 := 0x0f

def uartLsrDr : BitVec 8 := 0x01
def uartLsrOe : BitVec 8 := 0x02
def uartLsrPe : BitVec 8 := 0x04
def uartLsrFe : BitVec 8 := 0x08
def uartLsrBi : BitVec 8 := 0x10
def uartLsrThre : BitVec 8 := 0x20
def uartLsrTemt : BitVec 8 := 0x40

/-- `v & mask` as a condition. -/
def has (v mask : BitVec 8) : Bool := v &&& mask != 0

/-- `SER_RX_SZ`. -/
def serRxSz : Nat := 1024

/-! ### State -/

/-- What `console_output()` keeps: the bytes written, the last 13 of them and `running`. -/
structure Console where
  out : List (BitVec 8)
  hist : List (BitVec 8)
  running : Bool

/-- `"MINIVMM_READY"`. -/
def marker : List (BitVec 8) := "MINIVMM_READY".toList.map fun c => .ofNat 8 c.toNat

def Console.initial : Console where
  out := []
  hist := List.replicate marker.length 0
  running := true

def consoleOutput (c : Console) (ch : BitVec 8) : Console where
  out := c.out ++ [ch]
  hist := c.hist.tail ++ [ch]
  running := c.running && c.hist.tail ++ [ch] != marker

/-- `struct serial_state`. -/
structure Serial where
  ier : BitVec 8
  fcr : BitVec 8
  lcr : BitVec 8
  mcr : BitVec 8
  scr : BitVec 8
  lsr : BitVec 8
  msr : BitVec 8
  iir : BitVec 8
  thrIpending : Bool
  divider : BitVec 16
  rxRing : ByteMem
  rxHead : BitVec 32
  rxTail : BitVec 32
  irqLevel : Bool
  /-- The levels sent through `kvm_irq_line()`. -/
  irqLog : List Bool
  console : Console

def Serial.initial : Serial where
  ier := 0
  fcr := 0
  lcr := 0
  mcr := 0
  scr := 0
  lsr := uartLsrThre ||| uartLsrTemt
  msr := uartMsrDcd ||| uartMsrDsr ||| uartMsrCts
  iir := uartIirNoInt
  thrIpending := false
  divider := 0
  rxRing := fun _ => 0
  rxHead := 0
  rxTail := 0
  irqLevel := false
  irqLog := []
  console := .initial

def rxCount (s : Serial) : BitVec 32 := s.rxHead - s.rxTail

/-! ### The interrupt -/

/-- `tmp` of `serial_update_irq_locked()`. -/
def serialIntId (s : Serial) : BitVec 8 :=
  if has s.ier uartIerRlsi && has s.lsr (uartLsrOe ||| uartLsrPe ||| uartLsrFe ||| uartLsrBi) then
    uartIirRlsi
  else if has s.ier uartIerRdi && has s.lsr uartLsrDr then uartIirRdi
  else if has s.ier uartIerThri && s.thrIpending then uartIirThri
  else if has s.ier uartIerMsi && has s.msr uartMsrAnyDelta then uartIirMsi
  else uartIirNoInt

def serialUpdateIrq (s : Serial) : Serial :=
  let tmp := serialIntId s
  let level := tmp != uartIirNoInt
  let s := { s with iir := tmp ||| (s.iir &&& uartIirFifoEnabled) }
  if level = s.irqLevel then s
  else { s with irqLevel := level, irqLog := s.irqLog ++ [level] }

/-! ### A received byte -/

def serialRecv (s : Serial) (c : BitVec 8) : Serial :=
  serialUpdateIrq
    (if .ofNat 32 (serRxSz - 1) ≤ rxCount s then { s with lsr := s.lsr ||| uartLsrOe }
    else
      { s with
        rxRing := Function.update s.rxRing (s.rxHead.toNat % serRxSz) c
        rxHead := s.rxHead + 1
        lsr := s.lsr ||| uartLsrDr })

/-! ### Register writes -/

/-- A write to THR. -/
def serialTransmit (s : Serial) (val : BitVec 8) : Serial :=
  let s := { s with thrIpending := false, lsr := s.lsr &&& ~~~(uartLsrThre ||| uartLsrTemt) }
  let s := if has s.mcr uartMcrLoop then serialRecv s val
    else { s with console := consoleOutput s.console val }
  serialUpdateIrq { s with lsr := s.lsr ||| (uartLsrThre ||| uartLsrTemt), thrIpending := true }

def serialWriteIer (s : Serial) (val : BitVec 8) : Serial :=
  let s := { s with ier := val &&& uartIerAllIntr }
  serialUpdateIrq
    (if has s.ier uartIerThri && has s.lsr uartLsrThre then { s with thrIpending := true } else s)

def serialWriteFcr (s : Serial) (val : BitVec 8) : Serial :=
  let val := if has (val ^^^ s.fcr) uartFcrEnableFifo then val ||| (uartFcrClearRcvr ||| uartFcrClearXmit)
    else val
  let s := if has val uartFcrClearRcvr then
      { s with rxHead := 0, rxTail := 0, lsr := s.lsr &&& ~~~(uartLsrDr ||| uartLsrBi) }
    else s
  let s := if has val uartFcrClearXmit then
      { s with lsr := s.lsr ||| uartLsrThre, thrIpending := true }
    else s
  let s := { s with fcr := val &&& (uartFcrEnableFifo ||| uartFcrDmaSelect ||| uartFcrTriggerMask) }
  serialUpdateIrq
    (if has s.fcr uartFcrEnableFifo then { s with iir := s.iir ||| uartIirFifoEnabled }
    else { s with iir := s.iir &&& ~~~uartIirFifoEnabled })

def serialWriteReg (s : Serial) (reg val : BitVec 8) : Serial :=
  if reg = uartRx then
    if has s.lcr uartLcrDlab then { s with divider := (s.divider &&& 0xff00) ||| val.setWidth 16 }
    else serialTransmit s val
  else if reg = uartIer then
    if has s.lcr uartLcrDlab then
      { s with divider := (s.divider &&& 0x00ff) ||| val.setWidth 16 <<< 8 }
    else serialWriteIer s val
  else if reg = uartFcr then serialWriteFcr s val
  else if reg = uartLcr then { s with lcr := val }
  else if reg = uartMcr then { s with mcr := val }
  else if reg = uartScr then { s with scr := val }
  else s

/-! ### Register reads -/

/-- A read of RBR. -/
def serialReceive (s : Serial) : BitVec 8 × Serial :=
  let r := if rxCount s ≠ 0 then
      (s.rxRing (s.rxTail.toNat % serRxSz), { s with rxTail := s.rxTail + 1 })
    else (0, s)
  let s := if rxCount r.2 = 0 then { r.2 with lsr := r.2.lsr &&& ~~~(uartLsrDr ||| uartLsrBi) } else r.2
  (r.1, serialUpdateIrq s)

def serialReadIir (s : Serial) : BitVec 8 × Serial :=
  (s.iir,
    if s.iir &&& uartIirId = uartIirThri then serialUpdateIrq { s with thrIpending := false } else s)

def serialReadLsr (s : Serial) : BitVec 8 × Serial :=
  (s.lsr,
    if has s.lsr (uartLsrBi ||| uartLsrOe) then
      serialUpdateIrq { s with lsr := s.lsr &&& ~~~(uartLsrBi ||| uartLsrOe) }
    else s)

def serialReadMsr (s : Serial) : BitVec 8 × Serial :=
  if has s.mcr uartMcrLoop then
    ((s.mcr &&& (uartMcrOut1 ||| uartMcrOut2)) <<< 4 ||| (s.mcr &&& uartMcrRts) <<< 3 |||
      (s.mcr &&& uartMcrDtr) <<< 5, s)
  else
    (s.msr,
      if has s.msr uartMsrAnyDelta then serialUpdateIrq { s with msr := s.msr &&& 0xf0 } else s)

def serialReadReg (s : Serial) (reg : BitVec 8) : BitVec 8 × Serial :=
  if reg = uartRx then
    if has s.lcr uartLcrDlab then ((s.divider &&& 0xff).setWidth 8, s) else serialReceive s
  else if reg = uartIer then
    (if has s.lcr uartLcrDlab then (s.divider >>> 8).setWidth 8 else s.ier, s)
  else if reg = uartIir then serialReadIir s
  else if reg = uartLcr then (s.lcr, s)
  else if reg = uartMcr then (s.mcr, s)
  else if reg = uartLsr then serialReadLsr s
  else if reg = uartMsr then serialReadMsr s
  else (s.scr, s)

/-! ### Operations -/

/-- What happens under the lock, one at a time. -/
inductive SerialOp where
  | writeReg (reg val : BitVec 8)
  | readReg (reg : BitVec 8)
  | recv (c : BitVec 8)

def SerialOp.step (s : Serial) : SerialOp → Serial
  | .writeReg reg val => serialWriteReg s reg val
  | .readReg reg => (serialReadReg s reg).2
  | .recv c => serialRecv s c

end MiniVirt.Vmm
