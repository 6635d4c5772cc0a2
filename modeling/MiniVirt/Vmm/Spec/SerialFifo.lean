import MiniVirt.Lib.Runs
import MiniVirt.Lib.RingBuffer
import MiniVirt.Vmm.Serial

/-!
# The receive FIFO of the serial port

`RxQueue` is a bounded queue with what has happened to it: the bytes that it accepted, and those that have
left it.  The ring of the serial port with its counters and `LSR.DR` stands for such a queue at every moment
(`serial_rxFifo`).
-/

namespace MiniVirt.Vmm

/-! ### The bounded queue -/

def rxCapacity : Nat := 1023

/-- The byte that arrives in a step: from the input thread, or by loopback from THR. -/
def SerialOp.arrival (s : Serial) : SerialOp → Option (BitVec 8)
  | .recv c => some c
  | .writeReg reg val =>
    if reg = uartRx ∧ has s.lcr uartLcrDlab = false ∧ has s.mcr uartMcrLoop = true then some val else none
  | .readReg _ => none

/-- A write to FCR that clears the receive FIFO or toggles the FIFO enable bit. -/
def SerialOp.clears (s : Serial) : SerialOp → Prop
  | .writeReg reg val =>
    reg = uartFcr ∧ (has val uartFcrClearRcvr = true ∨ has (val ^^^ s.fcr) uartFcrEnableFifo = true)
  | _ => False

/-- A read of the data register. -/
def SerialOp.readsRbr (s : Serial) : SerialOp → Prop
  | .readReg reg => reg = uartRx ∧ has s.lcr uartLcrDlab = false
  | _ => False

instance (s : Serial) (op : SerialOp) : Decidable (op.clears s) :=
  match op with
  | .writeReg .. => inferInstanceAs (Decidable (_ ∧ _))
  | .readReg _ | .recv _ => .isFalse id

instance (s : Serial) (op : SerialOp) : Decidable (op.readsRbr s) :=
  match op with
  | .readReg _ => inferInstanceAs (Decidable (_ ∧ _))
  | .writeReg .. | .recv _ => .isFalse id

structure RxQueue where
  queue : List (BitVec 8)
  accepted : List (BitVec 8)
  /-- The bytes that have left the queue: returned by a read, or discarded by a clear. -/
  gone : List (BitVec 8 × Bool)

namespace RxQueue

def empty : RxQueue := ⟨[], [], []⟩

def arrive (x : RxQueue) (c : BitVec 8) : RxQueue :=
  if x.queue.length < rxCapacity then { x with queue := x.queue ++ [c], accepted := x.accepted ++ [c] } else x

def clear (x : RxQueue) : RxQueue := { x with queue := [], gone := x.gone ++ x.queue.map (·, false) }

def read (x : RxQueue) : RxQueue :=
  { x with queue := x.queue.tail, gone := x.gone ++ x.queue.head?.toList.map (·, true) }

/-- The queue after a step of the port in the state `s`. -/
def step (s : Serial) (x : RxQueue) (op : SerialOp) : RxQueue :=
  match op.arrival s with
  | some c => x.arrive c
  | none => if op.clears s then x.clear else if op.readsRbr s then x.read else x

/-- The bytes that reads have taken out of the queue. -/
def returned (x : RxQueue) : List (BitVec 8) := (x.gone.filter (·.2)).map Prod.fst

end RxQueue

/-! ### The port -/

/-- What a read of the data register returns while DR is set. -/
def SerialOp.reply (s : Serial) (op : SerialOp) : List (BitVec 8) :=
  if op.readsRbr s ∧ has s.lsr uartLsrDr = true then [(serialReadReg s uartRx).1] else []

/-- The port beside the queue, with what the reads of the data register have returned. -/
structure RxRun where
  serial : Serial
  queue : RxQueue
  replies : List (BitVec 8)

def RxRun.initial : RxRun := ⟨.initial, .empty, []⟩

def RxRun.step (x : RxRun) (op : SerialOp) : RxRun :=
  ⟨op.step x.serial, x.queue.step x.serial op, x.replies ++ op.reply x.serial⟩

/-- The port is the bounded queue. -/
structure RxRun.Law (x : RxRun) : Prop where
  dr : has x.serial.lsr uartLsrDr = !x.queue.queue.isEmpty
  le : x.queue.queue.length ≤ rxCapacity
  /-- `rx_count_locked()` -/
  count : (rxCount x.serial).toNat = x.queue.queue.length
  replies : x.replies = x.queue.returned
  /-- Each accepted byte leaves once and in its turn. -/
  accepted : x.queue.accepted = x.queue.gone.map Prod.fst ++ x.queue.queue
  /-- A byte is dropped exactly when the queue is full. -/
  overrun : ∀ op c, op.arrival x.serial = some c →
    if x.queue.queue.length = rxCapacity then
      x.queue.step x.serial op = x.queue ∧ has (op.step x.serial).lsr uartLsrOe = true
    else (x.queue.step x.serial op).accepted = x.queue.accepted ++ [c]

/-! ### The ring -/

/-- The part of the port that the receive side uses. -/
structure Rx where
  ring : ByteMem
  head : BitVec 32
  tail : BitVec 32
  lsr : BitVec 8

def Serial.rx (s : Serial) : Rx := ⟨s.rxRing, s.rxHead, s.rxTail, s.lsr⟩

namespace Rx

def queue (x : Rx) : List (BitVec 8) := RingBuffer.contents serRxSz x.ring x.head x.tail

/-- DR is right, and a cell is free. -/
structure Ok (x : Rx) : Prop where
  dr : has x.lsr uartLsrDr = !x.queue.isEmpty
  le : x.queue.length ≤ rxCapacity

theorem length_queue (x : Rx) : x.queue.length = (x.head - x.tail).toNat := RingBuffer.length_contents

/-- DR and the ring are as before. -/
theorem Ok.congr {x y : Rx} (h : x.Ok) (hqueue : y.queue = x.queue)
    (hdr : has y.lsr uartLsrDr = has x.lsr uartLsrDr) : y.Ok := by
  refine ⟨?_, ?_⟩
  · rw [hdr, hqueue]
    exact h.dr
  · rw [hqueue]
    exact h.le

end Rx

theorem has_or_of_disjoint {m m' : BitVec 8} (h : m' &&& m = 0) (v : BitVec 8) : has (v ||| m') m = has v m := by
  have hand : (v ||| m') &&& m = v &&& m := by
    ext i hi
    have hbit := congrArg (fun b => b.getLsbD i) h
    simp at hbit ⊢
    grind
  unfold has
  rw [hand]

theorem has_or_self {m : BitVec 8} (hm : m ≠ 0) (v : BitVec 8) : has (v ||| m) m = true := by
  have hand : (v ||| m) &&& m = m := by
    ext i hi
    simp
    grind
  unfold has
  rw [hand]
  simpa using hm

theorem has_and_not {m m' : BitVec 8} (h : m' &&& m = 0) (v : BitVec 8) : has (v &&& ~~~m') m = has v m := by
  have hand : (v &&& ~~~m') &&& m = v &&& m := by
    ext i hi
    have hbit := congrArg (fun b => b.getLsbD i) h
    simp at hbit ⊢
    grind
  unfold has
  rw [hand]

theorem has_and_not_dr (v : BitVec 8) : has (v &&& ~~~(uartLsrDr ||| uartLsrBi)) uartLsrDr = false := by
  have hand : (v &&& ~~~(uartLsrDr ||| uartLsrBi)) &&& uartLsrDr = 0 := by
    rw [BitVec.and_assoc]
    exact (congrArg (v &&& ·) (by decide)).trans (BitVec.and_zero)
  unfold has
  rw [hand]
  rfl

@[simp]
theorem serialUpdateIrq_rx (s : Serial) : (serialUpdateIrq s).rx = s.rx := by
  unfold serialUpdateIrq
  dsimp only
  split <;> rfl

variable {s : Serial}

/-- A byte arrives: it comes last, or it is dropped and OE is set. -/
theorem serialRecv_rx (h : s.rx.Ok) (c : BitVec 8) : (serialRecv s c).rx.Ok ∧
    if s.rx.queue.length = rxCapacity then
      (serialRecv s c).rx.queue = s.rx.queue ∧ has (serialRecv s c).lsr uartLsrOe = true
    else (serialRecv s c).rx.queue = s.rx.queue ++ [c] := by
  have hle := h.le
  have hlength := s.rx.length_queue
  have hcount : (rxCount s).toNat = s.rx.queue.length := hlength.symm
  by_cases hfull : BitVec.ofNat 32 (serRxSz - 1) ≤ rxCount s
  · have heq : s.rx.queue.length = rxCapacity := by
      have hge : 1023 ≤ (rxCount s).toNat := hfull
      unfold rxCapacity at hle ⊢
      omega
    have hrx : (serialRecv s c).rx = { s.rx with lsr := s.lsr ||| uartLsrOe } := by
      unfold serialRecv
      rw [serialUpdateIrq_rx, if_pos hfull]
      rfl
    rw [if_pos heq]
    refine ⟨h.congr ?_ ?_, ?_, ?_⟩
    · rw [hrx]
      rfl
    · rw [hrx]
      exact has_or_of_disjoint (by decide) _
    · rw [hrx]
      rfl
    · have hlsr := congrArg Rx.lsr hrx
      have hlsr' : (serialRecv s c).lsr = s.lsr ||| uartLsrOe := hlsr
      rw [hlsr']
      exact has_or_self (by decide) _
  · -- room is left, and the head moves on without wrapping past the tail
    have hlt : (rxCount s).toNat < 1023 := by
      simpa [BitVec.le_def, serRxSz] using hfull
    have hne : s.rx.queue.length ≠ rxCapacity := by
      unfold rxCapacity
      omega
    have hrx : (serialRecv s c).rx =
        ⟨Function.update s.rxRing (s.rxHead.toNat % serRxSz) c, s.rxHead + 1, s.rxTail, s.lsr ||| uartLsrDr⟩ := by
      unfold serialRecv
      rw [serialUpdateIrq_rx, if_neg hfull]
      rfl
    have hqueue : (serialRecv s c).rx.queue = s.rx.queue ++ [c] := by
      rw [hrx]
      have hlt' : (s.rxHead - s.rxTail).toNat < 1023 := hlt
      have hfree : (s.rxHead - s.rxTail).toNat < serRxSz := lt_trans hlt' (by decide)
      have hwrap : (s.rxHead - s.rxTail).toNat + 1 < 2 ^ 32 := by omega
      exact RingBuffer.contents_push (by decide) hfree hwrap c
    rw [if_neg hne]
    refine ⟨⟨?_, ?_⟩, hqueue⟩
    · rw [hqueue, hrx, has_or_self (by decide)]
      simp
    · rw [hqueue, List.length_append, List.length_singleton]
      unfold rxCapacity at hle hne ⊢
      omega

/-- A write to THR: in loopback mode the byte arrives. -/
theorem serialTransmit_rx (h : s.rx.Ok) (val : BitVec 8) : (serialTransmit s val).rx.Ok ∧
    if has s.mcr uartMcrLoop = true then
      if s.rx.queue.length = rxCapacity then
        (serialTransmit s val).rx.queue = s.rx.queue ∧ has (serialTransmit s val).lsr uartLsrOe = true
      else (serialTransmit s val).rx.queue = s.rx.queue ++ [val]
    else (serialTransmit s val).rx.queue = s.rx.queue := by
  let s₁ : Serial := { s with thrIpending := false, lsr := s.lsr &&& ~~~(uartLsrThre ||| uartLsrTemt) }
  let s₂ : Serial := if has s.mcr uartMcrLoop = true then serialRecv s₁ val
    else { s₁ with console := consoleOutput s.console val }
  have hrx : (serialTransmit s val).rx = { s₂.rx with lsr := s₂.lsr ||| (uartLsrThre ||| uartLsrTemt) } :=
    serialUpdateIrq_rx _
  have hqueue : (serialTransmit s val).rx.queue = s₂.rx.queue := by
    rw [hrx]
    rfl
  have hlsr : (serialTransmit s val).lsr = s₂.lsr ||| (uartLsrThre ||| uartLsrTemt) := congrArg Rx.lsr hrx
  have hok₁ : s₁.rx.Ok := h.congr rfl (has_and_not (by decide) s.lsr)
  have hok : s₂.rx.Ok → (serialTransmit s val).rx.Ok := fun hok₂ => by
    refine hok₂.congr hqueue ?_
    rw [hrx]
    exact has_or_of_disjoint (by decide) _
  by_cases hloop : has s.mcr uartMcrLoop = true
  · have hs₂ : s₂ = serialRecv s₁ val := if_pos hloop
    obtain ⟨hok₂, hrecv⟩ := serialRecv_rx hok₁ val
    rw [hs₂] at hqueue hlsr hok
    rw [if_pos hloop, hqueue, hlsr, has_or_of_disjoint (by decide)]
    exact ⟨hok hok₂, hrecv⟩
  · have hs₂ : s₂ = { s₁ with console := consoleOutput s.console val } := if_neg hloop
    rw [hs₂] at hqueue hok
    rw [if_neg hloop]
    exact ⟨hok hok₁, hqueue⟩

/-- The FIFO is empty, or nothing has happened to it. -/
theorem serialWriteFcr_rx (h : s.rx.Ok) (val : BitVec 8) : (serialWriteFcr s val).rx.Ok ∧
    (serialWriteFcr s val).rx.queue =
      if (SerialOp.writeReg uartFcr val).clears s then [] else s.rx.queue := by
  -- toggling the FIFO enable bit clears both FIFOs, so `v` is the value that the handler goes by
  let v := if has (val ^^^ s.fcr) uartFcrEnableFifo then val ||| (uartFcrClearRcvr ||| uartFcrClearXmit) else val
  let x : Rx := if has v uartFcrClearRcvr then ⟨s.rxRing, 0, 0, s.lsr &&& ~~~(uartLsrDr ||| uartLsrBi)⟩ else s.rx
  have hrx : (serialWriteFcr s val).rx =
      { x with lsr := if has v uartFcrClearXmit then x.lsr ||| uartLsrThre else x.lsr } := by
    unfold serialWriteFcr
    rw [serialUpdateIrq_rx]
    by_cases hr : has v uartFcrClearRcvr = true <;> by_cases hx : has v uartFcrClearXmit = true <;>
      by_cases he : has (v &&& (uartFcrEnableFifo ||| uartFcrDmaSelect ||| uartFcrTriggerMask))
        uartFcrEnableFifo = true <;> simp [hr, hx, he, v, x] <;> rfl
  have hclears : (SerialOp.writeReg uartFcr val).clears s ↔ has v uartFcrClearRcvr = true := by
    have hset : has (val ||| (uartFcrClearRcvr ||| uartFcrClearXmit)) uartFcrClearRcvr = true := by
      rw [BitVec.or_comm uartFcrClearRcvr, ← BitVec.or_assoc]
      exact has_or_self (by decide) _
    show uartFcr = uartFcr ∧ _ ↔ _
    by_cases htoggle : has (val ^^^ s.fcr) uartFcrEnableFifo = true
    · have hv : v = val ||| (uartFcrClearRcvr ||| uartFcrClearXmit) := if_pos htoggle
      rw [hv, hset]
      simp [htoggle]
    · have hv : v = val := if_neg htoggle
      rw [hv]
      simp [htoggle]
  have hx : x.Ok ∧ x.queue = if (SerialOp.writeReg uartFcr val).clears s then [] else s.rx.queue := by
    simp only [hclears]
    by_cases hr : has v uartFcrClearRcvr = true
    · have hxr : x = ⟨s.rxRing, 0, 0, s.lsr &&& ~~~(uartLsrDr ||| uartLsrBi)⟩ := if_pos hr
      have hempty : x.queue = [] := by
        rw [hxr]
        exact RingBuffer.contents_self
      rw [if_pos hr]
      refine ⟨⟨?_, ?_⟩, hempty⟩
      · rw [hempty, hxr]
        exact has_and_not_dr s.lsr
      · rw [hempty]
        exact Nat.zero_le _
    · have hxr : x = s.rx := if_neg hr
      rw [if_neg hr, hxr]
      exact ⟨h, rfl⟩
  have hqueue : (serialWriteFcr s val).rx.queue = x.queue := by
    rw [hrx]
    rfl
  refine ⟨hx.1.congr hqueue ?_, hqueue.trans hx.2⟩
  rw [hrx]
  dsimp only
  split
  · exact has_or_of_disjoint (by decide) _
  · rfl

/-- A read of RBR takes the oldest byte, if there is one. -/
theorem serialReceive_rx (h : s.rx.Ok) : (serialReceive s).2.rx.Ok ∧
    (serialReceive s).2.rx.queue = s.rx.queue.tail ∧
      (s.rx.queue ≠ [] → s.rx.queue.head? = some (serialReceive s).1) := by
  have hzero : rxCount s = 0 ↔ s.rxHead = s.rxTail :=
    ⟨fun heq => RingBuffer.sub_eq_zero_iff.1 (congrArg BitVec.toNat heq),
      fun heq => BitVec.eq_of_toNat_eq (RingBuffer.sub_eq_zero_iff.2 heq)⟩
  have hnil : s.rx.queue = [] ↔ rxCount s = 0 := RingBuffer.contents_eq_nil_iff.trans hzero.symm
  -- after the byte is taken, before DR is cleared
  let y : Rx := if rxCount s ≠ 0 then { s.rx with tail := s.rxTail + 1 } else s.rx
  have hrx : (serialReceive s).2.rx =
      if y.head - y.tail = 0 then { y with lsr := y.lsr &&& ~~~(uartLsrDr ||| uartLsrBi) } else y := by
    unfold serialReceive
    dsimp only
    rw [serialUpdateIrq_rx]
    by_cases hc : rxCount s = 0
    · have hy : y = s.rx := if_neg (not_not.2 hc)
      rw [if_neg (not_not.2 hc), hy]
      dsimp only
      rw [apply_ite Serial.rx]
      rfl
    · have hy : y = { s.rx with tail := s.rxTail + 1 } := if_pos hc
      rw [if_pos hc, hy]
      dsimp only
      rw [apply_ite Serial.rx]
      rfl
  have hy : y.queue = s.rx.queue.tail ∧ y.lsr = s.lsr ∧
      (s.rx.queue ≠ [] → s.rx.queue.head? = some (serialReceive s).1) := by
    by_cases hc : rxCount s = 0
    · have hy : y = s.rx := if_neg (not_not.2 hc)
      rw [hy, hnil.2 hc]
      exact ⟨rfl, rfl, fun hne => absurd rfl hne⟩
    · have hy : y = { s.rx with tail := s.rxTail + 1 } := if_pos hc
      have hne : s.rxHead ≠ s.rxTail := fun heq => hc (hzero.2 heq)
      have hpop : s.rx.queue = s.rxRing (s.rxTail.toNat % serRxSz) :: y.queue := by
        rw [hy]
        exact RingBuffer.contents_pop (by decide) hne
      have hval : (serialReceive s).1 = s.rxRing (s.rxTail.toNat % serRxSz) := by
        unfold serialReceive
        dsimp only
        rw [if_pos hc]
      rw [hpop, hval, List.tail_cons, List.head?_cons]
      refine ⟨rfl, ?_, fun _ => rfl⟩
      rw [hy]
      rfl
  have hqueue : (serialReceive s).2.rx.queue = y.queue := by
    rw [hrx]
    split <;> rfl
  refine ⟨⟨?_, ?_⟩, hqueue.trans hy.1, hy.2.2⟩
  · rw [hqueue, hrx]
    by_cases hempty : y.head - y.tail = 0
    · have hnil' : y.queue = [] := by
        rw [← List.length_eq_zero_iff, Rx.length_queue, hempty]
        rfl
      rw [if_pos hempty, hnil']
      exact has_and_not_dr y.lsr
    · have hne' : y.queue ≠ [] := by
        intro hnil'
        rw [← List.length_eq_zero_iff, Rx.length_queue] at hnil'
        exact hempty (BitVec.eq_of_toNat_eq hnil')
      -- DR stays: a byte is left, so there was one before
      have hne : s.rx.queue ≠ [] := fun hnil' => hne' (by rw [hy.1, hnil', List.tail_nil])
      have hdr := h.dr
      rw [List.isEmpty_eq_false_iff.2 hne] at hdr
      rw [if_neg hempty, hy.2.1, List.isEmpty_eq_false_iff.2 hne']
      exact hdr
  · rw [hqueue, hy.1, List.length_tail]
    exact le_trans (Nat.sub_le ..) h.le

/-! ### Steps -/

theorem serialReadReg_rx (h : s.rx.Ok) (reg : BitVec 8) : (serialReadReg s reg).2.rx.Ok ∧
    (serialReadReg s reg).2.rx.queue =
      if (SerialOp.readReg reg).readsRbr s then s.rx.queue.tail else s.rx.queue := by
  -- a read of any other register, or of the divisor latch
  have hsame : ∀ s' : Serial, s'.rx.queue = s.rx.queue → has s'.rx.lsr uartLsrDr = has s.rx.lsr uartLsrDr →
      ¬(SerialOp.readReg reg).readsRbr s → s'.rx.Ok ∧
        s'.rx.queue = if (SerialOp.readReg reg).readsRbr s then s.rx.queue.tail else s.rx.queue := by
    intro s' hqueue hdr hno
    rw [if_neg hno]
    exact ⟨h.congr hqueue hdr, hqueue⟩
  have hother : reg ≠ uartRx → ¬(SerialOp.readReg reg).readsRbr s := fun hne hread => hne hread.1
  unfold serialReadReg
  by_cases h0 : reg = uartRx
  · rw [if_pos h0]
    cases hdlab : has s.lcr uartLcrDlab with
    | true =>
      refine hsame _ rfl rfl fun hread => ?_
      have hread' : has s.lcr uartLcrDlab = false := hread.2
      rw [hdlab] at hread'
      exact absurd hread' (by decide)
    | false =>
      obtain ⟨hok, hqueue, -⟩ := serialReceive_rx h
      rw [if_pos (show (SerialOp.readReg reg).readsRbr s from ⟨h0, hdlab⟩)]
      exact ⟨hok, hqueue⟩
  · have hno := hother h0
    rw [if_neg h0]
    by_cases h1 : reg = uartIer
    · rw [if_pos h1]
      exact hsame _ rfl rfl hno
    rw [if_neg h1]
    by_cases h2 : reg = uartIir
    · rw [if_pos h2]
      unfold serialReadIir
      dsimp only
      refine hsame _ ?_ ?_ hno
      · rw [apply_ite Serial.rx, serialUpdateIrq_rx]
        split <;> rfl
      · rw [apply_ite Serial.rx, serialUpdateIrq_rx]
        split <;> rfl
    rw [if_neg h2]
    by_cases h3 : reg = uartLcr
    · rw [if_pos h3]
      exact hsame _ rfl rfl hno
    rw [if_neg h3]
    by_cases h4 : reg = uartMcr
    · rw [if_pos h4]
      exact hsame _ rfl rfl hno
    rw [if_neg h4]
    by_cases h5 : reg = uartLsr
    · rw [if_pos h5]
      unfold serialReadLsr
      dsimp only
      refine hsame _ ?_ ?_ hno
      · rw [apply_ite Serial.rx, serialUpdateIrq_rx]
        split <;> rfl
      · rw [apply_ite Serial.rx, serialUpdateIrq_rx]
        split
        · exact has_and_not (by decide) s.lsr
        · rfl
    rw [if_neg h5]
    by_cases h6 : reg = uartMsr
    · rw [if_pos h6]
      unfold serialReadMsr
      by_cases hloop : has s.mcr uartMcrLoop = true
      · rw [if_pos hloop]
        exact hsame _ rfl rfl hno
      · rw [if_neg hloop]
        dsimp only
        refine hsame _ ?_ ?_ hno
        · rw [apply_ite Serial.rx, serialUpdateIrq_rx]
          split <;> rfl
        · rw [apply_ite Serial.rx, serialUpdateIrq_rx]
          split <;> rfl
    rw [if_neg h6]
    exact hsame _ rfl rfl hno

/-- What one step does to the FIFO. -/
theorem SerialOp.step_rx (h : s.rx.Ok) (op : SerialOp) : (op.step s).rx.Ok ∧
    match op.arrival s with
    | some c =>
      if s.rx.queue.length = rxCapacity then
        (op.step s).rx.queue = s.rx.queue ∧ has (op.step s).lsr uartLsrOe = true
      else (op.step s).rx.queue = s.rx.queue ++ [c]
    | none => (op.step s).rx.queue =
        if op.clears s then [] else if op.readsRbr s then s.rx.queue.tail else s.rx.queue := by
  cases op with
  | recv c => exact serialRecv_rx h c
  | readReg reg =>
    obtain ⟨hok, hqueue⟩ := serialReadReg_rx h reg
    refine ⟨hok, ?_⟩
    have hclear : ¬(SerialOp.readReg reg).clears s := id
    rw [show SerialOp.arrival s (.readReg reg) = none from rfl]
    dsimp only
    rw [if_neg hclear]
    exact hqueue
  | writeReg reg val =>
    have hnoread : ¬(SerialOp.writeReg reg val).readsRbr s := id
    have hsame : (serialWriteReg s reg val).rx = s.rx → (SerialOp.writeReg reg val).arrival s = none →
        ¬(SerialOp.writeReg reg val).clears s →
          (serialWriteReg s reg val).rx.Ok ∧ match (SerialOp.writeReg reg val).arrival s with
            | some c =>
              if s.rx.queue.length = rxCapacity then
                (serialWriteReg s reg val).rx.queue = s.rx.queue ∧
                  has (serialWriteReg s reg val).lsr uartLsrOe = true
              else (serialWriteReg s reg val).rx.queue = s.rx.queue ++ [c]
            | none => (serialWriteReg s reg val).rx.queue =
                if (SerialOp.writeReg reg val).clears s then []
                else if (SerialOp.writeReg reg val).readsRbr s then s.rx.queue.tail else s.rx.queue := by
      intro hrx hno hclear
      rw [hno]
      dsimp only
      rw [hrx, if_neg hclear, if_neg hnoread]
      exact ⟨h, rfl⟩
    have hnone : reg ≠ uartRx → (SerialOp.writeReg reg val).arrival s = none := fun hne =>
      if_neg fun hc => hne hc.1
    have hkeep : reg ≠ uartFcr → ¬(SerialOp.writeReg reg val).clears s := fun hne hc => hne hc.1
    show (serialWriteReg s reg val).rx.Ok ∧ _
    by_cases h0 : reg = uartRx
    · cases hdlab : has s.lcr uartLcrDlab with
      | true =>
        refine hsame ?_ (if_neg fun hc => ?_) (hkeep (by rw [h0]; decide))
        · unfold serialWriteReg
          rw [if_pos h0, hdlab, if_pos rfl]
          rfl
        · rw [hdlab] at hc
          exact absurd hc.2.1 (by decide)
      | false =>
        have hrun : serialWriteReg s reg val = serialTransmit s val := by
          unfold serialWriteReg
          rw [if_pos h0, hdlab]
          rfl
        have hclear : ¬(SerialOp.writeReg reg val).clears s := hkeep (by rw [h0]; decide)
        obtain ⟨hok, hqueue⟩ := serialTransmit_rx h val
        show (serialWriteReg s reg val).rx.Ok ∧ _
        unfold SerialOp.step
        dsimp only
        rw [hrun]
        refine ⟨hok, ?_⟩
        -- in loopback what is sent arrives
        by_cases hloop : has s.mcr uartMcrLoop = true
        · have harrive : (SerialOp.writeReg reg val).arrival s = some val := if_pos ⟨h0, hdlab, hloop⟩
          rw [if_pos hloop] at hqueue
          rw [harrive]
          exact hqueue
        · have harrive : (SerialOp.writeReg reg val).arrival s = none := if_neg fun hc => hloop hc.2.2
          rw [if_neg hloop] at hqueue
          rw [harrive]
          dsimp only
          rw [if_neg hclear, if_neg hnoread]
          exact hqueue
    by_cases h1 : reg = uartIer
    · cases hdlab : has s.lcr uartLcrDlab with
      | true =>
        refine hsame ?_ (hnone h0) (hkeep (by rw [h1]; decide))
        unfold serialWriteReg
        rw [if_neg h0, if_pos h1, hdlab, if_pos rfl]
        rfl
      | false =>
        refine hsame ?_ (hnone h0) (hkeep (by rw [h1]; decide))
        have hrun : serialWriteReg s reg val = serialWriteIer s val := by
          unfold serialWriteReg
          rw [if_neg h0, if_pos h1, hdlab]
          rfl
        rw [hrun]
        unfold serialWriteIer
        rw [serialUpdateIrq_rx, apply_ite Serial.rx]
        split <;> rfl
    by_cases h2 : reg = uartFcr
    · have hrun : serialWriteReg s reg val = serialWriteFcr s val := by
        unfold serialWriteReg
        rw [if_neg h0, if_neg h1, if_pos h2]
      obtain ⟨hok, hqueue⟩ := serialWriteFcr_rx h val
      unfold SerialOp.step
      dsimp only
      rw [hrun, hnone h0, h2]
      refine ⟨hok, ?_⟩
      dsimp only
      rw [if_neg (show ¬(SerialOp.writeReg uartFcr val).readsRbr s from id)]
      exact hqueue
    -- LCR, MCR, SCR and the read-only registers
    have hrest : (serialWriteReg s reg val).rx = s.rx := by
      unfold serialWriteReg
      rw [if_neg h0, if_neg h1, if_neg h2]
      split_ifs <;> rfl
    exact hsame hrest (hnone h0) (hkeep h2)

/-! ### Runs -/

/-- The port stands for the queue, and the queue has its history. -/
structure RxRun.Inv (x : RxRun) : Prop where
  ok : x.serial.rx.Ok
  queue : x.serial.rx.queue = x.queue.queue
  replies : x.replies = x.queue.returned
  accepted : x.queue.accepted = x.queue.gone.map Prod.fst ++ x.queue.queue

theorem RxRun.initial_inv : RxRun.initial.Inv := by
  refine ⟨⟨?_, ?_⟩, rfl, rfl, rfl⟩
  · decide
  · exact Nat.zero_le _

/-- A read replies with the byte that it takes out of the queue. -/
theorem SerialOp.reply_eq (h : s.rx.Ok) {op : SerialOp} (hread : op.readsRbr s) :
    op.reply s = s.rx.queue.head?.toList := by
  have hdlab : has s.lcr uartLcrDlab = false := by
    cases op with
    | readReg reg => exact hread.2
    | writeReg => exact hread.elim
    | recv => exact hread.elim
  have hval : (serialReadReg s uartRx).1 = (serialReceive s).1 := by
    unfold serialReadReg
    rw [if_pos rfl, hdlab]
    rfl
  have hdr : has s.lsr uartLsrDr = !s.rx.queue.isEmpty := h.dr
  unfold SerialOp.reply
  rw [hval, hdr]
  by_cases hnil : s.rx.queue = []
  · rw [hnil]
    simp
  · rw [(serialReceive_rx h).2.2 hnil, if_pos]
    · rfl
    · exact ⟨hread, by simpa using hnil⟩

theorem SerialOp.reply_nil {op : SerialOp} (hread : ¬op.readsRbr s) : op.reply s = [] :=
  if_neg fun h => hread h.1

theorem SerialOp.not_readsRbr_of_arrival {op : SerialOp} {c : BitVec 8} (h : op.arrival s = some c) :
    ¬op.readsRbr s := by
  cases op with
  | readReg reg => exact absurd h (by simp [SerialOp.arrival])
  | writeReg => exact id
  | recv => exact id

theorem SerialOp.not_readsRbr_of_clears {op : SerialOp} (h : op.clears s) : ¬op.readsRbr s := by
  cases op with
  | readReg reg => exact h.elim
  | writeReg => exact id
  | recv => exact id

theorem RxQueue.returned_read (x : RxQueue) : x.read.returned = x.returned ++ x.queue.head?.toList := by
  unfold returned read
  cases x.queue <;> simp

theorem RxQueue.returned_clear (x : RxQueue) : x.clear.returned = x.returned := by
  unfold returned clear
  simp [List.filter_map, Function.comp_def]

theorem RxRun.Inv.step {x : RxRun} (h : x.Inv) (op : SerialOp) : (x.step op).Inv := by
  obtain ⟨hok, hstep⟩ := SerialOp.step_rx h.ok op
  rw [h.queue] at hstep
  refine ⟨hok, ?_, ?_, ?_⟩
  all_goals
    show _ = _
    unfold RxRun.step RxQueue.step
    dsimp only
  · cases harrive : op.arrival x.serial with
    | some c =>
      rw [harrive] at hstep
      dsimp only at hstep ⊢
      unfold RxQueue.arrive
      have hle := h.ok.le
      rw [h.queue] at hle
      by_cases hfull : x.queue.queue.length = rxCapacity
      · rw [if_pos hfull] at hstep
        rw [if_neg (by omega)]
        exact hstep.1
      · rw [if_neg hfull] at hstep
        rw [if_pos (by omega)]
        exact hstep
    | none =>
      rw [harrive] at hstep
      dsimp only at hstep ⊢
      rw [hstep]
      split_ifs <;> rfl
  · rw [h.replies]
    cases harrive : op.arrival x.serial with
    | some c =>
      rw [SerialOp.reply_nil (SerialOp.not_readsRbr_of_arrival harrive), List.append_nil]
      dsimp only
      unfold RxQueue.arrive
      split <;> rfl
    | none =>
      dsimp only
      by_cases hclear : op.clears x.serial
      · rw [if_pos hclear, SerialOp.reply_nil (SerialOp.not_readsRbr_of_clears hclear), List.append_nil,
          RxQueue.returned_clear]
      · rw [if_neg hclear]
        by_cases hread : op.readsRbr x.serial
        · rw [if_pos hread, SerialOp.reply_eq h.ok hread, RxQueue.returned_read, h.queue]
        · rw [if_neg hread, SerialOp.reply_nil hread, List.append_nil]
  · cases harrive : op.arrival x.serial with
    | some c =>
      dsimp only
      unfold RxQueue.arrive
      split
      · dsimp only
        rw [h.accepted, List.append_assoc]
      · exact h.accepted
    | none =>
      dsimp only
      by_cases hclear : op.clears x.serial
      · rw [if_pos hclear]
        unfold RxQueue.clear
        simpa [Function.comp_def] using h.accepted
      · rw [if_neg hclear]
        by_cases hread : op.readsRbr x.serial
        · rw [if_pos hread]
          unfold RxQueue.read
          dsimp only
          rw [h.accepted]
          cases x.queue.queue <;> simp
        · rw [if_neg hread]
          exact h.accepted

theorem RxRun.Inv.law {x : RxRun} (h : x.Inv) : x.Law := by
  refine ⟨?_, ?_, ?_, h.replies, h.accepted, fun op c harrive => ?_⟩
  · rw [← h.queue]
    exact h.ok.dr
  · rw [← h.queue]
    exact h.ok.le
  · rw [← h.queue, Rx.length_queue]
    rfl
  · have hstep := (SerialOp.step_rx h.ok op).2
    have hle := h.ok.le
    rw [h.queue] at hle
    rw [harrive] at hstep
    dsimp only at hstep
    rw [h.queue] at hstep
    unfold RxQueue.step RxQueue.arrive
    rw [harrive]
    dsimp only
    by_cases hfull : x.queue.queue.length = rxCapacity
    · rw [if_pos hfull] at hstep
      rw [if_pos hfull, if_neg (by omega)]
      exact ⟨rfl, hstep.2⟩
    · rw [if_neg hfull, if_pos (by omega)]

/-- At every moment of every run the port is the bounded queue. -/
theorem serial_rxFifo (ops : List SerialOp) : (runSteps RxRun.step .initial ops).Law := by
  have hstep : ∀ (x : RxRun) (op : SerialOp), x.Inv → True → (x.step op).Inv := fun x op h _ => h.step op
  exact (AllSteps.inv hstep RxRun.initial_inv (.of_forall (fun _ _ => trivial) _ ops)).law

end MiniVirt.Vmm
