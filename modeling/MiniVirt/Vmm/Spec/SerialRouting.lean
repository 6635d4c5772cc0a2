import MiniVirt.Vmm.Spec.SerialThri
import Mathlib.Tactic.IntervalCases

/-!
# Where the bytes written to the serial port go

The offsets 0 and 1 are the data registers or the divisor latch, by LCR.DLAB, and a byte for THR goes out or
into the receive FIFO, by MCR.LOOP.  `TxHistory` keeps the three apart, by the accesses alone;
`serial_routing` says that the port does so, too.
-/

namespace MiniVirt.Vmm

/-! ### The history -/

/-- The modes as last written, the two bytes of the divisor latch, and the bytes that have been sent. -/
structure TxHistory where
  lcr : BitVec 8
  mcr : BitVec 8
  dll : BitVec 8
  dlm : BitVec 8
  sent : List (BitVec 8)

namespace TxHistory

def initial : TxHistory := ⟨0, 0, 0, 0, []⟩

def dlab (t : TxHistory) : Bool := has t.lcr uartLcrDlab

def loop (t : TxHistory) : Bool := has t.mcr uartMcrLoop

def step (t : TxHistory) : SerialOp → TxHistory
  | .writeReg reg val =>
    if reg = uartRx then
      if t.dlab then { t with dll := val } else if t.loop then t else { t with sent := t.sent ++ [val] }
    else if reg = uartIer then
      if t.dlab then { t with dlm := val } else t
    else if reg = uartLcr then { t with lcr := val }
    else if reg = uartMcr then { t with mcr := val }
    else t
  | _ => t

end TxHistory

/-- The history of the operations `ops`. -/
def txHistory (ops : List SerialOp) : TxHistory := runSteps TxHistory.step .initial ops

/-- `s'` has the interrupt enables, the receive FIFO, LSR, the THRI latch and the interrupt of `s`. -/
structure Serial.SameLine (s s' : Serial) : Prop where
  ier : s'.ier = s.ier
  fifo : s'.rx.queue = s.rx.queue
  lsr : s'.lsr = s.lsr
  thrIpending : s'.thrIpending = s.thrIpending
  iir : s'.iir = s.iir
  irqLevel : s'.irqLevel = s.irqLevel
  irqLog : s'.irqLog = s.irqLog

/-- `s'` has the registers of `s` that a transmission does not concern, and the output of `s`. -/
structure Serial.SameRest (s s' : Serial) : Prop where
  ier : s'.ier = s.ier
  fcr : s'.fcr = s.fcr
  lcr : s'.lcr = s.lcr
  mcr : s'.mcr = s.mcr
  scr : s'.scr = s.scr
  msr : s'.msr = s.msr
  divider : s'.divider = s.divider
  console : s'.console = s.console

/-- What the port does after the operations `ops`. -/
structure RoutingLaw (ops : List SerialOp) : Prop where
  /-- The output is what has been written to THR outside loopback mode. -/
  sent : (serialAfter ops).console.out = (txHistory ops).sent
  /-- In loopback mode a byte goes into the receive FIFO only, or sets OE. -/
  looped : ∀ val, (txHistory ops).dlab = false → (txHistory ops).loop = true →
    let s := serialAfter ops
    let s' := serialWriteReg s uartRx val
    s.SameRest s' ∧
      if s.rx.queue.length = rxCapacity then s'.rx.queue = s.rx.queue ∧ has s'.lsr uartLsrOe = true
      else s'.rx.queue = s.rx.queue ++ [val]
  /-- Outside loopback mode it does not go there. -/
  direct : ∀ val, (txHistory ops).dlab = false → (txHistory ops).loop = false →
    (serialWriteReg (serialAfter ops) uartRx val).rx.queue = (serialAfter ops).rx.queue
  /-- The divisor latch reads back. -/
  divisor : (txHistory ops).dlab = true →
    (serialReadReg (serialAfter ops) uartRx).1 = (txHistory ops).dll ∧
      (serialReadReg (serialAfter ops) uartIer).1 = (txHistory ops).dlm
  /-- An access to the divisor latch is nothing but that. -/
  latch : (txHistory ops).dlab = true → ∀ reg, reg = uartRx ∨ reg = uartIer →
    (serialAfter ops).SameLine (serialReadReg (serialAfter ops) reg).2 ∧
      ∀ val, (serialAfter ops).SameLine (serialWriteReg (serialAfter ops) reg val)

/-! ### The transmit side -/

/-- The part of the port that the history is about. -/
structure Tx where
  lcr : BitVec 8
  mcr : BitVec 8
  divider : BitVec 16
  out : List (BitVec 8)

def Serial.tx (s : Serial) : Tx := ⟨s.lcr, s.mcr, s.divider, s.console.out⟩

def TxHistory.tx (t : TxHistory) : Tx := ⟨t.lcr, t.mcr, t.dlm ++ t.dll, t.sent⟩

variable {s : Serial}

@[simp]
theorem serialUpdateIrq_tx (s : Serial) : (serialUpdateIrq s).tx = s.tx := by
  unfold serialUpdateIrq
  dsimp only
  split <;> rfl

theorem serialRecv_tx (s : Serial) (c : BitVec 8) : (serialRecv s c).tx = s.tx := by
  unfold serialRecv
  rw [serialUpdateIrq_tx]
  split <;> rfl

theorem serialTransmit_tx (s : Serial) (val : BitVec 8) :
    (serialTransmit s val).tx =
      if has s.mcr uartMcrLoop = true then s.tx else { s.tx with out := s.console.out ++ [val] } := by
  unfold serialTransmit
  extract_lets s₁ s₂
  have htx : s₂.tx = if has s.mcr uartMcrLoop = true then s.tx else { s.tx with out := s.console.out ++ [val] } := by
    show (ite _ _ _ : Serial).tx = _
    split
    · exact serialRecv_tx s₁ val
    · rfl
  rw [serialUpdateIrq_tx]
  exact htx

theorem serialWriteIer_tx (s : Serial) (val : BitVec 8) : (serialWriteIer s val).tx = s.tx := by
  unfold serialWriteIer
  dsimp only
  rw [serialUpdateIrq_tx]
  split <;> rfl

theorem serialWriteFcr_tx (s : Serial) (val : BitVec 8) : (serialWriteFcr s val).tx = s.tx := by
  unfold serialWriteFcr
  extract_lets v s₁ s₂ s₃
  have h₁ : s₁.tx = s.tx := by
    show (ite _ _ _ : Serial).tx = _
    split <;> rfl
  have h₂ : s₂.tx = s₁.tx := by
    show (ite _ _ _ : Serial).tx = _
    split <;> rfl
  have h₃ : s₃.tx = s₂.tx := rfl
  rw [serialUpdateIrq_tx]
  refine Eq.trans ?_ (h₃.trans (h₂.trans h₁))
  split <;> rfl

theorem serialReceive_tx (s : Serial) : (serialReceive s).2.tx = s.tx := by
  unfold serialReceive
  extract_lets r s₁
  have hr : r.2.tx = s.tx := by
    show (ite _ _ _ : BitVec 8 × Serial).2.tx = _
    split <;> rfl
  rw [serialUpdateIrq_tx, ← hr]
  show (ite _ _ _ : Serial).tx = _
  split <;> rfl

theorem serialReadReg_tx (s : Serial) (reg : BitVec 8) : (serialReadReg s reg).2.tx = s.tx := by
  apply serialReadReg_cases (P := fun s' => s'.tx = s.tx) reg
  · exact fun _ _ => serialReceive_tx s
  · intro _
    unfold serialReadIir
    dsimp only
    split
    · exact serialUpdateIrq_tx _
    · rfl
  · intro _
    unfold serialReadLsr
    dsimp only
    split
    · exact serialUpdateIrq_tx _
    · rfl
  · intro _
    unfold serialReadMsr
    split
    · rfl
    · dsimp only
      split
      · exact serialUpdateIrq_tx _
      · rfl
  · exact fun _ => rfl

theorem divider_write_low (h l v : BitVec 8) :
    ((h ++ l : BitVec 16) &&& 0xff00) ||| v.setWidth 16 = (h ++ v : BitVec 16) := by
  apply BitVec.eq_of_getLsbD_eq
  intro i hi
  rw [BitVec.getLsbD_or, BitVec.getLsbD_and, BitVec.getLsbD_append, BitVec.getLsbD_append, BitVec.getLsbD_setWidth]
  interval_cases i <;> simp

theorem divider_write_high (h l v : BitVec 8) :
    ((h ++ l : BitVec 16) &&& 0x00ff) ||| v.setWidth 16 <<< 8 = (v ++ l : BitVec 16) := by
  apply BitVec.eq_of_getLsbD_eq
  intro i hi
  rw [BitVec.getLsbD_or, BitVec.getLsbD_and, BitVec.getLsbD_append, BitVec.getLsbD_append, BitVec.getLsbD_shiftLeft,
    BitVec.getLsbD_setWidth]
  interval_cases i <;> simp

theorem divider_low (h l : BitVec 8) : ((h ++ l : BitVec 16) &&& 0xff).setWidth 8 = l := by
  apply BitVec.eq_of_getLsbD_eq
  intro i hi
  rw [BitVec.getLsbD_setWidth, BitVec.getLsbD_and, BitVec.getLsbD_append]
  interval_cases i <;> simp

theorem divider_high (h l : BitVec 8) : ((h ++ l : BitVec 16) >>> 8).setWidth 8 = h := by
  apply BitVec.eq_of_getLsbD_eq
  intro i hi
  rw [BitVec.getLsbD_setWidth, BitVec.getLsbD_ushiftRight, BitVec.getLsbD_append]
  interval_cases i <;> simp

/-- The port follows the history. -/
theorem SerialOp.step_tx {t : TxHistory} (h : s.tx = t.tx) (op : SerialOp) : (op.step s).tx = (t.step op).tx := by
  have hdlab : has s.lcr uartLcrDlab = t.dlab := congrArg (fun x : Tx => has x.lcr uartLcrDlab) h
  have hloop : has s.mcr uartMcrLoop = t.loop := congrArg (fun x : Tx => has x.mcr uartMcrLoop) h
  have hdivider : s.divider = t.dlm ++ t.dll := congrArg Tx.divider h
  have hout : s.console.out = t.sent := congrArg Tx.out h
  cases op with
  | recv c => exact (serialRecv_tx s c).trans h
  | readReg reg => exact (serialReadReg_tx s reg).trans h
  | writeReg reg val =>
    -- offsets 0 and 1 are the divisor latch if DLAB is set
    have hdiv : ∀ d, ({ s with divider := d } : Serial).tx = { t.tx with divider := d } := fun d =>
      congrArg (fun x : Tx => { x with divider := d }) h
    apply serialWriteReg_cases (P := fun s' => s'.tx = (t.step (.writeReg reg val)).tx) reg val
    · rintro rfl hlatch
      rw [hdiv, hdivider, divider_write_low]
      unfold TxHistory.step
      dsimp only
      rw [if_pos rfl, if_pos (hdlab.symm.trans hlatch)]
      rfl
    · rintro rfl hdata
      have hstep : t.step (.writeReg uartRx val) = if t.loop then t else { t with sent := t.sent ++ [val] } := by
        unfold TxHistory.step
        dsimp only
        rw [if_pos rfl, ← hdlab, hdata]
        rfl
      rw [serialTransmit_tx, hloop, hout, h, hstep, apply_ite TxHistory.tx]
      rfl
    · rintro rfl hlatch
      rw [hdiv, hdivider, divider_write_high]
      unfold TxHistory.step
      dsimp only
      rw [if_neg (by decide), if_pos rfl, if_pos (hdlab.symm.trans hlatch)]
      rfl
    · rintro rfl hdata
      rw [serialWriteIer_tx, h]
      unfold TxHistory.step
      dsimp only
      rw [if_neg (by decide), if_pos rfl, if_neg (by rw [← hdlab, hdata]; decide)]
    · rintro rfl
      rw [serialWriteFcr_tx, h]
      rfl
    · rintro rfl
      exact congrArg (fun x : Tx => { x with lcr := val }) h
    · rintro rfl
      exact congrArg (fun x : Tx => { x with mcr := val }) h
    · rintro rfl
      exact h
    · rintro ⟨h0, h1, -, h3, h4⟩
      unfold TxHistory.step
      dsimp only
      rw [if_neg h0, if_neg h1, if_neg h3, if_neg h4]
      exact h

theorem serialAfter_tx (ops : List SerialOp) : (serialAfter ops).tx = (txHistory ops).tx := by
  have hrun : ∀ (s : Serial) (t : TxHistory), s.tx = t.tx →
      (runSteps SerialOp.step s ops).tx = (runSteps TxHistory.step t ops).tx := by
    induction ops with
    | nil => exact fun _ _ h => h
    | cons op ops ih => exact fun s t h => ih _ _ (SerialOp.step_tx h op)
  exact hrun _ _ rfl

/-! ### One access -/

theorem serialUpdateIrq_rest (s : Serial) : s.SameRest (serialUpdateIrq s) := by
  unfold serialUpdateIrq
  dsimp only
  split <;> exact ⟨rfl, rfl, rfl, rfl, rfl, rfl, rfl, rfl⟩

theorem Serial.SameRest.trans {s₁ s₂ s₃ : Serial} (h₁ : s₁.SameRest s₂) (h₂ : s₂.SameRest s₃) : s₁.SameRest s₃ :=
  ⟨h₂.ier.trans h₁.ier, h₂.fcr.trans h₁.fcr, h₂.lcr.trans h₁.lcr, h₂.mcr.trans h₁.mcr, h₂.scr.trans h₁.scr,
    h₂.msr.trans h₁.msr, h₂.divider.trans h₁.divider, h₂.console.trans h₁.console⟩

theorem serialRecv_rest (s : Serial) (c : BitVec 8) : s.SameRest (serialRecv s c) := by
  unfold serialRecv
  refine Serial.SameRest.trans ?_ (serialUpdateIrq_rest _)
  split <;> exact ⟨rfl, rfl, rfl, rfl, rfl, rfl, rfl, rfl⟩

theorem serialTransmit_rest (hloop : has s.mcr uartMcrLoop = true) (val : BitVec 8) :
    s.SameRest (serialTransmit s val) := by
  unfold serialTransmit
  extract_lets s₁ s₂
  have h₂ : s₂ = serialRecv s₁ val := if_pos hloop
  have h₁ : s.SameRest s₁ := ⟨rfl, rfl, rfl, rfl, rfl, rfl, rfl, rfl⟩
  refine (h₁.trans (serialRecv_rest s₁ val)).trans ?_
  rw [← h₂]
  have h₃ : s₂.SameRest { s₂ with lsr := s₂.lsr ||| (uartLsrThre ||| uartLsrTemt), thrIpending := true } :=
    ⟨rfl, rfl, rfl, rfl, rfl, rfl, rfl, rfl⟩
  exact h₃.trans (serialUpdateIrq_rest _)

theorem serialWriteReg_thr (hdlab : has s.lcr uartLcrDlab = false) (val : BitVec 8) :
    serialWriteReg s uartRx val = serialTransmit s val := by
  unfold serialWriteReg
  rw [if_pos rfl, hdlab]
  rfl

theorem serialAfter_ok (ops : List SerialOp) : (serialAfter ops).rx.Ok := by
  have hstep : ∀ (s : Serial) (op : SerialOp), s.rx.Ok → True → (op.step s).rx.Ok := fun _ op h _ =>
    (SerialOp.step_rx h op).1
  exact AllSteps.inv hstep RxRun.initial_inv.ok (.of_forall (fun _ _ => trivial) _ ops)

/-- With DLAB set, the accesses to the offsets 0 and 1 touch the divisor latch only. -/
theorem sameLine_of_dlab (hdlab : has s.lcr uartLcrDlab = true) {reg : BitVec 8}
    (hreg : reg = uartRx ∨ reg = uartIer) :
    s.SameLine (serialReadReg s reg).2 ∧ ∀ val, s.SameLine (serialWriteReg s reg val) := by
  have hdiv : ∀ d, s.SameLine { s with divider := d } := fun _ => ⟨rfl, rfl, rfl, rfl, rfl, rfl, rfl⟩
  have hread : (serialReadReg s reg).2 = s := by
    unfold serialReadReg
    rcases hreg with rfl | rfl
    · rw [if_pos rfl, if_pos hdlab]
    · rw [if_neg (by decide), if_pos rfl]
  rw [hread]
  refine ⟨⟨rfl, rfl, rfl, rfl, rfl, rfl, rfl⟩, fun val => ?_⟩
  unfold serialWriteReg
  rcases hreg with rfl | rfl
  · rw [if_pos rfl, if_pos hdlab]
    exact hdiv _
  · rw [if_neg (by decide), if_pos rfl, if_pos hdlab]
    exact hdiv _

/-- After every sequence of operations the port routes as its history says. -/
theorem serial_routing (ops : List SerialOp) : RoutingLaw ops := by
  have h := serialAfter_tx ops
  have hok := serialAfter_ok ops
  have hdlab : has (serialAfter ops).lcr uartLcrDlab = (txHistory ops).dlab :=
    congrArg (fun x : Tx => has x.lcr uartLcrDlab) h
  have hloop : has (serialAfter ops).mcr uartMcrLoop = (txHistory ops).loop :=
    congrArg (fun x : Tx => has x.mcr uartMcrLoop) h
  have hdivider : (serialAfter ops).divider = (txHistory ops).dlm ++ (txHistory ops).dll := congrArg Tx.divider h
  refine ⟨congrArg Tx.out h, ?_, ?_, ?_, ?_⟩
  · intro val hdata hlooped
    dsimp only
    rw [serialWriteReg_thr (hdlab.trans hdata)]
    have hrecv := (serialTransmit_rx hok val).2
    rw [if_pos (hloop.trans hlooped)] at hrecv
    exact ⟨serialTransmit_rest (hloop.trans hlooped) val, hrecv⟩
  · intro val hdata hdirect
    rw [serialWriteReg_thr (hdlab.trans hdata)]
    have hrecv := (serialTransmit_rx hok val).2
    rwa [if_neg (by rw [hloop, hdirect]; decide)] at hrecv
  · intro hlatch
    unfold serialReadReg
    rw [if_pos rfl, if_pos (hdlab.trans hlatch), if_neg (by decide), if_pos rfl, if_pos (hdlab.trans hlatch), hdivider]
    exact ⟨divider_low _ _, divider_high _ _⟩
  · intro hlatch reg hreg
    exact sameLine_of_dlab (hdlab.trans hlatch) hreg

end MiniVirt.Vmm
