import MiniVirt.Vmm.Serial
import MiniVirt.Lib.Runs

/-!
# The interrupt of the serial port

`serial_update_irq_locked()` establishes the invariant `IrqInv` from any state whose FIFO bits of IIR
are right and whose line is at the level last sent; it is not lost by the operations that do without
the update, because those touch nothing that the interrupt depends on.
-/

namespace MiniVirt.Vmm

/-! ### Causes -/

/-- The interrupt causes, in the order of their priority. -/
inductive Cause where
  | rlsi | rdi | thri | msi
  deriving DecidableEq

namespace Cause

/-- The cause is pending and enabled. -/
def pending (s : Serial) : Cause → Bool
  | rlsi => has s.ier uartIerRlsi &&
      (has s.lsr uartLsrOe || has s.lsr uartLsrPe || has s.lsr uartLsrFe || has s.lsr uartLsrBi)
  | rdi => has s.ier uartIerRdi && has s.lsr uartLsrDr
  | thri => has s.ier uartIerThri && s.thrIpending
  | msi => has s.ier uartIerMsi && has s.msr uartMsrAnyDelta

/-- Bits 3:0 of IIR. -/
def code : Cause → BitVec 4
  | rlsi => 6
  | rdi => 4
  | thri => 2
  | msi => 0

/-- The highest-priority cause that is pending and enabled. -/
def highest (s : Serial) : Option Cause := [rlsi, rdi, thri, msi].find? (pending s)

end Cause

/-- Bits 3:0 of IIR, with 1 for no interrupt. -/
def intCode (c : Option Cause) : BitVec 4 := (c.map Cause.code).getD 1

theorem has_or (v m m' : BitVec 8) : has v (m ||| m') = (has v m || has v m') := by
  unfold has
  rw [Bool.eq_iff_iff]
  simp only [bne_iff_ne, Bool.or_eq_true, ne_eq]
  rw [← not_and_or, not_iff_not]
  constructor
  · intro h
    constructor
    · ext i hi
      have hbit := congrArg (fun b => b.getLsbD i) h
      simp at hbit ⊢
      grind
    · ext i hi
      have hbit := congrArg (fun b => b.getLsbD i) h
      simp at hbit ⊢
      grind
  · rintro ⟨h, h'⟩
    rw [BitVec.and_or_distrib_left, h, h']
    rfl

/-! ### The invariant -/

/-- What an update of the interrupt relies on. -/
structure LineInv (s : Serial) : Prop where
  /-- Bits 7:6 of IIR follow the FIFO enable bit of FCR. -/
  fifo : s.iir.extractLsb' 6 2 = if has s.fcr uartFcrEnableFifo then 3 else 0
  /-- `irq_level` is the level last sent, 0 before the first one. -/
  sent : s.irqLevel = s.irqLog.getLast?.getD false

/-- IIR and the interrupt line follow the causes. -/
structure IrqInv (s : Serial) : Prop extends LineInv s where
  id : s.iir.extractLsb' 0 4 = intCode (Cause.highest s)
  level : s.irqLevel = (Cause.highest s).isSome

theorem serialIntId_eq (s : Serial) : serialIntId s = (intCode (Cause.highest s)).setWidth 8 := by
  have hor := fun m m' => has_or s.lsr m m'
  unfold serialIntId Cause.highest
  simp only [hor, List.find?_cons, List.find?_nil]
  show (if Cause.pending s .rlsi then _ else if Cause.pending s .rdi then _
    else if Cause.pending s .thri then _ else if Cause.pending s .msi then _ else _) = _
  cases Cause.pending s .rlsi <;> cases Cause.pending s .rdi <;> cases Cause.pending s .thri <;>
    cases Cause.pending s .msi <;> rfl

theorem intId_ne_noInt (c : Option Cause) : ((intCode c).setWidth 8 != uartIirNoInt) = c.isSome := by
  rcases c with _ | c
  · rfl
  · cases c <;> rfl

theorem extract_or_fifo (c : BitVec 4) (v : BitVec 8) :
    (c.setWidth 8 ||| (v &&& uartIirFifoEnabled)).extractLsb' 0 4 = c ∧
      (c.setWidth 8 ||| (v &&& uartIirFifoEnabled)).extractLsb' 6 2 = v.extractLsb' 6 2 := by
  unfold uartIirFifoEnabled
  revert c v
  decide +kernel

theorem serialUpdateIrq_iir (s : Serial) :
    (serialUpdateIrq s).iir = (intCode (Cause.highest s)).setWidth 8 ||| (s.iir &&& uartIirFifoEnabled) := by
  rw [← serialIntId_eq]
  unfold serialUpdateIrq
  dsimp only
  split <;> rfl

theorem serialUpdateIrq_irqLevel (s : Serial) :
    (serialUpdateIrq s).irqLevel = (Cause.highest s).isSome := by
  rw [← intId_ne_noInt, ← serialIntId_eq]
  unfold serialUpdateIrq
  dsimp only
  split
  · rename_i h
    exact h.symm
  · rfl

/-- The causes and the FIFO mode stay. -/
theorem serialUpdateIrq_causes (s : Serial) :
    Cause.highest (serialUpdateIrq s) = Cause.highest s ∧ (serialUpdateIrq s).fcr = s.fcr := by
  unfold serialUpdateIrq
  dsimp only
  split <;> exact ⟨rfl, rfl⟩

theorem serialUpdateIrq_sent {s : Serial} (h : s.irqLevel = s.irqLog.getLast?.getD false) :
    (serialUpdateIrq s).irqLevel = (serialUpdateIrq s).irqLog.getLast?.getD false := by
  unfold serialUpdateIrq
  dsimp only
  split
  · exact h
  · dsimp only
    rw [List.getLast?_concat]
    rfl

theorem serialUpdateIrq_inv {s : Serial} (h : LineInv s) : IrqInv (serialUpdateIrq s) := by
  obtain ⟨hcause, hfcr⟩ := serialUpdateIrq_causes s
  obtain ⟨hid, hfifo⟩ := extract_or_fifo (intCode (Cause.highest s)) s.iir
  constructor
  · constructor
    · rw [serialUpdateIrq_iir, hfifo, hfcr, h.fifo]
    · exact serialUpdateIrq_sent h.sent
  · rw [serialUpdateIrq_iir, hid, hcause]
  · rw [serialUpdateIrq_irqLevel, hcause]

/-! ### The operations -/

variable {s : Serial}

theorem serialRecv_inv (h : LineInv s) (c : BitVec 8) : IrqInv (serialRecv s c) := by
  unfold serialRecv
  apply serialUpdateIrq_inv
  split <;> exact ⟨h.fifo, h.sent⟩

theorem serialTransmit_inv (h : LineInv s) (val : BitVec 8) : IrqInv (serialTransmit s val) := by
  unfold serialTransmit
  dsimp only
  apply serialUpdateIrq_inv
  split
  · -- in loopback mode the line is updated on the way, too
    have hrecv := serialRecv_inv
      (s := { s with thrIpending := false, lsr := s.lsr &&& ~~~(uartLsrThre ||| uartLsrTemt) })
      ⟨h.fifo, h.sent⟩ val
    exact ⟨hrecv.fifo, hrecv.sent⟩
  · exact ⟨h.fifo, h.sent⟩

theorem serialWriteIer_inv (h : LineInv s) (val : BitVec 8) : IrqInv (serialWriteIer s val) := by
  unfold serialWriteIer
  apply serialUpdateIrq_inv
  split <;> exact ⟨h.fifo, h.sent⟩

theorem fifo_bits (v : BitVec 8) :
    (v ||| uartIirFifoEnabled).extractLsb' 6 2 = 3 ∧
      (v &&& ~~~uartIirFifoEnabled).extractLsb' 6 2 = 0 := by
  unfold uartIirFifoEnabled
  revert v
  decide +kernel

theorem serialWriteFcr_inv (h : LineInv s) (val : BitVec 8) : IrqInv (serialWriteFcr s val) := by
  unfold serialWriteFcr
  extract_lets val' s₁ s₂ s₃
  have hsent : s₃.irqLevel = s₃.irqLog.getLast?.getD false := by
    have h₁ : s₁.irqLevel = s₁.irqLog.getLast?.getD false := by
      show (ite _ _ _ : Serial).irqLevel = (ite _ _ _ : Serial).irqLog.getLast?.getD false
      split <;> exact h.sent
    show (ite _ _ _ : Serial).irqLevel = (ite _ _ _ : Serial).irqLog.getLast?.getD false
    split <;> exact h₁
  apply serialUpdateIrq_inv
  split
  · rename_i hen
    refine ⟨?_, hsent⟩
    rw [(fifo_bits s₃.iir).1]
    exact (if_pos hen).symm
  · rename_i hen
    refine ⟨?_, hsent⟩
    rw [(fifo_bits s₃.iir).2]
    exact (if_neg hen).symm

/-! ### The registers -/

/-- What a register write comes down to, register by register. -/
theorem serialWriteReg_cases {P : Serial → Prop} (reg val : BitVec 8)
    (hdll : reg = uartRx → has s.lcr uartLcrDlab = true →
      P { s with divider := (s.divider &&& 0xff00) ||| val.setWidth 16 })
    (hthr : reg = uartRx → has s.lcr uartLcrDlab = false → P (serialTransmit s val))
    (hdlm : reg = uartIer → has s.lcr uartLcrDlab = true →
      P { s with divider := (s.divider &&& 0x00ff) ||| val.setWidth 16 <<< 8 })
    (hier : reg = uartIer → has s.lcr uartLcrDlab = false → P (serialWriteIer s val))
    (hfcr : reg = uartFcr → P (serialWriteFcr s val)) (hlcr : reg = uartLcr → P { s with lcr := val })
    (hmcr : reg = uartMcr → P { s with mcr := val }) (hscr : reg = uartScr → P { s with scr := val })
    (hsame : (reg ≠ uartRx ∧ reg ≠ uartIer ∧ reg ≠ uartFcr ∧ reg ≠ uartLcr ∧ reg ≠ uartMcr) → P s) :
    P (serialWriteReg s reg val) := by
  unfold serialWriteReg
  by_cases h0 : reg = uartRx
  · rw [if_pos h0]
    split
    · next hdlab => exact hdll h0 hdlab
    · next hdlab => exact hthr h0 (by simpa using hdlab)
  rw [if_neg h0]
  by_cases h1 : reg = uartIer
  · rw [if_pos h1]
    split
    · next hdlab => exact hdlm h1 hdlab
    · next hdlab => exact hier h1 (by simpa using hdlab)
  rw [if_neg h1]
  by_cases h2 : reg = uartFcr
  · rw [if_pos h2]
    exact hfcr h2
  rw [if_neg h2]
  by_cases h3 : reg = uartLcr
  · rw [if_pos h3]
    exact hlcr h3
  rw [if_neg h3]
  by_cases h4 : reg = uartMcr
  · rw [if_pos h4]
    exact hmcr h4
  rw [if_neg h4]
  split
  · next h5 => exact hscr h5
  · exact hsame ⟨h0, h1, h2, h3, h4⟩

/-- What a register read does, register by register. -/
theorem serialReadReg_cases {P : Serial → Prop} (reg : BitVec 8)
    (hrbr : reg = uartRx → has s.lcr uartLcrDlab = false → P (serialReceive s).2)
    (hiir : reg = uartIir → P (serialReadIir s).2) (hlsr : reg = uartLsr → P (serialReadLsr s).2)
    (hmsr : reg = uartMsr → P (serialReadMsr s).2)
    (hsame : (reg = uartRx → has s.lcr uartLcrDlab = true) ∧ reg ≠ uartIir → P s) :
    P (serialReadReg s reg).2 := by
  unfold serialReadReg
  by_cases h0 : reg = uartRx
  · rw [if_pos h0]
    split
    · next hdlab => exact hsame ⟨fun _ => hdlab, by rw [h0]; decide⟩
    · next hdlab => exact hrbr h0 (by simpa using hdlab)
  rw [if_neg h0]
  have hother : reg ≠ uartIir → P s := fun h => hsame ⟨fun heq => absurd heq h0, h⟩
  by_cases h2 : reg = uartIir
  · rw [if_neg (by rw [h2]; decide), if_pos h2]
    exact hiir h2
  split
  · exact hother h2
  split
  · exact hother h2
  split
  · exact hother h2
  split
  · next h5 => exact hlsr h5
  split
  · next h6 => exact hmsr h6
  · exact hother h2

theorem serialWriteReg_inv (h : IrqInv s) (reg val : BitVec 8) : IrqInv (serialWriteReg s reg val) := by
  have hline := h.toLineInv
  have hsame : ∀ s' : Serial, s'.iir = s.iir → s'.fcr = s.fcr → s'.irqLevel = s.irqLevel → s'.irqLog = s.irqLog →
      Cause.highest s' = Cause.highest s → IrqInv s' := by
    intro s' hiir hfcr hlevel hlog hcause
    constructor
    · constructor
      · rw [hiir, hfcr]
        exact h.fifo
      · rw [hlevel, hlog]
        exact h.sent
    · rw [hiir, hcause]
      exact h.id
    · rw [hlevel, hcause]
      exact h.level
  apply serialWriteReg_cases reg val
  · exact fun _ _ => hsame _ rfl rfl rfl rfl rfl
  · exact fun _ _ => serialTransmit_inv hline val
  · exact fun _ _ => hsame _ rfl rfl rfl rfl rfl
  · exact fun _ _ => serialWriteIer_inv hline val
  · exact fun _ => serialWriteFcr_inv hline val
  · exact fun _ => hsame _ rfl rfl rfl rfl rfl
  · exact fun _ => hsame _ rfl rfl rfl rfl rfl
  · exact fun _ => hsame _ rfl rfl rfl rfl rfl
  · exact fun _ => h

theorem serialReceive_inv (h : LineInv s) : IrqInv (serialReceive s).2 := by
  unfold serialReceive
  dsimp only
  apply serialUpdateIrq_inv
  split <;> split <;> exact ⟨h.fifo, h.sent⟩

theorem serialReadReg_inv (h : IrqInv s) (reg : BitVec 8) : IrqInv (serialReadReg s reg).2 := by
  have hline := h.toLineInv
  apply serialReadReg_cases reg
  · exact fun _ _ => serialReceive_inv hline
  · intro _
    unfold serialReadIir
    dsimp only
    split
    · exact serialUpdateIrq_inv ⟨h.fifo, h.sent⟩
    · exact h
  · intro _
    unfold serialReadLsr
    dsimp only
    split
    · exact serialUpdateIrq_inv ⟨h.fifo, h.sent⟩
    · exact h
  · intro _
    unfold serialReadMsr
    split
    · exact h
    · dsimp only
      split
      · exact serialUpdateIrq_inv ⟨h.fifo, h.sent⟩
      · exact h
  · exact fun _ => h

theorem SerialOp.step_inv (h : IrqInv s) (op : SerialOp) : IrqInv (op.step s) := by
  cases op with
  | writeReg reg val => exact serialWriteReg_inv h reg val
  | readReg reg => exact serialReadReg_inv h reg
  | recv c => exact serialRecv_inv h.toLineInv c

theorem initial_inv : IrqInv .initial := by
  refine ⟨⟨?_, ?_⟩, ?_, ?_⟩ <;> decide

/-- IIR and the interrupt line are right after every sequence of operations. -/
theorem serial_irqInv (ops : List SerialOp) : IrqInv (runSteps SerialOp.step .initial ops) := by
  have hrun : ∀ s, IrqInv s → IrqInv (runSteps SerialOp.step s ops) := by
    induction ops with
    | nil => exact fun _ h => h
    | cons op ops ih => exact fun s h => ih _ (op.step_inv h)
  exact hrun _ initial_inv

end MiniVirt.Vmm
