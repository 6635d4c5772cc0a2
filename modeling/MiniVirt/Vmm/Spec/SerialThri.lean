import MiniVirt.Vmm.Spec.SerialFifo
import MiniVirt.Vmm.Spec.SerialIrq

/-!
# The transmit-empty interrupt of the serial port

The latch `thr_ipending` is set by the three latch events and cleared by a read of IIR that reports THRI, and
by nothing else (`SerialOp.step_thrIpending`).  So each event is reported at most once, holds the line until then
and never afterwards, and is not lost while other causes come and go (`serial_thriLaw`).
-/

namespace MiniVirt.Vmm

/-! ### The law -/

/-- A write to THR, a write to IER that leaves THRI enabled, or a write to FCR that clears the transmitter or
toggles the FIFO enable bit. -/
def SerialOp.latches (s : Serial) : SerialOp → Prop
  | .writeReg reg val =>
    reg = uartRx ∧ has s.lcr uartLcrDlab = false ∨
      reg = uartIer ∧ has s.lcr uartLcrDlab = false ∧ has val uartIerThri = true ∨
        reg = uartFcr ∧ (has val uartFcrClearXmit = true ∨ has (val ^^^ s.fcr) uartFcrEnableFifo = true)
  | _ => False

/-- A read of IIR that reports THRI. -/
def SerialOp.reportsThri (s : Serial) : SerialOp → Prop
  | .readReg reg => reg = uartIir ∧ (serialReadReg s uartIir).1.extractLsb' 0 4 = Cause.thri.code
  | _ => False

instance (s : Serial) (op : SerialOp) : Decidable (op.latches s) :=
  match op with
  | .writeReg .. => inferInstanceAs (Decidable (_ ∨ _ ∨ _))
  | .readReg _ | .recv _ => .isFalse id

instance (s : Serial) (op : SerialOp) : Decidable (op.reportsThri s) :=
  match op with
  | .readReg _ => inferInstanceAs (Decidable (_ ∧ _))
  | .writeReg .. | .recv _ => .isFalse id

/-- The number of reads in `ops` that report THRI. -/
def thriReports (s : Serial) : List SerialOp → Nat
  | [] => 0
  | op :: ops => (if op.reportsThri s then 1 else 0) + thriReports (op.step s) ops

/-- The state after the operations `ops`. -/
def serialAfter (ops : List SerialOp) : Serial := runSteps SerialOp.step .initial ops

/-- What every history of the port satisfies. -/
structure ThriLaw : Prop where
  /-- At most one read reports THRI while no latch event happens. -/
  once : ∀ pre ops, AllSteps SerialOp.step (fun s op => ¬ op.latches s) (serialAfter pre) ops →
    thriReports (serialAfter pre) ops ≤ 1
  /-- After such a read THRI is not reported and does not hold the line until the next latch event. -/
  quiet : ∀ pre op ops, op.reportsThri (serialAfter pre) →
    AllSteps SerialOp.step (fun s op => ¬ op.latches s) (op.step (serialAfter pre)) ops →
      let s := serialAfter (pre ++ op :: ops)
      ¬ (SerialOp.readReg uartIir).reportsThri s ∧
        (s.irqLevel = true → ∃ c : Cause, c ≠ .thri ∧ c.pending s = true)
  /-- An event that has not been reported is reported by the next read of IIR, unless a higher cause is. -/
  kept : ∀ pre op ops, op.latches (serialAfter pre) →
    AllSteps SerialOp.step (fun s op => ¬ op.reportsThri s) (op.step (serialAfter pre)) ops →
      let s := serialAfter (pre ++ op :: ops)
      has s.ier uartIerThri = true → s.irqLevel = true ∧
        ((SerialOp.readReg uartIir).reportsThri s ∨ Cause.rlsi.pending s = true ∨ Cause.rdi.pending s = true)
  /-- THRE and TEMT are set between the operations. -/
  empty : ∀ ops, has (serialAfter ops).lsr uartLsrThre = true ∧ has (serialAfter ops).lsr uartLsrTemt = true

/-! ### The transmitter -/

variable {s : Serial}

/-- The transmitter is empty. -/
def Serial.TxEmpty (s : Serial) : Prop := has s.lsr uartLsrThre = true ∧ has s.lsr uartLsrTemt = true

@[simp]
theorem serialUpdateIrq_thrIpending (s : Serial) : (serialUpdateIrq s).thrIpending = s.thrIpending := by
  unfold serialUpdateIrq
  dsimp only
  split <;> rfl

@[simp]
theorem serialUpdateIrq_lsr (s : Serial) : (serialUpdateIrq s).lsr = s.lsr := by
  unfold serialUpdateIrq
  dsimp only
  split <;> rfl

theorem has_or_right {m m' : BitVec 8} (h : has m' m = true) (v : BitVec 8) : has (v ||| m') m = true := by
  have hand : (v ||| m') &&& m ≠ 0 := by
    intro hzero
    rw [BitVec.and_or_distrib_right] at hzero
    have hm : m' &&& m = 0 := by
      ext i hi
      have hbit := congrArg (fun b => b.getLsbD i) hzero
      simp at hbit ⊢
      grind
    unfold has at h
    simp [hm] at h
  unfold has
  simpa using hand

theorem TxEmpty.of_lsr {s' : Serial} (h : s.TxEmpty) (hthre : has s'.lsr uartLsrThre = has s.lsr uartLsrThre)
    (htemt : has s'.lsr uartLsrTemt = has s.lsr uartLsrTemt) : s'.TxEmpty :=
  ⟨hthre.trans h.1, htemt.trans h.2⟩

theorem serialRecv_txEmpty (h : s.TxEmpty) (c : BitVec 8) : (serialRecv s c).TxEmpty := by
  unfold serialRecv
  split
  · refine TxEmpty.of_lsr h ?_ ?_ <;> rw [serialUpdateIrq_lsr] <;> exact has_or_of_disjoint (by decide) _
  · refine TxEmpty.of_lsr h ?_ ?_ <;> rw [serialUpdateIrq_lsr] <;> exact has_or_of_disjoint (by decide) _

theorem serialTransmit_txEmpty (s : Serial) (val : BitVec 8) : (serialTransmit s val).TxEmpty := by
  unfold serialTransmit Serial.TxEmpty
  dsimp only
  rw [serialUpdateIrq_lsr]
  exact ⟨has_or_right (by decide) _, has_or_right (by decide) _⟩

theorem serialWriteIer_txEmpty (h : s.TxEmpty) (val : BitVec 8) : (serialWriteIer s val).TxEmpty := by
  unfold serialWriteIer Serial.TxEmpty
  dsimp only
  rw [serialUpdateIrq_lsr]
  split <;> exact h

theorem serialWriteFcr_txEmpty (h : s.TxEmpty) (val : BitVec 8) : (serialWriteFcr s val).TxEmpty := by
  unfold serialWriteFcr
  extract_lets v s₁ s₂ s₃
  have h₁ : s₁.TxEmpty := by
    show (ite _ _ _ : Serial).TxEmpty
    split
    · exact TxEmpty.of_lsr h (has_and_not (by decide) _) (has_and_not (by decide) _)
    · exact h
  have h₂ : s₂.TxEmpty := by
    show (ite _ _ _ : Serial).TxEmpty
    split
    · exact ⟨has_or_right (by decide) _, (has_or_of_disjoint (by decide) _).trans h₁.2⟩
    · exact h₁
  have h₃ : s₃.TxEmpty := h₂
  unfold Serial.TxEmpty
  rw [serialUpdateIrq_lsr]
  split <;> exact h₃

theorem serialReceive_txEmpty (h : s.TxEmpty) : (serialReceive s).2.TxEmpty := by
  unfold serialReceive Serial.TxEmpty
  extract_lets r s₁
  have hr : r.2.lsr = s.lsr := by
    show (ite _ _ _ : BitVec 8 × Serial).2.lsr = _
    split <;> rfl
  rw [serialUpdateIrq_lsr]
  show (ite _ _ _ : Serial).TxEmpty
  split
  · refine TxEmpty.of_lsr h ?_ ?_ <;> rw [← hr] <;> exact has_and_not (by decide) _
  · refine TxEmpty.of_lsr h ?_ ?_ <;> rw [hr]

theorem SerialOp.step_txEmpty (h : s.TxEmpty) (op : SerialOp) : (op.step s).TxEmpty := by
  have hupdate : ∀ s' : Serial, s'.TxEmpty → (serialUpdateIrq s').TxEmpty := by
    intro s' h'
    unfold Serial.TxEmpty
    rw [serialUpdateIrq_lsr]
    exact h'
  cases op with
  | writeReg reg val =>
    apply serialWriteReg_cases reg val
    · exact fun _ _ => h
    · exact fun _ _ => serialTransmit_txEmpty s val
    · exact fun _ _ => h
    · exact fun _ _ => serialWriteIer_txEmpty h val
    · exact fun _ => serialWriteFcr_txEmpty h val
    · exact fun _ => h
    · exact fun _ => h
    · exact fun _ => h
    · exact fun _ => h
  | readReg reg =>
    apply serialReadReg_cases reg
    · exact fun _ _ => serialReceive_txEmpty h
    · intro _
      unfold serialReadIir
      dsimp only
      split
      · exact hupdate _ h
      · exact h
    · intro _
      unfold serialReadLsr
      dsimp only
      split
      · exact hupdate _ (TxEmpty.of_lsr h (has_and_not (by decide) _) (has_and_not (by decide) _))
      · exact h
    · intro _
      unfold serialReadMsr
      split
      · exact h
      · dsimp only
        split
        · exact hupdate _ h
        · exact h
    · exact fun _ => h
  | recv c => exact serialRecv_txEmpty h c

/-! ### The latch -/

theorem serialRecv_thrIpending (s : Serial) (c : BitVec 8) : (serialRecv s c).thrIpending = s.thrIpending := by
  unfold serialRecv
  rw [serialUpdateIrq_thrIpending]
  split <;> rfl

theorem serialTransmit_thrIpending (s : Serial) (val : BitVec 8) : (serialTransmit s val).thrIpending = true := by
  unfold serialTransmit
  dsimp only
  rw [serialUpdateIrq_thrIpending]

theorem serialWriteIer_thrIpending (h : s.TxEmpty) (val : BitVec 8) :
    (serialWriteIer s val).thrIpending = if has val uartIerThri = true then true else s.thrIpending := by
  have hier : has (val &&& uartIerAllIntr) uartIerThri = has val uartIerThri := by
    unfold has
    rw [BitVec.and_assoc]
    rfl
  unfold serialWriteIer
  dsimp only
  rw [serialUpdateIrq_thrIpending, hier, h.1, Bool.and_true]
  split <;> rfl

theorem serialWriteFcr_thrIpending (s : Serial) (val : BitVec 8) :
    (serialWriteFcr s val).thrIpending =
      if has val uartFcrClearXmit = true ∨ has (val ^^^ s.fcr) uartFcrEnableFifo = true then true
      else s.thrIpending := by
  unfold serialWriteFcr
  extract_lets v s₁ s₂ s₃
  have hclear : has v uartFcrClearXmit = true ↔
      has val uartFcrClearXmit = true ∨ has (val ^^^ s.fcr) uartFcrEnableFifo = true := by
    by_cases htoggle : has (val ^^^ s.fcr) uartFcrEnableFifo = true
    · have hv : v = val ||| (uartFcrClearRcvr ||| uartFcrClearXmit) := if_pos htoggle
      rw [hv, has_or_right (by decide)]
      simp [htoggle]
    · have hv : v = val := if_neg htoggle
      rw [hv]
      simp [htoggle]
  have h₁ : s₁.thrIpending = s.thrIpending := by
    show (ite _ _ _ : Serial).thrIpending = _
    split <;> rfl
  have h₂ : s₂.thrIpending = if has v uartFcrClearXmit = true then true else s.thrIpending := by
    rw [← h₁]
    show (ite _ _ _ : Serial).thrIpending = _
    split <;> rfl
  have h₃ : s₃.thrIpending = s₂.thrIpending := rfl
  rw [serialUpdateIrq_thrIpending]
  refine Eq.trans ?_ (h₃.trans (h₂.trans (if_congr hclear rfl rfl)))
  split <;> rfl

/-- THRI is reported when it is the highest cause. -/
theorem IrqInv.reports_iff (h : IrqInv s) :
    (SerialOp.readReg uartIir).reportsThri s ↔ Cause.highest s = some .thri := by
  have hread : (serialReadReg s uartIir).1 = s.iir := rfl
  show uartIir = uartIir ∧ (serialReadReg s uartIir).1.extractLsb' 0 4 = _ ↔ _
  rw [hread, h.id]
  cases Cause.highest s with
  | none => decide
  | some c => cases c <;> decide

theorem IrqInv.thri_id_iff (h : IrqInv s) :
    s.iir &&& uartIirId = uartIirThri ↔ (SerialOp.readReg uartIir).reportsThri s := by
  have hbits : ∀ v : BitVec 8, v.extractLsb' 0 4 ≠ 3 →
      (v &&& uartIirId = uartIirThri ↔ v.extractLsb' 0 4 = Cause.thri.code) := by
    decide +kernel
  have hne : s.iir.extractLsb' 0 4 ≠ 3 := by
    rw [h.id]
    cases Cause.highest s with
    | none => decide
    | some c => cases c <;> decide
  exact (hbits s.iir hne).trans ⟨fun h => ⟨rfl, h⟩, fun h => h.2⟩

theorem serialReceive_thrIpending (s : Serial) : (serialReceive s).2.thrIpending = s.thrIpending := by
  unfold serialReceive
  extract_lets r s₁
  have hr : r.2.thrIpending = s.thrIpending := by
    show (ite _ _ _ : BitVec 8 × Serial).2.thrIpending = _
    split <;> rfl
  rw [serialUpdateIrq_thrIpending, ← hr]
  show (ite _ _ _ : Serial).thrIpending = _
  split <;> rfl

/-- What one operation does to the latch. -/
theorem SerialOp.step_thrIpending (h : IrqInv s) (hempty : s.TxEmpty) (op : SerialOp) :
    (op.step s).thrIpending =
      if op.latches s then true else if op.reportsThri s then false else s.thrIpending := by
  cases op with
  | writeReg reg val =>
    have hreport : ¬ (SerialOp.writeReg reg val).reportsThri s := id
    rw [if_neg hreport]
    have hsame : ∀ s' : Serial, s'.thrIpending = s.thrIpending → ¬ (SerialOp.writeReg reg val).latches s →
        s'.thrIpending = if (SerialOp.writeReg reg val).latches s then true else s.thrIpending := by
      intro s' hs' hlatch
      rw [if_neg hlatch, hs']
    have hlatches : (SerialOp.writeReg reg val).latches s ↔
        reg = uartRx ∧ has s.lcr uartLcrDlab = false ∨
          reg = uartIer ∧ has s.lcr uartLcrDlab = false ∧ has val uartIerThri = true ∨
            reg = uartFcr ∧ (has val uartFcrClearXmit = true ∨ has (val ^^^ s.fcr) uartFcrEnableFifo = true) :=
      Iff.rfl
    -- only THR, IER and FCR can set the latch
    have hother : reg ≠ uartRx ∧ reg ≠ uartIer ∧ reg ≠ uartFcr → ¬ (SerialOp.writeReg reg val).latches s := by
      rintro ⟨h0, h1, h2⟩ hl
      rcases hlatches.1 hl with hl | hl | hl
      · exact h0 hl.1
      · exact h1 hl.1
      · exact h2 hl.1
    apply serialWriteReg_cases (P := fun s' => s'.thrIpending = _) reg val
    · rintro rfl hdlab
      refine hsame _ rfl fun hl => ?_
      rw [hlatches, hdlab] at hl
      simp [uartRx, uartIer, uartFcr] at hl
    · intro h0 hdlab
      rw [serialTransmit_thrIpending, if_pos (hlatches.2 (.inl ⟨h0, hdlab⟩))]
    · rintro rfl hdlab
      refine hsame _ rfl fun hl => ?_
      rw [hlatches, hdlab] at hl
      simp [uartRx, uartIer, uartFcr] at hl
    · rintro rfl hdlab
      rw [serialWriteIer_thrIpending hempty]
      refine if_congr ?_ rfl rfl
      rw [hlatches, hdlab]
      simp [uartRx, uartIer, uartFcr]
    · rintro rfl
      rw [serialWriteFcr_thrIpending]
      refine if_congr ?_ rfl rfl
      rw [hlatches]
      simp [uartRx, uartIer, uartFcr]
    · rintro rfl
      exact hsame _ rfl (hother (by decide))
    · rintro rfl
      exact hsame _ rfl (hother (by decide))
    · rintro rfl
      exact hsame _ rfl (hother (by decide))
    · rintro ⟨h0, h1, h2, -⟩
      exact hsame _ rfl (hother ⟨h0, h1, h2⟩)
  | readReg reg =>
    have hlatch : ¬ (SerialOp.readReg reg).latches s := id
    rw [if_neg hlatch]
    -- only a read of IIR can clear it
    have hsame : ∀ s' : Serial, s'.thrIpending = s.thrIpending → reg ≠ uartIir →
        s'.thrIpending = if (SerialOp.readReg reg).reportsThri s then false else s.thrIpending := by
      intro s' hs' hne
      rw [if_neg fun hr => hne hr.1, hs']
    apply serialReadReg_cases (P := fun s' => s'.thrIpending = _) reg
    · rintro rfl _
      exact hsame _ (serialReceive_thrIpending s) (by decide)
    · rintro rfl
      unfold serialReadIir
      dsimp only
      by_cases hthri : (SerialOp.readReg uartIir).reportsThri s
      · rw [if_pos (h.thri_id_iff.2 hthri), if_pos hthri, serialUpdateIrq_thrIpending]
      · rw [if_neg fun hid => hthri (h.thri_id_iff.1 hid), if_neg hthri]
    · rintro rfl
      refine hsame _ ?_ (by decide)
      unfold serialReadLsr
      dsimp only
      split
      · rw [serialUpdateIrq_thrIpending]
      · rfl
    · rintro rfl
      refine hsame _ ?_ (by decide)
      unfold serialReadMsr
      split
      · rfl
      · dsimp only
        split
        · rw [serialUpdateIrq_thrIpending]
        · rfl
    · exact fun hne => hsame _ rfl hne.2
  | recv c =>
    have hlatch : ¬ (SerialOp.recv c).latches s := id
    have hreport : ¬ (SerialOp.recv c).reportsThri s := id
    rw [if_neg hlatch, if_neg hreport]
    exact serialRecv_thrIpending s c

/-! ### Histories -/

/-- What every reachable state of the port satisfies. -/
structure Serial.Ready (s : Serial) : Prop where
  irq : IrqInv s
  empty : s.TxEmpty

theorem Serial.Ready.step (h : s.Ready) (op : SerialOp) : (op.step s).Ready :=
  ⟨op.step_inv h.irq, op.step_txEmpty h.empty⟩

theorem serialAfter_ready (ops : List SerialOp) : (serialAfter ops).Ready := by
  have hstep : ∀ (s : Serial) (op : SerialOp), s.Ready → True → (op.step s).Ready := fun _ op h _ => h.step op
  exact AllSteps.inv hstep ⟨initial_inv, by unfold Serial.TxEmpty; decide⟩ (.of_forall (fun _ _ => trivial) _ ops)

theorem serialAfter_append (pre : List SerialOp) (op : SerialOp) (ops : List SerialOp) :
    serialAfter (pre ++ op :: ops) = runSteps SerialOp.step (op.step (serialAfter pre)) ops :=
  runSteps_append _ pre (op :: ops)

theorem Cause.highest_pending {c : Cause} (h : Cause.highest s = some c) : c.pending s = true := List.find?_some h

theorem Cause.thri_pending_iff : Cause.thri.pending s = true ↔ has s.ier uartIerThri = true ∧ s.thrIpending = true :=
  Bool.and_eq_true_iff

theorem Serial.Ready.latched (h : s.Ready) (hreport : (SerialOp.readReg uartIir).reportsThri s) :
    s.thrIpending = true :=
  (Cause.thri_pending_iff.1 (Cause.highest_pending (h.irq.reports_iff.1 hreport))).2

/-- Without a latch event nothing is reported while the latch is clear, and at most one read reports. -/
theorem thriReports_le (h : s.Ready) {ops : List SerialOp}
    (hops : AllSteps SerialOp.step (fun s op => ¬ op.latches s) s ops) :
    thriReports s ops ≤ if s.thrIpending = true then 1 else 0 := by
  induction ops generalizing s with
  | nil => exact Nat.zero_le _
  | cons op ops ih =>
    have hlatch := op.step_thrIpending h.irq h.empty
    have hrest := ih (h.step op) hops.2
    rw [if_neg hops.1] at hlatch
    rw [hlatch] at hrest
    unfold thriReports
    by_cases hreport : op.reportsThri s
    · have hiir : (SerialOp.readReg uartIir).reportsThri s := by
        cases op with
        | readReg reg => exact ⟨rfl, hreport.2⟩
        | writeReg => exact hreport.elim
        | recv => exact hreport.elim
      rw [if_pos hreport] at hrest ⊢
      rw [if_pos (h.latched hiir)]
      simpa using hrest
    · rw [if_neg hreport] at hrest ⊢
      omega

/-- A clear latch stays clear until the next latch event. -/
theorem thrIpending_of_no_latch (h : s.Ready) (hclear : s.thrIpending = false) {ops : List SerialOp}
    (hops : AllSteps SerialOp.step (fun s op => ¬ op.latches s) s ops) :
    (runSteps SerialOp.step s ops).Ready ∧ (runSteps SerialOp.step s ops).thrIpending = false := by
  have hstep : ∀ (s : Serial) (op : SerialOp), s.Ready ∧ s.thrIpending = false → ¬ op.latches s →
      (SerialOp.step s op).Ready ∧ (SerialOp.step s op).thrIpending = false := by
    rintro s op ⟨h, hclear⟩ hlatch
    refine ⟨h.step op, ?_⟩
    rw [op.step_thrIpending h.irq h.empty, if_neg hlatch, hclear, ite_self]
  exact AllSteps.inv hstep ⟨h, hclear⟩ hops

/-- A set latch stays set until a read reports THRI. -/
theorem thrIpending_of_no_report (h : s.Ready) (hset : s.thrIpending = true) {ops : List SerialOp}
    (hops : AllSteps SerialOp.step (fun s op => ¬ op.reportsThri s) s ops) :
    (runSteps SerialOp.step s ops).Ready ∧ (runSteps SerialOp.step s ops).thrIpending = true := by
  have hstep : ∀ (s : Serial) (op : SerialOp), s.Ready ∧ s.thrIpending = true → ¬ op.reportsThri s →
      (SerialOp.step s op).Ready ∧ (SerialOp.step s op).thrIpending = true := by
    rintro s op ⟨h, hset⟩ hreport
    refine ⟨h.step op, ?_⟩
    rw [op.step_thrIpending h.irq h.empty, if_neg hreport, hset, ite_self]
  exact AllSteps.inv hstep ⟨h, hset⟩ hops

/-- With the latch clear, THRI is not reported, and another cause holds the line when it is high. -/
theorem Serial.Ready.quiet (h : s.Ready) (hclear : s.thrIpending = false) :
    ¬ (SerialOp.readReg uartIir).reportsThri s ∧ (s.irqLevel = true → ∃ c : Cause, c ≠ .thri ∧ c.pending s = true) := by
  have hno : Cause.thri.pending s ≠ true := by
    rw [ne_eq, Cause.thri_pending_iff, hclear]
    simp
  refine ⟨fun hreport => ?_, fun hlevel => ?_⟩
  · rw [h.latched hreport] at hclear
    cases hclear
  · rw [h.irq.level] at hlevel
    obtain ⟨c, hc⟩ := Option.isSome_iff_exists.1 hlevel
    refine ⟨c, ?_, Cause.highest_pending hc⟩
    rintro rfl
    exact hno (Cause.highest_pending hc)

/-- With the latch set and THRI enabled, the line is high and THRI is reported, unless a higher cause is pending. -/
theorem Serial.Ready.kept (h : s.Ready) (hset : s.thrIpending = true) (hier : has s.ier uartIerThri = true) :
    s.irqLevel = true ∧ ((SerialOp.readReg uartIir).reportsThri s ∨ Cause.rlsi.pending s = true ∨
      Cause.rdi.pending s = true) := by
  have hthri : Cause.thri.pending s = true := Cause.thri_pending_iff.2 ⟨hier, hset⟩
  rw [h.irq.level, h.irq.reports_iff]
  unfold Cause.highest
  cases hrlsi : Cause.rlsi.pending s with
  | true => simp [hrlsi]
  | false =>
    cases hrdi : Cause.rdi.pending s with
    | true => simp [hrlsi, hrdi]
    | false => simp [hrlsi, hrdi, hthri]

/-- Along every history each latch event is reported at most once, and is kept until then. -/
theorem serial_thriLaw : ThriLaw where
  once pre ops hops := by
    have hle := thriReports_le (serialAfter_ready pre) hops
    split at hle <;> omega
  quiet pre op ops hreport hops := by
    have hready := serialAfter_ready pre
    have hlatch : ¬ op.latches (serialAfter pre) := by
      cases op with
      | readReg reg => exact id
      | writeReg => exact hreport.elim
      | recv => exact hreport.elim
    have hclear : (op.step (serialAfter pre)).thrIpending = false := by
      rw [op.step_thrIpending hready.irq hready.empty, if_neg hlatch, if_pos hreport]
    obtain ⟨hready', hclear'⟩ := thrIpending_of_no_latch (hready.step op) hclear hops
    rw [serialAfter_append]
    exact hready'.quiet hclear'
  kept pre op ops hlatch hops := by
    have hready := serialAfter_ready pre
    have hset : (op.step (serialAfter pre)).thrIpending = true := by
      rw [op.step_thrIpending hready.irq hready.empty, if_pos hlatch]
    obtain ⟨hready', hset'⟩ := thrIpending_of_no_report (hready.step op) hset hops
    rw [serialAfter_append]
    exact hready'.kept hset'
  empty ops := (serialAfter_ready ops).empty

end MiniVirt.Vmm
