import MiniVirt.Lib.BitHalves
import MiniVirt.Vmm.Spec.Registers
import Mathlib.Data.List.Infix

/-!
# The set-up of the queues

`Book` is what the driver has written, register by register, for the queue that it had selected.
`queueConfig_iff` says in which runs the queues of a device are what the book says: a QUEUE_SEL of 4 or more
selects queue 0, and the size and the ready flag are stored as they come.
-/

namespace MiniVirt.Vmm

/-! ### The book -/

/-- The last value of QUEUE_SEL, and the value last written to each register while a queue was selected. -/
structure Book where
  sel : BitVec 32
  reg : Nat → Nat → BitVec 32

def Book.zero : Book := ⟨0, fun _ _ => 0⟩

/-- A reset of the device makes all its queues unready. -/
def Book.step (d : Dev) (b : Book) : DriverAct → Book
  | .store _ => b
  | .write d' off _ val =>
    if d' ≠ d then b
    else if off = vmmioQueueSel then { b with sel := val.setWidth 32 }
    else if off = vmmioStatus ∧ val = 0 then
      { b with reg := fun q r => if r = vmmioQueueReady then 0 else b.reg q r }
    else { b with reg := fun q r => if q = b.sel.toNat ∧ r = off then val.setWidth 32 else b.reg q r }

/-- The queue is what the registers say. -/
structure Vq.Written (q : Vq) (reg : Nat → BitVec 32) : Prop where
  num : q.num = reg vmmioQueueNum
  ready : q.ready = reg vmmioQueueReady
  desc : q.desc = reg vmmioQueueDescHigh ++ reg vmmioQueueDescLow
  avail : q.avail = reg vmmioQueueAvailHigh ++ reg vmmioQueueAvailLow
  used : q.used = reg vmmioQueueUsedHigh ++ reg vmmioQueueUsedLow

/-- A size that QUEUE_NUM_MAX allows. -/
def SizeOk (num : BitVec 32) : Prop := num.toNat.isPowerOfTwo ∧ num.toNat ≤ vringNumMax

instance (num : BitVec 32) : Decidable (SizeOk num) := inferInstanceAs (Decidable (_ ∧ _))

/-- For the queues of `d` in the run `acts` from `s`, where `b` is the book at the beginning. -/
structure ConfigLaw (d : Dev) (s : St) (b : Book) (acts : List DriverAct) : Prop where
  written : ∀ pre, pre <+: acts → ∀ qi, qi < d.nqueues →
    ((runSteps DriverAct.step s pre).vq d qi).Written ((pre.foldl (Book.step d) b).reg qi)
  /-- A write other than a reset. -/
  outside : ∀ pre off len val, pre ++ [.write d off len val] <+: acts → ¬(off = vmmioStatus ∧ val = 0) →
    d.nqueues ≤ ((runSteps DriverAct.step s pre).dev d).queueSel.toNat → ∀ qi, qi < d.nqueues →
      ((runSteps DriverAct.step s (pre ++ [.write d off len val])).vq d qi).config =
        ((runSteps DriverAct.step s pre).vq d qi).config
  size : ∀ pre, pre <+: acts → ∀ qi, qi < d.nqueues → ((runSteps DriverAct.step s pre).vq d qi).ready ≠ 0 →
    SizeOk ((runSteps DriverAct.step s pre).vq d qi).num

/-! ### The condition -/

/-- The registers of a queue. -/
def queueRegs : List Nat :=
  [vmmioQueueNum, vmmioQueueReady, vmmioQueueDescLow, vmmioQueueDescHigh, vmmioQueueAvailLow,
    vmmioQueueAvailHigh, vmmioQueueUsedLow, vmmioQueueUsedHigh]

/-- The value of a register of the queue. -/
def Vq.reg (q : Vq) (off : Nat) : BitVec 32 :=
  if off = vmmioQueueNum then q.num
  else if off = vmmioQueueReady then q.ready
  else if off = vmmioQueueDescLow then q.desc.extractLsb' 0 32
  else if off = vmmioQueueDescHigh then q.desc.extractLsb' 32 32
  else if off = vmmioQueueAvailLow then q.avail.extractLsb' 0 32
  else if off = vmmioQueueAvailHigh then q.avail.extractLsb' 32 32
  else if off = vmmioQueueUsedLow then q.used.extractLsb' 0 32
  else if off = vmmioQueueUsedHigh then q.used.extractLsb' 32 32
  else 0

/-- A write to a register of a queue: with a QUEUE_SEL of 4 or more it writes what queue 0 has there, and a
queue of the device is ready only with a size that QUEUE_NUM_MAX allows. -/
def DriverAct.ConfigOk (d : Dev) (s : St) : DriverAct → Prop
  | .store _ => True
  | .write d' off _ val => d' = d → off ∈ queueRegs →
    (vqMax ≤ (s.dev d).queueSel.toNat → (s.vq d 0).reg off = val.setWidth 32) ∧
      ((s.dev d).queueSel.toNat < d.nqueues →
        (off = vmmioQueueReady → val.setWidth 32 ≠ 0 → SizeOk (s.vq d (s.dev d).queueSel.toNat).num) ∧
          (off = vmmioQueueNum → (s.vq d (s.dev d).queueSel.toNat).ready ≠ 0 → SizeOk (val.setWidth 32)))

/-! ### Registers of a queue -/

theorem setLow_append (h l : BitVec 32) (val : BitVec 64) : setLow (h ++ l) val = h ++ val.setWidth 32 :=
  and_high_or h l _

theorem setHigh_append (h l : BitVec 32) (val : BitVec 64) : setHigh (h ++ l) val = val.setWidth 32 ++ l :=
  and_low_or h l _

/-- `setLow` writes the low half and keeps the high one. -/
theorem halves_setLow (a val : BitVec 64) : (setLow a val).extractLsb' 0 32 = val.setWidth 32 ∧
    (setLow a val).extractLsb' 32 32 = a.extractLsb' 32 32 := by
  rw [← eq_append_halves a, setLow_append, BitVec.extractLsb'_append_eq_left, BitVec.extractLsb'_append_eq_left,
    BitVec.extractLsb'_append_eq_right]
  exact ⟨rfl, rfl⟩

theorem halves_setHigh (a val : BitVec 64) : (setHigh a val).extractLsb' 32 32 = val.setWidth 32 ∧
    (setHigh a val).extractLsb' 0 32 = a.extractLsb' 0 32 := by
  rw [← eq_append_halves a, setHigh_append, BitVec.extractLsb'_append_eq_left, BitVec.extractLsb'_append_eq_right,
    BitVec.extractLsb'_append_eq_right]
  exact ⟨rfl, rfl⟩

variable {q q' : Vq} {off : Nat} {val : BitVec 64}

theorem write_isSome_iff : (q.write off val).isSome ↔ off ∈ queueRegs := by
  unfold Vq.write queueRegs
  split_ifs <;> simp_all

theorem reg_write_self (h : q.write off val = some q') : q'.reg off = val.setWidth 32 := by
  unfold Vq.write at h
  split_ifs at h <;> cases h <;> subst off
  · rfl
  · rfl
  · exact (halves_setLow q.desc val).1
  · exact (halves_setHigh q.desc val).1
  · exact (halves_setLow q.avail val).1
  · exact (halves_setHigh q.avail val).1
  · exact (halves_setLow q.used val).1
  · exact (halves_setHigh q.used val).1

theorem reg_write_of_ne {r : Nat} (hr : r ≠ off) (h : q.write off val = some q') : q'.reg r = q.reg r := by
  unfold Vq.write at h
  split_ifs at h <;> cases h <;> subst off <;> unfold Vq.reg <;> dsimp only
  · rw [if_neg hr, if_neg hr]
  · rw [if_neg hr, if_neg hr]
  · rw [if_neg hr, if_neg hr, (halves_setLow q.desc val).2]
  · rw [if_neg hr, if_neg hr, (halves_setHigh q.desc val).2]
  · rw [if_neg hr, if_neg hr, (halves_setLow q.avail val).2]
  · rw [if_neg hr, if_neg hr, (halves_setHigh q.avail val).2]
  · rw [if_neg hr, if_neg hr, (halves_setLow q.used val).2]
  · rw [if_neg hr, if_neg hr, (halves_setHigh q.used val).2]

theorem config_eq_of_reg (h : ∀ r ∈ queueRegs, q'.reg r = q.reg r) : q'.config = q.config := by
  have hnum : q'.num = q.num := h vmmioQueueNum (by decide)
  have hready : q'.ready = q.ready := h vmmioQueueReady (by decide)
  have hdesc : q'.desc = q.desc := by
    rw [← eq_append_halves q'.desc, ← eq_append_halves q.desc]
    exact congrArg₂ _ (h vmmioQueueDescHigh (by decide)) (h vmmioQueueDescLow (by decide))
  have havail : q'.avail = q.avail := by
    rw [← eq_append_halves q'.avail, ← eq_append_halves q.avail]
    exact congrArg₂ _ (h vmmioQueueAvailHigh (by decide)) (h vmmioQueueAvailLow (by decide))
  have hused : q'.used = q.used := by
    rw [← eq_append_halves q'.used, ← eq_append_halves q.used]
    exact congrArg₂ _ (h vmmioQueueUsedHigh (by decide)) (h vmmioQueueUsedLow (by decide))
  unfold Vq.config
  rw [hnum, hready, hdesc, havail, hused]

theorem reg_eq_of_config (h : q'.config = q.config) (r : Nat) : q'.reg r = q.reg r := by
  have hreg : ∀ x : Vq, x.reg r = x.config.reg r := fun _ => rfl
  rw [hreg q', h, ← hreg q]

theorem written_iff {reg : Nat → BitVec 32} : q.Written reg ↔ ∀ r ∈ queueRegs, q.reg r = reg r := by
  constructor
  · rintro ⟨hnum, hready, hdesc, havail, hused⟩ r hr
    unfold Vq.reg
    rw [hnum, hready, hdesc, havail, hused]
    simp only [BitVec.extractLsb'_append_eq_left, BitVec.extractLsb'_append_eq_right]
    unfold queueRegs at hr
    split_ifs <;> simp_all
  · intro h
    refine ⟨h vmmioQueueNum (by decide), h vmmioQueueReady (by decide), ?_, ?_, ?_⟩
    · rw [← eq_append_halves q.desc]
      exact congrArg₂ _ (h vmmioQueueDescHigh (by decide)) (h vmmioQueueDescLow (by decide))
    · rw [← eq_append_halves q.avail]
      exact congrArg₂ _ (h vmmioQueueAvailHigh (by decide)) (h vmmioQueueAvailLow (by decide))
    · rw [← eq_append_halves q.used]
      exact congrArg₂ _ (h vmmioQueueUsedHigh (by decide)) (h vmmioQueueUsedLow (by decide))

/-! ### Steps -/

variable {d : Dev} {s : St} {len : Nat}

theorem write_eq_none (h : off ∉ queueRegs) : q.write off val = none := by
  have hsome : ¬(q.write off val).isSome := fun hsome => h (write_isSome_iff.1 hsome)
  simpa using hsome

theorem ne_of_queueReg {r : Nat} (h : off ∈ queueRegs) (hr : r ∉ queueRegs) : off ≠ r := by
  rintro rfl
  exact hr h

/-- A write to a register of the selected queue. -/
theorem step_queueReg (s : St) (d : Dev) (len : Nat) (val : BitVec 64) (h : off ∈ queueRegs) :
    (((DriverAct.write d off len val).step s).dev d).queueSel = (s.dev d).queueSel ∧
      ∀ qi r, (((DriverAct.write d off len val).step s).vq d qi).reg r =
        if qi = (s.dev d).selected ∧ r = off then val.setWidth 32 else (s.vq d qi).reg r := by
  have hsome : (((s.dev d).vq (s.dev d).selected).write off val).isSome := write_isSome_iff.2 h
  obtain ⟨q', hq'⟩ := Option.isSome_iff_exists.1 hsome
  have hnotify : off ≠ vmmioQueueNotify := ne_of_queueReg h (by decide)
  have hack : off ≠ vmmioIntAck := ne_of_queueReg h (by decide)
  have hstatus : off ≠ vmmioStatus := ne_of_queueReg h (by decide)
  have hstep : (DriverAct.write d off len val).step s =
      s.setDev d ((s.dev d).setVq (s.dev d).selected q') := by
    show ((virtioMmioWrite d off len val).run s).2 = _
    rw [virtioMmioWrite_run, if_neg hnotify, if_neg hack, if_neg fun hreset => hstatus hreset.1]
    unfold VirtioDev.regWrite
    rw [if_neg hstatus, hq']
  rw [hstep]
  refine ⟨?_, fun qi r => ?_⟩
  · rw [St.dev_setDev_self]
    rfl
  · rw [vq_setDev_self]
    by_cases hqi : qi = (s.dev d).selected
    · rw [hqi, VirtioDev.vq_setVq_self]
      by_cases hr : r = off
      · rw [if_pos ⟨rfl, hr⟩, hr]
        exact reg_write_self hq'
      · rw [if_neg fun hc => hr hc.2]
        exact reg_write_of_ne hr hq'
    · rw [VirtioDev.vq_setVq_of_ne hqi, if_neg fun hc => hqi hc.1]
      rfl

theorem write_queueSel (v : VirtioDev) (d : Dev) (off len : Nat) (val : BitVec 64) :
    (v.write d off len val).queueSel = if off = vmmioQueueSel then val.setWidth 32 else v.queueSel := by
  by_cases hsel : off = vmmioQueueSel
  · rw [if_pos hsel, hsel]
    rfl
  · rw [if_neg hsel]
    unfold VirtioDev.write
    split_ifs <;> rfl

/-- A write to a register that is no queue's. -/
theorem step_rest (s : St) (d : Dev) (len : Nat) (hoff : off ∉ queueRegs) (hreset : ¬(off = vmmioStatus ∧ val = 0)) :
    (∀ qi, (((DriverAct.write d off len val).step s).vq d qi).config = (s.vq d qi).config) ∧
      (((DriverAct.write d off len val).step s).dev d).queueSel =
        if off = vmmioQueueSel then val.setWidth 32 else (s.dev d).queueSel := by
  have hset : ∀ v : VirtioDev, v.vq = (s.dev d).vq → ∀ qi, ((s.setDev d v).vq d qi).config = (s.vq d qi).config := by
    intro v hv qi
    rw [vq_setDev_self, hv]
    rfl
  show (∀ qi, (((virtioMmioWrite d off len val).run s).2.vq d qi).config = _) ∧
    (((virtioMmioWrite d off len val).run s).2.dev d).queueSel = _
  rw [virtioMmioWrite_run]
  by_cases hnotify : off = vmmioQueueNotify
  · have hsetup := (keepsSetup_services d).serviceVq (val &&& 0xffff).toNat s d
    have hsel : off ≠ vmmioQueueSel := by
      rw [hnotify]
      decide
    rw [if_pos hnotify, if_neg hsel]
    refine ⟨fun qi => congrArg (fun v => v.vq qi) hsetup, ?_⟩
    exact (congrArg (fun v => VirtioDev.queueSel v) hsetup : VirtioDev.queueSel (VirtioDev.setup _) = _)
  rw [if_neg hnotify]
  by_cases hack : off = vmmioIntAck
  · have hsel : off ≠ vmmioQueueSel := by
      rw [hack]
      decide
    rw [if_pos hack, if_neg hsel, virtioLowerIrq_run]
    dsimp only
    rw [apply_ite (fun x : St => x.dev d)]
    refine ⟨fun qi => ?_, ?_⟩
    · split
      · exact hset ((s.dev d).ack val) rfl qi
      · exact hset ((s.dev d).ack val) rfl qi
    · have hack' : ((s.setDev d ((s.dev d).ack val)).dev d).queueSel = (s.dev d).queueSel := by
        rw [St.dev_setDev_self]
        rfl
      split
      · exact hack'
      · exact hack'
  rw [if_neg hack, if_neg hreset]
  unfold VirtioDev.regWrite
  by_cases hstatus : off = vmmioStatus
  · have hsel : off ≠ vmmioQueueSel := by
      rw [hstatus]
      decide
    rw [if_pos hstatus, if_neg hsel]
    refine ⟨hset _ rfl, ?_⟩
    show ((s.setDev d _).dev d).queueSel = _
    rw [St.dev_setDev_self]
  · rw [if_neg hstatus, write_eq_none hoff]
    dsimp only
    refine ⟨hset _ (write_vq _ d off len val), ?_⟩
    rw [St.dev_setDev_self, write_queueSel]

/-! ### The queues and the book -/

/-- The queues are what the book says. -/
structure BookLaw (d : Dev) (s : St) (b : Book) : Prop where
  sel : (s.dev d).queueSel = b.sel
  written : ∀ qi, qi < d.nqueues → ∀ r ∈ queueRegs, (s.vq d qi).reg r = b.reg qi r
  size : ∀ qi, qi < d.nqueues → (s.vq d qi).ready ≠ 0 → SizeOk (s.vq d qi).num

/-- A write other than a reset, with a queue selected that the device does not have. -/
def DriverAct.Outside (d : Dev) (s : St) : DriverAct → Prop
  | .store _ => True
  | .write d' off len val => d' = d → ¬(off = vmmioStatus ∧ val = 0) → d.nqueues ≤ (s.dev d).queueSel.toNat →
    ∀ qi, qi < d.nqueues → (((DriverAct.write d' off len val).step s).vq d qi).config = (s.vq d qi).config

variable {b b' : Book} {s' : St}

theorem BookLaw.congr (h : BookLaw d s b) (hsel : (s'.dev d).queueSel = b'.sel)
    (hconfig : ∀ qi, qi < d.nqueues → (s'.vq d qi).config = (s.vq d qi).config)
    (hreg : ∀ qi, qi < d.nqueues → ∀ r ∈ queueRegs, b'.reg qi r = b.reg qi r) : BookLaw d s' b' := by
  refine ⟨hsel, fun qi hqi r hr => ?_, fun qi hqi => ?_⟩
  · rw [reg_eq_of_config (hconfig qi hqi), hreg qi hqi r hr]
    exact h.written qi hqi r hr
  · have hready : (s'.vq d qi).ready = (s.vq d qi).ready := reg_eq_of_config (hconfig qi hqi) vmmioQueueReady
    have hnum : (s'.vq d qi).num = (s.vq d qi).num := reg_eq_of_config (hconfig qi hqi) vmmioQueueNum
    rw [hready, hnum]
    exact h.size qi hqi

theorem nqueues_le (d : Dev) : d.nqueues ≤ vqMax := by
  cases d <;> decide

theorem Book.step_self (b : Book) (d : Dev) (off len : Nat) (val : BitVec 64) : b.step d (.write d off len val) =
    if off = vmmioQueueSel then { b with sel := val.setWidth 32 }
    else if off = vmmioStatus ∧ val = 0 then
      { b with reg := fun q r => if r = vmmioQueueReady then 0 else b.reg q r }
    else { b with reg := fun q r => if q = b.sel.toNat ∧ r = off then val.setWidth 32 else b.reg q r } :=
  if_neg (not_not.2 rfl)

theorem BookLaw.reset (h : BookLaw d s b) (len : Nat) (hreset : off = vmmioStatus ∧ val = 0) :
    BookLaw d ((DriverAct.write d off len val).step s) (b.step d (.write d off len val)) := by
  have hb : b.step d (.write d off len val) =
      { b with reg := fun q r => if r = vmmioQueueReady then 0 else b.reg q r } := by
    have hsel : off ≠ vmmioQueueSel := by
      rw [hreset.1]
      decide
    rw [Book.step_self, if_neg hsel, if_pos hreset]
  have hvq : ∀ qi, qi < d.nqueues → ((DriverAct.write d off len val).step s).vq d qi = (s.vq d qi).reset := by
    intro qi hqi
    rw [step_reset s d len hreset]
    exact (vq_setDev_self s d _ qi).trans (if_pos hqi)
  have hdev : ((DriverAct.write d off len val).step s).dev d = (s.dev d).reset d := by
    rw [step_reset s d len hreset]
    exact St.dev_setDev_self s d _
  rw [hb]
  refine ⟨?_, fun qi hqi r hr => ?_, fun qi hqi hready => ?_⟩
  · rw [hdev]
    exact h.sel
  · rw [hvq qi hqi]
    show Vq.reg _ r = if r = vmmioQueueReady then 0 else b.reg qi r
    by_cases hrr : r = vmmioQueueReady
    · rw [if_pos hrr, hrr]
      rfl
    · rw [if_neg hrr, ← h.written qi hqi r hr]
      unfold Vq.reg
      rw [if_neg hrr, if_neg hrr]
      rfl
  · rw [hvq qi hqi] at hready
    exact absurd rfl hready

theorem BookLaw.rest (h : BookLaw d s b) (len : Nat) (hoff : off ∉ queueRegs)
    (hreset : ¬(off = vmmioStatus ∧ val = 0)) :
    BookLaw d ((DriverAct.write d off len val).step s) (b.step d (.write d off len val)) := by
  obtain ⟨hconfig, hsel⟩ := step_rest s d len hoff hreset
  have hb : (b.step d (.write d off len val)).sel = (if off = vmmioQueueSel then val.setWidth 32 else b.sel) ∧
      ∀ qi, ∀ r ∈ queueRegs, (b.step d (.write d off len val)).reg qi r = b.reg qi r := by
    rw [Book.step_self, if_neg hreset]
    split
    · exact ⟨rfl, fun _ _ _ => rfl⟩
    · refine ⟨rfl, fun qi r hr => if_neg ?_⟩
      rintro ⟨-, rfl⟩
      exact hoff hr
  refine h.congr ?_ (fun qi _ => hconfig qi) fun qi _ => hb.2 qi
  rw [hsel, hb.1, h.sel]

/-- A write to a register of a queue of the device: the size stays right as `ConfigOk` says. -/
theorem BookLaw.selected_iff (h : BookLaw d s b) (len : Nat) (val : BitVec 64) (hoff : off ∈ queueRegs)
    (hsel : (s.dev d).queueSel.toNat < d.nqueues) :
    BookLaw d ((DriverAct.write d off len val).step s) (b.step d (.write d off len val)) ↔
      (off = vmmioQueueReady → val.setWidth 32 ≠ 0 → SizeOk (s.vq d (s.dev d).queueSel.toNat).num) ∧
        (off = vmmioQueueNum → (s.vq d (s.dev d).queueSel.toNat).ready ≠ 0 → SizeOk (val.setWidth 32)) := by
  obtain ⟨hkeep, hreg⟩ := step_queueReg s d len val hoff
  have hnq := nqueues_le d
  have hselected : (s.dev d).selected = (s.dev d).queueSel.toNat := if_pos (by omega)
  have hbsel : b.sel.toNat = (s.dev d).queueSel.toNat := by rw [h.sel]
  rw [hselected] at hreg
  rw [Book.step_self, if_neg (ne_of_queueReg hoff (by decide)),
    if_neg fun hreset => ne_of_queueReg hoff (by decide) hreset.1]
  have hready := hreg (s.dev d).queueSel.toNat vmmioQueueReady
  have hnum := hreg (s.dev d).queueSel.toNat vmmioQueueNum
  have hne : vmmioQueueReady ≠ vmmioQueueNum := by decide
  constructor
  · intro hlaw
    have hsize : (((DriverAct.write d off len val).step s).vq d (s.dev d).queueSel.toNat).reg vmmioQueueReady ≠ 0 →
        SizeOk ((((DriverAct.write d off len val).step s).vq d (s.dev d).queueSel.toNat).reg vmmioQueueNum) :=
      hlaw.size _ hsel
    refine ⟨fun hr hval => ?_, fun hn hlive => ?_⟩
    · rw [if_pos ⟨rfl, hr.symm⟩] at hready
      rw [if_neg fun hc => hne (hr.symm.trans hc.2.symm)] at hnum
      rw [hready, hnum] at hsize
      exact hsize hval
    · rw [if_neg fun hc => hne (hc.2.trans hn)] at hready
      rw [if_pos ⟨rfl, hn.symm⟩] at hnum
      rw [hready, hnum] at hsize
      exact hsize hlive
  · rintro ⟨hreadyOk, hnumOk⟩
    refine ⟨hkeep.trans h.sel, fun qi hqi r hr => ?_, fun qi hqi hlive => ?_⟩
    · show _ = if qi = b.sel.toNat ∧ r = off then val.setWidth 32 else b.reg qi r
      rw [hreg, hbsel, h.written qi hqi r hr]
    · have hlive' : (((DriverAct.write d off len val).step s).vq d qi).reg vmmioQueueReady ≠ 0 := hlive
      show SizeOk ((((DriverAct.write d off len val).step s).vq d qi).reg vmmioQueueNum)
      rw [hreg] at hlive' ⊢
      -- only the selected queue changes
      by_cases hq : qi = (s.dev d).queueSel.toNat
      · by_cases hr : vmmioQueueReady = off
        · rw [if_pos ⟨hq, hr⟩] at hlive'
          rw [if_neg fun hc => hne (hr.trans hc.2.symm), hq]
          exact hreadyOk hr.symm hlive'
        · rw [if_neg fun hc => hr hc.2] at hlive'
          by_cases hn : vmmioQueueNum = off
          · rw [if_pos ⟨hq, hn⟩]
            exact hnumOk hn.symm (hq ▸ hlive')
          · rw [if_neg fun hc => hn hc.2]
            exact h.size qi hqi hlive'
      · rw [if_neg fun hc => hq hc.1] at hlive' ⊢
        exact h.size qi hqi hlive'

/-- A write while no queue of the device is selected: it may change queue 0. -/
theorem BookLaw.unselected_iff (h : BookLaw d s b) (len : Nat) (val : BitVec 64) (hoff : off ∈ queueRegs)
    (hsel : d.nqueues ≤ (s.dev d).queueSel.toNat) :
    (BookLaw d ((DriverAct.write d off len val).step s) (b.step d (.write d off len val)) ∧
      ∀ qi, qi < d.nqueues →
        (((DriverAct.write d off len val).step s).vq d qi).config = (s.vq d qi).config) ↔
      (vqMax ≤ (s.dev d).queueSel.toNat → (s.vq d 0).reg off = val.setWidth 32) := by
  obtain ⟨hkeep, hreg⟩ := step_queueReg s d len val hoff
  rw [Book.step_self, if_neg (ne_of_queueReg hoff (by decide)),
    if_neg fun hreset => ne_of_queueReg hoff (by decide) hreset.1]
  constructor
  · rintro ⟨-, hout⟩ hge
    have hzero : 0 < d.nqueues := by
      cases d <;> decide
    have hselected : 0 = (s.dev d).selected := (if_neg (by omega)).symm
    rw [← reg_eq_of_config (hout 0 hzero), hreg, if_pos ⟨hselected, rfl⟩]
  · intro hok
    have hconfig : ∀ qi, qi < d.nqueues →
        (((DriverAct.write d off len val).step s).vq d qi).config = (s.vq d qi).config := by
      intro qi hqi
      refine config_eq_of_reg fun r _ => ?_
      rw [hreg]
      split
      · rename_i hc
        -- the selector is 4 or more, and the write goes to queue 0
        have hge : vqMax ≤ (s.dev d).queueSel.toNat := by
          by_contra hlt
          have hselected : (s.dev d).selected = (s.dev d).queueSel.toNat := if_pos (by omega)
          omega
        have hselected : (s.dev d).selected = 0 := if_neg (by omega)
        rw [hc.2, hc.1, hselected, hok hge]
      · rfl
    refine ⟨h.congr (hkeep.trans h.sel) hconfig fun qi hqi r _ => if_neg ?_, hconfig⟩
    rintro ⟨hq, -⟩
    rw [← h.sel] at hq
    omega

/-- A step is right exactly as `ConfigOk` says. -/
theorem BookLaw.step_iff (h : BookLaw d s b) (a : DriverAct) :
    BookLaw d (a.step s) (b.step d a) ∧ a.Outside d s ↔ a.ConfigOk d s := by
  cases a with
  | store mem => exact ⟨fun _ => trivial, fun _ => ⟨h.congr h.sel (fun _ _ => rfl) fun _ _ _ _ => rfl, trivial⟩⟩
  | write d' off len val =>
    by_cases hd : d' = d
    -- the other device's registers
    case neg =>
      have hb : b.step d (.write d' off len val) = b := if_pos hd
      have hdev := step_other hd s off len val
      rw [hb]
      refine ⟨fun _ hd' => absurd hd' hd, fun _ => ⟨h.congr ?_ (fun qi _ => ?_) fun _ _ _ _ => rfl, ?_⟩⟩
      · rw [hdev]
        exact h.sel
      · exact congrArg (fun v => (VirtioDev.vq v qi).config) hdev
      · exact fun hd' => absurd hd' hd
    subst hd
    by_cases hoff : off ∈ queueRegs
    · have hreset : ¬(off = vmmioStatus ∧ val = 0) := fun hreset => ne_of_queueReg hoff (by decide) hreset.1
      -- a queue that the device does not have: the write goes to a spare one, or to queue 0
      rcases Nat.lt_or_ge (s.dev d').queueSel.toNat d'.nqueues with hsel | hsel
      · have hiff := h.selected_iff len val hoff hsel
        have hnq := nqueues_le d'
        constructor
        · rintro ⟨hlaw, -⟩ - -
          exact ⟨fun hge => absurd hge (by omega), fun _ => hiff.1 hlaw⟩
        · intro hok
          exact ⟨hiff.2 ((hok rfl hoff).2 hsel), fun _ _ hge => absurd hge (by omega)⟩
      · have hiff := h.unselected_iff len val hoff hsel
        constructor
        · rintro ⟨hlaw, hout⟩ - -
          exact ⟨hiff.1 ⟨hlaw, hout rfl hreset hsel⟩, fun hlt => absurd hlt (by omega)⟩
        · intro hok
          obtain ⟨hlaw, hout⟩ := hiff.2 (hok rfl hoff).1
          exact ⟨hlaw, fun _ _ _ => hout⟩
    · refine ⟨fun _ _ hc => absurd hc hoff, fun _ => ?_⟩
      by_cases hreset : off = vmmioStatus ∧ val = 0
      · exact ⟨h.reset len hreset, fun _ hno => absurd hreset hno⟩
      · exact ⟨h.rest len hoff hreset, fun _ _ _ qi _ => (step_rest _ _ _ hoff hreset).1 qi⟩

/-- The book knows QUEUE_SEL. -/
theorem sel_step (h : (s.dev d).queueSel = b.sel) (a : DriverAct) :
    ((a.step s).dev d).queueSel = (b.step d a).sel := by
  cases a with
  | store mem => exact h
  | write d' off len val =>
    by_cases hd : d' = d
    case neg =>
      rw [step_other hd, h]
      exact congrArg Book.sel (if_pos hd).symm
    subst hd
    by_cases hreset : off = vmmioStatus ∧ val = 0
    · have hsel : off ≠ vmmioQueueSel := by
        rw [hreset.1]
        decide
      rw [step_reset s d' len hreset, Book.step_self, if_neg hsel, if_pos hreset]
      show ((s.setDev d' _).dev d').queueSel = _
      rw [St.dev_setDev_self]
      exact h
    · have hkeep : ((DriverAct.step s (.write d' off len val)).dev d').queueSel =
          if off = vmmioQueueSel then val.setWidth 32 else (s.dev d').queueSel := by
        by_cases hoff : off ∈ queueRegs
        · rw [if_neg (ne_of_queueReg hoff (by decide))]
          exact (step_queueReg _ _ _ _ hoff).1
        · exact (step_rest _ _ _ hoff hreset).2
      rw [hkeep, h, Book.step_self, if_neg hreset]
      split <;> rfl

/-! ### Runs -/

theorem configLaw_nil_iff (hsel : (s.dev d).queueSel = b.sel) : ConfigLaw d s b [] ↔ BookLaw d s b := by
  constructor
  · intro h
    have hwritten := h.written [] List.prefix_rfl
    exact ⟨hsel, fun qi hqi => written_iff.1 (hwritten qi hqi), h.size [] List.prefix_rfl⟩
  · intro h
    refine ⟨fun pre hpre qi hqi => ?_, fun pre _ _ _ hpre => ?_, fun pre hpre => ?_⟩
    · rw [List.prefix_nil.1 hpre]
      exact written_iff.2 (h.written qi hqi)
    · exact absurd (List.prefix_nil.1 hpre) (by simp)
    · rw [List.prefix_nil.1 hpre]
      exact h.size

theorem configLaw_cons_iff {a : DriverAct} {acts : List DriverAct} : ConfigLaw d s b (a :: acts) ↔
    ConfigLaw d s b [] ∧ a.Outside d s ∧ ConfigLaw d (a.step s) (b.step d a) acts := by
  have htail : ∀ {pre}, pre <+: acts → a :: pre <+: a :: acts := fun hpre => List.cons_prefix_cons.2 ⟨rfl, hpre⟩
  constructor
  · intro h
    refine ⟨⟨fun pre hpre => ?_, fun pre _ _ _ hpre => ?_, fun pre hpre => ?_⟩, ?_, ?_, ?_, ?_⟩
    · exact h.written pre (hpre.trans List.nil_prefix)
    · exact absurd (List.prefix_nil.1 hpre) (by simp)
    · exact h.size pre (hpre.trans List.nil_prefix)
    · cases a with
      | store mem => trivial
      | write d' off len val =>
        rintro rfl hreset hsel
        exact h.outside [] off len val (htail List.nil_prefix) hreset hsel
    · exact fun pre hpre => h.written (a :: pre) (htail hpre)
    · exact fun pre off len val hpre => h.outside (a :: pre) off len val (htail hpre)
    · exact fun pre hpre => h.size (a :: pre) (htail hpre)
  · rintro ⟨hnil, hout, h⟩
    refine ⟨fun pre hpre => ?_, fun pre off len val hpre => ?_, fun pre hpre => ?_⟩
    · cases pre with
      | nil => exact hnil.written [] List.prefix_rfl
      | cons a' pre =>
        obtain ⟨rfl, hpre'⟩ := List.cons_prefix_cons.1 hpre
        exact h.written pre hpre'
    · cases pre with
      | nil =>
        obtain ⟨rfl, -⟩ := List.cons_prefix_cons.1 hpre
        exact fun hreset hsel => hout rfl hreset hsel
      | cons a' pre =>
        obtain ⟨rfl, hpre'⟩ := List.cons_prefix_cons.1 hpre
        exact h.outside pre off len val hpre'
    · cases pre with
      | nil => exact hnil.size [] List.prefix_rfl
      | cons a' pre =>
        obtain ⟨rfl, hpre'⟩ := List.cons_prefix_cons.1 hpre
        exact h.size pre hpre'

theorem BookLaw.run_iff (h : BookLaw d s b) (acts : List DriverAct) :
    ConfigLaw d s b acts ↔ AllSteps DriverAct.step (DriverAct.ConfigOk d) s acts := by
  induction acts generalizing s b with
  | nil => exact iff_of_true ((configLaw_nil_iff h.sel).2 h) trivial
  | cons a acts ih =>
    have hsel := sel_step h.sel a
    rw [configLaw_cons_iff, AllSteps, ← h.step_iff a]
    constructor
    · rintro ⟨-, hout, htail⟩
      have hlaw : BookLaw d (a.step s) (b.step d a) := by
        refine (configLaw_nil_iff hsel).1 ?_
        cases acts with
        | nil => exact htail
        | cons a' acts => exact (configLaw_cons_iff.1 htail).1
      exact ⟨⟨hlaw, hout⟩, (ih hlaw).1 htail⟩
    · rintro ⟨⟨hlaw, hout⟩, htail⟩
      exact ⟨(configLaw_nil_iff h.sel).2 h, hout, (ih hlaw).2 htail⟩

theorem initial_book (mem : ByteMem) (memSize : BitVec 64) (content : List (BitVec 8)) (useEventfd : Bool)
    (stale : ByteMem) : BookLaw d (.initial mem memSize content useEventfd stale) .zero := by
  have hvq : ∀ qi, (St.initial mem memSize content useEventfd stale).vq d qi = .zero := by
    cases d <;> exact fun _ => rfl
  have hreg : ∀ r ∈ queueRegs, Vq.zero.reg r = 0 := by decide
  refine ⟨?_, fun qi _ r hr => ?_, fun qi _ hready => ?_⟩
  · cases d <;> rfl
  · rw [hvq]
    exact hreg r hr
  · rw [hvq] at hready
    exact absurd rfl hready

/-- In every run from power-on the queues of a device are what the driver has written, exactly if every write
is as `ConfigOk` says. -/
theorem queueConfig_iff (d : Dev) (mem : ByteMem) (memSize : BitVec 64) (content : List (BitVec 8))
    (useEventfd : Bool) (stale : ByteMem) (acts : List DriverAct) :
    ConfigLaw d (.initial mem memSize content useEventfd stale) .zero acts ↔
      AllSteps DriverAct.step (DriverAct.ConfigOk d) (.initial mem memSize content useEventfd stale) acts :=
  (initial_book mem memSize content useEventfd stale).run_iff acts

/-- With 4 in QUEUE_SEL, a write to QUEUE_NUM goes to queue 0. -/
theorem not_queueConfig : ¬∀ (d : Dev) (mem : ByteMem) (memSize : BitVec 64) (content : List (BitVec 8))
    (useEventfd : Bool) (stale : ByteMem) (acts : List DriverAct),
    ConfigLaw d (.initial mem memSize content useEventfd stale) .zero acts := by
  intro h
  have hlaw := h .blk (fun _ => 0) 0x4000000 [] false (fun _ => 0)
    [.write .blk vmmioQueueSel 4 4, .write .blk vmmioQueueNum 4 8]
  have hnum := (hlaw.written _ List.prefix_rfl 0 (by decide)).num
  exact absurd hnum (by decide +kernel)

end MiniVirt.Vmm
