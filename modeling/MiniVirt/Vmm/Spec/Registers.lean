import MiniVirt.Vmm.Driver
import MiniVirt.Vmm.Spec.Work

/-!
# Register writes

`virtioMmioWrite_run` says what a register write is: a call of `service_vq()`, an acknowledgement, a reset,
or a change of one field of the device (`VirtioDev.regWrite`).
-/

namespace MiniVirt.Vmm

/-- The device after a reset. -/
def VirtioDev.reset (v : VirtioDev) (d : Dev) : VirtioDev :=
  { v with
    status := 0
    intStatus := 0
    vq := fun i => if i < d.nqueues then (v.vq i).reset else v.vq i }

/-- The device after a write to INT_ACK. -/
def VirtioDev.ack (v : VirtioDev) (val : BitVec 64) : VirtioDev :=
  { v with intStatus := v.intStatus &&& ~~~(val.setWidth 32) }

/-- The device after a write to any other register than QUEUE_NOTIFY and INT_ACK that is no reset. -/
def VirtioDev.regWrite (v : VirtioDev) (d : Dev) (off len : Nat) (val : BitVec 64) : VirtioDev :=
  if off = vmmioStatus then { v with status := val.setWidth 32 }
  else
    match (v.vq v.selected).write off val with
    | some q => v.setVq v.selected q
    | none => v.write d off len val

theorem modifyDev_emit_modifyDev_run (d : Dev) (f g : VirtioDev → VirtioDev) (e : Event) (s : St) :
    (do
      modifyDev d f
      emit e
      modifyDev d g : V Unit).run s = ((), (s.setDev d (g (f (s.dev d)))).log e) := by
  show ((), ((s.setDev d (f (s.dev d))).log e).setDev d
    (g (((s.setDev d (f (s.dev d))).log e).dev d))) = _
  have hdev : ((s.setDev d (f (s.dev d))).log e).dev d = f (s.dev d) := St.dev_setDev_self s d _
  rw [hdev]
  show ((), ((s.setDev d (f (s.dev d))).setDev d _).log e) = _
  rw [St.setDev_setDev]

theorem virtioReset_run (d : Dev) (s : St) :
    (virtioReset d).run s = ((), (s.setDev d ((s.dev d).reset d)).log (.irqLine d.gsi false)) :=
  modifyDev_emit_modifyDev_run ..

/-- What follows an acknowledgement. -/
theorem virtioLowerIrq_run (d : Dev) (s : St) :
    (virtioLowerIrq d).run s =
      ((), if s.useEventfd = false ∧ (s.dev d).intStatus = 0 then s.log (.irqLine d.gsi false) else s) := by
  unfold virtioLowerIrq
  rw [run_bind, run_get]
  dsimp only
  rw [run_ite, run_ite]
  by_cases hfd : s.useEventfd = true
  · rw [if_pos hfd, if_neg (by simp [hfd])]
    rfl
  · rw [if_neg hfd]
    by_cases hzero : (s.dev d).intStatus = 0
    · rw [if_pos hzero, if_pos ⟨by simpa using hfd, hzero⟩]
      rfl
    · rw [if_neg hzero, if_neg fun h => hzero h.2]
      rfl

theorem virtioMmioWrite_run (d : Dev) (off len : Nat) (val : BitVec 64) (s : St) :
    (virtioMmioWrite d off len val).run s =
      if off = vmmioQueueNotify then (serviceVq d (val &&& 0xffff).toNat).run s
      else if off = vmmioIntAck then
        (some (), ((virtioLowerIrq d).run (s.setDev d ((s.dev d).ack val))).2)
      else if off = vmmioStatus ∧ val = 0 then
        (some (), (s.setDev d ((s.dev d).reset d)).log (.irqLine d.gsi false))
      else (some (), s.setDev d ((s.dev d).regWrite d off len val)) := by
  unfold virtioMmioWrite
  rw [run_bind, run_get]
  dsimp only
  rw [run_ite, run_ite, run_ite]
  refine if_congr Iff.rfl rfl (if_congr Iff.rfl rfl ?_)
  by_cases hstatus : off = vmmioStatus
  · rw [if_pos hstatus]
    by_cases hval : val = 0
    · have hreset : off = vmmioStatus ∧ val = 0 := ⟨hstatus, hval⟩
      rw [if_pos hval, if_pos hreset, run_bind, virtioReset_run]
      rfl
    · have hno : ¬(off = vmmioStatus ∧ val = 0) := fun h => hval h.2
      unfold VirtioDev.regWrite
      rw [if_neg hval, if_neg hno, if_pos hstatus]
      rfl
  · have hno : ¬(off = vmmioStatus ∧ val = 0) := fun h => hstatus h.1
    unfold VirtioDev.regWrite
    rw [if_neg hstatus, if_neg hno, if_neg hstatus]
    cases ((s.dev d).vq (s.dev d).selected).write off val with
    | some q => rfl
    | none => rfl

theorem write_vq (v : VirtioDev) (d : Dev) (off len : Nat) (val : BitVec 64) :
    (v.write d off len val).vq = v.vq := by
  unfold VirtioDev.write
  split_ifs <;> rfl

theorem write_intStatus (v : VirtioDev) (d : Dev) (off len : Nat) (val : BitVec 64) :
    (v.write d off len val).intStatus = v.intStatus := by
  unfold VirtioDev.write
  split_ifs <;> rfl

theorem regWrite_intStatus (v : VirtioDev) (d : Dev) (off len : Nat) (val : BitVec 64) :
    (v.regWrite d off len val).intStatus = v.intStatus := by
  unfold VirtioDev.regWrite
  split
  · rfl
  · split
    · rfl
    · exact write_intStatus v d off len val

/-! ### What serving leaves alone -/

/-- What only register writes change. -/
def VirtioDev.setup (v : VirtioDev) : VirtioDev :=
  { v with intStatus := 0, vq := fun qi => (v.vq qi).config }

def keepsSetup : Guarantee St where
  rel s s' := ∀ d, (s'.dev d).setup = (s.dev d).setup
  refl _ _ := rfl
  trans h₁ h₂ d := (h₂ d).trans (h₁ d)

theorem setup_setDev {s : St} {d : Dev} {v : VirtioDev} (hv : v.setup = (s.dev d).setup) :
    keepsSetup.rel s (s.setDev d v) := by
  intro d'
  by_cases hd : d' = d
  · rw [hd, St.dev_setDev_self, hv]
  · rw [St.dev_setDev_of_ne hd]

theorem keepsSetup_services (d : Dev) : Services d keepsSetup where
  log _ _ _ _ := rfl
  data _ _ _ _ _ := rfl
  conIn _ _ _ _ := rfl
  advance qi slot head := by
    refine Within.bind (fun s => setup_setDev ?_) fun _ => fun _ _ => rfl
    have hvq : ∀ i, (((s.dev d).setVq qi
        { (s.dev d).vq qi with lastAvailIdx := ((s.dev d).vq qi).lastAvailIdx + 1 }).vq i).config =
          ((s.dev d).vq i).config := config_setVq rfl
    exact congrArg (fun f => ({ (s.dev d).setup with vq := f } : VirtioDev)) (funext hvq)
  used _ _ _ _ _ := rfl
  raise := Within.bind (fun s => setup_setDev rfl) fun _ => Within.get.bind fun _ =>
    .ite (fun _ _ => rfl) fun _ _ => rfl

/-- A write to a device leaves the other one alone. -/
theorem step_other {d d' : Dev} (hd : d' ≠ d) (s : St) (off len : Nat) (val : BitVec 64) :
    ((DriverAct.write d' off len val).step s).dev d = s.dev d := by
  have hset : ∀ v, (s.setDev d' v).dev d = s.dev d := fun v => St.dev_setDev_of_ne (fun h => hd h.symm) s v
  show ((virtioMmioWrite d' off len val).run s).2.dev d = _
  rw [virtioMmioWrite_run]
  split
  · exact ((serves_services d').serviceVq _ s).other d fun h => hd h.symm
  split
  · rw [virtioLowerIrq_run]
    dsimp only
    split
    · exact hset _
    · exact hset _
  split
  · exact hset _
  · exact hset _

theorem step_reset (s : St) (d : Dev) {off : Nat} {val : BitVec 64} (len : Nat)
    (hreset : off = vmmioStatus ∧ val = 0) : (DriverAct.write d off len val).step s =
      (s.setDev d ((s.dev d).reset d)).log (.irqLine d.gsi false) := by
  have hne : off ≠ vmmioQueueNotify ∧ off ≠ vmmioIntAck := by
    rw [hreset.1]
    decide
  show ((virtioMmioWrite d off len val).run s).2 = _
  rw [virtioMmioWrite_run, if_neg hne.1, if_neg hne.2, if_pos hreset]

theorem setup_ack (v : VirtioDev) (val : BitVec 64) : (v.ack val).setup = v.setup := rfl

/-- The device after a write, but for what `service_vq()` and an acknowledgement change. -/
theorem step_setup (s : St) (d : Dev) (off len : Nat) (val : BitVec 64) :
    (((DriverAct.write d off len val).step s).dev d).setup =
      if off = vmmioQueueNotify ∨ off = vmmioIntAck then (s.dev d).setup
      else if off = vmmioStatus ∧ val = 0 then ((s.dev d).reset d).setup
      else ((s.dev d).regWrite d off len val).setup := by
  show (((virtioMmioWrite d off len val).run s).2.dev d).setup = _
  rw [virtioMmioWrite_run]
  by_cases hnotify : off = vmmioQueueNotify
  · rw [if_pos hnotify, if_pos (.inl hnotify)]
    exact (keepsSetup_services d).serviceVq _ s d
  rw [if_neg hnotify]
  by_cases hack : off = vmmioIntAck
  · have hdev : ((s.setDev d ((s.dev d).ack val)).dev d).setup = (s.dev d).setup := by
      rw [St.dev_setDev_self, setup_ack]
    rw [if_pos hack, if_pos (.inr hack), virtioLowerIrq_run]
    dsimp only
    split
    · exact hdev
    · exact hdev
  rw [if_neg hack, if_neg (not_or.2 ⟨hnotify, hack⟩)]
  split
  · show ((s.setDev d _).dev d).setup = _
    rw [St.dev_setDev_self]
  · show ((s.setDev d _).dev d).setup = _
    rw [St.dev_setDev_self]

/-- A block queue of two entries with its table at 0x1000, avail ring at 0x2000 and used ring at 0x3000;
the chain of head 0 is a flush request. -/
def flushRequest : ByteMem := ByteMem.write (fun _ => 0) 0x1000
  (leBytes 8 0x8000 ++ leBytes 4 16 ++ leBytes 2 1 ++ leBytes 2 1 ++
    leBytes 8 0x9000 ++ leBytes 4 1 ++ leBytes 2 2 ++ leBytes 2 0) |>.store 0x2002 2 1 |>.store 0x8000 4 4

end MiniVirt.Vmm
