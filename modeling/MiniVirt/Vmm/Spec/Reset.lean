import MiniVirt.Vmm.Spec.FirstEntry
import MiniVirt.Vmm.Spec.Negotiation
import MiniVirt.Lib.Runs

/-!
# A reset against the worker

`virtio_reset()` only sets `ready` and `last_avail_idx` to 0, and a call of `service_vq()` that is in
its loop looks at neither again.  `ResetLaw` is what a reset should bring about; it holds in every run
in which no reset meets a call that goes on, and no queue is set up anew while a call from before the
reset waits for an echoed byte (`resetLaw_of_calm`).
-/

namespace MiniVirt.Vmm

/-! ### The law -/

/-- A write of 0 to STATUS. -/
def ThreadAct.isReset (d : Dev) : ThreadAct → Prop
  | .mmioWrite d' off _ val => d' = d ∧ off = vmmioStatus ∧ val = 0
  | _ => False

/-- A write of QUEUE_READY that makes a queue ready. -/
def ThreadAct.setsReady (d : Dev) : ThreadAct → Prop
  | .mmioWrite d' off _ val => d' = d ∧ off = vmmioQueueReady ∧ val.setWidth 32 ≠ 0
  | _ => False

/-- A step of the worker for device `d`. -/
def ThreadAct.worksFor (t : Threads) (d : Dev) : ThreadAct → Prop
  | .start d' _ => d' = d
  | .iter => ∃ c, t.worker = .loop c ∧ c.d = d
  | .raise => t.worker = .raise d
  | _ => False

/-- How many entries queue `qi` of `d` has consumed. -/
def Threads.consumed (t : Threads) (d : Dev) (qi : Nat) : Nat :=
  t.st.trace.countP (Event.isConsumed d qi)

/-- `slot` is slot 0 of the avail ring with which queue `qi` of `d` was ready at some point of the steps
`acts`. -/
def Threads.SlotZero (t : Threads) (acts : List ThreadAct) (d : Dev) (qi slot : Nat) : Prop :=
  ∃ m m', acts = m ++ m' ∧ ((runSteps ThreadAct.step t m).st.vq d qi).ready ≠ 0 ∧
    slot = ((runSteps ThreadAct.step t m).st.vq d qi).availRing

/-- After a reset, until the driver sets QUEUE_READY, the worker changes no guest memory, no backend
data and no `int_status`; a queue goes on at `last_avail_idx` 0; and the first entry that it then takes
is the one in slot 0 of a ring with which it has been made ready since. -/
structure ResetLaw (t : Threads) (acts : List ThreadAct) : Prop where
  silent : ∀ pre reset mid a post d, acts = pre ++ reset :: (mid ++ a :: post) → reset.isReset d →
    (∀ b ∈ mid, ¬b.setsReady d) →
      let before := runSteps ThreadAct.step t (pre ++ reset :: mid)
      a.worksFor before d →
        (a.step before).st.mem = before.st.mem ∧ (a.step before).st.blk = before.st.blk ∧
          ((a.step before).st.dev d).intStatus = (before.st.dev d).intStatus
  restart : ∀ pre reset mid post d qi, acts = pre ++ reset :: (mid ++ post) → reset.isReset d → qi < d.nqueues →
    let s := reset.step (runSteps ThreadAct.step t pre)
    let s' := runSteps ThreadAct.step s mid
    s'.consumed d qi = s.consumed d qi → (s'.st.vq d qi).lastAvailIdx = 0
  fresh : ∀ pre reset mid a post d qi, acts = pre ++ reset :: (mid ++ a :: post) → reset.isReset d →
    qi < d.nqueues →
      let s := reset.step (runSteps ThreadAct.step t pre)
      let s' := runSteps ThreadAct.step s mid
      s'.consumed d qi = s.consumed d qi →
        ∀ es, (a.step s').st.trace = s'.st.trace ++ es → FirstAt d qi (s.SlotZero mid d qi) es

/-! ### The condition -/

/-- Once the reset is done, the call has nothing more to do: it has pushed nothing, and its loop will
stop at the next test. -/
def ServiceCall.Over (s : St) (c : ServiceCall) : Prop :=
  c.did = false ∧ (c.idx = 0 ∨ devCanConsume s c.d c.qi = false)

/-- A call of `service_vq()` for device `d` goes on. -/
def Threads.Busy (t : Threads) (d : Dev) : Prop :=
  match t.worker with
  | .loop c => c.d = d ∧ ¬c.Over t.st
  | .raise d' => d' = d
  | _ => False

/-- A call of `service_vq()` for a queue of `d` that has been reset is still in its loop; it has looked at
the ring before the reset and waits for an echoed byte. -/
def Threads.Left (t : Threads) (d : Dev) : Prop :=
  match t.worker with
  | .loop c => c.d = d ∧ c.Over t.st ∧ c.idx ≠ 0 ∧ (t.st.vq d c.qi).ready = 0 ∧ (t.st.vq d c.qi).lastAvailIdx = 0
  | _ => False

/-- If the step is a reset, no call for the device goes on, and if it sets QUEUE_READY, none is left. -/
def ThreadAct.Calm (t : Threads) (a : ThreadAct) : Prop :=
  ∀ d, (a.isReset d → ¬t.Busy d) ∧ (a.setsReady d → ¬t.Left d)

instance (d : Dev) (a : ThreadAct) : Decidable (a.isReset d) :=
  match a with
  | .mmioWrite d' off _ val => inferInstanceAs (Decidable (d' = d ∧ off = vmmioStatus ∧ val = 0))
  | .store _ | .start .. | .iter | .raise => .isFalse fun h => h

instance (d : Dev) (a : ThreadAct) : Decidable (a.setsReady d) :=
  match a with
  | .mmioWrite d' off _ val => inferInstanceAs (Decidable (d' = d ∧ off = vmmioQueueReady ∧ val.setWidth 32 ≠ 0))
  | .store _ | .start .. | .iter | .raise => .isFalse fun h => h

instance (s : St) (c : ServiceCall) : Decidable (c.Over s) :=
  inferInstanceAs (Decidable (c.did = false ∧ (c.idx = 0 ∨ devCanConsume s c.d c.qi = false)))

instance (t : Threads) (d : Dev) : Decidable (t.Busy d) :=
  match h : t.worker with
  | .loop c => decidable_of_iff (c.d = d ∧ ¬c.Over t.st) (by unfold Threads.Busy; rw [h])
  | .raise d' => decidable_of_iff (d' = d) (by unfold Threads.Busy; rw [h])
  | .idle => .isFalse (by unfold Threads.Busy; rw [h]; exact id)
  | .stuck => .isFalse (by unfold Threads.Busy; rw [h]; exact id)

instance (t : Threads) (d : Dev) : Decidable (t.Left d) :=
  match h : t.worker with
  | .loop c => decidable_of_iff (c.d = d ∧ c.Over t.st ∧ c.idx ≠ 0 ∧ (t.st.vq d c.qi).ready = 0 ∧
      (t.st.vq d c.qi).lastAvailIdx = 0) (by unfold Threads.Left; rw [h])
  | .raise _ => .isFalse (by unfold Threads.Left; rw [h]; exact id)
  | .idle => .isFalse (by unfold Threads.Left; rw [h]; exact id)
  | .stuck => .isFalse (by unfold Threads.Left; rw [h]; exact id)

instance (t : Threads) (a : ThreadAct) : Decidable (a.Calm t) :=
  decidable_of_iff (((a.isReset .console → ¬t.Busy .console) ∧ (a.setsReady .console → ¬t.Left .console)) ∧
      ((a.isReset .blk → ¬t.Busy .blk) ∧ (a.setsReady .blk → ¬t.Left .blk)))
    ⟨fun h d => by cases d; exacts [h.1, h.2], fun h => ⟨h _, h _⟩⟩

/-! ### Register writes -/

/-- What a write to a register of `d` other than QUEUE_NOTIFY does. -/
structure RegWrite (d : Dev) (off : Nat) (val : BitVec 64) (s s' : St) : Prop where
  mem : s'.mem = s.mem
  blk : s'.blk = s.blk
  conIn : s'.conIn = s.conIn
  other : ∀ d', d' ≠ d → s'.dev d' = s.dev d'
  trace : ∃ es, s'.trace = s.trace ++ es ∧ ∀ e ∈ es, e.isQueue = false
  last : ∀ qi, (s'.vq d qi).lastAvailIdx = (s.vq d qi).lastAvailIdx ∨ (s'.vq d qi).lastAvailIdx = 0
  ready : ∀ qi, (s'.vq d qi).ready = (s.vq d qi).ready ∨ (s'.vq d qi).ready = 0 ∨
    off = vmmioQueueReady ∧ (s'.vq d qi).ready = val.setWidth 32
  reset : off = vmmioStatus → val = 0 → ∀ qi, qi < d.nqueues →
    (s'.vq d qi).ready = 0 ∧ (s'.vq d qi).lastAvailIdx = 0

variable {d : Dev} {off : Nat} {val : BitVec 64} {s : St}

/-- A change of the device that does not touch its queues. -/
theorem RegWrite.of_vq {v : VirtioDev} {es : List Event} (hv : v.vq = (s.dev d).vq)
    (hoff : off = vmmioStatus → val ≠ 0) (hes : ∀ e ∈ es, e.isQueue = false) :
    RegWrite d off val s { s.setDev d v with trace := s.trace ++ es } := by
  have hvq : ∀ qi, (s.setDev d v).vq d qi = s.vq d qi := by
    intro qi
    rw [vq_setDev_self, hv]
    rfl
  refine ⟨rfl, rfl, rfl, fun d' hd => St.dev_setDev_of_ne hd s v, ⟨es, rfl, hes⟩, fun qi => .inl ?_,
    fun qi => .inl ?_, fun h h0 => absurd h0 (hoff h)⟩
  · exact congrArg Vq.lastAvailIdx (hvq qi)
  · exact congrArg Vq.ready (hvq qi)

theorem RegWrite.of_write {q : Vq} {i : Nat} (hq : ((s.dev d).vq i).write off val = some q) :
    RegWrite d off val s (s.setDev d ((s.dev d).setVq i q)) := by
  have hlast : q.lastAvailIdx = ((s.dev d).vq i).lastAvailIdx := by
    unfold Vq.write at hq
    split_ifs at hq <;> cases hq <;> rfl
  have hready : q.ready = ((s.dev d).vq i).ready ∨ off = vmmioQueueReady ∧ q.ready = val.setWidth 32 := by
    unfold Vq.write at hq
    split_ifs at hq with _ hoff <;> cases hq <;> simp_all
  have hstatus : off ≠ vmmioStatus := by
    rintro rfl
    cases hq
  refine ⟨rfl, rfl, rfl, fun d' hd => St.dev_setDev_of_ne hd s _, ⟨[], (List.append_nil _).symm, by simp⟩,
    fun qi => .inl ?_, fun qi => ?_, fun h => absurd h hstatus⟩
  · rw [vq_setDev_self]
    by_cases hi : qi = i
    · rw [hi, VirtioDev.vq_setVq_self, hlast]
      rfl
    · rw [VirtioDev.vq_setVq_of_ne hi]
      rfl
  · rw [vq_setDev_self]
    by_cases hi : qi = i
    · rw [hi, VirtioDev.vq_setVq_self]
      exact hready.imp_right .inr
    · rw [VirtioDev.vq_setVq_of_ne hi]
      exact .inl rfl

theorem RegWrite.of_reset : RegWrite d off val s ((virtioReset d).run s).2 := by
  have hvq : ∀ qi, ((virtioReset d).run s).2.vq d qi =
      if qi < d.nqueues then (s.vq d qi).reset else s.vq d qi := by
    intro qi
    rw [virtioReset_run]
    exact vq_setDev_self s d _ qi
  refine ⟨?_, ?_, ?_, fun d' hd => ?_, ⟨[.irqLine d.gsi false], ?_, by simp [Event.isQueue]⟩,
    fun qi => ?_, fun qi => ?_, fun _ _ qi hqi => ?_⟩
  · rw [virtioReset_run]
    rfl
  · rw [virtioReset_run]
    rfl
  · rw [virtioReset_run]
    rfl
  · rw [virtioReset_run]
    exact St.dev_setDev_of_ne hd s _
  · rw [virtioReset_run]
    rfl
  · rw [hvq]
    split
    · exact .inr rfl
    · exact .inl rfl
  · rw [hvq]
    split
    · exact .inr (.inl rfl)
    · exact .inl rfl
  · rw [hvq, if_pos hqi]
    exact ⟨rfl, rfl⟩

/-- After a change of the device that does not touch its queues. -/
theorem RegWrite.of_setDev {v : VirtioDev} (hv : v.vq = (s.dev d).vq)
    (hoff : off = vmmioStatus → val ≠ 0) : RegWrite d off val s (s.setDev d v) := by
  have h : RegWrite d off val s { s.setDev d v with trace := s.trace ++ [] } :=
    .of_vq hv hoff (by simp)
  rwa [List.append_nil] at h

theorem RegWrite.log {s' : St} {e : Event} (h : RegWrite d off val s s') (he : e.isQueue = false) :
    RegWrite d off val s (s'.log e) := by
  obtain ⟨es, htr, hes⟩ := h.trace
  refine ⟨h.mem, h.blk, h.conIn, h.other, ⟨es ++ [e], ?_, ?_⟩, h.last, h.ready, h.reset⟩
  · show s'.trace ++ [e] = _
    rw [htr, List.append_assoc]
  · intro e' he'
    rcases List.mem_append.1 he' with he' | he'
    · exact hes e' he'
    · rwa [List.mem_singleton.1 he']

theorem RegWrite.lowerIrq {s' : St} (h : RegWrite d off val s s') :
    RegWrite d off val s ((virtioLowerIrq d).run s').2 := by
  rw [virtioLowerIrq_run]
  dsimp only
  split
  · exact h.log rfl
  · exact h

theorem virtioMmioWrite_regWrite (hoff : off ≠ vmmioQueueNotify) (len : Nat) :
    RegWrite d off val s ((virtioMmioWrite d off len val).run s).2 := by
  rw [virtioMmioWrite_run, if_neg hoff]
  split
  · rename_i hack
    have hdev : RegWrite d off val s (s.setDev d ((s.dev d).ack val)) := by
      refine .of_setDev rfl ?_
      rintro rfl
      cases hack
    exact hdev.lowerIrq
  · split
    · have hreset : RegWrite d off val s ((virtioReset d).run s).2 := .of_reset
      rwa [virtioReset_run] at hreset
    · rename_i hno
      unfold VirtioDev.regWrite
      split
      · rename_i hstatus
        exact .of_setDev (v := { s.dev d with status := val.setWidth 32 }) rfl fun _ hval => hno ⟨hstatus, hval⟩
      · rename_i hstatus
        cases hw : ((s.dev d).vq (s.dev d).selected).write off val with
        | some q => exact .of_write hw
        | none => exact .of_setDev (write_vq (s.dev d) d off len val) fun h => absurd h hstatus

/-! ### `last_avail_idx` -/

/-- A queue's `last_avail_idx` changes by the entries consumed, or becomes 0. -/
def moves : Guarantee St where
  rel s s' := ∃ es, s'.trace = s.trace ++ es ∧ ∀ d qi, es.countP (Event.isConsumed d qi) = 0 →
    (s'.vq d qi).lastAvailIdx = (s.vq d qi).lastAvailIdx ∨ (s'.vq d qi).lastAvailIdx = 0
  refl _ := ⟨[], (List.append_nil _).symm, fun _ _ _ => .inl rfl⟩
  trans := by
    rintro s₁ s₂ s₃ ⟨es₁, ht₁, h₁⟩ ⟨es₂, ht₂, h₂⟩
    refine ⟨es₁ ++ es₂, by rw [ht₂, ht₁, List.append_assoc], fun d qi hc => ?_⟩
    rw [List.countP_append, Nat.add_eq_zero_iff] at hc
    rcases h₂ d qi hc.2 with h | h
    · rw [h]
      exact h₁ d qi hc.1
    · exact .inr h

theorem Serves.moves {s s' : St} (h : Serves d s s') : moves.rel s s' := by
  obtain ⟨es, htr, hl⟩ := h.trace
  refine ⟨es, htr, fun d' qi hc => .inl ?_⟩
  rw [hl, hc]
  exact BitVec.add_zero _

theorem RegWrite.moves {s' : St} (h : RegWrite d off val s s') : moves.rel s s' := by
  obtain ⟨es, htr, -⟩ := h.trace
  refine ⟨es, htr, fun d' qi _ => ?_⟩
  by_cases hd : d' = d
  · rw [hd]
    exact h.last qi
  · left
    unfold St.vq
    rw [h.other d' hd]

theorem virtioMmioWrite_moves (d : Dev) (off len : Nat) (val : BitVec 64) :
    Within moves (virtioMmioWrite d off len val) := by
  intro s
  by_cases hoff : off = vmmioQueueNotify
  · unfold virtioMmioWrite
    rw [run_bind, run_get]
    dsimp only
    rw [run_ite, if_pos hoff]
    exact ((serves_services _).serviceVq _ s).moves
  · exact (virtioMmioWrite_regWrite hoff len).moves

theorem serviceStart_work (d : Dev) (qi : Nat) : Within work (serviceStart d qi) := by
  refine Within.get.bind fun s => .ite (.pure _) ?_
  split
  · exact (work_transfers.guestLoad _ _).bind fun _ => .pure _
  · exact .pure _

theorem serviceIter_opens {L : Layout} {qi : Nat} {R : Nat → Prop} {c : ServiceCall}
    (hready : (L.vq d qi).ready ≠ 0 → R (L.vq d qi).availRing) (hring : c.d = d → c.qi = qi → R c.ring) :
    Within (opens L c.d d qi R) (serviceIter c) :=
  (serviceRound_opens (devHandle_opens hready c.qi) hring c.idx c.did).bind fun _ => .pure _

theorem serviceIter_serves (c : ServiceCall) : Within (serves c.d) (serviceIter c) :=
  ((serves_services c.d).serviceRound ((serves_services c.d).devHandle c.qi) _ _ _ _).bind fun _ => .pure _

theorem ThreadAct.step_moves (t : Threads) (a : ThreadAct) : moves.rel t.st (a.step t).st := by
  cases a with
  | store mem => exact ⟨[], (List.append_nil _).symm, fun _ _ _ => .inl rfl⟩
  | mmioWrite d off len val => exact virtioMmioWrite_moves d off len val t.st
  | start d qi =>
    dsimp only [ThreadAct.step]
    split
    · exact ((serviceStart_work d qi t.st).serves d).moves
    · exact moves.refl _
  | iter =>
    dsimp only [ThreadAct.step]
    split
    · exact (serviceIter_serves _ t.st).moves
    · exact moves.refl _
  | raise =>
    dsimp only [ThreadAct.step]
    split
    · exact (virtioRaiseIrq_serves _ t.st).moves
    · exact moves.refl _

theorem run_moves (t : Threads) (acts : List ThreadAct) :
    moves.rel t.st (runSteps ThreadAct.step t acts).st := by
  induction acts generalizing t with
  | nil => exact moves.refl _
  | cons a acts ih => exact moves.trans (a.step_moves t) (ih _)

/-- As long as a queue consumes nothing, a `last_avail_idx` of 0 stays. -/
theorem run_last {t : Threads} {acts : List ThreadAct} {qi : Nat}
    (hlast : (t.st.vq d qi).lastAvailIdx = 0)
    (hc : (runSteps ThreadAct.step t acts).consumed d qi = t.consumed d qi) :
    ((runSteps ThreadAct.step t acts).st.vq d qi).lastAvailIdx = 0 := by
  obtain ⟨es, htr, h⟩ := run_moves t acts
  unfold Threads.consumed at hc
  rw [htr, List.countP_append] at hc
  rcases h d qi (by omega) with h | h
  · rw [h, hlast]
  · exact h

/-! ### The echo FIFO -/

theorem devCanConsume_congr {s s' : St} (h : s'.conIn = s.conIn) (d : Dev) (qi : Nat) :
    devCanConsume s' d qi = devCanConsume s d qi := by
  unfold devCanConsume
  rw [h]

/-! ### Between the reset and QUEUE_READY -/

/-- A call in its loop serves a queue that the device has. -/
def Threads.Valid (t : Threads) : Prop := ∀ c, t.worker = .loop c → c.qi < c.d.nqueues

/-- No queue of `d` is ready or has consumed anything, and no call for `d` goes on. -/
structure Window (d : Dev) (t : Threads) : Prop where
  ready : ∀ qi, qi < d.nqueues → (t.st.vq d qi).ready = 0
  last : ∀ qi, qi < d.nqueues → (t.st.vq d qi).lastAvailIdx = 0
  spent : ∀ c, t.worker = .loop c → c.d = d → c.qi < d.nqueues ∧ c.Over t.st
  quiet : t.worker ≠ .raise d

variable {t : Threads}

theorem serviceStart_dead (h : ∀ qi, qi < d.nqueues → (s.vq d qi).ready = 0) (qi : Nat) :
    (serviceStart d qi).run s = (.idle, s) := by
  have hdead : d.nqueues ≤ qi ∨ (s.vq d qi).ready = 0 ∨ (s.vq d qi).num = 0 := by
    rcases Nat.lt_or_ge qi d.nqueues with hqi | hqi
    · exact .inr (.inl (h qi hqi))
    · exact .inl hqi
  unfold serviceStart
  rw [run_bind, run_get]
  dsimp only
  rw [run_ite, if_pos hdead]
  rfl

theorem serviceVq_dead (h : ∀ qi, qi < d.nqueues → (s.vq d qi).ready = 0) (qi : Nat) :
    (serviceVq d qi).run s = (some (), s) := by
  rw [serviceVq_eq, run_bind, serviceStart_dead h]
  rfl

theorem serviceIter_done {c : ServiceCall} (hlast : (s.vq c.d c.qi).lastAvailIdx = 0)
    (h : c.idx = 0 ∨ devCanConsume s c.d c.qi = false) :
    (serviceIter c).run s = (c.next (.inr (some c.did)), s) := by
  have hidle : c.Idle s := h.imp_left fun h0 => by rw [hlast, h0]
  unfold serviceIter
  rw [run_bind, serviceRound_idle hidle]
  rfl

theorem serviceIter_over {c : ServiceCall} (hlast : (s.vq c.d c.qi).lastAvailIdx = 0) (h : c.Over s) :
    (serviceIter c).run s = (.idle, s) := by
  rw [serviceIter_done hlast h.2, h.1]
  rfl

theorem start_loop {d' : Dev} {qi : Nat} {c : ServiceCall}
    (h : ((serviceStart d' qi).run s).1 = .loop c) :
    c.d = d' ∧ c.qi = qi ∧ qi < d'.nqueues ∧ (s.vq d' qi).ready ≠ 0 ∧ c.ring = (s.vq d' qi).availRing := by
  unfold serviceStart at h
  rw [run_bind, run_get] at h
  dsimp only at h
  rw [run_ite] at h
  split at h
  · cases h
  · rename_i hlive
    split at h
    · rename_i hring
      obtain rfl := WorkerPc.loop.inj h
      exact ⟨rfl, rfl, by omega, fun h => hlive (.inr (.inl h)), (gpa2hva_eq_some hring).1⟩
    · cases h

theorem start_ne_raise {d' d'' : Dev} {qi : Nat} : ((serviceStart d' qi).run s).1 ≠ .raise d'' := by
  intro h
  unfold serviceStart at h
  rw [run_bind, run_get] at h
  dsimp only at h
  rw [run_ite] at h
  split at h
  · cases h
  · split at h <;> cases h

/-- An iteration leaves the worker in the loop of the same call, or at its end. -/
theorem next_cases (c : ServiceCall) (r : Bool ⊕ Option Bool) :
    (∃ did, c.next r = .loop { c with did := did }) ∨ c.next r = .raise c.d ∨
      c.next r = .idle ∨ c.next r = .stuck := by
  rcases r with did | did
  · exact .inl ⟨did, rfl⟩
  · rcases did with _ | did
    · exact .inr (.inr (.inr rfl))
    · cases did
      · exact .inr (.inr (.inl rfl))
      · exact .inr (.inl rfl)

/-- A call that is in its loop after a step was there before it, or looks at its queue in it. -/
theorem loop_cases {a : ThreadAct} {c : ServiceCall} (hc : (a.step t).worker = .loop c) :
    (∃ did, t.worker = .loop { c with did := did }) ∨
      c.qi < c.d.nqueues ∧ (t.st.vq c.d c.qi).ready ≠ 0 ∧ c.ring = (t.st.vq c.d c.qi).availRing := by
  cases a with
  | store mem => exact .inl ⟨c.did, hc⟩
  | mmioWrite d off len val => exact .inl ⟨c.did, hc⟩
  -- the only step that enters the loop: it has just looked at the queue
  | start d qi =>
    dsimp only [ThreadAct.step] at hc
    split at hc
    · obtain ⟨rfl, rfl, hlt⟩ := start_loop hc
      exact .inr hlt
    · exact .inl ⟨c.did, hc⟩
  -- only `did` changes in the loop
  | iter =>
    dsimp only [ThreadAct.step] at hc
    split at hc
    · rename_i c₀ hw
      rcases next_cases c₀ ((serviceRound (devHandle c₀.d c₀.qi) c₀.d c₀.qi c₀.ring c₀.idx c₀.did).run t.st).1
        with ⟨did, h'⟩ | h' | h' | h'
      · obtain rfl := WorkerPc.loop.inj (h'.symm.trans hc)
        exact .inl ⟨c₀.did, hw⟩
      · exact absurd (h'.symm.trans hc) (by simp)
      · exact absurd (h'.symm.trans hc) (by simp)
      · exact absurd (h'.symm.trans hc) (by simp)
    · exact .inl ⟨c.did, hc⟩
  | raise =>
    dsimp only [ThreadAct.step] at hc
    split at hc
    · cases hc
    · exact .inl ⟨c.did, hc⟩

theorem Threads.Valid.step (h : t.Valid) (a : ThreadAct) : (a.step t).Valid := by
  intro c hc
  rcases loop_cases hc with ⟨did, hw⟩ | ⟨hlt, -, -⟩
  · exact h { c with did := did } hw
  · exact hlt

theorem run_valid (h : t.Valid) (acts : List ThreadAct) : (runSteps ThreadAct.step t acts).Valid := by
  induction acts generalizing t with
  | nil => exact h
  | cons a acts ih => exact ih (h.step a)

/-- The state of `d` and the worker after a step that leaves `d` and the FIFO alone. -/
theorem Window.of_dev {s' : St} (h : Window d t) (hdev : s'.dev d = t.st.dev d)
    (hcon : d = .console → s'.conIn = t.st.conIn) : Window d ⟨s', t.worker⟩ := by
  have hvq : ∀ qi, s'.vq d qi = t.st.vq d qi := fun qi => congrArg (fun v => VirtioDev.vq v qi) hdev
  refine ⟨fun qi hqi => ?_, fun qi hqi => ?_, fun c hc hd => ?_, h.quiet⟩
  · rw [hvq]
    exact h.ready qi hqi
  · rw [hvq]
    exact h.last qi hqi
  · obtain ⟨hqi, hdid, hidx | hno⟩ := h.spent c hc hd
    · exact ⟨hqi, hdid, .inl hidx⟩
    · refine ⟨hqi, hdid, .inr ?_⟩
      cases d with
      | blk =>
        rw [hd] at hno
        cases hno
      | console =>
        show devCanConsume s' c.d c.qi = false
        rw [devCanConsume_congr (hcon rfl)]
        exact hno

/-- A register write in the window that does not set QUEUE_READY. -/
theorem Window.mmioWrite {d' : Dev} {off len : Nat} {val : BitVec 64} (h : Window d t)
    (ha : ¬(ThreadAct.mmioWrite d' off len val).setsReady d) :
    Window d ⟨((virtioMmioWrite d' off len val).run t.st).2, t.worker⟩ := by
  by_cases hoff : off = vmmioQueueNotify
  · have hrun : ((virtioMmioWrite d' off len val).run t.st).2 =
        ((serviceVq d' (val &&& 0xffff).toNat).run t.st).2 := by
      unfold virtioMmioWrite
      rw [run_bind, run_get]
      dsimp only
      rw [run_ite, if_pos hoff]
    rw [hrun]
    by_cases hd : d' = d
    · subst hd
      -- no queue of `d` is ready, so the notification is without effect
      rw [serviceVq_dead h.ready]
      exact h
    · refine h.of_dev (((serves_services d').serviceVq _ t.st).other d fun h => hd h.symm) fun hcon => ?_
      cases d' with
      | console => exact absurd hcon.symm hd
      | blk => exact keepsConIn_services.serviceVq _ t.st
  · have hreg : RegWrite d' off val t.st ((virtioMmioWrite d' off len val).run t.st).2 :=
      virtioMmioWrite_regWrite hoff len
    by_cases hd : d' = d
    · subst hd
      refine ⟨fun qi hqi => ?_, fun qi hqi => ?_, fun c hc hcd => ?_, h.quiet⟩
      · -- QUEUE_READY could be written with 0 only
        rcases hreg.ready qi with hr | hr | ⟨hr, hval⟩
        · exact hr.trans (h.ready qi hqi)
        · exact hr
        · rw [hval]
          by_contra hne
          exact ha ⟨rfl, hr, hne⟩
      · rcases hreg.last qi with hl | hl
        · exact hl.trans (h.last qi hqi)
        · exact hl
      · obtain ⟨hqi, hdid, hover⟩ := h.spent c hc hcd
        refine ⟨hqi, hdid, ?_⟩
        show c.idx = 0 ∨ devCanConsume ((virtioMmioWrite d' off len val).run t.st).2 c.d c.qi = false
        rw [devCanConsume_congr hreg.conIn]
        exact hover
    · exact h.of_dev (hreg.other d fun h => hd h.symm) fun _ => hreg.conIn

theorem Window.step (h : Window d t) {a : ThreadAct} (ha : ¬a.setsReady d) : Window d (a.step t) := by
  cases a with
  | store mem => exact ⟨h.ready, h.last, h.spent, h.quiet⟩
  | mmioWrite d' off len val => exact h.mmioWrite ha
  | start d' qi =>
    dsimp only [ThreadAct.step]
    split
    · rename_i hidle
      by_cases hd : d' = d
      · subst hd
        -- the call ends at the test of `ready`
        rw [serviceStart_dead h.ready]
        rw [← hidle]
        exact h
      · have hdev := (serviceStart_work d' qi t.st).dev
        refine ⟨fun i hi => ?_, fun i hi => ?_, fun c hc hcd => ?_, start_ne_raise⟩
        · unfold St.vq
          rw [hdev]
          exact h.ready i hi
        · unfold St.vq
          rw [hdev]
          exact h.last i hi
        · exact absurd ((start_loop hc).1.symm.trans hcd) hd
    · exact h
  | iter =>
    dsimp only [ThreadAct.step]
    split
    · rename_i c hw
      by_cases hd : c.d = d
      · -- a call left from before the reset finds nothing, and ends
        obtain ⟨hqi, hover⟩ := h.spent c hw hd
        rw [serviceIter_over (by rw [hd]; exact h.last _ hqi) hover]
        exact ⟨h.ready, h.last, fun c' hc' => (by cases hc'), by simp⟩
      · have hdev := (serviceIter_serves c t.st).other d fun h => hd h.symm
        have hnext := next_cases c
          ((serviceRound (devHandle c.d c.qi) c.d c.qi c.ring c.idx c.did).run t.st).1
        refine ⟨fun i hi => ?_, fun i hi => ?_, fun c' hc' hcd => ?_, fun hr => ?_⟩
        · exact (congrArg (fun v => (VirtioDev.vq v i).ready) hdev).trans (h.ready i hi)
        · exact (congrArg (fun v => (VirtioDev.vq v i).lastAvailIdx) hdev).trans (h.last i hi)
        · rcases hnext with ⟨did, h'⟩ | h' | h' | h'
          · obtain rfl := WorkerPc.loop.inj (h'.symm.trans hc')
            exact absurd hcd hd
          · exact absurd (h'.symm.trans hc') (by simp)
          · exact absurd (h'.symm.trans hc') (by simp)
          · exact absurd (h'.symm.trans hc') (by simp)
        · rcases hnext with ⟨did, h'⟩ | h' | h' | h'
          · exact absurd (h'.symm.trans hr) (by simp)
          · exact hd (WorkerPc.raise.inj (h'.symm.trans hr))
          · exact absurd (h'.symm.trans hr) (by simp)
          · exact absurd (h'.symm.trans hr) (by simp)
    · exact h
  | raise =>
    dsimp only [ThreadAct.step]
    split
    · rename_i d' hw
      -- the interrupt can only be that of the other device
      have hd : d ≠ d' := fun hd => h.quiet (hd ▸ hw)
      have hdev := (virtioRaiseIrq_serves d' t.st).other d hd
      refine ⟨fun i hi => ?_, fun i hi => ?_, fun c' hc' => (by cases hc'), by simp⟩
      · exact (congrArg (fun v => (VirtioDev.vq v i).ready) hdev).trans (h.ready i hi)
      · exact (congrArg (fun v => (VirtioDev.vq v i).lastAvailIdx) hdev).trans (h.last i hi)
    · exact h

theorem Window.run (h : Window d t) {acts : List ThreadAct} (ha : ∀ a ∈ acts, ¬a.setsReady d) :
    Window d (runSteps ThreadAct.step t acts) := by
  induction acts generalizing t with
  | nil => exact h
  | cons a acts ih =>
    exact ih (h.step (ha a List.mem_cons_self)) fun b hb => ha b (List.mem_cons_of_mem a hb)

/-- A reset that no call for the device meets opens the window. -/
theorem Window.of_reset (hvalid : t.Valid) {a : ThreadAct} (ha : a.isReset d) (hcalm : ¬t.Busy d) :
    Window d (a.step t) := by
  cases a with
  | mmioWrite d' off len val =>
    obtain ⟨rfl, rfl, rfl⟩ := ha
    have hreg : RegWrite d' vmmioStatus 0 t.st ((virtioMmioWrite d' vmmioStatus len 0).run t.st).2 :=
      virtioMmioWrite_regWrite (by decide) len
    have hreset := hreg.reset rfl rfl
    refine ⟨fun qi hqi => (hreset qi hqi).1, fun qi hqi => (hreset qi hqi).2, fun c hc hcd => ?_,
      fun hr => hcalm ?_⟩
    · refine ⟨hcd ▸ hvalid c hc, ?_⟩
      -- a call in the loop is over, since the device was not busy
      have hover : c.Over t.st := by
        by_contra hno
        refine hcalm ?_
        unfold Threads.Busy
        have hw : t.worker = .loop c := hc
        rw [hw]
        exact ⟨hcd, hno⟩
      refine ⟨hover.1, ?_⟩
      show c.idx = 0 ∨ devCanConsume ((virtioMmioWrite d' vmmioStatus len 0).run t.st).2 c.d c.qi = false
      rw [devCanConsume_congr hreg.conIn]
      exact hover.2
    · unfold Threads.Busy
      have hw : t.worker = .raise d' := hr
      rw [hw]
  | store => exact ha.elim
  | start => exact ha.elim
  | iter => exact ha.elim
  | raise => exact ha.elim

/-- In the window the worker changes nothing for `d`. -/
theorem Window.silent (h : Window d t) {a : ThreadAct} (ha : a.worksFor t d) :
    (a.step t).st = t.st := by
  cases a with
  | store => exact ha.elim
  | mmioWrite => exact ha.elim
  | start d' qi =>
    obtain rfl : d' = d := ha
    dsimp only [ThreadAct.step]
    split
    · rw [serviceStart_dead h.ready]
    · rfl
  | iter =>
    obtain ⟨c, hw, hd⟩ := ha
    obtain ⟨hqi, hover⟩ := h.spent c hw hd
    dsimp only [ThreadAct.step]
    rw [hw]
    dsimp only
    rw [serviceIter_over (by rw [hd]; exact h.last _ hqi) hover]
  | raise => exact absurd ha h.quiet

/-! ### After QUEUE_READY -/

/-- Queue `qi` of `d` has taken nothing since the reset, and whatever may take an entry next goes by one of
the rings `R`. -/
structure Fresh (d : Dev) (qi : Nat) (R : Nat → Prop) (t : Threads) : Prop where
  last : (t.st.vq d qi).lastAvailIdx = 0
  ready : (t.st.vq d qi).ready ≠ 0 → R (t.st.vq d qi).availRing
  call : ∀ c, t.worker = .loop c → c.d = d → c.qi = qi → c.idx = 0 ∨ R c.ring ∨ Window d t

variable {qi : Nat} {R : Nat → Prop} {a : ThreadAct} {es : List Event}

theorem Window.fresh (h : Window d t) (hqi : qi < d.nqueues) : Fresh d qi R t :=
  ⟨h.last qi hqi, fun hready => absurd (h.ready qi hqi) hready, fun _ _ _ _ => .inr (.inr h)⟩

/-- In a step of a call in its loop. -/
theorem Fresh.first_iter (h : Fresh d qi R t) {c : ServiceCall} (hw : t.worker = .loop c)
    (hes : ((serviceIter c).run t.st).2.trace = t.st.trace ++ es) : FirstAt d qi R es := by
  by_cases hring : c.d = d → c.qi = qi → R c.ring
  case pos => exact (serviceIter_opens (L := t.st.layout) h.ready hring t.st).first rfl h.last es hes
  -- the call goes by another ring, so it is left from before the reset and takes nothing
  obtain ⟨hd, hqi, hno⟩ : c.d = d ∧ c.qi = qi ∧ ¬R c.ring := by
    by_contra hcon
    exact hring fun hd hqi => by_contra fun hno => hcon ⟨hd, hqi, hno⟩
  have hdone : c.idx = 0 ∨ devCanConsume t.st c.d c.qi = false := by
    rcases h.call c hw hd hqi with hidx | hr | hwindow
    · exact .inl hidx
    · exact absurd hr hno
    · exact (hwindow.spent c hw hd).2.2
  rw [serviceIter_done (by rw [hd, hqi]; exact h.last) hdone] at hes
  rw [List.self_eq_append_right.1 hes]
  exact .of_none rfl

/-- Whatever step takes the first entry, it takes the one in slot 0 of a ring of `R`. -/
theorem Fresh.first (h : Fresh d qi R t) (hes : (a.step t).st.trace = t.st.trace ++ es) : FirstAt d qi R es := by
  have hidle : t.st.trace = t.st.trace ++ es → FirstAt d qi R es := by
    intro hes
    rw [List.self_eq_append_right.1 hes]
    exact .of_none rfl
  cases a with
  | store mem => exact hidle hes
  | mmioWrite d' off len val =>
    by_cases hoff : off = vmmioQueueNotify
    · -- a notification, which is handled on this thread
      have hrun : ((virtioMmioWrite d' off len val).run t.st).2 =
          ((serviceVq d' (val &&& 0xffff).toNat).run t.st).2 := by
        unfold virtioMmioWrite
        rw [run_bind, run_get]
        dsimp only
        rw [run_ite, if_pos hoff]
      have hopens : Within (opens t.st.layout d' d qi R) (serviceVq d' (val &&& 0xffff).toNat) :=
        serviceVq_opens h.ready _
      refine (hopens t.st).first rfl h.last es ?_
      rw [← hrun]
      exact hes
    · -- the other registers consume nothing
      have hwrite : RegWrite d' off val t.st ((virtioMmioWrite d' off len val).run t.st).2 :=
        virtioMmioWrite_regWrite hoff len
      obtain ⟨es', htr, hes'⟩ := hwrite.trace
      rw [← List.append_cancel_left (hes.symm.trans htr)] at hes'
      exact .of_none (countP_isConsumed hes' d qi)
  | start d' q =>
    dsimp only [ThreadAct.step] at hes
    split at hes
    · obtain ⟨es', htr, hes'⟩ := (serviceStart_work d' q t.st).trace
      rw [← List.append_cancel_left (hes.symm.trans htr)] at hes'
      exact .of_none (countP_isConsumed hes' d qi)
    · exact hidle hes
  | iter =>
    dsimp only [ThreadAct.step] at hes
    split at hes
    · rename_i c hw
      exact h.first_iter hw hes
    · exact hidle hes
  | raise =>
    dsimp only [ThreadAct.step] at hes
    split at hes
    · rename_i d' hw
      exact (virtioRaiseIrq_opens (L := t.st.layout) t.st).first rfl h.last es hes
    · exact hidle hes

/-- A call that is left from before the reset stays harmless, since no queue is made ready under it. -/
theorem Fresh.call_step (h : Fresh d qi R t) (ha : a.Calm t) {c : ServiceCall} (hc : (a.step t).worker = .loop c)
    (hd : c.d = d) (hqi : c.qi = qi) : c.idx = 0 ∨ R c.ring ∨ Window d (a.step t) := by
  rcases loop_cases hc with ⟨did, hw⟩ | ⟨-, hready, hring⟩
  · rcases h.call _ hw hd hqi with hidx | hr | hwindow
    · exact .inl hidx
    · exact .inr (.inl hr)
    · by_cases hset : a.setsReady d
      · left
        by_contra hidx
        -- under a call that has entries to take the step would not be calm
        obtain ⟨hq, hover⟩ := hwindow.spent _ hw hd
        refine (ha d).2 hset ?_
        unfold Threads.Left
        rw [hw]
        exact ⟨hd, hover, hidx, hwindow.ready c.qi hq, hwindow.last c.qi hq⟩
      · exact .inr (.inr (hwindow.step hset))
  · rw [hd, hqi] at hready hring
    rw [hring]
    exact .inr (.inl (h.ready hready))

theorem Fresh.step (h : Fresh d qi R t) (ha : a.Calm t) (hc : (a.step t).consumed d qi = t.consumed d qi)
    (hready : ((a.step t).st.vq d qi).ready ≠ 0 → R ((a.step t).st.vq d qi).availRing) :
    Fresh d qi R (a.step t) := by
  have hlast : ((runSteps ThreadAct.step t [a]).st.vq d qi).lastAvailIdx = 0 := run_last h.last hc
  exact ⟨hlast, hready, fun _ => h.call_step ha⟩

theorem Threads.consumed_mono (t : Threads) (acts : List ThreadAct) (d : Dev) (qi : Nat) :
    t.consumed d qi ≤ (runSteps ThreadAct.step t acts).consumed d qi := by
  obtain ⟨es, htr, -⟩ := run_moves t acts
  unfold Threads.consumed
  rw [htr, List.countP_append]
  omega

theorem Fresh.run (h : Fresh d qi R t) {acts : List ThreadAct}
    (hcalm : AllSteps ThreadAct.step (fun t a => a.Calm t) t acts)
    (hc : (runSteps ThreadAct.step t acts).consumed d qi = t.consumed d qi)
    (hR : ∀ slot, t.SlotZero acts d qi slot → R slot) : Fresh d qi R (runSteps ThreadAct.step t acts) := by
  induction acts generalizing t with
  | nil => exact h
  | cons a acts ih =>
    have hfirst : (a.step t).consumed d qi = t.consumed d qi :=
      Nat.le_antisymm (hc ▸ Threads.consumed_mono (a.step t) acts d qi) (Threads.consumed_mono t [a] d qi)
    refine ih (h.step hcalm.1 hfirst fun hready => hR _ ⟨[a], acts, rfl, hready, rfl⟩) hcalm.2
      (hc.trans hfirst.symm) ?_
    rintro slot ⟨m, m', rfl, hready, hslot⟩
    exact hR slot ⟨a :: m, m', rfl, hready, hslot⟩

/-- In a run in which no reset meets a call of `service_vq()` that goes on, and no queue is made ready
under a call that is left, resets do what they should. -/
theorem resetLaw_of_calm (s : St) (acts : List ThreadAct)
    (h : AllSteps ThreadAct.step (fun t a => a.Calm t) ⟨s, .idle⟩ acts) : ResetLaw ⟨s, .idle⟩ acts := by
  have hvalid : Threads.Valid ⟨s, .idle⟩ := fun c hc => by cases hc
  have hwindow : ∀ pre reset rest d, acts = pre ++ reset :: rest → reset.isReset d →
      Window d (reset.step (runSteps ThreadAct.step ⟨s, .idle⟩ pre)) := by
    intro pre reset rest d hacts hreset
    rw [hacts, allSteps_append] at h
    exact .of_reset (run_valid hvalid pre) hreset ((h.2.1 d).1 hreset)
  constructor
  · intro pre reset mid a post d hacts hreset hmid before ha
    have hbefore : Window d before := by
      show Window d (runSteps ThreadAct.step ⟨s, .idle⟩ (pre ++ reset :: mid))
      rw [runSteps_append]
      exact (hwindow pre reset _ d hacts hreset).run hmid
    rw [hbefore.silent ha]
    exact ⟨rfl, rfl, rfl⟩
  · intro pre reset mid post d qi hacts hreset hqi s₁ s₂ hc
    exact run_last ((hwindow pre reset _ d hacts hreset).last qi hqi) hc
  · intro pre reset mid a post d qi hacts hreset hqi s₁ s₂ hc es hes
    have hcalm := h
    rw [hacts, allSteps_append] at hcalm
    exact (((hwindow pre reset _ d hacts hreset).fresh hqi).run (allSteps_append.1 hcalm.2.2).1 hc
      fun _ hslot => hslot).first hes

def flushStart : St := .initial flushRequest 0x4000000 [] true fun _ => 0

/-- The driver sets the queue up, and the worker is notified. -/
def flushNotify : List ThreadAct :=
  [.mmioWrite .blk vmmioQueueNum 4 2, .mmioWrite .blk vmmioQueueDescLow 4 0x1000,
    .mmioWrite .blk vmmioQueueAvailLow 4 0x2000, .mmioWrite .blk vmmioQueueUsedLow 4 0x3000,
    .mmioWrite .blk vmmioQueueReady 4 1, .start .blk 0]

/-- A reset after the call of `service_vq()`, and one more set-up and call. -/
theorem resetLaw_of_calm_flush : ResetLaw ⟨flushStart, .idle⟩ (flushNotify ++
    .iter :: .iter :: .raise :: .mmioWrite .blk vmmioStatus 4 0 :: flushNotify ++ [.iter]) := by
  refine resetLaw_of_calm flushStart _ ?_
  refine ⟨?_, ?_, ?_, ?_, ?_, ?_, ?_, ?_, ?_, ?_, ?_, ?_, ?_, ?_, ?_, ?_, ?_, trivial⟩ <;> decide +kernel

/-- A reset between two iterations. -/
theorem not_resetLaw : ¬∀ (s : St) (acts : List ThreadAct), ResetLaw ⟨s, .idle⟩ acts := by
  intro h
  have hsilent := (h flushStart (flushNotify ++ [.mmioWrite .blk vmmioStatus 4 0, .iter])).silent
    flushNotify (.mmioWrite .blk vmmioStatus 4 0) [] .iter [] .blk rfl ⟨rfl, rfl, rfl⟩ (by simp)
    ⟨⟨.blk, 0, 0x2004, 1, false⟩, by decide +kernel, rfl⟩
  have hused := congrFun hsilent.1 0x3002
  exact absurd hused (by decide +kernel)

end MiniVirt.Vmm
