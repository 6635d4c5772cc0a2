import MiniVirt.Vmm.Notify
import MiniVirt.Vmm.Spec.Completion

/-!
# No notification is lost

With `-e` the driver goes on making entries available while the worker serves a queue, and a
notification may come at any point of `service_vq()`, which has read the avail index before.  It is
not lost: the worker resets the eventfd first and reads the index then, so a notification that comes
later makes the eventfd ready again (`notifications_answered`).
-/

namespace MiniVirt.Vmm

/-! ### Runs -/

/-- What the driver and the worker do. -/
inductive NotifyAct where
  /-- The entry `e` is made available, after which guest RAM is `mem`. -/
  | post (d : Dev) (qi : Nat) (e : Entry) (mem : ByteMem)
  | notify (d : Dev) (qi : Nat)
  /-- A write to INTERRUPT_ACK. -/
  | ack (d : Dev) (val : BitVec 64)
  | wake (evs : List NotifyReg)
  | work

/-- The program, the entries that have been made available, and how many there were at the last
notification of each queue. -/
structure PlaneRun where
  plane : DataPlane
  posted : Posted
  told : Dev → Nat → Nat

/-- The address of a register. -/
def Dev.reg (d : Dev) (off : Nat) : BitVec 64 := d.base + .ofNat 64 off

def NotifyAct.step (x : PlaneRun) : NotifyAct → PlaneRun
  | .post d qi e mem => { x with plane := (PlaneAct.store mem).step x.plane, posted := x.posted.add d qi e }
  | .notify d qi =>
    { x with
      plane := (PlaneAct.write (d.reg vmmioQueueNotify) 4 (.ofNat 64 qi)).step x.plane
      told := fun d' qi' => if (d', qi') = (d, qi) then (x.posted d qi).length else x.told d' qi' }
  | .ack d val => { x with plane := (PlaneAct.write (d.reg vmmioIntAck) 4 val).step x.plane }
  | .wake evs => { x with plane := (PlaneAct.wake evs).step x.plane }
  | .work => { x with plane := PlaneAct.work.step x.plane }

/-- A step that the driver may make, or that the kernel makes. -/
def NotifyAct.Allowed (L : Layout) (x : PlaneRun) : NotifyAct → Prop
  | .post d qi e mem => (QueueAct.post d qi e mem).Allowed L ⟨x.plane.st, x.posted⟩
  | .notify d qi => qi < d.nqueues
  | .ack .. => True
  | .wake evs => x.plane.Ready evs
  | .work => True

/-- The worker's steps. -/
def NotifyAct.byWorker : NotifyAct → Bool
  | .wake _ | .work => true
  | _ => false

/-- The worker waits, and no eventfd is ready. -/
def DataPlane.Quiescent (x : DataPlane) : Prop := x.worker = .wait ∧ ∀ r ∈ notifyRegs, x.count r = 0

/-- The queue is done with all that the driver has told of, or it receives and nothing is pending. -/
def PlaneRun.Answered (x : PlaneRun) (d : Dev) (qi : Nat) : Prop :=
  x.told d qi ≤ (x.plane.st.taken d qi).length ∨ ((d, qi) = (.console, 0) ∧ x.plane.st.conIn.count = 0)

/-- The start of the program. -/
def St.planeRun (s : St) : PlaneRun := ⟨⟨s, fun _ => 0, .wait⟩, fun _ _ => [], fun _ _ => 0⟩

/-! ### The invariant -/

variable {s₀ s s' : St} {x y : PlaneRun} {L : Layout} {m₀ : ByteMem} {posted : Posted} {d : Dev}
  {qi k : Nat}

/-- A queue has nothing to be told of, or it will be served. -/
inductive Heard (x : PlaneRun) (k : Nat) (d : Dev) (qi : Nat) : Prop
  | answered (h : x.Answered d qi)
  | counted (h : 0 < x.plane.count ⟨d, qi⟩)
  | called {rest : List NotifyReg} (h : x.plane.worker = .call ⟨d, qi⟩ rest)
  | served {c : ServiceCall} {rest : List NotifyReg} (h : x.plane.worker = .service (.loop c) rest)
    (hd : c.d = d) (hqi : c.qi = qi) (hk : x.told d qi ≤ k)

/-- A call of `service_vq()` is about the first `k` entries of its queue. -/
structure CallInv (L : Layout) (x : PlaneRun) (k : Nat) (c : ServiceCall) : Prop where
  live : L.Live c.d c.qi
  ring : c.ring = (L.vq c.d c.qi).avail.toNat + 4
  idx : c.idx = .ofNat 16 k
  taken : (x.plane.st.taken c.d c.qi).length ≤ k
  posted : k ≤ (x.posted c.d c.qi).length

structure PlaneInv (L : Layout) (m₀ : ByteMem) (x : PlaneRun) (k : Nat) : Prop where
  queues : QueueInv L m₀ x.posted x.plane.st
  told : ∀ d qi, x.told d qi ≤ (x.posted d qi).length
  call : ∀ c rest, x.plane.worker = .service (.loop c) rest → CallInv L x k c
  returns : ∀ rest, x.plane.worker ≠ .service .stuck rest
  heard : ∀ d qi, L.Live d qi → Heard x k d qi

theorem Started.planeInv (h : Started s₀) : PlaneInv s₀.layout s₀.mem s₀.planeRun 0 := by
  refine ⟨h.inv, fun _ _ => le_rfl, fun c rest hw => ?_, fun rest hw => ?_, fun d qi _ => ?_⟩
  · cases hw
  · cases hw
  · exact .answered (.inl (Nat.zero_le _))

/-! ### What does not concern the queues -/

/-- A step that leaves the reports of the queues and the FIFO of the console alone. -/
structure Calm (s s' : St) : Prop where
  taken : ∀ d qi, s'.taken d qi = s.taken d qi
  conIn : s'.conIn = s.conIn

theorem PlaneRun.Answered.congr (h : x.Answered d qi) (htold : y.told d qi = x.told d qi)
    (hcalm : Calm x.plane.st y.plane.st) : y.Answered d qi := by
  unfold PlaneRun.Answered
  rw [htold, hcalm.taken, hcalm.conIn]
  exact h

theorem Calm.of_kept {P : Set Nat} (h : Kept P s s') (hconIn : s'.conIn = s.conIn) : Calm s s' :=
  ⟨h.taken, hconIn⟩

/-- A step of the driver, which leaves the worker where it is. -/
theorem PlaneInv.of_driver (h : PlaneInv L m₀ x k) (hqueues : QueueInv L m₀ y.posted y.plane.st)
    (hcalm : Calm x.plane.st y.plane.st) (hworker : y.plane.worker = x.plane.worker)
    (hcount : ∀ r, x.plane.count r ≤ y.plane.count r)
    (hposted : ∀ d qi, (x.posted d qi).length ≤ (y.posted d qi).length)
    (htold : ∀ d qi, y.told d qi = x.told d qi ∨
      (0 < y.plane.count ⟨d, qi⟩ ∧ y.told d qi ≤ (y.posted d qi).length)) : PlaneInv L m₀ y k := by
  refine ⟨hqueues, fun d qi => ?_, fun c rest hw => ?_, fun rest hw => ?_, fun d qi hlive => ?_⟩
  · rcases htold d qi with heq | ⟨-, hle⟩
    · rw [heq]
      exact (h.told d qi).trans (hposted d qi)
    · exact hle
  · have hcall := h.call c rest (hworker ▸ hw)
    refine ⟨hcall.live, hcall.ring, hcall.idx, ?_, hcall.posted.trans (hposted _ _)⟩
    rw [hcalm.taken]
    exact hcall.taken
  · exact h.returns rest (hworker ▸ hw)
  · rcases htold d qi with heq | ⟨hcounted, -⟩
    · cases h.heard d qi hlive with
      | answered ha => exact .answered (ha.congr heq hcalm)
      | counted hc => exact .counted (hc.trans_le (hcount _))
      | called hw => exact .called (hworker.trans hw)
      | served hw hd hqi hk => exact .served (hworker.trans hw) hd hqi (heq ▸ hk)
    · exact .counted hcounted

/-! ### The driver -/

theorem PlaneInv.post {e : Entry} {mem : ByteMem} (h : PlaneInv L m₀ x k)
    (hpost : (NotifyAct.post d qi e mem).Allowed L x) :
    PlaneInv L m₀ ((NotifyAct.post d qi e mem).step x) k := by
  have hqueues : QueueInv L m₀ (x.posted.add d qi e) { x.plane.st with mem := mem } :=
    QueueInv.post (x := ⟨x.plane.st, x.posted⟩) h.queues hpost
  refine h.of_driver hqueues ⟨fun _ _ => rfl, rfl⟩ rfl (fun _ => le_rfl) (fun d' qi' => ?_) fun _ _ =>
    .inl rfl
  show (x.posted d' qi').length ≤ (x.posted.add d qi e d' qi').length
  unfold Posted.add
  split
  · rw [List.length_append]
    exact Nat.le_add_right _ _
  · exact le_rfl

/-- KVM takes the notifications of the driver. -/
theorem ioeventfdHit_notify (hqi : qi < d.nqueues) :
    ioeventfdHit (d.reg vmmioQueueNotify) 4 (.ofNat 64 qi) = some ⟨d, qi⟩ := by
  cases d with
  | console =>
    obtain rfl | rfl : qi = 0 ∨ qi = 1 := by
      have hqi : qi < 2 := hqi
      omega
    · decide
    · decide
  | blk =>
    obtain rfl : qi = 0 := Nat.lt_one_iff.1 hqi
    decide

theorem notify_step (hqi : qi < d.nqueues) :
    (NotifyAct.notify d qi).step x =
      { x with
        plane := { x.plane with
          count := Function.update x.plane.count ⟨d, qi⟩ (x.plane.count ⟨d, qi⟩ + 1) }
        told := fun d' qi' => if (d', qi') = (d, qi) then (x.posted d qi).length else x.told d' qi' } := by
  unfold NotifyAct.step PlaneAct.step
  dsimp only
  rw [ioeventfdHit_notify hqi]

theorem PlaneInv.notify (h : PlaneInv L m₀ x k) (hqi : qi < d.nqueues) :
    PlaneInv L m₀ ((NotifyAct.notify d qi).step x) k := by
  rw [notify_step hqi]
  refine h.of_driver h.queues ⟨fun _ _ => rfl, rfl⟩ rfl (fun r => ?_) (fun _ _ => le_rfl)
    fun d' qi' => ?_
  · show x.plane.count r ≤ Function.update x.plane.count ⟨d, qi⟩ (x.plane.count ⟨d, qi⟩ + 1) r
    by_cases hr : r = ⟨d, qi⟩
    · rw [hr, Function.update_self]
      exact Nat.le_succ _
    · rw [Function.update_of_ne hr]
  · by_cases hq : (d', qi') = (d, qi)
    · obtain ⟨rfl, rfl⟩ := Prod.mk.inj hq
      refine .inr ⟨?_, ?_⟩
      · simp
      · simp
    · exact .inl (if_neg hq)

/-- An acknowledgement changes the interrupt status and the interrupt line. -/
theorem intAck_run (d : Dev) (val : BitVec 64) (s : St) :
    ∃ v es, (∀ e ∈ es, Event.isQueue e = false) ∧
      ((virtioMmioWrite d vmmioIntAck 4 val).run s).2 =
        { s.setDev d { s.dev d with intStatus := v } with trace := s.trace ++ es } := by
  have hrun : (virtioMmioWrite d vmmioIntAck 4 val).run s =
      (some (), ((virtioLowerIrq d).run
        (s.setDev d { s.dev d with intStatus := (s.dev d).intStatus &&& ~~~(val.setWidth 32) })).2) :=
    rfl
  refine ⟨(s.dev d).intStatus &&& ~~~(val.setWidth 32), ?_⟩
  rw [hrun, virtioLowerIrq, run_bind, run_get]
  dsimp only
  rw [run_ite, run_ite]
  split
  · exact ⟨[], by simp, by rw [List.append_nil]; rfl⟩
  · split
    · exact ⟨[.irqLine d.gsi false], by simp [Event.isQueue], rfl⟩
    · exact ⟨[], by simp, by rw [List.append_nil]; rfl⟩

theorem setIntStatus_vq (v : BitVec 32) (d' : Dev) (qi : Nat) :
    (s.setDev d { s.dev d with intStatus := v }).vq d' qi = s.vq d' qi := by
  by_cases hd : d' = d
  · rw [hd, vq_setDev_self]
    rfl
  · exact vq_setDev_of_ne hd ..

theorem intAck_kept (P : Set Nat) (d : Dev) (val : BitVec 64) (s : St) :
    Kept P s ((virtioMmioWrite d vmmioIntAck 4 val).run s).2 ∧
      ((virtioMmioWrite d vmmioIntAck 4 val).run s).2.conIn = s.conIn := by
  obtain ⟨v, es, hes, hrun⟩ := intAck_run d val s
  rw [hrun]
  exact ⟨.of_trace rfl (setIntStatus_vq v) (fun _ _ => rfl) rfl hes, rfl⟩

/-- The program sees an acknowledgement. -/
theorem ack_step (d : Dev) (val : BitVec 64) :
    (NotifyAct.ack d val).step x =
      { x with
        plane := { x.plane with st := ((virtioMmioWrite d vmmioIntAck 4 val).run x.plane.st).2 } } := by
  have hmiss : ioeventfdHit (d.reg vmmioIntAck) 4 val = none := by
    apply List.find?_eq_none.2
    intro r hr
    have haddr : ∀ r ∈ notifyRegs, d.reg vmmioIntAck ≠ r.dev.base + .ofNat 64 vmmioQueueNotify := by
      cases d <;> decide
    simp [haddr r hr]
  have hwrite : (handleVirtioMmioWrite (d.reg vmmioIntAck) 4 val).run x.plane.st =
      (virtioMmioWrite d vmmioIntAck 4 val).run x.plane.st := by
    cases d <;> rfl
  unfold NotifyAct.step PlaneAct.step
  dsimp only
  rw [hmiss, hwrite]

theorem PlaneInv.ack (hL : L.SetUp) (h : PlaneInv L m₀ x k) (d : Dev) (val : BitVec 64) :
    PlaneInv L m₀ ((NotifyAct.ack d val).step x) k := by
  obtain ⟨hkept, hconIn⟩ := intAck_kept L.queueBytes d val x.plane.st
  rw [ack_step]
  exact h.of_driver (h.queues.kept hL hkept) (.of_kept hkept hconIn) rfl (fun _ => le_rfl)
    (fun _ _ => le_rfl) fun _ _ => .inl rfl

/-! ### The worker outside `service_vq()` -/

/-- A step of the worker, which leaves what the driver has done alone. -/
theorem PlaneInv.of_worker {p : DataPlane} {k' : Nat} (h : PlaneInv L m₀ x k)
    (hqueues : QueueInv L m₀ x.posted p.st)
    (hcall : ∀ c rest, p.worker = .service (.loop c) rest → CallInv L { x with plane := p } k' c)
    (hreturns : ∀ rest, p.worker ≠ .service .stuck rest)
    (hheard : ∀ d qi, L.Live d qi → Heard x k d qi → Heard { x with plane := p } k' d qi) :
    PlaneInv L m₀ { x with plane := p } k' :=
  ⟨hqueues, h.told, hcall, hreturns, fun d qi hlive => hheard d qi hlive (h.heard d qi hlive)⟩

/-- The queues do not notice it, if the worker is neither about to serve one nor afterwards doing so. -/
theorem PlaneInv.of_calm {p : DataPlane} (h : PlaneInv L m₀ x k) (hqueues : QueueInv L m₀ x.posted p.st)
    (hcalm : Calm x.plane.st p.st) (hcount : p.count = x.plane.count)
    (hcalls : ∀ r rest, x.plane.worker ≠ .call r rest)
    (hserves : ∀ c rest, x.plane.worker ≠ .service (.loop c) rest)
    (hcalls' : ∀ c rest, p.worker ≠ .service (.loop c) rest)
    (hreturns : ∀ rest, p.worker ≠ .service .stuck rest) : PlaneInv L m₀ { x with plane := p } k := by
  refine h.of_worker hqueues (fun c rest hc => absurd hc (hcalls' c rest)) hreturns fun d qi _ hheard => ?_
  cases hheard with
  | answered ha => exact .answered (ha.congr rfl hcalm)
  | counted hc =>
    refine .counted ?_
    show 0 < p.count ⟨d, qi⟩
    rwa [hcount]
  | called hc => exact absurd hc (hcalls _ _)
  | served hc => exact absurd hc (hserves _ _)

theorem wake_step (hw : x.plane.worker = .wait) (evs : List NotifyReg) :
    (NotifyAct.wake evs).step x = { x with plane := { x.plane with worker := .events evs } } := by
  unfold NotifyAct.step PlaneAct.step
  dsimp only
  rw [hw]

theorem PlaneInv.wake (h : PlaneInv L m₀ x k) (evs : List NotifyReg) :
    PlaneInv L m₀ ((NotifyAct.wake evs).step x) k := by
  have hplane : (NotifyAct.wake evs).step x = { x with plane := (PlaneAct.wake evs).step x.plane } := rfl
  rw [hplane]
  unfold PlaneAct.step
  dsimp only
  split
  case h_2 => exact h
  case h_1 hw =>
    apply h.of_calm
    · exact h.queues
    · exact ⟨fun _ _ => rfl, rfl⟩
    · rfl
    all_goals simp [hw]

/-- The worker is in the loop over the events, or at the end of a call. -/
theorem PlaneInv.return (hL : L.SetUp) (h : PlaneInv L m₀ x k)
    (hw : x.plane.worker = .events [] ∨ (∃ rest, x.plane.worker = .service .idle rest) ∨
      ∃ d rest, x.plane.worker = .service (.raise d) rest) : PlaneInv L m₀ { x with plane := x.plane.work } k := by
  rcases hw with hw | ⟨rest, hw⟩ | ⟨d, rest, hw⟩
  all_goals
    unfold DataPlane.work
    rw [hw]
    dsimp only
  · apply h.of_calm
    · exact h.queues
    · exact ⟨fun _ _ => rfl, rfl⟩
    · rfl
    all_goals simp [hw]
  · apply h.of_calm
    · exact h.queues
    · exact ⟨fun _ _ => rfl, rfl⟩
    · rfl
    all_goals simp [hw]
  · have hkept : Kept L.queueBytes x.plane.st ((virtioRaiseIrq d).run x.plane.st).2 :=
      raised_kept L.queueBytes x.plane.st d true
    have hconIn : ((virtioRaiseIrq d).run x.plane.st).2.conIn = x.plane.st.conIn :=
      raised_conIn x.plane.st d true
    apply h.of_calm
    · exact h.queues.kept hL hkept
    · exact .of_kept hkept hconIn
    · rfl
    all_goals simp [hw]

/-- The eventfd is reset before `service_vq()` is called. -/
theorem PlaneInv.read {r : NotifyReg} {rest : List NotifyReg} (h : PlaneInv L m₀ x k)
    (hw : x.plane.worker = .events (r :: rest)) : PlaneInv L m₀ { x with plane := x.plane.work } k := by
  unfold DataPlane.work
  rw [hw]
  dsimp only
  apply h.of_worker
  · exact h.queues
  · simp
  · simp
  · intro d qi _ hheard
    cases hheard with
    | answered ha => exact .answered ha
    | counted hc =>
      by_cases hr : r = ⟨d, qi⟩
      · subst hr
        exact .called rfl
      · refine .counted ?_
        show 0 < Function.update x.plane.count r 0 ⟨d, qi⟩
        rwa [Function.update_of_ne (Ne.symm hr)]
    | called hc =>
      rw [hw] at hc
      cases hc
    | served hc =>
      rw [hw] at hc
      cases hc

/-- `service_vq()` for an enabled queue reads the avail index. -/
theorem serviceStart_run (hL : L.SetUp) (hlive : L.Live d qi) (h : QueueInv L m₀ posted s) :
    (serviceStart d qi).run s =
      (.loop ⟨d, qi, (L.vq d qi).avail.toNat + 4, .ofNat 16 (posted d qi).length, false⟩,
        s.log (.read ((L.vq d qi).avail.toNat + 2) 2)) := by
  obtain ⟨hbusy, hidx, hring⟩ := rings_found hL hlive h.layout
  have hload := (h.laid d qi hlive).idx
  have hmod : BitVec.ofNat 16 ((posted d qi).length % 65536) = .ofNat 16 (posted d qi).length := by
    apply BitVec.eq_of_toNat_eq
    simp
  unfold serviceStart
  rw [run_bind, run_get]
  dsimp only
  rw [run_ite, if_neg hbusy, hidx, hring]
  show (WorkerPc.loop ⟨d, qi, _, .ofNat 16 (s.mem.load ((L.vq d qi).avail.toNat + 2) 2), false⟩, _) = _
  rw [hload, hmod]

theorem serviceStart_of_not_live (hs : s.layout = L) (hlive : ¬L.Live d qi) :
    (serviceStart d qi).run s = (.idle, s) := by
  have hdead : d.nqueues ≤ qi ∨ (s.vq d qi).ready = 0 ∨ (s.vq d qi).num = 0 := by
    by_contra hbusy
    obtain ⟨hqi, hready, -⟩ := by simpa only [not_or] using hbusy
    refine hlive ⟨Nat.lt_of_not_le hqi, ?_⟩
    rw [← layout_vq hs d qi]
    exact hready
  unfold serviceStart
  rw [run_bind, run_get]
  dsimp only
  rw [run_ite, if_pos hdead]
  rfl

/-- The call is about all entries that have been made available by now. -/
theorem PlaneInv.start {r : NotifyReg} {rest : List NotifyReg} (hL : L.SetUp) (h : PlaneInv L m₀ x k)
    (hw : x.plane.worker = .call r rest) : ∃ k', PlaneInv L m₀ { x with plane := x.plane.work } k' := by
  unfold DataPlane.work
  rw [hw]
  dsimp only
  by_cases hlive : L.Live r.dev r.qi
  · rw [serviceStart_run hL hlive h.queues]
    dsimp only
    have hreads := log_read x.plane.st ((L.vq r.dev r.qi).avail.toNat + 2) 2
    have hkept := Kept.of_reads (P := L.queueBytes) hreads
    refine ⟨(x.posted r.dev r.qi).length, ?_⟩
    apply h.of_worker
    · exact h.queues.kept hL hkept
    · intro c rest' hc
      obtain ⟨rfl, -⟩ : _ = c ∧ rest = rest' := by simpa using hc
      have htaken := congrArg List.length (hkept.taken r.dev r.qi)
      exact ⟨hlive, rfl, rfl, htaken.trans_le (h.queues.laid _ _ hlive).le, le_rfl⟩
    · simp
    · intro d qi _ hheard
      cases hheard with
      | answered ha => exact .answered (ha.congr rfl (.of_kept hkept rfl))
      | counted hc => exact .counted hc
      | called hc =>
        obtain ⟨rfl, -⟩ : r = ⟨d, qi⟩ ∧ _ := by simpa [hw] using hc
        -- the notification counts as heard: the call is about all entries posted by now
        exact .served rfl rfl rfl (h.told d qi)
      | served hc =>
        rw [hw] at hc
        cases hc
  · rw [serviceStart_of_not_live h.queues.layout hlive]
    refine ⟨k, ?_⟩
    apply h.of_worker
    · exact h.queues
    · simp
    · simp
    · intro d qi hlive' hheard
      cases hheard with
      | answered ha => exact .answered ha
      | counted hc => exact .counted hc
      | called hc =>
        obtain ⟨rfl, -⟩ : r = ⟨d, qi⟩ ∧ _ := by simpa [hw] using hc
        -- only a queue that is enabled has to be answered
        exact absurd hlive' hlive
      | served hc =>
        rw [hw] at hc
        cases hc

/-! ### The loop of `service_vq()` -/

/-- What a queue is done with only grows. -/
theorem taken_grows {d' : Dev} {qi' : Nat} (h : (serves d).rel s s') :
    (s.taken d' qi').length ≤ (s'.taken d' qi').length := by
  obtain ⟨es, htrace, -⟩ := h.trace
  unfold St.taken
  rw [htrace, takenHeads_append, List.length_append]
  exact Nat.le_add_right _ _

theorem serviceRound_serves (c : ServiceCall) :
    Within (serves c.d) (serviceRound (devHandle c.d c.qi) c.d c.qi c.ring c.idx c.did) :=
  (serves_services c.d).serviceRound ((serves_services c.d).devHandle c.qi) _ _ _ _

/-- If nothing is pending for the receive queue, an entry of another queue leaves it so, or the receive
queue goes on. -/
theorem ServesEntry.receives {e : Entry} (h : ServesEntry L posted (devHandle d qi) d qi e s s')
    (hq : (d, qi) ≠ (.console, 0)) (hlive : L.Live d qi) (hlive' : L.Live .console 0)
    (hempty : s.conIn.count = 0) :
    (s'.taken .console 0).length = (posted .console 0).length ∨ s'.conIn.count = 0 := by
  cases h with
  | malformed _ hreads =>
    rw [advance_conIn, reads_conIn hreads]
    exact .inr hempty
  | @served s₁ s₂ _ ds len _ hreads hhandle hecho =>
    rw [advance_conIn, pushUsed_conIn, advance_taken, if_neg (Ne.symm hq), List.append_nil, pushUsed_taken]
    cases d with
    | console =>
      obtain rfl : qi = 1 := by
        have hqi : qi < 2 := hlive.1
        have hne : qi ≠ 0 := fun heq => hq (by rw [heq])
        omega
      exact hecho rfl rfl hlive'
    | blk =>
      have hconIn := keepsConIn_services.devHandle qi (chainSegs ds) s₁
      rw [hhandle] at hconIn
      have hconIn : s₂.conIn = s₁.conIn := hconIn
      rw [hconIn, reads_conIn hreads]
      exact .inr hempty

/-- The step that ends a call: the queue has been answered. -/
theorem PlaneInv.iter_stop {c : ServiceCall} {rest : List NotifyReg} (hL : L.SetUp) (h : PlaneInv L m₀ x k)
    (hw : x.plane.worker = .service (.loop c) rest)
    (hstop : (x.plane.st.taken c.d c.qi).length = k ∨ devCanConsume x.plane.st c.d c.qi = false) :
    ∃ pc, (pc = .raise c.d ∨ pc = .idle) ∧ x.plane.work = { x.plane with worker := .service pc rest } ∧
      PlaneInv L m₀ { x with plane := x.plane.work } k := by
  have hcall := h.call c rest hw
  have hround : (serviceRound (devHandle c.d c.qi) c.d c.qi c.ring (.ofNat 16 k) c.did).run x.plane.st =
      (.inr (some c.did), x.plane.st) :=
    serviceRound_stop hL h.queues hcall.live hcall.posted hcall.taken hstop c.ring c.did
  rw [← hcall.idx] at hround
  have hwork : x.plane.work = { x.plane with worker := .service (c.next (.inr (some c.did))) rest } := by
    unfold DataPlane.work serviceIter
    rw [hw]
    dsimp only
    rw [run_bind, hround]
    rfl
  have hnext : c.next (.inr (some c.did)) = .raise c.d ∨ c.next (.inr (some c.did)) = .idle := by
    cases c.did
    · exact .inr rfl
    · exact .inl rfl
  have hanswered (hk : x.told c.d c.qi ≤ k) : x.Answered c.d c.qi := by
    rcases hstop with heq | hwait
    · exact .inl (heq ▸ hk)
    · -- only the receive queue of the console may have to wait
      have hq : (c.d, c.qi) = (.console, 0) := by
        by_contra hne
        rw [devCanConsume_of_ne hne] at hwait
        cases hwait
      obtain ⟨hd, hqi⟩ := Prod.mk.inj hq
      rw [hd, hqi] at hwait
      exact .inr ⟨hq, devCanConsume_receive.1 hwait⟩
  rw [hwork]
  generalize c.next (.inr (some c.did)) = pc at hnext
  refine ⟨pc, hnext, rfl, ?_⟩
  apply h.of_worker
  · exact h.queues
  · rcases hnext with rfl | rfl <;> simp
  · rcases hnext with rfl | rfl <;> simp
  · intro d qi _ hheard
    cases hheard with
    | answered ha => exact .answered ha
    | counted hc => exact .counted hc
    | called hc =>
      rw [hw] at hc
      cases hc
    | served hc hd hqi hk =>
      obtain ⟨rfl, -⟩ : c = _ ∧ rest = _ := by simpa [hw] using hc
      subst hd hqi
      exact .answered (hanswered hk)

/-- The step that serves the next entry of the call. -/
theorem PlaneInv.iter_entry {c : ServiceCall} {rest : List NotifyReg} (hL : L.SetUp) (h : PlaneInv L m₀ x k)
    (hw : x.plane.worker = .service (.loop c) rest) (hmore : (x.plane.st.taken c.d c.qi).length ≠ k)
    (hcan : devCanConsume x.plane.st c.d c.qi = true) :
    ∃ e did s', (x.posted c.d c.qi)[(x.plane.st.taken c.d c.qi).length]? = some e ∧
      ServesEntry L x.posted (devHandle c.d c.qi) c.d c.qi e x.plane.st s' ∧
        x.plane.work = { x.plane with st := s', worker := .service (.loop { c with did := did }) rest } ∧
          (s'.taken c.d c.qi).length = (x.plane.st.taken c.d c.qi).length + 1 ∧
            PlaneInv L m₀ { x with plane := x.plane.work } k := by
  have hcall := h.call c rest hw
  have hkeeps : KeepsQueues L m₀ x.posted (devHandle c.d c.qi) c.d c.qi := devHandle_keeps hL hcall.live
  have hgrows := serviceRound_serves c x.plane.st
  have hlt := Nat.lt_of_le_of_ne hcall.taken hmore
  have hlt' := hlt.trans_le hcall.posted
  have he := List.getElem?_eq_getElem hlt'
  generalize (x.posted c.d c.qi)[(x.plane.st.taken c.d c.qi).length] = e at he
  obtain ⟨did, s', hround, hinv, htaken, hserves⟩ :=
    serviceRound_entry hL h.queues hcall.live hkeeps hcall.posted hlt he hcan c.did
  rw [← hcall.idx, ← hcall.ring] at hround
  rw [hround] at hgrows
  have hwork : x.plane.work =
      { x.plane with st := s', worker := .service (.loop { c with did := did }) rest } := by
    unfold DataPlane.work serviceIter
    rw [hw]
    dsimp only
    rw [run_bind, hround]
    rfl
  have hlen : (s'.taken c.d c.qi).length = (x.plane.st.taken c.d c.qi).length + 1 := by
    rw [htaken, List.length_append, List.length_singleton]
  rw [hwork]
  refine ⟨e, did, s', he, hserves, rfl, hlen, ?_⟩
  apply h.of_worker
  · exact hinv
  · intro c' rest' hc
    obtain ⟨rfl, -⟩ : { c with did := did } = c' ∧ rest = rest' := by simpa using hc
    exact ⟨hcall.live, hcall.ring, hcall.idx, hlen.trans_le hlt, hcall.posted⟩
  · simp
  · intro d qi hlive hheard
    cases hheard with
    | answered ha =>
      rcases ha with hle | ⟨hq, hempty⟩
      · exact .answered (.inl (hle.trans (taken_grows hgrows)))
      · obtain ⟨rfl, rfl⟩ := Prod.mk.inj hq
        -- the receive queue itself would not have been served
        have hne : (c.d, c.qi) ≠ (.console, 0) := by
          intro hq
          obtain ⟨hd, hqi⟩ := Prod.mk.inj hq
          rw [hd, hqi, devCanConsume_receive.2 hempty] at hcan
          cases hcan
        rcases hserves.receives hne hcall.live hlive hempty with hdone | hempty'
        · exact .answered (.inl ((h.told _ _).trans hdone.ge))
        · exact .answered (.inr ⟨rfl, hempty'⟩)
    | counted hc => exact .counted hc
    | called hc =>
      rw [hw] at hc
      cases hc
    | served hc hd hqi hk =>
      obtain ⟨rfl, -⟩ : c = _ ∧ rest = _ := by simpa [hw] using hc
      exact .served rfl hd hqi hk

/-! ### Safety -/

theorem PlaneInv.work (hL : L.SetUp) (h : PlaneInv L m₀ x k) :
    ∃ k', PlaneInv L m₀ (NotifyAct.work.step x) k' := by
  show ∃ k', PlaneInv L m₀ { x with plane := x.plane.work } k'
  cases hw : x.plane.worker with
  | wait =>
    have hwork : x.plane.work = x.plane := by
      unfold DataPlane.work
      rw [hw]
    rw [hwork]
    exact ⟨k, h⟩
  | events rest =>
    cases rest with
    | nil => exact ⟨k, h.return hL (.inl hw)⟩
    | cons r rest => exact ⟨k, h.read hw⟩
  | call r rest => exact h.start hL hw
  | service pc rest =>
    cases pc with
    | idle => exact ⟨k, h.return hL (.inr (.inl ⟨rest, hw⟩))⟩
    | raise d => exact ⟨k, h.return hL (.inr (.inr ⟨d, rest, hw⟩))⟩
    | stuck => exact absurd hw (h.returns rest)
    | loop c =>
      by_cases hstop : (x.plane.st.taken c.d c.qi).length = k ∨ devCanConsume x.plane.st c.d c.qi = false
      · obtain ⟨-, -, -, hinv⟩ := h.iter_stop hL hw hstop
        exact ⟨k, hinv⟩
      · obtain ⟨hmore, hcan⟩ := not_or.1 hstop
        obtain ⟨-, -, -, -, -, -, -, hinv⟩ := h.iter_entry hL hw hmore (Bool.eq_true_of_not_eq_false hcan)
        exact ⟨k, hinv⟩

theorem PlaneInv.step (hL : L.SetUp) {a : NotifyAct} (h : PlaneInv L m₀ x k) (ha : a.Allowed L x) :
    ∃ k', PlaneInv L m₀ (a.step x) k' := by
  cases a with
  | post d qi e mem => exact ⟨k, h.post ha⟩
  | notify d qi => exact ⟨k, h.notify ha⟩
  | ack d val => exact ⟨k, h.ack hL d val⟩
  | wake evs => exact ⟨k, h.wake evs⟩
  | work => exact h.work hL

theorem runSteps_planeInv {acts : List NotifyAct} (hs : Started s₀)
    (h : AllSteps NotifyAct.step (NotifyAct.Allowed s₀.layout) s₀.planeRun acts) :
    ∃ k, PlaneInv s₀.layout s₀.mem (runSteps NotifyAct.step s₀.planeRun acts) k := by
  have hstep (x : PlaneRun) (a : NotifyAct) (hinv : ∃ k, PlaneInv s₀.layout s₀.mem x k)
      (ha : a.Allowed s₀.layout x) : ∃ k, PlaneInv s₀.layout s₀.mem (a.step x) k := by
    obtain ⟨k, hinv⟩ := hinv
    exact hinv.step hs.setUp ha
  exact @AllSteps.inv _ _ _ (fun x => ∃ k, PlaneInv s₀.layout s₀.mem x k) _ hstep _ _
    ⟨0, hs.planeInv⟩ h

/-- Where nothing is left to do, every queue has been answered. -/
theorem PlaneInv.answered (h : PlaneInv L m₀ x k) (hquiet : x.plane.Quiescent) (hlive : L.Live d qi) :
    x.Answered d qi := by
  obtain ⟨hw, hcount⟩ := hquiet
  have hreg : (⟨d, qi⟩ : NotifyReg) ∈ notifyRegs :=
    List.mem_flatMap.2 ⟨d, by cases d <;> simp, List.mem_map.2 ⟨qi, List.mem_range.2 hlive.1, rfl⟩⟩
  cases h.heard d qi hlive with
  | answered ha => exact ha
  | counted hc => exact absurd (hcount _ hreg) hc.ne'
  | called hc =>
    rw [hw] at hc
    cases hc
  | served hc =>
    rw [hw] at hc
    cases hc

/-! ### Progress -/

/-- The worker gets from `x` to `y` without the driver. -/
def Reaches (L : Layout) (x y : PlaneRun) : Prop :=
  ∃ acts, (∀ a ∈ acts, NotifyAct.byWorker a = true) ∧
    AllSteps NotifyAct.step (NotifyAct.Allowed L) x acts ∧ runSteps NotifyAct.step x acts = y

namespace Reaches

variable {z : PlaneRun}

theorem refl (L : Layout) (x : PlaneRun) : Reaches L x x := ⟨[], by simp, trivial, rfl⟩

theorem trans (h : Reaches L x y) (h' : Reaches L y z) : Reaches L x z := by
  obtain ⟨acts, hby, hall, rfl⟩ := h
  obtain ⟨acts', hby', hall', rfl⟩ := h'
  refine ⟨acts ++ acts', fun a ha => ?_, allSteps_append.2 ⟨hall, hall'⟩, runSteps_append ..⟩
  rcases List.mem_append.1 ha with ha | ha
  · exact hby a ha
  · exact hby' a ha

theorem work (L : Layout) (x : PlaneRun) : Reaches L x { x with plane := x.plane.work } :=
  ⟨[.work], by simp [NotifyAct.byWorker], ⟨trivial, trivial⟩, rfl⟩

theorem wake {evs : List NotifyReg} (hw : x.plane.worker = .wait) (h : x.plane.Ready evs) :
    Reaches L x { x with plane := { x.plane with worker := .events evs } } :=
  ⟨[.wake evs], by simp [NotifyAct.byWorker], ⟨h, trivial⟩, wake_step hw evs⟩

/-- The worker neither makes entries available nor tells of them. -/
theorem told (h : Reaches L x y) : y.told = x.told := by
  obtain ⟨acts, hby, -, rfl⟩ := h
  induction acts generalizing x with
  | nil => rfl
  | cons a acts ih =>
    have hrest := ih (x := a.step x) fun a' ha' => hby a' (List.mem_cons_of_mem _ ha')
    refine hrest.trans ?_
    have ha := hby a List.mem_cons_self
    cases a <;> first | rfl | cases ha

end Reaches

/-- The worker comes to the next event after the loop of `service_vq()`. -/
theorem PlaneInv.leave {pc : WorkerPc} {rest : List NotifyReg} (hL : L.SetUp) (h : PlaneInv L m₀ x k)
    (hw : x.plane.worker = .service pc rest) (hpc : (∃ d, pc = .raise d) ∨ pc = .idle) :
    ∃ y, Reaches L x y ∧ PlaneInv L m₀ y k ∧ y.plane.worker = .events rest ∧ y.plane.count = x.plane.count := by
  have hidle {x : PlaneRun} (h : PlaneInv L m₀ x k) (hw : x.plane.worker = .service .idle rest) :
      ∃ y, Reaches L x y ∧ PlaneInv L m₀ y k ∧ y.plane.worker = .events rest ∧ y.plane.count = x.plane.count := by
    have hwork : x.plane.work = { x.plane with worker := .events rest } := by
      unfold DataPlane.work
      rw [hw]
    exact ⟨_, .work L x, h.return hL (.inr (.inl ⟨rest, hw⟩)), by rw [hwork], by rw [hwork]⟩
  rcases hpc with ⟨d, rfl⟩ | rfl
  · have hwork : x.plane.work.worker = .service .idle rest ∧ x.plane.work.count = x.plane.count := by
      unfold DataPlane.work
      rw [hw]
      exact ⟨rfl, rfl⟩
    obtain ⟨y, hreach, hinv, hy, hcount⟩ := hidle (h.return hL (.inr (.inr ⟨d, rest, hw⟩))) hwork.1
    exact ⟨y, (Reaches.work L x).trans hreach, hinv, hy, hcount.trans hwork.2⟩
  · exact hidle h hw

/-- A call of `service_vq()` ends: each round serves an entry of the `k` that it is about. -/
theorem PlaneInv.finish {pc : WorkerPc} {rest : List NotifyReg} (hL : L.SetUp) (h : PlaneInv L m₀ x k)
    (hw : x.plane.worker = .service pc rest) :
    ∃ y, Reaches L x y ∧ PlaneInv L m₀ y k ∧ y.plane.worker = .events rest ∧ y.plane.count = x.plane.count := by
  have hstop {x : PlaneRun} {c : ServiceCall} (h : PlaneInv L m₀ x k)
      (hw : x.plane.worker = .service (.loop c) rest)
      (hstop : (x.plane.st.taken c.d c.qi).length = k ∨ devCanConsume x.plane.st c.d c.qi = false) :
      ∃ y, Reaches L x y ∧ PlaneInv L m₀ y k ∧ y.plane.worker = .events rest ∧ y.plane.count = x.plane.count := by
    obtain ⟨pc, hpc, hwork, hinv⟩ := h.iter_stop hL hw hstop
    have hfirst := Reaches.work L x
    rw [hwork] at hinv hfirst
    obtain ⟨y, hreach, hy⟩ := hinv.leave hL rfl (hpc.imp_left fun hpc => ⟨_, hpc⟩)
    exact ⟨y, hfirst.trans hreach, hy⟩
  cases pc with
  | idle => exact h.leave hL hw (.inr rfl)
  | raise d => exact h.leave hL hw (.inl ⟨d, rfl⟩)
  | stuck => exact absurd hw (h.returns rest)
  | loop c =>
    generalize hn : k - (x.plane.st.taken c.d c.qi).length = n
    -- the induction is on the entries that are left of the `k`
    induction n generalizing x c with
    | zero =>
      have hle := (h.call c rest hw).taken
      exact hstop h hw (.inl (by omega))
    | succ n ih =>
      by_cases hcan : devCanConsume x.plane.st c.d c.qi = true
      · obtain ⟨-, did, s', -, -, hwork, hlen, hinv⟩ := h.iter_entry hL hw (by omega) hcan
        have hfirst := Reaches.work L x
        rw [hwork] at hinv hfirst
        have hn' : k - (s'.taken c.d c.qi).length = n := by omega
        obtain ⟨y, hreach, hy⟩ := ih hinv { c with did := did } rfl hn'
        exact ⟨y, hfirst.trans hreach, hy⟩
      · exact hstop h hw (.inr (Bool.eq_false_of_not_eq_true hcan))

/-- The worker gets through the events, all of which it resets. -/
theorem PlaneInv.events {rest : List NotifyReg} (hL : L.SetUp) (h : PlaneInv L m₀ x k)
    (hw : x.plane.worker = .events rest) :
    ∃ y k', Reaches L x y ∧ PlaneInv L m₀ y k' ∧ y.plane.worker = .wait ∧
      (∀ r ∈ rest, y.plane.count r = 0) ∧ ∀ r, x.plane.count r = 0 → y.plane.count r = 0 := by
  induction rest generalizing x k with
  | nil =>
    have hwork : x.plane.work = { x.plane with worker := .wait } := by
      unfold DataPlane.work
      rw [hw]
    have hinv := h.return hL (.inl hw)
    have hfirst := Reaches.work L x
    rw [hwork] at hinv hfirst
    exact ⟨_, k, hfirst, hinv, rfl, by simp, fun _ hr => hr⟩
  | cons r rest ih =>
    -- the counter is read and reset, and then the call is made
    have hread : x.plane.work =
        { x.plane with count := Function.update x.plane.count r 0, worker := .call r rest } := by
      unfold DataPlane.work
      rw [hw]
    have hinv₁ := h.read hw
    have hreach₁ := Reaches.work L x
    rw [hread] at hinv₁ hreach₁
    generalize hx₁ : ({ x with plane :=
      { x.plane with count := Function.update x.plane.count r 0, worker := .call r rest } } : PlaneRun) = x₁
      at hinv₁ hreach₁
    have hw₁ : x₁.plane.worker = .call r rest := by rw [← hx₁]
    have hcount₁ : x₁.plane.count = Function.update x.plane.count r 0 := by rw [← hx₁]
    obtain ⟨k₂, hinv₂⟩ := hinv₁.start hL hw₁
    have hw₂ : ∃ pc, x₁.plane.work.worker = .service pc rest ∧ x₁.plane.work.count = x₁.plane.count := by
      unfold DataPlane.work
      rw [hw₁]
      exact ⟨_, rfl, rfl⟩
    obtain ⟨pc, hw₂, hcount₂⟩ := hw₂
    obtain ⟨x₃, hreach₃, hinv₃, hw₃, hcount₃⟩ := hinv₂.finish hL hw₂
    obtain ⟨y, k', hreach, hinv, hwait, hreset, hzero⟩ := ih hinv₃ hw₃
    have hcount : x₃.plane.count = Function.update x.plane.count r 0 := by
      rw [hcount₃, ← hcount₁, ← hcount₂]
    refine ⟨y, k', hreach₁.trans ((Reaches.work L x₁).trans (hreach₃.trans hreach)), hinv, hwait, ?_, ?_⟩
    · intro r' hr'
      rcases List.mem_cons.1 hr' with rfl | hr'
      · apply hzero
        rw [hcount, Function.update_self]
      · exact hreset r' hr'
    · intro r' hr'
      apply hzero
      rw [hcount]
      by_cases heq : r' = r
      · rw [heq, Function.update_self]
      · rw [Function.update_of_ne heq]
        exact hr'

/-- The worker gets back to `epoll_wait()`. -/
theorem PlaneInv.toWait (hL : L.SetUp) (h : PlaneInv L m₀ x k) :
    ∃ y k', Reaches L x y ∧ PlaneInv L m₀ y k' ∧ y.plane.worker = .wait := by
  have hservice {x : PlaneRun} {k : Nat} {pc : WorkerPc} {rest : List NotifyReg} (h : PlaneInv L m₀ x k)
      (hw : x.plane.worker = .service pc rest) :
      ∃ y k', Reaches L x y ∧ PlaneInv L m₀ y k' ∧ y.plane.worker = .wait := by
    obtain ⟨x₁, hreach₁, hinv₁, hw₁, -⟩ := h.finish hL hw
    obtain ⟨y, k', hreach, hinv, hwait, -⟩ := hinv₁.events hL hw₁
    exact ⟨y, k', hreach₁.trans hreach, hinv, hwait⟩
  cases hw : x.plane.worker with
  | wait => exact ⟨x, k, .refl L x, h, hw⟩
  | events rest =>
    obtain ⟨y, k', hreach, hinv, hwait, -⟩ := h.events hL hw
    exact ⟨y, k', hreach, hinv, hwait⟩
  | call r rest =>
    obtain ⟨k₁, hinv₁⟩ := h.start hL hw
    have hw₁ : ∃ pc, x.plane.work.worker = .service pc rest := by
      unfold DataPlane.work
      rw [hw]
      exact ⟨_, rfl⟩
    obtain ⟨pc, hw₁⟩ := hw₁
    obtain ⟨y, k', hreach, hy⟩ := hservice hinv₁ hw₁
    exact ⟨y, k', (Reaches.work L x).trans hreach, hy⟩
  | service pc rest => exact hservice h hw

/-- The worker by itself comes to a state in which nothing is left to do. -/
theorem PlaneInv.toQuiescent (hL : L.SetUp) (h : PlaneInv L m₀ x k) :
    ∃ y k', Reaches L x y ∧ PlaneInv L m₀ y k' ∧ y.plane.Quiescent := by
  obtain ⟨x₁, k₁, hreach₁, hinv₁, hwait₁⟩ := h.toWait hL
  generalize hevs : notifyRegs.filter (fun r => 0 < x₁.plane.count r) = evs
  have hmem (r : NotifyReg) : r ∈ evs ↔ r ∈ notifyRegs ∧ 0 < x₁.plane.count r := by simp [← hevs]
  by_cases hnil : evs = []
  · refine ⟨x₁, k₁, hreach₁, hinv₁, hwait₁, fun r hr => ?_⟩
    have hout : r ∉ evs := by simp [hnil]
    have hnot := mt (hmem r).2 hout
    simp only [hr, true_and] at hnot
    omega
  · -- what is ready is handled, and nothing else becomes ready
    have hready : x₁.plane.Ready evs := by
      refine ⟨hnil, ?_, ?_, fun r hr => (hmem r).1 hr⟩
      · rw [← hevs]
        exact List.Nodup.filter _ (by decide)
      · rw [← hevs]
        exact (List.length_filter_le _ _).trans (by decide)
    have hinv₂ := hinv₁.wake evs
    obtain ⟨acts, hby, hall, hrun⟩ := Reaches.wake (L := L) hwait₁ hready
    rw [wake_step hwait₁] at hinv₂
    obtain ⟨y, k', hreach, hinv, hwait, hreset, hzero⟩ := hinv₂.events hL rfl
    refine ⟨y, k', hreach₁.trans (Reaches.trans ⟨acts, hby, hall, hrun⟩ hreach), hinv, hwait, fun r hr => ?_⟩
    by_cases hin : r ∈ evs
    · exact hreset r hin
    · apply hzero
      have hnot := mt (hmem r).2 hin
      simp only [hr, true_and] at hnot
      show x₁.plane.count r = 0
      omega

/-! ### The law -/

/-- What the driver can rely on. -/
structure NotifyLaw (s₀ : St) (x : PlaneRun) : Prop where
  once : ∀ d qi, s₀.layout.Live d qi → CompletionLaw s₀ ⟨x.plane.st, x.posted⟩ d qi
  quiet : x.plane.Quiescent → ∀ d qi, s₀.layout.Live d qi → x.Answered d qi
  /-- The worker comes to rest without a further notification, and has answered all of them then. -/
  progress : ∃ y, Reaches s₀.layout x y ∧ y.plane.Quiescent ∧
    ∀ d qi, s₀.layout.Live d qi → x.told d qi ≤ (y.plane.st.taken d qi).length ∨
      ((d, qi) = (.console, 0) ∧ y.plane.st.conIn.count = 0)

/-- Every notification is answered, whenever it comes, and every entry is served once and in its turn. -/
theorem notifications_answered {acts : List NotifyAct} (hs : Started s₀)
    (h : AllSteps NotifyAct.step (NotifyAct.Allowed s₀.layout) s₀.planeRun acts) :
    NotifyLaw s₀ (runSteps NotifyAct.step s₀.planeRun acts) := by
  obtain ⟨k, hinv⟩ := runSteps_planeInv hs h
  refine ⟨fun d qi hlive => ?_, fun hquiet d qi hlive => hinv.answered hquiet hlive, ?_⟩
  · exact @QueueInv.completionLaw s₀ ⟨_, _⟩ d qi hs.setUp hinv.queues hlive
  · obtain ⟨y, k', hreach, hinv', hquiet⟩ := hinv.toQuiescent hs.setUp
    refine ⟨y, hreach, hquiet, fun d qi hlive => ?_⟩
    rw [← hreach.told]
    exact hinv'.answered hquiet hlive

/-- The step that makes the entry available while the worker runs. -/
def Offer.notifyAct (o : Offer) (x : PlaneRun) : NotifyAct :=
  .post .blk 0 o.entry (x.plane.st.mem.overlay (WriteLog.latest o.writes))

theorem Offer.Fits.notifyAct_allowed {o : Offer} (h : o.Fits ⟨x.plane.st, x.posted⟩) :
    (o.notifyAct x).Allowed diskQueue.layout x := h.allowed

/-- The worker has been woken up for the first entry and gets a malformed one as well, which it has not been told of. -/
def wokenActs : List NotifyAct :=
  [(writeOffer 0).notifyAct diskQueue.planeRun, .notify .blk 0, .wake [⟨.blk, 0⟩], .work]

def wokenRun : PlaneRun := runSteps NotifyAct.step diskQueue.planeRun wokenActs

/-- Its call of `service_vq()` has served the first one. -/
def servedActs : List NotifyAct := [(loopOffer 1).notifyAct wokenRun, .work, .work]

def servedRun : PlaneRun := runSteps NotifyAct.step wokenRun servedActs

/-- A third one comes during the same call, which does not see it. -/
def lateActs : List NotifyAct := [(readOffer 2).notifyAct servedRun, .work, .notify .blk 0, .work]

theorem wokenActs_allowed :
    AllSteps NotifyAct.step (NotifyAct.Allowed diskQueue.layout) diskQueue.planeRun wokenActs := by
  have hfits : (writeOffer 0).Fits ⟨diskQueue.planeRun.plane.st, diskQueue.planeRun.posted⟩ := by decide +kernel
  refine ⟨hfits.notifyAct_allowed, Nat.one_pos, ⟨by simp, by simp, by decide, fun r hr => ?_⟩, trivial, trivial⟩
  obtain rfl := List.mem_singleton.1 hr
  exact ⟨by decide, by decide +kernel⟩

theorem notifications_answered_offers :
    NotifyLaw diskQueue (runSteps NotifyAct.step diskQueue.planeRun (wokenActs ++ (servedActs ++ lateActs))) := by
  have hserved : (loopOffer 1).Fits ⟨wokenRun.plane.st, wokenRun.posted⟩ := by decide +kernel
  have hlate : (readOffer 2).Fits ⟨servedRun.plane.st, servedRun.posted⟩ := by decide +kernel
  refine notifications_answered diskQueue_started ?_
  rw [allSteps_append, allSteps_append]
  exact ⟨wokenActs_allowed, ⟨hserved.notifyAct_allowed, trivial, trivial, trivial⟩,
    hlate.notifyAct_allowed, trivial, Nat.one_pos, trivial, trivial⟩

end MiniVirt.Vmm
