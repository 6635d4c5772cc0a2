import MiniVirt.Vmm.Spec.Registers

/-!
# The interrupt line of a device

Without `-e` the line of a device is asserted exactly while its interrupt status is not 0 (`lined`), and a
call of `service_vq()` that has pushed something raises the interrupt before it returns (`reported`).
-/

namespace MiniVirt.Vmm

/-! ### The law -/

def Event.level (gsi : Nat) (level : Bool) : Event → Bool
  | .irqLine g l => if g = gsi then l else level
  | _ => level

/-- The level last sent for the GSI, 0 at the beginning. -/
def lineLevel (gsi : Nat) (tr : List Event) : Bool := tr.foldl (Event.level gsi) false

def St.vringBit (s : St) (d : Dev) : Prop := (s.dev d).intStatus &&& vmmioIntVring ≠ 0

def Event.isUsed (d : Dev) : Event → Bool
  | .used d' .. => d' = d
  | _ => false

/-- How many elements the device has pushed to its used rings. -/
def St.pushed (s : St) (d : Dev) : Nat := s.trace.countP (Event.isUsed d)

/-- A write to INT_ACK, or a reset. -/
def DriverAct.acks (d : Dev) : DriverAct → Prop
  | .write d' off _ val => d' = d ∧ (off = vmmioIntAck ∨ off = vmmioStatus ∧ val = 0)
  | .store _ => False

/-- After the run `acts` from `s`, for every device. -/
structure LineLaw (s : St) (acts : List DriverAct) : Prop where
  line : ∀ d, lineLevel d.gsi (runSteps DriverAct.step s acts).trace = true ↔
    ((runSteps DriverAct.step s acts).dev d).intStatus ≠ 0
  /-- `since` is the part of the run after the last acknowledgement. -/
  used : ∀ d before since, acts = before ++ since → (∀ a ∈ since, ¬a.acks d) →
    (runSteps DriverAct.step s before).pushed d < (runSteps DriverAct.step s acts).pushed d →
      (runSteps DriverAct.step s acts).vringBit d ∧
        lineLevel d.gsi (runSteps DriverAct.step s acts).trace = true

/-! ### The level -/

theorem lineLevel_log (gsi : Nat) (s : St) (e : Event) :
    lineLevel gsi (s.log e).trace = e.level gsi (lineLevel gsi s.trace) := by
  show lineLevel gsi (s.trace ++ [e]) = _
  unfold lineLevel
  rw [List.foldl_append]
  rfl

theorem gsi_inj {d d' : Dev} (h : d.gsi = d'.gsi) : d = d' := by
  cases d <;> cases d' <;> first | rfl | cases h

/-- The line of every device is asserted exactly while its interrupt status is not 0. -/
def St.Lined (s : St) : Prop := ∀ d, lineLevel d.gsi s.trace = true ↔ (s.dev d).intStatus ≠ 0

/-- What keeps the interrupt status and sends no level. -/
theorem St.Lined.congr {s s' : St} (h : s.Lined) (hdev : ∀ d, (s'.dev d).intStatus = (s.dev d).intStatus)
    (hlevel : ∀ d : Dev, lineLevel d.gsi s'.trace = lineLevel d.gsi s.trace) : s'.Lined := by
  intro d
  rw [hdev, hlevel]
  exact h d

/-- The status of one device becomes `v.intStatus`, and its line follows. -/
theorem St.Lined.set {s : St} {d : Dev} {v : VirtioDev} {level : Bool} (h : s.Lined)
    (hv : level = true ↔ v.intStatus ≠ 0) : ((s.setDev d v).log (.irqLine d.gsi level)).Lined := by
  intro d'
  have hlevel : lineLevel d'.gsi ((s.setDev d v).log (.irqLine d.gsi level)).trace =
      if d.gsi = d'.gsi then level else lineLevel d'.gsi s.trace := lineLevel_log d'.gsi (s.setDev d v) _
  rw [hlevel]
  show _ ↔ ((s.setDev d v).dev d').intStatus ≠ 0
  by_cases hd : d' = d
  · rw [hd, if_pos rfl, St.dev_setDev_self]
    exact hv
  · have hgsi : d.gsi ≠ d'.gsi := fun heq => hd (gsi_inj heq).symm
    rw [if_neg hgsi, St.dev_setDev_of_ne hd]
    exact h d'

/-- Without `-e` the lines stay right. -/
def lined : Guarantee St where
  rel s s' := s.useEventfd = false → s.Lined → s'.useEventfd = false ∧ s'.Lined
  refl _ hfd h := ⟨hfd, h⟩
  trans h₁ h₂ hfd h := by
    obtain ⟨hfd₂, hlined₂⟩ := h₁ hfd h
    exact h₂ hfd₂ hlined₂

theorem virtioRaiseIrq_run {s : St} (hfd : s.useEventfd = false) (d : Dev) :
    (virtioRaiseIrq d).run s =
      ((), (s.setDev d { s.dev d with intStatus := (s.dev d).intStatus ||| vmmioIntVring }).log
        (.irqLine d.gsi true)) := by
  unfold virtioRaiseIrq
  rw [run_bind, run_bind, run_get]
  dsimp only
  rw [run_ite]
  have hno : ¬((modifyDev d fun v => { v with intStatus := v.intStatus ||| vmmioIntVring }).run s).2.useEventfd =
      true := by
    show ¬s.useEventfd = true
    rw [hfd]
    exact Bool.false_ne_true
  rw [if_neg hno]
  rfl

theorem or_vring_ne_zero (v : BitVec 32) : v ||| vmmioIntVring ≠ 0 := by
  intro h
  have hbit := congrArg (fun b => b.getLsbD 0) h
  simp [vmmioIntVring] at hbit

theorem virtioRaiseIrq_lined (d : Dev) : Within lined (virtioRaiseIrq d) := by
  intro s hfd h
  rw [virtioRaiseIrq_run hfd]
  exact ⟨hfd, h.set ⟨fun _ => or_vring_ne_zero _, fun _ => rfl⟩⟩

/-- An event that is not a level. -/
theorem lined_log (s : St) {e : Event} (he : ∀ gsi level, e.level gsi level = level) :
    lined.rel s (s.log e) := by
  intro hfd h
  refine ⟨hfd, h.congr (fun _ => rfl) fun d => ?_⟩
  rw [lineLevel_log, he]

theorem advance_lined (d : Dev) (qi slot : Nat) (head : BitVec 16) : Within lined (advance d qi slot head) := by
  refine Within.bind (fun s hfd h => ⟨hfd, h.congr (fun d' => ?_) fun _ => rfl⟩) fun _ =>
    fun s => lined_log s fun _ _ => rfl
  show ((s.setDev d _).dev d').intStatus = _
  by_cases hd : d' = d
  · rw [hd, St.dev_setDev_self]
    rfl
  · rw [St.dev_setDev_of_ne hd]

theorem lined_services (d : Dev) : Services d lined where
  log s e he := by
    refine lined_log s fun _ _ => ?_
    cases e <;> first | rfl | cases he
  data _ _ _ _ hfd h := ⟨hfd, h⟩
  conIn _ _ _ hfd h := ⟨hfd, h⟩
  advance := advance_lined d
  used s _ _ _ := lined_log s fun _ _ => rfl
  raise := virtioRaiseIrq_lined d

/-- A register write, an acknowledgement or a reset. -/
theorem virtioMmioWrite_lined (d : Dev) (off len : Nat) (val : BitVec 64) :
    Within lined (virtioMmioWrite d off len val) := by
  intro s
  rw [virtioMmioWrite_run]
  split
  · exact (lined_services d).serviceVq _ s
  split
  · intro hfd h
    rw [virtioLowerIrq_run]
    dsimp only
    split
    · rename_i hlow
      have hdev : ((s.setDev d ((s.dev d).ack val)).dev d) = (s.dev d).ack val := St.dev_setDev_self ..
      rw [hdev] at hlow
      exact ⟨hfd, h.set ⟨fun hfalse => absurd hfalse Bool.false_ne_true, fun hne => absurd hlow.2 hne⟩⟩
    · -- the status is not 0 yet, and the line stays asserted
      rename_i hkeep
      refine ⟨hfd, fun d' => ?_⟩
      by_cases hd : d' = d
      · subst hd
        have hne : ((s.setDev d' ((s.dev d').ack val)).dev d').intStatus ≠ 0 := fun hzero => hkeep ⟨hfd, hzero⟩
        refine ⟨fun _ => hne, fun _ => (h d').2 ?_⟩
        rw [St.dev_setDev_self] at hne
        intro hzero
        apply hne
        show (s.dev d').intStatus &&& _ = 0
        rw [hzero]
        exact BitVec.zero_and
      · show lineLevel d'.gsi s.trace = true ↔ ((s.setDev d ((s.dev d).ack val)).dev d').intStatus ≠ 0
        rw [St.dev_setDev_of_ne hd]
        exact h d'
  split
  · exact fun hfd h => ⟨hfd, h.set ⟨fun hfalse => absurd hfalse Bool.false_ne_true, fun hne => absurd rfl hne⟩⟩
  · refine fun hfd h => ⟨hfd, h.congr (fun d' => ?_) fun _ => rfl⟩
    by_cases hd : d' = d
    · rw [hd]
      show ((s.setDev d _).dev d).intStatus = _
      rw [St.dev_setDev_self, regWrite_intStatus]
    · show ((s.setDev d _).dev d').intStatus = _
      rw [St.dev_setDev_of_ne hd]

theorem DriverAct.step_lined (s : St) (a : DriverAct) : lined.rel s (a.step s) := by
  cases a with
  | store mem => exact fun hfd h => ⟨hfd, h⟩
  | write d off len val => exact virtioMmioWrite_lined d off len val s

theorem run_lined (s : St) (acts : List DriverAct) : lined.rel s (runSteps DriverAct.step s acts) := by
  induction acts generalizing s with
  | nil => exact lined.refl s
  | cons a acts ih => exact lined.trans (a.step_lined s) (ih _)

/-! ### Elements that are not acknowledged -/

/-- The vring bit stays. -/
def keepsBit (d : Dev) : Guarantee St where
  rel s s' := s.vringBit d → s'.vringBit d
  refl _ h := h
  trans h₁ h₂ h := h₂ (h₁ h)

/-- What is pushed for `d` is reported: either the vring bit is set at the end, or nothing was pushed. -/
def reported (d : Dev) : Guarantee St where
  rel s s' := (s.vringBit d → s'.vringBit d) ∧ (s'.vringBit d ∨ s'.pushed d = s.pushed d)
  refl _ := ⟨id, .inr rfl⟩
  trans := by
    rintro s₁ s₂ s₃ ⟨hkeep₁, h₁⟩ ⟨hkeep₂, h₂⟩
    refine ⟨hkeep₂ ∘ hkeep₁, ?_⟩
    rcases h₂ with h₂ | h₂
    · exact .inl h₂
    · rcases h₁ with h₁ | h₁
      · exact .inl (hkeep₂ h₁)
      · exact .inr (h₂.trans h₁)

variable {d : Dev} {s s' : St}

theorem pushed_log {e : Event} (he : e.isUsed d = false) : (s.log e).pushed d = s.pushed d := by
  show (s.trace ++ [e]).countP _ = _
  rw [List.countP_append, List.countP_singleton, he]
  rfl

/-- What does not touch the device's interrupt status and pushes nothing. -/
theorem reported_of_eq (hdev : (s'.dev d).intStatus = (s.dev d).intStatus) (hpushed : s'.pushed d = s.pushed d) :
    (reported d).rel s s' := by
  refine ⟨fun h => ?_, .inr hpushed⟩
  unfold St.vringBit
  rw [hdev]
  exact h

theorem reported_transfers (d : Dev) : Transfers (reported d) where
  log s e he := by
    refine reported_of_eq rfl (pushed_log ?_)
    cases e <;> first | rfl | cases he
  data _ _ _ _ := reported_of_eq rfl rfl

theorem reported_console (d : Dev) : ConsoleTransfers (reported d) where
  toTransfers := reported_transfers d
  conIn _ _ := reported_of_eq rfl rfl

theorem advance_reported (d d' : Dev) (qi slot : Nat) (head : BitVec 16) :
    Within (reported d') (advance d qi slot head) := by
  refine Within.bind (fun s => reported_of_eq ?_ rfl) fun _ => fun s => reported_of_eq rfl (pushed_log rfl)
  show ((s.setDev d _).dev d').intStatus = _
  by_cases hd : d' = d
  · rw [hd, St.dev_setDev_self]
    rfl
  · rw [St.dev_setDev_of_ne hd]

/-- The vring bit is set. -/
theorem virtioRaiseIrq_bit (d : Dev) (s : St) : ((virtioRaiseIrq d).run s).2.vringBit d := by
  unfold virtioRaiseIrq
  rw [run_bind]
  generalize hs : ((modifyDev d fun v => { v with intStatus := v.intStatus ||| vmmioIntVring }).run s).2 = s₁
  have hbit : s₁.vringBit d := by
    rw [← hs]
    show ((s.setDev d _).dev d).intStatus &&& vmmioIntVring ≠ 0
    rw [St.dev_setDev_self]
    show ((s.dev d).intStatus ||| vmmioIntVring) &&& vmmioIntVring ≠ 0
    intro hzero
    have hzero' := congrArg (fun b => b.getLsbD 0) hzero
    simp [vmmioIntVring] at hzero'
  rw [run_bind, run_get]
  dsimp only
  rw [run_ite]
  split <;> exact hbit

theorem keepsBit_services (d : Dev) : Services d (keepsBit d) where
  log s e he := ((reported_transfers d).log s e he).1
  data s mem blk stale := ((reported_transfers d).data s mem blk stale).1
  conIn _ _ _ h := h
  advance qi slot head s := (advance_reported d d qi slot head s).1
  used _ _ _ _ h := h
  raise s _ := virtioRaiseIrq_bit d s

/-- Serving another device. -/
theorem reported_services {d' : Dev} (hd : d' ≠ d) : Services d (reported d') where
  toTransfers := reported_transfers d'
  conIn _ _ _ := reported_of_eq rfl rfl
  advance := advance_reported d d'
  used s _ _ _ := reported_of_eq rfl (pushed_log (decide_eq_false fun h => hd h.symm))
  raise := by
    refine Within.bind (fun s => reported_of_eq ?_ rfl) fun _ => Within.get.bind fun s => ?_
    · show ((s.setDev d _).dev d').intStatus = _
      rw [St.dev_setDev_of_ne hd]
    · exact .ite (fun s => reported_of_eq rfl (pushed_log rfl)) fun s => reported_of_eq rfl (pushed_log rfl)

/-- In the loop of `service_vq()` that began in `s₀`: what was pushed is reported, or `did` says that it
will be. -/
def Pending (d : Dev) (s₀ : St) (did : Bool) (s : St) : Prop :=
  (reported d).rel s₀ s ∨ did = true ∧ (keepsBit d).rel s₀ s

theorem Pending.keepsBit {s₀ : St} {did : Bool} (h : Pending d s₀ did s) : (keepsBit d).rel s₀ s :=
  h.elim (fun h => h.1) fun h => h.2

theorem Pending.trans {s₀ : St} {did : Bool} (h : Pending d s₀ did s) (h' : (reported d).rel s s') :
    Pending d s₀ did s' := by
  rcases h with h | ⟨hdid, h⟩
  · exact .inl ((reported d).trans h h')
  · exact .inr ⟨hdid, (Vmm.keepsBit d).trans h h'.1⟩

/-- After the loop. -/
def Settled (d : Dev) (s₀ : St) (r : Option Bool) (s : St) : Prop := ∀ did, r = some did → Pending d s₀ did s

section Service

variable {handle : List Seg → V (Option (BitVec 32))}

/-- A call of the handler that returns has reported what it has pushed. -/
def Reports (d : Dev) (m : V (Option (BitVec 32))) : Prop :=
  ∀ s, (m.run s).1 ≠ none → (reported d).rel s (m.run s).2

theorem serveHead_pending (hh : ∀ segs, Reports d (handle segs)) {s₀ : St} {did : Bool}
    (h : Pending d s₀ did s) (qi slot : Nat) (head : BitVec 16) :
    RoundPost (Pending d s₀) (Settled d s₀) ((serveHead handle d qi slot head did).run s) := by
  have hgather := (reported_transfers d).gatherChain (s.vq d qi) head s
  unfold serveHead
  rw [run_bind, run_get, run_bind]
  dsimp only
  generalize (gatherChain (s.vq d qi) head).run s = y at hgather ⊢
  obtain ⟨r, s₁⟩ := y
  have h₁ : Pending d s₀ did s₁ := h.trans hgather
  cases r with
  | diverge => exact fun _ hdid => by cases hdid
  | bad => exact h₁.trans (advance_reported d d qi slot head s₁)
  | ok segs =>
    have hhandle := hh segs s₁
    dsimp only
    rw [run_bind]
    generalize (handle segs).run s₁ = y at hhandle ⊢
    obtain ⟨r, s₂⟩ := y
    cases r with
    | none => exact fun _ hdid => by cases hdid
    | some len =>
      have h₂ : Pending d s₀ did s₂ := h₁.trans (hhandle (by simp))
      have hpush : (keepsBit d).rel s₂ ((do
          pushUsed d qi head len
          advance d qi slot head : V Unit).run s₂).2 :=
        ((keepsBit_services d).pushUsed qi head len).bind (fun _ => (keepsBit_services d).advance qi slot head) s₂
      exact .inr ⟨rfl, (keepsBit d).trans h₂.keepsBit hpush⟩

theorem serviceRound_pending (hh : ∀ segs, Reports d (handle segs)) {s₀ : St} {did : Bool}
    (h : Pending d s₀ did s) (qi ring : Nat) (idx : BitVec 16) :
    RoundPost (Pending d s₀) (Settled d s₀) ((serviceRound handle d qi ring idx did).run s) := by
  have hdone : Settled d s₀ (some did) s := fun did' hdid => by
    cases hdid
    exact h
  unfold serviceRound
  rw [run_bind, run_get]
  dsimp only
  rw [run_ite]
  by_cases hidx : (s.vq d qi).lastAvailIdx = idx
  · rw [if_pos hidx]
    exact hdone
  · rw [if_neg hidx, run_ite]
    by_cases hwait : (!devCanConsume s d qi) = true
    · rw [if_pos hwait]
      exact hdone
    · rw [if_neg hwait, run_bind]
      exact serveHead_pending hh (h.trans ((reported_transfers d).guestLoad _ _ s)) qi _ _

theorem serviceWith_reported (hh : ∀ segs, Reports d (handle segs)) (qi : Nat)
    (hret : ((serviceWith handle d qi).run s).1 ≠ none) :
    (reported d).rel s ((serviceWith handle d qi).run s).2 := by
  unfold serviceWith at hret ⊢
  rw [run_bind, run_get] at hret ⊢
  dsimp only at hret ⊢
  rw [run_ite] at hret ⊢
  split at hret
  · rename_i hdead
    rw [if_pos hdead]
    exact (reported d).refl s
  · rename_i hlive
    rw [if_neg hlive]
    split at hret
    · rename_i availIdx ring ha hr
      unfold serviceRing at hret ⊢
      rw [run_bind, run_bind] at hret ⊢
      have hload := (reported_transfers d).guestLoad availIdx 2 s
      generalize (guestLoad availIdx 2).run s = y at hret hload ⊢
      obtain ⟨idx, s₁⟩ := y
      have hout : ∀ did s', Pending d s did s' → Settled d s none s' := fun _ _ _ _ hdid => by cases hdid
      -- the loop keeps: what was pushed is reported, or `did` is set
      have hstart : Pending d s false s₁ := .inl hload
      dsimp only at hret ⊢
      generalize hy : (loopM (serviceRound handle d qi ring (.ofNat 16 idx)) none serviceFuel false).run s₁ = y
        at hret ⊢
      have hloop : Settled d s y.1 y.2 := by
        rw [← hy]
        exact loopM_post (Q := Settled d s) (fun _ _ h => serviceRound_pending hh h qi ring (.ofNat 16 idx)) hout
          serviceFuel hstart
      obtain ⟨r, s₂⟩ := y
      cases r with
      | none => exact absurd rfl hret
      | some did =>
        have hpending : Pending d s did s₂ := hloop did rfl
        cases did with
        | false => exact hpending.elim id fun h => absurd h.1 Bool.false_ne_true
        | true =>
          exact ⟨fun _ => virtioRaiseIrq_bit d s₂, .inl (virtioRaiseIrq_bit d s₂)⟩
    · exact (reported d).refl s

end Service

theorem consoleReceive_reports (segs : List Seg) : Reports .console (consoleReceive segs) := fun s _ =>
  (reported_console .console).consoleReceive segs s

theorem consoleTransmit_reports (segs : List Seg) : Reports .console (consoleTransmit segs) := by
  intro s hret
  have htransmit := (reported_console .console).transmitSegs segs s
  unfold consoleTransmit at hret ⊢
  rw [run_bind, run_bind] at hret ⊢
  generalize (transmitSegs segs).run s = y at hret htransmit ⊢
  obtain ⟨⟨⟩, s₁⟩ := y
  refine (reported .console).trans htransmit (serviceWith_reported consoleReceive_reports 0 fun hnone => hret ?_)
  have hnone' : (serviceReceive.run s₁).1 = none := hnone
  show (serviceReceive.run s₁).1.map _ = none
  rw [hnone']
  rfl

theorem devHandle_reports (d : Dev) (qi : Nat) (segs : List Seg) : Reports d (devHandle d qi segs) := by
  cases d with
  | blk => exact fun s _ => (reported_transfers .blk).blkHandle segs s
  | console =>
    show Reports .console (if qi = 1 then consoleTransmit segs else consoleReceive segs)
    split
    · exact consoleTransmit_reports segs
    · exact consoleReceive_reports segs

/-! ### Runs -/

theorem virtioMmioWrite_reported {d' : Dev} {off len : Nat} {val : BitVec 64}
    (hno : ¬(DriverAct.write d' off len val).acks d) (hret : ((virtioMmioWrite d' off len val).run s).1 = some ()) :
    (reported d).rel s ((virtioMmioWrite d' off len val).run s).2 := by
  rw [virtioMmioWrite_run] at hret ⊢
  have hset : ∀ v : VirtioDev, (d' = d → v.intStatus = (s.dev d).intStatus) →
      (reported d).rel s (s.setDev d' v) := by
    intro v hv
    refine reported_of_eq ?_ rfl
    by_cases hd : d' = d
    · rw [hd, St.dev_setDev_self, hv hd]
    · rw [St.dev_setDev_of_ne fun h => hd h.symm]
  by_cases hnotify : off = vmmioQueueNotify
  · rw [if_pos hnotify] at hret ⊢
    by_cases hd : d = d'
    · subst hd
      exact serviceWith_reported (devHandle_reports d _) _ (by rw [← serviceVq, hret]; simp)
    · exact (reported_services hd).serviceVq _ s
  rw [if_neg hnotify]
  by_cases hack : off = vmmioIntAck
  · have hd : d' ≠ d := fun hd => hno ⟨hd, .inl hack⟩
    rw [if_pos hack, virtioLowerIrq_run]
    refine (reported d).trans (hset ((s.dev d').ack val) fun h => absurd h hd) ?_
    dsimp only
    split
    · exact reported_of_eq rfl (pushed_log rfl)
    · exact (reported d).refl _
  rw [if_neg hack]
  by_cases hreset : off = vmmioStatus ∧ val = 0
  · have hd : d' ≠ d := fun hd => hno ⟨hd, .inr hreset⟩
    rw [if_pos hreset]
    refine (reported d).trans (hset ((s.dev d').reset d') fun h => absurd h hd) ?_
    exact reported_of_eq rfl (pushed_log rfl)
  · rw [if_neg hreset]
    refine hset _ fun hd => ?_
    rw [regWrite_intStatus, hd]

theorem DriverAct.step_reported {a : DriverAct} (hno : ¬a.acks d) (hret : a.Returns s) :
    (reported d).rel s (a.step s) := by
  cases a with
  | store mem => exact reported_of_eq rfl rfl
  | write d' off len val => exact virtioMmioWrite_reported hno hret

theorem run_reported {acts : List DriverAct} (hno : ∀ a ∈ acts, ¬a.acks d)
    (hret : AllSteps DriverAct.step DriverAct.Returns s acts) :
    (reported d).rel s (runSteps DriverAct.step s acts) := by
  induction acts generalizing s with
  | nil => exact (reported d).refl s
  | cons a acts ih =>
    have hstep := DriverAct.step_reported (hno a List.mem_cons_self) hret.1
    exact (reported d).trans hstep (ih (fun b hb => hno b (List.mem_cons_of_mem a hb)) hret.2)

theorem initial_lined (mem : ByteMem) (memSize : BitVec 64) (content : List (BitVec 8)) (stale : ByteMem) :
    (St.initial mem memSize content false stale).Lined := by
  intro d
  cases d <;> exact ⟨fun h => absurd h Bool.false_ne_true, fun h => absurd rfl h⟩

/-- In the default mode the line of every device follows its interrupt status, and what has been pushed since
the last acknowledgement is reported. -/
theorem irqLine_law (mem : ByteMem) (memSize : BitVec 64) (content : List (BitVec 8)) (stale : ByteMem)
    (acts : List DriverAct)
    (hret : AllSteps DriverAct.step DriverAct.Returns (.initial mem memSize content false stale) acts) :
    LineLaw (.initial mem memSize content false stale) acts := by
  have hlined := (run_lined _ acts rfl (initial_lined mem memSize content stale)).2
  refine ⟨hlined, fun d before since hacts hno hlt => ?_⟩
  subst hacts
  have hreported := run_reported (d := d) hno (allSteps_append.1 hret).2
  rw [← runSteps_append] at hreported
  have hbit := hreported.2.resolve_right (by omega)
  refine ⟨hbit, (hlined d).2 fun hzero => hbit ?_⟩
  rw [hzero]
  exact BitVec.zero_and

/-- The driver sets the queue up, has the flush request served, and acknowledges something else. -/
def flushRun : List DriverAct :=
  [.write .blk vmmioQueueNum 4 2, .write .blk vmmioQueueDescLow 4 0x1000, .write .blk vmmioQueueAvailLow 4 0x2000,
    .write .blk vmmioQueueUsedLow 4 0x3000, .write .blk vmmioQueueReady 4 1, .write .blk vmmioQueueNotify 4 0,
    .write .blk vmmioIntAck 4 2]

theorem irqLine_law_flush : LineLaw (.initial flushRequest 0x4000000 [] false fun _ => 0) flushRun := by
  refine irqLine_law _ _ _ _ _ ?_
  refine ⟨?_, ?_, ?_, ?_, ?_, ?_, ?_, trivial⟩ <;> decide +kernel

end MiniVirt.Vmm
