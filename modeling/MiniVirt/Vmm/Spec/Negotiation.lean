import MiniVirt.Vmm.Notify
import MiniVirt.Vmm.Spec.Registers

/-!
# The initialisation of a device

The driver negotiates the features and then sets DRIVER_OK.  The code stores STATUS and the features as they
are written and looks at neither, so the driver has to keep the order itself, and with `-e` it has to wait for
the worker: `protocol_iff`.
-/

namespace MiniVirt.Vmm

/-! ### The law -/

/-- `VIRTIO_S_DRIVER_OK`. -/
def virtioSDriverOk : BitVec 32 := 4

/-- `VIRTIO_S_FEATURES_OK`. -/
def virtioSFeaturesOk : BitVec 32 := 8

/-- The features are offered by the device, and VERSION_1 is one of them. -/
def Accepted (d : Dev) (features : BitVec 64) : Prop :=
  features &&& ~~~d.devFeatures = 0 ∧ features.getLsbD virtioFVersion1Bit = true

instance (d : Dev) (features : BitVec 64) : Decidable (Accepted d features) :=
  inferInstanceAs (Decidable (_ ∧ _))

def St.consumed (s : St) (d : Dev) (qi : Nat) : Nat := s.trace.countP (Event.isConsumed d qi)

/-- No entry is consumed, and guest RAM and the file stay. -/
structure Untouched (s s' : St) : Prop where
  mem : s'.mem = s.mem
  blk : s'.blk = s.blk
  consumed : ∀ d qi, s'.consumed d qi = s.consumed d qi

/-- In the run `acts` from `x`: `st` is the state of the program, and `device` the device for which a step
works. -/
structure ProtocolLaw {σ ι : Type} (step : σ → ι → σ) (st : σ → St) (device : σ → ι → Option Dev) (x : σ)
    (acts : List ι) : Prop where
  driverOk : ∀ pre a d, pre ++ [a] <+: acts → device (runSteps step x pre) a = some d →
    ((st (runSteps step x pre)).dev d).status &&& virtioSDriverOk = 0 →
      Untouched (st (runSteps step x pre)) (st (runSteps step x (pre ++ [a])))
  featuresOk : ∀ pre, pre <+: acts → ∀ d len,
    (virtioMmioRead (st (runSteps step x pre)) d vmmioStatus len).setWidth 32 &&& virtioSFeaturesOk ≠ 0 →
      Accepted d ((st (runSteps step x pre)).dev d).drvFeatures

def DriverAct.device : DriverAct → Option Dev
  | .store _ => none
  | .write d .. => some d

/-- The law without `-e`. -/
abbrev DriverLaw (s : St) (acts : List DriverAct) : Prop :=
  ProtocolLaw DriverAct.step id (fun _ => DriverAct.device) s acts

/-- A write that KVM takes does not reach the program. -/
def PlaneAct.device (x : DataPlane) : PlaneAct → Option Dev
  | .write pa len val => if ioeventfdHit pa len val = none then virtioWindow pa else none
  | .work =>
    match x.worker with
    | .call r _ => some r.dev
    | .service (.loop c) _ => some c.d
    | .service (.raise d) _ => some d
    | _ => none
  | _ => none

/-- The law with `-e`. -/
abbrev PlaneLaw (x : DataPlane) (acts : List PlaneAct) : Prop :=
  ProtocolLaw PlaneAct.step DataPlane.st PlaneAct.device x acts

/-! ### The condition -/

/-- `service_vq()` has nothing to do. -/
def ServiceIdle (s : St) (d : Dev) (qi : Nat) : Prop :=
  d.nqueues ≤ qi ∨ (s.vq d qi).ready = 0 ∨ (s.vq d qi).num = 0 ∨
    gpa2hva s.memSize ((s.vq d qi).avail + 2) 2 = none ∨
      gpa2hva s.memSize ((s.vq d qi).avail + 4) (2 * (s.vq d qi).num.setWidth 64) = none ∨
        (s.vq d qi).lastAvailIdx = .ofNat 16 (s.mem.load ((s.vq d qi).avail + 2).toNat 2) ∨
          devCanConsume s d qi = false

instance (s : St) (d : Dev) (qi : Nat) : Decidable (ServiceIdle s d qi) := by
  unfold ServiceIdle
  infer_instance

/-- The feature bits that a write to DRV_FEATURES adds. -/
def VirtioDev.featureBits (v : VirtioDev) (val : BitVec 64) : BitVec 64 :=
  if v.drvFeatSel &&& 1 ≠ 0 then (val &&& 0xffffffff) <<< 32 else val &&& 0xffffffff

/-- The driver keeps the order: a notification without DRIVER_OK finds nothing to do, FEATURES_OK is written
only after features that the device can accept, and no others are added while it is set. -/
def WriteOrdered (s : St) (d : Dev) (off : Nat) (val : BitVec 64) : Prop :=
  (off = vmmioQueueNotify → (s.dev d).status &&& virtioSDriverOk = 0 →
    ServiceIdle s d (val &&& 0xffff).toNat) ∧
  (off = vmmioStatus → val.setWidth 32 &&& virtioSFeaturesOk ≠ 0 → Accepted d (s.dev d).drvFeatures) ∧
  (off = vmmioDrvFeatures → (s.dev d).status &&& virtioSFeaturesOk ≠ 0 →
    (s.dev d).featureBits val &&& ~~~d.devFeatures = 0)

instance (s : St) (d : Dev) (off : Nat) (val : BitVec 64) : Decidable (WriteOrdered s d off val) :=
  inferInstanceAs (Decidable (_ ∧ _ ∧ _))

def DriverAct.Ordered (s : St) : DriverAct → Prop
  | .store _ => True
  | .write d off _ val => WriteOrdered s d off val

instance (s : St) (a : DriverAct) : Decidable (a.Ordered s) :=
  match a with
  | .store _ => .isTrue trivial
  | .write d off _ val => inferInstanceAs (Decidable (WriteOrdered s d off val))

/-- The loop of `service_vq()` will stop at its next test. -/
def ServiceCall.Idle (s : St) (c : ServiceCall) : Prop :=
  (s.vq c.d c.qi).lastAvailIdx = c.idx ∨ devCanConsume s c.d c.qi = false

/-- Without DRIVER_OK the worker's call has nothing more to do. -/
def ServiceCall.Ordered (s : St) (c : ServiceCall) : Prop :=
  (s.dev c.d).status &&& virtioSDriverOk = 0 → c.Idle s

instance (s : St) (c : ServiceCall) : Decidable (c.Ordered s) :=
  inferInstanceAs (Decidable (_ → _ ∨ _))

/-- The driver keeps the order for the writes that reach the program, and takes DRIVER_OK back only when the
worker is done. -/
def PlaneAct.Ordered (x : DataPlane) : PlaneAct → Prop
  | .write pa len val => ioeventfdHit pa len val = none → ∀ d, virtioWindow pa = some d →
    WriteOrdered x.st d (pa - d.base).toNat val
  | .work => ∀ c rest, x.worker = .service (.loop c) rest → c.Ordered x.st
  | _ => True

instance (x : DataPlane) (a : PlaneAct) : Decidable (a.Ordered x) :=
  match a with
  | .store _ | .wake _ => .isTrue trivial
  | .write pa len val => decidable_of_iff
      (ioeventfdHit pa len val = none → ∀ d ∈ virtioWindow pa, WriteOrdered x.st d (pa - d.base).toNat val) Iff.rfl
  | .work =>
    match hw : x.worker with
    | .service (.loop c) rest => decidable_of_iff (c.Ordered x.st)
        ⟨fun h c' rest' heq => by rw [hw] at heq; cases heq; exact h, fun h => h c rest hw⟩
    | .service .idle _ | .service (.raise _) _ | .service .stuck _ | .wait | .events _ | .call _ _ =>
      .isTrue fun c rest heq => by rw [hw] at heq; cases heq

/-- The program handles the step to completion. -/
def PlaneAct.Returns (x : DataPlane) : PlaneAct → Prop
  | .write pa len val => ioeventfdHit pa len val = none → ((handleVirtioMmioWrite pa len val).run x.st).1 = some ()
  | .work => ∀ rest, x.work.worker ≠ .service .stuck rest
  | _ => True

/-! ### Status and features -/

theorem write_status (v : VirtioDev) (d : Dev) (off len : Nat) (val : BitVec 64) :
    (v.write d off len val).status = v.status := by
  unfold VirtioDev.write
  split_ifs <;> rfl

theorem write_drvFeatures (v : VirtioDev) (d : Dev) (off len : Nat) (val : BitVec 64) :
    (v.write d off len val).drvFeatures =
      if off = vmmioDrvFeatures then v.drvFeatures ||| v.featureBits val else v.drvFeatures := by
  by_cases hoff : off = vmmioDrvFeatures
  · rw [if_pos hoff, hoff]
    unfold VirtioDev.featureBits
    show (VirtioDev.drvFeatures (if v.drvFeatSel &&& 1 ≠ 0 then _ else _)) = _
    split <;> rfl
  · rw [if_neg hoff]
    unfold VirtioDev.write
    split_ifs <;> rfl

theorem regWrite_status (v : VirtioDev) (d : Dev) (off len : Nat) (val : BitVec 64) :
    (v.regWrite d off len val).status = if off = vmmioStatus then val.setWidth 32 else v.status := by
  unfold VirtioDev.regWrite
  split
  · rfl
  · split
    · rfl
    · exact write_status v d off len val

theorem regWrite_drvFeatures (v : VirtioDev) (d : Dev) (off len : Nat) (val : BitVec 64) :
    (v.regWrite d off len val).drvFeatures =
      if off = vmmioDrvFeatures then v.drvFeatures ||| v.featureBits val else v.drvFeatures := by
  unfold VirtioDev.regWrite
  split
  · rename_i hstatus
    have hoff : off ≠ vmmioDrvFeatures := by
      rw [hstatus]
      decide
    rw [if_neg hoff]
  · split
    · rename_i q hq
      have hoff : off ≠ vmmioDrvFeatures := by
        rintro rfl
        cases hq
      rw [if_neg hoff]
      rfl
    · exact write_drvFeatures v d off len val

variable {s : St} {d : Dev} {off len qi : Nat} {val : BitVec 64}

/-- STATUS and the driver's features after a write. -/
theorem step_status (s : St) (d : Dev) (off len : Nat) (val : BitVec 64) :
    (((DriverAct.write d off len val).step s).dev d).status =
      (if off = vmmioStatus then val.setWidth 32 else (s.dev d).status) ∧
    (((DriverAct.write d off len val).step s).dev d).drvFeatures =
      if off = vmmioDrvFeatures then (s.dev d).drvFeatures ||| (s.dev d).featureBits val
      else (s.dev d).drvFeatures := by
  have hsetup := step_setup s d off len val
  generalize ((DriverAct.write d off len val).step s).dev d = v at hsetup ⊢
  show v.setup.status = _ ∧ v.setup.drvFeatures = _
  rw [hsetup]
  split
  · rename_i hoff
    -- QUEUE_NOTIFY or INTERRUPT_ACK
    have hstatus : off ≠ vmmioStatus := by
      rcases hoff with hoff | hoff <;> (rw [hoff]; decide)
    have hfeatures : off ≠ vmmioDrvFeatures := by
      rcases hoff with hoff | hoff <;> (rw [hoff]; decide)
    rw [if_neg hstatus, if_neg hfeatures]
    exact ⟨rfl, rfl⟩
  split
  · -- `virtio_reset()` leaves the features
    rename_i hreset
    have hfeatures : off ≠ vmmioDrvFeatures := by
      rw [hreset.1]
      decide
    rw [if_pos hreset.1, if_neg hfeatures, hreset.2]
    exact ⟨rfl, rfl⟩
  · exact ⟨regWrite_status _ d off len val, regWrite_drvFeatures _ d off len val⟩

/-- FEATURES_OK is set only with features that the device can accept. -/
def St.Negotiated (s : St) : Prop :=
  ∀ d, (s.dev d).status &&& virtioSFeaturesOk ≠ 0 → Accepted d (s.dev d).drvFeatures

theorem accepted_or {features bits : BitVec 64} (h : Accepted d features) :
    Accepted d (features ||| bits) ↔ bits &&& ~~~d.devFeatures = 0 := by
  unfold Accepted
  rw [BitVec.and_or_distrib_right, h.1, BitVec.getLsbD_or, h.2]
  simp

/-- The steps that keep the negotiation right. -/
theorem negotiated_step_iff (h : s.Negotiated) :
    ((DriverAct.write d off len val).step s).Negotiated ↔
      (off = vmmioStatus → val.setWidth 32 &&& virtioSFeaturesOk ≠ 0 → Accepted d (s.dev d).drvFeatures) ∧
        (off = vmmioDrvFeatures → (s.dev d).status &&& virtioSFeaturesOk ≠ 0 →
          (s.dev d).featureBits val &&& ~~~d.devFeatures = 0) := by
  obtain ⟨hstatus, hfeatures⟩ := step_status s d off len val
  have hne : vmmioStatus ≠ vmmioDrvFeatures := by decide
  -- the other device is as it was
  have hself : ((DriverAct.write d off len val).step s).Negotiated ↔
      ((((DriverAct.write d off len val).step s).dev d).status &&& virtioSFeaturesOk ≠ 0 →
        Accepted d (((DriverAct.write d off len val).step s).dev d).drvFeatures) := by
    refine ⟨fun hn => hn d, fun hd d' => ?_⟩
    by_cases hdd : d' = d
    · rw [hdd]
      exact hd
    · rw [step_other fun heq => hdd heq.symm]
      exact h d'
  rw [hself, hstatus, hfeatures]
  by_cases hoff : off = vmmioStatus
  · rw [if_pos hoff, if_neg (hoff ▸ hne)]
    exact ⟨fun hacc => ⟨fun _ => hacc, fun hd => absurd (hoff.symm.trans hd) hne⟩, fun hacc => hacc.1 hoff⟩
  rw [if_neg hoff]
  by_cases hdrv : off = vmmioDrvFeatures
  · rw [if_pos hdrv]
    constructor
    · intro hacc
      exact ⟨fun hs => absurd hs hoff, fun _ hset => (accepted_or (h d hset)).1 (hacc hset)⟩
    · rintro ⟨-, hbits⟩ hset
      exact (accepted_or (h d hset)).2 (hbits hdrv hset)
  · rw [if_neg hdrv]
    exact iff_of_true (h d) ⟨fun hs => absurd hs hoff, fun hd => absurd hd hdrv⟩

/-! ### Notifications -/

theorem Untouched.refl (s : St) : Untouched s s := ⟨rfl, rfl, fun _ _ => rfl⟩

theorem Untouched.log {e : Event} (s : St) (he : ∀ d qi, e.isConsumed d qi = false) : Untouched s (s.log e) := by
  refine ⟨rfl, rfl, fun d qi => ?_⟩
  show (s.trace ++ [e]).countP _ = _
  rw [List.countP_append, List.countP_singleton, he]
  rfl

theorem consumed_mono {s' : St} (h : Serves d s s') (d' : Dev) (qi : Nat) : s.consumed d' qi ≤ s'.consumed d' qi := by
  obtain ⟨es, htr, -⟩ := h.trace
  unfold St.consumed
  rw [htr, List.countP_append]
  exact Nat.le_add_right _ _

/-- The call that `service_vq()` begins for queue `qi`. -/
def serviceCall (s : St) (d : Dev) (qi : Nat) : ServiceCall where
  d := d
  qi := qi
  ring := ((s.vq d qi).avail + 4).toNat
  idx := .ofNat 16 (s.mem.load ((s.vq d qi).avail + 2).toNat 2)
  did := false

theorem gpa2hva_cases (m a n : BitVec 64) : gpa2hva m a n = none ∨ gpa2hva m a n = some a.toNat := by
  unfold gpa2hva
  split
  · exact .inl rfl
  · exact .inr rfl

/-- The queue has no ring to look at, or `service_vq()` comes to its loop. -/
theorem serviceStart_cases (s : St) (d : Dev) (qi : Nat) :
    ServiceIdle s d qi ∧ (serviceStart d qi).run s = (.idle, s) ∨
      (serviceStart d qi).run s =
        (.loop (serviceCall s d qi), s.log (.read ((s.vq d qi).avail + 2).toNat 2)) ∧
      (ServiceIdle s d qi ↔ (s.vq d qi).lastAvailIdx = (serviceCall s d qi).idx ∨ devCanConsume s d qi = false) := by
  unfold serviceStart
  rw [run_bind, run_get]
  dsimp only
  rw [run_ite]
  by_cases hdead : d.nqueues ≤ qi ∨ (s.vq d qi).ready = 0 ∨ (s.vq d qi).num = 0
  · rw [if_pos hdead]
    refine .inl ⟨?_, rfl⟩
    rcases hdead with h | h | h
    · exact .inl h
    · exact .inr (.inl h)
    · exact .inr (.inr (.inl h))
  rw [if_neg hdead]
  rcases gpa2hva_cases s.memSize ((s.vq d qi).avail + 2) 2 with hidx | hidx
  · rw [hidx]
    exact .inl ⟨.inr (.inr (.inr (.inl hidx))), rfl⟩
  rcases gpa2hva_cases s.memSize ((s.vq d qi).avail + 4) (2 * (s.vq d qi).num.setWidth 64) with hring | hring
  · rw [hidx, hring]
    exact .inl ⟨.inr (.inr (.inr (.inr (.inl hring)))), rfl⟩
  · rw [hidx, hring]
    refine .inr ⟨rfl, ?_⟩
    have hsome : ∀ a : Nat, some a ≠ none := fun _ h => by cases h
    simp only [not_or] at hdead
    unfold ServiceIdle
    rw [hidx, hring, or_iff_right hdead.1, or_iff_right hdead.2.1, or_iff_right hdead.2.2, or_iff_right (hsome _),
      or_iff_right (hsome _)]
    rfl

theorem serviceRound_idle {c : ServiceCall} (h : c.Idle s) (did : Bool) :
    (serviceRound (devHandle c.d c.qi) c.d c.qi c.ring c.idx did).run s = (.inr (some did), s) := by
  unfold serviceRound
  rw [run_bind, run_get]
  dsimp only
  rw [run_ite]
  rcases h with hidx | hwait
  · rw [if_pos hidx]
    rfl
  · rw [hwait]
    split <;> rfl

/-- A call that has nothing to do. -/
theorem serviceVq_idle (h : ServiceIdle s d qi) : Untouched s ((serviceVq d qi).run s).2 := by
  rw [serviceVq_eq, run_bind]
  rcases serviceStart_cases s d qi with ⟨-, hstart⟩ | ⟨hstart, hiff⟩
  · rw [hstart]
    exact .refl s
  rw [hstart]
  generalize hc : serviceCall s d qi = c at hiff ⊢
  have hd : c.d = d := by rw [← hc]; rfl
  have hq : c.qi = qi := by rw [← hc]; rfl
  have hlog : Untouched s (s.log (.read ((s.vq d qi).avail + 2).toNat 2)) := .log s fun _ _ => rfl
  generalize hs₁ : s.log (.read ((s.vq d qi).avail + 2).toNat 2) = s₁ at hlog ⊢
  have hwait : c.Idle s₁ := by
    unfold ServiceCall.Idle
    rw [← hs₁, hd, hq]
    exact hiff.1 h
  have hloop : (loopM (serviceRound (devHandle c.d c.qi) c.d c.qi c.ring c.idx) none serviceFuel c.did).run s₁ =
      (some c.did, s₁) := by
    unfold serviceFuel
    rw [loopM_succ_run, serviceRound_idle hwait]
  have hdid : c.did = false := by rw [← hc]; rfl
  unfold WorkerPc.finish
  dsimp only
  rw [run_bind, hloop, hdid]
  exact hlog

/-- An entry that is served to its end is consumed. -/
theorem serveHead_consumed {handle : List Seg → V (Option (BitVec 32))}
    (hh : ∀ segs, Within (serves d) (handle segs)) (qi slot : Nat) (head : BitVec 16) (did : Bool) (s : St) :
    RoundPost (fun _ s' => s.consumed d qi < s'.consumed d qi) (fun r _ => r = none)
      ((serveHead handle d qi slot head did).run s) := by
  have hadvance : ∀ s', ((advance d qi slot head).run s').2.consumed d qi = s'.consumed d qi + 1 := by
    intro s'
    show (s'.trace ++ [Event.consumed d qi slot head]).countP _ = _
    rw [List.countP_append, List.countP_singleton]
    simp [Event.isConsumed, St.consumed]
  have hgather := consumed_mono ((serves_services d).gatherChain (s.vq d qi) head s) d qi
  unfold serveHead
  rw [run_bind, run_get, run_bind]
  dsimp only
  generalize (gatherChain (s.vq d qi) head).run s = y at hgather ⊢
  obtain ⟨r, s₁⟩ := y
  cases r with
  -- a chain without an end: the call does not return
  | diverge => exact rfl
  -- a malformed chain is skipped, which consumes it, too
  | bad =>
    show s.consumed d qi < ((advance d qi slot head).run s₁).2.consumed d qi
    rw [hadvance]
    exact Nat.lt_succ_of_le hgather
  | ok segs =>
    have hhandle := consumed_mono (hh segs s₁) d qi
    dsimp only
    rw [run_bind]
    generalize (handle segs).run s₁ = y at hhandle ⊢
    obtain ⟨r, s₂⟩ := y
    cases r with
    | none => exact rfl
    | some len =>
      have hpush := consumed_mono ((serves_services d).pushUsed qi head len s₂) d qi
      show s.consumed d qi < ((advance d qi slot head).run ((pushUsed d qi head len).run s₂).2).2.consumed d qi
      rw [hadvance]
      exact Nat.lt_succ_of_le (hgather.trans (hhandle.trans hpush))

theorem serviceRound_consumed (s : St) (ring : Nat) {idx : BitVec 16} (hidx : (s.vq d qi).lastAvailIdx ≠ idx)
    (hwait : devCanConsume s d qi ≠ false) (did : Bool) :
    RoundPost (fun _ s' => s.consumed d qi < s'.consumed d qi) (fun r _ => r = none)
      ((serviceRound (devHandle d qi) d qi ring idx did).run s) := by
  unfold serviceRound
  rw [run_bind, run_get]
  dsimp only
  rw [run_ite, if_neg hidx, run_ite, if_neg (by simpa using hwait), run_bind]
  generalize ring + 2 * ((s.vq d qi).lastAvailIdx.toNat % (s.vq d qi).num.toNat) = slot
  have hload : s.consumed d qi ≤ ((guestLoad slot 2).run s).2.consumed d qi :=
    consumed_mono ((serves_services d).guestLoad _ _ s) d qi
  generalize (guestLoad slot 2).run s = y at hload ⊢
  obtain ⟨head, s₁⟩ := y
  have hhead := serveHead_consumed ((serves_services d).devHandle qi) qi slot (.ofNat 16 head) did s₁
  generalize (serveHead (devHandle d qi) d qi slot (.ofNat 16 head) did).run s₁ = y at hhead ⊢
  obtain ⟨r, s₂⟩ := y
  cases r with
  | inl did' => exact lt_of_le_of_lt hload hhead
  | inr r => exact hhead

/-- A call that has something to do consumes an entry, if it returns. -/
theorem serviceVq_busy (h : ¬ServiceIdle s d qi) (hret : ((serviceVq d qi).run s).1 = some ()) :
    s.consumed d qi < ((serviceVq d qi).run s).2.consumed d qi := by
  rw [serviceVq_eq, run_bind] at hret ⊢
  rcases serviceStart_cases s d qi with ⟨hidle, -⟩ | ⟨hstart, hiff⟩
  · exact absurd hidle h
  rw [hstart] at hret ⊢
  obtain ⟨hidx, hwait⟩ := not_or.1 (mt hiff.2 h)
  have hlog : s.consumed d qi ≤ (s.log (.read ((s.vq d qi).avail + 2).toNat 2)).consumed d qi :=
    consumed_mono ((serves_services d).log s _ rfl) d qi
  -- the first round consumes an entry, and the others take none back
  have hfirst := serviceRound_consumed (s.log (.read ((s.vq d qi).avail + 2).toNat 2)) (serviceCall s d qi).ring
    hidx hwait false
  have hround := (serves_services d).serviceRound ((serves_services d).devHandle qi) qi
    (serviceCall s d qi).ring (serviceCall s d qi).idx
  unfold WorkerPc.finish at hret ⊢
  dsimp only at hret ⊢
  rw [run_bind] at hret ⊢
  unfold serviceFuel at hret ⊢
  rw [loopM_succ_run] at hret ⊢
  generalize s.log (.read ((s.vq d qi).avail + 2).toNat 2) = s₁ at hret hlog hfirst ⊢
  show s.consumed d qi < _
  have hd : (serviceCall s d qi).d = d := rfl
  have hq : (serviceCall s d qi).qi = qi := rfl
  have hdid : (serviceCall s d qi).did = false := rfl
  rw [hd, hq, hdid] at hret ⊢
  generalize (serviceRound (devHandle d qi) d qi (serviceCall s d qi).ring (serviceCall s d qi).idx false).run s₁ = y
    at hret hfirst ⊢
  obtain ⟨r, s₂⟩ := y
  cases r with
  | inr r =>
    have hnone : r = none := hfirst
    rw [hnone] at hret
    cases hret
  | inl did =>
    have hserved : s.consumed d qi < s₂.consumed d qi := lt_of_le_of_lt hlog hfirst
    have hloop : Serves d s₂ ((loopM (serviceRound (devHandle d qi) d qi (serviceCall s d qi).ring
        (serviceCall s d qi).idx) none 65535 did).run s₂).2 := Within.loopM (G := serves d) hround 65535 did s₂
    refine lt_of_lt_of_le hserved (consumed_mono (d := d) ?_ d qi)
    dsimp only
    generalize (loopM (serviceRound (devHandle d qi) d qi (serviceCall s d qi).ring (serviceCall s d qi).idx) none 65535
      did).run s₂ = z at hloop ⊢
    obtain ⟨r, s₃⟩ := z
    cases r with
    | none => exact hloop
    | some did =>
      cases did with
      | false => exact hloop
      | true => exact (serves d).trans hloop (virtioRaiseIrq_serves d s₃)

/-! ### Runs -/

theorem Untouched.trans {s₁ s₂ s₃ : St} (h₁ : Untouched s₁ s₂) (h₂ : Untouched s₂ s₃) : Untouched s₁ s₃ :=
  ⟨h₂.mem.trans h₁.mem, h₂.blk.trans h₁.blk, fun d qi => (h₂.consumed d qi).trans (h₁.consumed d qi)⟩

/-- A write to a register other than QUEUE_NOTIFY. -/
theorem step_untouched (hoff : off ≠ vmmioQueueNotify) : Untouched s ((DriverAct.write d off len val).step s) := by
  have hset : ∀ v, Untouched s (s.setDev d v) := fun _ => ⟨rfl, rfl, fun _ _ => rfl⟩
  show Untouched s ((virtioMmioWrite d off len val).run s).2
  rw [virtioMmioWrite_run, if_neg hoff]
  split
  · rw [virtioLowerIrq_run]
    dsimp only
    split
    · exact (hset ((s.dev d).ack val)).trans (.log _ fun _ _ => rfl)
    · exact hset _
  split
  · exact (hset ((s.dev d).reset d)).trans (.log _ fun _ _ => rfl)
  · exact hset _

theorem step_notify (s : St) (d : Dev) (len : Nat) (val : BitVec 64) :
    (DriverAct.write d vmmioQueueNotify len val).prog.run s = (serviceVq d (val &&& 0xffff).toNat).run s := by
  show (virtioMmioWrite d vmmioQueueNotify len val).run s = _
  rw [virtioMmioWrite_run, if_pos rfl]

/-- A write that is in order. -/
theorem WriteOrdered.write (len : Nat) (hn : s.Negotiated) (h : WriteOrdered s d off val) :
    ((DriverAct.write d off len val).step s).Negotiated ∧
      ((s.dev d).status &&& virtioSDriverOk = 0 → Untouched s ((DriverAct.write d off len val).step s)) := by
  obtain ⟨hidle, hfeatures⟩ := h
  refine ⟨(negotiated_step_iff hn).2 hfeatures, fun hstatus => ?_⟩
  by_cases hoff : off = vmmioQueueNotify
  · subst hoff
    unfold DriverAct.step
    rw [step_notify]
    exact serviceVq_idle (hidle rfl hstatus)
  · exact step_untouched hoff

theorem WriteOrdered.of_write (hn : s.Negotiated) (hn' : ((DriverAct.write d off len val).step s).Negotiated)
    (hgated : (s.dev d).status &&& virtioSDriverOk = 0 → Untouched s ((DriverAct.write d off len val).step s))
    (hret : (DriverAct.write d off len val).Returns s) : WriteOrdered s d off val := by
  refine ⟨fun hoff hstatus => ?_, (negotiated_step_iff hn).1 hn'⟩
  subst hoff
  have huntouched := hgated hstatus
  unfold DriverAct.Returns at hret
  unfold DriverAct.step at huntouched
  rw [step_notify] at hret huntouched
  by_contra hbusy
  have hlt := serviceVq_busy hbusy hret
  rw [huntouched.consumed] at hlt
  exact absurd hlt (lt_irrefl _)

/-! ### The worker -/

def untouched : Guarantee St where
  rel := Untouched
  refl := .refl
  trans := .trans

theorem virtioRaiseIrq_untouched (d : Dev) : Within untouched (virtioRaiseIrq d) :=
  Within.bind (fun _ => ⟨rfl, rfl, fun _ _ => rfl⟩) fun _ => Within.get.bind fun _ =>
    .ite (fun s => .log s fun _ _ => rfl) fun s => .log s fun _ _ => rfl

theorem serviceStart_untouched (d : Dev) (qi : Nat) (s : St) : Untouched s ((serviceStart d qi).run s).2 := by
  rcases serviceStart_cases s d qi with ⟨-, hstart⟩ | ⟨hstart, -⟩
  · rw [hstart]
    exact .refl s
  · rw [hstart]
    exact .log s fun _ _ => rfl

/-- A round that has something to do consumes an entry, if it is done. -/
theorem serviceIter_untouched_iff {c : ServiceCall} (hret : ((serviceIter c).run s).1 ≠ .stuck) :
    Untouched s ((serviceIter c).run s).2 ↔ c.Idle s := by
  unfold serviceIter at hret ⊢
  rw [run_bind] at hret ⊢
  constructor
  · intro huntouched
    by_contra hbusy
    obtain ⟨hidx, hwait⟩ := not_or.1 hbusy
    have hround := serviceRound_consumed s c.ring hidx hwait c.did
    generalize (serviceRound (devHandle c.d c.qi) c.d c.qi c.ring c.idx c.did).run s = y at hret hround huntouched
    obtain ⟨r, s'⟩ := y
    cases r with
    | inl did =>
      have hsame : s'.consumed c.d c.qi = s.consumed c.d c.qi := huntouched.consumed c.d c.qi
      have hlt : s.consumed c.d c.qi < s'.consumed c.d c.qi := hround
      omega
    | inr r =>
      obtain rfl : r = none := hround
      exact hret rfl
  · intro hidle
    rw [serviceRound_idle hidle]
    exact .refl s

/-! ### Runs -/

section

variable {σ ι : Type} {step : σ → ι → σ} {st : σ → St} {device : σ → ι → Option Dev} {x : σ} {acts : List ι}

/-- Without DRIVER_OK the step does nothing to the queues, guest RAM and the file. -/
def Gated (step : σ → ι → σ) (st : σ → St) (device : σ → ι → Option Dev) (x : σ) (a : ι) : Prop :=
  ∀ d, device x a = some d → ((st x).dev d).status &&& virtioSDriverOk = 0 → Untouched (st x) (st (step x a))

theorem protocolLaw_iff : ProtocolLaw step st device x acts ↔
    (st x).Negotiated ∧ AllSteps step (fun x a => (st (step x a)).Negotiated) x acts ∧
      AllSteps step (Gated step st device) x acts := by
  have hread : ∀ (s : St) (d : Dev) len,
      (virtioMmioRead s d vmmioStatus len).setWidth 32 = (s.dev d).status := by
    intro s d len
    have hstatus : virtioMmioRead s d vmmioStatus len = (s.dev d).status.setWidth 64 := rfl
    rw [hstatus]
    simp
  rw [allSteps_iff_forall_append (P := Gated step st device), ← and_assoc,
    ← forall_prefix_iff (R := fun x => (st x).Negotiated)]
  constructor
  · intro h
    refine ⟨fun pre hpre d => ?_, fun pre a hpre d hdev hstatus => ?_⟩
    · have hfeatures := h.featuresOk pre hpre d 4
      rwa [hread] at hfeatures
    · have huntouched := h.driverOk pre a d hpre hdev hstatus
      rwa [runSteps_append] at huntouched
  · rintro ⟨hn, hgated⟩
    refine ⟨fun pre a d hpre hdev hstatus => ?_, fun pre hpre d len => ?_⟩
    · rw [runSteps_append]
      exact hgated pre a hpre d hdev hstatus
    · rw [hread]
      exact hn pre hpre d

variable {Ordered Returns : σ → ι → Prop}

theorem protocolLaw_of_ordered (hstep : ∀ x a, (st x).Negotiated → Ordered x a →
    (st (step x a)).Negotiated ∧ Gated step st device x a) (hn : (st x).Negotiated) (h : AllSteps step Ordered x acts) :
    ProtocolLaw step st device x acts := by
  have hkeeps (x : σ) (a : ι) (hn : (st x).Negotiated) (ha : Ordered x a) :
      (st (step x a)).Negotiated ∧ (st (step x a)).Negotiated := ⟨(hstep x a hn ha).1, (hstep x a hn ha).1⟩
  exact protocolLaw_iff.2 ⟨hn, AllSteps.mono hkeeps hn h, AllSteps.mono hstep hn h⟩

theorem ordered_of_protocolLaw (hstep : ∀ x a, (st x).Negotiated → (st (step x a)).Negotiated →
    Gated step st device x a → Returns x a → Ordered x a) (hret : AllSteps step Returns x acts)
    (h : ProtocolLaw step st device x acts) : AllSteps step Ordered x acts := by
  obtain ⟨hn, hnegotiated, hgated⟩ := protocolLaw_iff.1 h
  have hordered (x : σ) (a : ι) (hn : (st x).Negotiated)
      (ha : ((st (step x a)).Negotiated ∧ Gated step st device x a) ∧ Returns x a) :
      (st (step x a)).Negotiated ∧ Ordered x a := ⟨ha.1.1, hstep x a hn ha.1.1 ha.1.2 ha.2⟩
  exact AllSteps.mono hordered hn ((hnegotiated.and hgated).and hret)

end

theorem DriverAct.Ordered.gated {a : DriverAct} (hn : s.Negotiated) (h : a.Ordered s) :
    (a.step s).Negotiated ∧ Gated DriverAct.step id (fun _ => DriverAct.device) s a := by
  cases a with
  | store mem => exact ⟨hn, fun _ hdev => by cases hdev⟩
  | write d off len val =>
    obtain ⟨hn', hgated⟩ := WriteOrdered.write len hn h
    refine ⟨hn', fun d' hdev => ?_⟩
    cases hdev
    exact hgated

theorem DriverAct.Ordered.of_gated {a : DriverAct} (hn : s.Negotiated) (hn' : (a.step s).Negotiated)
    (hgated : Gated DriverAct.step id (fun _ => DriverAct.device) s a) (hret : a.Returns s) : a.Ordered s := by
  cases a with
  | store mem => trivial
  | write d off len val => exact .of_write hn hn' (hgated d rfl) hret

variable {x : DataPlane}

theorem handleVirtioMmioWrite_run (pa : BitVec 64) (len : Nat) (val : BitVec 64) (s : St) :
    (handleVirtioMmioWrite pa len val).run s =
      match virtioWindow pa with
      | some d => (DriverAct.write d (pa - d.base).toNat len val).prog.run s
      | none => (some (), s) := by
  unfold handleVirtioMmioWrite
  cases virtioWindow pa with
  | none => rfl
  | some d => rfl

theorem negotiated_congr {s' : St} (h : keepsSetup.rel s s') (hn : s.Negotiated) : s'.Negotiated := by
  intro d hset
  have hstatus : (s'.dev d).setup.status = (s.dev d).setup.status := congrArg VirtioDev.status (h d)
  have hfeatures : (s'.dev d).setup.drvFeatures = (s.dev d).setup.drvFeatures := congrArg VirtioDev.drvFeatures (h d)
  change (s'.dev d).status = (s.dev d).status at hstatus
  change (s'.dev d).drvFeatures = (s.dev d).drvFeatures at hfeatures
  rw [hstatus] at hset
  rw [hfeatures]
  exact hn d hset

/-- The steps of the worker keep the set-up of the devices. -/
theorem work_keepsSetup (x : DataPlane) : keepsSetup.rel x.st x.work.st := by
  unfold DataPlane.work
  split
  · exact keepsSetup.refl _
  · exact keepsSetup.refl _
  · exact keepsSetup.refl _
  · rename_i r rest hw
    show keepsSetup.rel x.st ((serviceStart r.dev r.qi).run x.st).2
    rcases serviceStart_cases x.st r.dev r.qi with ⟨-, hstart⟩ | ⟨hstart, -⟩
    · rw [hstart]
      exact keepsSetup.refl _
    · rw [hstart]
      exact fun _ => rfl
  · exact keepsSetup.refl _
  · rename_i c rest hw
    have hround := (keepsSetup_services c.d).serviceRound ((keepsSetup_services c.d).devHandle c.qi) c.qi c.ring c.idx
      c.did
    have hiter : Within keepsSetup (serviceIter c) := hround.bind fun _ => .pure _
    exact hiter x.st
  · rename_i d rest hw
    exact (keepsSetup_services d).raise x.st
  · exact keepsSetup.refl _

/-- A step of the worker, when its call has nothing to do. -/
theorem work_untouched (h : ∀ c rest, x.worker = .service (.loop c) rest → c.Idle x.st) : Untouched x.st x.work.st := by
  unfold DataPlane.work
  split
  · exact .refl _
  · exact .refl _
  · exact .refl _
  · exact serviceStart_untouched _ _ _
  · exact .refl _
  · rename_i c rest hw
    unfold serviceIter
    rw [run_bind, serviceRound_idle (h c rest hw)]
    exact .refl _
  · exact virtioRaiseIrq_untouched _ _
  · exact .refl _

theorem PlaneAct.Ordered.gated {a : PlaneAct} (hn : x.st.Negotiated) (h : a.Ordered x) :
    (a.step x).st.Negotiated ∧ Gated PlaneAct.step DataPlane.st PlaneAct.device x a := by
  cases a with
  | store mem => exact ⟨hn, fun _ hdev => by cases hdev⟩
  | wake evs =>
    refine ⟨?_, fun _ hdev => by cases hdev⟩
    unfold PlaneAct.step
    dsimp only
    split
    · exact hn
    · exact hn
  | work =>
    refine ⟨negotiated_congr (work_keepsSetup x) hn, fun d hdev hstatus => work_untouched fun c rest hw => ?_⟩
    unfold PlaneAct.device at hdev
    rw [hw] at hdev
    obtain rfl := Option.some.inj hdev
    exact h c rest hw hstatus
  | write pa len val =>
    unfold Gated PlaneAct.step PlaneAct.device
    dsimp only
    cases hhit : ioeventfdHit pa len val with
    -- KVM takes the write, so the program does not see it
    | some r => exact ⟨hn, fun _ hdev => by cases hdev⟩
    | none =>
      dsimp only
      rw [handleVirtioMmioWrite_run]
      cases hwindow : virtioWindow pa with
      | none => exact ⟨hn, fun _ hdev => by cases hdev⟩
      | some d =>
        obtain ⟨hn', hgated⟩ := WriteOrdered.write len hn (h hhit d hwindow)
        refine ⟨hn', fun d' hdev => ?_⟩
        cases hdev
        exact hgated

theorem PlaneAct.Ordered.of_gated {a : PlaneAct} (hn : x.st.Negotiated) (hn' : (a.step x).st.Negotiated)
    (hgated : Gated PlaneAct.step DataPlane.st PlaneAct.device x a) (hret : a.Returns x) : a.Ordered x := by
  cases a with
  | store mem => trivial
  | wake evs => trivial
  | work =>
    intro c rest hw hstatus
    have huntouched := hgated c.d (by unfold PlaneAct.device; rw [hw]) hstatus
    have hwork : x.work =
        { x with st := ((serviceIter c).run x.st).2, worker := .service ((serviceIter c).run x.st).1 rest } := by
      unfold DataPlane.work
      rw [hw]
    -- an iteration that returns without an effect has found the call idle
    refine (serviceIter_untouched_iff fun hstuck => hret rest ?_).1 ?_
    · rw [hwork, hstuck]
    · have hst : (PlaneAct.work.step x).st = ((serviceIter c).run x.st).2 := congrArg DataPlane.st hwork
      rwa [hst] at huntouched
  | write pa len val =>
    intro hhit d hwindow
    have hret' := hret hhit
    have hdev : (PlaneAct.write pa len val).device x = some d := by
      unfold PlaneAct.device
      dsimp only
      rw [if_pos hhit, hwindow]
    have hst : ((PlaneAct.write pa len val).step x).st = (DriverAct.write d (pa - d.base).toNat len val).step x.st := by
      unfold PlaneAct.step
      dsimp only
      rw [hhit, handleVirtioMmioWrite_run, hwindow]
      rfl
    rw [hst] at hn'
    rw [handleVirtioMmioWrite_run, hwindow] at hret'
    have huntouched := hgated d hdev
    rw [hst] at huntouched
    exact .of_write hn hn' huntouched hret'

theorem initial_negotiated (mem : ByteMem) (memSize : BitVec 64) (content : List (BitVec 8))
    (useEventfd : Bool) (stale : ByteMem) : (St.initial mem memSize content useEventfd stale).Negotiated := by
  intro d hset
  have hstatus : ((St.initial mem memSize content useEventfd stale).dev d).status = 0 := by
    cases d <;> rfl
  rw [hstatus] at hset
  exact absurd (BitVec.zero_and) hset

/-- The devices at power-on, and the worker of `-e`. -/
def DataPlane.initial (mem : ByteMem) (memSize : BitVec 64) (content : List (BitVec 8)) (stale : ByteMem) :
    DataPlane where
  st := .initial mem memSize content true stale
  count := fun _ => 0
  worker := .wait

/-- In every run from power-on in which the driver keeps the order the protocol holds, without `-e` and with
it; and in a run in which every write is handled to completion and every iteration of the worker ends it holds
in no other case. -/
theorem protocol_iff (mem : ByteMem) (memSize : BitVec 64) (content : List (BitVec 8)) (stale : ByteMem) :
    (∀ acts : List DriverAct,
      (AllSteps DriverAct.step DriverAct.Ordered (.initial mem memSize content false stale) acts →
        DriverLaw (.initial mem memSize content false stale) acts) ∧
      (AllSteps DriverAct.step DriverAct.Returns (.initial mem memSize content false stale) acts →
        DriverLaw (.initial mem memSize content false stale) acts →
          AllSteps DriverAct.step DriverAct.Ordered (.initial mem memSize content false stale) acts)) ∧
    ∀ acts : List PlaneAct,
      (AllSteps PlaneAct.step PlaneAct.Ordered (.initial mem memSize content stale) acts →
        PlaneLaw (.initial mem memSize content stale) acts) ∧
      (AllSteps PlaneAct.step PlaneAct.Returns (.initial mem memSize content stale) acts →
        PlaneLaw (.initial mem memSize content stale) acts →
          AllSteps PlaneAct.step PlaneAct.Ordered (.initial mem memSize content stale) acts) :=
  ⟨fun _ => ⟨protocolLaw_of_ordered (fun _ _ hn ha => ha.gated hn)
        (initial_negotiated mem memSize content false stale), ordered_of_protocolLaw fun _ _ => .of_gated⟩,
    fun _ => ⟨protocolLaw_of_ordered (fun _ _ hn ha => ha.gated hn)
        (initial_negotiated mem memSize content true stale), ordered_of_protocolLaw fun _ _ => .of_gated⟩⟩

/-- The driver sets the queue up. -/
def flushQueue : List DriverAct :=
  [.write .blk vmmioQueueNum 4 2, .write .blk vmmioQueueDescLow 4 0x1000, .write .blk vmmioQueueAvailLow 4 0x2000,
    .write .blk vmmioQueueUsedLow 4 0x3000, .write .blk vmmioQueueReady 4 1]

/-- A queue that is ready is served before the driver has set DRIVER_OK. -/
theorem not_protocol : ¬∀ (mem : ByteMem) (memSize : BitVec 64) (content : List (BitVec 8)) (stale : ByteMem)
    (acts : List DriverAct), DriverLaw (.initial mem memSize content false stale) acts := by
  intro h
  have hlaw := h flushRequest 0x4000000 [] (fun _ => 0) (flushQueue ++ [.write .blk vmmioQueueNotify 4 0])
  have hserved := hlaw.driverOk flushQueue (.write .blk vmmioQueueNotify 4 0) .blk List.prefix_rfl rfl
    (by decide +kernel)
  exact absurd (hserved.consumed .blk 0) (by decide +kernel)

/-- The writes of the whole initialisation, and a notification. -/
def flushInit : List (Nat × BitVec 64) :=
  [(vmmioDrvFeaturesSel, 1), (vmmioDrvFeatures, 1), (vmmioStatus, 11), (vmmioQueueNum, 2), (vmmioQueueDescLow, 0x1000),
    (vmmioQueueAvailLow, 0x2000), (vmmioQueueUsedLow, 0x3000), (vmmioQueueReady, 1), (vmmioStatus, 15),
    (vmmioQueueNotify, 0)]

/-- The flush request again, after the whole initialisation; with `-e`, the driver resets the device when the
worker waits again. -/
theorem protocol_iff_flush :
    DriverLaw (.initial flushRequest 0x4000000 [] false fun _ => 0) (flushInit.map fun w => .write .blk w.1 4 w.2) ∧
      PlaneLaw (.initial flushRequest 0x4000000 [] fun _ => 0)
        ((flushInit.map fun w => .write (Dev.blk.base + .ofNat 64 w.1) 4 w.2) ++
          [.wake [⟨.blk, 0⟩], .work, .work, .work, .work, .work, .work, .work,
            .write (Dev.blk.base + .ofNat 64 vmmioStatus) 4 0]) := by
  refine ⟨((protocol_iff _ _ _ _).1 _).1 ?_, ((protocol_iff _ _ _ _).2 _).1 ?_⟩
  · refine ⟨?_, ?_, ?_, ?_, ?_, ?_, ?_, ?_, ?_, ?_, trivial⟩ <;> decide +kernel
  · refine ⟨?_, ?_, ?_, ?_, ?_, ?_, ?_, ?_, ?_, ?_, ?_, ?_, ?_, ?_, ?_, ?_, ?_, ?_, ?_, trivial⟩ <;> decide +kernel

end MiniVirt.Vmm
