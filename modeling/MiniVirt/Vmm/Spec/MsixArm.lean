import MiniVirt.Vmm.Spec.MsixRoutes

/-!
# The delivery path of the MSI-X vectors

`msix_setup_irqs()` runs once: at the first write to Message Control that leaves MSI-X enabled and not
masked.  A vector has an eventfd that KVM and VFIO know if and only if it had an address then
(`delivers_iff`), so that a vector that gets its address later has none.
-/

namespace MiniVirt.Vmm

namespace Vf

variable {vf vf' : Vf}

/-! ### The law -/

/-- A vector of the shadow table that has an address. -/
def Programmed (vf : Vf) (v : Nat) : Prop := v < vf.nr ∧ ¬vf.Unprogrammed v

instance (vf : Vf) (v : Nat) : Decidable (vf.Programmed v) := inferInstanceAs (Decidable (_ ∧ _))

/-- The vector has an eventfd that KVM has bound to its GSI and that VFIO signals. -/
def Delivers (vf : Vf) (v : Nat) : Prop :=
  ∃ fd : Nat, vf.msixEfd v = fd ∧ ((fd : Int), msixGsiBase + v) ∈ vf.irqfds ∧
    ∃ fds, vf.irqs = some fds ∧ fds[v]? = some (fd : Int)

/-- While MSI-X is enabled and not masked, every vector that has an address is delivered. -/
def NoneLost (vf : Vf) : Prop := vf.Live → ∀ v, vf.Programmed v → vf.Delivers v

end Vf

/-- A write to Message Control. -/
def VfAct.IsMsgctl (vf : Vf) : VfAct → Prop
  | .mmio _ => False
  | .config reg len _ _ => vf.configTarget reg len = .msgctl

instance (vf : Vf) (a : VfAct) : Decidable (a.IsMsgctl vf) :=
  match a with
  | .mmio _ => .isFalse fun h => h
  | .config reg len _ _ => inferInstanceAs (Decidable (vf.configTarget reg len = .msgctl))

/-- The step enables MSI-X through Message Control. -/
def VfAct.Arms (vf : Vf) (a : VfAct) : Prop := a.IsMsgctl vf ∧ (a.step vf).Live

instance (vf : Vf) (a : VfAct) : Decidable (a.Arms vf) := inferInstanceAs (Decidable (_ ∧ _))

/-- The state when MSI-X is enabled for the first time. -/
def armedState : Vf → List VfAct → Option Vf
  | _, [] => none
  | vf, a :: acts => if a.Arms vf then some (a.step vf) else armedState (a.step vf) acts

/-- While MSI-X is enabled and not masked, only vectors that had an address when it was enabled for the
first time have one. -/
def Timely (vf : Vf) (acts : List VfAct) : Prop :=
  ∀ pre, pre <+: acts → (runSteps VfAct.step vf pre).Live →
    ∀ v, (runSteps VfAct.step vf pre).Programmed v → ∃ w, armedState vf pre = some w ∧ w.Programmed v

/-- Every ioctl that the step makes succeeds. -/
def VfAct.IoctlsSucceed : VfAct → Prop
  | .mmio _ => True
  | .config _ _ _ io => (∀ v, io.irqfd v = true) ∧ io.setIrqs = true

/-! ### Arming -/

namespace Vf

variable {vf vf' : Vf}

/-- `msix_setup_irqs()` has not run. -/
structure Unarmed (vf : Vf) : Prop where
  done : vf.msixRoutingDone = false
  slowpath : vf.msixSlowpath = false
  irqs : vf.irqs = none
  efd : vf.msixCap ≠ 0 → ∀ v, vf.msixEfd v = -1

theorem unarmed_vfioSetup (device : VfioDevice) (nextFd : Nat) : (vfioSetup device false nextFd).Unarmed :=
  ⟨rfl, rfl, rfl, fun h _ => if_neg h⟩

theorem Unarmed.of_same (h : vf.Unarmed) (hsame : SameMsix vf vf') : vf'.Unarmed :=
  ⟨hsame.done.trans h.done, hsame.slowpath.trans h.slowpath, hsame.irqs.trans h.irqs,
    fun hcap v => (congrFun hsame.efd v).trans (h.efd (hsame.cap ▸ hcap) v)⟩

theorem Unarmed.handlePtMmio (h : vf.Unarmed) (m : Mmio) : (vf.handlePtMmio m).2.Unarmed := by
  rcases handlePtMmio_msix m vf with ⟨-, hsame⟩ | ⟨pos, -, -, hsame⟩
  · exact h.of_same hsame
  · have hprog : (vf.programmed pos m).Unarmed := ⟨h.done, h.slowpath, h.irqs, h.efd⟩
    exact hprog.of_same hsame

theorem delivers_congr (hefd : vf'.msixEfd = vf.msixEfd) (hirqfds : vf'.irqfds = vf.irqfds)
    (hirqs : vf'.irqs = vf.irqs) (v : Nat) : vf'.Delivers v ↔ vf.Delivers v := by
  unfold Delivers
  rw [hefd, hirqfds, hirqs]

/-- The eventfds after the loop over the first `n` vectors. -/
theorem setupVectors_efd {io : Ioctls} (hio : ∀ v, io.irqfd v = true) (hslow : vf.msixSlowpath = false)
    (n v : Nat) :
    (v < n ∧ ¬vf.Unprogrammed v → ∃ fd : Nat, (setupVectors io vf n).msixEfd v = fd ∧
        ((fd : Int), msixGsiBase + v) ∈ (setupVectors io vf n).irqfds) ∧
      (¬(v < n ∧ ¬vf.Unprogrammed v) → (setupVectors io vf n).msixEfd v = vf.msixEfd v) := by
  induction n with
  | zero => exact ⟨fun h => absurd h.1 (Nat.not_lt_zero v), fun _ => rfl⟩
  | succ n ih =>
    have hsame := setupVectors_same io vf n
    have hprog := unprogrammed_congr hsame.shadow n
    have hslow' := hsame.slowpath.trans hslow
    rw [setupVectors_succ]
    generalize setupVectors io vf n = w at ih hprog hslow'
    unfold setupVector
    by_cases hn : w.Unprogrammed n
    · rw [if_pos hn]
      -- vector `n` is skipped
      have hlt : (v < n + 1 ∧ ¬vf.Unprogrammed v) ↔ (v < n ∧ ¬vf.Unprogrammed v) := by
        refine and_congr_left fun hv => ⟨fun h => ?_, fun h => by omega⟩
        by_contra hge
        obtain rfl : v = n := by omega
        exact hv (hprog.1 hn)
      rw [hlt]
      exact ih
    · rw [if_neg hn]
      dsimp only
      rw [if_pos ⟨hslow', hio n⟩]
      -- vector `n` gets the next descriptor
      by_cases hv : v = n
      · subst hv
        rw [Function.update_self]
        refine ⟨fun _ => ⟨w.nextFd, rfl, ?_⟩, fun h => absurd ⟨v.lt_succ_self, fun hu => hn (hprog.2 hu)⟩ h⟩
        exact List.mem_append_right _ (List.mem_singleton_self _)
      · rw [Function.update_of_ne hv]
        constructor
        · rintro ⟨hlt, hu⟩
          obtain ⟨fd, hfd, hmem⟩ := ih.1 ⟨by omega, hu⟩
          exact ⟨fd, hfd, List.mem_append_left _ hmem⟩
        · exact fun h => ih.2 fun hlt => h ⟨by omega, hlt.2⟩

/-- `msix_setup_irqs()` delivers the vectors that have an address. -/
theorem delivers_msixSetupIrqs {io : Ioctls} (hio : ∀ v, io.irqfd v = true) (hset : io.setIrqs = true)
    (hslow : vf.msixSlowpath = false) (hefd : ∀ v, vf.msixEfd v = -1) (v : Nat) :
    (vf.msixSetupIrqs io).Delivers v ↔ (vf.msixSetupIrqs io).Programmed v := by
  have hsame := sameMsix_msixSetupIrqs hset vf
  have hvectors := setupVectors_same io vf.msixUpdateRoutes vf.nr
  have hnr : (vf.msixSetupIrqs io).nr = vf.nr := nr_congr (hsame.nr.trans hvectors.nr)
  have hslow' : vf.msixUpdateRoutes.msixSlowpath = false := hslow
  obtain ⟨hyes, hno⟩ := setupVectors_efd hio hslow' vf.nr v
  rw [delivers_congr hsame.efd hsame.irqfds hsame.irqs]
  unfold Programmed
  rw [hnr, unprogrammed_congr (hsame.shadow.trans hvectors.shadow)]
  constructor
  · rintro ⟨fd, hfd, -⟩
    by_contra h
    have hneg : (setupVectors io vf.msixUpdateRoutes vf.nr).msixEfd v = fd := hfd
    rw [hno h] at hneg
    have := (hefd v).symm.trans hneg
    omega
  · intro h
    obtain ⟨fd, hfd, hmem⟩ := hyes h
    refine ⟨fd, hfd, hmem, _, rfl, ?_⟩
    rw [List.getElem?_map, List.getElem?_range h.1, Option.map_some]
    exact congrArg some hfd

/-! ### Steps -/

theorem cap_of_configTarget {reg len : Nat} (h : vf.configTarget reg len = .msgctl) : vf.msixCap ≠ 0 := by
  unfold configTarget at h
  dsimp only at h
  split at h
  · rename_i t hbar
    subst h
    split at hbar
    · split at hbar
      · split at hbar <;> cases hbar
      · split at hbar <;> cases hbar
      · cases hbar
    · cases hbar
  · split at h
    · rename_i hcap
      exact hcap.1
    · cases h

/-- A write to the configuration space sets the vectors up, or it changes nothing but Message Control. -/
theorem ptConfigWrite_cases (io : Ioctls) (reg len : Nat) (val : BitVec 32) (vf : Vf) :
    (∃ mc, vf.configTarget reg len = .msgctl ∧ ({ vf with msixMsgctl := mc } : Vf).Live ∧
        vf.ptConfigWrite io reg len val = msixSetupIrqs io { vf with msixMsgctl := mc }) ∨
      (∃ mc, SameMsix { vf with msixMsgctl := mc } (vf.ptConfigWrite io reg len val)) ∧
        (vf.configTarget reg len = .msgctl → vf.msixRoutingDone = false →
          ¬(vf.ptConfigWrite io reg len val).Live) := by
  have hbar : ∀ f : Nat → BitVec 64, SameMsix vf { vf with barVal := f } :=
    fun _ => ⟨rfl, rfl, rfl, rfl, rfl, rfl, rfl, rfl, rfl, rfl, rfl, rfl, rfl⟩
  unfold ptConfigWrite
  cases htarget : vf.configTarget reg len with
  | barLo b => exact .inr ⟨⟨vf.msixMsgctl, hbar _⟩, fun h => by cases h⟩
  | barHi b => exact .inr ⟨⟨vf.msixMsgctl, hbar _⟩, fun h => by cases h⟩
  | device => exact .inr ⟨⟨vf.msixMsgctl, sameMsix_pwriteRegion ..⟩, fun h => by cases h⟩
  | msgctl =>
    dsimp only
    split
    · rename_i hlive
      exact .inl ⟨_, rfl, hlive.1, rfl⟩
    · rename_i hlive
      exact .inr ⟨⟨_, .refl _⟩, fun _ hdone hl => hlive ⟨hl, hdone⟩⟩

theorem live_congr (h : vf'.msixMsgctl = vf.msixMsgctl) : vf'.Live ↔ vf.Live := by
  unfold Live
  rw [h]

/-- The step that arms delivers the vectors that have an address. -/
theorem Unarmed.delivers_of_arms (h : vf.Unarmed) {a : VfAct} (hio : a.IoctlsSucceed) (ha : a.Arms vf) :
    (a.step vf).msixRoutingDone = true ∧ ∀ v, (a.step vf).Delivers v ↔ (a.step vf).Programmed v := by
  cases a with
  | mmio m => exact ha.1.elim
  | config reg len val io =>
    obtain ⟨hmc, hlive⟩ := ha
    have hefd := h.efd (cap_of_configTarget hmc)
    rcases ptConfigWrite_cases io reg len val vf with ⟨mc, -, -, heq⟩ | ⟨-, hno⟩
    · show (vf.ptConfigWrite io reg len val).msixRoutingDone = true ∧
        ∀ v, (vf.ptConfigWrite io reg len val).Delivers v ↔ (vf.ptConfigWrite io reg len val).Programmed v
      rw [heq]
      refine ⟨(sameMsix_msixSetupIrqs hio.2 _).done, fun v => ?_⟩
      have hslow : ({ vf with msixMsgctl := mc } : Vf).msixSlowpath = false := h.slowpath
      exact delivers_msixSetupIrqs hio.1 hio.2 hslow hefd v
    · exact absurd hlive (hno hmc h.done)

theorem Unarmed.step (h : vf.Unarmed) {a : VfAct} (hio : a.IoctlsSucceed) (ha : ¬a.Arms vf) :
    (a.step vf).Unarmed := by
  cases a with
  | mmio m => exact h.handlePtMmio m
  | config reg len val io =>
    rcases ptConfigWrite_cases io reg len val vf with ⟨mc, hmc, hlive, heq⟩ | ⟨⟨mc, hsame⟩, -⟩
    · refine absurd ⟨hmc, ?_⟩ ha
      show (vf.ptConfigWrite io reg len val).Live
      rw [heq, live_congr (sameMsix_msixSetupIrqs hio.2 _).msgctl]
      exact (live_congr (setupVectors_same io _ _).msgctl).2 hlive
    · have hmc : ({ vf with msixMsgctl := mc } : Vf).Unarmed := ⟨h.done, h.slowpath, h.irqs, h.efd⟩
      exact hmc.of_same hsame

/-- Once the vectors are set up, nothing changes in their delivery. -/
theorem delivers_step (hdone : vf.msixRoutingDone = true) (a : VfAct) :
    (a.step vf).msixRoutingDone = true ∧ ∀ v, (a.step vf).Delivers v ↔ vf.Delivers v := by
  cases a with
  | mmio m =>
    rcases handlePtMmio_msix m vf with ⟨-, hsame⟩ | ⟨pos, -, -, hsame⟩
    · exact ⟨hsame.done.trans hdone, delivers_congr hsame.efd hsame.irqfds hsame.irqs⟩
    · exact ⟨hsame.done.trans hdone, delivers_congr hsame.efd hsame.irqfds hsame.irqs⟩
  | config reg len val io =>
    show (vf.ptConfigWrite io reg len val).msixRoutingDone = true ∧
      ∀ v, (vf.ptConfigWrite io reg len val).Delivers v ↔ vf.Delivers v
    unfold ptConfigWrite
    split
    · exact ⟨hdone, fun _ => Iff.rfl⟩
    · exact ⟨hdone, fun _ => Iff.rfl⟩
    · dsimp only
      rw [if_neg fun hl => by rw [hdone] at hl; cases hl.2]
      exact ⟨hdone, fun _ => Iff.rfl⟩
    · have hsame := sameMsix_pwriteRegion vf vfioPciConfigRegionIndex (.ofNat 64 reg) (leBytes len val.toNat)
      exact ⟨hsame.done.trans hdone, delivers_congr hsame.efd hsame.irqfds hsame.irqs⟩

/-! ### Runs -/

theorem delivers_run (hdone : vf.msixRoutingDone = true) (acts : List VfAct) (v : Nat) :
    (runSteps VfAct.step vf acts).Delivers v ↔ vf.Delivers v := by
  induction acts generalizing vf with
  | nil => rfl
  | cons a acts ih =>
    obtain ⟨hdone', hiff⟩ := delivers_step hdone a
    exact (ih hdone').trans (hiff v)

/-- The vectors delivered after a run are those that had an address when MSI-X was enabled for the first
time. -/
theorem Unarmed.delivers_iff (h : vf.Unarmed) {acts : List VfAct} (hio : ∀ a ∈ acts, a.IoctlsSucceed)
    (v : Nat) :
    (runSteps VfAct.step vf acts).Delivers v ↔ ∃ w, armedState vf acts = some w ∧ w.Programmed v := by
  induction acts generalizing vf with
  | nil =>
    refine iff_of_false ?_ fun ⟨w, hw, _⟩ => by cases hw
    rintro ⟨fd, -, -, fds, hirqs, -⟩
    exact absurd (h.irqs.symm.trans hirqs) (by simp)
  | cons a acts ih =>
    have hioa := hio a List.mem_cons_self
    unfold armedState runSteps
    by_cases ha : a.Arms vf
    · obtain ⟨hdone, hiff⟩ := h.delivers_of_arms hioa ha
      rw [if_pos ha, delivers_run hdone, hiff v]
      simp only [Option.some.injEq, exists_eq_left']
    · rw [if_neg ha]
      exact ih (h.step hioa ha) fun b hb => hio b (List.mem_cons_of_mem a hb)

end Vf

/-- In a run whose accesses fit, with all ioctls succeeding and not in slow-path mode: while MSI-X is
enabled and not masked, no vector that has an address is lost, if and only if every vector gets its
address in time.  Of what lies behind `msix_shadow` the model says nothing, hence the condition that the
accesses fit. -/
theorem noneLost_iff_timely (device : VfioDevice) (nextFd : Nat) (acts : List VfAct)
    (_hfits : AllSteps VfAct.step VfAct.Fits (vfioSetup device false nextFd) acts)
    (hio : ∀ a ∈ acts, a.IoctlsSucceed) :
    (∀ pre, pre <+: acts → (runSteps VfAct.step (vfioSetup device false nextFd) pre).NoneLost) ↔
      Timely (vfioSetup device false nextFd) acts := by
  have hunarmed := Vf.unarmed_vfioSetup device nextFd
  have hiff : ∀ pre, pre <+: acts → ∀ v,
      ((runSteps VfAct.step (vfioSetup device false nextFd) pre).Delivers v ↔
        ∃ w, armedState (vfioSetup device false nextFd) pre = some w ∧ w.Programmed v) :=
    fun pre hpre v => hunarmed.delivers_iff (fun a ha => hio a (hpre.subset ha)) v
  constructor
  · intro h pre hpre hlive v hv
    exact (hiff pre hpre v).1 (h pre hpre hlive v hv)
  · intro h pre hpre hlive v hv
    exact (hiff pre hpre v).2 (h pre hpre hlive v hv)

/-- The guest maps BAR 4, programs vector 0 and enables MSI-X. -/
def enableRun : List VfAct :=
  [.config 0x20 4 0xe0000000 ⟨fun _ => true, true⟩,
    .mmio (addrWriteAt 0xe0000000),
    .config 0x42 2 0x8001 ⟨fun _ => true, true⟩]

/-- The run fits, whatever the ioctls answer. -/
theorem enableRun_fits (io : Ioctls) : AllSteps VfAct.step VfAct.Fits (vfioSetup twoVectors false 3)
    [.config 0x20 4 0xe0000000 ⟨fun _ => true, true⟩, .mmio (addrWriteAt 0xe0000000), .config 0x42 2 0x8001 io] := by
  refine ⟨trivial, ?_, trivial, trivial⟩
  intro b hb
  have hb' : (VfAct.step (vfioSetup twoVectors false 3)
      (.config 0x20 4 0xe0000000 ⟨fun _ => true, true⟩)).barHit 0xe0000000 = some 4 := by
    decide +kernel
  obtain rfl := Option.some.inj (hb'.symm.trans hb)
  exact ⟨fun h => absurd h (by decide), fun _ _ => by decide +kernel⟩

theorem noneLost_iff_timely_enable :
    (∀ pre, pre <+: enableRun → (runSteps VfAct.step (vfioSetup twoVectors false 3) pre).NoneLost) ↔
      Timely (vfioSetup twoVectors false 3) enableRun := by
  refine noneLost_iff_timely twoVectors 3 enableRun (enableRun_fits _) ?_
  simp only [enableRun, List.forall_mem_cons, VfAct.IoctlsSucceed]
  simp

/-- Vector 1 gets its address after MSI-X has been enabled. -/
theorem not_noneLost :
    ¬∀ (device : VfioDevice) (nextFd : Nat) (acts : List VfAct), (∀ a ∈ acts, a.IoctlsSucceed) →
      ∀ pre, pre <+: acts → (runSteps VfAct.step (vfioSetup device false nextFd) pre).NoneLost := by
  intro h
  have hio : ∀ a ∈ enableRun ++ [.mmio addrWrite], a.IoctlsSucceed := by
    simp only [enableRun, List.forall_mem_append, List.forall_mem_cons, VfAct.IoctlsSucceed]
    simp
  have hlost := h twoVectors 3 (enableRun ++ [.mmio addrWrite]) hio _ List.prefix_rfl
  obtain ⟨fd, hfd, -⟩ := hlost (by decide +kernel) 1 (by decide +kernel)
  have hefd : (runSteps VfAct.step (vfioSetup twoVectors false 3)
      (enableRun ++ [.mmio addrWrite])).msixEfd 1 = -1 := by
    decide +kernel
  have := hefd.symm.trans hfd
  omega

end MiniVirt.Vmm
