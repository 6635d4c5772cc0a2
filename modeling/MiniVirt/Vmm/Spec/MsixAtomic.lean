import MiniVirt.Vmm.Spec.MsixArm

/-!
# Failed attempts to arm MSI-X

`msix_setup_irqs()` creates an eventfd for every vector that has an address, and binds it, before the call that may
fail, and then leaves all of them behind.  `armingAtomic_of_calm` says what must not happen.
-/

namespace MiniVirt.Vmm

/-! ### The law -/

/-- The step calls `msix_setup_irqs()`, with these answers of the ioctls. -/
def VfAct.Attempts (vf : Vf) (answers : Ioctls) : VfAct → Prop
  | .mmio _ => False
  | .config reg len val io => io = answers ∧ vf.configTarget reg len = .msgctl ∧ vf.msixRoutingDone = false ∧
      ({ vf with msixMsgctl := Vf.writeMsgctl vf.msixMsgctl (reg - (vf.msixCap + 2)) len val } : Vf).Live

namespace Vf

/-- Vector `v` has the eventfd `fd`, and no other is bound to its GSI. -/
structure Owns (vf : Vf) (v fd : Nat) : Prop where
  efd : vf.msixEfd v = fd
  bound : vf.irqfds.filter (fun e => e.2 = msixGsiBase + v) = [((fd : Int), msixGsiBase + v)]

/-- The eventfds that are open, all from `first` on since none is ever closed, are those of the vectors that have an
address, one each, and VFIO has them. -/
structure Armed (vf : Vf) (first : Nat) : Prop where
  owner : ∀ fd, first ≤ fd → fd < vf.nextFd → ∃ v, vf.Programmed v ∧ vf.Owns v fd
  owns : ∀ v, vf.Programmed v → ∃ fd, first ≤ fd ∧ fd < vf.nextFd ∧ vf.Owns v fd ∧
    ∃ fds, vf.irqs = some fds ∧ fds[v]? = some (fd : Int)
  apart : ∀ v w, vf.Programmed v → vf.Programmed w → vf.msixEfd v = vf.msixEfd w → v = w

/-- No eventfd is open. -/
structure Disarmed (vf : Vf) (first : Nat) : Prop where
  nextFd : vf.nextFd = first
  irqfds : vf.irqfds = []
  efd : ∀ v, vf.msixEfd v = -1

end Vf

/-- What a step leaves that tries to arm MSI-X; `first` is the descriptor that the first `eventfd()` has returned. -/
structure ArmingLaw (first : Nat) (vf : Vf) (a : VfAct) : Prop where
  failed : ∀ io, a.Attempts vf io → io.setIrqs = false → (a.step vf).Disarmed first
  succeeded : ∀ io, a.Attempts vf io → io.setIrqs = true → (a.step vf).Armed first

/-- The accesses of the step are inside the shadow table, an attempt that fails finds no vector with an address, and
one that succeeds binds all of them. -/
structure ArmsCalmly (vf : Vf) (a : VfAct) : Prop where
  fits : a.Fits vf
  failed : ∀ io, a.Attempts vf io → io.setIrqs = false → ∀ v, ¬vf.Programmed v
  succeeded : ∀ io, a.Attempts vf io → io.setIrqs = true →
    ∀ v, vf.Programmed v → vf.msixSlowpath = false ∧ io.irqfd v = true

namespace Vf

variable {vf vf' w : Vf} {io : Ioctls} {first : Nat}

/-! ### The loop -/

/-- After the loop over the first `n` vectors. -/
structure Filled (vf w : Vf) (first n : Nat) : Prop where
  first_le : first ≤ w.nextFd
  owner : ∀ fd, first ≤ fd → fd < w.nextFd → ∃ v, v < n ∧ ¬vf.Unprogrammed v ∧ w.Owns v fd
  owns : ∀ v, v < n → ¬vf.Unprogrammed v → ∃ fd, first ≤ fd ∧ fd < w.nextFd ∧ w.Owns v fd
  apart : ∀ u v, u < n → v < n → ¬vf.Unprogrammed u → ¬vf.Unprogrammed v → w.msixEfd u = w.msixEfd v → u = v
  later : ∀ v, n ≤ v → w.irqfds.filter (fun e => e.2 = msixGsiBase + v) = []

/-- A vector without an address changes nothing. -/
theorem Filled.skip {n : Nat} (h : Filled vf w first n) (hn : vf.Unprogrammed n) : Filled vf w first (n + 1) := by
  have hlt (v : Nat) (hv : v < n + 1) (hprog : ¬vf.Unprogrammed v) : v < n := by
    by_contra hge
    obtain rfl : v = n := by omega
    exact hprog hn
  refine ⟨h.first_le, fun fd hlo hhi => ?_, fun v hv hprog => h.owns v (hlt v hv hprog) hprog,
    fun u v hu hv hpu hpv => h.apart u v (hlt u hu hpu) (hlt v hv hpv) hpu hpv, fun v hv => h.later v (by omega)⟩
  obtain ⟨v, hv, howner⟩ := h.owner fd hlo hhi
  exact ⟨v, by omega, howner⟩

/-- The state after vector `n` has got its eventfd. -/
def addEfd (w : Vf) (n : Nat) : Vf :=
  { w with
    msixEfd := Function.update w.msixEfd n w.nextFd
    irqfds := w.irqfds ++ [((w.nextFd : Int), msixGsiBase + n)]
    nextFd := w.nextFd + 1 }

theorem owns_addEfd_of_ne {n v : Nat} (hv : v ≠ n) (fd : Nat) : (w.addEfd n).Owns v fd ↔ w.Owns v fd := by
  have hefd : (w.addEfd n).msixEfd v = w.msixEfd v := Function.update_of_ne hv ..
  have hirqfds : (w.addEfd n).irqfds.filter (fun e => e.2 = msixGsiBase + v) =
      w.irqfds.filter fun e => e.2 = msixGsiBase + v := by
    show (w.irqfds ++ [_]).filter _ = _
    rw [List.filter_append, List.filter_cons_of_neg (by simpa using fun h : n = v => hv h.symm), List.filter_nil,
      List.append_nil]
  constructor
  · rintro ⟨he, hb⟩
    exact ⟨hefd.symm.trans he, hirqfds.symm.trans hb⟩
  · rintro ⟨he, hb⟩
    exact ⟨hefd.trans he, hirqfds.trans hb⟩

theorem Filled.add {n : Nat} (h : Filled vf w first n) (hn : ¬vf.Unprogrammed n) :
    Filled vf (w.addEfd n) first (n + 1) := by
  have hnext : (w.addEfd n).nextFd = w.nextFd + 1 := rfl
  have hnew : (w.addEfd n).Owns n w.nextFd := by
    refine ⟨Function.update_self .., ?_⟩
    show (w.irqfds ++ [_]).filter _ = _
    rw [List.filter_append, h.later n (Nat.le_refl n), List.filter_cons_of_pos (by simp), List.filter_nil,
      List.nil_append]
  have hold (v : Nat) (hv : v < n) (fd : Nat) : (w.addEfd n).Owns v fd ↔ w.Owns v fd := owns_addEfd_of_ne (by omega) fd
  -- the new descriptor is greater than all others
  have hfresh (v : Nat) (hv : v < n) (hprog : ¬vf.Unprogrammed v) :
      (w.addEfd n).msixEfd v ≠ (w.addEfd n).msixEfd n := by
    obtain ⟨fd, -, hhi, howns⟩ := h.owns v hv hprog
    rw [((hold v hv fd).2 howns).efd, hnew.efd]
    omega
  refine ⟨by have := h.first_le; omega, fun fd hlo hhi => ?_, fun v hv hprog => ?_, fun u v hu hv hpu hpv heq => ?_,
    fun v hv => ?_⟩
  · by_cases hfd : fd < w.nextFd
    · obtain ⟨v, hv, hprog, howns⟩ := h.owner fd hlo hfd
      exact ⟨v, by omega, hprog, (hold v hv fd).2 howns⟩
    · obtain rfl : fd = w.nextFd := by omega
      exact ⟨n, Nat.lt_succ_self n, hn, hnew⟩
  · by_cases hvn : v < n
    · obtain ⟨fd, hlo, hhi, howns⟩ := h.owns v hvn hprog
      exact ⟨fd, hlo, by omega, (hold v hvn fd).2 howns⟩
    · obtain rfl : v = n := by omega
      exact ⟨w.nextFd, h.first_le, by omega, hnew⟩
  · obtain hun | rfl := Nat.lt_or_eq_of_le (Nat.le_of_lt_succ hu)
    · obtain hvn | rfl := Nat.lt_or_eq_of_le (Nat.le_of_lt_succ hv)
      · have hu' : (w.addEfd n).msixEfd u = w.msixEfd u := Function.update_of_ne (by omega) ..
        have hv' : (w.addEfd n).msixEfd v = w.msixEfd v := Function.update_of_ne (by omega) ..
        exact h.apart u v hun hvn hpu hpv (hu'.symm.trans (heq.trans hv'))
      · exact absurd heq (hfresh u hun hpu)
    · obtain hvn | rfl := Nat.lt_or_eq_of_le (Nat.le_of_lt_succ hv)
      · exact absurd heq.symm (hfresh v hvn hpv)
      · rfl
  · show (w.irqfds ++ [_]).filter _ = _
    rw [List.filter_append, h.later v (by omega), List.filter_cons_of_neg (by simp; omega), List.filter_nil,
      List.nil_append]

/-- The loop leaves a vector alone that has no address. -/
theorem setupVectors_of_unprogrammed (io : Ioctls) (vf : Vf) (n : Nat) (h : ∀ v, v < n → vf.Unprogrammed v) :
    setupVectors io vf n = vf := by
  induction n with
  | zero => rfl
  | succ n ih =>
    rw [setupVectors_succ, ih fun v hv => h v (by omega)]
    exact if_pos (h n (Nat.lt_succ_self n))

theorem filled_setupVectors {n : Nat}
    (hbinds : ∀ v, v < n → ¬vf.Unprogrammed v → vf.msixSlowpath = false ∧ io.irqfd v = true)
    (hfirst : vf.nextFd = first) (hirqfds : vf.irqfds = []) : Filled vf (setupVectors io vf n) first n := by
  induction n with
  | zero =>
    refine ⟨hfirst.ge, fun fd hlo hhi => ?_, fun v hv => absurd hv (Nat.not_lt_zero v),
      fun u _ hu => absurd hu (Nat.not_lt_zero u), fun v _ => ?_⟩
    · have hnext : (setupVectors io vf 0).nextFd = first := hfirst
      omega
    · show vf.irqfds.filter _ = []
      rw [hirqfds, List.filter_nil]
  | succ n ih =>
    have hsame := setupVectors_same io vf n
    have hfilled := ih fun v hv => hbinds v (by omega)
    rw [setupVectors_succ]
    by_cases hn : vf.Unprogrammed n
    · have hskip : (setupVectors io vf n).setupVector io n = setupVectors io vf n :=
        if_pos ((unprogrammed_congr hsame.shadow n).2 hn)
      rw [hskip]
      exact hfilled.skip hn
    · obtain ⟨hslow, hirqfd⟩ := hbinds n (Nat.lt_succ_self n) hn
      have hadd : (setupVectors io vf n).setupVector io n = (setupVectors io vf n).addEfd n := by
        unfold setupVector addEfd
        rw [if_neg (mt (unprogrammed_congr hsame.shadow n).1 hn), if_pos ⟨hsame.slowpath.trans hslow, hirqfd⟩]
      rw [hadd]
      exact hfilled.add hn

/-! ### An attempt -/

theorem owns_congr (hefd : vf'.msixEfd = vf.msixEfd) (hirqfds : vf'.irqfds = vf.irqfds) (v fd : Nat) :
    vf'.Owns v fd ↔ vf.Owns v fd := by
  constructor
  · rintro ⟨he, hb⟩
    exact ⟨by rw [← hefd]; exact he, by rw [← hirqfds]; exact hb⟩
  · rintro ⟨he, hb⟩
    exact ⟨by rw [hefd]; exact he, by rw [hirqfds]; exact hb⟩

/-- A failed attempt that has found no vector with an address leaves nothing. -/
theorem Disarmed.msixSetupIrqs (h : vf.Disarmed first) (hio : io.setIrqs = false) (hnone : ∀ v, ¬vf.Programmed v) :
    (vf.msixSetupIrqs io).Disarmed first ∧ (vf.msixSetupIrqs io).msixRoutingDone = vf.msixRoutingDone := by
  have hloop : setupVectors io vf.msixUpdateRoutes vf.nr = vf.msixUpdateRoutes := by
    refine setupVectors_of_unprogrammed io vf.msixUpdateRoutes vf.nr fun v hv => ?_
    by_contra hprog
    exact hnone v ⟨hv, hprog⟩
  have hrun : vf.msixSetupIrqs io = { setupVectors io vf.msixUpdateRoutes vf.nr with
      accesses := (setupVectors io vf.msixUpdateRoutes vf.nr).accesses ++
        (List.range (setupVectors io vf.msixUpdateRoutes vf.nr).nr).flatMap entryAccesses } := by
    unfold Vf.msixSetupIrqs
    dsimp only
    rw [if_neg (by rw [hio]; decide)]
    rfl
  rw [hrun, hloop]
  exact ⟨⟨h.nextFd, h.irqfds, h.efd⟩, rfl⟩

/-- A successful attempt arms the vectors that have an address. -/
theorem Disarmed.armed (h : vf.Disarmed first) (hio : io.setIrqs = true)
    (hbinds : ∀ v, vf.Programmed v → vf.msixSlowpath = false ∧ io.irqfd v = true) :
    (vf.msixSetupIrqs io).Armed first ∧ (vf.msixSetupIrqs io).msixRoutingDone = true := by
  have hsame := sameMsix_msixSetupIrqs hio vf
  have hvectors := setupVectors_same io vf.msixUpdateRoutes vf.nr
  have hfilled : Filled vf.msixUpdateRoutes (setupVectors io vf.msixUpdateRoutes vf.nr) first vf.nr :=
    filled_setupVectors (fun v hv hprog => hbinds v ⟨hv, hprog⟩) h.nextFd h.irqfds
  have hprog (v : Nat) : (vf.msixSetupIrqs io).Programmed v ↔ v < vf.nr ∧ ¬vf.msixUpdateRoutes.Unprogrammed v := by
    unfold Programmed
    rw [nr_congr (hsame.nr.trans hvectors.nr), unprogrammed_congr (hsame.shadow.trans hvectors.shadow)]
    rfl
  have howns (v fd : Nat) : (vf.msixSetupIrqs io).Owns v fd ↔
      (setupVectors io vf.msixUpdateRoutes vf.nr).Owns v fd := by
    have harmed : (vf.armed io).Owns v fd ↔ (setupVectors io vf.msixUpdateRoutes vf.nr).Owns v fd :=
      ⟨fun ho => ⟨ho.efd, ho.bound⟩, fun ho => ⟨ho.efd, ho.bound⟩⟩
    exact (owns_congr hsame.efd hsame.irqfds v fd).trans harmed
  have hnext : (vf.msixSetupIrqs io).nextFd = (setupVectors io vf.msixUpdateRoutes vf.nr).nextFd := hsame.nextFd
  refine ⟨⟨fun fd hlo hhi => ?_, fun v hv => ?_, fun v w hv hw heq => ?_⟩, hsame.done⟩
  · rw [hnext] at hhi
    obtain ⟨v, hv, hv', ho⟩ := hfilled.owner fd hlo hhi
    exact ⟨v, (hprog v).2 ⟨hv, hv'⟩, (howns v fd).2 ho⟩
  · obtain ⟨hlt, hv'⟩ := (hprog v).1 hv
    obtain ⟨fd, hlo, hhi, ho⟩ := hfilled.owns v hlt hv'
    refine ⟨fd, hlo, by rwa [hnext], (howns v fd).2 ho, _, hsame.irqs, ?_⟩
    show ((List.range vf.nr).map _)[v]? = _
    rw [List.getElem?_map, List.getElem?_range hlt, Option.map_some]
    exact congrArg some ho.efd
  · obtain ⟨hlt, hv'⟩ := (hprog v).1 hv
    obtain ⟨hlt', hw'⟩ := (hprog w).1 hw
    rw [hsame.efd] at heq
    exact hfilled.apart v w hlt hlt' hv' hw' heq

/-! ### Runs -/

/-- As long as no attempt has succeeded, no eventfd is open. -/
structure Idle (vf : Vf) (first : Nat) : Prop where
  nextFd : vf.msixRoutingDone = false → vf.nextFd = first
  irqfds : vf.msixRoutingDone = false → vf.irqfds = []
  efd : vf.msixRoutingDone = false → vf.msixCap ≠ 0 → ∀ v, vf.msixEfd v = -1

theorem idle_vfioSetup (device : VfioDevice) (slowpath : Bool) (first : Nat) :
    (vfioSetup device slowpath first).Idle first :=
  ⟨fun _ => rfl, fun _ => rfl, fun _ hcap _ => if_neg hcap⟩

theorem Idle.of_same (h : vf.Idle first) (hsame : SameMsix vf vf') : vf'.Idle first := by
  constructor
  · exact fun hdone => hsame.nextFd.trans (h.nextFd (hsame.done ▸ hdone))
  · exact fun hdone => hsame.irqfds.trans (h.irqfds (hsame.done ▸ hdone))
  · exact fun hdone hcap v => (congrFun hsame.efd v).trans (h.efd (hsame.done ▸ hdone) (hsame.cap ▸ hcap) v)

end Vf

/-- The call that an attempt makes. -/
theorem VfAct.Attempts.step_eq {vf : Vf} {io : Ioctls} {a : VfAct} (ha : a.Attempts vf io) :
    ∃ mc, a.step vf = ({ vf with msixMsgctl := mc } : Vf).msixSetupIrqs io := by
  cases a with
  | mmio m => exact ha.elim
  | config reg len val io' =>
    obtain ⟨rfl, htarget, hdone, hlive⟩ := ha
    refine ⟨Vf.writeMsgctl vf.msixMsgctl (reg - (vf.msixCap + 2)) len val, ?_⟩
    show vf.ptConfigWrite io' reg len val = _
    unfold Vf.ptConfigWrite
    rw [htarget]
    dsimp only
    rw [if_pos ⟨hlive, hdone⟩]

theorem VfAct.Attempts.unarmed {vf : Vf} {io : Ioctls} {a : VfAct} (ha : a.Attempts vf io) :
    vf.msixCap ≠ 0 ∧ vf.msixRoutingDone = false := by
  cases a with
  | mmio m => exact ha.elim
  | config reg len val io' => exact ⟨Vf.cap_of_configTarget ha.2.1, ha.2.2.1⟩

/-- An attempt starts without any eventfd. -/
theorem Vf.Idle.attempt {vf : Vf} {first : Nat} {io : Ioctls} {a : VfAct} (h : vf.Idle first) (ha : a.Attempts vf io) :
    ∃ mc, ({ vf with msixMsgctl := mc } : Vf).Disarmed first ∧
      a.step vf = ({ vf with msixMsgctl := mc } : Vf).msixSetupIrqs io := by
  obtain ⟨mc, hstep⟩ := ha.step_eq
  obtain ⟨hcap, hdone⟩ := ha.unarmed
  exact ⟨mc, ⟨h.nextFd hdone, h.irqfds hdone, h.efd hdone hcap⟩, hstep⟩

/-- A step that does not try leaves the eventfds alone. -/
theorem Vf.Idle.step_of_not_attempts {vf : Vf} {first : Nat} {a : VfAct} (h : vf.Idle first)
    (ha : ∀ io, ¬a.Attempts vf io) : (a.step vf).Idle first := by
  cases a with
  | mmio m =>
    obtain ⟨-, hsame⟩ | ⟨pos, -, -, hsame⟩ := Vf.handlePtMmio_msix m vf
    · exact h.of_same hsame
    · have hprog : (vf.programmed pos m).Idle first := ⟨h.nextFd, h.irqfds, h.efd⟩
      exact hprog.of_same hsame
  | config reg len val io =>
    show (vf.ptConfigWrite io reg len val).Idle first
    unfold Vf.ptConfigWrite
    cases htarget : vf.configTarget reg len with
    | barHi b => exact ⟨h.nextFd, h.irqfds, h.efd⟩
    | barLo b => exact ⟨h.nextFd, h.irqfds, h.efd⟩
    | msgctl =>
      dsimp only
      rw [if_neg fun hl => ha io ⟨rfl, htarget, hl.2, hl.1⟩]
      exact ⟨h.nextFd, h.irqfds, h.efd⟩
    | device => exact h.of_same (Vf.sameMsix_pwriteRegion ..)

theorem VfAct.Attempts.unique {vf : Vf} {io io' : Ioctls} {a : VfAct} (h : a.Attempts vf io)
    (h' : a.Attempts vf io') : io = io' := by
  cases a with
  | mmio m => exact h.elim
  | config reg len val io'' => exact h.1.symm.trans h'.1

/-- One step of a run. -/
theorem ArmsCalmly.step {vf : Vf} {first : Nat} {a : VfAct} (h : vf.Idle first) (ha : ArmsCalmly vf a) :
    (a.step vf).Idle first ∧ ArmingLaw first vf a := by
  by_cases hattempt : ∃ io, a.Attempts vf io
  · obtain ⟨io, hio⟩ := hattempt
    obtain ⟨mc, hdisarmed, hstep⟩ := h.attempt hio
    rw [hstep]
    cases hset : io.setIrqs with
    | false =>
      obtain ⟨hleft, -⟩ := hdisarmed.msixSetupIrqs hset (ha.failed io hio hset)
      refine ⟨⟨fun _ => hleft.nextFd, fun _ => hleft.irqfds, fun _ _ => hleft.efd⟩, ⟨fun _ _ _ => ?_, ?_⟩⟩
      · rw [hstep]
        exact hleft
      · intro io' hio' hset'
        rw [← hio.unique hio', hset] at hset'
        cases hset'
    | true =>
      obtain ⟨harmed, hdone⟩ := hdisarmed.armed hset (ha.succeeded io hio hset)
      refine ⟨⟨?_, ?_, ?_⟩, ⟨?_, fun _ _ _ => ?_⟩⟩
      · exact fun h => absurd (hdone.symm.trans h) (by decide)
      · exact fun h => absurd (hdone.symm.trans h) (by decide)
      · exact fun h => absurd (hdone.symm.trans h) (by decide)
      · intro io' hio' hset'
        rw [← hio.unique hio', hset] at hset'
        cases hset'
      · rw [hstep]
        exact harmed
  · exact ⟨h.step_of_not_attempts fun io hio => hattempt ⟨io, hio⟩, fun io hio => absurd ⟨io, hio⟩ hattempt,
      fun io hio => absurd ⟨io, hio⟩ hattempt⟩

theorem armingAtomic_of_calm (device : VfioDevice) (slowpath : Bool) (first : Nat) (acts : List VfAct)
    (h : AllSteps VfAct.step ArmsCalmly (vfioSetup device slowpath first) acts) :
    AllSteps VfAct.step (ArmingLaw first) (vfioSetup device slowpath first) acts :=
  AllSteps.mono (fun _ _ hidle ha => ha.step hidle) (Vf.idle_vfioSetup device slowpath first) h

theorem armingAtomic_of_calm_enable :
    AllSteps VfAct.step (ArmingLaw 3) (vfioSetup twoVectors false 3) enableRun := by
  refine armingAtomic_of_calm twoVectors false 3 enableRun ?_
  obtain ⟨hmap, hwrite, henable, -⟩ := enableRun_fits ⟨fun _ => true, true⟩
  refine ⟨⟨hmap, fun io hio => ?_, fun io hio => ?_⟩, ⟨hwrite, fun io hio => hio.elim, fun io hio => hio.elim⟩,
    ⟨henable, fun io hio hset => ?_, fun io hio _ v _ => ⟨by decide +kernel, ?_⟩⟩, trivial⟩
  · exact absurd hio.2.1 (by decide +kernel)
  · exact absurd hio.2.1 (by decide +kernel)
  · rw [← hio.1] at hset
    cases hset
  · rw [← hio.1]

/-- The call of SET_IRQS fails when vector 0 has its eventfd. -/
theorem not_armingAtomic : ¬∀ (device : VfioDevice) (first : Nat) (acts : List VfAct),
    AllSteps VfAct.step VfAct.Fits (vfioSetup device false first) acts →
      AllSteps VfAct.step (ArmingLaw first) (vfioSetup device false first) acts := by
  intro h
  obtain ⟨-, -, hlaw, -⟩ := h twoVectors 3 _ (enableRun_fits ⟨fun _ => true, false⟩)
  have hleft := hlaw.failed ⟨fun _ => true, false⟩ ⟨rfl, by decide +kernel, by decide +kernel, by decide +kernel⟩ rfl
  exact absurd hleft.nextFd (by decide +kernel)

end MiniVirt.Vmm
