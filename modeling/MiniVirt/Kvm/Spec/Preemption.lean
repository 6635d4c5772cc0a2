import MiniVirt.Kvm.Spec.SetupThread

/-!
# The setup law over runs

The setups, the calls for other vCPUs and the migrations preserve `Sched.Inv` as long as no setup is disturbed,
and with it every step of a setup meets the law.
-/

namespace MiniVirt.Kvm

instance : DecidablePred SetupPc.IsWrite
  | .vmwrite _ _ _ _ => isTrue trivial
  | .vmclear | .vmptrld | .recordCpu | .computeControls | .value _ _ | .unload _ | .freePage _ | .returned _ =>
    isFalse id

namespace Sched

variable {x : Sched} {u : VcpuId} {t : SetupThread}

/-! ### Holders -/

theorem holder_of_setup (ht : x.setup u = some t) :
    x.holder u = if t.vcpu.vmcsPage.isSome then some t.vmx else none := by
  simp only [holder, ht]

theorem holder_of_none (hu : x.setup u = none) : x.holder u = x.world.vcpuVmx u := by
  simp only [holder, hu]

theorem holder_of_page {page : Pfn} (ht : x.setup u = some t) (hpage : t.vcpu.vmcsPage = some page) :
    x.holder u = some t.vmx := by
  rw [holder_of_setup ht, hpage]
  rfl

/-- What a setup that is under way has loaded. -/
theorem Inv.loaded (h : x.Inv) (ht : x.setup u = some t) (hpage : t.vcpu.vmcsPage = some t.page) :
    t.Loaded x.world.hw.vmx x.world.lastLoad := by
  have hu := holder_of_page ht hpage
  have hphys : t.vmx.vmcsPhys = pageToPhys t.page := (h.setup ht).2.phys
  refine ⟨fun {d} hd => ?_, fun {d} hd => ?_, fun {d} hd => h.active.reachable hu d hd⟩
  · rw [← hphys]
    exact h.load.loaded hu hd
  · rw [← hphys] at hd
    exact h.active.mirrors hu d hd

/-- Two holders have different pages. -/
theorem Inv.page_ne (h : x.Inv) {u' : VcpuId} {v : VcpuVmx} (ht : x.setup u = some t)
    (hpage : t.vcpu.vmcsPage = some t.page) (hu : u' ≠ u) (hv : x.holder u' = some v) :
    v.vmcsPhys ≠ pageToPhys t.page := by
  intro heq
  have hphys : t.vmx.vmcsPhys = pageToPhys t.page := (h.setup ht).2.phys
  exact hu (h.load.pages.distinct hv (holder_of_page ht hpage) (heq.trans hphys.symm))

theorem lastLoad_finish (w : World) (u : VcpuId) (m : VmId) (s : St) (v : Option MiniKvmVcpu) :
    (w.finish u m s v).lastLoad = s.trace.foldl loadAfter w.lastLoad :=
  List.foldl_append ..

/-- When a setup returns with 0, its values are in its VMCS. -/
theorem Inv.kept_of_returned (h : x.Inv) (ht : x.setup u = some t) (hpc : t.pc = .returned 0) :
    t.Kept x.world.hw := by
  refine h.kept ht ?_
  have hstage := (h.setup ht).2.stage
  unfold SetupThread.Stage at hstage
  rw [hpc] at hstage
  rw [hstage.1]
  rfl

/-! ### Steps of the setups -/

theorem exec_step {pc : SetupPc} {s : St} (ht : x.setup u = some t)
    (h : (setupStep t.page t.call t.pc).run (x.world.call t.cpu t.vm t.vcpu []) = (pc, s)) :
    x.exec (.step u) =
      (⟨x.world.finish u t.vm s none, Function.update x.setup u (some (t.after pc s))⟩, s.trace) := by
  simp only [exec, ht, h]

/-- A setup that has returned stays as it is. -/
theorem exec_step_returned {r : Int} (ht : x.setup u = some t) (hpc : t.pc = .returned r)
    (hu : x.world.vcpu u = none) : x.exec (.step u) = (x, []) := by
  have hrun : (setupStep t.page t.call t.pc).run (x.world.call t.cpu t.vm t.vcpu []) =
      (.returned r, x.world.call t.cpu t.vm t.vcpu []) := by
    rw [hpc]
    rfl
  have hafter : t.after (.returned r) (x.world.call t.cpu t.vm t.vcpu []) = t := by
    obtain ⟨cpu, vm, page, vcpu, call, pc, loadCpu, written⟩ := t
    dsimp only at hpc
    subst hpc
    rfl
  have hworld : x.world.finish u t.vm (x.world.call t.cpu t.vm t.vcpu []) none = x.world := by
    unfold World.finish World.call
    rw [Function.update_eq_self, Option.map_none, ← hu, Function.update_eq_self, List.append_nil]
  rw [exec_step ht hrun, hafter, hworld, ← ht, Function.update_eq_self]
  rfl

variable {pc : SetupPc} {s : St}

/-- A step of the setup writes the fields of its own VMCS only. -/
theorem step_field (h : (setupStep t.page t.call t.pc).run (x.world.call t.cpu t.vm t.vcpu []) = (pc, s))
    (hcur : t.pc.IsWrite → x.world.hw.vmx.current t.cpu = some (pageToPhys t.page)) {q : Phys}
    (hq : q ≠ pageToPhys t.page) : (s.hw.vmcs q).field = (x.world.hw.vmcs q).field := by
  have hs : s = ((setupStep t.page t.call t.pc).run (x.world.call t.cpu t.vm t.vcpu [])).2 := by rw [h]
  rw [hs]
  by_cases hw : t.pc.IsWrite
  · specialize hcur hw
    generalize t.pc = pc₀ at hw hs ⊢
    cases pc₀ with
    | vmwrite d k f v =>
      rw [setupStep_write (x.world.call t.cpu t.vm t.vcpu []) t.page t.call d k f v hcur q, if_neg hq]
      rfl
    | _ => exact hw.elim
  · exact setupStep_field t.page t.call hw _ q

/-- What the setup has written stays in its VMCS. -/
theorem step_kept (h : (setupStep t.page t.call t.pc).run (x.world.call t.cpu t.vm t.vcpu []) = (pc, s))
    (hcur : t.pc.IsWrite → x.world.hw.vmx.current t.cpu = some (pageToPhys t.page)) (hkept : t.Kept x.world.hw) :
    (t.after pc s).Kept s.hw := by
  have hs : s = ((setupStep t.page t.call t.pc).run (x.world.call t.cpu t.vm t.vcpu [])).2 := by rw [h]
  intro g a hg
  show (s.hw.vmcs (pageToPhys t.page)).field g = a
  rw [hs]
  unfold SetupThread.after at hg
  by_cases hw : t.pc.IsWrite
  · specialize hcur hw
    generalize t.pc = pc₀ at hw hs hg ⊢
    cases pc₀ with
    | vmwrite d k f v =>
      rw [setupStep_write (x.world.call t.cpu t.vm t.vcpu []) t.page t.call d k f v hcur, if_pos rfl]
      dsimp only at hg
      rw [lastWrites_append] at hg
      by_cases hgf : g = f
      · subst hgf
        rw [Function.update_self] at hg ⊢
        exact Option.some.inj hg
      · rw [Function.update_of_ne hgf] at hg ⊢
        exact hkept g a hg
    | _ => exact hw.elim
  · rw [setupStep_field t.page t.call hw _ (pageToPhys t.page)]
    refine hkept g a ?_
    generalize t.pc = pc₀ at hw hg
    cases pc₀ with
    | vmwrite d k f v => exact absurd trivial hw
    | _ => exact hg

/-- The setup `u` has come to `t'`, with the events `l`. -/
structure Advance (x x' : Sched) (u : VcpuId) (t' : SetupThread) (l : List Event) : Prop where
  lastLoad : x'.world.lastLoad = l.foldl loadAfter x.world.lastLoad
  setup : x'.setup = Function.update x.setup u (some t')
  vcpu : x'.world.vcpu = Function.update x.world.vcpu u none
  holders : (l.foldl Vmx.replay x.world.hw.vmx).SameHolders x'.world.hw.vmx
  about : ∀ e ∈ l, e.About (pageToPhys t'.page)
  active : ∀ {d q}, x'.world.hw.vmx.active d q = true → x.world.hw.vmx.active d q = true ∨ q = pageToPhys t'.page
  field : ∀ {q}, q ≠ pageToPhys t'.page → (x'.world.hw.vmcs q).field = (x.world.hw.vmcs q).field
  own : ∀ {v}, x.holder u = some v → v.vmcsPhys = pageToPhys t'.page
  other : ∀ {u' v}, u' ≠ u → x.holder u' = some v → v.vmcsPhys ≠ pageToPhys t'.page
  ok : t'.Ok x'.world.hw.vmx
  loaded : t'.Loaded x'.world.hw.vmx x'.world.lastLoad
  kept : t'.vcpu.vmcsPage.isSome → t'.Kept x'.world.hw

section Advance

variable {x' : Sched} {t' : SetupThread} {l : List Event}

theorem Advance.holderStep (h : Advance x x' u t' l) :
    HolderStep x.world.hw.vmx x'.world.hw.vmx x.holder x'.holder u (pageToPhys t'.page) l where
  holders := h.holders
  about := h.about
  others := by
    intro u' hu
    unfold holder World.vcpuVmx
    rw [h.setup, h.vcpu, Function.update_of_ne hu, Function.update_of_ne hu]
  own := h.own
  other := h.other
  own' := by
    intro v hv
    have ht : x'.setup u = some t' := by rw [h.setup, Function.update_self]
    rw [holder_of_setup ht] at hv
    split at hv
    · rename_i hsome
      rw [← Option.some.inj hv]
      exact ⟨h.ok.phys, t'.page, h.ok.stage.page_of_isSome hsome, h.ok.phys⟩
    · cases hv

theorem Advance.inv (h : Advance x x' u t' l) (hinv : x.Inv) : x'.Inv := by
  have ht : x'.setup u = some t' := by rw [h.setup, Function.update_self]
  have hholder : ∀ {d}, t'.loadCpu = some d → x'.holder u = some t'.vmx := fun hd =>
    holder_of_page ht (h.ok.stage.page hd)
  -- among the holders the setup counts with the state of its own call
  have hvmx : ∀ {v}, x'.holder u = some v → v = t'.vmx := by
    intro v hv
    rw [holder_of_setup ht] at hv
    split at hv
    · exact (Option.some.inj hv).symm
    · cases hv
  have honline : x'.world.hw.vmx.online = x.world.hw.vmx.online ∧
      x'.world.hw.vmx.vmxonDone = x.world.hw.vmx.vmxonDone := by
    obtain ⟨honline, hvmxon⟩ := foldl_replay_online l x.world.hw.vmx
    exact ⟨h.holders.online.trans honline, h.holders.vmxonDone.trans hvmxon⟩
  refine ⟨?_, ?_, (hinv.current.foldl l).congr h.holders, fun {u' t₁} hu' => ?_, fun {u' t₁} hu' hpage => ?_⟩
  · rw [h.lastLoad]
    refine h.holderStep.loadInv hinv.load fun hv hd => ?_
    rw [hvmx hv] at hd
    rw [← h.lastLoad]
    exact h.loaded.current hd
  · refine h.holderStep.activeInv hinv.active h.active (fun hd => ?_) fun hv d hd => ?_
    · have hl := h.loaded.mirrors hd
      exact ⟨_, hholder hl, hl⟩
    · rw [hvmx hv] at hd
      exact h.loaded.reachable hd
  · by_cases hu : u' = u
    · subst hu
      cases Option.some.inj (ht.symm.trans hu')
      exact ⟨by rw [h.vcpu, Function.update_self], h.ok⟩
    · rw [h.setup, Function.update_of_ne hu] at hu'
      obtain ⟨hvcpu, hok⟩ := hinv.setup hu'
      exact ⟨by rw [h.vcpu, Function.update_of_ne hu]; exact hvcpu, hok.congr honline.1 honline.2⟩
  · by_cases hu : u' = u
    · subst hu
      cases Option.some.inj (ht.symm.trans hu')
      exact h.kept hpage
    · rw [h.setup, Function.update_of_ne hu] at hu'
      have hok := (hinv.setup hu').2
      have hne : pageToPhys t₁.page ≠ pageToPhys t'.page := by
        rw [← hok.phys]
        exact h.other hu (holder_of_page hu' (hok.stage.page_of_isSome hpage))
      intro g a hg
      rw [h.field hne]
      exact hinv.kept hu' hpage g a hg

end Advance

/-- A step of a setup that has not returned. -/
theorem Inv.step_setup (h : x.Inv) (ht : x.setup u = some t) (hpc : ∀ r, t.pc ≠ .returned r)
    (hund : x.Undisturbed (.step u)) : (x.step (.step u)).Inv ∧ x.SetupLaw (.step u) := by
  obtain ⟨hvcpu, hok⟩ := h.setup ht
  obtain ⟨hrecord, hwrite⟩ := hund t ht
  have hpage : t.vcpu.vmcsPage = some t.page := by
    have hstage := hok.stage
    unfold SetupThread.Stage at hstage
    split at hstage
    · exact hstage.1
    · exact hstage.1
    · exact hstage
    · exact hstage.1
    · exact hstage.1
    · exact hstage.1
    · exact hstage.1
    · exact hstage.1
    · rename_i r heq
      exact absurd heq (hpc r)
  have hloaded := h.loaded ht hpage
  have hcur : t.pc.IsWrite → x.world.hw.vmx.current t.cpu = some (pageToPhys t.page) := fun hw =>
    hloaded.current (hwrite hw).1 (hwrite hw).2
  obtain ⟨y, w', l, hmove, heff⟩ := setupStep_move (x.world.call t.cpu t.vm t.vcpu []) t.page t.call t.pc
  generalize hrun : (setupStep t.page t.call t.pc).run (x.world.call t.cpu t.vm t.vcpu []) = z at hmove heff
  obtain ⟨pc, s⟩ := z
  dsimp only at hmove heff
  have hfield := fun {q} => step_field (q := q) hrun hcur
  have hkept := step_kept hrun hcur
  have hexec := exec_step ht hrun
  obtain rfl : s.hw.vmx = y := heff.vmx
  obtain rfl : s.vcpu.vmx = w' := heff.vcpu
  obtain rfl : s.trace = l := heff.trace
  -- what the step does to the setup itself
  have hstage := hok.stage.after hmove hrecord
  obtain ⟨hloaded', hothers⟩ := hloaded.after hok hmove
  obtain ⟨hholders, habout⟩ := hmove.follows hok.phys
  have hphys : s.vcpu.vmx.vmcsPhys = pageToPhys t.page := hmove.phys.trans hok.phys
  have hadvance : Advance x (x.step (.step u)) u (t.after pc s) s.trace := by
    have honline : s.hw.vmx.online = x.world.hw.vmx.online ∧ s.hw.vmx.vmxonDone = x.world.hw.vmx.vmxonDone := by
      obtain ⟨honline, hvmxon⟩ := foldl_replay_online s.trace x.world.hw.vmx
      exact ⟨hholders.online.trans honline, hholders.vmxonDone.trans hvmxon⟩
    unfold step
    rw [hexec]
    refine ⟨?_, rfl, rfl, hholders, habout, hothers, hfield, fun hv => ?_,
      fun hu hv => h.page_ne (t := t) ht hpage hu hv, ?_, ?_, fun _ => ?_⟩
    · exact lastLoad_finish ..
    · rw [holder_of_page ht hpage] at hv
      rw [← Option.some.inj hv]
      exact hok.phys
    · exact ⟨hphys, (hok.congr honline.1 honline.2).cpu, hok.unloadOk, hstage⟩
    · dsimp only
      rw [lastLoad_finish]
      exact hloaded'
    · exact hkept (h.kept ht (by rw [hpage]; rfl))
  have hinv := hadvance.inv h
  refine ⟨hinv, ?_, fun u' t' hu' hpc' => hinv.kept_of_returned hu' hpc', ?_⟩
  · intro u' t' heq ht' e he
    cases heq
    cases Option.some.inj (ht.symm.trans ht')
    have he' : e ∈ s.trace := by
      unfold events at he
      rwa [hexec] at he
    exact hmove.current hcur e he'
  · intro u' t₀ t' r heq ht₀ hne ht' hr c
    cases heq
    have ht'' : (x.step (.step u)).setup u = some (t.after pc s) := by
      rw [hadvance.setup, Function.update_self]
    cases Option.some.inj (ht''.symm.trans ht')
    -- a setup that has returned is loaded nowhere
    have hnone : (t.after pc s).loadCpu = none := by
      have := hstage
      unfold SetupThread.Stage at this
      rw [hr] at this
      exact this.2.1
    by_contra hactive
    have := hadvance.loaded.mirrors (Bool.of_not_eq_false hactive)
    rw [hnone] at this
    cases this

/-- Nothing that the law is about happens in a step that is not one of a setup. -/
theorem Inv.setupLaw {op : SchedOp} (h : (x.step op).Inv) (hop : ∀ u, op ≠ .step u) : x.SetupLaw op :=
  ⟨fun u _ heq => absurd heq (hop u), fun _ _ ht hpc => h.kept_of_returned ht hpc,
    fun u _ _ _ heq => absurd heq (hop u)⟩

theorem Inv.step_start (h : x.Inv) {m : VmId} {cpu : CpuId} {o : SetupCall} (henv : x.Env (.start u m cpu o)) :
    (x.step (.start u m cpu o)).Inv := by
  rw [step, exec]
  split
  · rename_i page hu hvcpu ho
    obtain ⟨husable, hfree, hunload⟩ := henv
    have heff := vmxSetupPage_effect (x.world.call cpu m .fresh []) page rfl
    have hfield : ∀ q, ((((vmxSetupPage page).run (x.world.call cpu m .fresh [])).2).hw.vmcs q).field =
        (x.world.hw.vmcs q).field := by
      intro q
      show (Function.update x.world.hw.vmcs (pageToPhys page) _ q).field = _
      by_cases hq : q = pageToPhys page
      · rw [hq, Function.update_self]
        rfl
      · rw [Function.update_of_ne hq]
    dsimp only
    generalize ((vmxSetupPage page).run (x.world.call cpu m .fresh [])).2 = s at heff hfield ⊢
    have hvmx : s.hw.vmx = x.world.hw.vmx := heff.vmx
    have htrace : s.trace = [] := heff.trace
    have hpage : s.vcpu.vmcsPage = some page := congrArg VcpuVmx.vmcsPage heff.vcpu
    have hphys : s.vcpu.vmcsPhys = pageToPhys page := congrArg VcpuVmx.vmcsPhys heff.vcpu
    have hloaded : s.vcpu.loadedCpu = none := congrArg VcpuVmx.loadedCpu heff.vcpu
    -- the page is new, so no other vCPU has it as its VMCS
    have hother : ∀ {u' v}, x.holder u' = some v → v.vmcsPhys ≠ pageToPhys page := by
      intro u' v hv heq
      obtain ⟨page', hpage', hphys'⟩ := h.load.pages.page hv
      cases pageToPhys_injective (hphys'.symm.trans heq)
      refine hfree page ho ?_
      unfold holder at hv
      split at hv
      · rename_i t ht
        split at hv
        · rw [← Option.some.inj hv] at hpage'
          exact .inl ⟨u', t, ht, hpage'⟩
        · cases hv
      · obtain ⟨v', hv', rfl⟩ := Option.map_eq_some_iff.1 hv
        exact .inr ⟨u', v', hv', hpage'⟩
    refine Advance.inv (?_ : Advance x _ u ⟨cpu, m, page, s.vcpu, o, .vmclear, none, []⟩ []) h
    refine ⟨?_, rfl, rfl, .of_eq hvmx.symm, fun e he => absurd he List.not_mem_nil, fun hd => ?_, fun _ => hfield _,
      fun hv => ?_, fun _ hv => hother hv, ?_, ⟨fun hd => (by cases hd), fun {d} hd => ?_, fun hd => (by cases hd)⟩,
      fun _ g a hg => (by cases hg)⟩
    · dsimp only
      rw [lastLoad_finish, htrace]
    · exact .inl (hvmx ▸ hd)
    · rw [holder_of_none hu, World.vcpuVmx, hvcpu] at hv
      cases hv
    · refine ⟨hphys, ?_, hunload, hpage, rfl, hloaded⟩
      show s.hw.vmx.online cpu = true ∧ s.hw.vmx.vmxonDone cpu = true
      rw [hvmx]
      exact husable
    · have hd' : x.world.hw.vmx.active d (pageToPhys page) = true := hvmx ▸ hd
      obtain ⟨u', v, hv, hphys', -⟩ := h.active.owner hd'
      exact absurd hphys' (hother hv)
  · exact h

theorem Inv.step_migrate (h : x.Inv) {cpu : CpuId} (henv : x.Env (.migrate u cpu)) : (x.step (.migrate u cpu)).Inv := by
  rw [step, exec]
  split
  · exact h
  · rename_i t ht
    have hholder : holder ⟨x.world, Function.update x.setup u (some { t with cpu := cpu })⟩ = x.holder := by
      funext u'
      by_cases hu : u' = u
      · subst hu
        rw [holder_of_setup ht, holder_of_setup (Function.update_self ..)]
        rfl
      · unfold holder
        dsimp only
        rw [Function.update_of_ne hu]
    refine ⟨by rw [hholder]; exact h.load, by rw [hholder]; exact h.active, h.current, fun {u' t'} ht' => ?_,
      fun {u' t'} ht' => ?_⟩
    · dsimp only at ht'
      by_cases hu : u' = u
      · subst hu
        rw [Function.update_self] at ht'
        cases ht'
        obtain ⟨hvcpu, hok⟩ := h.setup ht
        exact ⟨hvcpu, hok.phys, henv, hok.unloadOk, hok.stage⟩
      · rw [Function.update_of_ne hu] at ht'
        exact h.setup ht'
    · dsimp only at ht'
      by_cases hu : u' = u
      · subst hu
        rw [Function.update_self] at ht'
        cases ht'
        exact h.kept (t := t) ht
      · rw [Function.update_of_ne hu] at ht'
        exact h.kept ht'

theorem Inv.step_finish (h : x.Inv) : (x.step (.finish u)).Inv := by
  rw [step, exec]
  split
  · exact h
  · rename_i t ht
    split
    · rename_i r hpc
      obtain ⟨hvcpu, hok⟩ := h.setup ht
      have hstage := hok.stage
      unfold SetupThread.Stage at hstage
      rw [hpc] at hstage
      obtain ⟨hpage, hload, hloaded⟩ := hstage
      generalize hv : (if r = 0 then some ⟨t.vm, t.vcpu⟩ else none : Option LiveVcpu) = v
      -- the vCPU holds the page that the setup has held
      have hown : v.map (fun v => v.vcpu.vmx) = x.holder u := by
        rw [holder_of_setup ht, hpage, ← hv]
        by_cases hr : r = 0
        · rw [if_pos hr, if_pos hr]
          show some t.vcpu.vmx = some t.vmx
          unfold SetupThread.vmx
          rw [hload, ← hloaded]
          rfl
        · rw [if_neg hr, if_neg hr]
          rfl
      have hholder : holder ⟨{ x.world with vcpu := Function.update x.world.vcpu u v },
          Function.update x.setup u none⟩ = x.holder := by
        funext u'
        unfold holder World.vcpuVmx
        dsimp only
        by_cases hu : u' = u
        · subst hu
          rw [Function.update_self, Function.update_self]
          exact hown
        · rw [Function.update_of_ne hu, Function.update_of_ne hu]
      have hother : ∀ {u' t'}, Function.update x.setup u none u' = some t' → u' ≠ u ∧ x.setup u' = some t' := by
        intro u' t' ht'
        by_cases hu : u' = u
        · rw [hu, Function.update_self] at ht'
          cases ht'
        · rw [Function.update_of_ne hu] at ht'
          exact ⟨hu, ht'⟩
      refine ⟨by rw [hholder]; exact h.load, by rw [hholder]; exact h.active, h.current, fun ht' => ?_,
        fun ht' => h.kept (hother ht').2⟩
      obtain ⟨hu, ht'⟩ := hother ht'
      obtain ⟨hvcpu', hok'⟩ := h.setup ht'
      refine ⟨?_, hok'⟩
      dsimp only
      rw [Function.update_of_ne hu]
      exact hvcpu'
    · exact h

/-! ### Calls -/

/-- A call for a vCPU that has been set up, among all holders. -/
theorem vstep_holder (op : Op) (hu : x.setup op.vcpu = none) :
    VStep x.world.hw.vmx x.holder op (x.world.step op).hw.vmx (x.call op).1.holder (x.world.events op) := by
  have hstep := x.world.exec_vstep op
  have hown : x.holder op.vcpu = x.world.vcpuVmx op.vcpu := holder_of_none hu
  have hholder : (x.call op).1.holder = Function.update x.holder op.vcpu ((x.world.step op).vcpuVmx op.vcpu) := by
    funext u'
    by_cases hu' : u' = op.vcpu
    · rw [hu', Function.update_self]
      exact holder_of_none hu
    · rw [Function.update_of_ne hu']
      have hsetup : (x.call op).1.setup = x.setup := rfl
      have hworld : (x.call op).1.world = x.world.step op := rfl
      unfold holder
      rw [hsetup, hworld, World.vcpuVmx_step_of_ne hu']
  rw [hholder]
  generalize (x.world.step op).hw.vmx = y at hstep ⊢
  generalize (x.world.step op).vcpuVmx = ws' at hstep ⊢
  generalize x.world.events op = l at hstep ⊢
  -- the call leaves the other holders as they are
  have hidle : Function.update x.holder op.vcpu (x.world.vcpuVmx op.vcpu) = x.holder := by
    rw [← hown, Function.update_eq_self]
  cases hstep with
  | setupIdle hv =>
    rw [hidle]
    exact .setupIdle (hown.trans hv)
  | runIdle hv =>
    rw [hidle]
    exact .runIdle (hown.trans hv)
  | teardownIdle hv =>
    rw [hidle]
    exact .teardownIdle (hown.trans hv)
  | setup hv h =>
    simp only [Op.vcpu, Function.update_self]
    exact .setup (hown.trans hv) h
  | run hv h =>
    simp only [Op.vcpu, Function.update_self]
    exact .run (hown.trans hv) h
  | teardown hv h =>
    simp only [Op.vcpu, Function.update_self]
    exact .teardown (hown.trans hv) h

theorem Inv.call (h : x.Inv) {op : Op} (hu : x.setup op.vcpu = none) (hc : x.Usable op.cpu)
    (hfresh : op.FreshPage x.holder) (hunload : op.UnloadOk)
    (hfield : ∀ {u' t}, x.setup u' = some t → t.vcpu.vmcsPage = some t.page →
      ((x.world.step op).hw.vmcs (pageToPhys t.page)).field = (x.world.hw.vmcs (pageToPhys t.page)).field) :
    (x.call op).1.Inv := by
  have hstep := vstep_holder op hu
  refine ⟨?_, (hstep.activeInv h.active hc hfresh hunload).1, (h.current.foldl _).congr hstep.holders,
    fun {u' t} ht => ?_, fun {u' t} ht hpage => ?_⟩
  · have hlast : (x.call op).1.world.lastLoad = (x.world.events op).foldl loadAfter x.world.lastLoad := by
      show (x.world.step op).lastLoad = _
      rw [World.lastLoad, World.trace_step, List.foldl_append]
      rfl
    rw [hlast]
    exact hstep.loadInv h.load hfresh
  · obtain ⟨hvcpu, hok⟩ := h.setup ht
    refine ⟨?_, hok.congr hstep.online.1 hstep.online.2⟩
    have hne : u' ≠ op.vcpu := by
      rintro rfl
      cases hu.symm.trans ht
    have hsame := World.vcpuVmx_step_of_ne (w := x.world) hne
    unfold World.vcpuVmx at hsame
    rw [hvcpu, Option.map_none] at hsame
    exact Option.map_eq_none_iff.1 hsame
  · intro g a hg
    have hpage' := (h.setup ht).2.stage.page_of_isSome hpage
    show ((x.world.step op).hw.vmcs (pageToPhys t.page)).field g = a
    rw [hfield ht hpage']
    exact h.kept ht hpage g a hg

theorem Inv.step_run (h : x.Inv) {cpu : CpuId} {allocs : List (Option Pfn)} {o : RunCall}
    (henv : x.Env (.run u cpu allocs o)) (hund : x.Undisturbed (.run u cpu allocs o)) :
    (x.step (.run u cpu allocs o)).Inv := by
  rw [step, exec]
  cases hv : x.world.vcpu u with
  | none =>
    have hidle : x.call (.run u cpu allocs o) = (x, []) := by simp only [Sched.call, World.exec, hv]
    rw [hidle]
    exact h
  | some v =>
    have hu : x.setup u = none := by
      cases ht : x.setup u with
      | none => rfl
      | some t => exact absurd ((h.setup ht).1.symm.trans hv) (by simp)
    show (x.call (.run u cpu allocs o)).1.Inv
    refine h.call hu henv.1 trivial henv.2 fun {u' t} ht hpage => ?_
    have hown : x.holder u = some v.vcpu.vmx := by
      rw [holder_of_none hu, World.vcpuVmx, hv]
      rfl
    have hne : u ≠ u' := by
      rintro rfl
      cases hu.symm.trans ht
    have hphys : pageToPhys t.page ≠ v.vcpu.vmcsPhys := (h.page_ne ht hpage hne hown).symm
    have hfield := miniVcpuRunLoop_fields (x.world.call cpu v.vm v.vcpu allocs) o hphys fun hl hcur => ?_
    · generalize hrun : (miniVcpuRunLoop o).run (x.world.call cpu v.vm v.vcpu allocs) = y at hfield
      obtain ⟨r, s⟩ := y
      rw [World.step, World.exec_run hv hrun]
      exact hfield
    · -- what is found current was loaded last, and is active here
      have hactive := h.current cpu _ hcur
      exact hund v hv hl u' t ht ((h.loaded ht hpage).mirrors hactive) (h.load.last cpu _ hcur)

theorem Inv.step_teardown (h : x.Inv) {cpu : CpuId} {ok : Bool} (henv : x.Env (.teardown u cpu ok)) :
    (x.step (.teardown u cpu ok)).Inv := by
  rw [step, exec]
  cases hv : x.world.vcpu u with
  | none =>
    have hidle : x.call (.teardown u cpu ok) = (x, []) := by simp only [Sched.call, World.exec, hv]
    rw [hidle]
    exact h
  | some v =>
    have hu : x.setup u = none := by
      cases ht : x.setup u with
      | none => rfl
      | some t => exact absurd ((h.setup ht).1.symm.trans hv) (by simp)
    show (x.call (.teardown u cpu ok)).1.Inv
    refine h.call hu henv.1 trivial henv.2 fun {u' t} _ _ => ?_
    have hfield := miniVcpuVmxTeardown_field ok (x.world.call cpu v.vm v.vcpu []) (pageToPhys t.page)
    generalize hrun : (miniVcpuVmxTeardown ok).run (x.world.call cpu v.vm v.vcpu []) = y at hfield
    obtain ⟨r, s⟩ := y
    rw [World.step, World.exec_teardown hv hrun]
    exact hfield

/-! ### Runs -/

theorem Boot.inv (h : x.Boot) : x.Inv := by
  have hholder : x.holder = x.world.vcpuVmx := by
    funext u
    exact holder_of_none (h.setup u)
  refine ⟨?_, ?_, fun c p hc => ?_, fun {u t} ht => ?_, fun {u t} ht => ?_⟩
  · rw [hholder]
    exact h.world.loadInv
  · rw [hholder]
    refine ⟨h.world.ownPages, fun {c p} hc => ?_, fun hv => absurd hv h.world.vcpuVmx⟩
    exact absurd ((h.world.active c p).symm.trans hc) Bool.false_ne_true
  · have hnone : x.world.hw.vmx.current c = none := h.world.current c
    cases hnone.symm.trans hc
  · cases (h.setup u).symm.trans ht
  · cases (h.setup u).symm.trans ht

theorem Inv.step (h : x.Inv) {op : SchedOp} (henv : x.Env op) (hund : x.Undisturbed op) :
    (x.step op).Inv ∧ x.SetupLaw op := by
  cases op with
  | start u m cpu o =>
    have hinv := h.step_start henv
    exact ⟨hinv, hinv.setupLaw fun _ => by simp⟩
  | step u =>
    cases ht : x.setup u with
    | none =>
      have hidle : x.step (.step u) = x := by simp only [Sched.step, exec, ht]
      have hinv : (x.step (.step u)).Inv := by
        rw [hidle]
        exact h
      refine ⟨hinv, fun u' t heq ht' => ?_, fun _ _ ht hpc => hinv.kept_of_returned ht hpc,
        fun u' t _ _ heq ht' => ?_⟩
      · cases heq
        cases ht.symm.trans ht'
      · cases heq
        cases ht.symm.trans ht'
    | some t =>
      by_cases hpc : ∃ r, t.pc = .returned r
      · obtain ⟨r, hr⟩ := hpc
        -- a setup that has returned waits for its end
        have hexec := exec_step_returned ht hr (h.setup ht).1
        have hidle : x.step (.step u) = x := congrArg Prod.fst hexec
        have hinv : (x.step (.step u)).Inv := by
          rw [hidle]
          exact h
        refine ⟨hinv, fun u' t' heq _ e he => ?_, fun _ _ ht hpc => hinv.kept_of_returned ht hpc,
          fun u' t₀ t' r' heq ht₀ hne ht' hr' => ?_⟩
        · cases heq
          unfold events at he
          rw [hexec] at he
          exact absurd he List.not_mem_nil
        · cases heq
          rw [hidle] at ht'
          cases ht₀.symm.trans ht'
          exact absurd hr' hne
      · exact h.step_setup ht (fun r hr => hpc ⟨r, hr⟩) hund
  | migrate u cpu =>
    have hinv := h.step_migrate henv
    exact ⟨hinv, hinv.setupLaw fun _ => by simp⟩
  | finish u =>
    have hinv : (x.step (.finish u)).Inv := h.step_finish
    exact ⟨hinv, hinv.setupLaw fun _ => by simp⟩
  | run u cpu allocs o =>
    have hinv := h.step_run henv hund
    exact ⟨hinv, hinv.setupLaw fun _ => by simp⟩
  | teardown u cpu ok =>
    have hinv := h.step_teardown henv
    exact ⟨hinv, hinv.setupLaw fun _ => by simp⟩

/-- In a run of setups, migrations and calls in which no setup is disturbed, every setup writes its own VMCS,
finds what it has written there when it returns, and leaves it active nowhere. -/
theorem setupLaw_of_undisturbed {ops : List SchedOp} (h : x.Boot)
    (henv : AllSteps Sched.step Sched.Env x ops) (hund : AllSteps Sched.step Sched.Undisturbed x ops) :
    AllSteps Sched.step Sched.SetupLaw x ops :=
  (henv.and hund).mono (fun _ _ hinv hp => hinv.step hp.1 hp.2) h.inv

/-! ### One setup -/

instance (x : Sched) (cpu : CpuId) : Decidable (x.Usable cpu) :=
  inferInstanceAs (Decidable (_ ∧ _))

instance (x : Sched) (u : VcpuId) : Decidable (x.Undisturbed (.step u)) :=
  inferInstanceAs (Decidable (∀ t ∈ x.setup u, (t.pc = .recordCpu → t.loadCpu = some t.cpu) ∧
        (t.pc.IsWrite → t.loadCpu = some t.cpu ∧ x.world.lastLoad t.cpu = some (pageToPhys t.page))))

def boot : Sched := ⟨World.boot, fun _ => none⟩

theorem boot_boot : boot.Boot := ⟨World.boot_boot, fun _ => rfl⟩

/-- A setup up to its first VMWRITE. -/
def toFirstWrite : List SchedOp :=
  [.start 0 0 0 (World.setupCall 1), .step 0, .step 0, .step 0, .step 0, .step 0]

theorem toFirstWrite_env : AllSteps Sched.step Sched.Env boot toFirstWrite := by
  refine ⟨⟨⟨rfl, rfl⟩, ?_, rfl⟩, trivial, trivial, trivial, trivial, trivial, trivial⟩
  rintro page - (⟨u, t, ht, -⟩ | ⟨u, v, hv, -⟩)
  · cases ht
  · cases hv

/-- Two setups on CPU 0, the first of which is moved to CPU 1 before its VMPTRLD. -/
def moved : List SchedOp :=
  [.start 0 0 0 (World.setupCall 1), .start 1 0 0 (World.setupCall 2), .step 0, .migrate 0 1, .step 0, .step 0, .step 0,
    .step 0]

/-- The second one executes its VMPTRLD.  The first one executes two VMWRITEs, and is on CPU 0 in between. -/
def movedBack : List SchedOp :=
  [.step 1, .step 1, .step 0, .migrate 0 0, .step 0, .migrate 0 1, .step 0]

theorem moved_env : AllSteps Sched.step Sched.Env boot moved := by
  refine ⟨⟨⟨rfl, rfl⟩, ?_, rfl⟩, ⟨by decide +kernel, ?_, rfl⟩, trivial, ?_, trivial, trivial, trivial, trivial, trivial⟩
  · rintro page - (⟨u, t, ht, -⟩ | ⟨u, v, hv, -⟩)
    · cases ht
    · cases hv
  · -- the only page that is in use is that of the first setup
    rintro page hpage (⟨u, t, ht, hheld⟩ | ⟨u, v, hv, -⟩)
    · obtain rfl : (2 : Pfn) = page := Option.some.inj hpage
      by_cases hu : u = 0
      · subst hu
        have hfirst : ((boot.step (.start 0 0 0 (World.setupCall 1))).setup 0).all
            (fun t => !decide (t.vcpu.vmcsPage = some 2)) = true := by decide +kernel
        rw [ht] at hfirst
        simp [hheld] at hfirst
      · have hnone : (boot.step (.start 0 0 0 (World.setupCall 1))).setup u = none := Function.update_of_ne hu _ _
        rw [hnone] at ht
        cases ht
    · have hnone : (boot.step (.start 0 0 0 (World.setupCall 1))).world.vcpu u = none := by
        by_cases hu : u = 0
        · subst hu
          rfl
        · exact Function.update_of_ne hu _ _
      rw [hnone] at hv
      cases hv
  · show Usable _ 1
    decide +kernel

theorem setupLaw_of_undisturbed_moved : AllSteps Sched.step Sched.SetupLaw boot (moved ++ movedBack) := by
  refine setupLaw_of_undisturbed boot_boot
    (allSteps_append.2 ⟨moved_env, trivial, trivial, trivial, ?_, trivial, ?_, trivial, trivial⟩)
    (allSteps_append.2
      ⟨⟨trivial, trivial, ?_, trivial, ?_, ?_, ?_, ?_, trivial⟩, ?_, ?_, ?_, trivial, ?_, trivial, ?_, trivial⟩)
  · show Usable _ 0
    decide +kernel
  · show Usable _ 1
    decide +kernel
  all_goals decide +kernel

/-- Not every setup writes its own VMCS: when the thread is moved before the first VMWRITE, that finds none
current. -/
theorem not_setupLaw : ¬ ∀ (x : Sched) (ops : List SchedOp), x.Boot →
    AllSteps Sched.step Sched.Env x ops → AllSteps Sched.step Sched.SetupLaw x ops := by
  intro h
  have henv : AllSteps Sched.step Sched.Env boot ((toFirstWrite ++ [.migrate 0 1]) ++ [.step 0]) := by
    refine allSteps_append.2 ⟨allSteps_append.2 ⟨toFirstWrite_env, ?_, trivial⟩, trivial, trivial⟩
    show Usable _ 1
    decide +kernel
  obtain ⟨-, hlaw, -⟩ := allSteps_append.1 (h boot _ boot_boot henv)
  generalize hx : runSteps Sched.step boot (toFirstWrite ++ [.migrate 0 1]) = x at hlaw
  have hforeign : (x.setup 0).any (fun t => (x.events (.step 0)).any
      fun e => !decide (e.Current (pageToPhys t.page))) = true := by
    rw [← hx]
    decide +kernel
  obtain ⟨t, ht, he⟩ := Option.any_eq_true _ _ |>.1 hforeign
  obtain ⟨e, hmem, hcur⟩ := List.any_eq_true.1 he
  simp only [Bool.not_eq_true', decide_eq_false_iff_not] at hcur
  exact hcur (hlaw.own 0 t rfl ht e hmem)

end Sched

end MiniVirt.Kvm
