import MiniVirt.Kvm.Spec.Holders
import MiniVirt.Lib.Runs

/-!
# `vcpu->launched` and the launch state

The run loop sets `vcpu->launched` whenever `mini_vmx_enter()` returns 0, before it looks at bit 31
of the exit reason, while a VMLAUNCH that fails with that bit leaves the VMCS clear.  For the
KVM_RUNs of one vCPU, flag and launch state agree at every entry if and only if no entry follows
such a failure without a reload, and no reload whose VMCLEAR was not executed is of a launched VMCS
(`World.entries_agree_iff`).
-/

namespace MiniVirt.Kvm

/-! ### Failed launches -/

/-- Whether, since the last VMPTRLD of `p`, a VMLAUNCH of it has failed with bit 31, after one more
event. -/
def failedAfter (p : Phys) (b : Bool) : Event → Bool
  | .vmptrld _ q => if q = p then false else b
  | .entryFailure q launched => if q = p ∧ launched = false then true else b
  | _ => b

/-- The flag that `mini_vmx_enter()` was called with is the launch state of the current VMCS. -/
def Event.LaunchAgrees : Event → Prop
  | .enter _ _ _ launched vmcsLaunched => vmcsLaunched = some launched
  | _ => True

/-- What the flag says about the launch state of `p` when `b` says whether a launch has failed. -/
def FlagIs (p : Phys) (x : Vmx) (w : VcpuVmx) (b : Bool) : Prop :=
  if b then w.launched = true ∧ x.launched p = false else x.launched p = w.launched

theorem FlagIs.agree_iff {p : Phys} {x : Vmx} {w : VcpuVmx} {b : Bool} (h : FlagIs p x w b) :
    x.launched p = w.launched ↔ b = false := by
  cases b with
  | false => exact ⟨fun _ => rfl, fun _ => h⟩
  | true =>
    obtain ⟨hw, hx⟩ : w.launched = true ∧ x.launched p = false := h
    rw [hw, hx]
    simp

theorem Event.IsAccess.failedAfter {c : CpuId} {x : Vmx} {w : VcpuVmx} {e : Event}
    (h : e.IsAccess c x w) (p : Phys) (b : Bool) : failedAfter p b e = b := by
  cases e <;> first | rfl | exact h.elim

theorem Event.IsAccess.launchAgrees {c : CpuId} {x : Vmx} {w : VcpuVmx} {e : Event}
    (h : e.IsAccess c x w) : e.LaunchAgrees := by
  cases e <;> trivial

theorem foldl_failedAfter_of_isAccess {c : CpuId} {x : Vmx} {w : VcpuVmx} {l : List Event}
    (h : ∀ e ∈ l, e.IsAccess c x w) (p : Phys) (b : Bool) : l.foldl (failedAfter p) b = b := by
  induction l with
  | nil => rfl
  | cons e l ih =>
    rw [List.foldl_cons, (h e List.mem_cons_self).failedAfter]
    exact ih fun e he => h e (List.mem_cons_of_mem _ he)

theorem entryEvent_launchAgrees {c : CpuId} {x : Vmx} {w : VcpuVmx} {p : Phys}
    (hcur : x.current c = some p) :
    (entryEvent c x w).LaunchAgrees ↔ x.launched p = w.launched := by
  have hcl : x.currentLaunched c = some (x.launched p) := by
    rw [Vmx.currentLaunched, hcur, Option.map_some]
  rw [entryEvent, Event.LaunchAgrees, hcl, Option.some.injEq]

/-! ### One iteration and the loop -/

/-- From an agreement, an iteration enters with it, and keeps it unless it ends the loop with a
failed launch. -/
theorem IterStep.flagIs {c : CpuId} {x x' : Vmx} {w w' : VcpuVmx} {o : EntryOutcome}
    {r : Option Int} {l : List Event} (h : IterStep c x w o r x' w' l) {p : Phys}
    (hcur : x.current c = some p) (hagree : x.launched p = w.launched) :
    (∀ e ∈ l, e.LaunchAgrees) ∧ FlagIs p x' w' (l.foldl (failedAfter p) false) ∧
      (r = none → l.foldl (failedAfter p) false = false) := by
  have hentry := (entryEvent_launchAgrees (w := w) hcur).2 hagree
  have hmem : ∀ {l₁ l₂ : List Event}, (∀ e ∈ l₁, e.IsAccess c x w) →
      (∀ e ∈ l₂, e.LaunchAgrees) → ∀ e ∈ l₁ ++ entryEvent c x w :: l₂, e.LaunchAgrees := by
    intro l₁ l₂ h₁ h₂ e he
    rcases List.mem_append.1 he with he | he
    · exact (h₁ e he).launchAgrees
    · rcases List.mem_cons.1 he with rfl | he
      · exact hentry
      · exact h₂ e he
  cases h with
  | vmFail h₁ h₂ reason =>
    rw [List.foldl_append, foldl_failedAfter_of_isAccess h₁, List.foldl_cons]
    have hrest := foldl_failedAfter_of_isAccess h₂ p false
    exact ⟨hmem h₁ fun e he => (h₂ e he).launchAgrees, hrest.symm ▸ hagree, fun _ => hrest⟩
  | exit h₁ h₂ agree i r =>
    rw [List.foldl_append, foldl_failedAfter_of_isAccess h₁, List.foldl_cons]
    have hrest := foldl_failedAfter_of_isAccess h₂ p false
    have hlaunch : (x.launch c).launched p = true := by
      rw [Vmx.launch, hcur]
      exact Function.update_self ..
    exact ⟨hmem h₁ fun e he => (h₂ e he).launchAgrees, hrest.symm ▸ hlaunch, fun _ => hrest⟩
  | entryFailure h₁ h₂ agree hp reason qual =>
    cases Option.some.inj (hp.symm.trans hcur)
    rw [List.foldl_append, foldl_failedAfter_of_isAccess h₁, List.foldl_cons, List.foldl_cons,
      foldl_failedAfter_of_isAccess h₂]
    refine ⟨hmem h₁ fun e he => ?_, ?_, fun h => absurd h (by simp)⟩
    · rcases List.mem_cons.1 he with rfl | he
      · trivial
      · exact (h₂ e he).launchAgrees
    · cases hw : w.launched with
      -- the launch has failed, but the flag is set already
      | false =>
        have hfail : failedAfter p (failedAfter p false (entryEvent c x w))
            (.entryFailure p false) = true := if_pos ⟨rfl, rfl⟩
        rw [hfail]
        exact ⟨rfl, hagree.trans hw⟩
      | true =>
        have hfail : failedAfter p (failedAfter p false (entryEvent c x w))
            (.entryFailure p true) = false := if_neg (by simp)
        rw [hfail]
        exact hagree.trans hw

theorem LoopSteps.flagIs {c : CpuId} {x x' : Vmx} {w w' : VcpuVmx} {o : EntryOutcome}
    {os : List EntryOutcome} {l : List Event} (h : LoopSteps c x w o os x' w' l) {p : Phys}
    (hcur : x.current c = some p) (hagree : x.launched p = w.launched) :
    (∀ e ∈ l, e.LaunchAgrees) ∧ FlagIs p x' w' (l.foldl (failedAfter p) false) := by
  induction h with
  | last h _ =>
    obtain ⟨hl, hflag, -⟩ := h.flagIs hcur hagree
    exact ⟨hl, hflag⟩
  | next h _ ih =>
    obtain ⟨hl, hflag, hnone⟩ := h.flagIs hcur hagree
    rw [hnone rfl] at hflag
    obtain ⟨hl', hflag'⟩ := ih (by rw [h.loopFrame.holders.current]; exact hcur) hflag
    refine ⟨fun e he => (List.mem_append.1 he).elim (hl e) (hl' e), ?_⟩
    rwa [List.foldl_append, hnone rfl]

theorem LoopSteps.agrees_iff {c : CpuId} {x x' : Vmx} {w w' : VcpuVmx} {o : EntryOutcome}
    {os : List EntryOutcome} {l : List Event} (h : LoopSteps c x w o os x' w' l) {p : Phys}
    (hcur : x.current c = some p) :
    (∀ e ∈ l, e.LaunchAgrees) ↔ x.launched p = w.launched :=
  ⟨fun hl => (entryEvent_launchAgrees hcur).1 (hl _ h.loopFrame.entry),
    fun hagree => (h.flagIs hcur hagree).1⟩

/-! ### KVM_RUN -/

/-- The VMCLEAR of `mini_vmcs_clear()` is executed. -/
def Vmx.clears (x : Vmx) (c : CpuId) (w : VcpuVmx) (ok : Bool) : Bool :=
  match w.loadedCpu with
  | none => false
  | some d => ok && x.reaches c d

theorem Vmx.launched_unload (x : Vmx) (c : CpuId) (w : VcpuVmx) (ok : Bool) :
    (x.unload c w ok).launched w.vmcsPhys = (!x.clears c w ok && x.launched w.vmcsPhys) := by
  rw [Vmx.unload, Vmx.clears]
  cases w.loadedCpu with
  | none => rfl
  | some d =>
    simp only
    split
    · rename_i h
      rw [h]
      exact Function.update_self ..
    · rename_i h
      rw [Bool.eq_false_iff.2 h]
      rfl

/-- The launch state is known when KVM_RUN enters: without a reload no launch has failed since the
VMCS was loaded, and a reload finds or makes the VMCS clear. -/
def LaunchKnown (c : CpuId) (x : Vmx) (w : VcpuVmx) (o : RunCall) (b : Bool) : Prop :=
  x.vmxonDone c = true →
    if w.loadedCpu = some c then b = false
    else o.ptrldOk = true → x.clears c w o.clearOk = true ∨ x.launched w.vmcsPhys = false

/-- Where the vCPU is recorded as loaded its VMCS is current, with the flag as `b` says. -/
def FlagInv (x : Vmx) (w : VcpuVmx) (b : Bool) : Prop :=
  ∀ d, w.loadedCpu = some d → x.current d = some w.vmcsPhys ∧ FlagIs w.vmcsPhys x w b

theorem launchAgrees_of_mem_unloadEvents {x : Vmx} {c : CpuId} {w : VcpuVmx} {ok : Bool}
    {e : Event} (h : e ∈ x.unloadEvents c w ok) : e.LaunchAgrees := by
  rw [Vmx.unloadEvents] at h
  split at h
  · exact absurd h List.not_mem_nil
  · split at h
    · rw [List.mem_singleton.1 h]
      trivial
    · exact absurd h List.not_mem_nil

theorem Loaded.launchAgrees {c : CpuId} {x x' : Vmx} {w w' : VcpuVmx} {o : RunCall}
    {l : List Event} (h : Loaded c x w o x' w' l) : ∀ e ∈ l, e.LaunchAgrees := by
  cases h with
  | shortcut hl => exact fun e he => absurd he List.not_mem_nil
  | migrated hl ho h =>
    intro e he
    rcases List.mem_append.1 he with he | he
    · exact launchAgrees_of_mem_unloadEvents he
    · rcases List.mem_cons.1 he with rfl | he
      · trivial
      · exact (h e he).launchAgrees

/-- When the loop is entered the VMCS is current, and flag and launch state agree if and only if the
launch state is known. -/
theorem Loaded.agree_iff {c : CpuId} {x x' : Vmx} {w w' : VcpuVmx} {o : RunCall} {l : List Event}
    {b : Bool} (h : Loaded c x w o x' w' l) (hinv : FlagInv x w b) (hv : x.vmxonDone c = true) :
    w'.vmcsPhys = w.vmcsPhys ∧ w'.loadedCpu = some c ∧ x'.current c = some w.vmcsPhys ∧
      (LaunchKnown c x w o b → l.foldl (failedAfter w.vmcsPhys) b = false) ∧
      (x'.launched w.vmcsPhys = w'.launched ↔ LaunchKnown c x w o b) := by
  cases h with
  | shortcut hl =>
    obtain ⟨hcur, hflag⟩ := hinv c hl
    have hknown : LaunchKnown c x w o b ↔ b = false := by
      rw [LaunchKnown, if_pos hl]
      exact ⟨fun h => h hv, fun h _ => h⟩
    exact ⟨rfl, hl, hcur, hknown.1, hflag.agree_iff.trans hknown.symm⟩
  | migrated hl ho h =>
    refine ⟨rfl, rfl, Function.update_self .., fun _ => ?_, ?_⟩
    · rw [List.foldl_append, List.foldl_cons, foldl_failedAfter_of_isAccess h]
      exact if_pos rfl
    · have hx : ((x.unload c w o.clearOk).vmptrld c w.vmcsPhys).launched w.vmcsPhys =
          (!x.clears c w o.clearOk && x.launched w.vmcsPhys) := x.launched_unload c w o.clearOk
      rw [hx, LaunchKnown, if_neg hl]
      cases x.clears c w o.clearOk <;> simp [VcpuVmx.unload, hv, ho]

theorem RunSteps.launchAgrees_iff {c : CpuId} {x x' : Vmx} {w w' : VcpuVmx} {o : RunCall}
    {l : List Event} {b : Bool} (h : RunSteps c x w o x' w' l) (hinv : FlagInv x w b) :
    (∀ e ∈ l, e.LaunchAgrees) ↔ LaunchKnown c x w o b := by
  cases h with
  | notVmx hv =>
    exact ⟨fun _ h => absurd (hv.symm.trans h) Bool.false_ne_true,
      fun _ e he => absurd he List.not_mem_nil⟩
  | ptrldFail hv hl ho =>
    refine ⟨fun _ _ => ?_, fun _ e he => launchAgrees_of_mem_unloadEvents he⟩
    rw [if_neg hl]
    exact fun h => absurd (ho.symm.trans h) Bool.false_ne_true
  | ran hv hload hloop =>
    obtain ⟨-, -, hcur, -, hagree⟩ := hload.agree_iff hinv hv
    rw [← hagree, ← hloop.agrees_iff hcur]
    exact ⟨fun h e he => h e (List.mem_append_right _ he),
      fun h e he => (List.mem_append.1 he).elim (hload.launchAgrees e) (h e)⟩

theorem RunSteps.flagInv {c : CpuId} {x x' : Vmx} {w w' : VcpuVmx} {o : RunCall}
    {l : List Event} {b : Bool} (h : RunSteps c x w o x' w' l) (hinv : FlagInv x w b)
    (hknown : LaunchKnown c x w o b) : FlagInv x' w' (l.foldl (failedAfter w.vmcsPhys) b) := by
  cases h with
  | notVmx hv => exact hinv
  | ptrldFail hv hl ho => exact fun d hd => absurd hd (by simp [VcpuVmx.unload])
  | ran hv hload hloop =>
    obtain ⟨hphys, hl, hcur, hfold, hagree⟩ := hload.agree_iff hinv hv
    have hframe := hloop.loopFrame
    obtain ⟨-, hflag⟩ := hloop.flagIs hcur (hagree.2 hknown)
    intro d hd
    rw [hframe.vcpu, hl] at hd
    cases Option.some.inj hd
    rw [hframe.vmcsPhys, hphys, hframe.holders.current, List.foldl_append, hfold hknown]
    exact ⟨hcur, hflag⟩

/-! ### Runs -/

namespace World

/-- Since the last VMPTRLD of `p` a VMLAUNCH of it has failed with bit 31. -/
def launchFailed (w : World) (p : Phys) : Bool := w.trace.foldl (failedAfter p) false

/-- The vCPU `u` exists and is recorded as loaded nowhere. -/
def Unloaded (w : World) (u : VcpuId) : Prop :=
  ∃ v, w.vcpu u = some v ∧ v.vcpu.loadedCpu = none

/-- At every VM entry of the call the flag is the launch state. -/
def LaunchAgrees (w : World) (op : Op) : Prop := ∀ e ∈ w.events op, e.LaunchAgrees

/-- If the call is a KVM_RUN, it enters in a known launch state. -/
def EntersKnown (w : World) : Op → Prop
  | .run u cpu _ o => ∀ v, w.vcpu u = some v →
      LaunchKnown cpu w.hw.vmx v.vcpu.vmx o (w.launchFailed v.vcpu.vmcsPhys)
  | _ => True

/-- The call is a KVM_RUN of the vCPU `u`. -/
def RunsOf (u : VcpuId) (_ : World) : Op → Prop
  | .run u' _ _ _ => u' = u
  | _ => False

/-- A setup that succeeds leaves its vCPU unloaded. -/
theorem unloaded_of_setup {w : World} {u : VcpuId} {m : VmId} {c : CpuId} {o : SetupCall}
    (hu : w.vcpu u = none) {v : LiveVcpu} (hv : (w.step (.setup u m c o)).vcpu u = some v) :
    (w.step (.setup u m c o)).Unloaded u := by
  refine ⟨v, hv, ?_⟩
  have hv' : (w.step (.setup u m c o)).vcpuVmx u = some v.vcpu.vmx := by
    rw [vcpuVmx, hv, Option.map_some]
  have hu' : w.vcpuVmx u = none := by rw [vcpuVmx, hu, Option.map_none]
  have hstep := w.exec_vstep (.setup u m c o)
  generalize (w.step (.setup u m c o)).vcpuVmx = ws' at hstep hv'
  generalize (w.step (.setup u m c o)).hw.vmx = x' at hstep
  generalize w.events (.setup u m c o) = l at hstep
  cases hstep with
  | setupIdle h => exact absurd (h.symm.trans hu') (by simp)
  | setup _ h =>
    rw [Function.update_self] at hv'
    split at hv'
    · rename_i hr
      rw [hr] at h
      obtain ⟨page, -, hpage⟩ := h.page
      rw [hpage] at hv'
      exact (congrArg VcpuVmx.loadedCpu (Option.some.inj hv')).symm
    · exact absurd hv' (by simp)

/-- What the KVM_RUNs so far say about the flag of the vCPU `u`. -/
def FlagInv (u : VcpuId) (w : World) : Prop :=
  ∃ v, w.vcpuVmx u = some v ∧ Kvm.FlagInv w.hw.vmx v (w.launchFailed v.vmcsPhys)

/-- A KVM_RUN of `u` as a step on the VMX state. -/
theorem exec_run_steps {w : World} {u : VcpuId} {v : LiveVcpu} (hu : w.vcpu u = some v)
    (cpu : CpuId) (allocs : List (Option Pfn)) (o : RunCall) : ∃ v',
      RunSteps cpu w.hw.vmx v.vcpu.vmx o (w.step (.run u cpu allocs o)).hw.vmx v'
        (w.events (.run u cpu allocs o)) ∧
      (w.step (.run u cpu allocs o)).vcpuVmx u = some v' := by
  have hu' : w.vcpuVmx u = some v.vcpu.vmx := by rw [vcpuVmx, hu, Option.map_some]
  have hstep := w.exec_vstep (.run u cpu allocs o)
  generalize (w.step (.run u cpu allocs o)).vcpuVmx = ws' at hstep ⊢
  generalize (w.step (.run u cpu allocs o)).hw.vmx = x' at hstep ⊢
  generalize w.events (.run u cpu allocs o) = l at hstep ⊢
  cases hstep with
  | runIdle hnone => exact absurd (hnone.symm.trans hu') (by simp)
  | run hsome hrun =>
    cases Option.some.inj (hsome.symm.trans hu')
    exact ⟨_, hrun, Function.update_self ..⟩

theorem FlagInv.step {w : World} {u : VcpuId} {op : Op} (h : FlagInv u w) (hrun : RunsOf u w op)
    (hknown : w.EntersKnown op) : FlagInv u (w.step op) := by
  cases op with
  | setup u' m cpu o => exact hrun.elim
  | teardown u' cpu ok => exact hrun.elim
  | run u' cpu allocs o =>
    have hu' : u' = u := hrun
    subst hu'
    obtain ⟨v, hv, hinv⟩ := h
    obtain ⟨v, hu, rfl⟩ := Option.map_eq_some_iff.1 hv
    obtain ⟨v', hsteps, hv'⟩ := exec_run_steps hu cpu allocs o
    refine ⟨v', hv', ?_⟩
    rw [launchFailed, trace_step, List.foldl_append, hsteps.page.2]
    exact hsteps.flagInv hinv (hknown v hu)

theorem FlagInv.launchAgrees_iff {w : World} {u : VcpuId} {op : Op} (h : FlagInv u w)
    (hrun : RunsOf u w op) : w.LaunchAgrees op ↔ w.EntersKnown op := by
  cases op with
  | setup u' m cpu o => exact hrun.elim
  | teardown u' cpu ok => exact hrun.elim
  | run u' cpu allocs o =>
    have hu' : u' = u := hrun
    subst hu'
    obtain ⟨v, hv, hinv⟩ := h
    obtain ⟨v, hu, rfl⟩ := Option.map_eq_some_iff.1 hv
    obtain ⟨v', hsteps, -⟩ := exec_run_steps hu cpu allocs o
    refine (hsteps.launchAgrees_iff hinv).trans ⟨fun hk v' hv' => ?_, fun hk => hk v hu⟩
    cases Option.some.inj (hu.symm.trans hv')
    exact hk

/-- In the KVM_RUNs of one vCPU, on any CPUs, the flag is the launch state at every VM entry if and
only if every KVM_RUN that enters does so in a known launch state. -/
theorem entries_agree_iff {w : World} {u : VcpuId} {ops : List Op} (hu : w.Unloaded u)
    (henv : AllSteps World.step (RunsOf u) w ops) :
    AllSteps World.step World.LaunchAgrees w ops ↔ AllSteps World.step World.EntersKnown w ops := by
  obtain ⟨v, hv, hl⟩ := hu
  have hinv : FlagInv u w := by
    refine ⟨v.vcpu.vmx, by rw [vcpuVmx, hv, Option.map_some], fun d hd => ?_⟩
    exact absurd (hl.symm.trans hd) (by simp)
  exact allSteps_iff (fun _ _ hinv hrun hknown => hinv.step hrun hknown)
    (fun _ _ hinv hrun => hinv.launchAgrees_iff hrun) hinv henv

/-- The module after the setup of one vCPU. -/
def oneVcpu : World := boot.step (.setup 0 0 0 (setupCall 1))

theorem oneVcpu_unloaded : oneVcpu.Unloaded 0 := by
  have hsome : ((boot.step (.setup 0 0 0 (setupCall 1))).vcpu 0).isSome = true := by
    decide +kernel
  obtain ⟨v, hv⟩ := Option.isSome_iff_exists.1 hsome
  rw [oneVcpu]
  exact unloaded_of_setup rfl hv

theorem entries_agree_iff_oneVcpu :
    AllSteps World.step World.LaunchAgrees oneVcpu [.run 0 0 [] haltRun, .run 0 1 [] haltRun] ↔
      AllSteps World.step World.EntersKnown oneVcpu
        [.run 0 0 [] haltRun, .run 0 1 [] haltRun] :=
  entries_agree_iff oneVcpu_unloaded ⟨rfl, rfl, trivial⟩

/-- A KVM_RUN whose VMLAUNCH fails on the guest state (basic reason 33). -/
def badStateRun : RunCall := { haltRun with first := .entryFailure 33 0 }

instance : DecidablePred Event.LaunchAgrees
  | .enter _ _ _ launched vmcsLaunched => inferInstanceAs (Decidable (vmcsLaunched = some launched))
  | .vmread .. | .vmwrite .. | .entryFailure .. | .vmptrld .. | .vmclear .. | .freeVmcs .. =>
    isTrue trivial

/-- The flag is not the launch state at every VM entry, even if all VMCLEARs succeed. -/
theorem not_launchAgrees : ¬ ∀ (w : World) (u : VcpuId) (ops : List Op), w.Unloaded u →
    (∀ v, w.vcpu u = some v → (w.hw.vmcs v.vcpu.vmcsPhys).launched = false) →
    AllSteps World.step (fun w op => RunsOf u w op ∧ op.UnloadOk ∧
      ∀ c, (w.hw.cpu c).online = true ∧ (w.hw.cpu c).vmxonDone = true) w ops →
    AllSteps World.step World.LaunchAgrees w ops := by
  intro h
  have hon : ∀ (w : World) (op : Op),
      (∀ c, (w.hw.cpu c).online = true ∧ (w.hw.cpu c).vmxonDone = true) →
      ∀ c, ((w.step op).hw.cpu c).online = true ∧ ((w.step op).hw.cpu c).vmxonDone = true := by
    intro w op hw c
    obtain ⟨honline, hvmxon⟩ := (w.exec_vstep op).online
    exact ⟨(congrFun honline c).trans (hw c).1, (congrFun hvmxon c).trans (hw c).2⟩
  have hon₁ : ∀ c, (oneVcpu.hw.cpu c).online = true ∧ (oneVcpu.hw.cpu c).vmxonDone = true := by
    rw [oneVcpu]
    exact hon boot (.setup 0 0 0 (setupCall 1)) fun _ => ⟨rfl, rfl⟩
  have hon₂ := hon oneVcpu (.run 0 0 [] badStateRun) hon₁
  have hclear : (oneVcpu.vcpu 0).all
      (fun v => !(oneVcpu.hw.vmcs v.vcpu.vmcsPhys).launched) = true := by
    decide +kernel
  obtain ⟨-, hlast, -⟩ := h oneVcpu 0 [.run 0 0 [] badStateRun, .run 0 0 [] haltRun]
    oneVcpu_unloaded (fun v hv => by simpa [hv] using hclear)
    ⟨⟨rfl, rfl, hon₁⟩, ⟨rfl, rfl, hon₂⟩, trivial⟩
  have hstale : ((oneVcpu.step (.run 0 0 [] badStateRun)).events (.run 0 0 [] haltRun)).any
      (fun e => !decide e.LaunchAgrees) = true := by
    decide +kernel
  obtain ⟨e, hmem, hne⟩ := List.any_eq_true.1 hstale
  simp only [Bool.not_eq_true', decide_eq_false_iff_not] at hne
  exact hne (hlast e hmem)

end World

end MiniVirt.Kvm
