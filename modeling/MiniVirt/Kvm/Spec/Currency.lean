import MiniVirt.Kvm.Spec.Holders
import MiniVirt.Lib.Runs

/-!
# Whose VMCS the run loop works on

`mini_vcpu_run_loop()` reloads the VMCS only when `loaded_cpu` is another CPU, and no other call
updates it when the current-VMCS pointer of that CPU moves on.  `World.lastLoad` is the VMCS of the
last VMPTRLD on a CPU.  In every run, KVM_RUN works on the vCPU's own VMCS in all calls if and only
if every vCPU that is recorded as loaded on its CPU is also the last one loaded there
(`World.runs_current_iff`).
-/

namespace MiniVirt.Kvm

/-! ### The last VMPTRLD -/

/-- The VMCS that was last loaded on each CPU, after one more event. -/
def loadAfter (f : CpuId → Option Phys) : Event → CpuId → Option Phys
  | .vmptrld c p => Function.update f c (some p)
  | _ => f

/-- The VMCS of the last VMPTRLD on each CPU. -/
def World.lastLoad (w : World) : CpuId → Option Phys := w.trace.foldl loadAfter fun _ => none

/-- The current VMCSs are among those last loaded. -/
def LoadedLast (x : Vmx) (f : CpuId → Option Phys) : Prop :=
  ∀ c p, x.current c = some p → f c = some p

theorem LoadedLast.replay {x : Vmx} {f : CpuId → Option Phys} (h : LoadedLast x f) (e : Event) :
    LoadedLast (x.replay e) (loadAfter f e) := by
  intro c p hc
  cases e with
  | vmptrld d q =>
    simp only [Vmx.replay, Vmx.vmptrld, loadAfter] at hc ⊢
    by_cases hd : c = d
    · subst hd
      rwa [Function.update_self] at hc ⊢
    · rw [Function.update_of_ne hd] at hc ⊢
      exact h c p hc
  | vmclear d q =>
    simp only [Vmx.replay, Vmx.vmclear, loadAfter] at hc ⊢
    by_cases hd : c = d
    · subst hd
      rw [Function.update_self] at hc
      split at hc
      · exact absurd hc (by simp)
      · exact h c p hc
    · rw [Function.update_of_ne hd] at hc
      exact h c p hc
  | _ => exact h c p hc

theorem LoadedLast.foldl {x : Vmx} {f : CpuId → Option Phys} (h : LoadedLast x f)
    (l : List Event) : LoadedLast (l.foldl Vmx.replay x) (l.foldl loadAfter f) := by
  induction l generalizing x f with
  | nil => exact h
  | cons e l ih => exact ih (h.replay e)

/-- Where `p` was loaded last, it is current. -/
def CurrentIfLast (x : Vmx) (f : CpuId → Option Phys) (c : CpuId) (p : Phys) : Prop :=
  f c = some p → x.current c = some p

/-- Events about other VMCSs keep a VMCS current, unless one of them is loaded. -/
theorem CurrentIfLast.replay {x : Vmx} {f : CpuId → Option Phys} {c : CpuId} {p : Phys}
    (h : CurrentIfLast x f c p) {e : Event} (he : e.Avoids p) :
    CurrentIfLast (x.replay e) (loadAfter f e) c p := by
  intro hlast
  cases e with
  | vmptrld d q =>
    simp only [Vmx.replay, Vmx.vmptrld, loadAfter] at hlast ⊢
    by_cases hd : c = d
    · subst hd
      rw [Function.update_self] at hlast
      exact absurd (Option.some.inj hlast) he
    · rw [Function.update_of_ne hd] at hlast ⊢
      exact h hlast
  | vmclear d q =>
    simp only [Vmx.replay, Vmx.vmclear, loadAfter] at hlast ⊢
    by_cases hd : c = d
    · subst hd
      rw [Function.update_self, h hlast, if_neg fun heq => he (Option.some.inj heq).symm]
    · rw [Function.update_of_ne hd]
      exact h hlast
  | _ => exact h hlast

theorem CurrentIfLast.foldl {x : Vmx} {f : CpuId → Option Phys} {c : CpuId} {p : Phys}
    (h : CurrentIfLast x f c p) {l : List Event} (hl : ∀ e ∈ l, e.Avoids p) :
    CurrentIfLast (l.foldl Vmx.replay x) (l.foldl loadAfter f) c p := by
  induction l generalizing x f with
  | nil => exact h
  | cons e l ih =>
    exact ih (h.replay (hl e List.mem_cons_self)) fun e he => hl e (List.mem_cons_of_mem _ he)

theorem Event.IsLoop.loadAfter {c : CpuId} {x : Vmx} {w : VcpuVmx} {e : Event}
    (h : e.IsLoop c x w) (f : CpuId → Option Phys) : loadAfter f e = f := by
  cases e <;> first | rfl | exact h.elim

theorem foldl_loadAfter_of_isLoop {c : CpuId} {x : Vmx} {w : VcpuVmx} {l : List Event}
    (h : ∀ e ∈ l, e.IsLoop c x w) (f : CpuId → Option Phys) : l.foldl loadAfter f = f := by
  induction l with
  | nil => rfl
  | cons e l ih =>
    rw [List.foldl_cons, (h e List.mem_cons_self).loadAfter]
    exact ih fun e he => h e (List.mem_cons_of_mem _ he)

/-! ### The invariant -/

/-- What the VMPTRLDs so far, `f`, say about the current VMCSs. -/
structure LoadInv (x : Vmx) (ws : VcpuId → Option VcpuVmx) (f : CpuId → Option Phys) : Prop where
  last : LoadedLast x f
  loaded : ∀ {u v c}, ws u = some v → v.loadedCpu = some c → CurrentIfLast x f c v.vmcsPhys
  pages : OwnPages ws

theorem Loaded.current {c : CpuId} {x x' : Vmx} {w w' : VcpuVmx} {o : RunCall} {l : List Event}
    (h : Loaded c x w o x' w' l) (hcur : w.loadedCpu = some c → x.current c = some w.vmcsPhys) :
    w'.loadedCpu = some c ∧ w'.vmcsPhys = w.vmcsPhys ∧ x'.current c = some w.vmcsPhys := by
  cases h with
  | shortcut hl => exact ⟨hl, rfl, hcur hl⟩
  | migrated hl ho h => exact ⟨rfl, rfl, Function.update_self ..⟩

/-- KVM_RUN leaves the vCPU current where it is recorded as loaded. -/
theorem RunSteps.currentIfLast {c d : CpuId} {x x' : Vmx} {w w' : VcpuVmx} {o : RunCall}
    {l : List Event} {f : CpuId → Option Phys} (h : RunSteps c x w o x' w' l)
    (hcur : ∀ {d}, w.loadedCpu = some d → CurrentIfLast x f d w.vmcsPhys)
    (hd : w'.loadedCpu = some d) : CurrentIfLast x' (l.foldl loadAfter f) d w'.vmcsPhys := by
  cases h with
  | notVmx hv => exact hcur hd
  | ptrldFail hv hl ho => exact absurd hd (by simp [VcpuVmx.unload])
  | ran hv hload hloop =>
    have hframe := hloop.loopFrame
    rw [List.foldl_append, foldl_loadAfter_of_isLoop hframe.events]
    intro hlast
    rw [hframe.holders.current, hframe.vmcsPhys]
    rw [hframe.vmcsPhys] at hlast
    rw [hframe.vcpu] at hd
    cases hload with
    | shortcut hl => exact hcur hd hlast
    | migrated hl ho h =>
      cases Option.some.inj hd
      exact Function.update_self ..

theorem VStep.loadInv {x x' : Vmx} {ws ws' : VcpuId → Option VcpuVmx} {f : CpuId → Option Phys}
    {op : Op} {l : List Event} (h : VStep x ws op x' ws' l) (hinv : LoadInv x ws f)
    (hfresh : op.FreshPage ws) : LoadInv x' ws' (l.foldl loadAfter f) := by
  refine ⟨fun c p hc => ?_, fun {u v c} hv hc => ?_, h.ownPages hinv.pages hfresh⟩
  · rw [h.holders.current] at hc
    exact hinv.last.foldl l c p hc
  · by_cases hu : u = op.vcpu
    · subst hu
      cases h with
      | setupIdle hu => exact hinv.loaded hv hc
      | runIdle hu => exact hinv.loaded hv hc
      | teardownIdle hu => exact hinv.loaded hv hc
      | setup hu h =>
        -- a setup ends with the VMCS unloaded
        simp only [Op.vcpu, Function.update_self] at hv
        split at hv
        · rename_i hr
          rw [hr] at h
          obtain ⟨page, -, hpage⟩ := h.page
          rw [← Option.some.inj hv, hpage] at hc
          exact absurd hc (by simp)
        · exact absurd hv (by simp)
      | run hu h =>
        simp only [Op.vcpu, Function.update_self] at hv
        rw [← Option.some.inj hv] at hc ⊢
        exact h.currentIfLast (hinv.loaded hu) hc
      | teardown hu h =>
        simp only [Op.vcpu, Function.update_self] at hv
        exact absurd hv (by simp)
    · rw [h.others hu] at hv
      intro hlast
      rw [h.holders.current]
      exact (hinv.loaded hv hc).foldl (h.avoids hinv.pages hfresh hu hv) hlast

/-! ### Runs -/

/-- An access to the current VMCS, or an entry, finds `p` current. -/
def Event.Current (p : Phys) : Event → Prop
  | .vmread _ cur _ _ => cur = some p
  | .vmwrite _ cur _ _ _ => cur = some p
  | .enter _ cur _ _ _ => cur = some p
  | _ => True

theorem Event.IsLoop.current {c : CpuId} {x : Vmx} {w : VcpuVmx} {e : Event} {p : Phys}
    (h : e.IsLoop c x w) (hx : x.current c = some p) : e.Current p := by
  cases e <;> first | exact h.2.1.trans hx | trivial

theorem current_of_mem_unloadEvents {x : Vmx} {c : CpuId} {w : VcpuVmx} {ok : Bool} {e : Event}
    (h : e ∈ x.unloadEvents c w ok) (p : Phys) : e.Current p := by
  rw [Vmx.unloadEvents] at h
  split at h
  · exact absurd h List.not_mem_nil
  · split at h
    · rw [List.mem_singleton.1 h]
      trivial
    · exact absurd h List.not_mem_nil

theorem Loaded.current_of_mem {c : CpuId} {x x' : Vmx} {w w' : VcpuVmx} {o : RunCall}
    {l : List Event} (h : Loaded c x w o x' w' l) : ∀ e ∈ l, e.Current w.vmcsPhys := by
  cases h with
  | shortcut hl => exact fun e he => absurd he List.not_mem_nil
  | migrated hl ho h =>
    intro e he
    rcases List.mem_append.1 he with he | he
    · exact current_of_mem_unloadEvents he _
    · rcases List.mem_cons.1 he with rfl | he
      · trivial
      · exact (h e he).isLoop.current (Function.update_self ..)

/-- KVM_RUN works on the vCPU's own VMCS unless it skips the reload by mistake. -/
theorem RunSteps.current_iff {c : CpuId} {x x' : Vmx} {w w' : VcpuVmx} {o : RunCall}
    {l : List Event} (h : RunSteps c x w o x' w' l) (hv : x.vmxonDone c = true) :
    (∀ e ∈ l, e.Current w.vmcsPhys) ↔ (w.loadedCpu = some c → x.current c = some w.vmcsPhys) := by
  cases h with
  | notVmx hv' => exact absurd (hv'.symm.trans hv) Bool.false_ne_true
  | ptrldFail _ hl ho =>
    exact ⟨fun _ h => absurd h hl, fun _ e he => current_of_mem_unloadEvents he _⟩
  | @ran _ x₁ w₁ l₁ _ _ l hload hloop =>
    have hframe := hloop.loopFrame
    constructor
    · intro h hl
      -- without a reload the entry itself shows what is current
      cases hload with
      | shortcut _ => exact h _ (List.mem_append_right _ hframe.entry)
      | migrated hl' _ _ => exact absurd hl hl'
    · intro hcur e he
      rcases List.mem_append.1 he with he | he
      · exact hload.current_of_mem e he
      · exact (hframe.events e he).current (hload.current hcur).2.2

namespace World

/-- A call executes on a CPU in VMX operation and is given a page that is free. -/
structure Env (w : World) (op : Op) : Prop where
  vmxon : (w.hw.cpu op.cpu).vmxonDone = true
  page : op.FreshPage w.vcpuVmx

/-- If the call is a KVM_RUN, it works on the vCPU's own VMCS. -/
def CurrentInRun (w : World) : Op → Prop
  | .run u cpu allocs o => ∀ v, w.vcpu u = some v →
      ∀ e ∈ w.events (.run u cpu allocs o), e.Current v.vcpu.vmcsPhys
  | _ => True

/-- If the call is a KVM_RUN of a vCPU that is recorded as loaded here, the last VMPTRLD here was
its own. -/
def LastLoadOwn (w : World) : Op → Prop
  | .run u cpu _ _ => ∀ v, w.vcpu u = some v → v.vcpu.loadedCpu = some cpu →
      w.lastLoad cpu = some v.vcpu.vmcsPhys
  | _ => True

def LoadInv (w : World) : Prop := Kvm.LoadInv w.hw.vmx w.vcpuVmx w.lastLoad

theorem Boot.loadInv {w : World} (h : w.Boot) : w.LoadInv := by
  refine ⟨fun c p hc => ?_, fun hv => absurd hv h.vcpuVmx, h.ownPages⟩
  have : w.hw.vmx.current c = none := h.current c
  exact absurd (this.symm.trans hc) (by simp)

theorem LoadInv.step {w : World} {op : Op} (h : w.LoadInv) (henv : w.Env op) :
    (w.step op).LoadInv := by
  have := (w.exec_vstep op).loadInv h henv.page
  rwa [LoadInv, lastLoad, trace_step, List.foldl_append]

theorem LoadInv.currentInRun_iff {w : World} {op : Op} (h : w.LoadInv) (henv : w.Env op) :
    w.CurrentInRun op ↔ w.LastLoadOwn op := by
  cases op with
  | setup u m cpu o => exact Iff.rfl
  | teardown u cpu ok => exact Iff.rfl
  | run u cpu allocs o =>
    refine forall₂_congr fun v hu => ?_
    have hu' : w.vcpuVmx u = some v.vcpu.vmx := by rw [vcpuVmx, hu, Option.map_some]
    have hstep := w.exec_vstep (.run u cpu allocs o)
    have hiff : (∀ e ∈ w.events (.run u cpu allocs o), e.Current v.vcpu.vmx.vmcsPhys) ↔
        (v.vcpu.vmx.loadedCpu = some cpu →
          w.hw.vmx.current cpu = some v.vcpu.vmx.vmcsPhys) := by
      generalize (w.step (.run u cpu allocs o)).hw.vmx = x' at hstep
      generalize (w.step (.run u cpu allocs o)).vcpuVmx = ws' at hstep
      generalize w.events (.run u cpu allocs o) = l at hstep ⊢
      cases hstep with
      | runIdle hnone => exact absurd (hnone.symm.trans hu') (by simp)
      | run hsome hrun =>
        cases Option.some.inj (hsome.symm.trans hu')
        exact hrun.current_iff henv.vmxon
    refine hiff.trans (forall_congr' fun hl => ?_)
    exact ⟨h.last cpu _, h.loaded hu' hl⟩

/-- In a run of setups, KVM_RUNs and teardowns, every KVM_RUN works on the vCPU's own VMCS if and
only if no vCPU skips the reload after another one was loaded on its CPU. -/
theorem runs_current_iff {w : World} {ops : List Op} (h : w.Boot)
    (henv : AllSteps World.step World.Env w ops) :
    AllSteps World.step World.CurrentInRun w ops ↔ AllSteps World.step World.LastLoadOwn w ops :=
  allSteps_iff (fun _ _ hinv henv _ => hinv.step henv)
    (fun _ _ hinv henv => hinv.currentInRun_iff henv) h.loadInv henv

theorem runs_current_iff_boot :
    AllSteps World.step World.CurrentInRun boot [.setup 0 0 0 (setupCall 1), .run 0 0 [] haltRun] ↔
      AllSteps World.step World.LastLoadOwn boot
        [.setup 0 0 0 (setupCall 1), .run 0 0 [] haltRun] := by
  refine runs_current_iff boot_boot ⟨⟨rfl, ?_⟩, ⟨?_, trivial⟩, trivial⟩
  · exact fun page u v _ hv => absurd hv (by simp [vcpuVmx, boot])
  · decide +kernel

instance (p : Phys) : DecidablePred (Event.Current p)
  | .vmread _ cur _ _ => inferInstanceAs (Decidable (cur = some p))
  | .vmwrite _ cur _ _ _ => inferInstanceAs (Decidable (cur = some p))
  | .enter _ cur _ _ _ => inferInstanceAs (Decidable (cur = some p))
  | .entryFailure _ _ | .vmptrld _ _ | .vmclear _ _ | .freeVmcs _ _ => isTrue trivial

/-! ### Two VMs on one CPU -/

/-- A second VM is set up on the CPU that the first one has run on and will run on again. -/
def twoVms : List Op :=
  [.setup 0 0 0 (setupCall 1), .run 0 0 [] haltRun, .setup 1 1 0 (setupCall 2),
    .run 0 0 [] haltRun]

theorem twoVms_env : AllSteps World.step World.Env boot twoVms := by
  have hidle : ∀ {u}, boot.vcpuVmx u = none := rfl
  refine ⟨⟨rfl, ?_⟩, ⟨?_, trivial⟩, ⟨?_, ?_⟩, ⟨?_, trivial⟩, trivial⟩
  · exact fun page u v _ hv => absurd (hidle.symm.trans hv) (by simp)
  · decide +kernel
  · decide +kernel
  · intro page u v hpage hv
    by_cases hu : u = 0
    · subst hu
      have hfst : (((boot.step (.setup 0 0 0 (setupCall 1))).step
          (.run 0 0 [] haltRun)).vcpuVmx 0).map VcpuVmx.vmcsPage = some (some 1) := by
        decide +kernel
      rw [hv, Option.map_some] at hfst
      rw [Option.some.inj hfst, ← hpage]
      decide
    · rw [vcpuVmx_step_of_ne hu, vcpuVmx_step_of_ne hu, hidle] at hv
      exact absurd hv (by simp)
  · decide +kernel

/-- Not every KVM_RUN works on the vCPU's own VMCS. -/
theorem not_currentInRun : ¬ ∀ (w : World) (ops : List Op), w.Boot →
    AllSteps World.step World.Env w ops → AllSteps World.step World.CurrentInRun w ops := by
  intro h
  obtain ⟨-, -, -, hlast, -⟩ := h boot twoVms boot_boot twoVms_env
  generalize hw : ((boot.step (.setup 0 0 0 (setupCall 1))).step (.run 0 0 [] haltRun)).step
    (.setup 1 1 0 (setupCall 2)) = w at hlast
  have hforeign : (w.vcpu 0).any (fun v => (w.events (.run 0 0 [] haltRun)).any
      fun e => !decide (e.Current v.vcpu.vmcsPhys)) = true := by
    rw [← hw]
    decide +kernel
  obtain ⟨v, hv, he⟩ := Option.any_eq_true _ _ |>.1 hforeign
  obtain ⟨e, hmem, hcur⟩ := List.any_eq_true.1 he
  simp only [Bool.not_eq_true', decide_eq_false_iff_not] at hcur
  exact hcur (hlast v hv e hmem)

end World

end MiniVirt.Kvm
