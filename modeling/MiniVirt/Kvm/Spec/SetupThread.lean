import MiniVirt.Kvm.SetupThread
import MiniVirt.Kvm.Spec.Activity
import MiniVirt.Kvm.Spec.Currency
import MiniVirt.Kvm.Spec.Fields

/-!
# Setups that are preempted

A setup should write its own VMCS, and leave it with the values that it has written and active nowhere,
wherever its thread is moved to meanwhile.  That holds as long as the VMWRITEs, and the step that records
`loaded_cpu`, execute where the VMPTRLD has, and nothing else has been loaded there since
(`Sched.setupLaw_of_undisturbed`).
-/

namespace MiniVirt.Kvm

/-! ### The law -/

/-- The last value that has been written to each field. -/
def lastWrites (l : List (VmcsField × BitVec 64)) : VmcsField → Option (BitVec 64) :=
  l.foldl (fun m x => Function.update m x.1 (some x.2)) fun _ => none

def SetupPc.IsWrite : SetupPc → Prop
  | .vmwrite _ _ _ _ => True
  | _ => False

namespace Sched

/-- A VMWRITE of a setup goes to its own VMCS.  When the setup returns, what it has written is there, and
the VMCS is active on no CPU. -/
structure SetupLaw (x : Sched) (op : SchedOp) : Prop where
  own : ∀ u t, op = .step u → x.setup u = some t → ∀ e ∈ x.events op, e.Current (pageToPhys t.page)
  kept : ∀ u t, (x.step op).setup u = some t → t.pc = .returned 0 → ∀ f v, lastWrites t.written f = some v →
    ((x.step op).world.hw.vmcs (pageToPhys t.page)).field f = v
  inactive : ∀ u t t' r, op = .step u → x.setup u = some t → t.pc ≠ .returned r →
    (x.step op).setup u = some t' → t'.pc = .returned r →
      ∀ c, ((x.step op).world.hw.cpu c).active (pageToPhys t'.page) = false

/-- The module has just been loaded. -/
structure Boot (x : Sched) : Prop where
  world : x.world.Boot
  setup : ∀ u, x.setup u = none

/-- The CPU is online and in VMX operation. -/
def Usable (x : Sched) (cpu : CpuId) : Prop :=
  (x.world.hw.cpu cpu).online = true ∧ (x.world.hw.cpu cpu).vmxonDone = true

/-- The page is the VMCS page of a vCPU. -/
def Held (x : Sched) (page : Pfn) : Prop :=
  (∃ u t, x.setup u = some t ∧ t.vcpu.vmcsPage = some page) ∨
    ∃ u v, x.world.vcpu u = some v ∧ v.vcpu.vmcsPage = some page

/-- Code executes on CPUs in VMX operation, `alloc_page()` gives a page that is free, and the VMCLEARs of loaded
VMCSs succeed. -/
def Env (x : Sched) : SchedOp → Prop
  | .start _ _ cpu o => x.Usable cpu ∧ (∀ page, o.page = some page → ¬ x.Held page) ∧ o.unloadOk = true
  | .step _ => True
  | .migrate _ cpu => x.Usable cpu
  | .finish _ => True
  | .run _ cpu _ o => x.Usable cpu ∧ o.clearOk = true
  | .teardown _ cpu ok => x.Usable cpu ∧ ok = true

/-- `loaded_cpu` is recorded, and every VMWRITE executes, on the CPU of the VMPTRLD, and nothing else has been
loaded there before the VMWRITE.  No vCPU skips the reload on a CPU on which a VMCS in setup was loaded
last. -/
def Undisturbed (x : Sched) : SchedOp → Prop
  | .step u => ∀ t, x.setup u = some t →
      (t.pc = .recordCpu → t.loadCpu = some t.cpu) ∧
        (t.pc.IsWrite → t.loadCpu = some t.cpu ∧ x.world.lastLoad t.cpu = some (pageToPhys t.page))
  | .run u cpu _ _ => ∀ v, x.world.vcpu u = some v → v.vcpu.loadedCpu = some cpu →
      ∀ u' t, x.setup u' = some t → t.loadCpu = some cpu → x.world.lastLoad cpu ≠ some (pageToPhys t.page)
  | _ => True

end Sched

/-! ### The steps of a setup -/

/-- One step of the setup on the CPU `c` from the VMX state `x` and `w`. -/
inductive SetupMove (c : CpuId) (x : Vmx) (w : VcpuVmx) (page : Pfn) (o : SetupCall) :
    SetupPc → SetupPc → Vmx → VcpuVmx → List Event → Prop where
  | clear (ok : o.vmclearOk = true) :
      SetupMove c x w page o .vmclear .vmptrld (x.vmclear c (pageToPhys page)) w [.vmclear c (pageToPhys page)]
  | clearFail : SetupMove c x w page o .vmclear (.freePage (-eio)) x w []
  | load (ok : o.vmptrldOk = true) :
      SetupMove c x w page o .vmptrld .recordCpu (x.vmptrld c (pageToPhys page)) w [.vmptrld c (pageToPhys page)]
  | loadFail : SetupMove c x w page o .vmptrld (.freePage (-eio)) x w []
  | record : SetupMove c x w page o .recordCpu .computeControls x { w with loadedCpu := some c } []
  | reject : SetupMove c x w page o .computeControls (.unload (-eopnotsupp)) x w []
  | accept (d : MiniVmcsControls) : SetupMove c x w page o .computeControls (.value d 0) x w []
  | value (d : MiniVmcsControls) (k : Nat) (f : VmcsField) (v : BitVec 64) :
      SetupMove c x w page o (.value d k) (.vmwrite d k f v) x w []
  | written (d : MiniVmcsControls) (k : Nat) : SetupMove c x w page o (.value d k) (.unload 0) x w []
  | write (d : MiniVmcsControls) (k : Nat) (f : VmcsField) (v : BitVec 64) :
      SetupMove c x w page o (.vmwrite d k f v) (.value d (k + 1)) x w [.vmwrite c (x.current c) w.vmcsPhys f v]
  | unload (r : Int) :
      SetupMove c x w page o (.unload r) (if r ≠ 0 then .freePage r else .returned 0) (x.unload c w o.unloadOk)
        w.unload (x.unloadEvents c w o.unloadOk)
  | free (r : Int) :
      SetupMove c x w page o (.freePage r) (.returned r) x { w with vmcsPage := none } [freeEvent x page]
  | returned (r : Int) : SetupMove c x w page o (.returned r) (.returned r) x w []

theorem setupStep_move (s : St) (page : Pfn) (o : SetupCall) (pc : SetupPc) : ∃ x w l,
    SetupMove s.cpu s.hw.vmx s.vcpu.vmx page o pc ((setupStep page o pc).run s).1 x w l ∧
      Effect s ((setupStep page o pc).run s).2 x w l := by
  have hskip : Effect s s s.hw.vmx s.vcpu.vmx [] := ⟨rfl, rfl, rfl, (List.append_nil _).symm⟩
  cases pc with
  | vmclear =>
    obtain ⟨hr, he⟩ := vmclearOn_effect s s.cpu (pageToPhys page) o.vmclearOk
    have hrun : (setupStep page o .vmclear).run s =
        (if ((vmclearOn s.cpu (pageToPhys page) o.vmclearOk).run s).1 ≠ 0 then
            .freePage ((vmclearOn s.cpu (pageToPhys page) o.vmclearOk).run s).1 else .vmptrld,
          ((vmclearOn s.cpu (pageToPhys page) o.vmclearOk).run s).2) := rfl
    rw [hrun, hr]
    cases hok : o.vmclearOk with
    | true =>
      rw [hok] at he
      exact ⟨_, _, _, .clear hok, he⟩
    | false =>
      rw [hok] at he
      exact ⟨_, _, _, .clearFail, he⟩
  | vmptrld =>
    obtain ⟨hr, he⟩ := miniVmptrld_effect s (pageToPhys page) o.vmptrldOk
    have hrun : (setupStep page o .vmptrld).run s =
        (if ((miniVmptrld (pageToPhys page) o.vmptrldOk).run s).1 ≠ 0 then
            .freePage ((miniVmptrld (pageToPhys page) o.vmptrldOk).run s).1 else .recordCpu,
          ((miniVmptrld (pageToPhys page) o.vmptrldOk).run s).2) := rfl
    rw [hrun, hr]
    cases hok : o.vmptrldOk with
    | true =>
      rw [hok] at he
      exact ⟨_, _, _, .load hok, he⟩
    | false =>
      rw [hok] at he
      exact ⟨_, _, _, .loadFail, he⟩
  | recordCpu => exact ⟨_, _, _, .record, rfl, rfl, rfl, (List.append_nil _).symm⟩
  | computeControls =>
    unfold setupStep
    rw [run_bind, run_get]
    dsimp only
    cases hc : miniComputeControls s.hw.trueCtls o.rdmsr with
    | error r =>
      rw [miniComputeControls_error hc]
      exact ⟨_, _, _, .reject, hskip⟩
    | ok d => exact ⟨_, _, _, .accept d, hskip⟩
  -- what will be written is computed on the CPU of the moment
  | value d k =>
    unfold setupStep
    rw [run_bind, run_get]
    dsimp only
    cases (setupWrites d s)[k]? with
    | none => exact ⟨_, _, _, .written d k, hskip⟩
    | some y => exact ⟨_, _, _, .value d k y.1 y.2, hskip⟩
  | vmwrite d k f v =>
    have hrun : ((setupStep page o (.vmwrite d k f v)).run s).2 = ((miniVmwrite f v).run s).2 := rfl
    refine ⟨_, _, _, .write d k f v, ?_⟩
    rw [hrun, miniVmwrite_run]
    refine ⟨rfl, ?_, rfl, rfl⟩
    cases s.current with
    | none => rfl
    | some p => exact Hw.vmx_vmwrite s.hw p f v
  | unload r => exact ⟨_, _, _, .unload r, miniVmcsClear_effect s o.unloadOk⟩
  | freePage r => exact ⟨_, _, _, .free r, freeVmcsPage_effect s page⟩
  | returned r => exact ⟨_, _, _, .returned r, hskip⟩

theorem setupStep_field (page : Pfn) (o : SetupCall) {pc : SetupPc} (hpc : ¬pc.IsWrite) :
    Within fieldFrame (setupStep page o pc) := by
  have hclear : Within fieldFrame (miniVmclear (pageToPhys page) o.vmclearOk) := fun s =>
    vmclearOn_field s.cpu (pageToPhys page) o.vmclearOk s
  cases pc with
  | vmclear => exact hclear.bind fun _ => .pure _
  | vmptrld => exact (miniVmptrld_field (pageToPhys page) o.vmptrldOk).bind fun _ => .pure _
  | recordCpu => exact Within.bind (fun _ _ => rfl) fun _ => .pure _
  | computeControls =>
    refine Within.get.bind fun s => ?_
    cases miniComputeControls s.hw.trueCtls o.rdmsr <;> exact .pure _
  | value d k =>
    refine Within.get.bind fun s => ?_
    cases (setupWrites d s)[k]? <;> exact .pure _
  | vmwrite d k f v => exact absurd trivial hpc
  | unload r => exact (miniVmcsClear_field o.unloadOk).bind fun _ => .pure _
  | freePage r => exact Within.bind (fun _ _ => rfl) fun _ => .pure _
  | returned r => exact .pure _

/-- A VMWRITE of the setup. -/
theorem setupStep_write (s : St) (page : Pfn) (o : SetupCall) (d : MiniVmcsControls) (k : Nat) (f : VmcsField)
    (v : BitVec 64) {p : Phys} (hcur : s.current = some p) (q : Phys) :
    ((((setupStep page o (.vmwrite d k f v)).run s).2).hw.vmcs q).field =
      if q = p then Function.update (s.hw.vmcs p).field f v else (s.hw.vmcs q).field := by
  have hrun : ((setupStep page o (.vmwrite d k f v)).run s).2 = ((miniVmwrite f v).run s).2 := rfl
  rw [hrun, miniVmwrite_run, hcur]
  show (Function.update s.hw.vmcs p _ q).field = _
  by_cases hq : q = p
  · rw [if_pos hq, hq, Function.update_self]
  · rw [if_neg hq, Function.update_of_ne hq]

/-- What is current is active. -/
def Vmx.CurrentActive (x : Vmx) : Prop := ∀ c p, x.current c = some p → x.active c p = true

theorem Vmx.CurrentActive.replay {x : Vmx} (h : x.CurrentActive) (e : Event) : (x.replay e).CurrentActive := by
  intro c p hc
  cases e with
  | vmptrld d q =>
    rw [Vmx.replay, Vmx.active_vmptrld]
    simp only [Vmx.replay, Vmx.vmptrld] at hc
    by_cases hd : c = d
    · subst hd
      rw [Function.update_self] at hc
      exact .inr ⟨rfl, (Option.some.inj hc).symm⟩
    · rw [Function.update_of_ne hd] at hc
      exact .inl (h c p hc)
  | vmclear d q =>
    rw [Vmx.replay, Vmx.active_vmclear]
    simp only [Vmx.replay, Vmx.vmclear] at hc
    by_cases hd : c = d
    · subst hd
      rw [Function.update_self] at hc
      split at hc
      · cases hc
      · rename_i hne
        exact ⟨h c p hc, fun heq => hne (heq.2 ▸ hc)⟩
    · rw [Function.update_of_ne hd] at hc
      exact ⟨h c p hc, fun heq => hd heq.1⟩
  | _ => exact h c p hc

theorem Vmx.CurrentActive.foldl {x : Vmx} (h : x.CurrentActive) (l : List Event) :
    (l.foldl Vmx.replay x).CurrentActive := by
  induction l generalizing x with
  | nil => exact h
  | cons e l ih => exact ih (h.replay e)

theorem Vmx.CurrentActive.congr {x y : Vmx} (h : x.CurrentActive) (hxy : x.SameHolders y) : y.CurrentActive := by
  intro c p hc
  rw [hxy.current] at hc
  rw [hxy.active]
  exact h c p hc

/-! ### The invariant -/

/-- The VMX state of the vCPU in the setup: it is loaded where the VMPTRLD was, recorded or not. -/
def SetupThread.vmx (t : SetupThread) : VcpuVmx := { t.vcpu.vmx with loadedCpu := t.loadCpu }

/-- What a setup has done so far. -/
def SetupThread.Stage (t : SetupThread) : Prop :=
  match t.pc with
  | .vmclear | .vmptrld => t.vcpu.vmcsPage = some t.page ∧ t.loadCpu = none ∧ t.vcpu.loadedCpu = none
  | .recordCpu => t.vcpu.vmcsPage = some t.page
  | .computeControls | .value _ _ | .vmwrite _ _ _ _ | .unload _ =>
    t.vcpu.vmcsPage = some t.page ∧ t.vcpu.loadedCpu = t.loadCpu
  | .freePage r => t.vcpu.vmcsPage = some t.page ∧ t.loadCpu = none ∧ t.vcpu.loadedCpu = none ∧ r ≠ 0
  | .returned r => t.vcpu.vmcsPage = (if r = 0 then some t.page else none) ∧ t.loadCpu = none ∧ t.vcpu.loadedCpu = none

structure SetupThread.Ok (t : SetupThread) (x : Vmx) : Prop where
  phys : t.vcpu.vmcsPhys = pageToPhys t.page
  cpu : x.online t.cpu = true ∧ x.vmxonDone t.cpu = true
  unloadOk : t.call.unloadOk = true
  stage : t.Stage

/-- What the setup has written is in its VMCS. -/
def SetupThread.Kept (t : SetupThread) (hw : Hw) : Prop :=
  ∀ f v, lastWrites t.written f = some v → (hw.vmcs (pageToPhys t.page)).field f = v

namespace Sched

/-- Who holds a VMCS page: the setups that have not given it back, and the vCPUs that are set up. -/
def holder (x : Sched) (u : VcpuId) : Option VcpuVmx :=
  match x.setup u with
  | some t => if t.vcpu.vmcsPage.isSome then some t.vmx else none
  | none => x.world.vcpuVmx u

structure Inv (x : Sched) : Prop where
  load : LoadInv x.world.hw.vmx x.holder x.world.lastLoad
  active : ActiveInv x.world.hw.vmx x.holder
  current : x.world.hw.vmx.CurrentActive
  setup : ∀ {u t}, x.setup u = some t → x.world.vcpu u = none ∧ t.Ok x.world.hw.vmx
  kept : ∀ {u t}, x.setup u = some t → t.vcpu.vmcsPage.isSome → t.Kept x.world.hw

end Sched

/-! ### Steps of one holder -/

section Update

variable {x x' : Vmx} {ws ws' : VcpuId → Option VcpuVmx} {f : CpuId → Option Phys} {u : VcpuId} {p : Phys}
  {l : List Event}

/-- A step of the holder `u` of `p`: what it loads and clears is `p`. -/
structure HolderStep (x x' : Vmx) (ws ws' : VcpuId → Option VcpuVmx) (u : VcpuId) (p : Phys) (l : List Event) :
    Prop where
  holders : (l.foldl Vmx.replay x).SameHolders x'
  about : ∀ e ∈ l, e.About p
  others : ∀ {u'}, u' ≠ u → ws' u' = ws u'
  own : ∀ {v}, ws u = some v → v.vmcsPhys = p
  other : ∀ {u' v}, u' ≠ u → ws u' = some v → v.vmcsPhys ≠ p
  own' : ∀ {v}, ws' u = some v → v.vmcsPhys = p ∧ ∃ page, v.vmcsPage = some page ∧ v.vmcsPhys = pageToPhys page

theorem HolderStep.ownPages (h : HolderStep x x' ws ws' u p l) (hpages : OwnPages ws) : OwnPages ws' := by
  have hws' : ws' = Function.update ws u (ws' u) := by
    funext u'
    by_cases hu : u' = u
    · rw [hu, Function.update_self]
    · rw [Function.update_of_ne hu, h.others hu]
  rw [hws']
  cases hv : ws' u with
  | none => exact hpages.update_none u
  | some v =>
    obtain ⟨hphys, hpage⟩ := h.own' hv
    refine hpages.update_some hpage fun hu hv' => ?_
    rw [hphys]
    exact h.other hu hv'

theorem HolderStep.loadInv (h : HolderStep x x' ws ws' u p l) (hinv : LoadInv x ws f)
    (hown : ∀ {v c}, ws' u = some v → v.loadedCpu = some c → CurrentIfLast x' (l.foldl loadAfter f) c p) :
    LoadInv x' ws' (l.foldl loadAfter f) := by
  refine ⟨fun c q hc => ?_, fun {u' v c} hv hc => ?_, h.ownPages hinv.pages⟩
  · rw [h.holders.current] at hc
    exact hinv.last.foldl l c q hc
  · by_cases hu : u' = u
    · subst hu
      rw [(h.own' hv).1]
      exact hown hv hc
    · rw [h.others hu] at hv
      intro hlast
      rw [h.holders.current]
      exact (hinv.loaded hv hc).foldl (fun e he => (h.about e he).avoids (h.other hu hv).symm) hlast

theorem HolderStep.activeInv (h : HolderStep x x' ws ws' u p l) (hinv : ActiveInv x ws)
    (hactive : ∀ {d q}, x'.active d q = true → x.active d q = true ∨ q = p)
    (hown : ∀ {d}, x'.active d p = true → ∃ v, ws' u = some v ∧ v.loadedCpu = some d)
    (hreach : ∀ {v}, ws' u = some v → v.Reachable x') : ActiveInv x' ws' := by
  have honline : x'.online = x.online ∧ x'.vmxonDone = x.vmxonDone := by
    obtain ⟨honline, hvmxon⟩ := foldl_replay_online l x
    exact ⟨h.holders.online.trans honline, h.holders.vmxonDone.trans hvmxon⟩
  refine ⟨h.ownPages hinv.pages, fun {d q} hd => ?_, fun {u' v} hv d hd => ?_⟩
  · by_cases hq : q = p
    · subst hq
      obtain ⟨v, hv, hl⟩ := hown hd
      exact ⟨u, v, hv, (h.own' hv).1, hl⟩
    · obtain ⟨u', v, hv, hphys, hl⟩ := hinv.owner ((hactive hd).resolve_right hq)
      have hu : u' ≠ u := by
        rintro rfl
        exact hq (hphys.symm.trans (h.own hv))
      exact ⟨u', v, by rw [h.others hu]; exact hv, hphys, hl⟩
  · by_cases hu : u' = u
    · subst hu
      exact hreach hv d hd
    · rw [h.others hu] at hv
      rw [honline.1, honline.2]
      exact hinv.reachable hv d hd

end Update

/-! ### A step of a setup -/

section Move

variable {c : CpuId} {x x' : Vmx} {w w' : VcpuVmx} {page : Pfn} {o : SetupCall} {pc pc' : SetupPc} {l : List Event}

theorem SetupMove.phys (h : SetupMove c x w page o pc pc' x' w' l) : w'.vmcsPhys = w.vmcsPhys := by
  cases h <;> rfl

theorem SetupMove.follows (h : SetupMove c x w page o pc pc' x' w' l) (hphys : w.vmcsPhys = pageToPhys page) :
    (l.foldl Vmx.replay x).SameHolders x' ∧ ∀ e ∈ l, e.About (pageToPhys page) := by
  have hnil : ∀ e ∈ ([] : List Event), e.About (pageToPhys page) := fun e he => absurd he List.not_mem_nil
  have hone : ∀ {a : Event}, a.About (pageToPhys page) → ∀ e ∈ [a], e.About (pageToPhys page) := by
    intro a ha e he
    rw [List.mem_singleton.1 he]
    exact ha
  cases h with
  | clear _ => exact ⟨.refl _, hone rfl⟩
  | load _ => exact ⟨.refl _, hone rfl⟩
  | unload r =>
    refine ⟨.of_eq (foldl_replay_unloadEvents x c w o.unloadOk), fun e he => ?_⟩
    rw [← hphys]
    exact about_unloadEvents he
  | write d k f v => exact ⟨.refl _, hone trivial⟩
  | free r => exact ⟨.refl _, hone trivial⟩
  | _ => exact ⟨.refl _, hnil⟩

theorem SetupMove.current (h : SetupMove c x w page o pc pc' x' w' l) {p : Phys}
    (hcur : pc.IsWrite → x.current c = some p) : ∀ e ∈ l, e.Current p := by
  intro e he
  cases h with
  | clear _ =>
    rw [List.mem_singleton.1 he]
    trivial
  | load _ =>
    rw [List.mem_singleton.1 he]
    trivial
  | unload r => exact current_of_mem_unloadEvents he p
  | write d k f v =>
    rw [List.mem_singleton.1 he]
    exact hcur trivial
  | free r =>
    rw [List.mem_singleton.1 he]
    trivial
  | _ => exact absurd he List.not_mem_nil

end Move

theorem lastWrites_append (l : List (VmcsField × BitVec 64)) (f : VmcsField) (v : BitVec 64) :
    lastWrites (l ++ [(f, v)]) = Function.update (lastWrites l) f (some v) := by
  unfold lastWrites
  rw [List.foldl_append]
  rfl

namespace SetupThread

variable {t : SetupThread} {x x' : Vmx} {w' : VcpuVmx} {pc : SetupPc} {s : St} {l : List Event}

/-- A step takes the setup to the next stage. -/
theorem Stage.after (h : t.Stage) (hmove : SetupMove t.cpu x t.vcpu.vmx t.page t.call t.pc pc x' s.vcpu.vmx l)
    (hrecord : t.pc = .recordCpu → t.loadCpu = some t.cpu) : (t.after pc s).Stage := by
  obtain ⟨cpu, vm, page, vcpu, call, pc₀, loadCpu, written⟩ := t
  generalize hw : s.vcpu.vmx = w' at hmove
  have hpage : s.vcpu.vmcsPage = w'.vmcsPage := congrArg VcpuVmx.vmcsPage hw
  have hloaded : s.vcpu.loadedCpu = w'.loadedCpu := congrArg VcpuVmx.loadedCpu hw
  unfold Stage at h ⊢
  unfold SetupThread.after
  dsimp only at h hmove hrecord ⊢
  rw [hpage, hloaded]
  cases hmove with
  | clear _ => exact h
  | clearFail => exact ⟨h.1, h.2.1, h.2.2, by decide⟩
  | load _ => exact h.1
  | loadFail => exact ⟨h.1, h.2.1, h.2.2, by decide⟩
  | record => exact ⟨h, (hrecord rfl).symm⟩
  | reject => exact h
  | accept d => exact h
  | value d k f v => exact h
  | written d k => exact h
  | write d k f v => exact h
  | unload r =>
    by_cases hr : r = 0
    · rw [if_neg (not_not.2 hr)]
      exact ⟨h.1, rfl, rfl⟩
    · rw [if_pos hr]
      exact ⟨h.1, rfl, rfl, hr⟩
  | free r =>
    obtain ⟨-, hload, hloaded', hr⟩ := h
    dsimp only
    rw [if_neg hr]
    exact ⟨rfl, hload, hloaded'⟩
  | returned r => exact h

/-- Where the VMCS is loaded, after the VMPTRLDs `f`. -/
structure Loaded (t : SetupThread) (x : Vmx) (f : CpuId → Option Phys) : Prop where
  current : ∀ {d}, t.loadCpu = some d → CurrentIfLast x f d (pageToPhys t.page)
  mirrors : ∀ {d}, x.active d (pageToPhys t.page) = true → t.loadCpu = some d
  reachable : ∀ {d}, t.loadCpu = some d → x.online d = true ∧ x.vmxonDone d = true

theorem Ok.congr {y : Vmx} (h : t.Ok x) (honline : y.online = x.online) (hvmxon : y.vmxonDone = x.vmxonDone) :
    t.Ok y :=
  ⟨h.phys, by rw [honline, hvmxon]; exact h.cpu, h.unloadOk, h.stage⟩

theorem Stage.page_of_isSome (h : t.Stage) (hpage : t.vcpu.vmcsPage.isSome) : t.vcpu.vmcsPage = some t.page := by
  unfold Stage at h
  split at h
  · exact h.1
  · exact h.1
  · exact h
  · exact h.1
  · exact h.1
  · exact h.1
  · exact h.1
  · exact h.1
  · rename_i r _
    by_cases hr : r = 0
    · rw [if_pos hr] at h
      exact h.1
    · rw [h.1, if_neg hr] at hpage
      cases hpage

/-- Between the VMPTRLD and `mini_vmcs_clear()` the setup has its page. -/
theorem Stage.page (h : t.Stage) {d : CpuId} (hd : t.loadCpu = some d) : t.vcpu.vmcsPage = some t.page := by
  unfold Stage at h
  split at h
  · exact h.1
  · exact h.1
  · exact h
  · exact h.1
  · exact h.1
  · exact h.1
  · exact h.1
  · exact h.1
  · rw [h.2.1] at hd
    cases hd

theorem Loaded.after {f : CpuId → Option Phys} (h : t.Loaded x f) (hok : t.Ok x)
    (hmove : SetupMove t.cpu x t.vcpu.vmx t.page t.call t.pc pc x' s.vcpu.vmx l) :
    (t.after pc s).Loaded x' (l.foldl loadAfter f) ∧
      ∀ {d q}, x'.active d q = true → x.active d q = true ∨ q = pageToPhys t.page := by
  obtain ⟨hphys, hcpu, hunload, hstage⟩ := hok
  obtain ⟨cpu, vm, page, vcpu, call, pc₀, loadCpu, written⟩ := t
  generalize hw : s.vcpu.vmx = w' at hmove
  unfold Stage at hstage
  dsimp only at hphys hcpu hunload hstage hmove ⊢
  cases hmove with
  | clear _ =>
    have hnone : loadCpu = none := hstage.2.1
    subst hnone
    refine ⟨⟨fun hd => (by cases hd), fun hd => ?_, fun hd => (by cases hd)⟩, fun hd => ?_⟩
    · exact h.mirrors (Vmx.active_vmclear.1 hd).1
    · exact .inl (Vmx.active_vmclear.1 hd).1
  | load _ =>
    have hnone : loadCpu = none := hstage.2.1
    subst hnone
    refine ⟨⟨fun hd _ => ?_, fun hd => ?_, fun hd => ?_⟩, fun hd => ?_⟩
    · cases Option.some.inj hd
      exact Function.update_self ..
    · rcases Vmx.active_vmptrld.1 hd with hd | ⟨rfl, -⟩
      · cases h.mirrors hd
      · rfl
    · cases Option.some.inj hd
      exact hcpu
    · exact (Vmx.active_vmptrld.1 hd).imp id And.right
  | unload r =>
    -- the VMCLEAR is executed where the VMPTRLD was
    have hrel : x.Released (pageToPhys page) (x.unload cpu vcpu.vmx true) := by
      have hl : vcpu.vmx.loadedCpu = loadCpu := hstage.2
      have hp : vcpu.vmx.vmcsPhys = pageToPhys page := hphys
      rw [← hp]
      refine Vmx.released_unload (fun d hd => ?_) fun d hd => ?_
      · rw [hl]
        exact h.mirrors (hp ▸ hd)
      · exact h.reachable (hl ▸ hd)
    rw [hunload]
    refine ⟨⟨fun hd => (by cases hd), fun hd => ?_, fun hd => (by cases hd)⟩, fun hd => .inl (hrel.others hd)⟩
    exact absurd hd (hrel.own _)
  | _ => exact ⟨⟨h.current, h.mirrors, h.reachable⟩, .inl⟩

end SetupThread

end MiniVirt.Kvm
