import MiniVirt.Kvm.Spec.Loads

/-!
# Setup and teardown on the VMX state

`mini_vcpu_vmx_setup()` is `SetupSteps` and `mini_vcpu_vmx_teardown()` is `TeardownSteps`, with one
case for each way through the code.
-/

namespace MiniVirt.Kvm

/-- The free of the VMCS page `page` in the VMX state `x`. -/
def freeEvent (x : Vmx) (page : Pfn) : Event := .freeVmcs page fun d => x.active d (pageToPhys page)

/-- The vCPU while its VMCS is set up on the CPU `c`. -/
def VcpuVmx.inSetup (c : CpuId) (page : Pfn) : VcpuVmx := ⟨some page, pageToPhys page, false, some c⟩

/-- The machine after VMCLEAR and VMPTRLD of a new VMCS. -/
def Vmx.setupLoad (x : Vmx) (c : CpuId) (page : Pfn) : Vmx :=
  (x.vmclear c (pageToPhys page)).vmptrld c (pageToPhys page)

/-- `mini_vcpu_vmx_setup()` on the CPU `c` from the VMX state `x`, for a new vCPU. -/
inductive SetupSteps (c : CpuId) (x : Vmx) (o : SetupCall) :
    Int → Vmx → VcpuVmx → List Event → Prop where
  | noPage (h : o.page = none) : SetupSteps c x o (-enomem) x MiniKvmVcpu.fresh.vmx []
  | clearFail {page} (h : o.page = some page) (ho : o.vmclearOk = false) :
      SetupSteps c x o (-eio) x ⟨none, pageToPhys page, false, none⟩ [freeEvent x page]
  | ptrldFail {page} (h : o.page = some page) (hc : o.vmclearOk = true)
      (hp : o.vmptrldOk = false) :
      SetupSteps c x o (-eio) (x.vmclear c (pageToPhys page))
        ⟨none, pageToPhys page, false, none⟩
        [.vmclear c (pageToPhys page), freeEvent (x.vmclear c (pageToPhys page)) page]
  | rejected {page} (h : o.page = some page) (hc : o.vmclearOk = true) (hp : o.vmptrldOk = true) :
      SetupSteps c x o (-eopnotsupp) ((x.setupLoad c page).unload c (.inSetup c page) o.unloadOk)
        ⟨none, pageToPhys page, false, none⟩
        ([.vmclear c (pageToPhys page), .vmptrld c (pageToPhys page)] ++
          (x.setupLoad c page).unloadEvents c (.inSetup c page) o.unloadOk ++
          [freeEvent ((x.setupLoad c page).unload c (.inSetup c page) o.unloadOk) page])
  | ok {page} (h : o.page = some page) (hc : o.vmclearOk = true) (hp : o.vmptrldOk = true)
      {l} (hl : ∀ e ∈ l, e.IsAccess c (x.setupLoad c page) (.inSetup c page)) :
      SetupSteps c x o 0 ((x.setupLoad c page).unload c (.inSetup c page) o.unloadOk)
        ⟨some page, pageToPhys page, false, none⟩
        ([.vmclear c (pageToPhys page), .vmptrld c (pageToPhys page)] ++
          (l ++ (x.setupLoad c page).unloadEvents c (.inSetup c page) o.unloadOk))

/-- `mini_vcpu_vmx_teardown()` on the CPU `c`. -/
inductive TeardownSteps (c : CpuId) (x : Vmx) (w : VcpuVmx) (ok : Bool) :
    Vmx → VcpuVmx → List Event → Prop where
  | noPage (h : w.vmcsPage = none) : TeardownSteps c x w ok x w []
  | free {page} (h : w.vmcsPage = some page) :
      TeardownSteps c x w ok (x.unload c w ok) { w.unload with vmcsPage := none }
        (x.unloadEvents c w ok ++ [freeEvent (x.unload c w ok) page])

theorem freeVmcsPage_effect (s : St) (page : Pfn) :
    Effect s ((freeVmcsPage page).run s).2 s.hw.vmx { s.vcpu.vmx with vmcsPage := none }
      [freeEvent s.hw.vmx page] :=
  ⟨rfl, rfl, rfl, rfl⟩

theorem Effect.free {s s₁ : St} {x : Vmx} {w : VcpuVmx} {l : List Event} (h : Effect s s₁ x w l)
    (page : Pfn) : Effect s ((freeVmcsPage page).run s₁).2 x { w with vmcsPage := none }
      (l ++ [freeEvent x page]) := by
  have h₂ := h.trans (freeVmcsPage_effect s₁ page)
  rwa [h.vmx, h.vcpu] at h₂

theorem miniVcpuVmxTeardown_steps (s : St) (ok : Bool) : ∃ x w l,
    TeardownSteps s.cpu s.hw.vmx s.vcpu.vmx ok x w l ∧
      Effect s ((miniVcpuVmxTeardown ok).run s).2 x w l := by
  cases hp : s.vcpu.vmcsPage with
  | none =>
    have hrun : ((miniVcpuVmxTeardown ok).run s).2 = s := by
      simp [miniVcpuVmxTeardown, hp]
      rfl
    rw [hrun]
    exact ⟨_, _, _, .noPage hp, rfl, rfl, rfl, (List.append_nil _).symm⟩
  | some page =>
    have hrun : ((miniVcpuVmxTeardown ok).run s).2 =
        ((freeVmcsPage page).run ((miniVmcsClear ok).run s).2).2 := by
      simp [miniVcpuVmxTeardown, hp]
      rfl
    have h₁ := miniVmcsClear_effect s ok
    rw [hrun]
    exact ⟨_, _, _, .free hp, h₁.free page⟩

theorem miniComputeControls_error {t : Bool} {rdmsr : CtlMsr → BitVec 64} {r : Int}
    (h : miniComputeControls t rdmsr = .error r) : r = -eopnotsupp := by
  rw [miniComputeControls] at h
  split at h
  · exact (Except.error.inj h).symm
  · exact absurd h (by simp)

/-- The state after `vcpu->loaded_cpu = raw_smp_processor_id()`. -/
def St.recordCpu (s : St) : St := { s with vcpu := { s.vcpu with loadedCpu := some s.cpu } }

section Loaded

variable {s : St} {o : SetupCall} (page : Pfn)

theorem vmxSetupLoaded_error {r : Int} (h : miniComputeControls s.hw.trueCtls o.rdmsr = .error r) :
    (vmxSetupLoaded page o).run s = (do
      miniVmcsClear o.unloadOk
      freeVmcsPage page
      return r : M Int).run s.recordCpu := by
  have hs : (modify St.recordCpu : M Unit).run s = ((), s.recordCpu) := rfl
  have h' : miniComputeControls s.recordCpu.hw.trueCtls o.rdmsr = .error r := h
  unfold vmxSetupLoaded
  refine (run_bind (modify St.recordCpu) _ s).trans ?_
  rw [hs, run_bind, run_get]
  dsimp only
  rw [h']

theorem vmxSetupLoaded_ok {c : MiniVmcsControls} (h : miniComputeControls s.hw.trueCtls o.rdmsr = .ok c) :
    (vmxSetupLoaded page o).run s = (do
      vmwriteAll (vmcsControlFields c s.kvm.ept.eptp)
      miniVmxSetGuestState
      miniVmxSetConstantHostState
      miniVmcsClear o.unloadOk
      return 0 : M Int).run s.recordCpu := by
  have hs : (modify St.recordCpu : M Unit).run s = ((), s.recordCpu) := rfl
  have h' : miniComputeControls s.recordCpu.hw.trueCtls o.rdmsr = .ok c := h
  unfold vmxSetupLoaded
  refine (run_bind (modify St.recordCpu) _ s).trans ?_
  rw [hs, run_bind, run_get]
  dsimp only
  rw [h']
  rfl

end Loaded

theorem vmxSetupLoaded_steps {s : St} {page : Pfn} {o : SetupCall}
    (hw : s.vcpu.vmx = ⟨some page, pageToPhys page, false, none⟩) :
    (((vmxSetupLoaded page o).run s).1 = -eopnotsupp ∧
        Effect s ((vmxSetupLoaded page o).run s).2
          (s.hw.vmx.unload s.cpu (.inSetup s.cpu page) o.unloadOk)
          ⟨none, pageToPhys page, false, none⟩
          (s.hw.vmx.unloadEvents s.cpu (.inSetup s.cpu page) o.unloadOk ++
            [freeEvent (s.hw.vmx.unload s.cpu (.inSetup s.cpu page) o.unloadOk) page])) ∨
      ((vmxSetupLoaded page o).run s).1 = 0 ∧ ∃ l,
        (∀ e ∈ l, e.IsAccess s.cpu s.hw.vmx (.inSetup s.cpu page)) ∧
        Effect s ((vmxSetupLoaded page o).run s).2
          (s.hw.vmx.unload s.cpu (.inSetup s.cpu page) o.unloadOk)
          ⟨some page, pageToPhys page, false, none⟩
          (l ++ s.hw.vmx.unloadEvents s.cpu (.inSetup s.cpu page) o.unloadOk) := by
  have h₀ : Effect s s.recordCpu s.hw.vmx (.inSetup s.cpu page) [] := by
    refine ⟨rfl, rfl, ?_, (List.append_nil _).symm⟩
    have : s.recordCpu.vcpu.vmx = { s.vcpu.vmx with loadedCpu := some s.cpu } := rfl
    rw [this, hw]
    rfl
  cases hc : miniComputeControls s.hw.trueCtls o.rdmsr with
  | error r =>
    -- the controls are rejected: VMCLEAR, and the page is freed
    rw [vmxSetupLoaded_error page hc]
    refine .inl ⟨miniComputeControls_error hc, ?_⟩
    have h₁ := h₀.trans (miniVmcsClear_effect s.recordCpu o.unloadOk)
    rw [h₀.cpu, h₀.vmx, h₀.vcpu] at h₁
    simp only [run_bind]
    exact h₁.free page
  | ok c =>
    -- between VMPTRLD and VMCLEAR there are VMWRITEs only
    have hwrites : Within accessFrame (do
        vmwriteAll (vmcsControlFields c s.kvm.ept.eptp)
        miniVmxSetGuestState
        miniVmxSetConstantHostState : M Unit) :=
      (vmwriteAll_within fun _ _ => miniVmwrite_within _ _).bind fun _ =>
        accessFrame_allowsWork.miniVmxSetGuestState_within.bind fun _ =>
          accessFrame_allowsWork.miniVmxSetConstantHostState_within
    rw [vmxSetupLoaded_ok page hc]
    obtain ⟨l, h₁, hl⟩ := hwrites s.recordCpu
    simp only [run_bind, StateT.run_pure] at h₁ ⊢
    generalize (miniVmxSetConstantHostState.run _).2 = s₁ at h₁ ⊢
    rw [h₀.cpu, h₀.vmx, h₀.vcpu] at hl
    rw [h₀.vmx, h₀.vcpu] at h₁
    have h₂ := h₀.trans h₁
    have h₃ := h₂.trans (miniVmcsClear_effect s₁ o.unloadOk)
    rw [h₂.cpu, h₂.vmx, h₂.vcpu] at h₃
    exact .inr ⟨rfl, l, hl, h₃⟩

theorem vmxSetupPage_effect (s : St) (page : Pfn) (hw : s.vcpu.vmx = MiniKvmVcpu.fresh.vmx) :
    Effect s ((vmxSetupPage page).run s).2 s.hw.vmx
      ⟨some page, pageToPhys page, false, none⟩ [] := by
  have hl : s.vcpu.launched = false := congrArg VcpuVmx.launched hw
  have hc : s.vcpu.loadedCpu = none := congrArg VcpuVmx.loadedCpu hw
  refine ⟨rfl, Hw.vmx_setVmcs rfl, ?_, (List.append_nil _).symm⟩
  rw [← hl, ← hc]
  rfl

/-- Every setup of a new vCPU is a `SetupSteps`. -/
theorem miniVcpuVmxSetup_steps (s : St) (o : SetupCall)
    (hw : s.vcpu.vmx = MiniKvmVcpu.fresh.vmx) : ∃ x w l,
    SetupSteps s.cpu s.hw.vmx o ((miniVcpuVmxSetup o).run s).1 x w l ∧
      Effect s ((miniVcpuVmxSetup o).run s).2 x w l := by
  cases hp : o.page with
  | none =>
    have hrun : (miniVcpuVmxSetup o).run s = (-enomem, s) := by
      rw [miniVcpuVmxSetup, hp]
      rfl
    rw [hrun]
    exact ⟨_, _, _, .noPage hp, rfl, rfl, hw, (List.append_nil _).symm⟩
  | some page =>
    have h₁ := vmxSetupPage_effect s page hw
    rw [miniVcpuVmxSetup, hp]
    simp only [run_bind, run_ite, StateT.run_pure]
    generalize ((vmxSetupPage page).run s).2 = s₁ at h₁ ⊢
    -- VMCLEAR
    have hclear : (miniVmclear (pageToPhys page) o.vmclearOk).run s₁ =
        (vmclearOn s₁.cpu (pageToPhys page) o.vmclearOk).run s₁ := rfl
    obtain ⟨hr₂, h₂⟩ := vmclearOn_effect s₁ s₁.cpu (pageToPhys page) o.vmclearOk
    rw [hclear]
    have hx₂ := h₁.trans h₂
    rw [h₁.cpu, h₁.vmx, h₁.vcpu, List.nil_append] at hx₂
    rw [h₁.cpu] at hr₂ ⊢
    generalize ((vmclearOn s.cpu (pageToPhys page) o.vmclearOk).run s₁).1 = r₂ at hr₂ ⊢
    generalize ((vmclearOn s.cpu (pageToPhys page) o.vmclearOk).run s₁).2 = s₂ at hx₂ ⊢
    cases hok : o.vmclearOk with
    | false =>
      rw [hok] at hr₂ hx₂
      have hne : r₂ = -eio := hr₂
      have hx : Effect s s₂ s.hw.vmx ⟨some page, pageToPhys page, false, none⟩ [] := hx₂
      rw [hne, if_pos (by decide)]
      exact ⟨_, _, _, .clearFail hp hok, hx.free page⟩
    | true =>
      rw [hok] at hr₂ hx₂
      have heq : r₂ = 0 := hr₂
      have hx : Effect s s₂ (s.hw.vmx.vmclear s.cpu (pageToPhys page))
        ⟨some page, pageToPhys page, false, none⟩ [.vmclear s.cpu (pageToPhys page)] := hx₂
      rw [heq, if_neg (by decide)]
      -- VMPTRLD
      obtain ⟨hr₃, h₃⟩ := miniVmptrld_effect s₂ (pageToPhys page) o.vmptrldOk
      have hx₃ := hx.trans h₃
      rw [hx.cpu, hx.vmx, hx.vcpu] at hx₃
      generalize ((miniVmptrld (pageToPhys page) o.vmptrldOk).run s₂).1 = r₃ at hr₃ ⊢
      generalize ((miniVmptrld (pageToPhys page) o.vmptrldOk).run s₂).2 = s₃ at hx₃ ⊢
      cases hok' : o.vmptrldOk with
      | false =>
        rw [hok'] at hr₃ hx₃
        have hne : r₃ = -eio := hr₃
        have hx : Effect s s₃ (s.hw.vmx.vmclear s.cpu (pageToPhys page))
          ⟨some page, pageToPhys page, false, none⟩ [.vmclear s.cpu (pageToPhys page)] := hx₃
        rw [hne, if_pos (by decide)]
        exact ⟨_, _, _, .ptrldFail hp hok hok', hx.free page⟩
      | true =>
        rw [hok'] at hr₃ hx₃
        have heq : r₃ = 0 := hr₃
        have hx : Effect s s₃ (s.hw.vmx.setupLoad s.cpu page)
          ⟨some page, pageToPhys page, false, none⟩
          [.vmclear s.cpu (pageToPhys page), .vmptrld s.cpu (pageToPhys page)] := hx₃
        rw [heq, if_neg (by decide)]
        obtain ⟨hr, h₄⟩ | ⟨hr, l, hl, h₄⟩ := vmxSetupLoaded_steps (o := o) hx.vcpu
        · rw [hx.cpu, hx.vmx] at h₄
          rw [hr]
          have := hx.trans h₄
          rw [← List.append_assoc] at this
          exact ⟨_, _, _, .rejected hp hok hok', this⟩
        · rw [hx.cpu, hx.vmx] at h₄ hl
          rw [hr]
          exact ⟨_, _, _, .ok hp hok hok' hl, hx.trans h₄⟩

end MiniVirt.Kvm
