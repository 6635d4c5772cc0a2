import MiniVirt.Kvm.Cache
import MiniVirt.Kvm.Spec.EptPointer
import MiniVirt.Kvm.Spec.Delivery

/-!
# The parts of KVM_RUN and the EPT

What comes before the loop leaves the EPT alone and has called INVEPT when it has loaded the VMCS
(`runHead_loads`).  An iteration up to the entry leaves the EPT and the VMX state alone.  The rest of the
iteration handles at most one EPT violation, at the address that the exit has saved (`runLoopExit_ept`).
-/

namespace MiniVirt.Kvm

/-! ### Guarantees -/

/-- The VMCS of the vCPU and the CPU that has it loaded are the same. -/
def ownFrame : Guarantee St where
  rel s s' := s'.vcpu.vmcsPhys = s.vcpu.vmcsPhys ∧ s'.vcpu.vmcsPage = s.vcpu.vmcsPage ∧
    s'.vcpu.loadedCpu = s.vcpu.loadedCpu
  refl _ := ⟨rfl, rfl, rfl⟩
  trans h₁ h₂ := ⟨h₂.1.trans h₁.1, h₂.2.1.trans h₁.2.1, h₂.2.2.trans h₁.2.2⟩

theorem ownFrame_of_vmx {s s' : St} (h : s'.vcpu.vmx = s.vcpu.vmx) : ownFrame.rel s s' :=
  ⟨congrArg VcpuVmx.vmcsPhys h, congrArg VcpuVmx.vmcsPage h, congrArg VcpuVmx.loadedCpu h⟩

theorem ownFrame_of_access {α : Type} {m : M α} (h : Within accessFrame m) : Within ownFrame m :=
  h.mono fun _ _ ⟨_, he, _⟩ => ownFrame_of_vmx he.vcpu

/-! ### Before the loop -/

theorem AllowsCall.runHead_within {G : Guarantee St} (hG : AllowsCall G) (o : RunCall) :
    Within G (Session.runHead o) :=
  (hG.allowsWork.setExitReason_within _).bind fun _ => hG.preemptDisable_within.bind fun _ =>
    hG.runLoopLoad_within o

/-- No INVEPT is executed. -/
def inveptFrame : Guarantee St where
  rel s s' := s'.invepts = s.invepts
  refl _ := rfl
  trans h₁ h₂ := h₂.trans h₁

theorem runLoopAttach_invepts {s : St} (hv : s.hw.vmx.vmxonDone s.cpu = true) :
    s.cpu ∈ ((runLoopAttach true).run s).2.invepts := by
  have hv' : (s.hw.cpu s.cpu).vmxonDone = true := hv
  have hinvept : ((miniEptInveptGlobal true).run s).2 = { s with invepts := s.invepts ++ [s.cpu] } := by
    simp [miniEptInveptGlobal, cpuInVmxOperation, recordInvept, hv']
    rfl
  have hfixup : Within inveptFrame miniVmxFixupHostForCpu :=
    miniVmxFixupHostForCpu_within_of fun f _ v s => by
      rw [miniVmwrite_run]
      rfl
  rw [runLoopAttach, run_bind, run_bind, hinvept, StateT.run_modify]
  generalize hs : ({ s with invepts := s.invepts ++ [s.cpu] } : St) = s₁
  have hmem : s.cpu ∈ s₁.invepts := by simp [← hs]
  exact Eq.mpr (congrArg (s.cpu ∈ ·) (hfixup _)) hmem

/-- The migration branch executes an INVEPT after its VMPTRLD. -/
theorem runLoopMigrate_invepts {s : St} {o : RunCall} (hv : s.hw.vmx.vmxonDone s.cpu = true)
    (hptrld : o.ptrldOk = true) (ho : o.inveptOk = true) : s.cpu ∈ ((runLoopMigrate o).run s).2.invepts := by
  have hclear := miniVmcsClear_effect s o.clearOk
  rw [runLoopMigrate, run_bind, run_bind, run_bind, run_ite, run_get]
  generalize ((miniVmcsClear o.clearOk).run s).2 = s₁ at hclear ⊢
  obtain ⟨hr, hload⟩ := miniVmptrld_effect s₁ s₁.vcpu.vmcsPhys o.ptrldOk
  rw [hptrld, if_pos rfl] at hr hload
  dsimp only
  rw [hptrld, hr, if_neg (not_not.2 rfl), ho]
  generalize ((miniVmptrld s₁.vcpu.vmcsPhys true).run s₁).2 = s₂ at hload ⊢
  have hcpu : s₂.cpu = s.cpu := hload.cpu.trans hclear.cpu
  -- neither VMCLEAR nor VMPTRLD ends VMX operation
  have hdone : s₂.hw.vmx.vmxonDone s₂.cpu = true := by
    rw [hcpu, hload.vmx, hclear.vmx, Vmx.vmptrld]
    dsimp only
    unfold Vmx.unload
    split
    · exact hv
    · split <;> exact hv
  have hmem := runLoopAttach_invepts hdone
  rw [hcpu] at hmem
  exact hmem

/-- The VMCS is loaded where it was, or on the executing CPU after an INVEPT. -/
structure HeadLoads (s : St) (o : RunCall) (r : Option Int) (s' : St) : Prop where
  phys : s'.vcpu.vmcsPhys = s.vcpu.vmcsPhys
  page : s'.vcpu.vmcsPage = s.vcpu.vmcsPage
  loaded : r = none → s'.vcpu.loadedCpu = some s.cpu
  invept : ∀ c, s'.vcpu.loadedCpu = some c →
    s.vcpu.loadedCpu = some c ∨ c ∈ s'.invepts

theorem runHead_loads (s : St) {o : RunCall} (ho : o.inveptOk = true) :
    HeadLoads s o ((Session.runHead o).run s).1 ((Session.runHead o).run s).2 := by
  let s₀ : St := { s with exitReason := .unknown, preemptCount := s.preemptCount + 1 }
  have hrun : (Session.runHead o).run s = (runLoopLoad o).run s₀ := rfl
  rw [hrun, runLoopLoad_run]
  by_cases hv : s₀.hw.vmx.vmxonDone s₀.cpu = true
  · rw [hv, Bool.not_true, if_neg Bool.false_ne_true]
    by_cases hl : s₀.vcpu.vmx.loadedCpu = some s₀.cpu
    · rw [if_neg (not_not.2 hl)]
      exact ⟨rfl, rfl, fun _ => hl, fun c hc => .inl hc⟩
    · rw [if_pos hl]
      obtain ⟨-, hr, he⟩ | ⟨hr, x, w, l, hload, he⟩ := runLoopMigrate_step s₀ o hl
      · have hnone : ((runLoopMigrate o).run s₀).2.vcpu.loadedCpu = none := congrArg VcpuVmx.loadedCpu he.vcpu
        refine ⟨congrArg VcpuVmx.vmcsPhys he.vcpu, congrArg VcpuVmx.vmcsPage he.vcpu, ?_, ?_⟩
        · intro h
          rw [hr] at h
          exact absurd h (by simp)
        · intro c hc
          rw [hnone] at hc
          exact absurd hc (by simp)
      · cases hload with
        | shortcut hl' => exact absurd hl' hl
        | migrated hl' hptrld hevents =>
          have hloaded : ((runLoopMigrate o).run s₀).2.vcpu.loadedCpu = some s.cpu :=
            congrArg VcpuVmx.loadedCpu he.vcpu
          refine ⟨congrArg VcpuVmx.vmcsPhys he.vcpu, congrArg VcpuVmx.vmcsPage he.vcpu, fun _ => hloaded, ?_⟩
          intro c hc
          obtain rfl := Option.some.inj (hloaded.symm.trans hc)
          exact .inr (runLoopMigrate_invepts hv hptrld ho)
  · have hv' : s₀.hw.vmx.vmxonDone s₀.cpu = false := Bool.eq_false_iff.2 hv
    rw [hv', Bool.not_false, if_pos rfl]
    refine ⟨rfl, rfl, fun h => absurd h (by simp), fun c hc => .inl hc⟩

/-! ### Up to the entry -/

theorem runLoopEnter_own : Within ownFrame runLoopEnter := by
  intro s
  obtain ⟨l, -, he⟩ := runLoopEnter_effect s
  exact ownFrame_of_vmx he.vcpu

/-! ### After the entry -/

theorem runLoopExit_own (gsShadow : BitVec 64) (o : EntryOutcome) : Within ownFrame (runLoopExit gsShadow o) := by
  have henter : Within ownFrame (vmxEnterEnd o) := by
    intro s
    cases vmxEnterEnd_end s o with
    | vmFail _ effect _ => exact ownFrame_of_vmx effect.vcpu
    | exit _ _ _ _ effect _ => exact ownFrame_of_vmx effect.vcpu
    | entryFailure _ _ _ _ _ _ _ effect _ => exact ownFrame_of_vmx effect.vcpu
  have hflag : Within ownFrame (modifyVcpu fun v => if !v.launched then { v with launched := true } else v) :=
    Within.modify fun s => by refine ⟨?_, ?_, ?_⟩ <;> (dsimp only; split <;> rfl)
  have hafter : Within ownFrame afterEntry := hflag.bind fun _ => ownFrame_of_access examineExit_within
  exact henter.bind fun _ => Within.bind (fun s => ⟨rfl, rfl, rfl⟩) fun _ =>
    .ite (ownFrame_of_access accessFrame_allowsWork.entryVmFail_within) hafter

/-- The machine and the VM are the same. -/
def sameFrame : Guarantee St where
  rel s s' := s'.cpu = s.cpu ∧ s'.hw = s.hw ∧ s'.kvm = s.kvm ∧ s'.allocs = s.allocs
  refl _ := ⟨rfl, rfl, rfl, rfl⟩
  trans h₁ h₂ := ⟨h₂.1.trans h₁.1, h₂.2.1.trans h₁.2.1, h₂.2.2.1.trans h₁.2.2.1, h₂.2.2.2.trans h₁.2.2.2⟩

theorem sameFrame_field {s s' : St} (h : sameFrame.rel s s') (f : VmcsField) : s'.field f = s.field f := by
  obtain ⟨hcpu, hhw, -⟩ := h
  unfold St.field St.current
  rw [hcpu, hhw]

theorem sameFrame_vm {s s' : St} (h : sameFrame.rel s s') : vmFrame.rel s s' := by
  obtain ⟨-, hhw, hkvm, hallocs⟩ := h
  refine ⟨?_, congrArg MiniKvm.slot hkvm⟩
  unfold St.eptState
  rw [hhw, hkvm, hallocs]

theorem miniVcpuCompleteIntrInfo_same : Within sameFrame miniVcpuCompleteIntrInfo := by
  intro s
  exact ⟨rfl, rfl, rfl, rfl⟩

theorem handleEptViolation_ept (s : St) :
    (handleEptViolation.run s).2.eptState =
        (eptHandleViolation s.kvm.slot s.eptState (s.field .guestPhysicalAddress)).1 ∧
      (handleEptViolation.run s).2.kvm.slot = s.kvm.slot := by
  have hG := vmFrame_allowsCall.allowsWork
  obtain ⟨hept, hslot, -⟩ := miniEptHandleViolation_ept s
  have hrest : ∀ r : Int, Within vmFrame (if r ≠ 0 then do
      miniDumpVmcs
      exitInternalError r
    else return none : M (Option Int)) := fun r =>
    .ite (hG.miniDumpVmcs_within.bind fun _ => hG.exitInternalError_within r) (.pure none)
  obtain ⟨hept', hslot'⟩ := hrest (miniEptHandleViolation.run s).1 (miniEptHandleViolation.run s).2
  unfold handleEptViolation
  rw [run_bind]
  exact ⟨hept'.trans hept, hslot'.trans hslot⟩

/-- Every exit but an EPT violation leaves the EPT alone. -/
theorem handleExit_vm {x : BasicExit} (hx : x ≠ .eptViolation) : Within vmFrame (handleExit x) := by
  have hG := vmFrame_allowsCall.allowsWork
  have hnmi : Within vmFrame miniVcpuReinjectNmi :=
    (vmFrame_allowsCall.allowsWork.vmread_within _).bind fun _ => .ite (.pure ()) <| Within.get.bind fun _ =>
      .ite (.pure ()) fun _ => ⟨rfl, rfl⟩
  cases x with
  | exceptionNmi => exact hG.handleExceptionNmi_within hnmi
  | externalInterrupt => exact hG.handleExternalInterrupt_within
  | tripleFault => exact hG.handleTripleFault_within
  | cpuid => exact hG.handleCpuid_within
  | hlt => exact hG.handleHlt_within
  | ioInstruction => exact hG.handleIoInstruction_within
  | eptViolation => exact absurd rfl hx
  | other => exact hG.handleUnknown_within

/-- The basic exit reason of a true VM exit. -/
def ExitInfo.basicExit (i : ExitInfo) : BasicExit := .ofReason (i.reason.setWidth 64 &&& 0xffff)

/-- What comes after the entry handles an EPT violation at the address that the exit has saved, or leaves
the EPT alone. -/
inductive ExitEpt (s : St) (o : EntryOutcome) (s' : St) : Prop where
  | same (ept : s'.eptState = s.eptState)
  | violation (i : ExitInfo) (ho : o = .exit i) (hi : i.basicExit = .eptViolation)
      (ept : s'.eptState = (eptHandleViolation s.kvm.slot s.eptState (i.field .guestPhysicalAddress)).1)

theorem trueExit_ept (s : St) (i : ExitInfo)
    (hgpa : s.field .guestPhysicalAddress = i.field .guestPhysicalAddress) :
    ExitEpt s (.exit i) ((trueExit (i.reason.setWidth 64)).run s).2 ∧
      ((trueExit (i.reason.setWidth 64)).run s).2.kvm.slot = s.kvm.slot := by
  have hsame := miniVcpuCompleteIntrInfo_same s
  unfold trueExit
  rw [run_bind]
  generalize (miniVcpuCompleteIntrInfo.run s).2 = s₁ at hsame ⊢
  obtain ⟨hept, hslot⟩ := sameFrame_vm hsame
  by_cases hx : i.basicExit = .eptViolation
  · have hx' : BasicExit.ofReason (i.reason.setWidth 64 &&& 0xffff) = .eptViolation := hx
    obtain ⟨hept', hslot'⟩ := handleEptViolation_ept s₁
    rw [hx', handleExit]
    refine ⟨.violation i rfl hx ?_, hslot'.trans hslot⟩
    rw [hept', hept, hslot, sameFrame_field hsame, hgpa]
  · obtain ⟨hept', hslot'⟩ := handleExit_vm hx s₁
    exact ⟨.same (hept'.trans hept), hslot'.trans hslot⟩

theorem runLoopExit_ept (s : St) (gsShadow : BitVec 64) (o : EntryOutcome) :
    ExitEpt s o ((runLoopExit gsShadow o).run s).2 ∧
      ((runLoopExit gsShadow o).run s).2.kvm.slot = s.kvm.slot := by
  have hG := vmFrame_allowsCall
  have henter := hG.vmxEnterEnd_within o s
  have hgs := hG.wrmsrKernelGsBase_within gsShadow ((vmxEnterEnd o).run s).2
  have hfield := wrmsrKernelGsBase_field ((vmxEnterEnd o).run s).2 gsShadow
  have hend := vmxEnterEnd_end s o
  rw [runLoopExit_run]
  dsimp only
  generalize ((wrmsrKernelGsBase gsShadow).run ((vmxEnterEnd o).run s).2).2 = s₁ at hgs hfield ⊢
  have hvm : vmFrame.rel s s₁ := vmFrame.trans henter hgs
  have hdone : ∀ s₂, vmFrame.rel s₁ s₂ → ExitEpt s o s₂ ∧ s₂.kvm.slot = s.kvm.slot := by
    intro s₂ h
    obtain ⟨hept, hslot⟩ := vmFrame.trans hvm h
    exact ⟨.same hept, hslot⟩
  cases hend with
  | vmFail hr effect reason =>
    rw [hr, if_pos (by decide)]
    exact hdone _ (hG.allowsWork.entryVmFail_within s₁)
  | entryFailure hr reason qual p ho hp agree effect bit31 =>
    have hbit : s₁.setLaunched.field .vmExitReason &&& 0x80000000 ≠ 0 := by
      show s₁.field .vmExitReason &&& 0x80000000 ≠ 0
      rw [hfield]
      exact bit31
    rw [hr, if_neg (by decide), afterEntry_run, examineExit_run, if_pos hbit]
    refine hdone _ (vmFrame.trans ?_ (hG.allowsWork.entryFailed_within _))
    exact ⟨rfl, rfl⟩
  | exit hr i ho agree effect bit31 =>
    subst ho
    obtain ⟨p, hp, hlaunched⟩ := Option.map_eq_some_iff.1 agree
    obtain ⟨-, hreason, hsaved⟩ := vmxEnterEnd_exit ⟨p, hp, hlaunched⟩ i
    have hsame : sameFrame.rel s₁.setLaunched s₁.setLaunched.afterReason := ⟨rfl, rfl, rfl, rfl⟩
    have hreason' : s₁.setLaunched.field .vmExitReason = i.reason.setWidth 64 := (hfield _).trans hreason
    -- the handler reads the address that the exit has saved
    have hgpa : s₁.setLaunched.afterReason.field .guestPhysicalAddress = i.field .guestPhysicalAddress :=
      (sameFrame_field hsame _).trans ((hfield _).trans (hsaved _ rfl))
    rw [hr, if_neg (by decide), afterEntry_run, examineExit_run, hreason', if_neg]
    · obtain ⟨hept, hslot⟩ := vmFrame.trans hvm (sameFrame_vm hsame)
      obtain ⟨hexit, hslot'⟩ := trueExit_ept s₁.setLaunched.afterReason i hgpa
      refine ⟨?_, hslot'.trans hslot⟩
      cases hexit with
      | same hept' => exact .same (hept'.trans hept)
      | violation i ho hi hept' =>
        refine .violation i ho hi ?_
        rw [hept', hept, hslot]
    · rw [setWidth_and_bit31]
      simp

end MiniVirt.Kvm
