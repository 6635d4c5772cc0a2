import MiniVirt.Kvm.Spec.Calls
import MiniVirt.Kvm.Spec.Setup

/-!
# The EPT pointers

Every VMCS gets its EPT pointer when it is set up, and it stays until the page is set up again.
-/

namespace MiniVirt.Kvm

/-- No EPT pointer changes. -/
def eptpFrame : Guarantee St where
  rel s s' := ∀ p, (s'.hw.vmcs p).field .eptPointer = (s.hw.vmcs p).field .eptPointer
  refl _ _ := rfl
  trans h₁ h₂ p := (h₂ p).trans (h₁ p)

theorem eptpFrame_allowsCall : AllowsCall eptpFrame where
  modify_within _ h s := (h s).eptp

theorem miniVcpuVmxTeardown_eptp (ok : Bool) : Within eptpFrame (miniVcpuVmxTeardown ok) := by
  refine Within.get.bind fun s => ?_
  cases s.vcpu.vmcsPage with
  | none => exact .pure ()
  | some page => exact (eptpFrame_allowsCall.miniVmcsClear_within ok).bind fun _ => fun _ _ => rfl

/-- The EPT pointers after VMWRITEs to the current VMCS, the last of which is to EPT_POINTER. -/
theorem vmwriteAll_eptp {s : St} {p : Phys} (hcur : s.current = some p) (l : List (VmcsField × BitVec 64))
    (eptp : BitVec 64) :
    let s' := ((vmwriteAll (l ++ [(.eptPointer, eptp)])).run s).2
    (s'.hw.vmcs p).field .eptPointer = eptp ∧ ∀ q, q ≠ p → s'.hw.vmcs q = s.hw.vmcs q := by
  induction l generalizing s with
  | nil =>
    have hrun : ((vmwriteAll [(.eptPointer, eptp)]).run s).2 = ((miniVmwrite .eptPointer eptp).run s).2 := rfl
    dsimp only [List.nil_append]
    rw [hrun, miniVmwrite_run, hcur]
    refine ⟨?_, fun q hq => Function.update_of_ne hq ..⟩
    simp [Hw.vmwrite, Hw.setVmcs]
  | cons x l ih =>
    obtain ⟨f, v⟩ := x
    have hrun : ((vmwriteAll ((f, v) :: l ++ [(.eptPointer, eptp)])).run s).2 =
        ((vmwriteAll (l ++ [(.eptPointer, eptp)])).run ((miniVmwrite f v).run s).2).2 := rfl
    have hstep : ((miniVmwrite f v).run s).2.current = some p ∧
        ∀ q, q ≠ p → ((miniVmwrite f v).run s).2.hw.vmcs q = s.hw.vmcs q := by
      rw [miniVmwrite_run, hcur]
      exact ⟨hcur, fun q hq => Function.update_of_ne hq ..⟩
    dsimp only
    rw [hrun]
    generalize ((miniVmwrite f v).run s).2 = s₁ at hstep ⊢
    obtain ⟨hlast, hothers⟩ := ih hstep.1
    exact ⟨hlast, fun q hq => (hothers q hq).trans (hstep.2 q hq)⟩

/-- Setting up a VMCS writes its EPT pointer and no other. -/
theorem vmxSetupLoaded_eptp {s : St} {p : Phys} (hcur : s.current = some p) (page : Pfn) (o : SetupCall) :
    let y := (vmxSetupLoaded page o).run s
    (∀ q, q ≠ p → (y.2.hw.vmcs q).field .eptPointer = (s.hw.vmcs q).field .eptPointer) ∧
      (y.1 = 0 → (y.2.hw.vmcs p).field .eptPointer = s.kvm.ept.eptp) := by
  have hG := eptpFrame_allowsCall
  dsimp only
  cases hc : miniComputeControls s.hw.trueCtls o.rdmsr with
  | error r =>
    have hframe : Within eptpFrame (do
        miniVmcsClear o.unloadOk
        freeVmcsPage page
        return r : M Int) := (hG.miniVmcsClear_within _).bind fun _ =>
      Within.bind (fun _ _ => rfl) fun _ => .pure r
    have hr : r ≠ 0 := by
      rw [miniComputeControls_error hc]
      decide
    rw [vmxSetupLoaded_error page hc]
    exact ⟨fun q _ => hframe s.recordCpu q, fun h => absurd h hr⟩
  | ok c =>
    have hframe : Within eptpFrame (do
        miniVmxSetGuestState
        miniVmxSetConstantHostState
        miniVmcsClear o.unloadOk
        return 0 : M Int) := hG.allowsWork.miniVmxSetGuestState_within.bind fun _ =>
      hG.allowsWork.miniVmxSetConstantHostState_within.bind fun _ => (hG.miniVmcsClear_within _).bind fun _ =>
        .pure 0
    -- the EPT pointer is the last of the control fields
    have hfields : vmcsControlFields c s.kvm.ept.eptp =
        (vmcsControlFields c s.kvm.ept.eptp).take 11 ++ [(.eptPointer, s.kvm.ept.eptp)] := rfl
    have hcontrols := vmwriteAll_eptp (s := s.recordCpu) hcur
      ((vmcsControlFields c s.kvm.ept.eptp).take 11) s.kvm.ept.eptp
    dsimp only at hcontrols
    rw [← hfields] at hcontrols
    rw [vmxSetupLoaded_ok page hc, run_bind]
    generalize ((vmwriteAll (vmcsControlFields c s.kvm.ept.eptp)).run s.recordCpu).2 = s₁ at hcontrols ⊢
    refine ⟨fun q hq => (hframe s₁ q).trans ?_, fun _ => (hframe s₁ p).trans hcontrols.1⟩
    rw [hcontrols.2 q hq]
    rfl

theorem miniVcpuVmxSetup_eptp (s : St) (o : SetupCall) :
    let y := (miniVcpuVmxSetup o).run s
    (∀ q, (∀ page, o.page = some page → q ≠ pageToPhys page) →
        (y.2.hw.vmcs q).field .eptPointer = (s.hw.vmcs q).field .eptPointer) ∧
      (y.1 = 0 → ∀ page, o.page = some page →
        (y.2.hw.vmcs (pageToPhys page)).field .eptPointer = s.kvm.ept.eptp) := by
  have hG := eptpFrame_allowsCall
  have hfree : ∀ page (r : Int), Within eptpFrame (do
      freeVmcsPage page
      return r : M Int) := fun page r => Within.bind (fun _ _ => rfl) fun _ => .pure r
  unfold miniVcpuVmxSetup
  dsimp only
  cases hpage : o.page with
  | none => exact ⟨fun q _ => rfl, fun _ page h => absurd h (by simp)⟩
  | some page =>
    have hsetup : eptpFrame.rel s ((vmxSetupPage page).run s).2 :=
      (Hw.eptSame_setVmcs (x := { s.hw.vmcs (pageToPhys page) with revisionId := s.hw.vmcsRevisionId }) rfl).eptp
    have hkvm : ((vmxSetupPage page).run s).2.kvm = s.kvm := rfl
    dsimp only
    rw [run_bind, run_bind, run_ite]
    generalize ((vmxSetupPage page).run s).2 = s₁ at hsetup hkvm ⊢
    -- VMCLEAR and VMPTRLD write no EPT pointer
    have hclear : Within eptpFrame (miniVmclear (pageToPhys page) o.vmclearOk) :=
      Within.get.bind fun _ => hG.vmclearOn_within _ _ _
    have hsetup₂ := eptpFrame.trans hsetup (hclear s₁)
    have hkvm₂ : ((miniVmclear (pageToPhys page) o.vmclearOk).run s₁).2.kvm = s.kvm := by
      rw [← hkvm]
      cases o.vmclearOk <;> rfl
    generalize (miniVmclear (pageToPhys page) o.vmclearOk).run s₁ = y at hsetup₂ hkvm₂ ⊢
    obtain ⟨r, s₂⟩ := y
    dsimp only at hsetup₂ hkvm₂ ⊢
    split
    · rename_i hr
      exact ⟨fun q _ => (hfree page r s₂ q).trans (hsetup₂ q), fun h => absurd h hr⟩
    · rw [run_bind, run_ite]
      have hsetup₃ := eptpFrame.trans hsetup₂ (hG.miniVmptrld_within (pageToPhys page) o.vmptrldOk s₂)
      -- what is loaded then is the new VMCS
      have hload : ((miniVmptrld (pageToPhys page) o.vmptrldOk).run s₂).2.kvm = s.kvm ∧
          (((miniVmptrld (pageToPhys page) o.vmptrldOk).run s₂).1 = 0 →
            ((miniVmptrld (pageToPhys page) o.vmptrldOk).run s₂).2.current = some (pageToPhys page)) := by
        obtain ⟨hr, he⟩ := miniVmptrld_effect s₂ (pageToPhys page) o.vmptrldOk
        refine ⟨?_, fun hzero => ?_⟩
        · rw [← hkvm₂]
          cases o.vmptrldOk <;> rfl
        · rw [hzero] at hr
          have hok : o.vmptrldOk = true := by
            by_contra hno
            rw [if_neg hno] at hr
            exact absurd hr (by decide)
          rw [St.current_eq_vmx, he.vmx, he.cpu, hok, if_pos rfl]
          exact Function.update_self ..
      generalize (miniVmptrld (pageToPhys page) o.vmptrldOk).run s₂ = y at hsetup₃ hload ⊢
      obtain ⟨r', s₃⟩ := y
      dsimp only at hsetup₃ hload ⊢
      split
      · rename_i hr
        exact ⟨fun q _ => (hfree page r' s₃ q).trans (hsetup₃ q), fun h => absurd h hr⟩
      · rename_i hr
        obtain ⟨hothers, hown⟩ := vmxSetupLoaded_eptp (hload.2 (not_not.1 hr)) page o
        refine ⟨fun q hq => (hothers q (hq page rfl)).trans (hsetup₃ q), fun h page' hp => ?_⟩
        rw [← Option.some.inj hp, hown h, hload.1]

end MiniVirt.Kvm
