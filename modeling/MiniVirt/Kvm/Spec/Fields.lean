import MiniVirt.Kvm.Spec.Calls
import MiniVirt.Kvm.Spec.Loads

/-!
# Whose fields a call writes

A VMWRITE and a VM exit write the fields of the VMCS that is current, and VMPTRLD and VMCLEAR write none.  So
KVM_RUN writes the fields of its own VMCS, and of the one that it finds current if it does not reload.
-/

namespace MiniVirt.Kvm

/-! ### The current VMCS -/

/-- The fields of all VMCSs are the same. -/
def fieldFrame : Guarantee St where
  rel s s' := ∀ p, (s'.hw.vmcs p).field = (s.hw.vmcs p).field
  refl _ _ := rfl
  trans h₁ h₂ p := (h₂ p).trans (h₁ p)

/-- The same VMCS is current, and the fields of all others are the same. -/
def currentFrame : Guarantee St where
  rel s s' := s'.current = s.current ∧ ∀ p, s.current ≠ some p → (s'.hw.vmcs p).field = (s.hw.vmcs p).field
  refl _ := ⟨rfl, fun _ _ => rfl⟩
  trans h₁ h₂ := ⟨h₂.1.trans h₁.1, fun p hp => (h₂.2 p (h₁.1 ▸ hp)).trans (h₁.2 p hp)⟩

theorem Effect.current_eq {s s' : St} {x : Vmx} {w : VcpuVmx} {l : List Event} (h : Effect s s' x w l) :
    s'.current = x.current s.cpu := by
  rw [St.current_eq_vmx, h.vmx, h.cpu]

theorem miniVmwrite_current (f : VmcsField) (v : BitVec 64) : Within currentFrame (miniVmwrite f v) := by
  intro s
  rw [miniVmwrite_run]
  cases hcur : s.current with
  | none => exact ⟨rfl, fun _ _ => rfl⟩
  | some q =>
    refine ⟨rfl, fun p hp => ?_⟩
    have hne : p ≠ q := fun heq => hp (heq ▸ hcur)
    show (Function.update s.hw.vmcs q _ p).field = _
    rw [Function.update_of_ne hne]

theorem currentFrame_allowsWork : AllowsWork currentFrame where
  vmread_within _ _ := ⟨rfl, fun _ _ => rfl⟩
  vmwrite_within f v _ := miniVmwrite_current f v
  modify_within g h s := by
    refine ⟨?_, fun p _ => (h s).field p⟩
    show (g s).current = s.current
    rw [St.current_eq_vmx, (h s).vmx, (h s).cpu]
    rfl

theorem vmxEnterEnd_current (o : EntryOutcome) : Within currentFrame (vmxEnterEnd o) := by
  intro s
  have hcur : ((vmxEnterEnd o).run s).2.current = s.current := by
    cases vmxEnterEnd_end s o with
    | vmFail _ effect _ => exact effect.current_eq
    | exit _ _ _ _ effect _ =>
      rw [effect.current_eq, Vmx.launch_current]
      rfl
    | entryFailure _ _ _ _ _ _ _ effect _ => exact effect.current_eq
  refine ⟨hcur, fun p hp => ?_⟩
  have hset : ∀ (hw : Hw) (q : Phys) (x : Vmcs), p ≠ q → ((hw.setVmcs q x).vmcs p).field = (hw.vmcs p).field := by
    intro hw q x hne
    show (Function.update hw.vmcs q x p).field = _
    rw [Function.update_of_ne hne]
  unfold vmxEnterEnd
  rw [run_bind, run_get]
  dsimp only
  cases hq : s.current with
  | none => rfl
  | some q =>
    have hne : p ≠ q := fun heq => hp (heq ▸ hq)
    dsimp only
    rw [run_ite]
    split
    · exact hset _ _ _ hne
    · cases o with
      | vmFail e => exact hset _ _ _ hne
      | entryFailure reason qual => exact (hset _ _ _ hne).trans (hset _ _ _ hne)
      | exit i => exact hset s.hw q _ hne

theorem currentFrame_allowsLoop : AllowsLoop currentFrame where
  work := currentFrame_allowsWork
  recordEntry_within _ := ⟨rfl, fun _ _ => rfl⟩
  vmxEnterEnd_within := vmxEnterEnd_current
  wrmsrKernelGsBase_within v s := ⟨(wrmsrKernelGsBase_effect s v).current_eq, fun _ _ => rfl⟩
  modifyLaunched_within _ := ⟨rfl, fun _ _ => rfl⟩
  modifyPending_within _ _ := ⟨rfl, fun _ _ => rfl⟩
  miniEptHandleViolation_within s := by
    unfold miniEptHandleViolation
    rw [run_bind, run_bind, run_get]
    dsimp only
    rw [run_bind, run_ite]
    split <;> exact ⟨rfl, fun _ _ => rfl⟩

/-! ### Loading and clearing -/

theorem vmclearOn_field (c : CpuId) (p : Phys) (ok : Bool) : Within fieldFrame (vmclearOn c p ok) := by
  intro s q
  cases ok with
  | false => rfl
  | true =>
    show (Function.update s.hw.vmcs p _ q).field = _
    by_cases hq : q = p
    · rw [hq, Function.update_self]
    · rw [Function.update_of_ne hq]

theorem miniVmptrld_field (p : Phys) (ok : Bool) : Within fieldFrame (miniVmptrld p ok) := by
  intro s q
  cases ok <;> rfl

theorem miniVmcsClear_field (ok : Bool) : Within fieldFrame (miniVmcsClear ok) := by
  have hsmp : ∀ c p, Within fieldFrame (smpVmclear c p ok) := fun c p =>
    Within.get.bind fun _ => .ite
      ((cpuInVmxOperation_within c).bind fun _ => .ite (vmclearOn_field c p ok) (.pure _)) (.pure _)
  have hat : ∀ c p, Within fieldFrame (vmclearAt c p ok) := fun c p =>
    Within.get.bind fun _ => .ite (Within.get.bind fun _ => vmclearOn_field _ p ok) (hsmp c p)
  refine Within.bind (fun _ _ => rfl) fun _ => Within.bind (fun _ _ => rfl) fun _ => Within.get.bind fun s => ?_
  cases s.vcpu.loadedCpu with
  | none => exact .pure ()
  | some d =>
    exact Within.bind (fun _ _ => rfl) fun _ => (hat d _).bind fun _ => Within.bind (fun _ _ => rfl) fun _ _ _ => rfl

theorem miniVcpuVmxTeardown_field (ok : Bool) : Within fieldFrame (miniVcpuVmxTeardown ok) := by
  refine Within.get.bind fun s => ?_
  cases s.vcpu.vmcsPage with
  | none => exact .pure ()
  | some page => exact (miniVmcsClear_field ok).bind fun _ _ _ => rfl

/-! ### KVM_RUN -/

theorem runLoopAttach_current (ok : Bool) : Within currentFrame (runLoopAttach ok) :=
  (currentFrame_allowsWork.miniEptInveptGlobal_within ok).bind fun _ => Within.bind (fun _ => ⟨rfl, fun _ _ => rfl⟩) fun _ =>
    currentFrame_allowsWork.miniVmxFixupHostForCpu_within

/-- What is written before the loop, and what is current then. -/
structure LoadFields (s : St) (r : Option Int) (s' : St) : Prop where
  field : ∀ p, p ≠ s.vcpu.vmcsPhys → (s'.hw.vmcs p).field = (s.hw.vmcs p).field
  current : r = none → s'.current = some s.vcpu.vmcsPhys ∨ s.vcpu.loadedCpu = some s.cpu ∧ s'.current = s.current

theorem runLoopMigrate_fields (s : St) (o : RunCall) (hl : s.vcpu.vmx.loadedCpu ≠ some s.cpu) :
    LoadFields s ((runLoopMigrate o).run s).1 ((runLoopMigrate o).run s).2 := by
  constructor
  · intro p hp
    have hclear := miniVmcsClear_field o.clearOk s p
    have heffect := miniVmcsClear_effect s o.clearOk
    unfold runLoopMigrate
    rw [run_bind, run_bind, run_bind, run_ite, run_get]
    generalize ((miniVmcsClear o.clearOk).run s).2 = s₁ at hclear heffect ⊢
    have hphys : s₁.vcpu.vmcsPhys = s.vcpu.vmcsPhys := congrArg VcpuVmx.vmcsPhys heffect.vcpu
    obtain ⟨hr, hload⟩ := miniVmptrld_effect s₁ s₁.vcpu.vmcsPhys o.ptrldOk
    have hptrld := miniVmptrld_field s₁.vcpu.vmcsPhys o.ptrldOk s₁ p
    dsimp only at hr hload hptrld ⊢
    generalize (miniVmptrld s₁.vcpu.vmcsPhys o.ptrldOk).run s₁ = y at hr hload hptrld ⊢
    obtain ⟨r, s₂⟩ := y
    dsimp only at hr hload hptrld ⊢
    split
    · exact hptrld.trans hclear
    · rename_i hok
      have hptr : o.ptrldOk = true := by
        by_contra hfalse
        rw [hr, if_neg hfalse] at hok
        exact hok (by decide)
      rw [hptr, if_pos rfl] at hload
      have hown : s₂.current = some s₁.vcpu.vmcsPhys := hload.current_eq.trans (Function.update_self ..)
      -- the fields written after VMPTRLD are those of this vCPU's VMCS
      have hcur : s₂.current ≠ some p := by
        rw [hown, hphys]
        exact fun heq => hp (Option.some.inj heq).symm
      exact ((runLoopAttach_current o.inveptOk s₂).2 p hcur).trans (hptrld.trans hclear)
  · intro hr
    obtain ⟨-, hr', -⟩ | ⟨-, x, w, l, hload, he⟩ := runLoopMigrate_step s o hl
    · rw [hr'] at hr
      cases hr
    · cases hload with
      | shortcut hl' => exact absurd hl' hl
      | migrated _ _ _ =>
        refine .inl (he.current_eq.trans ?_)
        exact Function.update_self ..

theorem runLoopLoad_fields (s : St) (o : RunCall) :
    LoadFields s ((runLoopLoad o).run s).1 ((runLoopLoad o).run s).2 := by
  rw [runLoopLoad_run]
  split
  · exact ⟨fun _ _ => rfl, fun h => absurd h (by simp)⟩
  split
  · rename_i hl
    exact runLoopMigrate_fields s o hl
  · rename_i hl
    exact ⟨fun _ _ => rfl, fun _ => .inr ⟨not_not.1 hl, rfl⟩⟩

/-- KVM_RUN writes no other VMCS, unless it skips the reload and finds that one current. -/
theorem miniVcpuRunLoop_fields (s : St) (o : RunCall) {p : Phys} (hp : p ≠ s.vcpu.vmcsPhys)
    (hcur : s.vcpu.loadedCpu = some s.cpu → s.current ≠ some p) :
    (((miniVcpuRunLoop o).run s).2.hw.vmcs p).field = (s.hw.vmcs p).field := by
  let s₀ : St := { s with exitReason := .unknown, preemptCount := s.preemptCount + 1 }
  obtain ⟨hfield, hafter⟩ := runLoopLoad_fields s₀ o
  unfold miniVcpuRunLoop
  rw [run_bind, run_bind, run_bind]
  have hstart : (preemptDisable.run ((setExitReason .unknown).run s).2).2 = s₀ := rfl
  rw [hstart]
  generalize (runLoopLoad o).run s₀ = y at hfield hafter ⊢
  obtain ⟨r, s₁⟩ := y
  cases r with
  | some r => exact hfield p hp
  | none =>
    have hne : s₁.current ≠ some p := by
      rcases hafter rfl with hown | ⟨hl, hsame⟩
      · exact fun heq => hp (Option.some.inj (heq.symm.trans hown))
      · exact fun heq => hcur hl (hsame.symm.trans heq)
    have hloop := (currentFrame_allowsLoop.runLoop_within o.first o.rest s₁).2 p hne
    rw [run_bind]
    generalize (runLoop o.first o.rest).run s₁ = z at hloop ⊢
    obtain ⟨r, s₂⟩ := z
    cases r with
    | some r => exact hloop.trans (hfield p hp)
    | none => exact hloop.trans (hfield p hp)

end MiniVirt.Kvm
