import MiniVirt.Kvm.Spec.EptRun
import MiniVirt.Kvm.Spec.Frames
import Mathlib.Logic.Relation

/-!
# What whole calls leave alone

Loading, clearing and entering a VMCS change the VMX state and nothing of the VM.  A guarantee that
allows this much (`AllowsCall`) is kept by KVM_RUN up to the loop, and by all of KVM_RUN if it allows
changes of the event slot too.  So KVM_RUN changes the EPT by handling EPT violations and in no other
way (`miniVcpuRunLoop_violations`).
-/

namespace MiniVirt.Kvm

def Event.IsFree : Event → Prop
  | .freeVmcs _ _ => True
  | _ => False

/-- From `s` to `s'` the EPT, the EPT pointers, the memslot, the event slot and the VMCS page are the
same, and no VMCS page is freed. -/
structure VmSame (s s' : St) : Prop where
  mem : s'.hw.mem = s.hw.mem
  eptp : ∀ p, (s'.hw.vmcs p).field .eptPointer = (s.hw.vmcs p).field .eptPointer
  ept : s'.kvm.ept = s.kvm.ept
  allocs : s'.allocs = s.allocs
  slot : s'.kvm.slot = s.kvm.slot
  page : s'.vcpu.vmcsPage = s.vcpu.vmcsPage
  pending : s'.vcpu.pendingIntrInfo = s.vcpu.pendingIntrInfo
  trace : ∃ l, s'.trace = s.trace ++ l ∧ ∀ e ∈ l, ¬ e.IsFree

theorem noEvents (l : List Event) : ∃ l', l = l ++ l' ∧ ∀ e ∈ l', ¬ e.IsFree :=
  ⟨[], (List.append_nil l).symm, fun _ he => absurd he List.not_mem_nil⟩

structure AllowsCall (G : Guarantee St) : Prop where
  modify_within : ∀ g : St → St, (∀ s, VmSame s (g s)) → Within G (modify g : M Unit)

/-- From `hw` to `hw'` the tables and the EPT pointers are the same. -/
structure Hw.EptSame (hw hw' : Hw) : Prop where
  mem : hw'.mem = hw.mem
  eptp : ∀ p, (hw'.vmcs p).field .eptPointer = (hw.vmcs p).field .eptPointer

namespace Hw

theorem eptSame_setCpu (hw : Hw) (c : CpuId) (x : Cpu) : hw.EptSame (hw.setCpu c x) := ⟨rfl, fun _ => rfl⟩

theorem EptSame.trans {hw₁ hw₂ hw₃ : Hw} (h₁ : hw₁.EptSame hw₂) (h₂ : hw₂.EptSame hw₃) : hw₁.EptSame hw₃ :=
  ⟨h₂.mem.trans h₁.mem, fun p => (h₂.eptp p).trans (h₁.eptp p)⟩

theorem eptSame_setVmcs {hw : Hw} {p : Phys} {x : Vmcs}
    (h : x.field .eptPointer = (hw.vmcs p).field .eptPointer) : hw.EptSame (hw.setVmcs p x) := by
  refine ⟨rfl, fun q => ?_⟩
  show (Function.update hw.vmcs p x q).field .eptPointer = _
  by_cases hq : q = p
  · subst hq
    rw [Function.update_self, h]
  · rw [Function.update_of_ne hq]

theorem eptSame_vmwrite (hw : Hw) (p : Phys) {f : VmcsField} (hf : f ≠ .eptPointer) (v : BitVec 64) :
    hw.EptSame (hw.vmwrite p f v) := eptSame_setVmcs (Function.update_of_ne hf.symm ..)

theorem eptSame_vmclear (hw : Hw) (c : CpuId) (p : Phys) : hw.EptSame (hw.vmclear c p) :=
  (hw.eptSame_setCpu c _).trans (eptSame_setVmcs rfl)

theorem eptSame_vmptrld (hw : Hw) (c : CpuId) (p : Phys) : hw.EptSame (hw.vmptrld c p) := hw.eptSame_setCpu c _

theorem eptSame_setKernelGsBase (hw : Hw) (c : CpuId) (v : BitVec 64) : hw.EptSame (hw.setKernelGsBase c v) :=
  hw.eptSame_setCpu c _

theorem eptSame_vmExit (hw : Hw) (c : CpuId) (p : Phys) (i : ExitInfo) : hw.EptSame (hw.vmExit c p i) :=
  (eptSame_setVmcs (x := { hw.vmcs p with field := i.save (hw.vmcs p).field, launched := true }) rfl).trans
    (eptSame_setKernelGsBase ..)

theorem eptSame_vmEntryFailure (hw : Hw) (p : Phys) (reason : BitVec 31) (qual : BitVec 64) :
    hw.EptSame (hw.vmEntryFailure p reason qual) :=
  (hw.eptSame_vmwrite p (by simp) _).trans (eptSame_vmwrite _ p (by simp) _)

end Hw

namespace AllowsCall

variable {G : Guarantee St} (hG : AllowsCall G)

include hG

theorem emit_within {e : Event} (he : ¬ e.IsFree) : Within G (emit e) :=
  hG.modify_within _ fun _ => ⟨rfl, fun _ => rfl, rfl, rfl, rfl, rfl, rfl, [e], rfl, by simpa using he⟩

theorem modifyHw_within {f : Hw → Hw} (h : ∀ hw : Hw, hw.EptSame (f hw)) : Within G (modifyHw f) :=
  hG.modify_within _ fun s => ⟨(h s.hw).mem, (h s.hw).eptp, rfl, rfl, rfl, rfl, rfl, noEvents _⟩

theorem modifyVcpu_within {f : MiniKvmVcpu → MiniKvmVcpu}
    (h : ∀ v, (f v).vmcsPage = v.vmcsPage ∧ (f v).pendingIntrInfo = v.pendingIntrInfo) :
    Within G (modifyVcpu f) :=
  hG.modify_within _ fun s =>
    ⟨rfl, fun _ => rfl, rfl, rfl, rfl, (h s.vcpu).1, (h s.vcpu).2, noEvents _⟩

theorem allowsWork : AllowsWork G where
  vmread_within f := Within.get.bind fun _ => (hG.emit_within id).bind fun _ => .pure _
  vmwrite_within f v hf := Within.get.bind fun s => (hG.emit_within id).bind fun _ => by
    cases s.current with
    | none => exact .pure _
    | some p => exact (hG.modifyHw_within fun hw => hw.eptSame_vmwrite p hf v).bind fun _ => .pure _
  modify_within g h := hG.modify_within g fun s => by
    have hvmx := (h s).vcpu
    exact ⟨(h s).mem, fun p => congrFun ((h s).field p) _, (h s).ept, (h s).allocs, (h s).slot,
      congrArg VcpuVmx.vmcsPage hvmx,
      (h s).pending, (h s).trace ▸ noEvents _⟩

/-! ### Loading and clearing -/

theorem preemptDisable_within : Within G preemptDisable :=
  hG.modify_within _ fun _ => ⟨rfl, fun _ => rfl, rfl, rfl, rfl, rfl, rfl, noEvents _⟩

theorem preemptEnable_within : Within G preemptEnable :=
  hG.modify_within _ fun _ => ⟨rfl, fun _ => rfl, rfl, rfl, rfl, rfl, rfl, noEvents _⟩

theorem vmclearOn_within (c : CpuId) (p : Phys) (ok : Bool) : Within G (vmclearOn c p ok) :=
  .ite ((hG.modifyHw_within fun hw => hw.eptSame_vmclear c p).bind fun _ => (hG.emit_within id).bind fun _ =>
    .pure _) (.pure _)

theorem smpVmclear_within (c : CpuId) (p : Phys) (ok : Bool) : Within G (smpVmclear c p ok) :=
  Within.get.bind fun _ => .ite
    ((cpuInVmxOperation_within c).bind fun _ => .ite (hG.vmclearOn_within c p ok) (.pure _)) (.pure _)

theorem vmclearAt_within (c : CpuId) (p : Phys) (ok : Bool) : Within G (vmclearAt c p ok) :=
  Within.get.bind fun _ => .ite (Within.get.bind fun _ => hG.vmclearOn_within _ p ok)
    (hG.smpVmclear_within c p ok)

theorem recordClear_within : Within G recordClear :=
  hG.modify_within _ fun _ => ⟨rfl, fun _ => rfl, rfl, rfl, rfl, rfl, rfl, noEvents _⟩

theorem miniVmcsClear_within (ok : Bool) : Within G (miniVmcsClear ok) := by
  refine hG.recordClear_within.bind fun _ => (hG.modifyVcpu_within fun _ => by exact ⟨rfl, rfl⟩).bind fun _ =>
    Within.get.bind fun s => ?_
  cases s.vcpu.loadedCpu with
  | none => exact .pure ()
  | some d =>
    exact hG.preemptDisable_within.bind fun _ => (hG.vmclearAt_within d _ ok).bind fun _ =>
      hG.preemptEnable_within.bind fun _ => hG.modifyVcpu_within fun _ => by exact ⟨rfl, rfl⟩

theorem miniVmptrld_within (p : Phys) (ok : Bool) : Within G (miniVmptrld p ok) :=
  .ite (Within.get.bind fun s => (hG.modifyHw_within fun hw => hw.eptSame_vmptrld s.cpu p).bind fun _ =>
    (hG.emit_within id).bind fun _ => .pure _) (.pure _)

theorem runLoopAttach_within (ok : Bool) : Within G (runLoopAttach ok) :=
  (hG.allowsWork.miniEptInveptGlobal_within ok).bind fun _ =>
    (hG.modify_within _ fun _ => by exact ⟨rfl, fun _ => rfl, rfl, rfl, rfl, rfl, rfl, noEvents _⟩).bind fun _ =>
      hG.allowsWork.miniVmxFixupHostForCpu_within

theorem runLoopMigrate_within (o : RunCall) : Within G (runLoopMigrate o) :=
  (hG.miniVmcsClear_within _).bind fun _ => Within.get.bind fun _ => (hG.miniVmptrld_within _ _).bind
    fun _ => .ite ((hG.allowsWork.setExitReason_within _).bind fun _ => .pure _)
      ((hG.runLoopAttach_within _).bind fun _ => .pure _)

theorem runLoopLoad_within (o : RunCall) : Within G (runLoopLoad o) :=
  Within.get.bind fun _ => (cpuInVmxOperation_within _).bind fun _ =>
    .ite ((hG.allowsWork.setExitReason_within _).bind fun _ => .pure _)
      (.ite (hG.runLoopMigrate_within o) (.pure _))

/-! ### The entry and the exit -/

theorem vmxEnterEnd_within (o : EntryOutcome) : Within G (vmxEnterEnd o) := by
  refine Within.get.bind fun s => ?_
  split
  · exact .pure _
  · rename_i p _
    have herror : ∀ v, Within G (modifyHw fun hw => hw.vmwrite p .vmInstructionError v) := fun v =>
      hG.modifyHw_within fun hw => hw.eptSame_vmwrite p (by simp) v
    refine .ite ((herror _).bind fun _ => .pure _) ?_
    split
    · exact (herror _).bind fun _ => .pure _
    · exact (hG.modifyHw_within fun hw => hw.eptSame_vmEntryFailure p _ _).bind fun _ =>
        (hG.emit_within id).bind fun _ => .pure _
    · exact (hG.modifyHw_within fun hw => hw.eptSame_vmExit s.cpu p _).bind fun _ =>
        (hG.modifyVcpu_within fun _ => by exact ⟨rfl, rfl⟩).bind fun _ => .pure _

theorem recordEntry_within : Within G recordEntry := Within.get.bind fun _ => hG.emit_within id

theorem wrmsrKernelGsBase_within (v : BitVec 64) : Within G (wrmsrKernelGsBase v) :=
  hG.modify_within _ fun _ => ⟨rfl, fun _ => rfl, rfl, rfl, rfl, rfl, rfl, noEvents _⟩

end AllowsCall

/-! ### The loop -/

/-- The guarantee allows what an iteration does after its entry: the handlers, changes of the event slot and the
handling of EPT violations. -/
structure AllowsExit (G : Guarantee St) : Prop where
  handlers : AllowsHandlers G
  wrmsrKernelGsBase_within : ∀ v, Within G (wrmsrKernelGsBase v)
  modifyLaunched_within : Within G (modifyVcpu fun v => if !v.launched then { v with launched := true } else v)
  modifyPending_within : ∀ f : MiniKvmVcpu → BitVec 32, Within G (modifyVcpu fun v => { v with pendingIntrInfo := f v })
  miniEptHandleViolation_within : Within G miniEptHandleViolation

/-- An iteration after `mini_vmx_enter()` has returned `r`. -/
def runLoopLeave (gsShadow : BitVec 64) (r : Int) : M (Option Int) := do
  wrmsrKernelGsBase gsShadow
  if r ≠ 0 then
    entryVmFail
  else
    afterEntry

namespace AllowsExit

variable {G : Guarantee St} (hG : AllowsExit G)

include hG

theorem miniVcpuCompleteIntrInfo_within : Within G miniVcpuCompleteIntrInfo :=
  (hG.modifyPending_within _).bind fun _ => (hG.handlers.vmread_within _).bind fun _ => hG.modifyPending_within _

theorem miniVcpuReinjectNmi_within : Within G miniVcpuReinjectNmi :=
  (hG.handlers.vmread_within _).bind fun _ => .ite (.pure ()) <| Within.get.bind fun _ =>
    .ite (.pure ()) (hG.modifyPending_within _)

theorem runLoopLeave_within (gsShadow : BitVec 64) (r : Int) : Within G (runLoopLeave gsShadow r) := by
  have hhandlers := hG.handlers
  have htrue : ∀ reason64, Within G (trueExit reason64) := fun _ =>
    hG.miniVcpuCompleteIntrInfo_within.bind fun _ =>
      hhandlers.handleExit_within hG.miniVcpuReinjectNmi_within hG.miniEptHandleViolation_within _
  have hexamine : Within G examineExit :=
    (hhandlers.modifyVcpu_within fun _ => by exact ⟨rfl, rfl⟩).bind fun _ => (hhandlers.vmread_within _).bind fun _ =>
      .ite hhandlers.entryFailed_within (htrue _)
  have hafter : Within G afterEntry := hG.modifyLaunched_within.bind fun _ => hexamine
  exact (hG.wrmsrKernelGsBase_within gsShadow).bind fun _ => .ite hhandlers.entryVmFail_within hafter

end AllowsExit

/-- The guarantee allows a whole iteration. -/
structure AllowsLoop (G : Guarantee St) : Prop where
  work : AllowsWork G
  recordEntry_within : Within G recordEntry
  vmxEnterEnd_within : ∀ o, Within G (vmxEnterEnd o)
  wrmsrKernelGsBase_within : ∀ v, Within G (wrmsrKernelGsBase v)
  modifyLaunched_within : Within G (modifyVcpu fun v => if !v.launched then { v with launched := true } else v)
  modifyPending_within : ∀ f : MiniKvmVcpu → BitVec 32, Within G (modifyVcpu fun v => { v with pendingIntrInfo := f v })
  miniEptHandleViolation_within : Within G miniEptHandleViolation

namespace AllowsLoop

variable {G : Guarantee St} (hG : AllowsLoop G)

include hG

theorem allowsExit : AllowsExit G where
  handlers := hG.work.toAllowsHandlers
  wrmsrKernelGsBase_within := hG.wrmsrKernelGsBase_within
  modifyLaunched_within := hG.modifyLaunched_within
  modifyPending_within := hG.modifyPending_within
  miniEptHandleViolation_within := hG.miniEptHandleViolation_within

theorem miniVcpuTakeIntrInfo_within : Within G miniVcpuTakeIntrInfo :=
  Within.get.bind fun _ => (hG.modifyPending_within _).bind fun _ => .pure _

theorem runLoopEnter_within : Within G runLoopEnter := by
  have hwork := hG.work
  have hprepare : Within G runLoopPrepare :=
    hwork.miniVmxRefreshHostState_within.bind fun _ => hG.miniVcpuTakeIntrInfo_within.bind fun _ =>
      .ite (hwork.runLoopInject_within.bind fun _ => hwork.runLoopWrite_within _) (hwork.runLoopWrite_within _)
  exact hprepare.bind fun _ => hG.recordEntry_within.bind fun _ => .pure _

theorem runLoopExit_within (gsShadow : BitVec 64) (o : EntryOutcome) : Within G (runLoopExit gsShadow o) :=
  (hG.vmxEnterEnd_within o).bind fun r => hG.allowsExit.runLoopLeave_within gsShadow r

theorem runLoopBody_within (o : EntryOutcome) : Within G (runLoopBody o) :=
  hG.runLoopEnter_within.bind fun _ => hG.runLoopExit_within _ o

theorem runLoop_within (o : EntryOutcome) (os : List EntryOutcome) : Within G (runLoop o os) := by
  induction os generalizing o with
  | nil => exact hG.runLoopBody_within o
  | cons o' os ih =>
    refine (hG.runLoopBody_within o).bind fun r => ?_
    cases r with
    | none => exact ih o'
    | some r => exact .pure _

end AllowsLoop

namespace AllowsCall

variable {G : Guarantee St} (hG : AllowsCall G)

include hG

/-- A guarantee that allows calls allows the loop as far as it allows changes of the event slot and of the EPT. -/
theorem allowsLoop
    (hpending : ∀ f : MiniKvmVcpu → BitVec 32, Within G (modifyVcpu fun v => { v with pendingIntrInfo := f v }))
    (hviolation : Within G miniEptHandleViolation) : AllowsLoop G where
  work := hG.allowsWork
  recordEntry_within := hG.recordEntry_within
  vmxEnterEnd_within := hG.vmxEnterEnd_within
  wrmsrKernelGsBase_within := hG.wrmsrKernelGsBase_within
  modifyLaunched_within := hG.modifyVcpu_within fun v => by cases v.launched <;> exact ⟨rfl, rfl⟩
  modifyPending_within := hpending
  miniEptHandleViolation_within := hviolation

theorem miniVcpuRunLoop_within
    (hpending : ∀ f : MiniKvmVcpu → BitVec 32, Within G (modifyVcpu fun v => { v with pendingIntrInfo := f v }))
    (hviolation : Within G miniEptHandleViolation) (o : RunCall) : Within G (miniVcpuRunLoop o) := by
  refine (hG.allowsWork.setExitReason_within _).bind fun _ => hG.preemptDisable_within.bind fun _ =>
    (hG.runLoopLoad_within o).bind fun r => ?_
  cases r with
  | some r => exact hG.preemptEnable_within.bind fun _ => .pure _
  | none =>
    refine ((hG.allowsLoop hpending hviolation).runLoop_within o.first o.rest).bind fun r => ?_
    cases r with
    | some r => exact hG.preemptEnable_within.bind fun _ => .pure _
    | none => exact .pure _

end AllowsCall

/-! ### VMCS pages -/

/-- No VMCS page is freed. -/
def keepFrame : Guarantee St where
  rel s s' := ∃ l, s'.trace = s.trace ++ l ∧ ∀ e ∈ l, ¬ e.IsFree
  refl s := noEvents s.trace
  trans := by
    rintro s₁ s₂ s₃ ⟨l₁, h₁, hl₁⟩ ⟨l₂, h₂, hl₂⟩
    refine ⟨l₁ ++ l₂, by rw [h₂, h₁, List.append_assoc], fun e he => ?_⟩
    exact (List.mem_append.1 he).elim (hl₁ e) (hl₂ e)

theorem keepFrame_allowsCall : AllowsCall keepFrame where
  modify_within _ h s := (h s).trace

theorem miniEptHandleViolation_keep : Within keepFrame miniEptHandleViolation :=
  miniEptHandleViolation_within_of keepFrame_allowsCall.allowsWork.vmread_within fun _ h =>
    Within.modify fun s => ⟨[], by rw [(h s).2.2.2.2, List.append_nil], fun _ he => absurd he List.not_mem_nil⟩

theorem modifyVcpu_keep (f : MiniKvmVcpu → MiniKvmVcpu) : Within keepFrame (modifyVcpu f) := fun s =>
  noEvents s.trace

/-! ### The EPT after a call -/

/-- One EPT violation. -/
def Violation (slot : MiniKvmMemslot) (e e' : EptState) : Prop :=
  ∃ gpa, e' = (eptHandleViolation slot e gpa).1

/-- The EPT changes by EPT violations only, and the memslot and the VMCS page stay. -/
def violationFrame : Guarantee St where
  rel s s' := Relation.ReflTransGen (Violation s.kvm.slot) s.eptState s'.eptState ∧
    s'.kvm.slot = s.kvm.slot ∧ s'.vcpu.vmcsPage = s.vcpu.vmcsPage
  refl _ := ⟨.refl, rfl, rfl⟩
  trans := by
    rintro s₁ s₂ s₃ ⟨h₁, hslot₁, hpage₁⟩ ⟨h₂, hslot₂, hpage₂⟩
    rw [hslot₁] at h₂
    exact ⟨h₁.trans h₂, hslot₂.trans hslot₁, hpage₂.trans hpage₁⟩

theorem violationFrame_of_same {s s' : St} (hept : s'.eptState = s.eptState) (hslot : s'.kvm.slot = s.kvm.slot)
    (hpage : s'.vcpu.vmcsPage = s.vcpu.vmcsPage) : violationFrame.rel s s' := by
  refine ⟨?_, hslot, hpage⟩
  rw [hept]

theorem miniEptHandleViolation_ept (s : St) :
    (miniEptHandleViolation.run s).2.eptState =
        (eptHandleViolation s.kvm.slot s.eptState (s.field .guestPhysicalAddress)).1 ∧
      (miniEptHandleViolation.run s).2.kvm.slot = s.kvm.slot ∧
        (miniEptHandleViolation.run s).2.vcpu.vmcsPage = s.vcpu.vmcsPage := by
  unfold miniEptHandleViolation
  rw [run_bind, run_bind, run_get]
  dsimp only
  rw [run_bind, run_ite]
  split <;> exact ⟨rfl, rfl, rfl⟩

theorem miniEptHandleViolation_violation : Within violationFrame miniEptHandleViolation := by
  intro s
  obtain ⟨hept, hsame⟩ := miniEptHandleViolation_ept s
  exact ⟨.single ⟨_, hept⟩, hsame⟩

theorem violationFrame_allowsCall : AllowsCall violationFrame where
  modify_within g h s := by
    refine violationFrame_of_same ?_ (h s).slot (h s).page
    show EptState.mk (g s).hw.mem (g s).kvm.ept (g s).allocs = _
    rw [(h s).mem, (h s).ept, (h s).allocs]
    rfl

theorem modifyVcpu_violation {f : MiniKvmVcpu → MiniKvmVcpu} (h : ∀ v, (f v).vmcsPage = v.vmcsPage) :
    Within violationFrame (modifyVcpu f) := fun s => violationFrame_of_same rfl rfl (h s.vcpu)

/-! ### Setup and teardown -/

/-- The EPT and the memslot are left alone. -/
def vmFrame : Guarantee St where
  rel s s' := s'.eptState = s.eptState ∧ s'.kvm.slot = s.kvm.slot
  refl _ := ⟨rfl, rfl⟩
  trans h₁ h₂ := ⟨h₂.1.trans h₁.1, h₂.2.trans h₁.2⟩

theorem vmFrame_allowsCall : AllowsCall vmFrame where
  modify_within g h s := by
    refine ⟨?_, (h s).slot⟩
    show EptState.mk (g s).hw.mem (g s).kvm.ept (g s).allocs = _
    rw [(h s).mem, (h s).ept, (h s).allocs]
    rfl

theorem miniVmwrite_vm (f : VmcsField) (v : BitVec 64) : Within vmFrame (miniVmwrite f v) := by
  intro s
  rw [miniVmwrite_run]
  cases s.current with
  | none => exact ⟨rfl, rfl⟩
  | some p => exact ⟨rfl, rfl⟩

theorem freeVmcsPage_vm (page : Pfn) : Within vmFrame (freeVmcsPage page) := fun _ => ⟨rfl, rfl⟩

theorem vmxSetupLoaded_vm (page : Pfn) (o : SetupCall) : Within vmFrame (vmxSetupLoaded page o) := by
  have hG := vmFrame_allowsCall
  refine Within.bind (fun _ => ⟨rfl, rfl⟩) fun _ => Within.get.bind fun s => ?_
  cases miniComputeControls s.hw.trueCtls o.rdmsr with
  | error r => exact (hG.miniVmcsClear_within _).bind fun _ => (freeVmcsPage_vm page).bind fun _ => .pure _
  | ok c =>
    have hwork := hG.allowsWork
    have hcontrols : Within vmFrame (vmwriteAll (vmcsControlFields c s.kvm.ept.eptp)) :=
      vmwriteAll_within fun x _ => miniVmwrite_vm x.1 x.2
    exact hcontrols.bind fun _ => hwork.miniVmxSetGuestState_within.bind fun _ =>
      hwork.miniVmxSetConstantHostState_within.bind fun _ => (hG.miniVmcsClear_within _).bind fun _ =>
        .pure _

theorem miniVcpuVmxSetup_vm (o : SetupCall) : Within vmFrame (miniVcpuVmxSetup o) := by
  have hG := vmFrame_allowsCall
  unfold miniVcpuVmxSetup
  cases o.page with
  | none => exact .pure _
  | some page =>
    have hfail : ∀ r : Int, Within vmFrame (do
        freeVmcsPage page
        return r) := fun r => (freeVmcsPage_vm page).bind fun _ => .pure r
    exact Within.bind (fun _ => ⟨rfl, rfl⟩) fun _ =>
      (Within.get.bind fun _ => hG.vmclearOn_within _ _ _).bind fun _ => .ite (hfail _)
        ((hG.miniVmptrld_within _ _).bind fun _ => .ite (hfail _) (vmxSetupLoaded_vm page o))

theorem miniVcpuVmxTeardown_vm (ok : Bool) : Within vmFrame (miniVcpuVmxTeardown ok) := by
  refine Within.get.bind fun s => ?_
  cases s.vcpu.vmcsPage with
  | none => exact .pure ()
  | some page => exact (vmFrame_allowsCall.miniVmcsClear_within ok).bind fun _ => freeVmcsPage_vm page

/-! ### KVM_RUN -/

/-- KVM_RUN changes the EPT by handling EPT violations. -/
theorem miniVcpuRunLoop_violations (o : RunCall) : Within violationFrame (miniVcpuRunLoop o) :=
  violationFrame_allowsCall.miniVcpuRunLoop_within (fun _ => modifyVcpu_violation fun _ => by rfl)
    miniEptHandleViolation_violation o

end MiniVirt.Kvm
