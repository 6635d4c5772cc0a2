import MiniVirt.Kvm.Spec.Fields
import MiniVirt.Kvm.Spec.LostEvent

/-!
# The VM-entry field is legal

Every value that comes into the event slot is 0, an external interrupt with a vector from 32 to 255, or the NMI
(`LegalEvent`), whether it is a request, a redelivery or an NMI injected again.  The injection window then brings
RFLAGS and the interruptibility state into line with it, so `legalEntries` holds for every sequence of requests and
KVM_RUNs, with whatever else happens on the machine in between.
-/

namespace MiniVirt.Kvm

/-! ### The law -/

/-- The VM-entry interruption information of the current VMCS and the guest state that SDM 27.2.1.3, 27.3.1.4 and
27.3.1.5 want with it. -/
def St.LegalEntry (s : St) : Prop :=
  let info := s.field .vmEntryIntrInfoField
  info = 0 ∨ infoValid info ∧ info &&& 0x7ffff800 = 0 ∧
    (infoType info = 0 ∧ 32 ≤ infoVector info ∧ s.field .guestRflags &&& x86EflagsIf ≠ 0 ∨
      infoType info = 2 ∧ infoVector info = 2) ∧
    s.field .guestInterruptibilityInfo &&& 3 = 0

/-- From `s` to `s'` RFLAGS and the interruptibility state change in RFLAGS.IF and the bits 0 and 1 only, and not
at all when nothing is injected. -/
structure WindowOnly (s s' : St) : Prop where
  rflags : s'.field .guestRflags &&& ~~~x86EflagsIf = s.field .guestRflags &&& ~~~x86EflagsIf
  interruptibility :
    s'.field .guestInterruptibilityInfo &&& ~~~3 = s.field .guestInterruptibilityInfo &&& ~~~3
  nothing : s'.field .vmEntryIntrInfoField = 0 → s'.field .guestRflags = s.field .guestRflags ∧
    s'.field .guestInterruptibilityInfo = s.field .guestInterruptibilityInfo

namespace Iteration

variable (x : Iteration)

/-- The state that the hardware leaves when `mini_vmx_enter()` returns. -/
def left : St := ((vmxEnterEnd x.outcome).run (runLoopEnter.run x.start).2).2

/-- The IDT-vectoring information of a true exit reports only the event that was injected. -/
def ReportsInjected : Prop :=
  ∀ i, x.outcome = .exit i → x.entry.Accepts → infoValid (i.field .idtVectoringInfoField) →
    infoValid (x.entry.field .vmEntryIntrInfoField) ∧
      infoType (i.field .idtVectoringInfoField) = infoType (x.entry.field .vmEntryIntrInfoField) ∧
        infoVector (i.field .idtVectoringInfoField) = infoVector (x.entry.field .vmEntryIntrInfoField)

end Iteration

/-- The fields of the injection window. -/
def VmcsField.inWindow : VmcsField → Prop
  | .guestRflags | .guestInterruptibilityInfo => True
  | _ => False

/-- What holds of the entries of a KVM_RUN from `s`; outside the injection window the loop leaves both fields
alone. -/
structure InjectionLaw (o : RunCall) (s : St) : Prop where
  head : ∀ p f, f.inWindow → (((Session.runHead o).run s).2.hw.vmcs p).field f = (s.hw.vmcs p).field f
  entries : ∀ x ∈ o.iterations s, ∀ p, x.start.current = some p → x.entry.current = some p ∧ x.entry.LegalEntry
  window : ∀ x ∈ o.iterations s, ∀ p, x.start.current = some p → WindowOnly x.start x.entry
  rest : ∀ x ∈ o.iterations s, ∀ f, f.inWindow → x.exec.2.field f = x.left.field f

/-- The calls on a vCPU, each with the state of the machine and the VM when it is made. -/
inductive VcpuOp where
  | injectIrq (s : St) (vector : Int)
  | run (s : St) (o : RunCall)

namespace VcpuOp

def step (v : MiniKvmVcpu) : VcpuOp → MiniKvmVcpu
  | .injectIrq s vector => ((miniVcpuInjectIrq vector).run { s with vcpu := v }).2.vcpu
  | .run s o => ((miniVcpuRunLoop o).run { s with vcpu := v }).2.vcpu

/-- The hardware. -/
def Env (v : MiniKvmVcpu) : VcpuOp → Prop
  | .injectIrq _ _ => True
  | .run s o => ∀ x ∈ o.iterations { s with vcpu := v }, x.ReportsInjected

def Law (v : MiniKvmVcpu) : VcpuOp → Prop
  | .injectIrq _ _ => True
  | .run s o => InjectionLaw o { s with vcpu := v }

end VcpuOp

/-! ### The slot -/

/-- An event that the slot may hold. -/
def LegalEvent (event : BitVec 32) : Prop :=
  event = 0 ∨ (∃ v : BitVec 8, 32 ≤ v ∧ event = extIntrInfo (v.setWidth 32)) ∨ event = nmiInfo

theorem legalEvent_request {vector : Int} (h : 32 ≤ vector ∧ vector ≤ 255) :
    LegalEvent (extIntrInfo (BitVec.ofInt 32 vector)) := by
  refine .inr (.inl ⟨BitVec.ofInt 8 vector, ?_, ?_⟩)
  · rw [BitVec.le_def, BitVec.toNat_ofInt]
    simp
    omega
  · congr 1
    apply BitVec.eq_of_toNat_eq
    rw [BitVec.toNat_setWidth, BitVec.toNat_ofInt, BitVec.toNat_ofInt]
    omega

theorem extIntrInfo_reserved (v : BitVec 8) : (extIntrInfo (v.setWidth 32)).setWidth 64 &&& 0x7ffff800 = 0 := by
  have hinfo : (extIntrInfo (v.setWidth 32)).setWidth 64 = (0x80000000 : BitVec 64) ||| v.setWidth 64 := by
    simp [extIntrInfo, intrInfoValidMask, intrTypeExtIntr, BitVec.setWidth_or]
  have hlow : v.setWidth 64 = v.setWidth 64 &&& (0xff : BitVec 64) := by
    apply BitVec.eq_of_toNat_eq
    have hv := v.isLt
    have hmask : (0xff : BitVec 64).toNat = 2 ^ 8 - 1 := by decide
    rw [BitVec.toNat_and, hmask, Nat.and_two_pow_sub_one_eq_mod, BitVec.toNat_setWidth]
    omega
  have hmask : (0xff : BitVec 64) &&& 0x7ffff800 = 0 := by decide
  rw [hinfo, hlow, BitVec.and_or_distrib_right, BitVec.and_assoc, hmask]
  exact (congrArg _ BitVec.and_zero).trans (by decide)

/-- A valid event in the VM-entry field, by its type. -/
theorem LegalEvent.entry {event : BitVec 32} (h : LegalEvent event) :
    let info := event.setWidth 64
    info = 0 ∨ infoValid info ∧ info &&& 0x7ffff800 = 0 ∧
      (infoType info = 0 ∧ 32 ≤ infoVector info ∨ infoType info = 2 ∧ infoVector info = 2) := by
  rcases h with rfl | ⟨v, hv, rfl⟩ | rfl
  · exact .inl rfl
  · refine .inr ?_
    have hext := extVector_extIntrInfo v
    unfold extVector at hext
    split at hext
    · next hvalid =>
      refine ⟨hvalid.1, extIntrInfo_reserved v, .inl ⟨hvalid.2, ?_⟩⟩
      rw [Option.some.inj hext]
      exact hv
    · cases hext
  · exact .inr (by decide)

/-- What is delivered again is the external interrupt that was injected. -/
theorem LegalEvent.redelivered {event : BitVec 32} {idtv : BitVec 64} (h : LegalEvent event)
    (hidtv : infoValid idtv → infoValid (event.setWidth 64) ∧ infoType idtv = infoType (event.setWidth 64) ∧
      infoVector idtv = infoVector (event.setWidth 64)) : LegalEvent (redelivered idtv) := by
  rw [redelivered_eq]
  unfold extVector
  split
  · next hext =>
    obtain ⟨hentry, htype, hvector⟩ := hidtv hext.1
    refine .inr (.inl ⟨infoVector idtv, ?_, rfl⟩)
    rw [hvector]
    obtain hzero | ⟨-, -, ⟨-, hle⟩ | ⟨hnmi, -⟩⟩ := h.entry
    · rw [hzero] at hentry
      exact absurd hentry (by decide)
    · exact hle
    · rw [← htype, hext.2] at hnmi
      exact absurd hnmi (by decide)
  · exact .inl rfl

/-! ### One iteration -/

theorem or_if_and_if (r : BitVec 64) : (r ||| x86EflagsIf) &&& x86EflagsIf ≠ 0 := by
  have hif : (r ||| x86EflagsIf) &&& x86EflagsIf = x86EflagsIf := by
    rw [BitVec.and_or_distrib_right, BitVec.and_self]
    apply BitVec.eq_of_getLsbD_eq
    intro i hi
    simp
  rw [hif]
  decide

theorem or_and_not (r m : BitVec 64) : (r ||| m) &&& ~~~m = r &&& ~~~m := by
  rw [BitVec.and_or_distrib_right]
  apply BitVec.eq_of_getLsbD_eq
  intro i hi
  simp

namespace Iteration

variable {x : Iteration} {p : Phys}

/-- The slot goes to the VM-entry field. -/
theorem entry_field (h : x.start.current = some p) :
    x.entry.current = some p ∧
      x.entry.field .vmEntryIntrInfoField = x.start.vcpu.pendingIntrInfo.setWidth 64 :=
  ⟨(current_of_within runLoopPrepare_within x.start).trans h, (runLoopEnter_moves h).2⟩

/-- The injection window makes RFLAGS and the interruptibility state fit the event. -/
theorem legalEntry (h : x.start.current = some p) (hslot : LegalEvent x.start.vcpu.pendingIntrInfo) :
    x.entry.LegalEntry := by
  obtain ⟨hrflags, hib⟩ := runLoopPrepare_window h
  change x.entry.field .guestRflags = _ at hrflags
  change x.entry.field .guestInterruptibilityInfo = _ at hib
  unfold St.LegalEntry
  rw [(entry_field h).2, hrflags, hib]
  by_cases hzero : x.start.vcpu.pendingIntrInfo = 0
  · rw [hzero]
    exact .inl rfl
  · rw [if_pos hzero, if_pos hzero]
    refine hslot.entry.imp_right ?_
    rintro ⟨hvalid, hreserved, htype⟩
    refine ⟨hvalid, hreserved, htype.imp_left fun h => ⟨h.1, h.2, or_if_and_if _⟩, ?_⟩
    have hmask : ~~~(3 : BitVec 64) &&& 3 = 0 := by decide
    rw [BitVec.and_assoc, hmask]
    exact BitVec.and_zero

theorem windowOnly (h : x.start.current = some p) : WindowOnly x.start x.entry := by
  obtain ⟨hrflags, hib⟩ := runLoopPrepare_window h
  change x.entry.field .guestRflags = _ at hrflags
  change x.entry.field .guestInterruptibilityInfo = _ at hib
  refine ⟨?_, ?_, fun hnothing => ?_⟩
  · rw [hrflags]
    split
    · exact or_and_not _ _
    · rfl
  · rw [hib]
    split
    · rw [BitVec.and_assoc, BitVec.and_self]
    · rfl
  · rw [(entry_field h).2] at hnothing
    have hzero : x.start.vcpu.pendingIntrInfo = 0 := by
      have hsmall := congrArg (BitVec.setWidth 32) hnothing
      simpa using hsmall
    rw [hrflags, hib, if_neg (not_not.2 hzero), if_neg (not_not.2 hzero)]
    exact ⟨rfl, rfl⟩

/-- An iteration leaves a legal event in the slot. -/
theorem legalEvent_exec (hslot : LegalEvent x.start.vcpu.pendingIntrInfo) (hreports : x.ReportsInjected) :
    LegalEvent x.exec.2.vcpu.pendingIntrInfo := by
  by_cases hfails : x.Fails
  · rw [(exec_of_fails hfails).2]
    exact .inl rfl
  · obtain ⟨haccepts, i, hi⟩ := not_not.1 hfails
    obtain ⟨p, hcur, -⟩ := id haccepts
    have hstart : x.start.current = some p :=
      (current_of_within runLoopPrepare_within x.start).symm.trans hcur
    have hreports' := hreports i hi haccepts
    rw [(entry_field hstart).2] at hreports'
    have hexec : x.exec = (runLoopExit (runLoopEnter.run x.start).1 (.exit i)).run (runLoopEnter.run x.start).2 := by
      unfold exec
      rw [runLoopBody_run, hi]
    have hentry : (runLoopEnter.run x.start).2.Accepts := haccepts
    rw [hexec, runLoopExit_slot_eq hentry]
    split
    · exact .inr (.inr rfl)
    · exact hslot.redelivered hreports'

end Iteration

/-! ### Outside the window -/

/-- The fields of the injection window are the same in all VMCSs. -/
def windowFrame : Guarantee St where
  rel s s' := ∀ p f, f.inWindow → (s'.hw.vmcs p).field f = (s.hw.vmcs p).field f
  refl _ _ _ _ := rfl
  trans h₁ h₂ p f hf := (h₂ p f hf).trans (h₁ p f hf)

theorem window_of_field {α : Type} {m : M α} (h : Within fieldFrame m) : Within windowFrame m :=
  Within.mono h fun _ _ hfield p f _ => congrFun (hfield p) f

theorem modify_window {g : St → St} (h : ∀ s, (g s).hw.vmcs = s.hw.vmcs) : Within windowFrame (modify g : M Unit) :=
  fun s p f _ => congrArg (fun vmcs : Phys → Vmcs => (vmcs p).field f) (h s)

theorem miniVmwrite_window {f : VmcsField} (hf : ¬ f.inWindow) (v : BitVec 64) :
    Within windowFrame (miniVmwrite f v) := by
  intro s p g hg
  rw [miniVmwrite_run]
  cases s.current with
  | none => rfl
  | some q =>
    show (Function.update s.hw.vmcs q _ p).field g = _
    by_cases hp : p = q
    · subst hp
      rw [Function.update_self]
      refine Function.update_of_ne ?_ ..
      rintro rfl
      exact hf hg
    · rw [Function.update_of_ne hp]

theorem windowFrame_allowsExit : AllowsExit windowFrame where
  handlers := {
    vmread_within _ := window_of_field fun _ _ => rfl
    vmwriteRip_within v := miniVmwrite_window id v
    modify_within _ h := window_of_field fun s => (h s).field }
  wrmsrKernelGsBase_within _ := modify_window fun _ => rfl
  modifyLaunched_within := modify_window fun _ => rfl
  modifyPending_within _ := modify_window fun _ => rfl
  miniEptHandleViolation_within s := by
    unfold miniEptHandleViolation
    rw [run_bind, run_bind, run_get]
    dsimp only
    rw [run_bind, run_ite]
    split <;> exact fun _ _ _ => rfl

theorem runHead_window (o : RunCall) : Within windowFrame (Session.runHead o) := by
  have hG := windowFrame_allowsExit.handlers
  have hfixup : Within windowFrame miniVmxFixupHostForCpu :=
    miniVmxFixupHostForCpu_within_of fun f hf => miniVmwrite_window fun hin => by
      simp only [List.mem_cons, List.not_mem_nil, or_false] at hf
      rcases hf with rfl | rfl | rfl <;> simp [VmcsField.inWindow] at hin
  have hattach : Within windowFrame (runLoopAttach o.inveptOk) :=
    (hG.miniEptInveptGlobal_within _).bind fun _ => (modify_window fun _ => by rfl).bind fun _ => hfixup
  have hmigrate : Within windowFrame (runLoopMigrate o) :=
    (window_of_field (miniVmcsClear_field _)).bind fun _ => Within.get.bind fun _ =>
      (window_of_field (miniVmptrld_field _ _)).bind fun _ =>
      .ite ((hG.setExitReason_within _).bind fun _ => .pure _) (hattach.bind fun _ => .pure _)
  refine (hG.setExitReason_within _).bind fun _ => (modify_window fun _ => by rfl).bind fun _ =>
    Within.get.bind fun _ => (cpuInVmxOperation_within _).bind fun _ => ?_
  exact .ite ((hG.setExitReason_within _).bind fun _ => .pure _) (.ite hmigrate (.pure _))

/-- After `mini_vmx_enter()` the iteration leaves both fields alone. -/
theorem Iteration.rest (x : Iteration) {f : VmcsField} (hf : f.inWindow) : x.exec.2.field f = x.left.field f := by
  have hexec : x.exec.2 = ((runLoopLeave (runLoopEnter.run x.start).1
      ((vmxEnterEnd x.outcome).run (runLoopEnter.run x.start).2).1).run x.left).2 := rfl
  have hcur := currentFrame_allowsLoop.allowsExit.runLoopLeave_within (runLoopEnter.run x.start).1
    ((vmxEnterEnd x.outcome).run (runLoopEnter.run x.start).2).1 x.left
  have hfield := windowFrame_allowsExit.runLoopLeave_within (runLoopEnter.run x.start).1
    ((vmxEnterEnd x.outcome).run (runLoopEnter.run x.start).2).1 x.left
  rw [hexec]
  unfold St.field
  rw [hcur.1]
  cases x.left.current with
  | none => rfl
  | some p => exact hfield p f hf

/-! ### Calls -/

/-- A KVM_RUN from a legal slot. -/
theorem injectionLaw {o : RunCall} {s : St} (hslot : LegalEvent s.vcpu.pendingIntrInfo)
    (hreports : ∀ x ∈ o.iterations s, x.ReportsInjected) :
    InjectionLaw o s ∧ LegalEvent ((miniVcpuRunLoop o).run s).2.vcpu.pendingIntrInfo := by
  have hhead : LegalEvent ((Session.runHead o).run s).2.vcpu.pendingIntrInfo := by
    rw [show ((Session.runHead o).run s).2.vcpu.pendingIntrInfo = s.vcpu.pendingIntrInfo from runHead_slot o s]
    exact hslot
  have hpart : ∀ y : Option Int × St, LegalEvent y.2.vcpu.pendingIntrInfo →
      PartPost (fun s => LegalEvent s.vcpu.pendingIntrInfo) (fun _ s => LegalEvent s.vcpu.pendingIntrInfo) y.1 y.2 := by
    rintro ⟨r, s⟩ h
    cases r <;> exact h
  obtain ⟨hstarts, hend⟩ := miniVcpuRunLoop_post (hpart _ hhead)
    (fun x hx hP => hpart _ (x.legalEvent_exec hx hP)) hreports
  refine ⟨⟨fun p f hf => runHead_window o s p f hf, fun x hx p hp => ?_, fun x hx p hp => ?_, fun x hx f hf => ?_⟩, ?_⟩
  · exact ⟨(Iteration.entry_field hp).1, Iteration.legalEntry hp (hstarts x hx)⟩
  · exact Iteration.windowOnly hp
  · exact x.rest hf
  · generalize (miniVcpuRunLoop o).run s = y at hend ⊢
    obtain ⟨r, s'⟩ := y
    cases r with
    | none => exact hend
    | some r =>
      obtain ⟨t, ht, rfl⟩ := hend
      exact ht

namespace VcpuOp

theorem step_legal {v : MiniKvmVcpu} {op : VcpuOp} (h : LegalEvent v.pendingIntrInfo) (henv : op.Env v) :
    LegalEvent (op.step v).pendingIntrInfo ∧ op.Law v := by
  cases op with
  | injectIrq s vector =>
    refine ⟨?_, trivial⟩
    unfold step
    dsimp only
    rw [miniVcpuInjectIrq_run]
    by_cases hvec : 32 ≤ vector ∧ vector ≤ 255
    · rw [if_pos hvec]
      split
      · exact h
      · exact legalEvent_request hvec
    · rw [if_neg hvec]
      exact h
  | run s o => exact (injectionLaw (s := { s with vcpu := v }) h henv).symm

end VcpuOp

/-- Every entry of every KVM_RUN carries a legal event, whatever the requests. -/
theorem legalEntries {v : MiniKvmVcpu} (hv : v.pendingIntrInfo = 0) {ops : List VcpuOp}
    (henv : AllSteps VcpuOp.step VcpuOp.Env v ops) : AllSteps VcpuOp.step VcpuOp.Law v ops := by
  have hstep : ∀ (v : MiniKvmVcpu) (op : VcpuOp), LegalEvent v.pendingIntrInfo → op.Env v →
      LegalEvent (VcpuOp.step v op).pendingIntrInfo ∧ op.Law v :=
    fun _ _ h hop => VcpuOp.step_legal h hop
  have hslot : LegalEvent v.pendingIntrInfo := .inl hv
  exact AllSteps.mono hstep hslot henv

/-- A request and the KVM_RUN that injects it. -/
theorem legalEntries_requested :
    AllSteps VcpuOp.step VcpuOp.Law Session.start.s.vcpu
      [.injectIrq Session.start.s 0x21, .run Session.start.s World.haltRun] := by
  refine legalEntries (by decide +kernel) ⟨trivial, fun x hx i hi _ hvalid => ?_, trivial⟩
  have houtcome : x.outcome = .exit Session.haltExit := by
    unfold RunCall.iterations at hx
    split at hx
    · rw [List.mem_singleton.1 hx]
      rfl
    · exact absurd hx List.not_mem_nil
  cases houtcome.symm.trans hi
  exact absurd rfl hvalid

end MiniVirt.Kvm
