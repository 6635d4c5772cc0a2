import MiniVirt.Kvm.Session
import MiniVirt.Kvm.Spec.Calls
import MiniVirt.Kvm.Spec.Holders
import MiniVirt.Lib.Runs

/-!
# Injected interrupts are delivered exactly once

`pending_intr_info` is request queue and redelivery store at once.  Along every session the vectors
of the accepted requests are those delivered, then the one in the entry in progress, then the one in
the slot (`Session.exactlyOnce`): the `k`-th request is the `k`-th of that sequence, so it is in one
of the three places, and delivered at most once.
-/

namespace MiniVirt.Kvm

/-! ### The slot -/

/-- The event slot is left alone. -/
def slotFrame : Guarantee St where
  rel s s' := s'.vcpu.pendingIntrInfo = s.vcpu.pendingIntrInfo
  refl _ := rfl
  trans h₁ h₂ := h₂.trans h₁

/-- The event slot is left alone, or an NMI is put into the empty slot. -/
def nmiFrame : Guarantee St where
  rel s s' := s'.vcpu.pendingIntrInfo = s.vcpu.pendingIntrInfo ∨
    s.vcpu.pendingIntrInfo = 0 ∧ s'.vcpu.pendingIntrInfo = nmiInfo
  refl _ := .inl rfl
  trans := by
    rintro s₁ s₂ s₃ (h₁ | ⟨h₁, h₁'⟩) (h₂ | ⟨h₂, h₂'⟩)
    · exact .inl (h₂.trans h₁)
    · exact .inr ⟨h₁.symm.trans h₂, h₂'⟩
    · exact .inr ⟨h₁, h₂.trans h₁'⟩
    · exact absurd (h₁'.symm.trans h₂) (by decide)

theorem slotFrame_allowsCall : AllowsCall slotFrame where
  modify_within _ h s := (h s).pending

theorem slotFrame_allowsWork : AllowsWork slotFrame := slotFrame_allowsCall.allowsWork

theorem miniEptHandleViolation_slot : Within slotFrame miniEptHandleViolation :=
  miniEptHandleViolation_within_of (fun _ _ => rfl) fun _ h s => (h s).2.2.2.1

theorem nmiFrame_allowsWork : AllowsWork nmiFrame where
  vmread_within f s := .inl (slotFrame_allowsWork.vmread_within f s)
  vmwrite_within f v hf s := .inl (slotFrame_allowsWork.vmwrite_within f v hf s)
  modify_within g h s := .inl (slotFrame_allowsWork.modify_within g h s)

theorem miniVcpuReinjectNmi_nmiFrame : Within nmiFrame miniVcpuReinjectNmi := by
  refine (nmiFrame_allowsWork.vmread_within _).bind fun ib => .ite (.pure ()) fun s => ?_
  rw [run_bind, run_ite, run_get]
  by_cases hslot : s.vcpu.pendingIntrInfo = 0
  · rw [if_neg (not_not.2 hslot)]
    exact .inr ⟨hslot, rfl⟩
  · rw [if_pos hslot]
    exact .inl rfl

/-! ### KVM_RUN up to the loop -/

theorem runHead_slot (o : RunCall) : Within slotFrame (Session.runHead o) :=
  (slotFrame_allowsWork.setExitReason_within _).bind fun _ =>
    slotFrame_allowsCall.preemptDisable_within.bind fun _ => slotFrame_allowsCall.runLoopLoad_within o

/-! ### The entry -/

theorem miniVmwrite_field {s : St} {p : Phys} (h : s.current = some p) (f : VmcsField)
    (v : BitVec 64) :
    ((miniVmwrite f v).run s).2.current = some p ∧
      ∀ g, ((miniVmwrite f v).run s).2.field g = if g = f then v else s.field g := by
  rw [miniVmwrite_run, h, Option.elim_some]
  refine ⟨h, fun g => ?_⟩
  rw [St.field_eq h, St.field_eq (p := p) (by exact h)]
  simp only [Hw.vmwrite, Hw.setVmcs, Function.update_self]
  by_cases hg : g = f
  · rw [if_pos hg, hg, Function.update_self]
  · rw [if_neg hg, Function.update_of_ne hg]

theorem Effect.current {s s' : St} {l : List Event} {w : VcpuVmx}
    (h : Effect s s' s.hw.vmx w l) : s'.current = s.current := by
  rw [St.current_eq_vmx, h.vmx, h.cpu, ← St.current_eq_vmx]

theorem current_of_within {α : Type} {m : M α} (h : Within accessFrame m) (s : St) :
    (m.run s).2.current = s.current := by
  obtain ⟨l, he, -⟩ := h s
  exact he.current

/-- The event is in the VM-entry field when the guest starts to run. -/
theorem runLoopWrite_field {s : St} {p : Phys} (h : s.current = some p) (intr : BitVec 32) :
    ((runLoopWrite intr).run s).2.field .vmEntryIntrInfoField = intr.setWidth 64 := by
  obtain ⟨hcur, hfield⟩ := miniVmwrite_field h .vmEntryIntrInfoField (intr.setWidth 64)
  rw [runLoopWrite, run_bind]
  generalize ((miniVmwrite .vmEntryIntrInfoField (intr.setWidth 64)).run s).2 = s₁ at hcur hfield ⊢
  -- the last write is of HOST_RSP
  have hrest := (miniVmwrite_field (s := { s₁ with irqsOff := true }) hcur .hostRsp
    (s₁.hw.cpu s₁.cpu).host.stackPointer).2 .vmEntryIntrInfoField
  rw [if_neg (by decide)] at hrest
  exact hrest.trans ((hfield _).trans (if_pos rfl))

/-- The state in which the event has been taken from the slot. -/
def St.taken (s : St) : St := { s with vcpu := { s.vcpu with pendingIntrInfo := 0 } }

theorem runLoopPrepare_run (s : St) :
    runLoopPrepare.run s =
      let s₁ := (miniVmxRefreshHostState.run s).2
      (runLoopWrite s₁.vcpu.pendingIntrInfo).run
        (if s₁.vcpu.pendingIntrInfo ≠ 0 then (runLoopInject.run s₁.taken).2 else s₁.taken) := by
  have htake : ∀ s : St, miniVcpuTakeIntrInfo.run s = (s.vcpu.pendingIntrInfo, s.taken) :=
    fun _ => rfl
  rw [runLoopPrepare, run_bind, run_bind, run_ite, htake]
  generalize (miniVmxRefreshHostState.run s).2 = s₁
  by_cases h : s₁.vcpu.pendingIntrInfo ≠ 0
  · rw [if_pos h]
    simp only [if_pos h]
    rfl
  · rw [if_neg h]
    simp only [if_neg h]

/-- Entering moves the event from the slot to the VM-entry field. -/
theorem runLoopEnter_moves {s : St} {p : Phys} (h : s.current = some p) :
    (runLoopEnter.run s).2.vcpu.pendingIntrInfo = 0 ∧
      (runLoopEnter.run s).2.field .vmEntryIntrInfoField =
        s.vcpu.pendingIntrInfo.setWidth 64 := by
  have hslot : (miniVmxRefreshHostState.run s).2.vcpu.pendingIntrInfo = s.vcpu.pendingIntrInfo :=
    slotFrame_allowsWork.miniVmxRefreshHostState_within s
  have hcur := current_of_within accessFrame_allowsWork.miniVmxRefreshHostState_within s
  have hrecord : ∀ s : St, (recordEntry.run s).2.vcpu = s.vcpu ∧
      (recordEntry.run s).2.field = s.field := fun _ => ⟨rfl, rfl⟩
  have hrun : (runLoopEnter.run s).2 = (recordEntry.run (runLoopPrepare.run s).2).2 := rfl
  rw [hrun, (hrecord _).1, (hrecord _).2, runLoopPrepare_run]
  generalize (miniVmxRefreshHostState.run s).2 = s₁ at hslot hcur ⊢
  simp only [hslot]
  -- the slot is empty and the VMCS current when the VM-entry field is written
  have hinject : ∀ s₂, s₂ = (if s.vcpu.pendingIntrInfo ≠ 0 then (runLoopInject.run s₁.taken).2
      else s₁.taken) → s₂.vcpu.pendingIntrInfo = 0 ∧ s₂.current = some p := by
    rintro s₂ rfl
    split
    · exact ⟨slotFrame_allowsWork.runLoopInject_within s₁.taken,
        (current_of_within accessFrame_allowsWork.runLoopInject_within s₁.taken).trans
          (hcur.trans h)⟩
    · exact ⟨rfl, hcur.trans h⟩
  generalize (if s.vcpu.pendingIntrInfo ≠ 0 then (runLoopInject.run s₁.taken).2
    else s₁.taken) = s₂ at hinject ⊢
  obtain ⟨hslot₂, hcur₂⟩ := hinject s₂ rfl
  exact ⟨(slotFrame_allowsWork.runLoopWrite_within _ s₂).trans hslot₂, runLoopWrite_field hcur₂ _⟩

/-! ### The exit -/

/-- The entry is accepted: there is a current VMCS, in the launch state that the flag says. -/
def St.Accepts (s : St) : Prop :=
  ∃ p, s.current = some p ∧ (s.hw.vmcs p).launched = s.vcpu.launched

theorem ExitInfo.save_of_saved (i : ExitInfo) (field : VmcsField → BitVec 64) {f : VmcsField}
    (h : f.savedOnExit = true) : i.save field f = i.field f := by
  unfold ExitInfo.save
  split
  · exact absurd h (by simp [VmcsField.savedOnExit])
  · exact absurd h (by simp [VmcsField.savedOnExit])
  · rw [if_pos h]

/-- The state in which the run loop finds a true VM exit. -/
theorem vmxEnterEnd_exit {s : St} (h : s.Accepts) (i : ExitInfo) :
    ((vmxEnterEnd (.exit i)).run s).1 = 0 ∧
      ((vmxEnterEnd (.exit i)).run s).2.field .vmExitReason = i.reason.setWidth 64 ∧
      ∀ f, f.savedOnExit = true → ((vmxEnterEnd (.exit i)).run s).2.field f = i.field f := by
  obtain ⟨p, hcur, hlaunched⟩ := h
  have hrun : (vmxEnterEnd (.exit i)).run s =
      (0, { s with
        hw := s.hw.vmExit s.cpu p i
        vcpu := { s.vcpu with regs := saveGuestRegs i.regs s.vcpu.regs } }) := by
    simp [vmxEnterEnd, hcur, hlaunched, modifyHw, modifyVcpu]
    rfl
  have hcur' : ((s.hw.vmExit s.cpu p i).cpu s.cpu).current = some p := by
    simp only [Hw.vmExit, Hw.setKernelGsBase, Hw.setCpu, Hw.setVmcs, Function.update_self]
    exact hcur
  have hvmcs : ((s.hw.vmExit s.cpu p i).vmcs p).field = i.save (s.hw.vmcs p).field := by
    simp only [Hw.vmExit, Hw.setKernelGsBase, Hw.setCpu, Hw.setVmcs, Function.update_self]
  rw [hrun]
  refine ⟨rfl, (St.field_eq (p := p) (by exact hcur') _).trans (congrFun hvmcs _), fun f hf => ?_⟩
  rw [← i.save_of_saved (s.hw.vmcs p).field hf]
  exact (St.field_eq (p := p) (by exact hcur') _).trans (congrFun hvmcs _)

theorem trueExit_slot (s : St) (reason64 : BitVec 64) :
    let info := redelivered (s.field .idtVectoringInfoField)
    let slot := ((trueExit reason64).run s).2.vcpu.pendingIntrInfo
    slot = info ∨ info = 0 ∧ slot = nmiInfo := by
  have hcomplete : (miniVcpuCompleteIntrInfo.run s).2.vcpu.pendingIntrInfo =
      redelivered (s.field .idtVectoringInfoField) := rfl
  have hexit := nmiFrame_allowsWork.handleExit_within miniVcpuReinjectNmi_nmiFrame
    (fun s => .inl (miniEptHandleViolation_slot s))
    (.ofReason (reason64 &&& 0xffff)) (miniVcpuCompleteIntrInfo.run s).2
  simp only
  rw [trueExit, run_bind, ← hcomplete]
  exact hexit

/-- A true VM exit leaves in the slot what the IDT-vectoring information asks to deliver again, or an
NMI. -/
theorem runLoopExit_slot {s : St} (h : s.Accepts) (gsShadow : BitVec 64) (i : ExitInfo) :
    let info := redelivered (i.field .idtVectoringInfoField)
    let slot := ((runLoopExit gsShadow (.exit i)).run s).2.vcpu.pendingIntrInfo
    slot = info ∨ info = 0 ∧ slot = nmiInfo := by
  obtain ⟨hr, hreason, hsaved⟩ := vmxEnterEnd_exit h i
  have hidt := hsaved .idtVectoringInfoField rfl
  rw [runLoopExit_run]
  simp only [hr, ne_eq, not_true, if_false]
  rw [afterEntry_run, examineExit_run]
  generalize ((vmxEnterEnd (.exit i)).run s).2 = s₁ at hreason hidt ⊢
  have hgs : ∀ f, ((wrmsrKernelGsBase gsShadow).run s₁).2.setLaunched.field f = s₁.field f :=
    wrmsrKernelGsBase_field s₁ gsShadow
  generalize ((wrmsrKernelGsBase gsShadow).run s₁).2.setLaunched = s₂ at hgs ⊢
  have hidt₂ : s₂.afterReason.field .idtVectoringInfoField = i.field .idtVectoringInfoField :=
    (hgs _).trans hidt
  rw [hgs, hreason, setWidth_and_bit31, if_neg (by simp), ← hidt₂]
  exact trueExit_slot s₂.afterReason _

/-! ### Interruption information -/

theorem extVector_extIntrInfo (v : BitVec 8) :
    extVector ((extIntrInfo (v.setWidth 32)).setWidth 64) = some v := by
  have hinfo : (extIntrInfo (v.setWidth 32)).setWidth 64 = 0x80000000 ||| v.setWidth 64 := by
    simp [extIntrInfo, intrInfoValidMask, intrTypeExtIntr, BitVec.setWidth_or]
  have hshift : (v.setWidth 64) >>> 8 = 0 := by
    apply BitVec.eq_of_toNat_eq
    have := v.isLt
    simp [BitVec.toNat_ushiftRight, Nat.shiftRight_eq_div_pow]
    omega
  have hvalid : infoValid (0x80000000 ||| v.setWidth 64) := by
    intro h
    have := congrArg (fun x => x.getLsbD 31) h
    simp at this
  have htype : infoType (0x80000000 ||| v.setWidth 64) = 0 := by
    rw [infoType, BitVec.ushiftRight_or_distrib, hshift]
    decide
  have hvec : infoVector (0x80000000 ||| v.setWidth 64) = v := by
    simp [infoVector, BitVec.setWidth_or]
  rw [hinfo, extVector, if_pos ⟨hvalid, htype⟩, hvec]

/-- An external interrupt is delivered again, and nothing else. -/
theorem redelivered_eq (idtv : BitVec 64) :
    redelivered idtv = (extVector idtv).elim 0 fun v => extIntrInfo (v.setWidth 32) := by
  have hext : intrTypeExtIntr.setWidth 64 = (0 : BitVec 64) := by decide
  have hvec : (idtv &&& 0xff).setWidth 32 = (infoVector idtv).setWidth 32 := by
    unfold infoVector
    apply BitVec.eq_of_toNat_eq
    have : (0xff : BitVec 64).toNat = 2 ^ 8 - 1 := by decide
    simp only [BitVec.toNat_setWidth, BitVec.toNat_and, this, Nat.and_two_pow_sub_one_eq_mod]
  rw [redelivered, hext, hvec, extVector]
  by_cases hvalid : idtv &&& 0x80000000 = 0
  · rw [if_pos hvalid, if_neg fun h => h.1 hvalid]
    rfl
  · rw [if_neg hvalid]
    by_cases htype : idtv >>> 8 &&& 7 = 0
    · rw [if_pos htype, if_pos ⟨hvalid, htype⟩]
      rfl
    · rw [if_neg htype, if_neg fun h => htype h.2]
      rfl

theorem extVector_redelivered (idtv : BitVec 64) :
    extVector ((redelivered idtv).setWidth 64) = extVector idtv := by
  rw [redelivered_eq]
  cases extVector idtv with
  | none => decide
  | some v => exact extVector_extIntrInfo v

/-- What the IDT-vectoring information `idtv` of a true VM exit says when the VM-entry field was `e`
and the event in it was delivered, or was not. -/
structure IdtVectoring (e : BitVec 64) (delivered : Bool) (idtv : BitVec 64) : Prop where
  /-- The injected event is reported if and only if its delivery did not complete. -/
  reported : infoValid e → (infoValid idtv ∧ infoType idtv = infoType e ∧
    infoVector idtv = infoVector e ↔ delivered = false)
  /-- An external interrupt is reported in no other way. -/
  external : infoValid idtv → infoType idtv = 0 → infoValid e ∧ infoType e = 0 ∧
    infoVector e = infoVector idtv ∧ delivered = false

theorem IdtVectoring.extVector_eq {e idtv : BitVec 64} {delivered : Bool}
    (h : IdtVectoring e delivered idtv) :
    extVector idtv = if delivered then none else extVector e := by
  by_cases hidt : infoValid idtv ∧ infoType idtv = 0
  · obtain ⟨hvalid, htype, hvec, hd⟩ := h.external hidt.1 hidt.2
    rw [extVector, if_pos hidt, hd, if_neg Bool.false_ne_true, extVector, if_pos ⟨hvalid, htype⟩,
      hvec]
  · rw [extVector, if_neg hidt]
    cases hd : delivered with
    | true => rw [if_pos rfl]
    | false =>
      rw [if_neg Bool.false_ne_true, extVector, if_neg]
      rintro ⟨hvalid, htype⟩
      obtain ⟨hvalid', htype', -⟩ := (h.reported hvalid).2 hd
      exact hidt ⟨hvalid', htype'.trans htype⟩

/-- The state after an accepted request. -/
def St.queued (s : St) (vector : Int) : St :=
  { s with vcpu := { s.vcpu with pendingIntrInfo := extIntrInfo (BitVec.ofInt 32 vector) } }

theorem miniVcpuInjectIrq_run (vector : Int) (s : St) :
    (miniVcpuInjectIrq vector).run s =
      if 32 ≤ vector ∧ vector ≤ 255 then
        if s.vcpu.pendingIntrInfo ≠ 0 then (-ebusy, s) else (0, s.queued vector)
      else (-einval, s) := by
  have hrun : (miniVcpuInjectIrq vector).run s =
      if vector < 0 ∨ vector > 255 then (-einval, s)
      else if vector < 32 then (-einval, s)
      else if s.vcpu.pendingIntrInfo ≠ 0 then (-ebusy, s)
      else (0, s.queued vector) := by
    rw [miniVcpuInjectIrq, run_ite, run_ite, run_bind, run_ite, run_get]
    rfl
  rw [hrun]
  by_cases h₁ : vector < 0 ∨ vector > 255
  · rw [if_pos h₁, if_neg (by omega)]
  · by_cases h₂ : vector < 32
    · rw [if_neg h₁, if_pos h₂, if_neg (by omega)]
    · rw [if_neg h₁, if_neg h₂]
      exact (if_pos (by omega)).symm

theorem extVector_queued (s : St) {vector : Int} (h : 32 ≤ vector ∧ vector ≤ 255) :
    extVector ((s.queued vector).vcpu.pendingIntrInfo.setWidth 64) =
      some (BitVec.ofInt 8 vector) := by
  have hvec : BitVec.ofInt 32 vector = (BitVec.ofInt 8 vector).setWidth 32 := by
    apply BitVec.eq_of_toNat_eq
    rw [BitVec.toNat_setWidth, BitVec.toNat_ofInt, BitVec.toNat_ofInt]
    omega
  rw [St.queued, hvec]
  exact extVector_extIntrInfo _

namespace Session

/-! ### Steps -/

/-- Every accepted request is delivered, in the entry in progress or in the slot. -/
def ExactlyOnce (x : Session) : Prop :=
  x.accepted = x.delivered ++ x.inEntry.toList ++ x.inSlot.toList

/-- While the guest runs the entry was accepted and the slot is empty. -/
structure Inv (x : Session) : Prop where
  once : x.ExactlyOnce
  guest : ∀ gs, x.phase = .guest gs → x.s.Accepts ∧ x.s.vcpu.pendingIntrInfo = 0

/-- The hardware: no VM entry fails, and true VM exits report interrupted deliveries. -/
def Hardware (x : Session) : Input → Prop
  | .enter => x.phase = .loop → x.s.Accepts
  | .exit i delivered => ∀ gs, x.phase = .guest gs →
      IdtVectoring (x.s.field .vmEntryIntrInfoField) delivered (i.field .idtVectoringInfoField)
  | _ => True

/-- A request with a vector from 32 to 255 is refused with `-EBUSY` if the slot is occupied and
accepted otherwise; any other is refused with `-EINVAL`. -/
def RefusesBusy (x : Session) : Input → Prop
  | .injectIrq vector => x.phase = .idle →
      ((miniVcpuInjectIrq vector).run x.s).1 =
        if 32 ≤ vector ∧ vector ≤ 255 then
          if x.s.vcpu.pendingIntrInfo ≠ 0 then -ebusy else 0
        else -einval
  | _ => True

/-- A vCPU that has just been created. -/
structure Fresh (x : Session) : Prop where
  phase : x.phase = .idle
  slot : x.s.vcpu.pendingIntrInfo = 0
  accepted : x.accepted = []
  delivered : x.delivered = []

theorem refusesBusy (x : Session) (i : Input) : x.RefusesBusy i := by
  cases i with
  | injectIrq vector =>
    intro _
    rw [miniVcpuInjectIrq_run]
    split
    · split <;> rfl
    · rfl
  | _ => trivial

theorem inEntry_of_ne_guest {x : Session} (hphase : ∀ gs, x.phase ≠ .guest gs) :
    x.inEntry = none := by
  rw [inEntry]
  split
  · rename_i gs hgs
    exact absurd hgs (hphase gs)
  · rfl

/-- Outside the guest a request is delivered or in the slot. -/
theorem inv_of_ne_guest {x : Session} (hphase : ∀ gs, x.phase ≠ .guest gs)
    (h : x.accepted = x.delivered ++ x.inSlot.toList) : x.Inv := by
  refine ⟨?_, fun gs hgs => absurd hgs (hphase gs)⟩
  rw [ExactlyOnce, inEntry_of_ne_guest hphase, Option.toList_none, List.append_nil]
  exact h

theorem Inv.accepted_of_ne_guest {x : Session} (h : x.Inv) (hphase : ∀ gs, x.phase ≠ .guest gs) :
    x.accepted = x.delivered ++ x.inSlot.toList := by
  have := h.once
  rwa [ExactlyOnce, inEntry_of_ne_guest hphase, Option.toList_none, List.append_nil] at this

theorem Inv.injectIrq {x : Session} (h : x.Inv) (vector : Int) :
    (x.step (.injectIrq vector)).Inv := by
  rw [step]
  split
  · rename_i hphase
    have hguest : ∀ gs, x.phase ≠ .guest gs := fun gs hgs => by cases hphase.symm.trans hgs
    have honce := h.accepted_of_ne_guest hguest
    refine inv_of_ne_guest hguest ?_
    simp only [miniVcpuInjectIrq_run]
    by_cases hvec : 32 ≤ vector ∧ vector ≤ 255
    · by_cases hslot : x.s.vcpu.pendingIntrInfo = 0
      · have hempty : x.inSlot = none := by
          rw [inSlot, hslot]
          decide
        rw [hempty, Option.toList_none, List.append_nil] at honce
        simp only [if_pos hvec, hslot, ne_eq, not_true, if_false, if_true, inSlot,
          extVector_queued _ hvec, Option.toList_some, honce]
      · simp only [if_pos hvec, hslot, ne_eq, not_false_eq_true, if_true, ebusy]
        exact honce
    · simp only [if_neg hvec, einval]
      exact honce
  · exact h

/-- What is left after a part of KVM_RUN is decided by the slot. -/
theorem inv_afterPart {x : Session} {y : Option Int × St} {v : List (BitVec 8)}
    (h : x.accepted = v ++ (extVector (y.2.vcpu.pendingIntrInfo.setWidth 64)).toList) :
    ({ x.afterPart y with delivered := v } : Session).Inv := by
  obtain ⟨r, s⟩ := y
  cases r with
  | none => exact inv_of_ne_guest (fun gs hgs => by cases hgs) h
  | some r => exact inv_of_ne_guest (fun gs hgs => by cases hgs) h

theorem Inv.run {x : Session} (h : x.Inv) (cpu : CpuId) (allocs : List (Option Pfn))
    (o : RunCall) : (x.step (.run cpu allocs o)).Inv := by
  rw [step]
  split
  · rename_i hphase
    have honce := h.accepted_of_ne_guest fun gs hgs => by cases hphase.symm.trans hgs
    have hslot := runHead_slot o { x.s with cpu := cpu, allocs := allocs }
    generalize (runHead o).run { x.s with cpu := cpu, allocs := allocs } = y at hslot ⊢
    have hslot' : y.2.vcpu.pendingIntrInfo = x.s.vcpu.pendingIntrInfo := hslot
    have := inv_afterPart (x := x) (y := y) (v := x.delivered) (by rw [hslot']; exact honce)
    obtain ⟨r, s⟩ := y
    cases r <;> exact this
  · exact h

theorem accepts_runLoopEnter {s : St} (h : s.Accepts) : (runLoopEnter.run s).2.Accepts := by
  obtain ⟨p, hcur, hlaunched⟩ := h
  obtain ⟨l, -, he⟩ := runLoopEnter_effect s
  refine ⟨p, he.current.trans hcur, ?_⟩
  rw [he.vcpu_launched, ← hlaunched]
  exact congrFun (congrArg Vmx.launched he.vmx) p

theorem Inv.enter {x : Session} (h : x.Inv) (hw : x.Hardware .enter) : (x.step .enter).Inv := by
  rw [step]
  split
  · rename_i hphase
    have haccepts := hw hphase
    have honce := h.accepted_of_ne_guest fun gs hgs => by cases hphase.symm.trans hgs
    obtain ⟨p, hcur, -⟩ := haccepts
    obtain ⟨hslot, hfield⟩ := runLoopEnter_moves hcur
    have hnone : extVector ((0 : BitVec 32).setWidth 64) = none := by decide
    refine ⟨?_, fun gs hgs => ⟨accepts_runLoopEnter (hw hphase), hslot⟩⟩
    simp only [ExactlyOnce, inEntry, inSlot, hslot, hfield, hnone, Option.toList_none,
      List.append_nil]
    exact honce
  · exact h

theorem Inv.exit {x : Session} (h : x.Inv) {i : ExitInfo} {delivered : Bool}
    (hw : x.Hardware (.exit i delivered)) : (x.step (.exit i delivered)).Inv := by
  rw [step]
  split
  · rename_i gs hphase
    obtain ⟨haccepts, hempty⟩ := h.guest gs hphase
    have hentry : x.inEntry = extVector (x.s.field .vmEntryIntrInfoField) := by
      rw [inEntry, hphase]
    have hslot : x.inSlot = none := by
      rw [inSlot, hempty]
      decide
    have honce : x.accepted = x.delivered ++ x.inEntry.toList := by
      have := h.once
      rwa [ExactlyOnce, hslot, Option.toList_none, List.append_nil] at this
    -- what the exit leaves in the slot is what was not delivered
    have hleft : extVector (((runLoopExit gs (.exit i)).run x.s).2.vcpu.pendingIntrInfo.setWidth
        64) = if delivered then none else x.inEntry := by
      have hidt := (hw gs hphase).extVector_eq
      rw [← hentry, ← extVector_redelivered] at hidt
      rw [← hidt]
      rcases runLoopExit_slot haccepts gs i with hs | ⟨hzero, hs⟩
      · rw [hs]
      · rw [hs, hzero]
        decide
    refine inv_afterPart ?_
    rw [hleft, honce]
    cases delivered with
    | true => rw [if_pos rfl, if_pos rfl, Option.toList_none, List.append_nil]
    | false => rw [if_neg Bool.false_ne_true, if_neg Bool.false_ne_true]
  · exact h

theorem Inv.step {x : Session} (h : x.Inv) {i : Input} (hw : x.Hardware i) : (x.step i).Inv := by
  cases i with
  | injectIrq vector => exact h.injectIrq vector
  | run cpu allocs o => exact h.run cpu allocs o
  | enter => exact h.enter hw
  | exit i delivered => exact h.exit hw

/-! ### Sessions -/

/-- In every session of a new vCPU, each accepted request is in one of the three places, in order,
and the requests refused with `-EBUSY` are those with a valid vector that find the slot occupied. -/
theorem exactlyOnce {x : Session} {is : List Input} (h : x.Fresh)
    (henv : AllSteps Session.step Session.Hardware x is) :
    (runSteps Session.step x is).ExactlyOnce ∧ AllSteps Session.step Session.RefusesBusy x is := by
  have hfresh : x.Inv := by
    refine inv_of_ne_guest (fun gs hgs => by cases h.phase.symm.trans hgs) ?_
    rw [h.accepted, h.delivered, inSlot, h.slot]
    decide
  have hstep : ∀ (x : Session) (i : Input), x.Inv → x.Hardware i → (x.step i).Inv :=
    fun _ _ hx hw => hx.step hw
  exact ⟨(henv.inv hstep hfresh).once,
    henv.mono (fun x i hx hw => ⟨hstep x i hx hw, x.refusesBusy i⟩) hfresh⟩

/-- A vCPU after its setup. -/
def start : Session where
  s := ((miniVcpuVmxSetup (World.setupCall 1)).run (World.boot.call 0 0 .fresh [])).2
  phase := .idle
  accepted := []
  delivered := []

theorem start_fresh : start.Fresh := ⟨rfl, by decide +kernel, rfl, rfl⟩

/-- An external-interrupt exit in the middle of the delivery of vector 0x21. -/
def interruptedExit : ExitInfo where
  reason := 1
  field
    | .idtVectoringInfoField => 0x80000021
    | _ => 0
  regs _ := 0
  kernelGsBase := 0

def haltExit : ExitInfo := ⟨12, fun _ => 0, fun _ => 0, 0⟩

/-- An interrupt whose first delivery is cut short. -/
theorem exactlyOnce_start :
    let is : List Input := [.injectIrq 0x21, .run 0 [] World.haltRun, .enter,
      .exit interruptedExit false, .enter, .exit haltExit true]
    (runSteps Session.step start is).ExactlyOnce ∧
      AllSteps Session.step Session.RefusesBusy start is := by
  refine exactlyOnce start_fresh ⟨trivial, trivial, fun _ => ⟨0x1000, ?_, ?_⟩, fun _ _ => ⟨?_, ?_⟩,
    fun _ => ⟨0x1000, ?_, ?_⟩, fun _ _ => ⟨?_, ?_⟩, trivial⟩
  all_goals decide +kernel

/-- A request is refused with `-EBUSY` exactly when the slot is occupied, whatever its vector. -/
def BusyIffOccupied (x : Session) : Input → Prop
  | .injectIrq vector => x.phase = .idle →
      (((miniVcpuInjectIrq vector).run x.s).1 = -ebusy ↔ x.s.vcpu.pendingIntrInfo ≠ 0)
  | _ => True

/-- With the slot occupied, a reserved vector is refused with `-EINVAL`. -/
theorem not_busyIffOccupied : ¬ ∀ (x : Session) (is : List Input), x.Fresh →
    AllSteps Session.step Session.Hardware x is →
    AllSteps Session.step Session.BusyIffOccupied x is := by
  intro h
  obtain ⟨-, hlast, -⟩ := h start [.injectIrq 0x21, .injectIrq 5] start_fresh
    ⟨trivial, trivial, trivial⟩
  have hslot : (start.step (.injectIrq 0x21)).s.vcpu.pendingIntrInfo ≠ 0 := by decide +kernel
  have hresult : ((miniVcpuInjectIrq 5).run (start.step (.injectIrq 0x21)).s).1 ≠ -ebusy := by
    rw [miniVcpuInjectIrq_run]
    decide
  exact hresult ((hlast (by decide +kernel)).2 hslot)

/-! ### KVM_RUN as a session -/

/-- The iterations of KVM_RUN for the exits given. -/
def iterations (es : List (ExitInfo × Bool)) : List Input :=
  es.flatMap fun e => [.enter, .exit e.1 e.2]

/-- The same exits as outcomes of entries. -/
def outcomes (es : List (ExitInfo × Bool)) : List EntryOutcome := es.map fun e => .exit e.1

theorem runSteps_iterations_of_idle {x : Session} (hx : x.phase = .idle)
    (es : List (ExitInfo × Bool)) : runSteps step x (iterations es) = x := by
  induction es with
  | nil => rfl
  | cons e es ih =>
    have henter : x.step .enter = x := by
      rw [step, hx]
      rfl
    have hexit : x.step (.exit e.1 e.2) = x := by rw [step, hx]
    have hcons : runSteps step x (iterations (e :: es)) =
        runSteps step ((x.step .enter).step (.exit e.1 e.2)) (iterations es) := rfl
    rw [hcons, henter, hexit, ih]

/-- What a part of KVM_RUN leaves does not depend on the session before it. -/
theorem afterPart_congr (x x' : Session) (y : Option Int × St) :
    (x.afterPart y).s = (x'.afterPart y).s ∧ (x.afterPart y).phase = (x'.afterPart y).phase := by
  obtain ⟨r, s⟩ := y
  cases r <;> exact ⟨rfl, rfl⟩

theorem step_exit {x : Session} {gs : BitVec 64} (hx : x.phase = .guest gs) (i : ExitInfo)
    (delivered : Bool) :
    let y := x.afterPart ((runLoopExit gs (.exit i)).run x.s)
    (x.step (.exit i delivered)).s = y.s ∧ (x.step (.exit i delivered)).phase = y.phase := by
  rw [step, hx]
  exact ⟨rfl, rfl⟩

/-- One iteration of a session is one of the run loop. -/
theorem step_iteration {x : Session} (hx : x.phase = .loop) (e : ExitInfo × Bool) :
    let x' := (x.step .enter).step (.exit e.1 e.2)
    let y := x.afterPart ((runLoopBody (.exit e.1)).run x.s)
    x'.s = y.s ∧ x'.phase = y.phase := by
  have henter : x.step .enter =
      { x with s := (runLoopEnter.run x.s).2, phase := .guest (runLoopEnter.run x.s).1 } := by
    rw [step, hx]
    rfl
  rw [henter, runLoopBody_run]
  generalize (runLoopEnter.run x.s).1 = gs
  generalize (runLoopEnter.run x.s).2 = s₁
  obtain ⟨hs, hphase⟩ := step_exit (x := { x with s := s₁, phase := .guest gs }) rfl e.1 e.2
  have hcongr := afterPart_congr { x with s := s₁, phase := .guest gs } x
    ((runLoopExit gs (.exit e.1)).run s₁)
  exact ⟨hs.trans hcongr.1, hphase.trans hcongr.2⟩

/-- The iterations of a session are the run loop. -/
theorem runSteps_iterations {x : Session} (hx : x.phase = .loop) (e : ExitInfo × Bool)
    (es : List (ExitInfo × Bool)) :
    let x' := runSteps step x (iterations (e :: es))
    let y := x.afterPart ((runLoop (.exit e.1) (outcomes es)).run x.s)
    x'.s = y.s ∧ x'.phase = y.phase := by
  induction es generalizing x e with
  | nil => exact step_iteration hx e
  | cons e' es ih =>
    obtain ⟨hs, hphase⟩ := step_iteration hx e
    have hcons : runSteps step x (iterations (e :: e' :: es)) =
        runSteps step ((x.step .enter).step (.exit e.1 e.2)) (iterations (e' :: es)) := rfl
    have hout : outcomes (e' :: es) = .exit e'.1 :: outcomes es := rfl
    rw [hcons, hout, runLoop, run_bind]
    generalize (x.step .enter).step (.exit e.1 e.2) = x₁ at hs hphase ⊢
    generalize (runLoopBody (.exit e.1)).run x.s = y at hs hphase ⊢
    obtain ⟨r, s₁⟩ := y
    cases r with
    | some r =>
      have hidle : x₁.phase = .idle := hphase
      rw [runSteps_iterations_of_idle hidle]
      exact ⟨hs, hphase⟩
    | none =>
      have hx₁ : x₁.phase = .loop := hphase
      have hs₁ : x₁.s = s₁ := hs
      obtain ⟨ihs, ihphase⟩ := ih hx₁ e'
      rw [hs₁] at ihs ihphase
      have hcongr := afterPart_congr x₁ x
        ((runLoop (.exit e'.1) (outcomes es)).run s₁)
      exact ⟨ihs.trans hcongr.1, ihphase.trans hcongr.2⟩

theorem miniVcpuRunLoop_run (o : RunCall) (s : St) :
    (miniVcpuRunLoop o).run s = (match ((runHead o).run s).1 with
      | some r => (do
        preemptEnable
        return some r : M (Option Int))
      | none => do
        match ← runLoop o.first o.rest with
        | some r =>
          preemptEnable
          return some r
        | none => return none).run ((runHead o).run s).2 := by
  rw [miniVcpuRunLoop, run_bind, run_bind, run_bind]
  rfl

/-- A session goes through KVM_RUN as the code does. -/
theorem runSteps_run {x : Session} (hx : x.phase = .idle) (cpu : CpuId)
    (allocs : List (Option Pfn)) (o : RunCall) (e : ExitInfo × Bool)
    (es : List (ExitInfo × Bool)) (ho : o.first = .exit e.1)
    (hos : o.rest = outcomes es) :
    let x' := runSteps step x (.run cpu allocs o :: iterations (e :: es))
    let y := (miniVcpuRunLoop o).run { x.s with cpu := cpu, allocs := allocs }
    x'.s = y.2 ∧ (x'.phase = .idle ↔ y.1.isSome) := by
  have hrun : runSteps step x (.run cpu allocs o :: iterations (e :: es)) =
      runSteps step (x.afterPart ((runHead o).run { x.s with cpu := cpu, allocs := allocs }))
        (iterations (e :: es)) := by
    rw [runSteps, step, if_pos hx]
  rw [hrun, miniVcpuRunLoop_run, ho, hos]
  generalize (runHead o).run { x.s with cpu := cpu, allocs := allocs } = y
  obtain ⟨r, s₁⟩ := y
  cases r with
  | some r =>
    -- KVM_RUN has returned before the loop
    have hidle : (x.afterPart (some r, s₁)).phase = .idle := rfl
    rw [runSteps_iterations_of_idle hidle]
    exact ⟨rfl, ⟨fun _ => rfl, fun _ => hidle⟩⟩
  | none =>
    have hloop : (x.afterPart (none, s₁)).phase = .loop := rfl
    obtain ⟨hs, hphase⟩ := runSteps_iterations hloop e es
    dsimp only
    rw [hs, hphase]
    simp only [run_bind]
    have hs₁ : (x.afterPart (none, s₁)).s = s₁ := rfl
    rw [hs₁]
    generalize (runLoop (.exit e.1) (outcomes es)).run s₁ = z
    obtain ⟨r, s₂⟩ := z
    cases r with
    | some r => exact ⟨rfl, ⟨fun _ => rfl, fun _ => rfl⟩⟩
    | none =>
      refine ⟨rfl, fun h => ?_, fun h => absurd h Bool.false_ne_true⟩
      have hphase : Phase.loop = .idle := h
      cases hphase

end Session

end MiniVirt.Kvm
