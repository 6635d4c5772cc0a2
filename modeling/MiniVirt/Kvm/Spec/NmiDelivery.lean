import MiniVirt.Kvm.Spec.Delivery

/-!
# Host NMIs that are injected again

An exit for an NMI puts the NMI into the event slot, if the slot is empty, and the next entry injects it
through the window that sets RFLAGS.IF for every event.  An NMI whose delivery an exit cuts short is not
put back.  Along every session no NMI is lost and RFLAGS is left alone exactly as long as none of this
comes into play (`nmiLaw_iff`).
-/

namespace MiniVirt.Kvm

/-! ### Sessions that count NMIs -/

/-- A true exit for an NMI that the guest does not block. -/
def ExitInfo.TakesNmi (i : ExitInfo) : Prop :=
  BasicExit.ofReason (i.reason.setWidth 64 &&& 0xffff) = .exceptionNmi ∧
    i.field .vmExitIntrInfo &&& 0x700 = 0x200 ∧ i.field .vmExitIntrInfo &&& 0xff = 2 ∧
      i.field .guestInterruptibilityInfo &&& 8 = 0

instance (i : ExitInfo) : Decidable i.TakesNmi := inferInstanceAs (Decidable (_ ∧ _ ∧ _ ∧ _))

/-- The NMIs, none or one, in an interruption information. -/
def nmis (info : BitVec 64) : Nat := if infoValid info ∧ infoType info = 2 then 1 else 0

/-- A session with the number of NMIs that exits have taken and that have reached the guest. -/
structure NmiSession where
  x : Session
  taken : Nat
  delivered : Nat

inductive NmiInput where
  | session (i : Input)
  /-- An entry that VMLAUNCH or VMRESUME refuses. -/
  | vmFail (error : BitVec 64)
  /-- An entry that fails with bit 31 of the exit reason. -/
  | entryFailure (reason : BitVec 31) (qual : BitVec 64)

namespace NmiSession

def inSlot (n : NmiSession) : Nat := nmis (n.x.s.vcpu.pendingIntrInfo.setWidth 64)

/-- The NMIs in the VM-entry field of the entry in progress. -/
def inEntry (n : NmiSession) : Nat :=
  match n.x.phase with
  | .guest _ => nmis (n.x.s.field .vmEntryIntrInfoField)
  | _ => 0

/-- The rest of the iteration when the entry fails. -/
def failEntry (n : NmiSession) (o : EntryOutcome) : NmiSession :=
  match n.x.phase with
  | .guest gsShadow => { n with x := n.x.afterPart ((runLoopExit gsShadow o).run n.x.s) }
  | _ => n

def step (n : NmiSession) : NmiInput → NmiSession
  | .session (.exit i delivered) =>
    match n.x.phase with
    | .guest _ =>
      { x := n.x.step (.exit i delivered)
        taken := if i.TakesNmi then n.taken + 1 else n.taken
        delivered := if delivered then n.delivered + n.inEntry else n.delivered }
    | _ => n
  | .session i => { n with x := n.x.step i }
  | .vmFail error => n.failEntry (.vmFail error)
  | .entryFailure reason qual => n.failEntry (.entryFailure reason qual)

/-! ### The law -/

/-- Every NMI taken is delivered, in the entry in progress or in the slot, and counted once. -/
def Lossless (n : NmiSession) : Prop := n.taken = n.delivered + n.inEntry + n.inSlot

/-- The entry that injects an NMI leaves the guest's RFLAGS alone. -/
def Transparent (n : NmiSession) : NmiInput → Prop
  | .session .enter => n.x.phase = .loop → n.inSlot = 1 →
      (runLoopEnter.run n.x.s).2.field .guestRflags = n.x.s.field .guestRflags
  | _ => True

def Law (n : NmiSession) (i : NmiInput) : Prop := (n.step i).Lossless ∧ n.Transparent i

/-! ### The condition -/

/-- An NMI is injected with a current VMCS, into a guest that has interrupts enabled, and is delivered; an
NMI is not taken while an external interrupt is to be delivered again. -/
def Keeps (n : NmiSession) : NmiInput → Prop
  | .session .enter => n.x.phase = .loop → n.inSlot = 1 →
      n.x.s.current ≠ none ∧ n.x.s.field .guestRflags &&& x86EflagsIf ≠ 0
  | .session (.exit i delivered) => ∀ gs, n.x.phase = .guest gs →
      (n.inEntry = 1 → delivered = true) ∧
        (i.TakesNmi → extVector (i.field .idtVectoringInfoField) = none)
  | .session _ => True
  | .vmFail _ => ∀ gs, n.x.phase = .guest gs → n.inEntry = 0
  | .entryFailure .. => ∀ gs, n.x.phase = .guest gs → n.inEntry = 0

/-- The hardware: a true VM exit follows an accepted entry, and reports interrupted deliveries. -/
def Hardware (n : NmiSession) : NmiInput → Prop
  | .session (.exit i delivered) => ∀ gs, n.x.phase = .guest gs →
      n.x.s.Accepts ∧
        IdtVectoring (n.x.s.field .vmEntryIntrInfoField) delivered (i.field .idtVectoringInfoField)
  | _ => True

end NmiSession

/-! ### The slot after an exit -/

theorem nmis_nmiInfo : nmis (nmiInfo.setWidth 64) = 1 := by decide

theorem nmis_zero : nmis ((0 : BitVec 32).setWidth 64) = 0 := by decide

theorem nmis_of_extVector {info : BitVec 64} {v : BitVec 8} (h : extVector info = some v) : nmis info = 0 := by
  unfold extVector at h
  split at h
  · rename_i hext
    exact if_neg fun hnmi => absurd (hext.2.symm.trans hnmi.2) (by decide)
  · cases h

theorem redelivered_eq_zero_iff {idtv : BitVec 64} : redelivered idtv = 0 ↔ extVector idtv = none := by
  constructor
  · intro h
    rw [← extVector_redelivered, h]
    decide
  · intro h
    rw [redelivered_eq, h]
    rfl

theorem nmis_redelivered (idtv : BitVec 64) : nmis ((redelivered idtv).setWidth 64) = 0 := by
  cases h : extVector ((redelivered idtv).setWidth 64) with
  | none =>
    rw [extVector_redelivered, ← redelivered_eq_zero_iff] at h
    rw [h, nmis_zero]
  | some v => exact nmis_of_extVector h

theorem handleExit_slot {x : BasicExit} (hx : x ≠ .exceptionNmi) : Within slotFrame (handleExit x) := by
  have hG := slotFrame_allowsWork
  cases x with
  | exceptionNmi => exact absurd rfl hx
  | externalInterrupt => exact hG.handleExternalInterrupt_within
  | tripleFault => exact hG.handleTripleFault_within
  | cpuid => exact hG.handleCpuid_within
  | hlt => exact hG.handleHlt_within
  | ioInstruction => exact hG.handleIoInstruction_within
  | eptViolation => exact hG.handleEptViolation_within miniEptHandleViolation_slot
  | other => exact hG.handleUnknown_within

theorem miniVcpuReinjectNmi_slot (s : St) :
    (miniVcpuReinjectNmi.run s).2.vcpu.pendingIntrInfo =
      if s.field .guestInterruptibilityInfo &&& 8 = 0 ∧ s.vcpu.pendingIntrInfo = 0 then nmiInfo
      else s.vcpu.pendingIntrInfo := by
  have hrun : miniVcpuReinjectNmi.run s =
      (if s.field .guestInterruptibilityInfo &&& 8 ≠ 0 then (return () : M Unit) else do
        if (← get).vcpu.pendingIntrInfo ≠ 0 then
          return ()
        modifyVcpu fun v => { v with pendingIntrInfo := nmiInfo }).run
          ((miniVmread .guestInterruptibilityInfo).run s).2 := rfl
  have hread : ((miniVmread .guestInterruptibilityInfo).run s).2.vcpu.pendingIntrInfo =
      s.vcpu.pendingIntrInfo := rfl
  rw [hrun, run_ite]
  generalize ((miniVmread .guestInterruptibilityInfo).run s).2 = s₁ at hread ⊢
  rw [← hread]
  by_cases hib : s.field .guestInterruptibilityInfo &&& 8 = 0
  · rw [if_neg (not_not.2 hib), run_bind, run_get]
    dsimp only
    rw [run_ite]
    by_cases hslot : s₁.vcpu.pendingIntrInfo = 0
    · rw [if_neg (not_not.2 hslot), if_pos ⟨hib, hslot⟩]
      rfl
    · rw [if_pos hslot, if_neg fun h => hslot h.2]
      rfl
  · rw [if_pos hib, if_neg fun h => hib h.1]
    rfl

/-- The state in which `mini_vcpu_reinject_nmi()` is called. -/
def St.countedNmi (s : St) : St :=
  { ((miniVmread .vmExitIntrInfo).run s).2 with vcpu := { s.vcpu with nNmiExits := s.vcpu.nNmiExits + 1 } }

theorem handleExceptionNmi_slot (s : St) :
    (handleExceptionNmi.run s).2.vcpu.pendingIntrInfo =
      if s.field .vmExitIntrInfo &&& 0x700 = 0x200 ∧ s.field .vmExitIntrInfo &&& 0xff = 2 ∧
          s.field .guestInterruptibilityInfo &&& 8 = 0 ∧ s.vcpu.pendingIntrInfo = 0 then nmiInfo
      else s.vcpu.pendingIntrInfo := by
  have hG := slotFrame_allowsWork
  have hnmi : intrTypeNmiIntr.setWidth 64 = (0x200 : BitVec 64) := by decide
  have hrun : handleExceptionNmi.run s =
      (if s.field .vmExitIntrInfo &&& 0x700 = intrTypeNmiIntr.setWidth 64 ∧
          s.field .vmExitIntrInfo &&& 0xff = 2 then do
        modifyVcpu fun v => { v with nNmiExits := v.nNmiExits + 1 }
        miniVcpuReinjectNmi
        return none
      else do
        let _ ← miniVmread .guestRip
        miniDumpVmcs
        exitInternalError (-eio) : M (Option Int)).run ((miniVmread .vmExitIntrInfo).run s).2 := rfl
  have hreinject : ((do
        modifyVcpu fun v => { v with nNmiExits := v.nNmiExits + 1 }
        miniVcpuReinjectNmi
        return none : M (Option Int)).run ((miniVmread .vmExitIntrInfo).run s).2).2 =
      (miniVcpuReinjectNmi.run s.countedNmi).2 := rfl
  have hfield : s.countedNmi.field .guestInterruptibilityInfo = s.field .guestInterruptibilityInfo := rfl
  have hslot : s.countedNmi.vcpu.pendingIntrInfo = s.vcpu.pendingIntrInfo := rfl
  have hread : ((miniVmread .vmExitIntrInfo).run s).2.vcpu.pendingIntrInfo = s.vcpu.pendingIntrInfo := rfl
  -- any other exception ends the run and leaves the slot alone
  have hdump : Within slotFrame (do
      let _ ← miniVmread .guestRip
      miniDumpVmcs
      exitInternalError (-eio) : M (Option Int)) :=
    (hG.vmread_within _).bind fun _ => hG.miniDumpVmcs_within.bind fun _ => hG.exitInternalError_within _
  rw [hrun, run_ite, hnmi]
  by_cases hinfo : s.field .vmExitIntrInfo &&& 0x700 = 0x200 ∧ s.field .vmExitIntrInfo &&& 0xff = 2
  · rw [if_pos hinfo, hreinject, miniVcpuReinjectNmi_slot, hfield, hslot]
    exact if_congr ⟨fun h => ⟨hinfo.1, hinfo.2, h⟩, fun h => h.2.2⟩ rfl rfl
  · rw [if_neg hinfo, if_neg fun h => hinfo ⟨h.1, h.2.1⟩]
    generalize ((miniVmread .vmExitIntrInfo).run s).2 = s₁ at hread ⊢
    exact Eq.trans (hdump s₁) hread

/-- The slot after a true VM exit. -/
theorem trueExit_slot_eq (s : St) (reason64 : BitVec 64) :
    ((trueExit reason64).run s).2.vcpu.pendingIntrInfo =
      if BasicExit.ofReason (reason64 &&& 0xffff) = .exceptionNmi ∧ s.field .vmExitIntrInfo &&& 0x700 = 0x200 ∧
          s.field .vmExitIntrInfo &&& 0xff = 2 ∧ s.field .guestInterruptibilityInfo &&& 8 = 0 ∧
          redelivered (s.field .idtVectoringInfoField) = 0 then nmiInfo
      else redelivered (s.field .idtVectoringInfoField) := by
  have hcomplete : (miniVcpuCompleteIntrInfo.run s).2.vcpu.pendingIntrInfo =
      redelivered (s.field .idtVectoringInfoField) := rfl
  have hfield : ∀ f, (miniVcpuCompleteIntrInfo.run s).2.field f = s.field f := fun _ => rfl
  rw [trueExit, run_bind, ← hcomplete, ← hfield .vmExitIntrInfo, ← hfield .guestInterruptibilityInfo]
  generalize (miniVcpuCompleteIntrInfo.run s).2 = s₁
  by_cases hx : BasicExit.ofReason (reason64 &&& 0xffff) = .exceptionNmi
  · rw [hx]
    refine (handleExceptionNmi_slot s₁).trans (if_congr ?_ rfl rfl)
    exact ⟨fun h => ⟨rfl, h⟩, fun h => h.2⟩
  · rw [if_neg fun h => hx h.1]
    exact handleExit_slot hx s₁

/-- The fields that the run loop finds after a true VM exit. -/
theorem vmxEnterEnd_exit_field {s : St} (h : s.Accepts) (i : ExitInfo) (f : VmcsField) :
    ((vmxEnterEnd (.exit i)).run s).2.field f = i.save s.field f := by
  obtain ⟨p, hcur, hlaunched⟩ := h
  have hrun : (vmxEnterEnd (.exit i)).run s =
      (0, { s with
        hw := s.hw.vmExit s.cpu p i
        vcpu := { s.vcpu with regs := saveGuestRegs i.regs s.vcpu.regs } }) := by
    simp [vmxEnterEnd, hcur, hlaunched, modifyHw, modifyVcpu]
    rfl
  have hcur' : ((s.hw.vmExit s.cpu p i).cpu s.cpu).current = some p := by
    simp only [Hw.vmExit, Hw.setKernelGsBase, Hw.setCpu, Hw.setVmcs, Function.update_self]
    exact hcur
  have hvmcs : ((s.hw.vmExit s.cpu p i).vmcs p).field = i.save (s.hw.vmcs p).field := by
    simp only [Hw.vmExit, Hw.setKernelGsBase, Hw.setCpu, Hw.setVmcs, Function.update_self]
  have hfield : s.field = (s.hw.vmcs p).field := funext fun g => St.field_eq hcur g
  rw [hrun, hfield]
  exact (St.field_eq (p := p) (by exact hcur') _).trans (congrFun hvmcs _)

/-- The slot after a true VM exit, by what the exit reports. -/
theorem runLoopExit_slot_eq {s : St} (h : s.Accepts) (gsShadow : BitVec 64) (i : ExitInfo) :
    ((runLoopExit gsShadow (.exit i)).run s).2.vcpu.pendingIntrInfo =
      if i.TakesNmi ∧ redelivered (i.field .idtVectoringInfoField) = 0 then nmiInfo
      else redelivered (i.field .idtVectoringInfoField) := by
  obtain ⟨hr, hreason, -⟩ := vmxEnterEnd_exit h i
  have hfield := vmxEnterEnd_exit_field h i
  rw [runLoopExit_run]
  simp only [hr, ne_eq, not_true, if_false]
  rw [afterEntry_run, examineExit_run]
  generalize ((vmxEnterEnd (.exit i)).run s).2 = s₁ at hreason hfield ⊢
  have hgs : ∀ f, ((wrmsrKernelGsBase gsShadow).run s₁).2.setLaunched.field f = s₁.field f :=
    wrmsrKernelGsBase_field s₁ gsShadow
  generalize ((wrmsrKernelGsBase gsShadow).run s₁).2.setLaunched = s₂ at hgs ⊢
  have hread : ∀ f, s₂.afterReason.field f = i.save s.field f := fun f => (hgs f).trans (hfield f)
  have hidt : s₂.afterReason.field .idtVectoringInfoField = i.field .idtVectoringInfoField := hread _
  have hinfo : s₂.afterReason.field .vmExitIntrInfo = i.field .vmExitIntrInfo := hread _
  have hib : s₂.afterReason.field .guestInterruptibilityInfo = i.field .guestInterruptibilityInfo := hread _
  rw [hgs, hreason, setWidth_and_bit31, if_neg (by simp), trueExit_slot_eq, hidt, hinfo, hib]
  refine if_congr ?_ rfl rfl
  unfold ExitInfo.TakesNmi
  rw [and_assoc, and_assoc, and_assoc]

/-- A failed entry leaves the slot alone. -/
theorem runLoopExit_slot_of_fail (gsShadow : BitVec 64) {o : EntryOutcome} (ho : ∀ i, o ≠ .exit i) (s : St) :
    ((runLoopExit gsShadow o).run s).2.vcpu.pendingIntrInfo = s.vcpu.pendingIntrInfo ∧
      ((runLoopExit gsShadow o).run s).1 ≠ none := by
  have hG := slotFrame_allowsWork
  have hend := vmxEnterEnd_end s o
  have hslot : ((vmxEnterEnd o).run s).2.vcpu.pendingIntrInfo = s.vcpu.pendingIntrInfo :=
    slotFrame_allowsCall.vmxEnterEnd_within o s
  rw [runLoopExit_run]
  dsimp only
  generalize ((vmxEnterEnd o).run s).1 = r at hend ⊢
  generalize ((vmxEnterEnd o).run s).2 = s₁ at hend hslot ⊢
  have hgs : ((wrmsrKernelGsBase gsShadow).run s₁).2.vcpu.pendingIntrInfo = s₁.vcpu.pendingIntrInfo := rfl
  have hreason := wrmsrKernelGsBase_field s₁ gsShadow .vmExitReason
  generalize ((wrmsrKernelGsBase gsShadow).run s₁).2 = s₂ at hgs hreason ⊢
  rw [← hslot, ← hgs]
  cases hend with
  | vmFail hr effect reason =>
    rw [if_pos (by rw [hr]; decide), entryVmFail_result]
    exact ⟨hG.entryVmFail_within s₂, by simp⟩
  | exit hr i hi agree effect bit31 => exact absurd hi (ho i)
  | entryFailure hr reason qual p hi hp agree effect bit31 =>
    have hbit : s₂.setLaunched.field .vmExitReason &&& 0x80000000 ≠ 0 := by
      show s₂.field .vmExitReason &&& 0x80000000 ≠ 0
      rw [hreason]
      exact bit31
    rw [if_neg (by rw [hr]; decide), afterEntry_run, examineExit_run, if_pos hbit, entryFailed_result]
    exact ⟨hG.entryFailed_within s₂.setLaunched.afterReason, by simp⟩

/-! ### The entry -/

theorem vmwriteAll_field {s : St} {p : Phys} (h : s.current = some p) {g : VmcsField}
    {l : List (VmcsField × BitVec 64)} (hl : ∀ x ∈ l, x.1 ≠ g) :
    ((vmwriteAll l).run s).2.current = some p ∧ ((vmwriteAll l).run s).2.field g = s.field g := by
  induction l generalizing s with
  | nil => exact ⟨h, rfl⟩
  | cons x l ih =>
    obtain ⟨hcur, hfield⟩ := miniVmwrite_field h x.1 x.2
    obtain ⟨hcur', hfield'⟩ := ih hcur fun y hy => hl y (List.mem_cons_of_mem x hy)
    refine ⟨hcur', hfield'.trans ((hfield g).trans (if_neg ?_))⟩
    exact (hl x List.mem_cons_self).symm

/-- The injection window sets RFLAGS.IF and clears the bits 0 and 1 of the interruptibility state. -/
theorem runLoopInject_window {s : St} {p : Phys} (h : s.current = some p) :
    (runLoopInject.run s).2.current = some p ∧
      (runLoopInject.run s).2.field .guestRflags = s.field .guestRflags ||| x86EflagsIf ∧
        (runLoopInject.run s).2.field .guestInterruptibilityInfo =
          s.field .guestInterruptibilityInfo &&& ~~~3 := by
  have hread : ∀ (f : VmcsField) (s : St), ((miniVmread f).run s).2.current = s.current ∧
      ((miniVmread f).run s).1.getD 0 = s.field f ∧ ((miniVmread f).run s).2.field = s.field :=
    fun _ _ => ⟨rfl, rfl, rfl⟩
  rw [runLoopInject, run_bind]
  obtain ⟨hcur₁, hval₁, hfield₁⟩ := hread .guestRflags s
  generalize (miniVmread .guestRflags).run s = r₁ at hcur₁ hval₁ hfield₁ ⊢
  rw [run_bind, hval₁]
  obtain ⟨hcur₂, hfield₂⟩ := miniVmwrite_field (hcur₁.trans h) .guestRflags (s.field .guestRflags ||| x86EflagsIf)
  generalize ((miniVmwrite .guestRflags (s.field .guestRflags ||| x86EflagsIf)).run r₁.2).2 = s₂
    at hcur₂ hfield₂ ⊢
  have hib₂ : s₂.field .guestInterruptibilityInfo = s.field .guestInterruptibilityInfo :=
    ((hfield₂ _).trans (if_neg (by decide))).trans (congrFun hfield₁ _)
  rw [run_bind]
  obtain ⟨hcur₃, hval₃, hfield₃⟩ := hread .guestInterruptibilityInfo s₂
  generalize (miniVmread .guestInterruptibilityInfo).run s₂ = r₃ at hcur₃ hval₃ hfield₃ ⊢
  rw [run_bind, hval₃, hib₂]
  obtain ⟨hcur₄, hfield₄⟩ := miniVmwrite_field (hcur₃.trans hcur₂) .guestInterruptibilityInfo
    (s.field .guestInterruptibilityInfo &&& ~~~3)
  generalize ((miniVmwrite .guestInterruptibilityInfo (s.field .guestInterruptibilityInfo &&& ~~~3)).run r₃.2).2 = s₄
    at hcur₄ hfield₄ ⊢
  refine ⟨hcur₄, ?_, (hfield₄ _).trans (if_pos rfl)⟩
  have h₄ := (hfield₄ .guestRflags).trans (if_neg (by decide))
  exact h₄.trans ((congrFun hfield₃ _).trans ((hfield₂ _).trans (if_pos rfl)))

/-- Entering empties the slot, with or without a current VMCS. -/
theorem runLoopEnter_slot (s : St) :
    (runLoopEnter.run s).2.vcpu.pendingIntrInfo = 0 ∧ (runLoopEnter.run s).2.current = s.current := by
  obtain ⟨l, -, he⟩ := runLoopEnter_effect s
  refine ⟨?_, he.current⟩
  have hrun : (runLoopEnter.run s).2.vcpu = (runLoopPrepare.run s).2.vcpu := rfl
  rw [hrun, runLoopPrepare_run]
  dsimp only
  refine (slotFrame_allowsWork.runLoopWrite_within _ _).trans ?_
  split
  · exact slotFrame_allowsWork.runLoopInject_within _
  · rfl

/-- RFLAGS and the interruptibility state at the entry. -/
theorem runLoopPrepare_window {s : St} {p : Phys} (h : s.current = some p) :
    (runLoopPrepare.run s).2.field .guestRflags =
        (if s.vcpu.pendingIntrInfo ≠ 0 then s.field .guestRflags ||| x86EflagsIf else s.field .guestRflags) ∧
      (runLoopPrepare.run s).2.field .guestInterruptibilityInfo =
        if s.vcpu.pendingIntrInfo ≠ 0 then s.field .guestInterruptibilityInfo &&& ~~~3
        else s.field .guestInterruptibilityInfo := by
  -- the refresh of the host state writes neither of the two fields
  have hhost : ∀ g, g = .guestRflags ∨ g = .guestInterruptibilityInfo → ∀ h : HostRegs,
      ∀ x ∈ [(VmcsField.hostCr3, h.cr3), (.hostCr4, miniHostCr4 h), (.hostGsBase, h.kernelmodeGsBase),
        (.hostFsBase, h.fsBase)], x.1 ≠ g := by
    rintro g (rfl | rfl) <;> simp
  have hcur₁ : (miniVmxRefreshHostState.run s).2.current = some p :=
    (vmwriteAll_field h (hhost _ (.inl rfl) (s.hw.cpu s.cpu).host)).1
  have hfield₁ : ∀ g, g = .guestRflags ∨ g = .guestInterruptibilityInfo →
      (miniVmxRefreshHostState.run s).2.field g = s.field g := fun g hg =>
    (vmwriteAll_field h (hhost g hg (s.hw.cpu s.cpu).host)).2
  have hslot₁ : (miniVmxRefreshHostState.run s).2.vcpu.pendingIntrInfo = s.vcpu.pendingIntrInfo :=
    slotFrame_allowsWork.miniVmxRefreshHostState_within s
  rw [runLoopPrepare_run]
  dsimp only
  generalize (miniVmxRefreshHostState.run s).2 = s₁ at hcur₁ hfield₁ hslot₁ ⊢
  rw [hslot₁, ← hfield₁ _ (.inl rfl), ← hfield₁ _ (.inr rfl)]
  -- nor do the writes after the injection
  have hwrite : ∀ g, g = .guestRflags ∨ g = .guestInterruptibilityInfo → ∀ (intr : BitVec 32) (s₂ : St),
      s₂.current = some p → ((runLoopWrite intr).run s₂).2.field g = s₂.field g := by
    intro g hg intr s₂ hcur
    have hne : g ≠ .vmEntryIntrInfoField ∧ g ≠ .hostRsp := by
      rcases hg with rfl | rfl <;> decide
    obtain ⟨hcur', hfield⟩ := miniVmwrite_field hcur .vmEntryIntrInfoField (intr.setWidth 64)
    rw [runLoopWrite, run_bind]
    generalize ((miniVmwrite .vmEntryIntrInfoField (intr.setWidth 64)).run s₂).2 = s₃ at hcur' hfield ⊢
    have hrest := (miniVmwrite_field (s := { s₃ with irqsOff := true }) hcur' .hostRsp
      (s₃.hw.cpu s₃.cpu).host.stackPointer).2 g
    rw [if_neg hne.2] at hrest
    exact hrest.trans ((hfield _).trans (if_neg hne.1))
  have htaken : s₁.taken.current = some p := hcur₁
  by_cases hslot : s.vcpu.pendingIntrInfo ≠ 0
  · obtain ⟨hcur₂, hrflags, hib⟩ := runLoopInject_window htaken
    rw [if_pos hslot, if_pos hslot, if_pos hslot]
    exact ⟨(hwrite _ (.inl rfl) _ _ hcur₂).trans hrflags, (hwrite _ (.inr rfl) _ _ hcur₂).trans hib⟩
  · rw [if_neg hslot, if_neg hslot, if_neg hslot]
    exact ⟨hwrite _ (.inl rfl) _ _ htaken, hwrite _ (.inr rfl) _ _ htaken⟩

theorem runLoopEnter_rflags {s : St} {p : Phys} (h : s.current = some p) :
    (runLoopEnter.run s).2.field .guestRflags =
      if s.vcpu.pendingIntrInfo ≠ 0 then s.field .guestRflags ||| x86EflagsIf else s.field .guestRflags :=
  (runLoopPrepare_window h).1

/-- Without a current VMCS nothing is in the VM-entry field. -/
theorem runLoopEnter_entry (s : St) :
    nmis ((runLoopEnter.run s).2.field .vmEntryIntrInfoField) =
      if s.current = none then 0 else nmis (s.vcpu.pendingIntrInfo.setWidth 64) := by
  cases hcur : s.current with
  | none =>
    have hcur' := (runLoopEnter_slot s).2.trans hcur
    rw [if_pos rfl, St.field, hcur']
    exact nmis_zero
  | some p =>
    rw [if_neg (by simp), (runLoopEnter_moves hcur).2]

theorem or_eq_self_iff_bit {b r : BitVec 64} {k : Nat} (hk : k < 64) (hb : b = BitVec.twoPow 64 k) :
    r ||| b = r ↔ r &&& b ≠ 0 := by
  have hbit : ∀ j, j < 64 → (b.getLsbD j = true ↔ j = k) := by
    intro j hj
    rw [hb, BitVec.getLsbD_twoPow]
    simp [hk, eq_comm]
  constructor
  · intro h hand
    have hset := congrArg (fun x => x.getLsbD k) h
    have hclear := congrArg (fun x => x.getLsbD k) hand
    simp [(hbit k hk).2 rfl] at hset hclear
    rw [hset] at hclear
    cases hclear
  · intro h
    apply BitVec.eq_of_getLsbD_eq
    intro j hj
    by_cases hjk : j = k
    · subst hjk
      by_contra hne
      apply h
      apply BitVec.eq_of_getLsbD_eq
      intro l hl
      by_cases hlj : l = j
      · subst hlj
        simp [(hbit l hl).2 rfl] at hne ⊢
        exact hne
      · have hclear : b.getLsbD l = false := by
          rw [Bool.eq_false_iff]
          exact fun h => hlj ((hbit l hl).1 h)
        simp [hclear]
    · have hclear : b.getLsbD j = false := by
        rw [Bool.eq_false_iff]
        exact fun h => hjk ((hbit j hj).1 h)
      simp [hclear]

theorem or_if_eq_self_iff (r : BitVec 64) : r ||| x86EflagsIf = r ↔ r &&& x86EflagsIf ≠ 0 :=
  or_eq_self_iff_bit (k := 9) (by decide) (by decide)

namespace NmiSession

variable {n : NmiSession}

/-! ### Steps -/

/-- Every NMI taken is accounted for, and the slot is empty while the guest runs. -/
structure Inv (n : NmiSession) : Prop where
  lossless : n.Lossless
  guest : ∀ gs, n.x.phase = .guest gs → n.inSlot = 0

theorem nmis_le (info : BitVec 64) : nmis info ≤ 1 := by
  unfold nmis
  split <;> omega

theorem inEntry_of_ne_guest (h : ∀ gs, n.x.phase ≠ .guest gs) : n.inEntry = 0 := by
  unfold inEntry
  split
  · rename_i gs hgs
    exact absurd hgs (h gs)
  · rfl

theorem inEntry_of_guest {gs : BitVec 64} (h : n.x.phase = .guest gs) :
    n.inEntry = nmis (n.x.s.field .vmEntryIntrInfoField) := by
  rw [inEntry, h]

/-- What a part of KVM_RUN leaves is decided by the slot. -/
theorem afterPart_session (x : Session) (y : Option Int × St) (t d : Nat) :
    let n : NmiSession := ⟨x.afterPart y, t, d⟩
    n.inEntry = 0 ∧ n.inSlot = nmis (y.2.vcpu.pendingIntrInfo.setWidth 64) ∧
      ∀ gs, n.x.phase ≠ .guest gs := by
  obtain ⟨r, s⟩ := y
  cases r with
  | none => exact ⟨rfl, rfl, fun gs => Phase.noConfusion⟩
  | some r => exact ⟨rfl, rfl, fun gs => Phase.noConfusion⟩

theorem inv_of_ne_guest (hguest : ∀ gs, n.x.phase ≠ .guest gs) (h : n.taken = n.delivered + n.inSlot) :
    n.Inv := by
  refine ⟨?_, fun gs hgs => absurd hgs (hguest gs)⟩
  rw [Lossless, inEntry_of_ne_guest hguest]
  exact h

theorem Inv.taken_of_ne_guest (h : n.Inv) (hguest : ∀ gs, n.x.phase ≠ .guest gs) :
    n.taken = n.delivered + n.inSlot := by
  have hlossless := h.lossless
  rw [Lossless, inEntry_of_ne_guest hguest] at hlossless
  exact hlossless

theorem Inv.taken_of_guest (h : n.Inv) {gs : BitVec 64} (hgs : n.x.phase = .guest gs) :
    n.taken = n.delivered + n.inEntry := by
  have hlossless := h.lossless
  rw [Lossless, h.guest gs hgs] at hlossless
  exact hlossless

theorem Inv.injectIrq (h : n.Inv) (vector : Int) : (n.step (.session (.injectIrq vector))).Inv := by
  show Inv { n with x := n.x.step (.injectIrq vector) }
  rw [Session.step]
  split
  · rename_i hphase
    have hguest : ∀ gs, n.x.phase ≠ .guest gs := fun gs hgs => by cases hphase.symm.trans hgs
    have hslot : nmis (((miniVcpuInjectIrq vector).run n.x.s).2.vcpu.pendingIntrInfo.setWidth 64) = n.inSlot := by
      unfold inSlot
      rw [miniVcpuInjectIrq_run]
      by_cases hvec : 32 ≤ vector ∧ vector ≤ 255
      · by_cases hslot : n.x.s.vcpu.pendingIntrInfo = 0
        · rw [if_pos hvec, if_neg (not_not.2 hslot), hslot, nmis_zero]
          exact nmis_of_extVector (extVector_queued _ hvec)
        · rw [if_pos hvec, if_pos hslot]
      · rw [if_neg hvec]
    exact inv_of_ne_guest hguest ((h.taken_of_ne_guest hguest).trans (congrArg (n.delivered + ·) hslot.symm))
  · exact h

theorem Inv.run (h : n.Inv) (cpu : CpuId) (allocs : List (Option Pfn)) (o : RunCall) :
    (n.step (.session (.run cpu allocs o))).Inv := by
  show Inv { n with x := n.x.step (.run cpu allocs o) }
  rw [Session.step]
  split
  · rename_i hphase
    have htaken := h.taken_of_ne_guest fun gs hgs => by cases hphase.symm.trans hgs
    have hslot : nmis (((Session.runHead o).run
        { n.x.s with cpu := cpu, allocs := allocs }).2.vcpu.pendingIntrInfo.setWidth 64) = n.inSlot := by
      rw [inSlot]
      exact congrArg (fun slot : BitVec 32 => nmis (slot.setWidth 64)) (runHead_slot o _)
    generalize (Session.runHead o).run { n.x.s with cpu := cpu, allocs := allocs } = y at hslot ⊢
    obtain ⟨-, hslot', hguest⟩ := afterPart_session n.x y n.taken n.delivered
    refine inv_of_ne_guest hguest ?_
    rw [hslot', hslot]
    exact htaken
  · exact h

/-- An NMI in the slot reaches the entry if there is a current VMCS, and leaves RFLAGS alone if the guest
has interrupts enabled. -/
theorem law_enter_iff (h : n.Inv) : n.Law (.session .enter) ↔ n.Keeps (.session .enter) := by
  unfold Law Transparent Keeps
  show Lossless { n with x := n.x.step .enter } ∧ _ ↔ _
  rw [Session.step]
  by_cases hphase : n.x.phase = .loop
  · have htaken := h.taken_of_ne_guest fun gs hgs => by cases hphase.symm.trans hgs
    have hle : n.inSlot ≤ 1 := nmis_le _
    rw [if_pos hphase, Lossless]
    unfold inEntry
    -- the entry field takes over what was in the slot
    have hslot' : nmis ((runLoopEnter.run n.x.s).2.vcpu.pendingIntrInfo.setWidth 64) = 0 := by
      rw [(runLoopEnter_slot n.x.s).1, nmis_zero]
    show (n.taken = n.delivered + nmis ((runLoopEnter.run n.x.s).2.field .vmEntryIntrInfoField) +
      nmis ((runLoopEnter.run n.x.s).2.vcpu.pendingIntrInfo.setWidth 64)) ∧ _ ↔ _
    rw [hslot', runLoopEnter_entry, htaken]
    cases hcur : n.x.s.current with
    -- no VMCS is current, so the write of the entry field is lost
    | none =>
      rw [if_pos rfl]
      constructor
      · intro hlaw _ hone
        have hlost := hlaw.1
        omega
      · intro hkeeps
        have hzero : n.inSlot = 0 := by
          by_contra hne
          exact (hkeeps hphase (by omega)).1 rfl
        exact ⟨by omega, fun _ hone => by omega⟩
    | some p =>
      rw [if_neg (by simp), runLoopEnter_rflags hcur]
      have hfull : n.inSlot = 1 → n.x.s.vcpu.pendingIntrInfo ≠ 0 := by
        intro hone hzero
        rw [inSlot, hzero, nmis_zero] at hone
        cases hone
      constructor
      · intro hlaw hloop hone
        have hrflags := hlaw.2 hloop hone
        rw [if_pos (hfull hone), or_if_eq_self_iff] at hrflags
        exact ⟨by simp, hrflags⟩
      · intro hkeeps
        refine ⟨rfl, fun hloop hone => ?_⟩
        rw [if_pos (hfull hone), or_if_eq_self_iff]
        exact (hkeeps hloop hone).2
  · rw [if_neg hphase]
    exact ⟨fun _ hloop => absurd hloop hphase, fun _ => ⟨h.lossless, fun hloop => absurd hloop hphase⟩⟩

theorem enter_inv (h : n.Inv) (hlaw : n.Law (.session .enter)) : (n.step (.session .enter)).Inv := by
  refine ⟨hlaw.1, ?_⟩
  show ∀ gs, (n.x.step .enter).phase = .guest gs → nmis ((n.x.step .enter).s.vcpu.pendingIntrInfo.setWidth 64) = 0
  rw [Session.step]
  split
  · intro gs _
    dsimp only
    rw [(runLoopEnter_slot n.x.s).1, nmis_zero]
  · exact h.guest

theorem count_exit_iff {taken before entry : Nat} {T N : Prop} [Decidable T] [Decidable N]
    (h : taken = before + entry) (hle : entry ≤ 1) (delivered : Bool) :
    (if T then taken + 1 else taken) =
        (if delivered then before + entry else before) + 0 + (if T ∧ N then 1 else 0) ↔
      (entry = 1 → delivered = true) ∧ (T → N) := by
  by_cases hT : T
  · by_cases hN : N
    · cases delivered with
      | true => simp [hT, hN, h]
      | false =>
        simp [hT, hN, h]
        omega
    · cases delivered with
      | true => simp [hT, hN, h]
      | false =>
        simp [hT, hN, h]
        omega
  · cases delivered with
    | true => simp [hT, h]
    | false =>
      simp [hT, h]
      omega

/-- After a true VM exit the NMIs taken are those delivered and the one in the slot. -/
theorem law_exit_iff (h : n.Inv) {i : ExitInfo} {delivered : Bool}
    (hw : n.Hardware (.session (.exit i delivered))) :
    n.Law (.session (.exit i delivered)) ↔ n.Keeps (.session (.exit i delivered)) := by
  show Lossless (n.step _) ∧ True ↔ ∀ gs, n.x.phase = .guest gs → (n.inEntry = 1 → delivered = true) ∧
    (i.TakesNmi → extVector (i.field .idtVectoringInfoField) = none)
  rw [and_true, step]
  split
  · rename_i gs hphase
    obtain ⟨haccepts, -⟩ := hw gs hphase
    have htaken := h.taken_of_guest hphase
    have hle : n.inEntry ≤ 1 := by
      rw [inEntry_of_guest hphase]
      exact nmis_le _
    have hslot := runLoopExit_slot_eq haccepts gs i
    have hstep : n.x.step (.exit i delivered) =
        { n.x.afterPart ((runLoopExit gs (.exit i)).run n.x.s) with
          delivered := if delivered then n.x.delivered ++ n.x.inEntry.toList else n.x.delivered } := by
      rw [Session.step, hphase]
    rw [hstep]
    generalize (runLoopExit gs (.exit i)).run n.x.s = y at hslot ⊢
    -- the slot holds an NMI if one was taken and nothing is to be delivered again
    have hnmis : nmis (y.2.vcpu.pendingIntrInfo.setWidth 64) =
        if i.TakesNmi ∧ extVector (i.field .idtVectoringInfoField) = none then 1 else 0 := by
      rw [hslot]
      by_cases hnmi : i.TakesNmi ∧ redelivered (i.field .idtVectoringInfoField) = 0
      · rw [if_pos hnmi, if_pos ⟨hnmi.1, redelivered_eq_zero_iff.1 hnmi.2⟩, nmis_nmiInfo]
      · rw [if_neg hnmi, nmis_redelivered, if_neg fun h => hnmi ⟨h.1, redelivered_eq_zero_iff.2 h.2⟩]
    obtain ⟨hentry', hslot', -⟩ := afterPart_session n.x y n.taken n.delivered
    have hlaw : Lossless
        { x := { n.x.afterPart y with
            delivered := if delivered then n.x.delivered ++ n.x.inEntry.toList else n.x.delivered }
          taken := if i.TakesNmi then n.taken + 1 else n.taken
          delivered := if delivered then n.delivered + n.inEntry else n.delivered } ↔
        (if i.TakesNmi then n.taken + 1 else n.taken) =
          (if delivered then n.delivered + n.inEntry else n.delivered) + 0 +
            if i.TakesNmi ∧ extVector (i.field .idtVectoringInfoField) = none then 1 else 0 := by
      rw [← hnmis, ← hslot', ← hentry']
      exact Iff.rfl
    rw [hlaw]
    have hkeeps : (∀ gs', n.x.phase = .guest gs' → (n.inEntry = 1 → delivered = true) ∧
        (i.TakesNmi → extVector (i.field .idtVectoringInfoField) = none)) ↔
        (n.inEntry = 1 → delivered = true) ∧
          (i.TakesNmi → extVector (i.field .idtVectoringInfoField) = none) :=
      ⟨fun h => h gs hphase, fun h _ _ => h⟩
    rw [hkeeps]
    exact count_exit_iff htaken hle delivered
  · rename_i hguest
    exact ⟨fun _ gs hgs => absurd hgs (hguest gs), fun _ => h.lossless⟩

theorem exit_inv (h : n.Inv) {i : ExitInfo} {delivered : Bool}
    (hlaw : n.Law (.session (.exit i delivered))) : (n.step (.session (.exit i delivered))).Inv := by
  refine ⟨hlaw.1, ?_⟩
  show ∀ gs, (n.step (.session (.exit i delivered))).x.phase = .guest gs → _
  rw [step]
  split
  · rename_i gs hphase
    have hstep : (n.x.step (.exit i delivered)).phase =
        (n.x.afterPart ((runLoopExit gs (.exit i)).run n.x.s)).phase := by
      rw [Session.step, hphase]
    intro gs' hgs'
    have hphase' := hstep.symm.trans hgs'
    exact absurd hphase' ((afterPart_session n.x _ n.taken n.delivered).2.2 gs')
  · exact h.guest

/-- A failed entry loses the NMI that it was to inject. -/
theorem failEntry_iff (h : n.Inv) {o : EntryOutcome} (ho : ∀ i, o ≠ .exit i) :
    (n.failEntry o).Lossless ↔ ∀ gs, n.x.phase = .guest gs → n.inEntry = 0 := by
  unfold failEntry
  split
  · rename_i gs hphase
    have htaken := h.taken_of_guest hphase
    obtain ⟨hslot, -⟩ := runLoopExit_slot_of_fail gs ho n.x.s
    have hzero : nmis (((runLoopExit gs o).run n.x.s).2.vcpu.pendingIntrInfo.setWidth 64) = 0 := by
      rw [hslot]
      exact h.guest gs hphase
    generalize (runLoopExit gs o).run n.x.s = y at hzero ⊢
    obtain ⟨hentry', hslot', -⟩ := afterPart_session n.x y n.taken n.delivered
    rw [Lossless, hentry', hslot', hzero]
    constructor
    · intro hlossless _ _
      dsimp only at hlossless
      omega
    · intro hempty
      have := hempty gs hphase
      dsimp only
      omega
  · rename_i hguest
    exact ⟨fun _ gs hgs => absurd hgs (hguest gs), fun _ => h.lossless⟩

theorem failEntry_guest (h : n.Inv) (o : EntryOutcome) :
    ∀ gs, (n.failEntry o).x.phase = .guest gs → (n.failEntry o).inSlot = 0 := by
  unfold failEntry
  split
  · rename_i gs hphase
    intro gs' hgs'
    exact absurd hgs' ((afterPart_session n.x _ n.taken n.delivered).2.2 gs')
  · exact h.guest

/-- One step loses no NMI and leaves RFLAGS alone if and only if the condition holds. -/
theorem law_iff (h : n.Inv) {i : NmiInput} (hw : n.Hardware i) : n.Law i ↔ n.Keeps i := by
  cases i with
  | session i =>
    cases i with
    | injectIrq vector => exact ⟨fun _ => trivial, fun _ => ⟨(h.injectIrq vector).lossless, trivial⟩⟩
    | run cpu allocs o => exact ⟨fun _ => trivial, fun _ => ⟨(h.run cpu allocs o).lossless, trivial⟩⟩
    | enter => exact law_enter_iff h
    | exit i delivered => exact law_exit_iff h hw
  | vmFail error => exact (and_iff_left trivial).trans (failEntry_iff h fun i => EntryOutcome.noConfusion)
  | entryFailure reason qual =>
    exact (and_iff_left trivial).trans (failEntry_iff h fun i => EntryOutcome.noConfusion)

theorem law_inv (h : n.Inv) {i : NmiInput} (hlaw : n.Law i) : (n.step i).Inv := by
  cases i with
  | session i =>
    cases i with
    | injectIrq vector => exact h.injectIrq vector
    | run cpu allocs o => exact h.run cpu allocs o
    | enter => exact enter_inv h hlaw
    | exit i delivered => exact exit_inv h hlaw
  | vmFail error => exact ⟨hlaw.1, failEntry_guest h _⟩
  | entryFailure reason qual => exact ⟨hlaw.1, failEntry_guest h _⟩

/-! ### Sessions -/

/-- A vCPU that has just been created. -/
structure Fresh (n : NmiSession) : Prop where
  session : n.x.Fresh
  taken : n.taken = 0
  delivered : n.delivered = 0

theorem Fresh.inv (h : n.Fresh) : n.Inv := by
  have hslot : n.inSlot = 0 := by
    rw [inSlot, h.session.slot, nmis_zero]
  refine inv_of_ne_guest (fun gs hgs => ?_) ?_
  · cases h.session.phase.symm.trans hgs
  · rw [h.taken, h.delivered, hslot]

/-- Along every session of a new vCPU each NMI taken is delivered exactly once, with RFLAGS left alone, if
and only if every step meets the condition. -/
theorem nmiLaw_iff {is : List NmiInput} (h : n.Fresh) (henv : AllSteps step Hardware n is) :
    AllSteps step Law n is ↔ AllSteps step Keeps n is :=
  allSteps_iff (fun _ _ hn hw hkeeps => law_inv hn ((law_iff hn hw).2 hkeeps))
    (fun _ _ hn hw => law_iff hn hw) h.inv henv

/-- A vCPU after its setup. -/
def start : NmiSession := ⟨Session.start, 0, 0⟩

theorem start_fresh : start.Fresh := ⟨Session.start_fresh, rfl, rfl⟩

/-- An NMI that arrives while the guest has interrupts enabled. -/
def nmiExit : ExitInfo where
  reason := 0
  field
    | .vmExitIntrInfo => 0x80000202
    | .guestRflags => 0x202
    | _ => 0
  regs _ := 0
  kernelGsBase := 0

/-- An EPT violation in the middle of the delivery of an NMI. -/
def violationExit : ExitInfo where
  reason := 48
  field
    | .idtVectoringInfoField => 0x80000202
    | .guestRflags => 0x202
    | _ => 0
  regs _ := 0
  kernelGsBase := 0

/-- An NMI that is injected again and delivered. -/
theorem nmiLaw_iff_start :
    let is : List NmiInput := [.session (.run 0 [] World.haltRun), .session .enter,
      .session (.exit nmiExit false), .session .enter, .session (.exit Session.haltExit true)]
    AllSteps step Law start is ↔ AllSteps step Keeps start is := by
  refine nmiLaw_iff start_fresh ⟨trivial, trivial, fun _ _ => ⟨⟨0x1000, ?_, ?_⟩, ?_, ?_⟩, trivial,
    fun _ _ => ⟨⟨0x1000, ?_, ?_⟩, ?_, ?_⟩, trivial⟩
  all_goals decide +kernel

/-- KVM_RUN up to the entry that injects the NMI. -/
def injectingNmi : List NmiInput := [.session (.run 0 [] World.haltRun), .session .enter,
  .session (.exit nmiExit false), .session .enter]

/-- An NMI whose delivery an EPT violation cuts short is lost. -/
theorem not_nmiLaw : ¬ ∀ (n : NmiSession) (is : List NmiInput), n.Fresh → AllSteps step Hardware n is →
    AllSteps step Law n is := by
  intro h
  have henv : AllSteps step Hardware start (injectingNmi ++ [.session (.exit violationExit false)]) := by
    refine ⟨trivial, trivial, fun _ _ => ⟨⟨0x1000, ?_, ?_⟩, ?_, ?_⟩, trivial,
      fun _ _ => ⟨⟨0x1000, ?_, ?_⟩, ?_, ?_⟩, trivial⟩
    all_goals decide +kernel
  obtain ⟨hlossless, -⟩ := (allSteps_append.1 (h start _ start_fresh henv)).2.1
  have hlost : ¬ ((runSteps step start injectingNmi).step (.session (.exit violationExit false))).Lossless := by
    unfold Lossless
    decide +kernel
  exact hlost hlossless

end NmiSession

end MiniVirt.Kvm
