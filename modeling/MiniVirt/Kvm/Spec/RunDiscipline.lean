import MiniVirt.Kvm.Spec.Iterations

/-!
# Interrupts and preemption in KVM_RUN

The run loop turns interrupts off before every entry and on again where it is left, in each branch by itself, and
keeps preemption off throughout.  `runDiscipline` says so for every KVM_RUN that starts with interrupts on, together
with the exit reason that each result comes with.
-/

namespace MiniVirt.Kvm

/-! ### The law -/

/-- From `s` to `t` every call of `mini_vmcs_clear()` is made with interrupts on. -/
def ClearsWithIrqs (s t : St) : Prop :=
  ∃ l, t.vmcsClears = s.vmcsClears ++ l ∧ ∀ irqsOff ∈ l, irqsOff = false

/-- What KVM_RUN may return with. -/
def ExitAgrees (r : Int) (reason : KvmExit) : Prop :=
  (r = 0 → reason = .hlt ∨ reason = .shutdown) ∧ (r ≠ 0 → reason = .internalError)

/-- The discipline of a KVM_RUN from `s`. -/
structure RunDiscipline (o : RunCall) (s : St) : Prop where
  /-- Entries are made with interrupts and preemption off. -/
  entries : ∀ x ∈ o.iterations s, x.entry.irqsOff = true ∧ 0 < x.entry.preemptCount
  /-- The VMCS is cleared with interrupts on. -/
  clears : ClearsWithIrqs s ((miniVcpuRunLoop o).run s).2
  returns : ∀ r s', (miniVcpuRunLoop o).run s = (some r, s') →
    s'.irqsOff = false ∧ s'.preemptCount = s.preemptCount ∧ ExitAgrees r s'.exitReason

/-! ### Interrupts and the preemption count -/

/-- The preemption count is as before, and `mini_vmcs_clear()` is not called. -/
def preemptFrame : Guarantee St where
  rel s s' := s'.preemptCount = s.preemptCount ∧ s'.vmcsClears = s.vmcsClears
  refl _ := ⟨rfl, rfl⟩
  trans h₁ h₂ := ⟨h₂.1.trans h₁.1, h₂.2.trans h₁.2⟩

theorem modify_preemptFrame {g : St → St}
    (h : ∀ s, (g s).preemptCount = s.preemptCount ∧ (g s).vmcsClears = s.vmcsClears) :
    Within preemptFrame (modify g : M Unit) := h

theorem preemptFrame_allowsWork : AllowsWork preemptFrame where
  vmread_within _ _ := ⟨rfl, rfl⟩
  vmwrite_within f v _ s := by
    rw [miniVmwrite_run]
    exact ⟨rfl, rfl⟩
  modify_within _ h s := ⟨(h s).preempt, (h s).clears⟩

theorem vmxEnterEnd_preemptFrame (o : EntryOutcome) : Within preemptFrame (vmxEnterEnd o) := by
  refine Within.get.bind fun s => ?_
  split
  · exact .pure _
  · have hset : ∀ f, Within preemptFrame (modifyHw f) := fun f => modify_preemptFrame fun _ => by exact ⟨rfl, rfl⟩
    refine .ite ((hset _).bind fun _ => .pure _) ?_
    split
    · exact (hset _).bind fun _ => .pure _
    · exact (hset _).bind fun _ => (modify_preemptFrame fun _ => by exact ⟨rfl, rfl⟩).bind fun _ => .pure _
    · exact (hset _).bind fun _ => (modify_preemptFrame fun _ => by exact ⟨rfl, rfl⟩).bind fun _ => .pure _

theorem preemptFrame_allowsLoop : AllowsLoop preemptFrame where
  work := preemptFrame_allowsWork
  recordEntry_within _ := ⟨rfl, rfl⟩
  vmxEnterEnd_within := vmxEnterEnd_preemptFrame
  wrmsrKernelGsBase_within _ _ := ⟨rfl, rfl⟩
  modifyLaunched_within _ := ⟨rfl, rfl⟩
  modifyPending_within _ _ := ⟨rfl, rfl⟩
  miniEptHandleViolation_within s := by
    unfold miniEptHandleViolation
    rw [run_bind, run_bind, run_get]
    dsimp only
    rw [run_bind, run_ite]
    split
    · exact ⟨rfl, rfl⟩
    · exact ⟨rfl, rfl⟩

/-! ### Leaving the loop -/

/-- A part of the loop that leaves it does so with interrupts on and the exit reason that fits. -/
def LeavesWell : Option Int → St → Prop
  | none, _ => True
  | some r, s => s.irqsOff = false ∧ ExitAgrees r s.exitReason

theorem exitInternalError_leaves {r : Int} (hr : r ≠ 0) : Ends LeavesWell (exitInternalError r) :=
  ⟨fun _ => ⟨rfl, fun h => absurd h hr, fun _ => rfl⟩⟩

theorem eio_ne_zero : -eio ≠ 0 := by decide

theorem handleExceptionNmi_leaves : Ends LeavesWell handleExceptionNmi :=
  .bind fun _ => .ite (.bind fun _ => .bind fun _ => .pure fun _ => trivial)
    (.bind fun _ => .bind fun _ => exitInternalError_leaves eio_ne_zero)

theorem handleIoInstruction_leaves : Ends LeavesWell handleIoInstruction := by
  refine .bind fun _ => .bind fun r => .bind fun _ => ?_
  by_cases hr : r ≠ 0
  · rw [if_pos hr]
    exact exitInternalError_leaves hr
  · rw [if_neg hr]
    exact .pure fun _ => trivial

theorem handleEptViolation_leaves : Ends LeavesWell handleEptViolation := by
  refine .bind fun r => ?_
  by_cases hr : r ≠ 0
  · rw [if_pos hr]
    exact .bind fun _ => exitInternalError_leaves hr
  · rw [if_neg hr]
    exact .pure fun _ => trivial

theorem handleHlt_leaves : Ends LeavesWell handleHlt :=
  .bind fun _ => ⟨fun _ => ⟨rfl, fun _ => .inl rfl, fun h => absurd rfl h⟩⟩

theorem handleTripleFault_leaves : Ends LeavesWell handleTripleFault :=
  .bind fun _ => ⟨fun _ => ⟨rfl, fun _ => .inr rfl, fun h => absurd rfl h⟩⟩

theorem handleExit_leaves : ∀ x, Ends LeavesWell (handleExit x)
  | .exceptionNmi => handleExceptionNmi_leaves
  | .externalInterrupt => .bind fun _ => .bind fun _ => .bind fun _ => .pure fun _ => trivial
  | .tripleFault => handleTripleFault_leaves
  | .cpuid => .bind fun _ => .bind fun _ => .bind fun _ => .bind fun _ => .pure fun _ => trivial
  | .hlt => handleHlt_leaves
  | .ioInstruction => handleIoInstruction_leaves
  | .eptViolation => handleEptViolation_leaves
  | .other => .bind fun _ => exitInternalError_leaves eio_ne_zero

theorem runLoopBody_leaves (o : EntryOutcome) : Ends LeavesWell (runLoopBody o) := by
  have hvmFail : Ends LeavesWell entryVmFail :=
    .bind fun _ => .bind fun _ => exitInternalError_leaves eio_ne_zero
  have hfailed : Ends LeavesWell entryFailed :=
    .bind fun _ => .bind fun _ => exitInternalError_leaves eio_ne_zero
  have hexamine : Ends LeavesWell examineExit :=
    .bind fun _ => .bind fun _ => .ite hfailed (.bind fun _ => handleExit_leaves _)
  exact .bind fun _ => .bind fun _ => .bind fun _ => .ite hvmFail (.bind fun _ => hexamine)

/-! ### The entry -/

theorem runLoopWrite_irqsOff (intr : BitVec 32) : Ends (fun _ s => s.irqsOff = true) (runLoopWrite intr) := by
  refine .bind fun _ => ⟨fun s => ?_⟩
  have hhostRsp := miniVmwrite_run (localIrqDisable.run s).2 .hostRsp (s.hw.cpu s.cpu).host.stackPointer
  show ((miniVmwrite .hostRsp (s.hw.cpu s.cpu).host.stackPointer).run (localIrqDisable.run s).2).2.irqsOff = true
  rw [hhostRsp]
  rfl

theorem runLoopPrepare_irqsOff : Ends (fun _ s => s.irqsOff = true) runLoopPrepare :=
  .bind fun _ => .bind fun _ => .ite (.bind fun _ => runLoopWrite_irqsOff _) (runLoopWrite_irqsOff _)

theorem Iteration.entry_preemptCount (x : Iteration) : x.entry.preemptCount = x.start.preemptCount :=
  (preemptFrame_allowsLoop.runLoopEnter_within x.start).1

/-! ### KVM_RUN -/

/-- Interrupts, preemption and the calls of `mini_vmcs_clear()` are as before. -/
def irqFrame : Guarantee St where
  rel s s' := s'.irqsOff = s.irqsOff ∧ preemptFrame.rel s s'
  refl s := ⟨rfl, preemptFrame.refl s⟩
  trans h₁ h₂ := ⟨h₂.1.trans h₁.1, preemptFrame.trans h₁.2 h₂.2⟩

/-- `mini_vmcs_clear()` turns preemption off for the VMCLEAR only. -/
theorem miniVmcsClear_irqFrame (s : St) (ok : Bool) :
    irqFrame.rel (recordClear.run s).2 ((miniVmcsClear ok).run s).2 := by
  have hon : ∀ c p, Within irqFrame (vmclearOn c p ok) := fun c p s => by
    cases ok <;> exact ⟨rfl, rfl, rfl⟩
  have hat : ∀ c p, Within irqFrame (vmclearAt c p ok) := fun c p =>
    Within.get.bind fun _ => .ite (Within.get.bind fun _ => hon _ p)
      (Within.get.bind fun _ => .ite ((cpuInVmxOperation_within c).bind fun _ => .ite (hon c p) (.pure _)) (.pure _))
  have hvcpu : ∀ f, Within irqFrame (modifyVcpu f) := fun f s => ⟨rfl, rfl, rfl⟩
  unfold miniVmcsClear
  rw [run_bind]
  refine ((hvcpu _).bind fun _ => Within.get.bind fun s => ?_) (recordClear.run s).2
  cases s.vcpu.loadedCpu with
  | none => exact .pure ()
  | some d =>
    intro s₁
    obtain ⟨hirqs, hcount, hclears⟩ := hat d s.vcpu.vmcsPhys (preemptDisable.run s₁).2
    refine ⟨hirqs, ?_, hclears⟩
    show ((vmclearAt d s.vcpu.vmcsPhys ok).run (preemptDisable.run s₁).2).2.preemptCount - 1 = s₁.preemptCount
    rw [hcount]
    rfl

theorem miniVmptrld_irqFrame (p : Phys) (ok : Bool) : Within irqFrame (miniVmptrld p ok) := by
  intro s
  cases ok <;> exact ⟨rfl, rfl, rfl⟩

/-- What holds from the first part of a KVM_RUN from `s` to `preempt_enable()`. -/
def InRun (s t : St) : Prop := t.preemptCount = s.preemptCount + 1 ∧ ClearsWithIrqs s t

/-- The state `t` in which KVM_RUN is left with the result `r`, before `preempt_enable()`. -/
def LeavesRun (s : St) (r : Int) (t : St) : Prop := (t.irqsOff = false ∧ ExitAgrees r t.exitReason) ∧ InRun s t

theorem InRun.of_preemptFrame {s t t' : St} (h : InRun s t) (ht : preemptFrame.rel t t') : InRun s t' := by
  obtain ⟨hcount, l, hclears, hl⟩ := h
  exact ⟨ht.1.trans hcount, l, ht.2.trans hclears, hl⟩

theorem runLoopMigrate_post (o : RunCall) {s t : St} (ht : InRun s t) (hirqs : t.irqsOff = false) :
    PartPost (InRun s) (LeavesRun s) ((runLoopMigrate o).run t).1 ((runLoopMigrate o).run t).2 := by
  -- interrupts are on where `mini_vmcs_clear()` records them
  have hrecord : InRun s (recordClear.run t).2 := by
    obtain ⟨hcount, l, hclears, hl⟩ := ht
    refine ⟨hcount, l ++ [t.irqsOff], ?_, fun irqsOff hmem => ?_⟩
    · show t.vmcsClears ++ [t.irqsOff] = _
      rw [hclears, List.append_assoc]
    · rcases List.mem_append.1 hmem with h | h
      · exact hl irqsOff h
      · exact (List.mem_singleton.1 h).trans hirqs
  obtain ⟨hoff, hframe⟩ := miniVmcsClear_irqFrame t o.clearOk
  have hclear := hrecord.of_preemptFrame hframe
  unfold runLoopMigrate
  rw [run_bind, run_bind, run_bind, run_get]
  generalize ((miniVmcsClear o.clearOk).run t).2 = t₁ at hoff hclear ⊢
  obtain ⟨hoff', hframe'⟩ := miniVmptrld_irqFrame t₁.vcpu.vmcsPhys o.ptrldOk t₁
  have hptrld := hclear.of_preemptFrame hframe'
  dsimp only
  generalize (miniVmptrld t₁.vcpu.vmcsPhys o.ptrldOk).run t₁ = y at hoff' hptrld ⊢
  obtain ⟨r, t₂⟩ := y
  dsimp only at hoff' hptrld ⊢
  rw [run_ite]
  split
  · exact ⟨⟨hoff'.trans (hoff.trans hirqs), fun h => absurd h eio_ne_zero, fun _ => rfl⟩, hptrld⟩
  · have hattach : Within preemptFrame (runLoopAttach o.inveptOk) :=
      (preemptFrame_allowsWork.miniEptInveptGlobal_within _).bind fun _ => (modify_preemptFrame fun _ => by exact ⟨rfl, rfl⟩).bind fun _ =>
        preemptFrame_allowsWork.miniVmxFixupHostForCpu_within
    exact hptrld.of_preemptFrame (hattach t₂)

/-- KVM_RUN up to the loop: preemption is off, and an error leaves interrupts on. -/
theorem runHead_post (o : RunCall) {s : St} (hs : s.irqsOff = false) :
    PartPost (InRun s) (LeavesRun s) ((Session.runHead o).run s).1 ((Session.runHead o).run s).2 := by
  let s₀ : St := { s with exitReason := .unknown, preemptCount := s.preemptCount + 1 }
  have hrun : (Session.runHead o).run s = (runLoopLoad o).run s₀ := rfl
  have hs₀ : InRun s s₀ := ⟨rfl, [], (List.append_nil _).symm, fun _ h => absurd h List.not_mem_nil⟩
  rw [hrun, runLoopLoad_run]
  split
  · exact ⟨⟨hs, fun h => absurd h (by decide), fun _ => rfl⟩, hs₀⟩
  split
  · exact runLoopMigrate_post o hs₀ hs
  · exact hs₀

theorem runDiscipline (o : RunCall) (s : St) (hs : s.irqsOff = false) : RunDiscipline o s := by
  have hbody : ∀ x : Iteration, InRun s x.start → True → PartPost (InRun s) (LeavesRun s) x.exec.1 x.exec.2 := by
    intro x hx _
    have hrun := hx.of_preemptFrame (preemptFrame_allowsLoop.runLoopBody_within x.outcome x.start)
    have hleaves := (runLoopBody_leaves x.outcome).of_run x.start
    unfold Iteration.exec
    generalize (runLoopBody x.outcome).run x.start = y at hrun hleaves ⊢
    obtain ⟨r, t⟩ := y
    cases r with
    | none => exact hrun
    | some r => exact ⟨hleaves, hrun⟩
  obtain ⟨hstarts, hend⟩ := miniVcpuRunLoop_post (runHead_post o hs) hbody fun _ _ => trivial
  constructor
  · -- entries, with interrupts and preemption off
    intro x hx
    refine ⟨runLoopPrepare_irqsOff.of_run x.start, ?_⟩
    rw [x.entry_preemptCount, (hstarts x hx).1]
    exact Nat.succ_pos _
  · -- executions of `mini_vmcs_clear()`
    generalize (miniVcpuRunLoop o).run s = y at hend ⊢
    obtain ⟨r, s'⟩ := y
    cases r with
    | none => exact hend.2
    | some r =>
      obtain ⟨t, ⟨-, hrun⟩, rfl⟩ := hend
      exact hrun.2
  · -- what the call returns
    intro r s' hr
    rw [hr] at hend
    obtain ⟨t, ⟨⟨hirqs, hexit⟩, hcount, -⟩, rfl⟩ := hend
    refine ⟨hirqs, ?_, hexit⟩
    show t.preemptCount - 1 = s.preemptCount
    rw [hcount]
    rfl

/-- A KVM_RUN with an external interrupt, then an OUT to the serial port, then HLT. -/
def threeExits : RunCall :=
  let exit (reason : BitVec 31) (qual : BitVec 64) : EntryOutcome :=
    .exit ⟨reason, fun f => if f = .exitQualification then qual else 0, fun _ => 0x41, 0⟩
  { World.haltRun with first := exit 1 0, rest := [exit 30 0x3f80000, exit 12 0] }

/-- A vCPU that has run on CPU 0 is about to run on CPU 1. -/
def migrating : St := { ((miniVcpuRunLoop World.haltRun).run Session.start.s).2 with cpu := 1 }

theorem runDiscipline_migrating :
    RunDiscipline threeExits migrating ∧ (threeExits.iterations migrating).length = 3 ∧
      ((miniVcpuRunLoop threeExits).run migrating).2.vmcsClears = migrating.vmcsClears ++ [false] := by
  refine ⟨runDiscipline threeExits migrating ?_, ?_, ?_⟩
  all_goals decide +kernel

end MiniVirt.Kvm
