import MiniVirt.Kvm.Spec.Iterations
import MiniVirt.Kvm.Spec.NmiDelivery

/-!
# Events and failed entries

The event slot is emptied before the entry and filled again after true VM exits only.  So an entry that fails
takes the event with it: KVM_RUN returns `-EIO` with an empty slot (`event_lost`), and nothing is left for the next
KVM_RUN to inject.
-/

namespace MiniVirt.Kvm

/-- `mini_vmx_enter()` fails: VMLAUNCH or VMRESUME does, or the exit reason has bit 31 set. -/
def Iteration.Fails (x : Iteration) : Prop := ¬ (x.entry.Accepts ∧ ∃ i, x.outcome = .exit i)

/-- After KVM_RUN has returned in `s`, `event` is in the slot and will be injected by the next entry. -/
structure KeepsEvent (event : BitVec 32) (s : St) : Prop where
  slot : s.vcpu.pendingIntrInfo = event
  busy : ∀ vector : Int, 32 ≤ vector ∧ vector ≤ 255 → ((miniVcpuInjectIrq vector).run s).1 = -ebusy
  next : ∀ (o : RunCall) (x : Iteration) (xs : List Iteration) (p : Phys), o.iterations s = x :: xs →
    x.entry.current = some p → x.entry.field .vmEntryIntrInfoField = event.setWidth 64

/-- After a failed entry the iteration leaves the loop and the slot alone. -/
theorem runLoopExit_of_fails (gsShadow : BitVec 64) {o : EntryOutcome} {s : St}
    (h : ¬ (s.Accepts ∧ ∃ i, o = .exit i)) :
    ((runLoopExit gsShadow o).run s).1 = some (-eio) ∧
      ((runLoopExit gsShadow o).run s).2.vcpu.pendingIntrInfo = s.vcpu.pendingIntrInfo := by
  have hG := slotFrame_allowsWork
  have hend := vmxEnterEnd_end s o
  have hslot : ((vmxEnterEnd o).run s).2.vcpu.pendingIntrInfo = s.vcpu.pendingIntrInfo :=
    slotFrame_allowsCall.vmxEnterEnd_within o s
  rw [runLoopExit_run]
  dsimp only
  generalize ((vmxEnterEnd o).run s).1 = r at hend ⊢
  generalize ((vmxEnterEnd o).run s).2 = s₁ at hend hslot ⊢
  have hgs : ((wrmsrKernelGsBase gsShadow).run s₁).2.vcpu.pendingIntrInfo = s₁.vcpu.pendingIntrInfo := rfl
  have hreason := wrmsrKernelGsBase_field s₁ gsShadow .vmExitReason
  generalize ((wrmsrKernelGsBase gsShadow).run s₁).2 = s₂ at hgs hreason ⊢
  rw [← hslot, ← hgs]
  cases hend with
  | vmFail hr effect reason =>
    rw [if_pos (by rw [hr]; decide), entryVmFail_result]
    exact ⟨rfl, hG.entryVmFail_within s₂⟩
  | exit hr i hi agree effect bit31 =>
    refine absurd ⟨?_, i, hi⟩ h
    unfold Vmx.currentLaunched at agree
    obtain ⟨p, hp, hlaunched⟩ := Option.map_eq_some_iff.1 agree
    exact ⟨p, hp, hlaunched⟩
  | entryFailure hr reason qual p hi hp agree effect bit31 =>
    have hbit : s₂.setLaunched.field .vmExitReason &&& 0x80000000 ≠ 0 := by
      show s₂.field .vmExitReason &&& 0x80000000 ≠ 0
      rw [hreason]
      exact bit31
    rw [if_neg (by rw [hr]; decide), afterEntry_run, examineExit_run, if_pos hbit, entryFailed_result]
    exact ⟨rfl, hG.entryFailed_within s₂.setLaunched.afterReason⟩

/-- An iteration whose entry fails leaves the slot empty, whatever was in it. -/
theorem Iteration.exec_of_fails {x : Iteration} (h : x.Fails) :
    x.exec.1 = some (-eio) ∧ x.exec.2.vcpu.pendingIntrInfo = 0 := by
  have hentry : (runLoopEnter.run x.start).2.Accepts ↔ x.entry.Accepts := Iff.rfl
  have hfails : ¬ ((runLoopEnter.run x.start).2.Accepts ∧ ∃ i, x.outcome = .exit i) := by
    rw [hentry]
    exact h
  unfold Iteration.exec
  rw [runLoopBody_run]
  obtain ⟨hr, hslot⟩ := runLoopExit_of_fails (runLoopEnter.run x.start).1 hfails
  exact ⟨hr, hslot.trans (runLoopEnter_slot x.start).1⟩

/-- A KVM_RUN whose entry fails with an event pending returns without it. -/
theorem event_lost {o : RunCall} {s : St} {x : Iteration} (hx : x ∈ o.iterations s) (hfails : x.Fails)
    (hpending : x.start.vcpu.pendingIntrInfo ≠ 0) :
    ((miniVcpuRunLoop o).run s).1 = some (-eio) ∧ ((miniVcpuRunLoop o).run s).2.vcpu.pendingIntrInfo = 0 ∧
      ¬ KeepsEvent x.start.vcpu.pendingIntrInfo ((miniVcpuRunLoop o).run s).2 := by
  obtain ⟨hr, hslot⟩ := Iteration.exec_of_fails hfails
  rw [miniVcpuRunLoop_of_some hx hr]
  refine ⟨rfl, hslot, fun h => hpending ?_⟩
  exact h.slot.symm.trans hslot

/-! ### An injected interrupt and an invalid guest state -/

/-- KVM_RUN whose entry finds an invalid guest state. -/
def failingRun : RunCall := { World.haltRun with first := .entryFailure 33 0 }

/-- A vCPU after its setup and one request. -/
def requested : St := ((miniVcpuInjectIrq 0x21).run Session.start.s).2

/-- The only iteration of that KVM_RUN. -/
def failedIteration : Iteration := ⟨((Session.runHead failingRun).run requested).2, .entryFailure 33 0⟩

theorem failedIteration_mem : failedIteration ∈ failingRun.iterations requested := by
  have hgoes : ((Session.runHead failingRun).run requested).1 = none := by decide +kernel
  unfold RunCall.iterations failedIteration
  generalize (Session.runHead failingRun).run requested = y at hgoes ⊢
  obtain ⟨r, s⟩ := y
  obtain rfl := hgoes
  exact List.mem_singleton_self _

theorem failedIteration_fails : failedIteration.Fails := by
  rintro ⟨-, i, hi⟩
  cases hi

theorem event_lost_requested :
    ((miniVcpuRunLoop failingRun).run requested).1 = some (-eio) ∧
      ((miniVcpuRunLoop failingRun).run requested).2.vcpu.pendingIntrInfo = 0 ∧
        ¬ KeepsEvent failedIteration.start.vcpu.pendingIntrInfo ((miniVcpuRunLoop failingRun).run requested).2 := by
  exact event_lost failedIteration_mem failedIteration_fails (by decide +kernel)

theorem not_keepsEvent : ¬ ∀ (o : RunCall) (s : St), ∀ x ∈ o.iterations s, x.Fails →
    x.start.vcpu.pendingIntrInfo ≠ 0 →
      KeepsEvent x.start.vcpu.pendingIntrInfo ((miniVcpuRunLoop o).run s).2 := by
  intro h
  have hslot :=
    (h failingRun requested failedIteration failedIteration_mem failedIteration_fails (by decide +kernel)).slot
  revert hslot
  decide +kernel

end MiniVirt.Kvm
