import MiniVirt.Kvm.Spec.Delivery

/-!
# The iterations of KVM_RUN

`RunCall.iterations` are the iterations that a KVM_RUN makes, each with the state in which it starts and the
outcome of its entry; they are exactly the executions of `mini_vmx_enter()` (`enters_miniVcpuRunLoop`).  An invariant of
the head of the loop holds at the start of each of them (`miniVcpuRunLoop_post`).
-/

namespace MiniVirt.Kvm

/-- An iteration of the run loop. -/
structure Iteration where
  start : St
  outcome : EntryOutcome

namespace Iteration

variable (x : Iteration)

/-- The state in which VMLAUNCH or VMRESUME is executed. -/
def entry : St := (runLoopPrepare.run x.start).2

def exec : Option Int × St := (runLoopBody x.outcome).run x.start

/-- The record of the entry. -/
def enter : Event :=
  .enter x.entry.cpu x.entry.current x.entry.vcpu.vmcsPhys x.entry.vcpu.launched
    (x.entry.current.map fun p => (x.entry.hw.vmcs p).launched)

end Iteration

/-- The iterations of `runLoop o os` from the state `s`. -/
def loopIterations (o : EntryOutcome) : List EntryOutcome → St → List Iteration
  | [], s => [⟨s, o⟩]
  | o' :: os, s => ⟨s, o⟩ ::
    match (runLoopBody o).run s with
    | (none, s') => loopIterations o' os s'
    | (some _, _) => []

/-- The iterations of a KVM_RUN from the state `s`. -/
def RunCall.iterations (o : RunCall) (s : St) : List Iteration :=
  match (Session.runHead o).run s with
  | (none, s') => loopIterations o.first o.rest s'
  | (some _, _) => []

/-! ### Invariants -/

/-- What holds after a part of KVM_RUN: `I` if it goes on, `Q` if it is left. -/
def PartPost (I : St → Prop) (Q : Int → St → Prop) : Option Int → St → Prop
  | none => I
  | some r => Q r

section Invariants

variable {I : St → Prop} {Q : Int → St → Prop} {P : Iteration → Prop}

/-- An invariant of the head of the loop, when every iteration has the property `P`. -/
theorem runLoop_post (hbody : ∀ x : Iteration, I x.start → P x → PartPost I Q x.exec.1 x.exec.2)
    {o : EntryOutcome} {os : List EntryOutcome} {s : St} (hs : I s) (hP : ∀ x ∈ loopIterations o os s, P x) :
    (∀ x ∈ loopIterations o os s, I x.start) ∧
      PartPost I Q ((runLoop o os).run s).1 ((runLoop o os).run s).2 := by
  induction os generalizing o s with
  | nil =>
    refine ⟨fun x hx => ?_, hbody ⟨s, o⟩ hs (hP _ List.mem_cons_self)⟩
    obtain rfl := List.mem_singleton.1 hx
    exact hs
  | cons o' os ih =>
    have hfirst := hbody ⟨s, o⟩ hs (hP _ List.mem_cons_self)
    unfold Iteration.exec at hfirst
    unfold loopIterations at hP ⊢
    rw [runLoop, run_bind]
    generalize (runLoopBody o).run s = y at hfirst hP ⊢
    obtain ⟨r, s'⟩ := y
    cases r with
    | some r =>
      refine ⟨fun x hx => ?_, hfirst⟩
      obtain rfl := List.mem_singleton.1 hx
      exact hs
    | none =>
      obtain ⟨hstarts, hend⟩ := ih hfirst fun x hx => hP x (List.mem_cons_of_mem _ hx)
      refine ⟨fun x hx => ?_, hend⟩
      rcases List.mem_cons.1 hx with rfl | hx
      · exact hs
      · exact hstarts x hx

/-- The same for a whole KVM_RUN; a result comes with the state before `preempt_enable()`. -/
theorem miniVcpuRunLoop_post {o : RunCall} {s : St}
    (hhead : PartPost I Q ((Session.runHead o).run s).1 ((Session.runHead o).run s).2)
    (hbody : ∀ x : Iteration, I x.start → P x → PartPost I Q x.exec.1 x.exec.2)
    (hP : ∀ x ∈ o.iterations s, P x) :
    (∀ x ∈ o.iterations s, I x.start) ∧
      PartPost I (fun r s' => ∃ t, Q r t ∧ s' = (preemptEnable.run t).2)
        ((miniVcpuRunLoop o).run s).1 ((miniVcpuRunLoop o).run s).2 := by
  rw [Session.miniVcpuRunLoop_run]
  unfold RunCall.iterations at hP ⊢
  generalize (Session.runHead o).run s = y at hhead hP ⊢
  obtain ⟨r, s₁⟩ := y
  cases r with
  | some r => exact ⟨fun x hx => absurd hx List.not_mem_nil, s₁, hhead, rfl⟩
  | none =>
    obtain ⟨hstarts, hend⟩ := runLoop_post hbody hhead hP
    refine ⟨hstarts, ?_⟩
    dsimp only
    rw [run_bind]
    generalize (runLoop o.first o.rest).run s₁ = z at hend ⊢
    obtain ⟨r, s₂⟩ := z
    cases r with
    | some r => exact ⟨s₂, hend, rfl⟩
    | none => exact hend

end Invariants

/-- The last iteration decides how KVM_RUN ends. -/
theorem runLoop_of_some {o : EntryOutcome} {os : List EntryOutcome} {s : St} {x : Iteration} {r : Int}
    (hx : x ∈ loopIterations o os s) (hr : x.exec.1 = some r) : (runLoop o os).run s = x.exec := by
  induction os generalizing o s with
  | nil =>
    obtain rfl := List.mem_singleton.1 hx
    rfl
  | cons o' os ih =>
    unfold loopIterations at hx
    rw [runLoop, run_bind]
    rcases List.mem_cons.1 hx with rfl | hx
    · unfold Iteration.exec at hr ⊢
      generalize (runLoopBody o).run s = y at hr ⊢
      obtain ⟨r', s'⟩ := y
      obtain rfl := hr
      rfl
    · generalize (runLoopBody o).run s = y at hx ⊢
      obtain ⟨r', s'⟩ := y
      cases r' with
      | some r' => exact absurd hx List.not_mem_nil
      | none => exact ih hx

theorem miniVcpuRunLoop_of_some {o : RunCall} {s : St} {x : Iteration} {r : Int} (hx : x ∈ o.iterations s)
    (hr : x.exec.1 = some r) : (miniVcpuRunLoop o).run s = (some r, (preemptEnable.run x.exec.2).2) := by
  rw [Session.miniVcpuRunLoop_run]
  unfold RunCall.iterations at hx
  generalize (Session.runHead o).run s = y at hx ⊢
  obtain ⟨r', s₁⟩ := y
  cases r' with
  | some r' => exact absurd hx List.not_mem_nil
  | none =>
    have hloop := runLoop_of_some hx hr
    dsimp only
    rw [run_bind, hloop]
    generalize x.exec = z at hr ⊢
    obtain ⟨r', s₂⟩ := z
    obtain rfl := hr
    rfl

/-! ### The executions of `mini_vmx_enter()` -/

def Event.isEnter : Event → Bool
  | .enter .. => true
  | _ => false

/-- The entries in a trace. -/
def enters (l : List Event) : List Event := l.filter Event.isEnter

/-- No entry is made. -/
def enterFrame : Guarantee St where
  rel s s' := enters s'.trace = enters s.trace
  refl _ := rfl
  trans h₁ h₂ := h₂.trans h₁

theorem emit_enterFrame {e : Event} (he : e.isEnter = false) : Within enterFrame (emit e) := by
  intro s
  show enters (s.trace ++ [e]) = enters s.trace
  simp [enters, he]

theorem modify_enterFrame {g : St → St} (h : ∀ s, (g s).trace = s.trace) : Within enterFrame (modify g : M Unit) :=
  fun s => congrArg enters (h s)

theorem enterFrame_allowsWork : AllowsWork enterFrame where
  vmread_within _ := Within.get.bind fun _ => (emit_enterFrame rfl).bind fun _ => .pure _
  vmwrite_within f v _ := Within.get.bind fun s => (emit_enterFrame rfl).bind fun _ => by
    cases s.current with
    | none => exact .pure _
    | some p => exact (modify_enterFrame fun _ => by rfl).bind fun _ => .pure _
  modify_within _ h := modify_enterFrame fun s => (h s).trace

theorem vmclearOn_enterFrame (c : CpuId) (p : Phys) (ok : Bool) : Within enterFrame (vmclearOn c p ok) :=
  .ite ((modify_enterFrame fun _ => by rfl).bind fun _ => (emit_enterFrame rfl).bind fun _ => .pure _) (.pure _)

theorem miniVmcsClear_enterFrame (ok : Bool) : Within enterFrame (miniVmcsClear ok) := by
  have hsmp : ∀ c p, Within enterFrame (smpVmclear c p ok) := fun c p =>
    Within.get.bind fun _ => .ite
      ((cpuInVmxOperation_within c).bind fun _ => .ite (vmclearOn_enterFrame c p ok) (.pure _)) (.pure _)
  have hat : ∀ c p, Within enterFrame (vmclearAt c p ok) := fun c p =>
    Within.get.bind fun _ => .ite (Within.get.bind fun _ => vmclearOn_enterFrame _ p ok) (hsmp c p)
  refine (modify_enterFrame fun _ => by rfl).bind fun _ => (modify_enterFrame fun _ => by rfl).bind fun _ =>
    Within.get.bind fun s => ?_
  cases s.vcpu.loadedCpu with
  | none => exact .pure ()
  | some d =>
    exact (modify_enterFrame fun _ => by rfl).bind fun _ => (hat d _).bind fun _ =>
      (modify_enterFrame fun _ => by rfl).bind
      fun _ => modify_enterFrame fun _ => by rfl

theorem runHead_enterFrame (o : RunCall) : Within enterFrame (Session.runHead o) := by
  have hG := enterFrame_allowsWork
  have hptrld : ∀ p ok, Within enterFrame (miniVmptrld p ok) := fun p ok =>
    .ite (Within.get.bind fun _ => (modify_enterFrame fun _ => by rfl).bind fun _ => (emit_enterFrame rfl).bind
      fun _ => .pure _) (.pure _)
  have hattach : Within enterFrame (runLoopAttach o.inveptOk) :=
    (hG.miniEptInveptGlobal_within _).bind fun _ => (modify_enterFrame fun _ => by rfl).bind fun _ =>
      hG.miniVmxFixupHostForCpu_within
  have hmigrate : Within enterFrame (runLoopMigrate o) :=
    (miniVmcsClear_enterFrame _).bind fun _ => Within.get.bind fun _ => (hptrld _ _).bind fun _ =>
      .ite ((hG.setExitReason_within _).bind fun _ => .pure _) (hattach.bind fun _ => .pure _)
  refine (hG.setExitReason_within _).bind fun _ => (modify_enterFrame fun _ => by rfl).bind fun _ =>
    Within.get.bind fun _ => (cpuInVmxOperation_within _).bind fun _ => ?_
  exact .ite ((hG.setExitReason_within _).bind fun _ => .pure _) (.ite hmigrate (.pure _))

theorem runLoopPrepare_enterFrame : Within enterFrame runLoopPrepare := by
  have hG := enterFrame_allowsWork
  have htake : Within enterFrame miniVcpuTakeIntrInfo :=
    Within.get.bind fun _ => (modify_enterFrame fun _ => by rfl).bind fun _ => .pure _
  exact hG.miniVmxRefreshHostState_within.bind fun _ => htake.bind fun _ =>
    .ite (hG.runLoopInject_within.bind fun _ => hG.runLoopWrite_within _) (hG.runLoopWrite_within _)

theorem vmxEnterEnd_enterFrame (o : EntryOutcome) : Within enterFrame (vmxEnterEnd o) := by
  refine Within.get.bind fun s => ?_
  split
  · exact .pure _
  · have herror : ∀ f, Within enterFrame (modifyHw f) := fun f => modify_enterFrame fun _ => by rfl
    refine .ite ((herror _).bind fun _ => .pure _) ?_
    split
    · exact (herror _).bind fun _ => .pure _
    · exact (herror _).bind fun _ => (emit_enterFrame rfl).bind fun _ => .pure _
    · exact (herror _).bind fun _ => (modify_enterFrame fun _ => by rfl).bind fun _ => .pure _

theorem enterFrame_allowsExit : AllowsExit enterFrame where
  handlers := enterFrame_allowsWork.toAllowsHandlers
  wrmsrKernelGsBase_within _ := modify_enterFrame fun _ => by rfl
  modifyLaunched_within := modify_enterFrame fun _ => by rfl
  modifyPending_within _ := modify_enterFrame fun _ => by rfl
  miniEptHandleViolation_within :=
    miniEptHandleViolation_within_of enterFrame_allowsWork.vmread_within fun _ h =>
      modify_enterFrame fun s => (h s).2.2.2.2

theorem runLoopExit_enterFrame (gsShadow : BitVec 64) (o : EntryOutcome) :
    Within enterFrame (runLoopExit gsShadow o) :=
  (vmxEnterEnd_enterFrame o).bind fun r => enterFrame_allowsExit.runLoopLeave_within gsShadow r

theorem enters_exec (x : Iteration) : enters x.exec.2.trace = enters x.start.trace ++ [x.enter] := by
  unfold Iteration.exec
  rw [runLoopBody_run]
  have hexit := runLoopExit_enterFrame (runLoopEnter.run x.start).1 x.outcome (runLoopEnter.run x.start).2
  have hprepare : enters x.entry.trace = enters x.start.trace := runLoopPrepare_enterFrame x.start
  have hrecord : (runLoopEnter.run x.start).2.trace = x.entry.trace ++ [x.enter] := rfl
  refine hexit.trans ?_
  rw [hrecord, ← hprepare, enters, List.filter_append]
  rfl

theorem enters_runLoop (o : EntryOutcome) (os : List EntryOutcome) (s : St) :
    enters ((runLoop o os).run s).2.trace = enters s.trace ++ (loopIterations o os s).map Iteration.enter := by
  induction os generalizing o s with
  | nil => exact enters_exec ⟨s, o⟩
  | cons o' os ih =>
    have hfirst := enters_exec ⟨s, o⟩
    unfold Iteration.exec at hfirst
    unfold loopIterations
    rw [runLoop, run_bind]
    generalize (runLoopBody o).run s = y at hfirst ⊢
    obtain ⟨r, s'⟩ := y
    cases r with
    | some r => exact hfirst
    | none =>
      refine (ih o' s').trans ?_
      rw [hfirst, List.append_assoc]
      rfl

/-- `mini_vmx_enter()` is executed once in every iteration and nowhere else. -/
theorem enters_miniVcpuRunLoop (o : RunCall) (s : St) :
    enters ((miniVcpuRunLoop o).run s).2.trace = enters s.trace ++ (o.iterations s).map Iteration.enter := by
  have hhead := runHead_enterFrame o s
  rw [Session.miniVcpuRunLoop_run]
  unfold RunCall.iterations
  generalize (Session.runHead o).run s = y at hhead ⊢
  obtain ⟨r, s₁⟩ := y
  cases r with
  | some r => exact hhead.trans (List.append_nil _).symm
  | none =>
    have hloop := enters_runLoop o.first o.rest s₁
    rw [show enters s₁.trace = enters s.trace from hhead] at hloop
    dsimp only
    rw [run_bind]
    generalize (runLoop o.first o.rest).run s₁ = z at hloop ⊢
    obtain ⟨r, s₂⟩ := z
    cases r <;> exact hloop

end MiniVirt.Kvm
