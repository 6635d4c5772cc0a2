import MiniVirt.Kvm.Spec.Frames

/-!
# VMCLEAR, VMPTRLD and the entries on the VMX state

What the code does to the VMX state, step by step, as equations on `Vmx` and `VcpuVmx`:
`mini_vmcs_clear()` is `Vmx.unload`, one iteration of the run loop is `runLoopBody_step`.
-/

namespace MiniVirt.Kvm

theorem St.current_eq_vmx (s : St) : s.current = s.hw.vmx.current s.cpu := rfl

namespace Vmx

/-- VMPTRLD of the VMCS `p` on the CPU `c`. -/
def vmptrld (x : Vmx) (c : CpuId) (p : Phys) : Vmx :=
  { x with
    current := Function.update x.current c (some p)
    active := Function.update x.active c (Function.update (x.active c) p true) }

/-- VMCLEAR of the VMCS `p` on the CPU `c`. -/
def vmclear (x : Vmx) (c : CpuId) (p : Phys) : Vmx :=
  { x with
    current := Function.update x.current c (if x.current c = some p then none else x.current c)
    active := Function.update x.active c (Function.update (x.active c) p false)
    launched := Function.update x.launched p false }

/-- A VMCLEAR on the CPU `d` for code that runs on `c` is executed: at once or by an IPI. -/
def reaches (x : Vmx) (c d : CpuId) : Bool := d == c || x.online d && x.vmxonDone d

/-- The events of `mini_vmcs_clear()` for the vCPU `w` on the CPU `c`. -/
def unloadEvents (x : Vmx) (c : CpuId) (w : VcpuVmx) (ok : Bool) : List Event :=
  match w.loadedCpu with
  | none => []
  | some d => if ok && x.reaches c d then [.vmclear d w.vmcsPhys] else []

/-- The machine after `mini_vmcs_clear()` for the vCPU `w` on the CPU `c`. -/
def unload (x : Vmx) (c : CpuId) (w : VcpuVmx) (ok : Bool) : Vmx :=
  match w.loadedCpu with
  | none => x
  | some d => if ok && x.reaches c d then x.vmclear d w.vmcsPhys else x

/-- The launch state of the VMCS that is current on `c`. -/
def currentLaunched (x : Vmx) (c : CpuId) : Option Bool := (x.current c).map x.launched

/-- The VMCS that is current on `c` becomes launched. -/
def launch (x : Vmx) (c : CpuId) : Vmx :=
  match x.current c with
  | none => x
  | some p => { x with launched := Function.update x.launched p true }

end Vmx

/-- The vCPU after `mini_vmcs_clear()`. -/
def VcpuVmx.unload (w : VcpuVmx) : VcpuVmx := { w with launched := false, loadedCpu := none }

theorem Hw.vmx_vmptrld (hw : Hw) (c : CpuId) (p : Phys) :
    (hw.vmptrld c p).vmx = hw.vmx.vmptrld c p := by
  simp only [Hw.vmx, Hw.vmptrld, Hw.setCpu, Vmx.vmptrld, Vmx.mk.injEq, and_true]
  refine ⟨?_, ?_, ?_, ?_⟩ <;> funext d <;> by_cases hd : d = c
  all_goals simp [hd, Function.update_of_ne]

theorem Hw.vmx_vmclear (hw : Hw) (c : CpuId) (p : Phys) :
    (hw.vmclear c p).vmx = hw.vmx.vmclear c p := by
  simp only [Hw.vmx, Hw.vmclear, Hw.setVmcs, Hw.setCpu, Vmx.vmclear, Vmx.mk.injEq]
  refine ⟨?_, ?_, ?_, ?_, ?_⟩ <;> funext d
  · by_cases hd : d = c <;> simp [hd, Function.update_of_ne]
  · by_cases hd : d = c <;> simp [hd, Function.update_of_ne]
  · by_cases hd : d = c
    · rw [hd, Function.update_self, Function.update_self]
      by_cases hp : (hw.cpu c).current = some p <;> simp [hp]
    · rw [Function.update_of_ne hd, Function.update_of_ne hd]
  · by_cases hd : d = c <;> simp [hd, Function.update_of_ne]
  · by_cases hd : d = p <;> simp [hd, Function.update_of_ne]

@[simp]
theorem Hw.vmx_setKernelGsBase (hw : Hw) (c : CpuId) (v : BitVec 64) :
    (hw.setKernelGsBase c v).vmx = hw.vmx := by
  simp only [Hw.vmx, Hw.setKernelGsBase, Hw.setCpu, Vmx.mk.injEq, and_true]
  refine ⟨?_, ?_, ?_, ?_⟩ <;> funext d <;> by_cases hd : d = c
  all_goals simp [hd, Function.update_of_ne]

/-! ### `vmx.c` -/

theorem miniVmptrld_effect (s : St) (p : Phys) (ok : Bool) :
    ((miniVmptrld p ok).run s).1 = (if ok then 0 else -eio) ∧
      Effect s ((miniVmptrld p ok).run s).2
        (if ok then s.hw.vmx.vmptrld s.cpu p else s.hw.vmx) s.vcpu.vmx
        (if ok then [.vmptrld s.cpu p] else []) := by
  cases ok with
  | false => exact ⟨rfl, rfl, rfl, rfl, (List.append_nil _).symm⟩
  | true => exact ⟨rfl, rfl, Hw.vmx_vmptrld s.hw s.cpu p, rfl, rfl⟩

theorem vmclearOn_effect (s : St) (d : CpuId) (p : Phys) (ok : Bool) :
    ((vmclearOn d p ok).run s).1 = (if ok then 0 else -eio) ∧
      Effect s ((vmclearOn d p ok).run s).2
        (if ok then s.hw.vmx.vmclear d p else s.hw.vmx) s.vcpu.vmx
        (if ok then [.vmclear d p] else []) := by
  cases ok with
  | false => exact ⟨rfl, rfl, rfl, rfl, (List.append_nil _).symm⟩
  | true => exact ⟨rfl, rfl, Hw.vmx_vmclear s.hw d p, rfl, rfl⟩

theorem smpVmclear_effect (s : St) (d : CpuId) (p : Phys) (ok : Bool) :
    let cleared := ok && (s.hw.vmx.online d && s.hw.vmx.vmxonDone d)
    Effect s ((smpVmclear d p ok).run s).2
      (if cleared then s.hw.vmx.vmclear d p else s.hw.vmx) s.vcpu.vmx
      (if cleared then [.vmclear d p] else []) := by
  have hskip : Effect s s s.hw.vmx s.vcpu.vmx [] := ⟨rfl, rfl, rfl, (List.append_nil _).symm⟩
  have hon : s.hw.vmx.online d = (s.hw.cpu d).online := rfl
  have hvmx : s.hw.vmx.vmxonDone d = (s.hw.cpu d).vmxonDone := rfl
  rw [hon, hvmx]
  by_cases ho : (s.hw.cpu d).online = true
  · by_cases hv : (s.hw.cpu d).vmxonDone = true
    · have hrun : (smpVmclear d p ok).run s = (vmclearOn d p ok).run s := by
        simp [smpVmclear, miniVmclearIpi, cpuInVmxOperation, ho, hv]
      rw [hrun, ho, hv, Bool.and_true, Bool.and_true]
      exact (vmclearOn_effect s d p ok).2
    · have hrun : ((smpVmclear d p ok).run s).2 = s := by
        simp [smpVmclear, miniVmclearIpi, cpuInVmxOperation, ho, hv]
        rfl
      rw [hrun, Bool.eq_false_iff.2 hv, Bool.and_false, Bool.and_false]
      exact hskip
  · have hrun : ((smpVmclear d p ok).run s).2 = s := by
      simp [smpVmclear, ho]
      rfl
    rw [hrun, Bool.eq_false_iff.2 ho, Bool.false_and, Bool.and_false]
    exact hskip

theorem vmclearAt_effect (s : St) (d : CpuId) (p : Phys) (ok : Bool) :
    let cleared := ok && s.hw.vmx.reaches s.cpu d
    Effect s ((vmclearAt d p ok).run s).2
      (if cleared then s.hw.vmx.vmclear d p else s.hw.vmx) s.vcpu.vmx
      (if cleared then [.vmclear d p] else []) := by
  by_cases hd : d = s.cpu
  · have hreach : s.hw.vmx.reaches s.cpu d = true := by simp [Vmx.reaches, hd]
    have hrun : (vmclearAt d p ok).run s = (vmclearOn s.cpu p ok).run s := by
      simp [vmclearAt, hd]
      rfl
    rw [hrun, hreach, Bool.and_true, hd]
    exact (vmclearOn_effect s s.cpu p ok).2
  · have hreach : s.hw.vmx.reaches s.cpu d = (s.hw.vmx.online d && s.hw.vmx.vmxonDone d) := by
      simp [Vmx.reaches, hd]
    have hrun : (vmclearAt d p ok).run s = (smpVmclear d p ok).run s := by
      simp [vmclearAt, hd]
    rw [hrun, hreach]
    exact smpVmclear_effect s d p ok

/-- The state in which `mini_vmcs_clear()` executes the VMCLEAR. -/
def St.beforeClear (s : St) : St :=
  { s with
    vcpu := { s.vcpu with launched := false }
    preemptCount := s.preemptCount + 1
    vmcsClears := s.vmcsClears ++ [s.irqsOff] }

theorem miniVmcsClear_run_some {s : St} {d : CpuId} (ok : Bool) (hl : s.vcpu.loadedCpu = some d) :
    ((miniVmcsClear ok).run s).2 =
      let s₂ := ((vmclearAt d s.vcpu.vmcsPhys ok).run s.beforeClear).2
      { s₂ with
        preemptCount := s₂.preemptCount - 1
        vcpu := { s₂.vcpu with loadedCpu := none } } := by
  rcases s with ⟨_, _, _, ⟨_, _, _, _, _, _, _, _, _, _, _, _, _⟩, _, _, _, _, _, _, _, _⟩
  subst hl
  rfl

/-- `mini_vmcs_clear()` on the VMX state. -/
theorem miniVmcsClear_effect (s : St) (ok : Bool) :
    Effect s ((miniVmcsClear ok).run s).2 (s.hw.vmx.unload s.cpu s.vcpu.vmx ok) s.vcpu.vmx.unload
      (s.hw.vmx.unloadEvents s.cpu s.vcpu.vmx ok) := by
  cases hl : s.vcpu.loadedCpu with
  | none =>
    have hw : s.vcpu.vmx.loadedCpu = none := hl
    have hrun : ((miniVmcsClear ok).run s).2 =
        { s with vcpu := { s.vcpu with launched := false }, vmcsClears := s.vmcsClears ++ [s.irqsOff] } := by
      simp [miniVmcsClear, recordClear, modifyVcpu, hl]
      rfl
    rw [hrun, Vmx.unload, Vmx.unloadEvents, hw]
    refine ⟨rfl, rfl, ?_, (List.append_nil _).symm⟩
    rw [VcpuVmx.unload, ← hw]
    rfl
  | some d =>
    have hw : s.vcpu.vmx.loadedCpu = some d := hl
    have hclear := vmclearAt_effect s.beforeClear d s.vcpu.vmcsPhys ok
    rw [miniVmcsClear_run_some ok hl, Vmx.unload, Vmx.unloadEvents, hw]
    generalize ((vmclearAt d s.vcpu.vmcsPhys ok).run s.beforeClear).2 = s₂ at hclear ⊢
    have hvcpu : ({ s₂.vcpu with loadedCpu := none } : MiniKvmVcpu).vmx =
        { s₂.vcpu.vmx with loadedCpu := none } := rfl
    exact ⟨hclear.cpu, hclear.vmx, by rw [hvcpu, hclear.vcpu]; rfl, hclear.trace⟩

/-! ### The entry -/

/-- How `mini_vmx_enter()` ends for the outcome `o`: its result `r` and the VMX state in `s'`. -/
inductive EntryEnd (s s' : St) (o : EntryOutcome) (r : Int) : Prop where
  | vmFail (hr : r = 1) (effect : Effect s s' s.hw.vmx s.vcpu.vmx [])
      (reason : s.hw.vmx.currentLaunched s.cpu = some s.vcpu.launched → ∃ e, o = .vmFail e)
  | exit (hr : r = 0) (i : ExitInfo) (ho : o = .exit i)
      (agree : s.hw.vmx.currentLaunched s.cpu = some s.vcpu.launched)
      (effect : Effect s s' (s.hw.vmx.launch s.cpu) s.vcpu.vmx [])
      (bit31 : s'.field .vmExitReason &&& 0x80000000 = 0)
  | entryFailure (hr : r = 0) (reason : BitVec 31) (qual : BitVec 64) (p : Phys)
      (ho : o = .entryFailure reason qual) (hp : s.hw.vmx.current s.cpu = some p)
      (agree : s.hw.vmx.currentLaunched s.cpu = some s.vcpu.launched)
      (effect : Effect s s' s.hw.vmx s.vcpu.vmx [.entryFailure p s.vcpu.launched])
      (bit31 : s'.field .vmExitReason &&& 0x80000000 ≠ 0)

theorem St.field_eq {s : St} {p : Phys} (h : s.current = some p) (f : VmcsField) :
    s.field f = (s.hw.vmcs p).field f := by
  rw [St.field, h]
  rfl

theorem setWidth_or_bit31 (reason : BitVec 31) :
    (reason.setWidth 64 ||| 0x80000000 : BitVec 64) &&& 0x80000000 ≠ 0 := by
  intro h
  have := congrArg (fun x => x.getLsbD 31) h
  simp at this

theorem setWidth_and_bit31 (reason : BitVec 31) :
    (reason.setWidth 64 : BitVec 64) &&& 0x80000000 = 0 := by
  have hbit : ∀ i < 64, (0x80000000 : BitVec 64).getLsbD i = decide (i = 31) := by decide
  ext i hi
  have h := hbit i hi
  rw [BitVec.getLsbD_eq_getElem hi] at h
  rw [BitVec.getElem_and, h]
  by_cases h31 : i = 31
  · subst h31
    simp
  · simp [h31]

theorem Hw.vmx_vmEntryFailure (hw : Hw) (p : Phys) (reason : BitVec 31) (qual : BitVec 64) :
    (hw.vmEntryFailure p reason qual).vmx = hw.vmx := by
  rw [Hw.vmEntryFailure, Hw.vmx_vmwrite, Hw.vmx_vmwrite]

theorem Hw.vmx_vmExit {hw : Hw} {c : CpuId} {p : Phys} (hp : hw.vmx.current c = some p)
    (i : ExitInfo) : (hw.vmExit c p i).vmx = hw.vmx.launch c := by
  rw [Hw.vmExit, Hw.vmx_setKernelGsBase, Vmx.launch, hp]
  simp only [Hw.vmx, Hw.setVmcs, Vmx.mk.injEq, true_and]
  funext q
  by_cases hq : q = p <;> simp [hq, Function.update_of_ne]

theorem vmxEnterEnd_end (s : St) (o : EntryOutcome) :
    EntryEnd s ((vmxEnterEnd o).run s).2 o ((vmxEnterEnd o).run s).1 := by
  cases hcur : s.current with
  | none =>
    have hcl : s.hw.vmx.currentLaunched s.cpu = none := by
      rw [Vmx.currentLaunched, ← St.current_eq_vmx, hcur]
      rfl
    have hrun : (vmxEnterEnd o).run s = (1, s) := by
      simp [vmxEnterEnd, hcur]
      rfl
    rw [hrun]
    -- without a current VMCS: VMfailInvalid
    refine .vmFail rfl ⟨rfl, rfl, rfl, (List.append_nil _).symm⟩ fun h => ?_
    rw [hcl] at h
    exact absurd h (by simp)
  | some p =>
    have hcl : s.hw.vmx.currentLaunched s.cpu = some (s.hw.vmcs p).launched := by
      rw [Vmx.currentLaunched, ← St.current_eq_vmx, hcur]
      rfl
    by_cases hlaunched : (s.hw.vmcs p).launched = s.vcpu.launched
    · have hagree : s.hw.vmx.currentLaunched s.cpu = some s.vcpu.launched := by
        rw [hcl, hlaunched]
      cases o with
      | vmFail e =>
        have hrun : (vmxEnterEnd (.vmFail e)).run s =
            (1, { s with hw := s.hw.vmwrite p .vmInstructionError e }) := by
          simp [vmxEnterEnd, hcur, hlaunched, modifyHw]
          rfl
        rw [hrun]
        exact .vmFail rfl ⟨rfl, Hw.vmx_vmwrite _ _ _ _, rfl, (List.append_nil _).symm⟩
          fun _ => ⟨e, rfl⟩
      | entryFailure reason qual =>
        have hrun : (vmxEnterEnd (.entryFailure reason qual)).run s =
            (0, { s with
              hw := s.hw.vmEntryFailure p reason qual
              trace := s.trace ++ [.entryFailure p s.vcpu.launched] }) := by
          simp [vmxEnterEnd, hcur, hlaunched, modifyHw, emit]
          rfl
        rw [hrun]
        refine .entryFailure rfl reason qual p rfl hcur hagree
          ⟨rfl, Hw.vmx_vmEntryFailure _ _ _ _, rfl, rfl⟩ ?_
        have hfield : ((s.hw.vmEntryFailure p reason qual).vmcs p).field .vmExitReason =
            reason.setWidth 64 ||| 0x80000000 := by
          simp [Hw.vmEntryFailure, Hw.vmwrite, Hw.setVmcs]
        have hreason : ({ s with
            hw := s.hw.vmEntryFailure p reason qual
            trace := s.trace ++ [.entryFailure p s.vcpu.launched] } : St).field .vmExitReason =
              reason.setWidth 64 ||| 0x80000000 := (St.field_eq (p := p) (by exact hcur) _).trans hfield
        exact (congrArg (· &&& 0x80000000) hreason).trans_ne (setWidth_or_bit31 reason)
      | exit i =>
        have hrun : (vmxEnterEnd (.exit i)).run s =
            (0, { s with
              hw := s.hw.vmExit s.cpu p i
              vcpu := { s.vcpu with regs := saveGuestRegs i.regs s.vcpu.regs } }) := by
          simp [vmxEnterEnd, hcur, hlaunched, modifyHw, modifyVcpu]
          rfl
        rw [hrun]
        refine .exit rfl i rfl hagree ⟨rfl, Hw.vmx_vmExit hcur i, rfl, (List.append_nil _).symm⟩ ?_
        have hcur' : ((s.hw.vmExit s.cpu p i).cpu s.cpu).current = some p := by
          simp only [Hw.vmExit, Hw.setKernelGsBase, Hw.setCpu, Hw.setVmcs, Function.update_self]
          exact hcur
        have hfield : ((s.hw.vmExit s.cpu p i).vmcs p).field .vmExitReason =
            i.reason.setWidth 64 := by
          simp [Hw.vmExit, Hw.setKernelGsBase, Hw.setCpu, Hw.setVmcs, ExitInfo.save]
        have hreason : ({ s with
            hw := s.hw.vmExit s.cpu p i
            vcpu := { s.vcpu with regs := saveGuestRegs i.regs s.vcpu.regs } } : St).field .vmExitReason =
              i.reason.setWidth 64 := (St.field_eq (p := p) (by exact hcur') _).trans hfield
        exact (congrArg (· &&& 0x80000000) hreason).trans (setWidth_and_bit31 i.reason)
    · -- VMLAUNCH of a launched VMCS, or VMRESUME of a clear one
      have hrun : (vmxEnterEnd o).run s =
          (1, { s with hw := s.hw.vmwrite p .vmInstructionError (if s.vcpu.launched then 5 else 4) }) := by
        simp [vmxEnterEnd, hcur, hlaunched, modifyHw]
        rfl
      rw [hrun]
      refine .vmFail rfl ⟨rfl, Hw.vmx_vmwrite _ _ _ _, rfl, (List.append_nil _).symm⟩ fun h => ?_
      rw [hcl] at h
      exact absurd (Option.some.inj h) hlaunched

/-! ### One iteration -/

/-- The record of an entry on the CPU `c`. -/
def entryEvent (c : CpuId) (x : Vmx) (w : VcpuVmx) : Event :=
  .enter c (x.current c) w.vmcsPhys w.launched (x.currentLaunched c)

/-- One iteration of the run loop on the CPU `c` from the VMX state `x` and `w`, for the outcome `o`:
its result, the VMX state after it and the new events.  `l₁` and `l₂` are the accesses before and
after the entry. -/
inductive IterStep (c : CpuId) (x : Vmx) (w : VcpuVmx) :
    EntryOutcome → Option Int → Vmx → VcpuVmx → List Event → Prop where
  | vmFail {o l₁ l₂} (h₁ : ∀ e ∈ l₁, e.IsAccess c x w) (h₂ : ∀ e ∈ l₂, e.IsAccess c x w)
      (reason : x.currentLaunched c = some w.launched → ∃ e, o = .vmFail e) :
      IterStep c x w o (some (-eio)) x w (l₁ ++ entryEvent c x w :: l₂)
  | exit {l₁ l₂} (h₁ : ∀ e ∈ l₁, e.IsAccess c x w) (h₂ : ∀ e ∈ l₂, e.IsAccess c x w)
      (agree : x.currentLaunched c = some w.launched) (i : ExitInfo) (r : Option Int) :
      IterStep c x w (.exit i) r (x.launch c) { w with launched := true }
        (l₁ ++ entryEvent c x w :: l₂)
  | entryFailure {l₁ l₂} (h₁ : ∀ e ∈ l₁, e.IsAccess c x w) (h₂ : ∀ e ∈ l₂, e.IsAccess c x w)
      (agree : x.currentLaunched c = some w.launched) {p : Phys} (hp : x.current c = some p)
      (reason : BitVec 31) (qual : BitVec 64) :
      IterStep c x w (.entryFailure reason qual) (some (-eio)) x { w with launched := true }
        (l₁ ++ entryEvent c x w :: .entryFailure p w.launched :: l₂)

/-- An entry is made with the VMX state that the iteration started with. -/
theorem runLoopEnter_effect (s : St) : ∃ l₁, (∀ e ∈ l₁, e.IsAccess s.cpu s.hw.vmx s.vcpu.vmx) ∧
    Effect s (runLoopEnter.run s).2 s.hw.vmx s.vcpu.vmx
      (l₁ ++ [entryEvent s.cpu s.hw.vmx s.vcpu.vmx]) := by
  obtain ⟨l₁, he, hl₁⟩ := runLoopPrepare_within s
  refine ⟨l₁, hl₁, ?_⟩
  generalize hs₁ : (runLoopPrepare.run s).2 = s₁ at he
  have hrun : (runLoopEnter.run s).2 =
      { s₁ with trace := s₁.trace ++ [entryEvent s₁.cpu s₁.hw.vmx s₁.vcpu.vmx] } := by
    rw [← hs₁]
    rfl
  rw [hrun]
  exact ⟨he.cpu, he.vmx, he.vcpu, by
    rw [he.cpu, he.vmx, he.vcpu, he.trace, List.append_assoc]⟩

theorem Effect.vcpu_launched {s s' : St} {x : Vmx} {l : List Event}
    (h : Effect s s' x s.vcpu.vmx l) : s'.vcpu.launched = s.vcpu.launched :=
  congrArg VcpuVmx.launched h.vcpu

theorem wrmsrKernelGsBase_effect (s : St) (v : BitVec 64) :
    Effect s ((wrmsrKernelGsBase v).run s).2 s.hw.vmx s.vcpu.vmx [] :=
  ⟨rfl, Hw.vmx_setKernelGsBase _ _ _, rfl, (List.append_nil _).symm⟩

/-- The state when the flag `launched` is set. -/
def St.setLaunched (s : St) : St := { s with vcpu := { s.vcpu with launched := true } }

theorem afterEntry_run (s : St) : afterEntry.run s = examineExit.run s.setLaunched := by
  rcases s with ⟨_, _, _, ⟨_, _, _, launched, _, _, _, _, _, _, _, _, _⟩, _, _, _, _, _, _, _, _⟩
  cases launched <;> rfl

theorem exitInternalError_result (r : Int) (s : St) :
    ((exitInternalError r).run s).1 = some r := rfl

theorem entryFailed_result (s : St) : (entryFailed.run s).1 = some (-eio) := by
  rw [entryFailed, run_bind, run_bind]
  exact exitInternalError_result _ _

theorem entryVmFail_result (s : St) : (entryVmFail.run s).1 = some (-eio) := by
  rw [entryVmFail, run_bind, run_bind]
  exact exitInternalError_result _ _

/-- The state in which the exit reason has been read. -/
def St.afterReason (s : St) : St :=
  ((miniVmread .vmExitReason).run { s with vcpu := { s.vcpu with nExits := s.vcpu.nExits + 1 } }).2

theorem examineExit_run (s : St) : examineExit.run s =
    if s.field .vmExitReason &&& 0x80000000 ≠ 0 then entryFailed.run s.afterReason
    else (trueExit (s.field .vmExitReason)).run s.afterReason := by
  have hrun : examineExit.run s = (if s.field .vmExitReason &&& 0x80000000 ≠ 0 then entryFailed
      else trueExit (s.field .vmExitReason) : M (Option Int)).run s.afterReason := rfl
  rw [hrun, run_ite]

theorem examineExit_result_of_failure {s : St} (h : s.field .vmExitReason &&& 0x80000000 ≠ 0) :
    (examineExit.run s).1 = some (-eio) := by
  rw [examineExit_run, if_pos h, entryFailed_result]

theorem wrmsrKernelGsBase_field (s : St) (v : BitVec 64) (f : VmcsField) :
    ((wrmsrKernelGsBase v).run s).2.field f = s.field f := by
  have hcur : ((wrmsrKernelGsBase v).run s).2.current = s.current := by
    rw [St.current_eq_vmx, (wrmsrKernelGsBase_effect s v).vmx, (wrmsrKernelGsBase_effect s v).cpu,
      ← St.current_eq_vmx]
  rw [St.field, hcur]
  rfl

theorem Event.IsAccess.congr {c : CpuId} {x x' : Vmx} {w w' : VcpuVmx} {e : Event}
    (hx : x'.current = x.current) (hw : w'.vmcsPhys = w.vmcsPhys) (h : e.IsAccess c x' w') :
    e.IsAccess c x w := by
  cases e <;> simp only [Event.IsAccess, hx, hw] at h ⊢ <;> exact h

theorem Vmx.launch_current (x : Vmx) (c : CpuId) : (x.launch c).current = x.current := by
  rw [Vmx.launch]
  split <;> rfl

theorem runLoopExit_run (s : St) (gsShadow : BitVec 64) (o : EntryOutcome) :
    (runLoopExit gsShadow o).run s =
      let s' := ((wrmsrKernelGsBase gsShadow).run ((vmxEnterEnd o).run s).2).2
      if ((vmxEnterEnd o).run s).1 ≠ 0 then entryVmFail.run s' else afterEntry.run s' := by
  rw [runLoopExit, run_bind, run_bind, run_ite]

theorem runLoopBody_run (s : St) (o : EntryOutcome) :
    (runLoopBody o).run s = (runLoopExit (runLoopEnter.run s).1 o).run (runLoopEnter.run s).2 := by
  rw [runLoopBody, run_bind]

/-- Every iteration of the code is an `IterStep`. -/
theorem runLoopBody_step (s : St) (o : EntryOutcome) : ∃ x w l,
    IterStep s.cpu s.hw.vmx s.vcpu.vmx o ((runLoopBody o).run s).1 x w l ∧
      Effect s ((runLoopBody o).run s).2 x w l := by
  obtain ⟨l₁, hl₁, h₁⟩ := runLoopEnter_effect s
  rw [runLoopBody_run, runLoopExit_run]
  generalize (runLoopEnter.run s).1 = gsShadow
  generalize (runLoopEnter.run s).2 = s₁ at h₁ ⊢
  have hend := vmxEnterEnd_end s₁ o
  generalize ((vmxEnterEnd o).run s₁).1 = r at hend ⊢
  generalize ((vmxEnterEnd o).run s₁).2 = s₂ at hend ⊢
  have hgs := wrmsrKernelGsBase_effect s₂ gsShadow
  have hreason := wrmsrKernelGsBase_field s₂ gsShadow .vmExitReason
  generalize ((wrmsrKernelGsBase gsShadow).run s₂).2 = s₃ at hgs hreason ⊢
  -- the accesses after the entry, whichever branch is taken from there
  have hafter : ∀ (m : M (Option Int)), Within accessFrame m → ∀ s₄ x w l, Effect s₁ s₄ x w l →
      x.current = s.hw.vmx.current → w.vmcsPhys = s.vcpu.vmx.vmcsPhys →
      ∃ l₂, (∀ e ∈ l₂, e.IsAccess s.cpu s.hw.vmx s.vcpu.vmx) ∧
        Effect s (m.run s₄).2 x w (l₁ ++ entryEvent s.cpu s.hw.vmx s.vcpu.vmx :: (l ++ l₂)) := by
    intro m hm s₄ x w l h₄ hx hw
    obtain ⟨l₂, he, hl₂⟩ := hm s₄
    rw [h₄.cpu, h₄.vmx, h₄.vcpu, h₁.cpu] at hl₂
    rw [h₄.vmx, h₄.vcpu] at he
    refine ⟨l₂, fun e h => (hl₂ e h).congr hx hw, ?_⟩
    have := h₁.trans (h₄.trans he)
    rwa [List.append_assoc, List.singleton_append] at this
  have h₃ : ∀ {x w l}, Effect s₁ s₂ x w l → Effect s₁ s₃ x w l := by
    intro x w l h
    have := h.trans hgs
    rwa [h.vmx, h.vcpu, List.append_nil] at this
  have hset : ∀ {x w l}, Effect s₁ s₃ x w l →
      Effect s₁ s₃.setLaunched x { w with launched := true } l := by
    intro x w l h
    exact ⟨h.cpu, h.vmx, by rw [← h.vcpu]; rfl, h.trace⟩
  cases hend with
  | vmFail hr effect reason =>
    rw [h₁.vmx, h₁.vcpu] at effect
    rw [h₁.cpu, h₁.vmx, h₁.vcpu_launched] at reason
    obtain ⟨l₂, hl₂, he⟩ := hafter entryVmFail accessFrame_allowsWork.entryVmFail_within s₃ _ _ _ (h₃ effect) rfl rfl
    rw [if_pos (by rw [hr]; decide), entryVmFail_result]
    exact ⟨_, _, _, .vmFail hl₁ hl₂ reason, he⟩
  | exit hr i ho agree effect bit31 =>
    rw [h₁.cpu, h₁.vmx, h₁.vcpu] at effect
    rw [h₁.cpu, h₁.vmx, h₁.vcpu_launched] at agree
    obtain ⟨l₂, hl₂, he⟩ := hafter examineExit examineExit_within s₃.setLaunched _ _ _
      (hset (h₃ effect)) (Vmx.launch_current _ _) rfl
    rw [if_neg (by rw [hr]; decide), afterEntry_run]
    subst ho
    exact ⟨_, _, _, .exit hl₁ hl₂ agree i _, he⟩
  | entryFailure hr reason qual p ho hp agree effect bit31 =>
    rw [h₁.vmx, h₁.vcpu, h₁.vcpu_launched] at effect
    rw [h₁.cpu, h₁.vmx] at hp
    rw [h₁.cpu, h₁.vmx, h₁.vcpu_launched] at agree
    obtain ⟨l₂, hl₂, he⟩ := hafter examineExit examineExit_within s₃.setLaunched _ _ _
      (hset (h₃ effect)) rfl rfl
    rw [if_neg (by rw [hr]; decide), afterEntry_run]
    rw [← hreason] at bit31
    subst ho
    have hbit31 : s₃.setLaunched.field .vmExitReason &&& 0x80000000 ≠ 0 := bit31
    rw [examineExit_result_of_failure hbit31]
    exact ⟨_, _, _, .entryFailure hl₁ hl₂ agree hp reason qual, he⟩

/-! ### The run loop -/

/-- The loop from the VMX state `x` and `w`, for the outcomes given. -/
inductive LoopSteps (c : CpuId) : Vmx → VcpuVmx → EntryOutcome → List EntryOutcome →
    Vmx → VcpuVmx → List Event → Prop where
  | last {x w o os r x' w' l} (h : IterStep c x w o r x' w' l) (hend : os = [] ∨ r ≠ none) :
      LoopSteps c x w o os x' w' l
  | next {x w o o' os x₁ w₁ l₁ x' w' l} (h : IterStep c x w o none x₁ w₁ l₁)
      (hrest : LoopSteps c x₁ w₁ o' os x' w' l) : LoopSteps c x w o (o' :: os) x' w' (l₁ ++ l)

theorem runLoop_steps (s : St) (o : EntryOutcome) (os : List EntryOutcome) : ∃ x w l,
    LoopSteps s.cpu s.hw.vmx s.vcpu.vmx o os x w l ∧ Effect s ((runLoop o os).run s).2 x w l := by
  induction os generalizing s o with
  | nil =>
    obtain ⟨x, w, l, hstep, he⟩ := runLoopBody_step s o
    exact ⟨x, w, l, .last hstep (.inl rfl), he⟩
  | cons o' os ih =>
    obtain ⟨x, w, l, hstep, he⟩ := runLoopBody_step s o
    rw [runLoop, run_bind]
    generalize ((runLoopBody o).run s).1 = r at hstep ⊢
    generalize ((runLoopBody o).run s).2 = s₁ at he ⊢
    cases r with
    | some r => exact ⟨x, w, l, .last hstep (.inr (by simp)), he⟩
    | none =>
      obtain ⟨x', w', l', hrest, he'⟩ := ih s₁ o'
      rw [he.cpu, he.vmx, he.vcpu] at hrest
      exact ⟨x', w', l ++ l', .next hstep hrest, he.trans he'⟩

/-- What comes before the loop when the loop is entered. -/
inductive Loaded (c : CpuId) (x : Vmx) (w : VcpuVmx) (o : RunCall) :
    Vmx → VcpuVmx → List Event → Prop where
  | shortcut (hl : w.loadedCpu = some c) : Loaded c x w o x w []
  | migrated (hl : w.loadedCpu ≠ some c) (ho : o.ptrldOk = true) {l : List Event}
      (h : ∀ e ∈ l, e.IsAccess c ((x.unload c w o.clearOk).vmptrld c w.vmcsPhys)
        { w.unload with loadedCpu := some c }) :
      Loaded c x w o ((x.unload c w o.clearOk).vmptrld c w.vmcsPhys)
        { w.unload with loadedCpu := some c }
        (x.unloadEvents c w o.clearOk ++ .vmptrld c w.vmcsPhys :: l)

/-- `mini_vcpu_run_loop()` on the CPU `c` from the VMX state `x` and `w`. -/
inductive RunSteps (c : CpuId) (x : Vmx) (w : VcpuVmx) (o : RunCall) :
    Vmx → VcpuVmx → List Event → Prop where
  | notVmx (hv : x.vmxonDone c = false) : RunSteps c x w o x w []
  | ptrldFail (hv : x.vmxonDone c = true) (hl : w.loadedCpu ≠ some c) (ho : o.ptrldOk = false) :
      RunSteps c x w o (x.unload c w o.clearOk) w.unload (x.unloadEvents c w o.clearOk)
  | ran (hv : x.vmxonDone c = true) {x₁ w₁ l₁ x' w' l} (hload : Loaded c x w o x₁ w₁ l₁)
      (hloop : LoopSteps c x₁ w₁ o.first o.rest x' w' l) : RunSteps c x w o x' w' (l₁ ++ l)

theorem runLoopAttach_effect (s : St) (ok : Bool) : ∃ l,
    (∀ e ∈ l, e.IsAccess s.cpu s.hw.vmx s.vcpu.vmx) ∧
      Effect s ((runLoopAttach ok).run s).2 s.hw.vmx
        { s.vcpu.vmx with loadedCpu := some s.cpu } l := by
  obtain ⟨l₁, h₁, hl₁⟩ := accessFrame_allowsWork.miniEptInveptGlobal_within ok s
  rw [runLoopAttach, run_bind, run_bind, StateT.run_modify]
  generalize ((miniEptInveptGlobal ok).run s).2 = s₁ at h₁ ⊢
  let s₂ : St := { s₁ with vcpu := { s₁.vcpu with loadedCpu := some s₁.cpu } }
  have h₂ : Effect s s₂ s.hw.vmx { s.vcpu.vmx with loadedCpu := some s.cpu } l₁ :=
    ⟨h₁.cpu, h₁.vmx, by rw [← h₁.vcpu, ← h₁.cpu]; rfl, h₁.trace⟩
  obtain ⟨l₂, h₃, hl₂⟩ := accessFrame_allowsWork.miniVmxFixupHostForCpu_within s₂
  rw [h₂.cpu, h₂.vmx, h₂.vcpu] at hl₂
  rw [h₂.vmx, h₂.vcpu] at h₃
  refine ⟨l₁ ++ l₂, fun e he => ?_, h₂.trans h₃⟩
  exact (List.mem_append.1 he).elim (hl₁ e) fun h => (hl₂ e h).congr rfl rfl

theorem runLoopMigrate_step (s : St) (o : RunCall)
    (hl : s.vcpu.vmx.loadedCpu ≠ some s.cpu) :
    (o.ptrldOk = false ∧ ((runLoopMigrate o).run s).1 = some (-eio) ∧
        Effect s ((runLoopMigrate o).run s).2 (s.hw.vmx.unload s.cpu s.vcpu.vmx o.clearOk)
          s.vcpu.vmx.unload (s.hw.vmx.unloadEvents s.cpu s.vcpu.vmx o.clearOk)) ∨
      ((runLoopMigrate o).run s).1 = none ∧ ∃ x w l, Loaded s.cpu s.hw.vmx s.vcpu.vmx o x w l ∧
        Effect s ((runLoopMigrate o).run s).2 x w l := by
  have h₁ := miniVmcsClear_effect s o.clearOk
  rw [runLoopMigrate, run_bind, run_bind, run_bind, run_ite, run_get]
  generalize ((miniVmcsClear o.clearOk).run s).2 = s₁ at h₁ ⊢
  have hphys : s₁.vcpu.vmcsPhys = s.vcpu.vmx.vmcsPhys := congrArg VcpuVmx.vmcsPhys h₁.vcpu
  obtain ⟨hr, h₂⟩ := miniVmptrld_effect s₁ s₁.vcpu.vmcsPhys o.ptrldOk
  have hx₂ := h₁.trans h₂
  rw [hphys, h₁.cpu, h₁.vmx, h₁.vcpu] at hx₂
  rw [hphys] at hr ⊢
  generalize ((miniVmptrld s.vcpu.vmx.vmcsPhys o.ptrldOk).run s₁).1 = r at hr ⊢
  generalize ((miniVmptrld s.vcpu.vmx.vmcsPhys o.ptrldOk).run s₁).2 = s₂ at hx₂ ⊢
  cases ho : o.ptrldOk with
  | false =>
    rw [ho] at hr hx₂
    -- VMCLEAR has been done where the VMCS was, and it is loaded nowhere
    have hne : r ≠ 0 := by
      rw [hr]
      decide
    rw [if_pos hne]
    refine .inl ⟨rfl, rfl, hx₂.cpu, hx₂.vmx, hx₂.vcpu, ?_⟩
    exact hx₂.trace.trans (by rw [if_neg Bool.false_ne_true, List.append_nil])
  | true =>
    rw [ho] at hr hx₂
    have heq : r = 0 := hr
    rw [if_neg (not_not.2 heq)]
    obtain ⟨l, hl', h₃⟩ := runLoopAttach_effect s₂ o.inveptOk
    rw [hx₂.cpu, hx₂.vmx, hx₂.vcpu] at h₃ hl'
    refine .inr ⟨rfl, _, _, _, .migrated hl ho fun e he => (hl' e he).congr rfl rfl, ?_⟩
    have := hx₂.trans h₃
    rwa [List.append_assoc] at this

theorem runLoopLoad_run (s : St) (o : RunCall) :
    (runLoopLoad o).run s =
      if !s.hw.vmx.vmxonDone s.cpu then (some (-eproto), { s with exitReason := .internalError })
      else if s.vcpu.vmx.loadedCpu ≠ some s.cpu then (runLoopMigrate o).run s
      else (none, s) := by
  rw [runLoopLoad, run_bind, run_bind, run_ite, run_ite]
  rfl

/-- The loop and what follows it change the VMX state as `LoopSteps` says. -/
theorem runLoop_end (s : St) (o : EntryOutcome) (os : List EntryOutcome) : ∃ x w l,
    LoopSteps s.cpu s.hw.vmx s.vcpu.vmx o os x w l ∧
      Effect s ((do
        match ← runLoop o os with
        | some r =>
          preemptEnable
          return some r
        | none => return none : M (Option Int)).run s).2 x w l := by
  obtain ⟨x, w, l, hsteps, he⟩ := runLoop_steps s o os
  refine ⟨x, w, l, hsteps, ?_⟩
  rw [run_bind]
  generalize ((runLoop o os).run s).1 = r
  generalize ((runLoop o os).run s).2 = s' at he ⊢
  cases r with
  | none => exact he
  | some r => exact ⟨he.cpu, he.vmx, he.vcpu, he.trace⟩

/-- Every KVM_RUN of the code is a `RunSteps`. -/
theorem miniVcpuRunLoop_steps (s : St) (o : RunCall) : ∃ x w l,
    RunSteps s.cpu s.hw.vmx s.vcpu.vmx o x w l ∧
      Effect s ((miniVcpuRunLoop o).run s).2 x w l := by
  let s₀ : St := { s with exitReason := .unknown, preemptCount := s.preemptCount + 1 }
  have h₀ : ∀ {s' x w l}, Effect s₀ s' x w l → Effect s s' x w l :=
    fun h => ⟨h.cpu, h.vmx, h.vcpu, h.trace⟩
  have hrun : (miniVcpuRunLoop o).run s = (match ((runLoopLoad o).run s₀).1 with
      | some r => (do
        preemptEnable
        return some r : M (Option Int))
      | none => do
        match ← runLoop o.first o.rest with
        | some r =>
          preemptEnable
          return some r
        | none => return none).run ((runLoopLoad o).run s₀).2 := by
    rw [miniVcpuRunLoop, run_bind, run_bind, run_bind]
    rfl
  rw [hrun, runLoopLoad_run]
  by_cases hv : s.hw.vmx.vmxonDone s.cpu = true
  · have hv' : (!s₀.hw.vmx.vmxonDone s₀.cpu) = false := by
      rw [Bool.not_eq_false']
      exact hv
    rw [hv', if_neg Bool.false_ne_true]
    by_cases hl : s.vcpu.vmx.loadedCpu = some s.cpu
    · -- loaded on this CPU already
      have hl' : ¬ s₀.vcpu.vmx.loadedCpu ≠ some s₀.cpu := not_not.2 hl
      rw [if_neg hl']
      obtain ⟨x, w, l, hsteps, he⟩ := runLoop_end s₀ o.first o.rest
      exact ⟨x, w, [] ++ l, .ran hv (.shortcut hl) hsteps, h₀ he⟩
    · -- a new VMCS, or a migration
      have hl' : s₀.vcpu.vmx.loadedCpu ≠ some s₀.cpu := hl
      rw [if_pos hl']
      obtain ⟨ho, hr, he⟩ | ⟨hr, x₁, w₁, l₁, hload, he₁⟩ := runLoopMigrate_step s₀ o hl'
      · rw [hr]
        exact ⟨_, _, _, .ptrldFail hv hl ho, h₀ ⟨he.cpu, he.vmx, he.vcpu, he.trace⟩⟩
      · rw [hr]
        generalize ((runLoopMigrate o).run s₀).2 = s₁ at he₁ ⊢
        obtain ⟨x, w, l, hsteps, he⟩ := runLoop_end s₁ o.first o.rest
        rw [he₁.cpu, he₁.vmx, he₁.vcpu] at hsteps
        exact ⟨x, w, l₁ ++ l, .ran hv hload hsteps, h₀ (he₁.trans he)⟩
  · have hv' : (!s₀.hw.vmx.vmxonDone s₀.cpu) = true := by
      rw [Bool.not_eq_true']
      exact Bool.eq_false_iff.2 hv
    rw [hv', if_pos rfl]
    exact ⟨_, _, _, .notVmx (Bool.eq_false_iff.2 hv), rfl, rfl, rfl, (List.append_nil _).symm⟩

end MiniVirt.Kvm
