import MiniVirt.Kvm.Vcpu

/-!
# What the code leaves alone

`Hw.vmx` is the part of the machine that VMPTRLD, VMCLEAR and the VM entries act on, and
`MiniKvmVcpu.vmx` the software's mirror of it.  Nearly all of the module works inside the current
VMCS: it changes neither, and what it adds to the trace are accesses to the current VMCS
(`accessFrame`).
-/

namespace MiniVirt.Kvm

/-! ### The VMX state -/

/-- Who holds which VMCS. -/
structure Vmx where
  online : CpuId → Bool
  vmxonDone : CpuId → Bool
  current : CpuId → Option Phys
  active : CpuId → Phys → Bool
  launched : Phys → Bool

def Hw.vmx (hw : Hw) : Vmx where
  online c := (hw.cpu c).online
  vmxonDone c := (hw.cpu c).vmxonDone
  current c := (hw.cpu c).current
  active c := (hw.cpu c).active
  launched p := (hw.vmcs p).launched

/-- A vCPU's view of its VMCS. -/
structure VcpuVmx where
  vmcsPage : Option Pfn
  vmcsPhys : Phys
  launched : Bool
  loadedCpu : Option CpuId

def MiniKvmVcpu.vmx (v : MiniKvmVcpu) : VcpuVmx :=
  ⟨v.vmcsPage, v.vmcsPhys, v.launched, v.loadedCpu⟩

/-! ### Frames -/

/-- `e` is an access to the current VMCS of the CPU `c` for the vCPU `w`. -/
def Event.IsAccess (c : CpuId) (x : Vmx) (w : VcpuVmx) : Event → Prop
  | .vmread c' cur own _ => c' = c ∧ cur = x.current c ∧ own = w.vmcsPhys
  | .vmwrite c' cur own _ _ => c' = c ∧ cur = x.current c ∧ own = w.vmcsPhys
  | _ => False

/-- `s'` comes from `s` with the VMX state `x` and `w` and the new events `l`. -/
structure Effect (s s' : St) (x : Vmx) (w : VcpuVmx) (l : List Event) : Prop where
  cpu : s'.cpu = s.cpu
  vmx : s'.hw.vmx = x
  vcpu : s'.vcpu.vmx = w
  trace : s'.trace = s.trace ++ l

theorem Effect.trans {s₁ s₂ s₃ : St} {x₂ x₃ : Vmx} {w₂ w₃ : VcpuVmx} {l₂ l₃ : List Event}
    (h₂ : Effect s₁ s₂ x₂ w₂ l₂) (h₃ : Effect s₂ s₃ x₃ w₃ l₃) :
    Effect s₁ s₃ x₃ w₃ (l₂ ++ l₃) :=
  ⟨h₃.cpu.trans h₂.cpu, h₃.vmx, h₃.vcpu, by rw [h₃.trace, h₂.trace, List.append_assoc]⟩

/-- From `s` to `s'` the VMX state is the same, and the new events are accesses. -/
def Framed (s s' : St) : Prop :=
  ∃ l, Effect s s' s.hw.vmx s.vcpu.vmx l ∧ ∀ e ∈ l, e.IsAccess s.cpu s.hw.vmx s.vcpu.vmx

/-- Work inside the current VMCS. -/
def accessFrame : Guarantee St where
  rel := Framed
  refl s := ⟨[], ⟨rfl, rfl, rfl, (List.append_nil _).symm⟩, fun _ h => absurd h List.not_mem_nil⟩
  trans := by
    rintro s₁ s₂ s₃ ⟨l₁, h₁, hl₁⟩ ⟨l₂, h₂, hl₂⟩
    rw [h₁.cpu, h₁.vmx, h₁.vcpu] at hl₂
    rw [h₁.vmx, h₁.vcpu] at h₂
    exact ⟨l₁ ++ l₂, h₁.trans h₂, fun e he => (List.mem_append.1 he).elim (hl₁ e) (hl₂ e)⟩

theorem framed_of_eq {s s' : St} (hcpu : s'.cpu = s.cpu) (hvmx : s'.hw.vmx = s.hw.vmx)
    (hvcpu : s'.vcpu.vmx = s.vcpu.vmx) (htrace : s'.trace = s.trace) : Framed s s' :=
  ⟨[], ⟨hcpu, hvmx, hvcpu, by rw [htrace, List.append_nil]⟩, fun _ h => absurd h List.not_mem_nil⟩

theorem Hw.vmx_setVmcs {hw : Hw} {p : Phys} {x : Vmcs} (h : x.launched = (hw.vmcs p).launched) :
    (hw.setVmcs p x).vmx = hw.vmx := by
  have hl : (hw.setVmcs p x).vmx.launched = hw.vmx.launched := by
    funext q
    by_cases hq : q = p
    · subst hq
      simpa [Hw.vmx, Hw.setVmcs] using h
    · simp [Hw.vmx, Hw.setVmcs, hq]
  calc (hw.setVmcs p x).vmx = { hw.vmx with launched := (hw.setVmcs p x).vmx.launched } := rfl
    _ = hw.vmx := by rw [hl]

@[simp]
theorem Hw.vmx_vmwrite (hw : Hw) (p : Phys) (f : VmcsField) (v : BitVec 64) :
    (hw.vmwrite p f v).vmx = hw.vmx :=
  Hw.vmx_setVmcs rfl

theorem miniVmread_within (f : VmcsField) : Within accessFrame (miniVmread f) := fun s =>
  ⟨[.vmread s.cpu s.current s.vcpu.vmcsPhys f], ⟨rfl, rfl, rfl, rfl⟩, by
    intro e he
    rw [List.mem_singleton.1 he]
    exact ⟨rfl, rfl, rfl⟩⟩

theorem miniVmwrite_run (s : St) (f : VmcsField) (v : BitVec 64) :
    ((miniVmwrite f v).run s).2 =
      { s with
        hw := s.current.elim s.hw fun p => s.hw.vmwrite p f v
        trace := s.trace ++ [.vmwrite s.cpu s.current s.vcpu.vmcsPhys f v] } := by
  cases hcur : s.current with
  | none => simp [miniVmwrite, emit, hcur]; rfl
  | some p => simp [miniVmwrite, emit, modifyHw, hcur]; rfl

theorem miniVmwrite_within (f : VmcsField) (v : BitVec 64) :
    Within accessFrame (miniVmwrite f v) := by
  intro s
  rw [miniVmwrite_run]
  refine ⟨[.vmwrite s.cpu s.current s.vcpu.vmcsPhys f v], ⟨rfl, ?_, rfl, rfl⟩, ?_⟩
  · cases s.current with
    | none => rfl
    | some p => exact Hw.vmx_vmwrite s.hw p f v
  · intro e he
    rw [List.mem_singleton.1 he]
    exact ⟨rfl, rfl, rfl⟩

/-! ### Work outside the event slot

Most functions access the current VMCS and change neither the VMX state nor the event slot.  They
keep every guarantee that allows this much. -/

/-- From `s` to `s'` the VMX state, the fields of the VMCSs, the event slot, the trace, the EPT, the
memslot, the preemption count and the calls of `mini_vmcs_clear()` are the same. -/
structure WorkChange (s s' : St) : Prop where
  cpu : s'.cpu = s.cpu
  vmx : s'.hw.vmx = s.hw.vmx
  field : ∀ p, (s'.hw.vmcs p).field = (s.hw.vmcs p).field
  vcpu : s'.vcpu.vmx = s.vcpu.vmx
  pending : s'.vcpu.pendingIntrInfo = s.vcpu.pendingIntrInfo
  trace : s'.trace = s.trace
  mem : s'.hw.mem = s.hw.mem
  ept : s'.kvm.ept = s.kvm.ept
  allocs : s'.allocs = s.allocs
  slot : s'.kvm.slot = s.kvm.slot
  preempt : s'.preemptCount = s.preemptCount
  clears : s'.vmcsClears = s.vmcsClears

/-- The guarantee allows VMREADs, writes of the guest's RIP, and changes of the state outside all that results
speak of. -/
structure AllowsHandlers (G : Guarantee St) : Prop where
  vmread_within : ∀ f, Within G (miniVmread f)
  vmwriteRip_within : ∀ v, Within G (miniVmwrite .guestRip v)
  modify_within : ∀ g : St → St, (∀ s, WorkChange s (g s)) → Within G (modify g : M Unit)

/-- The guarantee allows all accesses to the current VMCS, but for writes of its EPT pointer. -/
structure AllowsWork (G : Guarantee St) : Prop extends AllowsHandlers G where
  vmwrite_within : ∀ f v, f ≠ .eptPointer → Within G (miniVmwrite f v)
  vmwriteRip_within v := vmwrite_within _ v (by simp)

variable {G : Guarantee St}

theorem AllowsHandlers.modifyVcpu_within (hG : AllowsHandlers G) {f : MiniKvmVcpu → MiniKvmVcpu}
    (h : ∀ v, (f v).vmx = v.vmx ∧ (f v).pendingIntrInfo = v.pendingIntrInfo) :
    Within G (modifyVcpu f) :=
  hG.modify_within _ fun s => ⟨rfl, rfl, fun _ => rfl, (h s.vcpu).1, (h s.vcpu).2, rfl, rfl, rfl, rfl, rfl, rfl, rfl⟩

theorem AllowsHandlers.setExitReason_within (hG : AllowsHandlers G) (r : KvmExit) :
    Within G (setExitReason r) :=
  hG.modify_within _ fun _ => ⟨rfl, rfl, fun _ => rfl, rfl, rfl, rfl, rfl, rfl, rfl, rfl, rfl, rfl⟩

theorem AllowsHandlers.localIrqDisable_within (hG : AllowsHandlers G) : Within G localIrqDisable :=
  hG.modify_within _ fun _ => ⟨rfl, rfl, fun _ => rfl, rfl, rfl, rfl, rfl, rfl, rfl, rfl, rfl, rfl⟩

theorem AllowsHandlers.localIrqEnable_within (hG : AllowsHandlers G) : Within G localIrqEnable :=
  hG.modify_within _ fun _ => ⟨rfl, rfl, fun _ => rfl, rfl, rfl, rfl, rfl, rfl, rfl, rfl, rfl, rfl⟩

theorem AllowsHandlers.recordInvept_within (hG : AllowsHandlers G) : Within G recordInvept :=
  hG.modify_within _ fun _ => ⟨rfl, rfl, fun _ => rfl, rfl, rfl, rfl, rfl, rfl, rfl, rfl, rfl, rfl⟩

theorem AllowsHandlers.recordOut_within (hG : AllowsHandlers G) (x : IoOut) : Within G (recordOut x) :=
  hG.modify_within _ fun _ => ⟨rfl, rfl, fun _ => rfl, rfl, rfl, rfl, rfl, rfl, rfl, rfl, rfl, rfl⟩

theorem AllowsHandlers.serialOut_within (hG : AllowsHandlers G) (c : BitVec 8) : Within G (serialOut c) :=
  hG.modify_within _ fun _ => ⟨rfl, rfl, fun _ => rfl, rfl, rfl, rfl, rfl, rfl, rfl, rfl, rfl, rfl⟩

/-! ### `vmx.c` -/

theorem vmwriteAll_within {l : List (VmcsField × BitVec 64)} (h : ∀ x ∈ l, Within G (miniVmwrite x.1 x.2)) :
    Within G (vmwriteAll l) := by
  induction l with
  | nil => exact .pure ()
  | cons x l ih =>
    exact (h x List.mem_cons_self).bind fun _ => ih fun y hy => h y (List.mem_cons_of_mem x hy)

theorem AllowsWork.vmwriteAll_within (hG : AllowsWork G) {l : List (VmcsField × BitVec 64)}
    (h : ∀ x ∈ l, x.1 ≠ .eptPointer) : Within G (vmwriteAll l) :=
  MiniVirt.Kvm.vmwriteAll_within fun x hx => hG.vmwrite_within x.1 x.2 (h x hx)

theorem AllowsHandlers.vmreadAll_within (hG : AllowsHandlers G) : ∀ l, Within G (vmreadAll l)
  | [] => .pure ()
  | f :: l => (hG.vmread_within f).bind fun _ => hG.vmreadAll_within l

theorem AllowsHandlers.miniDumpVmcs_within (hG : AllowsHandlers G) : Within G miniDumpVmcs := hG.vmreadAll_within _

theorem AllowsHandlers.miniVmxReportError_within (hG : AllowsHandlers G) : Within G miniVmxReportError :=
    hG.vmreadAll_within _

theorem hostRegs_within : Within G hostRegs := Within.get.bind fun _ => .pure _

theorem AllowsWork.miniVmxRefreshHostState_within (hG : AllowsWork G) : Within G miniVmxRefreshHostState :=
  hostRegs_within.bind fun _ => hG.vmwriteAll_within (by simp)

theorem miniVmxFixupHostForCpu_within_of
    (h : ∀ f ∈ [VmcsField.hostTrBase, .hostGdtrBase, .hostIa32SysenterEsp], ∀ v, Within G (miniVmwrite f v)) :
    Within G miniVmxFixupHostForCpu :=
  hostRegs_within.bind fun _ => (vmwriteAll_within (by simp [h])).bind fun _ => Within.get.bind fun _ =>
    .ite (vmwriteAll_within (by simp [h])) (.pure ())

theorem AllowsWork.miniVmxFixupHostForCpu_within (hG : AllowsWork G) : Within G miniVmxFixupHostForCpu :=
  miniVmxFixupHostForCpu_within_of fun f hf v => hG.vmwrite_within f v fun heq => by simp [heq] at hf

theorem AllowsWork.miniVmxSetGuestState_within (hG : AllowsWork G) : Within G miniVmxSetGuestState :=
    hG.vmwriteAll_within (by simp)

theorem AllowsWork.miniVmxSetConstantHostState_within (hG : AllowsWork G) : Within G miniVmxSetConstantHostState :=
  hostRegs_within.bind fun h => (hG.vmwriteAll_within (by simp)).bind fun _ => Within.get.bind fun _ => by
    have hrest : Within G (do
        vmwriteAll [(.hostIa32Efer, h.efer)]
        miniVmxFixupHostForCpu
        vmwriteAll [(.hostFsBase, h.fsBase), (.hostGsBase, h.kernelmodeGsBase),
          (.hostRip, h.vmexitAddress)]) :=
      (hG.vmwriteAll_within (by simp)).bind fun _ => hG.miniVmxFixupHostForCpu_within.bind fun _ =>
        hG.vmwriteAll_within (by simp)
    exact .ite ((hG.vmwriteAll_within (by simp)).bind fun _ => hrest) hrest

/-! ### `ept.c` and `device.c` -/

theorem cpuInVmxOperation_within (c : CpuId) : Within G (cpuInVmxOperation c) :=
  Within.get.bind fun _ => .pure _

theorem AllowsHandlers.miniEptInveptGlobal_within (hG : AllowsHandlers G) (ok : Bool) :
    Within G (miniEptInveptGlobal ok) :=
  Within.get.bind fun _ => (cpuInVmxOperation_within _).bind fun _ =>
    .ite (.pure _) (.ite ((hG.recordInvept_within).bind fun _ => .pure _) (.pure _))

/-- The handling of an EPT violation accesses the VMCS and changes the EPT and a counter. -/
theorem miniEptHandleViolation_within_of (hread : ∀ f, Within G (miniVmread f))
    (hmodify : ∀ g : St → St, (∀ s, (g s).cpu = s.cpu ∧ (g s).hw.vmx = s.hw.vmx ∧
      (g s).vcpu.vmx = s.vcpu.vmx ∧ (g s).vcpu.pendingIntrInfo = s.vcpu.pendingIntrInfo ∧
        (g s).trace = s.trace) → Within G (modify g : M Unit)) : Within G miniEptHandleViolation :=
  (hread _).bind fun _ => Within.get.bind fun _ =>
    (hmodify _ fun _ => by exact ⟨rfl, rfl, rfl, rfl, rfl⟩).bind fun _ =>
      .ite ((hmodify _ fun _ => by exact ⟨rfl, rfl, rfl, rfl, rfl⟩).bind fun _ => .pure _) (.pure _)

theorem AllowsHandlers.ioAccess_within (hG : AllowsHandlers G) (qual : BitVec 64) : Within G (ioAccess qual) :=
  .ite (hG.modifyVcpu_within fun _ => by exact ⟨rfl, rfl⟩) <| Within.get.bind fun _ =>
    (hG.recordOut_within _).bind fun _ => .ite (hG.serialOut_within _) (.pure _)

theorem AllowsHandlers.ioAdvance_within (hG : AllowsHandlers G) : Within G ioAdvance :=
  (hG.vmread_within _).bind fun _ => (hG.vmread_within _).bind fun _ => (hG.vmwriteRip_within _).bind fun _ =>
    (hG.modifyVcpu_within fun _ => by exact ⟨rfl, rfl⟩).bind fun _ => .pure _

theorem AllowsHandlers.miniHandleIoExit_within (hG : AllowsHandlers G) : Within G miniHandleIoExit :=
  (hG.vmread_within _).bind fun _ => .ite (.pure _) ((hG.ioAccess_within _).bind fun _ => hG.ioAdvance_within)

/-! ### `vcpu.c` -/

theorem AllowsWork.runLoopInject_within (hG : AllowsWork G) : Within G runLoopInject :=
  (hG.vmread_within _).bind fun _ => (hG.vmwrite_within _ _ (by simp)).bind fun _ =>
    (hG.vmread_within _).bind fun _ => (hG.vmwrite_within _ _ (by simp)).bind fun _ =>
      hG.modifyVcpu_within fun _ => by exact ⟨rfl, rfl⟩

theorem AllowsHandlers.exitInternalError_within (hG : AllowsHandlers G) (r : Int) : Within G (exitInternalError r) :=
  (hG.setExitReason_within _).bind fun _ => hG.localIrqEnable_within.bind fun _ => .pure _

theorem AllowsHandlers.handleExternalInterrupt_within (hG : AllowsHandlers G) : Within G handleExternalInterrupt :=
  hG.localIrqEnable_within.bind fun _ => (hG.modifyVcpu_within fun _ => by exact ⟨rfl, rfl⟩).bind fun _ =>
    hG.localIrqDisable_within.bind fun _ => .pure _

theorem AllowsHandlers.handleIoInstruction_within (hG : AllowsHandlers G) : Within G handleIoInstruction :=
  hG.localIrqEnable_within.bind fun _ => hG.miniHandleIoExit_within.bind fun _ =>
    hG.localIrqDisable_within.bind fun _ => .ite (hG.exitInternalError_within _) (.pure _)

theorem AllowsHandlers.handleEptViolation_within (hG : AllowsHandlers G)
    (hviolation : Within G miniEptHandleViolation) : Within G handleEptViolation :=
  hviolation.bind fun _ =>
    .ite (hG.miniDumpVmcs_within.bind fun _ => hG.exitInternalError_within _) (.pure _)

theorem AllowsHandlers.handleCpuid_within (hG : AllowsHandlers G) : Within G handleCpuid :=
  (hG.modifyVcpu_within fun _ => by exact ⟨rfl, rfl⟩).bind fun _ => (hG.vmread_within _).bind fun _ =>
    (hG.vmread_within _).bind fun _ => (hG.vmwriteRip_within _).bind fun _ => .pure _

theorem AllowsHandlers.handleHlt_within (hG : AllowsHandlers G) : Within G handleHlt :=
  (hG.modifyVcpu_within fun _ => by exact ⟨rfl, rfl⟩).bind fun _ => (hG.setExitReason_within _).bind fun _ =>
    hG.localIrqEnable_within.bind fun _ => .pure _

theorem AllowsHandlers.handleTripleFault_within (hG : AllowsHandlers G) : Within G handleTripleFault :=
  hG.miniDumpVmcs_within.bind fun _ => (hG.setExitReason_within _).bind fun _ =>
    hG.localIrqEnable_within.bind fun _ => .pure _

theorem AllowsHandlers.handleUnknown_within (hG : AllowsHandlers G) : Within G handleUnknown :=
  hG.miniDumpVmcs_within.bind fun _ => hG.exitInternalError_within _

theorem AllowsHandlers.handleExceptionNmi_within (hG : AllowsHandlers G)
    (hnmi : Within G miniVcpuReinjectNmi) : Within G handleExceptionNmi :=
  (hG.vmread_within _).bind fun _ => .ite
    ((hG.modifyVcpu_within fun _ => by exact ⟨rfl, rfl⟩).bind fun _ => hnmi.bind fun _ => .pure _)
    ((hG.vmread_within _).bind fun _ => hG.miniDumpVmcs_within.bind fun _ =>
      hG.exitInternalError_within _)

theorem AllowsHandlers.handleExit_within (hG : AllowsHandlers G) (hnmi : Within G miniVcpuReinjectNmi)
    (hviolation : Within G miniEptHandleViolation) : ∀ x, Within G (handleExit x)
  | .exceptionNmi => hG.handleExceptionNmi_within hnmi
  | .externalInterrupt => hG.handleExternalInterrupt_within
  | .tripleFault => hG.handleTripleFault_within
  | .cpuid => hG.handleCpuid_within
  | .hlt => hG.handleHlt_within
  | .ioInstruction => hG.handleIoInstruction_within
  | .eptViolation => hG.handleEptViolation_within hviolation
  | .other => hG.handleUnknown_within

theorem AllowsHandlers.entryVmFail_within (hG : AllowsHandlers G) : Within G entryVmFail :=
  hG.miniVmxReportError_within.bind fun _ => hG.miniDumpVmcs_within.bind fun _ =>
    hG.exitInternalError_within _

theorem AllowsHandlers.entryFailed_within (hG : AllowsHandlers G) : Within G entryFailed :=
  (hG.vmread_within _).bind fun _ => hG.miniDumpVmcs_within.bind fun _ => hG.exitInternalError_within _

theorem AllowsWork.vmxWriteHostRsp_within (hG : AllowsWork G) : Within G vmxWriteHostRsp :=
  hostRegs_within.bind fun _ => (hG.vmwrite_within _ _ (by simp)).bind fun _ => .pure _

theorem accessFrame_allowsWork : AllowsWork accessFrame where
  vmread_within := miniVmread_within
  vmwrite_within f v _ := miniVmwrite_within f v
  modify_within _ h := Within.modify fun s => framed_of_eq (h s).cpu (h s).vmx (h s).vcpu (h s).trace

theorem miniEptHandleViolation_within : Within accessFrame miniEptHandleViolation :=
  miniEptHandleViolation_within_of miniVmread_within fun _ h =>
    Within.modify fun s => framed_of_eq (h s).1 (h s).2.1 (h s).2.2.1 (h s).2.2.2.2

/-! ### The event slot -/

/-- A change of the vCPU outside its VMX state. -/
theorem within_modifyVcpu {f : MiniKvmVcpu → MiniKvmVcpu} (h : ∀ v, (f v).vmx = v.vmx) :
    Within accessFrame (modifyVcpu f) :=
  Within.modify fun s => framed_of_eq rfl rfl (h s.vcpu) rfl

theorem miniVcpuTakeIntrInfo_within : Within accessFrame miniVcpuTakeIntrInfo :=
  Within.get.bind fun _ => (within_modifyVcpu fun _ => by rfl).bind fun _ => .pure _

theorem miniVcpuCompleteIntrInfo_within : Within accessFrame miniVcpuCompleteIntrInfo :=
  (within_modifyVcpu fun _ => by rfl).bind fun _ => (miniVmread_within _).bind fun _ =>
    within_modifyVcpu fun _ => by rfl

theorem miniVcpuReinjectNmi_within : Within accessFrame miniVcpuReinjectNmi :=
  (miniVmread_within _).bind fun _ => .ite (.pure ()) <| Within.get.bind fun _ =>
    .ite (.pure ()) (within_modifyVcpu fun _ => by rfl)

theorem trueExit_within (reason64 : BitVec 64) : Within accessFrame (trueExit reason64) :=
  miniVcpuCompleteIntrInfo_within.bind fun _ =>
    accessFrame_allowsWork.handleExit_within miniVcpuReinjectNmi_within miniEptHandleViolation_within _

theorem examineExit_within : Within accessFrame examineExit :=
  (within_modifyVcpu fun _ => by rfl).bind fun _ => (miniVmread_within _).bind fun _ =>
    .ite accessFrame_allowsWork.entryFailed_within (trueExit_within _)

theorem AllowsWork.runLoopWrite_within (hG : AllowsWork G) (intr : BitVec 32) :
    Within G (runLoopWrite intr) :=
  (hG.vmwrite_within _ _ (by simp)).bind fun _ => Within.get.bind fun _ =>
    hG.localIrqDisable_within.bind fun _ => hG.vmxWriteHostRsp_within.bind fun _ => .pure _

theorem runLoopPrepare_within : Within accessFrame runLoopPrepare :=
  have hG := accessFrame_allowsWork
  hG.miniVmxRefreshHostState_within.bind fun _ => miniVcpuTakeIntrInfo_within.bind fun _ =>
    .ite (hG.runLoopInject_within.bind fun _ => hG.runLoopWrite_within _) (hG.runLoopWrite_within _)

end MiniVirt.Kvm
