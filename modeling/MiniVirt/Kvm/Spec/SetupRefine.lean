import MiniVirt.Kvm.SetupThread
import MiniVirt.Kvm.Spec.Calls
import MiniVirt.Kvm.Spec.Setup
import Mathlib.Logic.Relation

/-!
# The steps of a setup are the setup

`mini_vcpu_vmx_setup()` is written twice: as one call (`miniVcpuVmxSetup`) and as the steps of a thread
(`setupStep`).  When nothing comes between the steps, they lead to the result of the call, in the same state
(`setupStep_refines`).
-/

namespace MiniVirt.Kvm

/-! ### Programs that only write the VMCS -/

/-- The state that the values in the VMWRITEs of a setup are computed from. -/
structure SameHost (s s' : St) : Prop where
  cpu : s'.cpu = s.cpu
  host : ∀ c, (s'.hw.cpu c).host = (s.hw.cpu c).host
  ia32Emulation : s'.hw.ia32Emulation = s.hw.ia32Emulation
  kvm : s'.kvm = s.kvm

theorem SameHost.refl (s : St) : SameHost s s := ⟨rfl, fun _ => rfl, rfl, rfl⟩

theorem SameHost.trans {s₁ s₂ s₃ : St} (h₁ : SameHost s₁ s₂) (h₂ : SameHost s₂ s₃) : SameHost s₁ s₃ :=
  ⟨h₂.cpu.trans h₁.cpu, fun c => (h₂.host c).trans (h₁.host c), h₂.ia32Emulation.trans h₁.ia32Emulation,
    h₂.kvm.trans h₁.kvm⟩

theorem SameHost.symm {s s' : St} (h : SameHost s s') : SameHost s' s :=
  ⟨h.cpu.symm, fun c => (h.host c).symm, h.ia32Emulation.symm, h.kvm.symm⟩

def hostFrame : Guarantee St := ⟨SameHost, SameHost.refl, SameHost.trans⟩

theorem miniVmwrite_sameHost (f : VmcsField) (v : BitVec 64) : Within hostFrame (miniVmwrite f v) := by
  intro s
  rw [miniVmwrite_run]
  cases s.current <;> exact ⟨rfl, fun _ => rfl, rfl, rfl⟩

theorem vmwriteAll_append (l₁ l₂ : List (VmcsField × BitVec 64)) (s : St) :
    (vmwriteAll (l₁ ++ l₂)).run s = (vmwriteAll l₂).run ((vmwriteAll l₁).run s).2 := by
  induction l₁ generalizing s with
  | nil => rfl
  | cons x l₁ ih => exact ih ((miniVmwrite x.1 x.2).run s).2

/-- From states like `s`, the program makes the VMWRITEs of one list. -/
def WritesFrom (s : St) (P : M Unit) : Prop :=
  ∃ l, ∀ s', SameHost s s' → P.run s' = (vmwriteAll l).run s'

namespace WritesFrom

variable {s : St} {P Q : M Unit}

theorem vmwriteAll (l : List (VmcsField × BitVec 64)) : WritesFrom s (vmwriteAll l) := ⟨l, fun _ _ => rfl⟩

theorem pure : WritesFrom s (Pure.pure ()) := ⟨[], fun _ _ => rfl⟩

theorem bind (hP : WritesFrom s P) (hQ : WritesFrom s Q) : WritesFrom s (P >>= fun _ => Q) := by
  obtain ⟨l₁, h₁⟩ := hP
  obtain ⟨l₂, h₂⟩ := hQ
  refine ⟨l₁ ++ l₂, fun s' hs => ?_⟩
  rw [run_bind, h₁ s' hs, vmwriteAll_append]
  refine h₂ _ (hs.trans ?_)
  exact (vmwriteAll_within fun x _ => miniVmwrite_sameHost x.1 x.2 : Within hostFrame _) s'

theorem get {f : St → M Unit} (h : WritesFrom s (f s)) (hf : ∀ s', SameHost s s' → f s' = f s) :
    WritesFrom s (MonadState.get >>= f) := by
  obtain ⟨l, hl⟩ := h
  refine ⟨l, fun s' hs => ?_⟩
  rw [run_bind, run_get]
  dsimp only
  rw [hf s' hs]
  exact hl s' hs

theorem hostRegs {f : HostRegs → M Unit} (h : WritesFrom s (f (s.hw.cpu s.cpu).host)) :
    WritesFrom s (hostRegs >>= f) := by
  refine get h fun s' hs => ?_
  show f (s'.hw.cpu s'.cpu).host = f (s.hw.cpu s.cpu).host
  rw [hs.cpu, hs.host]

theorem ite {c : Prop} [Decidable c] (hP : WritesFrom s P) (hQ : WritesFrom s Q) :
    WritesFrom s (if c then P else Q) := by
  split
  · exact hP
  · exact hQ

end WritesFrom

theorem miniVmxFixupHostForCpu_writes (s : St) : WritesFrom s miniVmxFixupHostForCpu := by
  refine .hostRegs (.bind (.vmwriteAll _) (.get (.ite (.vmwriteAll _) .pure) fun s' hs => ?_))
  rw [hs.ia32Emulation]

theorem miniVmxSetConstantHostState_writes (s : St) : WritesFrom s miniVmxSetConstantHostState := by
  refine .hostRegs (.bind (.vmwriteAll _) (.get ?_ fun s' hs => ?_))
  · have hrest : WritesFrom s (do
        vmwriteAll [(.hostIa32Efer, (s.hw.cpu s.cpu).host.efer)]
        miniVmxFixupHostForCpu
        vmwriteAll [(.hostFsBase, (s.hw.cpu s.cpu).host.fsBase),
          (.hostGsBase, (s.hw.cpu s.cpu).host.kernelmodeGsBase), (.hostRip, (s.hw.cpu s.cpu).host.vmexitAddress)]) :=
      .bind (.vmwriteAll _) (.bind (miniVmxFixupHostForCpu_writes s) (.vmwriteAll _))
    exact .ite (.bind (.vmwriteAll _) hrest) hrest
  · rw [hs.ia32Emulation]

theorem setupBody_writes (c : MiniVmcsControls) (s : St) : WritesFrom s (setupBody c) := by
  refine .get (.bind (.vmwriteAll _) (.bind (.vmwriteAll _) (miniVmxSetConstantHostState_writes s))) fun s' hs => ?_
  rw [hs.kvm]

theorem vmwriteAll_trace (l : List (VmcsField × BitVec 64)) (s : St) :
    ((vmwriteAll l).run s).2.trace.filterMap Event.write? = s.trace.filterMap Event.write? ++ l := by
  induction l generalizing s with
  | nil => exact (List.append_nil _).symm
  | cons x l ih =>
    have hx : ((miniVmwrite x.1 x.2).run s).2.trace = s.trace ++
        [.vmwrite s.cpu s.current s.vcpu.vmcsPhys x.1 x.2] := by
      rw [miniVmwrite_run]
    refine (ih ((miniVmwrite x.1 x.2).run s).2).trans ?_
    rw [hx, List.filterMap_append, List.append_assoc]
    rfl

/-- The VMWRITEs that the steps of a setup make are those of the body. -/
theorem setupWrites_eq {c : MiniVmcsControls} {s : St} {l : List (VmcsField × BitVec 64)}
    (h : ∀ s', SameHost s s' → (setupBody c).run s' = (vmwriteAll l).run s') {s' : St} (hs : SameHost s s') :
    setupWrites c s' = l := by
  unfold setupWrites
  rw [h { s' with trace := [] } ⟨hs.cpu, hs.host, hs.ia32Emulation, hs.kvm⟩, vmwriteAll_trace]
  rfl

/-! ### Steps -/

/-- The setup comes from one point to the other with nothing in between. -/
def SetupReach (page : Pfn) (o : SetupCall) : SetupPc × St → SetupPc × St → Prop :=
  Relation.ReflTransGen fun y y' => (setupStep page o y.1).run y.2 = y'

section Reach

variable {page : Pfn} {o : SetupCall} {pc : SetupPc} {s : St}

theorem SetupReach.head {y : SetupPc × St} (h : SetupReach page o ((setupStep page o pc).run s) y) :
    SetupReach page o (pc, s) y :=
  Relation.ReflTransGen.head rfl h

/-- The VMWRITEs from the number `k` on. -/
theorem setupReach_writes {c : MiniVmcsControls} {s₀ : St} {l : List (VmcsField × BitVec 64)}
    (h : ∀ s, SameHost s₀ s → (setupBody c).run s = (vmwriteAll l).run s) (n : Nat) :
    ∀ k s, k + n = l.length → SameHost s₀ s →
      SetupReach page o (.value c k, s) (.unload 0, ((vmwriteAll (l.drop k)).run s).2) := by
  induction n with
  | zero =>
    intro k s hk hs
    have hstep : (setupStep page o (.value c k)).run s = (.unload 0, s) := by
      unfold setupStep
      rw [run_bind, run_get]
      dsimp only
      rw [setupWrites_eq h hs, List.getElem?_eq_none (by omega)]
      rfl
    rw [List.drop_eq_nil_of_le (by omega)]
    apply SetupReach.head
    rw [hstep]
    exact .refl
  | succ n ih =>
    intro k s hk hs
    have hlt : k < l.length := by omega
    -- a value is computed in one step and written in the next
    have hvalue : (setupStep page o (.value c k)).run s = (.vmwrite c k l[k].1 l[k].2, s) := by
      unfold setupStep
      rw [run_bind, run_get]
      dsimp only
      rw [setupWrites_eq h hs, List.getElem?_eq_getElem hlt]
      rfl
    have hwrite : (setupStep page o (.vmwrite c k l[k].1 l[k].2)).run s =
        (.value c (k + 1), ((miniVmwrite l[k].1 l[k].2).run s).2) := rfl
    rw [List.drop_eq_getElem_cons hlt]
    apply SetupReach.head
    rw [hvalue]
    apply SetupReach.head
    rw [hwrite]
    exact ih (k + 1) _ (by omega) (hs.trans (miniVmwrite_sameHost _ _ s))

theorem setupReach_loaded : SetupReach page o (.recordCpu, s)
    (.returned ((vmxSetupLoaded page o).run s).1, ((vmxSetupLoaded page o).run s).2) := by
  have hrecord : (setupStep page o .recordCpu).run s = (.computeControls, s.recordCpu) := rfl
  apply SetupReach.head
  rw [hrecord]
  cases hc : miniComputeControls s.hw.trueCtls o.rdmsr with
  | error r =>
    have hr : r ≠ 0 := by
      rw [miniComputeControls_error hc]
      decide
    have hcompute : (setupStep page o .computeControls).run s.recordCpu = (.unload r, s.recordCpu) := by
      have hc' : miniComputeControls s.recordCpu.hw.trueCtls o.rdmsr = .error r := hc
      unfold setupStep
      rw [run_bind, run_get]
      dsimp only
      rw [hc']
      rfl
    have hunload : (setupStep page o (.unload r)).run s.recordCpu =
        (if r ≠ 0 then .freePage r else .returned 0, ((miniVmcsClear o.unloadOk).run s.recordCpu).2) := rfl
    apply SetupReach.head
    rw [hcompute, vmxSetupLoaded_error page hc]
    apply SetupReach.head
    rw [hunload, if_pos hr]
    apply SetupReach.head
    exact .refl
  | ok c =>
    have hcompute : (setupStep page o .computeControls).run s.recordCpu = (.value c 0, s.recordCpu) := by
      have hc' : miniComputeControls s.recordCpu.hw.trueCtls o.rdmsr = .ok c := hc
      unfold setupStep
      rw [run_bind, run_get]
      dsimp only
      rw [hc']
      rfl
    apply SetupReach.head
    rw [hcompute, vmxSetupLoaded_ok page hc]
    -- the three functions that fill the VMCS are one list of VMWRITEs
    obtain ⟨l, hl⟩ := setupBody_writes c s.recordCpu
    have hbody := hl s.recordCpu (.refl s.recordCpu)
    have hend : (do
        vmwriteAll (vmcsControlFields c s.kvm.ept.eptp)
        miniVmxSetGuestState
        miniVmxSetConstantHostState
        miniVmcsClear o.unloadOk
        return 0 : M Int).run s.recordCpu =
          (0, ((miniVmcsClear o.unloadOk).run ((setupBody c).run s.recordCpu).2).2) := by
      have heptp : s.recordCpu.kvm.ept.eptp = s.kvm.ept.eptp := rfl
      unfold setupBody
      rw [run_bind, run_bind, run_bind, run_bind, run_pure, run_bind, run_get, run_bind, run_bind, heptp]
    rw [hend]
    refine Relation.ReflTransGen.trans (setupReach_writes hl l.length 0 _ (by omega) (.refl _)) ?_
    rw [List.drop_zero, ← hbody]
    generalize ((setupBody c).run s.recordCpu).2 = s₁
    have hunload : (setupStep page o (.unload 0)).run s₁ =
        (if (0 : Int) ≠ 0 then .freePage 0 else .returned 0, ((miniVmcsClear o.unloadOk).run s₁).2) := rfl
    apply SetupReach.head
    rw [hunload, if_neg (by decide)]
    exact .refl

/-- With nothing in between, the steps of a setup lead to the result of `mini_vcpu_vmx_setup()`. -/
theorem setupStep_refines (hpage : o.page = some page) : SetupReach page o (.vmclear, ((vmxSetupPage page).run s).2)
    (.returned ((miniVcpuVmxSetup o).run s).1, ((miniVcpuVmxSetup o).run s).2) := by
  unfold miniVcpuVmxSetup
  rw [hpage]
  dsimp only
  rw [run_bind]
  generalize ((vmxSetupPage page).run s).2 = s₁
  have hclear : (setupStep page o .vmclear).run s₁ =
      (if ((miniVmclear (pageToPhys page) o.vmclearOk).run s₁).1 ≠ 0 then
          .freePage ((miniVmclear (pageToPhys page) o.vmclearOk).run s₁).1 else .vmptrld,
        ((miniVmclear (pageToPhys page) o.vmclearOk).run s₁).2) := rfl
  apply SetupReach.head
  rw [hclear, run_bind]
  generalize (miniVmclear (pageToPhys page) o.vmclearOk).run s₁ = y
  obtain ⟨r, s₂⟩ := y
  dsimp only
  by_cases hr : r ≠ 0
  · rw [if_pos hr, if_pos hr]
    apply SetupReach.head
    exact .refl
  rw [if_neg hr, if_neg hr]
  have hload : (setupStep page o .vmptrld).run s₂ =
      (if ((miniVmptrld (pageToPhys page) o.vmptrldOk).run s₂).1 ≠ 0 then
          .freePage ((miniVmptrld (pageToPhys page) o.vmptrldOk).run s₂).1 else .recordCpu,
        ((miniVmptrld (pageToPhys page) o.vmptrldOk).run s₂).2) := rfl
  apply SetupReach.head
  rw [hload, run_bind]
  generalize (miniVmptrld (pageToPhys page) o.vmptrldOk).run s₂ = y
  obtain ⟨r, s₃⟩ := y
  dsimp only
  by_cases hr : r ≠ 0
  · rw [if_pos hr, if_pos hr]
    apply SetupReach.head
    exact .refl
  rw [if_neg hr, if_neg hr]
  exact setupReach_loaded

end Reach

end MiniVirt.Kvm
