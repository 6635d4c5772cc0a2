import MiniVirt.Kvm.Spec.OpenVms
import MiniVirt.Kvm.Spec.Parts

/-!
# One INVEPT for each VMPTRLD is enough

The pages of an EPT are freed and used again while the CPUs still have translations under its EPTP in their
caches.  In `Machine.Inv` the cache of a CPU is right for every vCPU that is loaded there
(`ept_caches_coherent`): the VMCS of a vCPU gets loaded together with an INVEPT, from then on its tables only
grow, and no other VM touches them.  So a guest only uses translations of its own EPT
(`guest_cache_coherent`), which lead to pages that its own VM has pinned (`guest_memory_isolated`).
-/

namespace MiniVirt.Kvm

open Ledger

/-! ### A part of KVM_RUN -/

/-- At most one EPT violation is handled. -/
def EptMoves (slot : MiniKvmMemslot) (e e' : EptState) : Prop :=
  e' = e ∨ ∃ gpa : BitVec 64, gpa.toNat < 2 ^ 48 ∧ e' = (eptHandleViolation slot e gpa).1

/-- From `e` to `e'` the tables have grown. -/
structure EptGrows (slot : MiniKvmMemslot) (e e' : EptState) : Prop where
  inv : EptInv e'
  maps : e'.MapsSlot slot
  pinned : e'.MapsPinned slot
  kept : LeavesKept e e'
  inside : EptInv.Inside e e'
  eptp : e'.ept.eptp = e.ept.eptp

theorem EptMoves.grows {slot : MiniKvmMemslot} {e e' : EptState} (h : EptMoves slot e e') (hinv : EptInv e)
    (hslot : e.MapsSlot slot) (hpinned : e.MapsPinned slot) : EptGrows slot e e' := by
  rcases h with rfl | ⟨gpa, hgpa, rfl⟩
  · exact ⟨hinv, hslot, hpinned, fun _ _ _ _ => rfl, .refl _, rfl⟩
  · obtain ⟨hinv', hslot', hkept, heptp⟩ := hinv.violation_kept hslot hgpa
    exact ⟨hinv', hslot', hinv.violation_pinned hpinned gpa, hkept, hinv.violation_inside slot gpa, heptp⟩

theorem Custody.part {s s' : Kernel} {e : VmEntry} {rest : List VmEntry} {fd : Fd} {v : VcpuPtr} {new : List Pfn}
    {l : List (LedgerEvent Resource)} (h : Custody s (e :: rest)) (hv : e.vcpu = some (fd, v))
    (hdone : PartDone s s' v e.kvm new l) : Custody s' (e :: rest) := by
  have hmatches := h.structs e List.mem_cons_self
  have hvcpus : e.vcpus = [v] := by
    unfold VmEntry.vcpus
    rw [hv]
    rfl
  have hheld : ∀ s : Kernel, e.held s = ((s.vcpu v).resources v : Multiset Resource) +
      ((s.kvm e.kvm).resources e.kvm : Multiset Resource) := by
    intro s
    rw [VmEntry.held, hvcpus, add_comm]
    simp
  refine h.keep rfl hdone.moves ?_ hdone.files ⟨hmatches.live, ?_, ?_, ?_⟩ fun m => ?_
  · intro e' he' u hu heq
    obtain rfl := Option.some.inj heq
    exact (h.others e' he').2 u hu (by simp [hvcpus])
  · exact hdone.grows.refcount.trans hmatches.refcount
  · exact hdone.grows.vcpu.trans hmatches.vcpu
  · simpa [hvcpus] using hdone.owner
  · rw [hheld s, hheld s']
    exact hdone.runs m

/-- A descriptor is open once. -/
theorem Custody.lookup {s : Kernel} {es : List VmEntry} (h : Custody s es) {fd : Fd} {f : File}
    (hf : (fd, f) ∈ s.files) : s.files.lookup fd = some f := by
  obtain ⟨pre, post, hsplit⟩ := List.append_of_mem hf
  refine List.lookup_eq_some_iff.2 ⟨pre, post, hsplit, fun g hg => ?_⟩
  have hfds := h.fds
  rw [hsplit, List.map_append, List.map_cons, List.nodup_middle, List.nodup_cons] at hfds
  have hnew : fd ≠ g.1 := by
    intro heq
    exact hfds.1 (List.mem_append_left _ (List.mem_map.2 ⟨g, hg, heq.symm⟩))
  simpa using hnew

/-- What a part of KVM_RUN for the vCPU at `v` leaves. -/
structure PartEffect (s s' : Kernel) (v : VcpuPtr) (vcpu : MiniKvmVcpu) : Prop where
  vms : OpenVms s'
  walks : s.WalksKept s'
  live : s'.liveVcpus = s.liveVcpus
  others : ∀ u, u ≠ v → s'.vcpu u = s.vcpu u
  own : s'.vcpu v = { s.vcpu v with vcpu := vcpu }

/-- The program of a part changes the EPT and the VMCS as such a part does. -/
structure IsPart {α : Type} (m : M α) (s : St) : Prop where
  violation : Within violationFrame m
  keep : Within keepFrame m
  eptp : Within eptpFrame m
  moves : EptMoves s.kvm.slot s.eptState (m.run s).2.eptState
  phys : (m.run s).2.vcpu.vmcsPhys = s.vcpu.vmcsPhys
  page : (m.run s).2.vcpu.vmcsPage = s.vcpu.vmcsPage

theorem OpenVms.part {s : Kernel} (h : OpenVms s) {v : VcpuPtr} (hv : v ∈ s.liveVcpus) {cpu : CpuId}
    {allocs : List (Option Pfn)} (hfresh : s.FreshPages allocs.reduceOption) {α : Type} {m : M α}
    (hm : IsPart m (s.call cpu v allocs)) :
    PartEffect s ((onVcpu v cpu allocs m).run s).2 v (m.run (s.call cpu v allocs)).2.vcpu := by
  obtain ⟨es, hes⟩ := h.custody
  have hk := Kernel.owner_live hv
  have htabled := h.tabled _ hk
  have hnot : ∀ k ∈ s.liveVms, ∀ a ∈ allocs.reduceOption, a ∉ (s.kvm k).kvm.ept.pages := fun k hk a ha =>
    hes.not_table (hfresh.2 a ha) hk (h.tabled k hk).pml4
  -- the tables of the VM grow
  have hinv : EptInv (s.call cpu v allocs).eptState := htabled.inv.withAllocs hfresh.1 (hnot _ hk)
  have hgrows := hm.moves.grows hinv htabled.slot htabled.pinned
  obtain ⟨fd, hfile⟩ := Kernel.mem_liveVcpus.1 hv
  obtain ⟨e, rest, hcustody, hmem⟩ := hes.locate hfile
  have hvcpu := VmEntry.vcpu_mem_files.1 hmem
  have howner := (hcustody.structs e List.mem_cons_self).owner v (VmEntry.mem_vcpus.2 ⟨fd, hvcpu⟩)
  obtain ⟨new, l, hsub, hdone⟩ := onVcpu_done hm.violation hm.keep howner cpu allocs
  have hslot := (hm.violation (s.call cpu v allocs)).2.1
  have heptp := hm.eptp (s.call cpu v allocs)
  have hphys := hm.phys
  have hpage := hm.page
  have hown : ((onVcpu v cpu allocs m).run s).2.vcpu v =
      { s.vcpu v with vcpu := (m.run (s.call cpu v allocs)).2.vcpu } := Kernel.returned_vcpu ..
  have hobj : ((onVcpu v cpu allocs m).run s).2.kvm e.kvm =
      { s.kvm e.kvm with kvm := (m.run (s.call cpu v allocs)).2.kvm } := by
    rw [← howner]
    exact Kernel.returned_kvm ..
  have hhw : ((onVcpu v cpu allocs m).run s).2.hw = (m.run (s.call cpu v allocs)).2.hw := rfl
  generalize ((onVcpu v cpu allocs m).run s).2 = s' at hdone hown hobj hhw ⊢
  generalize (m.run (s.call cpu v allocs)).2 = st at hgrows hslot heptp hphys hpage hown hobj hhw ⊢
  rw [howner] at hk htabled
  have hothers : ∀ u, u ≠ v → s'.vcpu u = s.vcpu u := fun u hu => hdone.moves.vcpu u (by simpa using hu)
  have howners : ∀ u, (s'.vcpu u).kvm = (s.vcpu u).kvm := by
    intro u
    by_cases hu : u = v
    · rw [hu, hdone.owner, howner]
    · rw [hothers u hu]
  have hlive : s'.liveVcpus = s.liveVcpus := by
    unfold Kernel.liveVcpus
    rw [hdone.files]
  have hvms : s'.liveVms = s.liveVms := by
    unfold Kernel.liveVms Kernel.vmOf
    rw [hdone.files]
    simp only [howners]
  -- the tables of the other VMs stay
  have hpages : ∀ a ∈ (s'.kvm e.kvm).kvm.ept.pages,
      a ∈ (s.kvm e.kvm).kvm.ept.pages ∨ a ∈ allocs.reduceOption := by
    intro a ha
    unfold MiniKvmEpt.pages at ha ⊢
    rw [hdone.grows.pml4, hdone.grows.tracked, List.mem_cons, List.mem_append] at ha
    rw [List.mem_cons]
    rcases ha with hroot | htracked | hnew
    · exact .inl (.inl hroot)
    · exact .inl (.inr htracked)
    · exact .inr (hsub.subset hnew)
  have hmem : ∀ k ∈ s.liveVms, k ≠ e.kvm → ∀ a ∈ (s.kvm k).kvm.ept.pages, s'.hw.mem a = s.hw.mem a := by
    intro k hk' hne a ha
    rw [hhw]
    refine hgrows.inside.mem a fun ha' => ?_
    have hpages' := hpages a
    rw [hobj] at hpages'
    rcases hpages' ha' with hold | hnew
    · exact h.apart k hk' e.kvm hk hne a ha hold
    · exact hnot k hk' a hnew ha
  have htables : s'.tables e.kvm = { st.eptState with allocs := [] } := by
    unfold Kernel.tables
    rw [hobj, hhw]
    rfl
  have hroot : (s'.kvm e.kvm).kvm.ept.pml4 = (s.kvm e.kvm).kvm.ept.pml4 := hdone.grows.pml4
  have htabled' : ∀ k ∈ s.liveVms, s'.Tabled k := by
    intro k hk'
    by_cases hne : k = e.kvm
    · subst hne
      have hslot' : (s'.kvm e.kvm).kvm.slot = (s.kvm e.kvm).kvm.slot := hdone.grows.slot
      refine ⟨hdone.grows.hasPml4.trans htabled.pml4, ?_, ?_, ?_, ?_⟩
      · rw [htables]
        exact hgrows.inv.withAllocs List.nodup_nil (by simp)
      · rw [hdone.grows.eptp, hroot]
        exact htabled.eptp
      · rw [htables, hslot', ← howner]
        exact hgrows.maps
      · rw [htables, hslot', ← howner]
        exact hgrows.pinned
    · refine (h.tabled k hk').keep ?_ (hmem k hk' hne)
      rw [hdone.moves.kvm k hne]
      exact (KvmObj.Same.refl _).sameTables
  have hpointer : ∀ u, (s'.kvm (s.vcpu u).kvm).kvm.ept.eptp = s.eptpOf u := by
    intro u
    unfold Kernel.eptpOf
    by_cases hu : (s.vcpu u).kvm = e.kvm
    · rw [hu, hdone.grows.eptp]
    · rw [hdone.moves.kvm _ hu]
  have heptpOf : ∀ u, s'.eptpOf u = s.eptpOf u := by
    intro u
    rw [← hpointer u, Kernel.eptpOf, howners]
  have hvmcs : ∀ u, (s'.vcpu u).vcpu.vmcsPhys = (s.vcpu u).vcpu.vmcsPhys ∧
      (s'.vcpu u).vcpu.vmcsPage = (s.vcpu u).vcpu.vmcsPage := by
    intro u
    by_cases hu : u = v
    · rw [hu, hown]
      exact ⟨hphys, hpage⟩
    · rw [hothers u hu]
      exact ⟨rfl, rfl⟩
  refine ⟨⟨⟨_, hcustody.part hvcpu hdone⟩, ?_, ?_, ?_, ?_⟩,
    fun u hu _ => ⟨heptpOf u, fun gpa leaf hleaf => ?_⟩, hlive, hothers, hown⟩
  · rw [hvms]
    exact htabled'
  · rw [hvms]
    have happart : ∀ k ∈ s.liveVms, k ≠ e.kvm → ∀ a ∈ (s'.kvm e.kvm).kvm.ept.pages,
        a ∉ (s.kvm k).kvm.ept.pages := by
      intro k hk' hne a ha ha'
      rcases hpages a ha with hold | hnew
      · exact h.apart k hk' e.kvm hk hne a ha' hold
      · exact hnot k hk' a hnew ha'
    intro k hk' k' hk'' hne a ha ha'
    by_cases hke : k = e.kvm
    · subst hke
      rw [hdone.moves.kvm k' (Ne.symm hne)] at ha'
      exact happart k' hk'' (Ne.symm hne) a ha ha'
    · rw [hdone.moves.kvm k hke] at ha
      by_cases hke' : k' = e.kvm
      · subst hke'
        exact happart k hk' hke a ha' ha
      · rw [hdone.moves.kvm k' hke'] at ha'
        exact h.apart k hk' k' hk'' hne a ha ha'
  · rw [hlive]
    intro u hu
    rw [(hvmcs u).1, (hvmcs u).2]
    exact h.vmcs u hu
  · rw [hlive]
    intro u hu
    rw [(hvmcs u).1, heptpOf, ← h.pointer u hu, hhw]
    exact heptp _
  · have hku := Kernel.owner_live hu
    by_cases hke : (s.vcpu u).kvm = e.kvm
    · have hke' : (s.vcpu u).kvm = (s.vcpu v).kvm := hke.trans howner.symm
      have hbefore : pfnOf (s.call cpu v allocs).eptState.ept.eptp = (s.call cpu v allocs).eptState.ept.pml4 := by
        have hptr := htabled.eptp
        rw [← howner] at hptr
        exact hptr
      have hafter : pfnOf st.eptState.ept.eptp = st.eptState.ept.pml4 :=
        (congrArg pfnOf hgrows.eptp).trans (hbefore.trans hgrows.inside.pml4.symm)
      have hleaf' : hwWalk s.hw.mem (s.kvm (s.vcpu v).kvm).kvm.ept.eptp gpa = .leaf leaf := by
        rw [← hke']
        exact hleaf
      have hwalk := hinv.hwWalk_kept hgrows.inv hbefore hafter hgrows.kept hleaf'
      rw [hgrows.eptp] at hwalk
      unfold Kernel.eptpOf
      rw [hhw, hke']
      exact hwalk
    · have hwalk := (h.tabled _ hku).hwWalk_keep (htabled' _ hku) (by rw [hdone.moves.kvm _ hke])
        (hmem _ hku hke) gpa
      rw [hpointer] at hwalk
      exact hwalk.trans hleaf

/-! ### The three parts -/

theorem miniEptHandleViolation_eptp : Within eptpFrame miniEptHandleViolation := by
  intro s p
  unfold miniEptHandleViolation
  rw [run_bind, run_bind, run_get]
  dsimp only
  rw [run_bind, run_ite]
  split <;> rfl

theorem violationFrame_allowsLoop : AllowsLoop violationFrame :=
  violationFrame_allowsCall.allowsLoop (fun _ => modifyVcpu_violation fun _ => by rfl)
    miniEptHandleViolation_violation

theorem keepFrame_allowsLoop : AllowsLoop keepFrame :=
  keepFrame_allowsCall.allowsLoop (fun _ => modifyVcpu_keep _) miniEptHandleViolation_keep

theorem eptpFrame_allowsLoop : AllowsLoop eptpFrame :=
  eptpFrame_allowsCall.allowsLoop (fun _ _ _ => by rfl) miniEptHandleViolation_eptp

theorem runLoopEnter_vm : Within vmFrame runLoopEnter := by
  have hwork := vmFrame_allowsCall.allowsWork
  have htake : Within vmFrame miniVcpuTakeIntrInfo := fun _ => ⟨rfl, rfl⟩
  have hprepare : Within vmFrame runLoopPrepare :=
    hwork.miniVmxRefreshHostState_within.bind fun _ => htake.bind fun _ =>
      .ite (hwork.runLoopInject_within.bind fun _ => hwork.runLoopWrite_within _) (hwork.runLoopWrite_within _)
  exact hprepare.bind fun _ => vmFrame_allowsCall.recordEntry_within.bind fun _ => .pure _

theorem isPart_runHead (s : St) {o : RunCall} (ho : o.inveptOk = true) : IsPart (Session.runHead o) s where
  violation := violationFrame_allowsCall.runHead_within o
  keep := keepFrame_allowsCall.runHead_within o
  eptp := eptpFrame_allowsCall.runHead_within o
  moves := .inl (vmFrame_allowsCall.runHead_within o s).1
  phys := (runHead_loads s ho).phys
  page := (runHead_loads s ho).page

theorem isPart_runLoopEnter (s : St) : IsPart runLoopEnter s where
  violation := violationFrame_allowsLoop.runLoopEnter_within
  keep := keepFrame_allowsLoop.runLoopEnter_within
  eptp := eptpFrame_allowsLoop.runLoopEnter_within
  moves := .inl (runLoopEnter_vm s).1
  phys := (runLoopEnter_own s).1
  page := (runLoopEnter_own s).2.1

/-- The guest-physical address that an exit saves has at most 48 bits. -/
def EntryOutcome.Addressed (o : EntryOutcome) : Prop :=
  ∀ i, o = .exit i → (i.field .guestPhysicalAddress).toNat < 2 ^ 48

theorem isPart_runLoopExit (s : St) (gsShadow : BitVec 64) {o : EntryOutcome} (ho : o.Addressed) :
    IsPart (runLoopExit gsShadow o) s where
  violation := violationFrame_allowsLoop.runLoopExit_within gsShadow o
  keep := keepFrame_allowsLoop.runLoopExit_within gsShadow o
  eptp := eptpFrame_allowsLoop.runLoopExit_within gsShadow o
  moves := by
    rcases (runLoopExit_ept s gsShadow o).1 with hept | ⟨i, hi, -, hept⟩
    · exact .inl hept
    · exact .inr ⟨_, ho i hi, hept⟩
  phys := (runLoopExit_own gsShadow o s).1
  page := (runLoopExit_own gsShadow o s).2.1

/-! ### The caches -/

/-- The entries of a cache for `eptp` are translations under `eptp`. -/
def Coherent (mem : PageMem) (cache : List CacheEntry) (eptp : BitVec 64) : Prop :=
  ∀ t ∈ cache, t.eptp = eptp → hwWalk mem eptp t.gpa = .leaf t.leaf

theorem Coherent.mono {mem mem' : PageMem} {cache : List CacheEntry} {eptp : BitVec 64}
    (h : Coherent mem cache eptp)
    (hkept : ∀ gpa e, hwWalk mem eptp gpa = .leaf e → hwWalk mem' eptp gpa = .leaf e) :
    Coherent mem' cache eptp := fun t ht heptp => hkept _ _ (h t ht heptp)

/-- A translation that the hardware has just found. -/
theorem Coherent.fill {mem : PageMem} {cache : List CacheEntry} {eptp eptp' gpa e : BitVec 64}
    (h : Coherent mem cache eptp') (hleaf : hwWalk mem eptp gpa = .leaf e) :
    Coherent mem (⟨eptp, gpa, e⟩ :: cache) eptp' := by
  intro t ht heptp
  rcases List.mem_cons.1 ht with rfl | hold
  · rw [← heptp]
    exact hleaf
  · exact h t hold heptp

theorem Kernel.eptpOf_congr {s s' : Kernel} {v : VcpuPtr} (hwalks : s.WalksKept s') (hv : v ∈ s.liveVcpus)
    (hv' : v ∈ s'.liveVcpus) {cache : List CacheEntry} (h : Coherent s.hw.mem cache (s.eptpOf v)) :
    Coherent s'.hw.mem cache (s'.eptpOf v) := by
  obtain ⟨heptp, hkept⟩ := hwalks v hv hv'
  rw [heptp]
  exact h.mono hkept

/-- The CPU that a vCPU in KVM_RUN occupies. -/
def RunPhase.cpu : RunPhase → Option CpuId
  | .idle => none
  | .loop cpu => some cpu
  | .guest cpu _ _ => some cpu

theorem Machine.cpu_phaseAfter {cpu c : CpuId} {r : Option Int} (h : (phaseAfter cpu r).cpu = some c) :
    r = none ∧ c = cpu := by
  cases r with
  | none => exact ⟨rfl, (Option.some.inj h).symm⟩
  | some r => exact absurd h (by simp [phaseAfter, RunPhase.cpu])

theorem Machine.phaseAfter_ne_guest {cpu c : CpuId} {r : Option Int} {gsShadow eptp : BitVec 64} :
    phaseAfter cpu r ≠ .guest c gsShadow eptp := by
  cases r <;> simp [phaseAfter]

theorem Kernel.freshPages_nil (s : Kernel) : s.FreshPages (List.reduceOption []) := ⟨List.nodup_nil, by simp⟩

namespace Machine

/-- The cache of the CPU where a vCPU is loaded is right for the EPT of its VM, and a guest runs with that
EPT there. -/
structure Inv (x : Machine) : Prop where
  vms : OpenVms x.kernel
  busy : ∀ v, x.phase v ≠ .idle → v ∈ x.kernel.liveVcpus
  cached : ∀ v ∈ x.kernel.liveVcpus, ∀ c, (x.kernel.vcpu v).vcpu.loadedCpu = some c →
    Coherent x.kernel.hw.mem (x.cache c) (x.kernel.eptpOf v)
  loaded : ∀ v c, (x.phase v).cpu = some c → (x.kernel.vcpu v).vcpu.loadedCpu = some c
  guest : ∀ v c gsShadow eptp, x.phase v = .guest c gsShadow eptp → eptp = x.kernel.eptpOf v

/-- What the allocators, INVEPT and the hardware promise in a step, and that the VMCS entered is that of the
vCPU that is run. -/
def Allowed (x : Machine) : MachineOp → Prop
  | .life op => op.Fresh x.kernel ∧ x.kernel.FreshPages op.pages
  | .begin _ _ o => o.inveptOk = true
  | .enter v => ∀ cpu, x.phase v = .loop cpu →
    (x.kernel.hw.cpu cpu).current = some (x.kernel.vcpu v).vcpu.vmcsPhys
  | .fill .. => True
  | .exit _ allocs o => x.kernel.FreshPages allocs.reduceOption ∧ o.Addressed

variable {x : Machine}

/-- An ioctl or a close that is not about a vCPU in KVM_RUN. -/
theorem Inv.life (h : x.Inv) {op : LifeOp} (hrun : op.isRun = false) (hop : op.Fresh x.kernel)
    (hfresh : x.kernel.FreshPages op.pages) (hclose : ∀ fd, op.closes = some fd → x.running fd = false) :
    ({ x with kernel := x.kernel.step op } : Machine).Inv := by
  obtain ⟨es, hes⟩ := h.vms.custody
  have heffect := hes.life_effect hop hrun
  obtain ⟨hvms, hwalks⟩ := h.vms.life heffect hfresh (hes.step hop)
  -- the vCPUs that are run stay open
  have hbusy : ∀ v, x.phase v ≠ .idle → v ∈ (x.kernel.step op).liveVcpus := by
    intro v hphase
    obtain ⟨fd, hf⟩ := Kernel.mem_liveVcpus.1 (h.busy v hphase)
    refine Kernel.mem_liveVcpus.2 ⟨fd, heffect.files _ hf fun hclosing => ?_⟩
    have hidle := hclose fd hclosing.symm
    have hlookup : x.kernel.files.lookup fd = some (.vcpu v) := hes.lookup hf
    simp [running, hlookup, hphase] at hidle
  have hobj : ∀ v, x.phase v ≠ .idle → (x.kernel.step op).vcpu v = x.kernel.vcpu v := by
    intro v hphase
    rcases heffect.vcpu v (hbusy v hphase) with ⟨-, hsame⟩ | ⟨hnew, -⟩
    · exact hsame
    · exact absurd (h.busy v hphase) hnew
  refine ⟨hvms, hbusy, fun v hv c hc => ?_, fun v c hc => ?_, fun v c gsShadow eptp hphase => ?_⟩
  · rcases heffect.vcpu v hv with ⟨hlive, hsame⟩ | ⟨-, page, -, hvmx, -⟩
    · dsimp only at hc
      rw [hsame] at hc
      exact Kernel.eptpOf_congr hwalks hlive hv (h.cached v hlive c hc)
    · -- a new vCPU is not loaded anywhere
      have hnone : ((x.kernel.step op).vcpu v).vcpu.loadedCpu = none := congrArg VcpuVmx.loadedCpu hvmx
      rw [hnone] at hc
      exact absurd hc (by simp)
  · have hphase : x.phase v ≠ .idle := by
      intro hidle
      rw [hidle] at hc
      exact absurd hc (by simp [RunPhase.cpu])
    dsimp only
    rw [hobj v hphase]
    exact h.loaded v c hc
  · have hne : x.phase v ≠ .idle := by
      intro hidle
      exact absurd (hidle.symm.trans hphase) (by simp)
    rw [h.guest v c gsShadow eptp hphase]
    exact ((hwalks v (h.busy v hne) (hbusy v hne)).1).symm

/-- A part of KVM_RUN for the vCPU at `v`.  Where a vCPU has just been loaded the cache is empty. -/
theorem Inv.part (h : x.Inv) {v : VcpuPtr} (hv : v ∈ x.kernel.liveVcpus) {s' : Kernel} {vcpu : MiniKvmVcpu}
    (heffect : PartEffect x.kernel s' v vcpu) {phase : RunPhase} {cache : CpuId → List CacheEntry}
    (hcache : ∀ u c, (s'.vcpu u).vcpu.loadedCpu = some c →
      cache c = [] ∨ cache c = x.cache c ∧ (x.kernel.vcpu u).vcpu.loadedCpu = some c)
    (hloaded : ∀ c, phase.cpu = some c → vcpu.loadedCpu = some c)
    (hguest : ∀ c gsShadow eptp, phase = .guest c gsShadow eptp → eptp = s'.eptpOf v) :
    (⟨s', Function.update x.phase v phase, cache⟩ : Machine).Inv := by
  refine ⟨heffect.vms, fun u hu => ?_, fun u hu c hc => ?_, fun u c hc => ?_, fun u c gsShadow eptp hu => ?_⟩
  all_goals dsimp only at *
  · rw [heffect.live]
    by_cases huv : u = v
    · rw [huv]
      exact hv
    · rw [Function.update_of_ne huv] at hu
      exact h.busy u hu
  · -- an empty cache agrees with any EPT; another one belongs to a vCPU that stays where it is
    rcases hcache u c hc with hempty | ⟨hsame, hold⟩
    · rw [hempty]
      exact fun t ht => absurd ht List.not_mem_nil
    · have hlive := hu
      rw [heffect.live] at hlive
      rw [hsame]
      exact Kernel.eptpOf_congr heffect.walks hlive hu (h.cached u hlive c hold)
  · by_cases huv : u = v
    · rw [huv, Function.update_self] at hc
      rw [huv, heffect.own]
      exact hloaded c hc
    · rw [Function.update_of_ne huv] at hc
      rw [heffect.others u huv]
      exact h.loaded u c hc
  · by_cases huv : u = v
    · rw [huv, Function.update_self] at hu
      rw [huv]
      exact hguest c gsShadow eptp hu
    · rw [Function.update_of_ne huv] at hu
      -- the EPT of another VM is not touched
      have hlive := h.busy u fun hidle => absurd (hidle.symm.trans hu) (by simp)
      rw [h.guest u c gsShadow eptp hu]
      exact ((heffect.walks u hlive (heffect.live ▸ hlive)).1).symm

theorem Inv.begin (h : x.Inv) {v : VcpuPtr} (hv : v ∈ x.kernel.liveVcpus) (cpu : CpuId) {o : RunCall}
    (ho : o.inveptOk = true) :
    let y := (onVcpu v cpu [] (Session.runHead o)).run x.kernel
    (⟨y.2, Function.update x.phase v (phaseAfter cpu y.1),
      x.flushed ((Session.runHead o).run (x.kernel.call cpu v [])).2⟩ : Machine).Inv := by
  have hloads := runHead_loads (x.kernel.call cpu v []) ho
  have heffect := h.vms.part hv x.kernel.freshPages_nil (isPart_runHead (x.kernel.call cpu v []) ho)
  refine h.part hv heffect (fun u c hc => ?_) (fun c hc => ?_) fun c gsShadow eptp hphase =>
    absurd hphase phaseAfter_ne_guest
  · by_cases hflushed : c ∈ ((Session.runHead o).run (x.kernel.call cpu v [])).2.invepts
    · exact .inl (if_pos hflushed)
    · -- it was loaded there before
      refine .inr ⟨if_neg hflushed, ?_⟩
      by_cases huv : u = v
      · rw [huv, heffect.own] at hc
        rw [huv]
        exact (hloads.invept c hc).resolve_right hflushed
      · rwa [heffect.others u huv] at hc
  · obtain ⟨hnone, rfl⟩ := cpu_phaseAfter hc
    exact hloads.loaded hnone

theorem Inv.enter (h : x.Inv) {v : VcpuPtr} {cpu : CpuId} (hphase : x.phase v = .loop cpu)
    (hcurrent : (x.kernel.hw.cpu cpu).current = some (x.kernel.vcpu v).vcpu.vmcsPhys) :
    let y := (onVcpu v cpu [] runLoopEnter).run x.kernel
    (⟨y.2, Function.update x.phase v (.guest cpu y.1 ((y.2.call cpu v []).field .eptPointer)), x.cache⟩ :
      Machine).Inv := by
  have hv : v ∈ x.kernel.liveVcpus := h.busy v (by rw [hphase]; simp)
  have hown := runLoopEnter_own (x.kernel.call cpu v [])
  obtain ⟨l, -, hwork⟩ := runLoopEnter_effect (x.kernel.call cpu v [])
  have heffect := h.vms.part hv x.kernel.freshPages_nil (isPart_runLoopEnter (x.kernel.call cpu v []))
  have hloaded : (x.kernel.vcpu v).vcpu.loadedCpu = some cpu := h.loaded v cpu (by rw [hphase]; rfl)
  refine h.part hv heffect (fun u c hc => .inr ⟨rfl, ?_⟩) (fun c hc => ?_) fun c gsShadow eptp hguest => ?_
  · by_cases huv : u = v
    · rw [huv, heffect.own] at hc
      rw [huv]
      exact hown.2.2.symm.trans hc
    · rw [heffect.others u huv] at hc
      exact hc
  · obtain rfl := Option.some.inj hc
    exact hown.2.2.trans hloaded
  · -- the entry loads the EPTP of the current VMCS
    obtain ⟨-, -, rfl⟩ := RunPhase.guest.inj hguest
    have hlive := heffect.live ▸ hv
    have hcur : (((onVcpu v cpu [] runLoopEnter).run x.kernel).2.call cpu v []).current =
        some (((onVcpu v cpu [] runLoopEnter).run x.kernel).2.vcpu v).vcpu.vmcsPhys := by
      have hsame := congrFun (congrArg Vmx.current hwork.vmx) cpu
      refine (hsame.trans hcurrent).trans ?_
      rw [heffect.own]
      exact congrArg some hown.1.symm
    unfold St.field
    rw [hcur]
    exact heffect.vms.pointer v hlive

theorem Inv.fill (h : x.Inv) (cpu : CpuId) {eptp gpa e : BitVec 64}
    (hleaf : hwWalk x.kernel.hw.mem eptp gpa = .leaf e) :
    ({ x with cache := Function.update x.cache cpu (⟨eptp, gpa, e⟩ :: x.cache cpu) } : Machine).Inv := by
  refine ⟨h.vms, h.busy, fun v hv c hc => ?_, h.loaded, h.guest⟩
  have hold := h.cached v hv c hc
  by_cases hcpu : c = cpu
  · subst hcpu
    dsimp only
    rw [Function.update_self]
    exact hold.fill hleaf
  · dsimp only
    rw [Function.update_of_ne hcpu]
    exact hold

theorem Inv.exit (h : x.Inv) {v : VcpuPtr} {cpu : CpuId} {gsShadow eptp : BitVec 64}
    (hphase : x.phase v = .guest cpu gsShadow eptp) {allocs : List (Option Pfn)} {o : EntryOutcome}
    (hfresh : x.kernel.FreshPages allocs.reduceOption) (ho : o.Addressed) :
    let y := (onVcpu v cpu allocs (runLoopExit gsShadow o)).run x.kernel
    ({ x with kernel := y.2, phase := Function.update x.phase v (phaseAfter cpu y.1) } : Machine).Inv := by
  have hv : v ∈ x.kernel.liveVcpus := h.busy v (by rw [hphase]; simp)
  have hown := runLoopExit_own gsShadow o (x.kernel.call cpu v allocs)
  have heffect := h.vms.part hv hfresh (isPart_runLoopExit (x.kernel.call cpu v allocs) gsShadow ho)
  have hloaded : (x.kernel.vcpu v).vcpu.loadedCpu = some cpu := h.loaded v cpu (by rw [hphase]; rfl)
  refine h.part hv heffect (fun u c hc => .inr ⟨rfl, ?_⟩) (fun c hc => ?_) fun c gsShadow eptp hguest =>
    absurd hguest phaseAfter_ne_guest
  · by_cases huv : u = v
    · rw [huv, heffect.own] at hc
      rw [huv]
      exact hown.2.2.symm.trans hc
    · rw [heffect.others u huv] at hc
      exact hc
  · obtain ⟨-, rfl⟩ := cpu_phaseAfter hc
    exact hown.2.2.trans hloaded

theorem Inv.step (h : x.Inv) {op : MachineOp} (hop : x.Allowed op) : (x.step op).Inv := by
  cases op with
  | life op =>
    obtain ⟨hfresh, hpages⟩ := hop
    cases op with
    | run fd cpu allocs o => exact h
    | close fd cpu ok =>
      dsimp only [Machine.step]
      split
      · exact h
      · -- a file is closed only while its vCPU is not in KVM_RUN
        rename_i hidle
        refine h.life rfl hfresh hpages fun fd' hfd => ?_
        obtain rfl : fd = fd' := Option.some.inj hfd
        exact Bool.eq_false_iff.2 hidle
    | createVm o => exact h.life rfl hfresh hpages fun fd hfd => absurd hfd (by simp [LifeOp.closes])
    | setMemregion fd o => exact h.life rfl hfresh hpages fun fd hfd => absurd hfd (by simp [LifeOp.closes])
    | createVcpu fd o => exact h.life rfl hfresh hpages fun fd hfd => absurd hfd (by simp [LifeOp.closes])
  | begin fd cpu o =>
    dsimp only [Machine.step]
    split
    · rename_i v hlookup
      split
      · exact h.begin (Kernel.mem_liveVcpus.2 ⟨fd, mem_files_of_lookup hlookup⟩) cpu hop
      · exact h
    · exact h
  | enter v =>
    dsimp only [Machine.step]
    split
    · rename_i cpu hphase
      exact h.enter hphase (hop cpu hphase)
    · exact h
  | fill v gpa =>
    dsimp only [Machine.step]
    split
    · split
      · rename_i hleaf
        exact h.fill _ hleaf
      · exact h
    · exact h
  | exit v allocs o =>
    dsimp only [Machine.step]
    split
    · rename_i hphase
      exact h.exit hphase hop.1 hop.2
    · exact h

end Machine

/-! ### Every run of the machine -/

/-- `e` is the entry for a page of the memslot of the VM at `k`, and the page is pinned. -/
def Kernel.Grants (s : Kernel) (k : KvmPtr) (e : BitVec 64) : Prop :=
  (s.kvm k).kvm.slot.valid = true ∧ ∃ i < (s.kvm k).kvm.slot.npages.toNat,
    e = eptLeaf ((s.kvm k).kvm.slot.pages i) ∧
      gives s.ledger (.pin ((s.kvm k).kvm.slot.pages i)) < takes s.ledger (.pin ((s.kvm k).kvm.slot.pages i))

theorem KvmObj.pin_mem_slotResources {x : KvmObj} (hvalid : x.kvm.slot.valid = true) {i : Nat}
    (hi : i < x.kvm.slot.npages.toNat) : Resource.pin (x.kvm.slot.pages i) ∈ x.slotResources := by
  unfold KvmObj.slotResources pinnedPages
  rw [hvalid, if_pos rfl]
  apply List.mem_append_right
  apply List.mem_map_of_mem
  exact List.mem_map.2 ⟨i, List.mem_range.2 hi, rfl⟩

/-- The pages of a memslot are pinned as long as the VM is open. -/
theorem Custody.pinned {s : Kernel} {es : List VmEntry} (h : Custody s es) {k : KvmPtr} (hk : k ∈ s.liveVms)
    (hvalid : (s.kvm k).kvm.slot.valid = true) {i : Nat} (hi : i < (s.kvm k).kvm.slot.npages.toNat) :
    gives s.ledger (.pin ((s.kvm k).kvm.slot.pages i)) < takes s.ledger (.pin ((s.kvm k).kvm.slot.pages i)) := by
  obtain ⟨e, rest, hcustody, rfl⟩ := h.locateVm hk
  have hmem := KvmObj.pin_mem_slotResources hvalid hi
  by_contra hnot
  have hbalanced := hcustody.accounts.balanced (.pin ((s.kvm e.kvm).kvm.slot.pages i))
  have hequal : takes s.ledger (.pin ((s.kvm e.kvm).kvm.slot.pages i)) =
      gives s.ledger (.pin ((s.kvm e.kvm).kvm.slot.pages i)) := by omega
  refine hcustody.not_held hequal e List.mem_cons_self (Multiset.mem_add.2 (.inl (Multiset.mem_coe.2 ?_)))
  unfold KvmObj.resources
  apply List.mem_cons_of_mem
  apply List.mem_cons_of_mem
  exact List.mem_append_left _ hmem

/-- The tables of a guest's VM and what a CPU has cached from them lead to pages that this VM has pinned, and
the tables are no tables of another open VM. -/
structure Machine.Confined (x : Machine) (v : VcpuPtr) (c : CpuId) (eptp : BitVec 64) : Prop where
  walk : ∀ gpa e, hwWalk x.kernel.hw.mem eptp gpa = .leaf e → x.kernel.Grants (x.kernel.vcpu v).kvm e
  cached : ∀ t ∈ x.cache c, t.eptp = eptp → x.kernel.Grants (x.kernel.vcpu v).kvm t.leaf
  apart : ∀ k ∈ x.kernel.liveVms, k ≠ (x.kernel.vcpu v).kvm →
    ∀ a ∈ (x.kernel.kvm (x.kernel.vcpu v).kvm).kvm.ept.pages, a ∉ (x.kernel.kvm k).kvm.ept.pages

/-- What the CPU on which a vCPU is loaded has cached for the EPTP of its VM are translations of that EPT, and
a guest runs where its vCPU is loaded, with that EPTP. -/
structure Machine.CachesRight (x : Machine) : Prop where
  loaded : ∀ v ∈ x.kernel.liveVcpus, ∀ c, (x.kernel.vcpu v).vcpu.loadedCpu = some c →
    Coherent x.kernel.hw.mem (x.cache c) (x.kernel.eptpOf v)
  guest : ∀ v c gsShadow eptp, x.phase v = .guest c gsShadow eptp →
    v ∈ x.kernel.liveVcpus ∧ (x.kernel.vcpu v).vcpu.loadedCpu = some c ∧ eptp = x.kernel.eptpOf v

/-- The module after it has been loaded, with anything in the caches. -/
structure Machine.Booted (x : Machine) : Prop where
  files : x.kernel.files = []
  ledger : x.kernel.ledger = []
  idle : ∀ v, x.phase v = .idle

namespace Machine

variable {x : Machine} {ops : List MachineOp}

theorem Booted.inv (h : x.Booted) : x.Inv := by
  have hvms : x.kernel.liveVms = [] := by
    unfold Kernel.liveVms
    rw [h.files]
    rfl
  have hvcpus : x.kernel.liveVcpus = [] := by
    unfold Kernel.liveVcpus
    rw [h.files]
    rfl
  have hcustody : Custody x.kernel [] := by
    refine ⟨?_, ?_, List.nodup_nil, by simp, ?_⟩
    · rw [h.files]
      exact .nil
    · rw [h.files]
      exact List.nodup_nil
    · rw [h.ledger]
      rfl
  refine ⟨⟨⟨[], hcustody⟩, ?_, ?_, ?_, ?_⟩, fun v hv => absurd (h.idle v) hv, ?_, fun v c hc => ?_,
    fun v c gsShadow eptp hv => ?_⟩
  · simp [hvms]
  · simp [hvms]
  · simp [hvcpus]
  · simp [hvcpus]
  · simp [hvcpus]
  · rw [h.idle v] at hc
    exact absurd hc (by simp [RunPhase.cpu])
  · rw [h.idle v] at hv
    exact absurd hv (by simp)

theorem Booted.inv_run (h : x.Booted) (hallowed : AllSteps step Allowed x ops) : (runSteps step x ops).Inv :=
  AllSteps.inv (fun _ _ hinv hop => hinv.step hop) h.inv hallowed

theorem Inv.coherent (h : x.Inv) {v : VcpuPtr} {c : CpuId} {gsShadow eptp : BitVec 64}
    (hphase : x.phase v = .guest c gsShadow eptp) : Coherent x.kernel.hw.mem (x.cache c) eptp := by
  have hv : v ∈ x.kernel.liveVcpus := h.busy v (by rw [hphase]; simp)
  have hloaded : (x.kernel.vcpu v).vcpu.loadedCpu = some c := h.loaded v c (by rw [hphase]; rfl)
  rw [h.guest v c gsShadow eptp hphase]
  exact h.cached v hv c hloaded

end Machine

/-! ### A guest on a page that another VM has had -/

namespace Machine

/-- The module after it has been loaded; CPU 0 still has a translation of a VM that had its root at page 16. -/
def loaded : Machine where
  kernel := Kernel.loaded
  phase _ := .idle
  cache _ := [⟨pageToPhys 16 ||| vmxEptpMtWb ||| vmxEptpPwl4, 0, eptLeaf 99⟩]

/-- An EPT violation at address 0. -/
def violationExit : EntryOutcome :=
  .exit { reason := 48, field := fun _ => 0, regs := fun _ => 0, kernelGsBase := 0 }

/-- A VM gets its root at page 16, and its guest has its first page mapped and cached. -/
def oneGuest : List MachineOp :=
  [.life (.createVm ⟨some 1, some 16, .ok 3⟩),
    .life (.setMemregion 3 ⟨some ⟨0, 0, 0, 0x1000, 0x7000⟩, some 7, 1, fun _ => 32⟩),
    .life (.createVcpu 3 ⟨0, some 2, some 17, 0, World.setupCall 18, .ok 4, true⟩),
    .begin 4 0 World.haltRun, .enter 2, .exit 2 [some 20, some 21, some 22] violationExit, .enter 2, .fill 2 0]

theorem allowed_enter {x : Machine} {v : VcpuPtr} (cpu : CpuId) (hphase : x.phase v = .loop cpu)
    (hcurrent : (x.kernel.hw.cpu cpu).current = some (x.kernel.vcpu v).vcpu.vmcsPhys) : x.Allowed (.enter v) := by
  intro c hc
  rw [hphase] at hc
  obtain rfl := RunPhase.loop.inj hc
  exact hcurrent

theorem oneGuest_allowed : AllSteps step Allowed loaded oneGuest := by
  refine ⟨⟨⟨?_, ?_⟩, ⟨by decide, ?_⟩⟩, ⟨trivial, ⟨List.nodup_nil, by simp [LifeOp.pages]⟩⟩,
    ⟨⟨?_, ?_⟩, ⟨by decide, ?_⟩⟩, rfl, ?_, ⟨⟨by decide, ?_⟩, ?_⟩, ?_, trivial, trivial⟩
  · intro k hk
    obtain rfl := Option.some.inj hk
    decide +kernel
  · intro fd hfd
    obtain rfl := Except.ok.inj hfd
    decide +kernel
  · intro a ha
    obtain rfl : a = 16 := by simpa [LifeOp.pages] using ha
    decide +kernel
  · intro v hv
    obtain rfl := Option.some.inj hv
    decide +kernel
  · intro fd hfd
    obtain rfl := Except.ok.inj hfd
    decide +kernel
  · intro a ha
    have hcases : a = 17 ∨ a = 18 := by simpa [LifeOp.pages, World.setupCall] using ha
    rcases hcases with rfl | rfl <;> decide +kernel
  · exact allowed_enter 0 (by decide +kernel) (by decide +kernel)
  · intro a ha
    have hcases : a = 20 ∨ a = 21 ∨ a = 22 := by simpa [List.reduceOption] using ha
    rcases hcases with rfl | rfl | rfl <;> decide +kernel
  · intro i hi
    obtain rfl := EntryOutcome.exit.inj hi
    decide
  · exact allowed_enter 0 (by decide +kernel) (by decide +kernel)

theorem booted_loaded : loaded.Booted := ⟨rfl, rfl, fun _ => rfl⟩

theorem oneGuest_guest : (runSteps step loaded oneGuest).phase 2 =
    .guest 0 0 (pageToPhys 16 ||| vmxEptpMtWb ||| vmxEptpPwl4) := by
  decide +kernel

/-- The translation of the VM before is gone, and there is one of the page that is mapped now. -/
example : (runSteps step loaded oneGuest).cache 0 =
    [⟨pageToPhys 16 ||| vmxEptpMtWb ||| vmxEptpPwl4, 0, eptLeaf 32⟩] := by
  decide +kernel

end Machine

/-! ### The laws -/

/-- Whenever a guest runs on a CPU, what the CPU has cached for its EPTP are translations of the EPT as it is. -/
theorem guest_cache_coherent {x : Machine} {ops : List MachineOp} (hboot : x.Booted)
    (hallowed : AllSteps Machine.step Machine.Allowed x ops) {v : VcpuPtr} {c : CpuId} {gsShadow eptp : BitVec 64}
    (hguest : (runSteps Machine.step x ops).phase v = .guest c gsShadow eptp) :
    Coherent (runSteps Machine.step x ops).kernel.hw.mem ((runSteps Machine.step x ops).cache c) eptp :=
  (hboot.inv_run hallowed).coherent hguest

theorem guest_cache_coherent_oneGuest :
    Coherent (runSteps Machine.step Machine.loaded Machine.oneGuest).kernel.hw.mem
      ((runSteps Machine.step Machine.loaded Machine.oneGuest).cache 0)
      (pageToPhys 16 ||| vmxEptpMtWb ||| vmxEptpPwl4) :=
  guest_cache_coherent Machine.booted_loaded Machine.oneGuest_allowed Machine.oneGuest_guest

/-- The caches are right for every vCPU that is loaded, whether its guest runs or not. -/
theorem ept_caches_coherent {x : Machine} {ops : List MachineOp} (hboot : x.Booted)
    (hallowed : AllSteps Machine.step Machine.Allowed x ops) : (runSteps Machine.step x ops).CachesRight := by
  have hinv := hboot.inv_run hallowed
  refine ⟨hinv.cached, fun v c gsShadow eptp hguest => ⟨?_, ?_, hinv.guest v c gsShadow eptp hguest⟩⟩
  · exact hinv.busy v (by rw [hguest]; simp)
  · exact hinv.loaded v c (by rw [hguest]; rfl)

theorem ept_caches_coherent_oneGuest : (runSteps Machine.step Machine.loaded Machine.oneGuest).CachesRight :=
  ept_caches_coherent Machine.booted_loaded Machine.oneGuest_allowed

/-- Whenever a guest runs on a CPU, it reaches pages that its own VM has pinned, and no others. -/
theorem guest_memory_isolated {x : Machine} {ops : List MachineOp} (hboot : x.Booted)
    (hallowed : AllSteps Machine.step Machine.Allowed x ops) {v : VcpuPtr} {c : CpuId} {gsShadow eptp : BitVec 64}
    (hguest : (runSteps Machine.step x ops).phase v = .guest c gsShadow eptp) :
    (runSteps Machine.step x ops).Confined v c eptp := by
  have hinv := hboot.inv_run hallowed
  generalize runSteps Machine.step x ops = y at hguest hinv ⊢
  obtain ⟨es, hes⟩ := hinv.vms.custody
  have hv : v ∈ y.kernel.liveVcpus := hinv.busy v (by rw [hguest]; simp)
  have hk := Kernel.owner_live hv
  have hcoherent := hinv.coherent hguest
  rw [hinv.guest v c gsShadow eptp hguest] at hcoherent ⊢
  have hwalk : ∀ gpa e, hwWalk y.kernel.hw.mem (y.kernel.eptpOf v) gpa = .leaf e →
      y.kernel.Grants (y.kernel.vcpu v).kvm e := by
    intro gpa e hleaf
    obtain ⟨hvalid, i, hi, hentry⟩ := (hinv.vms.tabled _ hk).leaf_pinned hleaf
    exact ⟨hvalid, i, hi, hentry, hes.pinned hk hvalid hi⟩
  exact ⟨hwalk, fun t ht heptp => hwalk _ _ (hcoherent t ht heptp), fun k hk' hne a ha ha' =>
    hinv.vms.apart _ hk k hk' (Ne.symm hne) a ha ha'⟩

theorem guest_memory_isolated_oneGuest :
    (runSteps Machine.step Machine.loaded Machine.oneGuest).Confined 2 0
      (pageToPhys 16 ||| vmxEptpMtWb ||| vmxEptpPwl4) :=
  guest_memory_isolated Machine.booted_loaded Machine.oneGuest_allowed Machine.oneGuest_guest

end MiniVirt.Kvm
