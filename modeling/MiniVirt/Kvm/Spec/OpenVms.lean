import MiniVirt.Kvm.Spec.Custody
import MiniVirt.Kvm.Spec.Tables

/-!
# The tables of the open VMs

`OpenVms s` says that in `s` each open VM has tables of its own, in order below its EPTP, whose leaves are
pages that its memslot has pinned, and that the VMCS of each open vCPU has the EPTP of its VM.  An ioctl or
a close brings VMs and vCPUs in with pages that the allocator has just handed out and leaves the tables of
the others alone (`LifeEffect`), so it keeps this and every translation (`OpenVms.life`).
-/

namespace MiniVirt.Kvm

open Ledger

/-! ### The tables of one VM -/

/-- Every last-level entry is zero or maps one of the pages that the memslot has pinned. -/
def EptState.MapsPinned (s : EptState) (slot : MiniKvmMemslot) : Prop :=
  ∀ ⦃q : List (Fin 512)⦄, q.length = 3 → ∀ j, s.leafAt q j = 0 ∨ slot.valid = true ∧
    ∃ i < slot.npages.toNat, s.leafAt q j = eptLeaf (slot.pages i)

namespace EptInv

variable {s : EptState} {slot : MiniKvmMemslot}

/-- The index of an address in the memslot is in range. -/
theorem index_lt {gpa : BitVec 64} (hcov : slot.covers gpa = true) :
    ((gpa - slot.baseGpa) >>> 12).toNat < slot.npages.toNat := by
  unfold MiniKvmMemslot.covers at hcov
  simp only [Bool.and_eq_true, Bool.not_eq_true', decide_eq_false_iff_not] at hcov
  obtain ⟨⟨-, hlow⟩, hhigh⟩ := hcov
  rw [BitVec.not_lt] at hlow
  rw [BitVec.not_le] at hhigh
  rw [page_toNat]
  have hsize : (slot.npages <<< 12).toNat ≤ slot.npages.toNat * 4096 := by
    rw [BitVec.toNat_shiftLeft, Nat.shiftLeft_eq]
    exact Nat.mod_le _ _
  have hbelow : (gpa - slot.baseGpa).toNat < (slot.npages <<< 12).toNat := by
    generalize slot.npages <<< 12 = size at hhigh
    bv_omega
  omega

theorem violation_pinned (h : EptInv s) (hs : s.MapsPinned slot) (gpa : BitVec 64) :
    (eptHandleViolation slot s gpa).1.MapsPinned slot := by
  have hcall := h.eptHandleViolation_cases slot gpa
  generalize eptHandleViolation slot s gpa = x at hcall ⊢
  obtain ⟨s', r⟩ := x
  obtain ⟨-, -, -, ⟨-, hsame⟩ | ⟨-, hcov, hleaf⟩⟩ := hcall
  · intro q hq j
    rw [hsame.leafAt hq]
    exact hs hq j
  · have hvalid : slot.valid = true := by
      unfold MiniKvmMemslot.covers at hcov
      simp only [Bool.and_eq_true] at hcov
      exact hcov.1.1
    intro q hq j
    rw [hleaf hq]
    split
    · exact .inr ⟨hvalid, _, index_lt hcov, rfl⟩
    · exact hs hq j

end EptInv

/-- The tables of the VM at `k`, with no page to be allocated. -/
def Kernel.tables (s : Kernel) (k : KvmPtr) : EptState := ⟨s.hw.mem, (s.kvm k).kvm.ept, []⟩

/-- The tables of the VM at `k` are in order. -/
structure Kernel.Tabled (s : Kernel) (k : KvmPtr) : Prop where
  pml4 : (s.kvm k).hasPml4 = true
  inv : EptInv (s.tables k)
  eptp : pfnOf (s.kvm k).kvm.ept.eptp = (s.kvm k).kvm.ept.pml4
  slot : (s.tables k).MapsSlot (s.kvm k).kvm.slot
  pinned : (s.tables k).MapsPinned (s.kvm k).kvm.slot

/-- The EPTP of the VM that the vCPU at `v` belongs to. -/
def Kernel.eptpOf (s : Kernel) (v : VcpuPtr) : BitVec 64 := (s.kvm (s.vcpu v).kvm).kvm.ept.eptp

/-- The tables of the VM are the same, and a memslot that is there stays. -/
structure KvmObj.SameTables (x y : KvmObj) : Prop where
  ept : y.kvm.ept = x.kvm.ept
  hasPml4 : y.hasPml4 = x.hasPml4
  slot : y.kvm.slot = x.kvm.slot ∨ x.kvm.slot.valid = false

theorem KvmObj.Same.sameTables {x y : KvmObj} (h : x.Same y) : x.SameTables y := ⟨h.ept, h.hasPml4, .inl h.slot⟩

/-- A VM without a memslot has no leaves. -/
theorem EptState.MapsSlot.of_invalid {s : EptState} {slot : MiniKvmMemslot} (h : s.MapsSlot slot)
    (hvalid : slot.valid = false) : ∀ ⦃q : List (Fin 512)⦄, q.length = 3 → ∀ j, s.leafAt q j = 0 := by
  intro q hq j
  rcases h hq j with hzero | ⟨htrue, -⟩
  · exact hzero
  · rw [hvalid] at htrue
    exact absurd htrue (by simp)

namespace Kernel.Tabled

variable {s s' : Kernel} {k : KvmPtr}

/-- Tables whose pages are left alone. -/
theorem keep (h : s.Tabled k) (hobj : (s.kvm k).SameTables (s'.kvm k))
    (hmem : ∀ a ∈ (s.kvm k).kvm.ept.pages, s'.hw.mem a = s.hw.mem a) : s'.Tabled k := by
  have htables : s'.tables k = { s.tables k with mem := s'.hw.mem } := by
    unfold Kernel.tables
    rw [hobj.ept]
  have hleaf : ∀ ⦃q : List (Fin 512)⦄, q.length = 3 → ∀ j, (s'.tables k).leafAt q j = (s.tables k).leafAt q j := by
    intro q hq j
    rw [htables]
    exact h.inv.leafAt_congr hmem hq j
  refine ⟨hobj.hasPml4.trans h.pml4, ?_, ?_, ?_, ?_⟩
  · rw [htables]
    exact h.inv.congr hmem
  · rw [hobj.ept]
    exact h.eptp
  all_goals
    intro q hq j
    rw [hleaf hq]
    rcases hobj.slot with hslot | hinvalid
    · rw [hslot]
      first | exact h.slot hq j | exact h.pinned hq j
    · exact .inl (h.slot.of_invalid hinvalid hq j)

/-- What the hardware finds in them is the same. -/
theorem hwWalk_keep (h : s.Tabled k) (h' : s'.Tabled k) (hept : (s'.kvm k).kvm.ept = (s.kvm k).kvm.ept)
    (hmem : ∀ a ∈ (s.kvm k).kvm.ept.pages, s'.hw.mem a = s.hw.mem a) (gpa : BitVec 64) :
    hwWalk s'.hw.mem (s'.kvm k).kvm.ept.eptp gpa = hwWalk s.hw.mem (s.kvm k).kvm.ept.eptp gpa := by
  have htables : s'.tables k = { s.tables k with mem := s'.hw.mem } := by
    unfold Kernel.tables
    rw [hept]
  have hwalk := h'.inv.hwWalk_eq h'.eptp gpa
  rw [htables, h.inv.leafAt_congr hmem (by rfl), ← h.inv.hwWalk_eq h.eptp] at hwalk
  have hptr : (s'.kvm k).kvm.ept.eptp = (s.kvm k).kvm.ept.eptp := congrArg MiniKvmEpt.eptp hept
  rw [hptr]
  exact hwalk

/-- A leaf that the hardware finds maps a page that is pinned. -/
theorem leaf_pinned (h : s.Tabled k) {gpa e : BitVec 64}
    (hleaf : hwWalk s.hw.mem (s.kvm k).kvm.ept.eptp gpa = .leaf e) :
    (s.kvm k).kvm.slot.valid = true ∧
      ∃ i < (s.kvm k).kvm.slot.npages.toNat, e = eptLeaf ((s.kvm k).kvm.slot.pages i) := by
  have hwalk := h.inv.hwWalk_eq h.eptp gpa
  have hleaf' : hwWalk (s.tables k).mem (s.tables k).ept.eptp gpa = .leaf e := hleaf
  rw [hleaf'] at hwalk
  rcases h.pinned (q := eptPath gpa) rfl (eptIndex gpa 12) with hzero | ⟨hvalid, i, hi, hentry⟩
  · have hnone : eptDecode 0 = .notPresent := by decide
    rw [hzero, hnone] at hwalk
    exact absurd hwalk (by simp)
  · rw [hentry, eptDecode_eptLeaf] at hwalk
    exact ⟨hvalid, i, hi, EptWalk.leaf.inj hwalk⟩

end Kernel.Tabled

/-- A VM whose root is empty. -/
theorem Kernel.tabled_of_fresh {s : Kernel} {k : KvmPtr} {page : Pfn} (hmem : ∀ i, s.hw.mem page i = 0)
    (hobj : s.kvm k = KvmObj.fresh.eptReady ⟨page, pageToPhys page ||| vmxEptpMtWb ||| vmxEptpPwl4, []⟩) :
    s.Tabled k := by
  have hzeroed : s.hw.mem.zeroPage page = s.hw.mem := by
    unfold PageMem.zeroPage RadixTable.fillPage
    rw [Function.update_eq_self_iff]
    funext i
    exact (hmem i).symm
  have htables : s.tables k = ⟨s.hw.mem.zeroPage page,
      ⟨page, pageToPhys page ||| vmxEptpMtWb ||| vmxEptpPwl4, []⟩, []⟩ := by
    unfold Kernel.tables
    rw [hobj, hzeroed]
    rfl
  have hleaf : ∀ ⦃q : List (Fin 512)⦄, q.length = 3 → ∀ j, (s.tables k).leafAt q j = 0 := by
    intro q hq j
    rw [htables]
    cases q with
    | nil => simp at hq
    | cons i q =>
      have hnone : EptState.walk ⟨s.hw.mem.zeroPage page,
          ⟨page, pageToPhys page ||| vmxEptpMtWb ||| vmxEptpPwl4, []⟩, []⟩ (i :: q) = none := by
        have hentry : s.hw.mem.zeroPage page page i = 0 := RadixTable.fillPage_self
        rw [EptState.walk, RadixTable.walk_cons]
        dsimp only
        rw [hentry, eptChild_zero, Option.bind_none]
      rw [EptState.leafAt, hnone, Option.elim_none]
  refine ⟨by rw [hobj]; rfl, ?_, ?_, fun q hq j => .inl (hleaf hq j), fun q hq j => .inl (hleaf hq j)⟩
  · rw [htables]
    exact EptInv.init _ _ _ _ (by simp)
  · rw [hobj]
    have heptp : pfnOf (pageToPhys page ||| vmxEptpMtWb ||| vmxEptpPwl4) = page := by
      rw [BitVec.or_assoc]
      exact pfnOf_or page (by decide)
    exact heptp

/-! ### What a call leaves alone -/

/-- As tables only the pages `new` change, and only the VMCSs at these pages get another EPT pointer. -/
def tablesFrame (new : List Pfn) : Guarantee Kernel where
  rel s s' := (∀ a, a ∉ new → s'.hw.mem a = s.hw.mem a) ∧
    ∀ q, (∀ page ∈ new, q ≠ pageToPhys page) →
      (s'.hw.vmcs q).field .eptPointer = (s.hw.vmcs q).field .eptPointer
  refl _ := ⟨fun _ _ => rfl, fun _ _ => rfl⟩
  trans h₁ h₂ := ⟨fun a ha => (h₂.1 a ha).trans (h₁.1 a ha), fun q hq => (h₂.2 q hq).trans (h₁.2 q hq)⟩

section Frame

variable {α : Type} {new : List Pfn}

theorem tables_of_hw {m : K α} (h : ∀ s, (m.run s).2.hw = s.hw) : Within (tablesFrame new) m := by
  intro s
  refine ⟨fun a _ => ?_, fun q _ => ?_⟩ <;> rw [h]

theorem record_tables (l : List (LedgerEvent Resource)) : Within (tablesFrame new) (record l) :=
  tables_of_hw fun _ => rfl

theorem touch_tables (r : Resource) : Within (tablesFrame new) (touch r) := record_tables _

theorem take_tables (r : Resource) : Within (tablesFrame new) (take r) := record_tables _

theorem give_tables (r : Resource) : Within (tablesFrame new) (give r) := record_tables _

theorem modifyKvm_tables (k : KvmPtr) (f : KvmObj → KvmObj) : Within (tablesFrame new) (modifyKvm k f) :=
  tables_of_hw fun _ => rfl

theorem modifyVcpuObj_tables (v : VcpuPtr) (f : VcpuObj → VcpuObj) :
    Within (tablesFrame new) (modifyVcpuObj v f) := tables_of_hw fun _ => rfl

theorem kvmEptDestroy_tables (k : KvmPtr) : Within (tablesFrame new) (kvmEptDestroy k) :=
  tables_of_hw fun s => by rw [kvmEptDestroy_run]; rfl

theorem miniKvmPut_tables (k : KvmPtr) : Within (tablesFrame new) (miniKvmPut k) := by
  refine tables_of_hw fun s => ?_
  rw [miniKvmPut_run]
  split <;> rfl

theorem kvmEptInit_tables (k : KvmPtr) {pml4 : Option Pfn} (hnew : ∀ page, pml4 = some page → page ∈ new) :
    Within (tablesFrame new) (kvmEptInit k pml4) := by
  intro s
  rw [kvmEptInit_run]
  cases pml4 with
  | none => exact (tablesFrame new).refl s
  | some page =>
    refine ⟨fun a ha => ?_, fun _ _ => rfl⟩
    have hne : a ≠ page := by
      rintro rfl
      exact ha (hnew a rfl)
    exact RadixTable.fillPage_of_ne hne

theorem onVcpu_tables {m : M α} (hvm : Within vmFrame m) (heptp : Within eptpFrame m) (v : VcpuPtr)
    (cpu : CpuId) : Within (tablesFrame new) (onVcpu v cpu [] m) := by
  intro s
  rw [onVcpu_run]
  have hmem := congrArg EptState.mem (hvm (s.call cpu v [])).1
  exact ⟨fun a _ => congrFun hmem a, fun q _ => heptp (s.call cpu v []) q⟩

theorem vcpuVmxTeardown_tables (v : VcpuPtr) (cpu : CpuId) (ok : Bool) :
    Within (tablesFrame new) (vcpuVmxTeardown v cpu ok) :=
  (touch_tables _).bind fun _ => Within.get.bind fun _ => (record_tables _).bind fun _ =>
    onVcpu_tables (miniVcpuVmxTeardown_vm ok) (miniVcpuVmxTeardown_eptp ok) v cpu

theorem vcpuVmxSetup_tables (v : VcpuPtr) (cpu : CpuId) {o : SetupCall}
    (hnew : ∀ page, o.page = some page → page ∈ new) : Within (tablesFrame new) (vcpuVmxSetup v cpu o) := by
  refine (touch_tables _).bind fun _ => Within.get.bind fun _ => (touch_tables _).bind fun _ =>
    (record_tables _).bind fun _ => ?_
  intro s
  rw [onVcpu_run]
  have hmem := congrArg EptState.mem (miniVcpuVmxSetup_vm o (s.call cpu v [])).1
  refine ⟨fun a _ => congrFun hmem a, fun q hq => ?_⟩
  exact (miniVcpuVmxSetup_eptp (s.call cpu v []) o).1 q fun page hpage => hq page (hnew page hpage)

theorem freeVcpu_tables (v : VcpuPtr) : Within (tablesFrame new) (freeVcpu v) :=
  (touch_tables _).bind fun _ => Within.get.bind fun _ => (record_tables _).bind fun _ => give_tables _

theorem publishVcpu_tables (k : KvmPtr) (v : VcpuPtr) (fd : Except Int Fd) :
    Within (tablesFrame new) (publishVcpu k v fd) := by
  refine (tables_of_hw fun _ => rfl).bind fun _ => (touch_tables _).bind fun _ => Within.get.bind fun _ => ?_
  refine .ite ((miniKvmPut_tables k).bind fun _ => .pure _) ((modifyKvm_tables k _).bind fun _ => ?_)
  cases fd with
  | error r =>
    exact (touch_tables _).bind fun _ => (modifyKvm_tables k _).bind fun _ =>
      (miniKvmPut_tables k).bind fun _ => .pure _
  | ok fd => exact (tables_of_hw fun _ => rfl).bind fun _ => .pure _

theorem miniKvmCreateVcpu_tables (k : KvmPtr) {o : CreateVcpuCall}
    (hnew : ∀ page, o.setup.page = some page → page ∈ new) :
    Within (tablesFrame new) (miniKvmCreateVcpu k o) := by
  unfold miniKvmCreateVcpu
  refine .ite (.pure _) ((touch_tables _).bind fun _ => Within.get.bind fun _ => .ite (.pure _) ?_)
  cases o.vcpu with
  | none => exact .pure _
  | some v =>
    refine (take_tables _).bind fun _ => (modifyVcpuObj_tables v _).bind fun _ => ?_
    cases o.runPage with
    | none => exact (give_tables _).bind fun _ => .pure _
    | some page =>
      refine (take_tables _).bind fun _ => (modifyVcpuObj_tables v _).bind fun _ =>
        (vcpuVmxSetup_tables v o.cpu hnew).bind fun r => .ite ((freeVcpu_tables v).bind fun _ => .pure _) ?_
      refine (publishVcpu_tables k v o.fd).bind fun x => ?_
      cases x with
      | error r =>
        exact (vcpuVmxTeardown_tables v o.cpu o.teardownOk).bind fun _ => (freeVcpu_tables v).bind fun _ => .pure _
      | ok fd => exact .pure _

theorem miniVcpuRelease_tables (v : VcpuPtr) (cpu : CpuId) (ok : Bool) :
    Within (tablesFrame new) (miniVcpuRelease v cpu ok) :=
  (touch_tables _).bind fun _ => Within.get.bind fun _ => (touch_tables _).bind fun _ =>
    (modifyKvm_tables _ _).bind fun _ => (vcpuVmxTeardown_tables v cpu ok).bind fun _ =>
      (freeVcpu_tables v).bind fun _ => miniKvmPut_tables _

theorem miniKvmCreateVm_tables {o : CreateVmCall} (hnew : ∀ page, o.pml4 = some page → page ∈ new) :
    Within (tablesFrame new) (miniKvmCreateVm o) := by
  unfold miniKvmCreateVm
  cases o.kvm with
  | none => exact .pure _
  | some k =>
    refine (take_tables _).bind fun _ => (modifyKvm_tables k _).bind fun _ =>
      (kvmEptInit_tables k hnew).bind fun r => .ite ((give_tables _).bind fun _ => .pure _) ?_
    cases o.fd with
    | error r => exact (kvmEptDestroy_tables k).bind fun _ => (give_tables _).bind fun _ => .pure _
    | ok fd => exact (tables_of_hw fun _ => rfl).bind fun _ => (take_tables _).bind fun _ => .pure _

theorem miniKvmSetMemregion_tables (k : KvmPtr) (o : MemregionCall) :
    Within (tablesFrame new) (miniKvmSetMemregion k o) := by
  refine tables_of_hw fun s => ?_
  rcases miniKvmSetMemregion_spec k o s with ⟨l, hs', -⟩ | ⟨-, l, slot, a, -, hs', -⟩ <;> rw [hs'] <;> rfl

end Frame

/-! ### Open VMs and vCPUs -/

section Open

variable {s s' : Kernel} {es rest : List VmEntry} {e : VmEntry} {k : KvmPtr} {v : VcpuPtr}

theorem Kernel.mem_liveVms : k ∈ s.liveVms ↔ ∃ f ∈ s.files, s.vmOf f.2 = k := by
  unfold Kernel.liveVms
  rw [List.mem_dedup, List.mem_map]

theorem Kernel.mem_liveVcpus : v ∈ s.liveVcpus ↔ ∃ fd, (fd, File.vcpu v) ∈ s.files := by
  unfold Kernel.liveVcpus
  rw [List.mem_filterMap]
  constructor
  · rintro ⟨⟨fd, k | u⟩, hf, hv⟩
    · exact absurd hv (by simp [File.vcpuPtr])
    · obtain rfl : u = v := Option.some.inj hv
      exact ⟨fd, hf⟩
  · rintro ⟨fd, hf⟩
    exact ⟨_, hf, rfl⟩

theorem Kernel.owner_live (hv : v ∈ s.liveVcpus) : (s.vcpu v).kvm ∈ s.liveVms := by
  obtain ⟨fd, hf⟩ := Kernel.mem_liveVcpus.1 hv
  exact Kernel.mem_liveVms.2 ⟨_, hf, rfl⟩

namespace Custody

/-- A new struct is not that of an open VM. -/
theorem not_liveVms (h : Custody s es) (hk : takes s.ledger (.kvm k) = gives s.ledger (.kvm k)) : k ∉ s.liveVms := by
  intro hlive
  obtain ⟨e, he, rfl⟩ := List.mem_map.1 (h.liveVms_perm.mem_iff.1 hlive)
  exact h.not_held hk e he (e.kvm_mem_held s)

theorem not_liveVcpus (h : Custody s es) (hv : takes s.ledger (.vcpu v) = gives s.ledger (.vcpu v)) :
    v ∉ s.liveVcpus := by
  intro hlive
  obtain ⟨e, he, hmem⟩ := List.mem_flatMap.1 (h.liveVcpus_perm.mem_iff.1 hlive)
  exact h.not_held hv e he (e.vcpu_mem_held s hmem)

/-- A page that is not in use is no table of an open VM. -/
theorem not_table (h : Custody s es) {a : Pfn} (ha : takes s.ledger (.page a) = gives s.ledger (.page a))
    (hk : k ∈ s.liveVms) (hpml4 : (s.kvm k).hasPml4 = true) : a ∉ (s.kvm k).kvm.ept.pages := by
  intro hmem
  obtain ⟨e, he, rfl⟩ := List.mem_map.1 (h.liveVms_perm.mem_iff.1 hk)
  refine h.not_held ha e he (Multiset.mem_add.2 (.inl (Multiset.mem_coe.2 ?_)))
  have hpages : a ∈ (s.kvm e.kvm).pages := by
    unfold KvmObj.pages miniEptDestroy
    rw [hpml4, if_pos rfl, List.mem_append, List.mem_singleton]
    rcases List.mem_cons.1 hmem with rfl | htracked
    · exact .inr rfl
    · exact .inl htracked
  unfold KvmObj.resources
  apply List.mem_cons_of_mem
  apply List.mem_cons_of_mem
  apply List.mem_append_right
  exact List.mem_map_of_mem hpages

/-- A page that is not in use is no VMCS of an open vCPU. -/
theorem not_vmcs (h : Custody s es) {a : Pfn} (ha : takes s.ledger (.page a) = gives s.ledger (.page a))
    (hv : v ∈ s.liveVcpus) : (s.vcpu v).vcpu.vmcsPage ≠ some a := by
  intro hpage
  obtain ⟨e, he, hmem⟩ := List.mem_flatMap.1 (h.liveVcpus_perm.mem_iff.1 hv)
  refine h.not_held ha e he (Multiset.mem_add.2 (.inr ?_))
  obtain ⟨fd, hfd⟩ := VmEntry.mem_vcpus.1 hmem
  simp [VmEntry.vcpus, hfd, VcpuObj.resources, hpage]

/-- Once the last reference is dropped, no other file is about the VM. -/
theorem last_file (h : Custody s (e :: rest)) {fd : Fd} {f : File} (hf : (fd, f) ∈ e.files)
    (hlast : (s.kvm e.kvm).refcount - 1 = 0) : ∀ g ∈ s.files, g.1 ≠ fd → s.vmOf g.2 ≠ e.kvm := by
  intro g hg hne howner
  obtain ⟨e', he', hmem⟩ := List.mem_flatMap.1 (h.files.mem_iff.1 hg)
  have hk := vmOf_eq (h.structs e' he') hmem
  rcases List.mem_cons.1 he' with rfl | hrest
  · -- two files of one entry
    have hone : e'.files.length ≤ 1 := by
      rw [← (h.structs e' List.mem_cons_self).refcount]
      omega
    obtain ⟨x, hx⟩ := List.length_eq_one_iff.1 (Nat.le_antisymm hone (List.length_pos_of_mem hf))
    rw [hx, List.mem_singleton] at hf hmem
    exact hne (by rw [hmem, ← hf])
  · exact (h.others e' hrest).1 (hk.symm.trans howner)

/-- A vCPU has one file. -/
theorem vcpu_file (h : Custody s (e :: rest)) {fd : Fd} (hfd : e.vcpu = some (fd, v)) {fd' : Fd}
    (hf : (fd', File.vcpu v) ∈ s.files) : fd' = fd := by
  obtain ⟨e', he', hmem⟩ := List.mem_flatMap.1 (h.files.mem_iff.1 hf)
  have hvcpu := VmEntry.vcpu_mem_files.1 hmem
  rcases List.mem_cons.1 he' with rfl | hrest
  · rw [hfd] at hvcpu
    exact (Prod.mk.inj (Option.some.inj hvcpu)).1.symm
  · exact absurd (VmEntry.mem_vcpus.2 ⟨fd, hfd⟩) ((h.others e' hrest).2 v (VmEntry.mem_vcpus.2 ⟨fd', hvcpu⟩))

end Custody

/-! ### What an ioctl or a close does -/

/-- From `s` to `s'` VMs and vCPUs come in with the pages `new`, and the others keep their tables; the files
stay open but for that at `closing`. -/
structure LifeEffect (s s' : Kernel) (new : List Pfn) (closing : Option Fd) : Prop where
  tables : (tablesFrame new).rel s s'
  files : ∀ f ∈ s.files, some f.1 ≠ closing → f ∈ s'.files
  vm : ∀ k ∈ s'.liveVms, k ∈ s.liveVms ∧ (s.kvm k).SameTables (s'.kvm k) ∨
    k ∉ s.liveVms ∧ ∃ page ∈ new, (∀ i, s'.hw.mem page i = 0) ∧
      s'.kvm k = KvmObj.fresh.eptReady ⟨page, pageToPhys page ||| vmxEptpMtWb ||| vmxEptpPwl4, []⟩
  single : ∀ k ∈ s'.liveVms, ∀ k' ∈ s'.liveVms, k ∉ s.liveVms → k' ∉ s.liveVms → k = k'
  vcpu : ∀ v ∈ s'.liveVcpus, v ∈ s.liveVcpus ∧ s'.vcpu v = s.vcpu v ∨
    v ∉ s.liveVcpus ∧ ∃ page ∈ new, (s'.vcpu v).vcpu.vmx = ⟨some page, pageToPhys page, false, none⟩ ∧
      (s'.hw.vmcs (pageToPhys page)).field .eptPointer = s'.eptpOf v

/-- No file is opened. -/
theorem LifeEffect.of_files {new : List Pfn} {closing : Option Fd} (htables : (tablesFrame new).rel s s')
    (hfiles : ∀ f ∈ s.files, some f.1 ≠ closing → f ∈ s'.files) (hsub : ∀ f ∈ s'.files, f ∈ s.files)
    (hvcpu : ∀ v ∈ s'.liveVcpus, s'.vcpu v = s.vcpu v)
    (hkvm : ∀ k ∈ s'.liveVms, k ∈ s.liveVms → (s.kvm k).SameTables (s'.kvm k)) : LifeEffect s s' new closing := by
  have hlive : ∀ k ∈ s'.liveVms, k ∈ s.liveVms := by
    intro k hk
    obtain ⟨⟨fd, k' | v⟩, hf, howner⟩ := Kernel.mem_liveVms.1 hk
    · exact Kernel.mem_liveVms.2 ⟨_, hsub _ hf, howner⟩
    · have howner' : (s'.vcpu v).kvm = k := howner
      rw [hvcpu v (Kernel.mem_liveVcpus.2 ⟨fd, hf⟩)] at howner'
      exact Kernel.mem_liveVms.2 ⟨_, hsub _ hf, howner'⟩
  refine ⟨htables, hfiles, fun k hk => .inl ⟨hlive k hk, hkvm k hk (hlive k hk)⟩, ?_,
    fun v hv => .inl ⟨?_, hvcpu v hv⟩⟩
  · exact fun k hk _ _ hnew _ => absurd (hlive k hk) hnew
  · obtain ⟨fd, hf⟩ := Kernel.mem_liveVcpus.1 hv
    exact Kernel.mem_liveVcpus.2 ⟨fd, hsub _ hf⟩

theorem createVm_effect (h : Custody s es) {o : CreateVmCall}
    (hfresh : ∀ k, o.kvm = some k → takes s.ledger (.kvm k) = gives s.ledger (.kvm k)) :
    LifeEffect s ((miniKvmCreateVm o).run s).2 o.pml4.toList none := by
  have htables : (tablesFrame o.pml4.toList).rel s ((miniKvmCreateVm o).run s).2 :=
    miniKvmCreateVm_tables (by simp) s
  have hcreated := miniKvmCreateVm_spec s o
  generalize ((miniKvmCreateVm o).run s).2 = s' at htables hcreated ⊢
  -- the new VM is none of the open ones
  have hne : ∀ k, o.kvm = some k → ∀ k' ∈ s.liveVms, k' ≠ k := by
    rintro k hk k' hk' rfl
    exact h.not_liveVms (hfresh k' hk) hk'
  cases hcreated with
  | noMemory none same =>
    subst same
    exact .of_files htables (fun f hf _ => hf) (fun f hf => hf) (fun v _ => rfl) fun k _ _ =>
      (KvmObj.Same.refl _).sameTables
  | refused k l ptr moves files runs =>
    refine .of_files htables ?_ ?_ (fun v _ => moves.vcpu v (by simp)) fun k' _ hk' => ?_
    · rw [files]
      exact fun f hf _ => hf
    · rw [files]
      exact fun f hf => hf
    · rw [moves.kvm k' (hne k ptr k' hk')]
      exact (KvmObj.Same.refl _).sameTables
  | created k fd l ptr installed moves files ready runs =>
    have hvcpu : ∀ v, s'.vcpu v = s.vcpu v := fun v => moves.vcpu v (by simp)
    have hlive : ∀ k' ∈ s'.liveVms, k' = k ∨ k' ∈ s.liveVms := by
      intro k' hk'
      obtain ⟨f, hf, howner⟩ := Kernel.mem_liveVms.1 hk'
      rw [files] at hf
      rcases List.mem_cons.1 hf with rfl | hold
      · exact .inl howner.symm
      · refine .inr (Kernel.mem_liveVms.2 ⟨f, hold, ?_⟩)
        rw [← howner]
        unfold Kernel.vmOf
        simp only [hvcpu]
    refine ⟨htables, ?_, fun k' hk' => ?_, fun k₁ hk₁ k₂ hk₂ hnew₁ hnew₂ => ?_, fun v hv => .inl ⟨?_, hvcpu v⟩⟩
    · rw [files]
      exact fun f hf _ => List.mem_cons_of_mem _ hf
    · rcases hlive k' hk' with rfl | hold
      · obtain ⟨page, hpage, hmem, hobj⟩ := ready
        refine .inr ⟨fun hlive => hne k' ptr k' hlive rfl, page, by simp [hpage], fun i => ?_, hobj⟩
        rw [hmem]
        exact RadixTable.fillPage_self
      · rw [moves.kvm k' (hne k ptr k' hold)]
        exact .inl ⟨hold, (KvmObj.Same.refl _).sameTables⟩
    · rw [(hlive k₁ hk₁).resolve_right hnew₁, (hlive k₂ hk₂).resolve_right hnew₂]
    · obtain ⟨fd', hf⟩ := Kernel.mem_liveVcpus.1 hv
      rw [files] at hf
      rcases List.mem_cons.1 hf with heq | hold
      · exact absurd heq (by simp)
      · exact Kernel.mem_liveVcpus.2 ⟨fd', hold⟩

theorem setMemregion_effect (k : KvmPtr) (o : MemregionCall) :
    LifeEffect s ((miniKvmSetMemregion k o).run s).2 [] none := by
  have htables : (tablesFrame []).rel s ((miniKvmSetMemregion k o).run s).2 := miniKvmSetMemregion_tables k o s
  rcases miniKvmSetMemregion_spec k o s with ⟨l, hs', -⟩ | ⟨hvalid, l, slot, a, -, hs', -⟩
  · rw [hs'] at htables ⊢
    exact .of_files htables (fun f hf _ => hf) (fun f hf => hf) (fun v _ => rfl) fun k _ _ =>
      (KvmObj.Same.refl _).sameTables
  · rw [hs'] at htables ⊢
    refine .of_files htables (fun f hf _ => hf) (fun f hf => hf) (fun v _ => rfl) fun k' _ _ => ?_
    rw [Kernel.log_kvm]
    by_cases hk : k' = k
    · subst hk
      rw [Kernel.putKvm_kvm]
      exact ⟨rfl, rfl, .inr hvalid⟩
    · rw [(Kernel.moves_putKvm s k none _).kvm k' hk]
      exact (KvmObj.Same.refl _).sameTables

theorem createVcpu_effect (h : Custody s es) (hk : k ∈ s.liveVms) {o : CreateVcpuCall}
    (hfresh : ∀ v, o.vcpu = some v → takes s.ledger (.vcpu v) = gives s.ledger (.vcpu v)) :
    LifeEffect s ((miniKvmCreateVcpu k o).run s).2 (o.runPage.toList ++ o.setup.page.toList) none := by
  have htables : (tablesFrame (o.runPage.toList ++ o.setup.page.toList)).rel s ((miniKvmCreateVcpu k o).run s).2 :=
    miniKvmCreateVcpu_tables k (fun page hpage => by simp [hpage]) s
  have href : (s.kvm k).refcount ≠ 0 := by
    obtain ⟨e, he, rfl⟩ := List.mem_map.1 (h.liveVms_perm.mem_iff.1 hk)
    exact (h.structs e he).refcount_ne_zero
  have hcreated := miniKvmCreateVcpu_spec href o
  generalize ((miniKvmCreateVcpu k o).run s).2 = s' at htables hcreated ⊢
  have hne : ∀ v ∈ s.liveVcpus, some v ≠ o.vcpu := fun v hv heq => h.not_liveVcpus (hfresh v heq.symm) hv
  cases hcreated with
  | refused l moves files same runs =>
    refine .of_files htables ?_ ?_ (fun v hv => moves.vcpu v (hne v ?_)) fun k' _ _ => ?_
    · rw [files]
      exact fun f hf _ => hf
    · rw [files]
      exact fun f hf => hf
    · unfold Kernel.liveVcpus at hv
      rwa [files] at hv
    · by_cases hk' : k' = k
      · rw [hk']
        exact same.sameTables
      · rw [moves.kvm k' hk']
        exact (KvmObj.Same.refl _).sameTables
  | created v fd l ptr installed first moves files same owner ready runs =>
    rw [ptr] at hne
    have hnew : v ∉ s.liveVcpus := fun hv => hne v hv rfl
    have hvcpu : ∀ u ∈ s.liveVcpus, s'.vcpu u = s.vcpu u := fun u hu => moves.vcpu u (hne u hu)
    -- the VM changes its reference count and its vCPU, not its tables
    have hsame : ∀ k', (s.kvm k').SameTables (s'.kvm k') := by
      intro k'
      by_cases hk' : k' = k
      · rw [hk']
        exact ⟨same.ept, same.hasPml4, .inl same.slot⟩
      · rw [moves.kvm k' hk']
        exact (KvmObj.Same.refl _).sameTables
    have hlive : ∀ k' ∈ s'.liveVms, k' ∈ s.liveVms := by
      intro k' hk'
      obtain ⟨f, hf, howner⟩ := Kernel.mem_liveVms.1 hk'
      rw [files] at hf
      rcases List.mem_cons.1 hf with rfl | hold
      · have hk' : (s'.vcpu v).kvm = k' := howner
        rw [← hk', owner]
        exact hk
      · refine Kernel.mem_liveVms.2 ⟨f, hold, ?_⟩
        obtain ⟨fd', k'' | u⟩ := f
        · exact howner
        · have howner' : (s'.vcpu u).kvm = k' := howner
          rw [hvcpu u (Kernel.mem_liveVcpus.2 ⟨fd', hold⟩)] at howner'
          exact howner'
    refine ⟨htables, ?_, fun k' hk' => .inl ⟨hlive k' hk', hsame k'⟩, ?_, fun u hu => ?_⟩
    · rw [files]
      exact fun f hf _ => List.mem_cons_of_mem _ hf
    · exact fun k' hk' _ _ hnew' _ => absurd (hlive k' hk') hnew'
    · obtain ⟨fd', hf⟩ := Kernel.mem_liveVcpus.1 hu
      rw [files] at hf
      rcases List.mem_cons.1 hf with heq | hold
      · obtain ⟨-, rfl⟩ : fd' = fd ∧ u = v := by simpa using heq
        obtain ⟨runPage, page, -, hpage, hready⟩ := ready
        refine .inr ⟨hnew, page, by simp [hpage], hready.vmx, hready.eptPointer.trans ?_⟩
        unfold Kernel.eptpOf
        rw [owner, (hsame k).ept]
      · have hlive := Kernel.mem_liveVcpus.2 ⟨fd', hold⟩
        exact .inl ⟨hlive, hvcpu u hlive⟩

theorem closeVm_effect (h : Custody s (e :: rest)) {fd : Fd} (hfd : e.vmFd = some fd) :
    LifeEffect s ((miniKvmPut e.kvm).run { s with files := s.files.filter (·.1 ≠ fd) }).2 [] (some fd) := by
  have hmem : (fd, File.vm e.kvm) ∈ e.files := VmEntry.vm_mem_files.2 ⟨hfd, rfl⟩
  have htables : (tablesFrame []).rel s ((miniKvmPut e.kvm).run { s with files := s.files.filter (·.1 ≠ fd) }).2 :=
    miniKvmPut_tables e.kvm { s with files := s.files.filter (·.1 ≠ fd) }
  obtain ⟨l, hmoves, hfiles, hput⟩ := miniKvmPut_spec { s with files := s.files.filter (·.1 ≠ fd) } e.kvm
  generalize ((miniKvmPut e.kvm).run { s with files := s.files.filter (·.1 ≠ fd) }).2 = s'
    at htables hmoves hfiles hput ⊢
  have hleft : ∀ f, f ∈ s'.files ↔ f ∈ s.files ∧ f.1 ≠ fd := by
    intro f
    rw [hfiles]
    simp [List.mem_filter]
  have hvcpu : ∀ v, s'.vcpu v = s.vcpu v := fun v => hmoves.vcpu v (by simp)
  refine .of_files htables (fun f hf hne => (hleft f).2 ⟨hf, by simpa using hne⟩) (fun f hf => ((hleft f).1 hf).1)
    (fun v _ => hvcpu v) fun k' hk' _ => ?_
  by_cases hk : k' = e.kvm
  · rcases hput with ⟨-, hobj, -⟩ | ⟨hzero, -⟩
    · rw [hk, hobj]
      exact ⟨rfl, rfl, .inl rfl⟩
    · -- the VM is gone, so no file is about it
      obtain ⟨f, hf, howner⟩ := Kernel.mem_liveVms.1 hk'
      obtain ⟨hold, hne⟩ := (hleft f).1 hf
      refine absurd ?_ (h.last_file hmem hzero f hold hne)
      rw [← hk, ← howner]
      unfold Kernel.vmOf
      simp only [hvcpu]
  · rw [hmoves.kvm k' hk]
    exact (KvmObj.Same.refl _).sameTables

theorem closeVcpu_effect (h : Custody s (e :: rest)) {fd : Fd} (hfd : e.vcpu = some (fd, v)) (cpu : CpuId)
    (ok : Bool) :
    LifeEffect s ((miniVcpuRelease v cpu ok).run { s with files := s.files.filter (·.1 ≠ fd) }).2 [] (some fd) := by
  have hmem : (fd, File.vcpu v) ∈ e.files := VmEntry.vcpu_mem_files.2 hfd
  have howner := (h.structs e List.mem_cons_self).owner v (VmEntry.mem_vcpus.2 ⟨fd, hfd⟩)
  have hptr : (s.kvm e.kvm).vcpu = some v := by
    rw [(h.structs e List.mem_cons_self).vcpu, hfd]
    rfl
  have htables : (tablesFrame []).rel s
      ((miniVcpuRelease v cpu ok).run { s with files := s.files.filter (·.1 ≠ fd) }).2 :=
    miniVcpuRelease_tables v cpu ok { s with files := s.files.filter (·.1 ≠ fd) }
  obtain ⟨l, hmoves, hfiles, hrelease⟩ := miniVcpuRelease_spec
    (s := { s with files := s.files.filter (·.1 ≠ fd) }) howner hptr cpu ok
  generalize ((miniVcpuRelease v cpu ok).run { s with files := s.files.filter (·.1 ≠ fd) }).2 = s'
    at htables hmoves hfiles hrelease ⊢
  have hleft : ∀ f, f ∈ s'.files ↔ f ∈ s.files ∧ f.1 ≠ fd := by
    intro f
    rw [hfiles]
    simp [List.mem_filter]
  have hvcpu : ∀ u ∈ s'.liveVcpus, s'.vcpu u = s.vcpu u := by
    intro u hu
    obtain ⟨fd', hf⟩ := Kernel.mem_liveVcpus.1 hu
    obtain ⟨hold, hne⟩ := (hleft _).1 hf
    refine hmoves.vcpu u fun heq => hne ?_
    obtain rfl := Option.some.inj heq
    exact h.vcpu_file hfd hold
  refine .of_files htables (fun f hf hne => (hleft f).2 ⟨hf, by simpa using hne⟩) (fun f hf => ((hleft f).1 hf).1)
    hvcpu fun k' hk' _ => ?_
  -- the last reference takes the tables with it, but then no file is left that shows them
  by_cases hk : k' = e.kvm
  · rcases hrelease with ⟨-, hsame, -⟩ | ⟨hzero, -⟩
    · rw [hk]
      exact ⟨hsame.ept, hsame.hasPml4, .inl hsame.slot⟩
    · obtain ⟨⟨fd', k'' | u⟩, hf, howner'⟩ := Kernel.mem_liveVms.1 hk'
      · obtain ⟨hold, hne⟩ := (hleft _).1 hf
        exact absurd (howner'.trans hk) (h.last_file hmem hzero _ hold hne)
      · obtain ⟨hold, hne⟩ := (hleft _).1 hf
        have howner'' : (s'.vcpu u).kvm = k' := howner'
        rw [hvcpu u (Kernel.mem_liveVcpus.2 ⟨fd', hf⟩)] at howner''
        exact absurd (howner''.trans hk) (h.last_file hmem hzero _ hold hne)
  · rw [hmoves.kvm k' hk]
    exact (KvmObj.Same.refl _).sameTables

/-- The pages that the allocator hands out in a call. -/
def LifeOp.pages : LifeOp → List Pfn
  | .createVm o => o.pml4.toList
  | .createVcpu _ o => o.runPage.toList ++ o.setup.page.toList
  | .run _ _ allocs _ => allocs.reduceOption
  | .setMemregion .. | .close .. => []

def LifeOp.closes : LifeOp → Option Fd
  | .close fd .. => some fd
  | _ => none

def LifeOp.isRun : LifeOp → Bool
  | .run .. => true
  | _ => false

theorem LifeEffect.nothing (s : Kernel) (new : List Pfn) (closing : Option Fd) : LifeEffect s s new closing :=
  .of_files ((tablesFrame new).refl s) (fun _ hf _ => hf) (fun _ hf => hf) (fun _ _ => rfl) fun _ _ _ =>
    (KvmObj.Same.refl _).sameTables

theorem Custody.life_effect (h : Custody s es) {op : LifeOp} (hop : op.Fresh s) (hrun : op.isRun = false) :
    LifeEffect s (s.step op) op.pages op.closes := by
  unfold Kernel.step
  cases op with
  | createVm o =>
    dsimp only [LifeOp.exec]
    rw [run_bind, run_pure]
    exact createVm_effect h hop.1
  | setMemregion fd o =>
    dsimp only [LifeOp.exec]
    rw [run_bind, run_get]
    dsimp only
    split
    · rw [run_bind, run_pure]
      exact setMemregion_effect _ o
    · exact .nothing s _ _
  | createVcpu fd o =>
    dsimp only [LifeOp.exec]
    rw [run_bind, run_get]
    dsimp only
    split
    · rename_i k hlookup
      rw [run_bind, run_pure]
      exact createVcpu_effect h (Kernel.mem_liveVms.2 ⟨_, mem_files_of_lookup hlookup, rfl⟩) hop.1
    · exact .nothing s _ _
  | run fd cpu allocs o => exact absurd hrun (by simp [LifeOp.isRun])
  | close fd cpu ok =>
    dsimp only [LifeOp.exec]
    rw [run_bind, run_get]
    dsimp only
    split
    · rename_i f hlookup
      obtain ⟨e, rest, hcustody, hmem⟩ := h.locate (mem_files_of_lookup hlookup)
      rw [run_bind]
      cases f with
      | vm k =>
        obtain ⟨hfd, rfl⟩ := VmEntry.vm_mem_files.1 hmem
        exact closeVm_effect hcustody hfd
      | vcpu v => exact closeVcpu_effect hcustody (VmEntry.vcpu_mem_files.1 hmem) cpu ok
    · exact .nothing s _ _

end Open

/-! ### The invariant -/

/-- The pages are different from each other and not in use. -/
def Kernel.FreshPages (s : Kernel) (new : List Pfn) : Prop :=
  new.Nodup ∧ ∀ a ∈ new, takes s.ledger (.page a) = gives s.ledger (.page a)

/-- The tables of the open VMs are in order and apart, and their vCPUs point to them. -/
structure OpenVms (s : Kernel) : Prop where
  custody : ∃ es, Custody s es
  tabled : ∀ k ∈ s.liveVms, s.Tabled k
  apart : ∀ k ∈ s.liveVms, ∀ k' ∈ s.liveVms, k ≠ k' →
    ∀ a ∈ (s.kvm k).kvm.ept.pages, a ∉ (s.kvm k').kvm.ept.pages
  vmcs : ∀ v ∈ s.liveVcpus, ∃ page, (s.vcpu v).vcpu.vmcsPage = some page ∧ (s.vcpu v).vcpu.vmcsPhys = pageToPhys page
  pointer : ∀ v ∈ s.liveVcpus, (s.hw.vmcs (s.vcpu v).vcpu.vmcsPhys).field .eptPointer = s.eptpOf v

/-- The translations of the open vCPUs stay. -/
def Kernel.WalksKept (s s' : Kernel) : Prop :=
  ∀ v ∈ s.liveVcpus, v ∈ s'.liveVcpus → s'.eptpOf v = s.eptpOf v ∧
    ∀ gpa e, hwWalk s.hw.mem (s.eptpOf v) gpa = .leaf e → hwWalk s'.hw.mem (s.eptpOf v) gpa = .leaf e

namespace OpenVms

variable {s s' : Kernel}

theorem life (h : OpenVms s) {new : List Pfn} {closing : Option Fd} (heffect : LifeEffect s s' new closing)
    (hfresh : s.FreshPages new) (hcustody : ∃ es, Custody s' es) : OpenVms s' ∧ s.WalksKept s' := by
  obtain ⟨es, hes⟩ := h.custody
  -- the new pages are none of the tables in use
  have hnot : ∀ k ∈ s.liveVms, ∀ a ∈ new, a ∉ (s.kvm k).kvm.ept.pages := fun k hk a ha =>
    hes.not_table (hfresh.2 a ha) hk (h.tabled k hk).pml4
  have hmem : ∀ k ∈ s.liveVms, ∀ a ∈ (s.kvm k).kvm.ept.pages, s'.hw.mem a = s.hw.mem a := fun k hk a ha =>
    heffect.tables.1 a fun hnew => hnot k hk a hnew ha
  have htabled : ∀ k ∈ s'.liveVms, s'.Tabled k := by
    intro k hk
    rcases heffect.vm k hk with ⟨hlive, hsame⟩ | ⟨-, page, -, hzero, hobj⟩
    · exact (h.tabled k hlive).keep hsame (hmem k hlive)
    · exact Kernel.tabled_of_fresh hzero hobj
  have hpages : ∀ k ∈ s'.liveVms, k ∈ s.liveVms ∧ (s'.kvm k).kvm.ept = (s.kvm k).kvm.ept ∨
      k ∉ s.liveVms ∧ ∃ page ∈ new, (s'.kvm k).kvm.ept.pages = [page] := by
    intro k hk
    rcases heffect.vm k hk with ⟨hlive, hsame⟩ | ⟨hnew, page, hpage, -, hobj⟩
    · exact .inl ⟨hlive, hsame.ept⟩
    · refine .inr ⟨hnew, page, hpage, ?_⟩
      rw [hobj]
      rfl
  have hold : ∀ v ∈ s.liveVcpus, s'.vcpu v = s.vcpu v → v ∈ s'.liveVcpus →
      (s'.kvm (s.vcpu v).kvm).kvm.ept = (s.kvm (s.vcpu v).kvm).kvm.ept ∧ (s.vcpu v).kvm ∈ s'.liveVms := by
    intro v hv hobj hv'
    have hlive' := Kernel.owner_live hv'
    rw [hobj] at hlive'
    rcases hpages _ hlive' with ⟨-, hept⟩ | ⟨hnew, -⟩
    · exact ⟨hept, hlive'⟩
    · exact absurd (Kernel.owner_live hv) hnew
  have heptp : ∀ v ∈ s.liveVcpus, s'.vcpu v = s.vcpu v → v ∈ s'.liveVcpus → s'.eptpOf v = s.eptpOf v := by
    intro v hv hobj hv'
    unfold Kernel.eptpOf
    rw [hobj, (hold v hv hobj hv').1]
  refine ⟨⟨hcustody, htabled, fun k hk k' hk' hne a ha ha' => ?_, fun v hv => ?_, fun v hv => ?_⟩, fun v hv hv' => ?_⟩
  · -- two VMs with a table in common: both old, or one of them new
    rcases hpages k hk with ⟨hlive, hept⟩ | ⟨hnew, page, hpage, heq⟩
    · rw [hept] at ha
      rcases hpages k' hk' with ⟨hlive', hept'⟩ | ⟨-, page', hpage', heq'⟩
      · rw [hept'] at ha'
        exact h.apart k hlive k' hlive' hne a ha ha'
      · rw [heq', List.mem_singleton] at ha'
        subst ha'
        exact hnot k hlive a hpage' ha
    · rw [heq, List.mem_singleton] at ha
      subst ha
      rcases hpages k' hk' with ⟨hlive', hept'⟩ | ⟨hnew', page', hpage', heq'⟩
      · rw [hept'] at ha'
        exact hnot k' hlive' a hpage ha'
      · exact hne (heffect.single k hk k' hk' hnew hnew')
  · rcases heffect.vcpu v hv with ⟨hlive, hobj⟩ | ⟨-, page, -, hvmx, -⟩
    · rw [hobj]
      exact h.vmcs v hlive
    · exact ⟨page, congrArg VcpuVmx.vmcsPage hvmx, congrArg VcpuVmx.vmcsPhys hvmx⟩
  · rcases heffect.vcpu v hv with ⟨hlive, hobj⟩ | ⟨-, page, -, hvmx, hpointer⟩
    · obtain ⟨page, hpage, hphys⟩ := h.vmcs v hlive
      rw [heptp v hlive hobj hv, ← h.pointer v hlive, hobj]
      refine heffect.tables.2 _ fun new hnew heq => ?_
      rw [hphys] at heq
      obtain rfl := pageToPhys_injective heq
      exact hes.not_vmcs (hfresh.2 page hnew) hlive hpage
    · have hphys : (s'.vcpu v).vcpu.vmcsPhys = pageToPhys page := congrArg VcpuVmx.vmcsPhys hvmx
      rw [hphys]
      exact hpointer
  · rcases heffect.vcpu v hv' with ⟨hlive, hobj⟩ | ⟨hnew, -⟩
    · obtain ⟨hept, hlive'⟩ := hold v hv hobj hv'
      refine ⟨heptp v hv hobj hv', fun gpa e hleaf => ?_⟩
      have hk := Kernel.owner_live hv
      have hwalk := (h.tabled _ hk).hwWalk_keep (htabled _ hlive') hept (hmem _ hk) gpa
      rw [hept] at hwalk
      exact hwalk.trans hleaf
    · exact absurd hv hnew

end OpenVms

end MiniVirt.Kvm
