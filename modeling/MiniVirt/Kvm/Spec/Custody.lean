import MiniVirt.Kvm.Spec.Lifecycle
import MiniVirt.Lib.Runs
import Mathlib.Algebra.BigOperators.Group.List.Basic
import Mathlib.Algebra.Order.BigOperators.Group.List
import Mathlib.Data.Multiset.OrderedMonoid

/-!
# Everything is released exactly once

A `VmEntry` is a VM with its open descriptors, and `Custody s es` says that the files and the ledger of
`s` are those of the VMs `es`: the files are the descriptors of the entries, the reference count of a VM
is the number of its descriptors, and what the ledger leaves is what the VMs of `es` and their vCPUs hold.
The order of the entries does not matter, so a call exchanges the first entry (`Custody.exchange`).
-/

namespace MiniVirt.Kvm

open Ledger

/-! ### Entries -/

/-- A VM with its open descriptors. -/
structure VmEntry where
  kvm : KvmPtr
  vmFd : Option Fd
  vcpu : Option (Fd × VcpuPtr)

namespace VmEntry

variable (e : VmEntry)

def vcpus : List VcpuPtr := e.vcpu.toList.map Prod.snd

def files : List (Fd × File) :=
  e.vmFd.toList.map (fun fd => (fd, .vm e.kvm)) ++ e.vcpu.toList.map fun p => (p.1, .vcpu p.2)

/-- What the VM and its vCPU hold. -/
def held (s : Kernel) : Multiset Resource :=
  ((s.kvm e.kvm).resources e.kvm : Multiset Resource) +
    (e.vcpus.map fun v => ((s.vcpu v).resources v : Multiset Resource)).sum

/-- The structs of the VM and its vCPU are as the entry says. -/
structure Matches (s : Kernel) : Prop where
  live : e.files ≠ []
  refcount : (s.kvm e.kvm).refcount = e.files.length
  vcpu : (s.kvm e.kvm).vcpu = e.vcpu.map Prod.snd
  owner : ∀ v ∈ e.vcpus, (s.vcpu v).kvm = e.kvm

variable {e}

theorem mem_vcpus {v : VcpuPtr} : v ∈ e.vcpus ↔ ∃ fd, e.vcpu = some (fd, v) := by
  unfold vcpus
  simp

theorem vm_mem_files {fd : Fd} {k : KvmPtr} : (fd, File.vm k) ∈ e.files ↔ e.vmFd = some fd ∧ e.kvm = k := by
  unfold files
  simp

theorem vcpu_mem_files {fd : Fd} {v : VcpuPtr} : (fd, File.vcpu v) ∈ e.files ↔ e.vcpu = some (fd, v) := by
  unfold files
  simp

theorem kvm_mem_held (s : Kernel) : Resource.kvm e.kvm ∈ e.held s :=
  Multiset.mem_add.2 (.inl (Multiset.mem_coe.2 (by simp [KvmObj.resources])))

theorem vcpu_mem_held (s : Kernel) {v : VcpuPtr} (hv : v ∈ e.vcpus) : Resource.vcpu v ∈ e.held s := by
  refine Multiset.mem_add.2 (.inr ?_)
  obtain ⟨fd, hfd⟩ := mem_vcpus.1 hv
  simp [vcpus, hfd, VcpuObj.resources]

/-- A call that leaves the structs of the VM and its vCPU alone. -/
theorem held_same {s s' : Kernel} (hkvm : (s.kvm e.kvm).Same (s'.kvm e.kvm))
    (hvcpu : ∀ v ∈ e.vcpus, s'.vcpu v = s.vcpu v) : e.held s' = e.held s := by
  have hmap : (e.vcpus.map fun v => ((s'.vcpu v).resources v : Multiset Resource)) =
      e.vcpus.map fun v => ((s.vcpu v).resources v : Multiset Resource) := by
    apply List.map_congr_left
    intro v hv
    rw [hvcpu v hv]
  unfold held
  rw [hkvm.resources, hmap]

theorem Matches.same {s s' : Kernel} (h : e.Matches s) (hkvm : (s.kvm e.kvm).Same (s'.kvm e.kvm))
    (hvcpu : ∀ v ∈ e.vcpus, s'.vcpu v = s.vcpu v) : e.Matches s' := by
  refine ⟨h.live, hkvm.refcount.trans h.refcount, hkvm.vcpu.trans h.vcpu, fun v hv => ?_⟩
  rw [hvcpu v hv]
  exact h.owner v hv

theorem Matches.refcount_ne_zero {s : Kernel} (h : e.Matches s) : (s.kvm e.kvm).refcount ≠ 0 := by
  rw [h.refcount]
  exact fun hzero => h.live (List.eq_nil_of_length_eq_zero hzero)

end VmEntry

def heldBy (s : Kernel) (es : List VmEntry) : Multiset Resource := (es.map fun e => e.held s).sum

theorem heldBy_append (s : Kernel) (es es' : List VmEntry) :
    heldBy s (es ++ es') = heldBy s es + heldBy s es' := by
  unfold heldBy
  rw [List.map_append, List.sum_append]

theorem held_le_heldBy (s : Kernel) {es : List VmEntry} {e : VmEntry} (he : e ∈ es) : e.held s ≤ heldBy s es :=
  List.le_sum_of_mem (List.mem_map_of_mem he)

/-! ### Custody -/

/-- The files and the ledger are those of the VMs `es`. -/
structure Custody (s : Kernel) (es : List VmEntry) : Prop where
  files : s.files.Perm (es.flatMap VmEntry.files)
  fds : (s.files.map Prod.fst).Nodup
  kvms : (es.map VmEntry.kvm).Nodup
  structs : ∀ e ∈ es, e.Matches s
  ledger : Runs 0 s.ledger (heldBy s es)

namespace Custody

variable {s s' : Kernel} {e : VmEntry} {es rest : List VmEntry}

theorem perm {es' : List VmEntry} (h : Custody s es) (hperm : es.Perm es') : Custody s es' where
  files := h.files.trans (hperm.flatMap_right _)
  fds := h.fds
  kvms := (hperm.map _).nodup h.kvms
  structs e he := h.structs e (hperm.mem_iff.2 he)
  ledger := by
    have hsum := (hperm.map fun e => e.held s).sum_eq
    show Runs 0 s.ledger (es'.map fun e => e.held s).sum
    rw [← hsum]
    exact h.ledger

/-- The entry of an open descriptor comes first. -/
theorem locate (h : Custody s es) {f : Fd × File} (hf : f ∈ s.files) :
    ∃ e rest, Custody s (e :: rest) ∧ f ∈ e.files := by
  obtain ⟨e, he, hmem⟩ := List.mem_flatMap.1 (h.files.mem_iff.1 hf)
  obtain ⟨pre, post, rfl⟩ := List.append_of_mem he
  exact ⟨e, pre ++ post, h.perm List.perm_middle, hmem⟩

/-- Other VMs are at other addresses and have other vCPUs. -/
theorem others (h : Custody s (e :: rest)) :
    ∀ e' ∈ rest, e'.kvm ≠ e.kvm ∧ ∀ v ∈ e'.vcpus, v ∉ e.vcpus := by
  intro e' he'
  have hne : e'.kvm ≠ e.kvm := by
    intro heq
    exact (List.nodup_cons.1 h.kvms).1 (heq ▸ List.mem_map_of_mem he')
  refine ⟨hne, fun v hv hv' => hne ?_⟩
  rw [← (h.structs e' (List.mem_cons_of_mem e he')).owner v hv, (h.structs e List.mem_cons_self).owner v hv']

/-- What is not held belongs to no VM. -/
theorem not_held (h : Custody s es) {r : Resource} (hr : takes s.ledger r = gives s.ledger r) :
    ∀ e ∈ es, r ∉ e.held s := by
  intro e he hmem
  have hcount := h.ledger.count r
  have hpos := Multiset.count_pos.2 (Multiset.mem_of_le (held_le_heldBy s he) hmem)
  rw [Multiset.count_zero] at hcount
  omega

/-- A call that concerns the entries `old` puts `new` in their place. -/
theorem exchange (old new : List VmEntry) {k : KvmPtr} {v : Option VcpuPtr} {l : List (LedgerEvent Resource)}
    (h : Custody s (old ++ rest)) (hmoves : Kernel.Moves s s' k v l)
    (hrest : ∀ e ∈ rest, e.kvm ≠ k ∧ ∀ u ∈ e.vcpus, some u ≠ v)
    (hfiles : s'.files.Perm ((new ++ rest).flatMap VmEntry.files)) (hfds : (s'.files.map Prod.fst).Nodup)
    (hkvms : ∀ e ∈ new, e.kvm = k) (hone : new.length ≤ 1) (hnew : ∀ e ∈ new, e.Matches s')
    (hruns : ∀ m, Runs (heldBy s old + m) l (heldBy s' new + m)) : Custody s' (new ++ rest) := by
  have hkvm : ∀ e ∈ rest, (s.kvm e.kvm).Same (s'.kvm e.kvm) := by
    intro e he
    rw [hmoves.kvm _ (hrest e he).1]
    exact .refl _
  have hvcpu : ∀ e ∈ rest, ∀ u ∈ e.vcpus, s'.vcpu u = s.vcpu u := fun e he u hu =>
    hmoves.vcpu u ((hrest e he).2 u hu)
  -- the other VMs hold what they held
  have hheld : heldBy s' rest = heldBy s rest := by
    unfold heldBy
    rw [List.map_congr_left fun e he => VmEntry.held_same (hkvm e he) (hvcpu e he)]
  refine ⟨hfiles, hfds, ?_, ?_, ?_⟩
  · rw [List.map_append, List.nodup_append]
    have hrestKvms := h.kvms
    rw [List.map_append, List.nodup_append] at hrestKvms
    refine ⟨?_, hrestKvms.2.1, ?_⟩
    · rcases new with - | ⟨e, - | ⟨e', es'⟩⟩
      · exact List.nodup_nil
      · exact List.nodup_singleton _
      · simp at hone
    · intro a ha b hb hab
      obtain ⟨e, he, rfl⟩ := List.mem_map.1 ha
      obtain ⟨e', he', rfl⟩ := List.mem_map.1 hb
      exact (hrest e' he').1 (hab ▸ hkvms e he)
  · intro e he
    rcases List.mem_append.1 he with he | he
    · exact hnew e he
    · exact (h.structs e (List.mem_append_right old he)).same (hkvm e he) (hvcpu e he)
  · rw [hmoves.ledger, heldBy_append, hheld]
    have hbefore := h.ledger
    rw [heldBy_append] at hbefore
    exact hbefore.append (hruns _)

/-- A call that concerns an entry and leaves its descriptors open. -/
theorem keep {k : KvmPtr} {v : Option VcpuPtr} {l : List (LedgerEvent Resource)} (h : Custody s (e :: rest))
    (hk : e.kvm = k) (hmoves : Kernel.Moves s s' k v l) (hrest : ∀ e' ∈ rest, ∀ u ∈ e'.vcpus, some u ≠ v)
    (hfiles : s'.files = s.files) (hnew : e.Matches s')
    (hruns : ∀ m, Runs (e.held s + m) l (e.held s' + m)) : Custody s' (e :: rest) := by
  have hheld : ∀ s : Kernel, heldBy s [e] = e.held s := fun s => add_zero _
  refine exchange [e] [e] h hmoves ?_ ?_ ?_ ?_ (by simp) ?_ ?_
  · intro e' he'
    exact ⟨hk ▸ (h.others e' he').1, hrest e' he'⟩
  · rw [hfiles]
    exact h.files
  · rw [hfiles]
    exact h.fds
  · simpa using hk
  · simpa using hnew
  · simpa only [hheld] using hruns

/-- Closing a descriptor takes it out of the files. -/
theorem filter_files (h : Custody s es) {fd : Fd} {f : File} {others : List (Fd × File)}
    (hperm : s.files.Perm ((fd, f) :: others)) : (s.files.filter (·.1 ≠ fd)).Perm others := by
  have hnodup := ((hperm.map Prod.fst).nodup_iff).1 h.fds
  have hothers : ∀ p ∈ others, p.1 ≠ fd := by
    intro p hp hfd
    have hmem : p.1 ∈ others.map Prod.fst := List.mem_map_of_mem hp
    rw [hfd] at hmem
    exact (List.nodup_cons.1 hnodup).1 hmem
  refine (hperm.filter _).trans ?_
  rw [List.filter_cons_of_neg (by simp), List.filter_eq_self.2 fun p hp => by simpa using hothers p hp]

/-! ### The calls -/

theorem setMemregion {k : KvmPtr} (h : Custody s (e :: rest)) (hk : e.kvm = k) (o : MemregionCall) :
    Custody ((miniKvmSetMemregion k o).run s).2 (e :: rest) := by
  have hmatches := h.structs e List.mem_cons_self
  have hkvm : ∀ m, Resource.kvm k ∈ e.held s + m := fun m =>
    Multiset.mem_add.2 (.inl (hk ▸ e.kvm_mem_held s))
  rcases miniKvmSetMemregion_spec k o s with ⟨l, hs', hruns⟩ | ⟨hvalid, l, slot, a, hslot, hs', hruns⟩
  · rw [hs']
    exact h.keep hk (Kernel.moves_log s k none l) (by simp) rfl (hmatches.same (.refl _) fun v _ => rfl)
      fun m => hruns _ (hkvm m)
  · rw [hs']
    subst hk
    have hobj : ((s.putKvm e.kvm ((s.kvm e.kvm).withSlot slot a)).log l).kvm e.kvm =
        (s.kvm e.kvm).withSlot slot a := Kernel.putKvm_kvm ..
    have hheld : e.held ((s.putKvm e.kvm ((s.kvm e.kvm).withSlot slot a)).log l) =
        ((s.kvm e.kvm).withSlot slot a).slotResources + e.held s := by
      have hres := (s.kvm e.kvm).withSlot_resources hvalid e.kvm slot a
      unfold VmEntry.held
      rw [hobj, hres, add_assoc]
      rfl
    refine h.keep rfl ((Kernel.moves_putKvm s e.kvm none _).trans (Kernel.moves_log _ e.kvm none l)) (by simp)
      rfl ⟨hmatches.live, ?_, ?_, hmatches.owner⟩ fun m => ?_
    · rw [hobj]
      exact hmatches.refcount
    · rw [hobj]
      exact hmatches.vcpu
    · rw [hheld, add_assoc]
      exact hruns _ (hkvm m)

theorem createVcpu {k : KvmPtr} (h : Custody s (e :: rest)) (hk : e.kvm = k) {o : CreateVcpuCall}
    (hfresh : ∀ v, o.vcpu = some v → takes s.ledger (.vcpu v) = gives s.ledger (.vcpu v))
    (hfd : ∀ fd, o.fd = .ok fd → fd ∉ s.files.map Prod.fst) :
    ∃ es, Custody ((miniKvmCreateVcpu k o).run s).2 es := by
  have hmatches := h.structs e List.mem_cons_self
  have hne : ∀ e' ∈ e :: rest, ∀ u ∈ e'.vcpus, some u ≠ o.vcpu := by
    intro e' he' u hu heq
    exact h.not_held (hfresh u heq.symm) e' he' (e'.vcpu_mem_held s hu)
  have hkvm : ∀ m, Resource.kvm k ∈ e.held s + m := fun m =>
    Multiset.mem_add.2 (.inl (hk ▸ e.kvm_mem_held s))
  have href : (s.kvm k).refcount ≠ 0 := hk ▸ hmatches.refcount_ne_zero
  have hcreated := miniKvmCreateVcpu_spec href o
  generalize ((miniKvmCreateVcpu k o).run s).2 = s' at hcreated ⊢
  subst hk
  cases hcreated with
  -- the call has taken back whatever it did
  | refused l moves files same runs =>
    have hvcpu : ∀ v ∈ e.vcpus, s'.vcpu v = s.vcpu v := fun v hv =>
      moves.vcpu v (hne e List.mem_cons_self v hv)
    refine ⟨e :: rest, h.keep rfl moves (fun e' he' => hne e' (List.mem_cons_of_mem e he')) files
      (hmatches.same same hvcpu) fun m => ?_⟩
    rw [VmEntry.held_same same hvcpu]
    exact runs _ (hkvm m)
  | created v fd l ptr installed first moves files same owner ready runs =>
    -- a VM has one vCPU at most
    have hnone : e.vcpu = none := by simpa [first] using hmatches.vcpu.symm
    rw [ptr] at hne
    have hfiles : (VmEntry.files ⟨e.kvm, e.vmFd, some (fd, v)⟩).Perm ((fd, .vcpu v) :: e.files) := by
      unfold VmEntry.files
      rw [hnone]
      exact List.perm_append_comm.trans (by simp)
    refine ⟨⟨e.kvm, e.vmFd, some (fd, v)⟩ :: rest,
      exchange [e] [⟨e.kvm, e.vmFd, some (fd, v)⟩] h moves ?_ ?_ ?_ (by simp) (by simp) ?_ ?_⟩
    · exact fun e' he' => ⟨(h.others e' he').1, hne e' (List.mem_cons_of_mem e he')⟩
    · rw [files]
      exact (h.files.cons _).trans (hfiles.symm.append_right _)
    · rw [files]
      exact List.nodup_cons.2 ⟨hfd fd installed, h.fds⟩
    · have hlength := hfiles.length_eq
      rw [List.length_cons] at hlength
      intro e' he'
      obtain rfl := List.mem_singleton.1 he'
      refine ⟨List.length_pos_iff.1 (by omega), ?_, same.vcpu, ?_⟩
      · rw [hlength, ← hmatches.refcount]
        exact same.refcount
      · simpa [VmEntry.vcpus] using owner
    · intro m
      have hres : ((s'.kvm e.kvm).resources e.kvm : Multiset Resource) + 0 = e.held s := by
        have hopened : ((s.kvm e.kvm).opened v).resources e.kvm = (s.kvm e.kvm).resources e.kvm := rfl
        rw [same.resources, hopened, VmEntry.held, VmEntry.vcpus, hnone]
        rfl
      have hafter : heldBy s' [⟨e.kvm, e.vmFd, some (fd, v)⟩] =
          ((s'.vcpu v).resources v : Multiset Resource) + e.held s := by
        rw [← hres, add_zero, add_comm]
        simp [heldBy, VmEntry.held, VmEntry.vcpus]
      have hbefore : heldBy s [e] = e.held s := add_zero _
      rw [hafter, hbefore, add_assoc]
      exact runs _ (hkvm m)

theorem run {fd : Fd} {v : VcpuPtr} (h : Custody s (e :: rest)) (hv : e.vcpu = some (fd, v)) (cpu : CpuId)
    (allocs : List (Option Pfn)) (o : RunCall) : Custody ((vcpuRun v cpu allocs o).run s).2 (e :: rest) := by
  have hmatches := h.structs e List.mem_cons_self
  have hvcpus : e.vcpus = [v] := by
    unfold VmEntry.vcpus
    rw [hv]
    rfl
  have howner := hmatches.owner v (by simp [hvcpus])
  obtain ⟨l, new, hmoves, hfiles, hgrows, howner', hres, hruns⟩ := vcpuRun_spec howner cpu allocs o
  generalize ((vcpuRun v cpu allocs o).run s).2 = s' at hmoves hfiles hgrows howner' hres hruns ⊢
  have hheld : ∀ s : Kernel, e.held s = ((s.vcpu v).resources v : Multiset Resource) +
      ((s.kvm e.kvm).resources e.kvm : Multiset Resource) := by
    intro s
    rw [VmEntry.held, hvcpus, add_comm]
    simp
  refine h.keep rfl hmoves ?_ hfiles ⟨hmatches.live, ?_, ?_, ?_⟩ fun m => ?_
  · intro e' he' u hu heq
    obtain rfl := Option.some.inj heq
    exact (h.others e' he').2 u hu (by simp [hvcpus])
  · exact hgrows.refcount.trans hmatches.refcount
  · exact hgrows.vcpu.trans hmatches.vcpu
  · simpa [hvcpus] using howner'
  · rw [hheld s, hheld s']
    exact hruns m

/-- A descriptor is closed and the rest of the entry, if there is any, stays. -/
theorem close (e' : VmEntry) {fd : Fd} {f : File} {v : Option VcpuPtr} {l : List (LedgerEvent Resource)}
    (h : Custody s (e :: rest)) (hfile : e.files.Perm ((fd, f) :: e'.files)) (hk : e'.kvm = e.kvm)
    (hmoves : Kernel.Moves s s' e.kvm v l) (hrest : ∀ e' ∈ rest, ∀ u ∈ e'.vcpus, some u ≠ v)
    (hfiles : s'.files = s.files.filter (·.1 ≠ fd))
    (hleft : (s.kvm e.kvm).refcount - 1 ≠ 0 ∧ e'.Matches s' ∧ (∀ m, Runs (e.held s + m) l (e'.held s' + m)) ∨
      (s.kvm e.kvm).refcount - 1 = 0 ∧ ∀ m, Runs (e.held s + m) l m) : ∃ es, Custody s' es := by
  have hperm : s.files.Perm ((fd, f) :: (e'.files ++ rest.flatMap VmEntry.files)) :=
    h.files.trans (hfile.append_right _)
  have hothers := h.filter_files hperm
  have hfds : (s'.files.map Prod.fst).Nodup := by
    rw [hfiles]
    exact (List.filter_sublist.map Prod.fst).nodup h.fds
  have hkvms : ∀ e' ∈ rest, e'.kvm ≠ e.kvm := fun e' he' => (h.others e' he').1
  have hheld : ∀ (s : Kernel) (e : VmEntry), heldBy s [e] = e.held s := fun s e => add_zero _
  rw [← hfiles] at hothers
  rcases hleft with ⟨-, hnew, hruns⟩ | ⟨hzero, hruns⟩
  · refine ⟨e' :: rest, exchange [e] [e'] h hmoves (fun e' he' => ⟨hkvms e' he', hrest e' he'⟩)
      hothers hfds (by simpa using hk) (by simp) (by simpa using hnew) ?_⟩
    simpa only [hheld] using hruns
  · have hnone : e'.files = [] := by
      have hlength := hfile.length_eq
      rw [List.length_cons, ← (h.structs e List.mem_cons_self).refcount] at hlength
      exact List.eq_nil_of_length_eq_zero (by omega)
    rw [hnone] at hothers
    refine ⟨rest, exchange [e] [] h hmoves (fun e' he' => ⟨hkvms e' he', hrest e' he'⟩)
      hothers hfds (by simp) (by simp) (by simp) fun m => ?_⟩
    rw [hheld]
    exact (zero_add m).symm ▸ hruns m

/-- `mini_vm_release()`. -/
theorem closeVm {fd : Fd} (h : Custody s (e :: rest)) (hfd : e.vmFd = some fd) :
    ∃ es, Custody ((miniKvmPut e.kvm).run { s with files := s.files.filter (·.1 ≠ fd) }).2 es := by
  have hmatches := h.structs e List.mem_cons_self
  obtain ⟨l, hmoves, hfiles, hput⟩ := miniKvmPut_spec { s with files := s.files.filter (·.1 ≠ fd) } e.kvm
  generalize ((miniKvmPut e.kvm).run { s with files := s.files.filter (·.1 ≠ fd) }).2 = s'
    at hmoves hfiles hput ⊢
  have hsplit : e.files = (fd, .vm e.kvm) :: VmEntry.files ⟨e.kvm, none, e.vcpu⟩ := by
    unfold VmEntry.files
    rw [hfd]
    rfl
  refine h.close ⟨e.kvm, none, e.vcpu⟩ (.of_eq hsplit) rfl
    ⟨hmoves.kvm, hmoves.vcpu, hmoves.ledger⟩ (by simp) hfiles ?_
  have hvcpu : ∀ v, s'.vcpu v = s.vcpu v := fun v => hmoves.vcpu v (by simp)
  -- the VM lives on while its vCPU has a file
  rcases hput with ⟨hne, hobj, hruns⟩ | ⟨hzero, hruns⟩
  · have href : (s.kvm e.kvm).refcount - 1 = (VmEntry.files ⟨e.kvm, none, e.vcpu⟩).length := by
      rw [hmatches.refcount, hsplit, List.length_cons, Nat.add_sub_cancel]
    have hobj' : s'.kvm e.kvm = (s.kvm e.kvm).dropped := hobj
    refine .inl ⟨hne, ⟨?_, ?_, ?_, ?_⟩, fun m => ?_⟩
    · intro hnil
      rw [hnil] at href
      exact hne href
    · rw [hobj']
      exact href
    · rw [hobj']
      exact hmatches.vcpu
    · intro v hv
      rw [hvcpu]
      exact hmatches.owner v hv
    · have hheld : VmEntry.held ⟨e.kvm, none, e.vcpu⟩ s' = e.held s := by
        have hres : (s.kvm e.kvm).dropped.resources e.kvm = (s.kvm e.kvm).resources e.kvm := rfl
        unfold VmEntry.held
        rw [hobj', hres]
        simp only [hvcpu]
        rfl
      rw [hheld]
      exact hruns _ (Multiset.mem_add.2 (.inl (e.kvm_mem_held s)))
  · refine .inr ⟨hzero, fun m => ?_⟩
    -- the last file: there is no vCPU
    have hnone : e.vcpus = [] := by
      have hlength := hmatches.refcount
      have hpos := hmatches.refcount_ne_zero
      rw [hsplit] at hlength
      have hzero' : (s.kvm e.kvm).refcount - 1 = 0 := hzero
      have hvcpu : e.vcpu = none := by
        cases hv : e.vcpu with
        | none => rfl
        | some p =>
          rw [List.length_cons, hv] at hlength
          simp [VmEntry.files] at hlength
          omega
      unfold VmEntry.vcpus
      rw [hvcpu]
      rfl
    have hheld : e.held s = ((s.kvm e.kvm).resources e.kvm : Multiset Resource) := by
      rw [VmEntry.held, hnone]
      exact add_zero _
    rw [hheld]
    exact hruns m

/-- `mini_vcpu_release()`. -/
theorem closeVcpu {fd : Fd} {v : VcpuPtr} (h : Custody s (e :: rest)) (hfd : e.vcpu = some (fd, v))
    (cpu : CpuId) (ok : Bool) :
    ∃ es, Custody ((miniVcpuRelease v cpu ok).run { s with files := s.files.filter (·.1 ≠ fd) }).2 es := by
  have hmatches := h.structs e List.mem_cons_self
  have hvcpus : e.vcpus = [v] := by
    unfold VmEntry.vcpus
    rw [hfd]
    rfl
  have howner := hmatches.owner v (by simp [hvcpus])
  have hvcpu : (s.kvm e.kvm).vcpu = some v := by
    rw [hmatches.vcpu, hfd]
    rfl
  obtain ⟨l, hmoves, hfiles, hrelease⟩ := miniVcpuRelease_spec
    (s := { s with files := s.files.filter (·.1 ≠ fd) }) howner hvcpu cpu ok
  generalize ((miniVcpuRelease v cpu ok).run { s with files := s.files.filter (·.1 ≠ fd) }).2 = s'
    at hmoves hfiles hrelease ⊢
  have hsplit : e.files.Perm ((fd, .vcpu v) :: VmEntry.files ⟨e.kvm, e.vmFd, none⟩) := by
    unfold VmEntry.files
    rw [hfd]
    exact List.perm_append_comm.trans (by simp)
  have hheld : e.held s = ((s.vcpu v).resources v : Multiset Resource) +
      ((s.kvm e.kvm).resources e.kvm : Multiset Resource) := by
    rw [VmEntry.held, hvcpus, add_comm]
    simp
  refine h.close ⟨e.kvm, e.vmFd, none⟩ hsplit rfl ⟨hmoves.kvm, hmoves.vcpu, hmoves.ledger⟩ ?_ hfiles ?_
  · intro e' he' u hu heq
    obtain rfl := Option.some.inj heq
    exact (h.others e' he').2 u hu (by simp [hvcpus])
  · -- the reference of the vCPU may be the last one
    rcases hrelease with ⟨hne, hsame, hruns⟩ | ⟨hzero, hruns⟩
    · have href : (s.kvm e.kvm).refcount - 1 = (VmEntry.files ⟨e.kvm, e.vmFd, none⟩).length := by
        rw [hmatches.refcount, hsplit.length_eq, List.length_cons, Nat.add_sub_cancel]
      refine .inl ⟨hne, ⟨?_, ?_, ?_, ?_⟩, fun m => ?_⟩
      · intro hnil
        rw [hnil] at href
        exact hne href
      · exact hsame.refcount.trans href
      · exact hsame.vcpu
      · simp [VmEntry.vcpus]
      · have hafter : VmEntry.held ⟨e.kvm, e.vmFd, none⟩ s' =
            ((s.kvm e.kvm).resources e.kvm : Multiset Resource) := by
          have hclosed : (s.kvm e.kvm).closed.resources e.kvm = (s.kvm e.kvm).resources e.kvm := rfl
          rw [VmEntry.held, ← hclosed]
          exact (add_zero _).trans (congrArg _ (hsame.resources e.kvm))
        rw [hheld, hafter, add_assoc]
        exact hruns _ (Multiset.mem_add.2 (.inl (Multiset.mem_coe.2 (by simp [KvmObj.resources]))))
    · refine .inr ⟨hzero, fun m => ?_⟩
      rw [hheld, add_assoc]
      exact hruns m

theorem createVm (h : Custody s es) {o : CreateVmCall}
    (hfresh : ∀ k, o.kvm = some k → takes s.ledger (.kvm k) = gives s.ledger (.kvm k))
    (hfd : ∀ fd, o.fd = .ok fd → fd ∉ s.files.map Prod.fst) :
    ∃ es, Custody ((miniKvmCreateVm o).run s).2 es := by
  have hcreated := miniKvmCreateVm_spec s o
  generalize ((miniKvmCreateVm o).run s).2 = s' at hcreated ⊢
  have hne : ∀ k, o.kvm = some k → ∀ e ∈ es, e.kvm ≠ k := by
    intro k hk e he heq
    exact h.not_held (hfresh k hk) e he (heq ▸ e.kvm_mem_held s)
  cases hcreated with
  | noMemory none same => exact ⟨es, same ▸ h⟩
  -- what was taken is given back, and no entry comes in
  | refused k l ptr moves files runs =>
    refine ⟨es, exchange [] [] h moves (fun e he => ⟨hne k ptr e he, by simp⟩)
      ?_ ?_ (by simp) (by simp) (by simp) fun m => runs _⟩
    · rw [files]
      exact h.files
    · rw [files]
      exact h.fds
  | created k fd l ptr installed moves files ready runs =>
    obtain ⟨page, -, -, hobj⟩ := ready
    refine ⟨⟨k, some fd, none⟩ :: es, exchange [] [⟨k, some fd, none⟩] h moves
      (fun e he => ⟨hne k ptr e he, by simp⟩) ?_ ?_ (by simp) (by simp) ?_ fun m => ?_⟩
    · rw [files]
      exact h.files.cons _
    · rw [files]
      exact List.nodup_cons.2 ⟨hfd fd installed, h.fds⟩
    · intro e he
      obtain rfl := List.mem_singleton.1 he
      exact ⟨by simp [VmEntry.files], congrArg KvmObj.refcount hobj, congrArg KvmObj.vcpu hobj,
        by simp [VmEntry.vcpus]⟩
    · have hheld : heldBy s' [⟨k, some fd, none⟩] = ((s'.kvm k).resources k : Multiset Resource) := by
        simp [heldBy, VmEntry.held, VmEntry.vcpus]
      rw [hheld]
      exact (zero_add m).symm ▸ runs m

end Custody

/-! ### Runs -/

/-- What the allocators and `anon_inode_getfd()` promise: a new struct or descriptor is not in use. -/
def LifeOp.Fresh (s : Kernel) : LifeOp → Prop
  | .createVm o =>
    (∀ k, o.kvm = some k → takes s.ledger (.kvm k) = gives s.ledger (.kvm k)) ∧
      ∀ fd, o.fd = .ok fd → fd ∉ s.files.map Prod.fst
  | .createVcpu _ o =>
    (∀ v, o.vcpu = some v → takes s.ledger (.vcpu v) = gives s.ledger (.vcpu v)) ∧
      ∀ fd, o.fd = .ok fd → fd ∉ s.files.map Prod.fst
  | .setMemregion .. | .run .. | .close .. => True

theorem mem_files_of_lookup {s : Kernel} {fd : Fd} {f : File} (h : s.files.lookup fd = some f) :
    (fd, f) ∈ s.files := by
  obtain ⟨pre, post, hsplit, -⟩ := List.lookup_eq_some_iff.1 h
  rw [hsplit]
  simp

theorem Custody.step {s : Kernel} {es : List VmEntry} (h : Custody s es) {op : LifeOp} (hop : op.Fresh s) :
    ∃ es, Custody (s.step op) es := by
  unfold Kernel.step
  cases op with
  | createVm o =>
    dsimp only [LifeOp.exec]
    rw [run_bind, run_pure]
    exact h.createVm hop.1 hop.2
  | setMemregion fd o =>
    dsimp only [LifeOp.exec]
    rw [run_bind, run_get]
    dsimp only
    split
    · rename_i k hlookup
      obtain ⟨e, rest, hcustody, hmem⟩ := h.locate (mem_files_of_lookup hlookup)
      rw [run_bind, run_pure]
      exact ⟨_, hcustody.setMemregion (VmEntry.vm_mem_files.1 hmem).2 o⟩
    · exact ⟨es, h⟩
  | createVcpu fd o =>
    dsimp only [LifeOp.exec]
    rw [run_bind, run_get]
    dsimp only
    split
    · rename_i k hlookup
      obtain ⟨e, rest, hcustody, hmem⟩ := h.locate (mem_files_of_lookup hlookup)
      rw [run_bind, run_pure]
      exact hcustody.createVcpu (VmEntry.vm_mem_files.1 hmem).2 hop.1 hop.2
    · exact ⟨es, h⟩
  | run fd cpu allocs o =>
    dsimp only [LifeOp.exec]
    rw [run_bind, run_get]
    dsimp only
    split
    · rename_i v hlookup
      obtain ⟨e, rest, hcustody, hmem⟩ := h.locate (mem_files_of_lookup hlookup)
      exact ⟨_, hcustody.run (VmEntry.vcpu_mem_files.1 hmem) cpu allocs o⟩
    · exact ⟨es, h⟩
  | close fd cpu ok =>
    dsimp only [LifeOp.exec]
    rw [run_bind, run_get]
    dsimp only
    split
    · rename_i f hlookup
      obtain ⟨e, rest, hcustody, hmem⟩ := h.locate (mem_files_of_lookup hlookup)
      rw [run_bind]
      cases f with
      | vm k =>
        obtain ⟨hfd, rfl⟩ := VmEntry.vm_mem_files.1 hmem
        exact hcustody.closeVm hfd
      | vcpu v => exact hcustody.closeVcpu (VmEntry.vcpu_mem_files.1 hmem) cpu ok
    · exact ⟨es, h⟩

/-! ### Accounts -/

/-- The VM that a file refers to. -/
def Kernel.vmOf (s : Kernel) : File → KvmPtr
  | .vm k => k
  | .vcpu v => (s.vcpu v).kvm

def File.vcpuPtr : File → Option VcpuPtr
  | .vm _ => none
  | .vcpu v => some v

/-- The VMs with an open descriptor. -/
def Kernel.liveVms (s : Kernel) : List KvmPtr := (s.files.map fun f => s.vmOf f.2).dedup

/-- The vCPUs with an open descriptor. -/
def Kernel.liveVcpus (s : Kernel) : List VcpuPtr := s.files.filterMap fun f => f.2.vcpuPtr

/-- What the live VMs and vCPUs hold. -/
def Kernel.owned (s : Kernel) : Multiset Resource :=
  (s.liveVms.map fun k => ((s.kvm k).resources k : Multiset Resource)).sum +
    (s.liveVcpus.map fun v => ((s.vcpu v).resources v : Multiset Resource)).sum

/-- The accounts of the module. -/
structure Kernel.Accounted (s : Kernel) : Prop where
  /-- One reference for the open VM descriptor, and one for each open vCPU descriptor. -/
  refcount : ∀ k ∈ s.liveVms, (s.kvm k).refcount =
    (if ∃ f ∈ s.files, f.2 = .vm k then 1 else 0) + s.liveVcpus.countP fun v => (s.vcpu v).kvm = k
  /-- `kvm->vcpu` is the vCPU of the VM with an open descriptor, if there is one. -/
  vcpu : ∀ k ∈ s.liveVms, ∀ v, (s.kvm k).vcpu = some v ↔ v ∈ s.liveVcpus ∧ (s.vcpu v).kvm = k
  /-- `mini_kvm_destroy()` has run for each VM that has been created, but for the live ones. -/
  destroyed : ∀ k, takes s.ledger (.vm k) = gives s.ledger (.vm k) + if k ∈ s.liveVms then 1 else 0
  /-- What has been obtained has been released, or a live VM or vCPU holds it. -/
  balanced : ∀ r, takes s.ledger r = gives s.ledger r + s.owned.count r
  /-- Nothing has been touched or released that was not held at that moment. -/
  safe : Runs 0 s.ledger s.owned

namespace Custody

variable {s : Kernel} {e : VmEntry} {es : List VmEntry}

theorem vmOf_eq (h : e.Matches s) {f : Fd × File} (hf : f ∈ e.files) : s.vmOf f.2 = e.kvm := by
  obtain ⟨fd, k | v⟩ := f
  · exact (VmEntry.vm_mem_files.1 hf).2.symm
  · exact h.owner v (VmEntry.mem_vcpus.2 ⟨fd, VmEntry.vcpu_mem_files.1 hf⟩)

theorem liveVms_perm (h : Custody s es) : s.liveVms.Perm (es.map VmEntry.kvm) := by
  refine (List.perm_ext_iff_of_nodup (List.nodup_dedup _) h.kvms).2 fun k => ?_
  rw [List.mem_dedup, List.mem_map, List.mem_map]
  constructor
  · rintro ⟨f, hf, rfl⟩
    obtain ⟨e, he, hmem⟩ := List.mem_flatMap.1 (h.files.mem_iff.1 hf)
    exact ⟨e, he, (vmOf_eq (h.structs e he) hmem).symm⟩
  · rintro ⟨e, he, rfl⟩
    obtain ⟨f, hf⟩ := List.exists_mem_of_ne_nil _ (h.structs e he).live
    exact ⟨f, h.files.mem_iff.2 (List.mem_flatMap.2 ⟨e, he, hf⟩), vmOf_eq (h.structs e he) hf⟩

theorem liveVcpus_perm (h : Custody s es) : s.liveVcpus.Perm (es.flatMap VmEntry.vcpus) := by
  have hentry : ∀ e : VmEntry, (e.files.filterMap fun f => f.2.vcpuPtr) = e.vcpus := by
    rintro ⟨k, vmFd, vcpu⟩
    cases vmFd <;> cases vcpu <;> rfl
  have hfiles := h.files.filterMap fun f => f.2.vcpuPtr
  rw [List.filterMap_flatMap] at hfiles
  simp only [hentry] at hfiles
  exact hfiles

theorem owned_eq (h : Custody s es) : s.owned = heldBy s es := by
  have hvms := (h.liveVms_perm.map fun k => ((s.kvm k).resources k : Multiset Resource)).sum_eq
  have hvcpus := (h.liveVcpus_perm.map fun v => ((s.vcpu v).resources v : Multiset Resource)).sum_eq
  unfold Kernel.owned
  rw [hvms, hvcpus]
  clear h hvms hvcpus
  induction es with
  | nil => rfl
  | cons e es ih =>
    show _ = e.held s + heldBy s es
    rw [← ih, List.map_cons, List.map_cons, List.sum_cons, List.flatMap_cons, List.map_append, List.sum_append,
      VmEntry.held]
    exact add_add_add_comm _ _ _ _

/-- The entry of a live VM comes first. -/
theorem locateVm (h : Custody s es) {k : KvmPtr} (hk : k ∈ s.liveVms) :
    ∃ e rest, Custody s (e :: rest) ∧ e.kvm = k := by
  obtain ⟨e, he, rfl⟩ := List.mem_map.1 (h.liveVms_perm.mem_iff.1 hk)
  obtain ⟨pre, post, rfl⟩ := List.append_of_mem he
  exact ⟨e, pre ++ post, h.perm List.perm_middle, rfl⟩

theorem vcpu_iff {rest : List VmEntry} (h : Custody s (e :: rest)) (v : VcpuPtr) :
    v ∈ e.vcpus ↔ v ∈ s.liveVcpus ∧ (s.vcpu v).kvm = e.kvm := by
  rw [h.liveVcpus_perm.mem_iff, List.mem_flatMap]
  constructor
  · intro hv
    exact ⟨⟨e, List.mem_cons_self, hv⟩, (h.structs e List.mem_cons_self).owner v hv⟩
  · rintro ⟨⟨e', he', hv⟩, howner⟩
    rcases List.mem_cons.1 he' with rfl | he'
    · exact hv
    · rw [(h.structs e' (List.mem_cons_of_mem e he')).owner v hv] at howner
      exact absurd howner (h.others e' he').1

theorem countP_vcpus {rest : List VmEntry} (h : Custody s (e :: rest)) :
    s.liveVcpus.countP (fun v => (s.vcpu v).kvm = e.kvm) = e.vcpus.length := by
  have hrest : (rest.flatMap VmEntry.vcpus).countP (fun v => (s.vcpu v).kvm = e.kvm) = 0 := by
    refine List.countP_eq_zero.2 fun v hv => ?_
    obtain ⟨e', he', hv'⟩ := List.mem_flatMap.1 hv
    have howner := (h.structs e' (List.mem_cons_of_mem e he')).owner v hv'
    simpa [howner] using (h.others e' he').1
  have hall : e.vcpus.countP (fun v => (s.vcpu v).kvm = e.kvm) = e.vcpus.length :=
    List.countP_eq_length.2 fun v hv => by simpa using (h.structs e List.mem_cons_self).owner v hv
  rw [(h.liveVcpus_perm).countP_eq, List.flatMap_cons, List.countP_append, hrest, hall, Nat.add_zero]

theorem vmFd_iff {rest : List VmEntry} (h : Custody s (e :: rest)) :
    (∃ f ∈ s.files, f.2 = .vm e.kvm) ↔ e.vmFd.isSome := by
  rw [Option.isSome_iff_exists]
  constructor
  · rintro ⟨⟨fd, f⟩, hf, rfl⟩
    obtain ⟨e', he', hmem⟩ := List.mem_flatMap.1 (h.files.mem_iff.1 hf)
    obtain ⟨hfd, hk⟩ := VmEntry.vm_mem_files.1 hmem
    rcases List.mem_cons.1 he' with rfl | he'
    · exact ⟨fd, hfd⟩
    · exact absurd hk (h.others e' he').1
  · rintro ⟨fd, hfd⟩
    have hmem : (fd, File.vm e.kvm) ∈ e.files := VmEntry.vm_mem_files.2 ⟨hfd, rfl⟩
    exact ⟨_, h.files.mem_iff.2 (List.mem_flatMap.2 ⟨e, List.mem_cons_self, hmem⟩), rfl⟩

theorem count_vm_vms (s : Kernel) (ks : List KvmPtr) (k : KvmPtr) :
    (ks.map fun k => ((s.kvm k).resources k : Multiset Resource)).sum.count (.vm k) = ks.count k := by
  induction ks with
  | nil => rfl
  | cons k' ks ih =>
    have hslot : ((s.kvm k').slotResources).count (.vm k) = 0 := by
      unfold KvmObj.slotResources
      refine List.count_eq_zero.2 fun hmem => ?_
      split at hmem <;> simp at hmem
    have hpages : ((s.kvm k').pages.map Resource.page).count (.vm k) = 0 :=
      List.count_eq_zero.2 (by simp)
    have hhead : ((s.kvm k').resources k').count (.vm k) = if k' = k then 1 else 0 := by
      unfold KvmObj.resources
      rw [List.count_cons, List.count_cons, List.count_append, hslot, hpages]
      simp
    rw [List.map_cons, List.sum_cons, Multiset.count_add, ih, Multiset.coe_count, hhead, List.count_cons,
      Nat.add_comm]
    simp

theorem count_vm_vcpus (s : Kernel) (vs : List VcpuPtr) (k : KvmPtr) :
    (vs.map fun v => ((s.vcpu v).resources v : Multiset Resource)).sum.count (.vm k) = 0 := by
  induction vs with
  | nil => rfl
  | cons v vs ih =>
    have hhead : ((s.vcpu v).resources v).count (.vm k) = 0 :=
      List.count_eq_zero.2 (by simp [VcpuObj.resources])
    rw [List.map_cons, List.sum_cons, Multiset.count_add, ih, Multiset.coe_count, hhead]

theorem accounts (h : Custody s es) : s.Accounted := by
  have hledger : Runs 0 s.ledger s.owned := h.owned_eq ▸ h.ledger
  have hbalanced : ∀ r, takes s.ledger r = gives s.ledger r + s.owned.count r := by
    intro r
    have hcount := hledger.count r
    rwa [Multiset.count_zero, Nat.zero_add] at hcount
  refine ⟨?_, ?_, ?_, hbalanced, hledger⟩
  · intro k hk
    obtain ⟨e, rest, he, rfl⟩ := h.locateVm hk
    rw [(he.structs e List.mem_cons_self).refcount, he.countP_vcpus]
    simp only [he.vmFd_iff]
    unfold VmEntry.files VmEntry.vcpus
    cases e.vmFd <;> simp [Nat.add_comm]
  · intro k hk v
    obtain ⟨e, rest, he, rfl⟩ := h.locateVm hk
    rw [(he.structs e List.mem_cons_self).vcpu, ← he.vcpu_iff v, VmEntry.mem_vcpus, Option.map_eq_some_iff]
    simp
  · intro k
    have hcount : s.owned.count (.vm k) = s.liveVms.count k := by
      unfold Kernel.owned
      rw [Multiset.count_add, count_vm_vms, count_vm_vcpus, Nat.add_zero]
    have hnodup : s.liveVms.Nodup := List.nodup_dedup _
    rw [hbalanced, hcount, hnodup.count]

end Custody

/-- In every run of the module from a state in which it has nothing, its accounts are right. -/
theorem Kernel.accounted {s : Kernel} {ops : List LifeOp} (hfiles : s.files = []) (hledger : s.ledger = [])
    (hfresh : AllSteps Kernel.step (fun s op => op.Fresh s) s ops) : (runSteps Kernel.step s ops).Accounted := by
  have hstart : ∃ es, Custody s es := by
    refine ⟨[], ?_, ?_, List.nodup_nil, by simp, ?_⟩
    · rw [hfiles]
      exact .nil
    · rw [hfiles]
      exact List.nodup_nil
    · rw [hledger]
      rfl
  have hstep : ∀ s op, (∃ es, Custody s es) → op.Fresh s → ∃ es, Custody (s.step op) es :=
    fun s op ⟨es, h⟩ hop => h.step hop
  obtain ⟨es, h⟩ := AllSteps.inv hstep hstart hfresh
  exact h.accounts

namespace Kernel

/-- The module after it has been loaded. -/
def loaded : Kernel where
  hw := World.bootHw
  kvm _ := .fresh
  vcpu _ := ⟨.fresh, 0, none⟩
  files := []
  ledger := []

/-- A VM with a page of memory runs a guest, and its descriptor is closed before that of the vCPU. -/
def oneRun : List LifeOp :=
  [.createVm ⟨some 1, some 16, .ok 3⟩,
    .setMemregion 3 ⟨some ⟨0, 0, 0, 0x1000, 0x7000⟩, some 7, 1, fun _ => 32⟩,
    .createVcpu 3 ⟨0, some 2, some 17, 0, World.setupCall 18, .ok 4, true⟩,
    .run 4 0 [] World.haltRun, .close 3 0 true, .close 4 0 true]

theorem oneRun_fresh : AllSteps step (fun s op => op.Fresh s) loaded oneRun := by
  refine ⟨⟨?_, ?_⟩, trivial, ⟨?_, ?_⟩, trivial, trivial, trivial, trivial⟩
  · intro k hk
    obtain rfl := Option.some.inj hk
    decide +kernel
  · intro fd hfd
    obtain rfl := Except.ok.inj hfd
    decide +kernel
  · intro v hv
    obtain rfl := Option.some.inj hv
    decide +kernel
  · intro fd hfd
    obtain rfl := Except.ok.inj hfd
    decide +kernel

theorem accounted_oneRun : (runSteps step loaded oneRun).Accounted :=
  accounted rfl rfl oneRun_fresh

/-- The run creates the VM, pins its page, runs its guest and gives everything back. -/
example : ((runSteps step loaded oneRun).files = []) ∧
    takes (runSteps step loaded oneRun).ledger (.vm 1) = 1 ∧
    takes (runSteps step loaded oneRun).ledger (.pin 32) = 1 ∧
    gives (runSteps step loaded oneRun).ledger (.page 18) = 1 := by
  decide +kernel

end Kernel

end MiniVirt.Kvm
