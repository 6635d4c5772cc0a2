import MiniVirt.Kvm.Publication
import MiniVirt.Kvm.Spec.MemregionThread

/-!
# Which objects the operations dereference

The objects are the `struct mini_kvm` and `struct mini_kvm_vcpu` of the module.  `Kernel.Touches A s s'` is the
frame of the operations that free none of them and leave the reference counts alone: only objects in `A` are
dereferenced.
-/

namespace MiniVirt.Kvm

def Resource.isObject : Resource → Bool
  | .kvm _ | .vcpu _ => true
  | _ => false

/-- No object is dereferenced after it has been freed. -/
def ObjectSafe (l : List (LedgerEvent Resource)) : Prop :=
  l.Pairwise fun e e' => ∀ r, r.isObject → e = .give r → e' ≠ .use r

/-- Entries that free no object and dereference those in `A` at most. -/
def OnlyUses (A : Resource → Prop) (l : List (LedgerEvent Resource)) : Prop :=
  ∀ r, r.isObject → (.use r ∈ l → A r) ∧ .give r ∉ l

theorem onlyUses_nil (A : Resource → Prop) : OnlyUses A [] :=
  fun _ _ => ⟨fun h => absurd h List.not_mem_nil, List.not_mem_nil⟩

theorem OnlyUses.append {A : Resource → Prop} {l l' : List (LedgerEvent Resource)} (h : OnlyUses A l)
    (h' : OnlyUses A l') : OnlyUses A (l ++ l') := by
  intro r hr
  rw [List.mem_append, List.mem_append, not_or]
  exact ⟨fun hm => hm.elim (h r hr).1 (h' r hr).1, (h r hr).2, (h' r hr).2⟩

theorem onlyUses_use {A : Resource → Prop} {r : Resource} (hr : r.isObject → A r) : OnlyUses A [.use r] := by
  intro r' hr'
  constructor
  · intro hm
    obtain rfl := LedgerEvent.use.inj (List.mem_singleton.1 hm)
    exact hr hr'
  · intro hm
    cases List.mem_singleton.1 hm

theorem onlyUses_take (A : Resource → Prop) (r : Resource) : OnlyUses A [.take r] := by
  intro r' _
  constructor
  · intro hm
    cases List.mem_singleton.1 hm
  · intro hm
    cases List.mem_singleton.1 hm

/-- Entries about resources of another kind. -/
theorem onlyUses_map {α : Type} (A : Resource → Prop) (as : List α) (f : α → LedgerEvent Resource)
    (hf : ∀ a r, r.isObject → f a ≠ .use r ∧ f a ≠ .give r) : OnlyUses A (as.map f) := by
  intro r hr
  constructor
  · intro hm
    obtain ⟨a, -, ha⟩ := List.mem_map.1 hm
    exact absurd ha (hf a r hr).1
  · intro hm
    obtain ⟨a, -, ha⟩ := List.mem_map.1 hm
    exact (hf a r hr).2 ha

theorem onlyUses_pages (A : Resource → Prop) (pages : List Pfn) :
    OnlyUses A (pages.map fun page => .give (.page page)) := by
  refine onlyUses_map A pages _ fun a r hr => ⟨fun h => (by cases h), fun h => ?_⟩
  obtain rfl := LedgerEvent.give.inj h
  cases hr

/-- The release of another kind of resource. -/
theorem onlyUses_give {A : Resource → Prop} {r : Resource} (hr : r.isObject = false) : OnlyUses A [.give r] := by
  intro r' hr'
  constructor
  · intro hm
    cases List.mem_singleton.1 hm
  · intro hm
    obtain rfl := LedgerEvent.give.inj (List.mem_singleton.1 hm)
    rw [hr'] at hr
    cases hr

theorem onlyUses_unpins (A : Resource → Prop) (pages : List Pfn) :
    OnlyUses A (pages.map fun page => .give (.pin page)) := by
  refine onlyUses_map A pages _ fun a r hr => ⟨fun h => (by cases h), fun h => ?_⟩
  obtain rfl := LedgerEvent.give.inj h
  cases hr

/-- Entries that free no object are safe after a safe ledger in which the objects they dereference are alive. -/
theorem ObjectSafe.append {A : Resource → Prop} {l l' : List (LedgerEvent Resource)} (h : ObjectSafe l)
    (h' : OnlyUses A l') (hA : ∀ r, r.isObject → A r → .give r ∉ l) : ObjectSafe (l ++ l') := by
  refine List.pairwise_append.2 ⟨h, ?_, ?_⟩
  · refine List.pairwise_iff_forall_sublist.2 fun {e e'} hsub r hr he => ?_
    have hmem : e ∈ l' := hsub.subset List.mem_cons_self
    rw [he] at hmem
    exact absurd hmem (h' r hr).2
  · rintro e he e' he' r hr rfl rfl
    exact hA r hr ((h' r hr).1 he') he

/-- Of all that a vCPU holds, only its struct is an object. -/
theorem VcpuObj.eq_of_mem_resources {x : VcpuObj} {v : VcpuPtr} {r : Resource} (hr : r.isObject)
    (h : r ∈ x.resources v) : r = .vcpu v := by
  rcases List.mem_cons.1 h with rfl | h
  · rfl
  · obtain ⟨page, -, rfl⟩ := List.mem_map.1 h
    cases hr

/-- Of all that a VM holds, only its struct is an object. -/
theorem KvmObj.eq_of_mem_resources {x : KvmObj} {k : KvmPtr} {r : Resource} (hr : r.isObject)
    (h : r ∈ x.resources k) : r = .kvm k := by
  rcases List.mem_cons.1 h with rfl | h
  · cases hr
  rcases List.mem_cons.1 h with rfl | h
  · rfl
  rcases List.mem_append.1 h with h | h
  · unfold KvmObj.slotResources at h
    split at h
    · rcases List.mem_append.1 h with h | h <;>
      · obtain ⟨y, -, rfl⟩ := List.mem_map.1 h
        cases hr
    · exact absurd h List.not_mem_nil
  · obtain ⟨page, -, rfl⟩ := List.mem_map.1 h
    cases hr

/-! ### Operations that free nothing -/

/-- From `s` to `s'` objects in `A` are dereferenced at most, none is freed, and the references stay. -/
structure Kernel.Touches (A : Resource → Prop) (s s' : Kernel) : Prop where
  ledger : ∃ l, s'.ledger = s.ledger ++ l ∧ OnlyUses A l
  refcount : ∀ k, (s'.kvm k).refcount = (s.kvm k).refcount
  owner : ∀ v, (s'.vcpu v).kvm = (s.vcpu v).kvm
  files : s'.files = s.files

namespace Kernel

variable {A : Resource → Prop} {s s' s'' : Kernel}

theorem Touches.refl (A : Resource → Prop) (s : Kernel) : Touches A s s :=
  ⟨⟨[], (List.append_nil _).symm, onlyUses_nil A⟩, fun _ => rfl, fun _ => rfl, rfl⟩

theorem Touches.trans (h : Touches A s s') (h' : Touches A s' s'') : Touches A s s'' := by
  obtain ⟨l, hl, hA⟩ := h.ledger
  obtain ⟨l', hl', hA'⟩ := h'.ledger
  exact ⟨⟨l ++ l', by rw [hl', hl, List.append_assoc], hA.append hA'⟩,
    fun k => (h'.refcount k).trans (h.refcount k), fun v => (h'.owner v).trans (h.owner v),
    h'.files.trans h.files⟩

theorem touches_log {l : List (LedgerEvent Resource)} (hl : OnlyUses A l) (s : Kernel) : Touches A s (s.log l) :=
  ⟨⟨l, rfl, hl⟩, fun _ => rfl, fun _ => rfl, rfl⟩

theorem touches_putKvm (A : Resource → Prop) {k : KvmPtr} {x : KvmObj} (hx : x.refcount = (s.kvm k).refcount) :
    Touches A s (s.putKvm k x) := by
  refine ⟨⟨[], (List.append_nil _).symm, onlyUses_nil A⟩, fun k' => ?_, fun _ => rfl, rfl⟩
  by_cases hk : k' = k
  · rw [hk, putKvm_kvm, hx]
  · exact congrArg KvmObj.refcount (Function.update_of_ne hk ..)

theorem touches_returned (A : Resource → Prop) (s : Kernel) (v : VcpuPtr) (st : St) :
    Touches A s (s.returned v st) := by
  refine ⟨⟨[], (List.append_nil _).symm, onlyUses_nil A⟩, fun k => ?_, fun v' => ?_, rfl⟩
  · show (Function.update s.kvm _ _ k).refcount = _
    by_cases hk : k = (s.vcpu v).kvm
    · rw [hk, Function.update_self]
    · rw [Function.update_of_ne hk]
  · show (Function.update s.vcpu v _ v').kvm = _
    by_cases hv : v' = v
    · rw [hv, Function.update_self]
    · rw [Function.update_of_ne hv]

theorem onlyUses_callLedger (A : Resource → Prop) (allocs : List (Option Pfn)) (st : St) :
    OnlyUses A (callLedger allocs st) := by
  refine OnlyUses.append (onlyUses_map A _ _ fun a r hr => ⟨fun h => (by cases h), fun h => (by cases h)⟩) ?_
  exact onlyUses_pages A (freedPages st.trace)

theorem onVcpu_touches {α : Type} (A : Resource → Prop) (v : VcpuPtr) (cpu : CpuId) (allocs : List (Option Pfn))
    (m : M α) (s : Kernel) : Touches A s ((onVcpu v cpu allocs m).run s).2 := by
  rw [onVcpu_run]
  exact (touches_returned A s v _).trans (touches_log (onlyUses_callLedger A allocs _) _)

theorem touch_touches {r : Resource} (hr : r.isObject → A r) (s : Kernel) : Touches A s ((touch r).run s).2 :=
  touches_log (onlyUses_use hr) s

theorem kvmEptInit_touches {k : KvmPtr} (hk : A (.kvm k)) (pml4 : Option Pfn) (s : Kernel) :
    Touches A s ((kvmEptInit k pml4).run s).2 := by
  rw [kvmEptInit_run]
  cases miniEptInit s.hw.mem pml4 with
  | error r => exact .refl A s
  | ok y =>
    obtain ⟨mem, ept⟩ := y
    have hready : Touches A s (s.eptReady k mem ept) := by
      have hput : Touches A s (s.putKvm k ((s.kvm k).eptReady ept)) := touches_putKvm A rfl
      exact ⟨hput.ledger, hput.refcount, hput.owner, hput.files⟩
    exact hready.trans (touches_log ((onlyUses_take A _).append (onlyUses_use fun _ => hk)) _)

theorem kvmEptDestroy_touches {k : KvmPtr} (hk : A (.kvm k)) (s : Kernel) :
    Touches A s ((kvmEptDestroy k).run s).2 := by
  rw [kvmEptDestroy_run]
  have hput : Touches A s (s.putKvm k (s.kvm k).eptDestroyed) := touches_putKvm A rfl
  exact hput.trans (touches_log ((onlyUses_use fun _ => hk).append (onlyUses_pages A _)) _)

theorem vcpuVmxTeardown_touches {v : VcpuPtr} (hv : A (.vcpu v)) (cpu : CpuId) (ok : Bool) (s : Kernel) :
    Touches A s ((vcpuVmxTeardown v cpu ok).run s).2 := by
  unfold vcpuVmxTeardown
  rw [run_bind, touch_run, run_bind, run_get, run_bind, record_run]
  refine ((touches_log (onlyUses_use fun _ => hv) s).trans (touches_log ?_ _)).trans (onVcpu_touches A ..)
  refine onlyUses_map A _ _ fun a r hr => ⟨fun h => ?_, fun h => (by cases h)⟩
  obtain rfl := LedgerEvent.use.inj h
  cases hr

theorem vcpuVmxSetup_touches {v : VcpuPtr} (hv : A (.vcpu v)) (hk : A (.kvm (s.vcpu v).kvm)) (cpu : CpuId)
    (o : SetupCall) : Touches A s ((vcpuVmxSetup v cpu o).run s).2 := by
  unfold vcpuVmxSetup
  rw [run_bind, touch_run, run_bind, run_get, run_bind, touch_run, run_bind, record_run]
  refine (((touches_log (onlyUses_use fun _ => hv) s).trans (touches_log (onlyUses_use fun _ => hk) _)).trans
    (touches_log ?_ _)).trans (onVcpu_touches A ..)
  exact onlyUses_map A _ _ fun a r hr => ⟨fun h => (by cases h), fun h => (by cases h)⟩

theorem touchAll_touches {v : VcpuPtr} (hv : A (.vcpu v)) (hk : A (.kvm (s.vcpu v).kvm)) :
    Touches A s ((touchAll v).run s).2 := by
  rw [touchAll_run]
  refine touches_log ?_ s
  intro r hr
  constructor
  · intro hm
    rcases List.mem_cons.1 hm with hm | hm
    · obtain rfl := LedgerEvent.use.inj hm
      exact hv
    · obtain ⟨r', hr', he⟩ := List.mem_map.1 hm
      obtain rfl := LedgerEvent.use.inj he
      rcases List.mem_append.1 hr' with hr' | hr'
      · obtain rfl := VcpuObj.eq_of_mem_resources hr hr'
        exact hv
      · obtain rfl := KvmObj.eq_of_mem_resources hr hr'
        exact hk
  · intro hm
    rcases List.mem_cons.1 hm with hm | hm
    · cases hm
    · obtain ⟨r', -, he⟩ := List.mem_map.1 hm
      cases he

theorem vcpuRun_touches {v : VcpuPtr} (hv : A (.vcpu v)) (hk : A (.kvm (s.vcpu v).kvm)) (cpu : CpuId)
    (allocs : List (Option Pfn)) (o : RunCall) : Touches A s ((vcpuRun v cpu allocs o).run s).2 := by
  unfold vcpuRun
  rw [run_bind, run_bind]
  have hbefore : Touches A s ((touchAll v).run s).2 := touchAll_touches hv hk
  have hrun := hbefore.trans (onVcpu_touches A v cpu allocs (miniVcpuRunLoop o) _)
  refine hrun.trans (touchAll_touches hv ?_)
  rw [hrun.owner]
  exact hk

theorem ioctl_touches {v : VcpuPtr} (hv : A (.vcpu v)) (hk : A (.kvm (s.vcpu v).kvm)) (body : VcpuIoctl) :
    Touches A s ((body.exec v).run s).2 := by
  cases body with
  | run cpu allocs o => exact vcpuRun_touches hv hk cpu allocs o
  | injectIrq cpu vector =>
    unfold VcpuIoctl.exec
    rw [run_bind, run_bind]
    exact (touch_touches (fun _ => hv) s).trans (onVcpu_touches A ..)

theorem memregionPc_touches {k : KvmPtr} (hk : A (.kvm k)) (o : MemregionCall) (pc : MemregionPc) (s : Kernel) :
    Touches A s ((memregionPc k o pc).run s).2 := by
  have hpins : ∀ pages : List Pfn, OnlyUses A (pages.map fun page => .take (.pin page)) := fun pages =>
    onlyUses_map A pages _ fun a r hr => ⟨fun h => (by cases h), fun h => (by cases h)⟩
  cases pc with
  | copy =>
    cases hregion : o.region with
    | none =>
      unfold memregionPc
      rw [hregion]
      exact .refl A s
    | some region =>
      rw [memregionPc_copy_run k o hregion]
      exact .refl A s
  | testValid region =>
    rw [memregionPc_testValid_run]
    exact touches_log (onlyUses_use fun _ => hk) s
  | allocate region =>
    unfold memregionPc
    dsimp only
    rw [run_ite]
    split
    · exact .refl A s
    · cases o.array with
      | none => exact .refl A s
      | some a => exact touches_log (onlyUses_take A _) s
  | pin region a =>
    rw [memregionPc_pin_run]
    -- not all pages could be pinned: those that were are given back
    have huse : OnlyUses A [.use (.array a)] := onlyUses_use fun h => (by cases h)
    split
    · split
      · exact touches_log ((hpins _).append (huse.append ((onlyUses_unpins A _).append (onlyUses_give rfl)))) s
      · exact touches_log ((hpins _).append (onlyUses_give rfl)) s
    · exact touches_log (hpins _) s
  | store region a f =>
    rw [memregionPc_store_run]
    have hput : Touches A s (s.putKvm k ((s.kvm k).store o region a f)) := by
      refine touches_putKvm A ?_
      cases f <;> rfl
    exact hput.trans (touches_log (onlyUses_use fun _ => hk) _)
  | returned r => exact .refl A s

end Kernel

end MiniVirt.Kvm
