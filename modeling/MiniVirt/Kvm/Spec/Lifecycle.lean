import MiniVirt.Kvm.Lifecycle
import MiniVirt.Kvm.Spec.EptPointer
import MiniVirt.Kvm.Spec.Holders

/-!
# What each call of the lifecycle does

For every operation on a VM or a vCPU: which structs it may change (`Kernel.Moves`), what becomes of
them, and how its part of the ledger leads from what the caller holds before to what it holds after.
The `_run` lemmas compute the short operations, and the `_spec` lemmas describe the long ones, in which
every unwinding path ends either in the full object or in nothing.
-/

namespace MiniVirt.Kvm

/-! ### The pages of a call -/

/-- `e'` comes from `e` by taking pages from the allocator, all of which it tracks. -/
structure Grown (e e' : EptState) : Prop where
  pml4 : e'.ept.pml4 = e.ept.pml4
  eptp : e'.ept.eptp = e.ept.eptp
  tracked : ∃ pre, e.allocs = pre ++ e'.allocs ∧ e'.ept.tracked = e.ept.tracked ++ pre.reduceOption

theorem Grown.refl (e : EptState) : Grown e e := ⟨rfl, rfl, [], rfl, (List.append_nil _).symm⟩

theorem Grown.trans {e₁ e₂ e₃ : EptState} (h₁ : Grown e₁ e₂) (h₂ : Grown e₂ e₃) : Grown e₁ e₃ := by
  obtain ⟨pre₁, hallocs₁, htracked₁⟩ := h₁.tracked
  obtain ⟨pre₂, hallocs₂, htracked₂⟩ := h₂.tracked
  refine ⟨h₂.pml4.trans h₁.pml4, h₂.eptp.trans h₁.eptp, pre₁ ++ pre₂, ?_, ?_⟩
  · rw [hallocs₁, hallocs₂, List.append_assoc]
  · rw [htracked₂, htracked₁, List.reduceOption_append, List.append_assoc]

theorem eptNextTable_grown (e : EptState) (table : Pfn) (i : Fin 512) (alloc : Bool) :
    Grown e (eptNextTable e table i alloc).1 := by
  unfold eptNextTable
  split
  · split
    · exact .refl e
    · split
      · exact .refl e
      · split
        · exact .refl e
        · rename_i as has
          exact ⟨rfl, rfl, [none], has, (List.append_nil _).symm⟩
        · rename_i np as has
          exact ⟨rfl, rfl, [some np], has, rfl⟩
  · exact .refl e

theorem eptWalkTables_grown (gpa : BitVec 64) (alloc : Bool) (shifts : List Nat) (e : EptState) (table : Pfn) :
    Grown e (eptWalkTables gpa alloc shifts e table).1 := by
  induction shifts generalizing e table with
  | nil => exact .refl e
  | cons shift shifts ih =>
    have hstep := eptNextTable_grown e table (eptIndex gpa shift) alloc
    rw [eptWalkTables]
    generalize eptNextTable e table (eptIndex gpa shift) alloc = x at hstep ⊢
    obtain ⟨e', r⟩ := x
    cases r with
    | none => exact hstep
    | some table' => exact hstep.trans (ih e' table')

theorem Violation.grown {slot : MiniKvmMemslot} {e e' : EptState} (h : Violation slot e e') : Grown e e' := by
  obtain ⟨gpa, rfl⟩ := h
  unfold eptHandleViolation miniEptWalk
  dsimp only
  split
  · exact .refl e
  · have hwalk := eptWalkTables_grown (gpa &&& pageMask) true [39, 30, 21] e e.ept.pml4
    generalize eptWalkTables (gpa &&& pageMask) true [39, 30, 21] e e.ept.pml4 = x at hwalk ⊢
    obtain ⟨e', r⟩ := x
    cases r with
    | none => exact hwalk
    | some table => exact ⟨hwalk.pml4, hwalk.eptp, hwalk.tracked⟩

theorem grown_of_violations {slot : MiniKvmMemslot} {e e' : EptState}
    (h : Relation.ReflTransGen (Violation slot) e e') : Grown e e' := by
  induction h with
  | refl => exact .refl e
  | tail _ hstep ih => exact ih.trans hstep.grown

theorem freedPages_append (l l' : List Event) : freedPages (l ++ l') = freedPages l ++ freedPages l' :=
  List.filterMap_append

theorem freedPages_eq_nil {c : CpuId} {x : Vmx} {w : VcpuVmx} {l : List Event}
    (h : ∀ e ∈ l, e.IsLoop c x w) : freedPages l = [] := by
  refine List.filterMap_eq_nil_iff.2 fun e he => ?_
  have hloop := h e he
  cases e <;> first | rfl | exact hloop.elim

theorem freedPages_unloadEvents (x : Vmx) (c : CpuId) (w : VcpuVmx) (ok : Bool) :
    freedPages (x.unloadEvents c w ok) = [] := by
  unfold Vmx.unloadEvents
  split
  · rfl
  · split <;> rfl

/-- A setup that fails frees its page. -/
theorem SetupSteps.freed {c : CpuId} {x x' : Vmx} {o : SetupCall} {r : Int} {v : VcpuVmx} {l : List Event}
    (h : SetupSteps c x o r x' v l) :
    r = 0 ∧ v.vmcsPage = o.page ∧ o.page.isSome ∧ freedPages l = [] ∨
      r ≠ 0 ∧ v.vmcsPage = none ∧ freedPages l = o.page.toList := by
  cases h with
  | noPage h => exact .inr ⟨by decide, rfl, by rw [h]; rfl⟩
  | clearFail h ho => exact .inr ⟨by decide, rfl, by rw [h]; rfl⟩
  | ptrldFail h hc hp => exact .inr ⟨by decide, rfl, by rw [h]; rfl⟩
  | rejected h hc hp =>
    refine .inr ⟨by decide, rfl, ?_⟩
    rw [freedPages_append, freedPages_append, freedPages_unloadEvents, h]
    rfl
  | ok h hc hp hl =>
    refine .inl ⟨rfl, h.symm, by rw [h]; rfl, ?_⟩
    rw [freedPages_append, freedPages_append, freedPages_unloadEvents,
      freedPages_eq_nil fun e he => (hl e he).isLoop]
    rfl

theorem TeardownSteps.freed {c : CpuId} {x x' : Vmx} {w w' : VcpuVmx} {ok : Bool} {l : List Event}
    (h : TeardownSteps c x w ok x' w' l) : freedPages l = w.vmcsPage.toList := by
  cases h with
  | noPage h =>
    rw [h]
    rfl
  | free h =>
    rw [freedPages_append, freedPages_unloadEvents, h]
    rfl

/-! ### Memory and ledger -/

namespace Kernel

def log (s : Kernel) (l : List (LedgerEvent Resource)) : Kernel := { s with ledger := s.ledger ++ l }

def putKvm (s : Kernel) (k : KvmPtr) (x : KvmObj) : Kernel := { s with kvm := Function.update s.kvm k x }

def putVcpu (s : Kernel) (v : VcpuPtr) (x : VcpuObj) : Kernel := { s with vcpu := Function.update s.vcpu v x }

@[simp]
theorem log_log (s : Kernel) (l l' : List (LedgerEvent Resource)) : (s.log l).log l' = s.log (l ++ l') := by
  unfold log
  rw [List.append_assoc]

@[simp]
theorem log_nil (s : Kernel) : s.log [] = s := by
  unfold log
  rw [List.append_nil]

@[simp]
theorem log_kvm (s : Kernel) (l : List (LedgerEvent Resource)) : (s.log l).kvm = s.kvm := rfl

@[simp]
theorem log_vcpu (s : Kernel) (l : List (LedgerEvent Resource)) : (s.log l).vcpu = s.vcpu := rfl

@[simp]
theorem putKvm_log (s : Kernel) (l : List (LedgerEvent Resource)) (k : KvmPtr) (x : KvmObj) :
    (s.log l).putKvm k x = (s.putKvm k x).log l := rfl

@[simp]
theorem putKvm_putKvm (s : Kernel) (k : KvmPtr) (x y : KvmObj) : (s.putKvm k x).putKvm k y = s.putKvm k y := by
  unfold putKvm
  rw [Function.update_idem]

@[simp]
theorem putKvm_kvm (s : Kernel) (k : KvmPtr) (x : KvmObj) : (s.putKvm k x).kvm k = x :=
  Function.update_self ..

@[simp]
theorem putVcpu_log (s : Kernel) (l : List (LedgerEvent Resource)) (v : VcpuPtr) (x : VcpuObj) :
    (s.log l).putVcpu v x = (s.putVcpu v x).log l := rfl

@[simp]
theorem putVcpu_putVcpu (s : Kernel) (v : VcpuPtr) (x y : VcpuObj) :
    (s.putVcpu v x).putVcpu v y = s.putVcpu v y := by
  unfold putVcpu
  rw [Function.update_idem]

@[simp]
theorem putVcpu_vcpu (s : Kernel) (v : VcpuPtr) (x : VcpuObj) : (s.putVcpu v x).vcpu v = x :=
  Function.update_self ..

theorem putKvm_self (s : Kernel) (k : KvmPtr) : s.putKvm k (s.kvm k) = s := by
  unfold putKvm
  rw [Function.update_eq_self]

/-- `s'` has other contents than `s` at `k` and `v` at most, and the new ledger entries `l`. -/
structure Moves (s s' : Kernel) (k : KvmPtr) (v : Option VcpuPtr) (l : List (LedgerEvent Resource)) :
    Prop where
  kvm : ∀ k', k' ≠ k → s'.kvm k' = s.kvm k'
  vcpu : ∀ v', some v' ≠ v → s'.vcpu v' = s.vcpu v'
  ledger : s'.ledger = s.ledger ++ l

theorem Moves.trans {s₁ s₂ s₃ : Kernel} {k : KvmPtr} {v : Option VcpuPtr}
    {l l' : List (LedgerEvent Resource)} (h₁ : Moves s₁ s₂ k v l) (h₂ : Moves s₂ s₃ k v l') :
    Moves s₁ s₃ k v (l ++ l') := by
  refine ⟨fun k' hk => (h₂.kvm k' hk).trans (h₁.kvm k' hk),
    fun v' hv => (h₂.vcpu v' hv).trans (h₁.vcpu v' hv), ?_⟩
  rw [h₂.ledger, h₁.ledger, List.append_assoc]

theorem moves_log (s : Kernel) (k : KvmPtr) (v : Option VcpuPtr) (l : List (LedgerEvent Resource)) :
    Moves s (s.log l) k v l := ⟨fun _ _ => rfl, fun _ _ => rfl, rfl⟩

theorem moves_putKvm (s : Kernel) (k : KvmPtr) (v : Option VcpuPtr) (x : KvmObj) :
    Moves s (s.putKvm k x) k v [] :=
  ⟨fun _ hk => Function.update_of_ne hk .., fun _ _ => rfl, (List.append_nil _).symm⟩

theorem moves_putVcpu (s : Kernel) (k : KvmPtr) (v : VcpuPtr) (x : VcpuObj) :
    Moves s (s.putVcpu v x) k (some v) [] :=
  ⟨fun _ _ => rfl, fun _ hv => Function.update_of_ne (fun h => hv (congrArg some h)) ..,
    (List.append_nil _).symm⟩

end Kernel

theorem record_run (l : List (LedgerEvent Resource)) (s : Kernel) : (record l).run s = ((), s.log l) := rfl

theorem take_run (r : Resource) (s : Kernel) : (take r).run s = ((), s.log [.take r]) := rfl

theorem touch_run (r : Resource) (s : Kernel) : (touch r).run s = ((), s.log [.use r]) := rfl

theorem give_run (r : Resource) (s : Kernel) : (give r).run s = ((), s.log [.give r]) := rfl

theorem modifyKvm_run (k : KvmPtr) (f : KvmObj → KvmObj) (s : Kernel) :
    (modifyKvm k f).run s = ((), s.putKvm k (f (s.kvm k))) := rfl

theorem modifyVcpuObj_run (v : VcpuPtr) (f : VcpuObj → VcpuObj) (s : Kernel) :
    (modifyVcpuObj v f).run s = ((), s.putVcpu v (f (s.vcpu v))) := rfl

theorem kvfree_run (a : Option ArrayPtr) (s : Kernel) :
    (kvfree a).run s = ((), s.log (a.toList.map fun a => .give (.array a))) := rfl

/-! ### The memslot and the references -/

namespace KvmObj

variable (k : KvmPtr) (x : KvmObj)

/-- The struct after `mini_kvm_unpin_memslot()`. -/
def unpinned : KvmObj :=
  if x.kvm.slot.valid then
    { x with kvm := { x.kvm with slot := { x.kvm.slot with valid := false } }, pagesArray := none }
  else x

def unpinLedger : List (LedgerEvent Resource) :=
  if x.kvm.slot.valid then
    x.pagesArray.toList.map (fun a => .use (.array a)) ++
      ((pinnedPages x.kvm.slot.pages x.kvm.slot.npages.toNat).map (fun page => .give (.pin page)) ++
        x.pagesArray.toList.map fun a => .give (.array a))
  else []

/-- The struct after `mini_ept_destroy()`. -/
def eptDestroyed : KvmObj :=
  { x with kvm := { x.kvm with ept := { x.kvm.ept with tracked := [] } }, hasPml4 := false }

/-- The ledger of `mini_kvm_destroy()`. -/
def destroyLedger : List (LedgerEvent Resource) :=
  .give (.vm k) :: .use (.kvm k) :: (x.unpinLedger ++
    .use (.kvm k) :: (x.pages.map (fun page => .give (.page page)) ++ [.give (.kvm k)]))

def dropped : KvmObj := { x with refcount := x.refcount - 1 }

end KvmObj

open Ledger

/-- Unpinning releases the array and the pins. -/
theorem KvmObj.runs_unpin (x : KvmObj) (m : Multiset Resource) :
    Runs ((x.slotResources : Multiset Resource) + m) x.unpinLedger m := by
  unfold KvmObj.slotResources KvmObj.unpinLedger
  split
  · have huse := runs_uses_map Resource.array x.pagesArray.toList
      (m := ↑(x.pagesArray.toList.map Resource.array ++
        (pinnedPages x.kvm.slot.pages x.kvm.slot.npages.toNat).map Resource.pin) + m)
      fun a ha => Multiset.mem_add.2 (.inl (List.mem_append_left _ (List.mem_map_of_mem ha)))
    have hpins := runs_gives_map Resource.pin (pinnedPages x.kvm.slot.pages x.kvm.slot.npages.toNat)
      ((x.pagesArray.toList.map Resource.array : Multiset Resource) + m)
    have harray := runs_gives_map Resource.array x.pagesArray.toList m
    refine huse.append (Runs.append ?_ harray)
    rw [← Multiset.coe_add, add_comm (x.pagesArray.toList.map Resource.array : Multiset Resource), add_assoc]
    exact hpins
  · exact zero_add m

/-- `mini_kvm_destroy()` releases all that the VM holds. -/
theorem KvmObj.runs_destroy (k : KvmPtr) (x : KvmObj) (m : Multiset Resource) :
    Runs ((x.resources k : Multiset Resource) + m) (x.destroyLedger k) m := by
  have hsplit : (x.resources k : Multiset Resource) + m =
      .vm k ::ₘ ((x.slotResources : Multiset Resource) +
        ((x.pages.map Resource.page : Multiset Resource) + .kvm k ::ₘ m)) := by
    rw [KvmObj.resources, ← Multiset.cons_coe, ← Multiset.cons_coe, ← Multiset.coe_add, Multiset.cons_add,
      Multiset.cons_add, add_assoc, Multiset.add_cons, Multiset.add_cons]
  have hkvm : ∀ n : Multiset Resource, Resource.kvm k ∈ n + .kvm k ::ₘ m := fun n =>
    Multiset.mem_add.2 (.inr (Multiset.mem_cons_self ..))
  have hunpin := x.runs_unpin ((x.pages.map Resource.page : Multiset Resource) + .kvm k ::ₘ m)
  have hpages := runs_gives_map Resource.page x.pages (.kvm k ::ₘ m)
  have hlast : Runs (.kvm k ::ₘ m) [.give (.kvm k)] m :=
    ⟨Multiset.mem_cons_self .., Multiset.erase_cons_head ..⟩
  rw [hsplit]
  refine ⟨Multiset.mem_cons_self .., ?_⟩
  rw [Multiset.erase_cons_head]
  refine ⟨?_, hunpin.append ⟨hkvm _, hpages.append hlast⟩⟩
  rw [← add_assoc]
  exact hkvm _

theorem miniKvmUnpinMemslot_run (k : KvmPtr) (s : Kernel) :
    (miniKvmUnpinMemslot k).run s =
      ((), (s.putKvm k (s.kvm k).unpinned).log (.use (.kvm k) :: (s.kvm k).unpinLedger)) := by
  unfold miniKvmUnpinMemslot unpinUserPages KvmObj.unpinned KvmObj.unpinLedger
  rw [run_bind, touch_run, run_bind, run_get]
  dsimp only
  cases hvalid : (s.kvm k).kvm.slot.valid with
  | true =>
    simp only [Kernel.log_kvm, hvalid, Bool.not_true, Bool.false_eq_true, if_false]
    rw [run_bind, record_run, run_bind, kvfree_run, modifyKvm_run]
    simp
  | false =>
    simp [hvalid, s.putKvm_self k]
    rfl

theorem kvmEptDestroy_run (k : KvmPtr) (s : Kernel) :
    (kvmEptDestroy k).run s = ((), (s.putKvm k (s.kvm k).eptDestroyed).log
      (.use (.kvm k) :: (s.kvm k).pages.map fun page => .give (.page page))) := by
  unfold kvmEptDestroy KvmObj.eptDestroyed
  rw [run_bind, touch_run, run_bind, run_get, run_bind, record_run, modifyKvm_run]
  simp

theorem miniKvmDestroy_run (k : KvmPtr) (s : Kernel) :
    (miniKvmDestroy k).run s =
      ((), (s.putKvm k (s.kvm k).unpinned.eptDestroyed).log ((s.kvm k).destroyLedger k)) := by
  have hpages : (s.kvm k).unpinned.pages = (s.kvm k).pages := by
    unfold KvmObj.unpinned
    split <;> rfl
  unfold miniKvmDestroy KvmObj.destroyLedger
  rw [run_bind, give_run, run_bind, miniKvmUnpinMemslot_run, run_bind, kvmEptDestroy_run, give_run]
  simp [hpages]

theorem miniKvmGet_run (k : KvmPtr) (s : Kernel) :
    (miniKvmGet k).run s =
      ((), (s.putKvm k { s.kvm k with refcount := (s.kvm k).refcount + 1 }).log [.use (.kvm k)]) := rfl

theorem miniKvmPut_run (k : KvmPtr) (s : Kernel) :
    (miniKvmPut k).run s =
      if (s.kvm k).refcount - 1 = 0 then
        ((), (s.putKvm k (s.kvm k).dropped.unpinned.eptDestroyed).log
          (.use (.kvm k) :: (s.kvm k).dropped.destroyLedger k))
      else ((), (s.putKvm k (s.kvm k).dropped).log [.use (.kvm k)]) := by
  unfold miniKvmPut
  rw [run_bind, touch_run, run_bind, modifyKvm_run, run_bind, run_get, run_ite]
  have hdropped : ((s.log [.use (.kvm k)]).putKvm k ((s.log [.use (.kvm k)]).kvm k).dropped).kvm k =
      (s.kvm k).dropped := by simp
  by_cases hzero : (s.kvm k).refcount - 1 = 0
  · rw [if_pos hzero, if_pos, miniKvmDestroy_run]
    · simp [KvmObj.dropped]
    · simpa using hzero
  · rw [if_neg hzero, if_neg]
    · simp [KvmObj.dropped]
      rfl
    · simpa using hzero

/-- A VM with a memslot in place. -/
def KvmObj.withSlot (x : KvmObj) (slot : MiniKvmMemslot) (a : ArrayPtr) : KvmObj :=
  { x with kvm := { x.kvm with slot := slot }, pagesArray := some a }

theorem KvmObj.withSlot_resources {x : KvmObj} (hvalid : x.kvm.slot.valid = false) (k : KvmPtr)
    (slot : MiniKvmMemslot) (a : ArrayPtr) :
    ((x.withSlot slot a).resources k : Multiset Resource) =
      ((x.withSlot slot a).slotResources : Multiset Resource) + (x.resources k : Multiset Resource) := by
  have hnone : x.slotResources = [] := by
    unfold KvmObj.slotResources
    rw [hvalid]
    rfl
  have hpages : (x.withSlot slot a).pages = x.pages := rfl
  unfold KvmObj.resources
  rw [hnone, hpages, List.nil_append, ← Multiset.cons_coe, ← Multiset.cons_coe, ← Multiset.coe_add,
    ← Multiset.cons_coe, ← Multiset.cons_coe, Multiset.add_cons, Multiset.add_cons]

/-- A memory region that is refused leaves nothing behind; else the VM holds the array and the pins. -/
theorem miniKvmSetMemregion_spec (k : KvmPtr) (o : MemregionCall) (s : Kernel) :
    let s' := ((miniKvmSetMemregion k o).run s).2
    (∃ l, s' = s.log l ∧ ∀ m : Multiset Resource, .kvm k ∈ m → Runs m l m) ∨
      (s.kvm k).kvm.slot.valid = false ∧ ∃ l slot a, slot.valid = true ∧
        s' = (s.putKvm k ((s.kvm k).withSlot slot a)).log l ∧ ∀ m : Multiset Resource, .kvm k ∈ m →
          Runs m l (((s.kvm k).withSlot slot a).slotResources + m) := by
  have huse : ∀ m : Multiset Resource, .kvm k ∈ m → Runs m [.use (.kvm k)] m := fun m hm => ⟨hm, rfl⟩
  unfold miniKvmSetMemregion
  dsimp only
  cases o.region with
  | none => exact .inl ⟨[], s.log_nil.symm, fun m _ => rfl⟩
  | some region =>
    dsimp only
    rw [run_ite]
    split
    · exact .inl ⟨[], s.log_nil.symm, fun m _ => rfl⟩
    · rw [run_bind, touch_run, run_bind, run_get, run_ite]
      split
      · exact .inl ⟨_, rfl, huse⟩
      · rename_i hvalid
        rw [run_ite]
        split
        · exact .inl ⟨_, rfl, huse⟩
        · cases o.array with
          | none => exact .inl ⟨_, rfl, huse⟩
          | some a =>
            dsimp only
            rw [run_bind, take_run, run_bind, record_run, run_ite]
            generalize hpins : pinnedPages o.pages o.pinned.toNat = pins
            have htake : ∀ m : Multiset Resource, Runs (.array a ::ₘ m) (pins.map fun page => .take (.pin page))
                ((pins.map Resource.pin : Multiset Resource) + .array a ::ₘ m) := fun m =>
              runs_takes_map Resource.pin pins (.array a ::ₘ m)
            have harray : ∀ m : Multiset Resource,
                Resource.array a ∈ (pins.map Resource.pin : Multiset Resource) + .array a ::ₘ m := fun m =>
              Multiset.mem_add.2 (.inr (Multiset.mem_cons_self ..))
            have hgive : ∀ m : Multiset Resource, Runs (.array a ::ₘ m) [.give (.array a)] m := fun m =>
              ⟨Multiset.mem_cons_self .., Multiset.erase_cons_head ..⟩
            split
            · -- fewer pages are pinned than asked for
              rw [run_ite]
              split
              · refine .inl ⟨.use (.kvm k) :: .take (.array a) :: (pins.map (fun page => .take (.pin page)) ++
                  (.use (.array a) :: (pins.map (fun page => .give (.pin page)) ++ [.give (.array a)]))), ?_, ?_⟩
                · unfold unpinUserPages
                  rw [run_bind, record_run, run_bind, kvfree_run, run_pure, hpins]
                  simp
                · intro m hm
                  refine ⟨hm, (htake m).append ⟨harray m, ?_⟩⟩
                  exact (runs_gives_map Resource.pin pins (.array a ::ₘ m)).append (hgive m)
              · rename_i hnone
                have hzero : pins = [] := by
                  rw [← hpins, Int.toNat_of_nonpos (by omega)]
                  rfl
                refine .inl ⟨[.use (.kvm k), .take (.array a), .give (.array a)], ?_, fun m hm => ⟨hm, hgive m⟩⟩
                rw [run_bind, kvfree_run, run_pure, hzero]
                simp
            · rename_i hpinned
              have hnpages : o.pinned.toNat = (region.memorySize >>> 12).toNat := by
                rw [not_not.1 hpinned, Int.toNat_natCast]
              have hslot : (s.kvm k).kvm.slot.valid = false := Bool.eq_false_iff.2 hvalid
              refine .inr ⟨hslot, .use (.kvm k) :: .take (.array a) ::
                (pins.map (fun page => .take (.pin page)) ++ List.replicate 4 (.use (.kvm k))),
                ⟨true, region.guestPhysAddr, region.memorySize >>> 12, o.pages⟩, a, rfl, ?_, ?_⟩
              · rw [run_bind, record_run, run_bind, modifyKvm_run, run_pure]
                simp [KvmObj.withSlot]
              · intro m hm
                have hres : ((s.kvm k).withSlot ⟨true, region.guestPhysAddr, region.memorySize >>> 12, o.pages⟩
                    a).slotResources = .array a :: pins.map Resource.pin := by
                  rw [← hpins, hnpages]
                  rfl
                have hkvm : Resource.kvm k ∈ (pins.map Resource.pin : Multiset Resource) + .array a ::ₘ m :=
                  Multiset.mem_add.2 (.inr (Multiset.mem_cons_of_mem hm))
                rw [hres, ← Multiset.cons_coe, Multiset.cons_add, ← Multiset.add_cons]
                exact ⟨hm, (htake m).append ⟨hkvm, hkvm, hkvm, hkvm, rfl⟩⟩

/-! ### vCPUs -/

/-- What the accounting reads of a `struct mini_kvm` is the same. -/
structure KvmObj.Same (x y : KvmObj) : Prop where
  slot : y.kvm.slot = x.kvm.slot
  ept : y.kvm.ept = x.kvm.ept
  hasPml4 : y.hasPml4 = x.hasPml4
  pagesArray : y.pagesArray = x.pagesArray
  refcount : y.refcount = x.refcount
  vcpu : y.vcpu = x.vcpu

theorem KvmObj.Same.refl (x : KvmObj) : x.Same x := ⟨rfl, rfl, rfl, rfl, rfl, rfl⟩

theorem KvmObj.Same.trans {x y z : KvmObj} (h₁ : x.Same y) (h₂ : y.Same z) : x.Same z :=
  ⟨h₂.slot.trans h₁.slot, h₂.ept.trans h₁.ept, h₂.hasPml4.trans h₁.hasPml4,
    h₂.pagesArray.trans h₁.pagesArray, h₂.refcount.trans h₁.refcount, h₂.vcpu.trans h₁.vcpu⟩

theorem KvmObj.Same.resources {x y : KvmObj} (h : x.Same y) (k : KvmPtr) : y.resources k = x.resources k := by
  unfold KvmObj.resources KvmObj.slotResources KvmObj.pages
  rw [h.slot, h.ept, h.hasPml4, h.pagesArray]

theorem onVcpu_run {α : Type} (v : VcpuPtr) (cpu : CpuId) (allocs : List (Option Pfn)) (m : M α) (s : Kernel) :
    (onVcpu v cpu allocs m).run s =
      ((m.run (s.call cpu v allocs)).1, (s.returned v (m.run (s.call cpu v allocs)).2).log
        (callLedger allocs (m.run (s.call cpu v allocs)).2)) := rfl

theorem Kernel.moves_returned (s : Kernel) (v : VcpuPtr) (st : St) :
    Moves s (s.returned v st) (s.vcpu v).kvm (some v) [] :=
  ⟨fun _ hk => Function.update_of_ne hk .., fun _ hv => Function.update_of_ne (fun h => hv (congrArg some h)) ..,
    (List.append_nil _).symm⟩

theorem Kernel.returned_kvm (s : Kernel) (v : VcpuPtr) (st : St) :
    (s.returned v st).kvm (s.vcpu v).kvm = { s.kvm (s.vcpu v).kvm with kvm := st.kvm } :=
  Function.update_self ..

theorem Kernel.returned_vcpu (s : Kernel) (v : VcpuPtr) (st : St) :
    (s.returned v st).vcpu v = { s.vcpu v with vcpu := st.vcpu } := Function.update_self ..

/-- A call that leaves the EPT and the memslot alone. -/
theorem onVcpu_vm {α : Type} {m : M α} (hm : Within vmFrame m) (v : VcpuPtr) (cpu : CpuId) (s : Kernel) :
    let st := (m.run (s.call cpu v [])).2
    let s' := ((onVcpu v cpu [] m).run s).2
    Kernel.Moves s s' (s.vcpu v).kvm (some v) ((freedPages st.trace).map fun page => .give (.page page)) ∧
      s'.files = s.files ∧ (s.kvm (s.vcpu v).kvm).Same (s'.kvm (s.vcpu v).kvm) ∧
        s'.vcpu v = { s.vcpu v with vcpu := st.vcpu } := by
  obtain ⟨hept, hslot⟩ := hm (s.call cpu v [])
  rw [onVcpu_run]
  dsimp only
  generalize (m.run (s.call cpu v [])).2 = st at hept hslot ⊢
  have hledger : callLedger [] st = (freedPages st.trace).map fun page => .give (.page page) := by
    rw [callLedger, List.take_nil]
    rfl
  rw [hledger]
  refine ⟨(s.moves_returned v st).trans (Kernel.moves_log ..), rfl, ?_, s.returned_vcpu v st⟩
  rw [Kernel.log_kvm, s.returned_kvm v st]
  exact ⟨hslot, congrArg EptState.ept hept, rfl, rfl, rfl, rfl⟩

/-- The setup holds the VMCS page afterwards if it succeeds, and nothing if it fails. -/
theorem vcpuVmxSetup_spec {s : Kernel} {v : VcpuPtr} (hfresh : (s.vcpu v).vcpu = .fresh) (cpu : CpuId)
    (o : SetupCall) :
    let y := (vcpuVmxSetup v cpu o).run s
    ∃ l x, Kernel.Moves s y.2 (s.vcpu v).kvm (some v) l ∧ y.2.files = s.files ∧
      (s.kvm (s.vcpu v).kvm).Same (y.2.kvm (s.vcpu v).kvm) ∧ y.2.vcpu v = { s.vcpu v with vcpu := x } ∧
        (y.1 = 0 → ∃ page, o.page = some page ∧ x.vmx = ⟨some page, pageToPhys page, false, none⟩ ∧
          (y.2.hw.vmcs (pageToPhys page)).field .eptPointer = (s.kvm (s.vcpu v).kvm).kvm.ept.eptp) ∧
        (y.1 ≠ 0 → x.vmcsPage = none) ∧
          ∀ m : Multiset Resource, .vcpu v ∈ m → .kvm (s.vcpu v).kvm ∈ m →
            Runs m l ((x.vmcsPage.toList.map Resource.page : Multiset Resource) + m) := by
  have hrun : (vcpuVmxSetup v cpu o).run s = (onVcpu v cpu [] (miniVcpuVmxSetup o)).run
      (s.log (.use (.vcpu v) :: .use (.kvm (s.vcpu v).kvm) ::
        o.page.toList.map fun page => .take (.page page))) := by
    unfold vcpuVmxSetup
    rw [run_bind, touch_run, run_bind, run_get, run_bind, touch_run, run_bind, record_run]
    simp
  rw [hrun]
  generalize hs₁ : s.log (.use (.vcpu v) :: .use (.kvm (s.vcpu v).kvm) ::
    o.page.toList.map fun page => .take (.page page)) = s₁
  have hvcpu : s₁.vcpu = s.vcpu := by rw [← hs₁, Kernel.log_vcpu]
  have hkvm : s₁.kvm = s.kvm := by rw [← hs₁, Kernel.log_kvm]
  have hfiles : s₁.files = s.files := by rw [← hs₁]; rfl
  obtain ⟨x, w, l, hsteps, he⟩ := miniVcpuVmxSetup_steps (s₁.call cpu v []) o
    (by show (s₁.vcpu v).vcpu.vmx = _; rw [hvcpu, hfresh])
  obtain ⟨hmoves, hfiles', hsame, hobj⟩ := onVcpu_vm (miniVcpuVmxSetup_vm o) v cpu s₁
  have hresult : ((onVcpu v cpu [] (miniVcpuVmxSetup o)).run s₁).1 =
      ((miniVcpuVmxSetup o).run (s₁.call cpu v [])).1 := rfl
  have htrace : ((miniVcpuVmxSetup o).run (s₁.call cpu v [])).2.trace = l := he.trace
  have hpage : ((miniVcpuVmxSetup o).run (s₁.call cpu v [])).2.vcpu.vmcsPage = w.vmcsPage :=
    congrArg VcpuVmx.vmcsPage he.vcpu
  rw [htrace, hvcpu] at hmoves
  rw [hvcpu, hkvm] at hsame
  rw [hvcpu] at hobj
  dsimp only
  rw [hresult]
  have hlog : Kernel.Moves s s₁ (s.vcpu v).kvm (some v) (.use (.vcpu v) :: .use (.kvm (s.vcpu v).kvm) ::
      o.page.toList.map fun page => .take (.page page)) := by
    rw [← hs₁]
    exact Kernel.moves_log ..
  -- the page is taken first; a failing set-up frees it
  have htake : ∀ m : Multiset Resource, Runs m (o.page.toList.map fun page => .take (.page page))
      ((o.page.toList.map Resource.page : Multiset Resource) + m) := fun m =>
    runs_takes_map Resource.page o.page.toList m
  refine ⟨_, _, hlog.trans hmoves, hfiles'.trans hfiles, hsame, hobj, ?_, ?_, fun m hv hk => ?_⟩
  · intro hr
    rw [hr] at hsteps
    obtain ⟨page, ho, hvmx⟩ := hsteps.page
    have heptp := (miniVcpuVmxSetup_eptp (s₁.call cpu v []) o).2 hr page ho
    refine ⟨page, ho, he.vcpu.trans hvmx, heptp.trans ?_⟩
    show (s₁.kvm (s₁.vcpu v).kvm).kvm.ept.eptp = _
    rw [hvcpu, hkvm]
  · intro hr
    rcases hsteps.freed with ⟨hzero, -⟩ | ⟨-, hw, -⟩
    · exact absurd hzero hr
    · rw [hpage, hw]
  · refine Runs.append (l := _ :: _ :: _) ⟨hv, hk, htake m⟩ ?_
    rw [hpage]
    rcases hsteps.freed with ⟨-, hw, -, hfreed⟩ | ⟨-, hw, hfreed⟩
    · rw [hw, hfreed]
      rfl
    · rw [hw, hfreed]
      show Runs _ _ (0 + m)
      rw [zero_add]
      exact runs_gives_map Resource.page o.page.toList m

/-- The teardown releases the VMCS page. -/
theorem vcpuVmxTeardown_spec (s : Kernel) (v : VcpuPtr) (cpu : CpuId) (ok : Bool) :
    let s' := ((vcpuVmxTeardown v cpu ok).run s).2
    ∃ l x, Kernel.Moves s s' (s.vcpu v).kvm (some v) l ∧ s'.files = s.files ∧
      (s.kvm (s.vcpu v).kvm).Same (s'.kvm (s.vcpu v).kvm) ∧ s'.vcpu v = { s.vcpu v with vcpu := x } ∧
        ∀ m : Multiset Resource, .vcpu v ∈ m →
          Runs (((s.vcpu v).vcpu.vmcsPage.toList.map Resource.page : Multiset Resource) + m) l m := by
  have hrun : (vcpuVmxTeardown v cpu ok).run s = (onVcpu v cpu [] (miniVcpuVmxTeardown ok)).run
      (s.log (.use (.vcpu v) :: (s.vcpu v).vcpu.vmcsPage.toList.map fun page => .use (.page page))) := by
    unfold vcpuVmxTeardown
    rw [run_bind, touch_run, run_bind, run_get, run_bind, record_run]
    simp
  rw [hrun]
  generalize hs₁ : s.log (.use (.vcpu v) :: (s.vcpu v).vcpu.vmcsPage.toList.map fun page => .use (.page page)) = s₁
  have hvcpu : s₁.vcpu = s.vcpu := by rw [← hs₁, Kernel.log_vcpu]
  have hkvm : s₁.kvm = s.kvm := by rw [← hs₁, Kernel.log_kvm]
  have hfiles : s₁.files = s.files := by rw [← hs₁]; rfl
  obtain ⟨x, w, l, hsteps, he⟩ := miniVcpuVmxTeardown_steps (s₁.call cpu v []) ok
  obtain ⟨hmoves, hfiles', hsame, hobj⟩ := onVcpu_vm (miniVcpuVmxTeardown_vm ok) v cpu s₁
  have htrace : ((miniVcpuVmxTeardown ok).run (s₁.call cpu v [])).2.trace = l := he.trace
  have hfreed : freedPages l = (s.vcpu v).vcpu.vmcsPage.toList := by
    rw [hsteps.freed, ← hvcpu]
    rfl
  rw [htrace, hvcpu, hfreed] at hmoves
  rw [hvcpu, hkvm] at hsame
  rw [hvcpu] at hobj
  have hlog : Kernel.Moves s s₁ (s.vcpu v).kvm (some v)
      (.use (.vcpu v) :: (s.vcpu v).vcpu.vmcsPage.toList.map fun page => .use (.page page)) := by
    rw [← hs₁]
    exact Kernel.moves_log ..
  refine ⟨_, _, hlog.trans hmoves, hfiles'.trans hfiles, hsame, hobj, fun m hv => ?_⟩
  have huse := runs_uses_map Resource.page (s.vcpu v).vcpu.vmcsPage.toList
    (m := ((s.vcpu v).vcpu.vmcsPage.toList.map Resource.page : Multiset Resource) + m)
    fun page hpage => Multiset.mem_add.2 (.inl (Multiset.mem_coe.2 (List.mem_map_of_mem hpage)))
  exact Runs.append (l := _ :: _) ⟨Multiset.mem_add.2 (.inr hv), huse⟩
    (runs_gives_map Resource.page (s.vcpu v).vcpu.vmcsPage.toList m)

theorem freeVcpu_run (v : VcpuPtr) (s : Kernel) :
    (freeVcpu v).run s = ((), s.log (.use (.vcpu v) ::
      ((s.vcpu v).runPage.toList.map (fun page => .give (.page page)) ++ [.give (.vcpu v)]))) := by
  unfold freeVcpu
  rw [run_bind, touch_run, run_bind, run_get, run_bind, record_run, give_run]
  simp

theorem runs_freeVcpu (v : VcpuPtr) (page : Option Pfn) (m : Multiset Resource) :
    Runs ((page.toList.map Resource.page : Multiset Resource) + .vcpu v ::ₘ m)
      (.use (.vcpu v) :: (page.toList.map (fun page => .give (.page page)) ++ [.give (.vcpu v)])) m := by
  refine ⟨Multiset.mem_add.2 (.inr (Multiset.mem_cons_self ..)), ?_⟩
  exact (runs_gives_map Resource.page page.toList (.vcpu v ::ₘ m)).append
    ⟨Multiset.mem_cons_self .., Multiset.erase_cons_head ..⟩

/-- A vCPU that is torn down and freed releases all that it holds. -/
theorem removeVcpu_spec (s : Kernel) (v : VcpuPtr) (cpu : CpuId) (ok : Bool) :
    let s' := ((do
      vcpuVmxTeardown v cpu ok
      freeVcpu v : K Unit).run s).2
    ∃ l, Kernel.Moves s s' (s.vcpu v).kvm (some v) l ∧ s'.files = s.files ∧
      (s.kvm (s.vcpu v).kvm).Same (s'.kvm (s.vcpu v).kvm) ∧
        ∀ m : Multiset Resource, Runs (((s.vcpu v).resources v : Multiset Resource) + m) l m := by
  obtain ⟨l, x, hmoves, hfiles, hsame, hobj, hruns⟩ := vcpuVmxTeardown_spec s v cpu ok
  rw [run_bind, freeVcpu_run]
  generalize ((vcpuVmxTeardown v cpu ok).run s).2 = s₁ at hmoves hfiles hsame hobj ⊢
  rw [hobj]
  refine ⟨_, hmoves.trans (Kernel.moves_log ..), hfiles, hsame, fun m => ?_⟩
  have hfree := runs_freeVcpu v (s.vcpu v).runPage m
  have hteardown := hruns (((s.vcpu v).runPage.toList.map Resource.page : Multiset Resource) + .vcpu v ::ₘ m)
    (Multiset.mem_add.2 (.inr (Multiset.mem_cons_self ..)))
  have hsplit : ((s.vcpu v).resources v : Multiset Resource) + m =
      ((s.vcpu v).vcpu.vmcsPage.toList.map Resource.page : Multiset Resource) +
        (((s.vcpu v).runPage.toList.map Resource.page : Multiset Resource) + .vcpu v ::ₘ m) := by
    rw [VcpuObj.resources, List.map_append, ← Multiset.cons_coe, ← Multiset.coe_add, Multiset.cons_add,
      Multiset.add_cons, Multiset.add_cons, ← add_assoc,
      add_comm ((s.vcpu v).vcpu.vmcsPage.toList.map Resource.page : Multiset Resource)]
  rw [hsplit]
  exact hteardown.append hfree

/-- A VM with one more reference, which points to the vCPU. -/
def KvmObj.opened (x : KvmObj) (v : VcpuPtr) : KvmObj := { x with refcount := x.refcount + 1, vcpu := some v }

/-- The vCPU is published, or nothing but the ledger has changed. -/
theorem publishVcpu_spec {s : Kernel} {k : KvmPtr} (href : (s.kvm k).refcount ≠ 0) (v : VcpuPtr)
    (fd : Except Int Fd) :
    let y := (publishVcpu k v fd).run s
    (∃ r l, y = (.error r, s.log l) ∧ ∀ m : Multiset Resource, .kvm k ∈ m → Runs m l m) ∨
      (s.kvm k).vcpu = none ∧ ∃ n l, fd = .ok n ∧
        y = (.ok n, { (s.putKvm k ((s.kvm k).opened v)).log l with files := (n, .vcpu v) :: s.files }) ∧
          ∀ m : Multiset Resource, .kvm k ∈ m → Runs m l m := by
  -- the reference that is taken first is given back on failure
  have hput : ∀ (s₁ : Kernel) (l : List (LedgerEvent Resource)),
      (s₁.kvm k) = { s.kvm k with refcount := (s.kvm k).refcount + 1 } →
      s₁ = (s.putKvm k (s₁.kvm k)).log l → (miniKvmPut k).run s₁ = ((), s.log (l ++ [.use (.kvm k)])) := by
    intro s₁ l hk hs₁
    have hdropped : (s₁.kvm k).dropped = s.kvm k := by
      rw [hk]
      rfl
    rw [miniKvmPut_run, if_neg (by rw [hk]; exact href), hdropped, hs₁]
    simp [s.putKvm_self k]
  have huses : ∀ (m : Multiset Resource) (n : Nat), .kvm k ∈ m → Runs m (List.replicate n (.use (.kvm k))) m := by
    intro m n hm
    induction n with
    | zero => rfl
    | succ n ih => exact ⟨hm, ih⟩
  unfold publishVcpu
  dsimp only
  rw [run_bind, miniKvmGet_run, run_bind, touch_run, run_bind, run_get, run_ite]
  split
  · rw [run_bind, hput _ [.use (.kvm k), .use (.kvm k)] (by simp) (by simp), run_pure]
    exact .inl ⟨_, _, rfl, fun m hm => huses m 3 hm⟩
  · -- no vCPU yet; its pointer is set before the file is there
    rename_i hnone
    have hvcpu : (s.kvm k).vcpu = none := by simpa using hnone
    rw [run_bind, modifyKvm_run]
    cases fd with
    | error r =>
      dsimp only
      rw [run_bind, touch_run, run_bind, modifyKvm_run, run_bind,
        hput _ [.use (.kvm k), .use (.kvm k), .use (.kvm k)] (by simp [hvcpu]) (by simp), run_pure]
      exact .inl ⟨_, _, rfl, fun m hm => huses m 4 hm⟩
    | ok n =>
      refine .inr ⟨hvcpu, n, [.use (.kvm k), .use (.kvm k)], rfl, ?_, fun m hm => huses m 2 hm⟩
      dsimp only
      rw [run_bind]
      simp [KvmObj.opened]
      rfl

theorem KvmObj.Same.opened {x y : KvmObj} (h : x.Same y) (v : VcpuPtr) : (x.opened v).Same (y.opened v) :=
  ⟨h.slot, h.ept, h.hasPml4, h.pagesArray, congrArg (· + 1) h.refcount, rfl⟩

/-- The state in which the setup of a new vCPU starts. -/
def Kernel.beforeSetup (s : Kernel) (k : KvmPtr) (v : VcpuPtr) (page : Pfn) : Kernel :=
  (s.putVcpu v ⟨.fresh, k, some page⟩).log [.use (.kvm k), .take (.vcpu v), .take (.page page)]

/-- A vCPU after its setup with the VMCS page `page`, for a VM with that EPTP. -/
structure VcpuObj.Ready (x : VcpuObj) (hw : Hw) (runPage page : Pfn) (eptp : BitVec 64) : Prop where
  runPage : x.runPage = some runPage
  vmx : x.vcpu.vmx = ⟨some page, pageToPhys page, false, none⟩
  eptPointer : (hw.vmcs (pageToPhys page)).field .eptPointer = eptp

/-- What KVM_CREATE_VCPU leaves: a published vCPU, or nothing. -/
inductive VcpuCreated (s s' : Kernel) (k : KvmPtr) (o : CreateVcpuCall) : Prop where
  | refused (l : List (LedgerEvent Resource)) (moves : Kernel.Moves s s' k o.vcpu l)
      (files : s'.files = s.files) (same : (s.kvm k).Same (s'.kvm k))
      (runs : ∀ m : Multiset Resource, .kvm k ∈ m → Runs m l m)
  | created (v : VcpuPtr) (fd : Fd) (l : List (LedgerEvent Resource)) (ptr : o.vcpu = some v)
      (installed : o.fd = .ok fd) (first : (s.kvm k).vcpu = none) (moves : Kernel.Moves s s' k (some v) l)
      (files : s'.files = (fd, .vcpu v) :: s.files) (same : ((s.kvm k).opened v).Same (s'.kvm k))
      (owner : (s'.vcpu v).kvm = k)
      (ready : ∃ runPage page, o.runPage = some runPage ∧ o.setup.page = some page ∧
        (s'.vcpu v).Ready s'.hw runPage page (s.kvm k).kvm.ept.eptp)
      (runs : ∀ m : Multiset Resource, .kvm k ∈ m →
        Runs m l (((s'.vcpu v).resources v : Multiset Resource) + m))

theorem createVcpuRest_spec {s : Kernel} {k : KvmPtr} (href : (s.kvm k).refcount ≠ 0) {o : CreateVcpuCall}
    {v : VcpuPtr} (hv : o.vcpu = some v) {page : Pfn} (hpage : o.runPage = some page) :
    VcpuCreated s ((createVcpuRest k v o).run (s.beforeSetup k v page)).2 k o := by
  have hobj₀ : (s.beforeSetup k v page).vcpu v = ⟨.fresh, k, some page⟩ := Function.update_self ..
  have hmoves₀ : Kernel.Moves s (s.beforeSetup k v page) k (some v)
      [.use (.kvm k), .take (.vcpu v), .take (.page page)] :=
    (Kernel.moves_putVcpu s k v _).trans (Kernel.moves_log ..)
  have hfiles₀ : (s.beforeSetup k v page).files = s.files := rfl
  have hkvm₀ : (s.beforeSetup k v page).kvm = s.kvm := rfl
  generalize s.beforeSetup k v page = s₀ at hobj₀ hmoves₀ hfiles₀ hkvm₀ ⊢
  obtain ⟨l₁, x, hmoves₁, hfiles₁, hsame₁, hobj₁, hok, hfail, hruns₁⟩ :=
    vcpuVmxSetup_spec (s := s₀) (v := v) (by rw [hobj₀]) o.cpu o.setup
  rw [hobj₀] at hmoves₁ hsame₁ hobj₁ hruns₁
  rw [hkvm₀] at hsame₁
  have hmoves := hmoves₀.trans hmoves₁
  rw [createVcpuRest, run_bind, run_ite]
  generalize (vcpuVmxSetup v o.cpu o.setup).run s₀ = y₁ at hmoves₁ hfiles₁ hsame₁ hobj₁ hok hfail hmoves ⊢
  obtain ⟨r, s₁⟩ := y₁
  dsimp only at hmoves₁ hfiles₁ hsame₁ hobj₁ hok hfail hmoves ⊢
  -- the vCPU, its run page and the VMCS page of a successful setup are held
  have hstart : ∀ m : Multiset Resource, .kvm k ∈ m →
      Runs m ([.use (.kvm k), .take (.vcpu v), .take (.page page)] ++ l₁)
        ((x.vmcsPage.toList.map Resource.page : Multiset Resource) + .page page ::ₘ .vcpu v ::ₘ m) := by
    intro m hm
    have hthree : Runs m [.use (.kvm k), .take (.vcpu v), .take (.page page)] (.page page ::ₘ .vcpu v ::ₘ m) := by
      refine ⟨hm, ?_⟩
      rfl
    refine hthree.append (hruns₁ _ ?_ ?_)
    · exact Multiset.mem_cons_of_mem (Multiset.mem_cons_self ..)
    · exact Multiset.mem_cons_of_mem (Multiset.mem_cons_of_mem hm)
  by_cases hr : r ≠ 0
  · rw [if_pos hr, run_bind, freeVcpu_run, run_pure, hobj₁]
    have hfreed := hmoves.trans (Kernel.moves_log s₁ k (some v) (.use (.vcpu v) ::
      ((some page).toList.map (fun page => .give (.page page)) ++ [.give (.vcpu v)])))
    rw [← hv] at hfreed
    refine .refused _ hfreed (hfiles₁.trans hfiles₀) hsame₁ fun m hm => ?_
    have hgone := hstart m hm
    rw [hfail hr] at hgone
    refine hgone.append ?_
    show Runs (0 + _) _ _
    rw [zero_add]
    exact runs_freeVcpu v (some page) m
  · rw [if_neg hr, run_bind]
    have href₁ : (s₁.kvm k).refcount ≠ 0 := by
      rw [hsame₁.refcount]
      exact href
    have hres : ∀ m : Multiset Resource, (VcpuObj.resources v ⟨x, k, some page⟩ : Multiset Resource) + m =
        (x.vmcsPage.toList.map Resource.page : Multiset Resource) + .page page ::ₘ .vcpu v ::ₘ m := by
      intro m
      show ((.vcpu v :: .page page :: x.vmcsPage.toList.map Resource.page : List Resource) : Multiset Resource) +
        m = _
      rw [← Multiset.cons_coe, ← Multiset.cons_coe, Multiset.cons_add, Multiset.cons_add, Multiset.add_cons,
        Multiset.add_cons, Multiset.cons_swap]
    rcases publishVcpu_spec href₁ v o.fd with ⟨r', l₂, hy, hruns₂⟩ | ⟨hnone, fd, l₂, hfd, hy, hruns₂⟩
    · rw [hy]
      have hmoves₂ := hmoves.trans (Kernel.moves_log s₁ k (some v) l₂)
      obtain ⟨l₃, hmoves₃, hfiles₃, hsame₃, hruns₃⟩ := removeVcpu_spec (s₁.log l₂) v o.cpu o.teardownOk
      rw [Kernel.log_vcpu, hobj₁] at hmoves₃ hsame₃ hruns₃
      dsimp only
      rw [← bind_assoc, run_bind, run_pure]
      have hall := hmoves₂.trans hmoves₃
      rw [← hv] at hall
      refine .refused _ hall (hfiles₃.trans (hfiles₁.trans hfiles₀))
        (hsame₁.trans hsame₃) fun m hm => ?_
      have hheld := hstart m hm
      rw [← hres m] at hheld
      exact (hheld.append (hruns₂ _ (Multiset.mem_add.2 (.inr hm)))).append (hruns₃ m)
    · rw [hy]
      have hobj : s₁.vcpu v = ⟨x, k, some page⟩ := hobj₁
      have hpublished : Kernel.Moves s₁ ((s₁.putKvm k ((s₁.kvm k).opened v)).log l₂) k (some v) l₂ :=
        (Kernel.moves_putKvm s₁ k (some v) _).trans (Kernel.moves_log _ k (some v) l₂)
      have hall := hmoves.trans hpublished
      refine .created v fd _ hv hfd (hsame₁.vcpu ▸ hnone) ⟨hall.kvm, hall.vcpu, hall.ledger⟩ ?_ ?_ ?_ ?_ fun m hm => ?_
      · exact congrArg (_ :: ·) (hfiles₁.trans hfiles₀)
      · show KvmObj.Same _ ((s₁.putKvm k ((s₁.kvm k).opened v)).kvm k)
        rw [Kernel.putKvm_kvm]
        exact hsame₁.opened v
      · exact congrArg VcpuObj.kvm hobj
      · obtain ⟨vmcsPage, ho, hvmx, heptp⟩ := hok (not_not.1 hr)
        refine ⟨page, vmcsPage, hpage, ho, congrArg VcpuObj.runPage hobj, ?_, heptp.trans ?_⟩
        · show (s₁.vcpu v).vcpu.vmx = _
          rw [hobj, hvmx]
        · rw [hobj₀, hkvm₀]
      · show Runs m _ (((s₁.vcpu v).resources v : Multiset Resource) + m)
        rw [hobj, hres m]
        refine (hstart m hm).append (hruns₂ _ ?_)
        exact Multiset.mem_add.2 (.inr (Multiset.mem_cons_of_mem (Multiset.mem_cons_of_mem hm)))

theorem miniKvmCreateVcpu_spec {s : Kernel} {k : KvmPtr} (href : (s.kvm k).refcount ≠ 0) (o : CreateVcpuCall) :
    VcpuCreated s ((miniKvmCreateVcpu k o).run s).2 k o := by
  have hrefused : ∀ l, (∀ m : Multiset Resource, .kvm k ∈ m → Runs m l m) → VcpuCreated s (s.log l) k o :=
    fun l hl => .refused l (Kernel.moves_log ..) rfl (.refl _) hl
  have huse : ∀ m : Multiset Resource, .kvm k ∈ m → Runs m [.use (.kvm k)] m := fun m hm => ⟨hm, rfl⟩
  unfold miniKvmCreateVcpu
  rw [run_ite]
  split
  · have hnil := hrefused [] fun m _ => rfl
    rw [s.log_nil] at hnil
    exact hnil
  · rw [run_bind, touch_run, run_bind, run_get, run_ite]
    split
    · exact hrefused _ huse
    · cases hv : o.vcpu with
      | none => exact hrefused _ huse
      | some v =>
        dsimp only
        rw [run_bind, take_run, run_bind, modifyVcpuObj_run]
        cases hpage : o.runPage with
        | none =>
          dsimp only
          rw [run_bind, give_run, run_pure]
          -- no page for the run structure: the vCPU is freed again
          have hmoves := (Kernel.moves_putVcpu s k v ⟨.fresh, k, none⟩).trans (Kernel.moves_log _ k (some v)
            [.use (.kvm k), .take (.vcpu v), .give (.vcpu v)])
          rw [← hv] at hmoves
          refine .refused [.use (.kvm k), .take (.vcpu v), .give (.vcpu v)] ?_ rfl (.refl _) fun m hm => ?_
          · simpa using hmoves
          · exact ⟨hm, Multiset.mem_cons_self .., Multiset.erase_cons_head ..⟩
        | some page =>
          dsimp only
          rw [run_bind, take_run, run_bind, modifyVcpuObj_run]
          have hrest := createVcpuRest_spec href hv hpage
          unfold Kernel.beforeSetup at hrest
          simpa using hrest

/-! ### Release and KVM_RUN -/

theorem Kernel.Moves.addVcpu {s s' : Kernel} {k : KvmPtr} {l : List (LedgerEvent Resource)}
    (h : Kernel.Moves s s' k none l) (v : VcpuPtr) : Kernel.Moves s s' k (some v) l :=
  ⟨h.kvm, fun v' _ => h.vcpu v' (by simp), h.ledger⟩

/-- The last reference destroys the VM and releases all that it holds. -/
theorem miniKvmPut_spec (s : Kernel) (k : KvmPtr) :
    let s' := ((miniKvmPut k).run s).2
    ∃ l, Kernel.Moves s s' k none l ∧ s'.files = s.files ∧
      ((s.kvm k).refcount - 1 ≠ 0 ∧ s'.kvm k = (s.kvm k).dropped ∧
          (∀ m : Multiset Resource, .kvm k ∈ m → Runs m l m) ∨
        (s.kvm k).refcount - 1 = 0 ∧
          ∀ m : Multiset Resource, Runs (((s.kvm k).resources k : Multiset Resource) + m) l m) := by
  rw [miniKvmPut_run]
  by_cases hzero : (s.kvm k).refcount - 1 = 0
  · rw [if_pos hzero]
    refine ⟨_, (Kernel.moves_putKvm s k none _).trans (Kernel.moves_log ..), rfl, .inr ⟨hzero, fun m => ?_⟩⟩
    have hres : (s.kvm k).dropped.resources k = (s.kvm k).resources k := rfl
    refine ⟨Multiset.mem_add.2 (.inl (Multiset.mem_coe.2 (by simp [KvmObj.resources]))), ?_⟩
    rw [← hres]
    exact (s.kvm k).dropped.runs_destroy k m
  · rw [if_neg hzero]
    refine ⟨_, (Kernel.moves_putKvm s k none _).trans (Kernel.moves_log ..), rfl,
      .inl ⟨hzero, ?_, fun m hm => ⟨hm, rfl⟩⟩⟩
    rw [Kernel.log_kvm, Kernel.putKvm_kvm]

/-- A VM whose vCPU is closed. -/
def KvmObj.closed (x : KvmObj) : KvmObj := { x with refcount := x.refcount - 1, vcpu := none }

/-- The release of a vCPU gives back all that it holds, and with the last reference all that the VM holds. -/
theorem miniVcpuRelease_spec {s : Kernel} {v : VcpuPtr} {k : KvmPtr} (howner : (s.vcpu v).kvm = k)
    (hvcpu : (s.kvm k).vcpu = some v) (cpu : CpuId) (ok : Bool) :
    let s' := ((miniVcpuRelease v cpu ok).run s).2
    ∃ l, Kernel.Moves s s' k (some v) l ∧ s'.files = s.files ∧
      ((s.kvm k).refcount - 1 ≠ 0 ∧ (s.kvm k).closed.Same (s'.kvm k) ∧
          (∀ m : Multiset Resource, .kvm k ∈ m →
            Runs (((s.vcpu v).resources v : Multiset Resource) + m) l m) ∨
        (s.kvm k).refcount - 1 = 0 ∧ ∀ m : Multiset Resource,
          Runs (((s.vcpu v).resources v : Multiset Resource) +
            (((s.kvm k).resources k : Multiset Resource) + m)) l m) := by
  have hrun : (miniVcpuRelease v cpu ok).run s = (miniKvmPut k).run ((do
      vcpuVmxTeardown v cpu ok
      freeVcpu v : K Unit).run ((s.putKvm k { s.kvm k with vcpu := none }).log
        [.use (.vcpu v), .use (.kvm k)])).2 := by
    unfold miniVcpuRelease
    rw [run_bind, touch_run, run_bind, run_get, Kernel.log_vcpu, howner, run_bind, touch_run, run_bind,
      modifyKvm_run, ← bind_assoc, run_bind]
    simp [hvcpu]
  rw [hrun]
  have hmoves₁ : Kernel.Moves s ((s.putKvm k { s.kvm k with vcpu := none }).log
      [.use (.vcpu v), .use (.kvm k)]) k (some v) [.use (.vcpu v), .use (.kvm k)] :=
    (Kernel.moves_putKvm s k (some v) _).trans (Kernel.moves_log _ k (some v) _)
  have hobj₁ : ((s.putKvm k { s.kvm k with vcpu := none }).log [.use (.vcpu v), .use (.kvm k)]).vcpu =
      s.vcpu := rfl
  have hkvm₁ : ((s.putKvm k { s.kvm k with vcpu := none }).log [.use (.vcpu v), .use (.kvm k)]).kvm k =
      { s.kvm k with vcpu := none } := by simp
  have hfiles₁ : ((s.putKvm k { s.kvm k with vcpu := none }).log [.use (.vcpu v), .use (.kvm k)]).files =
      s.files := rfl
  generalize (s.putKvm k { s.kvm k with vcpu := none }).log [.use (.vcpu v), .use (.kvm k)] = s₁
    at hmoves₁ hobj₁ hkvm₁ hfiles₁ ⊢
  obtain ⟨l₂, hmoves₂, hfiles₂, hsame₂, hruns₂⟩ := removeVcpu_spec s₁ v cpu ok
  rw [hobj₁, howner] at hmoves₂ hsame₂
  rw [hobj₁] at hruns₂
  rw [hkvm₁] at hsame₂
  generalize ((do
    vcpuVmxTeardown v cpu ok
    freeVcpu v : K Unit).run s₁).2 = s₂ at hmoves₂ hfiles₂ hsame₂ ⊢
  obtain ⟨l₃, hmoves₃, hfiles₃, hput⟩ := miniKvmPut_spec s₂ k
  rw [hsame₂.refcount] at hput
  have hstart : ∀ m : Multiset Resource, .kvm k ∈ m →
      Runs (((s.vcpu v).resources v : Multiset Resource) + m) ([.use (.vcpu v), .use (.kvm k)] ++ l₂) m := by
    intro m hm
    refine Runs.append (l := [_, _]) ⟨?_, Multiset.mem_add.2 (.inr hm), rfl⟩ (hruns₂ m)
    exact Multiset.mem_add.2 (.inl (Multiset.mem_coe.2 (by simp [VcpuObj.resources])))
  refine ⟨_, (hmoves₁.trans hmoves₂).trans (hmoves₃.addVcpu v), hfiles₃.trans (hfiles₂.trans hfiles₁), ?_⟩
  -- with other files of the VM left, or with the last one
  rcases hput with ⟨hne, hkvm₃, hruns₃⟩ | ⟨hzero, hruns₃⟩
  · refine .inl ⟨hne, ?_, fun m hm => (hstart m hm).append (hruns₃ m hm)⟩
    rw [hkvm₃]
    exact ⟨hsame₂.slot, hsame₂.ept, hsame₂.hasPml4, hsame₂.pagesArray,
      congrArg (· - 1) hsame₂.refcount, hsame₂.vcpu⟩
  · refine .inr ⟨hzero, fun m => ?_⟩
    have hres : (s₂.kvm k).resources k = (s.kvm k).resources k := hsame₂.resources k
    refine (hstart _ ?_).append (hres ▸ hruns₃ m)
    exact Multiset.mem_add.2 (.inl (Multiset.mem_coe.2 (by simp [KvmObj.resources])))

theorem touchAll_run (v : VcpuPtr) (s : Kernel) :
    (touchAll v).run s = ((), s.log (.use (.vcpu v) :: ((s.vcpu v).resources v ++
      (s.kvm (s.vcpu v).kvm).resources (s.vcpu v).kvm).map .use)) := by
  unfold touchAll
  rw [run_bind, touch_run, run_bind, run_get, record_run]
  simp

theorem runs_touchAll (v : VcpuPtr) (x : VcpuObj) (y : KvmObj) (m : Multiset Resource) :
    Runs ((x.resources v : Multiset Resource) + (y.resources x.kvm : Multiset Resource) + m)
      (.use (.vcpu v) :: (x.resources v ++ y.resources x.kvm).map .use)
      ((x.resources v : Multiset Resource) + (y.resources x.kvm : Multiset Resource) + m) := by
  have hmem : ∀ r ∈ x.resources v ++ y.resources x.kvm,
      r ∈ (x.resources v : Multiset Resource) + (y.resources x.kvm : Multiset Resource) + m := fun r hr =>
    Multiset.mem_add.2 (.inl (Multiset.mem_coe.2 hr))
  exact ⟨hmem _ (by simp [VcpuObj.resources]), runs_uses hmem⟩

/-- The VM after a call whose EPT violations took the pages `new`. -/
structure KvmObj.Grows (x y : KvmObj) (new : List Pfn) : Prop where
  slot : y.kvm.slot = x.kvm.slot
  pml4 : y.kvm.ept.pml4 = x.kvm.ept.pml4
  eptp : y.kvm.ept.eptp = x.kvm.ept.eptp
  tracked : y.kvm.ept.tracked = x.kvm.ept.tracked ++ new
  hasPml4 : y.hasPml4 = x.hasPml4
  pagesArray : y.pagesArray = x.pagesArray
  refcount : y.refcount = x.refcount
  vcpu : y.vcpu = x.vcpu

theorem KvmObj.Grows.resources {x y : KvmObj} {new : List Pfn} (h : x.Grows y new) (k : KvmPtr) :
    (y.resources k : Multiset Resource) =
      (new.map Resource.page : Multiset Resource) + (x.resources k : Multiset Resource) := by
  have hslot : y.slotResources = x.slotResources := by
    unfold KvmObj.slotResources
    rw [h.slot, h.pagesArray]
  have hpages : (y.pages : Multiset Pfn) = (new : Multiset Pfn) + (x.pages : Multiset Pfn) := by
    unfold KvmObj.pages miniEptDestroy
    rw [h.hasPml4, h.pml4, h.tracked, Multiset.coe_add, Multiset.coe_eq_coe]
    split
    · have hswap : (x.kvm.ept.tracked ++ new).Perm (new ++ x.kvm.ept.tracked) := List.perm_append_comm
      rw [← List.append_assoc]
      exact hswap.append_right [x.kvm.ept.pml4]
    · exact List.perm_append_comm
  have hmap : (y.pages.map Resource.page : Multiset Resource) =
      (new.map Resource.page : Multiset Resource) + (x.pages.map Resource.page : Multiset Resource) := by
    have := congrArg (Multiset.map Resource.page) hpages
    simpa using this
  unfold KvmObj.resources
  rw [hslot, ← Multiset.cons_coe, ← Multiset.cons_coe, ← Multiset.coe_add, hmap, ← Multiset.cons_coe,
    ← Multiset.cons_coe, ← Multiset.coe_add, Multiset.add_cons, Multiset.add_cons, ← add_assoc, ← add_assoc,
    add_comm (x.slotResources : Multiset Resource)]

/-- What a call for the vCPU at `v` leaves: the EPT violations that it handled took the pages `new` for the
VM at `k`. -/
structure PartDone (s s' : Kernel) (v : VcpuPtr) (k : KvmPtr) (new : List Pfn) (l : List (LedgerEvent Resource)) :
    Prop where
  moves : Kernel.Moves s s' k (some v) l
  files : s'.files = s.files
  grows : (s.kvm k).Grows (s'.kvm k) new
  owner : (s'.vcpu v).kvm = k
  runPage : (s'.vcpu v).runPage = (s.vcpu v).runPage
  vmcsPage : (s'.vcpu v).vcpu.vmcsPage = (s.vcpu v).vcpu.vmcsPage
  ledger : l = new.map fun page => .take (.page page)

namespace PartDone

variable {s s' : Kernel} {v : VcpuPtr} {k : KvmPtr} {new : List Pfn} {l : List (LedgerEvent Resource)}

theorem resources (h : PartDone s s' v k new l) : (s'.vcpu v).resources v = (s.vcpu v).resources v := by
  unfold VcpuObj.resources
  rw [h.runPage, h.vmcsPage]

theorem runs (h : PartDone s s' v k new l) (m : Multiset Resource) :
    Runs (((s.vcpu v).resources v : Multiset Resource) + ((s.kvm k).resources k : Multiset Resource) + m) l
      (((s'.vcpu v).resources v : Multiset Resource) + ((s'.kvm k).resources k : Multiset Resource) + m) := by
  have htook := runs_takes_map Resource.page new
    (((s.vcpu v).resources v : Multiset Resource) + ((s.kvm k).resources k : Multiset Resource) + m)
  have hheld : (new.map Resource.page : Multiset Resource) +
      (((s.vcpu v).resources v : Multiset Resource) + ((s.kvm k).resources k : Multiset Resource) + m) =
        ((s'.vcpu v).resources v : Multiset Resource) + ((s'.kvm k).resources k : Multiset Resource) + m := by
    rw [h.resources, h.grows.resources k, ← add_assoc, ← add_assoc, ← add_assoc,
      add_comm (new.map Resource.page : Multiset Resource)]
  rwa [hheld, ← h.ledger] at htook

end PartDone

/-- A call that changes the EPT by violations only and frees no VMCS page. -/
theorem onVcpu_done {α : Type} {m : M α} (hviolation : Within violationFrame m) (hkeep : Within keepFrame m)
    {s : Kernel} {v : VcpuPtr} {k : KvmPtr} (howner : (s.vcpu v).kvm = k) (cpu : CpuId)
    (allocs : List (Option Pfn)) : ∃ new l, new.Sublist allocs.reduceOption ∧
      PartDone s ((onVcpu v cpu allocs m).run s).2 v k new l := by
  subst howner
  rw [onVcpu_run]
  dsimp only
  obtain ⟨hviolations, hslot, hpage⟩ := hviolation (s.call cpu v allocs)
  obtain ⟨events, htrace, hfree⟩ := hkeep (s.call cpu v allocs)
  have hgrown := grown_of_violations hviolations
  generalize (m.run (s.call cpu v allocs)).2 = st at hslot hpage hgrown htrace ⊢
  obtain ⟨pre, hallocs, htracked⟩ := hgrown.tracked
  have hallocs' : allocs = pre ++ st.allocs := hallocs
  have hfreed : freedPages st.trace = [] := by
    rw [htrace]
    refine List.filterMap_eq_nil_iff.2 fun e he => ?_
    have hnot := hfree e he
    cases e <;> first | rfl | exact absurd trivial hnot
  have hledger : callLedger allocs st = pre.reduceOption.map fun page => .take (.page page) := by
    unfold callLedger
    rw [hfreed, hallocs', List.length_append, Nat.add_sub_cancel, List.take_left, List.map_nil, List.append_nil]
  refine ⟨pre.reduceOption, callLedger allocs st, ?_, ?_, rfl, ?_, ?_, ?_, ?_, hledger⟩
  · rw [hallocs', List.reduceOption_append]
    exact List.sublist_append_left ..
  · exact (s.moves_returned v st).trans (Kernel.moves_log ..)
  · rw [Kernel.log_kvm, s.returned_kvm v st]
    exact ⟨hslot, hgrown.pml4, hgrown.eptp, htracked, rfl, rfl, rfl, rfl⟩
  all_goals rw [Kernel.log_vcpu, s.returned_vcpu v st]
  exact hpage

theorem PartDone.touched {s s₁ s₂ : Kernel} {v : VcpuPtr} {k : KvmPtr} {new : List Pfn}
    {l : List (LedgerEvent Resource)} (h : PartDone s₁ s₂ v k new l) (hkvm : s₁.kvm = s.kvm)
    (hvcpu : s₁.vcpu = s.vcpu) : (s.kvm k).Grows (s₂.kvm k) new ∧
      (s₂.vcpu v).resources v = (s.vcpu v).resources v := by
  rw [← hkvm, ← hvcpu]
  exact ⟨h.grows, h.resources⟩

/-- KVM_RUN takes the pages of the EPT violations for the VM. -/
theorem vcpuRun_spec {s : Kernel} {v : VcpuPtr} {k : KvmPtr} (howner : (s.vcpu v).kvm = k) (cpu : CpuId)
    (allocs : List (Option Pfn)) (o : RunCall) :
    let s' := ((vcpuRun v cpu allocs o).run s).2
    ∃ l new, Kernel.Moves s s' k (some v) l ∧ s'.files = s.files ∧ (s.kvm k).Grows (s'.kvm k) new ∧
      (s'.vcpu v).kvm = k ∧ (s'.vcpu v).resources v = (s.vcpu v).resources v ∧
        ∀ m : Multiset Resource,
          Runs (((s.vcpu v).resources v : Multiset Resource) + ((s.kvm k).resources k : Multiset Resource) + m) l
            (((s'.vcpu v).resources v : Multiset Resource) + ((s'.kvm k).resources k : Multiset Resource) + m) := by
  have hrun : (vcpuRun v cpu allocs o).run s =
      (touchAll v).run ((onVcpu v cpu allocs (miniVcpuRunLoop o)).run ((touchAll v).run s).2).2 := by
    unfold vcpuRun
    rw [run_bind, run_bind]
  rw [hrun, touchAll_run, touchAll_run]
  have htouch := runs_touchAll v (s.vcpu v) (s.kvm k)
  rw [howner] at htouch ⊢
  have hmoves₁ := Kernel.moves_log s k (some v)
    (.use (.vcpu v) :: ((s.vcpu v).resources v ++ (s.kvm k).resources k).map .use)
  have hvcpu₁ : (s.log (.use (.vcpu v) :: ((s.vcpu v).resources v ++ (s.kvm k).resources k).map .use)).vcpu =
      s.vcpu := rfl
  have hkvm₁ : (s.log (.use (.vcpu v) :: ((s.vcpu v).resources v ++ (s.kvm k).resources k).map .use)).kvm =
      s.kvm := rfl
  have hfiles₁ : (s.log (.use (.vcpu v) :: ((s.vcpu v).resources v ++ (s.kvm k).resources k).map .use)).files =
      s.files := rfl
  dsimp only
  generalize s.log (.use (.vcpu v) :: ((s.vcpu v).resources v ++ (s.kvm k).resources k).map .use) = s₁
    at hmoves₁ hvcpu₁ hkvm₁ hfiles₁ ⊢
  obtain ⟨new, l, -, hdone⟩ := onVcpu_done (miniVcpuRunLoop_violations o) (keepFrame_allowsCall.miniVcpuRunLoop_within
    (fun _ => modifyVcpu_keep _) miniEptHandleViolation_keep o) (by rw [hvcpu₁, howner]) cpu allocs
  generalize ((onVcpu v cpu allocs (miniVcpuRunLoop o)).run s₁).2 = s₂ at hdone ⊢
  obtain ⟨hgrows, hres⟩ := hdone.touched hkvm₁ hvcpu₁
  have howner₂ := hdone.owner
  have htouch₂ := runs_touchAll v (s₂.vcpu v) (s₂.kvm k)
  rw [howner₂] at htouch₂ ⊢
  refine ⟨_, _, (hmoves₁.trans hdone.moves).trans (Kernel.moves_log ..), hdone.files.trans hfiles₁, hgrows, howner₂,
    hres, fun m => ?_⟩
  -- the pages of the EPT violations are what the VM holds more than before
  have hruns := hdone.runs m
  rw [hkvm₁, hvcpu₁] at hruns
  exact ((htouch m).append hruns).append (htouch₂ m)

/-! ### KVM_CREATE_VM -/

/-- The struct after `mini_ept_init()`. -/
def KvmObj.eptReady (x : KvmObj) (ept : MiniKvmEpt) : KvmObj :=
  { x with kvm := { x.kvm with ept := ept }, hasPml4 := true }

/-- The memory after `mini_ept_init()`. -/
def Kernel.eptReady (s : Kernel) (k : KvmPtr) (mem : PageMem) (ept : MiniKvmEpt) : Kernel :=
  { s.putKvm k ((s.kvm k).eptReady ept) with hw := { s.hw with mem := mem } }

theorem Kernel.moves_eptReady (s : Kernel) (k : KvmPtr) (v : Option VcpuPtr) (mem : PageMem) (ept : MiniKvmEpt) :
    Moves s (s.eptReady k mem ept) k v [] :=
  ⟨fun _ hk => Function.update_of_ne hk .., fun _ _ => rfl, (List.append_nil _).symm⟩

theorem kvmEptInit_run (k : KvmPtr) (pml4 : Option Pfn) (s : Kernel) :
    (kvmEptInit k pml4).run s = match miniEptInit s.hw.mem pml4 with
      | .error r => (r, s)
      | .ok (mem, ept) => (0, (s.eptReady k mem ept).log [.take (.page ept.pml4), .use (.kvm k)]) := by
  unfold kvmEptInit
  rw [run_bind, run_get]
  dsimp only
  cases miniEptInit s.hw.mem pml4 with
  | error r => rfl
  | ok y =>
    obtain ⟨mem, ept⟩ := y
    dsimp only
    rw [run_bind, take_run, run_bind, touch_run, run_bind, run_get]
    unfold Kernel.eptReady KvmObj.eptReady
    simp only [Kernel.log_log]
    rfl

/-- What KVM_CREATE_VM leaves: a VM with an open descriptor, or nothing. -/
inductive VmCreated (s s' : Kernel) (o : CreateVmCall) : Prop where
  | noMemory (none : o.kvm = none) (same : s' = s)
  | refused (k : KvmPtr) (l : List (LedgerEvent Resource)) (ptr : o.kvm = some k)
      (moves : Kernel.Moves s s' k none l) (files : s'.files = s.files)
      (runs : ∀ m : Multiset Resource, Runs m l m)
  | created (k : KvmPtr) (fd : Fd) (l : List (LedgerEvent Resource)) (ptr : o.kvm = some k)
      (installed : o.fd = .ok fd) (moves : Kernel.Moves s s' k none l)
      (files : s'.files = (fd, .vm k) :: s.files)
      (ready : ∃ page, o.pml4 = some page ∧ s'.hw.mem = s.hw.mem.zeroPage page ∧ s'.kvm k =
        KvmObj.fresh.eptReady ⟨page, pageToPhys page ||| vmxEptpMtWb ||| vmxEptpPwl4, []⟩)
      (runs : ∀ m : Multiset Resource, Runs m l (((s'.kvm k).resources k : Multiset Resource) + m))

theorem miniKvmCreateVm_spec (s : Kernel) (o : CreateVmCall) :
    VmCreated s ((miniKvmCreateVm o).run s).2 o := by
  unfold miniKvmCreateVm
  cases hk : o.kvm with
  | none => exact .noMemory hk rfl
  | some k =>
    dsimp only
    rw [run_bind, take_run, run_bind, modifyKvm_run, run_bind, run_ite]
    have hmoves : Kernel.Moves s ((s.log [.take (.kvm k)]).putKvm k .fresh) k none [.take (.kvm k)] :=
      (Kernel.moves_putKvm s k none .fresh).trans (Kernel.moves_log _ k none _)
    have hobj : ((s.log [.take (.kvm k)]).putKvm k .fresh).kvm k = .fresh := Kernel.putKvm_kvm ..
    have hfiles : ((s.log [.take (.kvm k)]).putKvm k .fresh).files = s.files := rfl
    have hhw : ((s.log [.take (.kvm k)]).putKvm k .fresh).hw = s.hw := rfl
    dsimp only
    generalize (s.log [.take (.kvm k)]).putKvm k .fresh = s₁ at hmoves hobj hfiles hhw ⊢
    have hinit := kvmEptInit_run k o.pml4 s₁
    generalize (kvmEptInit k o.pml4).run s₁ = y at hinit ⊢
    obtain ⟨r, s₂⟩ := y
    dsimp only
    cases hpml4 : o.pml4 with
    | none =>
      rw [hpml4] at hinit
      obtain ⟨rfl, rfl⟩ := Prod.mk.inj hinit
      -- no page for the PML4
      rw [if_pos (by decide), run_bind, give_run, run_pure]
      refine .refused k _ hk (hmoves.trans (Kernel.moves_log _ k none _)) hfiles fun m => ?_
      exact ⟨Multiset.mem_cons_self .., Multiset.erase_cons_head ..⟩
    | some page =>
      rw [hpml4] at hinit
      obtain ⟨rfl, hs₂⟩ := Prod.mk.inj hinit
      rw [if_neg (not_not.2 rfl)]
      have hmoves₂ : Kernel.Moves s₁ s₂ k none [.take (.page page), .use (.kvm k)] := by
        rw [hs₂]
        exact (s₁.moves_eptReady k none _ _).trans (Kernel.moves_log _ k none _)
      have hfiles₂ : s₂.files = s₁.files := by rw [hs₂]; rfl
      have hobj₂ : s₂.kvm k = KvmObj.fresh.eptReady
          ⟨page, pageToPhys page ||| vmxEptpMtWb ||| vmxEptpPwl4, []⟩ := by
        rw [hs₂, ← hobj]
        exact Kernel.putKvm_kvm ..
      have hpages : (s₂.kvm k).pages = [page] := by rw [hobj₂]; rfl
      have hall := hmoves.trans hmoves₂
      cases hfd : o.fd with
      | error r =>
        dsimp only
        -- no file: the EPT goes first, then the VM
        rw [run_bind, kvmEptDestroy_run, run_bind, give_run, run_pure, hpages]
        have hgone := ((hall.trans (Kernel.moves_putKvm s₂ k none (s₂.kvm k).eptDestroyed)).trans
          (Kernel.moves_log _ k none [.use (.kvm k), .give (.page page)])).trans
            (Kernel.moves_log _ k none [.give (.kvm k)])
        refine .refused k _ hk hgone (hfiles₂.trans hfiles) fun m => ?_
        have hkvm : Resource.kvm k ∈ Resource.page page ::ₘ Resource.kvm k ::ₘ m :=
          Multiset.mem_cons_of_mem (Multiset.mem_cons_self ..)
        have hlast : Runs (Resource.kvm k ::ₘ m) [.give (.kvm k)] m :=
          ⟨Multiset.mem_cons_self .., Multiset.erase_cons_head ..⟩
        refine ⟨hkvm, hkvm, Multiset.mem_cons_self .., ?_⟩
        rw [Multiset.erase_cons_head]
        exact hlast
      | ok fd =>
        dsimp only
        -- the file holds the VM from now on
        rw [run_bind, run_bind, take_run, run_pure]
        have hheld : ∀ m : Multiset Resource, Runs m [.take (.kvm k), .take (.page page), .use (.kvm k), .take (.vm k)]
            (.vm k ::ₘ .page page ::ₘ .kvm k ::ₘ m) := fun m =>
          ⟨Multiset.mem_cons_of_mem (Multiset.mem_cons_self ..), rfl⟩
        have hres : (((s₂.kvm k).resources k : List Resource) : Multiset Resource) =
            .vm k ::ₘ .kvm k ::ₘ .page page ::ₘ 0 := by
          rw [hobj₂]
          rfl
        have hfile : Kernel.Moves s₂ { s₂.log [.take (.vm k)] with files := (fd, .vm k) :: s₂.files } k none
            [.take (.vm k)] := ⟨fun _ _ => rfl, fun _ _ => rfl, rfl⟩
        refine .created k fd _ hk hfd (hall.trans hfile) ?_ ⟨page, hpml4, ?_, hobj₂⟩ fun m => ?_
        · exact congrArg (_ :: ·) (hfiles₂.trans hfiles)
        · show s₂.hw.mem = _
          rw [hs₂, ← hhw]
          rfl
        · show Runs m _ ((((s₂.kvm k).resources k : List Resource) : Multiset Resource) + m)
          rw [hres]
          have hm := hheld m
          rw [Multiset.cons_swap (Resource.page page)] at hm
          simpa using hm

end MiniVirt.Kvm
