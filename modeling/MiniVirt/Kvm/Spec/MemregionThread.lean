import MiniVirt.Kvm.MemregionThread
import MiniVirt.Kvm.Spec.Custody

/-!
# Overlapping registrations of a memslot

The slot is tested before the pages are pinned and assigned afterwards, and nothing keeps two calls from passing
the test.  `memregionLaw_of_exclusive` says what holds as long as every call that comes to its first store finds
the slot still free and no other call between its stores: one call at most succeeds, the slot is that
call's, and in the end all pins are given back.

The proof counts what the slot and the calls hold: a call holds its array and its pins from the moment it obtains
them until its last store makes them the slot's (`memregionStep_cases`).
-/

namespace MiniVirt.Kvm

open Ledger

/-! ### What a call holds and has stored -/

/-- The pages that the call pins. -/
def MemregionCall.pins (o : MemregionCall) (region : KvmUserspaceMemoryRegion) : List Pfn :=
  pinnedPages o.pages (region.memorySize >>> 12).toNat

def MemregionThread.held (t : MemregionThread) : Multiset Resource :=
  match t.pc with
  | .pin _ a => {.array a}
  | .store region a _ => .array a ::ₘ ((t.call.pins region).map Resource.pin : Multiset Resource)
  | _ => 0

/-- The call has made its first store and not its last. -/
def MemregionPc.storing : MemregionPc → Bool
  | .store _ _ .npages | .store _ _ .pages | .store _ _ .valid => true
  | _ => false

/-- The call comes to its first store. -/
def MemregionPc.firstStore : MemregionPc → Bool
  | .store _ _ .baseGpa => true
  | _ => false

/-- The slot of `x` with the fields of the call up to `f`. -/
def KvmObj.StoredBefore (x : KvmObj) (o : MemregionCall) (region : KvmUserspaceMemoryRegion) (a : ArrayPtr) :
    SlotStore → Prop
  | .baseGpa => True
  | .npages => x.kvm.slot.baseGpa = region.guestPhysAddr
  | .pages => x.kvm.slot.baseGpa = region.guestPhysAddr ∧ x.kvm.slot.npages = region.memorySize >>> 12
  | .valid => x.kvm.slot.baseGpa = region.guestPhysAddr ∧ x.kvm.slot.npages = region.memorySize >>> 12 ∧
      x.kvm.slot.pages = o.pages ∧ x.pagesArray = some a

/-- The slot of `x` is the region of the call. -/
structure KvmObj.Describes (x : KvmObj) (o : MemregionCall) : Prop where
  valid : x.kvm.slot.valid = true
  region : ∀ region, o.region = some region →
    x.kvm.slot.baseGpa = region.guestPhysAddr ∧ x.kvm.slot.npages = region.memorySize >>> 12
  pages : x.kvm.slot.pages = o.pages ∧ x.pagesArray = o.array

/-! ### The law -/

/-- At most one call has returned 0, the slot is that call's, and a VM that has been destroyed has given all pins
of all calls back. -/
structure MemregionLaw (k : KvmPtr) (x : MemregionRun) : Prop where
  once : ∀ (i j : Nat) (t u : MemregionThread), x.pool.threads[i]? = some t → x.pool.threads[j]? = some u →
    t.result = some 0 →
    u.result = some 0 → i = j
  slot : x.destroyed = false → ∀ t ∈ x.pool.threads, t.result = some 0 → (x.pool.shared.kvm k).Describes t.call
  pins : x.destroyed = true → ∀ page, takes x.pool.shared.ledger (.pin page) = gives x.pool.shared.ledger (.pin page)

/-- A call makes its first store only while the slot is not valid and no other call is between its stores. -/
def MemregionOp.Exclusive (k : KvmPtr) (x : MemregionRun) : MemregionOp → Prop
  | .step i => ∀ t ∈ x.pool.threads[i]?, t.pc.firstStore →
      (x.pool.shared.kvm k).kvm.slot.valid = false ∧ ∀ u ∈ x.pool.threads, ¬ u.pc.storing
  | _ => True

instance decidableExclusive (k : KvmPtr) (x : MemregionRun) : (op : MemregionOp) → Decidable (op.Exclusive k x)
  | .step i => inferInstanceAs (Decidable (∀ t ∈ x.pool.threads[i]?, _ → _))
  | .start _ => .isTrue trivial
  | .destroy => .isTrue trivial

/-! ### One step -/

/-- What a call at this point knows. -/
def MemregionThread.Ok (t : MemregionThread) : Prop :=
  match t.pc with
  | .testValid region | .allocate region => t.call.region = some region
  | .pin region a | .store region a _ => t.call.region = some region ∧ t.call.array = some a
  | _ => True

/-- The slot of `x` after the store of `f`. -/
def KvmObj.store (x : KvmObj) (o : MemregionCall) (region : KvmUserspaceMemoryRegion) (a : ArrayPtr) :
    SlotStore → KvmObj
  | .baseGpa => { x with kvm := { x.kvm with slot := { x.kvm.slot with baseGpa := region.guestPhysAddr } } }
  | .npages => { x with kvm := { x.kvm with slot := { x.kvm.slot with npages := region.memorySize >>> 12 } } }
  | .pages => { x with kvm := { x.kvm with slot := { x.kvm.slot with pages := o.pages } }, pagesArray := some a }
  | .valid => { x with kvm := { x.kvm with slot := { x.kvm.slot with valid := true } } }

/-- The step after the store of `f`. -/
def SlotStore.next (region : KvmUserspaceMemoryRegion) (a : ArrayPtr) : SlotStore → MemregionPc
  | .baseGpa => .store region a .npages
  | .npages => .store region a .pages
  | .pages => .store region a .valid
  | .valid => .returned 0

theorem memregionPc_pin_run (k : KvmPtr) (o : MemregionCall) (region : KvmUserspaceMemoryRegion) (a : ArrayPtr)
    (s : Kernel) : (memregionPc k o (.pin region a)).run s =
      let pins := pinnedPages o.pages o.pinned.toNat
      let takes := pins.map fun page => LedgerEvent.take (Resource.pin page)
      let gives := pins.map fun page => LedgerEvent.give (Resource.pin page)
      if o.pinned ≠ (region.memorySize >>> 12).toNat then
        if o.pinned > 0 then
          (.returned (-efault), s.log (takes ++ .use (.array a) :: (gives ++ [.give (.array a)])))
        else (.returned (-efault), s.log (takes ++ [.give (.array a)]))
      else (.store region a .baseGpa, s.log takes) := by
  unfold memregionPc
  rw [run_bind, record_run, run_ite, run_ite]
  split
  · split
    · unfold unpinUserPages
      rw [run_bind, record_run, run_bind, kvfree_run, run_pure]
      simp
    · rw [run_bind, kvfree_run, run_pure]
      simp
  · rfl

theorem memregionPc_store_run (k : KvmPtr) (o : MemregionCall) (region : KvmUserspaceMemoryRegion) (a : ArrayPtr)
    (f : SlotStore) (s : Kernel) : (memregionPc k o (.store region a f)).run s =
      (f.next region a, (s.putKvm k ((s.kvm k).store o region a f)).log [.use (.kvm k)]) := by
  cases f with
  | baseGpa => rfl
  | npages => rfl
  | pages =>
    unfold memregionPc modifySlot
    rw [run_bind, touch_run, run_bind, modifyKvm_run, run_bind, modifyKvm_run, run_pure]
    simp [KvmObj.store, SlotStore.next]
  | valid => rfl

theorem memregionPc_copy_run (k : KvmPtr) (o : MemregionCall) {region : KvmUserspaceMemoryRegion}
    (h : o.region = some region) (s : Kernel) : (memregionPc k o .copy).run s =
      (if region.slot ≠ 0 ∨ region.flags ≠ 0 then .returned (-einval) else .testValid region, s) := by
  unfold memregionPc
  rw [h]
  rfl

theorem memregionPc_testValid_run (k : KvmPtr) (o : MemregionCall) (region : KvmUserspaceMemoryRegion)
    (s : Kernel) : (memregionPc k o (.testValid region)).run s =
      (if (s.kvm k).kvm.slot.valid then .returned (-eexist) else .allocate region, s.log [.use (.kvm k)]) := rfl

theorem memregionPc_allocate_run (k : KvmPtr) {o : MemregionCall} {region : KvmUserspaceMemoryRegion}
    (hsize : ¬ (region.memorySize = 0 ∨ !pageAligned region.guestPhysAddr ∨ !pageAligned region.userspaceAddr ∨
      !pageAligned region.memorySize)) {a : ArrayPtr} (ha : o.array = some a) (s : Kernel) :
    (memregionPc k o (.allocate region)).run s = (.pin region a, s.log [.take (.array a)]) := by
  unfold memregionPc
  dsimp only
  rw [if_neg hsize, ha]
  rfl

/-- A step that leaves the VM alone, from `t` in `s` to `t'` in `s'`. -/
structure MemregionThread.Quiet (k : KvmPtr) (t : MemregionThread) (s : Kernel) (t' : MemregionThread)
    (s' : Kernel) : Prop where
  call : t'.call = t.call
  ok : t'.Ok
  notStoring : ¬ t.pc.storing
  notStoring' : ¬ t'.pc.storing
  result : t'.result = some 0 → t.result = some 0
  runs : ∃ l, s' = s.log l ∧ ∀ m : Multiset Resource, .kvm k ∈ m → Runs (m + t.held) l (m + t'.held)

/-- All that a step of a call can do: it leaves the VM alone or makes one store. -/
theorem memregionStep_cases {k : KvmPtr} {t : MemregionThread} (h : t.Ok) (s : Kernel) :
    t.Quiet k s ((memregionStep k t).run s).1 ((memregionStep k t).run s).2 ∨
      ∃ region a f, t.pc = .store region a f ∧ ((memregionStep k t).run s).1 = ⟨t.call, f.next region a⟩ ∧
        ∃ l, ((memregionStep k t).run s).2 = (s.putKvm k ((s.kvm k).store t.call region a f)).log l ∧
          ∀ m : Multiset Resource, .kvm k ∈ m → Runs m l m := by
  obtain ⟨o, pc⟩ := t
  unfold memregionStep
  rw [run_bind]
  cases pc with
  | copy =>
    refine .inl ?_
    unfold memregionPc
    dsimp only
    cases hregion : o.region with
    | none => exact ⟨rfl, trivial, Bool.false_ne_true, Bool.false_ne_true, fun h => (by cases h), [],
      s.log_nil.symm, fun m _ => rfl⟩
    | some region =>
      dsimp only
      by_cases hslot : region.slot ≠ 0 ∨ region.flags ≠ 0
      · rw [if_pos hslot]
        exact ⟨rfl, trivial, Bool.false_ne_true, Bool.false_ne_true, fun h => (by cases h), [], s.log_nil.symm,
          fun m _ => rfl⟩
      · rw [if_neg hslot]
        exact ⟨rfl, hregion, Bool.false_ne_true, Bool.false_ne_true, fun h => (by cases h), [], s.log_nil.symm,
          fun m _ => rfl⟩
  | testValid region =>
    refine .inl ?_
    rw [memregionPc_testValid_run]
    by_cases hvalid : (s.kvm k).kvm.slot.valid = true
    · rw [if_pos hvalid]
      exact ⟨rfl, trivial, Bool.false_ne_true, Bool.false_ne_true, fun h => (by cases h), _, rfl,
        fun m hm => ⟨Multiset.mem_add.2 (.inl hm), rfl⟩⟩
    · rw [if_neg hvalid]
      exact ⟨rfl, h, Bool.false_ne_true, Bool.false_ne_true, fun h => (by cases h), _, rfl,
        fun m hm => ⟨Multiset.mem_add.2 (.inl hm), rfl⟩⟩
  | allocate region =>
    refine .inl ?_
    unfold memregionPc
    rw [run_ite]
    split
    · exact ⟨rfl, trivial, Bool.false_ne_true, Bool.false_ne_true, fun h => (by cases h), [], s.log_nil.symm,
        fun m _ => rfl⟩
    · cases harray : o.array with
      | none => exact ⟨rfl, trivial, Bool.false_ne_true, Bool.false_ne_true, fun h => (by cases h), [],
        s.log_nil.symm, fun m _ => rfl⟩
      | some a =>
        refine ⟨rfl, ⟨h, harray⟩, Bool.false_ne_true, Bool.false_ne_true, fun h => (by cases h), [.take (.array a)],
          rfl, fun m _ => ?_⟩
        show _ ::ₘ (m + 0) = m + {Resource.array a}
        rw [add_zero, ← Multiset.singleton_add, add_comm]
  | pin region a =>
    refine .inl ?_
    have htake : ∀ m : Multiset Resource, Runs (m + {Resource.array a})
        ((pinnedPages o.pages o.pinned.toNat).map fun page => .take (.pin page))
        (((pinnedPages o.pages o.pinned.toNat).map Resource.pin : Multiset Resource) + (m + {Resource.array a})) :=
      fun m => runs_takes_map Resource.pin (pinnedPages o.pages o.pinned.toNat) (m + {Resource.array a})
    have harray : ∀ m : Multiset Resource, Resource.array a ∈ m + {Resource.array a} := fun m =>
      Multiset.mem_add.2 (.inr (Multiset.mem_singleton_self _))
    have hfree : ∀ m : Multiset Resource, Runs (m + {Resource.array a}) [.give (.array a)] (m + 0) := fun m =>
      ⟨harray m, by
        rw [add_comm, Multiset.singleton_add, Multiset.erase_cons_head, add_zero]
        rfl⟩
    rw [memregionPc_pin_run]
    split
    · -- some pages could not be pinned
      split
      · refine ⟨rfl, trivial, Bool.false_ne_true, Bool.false_ne_true, fun h => (by cases h), _, rfl, fun m _ => ?_⟩
        refine (htake m).append ⟨Multiset.mem_add.2 (.inr (harray m)), ?_⟩
        exact (runs_gives_map Resource.pin _ (m + {Resource.array a})).append (hfree m)
      · rename_i hnone
        have hzero : pinnedPages o.pages o.pinned.toNat = [] := by
          rw [Int.toNat_of_nonpos (Int.not_lt.1 hnone)]
          rfl
        refine ⟨rfl, trivial, Bool.false_ne_true, Bool.false_ne_true, fun h => (by cases h), _, rfl, fun m _ => ?_⟩
        rw [hzero]
        exact hfree m
    · rename_i hpinned
      have hnpages : o.pinned.toNat = (region.memorySize >>> 12).toNat := by
        rw [not_not.1 hpinned, Int.toNat_natCast]
      refine ⟨rfl, h, Bool.false_ne_true, Bool.false_ne_true, fun h => (by cases h), _, rfl, fun m _ => ?_⟩
      have hruns := htake m
      have hpins : pinnedPages o.pages o.pinned.toNat = o.pins region := by rw [hnpages, MemregionCall.pins]
      rw [hpins] at hruns
      rw [hpins]
      show Runs (m + {Resource.array a}) _
        (m + .array a ::ₘ ((o.pins region).map Resource.pin : Multiset Resource))
      rw [← Multiset.singleton_add, ← add_assoc, add_comm (m + _)]
      exact hruns
  | store region a f =>
    refine .inr ⟨region, a, f, rfl, ?_⟩
    rw [memregionPc_store_run]
    exact ⟨rfl, [.use (.kvm k)], rfl, fun m hm => ⟨hm, rfl⟩⟩
  | returned r =>
    exact .inl ⟨rfl, trivial, Bool.false_ne_true, Bool.false_ne_true, id, [], s.log_nil.symm, fun m _ => rfl⟩

/-! ### A call by itself -/

theorem memregionRun_step (k : KvmPtr) (o : MemregionCall) (pc : MemregionPc) (s : Kernel) (n : Nat) :
    runSteps (MemregionRun.step k) ⟨⟨s, [⟨o, pc⟩]⟩, false⟩ (List.replicate (n + 1) (.step 0)) =
      runSteps (MemregionRun.step k)
        ⟨⟨((memregionPc k o pc).run s).2, [⟨o, ((memregionPc k o pc).run s).1⟩]⟩, false⟩
        (List.replicate n (.step 0)) := rfl

theorem memregionRun_returned (k : KvmPtr) (o : MemregionCall) (r : Int) (s : Kernel) (n : Nat) :
    runSteps (MemregionRun.step k) ⟨⟨s, [⟨o, .returned r⟩]⟩, false⟩ (List.replicate n (.step 0)) =
      ⟨⟨s, [⟨o, .returned r⟩]⟩, false⟩ := by
  induction n with
  | zero => rfl
  | succ n ih => exact ih

theorem memregionRun_stores (k : KvmPtr) (o : MemregionCall) (region : KvmUserspaceMemoryRegion) (a : ArrayPtr)
    (s : Kernel) : runSteps (MemregionRun.step k) ⟨⟨s, [⟨o, .store region a .baseGpa⟩]⟩, false⟩
      (List.replicate 4 (.step 0)) =
        ⟨⟨(s.log (List.replicate 4 (.use (.kvm k)))).putKvm k { s.kvm k with
          kvm := { (s.kvm k).kvm with slot := ⟨true, region.guestPhysAddr, region.memorySize >>> 12, o.pages⟩ }
          pagesArray := some a }, [⟨o, .returned 0⟩]⟩, false⟩ := by
  rw [memregionRun_step, memregionPc_store_run]
  dsimp only [SlotStore.next]
  rw [memregionRun_step, memregionPc_store_run]
  dsimp only [SlotStore.next]
  rw [memregionRun_step, memregionPc_store_run]
  dsimp only [SlotStore.next]
  rw [memregionRun_step, memregionPc_store_run]
  simp [KvmObj.store, SlotStore.next, runSteps]

/-- The steps of a call that nothing comes between are `mini_kvm_set_memregion()`. -/
theorem memregionRun_alone (k : KvmPtr) (o : MemregionCall) (s : Kernel) :
    runSteps (MemregionRun.step k) ⟨⟨s, [⟨o, .copy⟩]⟩, false⟩ (List.replicate 8 (.step 0)) =
      ⟨⟨((miniKvmSetMemregion k o).run s).2, [⟨o, .returned ((miniKvmSetMemregion k o).run s).1⟩]⟩, false⟩ := by
  unfold miniKvmSetMemregion
  rw [memregionRun_step]
  cases hregion : o.region with
  | none =>
    unfold memregionPc
    rw [hregion]
    exact memregionRun_returned k o (-efault) s 7
  | some region =>
    dsimp only
    rw [run_ite, memregionPc_copy_run k o hregion]
    -- each test of the call is a step of the thread, in the order of the code
    by_cases hslot : region.slot ≠ 0 ∨ region.flags ≠ 0
    · rw [if_pos hslot, if_pos hslot]
      exact memregionRun_returned k o (-einval) _ 7
    rw [if_neg hslot, if_neg hslot, memregionRun_step, run_bind, touch_run, run_bind, run_get, run_ite]
    dsimp only
    by_cases hvalid : ((s.log [.use (.kvm k)]).kvm k).kvm.slot.valid = true
    · rw [if_pos hvalid, memregionPc_testValid_run, if_pos (by exact hvalid)]
      exact memregionRun_returned k o (-eexist) _ 6
    rw [if_neg hvalid, memregionPc_testValid_run, if_neg (by exact hvalid), memregionRun_step, run_ite]
    by_cases hsize : region.memorySize = 0 ∨ (!pageAligned region.guestPhysAddr) = true ∨
        (!pageAligned region.userspaceAddr) = true ∨ (!pageAligned region.memorySize) = true
    · rw [if_pos hsize]
      unfold memregionPc
      dsimp only
      rw [if_pos hsize]
      exact memregionRun_returned k o (-einval) _ 5
    rw [if_neg hsize]
    cases harray : o.array with
    | none =>
      unfold memregionPc
      dsimp only
      rw [if_neg hsize, harray]
      exact memregionRun_returned k o (-enomem) _ 5
    | some a =>
      dsimp only
      rw [run_bind, take_run, run_bind, record_run, run_ite, memregionPc_allocate_run k hsize harray,
        memregionRun_step, memregionPc_pin_run]
      dsimp only
      by_cases hpinned : o.pinned ≠ (region.memorySize >>> 12).toNat
      · rw [if_pos hpinned, if_pos hpinned, run_ite]
        by_cases hsome : o.pinned > 0
        · rw [if_pos hsome, if_pos hsome]
          unfold unpinUserPages
          rw [run_bind, record_run, run_bind, kvfree_run, run_pure]
          simp only [Kernel.log_log, List.append_assoc]
          exact memregionRun_returned k o (-efault) _ 4
        · rw [if_neg hsome, if_neg hsome, run_bind, kvfree_run, run_pure]
          simp only [Kernel.log_log, List.append_assoc]
          exact memregionRun_returned k o (-efault) _ 4
      · rw [if_neg hpinned, if_neg hpinned, run_bind, record_run, run_bind, modifyKvm_run, run_pure]
        exact memregionRun_stores k o region a _

/-! ### The invariant -/

/-- What the VM and its calls hold. -/
def MemregionRun.held (k : KvmPtr) (x : MemregionRun) : Multiset Resource :=
  ((x.pool.shared.kvm k).resources k : Multiset Resource) + Pool.heldBy MemregionThread.held x.pool.threads

structure MemregionInv (k : KvmPtr) (w : Kernel) (x : MemregionRun) : Prop where
  ok : ∀ t ∈ x.pool.threads, t.Ok
  once : ∀ (i j : Nat) (t u : MemregionThread), x.pool.threads[i]? = some t → x.pool.threads[j]? = some u →
    t.result = some 0 → u.result = some 0 → i = j
  /-- Only one call at a time is between its stores, and the slot is free then. -/
  storing : ∀ (i j : Nat) (t u : MemregionThread), x.pool.threads[i]? = some t → x.pool.threads[j]? = some u →
    t.pc.storing → u.pc.storing → i = j
  free : ∀ t ∈ x.pool.threads, t.pc.storing → (x.pool.shared.kvm k).kvm.slot.valid = false
  stored : ∀ t ∈ x.pool.threads, ∀ region a f, t.pc = .store region a f →
    (x.pool.shared.kvm k).StoredBefore t.call region a f
  slot : x.destroyed = false → ∀ t ∈ x.pool.threads, t.result = some 0 → (x.pool.shared.kvm k).Describes t.call
  runs : x.destroyed = false →
    Runs ((w.kvm k).resources k : Multiset Resource) x.pool.shared.ledger (x.held k)
  ended : x.destroyed = true → Runs ((w.kvm k).resources k : Multiset Resource) x.pool.shared.ledger 0 ∧
    ∀ t ∈ x.pool.threads, t.result.isSome

theorem MemregionThread.held_of_result {t : MemregionThread} (h : t.result.isSome) : t.held = 0 := by
  obtain ⟨o, pc⟩ := t
  cases pc with
  | returned r => rfl
  | _ => cases h

theorem MemregionThread.not_storing_of_result {t : MemregionThread} (h : t.result.isSome) : ¬ t.pc.storing := by
  obtain ⟨o, pc⟩ := t
  cases pc with
  | returned r => exact Bool.false_ne_true
  | _ => cases h

theorem KvmObj.mem_resources (x : KvmObj) (k : KvmPtr) : Resource.kvm k ∈ (x.resources k : Multiset Resource) :=
  Multiset.mem_coe.2 (List.mem_cons_of_mem _ List.mem_cons_self)

/-- The last store makes the array and the pins of the call the slot's. -/
theorem KvmObj.store_valid_resources {x : KvmObj} {o : MemregionCall} {region : KvmUserspaceMemoryRegion}
    {a : ArrayPtr} (hvalid : x.kvm.slot.valid = false) (hstored : x.StoredBefore o region a .valid) (k : KvmPtr) :
    ((x.store o region a .valid).resources k : Multiset Resource) =
      (x.resources k : Multiset Resource) + .array a ::ₘ ((o.pins region).map Resource.pin : Multiset Resource) := by
  obtain ⟨-, hnpages, hpages, harray⟩ := hstored
  have hslot : (x.store o region a .valid) = x.withSlot { x.kvm.slot with valid := true } a := by
    unfold KvmObj.store KvmObj.withSlot
    rw [← harray]
  have hres : (x.withSlot { x.kvm.slot with valid := true } a).slotResources =
      .array a :: (o.pins region).map Resource.pin := by
    have hpins : pinnedPages x.kvm.slot.pages x.kvm.slot.npages.toNat = o.pins region := by
      rw [hpages, hnpages, MemregionCall.pins]
    rw [← hpins]
    rfl
  rw [hslot, KvmObj.withSlot_resources hvalid, hres, ← Multiset.cons_coe, add_comm]

/-- The other stores make nothing the slot's. -/
theorem KvmObj.store_resources {x : KvmObj} (o : MemregionCall) (region : KvmUserspaceMemoryRegion) (a : ArrayPtr)
    {f : SlotStore} (hf : f ≠ .valid) (hvalid : x.kvm.slot.valid = false) (k : KvmPtr) :
    (x.store o region a f).resources k = x.resources k ∧ (x.store o region a f).kvm.slot.valid = false := by
  have hpages : ∀ y : KvmObj, y.kvm.slot.valid = false → y.pages = x.pages → y.resources k = x.resources k := by
    intro y hy hpages
    unfold KvmObj.resources KvmObj.slotResources
    rw [hy, hvalid, hpages]
    rfl
  cases f with
  | valid => exact absurd rfl hf
  | baseGpa => exact ⟨hpages _ hvalid rfl, hvalid⟩
  | npages => exact ⟨hpages _ hvalid rfl, hvalid⟩
  | pages => exact ⟨hpages _ hvalid rfl, hvalid⟩

namespace MemregionInv

variable {k : KvmPtr} {w : Kernel} {x : MemregionRun}

theorem new (hledger : w.ledger = []) : MemregionInv k w (.new w) := by
  have hnone : ∀ t ∈ (MemregionRun.new w).pool.threads, False := fun t ht => absurd ht List.not_mem_nil
  have hnone' : ∀ (i : Nat) (t : MemregionThread), (MemregionRun.new w).pool.threads[i]? = some t → False :=
    fun i t ht => absurd ht (by simp [MemregionRun.new])
  refine ⟨fun t ht => (hnone t ht).elim, fun i j t u hi => (hnone' i t hi).elim,
    fun i j t u hi => (hnone' i t hi).elim, fun t ht => (hnone t ht).elim, fun t ht => (hnone t ht).elim,
    fun _ t ht => (hnone t ht).elim, fun _ => ?_, fun h => (by cases h)⟩
  show Runs _ w.ledger (((w.kvm k).resources k : Multiset Resource) + 0)
  rw [hledger, add_zero]
  rfl

theorem start (h : MemregionInv k w x) (o : MemregionCall) : MemregionInv k w (x.step k (.start o)) := by
  unfold MemregionRun.step
  dsimp only
  by_cases hdestroyed : x.destroyed = true
  · rw [if_pos hdestroyed]
    exact h
  rw [if_neg hdestroyed]
  have hmem : ∀ t ∈ x.pool.threads ++ [(⟨o, .copy⟩ : MemregionThread)],
      t ∈ x.pool.threads ∨ t = ⟨o, .copy⟩ := fun t ht =>
    (List.mem_append.1 ht).imp_right List.mem_singleton.1
  -- a thread that stores or has returned was there before
  have hold : ∀ (i : Nat) (t : MemregionThread), (x.pool.threads ++ [(⟨o, .copy⟩ : MemregionThread)])[i]? = some t →
      t.pc.storing ∨ t.result = some 0 → x.pool.threads[i]? = some t := by
    intro i t hi ht
    rw [List.getElem?_append] at hi
    split at hi
    · exact hi
    · exfalso
      obtain rfl := List.mem_singleton.1 (List.mem_of_getElem? hi)
      rcases ht with ht | ht <;> cases ht
  refine ⟨?_, ?_, ?_, ?_, ?_, ?_, ?_, fun h => absurd h hdestroyed⟩
  · intro t ht
    rcases hmem t ht with ht | rfl
    · exact h.ok t ht
    · trivial
  · intro i j t u hi hj ht hu
    exact h.once i j t u (hold i t hi (.inr ht)) (hold j u hj (.inr hu)) ht hu
  · intro i j t u hi hj ht hu
    exact h.storing i j t u (hold i t hi (.inl ht)) (hold j u hj (.inl hu)) ht hu
  · intro t ht hst
    rcases hmem t ht with ht | rfl
    · exact h.free t ht hst
    · cases hst
  · intro t ht region a f hpc
    rcases hmem t ht with ht | rfl
    · exact h.stored t ht region a f hpc
    · cases hpc
  · intro hd t ht hres
    rcases hmem t ht with ht | rfl
    · exact h.slot hd t ht hres
    · cases hres
  · intro hd
    have hruns := h.runs hd
    show Runs _ x.pool.shared.ledger (_ + Pool.heldBy MemregionThread.held (x.pool.threads ++ [⟨o, .copy⟩]))
    rw [Pool.heldBy_append_singleton]
    have hzero : MemregionThread.held ⟨o, .copy⟩ = 0 := rfl
    rw [hzero, add_zero]
    exact hruns

theorem destroy (h : MemregionInv k w x) : MemregionInv k w (x.step k .destroy) := by
  unfold MemregionRun.step
  dsimp only
  split
  · exact h
  · rename_i hgo
    rw [not_or] at hgo
    have hdone : ∀ t ∈ x.pool.threads, t.result.isSome := by
      have := hgo.2
      rw [Bool.not_eq_true', Bool.not_eq_false, List.all_eq_true] at this
      exact this
    have hnone : Pool.heldBy MemregionThread.held x.pool.threads = 0 :=
      Pool.heldBy_eq_zero _ fun t ht => MemregionThread.held_of_result (hdone t ht)
    have hnot : ∀ t ∈ x.pool.threads, ¬ t.pc.storing := fun t ht =>
      MemregionThread.not_storing_of_result (hdone t ht)
    refine ⟨h.ok, h.once, fun i j t u hi hj hst => absurd hst (hnot t (List.mem_of_getElem? hi)),
      fun t ht hst => absurd hst (hnot t ht), ?_, fun hd => (by cases hd), fun hd => (by cases hd),
        fun _ => ⟨?_, hdone⟩⟩
    · intro t ht region a f hpc
      have := hdone t ht
      unfold MemregionThread.result at this
      rw [hpc] at this
      cases this
    · have hruns := h.runs (Bool.eq_false_iff.2 hgo.1)
      unfold MemregionRun.held at hruns
      rw [hnone] at hruns
      rw [miniKvmDestroy_run]
      exact hruns.append (KvmObj.runs_destroy k _ 0)

/-- The step of a call that leaves the VM alone. -/
theorem quiet (h : MemregionInv k w x) (hd : x.destroyed = false) {i : Nat} {t t' : MemregionThread}
    (hi : x.pool.threads[i]? = some t)
    {s' : Kernel} (hq : t.Quiet k x.pool.shared t' s') :
    MemregionInv k w { x with pool := ⟨s', x.pool.threads.set i t'⟩ } := by
  obtain ⟨l, rfl, hruns⟩ := hq.runs
  have hmem := List.mem_of_getElem? hi
  -- a thread that stores or has returned 0 is not the one that has made the step, or had returned 0 before
  have hcases : ∀ (j : Nat) (u : MemregionThread), (x.pool.threads.set i t')[j]? = some u →
      j = i ∧ u = t' ∨ j ≠ i ∧ x.pool.threads[j]? = some u := fun j u hj => Pool.getElem?_set_cases hj
  have hstoring : ∀ (j : Nat) (u : MemregionThread), (x.pool.threads.set i t')[j]? = some u → u.pc.storing →
      x.pool.threads[j]? = some u := by
    intro j u hj hst
    rcases hcases j u hj with ⟨rfl, rfl⟩ | ⟨-, hj⟩
    · exact absurd hst hq.notStoring'
    · exact hj
  have hdone : ∀ (j : Nat) (u : MemregionThread), (x.pool.threads.set i t')[j]? = some u → u.result = some 0 →
      ∃ u', x.pool.threads[j]? = some u' ∧ u'.result = some 0 ∧ u'.call = u.call := by
    intro j u hj hres
    rcases hcases j u hj with ⟨rfl, rfl⟩ | ⟨-, hj⟩
    · exact ⟨t, hi, hq.result hres, hq.call.symm⟩
    · exact ⟨u, hj, hres, rfl⟩
  refine ⟨?_, ?_, ?_, ?_, ?_, ?_, ?_, ?_⟩
  · intro u hu
    obtain ⟨j, hj⟩ := List.mem_iff_getElem?.1 hu
    rcases hcases j u hj with ⟨-, rfl⟩ | ⟨-, hj⟩
    · exact hq.ok
    · exact h.ok u (List.mem_of_getElem? hj)
  · intro j j' u u' hj hj' hres hres'
    obtain ⟨v, hv, hvres, -⟩ := hdone j u hj hres
    obtain ⟨v', hv', hvres', -⟩ := hdone j' u' hj' hres'
    exact h.once j j' v v' hv hv' hvres hvres'
  · intro j j' u u' hj hj' hst hst'
    exact h.storing j j' u u' (hstoring j u hj hst) (hstoring j' u' hj' hst') hst hst'
  · intro u hu hst
    obtain ⟨j, hj⟩ := List.mem_iff_getElem?.1 hu
    exact h.free u (List.mem_of_getElem? (hstoring j u hj hst)) hst
  · intro u hu region a f hpc
    obtain ⟨j, hj⟩ := List.mem_iff_getElem?.1 hu
    rcases hcases j u hj with ⟨-, rfl⟩ | ⟨-, hj⟩
    · cases f with
      | baseGpa => trivial
      | _ => exact absurd (by rw [hpc]; rfl) hq.notStoring'
    · exact h.stored u (List.mem_of_getElem? hj) region a f hpc
  · intro _ u hu hres
    obtain ⟨j, hj⟩ := List.mem_iff_getElem?.1 hu
    obtain ⟨v, hv, hvres, hcall⟩ := hdone j u hj hres
    rw [← hcall]
    exact h.slot hd v (List.mem_of_getElem? hv) hvres
  · intro _
    have hstep := hruns ((x.pool.shared.kvm k).resources k : Multiset Resource) (KvmObj.mem_resources _ k)
    exact (h.runs hd).append (Pool.runs_set _ hi hstep)
  · intro hover
    rw [hd] at hover
    cases hover

/-- A store, by a call that is alone between its stores. -/
theorem store (h : MemregionInv k w x) (hd : x.destroyed = false) {i : Nat} {t : MemregionThread}
    (hi : x.pool.threads[i]? = some t) {region : KvmUserspaceMemoryRegion} {a : ArrayPtr} {f : SlotStore}
    (hpc : t.pc = .store region a f) (hfree : (x.pool.shared.kvm k).kvm.slot.valid = false)
    (halone : ∀ (j : Nat) (u : MemregionThread), x.pool.threads[j]? = some u → u.pc.storing → j = i)
    {l : List (LedgerEvent Resource)} (hl : ∀ m : Multiset Resource, .kvm k ∈ m → Runs m l m) :
    MemregionInv k w { x with pool := ⟨(x.pool.shared.putKvm k ((x.pool.shared.kvm k).store t.call region a f)).log l,
      x.pool.threads.set i ⟨t.call, f.next region a⟩⟩ } := by
  have hmem := List.mem_of_getElem? hi
  have hcases : ∀ (j : Nat) (u : MemregionThread),
      (x.pool.threads.set i ⟨t.call, f.next region a⟩)[j]? = some u →
        j = i ∧ u = ⟨t.call, f.next region a⟩ ∨ j ≠ i ∧ x.pool.threads[j]? = some u :=
    fun j u hj => Pool.getElem?_set_cases hj
  -- nobody has returned 0, since the slot would be valid
  have hnone : ∀ u ∈ x.pool.threads, u.result ≠ some 0 := by
    intro u hu hres
    have := (h.slot hd u hu hres).valid
    rw [hfree] at this
    cases this
  have hdone : ∀ (j : Nat) (u : MemregionThread), (x.pool.threads.set i ⟨t.call, f.next region a⟩)[j]? = some u →
      u.result = some 0 → j = i ∧ u.call = t.call ∧ f = .valid := by
    intro j u hj hres
    rcases hcases j u hj with ⟨rfl, rfl⟩ | ⟨-, hj⟩
    · refine ⟨rfl, rfl, ?_⟩
      cases f with
      | valid => rfl
      | _ => cases hres
    · exact absurd hres (hnone u (List.mem_of_getElem? hj))
  have hstoring : ∀ (j : Nat) (u : MemregionThread), (x.pool.threads.set i ⟨t.call, f.next region a⟩)[j]? = some u →
      u.pc.storing → j = i ∧ f ≠ .valid := by
    intro j u hj hst
    rcases hcases j u hj with ⟨rfl, rfl⟩ | ⟨hne, hj⟩
    · refine ⟨rfl, ?_⟩
      rintro rfl
      cases hst
    · exact absurd (halone j u hj hst) hne
  have hstored := h.stored t hmem region a f hpc
  have hok := h.ok t hmem
  unfold MemregionThread.Ok at hok
  rw [hpc] at hok
  have hheld : t.held = .array a ::ₘ ((t.call.pins region).map Resource.pin : Multiset Resource) := by
    unfold MemregionThread.held
    rw [hpc]
  refine ⟨?_, ?_, ?_, ?_, ?_, ?_, ?_, ?_⟩
  · intro u hu
    obtain ⟨j, hj⟩ := List.mem_iff_getElem?.1 hu
    rcases hcases j u hj with ⟨-, rfl⟩ | ⟨-, hj⟩
    · cases f with
      | valid => trivial
      | _ => exact hok
    · exact h.ok u (List.mem_of_getElem? hj)
  · intro j j' u u' hj hj' hres hres'
    rw [(hdone j u hj hres).1, (hdone j' u' hj' hres').1]
  · intro j j' u u' hj hj' hst hst'
    rw [(hstoring j u hj hst).1, (hstoring j' u' hj' hst').1]
  · intro u hu hst
    obtain ⟨j, hj⟩ := List.mem_iff_getElem?.1 hu
    show ((x.pool.shared.putKvm k _).kvm k).kvm.slot.valid = false
    rw [Kernel.putKvm_kvm]
    exact (KvmObj.store_resources t.call region a (hstoring j u hj hst).2 hfree k).2
  · intro u hu region' a' f' hpc'
    show ((x.pool.shared.putKvm k _).kvm k).StoredBefore u.call region' a' f'
    rw [Kernel.putKvm_kvm]
    obtain ⟨j, hj⟩ := List.mem_iff_getElem?.1 hu
    rcases hcases j u hj with ⟨-, rfl⟩ | ⟨hne, hj⟩
    · cases f with
      | baseGpa =>
        obtain ⟨rfl, rfl, rfl⟩ := MemregionPc.store.inj hpc'
        exact rfl
      | npages =>
        obtain ⟨rfl, rfl, rfl⟩ := MemregionPc.store.inj hpc'
        exact ⟨hstored, rfl⟩
      | pages =>
        obtain ⟨rfl, rfl, rfl⟩ := MemregionPc.store.inj hpc'
        exact ⟨hstored.1, hstored.2, rfl, rfl⟩
      | valid => cases hpc'
    · -- the others have stored nothing
      cases f' with
      | baseGpa => trivial
      | _ => exact absurd (halone j u hj (by rw [hpc']; rfl)) hne
  · intro _ u hu hres
    show ((x.pool.shared.putKvm k _).kvm k).Describes u.call
    rw [Kernel.putKvm_kvm]
    obtain ⟨j, hj⟩ := List.mem_iff_getElem?.1 hu
    obtain ⟨-, hcall, rfl⟩ := hdone j u hj hres
    obtain ⟨hbase, hnpages, hpages, harray⟩ := hstored
    rw [hcall]
    refine ⟨rfl, fun region' hregion' => ?_, hpages, harray.trans hok.2.symm⟩
    obtain rfl := Option.some.inj (hok.1.symm.trans hregion')
    exact ⟨hbase, hnpages⟩
  · intro _
    have hkvm := KvmObj.mem_resources (x.pool.shared.kvm k) k
    have hstep : Runs (((x.pool.shared.kvm k).resources k : Multiset Resource) + t.held) l
        ((((x.pool.shared.kvm k).store t.call region a f).resources k : Multiset Resource) +
          MemregionThread.held ⟨t.call, f.next region a⟩) := by
      by_cases hf : f = .valid
      · subst hf
        have hnone : MemregionThread.held ⟨t.call, SlotStore.next region a .valid⟩ = 0 := rfl
        rw [KvmObj.store_valid_resources hfree hstored, hnone, add_zero, ← hheld]
        exact hl _ (Multiset.mem_add.2 (.inl hkvm))
      · have hsame : MemregionThread.held ⟨t.call, f.next region a⟩ = t.held := by
          rw [hheld]
          cases f with
          | valid => exact absurd rfl hf
          | _ => rfl
        rw [(KvmObj.store_resources t.call region a hf hfree k).1, hsame]
        exact hl _ (Multiset.mem_add.2 (.inl hkvm))
    have hafter := (h.runs hd).append (Pool.runs_set _ hi hstep)
    show Runs _ (x.pool.shared.ledger ++ l) (((((x.pool.shared.putKvm k _).kvm k).resources k : List Resource) :
      Multiset Resource) + Pool.heldBy MemregionThread.held (x.pool.threads.set i _))
    rw [Kernel.putKvm_kvm]
    exact hafter
  · intro hover
    rw [hd] at hover
    cases hover

/-- The step of a call, under the condition. -/
theorem exec (h : MemregionInv k w x) {i : Nat} (hex : (MemregionOp.step i).Exclusive k x) :
    MemregionInv k w (x.step k (.step i)) := by
  unfold MemregionRun.step
  dsimp only
  cases hi : x.pool.threads[i]? with
  | none =>
    rw [Pool.exec_none hi]
    exact h
  | some t =>
    have hmem := List.mem_of_getElem? hi
    cases hd : x.destroyed with
    | true =>
      -- all calls have returned
      obtain ⟨o, pc⟩ := t
      have hres := (h.ended hd).2 _ hmem
      cases pc with
      | returned r =>
        rw [Pool.exec_self hi (show (memregionStep k _).run _ = _ from rfl), ← hd]
        exact h
      | _ => cases hres
    | false =>
      rw [← hd, Pool.exec_some hi]
      rcases memregionStep_cases (k := k) (h.ok t hmem) x.pool.shared with hq | ⟨region, a, f, hpc, ht, l, hs, hl⟩
      · exact h.quiet hd hi hq
      · rw [ht, hs]
        have halone : (x.pool.shared.kvm k).kvm.slot.valid = false ∧
            ∀ (j : Nat) (u : MemregionThread), x.pool.threads[j]? = some u → u.pc.storing → j = i := by
          by_cases hf : f = .baseGpa
          · subst hf
            obtain ⟨hfree, hnone⟩ := hex t hi (by rw [hpc]; rfl)
            exact ⟨hfree, fun j u hj hst => absurd hst (hnone u (List.mem_of_getElem? hj))⟩
          · have hst : t.pc.storing := by
              rw [hpc]
              cases f with
              | baseGpa => exact absurd rfl hf
              | _ => rfl
            exact ⟨h.free t hmem hst, fun j u hj hst' => h.storing j i u t hj hi hst' hst⟩
        exact h.store hd hi hpc halone.1 halone.2 hl

theorem step (h : MemregionInv k w x) {op : MemregionOp} (hex : op.Exclusive k x) :
    MemregionInv k w (x.step k op) := by
  cases op with
  | start o => exact h.start o
  | step i => exact h.exec hex
  | destroy => exact h.destroy

theorem law (h : MemregionInv k w x) (hslot : (w.kvm k).kvm.slot.valid = false) : MemregionLaw k x := by
  refine ⟨h.once, h.slot, fun hd page => ?_⟩
  have hcount := (h.ended hd).1.count (.pin page)
  have hnone : ((w.kvm k).resources k : Multiset Resource).count (.pin page) = 0 := by
    refine Multiset.count_eq_zero.2 fun hmem => ?_
    unfold KvmObj.resources KvmObj.slotResources at hmem
    rw [hslot] at hmem
    simp at hmem
  rw [hnone, Multiset.count_zero] at hcount
  omega

end MemregionInv

/-! ### The result -/

/-- In every run of calls and of the destruction of the VM, in any order of their steps, in which a call makes its
first store only to a free slot and when no other call is between its stores, the law holds. -/
theorem memregionLaw_of_exclusive (k : KvmPtr) (w : Kernel) (hslot : (w.kvm k).kvm.slot.valid = false)
    (hledger : w.ledger = []) (ops : List MemregionOp)
    (hex : AllSteps (MemregionRun.step k) (fun x op => op.Exclusive k x) (.new w) ops) :
    MemregionLaw k (runSteps (MemregionRun.step k) (.new w) ops) := by
  have hinv := AllSteps.inv (fun x op (h : MemregionInv k w x) hop => h.step hop) (MemregionInv.new hledger) hex
  exact hinv.law hslot

/-! ### Two calls -/

/-- A call for one page at the guest-physical address `gpa`. -/
def onePage (gpa : BitVec 64) (a : ArrayPtr) (page : Pfn) : MemregionCall where
  region := some ⟨0, 0, gpa, 0x1000, 0x7f0000000000⟩
  array := some a
  pinned := 1
  pages _ := page

/-- A call is made and goes on until it has returned; the VM is destroyed. -/
def oneCall : List MemregionOp :=
  .start (onePage 0 1 32) :: (List.replicate 8 (.step 0) ++ [.destroy])

/-- Two calls pass the test of `slot.valid` before one of them makes a store; the VM is destroyed. -/
def twoCalls : List MemregionOp :=
  [.start (onePage 0 1 32), .start (onePage 0x1000 2 33), .step 0, .step 0, .step 1, .step 1] ++
    (List.replicate 6 (.step 0) ++ (List.replicate 6 (.step 1) ++ [.destroy]))

theorem memregionLaw_of_exclusive_oneCall :
    MemregionLaw 0 (runSteps (MemregionRun.step 0) (.new Kernel.loaded) oneCall) := by
  exact memregionLaw_of_exclusive 0 Kernel.loaded rfl rfl oneCall (by decide +kernel)

theorem not_memregionLaw :
    ¬ MemregionLaw 0 (runSteps (MemregionRun.step 0) (.new Kernel.loaded) twoCalls) := by
  intro h
  have hpin := h.pins (by decide +kernel) 32
  revert hpin
  decide +kernel

end MiniVirt.Kvm
