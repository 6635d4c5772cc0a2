import MiniVirt.Kvm.Lifecycle
import MiniVirt.Lib.Threads

/-!
# KVM_SET_USER_MEMORY_REGION, step by step

`mini_kvm_set_memregion()` takes no lock, so calls on one VM may overlap.  The steps of a call are its test
of `slot.valid`, the allocation of `pages[]`, the pinning and the single stores to the slot.  In a
`MemregionRun` any number of calls make their steps in any order, until the VM is destroyed.
-/

namespace MiniVirt.Kvm

/-- The stores to the slot, in their order.  `userspace_addr`, which is stored after `npages`, is never
read and left out. -/
inductive SlotStore where
  | baseGpa | npages | pages | valid
  deriving DecidableEq

/-- What a call does next. -/
inductive MemregionPc where
  /-- `copy_from_user()` and the tests of `slot` and `flags`. -/
  | copy
  | testValid (region : KvmUserspaceMemoryRegion)
  /-- The tests of size and alignment, and `kvcalloc()`. -/
  | allocate (region : KvmUserspaceMemoryRegion)
  | pin (region : KvmUserspaceMemoryRegion) (a : ArrayPtr)
  | store (region : KvmUserspaceMemoryRegion) (a : ArrayPtr) (f : SlotStore)
  | returned (r : Int)

structure MemregionThread where
  call : MemregionCall
  pc : MemregionPc

def modifySlot (k : KvmPtr) (f : MiniKvmMemslot → MiniKvmMemslot) : K Unit :=
  modifyKvm k fun x => { x with kvm := { x.kvm with slot := f x.kvm.slot } }

/-- One step of a call on the VM `k`. -/
def memregionPc (k : KvmPtr) (o : MemregionCall) : MemregionPc → K MemregionPc
  | .copy => do
    match o.region with
    | none => return .returned (-efault)
    | some region => return if region.slot ≠ 0 ∨ region.flags ≠ 0 then .returned (-einval) else .testValid region
  | .testValid region => do
    touch (.kvm k)
    return if ((← get).kvm k).kvm.slot.valid then .returned (-eexist) else .allocate region
  | .allocate region => do
    if region.memorySize = 0 ∨ !pageAligned region.guestPhysAddr ∨ !pageAligned region.userspaceAddr ∨
        !pageAligned region.memorySize then
      return .returned (-einval)
    else
      match o.array with
      | none => return .returned (-enomem)
      | some a =>
        take (.array a)
        return .pin region a
  | .pin region a => do
    record ((pinnedPages o.pages o.pinned.toNat).map fun page => .take (.pin page))
    if o.pinned ≠ (region.memorySize >>> 12).toNat then
      if o.pinned > 0 then
        unpinUserPages (some a) o.pages o.pinned.toNat
      kvfree (some a)
      return .returned (-efault)
    else
      return .store region a .baseGpa
  | .store region a .baseGpa => do
    touch (.kvm k)
    modifySlot k fun slot => { slot with baseGpa := region.guestPhysAddr }
    return .store region a .npages
  | .store region a .npages => do
    touch (.kvm k)
    modifySlot k fun slot => { slot with npages := region.memorySize >>> 12 }
    return .store region a .pages
  | .store region a .pages => do
    touch (.kvm k)
    modifySlot k fun slot => { slot with pages := o.pages }
    modifyKvm k fun x => { x with pagesArray := some a }
    return .store region a .valid
  | .store _ _ .valid => do
    touch (.kvm k)
    modifySlot k fun slot => { slot with valid := true }
    return .returned 0
  | .returned r => return .returned r

def memregionStep (k : KvmPtr) (t : MemregionThread) : K MemregionThread := do
  let pc ← memregionPc k t.call t.pc
  return { t with pc := pc }

/-- What the call has returned. -/
def MemregionThread.result (t : MemregionThread) : Option Int :=
  match t.pc with
  | .returned r => some r
  | _ => none

/-- The calls on one VM, until it is destroyed. -/
structure MemregionRun where
  pool : Pool Kernel MemregionThread
  destroyed : Bool

inductive MemregionOp where
  /-- A new call. -/
  | start (o : MemregionCall)
  /-- The next step of the call with this number. -/
  | step (i : Nat)
  /-- The last reference to the VM is dropped.  A call in progress has one. -/
  | destroy

def MemregionRun.step (k : KvmPtr) (x : MemregionRun) : MemregionOp → MemregionRun
  | .start o => if x.destroyed then x else { x with pool := x.pool.spawn ⟨o, .copy⟩ }
  | .step i => { x with pool := x.pool.exec (memregionStep k) i }
  | .destroy =>
    if x.destroyed ∨ !x.pool.threads.all fun t => t.result.isSome then x
    else { pool := { x.pool with shared := ((miniKvmDestroy k).run x.pool.shared).2 }, destroyed := true }

/-- No call has been made on the VM. -/
def MemregionRun.new (w : Kernel) : MemregionRun := ⟨⟨w, []⟩, false⟩

end MiniVirt.Kvm
