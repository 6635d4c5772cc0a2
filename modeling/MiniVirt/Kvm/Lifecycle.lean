import MiniVirt.Kvm.Vcpu
import MiniVirt.Lib.Ledger

/-!
# `vcpu.c`: VMs and vCPUs from creation to release

`Kernel` is the memory of the module with the open files and a ledger.  The structs are at the
addresses that `kzalloc()` gave; an address keeps its contents when it is freed, and the ledger says
what is live: it records every object that is obtained, dereferenced and released.

Every call is one atomic step.  Whether an allocation, the pinning of the user pages, a step of the VMX
setup or the installation of a descriptor succeeds is an argument of the call.
-/

namespace MiniVirt.Kvm

abbrev KvmPtr := Nat
abbrev VcpuPtr := Nat
abbrev ArrayPtr := Nat
abbrev Fd := Nat

def eexist : Int := 17
/-- What a `struct file` of the module refers to. -/
inductive File where
  | vm (k : KvmPtr)
  | vcpu (v : VcpuPtr)
  deriving DecidableEq

/-- What is obtained and released. -/
inductive Resource where
  /-- A VM that `mini_kvm_create_vm()` has returned; `mini_kvm_destroy()` gives it back. -/
  | vm (k : KvmPtr)
  /-- A `struct mini_kvm`. -/
  | kvm (k : KvmPtr)
  /-- A `struct mini_kvm_vcpu`. -/
  | vcpu (v : VcpuPtr)
  | page (page : Pfn)
  /-- A `pages[]` array. -/
  | array (a : ArrayPtr)
  /-- One pin of a user page. -/
  | pin (page : Pfn)
  deriving DecidableEq

/-- `struct mini_kvm`. -/
structure KvmObj where
  kvm : MiniKvm
  /-- `ept.pml4` is not NULL. -/
  hasPml4 : Bool
  /-- The pointer `slot.pages`. -/
  pagesArray : Option ArrayPtr
  refcount : Nat
  vcpu : Option VcpuPtr

/-- `struct mini_kvm_vcpu`. -/
structure VcpuObj where
  vcpu : MiniKvmVcpu
  kvm : KvmPtr
  runPage : Option Pfn

structure Kernel where
  hw : Hw
  kvm : KvmPtr → KvmObj
  vcpu : VcpuPtr → VcpuObj
  files : List (Fd × File)
  ledger : List (LedgerEvent Resource)

abbrev K := StateM Kernel

/-! ### Memory and ledger -/

def record (l : List (LedgerEvent Resource)) : K Unit :=
  modify fun s => { s with ledger := s.ledger ++ l }

def take (r : Resource) : K Unit := record [.take r]

def touch (r : Resource) : K Unit := record [.use r]

def give (r : Resource) : K Unit := record [.give r]

def modifyKvm (k : KvmPtr) (f : KvmObj → KvmObj) : K Unit :=
  modify fun s => { s with kvm := Function.update s.kvm k (f (s.kvm k)) }

def modifyVcpuObj (v : VcpuPtr) (f : VcpuObj → VcpuObj) : K Unit :=
  modify fun s => { s with vcpu := Function.update s.vcpu v (f (s.vcpu v)) }

def fdInstall (fd : Fd) (f : File) : K Unit := modify fun s => { s with files := (fd, f) :: s.files }

/-- What a VM holds in the struct `x` at `k`. -/
def KvmObj.pages (x : KvmObj) : List Pfn :=
  if x.hasPml4 then miniEptDestroy x.kvm.ept else x.kvm.ept.tracked

/-- `pages[0 .. n)`. -/
def pinnedPages (pages : Nat → Pfn) (n : Nat) : List Pfn := (List.range n).map pages

/-- The array and the pins of a memslot. -/
def KvmObj.slotResources (x : KvmObj) : List Resource :=
  if x.kvm.slot.valid then
    x.pagesArray.toList.map .array ++ (pinnedPages x.kvm.slot.pages x.kvm.slot.npages.toNat).map .pin
  else []

def KvmObj.resources (k : KvmPtr) (x : KvmObj) : List Resource :=
  .vm k :: .kvm k :: (x.slotResources ++ x.pages.map .page)

def VcpuObj.resources (v : VcpuPtr) (x : VcpuObj) : List Resource :=
  .vcpu v :: (x.runPage.toList ++ x.vcpu.vmcsPage.toList).map .page

/-! ### Calls of `vmx.c` and of the run loop -/

/-- The state in which a call for the vCPU at `v` starts on `cpu`. -/
def Kernel.call (s : Kernel) (cpu : CpuId) (v : VcpuPtr) (allocs : List (Option Pfn)) : St where
  cpu := cpu
  hw := s.hw
  kvm := (s.kvm (s.vcpu v).kvm).kvm
  vcpu := (s.vcpu v).vcpu
  exitReason := .unknown
  irqsOff := false
  preemptCount := 0
  allocs := allocs
  trace := []
  vmcsClears := []
  invepts := []
  ioOuts := []
  lineCopies := []

/-- The memory after such a call has ended in `st`. -/
def Kernel.returned (s : Kernel) (v : VcpuPtr) (st : St) : Kernel :=
  let k := (s.vcpu v).kvm
  { s with
    hw := st.hw
    kvm := Function.update s.kvm k { s.kvm k with kvm := st.kvm }
    vcpu := Function.update s.vcpu v { s.vcpu v with vcpu := st.vcpu } }

/-- The VMCS pages that are freed. -/
def freedPages (l : List Event) : List Pfn :=
  l.filterMap fun
    | .freeVmcs page _ => some page
    | _ => none

/-- The pages that `alloc_page()` handed out, of those that it was to hand out, and the VMCS pages
that the call freed. -/
def callLedger (allocs : List (Option Pfn)) (st : St) : List (LedgerEvent Resource) :=
  (allocs.take (allocs.length - st.allocs.length)).reduceOption.map (fun page => .take (.page page)) ++
    (freedPages st.trace).map fun page => .give (.page page)

def onVcpu {α : Type} (v : VcpuPtr) (cpu : CpuId) (allocs : List (Option Pfn)) (m : M α) : K α := do
  let s ← get
  let (r, st) := m.run (s.call cpu v allocs)
  set (s.returned v st)
  record (callLedger allocs st)
  return r

/-! ### The EPT context and the memslot -/

/-- `mini_ept_init()` with the result of its `alloc_page()`. -/
def kvmEptInit (k : KvmPtr) (pml4 : Option Pfn) : K Int := do
  let s ← get
  match miniEptInit s.hw.mem pml4 with
  | .error r => return r
  | .ok (mem, ept) =>
    take (.page ept.pml4)
    touch (.kvm k)
    set { (← get) with hw := { s.hw with mem := mem } }
    modifyKvm k fun x => { x with kvm := { x.kvm with ept := ept }, hasPml4 := true }
    return 0

/-- `mini_ept_destroy()`. -/
def kvmEptDestroy (k : KvmPtr) : K Unit := do
  touch (.kvm k)
  let x := (← get).kvm k
  record (x.pages.map fun page => .give (.page page))
  modifyKvm k fun x => { x with
    kvm := { x.kvm with ept := { x.kvm.ept with tracked := [] } }
    hasPml4 := false }

/-- `unpin_user_pages()`. -/
def unpinUserPages (a : Option ArrayPtr) (pages : Nat → Pfn) (n : Nat) : K Unit :=
  record (a.toList.map (fun a => .use (.array a)) ++
    (pinnedPages pages n).map fun page => .give (.pin page))

def kvfree (a : Option ArrayPtr) : K Unit := record (a.toList.map fun a => .give (.array a))

def miniKvmUnpinMemslot (k : KvmPtr) : K Unit := do
  touch (.kvm k)
  let x := (← get).kvm k
  if !x.kvm.slot.valid then
    return ()
  unpinUserPages x.pagesArray x.kvm.slot.pages x.kvm.slot.npages.toNat
  kvfree x.pagesArray
  modifyKvm k fun x => { x with
    kvm := { x.kvm with slot := { x.kvm.slot with valid := false } }
    pagesArray := none }

/-- `struct kvm_userspace_memory_region`. -/
structure KvmUserspaceMemoryRegion where
  slot : BitVec 32
  flags : BitVec 32
  guestPhysAddr : BitVec 64
  memorySize : BitVec 64
  userspaceAddr : BitVec 64

/-- What the environment decides in one KVM_SET_USER_MEMORY_REGION. -/
structure MemregionCall where
  /-- The argument, `none` if it cannot be read. -/
  region : Option KvmUserspaceMemoryRegion
  /-- The result of `kvcalloc()`. -/
  array : Option ArrayPtr
  /-- The result of `pin_user_pages()`, and what it wrote into the array. -/
  pinned : Int
  pages : Nat → Pfn

def pageAligned (x : BitVec 64) : Bool := x &&& ~~~pageMask = 0

def miniKvmSetMemregion (k : KvmPtr) (o : MemregionCall) : K Int := do
  match o.region with
  | none => return -efault
  | some region =>
    if region.slot ≠ 0 ∨ region.flags ≠ 0 then
      return -einval
    else
      touch (.kvm k)
      if ((← get).kvm k).kvm.slot.valid then
        return -eexist
      else if region.memorySize = 0 ∨ !pageAligned region.guestPhysAddr ∨
          !pageAligned region.userspaceAddr ∨ !pageAligned region.memorySize then
        return -einval
      else
        let npages := region.memorySize >>> 12
        match o.array with
        | none => return -enomem
        | some a =>
          take (.array a)
          record ((pinnedPages o.pages o.pinned.toNat).map fun page => .take (.pin page))
          if o.pinned ≠ npages.toNat then
            if o.pinned > 0 then
              unpinUserPages (some a) o.pages o.pinned.toNat
            kvfree (some a)
            return -efault
          else
            -- the stores to `base_gpa`, `npages`, `pages` and `valid`
            record (List.replicate 4 (.use (.kvm k)))
            modifyKvm k fun x => { x with
              kvm := { x.kvm with slot := ⟨true, region.guestPhysAddr, npages, o.pages⟩ }
              pagesArray := some a }
            return 0

/-! ### References -/

def miniKvmDestroy (k : KvmPtr) : K Unit := do
  give (.vm k)
  miniKvmUnpinMemslot k
  kvmEptDestroy k
  give (.kvm k)

/-- `kref_get()`. -/
def miniKvmGet (k : KvmPtr) : K Unit := do
  touch (.kvm k)
  modifyKvm k fun x => { x with refcount := x.refcount + 1 }

/-- `kref_put()`. -/
def miniKvmPut (k : KvmPtr) : K Unit := do
  touch (.kvm k)
  modifyKvm k fun x => { x with refcount := x.refcount - 1 }
  if ((← get).kvm k).refcount = 0 then
    miniKvmDestroy k

/-! ### vCPUs -/

/-- What the environment decides in one KVM_CREATE_VCPU. -/
structure CreateVcpuCall where
  id : BitVec 32
  /-- The result of `kzalloc()`. -/
  vcpu : Option VcpuPtr
  /-- The result of `alloc_page()` for the run page. -/
  runPage : Option Pfn
  cpu : CpuId
  setup : SetupCall
  /-- The result of `anon_inode_getfd()`. -/
  fd : Except Int Fd
  /-- The VMCLEAR of the teardown after a failure succeeds. -/
  teardownOk : Bool

def vcpuVmxSetup (v : VcpuPtr) (cpu : CpuId) (o : SetupCall) : K Int := do
  touch (.vcpu v)
  touch (.kvm ((← get).vcpu v).kvm)
  record (o.page.toList.map fun page => .take (.page page))
  onVcpu v cpu [] (miniVcpuVmxSetup o)

def vcpuVmxTeardown (v : VcpuPtr) (cpu : CpuId) (ok : Bool) : K Unit := do
  touch (.vcpu v)
  record (((← get).vcpu v).vcpu.vmcsPage.toList.map fun page => .use (.page page))
  onVcpu v cpu [] (miniVcpuVmxTeardown ok)

/-- `__free_page(vcpu->run_page)`, if there is one, and `kfree(vcpu)`. -/
def freeVcpu (v : VcpuPtr) : K Unit := do
  touch (.vcpu v)
  record (((← get).vcpu v).runPage.toList.map fun page => .give (.page page))
  give (.vcpu v)

/-- The reference is taken, the VM points to the vCPU and its descriptor is installed. -/
def publishVcpu (k : KvmPtr) (v : VcpuPtr) (fd : Except Int Fd) : K (Except Int Fd) := do
  miniKvmGet k
  touch (.kvm k)
  if ((← get).kvm k).vcpu.isSome then
    miniKvmPut k
    return .error (-eexist)
  else
    modifyKvm k fun x => { x with vcpu := some v }
    match fd with
    | .error r =>
      touch (.kvm k)
      modifyKvm k fun x => { x with vcpu := none }
      miniKvmPut k
      return .error r
    | .ok fd =>
      fdInstall fd (.vcpu v)
      return .ok fd

/-- `mini_kvm_create_vcpu()` once the vCPU and its run page are there. -/
def createVcpuRest (k : KvmPtr) (v : VcpuPtr) (o : CreateVcpuCall) : K Int := do
  let r ← vcpuVmxSetup v o.cpu o.setup
  if r ≠ 0 then
    freeVcpu v
    return r
  else
    match ← publishVcpu k v o.fd with
    | .error r =>
      vcpuVmxTeardown v o.cpu o.teardownOk
      freeVcpu v
      return r
    | .ok fd => return fd

def miniKvmCreateVcpu (k : KvmPtr) (o : CreateVcpuCall) : K Int := do
  if o.id ≠ 0 then
    return -einval
  touch (.kvm k)
  if !((← get).kvm k).kvm.slot.valid then
    return -einval
  match o.vcpu with
  | none => return -enomem
  | some v =>
    take (.vcpu v)
    modifyVcpuObj v fun _ => ⟨.fresh, k, none⟩
    match o.runPage with
    | none =>
      give (.vcpu v)
      return -enomem
    | some page =>
      take (.page page)
      modifyVcpuObj v fun x => { x with runPage := some page }
      createVcpuRest k v o

def miniVcpuRelease (v : VcpuPtr) (cpu : CpuId) (ok : Bool) : K Unit := do
  touch (.vcpu v)
  let k := ((← get).vcpu v).kvm
  touch (.kvm k)
  modifyKvm k fun x => if x.vcpu = some v then { x with vcpu := none } else x
  vcpuVmxTeardown v cpu ok
  freeVcpu v
  miniKvmPut k

/-- Whatever the vCPU and its VM hold is touched. -/
def touchAll (v : VcpuPtr) : K Unit := do
  touch (.vcpu v)
  let s ← get
  let x := s.vcpu v
  record ((x.resources v ++ (s.kvm x.kvm).resources x.kvm).map .use)

/-- KVM_RUN.  The run loop and the guest may touch all that the vCPU and its VM hold, before and after
the tables have grown. -/
def vcpuRun (v : VcpuPtr) (cpu : CpuId) (allocs : List (Option Pfn)) (o : RunCall) : K Unit := do
  touchAll v
  let _ ← onVcpu v cpu allocs (miniVcpuRunLoop o)
  touchAll v

/-! ### VMs -/

/-- What the environment decides in one KVM_CREATE_VM. -/
structure CreateVmCall where
  /-- The result of `kzalloc()`. -/
  kvm : Option KvmPtr
  /-- The result of `alloc_page()` for the EPT root. -/
  pml4 : Option Pfn
  /-- The result of `anon_inode_getfd()`. -/
  fd : Except Int Fd

/-- A `struct mini_kvm` as `kzalloc()` and `kref_init()` leave it. -/
def KvmObj.fresh : KvmObj where
  kvm := { slot := ⟨false, 0, 0, fun _ => 0⟩, ept := ⟨0, 0, []⟩, serial := [] }
  hasPml4 := false
  pagesArray := none
  refcount := 1
  vcpu := none

def miniKvmCreateVm (o : CreateVmCall) : K Int := do
  match o.kvm with
  | none => return -enomem
  | some k =>
    take (.kvm k)
    modifyKvm k fun _ => .fresh
    let r ← kvmEptInit k o.pml4
    if r ≠ 0 then
      give (.kvm k)
      return r
    else
      match o.fd with
      | .error r =>
        kvmEptDestroy k
        give (.kvm k)
        return r
      | .ok fd =>
        fdInstall fd (.vm k)
        take (.vm k)
        return fd

/-! ### Steps -/

inductive LifeOp where
  /-- KVM_CREATE_VM. -/
  | createVm (o : CreateVmCall)
  /-- KVM_SET_USER_MEMORY_REGION. -/
  | setMemregion (fd : Fd) (o : MemregionCall)
  /-- KVM_CREATE_VCPU. -/
  | createVcpu (fd : Fd) (o : CreateVcpuCall)
  /-- KVM_RUN. -/
  | run (fd : Fd) (cpu : CpuId) (allocs : List (Option Pfn)) (o : RunCall)
  /-- The last close of a descriptor; `unloadOk` is the result of the VMCLEAR when it was a vCPU's. -/
  | close (fd : Fd) (cpu : CpuId) (unloadOk : Bool)

/-- A call on a descriptor that is not open, or is of another kind, does nothing. -/
def LifeOp.exec : LifeOp → K Unit
  | .createVm o => do
    let _ ← miniKvmCreateVm o
  | .setMemregion fd o => do
    match (← get).files.lookup fd with
    | some (.vm k) =>
      let _ ← miniKvmSetMemregion k o
    | _ => return ()
  | .createVcpu fd o => do
    match (← get).files.lookup fd with
    | some (.vm k) =>
      let _ ← miniKvmCreateVcpu k o
    | _ => return ()
  | .run fd cpu allocs o => do
    match (← get).files.lookup fd with
    | some (.vcpu v) => vcpuRun v cpu allocs o
    | _ => return ()
  | .close fd cpu ok => do
    match (← get).files.lookup fd with
    | some f =>
      modify fun s => { s with files := s.files.filter (·.1 ≠ fd) }
      match f with
      | .vm k => miniKvmPut k
      | .vcpu v => miniVcpuRelease v cpu ok
    | none => return ()

def Kernel.step (s : Kernel) (op : LifeOp) : Kernel := (op.exec.run s).2

end MiniVirt.Kvm
