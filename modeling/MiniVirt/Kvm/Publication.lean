import MiniVirt.Kvm.MemregionThread

/-!
# Publication of VMs and vCPUs

A new VM or vCPU can be used by every thread as soon as `anon_inode_getfd()` has installed its descriptor,
while `mini_kvm_create_vm()` and `mini_kvm_create_vcpu()` are still running.  A `PubRun` has the calls in
progress as threads over the memory of the module; a step of a thread is a part of its call that no other
thread can look into.

A pointer stands for the object itself, not for its address: the objects are numbered in the order in which their
creation starts, so a stale pointer is never taken for one to a later object at the same place.
-/

namespace MiniVirt.Kvm

/-- The memory with the mutexes (`kvm->lock` under `.kvm k`, `vcpu->mutex` under `.vcpu v`) and the files that have
not been released. -/
structure Shared where
  kernel : Kernel
  locked : Resource → Bool
  opened : List File

def onKernel {α : Type} (m : K α) : StateM Shared α := do
  let s ← get
  let (r, kernel) := m.run s.kernel
  set { s with kernel := kernel }
  return r

/-- `mutex_lock()`; false when the thread has to wait. -/
def mutexLock (r : Resource) : StateM Shared Bool := do
  onKernel (touch r)
  if (← get).locked r then
    return false
  modify fun s => { s with locked := Function.update s.locked r true }
  return true

def mutexUnlock (r : Resource) : StateM Shared Unit := do
  onKernel (touch r)
  modify fun s => { s with locked := Function.update s.locked r false }

/-- `anon_inode_getfd()` when it succeeds. -/
def installFile (fd : Fd) (f : File) : StateM Shared Unit := do
  onKernel (fdInstall fd f)
  modify fun s => { s with opened := f :: s.opened }

/-- What a vCPU ioctl does under `vcpu->mutex`. -/
inductive VcpuIoctl where
  | run (cpu : CpuId) (allocs : List (Option Pfn)) (o : RunCall)
  | injectIrq (cpu : CpuId) (vector : Int)

def VcpuIoctl.exec (v : VcpuPtr) : VcpuIoctl → K Unit
  | .run cpu allocs o => vcpuRun v cpu allocs o
  | .injectIrq cpu vector => do
    touch (.vcpu v)
    let _ ← onVcpu v cpu [] (miniVcpuInjectIrq vector)

/-- What a thread does next. -/
inductive PubPc where
  /-- `mini_kvm_create_vm()` up to `anon_inode_getfd()`. -/
  | createVm (k : KvmPtr) (o : CreateVmCall)
  | vmGetfd (k : KvmPtr) (fd : Except Int Fd)
  /-- `pr_info()` with `kvm->vm_id`. -/
  | vmInfo (k : KvmPtr) (fd : Fd)
  /-- `mini_kvm_create_vcpu()` up to `mini_kvm_get()`. -/
  | createVcpu (k : KvmPtr) (v : VcpuPtr) (o : CreateVcpuCall)
  | vcpuGet (k : KvmPtr) (v : VcpuPtr) (o : CreateVcpuCall)
  /-- `mutex_lock(&kvm->lock)`, the test of `kvm->vcpu` and its assignment. -/
  | vcpuLock (k : KvmPtr) (v : VcpuPtr) (o : CreateVcpuCall)
  | vcpuGetfd (k : KvmPtr) (v : VcpuPtr) (o : CreateVcpuCall)
  /-- `mutex_unlock(&kvm->lock)` after the installation; the `pr_info()` then dereferences nothing. -/
  | vcpuUnlock (k : KvmPtr) (fd : Fd)
  /-- `mutex_unlock(&kvm->lock)` and `mini_kvm_put()` after a failure. -/
  | vcpuUnwind (k : KvmPtr) (v : VcpuPtr) (o : CreateVcpuCall) (r : Int)
  | vcpuTeardown (k : KvmPtr) (v : VcpuPtr) (o : CreateVcpuCall) (r : Int)
  | memregion (k : KvmPtr) (o : MemregionCall) (pc : MemregionPc)
  /-- MINI_KVM_VM_GET_SERIAL. -/
  | serialLock (k : KvmPtr)
  | serialCopy (k : KvmPtr)
  /-- `mini_vcpu_ioctl()`. -/
  | ioctlLock (v : VcpuPtr) (body : VcpuIoctl)
  | ioctlBody (v : VcpuPtr) (body : VcpuIoctl)
  | ioctlUnlock (v : VcpuPtr)
  /-- `mini_vm_release()`, and the last step of `mini_vcpu_release()`: `mini_kvm_put()`. -/
  | put (k : KvmPtr)
  /-- `mini_vcpu_release()`; the VMCLEAR of the teardown on `cpu` has the result `ok`. -/
  | releaseLock (v : VcpuPtr) (cpu : CpuId) (ok : Bool)
  | releaseUnlock (k : KvmPtr) (v : VcpuPtr) (cpu : CpuId) (ok : Bool)
  | releaseFree (k : KvmPtr) (v : VcpuPtr) (cpu : CpuId) (ok : Bool)
  | returned (r : Int)

/-- The part of `mini_kvm_create_vm()` before `anon_inode_getfd()`. -/
def createVmBefore (k : KvmPtr) (pml4 : Option Pfn) : K Int := do
  take (.kvm k)
  modifyKvm k fun _ => .fresh
  let r ← kvmEptInit k pml4
  if r ≠ 0 then
    give (.kvm k)
  return r

/-- The part of `mini_kvm_create_vcpu()` before `mini_kvm_get()`. -/
def createVcpuBefore (k : KvmPtr) (v : VcpuPtr) (o : CreateVcpuCall) : K Int := do
  if o.id ≠ 0 then
    return -einval
  touch (.kvm k)
  if !((← get).kvm k).kvm.slot.valid then
    return -einval
  if o.vcpu.isNone then
    return -enomem
  take (.vcpu v)
  modifyVcpuObj v fun _ => ⟨.fresh, k, none⟩
  match o.runPage with
  | none =>
    give (.vcpu v)
    return -enomem
  | some page =>
    take (.page page)
    modifyVcpuObj v fun x => { x with runPage := some page }
    let r ← vcpuVmxSetup v o.cpu o.setup
    if r ≠ 0 then
      freeVcpu v
    return r

/-- One step of a thread. -/
def pubStep : PubPc → StateM Shared PubPc
  | .createVm k o => do
    if o.kvm.isNone then
      return .returned (-enomem)
    let r ← onKernel (createVmBefore k o.pml4)
    return if r ≠ 0 then .returned r else .vmGetfd k o.fd
  | .vmGetfd k (.error r) => do
    onKernel do
      kvmEptDestroy k
      give (.kvm k)
    return .returned r
  | .vmGetfd k (.ok fd) => do
    installFile fd (.vm k)
    return .vmInfo k fd
  | .vmInfo k fd => do
    onKernel (touch (.kvm k))
    return .returned fd
  | .createVcpu k v o => do
    let r ← onKernel (createVcpuBefore k v o)
    return if r ≠ 0 then .returned r else .vcpuGet k v o
  | .vcpuGet k v o => do
    onKernel (miniKvmGet k)
    return .vcpuLock k v o
  | .vcpuLock k v o => do
    if !(← mutexLock (.kvm k)) then
      return .vcpuLock k v o
    if ((← get).kernel.kvm k).vcpu.isSome then
      return .vcpuUnwind k v o (-eexist)
    onKernel (modifyKvm k fun x => { x with vcpu := some v })
    return .vcpuGetfd k v o
  | .vcpuGetfd k v o => do
    match o.fd with
    | .error r =>
      onKernel do
        touch (.kvm k)
        modifyKvm k fun x => { x with vcpu := none }
      return .vcpuUnwind k v o r
    | .ok fd =>
      installFile fd (.vcpu v)
      return .vcpuUnlock k fd
  | .vcpuUnlock k fd => do
    mutexUnlock (.kvm k)
    return .returned fd
  | .vcpuUnwind k v o r => do
    mutexUnlock (.kvm k)
    onKernel (miniKvmPut k)
    return .vcpuTeardown k v o r
  | .vcpuTeardown _ v o r => do
    onKernel do
      vcpuVmxTeardown v o.cpu o.teardownOk
      freeVcpu v
    return .returned r
  | .memregion k o pc => do
    match ← onKernel (memregionPc k o pc) with
    | .returned r => return .returned r
    | pc' => return .memregion k o pc'
  | .serialLock k => do
    return if ← mutexLock (.kvm k) then .serialCopy k else .serialLock k
  | .serialCopy k => do
    onKernel (touch (.kvm k))
    mutexUnlock (.kvm k)
    return .returned 0
  | .ioctlLock v body => do
    return if ← mutexLock (.vcpu v) then .ioctlBody v body else .ioctlLock v body
  | .ioctlBody v body => do
    onKernel (body.exec v)
    return .ioctlUnlock v
  | .ioctlUnlock v => do
    mutexUnlock (.vcpu v)
    return .returned 0
  | .put k => do
    onKernel (miniKvmPut k)
    return .returned 0
  | .releaseLock v cpu ok => do
    onKernel (touch (.vcpu v))
    let k := ((← get).kernel.vcpu v).kvm
    if !(← mutexLock (.kvm k)) then
      return .releaseLock v cpu ok
    onKernel (modifyKvm k fun x => if x.vcpu = some v then { x with vcpu := none } else x)
    return .releaseUnlock k v cpu ok
  | .releaseUnlock k v cpu ok => do
    mutexUnlock (.kvm k)
    return .releaseFree k v cpu ok
  | .releaseFree k v cpu ok => do
    onKernel do
      vcpuVmxTeardown v cpu ok
      freeVcpu v
    return .put k
  | .returned r => return .returned r

/-- The file that the call at this point is an ioctl on; it is not released meanwhile. -/
def PubPc.file : PubPc → Option File
  | .createVcpu k _ _ | .vcpuGet k _ _ | .vcpuLock k _ _ | .vcpuGetfd k _ _ | .vcpuUnlock k _
  | .vcpuUnwind k _ _ _ | .vcpuTeardown k _ _ _ | .memregion k _ _ | .serialLock k | .serialCopy k =>
    some (.vm k)
  | .ioctlLock v _ | .ioctlBody v _ | .ioctlUnlock v => some (.vcpu v)
  | _ => none

structure PubRun where
  pool : Pool Shared PubPc
  /-- The numbers of the next objects. -/
  nextKvm : KvmPtr
  nextVcpu : VcpuPtr

inductive PubOp where
  /-- KVM_CREATE_VM. -/
  | createVm (o : CreateVmCall)
  /-- KVM_CREATE_VCPU. -/
  | createVcpu (fd : Fd) (o : CreateVcpuCall)
  /-- KVM_SET_USER_MEMORY_REGION. -/
  | setMemregion (fd : Fd) (o : MemregionCall)
  /-- MINI_KVM_VM_GET_SERIAL. -/
  | getSerial (fd : Fd)
  /-- KVM_RUN or MINI_KVM_VCPU_INJECT_IRQ. -/
  | vcpuIoctl (fd : Fd) (body : VcpuIoctl)
  | close (fd : Fd)
  /-- The release of a file that no descriptor and no ioctl refers to. -/
  | release (f : File) (cpu : CpuId) (ok : Bool)
  /-- The next step of the thread with this number. -/
  | step (i : Nat)
  /-- A signal kills the thread; one that waits for `vcpu->mutex` gives up. -/
  | kill (i : Nat)

def eintr : Int := 4

namespace PubRun

/-- A thread is in an ioctl on the file. -/
def InUse (x : PubRun) (f : File) : Prop := ∃ pc ∈ x.pool.threads, pc.file = some f

/-- The release of `f` may start. -/
def CanRelease (x : PubRun) (f : File) : Prop :=
  f ∈ x.pool.shared.opened ∧ f ∉ x.pool.shared.kernel.files.map Prod.snd ∧ ¬ x.InUse f

instance decidableInUse (x : PubRun) (f : File) : Decidable (x.InUse f) :=
  inferInstanceAs (Decidable (∃ pc ∈ x.pool.threads, _))

instance decidableCanRelease (x : PubRun) (f : File) : Decidable (x.CanRelease f) :=
  inferInstanceAs (Decidable (_ ∧ _ ∧ _))

/-- The file behind a descriptor. -/
def file (x : PubRun) (fd : Fd) : Option File := x.pool.shared.kernel.files.lookup fd

def spawn (x : PubRun) (pc : PubPc) : PubRun := { x with pool := x.pool.spawn pc }

/-- A call on a descriptor that is not open, or is of another kind, does nothing. -/
def step (x : PubRun) : PubOp → PubRun
  | .createVm o => { x.spawn (.createVm x.nextKvm o) with nextKvm := x.nextKvm + 1 }
  | .createVcpu fd o =>
    match x.file fd with
    | some (.vm k) => { x.spawn (.createVcpu k x.nextVcpu o) with nextVcpu := x.nextVcpu + 1 }
    | _ => x
  | .setMemregion fd o =>
    match x.file fd with
    | some (.vm k) => x.spawn (.memregion k o .copy)
    | _ => x
  | .getSerial fd =>
    match x.file fd with
    | some (.vm k) => x.spawn (.serialLock k)
    | _ => x
  | .vcpuIoctl fd body =>
    match x.file fd with
    | some (.vcpu v) => x.spawn (.ioctlLock v body)
    | _ => x
  | .close fd =>
    let s := x.pool.shared
    let kernel := { s.kernel with files := s.kernel.files.filter (·.1 ≠ fd) }
    { x with pool := { x.pool with shared := { s with kernel := kernel } } }
  | .release f cpu ok =>
    if x.CanRelease f then
      let s := x.pool.shared
      let pc : PubPc :=
        match f with
        | .vm k => .put k
        | .vcpu v => .releaseLock v cpu ok
      { x with pool := ⟨{ s with opened := s.opened.erase f }, x.pool.threads ++ [pc]⟩ }
    else x
  | .step i => { x with pool := x.pool.exec pubStep i }
  | .kill i =>
    match x.pool.threads[i]? with
    | some (.ioctlLock _ _) =>
      { x with pool := { x.pool with threads := x.pool.threads.set i (.returned (-eintr)) } }
    | _ => x

end PubRun

end MiniVirt.Kvm
