import MiniVirt.Lib.Threads
import MiniVirt.Kvm.Machine

/-!
# `main.c`: VMXON on all CPUs

`mini_vmx_hardware_enable_all()` and `mini_vmx_hardware_disable_all()`.  `on_each_cpu()` runs its callback on all online
CPUs at the same time and waits for all of them: the callbacks are threads over the shared state, and a schedule says
whose turn it is.  Each of their steps is one access to a register or a variable.

Whether an allocation, the check of the CPU or VMXON succeeds is up to the environment (`VmxonEnv`).
-/

namespace MiniVirt.Kvm

/-- The CPUs, which stay as they are during a call, in the order of the masks. -/
structure CpuMasks where
  possible : List CpuId
  online : List CpuId
  possible_nodup : possible.Nodup
  online_nodup : online.Nodup
  online_possible : ∀ c ∈ online, c ∈ possible

/-- What the environment answers on each CPU. -/
structure VmxonEnv where
  /-- `alloc_pages_node()`. -/
  page : CpuId → Option Pfn
  /-- A page that is in use is not given out again. -/
  page_inj : ∀ c c' p, page c = some p → page c' = some p → c = c'
  /-- `mini_cpu_vmx_supported()`. -/
  supported : CpuId → Bool
  /-- `mini_cpu_vmxon()` returns 0. -/
  vmxon : CpuId → Bool

/-- What belongs to one CPU. -/
structure CpuVmx where
  /-- CR4.VMXE, and its shadow. -/
  vmxe : Bool
  /-- The VMXON region, while the CPU is in VMX operation. -/
  region : Option Pfn
  /-- `mini_vmxon_done`. -/
  vmxonDone : Bool
  deriving DecidableEq

/-- What happens to the region pages, with the VMXON regions in use at that moment. -/
inductive RegionEvent where
  | alloc (page : Pfn)
  | free (page : Option Pfn) (regions : CpuId → Option Pfn)

structure VmxonState where
  cpu : CpuId → CpuVmx
  /-- `mini_vmxon_page`. -/
  page : CpuId → Option Pfn
  enableErr : Int
  vmxEnableCount : Int
  vmxEnabled : Bool
  events : List RegionEvent

namespace VmxonState

def setCpu (s : VmxonState) (c : CpuId) (f : CpuVmx → CpuVmx) : VmxonState :=
  { s with cpu := Function.update s.cpu c (f (s.cpu c)) }

def regions (s : VmxonState) (c : CpuId) : Option Pfn := (s.cpu c).region

end VmxonState

/-! ### The callbacks -/

/-- What `mini_vmx_enable_one()` does next. -/
inductive EnablePc where
  | fetchPage
  | readErr
  | checkSupported
  | readCr4
  | setVmxe
  | vmxon
  | clearVmxe
  | setDone
  | incCount
  /-- `atomic_set(&mk_global.enable_err, r)`. -/
  | setErr (r : Int)
  | returned
  deriving DecidableEq

structure EnableThread where
  cpu : CpuId
  /-- The local variable `page`. -/
  page : Option Pfn
  pc : EnablePc

/-- One step of `mini_vmx_enable_one()`. -/
def miniVmxEnableOne (env : VmxonEnv) (t : EnableThread) : StateM VmxonState EnableThread := do
  let s ← get
  match t.pc with
  | .fetchPage => return { t with page := s.page t.cpu, pc := .readErr }
  | .readErr => return { t with pc := if s.enableErr ≠ 0 then .returned else .checkSupported }
  | .checkSupported => return { t with pc := if env.supported t.cpu then .readCr4 else .setErr (-enodev) }
  | .readCr4 => return { t with pc := if (s.cpu t.cpu).vmxe then .setErr (-ebusy) else .setVmxe }
  | .setVmxe =>
    set (s.setCpu t.cpu fun x => { x with vmxe := true })
    return { t with pc := .vmxon }
  | .vmxon =>
    if env.vmxon t.cpu then
      set (s.setCpu t.cpu fun x => { x with region := t.page })
      return { t with pc := .setDone }
    else return { t with pc := .clearVmxe }
  | .clearVmxe =>
    set (s.setCpu t.cpu fun x => { x with vmxe := false })
    return { t with pc := .setErr (-eio) }
  | .setDone =>
    set (s.setCpu t.cpu fun x => { x with vmxonDone := true })
    return { t with pc := .incCount }
  | .incCount =>
    set { s with vmxEnableCount := s.vmxEnableCount + 1 }
    return { t with pc := .returned }
  | .setErr r =>
    set { s with enableErr := r }
    return { t with pc := .returned }
  | .returned => return t

/-- What `mini_vmx_disable_one()` does next. -/
inductive DisablePc where
  | readDone
  | vmxoff
  | clearVmxe
  | clearDone
  | decCount
  | returned
  deriving DecidableEq

structure DisableThread where
  cpu : CpuId
  pc : DisablePc

/-- One step of `mini_vmx_disable_one()`. -/
def miniVmxDisableOne (t : DisableThread) : StateM VmxonState DisableThread := do
  let s ← get
  match t.pc with
  | .readDone => return { t with pc := if (s.cpu t.cpu).vmxonDone then .vmxoff else .returned }
  | .vmxoff =>
    set (s.setCpu t.cpu fun x => { x with region := none })
    return { t with pc := .clearVmxe }
  | .clearVmxe =>
    set (s.setCpu t.cpu fun x => { x with vmxe := false })
    return { t with pc := .clearDone }
  | .clearDone =>
    set (s.setCpu t.cpu fun x => { x with vmxonDone := false })
    return { t with pc := .decCount }
  | .decCount =>
    set { s with vmxEnableCount := s.vmxEnableCount - 1 }
    return { t with pc := .returned }
  | .returned => return t

/-- `on_each_cpu(f, NULL, 1)` under the schedule `sched`: `none` if it does not lead all callbacks to their end. -/
def onEachCpu {τ : Type} (f : τ → StateM VmxonState τ) (start : CpuId → τ) (finished : τ → Bool) (masks : CpuMasks)
    (sched : List Nat) (s : VmxonState) : Option VmxonState :=
  let x := sched.foldl (Pool.exec f) ⟨s, masks.online.map start⟩
  if x.threads.all finished then some x.shared else none

def enableOnEach (env : VmxonEnv) : CpuMasks → List Nat → VmxonState → Option VmxonState :=
  onEachCpu (miniVmxEnableOne env) (fun c => ⟨c, none, .fetchPage⟩) fun t => t.pc = .returned

def disableOnEach : CpuMasks → List Nat → VmxonState → Option VmxonState :=
  onEachCpu miniVmxDisableOne (fun c => ⟨c, .readDone⟩) fun t => t.pc = .returned

/-! ### The region pages -/

/-- `__free_page(per_cpu(mini_vmxon_page, c)); per_cpu(mini_vmxon_page, c) = NULL`. -/
def freeRegion (s : VmxonState) (c : CpuId) : VmxonState :=
  { s with
    page := Function.update s.page c none
    events := s.events ++ [.free (s.page c) s.regions] }

/-- The loop of the allocations over the CPUs that are left; `false` if one of them fails, and then the pages of the
CPUs before it have been given back. -/
def allocRegions (env : VmxonEnv) (masks : CpuMasks) : List CpuId → VmxonState → Bool × VmxonState
  | [], s => (true, s)
  | cpu :: cpus, s =>
    match env.page cpu with
    | none => (false, (masks.possible.takeWhile (· ≠ cpu)).foldl freeRegion s)
    | some page =>
      allocRegions env masks cpus
        { s with
          page := Function.update s.page cpu (some page)
          events := s.events ++ [.alloc page] }

/-! ### The two functions -/

/-- `mini_vmx_hardware_enable_all()`, with the schedules of its calls of `on_each_cpu()`. -/
def miniVmxHardwareEnableAll (env : VmxonEnv) (masks : CpuMasks) (sched schedOff : List Nat) (s : VmxonState) :
    Option (Int × VmxonState) :=
  match allocRegions env masks masks.possible s with
  | (false, s) => some (-enomem, s)
  | (true, s) =>
    match enableOnEach env masks sched { s with enableErr := 0, vmxEnableCount := 0 } with
    | none => none
    | some s =>
      if s.enableErr ≠ 0 then
        match disableOnEach masks schedOff s with
        | none => none
        | some s' => some (s.enableErr, masks.possible.foldl freeRegion s')
      else some (0, { s with vmxEnabled := true })

/-- `mini_vmx_hardware_disable_all()`. -/
def miniVmxHardwareDisableAll (masks : CpuMasks) (sched : List Nat) (s : VmxonState) : Option VmxonState :=
  if !s.vmxEnabled then some s
  else
    match disableOnEach masks sched s with
    | none => none
    | some s =>
      let s := masks.possible.foldl (fun s c => if (s.page c).isSome then freeRegion s c else s) s
      some { s with vmxEnabled := false }

end MiniVirt.Kvm
