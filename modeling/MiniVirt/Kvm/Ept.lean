import MiniVirt.Kvm.Vmx
import MiniVirt.Lib.RadixTable

/-!
# `ept.c`: the extended page tables

The tables are pages of `Hw.mem`.  The results of `alloc_page()` are supplied, `none` for a failure,
and a page that is handed out with `__GFP_ZERO` is zeroed by `PageMem.zeroPage`.

`hwWalk` is not code of the module but the hardware's walk (SDM 29.3.2).
-/

namespace MiniVirt.Kvm

def eptPteRead : BitVec 64 := 0x1
/-- `EPT_PTE_READ | EPT_PTE_WRITE | EPT_PTE_EXEC`. -/
def eptEntryRwx : BitVec 64 := 0x7
/-- `EPT_MEMTYPE_WB`, the memory type 6 in bits 5:3. -/
def eptMemtypeWb : BitVec 64 := 0x30
def eptPteAddrMask : BitVec 64 := 0x000ffffffffff000
def pageMask : BitVec 64 := 0xfffffffffffff000

/-! ### INVEPT -/

/-- `mini_invept(VMX_EPT_EXTENT_GLOBAL, 0, 0)`. -/
def miniEptInveptGlobal (ok : Bool) : M Int := do
  if !(← cpuInVmxOperation (← get).cpu) then
    return -enodev
  else if ok then
    recordInvept
    return 0
  else
    return -eio

/-! ### Table pages -/

/-- The page frame that an entry or an EPTP refers to. -/
def pfnOf (e : BitVec 64) : Pfn := (((e &&& eptPteAddrMask) >>> 12)).setWidth 40

/-- The index of a guest-physical address in the table that is walked with `shift`. -/
def eptIndex (gpa : BitVec 64) (shift : Nat) : Fin 512 :=
  ⟨(gpa >>> shift &&& 511).toNat, by
    rw [BitVec.toNat_and]
    exact Nat.lt_of_le_of_lt Nat.and_le_right (by decide)⟩

/-- `*entry = v`. -/
def PageMem.set (m : PageMem) (page : Pfn) (i : Fin 512) (v : BitVec 64) : PageMem :=
  RadixTable.setEntry m page i v

def PageMem.zeroPage (m : PageMem) (page : Pfn) : PageMem := RadixTable.fillPage m page 0

/-! ### Init, destroy, walk -/

def vmxEptpMtWb : BitVec 64 := 0x6
def vmxEptpPwl4 : BitVec 64 := 0x18

/-- `mini_ept_init()` with the result of its `alloc_page()`. -/
def miniEptInit (m : PageMem) : Option Pfn → Except Int (PageMem × MiniKvmEpt)
  | none => .error (-enomem)
  | some pml4 => .ok (m.zeroPage pml4,
      { pml4 := pml4, eptp := pageToPhys pml4 ||| vmxEptpMtWb ||| vmxEptpPwl4, tracked := [] })

/-- The pages that `mini_ept_destroy()` gives back, in order. -/
def miniEptDestroy (ept : MiniKvmEpt) : List Pfn := ept.tracked ++ [ept.pml4]

/-- What a walk works on: the table pages, the EPT context and the allocations to come. -/
structure EptState where
  mem : PageMem
  ept : MiniKvmEpt
  allocs : List (Option Pfn)

/-- One level of `mini_ept_walk()` above the last: the table that the entry `(table, i)` refers
to, allocated when `alloc` is set and the entry is not present. -/
def eptNextTable (s : EptState) (table : Pfn) (i : Fin 512) (alloc : Bool) :
    EptState × Option Pfn :=
  if s.mem table i &&& eptPteRead = 0 then
    if !alloc then (s, none)
    else if s.ept.tracked.length ≥ miniKvmEptTrackMax then (s, none)
    else match s.allocs with
      | [] => (s, none)
      | none :: as => ({ s with allocs := as }, none)
      | some np :: as =>
        let mem := (s.mem.zeroPage np).set table i (pageToPhys np ||| eptEntryRwx)
        ({ mem := mem, ept := { s.ept with tracked := s.ept.tracked ++ [np] }, allocs := as },
          -- the source reads the entry back
          some (pfnOf (mem table i)))
  else
    (s, some (pfnOf (s.mem table i)))

/-- The levels of the walk above the last, one for each shift. -/
def eptWalkTables (gpa : BitVec 64) (alloc : Bool) :
    List Nat → EptState → Pfn → EptState × Option Pfn
  | [], s, table => (s, some table)
  | shift :: shifts, s, table =>
    match eptNextTable s table (eptIndex gpa shift) alloc with
    | (s', none) => (s', none)
    | (s', some table') => eptWalkTables gpa alloc shifts s' table'

/-- `mini_ept_walk()`: the leaf entry for `gpa`, as a page and an index. -/
def miniEptWalk (s : EptState) (gpa : BitVec 64) (alloc : Bool) :
    EptState × Option (Pfn × Fin 512) :=
  match eptWalkTables gpa alloc [39, 30, 21] s s.ept.pml4 with
  | (s', none) => (s', none)
  | (s', some table) => (s', some (table, eptIndex gpa 12))

def eptLeaf (page : Pfn) : BitVec 64 := pageToPhys page ||| eptEntryRwx ||| eptMemtypeWb

/-- The memslot test of `mini_ept_handle_violation()`, on a page-aligned address. -/
def MiniKvmMemslot.covers (slot : MiniKvmMemslot) (gpa : BitVec 64) : Bool :=
  slot.valid && !(gpa < slot.baseGpa) && !(slot.baseGpa + (slot.npages <<< 12) ≤ gpa)

/-- `mini_ept_handle_violation()` after its VMREAD of GUEST_PHYSICAL_ADDRESS. -/
def eptHandleViolation (slot : MiniKvmMemslot) (s : EptState) (gpa : BitVec 64) :
    EptState × Int :=
  let gpa := gpa &&& pageMask
  if !slot.covers gpa then (s, -efault)
  else
    let idx := (gpa - slot.baseGpa) >>> 12
    match miniEptWalk s gpa true with
    | (s', none) => (s', -enomem)
    | (s', some (table, i)) =>
      ({ s' with mem := s'.mem.set table i (eptLeaf (slot.pages idx.toNat)) }, 0)

def miniEptHandleViolation : M Int := do
  let gpa := (← miniVmread .guestPhysicalAddress).getD 0
  let s ← get
  let (e, r) := eptHandleViolation s.kvm.slot ⟨s.hw.mem, s.kvm.ept, s.allocs⟩ gpa
  modify fun s =>
    { s with
      hw := { s.hw with mem := e.mem }
      kvm := { s.kvm with ept := e.ept }
      allocs := e.allocs }
  if r = 0 then
    modifyVcpu fun v => { v with nEptViolations := v.nEptViolations + 1 }
  return r

/-! ### The hardware walk -/

/-- An entry is present iff one of its bits 2:0 is set. -/
def eptPresent (e : BitVec 64) : Bool := e &&& eptEntryRwx ≠ 0

/-- How a hardware walk ends.  `special` stands for a present entry above the last level that has
one of its bits 7:3 set: a large page or a misconfiguration. -/
inductive EptWalk where
  | notPresent
  | special
  | leaf (e : BitVec 64)
  deriving DecidableEq

/-- The hardware walk below `table`, one shift for each level above the last. -/
def hwWalkFrom (m : PageMem) (gpa : BitVec 64) : List Nat → Pfn → EptWalk
  | [], table =>
    let e := m table (eptIndex gpa 12)
    if eptPresent e then .leaf e else .notPresent
  | shift :: shifts, table =>
    let e := m table (eptIndex gpa shift)
    if !eptPresent e then .notPresent
    else if e &&& 0xf8 ≠ 0 then .special
    else hwWalkFrom m gpa shifts (pfnOf e)

/-- The 4-level hardware walk for `gpa` from an EPTP. -/
def hwWalk (m : PageMem) (eptp gpa : BitVec 64) : EptWalk :=
  hwWalkFrom m gpa [39, 30, 21] (pfnOf eptp)

end MiniVirt.Kvm
