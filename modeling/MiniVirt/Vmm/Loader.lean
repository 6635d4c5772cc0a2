import MiniVirt.Vmm.VirtioMmio

/-!
# `minivmm.c`: the bzImage loader

`load_bzimage()` with the copies that it makes into guest RAM, in the order of the source, and the command line
that `main()` makes for it.  A command line is given without its final NUL.
-/

namespace MiniVirt.Vmm

def bootParamsGpa : Nat := 0x7000
def gdtGpa : Nat := 0x8000
def tssGpa : Nat := 0x8100
def cmdlineGpa : Nat := 0x9000
def cmdlineMax : Nat := 4096

/-- What `read_file()` returns. -/
structure FileData where
  bytes : List (BitVec 8)
  size_lt : bytes.length < 2 ^ 63

def FileData.size (f : FileData) : Nat := f.bytes.length

def FileData.buf (f : FileData) : ByteMem := fun i => f.bytes.getD i 0

/-- The calls of `DIE()`. -/
inductive LoadError where
  | tooSmall
  | setupOutOfRange
  | badMagic (magic : Nat)
  | oldVersion (version : Nat)
  /-- The memory does not hold the kernel. -/
  | noRoom
  | cmdlineTooLong
  /-- The initrd would overlap the kernel. -/
  | initrdOverlap

structure BootImage where
  kernelGpa : BitVec 64
  initrdGpa : BitVec 64
  initrdSize : BitVec 64
  deriving DecidableEq

/-! ### The setup header -/

def setupLen (kbuf : ByteMem) : Nat :=
  let setupSects := if kbuf 0x1f1 = 0 then 4 else (kbuf 0x1f1).toNat
  (setupSects + 1) * 512

def hdrLen (kbuf : ByteMem) : Nat := 0x202 + (kbuf 0x201).toNat - 0x1f1

def hdrMagic (kbuf : ByteMem) : Nat := kbuf.load 0x202 4

def hdrVersion (kbuf : ByteMem) : Nat := kbuf.load 0x206 2

/-- `boot_params` with the header of the kernel and the fields that the loader fills in first. -/
def putHeader (mem : ByteMem) (kbuf : ByteMem) : ByteMem :=
  let mem := mem.write bootParamsGpa (List.replicate 4096 0)
  let mem := mem.write (bootParamsGpa + 0x1f1) (kbuf.read 0x1f1 (hdrLen kbuf))
  let mem := mem.store (bootParamsGpa + 0x210) 1 0xff
  let mem := mem.store (bootParamsGpa + 0x211) 1 (mem.load (bootParamsGpa + 0x211) 1 ||| 0x81)
  mem.store (bootParamsGpa + 0x224) 2 0xffff

/-- `bp->hdr.pref_address`. -/
def prefAddress (mem : ByteMem) : BitVec 64 := .ofNat 64 (mem.load (bootParamsGpa + 0x258) 8)

/-- `bp->hdr.init_size`. -/
def initSize (mem : ByteMem) : BitVec 32 := .ofNat 32 (mem.load (bootParamsGpa + 0x260) 4)

/-! ### Placement -/

/-- The load address that the header asks for is not used. -/
def FallsBack (memSize : BitVec 64) (version : Nat) (pref : BitVec 64) (init : BitVec 32) : Prop :=
  version < 0x20a ∨ pref = 0 ∨ memSize < pref + init.setWidth 64

instance (memSize : BitVec 64) (version : Nat) (pref : BitVec 64) (init : BitVec 32) :
    Decidable (FallsBack memSize version pref init) :=
  inferInstanceAs (Decidable (_ ∨ _ ∨ _))

def loadAddr (memSize : BitVec 64) (version : Nat) (pref : BitVec 64) (init : BitVec 32) (klen : Nat) :
    Except LoadError (BitVec 64) :=
  if FallsBack memSize version pref init then
    if memSize < 0x100000 + .ofNat 64 klen then .error .noRoom else .ok 0x100000
  else .ok pref

def initrdAddr (memSize : BitVec 64) (isize : Nat) : BitVec 64 :=
  (memSize - .ofNat 64 isize) &&& (~~~0xfff : BitVec 64)

/-! ### The rest of guest RAM -/

def putE820 (mem : ByteMem) (memSize : BitVec 64) : ByteMem :=
  let table := bootParamsGpa + 0x2d0
  let mem := ((mem.store table 8 0).store (table + 8) 8 0x9fc00).store (table + 16) 4 1
  let mem := mem.store (table + 20) 8 0x100000
  let mem := (mem.store (table + 28) 8 (memSize - 0x100000).toNat).store (table + 36) 4 1
  mem.store (bootParamsGpa + 0x1e8) 1 2

def buildGdt (mem : ByteMem) : ByteMem :=
  let mem := mem.write gdtGpa (List.replicate (5 * 8) 0)
  let mem := mem.store (gdtGpa + 16) 8 0x00cf9b000000ffff
  let mem := mem.store (gdtGpa + 24) 8 0x00cf93000000ffff
  let mem := mem.store (gdtGpa + 32) 8 (0x00008b0000000067 ||| tssGpa <<< 16)
  mem.write tssGpa (List.replicate 104 0)

/-! ### `load_bzimage()` -/

/-- `memcpy()` to `guest_mem + gpa`, where the addresses of the bytes are numbers modulo 2^64. -/
def copyToGuest (mem : ByteMem) (gpa : BitVec 64) (l : List (BitVec 8)) : ByteMem := fun a =>
  (l[(BitVec.ofNat 64 a - gpa).toNat]?).getD (mem a)

/-- The kernel, then the command line. -/
def putKernel (mem kbuf : ByteMem) (load : BitVec 64) (klen : Nat) (cmdline : List (BitVec 8)) : ByteMem :=
  let mem := copyToGuest mem load (kbuf.read (setupLen kbuf) klen)
  let mem := mem.store (bootParamsGpa + 0x214) 4 load.toNat
  let mem := mem.write cmdlineGpa (cmdline ++ [0])
  let mem := mem.store (bootParamsGpa + 0x228) 4 cmdlineGpa
  if 0x206 ≤ hdrVersion kbuf then
    mem.store (bootParamsGpa + 0x238) 4 cmdline.length
  else mem

def putInitrd (mem : ByteMem) (initrd : FileData) (gpa : BitVec 64) : ByteMem :=
  let mem := copyToGuest mem gpa initrd.bytes
  let mem := mem.store (bootParamsGpa + 0x218) 4 gpa.toNat
  mem.store (bootParamsGpa + 0x21c) 4 initrd.size

def loadBzimage (mem : ByteMem) (memSize : BitVec 64) (kernel initrd : FileData)
    (cmdline : List (BitVec 8)) : Except LoadError (BootImage × ByteMem) :=
  let kbuf := kernel.buf
  if kernel.size < 0x202 + 2 then .error .tooSmall
  else if kernel.size ≤ setupLen kbuf then .error .setupOutOfRange
  else if hdrMagic kbuf ≠ 0x53726448 then .error (.badMagic (hdrMagic kbuf))
  else if hdrVersion kbuf < 0x200 then .error (.oldVersion (hdrVersion kbuf))
  else
    let mem := putHeader mem kbuf
    let init := initSize mem
    let klen := kernel.size - setupLen kbuf
    match loadAddr memSize (hdrVersion kbuf) (prefAddress mem) init klen with
    | .error e => .error e
    | .ok load =>
      if cmdlineMax < cmdline.length + 1 then .error .cmdlineTooLong
      else
        let mem := putKernel mem kbuf load klen cmdline
        let gpa := initrdAddr memSize initrd.size
        if gpa ≤ load + init.setWidth 64 then .error .initrdOverlap
        else
          .ok (⟨load, gpa, .ofNat 64 initrd.size⟩, buildGdt (putE820 (putInitrd mem initrd gpa) memSize))

/-! ### `main()` -/

/-- The bytes of a C string, without its NUL. -/
structure CStr where
  bytes : List (BitVec 8)
  no_nul : 0 ∉ bytes

/-- The parameter by which the guest finds a device: `virtio_mmio.device=0x%llx@0x%llx:%u`. -/
def deviceParam (d : Dev) : List Char :=
  "virtio_mmio.device=0x".toList ++ Nat.toDigits 16 virtioRegionSize ++ "@0x".toList ++ Nat.toDigits 16 d.base.toNat ++
    ":".toList ++ Nat.toDigits 10 d.gsi

/-- What the format adds to the user's string. -/
def deviceParams : List (BitVec 8) :=
  (" ".toList ++ deviceParam .console ++ " ".toList ++ deviceParam .blk).map fun c => .ofNat 8 c.toNat

/-- The string that `snprintf()` formats. -/
def formatCmdline (user : CStr) : CStr where
  bytes := user.bytes ++ deviceParams
  no_nul := by
    rw [List.mem_append, not_or]
    exact ⟨user.no_nul, by decide⟩

/-- What `snprintf()` stores in a buffer of `size` bytes. -/
def snprintf (size : Nat) (l : CStr) : CStr where
  bytes := l.bytes.take (size - 1)
  no_nul h := l.no_nul (List.mem_of_mem_take h)

def fullCmdline (user : CStr) : CStr := snprintf cmdlineMax (formatCmdline user)

/-- The call of `load_bzimage()`. -/
def loadGuest (mem : ByteMem) (memSize : BitVec 64) (kernel initrd : FileData) (user : CStr) :
    Except LoadError (BootImage × ByteMem) :=
  loadBzimage mem memSize kernel initrd (fullCmdline user).bytes

/-- `mem_size`, from the number that `strtoul()` makes of the argument of `-m`. -/
def memSizeOf (memMb : BitVec 64) : BitVec 64 := memMb <<< 20

inductive MainError where
  /-- The memory is below 64 MiB. -/
  | memTooSmall
  | load (e : LoadError)

/-- `main()` up to the loaded guest. -/
def mainLoad (mem : ByteMem) (memMb : BitVec 64) (kernel initrd : FileData) (user : CStr) :
    Except MainError (BootImage × ByteMem) :=
  if memSizeOf memMb < 64 <<< 20 then .error .memTooSmall
  else (loadGuest mem (memSizeOf memMb) kernel initrd user).mapError .load

/-! ### `vm_setup()` -/

def tssAddr : Nat := 0xfffbd000
def identityMapAddr : Nat := 0xfffbc000
def mpLapicAddr : Nat := 0xfee00000
def mpIoapicAddr : Nat := 0xfec00000

/-- The guest physical side of `struct kvm_userspace_memory_region`. -/
structure MemoryRegion where
  guestPhysAddr : BitVec 64
  memorySize : BitVec 64

/-- The region that is given to KVM. -/
def ramRegion (memSize : BitVec 64) : MemoryRegion := ⟨0, memSize⟩

end MiniVirt.Vmm
