import MiniVirt.Vmm.Spec.Cmdline

/-!
# Guest RAM and the fixed addresses

`main()` bounds the size of guest RAM from below only.  `addressLayout_iff` says for which sizes and files the RAM
leaves the addresses of the devices free and the addresses in `boot_params` are right.
-/

namespace MiniVirt.Vmm

/-! ### The law -/

/-- The addresses that guest RAM must leave free: the windows of the two devices, the pages given to KVM, and those of
the LAPIC and the IOAPIC. -/
def deviceWindows : List (Set Nat) :=
  [span Dev.console.base.toNat virtioRegionSize, span Dev.blk.base.toNat virtioRegionSize, span identityMapAddr 0x1000,
    span tssAddr 0x3000, span mpLapicAddr 0x1000, span mpIoapicAddr 0x1000]

/-- The RAM that KVM maps leaves the windows free. -/
def RamApart (memSize : BitVec 64) : Prop :=
  ∀ w ∈ deviceWindows, Disjoint (span (ramRegion memSize).guestPhysAddr.toNat (ramRegion memSize).memorySize.toNat) w

/-- The addresses of entry `i` of `e820_table`. -/
def e820Range (mem : ByteMem) (i : Nat) : Set Nat :=
  span (mem.load (bootParamsGpa + 0x2d0 + 20 * i) 8) (mem.load (bootParamsGpa + 0x2d0 + 20 * i + 8) 8)

/-- What the guest finds in `boot_params`. -/
structure AddressLayout (memSize : BitVec 64) (img : BootImage) (mem : ByteMem) : Prop where
  ram : RamApart memSize
  code32Start : mem.load (bootParamsGpa + 0x214) 4 = img.kernelGpa.toNat
  ramdiskImage : mem.load (bootParamsGpa + 0x218) 4 = img.initrdGpa.toNat
  e820 : ∀ i < mem.load (bootParamsGpa + 0x1e8) 1, e820Range mem i ⊆ Set.Ico 0 memSize.toNat

/-! ### The condition -/

/-- The address of the kernel, as far as the header decides it. -/
def kernelAddr (memSize : BitVec 64) (version : Nat) (pref : BitVec 64) (init : BitVec 32) : BitVec 64 :=
  if FallsBack memSize version pref init then 0x100000 else pref

/-- Guest RAM ends below the devices, the kernel goes below 4 GiB, and the initrd is no longer than guest RAM and puts
nothing else into the field `code32_start`. -/
structure LayoutFits (memSize : BitVec 64) (load : BitVec 64) (initrd : FileData) : Prop where
  ram : memSize.toNat ≤ Dev.console.base.toNat
  kernel : load.toNat < 2 ^ 32
  ramdisk : initrd.size ≤ memSize.toNat
  code32Start : Spares initrd.bytes (initrdAddr memSize initrd.size) (bootParamsGpa + 0x214) (leBytes 4 load.toNat)

/-! ### Guest RAM -/

theorem ramApart_iff {memSize : BitVec 64} (hM : 0x4000000 ≤ memSize.toNat) :
    RamApart memSize ↔ memSize.toNat ≤ Dev.console.base.toNat := by
  have hzero : (ramRegion memSize).guestPhysAddr.toNat = 0 := rfl
  have hsize : (ramRegion memSize).memorySize = memSize := rfl
  have hbase : Dev.console.base.toNat = 0xd0000000 ∧ Dev.blk.base.toNat = 0xd0000200 := ⟨rfl, rfl⟩
  unfold RamApart deviceWindows
  simp only [List.forall_mem_cons, disjoint_span, hzero, hsize, hbase, virtioRegionSize, identityMapAddr, tssAddr,
    mpLapicAddr, mpIoapicAddr]
  simp only [List.not_mem_nil, false_imp_iff, implies_true, and_true]
  omega

/-! ### The fields -/

/-- Both ranges of the table, and their number. -/
theorem e820_loads (mem : ByteMem) (memSize : BitVec 64) :
    (buildGdt (putE820 mem memSize)).load (bootParamsGpa + 0x1e8) 1 = 2 ∧
      e820Range (buildGdt (putE820 mem memSize)) 0 = span 0 0x9fc00 ∧
        e820Range (buildGdt (putE820 mem memSize)) 1 = span 0x100000 (memSize - 0x100000).toNat := by
  have hgdt (b k : Nat) (hb : b + k ≤ 0x8000) :
      (buildGdt (putE820 mem memSize)).load b k = (putE820 mem memSize).load b k :=
    ByteMem.load_congr fun i hi hi' => buildGdt_outside (by omega) _
  have hlt : (memSize - 0x100000).toNat < 256 ^ 8 := (memSize - 0x100000).isLt
  have hcount : (putE820 mem memSize).load 0x71e8 1 = 2 := ByteMem.load_store_self _ _ _ _
  have haddr₀ : (putE820 mem memSize).load 0x72d0 8 = 0 := by
    unfold putE820 bootParamsGpa
    rw [ByteMem.load_store_of_not_mem (by omega), ByteMem.load_store_of_not_mem (by omega),
      ByteMem.load_store_of_not_mem (by omega),
      ByteMem.load_store_of_not_mem (by omega), ByteMem.load_store_of_not_mem (by omega),
        ByteMem.load_store_of_not_mem (by omega)]
    exact ByteMem.load_store_self _ _ _ _
  have hsize₀ : (putE820 mem memSize).load 0x72d8 8 = 0x9fc00 := by
    unfold putE820 bootParamsGpa
    rw [ByteMem.load_store_of_not_mem (by omega), ByteMem.load_store_of_not_mem (by omega),
      ByteMem.load_store_of_not_mem (by omega),
      ByteMem.load_store_of_not_mem (by omega), ByteMem.load_store_of_not_mem (by omega)]
    exact ByteMem.load_store_self _ _ _ _
  have haddr₁ : (putE820 mem memSize).load 0x72e4 8 = 0x100000 := by
    unfold putE820 bootParamsGpa
    rw [ByteMem.load_store_of_not_mem (by omega), ByteMem.load_store_of_not_mem (by omega),
      ByteMem.load_store_of_not_mem (by omega)]
    exact ByteMem.load_store_self _ _ _ _
  have hsize₁ : (putE820 mem memSize).load 0x72ec 8 = (memSize - 0x100000).toNat := by
    unfold putE820 bootParamsGpa
    rw [ByteMem.load_store_of_not_mem (by omega), ByteMem.load_store_of_not_mem (by omega)]
    exact (ByteMem.load_store_self _ _ _ _).trans (Nat.mod_eq_of_lt hlt)
  unfold e820Range bootParamsGpa
  rw [hgdt _ _ (by decide), hgdt _ _ (by decide), hgdt _ _ (by decide), hgdt _ _ (by decide), hgdt _ _ (by decide),
    hcount, haddr₀, hsize₀, haddr₁, hsize₁]
  exact ⟨rfl, rfl, rfl⟩

/-- The table covers guest RAM only. -/
theorem e820_inside (mem : ByteMem) {memSize : BitVec 64} (hM : 0x4000000 ≤ memSize.toNat) :
    ∀ i < (buildGdt (putE820 mem memSize)).load (bootParamsGpa + 0x1e8) 1,
      e820Range (buildGdt (putE820 mem memSize)) i ⊆ Set.Ico 0 memSize.toNat := by
  obtain ⟨hcount, hlow, hhigh⟩ := e820_loads mem memSize
  have hMlt := memSize.isLt
  have hsub : (memSize - 0x100000).toNat = memSize.toNat - 0x100000 := by
    have h1M : (0x100000 : BitVec 64).toNat = 0x100000 := rfl
    rw [BitVec.toNat_sub, h1M]
    omega
  rw [hcount]
  intro i hi
  obtain rfl | rfl : i = 0 ∨ i = 1 := by omega
  · rw [hlow, span_subset]
    omega
  · rw [hhigh, span_subset, hsub]
    omega

theorem putKernel_code32Start (mem kbuf : ByteMem) (load : BitVec 64) (klen : Nat) {cmdline : List (BitVec 8)} :
    (putKernel mem kbuf load klen cmdline).read (bootParamsGpa + 0x214) 4 = leBytes 4 load.toNat := by
  have hfield := ByteMem.read_write_self (copyToGuest mem load (kbuf.read (setupLen kbuf) klen)) (bootParamsGpa + 0x214)
    (leBytes 4 load.toNat)
  rw [length_leBytes] at hfield
  refine (ByteMem.read_congr fun i hi hi' => ?_).trans hfield
  have hlo : 0x7214 ≤ i ∧ i < 0x7218 := ⟨hi, hi'⟩
  unfold putKernel bootParamsGpa cmdlineGpa
  split
  · rw [ByteMem.store_of_not_mem (by omega), ByteMem.store_of_not_mem (by omega),
      ByteMem.write_of_not_mem (.inl (by omega))]
    rfl
  · rw [ByteMem.store_of_not_mem (by omega), ByteMem.write_of_not_mem (.inl (by omega))]
    rfl

theorem putInitrd_ramdiskImage (mem : ByteMem) (initrd : FileData) (gpa : BitVec 64) :
    (putInitrd mem initrd gpa).load (bootParamsGpa + 0x218) 4 = gpa.toNat % 2 ^ 32 := by
  unfold putInitrd bootParamsGpa
  rw [ByteMem.load_store_of_not_mem (by omega)]
  exact ByteMem.load_store_self _ _ _ _

/-- The fields after the copy of the initrd. -/
theorem fields_iff {mem mem' : ByteMem} {memSize : BitVec 64} {kernel initrd : FileData}
    {cmdline : List (BitVec 8)} {img : BootImage}
    (h : loadBzimage mem memSize kernel initrd cmdline = .ok (img, mem')) :
    (mem'.load (bootParamsGpa + 0x214) 4 = img.kernelGpa.toNat ↔ img.kernelGpa.toNat < 2 ^ 32 ∧
        Spares initrd.bytes (initrdAddr memSize initrd.size) (bootParamsGpa + 0x214) (leBytes 4 img.kernelGpa.toNat)) ∧
      (mem'.load (bootParamsGpa + 0x218) 4 = img.initrdGpa.toNat ↔
          (initrdAddr memSize initrd.size).toNat < 2 ^ 32) := by
  obtain ⟨-, -, -, hgpa, -, hmem⟩ := loadBzimage_ok h
  have hfield := @putKernel_code32Start (putHeader mem kernel.buf) kernel.buf img.kernelGpa
    (kernel.size - setupLen kernel.buf) cmdline
  generalize putKernel (putHeader mem kernel.buf) kernel.buf img.kernelGpa
    (kernel.size - setupLen kernel.buf) cmdline = placed at hfield hmem
  rw [hgpa] at hmem ⊢
  constructor
  · have hload : mem'.load (bootParamsGpa + 0x214) 4 =
        (copyToGuest placed (initrdAddr memSize initrd.size) initrd.bytes).load (bootParamsGpa + 0x214) 4 := by
      refine ByteMem.load_congr fun i hlo hhi => ?_
      have hi : 0x7214 ≤ i ∧ i < 0x7218 := ⟨hlo, hhi⟩
      rw [hmem, buildGdt_outside (by omega), putE820_outside (by omega), putInitrd_outside (by omega)]
    rw [hload]
    by_cases hlt : img.kernelGpa.toNat < 2 ^ 32
    · rw [and_iff_right hlt]
      exact copyToGuest_load_iff hfield hlt
    · refine iff_of_false (fun heq => hlt ?_) fun hcond => hlt hcond.1
      rw [← heq]
      exact ByteMem.load_lt _ _ 4
  · have hload : mem'.load (bootParamsGpa + 0x218) 4 = (initrdAddr memSize initrd.size).toNat % 2 ^ 32 := by
      rw [← putInitrd_ramdiskImage placed initrd, hmem]
      refine ByteMem.load_congr fun i hlo hhi => ?_
      have hi : 0x7218 ≤ i ∧ i < 0x721c := ⟨hlo, hhi⟩
      rw [buildGdt_outside (by omega), putE820_outside (by omega)]
    rw [hload]
    exact Nat.mod_eq_iff_lt (by decide)

theorem loadAddr_eq {memSize : BitVec 64} {version : Nat} {pref : BitVec 64} {init : BitVec 32} {klen : Nat}
    {load : BitVec 64} (h : loadAddr memSize version pref init klen = .ok load) :
    load = kernelAddr memSize version pref init := by
  unfold loadAddr at h
  unfold kernelAddr
  split at h
  · rename_i hfalls
    split at h
    · exact absurd h nofun
    · rw [if_pos hfalls]
      exact (Except.ok.inj h).symm
  · rename_i hfalls
    rw [if_neg hfalls]
    exact (Except.ok.inj h).symm

/-! ### The law -/

variable {mem mem' : ByteMem} {memMb : BitVec 64} {kernel initrd : FileData} {user : CStr} {img : BootImage}

/-- What `main()` has checked when the guest is loaded. -/
theorem mainLoad_ok (h : mainLoad mem memMb kernel initrd user = .ok (img, mem')) :
    0x4000000 ≤ (memSizeOf memMb).toNat ∧
      loadBzimage mem (memSizeOf memMb) kernel initrd (fullCmdline user).bytes = .ok (img, mem') := by
  unfold mainLoad at h
  split at h
  · exact absurd h nofun
  · rename_i hsize
    refine ⟨Nat.le_of_not_lt hsize, ?_⟩
    change (loadBzimage mem (memSizeOf memMb) kernel initrd (fullCmdline user).bytes).mapError _ = _ at h
    cases hload : loadBzimage mem (memSizeOf memMb) kernel initrd (fullCmdline user).bytes with
    | error e =>
      rw [hload] at h
      exact absurd h nofun
    | ok r =>
      rw [hload] at h
      cases h
      rfl

/-- For the sizes that `main()` accepts: which of them leave the devices free, and which files it loads right. -/
theorem addressLayout_iff (memMb : BitVec 64) (haccepted : ¬memSizeOf memMb < 64 <<< 20) :
    (RamApart (memSizeOf memMb) ↔ (memSizeOf memMb).toNat ≤ Dev.console.base.toNat) ∧
      ∀ mem mem' kernel initrd user img, mainLoad mem memMb kernel initrd user = .ok (img, mem') →
        (AddressLayout (memSizeOf memMb) img mem' ↔
          LayoutFits (memSizeOf memMb) (kernelAddr (memSizeOf memMb) (hdrVersion kernel.buf)
            (prefAddress (putHeader mem kernel.buf)) (initSize (putHeader mem kernel.buf))) initrd) := by
  have hM : 0x4000000 ≤ (memSizeOf memMb).toNat := Nat.le_of_not_lt haccepted
  refine ⟨ramApart_iff hM, fun mem mem' kernel initrd user img h => ?_⟩
  obtain ⟨-, h⟩ := mainLoad_ok h
  obtain ⟨-, hload, -, hgpa, -, hmem⟩ := loadBzimage_ok h
  obtain ⟨hcode, hdisk⟩ := fields_iff h
  have hsize : initrd.size < 2 ^ 63 := initrd.size_lt
  have haddr := toNat_initrdAddr (memSizeOf memMb) hsize
  rw [← loadAddr_eq hload]
  constructor
  · rintro ⟨hram, hcode', hdisk', -⟩
    have hram' := (ramApart_iff hM).1 hram
    have hlow := hdisk.1 hdisk'
    obtain ⟨hkernel, hspares⟩ := hcode.1 hcode'
    refine ⟨hram', hkernel, ?_, hspares⟩
    by_contra hle
    rw [haddr, if_neg hle] at hlow
    omega
  · rintro ⟨hram, hkernel, hroom, hspares⟩
    have hbase : Dev.console.base.toNat = 0xd0000000 := rfl
    refine ⟨(ramApart_iff hM).2 hram, hcode.2 ⟨hkernel, hspares⟩, hdisk.2 ?_, ?_⟩
    · rw [haddr, if_pos hroom]
      omega
    · rw [hmem]
      exact e820_inside _ hM

theorem mainLoad_small {memMb : BitVec 64} {initrd : FileData} (haccepted : ¬memSizeOf memMb < 64 <<< 20)
    (h : (loadBzimage (fun _ => 0) (memSizeOf memMb) (smallKernel 0x1000000 0x10000) initrd
      (fullCmdline noCmdline).bytes).toOption.map Prod.fst = some img) :
    ∃ mem', mainLoad (fun _ => 0) memMb (smallKernel 0x1000000 0x10000) initrd noCmdline = .ok (img, mem') := by
  unfold mainLoad loadGuest
  rw [if_neg haccepted]
  cases hload : loadBzimage (fun _ => 0) (memSizeOf memMb) (smallKernel 0x1000000 0x10000) initrd
      (fullCmdline noCmdline).bytes with
  | error e =>
    rw [hload] at h
    exact absurd h nofun
  | ok r =>
    rw [hload] at h
    obtain rfl := Option.some.inj h
    exact ⟨r.2, rfl⟩

/-- 256 MiB of guest RAM, a kernel at 16 MiB and an initrd of three bytes. -/
theorem addressLayout_iff_small :
    (RamApart (memSizeOf 256) ↔ (memSizeOf 256).toNat ≤ Dev.console.base.toNat) ∧
      ∃ img mem', mainLoad (fun _ => 0) 256 (smallKernel 0x1000000 0x10000) smallInitrd noCmdline = .ok (img, mem') ∧
        (AddressLayout (memSizeOf 256) img mem' ↔
          LayoutFits (memSizeOf 256) (kernelAddr (memSizeOf 256) (hdrVersion (smallKernel 0x1000000 0x10000).buf)
            (prefAddress (putHeader (fun _ => 0) (smallKernel 0x1000000 0x10000).buf))
              (initSize (putHeader (fun _ => 0) (smallKernel 0x1000000 0x10000).buf))) smallInitrd) := by
  obtain ⟨mem', h⟩ := @mainLoad_small ⟨0x1000000, 0xffff000, 3⟩ 256 smallInitrd (by decide) (by decide +kernel)
  obtain ⟨hram, hlayout⟩ := addressLayout_iff 256 (by decide)
  exact ⟨hram, _, mem', h, hlayout _ _ _ _ _ _ h⟩

/-- 3400 MiB of guest RAM cover the windows of the devices. -/
theorem not_addressLayout : ¬∀ (mem mem' : ByteMem) (memMb : BitVec 64) (kernel initrd : FileData) (user : CStr)
    (img : BootImage), mainLoad mem memMb kernel initrd user = .ok (img, mem') →
      AddressLayout (memSizeOf memMb) img mem' := by
  intro hall
  obtain ⟨mem', h⟩ := @mainLoad_small ⟨0x1000000, 0xd4800000, 0⟩ 3400 noInitrd (by decide) (by decide +kernel)
  have hram := (ramApart_iff (by decide)).1 (hall _ _ _ _ _ _ _ h).ram
  exact absurd hram (by decide)

end MiniVirt.Vmm
