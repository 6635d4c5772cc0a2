import MiniVirt.Vmm.Loader
import Mathlib.Order.CompletePartialOrder
import Mathlib.Order.Interval.Set.Basic
import Mathlib.Order.Interval.Set.Disjoint

/-!
# Where the loader puts the kernel and the initrd

`load_bzimage()` checks the room of the kernel by `init_size`, modulo 2^64, and copies the length of the
file.  `loadBzimage_placed_iff` says which files it places inside guest RAM, apart from each other and from what the
program itself puts there.
-/

namespace MiniVirt.Vmm

/-! ### Ranges of addresses -/

/-- The `n` addresses from `a` on. -/
def span (a n : Nat) : Set Nat := Set.Ico a (a + n)

theorem span_subset {a n M : Nat} : span a n ⊆ Set.Ico 0 M ↔ n = 0 ∨ a + n ≤ M := by
  unfold span
  rcases Nat.eq_zero_or_pos n with rfl | hn
  · simp
  · rw [Set.Ico_subset_Ico_iff (by omega)]
    omega

theorem disjoint_span {a n b m : Nat} :
    Disjoint (span a n) (span b m) ↔ n = 0 ∨ m = 0 ∨ a + n ≤ b ∨ b + m ≤ a := by
  unfold span
  rw [Set.Ico_disjoint_Ico]
  omega

/-! ### The law -/

/-- What the program puts into low memory: `boot_params`, the GDT and the TSS, the command line. -/
def reserved : List (Set Nat) := [span bootParamsGpa 0x1000, span gdtGpa 0x168, span cmdlineGpa 0x1000]

/-- The kernel, copied and running, and the initrd lie inside guest RAM, the initrd apart from the kernel,
and both apart from what is reserved. -/
structure Placed (memSize : BitVec 64) (klen init : Nat) (img : BootImage) : Prop where
  copy : span img.kernelGpa.toNat klen ⊆ Set.Ico 0 memSize.toNat
  run : span img.kernelGpa.toNat init ⊆ Set.Ico 0 memSize.toNat
  initrd : span img.initrdGpa.toNat img.initrdSize.toNat ⊆ Set.Ico 0 memSize.toNat
  copy_initrd : Disjoint (span img.kernelGpa.toNat klen) (span img.initrdGpa.toNat img.initrdSize.toNat)
  run_initrd : Disjoint (span img.kernelGpa.toNat init) (span img.initrdGpa.toNat img.initrdSize.toNat)
  copy_reserved : ∀ r ∈ reserved, Disjoint (span img.kernelGpa.toNat klen) r
  run_reserved : ∀ r ∈ reserved, Disjoint (span img.kernelGpa.toNat init) r
  initrd_reserved : ∀ r ∈ reserved, Disjoint (span img.initrdGpa.toNat img.initrdSize.toNat) r

/-! ### The condition -/

/-- The initrd, put at the last page boundary that leaves it room, begins at or behind `a`. -/
def InitrdBehind (memSize isize a : Nat) : Prop := isize = 0 ∨ a ≤ (memSize - isize) / 4096 * 4096

/-- The `n` bytes from `a` on lie apart from what is reserved. -/
def AvoidsReserved (a n : Nat) : Prop :=
  n = 0 ∨ a + n ≤ bootParamsGpa ∨ gdtGpa + 0x168 ≤ a ∧ a + n ≤ cmdlineGpa ∨ cmdlineGpa + 0x1000 ≤ a

/-- What the files must satisfy when the kernel goes to the address that its header asks for. -/
structure PrefFits (memSize pref init klen isize : Nat) : Prop where
  run : pref + init < 2 ^ 64
  copy : pref + klen ≤ memSize
  copy_initrd : InitrdBehind memSize isize (pref + klen)
  initrd_reserved : InitrdBehind memSize isize (cmdlineGpa + 0x1000)
  copy_reserved : AvoidsReserved pref klen
  run_reserved : AvoidsReserved pref init

/-- The files fit. -/
def Fits (memSize : BitVec 64) (version : Nat) (pref : BitVec 64) (init : BitVec 32) (klen isize : Nat) :
    Prop :=
  isize ≤ memSize.toNat ∧
    if FallsBack memSize version pref init then InitrdBehind memSize.toNat isize (0x100000 + klen)
    else PrefFits memSize.toNat pref.toNat init.toNat klen isize

/-! ### Addresses -/

theorem toNat_page (x : BitVec 64) : (x &&& (~~~0xfff : BitVec 64)).toNat = x.toNat / 4096 * 4096 := by
  have h : x &&& (~~~0xfff : BitVec 64) = (x >>> 12) <<< 12 := by
    apply BitVec.eq_of_getLsbD_eq
    intro i hi
    have hmask : (0xfff : BitVec 64).getLsbD i = decide (i < 12) := by
      show (BitVec.ofNat 64 (2 ^ 12 - 1)).getLsbD i = _
      rw [BitVec.getLsbD_ofNat, Nat.testBit_two_pow_sub_one]
      simp [hi]
    rw [BitVec.getLsbD_and, BitVec.getLsbD_not, hmask, BitVec.getLsbD_shiftLeft, BitVec.getLsbD_ushiftRight]
    by_cases h12 : i < 12
    · simp [h12]
    · simp [h12, hi, Nat.add_sub_cancel' (Nat.le_of_not_lt h12)]
  rw [h, BitVec.toNat_shiftLeft, BitVec.toNat_ushiftRight, Nat.shiftLeft_eq, Nat.shiftRight_eq_div_pow]
  have := x.isLt
  omega

theorem toNat_initrdAddr (memSize : BitVec 64) {isize : Nat} (hi : isize < 2 ^ 63) :
    (initrdAddr memSize isize).toNat =
      if isize ≤ memSize.toNat then (memSize.toNat - isize) / 4096 * 4096
      else (2 ^ 64 + memSize.toNat - isize) / 4096 * 4096 := by
  have hM := memSize.isLt
  unfold initrdAddr
  rw [toNat_page, BitVec.toNat_sub, BitVec.toNat_ofNat]
  split <;> omega

/-- What a successful call has checked. -/
theorem loadBzimage_ok {mem mem' : ByteMem} {memSize : BitVec 64} {kernel initrd : FileData}
    {cmdline : List (BitVec 8)} {img : BootImage}
    (h : loadBzimage mem memSize kernel initrd cmdline = .ok (img, mem')) :
    setupLen kernel.buf < kernel.size ∧
      loadAddr memSize (hdrVersion kernel.buf) (prefAddress (putHeader mem kernel.buf))
        (initSize (putHeader mem kernel.buf)) (kernel.size - setupLen kernel.buf) = .ok img.kernelGpa ∧
      ¬initrdAddr memSize initrd.size ≤
        img.kernelGpa + (initSize (putHeader mem kernel.buf)).setWidth 64 ∧
      img.initrdGpa = initrdAddr memSize initrd.size ∧ img.initrdSize = .ofNat 64 initrd.size ∧
      mem' = buildGdt (putE820 (putInitrd (putKernel (putHeader mem kernel.buf) kernel.buf img.kernelGpa
        (kernel.size - setupLen kernel.buf) cmdline) initrd img.initrdGpa) memSize) := by
  unfold loadBzimage at h
  dsimp only at h
  split at h
  · cases h
  split at h
  · cases h
  rename_i hlen
  split at h
  · cases h
  split at h
  · cases h
  split at h
  · cases h
  rename_i load hload
  split at h
  · cases h
  split at h
  · cases h
  rename_i hoverlap
  cases h
  exact ⟨Nat.lt_of_not_le hlen, hload, hoverlap, rfl, rfl, rfl⟩

/-! ### The placement -/

variable {memSize : BitVec 64} {klen init isize : Nat} {img : BootImage}

/-- The law, in numbers. -/
theorem placed_iff_numbers : Placed memSize klen init img ↔
    (klen = 0 ∨ img.kernelGpa.toNat + klen ≤ memSize.toNat) ∧
    (init = 0 ∨ img.kernelGpa.toNat + init ≤ memSize.toNat) ∧
    (img.initrdSize.toNat = 0 ∨ img.initrdGpa.toNat + img.initrdSize.toNat ≤ memSize.toNat) ∧
    (klen = 0 ∨ img.initrdSize.toNat = 0 ∨ img.kernelGpa.toNat + klen ≤ img.initrdGpa.toNat ∨
      img.initrdGpa.toNat + img.initrdSize.toNat ≤ img.kernelGpa.toNat) ∧
    (init = 0 ∨ img.initrdSize.toNat = 0 ∨ img.kernelGpa.toNat + init ≤ img.initrdGpa.toNat ∨
      img.initrdGpa.toNat + img.initrdSize.toNat ≤ img.kernelGpa.toNat) ∧
    AvoidsReserved img.kernelGpa.toNat klen ∧ AvoidsReserved img.kernelGpa.toNat init ∧
    AvoidsReserved img.initrdGpa.toNat img.initrdSize.toNat := by
  have hreserved : ∀ a n, (∀ r ∈ reserved, Disjoint (span a n) r) ↔ AvoidsReserved a n := by
    intro a n
    have hb : bootParamsGpa = 0x7000 := rfl
    have hg : gdtGpa = 0x8000 := rfl
    have hc : cmdlineGpa = 0x9000 := rfl
    unfold reserved AvoidsReserved
    simp only [List.forall_mem_cons, disjoint_span, hb, hg, hc]
    simp only [List.not_mem_nil, false_imp_iff, implies_true, and_true]
    omega
  rw [← hreserved, ← hreserved, ← hreserved, ← span_subset, ← span_subset, ← span_subset,
    ← disjoint_span, ← disjoint_span]
  exact ⟨fun ⟨h₁, h₂, h₃, h₄, h₅, h₆, h₇, h₈⟩ => ⟨h₁, h₂, h₃, h₄, h₅, h₆, h₇, h₈⟩,
    fun ⟨h₁, h₂, h₃, h₄, h₅, h₆, h₇, h₈⟩ => ⟨h₁, h₂, h₃, h₄, h₅, h₆, h₇, h₈⟩⟩

/-- An initrd at the end of guest RAM, at a page boundary, avoids low memory when it begins behind it. -/
theorem avoidsReserved_initrd {M T : Nat} (hM : 0x4000000 ≤ M) (hT : T = (M - isize) / 4096 * 4096)
    (hi : isize ≤ M) : AvoidsReserved T isize ↔ InitrdBehind M isize (cmdlineGpa + 0x1000) := by
  have hb : bootParamsGpa = 0x7000 := rfl
  have hg : gdtGpa = 0x8000 := rfl
  have hc : cmdlineGpa = 0x9000 := rfl
  unfold AvoidsReserved InitrdBehind
  rw [← hT, hb, hg, hc]
  have hlow : M < T + isize + 4096 := by omega
  have hpage : T % 4096 = 0 := by omega
  omega

variable {version : Nat} {pref load : BitVec 64} {init : BitVec 32}

/-- The kernel at 1 MiB. -/
theorem placed_iff_of_fallsBack {T : Nat} (hM : 0x4000000 ≤ memSize.toNat)
    (hT : T = (memSize.toNat - isize) / 4096 * 4096) (hi : isize ≤ memSize.toNat) (hk : 0 < klen)
    (hroom : 0x100000 + klen ≤ memSize.toNat) (hoverlap : 0x100000 + init.toNat < T)
    (hgpa : img.initrdGpa.toNat = T) (hsize : img.initrdSize.toNat = isize)
    (hload : img.kernelGpa.toNat = 0x100000) :
    Placed memSize klen init.toNat img ↔ InitrdBehind memSize.toNat isize (0x100000 + klen) := by
  have hc : cmdlineGpa = 0x9000 := rfl
  have havoid : ∀ n, AvoidsReserved 0x100000 n := by
    intro n
    unfold AvoidsReserved
    omega
  have hlow := avoidsReserved_initrd hM hT hi
  have hbehind : InitrdBehind memSize.toNat isize (cmdlineGpa + 0x1000) := by
    unfold InitrdBehind
    omega
  have hle : T + isize ≤ memSize.toNat := by omega
  rw [placed_iff_numbers, hgpa, hsize, hload]
  unfold InitrdBehind at *
  rw [← hT] at hlow hbehind ⊢
  constructor
  · rintro ⟨-, -, -, hdisj, -⟩
    omega
  · intro h
    exact ⟨by omega, by omega, by omega, by omega, by omega, havoid _, havoid _, hlow.2 hbehind⟩

/-- The kernel where its header asks for it. -/
theorem placed_iff_of_pref {T : Nat} (hM : 0x4000000 ≤ memSize.toNat)
    (hT : T = (memSize.toNat - isize) / 4096 * 4096) (hi : isize ≤ memSize.toNat) (hk : 0 < klen)
    (hoverlap : (pref.toNat + init.toNat) % 2 ^ 64 < T)
    (hgpa : img.initrdGpa.toNat = T) (hsize : img.initrdSize.toNat = isize)
    (hload : img.kernelGpa = pref) :
    Placed memSize klen init.toNat img ↔ PrefFits memSize.toNat pref.toNat init.toNat klen isize := by
  have hp := pref.isLt
  have hMlt := memSize.isLt
  rw [placed_iff_numbers, hgpa, hsize, hload, avoidsReserved_initrd hM hT hi]
  constructor
  · rintro ⟨hcopy, hrun, -, hdisj, -, havoid, havoid', hlow⟩
    refine ⟨by omega, by omega, ?_, hlow, havoid, havoid'⟩
    unfold InitrdBehind
    omega
  · rintro ⟨hrun, hcopy, hdisj, hlow, havoid, havoid'⟩
    unfold InitrdBehind at hdisj
    exact ⟨by omega, by omega, by omega, by omega, by omega, havoid, havoid', hlow⟩

/-- A successful call places the kernel and the initrd as it should if and only if the files fit. -/
theorem loadBzimage_placed_iff {mem mem' : ByteMem} {kernel initrd : FileData} {cmdline : List (BitVec 8)}
    (hM : 0x4000000 ≤ memSize.toNat)
    (h : loadBzimage mem memSize kernel initrd cmdline = .ok (img, mem')) :
    Placed memSize (kernel.size - setupLen kernel.buf) (initSize (putHeader mem kernel.buf)).toNat img ↔
      Fits memSize (hdrVersion kernel.buf) (prefAddress (putHeader mem kernel.buf))
        (initSize (putHeader mem kernel.buf)) (kernel.size - setupLen kernel.buf) initrd.size := by
  obtain ⟨hlen, hload, hoverlap, hgpa, hsize, -⟩ := loadBzimage_ok h
  have hk := kernel.size_lt
  have hi : initrd.size < 2 ^ 63 := initrd.size_lt
  have hklt : kernel.size - setupLen kernel.buf < 2 ^ 63 := lt_of_le_of_lt (Nat.sub_le ..) hk
  have hMlt := memSize.isLt
  have hisize : img.initrdSize.toNat = initrd.size := by
    rw [hsize, BitVec.toNat_ofNat, Nat.mod_eq_of_lt (by omega)]
  generalize initSize (putHeader mem kernel.buf) = init at *
  generalize prefAddress (putHeader mem kernel.buf) = pref at *
  generalize hdrVersion kernel.buf = version at *
  have hkpos : 0 < kernel.size - setupLen kernel.buf := by omega
  generalize kernel.size - setupLen kernel.buf = klen at *
  have hinit : (init.setWidth 64).toNat = init.toNat := BitVec.toNat_setWidth_of_le (by omega)
  rw [BitVec.le_def, ← hgpa, BitVec.toNat_add, hinit] at hoverlap
  have hgpaNat := congrArg BitVec.toNat hgpa
  rw [toNat_initrdAddr memSize hi] at hgpaNat
  unfold Fits
  by_cases hroom : initrd.size ≤ memSize.toNat
  · rw [if_pos hroom] at hgpaNat
    rw [and_iff_right hroom]
    -- the kernel goes to 1 MiB or to its preferred address
    unfold loadAddr at hload
    have hinitLt := init.isLt
    split at hload
    · rename_i hfalls
      rw [if_pos hfalls]
      split at hload
      · cases hload
      · rename_i hfits
        have hload' := Except.ok.inj hload
        rw [BitVec.lt_def, BitVec.toNat_add, BitVec.toNat_ofNat] at hfits
        have h1M : (0x100000 : BitVec 64).toNat = 0x100000 := rfl
        have hkernel : img.kernelGpa.toNat = 0x100000 := by rw [← hload', h1M]
        rw [hkernel] at hoverlap
        rw [h1M] at hfits
        exact placed_iff_of_fallsBack hM rfl hroom hkpos (by omega) (by omega) hgpaNat hisize hkernel
    · rename_i hfalls
      rw [if_neg hfalls]
      have hload' := Except.ok.inj hload
      rw [← hload'] at hoverlap
      exact placed_iff_of_pref hM rfl hroom hkpos (by omega) hgpaNat hisize hload'.symm
  · rw [if_neg hroom] at hgpaNat
    -- the address of the initrd wraps around
    refine iff_of_false (fun hplaced => ?_) fun hfits => hroom hfits.1
    have hin := (placed_iff_numbers.1 hplaced).2.2.1
    omega

/-- A kernel with one setup sector and two bytes of protected-mode code. -/
def smallKernel (pref init : Nat) : FileData where
  bytes := (ByteMem.store (fun _ => 0) 0x1f1 1 1 |>.store 0x201 1 0x66 |>.store 0x202 4 0x53726448
    |>.store 0x206 2 0x20a |>.store 0x258 8 pref |>.store 0x260 4 init).read 0 1026
  size_lt := by simp

def smallInitrd : FileData := ⟨[1, 2, 3], by decide⟩

def noInitrd : FileData := ⟨[], by decide⟩

theorem loadBzimage_small (pref init : Nat) (initrd : FileData) (cmdline : List (BitVec 8)) (img : BootImage)
    (h : (loadBzimage (fun _ => 0) 0x4000000 (smallKernel pref init) initrd cmdline).toOption.map Prod.fst =
      some img) :
    ∃ mem', loadBzimage (fun _ => 0) 0x4000000 (smallKernel pref init) initrd cmdline = .ok (img, mem') := by
  cases hload : loadBzimage (fun _ => 0) 0x4000000 (smallKernel pref init) initrd cmdline with
  | error e =>
    rw [hload] at h
    cases h
  | ok r =>
    rw [hload] at h
    obtain rfl := Option.some.inj h
    exact ⟨r.2, rfl⟩

/-- A kernel at 16 MiB. -/
theorem loadBzimage_placed_iff_small : ∃ img mem',
    loadBzimage (fun _ => 0) 0x4000000 (smallKernel 0x1000000 0x10000) smallInitrd [] = .ok (img, mem') ∧
      (Placed 0x4000000 2 0x10000 img ↔
        Fits 0x4000000 0x20a 0x1000000 0x10000 2 3) := by
  obtain ⟨mem', h⟩ := loadBzimage_small 0x1000000 0x10000 smallInitrd [] ⟨0x1000000, 0x3fff000, 3⟩
    (by decide +kernel)
  refine ⟨_, mem', h, ?_⟩
  have hiff := loadBzimage_placed_iff (by decide) h
  have hlen : (smallKernel 0x1000000 0x10000).size - setupLen (smallKernel 0x1000000 0x10000).buf = 2 := by
    decide +kernel
  have hversion : hdrVersion (smallKernel 0x1000000 0x10000).buf = 0x20a := by
    decide +kernel
  have hpref : prefAddress (putHeader (fun _ => 0) (smallKernel 0x1000000 0x10000).buf) = 0x1000000 := by
    decide +kernel
  have hinit : initSize (putHeader (fun _ => 0) (smallKernel 0x1000000 0x10000).buf) = 0x10000 := by
    decide +kernel
  rw [hlen, hversion, hpref, hinit] at hiff
  exact hiff

/-- A kernel whose `init_size` is 0, one byte below the end of guest RAM. -/
theorem not_loadBzimage_placed :
    ¬∀ (mem mem' : ByteMem) (memSize : BitVec 64) (kernel initrd : FileData) (cmdline : List (BitVec 8))
      (img : BootImage), 0x4000000 ≤ memSize.toNat →
      loadBzimage mem memSize kernel initrd cmdline = .ok (img, mem') →
      Placed memSize (kernel.size - setupLen kernel.buf) (initSize (putHeader mem kernel.buf)).toNat img := by
  intro hall
  obtain ⟨mem', h⟩ := loadBzimage_small 0x3ffffff 0 noInitrd [] ⟨0x3ffffff, 0x4000000, 0⟩ (by decide +kernel)
  have hplaced := hall _ _ _ _ _ _ _ (by decide) h
  have hlen : (smallKernel 0x3ffffff 0).size - setupLen (smallKernel 0x3ffffff 0).buf = 2 := by
    decide +kernel
  have hcopy := span_subset.1 hplaced.copy
  rw [hlen] at hcopy
  exact absurd hcopy (by decide)

end MiniVirt.Vmm
