import MiniVirt.Vmm.Spec.Placement

/-!
# The command line that the guest finds

`main()` formats the command line into a buffer of 4096 bytes, and the loader then measures what is in that buffer.
So a line that is too long is never refused: the guest boots with its first 4095 bytes (`loadGuest_cmdline_iff`).
-/

namespace MiniVirt.Vmm

/-! ### The law -/

/-- The guest finds `cmdline` at CMDLINE_GPA, and its length in the header. -/
structure FoundCmdline (mem : ByteMem) (version : Nat) (cmdline : List (BitVec 8)) : Prop where
  /-- The NUL is inside the area. -/
  fits : cmdline.length + 1 ≤ cmdlineMax
  line : mem.read cmdlineGpa (cmdline.length + 1) = cmdline ++ [0]
  size : 0x206 ≤ version → mem.load (bootParamsGpa + 0x238) 4 = cmdline.length

/-- A copy of `bytes` to `gpa` puts nothing else than `l` into the bytes from `a` on. -/
def Spares (bytes : List (BitVec 8)) (gpa : BitVec 64) (a : Nat) (l : List (BitVec 8)) : Prop :=
  ∀ i < l.length, ∀ b, bytes[(BitVec.ofNat 64 (a + i) - gpa).toNat]? = some b → l[i]? = some b

/-- The initrd, copied last, leaves the command line and its size. -/
structure InitrdSpares (memSize : BitVec 64) (version : Nat) (initrd : FileData) (cmdline : List (BitVec 8)) :
    Prop where
  line : Spares initrd.bytes (initrdAddr memSize initrd.size) cmdlineGpa (cmdline ++ [0])
  size : 0x206 ≤ version →
    Spares initrd.bytes (initrdAddr memSize initrd.size) (bootParamsGpa + 0x238) (leBytes 4 cmdline.length)

/-! ### The copies -/

/-- The bytes in which the guest finds the command line and its size. -/
def CmdlineCell (a : Nat) : Prop :=
  cmdlineGpa ≤ a ∧ a < cmdlineGpa + cmdlineMax ∨ bootParamsGpa + 0x238 ≤ a ∧ a < bootParamsGpa + 0x23c

theorem CmdlineCell.numbers {a : Nat} (h : CmdlineCell a) : 0x9000 ≤ a ∧ a < 0xa000 ∨ 0x7238 ≤ a ∧ a < 0x723c := h

theorem buildGdt_outside {a : Nat} (h : a < 0x8000 ∨ 0x9000 ≤ a) (mem : ByteMem) : buildGdt mem a = mem a := by
  unfold buildGdt gdtGpa tssGpa
  rw [ByteMem.write_of_not_mem (by rw [List.length_replicate]; omega), ByteMem.store_of_not_mem (by omega),
    ByteMem.store_of_not_mem (by omega), ByteMem.store_of_not_mem (by omega),
    ByteMem.write_of_not_mem (by rw [List.length_replicate]; omega)]

theorem putE820_outside {a : Nat} (h : 0x71e9 ≤ a ∧ a < 0x72d0 ∨ 0x8000 ≤ a) (mem : ByteMem) (memSize : BitVec 64) :
    putE820 mem memSize a = mem a := by
  unfold putE820 bootParamsGpa
  rw [ByteMem.store_of_not_mem (by omega), ByteMem.store_of_not_mem (by omega), ByteMem.store_of_not_mem (by omega),
    ByteMem.store_of_not_mem (by omega), ByteMem.store_of_not_mem (by omega), ByteMem.store_of_not_mem (by omega),
    ByteMem.store_of_not_mem (by omega)]

theorem putInitrd_outside {a : Nat} (h : a < 0x7218 ∨ 0x7220 ≤ a) (mem : ByteMem) (initrd : FileData)
    (gpa : BitVec 64) : putInitrd mem initrd gpa a = copyToGuest mem gpa initrd.bytes a := by
  unfold putInitrd bootParamsGpa
  rw [ByteMem.store_of_not_mem (by omega), ByteMem.store_of_not_mem (by omega)]

/-- The command line is in place before the initrd is copied. -/
theorem putKernel_line (mem kbuf : ByteMem) (load : BitVec 64) (klen : Nat) (cmdline : List (BitVec 8)) :
    (putKernel mem kbuf load klen cmdline).read cmdlineGpa (cmdline.length + 1) = cmdline ++ [0] := by
  have hlength : (cmdline ++ [0]).length = cmdline.length + 1 := by simp
  have hline := ByteMem.read_write_self ((copyToGuest mem load (kbuf.read (setupLen kbuf) klen)).store
    (bootParamsGpa + 0x214) 4 load.toNat) cmdlineGpa (cmdline ++ [0])
  rw [hlength] at hline
  refine (ByteMem.read_congr fun i hi _ => ?_).trans hline
  have hlow : 0x9000 ≤ i := hi
  unfold putKernel bootParamsGpa
  split
  · rw [ByteMem.store_of_not_mem (by omega), ByteMem.store_of_not_mem (by omega)]
  · rw [ByteMem.store_of_not_mem (by omega)]

theorem putKernel_size (mem kbuf : ByteMem) (load : BitVec 64) (klen : Nat) (cmdline : List (BitVec 8))
    (hversion : 0x206 ≤ hdrVersion kbuf) :
    (putKernel mem kbuf load klen cmdline).read (bootParamsGpa + 0x238) 4 = leBytes 4 cmdline.length := by
  unfold putKernel
  dsimp only
  rw [if_pos hversion]
  exact ByteMem.read_write_self _ _ (leBytes 4 cmdline.length)

/-- A copy leaves `l` where it was if and only if it spares it. -/
theorem copyToGuest_read_iff {mem : ByteMem} {gpa : BitVec 64} {bytes l : List (BitVec 8)} {a : Nat}
    (h : mem.read a l.length = l) : (copyToGuest mem gpa bytes).read a l.length = l ↔ Spares bytes gpa a l := by
  have hcopy (i : Nat) : copyToGuest mem gpa bytes (a + i) =
      (bytes[(BitVec.ofNat 64 (a + i) - gpa).toNat]?).getD (mem (a + i)) := rfl
  constructor
  · intro hread i hi b hb
    have hbyte : copyToGuest mem gpa bytes (a + i) = b := by rw [hcopy, hb, Option.getD_some]
    rw [← hread, ByteMem.getElem?_read hi, hbyte]
  · intro hspares
    apply List.ext_getElem?
    intro i
    by_cases hi : i < l.length
    · rw [ByteMem.getElem?_read hi, hcopy]
      cases hb : bytes[(BitVec.ofNat 64 (a + i) - gpa).toNat]? with
      | none =>
        rw [Option.getD_none, ← ByteMem.getElem?_read hi, h]
      | some b => rw [Option.getD_some, hspares i hi b hb]
    · rw [List.getElem?_eq_none (by rw [ByteMem.length_read]; omega), List.getElem?_eq_none (by omega)]

/-- The same for a number. -/
theorem copyToGuest_load_iff {mem : ByteMem} {gpa : BitVec 64} {bytes : List (BitVec 8)} {a n v : Nat}
    (h : mem.read a n = leBytes n v) (hv : v < 256 ^ n) :
    (copyToGuest mem gpa bytes).load a n = v ↔ Spares bytes gpa a (leBytes n v) := by
  have hlen : (leBytes n v).length = n := length_leBytes n v
  have hvalue : leNat (leBytes n v) = v := by
    rw [leNat_leBytes]
    exact Nat.mod_eq_of_lt hv
  have hcopy : (copyToGuest mem gpa bytes).read a (leBytes n v).length = leBytes n v ↔ _ :=
    copyToGuest_read_iff (by rwa [hlen])
  rw [hlen] at hcopy
  rw [← hcopy]
  unfold ByteMem.load
  constructor
  · intro hload
    exact leNat_inj (by rw [ByteMem.length_read, hlen]) (hload.trans hvalue.symm)
  · intro hbytes
    rw [hbytes, hvalue]

/-! ### The law -/

/-- After the copy of the initrd. -/
theorem foundCmdline_iff {mem mem' : ByteMem} {memSize : BitVec 64} {kernel initrd : FileData}
    {cmdline : List (BitVec 8)} {img : BootImage}
    (h : loadBzimage mem memSize kernel initrd cmdline = .ok (img, mem')) (hfits : cmdline.length + 1 ≤ cmdlineMax) :
    FoundCmdline mem' (hdrVersion kernel.buf) cmdline ↔
      InitrdSpares memSize (hdrVersion kernel.buf) initrd cmdline := by
  obtain ⟨-, -, -, hgpa, -, hmem⟩ := loadBzimage_ok h
  have hline := putKernel_line (putHeader mem kernel.buf) kernel.buf img.kernelGpa
    (kernel.size - setupLen kernel.buf) cmdline
  have hsize := putKernel_size (putHeader mem kernel.buf) kernel.buf img.kernelGpa
    (kernel.size - setupLen kernel.buf) cmdline
  generalize putKernel (putHeader mem kernel.buf) kernel.buf img.kernelGpa
    (kernel.size - setupLen kernel.buf) cmdline = placed at hline hsize hmem
  -- what is written after the initrd meets neither the line nor its size
  have hread (a n : Nat) (hcell : ∀ i, a ≤ i → i < a + n → CmdlineCell i) :
      mem'.read a n = (copyToGuest placed (initrdAddr memSize initrd.size) initrd.bytes).read a n := by
    refine ByteMem.read_congr fun i hlo hhi => ?_
    have hi := (hcell i hlo hhi).numbers
    rw [hmem, buildGdt_outside (by omega), putE820_outside (by omega), putInitrd_outside (by omega), hgpa]
  have hlength : (cmdline ++ [0]).length = cmdline.length + 1 := by simp
  have hline_iff : mem'.read cmdlineGpa (cmdline.length + 1) = cmdline ++ [0] ↔
      Spares initrd.bytes (initrdAddr memSize initrd.size) cmdlineGpa (cmdline ++ [0]) := by
    rw [hread _ _ (fun i hlo hhi => .inl ⟨hlo, by omega⟩), ← hlength]
    exact copyToGuest_read_iff (by rwa [hlength])
  have hsize_iff (hversion : 0x206 ≤ hdrVersion kernel.buf) :
      mem'.load (bootParamsGpa + 0x238) 4 = cmdline.length ↔
        Spares initrd.bytes (initrdAddr memSize initrd.size) (bootParamsGpa + 0x238) (leBytes 4 cmdline.length) := by
    have hload : mem'.load (bootParamsGpa + 0x238) 4 =
        (copyToGuest placed (initrdAddr memSize initrd.size) initrd.bytes).load (bootParamsGpa + 0x238) 4 :=
      congrArg leNat (hread _ 4 fun i hlo hhi => .inr ⟨hlo, hhi⟩)
    rw [hload]
    exact copyToGuest_load_iff (hsize hversion) (by unfold cmdlineMax at hfits; omega)
  constructor
  · rintro ⟨-, hfound, hlen⟩
    exact ⟨hline_iff.1 hfound, fun hversion => (hsize_iff hversion).1 (hlen hversion)⟩
  · rintro ⟨hspares, hlen⟩
    exact ⟨hfits, hline_iff.2 hspares, fun hversion => (hsize_iff hversion).2 (hlen hversion)⟩

theorem loadGuest_cmdline_iff {mem mem' : ByteMem} {memSize : BitVec 64} {kernel initrd : FileData} {user : CStr}
    {img : BootImage} (h : loadGuest mem memSize kernel initrd user = .ok (img, mem')) :
    FoundCmdline mem' (hdrVersion kernel.buf) (formatCmdline user).bytes ↔
      (formatCmdline user).bytes.length + 1 ≤ cmdlineMax ∧
        InitrdSpares memSize (hdrVersion kernel.buf) initrd (formatCmdline user).bytes := by
  by_cases hfits : (formatCmdline user).bytes.length + 1 ≤ cmdlineMax
  · have hfull : (fullCmdline user).bytes = (formatCmdline user).bytes := by
      unfold fullCmdline snprintf
      exact List.take_of_length_le (by omega)
    unfold loadGuest at h
    rw [hfull] at h
    rw [and_iff_right hfits]
    exact foundCmdline_iff h hfits
  · exact iff_of_false (fun hfound => hfits hfound.fits) fun hcond => hfits hcond.1

def noCmdline : CStr := ⟨[], List.not_mem_nil⟩

/-- 64 MiB of guest RAM, a kernel at 16 MiB and no command line of the user's. -/
theorem loadGuest_cmdline_iff_small : ∃ img mem',
    loadGuest (fun _ => 0) 0x4000000 (smallKernel 0x1000000 0x10000) smallInitrd noCmdline = .ok (img, mem') ∧
      (FoundCmdline mem' (hdrVersion (smallKernel 0x1000000 0x10000).buf) (formatCmdline noCmdline).bytes ↔
        (formatCmdline noCmdline).bytes.length + 1 ≤ cmdlineMax ∧
          InitrdSpares 0x4000000 (hdrVersion (smallKernel 0x1000000 0x10000).buf) smallInitrd
            (formatCmdline noCmdline).bytes) := by
  obtain ⟨mem', h⟩ := loadBzimage_small 0x1000000 0x10000 smallInitrd (fullCmdline noCmdline).bytes
    ⟨0x1000000, 0x3fff000, 3⟩ (by decide +kernel)
  exact ⟨_, mem', h, loadGuest_cmdline_iff h⟩

/-- A command line of 4096 letters. -/
def longCmdline : CStr where
  bytes := List.replicate 4096 97
  no_nul h := absurd (List.eq_of_mem_replicate h) (by decide)

theorem not_foundCmdline : ¬∀ (mem mem' : ByteMem) (memSize : BitVec 64) (kernel initrd : FileData) (user : CStr)
    (img : BootImage), loadGuest mem memSize kernel initrd user = .ok (img, mem') →
      FoundCmdline mem' (hdrVersion kernel.buf) (formatCmdline user).bytes := by
  intro hall
  obtain ⟨mem', h⟩ := loadBzimage_small 0x1000000 0x10000 smallInitrd (fullCmdline longCmdline).bytes
    ⟨0x1000000, 0x3fff000, 3⟩ (by decide +kernel)
  have hfits := (hall _ _ _ _ _ longCmdline _ h).fits
  have hlength : (formatCmdline longCmdline).bytes.length = 4096 + deviceParams.length := by
    unfold formatCmdline longCmdline
    rw [List.length_append, List.length_replicate]
  rw [hlength] at hfits
  unfold cmdlineMax at hfits
  omega

end MiniVirt.Vmm
