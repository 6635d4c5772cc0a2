import MiniVirt.Vmm.Vfio
import MiniVirt.Lib.Runs

/-!
# The arrays behind the passthrough registers

`vf.msix_shadow` has room for 32 vectors, and `regs` for the two vector registers.  The MSI-X table of
the device may be longer, and a write may start in a vector register and end behind it: an access stays
inside the arrays exactly when it does neither (`inBounds_handlePtMmio`).
-/

namespace MiniVirt.Vmm

/-! ### Accesses inside the arrays -/

/-- Every index of the access lies inside its array. -/
def HostAccess.InBounds : HostAccess → Prop
  | .shadow pos len => ∀ i, pos ≤ i → i < pos + len → i < msixShadowSize
  | .regs pos len => ∀ i, pos ≤ i → i < pos + len → i < regsSize

theorem inBounds_shadow {pos len : Nat} (h : 0 < len) :
    (HostAccess.shadow pos len).InBounds ↔ pos + len ≤ msixShadowSize := by
  constructor
  · intro hin
    have := hin (pos + len - 1) (by omega) (by omega)
    omega
  · intro hle i _ hi
    omega

theorem inBounds_regs {pos len : Nat} (h : 0 < len) :
    (HostAccess.regs pos len).InBounds ↔ pos + len ≤ regsSize := by
  constructor
  · intro hin
    have := hin (pos + len - 1) (by omega) (by omega)
    omega
  · intro hle i _ hi
    omega

theorem entryAccesses_inBounds {v : Nat} (h : v < 32) : ∀ e ∈ Vf.entryAccesses v, e.InBounds := by
  have hsize : msixShadowSize = 512 := rfl
  unfold Vf.entryAccesses
  simp only [List.forall_mem_cons]
  refine ⟨?_, ?_, ?_, ?_, by simp⟩ <;> rw [inBounds_shadow (by omega)] <;> omega

theorem Mmio.zero_lt_len (m : Mmio) : 0 < m.len := m.len_pos

namespace Vf

variable {vf : Vf}

/-- Every access so far lies inside its array. -/
def InBounds (vf : Vf) : Prop := ∀ e ∈ vf.accesses, e.InBounds

theorem nr_le (vf : Vf) : vf.nr ≤ 32 := by
  unfold nr
  split <;> omega

theorem nr_le_msixNr (vf : Vf) : vf.nr ≤ vf.msixNr := by
  unfold nr
  split <;> omega

theorem nr_congr {vf' : Vf} (h : vf'.msixNr = vf.msixNr) : vf'.nr = vf.nr := by
  unfold nr
  rw [h]

/-- The state after the accesses `l`. -/
theorem inBounds_append {vf' : Vf} {l : List HostAccess} (h : vf'.accesses = vf.accesses ++ l) :
    vf'.InBounds ↔ vf.InBounds ∧ ∀ e ∈ l, e.InBounds := by
  unfold InBounds
  rw [h, List.forall_mem_append]

theorem inBounds_congr {vf' : Vf} (h : vf'.accesses = vf.accesses) : vf'.InBounds ↔ vf.InBounds := by
  unfold InBounds
  rw [h]

theorem inBounds_entries {vf' : Vf} (n : Nat) (hn : n ≤ 32)
    (h : vf'.accesses = vf.accesses ++ (List.range n).flatMap entryAccesses) :
    vf'.InBounds ↔ vf.InBounds := by
  rw [inBounds_append h, and_iff_left]
  intro e he
  obtain ⟨v, hv, he⟩ := List.mem_flatMap.1 he
  exact entryAccesses_inBounds (lt_of_lt_of_le (List.mem_range.1 hv) hn) e he

/-! ### The steps of the handlers -/

@[simp]
theorem accesses_pwriteRegion (vf : Vf) (i : Nat) (off : BitVec 64) (bytes : List (BitVec 8)) :
    (vf.pwriteRegion i off bytes).accesses = vf.accesses := by
  unfold pwriteRegion
  split <;> rfl

theorem accesses_forwardCtrl (vf : Vf) (v : Nat) :
    (vf.forwardCtrl v).accesses = vf.accesses ++ [.shadow (v * 16 + 12) 4] := by
  unfold forwardCtrl
  split <;> rfl

theorem inBounds_forwardCtrl (vf : Vf) (v : Nat) : (vf.forwardCtrl v).InBounds ↔ vf.InBounds ∧ v < 32 := by
  rw [inBounds_append (accesses_forwardCtrl vf v), List.forall_mem_singleton, inBounds_shadow (by omega)]
  have hsize : msixShadowSize = 512 := rfl
  exact and_congr_right fun _ => by omega

theorem inBounds_msixUpdateRoutes (vf : Vf) : vf.msixUpdateRoutes.InBounds ↔ vf.InBounds :=
  inBounds_entries vf.nr vf.nr_le rfl

theorem accesses_setupVector (io : Ioctls) (vf : Vf) (v : Nat) :
    (setupVector io vf v).accesses = vf.accesses := by
  unfold setupVector
  split <;> rfl

theorem inBounds_syncCtrl {v : Nat} (hv : v < 32) : (vf.syncCtrl v).InBounds ↔ vf.InBounds := by
  unfold syncCtrl
  split
  · rfl
  · rw [inBounds_forwardCtrl, and_iff_left hv]

theorem accesses_foldl_setupVector (io : Ioctls) (l : List Nat) (vf : Vf) :
    (l.foldl (setupVector io) vf).accesses = vf.accesses := by
  induction l generalizing vf with
  | nil => rfl
  | cons v l ih => rw [List.foldl_cons, ih, accesses_setupVector]

theorem inBounds_foldl_syncCtrl {l : List Nat} (hl : ∀ v ∈ l, v < 32) (vf : Vf) :
    (l.foldl syncCtrl vf).InBounds ↔ vf.InBounds := by
  induction l generalizing vf with
  | nil => rfl
  | cons v l ih =>
    rw [List.foldl_cons, ih fun w hw => hl w (List.mem_cons_of_mem v hw),
      inBounds_syncCtrl (hl v List.mem_cons_self)]

theorem nr_setupVector (io : Ioctls) (vf : Vf) (v : Nat) : (setupVector io vf v).nr = vf.nr := by
  apply nr_congr
  unfold setupVector
  split <;> rfl

theorem nr_foldl_setupVector (io : Ioctls) (l : List Nat) (vf : Vf) :
    (l.foldl (setupVector io) vf).nr = vf.nr := by
  induction l generalizing vf with
  | nil => rfl
  | cons v l ih => rw [List.foldl_cons, ih, nr_setupVector]

theorem inBounds_msixSetupIrqs (io : Ioctls) (vf : Vf) : (vf.msixSetupIrqs io).InBounds ↔ vf.InBounds := by
  have hsetup : ∀ w : Vf, w.accesses = ((List.range vf.nr).foldl (setupVector io) vf.msixUpdateRoutes).accesses ++
      (List.range vf.nr).flatMap entryAccesses → (w.InBounds ↔ vf.InBounds) := by
    intro w hw
    rw [accesses_foldl_setupVector] at hw
    rw [inBounds_entries vf.nr vf.nr_le hw, inBounds_msixUpdateRoutes]
  have hnr : ((List.range vf.nr).foldl (setupVector io) vf.msixUpdateRoutes).nr = vf.nr :=
    nr_foldl_setupVector io _ _
  unfold msixSetupIrqs
  dsimp only
  rw [hnr]
  split
  · refine (inBounds_foldl_syncCtrl (fun v hv => ?_) _).trans (hsetup _ rfl)
    exact lt_of_lt_of_le (List.mem_range.1 hv) (nr_le _)
  · exact hsetup _ rfl

theorem inBounds_ptConfigWrite (io : Ioctls) (reg len : Nat) (val : BitVec 32) (vf : Vf) :
    (vf.ptConfigWrite io reg len val).InBounds ↔ vf.InBounds := by
  unfold ptConfigWrite
  split
  · rfl
  · rfl
  · dsimp only
    split
    · exact inBounds_msixSetupIrqs io _
    · rfl
  · exact inBounds_congr (accesses_pwriteRegion ..)

/-! ### Where an access goes -/

theorem barBase_mod (vf : Vf) (b : Nat) : (vf.barBase b).toNat % 16 = 0 := by
  have hbits : vf.barBase b &&& 0xf = 0 := by
    unfold barBase
    rw [BitVec.and_assoc]
    exact BitVec.and_zero
  have hnat := congrArg BitVec.toNat hbits
  rw [BitVec.toNat_and] at hnat
  exact (Nat.and_two_pow_sub_one_eq_mod _ 4).symm.trans hnat

/-- An offset into a BAR, with the length of an access, does not wrap. -/
theorem barHit_off {pa : BitVec 64} {b : Nat} (h : vf.barHit pa = some b) :
    (pa - vf.barBase b).toNat + 16 < 2 ^ 64 := by
  have hmem := List.find?_some h
  simp only [decide_eq_true_eq] at hmem
  obtain ⟨hbase, -, hle, -⟩ := hmem
  have hmod := vf.barBase_mod b
  have hne : (vf.barBase b).toNat ≠ 0 := fun h0 => hbase (BitVec.eq_of_toNat_eq h0)
  have hpa := pa.isLt
  rw [BitVec.toNat_sub_of_le hle]
  omega

theorem toNat_tableEnd (vf : Vf) :
    (vf.msixTableOff.setWidth 64 + .ofNat 64 vf.msixNr * 16 : BitVec 64).toNat =
      vf.msixTableOff.toNat + vf.msixNr * 16 := by
  have hoff := vf.msixTableOff.isLt
  have hnr := vf.msixNr_le
  rw [BitVec.toNat_add, BitVec.toNat_mul, BitVec.toNat_ofNat,
    BitVec.toNat_setWidth_of_le (by omega)]
  show (vf.msixTableOff.toNat + vf.msixNr % 2 ^ 64 * 16 % 2 ^ 64) % 2 ^ 64 = _
  omega

/-- The position in the table of an access that hits it. -/
theorem tableHit_pos {b : Nat} {off : BitVec 64} {len : Nat} (hoff : off.toNat + 16 < 2 ^ 64)
    (hlen : len ≤ 8) (h : vf.TableHit b off len) :
    ∃ pos, ((off - vf.msixTableOff.setWidth 64).setWidth 32).toNat = pos ∧
      off.toNat = vf.msixTableOff.toNat + pos ∧ pos + len ≤ vf.msixNr * 16 := by
  obtain ⟨-, -, hle, hend⟩ := h
  have hnr := vf.msixNr_le
  have hto : (vf.msixTableOff.setWidth 64).toNat = vf.msixTableOff.toNat :=
    BitVec.toNat_setWidth_of_le (by omega)
  have hle' := BitVec.le_def.1 hle
  have hend' := BitVec.le_def.1 hend
  have hsum : (off + .ofNat 64 len).toNat = off.toNat + len := by
    rw [BitVec.toNat_add, BitVec.toNat_ofNat]
    omega
  rw [hsum, toNat_tableEnd] at hend'
  rw [hto] at hle'
  refine ⟨off.toNat - vf.msixTableOff.toNat, ?_, by omega, by omega⟩
  rw [BitVec.toNat_setWidth, BitVec.toNat_sub_of_le hle, hto]
  omega

/-! ### The accesses of `handle_pt_mmio()` -/

/-- The access, if it starts in a vector register, ends in one; and if it hits the MSI-X table, it ends
within the entries of the first 32 vectors. -/
def Fits (vf : Vf) (m : Mmio) : Prop :=
  ∀ b, vf.barHit m.physAddr = some b →
    let off := m.physAddr - vf.barBase b
    (b = 0 → m.isWrite = true → 0x14 ≤ off.toNat → off.toNat < 0x18 → off.toNat + m.len ≤ 0x18) ∧
      (b ≠ 0 → vf.TableHit b off m.len → off.toNat + m.len ≤ vf.msixTableOff.toNat + 32 * 16)

theorem inBounds_forwardMmio (vf : Vf) (b : Nat) (off : BitVec 64) (m : Mmio) :
    (vf.forwardMmio b off m).2.InBounds ↔ vf.InBounds := by
  unfold forwardMmio
  split
  · exact inBounds_congr (accesses_pwriteRegion ..)
  · rfl

theorem inBounds_handleBar0Legacy (off : BitVec 64) (m : Mmio) (vf : Vf) :
    (vf.handleBar0Legacy off m).2.InBounds ↔ vf.InBounds ∧
      (m.isWrite = true → 0x14 ≤ off.toNat → off.toNat < 0x18 → off.toNat + m.len ≤ 0x18) := by
  have hcount : (vf.countNotify off m).InBounds ↔ vf.InBounds := by
    unfold countNotify
    split <;> rfl
  unfold handleBar0Legacy
  rw [inBounds_forwardMmio]
  unfold shadowVectors
  split
  · rename_i hreg
    obtain ⟨hlo, hhi, hw⟩ := hreg
    have hlo' : 0x14 ≤ off.toNat := BitVec.le_def.1 hlo
    have hhi' : off.toNat < 0x18 := BitVec.lt_def.1 hhi
    have hpos : (off - 0x14).toNat = off.toNat - 0x14 := BitVec.toNat_sub_of_le hlo
    have hsize : regsSize = 4 := rfl
    dsimp only
    rw [inBounds_append rfl, hcount, List.forall_mem_singleton, inBounds_regs m.zero_lt_len, hpos]
    refine and_congr_right fun _ => ⟨fun h _ _ _ => by omega, fun h => ?_⟩
    have := h hw hlo' hhi'
    omega
  · rename_i hreg
    rw [hcount]
    refine (and_iff_left fun hw hlo hhi => absurd ⟨?_, ?_, hw⟩ hreg).symm
    · exact BitVec.le_def.2 hlo
    · exact BitVec.lt_def.2 hhi

theorem inBounds_tableWrite (vf : Vf) (pos : Nat) (m : Mmio) :
    (vf.tableWrite pos m).InBounds ↔ vf.InBounds ∧ pos + m.len ≤ 32 * 16 := by
  have hsize : msixShadowSize = 32 * 16 := rfl
  have hlen := m.zero_lt_len
  have hwrite : ∀ w : Vf, w.accesses = vf.accesses ++ [.shadow pos m.len] →
      (w.InBounds ↔ vf.InBounds ∧ pos + m.len ≤ 32 * 16) := by
    intro w hw
    rw [inBounds_append hw, List.forall_mem_singleton, inBounds_shadow m.zero_lt_len, hsize]
  have hctrl : ∀ w : Vf, w.accesses = vf.accesses ++ [.shadow pos m.len] →
      ((w.forwardCtrl (pos / 16)).InBounds ↔ vf.InBounds ∧ pos + m.len ≤ 32 * 16) := by
    intro w hw
    rw [inBounds_forwardCtrl, hwrite w hw]
    exact and_iff_left_of_imp fun h => by omega
  unfold tableWrite
  dsimp only
  split <;> split
  · exact (inBounds_msixUpdateRoutes _).trans (hctrl _ rfl)
  · exact hctrl _ rfl
  · exact (inBounds_msixUpdateRoutes _).trans (hwrite _ rfl)
  · exact hwrite _ rfl

theorem inBounds_handlePtMmio (m : Mmio) (vf : Vf) :
    (vf.handlePtMmio m).2.InBounds ↔ vf.InBounds ∧ vf.Fits m := by
  unfold handlePtMmio Fits
  cases hb : vf.barHit m.physAddr with
  | none => exact (and_iff_left fun b h => by cases h).symm
  | some b =>
    have hoff := barHit_off hb
    simp only [Option.some.injEq, forall_eq']
    generalize m.physAddr - vf.barBase b = off at hoff
    split
    · rename_i h0
      rw [inBounds_handleBar0Legacy]
      refine and_congr_right fun _ => ⟨fun h => ⟨fun _ => h, fun hne => absurd h0 hne⟩, fun h => h.1 h0⟩
    · rename_i h0
      split
      · rename_i htab
        obtain ⟨pos, hpos, heq, hle⟩ := tableHit_pos hoff m.len_le htab
        rw [hpos]
        have hiff : (vf.InBounds ∧ pos + m.len ≤ 32 * 16) ↔ vf.InBounds ∧
            ((b = 0 → m.isWrite = true → 0x14 ≤ off.toNat → off.toNat < 0x18 → off.toNat + m.len ≤ 0x18) ∧
              (b ≠ 0 → vf.TableHit b off m.len → off.toNat + m.len ≤ vf.msixTableOff.toNat + 32 * 16)) := by
          refine and_congr_right fun _ => ⟨fun h => ⟨fun hb0 => absurd hb0 h0, fun _ _ => by omega⟩, fun h => ?_⟩
          have := h.2 h0 htab
          omega
        split
        · exact (inBounds_tableWrite vf pos m).trans hiff
        · dsimp only
          rw [inBounds_append rfl, List.forall_mem_singleton, inBounds_shadow m.zero_lt_len]
          exact hiff
      · rename_i htab
        rw [inBounds_forwardMmio]
        refine (and_iff_left ⟨fun hb0 => absurd hb0 h0, fun _ h => absurd h htab⟩).symm

end Vf

/-! ### Runs -/

def VfAct.Fits (vf : Vf) : VfAct → Prop
  | .mmio m => vf.Fits m
  | .config .. => True

theorem VfAct.step_inBounds_iff (vf : Vf) (a : VfAct) :
    (a.step vf).InBounds ↔ vf.InBounds ∧ a.Fits vf := by
  cases a with
  | mmio m => exact vf.inBounds_handlePtMmio m
  | config reg len val io => exact (vf.inBounds_ptConfigWrite io reg len val).trans (and_iff_left trivial).symm

/-- Every access of a run to `msix_shadow` and to `regs` lies inside the array if and only if every MMIO
access of the run fits. -/
theorem hostAccesses_inBounds_iff (device : VfioDevice) (msixSlowpath : Bool) (nextFd : Nat)
    (acts : List VfAct) :
    (∀ e ∈ (runSteps VfAct.step (vfioSetup device msixSlowpath nextFd) acts).accesses, e.InBounds) ↔
      AllSteps VfAct.step VfAct.Fits (vfioSetup device msixSlowpath nextFd) acts := by
  have hrun : ∀ vf : Vf, (runSteps VfAct.step vf acts).InBounds ↔
      vf.InBounds ∧ AllSteps VfAct.step VfAct.Fits vf acts := by
    induction acts with
    | nil => exact fun vf => (and_iff_left trivial).symm
    | cons a acts ih =>
      intro vf
      rw [runSteps, ih, VfAct.step_inBounds_iff, AllSteps, and_assoc]
  refine (hrun _).trans (and_iff_right ?_)
  exact fun e he => absurd he List.not_mem_nil

/-- A device with 64 vectors, whose MSI-X table is all of BAR 4. -/
def longTable : VfioDevice where
  region := fun i => some (.ofNat 64 (i * 0x10000))
  barSize := fun b => if b = 4 then 0x1000 else 0
  config := ByteMem.store (fun _ => 0) 0x34 1 0x40 |>.store 0x40 1 0x11 |>.store 0x42 2 63
    |>.store 0x44 4 4

/-- A write of the address dword of an entry. -/
def addrWriteAt (physAddr : BitVec 64) : Mmio := ⟨physAddr, true, leBytes 4 0xfee00000, by decide, by decide⟩

/-- The guest maps BAR 4 and programs vector 32. -/
def longTableRun : List VfAct :=
  [.config 0x20 4 0xe0000000 ⟨fun _ => true, true⟩,
    .mmio (addrWriteAt 0xe0000200)]

theorem not_hostAccesses_inBounds :
    ¬∀ (device : VfioDevice) (msixSlowpath : Bool) (nextFd : Nat) (acts : List VfAct),
      ∀ e ∈ (runSteps VfAct.step (vfioSetup device msixSlowpath nextFd) acts).accesses, e.InBounds := by
  intro h
  have hmem : .shadow 512 4 ∈
      (runSteps VfAct.step (vfioSetup longTable false 3) longTableRun).accesses := by
    decide +kernel
  exact absurd (h longTable false 3 longTableRun _ hmem 512 le_rfl (by omega)) (by decide)

end MiniVirt.Vmm
