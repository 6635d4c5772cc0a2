import MiniVirt.Vmm.Vfio
import Mathlib.Data.List.Perm.Subperm

/-!
# The walk over the capability list

The walk ends after 16 capabilities, since a list with a cycle would hold it up for ever.  But a well-formed list
may have 48, and an MSI-X capability behind the first 16 is not found (`capWalk_iff`).
-/

namespace MiniVirt.Vmm

/-! ### The capability list -/

/-- `offs` are the offsets of the capabilities, from the pointer `off` on. -/
inductive CapList (config : ByteMem) : BitVec 8 → List (BitVec 8) → Prop where
  | nil : CapList config 0 []
  | cons {off : BitVec 8} {offs : List (BitVec 8)} (hoff : off ≠ 0)
      (h : CapList config (config (off.toNat + 1) &&& 0xfc) offs) : CapList config off (off :: offs)

/-- The list that starts at offset 0x34 is well formed. -/
structure WellFormedCaps (config : ByteMem) (offs : List (BitVec 8)) : Prop where
  list : CapList config (config 0x34 &&& 0xfc) offs
  nodup : offs.Nodup
  aligned : ∀ off ∈ offs, 0x40 ≤ off.toNat ∧ off.toNat ≤ 0xfc ∧ off.toNat % 4 = 0

def isMsix (config : ByteMem) (off : BitVec 8) : Bool := config off.toNat = 0x11

/-- The offset of the first MSI-X capability, 0 without one. -/
def firstMsix (config : ByteMem) (offs : List (BitVec 8)) : Nat :=
    ((offs.find? (isMsix config)).map BitVec.toNat).getD 0

/-- There is room for 48 capabilities. -/
theorem WellFormedCaps.length_le {config : ByteMem} {offs : List (BitVec 8)} (h : WellFormedCaps config offs) :
    offs.length ≤ 48 := by
  have hnodup : (offs.map BitVec.toNat).Nodup := h.nodup.map fun _ _ => BitVec.eq_of_toNat_eq
  have hsub : offs.map BitVec.toNat ⊆ (List.range 48).map fun i => 0x40 + 4 * i := by
    intro k hk
    obtain ⟨off, hoff, rfl⟩ := List.mem_map.1 hk
    obtain ⟨hlo, hhi, hmod⟩ := h.aligned off hoff
    exact List.mem_map.2 ⟨(off.toNat - 0x40) / 4, List.mem_range.2 (by omega), by omega⟩
  have hle := (hnodup.subperm hsub).length_le
  rwa [List.length_map, List.length_map, List.length_range] at hle

/-! ### The walk -/

/-- The loop of `findMsixCap` with the offsets that it reads. -/
def capWalk (config : ByteMem) : Nat → BitVec 8 → Nat × List Nat
  | 0, _ => (0, [])
  | n + 1, off =>
    if off = 0 then (0, [])
    else if config off.toNat = 0x11 then (off.toNat, [off.toNat, off.toNat + 1])
    else
      let y := capWalk config n (config (off.toNat + 1) &&& 0xfc)
      (y.1, off.toNat :: (off.toNat + 1) :: y.2)

theorem and_fc_le (x : BitVec 8) : (x &&& 0xfc).toNat ≤ 0xfc := by
  rw [BitVec.toNat_and]
  exact Nat.and_le_right

/-- A pointer leaves room for the two bytes that are read. -/
theorem capWalk_reads (config : ByteMem) (n : Nat) {off : BitVec 8} (hoff : off.toNat ≤ 0xfc) :
    ∀ k ∈ (capWalk config n off).2, k < 256 := by
  induction n generalizing off with
  | zero => simp [capWalk]
  | succ n ih =>
    unfold capWalk
    split
    · simp
    · split
      · intro k hk
        simp only [List.mem_cons, List.not_mem_nil, or_false] at hk
        omega
      · intro k hk
        simp only [List.mem_cons] at hk
        obtain rfl | rfl | hk := hk
        · omega
        · omega
        · exact ih (and_fc_le _) k hk

/-- The walk sees the first `n` capabilities. -/
theorem CapList.findMsixCap_eq {config : ByteMem} {off : BitVec 8} {offs : List (BitVec 8)}
    (h : CapList config off offs) (n : Nat) : findMsixCap config n off = firstMsix config (offs.take n) := by
  induction h generalizing n with
  | nil =>
    rw [List.take_nil]
    cases n with
    | zero => rfl
    | succ n => rfl
  | @cons off offs hoff _ ih =>
    cases n with
    | zero => rfl
    | succ n =>
      unfold findMsixCap firstMsix
      rw [if_neg hoff, List.take_succ_cons]
      by_cases hid : config off.toNat = 0x11
      · rw [if_pos hid, List.find?_cons_of_pos (by exact decide_eq_true hid)]
        rfl
      · rw [if_neg hid, List.find?_cons_of_neg (by exact fun h => hid (of_decide_eq_true h))]
        exact ih n

/-! ### The law -/

/-- The walks of `vfio_setup()` and of `msixdump.c` on a configuration space. -/
structure CapLaw (device : VfioDevice) : Prop where
  /-- Nothing outside the 256 bytes is read. -/
  reads : ∀ k ∈ 0x34 :: (capWalk device.config 16 (device.config 0x34 &&& 0xfc)).2, k < 256
  vfioSetup : ∀ offs, WellFormedCaps device.config offs →
    ∀ slowpath fd, (vfioSetup device slowpath fd).msixCap = firstMsix device.config offs
  msixdump : ∀ offs, WellFormedCaps device.config offs → msixdumpCap device.config = firstMsix device.config offs

/-- On a well-formed list, the first MSI-X capability is one of the first 16. -/
def MsixEarly (config : ByteMem) : Prop :=
  ∀ offs, WellFormedCaps config offs → ∀ off ∈ offs.drop 16, isMsix config off = true →
    ∃ off' ∈ offs.take 16, isMsix config off' = true

theorem firstMsix_take_iff {config : ByteMem} {offs : List (BitVec 8)} (h : WellFormedCaps config offs) :
    firstMsix config (offs.take 16) = firstMsix config offs ↔
      ∀ off ∈ offs.drop 16, isMsix config off = true → ∃ off' ∈ offs.take 16, isMsix config off' = true := by
  have hfind : offs.find? (isMsix config) =
      ((offs.take 16).find? (isMsix config)).or ((offs.drop 16).find? (isMsix config)) := by
    rw [← List.find?_append, List.take_append_drop]
  unfold firstMsix
  rw [hfind]
  cases htake : (offs.take 16).find? (isMsix config) with
  | some off' =>
    rw [Option.some_or]
    exact iff_of_true rfl fun _ _ _ => ⟨off', List.mem_of_find?_eq_some htake, List.find?_some htake⟩
  | none =>
    rw [Option.none_or]
    have hno : ¬∃ off' ∈ offs.take 16, isMsix config off' = true := by
      rintro ⟨off', hmem, hoff'⟩
      exact List.find?_eq_none.1 htake off' hmem hoff'
    cases hdrop : (offs.drop 16).find? (isMsix config) with
    | none =>
      exact iff_of_true rfl fun off hmem hoff => absurd hoff (List.find?_eq_none.1 hdrop off hmem)
    | some off =>
      have hmem := List.mem_of_find?_eq_some hdrop
      have hlo := (h.aligned off (List.mem_of_mem_drop hmem)).1
      refine iff_of_false (fun heq => ?_) fun hearly => hno (hearly off hmem (List.find?_some hdrop))
      have heq' : 0 = off.toNat := heq
      omega

theorem capWalk_iff (device : VfioDevice) : CapLaw device ↔ MsixEarly device.config := by
  constructor
  · intro h offs hoffs
    rw [← firstMsix_take_iff hoffs, ← h.msixdump offs hoffs]
    exact (hoffs.list.findMsixCap_eq 16).symm
  · intro h
    have hcap (offs : List (BitVec 8)) (hoffs : WellFormedCaps device.config offs) :
        findMsixCap device.config 16 (device.config 0x34 &&& 0xfc) = firstMsix device.config offs := by
      rw [hoffs.list.findMsixCap_eq]
      exact (firstMsix_take_iff hoffs).2 (h offs hoffs)
    refine ⟨fun k hk => ?_, fun offs hoffs _ _ => hcap offs hoffs, hcap⟩
    obtain rfl | hk := List.mem_cons.1 hk
    · omega
    · exact capWalk_reads _ 16 (and_fc_le _) k hk

/-- A list of 17 capabilities, the last of which is MSI-X. -/
def lateMsix : ByteMem := fun k =>
  if k = 0x34 then 0x40
  else if k < 0x40 ∨ 0x80 < k / 4 * 4 then 0
  else if k % 4 = 0 then if k = 0x80 then 0x11 else 0x09
  else if k % 4 = 1 then if k = 0x81 then 0 else .ofNat 8 (k + 3)
  else 0

def lateDevice : VfioDevice := ⟨fun _ => none, fun _ => 0, lateMsix⟩

def lateOffs : List (BitVec 8) := (List.range 17).map fun i => .ofNat 8 (0x40 + 4 * i)

theorem not_capLaw : ¬∀ device, CapLaw device := by
  intro h
  have hoffs : WellFormedCaps lateMsix lateOffs := by
    refine ⟨?_, by decide, by decide⟩
    repeat' constructor
    all_goals decide
  have hcap : msixdumpCap lateMsix = firstMsix lateMsix lateOffs := (h lateDevice).msixdump lateOffs hoffs
  revert hcap
  decide

end MiniVirt.Vmm
