import MiniVirt.Vmm.Spec.Frame
import Mathlib.Data.List.Nodup
import Mathlib.Data.List.Perm.Subperm

/-!
# Descriptor chains

`Chain` says what a well-formed descriptor chain is: following `next` from its head ends, all indices
lie in the table and all buffers in guest RAM.  `gatherChain_ok_iff` shows that `gather_chain()`
accepts exactly the heads of such chains, with the first 64 descriptors as its segments.
-/

namespace MiniVirt.Vmm

/-- The buffer lies in guest RAM. -/
def Desc.InRam (memSize : BitVec 64) (d : Desc) : Prop := d.addr.toNat + d.len.toNat ≤ memSize.toNat

instance (memSize : BitVec 64) (d : Desc) : Decidable (d.InRam memSize) :=
  inferInstanceAs (Decidable (_ ≤ _))

/-- The segment of a descriptor whose buffer lies in guest RAM. -/
def Desc.seg (d : Desc) : Seg := d.toSeg d.addr.toNat

theorem Desc.ofMem_congr {m m' : ByteMem} {a : Nat} (h : ∀ i, a ≤ i → i < a + 16 → m' i = m i) :
    Desc.ofMem m' a = Desc.ofMem m a := by
  unfold Desc.ofMem
  rw [ByteMem.load_congr (a := a) (n := 8) fun i _ _ => h i (by omega) (by omega),
    ByteMem.load_congr (a := a + 8) (n := 4) fun i _ _ => h i (by omega) (by omega),
    ByteMem.load_congr (a := a + 12) (n := 2) fun i _ _ => h i (by omega) (by omega),
    ByteMem.load_congr (a := a + 14) (n := 2) fun i _ _ => h i (by omega) (by omega)]

/-- The descriptors from index `idx` on in the table of `num` descriptors at `dt`. -/
inductive Chain (m : ByteMem) (memSize : BitVec 64) (num dt : Nat) : BitVec 16 → List Desc → Prop
  | last {idx : BitVec 16} (hidx : idx.toNat < num)
      (hram : (Desc.ofMem m (dt + 16 * idx.toNat)).InRam memSize)
      (hnext : (Desc.ofMem m (dt + 16 * idx.toNat)).hasNext = false) :
      Chain m memSize num dt idx [Desc.ofMem m (dt + 16 * idx.toNat)]
  | next {idx : BitVec 16} {ds : List Desc} (hidx : idx.toNat < num)
      (hram : (Desc.ofMem m (dt + 16 * idx.toNat)).InRam memSize)
      (hnext : (Desc.ofMem m (dt + 16 * idx.toNat)).hasNext = true)
      (htail : Chain m memSize num dt (Desc.ofMem m (dt + 16 * idx.toNat)).next ds) :
      Chain m memSize num dt idx (Desc.ofMem m (dt + 16 * idx.toNat) :: ds)

/-- The chain of a queue at `head`: the table lies in guest RAM, too. -/
def ChainAt (m : ByteMem) (memSize : BitVec 64) (vq : Vq) (head : BitVec 16) (ds : List Desc) : Prop :=
  vq.desc.toNat + 16 * vq.num.toNat ≤ memSize.toNat ∧
    Chain m memSize vq.num.toNat vq.desc.toNat head ds

/-- The descriptors from index `idx` on, if there are at most `fuel` of them. -/
def chainFrom (m : ByteMem) (memSize : BitVec 64) (num dt : Nat) : Nat → BitVec 16 → Option (List Desc)
  | 0, _ => none
  | fuel + 1, idx =>
    let d := Desc.ofMem m (dt + 16 * idx.toNat)
    if num ≤ idx.toNat ∨ ¬d.InRam memSize then none
    else if d.hasNext then (chainFrom m memSize num dt fuel d.next).map (d :: ·)
    else some [d]

/-- The chain of a queue at `head`, if there is one. -/
def chainOf (m : ByteMem) (memSize : BitVec 64) (vq : Vq) (head : BitVec 16) : Option (List Desc) :=
  if vq.desc.toNat + 16 * vq.num.toNat ≤ memSize.toNat then
    chainFrom m memSize vq.num.toNat vq.desc.toNat vq.num.toNat head
  else none

namespace Chain

variable {m : ByteMem} {memSize : BitVec 64} {num dt fuel : Nat} {idx : BitVec 16} {ds ds' : List Desc}

theorem unique (h : Chain m memSize num dt idx ds) (h' : Chain m memSize num dt idx ds') : ds = ds' := by
  induction h generalizing ds' with
  | last _ _ hnext =>
    cases h' with
    | last => rfl
    | next _ _ hnext' => exact absurd hnext' (by simp [hnext])
  | next _ _ hnext _ ih =>
    cases h' with
    | last _ _ hnext' => exact absurd hnext (by simp [hnext'])
    | next _ _ _ htail' => rw [ih htail']

/-- The indices of a chain. -/
def visited : BitVec 16 → List Desc → List (BitVec 16)
  | _, [] => []
  | idx, d :: ds => idx :: visited d.next ds

theorem length_visited (idx : BitVec 16) (ds : List Desc) : (visited idx ds).length = ds.length := by
  induction ds generalizing idx with
  | nil => rfl
  | cons d ds ih => rw [visited, List.length_cons, ih, List.length_cons]

theorem visited_lt (h : Chain m memSize num dt idx ds) : ∀ j ∈ visited idx ds, j.toNat < num := by
  induction h with
  | last hidx =>
    intro j hj
    rwa [List.mem_singleton.1 hj]
  | next hidx _ _ _ ih =>
    intro j hj
    rcases List.mem_cons.1 hj with rfl | hj
    · exact hidx
    · exact ih j hj

/-- From each index of a chain a chain that is no longer starts. -/
theorem of_visited (h : Chain m memSize num dt idx ds) :
    ∀ j ∈ visited idx ds, ∃ ds', Chain m memSize num dt j ds' ∧ ds'.length ≤ ds.length := by
  induction h with
  | last hidx hram hnext =>
    intro j hj
    rw [List.mem_singleton.1 hj]
    exact ⟨_, .last hidx hram hnext, le_rfl⟩
  | next hidx hram hnext htail ih =>
    intro j hj
    rcases List.mem_cons.1 hj with rfl | hj
    · exact ⟨_, .next hidx hram hnext htail, le_rfl⟩
    · obtain ⟨ds', h', hle⟩ := ih j hj
      exact ⟨ds', h', by rw [List.length_cons]; omega⟩

/-- A chain meets no index twice: it would go on for ever. -/
theorem nodup_visited (h : Chain m memSize num dt idx ds) : (visited idx ds).Nodup := by
  induction h with
  | last => exact List.nodup_singleton _
  | next hidx hram hnext htail ih =>
    refine List.nodup_cons.2 ⟨?_, ih⟩
    intro hmem
    obtain ⟨ds', h', hle⟩ := htail.of_visited _ hmem
    rw [← (Chain.next hidx hram hnext htail).unique h', List.length_cons] at hle
    omega

theorem length_le (h : Chain m memSize num dt idx ds) : ds.length ≤ num := by
  have hnodup : ((visited idx ds).map BitVec.toNat).Nodup :=
    h.nodup_visited.map fun _ _ => BitVec.eq_of_toNat_eq
  have hsub : (visited idx ds).map BitVec.toNat ⊆ List.range num := by
    intro k hk
    obtain ⟨j, hj, rfl⟩ := List.mem_map.1 hk
    exact List.mem_range.2 (h.visited_lt j hj)
  have hle := (List.subperm_of_subset hnodup hsub).length_le
  rwa [List.length_map, length_visited, List.length_range] at hle

theorem inRam (h : Chain m memSize num dt idx ds) : ∀ d ∈ ds, d.InRam memSize := by
  induction h with
  | last _ hram =>
    intro d hd
    rwa [List.mem_singleton.1 hd]
  | next _ hram _ _ ih =>
    intro d hd
    rcases List.mem_cons.1 hd with rfl | hd
    · exact hram
    · exact ih d hd

/-- A chain depends on the bytes of the table only. -/
theorem congr {m' : ByteMem} (hm : ∀ i, dt ≤ i → i < dt + 16 * num → m' i = m i)
    (h : Chain m memSize num dt idx ds) : Chain m' memSize num dt idx ds := by
  have hdesc : ∀ j : BitVec 16, j.toNat < num →
      Desc.ofMem m' (dt + 16 * j.toNat) = Desc.ofMem m (dt + 16 * j.toNat) := by
    intro j hj
    exact Desc.ofMem_congr fun i _ _ => hm i (by omega) (by omega)
  induction h with
  | last hidx hram hnext =>
    rw [← hdesc _ hidx] at hram hnext ⊢
    exact .last hidx hram hnext
  | next hidx hram hnext _ ih =>
    rw [← hdesc _ hidx] at hram hnext ih ⊢
    exact .next hidx hram hnext ih

theorem chainFrom_eq (h : Chain m memSize num dt idx ds) (hfuel : ds.length ≤ fuel) :
    chainFrom m memSize num dt fuel idx = some ds := by
  induction h generalizing fuel with
  | last hidx hram hnext =>
    obtain ⟨fuel, rfl⟩ := Nat.exists_eq_succ_of_ne_zero (Nat.one_le_iff_ne_zero.1 hfuel)
    unfold chainFrom
    dsimp only
    rw [if_neg (by simp [hidx, hram]), hnext]
    rfl
  | next hidx hram hnext _ ih =>
    cases fuel with
    | zero => cases hfuel
    | succ fuel =>
      unfold chainFrom
      dsimp only
      rw [if_neg (by simp [hidx, hram]), if_pos hnext, ih (Nat.le_of_succ_le_succ hfuel)]
      rfl

theorem of_chainFrom (h : chainFrom m memSize num dt fuel idx = some ds) : Chain m memSize num dt idx ds := by
  induction fuel generalizing idx ds with
  | zero => cases h
  | succ fuel ih =>
    unfold chainFrom at h
    dsimp only at h
    split_ifs at h with hbad hnext
    · obtain ⟨hidx, hram⟩ := not_or.1 hbad
      obtain ⟨ds, htail, rfl⟩ := Option.map_eq_some_iff.1 h
      exact .next (Nat.lt_of_not_le hidx) (not_not.1 hram) hnext (ih htail)
    · obtain ⟨hidx, hram⟩ := not_or.1 hbad
      rw [← Option.some.inj h]
      exact .last (Nat.lt_of_not_le hidx) (not_not.1 hram) (Bool.eq_false_of_not_eq_true hnext)

end Chain

theorem chainAt_iff {m : ByteMem} {memSize : BitVec 64} {vq : Vq} {head : BitVec 16} {ds : List Desc} :
    ChainAt m memSize vq head ds ↔ chainOf m memSize vq head = some ds := by
  unfold ChainAt chainOf
  split_ifs with htable
  · exact ⟨fun h => h.2.chainFrom_eq h.2.length_le, fun h => ⟨htable, .of_chainFrom h⟩⟩
  · exact ⟨fun h => absurd h.1 htable, nofun⟩

/-! ### `gather_chain()` -/

variable {vq : Vq} {dt : Nat} {s : St}

theorem gpa2hva_desc (memSize : BitVec 64) (d : Desc) :
    gpa2hva memSize d.addr (d.len.setWidth 64) =
      if d.InRam memSize then some d.addr.toNat else none := by
  have hlen : (d.len.setWidth 64).toNat = d.len.toNat := BitVec.toNat_setWidth_of_le (by omega)
  by_cases hram : d.InRam memSize
  · rw [if_pos hram]
    exact gpa2hva_of_le (by rwa [hlen])
  · rw [if_neg hram]
    cases hg : gpa2hva memSize d.addr (d.len.setWidth 64) with
    | none => rfl
    | some a =>
      have hle := (gpa2hva_eq_some hg).2
      rw [(gpa2hva_eq_some hg).1, hlen] at hle
      contradiction

/-- The segments stored after `d`. -/
def pushSeg (acc : List Seg) (g : Seg) : List Seg := if acc.length < vqMaxSegs then acc ++ [g] else acc

theorem pushSeg_append_take (acc : List Seg) (g : Seg) (gs : List Seg) :
    pushSeg acc g ++ gs.take (vqMaxSegs - (pushSeg acc g).length) =
      acc ++ (g :: gs).take (vqMaxSegs - acc.length) := by
  unfold pushSeg
  split
  · rename_i h
    obtain ⟨k, hk⟩ : ∃ k, vqMaxSegs - acc.length = k + 1 := ⟨vqMaxSegs - acc.length - 1, by omega⟩
    rw [hk, List.take_succ_cons, List.append_assoc, List.length_append, List.length_singleton,
      show vqMaxSegs - (acc.length + 1) = k by omega]
    rfl
  · rename_i h
    rw [show vqMaxSegs - acc.length = 0 by omega]
    rfl

/-- The walk along a chain ends with the segments of its first descriptors. -/
theorem gatherLoop_of_chain {idx : BitVec 16} {ds : List Desc} {guard : BitVec 32} {fuel : Nat}
    {acc : List Seg} (h : Chain s.mem s.memSize vq.num.toNat dt idx ds)
    (hguard : guard.toNat + ds.length ≤ vq.num.toNat + 1) (hfuel : ds.length ≤ fuel) :
    ((gatherLoop vq dt fuel idx guard acc).run s).1 =
      .ok (acc ++ (ds.map Desc.seg).take (vqMaxSegs - acc.length)) := by
  generalize hm : s.mem = m at h
  generalize hM : s.memSize = memSize at h
  have hnum := vq.num.isLt
  induction h generalizing s guard fuel acc with
  | @last idx hidx hram hnext =>
    obtain ⟨fuel, rfl⟩ := Nat.exists_eq_succ_of_ne_zero (Nat.one_le_iff_ne_zero.1 hfuel)
    rw [List.length_singleton] at hguard
    rw [gatherLoop_succ_run, if_neg (by simp only [not_or, BitVec.not_lt, BitVec.le_def]; omega)]
    subst hm hM
    dsimp only
    rw [gpa2hva_desc, if_pos hram]
    dsimp only
    rw [if_neg (by simp [hnext])]
    have htake := pushSeg_append_take acc (Desc.ofMem s.mem (dt + 16 * idx.toNat)).seg []
    rw [List.take_nil, List.append_nil] at htake
    exact congrArg Gathered.ok htake
  | next hidx hram hnext htail ih =>
    obtain ⟨fuel, rfl⟩ := Nat.exists_eq_succ_of_ne_zero (show fuel ≠ 0 by
      rw [List.length_cons] at hfuel
      omega)
    rw [List.length_cons] at hguard hfuel
    rw [gatherLoop_succ_run, if_neg (by simp only [not_or, BitVec.not_lt, BitVec.le_def]; omega)]
    subst hm hM
    dsimp only
    rw [gpa2hva_desc, if_pos hram]
    dsimp only
    rw [if_pos hnext]
    rw [ih (s := s.log _) (by rw [BitVec.toNat_add]; simp; omega) (by omega) rfl rfl]
    exact congrArg Gathered.ok (pushSeg_append_take acc _ _)

/-- What the walk accepts is a chain. -/
theorem chain_of_gatherLoop {idx : BitVec 16} {guard : BitVec 32} {fuel : Nat}
    {acc segs : List Seg} (h : ((gatherLoop vq dt fuel idx guard acc).run s).1 = .ok segs) :
    ∃ ds, Chain s.mem s.memSize vq.num.toNat dt idx ds := by
  induction fuel generalizing s idx guard acc with
  | zero => cases h
  | succ fuel ih =>
    rw [gatherLoop_succ_run] at h
    dsimp only at h
    rw [gpa2hva_desc] at h
    split at h
    · cases h
    · rename_i hc
      split at h
      · cases h
      · rename_i hva hd
        have hram : (Desc.ofMem s.mem (dt + 16 * idx.toNat)).InRam s.memSize := by
          by_contra hc
          rw [if_neg hc] at hd
          cases hd
        split at h
        · rename_i hnext
          obtain ⟨ds, hds⟩ := ih h
          exact ⟨_, .next (by omega) hram hnext hds⟩
        · rename_i hnext
          exact ⟨_, .last (by omega) hram (by simpa using hnext)⟩

/-- `gather_chain()` succeeds exactly on the heads of chains, with the first 64 descriptors. -/
theorem gatherChain_ok_iff {head : BitVec 16} {segs : List Seg} :
    ((gatherChain vq head).run s).1 = .ok segs ↔
      ∃ ds, ChainAt s.mem s.memSize vq head ds ∧ segs = (ds.map Desc.seg).take vqMaxSegs := by
  unfold gatherChain
  rw [run_bind, run_get]
  dsimp only
  constructor
  · intro h
    split at h
    · cases h
    · rename_i dt hdt
      obtain ⟨rfl, hle⟩ := gpa2hva_eq_some hdt
      rw [toNat_mul_num 16 vq.num (by decide)] at hle
      obtain ⟨ds, hds⟩ := chain_of_gatherLoop h
      have hlen := hds.length_le
      rw [gatherLoop_of_chain hds (by simp; omega) (by omega)] at h
      exact ⟨ds, ⟨hle, hds⟩, (Gathered.ok.inj h).symm⟩
  · rintro ⟨ds, ⟨htable, hds⟩, rfl⟩
    have hlen := hds.length_le
    rw [gpa2hva_of_le (by rwa [toNat_mul_num 16 vq.num (by decide)])]
    dsimp only
    rw [gatherLoop_of_chain hds (by simp; omega) (by omega)]
    rfl

/-- The guard ends the walk, unless `num` is the greatest 32-bit number. -/
theorem gatherLoop_ne_diverge {idx : BitVec 16} {guard : BitVec 32} {fuel : Nat} {acc : List Seg}
    (hnum : vq.num.toNat + 1 < 2 ^ 32) (hguard : guard.toNat ≤ vq.num.toNat + 1)
    (hfuel : vq.num.toNat + 1 < guard.toNat + fuel) :
    ((gatherLoop vq dt fuel idx guard acc).run s).1 ≠ .diverge := by
  induction fuel generalizing s idx guard acc with
  | zero => omega
  | succ fuel ih =>
    rw [gatherLoop_succ_run]
    dsimp only
    split
    · exact fun h => by cases h
    · rename_i hc
      simp only [not_or, BitVec.not_lt, BitVec.le_def] at hc
      split
      · exact fun h => by cases h
      · split
        · have hnext : (guard + 1).toNat = guard.toNat + 1 := by
            rw [BitVec.toNat_add]
            simp
            omega
          exact ih (by omega) (by omega)
        · exact fun h => by cases h

theorem gatherChain_ne_diverge {head : BitVec 16} (hnum : vq.num.toNat + 1 < 2 ^ 32) :
    ((gatherChain vq head).run s).1 ≠ .diverge := by
  unfold gatherChain
  rw [run_bind, run_get]
  dsimp only
  split
  · exact fun h => by cases h
  · exact gatherLoop_ne_diverge hnum (Nat.zero_le _) (by simp)

end MiniVirt.Vmm
