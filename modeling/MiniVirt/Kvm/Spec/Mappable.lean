import MiniVirt.Kvm.Spec.Custody
import MiniVirt.Kvm.Spec.TableCount
import Mathlib.Algebra.BigOperators.Group.Finset.Basic
import Mathlib.Data.Finset.Union
import Mathlib.Data.Finset.Range
import Mathlib.Order.Interval.Finset.Nat
import Mathlib.Tactic.IntervalCases

/-!
# Which memslots can be mapped as a whole

`mini_kvm_set_memregion()` tests the alignment of a region and no more, while the handler of EPT violations
adds base and size modulo 2^64 and takes every table page from `tracked[]`.  `fullyMappable_iff` says which
regions it can map whatever the order of the first touches is: those that end below 2^64 and need no more tables
than `tracked[]` has room for.
-/

namespace MiniVirt.Kvm

open RadixTable

namespace MiniKvmMemslot

/-- The page with the number `i`; addresses are computed modulo 2^64. -/
def gpa (slot : MiniKvmMemslot) (i : Nat) : BitVec 64 := slot.baseGpa + BitVec.ofNat 64 i <<< 12

/-- `g` is an address in a page of the memslot. -/
def InPage (slot : MiniKvmMemslot) (g : BitVec 64) : Prop :=
  ∃ i < slot.npages.toNat, g &&& pageMask = slot.gpa i

/-- How many aligned regions of `2^shift` bytes the memslot reaches into. -/
def regions (slot : MiniKvmMemslot) (shift : Nat) : Nat :=
  (slot.baseGpa.toNat + slot.npages.toNat * 4096 - 1) / 2 ^ shift - slot.baseGpa.toNat / 2 ^ shift + 1

/-- The memslot ends below 2^64, and `tracked[]` has room for its tables: one for each region of 512 GiB, of
1 GiB and of 2 MiB that it reaches into. -/
structure Fits (slot : MiniKvmMemslot) : Prop where
  noWrap : slot.baseGpa.toNat + slot.npages.toNat * 4096 < 2 ^ 64
  tables : slot.regions 39 + slot.regions 30 + slot.regions 21 ≤ miniKvmEptTrackMax

/-- What `mini_kvm_set_memregion()` makes sure of. -/
structure Accepted (slot : MiniKvmMemslot) : Prop where
  valid : slot.valid = true
  aligned : slot.baseGpa.toNat % 4096 = 0
  nonempty : 0 < slot.npages.toNat
  small : slot.npages.toNat < 2 ^ 52

end MiniKvmMemslot

/-- The last-level entry for `g`, if its tables are there. -/
def leafEntry (s : EptState) (g : BitVec 64) : Option (Pfn × Fin 512) := (miniEptWalk s g false).2

/-- In whatever order pages of the memslot are touched for the first time, every violation is handled, and two
pages never share a last-level entry. -/
def FullyMappable (s : St) : Prop :=
  ∀ gpas : List (BitVec 64), (∀ g ∈ gpas, s.kvm.slot.InPage g) → (gpas.map fun g : BitVec 64 => g >>> 12).Nodup →
    (∀ c ∈ ((eptViolations gpas).run s).1, c.2 = 0) ∧
      ∀ g g' e, s.kvm.slot.InPage g → s.kvm.slot.InPage g' →
        leafEntry ((eptViolations gpas).run s).2.eptState g = some e →
          leafEntry ((eptViolations gpas).run s).2.eptState g' = some e → g >>> 12 = g' >>> 12

/-! ### The accepted region -/

theorem pageAligned_toNat {x : BitVec 64} (h : pageAligned x = true) : x.toNat % 4096 = 0 := by
  have hsplit : x &&& pageMask = x := by
    have hzero : x &&& ~~~pageMask = 0 := of_decide_eq_true h
    ext i hi
    have hbit := congrArg (fun y => y.getLsbD i) hzero
    simp only [BitVec.getLsbD_and, BitVec.getLsbD_not, hi, BitVec.ofNat_eq_ofNat, BitVec.getLsbD_zero,
      decide_true, Bool.true_and] at hbit
    rw [BitVec.getElem_and, ← BitVec.getLsbD_eq_getElem, ← BitVec.getLsbD_eq_getElem]
    grind
  have := and_pageMask_toNat x
  rw [hsplit] at this
  omega

theorem miniKvmSetMemregion_accepted {k : KvmPtr} {o : MemregionCall} {w : Kernel}
    (h : ((miniKvmSetMemregion k o).run w).1 = 0) :
    (((miniKvmSetMemregion k o).run w).2.kvm k).kvm.slot.Accepted := by
  have hfail : ∀ r : Int, r ≠ 0 → ∀ s : Kernel, ((pure r : K Int).run s).1 = 0 → False := fun r hr s h => hr h
  unfold miniKvmSetMemregion at h ⊢
  cases hregion : o.region with
  | none =>
    rw [hregion] at h
    exact (hfail (-efault) (by decide) w h).elim
  | some region =>
    rw [hregion] at h
    dsimp only at h ⊢
    rw [run_ite] at h ⊢
    by_cases hslot : region.slot ≠ 0 ∨ region.flags ≠ 0
    · rw [if_pos hslot] at h
      exact (hfail (-einval) (by decide) _ h).elim
    rw [if_neg hslot, run_bind, touch_run, run_bind, run_get] at h ⊢
    dsimp only at h ⊢
    rw [run_ite] at h ⊢
    by_cases hvalid : ((w.log [.use (.kvm k)]).kvm k).kvm.slot.valid = true
    · rw [if_pos hvalid] at h
      exact (hfail (-eexist) (by decide) _ h).elim
    rw [if_neg hvalid, run_ite] at h ⊢
    by_cases hsize : region.memorySize = 0 ∨ (!pageAligned region.guestPhysAddr) = true ∨
        (!pageAligned region.userspaceAddr) = true ∨ (!pageAligned region.memorySize) = true
    · rw [if_pos hsize] at h
      exact (hfail (-einval) (by decide) _ h).elim
    rw [if_neg hsize] at h ⊢
    simp only [not_or, Bool.not_eq_true, Bool.not_eq_false'] at hsize
    cases harray : o.array with
    | none =>
      rw [harray] at h
      exact (hfail (-enomem) (by decide) _ h).elim
    | some a =>
      rw [harray] at h
      dsimp only at h ⊢
      rw [run_bind, take_run, run_bind, record_run, run_ite] at h ⊢
      by_cases hpinned : o.pinned ≠ (region.memorySize >>> 12).toNat
      · rw [if_pos hpinned, run_ite] at h
        split at h
        · exact (hfail (-efault) (by decide) _ h).elim
        · exact (hfail (-efault) (by decide) _ h).elim
      rw [if_neg hpinned, run_bind, record_run, run_bind, modifyKvm_run, run_pure]
      -- all checks have passed, so the size is a multiple of the page size and not 0
      have hbytes := pageAligned_toNat hsize.2.2.2
      have hpos : region.memorySize.toNat ≠ 0 := fun hzero => hsize.1 (BitVec.eq_of_toNat_eq hzero)
      have hlt := region.memorySize.isLt
      have hpages := page_toNat region.memorySize
      rw [Kernel.putKvm_kvm]
      exact ⟨rfl, pageAligned_toNat hsize.2.1, by dsimp only; omega, by dsimp only; omega⟩

/-! ### The pages of the memslot -/

namespace MiniKvmMemslot

variable {slot : MiniKvmMemslot}

theorem gpa_toNat (slot : MiniKvmMemslot) (i : Nat) :
    (slot.gpa i).toNat = (slot.baseGpa.toNat + i * 4096) % 2 ^ 64 := by
  unfold gpa
  rw [BitVec.toNat_add, BitVec.toNat_shiftLeft, BitVec.toNat_ofNat, Nat.shiftLeft_eq]
  omega

theorem gpa_toNat_of_noWrap (h : slot.baseGpa.toNat + slot.npages.toNat * 4096 < 2 ^ 64) {i : Nat}
    (hi : i < slot.npages.toNat) : (slot.gpa i).toNat = slot.baseGpa.toNat + i * 4096 := by
  have hle : i * 4096 ≤ slot.npages.toNat * 4096 := Nat.mul_le_mul_right 4096 hi.le
  rw [gpa_toNat]
  exact Nat.mod_eq_of_lt ((Nat.add_le_add_left hle _).trans_lt h)

theorem Accepted.inPage_gpa (h : slot.Accepted) {i : Nat} (hi : i < slot.npages.toNat) :
    slot.InPage (slot.gpa i) := by
  refine ⟨i, hi, ?_⟩
  have haligned := h.aligned
  rw [← BitVec.toNat_inj, and_pageMask_toNat, gpa_toNat]
  omega

/-- The pages of the memslot are different. -/
theorem Accepted.gpa_page_inj (h : slot.Accepted) {i j : Nat} (hi : i < slot.npages.toNat)
    (hj : j < slot.npages.toNat) (hij : slot.gpa i >>> 12 = slot.gpa j >>> 12) : i = j := by
  have haligned := h.aligned
  have hsmall := h.small
  rw [← BitVec.toNat_inj, page_toNat, page_toNat, gpa_toNat, gpa_toNat] at hij
  omega

theorem InPage.toNat_page {g : BitVec 64} (h : slot.InPage g) :
    ∃ i < slot.npages.toNat, g.toNat / 4096 = (slot.gpa i).toNat / 4096 := by
  obtain ⟨i, hi, hg⟩ := h
  refine ⟨i, hi, ?_⟩
  rw [← hg, and_pageMask_toNat]
  omega

/-- The test of the handler accepts all pages of a memslot that does not wrap around. -/
theorem Accepted.covers (h : slot.Accepted) (hwrap : slot.baseGpa.toNat + slot.npages.toNat * 4096 < 2 ^ 64)
    {g : BitVec 64} (hg : slot.InPage g) : slot.covers (g &&& pageMask) = true := by
  obtain ⟨i, hi, hgi⟩ := hg
  have haddr := gpa_toNat_of_noWrap hwrap hi
  have hend : (slot.baseGpa + slot.npages <<< 12).toNat = slot.baseGpa.toNat + slot.npages.toNat * 4096 := by
    rw [BitVec.toNat_add, BitVec.toNat_shiftLeft, Nat.shiftLeft_eq]
    omega
  rw [hgi]
  simp only [MiniKvmMemslot.covers, h.valid, BitVec.lt_def, BitVec.le_def, hend, haddr, Bool.true_and,
    Bool.and_eq_true, Bool.not_eq_true', decide_eq_false_iff_not]
  omega

/-- It does not accept the first page of a memslot that does. -/
theorem Accepted.not_covers (h : slot.Accepted)
    (hwrap : ¬ slot.baseGpa.toNat + slot.npages.toNat * 4096 < 2 ^ 64) :
    slot.covers (slot.gpa 0 &&& pageMask) = false := by
  have haligned := h.aligned
  have hsmall := h.small
  have hbase := slot.baseGpa.isLt
  have haddr : (slot.gpa 0 &&& pageMask).toNat = slot.baseGpa.toNat := by
    rw [and_pageMask_toNat, gpa_toNat]
    omega
  have hend : (slot.baseGpa + slot.npages <<< 12).toNat ≤ slot.baseGpa.toNat := by
    rw [BitVec.toNat_add, BitVec.toNat_shiftLeft, Nat.shiftLeft_eq]
    omega
  simp only [MiniKvmMemslot.covers, BitVec.lt_def, BitVec.le_def, haddr, Bool.and_eq_false_iff,
    Bool.not_eq_false', decide_eq_true_eq]
  exact .inr hend

/-! ### Its tables -/

/-- The paths of the tables below the root that the pages of the memslot need. -/
def tablePaths (slot : MiniKvmMemslot) : Finset (List (Fin 512)) :=
  (Finset.Icc 1 3).biUnion fun n =>
    (Finset.range slot.npages.toNat).image fun i => (eptPath (slot.gpa i)).take n

theorem mem_tablePaths {q : List (Fin 512)} :
    q ∈ slot.tablePaths ↔ ∃ i < slot.npages.toNat, q <+: eptPath (slot.gpa i) ∧ q ≠ [] := by
  simp only [tablePaths, Finset.mem_biUnion, Finset.mem_Icc, Finset.mem_image, Finset.mem_range]
  constructor
  · rintro ⟨n, hn, i, hi, rfl⟩
    refine ⟨i, hi, List.take_prefix .., ?_⟩
    rw [← List.length_pos_iff, List.length_take]
    show 0 < min n 3
    omega
  · rintro ⟨i, hi, hq, hne⟩
    have hlen : q.length ≤ 3 := hq.length_le
    have hpos := List.length_pos_iff.2 hne
    exact ⟨q.length, ⟨hpos, hlen⟩, i, hi, (List.prefix_iff_eq_take.1 hq).symm⟩

/-- Addresses in one region need the same table. -/
theorem eptPath_take_congr {g g' : BitVec 64} {n : Nat} (hn : n ∈ Finset.Icc 1 3)
    (h : g.toNat / 2 ^ (48 - 9 * n) = g'.toNat / 2 ^ (48 - 9 * n)) :
    (eptPath g).take n = (eptPath g').take n := by
  obtain ⟨hlow, hhigh⟩ := Finset.mem_Icc.1 hn
  interval_cases n <;>
  · simp only [eptPath, List.map_cons, List.map_nil, List.take_succ_cons, List.take_zero, List.cons.injEq,
      and_true, Fin.ext_iff, eptIndex_val] at h ⊢
    omega

/-- Addresses with the same table are in one region, up to the bits that the walk does not use. -/
theorem region_eq_of_eptPath_take {g g' : BitVec 64} {n : Nat} (hn : n ∈ Finset.Icc 1 3)
    (h : (eptPath g).take n = (eptPath g').take n) :
    g.toNat / 2 ^ (48 - 9 * n) % 2 ^ (9 * n) = g'.toNat / 2 ^ (48 - 9 * n) % 2 ^ (9 * n) := by
  obtain ⟨hlow, hhigh⟩ := Finset.mem_Icc.1 hn
  interval_cases n <;>
  · simp only [eptPath, List.map_cons, List.map_nil, List.take_succ_cons, List.take_zero, List.cons.injEq,
      and_true, Fin.ext_iff, eptIndex_val] at h
    omega

/-- The tables of one level. -/
def tablesOfLevel (slot : MiniKvmMemslot) (n : Nat) : Finset (List (Fin 512)) :=
  (Finset.range slot.npages.toNat).image fun i => (eptPath (slot.gpa i)).take n

theorem card_tablesOfLevel_le (hwrap : slot.baseGpa.toNat + slot.npages.toNat * 4096 < 2 ^ 64) {n : Nat}
    (hn : n ∈ Finset.Icc 1 3) : (slot.tablesOfLevel n).card ≤ slot.regions (48 - 9 * n) := by
  let table (r : Nat) : List (Fin 512) := (eptPath (BitVec.ofNat 64 (r * 2 ^ (48 - 9 * n)))).take n
  let lo := slot.baseGpa.toNat / 2 ^ (48 - 9 * n)
  let hi := (slot.baseGpa.toNat + slot.npages.toNat * 4096 - 1) / 2 ^ (48 - 9 * n)
  have hsub : slot.tablesOfLevel n ⊆ (Finset.Icc lo hi).image table := by
    intro q hq
    obtain ⟨i, hi', rfl⟩ := Finset.mem_image.1 hq
    rw [Finset.mem_range] at hi'
    have haddr := gpa_toNat_of_noWrap hwrap hi'
    refine Finset.mem_image.2 ⟨(slot.gpa i).toNat / 2 ^ (48 - 9 * n), Finset.mem_Icc.2 ⟨?_, ?_⟩, ?_⟩
    · exact Nat.div_le_div_right (by omega)
    · exact Nat.div_le_div_right (by omega)
    · refine eptPath_take_congr hn ?_
      have hle := Nat.div_mul_le_self (slot.gpa i).toNat (2 ^ (48 - 9 * n))
      have hlt := (slot.gpa i).isLt
      rw [BitVec.toNat_ofNat, Nat.mod_eq_of_lt (by omega), Nat.mul_div_cancel _ (by positivity)]
  calc (slot.tablesOfLevel n).card ≤ ((Finset.Icc lo hi).image table).card := Finset.card_le_card hsub
    _ ≤ (Finset.Icc lo hi).card := Finset.card_image_le
    _ = hi + 1 - lo := Nat.card_Icc lo hi
    _ ≤ slot.regions (48 - 9 * n) := by
      unfold regions
      omega

/-- As many tables of one level are needed as there are regions, if the level can tell them apart. -/
theorem le_card_tablesOfLevel (h : slot.Accepted)
    (hwrap : slot.baseGpa.toNat + slot.npages.toNat * 4096 < 2 ^ 64) {n : Nat} (hn : n ∈ Finset.Icc 1 3) {m : Nat}
    (hm : m ≤ slot.regions (48 - 9 * n)) (hbits : m ≤ 2 ^ (9 * n)) : m ≤ (slot.tablesOfLevel n).card := by
  obtain ⟨hlow, hhigh⟩ := Finset.mem_Icc.1 hn
  have haligned := h.aligned
  have hnonempty := h.nonempty
  obtain ⟨d, hd⟩ : 4096 ∣ 2 ^ (48 - 9 * n) := by
    rw [show 4096 = 2 ^ 12 from rfl]
    exact Nat.pow_dvd_pow 2 (by omega)
  have hpos : 0 < 2 ^ (48 - 9 * n) := by positivity
  let lo := slot.baseGpa.toNat / 2 ^ (48 - 9 * n)
  -- the first address of the memslot in the region `lo + j`
  let addr (j : Nat) : Nat := max slot.baseGpa.toNat ((lo + j) * 2 ^ (48 - 9 * n))
  have hregion : ∀ j, addr j / 2 ^ (48 - 9 * n) = lo + j := by
    intro j
    rcases Nat.le_total slot.baseGpa.toNat ((lo + j) * 2 ^ (48 - 9 * n)) with hle | hle
    · show max _ _ / _ = _
      rw [max_eq_right hle, Nat.mul_div_cancel _ hpos]
    · show max _ _ / _ = _
      rw [max_eq_left hle]
      have := (Nat.le_div_iff_mul_le hpos).2 hle
      show lo = lo + j
      omega
  have hpage : ∀ j < m, ∃ i < slot.npages.toNat, (slot.gpa i).toNat = addr j := by
    intro j hj
    have hlast : (lo + j) * 2 ^ (48 - 9 * n) ≤ slot.baseGpa.toNat + slot.npages.toNat * 4096 - 1 := by
      have hle : lo ≤ (slot.baseGpa.toNat + slot.npages.toNat * 4096 - 1) / 2 ^ (48 - 9 * n) :=
        Nat.div_le_div_right (by omega)
      rw [← Nat.le_div_iff_mul_le hpos]
      unfold regions at hm
      omega
    have hmul : (lo + j) * 2 ^ (48 - 9 * n) = 4096 * ((lo + j) * d) := by
      rw [hd, Nat.mul_left_comm]
    have haddr : addr j = max slot.baseGpa.toNat (4096 * ((lo + j) * d)) := by rw [← hmul]
    rw [hmul] at hlast
    refine ⟨(addr j - slot.baseGpa.toNat) / 4096, ?_, ?_⟩
    · omega
    · rw [gpa_toNat_of_noWrap hwrap (by omega)]
      omega
  choose! page hpage_lt hpage_addr using hpage
  refine Finset.le_card_of_inj_on_range (fun j => (eptPath (slot.gpa (page j))).take n) ?_ ?_
  · intro j hj
    exact Finset.mem_image_of_mem _ (Finset.mem_range.2 (hpage_lt j hj))
  · intro i hi j hj hij
    have hmod := region_eq_of_eptPath_take hn hij
    rw [hpage_addr i hi, hpage_addr j hj, hregion, hregion] at hmod
    have := Nat.ModEq.add_left_cancel' lo hmod
    rwa [Nat.ModEq, Nat.mod_eq_of_lt (by omega), Nat.mod_eq_of_lt (by omega)] at this

theorem mem_tablesOfLevel_length {n : Nat} (hn : n ∈ Finset.Icc 1 3) {q : List (Fin 512)}
    (hq : q ∈ slot.tablesOfLevel n) : q.length = n := by
  obtain ⟨i, -, rfl⟩ := Finset.mem_image.1 hq
  obtain ⟨hlow, hhigh⟩ := Finset.mem_Icc.1 hn
  rw [List.length_take]
  show min n 3 = n
  omega

theorem card_tablePaths : slot.tablePaths.card =
    (slot.tablesOfLevel 1).card + (slot.tablesOfLevel 2).card + (slot.tablesOfLevel 3).card := by
  have hdisjoint : ((Finset.Icc 1 3 : Finset Nat) : Set Nat).PairwiseDisjoint slot.tablesOfLevel := by
    intro n hn n' hn' hne
    refine Finset.disjoint_left.2 fun q hq hq' => hne ?_
    rw [← mem_tablesOfLevel_length hn hq, ← mem_tablesOfLevel_length hn' hq']
  have hlevels : (Finset.Icc 1 3 : Finset Nat) = {1, 2, 3} := by decide
  show (Finset.biUnion _ slot.tablesOfLevel).card = _
  rw [Finset.card_biUnion hdisjoint, hlevels, Finset.sum_insert (by decide), Finset.sum_insert (by decide),
    Finset.sum_singleton, Nat.add_assoc]

/-- The tables that the memslot needs fit into `tracked[]` iff the regions do. -/
theorem card_tablePaths_le_iff (h : slot.Accepted)
    (hwrap : slot.baseGpa.toNat + slot.npages.toNat * 4096 < 2 ^ 64) :
    slot.tablePaths.card ≤ miniKvmEptTrackMax ↔
      slot.regions 39 + slot.regions 30 + slot.regions 21 ≤ miniKvmEptTrackMax := by
  have hle₁ : _ ≤ slot.regions 39 := card_tablesOfLevel_le hwrap (n := 1) (by decide)
  have hle₂ : _ ≤ slot.regions 30 := card_tablesOfLevel_le hwrap (n := 2) (by decide)
  have hle₃ : _ ≤ slot.regions 21 := card_tablesOfLevel_le hwrap (n := 3) (by decide)
  rw [card_tablePaths]
  constructor
  · intro hcard
    unfold miniKvmEptTrackMax at hcard
    -- more than 1024 regions of 2 MiB would need more than 1024 tables
    have hfew : slot.regions 21 ≤ 1024 := by
      by_contra hmany
      have hlevel : 1025 ≤ slot.regions (48 - 9 * 3) := Nat.not_le.1 hmany
      have := le_card_tablesOfLevel h hwrap (n := 3) (by decide) hlevel (by decide)
      omega
    have haligned := h.aligned
    have hnonempty := h.nonempty
    have hcoarse : slot.regions 30 ≤ slot.regions 21 ∧ slot.regions 39 ≤ 512 := by
      unfold regions at hfew ⊢
      omega
    have hge₁ : slot.regions 39 ≤ _ := le_card_tablesOfLevel h hwrap (n := 1) (by decide) le_rfl (by omega)
    have hge₂ : slot.regions 30 ≤ _ := le_card_tablesOfLevel h hwrap (n := 2) (by decide) le_rfl (by omega)
    have hge₃ : slot.regions 21 ≤ _ := le_card_tablesOfLevel h hwrap (n := 3) (by decide) le_rfl (by omega)
    unfold miniKvmEptTrackMax
    omega
  · intro hregions
    omega

end MiniKvmMemslot

/-! ### Walks that allocate nothing -/

theorem eptNextTable_lookup (s : EptState) (table : Pfn) (i : Fin 512) :
    eptNextTable s table i false = (s, eptChild (s.mem table i)) := by
  unfold eptNextTable eptChild
  by_cases hr : s.mem table i &&& eptPteRead = 0
  · rw [if_pos hr, if_pos hr]
    rfl
  · rw [if_neg hr, if_neg hr]

theorem eptWalkTables_lookup (gpa : BitVec 64) (shifts : List Nat) (s : EptState) (table : Pfn) :
    eptWalkTables gpa false shifts s table =
      (s, RadixTable.walk eptChild s.mem table (shifts.map (eptIndex gpa))) := by
  induction shifts generalizing table with
  | nil => rfl
  | cons shift shifts ih =>
    rw [eptWalkTables, eptNextTable_lookup, List.map_cons, walk_cons]
    cases eptChild (s.mem table (eptIndex gpa shift)) with
    | none => rfl
    | some b => exact ih b

theorem leafEntry_eq (s : EptState) (g : BitVec 64) :
    leafEntry s g = (s.walk (eptPath g)).map fun t => (t, eptIndex g 12) := by
  unfold leafEntry miniEptWalk
  rw [eptWalkTables_lookup]
  show _ = (RadixTable.walk eptChild s.mem s.ept.pml4 ([39, 30, 21].map (eptIndex g))).map _
  cases RadixTable.walk eptChild s.mem s.ept.pml4 ([39, 30, 21].map (eptIndex g)) <;> rfl

/-- Two addresses with one last-level entry agree in their bits 47:12. -/
theorem EptInv.page_eq_of_leafEntry {s : EptState} (h : EptInv s) {g g' : BitVec 64} {e : Pfn × Fin 512}
    (hg : leafEntry s g = some e) (hg' : leafEntry s g' = some e) :
    g.toNat / 4096 % 2 ^ 36 = g'.toNat / 4096 % 2 ^ 36 := by
  rw [leafEntry_eq, Option.map_eq_some_iff] at hg hg'
  obtain ⟨t, ht, rfl⟩ := hg
  obtain ⟨t', ht', heq⟩ := hg'
  obtain ⟨rfl, hindex⟩ := Prod.mk.inj heq
  have hpath := h.separated le_rfl le_rfl ht ht'
  simp only [eptPath, List.map_cons, List.map_nil, List.cons.injEq, and_true, Fin.ext_iff,
    eptIndex_val] at hpath hindex
  omega

/-! ### Runs of violations -/

/-- No table is there when `mini_ept_init()` has returned. -/
theorem TablesAt.init {m : PageMem} {pml4 : Pfn} {s : St}
    (hinit : miniEptInit m (some pml4) = .ok (s.hw.mem, s.kvm.ept)) {supply : List Pfn}
    (hallocs : s.allocs = supply.map some) (hsupply : (pml4 :: supply).Nodup)
    (henough : miniKvmEptTrackMax ≤ supply.length) : TablesAt s.eptState ∅ := by
  have hreduce : s.allocs.reduceOption = supply := by
    rw [hallocs, List.reduceOption, List.filterMap_map]
    exact List.filterMap_some
  obtain ⟨hmem, hept⟩ := Prod.mk.inj (Except.ok.inj hinit)
  have htracked : s.eptState.ept.tracked = [] := congrArg MiniKvmEpt.tracked hept.symm
  have hpml4 : s.eptState.ept.pml4 = pml4 := congrArg MiniKvmEpt.pml4 hept.symm
  refine ⟨(EptRepr.init s.kvm.slot hinit (by rwa [hreduce])).inv, fun q => ?_, ?_, ?_, ?_, ?_⟩
  · refine iff_of_false (Finset.notMem_empty q) ?_
    rintro ⟨hne, -, hsome⟩
    cases q with
    | nil => exact hne rfl
    | cons i q =>
      have hentry : s.eptState.mem s.eptState.ept.pml4 i = 0 := by
        rw [hpml4, St.eptState, ← hmem]
        exact fillPage_self
      rw [EptState.walk, walk_cons, hentry, eptChild_zero] at hsome
      exact absurd hsome (by simp)
  · rw [htracked]
    rfl
  · rw [htracked]
    exact Nat.zero_le _
  · intro a ha
    have ha' : a ∈ supply.map some := hallocs ▸ ha
    obtain ⟨page, -, rfl⟩ := List.mem_map.1 ha'
    rfl
  · rw [htracked]
    show miniKvmEptTrackMax ≤ 0 + s.allocs.length
    rw [hallocs, List.length_map, Nat.zero_add]
    exact henough

/-- `q` is the path of a table below the root for one of the addresses. -/
def OnPath (gpas : List (BitVec 64)) (q : List (Fin 512)) : Prop := ∃ g ∈ gpas, q <+: eptPath g ∧ q ≠ []

/-- What handled violations do to the tables; `ok` says that all calls have returned 0. -/
structure AllWalked (S S' : Finset (List (Fin 512))) (gpas : List (BitVec 64)) (ok : Prop) : Prop where
  grows : S ⊆ S'
  new : ∀ q ∈ S', q ∈ S ∨ OnPath gpas q
  found : ok → ∀ q, OnPath gpas q → q ∈ S'
  full : ¬ ok → miniKvmEptTrackMax ≤ S'.card ∧ ∃ q, OnPath gpas q ∧ q ∉ S'

theorem TablesAt.card_le {s : EptState} {S : Finset (List (Fin 512))} (h : TablesAt s S) :
    S.card ≤ miniKvmEptTrackMax := by
  rw [h.card]
  exact h.le

theorem TablesAt.run {slot : MiniKvmMemslot} {gpas : List (BitVec 64)}
    (hcov : ∀ g ∈ gpas, slot.covers (g &&& pageMask) = true) {s : St} {p : Phys} (hcur : s.current = some p)
    (hs : s.kvm.slot = slot) {S : Finset (List (Fin 512))} (h : TablesAt s.eptState S) :
    ∃ S', TablesAt ((eptViolations gpas).run s).2.eptState S' ∧
      AllWalked S S' gpas (∀ c ∈ ((eptViolations gpas).run s).1, c.2 = 0) := by
  induction gpas generalizing s S with
  | nil =>
    refine ⟨S, h, fun q hq => hq, fun q hq => .inl hq, ?_, fun hne => absurd (fun c hc => ?_) hne⟩
    · rintro - q ⟨g, hg, -⟩
      exact absurd hg List.not_mem_nil
    · exact absurd hc List.not_mem_nil
  | cons gpa gpas ih =>
    have hone := eptViolation_run hcur gpa
    have hstep := h.eptHandleViolation (hcov gpa List.mem_cons_self)
    obtain ⟨he, hs₁, hcur₁⟩ := hone
    have hwalked : ∃ S₁, TablesAt ((eptViolation gpa).run s).2.eptState S₁ ∧
        Walked S S₁ [] (eptPath gpa) (((eptViolation gpa).run s).1 == 0) := by
      rw [← hs, he] at hstep
      exact hstep
    obtain ⟨S₁, h₁, hw⟩ := hwalked
    obtain ⟨S', h', hrest⟩ := ih (fun g hg => hcov g (List.mem_cons_of_mem _ hg)) (hcur₁.trans hcur)
      (hs₁.trans hs) h₁
    have hhead : ∀ q, q <+: eptPath gpa ∧ q ≠ [] → OnPath (gpa :: gpas) q := fun q hq =>
      ⟨gpa, List.mem_cons_self, hq⟩
    have htail : ∀ q, OnPath gpas q → OnPath (gpa :: gpas) q := by
      rintro q ⟨g, hg, hq⟩
      exact ⟨g, List.mem_cons_of_mem _ hg, hq⟩
    have hlog : (∀ c ∈ ((eptViolations (gpa :: gpas)).run s).1, c.2 = 0) ↔
        ((eptViolation gpa).run s).1 = 0 ∧
          ∀ c ∈ ((eptViolations gpas).run ((eptViolation gpa).run s).2).1, c.2 = 0 := by
      exact List.forall_mem_cons
    refine ⟨S', h', fun q hq => hrest.grows (hw.grows hq), ?_, ?_, ?_⟩
    · intro q hq
      rcases hrest.new q hq with hq | hq
      · exact (hw.new q hq).imp_right (hhead q)
      · exact .inr (htail q hq)
    · rw [hlog]
      rintro ⟨hzero, hall⟩ q ⟨g, hg, hq, hne⟩
      rcases List.mem_cons.1 hg with rfl | hg
      · exact hrest.grows (hw.found (by rw [hzero]; rfl) q hq (List.length_pos_iff.2 hne))
      · exact hrest.found hall q ⟨g, hg, hq, hne⟩
    · rw [hlog, not_and_or]
      rintro (hne | hne)
      · -- the table that is missing now stays missing, since `tracked[]` is full
        obtain ⟨hfull, q, hq, hne, hqS⟩ := hw.full (beq_false_of_ne hne)
        have hsame : S₁ = S' := Finset.eq_of_subset_of_card_le hrest.grows (h'.card_le.trans hfull)
        exact ⟨hsame ▸ hfull, q, hhead q ⟨hq, hne⟩, hsame ▸ hqS⟩
      · obtain ⟨hfull, q, hq, hqS⟩ := hrest.full hne
        exact ⟨hfull, q, htail q hq, hqS⟩

/-! ### The result -/

section Result

variable {s : St} {p : Phys} (hslot : s.kvm.slot.Accepted) (hcur : s.current = some p)
  (htables : TablesAt s.eptState ∅)

include hslot

theorem MiniKvmMemslot.Fits.page_eq (hfits : s.kvm.slot.Fits) {g g' : BitVec 64} (hg : s.kvm.slot.InPage g)
    (hg' : s.kvm.slot.InPage g') (hlow : g.toNat / 4096 % 2 ^ 36 = g'.toNat / 4096 % 2 ^ 36) :
    g >>> 12 = g' >>> 12 := by
  obtain ⟨i, hi, hgi⟩ := hg.toNat_page
  obtain ⟨j, hj, hgj⟩ := hg'.toNat_page
  have hregions := hfits.tables
  have hwrap := hfits.noWrap
  have haligned := hslot.aligned
  rw [MiniKvmMemslot.gpa_toNat_of_noWrap hwrap hi] at hgi
  rw [MiniKvmMemslot.gpa_toNat_of_noWrap hwrap hj] at hgj
  unfold miniKvmEptTrackMax MiniKvmMemslot.regions at hregions
  rw [← BitVec.toNat_inj, page_toNat, page_toNat]
  omega

include hcur htables

theorem FullyMappable.of_fits (hfits : s.kvm.slot.Fits) : FullyMappable s := by
  intro gpas hgpas _
  obtain ⟨S', h', hw⟩ := TablesAt.run (fun g hg => hslot.covers hfits.noWrap (hgpas g hg)) hcur rfl htables
  have honPath : ∀ q, OnPath gpas q → q ∈ s.kvm.slot.tablePaths := by
    rintro q ⟨g, hg, hq, hne⟩
    obtain ⟨i, hi, hgi⟩ := hgpas g hg
    rw [← eptPath_and_pageMask, hgi] at hq
    exact MiniKvmMemslot.mem_tablePaths.2 ⟨i, hi, hq, hne⟩
  refine ⟨?_, fun g g' e hg hg' he he' => ?_⟩
  · by_contra hfail
    obtain ⟨hfull, q, hq, hqS⟩ := hw.full hfail
    have hsub : S' ⊆ s.kvm.slot.tablePaths := fun q hq =>
      honPath q ((hw.new q hq).resolve_left (Finset.notMem_empty q))
    -- the table that is missing is one more than `tracked[]` holds
    have hlt := Finset.card_lt_card (Finset.ssubset_iff_subset_ne.2 ⟨hsub, fun h => hqS (h ▸ honPath q hq)⟩)
    have hle := (MiniKvmMemslot.card_tablePaths_le_iff hslot hfits.noWrap).2 hfits.tables
    omega
  · exact hfits.page_eq hslot hg hg' (h'.inv.page_eq_of_leafEntry he he')

theorem FullyMappable.fits (h : FullyMappable s) : s.kvm.slot.Fits := by
  have hwrap : s.kvm.slot.baseGpa.toNat + s.kvm.slot.npages.toNat * 4096 < 2 ^ 64 := by
    by_contra hwrap
    have hfirst := (h [s.kvm.slot.gpa 0] (List.forall_mem_singleton.2 (hslot.inPage_gpa hslot.nonempty))
      (List.nodup_singleton _)).1
    have hzero : ((eptViolation (s.kvm.slot.gpa 0)).run s).1 = 0 := hfirst _ List.mem_cons_self
    have hcall : (eptHandleViolation s.kvm.slot s.eptState (s.kvm.slot.gpa 0)).2 =
        ((eptViolation (s.kvm.slot.gpa 0)).run s).1 :=
      congrArg Prod.snd (eptViolation_run hcur (s.kvm.slot.gpa 0)).1
    unfold eptHandleViolation at hcall
    dsimp only at hcall
    rw [hslot.not_covers hwrap, Bool.not_false, if_pos rfl] at hcall
    have hefault : -efault = 0 := hcall.trans hzero
    exact absurd hefault (by decide)
  refine ⟨hwrap, (MiniKvmMemslot.card_tablePaths_le_iff hslot hwrap).1 ?_⟩
  -- all pages, in ascending order
  let gpas := (List.range s.kvm.slot.npages.toNat).map s.kvm.slot.gpa
  have hgpas : ∀ g ∈ gpas, s.kvm.slot.InPage g := by
    intro g hg
    obtain ⟨i, hi, rfl⟩ := List.mem_map.1 hg
    exact hslot.inPage_gpa (List.mem_range.1 hi)
  have hnodup : (gpas.map fun g : BitVec 64 => g >>> 12).Nodup := by
    rw [List.map_map]
    refine List.Nodup.map_on (fun i hi j hj hij => ?_) List.nodup_range
    exact hslot.gpa_page_inj (List.mem_range.1 hi) (List.mem_range.1 hj) hij
  obtain ⟨S', h', hw⟩ := TablesAt.run (fun g hg => hslot.covers hwrap (hgpas g hg)) hcur rfl htables
  have hsub : s.kvm.slot.tablePaths ⊆ S' := by
    intro q hq
    obtain ⟨i, hi, hq, hne⟩ := MiniKvmMemslot.mem_tablePaths.1 hq
    exact hw.found (h gpas hgpas hnodup).1 q
      ⟨s.kvm.slot.gpa i, List.mem_map_of_mem (List.mem_range.2 hi), hq, hne⟩
  exact (Finset.card_le_card hsub).trans h'.card_le

end Result

/-- The memslot of an accepted region can be mapped as a whole iff it ends below 2^64 and its tables fit
into `tracked[]`. -/
theorem fullyMappable_iff (w : Kernel) (k : KvmPtr) (o : MemregionCall)
    (haccepted : ((miniKvmSetMemregion k o).run w).1 = 0) (m : PageMem) (pml4 : Pfn) (s : St) (p : Phys)
    (hslot : s.kvm.slot = (((miniKvmSetMemregion k o).run w).2.kvm k).kvm.slot)
    (hinit : miniEptInit m (some pml4) = .ok (s.hw.mem, s.kvm.ept)) (hcur : s.current = some p)
    (supply : List Pfn) (hallocs : s.allocs = supply.map some) (hsupply : (pml4 :: supply).Nodup)
    (henough : miniKvmEptTrackMax ≤ supply.length) : FullyMappable s ↔ s.kvm.slot.Fits := by
  have hacc : s.kvm.slot.Accepted := hslot ▸ miniKvmSetMemregion_accepted haccepted
  have htables := TablesAt.init hinit hallocs hsupply henough
  exact ⟨FullyMappable.fits hacc hcur htables, FullyMappable.of_fits hacc hcur htables⟩

/-- KVM_SET_USER_MEMORY_REGION for a region of `size` bytes at 0; all pages are pinned. -/
def regionAt0 (size : BitVec 64) : MemregionCall where
  region := some ⟨0, 0, 0, size, 0x7f0000000000⟩
  array := some 0
  pinned := (size >>> 12).toNat
  pages i := BitVec.ofNat 40 (0x10000 + i)

def tableSupply : List Pfn := (List.range 1024).map fun i => BitVec.ofNat 40 (i + 2)

theorem tableSupply_nodup : ((1 : Pfn) :: tableSupply).Nodup := by
  refine List.nodup_cons.2 ⟨?_, List.Nodup.map_on ?_ List.nodup_range⟩
  · intro hmem
    obtain ⟨i, hi, heq⟩ := List.mem_map.1 hmem
    have hone : (1 : Pfn).toNat = 1 := rfl
    have := congrArg BitVec.toNat heq
    rw [BitVec.toNat_ofNat, hone] at this
    have := List.mem_range.1 hi
    omega
  · intro i hi j hj hij
    have := congrArg BitVec.toNat hij
    rw [BitVec.toNat_ofNat, BitVec.toNat_ofNat] at this
    have := List.mem_range.1 hi
    have := List.mem_range.1 hj
    omega

/-- The VM with this memslot before its guest touches memory. -/
def untouchedVm (size : BitVec 64) : St :=
  { (default : St) with
    hw := { World.bootHw with
      cpu := fun _ => ⟨true, true, some 0x5000, fun _ => false, 0, default⟩
      mem := PageMem.zeroPage (fun _ _ => 0) 1 }
    kvm := {
      slot := (((miniKvmSetMemregion 0 (regionAt0 size)).run Kernel.loaded).2.kvm 0).kvm.slot
      ept := ⟨1, pageToPhys 1 ||| vmxEptpMtWb ||| vmxEptpPwl4, []⟩
      serial := [] }
    allocs := tableSupply.map some }

theorem untouchedVm_allocs (size : BitVec 64) : (untouchedVm size).allocs = tableSupply.map some := by
  simp only [untouchedVm]

theorem tableSupply_length : tableSupply.length = miniKvmEptTrackMax := by
  rw [tableSupply, List.length_map, List.length_range]
  rfl

theorem fullyMappable_iff_small :
    FullyMappable (untouchedVm 0x10000) ↔ (untouchedVm 0x10000).kvm.slot.Fits :=
  fullyMappable_iff Kernel.loaded 0 (regionAt0 0x10000) (by decide +kernel) (fun _ _ => 0) 1
    (untouchedVm 0x10000) 0x5000 rfl rfl rfl
    tableSupply (untouchedVm_allocs _) tableSupply_nodup tableSupply_length.ge

/-- 2 GiB of memory at 0 need 1024 page tables, two page directories and a directory pointer table. -/
theorem not_fullyMappable :
    ((miniKvmSetMemregion 0 (regionAt0 0x80000000)).run Kernel.loaded).1 = 0 ∧
      ¬ FullyMappable (untouchedVm 0x80000000) := by
  have haccepted : ((miniKvmSetMemregion 0 (regionAt0 0x80000000)).run Kernel.loaded).1 = 0 := by
    decide +kernel
  have hinit : miniEptInit (fun _ _ => 0) (some 1) =
      .ok ((untouchedVm 0x80000000).hw.mem, (untouchedVm 0x80000000).kvm.ept) := rfl
  have htables : TablesAt (untouchedVm 0x80000000).eptState ∅ :=
    TablesAt.init hinit (untouchedVm_allocs _) tableSupply_nodup tableSupply_length.ge
  refine ⟨haccepted, fun h => ?_⟩
  have hfits := FullyMappable.fits (miniKvmSetMemregion_accepted haccepted) (p := 0x5000) rfl htables h
  exact absurd hfits.tables (by decide)

end MiniVirt.Kvm
