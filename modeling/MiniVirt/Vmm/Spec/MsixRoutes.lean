import MiniVirt.Vmm.Spec.Msix

/-!
# The routing table that KVM has

`handle_pt_mmio()` passes the routing on when a write starts in the address or the data of an entry.  A
write that starts in Vector Control may end in the address of the next entry: the routing that KVM has is
the one of the shadow table exactly as long as no such write changes the address
(`routing_reflects_iff`).
-/

namespace MiniVirt.Vmm

namespace Vf

variable {vf vf' : Vf}

/-! ### The routing of the shadow table -/

/-- The MSI entry of vector `v`. -/
def entryRoute (vf : Vf) (v : Nat) : RouteEntry :=
  .msi (msixGsiBase + v) (vf.addrLo v) (vf.addrHi v) (vf.msgData v)

/-- The default entries, and an entry for every vector that has an address. -/
def expectedRoutes (vf : Vf) : List RouteEntry :=
  defaultRoutes ++ ((List.range vf.msixNr).filter fun v => ¬vf.Unprogrammed v).map vf.entryRoute

/-- KVM has the routing of the shadow table. -/
def Reflects (vf : Vf) : Prop := vf.routing = some vf.expectedRoutes

instance (vf : Vf) : Decidable vf.Reflects := inferInstanceAs (Decidable (_ = _))

theorem filterMap_msiRoute_eq (vf : Vf) (l : List Nat) :
    l.filterMap vf.msiRoute = (l.filter fun v => ¬vf.Unprogrammed v).map vf.entryRoute := by
  induction l with
  | nil => rfl
  | cons v l ih =>
    by_cases h : vf.Unprogrammed v
    · have hroute : vf.msiRoute v = none := if_pos h
      rw [List.filterMap_cons_none hroute, ih, List.filter_cons_of_neg (by simpa using h)]
    · have hroute : vf.msiRoute v = some (vf.entryRoute v) := if_neg h
      rw [List.filterMap_cons_some hroute, ih, List.filter_cons_of_pos (by simpa using h), List.map_cons]

theorem defaultRoutes_append (h : vf.msixNr ≤ 32) :
    defaultRoutes ++ (List.range vf.nr).filterMap vf.msiRoute = vf.expectedRoutes := by
  have hnr : vf.nr = vf.msixNr := if_neg (by omega)
  rw [filterMap_msiRoute_eq, hnr]
  rfl

theorem expectedRoutes_congr (hnr : vf'.msixNr = vf.msixNr)
    (h : ∀ v, vf'.addrLo v = vf.addrLo v ∧ vf'.addrHi v = vf.addrHi v ∧ vf'.msgData v = vf.msgData v) :
    vf'.expectedRoutes = vf.expectedRoutes := by
  have hroute : vf'.msiRoute = vf.msiRoute := funext fun v => msiRoute_congr (h v).1 (h v).2.1 (h v).2.2
  unfold expectedRoutes
  rw [← filterMap_msiRoute_eq, ← filterMap_msiRoute_eq, hroute, hnr]

/-- The expected entries determine the addresses. -/
theorem addr_of_expectedRoutes (hnr : vf'.msixNr = vf.msixNr) (h : vf'.expectedRoutes = vf.expectedRoutes)
    {v : Nat} (hv : v < vf.msixNr) : vf'.addrLo v = vf.addrLo v ∧ vf'.addrHi v = vf.addrHi v := by
  have hmem : ∀ w : Vf, v < w.msixNr → (¬w.Unprogrammed v ↔
      w.entryRoute v ∈ ((List.range w.msixNr).filter fun v => ¬w.Unprogrammed v).map w.entryRoute) := by
    intro w hw
    simp only [List.mem_map, List.mem_filter, List.mem_range, decide_eq_true_eq]
    constructor
    · exact fun hne => ⟨v, ⟨hw, hne⟩, rfl⟩
    · rintro ⟨u, ⟨-, hne⟩, heq⟩
      have hu : u = v := by
        have := (RouteEntry.msi.inj heq).1
        omega
      exact hu ▸ hne
  have hval : ∀ w w' : Vf, w.entryRoute v ∈
      ((List.range w'.msixNr).filter fun v => ¬w'.Unprogrammed v).map w'.entryRoute →
      w.addrLo v = w'.addrLo v ∧ w.addrHi v = w'.addrHi v := by
    intro w w' hin
    obtain ⟨u, -, heq⟩ := List.mem_map.1 hin
    obtain ⟨hgsi, hlo, hhi, -⟩ := RouteEntry.msi.inj heq
    obtain rfl : u = v := by omega
    exact ⟨hlo.symm, hhi.symm⟩
  have hlist := List.append_cancel_left h
  by_cases hp : vf.Unprogrammed v
  · by_cases hp' : vf'.Unprogrammed v
    · exact ⟨hp'.1.trans hp.1.symm, hp'.2.trans hp.2.symm⟩
    · have hin := (hmem vf' (hnr ▸ hv)).1 hp'
      rw [hlist] at hin
      exact hval vf' vf hin
  · have hin := (hmem vf hv).1 hp
    rw [← hlist] at hin
    have := hval vf vf' hin
    exact ⟨this.1.symm, this.2.symm⟩

/-! ### The condition -/

/-- A write to the table that starts in Vector Control changes nothing in the next entry. -/
def Clean (vf : Vf) (m : Mmio) : Prop :=
  ∀ pos, vf.tablePos m = some pos → 12 ≤ pos % 16 →
    ∀ i (h : i < m.data.length), 16 ≤ pos % 16 + i → m.data[i] = vf.msixShadow (pos + i)

theorem expectedRoutes_write (vf vf' : Vf) {pos : Nat} {m : Mmio} (hfld : 12 ≤ pos % 16)
    (hpos : pos + m.len ≤ vf.msixNr * 16) (hnr : vf'.msixNr = vf.msixNr)
    (hshadow : vf'.msixShadow = vf.msixShadow.write pos m.data) :
    vf'.expectedRoutes = vf.expectedRoutes ↔
      ∀ i (h : i < m.data.length), 16 ≤ pos % 16 + i → m.data[i] = vf.msixShadow (pos + i) := by
  constructor
  · intro h i hi hnext
    have hlen := m.len_le
    have hv : (pos + i) / 16 < vf.msixNr := by
      unfold Mmio.len at hpos
      omega
    obtain ⟨hlo, hhi⟩ := addr_of_expectedRoutes hnr h hv
    have hbyte : vf'.msixShadow (pos + i) = vf.msixShadow (pos + i) := by
      by_cases hword : (pos + i) % 16 < 4
      · exact ByteMem.load_inj hlo (by omega) (by omega)
      · exact ByteMem.load_inj hhi (by omega) (by omega)
    rw [← hbyte, hshadow, ByteMem.write_of_mem hi]
  · intro h
    have hbyte : ∀ j, j % 16 < 12 → vf'.msixShadow j = vf.msixShadow j := by
      intro j hj
      rw [hshadow]
      by_cases hlt : j < pos
      · exact ByteMem.write_of_lt hlt
      by_cases hge : pos + m.data.length ≤ j
      · exact ByteMem.write_of_ge hge
      obtain ⟨i, rfl⟩ := Nat.exists_eq_add_of_le (Nat.le_of_not_lt hlt)
      rw [ByteMem.write_of_mem (by omega), h i (by omega) (by omega)]
    refine expectedRoutes_congr hnr fun v => ⟨?_, ?_, ?_⟩ <;>
      exact ByteMem.load_congr fun j hlo hhi => hbyte j (by omega)

/-! ### Steps -/

theorem reflects_congr (hnr : vf'.msixNr = vf.msixNr) (hshadow : vf'.msixShadow = vf.msixShadow)
    (hrouting : vf'.routing = vf.routing) : vf'.Reflects ↔ vf.Reflects := by
  unfold Reflects
  rw [hrouting, expectedRoutes_congr hnr fun v =>
    ⟨addrLo_congr hshadow v, addrHi_congr hshadow v, msgData_congr hshadow v⟩]

/-- `msix_setup_irqs()` has succeeded, and KVM has the routing of the shadow table. -/
structure Routed (vf : Vf) : Prop where
  done : vf.msixRoutingDone = true
  nr : vf.msixNr ≤ 32
  reflects : vf.Reflects

theorem routed_msixSetupIrqs {io : Ioctls} (hnr : vf.msixNr ≤ 32) (hio : io.setIrqs = true) :
    (vf.msixSetupIrqs io).Routed := by
  have hvectors := setupVectors_same io vf.msixUpdateRoutes vf.nr
  have hsame := sameMsix_msixSetupIrqs hio vf
  have hrouting : vf.msixUpdateRoutes.Reflects := congrArg some (defaultRoutes_append hnr)
  refine ⟨hsame.done, (hsame.nr.trans hvectors.nr).le.trans hnr, ?_⟩
  exact (reflects_congr (hsame.nr.trans hvectors.nr) (hsame.shadow.trans hvectors.shadow)
    (hsame.routing.trans hvectors.routing)).2 hrouting

theorem Routed.ptConfigWrite (h : vf.Routed) (io : Ioctls) (reg len : Nat) (val : BitVec 32) :
    (vf.ptConfigWrite io reg len val).Routed := by
  unfold Vf.ptConfigWrite
  split
  · exact ⟨h.done, h.nr, h.reflects⟩
  · exact ⟨h.done, h.nr, h.reflects⟩
  · dsimp only
    rw [if_neg fun hl => by rw [h.done] at hl; cases hl.2]
    exact ⟨h.done, h.nr, h.reflects⟩
  · have hsame := sameMsix_pwriteRegion vf vfioPciConfigRegionIndex (.ofNat 64 reg) (leBytes len val.toNat)
    exact ⟨hsame.done.trans h.done, hsame.nr.le.trans h.nr,
      (reflects_congr hsame.nr hsame.shadow hsame.routing).2 h.reflects⟩

/-- After an access the routing is that of the table if and only if the access is clean. -/
theorem Routed.handlePtMmio_iff (h : vf.Routed) (m : Mmio) :
    (vf.handlePtMmio m).2.Reflects ↔ vf.Clean m := by
  rcases handlePtMmio_msix m vf with ⟨hpos, hsame⟩ | ⟨pos, hpos, hle, hsame⟩
  · rw [reflects_congr hsame.nr hsame.shadow hsame.routing]
    exact iff_of_true h.reflects fun pos hp => by rw [hpos] at hp; cases hp
  · rw [reflects_congr hsame.nr hsame.shadow hsame.routing]
    unfold Clean
    simp only [hpos, Option.some.injEq, forall_eq']
    by_cases hfld : pos % 16 < 12
    · refine iff_of_true ?_ fun h12 => absurd hfld (by omega)
      show (if _ then _ else _) = _
      rw [if_pos ⟨h.done, hfld⟩]
      have hnr : (vf.programmed pos m).msixNr ≤ 32 := h.nr
      exact congrArg some (defaultRoutes_append hnr)
    · have hiff := expectedRoutes_write vf (vf.programmed pos m) (by omega) hle rfl rfl
      rw [forall_prop_of_true (by omega), ← hiff]
      show (if _ then _ else _) = _ ↔ _
      rw [if_neg fun h => hfld h.2, h.reflects, Option.some.injEq]
      exact eq_comm

theorem Routed.handlePtMmio (h : vf.Routed) {m : Mmio} (hm : vf.Clean m) : (vf.handlePtMmio m).2.Routed := by
  have hreflects := (h.handlePtMmio_iff m).2 hm
  rcases handlePtMmio_msix m vf with ⟨-, hsame⟩ | ⟨pos, -, -, hsame⟩
  · exact ⟨hsame.done.trans h.done, hsame.nr.le.trans h.nr, hreflects⟩
  · exact ⟨hsame.done.trans h.done, hsame.nr.le.trans h.nr, hreflects⟩

end Vf

/-! ### Runs -/

def VfAct.Clean (vf : Vf) : VfAct → Prop
  | .mmio m => vf.Clean m
  | .config .. => True

/-- After `msix_setup_irqs()` has succeeded, KVM has the routing of the shadow table all the time if and
only if every access is clean. -/
theorem routing_reflects_iff (vf : Vf) (hnr : vf.msixNr ≤ 32) (io : Ioctls) (hio : io.setIrqs = true)
    (acts : List VfAct) :
    (∀ pre, pre <+: acts → (runSteps VfAct.step (vf.msixSetupIrqs io) pre).Reflects) ↔
      AllSteps VfAct.step VfAct.Clean (vf.msixSetupIrqs io) acts := by
  have hrouted := Vf.routed_msixSetupIrqs hnr hio
  have hstep : ∀ (w : Vf) (a : VfAct), w.Routed → True → a.Clean w → (a.step w).Routed := by
    intro w a hw _ ha
    cases a with
    | mmio m => exact hw.handlePtMmio ha
    | config reg len val io => exact hw.ptConfigWrite io reg len val
  have hiff : ∀ (w : Vf) (a : VfAct), w.Routed → True → ((a.step w).Reflects ↔ a.Clean w) := by
    intro w a hw _
    cases a with
    | mmio m => exact hw.handlePtMmio_iff m
    | config reg len val io => exact iff_of_true (hw.ptConfigWrite io reg len val).reflects trivial
  rw [forall_prefix_iff, and_iff_right hrouted.reflects]
  exact allSteps_iff hstep hiff hrouted (.of_forall (fun _ _ => trivial) _ _)

/-- A device with two vectors, whose MSI-X table is at the start of BAR 4. -/
def twoVectors : VfioDevice where
  region := fun i => some (.ofNat 64 (i * 0x10000))
  barSize := fun b => if b = 4 then 0x1000 else 0
  config := ByteMem.store (fun _ => 0) 0x34 1 0x40 |>.store 0x40 1 0x11 |>.store 0x42 2 1
    |>.store 0x44 4 4

/-- The device after the guest has mapped BAR 4 and programmed vector 0. -/
def twoVectorsMapped : Vf :=
  runSteps VfAct.step (vfioSetup twoVectors false 3)
    [.config 0x20 4 0xe0000000 ⟨fun _ => true, true⟩,
      .mmio (addrWriteAt 0xe0000000)]

/-- A write of the address of vector 1. -/
def addrWrite : Mmio := ⟨0xe0000010, true, leBytes 4 0xfee01000, by decide, by decide⟩

/-- A write of the Vector Control of vector 0 and the address of vector 1. -/
def straddlingWrite : Mmio := ⟨0xe000000c, true, leBytes 8 (0xfee01000 <<< 32), by decide, by decide⟩

theorem routing_reflects_iff_addrWrite :
    (runSteps VfAct.step (twoVectorsMapped.msixSetupIrqs ⟨fun _ => true, true⟩) [.mmio addrWrite]).Reflects := by
  refine (routing_reflects_iff twoVectorsMapped (by decide +kernel) ⟨fun _ => true, true⟩ rfl [.mmio addrWrite]).2
    ⟨?_, trivial⟩ _ List.prefix_rfl
  intro pos hpos hfld
  have hpos' : (twoVectorsMapped.msixSetupIrqs ⟨fun _ => true, true⟩).tablePos addrWrite = some 16 := by
    decide +kernel
  obtain rfl := Option.some.inj (hpos'.symm.trans hpos)
  omega

theorem not_routing_reflects :
    ¬∀ (vf : Vf) (io : Ioctls) (acts : List VfAct), vf.msixNr ≤ 32 → vf.msixTableBar ≠ 0 → io.setIrqs = true →
      ∀ pre, pre <+: acts → (runSteps VfAct.step (vf.msixSetupIrqs io) pre).Reflects := by
  intro h
  have hlast := h twoVectorsMapped ⟨fun _ => true, true⟩ [.mmio straddlingWrite] (by decide +kernel)
    (by decide +kernel) rfl _ List.prefix_rfl
  exact absurd hlast (by decide +kernel)

end MiniVirt.Vmm
