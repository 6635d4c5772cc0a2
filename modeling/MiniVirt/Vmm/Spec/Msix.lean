import MiniVirt.Vmm.Spec.VfioBounds

/-!
# What the passthrough handlers do for MSI-X

An MMIO access either leaves alone what the MSI-X code reads, or it is a write to the table
(`handlePtMmio_msix`).  `msix_setup_irqs()` gives every vector that has an address an eventfd and
changes nothing else of it (`setupVectors_same`).
-/

namespace MiniVirt.Vmm

namespace Vf

variable {vf vf' : Vf}

/-! ### What the handlers leave alone -/

/-- The two states agree in everything that the MSI-X code reads. -/
structure SameMsix (vf vf' : Vf) : Prop where
  cap : vf'.msixCap = vf.msixCap
  nr : vf'.msixNr = vf.msixNr
  tableOff : vf'.msixTableOff = vf.msixTableOff
  tableBar : vf'.msixTableBar = vf.msixTableBar
  shadow : vf'.msixShadow = vf.msixShadow
  msgctl : vf'.msixMsgctl = vf.msixMsgctl
  efd : vf'.msixEfd = vf.msixEfd
  done : vf'.msixRoutingDone = vf.msixRoutingDone
  slowpath : vf'.msixSlowpath = vf.msixSlowpath
  irqfds : vf'.irqfds = vf.irqfds
  irqs : vf'.irqs = vf.irqs
  routing : vf'.routing = vf.routing
  nextFd : vf'.nextFd = vf.nextFd

theorem SameMsix.refl (vf : Vf) : SameMsix vf vf := ⟨rfl, rfl, rfl, rfl, rfl, rfl, rfl, rfl, rfl, rfl, rfl, rfl, rfl⟩

theorem SameMsix.trans {vf'' : Vf} (h : SameMsix vf vf') (h' : SameMsix vf' vf'') : SameMsix vf vf'' :=
  ⟨h'.cap.trans h.cap, h'.nr.trans h.nr, h'.tableOff.trans h.tableOff, h'.tableBar.trans h.tableBar,
    h'.shadow.trans h.shadow, h'.msgctl.trans h.msgctl, h'.efd.trans h.efd, h'.done.trans h.done,
    h'.slowpath.trans h.slowpath, h'.irqfds.trans h.irqfds, h'.irqs.trans h.irqs,
    h'.routing.trans h.routing, h'.nextFd.trans h.nextFd⟩

theorem sameMsix_pwriteRegion (vf : Vf) (i : Nat) (off : BitVec 64) (bytes : List (BitVec 8)) :
    SameMsix vf (vf.pwriteRegion i off bytes) := by
  unfold pwriteRegion
  split
  · exact ⟨rfl, rfl, rfl, rfl, rfl, rfl, rfl, rfl, rfl, rfl, rfl, rfl, rfl⟩
  · exact .refl vf

theorem sameMsix_forwardCtrl (vf : Vf) (v : Nat) : SameMsix vf (vf.forwardCtrl v) := by
  unfold forwardCtrl
  split
  · have h := sameMsix_pwriteRegion vf vf.msixTableBar
      (vf.msixTableOff.setWidth 64 + .ofNat 64 (v * 16 + 12)) (vf.msixShadow.read (v * 16 + 12) 4)
    exact ⟨h.cap, h.nr, h.tableOff, h.tableBar, h.shadow, h.msgctl, h.efd, h.done, h.slowpath, h.irqfds,
      h.irqs, h.routing, h.nextFd⟩
  · exact ⟨rfl, rfl, rfl, rfl, rfl, rfl, rfl, rfl, rfl, rfl, rfl, rfl, rfl⟩

theorem sameMsix_foldl_syncCtrl (l : List Nat) (vf : Vf) : SameMsix vf (l.foldl syncCtrl vf) := by
  induction l generalizing vf with
  | nil => exact .refl vf
  | cons v l ih =>
    refine .trans ?_ (ih (vf.syncCtrl v))
    unfold syncCtrl
    split
    · exact .refl vf
    · exact sameMsix_forwardCtrl vf v

theorem sameMsix_forwardMmio (vf : Vf) (b : Nat) (off : BitVec 64) (m : Mmio) :
    SameMsix vf (vf.forwardMmio b off m).2 := by
  unfold forwardMmio
  split
  · exact sameMsix_pwriteRegion ..
  · exact .refl vf

theorem sameMsix_handleBar0Legacy (off : BitVec 64) (m : Mmio) (vf : Vf) :
    SameMsix vf (vf.handleBar0Legacy off m).2 := by
  have hcount : SameMsix vf (vf.countNotify off m) := by
    unfold countNotify
    split <;> exact ⟨rfl, rfl, rfl, rfl, rfl, rfl, rfl, rfl, rfl, rfl, rfl, rfl, rfl⟩
  have hvectors : ∀ w : Vf, SameMsix w (w.shadowVectors off m) := by
    intro w
    unfold shadowVectors
    split <;> exact ⟨rfl, rfl, rfl, rfl, rfl, rfl, rfl, rfl, rfl, rfl, rfl, rfl, rfl⟩
  exact (hcount.trans (hvectors _)).trans (sameMsix_forwardMmio ..)

/-! ### Writes to the table -/

/-- Where in the MSI-X table the access writes. -/
def tablePos (vf : Vf) (m : Mmio) : Option Nat :=
  match vf.barHit m.physAddr with
  | none => none
  | some b =>
    let off := m.physAddr - vf.barBase b
    if b ≠ 0 ∧ vf.TableHit b off m.len ∧ m.isWrite = true then
      some (off.toNat - vf.msixTableOff.toNat)
    else none

/-- The state after a write to the table, less what is written to the device. -/
def programmed (vf : Vf) (pos : Nat) (m : Mmio) : Vf :=
  let vf' := { vf with msixShadow := vf.msixShadow.write pos m.data }
  { vf' with
    routing :=
      if vf.msixRoutingDone = true ∧ pos % 16 < 12 then
        some (defaultRoutes ++ (List.range vf'.nr).filterMap vf'.msiRoute)
      else vf.routing }

theorem msiRoute_congr {v : Nat} (hlo : vf'.addrLo v = vf.addrLo v) (hhi : vf'.addrHi v = vf.addrHi v)
    (hdata : vf'.msgData v = vf.msgData v) : vf'.msiRoute v = vf.msiRoute v := by
  have hiff : vf'.Unprogrammed v ↔ vf.Unprogrammed v := by
    unfold Unprogrammed
    rw [hlo, hhi]
  unfold msiRoute
  by_cases h : vf.Unprogrammed v
  · rw [if_pos h, if_pos (hiff.2 h)]
  · rw [if_neg h, if_neg (mt hiff.1 h), hlo, hhi, hdata]

theorem addrLo_congr (h : vf'.msixShadow = vf.msixShadow) (v : Nat) : vf'.addrLo v = vf.addrLo v :=
  congrArg (fun m : ByteMem => m.load (v * 16) 4) h

theorem addrHi_congr (h : vf'.msixShadow = vf.msixShadow) (v : Nat) : vf'.addrHi v = vf.addrHi v :=
  congrArg (fun m : ByteMem => m.load (v * 16 + 4) 4) h

theorem msgData_congr (h : vf'.msixShadow = vf.msixShadow) (v : Nat) : vf'.msgData v = vf.msgData v :=
  congrArg (fun m : ByteMem => m.load (v * 16 + 8) 4) h

theorem filterMap_msiRoute (h : vf'.msixShadow = vf.msixShadow) (hnr : vf'.msixNr = vf.msixNr) :
    (List.range vf'.nr).filterMap vf'.msiRoute = (List.range vf.nr).filterMap vf.msiRoute := by
  have hroute : vf'.msiRoute = vf.msiRoute :=
    funext fun v => msiRoute_congr (addrLo_congr h v) (addrHi_congr h v) (msgData_congr h v)
  rw [hroute, nr_congr hnr]

theorem sameMsix_tableWrite (vf : Vf) (pos : Nat) (m : Mmio) :
    SameMsix (vf.programmed pos m) (vf.tableWrite pos m) := by
  set w : Vf := { vf with
    msixShadow := vf.msixShadow.write pos m.data
    accesses := vf.accesses ++ [.shadow pos m.len] } with hw
  have hctrl : SameMsix w (if 12 ≤ pos % 16 ∨ 12 < pos % 16 + m.len then w.forwardCtrl (pos / 16) else w) := by
    split
    · exact sameMsix_forwardCtrl ..
    · exact .refl w
  unfold tableWrite programmed
  dsimp only
  rw [← hw]
  set w' := if 12 ≤ pos % 16 ∨ 12 < pos % 16 + m.len then w.forwardCtrl (pos / 16) else w
  have hroutes := filterMap_msiRoute hctrl.shadow hctrl.nr
  by_cases hdone : vf.msixRoutingDone = true ∧ pos % 16 < 12
  · rw [if_pos hdone, if_pos ⟨hctrl.done.trans hdone.1, hdone.2⟩]
    refine ⟨hctrl.cap, hctrl.nr, hctrl.tableOff, hctrl.tableBar, hctrl.shadow, hctrl.msgctl, hctrl.efd,
      hctrl.done, hctrl.slowpath, hctrl.irqfds, hctrl.irqs, ?_, hctrl.nextFd⟩
    show some (defaultRoutes ++ (List.range w'.nr).filterMap w'.msiRoute) = _
    rw [hroutes]
    rfl
  · rw [if_neg hdone, if_neg fun h => hdone ⟨hctrl.done.symm.trans h.1, h.2⟩]
    exact ⟨hctrl.cap, hctrl.nr, hctrl.tableOff, hctrl.tableBar, hctrl.shadow, hctrl.msgctl, hctrl.efd,
      hctrl.done, hctrl.slowpath, hctrl.irqfds, hctrl.irqs, hctrl.routing, hctrl.nextFd⟩

/-- What `handle_pt_mmio()` does for MSI-X. -/
theorem handlePtMmio_msix (m : Mmio) (vf : Vf) :
    (vf.tablePos m = none ∧ SameMsix vf (vf.handlePtMmio m).2) ∨
      ∃ pos, vf.tablePos m = some pos ∧ pos + m.len ≤ vf.msixNr * 16 ∧
        SameMsix (vf.programmed pos m) (vf.handlePtMmio m).2 := by
  unfold tablePos handlePtMmio
  cases hb : vf.barHit m.physAddr with
  | none => exact .inl ⟨rfl, .refl vf⟩
  | some b =>
    have hoff := barHit_off hb
    dsimp only
    generalize m.physAddr - vf.barBase b = off at hoff
    by_cases h0 : b = 0
    · rw [if_pos h0, if_neg fun h => h.1 h0]
      exact .inl ⟨rfl, sameMsix_handleBar0Legacy off m vf⟩
    · rw [if_neg h0]
      by_cases htab : vf.TableHit b off m.len
      · obtain ⟨pos, hpos, heq, hle⟩ := tableHit_pos hoff m.len_le htab
        rw [if_pos htab, hpos]
        cases hw : m.isWrite with
        | true =>
          rw [if_pos ⟨h0, htab, rfl⟩, if_pos rfl]
          refine .inr ⟨pos, ?_, hle, sameMsix_tableWrite vf pos m⟩
          rw [heq, Nat.add_sub_cancel_left]
        | false =>
          rw [if_neg fun h => by cases h.2.2]
          exact .inl ⟨rfl, ⟨rfl, rfl, rfl, rfl, rfl, rfl, rfl, rfl, rfl, rfl, rfl, rfl, rfl⟩⟩
      · rw [if_neg htab, if_neg fun h => htab h.2.1]
        exact .inl ⟨rfl, sameMsix_forwardMmio ..⟩

/-! ### `msix_setup_irqs()` -/

/-- The state after the loop of `msix_setup_irqs()` over the first `n` vectors. -/
def setupVectors (io : Ioctls) (vf : Vf) (n : Nat) : Vf := (List.range n).foldl (setupVector io) vf

theorem setupVectors_succ (io : Ioctls) (vf : Vf) (n : Nat) :
    setupVectors io vf (n + 1) = setupVector io (setupVectors io vf n) n := by
  unfold setupVectors
  rw [List.range_succ, List.foldl_append]
  rfl

/-- What the loop leaves alone. -/
structure SameButFds (vf vf' : Vf) : Prop where
  nr : vf'.msixNr = vf.msixNr
  shadow : vf'.msixShadow = vf.msixShadow
  msgctl : vf'.msixMsgctl = vf.msixMsgctl
  slowpath : vf'.msixSlowpath = vf.msixSlowpath
  routing : vf'.routing = vf.routing

theorem setupVectors_same (io : Ioctls) (vf : Vf) (n : Nat) : SameButFds vf (setupVectors io vf n) := by
  induction n with
  | zero => exact ⟨rfl, rfl, rfl, rfl, rfl⟩
  | succ n ih =>
    rw [setupVectors_succ]
    unfold setupVector
    split
    · exact ih
    · exact ⟨ih.nr, ih.shadow, ih.msgctl, ih.slowpath, ih.routing⟩

/-- The state when `msix_setup_irqs()` has succeeded, less what is written to the device. -/
def armed (io : Ioctls) (vf : Vf) : Vf :=
  let w := setupVectors io vf.msixUpdateRoutes vf.nr
  { w with irqs := some ((List.range vf.nr).map w.msixEfd), msixRoutingDone := true }

theorem sameMsix_msixSetupIrqs {io : Ioctls} (hio : io.setIrqs = true) (vf : Vf) :
    SameMsix (vf.armed io) (vf.msixSetupIrqs io) := by
  have hnr : (setupVectors io vf.msixUpdateRoutes vf.nr).nr = vf.nr := nr_foldl_setupVector io _ _
  unfold msixSetupIrqs
  dsimp only
  rw [if_pos hio]
  refine .trans ?_ (sameMsix_foldl_syncCtrl ..)
  refine ⟨rfl, rfl, rfl, rfl, rfl, rfl, rfl, rfl, rfl, rfl, ?_, rfl, rfl⟩
  exact congrArg (fun n => some ((List.range n).map _)) hnr

theorem unprogrammed_congr (h : vf'.msixShadow = vf.msixShadow) (v : Nat) :
    vf'.Unprogrammed v ↔ vf.Unprogrammed v := by
  unfold Unprogrammed
  rw [addrLo_congr h, addrHi_congr h]

end Vf

end MiniVirt.Vmm
