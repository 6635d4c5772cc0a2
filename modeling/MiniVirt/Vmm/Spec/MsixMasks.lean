import MiniVirt.Vmm.Spec.MsixAtomic

/-!
# The mask bits of the MSI-X vectors

The guest masks a vector in the shadow table, the device looks at its own table.  `msix_setup_irqs()` brings the Vector
Control words of the two in line, and `handle_pt_mmio()` forwards every write that touches one of them
(`masks_coherent`).
-/

namespace MiniVirt.Vmm

namespace Vf

/-! ### The table of the device -/

/-- Where the Vector Control word of vector `v` lies in the file of the device. -/
def ctrlPos (vf : Vf) (v : Nat) : BitVec 64 :=
  (vf.region vf.msixTableBar).getD 0 + (vf.msixTableOff.setWidth 64 + .ofNat 64 (v * 16 + 12))

/-- The file of the device after the writes `l`. -/
def putWrites (file : ByteMem) (l : List (BitVec 64 × List (BitVec 8))) : ByteMem :=
  l.foldl (fun file w => file.write w.1.toNat w.2) file

/-- VFIO_DEVICE_SET_IRQS clears the mask bit of every vector that gets a descriptor. -/
def unmask (vf : Vf) (file : ByteMem) : ByteMem :=
  (List.range vf.nr).foldl (fun file v =>
    if vf.msixEfd v = -1 then file
    else file.store (vf.ctrlPos v).toNat 4 (file.load (vf.ctrlPos v).toNat 4 / 2 * 2)) file

end Vf

/-- The program and the file of the device. -/
structure PtMachine where
  vf : Vf
  file : ByteMem

namespace PtMachine

def step (s : PtMachine) (a : VfAct) : PtMachine :=
  let vf := a.step s.vf
  -- `VFIO_DEVICE_SET_IRQS` comes before the writes of the step that arms
  let file := if s.vf.msixRoutingDone = false ∧ vf.msixRoutingDone = true then vf.unmask s.file else s.file
  ⟨vf, Vf.putWrites file (vf.pwrites.drop s.vf.pwrites.length)⟩

/-- The Vector Control word of vector `v` is the same in both tables. -/
def Coherent (s : PtMachine) (v : Nat) : Prop :=
  s.file.read (s.vf.ctrlPos v).toNat 4 = s.vf.msixShadow.read (v * 16 + 12) 4

/-- The step is a write to the MSI-X table, or what it writes to the device misses the Vector Control words. -/
def SparesMasks (s : PtMachine) (a : VfAct) : Prop :=
  (∃ m pos, a = .mmio m ∧ s.vf.tablePos m = some pos) ∨
    ∀ w ∈ (a.step s.vf).pwrites.drop s.vf.pwrites.length, ∀ v < s.vf.msixNr,
      w.1.toNat + w.2.length ≤ (s.vf.ctrlPos v).toNat ∨ (s.vf.ctrlPos v).toNat + 4 ≤ w.1.toNat

end PtMachine

namespace Vf

variable {vf vf' : Vf}

/-! ### What is written to the device -/

/-- The handlers leave the place of the table alone and write `l` to the device. -/
structure Wrote (vf vf' : Vf) (l : List (BitVec 64 × List (BitVec 8))) : Prop where
  region : vf'.region = vf.region
  tableBar : vf'.msixTableBar = vf.msixTableBar
  tableOff : vf'.msixTableOff = vf.msixTableOff
  nr : vf'.msixNr = vf.msixNr
  pwrites : vf'.pwrites = vf.pwrites ++ l

theorem Wrote.nothing (hregion : vf'.region = vf.region) (hbar : vf'.msixTableBar = vf.msixTableBar)
    (hoff : vf'.msixTableOff = vf.msixTableOff) (hnr : vf'.msixNr = vf.msixNr) (hp : vf'.pwrites = vf.pwrites) :
    Wrote vf vf' [] :=
  ⟨hregion, hbar, hoff, hnr, by rw [hp, List.append_nil]⟩

theorem Wrote.trans {vf'' : Vf} {l l' : List (BitVec 64 × List (BitVec 8))} (h : Wrote vf vf' l)
    (h' : Wrote vf' vf'' l') : Wrote vf vf'' (l ++ l') := by
  refine ⟨h'.region.trans h.region, h'.tableBar.trans h.tableBar, h'.tableOff.trans h.tableOff, h'.nr.trans h.nr, ?_⟩
  rw [h'.pwrites, h.pwrites, List.append_assoc]

theorem Wrote.ctrlPos {l : List (BitVec 64 × List (BitVec 8))} (h : Wrote vf vf' l) (v : Nat) :
    vf'.ctrlPos v = vf.ctrlPos v := by
  unfold Vf.ctrlPos
  rw [h.region, h.tableBar, h.tableOff]

theorem wrote_pwriteRegion (vf : Vf) (i : Nat) (off : BitVec 64) (bytes : List (BitVec 8)) :
    ∃ l, Wrote vf (vf.pwriteRegion i off bytes) l := by
  unfold pwriteRegion
  split
  · exact ⟨_, rfl, rfl, rfl, rfl, rfl⟩
  · exact ⟨[], .nothing rfl rfl rfl rfl rfl⟩

theorem wrote_forwardCtrl {offset : BitVec 64} (h : vf.region vf.msixTableBar = some offset) (v : Nat) :
    Wrote vf (vf.forwardCtrl v) [(vf.ctrlPos v, vf.msixShadow.read (v * 16 + 12) 4)] := by
  unfold forwardCtrl pwriteRegion ctrlPos
  rw [h]
  exact ⟨rfl, rfl, rfl, rfl, rfl⟩

theorem wrote_setupVectors (io : Ioctls) (vf : Vf) (n : Nat) : Wrote vf (setupVectors io vf n) [] := by
  induction n with
  | zero => exact .nothing rfl rfl rfl rfl rfl
  | succ n ih =>
    rw [setupVectors_succ]
    unfold setupVector
    split
    · exact ih
    · exact ⟨ih.region, ih.tableBar, ih.tableOff, ih.nr, ih.pwrites⟩

/-! ### The words of different vectors -/

theorem ctrlPos_apart (vf : Vf) {u v : Nat} (hu : u < 32) (hv : v < 32) (hne : u ≠ v) :
    (vf.ctrlPos u).toNat + 4 ≤ (vf.ctrlPos v).toNat ∨ (vf.ctrlPos v).toNat + 4 ≤ (vf.ctrlPos u).toNat := by
  have hpos : ∀ w, w < 32 → (vf.ctrlPos w).toNat =
      (((vf.region vf.msixTableBar).getD 0 + vf.msixTableOff.setWidth 64).toNat + (w * 16 + 12)) % 2 ^ 64 := by
    intro w hw
    unfold ctrlPos
    rw [← BitVec.add_assoc, BitVec.toNat_add, BitVec.toNat_ofNat, Nat.mod_eq_of_lt (a := w * 16 + 12) (by omega)]
  rw [hpos u hu, hpos v hv]
  have hlt := ((vf.region vf.msixTableBar).getD 0 + vf.msixTableOff.setWidth 64).isLt
  generalize ((vf.region vf.msixTableBar).getD 0 + vf.msixTableOff.setWidth 64).toNat = b at hlt
  omega

theorem putWrites_append (file : ByteMem) (l l' : List (BitVec 64 × List (BitVec 8))) :
    putWrites file (l ++ l') = putWrites (putWrites file l) l' :=
  List.foldl_append

/-- Writes that miss a word leave it alone. -/
theorem read_putWrites {file : ByteMem} {l : List (BitVec 64 × List (BitVec 8))} {a : Nat}
    (h : ∀ w ∈ l, w.1.toNat + w.2.length ≤ a ∨ a + 4 ≤ w.1.toNat) : (putWrites file l).read a 4 = file.read a 4 := by
  induction l generalizing file with
  | nil => rfl
  | cons w l ih =>
    have hrest : (putWrites file (w :: l)).read a 4 = (file.write w.1.toNat w.2).read a 4 :=
      ih fun w' hw' => h w' (List.mem_cons_of_mem w hw')
    rw [hrest]
    exact ByteMem.read_write_of_disjoint (h w List.mem_cons_self).symm

/-! ### Arming -/

/-- The loop that writes the mask bits, over the first `n` vectors. -/
def syncVectors (vf : Vf) (n : Nat) : Vf := (List.range n).foldl syncCtrl vf

theorem syncVectors_succ (vf : Vf) (n : Nat) : syncVectors vf (n + 1) = syncCtrl (syncVectors vf n) n := by
  unfold syncVectors
  rw [List.range_succ, List.foldl_append]
  rfl

/-- After the loop the words of the vectors that have an address are those of the shadow table. -/
theorem syncVectors_spec {offset : BitVec 64} (hregion : vf.region vf.msixTableBar = some offset) {n : Nat}
    (hn : n ≤ 32) :
    ∃ l, Wrote vf (syncVectors vf n) l ∧ ∀ file, ∀ v < n, ¬vf.Unprogrammed v →
      (putWrites file l).read (vf.ctrlPos v).toNat 4 = vf.msixShadow.read (v * 16 + 12) 4 := by
  induction n with
  | zero => exact ⟨[], .nothing rfl rfl rfl rfl rfl, fun file v hv => absurd hv (Nat.not_lt_zero v)⟩
  | succ n ih =>
    obtain ⟨l, hwrote, hsync⟩ := ih (by omega)
    have hshadow : (syncVectors vf n).msixShadow = vf.msixShadow := (sameMsix_foldl_syncCtrl _ vf).shadow
    rw [syncVectors_succ]
    unfold syncCtrl
    by_cases hprog : vf.Unprogrammed n
    · rw [if_pos ((unprogrammed_congr hshadow n).2 hprog)]
      refine ⟨l, hwrote, fun file v hv hv' => hsync file v ?_ hv'⟩
      have hne : v ≠ n := by
        rintro rfl
        exact hv' hprog
      omega
    · rw [if_neg (mt (unprogrammed_congr hshadow n).1 hprog)]
      have hregion' : (syncVectors vf n).region (syncVectors vf n).msixTableBar = some offset := by
        rw [hwrote.region, hwrote.tableBar, hregion]
      have hctrl := wrote_forwardCtrl hregion' n
      rw [hwrote.ctrlPos, hshadow] at hctrl
      refine ⟨_, hwrote.trans hctrl, fun file v hv hv' => ?_⟩
      rw [putWrites_append]
      have hlen := ByteMem.length_read vf.msixShadow (n * 16 + 12) 4
      obtain rfl | hne := eq_or_ne v n
      · have hself := ByteMem.read_write_self (putWrites file l) (vf.ctrlPos v).toNat
          (vf.msixShadow.read (v * 16 + 12) 4)
        rw [hlen] at hself
        exact hself
      · -- the word of `v` has been written before, and the one of `n` lies elsewhere
        rw [read_putWrites]
        · exact hsync file v (by omega) hv'
        · intro w hw
          rw [List.mem_singleton] at hw
          rw [hw, hlen]
          exact vf.ctrlPos_apart (by omega) (by omega) (Ne.symm hne)

theorem msixSetupIrqs_spec {io : Ioctls} (hio : io.setIrqs = true) {offset : BitVec 64}
    (hregion : vf.region vf.msixTableBar = some offset) :
    ∃ l, Wrote vf (vf.msixSetupIrqs io) l ∧ ∀ file v, (vf.msixSetupIrqs io).Programmed v →
      (putWrites file l).read (vf.ctrlPos v).toNat 4 = (vf.msixSetupIrqs io).msixShadow.read (v * 16 + 12) 4 := by
  set w : Vf := setupVectors io vf.msixUpdateRoutes vf.nr with hw
  have hroutes : Wrote vf vf.msixUpdateRoutes [] := .nothing rfl rfl rfl rfl rfl
  have hloop := hroutes.trans (wrote_setupVectors io vf.msixUpdateRoutes vf.nr)
  rw [← hw] at hloop
  set w' : Vf := { w with
    accesses := w.accesses ++ (List.range w.nr).flatMap entryAccesses
    irqs := some ((List.range w.nr).map w.msixEfd)
    msixRoutingDone := true } with hw'
  have hrun : vf.msixSetupIrqs io = syncVectors w' w'.nr := by
    unfold msixSetupIrqs
    dsimp only
    rw [if_pos hio]
    rfl
  have hwrote : Wrote vf w' [] := ⟨hloop.region, hloop.tableBar, hloop.tableOff, hloop.nr, hloop.pwrites⟩
  have hregion' : w'.region w'.msixTableBar = some offset := by
    rw [hwrote.region, hwrote.tableBar, hregion]
  obtain ⟨l, hl, hsync⟩ := syncVectors_spec hregion' w'.nr_le
  have hsame : SameMsix w' (syncVectors w' w'.nr) := sameMsix_foldl_syncCtrl _ w'
  refine ⟨l, hrun ▸ hwrote.trans hl, fun file v hv => ?_⟩
  rw [hrun] at hv ⊢
  rw [hsame.shadow, ← hwrote.ctrlPos]
  apply hsync
  · have hlt := hv.1
    rwa [nr_congr hsame.nr] at hlt
  · exact mt (unprogrammed_congr hsame.shadow v).2 hv.2

/-! ### Writes to the table -/

theorem wrote_routes (c : Prop) [Decidable c] : Wrote vf (if c then vf.msixUpdateRoutes else vf) [] := by
  split
  · exact .nothing rfl rfl rfl rfl rfl
  · exact .nothing rfl rfl rfl rfl rfl

/-- A write to the table is forwarded if it touches the Vector Control word of its entry, and it touches no other. -/
theorem tableWrite_spec {offset : BitVec 64} (hregion : vf.region vf.msixTableBar = some offset) {pos : Nat} {m : Mmio}
    (hpos : pos + m.len ≤ 32 * 16) :
    ∃ l, Wrote vf (vf.tableWrite pos m) l ∧ ∀ file, ∀ v < 32,
      file.read (vf.ctrlPos v).toNat 4 = vf.msixShadow.read (v * 16 + 12) 4 →
        (putWrites file l).read (vf.ctrlPos v).toNat 4 = (vf.tableWrite pos m).msixShadow.read (v * 16 + 12) 4 := by
  have hlen : m.len ≤ 8 := m.len_le
  have hpos' := m.zero_lt_len
  set w : Vf := { vf with
    msixShadow := vf.msixShadow.write pos m.data
    accesses := vf.accesses ++ [.shadow pos m.len] } with hw
  have hshadow : (vf.tableWrite pos m).msixShadow = w.msixShadow := (sameMsix_tableWrite vf pos m).shadow
  have hwrote : Wrote vf w [] := .nothing rfl rfl rfl rfl rfl
  -- a vector whose word the write does not touch
  have hmiss : ∀ v, pos + m.len ≤ v * 16 + 12 ∨ v * 16 + 16 ≤ pos →
      w.msixShadow.read (v * 16 + 12) 4 = vf.msixShadow.read (v * 16 + 12) 4 :=
    fun v hv => ByteMem.read_write_of_disjoint (by unfold Mmio.len at hv; omega)
  rw [hshadow]
  by_cases hfwd : 12 ≤ pos % 16 ∨ 12 < pos % 16 + m.len
  · have hctrl := hwrote.trans (@wrote_forwardCtrl w offset hregion (pos / 16))
    have hrun : Wrote (w.forwardCtrl (pos / 16)) (vf.tableWrite pos m) [] := by
      unfold tableWrite
      dsimp only
      rw [if_pos hfwd]
      exact wrote_routes _
    refine ⟨_, hctrl.trans hrun, fun file v hv hcoh => ?_⟩
    rw [List.nil_append, List.append_nil]
    have hpos : w.ctrlPos v = vf.ctrlPos v := hwrote.ctrlPos v
    have hlen' := ByteMem.length_read w.msixShadow (pos / 16 * 16 + 12) 4
    obtain rfl | hne := eq_or_ne v (pos / 16)
    · have hself := ByteMem.read_write_self file (w.ctrlPos (pos / 16)).toNat (w.msixShadow.read (pos / 16 * 16 + 12) 4)
      rw [hlen', hpos] at hself
      exact hself
    · rw [hmiss v (by omega), ← hcoh, read_putWrites]
      intro x hx
      rw [List.mem_singleton] at hx
      rw [hx, hlen', hwrote.ctrlPos]
      exact vf.ctrlPos_apart (by omega) hv (Ne.symm hne)
  · have hrun : Wrote w (vf.tableWrite pos m) [] := by
      unfold tableWrite
      dsimp only
      rw [if_neg hfwd]
      exact wrote_routes _
    refine ⟨[], hwrote.trans hrun, fun file v hv hcoh => ?_⟩
    rw [hmiss v (by omega)]
    exact hcoh

/-! ### Steps -/

theorem wrote_forwardMmio (vf : Vf) (b : Nat) (off : BitVec 64) (m : Mmio) :
    ∃ l, Wrote vf (vf.forwardMmio b off m).2 l := by
  unfold forwardMmio
  split
  · exact wrote_pwriteRegion ..
  · exact ⟨[], .nothing rfl rfl rfl rfl rfl⟩

theorem wrote_handleBar0Legacy (off : BitVec 64) (m : Mmio) (vf : Vf) :
    ∃ l, Wrote vf (vf.handleBar0Legacy off m).2 l := by
  have hcount : Wrote vf (vf.countNotify off m) [] := by
    unfold countNotify
    split <;> exact .nothing rfl rfl rfl rfl rfl
  have hvectors : Wrote (vf.countNotify off m) ((vf.countNotify off m).shadowVectors off m) [] := by
    unfold shadowVectors
    split <;> exact .nothing rfl rfl rfl rfl rfl
  obtain ⟨l, hl⟩ := wrote_forwardMmio ((vf.countNotify off m).shadowVectors off m) 0 off m
  exact ⟨_, (hcount.trans hvectors).trans hl⟩

/-- An access writes to the table, or it does not and leaves the shadow table alone. -/
theorem handlePtMmio_writes (m : Mmio) (vf : Vf) :
    (∃ pos, vf.tablePos m = some pos ∧ pos + m.len ≤ vf.msixNr * 16 ∧ (vf.handlePtMmio m).2 = vf.tableWrite pos m) ∨
      (vf.tablePos m = none ∧ ∃ l, Wrote vf (vf.handlePtMmio m).2 l) := by
  unfold tablePos handlePtMmio
  cases hb : vf.barHit m.physAddr with
  | none => exact .inr ⟨rfl, [], .nothing rfl rfl rfl rfl rfl⟩
  | some b =>
    have hoff := barHit_off hb
    dsimp only
    generalize m.physAddr - vf.barBase b = off at hoff
    by_cases h0 : b = 0
    · rw [if_pos h0, if_neg fun h => h.1 h0]
      exact .inr ⟨rfl, wrote_handleBar0Legacy off m vf⟩
    · rw [if_neg h0]
      by_cases htab : vf.TableHit b off m.len
      · obtain ⟨pos, hpos, heq, hle⟩ := tableHit_pos hoff m.len_le htab
        rw [if_pos htab, hpos]
        cases hw : m.isWrite with
        | true =>
          rw [if_pos ⟨h0, htab, rfl⟩, if_pos rfl]
          refine .inl ⟨pos, ?_, hle, rfl⟩
          rw [heq, Nat.add_sub_cancel_left]
        | false =>
          rw [if_neg fun h => by cases h.2.2]
          exact .inr ⟨rfl, [], .nothing rfl rfl rfl rfl rfl⟩
      · rw [if_neg htab, if_neg fun h => htab h.2.1]
        exact .inr ⟨rfl, wrote_forwardMmio ..⟩

/-- After arming, a write to the configuration space leaves the shadow table alone. -/
theorem shadow_ptConfigWrite (hdone : vf.msixRoutingDone = true) (io : Ioctls) (reg len : Nat) (val : BitVec 32) :
    (vf.ptConfigWrite io reg len val).msixShadow = vf.msixShadow := by
  unfold ptConfigWrite
  split
  · rfl
  · rfl
  · dsimp only
    rw [if_neg fun hl => by rw [hdone] at hl; cases hl.2]
  · exact (sameMsix_pwriteRegion ..).shadow

theorem wrote_ptConfigWrite {offset : BitVec 64} (hregion : vf.region vf.msixTableBar = some offset) (io : Ioctls)
    (reg len : Nat) (val : BitVec 32) : ∃ l, Wrote vf (vf.ptConfigWrite io reg len val) l := by
  unfold ptConfigWrite
  split
  · exact ⟨[], .nothing rfl rfl rfl rfl rfl⟩
  · exact ⟨[], .nothing rfl rfl rfl rfl rfl⟩
  · dsimp only
    split
    · cases hio : io.setIrqs with
      | true =>
        obtain ⟨l, hl, -⟩ := @msixSetupIrqs_spec { vf with msixMsgctl := writeMsgctl _ _ _ _ } io hio offset hregion
        exact ⟨l, hl.region, hl.tableBar, hl.tableOff, hl.nr, hl.pwrites⟩
      | false =>
        have hl := wrote_setupVectors io
          ({ vf with
            msixMsgctl := writeMsgctl vf.msixMsgctl (reg - (vf.msixCap + 2)) len val } : Vf).msixUpdateRoutes vf.nr
        unfold msixSetupIrqs
        rw [hio]
        exact ⟨[], hl.region, hl.tableBar, hl.tableOff, hl.nr, hl.pwrites⟩
    · exact ⟨[], .nothing rfl rfl rfl rfl rfl⟩
  · exact wrote_pwriteRegion ..

/-- Every step leaves the place of the table alone. -/
theorem wrote_step {offset : BitVec 64} (hregion : vf.region vf.msixTableBar = some offset) (hnr : vf.msixNr ≤ 32)
    (a : VfAct) : ∃ l, Wrote vf (a.step vf) l := by
  cases a with
  | mmio m =>
    show ∃ l, Wrote vf (vf.handlePtMmio m).2 l
    obtain ⟨pos, -, hpos, hrun⟩ | ⟨-, hwrote⟩ := handlePtMmio_writes m vf
    · rw [hrun]
      obtain ⟨l, hl, -⟩ := @tableWrite_spec vf offset hregion pos m (by omega)
      exact ⟨l, hl⟩
    · exact hwrote
  | config reg len val io => exact wrote_ptConfigWrite hregion io reg len val

/-- After arming, a step writes to the table or leaves the shadow table alone. -/
theorem step_writes (hdone : vf.msixRoutingDone = true) (a : VfAct) :
    (∃ m pos, a = .mmio m ∧ pos + m.len ≤ vf.msixNr * 16 ∧ a.step vf = vf.tableWrite pos m) ∨
      ((¬∃ m pos, a = .mmio m ∧ vf.tablePos m = some pos) ∧ (a.step vf).msixShadow = vf.msixShadow) := by
  cases a with
  | mmio m =>
    obtain ⟨pos, hpos, hle, hrun⟩ | ⟨hnone, -⟩ := handlePtMmio_writes m vf
    · exact .inl ⟨m, pos, rfl, hle, hrun⟩
    · right
      constructor
      · rintro ⟨m', pos, hm, hpos⟩
        cases hm
        rw [hnone] at hpos
        cases hpos
      · obtain ⟨-, hsame⟩ | ⟨pos, hpos, -⟩ := handlePtMmio_msix m vf
        · exact hsame.shadow
        · rw [hnone] at hpos
          cases hpos
  | config reg len val io => exact .inr ⟨fun ⟨_, _, ha, _⟩ => (nomatch ha), shadow_ptConfigWrite hdone io reg len val⟩

end Vf

namespace PtMachine

variable {s : PtMachine} {a : VfAct}

/-- What holds from the moment on at which the vectors in `armed` have been armed. -/
structure MasksInv (offset : BitVec 64) (armed : Nat → Prop) (s : PtMachine) : Prop where
  nr : s.vf.msixNr ≤ 32
  region : s.vf.region s.vf.msixTableBar = some offset
  done : s.vf.msixRoutingDone = true
  inTable : ∀ v, armed v → v < s.vf.msixNr
  coherent : ∀ v, armed v → s.Coherent v

/-- The file after a step that arms no vectors. -/
theorem step_file (hdone : s.vf.msixRoutingDone = true) {l : List (BitVec 64 × List (BitVec 8))}
    (hl : s.vf.Wrote (a.step s.vf) l) : (s.step a).file = Vf.putWrites s.file l := by
  unfold step
  dsimp only
  have hno : ¬(s.vf.msixRoutingDone = false ∧ (a.step s.vf).msixRoutingDone = true) := by
    rw [hdone]
    simp
  rw [if_neg hno, hl.pwrites, List.drop_left]

theorem MasksInv.step {offset : BitVec 64} {armed : Nat → Prop} (h : MasksInv offset armed s) (ha : s.SparesMasks a) :
    MasksInv offset armed (s.step a) := by
  have hdone : (s.step a).vf.msixRoutingDone = true := (Vf.delivers_step h.done a).1
  -- what is left to show for a step that writes `l`
  have hinv : ∀ l, s.vf.Wrote (a.step s.vf) l →
      (∀ v, armed v → (Vf.putWrites s.file l).read (s.vf.ctrlPos v).toNat 4 =
        (a.step s.vf).msixShadow.read (v * 16 + 12) 4) → MasksInv offset armed (s.step a) := by
    intro l hl hcoh
    refine ⟨hl.nr.trans_le h.nr, ?_, hdone, fun v hv => hl.nr.symm ▸ h.inTable v hv, fun v hv => ?_⟩
    · show (a.step s.vf).region (a.step s.vf).msixTableBar = some offset
      rw [hl.region, hl.tableBar, h.region]
    · show (s.step a).file.read ((a.step s.vf).ctrlPos v).toNat 4 = _
      rw [step_file h.done hl, hl.ctrlPos]
      exact hcoh v hv
  obtain ⟨m, pos, -, hpos, hrun⟩ | ⟨hno, hshadow⟩ := Vf.step_writes h.done a
  · have hnr := h.nr
    obtain ⟨l, hl, hcoh⟩ := @Vf.tableWrite_spec s.vf offset h.region pos m (by omega)
    rw [← hrun] at hl hcoh
    refine hinv l hl fun v hv => hcoh s.file v ?_ (h.coherent v hv)
    exact Nat.lt_of_lt_of_le (h.inTable v hv) h.nr
  · obtain ⟨l, hl⟩ := Vf.wrote_step h.region h.nr a
    refine hinv l hl fun v hv => ?_
    rw [hshadow, Vf.read_putWrites]
    · exact h.coherent v hv
    · intro w hw
      apply (ha.resolve_left hno) w _ v (h.inTable v hv)
      rwa [hl.pwrites, List.drop_left]

/-- The step that arms puts the words of the two tables in line. -/
theorem masksInv_of_arms {io : Ioctls} {offset : BitVec 64} (hnr : s.vf.msixNr ≤ 32)
    (hregion : s.vf.region s.vf.msixTableBar = some offset) (ha : a.Attempts s.vf io) (hio : io.setIrqs = true) :
    MasksInv offset (s.step a).vf.Programmed (s.step a) := by
  obtain ⟨mc, hstep⟩ := ha.step_eq
  obtain ⟨l, hl, hcoh⟩ := @Vf.msixSetupIrqs_spec { s.vf with msixMsgctl := mc } io hio offset hregion
  rw [← hstep] at hl hcoh
  have hdone : (a.step s.vf).msixRoutingDone = true := by
    rw [hstep]
    exact (Vf.sameMsix_msixSetupIrqs hio _).done
  refine ⟨hl.nr.trans_le hnr, ?_, hdone, fun v hv => hv.1.trans_le (Vf.nr_le_msixNr _), fun v hv => ?_⟩
  · show (a.step s.vf).region (a.step s.vf).msixTableBar = some offset
    rw [hl.region, hl.tableBar]
    exact hregion
  · have hfile : ∃ file, (s.step a).file = Vf.putWrites file l := by
      unfold step
      dsimp only
      rw [hl.pwrites, List.drop_left]
      exact ⟨_, rfl⟩
    obtain ⟨file, hfile⟩ := hfile
    show (s.step a).file.read ((a.step s.vf).ctrlPos v).toNat 4 = _
    rw [hfile, hl.ctrlPos]
    exact hcoh file v hv

/-- The place of the table does not change over a run. -/
theorem place_run {offset : BitVec 64} (hnr : s.vf.msixNr ≤ 32) (hregion : s.vf.region s.vf.msixTableBar = some offset)
    (acts : List VfAct) :
    (runSteps PtMachine.step s acts).vf.msixNr ≤ 32 ∧
      (runSteps PtMachine.step s acts).vf.region (runSteps PtMachine.step s acts).vf.msixTableBar = some offset := by
  induction acts generalizing s with
  | nil => exact ⟨hnr, hregion⟩
  | cons a acts ih =>
    obtain ⟨l, hl⟩ := Vf.wrote_step hregion hnr a
    apply ih
    · exact hl.nr.trans_le hnr
    · show (a.step s.vf).region (a.step s.vf).msixTableBar = some offset
      rw [hl.region, hl.tableBar, hregion]

end PtMachine

/-- Once the vectors have been armed, the Vector Control words of those that had an address then are the same in both
tables after every further step. -/
theorem masks_coherent (device : VfioDevice) (slowpath : Bool) (first : Nat) (file : ByteMem) (pre post : List VfAct)
    (a : VfAct) (io : Ioctls) (hnr : (vfioSetup device slowpath first).msixNr ≤ 32)
    (hregion : device.region (vfioSetup device slowpath first).msixTableBar ≠ none)
    (ha : a.Attempts (runSteps PtMachine.step ⟨vfioSetup device slowpath first, file⟩ pre).vf io)
    (hio : io.setIrqs = true)
    (hpost : AllSteps PtMachine.step PtMachine.SparesMasks
      ((runSteps PtMachine.step ⟨vfioSetup device slowpath first, file⟩ pre).step a) post) (v : Nat)
    (hv : ((runSteps PtMachine.step ⟨vfioSetup device slowpath first, file⟩ pre).step a).vf.Programmed v) :
    (runSteps PtMachine.step
      ((runSteps PtMachine.step ⟨vfioSetup device slowpath first, file⟩ pre).step a) post).Coherent
      v := by
  obtain ⟨offset, hoffset⟩ := Option.ne_none_iff_exists'.1 hregion
  obtain ⟨hnr', hregion'⟩ := @PtMachine.place_run ⟨vfioSetup device slowpath first, file⟩ offset hnr hoffset pre
  have harmed := PtMachine.masksInv_of_arms hnr' hregion' ha hio
  have hinv := AllSteps.inv (fun _ _ hs ha => PtMachine.MasksInv.step hs ha) harmed hpost
  exact hinv.coherent v hv

/-- The guest maps BAR 4 and programs vector 0. -/
def programRun : List VfAct := [.config 0x20 4 0xe0000000 ⟨fun _ => true, true⟩, .mmio (addrWriteAt 0xe0000000)]

/-- MSI-X is enabled, and a write starts in the Vector Control of vector 0. -/
theorem masks_coherent_straddling :
    (runSteps PtMachine.step ((runSteps PtMachine.step ⟨vfioSetup twoVectors false 3, fun _ => 0⟩ programRun).step
      (.config 0x42 2 0x8001 ⟨fun _ => true, true⟩)) [.mmio straddlingWrite]).Coherent 0 := by
  apply masks_coherent twoVectors false 3 (fun _ => 0) programRun [.mmio straddlingWrite] _ ⟨fun _ => true, true⟩
  · decide +kernel
  · exact nofun
  · exact ⟨rfl, by decide +kernel, by decide +kernel, by decide +kernel⟩
  · rfl
  · exact ⟨.inl ⟨straddlingWrite, 12, rfl, by decide +kernel⟩, trivial⟩
  · decide +kernel

end MiniVirt.Vmm
