import MiniVirt.Vmm.Spec.Transfer
import Mathlib.Algebra.Order.BigOperators.Group.List

/-!
# Writes to buffers of the driver

`gather_chain()` notes for every segment whether the device may write to it, and no handler looks at the note.  So the
receive queue of the console fills whatever segments the chain has, and the block device writes its status to the last
one and the data that it has read to those before.  `writableLaw_iff` says for which chains these are bytes that the
device may write.
-/

namespace MiniVirt.Vmm

/-! ### What the device may write -/

/-- `VRING_DESC_F_WRITE` is set. -/
def Desc.writable (d : Desc) : Bool := d.flags &&& vringDescFWrite ≠ 0

/-- The bytes of the writable descriptors. -/
def writableBytes (ds : List Desc) : Set Nat := {a | ∃ d ∈ ds, d.writable = true ∧ a ∈ d.seg.bytes}

/-- How many bytes they have in all. -/
def writableLen (ds : List Desc) : Nat := ((ds.filter Desc.writable).map fun d => d.len.toNat).sum

/-- `used->idx` and the element of the used ring that is next. -/
def usedBytes (s : St) (vq : Vq) : Set Nat :=
  let idx := (vq.used + 2).toNat
  let elem := (vq.used + 4).toNat + 8 * (s.mem.load idx 2 % vq.num.toNat)
  Set.Ico idx (idx + 2) ∪ Set.Ico elem (elem + 8)

/-- From `s` to `s'` bytes in `W` are written only, and no length above `n` is reported. -/
structure WritesOnly (W : Set Nat) (n : Nat) (s s' : St) : Prop where
  mem : ∀ a, a ∉ W → s'.mem a = s.mem a
  trace : ∃ es, s'.trace = s.trace ++ es ∧ written es ⊆ W ∧
    ∀ d qi head len, Event.used d qi head len ∈ es → len.toNat ≤ n

/-- What the handler does with the segments, less the call of `service_vq()` for the receive queue with which
`console_handle()` ends on the transmit queue: this one serves other chains. -/
def handleOwn (d : Dev) (qi : Nat) (segs : List Seg) : V Unit :=
  if d = .console ∧ qi = 1 then transmitSegs segs else do let _ ← devHandle d qi segs

/-- `P` holds for the chains that the receive queue serves in a call of `service_vq()` from `s` on, each at its turn. -/
def ReceiveAll (P : St → BitVec 16 → List Desc → Prop) (s : St) : Prop :=
  ∀ c, ((serviceStart .console 0).run s).1 = .loop c →
    LoopAll (serviceRound consoleReceive .console 0 c.ring c.idx)
      (fun _ t => ∀ head segs t', served t .console 0 c.ring c.idx = some (head, segs, t') →
        ∀ ds, ChainAt t'.mem t'.memSize (t'.vq .console 0) head ds → P t' head ds)
      serviceFuel false ((serviceStart .console 0).run s).2

/-- The handler writes to writable descriptors of the chain `ds` only, `push_used()` to the used ring only, and the
length that it reports is one of writable bytes.  A byte counts as written whatever it held before. -/
structure BufferLaw (d : Dev) (qi : Nat) (s : St) (head : BitVec 16) (ds : List Desc) : Prop where
  handler : WritesOnly (writableBytes ds) (writableLen ds) s ((handleOwn d qi (chainSegs ds)).run s).2
  push : ∀ len s', (devHandle d qi (chainSegs ds)).run s = (some len, s') →
    WritesOnly (usedBytes s' (s'.vq d qi)) (writableLen ds) s' ((pushUsed d qi head len).run s').2

/-- And so do the receive queue's chains that are served on the occasion. -/
structure WritableLaw (d : Dev) (qi : Nat) (s : St) (head : BitVec 16) (ds : List Desc) : Prop extends
    BufferLaw d qi s head ds where
  receive : d = .console → qi = 1 →
    ReceiveAll (BufferLaw .console 0) ((transmitSegs (chainSegs ds)).run s).2

/-! ### The condition -/

/-- The used ring lies in guest RAM: `push_used()` will report. -/
def UsedInRam (s : St) (vq : Vq) : Prop :=
  (gpa2hva s.memSize (vq.used + 2) 2).isSome ∧ (gpa2hva s.memSize (vq.used + 4) (8 * vq.num.setWidth 64)).isSome

/-- The addresses that the pending bytes will go to. -/
def receiveAddrs (s : St) (ds : List Desc) : List Nat := (segAddrs (chainSegs ds)).take s.conIn.bytes.length

/-- The pending bytes meet no descriptor that the device may not write. -/
def ReceiveCond (s : St) (_ : BitVec 16) (ds : List Desc) : Prop :=
  (∀ a ∈ receiveAddrs s ds, a ∈ writableBytes ds) ∧
    (UsedInRam s (s.vq .console 0) → (receiveAddrs s ds).length ≤ writableLen ds)

/-- The header of the request in the chain. -/
def requestHdr (s : St) (ds : List Desc) : List (BitVec 8) := chainPrefix s.mem (chainSegs ds) (s.stale.read 0 16)

/-- The addresses that a `VIRTIO_BLK_T_IN` request reads into: up to the end of the file, or to the call of `pread()`
that fails or stops early. -/
def inAddrs (blk : BlkBackend) (off : BitVec 64) (data : List Seg) : List Nat :=
  if offNeg off then [] else (segAddrs data).take (readPlan blk.ios (blk.content.length - off.toNat) data).1

def readAddrs (s : St) (ds : List Desc) (data : List Seg) : List Nat := inAddrs s.blk (hdrOff (requestHdr s ds)) data

/-- The status byte lies in a writable descriptor, and so does what is read from the file. -/
def BlkCond (s : St) (_ : BitVec 16) (ds : List Desc) : Prop :=
  ∀ data last, blkParts (chainSegs ds) = some (data, last) →
    last.hva ∈ writableBytes ds ∧
      (hdrType (requestHdr s ds) = virtioBlkTIn →
        (∀ a ∈ readAddrs s ds data, a ∈ writableBytes ds) ∧
          (UsedInRam s (s.vq .blk 0) → ((readAddrs s ds data).length + 1) % 2 ^ 32 ≤ writableLen ds))

def WritableCond (d : Dev) (qi : Nat) (s : St) (head : BitVec 16) (ds : List Desc) : Prop :=
  match d with
  | .blk => BlkCond s head ds
  | .console =>
    if qi = 1 then ReceiveAll ReceiveCond ((transmitSegs (chainSegs ds)).run s).2 else ReceiveCond s head ds

/-! ### Writes in a record -/

variable {W : Set Nat} {n : Nat} {s s' : St} {es : List Event}

def writesOnly (W : Set Nat) (n : Nat) : Guarantee St where
  rel := WritesOnly W n
  refl s := ⟨fun _ _ => rfl, [], (List.append_nil _).symm, by rw [written_nil]; exact Set.empty_subset W, nofun⟩
  trans := by
    intro s₁ s₂ s₃ h₁ h₂
    obtain ⟨es₁, htr₁, hw₁, hu₁⟩ := h₁.trace
    obtain ⟨es₂, htr₂, hw₂, hu₂⟩ := h₂.trace
    refine ⟨fun a ha => (h₂.mem a ha).trans (h₁.mem a ha), es₁ ++ es₂, ?_, ?_, fun d qi head len hmem => ?_⟩
    · rw [htr₂, htr₁, List.append_assoc]
    · rw [written_append]
      exact Set.union_subset hw₁ hw₂
    · exact (List.mem_append.1 hmem).elim (hu₁ d qi head len) (hu₂ d qi head len)

theorem WritesOnly.trans {s'' : St} (h : WritesOnly W n s s') (h' : WritesOnly W n s' s'') : WritesOnly W n s s'' :=
  (writesOnly W n).trans h h'

/-- What the record says about a piece of it. -/
theorem WritesOnly.written_subset {es' : List Event} {s'' : St} (h : WritesOnly W n s s'')
    (hes : s'.trace = s.trace ++ es) (hes' : s''.trace = s'.trace ++ es') : written es ⊆ W ∧ written es' ⊆ W := by
  obtain ⟨es₀, htr, hw, -⟩ := h.trace
  rw [hes', hes, List.append_assoc, List.append_cancel_left_eq] at htr
  rw [← htr, written_append] at hw
  exact ⟨Set.subset_union_left.trans hw, Set.subset_union_right.trans hw⟩

/-- What comes after a piece that writes where it may. -/
theorem WritesOnly.tail {es' : List Event} {s'' : St} (h : WritesOnly W n s s'') (h' : WritesOnly W n s s')
    (hes' : s''.trace = s'.trace ++ es') : WritesOnly W n s' s'' := by
  obtain ⟨es, hes, -, -⟩ := h'.trace
  obtain ⟨es₀, htr, -, hu⟩ := h.trace
  refine ⟨fun a ha => (h.mem a ha).trans (h'.mem a ha).symm, es', hes', (h.written_subset hes hes').2, ?_⟩
  intro d qi head len hmem
  refine hu d qi head len ?_
  rw [hes', hes, List.append_assoc, List.append_cancel_left_eq] at htr
  rw [← htr]
  exact List.mem_append_right es hmem

/-- What comes before a piece that writes where it may. -/
theorem WritesOnly.head {es es' : List Event} {s'' : St} (h : WritesOnly W n s s'') (h' : WritesOnly W n s' s'')
    (hes : s'.trace = s.trace ++ es) (hes' : s''.trace = s'.trace ++ es') : WritesOnly W n s s' := by
  obtain ⟨es₀, htr, -, hu⟩ := h.trace
  refine ⟨fun a ha => (h'.mem a ha).symm.trans (h.mem a ha), es, hes, (h.written_subset hes hes').1, ?_⟩
  intro d qi head len hmem
  refine hu d qi head len ?_
  rw [hes', hes, List.append_assoc, List.append_cancel_left_eq] at htr
  rw [← htr]
  exact List.mem_append_left es' hmem

theorem not_used_of_isTransfer (h : ∀ e ∈ es, e.isTransfer = true) {d : Dev} {qi : Nat} {head : BitVec 16}
    {len : BitVec 32} : Event.used d qi head len ∉ es := by
  intro hmem
  cases h _ hmem

theorem WritesOnly.of_reads (h : reads.rel s s') : WritesOnly W n s s' := by
  obtain ⟨es, rfl, hes⟩ := h
  refine ⟨fun _ _ => rfl, es, rfl, ?_, fun d qi head len hmem => ?_⟩
  · rw [written_of_reads hes]
    exact Set.empty_subset W
  · cases hes _ hmem

/-- The bytes `l` go where they may exactly if their addresses are ones. -/
theorem writesOnly_filled_iff {as : List Nat} {l : List (BitVec 8)} (h : Filled as l s s') :
    WritesOnly W n s s' ↔ ∀ a ∈ as.take l.length, a ∈ W := by
  obtain ⟨es, ios, rfl, -, hes, hw⟩ := h
  constructor
  · intro h
    have hsub := (@WritesOnly.written_subset W n s _ es [] _ h rfl (List.append_nil _).symm).1
    rw [hw] at hsub
    exact fun a ha => hsub ha
  · intro h
    refine ⟨fun a ha => ?_, es, rfl, ?_, fun d qi head len hmem => absurd hmem (not_used_of_isTransfer hes)⟩
    · exact ByteMem.scatter_of_not_mem (fun hmem => ha (h a hmem)) s.mem
    · rw [hw]
      exact fun a ha => h a ha

theorem writesOnly_received_iff {as : List Nat} (h : Received as s s') :
    WritesOnly W n s s' ↔ ∀ a ∈ as.take s.conIn.bytes.length, a ∈ W := by
  obtain ⟨c, rfl, -⟩ := h
  have hfilled : Filled as s.conIn.bytes s { s with
      mem := s.mem.scatter as s.conIn.bytes
      trace := s.trace ++ writesAt (as.take s.conIn.bytes.length) } := by
    refine ⟨_, s.blk.ios, rfl, List.suffix_rfl, fun e he => ?_, written_writesAt _⟩
    obtain ⟨a, -, rfl⟩ := List.mem_map.1 he
    rfl
  rw [← writesOnly_filled_iff hfilled]
  exact ⟨fun h => ⟨h.mem, h.trace⟩, fun h => ⟨h.mem, h.trace⟩⟩

theorem guestStore_filled (a k v : Nat) (s : St) :
    Filled (List.range' a k) (leBytes k v) s ((guestStore a k v).run s).2 := by
  have h := guestWrite_filled a k (leBytes k v) s
  rwa [List.take_of_length_le (by rw [length_leBytes])] at h

theorem writesOnly_guestStore_iff (a k v : Nat) (s : St) :
    WritesOnly W n s ((guestStore a k v).run s).2 ↔ ∀ i ∈ List.range' a k, i ∈ W := by
  rw [writesOnly_filled_iff (guestStore_filled a k v s), length_leBytes, List.take_of_length_le (by simp)]

theorem writesOnly_status_iff (status v : Nat) (s : St) :
    WritesOnly W n s ((guestStore status 1 v).run s).2 ↔ status ∈ W := by
  rw [writesOnly_guestStore_iff]
  exact List.forall_mem_singleton

/-! ### The used ring -/

/-- The element that is reported last. -/
theorem writesOnly_log_used_iff {d : Dev} {qi : Nat} {head : BitVec 16} {len : BitVec 32} (h : WritesOnly W n s s') :
    WritesOnly W n s (s'.log (.used d qi head len)) ↔ len.toNat ≤ n := by
  obtain ⟨es, htr, -, -⟩ := h.trace
  constructor
  · intro h'
    obtain ⟨es', htr', -, hle⟩ := h'.trace
    refine hle d qi head len ?_
    have heq : es ++ [.used d qi head len] = es' := by
      refine @List.append_cancel_left _ s.trace _ _ ?_
      rw [← htr', ← List.append_assoc, ← htr]
      rfl
    rw [← heq]
    exact List.mem_append_right es (List.mem_singleton_self _)
  · intro hle
    refine h.trans ⟨fun _ _ => rfl, [.used d qi head len], rfl, ?_, fun d' qi' head' len' hmem => ?_⟩
    · rintro a ⟨off, k, hmem, -⟩
      cases List.mem_singleton.1 hmem
    · obtain ⟨-, -, -, rfl⟩ := Event.used.inj (List.mem_singleton.1 hmem)
      exact hle

theorem writesOnly_pushUsed_iff (d : Dev) (qi : Nat) (head : BitVec 16) (len : BitVec 32) (s : St) :
    WritesOnly (usedBytes s (s.vq d qi)) n s ((pushUsed d qi head len).run s).2 ↔
      (UsedInRam s (s.vq d qi) → len.toNat ≤ n) := by
  unfold UsedInRam
  rw [pushUsed, run_bind, run_get]
  dsimp only
  cases hidx : gpa2hva s.memSize ((s.vq d qi).used + 2) 2 with
  | none => exact ⟨fun _ h => absurd h.1 nofun, fun _ => (writesOnly _ n).refl s⟩
  | some idx =>
    cases helem : gpa2hva s.memSize ((s.vq d qi).used + 4) (8 * (s.vq d qi).num.setWidth 64) with
    | none => exact ⟨fun _ h => absurd h.2 nofun, fun _ => (writesOnly _ n).refl s⟩
    | some uring =>
      obtain rfl := (gpa2hva_eq_some hidx).1
      obtain rfl := (gpa2hva_eq_some helem).1
      dsimp only
      generalize hring : ((s.vq d qi).used + 4).toNat + 8 * (s.mem.load ((s.vq d qi).used + 2).toNat 2 %
        (s.vq d qi).num.toNat) = elem
      have hused : usedBytes s (s.vq d qi) = Set.Ico ((s.vq d qi).used + 2).toNat (((s.vq d qi).used + 2).toNat + 2) ∪
          Set.Ico elem (elem + 8) := by rw [← hring]; rfl
      generalize ((s.vq d qi).used + 2).toNat = idx at hring hused ⊢
      rw [run_bind, show (guestLoad idx 2).run s = (s.mem.load idx 2, s.log (.read idx 2)) from rfl]
      dsimp only
      rw [hring, run_bind, run_bind, run_bind]
      rw [hused]
      generalize hW : Set.Ico idx (idx + 2) ∪ Set.Ico elem (elem + 8) = W
      have hidx : ∀ i ∈ List.range' idx 2, i ∈ W := by
        intro i hi
        rw [← hW]
        exact .inl (List.mem_range'_1.1 hi)
      have hid : ∀ i ∈ List.range' elem 4, i ∈ W := by
        intro i hi
        have hi := List.mem_range'_1.1 hi
        rw [← hW]
        exact .inr ⟨hi.1, by omega⟩
      have hlen : ∀ i ∈ List.range' (elem + 4) 4, i ∈ W := by
        intro i hi
        have hi := List.mem_range'_1.1 hi
        rw [← hW]
        exact .inr ⟨by omega, by omega⟩
      -- the index is read, then id, len and the index are written; all three are in the used ring
      have h₀ : WritesOnly W n s (s.log (.read idx 2)) := .of_reads (log_read s idx 2)
      have h₁ := h₀.trans ((writesOnly_guestStore_iff elem 4 head.toNat _).2 hid)
      have h₂ := h₁.trans ((writesOnly_guestStore_iff (elem + 4) 4 len.toNat _).2 hlen)
      have h₃ := h₂.trans ((writesOnly_guestStore_iff idx 2 (s.mem.load idx 2 + 1) _).2 hidx)
      rw [emit_run]
      exact (writesOnly_log_used_iff h₃).trans ⟨fun hle _ => hle, fun hle => hle ⟨rfl, rfl⟩⟩

/-! ### The receive queue -/

theorem length_bytes_lt (c : ConIn) : c.bytes.length < 2 ^ 32 := by
  unfold ConIn.bytes
  rw [RingBuffer.length_contents]
  exact BitVec.isLt _

theorem bufferLaw_receive_iff (s : St) (head : BitVec 16) (ds : List Desc) :
    BufferLaw .console 0 s head ds ↔ ReceiveCond s head ds := by
  have hlt := length_bytes_lt s.conIn
  obtain ⟨hres, hrec⟩ := receiveSegs_run (chainSegs ds) 0 s
  have hown : ((handleOwn .console 0 (chainSegs ds)).run s).2 = ((receiveSegs (chainSegs ds) 0).run s).2 := rfl
  have hrun : (devHandle .console 0 (chainSegs ds)).run s =
      (some ((receiveSegs (chainSegs ds) 0).run s).1, ((receiveSegs (chainSegs ds) 0).run s).2) := rfl
  have hlen : ((receiveSegs (chainSegs ds) 0).run s).1.toNat = (receiveAddrs s ds).length := by
    unfold receiveAddrs
    rw [hres, zero_add, BitVec.toNat_ofNat, List.length_take, Nat.min_comm, Nat.mod_eq_of_lt (by omega)]
  have hused (n : Nat) (s' : St) (hs' : s' = ((receiveSegs (chainSegs ds) 0).run s).2) :
      UsedInRam s' (s'.vq .console 0) ↔ UsedInRam s (s.vq .console 0) := by
    obtain ⟨c, heq, -⟩ := hrec
    rw [hs', heq]
    exact Iff.rfl
  constructor
  · rintro ⟨hhandler, hpush⟩
    rw [hown, writesOnly_received_iff hrec] at hhandler
    refine ⟨hhandler, fun hram => ?_⟩
    have h := (writesOnly_pushUsed_iff ..).1 (hpush _ _ hrun) ((hused 0 _ rfl).2 hram)
    rwa [hlen] at h
  · rintro ⟨haddrs, hle⟩
    refine ⟨?_, fun len s' hs' => (writesOnly_pushUsed_iff ..).2 fun hram => ?_⟩
    · rw [hown]
      exact (writesOnly_received_iff hrec).2 haddrs
    · obtain ⟨hlen', rfl⟩ := Prod.mk.inj (hrun.symm.trans hs')
      rw [← Option.some.inj hlen', hlen]
      exact hle ((hused 0 _ rfl).1 hram)

/-! ### The block device -/

theorem writesOnly_blk (s : St) (blk : BlkBackend) : (writesOnly W n).rel s { s with blk := blk } :=
  ⟨fun _ _ => rfl, ((writesOnly W n).refl s).trace⟩

theorem blkOut_writesOnly {status : Nat} (hstatus : status ∈ W) (data : List Seg) (off : BitVec 64) :
    Within (writesOnly W n) (blkOut status data off) := by
  induction data generalizing off with
  | nil => exact .pure _
  | cons seg data ih =>
    refine Within.bind (fun s => .of_reads (log_read s _ _)) fun l => Within.fileIo_bind writesOnly_blk _ fun blk => ?_
    split
    · exact fun s => (writesOnly_status_iff status virtioBlkSIoerr s).2 hstatus
    · exact .ite (.pure _) (ih _)

section Request

variable {hdr : List (BitVec 8)} {data : List Seg} {status : Nat}

theorem inAddrs_eq (blk : BlkBackend) {off : BitVec 64} (hoff : offNeg off = false) (data : List Seg) :
    inAddrs blk off data = (segAddrs data).take
      ((blk.content.drop off.toNat).take (readPlan blk.ios (blk.content.length - off.toNat) data).1).length := by
  have hle := (readPlan_le blk.ios (blk.content.length - off.toNat) data).1
  unfold inAddrs
  rw [hoff, List.length_take, List.length_drop, Nat.min_eq_left hle]
  rfl

/-- The write of the status byte, and what follows it. -/
theorem writesOnly_blkRequest_split :
    WritesOnly W n s ((blkRequest hdr data status).run s).2 ↔
      status ∈ W ∧
        WritesOnly W n ((guestStore status 1 virtioBlkSOk).run s).2 ((blkRequest hdr data status).run s).2 := by
  have hstatus := writesOnly_status_iff (W := W) (n := n) status virtioBlkSOk s
  obtain ⟨es, htr, -⟩ := (work_transfers.blkRequest_rest hdr data status s).trace
  refine ⟨fun h => ?_, ?_⟩
  · have hmem : status ∈ W := by
      have hsub := (@WritesOnly.written_subset W n s _ [.write status 1] _ _ h rfl htr).1
      rw [written_write] at hsub
      exact hsub (List.mem_singleton_self status)
    exact ⟨hmem, h.tail (hstatus.2 hmem) htr⟩
  · rintro ⟨hmem, hrest⟩
    exact (hstatus.2 hmem).trans hrest

theorem writesOnly_blkRequest_iff (hcontent : s.blk.content.length < 2 ^ 63) :
    WritesOnly W n s ((blkRequest hdr data status).run s).2 ↔
      status ∈ W ∧ (hdrType hdr = virtioBlkTIn → ∀ a ∈ inAddrs s.blk (hdrOff hdr) data, a ∈ W) := by
  rw [writesOnly_blkRequest_split, blkRequest_run]
  refine and_congr_right fun hmem => ?_
  dsimp only
  have hstore (v : Nat) (s : St) : WritesOnly W n s ((guestStore status 1 v).run s).2 :=
    (writesOnly_status_iff status v s).2 hmem
  have hblk : ((guestStore status 1 virtioBlkSOk).run s).2.blk = s.blk := rfl
  generalize ((guestStore status 1 virtioBlkSOk).run s).2 = s' at hblk ⊢
  by_cases hin : hdrType hdr = virtioBlkTIn
  · rw [if_pos hin, forall_prop_of_true hin, ← hblk]
    rw [← hblk] at hcontent
    cases hoff : offNeg (hdrOff hdr) with
    | true =>
      have hnone : inAddrs s'.blk (hdrOff hdr) data = [] := if_pos hoff
      rw [blkIn_run_neg hoff, hnone]
      refine iff_of_true ?_ (fun a ha => absurd ha List.not_mem_nil)
      dsimp only
      split
      · exact (writesOnly W n).refl s'
      · exact WritesOnly.trans (writesOnly_blk s' _) (hstore _ { s' with blk := s'.blk.next })
    | false =>
      obtain ⟨-, s'', hfilled, hend⟩ := @blkIn_run s' status (hdrOff hdr) 0 data hcontent hoff
      rw [inAddrs_eq _ hoff, ← writesOnly_filled_iff hfilled]
      dsimp only
      rw [hend]
      cases (readPlan s'.blk.ios (s'.blk.content.length - (hdrOff hdr).toNat) data).2 with
      | false => exact Iff.rfl
      | true =>
        -- the status byte is written once more
        obtain ⟨es, ios, rfl, -, -, -⟩ := hfilled
        exact ⟨fun h => h.head (hstore _ _) rfl rfl, fun h => h.trans (hstore _ _)⟩
  · rw [if_neg hin]
    refine iff_of_true ?_ fun h => absurd h hin
    split
    · exact blkOut_writesOnly hmem data _ s'
    · split
      · exact (writesOnly W n).refl s'
      · exact hstore _ s'

/-- The length that is reported. -/
theorem blkRequest_length (hcontent : s.blk.content.length < 2 ^ 63) :
    ((blkRequest hdr data status).run s).1.toNat =
      if hdrType hdr = virtioBlkTIn then ((inAddrs s.blk (hdrOff hdr) data).length + 1) % 2 ^ 32 else 1 := by
  rw [blkRequest_run]
  dsimp only
  have hblk : ((guestStore status 1 virtioBlkSOk).run s).2.blk = s.blk := rfl
  generalize ((guestStore status 1 virtioBlkSOk).run s).2 = s' at hblk ⊢
  by_cases hin : hdrType hdr = virtioBlkTIn
  · rw [if_pos hin, if_pos hin, ← hblk]
    rw [← hblk] at hcontent
    cases hoff : offNeg (hdrOff hdr) with
    | true =>
      have hnone : inAddrs s'.blk (hdrOff hdr) data = [] := if_pos hoff
      rw [blkIn_run_neg hoff, hnone]
      rfl
    | false =>
      have hle := (readPlan_le s'.blk.ios (s'.blk.content.length - (hdrOff hdr).toNat) data).2
      have hlen : (inAddrs s'.blk (hdrOff hdr) data).length =
          (readPlan s'.blk.ios (s'.blk.content.length - (hdrOff hdr).toNat) data).1 := by
        unfold inAddrs
        rw [hoff]
        exact List.length_take_of_le hle
      rw [(blkIn_run hcontent hoff).1, hlen, BitVec.toNat_add, zero_add, BitVec.toNat_ofNat]
      exact Nat.mod_add_mod _ _ _
  · rw [if_neg hin, if_neg hin]
    split
    · rfl
    · split <;> rfl

end Request

theorem mem_writableBytes_len {ds : List Desc} {a : Nat} (h : a ∈ writableBytes ds) : 1 ≤ writableLen ds := by
  obtain ⟨d, hd, hw, hle, hlt⟩ := h
  have hmem : d.len.toNat ∈ (ds.filter Desc.writable).map fun d => d.len.toNat :=
    List.mem_map.2 ⟨d, List.mem_filter.2 ⟨hd, hw⟩, rfl⟩
  have hle' := List.single_le_sum (fun _ _ => Nat.zero_le _) _ hmem
  have hseg : a < d.addr.toNat + d.len.toNat := hlt
  have hbase : d.addr.toNat ≤ a := hle
  unfold writableLen
  omega

theorem bufferLaw_blk_iff (hcontent : s.blk.content.length < 2 ^ 63) (head : BitVec 16) (ds : List Desc) :
    BufferLaw .blk 0 s head ds ↔ BlkCond s head ds := by
  have hown : ((handleOwn .blk 0 (chainSegs ds)).run s).2 = ((blkHandle (chainSegs ds)).run s).2 := rfl
  have hdev : devHandle .blk 0 (chainSegs ds) = blkHandle (chainSegs ds) := rfl
  cases hparts : blkParts (chainSegs ds) with
  | none =>
    have hrun := blkHandle_run_short hparts s
    -- too few segments: the handler gives up with length 0
    refine iff_of_true ⟨?_, fun len s' hs' => (writesOnly_pushUsed_iff ..).2 fun _ => ?_⟩
      fun data last h => absurd (hparts.symm.trans h) nofun
    · rw [hown, hrun]
      exact (writesOnly _ _).refl s
    · rw [hdev, hrun] at hs'
      rw [← Option.some.inj (Prod.mk.inj hs').1]
      exact Nat.zero_le _
  | some parts =>
    obtain ⟨data, last⟩ := parts
    obtain ⟨s₂, hread, hrun⟩ := blkHandle_run hparts s
    have hhdr : chainPrefix s.mem (chainSegs ds) (s.stale.read 0 16) = requestHdr s ds := rfl
    rw [hhdr] at hrun
    have hblk : s₂.blk = s.blk := by
      obtain ⟨es, rfl, -⟩ := hread
      rfl
    -- the header is read only
    have hhead : WritesOnly (writableBytes ds) (writableLen ds) s s₂ :=
      have h := @WritesOnly.of_reads (writableBytes ds) (writableLen ds) _ _ hread
      ⟨h.mem, h.trace⟩
    obtain ⟨es, htr, -⟩ := (work_transfers.blkRequest (requestHdr s ds) data last.hva s₂).trace
    have hhandler := @writesOnly_blkRequest_iff (writableBytes ds) (writableLen ds) s₂ (requestHdr s ds) data last.hva
      (hblk ▸ hcontent)
    have hlen := @blkRequest_length s₂ (requestHdr s ds) data last.hva (hblk ▸ hcontent)
    rw [hblk] at hhandler hlen
    have hwork : work.rel s ((blkHandle (chainSegs ds)).run s).2 := work_transfers.blkHandle _ s
    -- the handler moves no ring
    have hram : UsedInRam ((blkHandle (chainSegs ds)).run s).2 (((blkHandle (chainSegs ds)).run s).2.vq .blk 0) ↔
        UsedInRam s (s.vq .blk 0) := by
      unfold UsedInRam St.vq
      rw [hwork.memSize, hwork.dev]
    rw [hrun] at hram
    constructor
    · rintro ⟨hlaw, hpush⟩ data' last' hparts'
      obtain ⟨rfl, rfl⟩ := Prod.mk.inj (Option.some.inj (hparts.symm.trans hparts'))
      rw [hown, hrun] at hlaw
      obtain ⟨hstatus, haddrs⟩ := hhandler.1 (hlaw.tail hhead htr)
      refine ⟨hstatus, fun hin => ⟨haddrs hin, fun hused => ?_⟩⟩
      have hle := (writesOnly_pushUsed_iff ..).1 (hpush _ _ hrun) (hram.2 hused)
      rwa [hlen, if_pos hin] at hle
    · intro hcond
      obtain ⟨hstatus, hin⟩ := hcond data last hparts
      refine ⟨?_, fun len s' hs' => (writesOnly_pushUsed_iff ..).2 fun hused => ?_⟩
      · rw [hown, hrun]
        exact hhead.trans (hhandler.2 ⟨hstatus, fun h => (hin h).1⟩)
      · obtain ⟨hlen', rfl⟩ := Prod.mk.inj (hrun.symm.trans hs')
        rw [← Option.some.inj hlen', hlen]
        split
        · rename_i h
          exact (hin h).2 (hram.1 hused)
        · exact mem_writableBytes_len hstatus

/-! ### All chains -/

theorem handleOwn_transmit (segs : List Seg) : handleOwn .console 1 segs = transmitSegs segs := rfl

theorem transmitSegs_writesOnly (segs : List Seg) : Within (writesOnly W n) (transmitSegs segs) := by
  induction segs with
  | nil => exact .pure _
  | cons seg segs ih =>
    refine Within.bind (fun s => .of_reads (log_read s _ _)) fun out => Within.bind (fun s => ?_) fun _ => ?_
    · refine ⟨fun _ _ => rfl, [.stdout out], rfl, ?_, fun d qi head len hmem => ?_⟩
      · rintro a ⟨off, k, hmem, -⟩
        cases List.mem_singleton.1 hmem
      · cases List.mem_singleton.1 hmem
    · refine Within.bind (fun s => .of_reads (log_read s _ _)) fun echo => Within.bind (fun s => ?_) fun _ => ih
      exact ⟨fun _ _ => rfl, ((writesOnly W n).refl s).trace⟩

theorem ReceiveAll.congr {P Q : St → BitVec 16 → List Desc → Prop} (h : ∀ s head ds, P s head ds ↔ Q s head ds)
    (s : St) :
    ReceiveAll P s ↔ ReceiveAll Q s := by
  have heq : P = Q := funext fun s => funext fun head => funext fun ds => propext (h s head ds)
  rw [heq]

theorem bufferLaw_transmit (s : St) (head : BitVec 16) (ds : List Desc) : BufferLaw .console 1 s head ds := by
  refine ⟨?_, fun len s' hs' => (writesOnly_pushUsed_iff ..).2 fun _ => ?_⟩
  · rw [handleOwn_transmit]
    exact transmitSegs_writesOnly _ s
  · have hrun : (devHandle .console 1 (chainSegs ds)).run s =
        ((serviceReceive.run ((transmitSegs (chainSegs ds)).run s).2).1.map fun _ => 0,
          (serviceReceive.run ((transmitSegs (chainSegs ds)).run s).2).2) := rfl
    obtain ⟨hlen, -⟩ := Prod.mk.inj (hrun.symm.trans hs')
    obtain ⟨-, -, rfl⟩ := Option.map_eq_some_iff.1 hlen
    exact Nat.zero_le _

/-- In the state in which `gather_chain()` has accepted the chain (`serveHead_run`). -/
theorem writableLaw_iff (d : Dev) (qi : Nat) (s : St) (head : BitVec 16) (ds : List Desc) (hqi : qi < d.nqueues)
    (hcontent : s.blk.content.length < 2 ^ 63) :
    WritableLaw d qi s head ds ↔ WritableCond d qi s head ds := by
  cases d with
  | blk =>
    obtain rfl : qi = 0 := Nat.lt_one_iff.1 hqi
    refine Iff.trans ⟨fun h => h.toBufferLaw, fun h => ⟨h, nofun⟩⟩ (bufferLaw_blk_iff hcontent head ds)
  | console =>
    obtain rfl | rfl : qi = 0 ∨ qi = 1 := by
      have h : qi < 2 := hqi
      omega
    · exact Iff.trans ⟨fun h => h.toBufferLaw, fun h => ⟨h, nofun⟩⟩ (bufferLaw_receive_iff s head ds)
    · refine Iff.trans ⟨fun h => h.receive rfl rfl, fun h => ⟨bufferLaw_transmit s head ds, fun _ _ => h⟩⟩ ?_
      exact ReceiveAll.congr bufferLaw_receive_iff _

/-- A receive queue of one entry whose descriptor is not writable; an `A` is pending. -/
def readOnlyStart : St :=
  let s : St := .initial (ByteMem.store (.store (fun _ => 0) 0x1000 8 0x8000) 0x1008 4 1) 0x4000000 [] true fun _ => 0
  { s.setDev .console ((s.dev .console).setVq 0
      { Vq.zero with num := 1, desc := 0x1000, avail := 0x2000, used := 0x3000, ready := 1 }) with
    conIn := ⟨fun _ => 0x41, 1, 0⟩ }

def readOnlyDesc : Desc := ⟨0x8000, 1, 0, 0⟩

theorem readOnlyChain :
    ChainAt readOnlyStart.mem readOnlyStart.memSize (readOnlyStart.vq .console 0) 0 [readOnlyDesc] := by
  have hdesc : Desc.ofMem readOnlyStart.mem (0x1000 + 16 * (0 : BitVec 16).toNat) = readOnlyDesc := by decide +kernel
  refine ⟨by decide, ?_⟩
  rw [← hdesc]
  exact .last (by decide) (by decide +kernel) (by decide +kernel)

theorem writableLaw_iff_readOnly :
    WritableLaw .console 0 readOnlyStart 0 [readOnlyDesc] ↔ WritableCond .console 0 readOnlyStart 0 [readOnlyDesc] :=
  writableLaw_iff .console 0 readOnlyStart 0 [readOnlyDesc] (by decide) (by decide)

theorem not_writableLaw :
    ¬∀ d qi s head ds, qi < d.nqueues → s.blk.content.length < 2 ^ 63 →
      ChainAt s.mem s.memSize (s.vq d qi) head ds → WritableLaw d qi s head ds := by
  intro h
  have hlaw := h .console 0 readOnlyStart 0 [readOnlyDesc] (by decide) (by decide) readOnlyChain
  have hnone : 0x8000 ∉ writableBytes [readOnlyDesc] := by
    rintro ⟨d, hd, hw, -⟩
    rw [List.mem_singleton.1 hd] at hw
    revert hw
    decide
  have hkept := hlaw.handler.mem 0x8000 hnone
  have hold : readOnlyStart.mem 0x8000 = 0 := by decide +kernel
  have hnew : ((handleOwn .console 0 (chainSegs [readOnlyDesc])).run readOnlyStart).2.mem 0x8000 = 0x41 := by
    decide +kernel
  rw [hold, hnew] at hkept
  revert hkept
  decide

end MiniVirt.Vmm
