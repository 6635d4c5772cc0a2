import MiniVirt.Vmm.Spec.Framing
import MiniVirt.Vmm.Spec.WritableBuffers

/-!
# The block device as a disk

A request for `k` sectors from `sector` on should succeed exactly if the disk has them.  `blk_handle()` never looks at
the capacity: beyond it a write makes the file longer and a read is short, and both report success, unless the offset
is negative as an `off_t` (`diskLaw_iff`).
-/

namespace MiniVirt.Vmm

/-! ### Requests -/

/-- The header in the buffer of the first descriptor. -/
def headerBytes (s : St) (hdr : Desc) : List (BitVec 8) := s.mem.read hdr.addr.toNat 16

/-- `hdr.sector`. -/
def headerSector (s : St) (hdr : Desc) : Nat := leNat (((headerBytes s hdr).drop 8).take 8)

/-- A request to read or write `k` sectors: a header of 16 bytes, the data, a status of one byte, in buffers of their
own. -/
structure DiskRequest (s : St) (hdr : Desc) (data : List Desc) (status : Desc) (k : Nat) : Prop where
  hdrLen : hdr.len = 16
  dataLen : (descBytes s.mem data).length = 512 * k
  statusLen : status.len = 1
  disjoint : (segAddrs ((hdr :: (data ++ [status])).map Desc.seg)).Nodup
  type : hdrType (headerBytes s hdr) = virtioBlkTIn ∨ hdrType (headerBytes s hdr) = virtioBlkTOut
  /-- There are no I/O errors, and inside the file `pread()` and `pwrite()` transfer fully. -/
  full : ∀ d ∈ data, s.blk.TransfersFully d.len.toNat

/-- The file has all sectors of the disk, and a length that `off_t` can express. -/
structure DiskFile (blk : BlkBackend) : Prop where
  sectors : 512 * blk.capacity.toNat ≤ blk.content.length
  length : blk.content.length < 2 ^ 63

/-- When `blk_handle()` is done with the chain. -/
def St.handled (s : St) (hdr : Desc) (data : List Desc) (status : Desc) : St :=
  ((blkHandle (chainSegs (hdr :: (data ++ [status])))).run s).2

/-- The status is `VIRTIO_BLK_S_OK`. -/
def StatusOk (s' : St) (status : Desc) : Prop := s'.mem status.addr.toNat = .ofNat 8 virtioBlkSOk

/-- The request of `k` sectors is one to a disk. -/
structure DiskLaw (s : St) (hdr : Desc) (data : List Desc) (status : Desc) (k : Nat) : Prop where
  /-- A status is written. -/
  completes : ∃ es, (s.handled hdr data status).trace = s.trace ++ es ∧ status.addr.toNat ∈ written es
  ok : StatusOk (s.handled hdr data status) status ↔ headerSector s hdr + k ≤ s.blk.capacity.toNat
  out : hdrType (headerBytes s hdr) = virtioBlkTOut → StatusOk (s.handled hdr data status) status →
    (s.handled hdr data status).blk.content =
      s.blk.content.take (512 * headerSector s hdr) ++ descBytes s.mem data ++
        s.blk.content.drop (512 * (headerSector s hdr + k))
  inn : hdrType (headerBytes s hdr) = virtioBlkTIn → StatusOk (s.handled hdr data status) status →
    descBytes (s.handled hdr data status).mem data = (s.blk.content.drop (512 * headerSector s hdr)).take (512 * k)
  fails : ¬StatusOk (s.handled hdr data status) status → (s.handled hdr data status).blk.content = s.blk.content
  size : (s.handled hdr data status).blk.content.length ≤ s.blk.content.length

/-! ### The condition -/

/-- `gather_chain()` stores the header, 62 data descriptors and one more. -/
def storedData (data : List Desc) : List Desc := data.take 62

def unstoredData (data : List Desc) : List Desc := data.drop 62

def lastStored (data : List Desc) (status : Desc) : Desc := (unstoredData data).headD status

/-- What there is in the data buffers that are not stored is what the file holds at their place. -/
def UnstoredHold (s : St) (hdr : Desc) (data : List Desc) : Prop :=
  descBytes s.mem (unstoredData data) =
    (s.blk.content.drop (512 * headerSector s hdr + (descBytes s.mem (storedData data)).length)).take
      (descBytes s.mem (unstoredData data)).length

/-- The status is where the last stored descriptor starts; and the disk has the sectors, or there is something to
transfer, at an offset that is negative. -/
def DiskCond (s : St) (hdr : Desc) (data : List Desc) (status : Desc) (k : Nat) : Prop :=
  (lastStored data status).addr = status.addr ∧
    (headerSector s hdr + k ≤ s.blk.capacity.toNat ∧ UnstoredHold s hdr data ∨
      s.blk.capacity.toNat < headerSector s hdr + k ∧ offNeg (hdrOff (headerBytes s hdr)) = true ∧ data ≠ [])

/-! ### The run -/

variable {s : St} {hdr status : Desc} {data : List Desc} {k : Nat}

theorem take_concat_succ {α : Type} (l : List α) (x : α) (n : Nat) :
    (l ++ [x]).take (n + 1) = l.take n ++ [(l.drop n).headD x] := by
  induction l generalizing n with
  | nil => cases n <;> rfl
  | cons y l ih =>
    cases n with
    | zero => rfl
    | succ n =>
      rw [List.cons_append, List.take_succ_cons, ih, List.take_succ_cons, List.drop_succ_cons, List.cons_append]

theorem chainSegs_request (hdr status : Desc) (data : List Desc) :
    chainSegs (hdr :: (data ++ [status])) =
      hdr.seg :: ((storedData data).map Desc.seg ++ [(lastStored data status).seg]) := by
  unfold chainSegs
  rw [← List.map_take, show vqMaxSegs = 62 + 1 + 1 from rfl, List.take_succ_cons, take_concat_succ, List.map_cons,
    List.map_append]
  rfl

/-- The addresses of the whole chain. -/
theorem segAddrs_request (h : DiskRequest s hdr data status k) :
    segAddrs ((hdr :: (data ++ [status])).map Desc.seg) =
      List.range' hdr.addr.toNat 16 ++
        (segAddrs ((storedData data).map Desc.seg) ++ segAddrs ((unstoredData data).map Desc.seg)) ++
          [status.addr.toNat] := by
  have hdata : data = storedData data ++ unstoredData data := (List.take_append_drop 62 data).symm
  have happend (segs segs' : List Seg) : segAddrs (segs ++ segs') = segAddrs segs ++ segAddrs segs' :=
      List.flatMap_append
  have hfirst : List.range' hdr.seg.hva hdr.seg.len.toNat = List.range' hdr.addr.toNat 16 :=
    congrArg (fun n : BitVec 32 => List.range' hdr.addr.toNat n.toNat) h.hdrLen
  have hlast : segAddrs [status.seg] = [status.addr.toNat] := by
    rw [segAddrs, List.flatMap_singleton]
    exact congrArg (fun n : BitVec 32 => List.range' status.addr.toNat n.toNat) h.statusLen
  rw [List.map_cons, List.map_append, segAddrs_cons, happend, hfirst, List.map_singleton, hlast, List.append_assoc]
  conv_lhs => rw [hdata, List.map_append, happend]

/-- The buffers apart. -/
structure Apart (data : List Desc) (status : Desc) : Prop where
  nodup : (segAddrs ((storedData data).map Desc.seg)).Nodup
  unstored : ∀ a ∈ segAddrs ((unstoredData data).map Desc.seg), a ∉ segAddrs ((storedData data).map Desc.seg)
  statusStored : status.addr.toNat ∉ segAddrs ((storedData data).map Desc.seg)
  statusUnstored : status.addr.toNat ∉ segAddrs ((unstoredData data).map Desc.seg)

theorem DiskRequest.apart (h : DiskRequest s hdr data status k) : Apart data status := by
  have hnodup := h.disjoint
  rw [segAddrs_request h] at hnodup
  obtain ⟨hfront, -, hdisj⟩ := List.nodup_append'.1 hnodup
  obtain ⟨-, hdata, -⟩ := List.nodup_append'.1 hfront
  obtain ⟨hstored, -, hapart⟩ := List.nodup_append'.1 hdata
  refine ⟨hstored, fun a ha hmem => hapart hmem ha, fun hmem => ?_, fun hmem => ?_⟩
  · exact hdisj (List.mem_append_right _ (List.mem_append_left _ hmem)) (List.mem_singleton_self _)
  · exact hdisj (List.mem_append_right _ (List.mem_append_right _ hmem)) (List.mem_singleton_self _)

theorem blkParts_request (hdr status : Desc) (data : List Desc) :
    blkParts (chainSegs (hdr :: (data ++ [status]))) =
      some ((storedData data).map Desc.seg, (lastStored data status).seg) := by
  rw [chainSegs_request, blkParts_framed]

/-- The transfer starts with the status in place. -/
theorem handled_run (h : DiskRequest s hdr data status k) :
    ∃ s₃, s₃.mem = s.mem.store (lastStored data status).addr.toNat 1 virtioBlkSOk ∧ s₃.blk = s.blk ∧
      s.handled hdr data status =
        if hdrType (headerBytes s hdr) = virtioBlkTIn then
          ((blkIn (lastStored data status).addr.toNat ((storedData data).map Desc.seg)
            (hdrOff (headerBytes s hdr)) 0).run s₃).2
        else
          ((blkOut (lastStored data status).addr.toNat ((storedData data).map Desc.seg)
            (hdrOff (headerBytes s hdr))).run s₃).2 := by
  obtain ⟨s₂, hread, hrun⟩ := blkHandle_run (blkParts_request hdr status data) s
  have hhdr : chainPrefix s.mem (chainSegs (hdr :: (data ++ [status]))) (s.stale.read 0 16) = headerBytes s hdr := by
    have hfirst : s.mem.read hdr.seg.hva hdr.seg.len.toNat = headerBytes s hdr :=
      congrArg (fun n : BitVec 32 => s.mem.read hdr.addr.toNat n.toNat) h.hdrLen
    have hlen : (headerBytes s hdr).length = 16 := ByteMem.length_read ..
    have hcons (segs : List Seg) : segBytes s.mem (hdr.seg :: segs) = headerBytes s hdr ++ segBytes s.mem segs := by
      rw [← hfirst]
      rfl
    unfold chainPrefix
    rw [chainSegs_request, hcons, ByteMem.length_read, List.take_left' hlen, List.drop_of_length_le, List.append_nil]
    rw [ByteMem.length_read, List.length_append, hlen]
    exact Nat.le_add_right _ _
  refine ⟨((guestStore (lastStored data status).addr.toNat 1 virtioBlkSOk).run s₂).2, ?_, hread.blk, ?_⟩
  · exact congrArg (ByteMem.store · (lastStored data status).addr.toNat 1 virtioBlkSOk) hread.mem
  · unfold St.handled
    rw [hrun, hhdr, blkRequest_run]
    dsimp only
    by_cases hin : hdrType (headerBytes s hdr) = virtioBlkTIn
    · rw [if_pos hin, if_pos hin]
      rfl
    · rw [if_neg hin, if_neg hin, if_pos (h.type.resolve_left hin)]
      rfl

theorem descBytes_eq_gather (m : ByteMem) (ds : List Desc) :
    descBytes m ds = m.gather (segAddrs (ds.map Desc.seg)) := by
  rw [← segBytes_eq_gather, segBytes_map]

theorem descBytes_split (m : ByteMem) (data : List Desc) :
    descBytes m data = descBytes m (storedData data) ++ descBytes m (unstoredData data) := by
  rw [← descBytes_append]
  unfold storedData unstoredData
  rw [List.take_append_drop]

theorem length_descBytes (m : ByteMem) (ds : List Desc) :
    (descBytes m ds).length = (segAddrs (ds.map Desc.seg)).length := by
  rw [descBytes_eq_gather, ByteMem.length_gather]

/-- The status does not touch the other buffers. -/
theorem gather_store_status {m : ByteMem} {a v : Nat} {as : List Nat} (h : a ∉ as) :
    (m.store a 1 v).gather as = m.gather as := by
  refine ByteMem.gather_congr fun i hi => ByteMem.store_of_not_mem ?_
  have hne : i ≠ a := ne_of_mem_of_not_mem hi h
  omega

theorem store_status_self (m : ByteMem) (a v : Nat) : m.store a 1 v a = .ofNat 8 v := by
  have h : m.store a 1 v = Function.update m a (.ofNat 8 v) := ByteMem.write_singleton ..
  rw [h, Function.update_self]

/-- A status is written to the last stored descriptor, wherever it starts. -/
theorem completes_iff (h : DiskRequest s hdr data status k) (hfile : DiskFile s.blk) :
    (∃ es, (s.handled hdr data status).trace = s.trace ++ es ∧ status.addr.toNat ∈ written es) ↔
      (lastStored data status).addr = status.addr := by
  obtain ⟨s₂, hread, hrun⟩ := blkHandle_run (blkParts_request hdr status data) s
  generalize chainPrefix s.mem (chainSegs (hdr :: (data ++ [status]))) (s.stale.read 0 16) = bytes at hrun
  have hend : s.handled hdr data status =
      ((blkRequest bytes ((storedData data).map Desc.seg) (lastStored data status).seg.hva).run s₂).2 := by
    unfold St.handled
    rw [hrun]
  rw [hend]
  constructor
  · rintro ⟨es, htr, hmem⟩
    -- only the last stored descriptor and the stored data are written, and the status byte lies in neither
    by_contra hne
    generalize hW : {a | a = (lastStored data status).addr.toNat ∨ a ∈ segAddrs ((storedData data).map Desc.seg)} = W
    have honly : WritesOnly W 0 s₂ ((blkRequest bytes ((storedData data).map Desc.seg)
        (lastStored data status).seg.hva).run s₂).2 := by
      refine (writesOnly_blkRequest_iff (hread.blk ▸ hfile.length)).2 ⟨?_, fun _ a ha => ?_⟩
      · rw [← hW]
        exact .inl rfl
      · rw [← hW]
        refine .inr ?_
        unfold inAddrs at ha
        split at ha
        · cases ha
        · exact List.mem_of_mem_take ha
    obtain ⟨es₀, htr₀, -⟩ := honly.trace
    obtain ⟨es₁, rfl, hes₁⟩ := hread
    have hsub := (@WritesOnly.written_subset W 0 _ _ [] es₀ _ honly (List.append_nil _).symm htr₀).2
    rw [htr₀, List.append_assoc, List.append_cancel_left_eq] at htr
    rw [← htr, written_append, written_of_reads hes₁, Set.empty_union] at hmem
    have hstatus := hsub hmem
    rw [← hW] at hstatus
    obtain heq | hstored := hstatus
    · exact hne (BitVec.eq_of_toNat_eq heq.symm)
    · exact h.apart.statusStored hstored
  · intro heq
    obtain ⟨es, htr, -⟩ := (work_transfers.blkRequest_rest bytes ((storedData data).map Desc.seg)
      (lastStored data status).seg.hva s₂).trace
    obtain ⟨es₀, rfl, -⟩ := hread
    refine ⟨es₀ ++ (.write (lastStored data status).seg.hva 1 :: es), ?_, ?_⟩
    · refine htr.trans ?_
      show s.trace ++ es₀ ++ [.write _ 1] ++ es = _
      rw [List.append_assoc, List.append_assoc]
      rfl
    · rw [← heq]
      exact ⟨_, 1, List.mem_append_right _ List.mem_cons_self, le_rfl, Nat.lt_succ_self _⟩

/-! ### Requests that the disk has the sectors for -/

theorem headerSector_lt (s : St) (hdr : Desc) : headerSector s hdr < 2 ^ 64 := by
  have hlt := leNat_lt (((headerBytes s hdr).drop 8).take 8)
  have hlen : (((headerBytes s hdr).drop 8).take 8).length = 8 := by
    unfold headerBytes
    rw [List.length_take, List.length_drop, ByteMem.length_read]
    rfl
  rw [hlen] at hlt
  exact hlt

theorem toNat_hdrOff (s : St) (hdr : Desc) :
    (hdrOff (headerBytes s hdr)).toNat = 512 * headerSector s hdr % 2 ^ 64 := by
  have hlt := headerSector_lt s hdr
  show ((BitVec.ofNat 64 (headerSector s hdr)) * 512).toNat = _
  rw [BitVec.toNat_mul, BitVec.toNat_ofNat, Nat.mod_eq_of_lt hlt, Nat.mul_comm]
  rfl

/-- The offset of a request within the disk. -/
theorem hdrOff_of_le (hfile : DiskFile s.blk) (hin : headerSector s hdr + k ≤ s.blk.capacity.toNat) :
    (hdrOff (headerBytes s hdr)).toNat = 512 * headerSector s hdr ∧ offNeg (hdrOff (headerBytes s hdr)) = false := by
  have hsectors := hfile.sectors
  have hlength := hfile.length
  have hoff := toNat_hdrOff s hdr
  rw [Nat.mod_eq_of_lt (by omega)] at hoff
  exact ⟨hoff, (offNeg_eq_false_iff _).2 (by omega)⟩

theorem DiskRequest.fullStored (h : DiskRequest s hdr data status k) {s' : St} (hblk : s'.blk = s.blk) :
    ∀ seg ∈ (storedData data).map Desc.seg, s'.blk.TransfersFully seg.len.toNat := by
  intro seg hseg
  obtain ⟨d, hd, rfl⟩ := List.mem_map.1 hseg
  rw [hblk]
  exact h.full d (List.mem_of_mem_take hd)

theorem DiskRequest.lengths (h : DiskRequest s hdr data status k) :
    (descBytes s.mem (storedData data)).length + (descBytes s.mem (unstoredData data)).length = 512 * k := by
  rw [← h.dataLen, descBytes_split s.mem data, List.length_append]

theorem handled_out (h : DiskRequest s hdr data status k) (hfile : DiskFile s.blk)
    (hin : headerSector s hdr + k ≤ s.blk.capacity.toNat) (hlast : (lastStored data status).addr = status.addr)
    (hout : hdrType (headerBytes s hdr) = virtioBlkTOut) :
    StatusOk (s.handled hdr data status) status ∧
      (s.handled hdr data status).blk.content =
        fileWrite s.blk.content (descBytes s.mem (storedData data)) (512 * headerSector s hdr) := by
  obtain ⟨s₃, hmem, hblk, hrun⟩ := handled_run h
  obtain ⟨hoff, -⟩ := hdrOff_of_le hfile hin
  have hlen := h.lengths
  have hsectors := hfile.sectors
  have hlength := hfile.length
  have hstored := length_descBytes s.mem (storedData data)
  rw [if_neg (by rw [hout]; decide)] at hrun
  obtain ⟨es, ios, hout, -⟩ := @blkOut_run s₃ (lastStored data status).addr.toNat (hdrOff (headerBytes s hdr))
    ((storedData data).map Desc.seg) (by omega) (h.fullStored hblk)
  have hbytes : segBytes s₃.mem ((storedData data).map Desc.seg) = descBytes s.mem (storedData data) := by
    rw [segBytes_eq_gather, hmem, hlast, gather_store_status h.apart.statusStored, descBytes_eq_gather]
  unfold StatusOk
  rw [hrun, hout, hbytes, hblk, hoff]
  refine ⟨?_, rfl⟩
  show s₃.mem status.addr.toNat = _
  rw [hmem, hlast, store_status_self]

theorem handled_in (h : DiskRequest s hdr data status k) (hfile : DiskFile s.blk)
    (hin : headerSector s hdr + k ≤ s.blk.capacity.toNat) (hlast : (lastStored data status).addr = status.addr)
    (htype : hdrType (headerBytes s hdr) = virtioBlkTIn) :
    StatusOk (s.handled hdr data status) status ∧ (s.handled hdr data status).blk.content = s.blk.content ∧
      descBytes (s.handled hdr data status).mem data =
        (s.blk.content.drop (512 * headerSector s hdr)).take (descBytes s.mem (storedData data)).length ++
          descBytes s.mem (unstoredData data) := by
  obtain ⟨s₃, hmem, hblk, hrun⟩ := handled_run h
  obtain ⟨hoff, hneg⟩ := hdrOff_of_le hfile hin
  have hlen := h.lengths
  have hsectors := hfile.sectors
  have hstored := length_descBytes s.mem (storedData data)
  have hapart := h.apart
  rw [if_pos htype] at hrun
  obtain ⟨es, ios, hfill, -⟩ := @blkIn_run_full s₃ (lastStored data status).addr.toNat (hdrOff (headerBytes s hdr)) 0
    ((storedData data).map Desc.seg) (hblk ▸ hfile.length) hneg (h.fullStored hblk)
  have hcontent : s₃.blk.content = s.blk.content := congrArg BlkBackend.content hblk
  -- the file has all that is asked for
  have hl : ((s₃.blk.content.drop (hdrOff (headerBytes s hdr)).toNat).take
      (segAddrs ((storedData data).map Desc.seg)).length).length =
          (segAddrs ((storedData data).map Desc.seg)).length := by
    rw [List.length_take, List.length_drop, hoff, hblk]
    omega
  generalize hL : (s₃.blk.content.drop (hdrOff (headerBytes s hdr)).toNat).take
    (segAddrs ((storedData data).map Desc.seg)).length = l at hl hfill
  rw [hblk, hoff, ← hstored] at hL
  unfold StatusOk
  rw [hrun, hfill, hL]
  refine ⟨?_, hcontent, ?_⟩
  · show s₃.mem.scatter _ l status.addr.toNat = _
    rw [ByteMem.scatter_of_not_mem fun hmem => hapart.statusStored (List.mem_of_mem_take hmem), hmem, hlast,
      store_status_self]
  · show descBytes (s₃.mem.scatter _ l) data = _
    rw [descBytes_split, descBytes_eq_gather, ByteMem.gather_scatter hapart.nodup hl.le,
      List.drop_of_length_le (by rw [ByteMem.length_gather, hl]), List.append_nil, descBytes_eq_gather,
      ByteMem.gather_scatter_of_disjoint hapart.unstored, hmem, hlast, gather_store_status hapart.statusUnstored,
      ← descBytes_eq_gather]

theorem fileWrite_eq_patch {content l : List (BitVec 8)} {off : Nat} (h : off + l.length ≤ content.length) :
    fileWrite content l off = patch content off l := by
  unfold fileWrite patch
  split
  · rename_i hnil
    rw [hnil, List.append_nil, List.length_nil, Nat.add_zero, List.take_append_drop]
  · rw [Nat.sub_eq_zero_of_le (by omega), List.replicate_zero, List.append_nil]

/-- The data that are not transferred may as well be. -/
theorem patch_eq_append_iff {content l l' : List (BitVec 8)} {off : Nat} :
    patch content off l = content.take off ++ (l ++ l') ++ content.drop (off + (l.length + l'.length)) ↔
      l' = (content.drop (off + l.length)).take l'.length := by
  have hsplit := (List.take_append_drop l'.length (content.drop (off + l.length))).symm
  rw [List.drop_drop, Nat.add_assoc] at hsplit
  unfold patch
  rw [List.append_assoc, List.append_assoc, List.append_cancel_left_eq, List.append_assoc, List.append_cancel_left_eq]
  constructor
  · intro h
    have htake := congrArg (List.take l'.length) h
    rw [List.take_left] at htake
    exact htake.symm
  · intro h
    rw [hsplit, ← h]

/-! ### Requests beyond the disk -/

/-- The offset is refused. -/
theorem handled_neg (h : DiskRequest s hdr data status k) (hlast : (lastStored data status).addr = status.addr)
    (hneg : offNeg (hdrOff (headerBytes s hdr)) = true) (hdata : data ≠ []) :
    ¬StatusOk (s.handled hdr data status) status ∧ (s.handled hdr data status).blk.content = s.blk.content := by
  obtain ⟨s₃, hmem, hblk, hrun⟩ := handled_run h
  have hne : (storedData data).map Desc.seg ≠ [] := by
    intro hnil
    refine hdata ?_
    have hstored := List.map_eq_nil_iff.1 hnil
    exact (List.take_eq_nil_iff.1 hstored).resolve_left (by decide)
  have hcontent : s₃.blk.content = s.blk.content := congrArg BlkBackend.content hblk
  -- either way the first call fails, and the last thing written is the status
  have hfinal : ∃ s₄ : St, s₄.blk.content = s.blk.content ∧ s.handled hdr data status =
      ((guestStore (lastStored data status).addr.toNat 1 virtioBlkSIoerr).run s₄).2 := by
    rw [hrun]
    split
    · refine ⟨{ s₃ with blk := s₃.blk.next }, hcontent, ?_⟩
      rw [blkIn_run_neg hneg, if_neg hne]
    · obtain ⟨e, -, hout⟩ := @blkOut_run_neg s₃ (lastStored data status).addr.toNat _ _ hneg hne
      exact ⟨{ s₃.log e with blk := s₃.blk.next }, hcontent, hout⟩
  obtain ⟨s₄, hblk₄, hfinal⟩ := hfinal
  rw [hfinal]
  refine ⟨?_, hblk₄⟩
  show ¬s₄.mem.store _ 1 virtioBlkSIoerr status.addr.toNat = _
  rw [hlast, store_status_self]
  decide

/-- Any other one is not, or it has made the file longer. -/
theorem handled_beyond (h : DiskRequest s hdr data status k) (hfile : DiskFile s.blk)
    (hlast : (lastStored data status).addr = status.addr)
    (hgo : ¬(offNeg (hdrOff (headerBytes s hdr)) = true ∧ data ≠ [])) :
    StatusOk (s.handled hdr data status) status ∨
      s.blk.content.length < (s.handled hdr data status).blk.content.length := by
  obtain ⟨s₃, hmem, hblk, hrun⟩ := handled_run h
  have hlength := hfile.length
  have hok : s₃.mem status.addr.toNat = .ofNat 8 virtioBlkSOk := by rw [hmem, hlast, store_status_self]
  unfold StatusOk
  rw [hrun]
  cases hneg : offNeg (hdrOff (headerBytes s hdr)) with
  | true =>
    -- there are no data, and so nothing is refused
    have hnil : data = [] := by
      by_contra hne
      exact hgo ⟨hneg, hne⟩
    subst hnil
    refine .inl ?_
    split <;> exact hok
  | false =>
    split
    · -- a read comes to the end of the file
      obtain ⟨es, ios, hfill, -⟩ :=
        @blkIn_run_full s₃ (lastStored data status).addr.toNat (hdrOff (headerBytes s hdr)) 0
        ((storedData data).map Desc.seg) (hblk ▸ hlength) hneg (h.fullStored hblk)
      refine .inl ?_
      rw [hfill]
      refine (ByteMem.scatter_of_not_mem (fun hmem => ?_) _).trans hok
      exact h.apart.statusStored (List.mem_of_mem_take hmem)
    · -- a write makes the file longer; only the greatest offset stops it
      by_cases hend : (hdrOff (headerBytes s hdr)).toNat + (segAddrs ((storedData data).map Desc.seg)).length < 2 ^ 63
      · obtain ⟨es, ios, hout, -⟩ := @blkOut_run s₃ (lastStored data status).addr.toNat (hdrOff (headerBytes s hdr))
          ((storedData data).map Desc.seg) hend (h.fullStored hblk)
        refine .inl ?_
        rw [hout]
        exact hok
      · have hlong := @blkOut_long s₃ (lastStored data status).addr.toNat (hdrOff (headerBytes s hdr))
          ((storedData data).map Desc.seg) hneg (by omega) (h.fullStored hblk)
        exact .inr (by omega)

/-! ### The law -/

/-- An accepted write of the disk stores the data exactly if those that are not transferred are there already. -/
theorem content_eq_iff (h : DiskRequest s hdr data status k) (hfile : DiskFile s.blk)
    (hin : headerSector s hdr + k ≤ s.blk.capacity.toNat) :
    fileWrite s.blk.content (descBytes s.mem (storedData data)) (512 * headerSector s hdr) =
        s.blk.content.take (512 * headerSector s hdr) ++ descBytes s.mem data ++
          s.blk.content.drop (512 * (headerSector s hdr + k)) ↔
      UnstoredHold s hdr data := by
  have hlen := h.lengths
  have hsectors := hfile.sectors
  have hfits : 512 * headerSector s hdr + (descBytes s.mem (storedData data)).length ≤ s.blk.content.length := by omega
  have hend : 512 * (headerSector s hdr + k) =
      512 * headerSector s hdr +
        ((descBytes s.mem (storedData data)).length + (descBytes s.mem (unstoredData data)).length) := by omega
  rw [fileWrite_eq_patch hfits, descBytes_split s.mem data, hend]
  exact patch_eq_append_iff

/-- The same for a read. -/
theorem filled_eq_iff (h : DiskRequest s hdr data status k) :
    (s.blk.content.drop (512 * headerSector s hdr)).take (descBytes s.mem (storedData data)).length ++
          descBytes s.mem (unstoredData data) =
        (s.blk.content.drop (512 * headerSector s hdr)).take (512 * k) ↔
      UnstoredHold s hdr data := by
  rw [← h.lengths, List.take_add, List.append_cancel_left_eq, List.drop_drop]
  rfl

theorem diskCond_of_diskLaw (h : DiskRequest s hdr data status k) (hfile : DiskFile s.blk)
    (hlaw : DiskLaw s hdr data status k) : DiskCond s hdr data status k := by
  have hlast := (completes_iff h hfile).1 hlaw.completes
  refine ⟨hlast, ?_⟩
  by_cases hin : headerSector s hdr + k ≤ s.blk.capacity.toNat
  · refine .inl ⟨hin, ?_⟩
    rcases h.type with htype | htype
    · obtain ⟨hok, -, hfilled⟩ := handled_in h hfile hin hlast htype
      rw [← filled_eq_iff h, ← hfilled]
      exact hlaw.inn htype hok
    · obtain ⟨hok, hcontent⟩ := handled_out h hfile hin hlast htype
      rw [← content_eq_iff h hfile hin, ← hcontent]
      exact hlaw.out htype hok
  · refine .inr ⟨Nat.lt_of_not_le hin, ?_⟩
    by_contra hgo
    rcases handled_beyond h hfile hlast hgo with hok | hlong
    · exact hin (hlaw.ok.1 hok)
    · exact absurd hlaw.size (Nat.not_le_of_lt hlong)

theorem diskLaw_of_diskCond (h : DiskRequest s hdr data status k) (hfile : DiskFile s.blk)
    (hcond : DiskCond s hdr data status k) : DiskLaw s hdr data status k := by
  obtain ⟨hlast, ⟨hin, hhold⟩ | ⟨hbeyond, hneg, hdata⟩⟩ := hcond
  · rcases h.type with htype | htype
    · obtain ⟨hok, hcontent, hfilled⟩ := handled_in h hfile hin hlast htype
      have hnot : hdrType (headerBytes s hdr) ≠ virtioBlkTOut := by
        rw [htype]
        decide
      exact {
        completes := (completes_iff h hfile).2 hlast
        ok := iff_of_true hok hin
        out := fun hout => absurd hout hnot
        inn := fun _ _ => hfilled.trans ((filled_eq_iff h).2 hhold)
        fails := fun _ => hcontent
        size := (congrArg List.length hcontent).le
      }
    · obtain ⟨hok, hcontent⟩ := handled_out h hfile hin hlast htype
      have hnot : hdrType (headerBytes s hdr) ≠ virtioBlkTIn := by
        rw [htype]
        decide
      have hwhole := hcontent.trans ((content_eq_iff h hfile hin).2 hhold)
      refine {
        completes := (completes_iff h hfile).2 hlast
        ok := iff_of_true hok hin
        out := fun _ _ => hwhole
        inn := fun hinn => absurd hinn hnot
        fails := fun hbad => absurd hok hbad
        size := ?_
      }
      have hsectors := hfile.sectors
      rw [hwhole, List.length_append, List.length_append, List.length_take, List.length_drop, h.dataLen]
      omega
  · obtain ⟨hbad, hcontent⟩ := handled_neg h hlast hneg hdata
    exact {
      completes := (completes_iff h hfile).2 hlast
      ok := iff_of_false hbad (Nat.not_le_of_lt hbeyond)
      out := fun _ hok => absurd hok hbad
      inn := fun _ hok => absurd hok hbad
      fails := fun _ => hcontent
      size := (congrArg List.length hcontent).le
    }

/-- The block device is a disk for those requests. -/
theorem diskLaw_iff (h : DiskRequest s hdr data status k) (hfile : DiskFile s.blk) :
    DiskLaw s hdr data status k ↔ DiskCond s hdr data status k :=
  ⟨diskCond_of_diskLaw h hfile, diskLaw_of_diskCond h hfile⟩

/-- A disk of one sector; the header at 0x1000 asks to read sector `sector`. -/
def readSector (sector : Nat) : St :=
  .initial (ByteMem.store (fun _ => 0) 0x1008 8 sector) 0x4000000 (List.replicate 512 0) true fun _ => 0

def sectorHdr : Desc := ⟨0x1000, 16, 1, 1⟩

def sectorData : Desc := ⟨0x1010, 512, 3, 2⟩

def sectorStatus : Desc := ⟨0x1210, 1, 2, 0⟩

theorem readSector_request (sector : Nat) :
    DiskRequest (readSector sector) sectorHdr [sectorData] sectorStatus 1 where
  hdrLen := rfl
  dataLen := by
    rw [length_descBytes, List.map_singleton, segAddrs, List.flatMap_singleton, List.length_range']
    rfl
  statusLen := rfl
  disjoint := by
    have hwhole : segAddrs ((sectorHdr :: ([sectorData] ++ [sectorStatus])).map Desc.seg) =
        List.range' 0x1000 16 ++ (List.range' 0x1010 512 ++ (List.range' 0x1210 1 ++ [])) := rfl
    rw [hwhole, List.append_nil, List.range'_append_1, List.range'_append_1]
    exact List.nodup_range'
  type := .inl rfl
  full := fun _ _ => nofun

theorem readSector_capacity (sector : Nat) : (readSector sector).blk.capacity = 1 := by
  show BitVec.ofNat 64 ((List.replicate 512 (0 : BitVec 8)).length / 512) = 1
  rw [List.length_replicate]
  rfl

theorem readSector_file (sector : Nat) : DiskFile (readSector sector).blk := by
  have hlen : (readSector sector).blk.content.length = 512 := List.length_replicate
  have hcap := readSector_capacity sector
  refine ⟨?_, ?_⟩
  · rw [hlen, hcap]
    decide
  · rw [hlen]
    decide

theorem diskLaw_iff_first :
    DiskLaw (readSector 0) sectorHdr [sectorData] sectorStatus 1 ↔
      DiskCond (readSector 0) sectorHdr [sectorData] sectorStatus 1 :=
  diskLaw_iff (readSector_request 0) (readSector_file 0)

theorem not_diskLaw :
    ¬∀ s hdr data status k, DiskRequest s hdr data status k → DiskFile s.blk → DiskLaw s hdr data status k := by
  intro h
  have hlaw := h _ _ _ _ _ (readSector_request 1) (readSector_file 1)
  have hsector : headerSector (readSector 1) sectorHdr = 1 := by decide +kernel
  have hcap := readSector_capacity 1
  have hneg : offNeg (hdrOff (headerBytes (readSector 1) sectorHdr)) = false := by decide +kernel
  have hgo := handled_beyond (readSector_request 1) (readSector_file 1) rfl fun hbad => by
    rw [hneg] at hbad
    exact absurd hbad.1 (by decide)
  rcases hgo with hok | hlong
  · have hin := hlaw.ok.1 hok
    rw [hsector, hcap] at hin
    revert hin
    decide
  · exact absurd hlaw.size (Nat.not_le_of_lt hlong)

end MiniVirt.Vmm
