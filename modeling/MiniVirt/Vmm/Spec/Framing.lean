import MiniVirt.Vmm.Spec.Transfer

/-!
# The framing of a block request

`chain_read()` lets the header span descriptors, but the data of a request are all descriptors between the first and
the last one, and the status is the first byte of the last.  So what a request does depends on how the driver splits its
bytes into descriptors only by the lengths of the first one and the last one, and the status is where it should be if
the last one has one byte (`framingLaw_iff`).
-/

namespace MiniVirt.Vmm

/-! ### The law -/

/-- A way of splitting the bytes of a request: the lengths of the readable descriptors and of the writable ones. -/
structure Framing where
  readable : List (BitVec 32)
  writable : List (BitVec 32)

def Framing.lens (f : Framing) : List (BitVec 32) := f.readable ++ f.writable

/-- How many bytes the descriptors have. -/
def totalLen (l : List (BitVec 32)) : Nat := (l.map BitVec.toNat).sum

/-- It splits `r` readable and `w` writable bytes into a chain that `gather_chain()` stores as a whole. -/
structure Framing.Splits (f : Framing) (r w : Nat) : Prop where
  readable : totalLen f.readable = r
  writable : totalLen f.writable = w
  two_le : 2 ≤ f.lens.length
  le_max : f.lens.length ≤ vqMaxSegs
  /-- `pread()` and `pwrite()` can transfer every descriptor in one call. -/
  le_rw : ∀ len ∈ f.lens, len.toNat ≤ maxRwCount

/-- In the state `s` the chain `segs` has this framing; its bytes are `R`, readable, and then `W`, writable. -/
structure Framed (f : Framing) (R W : List (BitVec 8)) (s : St) (segs : List Seg) : Prop where
  lens : segs.map Seg.len = f.lens
  flags : segs.map Seg.writable = f.readable.map (fun _ => false) ++ f.writable.map fun _ => true
  readable : segBytes s.mem (segs.take f.readable.length) = R
  writable : segBytes s.mem (segs.drop f.readable.length) = W
  disjoint : (segAddrs segs).Nodup

/-- No call fails, but for a negative offset, and none stops before `maxRwCount` bytes; the file and the request end at
an offset that `off_t` can express. -/
structure NoIoError (blk : BlkBackend) (R W : List (BitVec 8)) : Prop where
  full : blk.TransfersFully maxRwCount
  file : blk.content.length < 2 ^ 63
  request : offNeg (hdrOff (R.take 16)) = true ∨ (hdrOff (R.take 16)).toNat + (R ++ W).length < 2 ^ 63

/-- A status is written to the last byte of the chain. -/
def ReportsLast (s : St) (segs : List Seg) : Prop :=
  ∃ es, ((blkHandle segs).run s).2.trace = s.trace ++ es ∧ ∀ a, (segAddrs segs).getLast? = some a → a ∈ written es

/-- `blk_handle()` does the same with both chains. -/
structure SameEffect (f f' : Framing) (s s' : St) (segs segs' : List Seg) : Prop where
  file : ((blkHandle segs').run s').2.blk.content = ((blkHandle segs).run s).2.blk.content
  writable : segBytes ((blkHandle segs').run s').2.mem (segs'.drop f'.readable.length) =
    segBytes ((blkHandle segs).run s).2.mem (segs.drop f.readable.length)
  status : ReportsLast s segs
  status' : ReportsLast s' segs'

/-- Whatever the bytes and wherever they lie. -/
def FramingLaw (f f' : Framing) : Prop :=
  ∀ R W s s' segs segs', Framed f R W s segs → Framed f' R W s' segs' → s'.blk.content = s.blk.content →
    NoIoError s.blk R W → NoIoError s'.blk R W → SameEffect f f' s s' segs segs'

/-- The first descriptors have the same length, the last ones have one byte, and both or neither have others. -/
structure SameEnds (f f' : Framing) : Prop where
  first : f'.lens.head? = f.lens.head?
  last : f.lens.getLast? = some 1
  last' : f'.lens.getLast? = some 1
  two : f'.lens.length = 2 ↔ f.lens.length = 2

/-! ### A request as a string of bytes -/

/-- `l` with `l'` from position `i` on. -/
def patch (l : List (BitVec 8)) (i : Nat) (l' : List (BitVec 8)) : List (BitVec 8) :=
  l.take i ++ l' ++ l.drop (i + l'.length)

/-- What `blk_handle()` does to the file and to the bytes `C` of the chain, if the first descriptor has `a` bytes and
the last one `z`; `noData` if there is no other. -/
def chainEffect (a z : Nat) (noData : Bool) (content C : List (BitVec 8)) : List (BitVec 8) × List (BitVec 8) :=
  let off := hdrOff (C.take 16)
  let data := (C.drop a).take (C.length - z - a)
  let done (status : Nat) := patch C (C.length - z) (leBytes 1 status)
  if hdrType (C.take 16) = virtioBlkTIn then
    if offNeg off then (content, done (if noData then virtioBlkSOk else virtioBlkSIoerr))
    else (content, patch (done virtioBlkSOk) a ((content.drop off.toNat).take data.length))
  else if hdrType (C.take 16) = virtioBlkTOut then
    if offNeg off then (content, done (if noData then virtioBlkSOk else virtioBlkSIoerr))
    else (fileWrite content data off.toNat, done virtioBlkSOk)
  else if hdrType (C.take 16) = virtioBlkTFlush then (content, done virtioBlkSOk)
  else (content, done virtioBlkSUnsupp)

theorem take_patch {l l' : List (BitVec 8)} {i : Nat} (h : i ≤ l.length) : (patch l i l').take i = l.take i := by
  have hi : (l.take i).length = i := by
    rw [List.length_take]
    omega
  unfold patch
  rw [List.append_assoc, List.take_append_of_le_length hi.ge, List.take_take, Nat.min_self]

/-- Bytes in the middle. -/
theorem patch_middle (l₁ l l₂ : List (BitVec 8)) {l' : List (BitVec 8)} (h : l'.length ≤ l.length) :
    patch (l₁ ++ l ++ l₂) l₁.length l' = l₁ ++ (l' ++ l.drop l'.length) ++ l₂ := by
  unfold patch
  rw [List.append_assoc l₁ l, List.take_left, List.drop_length_add_append, List.drop_append_of_le_length h,
    List.append_assoc, List.append_assoc, List.append_assoc]

theorem patch_patch {l l₁ l₂ : List (BitVec 8)} {i : Nat} (h : i + l₁.length ≤ l.length)
    (hlen : l₂.length = l₁.length) :
    patch (patch l i l₁) i l₂ = patch l i l₂ := by
  have hi : (l.take i).length = i := by
    rw [List.length_take]
    omega
  have hmid : ((l.drop i).take l₁.length).length = l₁.length := by
    rw [List.length_take, List.length_drop]
    omega
  have hsplit : l = l.take i ++ (l.drop i).take l₁.length ++ (l.drop i).drop l₁.length := by
    rw [List.append_assoc, List.take_append_drop, List.take_append_drop]
  generalize l.take i = pre at hi hsplit
  generalize (l.drop i).take l₁.length = mid at hmid hsplit
  generalize (l.drop i).drop l₁.length = post at hsplit
  have hfirst : patch l i l₁ = pre ++ l₁ ++ post := by
    rw [hsplit, ← hi, patch_middle _ _ _ hmid.ge, ← hmid, List.drop_length, List.append_nil]
  rw [hfirst, hsplit, ← hi, patch_middle _ _ _ hlen.le, patch_middle _ _ _ (hlen.trans hmid.symm).le, hlen,
    List.drop_length, ← hmid, List.drop_length]

/-- Bytes that go to the addresses in the middle. -/
theorem gather_scatter_middle {as₁ as as₂ : List Nat} (hnodup : (as₁ ++ as ++ as₂).Nodup) {l : List (BitVec 8)}
    (hlen : l.length ≤ as.length) (m : ByteMem) :
    (m.scatter as l).gather (as₁ ++ as ++ as₂) = patch (m.gather (as₁ ++ as ++ as₂)) as₁.length l := by
  obtain ⟨hfront, -, hdisj⟩ := List.nodup_append'.1 hnodup
  obtain ⟨-, hmid, hdisj₁⟩ := List.nodup_append'.1 hfront
  have hkept₁ : (m.scatter as l).gather as₁ = m.gather as₁ :=
    ByteMem.gather_scatter_of_disjoint (fun a ha hmem => hdisj₁ ha hmem) m l
  have hkept₂ : (m.scatter as l).gather as₂ = m.gather as₂ :=
    ByteMem.gather_scatter_of_disjoint (fun a ha hmem => hdisj (List.mem_append_right as₁ hmem) ha) m l
  have hpatch := @patch_middle (m.gather as₁) (m.gather as) (m.gather as₂) l (by rwa [ByteMem.length_gather])
  rw [ByteMem.length_gather] at hpatch
  rw [ByteMem.gather_append, ByteMem.gather_append, ByteMem.gather_append, ByteMem.gather_append, hkept₁, hkept₂,
    ByteMem.gather_scatter hmid hlen, hpatch]

/-! ### The request is handled -/

section Chain

variable {first last : Seg} {data : List Seg} {s : St}

theorem blkParts_framed (first last : Seg) (data : List Seg) :
    blkParts (first :: (data ++ [last])) = some (data, last) := by
  rw [blkParts_cons _ (by simp), List.dropLast_concat, List.getLast_append_singleton]

theorem segAddrs_framed (first last : Seg) (data : List Seg) :
    segAddrs (first :: (data ++ [last])) =
      List.range' first.hva first.len.toNat ++ segAddrs data ++ List.range' last.hva last.len.toNat := by
  unfold segAddrs
  rw [List.flatMap_cons, List.flatMap_append, List.flatMap_singleton, List.append_assoc]

/-- The data that a request reads. -/
theorem segBytes_scatter_data (hnodup : (segAddrs (first :: (data ++ [last]))).Nodup) {l : List (BitVec 8)}
    (hlen : l.length ≤ (segAddrs data).length) (m : ByteMem) :
    segBytes (m.scatter (segAddrs data) l) (first :: (data ++ [last])) =
      patch (segBytes m (first :: (data ++ [last]))) first.len.toNat l := by
  rw [segAddrs_framed] at hnodup
  have h := gather_scatter_middle hnodup hlen m
  rw [List.length_range'] at h
  rw [segBytes_eq_gather, segBytes_eq_gather, segAddrs_framed, h]

/-- The status. -/
theorem segBytes_store_status (hnodup : (segAddrs (first :: (data ++ [last]))).Nodup) (hlast : last.len ≠ 0)
    (m : ByteMem)
    (v : Nat) :
    segBytes (m.store last.hva 1 v) (first :: (data ++ [last])) =
      patch (segBytes m (first :: (data ++ [last]))) ((segBytes m (first :: (data ++ [last]))).length - last.len.toNat)
        (leBytes 1 v) := by
  obtain ⟨z, hz⟩ := Nat.exists_eq_add_one_of_ne_zero fun h => hlast (BitVec.eq_of_toNat_eq h)
  have hsplit : segAddrs (first :: (data ++ [last])) =
      (List.range' first.hva first.len.toNat ++ segAddrs data) ++ List.range' last.hva 1 ++
          List.range' (last.hva + 1) z := by
    rw [segAddrs_framed, hz, List.append_assoc _ (List.range' last.hva 1)]
    rfl
  have hpos : (segBytes m (first :: (data ++ [last]))).length - last.len.toNat =
      (List.range' first.hva first.len.toNat ++ segAddrs data).length := by
    rw [length_segBytes, segAddrs_framed, List.length_append, List.length_range', Nat.add_sub_cancel]
  have hstore : m.store last.hva 1 v = m.scatter (List.range' last.hva 1) (leBytes 1 v) :=
    (ByteMem.scatter_range' m last.hva 1 (leBytes 1 v)).symm
  rw [hsplit] at hnodup
  rw [hpos, hstore, segBytes_eq_gather, segBytes_eq_gather, hsplit]
  exact gather_scatter_middle hnodup (by simp) m

theorem length_segBytes_framed (m : ByteMem) (first last : Seg) (data : List Seg) :
    (segBytes m (first :: (data ++ [last]))).length =
      first.len.toNat + (segAddrs data).length + last.len.toNat := by
  rw [length_segBytes, segAddrs_framed, List.length_append, List.length_append, List.length_range', List.length_range']

/-- The bytes of the data segments are those in the middle. -/
theorem segBytes_data (m : ByteMem) (first last : Seg) (data : List Seg) :
    segBytes m data = ((segBytes m (first :: (data ++ [last]))).drop first.len.toNat).take
      ((segBytes m (first :: (data ++ [last]))).length - last.len.toNat - first.len.toNat) := by
  have hlen := length_segBytes_framed m first last data
  have hdata : (segBytes m (first :: (data ++ [last]))).length - last.len.toNat - first.len.toNat =
      (segBytes m data).length := by
    rw [length_segBytes m data]
    omega
  have hfirst : (m.gather (List.range' first.hva first.len.toNat)).length = first.len.toNat := by
    rw [ByteMem.length_gather, List.length_range']
  rw [hdata, segBytes_eq_gather m (first :: _), segAddrs_framed, ByteMem.gather_append, ByteMem.gather_append,
    List.append_assoc, List.drop_left' hfirst, ← segBytes_eq_gather, List.take_left]

/-- A request with its header in the chain does what the bytes of the chain say. -/
theorem blkHandle_framed (hnodup : (segAddrs (first :: (data ++ [last]))).Nodup) (hlast : last.len ≠ 0)
    (hhdr : 16 ≤ (segBytes s.mem (first :: (data ++ [last]))).length) (hcontent : s.blk.content.length < 2 ^ 63)
    (hfull : ∀ seg ∈ data, s.blk.TransfersFully seg.len.toNat)
    (hend : offNeg (hdrOff ((segBytes s.mem (first :: (data ++ [last]))).take 16)) = true ∨
      (hdrOff ((segBytes s.mem (first :: (data ++ [last]))).take 16)).toNat +
        (segBytes s.mem (first :: (data ++ [last]))).length < 2 ^ 63) :
    (((blkHandle (first :: (data ++ [last]))).run s).2.blk.content,
        segBytes ((blkHandle (first :: (data ++ [last]))).run s).2.mem (first :: (data ++ [last]))) =
      chainEffect first.len.toNat last.len.toNat data.isEmpty s.blk.content
        (segBytes s.mem (first :: (data ++ [last]))) := by
  obtain ⟨s₂, hread, hrun⟩ := blkHandle_run (blkParts_framed first last data) s
  have hprefix : chainPrefix s.mem (first :: (data ++ [last])) (s.stale.read 0 16) =
      (segBytes s.mem (first :: (data ++ [last]))).take 16 := by
    unfold chainPrefix
    rw [ByteMem.length_read, List.drop_of_length_le (by rwa [ByteMem.length_read]), List.append_nil]
  rw [hrun, hprefix, blkRequest_run]
  generalize hC : segBytes s.mem (first :: (data ++ [last])) = C at hhdr hend ⊢
  have hlen : C.length = first.len.toNat + (segAddrs data).length + last.len.toNat := by
    rw [← hC]
    exact length_segBytes_framed ..
  have hlastPos : 0 < last.len.toNat := Nat.pos_of_ne_zero fun h => hlast (BitVec.eq_of_toNat_eq h)
  have hpos : C.length - last.len.toNat + 1 ≤ C.length := by omega
  have hblk : ((guestStore last.hva 1 virtioBlkSOk).run s₂).2.blk = s.blk := hread.blk
  have hcontent₃ : ((guestStore last.hva 1 virtioBlkSOk).run s₂).2.blk.content = s.blk.content :=
    congrArg BlkBackend.content hblk
  have hmem : ((guestStore last.hva 1 virtioBlkSOk).run s₂).2.mem = s.mem.store last.hva 1 virtioBlkSOk :=
    congrArg (ByteMem.store · last.hva 1 virtioBlkSOk) hread.mem
  dsimp only
  generalize ((guestStore last.hva 1 virtioBlkSOk).run s₂).2 = s₃ at hblk hcontent₃ hmem ⊢
  -- the status is there, and may be written again
  have hdone : segBytes s₃.mem (first :: (data ++ [last])) =
      patch C (C.length - last.len.toNat) (leBytes 1 virtioBlkSOk) := by
    rw [hmem, segBytes_store_status hnodup hlast, hC]
  have hagain (v : Nat) : segBytes (s₃.mem.store last.hva 1 v) (first :: (data ++ [last])) =
      patch C (C.length - last.len.toNat) (leBytes 1 v) := by
    rw [segBytes_store_status hnodup hlast, length_segBytes_framed, ← hlen, hdone,
      patch_patch (by simpa using hpos) (by simp)]
  have hdata : (C.drop first.len.toNat).take (C.length - last.len.toNat - first.len.toNat) = segBytes s₃.mem data := by
    rw [segBytes_data s₃.mem first last data, length_segBytes_framed, ← hlen, hdone, ← List.drop_take, ← List.drop_take,
      take_patch (by omega)]
  have hsize : (segBytes s₃.mem data).length = (segAddrs data).length := length_segBytes _ _
  unfold chainEffect
  dsimp only
  rw [hdata, hsize]
  by_cases hin : hdrType (C.take 16) = virtioBlkTIn
  · rw [if_pos hin, if_pos hin]
    cases hoff : offNeg (hdrOff (C.take 16)) with
    | true =>
      -- `pread()` fails, if there is a segment to read into
      rw [blkIn_run_neg hoff]
      cases data with
      | nil => exact congrArg₂ Prod.mk hcontent₃ hdone
      | cons seg data => exact congrArg₂ Prod.mk hcontent₃ (hagain virtioBlkSIoerr)
    | false =>
      -- the file goes to the data segments, which neither the header nor the status shares
      obtain ⟨es, ios, hfill, -⟩ := @blkIn_run_full s₃ last.hva (hdrOff (C.take 16)) 0 data (hblk ▸ hcontent) hoff
        (hblk ▸ hfull)
      have hle : ((s₃.blk.content.drop (hdrOff (C.take 16)).toNat).take (segAddrs data).length).length ≤
          (segAddrs data).length := List.length_take_le _ _
      rw [hfill, ← hdone, ← hblk]
      exact congrArg (Prod.mk s₃.blk.content) (segBytes_scatter_data hnodup hle s₃.mem)
  · rw [if_neg hin, if_neg hin]
    by_cases hout : hdrType (C.take 16) = virtioBlkTOut
    · rw [if_pos hout, if_pos hout]
      cases hoff : offNeg (hdrOff (C.take 16)) with
      | true =>
        cases data with
        | nil => exact congrArg₂ Prod.mk hcontent₃ hdone
        | cons seg data =>
          obtain ⟨e, -, hrun⟩ := @blkOut_run_neg s₃ last.hva (hdrOff (C.take 16)) (seg :: data) hoff (by simp)
          dsimp only
          rw [hrun]
          exact congrArg₂ Prod.mk hcontent₃ (hagain virtioBlkSIoerr)
      | false =>
        obtain hneg | hlt := hend
        · rw [hoff] at hneg
          cases hneg
        · -- the data segments go to the file, and the chain stays as it is
          obtain ⟨es, ios, hrun, -⟩ := @blkOut_run s₃ last.hva (hdrOff (C.take 16)) data (by omega) (hblk ▸ hfull)
          dsimp only
          rw [hrun, ← hblk]
          exact congrArg (Prod.mk _) hdone
    · rw [if_neg hout, if_neg hout]
      split
      · exact congrArg₂ Prod.mk hcontent₃ hdone
      · exact congrArg₂ Prod.mk hcontent₃ (hagain virtioBlkSUnsupp)

end Chain

/-! ### The same ends -/

section SameEnds

variable {f f' : Framing} {R W : List (BitVec 8)} {s s' : St} {segs segs' : List Seg} {r w : Nat}

theorem segBytes_append (m : ByteMem) (segs segs' : List Seg) :
    segBytes m (segs ++ segs') = segBytes m segs ++ segBytes m segs' :=
  List.flatMap_append

theorem exists_framed (h : 2 ≤ segs.length) : ∃ first data last, segs = first :: (data ++ [last]) := by
  match segs, h with
  | first :: second :: rest, _ =>
    refine ⟨first, (second :: rest).dropLast, (second :: rest).getLast (List.cons_ne_nil second rest), ?_⟩
    rw [List.dropLast_append_getLast]

theorem Framed.bytes (h : Framed f R W s segs) : segBytes s.mem segs = R ++ W := by
  rw [← h.readable, ← h.writable, ← segBytes_append, List.take_append_drop]

/-- The writable area in any memory. -/
theorem Framed.writable_eq (h : Framed f R W s segs) (m : ByteMem) :
    segBytes m (segs.drop f.readable.length) = (segBytes m segs).drop R.length := by
  have hlen : (segBytes m (segs.take f.readable.length)).length = R.length := by
    rw [← h.readable, length_segBytes, length_segBytes]
  have hsplit := segBytes_append m (segs.take f.readable.length) (segs.drop f.readable.length)
  rw [List.take_append_drop] at hsplit
  rw [hsplit, List.drop_left' hlen]

/-- What a request does, by the ends of its framing. -/
theorem Framed.effect {first last : Seg} {data : List Seg} (h : Framed f R W s (first :: (data ++ [last])))
    (hf : f.Splits r w) (hlast : last.len ≠ 0) (hR : 16 ≤ R.length) (hio : NoIoError s.blk R W) :
    (((blkHandle (first :: (data ++ [last]))).run s).2.blk.content,
        segBytes ((blkHandle (first :: (data ++ [last]))).run s).2.mem (first :: (data ++ [last]))) =
      chainEffect first.len.toNat last.len.toNat data.isEmpty s.blk.content (R ++ W) := by
  have hbytes := h.bytes
  have hhdr : (R ++ W).take 16 = R.take 16 := List.take_append_of_le_length hR
  rw [← hbytes]
  refine blkHandle_framed h.disjoint hlast ?_ hio.file (fun seg hseg => hio.full.mono (hf.le_rw _ ?_)) ?_
  · rw [hbytes, List.length_append]
    omega
  · rw [← h.lens]
    exact List.mem_map_of_mem (List.mem_cons_of_mem _ (List.mem_append_left _ hseg))
  · rw [hbytes, hhdr]
    exact hio.request

theorem length_segAddrs (segs : List Seg) : (segAddrs segs).length = totalLen (segs.map Seg.len) := by
  unfold segAddrs totalLen
  rw [List.length_flatMap, List.map_map]
  congr 1
  exact List.map_congr_left fun seg _ => List.length_range'

theorem Framed.length_readable (h : Framed f R W s segs) : R.length = totalLen f.readable := by
  rw [← h.readable, length_segBytes, length_segAddrs, List.map_take, h.lens]
  unfold Framing.lens
  rw [List.take_left]

theorem Framed.length_segs (h : Framed f R W s segs) : segs.length = f.lens.length := by
  rw [← h.lens, List.length_map]

theorem reportsLast {first last : Seg} {data : List Seg} (hone : last.len = 1) :
    ReportsLast s (first :: (data ++ [last])) := by
  obtain ⟨s₂, hread, hrun⟩ := blkHandle_run (blkParts_framed first last data) s
  obtain ⟨es, htr, -⟩ := (work_transfers.blkRequest_rest
    (chainPrefix s.mem (first :: (data ++ [last])) (s.stale.read 0 16)) data last.hva s₂).trace
  obtain ⟨es₀, rfl, -⟩ := hread
  rw [ReportsLast, hrun]
  refine ⟨es₀ ++ (.write last.hva 1 :: es), ?_, fun a ha => ?_⟩
  · refine htr.trans ?_
    show s.trace ++ es₀ ++ [.write last.hva 1] ++ es = _
    rw [List.append_assoc, List.append_assoc]
    rfl
  · rw [segAddrs_framed, hone, show List.range' last.hva (1 : BitVec 32).toNat = [last.hva] from rfl,
      List.getLast?_concat] at ha
    obtain rfl := Option.some.inj ha
    exact ⟨last.hva, 1, List.mem_append_right _ List.mem_cons_self, le_rfl, Nat.lt_succ_self _⟩

theorem framingLaw_of_sameEnds (hr : 16 ≤ r) (hf : f.Splits r w) (hf' : f'.Splits r w) (h : SameEnds f f') :
    FramingLaw f f' := by
  intro R W s s' segs segs' hs hs' hcontent hio hio'
  obtain ⟨first, data, last, rfl⟩ := exists_framed (hs.length_segs ▸ hf.two_le)
  obtain ⟨first', data', last', rfl⟩ := exists_framed (hs'.length_segs ▸ hf'.two_le)
  have hR : 16 ≤ R.length := by rwa [hs.length_readable, hf.readable]
  have hfirst : first'.len = first.len := by
    have heq := h.first
    rw [← hs.lens, ← hs'.lens] at heq
    exact Option.some.inj heq
  have hgetLast (first last : Seg) (data : List Seg) :
      ((first :: (data ++ [last])).map Seg.len).getLast? = some last.len := by
    rw [List.map_cons, List.map_append, ← List.cons_append]
    exact List.getLast?_concat
  have hone : last.len = 1 := by
    have heq := h.last
    rw [← hs.lens, hgetLast] at heq
    exact Option.some.inj heq
  have hone' : last'.len = 1 := by
    have heq := h.last'
    rw [← hs'.lens, hgetLast] at heq
    exact Option.some.inj heq
  have hlast : last'.len = last.len := hone'.trans hone.symm
  have hne : last.len ≠ 0 := by
    rw [hone]
    decide
  have hempty (first last : Seg) (data : List Seg) : (first :: (data ++ [last])).length = 2 ↔ data.isEmpty = true := by
    rw [List.length_cons, List.length_append, List.length_singleton, List.isEmpty_iff_length_eq_zero]
    omega
  have htwo : data'.isEmpty = data.isEmpty := by
    have hiff := h.two
    rw [← hs.length_segs, ← hs'.length_segs, hempty, hempty] at hiff
    exact Bool.eq_iff_iff.2 hiff
  -- both chains do what their bytes say, and these are the same
  have heffect := hs.effect hf hne hR hio
  have heffect' := hs'.effect hf' (hlast ▸ hne) hR hio'
  rw [hfirst, hlast, htwo, hcontent, ← heffect] at heffect'
  obtain ⟨hfile, hbytes⟩ := Prod.mk.inj heffect'
  exact ⟨hfile, by rw [hs'.writable_eq, hs.writable_eq, hbytes], reportsLast hone, reportsLast hone'⟩

end SameEnds

/-! ### Requests that tell framings apart -/

section Laid

variable {f f' : Framing} {R W : List (BitVec 8)} {s s' : St} {segs segs' : List Seg} {r w x : Nat}

/-- Segments of these lengths and flags, one after the other. -/
def lay (base : Nat) : List (BitVec 32 × Bool) → List Seg
  | [] => []
  | (n, b) :: l => ⟨base, n, b⟩ :: lay (base + n.toNat) l

theorem segAddrs_lay (base : Nat) (l : List (BitVec 32 × Bool)) :
    segAddrs (lay base l) = List.range' base (totalLen (l.map Prod.fst)) := by
  induction l generalizing base with
  | nil => rfl
  | cons d l ih =>
    rw [lay, segAddrs_cons, ih, List.range'_append_1]
    rfl

theorem map_lay (base : Nat) (l : List (BitVec 32 × Bool)) :
    (lay base l).map (fun seg => (seg.len, seg.writable)) = l := by
  induction l generalizing base with
  | nil => rfl
  | cons d l ih => rw [lay, List.map_cons, ih]

/-- The chain of `f` whose last segment is at `x` and whose others lie one after the other. -/
def Framing.laid (f : Framing) (x : Nat) : List Seg :=
  lay 0 (f.readable.map (·, false)) ++ lay (totalLen f.readable) (f.writable.dropLast.map (·, true)) ++
    [⟨x, f.writable.getLastD 0, true⟩]

/-- Where the last segment may lie: behind the others, or anywhere if it is empty. -/
def Framing.Place (f : Framing) (r w x : Nat) : Prop :=
  f.writable.getLastD 0 ≠ 0 → x = r + w - (f.writable.getLastD 0).toNat

theorem writable_eq (hf : f.Splits r w) (hw : 1 ≤ w) : f.writable = f.writable.dropLast ++ [f.writable.getLastD 0] := by
  have hne : f.writable ≠ [] := by
    intro hnil
    have htotal := hf.writable
    rw [hnil] at htotal
    have hzero : totalLen [] = 0 := rfl
    omega
  rw [List.getLastD_eq_getLast?, List.getLast?_eq_some_getLast hne]
  exact (List.dropLast_append_getLast hne).symm

theorem totalLen_append (l l' : List (BitVec 32)) : totalLen (l ++ l') = totalLen l + totalLen l' := by
  unfold totalLen
  rw [List.map_append, List.sum_append]

theorem map_len_lay (base : Nat) (l : List (BitVec 32 × Bool)) : (lay base l).map Seg.len = l.map Prod.fst := by
  have h := congrArg (List.map Prod.fst) (map_lay base l)
  rwa [List.map_map] at h

theorem map_writable_lay (base : Nat) (l : List (BitVec 32 × Bool)) :
    (lay base l).map Seg.writable = l.map Prod.snd := by
  have h := congrArg (List.map Prod.snd) (map_lay base l)
  rwa [List.map_map] at h

theorem length_lay (base : Nat) (l : List (BitVec 32 × Bool)) : (lay base l).length = l.length := by
  rw [← List.length_map (f := Seg.len), map_len_lay, List.length_map]

theorem laid_take (f : Framing) (x : Nat) : (f.laid x).take f.readable.length = lay 0 (f.readable.map (·, false)) := by
  unfold Framing.laid
  rw [List.append_assoc, List.take_left' (by rw [length_lay, List.length_map])]

theorem laid_drop (f : Framing) (x : Nat) : (f.laid x).drop f.readable.length =
    lay (totalLen f.readable) (f.writable.dropLast.map (·, true)) ++ [⟨x, f.writable.getLastD 0, true⟩] := by
  unfold Framing.laid
  rw [List.append_assoc, List.drop_left' (by rw [length_lay, List.length_map])]

theorem map_fst_pair (l : List (BitVec 32)) (b : Bool) : (l.map (·, b)).map Prod.fst = l := by
  rw [List.map_map]
  exact List.map_id l

theorem segAddrs_laid_take (hf : f.Splits r w) (x : Nat) :
    segAddrs ((f.laid x).take f.readable.length) = List.range' 0 r := by
  rw [laid_take, segAddrs_lay, map_fst_pair, hf.readable]

theorem segAddrs_laid_drop (hf : f.Splits r w) (hw : 1 ≤ w) (hx : f.Place r w x) :
    segAddrs ((f.laid x).drop f.readable.length) = List.range' r w := by
  have htotal : totalLen f.writable.dropLast + (f.writable.getLastD 0).toNat = w := by
    have h := hf.writable
    rw [writable_eq hf hw, totalLen_append] at h
    simpa [totalLen] using h
  have hsingle : segAddrs [⟨x, f.writable.getLastD 0, true⟩] = List.range' x (f.writable.getLastD 0).toNat :=
    List.flatMap_singleton ..
  rw [laid_drop, segAddrs, List.flatMap_append]
  show segAddrs _ ++ segAddrs _ = _
  rw [segAddrs_lay, map_fst_pair, hf.readable, hsingle]
  by_cases hz : f.writable.getLastD 0 = 0
  · rw [hz] at htotal ⊢
    rw [show totalLen f.writable.dropLast = w from htotal]
    exact List.append_nil _
  · have hplace : x = r + totalLen f.writable.dropLast := by
      rw [hx hz]
      omega
    rw [hplace, List.range'_append_1, htotal]

theorem segAddrs_laid (hf : f.Splits r w) (hw : 1 ≤ w) (hx : f.Place r w x) :
    segAddrs (f.laid x) = List.range' 0 (r + w) := by
  have hsplit : segAddrs (f.laid x) = List.range' 0 r ++ List.range' r w := by
    rw [← segAddrs_laid_take hf x, ← segAddrs_laid_drop hf hw hx]
    conv_lhs => rw [← List.take_append_drop f.readable.length (f.laid x)]
    exact List.flatMap_append
  have hrange := @List.range'_append_1 0 r w
  rw [Nat.zero_add] at hrange
  rw [hsplit, hrange]

/-- Every framing has a request with the bytes that we want. -/
theorem framed_laid (hf : f.Splits r w) (hw : 1 ≤ w) (hx : f.Place r w x) (hR : R.length = r) (hW : W.length = w)
    (hmem : s.mem = ByteMem.write (fun _ => 0) 0 (R ++ W)) : Framed f R W s (f.laid x) := by
  have hread := ByteMem.read_write_self (fun _ => 0) 0 (R ++ W)
  rw [← hmem, List.length_append, ByteMem.read_add, hR, hW, Nat.zero_add] at hread
  obtain ⟨hreadR, hreadW⟩ := List.append_inj hread (by rw [ByteMem.length_read, hR])
  refine ⟨?_, ?_, ?_, ?_, ?_⟩
  · unfold Framing.laid Framing.lens
    rw [List.map_append, List.map_append, map_len_lay, map_len_lay, map_fst_pair, map_fst_pair, List.append_assoc]
    exact congrArg (f.readable ++ ·) (writable_eq hf hw).symm
  · unfold Framing.laid
    rw [List.map_append, List.map_append, map_writable_lay, map_writable_lay, List.map_map, List.map_map,
      List.append_assoc]
    conv_rhs => rw [writable_eq hf hw, List.map_append]
    rfl
  · rw [segBytes_eq_gather, segAddrs_laid_take hf, ← ByteMem.read_eq_gather, hreadR]
  · rw [segBytes_eq_gather, segAddrs_laid_drop hf hw hx, ← ByteMem.read_eq_gather, hreadW]
  · rw [segAddrs_laid hf hw hx]
    exact List.nodup_range'

/-- The first `r` bytes of a request. -/
def requestBytesOf (r type sector : Nat) : List (BitVec 8) :=
  leBytes 4 type ++ (leBytes 4 0 ++ (leBytes 8 sector ++ List.replicate (r - 16) 0))

theorem length_requestBytesOf (hr : 16 ≤ r) (type sector : Nat) : (requestBytesOf r type sector).length = r := by
  unfold requestBytesOf
  simp only [List.length_append, length_leBytes, List.length_replicate]
  omega

theorem hdrType_requestBytesOf (r type sector : Nat) :
    hdrType ((requestBytesOf r type sector).take 16) = type % 256 ^ 4 := by
  unfold hdrType requestBytesOf
  rw [List.take_take, show min 4 16 = 4 from rfl, List.take_left' (length_leBytes 4 type), leNat_leBytes]

theorem hdrOff_requestBytesOf (r type sector : Nat) :
    hdrOff ((requestBytesOf r type sector).take 16) = .ofNat 64 (sector % 256 ^ 8) * 512 := by
  unfold hdrOff requestBytesOf
  rw [List.drop_take, List.take_take, ← List.append_assoc, List.drop_left' (by simp), List.take_left' (by simp),
    leNat_leBytes]

theorem NoIoError.of_fresh (h : offNeg (hdrOff (R.take 16)) = true ∨
    (hdrOff (R.take 16)).toNat + (R ++ W).length < 2 ^ 63) :
    NoIoError (blkOpen []) R W := ⟨nofun, Nat.two_pow_pos 63, h⟩

/-- The request in the memory of a fresh device. -/
def requestState (R W : List (BitVec 8)) : St := .initial (ByteMem.write (fun _ => 0) 0 (R ++ W)) 0 [] false fun _ => 0

theorem laid_framed (hf : f.Splits r w) (hw : 1 ≤ w) (x : Nat) :
    ∃ first data, f.laid x = first :: (data ++ [⟨x, f.writable.getLastD 0, true⟩]) ∧
      f.lens = first.len :: (data.map Seg.len ++ [f.writable.getLastD 0]) := by
  have hlen : (f.laid x).map Seg.len = f.lens := by
    unfold Framing.laid Framing.lens
    rw [List.map_append, List.map_append, map_len_lay, map_len_lay, map_fst_pair, map_fst_pair, List.append_assoc]
    exact congrArg (f.readable ++ ·) (writable_eq hf hw).symm
  obtain ⟨first, data, last, heq⟩ := @exists_framed (f.laid x) (by
    rw [← List.length_map (f := Seg.len), hlen]
    exact hf.two_le)
  have hlast : last = ⟨x, f.writable.getLastD 0, true⟩ := by
    have h := congrArg List.getLast? heq
    rw [← List.cons_append, List.getLast?_concat] at h
    unfold Framing.laid at h
    rw [List.getLast?_concat] at h
    exact (Option.some.inj h).symm
  subst hlast
  refine ⟨first, data, heq, ?_⟩
  rw [← hlen, heq, List.map_cons, List.map_append]
  rfl

/-- A request that does nothing but set its status. -/
theorem blkHandle_flush {first last : Seg} {data : List Seg}
    (hhdr : 16 ≤ (segBytes s.mem (first :: (data ++ [last]))).length)
    (htype : hdrType ((segBytes s.mem (first :: (data ++ [last]))).take 16) = virtioBlkTFlush) :
    ((blkHandle (first :: (data ++ [last]))).run s).2.mem = s.mem.store last.hva 1 virtioBlkSOk ∧
      ∃ es, ((blkHandle (first :: (data ++ [last]))).run s).2.trace = s.trace ++ es ∧ written es = {last.hva} := by
  obtain ⟨s₂, hread, hrun⟩ := blkHandle_run (blkParts_framed first last data) s
  have hprefix : chainPrefix s.mem (first :: (data ++ [last])) (s.stale.read 0 16) =
      (segBytes s.mem (first :: (data ++ [last]))).take 16 := by
    unfold chainPrefix
    rw [ByteMem.length_read, List.drop_of_length_le (by rwa [ByteMem.length_read]), List.append_nil]
  rw [hrun, hprefix, blkRequest_run]
  dsimp only
  rw [htype, if_neg (by decide), if_neg (by decide), if_pos rfl]
  refine ⟨congrArg (ByteMem.store · last.hva 1 virtioBlkSOk) hread.mem, ?_⟩
  obtain ⟨es, rfl, hes⟩ := hread
  refine ⟨es ++ [.write last.hva 1], (List.append_assoc s.trace es _).symm ▸ rfl, ?_⟩
  rw [written_append, written_of_reads hes, written_write, Set.empty_union]
  ext a
  exact List.mem_singleton

/-- The bytes of a flush request, with all bits of the writable ones set. -/
theorem flush_mem {i : Nat} (hr : 16 ≤ r) (hi : r ≤ i) (hlt : i < r + w) :
    (requestState (requestBytesOf r 4 (2 ^ 54)) (List.replicate w 0xff)).mem i = 0xff := by
  have hlen := length_requestBytesOf hr 4 (2 ^ 54)
  obtain ⟨k, rfl⟩ := Nat.exists_eq_add_of_le hi
  show ByteMem.write (fun _ => 0) 0 _ (r + k) = _
  have hmem := @ByteMem.write_of_mem (fun _ => 0) 0 (r + k) (requestBytesOf r 4 (2 ^ 54) ++ List.replicate w 0xff) (by
    rw [List.length_append, hlen, List.length_replicate]
    omega)
  rw [Nat.zero_add] at hmem
  rw [hmem, List.getElem_append_right (by omega), List.getElem_replicate]

theorem flush_laid (hf : f.Splits r w) (hw : 1 ≤ w) (hr : 16 ≤ r)
    (hs : Framed f (requestBytesOf r 4 (2 ^ 54)) W s (f.laid x)) :
    ((blkHandle (f.laid x)).run s).2.mem = s.mem.store x 1 virtioBlkSOk ∧
      ∃ es, ((blkHandle (f.laid x)).run s).2.trace = s.trace ++ es ∧ written es = {x} := by
  have hR := length_requestBytesOf hr 4 (2 ^ 54)
  obtain ⟨first, data, hlaid, -⟩ := laid_framed hf hw x
  have hbytes := hs.bytes
  have htake : (segBytes s.mem (f.laid x)).take 16 = (requestBytesOf r 4 (2 ^ 54)).take 16 := by
    rw [hbytes, List.take_append_of_le_length (by omega)]
  rw [hlaid] at hbytes htake ⊢
  refine blkHandle_flush ?_ ?_
  · rw [hbytes, List.length_append]
    omega
  · rw [htake, hdrType_requestBytesOf]
    rfl

theorem store_status_eq_iff {m : ByteMem} {i x : Nat} (hi : m i = 0xff) : m.store x 1 virtioBlkSOk i = 0 ↔ i = x := by
  have hstore : m.store x 1 virtioBlkSOk = Function.update m x 0 := ByteMem.write_singleton m x 0
  rw [hstore]
  constructor
  · intro h
    by_contra hne
    rw [Function.update_of_ne hne, hi] at h
    revert h
    decide
  · rintro rfl
    exact Function.update_self ..

/-- The status of a flush request shows where the last segment starts. -/
theorem FramingLaw.place {x' : Nat} (h : FramingLaw f f') (hf : f.Splits r w) (hf' : f'.Splits r w) (hr : 16 ≤ r)
    (hw : 1 ≤ w) (hx : f.Place r w x) (hx' : f'.Place r w x') :
    ∀ i, r ≤ i → i < r + w → (i = x ↔ i = x') := by
  have hR := length_requestBytesOf hr 4 (2 ^ 54)
  have hW : (List.replicate w (0xff : BitVec 8)).length = w := List.length_replicate
  have hmem (i : Nat) (hi : r ≤ i) (hlt : i < r + w) := flush_mem (w := w) hr hi hlt
  have hframed := framed_laid (s := requestState (requestBytesOf r 4 (2 ^ 54)) (List.replicate w 0xff))
    hf hw hx hR hW rfl
  have hframed' := framed_laid (s := requestState (requestBytesOf r 4 (2 ^ 54)) (List.replicate w 0xff))
    hf' hw hx' hR hW rfl
  have hio : NoIoError (requestState (requestBytesOf r 4 (2 ^ 54)) (List.replicate w 0xff)).blk
      (requestBytesOf r 4 (2 ^ 54)) (List.replicate w 0xff) := by
    refine .of_fresh (.inl ?_)
    rw [hdrOff_requestBytesOf]
    decide
  generalize requestState (requestBytesOf r 4 (2 ^ 54)) (List.replicate w 0xff) = s at hmem hframed hframed' hio
  have hbytes := (h _ _ s s _ _ hframed hframed' rfl hio hio).writable
  rw [(flush_laid hf hw hr hframed).1, (flush_laid hf' hw hr hframed').1, segBytes_eq_gather, segBytes_eq_gather,
    segAddrs_laid_drop hf hw hx, segAddrs_laid_drop hf' hw hx'] at hbytes
  intro i hi hlt
  have heq := List.map_inj_left.1 hbytes i (List.mem_range'_1.2 ⟨hi, hlt⟩)
  rw [← store_status_eq_iff (hmem i hi hlt), ← store_status_eq_iff (hmem i hi hlt), heq]

/-- So the last ones are equally long and not empty. -/
theorem FramingLaw.last (h : FramingLaw f f') (hf : f.Splits r w) (hf' : f'.Splits r w) (hr : 16 ≤ r) (hw : 1 ≤ w) :
    f.writable.getLastD 0 = f'.writable.getLastD 0 ∧ f.writable.getLastD 0 ≠ 0 := by
  have hle (f : Framing) (hf : f.Splits r w) : (f.writable.getLastD 0).toNat ≤ w := by
    have htotal := hf.writable
    rw [writable_eq hf hw, totalLen_append] at htotal
    have hsingle : totalLen [f.writable.getLastD 0] = (f.writable.getLastD 0).toNat := by simp [totalLen]
    omega
  have hpos (z : BitVec 32) (hz : z ≠ 0) : 0 < z.toNat := Nat.pos_of_ne_zero fun h => hz (BitVec.eq_of_toNat_eq h)
  have hlez := hle f hf
  have hlez' := hle f' hf'
  by_cases hz : f.writable.getLastD 0 = 0
  · -- an empty one may start anywhere
    exfalso
    by_cases hz' : f'.writable.getLastD 0 = 0
    · have hne := @FramingLaw.place f f' r w r (r + 1) h hf hf' hr hw (fun h => absurd hz h)
        (fun h => absurd hz' h) r le_rfl (by omega)
      omega
    · have hz'pos := hpos _ hz'
      have hne := @FramingLaw.place f f' r w (r + w) _ h hf hf' hr hw (fun h => absurd hz h) (fun _ => rfl)
        (r + w - (f'.writable.getLastD 0).toNat) (by omega) (by omega)
      omega
  · have hzpos := hpos _ hz
    by_cases hz' : f'.writable.getLastD 0 = 0
    · exfalso
      have hne := @FramingLaw.place f f' r w _ (r + w) h hf hf' hr hw (fun _ => rfl) (fun h => absurd hz' h)
        (r + w - (f.writable.getLastD 0).toNat) (by omega) (by omega)
      omega
    · have hz'pos := hpos _ hz'
      have heq := h.place hf hf' hr hw (fun _ => rfl) (fun _ => rfl) (r + w - (f.writable.getLastD 0).toNat) (by omega)
        (by omega)
      exact ⟨BitVec.eq_of_toNat_eq (by omega), hz⟩

theorem totalLen_le (l : List (BitVec 32)) : totalLen l ≤ l.length * 2 ^ 32 := by
  induction l with
  | nil => exact Nat.le_refl 0
  | cons n l ih =>
    have hn := n.isLt
    have hcons : totalLen (n :: l) = n.toNat + totalLen l := rfl
    rw [hcons, List.length_cons, Nat.add_mul]
    omega

theorem Framing.Splits.size (hf : f.Splits r w) : r + w ≤ 64 * 2 ^ 32 := by
  have htotal := totalLen_append f.readable f.writable
  have hle := totalLen_le f.lens
  have hmax : f.lens.length ≤ 64 := hf.le_max
  rw [hf.readable, hf.writable] at htotal
  unfold Framing.lens at hle hmax
  rw [htotal] at hle
  exact hle.trans (Nat.mul_le_mul_right _ hmax)

theorem length_fileWrite_nil (l : List (BitVec 8)) : (fileWrite [] l 0).length = l.length := by
  unfold fileWrite
  split
  · rename_i h
    rw [h]
  · simp

/-- What a write request of these bytes leaves in an empty file: as many bytes as the data segments have. -/
theorem out_laid (hf : f.Splits r w) (hw : 1 ≤ w) (hr : 16 ≤ r) (hz : f.writable.getLastD 0 ≠ 0) {first : Seg}
    {data : List Seg}
    (hlaid : f.laid x = first :: (data ++ [⟨x, f.writable.getLastD 0, true⟩]))
    (hs : Framed f (requestBytesOf r 1 0) W s (f.laid x)) (hW : W.length = w) (hnil : s.blk = blkOpen []) :
    ((blkHandle (f.laid x)).run s).2.blk.content.length + first.len.toNat + (f.writable.getLastD 0).toNat = r + w := by
  have hR := length_requestBytesOf hr 1 0
  have hsize := hf.size
  have hlen := length_segBytes_framed s.mem first ⟨x, f.writable.getLastD 0, true⟩ data
  rw [← hlaid, hs.bytes, List.length_append, hR, hW] at hlen
  rw [hlaid] at hs ⊢
  have hio : NoIoError s.blk (requestBytesOf r 1 0) W := by
    rw [hnil]
    refine .of_fresh (.inr ?_)
    rw [hdrOff_requestBytesOf, List.length_append, hR, hW]
    show 0 + (r + w) < _
    omega
  -- an empty file becomes as long as what is written to it
  have heffect := congrArg (fun y => y.1.length) (hs.effect hf hz (hR.ge.trans' hr) hio)
  have hhdr : ((requestBytesOf r 1 0) ++ W).take 16 = (requestBytesOf r 1 0).take 16 :=
    List.take_append_of_le_length (by omega)
  dsimp only at heffect
  rw [heffect]
  unfold chainEffect
  dsimp only
  rw [hhdr, hdrType_requestBytesOf, hdrOff_requestBytesOf, if_neg (by decide), if_pos (by decide),
    if_neg (by decide), hnil]
  have hzero : (BitVec.ofNat 64 (0 % 256 ^ 8) * 512).toNat = 0 := by decide
  dsimp only [blkOpen] at hlen ⊢
  rw [hzero, length_fileWrite_nil, List.length_take, List.length_drop, List.length_append, hR, hW]
  omega

/-- The status of a read request that starts where no file can. -/
theorem in_laid (hf : f.Splits r w) (hr : 16 ≤ r) (hz : f.writable.getLastD 0 ≠ 0) {first : Seg} {data : List Seg}
    (hlaid : f.laid x = first :: (data ++ [⟨x, f.writable.getLastD 0, true⟩]))
    (hs : Framed f (requestBytesOf r 0 (2 ^ 54)) W s (f.laid x)) (hW : W.length = w) (hnil : s.blk = blkOpen []) :
    segBytes ((blkHandle (f.laid x)).run s).2.mem (f.laid x) =
      patch (requestBytesOf r 0 (2 ^ 54) ++ W) (r + w - (f.writable.getLastD 0).toNat)
        (leBytes 1 (if data.isEmpty then virtioBlkSOk else virtioBlkSIoerr)) := by
  have hR := length_requestBytesOf hr 0 (2 ^ 54)
  have hneg : offNeg (hdrOff ((requestBytesOf r 0 (2 ^ 54)).take 16)) = true := by
    rw [hdrOff_requestBytesOf]
    decide
  have hhdr : ((requestBytesOf r 0 (2 ^ 54)) ++ W).take 16 = (requestBytesOf r 0 (2 ^ 54)).take 16 :=
    List.take_append_of_le_length (by omega)
  rw [hlaid] at hs ⊢
  have hio : NoIoError s.blk (requestBytesOf r 0 (2 ^ 54)) W := by
    rw [hnil]
    exact .of_fresh (.inl hneg)
  have heffect := congrArg Prod.snd (hs.effect hf hz (hR.ge.trans' hr) hio)
  dsimp only at heffect
  rw [heffect]
  unfold chainEffect
  dsimp only
  rw [hhdr, hdrType_requestBytesOf, if_pos (by decide), if_pos hneg, List.length_append, hR, hW]

theorem getElem?_patch {l : List (BitVec 8)} {i : Nat} (h : i < l.length) (v : Nat) :
    (patch l i (leBytes 1 v))[i]? = some (.ofNat 8 v) := by
  have hi : (l.take i).length = i := by
    rw [List.length_take]
    omega
  unfold patch
  rw [List.append_assoc, List.getElem?_append_right hi.le, hi, Nat.sub_self]
  rfl

theorem sameEnds_of_framingLaw (hf : f.Splits r w) (hf' : f'.Splits r w) (hr : 16 ≤ r) (hw : 1 ≤ w)
    (h : FramingLaw f f') : SameEnds f f' := by
  obtain ⟨hz, hne⟩ := h.last hf hf' hr hw
  have hne' : f'.writable.getLastD 0 ≠ 0 := hz ▸ hne
  have hzw : (f.writable.getLastD 0).toNat ≤ w := by
    have htotal := hf.writable
    rw [writable_eq hf hw, totalLen_append] at htotal
    have hsingle : totalLen [f.writable.getLastD 0] = (f.writable.getLastD 0).toNat := by simp [totalLen]
    omega
  have hzpos : 0 < (f.writable.getLastD 0).toNat := Nat.pos_of_ne_zero fun h => hne (BitVec.eq_of_toNat_eq h)
  generalize hx : r + w - (f.writable.getLastD 0).toNat = x
  have hplace : f.Place r w x := fun _ => hx.symm
  have hplace' : f'.Place r w x := fun _ => by rw [← hx, hz]
  obtain ⟨first, data, hlaid, hlens⟩ := laid_framed hf hw x
  obtain ⟨first', data', hlaid', hlens'⟩ := laid_framed hf' hw x
  have hW : (List.replicate w (0 : BitVec 8)).length = w := List.length_replicate
  have hframed (R : List (BitVec 8)) (hR : R.length = r) :
      Framed f R (List.replicate w 0) (requestState R (List.replicate w 0)) (f.laid x) :=
    framed_laid hf hw hplace hR hW rfl
  have hframed' (R : List (BitVec 8)) (hR : R.length = r) :
      Framed f' R (List.replicate w 0) (requestState R (List.replicate w 0)) (f'.laid x) :=
    framed_laid hf' hw hplace' hR hW rfl
  -- a write request shows where the data start
  have hfirst : first'.len = first.len := by
    have hR := length_requestBytesOf hr 1 0
    have hsize := hf.size
    have hio : NoIoError (blkOpen []) (requestBytesOf r 1 0) (List.replicate w 0) := by
      refine .of_fresh (.inr ?_)
      rw [hdrOff_requestBytesOf, List.length_append, hR, hW]
      show 0 + (r + w) < _
      omega
    have hlaw := (h _ _ _ _ _ _ (hframed _ hR) (hframed' _ hR) rfl hio hio).file
    have hout := out_laid hf hw hr hne hlaid (hframed _ hR) hW rfl
    have hout' := out_laid hf' hw hr hne' hlaid' (hframed' _ hR) hW rfl
    rw [hlaw, ← hz] at hout'
    exact BitVec.eq_of_toNat_eq (by omega)
  -- a read request from a negative offset shows whether there are data segments
  have hdata : data'.isEmpty = data.isEmpty := by
    have hR := length_requestBytesOf hr 0 (2 ^ 54)
    have hio : NoIoError (blkOpen []) (requestBytesOf r 0 (2 ^ 54)) (List.replicate w 0) := by
      refine .of_fresh (.inl ?_)
      rw [hdrOff_requestBytesOf]
      decide
    have hlaw := (h _ _ _ _ _ _ (hframed _ hR) (hframed' _ hR) rfl hio hio).writable
    rw [(hframed' _ hR).writable_eq, (hframed _ hR).writable_eq, in_laid hf hr hne hlaid (hframed _ hR) hW rfl,
      in_laid hf' hr hne' hlaid' (hframed' _ hR) hW rfl, ← hz, hx] at hlaw
    have hlen : x < (requestBytesOf r 0 (2 ^ 54) ++ List.replicate w (0 : BitVec 8)).length := by
      rw [List.length_append, hR, hW]
      omega
    have hstatus := congrArg (fun l => l[x - (requestBytesOf r 0 (2 ^ 54)).length]?) hlaw
    rw [List.getElem?_drop, List.getElem?_drop, hR, Nat.add_sub_cancel' (by omega), getElem?_patch hlen,
      getElem?_patch hlen] at hstatus
    have heq := Option.some.inj hstatus
    generalize data'.isEmpty = b' at heq ⊢
    generalize data.isEmpty = b at heq ⊢
    revert b b'
    decide
  -- a flush request shows that the status is the last byte
  have hone : f.writable.getLastD 0 = 1 := by
    have hR := length_requestBytesOf hr 4 (2 ^ 54)
    have hio : NoIoError (blkOpen []) (requestBytesOf r 4 (2 ^ 54)) (List.replicate w 0) := by
      refine .of_fresh (.inl ?_)
      rw [hdrOff_requestBytesOf]
      decide
    obtain ⟨es, htr, hlaw⟩ := (h _ _ _ _ _ _ (hframed _ hR) (hframed' _ hR) rfl hio hio).status
    obtain ⟨es', htr', hwritten⟩ := (flush_laid hf hw hr (hframed _ hR)).2
    obtain rfl := List.append_cancel_left (htr.symm.trans htr')
    have hend : (segAddrs (f.laid x)).getLast? = some (r + w - 1) := by
      obtain ⟨n, hn⟩ := Nat.exists_eq_add_one_of_ne_zero (show r + w ≠ 0 by omega)
      rw [segAddrs_laid hf hw hplace, hn, List.range'_concat, List.getLast?_concat]
      simp
    have hmem := hlaw _ hend
    rw [hwritten] at hmem
    have heq : r + w - 1 = x := hmem
    have hnat : (f.writable.getLastD 0).toNat = 1 := by omega
    exact BitVec.eq_of_toNat_eq hnat
  have hlast : f.lens.getLast? = some (f.writable.getLastD 0) := by
    rw [hlens, ← List.cons_append]
    exact List.getLast?_concat
  have hlast' : f'.lens.getLast? = some (f'.writable.getLastD 0) := by
    rw [hlens', ← List.cons_append]
    exact List.getLast?_concat
  refine ⟨?_, ?_, ?_, ?_⟩
  · rw [hlens, hlens']
    exact congrArg some hfirst
  · rw [hlast, hone]
  · rw [hlast', ← hz, hone]
  · have hiff := Bool.eq_iff_iff.1 hdata
    rw [List.isEmpty_iff_length_eq_zero, List.isEmpty_iff_length_eq_zero] at hiff
    have hlength (first : Seg) (data : List Seg) (z : BitVec 32) :
        (first.len :: (data.map Seg.len ++ [z])).length = data.length + 2 := by simp
    rw [hlens, hlens', hlength, hlength, Nat.add_eq_right, Nat.add_eq_right]
    exact hiff

end Laid

/-- Of two ways to split the same bytes. -/
theorem framingLaw_iff {f f' : Framing} {r w : Nat} (hf : f.Splits r w) (hf' : f'.Splits r w) (hr : 16 ≤ r)
    (hw : 1 ≤ w) :
    FramingLaw f f' ↔ SameEnds f f' :=
  ⟨sameEnds_of_framingLaw hf hf' hr hw, framingLaw_of_sameEnds hr hf hf'⟩

/-- A header, 512 bytes to read and a status; the header in one descriptor, or in two. -/
def plainFraming : Framing := ⟨[16], [512, 1]⟩

def splitFraming : Framing := ⟨[8, 8], [512, 1]⟩

theorem plainFraming_splits : plainFraming.Splits 16 513 :=
  ⟨rfl, rfl, by decide, by decide, by simp [plainFraming, Framing.lens, maxRwCount]⟩

theorem splitFraming_splits : splitFraming.Splits 16 513 :=
  ⟨rfl, rfl, by decide, by decide, by simp [splitFraming, Framing.lens, maxRwCount]⟩

theorem framingLaw_iff_split : FramingLaw plainFraming splitFraming ↔ SameEnds plainFraming splitFraming :=
  framingLaw_iff plainFraming_splits splitFraming_splits (by decide) (by decide)

theorem not_framingLaw :
    ¬∀ (f f' : Framing) (r w : Nat), f.Splits r w → f'.Splits r w → 16 ≤ r → 1 ≤ w → FramingLaw f f' := by
  intro h
  have hlaw := h plainFraming splitFraming 16 513 plainFraming_splits splitFraming_splits (by decide) (by decide)
  have hends := sameEnds_of_framingLaw plainFraming_splits splitFraming_splits (by decide) (by decide) hlaw
  exact absurd hends.first (by decide)

end MiniVirt.Vmm
