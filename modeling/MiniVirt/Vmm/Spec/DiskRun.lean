import MiniVirt.Lib.WriteLog
import MiniVirt.Vmm.Spec.BlockDisk
import MiniVirt.Vmm.Spec.Coalesce

/-!
# A run of the block device is a run of a disk

A disk is a row of bytes with a log of writes: each byte is what the latest write has put there.  As long as the
driver asks for whole sectors that the disk has, in chains of at most 64 descriptors, the file is the content of that
disk at every moment of a run, with the requests taken in the order in which they were made available; and when a
request is completed its status is good, and what a read has brought is the content at its turn.
-/

namespace MiniVirt.Vmm

/-! ### The disk -/

/-- What a request asks of a disk. -/
inductive DiskOp where
  | read (sector k : Nat)
  | write (sector : Nat) (l : List (BitVec 8))
  /-- Nothing that concerns the content. -/
  | other
  deriving DecidableEq

def DiskOp.writes : DiskOp → List (Nat × List (BitVec 8))
  | .write sector l => [(512 * sector, l)]
  | .read .. | .other => []

/-- The disk has the sectors. -/
def DiskOp.Within (capacity : Nat) : DiskOp → Prop
  | .read sector k => sector + k ≤ capacity
  | .write sector l => 512 * sector + l.length ≤ 512 * capacity
  | .other => True

/-- The byte at `a` of a disk with this content, after `ops`. -/
def diskByte (content : List (BitVec 8)) (ops : List DiskOp) (a : Nat) : Option (BitVec 8) :=
  (WriteLog.latest (ops.flatMap DiskOp.writes) a).or content[a]?

/-! ### What a posting asks -/

/-- What the posting puts in guest RAM, with 0 elsewhere. -/
def Posting.image (p : Posting) : ByteMem := fun a => (p.bytes a).getD 0

/-- The request that a posting makes. -/
def Posting.diskOp (p : Posting) : DiskOp :=
  match p.entry.chain with
  | some (hdr :: rest) =>
    let bytes := p.image.read hdr.addr.toNat 16
    let data := descBytes p.image rest.dropLast
    if hdrType bytes = virtioBlkTIn then .read (leNat ((bytes.drop 8).take 8)) (data.length / 512)
    else if hdrType bytes = virtioBlkTOut then .write (leNat ((bytes.drop 8).take 8)) data
    else .other
  | _ => .other

/-- A chain of a header of 16 bytes, the data and a status of one byte, in buffers of their own; the header, and the
data of a write, are among what is posted. -/
structure Posting.Frames (p : Posting) (hdr : Desc) (data : List Desc) (status : Desc) : Prop where
  chain : p.entry.chain = some (hdr :: (data ++ [status]))
  hdrLen : hdr.len = 16
  statusLen : status.len = 1
  few : data.length ≤ 62
  /-- `pread()` and `pwrite()` can transfer every descriptor in one call. -/
  le_rw : ∀ d ∈ data, d.len.toNat ≤ maxRwCount
  sectors : 512 ∣ (descBytes p.image data).length
  disjoint : (segAddrs ((hdr :: (data ++ [status])).map Desc.seg)).Nodup
  header : ∀ a ∈ List.range' hdr.addr.toNat 16, (p.bytes a).isSome
  out : hdrType (p.image.read hdr.addr.toNat 16) = virtioBlkTOut →
    ∀ a ∈ segAddrs (data.map Desc.seg), (p.bytes a).isSome

/-- The posting is a malformed chain, or a request that a disk of `capacity` sectors can serve. -/
def Posting.ForDisk (capacity : Nat) (p : Posting) : Prop :=
  p.entry.chain = none ∨ ∃ hdr data status, p.Frames hdr data status ∧ p.diskOp.Within capacity

/-- A request of the disk has been completed, for a disk whose bytes are `disk`. -/
def DiskOp.Done (disk : Nat → Option (BitVec 8)) (data : List Desc) (status : Desc) (s : St) : DiskOp → Prop
  | .read sector k => StatusOk s status ∧ (descBytes s.mem data).length = 512 * k ∧
      ∀ j < 512 * k, (descBytes s.mem data)[j]? = disk (512 * sector + j)
  | .write .. => StatusOk s status
  | .other => True

variable {p : Posting} {hdr status : Desc} {data : List Desc} {s s' : St}

/-- What is posted is in guest RAM, in the buffers of the chain. -/
def Posting.InRam (p : Posting) (m : ByteMem) : Prop :=
  ∀ ds, p.entry.chain = some ds → ∀ a ∈ chainBytes ds, (p.bytes a).isSome → m a = p.image a

namespace Posting.Frames

theorem diskOp (h : p.Frames hdr data status) : p.diskOp =
    if hdrType (p.image.read hdr.addr.toNat 16) = virtioBlkTIn then
      .read (leNat (((p.image.read hdr.addr.toNat 16).drop 8).take 8)) ((descBytes p.image data).length / 512)
    else if hdrType (p.image.read hdr.addr.toNat 16) = virtioBlkTOut then
      .write (leNat (((p.image.read hdr.addr.toNat 16).drop 8).take 8)) (descBytes p.image data)
    else .other := by
  unfold Posting.diskOp
  rw [h.chain]
  dsimp only
  rw [List.dropLast_concat]

/-- A transfer of sectors that the disk has is within the disk. -/
theorem within {capacity : Nat} (h : p.Frames hdr data status)
    (hin : leNat (((p.image.read hdr.addr.toNat 16).drop 8).take 8) + (descBytes p.image data).length / 512 ≤
      capacity) : p.diskOp.Within capacity := by
  have hlen := Nat.mul_div_cancel' h.sectors
  rw [h.diskOp]
  split_ifs
  · exact hin
  · unfold DiskOp.Within
    omega
  · trivial

theorem mem_chain {a : Nat} (ds : List Desc) (hds : ∀ d ∈ ds, d ∈ hdr :: (data ++ [status]))
    (ha : a ∈ segAddrs (ds.map Desc.seg)) : a ∈ chainBytes (hdr :: (data ++ [status])) := by
  obtain ⟨seg, hseg, hrange⟩ := List.mem_flatMap.1 ha
  obtain ⟨d, hd, rfl⟩ := List.mem_map.1 hseg
  obtain ⟨hle, hlt⟩ := List.mem_range'_1.1 hrange
  exact ⟨d, hds d hd, hle, hlt.trans_le (Nat.add_le_add_left (le_max_right _ _) _)⟩

theorem headerBytes (h : p.Frames hdr data status) (hram : p.InRam s.mem) :
    headerBytes s hdr = p.image.read hdr.addr.toNat 16 := by
  unfold Vmm.headerBytes
  rw [ByteMem.read_eq_gather, ByteMem.read_eq_gather]
  apply ByteMem.gather_congr
  intro a ha
  apply hram _ h.chain _ _ (h.header a ha)
  apply mem_chain [hdr]
  · simp
  · rw [List.map_singleton, segAddrs, List.flatMap_singleton]
    rwa [show hdr.seg.len.toNat = 16 from congrArg BitVec.toNat h.hdrLen]

theorem dataBytes (h : p.Frames hdr data status) (hram : p.InRam s.mem)
    (hout : hdrType (p.image.read hdr.addr.toNat 16) = virtioBlkTOut) :
    descBytes s.mem data = descBytes p.image data := by
  rw [descBytes_eq_gather, descBytes_eq_gather]
  apply ByteMem.gather_congr
  intro a ha
  apply hram _ h.chain _ _ (h.out hout a ha)
  apply mem_chain data _ ha
  intro d hd
  simp [hd]

/-- A transfer is a request to a disk. -/
theorem diskRequest (h : p.Frames hdr data status) (hram : p.InRam s.mem) (hfull : s.blk.TransfersFully maxRwCount)
    (htype : hdrType (p.image.read hdr.addr.toNat 16) = virtioBlkTIn ∨
      hdrType (p.image.read hdr.addr.toNat 16) = virtioBlkTOut) :
    DiskRequest s hdr data status ((descBytes p.image data).length / 512) where
  hdrLen := h.hdrLen
  dataLen := by
    rw [Nat.mul_div_cancel' h.sectors, length_descBytes, length_descBytes]
  statusLen := h.statusLen
  disjoint := h.disjoint
  type := by rwa [h.headerBytes hram]
  full d hd := hfull.mono (h.le_rw d hd)

theorem lastStored (h : p.Frames hdr data status) : lastStored data status = status := by
  unfold Vmm.lastStored unstoredData
  rw [List.drop_of_length_le h.few]
  rfl

theorem storedData (h : p.Frames hdr data status) : storedData data = data := List.take_of_length_le h.few

end Posting.Frames

/-! ### One request -/

/-- The handler has served a posting on the disk. -/
structure ServesDisk (p : Posting) (data : List Desc) (status : Desc) (s s' : St) : Prop where
  content : s'.blk.content = WriteLog.overwrites s.blk.content p.diskOp.writes
  capacity : s'.blk.capacity = s.blk.capacity
  ios : s'.blk.ios <:+ s.blk.ios
  done : p.diskOp.Done (s.blk.content[·]?) data status s'

theorem handled_read {k : Nat} (h : DiskRequest s hdr data status k) (hfile : DiskFile s.blk)
    (hin : headerSector s hdr + k ≤ s.blk.capacity.toNat) (hlast : lastStored data status = status)
    (hstored : storedData data = data) (htype : hdrType (headerBytes s hdr) = virtioBlkTIn) :
    (∃ ios, (s.handled hdr data status).blk = { s.blk with ios := ios } ∧ ios <:+ s.blk.ios) ∧
      (DiskOp.read (headerSector s hdr) k).Done (s.blk.content[·]?) data status (s.handled hdr data status) := by
  have hsectors := hfile.sectors
  obtain ⟨hok, -, hbytes⟩ := handled_in h hfile hin (congrArg Desc.addr hlast) htype
  have hnone : unstoredData data = [] := by
    have hsplit : storedData data ++ unstoredData data = data := List.take_append_drop 62 data
    rw [hstored] at hsplit
    exact List.append_right_eq_self.1 hsplit
  rw [hstored, h.dataLen, hnone] at hbytes
  have hbytes : descBytes (s.handled hdr data status).mem data =
      (s.blk.content.drop (512 * headerSector s hdr)).take (512 * k) := hbytes.trans (List.append_nil _)
  refine ⟨?_, hok, ?_, fun j hj => ?_⟩
  · -- of the backend only the coming calls change
    obtain ⟨s₃, -, hblk, hrun⟩ := handled_run h
    obtain ⟨-, hneg⟩ := hdrOff_of_le hfile hin
    rw [if_pos htype] at hrun
    obtain ⟨es, ios, hfill, hios, -⟩ := @blkIn_run_full s₃ (lastStored data status).addr.toNat
      (hdrOff (headerBytes s hdr)) 0 ((storedData data).map Desc.seg) (hblk ▸ hfile.length) hneg (h.fullStored hblk)
    rw [hblk] at hfill hios
    exact ⟨ios, by rw [hrun, hfill], hios⟩
  · rw [hbytes, List.length_take, List.length_drop]
    omega
  · rw [hbytes, List.getElem?_take, if_pos hj, List.getElem?_drop]

theorem handled_write {k : Nat} (h : DiskRequest s hdr data status k) (hfile : DiskFile s.blk)
    (hin : headerSector s hdr + k ≤ s.blk.capacity.toNat) (hlast : lastStored data status = status)
    (hstored : storedData data = data) (htype : hdrType (headerBytes s hdr) = virtioBlkTOut) :
    StatusOk (s.handled hdr data status) status ∧
      (s.handled hdr data status).blk.content =
        WriteLog.overwrite s.blk.content (512 * headerSector s hdr) (descBytes s.mem data) ∧
      (s.handled hdr data status).blk.capacity = s.blk.capacity ∧
          (s.handled hdr data status).blk.ios <:+ s.blk.ios := by
  have hsectors := hfile.sectors
  have hlength := hfile.length
  obtain ⟨hok, hcontent⟩ := handled_out h hfile hin (congrArg Desc.addr hlast) htype
  refine ⟨hok, ?_, ?_⟩
  · rw [hcontent, hstored, fileWrite_eq_patch (by rw [h.dataLen]; omega)]
    rfl
  · obtain ⟨s₃, -, hblk, hrun⟩ := handled_run h
    obtain ⟨hoff, -⟩ := hdrOff_of_le hfile hin
    have hlen := h.dataLen
    have hfull := h.fullStored hblk
    rw [length_descBytes] at hlen
    rw [if_neg (by rw [htype]; decide), hstored] at hrun
    rw [hstored] at hfull
    obtain ⟨es, ios, hout, hios, -⟩ := @blkOut_run s₃ (lastStored data status).addr.toNat (hdrOff (headerBytes s hdr))
      (data.map Desc.seg) (by omega) hfull
    rw [hblk] at hout hios
    rw [hrun, hout]
    exact ⟨rfl, hios⟩

theorem chainPrefix_framed (h : hdr.len = 16) (rest : List Desc) (s : St) :
    chainPrefix s.mem (chainSegs (hdr :: rest)) (s.stale.read 0 16) = headerBytes s hdr := by
  have hfirst : s.mem.read hdr.seg.hva hdr.seg.len.toNat = headerBytes s hdr :=
    congrArg (fun n : BitVec 32 => s.mem.read hdr.addr.toNat n.toNat) h
  have hlen : (headerBytes s hdr).length = 16 := ByteMem.length_read ..
  have hbytes : segBytes s.mem (chainSegs (hdr :: rest)) =
      headerBytes s hdr ++ segBytes s.mem ((rest.map Desc.seg).take 63) := by
    rw [← hfirst]
    rfl
  unfold chainPrefix
  rw [hbytes, ByteMem.length_read, List.take_left' hlen, List.drop_of_length_le, List.append_nil]
  rw [ByteMem.length_read, List.length_append, hlen]
  exact Nat.le_add_right _ _

/-- Any other request leaves the file alone. -/
theorem handled_other (h : hdr.len = 16) (hin : hdrType (headerBytes s hdr) ≠ virtioBlkTIn)
    (hout : hdrType (headerBytes s hdr) ≠ virtioBlkTOut) : (s.handled hdr data status).blk = s.blk := by
  obtain ⟨s₂, hread, hrun⟩ := blkHandle_run (blkParts_request hdr status data) s
  unfold St.handled
  rw [hrun, chainPrefix_framed h, blkRequest_run]
  dsimp only
  rw [if_neg hin, if_neg hout]
  split_ifs <;> exact hread.blk

/-- A request within the disk is served on the disk. -/
theorem Posting.Frames.served (h : p.Frames hdr data status) (hram : p.InRam s.mem) (hfile : DiskFile s.blk)
    (hfull : s.blk.TransfersFully maxRwCount) (hin : p.diskOp.Within s.blk.capacity.toNat) :
    ServesDisk p data status s (s.handled hdr data status) := by
  have hheader := h.headerBytes hram
  have hop : p.diskOp =
      if hdrType (Vmm.headerBytes s hdr) = virtioBlkTIn then
        .read (headerSector s hdr) ((descBytes p.image data).length / 512)
      else if hdrType (Vmm.headerBytes s hdr) = virtioBlkTOut then
        .write (headerSector s hdr) (descBytes p.image data)
      else .other := by
    rw [h.diskOp, ← hheader]
    rfl
  have hlen := Nat.mul_div_cancel' h.sectors
  split_ifs at hop with hread hwrite
  · -- a read
    rw [hop] at hin
    have hreq := h.diskRequest hram hfull (.inl (by rwa [← hheader]))
    obtain ⟨⟨ios, hblk, hios⟩, hdone⟩ := handled_read hreq hfile hin h.lastStored h.storedData hread
    exact ⟨by rw [hop, hblk]; rfl, by rw [hblk], by rwa [hblk], by rwa [hop]⟩
  · rw [hop] at hin
    have hreq := h.diskRequest hram hfull (.inr (by rwa [← hheader]))
    have hin' : headerSector s hdr + (descBytes p.image data).length / 512 ≤ s.blk.capacity.toNat := by
      unfold DiskOp.Within at hin
      omega
    obtain ⟨hok, hcontent, hcapacity, hios⟩ := handled_write hreq hfile hin' h.lastStored h.storedData hwrite
    refine ⟨?_, hcapacity, hios, by rwa [hop]⟩
    rw [hop, hcontent, h.dataBytes hram (by rwa [← hheader])]
    rfl
  · have hblk : (s.handled hdr data status).blk = s.blk := handled_other h.hdrLen hread hwrite
    exact ⟨by rw [hop, hblk]; rfl, by rw [hblk], by rw [hblk], by rw [hop]; trivial⟩

/-! ### A run -/

variable {L : Layout} {m₀ : ByteMem} {s₀ : St} {ps : List Posting} {z : PlaneRun} {k : Nat} {posted : Posted}

/-- What the next posting puts in its buffers is there until it is served. -/
theorem Sequential.inRam (h : Sequential L s₀ ps s) (hp : ps[(s.taken .blk 0).length]? = some p) : p.InRam s.mem := by
  have hdrop : ps.drop (s.taken .blk 0).length = p :: ps.drop ((s.taken .blk 0).length + 1) := by
    rw [List.drop_eq_getElem?_toList_append, hp]
    rfl
  have hover := h.ahead
  have hapart := h.apart
  rw [hdrop] at hover hapart
  intro ds hds a ha hsome
  obtain ⟨v, hv⟩ := Option.isSome_iff_exists.1 hsome
  rw [hover.mem]
  simp [ByteMem.overlay, overs, (apart_overs hapart).buffers ds hds a ha, Posting.image, hv]

/-- An entry that the block device has served. -/
structure EntryDone (p : Posting) (s s' : St) : Prop where
  content : s'.blk.content = WriteLog.overwrites s.blk.content p.diskOp.writes
  capacity : s'.blk.capacity = s.blk.capacity
  ios : s'.blk.ios <:+ s.blk.ios
  done : ∀ hdr data status, p.Frames hdr data status → p.diskOp.Done (s.blk.content[·]?) data status s'

theorem DiskOp.Done.congr {op : DiskOp} {disk : Nat → Option (BitVec 8)} (h : op.Done disk data status s)
    (hstatus : s'.mem status.addr.toNat = s.mem status.addr.toNat)
    (hdata : descBytes s'.mem data = descBytes s.mem data) :
    op.Done disk data status s' := by
  cases op with
  | read sector k =>
    unfold DiskOp.Done StatusOk at h ⊢
    rwa [hstatus, hdata]
  | write sector l =>
    unfold DiskOp.Done StatusOk at h ⊢
    rwa [hstatus]
  | other => trivial

theorem ServesEntry.disk (hL : L.SetUp) (hlive : L.Live .blk 0) (hinv : QueueInv L m₀ posted s)
    (hp : (posted .blk 0)[(s.taken .blk 0).length]? = some p.entry) (hram : p.InRam s.mem) (hfile : DiskFile s.blk)
    (hfull : s.blk.TransfersFully maxRwCount) (hdisk : p.ForDisk s.blk.capacity.toNat)
    (hserves : ServesEntry L posted blkHandle .blk 0 p.entry s s') : EntryDone p s s' := by
  cases hserves with
  | malformed hchain hreads =>
    obtain ⟨es, rfl, -⟩ := hreads
    -- a malformed chain asks for nothing, and nothing is done
    have hop : p.diskOp = .other := by
      unfold Posting.diskOp
      rw [hchain]
    refine ⟨by rw [hop]; rfl, rfl, List.suffix_rfl, fun hdr data status hframes => ?_⟩
    rw [hop]
    trivial
  | @served s₁ s₂ slot ds len hchain hreads hhandle _ =>
    obtain ⟨hdr, data, status, hframes, hin⟩ := hdisk.resolve_left (by rw [hchain]; nofun)
    obtain rfl := Option.some.inj (hchain.symm.trans hframes.chain)
    have hwork : Work s₁ ((blkHandle (chainSegs (hdr :: (data ++ [status])))).run s₁).2 := work_transfers.blkHandle _ s₁
    rw [hhandle] at hwork
    have hs₂ : s₁.handled hdr data status = s₂ := congrArg Prod.snd hhandle
    have hlayout : s₂.layout = L := by
      rw [hwork.layout, ← hinv.layout]
      obtain ⟨es, rfl, -⟩ := hreads
      rfl
    obtain ⟨es, rfl, -⟩ := hreads
    have hserved := hframes.served (s := { s with trace := s.trace ++ es }) hram hfile hfull hin
    rw [hs₂] at hserved
    have hconfig := layout_vq hlayout .blk 0
    have hused := hL.used .blk 0 hlive
    have hnum := hL.num_pos hlive
    rw [← hconfig] at hnum hused
    rw [← layout_memSize hlayout] at hused
    -- the used ring is no part of the chain
    have hmem : ∀ a ∈ chainBytes (hdr :: (data ++ [status])),
        ((advance .blk 0 slot p.entry.head).run ((pushUsed .blk 0 p.entry.head len).run s₂).2).2.mem a = s₂.mem a := by
      intro a ha
      rw [pushUsed_run hused]
      refine Vq.pushElem_of_not_mem hnum (fun hring => ?_) _ _
      have hentry : p.entry ∈ (posted .blk 0).drop (s.taken .blk 0).length := by
        rw [List.drop_eq_getElem?_toList_append, hp]
        simp
      have hapart := (hinv.laid .blk 0 hlive).apart p.entry hentry _ hchain a ha
      refine hapart ⟨.blk, 0, hlive, .inr ?_⟩
      rw [← hconfig]
      exact hring
    have hblk : ((advance .blk 0 slot p.entry.head).run ((pushUsed .blk 0 p.entry.head len).run s₂).2).2.blk =
        s₂.blk := by
      rw [pushUsed_run hused]
      rfl
    refine ⟨by rw [hblk, hserved.content], by rw [hblk, hserved.capacity], by rw [hblk]; exact hserved.ios,
      fun hdr' data' status' hframes' => ?_⟩
    have hsame := Option.some.inj (hframes.chain.symm.trans hframes'.chain)
    obtain ⟨rfl, hrest⟩ := List.cons.inj hsame
    obtain ⟨rfl, hlast⟩ := List.append_inj' hrest rfl
    obtain rfl := List.singleton_inj.1 hlast
    refine hserved.done.congr (hmem _ ?_) ?_
    · exact ⟨status, by simp, le_rfl, by omega⟩
    · rw [descBytes_eq_gather, descBytes_eq_gather]
      refine ByteMem.gather_congr fun a ha => hmem a (Posting.Frames.mem_chain data (fun d hd => ?_) ha)
      simp [hd]

/-- A step of the run leaves the block device alone, or serves its next entry. -/
theorem BlkPlaneInv.step_cases {a : BlkNotifyAct} (hL : L.SetUp) (h : BlkPlaneInv L m₀ s₀ ps z k) :
    (a.step z).plane.st.taken .blk 0 = z.plane.st.taken .blk 0 ∧ (a.step z).plane.st.blk = z.plane.st.blk ∨
      ∃ p, ps[(z.plane.st.taken .blk 0).length]? = some p ∧ L.Live .blk 0 ∧
        ServesEntry L z.posted blkHandle .blk 0 p.entry z.plane.st (a.step z).plane.st := by
  cases a with
  | post p => exact .inl ⟨rfl, rfl⟩
  | notify =>
    have hstep : BlkNotifyAct.notify.step z = _ := @notify_step z .blk 0 Nat.one_pos
    rw [hstep]
    exact .inl ⟨rfl, rfl⟩
  | ack d val =>
    have hstep : (BlkNotifyAct.ack d val).step z = _ := ack_step d val
    rw [hstep]
    have hkept := (intAck_kept ∅ d val z.plane.st).1
    exact .inl ⟨hkept.taken .blk 0, (intAck_over d val z.plane.st).1.blk⟩
  | wake evs =>
    have hst : ((BlkNotifyAct.wake evs).step z).plane.st = z.plane.st := by
      show ((PlaneAct.wake evs).step z.plane).st = _
      unfold PlaneAct.step
      dsimp only
      split <;> rfl
    rw [hst]
    exact .inl ⟨rfl, rfl⟩
  | work =>
    rcases h.work_cases hL with hcalm | hserves
    · exact .inl ⟨hcalm.taken, hcalm.calm.blk⟩
    · exact .inr hserves

/-- The state of the devices after a run from `s₀`. -/
def blkRun (s₀ : St) (acts : List BlkNotifyAct) : St := (runSteps BlkNotifyAct.step s₀.planeRun acts).plane.st

/-- How many of the requests are completed. -/
def St.done (s : St) : Nat := (s.taken .blk 0).length

def diskOps (ps : List Posting) (n : Nat) : List DiskOp := (ps.take n).map Posting.diskOp

/-- What a run of the block device has of a disk. -/
structure DiskRun (s₀ : St) (acts : List BlkNotifyAct) : Prop where
  /-- At every moment the file is the disk after the requests that are completed. -/
  content : ∀ before, before <+: acts → ∀ a, (blkRun s₀ before).blk.content[a]? =
    diskByte s₀.blk.content (diskOps (acts.filterMap BlkNotifyAct.posting) (blkRun s₀ before).done) a
  /-- A step completes at most the next request, and then this one is served on the disk. -/
  completed : ∀ before a, before ++ [a] <+: acts → (blkRun s₀ (before ++ [a])).done ≠ (blkRun s₀ before).done →
    (blkRun s₀ (before ++ [a])).done = (blkRun s₀ before).done + 1 ∧
      ∃ p, (acts.filterMap BlkNotifyAct.posting)[(blkRun s₀ before).done]? = some p ∧
        ∀ hdr data status, p.Frames hdr data status → p.diskOp.Done
          (diskByte s₀.blk.content (diskOps (acts.filterMap BlkNotifyAct.posting) (blkRun s₀ before).done))
          data status (blkRun s₀ (before ++ [a]))

/-- What holds of a run that has made the postings `ps`. -/
structure DiskInv (L : Layout) (m₀ : ByteMem) (s₀ : St) (ps : List Posting) (z : PlaneRun) (k : Nat) : Prop where
  plane : BlkPlaneInv L m₀ s₀ ps z k
  content : z.plane.st.blk.content =
    WriteLog.overwrites s₀.blk.content ((diskOps ps z.plane.st.done).flatMap DiskOp.writes)
  capacity : z.plane.st.blk.capacity = s₀.blk.capacity
  full : z.plane.st.blk.TransfersFully maxRwCount

/-- The writes are within the file. -/
theorem writes_fit (hfile : DiskFile s₀.blk) (hdisk : ∀ p ∈ ps, p.ForDisk s₀.blk.capacity.toNat) (n : Nat) :
    ∀ w ∈ (diskOps ps n).flatMap DiskOp.writes, w.1 + w.2.length ≤ s₀.blk.content.length := by
  intro w hw
  obtain ⟨op, hop, hwrites⟩ := List.mem_flatMap.1 hw
  obtain ⟨p, hp, rfl⟩ := List.mem_map.1 hop
  have hsectors := hfile.sectors
  rcases hdisk p (List.mem_of_mem_take hp) with hnone | ⟨hdr, data, status, -, hin⟩
  · have hother : p.diskOp = .other := by
      unfold Posting.diskOp
      rw [hnone]
    rw [hother] at hwrites
    cases hwrites
  · generalize p.diskOp = op at hwrites hin
    cases op with
    | write sector l =>
      obtain rfl := List.mem_singleton.1 hwrites
      exact hin.trans hsectors
    | read sector k | other => cases hwrites

theorem DiskInv.bytes (h : DiskInv L m₀ s₀ ps z k) (hfile : DiskFile s₀.blk)
    (hdisk : ∀ p ∈ ps, p.ForDisk s₀.blk.capacity.toNat) (a : Nat) : z.plane.st.blk.content[a]? =
      diskByte s₀.blk.content (diskOps ps z.plane.st.done) a := by
  rw [h.content]
  exact WriteLog.getElem?_overwrites (writes_fit hfile hdisk _)

theorem DiskInv.file (h : DiskInv L m₀ s₀ ps z k) (hfile : DiskFile s₀.blk)
    (hdisk : ∀ p ∈ ps, p.ForDisk s₀.blk.capacity.toNat) : DiskFile z.plane.st.blk := by
  have hlen := WriteLog.length_overwrites (writes_fit hfile hdisk z.plane.st.done)
  rw [← h.content] at hlen
  exact ⟨by rw [hlen, h.capacity]; exact hfile.sectors, by rw [hlen]; exact hfile.length⟩

theorem diskOps_append {n : Nat} (h : n ≤ ps.length) (ps' : List Posting) : diskOps (ps ++ ps') n = diskOps ps n := by
  unfold diskOps
  rw [List.take_append_of_le_length h]

theorem DiskInv.le (hlive : L.Live .blk 0) (h : DiskInv L m₀ s₀ ps z k) : z.plane.st.done ≤ ps.length := by
  have hlaid := (h.plane.plane.queues.laid .blk 0 hlive).le
  rwa [h.plane.posted, List.length_map] at hlaid

/-- Either nothing happens to the disk, or the next request is done. -/
structure NextDone (ps : List Posting) (s s' : St) : Prop where
  done : s'.done = s.done + 1
  served : ∃ p, ps[s.done]? = some p ∧ EntryDone p s s'

theorem DiskInv.step_cases (hL : L.SetUp) (h : DiskInv L m₀ s₀ ps z k) (hfile : DiskFile s₀.blk)
    (hdisk : ∀ p ∈ ps, p.ForDisk s₀.blk.capacity.toNat) (a : BlkNotifyAct) :
    (a.step z).plane.st.done = z.plane.st.done ∧ (a.step z).plane.st.blk = z.plane.st.blk ∨
      NextDone ps z.plane.st (a.step z).plane.st := by
  rcases h.plane.step_cases hL with ⟨htaken, hblk⟩ | ⟨p, hp, hlive, hserves⟩
  · exact .inl ⟨congrArg List.length htaken, hblk⟩
  · have hforDisk := hdisk p (List.mem_of_getElem? hp)
    rw [← h.capacity] at hforDisk
    refine .inr ⟨?_, p, hp, ?_⟩
    · unfold St.done
      rw [hserves.blk_taken, List.length_append, List.length_singleton]
    · refine hserves.disk hL hlive h.plane.plane.queues ?_ (h.plane.sequential.inRam hp) (h.file hfile hdisk)
        h.full hforDisk
      rw [h.plane.posted, List.getElem?_map, hp]
      rfl

theorem DiskInv.step {a : BlkNotifyAct} (hL : L.SetUp) (hlive : L.Live .blk 0) (h : DiskInv L m₀ s₀ ps z k)
    (hfile : DiskFile s₀.blk) (hdisk : ∀ p ∈ ps, p.ForDisk s₀.blk.capacity.toNat) (ha : a.Allowed L z) :
    ∃ k', DiskInv L m₀ s₀ (ps ++ a.posting.toList) (a.step z) k' := by
  obtain ⟨k', hplane⟩ := h.plane.step hL ha
  have hle := h.le hlive
  refine ⟨k', hplane, ?_, ?_, ?_⟩
  · rcases h.step_cases hL hfile hdisk a with ⟨hdone, hblk⟩ | ⟨hdone, p, hp, hserved⟩
    · -- a new posting does not count until it is served
      rw [hdone, hblk, diskOps_append hle]
      exact h.content
    · have hlt := (List.getElem?_eq_some_iff.1 hp).1
      rw [hdone, diskOps_append hlt, hserved.content, h.content]
      unfold diskOps
      rw [List.take_add_one, hp, List.map_append, List.flatMap_append]
      simp [WriteLog.overwrites]
  · rcases h.step_cases hL hfile hdisk a with ⟨-, hblk⟩ | ⟨-, p, -, hserved⟩
    · rw [hblk, h.capacity]
    · rw [hserved.capacity, h.capacity]
  · rcases h.step_cases hL hfile hdisk a with ⟨-, hblk⟩ | ⟨-, p, -, hserved⟩
    · rw [hblk]
      exact h.full
    · exact h.full.of_suffix hserved.ios

theorem DiskInv.run {acts : List BlkNotifyAct} (hL : L.SetUp) (hlive : L.Live .blk 0) (h : DiskInv L m₀ s₀ ps z k)
    (hfile : DiskFile s₀.blk)
    (hdisk : ∀ p ∈ ps ++ acts.filterMap BlkNotifyAct.posting, p.ForDisk s₀.blk.capacity.toNat)
    (hacts : AllSteps BlkNotifyAct.step (BlkNotifyAct.Allowed L) z acts) :
    ∃ k', DiskInv L m₀ s₀ (ps ++ acts.filterMap BlkNotifyAct.posting) (runSteps BlkNotifyAct.step z acts) k' := by
  induction acts generalizing z ps k with
  | nil =>
    rw [List.filterMap_nil, List.append_nil]
    exact ⟨k, h⟩
  | cons a acts ih =>
    have hsplit : ps ++ (a :: acts).filterMap BlkNotifyAct.posting =
        (ps ++ a.posting.toList) ++ acts.filterMap BlkNotifyAct.posting := by
      cases hp : a.posting <;> simp [hp]
    obtain ⟨k₁, h₁⟩ := h.step hL hlive hfile (fun p hp => hdisk p (List.mem_append_left _ hp)) hacts.1
    rw [hsplit] at hdisk ⊢
    exact ih h₁ hdisk hacts.2

theorem Started.diskInv (hs : Started s₀) (hfull : s₀.blk.TransfersFully maxRwCount) :
    DiskInv s₀.layout s₀.mem s₀ [] s₀.planeRun 0 :=
  ⟨hs.blkPlaneInv, by simp [diskOps, WriteLog.overwrites, St.planeRun], rfl, hfull⟩

/-- However the driver and the worker take turns, the block device is a disk, and the requests are served on it one
by one in the order of the avail ring; provided that no call on the file fails or stops before `maxRwCount` bytes. -/
theorem worker_disk {acts : List BlkNotifyAct} (hs : Started s₀) (hlive : s₀.layout.Live .blk 0)
    (hfile : DiskFile s₀.blk) (hfull : s₀.blk.TransfersFully maxRwCount)
    (hdisk : ∀ p ∈ acts.filterMap BlkNotifyAct.posting, p.ForDisk s₀.blk.capacity.toNat)
    (h : AllSteps BlkNotifyAct.step (BlkNotifyAct.Allowed s₀.layout) s₀.planeRun acts) : DiskRun s₀ acts := by
  -- every moment of the run is the end of a shorter run with fewer postings
  have hpre {before rest : List BlkNotifyAct} (hacts : before ++ rest = acts) :
      (∃ k, DiskInv s₀.layout s₀.mem s₀ (before.filterMap BlkNotifyAct.posting)
        (runSteps BlkNotifyAct.step s₀.planeRun before) k) ∧
      (∀ p ∈ before.filterMap BlkNotifyAct.posting, p.ForDisk s₀.blk.capacity.toNat) ∧
      acts.filterMap BlkNotifyAct.posting =
        before.filterMap BlkNotifyAct.posting ++ rest.filterMap BlkNotifyAct.posting := by
    have hsplit : acts.filterMap BlkNotifyAct.posting =
        before.filterMap BlkNotifyAct.posting ++ rest.filterMap BlkNotifyAct.posting := by
      rw [← hacts, List.filterMap_append]
    have hall : ∀ p ∈ before.filterMap BlkNotifyAct.posting, p.ForDisk s₀.blk.capacity.toNat := by
      intro p hp
      apply hdisk
      rw [hsplit]
      exact List.mem_append_left _ hp
    rw [← hacts] at h
    exact ⟨(hs.diskInv hfull).run hs.setUp hlive hfile hall (allSteps_append.1 h).1, hall, hsplit⟩
  refine ⟨?_, ?_⟩
  · rintro before ⟨rest, hacts⟩ a
    obtain ⟨⟨k, hinv⟩, hall, hsplit⟩ := hpre hacts
    have hle : (blkRun s₀ before).done ≤ (before.filterMap BlkNotifyAct.posting).length := hinv.le hlive
    rw [hsplit, diskOps_append hle]
    exact hinv.bytes hfile hall a
  · rintro before a ⟨rest, hacts⟩ hne
    rw [List.append_assoc] at hacts
    obtain ⟨⟨k, hinv⟩, hall, hsplit⟩ := hpre hacts
    have hstep : blkRun s₀ (before ++ [a]) = (a.step (runSteps BlkNotifyAct.step s₀.planeRun before)).plane.st := by
      unfold blkRun
      rw [runSteps_append]
      rfl
    rw [hstep] at hne ⊢
    rcases hinv.step_cases hs.setUp hfile hall a with ⟨hsame, -⟩ | ⟨hdone, p, hp, hserved⟩
    · exact absurd hsame hne
    · have hle : (blkRun s₀ before).done ≤ (before.filterMap BlkNotifyAct.posting).length := hinv.le hlive
      refine ⟨hdone, p, ?_, fun hdr data status hframes => ?_⟩
      · have hlt : (blkRun s₀ before).done < _ := (List.getElem?_eq_some_iff.1 hp).1
        rw [hsplit, List.getElem?_append_left hlt]
        exact hp
      · rw [hsplit, diskOps_append hle]
        have hbytes : (fun a => (blkRun s₀ before).blk.content[a]?) =
            diskByte s₀.blk.content (diskOps (before.filterMap BlkNotifyAct.posting) (blkRun s₀ before).done) :=
          funext (hinv.bytes hfile hall)
        rw [← hbytes]
        exact hserved.done hdr data status hframes

/-! ### The disk of one sector -/

theorem diskQueue_capacity : diskQueue.blk.capacity = 1 := by
  show BitVec.ofNat 64 ((List.replicate 512 (0xff : BitVec 8)).length / 512) = 1
  rw [List.length_replicate]
  rfl

theorem diskQueue_file : DiskFile diskQueue.blk := by
  have hlen : diskQueue.blk.content.length = 512 := List.length_replicate
  refine ⟨?_, ?_⟩
  · rw [hlen, diskQueue_capacity]
    decide
  · rw [hlen]
    decide

theorem length_sectorBytes {d : Desc} (hlen : d.len = 512) (m : ByteMem) : (descBytes m [d]).length = 512 := by
  rw [length_descBytes, List.map_singleton, segAddrs, List.flatMap_singleton, List.length_range']
  exact congrArg BitVec.toNat hlen

/-- A header, one sector and a status that lie one behind the other. -/
theorem Posting.Frames.of_behind {d : Desc} (hchain : p.entry.chain = some [hdr, d, status]) (hhdr : hdr.len = 16)
    (hd : d.len = 512) (hstatus : status.len = 1) (hdata : d.addr.toNat = hdr.addr.toNat + 16)
    (hlast : status.addr.toNat = hdr.addr.toNat + 16 + 512)
    (hheader : ∀ a ∈ List.range' hdr.addr.toNat 16, (p.bytes a).isSome)
    (hout : hdrType (p.image.read hdr.addr.toNat 16) = virtioBlkTOut →
      ∀ a ∈ List.range' d.addr.toNat 512, (p.bytes a).isSome) : p.Frames hdr [d] status where
  chain := hchain
  hdrLen := hhdr
  statusLen := hstatus
  few := by
    rw [List.length_singleton]
    omega
  le_rw d' hd' := by
    rw [List.mem_singleton.1 hd', hd]
    exact Nat.le_of_ble_eq_true rfl
  sectors := by rw [length_sectorBytes hd]
  disjoint := by
    have hwhole : segAddrs ((hdr :: ([d] ++ [status])).map Desc.seg) = List.range' hdr.addr.toNat hdr.len.toNat ++
        (List.range' d.addr.toNat d.len.toNat ++ (List.range' status.addr.toNat status.len.toNat ++ [])) := rfl
    have h₁ : hdr.len.toNat = 16 := congrArg BitVec.toNat hhdr
    have h₂ : d.len.toNat = 512 := congrArg BitVec.toNat hd
    rw [hwhole, h₁, h₂, hdata, hlast, List.append_nil, List.range'_append_1, List.range'_append_1]
    exact List.nodup_range'
  header := hheader
  out htype a ha := by
    have h₂ : d.len.toNat = 512 := congrArg BitVec.toNat hd
    rw [List.map_singleton, segAddrs, List.flatMap_singleton] at ha
    exact hout htype a (h₂ ▸ ha)

theorem writeOffer_frames : (writeOffer 0).posting.Frames writeHdr [writeData] writeStatus := by
  refine .of_behind rfl rfl rfl rfl rfl rfl (fun a ha => ?_) fun _ a ha => ?_
  · obtain ⟨hle, hlt⟩ := List.mem_range'_1.1 ha
    exact WriteLog.isSome_latest ⟨(0x4000, leBytes 16 virtioBlkTOut), List.mem_of_getElem? (i := 3) rfl, hle, hlt⟩
  · obtain ⟨hle, hlt⟩ := List.mem_range'_1.1 ha
    refine WriteLog.isSome_latest ⟨(0x4010, List.replicate 512 0), List.mem_of_getElem? (i := 4) rfl, hle, ?_⟩
    rwa [List.length_replicate]

theorem readOffer_frames : (readOffer 2).posting.Frames readHdr [readData] readStatus := by
  refine .of_behind rfl rfl rfl rfl rfl rfl (fun a ha => ?_) fun hout => ?_
  · obtain ⟨hle, hlt⟩ := List.mem_range'_1.1 ha
    exact WriteLog.isSome_latest ⟨(0x5000, leBytes 16 virtioBlkTIn), List.mem_of_getElem? (i := 3) rfl, hle, hlt⟩
  · have htype : hdrType ((readOffer 2).posting.image.read readHdr.addr.toNat 16) = virtioBlkTIn := by decide +kernel
    exact absurd (htype.symm.trans hout) (by decide)

/-- The only sector of the disk is sector 0. -/
theorem Posting.Frames.forDisk_sector {d : Desc} (h : p.Frames hdr [d] status) (hd : d.len = 512)
    (hsector : leNat (((p.image.read hdr.addr.toNat 16).drop 8).take 8) = 0) :
    p.ForDisk diskQueue.blk.capacity.toNat := by
  refine .inr ⟨hdr, [d], status, h, h.within ?_⟩
  rw [hsector, length_sectorBytes hd, diskQueue_capacity]
  exact Nat.le_refl 1

theorem writeOffer_forDisk : (writeOffer 0).posting.ForDisk diskQueue.blk.capacity.toNat :=
  writeOffer_frames.forDisk_sector rfl (by decide +kernel)

theorem readOffer_forDisk : (readOffer 2).posting.ForDisk diskQueue.blk.capacity.toNat :=
  readOffer_frames.forDisk_sector rfl (by decide +kernel)

theorem worker_disk_turns : DiskRun diskQueue diskTurns := by
  refine worker_disk diskQueue_started ⟨by decide, by decide⟩ diskQueue_file (fun _ => nofun) ?_ diskTurns_allowed
  have hpostings : diskTurns.filterMap BlkNotifyAct.posting =
      [(writeOffer 0).posting, (loopOffer 1).posting, (readOffer 2).posting] := rfl
  rw [hpostings]
  intro p hp
  simp only [List.mem_cons, List.not_mem_nil, or_false] at hp
  rcases hp with rfl | rfl | rfl
  · exact writeOffer_forDisk
  · exact .inl rfl
  · exact readOffer_forDisk

end MiniVirt.Vmm
