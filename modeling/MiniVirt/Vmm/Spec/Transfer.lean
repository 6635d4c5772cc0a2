import MiniVirt.Vmm.Spec.LongChains

/-!
# Buffers as one string of bytes

A handler goes through its segments one by one.  Seen as a whole, it moves one string of bytes from or to the addresses
of the segments, in their order: `chain_read()` returns the first bytes of the chain (`chainRead_run`), the receive
side of the console empties the FIFO into it (`receiveSegs_run`), a `VIRTIO_BLK_T_IN` request copies a piece of the file
to the data segments (`blkIn_run`), and a `VIRTIO_BLK_T_OUT` request writes what they hold (`blkOut_run`).
-/

namespace MiniVirt.Vmm

/-! ### Addresses -/

variable {segs : List Seg} {s : St}

theorem segBytes_eq_gather (m : ByteMem) (segs : List Seg) : segBytes m segs = m.gather (segAddrs segs) := by
  induction segs with
  | nil => rfl
  | cons seg segs ih =>
    rw [segAddrs_cons, ByteMem.gather_append, ← ih, ← ByteMem.read_eq_gather]
    rfl

theorem length_segBytes (m : ByteMem) (segs : List Seg) : (segBytes m segs).length = (segAddrs segs).length := by
  rw [segBytes_eq_gather, ByteMem.length_gather]

/-! ### Reading -/

def Event.isRead : Event → Bool
  | .read .. => true
  | _ => false

/-- Nothing but reading guest RAM. -/
def reads : Guarantee St where
  rel s s' := ∃ es, s' = { s with trace := s.trace ++ es } ∧ ∀ e ∈ es, e.isRead = true
  refl s := ⟨[], by rw [List.append_nil], nofun⟩
  trans := by
    rintro s - - ⟨es, rfl, hes⟩ ⟨es', rfl, hes'⟩
    refine ⟨es ++ es', by rw [List.append_assoc], fun e he => ?_⟩
    obtain he | he := List.mem_append.1 he
    · exact hes e he
    · exact hes' e he

theorem log_read (s : St) (off n : Nat) : reads.rel s (s.log (.read off n)) := by
  refine ⟨[.read off n], rfl, fun e he => ?_⟩
  rw [List.mem_singleton.1 he]
  rfl

theorem gatherChain_reads (vq : Vq) (head : BitVec 16) : Within reads (gatherChain vq head) :=
  gatherChain_within log_read vq head

/-- The segments of a chain. -/
def chainSegs (ds : List Desc) : List Seg := (ds.map Desc.seg).take vqMaxSegs

/-- A well-formed chain goes to the handler and then to the used ring. -/
theorem serveHead_run {slot : Nat} {d : Dev} {qi : Nat} {head : BitVec 16} {ds : List Desc}
    (h : ChainAt s.mem s.memSize (s.vq d qi) head ds) (handle : List Seg → V (Option (BitVec 32))) (did : Bool) :
    ∃ s', reads.rel s s' ∧ (serveHead handle d qi slot head did).run s =
      match (handle (chainSegs ds)).run s' with
      | (none, s'') => (.inr none, s'')
      | (some len, s'') => (.inl true, ((advance d qi slot head).run ((pushUsed d qi head len).run s'').2).2) := by
  have hok := gatherChain_ok_iff.2 ⟨ds, h, rfl⟩
  have hreads := gatherChain_reads (s.vq d qi) head s
  rw [serveHead, run_bind, run_get, run_bind]
  dsimp only
  generalize (gatherChain (s.vq d qi) head).run s = y at hok hreads ⊢
  obtain ⟨g, s'⟩ := y
  dsimp only at hok hreads
  subst hok
  refine ⟨s', hreads, ?_⟩
  dsimp only
  rw [run_bind]
  unfold chainSegs
  generalize (handle ((ds.map Desc.seg).take vqMaxSegs)).run s' = y
  obtain ⟨r, s''⟩ := y
  cases r <;> rfl

theorem guestRead_reads (off n : Nat) : Within reads (guestRead off n) := fun s => log_read s off n

theorem chainReadLoop_reads (len : Nat) (segs : List Seg) (off : Nat) (d : List (BitVec 8)) :
    Within reads (chainReadLoop len segs off d) := by
  induction segs generalizing off d with
  | nil => exact .pure _
  | cons seg segs ih =>
    refine .ite (.pure _) (.ite (ih _ _) ?_)
    exact (guestRead_reads _ _).bind fun _ => ih _ _

theorem chainReadLoop_run (len : Nat) (segs : List Seg) (off : Nat) (d : List (BitVec 8)) (s : St) :
    ((chainReadLoop len segs off d).run s).1 = d ++ ((segBytes s.mem segs).drop off).take (len - d.length) := by
  induction segs generalizing off d s with
  | nil =>
    rw [segBytes, List.flatMap_nil, List.drop_nil, List.take_nil, List.append_nil]
    rfl
  | cons seg segs ih =>
    have hcons : segBytes s.mem (seg :: segs) = s.mem.read seg.hva seg.len.toNat ++ segBytes s.mem segs := rfl
    rw [chainReadLoop, run_ite, hcons, List.drop_append, ByteMem.length_read]
    split
    · rename_i hdone
      rw [Nat.sub_eq_zero_of_le hdone, List.take_zero, List.append_nil]
      rfl
    · rename_i hmore
      rw [run_ite]
      split
      · -- the segment ends before the offset
        rename_i hskip
        rw [ih, List.drop_of_length_le (l := s.mem.read _ _) (by rwa [ByteMem.length_read]), List.nil_append]
      · -- the rest of the segment, or as much of it as is asked for
        rename_i hin
        have hoff : off ≤ seg.len.toNat := Nat.le_of_not_le hin
        have hrest : len - (d.length + min (seg.len.toNat - off) (len - d.length)) =
            len - d.length - (seg.len.toNat - off) := by omega
        rw [run_bind, ih, ByteMem.drop_read _ hoff, List.take_append, ByteMem.take_read, ByteMem.length_read,
          Nat.sub_eq_zero_of_le hoff, List.drop_zero]
        show d ++ s.mem.read _ _ ++ ((segBytes s.mem segs).drop 0).take (len - (d ++ s.mem.read _ _).length) = _
        rw [List.length_append, ByteMem.length_read, hrest, List.drop_zero, List.append_assoc]

/-- The first bytes of the chain; what there is no byte for stays as it was. -/
def chainPrefix (m : ByteMem) (segs : List Seg) (dst : List (BitVec 8)) : List (BitVec 8) :=
  (segBytes m segs).take dst.length ++ dst.drop (segBytes m segs).length

theorem chainRead_run (segs : List Seg) (dst : List (BitVec 8)) (s : St) :
    ((chainRead segs 0 dst).run s).1 = chainPrefix s.mem segs dst := by
  have hloop := chainReadLoop_run dst.length segs 0 [] s
  rw [List.nil_append, List.drop_zero, List.length_nil, Nat.sub_zero] at hloop
  unfold chainRead chainPrefix
  rw [run_bind, hloop]
  show _ ++ dst.drop (List.take dst.length (segBytes s.mem segs)).length = _
  rw [List.length_take]
  obtain hle | hle := Nat.le_total dst.length (segBytes s.mem segs).length
  · rw [Nat.min_eq_left hle, List.drop_of_length_le le_rfl, List.drop_of_length_le hle]
  · rw [Nat.min_eq_right hle]

theorem chainRead_reads (segs : List Seg) (dst : List (BitVec 8)) : Within reads (chainRead segs 0 dst) :=
  (chainReadLoop_reads _ _ _ _).bind fun _ => .pure _

theorem guestWrite_run (off : Nat) (l : List (BitVec 8)) (s : St) :
    ((guestWrite off l).run s).2 = { s with mem := s.mem.write off l, trace := s.trace ++ [.write off l.length] } := rfl

/-! ### The receive side of the console -/

/-- The record of bytes written one by one. -/
def writesAt (as : List Nat) : List Event := as.map fun a => .write a 1

/-- The pending bytes have gone to the addresses `as`, as far as they go. -/
def Received (as : List Nat) (s s' : St) : Prop :=
  ∃ c, s' = { s with
      mem := s.mem.scatter as s.conIn.bytes
      conIn := c
      trace := s.trace ++ writesAt (as.take s.conIn.bytes.length) } ∧
    c.bytes = s.conIn.bytes.drop as.length

theorem Received.append {as as' : List Nat} {s' s'' : St} (hle : as.length ≤ s.conIn.bytes.length)
    (h : Received as s s') (h' : Received as' s' s'') : Received (as ++ as') s s'' := by
  obtain ⟨c, rfl, hc⟩ := h
  obtain ⟨c', rfl, hc'⟩ := h'
  dsimp only at hc hc' ⊢
  refine ⟨c', ?_, ?_⟩
  · rw [hc, ByteMem.scatter_append hle, List.take_append, List.length_drop, List.take_of_length_le hle, writesAt,
      writesAt, writesAt, List.map_append, List.append_assoc]
  · rw [hc', hc, List.drop_drop, List.length_append]

theorem Received.append_of_lt {as : List Nat} {s' : St} (hlt : s.conIn.bytes.length ≤ as.length) (h : Received as s s')
    (as' : List Nat) : Received (as ++ as') s s' := by
  obtain ⟨c, rfl, hc⟩ := h
  refine ⟨c, ?_, ?_⟩
  · rw [ByteMem.scatter_append_of_le hlt, List.take_append, Nat.sub_eq_zero_of_le hlt, List.take_zero, List.append_nil]
  · rw [hc, List.drop_of_length_le hlt, List.drop_of_length_le (by rw [List.length_append]; omega)]

theorem bytes_eq_nil_iff (c : ConIn) : c.bytes = [] ↔ c.tail = c.head := RingBuffer.contents_eq_nil_iff.trans eq_comm

theorem bytes_pop {c : ConIn} (h : c.tail ≠ c.head) :
    c.bytes = c.buf (c.tail.toNat % conInSz) :: ConIn.bytes { c with tail := c.tail + 1 } :=
  RingBuffer.contents_pop (by decide) fun heq => h heq.symm

theorem receiveBytes_run (n p : Nat) (written : BitVec 32) (s : St) :
    ((receiveBytes n p written).run s).1 =
        (written + .ofNat 32 (min n s.conIn.bytes.length), decide (n ≤ s.conIn.bytes.length)) ∧
      Received (List.range' p n) s ((receiveBytes n p written).run s).2 := by
  induction n generalizing p written s with
  | zero =>
    rw [Nat.zero_min, BitVec.add_zero, decide_eq_true (Nat.zero_le _)]
    refine ⟨rfl, s.conIn, ?_, rfl⟩
    rw [List.range'_zero, List.take_nil, writesAt, List.map_nil, List.append_nil]
    rfl
  | succ n ih =>
    rw [receiveBytes, run_bind, conInPop_run, List.range'_succ]
    by_cases hempty : s.conIn.tail = s.conIn.head
    · -- no byte is pending
      have hnil := (bytes_eq_nil_iff s.conIn).2 hempty
      rw [if_pos hempty, hnil]
      refine ⟨congrArg (·, false) (BitVec.add_zero written).symm, s.conIn, ?_, ?_⟩
      · rw [hnil, ByteMem.scatter_nil, List.length_nil, List.take_zero, writesAt, List.map_nil, List.append_nil]
        rfl
      · rw [hnil, List.drop_nil]
    · -- one byte, and then the others at the next address
      have hpop := bytes_pop hempty
      rw [if_neg hempty]
      generalize s.conIn.buf (s.conIn.tail.toNat % conInSz) = b at hpop ⊢
      generalize hc : ({ s.conIn with tail := s.conIn.tail + 1 } : ConIn) = c at hpop ⊢
      dsimp only
      rw [run_bind]
      generalize hs₂ : ((guestWrite p [b]).run { s with conIn := c }).2 = s₂
      have hfirst : Received [p] s s₂ := by
        refine ⟨c, ?_, ?_⟩
        · have htake : [p].take (b :: c.bytes).length = [p] := by simp
          rw [← hs₂, hpop, guestWrite_run, ByteMem.write_singleton, htake]
          rfl
        · rw [hpop]
          rfl
      have hbytes : s₂.conIn.bytes = c.bytes := by rw [← hs₂]; rfl
      obtain ⟨hres, hrest⟩ := ih (p + 1) (written + 1) s₂
      rw [hbytes] at hres
      refine ⟨hres.trans ?_, hfirst.append (by rw [hpop]; exact Nat.succ_le_succ (Nat.zero_le _)) hrest⟩
      rw [hpop, List.length_cons, Nat.add_min_add_right, Nat.add_comm _ 1, BitVec.ofNat_add, BitVec.add_assoc]
      simp

theorem receiveSegs_run (segs : List Seg) (written : BitVec 32) (s : St) :
    ((receiveSegs segs written).run s).1 =
        written + .ofNat 32 (min (segAddrs segs).length s.conIn.bytes.length) ∧
      Received (segAddrs segs) s ((receiveSegs segs written).run s).2 := by
  induction segs generalizing written s with
  | nil =>
    refine ⟨?_, s.conIn, ?_, rfl⟩
    · show written = written + .ofNat 32 (min 0 _)
      rw [Nat.zero_min, BitVec.add_zero]
    · show s = { s with mem := _, trace := s.trace ++ writesAt (List.take _ []) }
      rw [List.take_nil, writesAt, List.map_nil, List.append_nil]
      rfl
  | cons seg segs ih =>
    obtain ⟨hres, hrec⟩ := receiveBytes_run seg.len.toNat seg.hva written s
    have hlen : (List.range' seg.hva seg.len.toNat).length = seg.len.toNat := List.length_range'
    rw [receiveSegs, run_bind, segAddrs_cons, List.length_append, hlen]
    generalize (receiveBytes seg.len.toNat seg.hva written).run s = y at hres hrec ⊢
    obtain ⟨r, s'⟩ := y
    dsimp only at hres hrec
    subst hres
    dsimp only
    rw [run_ite]
    split
    · rename_i hfull
      have hle : seg.len.toNat ≤ s.conIn.bytes.length := of_decide_eq_true hfull
      obtain ⟨hres', hrec'⟩ := ih (written + .ofNat 32 (min seg.len.toNat s.conIn.bytes.length)) s'
      refine ⟨hres'.trans ?_, hrec.append (by rwa [hlen]) hrec'⟩
      obtain ⟨c, rfl, hc⟩ := hrec
      dsimp only at hres'
      rw [hc, List.length_drop, hlen, Nat.min_eq_left hle, BitVec.add_assoc, ← BitVec.ofNat_add]
      congr 2
      omega
    · -- fewer bytes are pending than the segment takes, so the loops end
      rename_i hmore
      have hle : ¬seg.len.toNat ≤ s.conIn.bytes.length := fun h => hmore (decide_eq_true h)
      refine ⟨?_, hrec.append_of_lt (by omega) _⟩
      show written + .ofNat 32 _ = written + .ofNat 32 _
      rw [Nat.min_eq_right (by omega), Nat.min_eq_right (by omega)]

/-! ### The data of a block request -/

/-- The bytes of guest RAM that the events write. -/
def written (es : List Event) : Set Nat := {a | ∃ off n, Event.write off n ∈ es ∧ off ≤ a ∧ a < off + n}

theorem written_nil : written [] = ∅ := by
  ext a
  constructor
  · rintro ⟨off, n, hmem, -⟩
    cases hmem
  · nofun

theorem written_append (es es' : List Event) : written (es ++ es') = written es ∪ written es' := by
  ext a
  constructor
  · rintro ⟨off, n, hmem, ha⟩
    obtain hmem | hmem := List.mem_append.1 hmem
    · exact .inl ⟨off, n, hmem, ha⟩
    · exact .inr ⟨off, n, hmem, ha⟩
  · rintro (⟨off, n, hmem, ha⟩ | ⟨off, n, hmem, ha⟩)
    · exact ⟨off, n, List.mem_append_left _ hmem, ha⟩
    · exact ⟨off, n, List.mem_append_right _ hmem, ha⟩

theorem written_of_reads {es : List Event} (h : ∀ e ∈ es, e.isRead = true) : written es = ∅ := by
  ext a
  constructor
  · rintro ⟨off, n, hmem, -⟩
    cases h _ hmem
  · nofun

theorem written_write (off n : Nat) : written [.write off n] = {a | a ∈ List.range' off n} := by
  ext a
  rw [Set.mem_ofPred_eq, List.mem_range'_1]
  constructor
  · rintro ⟨off', n', hmem, ha⟩
    obtain ⟨rfl, rfl⟩ := Event.write.inj (List.mem_singleton.1 hmem)
    exact ha
  · intro ha
    exact ⟨off, n, List.mem_singleton_self _, ha⟩

theorem written_writesAt (as : List Nat) : written (writesAt as) = {a | a ∈ as} := by
  ext a
  unfold writesAt
  constructor
  · rintro ⟨off, n, hmem, hle, hlt⟩
    obtain ⟨b, hb, heq⟩ := List.mem_map.1 hmem
    obtain ⟨rfl, rfl⟩ := Event.write.inj heq
    obtain rfl : a = b := by omega
    exact hb
  · intro ha
    exact ⟨a, 1, List.mem_map.2 ⟨a, ha, rfl⟩, le_rfl, Nat.lt_succ_self a⟩

/-- The bytes `l` of the file have gone to the addresses `as`, as far as they go. -/
def Filled (as : List Nat) (l : List (BitVec 8)) (s s' : St) : Prop :=
  ∃ es ios, s' = { s with mem := s.mem.scatter as l, blk := { s.blk with ios := ios }, trace := s.trace ++ es } ∧
    ios <:+ s.blk.ios ∧ (∀ e ∈ es, e.isTransfer = true) ∧ written es = {a | a ∈ as.take l.length}

variable {status : Nat} {off : BitVec 64} {total : BitVec 32} {data : List Seg}

theorem offNeg_eq_false_iff (off : BitVec 64) : offNeg off = false ↔ off.toNat < 2 ^ 63 := by
  unfold offNeg
  rw [BitVec.msb_eq_false_iff_two_mul_lt]
  omega

theorem fileIo_run {α : Type} (f : BlkBackend → α × BlkBackend) (s : St) :
    (fileIo f).run s = ((f s.blk).1, { s with blk := (f s.blk).2 }) := rfl

theorem BlkBackend.next_content (blk : BlkBackend) : blk.next.content = blk.content := rfl

theorem BlkBackend.next_ios (blk : BlkBackend) : blk.next.ios = blk.ios.tail := rfl

theorem pread_next (n : Nat) (off : BitVec 64) (blk : BlkBackend) : (pread n off blk).2 = blk.next := by
  unfold pread
  split <;> rfl

theorem pread_of_not_neg (hoff : offNeg off = false) (n : Nat) (blk : BlkBackend) :
    (pread n off blk).1 = (Io.quota blk.ios n).map fun k => (blk.content.drop off.toNat).take k := by
  unfold pread
  rw [hoff]
  cases Io.quota blk.ios n <;> rfl

theorem pread_of_neg (hoff : offNeg off = true) (n : Nat) (blk : BlkBackend) : (pread n off blk).1 = none := by
  unfold pread
  rw [hoff]

theorem blkIn_run_cons (seg : Seg) :
    (blkIn status (seg :: data) off total).run s =
      let s' : St := { s with blk := s.blk.next }
      match (pread seg.len.toNat off s.blk).1 with
      | none => (total, ((guestStore status 1 virtioBlkSIoerr).run s').2)
      | some l =>
        if l.length < seg.len.toNat then (total + .ofNat 32 l.length, ((guestWrite seg.hva l).run s').2)
        else (blkIn status data (off + .ofNat 64 l.length) (total + .ofNat 32 l.length)).run
          ((guestWrite seg.hva l).run s').2 := by
  rw [blkIn, run_bind, fileIo_run, pread_next]
  dsimp only
  cases (pread seg.len.toNat off s.blk).1 with
  | none => rfl
  | some l =>
    dsimp only
    rw [run_bind, run_ite]
    rfl

theorem Filled.append {as as' : List Nat} {l : List (BitVec 8)} {s' s'' : St} (hle : as.length ≤ l.length)
    (h : Filled as l s s') (h' : Filled as' (l.drop as.length) s' s'') : Filled (as ++ as') l s s'' := by
  obtain ⟨es, ios, rfl, hios, hes, hw⟩ := h
  obtain ⟨es', ios', rfl, hios', hes', hw'⟩ := h'
  refine ⟨es ++ es', ios', ?_, hios'.trans hios, fun e he => ?_, ?_⟩
  · rw [ByteMem.scatter_append hle, List.append_assoc]
  · exact (List.mem_append.1 he).elim (hes e) (hes' e)
  · rw [written_append, hw, hw', List.take_append, List.length_drop]
    ext a
    exact List.mem_append.symm

theorem Filled.append_of_le {as : List Nat} {l : List (BitVec 8)} {s' : St} (hle : l.length ≤ as.length)
    (h : Filled as l s s') (as' : List Nat) : Filled (as ++ as') l s s' := by
  obtain ⟨es, ios, rfl, hios, hes, hw⟩ := h
  refine ⟨es, ios, ?_, hios, hes, ?_⟩
  · rw [ByteMem.scatter_append_of_le hle]
  · rw [hw, List.take_append, Nat.sub_eq_zero_of_le hle, List.take_zero, List.append_nil]

theorem guestWrite_filled (a n : Nat) (l : List (BitVec 8)) (s : St) :
    Filled (List.range' a n) l s ((guestWrite a (l.take n)).run s).2 := by
  refine ⟨[.write a (l.take n).length], s.blk.ios, ?_, List.suffix_rfl, fun e he => ?_, ?_⟩
  · rw [ByteMem.scatter_range']
    rfl
  · rw [List.mem_singleton.1 he]
    rfl
  · rw [written_write, List.length_take]
    obtain hle | hle := Nat.le_total n l.length
    · rw [Nat.min_eq_left hle, List.take_range'_of_length_le hle]
    · rw [Nat.min_eq_right hle, List.take_range'_of_length_ge hle]

theorem Filled.nil (l : List (BitVec 8)) (s : St) : Filled [] l s s := by
  refine ⟨[], s.blk.ios, ?_, List.suffix_rfl, nofun, ?_⟩
  · rw [List.append_nil]
    rfl
  · rw [List.take_nil, written_nil]
    simp

/-- No coming call fails or stops before `n` bytes, unless the file ends. -/
def BlkBackend.TransfersFully (blk : BlkBackend) (n : Nat) : Prop := ∀ io ∈ blk.ios, ∃ k, io = .upTo k ∧ n ≤ k

theorem BlkBackend.TransfersFully.quota {blk : BlkBackend} {n k : Nat} (h : blk.TransfersFully n) (hle : k ≤ n) :
    Io.quota blk.ios k = some k := by
  unfold BlkBackend.TransfersFully at h
  cases hios : blk.ios with
  | nil => rfl
  | cons io ios =>
    rw [hios] at h
    obtain ⟨j, rfl, hj⟩ := h io List.mem_cons_self
    exact congrArg some (Nat.min_eq_right (hle.trans hj))

theorem BlkBackend.TransfersFully.mono {blk : BlkBackend} {n k : Nat} (h : blk.TransfersFully n) (hle : k ≤ n) :
    blk.TransfersFully k := fun io hio =>
  let ⟨j, hj, hn⟩ := h io hio
  ⟨j, hj, hle.trans hn⟩

theorem BlkBackend.TransfersFully.of_suffix {blk blk' : BlkBackend} {n : Nat} (h : blk.TransfersFully n)
    (hios : blk'.ios <:+ blk.ios) : blk'.TransfersFully n := fun io hio => h io (hios.subset hio)

theorem BlkBackend.TransfersFully.next {blk : BlkBackend} {n : Nat} (h : blk.TransfersFully n) :
    blk.next.TransfersFully n := h.of_suffix (List.tail_suffix _)

/-- Nothing has been read. -/
theorem Filled.none (as : List Nat) (s : St) : Filled as [] s { s with blk := s.blk.next } := by
  refine ⟨[], s.blk.ios.tail, ?_, List.tail_suffix _, nofun, ?_⟩
  · rw [ByteMem.scatter_nil, List.append_nil]
    rfl
  · rw [List.length_nil, List.take_zero, written_nil]
    simp

theorem Filled.of_next {as : List Nat} {l : List (BitVec 8)} {s' : St}
    (h : Filled as l { s with blk := s.blk.next } s') :
    Filled as l s s' := by
  obtain ⟨es, ios, hs', hios, hes, hw⟩ := h
  exact ⟨es, ios, hs', hios.trans (List.tail_suffix _), hes, hw⟩

/-- How many bytes a `VIRTIO_BLK_T_IN` request reads if the file has `avail` for it, and whether a call fails. -/
def readPlan : List Io → Nat → List Seg → Nat × Bool
  | _, _, [] => (0, false)
  | ios, avail, seg :: segs =>
    match Io.quota ios seg.len.toNat with
    | none => (0, true)
    | some k =>
      if min k avail < seg.len.toNat then (min k avail, false)
      else
        let rest := readPlan ios.tail (avail - seg.len.toNat) segs
        (seg.len.toNat + rest.1, rest.2)

theorem readPlan_le (ios : List Io) (avail : Nat) (data : List Seg) :
    (readPlan ios avail data).1 ≤ avail ∧ (readPlan ios avail data).1 ≤ (segAddrs data).length := by
  induction data generalizing ios avail with
  | nil => exact ⟨Nat.zero_le _, le_rfl⟩
  | cons seg data ih =>
    unfold readPlan
    rw [segAddrs_cons, List.length_append, List.length_range']
    split
    · exact ⟨Nat.zero_le _, Nat.zero_le _⟩
    · rename_i k hquota
      have hk := Io.quota_le hquota
      split
      · exact ⟨Nat.min_le_right _ _, by omega⟩
      · obtain ⟨hle, hle'⟩ := ih ios.tail (avail - seg.len.toNat)
        dsimp only
        exact ⟨by omega, by omega⟩

/-- The status byte is `VIRTIO_BLK_S_IOERR` if a call has failed. -/
def St.reported (s : St) (status : Nat) : Bool → St
  | true => ((guestStore status 1 virtioBlkSIoerr).run s).2
  | false => s

/-- The bytes of the file from `off` on go to the data segments. -/
theorem blkIn_run (hcontent : s.blk.content.length < 2 ^ 63) (hoff : offNeg off = false) :
    let plan := readPlan s.blk.ios (s.blk.content.length - off.toNat) data
    ((blkIn status data off total).run s).1 = total + .ofNat 32 plan.1 ∧
      ∃ s', Filled (segAddrs data) ((s.blk.content.drop off.toNat).take plan.1) s s' ∧
        ((blkIn status data off total).run s).2 = s'.reported status plan.2 := by
  dsimp only
  induction data generalizing off total s with
  | nil => exact ⟨(BitVec.add_zero total).symm, s, .nil _ s, rfl⟩
  | cons seg data ih =>
    have hrange : (List.range' seg.hva seg.len.toNat).length = seg.len.toNat := List.length_range'
    rw [blkIn_run_cons, segAddrs_cons, pread_of_not_neg hoff]
    unfold readPlan
    cases hquota : Io.quota s.blk.ios seg.len.toNat with
    | none => exact ⟨(BitVec.add_zero total).symm, { s with blk := s.blk.next }, .none _ s, rfl⟩
    | some k =>
      have hk := Io.quota_le hquota
      have hlen : ((s.blk.content.drop off.toNat).take k).length = min k (s.blk.content.length - off.toNat) := by
        rw [List.length_take, List.length_drop]
      have hread : (s.blk.content.drop off.toNat).take k =
          (s.blk.content.drop off.toNat).take (min k (s.blk.content.length - off.toNat)) := by
        rw [List.take_eq_take_min, List.length_drop]
      dsimp only [Option.map_some]
      rw [hlen, hread]
      by_cases hshort : min k (s.blk.content.length - off.toNat) < seg.len.toNat
      · -- the end of the file, or a call that stops early
        rw [if_pos hshort, if_pos hshort]
        have hfilled := guestWrite_filled seg.hva seg.len.toNat
          ((s.blk.content.drop off.toNat).take (min k (s.blk.content.length - off.toNat))) { s with blk := s.blk.next }
        rw [List.take_take, Nat.min_eq_right hshort.le] at hfilled
        exact ⟨rfl, _, hfilled.of_next.append_of_le
          (by rw [hrange]; exact (List.length_take_le _ _).trans hshort.le) _, rfl⟩
      · -- the segment is filled, and the next one starts behind it
        have hr : min k (s.blk.content.length - off.toNat) = seg.len.toNat := by omega
        rw [if_neg hshort, if_neg hshort, hr]
        have hoff' : offNeg (off + .ofNat 64 seg.len.toNat) = false ∧
            (off + .ofNat 64 seg.len.toNat).toNat = off.toNat + seg.len.toNat := by
          have hlt := (offNeg_eq_false_iff off).1 hoff
          have hadd : (off + .ofNat 64 seg.len.toNat).toNat = off.toNat + seg.len.toNat := by
            rw [BitVec.toNat_add, BitVec.toNat_ofNat]
            omega
          refine ⟨(offNeg_eq_false_iff _).2 ?_, hadd⟩
          -- an empty segment may lie behind the end of the file
          omega
        have hrest := readPlan_le s.blk.ios.tail (s.blk.content.length - off.toNat - seg.len.toNat) data
        generalize hs₁ : ((guestWrite seg.hva ((s.blk.content.drop off.toNat).take seg.len.toNat)).run
          { s with blk := s.blk.next }).2 = s₁
        have hblk : s₁.blk = s.blk.next := by
          rw [← hs₁]
          rfl
        obtain ⟨hres, s', hfill, hend⟩ := @ih s₁ (off + .ofNat 64 seg.len.toNat) (total + .ofNat 32 seg.len.toNat)
          (by rwa [hblk]) hoff'.1
        rw [hblk, hoff'.2, BlkBackend.next_content, BlkBackend.next_ios, ← Nat.sub_sub] at hres hfill hend
        generalize readPlan s.blk.ios.tail (s.blk.content.length - off.toNat - seg.len.toNat) data = rest at *
        have hfilled := guestWrite_filled seg.hva seg.len.toNat
          ((s.blk.content.drop off.toNat).take (seg.len.toNat + rest.1)) { s with blk := s.blk.next }
        rw [List.take_take, Nat.min_eq_left (Nat.le_add_right _ _), hs₁] at hfilled
        refine ⟨hres.trans ?_, s', hfilled.of_next.append ?_ ?_, hend⟩
        · dsimp only
          rw [BitVec.add_assoc, ← BitVec.ofNat_add]
        · rw [hrange, List.length_take, List.length_drop]
          omega
        · rw [hrange, List.drop_take, Nat.add_sub_cancel_left, List.drop_drop]
          exact hfill

/-- Without failures all is read that the file has. -/
theorem readPlan_full {blk : BlkBackend} (hfull : ∀ seg ∈ data, blk.TransfersFully seg.len.toNat) (avail : Nat) :
    readPlan blk.ios avail data = (min (segAddrs data).length avail, false) := by
  induction data generalizing blk avail with
  | nil => exact congrArg (·, false) (Nat.zero_min avail).symm
  | cons seg data ih =>
    have hrest := fun avail => @ih blk.next (fun g hg => (hfull g (List.mem_cons_of_mem _ hg)).next) avail
    rw [BlkBackend.next_ios] at hrest
    unfold readPlan
    rw [(hfull seg List.mem_cons_self).quota le_rfl, segAddrs_cons, List.length_append, List.length_range', hrest]
    dsimp only
    split
    · exact congrArg (·, false) (by omega)
    · exact congrArg (·, false) (by omega)

theorem blkIn_run_full (hcontent : s.blk.content.length < 2 ^ 63) (hoff : offNeg off = false)
    (hfull : ∀ seg ∈ data, s.blk.TransfersFully seg.len.toNat) :
    Filled (segAddrs data) ((s.blk.content.drop off.toNat).take (segAddrs data).length) s
      ((blkIn status data off total).run s).2 := by
  obtain ⟨-, s', hfilled, hend⟩ := @blkIn_run s status off total data hcontent hoff
  rw [readPlan_full hfull] at hfilled hend
  rw [hend, List.take_eq_take_min, List.length_drop]
  exact hfilled

theorem blkIn_run_neg (hoff : offNeg off = true) :
    (blkIn status data off total).run s =
      (total, if data = [] then s else ((guestStore status 1 virtioBlkSIoerr).run { s with blk := s.blk.next }).2) := by
  cases data with
  | nil => rfl
  | cons seg data =>
    rw [blkIn_run_cons, pread_of_neg hoff]
    rfl

/-! ### The file -/

/-- The content before `off`, with the gap. -/
theorem fileWrite_of_ne_nil {l : List (BitVec 8)} (h : l ≠ []) (content : List (BitVec 8)) (off : Nat) :
    fileWrite content l off =
      (content.take off ++ List.replicate (off - content.length) 0) ++ (l ++ content.drop (off + l.length)) := by
  rw [fileWrite, if_neg h, List.append_assoc, List.append_assoc]

theorem length_take_gap (content : List (BitVec 8)) (off : Nat) :
    (content.take off ++ List.replicate (off - content.length) 0).length = off := by
  rw [List.length_append, List.length_take, List.length_replicate]
  omega

theorem fileWrite_append (content l l' : List (BitVec 8)) (off : Nat) :
    fileWrite (fileWrite content l off) l' (off + l.length) = fileWrite content (l ++ l') off := by
  by_cases hl : l = []
  · rw [hl]
    rfl
  by_cases hl' : l' = []
  · rw [hl', List.append_nil]
    rfl
  have hgap := length_take_gap content off
  rw [fileWrite_of_ne_nil hl', fileWrite_of_ne_nil hl, fileWrite_of_ne_nil (List.append_ne_nil_of_left_ne_nil hl l')]
  generalize content.take off ++ List.replicate (off - content.length) 0 = pre at hgap ⊢
  have hfront : (pre ++ l).length = off + l.length := by rw [List.length_append, hgap]
  rw [← List.append_assoc pre l, ← hfront, List.take_left, @List.length_append _ (pre ++ l),
    Nat.sub_eq_zero_of_le (Nat.le_add_right _ _), List.replicate_zero, List.append_nil, List.drop_length_add_append,
      hfront,
    List.drop_drop, List.length_append, Nat.add_assoc, List.append_assoc, List.append_assoc]

theorem pwrite_of_not_neg (hoff : offNeg off = false) (l : List (BitVec 8)) (blk : BlkBackend) :
    pwrite l off blk = match Io.quota blk.ios l.length with
      | none => (none, blk.next)
      | some w => (some w, { blk.next with content := fileWrite blk.content (l.take w) off.toNat }) := by
  unfold pwrite
  rw [hoff]
  cases Io.quota blk.ios l.length <;> rfl

theorem pwrite_of_neg (hoff : offNeg off = true) (l : List (BitVec 8)) (blk : BlkBackend) :
    pwrite l off blk = (none, blk.next) := by
  unfold pwrite
  rw [hoff]

theorem blkOut_run_cons (seg : Seg) :
    (blkOut status (seg :: data) off).run s =
      let r := pwrite (s.mem.read seg.hva seg.len.toNat) off s.blk
      let s' : St := { s.log (.read seg.hva seg.len.toNat) with blk := r.2 }
      match r.1 with
      | none => (guestStore status 1 virtioBlkSIoerr).run s'
      | some w =>
        if w < seg.len.toNat then ((), s') else (blkOut status data (off + .ofNat 64 w)).run s' := by
  have hrun : (guestRead seg.hva seg.len.toNat).run s =
      (s.mem.read seg.hva seg.len.toNat, s.log (.read seg.hva seg.len.toNat)) := rfl
  rw [blkOut, run_bind, run_bind, hrun, fileIo_run]
  dsimp only
  rw [show (s.log (.read seg.hva seg.len.toNat)).blk = s.blk from rfl]
  cases (pwrite (s.mem.read seg.hva seg.len.toNat) off s.blk).1 with
  | none => rfl
  | some w =>
    dsimp only
    rw [run_ite]
    rfl

/-- A write that neither fails nor stops early. -/
theorem blkOut_run_cons_full (seg : Seg) (hoff : offNeg off = false) (hfull : s.blk.TransfersFully seg.len.toNat) :
    (blkOut status (seg :: data) off).run s =
      (blkOut status data (off + .ofNat 64 seg.len.toNat)).run
        { s.log (.read seg.hva seg.len.toNat) with
          blk := { s.blk.next with
            content := fileWrite s.blk.content (s.mem.read seg.hva seg.len.toNat) off.toNat } } := by
  have hlen : (s.mem.read seg.hva seg.len.toNat).length = seg.len.toNat := ByteMem.length_read ..
  rw [blkOut_run_cons, pwrite_of_not_neg hoff, hlen, hfull.quota le_rfl]
  dsimp only
  rw [if_neg (lt_irrefl _), List.take_of_length_le hlen.le]

/-- What the data segments hold goes to the file, from `off` on. -/
theorem blkOut_run (hend : off.toNat + (segAddrs data).length < 2 ^ 63)
    (hfull : ∀ seg ∈ data, s.blk.TransfersFully seg.len.toNat) :
    ∃ es ios, ((blkOut status data off).run s).2 =
        { s with
          blk := { s.blk with content := fileWrite s.blk.content (segBytes s.mem data) off.toNat, ios := ios }
          trace := s.trace ++ es } ∧
      ios <:+ s.blk.ios ∧ ∀ e ∈ es, e.isRead = true := by
  induction data generalizing off s with
  | nil => exact ⟨[], s.blk.ios, by rw [List.append_nil]; rfl, List.suffix_rfl, nofun⟩
  | cons seg data ih =>
    have hcons : segBytes s.mem (seg :: data) = s.mem.read seg.hva seg.len.toNat ++ segBytes s.mem data := rfl
    rw [segAddrs_cons, List.length_append, List.length_range'] at hend
    have hneg : offNeg off = false := (offNeg_eq_false_iff off).2 (by omega)
    have hadd : (off + .ofNat 64 seg.len.toNat).toNat = off.toNat + seg.len.toNat := by
      rw [BitVec.toNat_add, BitVec.toNat_ofNat]
      omega
    rw [blkOut_run_cons_full seg hneg (hfull seg List.mem_cons_self)]
    obtain ⟨es, ios, hes, hios, hread⟩ := @ih { s.log (.read seg.hva seg.len.toNat) with
        blk := { s.blk.next with content := fileWrite s.blk.content (s.mem.read seg.hva seg.len.toNat) off.toNat } }
      (off + .ofNat 64 seg.len.toNat) (by omega) fun g hg => (hfull g (List.mem_cons_of_mem _ hg)).next
    refine ⟨.read seg.hva seg.len.toNat :: es, ios, hes.trans ?_, hios.trans (List.tail_suffix _), fun e he => ?_⟩
    · -- two writes, one behind the other, are one write
      have hcontent := fileWrite_append s.blk.content (s.mem.read seg.hva seg.len.toNat) (segBytes s.mem data) off.toNat
      rw [ByteMem.length_read] at hcontent
      rw [hcons, hadd]
      dsimp only [St.log_mem]
      rw [hcontent]
      show St.mk _ _ _ _ _ _ _ (s.trace ++ [_] ++ es) = _
      rw [List.append_assoc]
      rfl
    · obtain rfl | he := List.mem_cons.1 he
      · rfl
      · exact hread e he

theorem blkOut_run_neg (hoff : offNeg off = true) (hdata : data ≠ []) :
    ∃ e, e.isRead = true ∧
      ((blkOut status data off).run s).2 =
        ((guestStore status 1 virtioBlkSIoerr).run { s.log e with blk := s.blk.next }).2 := by
  obtain ⟨seg, data, rfl⟩ := List.exists_cons_of_ne_nil hdata
  refine ⟨.read seg.hva seg.len.toNat, rfl, ?_⟩
  rw [blkOut_run_cons, pwrite_of_neg hoff]

theorem length_fileWrite {l : List (BitVec 8)} (h : l ≠ []) (content : List (BitVec 8)) (off : Nat) :
    (fileWrite content l off).length = max content.length (off + l.length) := by
  rw [fileWrite_of_ne_nil h, List.length_append, length_take_gap, List.length_append, List.length_drop]
  omega

theorem length_le_fileWrite (content l : List (BitVec 8)) (off : Nat) :
    content.length ≤ (fileWrite content l off).length := by
  by_cases h : l = []
  · rw [h]
    exact le_rfl
  · rw [length_fileWrite h]
    exact le_max_left _ _

theorem length_le_pwrite (l : List (BitVec 8)) (off : BitVec 64) (blk : BlkBackend) :
    blk.content.length ≤ (pwrite l off blk).2.content.length := by
  unfold pwrite
  split
  · exact length_le_fileWrite ..
  · exact le_rfl

/-- The file does not shrink. -/
theorem length_le_blkOut (data : List Seg) (off : BitVec 64) (s : St) :
    s.blk.content.length ≤ ((blkOut status data off).run s).2.blk.content.length := by
  induction data generalizing off s with
  | nil => exact le_rfl
  | cons seg data ih =>
    have hwrite := length_le_pwrite (s.mem.read seg.hva seg.len.toNat) off s.blk
    rw [blkOut_run_cons]
    generalize pwrite (s.mem.read seg.hva seg.len.toNat) off s.blk = r at hwrite ⊢
    obtain ⟨w, blk⟩ := r
    cases w with
    | none => exact hwrite
    | some w =>
      dsimp only
      split
      · exact hwrite
      · exact hwrite.trans (ih _ { s.log (.read seg.hva seg.len.toNat) with blk := blk })

/-- A write that goes beyond the greatest offset has made the file as long before it fails. -/
theorem blkOut_long (hoff : offNeg off = false) (hlong : 2 ^ 63 ≤ off.toNat + (segAddrs data).length)
    (hfull : ∀ seg ∈ data, s.blk.TransfersFully seg.len.toNat) :
    2 ^ 63 ≤ ((blkOut status data off).run s).2.blk.content.length := by
  induction data generalizing off s with
  | nil =>
    have hlt := (offNeg_eq_false_iff off).1 hoff
    have hnil : (segAddrs []).length = 0 := rfl
    omega
  | cons seg data ih =>
    have hlt := (offNeg_eq_false_iff off).1 hoff
    rw [segAddrs_cons, List.length_append, List.length_range'] at hlong
    rw [blkOut_run_cons_full seg hoff (hfull seg List.mem_cons_self)]
    by_cases hend : off.toNat + seg.len.toNat < 2 ^ 63
    · have hadd : (off + .ofNat 64 seg.len.toNat).toNat = off.toNat + seg.len.toNat := by
        rw [BitVec.toNat_add, BitVec.toNat_ofNat]
        omega
      exact ih ((offNeg_eq_false_iff _).2 (by omega)) (by omega) fun g hg => (hfull g (List.mem_cons_of_mem _ hg)).next
    · -- this is the write that reaches the greatest offset; no later one makes the file shorter
      have hne : s.mem.read seg.hva seg.len.toNat ≠ [] := by
        intro hnil
        have hlen := congrArg List.length hnil
        rw [ByteMem.length_read, List.length_nil] at hlen
        omega
      refine le_trans ?_ (length_le_blkOut data _ { s.log (.read seg.hva seg.len.toNat) with
        blk := { s.blk.next with content := fileWrite s.blk.content (s.mem.read seg.hva seg.len.toNat) off.toNat } })
      rw [length_fileWrite hne, ByteMem.length_read]
      omega

/-! ### Block requests -/

/-- `le32toh(hdr.type)`. -/
def hdrType (hdr : List (BitVec 8)) : Nat := leNat (hdr.take 4)

/-- `le64toh(hdr.sector) * 512`. -/
def hdrOff (hdr : List (BitVec 8)) : BitVec 64 := .ofNat 64 (leNat ((hdr.drop 8).take 8)) * 512

theorem blkRequest_run (hdr : List (BitVec 8)) (data : List Seg) (status : Nat) (s : St) :
    (blkRequest hdr data status).run s =
      let s' := ((guestStore status 1 virtioBlkSOk).run s).2
      if hdrType hdr = virtioBlkTIn then
        (((blkIn status data (hdrOff hdr) 0).run s').1 + 1, ((blkIn status data (hdrOff hdr) 0).run s').2)
      else if hdrType hdr = virtioBlkTOut then (1, ((blkOut status data (hdrOff hdr)).run s').2)
      else if hdrType hdr = virtioBlkTFlush then (1, s')
      else (1, ((guestStore status 1 virtioBlkSUnsupp).run s').2) := by
  unfold blkRequest
  dsimp only
  rw [run_bind, run_ite, run_ite, run_ite]
  rfl

/-- The state in which the request is handled: the header has been read, and `hdr` is off the stack. -/
def HeaderRead (s s' : St) : Prop := reads.rel { s with stale := fun i => s.stale (16 + i) } s'

theorem HeaderRead.mem {s' : St} (h : HeaderRead s s') : s'.mem = s.mem := by
  obtain ⟨es, rfl, -⟩ := h
  rfl

theorem HeaderRead.blk {s' : St} (h : HeaderRead s s') : s'.blk = s.blk := by
  obtain ⟨es, rfl, -⟩ := h
  rfl

theorem blkHandle_run {data : List Seg} {last : Seg} (h : blkParts segs = some (data, last)) (s : St) :
    ∃ s', HeaderRead s s' ∧ (blkHandle segs).run s =
      (some ((blkRequest (chainPrefix s.mem segs (s.stale.read 0 16)) data last.hva).run s').1,
        ((blkRequest (chainPrefix s.mem segs (s.stale.read 0 16)) data last.hva).run s').2) := by
  have hhdr := chainRead_run segs (s.stale.read 0 16) { s with stale := fun i => s.stale (16 + i) }
  refine ⟨_, chainRead_reads segs (s.stale.read 0 16) { s with stale := fun i => s.stale (16 + i) }, ?_⟩
  rw [blkHandle_eq, h, ← hhdr]
  rfl

theorem blkHandle_run_short (h : blkParts segs = none) (s : St) : (blkHandle segs).run s = (some 0, s) := by
  rw [blkHandle_eq, h]
  rfl

end MiniVirt.Vmm
