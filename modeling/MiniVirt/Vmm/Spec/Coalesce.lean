import MiniVirt.Vmm.Spec.LostNotify

/-!
# Notifications may be coalesced

What the block device does with an entry is not affected by the later entries that the driver has made
available in the meantime, as these are written elsewhere.  So guest RAM and the file end up as if each
entry had been served as soon as it was posted (`Posting.serve`), whatever the notifications were
(`service_sequential`), so that the groups which the postings come in make no difference
(`grouping_invisible`), and however the worker and the driver took turns (`worker_sequential`).
-/

namespace MiniVirt.Vmm

/-! ### Postings -/

/-- The driver makes `entry` available by writing `bytes` to guest RAM. -/
structure Posting where
  entry : Entry
  bytes : Nat → Option (BitVec 8)

/-- What several postings write. -/
def overs : List Posting → Nat → Option (BitVec 8)
  | [] => fun _ => none
  | p :: ps => fun a => (overs ps a).or (p.bytes a)

/-- The entry is posted and served before anything else is posted. -/
def Posting.serve (s : St) (p : Posting) : St :=
  let s := { s with mem := s.mem.overlay p.bytes }
  match p.entry.chain with
  | none => ((advance .blk 0 (s.vq .blk 0).slot p.entry.head).run s).2
  | some ds =>
    let y := (blkHandle (chainSegs ds)).run s
    ((advance .blk 0 (s.vq .blk 0).slot p.entry.head).run ((pushUsed .blk 0 p.entry.head (y.1.getD 0)).run y.2).2).2

/-- All entries are posted and served in turn. -/
def sequential (s : St) (ps : List Posting) : St := ps.foldl Posting.serve s

/-- `s'` is `s` with the bytes `o` written to guest RAM, as far as the block device is concerned. -/
structure Over (o : Nat → Option (BitVec 8)) (s s' : St) : Prop where
  mem : s'.mem = s.mem.overlay o
  memSize : s'.memSize = s.memSize
  vq : s'.vq .blk 0 = s.vq .blk 0
  blk : s'.blk = s.blk
  stale : s'.stale = s.stale

variable {o : Nat → Option (BitVec 8)} {s s' y y' : St} {ds : List Desc} {p : Posting} {ps : List Posting}

theorem overs_concat (ps : List Posting) (p : Posting) (m : ByteMem) :
    m.overlay (overs (ps ++ [p])) = (m.overlay (overs ps)).overlay p.bytes := by
  rw [ByteMem.overlay_overlay]
  congr 1
  funext a
  induction ps with
  | nil => simp [overs]
  | cons q ps ih => simp [overs, ih, Option.or_assoc]

theorem overs_cons (p : Posting) (ps : List Posting) (m : ByteMem) :
    m.overlay (overs (p :: ps)) = (m.overlay p.bytes).overlay (overs ps) :=
  (ByteMem.overlay_overlay ..).symm

theorem overs_eq_none {a : Nat} (h : ∀ p ∈ ps, p.bytes a = none) : overs ps a = none := by
  induction ps with
  | nil => rfl
  | cons p ps ih =>
    unfold overs
    rw [ih fun q hq => h q (List.mem_cons_of_mem _ hq), h p List.mem_cons_self]
    rfl

namespace Over

theorem refl (s : St) : Over (fun _ => none) s s := ⟨rfl, rfl, rfl, rfl, rfl⟩

/-- Events do not count. -/
theorem log (h : Over o s s') (e e' : Event) : Over o (s.log e) (s'.log e') :=
  ⟨h.mem, h.memSize, h.vq, h.blk, h.stale⟩

end Over

/-! ### A request -/

/-- The posting writes elsewhere. -/
def Clear (o : Nat → Option (BitVec 8)) (a n : Nat) : Prop := ∀ i, a ≤ i → i < a + n → o i = none

theorem guestRead_over {off n : Nat} (h : Clear o off n) : Sim (Over o) (guestRead off n) (guestRead off n) := by
  intro s s' hs
  refine ⟨?_, hs.log _ _⟩
  show s.mem.read off n = s'.mem.read off n
  rw [hs.mem, ByteMem.read_overlay h]

theorem guestWrite_over {off : Nat} {l : List (BitVec 8)} (h : Clear o off l.length) :
    Sim (Over o) (guestWrite off l) (guestWrite off l) := by
  intro s s' hs
  refine ⟨rfl, ?_, hs.memSize, hs.vq, hs.blk, hs.stale⟩
  show s'.mem.write off l = (s.mem.write off l).overlay o
  rw [hs.mem, ByteMem.write_overlay h]

theorem guestStore_over {off n : Nat} (h : Clear o off n) (v : Nat) :
    Sim (Over o) (guestStore off n v) (guestStore off n v) :=
  guestWrite_over (by rwa [length_leBytes])

theorem takeStale_over (n : Nat) : Sim (Over o) (takeStale n) (takeStale n) := by
  intro s s' h
  refine ⟨congrArg (ByteMem.read · 0 n) h.stale.symm, h.mem, h.memSize, h.vq, h.blk, ?_⟩
  exact congrArg (fun m i => m (n + i)) h.stale

/-- The buffers are elsewhere. -/
def ClearSegs (o : Nat → Option (BitVec 8)) (segs : List Seg) : Prop := ∀ g ∈ segs, Clear o g.hva (max 1 g.len.toNat)

theorem Clear.mono {a n b k : Nat} (h : Clear o a n) (hle : a ≤ b) (hle' : b + k ≤ a + n) : Clear o b k :=
  fun i hi hi' => h i (hle.trans hi) (hi'.trans_le hle')

theorem chainReadLoop_over {segs : List Seg} (h : ClearSegs o segs) (len off : Nat) (l : List (BitVec 8)) :
    Sim (Over o) (chainReadLoop len segs off l) (chainReadLoop len segs off l) := by
  induction segs generalizing off l with
  | nil => exact .pure _
  | cons g segs ih =>
    have hrest : ClearSegs o segs := fun g' hg' => h g' (List.mem_cons_of_mem _ hg')
    unfold chainReadLoop
    split
    · exact .pure _
    · split
      · exact ih hrest _ _
      · refine (guestRead_over ?_).bind fun _ => ih hrest _ _
        apply (h g List.mem_cons_self).mono
        · omega
        · omega

theorem fileIo_over_bind {α β : Type} (f : BlkBackend → α × BlkBackend) {k : α → V β}
    (hk : ∀ blk, Sim (Over o) (k (f blk).1) (k (f blk).1)) : Sim (Over o) (fileIo f >>= k) (fileIo f >>= k) := by
  intro s s' h
  have hrest := hk s.blk { s with blk := (f s.blk).2 } { s' with blk := (f s.blk).2 }
    ⟨h.mem, h.memSize, h.vq, rfl, h.stale⟩
  rw [run_bind, run_bind]
  have hrun : (fileIo f).run s = ((f s.blk).1, { s with blk := (f s.blk).2 }) := rfl
  have hrun' : (fileIo f).run s' = ((f s'.blk).1, { s' with blk := (f s'.blk).2 }) := rfl
  rw [hrun, hrun', h.blk]
  exact hrest

theorem blkIn_over {status : Nat} {data : List Seg} (hstatus : Clear o status 1) (h : ClearSegs o data)
    (off : BitVec 64) (total : BitVec 32) :
    Sim (Over o) (blkIn status data off total) (blkIn status data off total) := by
  induction data generalizing off total with
  | nil => exact .pure _
  | cons g data ih =>
    refine fileIo_over_bind _ fun blk => ?_
    cases hread : (pread g.len.toNat off blk).1 with
    | none => exact (guestStore_over hstatus _).bind fun _ => .pure _
    | some l =>
      have hlen := length_pread hread
      refine Sim.bind (guestWrite_over ?_) fun _ => .ite Iff.rfl (.pure _) ?_
      · apply (h g List.mem_cons_self).mono le_rfl
        omega
      · exact ih (fun g' hg' => h g' (List.mem_cons_of_mem _ hg')) _ _

theorem blkOut_over {status : Nat} {data : List Seg} (hstatus : Clear o status 1) (h : ClearSegs o data)
    (off : BitVec 64) : Sim (Over o) (blkOut status data off) (blkOut status data off) := by
  induction data generalizing off with
  | nil => exact .pure _
  | cons g data ih =>
    have hg : Clear o g.hva g.len.toNat := (h g List.mem_cons_self).mono le_rfl (by omega)
    refine (guestRead_over hg).bind fun l => fileIo_over_bind _ fun blk => ?_
    split
    · exact guestStore_over hstatus _
    · exact .ite Iff.rfl (.pure _) (ih (fun g' hg' => h g' (List.mem_cons_of_mem _ hg')) _)

theorem blkRequest_over {status : Nat} {data : List Seg} (hstatus : Clear o status 1) (h : ClearSegs o data)
    (hdr : List (BitVec 8)) : Sim (Over o) (blkRequest hdr data status) (blkRequest hdr data status) := by
  refine (guestStore_over hstatus _).bind fun _ => .ite Iff.rfl ?_ (.ite Iff.rfl ?_ (.ite Iff.rfl (.pure _) ?_))
  · exact (blkIn_over hstatus h _ _).bind fun _ => .pure _
  · exact (blkOut_over hstatus h _).bind fun _ => .pure _
  · exact (guestStore_over hstatus _).bind fun _ => .pure _

theorem blkHandle_over {segs : List Seg} (h : ClearSegs o segs) : Sim (Over o) (blkHandle segs) (blkHandle segs) := by
  match segs with
  | [] => exact .pure _
  | [_] => exact .pure _
  | first :: second :: rest =>
    refine (takeStale_over 16).bind fun dst => ?_
    refine Sim.bind ((chainReadLoop_over h _ _ _).bind fun _ => .pure _) fun hdr => ?_
    refine Sim.bind (blkRequest_over ?_ (fun g hg => h g ?_) hdr) fun _ => .pure _
    · have hlast := h _ (List.mem_cons_of_mem first (List.getLast_mem (List.cons_ne_nil second rest)))
      exact hlast.mono le_rfl (by omega)
    · exact List.mem_cons_of_mem _ (List.mem_of_mem_dropLast hg)

/-! ### An entry -/

variable {L : Layout} {posted : Posted}

namespace Over

theorem of_reads (h : Over o y s) (hreads : reads.rel s s') : Over o y s' := by
  obtain ⟨es, rfl, -⟩ := hreads
  exact ⟨h.mem, h.memSize, h.vq, h.blk, h.stale⟩

theorem advance (h : Over o y s) (slot slot' : Nat) (head : BitVec 16) :
    Over o ((advance .blk 0 slot head).run y).2 ((advance .blk 0 slot' head).run s).2 := by
  refine ⟨h.mem, h.memSize, ?_, h.blk, h.stale⟩
  rw [advance_vq_self, advance_vq_self, h.vq]

/-- An element for the used ring goes to the same place. -/
theorem pushUsed (h : Over o y s) (hring : ∀ a ∈ (s.vq .blk 0).usedRing, o a = none)
    (hnum : 0 < (s.vq .blk 0).num.toNat)
    (hram : (s.vq .blk 0).used.toNat + (4 + 8 * (s.vq .blk 0).num.toNat) ≤ s.memSize.toNat)
    (head : BitVec 16) (len : BitVec 32) :
    Over o ((pushUsed .blk 0 head len).run y).2 ((pushUsed .blk 0 head len).run s).2 := by
  rw [pushUsed_run hram, pushUsed_run (by rwa [← h.vq, ← h.memSize])]
  refine ⟨?_, h.memSize, h.vq, h.blk, h.stale⟩
  dsimp only
  rw [h.mem, ← h.vq]
  funext a
  by_cases ha : a ∈ (s.vq .blk 0).usedRing
  · rw [ByteMem.overlay_of_none (hring a ha)]
    exact Vq.pushElem_congr (fun b hb => ByteMem.overlay_of_none (hring b hb) _) _ a ha
  · rw [Vq.pushElem_of_not_mem hnum ha, ByteMem.overlay, ByteMem.overlay, Vq.pushElem_of_not_mem hnum ha]

end Over

/-- What the later postings write is neither in the used ring nor in the buffers of the entry. -/
structure Posting.Apart (L : Layout) (p : Posting) (o : Nat → Option (BitVec 8)) : Prop where
  ring : ∀ a ∈ (L.vq .blk 0).usedRing, o a = none
  buffers : ∀ ds, p.entry.chain = some ds → ∀ a ∈ chainBytes ds, o a = none

theorem Posting.Apart.clear (h : p.Apart L o) (hchain : p.entry.chain = some ds) :
    ClearSegs o (chainSegs ds) := fun _ hg i hi hi' =>
  h.buffers ds hchain i (mem_chainBytes hg hi hi')

/-- An entry is served as if the entries after it had not been posted yet. -/
theorem Over.entry (hL : L.SetUp) (hlive : L.Live .blk 0) (hs : s.layout = L)
    (hserves : ServesEntry L posted blkHandle .blk 0 p.entry s s') (hover : Over (overs (p :: ps)) y s)
    (hapart : p.Apart L (overs ps)) : Over (overs ps) (p.serve y) s' := by
  have hposted : Over (overs ps) { y with mem := y.mem.overlay p.bytes } s :=
    ⟨hover.mem.trans (overs_cons ..), hover.memSize, hover.vq, hover.blk, hover.stale⟩
  unfold Posting.serve
  generalize ({ y with mem := y.mem.overlay p.bytes } : St) = y₁ at hposted ⊢
  dsimp only
  cases hserves with
  | malformed hchain hreads =>
    rw [hchain]
    exact (hposted.of_reads hreads).advance _ _ _
  | @served s₁ s₂ _ ds len hchain hreads hhandle _ =>
    rw [hchain]
    obtain ⟨hres, hrel⟩ := blkHandle_over (hapart.clear hchain) y₁ s₁ (hposted.of_reads hreads)
    have hwork : Work s₁ ((blkHandle (chainSegs ds)).run s₁).2 := work_transfers.blkHandle _ s₁
    rw [hhandle] at hres hrel hwork
    dsimp only at hres hrel hwork ⊢
    -- the handler leaves the queues where they are
    have hlayout : s₂.layout = L := by
      rw [hwork.layout, ← hs]
      obtain ⟨es, rfl, -⟩ := hreads
      rfl
    have hconfig := layout_vq hlayout .blk 0
    have hring : (s₂.vq .blk 0).usedRing = (L.vq .blk 0).usedRing := by
      rw [← hconfig]
      rfl
    have hram := hL.used .blk 0 hlive
    have hnum := hL.num_pos hlive
    rw [← hconfig] at hnum hram
    rw [← layout_memSize hlayout] at hram
    rw [hres, Option.getD_some]
    apply Over.advance
    exact hrel.pushUsed (by rw [hring]; exact hapart.ring) hnum hram _ _

theorem ServesEntry.blk_taken {e : Entry} (h : ServesEntry L posted blkHandle .blk 0 e s s') :
    s'.taken .blk 0 = s.taken .blk 0 ++ [e.head] := by
  cases h with
  | malformed _ hreads => rw [advance_taken, if_pos rfl, (Kept.of_reads (P := ∅) hreads).taken]
  | @served s₁ s₂ _ ds len _ hreads hhandle _ =>
    have hkept : (sameTaken .blk 0).rel s₁ ((blkHandle (chainSegs ds)).run s₁).2 :=
      (sameTaken_transfers .blk 0).blkHandle _ s₁
    rw [hhandle] at hkept
    have hkept : s₂.taken .blk 0 = s₁.taken .blk 0 := hkept
    rw [advance_taken, if_pos rfl, pushUsed_taken, hkept, (Kept.of_reads (P := ∅) hreads).taken]

theorem ServesEntry.blk_layout {e : Entry} (h : ServesEntry L posted blkHandle .blk 0 e s s') :
    s'.layout = s.layout := by
  have hadvance (slot : Nat) (head : BitVec 16) (s : St) :
      ((Vmm.advance .blk 0 slot head).run s).2.layout = s.layout :=
          ((serves_services .blk).advance 0 slot head s).layout
  cases h with
  | malformed _ hreads =>
    obtain ⟨es, rfl, -⟩ := hreads
    rw [hadvance]
    rfl
  | @served s₁ s₂ _ ds len _ hreads hhandle _ =>
    have hwork : Work s₁ ((blkHandle (chainSegs ds)).run s₁).2 := work_transfers.blkHandle _ s₁
    have hpush := ((serves_services .blk).pushUsed 0 e.head len s₂).layout
    rw [hhandle] at hwork
    obtain ⟨es, rfl, -⟩ := hreads
    rw [hadvance, hpush, hwork.layout]
    rfl

/-! ### Runs -/

/-- The block device is where it would be if the entries that it is done with had been posted and
served in turn, and the others had been posted then. -/
structure Sequential (L : Layout) (s₀ : St) (ps : List Posting) (s : St) : Prop where
  layout : s.layout = L
  ahead : Over (overs (ps.drop (s.taken .blk 0).length))
    (sequential s₀ (ps.take (s.taken .blk 0).length)) s
  apart : (ps.drop (s.taken .blk 0).length).Pairwise fun p q => p.Apart L q.bytes

/-- The condition for the postings after the first one. -/
theorem apart_overs (h : (p :: ps).Pairwise fun p q => p.Apart L q.bytes) : p.Apart L (overs ps) := by
  have hall := (List.pairwise_cons.1 h).1
  refine ⟨fun a ha => overs_eq_none fun q hq => (hall q hq).ring a ha, fun ds hds a ha => ?_⟩
  exact overs_eq_none fun q hq => (hall q hq).buffers ds hds a ha

namespace Sequential

variable {s₀ : St}

theorem start (hs : s₀.taken .blk 0 = []) : Sequential s₀.layout s₀ [] s₀ := by
  refine ⟨rfl, ?_, ?_⟩
  · rw [hs]
    exact Over.refl s₀
  · rw [hs]
    exact .nil

/-- What does not concern the block queue. -/
theorem congr (h : Sequential L s₀ ps s) (hlayout : s'.layout = s.layout) (htaken : s'.taken .blk 0 = s.taken .blk 0)
    (hover : Over (fun _ => none) s s') : Sequential L s₀ ps s' := by
  refine ⟨hlayout.trans h.layout, ?_, htaken ▸ h.apart⟩
  rw [htaken]
  exact ⟨hover.mem.trans h.ahead.mem, hover.memSize.trans h.ahead.memSize, hover.vq.trans h.ahead.vq,
    hover.blk.trans h.ahead.blk, hover.stale.trans h.ahead.stale⟩

theorem post (h : Sequential L s₀ ps s) (hle : (s.taken .blk 0).length ≤ ps.length)
    (hapart : ∀ q ∈ ps.drop (s.taken .blk 0).length, q.Apart L p.bytes) :
    Sequential L s₀ (ps ++ [p]) { s with mem := s.mem.overlay p.bytes } := by
  refine ⟨h.layout, ?_, ?_⟩
  · show Over (overs ((ps ++ [p]).drop (s.taken .blk 0).length))
      (sequential s₀ ((ps ++ [p]).take (s.taken .blk 0).length)) _
    rw [List.drop_append_of_le_length hle, List.take_append_of_le_length hle]
    refine ⟨?_, h.ahead.memSize, h.ahead.vq, h.ahead.blk, h.ahead.stale⟩
    rw [overs_concat, ← h.ahead.mem]
  · show ((ps ++ [p]).drop (s.taken .blk 0).length).Pairwise _
    rw [List.drop_append_of_le_length hle, List.pairwise_append]
    exact ⟨h.apart, List.pairwise_singleton .., fun q hq r hr => List.mem_singleton.1 hr ▸ hapart q hq⟩

theorem serve (hL : L.SetUp) (hlive : L.Live .blk 0) (h : Sequential L s₀ ps s)
    (hp : ps[(s.taken .blk 0).length]? = some p)
    (hserves : ServesEntry L posted blkHandle .blk 0 p.entry s s') : Sequential L s₀ ps s' := by
  have hlen : (s'.taken .blk 0).length = (s.taken .blk 0).length + 1 := by
    rw [hserves.blk_taken, List.length_append, List.length_singleton]
  have hdrop : ps.drop (s.taken .blk 0).length = p :: ps.drop ((s.taken .blk 0).length + 1) := by
    rw [List.drop_eq_getElem?_toList_append, hp]
    rfl
  have hover := h.ahead
  have hapart := h.apart
  rw [hdrop] at hover hapart
  refine ⟨hserves.blk_layout.trans h.layout, ?_, ?_⟩
  · rw [hlen, List.take_add_one, hp, Option.toList_some]
    unfold sequential
    rw [List.foldl_concat]
    exact Over.entry hL hlive h.layout hserves hover (apart_overs hapart)
  · rw [hlen]
    exact (List.pairwise_cons.1 hapart).2

theorem serveAll {es : List Entry} (hL : L.SetUp) (hlive : L.Live .blk 0) (h : Sequential L s₀ ps s)
    (hes : es <+: (ps.map Posting.entry).drop (s.taken .blk 0).length)
    (hserves : ServesAll L posted blkHandle .blk 0 es s s') : Sequential L s₀ ps s' := by
  induction hserves with
  | nil => exact h
  | @cons e es s s₁ s₂ _ hentry _ ih =>
    obtain ⟨rest, hrest⟩ := hes
    have he : (ps.map Posting.entry)[(s.taken .blk 0).length]? = some e := by
      have hhead := congrArg (fun l : List Entry => l[0]?) hrest
      rw [List.getElem?_drop, Nat.add_zero] at hhead
      exact hhead.symm
    obtain ⟨p, hp, rfl⟩ := by simpa only [List.getElem?_map, Option.map_eq_some_iff] using he
    apply ih (h.serve hL hlive hp hentry)
    refine ⟨rest, ?_⟩
    rw [hentry.blk_taken, List.length_append, List.length_singleton, ← List.drop_drop, ← hrest]
    rfl

end Sequential

/-! ### Calls of `service_vq()` -/

/-- The driver posts for the block device, or `service_vq()` is called for it. -/
inductive BlkAct where
  | post (p : Posting)
  | service

def BlkAct.queueAct (x : Driven) : BlkAct → QueueAct
  | .post p => .post .blk 0 p.entry (x.st.mem.overlay p.bytes)
  | .service => .notify .blk 0

def BlkAct.step (x : Driven) (a : BlkAct) : Driven := (a.queueAct x).step x

def BlkAct.posting : BlkAct → Option Posting
  | .post p => some p
  | .service => none

def postings (acts : List BlkAct) : List Posting := acts.filterMap BlkAct.posting

/-- The posting leaves the used ring and the buffers of the entries that are outstanding alone. -/
structure Posting.Spares (L : Layout) (s : St) (es : List Entry) (p : Posting) : Prop where
  ring : ∀ a ∈ (L.vq .blk 0).usedRing, p.bytes a = none
  buffers : ∀ e ∈ es.drop (s.taken .blk 0).length, ∀ ds, e.chain = some ds → ∀ a ∈ chainBytes ds, p.bytes a = none

/-- As for completion, and a posting touches nothing that is outstanding. -/
def BlkAct.Allowed (L : Layout) (x : Driven) (a : BlkAct) : Prop :=
  (a.queueAct x).Allowed L x ∧ ∀ p, a.posting = some p → p.Spares L x.st (x.posted .blk 0)

theorem Posting.Spares.apart {es : List Entry} (h : p.Spares L s es) (hes : es = ps.map Posting.entry) :
    ∀ q ∈ ps.drop (s.taken .blk 0).length, q.Apart L p.bytes := by
  intro q hq
  refine ⟨h.ring, h.buffers q.entry ?_⟩
  rw [hes, ← List.map_drop]
  exact List.mem_map_of_mem hq

/-- What holds of a run that has made the postings `ps`. -/
structure BlkInv (L : Layout) (m₀ : ByteMem) (s₀ : St) (ps : List Posting) (x : Driven) : Prop where
  queues : QueueInv L m₀ x.posted x.st
  posted : x.posted .blk 0 = ps.map Posting.entry
  sequential : Sequential L s₀ ps x.st

variable {m₀ : ByteMem} {s₀ : St} {x : Driven}

theorem Started.blkInv (hs : Started s₀) : BlkInv s₀.layout s₀.mem s₀ [] s₀.driven := by
  refine ⟨hs.inv, rfl, .start ?_⟩
  unfold St.taken
  rw [hs.trace]
  rfl

theorem raised_over (s : St) (d : Dev) (did : Bool) : Over (fun _ => none) s (s.raised d did) := by
  have hkept := raised_kept Set.univ s d did
  refine ⟨funext fun a => hkept.mem a trivial, hkept.memSize, hkept.vq .blk 0, ?_, ?_⟩
  all_goals
    unfold St.raised
    split
    · rw [virtioRaiseIrq, run_bind, run_bind, run_get, run_ite]
      dsimp only
      split <;> rfl
    · rfl

theorem BlkInv.post (h : BlkInv L m₀ s₀ ps x) (hp : (BlkAct.post p).Allowed L x) :
    BlkInv L m₀ s₀ (ps ++ [p]) ((BlkAct.post p).step x) := by
  have hle : (x.st.taken .blk 0).length ≤ ps.length := by
    have hlaid := (h.queues.laid .blk 0 hp.1.1).le
    rwa [h.posted, List.length_map] at hlaid
  refine ⟨h.queues.post hp.1, ?_, ?_⟩
  · show x.posted.add .blk 0 p.entry .blk 0 = _
    unfold Posted.add
    rw [if_pos rfl, h.posted, List.map_append]
    rfl
  · exact h.sequential.post hle ((hp.2 p rfl).apart h.posted)

/-- A call of `service_vq()` serves all entries that are outstanding. -/
theorem BlkInv.service (hL : L.SetUp) (hlive : L.Live .blk 0) (h : BlkInv L m₀ s₀ ps x) :
    BlkInv L m₀ s₀ ps (BlkAct.service.step x) ∧
      ((BlkAct.service.step x).st.taken .blk 0).length = ps.length := by
  have hkeeps : KeepsQueues L m₀ x.posted (devHandle .blk 0) .blk 0 := devHandle_keeps hL hlive
  obtain ⟨s₁, s₂, did, hrun, hcall⟩ := serviceWith_entries hL hlive hkeeps h.queues
  have hstate : (BlkAct.service.step x).st = s₂.raised .blk did := congrArg Prod.snd hrun
  obtain ⟨j, -, hall⟩ := hcall.serves
  have hraised := raised_kept L.queueBytes s₂ .blk did
  -- entry by entry it does what the sequential run does
  have hseq : Sequential L s₀ ps s₂ := by
    obtain ⟨es, hs₁, -⟩ := hcall.reads
    have htaken := (Kept.of_reads (P := ∅) hcall.reads).taken .blk 0
    have hfirst : Sequential L s₀ ps s₁ := by
      apply h.sequential.congr _ htaken
      · subst hs₁
        exact ⟨rfl, rfl, rfl, rfl, rfl⟩
      · subst hs₁
        rfl
    refine hfirst.serveAll hL hlive ?_ hall
    rw [htaken, ← h.posted]
    exact List.take_prefix _ _
  refine ⟨⟨?_, h.posted, ?_⟩, ?_⟩
  · rw [hstate]
    exact hcall.inv.kept hL hraised
  · rw [hstate]
    refine hseq.congr ?_ (hraised.taken .blk 0) (raised_over s₂ .blk did)
    exact (hcall.inv.kept hL hraised).layout.trans hcall.inv.layout.symm
  · -- the block queue never has to wait, so the call drains it
    have hdrained := hcall.drained.resolve_right (by rw [devCanConsume_of_ne (by simp)]; nofun)
    rw [hstate, hraised.taken, hdrained, h.posted, List.length_map]

theorem BlkInv.run {acts : List BlkAct} (hL : L.SetUp) (hlive : L.Live .blk 0) (h : BlkInv L m₀ s₀ ps x)
    (hacts : AllSteps BlkAct.step (BlkAct.Allowed L) x acts) :
    BlkInv L m₀ s₀ (ps ++ postings acts) (runSteps BlkAct.step x acts) := by
  induction acts generalizing x ps with
  | nil =>
    rw [postings, List.filterMap_nil, List.append_nil]
    exact h
  | cons a acts ih =>
    cases a with
    | post p =>
      have hrest := ih (h.post hacts.1) hacts.2
      rwa [List.append_assoc] at hrest
    | service => exact ih (h.service hL hlive).1 hacts.2

/-- After a last call everything is as if each entry had been served as soon as it was posted. -/
theorem service_sequential {acts : List BlkAct} (hs : Started s₀) (hlive : s₀.layout.Live .blk 0)
    (h : AllSteps BlkAct.step (BlkAct.Allowed s₀.layout) s₀.driven acts) :
    Over (fun _ => none) (sequential s₀ (postings acts))
      (runSteps BlkAct.step s₀.driven (acts ++ [.service])).st := by
  have hrun := hs.blkInv.run hs.setUp hlive h
  obtain ⟨hinv, hdone⟩ := hrun.service hs.setUp hlive
  have hover := hinv.sequential.ahead
  rw [hdone, List.drop_length, List.take_length] at hover
  rw [runSteps_append]
  exact hover

/-- What the driver can see of the block device and of guest RAM. -/
structure SameOutcome (s s' : St) : Prop where
  mem : s'.mem = s.mem
  blk : s'.blk = s.blk
  last : (s'.vq .blk 0).lastAvailIdx = (s.vq .blk 0).lastAvailIdx

theorem Over.outcome (h : Over (fun _ => none) y s) (h' : Over (fun _ => none) y s') : SameOutcome s s' :=
  ⟨h'.mem.trans h.mem.symm, h'.blk.trans h.blk.symm, by rw [h'.vq, h.vq]⟩

/-- It does not matter after which postings `service_vq()` is called. -/
theorem notifications_coalesce {acts acts' : List BlkAct} (hs : Started s₀) (hlive : s₀.layout.Live .blk 0)
    (h : AllSteps BlkAct.step (BlkAct.Allowed s₀.layout) s₀.driven acts)
    (h' : AllSteps BlkAct.step (BlkAct.Allowed s₀.layout) s₀.driven acts')
    (hpostings : postings acts' = postings acts) :
    SameOutcome (runSteps BlkAct.step s₀.driven (acts ++ [.service])).st
      (runSteps BlkAct.step s₀.driven (acts' ++ [.service])).st :=
  (service_sequential hs hlive h).outcome (hpostings ▸ service_sequential hs hlive h')

def Offer.posting (o : Offer) : Posting := ⟨o.entry, WriteLog.latest o.writes⟩

/-- It is written behind or in front of the buffers that are in use. -/
def Offer.Clears (o : Offer) (x : Driven) : Prop :=
  ∀ e ∈ (x.posted .blk 0).drop (x.st.taken .blk 0).length, ∀ d ∈ e.chain.getD [], ∀ w ∈ o.writes,
    d.addr.toNat + max 1 d.len.toNat ≤ w.1 ∨ w.1 + w.2.length ≤ d.addr.toNat

instance Offer.Clears.decidable (o : Offer) (x : Driven) : Decidable (o.Clears x) := List.decidableBAll ..

theorem Offer.Fits.spares {o : Offer} (h : o.Fits x) (hclears : o.Clears x) :
    o.posting.Spares diskQueue.layout x.st (x.posted .blk 0) := by
  refine ⟨h.ring, fun e he ds hds a ⟨d, hd, hle, hlt⟩ => WriteLog.latest_eq_none fun w hw => ?_⟩
  have hclear := hclears e he d (by rwa [hds]) w hw
  omega

theorem Offer.Fits.post_allowed {o : Offer} (h : o.Fits x) (hclears : o.Clears x) :
    (BlkAct.post o.posting).Allowed diskQueue.layout x := by
  refine ⟨h.allowed, fun p hp => ?_⟩
  rw [← Option.some.inj hp]
  exact h.spares hclears

/-- Three entries, the second of which is malformed. -/
theorem notifications_coalesce_offers :
    SameOutcome
      (runSteps BlkAct.step diskQueue.driven
        ([.post (writeOffer 0).posting, .post (loopOffer 1).posting, .service, .post (readOffer 2).posting] ++
          [.service])).st
      (runSteps BlkAct.step diskQueue.driven
        ([.post (writeOffer 0).posting, .service, .service, .post (loopOffer 1).posting,
          .post (readOffer 2).posting] ++ [.service])).st := by
  refine notifications_coalesce diskQueue_started ⟨by decide, by decide⟩ ?_ ?_ rfl
  · exact ⟨Offer.Fits.post_allowed (by decide +kernel) (by decide +kernel),
      Offer.Fits.post_allowed (by decide +kernel) (by decide +kernel), ⟨trivial, nofun⟩,
      Offer.Fits.post_allowed (by decide +kernel) (by decide +kernel), trivial⟩
  · exact ⟨Offer.Fits.post_allowed (by decide +kernel) (by decide +kernel), ⟨trivial, nofun⟩, ⟨trivial, nofun⟩,
      Offer.Fits.post_allowed (by decide +kernel) (by decide +kernel),
      Offer.Fits.post_allowed (by decide +kernel) (by decide +kernel), trivial⟩

/-! ### Groups of postings -/

/-- `service_vq()` is called once after each group of postings. -/
def grouped (gs : List (List Posting)) : List BlkAct := gs.flatMap fun ps => ps.map BlkAct.post ++ [.service]

theorem postings_append (acts acts' : List BlkAct) : postings (acts ++ acts') = postings acts ++ postings acts' :=
  List.filterMap_append

theorem postings_map_post (ps : List Posting) : postings (ps.map BlkAct.post) = ps := by
  induction ps with
  | nil => rfl
  | cons p ps ih => exact congrArg (p :: ·) ih

theorem grouped_concat (gs : List (List Posting)) (ps : List Posting) :
    grouped (gs ++ [ps]) = (grouped gs ++ ps.map BlkAct.post) ++ [.service] := by
  simp [grouped]

theorem postings_grouped (gs : List (List Posting)) : postings (grouped gs) = gs.flatten := by
  induction gs using List.reverseRecOn with
  | nil => rfl
  | append_singleton gs ps ih =>
    rw [grouped_concat, postings_append, postings_append, ih, postings_map_post, List.flatten_append,
      List.flatten_singleton]
    exact List.append_nil _

theorem grouped_sequential {gs : List (List Posting)} (hs : Started s₀) (hlive : s₀.layout.Live .blk 0)
    (h : AllSteps BlkAct.step (BlkAct.Allowed s₀.layout) s₀.driven (grouped gs)) :
    Over (fun _ => none) (sequential s₀ gs.flatten) (runSteps BlkAct.step s₀.driven (grouped gs)).st := by
  rcases List.eq_nil_or_concat' gs with rfl | ⟨gs, ps, rfl⟩
  · exact Over.refl s₀
  · -- the call after the last group is the one that `service_sequential` asks for
    rw [grouped_concat] at h ⊢
    have hpostings : postings (grouped gs ++ ps.map BlkAct.post) = (gs ++ [ps]).flatten := by
      rw [postings_append, postings_grouped, postings_map_post, List.flatten_append, List.flatten_singleton]
    rw [← hpostings]
    exact service_sequential hs hlive (allSteps_append.1 h).1

/-- The groups that the postings come in make no difference. -/
theorem grouping_invisible {gs gs' : List (List Posting)} (hs : Started s₀) (hlive : s₀.layout.Live .blk 0)
    (h : AllSteps BlkAct.step (BlkAct.Allowed s₀.layout) s₀.driven (grouped gs))
    (h' : AllSteps BlkAct.step (BlkAct.Allowed s₀.layout) s₀.driven (grouped gs')) (hsame : gs'.flatten = gs.flatten) :
    SameOutcome (runSteps BlkAct.step s₀.driven (grouped gs)).st (runSteps BlkAct.step s₀.driven (grouped gs')).st :=
  (grouped_sequential hs hlive h).outcome (hsame ▸ grouped_sequential hs hlive h')

/-- A call after each of three postings, and calls after the second and the third. -/
theorem grouping_invisible_offers :
    SameOutcome
      (runSteps BlkAct.step diskQueue.driven
        (grouped [[(writeOffer 0).posting], [(loopOffer 1).posting], [(readOffer 2).posting]])).st
      (runSteps BlkAct.step diskQueue.driven
        (grouped [[(writeOffer 0).posting, (loopOffer 1).posting], [(readOffer 2).posting]])).st := by
  refine grouping_invisible diskQueue_started ⟨by decide, by decide⟩ ?_ ?_ rfl
  · exact ⟨Offer.Fits.post_allowed (by decide +kernel) (by decide +kernel), ⟨trivial, nofun⟩,
      Offer.Fits.post_allowed (by decide +kernel) (by decide +kernel), ⟨trivial, nofun⟩,
      Offer.Fits.post_allowed (by decide +kernel) (by decide +kernel), ⟨trivial, nofun⟩, trivial⟩
  · exact ⟨Offer.Fits.post_allowed (by decide +kernel) (by decide +kernel),
      Offer.Fits.post_allowed (by decide +kernel) (by decide +kernel), ⟨trivial, nofun⟩,
      Offer.Fits.post_allowed (by decide +kernel) (by decide +kernel), ⟨trivial, nofun⟩, trivial⟩

/-! ### The worker -/

/-- The driver posts for the block device, and the worker serves it. -/
inductive BlkNotifyAct where
  | post (p : Posting)
  | notify
  | ack (d : Dev) (val : BitVec 64)
  | wake (evs : List NotifyReg)
  | work

def BlkNotifyAct.notifyAct (x : PlaneRun) : BlkNotifyAct → NotifyAct
  | .post p => .post .blk 0 p.entry (x.plane.st.mem.overlay p.bytes)
  | .notify => .notify .blk 0
  | .ack d val => .ack d val
  | .wake evs => .wake evs
  | .work => .work

def BlkNotifyAct.step (x : PlaneRun) (a : BlkNotifyAct) : PlaneRun := (a.notifyAct x).step x

def BlkNotifyAct.posting : BlkNotifyAct → Option Posting
  | .post p => some p
  | _ => none

def BlkNotifyAct.Allowed (L : Layout) (x : PlaneRun) (a : BlkNotifyAct) : Prop :=
  (a.notifyAct x).Allowed L x ∧ ∀ p, a.posting = some p → p.Spares L x.plane.st (x.posted .blk 0)

/-- The queues that the worker is about to serve. -/
def WorkerAt.regs : WorkerAt → List NotifyReg
  | .wait => []
  | .events rest => rest
  | .call r rest => r :: rest
  | .service (.loop c) rest => ⟨c.d, c.qi⟩ :: rest
  | .service _ rest => rest

/-- Only the block device is notified. -/
structure OnlyBlk (x : DataPlane) : Prop where
  count : ∀ r, r ≠ ⟨.blk, 0⟩ → x.count r = 0
  regs : ∀ r ∈ x.worker.regs, r = ⟨.blk, 0⟩

variable {z : PlaneRun} {k : Nat}

theorem work_count_le (x : DataPlane) (r : NotifyReg) : x.work.count r ≤ x.count r := by
  unfold DataPlane.work
  split
  case h_3 r' rest hw =>
    by_cases hr : r = r'
    · rw [hr]
      simp
    · simp [hr]
  all_goals exact le_rfl

theorem next_regs (c : ServiceCall) (y : Bool ⊕ Option Bool) (rest : List NotifyReg) :
    (WorkerAt.service (c.next y) rest).regs ⊆ ⟨c.d, c.qi⟩ :: rest := by
  rcases y with did | _ | _ | _
  · exact List.Subset.refl _
  all_goals exact List.subset_cons_self _ _

theorem serviceStart_regs (r : NotifyReg) (s : St) (rest : List NotifyReg) :
    (WorkerAt.service ((serviceStart r.dev r.qi).run s).1 rest).regs ⊆ r :: rest := by
  unfold serviceStart
  rw [run_bind, run_get]
  dsimp only
  rw [run_ite]
  split
  · exact List.subset_cons_self _ _
  · split
    · exact List.Subset.refl _
    · exact List.subset_cons_self _ _

theorem work_regs (x : DataPlane) : x.work.worker.regs ⊆ x.worker.regs := by
  unfold DataPlane.work
  cases hw : x.worker with
  | wait =>
    dsimp only
    rw [hw]
    exact List.Subset.refl _
  | events rest => cases rest <;> exact List.Subset.refl _
  | call r rest => exact serviceStart_regs r x.st rest
  | service pc rest =>
    cases pc with
    | loop c => exact next_regs c _ rest
    | stuck =>
      dsimp only
      rw [hw]
      exact List.Subset.refl _
    | idle => exact List.Subset.refl _
    | raise d => exact List.Subset.refl _

theorem OnlyBlk.work {x : DataPlane} (h : OnlyBlk x) : OnlyBlk x.work :=
  ⟨fun r hr => Nat.le_zero.1 ((work_count_le x r).trans_eq (h.count r hr)), fun r hr => h.regs r (work_regs x hr)⟩

/-- What holds of a run of the worker. -/
structure BlkPlaneInv (L : Layout) (m₀ : ByteMem) (s₀ : St) (ps : List Posting) (z : PlaneRun) (k : Nat) : Prop where
  plane : PlaneInv L m₀ z k
  only : OnlyBlk z.plane
  posted : z.posted .blk 0 = ps.map Posting.entry
  sequential : Sequential L s₀ ps z.plane.st

theorem Started.blkPlaneInv (hs : Started s₀) : BlkPlaneInv s₀.layout s₀.mem s₀ [] s₀.planeRun 0 :=
  ⟨hs.planeInv, ⟨fun _ _ => rfl, by simp [St.planeRun, WorkerAt.regs]⟩, rfl, hs.blkInv.sequential⟩

/-- What does not concern the block queue and its device. -/
structure BlkCalm (s s' : St) : Prop where
  layout : s'.layout = s.layout
  taken : s'.taken .blk 0 = s.taken .blk 0
  calm : Over (fun _ => none) s s'

theorem BlkCalm.refl (s : St) : BlkCalm s s := ⟨rfl, rfl, .refl s⟩

/-- A step of the worker serves the next entry, or does nothing to the queue. -/
theorem BlkPlaneInv.work_cases (hL : L.SetUp) (h : BlkPlaneInv L m₀ s₀ ps z k) :
    BlkCalm z.plane.st z.plane.work.st ∨ ∃ p, ps[(z.plane.st.taken .blk 0).length]? = some p ∧
      L.Live .blk 0 ∧ ServesEntry L z.posted blkHandle .blk 0 p.entry z.plane.st z.plane.work.st := by
  cases hw : z.plane.worker with
  | wait | events rest =>
    have hst : z.plane.work.st = z.plane.st := by
      unfold DataPlane.work
      rw [hw]
      try cases rest <;> rfl
    rw [hst]
    exact .inl (.refl _)
  | call r rest =>
    have hst : z.plane.work.st = ((serviceStart r.dev r.qi).run z.plane.st).2 := by
      unfold DataPlane.work
      rw [hw]
    rw [hst]
    by_cases hlive : L.Live r.dev r.qi
    · have hreads := log_read z.plane.st ((L.vq r.dev r.qi).avail.toNat + 2) 2
      rw [serviceStart_run hL hlive h.plane.queues]
      dsimp only
      generalize hs : z.plane.st.log (.read ((L.vq r.dev r.qi).avail.toNat + 2) 2) = s at hreads ⊢
      refine .inl ⟨?_, ?_, ?_⟩
      · rw [← hs]
        rfl
      · exact (Kept.of_reads (P := ∅) hreads).taken .blk 0
      · exact (Over.refl _).of_reads hreads
    · rw [serviceStart_of_not_live h.plane.queues.layout hlive]
      exact .inl (.refl _)
  | service pc rest =>
    cases pc with
    | idle =>
      unfold DataPlane.work
      rw [hw]
      exact .inl (.refl _)
    | stuck => exact absurd hw (h.plane.returns rest)
    | raise d =>
      unfold DataPlane.work
      rw [hw]
      have hkept := raised_kept ∅ z.plane.st d true
      have hlayout : ((virtioRaiseIrq d).run z.plane.st).2.layout = z.plane.st.layout :=
        (virtioRaiseIrq_serves d z.plane.st).layout
      exact .inl ⟨hlayout, hkept.taken .blk 0, raised_over z.plane.st d true⟩
    | loop c =>
      -- the call is for the block queue, the only one that is notified
      have hreg := h.only.regs ⟨c.d, c.qi⟩ (by rw [hw]; exact List.mem_cons_self)
      by_cases hstop : (z.plane.st.taken c.d c.qi).length = k ∨ devCanConsume z.plane.st c.d c.qi = false
      · obtain ⟨pc, -, hwork, -⟩ := h.plane.iter_stop hL hw hstop
        rw [hwork]
        exact .inl (.refl _)
      · obtain ⟨hmore, hcan⟩ := not_or.1 hstop
        have hlive := (h.plane.call c rest hw).live
        obtain ⟨e, did, s', he, hserves, hwork, -, -⟩ :=
          h.plane.iter_entry hL hw hmore (Bool.eq_true_of_not_eq_false hcan)
        rw [hwork]
        obtain ⟨d, qi, ring, idx, did₀⟩ := c
        obtain ⟨rfl, rfl⟩ : d = .blk ∧ qi = 0 := by simpa using hreg
        rw [h.posted, List.getElem?_map, Option.map_eq_some_iff] at he
        obtain ⟨p, hp, rfl⟩ := he
        exact .inr ⟨p, hp, hlive, hserves⟩

theorem BlkPlaneInv.work_sequential (hL : L.SetUp) (h : BlkPlaneInv L m₀ s₀ ps z k) :
    Sequential L s₀ ps z.plane.work.st := by
  rcases h.work_cases hL with hcalm | ⟨p, hp, hlive, hserves⟩
  · exact h.sequential.congr hcalm.layout hcalm.taken hcalm.calm
  · exact h.sequential.serve hL hlive hp hserves

theorem intAck_over (d : Dev) (val : BitVec 64) (s : St) :
    Over (fun _ => none) s ((virtioMmioWrite d vmmioIntAck 4 val).run s).2 ∧
      ((virtioMmioWrite d vmmioIntAck 4 val).run s).2.layout = s.layout := by
  obtain ⟨v, es, -, hrun⟩ := intAck_run d val s
  rw [hrun]
  have hlayout : (s.setDev d { s.dev d with intStatus := v }).layout = s.layout := layout_setDev fun _ => rfl
  exact ⟨⟨rfl, rfl, setIntStatus_vq v .blk 0, rfl, rfl⟩, hlayout⟩

theorem BlkPlaneInv.step {a : BlkNotifyAct} (hL : L.SetUp) (h : BlkPlaneInv L m₀ s₀ ps z k)
    (ha : a.Allowed L z) : ∃ k', BlkPlaneInv L m₀ s₀ (ps ++ a.posting.toList) (a.step z) k' := by
  obtain ⟨k', hplane⟩ := h.plane.step hL ha.1
  have hplane : PlaneInv L m₀ (a.step z) k' := hplane
  refine ⟨k', ?_⟩
  cases a with
  | post p =>
    have hle : (z.plane.st.taken .blk 0).length ≤ ps.length := by
      have hlaid := (h.plane.queues.laid .blk 0 ha.1.1).le
      rwa [h.posted, List.length_map] at hlaid
    refine ⟨hplane, ⟨h.only.count, h.only.regs⟩, ?_, h.sequential.post hle ((ha.2 p rfl).apart h.posted)⟩
    show z.posted.add .blk 0 p.entry .blk 0 = _
    unfold Posted.add
    rw [if_pos rfl, h.posted, List.map_append]
    rfl
  | notify =>
    simp only [BlkNotifyAct.posting, Option.toList_none, List.append_nil]
    have hstep : BlkNotifyAct.notify.step z = _ := @notify_step z .blk 0 Nat.one_pos
    rw [hstep] at hplane ⊢
    refine ⟨hplane, ⟨fun r hr => ?_, h.only.regs⟩, h.posted, h.sequential⟩
    show Function.update z.plane.count ⟨.blk, 0⟩ _ r = 0
    rw [Function.update_of_ne hr]
    exact h.only.count r hr
  | ack d val =>
    simp only [BlkNotifyAct.posting, Option.toList_none, List.append_nil]
    have hstep : (BlkNotifyAct.ack d val).step z = _ := ack_step d val
    rw [hstep] at hplane ⊢
    obtain ⟨hover, hlayout⟩ := intAck_over d val z.plane.st
    have hkept := (intAck_kept ∅ d val z.plane.st).1
    exact ⟨hplane, ⟨h.only.count, h.only.regs⟩, h.posted, h.sequential.congr hlayout (hkept.taken .blk 0) hover⟩
  | wake evs =>
    simp only [BlkNotifyAct.posting, Option.toList_none, List.append_nil]
    obtain ⟨-, -, -, hready⟩ : z.plane.Ready evs := ha.1
    refine ⟨hplane, ?_, h.posted, ?_⟩
    · show OnlyBlk ((PlaneAct.wake evs).step z.plane)
      unfold PlaneAct.step
      dsimp only
      split
      · refine ⟨h.only.count, fun r hr => ?_⟩
        -- only the counter of the block queue can be set
        by_contra hne
        exact absurd (h.only.count r hne) (hready r hr).2.ne'
      · exact h.only
    · show Sequential L s₀ ps ((PlaneAct.wake evs).step z.plane).st
      unfold PlaneAct.step
      dsimp only
      split
      · exact h.sequential
      · exact h.sequential
  | work =>
    simp only [BlkNotifyAct.posting, Option.toList_none, List.append_nil]
    exact ⟨hplane, h.only.work, h.posted, h.work_sequential hL⟩

theorem BlkPlaneInv.run {acts : List BlkNotifyAct} (hL : L.SetUp) (h : BlkPlaneInv L m₀ s₀ ps z k)
    (hacts : AllSteps BlkNotifyAct.step (BlkNotifyAct.Allowed L) z acts) :
    ∃ k', BlkPlaneInv L m₀ s₀ (ps ++ acts.filterMap BlkNotifyAct.posting)
      (runSteps BlkNotifyAct.step z acts) k' := by
  induction acts generalizing z ps k with
  | nil =>
    rw [List.filterMap_nil, List.append_nil]
    exact ⟨k, h⟩
  | cons a acts ih =>
    obtain ⟨k₁, h₁⟩ := h.step hL hacts.1
    obtain ⟨k', hrest⟩ := ih h₁ hacts.2
    refine ⟨k', ?_⟩
    rw [List.append_assoc] at hrest
    cases hp : a.posting <;> simpa [hp, runSteps] using hrest

/-- Once the worker has nothing left to do and knows of all postings, everything is as if the entries had been
posted and served in turn, however the driver and the worker took turns. -/
theorem worker_sequential {acts : List BlkNotifyAct} (hs : Started s₀) (hlive : s₀.layout.Live .blk 0)
    (h : AllSteps BlkNotifyAct.step (BlkNotifyAct.Allowed s₀.layout) s₀.planeRun acts)
    (hquiet : (runSteps BlkNotifyAct.step s₀.planeRun acts).plane.Quiescent)
    (htold : (runSteps BlkNotifyAct.step s₀.planeRun acts).told .blk 0 =
      ((runSteps BlkNotifyAct.step s₀.planeRun acts).posted .blk 0).length) :
    SameOutcome (sequential s₀ (acts.filterMap BlkNotifyAct.posting))
      (runSteps BlkNotifyAct.step s₀.planeRun acts).plane.st := by
  obtain ⟨k, hinv⟩ := hs.blkPlaneInv.run hs.setUp h
  have hposted := congrArg List.length hinv.posted
  have hle := (hinv.plane.queues.laid .blk 0 hlive).le
  rw [List.length_map] at hposted
  have hdone : ((runSteps BlkNotifyAct.step s₀.planeRun acts).plane.st.taken .blk 0).length =
      (acts.filterMap BlkNotifyAct.posting).length := by
    rcases hinv.plane.answered hquiet hlive with hanswered | ⟨hq, -⟩
    · exact (hle.antisymm (htold ▸ hanswered)).trans hposted
    · cases hq
  have hover := hinv.sequential.ahead
  rw [List.nil_append, hdone, List.drop_length, List.take_length] at hover
  exact (Over.refl _).outcome hover

theorem Offer.Fits.turn_allowed {o : Offer} (h : o.Fits ⟨z.plane.st, z.posted⟩)
    (hclears : o.Clears ⟨z.plane.st, z.posted⟩) : (BlkNotifyAct.post o.posting).Allowed diskQueue.layout z :=
  h.post_allowed hclears

/-- The worker is told of one entry and finds a second one, which is malformed.  While it passes over that, the driver
uses the descriptors of the first one again. -/
def firstTurns : List BlkNotifyAct :=
  [.post (writeOffer 0).posting, .notify, .wake [⟨.blk, 0⟩], .work, .post (loopOffer 1).posting, .work, .work,
    .post (readOffer 2).posting, .work, .notify, .work]

/-- It ends its call of `service_vq()`. -/
def endTurns : List BlkNotifyAct := .ack .blk 1 :: List.replicate 3 .work

/-- It is woken up again. -/
def lastTurns : List BlkNotifyAct := .wake [⟨.blk, 0⟩] :: List.replicate 7 .work

def diskTurns : List BlkNotifyAct := firstTurns ++ (endTurns ++ lastTurns)

theorem ready_of_count {x : DataPlane} (h : 0 < x.count ⟨.blk, 0⟩) : x.Ready [⟨.blk, 0⟩] := by
  refine ⟨by simp, by simp, by decide, fun r hr => ?_⟩
  obtain rfl := List.mem_singleton.1 hr
  exact ⟨by decide, h⟩

theorem allSteps_work (L : Layout) (n : Nat) (z : PlaneRun) :
    AllSteps BlkNotifyAct.step (BlkNotifyAct.Allowed L) z (List.replicate n .work) := by
  induction n generalizing z with
  | zero => trivial
  | succ n ih => exact ⟨⟨trivial, nofun⟩, ih _⟩

theorem firstTurns_allowed :
    AllSteps BlkNotifyAct.step (BlkNotifyAct.Allowed diskQueue.layout) diskQueue.planeRun firstTurns := by
  have hwork (z : PlaneRun) : BlkNotifyAct.work.Allowed diskQueue.layout z := ⟨trivial, nofun⟩
  exact ⟨Offer.Fits.turn_allowed (by decide +kernel) (by decide +kernel), ⟨Nat.one_pos, nofun⟩,
    ⟨ready_of_count (by decide +kernel), nofun⟩, hwork _,
    Offer.Fits.turn_allowed (by decide +kernel) (by decide +kernel), hwork _, hwork _,
    Offer.Fits.turn_allowed (by decide +kernel) (by decide +kernel), hwork _, ⟨Nat.one_pos, nofun⟩, hwork _, trivial⟩

theorem diskTurns_allowed :
    AllSteps BlkNotifyAct.step (BlkNotifyAct.Allowed diskQueue.layout) diskQueue.planeRun diskTurns := by
  have hready : 0 < (runSteps BlkNotifyAct.step (runSteps BlkNotifyAct.step diskQueue.planeRun firstTurns)
      endTurns).plane.count ⟨.blk, 0⟩ := by decide +kernel
  unfold diskTurns
  rw [allSteps_append, allSteps_append]
  exact ⟨firstTurns_allowed, ⟨⟨trivial, nofun⟩, allSteps_work ..⟩, ⟨ready_of_count hready, nofun⟩, allSteps_work ..⟩

theorem worker_sequential_turns :
    SameOutcome (sequential diskQueue [(writeOffer 0).posting, (loopOffer 1).posting, (readOffer 2).posting])
      (runSteps BlkNotifyAct.step diskQueue.planeRun diskTurns).plane.st := by
  have hlive : diskQueue.layout.Live .blk 0 := ⟨by decide, by decide⟩
  have hquiet : (runSteps BlkNotifyAct.step diskQueue.planeRun diskTurns).plane.Quiescent :=
    ⟨by decide +kernel, by decide +kernel⟩
  have htold : (runSteps BlkNotifyAct.step diskQueue.planeRun diskTurns).told .blk 0 =
      ((runSteps BlkNotifyAct.step diskQueue.planeRun diskTurns).posted .blk 0).length := by decide +kernel
  have hpostings : diskTurns.filterMap BlkNotifyAct.posting =
      [(writeOffer 0).posting, (loopOffer 1).posting, (readOffer 2).posting] := rfl
  rw [← hpostings]
  exact worker_sequential diskQueue_started hlive diskTurns_allowed hquiet htold

end MiniVirt.Vmm
