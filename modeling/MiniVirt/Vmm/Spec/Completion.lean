import MiniVirt.Lib.WriteLog
import MiniVirt.Vmm.Spec.Entries

/-!
# Completion of requests

The driver makes entries available, at most `num` at a time, and notifies; it may do so as often as it likes, so all the
16-bit indices wrap around.  In every state that is reached each queue has put the heads of the well-formed chains in
its used ring, in the order in which they were made available and each of them once, and a notification makes it serve
all that are outstanding (`virtqueue_completion`).
-/

namespace MiniVirt.Vmm

/-! ### Runs -/

/-- The driver makes the entry `e` available, after which guest RAM is `mem`, or it notifies. -/
inductive QueueAct where
  | post (d : Dev) (qi : Nat) (e : Entry) (mem : ByteMem)
  | notify (d : Dev) (qi : Nat)

/-- The program, and the entries that have been made available. -/
structure Driven where
  st : St
  posted : Posted

def Posted.add (posted : Posted) (d : Dev) (qi : Nat) (e : Entry) : Posted := fun d' qi' =>
  if (d', qi') = (d, qi) then posted d' qi' ++ [e] else posted d' qi'

def QueueAct.step (x : Driven) : QueueAct → Driven
  | .post d qi e mem => ⟨{ x.st with mem := mem }, x.posted.add d qi e⟩
  | .notify d qi => ⟨((serviceVq d qi).run x.st).2, x.posted⟩

/-- The driver does not write to the used rings, and afterwards the entries that are outstanding are laid out. -/
def QueueAct.Allowed (L : Layout) (x : Driven) : QueueAct → Prop
  | .post d qi e mem => L.Live d qi ∧ ∀ d' qi', L.Live d' qi' →
    (∀ a ∈ (L.vq d' qi').usedRing, mem a = x.st.mem a) ∧
      Laid L { x.st with mem := mem } (x.posted.add d qi e d' qi') d' qi'
  | .notify .. => True

/-- The queues are set up, and nothing has been made available yet. -/
structure Started (s : St) : Prop where
  setUp : s.layout.SetUp
  trace : s.trace = []
  last : ∀ d qi, s.layout.Live d qi → (s.vq d qi).lastAvailIdx = 0
  idx : ∀ d qi, s.layout.Live d qi → s.mem.load ((s.layout.vq d qi).avail.toNat + 2) 2 = 0

def St.driven (s : St) : Driven := ⟨s, fun _ _ => []⟩

/-! ### The law -/

/-- What queue `qi` of `d` has done since `s₀`. -/
structure CompletionLaw (s₀ : St) (x : Driven) (d : Dev) (qi : Nat) : Prop extends
    ExactlyOnce s₀.layout s₀.mem x.st (x.posted d qi) d qi where
  last : (x.st.vq d qi).lastAvailIdx = .ofNat 16 (x.st.taken d qi).length
  idx : (s₀.layout.vq d qi).usedIdx x.st.mem =
    ((s₀.layout.vq d qi).usedIdx s₀.mem + (x.st.elems d qi).length) % 65536
  /-- The last `num` elements are in the ring. -/
  slots : ∀ j e, (x.st.elems d qi)[j]? = some e → (x.st.elems d qi).length ≤ j + (s₀.layout.vq d qi).num.toNat →
    (s₀.layout.vq d qi).usedAt x.st.mem
      (((s₀.layout.vq d qi).usedIdx s₀.mem + j) % (s₀.layout.vq d qi).num.toNat) = (e.head.toNat, e.len.toNat)

/-- The bytes that the chain can receive. -/
def Entry.capacity (e : Entry) : Nat := e.chain.elim 0 fun ds => (segAddrs (chainSegs ds)).length

/-- When a notification for queue `qi` of `d` has been dealt with. -/
def Driven.notified (x : Driven) (d : Dev) (qi : Nat) : St := ((serviceVq d qi).run x.st).2

/-- The receive queue has no entry that is outstanding, or nothing is pending. -/
def ReceiveDone (x : Driven) (s : St) : Prop :=
  (s.taken .console 0).length = (x.posted .console 0).length ∨ s.conIn.count = 0

/-- What a notification does. -/
structure DrainLaw (L : Layout) (x : Driven) (d : Dev) (qi : Nat) : Prop where
  returns : ((serviceVq d qi).run x.st).1 = some ()
  drained : (d, qi) ≠ (.console, 0) → ((x.notified d qi).taken d qi).length = (x.posted d qi).length
  /-- The receive queue stops only if nothing is pending. -/
  receive : (d, qi) = (.console, 0) → ReceiveDone x (x.notified d qi)
  /-- And it does stop then: what the entries before it can receive is less than what was pending. -/
  pending : (d, qi) = (.console, 0) → ∀ j, (x.st.taken d qi).length + j < ((x.notified d qi).taken d qi).length →
    ((((x.posted d qi).drop (x.st.taken d qi).length).take j).map Entry.capacity).sum < x.st.conIn.count.toNat
  /-- A chain of the transmit queue makes the receive queue go on. -/
  echo : (d, qi) = (.console, 1) → L.Live .console 0 →
    ((x.notified d qi).elems d qi).length ≠ (x.st.elems d qi).length → ReceiveDone x (x.notified d qi)

/-! ### The invariant of a run -/

variable {s₀ s s' : St} {x : Driven} {L : Layout} {posted : Posted} {d : Dev} {qi : Nat}
  {handle : List Seg → V (Option (BitVec 32))}

theorem Started.inv (h : Started s₀) : QueueInv s₀.layout s₀.mem s₀.driven.posted s₀.driven.st := by
  have htaken (d : Dev) (qi : Nat) : s₀.taken d qi = [] := by
    unfold St.taken
    rw [h.trace]
    rfl
  have helems (d : Dev) (qi : Nat) : s₀.elems d qi = [] := by
    unfold St.elems
    rw [h.trace]
    rfl
  refine ⟨rfl, fun d qi hlive => ?_, fun d qi hlive => ?_, fun d qi hlive => ?_⟩
  · show (s₀.vq d qi).lastAvailIdx = .ofNat 16 (s₀.taken d qi).length
    rw [h.last d qi hlive, htaken]
    rfl
  · show Laid s₀.layout s₀ [] d qi
    refine ⟨?_, Nat.zero_le _, h.idx d qi hlive, fun i e _ he => ?_, fun e he => ?_, fun e he => ?_⟩
    · rw [htaken]
      exact le_rfl
    · cases he
    · rw [List.drop_nil] at he
      cases he
    · rw [List.drop_nil] at he
      cases he
  · show ExactlyOnce s₀.layout s₀.mem s₀ [] d qi
    refine ⟨?_, ?_, fun a _ => ?_⟩
    · rw [htaken]
      rfl
    · rw [helems, List.take_nil]
      rfl
    · rw [helems]
      rfl

theorem QueueInv.post {m₀ mem : ByteMem} {e : Entry} (h : QueueInv L m₀ x.posted x.st)
    (hpost : (QueueAct.post d qi e mem).Allowed L x) :
    QueueInv L m₀ (x.posted.add d qi e) { x.st with mem := mem } := by
  refine ⟨h.layout, h.last, fun d' qi' hlive => (hpost.2 d' qi' hlive).2, fun d' qi' hlive => ?_⟩
  have honce := h.once d' qi' hlive
  have hle := (h.laid d' qi' hlive).le
  -- the entries that the queue is done with are the same
  have htake : (x.posted.add d qi e d' qi').take (x.st.taken d' qi').length =
      (x.posted d' qi').take (x.st.taken d' qi').length := by
    unfold Posted.add
    split
    · exact List.take_append_of_le_length hle
    · rfl
  refine ⟨?_, ?_, fun a ha => ?_⟩
  · show x.st.taken d' qi' = ((x.posted.add d qi e d' qi').take (x.st.taken d' qi').length).map Entry.head
    rw [htake]
    exact honce.taken
  · show (x.st.elems d' qi').map UsedElem.head =
      (((x.posted.add d qi e d' qi').take (x.st.taken d' qi').length).filter Entry.wellFormed).map Entry.head
    rw [htake]
    exact honce.elems
  · exact ((hpost.2 d' qi' hlive).1 a ha).trans (honce.ring a ha)

theorem QueueInv.notify {m₀ : ByteMem} (hL : L.SetUp) (h : QueueInv L m₀ posted s) (d : Dev) (qi : Nat) :
    QueueInv L m₀ posted ((serviceVq d qi).run s).2 := by
  unfold serviceVq
  by_cases hlive : L.Live d qi
  · obtain ⟨s₁, s₂, did, hrun, hcall⟩ := serviceWith_entries hL hlive (devHandle_keeps hL hlive) h
    rw [hrun]
    exact hcall.inv.kept hL (raised_kept _ s₂ d did)
  · rw [serviceWith_of_not_live h.layout hlive]
    exact h

theorem runSteps_inv (hs : Started s₀) {acts : List QueueAct}
    (h : AllSteps QueueAct.step (QueueAct.Allowed s₀.layout) s₀.driven acts) :
    QueueInv s₀.layout s₀.mem (runSteps QueueAct.step s₀.driven acts).posted
      (runSteps QueueAct.step s₀.driven acts).st := by
  have hstep (x : Driven) (a : QueueAct) (hinv : QueueInv s₀.layout s₀.mem x.posted x.st)
      (hallowed : a.Allowed s₀.layout x) : QueueInv s₀.layout s₀.mem (a.step x).posted (a.step x).st := by
    cases a with
    | post d qi e mem => exact hinv.post hallowed
    | notify d qi => exact hinv.notify hs.setUp d qi
  have hstart : QueueInv s₀.layout s₀.mem s₀.driven.posted s₀.driven.st := hs.inv
  exact @AllSteps.inv _ _ _ (fun x => QueueInv s₀.layout s₀.mem x.posted x.st) _ hstep _ _ hstart h

theorem QueueInv.completionLaw (hL : s₀.layout.SetUp) (h : QueueInv s₀.layout s₀.mem x.posted x.st)
    (hlive : s₀.layout.Live d qi) : CompletionLaw s₀ x d qi := by
  have honce := h.once d qi hlive
  refine ⟨honce, h.last d qi hlive, ?_, fun j e hj hlast => ?_⟩
  · rw [Vq.usedIdx_congr honce.ring, Vq.usedIdx_pushElems]
  · rw [Vq.usedAt_congr honce.ring (Nat.mod_lt _ (hL.num_pos hlive))]
    exact Vq.usedAt_pushElems (hL.num_dvd hlive) hj hlast

/-! ### What a notification does -/

theorem count_eq_length (c : ConIn) : c.count.toNat = c.bytes.length := RingBuffer.length_contents.symm

theorem advance_conIn {slot : Nat} (head : BitVec 16) (s : St) :
    ((advance d qi slot head).run s).2.conIn = s.conIn := rfl

theorem pushUsed_conIn (head : BitVec 16) (len : BitVec 32) (s : St) :
    ((pushUsed d qi head len).run s).2.conIn = s.conIn := by
  exact keepsConIn_services.toTransfers.pushUsed (fun _ => rfl) s

theorem reads_conIn (h : reads.rel s s') : s'.conIn = s.conIn := by
  obtain ⟨es, rfl, -⟩ := h
  rfl

/-- Every entry that the receive queue serves finds something pending. -/
theorem ServesAll.pending {es : List Entry} (h : ServesAll L posted consoleReceive .console 0 es s s') :
    ∀ j < es.length, ((es.take j).map Entry.capacity).sum < s.conIn.bytes.length := by
  induction h with
  | nil => nofun
  | @cons e es s s₁ s₂ hcan hentry _ ih =>
    -- the entry would not have been served without a byte to deliver
    have hpos : 0 < s.conIn.bytes.length := by
      rw [← count_eq_length]
      apply Nat.pos_of_ne_zero
      intro hzero
      have hwait := devCanConsume_receive.2 (BitVec.eq_of_toNat_eq hzero)
      rw [hcan] at hwait
      cases hwait
    -- it has taken as many bytes as it has room for
    have hrest : s₁.conIn.bytes.length = s.conIn.bytes.length - e.capacity := by
      cases hentry with
      | malformed hchain hreads =>
        rw [advance_conIn, reads_conIn hreads, Entry.capacity, hchain]
        rfl
      | @served s₁ s₂ _ ds len hchain hreads hhandle =>
        obtain ⟨-, c, hrun, hc⟩ := receiveSegs_run (chainSegs ds) 0 s₁
        have hs₂ : s₂ = ((receiveSegs (chainSegs ds) 0).run s₁).2 := (congrArg Prod.snd hhandle).symm
        rw [advance_conIn, pushUsed_conIn, hs₂, hrun]
        show c.bytes.length = _
        rw [hc, List.length_drop, reads_conIn hreads, Entry.capacity, hchain]
        rfl
    intro j hj
    cases j with
    | zero => exact hpos
    | succ j =>
      have hlt := ih j (Nat.lt_of_succ_lt_succ hj)
      rw [List.take_succ_cons, List.map_cons, List.sum_cons]
      omega

theorem advance_echoed {slot : Nat} {head : BitVec 16} (h : Echoed L posted d qi s) :
    Echoed L posted d qi ((advance d qi slot head).run s).2 := by
  rintro rfl rfl hlive
  rw [advance_taken, if_neg (by simp), List.append_nil, advance_conIn]
  exact h rfl rfl hlive

/-- The transmit queue has not put anything in its used ring, or the receive queue has gone on. -/
theorem ServesAll.echoed {es : List Entry} {n : Nat} (h : ServesAll L posted handle d qi es s s')
    (hs : (s.elems d qi).length = n ∨ Echoed L posted d qi s) :
    (s'.elems d qi).length = n ∨ Echoed L posted d qi s' := by
  induction h with
  | nil => exact hs
  | cons _ hentry _ ih =>
    apply ih
    cases hentry with
    | malformed _ hreads =>
      rw [advance_elems, (Kept.of_reads (P := ∅) hreads).elems]
      refine hs.imp_right fun hecho => advance_echoed ?_
      intro hd hqi hlive
      rw [(Kept.of_reads (P := ∅) hreads).taken, reads_conIn hreads]
      exact hecho hd hqi hlive
    | @served s₁ s₂ _ ds len _ _ _ hecho =>
      refine .inr (advance_echoed fun hd hqi hlive => ?_)
      rw [pushUsed_conIn, pushUsed_taken]
      exact hecho hd hqi hlive

theorem QueueInv.drainLaw {m₀ : ByteMem} (hL : L.SetUp) (h : QueueInv L m₀ x.posted x.st) (hlive : L.Live d qi) :
    DrainLaw L x d qi := by
  obtain ⟨s₁, s₂, did, hrun, hcall⟩ := serviceWith_entries hL hlive (devHandle_keeps hL hlive) h
  have hrun : (serviceVq d qi).run x.st = (some (), s₂.raised d did) := hrun
  have hstate : x.notified d qi = s₂.raised d did := congrArg Prod.snd hrun
  have hraised := raised_kept ∅ s₂ d did
  have hreads := Kept.of_reads (P := ∅) hcall.reads
  obtain ⟨j, hlen, hall⟩ := hcall.serves
  refine ⟨congrArg Prod.fst hrun, fun hne => ?_, fun hq => ?_, fun hq i hi => ?_, fun hq hreceive hmore => ?_⟩
  · -- any other queue can always be consumed from
    rw [hstate, hraised.taken]
    apply hcall.drained.resolve_right
    rw [devCanConsume_of_ne hne]
    nofun
  · obtain ⟨rfl, rfl⟩ := Prod.mk.inj hq
    unfold ReceiveDone
    rw [hstate, hraised.taken, raised_conIn]
    exact hcall.drained.imp_right devCanConsume_receive.1
  · obtain ⟨rfl, rfl⟩ := Prod.mk.inj hq
    rw [hstate, hraised.taken, hlen] at hi
    have hle := (hcall.inv.laid .console 0 hlive).le
    rw [hlen] at hle
    have hpending := hall.pending i (by rw [List.length_take, List.length_drop]; omega)
    rw [List.take_take, Nat.min_eq_left (by omega), reads_conIn hcall.reads] at hpending
    rw [count_eq_length]
    exact hpending
  · obtain ⟨rfl, rfl⟩ := Prod.mk.inj hq
    have hdone := hall.echoed (n := (x.st.elems .console 1).length) (.inl (by rw [hreads.elems]))
    rw [hstate, hraised.elems] at hmore
    unfold ReceiveDone
    rw [hstate, hraised.taken, raised_conIn]
    exact hdone.resolve_left hmore rfl rfl hreceive

/-- Every entry is served once and in its turn, and a notification serves all that are outstanding. -/
theorem virtqueue_completion {acts : List QueueAct} (hs : Started s₀)
    (h : AllSteps QueueAct.step (QueueAct.Allowed s₀.layout) s₀.driven acts) (hlive : s₀.layout.Live d qi) :
    CompletionLaw s₀ (runSteps QueueAct.step s₀.driven acts) d qi ∧
      DrainLaw s₀.layout (runSteps QueueAct.step s₀.driven acts) d qi := by
  have hinv := runSteps_inv hs h
  exact ⟨hinv.completionLaw hs.setUp hlive, hinv.drainLaw hs.setUp hlive⟩

/-! ### A disk of one sector -/

/-- It has a queue of four entries. -/
def diskQueue : St :=
  let s : St := .initial (fun _ => 0) 0x4000000 (List.replicate 512 0xff) true fun _ => 0
  s.setDev .blk ((s.dev .blk).setVq 0
    { Vq.zero with num := 4, desc := 0x1000, avail := 0x2000, used := 0x3000, ready := 1 })

theorem diskQueue_live (h : diskQueue.layout.Live d qi) : d = .blk ∧ qi = 0 := by
  cases d with
  | blk => exact ⟨rfl, Nat.lt_one_iff.1 h.1⟩
  | console => exact absurd rfl h.2

theorem diskQueue_started : Started diskQueue := by
  refine ⟨⟨?_, ?_, ?_, ?_, ?_⟩, rfl, ?_, ?_⟩
  · intro d qi hlive
    obtain ⟨rfl, rfl⟩ := diskQueue_live hlive
    exact ⟨2, by decide, rfl⟩
  · intro d qi hlive
    obtain ⟨rfl, rfl⟩ := diskQueue_live hlive
    decide
  · intro d qi hlive
    obtain ⟨rfl, rfl⟩ := diskQueue_live hlive
    decide
  · intro d qi d' qi' hlive hlive'
    obtain ⟨rfl, rfl⟩ := diskQueue_live hlive
    obtain ⟨rfl, rfl⟩ := diskQueue_live hlive'
    apply Set.disjoint_left.2
    rintro a (⟨-, hlt⟩ | ⟨-, hlt⟩) ⟨hle, -⟩
    · exact absurd (Nat.lt_of_le_of_lt hle hlt) (by decide)
    · exact absurd (Nat.lt_of_le_of_lt hle hlt) (by decide)
  · intro d qi d' qi' hlive hlive' hne
    obtain ⟨rfl, rfl⟩ := diskQueue_live hlive
    obtain ⟨rfl, rfl⟩ := diskQueue_live hlive'
    exact absurd rfl hne
  · intro d qi hlive
    obtain ⟨rfl, rfl⟩ := diskQueue_live hlive
    rfl
  · intro d qi hlive
    obtain ⟨rfl, rfl⟩ := diskQueue_live hlive
    decide +kernel

theorem diskQueue_queueBytes {a : Nat} (h : a ∈ diskQueue.layout.queueBytes) : a < 0x4000 := by
  obtain ⟨d, qi, hlive, hring⟩ := h
  obtain ⟨rfl, rfl⟩ := diskQueue_live hlive
  rcases hring with (⟨-, hlt⟩ | ⟨-, hlt⟩) | ⟨-, hlt⟩
  · exact hlt.trans_le (by decide)
  · exact hlt.trans_le (by decide)
  · exact hlt.trans_le (by decide)

/-- An entry, and all that its driver writes to guest RAM to make it available. -/
structure Offer where
  entry : Entry
  writes : List (Nat × List (BitVec 8))

/-- The step that makes it available. -/
def Offer.act (o : Offer) (x : Driven) : QueueAct :=
  .post .blk 0 o.entry (x.st.mem.overlay (WriteLog.latest o.writes))

/-- The condition that `diskQueue` puts on it. -/
def Offer.Fits (o : Offer) (x : Driven) : Prop :=
  let ps := x.posted .blk 0 ++ [o.entry]
  let k := (x.st.taken .blk 0).length
  let m := x.st.mem.overlay (WriteLog.latest o.writes)
  (∀ w ∈ o.writes, w.1 + w.2.length ≤ 0x3000 ∨ 0x3024 ≤ w.1) ∧ k ≤ ps.length ∧ ps.length ≤ k + 4 ∧
    m.load 0x2002 2 = ps.length % 65536 ∧
    (∀ y ∈ ps.zipIdx.drop k, m.load (0x2004 + 2 * (y.2 % 4)) 2 = y.1.head.toNat) ∧
    (∀ e ∈ ps.drop k, e.InMem m 0x4000000 (diskQueue.layout.vq .blk 0)) ∧
    ∀ e ∈ ps.drop k, ∀ d ∈ e.chain.getD [], 0x4000 ≤ d.addr.toNat

instance Offer.Fits.decidable (o : Offer) (x : Driven) : Decidable (o.Fits x) := inferInstanceAs (Decidable (_ ∧ _))

theorem Offer.Fits.ring {o : Offer} (h : o.Fits x) :
    ∀ a ∈ (diskQueue.layout.vq .blk 0).usedRing, WriteLog.latest o.writes a = none := by
  rintro a ⟨hle, hlt⟩
  have hle : 0x3000 ≤ a := hle
  have hlt : a < 0x3024 := hlt
  apply WriteLog.latest_eq_none
  intro w hw
  have hring := h.1 w hw
  omega

theorem Offer.Fits.allowed {o : Offer} (h : o.Fits x) : (o.act x).Allowed diskQueue.layout x := by
  refine ⟨⟨by decide, by decide⟩, fun d qi hlive => ?_⟩
  obtain ⟨rfl, rfl⟩ := diskQueue_live hlive
  refine ⟨fun a ha => ByteMem.overlay_of_none (h.ring a ha) _, ?_⟩
  have hadd : x.posted.add .blk 0 o.entry .blk 0 = x.posted .blk 0 ++ [o.entry] := if_pos rfl
  rw [hadd]
  obtain ⟨-, hle, hroom, hidx, hslot, hentry, hbuffers⟩ := h
  exact Laid.of_behind rfl hle hroom hidx hslot hentry (fun a ha => diskQueue_queueBytes ha) hbuffers

/-- A descriptor in the table. -/
def Desc.toBytes (d : Desc) : List (BitVec 8) :=
  leBytes 8 d.addr.toNat ++ leBytes 4 d.len.toNat ++ leBytes 2 d.flags.toNat ++ leBytes 2 d.next.toNat

/-- The entry with number `k` in the avail ring. -/
def availWrites (k : Nat) (head : BitVec 16) : List (Nat × List (BitVec 8)) :=
  [(0x2004 + 2 * (k % 4), leBytes 2 head.toNat), (0x2002, leBytes 2 (k + 1))]

def writeHdr : Desc := ⟨0x4000, 16, 1, 1⟩

def writeData : Desc := ⟨0x4010, 512, 1, 2⟩

def writeStatus : Desc := ⟨0x4210, 1, 2, 0⟩

/-- The only sector is to be filled with zeros. -/
def writeOffer (k : Nat) : Offer where
  entry := ⟨0, some [writeHdr, writeData, writeStatus]⟩
  writes := (0x1000, writeHdr.toBytes) :: (0x1010, writeData.toBytes) :: (0x1020, writeStatus.toBytes) ::
    (0x4000, leBytes 16 virtioBlkTOut) :: (0x4010, List.replicate 512 0) :: availWrites k 0

def readHdr : Desc := ⟨0x5000, 16, 1, 1⟩

def readData : Desc := ⟨0x5010, 512, 3, 2⟩

def readStatus : Desc := ⟨0x5210, 1, 2, 0⟩

/-- The only sector is to be read; the descriptors of `writeOffer` are used again. -/
def readOffer (k : Nat) : Offer where
  entry := ⟨0, some [readHdr, readData, readStatus]⟩
  writes := (0x1000, readHdr.toBytes) :: (0x1010, readData.toBytes) :: (0x1020, readStatus.toBytes) ::
    (0x5000, leBytes 16 virtioBlkTIn) :: availWrites k 0

/-- A descriptor that is chained to itself. -/
def loopOffer (k : Nat) : Offer where
  entry := ⟨3, none⟩
  writes := (0x1030, (Desc.mk 0x6000 1 1 3).toBytes) :: availWrites k 3

/-- The steps of a driver that makes these available; it notifies where there is `none`. -/
def offerActs (x : Driven) : List (Option Offer) → List QueueAct
  | [] => []
  | none :: os => .notify .blk 0 :: offerActs ((QueueAct.notify .blk 0).step x) os
  | some o :: os => o.act x :: offerActs ((o.act x).step x) os

def OffersFit (x : Driven) : List (Option Offer) → Prop
  | [] => True
  | none :: os => OffersFit ((QueueAct.notify .blk 0).step x) os
  | some o :: os => o.Fits x ∧ OffersFit ((o.act x).step x) os

instance OffersFit.decidable (x : Driven) : (os : List (Option Offer)) → Decidable (OffersFit x os)
  | [] => inferInstanceAs (Decidable True)
  | none :: os => OffersFit.decidable ((QueueAct.notify .blk 0).step x) os
  | some o :: os => @instDecidableAnd _ _ _ (OffersFit.decidable ((o.act x).step x) os)

theorem OffersFit.allowed {os : List (Option Offer)} (h : OffersFit x os) :
    AllSteps QueueAct.step (QueueAct.Allowed diskQueue.layout) x (offerActs x os) := by
  induction os generalizing x with
  | nil => trivial
  | cons o os ih =>
    cases o with
    | none => exact ⟨trivial, ih h⟩
    | some o => exact ⟨h.1.allowed, ih h.2⟩

/-- Five entries, two of which are malformed.  The last one is in the slot of the first one, and is left to the next
notification. -/
theorem virtqueue_completion_offers :
    let x := runSteps QueueAct.step diskQueue.driven
      (offerActs diskQueue.driven
        [some (writeOffer 0), some (loopOffer 1), none, some (readOffer 2), some (loopOffer 3), none,
          some (writeOffer 4)])
    CompletionLaw diskQueue x .blk 0 ∧ DrainLaw diskQueue.layout x .blk 0 :=
  virtqueue_completion diskQueue_started (OffersFit.allowed (by decide +kernel)) ⟨by decide, by decide⟩

end MiniVirt.Vmm
