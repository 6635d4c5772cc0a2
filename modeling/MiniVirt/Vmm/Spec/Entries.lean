import MiniVirt.Vmm.Spec.UsedRing
import Mathlib.Data.Set.BooleanAlgebra
import Mathlib.Order.CompletePartialOrder

/-!
# The entries of an avail ring

The driver makes chains available by their heads, in the order of the avail ring, and does not touch them until the
device is done with them (`Laid`).  `service_vq()` then serves these entries one by one, each chain by the handler and
then in the used ring, and passes over the malformed ones (`serviceWith_run`).  `QueueInv` is the invariant that carries
this from one call to the next: which entries a queue is done with, and which elements its used ring has got for them.
-/

namespace MiniVirt.Vmm

/-! ### What a queue has done -/

/-- The heads of the entries that queue `qi` of `d` is done with. -/
def takenHeads (d : Dev) (qi : Nat) (es : List Event) : List (BitVec 16) :=
  es.filterMap fun
    | .consumed d' qi' _ head => if d' = d ∧ qi' = qi then some head else none
    | _ => none

/-- The elements that it has put in its used ring. -/
def usedElems (d : Dev) (qi : Nat) (es : List Event) : List UsedElem :=
  es.filterMap fun
    | .used d' qi' head len => if d' = d ∧ qi' = qi then some ⟨head, len⟩ else none
    | _ => none

def St.taken (s : St) (d : Dev) (qi : Nat) : List (BitVec 16) := takenHeads d qi s.trace

def St.elems (s : St) (d : Dev) (qi : Nat) : List UsedElem := usedElems d qi s.trace

/-! ### What the driver guarantees -/

/-- The bytes of a queue that only the driver writes: the descriptor table and the avail ring. -/
def Vq.driverBytes (vq : Vq) : Set Nat :=
  Set.Ico vq.desc.toNat (vq.desc.toNat + 16 * vq.num.toNat) ∪
    Set.Ico vq.avail.toNat (vq.avail.toNat + (4 + 2 * vq.num.toNat))

/-- The queue is enabled. -/
def Layout.Live (L : Layout) (d : Dev) (qi : Nat) : Prop := qi < d.nqueues ∧ (L.vq d qi).ready ≠ 0

/-- The bytes of the enabled queues. -/
def Layout.queueBytes (L : Layout) : Set Nat :=
  {a | ∃ d qi, L.Live d qi ∧ (a ∈ (L.vq d qi).driverBytes ∨ a ∈ (L.vq d qi).usedRing)}

/-- The size of every queue is a power of two up to 256; its rings lie in guest RAM, and no used ring overlaps
anything else that belongs to a queue. -/
structure Layout.SetUp (L : Layout) : Prop where
  num : ∀ d qi, L.Live d qi → ∃ k ≤ 8, (L.vq d qi).num.toNat = 2 ^ k
  avail : ∀ d qi, L.Live d qi → (L.vq d qi).avail.toNat + (4 + 2 * (L.vq d qi).num.toNat) ≤ L.memSize.toNat
  used : ∀ d qi, L.Live d qi → (L.vq d qi).used.toNat + (4 + 8 * (L.vq d qi).num.toNat) ≤ L.memSize.toNat
  driverApart : ∀ d qi d' qi', L.Live d qi → L.Live d' qi' → Disjoint (L.vq d qi).driverBytes (L.vq d' qi').usedRing
  usedApart : ∀ d qi d' qi', L.Live d qi → L.Live d' qi' → (d', qi') ≠ (d, qi) →
    Disjoint (L.vq d qi).usedRing (L.vq d' qi').usedRing

/-- An entry of the avail ring: a head, and the chain that it is the head of, if it is one. -/
structure Entry where
  head : BitVec 16
  chain : Option (List Desc)

def Entry.wellFormed (e : Entry) : Bool := e.chain.isSome

/-- The descriptor table has this entry. -/
def Entry.InMem (e : Entry) (m : ByteMem) (memSize : BitVec 64) (vq : Vq) : Prop :=
  ∀ ds, ChainAt m memSize vq e.head ds ↔ e.chain = some ds

/-- The buffers.  A status goes to the first byte of a buffer even if it is empty. -/
def chainBytes (ds : List Desc) : Set Nat :=
  {a | ∃ d ∈ ds, d.addr.toNat ≤ a ∧ a < d.addr.toNat + max 1 d.len.toNat}

/-- The entries `ps` have been made available in queue `qi` of `d`, at most `num` of them are outstanding, and these are
in memory, with buffers that do not overlap a queue. -/
structure Laid (L : Layout) (s : St) (ps : List Entry) (d : Dev) (qi : Nat) : Prop where
  le : (s.taken d qi).length ≤ ps.length
  room : ps.length ≤ (s.taken d qi).length + (L.vq d qi).num.toNat
  idx : s.mem.load ((L.vq d qi).avail.toNat + 2) 2 = ps.length % 65536
  slot : ∀ i e, (s.taken d qi).length ≤ i → ps[i]? = some e →
    s.mem.load ((L.vq d qi).avail.toNat + 4 + 2 * (i % (L.vq d qi).num.toNat)) 2 = e.head.toNat
  entry : ∀ e ∈ ps.drop (s.taken d qi).length, e.InMem s.mem L.memSize (L.vq d qi)
  apart : ∀ e ∈ ps.drop (s.taken d qi).length, ∀ ds, e.chain = some ds → ∀ a ∈ chainBytes ds, a ∉ L.queueBytes

/-! ### The invariant -/

/-- Of the entries `ps` the queue is done with the first ones, its used ring has got the heads of the well-formed ones
among them, in this order, and nothing else has been written to the ring since it was as in `m₀`. -/
structure ExactlyOnce (L : Layout) (m₀ : ByteMem) (s : St) (ps : List Entry) (d : Dev) (qi : Nat) : Prop where
  taken : s.taken d qi = (ps.take (s.taken d qi).length).map Entry.head
  elems : (s.elems d qi).map UsedElem.head =
    ((ps.take (s.taken d qi).length).filter Entry.wellFormed).map Entry.head
  ring : ∀ a ∈ (L.vq d qi).usedRing, s.mem a = (L.vq d qi).pushElems m₀ (s.elems d qi) a

/-- The entries that have been made available in each queue. -/
abbrev Posted := Dev → Nat → List Entry

structure QueueInv (L : Layout) (m₀ : ByteMem) (posted : Posted) (s : St) : Prop where
  layout : s.layout = L
  last : ∀ d qi, L.Live d qi → (s.vq d qi).lastAvailIdx = .ofNat 16 (s.taken d qi).length
  laid : ∀ d qi, L.Live d qi → Laid L s (posted d qi) d qi
  once : ∀ d qi, L.Live d qi → ExactlyOnce L m₀ s (posted d qi) d qi

/-! ### Service -/

/-- After a chain of the transmit queue: the receive queue has no entry that is outstanding, or there is nothing to
deliver. -/
def Echoed (L : Layout) (posted : Posted) (d : Dev) (qi : Nat) (s : St) : Prop :=
  d = .console → qi = 1 → L.Live .console 0 →
    (s.taken .console 0).length = (posted .console 0).length ∨ s.conIn.count = 0

/-- An entry is passed over, or its chain goes to the handler and then to the used ring. -/
inductive ServesEntry (L : Layout) (posted : Posted) (handle : List Seg → V (Option (BitVec 32))) (d : Dev) (qi : Nat)
    (e : Entry) (s : St) : St → Prop
  | malformed {s₁ : St} {slot : Nat} (hchain : e.chain = none) (hreads : reads.rel s s₁) :
      ServesEntry L posted handle d qi e s ((advance d qi slot e.head).run s₁).2
  | served {s₁ s₂ : St} {slot : Nat} {ds : List Desc} {len : BitVec 32} (hchain : e.chain = some ds)
      (hreads : reads.rel s s₁)
      (hhandle : (handle (chainSegs ds)).run s₁ = (some len, s₂)) (hecho : Echoed L posted d qi s₂) :
      ServesEntry L posted handle d qi e s ((advance d qi slot e.head).run ((pushUsed d qi e.head len).run s₂).2).2

/-- The entries are served one after the other. -/
inductive ServesAll (L : Layout) (posted : Posted) (handle : List Seg → V (Option (BitVec 32))) (d : Dev) (qi : Nat) :
    List Entry → St → St → Prop
  | nil {s : St} : ServesAll L posted handle d qi [] s s
  | cons {e : Entry} {es : List Entry} {s s₁ s₂ : St} (hcan : devCanConsume s d qi = true)
      (hentry : ServesEntry L posted handle d qi e s s₁) (hrest : ServesAll L posted handle d qi es s₁ s₂) :
      ServesAll L posted handle d qi (e :: es) s s₂

/-- The handler returns for every chain whose buffers do not overlap a queue, and keeps the invariant. -/
def KeepsQueues (L : Layout) (m₀ : ByteMem) (posted : Posted) (handle : List Seg → V (Option (BitVec 32))) (d : Dev)
    (qi : Nat) : Prop :=
  ∀ s ds, QueueInv L m₀ posted s → (∀ a ∈ chainBytes ds, a ∉ L.queueBytes) →
    ∃ len s', (handle (chainSegs ds)).run s = (some len, s') ∧ QueueInv L m₀ posted s' ∧
      s'.taken d qi = s.taken d qi ∧ Echoed L posted d qi s'

variable {L : Layout} {m₀ : ByteMem} {posted : Posted} {s s' : St} {d : Dev} {qi : Nat}

/-! ### What can be computed -/

theorem Entry.inMem_iff {e : Entry} {m : ByteMem} {memSize : BitVec 64} {vq : Vq} :
    e.InMem m memSize vq ↔ chainOf m memSize vq e.head = e.chain := by
  simp only [Entry.InMem, chainAt_iff]
  exact Option.ext_iff.symm

instance (e : Entry) (m : ByteMem) (memSize : BitVec 64) (vq : Vq) : Decidable (e.InMem m memSize vq) :=
  decidable_of_iff _ Entry.inMem_iff.symm

/-- Entries whose buffers are all behind the queues. -/
theorem Laid.of_behind {ps : List Entry} {k top : Nat} (hk : (s.taken d qi).length = k) (hle : k ≤ ps.length)
    (hroom : ps.length ≤ k + (L.vq d qi).num.toNat)
    (hidx : s.mem.load ((L.vq d qi).avail.toNat + 2) 2 = ps.length % 65536)
    (hslot : ∀ x ∈ ps.zipIdx.drop k,
      s.mem.load ((L.vq d qi).avail.toNat + 4 + 2 * (x.2 % (L.vq d qi).num.toNat)) 2 = x.1.head.toNat)
    (hentry : ∀ e ∈ ps.drop k, e.InMem s.mem L.memSize (L.vq d qi))
    (hqueues : ∀ a ∈ L.queueBytes, a < top)
    (hbuffers : ∀ e ∈ ps.drop k, ∀ d ∈ e.chain.getD [], top ≤ d.addr.toNat) : Laid L s ps d qi := by
  subst hk
  refine ⟨hle, hroom, hidx, fun i e hi he => ?_, hentry, fun e he ds hds a ha hqueue => ?_⟩
  · refine hslot (e, i) (List.mem_iff_getElem?.2 ⟨i - (s.taken d qi).length, ?_⟩)
    rw [List.getElem?_drop, Nat.add_sub_cancel' hi, List.getElem?_zipIdx, he]
    simp
  · obtain ⟨d, hd, hle, -⟩ := ha
    have hbehind := hbuffers e he d (by rwa [hds])
    exact absurd (hqueues a hqueue) (Nat.not_lt.2 (hbehind.trans hle))

/-! ### What leaves the queues alone -/

/-- The queues, the bytes `P` and the reports are the same. -/
structure Kept (P : Set Nat) (s s' : St) : Prop where
  memSize : s'.memSize = s.memSize
  vq : ∀ d qi, s'.vq d qi = s.vq d qi
  mem : ∀ a ∈ P, s'.mem a = s.mem a
  taken : ∀ d qi, s'.taken d qi = s.taken d qi
  elems : ∀ d qi, s'.elems d qi = s.elems d qi

theorem takenHeads_append (d : Dev) (qi : Nat) (es es' : List Event) :
    takenHeads d qi (es ++ es') = takenHeads d qi es ++ takenHeads d qi es' := List.filterMap_append

theorem usedElems_append (d : Dev) (qi : Nat) (es es' : List Event) :
    usedElems d qi (es ++ es') = usedElems d qi es ++ usedElems d qi es' := List.filterMap_append

theorem takenHeads_of_not_queue {es : List Event} (h : ∀ e ∈ es, e.isQueue = false) (d : Dev) (qi : Nat) :
    takenHeads d qi es = [] := by
  apply List.filterMap_eq_nil_iff.2
  intro e he
  have hno := h e he
  cases e <;> first | rfl | cases hno

theorem usedElems_of_not_queue {es : List Event} (h : ∀ e ∈ es, e.isQueue = false) (d : Dev) (qi : Nat) :
    usedElems d qi es = [] := by
  apply List.filterMap_eq_nil_iff.2
  intro e he
  have hno := h e he
  cases e <;> first | rfl | cases hno

theorem Kept.of_trace {P : Set Nat} {es : List Event} (hsize : s'.memSize = s.memSize)
    (hvq : ∀ d qi, s'.vq d qi = s.vq d qi) (hmem : ∀ a ∈ P, s'.mem a = s.mem a) (htrace : s'.trace = s.trace ++ es)
    (hes : ∀ e ∈ es, e.isQueue = false) : Kept P s s' := by
  refine ⟨hsize, hvq, hmem, fun d qi => ?_, fun d qi => ?_⟩
  · unfold St.taken
    rw [htrace, takenHeads_append, takenHeads_of_not_queue hes, List.append_nil]
  · unfold St.elems
    rw [htrace, usedElems_append, usedElems_of_not_queue hes, List.append_nil]

theorem Kept.of_work {P : Set Nat} (h : Work s s') (hmem : ∀ a ∈ P, s'.mem a = s.mem a) : Kept P s s' := by
  obtain ⟨es, htrace, hes⟩ := h.trace
  refine .of_trace h.memSize (fun d qi => ?_) hmem htrace hes
  unfold St.vq
  rw [h.dev]

theorem Kept.of_reads {P : Set Nat} (h : reads.rel s s') : Kept P s s' := by
  obtain ⟨es, rfl, hes⟩ := h
  refine .of_trace rfl (fun _ _ => rfl) (fun _ _ => rfl) rfl fun e he => ?_
  have hread := hes e he
  cases e <;> first | rfl | cases hread

theorem Entry.InMem.congr {e : Entry} {m m' : ByteMem} {memSize : BitVec 64} {vq : Vq} (h : e.InMem m memSize vq)
    (hmem : ∀ a ∈ vq.driverBytes, m' a = m a) : e.InMem m' memSize vq := by
  intro ds
  rw [← h ds]
  have htable : ∀ i, vq.desc.toNat ≤ i → i < vq.desc.toNat + 16 * vq.num.toNat → m' i = m i :=
    fun i hi hi' => hmem i (.inl ⟨hi, hi'⟩)
  constructor
  · rintro ⟨hram, hchain⟩
    exact ⟨hram, hchain.congr fun i hi hi' => (htable i hi hi').symm⟩
  · rintro ⟨hram, hchain⟩
    exact ⟨hram, hchain.congr htable⟩

/-- What the driver has laid out stays while the device moves on, since the device does not write there. -/
theorem Laid.congr {ps : List Entry} (h : Laid L s ps d qi) (hmem : ∀ a ∈ (L.vq d qi).driverBytes, s'.mem a = s.mem a)
    (hnum : 0 < (L.vq d qi).num.toNat) (hle : (s.taken d qi).length ≤ (s'.taken d qi).length)
    (hle' : (s'.taken d qi).length ≤ ps.length) : Laid L s' ps d qi := by
  have hdrop {e : Entry} (he : e ∈ ps.drop (s'.taken d qi).length) : e ∈ ps.drop (s.taken d qi).length := by
    obtain ⟨k, hk⟩ := Nat.exists_eq_add_of_le hle
    rw [hk, ← List.drop_drop] at he
    exact List.mem_of_mem_drop he
  have havail (a : Nat) (ha : (L.vq d qi).avail.toNat ≤ a)
      (ha' : a < (L.vq d qi).avail.toNat + (4 + 2 * (L.vq d qi).num.toNat)) : s'.mem a = s.mem a :=
    hmem a (.inr ⟨ha, ha'⟩)
  have hroom := h.room
  refine ⟨hle', by omega, ?_, fun i e hi he => ?_, fun e he => ?_, fun e he => h.apart e (hdrop he)⟩
  · rw [← h.idx]
    exact ByteMem.load_congr fun i hi hi' => havail i (by omega) (by omega)
  · have hslot := Nat.mod_lt i hnum
    rw [← h.slot i e (by omega) he]
    exact ByteMem.load_congr fun i hi hi' => havail i (by omega) (by omega)
  · exact (h.entry e (hdrop he)).congr hmem

theorem Layout.SetUp.num_pos (hL : L.SetUp) (hlive : L.Live d qi) : 0 < (L.vq d qi).num.toNat := by
  obtain ⟨k, -, hk⟩ := hL.num d qi hlive
  rw [hk]
  exact Nat.two_pow_pos k

theorem QueueInv.kept (hL : L.SetUp) (h : QueueInv L m₀ posted s) (hk : Kept L.queueBytes s s') :
    QueueInv L m₀ posted s' := by
  refine ⟨?_, fun d qi hlive => ?_, fun d qi hlive => ?_, fun d qi hlive => ?_⟩
  · rw [← h.layout]
    unfold St.layout
    rw [hk.memSize]
    exact congrArg (Layout.mk s.memSize) (funext fun d => funext fun qi => congrArg Vq.config (hk.vq d qi))
  · rw [hk.vq, hk.taken]
    exact h.last d qi hlive
  · have hlaid := h.laid d qi hlive
    apply hlaid.congr (fun a ha => hk.mem a ⟨d, qi, hlive, .inl ha⟩) (hL.num_pos hlive)
    · rw [hk.taken]
    · rw [hk.taken]
      exact hlaid.le
  · have honce := h.once d qi hlive
    refine ⟨?_, ?_, fun a ha => ?_⟩
    · rw [hk.taken]
      exact honce.taken
    · rw [hk.taken, hk.elems]
      exact honce.elems
    · rw [hk.elems, hk.mem a ⟨d, qi, hlive, .inr ha⟩]
      exact honce.ring a ha

/-! ### An entry more -/

/-- The queue is done with the entry at `head`, and has put the elements `new` in its used ring. -/
structure Completed (L : Layout) (d : Dev) (qi : Nat) (head : BitVec 16) (new : List UsedElem) (s s' : St) : Prop where
  layout : s'.layout = s.layout
  last : (s'.vq d qi).lastAvailIdx = (s.vq d qi).lastAvailIdx + 1
  taken : s'.taken d qi = s.taken d qi ++ [head]
  elems : s'.elems d qi = s.elems d qi ++ new
  mem : s'.mem = (L.vq d qi).pushElems s.mem new
  others : ∀ d' qi', (d', qi') ≠ (d, qi) →
    (s'.vq d' qi').lastAvailIdx = (s.vq d' qi').lastAvailIdx ∧ s'.taken d' qi' = s.taken d' qi' ∧
      s'.elems d' qi' = s.elems d' qi'

theorem advance_run (d : Dev) (qi slot : Nat) (head : BitVec 16) (s : St) :
    ((advance d qi slot head).run s).2 =
      (s.setDev d ((s.dev d).setVq qi { s.vq d qi with lastAvailIdx := (s.vq d qi).lastAvailIdx + 1 })).log
        (.consumed d qi slot head) := rfl

theorem advance_vq_self (d : Dev) (qi slot : Nat) (head : BitVec 16) (s : St) :
    ((advance d qi slot head).run s).2.vq d qi = { s.vq d qi with lastAvailIdx := (s.vq d qi).lastAvailIdx + 1 } := by
  rw [advance_run]
  show (s.setDev d _).vq d qi = _
  rw [vq_setDev_self, VirtioDev.vq_setVq_self]

theorem advance_vq_of_ne {slot : Nat} {d' : Dev} {qi' : Nat} (h : (d', qi') ≠ (d, qi)) (head : BitVec 16) (s : St) :
    ((advance d qi slot head).run s).2.vq d' qi' = s.vq d' qi' := by
  rw [advance_run]
  show (s.setDev d _).vq d' qi' = _
  by_cases hd : d' = d
  · subst hd
    have hqi : qi' ≠ qi := fun hqi => h (by rw [hqi])
    rw [vq_setDev_self, VirtioDev.vq_setVq_of_ne hqi]
    rfl
  · exact vq_setDev_of_ne hd ..

theorem advance_taken {slot : Nat} (d' : Dev) (qi' : Nat) (head : BitVec 16) (s : St) :
    ((advance d qi slot head).run s).2.taken d' qi' =
      s.taken d' qi' ++ if (d', qi') = (d, qi) then [head] else [] := by
  unfold St.taken
  rw [advance_run]
  show takenHeads d' qi' (s.trace ++ [.consumed d qi slot head]) = _
  rw [takenHeads_append]
  by_cases h : (d', qi') = (d, qi)
  · obtain ⟨rfl, rfl⟩ := Prod.mk.inj h
    simp [takenHeads]
  · have hne : ¬(d = d' ∧ qi = qi') := fun heq => h (by rw [heq.1, heq.2])
    simp [takenHeads, h, hne]

theorem advance_elems {slot : Nat} (d' : Dev) (qi' : Nat) (head : BitVec 16) (s : St) :
    ((advance d qi slot head).run s).2.elems d' qi' = s.elems d' qi' := by
  unfold St.elems
  rw [advance_run]
  show usedElems d' qi' (s.trace ++ [.consumed d qi slot head]) = _
  rw [usedElems_append]
  exact List.append_nil _

theorem advance_completed (L : Layout) (d : Dev) (qi slot : Nat) (head : BitVec 16) (s : St) :
    Completed L d qi head [] s ((advance d qi slot head).run s).2 := by
  refine ⟨((serves_services d).advance qi slot head s).layout, ?_, ?_, ?_, rfl, fun d' qi' hne => ⟨?_, ?_, ?_⟩⟩
  · rw [advance_vq_self]
  · rw [advance_taken, if_pos rfl]
  · rw [advance_elems, List.append_nil]
  · rw [advance_vq_of_ne hne]
  · rw [advance_taken, if_neg hne, List.append_nil]
  · rw [advance_elems]

theorem pushEvents_elems (d' : Dev) (qi' : Nat) (vq : Vq) (m : ByteMem) (e : UsedElem) :
    usedElems d' qi' (pushEvents d qi vq m e) = if (d', qi') = (d, qi) then [e] else [] := by
  by_cases h : (d', qi') = (d, qi)
  · obtain ⟨rfl, rfl⟩ := Prod.mk.inj h
    simp [pushEvents, usedElems]
  · have hne : ¬(d = d' ∧ qi = qi') := fun heq => h (by rw [heq.1, heq.2])
    simp [pushEvents, usedElems, h, hne]

theorem pushUsed_completed (hL : L.SetUp) (hs : s.layout = L) (hlive : L.Live d qi) (slot : Nat) (head : BitVec 16)
    (len : BitVec 32) :
    Completed L d qi head [⟨head, len⟩] s ((advance d qi slot head).run ((pushUsed d qi head len).run s).2).2 := by
  have hconfig := layout_vq hs d qi
  have hram := hL.used d qi hlive
  rw [← hconfig, ← layout_memSize hs] at hram
  have hrun := pushUsed_run hram head len
  generalize ((pushUsed d qi head len).run s).2 = s₁ at hrun
  have hvq (d' : Dev) (qi' : Nat) : s₁.vq d' qi' = s.vq d' qi' := by
    rw [hrun]
    rfl
  have htaken (d' : Dev) (qi' : Nat) : s₁.taken d' qi' = s.taken d' qi' := by
    unfold St.taken
    rw [hrun, takenHeads_append]
    exact List.append_nil _
  have helems (d' : Dev) (qi' : Nat) :
      s₁.elems d' qi' = s.elems d' qi' ++ if (d', qi') = (d, qi) then [⟨head, len⟩] else [] := by
    unfold St.elems
    rw [hrun, usedElems_append, pushEvents_elems]
  -- `last_avail_idx` goes on; the element is there already
  obtain ⟨hlayout, hlast, htaken', helems', hmem, hothers⟩ := advance_completed L d qi slot head s₁
  refine ⟨?_, ?_, ?_, ?_, ?_, fun d' qi' hne => ?_⟩
  · rw [hlayout, hrun]
    rfl
  · rw [hlast, hvq]
  · rw [htaken', htaken]
  · rw [helems', helems, if_pos rfl, List.append_nil]
  · rw [hmem, hrun, ← hconfig]
    rfl
  · obtain ⟨hlast', htaken', helems'⟩ := hothers d' qi' hne
    rw [hlast', htaken', helems', hvq, htaken, helems, if_neg hne, List.append_nil]
    exact ⟨rfl, rfl, rfl⟩

theorem QueueInv.completed {e : Entry} {new : List UsedElem} (hL : L.SetUp) (h : QueueInv L m₀ posted s)
    (hlive : L.Live d qi) (he : (posted d qi)[(s.taken d qi).length]? = some e)
    (hnew : new.map UsedElem.head = ([e].filter Entry.wellFormed).map Entry.head)
    (hc : Completed L d qi e.head new s s') : QueueInv L m₀ posted s' := by
  have hlt := (List.getElem?_eq_some_iff.1 he).1
  have htake : (posted d qi).take (s'.taken d qi).length = (posted d qi).take (s.taken d qi).length ++ [e] := by
    rw [hc.taken, List.length_append, List.length_singleton, List.take_add_one, he]
    rfl
  -- the used ring is no part of what the driver has written
  have hdriver {d' : Dev} {qi' : Nat} (hlive' : L.Live d' qi') :
      ∀ a ∈ (L.vq d' qi').driverBytes, s'.mem a = s.mem a := by
    intro a ha
    rw [hc.mem]
    apply Vq.pushElems_of_not_mem (hL.num_pos hlive)
    exact Set.disjoint_left.1 (hL.driverApart d' qi' d qi hlive' hlive) ha
  refine ⟨hc.layout.trans h.layout, fun d' qi' hlive' => ?_, fun d' qi' hlive' => ?_, fun d' qi' hlive' => ?_⟩
  -- each property for the queue itself, and for the others
  all_goals by_cases hq : (d', qi') = (d, qi)
  · obtain ⟨rfl, rfl⟩ := Prod.mk.inj hq
    rw [hc.last, h.last d' qi' hlive', hc.taken, List.length_append, List.length_singleton, BitVec.ofNat_add]
    rfl
  · obtain ⟨hlast, htaken, -⟩ := hc.others d' qi' hq
    rw [hlast, htaken]
    exact h.last d' qi' hlive'
  · obtain ⟨rfl, rfl⟩ := Prod.mk.inj hq
    apply (h.laid d' qi' hlive').congr (hdriver hlive') (hL.num_pos hlive')
    · rw [hc.taken, List.length_append]
      exact Nat.le_add_right _ _
    · rw [hc.taken, List.length_append, List.length_singleton]
      exact hlt
  · obtain ⟨-, htaken, -⟩ := hc.others d' qi' hq
    apply (h.laid d' qi' hlive').congr (hdriver hlive') (hL.num_pos hlive')
    · rw [htaken]
    · rw [htaken]
      exact (h.laid d' qi' hlive').le
  · obtain ⟨rfl, rfl⟩ := Prod.mk.inj hq
    have honce := h.once d' qi' hlive'
    refine ⟨?_, ?_, fun a ha => ?_⟩
    · rw [htake, List.map_append, ← honce.taken, hc.taken]
      rfl
    · rw [htake, List.filter_append, List.map_append, ← honce.elems, hc.elems, List.map_append, hnew]
    · rw [hc.mem, hc.elems, Vq.pushElems_append]
      exact Vq.pushElems_congr honce.ring new a ha
  · obtain ⟨-, htaken, helems⟩ := hc.others d' qi' hq
    have honce := h.once d' qi' hlive'
    refine ⟨?_, ?_, fun a ha => ?_⟩
    · rw [htaken]
      exact honce.taken
    · rw [htaken, helems]
      exact honce.elems
    · have hout := Set.disjoint_right.1 (hL.usedApart d qi d' qi' hlive hlive' hq) ha
      rw [helems, hc.mem, Vq.pushElems_of_not_mem (hL.num_pos hlive) hout]
      exact honce.ring a ha

/-! ### Rounds -/

theorem Layout.SetUp.num_le (hL : L.SetUp) (hlive : L.Live d qi) : (L.vq d qi).num.toNat ≤ 256 := by
  obtain ⟨k, hk, hnum⟩ := hL.num d qi hlive
  rw [hnum]
  exact Nat.pow_le_pow_right (by decide) hk

theorem Layout.SetUp.num_dvd (hL : L.SetUp) (hlive : L.Live d qi) : (L.vq d qi).num.toNat ∣ 65536 := by
  obtain ⟨k, hk, hnum⟩ := hL.num d qi hlive
  rw [hnum]
  exact Nat.pow_dvd_pow 2 (show k ≤ 16 by omega)

/-- The indices are equal modulo 2^16 if they are equal, as at most 256 entries are outstanding. -/
theorem QueueInv.last_eq_iff (hL : L.SetUp) (h : QueueInv L m₀ posted s) (hlive : L.Live d qi) {k : Nat}
    (hle : (s.taken d qi).length ≤ k) (hk : k ≤ (posted d qi).length) :
    (s.vq d qi).lastAvailIdx = .ofNat 16 k ↔ (s.taken d qi).length = k := by
  have hroom := (h.laid d qi hlive).room
  have hnum := hL.num_le hlive
  rw [h.last d qi hlive]
  constructor
  · intro heq
    have hmod := congrArg BitVec.toNat heq
    rw [BitVec.toNat_ofNat, BitVec.toNat_ofNat] at hmod
    omega
  · intro heq
    rw [heq]

variable {handle : List Seg → V (Option (BitVec 32))}

theorem inMem_chain {e : Entry} {ds : List Desc} {vq : Vq} (h : e.InMem s.mem s.memSize vq)
    (hchain : e.chain = some ds) :
    ChainAt s.mem s.memSize vq e.head ds := (h ds).2 hchain

/-- A malformed chain is refused. -/
theorem gatherChain_malformed {e : Entry} {vq : Vq} (h : e.InMem s.mem s.memSize vq) (hchain : e.chain = none)
    (hnum : vq.num.toNat + 1 < 2 ^ 32) : ((gatherChain vq e.head).run s).1 = .bad := by
  cases hr : ((gatherChain vq e.head).run s).1 with
  | bad => rfl
  | diverge => exact absurd hr (gatherChain_ne_diverge hnum)
  | ok segs =>
    obtain ⟨ds, hds, -⟩ := gatherChain_ok_iff.1 hr
    have hsome := (h ds).1 hds
    rw [hchain] at hsome
    cases hsome

/-- The next entry is served. -/
theorem serveHead_entry {slot : Nat} (hL : L.SetUp) (h : QueueInv L m₀ posted s) (hlive : L.Live d qi)
    (hh : KeepsQueues L m₀ posted handle d qi) {e : Entry} (he : (posted d qi)[(s.taken d qi).length]? = some e)
    (did : Bool) :
    ∃ did' s', (serveHead handle d qi slot e.head did).run s = (.inl did', s') ∧ QueueInv L m₀ posted s' ∧
      s'.taken d qi = s.taken d qi ++ [e.head] ∧ ServesEntry L posted handle d qi e s s' := by
  have hout : e ∈ (posted d qi).drop (s.taken d qi).length := by
    rw [List.drop_eq_getElem?_toList_append, he]
    exact List.mem_cons_self
  have hmem := (h.laid d qi hlive).entry e hout
  rw [← layout_memSize h.layout, ← layout_vq h.layout d qi] at hmem
  have hmem : e.InMem s.mem s.memSize (s.vq d qi) := hmem
  have hreads := gatherChain_reads (s.vq d qi) e.head s
  cases hchain : e.chain with
  -- a malformed chain is skipped, without a used element
  | none =>
    have hnum := hL.num_le hlive
    rw [← layout_num h.layout d qi] at hnum
    have hbad := gatherChain_malformed hmem hchain (by omega)
    rw [serveHead, run_bind, run_get, run_bind]
    dsimp only
    generalize (gatherChain (s.vq d qi) e.head).run s = y at hbad hreads ⊢
    obtain ⟨g, s₁⟩ := y
    dsimp only at hbad hreads
    subst hbad
    have hinv := h.kept hL (.of_reads hreads)
    have htaken := (Kept.of_reads (P := ∅) hreads).taken d qi
    have hcomplete := advance_completed L d qi slot e.head s₁
    refine ⟨did, ((advance d qi slot e.head).run s₁).2, rfl, hinv.completed hL hlive (htaken ▸ he) ?_ hcomplete, ?_,
      .malformed hchain hreads⟩
    · simp [Entry.wellFormed, hchain]
    · rw [hcomplete.taken, htaken]
  | some ds =>
    obtain ⟨s₁, hreads, hrun⟩ := serveHead_run (inMem_chain hmem hchain) handle did
    have hinv := h.kept hL (.of_reads hreads)
    have htaken := (Kept.of_reads (P := ∅) hreads).taken d qi
    obtain ⟨len, s₂, hhandle, hinv₂, htaken₂, hecho⟩ := hh s₁ ds hinv ((h.laid d qi hlive).apart e hout ds hchain)
    rw [hhandle] at hrun
    have hcomplete := pushUsed_completed hL hinv₂.layout hlive slot e.head len
    have he₂ : (posted d qi)[(s₂.taken d qi).length]? = some e := by rw [htaken₂, htaken, he]
    refine ⟨true, _, hrun, hinv₂.completed hL hlive he₂ ?_ hcomplete, ?_, .served hchain hreads hhandle hecho⟩
    · simp [Entry.wellFormed, hchain]
    · rw [hcomplete.taken, htaken₂, htaken]

/-- The place of the avail ring at which the next head is. -/
theorem QueueInv.load_slot (hL : L.SetUp) (h : QueueInv L m₀ posted s) (hlive : L.Live d qi) {e : Entry}
    (he : (posted d qi)[(s.taken d qi).length]? = some e) :
    s.mem.load ((L.vq d qi).avail.toNat + 4 + 2 * ((s.vq d qi).lastAvailIdx.toNat % (s.vq d qi).num.toNat)) 2 =
      e.head.toNat := by
  rw [layout_num h.layout, h.last d qi hlive, BitVec.toNat_ofNat, Nat.mod_mod_of_dvd _ (hL.num_dvd hlive)]
  exact (h.laid d qi hlive).slot _ e le_rfl he

/-- A round serves the next of the `k` entries that the call is about. -/
theorem serviceRound_entry (hL : L.SetUp) (h : QueueInv L m₀ posted s) (hlive : L.Live d qi)
    (hh : KeepsQueues L m₀ posted handle d qi) {k : Nat} (hk : k ≤ (posted d qi).length)
    (hlt : (s.taken d qi).length < k) {e : Entry} (he : (posted d qi)[(s.taken d qi).length]? = some e)
    (hcan : devCanConsume s d qi = true) (did : Bool) :
    ∃ did' s', (serviceRound handle d qi ((L.vq d qi).avail.toNat + 4) (.ofNat 16 k) did).run s =
        (.inl did', s') ∧ QueueInv L m₀ posted s' ∧ s'.taken d qi = s.taken d qi ++ [e.head] ∧
          ServesEntry L posted handle d qi e s s' := by
  have hmore : (s.vq d qi).lastAvailIdx ≠ .ofNat 16 k := fun heq =>
    Nat.ne_of_lt hlt ((h.last_eq_iff hL hlive hlt.le hk).1 heq)
  have hslot := h.load_slot hL hlive he
  unfold serviceRound
  rw [run_bind, run_get]
  dsimp only
  rw [run_ite, if_neg hmore, run_ite, if_neg (by simp [hcan]), run_bind]
  generalize (L.vq d qi).avail.toNat + 4 + 2 * ((s.vq d qi).lastAvailIdx.toNat % (s.vq d qi).num.toNat) = slot
    at hslot ⊢
  have hload : (guestLoad slot 2).run s = (s.mem.load slot 2, s.log (.read slot 2)) := rfl
  have hreads := log_read s slot 2
  rw [hload, hslot]
  dsimp only
  rw [BitVec.ofNat_toNat, BitVec.setWidth_eq]
  generalize s.log (.read slot 2) = s₁ at hreads ⊢
  have htaken := (Kept.of_reads (P := ∅) hreads).taken d qi
  obtain ⟨did', s', hrun, hinv, htaken', hserves⟩ :=
    serveHead_entry hL (h.kept hL (.of_reads hreads)) hlive hh (htaken ▸ he) did
  refine ⟨did', s', hrun, hinv, htaken' ▸ htaken ▸ rfl, ?_⟩
  -- the load belongs to the reads before the handler
  cases hserves with
  | malformed hchain hreads' => exact .malformed hchain (reads.trans hreads hreads')
  | served hchain hreads' hhandle hecho => exact .served hchain (reads.trans hreads hreads') hhandle hecho

theorem serviceRound_stop (hL : L.SetUp) (h : QueueInv L m₀ posted s) (hlive : L.Live d qi) {k : Nat}
    (hk : k ≤ (posted d qi).length) (hle : (s.taken d qi).length ≤ k)
    (hstop : (s.taken d qi).length = k ∨ devCanConsume s d qi = false) (ring : Nat) (did : Bool) :
    (serviceRound handle d qi ring (.ofNat 16 k) did).run s = (.inr (some did), s) := by
  unfold serviceRound
  rw [run_bind, run_get]
  dsimp only
  rw [run_ite]
  split
  · rfl
  · rename_i hmore
    have hwait : devCanConsume s d qi = false :=
      hstop.resolve_left fun heq => hmore ((h.last_eq_iff hL hlive hle hk).2 heq)
    rw [run_ite, if_pos (by simp [hwait])]
    rfl

/-- The loop serves as many of the outstanding entries as the device can consume. -/
theorem serviceLoop_entries (hL : L.SetUp) (hlive : L.Live d qi) (hh : KeepsQueues L m₀ posted handle d qi) {fuel : Nat}
    (h : QueueInv L m₀ posted s) (hfuel : (posted d qi).length < (s.taken d qi).length + fuel) (did : Bool) :
    ∃ did' s' j, (loopM (serviceRound handle d qi ((L.vq d qi).avail.toNat + 4) (.ofNat 16 (posted d qi).length)) none
        fuel did).run s = (some did', s') ∧ QueueInv L m₀ posted s' ∧
          (s'.taken d qi).length = (s.taken d qi).length + j ∧
            ServesAll L posted handle d qi (((posted d qi).drop (s.taken d qi).length).take j) s s' ∧
              ((s'.taken d qi).length = (posted d qi).length ∨ devCanConsume s' d qi = false) := by
  induction fuel generalizing s did with
  -- the fuel is more than what is outstanding
  | zero => exact absurd (h.laid d qi hlive).le (Nat.not_le_of_lt hfuel)
  | succ fuel ih =>
    rw [loopM_succ_run]
    by_cases hstop : (s.taken d qi).length = (posted d qi).length ∨ devCanConsume s d qi = false
    · rw [serviceRound_stop hL h hlive le_rfl (h.laid d qi hlive).le hstop]
      exact ⟨did, s, 0, rfl, h, rfl, .nil, hstop⟩
    · obtain ⟨hmore, hcan⟩ := not_or.1 hstop
      have hlt := Nat.lt_of_le_of_ne (h.laid d qi hlive).le hmore
      have he : (posted d qi)[(s.taken d qi).length]? = some (posted d qi)[(s.taken d qi).length] :=
        List.getElem?_eq_getElem hlt
      generalize (posted d qi)[(s.taken d qi).length] = e at he
      obtain ⟨did₁, s₁, hround, hinv, htaken, hserves⟩ :=
        serviceRound_entry hL h hlive hh le_rfl hlt he (Bool.eq_true_of_not_eq_false hcan) did
      have hlen : (s₁.taken d qi).length = (s.taken d qi).length + 1 := by
        rw [htaken, List.length_append, List.length_singleton]
      rw [hround]
      dsimp only
      obtain ⟨did', s', j, hloop, hinv', htaken', hall, hstop'⟩ := ih hinv (by omega) did₁
      refine ⟨did', s', j + 1, hloop, hinv', by omega, ?_, hstop'⟩
      rw [hlen] at hall
      rw [List.drop_eq_getElem?_toList_append, he, Option.toList_some, List.singleton_append, List.take_succ_cons]
      exact .cons (Bool.eq_true_of_not_eq_false hcan) hserves hall

/-! ### Calls -/

/-- The end of a call. -/
def St.raised (s : St) (d : Dev) (did : Bool) : St := if did then ((virtioRaiseIrq d).run s).2 else s

theorem raised_kept (P : Set Nat) (s : St) (d : Dev) (did : Bool) : Kept P s (s.raised d did) := by
  unfold St.raised
  split
  · have hvq (d' : Dev) (qi : Nat) : (s.setDev d { s.dev d with
        intStatus := (s.dev d).intStatus ||| vmmioIntVring }).vq d' qi = s.vq d' qi := by
      by_cases hd : d' = d
      · rw [hd, vq_setDev_self]
        rfl
      · exact vq_setDev_of_ne hd ..
    rw [virtioRaiseIrq, run_bind, run_bind, run_get, run_ite]
    dsimp only
    split
    · exact @Kept.of_trace s _ P [.irqfd d] rfl hvq (fun _ _ => rfl) rfl (by simp [Event.isQueue])
    · exact @Kept.of_trace s _ P [.irqLine d.gsi true] rfl hvq (fun _ _ => rfl) rfl (by simp [Event.isQueue])
  · exact ⟨rfl, fun _ _ => rfl, fun _ _ => rfl, fun _ _ => rfl, fun _ _ => rfl⟩

theorem raised_conIn (s : St) (d : Dev) (did : Bool) : (s.raised d did).conIn = s.conIn := by
  unfold St.raised
  split
  · rw [virtioRaiseIrq, run_bind, run_bind, run_get, run_ite]
    dsimp only
    split <;> rfl
  · rfl

theorem devCanConsume_receive : devCanConsume s .console 0 = false ↔ s.conIn.count = 0 := by
  have hdef : devCanConsume s .console 0 = decide (0 < s.conIn.count) := rfl
  rw [hdef, decide_eq_false_iff_not, BitVec.not_lt]
  exact BitVec.le_zero_iff

theorem devCanConsume_of_ne (h : (d, qi) ≠ (.console, 0)) (s : St) : devCanConsume s d qi = true := by
  apply if_neg
  rintro ⟨hd, rfl⟩
  cases d with
  | console => exact h rfl
  | blk => cases hd

/-- What a call of `service_vq()` does for an enabled queue. -/
structure Call (L : Layout) (m₀ : ByteMem) (posted : Posted) (handle : List Seg → V (Option (BitVec 32))) (d : Dev)
    (qi : Nat) (s s₁ s₂ : St) : Prop where
  reads : reads.rel s s₁
  serves : ∃ j, (s₂.taken d qi).length = (s.taken d qi).length + j ∧
    ServesAll L posted handle d qi (((posted d qi).drop (s.taken d qi).length).take j) s₁ s₂
  inv : QueueInv L m₀ posted s₂
  drained : (s₂.taken d qi).length = (posted d qi).length ∨ devCanConsume s₂ d qi = false

/-- The rings of an enabled queue are found. -/
theorem rings_found (hL : L.SetUp) (hlive : L.Live d qi) (hs : s.layout = L) :
    ¬(d.nqueues ≤ qi ∨ (s.vq d qi).ready = 0 ∨ (s.vq d qi).num = 0) ∧
      gpa2hva s.memSize ((s.vq d qi).avail + 2) 2 = some ((L.vq d qi).avail.toNat + 2) ∧
        gpa2hva s.memSize ((s.vq d qi).avail + 4) (2 * (s.vq d qi).num.setWidth 64) =
          some ((L.vq d qi).avail.toNat + 4) := by
  have hpos := hL.num_pos hlive
  have havail := hL.avail d qi hlive
  have hlt := L.memSize.isLt
  have hconfig : (s.vq d qi).avail = (L.vq d qi).avail ∧ (s.vq d qi).num = (L.vq d qi).num ∧
      (s.vq d qi).ready = (L.vq d qi).ready := by
    rw [← layout_vq hs d qi]
    exact ⟨rfl, rfl, rfl⟩
  have hbusy : ¬(d.nqueues ≤ qi ∨ (L.vq d qi).ready = 0 ∨ (L.vq d qi).num = 0) := by
    rintro (hqi | hready | hnum)
    · exact absurd hlive.1 (Nat.not_lt_of_le hqi)
    · exact hlive.2 hready
    · rw [hnum] at hpos
      exact absurd hpos (by decide)
  -- the addresses do not wrap around, as the ring is in guest RAM
  have hidxAddr : ((L.vq d qi).avail + 2).toNat = (L.vq d qi).avail.toNat + 2 := by
    rw [BitVec.toNat_add]
    simp
    omega
  have hringAddr : ((L.vq d qi).avail + 4).toNat = (L.vq d qi).avail.toNat + 4 := by
    rw [BitVec.toNat_add]
    simp
    omega
  have hidx : ((L.vq d qi).avail + 2).toNat + (2 : BitVec 64).toNat ≤ L.memSize.toNat := by
    rw [hidxAddr]
    simp
    omega
  have hring : ((L.vq d qi).avail + 4).toNat + (2 * (L.vq d qi).num.setWidth 64).toNat ≤ L.memSize.toNat := by
    rw [hringAddr, toNat_mul_num 2 (L.vq d qi).num (by decide)]
    simp
    omega
  rw [hconfig.1, hconfig.2.1, hconfig.2.2, layout_memSize hs, gpa2hva_of_le hidx, gpa2hva_of_le hring, hidxAddr,
    hringAddr]
  exact ⟨hbusy, rfl, rfl⟩

theorem serviceWith_run (hL : L.SetUp) (hlive : L.Live d qi) (hs : s.layout = L) :
    (serviceWith handle d qi).run s =
      (serviceRing handle d qi ((L.vq d qi).avail.toNat + 2) ((L.vq d qi).avail.toNat + 4)).run s := by
  obtain ⟨hbusy, hidx, hring⟩ := rings_found hL hlive hs
  unfold serviceWith
  rw [run_bind, run_get]
  dsimp only
  rw [run_ite, if_neg hbusy, hidx, hring]

theorem serviceWith_entries (hL : L.SetUp) (hlive : L.Live d qi) (hh : KeepsQueues L m₀ posted handle d qi)
    (h : QueueInv L m₀ posted s) :
    ∃ s₁ s₂ did, (serviceWith handle d qi).run s = (some (), s₂.raised d did) ∧
        Call L m₀ posted handle d qi s s₁ s₂ := by
  have hroom := (h.laid d qi hlive).room
  have hnum := hL.num_le hlive
  have hreads := log_read s ((L.vq d qi).avail.toNat + 2) 2
  have hload : (guestLoad ((L.vq d qi).avail.toNat + 2) 2).run s =
      ((posted d qi).length % 65536, s.log (.read ((L.vq d qi).avail.toNat + 2) 2)) := by
    rw [← (h.laid d qi hlive).idx]
    rfl
  have hmod : BitVec.ofNat 16 ((posted d qi).length % 65536) = .ofNat 16 (posted d qi).length := by
    apply BitVec.eq_of_toNat_eq
    simp
  rw [serviceWith_run hL hlive h.layout]
  unfold serviceRing
  rw [run_bind, hload, hmod]
  dsimp only
  generalize s.log (.read ((L.vq d qi).avail.toNat + 2) 2) = s₁ at hreads ⊢
  have htaken := (Kept.of_reads (P := ∅) hreads).taken d qi
  -- at most `num` entries are outstanding
  have hfuel : (posted d qi).length < (s₁.taken d qi).length + serviceFuel := by
    rw [htaken, serviceFuel]
    omega
  obtain ⟨did, s₂, j, hloop, hinv, hlen, hall, hstop⟩ :=
    serviceLoop_entries hL hlive hh (h.kept hL (.of_reads hreads)) hfuel false
  rw [run_bind, hloop]
  refine ⟨s₁, s₂, did, ?_, hreads, ⟨j, htaken ▸ hlen, htaken ▸ hall⟩, hinv, hstop⟩
  cases did <;> rfl

/-- There is no call for a queue that is not enabled. -/
theorem serviceWith_of_not_live (hs : s.layout = L) (hlive : ¬L.Live d qi) :
    (serviceWith handle d qi).run s = (some (), s) := by
  have hdead : d.nqueues ≤ qi ∨ (s.vq d qi).ready = 0 ∨ (s.vq d qi).num = 0 := by
    by_contra hbusy
    obtain ⟨hqi, hready, -⟩ := by simpa only [not_or] using hbusy
    refine hlive ⟨Nat.lt_of_not_le hqi, ?_⟩
    rw [← layout_vq hs d qi]
    exact hready
  unfold serviceWith
  rw [run_bind, run_get]
  dsimp only
  rw [run_ite, if_pos hdead]
  rfl

/-! ### The handlers -/

/-- A handler that leaves the queues alone. -/
theorem KeepsQueues.of_kept (hL : L.SetUp) (hq : (d, qi) ≠ (.console, 1))
    (hh : ∀ s ds, (∀ a ∈ chainBytes ds, a ∉ L.queueBytes) →
      ∃ len s', (handle (chainSegs ds)).run s = (some len, s') ∧ Kept L.queueBytes s s') :
    KeepsQueues L m₀ posted handle d qi := by
  intro s ds h hapart
  obtain ⟨len, s', hrun, hkept⟩ := hh s ds hapart
  exact ⟨len, s', hrun, h.kept hL hkept, hkept.taken d qi, fun hd hqi => absurd (Prod.ext hd hqi) hq⟩

theorem mem_chainBytes {ds : List Desc} {seg : Seg} (h : seg ∈ chainSegs ds) {a : Nat} (ha : seg.hva ≤ a)
    (ha' : a < seg.hva + max 1 seg.len.toNat) : a ∈ chainBytes ds := by
  obtain ⟨d, hd, rfl⟩ := List.mem_map.1 (List.mem_of_mem_take h)
  exact ⟨d, hd, ha, ha'⟩

theorem segAddrs_subset {ds : List Desc} {segs : List Seg} (h : ∀ seg ∈ segs, seg ∈ chainSegs ds) :
    ∀ a ∈ segAddrs segs, a ∈ chainBytes ds := by
  intro a ha
  obtain ⟨seg, hseg, hrange⟩ := List.mem_flatMap.1 ha
  obtain ⟨hle, hlt⟩ := List.mem_range'_1.1 hrange
  exact mem_chainBytes (h seg hseg) hle (by omega)

theorem work_consoleTransfers : ConsoleTransfers work :=
  ⟨work_transfers, fun _ _ => ⟨rfl, rfl, rfl, [], (List.append_nil _).symm, by simp⟩⟩

theorem consoleReceive_keeps (hL : L.SetUp) : KeepsQueues L m₀ posted consoleReceive .console 0 := by
  apply KeepsQueues.of_kept hL (by simp)
  intro s ds hapart
  have hwork : Work s ((receiveSegs (chainSegs ds) 0).run s).2 := work_consoleTransfers.receiveSegs _ 0 s
  obtain ⟨-, c, hrun, -⟩ := receiveSegs_run (chainSegs ds) 0 s
  refine ⟨((receiveSegs (chainSegs ds) 0).run s).1, ((receiveSegs (chainSegs ds) 0).run s).2, rfl,
    .of_work hwork fun a ha => ?_⟩
  rw [hrun]
  apply ByteMem.scatter_of_not_mem
  intro hmem
  exact hapart a (segAddrs_subset (fun _ h => h) a (List.mem_of_mem_take hmem)) ha

section Block

variable {W : Set Nat} {n : Nat} {status : Nat} {data : List Seg}

theorem blkIn_writesOnly (hstatus : status ∈ W) (hdata : ∀ a ∈ segAddrs data, a ∈ W) (off : BitVec 64)
    (total : BitVec 32) : Within (writesOnly W n) (blkIn status data off total) := by
  induction data generalizing off total with
  | nil => exact .pure _
  | cons seg data ih =>
    rw [segAddrs_cons] at hdata
    have hseg : ∀ a ∈ List.range' seg.hva seg.len.toNat, a ∈ W := fun a ha => hdata a (List.mem_append_left _ ha)
    refine Within.fileIo_bind writesOnly_blk _ fun blk => ?_
    cases hread : (pread seg.len.toNat off blk).1 with
    | none => exact Within.bind (fun s => (writesOnly_status_iff status _ s).2 hstatus) fun _ => .pure _
    | some l =>
      have hlen : l.length ≤ seg.len.toNat := length_pread hread
      refine Within.bind (fun s => ?_) fun _ =>
        .ite (.pure _) (ih (fun a ha => hdata a (List.mem_append_right _ ha)) _ _)
      have hfilled := guestWrite_filled seg.hva seg.len.toNat l s
      rw [List.take_of_length_le hlen] at hfilled
      exact (writesOnly_filled_iff hfilled).2 fun a ha => hseg a (List.mem_of_mem_take ha)

theorem blkRequest_writesOnly (hstatus : status ∈ W) (hdata : ∀ a ∈ segAddrs data, a ∈ W) (hdr : List (BitVec 8)) :
    Within (writesOnly W n) (blkRequest hdr data status) := by
  have hstore (v : Nat) : Within (writesOnly W n) (guestStore status 1 v) := fun s =>
    (writesOnly_status_iff status v s).2 hstatus
  refine (hstore _).bind fun _ => .ite ?_ (.ite ?_ (.ite (.pure _) ?_))
  · exact (blkIn_writesOnly hstatus hdata _ _).bind fun _ => .pure _
  · exact (blkOut_writesOnly hstatus data _).bind fun _ => .pure _
  · exact (hstore _).bind fun _ => .pure _

theorem blkHandle_writesOnly {ds : List Desc} :
    Within (writesOnly (chainBytes ds) n) (blkHandle (chainSegs ds)) := by
  intro s
  cases hparts : blkParts (chainSegs ds) with
  | none =>
    rw [blkHandle_run_short hparts]
    exact (writesOnly _ n).refl s
  | some parts =>
    obtain ⟨data, last⟩ := parts
    have hmem : last ∈ chainSegs ds ∧ ∀ seg ∈ data, seg ∈ chainSegs ds := by
      generalize chainSegs ds = segs at hparts
      match segs with
      | first :: second :: rest =>
        obtain ⟨rfl, rfl⟩ := Prod.mk.inj (Option.some.inj hparts)
        exact ⟨List.mem_cons_of_mem _ (List.getLast_mem _),
          fun seg h => List.mem_cons_of_mem _ (List.mem_of_mem_dropLast h)⟩
    obtain ⟨s₁, hread, hrun⟩ := blkHandle_run hparts s
    have hhead : WritesOnly (chainBytes ds) n s s₁ :=
      have h := @WritesOnly.of_reads (chainBytes ds) n _ _ hread
      ⟨h.mem, h.trace⟩
    rw [hrun]
    apply hhead.trans
    apply blkRequest_writesOnly
    · exact mem_chainBytes hmem.1 le_rfl (by omega)
    · exact segAddrs_subset hmem.2

end Block

theorem blkHandle_keeps (hL : L.SetUp) : KeepsQueues L m₀ posted blkHandle .blk qi := by
  apply KeepsQueues.of_kept hL (by simp)
  intro s ds hapart
  have hwork : Work s ((blkHandle (chainSegs ds)).run s).2 := work_transfers.blkHandle _ s
  have hwrites := @blkHandle_writesOnly 0 ds s
  have hsome : ∃ len, ((blkHandle (chainSegs ds)).run s).1 = some len := by
    cases hparts : blkParts (chainSegs ds) with
    | none => exact ⟨0, by rw [blkHandle_run_short hparts]⟩
    | some parts =>
      obtain ⟨s₁, -, hrun⟩ := blkHandle_run (Option.some_inj.2 (rfl : parts = (parts.1, parts.2)) ▸ hparts) s
      exact ⟨_, congrArg Prod.fst hrun⟩
  obtain ⟨len, hlen⟩ := hsome
  refine ⟨len, _, Prod.ext hlen rfl, .of_work hwork fun a ha => hwrites.mem a fun hmem => hapart a hmem ha⟩

/-! ### The transmit queue -/

/-- Queue `qi` of `d` is done with no entry. -/
def sameTaken (d : Dev) (qi : Nat) : Guarantee St where
  rel s s' := s'.taken d qi = s.taken d qi
  refl _ := rfl
  trans h h' := h'.trans h

theorem sameTaken_log {e : Event} (he : takenHeads d qi [e] = []) (s : St) : (sameTaken d qi).rel s (s.log e) := by
  show takenHeads d qi (s.trace ++ [e]) = _
  rw [takenHeads_append, he, List.append_nil]
  rfl

theorem sameTaken_transfers (d : Dev) (qi : Nat) : Transfers (sameTaken d qi) :=
  ⟨fun s e he => sameTaken_log (by cases e <;> first | rfl | cases he) s, fun _ _ _ _ => rfl⟩

theorem pushUsed_taken (d' : Dev) (qi' : Nat) (head : BitVec 16) (len : BitVec 32) (s : St) :
    ((pushUsed d qi head len).run s).2.taken d' qi' = s.taken d' qi' :=
  (sameTaken_transfers d' qi').pushUsed (fun s => sameTaken_log rfl s) s

/-- Serving a queue leaves the others where they are, if its handler does. -/
theorem ServesAll.taken_of_ne {es : List Entry} {d' : Dev} {qi' : Nat} (h : ServesAll L posted handle d qi es s s')
    (hh : ∀ segs, Within (sameTaken d' qi') (handle segs)) (hne : (d', qi') ≠ (d, qi)) :
    s'.taken d' qi' = s.taken d' qi' := by
  have hadvance (slot : Nat) (head : BitVec 16) (s : St) :
      ((advance d qi slot head).run s).2.taken d' qi' = s.taken d' qi' := by
    rw [advance_taken, if_neg hne, List.append_nil]
  induction h with
  | nil => rfl
  | cons _ hentry _ ih =>
    refine ih.trans ?_
    cases hentry with
    | malformed _ hreads => rw [hadvance, (Kept.of_reads (P := ∅) hreads).taken]
    | @served s₁ s₂ _ ds len _ hreads hhandle _ =>
      have hkept := hh (chainSegs ds) s₁
      rw [hhandle] at hkept
      rw [hadvance, pushUsed_taken, ← (Kept.of_reads (P := ∅) hreads).taken]
      exact hkept

theorem consoleTransmit_keeps (hL : L.SetUp) : KeepsQueues L m₀ posted consoleTransmit .console 1 := by
  intro s ds h hapart
  have hwork : Work s ((transmitSegs (chainSegs ds)).run s).2 := work_consoleTransfers.transmitSegs _ s
  have hmem := (@transmitSegs_writesOnly ∅ 0 (chainSegs ds) s).mem
  have hkept : Kept L.queueBytes s ((transmitSegs (chainSegs ds)).run s).2 := .of_work hwork fun a _ => hmem a (by simp)
  have hinv := h.kept hL hkept
  have htaken := hkept.taken .console 1
  have hrun : (consoleTransmit (chainSegs ds)).run s =
      ((serviceReceive.run ((transmitSegs (chainSegs ds)).run s).2).1.map fun _ => 0,
        (serviceReceive.run ((transmitSegs (chainSegs ds)).run s).2).2) := rfl
  rw [hrun]
  generalize ((transmitSegs (chainSegs ds)).run s).2 = s₁ at hinv htaken
  unfold serviceReceive
  -- at the end it serves the receive queue, if there is one
  by_cases hlive : L.Live .console 0
  · obtain ⟨s₂, s₃, did, hservice, hcall⟩ := serviceWith_entries hL hlive (consoleReceive_keeps hL) hinv
    obtain ⟨j, -, hall⟩ := hcall.serves
    have hraised := raised_kept L.queueBytes s₃ .console did
    rw [hservice]
    refine ⟨0, _, rfl, hcall.inv.kept hL hraised, ?_, fun _ _ _ => ?_⟩
    · have hreceive (segs : List Seg) : Within (sameTaken .console 1) (consoleReceive segs) := fun s =>
        (Kept.of_work (P := ∅) (work_consoleTransfers.consoleReceive segs s) (by simp)).taken .console 1
      rw [hraised.taken, hall.taken_of_ne hreceive (by simp), (Kept.of_reads (P := ∅) hcall.reads).taken, htaken]
    · rw [hraised.taken, raised_conIn]
      exact hcall.drained.imp_right devCanConsume_receive.1
  · rw [serviceWith_of_not_live hinv.layout hlive]
    exact ⟨0, s₁, rfl, hinv, htaken, fun _ _ hlive' => absurd hlive' hlive⟩

/-- Every enabled queue keeps the invariant. -/
theorem devHandle_keeps (hL : L.SetUp) (hlive : L.Live d qi) : KeepsQueues L m₀ posted (devHandle d qi) d qi := by
  cases d with
  | blk => exact blkHandle_keeps hL
  | console =>
    obtain rfl | rfl : qi = 0 ∨ qi = 1 := by
      have hqi : qi < 2 := hlive.1
      omega
    · exact consoleReceive_keeps hL
    · exact consoleTransmit_keeps hL

end MiniVirt.Vmm
