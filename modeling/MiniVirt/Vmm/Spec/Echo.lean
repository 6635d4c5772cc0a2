import MiniVirt.Lib.Fifo
import MiniVirt.Vmm.Spec.Alike
import MiniVirt.Vmm.Spec.Chain
import MiniVirt.Vmm.Spec.Negotiation

/-!
# The echo of the console

What the guest sends on the transmit queue comes back on the receive queue: the echo should be a queue of
bytes.  `con_in` is a ring of 8192 bytes without a test whether there is room, so it is one as long as every
chain fits into the ring when it is sent (`echo_of_fits`); and the receive buffers then hold what is taken
from it.
-/

namespace MiniVirt.Vmm

/-! ### What is sent and delivered -/

/-- The descriptors of the chain at `idx`, at most `n` of them. -/
def descsFrom (m : ByteMem) (dt : Nat) : Nat → BitVec 16 → List Desc
  | 0, _ => []
  | n + 1, idx =>
    let desc := Desc.ofMem m (dt + 16 * idx.toNat)
    desc :: if desc.hasNext then descsFrom m dt n desc.next else []

/-- The descriptors of the chain at `head` of the transmit queue, also those that `gather_chain()` has no
room for. -/
def St.sentDescs (s : St) (head : BitVec 16) : List Desc :=
  descsFrom s.mem (s.vq .console 1).desc.toNat (s.vq .console 1).num.toNat head

def St.sentBytes (s : St) (head : BitVec 16) : List (BitVec 8) :=
  (s.sentDescs head).flatMap fun desc => s.mem.read desc.addr.toNat desc.len.toNat

/-- The bytes that `receiveBytes` writes. -/
def receivedBytes : Nat → Nat → St → List (BitVec 8)
  | 0, _, _ => []
  | n + 1, p, s =>
    match conInPop.run s with
    | (none, _) => []
    | (some b, s') => b :: receivedBytes n (p + 1) ((guestWrite p [b]).run s').2

/-- The bytes that `receiveSegs` writes. -/
def receivedSegs : List Seg → BitVec 32 → St → List (BitVec 8)
  | [], _, _ => []
  | seg :: segs, written, s =>
    let r := (receiveBytes seg.len.toNat seg.hva written).run s
    receivedBytes seg.len.toNat seg.hva s ++ if r.1.2 then receivedSegs segs r.1.1 r.2 else []

/-- The addresses of the segments, in the order of the chain. -/
def segAddrs (segs : List Seg) : List Nat := segs.flatMap fun seg => List.range' seg.hva seg.len.toNat

theorem segAddrs_cons (seg : Seg) (segs : List Seg) :
    segAddrs (seg :: segs) = List.range' seg.hva seg.len.toNat ++ segAddrs segs := List.flatMap_cons

/-- What a handler of the console does. -/
inductive EchoEvent where
  /-- The bytes of a chain are sent. -/
  | sent (bytes : List (BitVec 8))
  /-- The buffers `segs` are filled as far as there are bytes, from `s` on. -/
  | filled (segs : List Seg) (s : St)

/-- The bytes sent and the bytes delivered, in their order. -/
def EchoEvent.ops : EchoEvent → List (Fifo.Op (BitVec 8))
  | .sent bytes => bytes.map .put
  | .filled segs s => (receivedSegs segs 0 s).map .take

def echoOps (es : List EchoEvent) : List (Fifo.Op (BitVec 8)) := es.flatMap EchoEvent.ops

/-- The bytes `l` go to the buffers, one after the other, and to nowhere else, and `console_handle()` says
how many they are. -/
structure FilledWith (segs : List Seg) (s : St) (l : List (BitVec 8)) : Prop where
  mem : ((consoleReceive segs).run s).2.mem = s.mem.scatter (segAddrs segs) l
  length_le : l.length ≤ (segAddrs segs).length
  usedLen : ((consoleReceive segs).run s).1 = some (.ofNat 32 l.length)

/-- The delivered bytes are in guest RAM. -/
def EchoEvent.Stored : EchoEvent → Prop
  | .sent _ => True
  | .filled segs s => FilledWith segs s (receivedSegs segs 0 s)

/-- The entry that a round of `service_vq()` serves: its head, its segments and the state before the
handler. -/
def served (s : St) (d : Dev) (qi ring : Nat) (idx : BitVec 16) : Option (BitVec 16 × List Seg × St) :=
  if (s.vq d qi).lastAvailIdx = idx ∨ devCanConsume s d qi = false then none
  else
    let r := (guestLoad (ring + 2 * ((s.vq d qi).lastAvailIdx.toNat % (s.vq d qi).num.toNat)) 2).run s
    match (gatherChain (r.2.vq d qi) (.ofNat 16 r.1)).run r.2 with
    | (.ok segs, s') => some (.ofNat 16 r.1, segs, s')
    | _ => none

/-- What a handler does to the echo. -/
abbrev HandlerLog := BitVec 16 → List Seg → St → List EchoEvent

def roundLog (log : HandlerLog) (qi ring : Nat) (idx : BitVec 16) (s : St) : List EchoEvent :=
  match served s .console qi ring idx with
  | some (head, segs, s') => log head segs s'
  | none => []

def serviceLog (log : HandlerLog) (qi : Nat) (s : St) : List EchoEvent :=
  match (serviceStart .console qi).run s with
  | (.loop c, s') => loopLog (serviceRound (devHandle .console qi) .console qi c.ring c.idx)
      (fun _ s => roundLog log qi c.ring c.idx s) serviceFuel false s'
  | _ => []

def receiveLog : HandlerLog := fun _ segs s => [.filled segs s]

/-- All bytes of the chain are sent; the receive queue follows. -/
def transmitLog : HandlerLog := fun head segs s =>
  .sent (s.sentBytes head) :: serviceLog receiveLog 0 ((transmitSegs segs).run s).2

def consoleLog (qi : Nat) : HandlerLog := if qi = 1 then transmitLog else receiveLog

def ThreadAct.echoLog (t : Threads) : ThreadAct → List EchoEvent
  | .mmioWrite d off _ val =>
    if d = .console ∧ off = vmmioQueueNotify then
      serviceLog (consoleLog (val &&& 0xffff).toNat) (val &&& 0xffff).toNat t.st
    else []
  | .iter =>
    match t.worker with
    | .loop c => if c.d = .console then roundLog (consoleLog c.qi) c.qi c.ring c.idx t.st else []
    | _ => []
  | _ => []

/-- What is sent and filled in the run `acts` from `t`. -/
def Threads.echo (t : Threads) (acts : List ThreadAct) : List EchoEvent :=
  stepsLog ThreadAct.step ThreadAct.echoLog t acts

/-! ### The law -/

/-- In the run `acts` from `t`. -/
structure EchoLaw (t : Threads) (acts : List ThreadAct) : Prop where
  /-- At every moment, also within a step. -/
  delivered : ∀ ops, ops <+: echoOps (t.echo acts) → Fifo.takes ops <+: Fifo.puts ops
  pending : ∀ pre, pre <+: acts →
    Fifo.takes (echoOps (t.echo pre)) ++ (runSteps ThreadAct.step t pre).st.conIn.bytes =
      Fifo.puts (echoOps (t.echo pre))
  /-- Whenever receive buffers are filled, they hold the bytes delivered. -/
  stored : ∀ e ∈ t.echo acts, e.Stored

/-- There is room for the bytes of the chain, and `gather_chain()` stores all of them. -/
def ChainFits (s : St) (head : BitVec 16) : Prop :=
  s.conIn.bytes.length + (s.sentBytes head).length ≤ conInSz ∧
    ∀ desc ∈ (s.sentDescs head).drop vqMaxSegs, desc.len = 0

instance (s : St) (head : BitVec 16) : Decidable (ChainFits s head) := inferInstanceAs (Decidable (_ ∧ _))

/-- If the round serves the transmit queue, its chain fits. -/
def RoundFits (qi ring : Nat) (idx : BitVec 16) (s : St) : Prop :=
  qi = 1 → ∀ head segs s', served s .console qi ring idx = some (head, segs, s') → ChainFits s' head

instance (qi ring : Nat) (idx : BitVec 16) (s : St) : Decidable (RoundFits qi ring idx s) :=
  match h : served s .console qi ring idx with
  | none => .isTrue fun _ _ _ _ hserved => by
    rw [h] at hserved
    cases hserved
  | some (head, _, s') => decidable_of_iff (qi = 1 → ChainFits s' head)
    ⟨fun hfits hqi _ _ _ hserved => by
      rw [h] at hserved
      cases hserved
      exact hfits hqi, fun hfits hqi => hfits hqi _ _ _ h⟩

/-- Every chain of the call fits at its turn. -/
def ServiceFits (qi : Nat) (s : St) : Prop :=
  ∀ c, ((serviceStart .console qi).run s).1 = .loop c →
    LoopAll (serviceRound (devHandle .console qi) .console qi c.ring c.idx)
      (fun _ s => RoundFits qi c.ring c.idx s) serviceFuel false ((serviceStart .console qi).run s).2

def ThreadAct.Fits (t : Threads) : ThreadAct → Prop
  | .mmioWrite d off _ val => d = .console → off = vmmioQueueNotify → ServiceFits (val &&& 0xffff).toNat t.st
  | .iter => ∀ c, t.worker = .loop c → c.d = .console → RoundFits c.qi c.ring c.idx t.st
  | _ => True

/-! ### The ring -/

/-- On the queue of pending bytes `es` leads from `s` to `s'`. -/
def Echoes (es : List EchoEvent) (s s' : St) : Prop := Fifo.Run s.conIn.bytes (echoOps es) s'.conIn.bytes

variable {s s' : St} {log : HandlerLog}

theorem Echoes.refl (s : St) : Echoes [] s s := .nil _

theorem Echoes.of_eq (h : s'.conIn = s.conIn) : Echoes [] s s' := by
  unfold Echoes
  rw [h]
  exact .nil _

theorem Echoes.append {s'' : St} {es es' : List EchoEvent} (h : Echoes es s s') (h' : Echoes es' s' s'') :
    Echoes (es ++ es') s s'' := by
  unfold Echoes echoOps
  rw [List.flatMap_append]
  exact Fifo.Run.append h h'

theorem bytes_push (c : ConIn) (l : List (BitVec 8)) (h : c.bytes.length + l.length ≤ conInSz) :
    (c.push l).bytes = c.bytes ++ l := by
  induction l generalizing c with
  | nil => exact (List.append_nil _).symm
  | cons b l ih =>
    rw [List.length_cons] at h
    have hlength : (c.head - c.tail).toNat = c.bytes.length := RingBuffer.length_contents.symm
    have hsize : conInSz = 8192 := rfl
    have hfree : (c.head - c.tail).toNat < conInSz := by omega
    have hlt : (c.head - c.tail).toNat + 1 < 2 ^ 32 := by omega
    have hpush : (c.push1 b).bytes = c.bytes ++ [b] := RingBuffer.contents_push (by decide) hfree hlt b
    have hrest := ih (c.push1 b) (by rw [hpush, List.length_append, List.length_singleton]; omega)
    rw [hpush, List.append_assoc] at hrest
    exact hrest

/-- The bytes `l` are taken from the queue of pending bytes. -/
def Takes (l : List (BitVec 8)) (s s' : St) : Prop := Fifo.Run s.conIn.bytes (l.map .take) s'.conIn.bytes

theorem Takes.append {s'' : St} {l l' : List (BitVec 8)} (h : Takes l s s') (h' : Takes l' s' s'') :
    Takes (l ++ l') s s'' := by
  unfold Takes
  rw [List.map_append]
  exact Fifo.Run.append h h'

theorem conInPop_takes (s : St) : Takes (conInPop.run s).1.toList s (conInPop.run s).2 := by
  rw [conInPop_run]
  split
  · exact .nil _
  · rename_i hne
    have hpop : s.conIn.bytes = s.conIn.buf (s.conIn.tail.toNat % conInSz) ::
        ConIn.bytes { s.conIn with tail := s.conIn.tail + 1 } :=
      RingBuffer.contents_pop (by decide) fun h => hne h.symm
    unfold Takes
    rw [hpop]
    exact .take _ (.nil _)

/-! ### The handlers -/

theorem conInPop_keeps (s : St) : (conInPop.run s).2.mem = s.mem := by
  rw [conInPop_run]
  split <;> rfl

/-- The bytes delivered come from the FIFO and go to the buffer. -/
theorem receiveBytes_takes (n p : Nat) (written : BitVec 32) (s : St) :
    Takes (receivedBytes n p s) s ((receiveBytes n p written).run s).2 ∧
      ((receiveBytes n p written).run s).2.mem = s.mem.write p (receivedBytes n p s) := by
  induction n generalizing p written s with
  | zero => exact ⟨.nil _, (ByteMem.write_nil s.mem p).symm⟩
  | succ n ih =>
    have hpop := conInPop_takes s
    have hmem := conInPop_keeps s
    rw [receiveBytes, receivedBytes, run_bind]
    generalize conInPop.run s = y at hpop hmem ⊢
    obtain ⟨r, s'⟩ := y
    -- what is popped is stored at once
    cases r with
    | none =>
      refine ⟨hpop, ?_⟩
      rw [ByteMem.write_nil]
      exact hmem
    | some b =>
      dsimp only
      rw [run_bind]
      generalize hwrite : ((guestWrite p [b]).run s').2 = s''
      have hconIn : s''.conIn = s'.conIn := by rw [← hwrite]; rfl
      have hmem' : s''.mem = s'.mem.write p [b] := by rw [← hwrite]; rfl
      obtain ⟨hrest, hrestMem⟩ := ih (p + 1) (written + 1) s''
      refine ⟨?_, ?_⟩
      · unfold Takes at hrest
        rw [hconIn] at hrest
        exact hpop.append hrest
      · rw [hrestMem, hmem', hmem]
        exact (ByteMem.write_cons ..).symm

/-- How many bytes there are; the buffer is full if there are as many as it has room for. -/
theorem receiveBytes_count (n p : Nat) (written : BitVec 32) (s : St) :
    ((receiveBytes n p written).run s).1.1 = written + .ofNat 32 (receivedBytes n p s).length ∧
      (receivedBytes n p s).length ≤ n ∧
        (((receiveBytes n p written).run s).1.2 = true → (receivedBytes n p s).length = n) := by
  induction n generalizing p written s with
  | zero => exact ⟨(BitVec.add_zero written).symm, le_rfl, fun _ => rfl⟩
  | succ n ih =>
    rw [receiveBytes, receivedBytes, run_bind]
    generalize conInPop.run s = y
    obtain ⟨r, s'⟩ := y
    cases r with
    | none => exact ⟨(BitVec.add_zero written).symm, Nat.zero_le _, fun hfull => by cases hfull⟩
    | some b =>
      dsimp only
      rw [run_bind]
      generalize ((guestWrite p [b]).run s').2 = s''
      obtain ⟨hwritten, hle, hfull⟩ := ih (p + 1) (written + 1) s''
      refine ⟨hwritten.trans ?_, Nat.succ_le_succ hle, fun h => congrArg Nat.succ (hfull h)⟩
      rw [List.length_cons, BitVec.ofNat_add, BitVec.add_assoc, BitVec.add_comm 1]
      rfl

theorem receiveSegs_takes (segs : List Seg) (written : BitVec 32) (s : St) :
    Takes (receivedSegs segs written s) s ((receiveSegs segs written).run s).2 := by
  induction segs generalizing written s with
  | nil => exact .nil _
  | cons seg segs ih =>
    have hbytes := (receiveBytes_takes seg.len.toNat seg.hva written s).1
    rw [receiveSegs, receivedSegs, run_bind]
    dsimp only
    generalize (receiveBytes seg.len.toNat seg.hva written).run s = y at hbytes ⊢
    obtain ⟨⟨w, full⟩, s'⟩ := y
    cases full with
    | false =>
      rw [if_neg (by simp), List.append_nil]
      exact hbytes
    | true =>
      rw [if_pos rfl]
      exact hbytes.append (ih w s')

/-- The segments are filled one after the other. -/
theorem receiveSegs_stored (segs : List Seg) (written : BitVec 32) (s : St) :
    ((receiveSegs segs written).run s).2.mem = s.mem.scatter (segAddrs segs) (receivedSegs segs written s) ∧
      (receivedSegs segs written s).length ≤ (segAddrs segs).length ∧
        ((receiveSegs segs written).run s).1 = written + .ofNat 32 (receivedSegs segs written s).length := by
  induction segs generalizing written s with
  | nil => exact ⟨rfl, le_rfl, (BitVec.add_zero written).symm⟩
  | cons seg segs ih =>
    have hmem := (receiveBytes_takes seg.len.toNat seg.hva written s).2
    obtain ⟨hwritten, hle, hfull⟩ := receiveBytes_count seg.len.toNat seg.hva written s
    have hrange : (List.range' seg.hva seg.len.toNat).length = seg.len.toNat := List.length_range'
    rw [receiveSegs, receivedSegs, run_bind, segAddrs_cons]
    dsimp only
    generalize (receiveBytes seg.len.toNat seg.hva written).run s = y at hmem hwritten hfull ⊢
    obtain ⟨⟨w, full⟩, s'⟩ := y
    generalize receivedBytes seg.len.toNat seg.hva s = l at hmem hwritten hle hfull ⊢
    have hscatter : s.mem.scatter (List.range' seg.hva seg.len.toNat) l = s'.mem := by
      rw [ByteMem.scatter_range', List.take_of_length_le hle]
      exact hmem.symm
    cases full with
    -- the FIFO has run empty in this segment, so what follows is untouched
    | false =>
      simp only [Bool.false_eq_true, if_false, List.append_nil]
      rw [ByteMem.scatter_append_of_le (by omega), hscatter, List.length_append]
      exact ⟨rfl, by omega, hwritten⟩
    -- the segment is full
    | true =>
      obtain ⟨hrestMem, hrestLe, hrest⟩ := ih w s'
      have hlen : l.length = seg.len.toNat := hfull rfl
      simp only [if_true]
      generalize receivedSegs segs w s' = l' at hrestMem hrestLe hrest ⊢
      have hfirst : s.mem.scatter (List.range' seg.hva seg.len.toNat) (l ++ l') = s'.mem := by
        rw [ByteMem.scatter_range', List.take_left' hlen]
        exact hmem.symm
      refine ⟨?_, ?_, ?_⟩
      · rw [ByteMem.scatter_append (by rw [List.length_append]; omega), hfirst, hrange, List.drop_left' hlen]
        exact hrestMem
      · rw [List.length_append, List.length_append]
        omega
      · refine hrest.trans ?_
        show w + _ = _
        rw [show w = _ from hwritten, List.length_append, BitVec.ofNat_add, BitVec.add_assoc]

theorem filledWith (segs : List Seg) (s : St) : FilledWith segs s (receivedSegs segs 0 s) := by
  obtain ⟨hmem, hle, hwritten⟩ := receiveSegs_stored segs 0 s
  exact ⟨hmem, hle, congrArg some (hwritten.trans (BitVec.zero_add _))⟩

theorem EchoEvent.stored (e : EchoEvent) : e.Stored := by
  cases e with
  | sent bytes => trivial
  | filled segs s => exact filledWith segs s

theorem consoleReceive_echoes (head : BitVec 16) (segs : List Seg) (s : St) :
    Echoes (receiveLog head segs s) s ((consoleReceive segs).run s).2 := by
  unfold Echoes echoOps receiveLog
  rw [List.flatMap_singleton]
  exact receiveSegs_takes segs 0 s

/-- The bytes of the segments. -/
def segBytes (m : ByteMem) (segs : List Seg) : List (BitVec 8) := segs.flatMap fun seg => m.read seg.hva seg.len.toNat

theorem push_append (c : ConIn) (l l' : List (BitVec 8)) : c.push (l ++ l') = (c.push l).push l' := List.foldl_append

theorem push_counters (c : ConIn) (l : List (BitVec 8)) :
    (c.push l).head = c.head + .ofNat 32 l.length ∧ (c.push l).tail = c.tail := by
  induction l generalizing c with
  | nil => exact ⟨(BitVec.add_zero c.head).symm, rfl⟩
  | cons b l ih =>
    obtain ⟨hhead, htail⟩ := ih (c.push1 b)
    refine ⟨hhead.trans ?_, htail⟩
    show c.head + 1 + _ = _
    rw [List.length_cons, Nat.add_comm, BitVec.ofNat_add, BitVec.add_assoc]
    rfl

/-- One byte too many for the ring takes the place of the first one. -/
theorem bytes_push_overflow {c : ConIn} (hempty : c.head = c.tail) {l : List (BitVec 8)} (hl : l.length = conInSz)
    (b : BitVec 8) : (c.push (l ++ [b])).bytes.head? = some b := by
  obtain ⟨hhead, htail⟩ := push_counters c l
  rw [hl] at hhead
  have hlast : c.push (l ++ [b]) = (c.push l).push1 b := push_append c l [b]
  have hcount : ((c.push l).head + 1 - (c.push l).tail).toNat = 8193 := by
    rw [hhead, htail, hempty, BitVec.add_assoc, BitVec.add_comm, BitVec.add_sub_cancel]
    rfl
  have hcell : (c.push l).head.toNat % conInSz = (c.push l).tail.toNat % conInSz := by
    rw [hhead, htail, hempty, RingBuffer.cell_eq (by decide), Nat.add_mod_right]
  rw [hlast]
  show ((List.range ((c.push l).head + 1 - (c.push l).tail).toNat).map fun i =>
    Function.update (c.push l).buf ((c.push l).head.toNat % conInSz) b
      (((c.push l).tail.toNat + i) % conInSz)).head? = _
  rw [hcount, List.head?_map, List.head?_range, hcell]
  show some (Function.update (c.push l).buf _ b ((c.push l).tail.toNat % conInSz)) = _
  rw [Function.update_self]

theorem transmitSegs_conIn (segs : List Seg) (s : St) :
    ((transmitSegs segs).run s).2.conIn = s.conIn.push (segBytes s.mem segs) := by
  induction segs generalizing s with
  | nil => rfl
  | cons seg segs ih =>
    have hcons : segBytes s.mem (seg :: segs) = s.mem.read seg.hva seg.len.toNat ++ segBytes s.mem segs := rfl
    rw [hcons, push_append]
    exact ih { ((s.log (.read seg.hva seg.len.toNat)).log (.stdout (s.mem.read seg.hva seg.len.toNat))).log
      (.read seg.hva seg.len.toNat) with conIn := s.conIn.push (s.mem.read seg.hva seg.len.toNat) }

theorem transmitSegs_echoes (segs : List Seg) (s : St)
    (h : s.conIn.bytes.length + (segBytes s.mem segs).length ≤ conInSz) :
    Echoes [.sent (segBytes s.mem segs)] s ((transmitSegs segs).run s).2 := by
  unfold Echoes echoOps
  rw [transmitSegs_conIn, bytes_push s.conIn _ h, List.flatMap_singleton]
  exact .of_puts _ _

/-! ### A round -/

/-- What there is in a handler's hands: the chain of the entry, and nothing has changed. -/
structure Served (s : St) (d : Dev) (qi : Nat) (head : BitVec 16) (segs : List Seg) (s' : St) : Prop where
  conIn : s'.conIn = s.conIn
  chain : ∃ ds, ChainAt s'.mem s'.memSize (s'.vq d qi) head ds ∧ segs = (ds.map Desc.seg).take vqMaxSegs

theorem serveHead_conIn (handle : List Seg → V (Option (BitVec 32))) (d : Dev) (qi slot : Nat) (head : BitVec 16)
    (did : Bool) (s : St) : ((serveHead handle d qi slot head did).run s).2.conIn =
      match (gatherChain (s.vq d qi) head).run s with
      | (.ok segs, s') => ((handle segs).run s').2.conIn
      | _ => s.conIn := by
  have hgather := keepsConIn_services.gatherChain (s.vq d qi) head s
  unfold serveHead
  rw [run_bind, run_get, run_bind]
  dsimp only
  generalize (gatherChain (s.vq d qi) head).run s = y at hgather ⊢
  obtain ⟨r, s'⟩ := y
  cases r with
  | diverge => exact hgather
  | bad => exact hgather
  | ok segs =>
    dsimp only
    rw [run_bind]
    generalize (handle segs).run s' = y
    obtain ⟨r, s''⟩ := y
    cases r with
    | none => rfl
    | some len =>
      have hpush : ((pushUsed d qi head len).run s'').2.conIn = s''.conIn :=
        keepsConIn_services.toTransfers.pushUsed (fun _ => rfl) s''
      exact hpush

theorem served_spec {d : Dev} {qi ring : Nat} {idx : BitVec 16} {head : BitVec 16} {segs : List Seg}
    (h : served s d qi ring idx = some (head, segs, s')) : Served s d qi head segs s' := by
  unfold served at h
  split at h
  · cases h
  · dsimp only at h
    generalize hload : (guestLoad (ring + 2 * ((s.vq d qi).lastAvailIdx.toNat % (s.vq d qi).num.toNat)) 2).run s = y
      at h
    obtain ⟨n, s₁⟩ := y
    have hs₁ : s₁ = s.log (.read (ring + 2 * ((s.vq d qi).lastAvailIdx.toNat % (s.vq d qi).num.toNat)) 2) :=
      (congrArg Prod.snd hload).symm
    dsimp only at h
    have hconIn := keepsConIn_services.gatherChain (s₁.vq d qi) (.ofNat 16 n) s₁
    have hframe := gatherChain_frame (M := s₁.memSize) (W := ∅) (s₁.vq d qi) (.ofNat 16 n) s₁ rfl
    have hchain : ∀ segs', ((gatherChain (s₁.vq d qi) (.ofNat 16 n)).run s₁).1 = .ok segs' →
        ∃ ds, ChainAt s₁.mem s₁.memSize (s₁.vq d qi) (.ofNat 16 n) ds ∧ segs' = (ds.map Desc.seg).take vqMaxSegs :=
      fun _ => gatherChain_ok_iff.1
    generalize (gatherChain (s₁.vq d qi) (.ofNat 16 n)).run s₁ = y at h hconIn hframe hchain
    obtain ⟨r, s₂⟩ := y
    cases r with
    | diverge => cases h
    | bad => cases h
    | ok segs' =>
      cases h
      obtain ⟨ds, hat, hsegs⟩ := hchain segs rfl
      refine ⟨hconIn.trans (by rw [hs₁]; rfl), ds, ?_, hsegs⟩
      have hmem : s'.mem = s₁.mem := funext fun i => hframe.mem i (Set.notMem_empty i)
      have hvq : s'.vq d qi = s₁.vq d qi := by
        unfold St.vq
        rw [hframe.dev]
      show ChainAt s'.mem s'.memSize _ _ ds
      rw [hmem, hframe.memSize, hvq]
      exact hat

theorem Chain.descsFrom_eq {m : ByteMem} {memSize : BitVec 64} {num dt n : Nat} {idx : BitVec 16} {ds : List Desc}
    (h : Chain m memSize num dt idx ds) (hn : ds.length ≤ n) : descsFrom m dt n idx = ds := by
  induction h generalizing n with
  | last _ _ hnext =>
    obtain ⟨n, rfl⟩ := Nat.exists_eq_add_of_le' hn
    rw [List.length_singleton, descsFrom, if_neg (by simp [hnext])]
  | next _ _ hnext _ ih =>
    rw [List.length_cons] at hn
    obtain ⟨k, rfl⟩ : ∃ k, n = k + 1 := ⟨n - 1, by omega⟩
    rw [descsFrom, if_pos hnext, ih (by omega)]

/-- The segments hold all bytes of a chain that fits. -/
theorem Served.segBytes_eq {head : BitVec 16} {segs : List Seg} (h : Served s .console 1 head segs s')
    (hfits : ChainFits s' head) : segBytes s'.mem segs = s'.sentBytes head := by
  obtain ⟨ds, ⟨-, hchain⟩, rfl⟩ := h.chain
  have hds : s'.sentDescs head = ds := hchain.descsFrom_eq hchain.length_le
  have hrest := hfits.2
  unfold St.sentBytes
  rw [hds] at hrest ⊢
  have hdrop : ((ds.drop vqMaxSegs).flatMap fun desc => s'.mem.read desc.addr.toNat desc.len.toNat) = [] := by
    rw [List.flatMap_eq_nil_iff]
    intro desc hdesc
    rw [hrest desc hdesc]
    rfl
  conv_rhs => rw [← List.take_append_drop vqMaxSegs ds, List.flatMap_append, hdrop, List.append_nil]
  unfold segBytes
  rw [← List.map_take, List.flatMap_map]
  rfl

theorem serviceRound_conIn (handle : List Seg → V (Option (BitVec 32))) (d : Dev) (qi ring : Nat) (idx : BitVec 16)
    (did : Bool) (s : St) : ((serviceRound handle d qi ring idx did).run s).2.conIn =
      match served s d qi ring idx with
      | some (_, segs, s') => ((handle segs).run s').2.conIn
      | none => s.conIn := by
  unfold serviceRound served
  rw [run_bind, run_get]
  dsimp only
  rw [run_ite, run_ite]
  by_cases hidx : (s.vq d qi).lastAvailIdx = idx
  · rw [if_pos hidx, if_pos (.inl hidx)]
    rfl
  by_cases hwait : devCanConsume s d qi = false
  · rw [if_neg hidx, if_pos (by simpa using hwait), if_pos (.inr hwait)]
    rfl
  rw [if_neg hidx, if_neg (by simpa using hwait), if_neg (not_or.2 ⟨hidx, hwait⟩), run_bind]
  generalize hload : (guestLoad (ring + 2 * ((s.vq d qi).lastAvailIdx.toNat % (s.vq d qi).num.toNat)) 2).run s = y
  obtain ⟨n, s₁⟩ := y
  have hconIn : s₁.conIn = s.conIn := (congrArg (fun y => y.2.conIn) hload).symm
  dsimp only
  rw [serveHead_conIn]
  generalize (gatherChain (s₁.vq d qi) (.ofNat 16 n)).run s₁ = y
  obtain ⟨r, s₂⟩ := y
  cases r with
  | diverge => exact hconIn
  | bad => exact hconIn
  | ok segs => rfl

/-- A round, whatever the handler is. -/
theorem serviceRound_echoes {handle : List Seg → V (Option (BitVec 32))} {qi ring : Nat} {idx : BitVec 16}
    (hh : ∀ head segs s', served s .console qi ring idx = some (head, segs, s') →
      Echoes (log head segs s') s' ((handle segs).run s').2) (did : Bool) :
    Echoes (roundLog log qi ring idx s) s ((serviceRound handle .console qi ring idx did).run s).2 := by
  unfold Echoes roundLog
  rw [serviceRound_conIn]
  cases hserved : served s .console qi ring idx with
  | none => exact .nil _
  | some x =>
    obtain ⟨head, segs, s'⟩ := x
    have hrun := hh head segs s' hserved
    unfold Echoes at hrun
    rw [(served_spec hserved).conIn] at hrun
    exact hrun

/-! ### A call -/

/-- A call, when the handler fits its log wherever `P` holds of the round. -/
theorem serviceVq_echoes {qi : Nat} {P : Nat → BitVec 16 → St → Prop}
    (hh : ∀ ring idx s, P ring idx s → ∀ head segs s', served s .console qi ring idx = some (head, segs, s') →
      Echoes (log head segs s') s' ((devHandle .console qi segs).run s').2)
    (hok : ∀ c, ((serviceStart .console qi).run s).1 = .loop c →
      LoopAll (serviceRound (devHandle .console qi) .console qi c.ring c.idx) (fun _ s => P c.ring c.idx s)
        serviceFuel false ((serviceStart .console qi).run s).2) :
    Echoes (serviceLog log qi s) s ((serviceVq .console qi).run s).2 := by
  unfold serviceLog
  rw [serviceVq_eq, run_bind]
  rcases serviceStart_cases s .console qi with ⟨-, hstart⟩ | ⟨hstart, -⟩
  · rw [hstart]
    exact .refl s
  · have hrounds := hok (serviceCall s .console qi) (congrArg Prod.fst hstart)
    rw [hstart] at hrounds ⊢
    have hconIn : (s.log (.read ((s.vq .console qi).avail + 2).toNat 2)).conIn = s.conIn := rfl
    generalize s.log (.read ((s.vq .console qi).avail + 2).toNat 2) = s₁ at hconIn hrounds ⊢
    generalize hc : serviceCall s .console qi = c at hrounds ⊢
    have hd : c.d = .console := by rw [← hc]; rfl
    have hq : c.qi = qi := by rw [← hc]; rfl
    have hdid : c.did = false := by rw [← hc]; rfl
    have hloop : Echoes (loopLog (serviceRound (devHandle .console qi) .console qi c.ring c.idx)
        (fun _ s => roundLog log qi c.ring c.idx s) serviceFuel false s₁) s₁
        ((loopM (serviceRound (devHandle .console qi) .console qi c.ring c.idx) none serviceFuel false).run s₁).2 :=
      loopM_log Echoes.refl Echoes.append (fun did s hs => serviceRound_echoes (hh _ _ s hs) did)
        serviceFuel hrounds
    unfold Echoes at hloop ⊢
    rw [hconIn] at hloop
    unfold WorkerPc.finish
    dsimp only
    rw [run_bind, hd, hq, hdid]
    generalize (loopM (serviceRound (devHandle .console qi) .console qi c.ring c.idx) none serviceFuel false).run s₁ = y
      at hloop ⊢
    obtain ⟨r, s₂⟩ := y
    match r with
    | none => exact hloop
    | some false => exact hloop
    | some true =>
      -- raising the interrupt leaves the input alone
      have hraise : ((virtioRaiseIrq .console).run s₂).2.conIn = s₂.conIn := virtioRaiseIrq_conIn .console s₂
      show Fifo.Run s.conIn.bytes _ ((virtioRaiseIrq .console).run s₂).2.conIn.bytes
      rw [hraise]
      exact hloop

theorem serviceReceive_echoes (s : St) : Echoes (serviceLog receiveLog 0 s) s (serviceReceive.run s).2 := by
  refine serviceVq_echoes (P := fun _ _ _ => True) (fun ring idx s _ head segs s' _ => ?_) fun _ _ =>
    .of_forall fun _ _ => trivial
  exact consoleReceive_echoes head segs s'

theorem consoleTransmit_echoes {head : BitVec 16} {segs : List Seg} (h : Served s .console 1 head segs s')
    (hfits : ChainFits s' head) : Echoes (transmitLog head segs s') s' ((consoleTransmit segs).run s').2 := by
  have hbytes := h.segBytes_eq hfits
  have hsend := transmitSegs_echoes segs s' (by rw [hbytes]; exact hfits.1)
  rw [hbytes] at hsend
  have hreceive := serviceReceive_echoes ((transmitSegs segs).run s').2
  exact hsend.append hreceive

theorem devHandle_echoes {qi ring : Nat} {idx : BitVec 16} (hfits : RoundFits qi ring idx s) {head : BitVec 16}
    {segs : List Seg} (h : served s .console qi ring idx = some (head, segs, s')) :
    Echoes (consoleLog qi head segs s') s' ((devHandle .console qi segs).run s').2 := by
  show Echoes _ s' ((consoleHandle qi segs).run s').2
  unfold consoleLog consoleHandle
  by_cases hqi : qi = 1
  · subst hqi
    rw [if_pos rfl, if_pos rfl]
    exact consoleTransmit_echoes (served_spec h) (hfits rfl head segs s' h)
  · rw [if_neg hqi, if_neg hqi]
    exact consoleReceive_echoes head segs s'

/-! ### Runs -/

theorem virtioMmioWrite_conIn {off : Nat} (hoff : off ≠ vmmioQueueNotify) (d : Dev) (len : Nat) (val : BitVec 64)
    (s : St) : ((virtioMmioWrite d off len val).run s).2.conIn = s.conIn := by
  rw [virtioMmioWrite_run, if_neg hoff]
  split
  · rw [virtioLowerIrq_run]
    dsimp only
    split
    · rfl
    · rfl
  split
  · rfl
  · rfl

theorem step_echoes {t : Threads} {a : ThreadAct} (h : a.Fits t) : Echoes (a.echoLog t) t.st (a.step t).st := by
  cases a with
  | store mem => exact .refl _
  | mmioWrite d off len val =>
    show Echoes (if d = .console ∧ off = vmmioQueueNotify then _ else _) t.st
      ((virtioMmioWrite d off len val).run t.st).2
    by_cases hnotify : d = .console ∧ off = vmmioQueueNotify
    · obtain ⟨rfl, rfl⟩ := hnotify
      rw [if_pos ⟨rfl, rfl⟩, virtioMmioWrite_run, if_pos rfl]
      exact serviceVq_echoes (fun _ _ _ hok _ _ _ => devHandle_echoes hok) (h rfl rfl)
    rw [if_neg hnotify]
    by_cases hoff : off = vmmioQueueNotify
    · -- the block device does not touch the FIFO
      have hblk : d = .blk := by
        cases d with
        | console => exact absurd ⟨rfl, hoff⟩ hnotify
        | blk => rfl
      rw [hblk, hoff, virtioMmioWrite_run, if_pos rfl]
      exact .of_eq (keepsConIn_services.serviceVq _ t.st)
    · exact .of_eq (virtioMmioWrite_conIn hoff d len val t.st)
  | start d qi =>
    unfold ThreadAct.step
    dsimp only
    split
    · refine .of_eq ?_
      rcases serviceStart_cases t.st d qi with ⟨-, hstart⟩ | ⟨hstart, -⟩
      · rw [hstart]
      · rw [hstart]
        rfl
    · exact .refl _
  | iter =>
    unfold ThreadAct.step ThreadAct.echoLog
    dsimp only
    cases hw : t.worker with
    | loop c =>
      dsimp only
      by_cases hd : c.d = .console
      · rw [if_pos hd]
        -- the only iterations that move bytes
        have hround := serviceRound_echoes (fun _ _ _ => devHandle_echoes (h c hw hd)) c.did
        unfold serviceIter
        rw [hd]
        exact hround
      · have hblk : c.d = .blk := by
          cases hc : c.d with
          | console => exact absurd hc hd
          | blk => rfl
        rw [if_neg hd]
        unfold serviceIter
        rw [hblk]
        exact .of_eq (keepsConIn_services.serviceRound (keepsConIn_services.devHandle c.qi) _ _ _ _ t.st)
    | idle => exact .refl _
    | raise d => exact .refl _
    | stuck => exact .refl _
  | raise =>
    unfold ThreadAct.step
    dsimp only
    split
    · exact .of_eq (virtioRaiseIrq_conIn _ t.st)
    · exact .refl _

/-- In every run in which every chain on the transmit queue fits when it is served the echo is a queue. -/
theorem echo_of_fits (mem : ByteMem) (memSize : BitVec 64) (content : List (BitVec 8)) (useEventfd : Bool)
    (stale : ByteMem) (acts : List ThreadAct)
    (h : AllSteps ThreadAct.step ThreadAct.Fits ⟨.initial mem memSize content useEventfd stale, .idle⟩ acts) :
    EchoLaw ⟨.initial mem memSize content useEventfd stale, .idle⟩ acts := by
  have hempty : (St.initial mem memSize content useEventfd stale).conIn.bytes = [] :=
    RingBuffer.contents_self
  have hrun : ∀ pre, pre <+: acts →
      Fifo.Run [] (echoOps (Threads.echo ⟨.initial mem memSize content useEventfd stale, .idle⟩ pre))
        (runSteps ThreadAct.step ⟨.initial mem memSize content useEventfd stale, .idle⟩ pre).st.conIn.bytes := by
    rintro pre ⟨rest, rfl⟩
    have hpre := (allSteps_append.1 h).1
    rw [← hempty]
    exact hpre.log (R := fun ops t t' => Echoes ops t.st t'.st) (fun t => .refl t.st) Echoes.append
      fun _ _ ha => step_echoes ha
  refine ⟨fun ops hops => (hrun acts List.prefix_rfl).takes_isPrefix hops, fun pre hpre => ?_, fun e _ => e.stored⟩
  exact (hrun pre hpre).takes_append_eq

/-- The receive queue of the console has a table at 0x4000 and rings at 0x5000 and 0x6000, the transmit queue
has its table at 0x1000 and rings at 0x2000 and 0x3000; both have one entry. -/
def consoleSetup : List ThreadAct :=
  [.mmioWrite .console vmmioQueueNum 4 1, .mmioWrite .console vmmioQueueDescLow 4 0x4000,
    .mmioWrite .console vmmioQueueAvailLow 4 0x5000, .mmioWrite .console vmmioQueueUsedLow 4 0x6000,
    .mmioWrite .console vmmioQueueReady 4 1, .mmioWrite .console vmmioQueueSel 4 1,
    .mmioWrite .console vmmioQueueNum 4 1, .mmioWrite .console vmmioQueueDescLow 4 0x1000,
    .mmioWrite .console vmmioQueueAvailLow 4 0x2000, .mmioWrite .console vmmioQueueUsedLow 4 0x3000,
    .mmioWrite .console vmmioQueueReady 4 1]

/-- A chain of `n` bytes at 0x8000, the first of them 1, waits on the transmit queue. -/
def sendMem (n : Nat) : ByteMem :=
  ByteMem.write (fun _ => 0) 0x1000 (leBytes 8 0x8000 ++ leBytes 4 n) |>.store 0x2002 2 1 |>.store 0x8000 1 1

/-- The law says of the first step that sends anything. -/
theorem EchoLaw.last {t : Threads} {pre : List ThreadAct} {a : ThreadAct} (h : EchoLaw t (pre ++ [a]))
    (hpre : t.echo pre = []) :
    Fifo.takes (echoOps (a.echoLog (runSteps ThreadAct.step t pre))) ++
        (a.step (runSteps ThreadAct.step t pre)).st.conIn.bytes =
      Fifo.puts (echoOps (a.echoLog (runSteps ThreadAct.step t pre))) := by
  have hlaw := h.pending _ List.prefix_rfl
  unfold Threads.echo at hlaw hpre
  rw [stepsLog_append, hpre, runSteps_append, List.nil_append, stepsLog, stepsLog, List.append_nil] at hlaw
  exact hlaw

/-- The iteration that serves a chain of one byte too many. -/
theorem iter_overflow {t : Threads} {ring : Nat} {idx head : BitVec 16} {hva : Nat} {len : BitVec 32}
    {writable did : Bool} (hworker : t.worker = .loop ⟨.console, 1, ring, idx, did⟩)
    (hserved : served t.st .console 1 ring idx = some (head, [⟨hva, len, writable⟩], s')) (hlen : len = 8193)
    (hempty : s'.conIn.head = s'.conIn.tail)
    (hlog : serviceLog receiveLog 0 ((transmitSegs [⟨hva, len, writable⟩]).run s').2 = []) :
    ThreadAct.iter.echoLog t = [.sent (s'.sentBytes head)] ∧
      (ThreadAct.iter.step t).st.conIn.bytes.head? = some (s'.mem (hva + conInSz)) := by
  constructor
  · unfold ThreadAct.echoLog
    rw [hworker]
    show roundLog transmitLog 1 ring idx t.st = _
    unfold roundLog
    rw [hserved]
    show .sent (s'.sentBytes head) :: serviceLog receiveLog 0 _ = _
    rw [hlog]
  · -- the byte at the head of the ring is the last one of the chain
    have hstep : (ThreadAct.iter.step t).st.conIn =
        (serviceReceive.run ((transmitSegs [⟨hva, len, writable⟩]).run s').2).2.conIn := by
      unfold ThreadAct.step
      rw [hworker]
      have hround := serviceRound_conIn (devHandle .console 1) .console 1 ring idx did t.st
      rw [hserved] at hround
      exact hround
    have hreceive := serviceReceive_echoes ((transmitSegs [⟨hva, len, writable⟩]).run s').2
    rw [hlog] at hreceive
    have hbytes : (ThreadAct.iter.step t).st.conIn.bytes =
        ((transmitSegs [⟨hva, len, writable⟩]).run s').2.conIn.bytes := by
      rw [hstep]
      exact hreceive.takes_append_eq.trans (List.append_nil _)
    have hread : segBytes s'.mem [⟨hva, len, writable⟩] = s'.mem.read hva conInSz ++ [s'.mem (hva + conInSz)] := by
      unfold segBytes
      rw [List.flatMap_singleton, hlen]
      exact ByteMem.read_add s'.mem hva conInSz 1
    rw [hbytes, transmitSegs_conIn, hread]
    exact bytes_push_overflow hempty (ByteMem.length_read ..) _

/-- With 8193 bytes the ring loses the first one. -/
theorem not_echo : ¬∀ (mem : ByteMem) (memSize : BitVec 64) (content : List (BitVec 8)) (useEventfd : Bool)
    (stale : ByteMem) (acts : List ThreadAct), EchoLaw ⟨.initial mem memSize content useEventfd stale, .idle⟩ acts := by
  intro h
  have hlaw := (h (sendMem 8193) 0x4000000 [] true (fun _ => 0) (consoleSetup ++ [.start .console 1] ++ [.iter])).last
    (by decide +kernel)
  have hworker : (runSteps ThreadAct.step ⟨.initial (sendMem 8193) 0x4000000 [] true fun _ => 0, .idle⟩
      (consoleSetup ++ [.start .console 1])).worker = .loop ⟨.console, 1, 0x2004, 1, false⟩ := by decide +kernel
  have hserved : ∃ x ∈ served (runSteps ThreadAct.step ⟨.initial (sendMem 8193) 0x4000000 [] true fun _ => 0, .idle⟩
      (consoleSetup ++ [.start .console 1])).st .console 1 0x2004 1,
      x.2.1 = [⟨0x8000, 8193, false⟩] ∧ x.2.2.conIn.head = x.2.2.conIn.tail ∧ x.2.2.mem (0x8000 + conInSz) = 0 ∧
        (x.2.2.sentBytes x.1).head? = some 1 ∧ serviceLog receiveLog 0 ((transmitSegs x.2.1).run x.2.2).2 = [] := by
    decide +kernel
  generalize runSteps ThreadAct.step ⟨.initial (sendMem 8193) 0x4000000 [] true fun _ => 0, .idle⟩
    (consoleSetup ++ [.start .console 1]) = t at hlaw hworker hserved
  obtain ⟨⟨head, segs, s'⟩, hround, hsegs, hempty, hlast, hfirst, hlog⟩ := hserved
  dsimp only at hsegs hempty hlast hfirst hlog
  subst hsegs
  obtain ⟨hiter, hbytes⟩ := iter_overflow hworker hround rfl hempty hlog
  have hops : echoOps [.sent (s'.sentBytes head)] = (s'.sentBytes head).map .put := List.flatMap_singleton ..
  rw [hiter, hops, Fifo.takes_map_put, Fifo.puts_map_put, List.nil_append] at hlaw
  rw [hlaw, hfirst, hlast] at hbytes
  exact absurd hbytes (by decide)

/-- Three bytes go out, and two of them come back. -/
theorem echo_of_fits_three : EchoLaw
    ⟨.initial ((sendMem 3).write 0x4000 (leBytes 8 0x7000 ++ leBytes 4 2 ++ leBytes 2 2) |>.store 0x5002 2 1)
      0x4000000 [] true fun _ => 0, .idle⟩ (consoleSetup ++ [.start .console 1, .iter, .raise]) := by
  refine echo_of_fits _ _ _ _ _ _ ?_
  have hsetup {off : Nat} (val : BitVec 64) (hoff : off ≠ vmmioQueueNotify) (t : Threads) :
      (ThreadAct.mmioWrite .console off 4 val).Fits t := fun _ h => absurd h hoff
  refine allSteps_append.2 ⟨?_, trivial, ?_, trivial, trivial⟩
  · refine ⟨hsetup _ ?_ _, hsetup _ ?_ _, hsetup _ ?_ _, hsetup _ ?_ _, hsetup _ ?_ _, hsetup _ ?_ _, hsetup _ ?_ _,
      hsetup _ ?_ _, hsetup _ ?_ _, hsetup _ ?_ _, hsetup _ ?_ _, trivial⟩ <;> decide
  · intro c hc _
    have hcall : c = ⟨.console, 1, 0x2004, 1, false⟩ := by
      refine (WorkerPc.loop.inj (hc.symm.trans ?_))
      decide +kernel
    rw [hcall]
    decide +kernel

end MiniVirt.Vmm
