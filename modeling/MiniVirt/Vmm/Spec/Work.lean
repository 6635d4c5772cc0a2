import MiniVirt.Vmm.VirtioMmio

/-!
# What serving a queue changes

`Transfers G` says that a guarantee allows what happens between an entry of the avail ring and the used
ring, and `Services d G` that it allows the steps of `service_vq()` for device `d`; the programs then keep
it.  `work` is such a guarantee: the devices stay as they are, and no queue reports anything.  `serves d`
is another one: the set-up of the queues stays, other devices stay, and every queue's `last_avail_idx`
moves on by the number of entries it reports as consumed.
-/

namespace MiniVirt.Vmm

/-! ### Set-up -/

/-- What the driver sets up in a queue. -/
def Vq.config (q : Vq) : Vq := { q with lastAvailIdx := 0 }

/-- The size of guest RAM and the set-up of the queues. -/
structure Layout where
  memSize : BitVec 64
  vq : Dev → Nat → Vq

def St.layout (s : St) : Layout := ⟨s.memSize, fun d qi => (s.vq d qi).config⟩

variable {L : Layout} {α : Type}

theorem layout_vq {s : St} (hs : s.layout = L) (d : Dev) (qi : Nat) :
    (s.vq d qi).config = L.vq d qi := by
  rw [← hs]
  rfl

theorem layout_num {s : St} (hs : s.layout = L) (d : Dev) (qi : Nat) :
    (s.vq d qi).num = (L.vq d qi).num := by
  rw [← layout_vq hs d qi]
  rfl

theorem layout_memSize {s : St} (hs : s.layout = L) : s.memSize = L.memSize :=
  congrArg Layout.memSize hs

theorem vq_setDev_self (s : St) (d : Dev) (v : VirtioDev) (qi : Nat) :
    (s.setDev d v).vq d qi = v.vq qi := by
  unfold St.vq
  rw [St.dev_setDev_self]

theorem vq_setDev_of_ne {d d' : Dev} (h : d' ≠ d) (s : St) (v : VirtioDev) (qi : Nat) :
    (s.setDev d v).vq d' qi = s.vq d' qi := by
  unfold St.vq
  rw [St.dev_setDev_of_ne h]

theorem layout_setDev {s : St} {d : Dev} {v : VirtioDev}
    (h : ∀ qi, (v.vq qi).config = (s.vq d qi).config) : (s.setDev d v).layout = s.layout := by
  have hvq : ∀ d' qi, ((s.setDev d v).vq d' qi).config = (s.vq d' qi).config := by
    intro d' qi
    by_cases hd : d' = d
    · rw [hd, vq_setDev_self, h qi]
    · rw [vq_setDev_of_ne hd]
  exact congrArg (Layout.mk s.memSize) (funext fun d' => funext fun qi => hvq d' qi)

theorem config_setVq {v : VirtioDev} {qi : Nat} {q : Vq} (h : q.config = (v.vq qi).config) (i : Nat) :
    ((v.setVq qi q).vq i).config = (v.vq i).config := by
  by_cases hi : i = qi
  · rw [hi, VirtioDev.vq_setVq_self, h]
  · rw [VirtioDev.vq_setVq_of_ne hi]

/-! ### Between the rings -/

/-- An access to guest RAM, or output. -/
def Event.isTransfer : Event → Bool
  | .read .. | .write .. | .stdout _ => true
  | _ => false

/-- The guarantee allows transfers of the block device: they change guest RAM, the file and the stack. -/
structure Transfers (G : Guarantee St) : Prop where
  log : ∀ (s : St) (e : Event), e.isTransfer = true → G.rel s (s.log e)
  data : ∀ (s : St) mem blk stale, G.rel s { s with mem := mem, blk := blk, stale := stale }

/-- It allows those of the console, which change its FIFO as well. -/
structure ConsoleTransfers (G : Guarantee St) : Prop extends Transfers G where
  conIn : ∀ (s : St) c, G.rel s { s with conIn := c }

theorem conInPop_run (s : St) :
    conInPop.run s =
      if s.conIn.tail = s.conIn.head then (none, s)
      else (some (s.conIn.buf (s.conIn.tail.toNat % conInSz)),
        { s with conIn := { s.conIn with tail := s.conIn.tail + 1 } }) := by
  unfold conInPop
  rw [run_bind, run_get]
  dsimp only
  rw [run_ite]
  rfl

section Transfers

variable {G : Guarantee St}

/-- A call on the backing file; what it returns comes from some state of the file. -/
theorem Within.fileIo_bind {α β : Type} (hG : ∀ (s : St) blk, G.rel s { s with blk := blk })
    (f : BlkBackend → α × BlkBackend) {k : α → V β} (hk : ∀ blk, Within G (k (f blk).1)) :
    Within G (fileIo f >>= k) := fun s =>
  G.trans (hG s (f s.blk).2) (hk s.blk { s with blk := (f s.blk).2 })

/-- The walk only reads. -/
theorem gatherLoop_within (hread : ∀ s off len, G.rel s (s.log (.read off len))) (vq : Vq) (dt fuel : Nat)
    (idx : BitVec 16) (guard : BitVec 32) (segs : List Seg) : Within G (gatherLoop vq dt fuel idx guard segs) := by
  induction fuel generalizing idx guard segs with
  | zero => exact .pure _
  | succ fuel ih =>
    refine .ite (.pure _) (Within.bind (fun s => hread s _ _) fun _ => Within.get.bind fun s => ?_)
    dsimp only
    split
    · exact .pure _
    · exact .ite (ih _ _ _) (.pure _)

theorem gatherChain_within (hread : ∀ s off len, G.rel s (s.log (.read off len))) (vq : Vq) (head : BitVec 16) :
    Within G (gatherChain vq head) := by
  refine Within.get.bind fun s => ?_
  split
  · exact .pure _
  · exact gatherLoop_within hread _ _ _ _ _ _

namespace Transfers

theorem guestRead (h : Transfers G) (off n : Nat) : Within G (guestRead off n) :=
  Within.bind (fun s => h.log s _ rfl) fun _ => Within.get.bind fun _ => .pure _

theorem guestLoad (h : Transfers G) (off n : Nat) : Within G (guestLoad off n) :=
  Within.bind (fun s => h.log s _ rfl) fun _ => Within.get.bind fun _ => .pure _

theorem guestWrite (h : Transfers G) (off : Nat) (l : List (BitVec 8)) : Within G (guestWrite off l) :=
  Within.bind (fun s => h.log s _ rfl) fun _ => fun s => h.data s _ s.blk s.stale

theorem guestStore (h : Transfers G) (off n v : Nat) : Within G (guestStore off n v) := h.guestWrite _ _

theorem takeStale (h : Transfers G) (n : Nat) : Within G (takeStale n) := fun s => h.data s s.mem s.blk _

theorem gatherChain (h : Transfers G) (vq : Vq) (head : BitVec 16) : Within G (gatherChain vq head) :=
  gatherChain_within (fun s _ _ => h.log s _ rfl) vq head

theorem chainReadLoop (h : Transfers G) (len : Nat) (segs : List Seg) (off : Nat) (d : List (BitVec 8)) :
    Within G (chainReadLoop len segs off d) := by
  induction segs generalizing off d with
  | nil => exact .pure _
  | cons g segs ih => exact .ite (.pure _) (.ite (ih _ _) ((h.guestRead _ _).bind fun _ => ih _ _))

theorem chainRead (h : Transfers G) (segs : List Seg) (off : Nat) (dst : List (BitVec 8)) :
    Within G (chainRead segs off dst) := (h.chainReadLoop _ _ _ _).bind fun _ => .pure _

theorem blkIn (h : Transfers G) (status : Nat) (data : List Seg) (off : BitVec 64) (total : BitVec 32) :
    Within G (blkIn status data off total) := by
  induction data generalizing off total with
  | nil => exact .pure _
  | cons g data ih =>
    refine Within.fileIo_bind (fun s blk => h.data s s.mem blk s.stale) _ fun blk => ?_
    split
    · exact (h.guestStore _ _ _).bind fun _ => .pure _
    · exact (h.guestWrite _ _).bind fun _ => .ite (.pure _) (ih _ _)

theorem blkOut (h : Transfers G) (status : Nat) (data : List Seg) (off : BitVec 64) :
    Within G (blkOut status data off) := by
  induction data generalizing off with
  | nil => exact .pure _
  | cons g data ih =>
    refine (h.guestRead _ _).bind fun l => Within.fileIo_bind (fun s blk => h.data s s.mem blk s.stale) _ fun blk => ?_
    split
    · exact h.guestStore _ _ _
    · exact .ite (.pure _) (ih _)

/-- What follows the first store of the status byte. -/
theorem blkRequest_rest (h : Transfers G) (hdr : List (BitVec 8)) (data : List Seg) (status : Nat) (s : St) :
    G.rel ((Vmm.guestStore status 1 virtioBlkSOk).run s).2 ((blkRequest hdr data status).run s).2 := by
  have hrest := Within.ite (c := leNat (hdr.take 4) = virtioBlkTIn)
    ((h.blkIn status data (.ofNat 64 (leNat ((hdr.drop 8).take 8)) * 512) 0).bind
      fun total => .pure (total + 1))
    (Within.ite (c := leNat (hdr.take 4) = virtioBlkTOut)
      ((h.blkOut status data (.ofNat 64 (leNat ((hdr.drop 8).take 8)) * 512)).bind fun _ => .pure 1)
      (Within.ite (c := leNat (hdr.take 4) = virtioBlkTFlush) (.pure 1)
        ((h.guestStore status 1 virtioBlkSUnsupp).bind fun _ => .pure 1)))
  exact hrest ((Vmm.guestStore status 1 virtioBlkSOk).run s).2

theorem blkRequest (h : Transfers G) (hdr : List (BitVec 8)) (data : List Seg) (status : Nat) :
    Within G (blkRequest hdr data status) := fun s =>
  G.trans (h.guestStore _ _ _ s) (h.blkRequest_rest hdr data status s)

theorem blkHandle (h : Transfers G) (segs : List Seg) : Within G (blkHandle segs) := by
  match segs with
  | [] => exact .pure _
  | [_] => exact .pure _
  | first :: second :: rest =>
    refine (h.takeStale 16).bind fun dst => (h.chainRead _ _ dst).bind fun hdr => ?_
    exact (h.blkRequest _ _ _).bind fun _ => .pure _

theorem pushUsed (h : Transfers G) {d : Dev} {qi : Nat} {head : BitVec 16} {len : BitVec 32}
    (hused : ∀ s : St, G.rel s (s.log (.used d qi head len))) : Within G (pushUsed d qi head len) := by
  refine Within.get.bind fun s => ?_
  dsimp only
  split
  · refine (h.guestLoad _ _).bind fun u => (h.guestStore _ _ _).bind fun _ => ?_
    refine (h.guestStore _ _ _).bind fun _ => (h.guestStore _ _ _).bind fun _ => ?_
    exact hused
  · exact .pure _

end Transfers

namespace ConsoleTransfers

theorem conInPop (h : ConsoleTransfers G) : Within G conInPop := by
  intro s
  rw [conInPop_run]
  split
  · exact G.refl s
  · exact h.conIn s _

theorem receiveBytes (h : ConsoleTransfers G) (n p : Nat) (written : BitVec 32) :
    Within G (receiveBytes n p written) := by
  induction n generalizing p written with
  | zero => exact .pure _
  | succ n ih =>
    refine h.conInPop.bind fun r => ?_
    cases r with
    | none => exact .pure _
    | some b => exact (h.guestWrite _ _).bind fun _ => ih _ _

theorem receiveSegs (h : ConsoleTransfers G) (segs : List Seg) (written : BitVec 32) :
    Within G (receiveSegs segs written) := by
  induction segs generalizing written with
  | nil => exact .pure _
  | cons g segs ih => exact (h.receiveBytes _ _ _).bind fun r => .ite (ih _) (.pure _)

theorem consoleReceive (h : ConsoleTransfers G) (segs : List Seg) : Within G (consoleReceive segs) :=
  (h.receiveSegs segs 0).bind fun _ => .pure _

theorem transmitSegs (h : ConsoleTransfers G) (segs : List Seg) : Within G (transmitSegs segs) := by
  induction segs with
  | nil => exact .pure _
  | cons g segs ih =>
    refine (h.guestRead _ _).bind fun out => ?_
    refine Within.bind (fun s => h.log s (.stdout out) rfl) fun _ => ?_
    exact (h.guestRead _ _).bind fun echo => Within.bind (fun s => h.conIn s _) fun _ => ih

end ConsoleTransfers

end Transfers

/-! ### `service_vq()` -/

/-- The guarantee allows the steps of `service_vq()` for queue `qi` of `d`, less the handler and `last_avail_idx`. -/
structure QueueServices (d : Dev) (qi : Nat) (G : Guarantee St) : Prop extends Transfers G where
  used : ∀ (s : St) head len, G.rel s (s.log (.used d qi head len))
  raise : Within G (virtioRaiseIrq d)

namespace QueueServices

variable {G : Guarantee St} {d : Dev} {qi slot ring : Nat} {handle : List Seg → V (Option (BitVec 32))}

theorem pushUsed (h : QueueServices d qi G) (head : BitVec 16) (len : BitVec 32) : Within G (pushUsed d qi head len) :=
  h.toTransfers.pushUsed fun s => h.used s head len

theorem serveHead (h : QueueServices d qi G) (hh : ∀ segs, Within G (handle segs))
    (hadvance : ∀ head, Within G (advance d qi slot head)) (head : BitVec 16) (did : Bool) :
    Within G (serveHead handle d qi slot head did) := by
  refine Within.get.bind fun s => (h.gatherChain _ _).bind fun r => ?_
  cases r with
  | diverge => exact .pure _
  | bad => exact (hadvance head).bind fun _ => .pure _
  | ok segs =>
    refine (hh segs).bind fun r => ?_
    cases r with
    | none => exact .pure _
    | some len => exact (h.pushUsed head len).bind fun _ => (hadvance head).bind fun _ => .pure _

theorem serviceRound (h : QueueServices d qi G) (hh : ∀ segs, Within G (handle segs))
    (hadvance : ∀ slot head, Within G (advance d qi slot head)) (ring : Nat) (idx : BitVec 16) (did : Bool) :
    Within G (serviceRound handle d qi ring idx did) := by
  refine Within.get.bind fun s => .ite (.pure _) (.ite (.pure _) ?_)
  exact (h.guestLoad _ _).bind fun _ => h.serveHead hh (hadvance _) _ _

theorem serviceRing (h : QueueServices d qi G)
    (hround : ∀ idx did, Within G (Vmm.serviceRound handle d qi ring idx did)) (availIdx : Nat) :
    Within G (serviceRing handle d qi availIdx ring) := by
  refine (h.guestLoad _ _).bind fun idx => (Within.loopM (hround _) _ _).bind fun r => ?_
  cases r with
  | none => exact .pure _
  | some did =>
    cases did
    · exact .pure _
    · exact h.raise.bind fun _ => .pure _

theorem serviceWith (h : QueueServices d qi G)
    (hround : ∀ ring idx did, Within G (Vmm.serviceRound handle d qi ring idx did)) :
    Within G (serviceWith handle d qi) := by
  refine Within.get.bind fun s => .ite (.pure _) ?_
  split
  · exact h.serviceRing (hround _) _
  · exact .pure _

end QueueServices

/-- The guarantee allows the steps of `service_vq()` for device `d`. -/
structure Services (d : Dev) (G : Guarantee St) : Prop extends Transfers G where
  conIn : d = .console → ∀ (s : St) c, G.rel s { s with conIn := c }
  advance : ∀ qi slot head, Within G (advance d qi slot head)
  used : ∀ (s : St) qi head len, G.rel s (s.log (.used d qi head len))
  raise : Within G (virtioRaiseIrq d)

namespace Services

variable {G : Guarantee St} {d : Dev} {handle : List Seg → V (Option (BitVec 32))}

theorem console (h : Services .console G) : ConsoleTransfers G := ⟨h.toTransfers, h.conIn rfl⟩

theorem queue (h : Services d G) (qi : Nat) : QueueServices d qi G := ⟨h.toTransfers, fun s => h.used s qi, h.raise⟩

theorem pushUsed (h : Services d G) (qi : Nat) (head : BitVec 16) (len : BitVec 32) :
    Within G (pushUsed d qi head len) := (h.queue qi).pushUsed head len

theorem serviceRound (h : Services d G) (hh : ∀ segs, Within G (handle segs)) (qi ring : Nat)
    (idx : BitVec 16) (did : Bool) : Within G (serviceRound handle d qi ring idx did) :=
  (h.queue qi).serviceRound hh (h.advance qi) ring idx did

theorem serviceWith (h : Services d G) (hh : ∀ segs, Within G (handle segs)) (qi : Nat) :
    Within G (serviceWith handle d qi) := (h.queue qi).serviceWith (h.serviceRound hh qi)

theorem serviceReceive (h : Services .console G) : Within G serviceReceive :=
  h.serviceWith h.console.consoleReceive 0

theorem devHandle (h : Services d G) (qi : Nat) (segs : List Seg) : Within G (devHandle d qi segs) := by
  cases d with
  | blk => exact h.blkHandle segs
  | console =>
    show Within G (consoleHandle qi segs)
    refine .ite ?_ (h.console.consoleReceive segs)
    exact (h.console.transmitSegs segs).bind fun _ => h.serviceReceive.bind fun _ => .pure _

theorem serviceVq (h : Services d G) (qi : Nat) : Within G (serviceVq d qi) :=
  h.serviceWith (h.devHandle qi) qi

end Services

/-! ### Nothing is reported -/

/-- The events by which `service_vq()` reports on a queue. -/
def Event.isQueue : Event → Bool
  | .used .. | .consumed .. => true
  | _ => false

/-- `s'` differs from `s` by work on a chain. -/
structure Work (s s' : St) : Prop where
  memSize : s'.memSize = s.memSize
  dev : s'.dev = s.dev
  useEventfd : s'.useEventfd = s.useEventfd
  trace : ∃ es, s'.trace = s.trace ++ es ∧ ∀ e ∈ es, e.isQueue = false

def work : Guarantee St where
  rel := Work
  refl _ := ⟨rfl, rfl, rfl, [], (List.append_nil _).symm, by simp⟩
  trans := by
    intro s₁ s₂ s₃ h₁ h₂
    obtain ⟨es₁, ht₁, he₁⟩ := h₁.trace
    obtain ⟨es₂, ht₂, he₂⟩ := h₂.trace
    refine ⟨h₂.memSize.trans h₁.memSize, h₂.dev.trans h₁.dev, h₂.useEventfd.trans h₁.useEventfd,
      es₁ ++ es₂, ?_, ?_⟩
    · rw [ht₂, ht₁, List.append_assoc]
    · intro e he
      rcases List.mem_append.1 he with he | he
      · exact he₁ e he
      · exact he₂ e he

theorem Work.layout {s s' : St} (h : Work s s') : s'.layout = s.layout := by
  unfold St.layout St.vq
  rw [h.memSize, h.dev]

theorem work_transfers : Transfers work := by
  refine ⟨fun s e he => ⟨rfl, rfl, rfl, [e], rfl, ?_⟩, fun s _ _ _ =>
    ⟨rfl, rfl, rfl, [], (List.append_nil _).symm, by simp⟩⟩
  intro e' he'
  rw [List.mem_singleton.1 he']
  cases e <;> first | rfl | cases he

/-! ### What is consumed -/

/-- Where the entries of the avail ring start, with the one in slot 0. -/
def Vq.availRing (vq : Vq) : Nat := (vq.avail + 4).toNat

/-- Where the entry is that is next. -/
def Vq.slot (vq : Vq) : Nat := vq.availRing + 2 * (vq.lastAvailIdx.toNat % vq.num.toNat)

/-- Queue `qi` of `d` is done with an entry. -/
def Event.isConsumed (d : Dev) (qi : Nat) : Event → Bool
  | .consumed d' qi' _ _ => d' = d ∧ qi' = qi
  | _ => false

/-- `s'` differs from `s` by `service_vq()` for queues of `d`. -/
structure Serves (d : Dev) (s s' : St) : Prop where
  layout : s'.layout = s.layout
  useEventfd : s'.useEventfd = s.useEventfd
  other : ∀ d', d' ≠ d → s'.dev d' = s.dev d'
  trace : ∃ es, s'.trace = s.trace ++ es ∧ ∀ d' qi, (s'.vq d' qi).lastAvailIdx =
    (s.vq d' qi).lastAvailIdx + .ofNat 16 (es.countP (Event.isConsumed d' qi))

def serves (d : Dev) : Guarantee St where
  rel := Serves d
  refl _ := ⟨rfl, rfl, fun _ _ => rfl, [], (List.append_nil _).symm, fun _ _ => (BitVec.add_zero _).symm⟩
  trans := by
    intro s₁ s₂ s₃ h₁ h₂
    obtain ⟨es₁, ht₁, hl₁⟩ := h₁.trace
    obtain ⟨es₂, ht₂, hl₂⟩ := h₂.trace
    refine ⟨h₂.layout.trans h₁.layout, h₂.useEventfd.trans h₁.useEventfd,
      fun d' hd => (h₂.other d' hd).trans (h₁.other d' hd), es₁ ++ es₂, ?_, ?_⟩
    · rw [ht₂, ht₁, List.append_assoc]
    · intro d' qi
      rw [hl₂, hl₁, List.countP_append, BitVec.ofNat_add, BitVec.add_assoc]

variable {d : Dev}

/-- An event other than a queue's report that it is done with an entry. -/
theorem Serves.of_log (s : St) {e : Event} (he : ∀ d' qi, e.isConsumed d' qi = false) :
    Serves d s (s.log e) := by
  refine ⟨rfl, rfl, fun _ _ => rfl, [e], rfl, fun d' qi => ?_⟩
  rw [List.countP_singleton, he]
  exact (BitVec.add_zero _).symm

theorem countP_isConsumed {es : List Event} (h : ∀ e ∈ es, e.isQueue = false) (d : Dev) (qi : Nat) :
    es.countP (Event.isConsumed d qi) = 0 := by
  rw [List.countP_eq_zero]
  intro e hmem
  have hq := h e hmem
  cases e <;> simp_all [Event.isQueue, Event.isConsumed]

theorem Work.serves {s s' : St} (h : Work s s') (d : Dev) : Serves d s s' := by
  obtain ⟨es, ht, he⟩ := h.trace
  refine ⟨h.layout, h.useEventfd, fun d' _ => by rw [h.dev], es, ht, fun d' qi => ?_⟩
  unfold St.vq
  rw [countP_isConsumed he, h.dev]
  exact (BitVec.add_zero _).symm

theorem advance_serves (d : Dev) (qi slot : Nat) (head : BitVec 16) :
    Within (serves d) (advance d qi slot head) := by
  intro s
  generalize hq : { s.vq d qi with lastAvailIdx := (s.vq d qi).lastAvailIdx + 1 } = q
  have hconfig : q.config = ((s.dev d).vq qi).config := by
    rw [← hq]
    rfl
  have hrun : ((advance d qi slot head).run s).2 =
      (s.setDev d ((s.dev d).setVq qi q)).log (.consumed d qi slot head) := by
    rw [← hq]
    rfl
  rw [hrun]
  refine ⟨layout_setDev fun i => config_setVq hconfig i, rfl,
    fun d' hd => St.dev_setDev_of_ne hd _ _, [.consumed d qi slot head], rfl, fun d' i => ?_⟩
  show ((s.setDev d ((s.dev d).setVq qi q)).vq d' i).lastAvailIdx = _
  by_cases hd : d' = d
  case neg =>
    have hne : ¬d = d' := fun h => hd h.symm
    rw [vq_setDev_of_ne hd]
    simp [Event.isConsumed, hne]
  rw [hd, vq_setDev_self]
  by_cases hi : i = qi
  · rw [hi, VirtioDev.vq_setVq_self, ← hq]
    simp [Event.isConsumed]
  · have hne : ¬qi = i := fun h => hi h.symm
    rw [VirtioDev.vq_setVq_of_ne hi]
    simp [Event.isConsumed, hne]
    rfl

/-- A change of the device that does not touch its queues. -/
theorem Serves.of_setDev (s : St) {v : VirtioDev} (hv : v.vq = (s.dev d).vq) : Serves d s (s.setDev d v) := by
  have hvq : ∀ qi, v.vq qi = s.vq d qi := fun qi => congrFun hv qi
  refine ⟨layout_setDev fun qi => by rw [hvq], rfl, fun d' hd => St.dev_setDev_of_ne hd _ _, [],
    (List.append_nil _).symm, fun d' qi => ?_⟩
  refine Eq.trans ?_ (BitVec.add_zero _).symm
  by_cases hd : d' = d
  · rw [hd, vq_setDev_self, hvq]
  · rw [vq_setDev_of_ne hd]

theorem virtioRaiseIrq_serves (d : Dev) : Within (serves d) (virtioRaiseIrq d) := by
  refine Within.bind (fun s => .of_setDev s rfl) fun _ => Within.get.bind fun s => ?_
  exact .ite (fun s => .of_log s fun _ _ => rfl) (fun s => .of_log s fun _ _ => rfl)

theorem serves_services (d : Dev) : Services d (serves d) where
  log s e he := (work_transfers.log s e he).serves d
  data s mem blk stale := (work_transfers.data s mem blk stale).serves d
  conIn _ _ _ := ⟨rfl, rfl, fun _ _ => rfl, [], (List.append_nil _).symm, fun _ _ => (BitVec.add_zero _).symm⟩
  advance := advance_serves d
  used s _ _ _ := .of_log s fun _ _ => rfl
  raise := virtioRaiseIrq_serves d

/-! ### The echo FIFO -/

/-- The FIFO of the console stays. -/
def keepsConIn : Guarantee St where
  rel s s' := s'.conIn = s.conIn
  refl _ := rfl
  trans h₁ h₂ := h₂.trans h₁

theorem virtioRaiseIrq_conIn (d : Dev) : Within keepsConIn (virtioRaiseIrq d) :=
  Within.bind (fun _ => rfl) fun _ => Within.get.bind fun _ => .ite (fun _ => rfl) (fun _ => rfl)

theorem keepsConIn_services : Services .blk keepsConIn where
  log _ _ _ := rfl
  data _ _ _ _ := rfl
  conIn h := by cases h
  advance _ _ _ _ := rfl
  used _ _ _ _ := rfl
  raise := virtioRaiseIrq_conIn .blk

end MiniVirt.Vmm
