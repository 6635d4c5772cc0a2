import MiniVirt.Vmm.Virtqueue

/-!
# `minivmm.c`: the console, the block device and `service_vq()`

Serving the transmit queue of the console serves its receive queue as well, so `serviceWith` is
`service_vq()` with the handler as an argument, and the receive queue comes first.  A result `none`
stands for a call that never returns, because `gather_chain()` does not.
-/

namespace MiniVirt.Vmm

/-! ### The echo FIFO -/

namespace ConIn

def count (c : ConIn) : BitVec 32 := c.head - c.tail

def push1 (c : ConIn) (b : BitVec 8) : ConIn :=
  { c with buf := Function.update c.buf (c.head.toNat % conInSz) b, head := c.head + 1 }

def push (c : ConIn) (l : List (BitVec 8)) : ConIn := l.foldl push1 c

end ConIn

def conInPush (l : List (BitVec 8)) : V Unit := modify fun s => { s with conIn := s.conIn.push l }

def conInPop : V (Option (BitVec 8)) := do
  let s ← get
  if s.conIn.tail = s.conIn.head then
    return none
  else
    set { s with conIn := { s.conIn with tail := s.conIn.tail + 1 } }
    return some (s.conIn.buf (s.conIn.tail.toNat % conInSz))

/-! ### The backing file -/

/-- An `off_t` made of `off` is negative. -/
def offNeg (off : BitVec 64) : Bool := off.msb

/-- How many of `n` bytes the next call may transfer: `none` if it fails. -/
def Io.quota (ios : List Io) (n : Nat) : Option Nat :=
  match ios with
  | [] => some n
  | .error :: _ => none
  | .upTo k :: _ => some (min k n)

/-- A call is over. -/
def BlkBackend.next (blk : BlkBackend) : BlkBackend := { blk with ios := blk.ios.tail }

/-- A call of `f` on the backing file. -/
def fileIo {α : Type} (f : BlkBackend → α × BlkBackend) : V α := do
  let r := f (← get).blk
  modify fun s => { s with blk := r.2 }
  return r.1

/-- `pread()` of `n` bytes: `none` for -1. -/
def pread (n : Nat) (off : BitVec 64) (blk : BlkBackend) : Option (List (BitVec 8)) × BlkBackend :=
  match offNeg off, Io.quota blk.ios n with
  | false, some k => (some ((blk.content.drop off.toNat).take k), blk.next)
  | _, _ => (none, blk.next)

/-- The content after `l` went to `off`; a gap before it is filled with zeros. -/
def fileWrite (content : List (BitVec 8)) (l : List (BitVec 8)) (off : Nat) : List (BitVec 8) :=
  if l = [] then content
  else content.take off ++ List.replicate (off - content.length) 0 ++ l ++ content.drop (off + l.length)

/-- `pwrite()` of `l`: how many bytes of it have been written, `none` for -1. -/
def pwrite (l : List (BitVec 8)) (off : BitVec 64) (blk : BlkBackend) : Option Nat × BlkBackend :=
  match offNeg off, Io.quota blk.ios l.length with
  | false, some w => (some w, { blk.next with content := fileWrite blk.content (l.take w) off.toNat })
  | _, _ => (none, blk.next)

/-! ### `service_vq()` -/

/-- The receive queue of the console waits for bytes to deliver. -/
def devCanConsume (s : St) (d : Dev) (qi : Nat) : Bool :=
  if d.deviceId = virtioIdConsole ∧ qi = 0 then 0 < s.conIn.count else true

/-- `vq->last_avail_idx++`. -/
def advance (d : Dev) (qi slot : Nat) (head : BitVec 16) : V Unit := do
  modifyVq d qi fun q => { q with lastAvailIdx := q.lastAvailIdx + 1 }
  emit (.consumed d qi slot head)

/-- The entry at `slot` of guest RAM: its chain, the handler, the used ring. -/
def serveHead (handle : List Seg → V (Option (BitVec 32))) (d : Dev) (qi slot : Nat) (head : BitVec 16)
    (did : Bool) : V (Bool ⊕ Option Bool) := do
  match ← gatherChain ((← get).vq d qi) head with
  | .diverge => return .inr none
  | .bad =>
    advance d qi slot head
    return .inl did
  | .ok segs =>
    match ← handle segs with
    | none => return .inr none
    | some usedLen =>
      pushUsed d qi head usedLen
      advance d qi slot head
      return .inl true

/-- A round of the loop; the loop variable is `did`. -/
def serviceRound (handle : List Seg → V (Option (BitVec 32))) (d : Dev) (qi ring : Nat)
    (idx : BitVec 16) (did : Bool) : V (Bool ⊕ Option Bool) := do
  let s ← get
  let vq := s.vq d qi
  if vq.lastAvailIdx = idx then
    return .inr (some did)
  else if !devCanConsume s d qi then
    return .inr (some did)
  else
    let slot := ring + 2 * (vq.lastAvailIdx.toNat % vq.num.toNat)
    let head ← guestLoad slot 2
    serveHead handle d qi slot (.ofNat 16 head) did

/-- The loop goes through the 16-bit indices at most once. -/
def serviceFuel : Nat := 65536

/-- `service_vq()` once the avail ring is found: `availIdx` and `ring` are its offsets. -/
def serviceRing (handle : List Seg → V (Option (BitVec 32))) (d : Dev) (qi availIdx ring : Nat) :
    V (Option Unit) := do
  let idx ← guestLoad availIdx 2
  match ← loopM (serviceRound handle d qi ring (.ofNat 16 idx)) none serviceFuel false with
  | none => return none
  | some did =>
    if did then
      virtioRaiseIrq d
    return some ()

def serviceWith (handle : List Seg → V (Option (BitVec 32))) (d : Dev) (qi : Nat) :
    V (Option Unit) := do
  let s ← get
  let vq := s.vq d qi
  if d.nqueues ≤ qi ∨ vq.ready = 0 ∨ vq.num = 0 then
    return some ()
  else
    match gpa2hva s.memSize (vq.avail + 2) 2, gpa2hva s.memSize (vq.avail + 4) (2 * vq.num.setWidth 64) with
    | some availIdx, some ring => serviceRing handle d qi availIdx ring
    | _, _ => return some ()

/-! ### The console -/

/-- The inner loop of the receive side, over the `n` bytes from `p` on: the value of `written` and
whether the segment was filled. -/
def receiveBytes : Nat → Nat → BitVec 32 → V (BitVec 32 × Bool)
  | 0, _, written => return (written, true)
  | n + 1, p, written => do
    match ← conInPop with
    | none => return (written, false)
    | some b =>
      guestWrite p [b]
      receiveBytes n (p + 1) (written + 1)

def receiveSegs : List Seg → BitVec 32 → V (BitVec 32)
  | [], written => return written
  | seg :: segs, written => do
    let (w, full) ← receiveBytes seg.len.toNat seg.hva written
    if full then
      receiveSegs segs w
    else
      return w

/-- `console_handle()` for queue 0. -/
def consoleReceive (segs : List Seg) : V (Option (BitVec 32)) := do
  return some (← receiveSegs segs 0)

/-- `service_vq(dev, 0)` of the console. -/
def serviceReceive : V (Option Unit) := serviceWith consoleReceive .console 0

def transmitSegs : List Seg → V Unit
  | [] => return
  | seg :: segs => do
    let out ← guestRead seg.hva seg.len.toNat
    emit (.stdout out)
    let echo ← guestRead seg.hva seg.len.toNat
    conInPush echo
    transmitSegs segs

/-- `console_handle()` for queue 1. -/
def consoleTransmit (segs : List Seg) : V (Option (BitVec 32)) := do
  transmitSegs segs
  return (← serviceReceive).map fun _ => 0

def consoleHandle (qi : Nat) (segs : List Seg) : V (Option (BitVec 32)) :=
  if qi = 1 then consoleTransmit segs else consoleReceive segs

/-! ### The block device -/

/-- The loop of a `VIRTIO_BLK_T_IN` request over its data segments, with `total`. -/
def blkIn (status : Nat) : List Seg → BitVec 64 → BitVec 32 → V (BitVec 32)
  | [], _, total => return total
  | seg :: segs, off, total => do
    match ← fileIo (pread seg.len.toNat off) with
    | none =>
      guestStore status 1 virtioBlkSIoerr
      return total
    | some l =>
      guestWrite seg.hva l
      let total' := total + .ofNat 32 l.length
      if l.length < seg.len.toNat then
        return total'
      else
        blkIn status segs (off + .ofNat 64 l.length) total'

/-- The loop of a `VIRTIO_BLK_T_OUT` request. -/
def blkOut (status : Nat) : List Seg → BitVec 64 → V Unit
  | [], _ => return
  | seg :: segs, off => do
    let l ← guestRead seg.hva seg.len.toNat
    match ← fileIo (pwrite l off) with
    | none => guestStore status 1 virtioBlkSIoerr
    | some w =>
      if w < seg.len.toNat then
        return
      else
        blkOut status segs (off + .ofNat 64 w)

/-- A request with its header, data segments and status byte. -/
def blkRequest (hdr : List (BitVec 8)) (data : List Seg) (status : Nat) : V (BitVec 32) := do
  let type := leNat (hdr.take 4)
  let off : BitVec 64 := .ofNat 64 (leNat ((hdr.drop 8).take 8)) * 512
  guestStore status 1 virtioBlkSOk
  if type = virtioBlkTIn then
    return (← blkIn status data off 0) + 1
  else if type = virtioBlkTOut then
    blkOut status data off
    return 1
  else if type = virtioBlkTFlush then
    return 1
  else
    guestStore status 1 virtioBlkSUnsupp
    return 1

def blkHandle (segs : List Seg) : V (Option (BitVec 32)) := do
  match segs with
  | first :: second :: rest =>
    let hdr ← chainRead (first :: second :: rest) 0 (← takeStale 16)
    let last := (second :: rest).getLast (List.cons_ne_nil second rest)
    return some (← blkRequest hdr (second :: rest).dropLast last.hva)
  | _ => return some 0

/-! ### All queues -/

def devHandle (d : Dev) (qi : Nat) (segs : List Seg) : V (Option (BitVec 32)) :=
  if d.deviceId = virtioIdConsole then consoleHandle qi segs else blkHandle segs

def serviceVq (d : Dev) (qi : Nat) : V (Option Unit) := serviceWith (devHandle d qi) d qi

end MiniVirt.Vmm
