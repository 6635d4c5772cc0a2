import MiniVirt.Vmm.State

/-!
# `minivmm.c`: split virtqueues

`gather_chain()`, `chain_read()` and `push_used()`.
-/

namespace MiniVirt.Vmm

/-- `struct vring_desc`. -/
structure Desc where
  addr : BitVec 64
  len : BitVec 32
  flags : BitVec 16
  next : BitVec 16
  deriving DecidableEq

/-- The descriptor at offset `a`. -/
def Desc.ofMem (m : ByteMem) (a : Nat) : Desc where
  addr := .ofNat 64 (m.load a 8)
  len := .ofNat 32 (m.load (a + 8) 4)
  flags := .ofNat 16 (m.load (a + 12) 2)
  next := .ofNat 16 (m.load (a + 14) 2)

def Desc.hasNext (d : Desc) : Bool := d.flags &&& vringDescFNext ≠ 0

/-- `struct seg`. -/
structure Seg where
  hva : Nat
  len : BitVec 32
  writable : Bool
  deriving DecidableEq

def Desc.toSeg (d : Desc) (hva : Nat) : Seg where
  hva := hva
  len := d.len
  writable := d.flags &&& vringDescFWrite ≠ 0

/-- How `gather_chain()` ends: with 0 and the segments, with -1, or not at all. -/
inductive Gathered where
  | ok (segs : List Seg)
  | bad
  | diverge
  deriving DecidableEq

/-- The loop of `gather_chain()`, over the table at `dt`. -/
def gatherLoop (vq : Vq) (dt : Nat) : Nat → BitVec 16 → BitVec 32 → List Seg → V Gathered
  | 0, _, _, _ => return .diverge
  | fuel + 1, idx, guard, segs => do
    if vq.num.toNat ≤ idx.toNat ∨ vq.num < guard then
      return .bad
    else
      emit (.read (dt + 16 * idx.toNat) 16)
      let s ← get
      let d := Desc.ofMem s.mem (dt + 16 * idx.toNat)
      match gpa2hva s.memSize d.addr (d.len.setWidth 64) with
      | none => return .bad
      | some hva =>
        let segs' := if segs.length < vqMaxSegs then segs ++ [d.toSeg hva] else segs
        if d.hasNext then
          gatherLoop vq dt fuel d.next (guard + 1) segs'
        else
          return .ok segs'

/-- A round of the walk. -/
theorem gatherLoop_succ_run (vq : Vq) (dt fuel : Nat) (idx : BitVec 16) (guard : BitVec 32)
    (segs : List Seg) (s : St) :
    (gatherLoop vq dt (fuel + 1) idx guard segs).run s =
      if vq.num.toNat ≤ idx.toNat ∨ vq.num < guard then (.bad, s)
      else
        let d := Desc.ofMem s.mem (dt + 16 * idx.toNat)
        let s' := s.log (.read (dt + 16 * idx.toNat) 16)
        match gpa2hva s.memSize d.addr (d.len.setWidth 64) with
        | none => (.bad, s')
        | some hva =>
          let segs' := if segs.length < vqMaxSegs then segs ++ [d.toSeg hva] else segs
          if d.hasNext then (gatherLoop vq dt fuel d.next (guard + 1) segs').run s'
          else (.ok segs', s') := by
  rw [gatherLoop, run_ite]
  refine if_congr Iff.rfl rfl ?_
  dsimp +instances only [run_bind, run_get, emit_run, St.log_mem, St.log_memSize]
  split
  · rfl
  · rw [run_ite, run_pure]

/-- `guard` passes `num` after `num + 1` rounds, unless `num` is its greatest value: a walk that is
still going on after `num + 2` rounds never ends. -/
def gatherChain (vq : Vq) (head : BitVec 16) : V Gathered := do
  let s ← get
  match gpa2hva s.memSize vq.desc (16 * vq.num.setWidth 64) with
  | none => return .bad
  | some dt => gatherLoop vq dt (vq.num.toNat + 2) head 0 []

/-- The loop of `chain_read()`; `d` is what has been copied so far. -/
def chainReadLoop (len : Nat) : List Seg → Nat → List (BitVec 8) → V (List (BitVec 8))
  | [], _, d => return d
  | seg :: segs, off, d => do
    if len ≤ d.length then
      return d
    else if seg.len.toNat ≤ off then
      chainReadLoop len segs (off - seg.len.toNat) d
    else
      let bytes ← guestRead (seg.hva + off) (min (seg.len.toNat - off) (len - d.length))
      chainReadLoop len segs 0 (d ++ bytes)

/-- `chain_read()` into `dst`, which keeps the bytes that the chain is too short for. -/
def chainRead (segs : List Seg) (off : Nat) (dst : List (BitVec 8)) : V (List (BitVec 8)) := do
  let d ← chainReadLoop dst.length segs off []
  return d ++ dst.drop d.length

def pushUsed (d : Dev) (qi : Nat) (head : BitVec 16) (len : BitVec 32) : V Unit := do
  let s ← get
  let vq := s.vq d qi
  match gpa2hva s.memSize (vq.used + 2) 2, gpa2hva s.memSize (vq.used + 4) (8 * vq.num.setWidth 64) with
  | some usedIdx, some uring =>
    let u ← guestLoad usedIdx 2
    guestStore (uring + 8 * (u % vq.num.toNat)) 4 head.toNat
    guestStore (uring + 8 * (u % vq.num.toNat) + 4) 4 len.toNat
    guestStore usedIdx 2 (u + 1)
    emit (.used d qi head len)
  | _, _ => return

end MiniVirt.Vmm
