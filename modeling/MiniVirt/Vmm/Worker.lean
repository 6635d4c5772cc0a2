import MiniVirt.Vmm.VirtioMmio

/-!
# `minivmm -e`: `service_vq()` on the worker thread, one iteration at a time

The vCPU thread writes registers between the iterations of the loop of `service_vq()`.  `serviceVq_eq`
says that the steps of the worker, one after the other, are `service_vq()`.
-/

namespace MiniVirt.Vmm

/-- The local variables of a call of `service_vq()` in its loop. -/
structure ServiceCall where
  d : Dev
  qi : Nat
  ring : Nat
  idx : BitVec 16
  did : Bool
  deriving DecidableEq

/-- Where the worker is. -/
inductive WorkerPc where
  | idle
  | loop (c : ServiceCall)
  /-- At `virtio_raise_irq()` after the loop. -/
  | raise (d : Dev)
  /-- In a call that does not return. -/
  | stuck
  deriving DecidableEq

/-- `service_vq()` up to its loop. -/
def serviceStart (d : Dev) (qi : Nat) : V WorkerPc := do
  let s ← get
  let vq := s.vq d qi
  if d.nqueues ≤ qi ∨ vq.ready = 0 ∨ vq.num = 0 then
    return .idle
  else
    match gpa2hva s.memSize (vq.avail + 2) 2, gpa2hva s.memSize (vq.avail + 4) (2 * vq.num.setWidth 64) with
    | some availIdx, some ring =>
      let idx ← guestLoad availIdx 2
      return .loop ⟨d, qi, ring, .ofNat 16 idx, false⟩
    | _, _ => return .idle

/-- Where the worker is after a round. -/
def ServiceCall.next (c : ServiceCall) : Bool ⊕ Option Bool → WorkerPc
  | .inl did => .loop { c with did := did }
  | .inr (some true) => .raise c.d
  | .inr (some false) => .idle
  | .inr none => .stuck

/-- An iteration of the loop. -/
def serviceIter (c : ServiceCall) : V WorkerPc := do
  return c.next (← serviceRound (devHandle c.d c.qi) c.d c.qi c.ring c.idx c.did)

/-- The program with its worker thread. -/
structure Threads where
  st : St
  worker : WorkerPc

inductive ThreadAct where
  /-- The guest changes its RAM. -/
  | store (mem : ByteMem)
  /-- A register write on the vCPU thread. -/
  | mmioWrite (d : Dev) (off len : Nat) (val : BitVec 64)
  /-- The worker calls `service_vq()`. -/
  | start (d : Dev) (qi : Nat)
  | iter
  | raise

/-- A step; a step of the worker that is not the next one of its code changes nothing. -/
def ThreadAct.step (t : Threads) : ThreadAct → Threads
  | .store mem => { t with st := { t.st with mem := mem } }
  | .mmioWrite d off len val => { t with st := ((virtioMmioWrite d off len val).run t.st).2 }
  | .start d qi =>
    match t.worker with
    | .idle =>
      let r := (serviceStart d qi).run t.st
      ⟨r.2, r.1⟩
    | _ => t
  | .iter =>
    match t.worker with
    | .loop c =>
      let r := (serviceIter c).run t.st
      ⟨r.2, r.1⟩
    | _ => t
  | .raise =>
    match t.worker with
    | .raise d => ⟨((virtioRaiseIrq d).run t.st).2, .idle⟩
    | _ => t

/-- The rest of `service_vq()` from where the worker is. -/
def WorkerPc.finish : WorkerPc → V (Option Unit)
  | .idle => return some ()
  | .stuck => return none
  | .raise d => do
    virtioRaiseIrq d
    return some ()
  | .loop c => do
    match ← loopM (serviceRound (devHandle c.d c.qi) c.d c.qi c.ring c.idx) none serviceFuel c.did with
    | none => return none
    | some did =>
      if did then
        virtioRaiseIrq c.d
      return some ()

theorem serviceRing_eq (d : Dev) (qi availIdx ring : Nat) :
    serviceRing (devHandle d qi) d qi availIdx ring =
      (do
        let idx ← guestLoad availIdx 2
        return .loop ⟨d, qi, ring, .ofNat 16 idx, false⟩) >>= WorkerPc.finish := by
  rw [serviceRing, bind_assoc]
  refine congrArg (guestLoad availIdx 2 >>= ·) (funext fun idx => ?_)
  rw [pure_bind]
  rfl

/-- The steps of the worker, one after the other, are `service_vq()`. -/
theorem serviceVq_eq (d : Dev) (qi : Nat) : serviceVq d qi = serviceStart d qi >>= WorkerPc.finish := by
  funext s
  show (serviceVq d qi).run s = (serviceStart d qi >>= WorkerPc.finish).run s
  rw [run_bind, serviceVq, serviceWith, serviceStart, run_bind, run_bind, run_get]
  dsimp only
  rw [run_ite, run_ite]
  split
  · rfl
  · generalize gpa2hva s.memSize ((s.vq d qi).avail + 2) 2 = a
    generalize gpa2hva s.memSize ((s.vq d qi).avail + 4) (2 * (s.vq d qi).num.setWidth 64) = r
    cases a with
    | none => rfl
    | some availIdx =>
      cases r with
      | none => rfl
      | some ring =>
        exact congrArg (fun m => StateT.run m s) (serviceRing_eq d qi availIdx ring)

end MiniVirt.Vmm
