import MiniVirt.Vmm.Worker

/-!
# `minivmm -e`: the notifications and the worker

With `-e`, KVM takes the writes of a queue's number to QUEUE_NOTIFY itself and counts them in an
eventfd of the queue; the program does not see them.  The worker waits for these eventfds in
`epoll_wait()`, resets each of those that are ready by a `read()`, and then calls `service_vq()`.
-/

namespace MiniVirt.Vmm

/-! ### The registrations -/

/-- `MAX_NOTIFY_REGS`. -/
def maxNotifyRegs : Nat := 8

/-- `struct notify_reg`; the eventfd is the counter of the queue. -/
structure NotifyReg where
  dev : Dev
  qi : Nat
  deriving DecidableEq

/-- `notify_regs`, as `virtio_eventfds_setup()` fills it. -/
def notifyRegs : List NotifyReg :=
  [Dev.console, Dev.blk].flatMap fun d => (List.range d.nqueues).map (NotifyReg.mk d)

/-- `add_ioeventfd()` does not run out of entries. -/
example : notifyRegs.length ≤ maxNotifyRegs := by decide

/-- The registration that KVM_IOEVENTFD has been given for a write of the guest: it names the
address, the width and the value. -/
def ioeventfdHit (pa : BitVec 64) (len : Nat) (val : BitVec 64) : Option NotifyReg :=
  notifyRegs.find? fun r =>
    pa = r.dev.base + .ofNat 64 vmmioQueueNotify ∧ len = 4 ∧ val = .ofNat 64 r.qi

/-! ### The threads -/

/-- Where the worker is in `virtio_worker()`. -/
inductive WorkerAt where
  /-- In `epoll_wait()`. -/
  | wait
  /-- In the loop over what it has returned. -/
  | events (rest : List NotifyReg)
  /-- The eventfd has been read. -/
  | call (r : NotifyReg) (rest : List NotifyReg)
  /-- In `service_vq()`. -/
  | service (pc : WorkerPc) (rest : List NotifyReg)
  deriving DecidableEq

structure DataPlane where
  st : St
  /-- The counters of the eventfds. -/
  count : NotifyReg → Nat
  worker : WorkerAt

/-- What `epoll_wait()` may return: some of the eventfds that are ready. -/
def DataPlane.Ready (x : DataPlane) (evs : List NotifyReg) : Prop :=
  evs ≠ [] ∧ evs.Nodup ∧ evs.length ≤ maxNotifyRegs ∧ ∀ r ∈ evs, r ∈ notifyRegs ∧ 0 < x.count r

inductive PlaneAct where
  /-- The guest changes its RAM. -/
  | store (mem : ByteMem)
  /-- The guest writes to a device. -/
  | write (pa : BitVec 64) (len : Nat) (val : BitVec 64)
  /-- `epoll_wait()` returns. -/
  | wake (evs : List NotifyReg)
  /-- The next step of the worker, outside `epoll_wait()`. -/
  | work

/-- The next step of the worker. -/
def DataPlane.work (x : DataPlane) : DataPlane :=
  match x.worker with
  | .wait => x
  | .events [] => { x with worker := .wait }
  | .events (r :: rest) =>
    -- the read returns the count and makes it 0
    { x with count := Function.update x.count r 0, worker := .call r rest }
  | .call r rest =>
    let y := (serviceStart r.dev r.qi).run x.st
    { x with st := y.2, worker := .service y.1 rest }
  | .service .idle rest => { x with worker := .events rest }
  | .service (.loop c) rest =>
    let y := (serviceIter c).run x.st
    { x with st := y.2, worker := .service y.1 rest }
  | .service (.raise d) rest =>
    { x with st := ((virtioRaiseIrq d).run x.st).2, worker := .service .idle rest }
  | .service .stuck _ => x

def PlaneAct.step (x : DataPlane) : PlaneAct → DataPlane
  | .store mem => { x with st := { x.st with mem := mem } }
  | .write pa len val =>
    match ioeventfdHit pa len val with
    | some r => { x with count := Function.update x.count r (x.count r + 1) }
    | none => { x with st := ((handleVirtioMmioWrite pa len val).run x.st).2 }
  | .wake evs =>
    match x.worker with
    | .wait => { x with worker := .events evs }
    | _ => x
  | .work => x.work

end MiniVirt.Vmm
