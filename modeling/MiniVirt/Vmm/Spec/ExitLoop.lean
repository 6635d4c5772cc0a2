import MiniVirt.Lib.Dispatch
import MiniVirt.Vmm.ExitLoop

/-!
# The VMM is the product of its devices

`handle_io()` and `run_loop()` send each access of the guest to one device.  `Part.step` is that device alone, and
`exits_are_device_runs` says that a run of the whole VMM, with the input thread, the worker and the guest's stores
between the exits, is a run of each device on the accesses that are its own: what a device answers and the state
it comes to depend on nothing else.
-/

namespace MiniVirt.Vmm

/-! ### Accesses -/

/-- The serial port with the reset ports, the virtio devices with guest RAM, the PCI bus with the BARs, and the
ports where nothing is. -/
inductive Part where
  | serial | virtio | pci | hole
  deriving DecidableEq

def Part.State : Part → Type
  | serial => Serial
  | virtio => St
  | pci => PciBus
  | hole => Unit

/-- What a device is asked to do. -/
inductive Access where
  /-- An item of a port access. -/
  | port (port : BitVec 16) (isWrite : Bool) (size : IoSize) (x : BitVec 32) (a : PtAnswers)
  | mmio (m : Mmio) (a : PtAnswers)
  | recv (c : BitVec 8)
  | service (d : Dev) (qi : Nat)
  | ram (off : Nat) (l : List (BitVec 8))
  | signal

/-- The reset ports. -/
def PowerPort (port : BitVec 16) : Prop := port = 0x64 ∨ port = 0xcf9

instance (port : BitVec 16) : Decidable (PowerPort port) := inferInstanceAs (Decidable (_ ∨ _))

def Access.owner : Access → Part
  | .port p .. =>
    if p = pciCfgAddrPort ∨ PciDataPort p then .pci
    else if Com1Port p ∨ OtherComPort p ∨ PowerPort p then .serial
    else .hole
  | .mmio m _ => if (virtioWindow m.physAddr).isSome then .virtio else .pci
  | .recv _ | .signal => .serial
  | .service .. | .ram .. => .virtio

/-! ### The devices alone -/

/-- Ports where nothing answers: reads give ones. -/
def holePort (isWrite : Bool) (size : IoSize) (x : BitVec 32) : BitVec 32 :=
  if isWrite then x else size.trunc (genericIoIn size)

def Serial.access (s : Serial) : Access → Option (Reply × Serial)
  | .port port isWrite size x _ =>
    (MiniVmm.byteIo port isWrite (if isWrite then x.setWidth 8 else 0) s).map fun y =>
      (.items [if isWrite then x else size.trunc (y.1.setWidth 32)], y.2)
  | .recv c => some (.nothing, serialRecv s c)
  | .signal => some (.nothing, s.setRunning false)
  | _ => none

def St.access (s : St) : Access → Option (Reply × St)
  | .mmio m _ =>
    (virtioWindow m.physAddr).bind fun d => (MiniVmm.virtioMmio d m s).map fun y => (.data y.1, y.2)
  | .service d qi =>
    match (serviceVq d qi).run s with
    | (none, _) => none
    | (some (), s) => some (.nothing, s)
  | .ram off l => some (.nothing, { s with mem := s.mem.write off l })
  | _ => none

def PciBus.access (s : PciBus) : Access → Option (Reply × PciBus)
  | .port port isWrite size x a =>
    match s.pciConfigIo a port isWrite (if isWrite then size.trunc x else 0) size with
    | some (wv, s) => some (.items [if isWrite then x else size.trunc wv], s)
    | none => some (.items [holePort isWrite size x], s)
  | .mmio m a =>
    match s.ptMmio a m with
    | some (data, s) => some (.data data, s)
    | none => some (.data (if m.isWrite then m.data else List.replicate m.len 0), s)
  | _ => none

def holeAccess : Access → Option (Reply × Unit)
  | .port _ isWrite size x _ => some (.items [holePort isWrite size x], ())
  | _ => none

/-- A device alone. -/
def Part.step : (k : Part) → Access → k.State → Option (Reply × k.State)
  | .serial, x, s => Serial.access s x
  | .virtio, x, s => St.access s x
  | .pci, x, s => PciBus.access s x
  | .hole, x, _ => holeAccess x

namespace MiniVmm

/-- The devices of the VMM. -/
def parts (s : MiniVmm) : (k : Part) → k.State
  | .serial => s.serial
  | .virtio => s.virtio
  | .pci => s.pci
  | .hole => ()

theorem parts_serial (s : MiniVmm) (x : Serial) :
    { s with serial := x }.parts = Function.update s.parts .serial x := by
  funext k
  cases k <;> rfl

theorem parts_virtio (s : MiniVmm) (x : St) :
    { s with virtio := x }.parts = Function.update s.parts .virtio x := by
  funext k
  cases k <;> rfl

theorem parts_pci (s : MiniVmm) (x : PciBus) : { s with pci := x }.parts = Function.update s.parts .pci x := by
  funext k
  cases k <;> rfl

theorem parts_hole (s : MiniVmm) : s.parts = Function.update s.parts .hole () := by
  funext k
  cases k <;> rfl

/-! ### One access -/

/-- A run of the devices for the accesses `xs`, with the transcript `l`. -/
abbrev Serves (s : MiniVmm) (xs : List Access) (l : List (Access × Reply)) (s' : MiniVmm) : Prop :=
  Dispatch.runAll Part.step Access.owner s.parts xs = some (l, s'.parts)

theorem serialIo_eq_none {port : BitVec 16} {isWrite : Bool} {val : BitVec 8} {s : Serial} :
    serialIo s port isWrite val = none ↔ ¬ (Com1Port port ∨ OtherComPort port) := by
  unfold serialIo
  split_ifs with hcom hwrite hother
  · simp [hcom]
  · simp [hcom]
  · simp [hother]
  · simp [hcom, hother]

theorem powerIo_eq_none {running : Bool} {port : BitVec 16} {isWrite : Bool} {val : BitVec 8} :
    powerIo running port isWrite val = none ↔ ¬ PowerPort port := by
  unfold powerIo PowerPort
  split_ifs with hport hwrite
  · simpa using hport
  · simpa [not_and_or] using hport
  · simpa [not_and_or] using hport

theorem byteIo_eq_none {port : BitVec 16} {isWrite : Bool} {val : BitVec 8} {s : Serial} :
    byteIo port isWrite val s = none ↔ ¬ (Com1Port port ∨ OtherComPort port ∨ PowerPort port) := by
  have hserial : serialIo s port isWrite val = none ↔ ¬ (Com1Port port ∨ OtherComPort port) := serialIo_eq_none
  unfold byteIo
  rw [← or_assoc, not_or, ← hserial]
  cases serialIo s port isWrite val with
  | none => simp [powerIo_eq_none]
  | some y => simp

/-- The ports of mechanism 1 are no others. -/
theorem not_byte_of_pci {port : BitVec 16} (h : port = pciCfgAddrPort ∨ PciDataPort port) :
    ¬ (Com1Port port ∨ OtherComPort port ∨ PowerPort port) := by
  unfold PciDataPort pciCfgAddrPort pciCfgDataPort at h
  unfold Com1Port OtherComPort PowerPort com1Base com1NrRegs
  bv_omega

variable {s s' : MiniVmm}

theorem serves_serial {x : Access} (hx : x.owner = .serial) {o : Reply} {u : Serial}
    (h : s.serial.access x = some (o, u)) : s.Serves [x] [(x, o)] { s with serial := u } := by
  have hstep : Part.step .serial x (s.parts .serial) = some (o, u) := h
  unfold Serves
  rw [parts_serial s u]
  exact Dispatch.runAll_one hx hstep

theorem serves_virtio {x : Access} (hx : x.owner = .virtio) {o : Reply} {u : St}
    (h : s.virtio.access x = some (o, u)) : s.Serves [x] [(x, o)] { s with virtio := u } := by
  have hstep : Part.step .virtio x (s.parts .virtio) = some (o, u) := h
  unfold Serves
  rw [parts_virtio s u]
  exact Dispatch.runAll_one hx hstep

theorem serves_pci {x : Access} (hx : x.owner = .pci) {o : Reply} {u : PciBus}
    (h : s.pci.access x = some (o, u)) : s.Serves [x] [(x, o)] { s with pci := u } := by
  have hstep : Part.step .pci x (s.parts .pci) = some (o, u) := h
  unfold Serves
  rw [parts_pci s u]
  exact Dispatch.runAll_one hx hstep

theorem serves_hole {x : Access} (hx : x.owner = .hole) {o : Reply} (h : holeAccess x = some (o, ())) :
    s.Serves [x] [(x, o)] s := by
  have hstep : Part.step .hole x (s.parts .hole) = some (o, ()) := h
  have hrun : Dispatch.runAll Part.step Access.owner s.parts [x] =
      some ([(x, o)], Function.update s.parts .hole ()) := Dispatch.runAll_one hx hstep
  rwa [← parts_hole] at hrun

/-- An item of a port access, as the code handles it. -/
theorem ioItem_serves (s : MiniVmm) (a : PtAnswers) (port : BitVec 16) (isWrite : Bool) (size : IoSize)
    (x : BitVec 32) : s.Serves [.port port isWrite size x a]
      [(.port port isWrite size x a, .items [(ioItem a port isWrite size x s).1])]
      (ioItem a port isWrite size x s).2 := by
  unfold ioItem
  by_cases hpci : port = pciCfgAddrPort ∨ PciDataPort port
  · have howner : (Access.port port isWrite size x a).owner = .pci := by simp [Access.owner, hpci]
    have hnone : byteIo port isWrite (if isWrite then x.setWidth 8 else 0) s.serial = none :=
      byteIo_eq_none.2 (not_byte_of_pci hpci)
    rw [if_pos hpci]
    cases hio : s.pci.pciConfigIo a port isWrite (if isWrite then size.trunc x else 0) size with
    | some y => exact serves_pci howner (by simp only [PciBus.access, hio])
    | none =>
      -- `vf.ready` is 0, or the address register is accessed in part
      unfold ioByte
      rw [hnone]
      exact serves_pci howner (by simp only [PciBus.access, hio, holePort])
  · rw [if_neg hpci]
    unfold ioByte
    cases hio : byteIo port isWrite (if isWrite then x.setWidth 8 else 0) s.serial with
    | some y =>
      have hport : Com1Port port ∨ OtherComPort port ∨ PowerPort port := by
        by_contra hnot
        rw [byteIo_eq_none.2 hnot] at hio
        exact absurd hio (by simp)
      have howner : (Access.port port isWrite size x a).owner = .serial := by
        simp [Access.owner, hpci, hport]
      exact serves_serial howner (by simp only [Serial.access, hio, Option.map_some])
    | none =>
      have howner : (Access.port port isWrite size x a).owner = .hole := by
        simp [Access.owner, hpci, byteIo_eq_none.1 hio]
      exact serves_hole howner rfl

theorem handleIo_serves (s : MiniVmm) (port : BitVec 16) (isWrite : Bool) (size : IoSize)
    (items : List (BitVec 32 × PtAnswers)) :
    ∃ l, s.Serves (items.map fun y => .port port isWrite size y.1 y.2) l (handleIo port isWrite size items s).2 ∧
      l.map Prod.snd = (handleIo port isWrite size items s).1.map fun x => .items [x] := by
  induction items generalizing s with
  | nil => exact ⟨[], rfl, rfl⟩
  | cons y items ih =>
    obtain ⟨x, a⟩ := y
    have hitem := s.ioItem_serves a port isWrite size x
    obtain ⟨l, hrest, hreplies⟩ := ih (ioItem a port isWrite size x s).2
    refine ⟨_, Dispatch.runAll_append hitem hrest, ?_⟩
    rw [List.map_append, hreplies]
    rfl

theorem handleMmio_serves (s : MiniVmm) (a : PtAnswers) (m : Mmio) {data : List (BitVec 8)}
    (h : handleMmio a m s = some (data, s')) : s.Serves [.mmio m a] [(.mmio m a, .data data)] s' := by
  unfold handleMmio at h
  cases hwindow : virtioWindow m.physAddr with
  | some d =>
    rw [hwindow] at h
    obtain ⟨y, hy, heq⟩ := Option.map_eq_some_iff.1 h
    obtain ⟨rfl, rfl⟩ := Prod.mk.inj heq
    have howner : (Access.mmio m a).owner = .virtio := by simp [Access.owner, hwindow]
    exact serves_virtio howner (by simp [St.access, hwindow, hy])
  | none =>
    rw [hwindow] at h
    have howner : (Access.mmio m a).owner = .pci := by simp [Access.owner, hwindow]
    dsimp only at h
    cases hpt : s.pci.ptMmio a m with
    | some y =>
      rw [hpt] at h
      obtain ⟨rfl, rfl⟩ := Prod.mk.inj (Option.some.inj h)
      exact serves_pci howner (by simp [PciBus.access, hpt])
    | none =>
      rw [hpt] at h
      obtain ⟨rfl, rfl⟩ := Prod.mk.inj (Option.some.inj h)
      exact serves_pci howner (by simp [PciBus.access, hpt])

/-- The access never returns. -/
theorem hangs {x : Access} (hx : x.owner = .virtio) (h : s.virtio.access x = none) :
    Dispatch.runAll Part.step Access.owner s.parts [x] = none := by
  have hstep : Part.step .virtio x (s.parts .virtio) = none := h
  rw [← hx] at hstep
  rw [Dispatch.runAll, hstep, Option.bind_none]

/-- Only a virtio device may never return. -/
theorem handleMmio_owner {a : PtAnswers} {m : Mmio} (h : handleMmio a m s = none) :
    (Access.mmio m a).owner = .virtio := by
  unfold handleMmio at h
  cases hwindow : virtioWindow m.physAddr with
  | some d => simp [Access.owner, hwindow]
  | none =>
    rw [hwindow] at h
    dsimp only at h
    cases hpt : s.pci.ptMmio a m with
    | some y =>
      rw [hpt] at h
      exact absurd h (by simp)
    | none =>
      rw [hpt] at h
      exact absurd h (by simp)

theorem handleMmio_hangs (a : PtAnswers) (m : Mmio) (h : handleMmio a m s = none) :
    Dispatch.runAll Part.step Access.owner s.parts [.mmio m a] = none := by
  have howner := handleMmio_owner h
  refine hangs howner ?_
  unfold handleMmio at h
  cases hwindow : virtioWindow m.physAddr with
  | some d =>
    rw [hwindow] at h
    simpa [St.access, hwindow] using h
  | none => simp [St.access, hwindow]

end MiniVmm

/-! ### Runs -/

/-- The accesses that an exit is about. -/
def KvmRun.accesses : KvmRun → List Access
  | .io port isWrite size items => items.map fun y => .port port isWrite size y.1 y.2
  | .mmio m a => [.mmio m a]
  | _ => []

/-- The items and data that a reply is made of. -/
def Reply.parts : Reply → List Reply
  | .items l => l.map fun x => .items [x]
  | .data l => [.data l]
  | .nothing => []

namespace MiniVmm

variable {s s' : MiniVmm}

/-- The accesses that a step makes. -/
def Op.accesses (s : MiniVmm) : Op → List Access
  | .enter => []
  | .exit e => if s.inRun then e.accesses else []
  | .input l => l.map .recv
  | .service d qi => [.service d qi]
  | .ram off l => [.ram off l]
  | .signal => [.signal]

/-- The accesses that a run makes. -/
def accesses : MiniVmm → List Op → List Access
  | _, [] => []
  | s, op :: ops =>
    op.accesses s ++
      match s.step op with
      | (_, s, none) => accesses s ops
      | _ => []

/-- What comes of the accesses `xs` from `s` on: `s'` with the replies `rs`, or a call that never returns. -/
def Comes (s : MiniVmm) (xs : List Access) (y : List Reply × MiniVmm × Option LoopEnd) : Prop :=
  y.2.2 = some .hung ∧ Dispatch.runAll Part.step Access.owner s.parts xs = none ∨
    y.2.2 ≠ some .hung ∧ ∃ l, s.Serves xs l y.2.1 ∧ y.1.flatMap Reply.parts = l.flatMap fun p => p.2.parts

theorem flatMap_items (l : List (Access × Reply)) (xs : List (BitVec 32))
    (h : l.map Prod.snd = xs.map fun x => .items [x]) :
    (Reply.items xs).parts = l.flatMap fun p => p.2.parts := by
  have hflat : (l.flatMap fun p => p.2.parts) = (l.map Prod.snd).flatMap Reply.parts := by
    rw [List.flatMap_map]
  rw [hflat, h, List.flatMap_map]
  exact List.map_eq_flatMap

theorem input_serves (s : MiniVmm) (l : List (BitVec 8)) :
    ∃ t, s.Serves (l.map .recv) t { s with serial := l.foldl serialRecv s.serial } ∧
      (t.flatMap fun p => p.2.parts) = [] := by
  induction l generalizing s with
  | nil => exact ⟨[], rfl, rfl⟩
  | cons c l ih =>
    have hone : s.Serves [.recv c] [(.recv c, .nothing)] { s with serial := serialRecv s.serial c } :=
      serves_serial rfl rfl
    obtain ⟨t, hrest, hnone⟩ := ih { s with serial := serialRecv s.serial c }
    refine ⟨_, Dispatch.runAll_append hone hrest, ?_⟩
    rw [List.flatMap_append, hnone]
    rfl

/-- The counts are no part of a device. -/
theorem parts_count (s : MiniVmm) (e : KvmRun) : { s.count e with inRun := false }.parts = s.parts := by
  unfold count
  funext k
  split
  · split <;> (cases k <;> rfl)
  · cases k <;> rfl

/-- No access is made. -/
theorem comes_nothing {e : Option LoopEnd} (hparts : s'.parts = s.parts) (he : e ≠ some .hung) :
    s.Comes [] ([.nothing], s', e) := by
  refine .inr ⟨he, [], ?_, rfl⟩
  show some ([], s.parts) = some ([], s'.parts)
  rw [hparts]

theorem handleExit_comes (s : MiniVmm) (e : KvmRun) :
    s.Comes e.accesses ([(handleExit e s).1], (handleExit e s).2) := by
  cases e with
  | io port isWrite size items =>
    obtain ⟨l, hserves, hreplies⟩ := s.handleIo_serves port isWrite size items
    refine .inr ⟨by simp [handleExit], l, hserves, ?_⟩
    have hparts := flatMap_items l _ hreplies
    simpa [handleExit] using hparts
  | mmio m a =>
    cases hmmio : handleMmio a m s with
    | some y =>
      obtain ⟨data, s'⟩ := y
      refine .inr ⟨by simp [handleExit, hmmio], [(.mmio m a, .data data)], ?_, ?_⟩
      · have hserves := handleMmio_serves s a m hmmio
        simpa [handleExit, hmmio, KvmRun.accesses] using hserves
      · simp [handleExit, hmmio, Reply.parts]
    | none => exact .inl ⟨by simp [handleExit, hmmio], handleMmio_hangs a m hmmio⟩
  | hlt | other _ | eintr | shutdown | failEntry | internalError | error =>
    exact comes_nothing rfl (by simp)

theorem step_comes (s : MiniVmm) (op : Op) :
    s.Comes (op.accesses s) ([(s.step op).1], (s.step op).2) := by
  cases op with
  | enter =>
    unfold step
    split_ifs <;> exact comes_nothing rfl (by simp)
  | exit e =>
    by_cases hrun : s.inRun = true
    · have hstep : s.step (.exit e) = handleExit e { s.count e with inRun := false } := if_pos hrun
      have haccesses : (Op.exit e).accesses s = e.accesses := if_pos hrun
      have hexit := handleExit_comes { s.count e with inRun := false } e
      -- counting an exit changes no device
      unfold Comes Serves at hexit ⊢
      rw [parts_count] at hexit
      rw [haccesses, hstep]
      exact hexit
    · have hstep : s.step (.exit e) = (.nothing, s, none) := if_neg hrun
      have hnone : (Op.exit e).accesses s = [] := by
        exact if_neg hrun
      rw [hnone, hstep]
      exact comes_nothing rfl (by simp)
  | input l =>
    obtain ⟨t, hserves, hnone⟩ := s.input_serves l
    exact .inr ⟨by simp [step], t, hserves, hnone.symm⟩
  | service d qi =>
    cases hrun : (serviceVq d qi).run s.virtio with
    | mk r v =>
      cases r with
      | none => exact .inl ⟨by simp [step, hrun], hangs rfl (by simp [St.access, hrun])⟩
      | some u =>
        have hstep : s.step (.service d qi) = (.nothing, { s with virtio := v }, none) := by simp [step, hrun]
        have hserves : s.Serves [.service d qi] [(.service d qi, .nothing)] { s with virtio := v } :=
          serves_virtio rfl (by simp [St.access, hrun])
        rw [hstep]
        exact .inr ⟨by simp, _, hserves, rfl⟩
  | ram off l => exact .inr ⟨by simp [step], [(.ram off l, .nothing)], serves_virtio rfl rfl, rfl⟩
  | signal => exact .inr ⟨by simp [step], [(.signal, .nothing)], serves_serial rfl rfl, rfl⟩

end MiniVmm

end MiniVirt.Vmm
