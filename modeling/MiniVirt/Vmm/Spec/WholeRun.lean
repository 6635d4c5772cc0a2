import MiniVirt.Vmm.Spec.ExitLoop
import MiniVirt.Vmm.Spec.IrqLine
import MiniVirt.Vmm.Spec.ReadyMarker
import MiniVirt.Vmm.Spec.SerialIrq

/-!
# Whole runs of the VMM

What is known of a device by itself holds of it in the VMM, because the VMM is the product of its devices.  In the
default mode the three interrupt lines are right in every state (`vmm_lines`), and `run_loop()` stops for the ready
marker, a reset or a signal and handles at most one exit after that (`vmm_stops`).
-/

namespace MiniVirt.Vmm

/-! ### The serial port -/

/-- What an access to a byte port does to the serial port and to `running`. -/
def portOp (port : BitVec 16) (isWrite : Bool) (val : BitVec 8) : RunOp :=
  if Com1Port port then
    let reg := (port - com1Base).setWidth 8
    .serial (if isWrite then .writeReg reg val else .readReg reg)
  else .powerIo port isWrite val

/-- What an access does to the serial port and to `running`. -/
def Access.runOps : Access → List RunOp
  | .port p isWrite _ x _ => [portOp p isWrite (if isWrite then x.setWidth 8 else 0)]
  | .recv c => [.serial (.recv c)]
  | .signal => [.stop]
  | .mmio .. | .service .. | .ram .. => []

theorem byteIo_state {s : Serial} {port : BitVec 16} {isWrite : Bool} {val : BitVec 8} {y : BitVec 8 × Serial}
    (h : MiniVmm.byteIo port isWrite val s = some y) : y.2 = (portOp port isWrite val).step s := by
  unfold MiniVmm.byteIo at h
  unfold portOp
  by_cases hcom : Com1Port port
  · rw [if_pos hcom]
    cases isWrite with
    | false =>
      have hread : serialIo s port false val = some (serialReadReg s ((port - com1Base).setWidth 8)) := by
        simp [serialIo, hcom]
      rw [hread] at h
      rw [← Option.some.inj h]
      rfl
    | true =>
      have hwrite :
          serialIo s port true val = some (val, serialWriteReg s ((port - com1Base).setWidth 8) val) := by
        simp [serialIo, hcom]
      rw [hwrite] at h
      rw [← Option.some.inj h]
      rfl
  · rw [if_neg hcom]
    by_cases hother : OtherComPort port
    · have hio : serialIo s port isWrite val = some (if isWrite then val else 0xff, s) := by
        simp [serialIo, hcom, hother]
      -- the other serial ports are none of the power ports
      have hpower : powerIo s.console.running port isWrite val = none := by
        refine MiniVmm.powerIo_eq_none.2 ?_
        unfold OtherComPort at hother
        unfold PowerPort
        bv_omega
      rw [hio] at h
      rw [← Option.some.inj h]
      simp only [RunOp.step, hpower]
    · have hio : serialIo s port isWrite val = none := MiniVmm.serialIo_eq_none.2 (by simp [hcom, hother])
      rw [hio] at h
      obtain ⟨z, hz, rfl⟩ := Option.map_eq_some_iff.1 h
      simp only [RunOp.step, hz]

theorem serial_access {s s' : Serial} {x : Access} {o : Reply} (h : s.access x = some (o, s')) :
    s' = runSteps RunOp.step s x.runOps := by
  cases x with
  | port p isWrite size x a =>
    obtain ⟨y, hbyte, heq⟩ := Option.map_eq_some_iff.1 h
    rw [← (Prod.mk.inj heq).2]
    exact byteIo_state hbyte
  | recv c =>
    obtain ⟨-, rfl⟩ := Prod.mk.inj (Option.some.inj h)
    rfl
  | signal =>
    obtain ⟨-, rfl⟩ := Prod.mk.inj (Option.some.inj h)
    rfl
  | mmio m a => exact absurd h (by simp [Serial.access])
  | service d qi => exact absurd h (by simp [Serial.access])
  | ram off l => exact absurd h (by simp [Serial.access])

namespace MiniVmm

variable {s s' : MiniVmm}

/-! ### From a device to the VMM -/

/-- A step that never returns is one access to a virtio device. -/
theorem step_hung {op : Op} (h : (s.step op).2.2 = some .hung) :
    (s.step op).2.1.parts = s.parts ∧ ∀ x ∈ op.accesses s, x.owner = .virtio := by
  cases op with
  | enter =>
    unfold step at h
    split_ifs at h
    exact absurd h (by simp)
  | exit e =>
    by_cases hrun : s.inRun = true
    · have hstep : s.step (.exit e) = handleExit e { s.count e with inRun := false } := if_pos hrun
      have haccesses : (Op.exit e).accesses s = e.accesses := if_pos hrun
      rw [hstep] at h ⊢
      rw [haccesses]
      cases e with
      | mmio m a =>
        cases hmmio : handleMmio a m { s.count (.mmio m a) with inRun := false } with
        | some y =>
          simp only [handleExit, hmmio] at h
          exact absurd h (by simp)
        | none =>
          refine ⟨?_, fun x hx => ?_⟩
          · -- the exit is counted before it is handled
            simp only [handleExit, hmmio]
            exact parts_count s _
          · obtain rfl := List.mem_singleton.1 hx
            exact handleMmio_owner hmmio
      | io _ _ _ _ | hlt | other _ | eintr | shutdown | failEntry | internalError | error =>
        exact absurd h (by simp [handleExit])
    · have hstep : s.step (.exit e) = (.nothing, s, none) := if_neg hrun
      rw [hstep] at h
      exact absurd h (by simp)
  | service d qi =>
    refine ⟨?_, fun x hx => ?_⟩
    · cases hrun : (serviceVq d qi).run s.virtio with
      | mk r v =>
        cases r with
        | none => simp only [step, hrun]
        | some u =>
          simp only [step, hrun] at h
          exact absurd h (by simp)
    · obtain rfl := List.mem_singleton.1 hx
      rfl
  | input _ | ram _ _ | signal => exact absurd h (by simp [step])

/-- What every access to a device keeps, a step of the VMM keeps. -/
theorem step_parts_inv {Inv : (k : Part) → k.State → Prop}
    (hstep : ∀ (k : Part) (x : Access) (t : k.State) (o : Reply) (t' : k.State), k.step x t = some (o, t') →
      Inv k t → Inv k t')
    (hs : ∀ k, Inv k (s.parts k)) (op : Op) : ∀ k, Inv k ((s.step op).2.1.parts k) := by
  intro k
  rcases s.step_comes op with ⟨hhung, -⟩ | ⟨-, l, hserves, -⟩
  · rw [(step_hung hhung).1]
    exact hs k
  · exact Dispatch.run_inv (hstep k) ((Dispatch.runAll_iff.1 hserves).2 k) (hs k)

/-- What every access to a device keeps, every run of the VMM keeps. -/
theorem parts_inv {Inv : (k : Part) → k.State → Prop}
    (hstep : ∀ (k : Part) (x : Access) (t : k.State) (o : Reply) (t' : k.State), k.step x t = some (o, t') →
      Inv k t → Inv k t')
    (hs : ∀ k, Inv k (s.parts k)) (ops : List Op) : ∀ k, Inv k ((s.runLoop ops).2.1.parts k) := by
  induction ops generalizing s with
  | nil => exact hs
  | cons op ops ih =>
    have hone := step_parts_inv hstep hs op
    unfold runLoop
    generalize s.step op = y at hone ⊢
    obtain ⟨r, s₁, e⟩ := y
    cases e with
    | some e => exact hone
    | none => exact ih hone

/-! ### The interrupt lines -/

/-- The VMM at the beginning of `run_loop()`. -/
def initial (virtio : St) (pci : PciBus) : MiniVmm := ⟨.initial, virtio, pci, fun _ => 0, false⟩

/-- What the interrupt lines of the devices keep to in the default mode. -/
def lines : (k : Part) → k.State → Prop
  | .serial, s => IrqInv s
  | .virtio, s => s.useEventfd = false ∧ s.Lined
  | .pci, _ => True
  | .hole, _ => True

theorem runOp_inv {s : Serial} (h : IrqInv s) (op : RunOp) : IrqInv (op.step s) := by
  have hset : ∀ b, IrqInv (s.setRunning b) := fun _ => ⟨⟨h.fifo, h.sent⟩, h.id, h.level⟩
  cases op with
  | serial op => exact op.step_inv h
  | powerIo port isWrite val =>
    simp only [RunOp.step]
    split
    · exact h
    · exact hset _
  | stop => exact hset false

theorem runOps_inv {s : Serial} (h : IrqInv s) (ops : List RunOp) : IrqInv (runSteps RunOp.step s ops) := by
  induction ops generalizing s with
  | nil => exact h
  | cons op ops ih => exact ih (runOp_inv h op)

theorem virtio_lines {s s' : St} {x : Access} {o : Reply} (h : s.access x = some (o, s')) : lined.rel s s' := by
  cases x with
  | mmio m a =>
    obtain ⟨d, -, hmap⟩ := Option.bind_eq_some_iff.1 h
    obtain ⟨y, hmmio, heq⟩ := Option.map_eq_some_iff.1 hmap
    rw [← (Prod.mk.inj heq).2]
    unfold virtioMmio at hmmio
    dsimp only at hmmio
    split at hmmio
    · -- a write, which may serve a queue
      have hwrite := virtioMmioWrite_lined d (m.physAddr - d.base).toNat m.len (.ofNat 64 (leNat m.data)) s
      split at hmmio
      · exact absurd hmmio (by simp)
      · rename_i hrun
        rw [hrun] at hwrite
        rw [← Option.some.inj hmmio]
        exact hwrite
    · rw [← Option.some.inj hmmio]
      exact lined.refl s
  | service d qi =>
    have hserve := (lined_services d).serviceVq qi s
    simp only [St.access] at h
    split at h
    · exact absurd h (by simp)
    · rename_i hrun
      rw [hrun] at hserve
      rw [← (Prod.mk.inj (Option.some.inj h)).2]
      exact hserve
  | ram off l =>
    rw [← (Prod.mk.inj (Option.some.inj h)).2]
    exact fun hfd hlined => ⟨hfd, hlined⟩
  | port _ _ _ _ _ | recv _ | signal => exact absurd h (by simp [St.access])

theorem lines_step (k : Part) (x : Access) (t : k.State) (o : Reply) (t' : k.State)
    (h : k.step x t = some (o, t')) (ht : lines k t) : lines k t' := by
  cases k with
  | serial =>
    have hstate : t' = runSteps RunOp.step t x.runOps := serial_access h
    rw [hstate]
    exact runOps_inv ht _
  | virtio => exact virtio_lines h ht.1 ht.2
  | pci | hole => trivial

/-- In the default mode, whatever the guest accesses, with input, work of the worker, stores and signals at any
time between: IIR and the line of the serial port name its highest pending cause, and the line of each virtio
device is asserted exactly while its interrupt status is not 0. -/
theorem vmm_lines (mem : ByteMem) (memSize : BitVec 64) (content : List (BitVec 8)) (stale : ByteMem)
    (pci : PciBus) (ops : List Op) :
    let s := ((initial (.initial mem memSize content false stale) pci).runLoop ops).2.1
    IrqInv s.serial ∧ ∀ d : Dev, lineLevel d.gsi s.virtio.trace = true ↔ (s.virtio.dev d).intStatus ≠ 0 := by
  have hinitial : ∀ k, lines k ((initial (.initial mem memSize content false stale) pci).parts k) := by
    intro k
    cases k with
    | serial => exact initial_inv
    | virtio => exact ⟨rfl, initial_lined mem memSize content stale⟩
    | pci | hole => trivial
  have hlines := parts_inv lines_step hinitial ops
  exact ⟨hlines .serial, (hlines .virtio).2⟩

/-! ### The end of the loop -/

/-- What a run does to the serial port and to `running`. -/
def runOps (s : MiniVmm) (ops : List Op) : List RunOp :=
  ((s.accesses ops).filter (·.owner = .serial)).flatMap Access.runOps

/-- The exit that a step handles. -/
def Op.handled (s : MiniVmm) : Op → List KvmRun
  | .exit e => if s.inRun then [e] else []
  | _ => []

/-- The exits that `run_loop()` handles. -/
def handled : MiniVmm → List Op → List KvmRun
  | _, [] => []
  | s, op :: ops =>
    op.handled s ++
      match s.step op with
      | (_, s, none) => handled s ops
      | _ => []

structure StopLaw (s : MiniVmm) (ops : List Op) : Prop where
  /-- `running` is cleared by the marker on the console, a reset or a signal, and not otherwise. -/
  running : (s.runLoop ops).2.1.running = false ↔
    marker <:+: consoleStream (s.runOps ops) ∨ ∃ op ∈ s.runOps ops, op.stops = true
  /-- The loop does not stop at its head for another reason. -/
  stopped : (s.runLoop ops).2.2 = some .stopped → (s.runLoop ops).2.1.running = false
  /-- Each exit that is handled is counted once, under its own reason. -/
  counted : ∀ r < 64, (s.runLoop ops).2.1.exitCounts r =
    s.exitCounts r + (s.handled ops).countP fun e => e.reason = some r
  /-- After `running` is cleared no exit but the one on its way is handled, and the loop ends when it comes to its
  head. -/
  last : ∀ before after, ops = before ++ after → (s.runLoop before).2.2 = none →
    (s.runLoop before).2.1.running = false →
      ((s.runLoop before).2.1.handled after).length ≤ (if (s.runLoop before).2.1.inRun then 1 else 0) ∧
        ((s.runLoop before).2.1.inRun = false → .enter ∈ after → (s.runLoop ops).2.2 ≠ none)

theorem runSteps_flatMap {σ ι κ : Type} {f : σ → κ → σ} {g : ι → List κ} (s : σ) (l : List ι) :
    runSteps (fun s x => runSteps f s (g x)) s l = runSteps f s (l.flatMap g) := by
  induction l generalizing s with
  | nil => rfl
  | cons x l ih =>
    rw [List.flatMap_cons, runSteps_append]
    exact ih _

theorem step_serial (s : MiniVmm) (op : Op) : (s.step op).2.1.serial =
    runSteps RunOp.step s.serial (((op.accesses s).filter (·.owner = .serial)).flatMap Access.runOps) := by
  rcases s.step_comes op with ⟨hhung, -⟩ | ⟨-, l, hserves, -⟩
  · obtain ⟨hparts, howner⟩ := step_hung hhung
    have hnone : (op.accesses s).filter (·.owner = .serial) = [] := by
      refine List.filter_eq_nil_iff.2 fun x hx => ?_
      simp [howner x hx]
    rw [hnone]
    exact congrFun hparts .serial
  · have hrun := (Dispatch.runAll_iff.1 hserves).2 .serial
    have hstate := Dispatch.run_state (f := fun t x => runSteps RunOp.step t (Access.runOps x))
      (fun x t o t' h => serial_access h) hrun
    rw [← runSteps_flatMap]
    exact hstate

theorem runLoop_serial (s : MiniVmm) (ops : List Op) :
    (s.runLoop ops).2.1.serial = runSteps RunOp.step s.serial (s.runOps ops) := by
  induction ops generalizing s with
  | nil => rfl
  | cons op ops ih =>
    have hone := s.step_serial op
    unfold runOps runLoop accesses
    rw [List.filter_append, List.flatMap_append, runSteps_append, ← hone]
    generalize s.step op = y
    obtain ⟨r, s₁, e⟩ := y
    cases e with
    | some e => rfl
    | none => exact ih s₁

theorem runOp_off {s : Serial} (h : s.console.running = false) (op : RunOp) :
    (op.step s).console.running = false := by
  rw [RunOp.step_console]
  cases op.sends s with
  | none => simp [h]
  | some ch => simp [consoleOutput, h]

theorem step_off (h : s.running = false) (op : Op) : (s.step op).2.1.running = false := by
  unfold running at h ⊢
  rw [step_serial]
  generalize ((op.accesses s).filter _).flatMap Access.runOps = l
  generalize s.serial = t at h
  induction l generalizing t with
  | nil => exact h
  | cons o l ih => exact ih _ (runOp_off h o)

/-! ### The counts -/

/-- A handler changes neither the counts nor where the loop is. -/
theorem ioItem_rest (a : PtAnswers) (port : BitVec 16) (isWrite : Bool) (size : IoSize) (x : BitVec 32)
    (s : MiniVmm) :
    (ioItem a port isWrite size x s).2.exitCounts = s.exitCounts ∧
      (ioItem a port isWrite size x s).2.inRun = s.inRun := by
  unfold ioItem ioByte
  split <;> split <;> first | exact ⟨rfl, rfl⟩ | (split <;> exact ⟨rfl, rfl⟩)

theorem handleIo_rest (port : BitVec 16) (isWrite : Bool) (size : IoSize) (items : List (BitVec 32 × PtAnswers))
    (s : MiniVmm) :
    (handleIo port isWrite size items s).2.exitCounts = s.exitCounts ∧
      (handleIo port isWrite size items s).2.inRun = s.inRun := by
  induction items generalizing s with
  | nil => exact ⟨rfl, rfl⟩
  | cons item items ih =>
    obtain ⟨x, a⟩ := item
    obtain ⟨hcounts, hrun⟩ := ioItem_rest a port isWrite size x s
    obtain ⟨hcounts', hrun'⟩ := ih (ioItem a port isWrite size x s).2
    exact ⟨hcounts'.trans hcounts, hrun'.trans hrun⟩

theorem handleMmio_rest {a : PtAnswers} {m : Mmio} {y : List (BitVec 8) × MiniVmm}
    (h : handleMmio a m s = some y) : y.2.exitCounts = s.exitCounts ∧ y.2.inRun = s.inRun := by
  unfold handleMmio at h
  split at h
  · obtain ⟨z, -, rfl⟩ := Option.map_eq_some_iff.1 h
    exact ⟨rfl, rfl⟩
  · split at h <;>
    · rw [← Option.some.inj h]
      exact ⟨rfl, rfl⟩

theorem handleExit_rest (e : KvmRun) (s : MiniVmm) :
    (handleExit e s).2.1.exitCounts = s.exitCounts ∧ (handleExit e s).2.1.inRun = s.inRun := by
  cases e with
  | io port isWrite size items => exact handleIo_rest port isWrite size items s
  | mmio m a =>
    cases hmmio : handleMmio a m s with
    | some y => simpa only [handleExit, hmmio] using handleMmio_rest hmmio
    | none => simp [handleExit, hmmio]
  | hlt | other _ | eintr | shutdown | failEntry | internalError | error => exact ⟨rfl, rfl⟩

theorem count_exitCounts (s : MiniVmm) (e : KvmRun) {r : Nat} (hr : r < 64) :
    (s.count e).exitCounts r = s.exitCounts r + [e].countP fun e => e.reason = some r := by
  unfold count
  cases hreason : e.reason with
  | none => simp [hreason]
  | some r' =>
    by_cases hsame : r' = r
    · simp [hreason, hsame, hr]
    · by_cases hlt : r' < 64
      · simp [hreason, hsame, Ne.symm hsame, hlt]
      · simp [hreason, hsame, hlt]

theorem step_counts (s : MiniVmm) (op : Op) {r : Nat} (hr : r < 64) :
    (s.step op).2.1.exitCounts r = s.exitCounts r + (op.handled s).countP fun e => e.reason = some r := by
  cases op with
  | exit e =>
    by_cases hrun : s.inRun = true
    · have hstep : s.step (.exit e) = handleExit e { s.count e with inRun := false } := if_pos hrun
      have hhandled : (Op.exit e).handled s = [e] := if_pos hrun
      rw [hstep, hhandled, (handleExit_rest e _).1]
      exact s.count_exitCounts e hr
    · have hstep : s.step (.exit e) = (.nothing, s, none) := if_neg hrun
      have hhandled : (Op.exit e).handled s = [] := by
        exact if_neg hrun
      rw [hstep, hhandled]
      rfl
  | enter =>
    unfold step
    split_ifs <;> rfl
  | service d qi =>
    cases hserve : (serviceVq d qi).run s.virtio with
    | mk o v => cases o <;> simp only [step, hserve] <;> rfl
  | input _ | ram _ _ | signal => rfl

theorem runLoop_counts (s : MiniVmm) (ops : List Op) {r : Nat} (hr : r < 64) :
    (s.runLoop ops).2.1.exitCounts r = s.exitCounts r + (s.handled ops).countP fun e => e.reason = some r := by
  induction ops generalizing s with
  | nil => rfl
  | cons op ops ih =>
    have hone := s.step_counts op hr
    unfold runLoop handled
    rw [List.countP_append, ← Nat.add_assoc, ← hone]
    generalize s.step op = y
    obtain ⟨t, s₁, e⟩ := y
    cases e with
    | some e => rfl
    | none => exact ih s₁

theorem runLoop_ended {op : Op} {ops : List Op} {r : Reply} {s₁ : MiniVmm} {e : LoopEnd}
    (h : s.step op = (r, s₁, some e)) : (s.runLoop (op :: ops)).2 = (s₁, some e) := by
  simp only [runLoop, h]

theorem runLoop_step {op : Op} {ops : List Op} {r : Reply} {s₁ : MiniVmm} (h : s.step op = (r, s₁, none)) :
    (s.runLoop (op :: ops)).2 = (s₁.runLoop ops).2 := by
  simp only [runLoop, h]

theorem handleExit_end (e : KvmRun) (s : MiniVmm) : (handleExit e s).2.2 ≠ some .stopped := by
  cases e with
  | mmio m a => cases hmmio : handleMmio a m s <;> simp [handleExit, hmmio]
  | io _ _ _ _ | hlt | other _ | eintr | shutdown | failEntry | internalError | error => simp [handleExit]

theorem step_stopped {op : Op} (h : (s.step op).2.2 = some .stopped) : (s.step op).2.1.running = false := by
  cases op with
  | enter =>
    unfold step at h ⊢
    split_ifs with hrun hrunning
    · simp [hrun] at h
    · simp [hrun, hrunning] at h
    · simpa using hrunning
  | exit e =>
    by_cases hrun : s.inRun = true
    · have hstep : s.step (.exit e) = handleExit e { s.count e with inRun := false } := if_pos hrun
      rw [hstep] at h
      exact absurd h (handleExit_end e _)
    · have hstep : s.step (.exit e) = (.nothing, s, none) := if_neg hrun
      rw [hstep] at h
      exact absurd h (by simp)
  | service d qi =>
    cases hserve : (serviceVq d qi).run s.virtio with
    | mk o v => cases o <;> simp [step, hserve] at h
  | input _ | ram _ _ | signal => exact absurd h (by simp [step])

theorem runLoop_stopped {ops : List Op} (h : (s.runLoop ops).2.2 = some .stopped) :
    (s.runLoop ops).2.1.running = false := by
  induction ops generalizing s with
  | nil => exact absurd h (by simp [runLoop])
  | cons op ops ih =>
    rcases hstep : s.step op with ⟨r, s₁, e | e⟩
    · rw [runLoop_step hstep] at h ⊢
      exact ih h
    · rw [runLoop_ended hstep] at h ⊢
      have hone : (s.step op).2.2 = some .stopped → (s.step op).2.1.running = false := step_stopped
      rw [hstep] at hone
      exact hone h

theorem runLoop_append {before : List Op} (after : List Op) (h : (s.runLoop before).2.2 = none) :
    (s.runLoop (before ++ after)).2 = ((s.runLoop before).2.1.runLoop after).2 := by
  induction before generalizing s with
  | nil => rfl
  | cons op before ih =>
    rcases hstep : s.step op with ⟨r, s₁, e | e⟩
    · rw [runLoop_step hstep] at h
      rw [List.cons_append, runLoop_step hstep, runLoop_step hstep]
      exact ih h
    · rw [runLoop_ended hstep] at h
      exact absurd h (by simp)

/-- With `running` cleared no step calls KVM_RUN, and only an exit leaves it. -/
theorem step_inRun (h : s.running = false) (op : Op) (hgo : (s.step op).2.2 = none) :
    (s.step op).2.1.inRun = (s.inRun && (op.handled s).isEmpty) := by
  cases op with
  | enter =>
    unfold step at hgo ⊢
    split_ifs at hgo ⊢ with hrun hrunning
    · simp [Op.handled]
    · exact absurd hrunning (by simp [h])
  | exit e =>
    by_cases hrun : s.inRun = true
    · have hstep : s.step (.exit e) = handleExit e { s.count e with inRun := false } := if_pos hrun
      have hhandled : (Op.exit e).handled s = [e] := if_pos hrun
      rw [hstep, hhandled, (handleExit_rest e _).2]
      simp
    · have hstep : s.step (.exit e) = (.nothing, s, none) := if_neg hrun
      rw [hstep]
      simp [Op.handled, hrun]
  | service d qi =>
    cases hserve : (serviceVq d qi).run s.virtio with
    | mk o v => cases o <;> simp [step, hserve, Op.handled]
  | input _ | ram _ _ | signal => simp [step, Op.handled]

/-- The exit that KVM_RUN is on the way to is the last one. -/
theorem handled_le (h : s.running = false) (ops : List Op) : (s.handled ops).length ≤ if s.inRun then 1 else 0 := by
  induction ops generalizing s with
  | nil => simp [handled]
  | cons op ops ih =>
    have hone : (op.handled s).length ≤ if s.inRun then 1 else 0 := by
      cases op with
      | exit e => unfold Op.handled; split_ifs <;> simp
      | enter | input _ | service _ _ | ram _ _ | signal => simp [Op.handled]
    rcases hstep : s.step op with ⟨r, s₁, e | e⟩
    · simp only [handled, hstep, List.length_append]
      have hoff : s₁.running = false := by
        have hoff := step_off h op
        rw [hstep] at hoff
        exact hoff
      have hrun : s₁.inRun = (s.inRun && (op.handled s).isEmpty) := by
        have hrun := step_inRun h op (by rw [hstep])
        rw [hstep] at hrun
        exact hrun
      have hrest := ih hoff
      rw [hrun] at hrest
      generalize op.handled s = l at hone hrest ⊢
      cases l with
      | nil => simpa using hrest
      | cons e l =>
        have hnone : (s₁.handled ops).length = 0 := by simpa using hrest
        rw [hnone]
        exact hone
    · simpa [handled, hstep] using hone

/-- At the head of the loop it ends. -/
theorem runLoop_ends (h : s.running = false) (hrun : s.inRun = false) {ops : List Op} (henter : .enter ∈ ops) :
    (s.runLoop ops).2.2 ≠ none := by
  induction ops generalizing s with
  | nil => cases henter
  | cons op ops ih =>
    rcases hstep : s.step op with ⟨r, s₁, e | e⟩
    · rw [runLoop_step hstep]
      have hoff := step_off h op
      have hrun₁ := step_inRun h op (by rw [hstep])
      rw [hstep] at hoff hrun₁
      refine ih hoff (by simpa [hrun] using hrun₁) ?_
      rcases List.mem_cons.1 henter with rfl | henter
      · -- the head of the loop would have ended it
        simp [step, hrun, h] at hstep
      · exact henter
    · rw [runLoop_ended hstep]
      simp

/-- The loop runs until the ready marker, a reset or a signal, and no further than the exit on its way. -/
theorem vmm_stops (virtio : St) (pci : PciBus) (ops : List Op) : StopLaw (initial virtio pci) ops where
  running := by
    have hrun := (initial virtio pci).runLoop_serial ops
    unfold MiniVmm.running
    rw [hrun]
    exact afterOps_running _
  stopped := runLoop_stopped
  counted r hr := runLoop_counts _ ops hr
  last before after hops hgo hoff := by
    refine ⟨handled_le hoff after, fun hrun henter => ?_⟩
    rw [hops, runLoop_append after hgo]
    exact runLoop_ends hoff hrun henter

end MiniVmm

end MiniVirt.Vmm
