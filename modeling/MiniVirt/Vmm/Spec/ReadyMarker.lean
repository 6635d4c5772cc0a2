import MiniVirt.Lib.Window
import MiniVirt.Vmm.Running
import MiniVirt.Vmm.Spec.SerialRouting

/-!
# The ready marker

`console_output()` keeps the last 13 bytes in an array of zeros and compares it with the marker.  `readyLaw` says that
this finds the marker in the stream of all bytes, whatever else happens in between.
-/

namespace MiniVirt.Vmm

/-! ### The law -/

/-- The byte that an operation hands to `console_output()`. -/
def SerialOp.sends (s : Serial) : SerialOp → Option (BitVec 8)
  | .writeReg reg val =>
    if reg = uartRx ∧ has s.lcr uartLcrDlab = false ∧ has s.mcr uartMcrLoop = false then some val else none
  | _ => none

namespace RunOp

def sends (s : Serial) : RunOp → Option (BitVec 8)
  | .serial op => op.sends s
  | _ => none

/-- An operation that stops the VMM without the marker. -/
def stops : RunOp → Bool
  | .serial _ => false
  | .powerIo port isWrite val => isWrite && resetRequested port val
  | .stop => true

end RunOp

/-- The port after the operations `ops`. -/
def afterOps (ops : List RunOp) : Serial := runSteps RunOp.step .initial ops

/-- The stream that the operations hand to `console_output()`. -/
def consoleStream (ops : List RunOp) : List (BitVec 8) :=
  stepsLog RunOp.step (fun s op => (op.sends s).toList) .initial ops

structure ReadyLaw (ops : List RunOp) : Prop where
  /-- The next byte clears `running` if and only if the stream then ends with the marker. -/
  clears : ∀ (op : RunOp) (ch : BitVec 8), op.sends (afterOps ops) = some ch →
    ((op.step ((afterOps ops).setRunning true)).console.running = false ↔ marker <:+ consoleStream ops ++ [ch])
  /-- `running` is cleared by the marker in the stream or by something else, and not otherwise. -/
  running : (afterOps ops).console.running = false ↔ marker <:+: consoleStream ops ∨ ∃ op ∈ ops, op.stops = true

/-! ### The console -/

/-- The array holds the end of the stream `l`. -/
structure Console.Follows (c : Console) (l : List (BitVec 8)) : Prop where
  out : c.out = l
  hist : c.hist = window marker.length 0 l

theorem Console.Follows.output {c : Console} {l : List (BitVec 8)} (h : c.Follows l) (ch : BitVec 8) :
    (consoleOutput c ch).Follows (l ++ [ch]) := by
  refine ⟨congrArg (· ++ [ch]) h.out, ?_⟩
  rw [window_concat (by decide), ← h.hist]
  rfl

theorem Console.Follows.running_iff {c : Console} {l : List (BitVec 8)} (h : c.Follows l) (ch : BitVec 8) :
    (consoleOutput c ch).running = false ↔ c.running = false ∨ marker <:+ l ++ [ch] := by
  have hmatch := @window_eq_iff_suffix _ 0 marker (by decide) (l ++ [ch])
  rw [← (h.output ch).hist] at hmatch
  rw [← hmatch]
  show (c.running && (consoleOutput c ch).hist != marker) = false ↔ _
  rw [Bool.and_eq_false_iff, bne_eq_false_iff_eq]

/-! ### The operations -/

variable {s : Serial}

theorem serialUpdateIrq_console (s : Serial) : (serialUpdateIrq s).console = s.console :=
    (serialUpdateIrq_rest s).console

theorem serialTransmit_console (s : Serial) (val : BitVec 8) :
    (serialTransmit s val).console =
      if has s.mcr uartMcrLoop = true then s.console else consoleOutput s.console val := by
  split
  · rename_i hloop
    exact (serialTransmit_rest hloop val).console
  · rename_i hloop
    unfold serialTransmit
    extract_lets s₁ s₂
    have h₂ : s₂ = { s₁ with console := consoleOutput s.console val } := if_neg hloop
    rw [serialUpdateIrq_console, h₂]

theorem serialWriteIer_console (s : Serial) (val : BitVec 8) : (serialWriteIer s val).console = s.console := by
  unfold serialWriteIer
  dsimp only
  rw [serialUpdateIrq_console]
  split <;> rfl

theorem serialWriteFcr_console (s : Serial) (val : BitVec 8) : (serialWriteFcr s val).console = s.console := by
  unfold serialWriteFcr
  extract_lets v s₁ s₂ s₃
  have h₁ : s₁.console = s.console := by
    show (ite _ _ _ : Serial).console = _
    split <;> rfl
  have h₂ : s₂.console = s₁.console := by
    show (ite _ _ _ : Serial).console = _
    split <;> rfl
  rw [serialUpdateIrq_console, ← h₁, ← h₂]
  split <;> rfl

theorem serialReadReg_console (s : Serial) (reg : BitVec 8) : (serialReadReg s reg).2.console = s.console := by
  apply serialReadReg_cases (P := fun s' => s'.console = s.console) reg
  · intro _ _
    unfold serialReceive
    extract_lets r s₁
    have hr : r.2.console = s.console := by
      show (ite _ _ _ : BitVec 8 × Serial).2.console = _
      split <;> rfl
    rw [serialUpdateIrq_console, ← hr]
    show (ite _ _ _ : Serial).console = _
    split <;> rfl
  · intro _
    unfold serialReadIir
    dsimp only
    split
    · exact serialUpdateIrq_console _
    · rfl
  · intro _
    unfold serialReadLsr
    dsimp only
    split
    · exact serialUpdateIrq_console _
    · rfl
  · intro _
    unfold serialReadMsr
    split
    · rfl
    · dsimp only
      split
      · exact serialUpdateIrq_console _
      · rfl
  · exact fun _ => rfl

/-- An operation on the port hands one byte to the console or leaves it alone. -/
theorem SerialOp.step_console (s : Serial) (op : SerialOp) :
    (op.step s).console = (op.sends s).elim s.console (consoleOutput s.console) := by
  cases op with
  | recv c => exact (serialRecv_rest s c).console
  | readReg reg => exact serialReadReg_console s reg
  | writeReg reg val =>
    have hkeep : reg ≠ uartRx → SerialOp.sends s (.writeReg reg val) = none := fun hreg => if_neg fun h => hreg h.1
    apply serialWriteReg_cases (P := fun s' =>
      s'.console = (SerialOp.sends s (.writeReg reg val)).elim s.console (consoleOutput s.console)) reg val
    · rintro rfl hlatch
      have hsends : SerialOp.sends s (.writeReg uartRx val) = none :=
        if_neg fun h => Bool.noConfusion (hlatch.symm.trans h.2.1)
      rw [hsends]
      rfl
    · rintro rfl hdata
      rw [serialTransmit_console]
      unfold SerialOp.sends
      dsimp only
      -- in loopback nothing is sent
      by_cases hloop : has s.mcr uartMcrLoop = true
      · rw [if_pos hloop, if_neg (by rw [hloop]; nofun)]
        rfl
      · rw [if_neg hloop, if_pos ⟨rfl, hdata, Bool.eq_false_iff.2 hloop⟩]
        rfl
    · rintro rfl _
      rw [hkeep (by decide)]
      rfl
    · rintro rfl _
      rw [hkeep (by decide)]
      exact serialWriteIer_console s val
    · rintro rfl
      rw [hkeep (by decide)]
      exact serialWriteFcr_console s val
    · rintro rfl
      rw [hkeep (by decide)]
      rfl
    · rintro rfl
      rw [hkeep (by decide)]
      rfl
    · rintro rfl
      rw [hkeep (by decide)]
      rfl
    · rintro ⟨hreg, -⟩
      rw [hkeep hreg]
      rfl

/-- What an operation does to the console. -/
theorem RunOp.step_console (s : Serial) (op : RunOp) :
    (op.step s).console = (op.sends s).elim { s.console with running := s.console.running && !op.stops }
      (consoleOutput s.console) := by
  cases op with
  | serial op =>
    refine (op.step_console s).trans ?_
    show (op.sends s).elim s.console _ = (op.sends s).elim { s.console with running := s.console.running && true } _
    rw [Bool.and_true]
  | stop =>
    show { s.console with running := false } = { s.console with running := s.console.running && false }
    rw [Bool.and_false]
  | powerIo port isWrite val =>
    show _ = { s.console with running := s.console.running && !(isWrite && resetRequested port val) }
    unfold RunOp.step Vmm.powerIo
    dsimp only
    by_cases hport : port ≠ 0x64 ∧ port ≠ 0xcf9
    · rw [if_pos hport]
      have hreset : resetRequested port val = false := by
        unfold resetRequested
        rw [beq_false_of_ne hport.1, beq_false_of_ne hport.2]
        rfl
      rw [hreset, Bool.and_false, Bool.not_false, Bool.and_true]
    · rw [if_neg hport]
      cases isWrite with
      | false => simp [Serial.setRunning]
      | true => simp [Serial.setRunning]

/-! ### Runs -/

theorem afterOps_concat (ops : List RunOp) (op : RunOp) : afterOps (ops ++ [op]) = op.step (afterOps ops) :=
  runSteps_append _ ops [op]

theorem consoleStream_concat (ops : List RunOp) (op : RunOp) :
    consoleStream (ops ++ [op]) = consoleStream ops ++ (op.sends (afterOps ops)).toList := by
  unfold consoleStream
  rw [stepsLog_append]
  exact congrArg (_ ++ ·) (List.append_nil _)

theorem follows_afterOps (ops : List RunOp) : (afterOps ops).console.Follows (consoleStream ops) := by
  induction ops using List.reverseRecOn with
  | nil => exact ⟨rfl, rfl⟩
  | append_singleton ops op ih =>
    rw [afterOps_concat, consoleStream_concat, RunOp.step_console]
    cases op.sends (afterOps ops) with
    | none =>
      rw [Option.toList_none, List.append_nil]
      exact ⟨ih.out, ih.hist⟩
    | some ch => exact ih.output ch

theorem afterOps_running (ops : List RunOp) :
    (afterOps ops).console.running = false ↔ marker <:+: consoleStream ops ∨ ∃ op ∈ ops, op.stops = true := by
  induction ops using List.reverseRecOn with
  | nil => exact iff_of_false nofun (by rintro (h | ⟨op, hop, -⟩) <;> [exact absurd h (by decide); cases hop])
  | append_singleton ops op ih =>
    have hmem : (∃ o ∈ ops ++ [op], o.stops = true) ↔ (∃ o ∈ ops, o.stops = true) ∨ op.stops = true := by
      simp only [List.mem_append, List.mem_singleton, or_and_right, exists_or, exists_eq_left]
    rw [afterOps_concat, consoleStream_concat, RunOp.step_console, hmem]
    cases hsends : op.sends (afterOps ops) with
    | none =>
      rw [Option.toList_none, List.append_nil]
      show (_ && _) = false ↔ _
      rw [Bool.and_eq_false_iff, ih, Bool.not_eq_false', or_assoc]
    | some ch =>
      have hstops : op.stops = false := by
        cases op with
        | serial op => rfl
        | powerIo port isWrite val => exact absurd hsends nofun
        | stop => exact absurd hsends nofun
      show (consoleOutput _ ch).running = false ↔ _
      rw [(follows_afterOps ops).running_iff, ih, Option.toList_some, List.infix_concat_iff, hstops,
        or_iff_left (b := false = true) nofun, or_comm, or_assoc]

/-- The marker is found in the stream of all bytes handed to the console: at its last byte, and nowhere else. -/
theorem readyLaw (ops : List RunOp) : ReadyLaw ops where
  clears op ch hsends := by
    have hsends' : op.sends ((afterOps ops).setRunning true) = some ch := by
      cases op with
      | serial op => cases op <;> exact hsends
      | powerIo port isWrite val => exact absurd hsends nofun
      | stop => exact absurd hsends nofun
    have hfollows : ((afterOps ops).setRunning true).console.Follows (consoleStream ops) :=
      ⟨(follows_afterOps ops).out, (follows_afterOps ops).hist⟩
    rw [RunOp.step_console, hsends']
    show (consoleOutput _ ch).running = false ↔ _
    rw [hfollows.running_iff]
    exact or_iff_right nofun
  running := afterOps_running ops

end MiniVirt.Vmm
