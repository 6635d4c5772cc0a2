import MiniVirt.Vmm.Serial

/-!
# `minivmm.c`: what clears `running`

The detector of the ready marker behind THR, the reset ports and the signals stop the VMM by the one flag `running`,
and nothing sets it again.
-/

namespace MiniVirt.Vmm

/-- A write that asks for a reset: the pulse command of the keyboard controller, or the reset control register. -/
def resetRequested (port : BitVec 16) (val : BitVec 8) : Bool :=
  port == 0x64 && val == 0xfe || port == 0xcf9 && has val 0x02

/-- `power_io()`: `none` if the port is not one of its own, else the byte at `val` and `running`. -/
def powerIo (running : Bool) (port : BitVec 16) (isWrite : Bool) (val : BitVec 8) : Option (BitVec 8 × Bool) :=
  if port ≠ 0x64 ∧ port ≠ 0xcf9 then none
  else if !isWrite then some (0, running)
  else some (val, running && !resetRequested port val)

/-- What the threads of the VMM do to the port and to `running`, one at a time. -/
inductive RunOp where
  | serial (op : SerialOp)
  | powerIo (port : BitVec 16) (isWrite : Bool) (val : BitVec 8)
  /-- `on_signal()`, and `main()` once `run_loop()` has returned. -/
  | stop

def Serial.setRunning (s : Serial) (b : Bool) : Serial := { s with console := { s.console with running := b } }

def RunOp.step (s : Serial) : RunOp → Serial
  | .serial op => op.step s
  | .powerIo port isWrite val =>
    match Vmm.powerIo s.console.running port isWrite val with
    | none => s
    | some (_, running) => s.setRunning running
  | .stop => s.setRunning false

end MiniVirt.Vmm
