import MiniVirt.Vmm.VirtioMmio
import MiniVirt.Lib.Runs

/-!
# The driver and its devices

Without `-e` the vCPU thread handles every register write to completion before the guest goes on, so a run
is a list of register writes with changes of guest RAM between them.
-/

namespace MiniVirt.Vmm

inductive DriverAct where
  /-- The guest changes its RAM. -/
  | store (mem : ByteMem)
  | write (d : Dev) (off len : Nat) (val : BitVec 64)

namespace DriverAct

def prog : DriverAct → V (Option Unit)
  | .store mem => do
    modify fun s => { s with mem := mem }
    return some ()
  | .write d off len val => virtioMmioWrite d off len val

/-- A call that does not return is a last step. -/
def step (s : St) (a : DriverAct) : St := (a.prog.run s).2

/-- The vCPU thread handles the step to completion. -/
def Returns (s : St) (a : DriverAct) : Prop := (a.prog.run s).1 = some ()

instance (s : St) (a : DriverAct) : Decidable (a.Returns s) := inferInstanceAs (Decidable (_ = _))

end DriverAct

end MiniVirt.Vmm
