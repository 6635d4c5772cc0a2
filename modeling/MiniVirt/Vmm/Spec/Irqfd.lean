import MiniVirt.Vmm.Irqfd

/-!
# No completion is lost in `-e` mode

The order push, flag, pulse of the worker against read, acknowledge, drain of the handler: as long as
entries are left and no handler is about to drain, the flag is set from the store on, and from the
eventfd write on a handler will start or has started (`Irqfd.Inv`).
-/

namespace MiniVirt.Vmm

/-- The handler has read a non-zero INT_STATUS: it will consume all used entries. -/
def HandlerPc.willDrain : HandlerPc → Bool
  | .idle | .started => false
  | .read _ | .acking _ _ | .draining => true

namespace Irqfd

/-- The worker is between a push and its write to the eventfd. -/
def busy (s : Irqfd) : Bool := s.raise != .none || s.calls.any id

/-- No pulse is outstanding, no handler is running, and the worker is not busy. -/
def Quiescent (s : Irqfd) : Prop := s.pulse = false ∧ s.handler = .idle ∧ s.busy = false

/-- What holds in all states. -/
structure Inv (s : Irqfd) : Prop where
  le : s.consumed ≤ s.pushed
  /-- After the store the flag stays set until a handler drains. -/
  stored : s.raise = .stored → s.consumed < s.pushed → s.handler.willDrain = false → s.intStatus ≠ 0
  /-- After the eventfd write a handler finds it set. -/
  settled : s.busy = false → s.consumed < s.pushed → s.handler.willDrain = false →
    s.intStatus ≠ 0 ∧ (s.pulse = true ∨ s.handler = .started)

theorem initial_inv : Inv .initial := by
  constructor
  · exact le_rfl
  · exact fun h => by cases h
  · exact fun _ h => absurd h (by decide)

theorem or_vring_ne_zero (v : BitVec 32) : v ||| vmmioIntVring ≠ 0 := by
  intro h
  have hbit := congrArg (fun b => b.getLsbD 0) h
  simp [vmmioIntVring] at hbit

theorem busy_of_raise {s : Irqfd} (h : s.raise ≠ .none) : s.busy = true := by
  unfold busy
  rw [bne_iff_ne.2 h, Bool.true_or]

theorem busy_of_did {s : Irqfd} {cs : List Bool} (h : s.calls = true :: cs) : s.busy = true := by
  unfold busy
  rw [h, List.any_cons]
  exact Bool.or_true _

/-- The steps of the worker. -/
theorem step_inv_worker {s s' : Irqfd} {l : IrqfdStep} (hs : Inv s) (h : s.step l = some s')
    (hl : l ∈ [IrqfdStep.call, .push, .ret, .load, .store, .pulse]) : Inv s' := by
  simp only [List.mem_cons, List.not_mem_nil, or_false] at hl
  rcases hl with rfl | rfl | rfl | rfl | rfl | rfl
  · -- call
    dsimp only [step] at h
    split at h
    · rename_i hr
      obtain rfl := Option.some.inj h
      exact ⟨hs.le, hs.stored, hs.settled⟩
    · cases h
  · -- push: the worker is busy from here to its pulse
    dsimp only [step] at h
    split at h
    · rename_i hr
      obtain rfl := Option.some.inj h
      refine ⟨Nat.le_succ_of_le hs.le, fun hst => ?_, fun hb => ?_⟩
      · exact absurd (hr.symm.trans hst) (by simp)
      · rw [busy_of_did rfl] at hb
        cases hb
    · cases h
  · -- ret
    dsimp only [step] at h
    split at h
    · rename_i cs hc hr
      obtain rfl := Option.some.inj h
      refine ⟨hs.le, hs.stored, fun hb => hs.settled ?_⟩
      unfold busy at hb ⊢
      rwa [hc, List.any_cons]
    · cases h
  · -- load
    dsimp only [step] at h
    split at h
    · obtain rfl := Option.some.inj h
      refine ⟨hs.le, fun hst => (by cases hst), fun hb => ?_⟩
      rw [busy_of_raise (by simp)] at hb
      cases hb
    · cases h
  · -- store: the flag is set now
    dsimp only [step] at h
    split at h
    · obtain rfl := Option.some.inj h
      refine ⟨hs.le, fun _ _ _ => or_vring_ne_zero _, fun hb => ?_⟩
      rw [busy_of_raise (by simp)] at hb
      cases hb
    · cases h
  · -- pulse
    dsimp only [step] at h
    split at h
    · rename_i hr
      obtain rfl := Option.some.inj h
      exact ⟨hs.le, fun hst => (by cases hst), fun _ hlt hw => ⟨hs.stored hr hlt hw, .inl rfl⟩⟩
    · cases h

/-- The steps of the handler. -/
theorem step_inv_handler {s s' : Irqfd} {l : IrqfdStep} (hs : Inv s) (h : s.step l = some s')
    (hl : l ∈ [IrqfdStep.start, .readStatus, .ackLoad, .ackStore, .consume, .finish]) : Inv s' := by
  simp only [List.mem_cons, List.not_mem_nil, or_false] at hl
  rcases hl with rfl | rfl | rfl | rfl | rfl | rfl
  · -- start: it takes the pulse
    dsimp only [step] at h
    split at h
    · rename_i hh
      obtain rfl := Option.some.inj h
      refine ⟨hs.le, fun hst hlt _ => ?_, fun hb hlt _ => ?_⟩
      · exact hs.stored hst hlt (by rw [hh]; rfl)
      · exact ⟨(hs.settled hb hlt (by rw [hh]; rfl)).1, .inr rfl⟩
    · cases h
  · -- readStatus: if entries are left, the flag is set and the handler goes on to drain
    dsimp only [step] at h
    split at h
    · rename_i hh
      obtain rfl := Option.some.inj h
      have hidle : s.handler.willDrain = false := by
        rw [hh]
        rfl
      refine ⟨hs.le, fun hst hlt hw => hs.stored hst hlt hidle, fun hb hlt hw => ?_⟩
      have hne := (hs.settled hb hlt hidle).1
      dsimp only at hw
      rw [if_neg hne] at hw
      cases hw
    · cases h
  · -- ackLoad
    dsimp only [step] at h
    split at h
    · obtain rfl := Option.some.inj h
      exact ⟨hs.le, fun _ _ hw => (by cases hw), fun _ _ hw => (by cases hw)⟩
    · cases h
  · -- ackStore: it may clear the flag, but it drains afterwards
    dsimp only [step] at h
    split at h
    · obtain rfl := Option.some.inj h
      exact ⟨hs.le, fun _ _ hw => (by cases hw), fun _ _ hw => (by cases hw)⟩
    · cases h
  · -- consume
    dsimp only [step] at h
    split at h
    · rename_i hh
      split at h
      · rename_i hlt
        obtain rfl := Option.some.inj h
        have hw : s.handler.willDrain = true := by
          rw [hh]
          rfl
        refine ⟨hlt, fun _ _ hf => ?_, fun _ _ hf => ?_⟩
        · exact absurd (hw.symm.trans hf) (by simp)
        · exact absurd (hw.symm.trans hf) (by simp)
      · cases h
    · cases h
  · -- finish: nothing is left
    dsimp only [step] at h
    split at h
    · split at h
      · cases h
      · rename_i hle
        obtain rfl := Option.some.inj h
        exact ⟨hs.le, fun _ hlt => absurd hlt hle, fun _ hlt => absurd hlt hle⟩
    · cases h

theorem step_inv {s s' : Irqfd} {l : IrqfdStep} (hs : Inv s) (h : s.step l = some s') : Inv s' := by
  have hcases : l ∈ [IrqfdStep.call, .push, .ret, .load, .store, .pulse] ∨
      l ∈ [IrqfdStep.start, .readStatus, .ackLoad, .ackStore, .consume, .finish] := by
    cases l <;> decide
  rcases hcases with hl | hl
  · exact step_inv_worker hs h hl
  · exact step_inv_handler hs h hl

theorem run_inv {s s' : Irqfd} {ls : List IrqfdStep} (hs : Inv s) (h : s.run ls = some s') : Inv s' := by
  induction ls generalizing s with
  | nil => exact Option.some.inj h ▸ hs
  | cons l ls ih =>
    unfold run at h
    rw [List.foldlM_cons] at h
    cases hstep : s.step l with
    | none =>
      rw [hstep] at h
      cases h
    | some s₁ =>
      rw [hstep] at h
      exact ih (step_inv hs hstep) h

/-- Whenever all is quiet, the driver has consumed every used entry. -/
theorem consumed_of_quiescent {ls : List IrqfdStep} {s : Irqfd} (h : Irqfd.initial.run ls = some s)
    (hq : s.Quiescent) : s.consumed = s.pushed := by
  have hinv := run_inv initial_inv h
  obtain ⟨hpulse, hhandler, hbusy⟩ := hq
  by_contra hne
  have hlt := Nat.lt_of_le_of_ne hinv.le hne
  obtain ⟨-, hp | hh⟩ := hinv.settled hbusy hlt (by rw [hhandler]; rfl)
  · rw [hpulse] at hp
    cases hp
  · rw [hhandler] at hh
    cases hh

/-- The flag is set between the load and the store of an acknowledgement, which clears it. -/
def crossedRun : List IrqfdStep :=
  [.call, .push, .load, .store, .pulse, .start, .readStatus, .call, .push, .load, .ackLoad, .store,
    .ackStore, .pulse, .consume, .consume, .finish, .start, .readStatus]

theorem consumed_of_quiescent_crossed : ∃ s, Irqfd.initial.run crossedRun = some s ∧
    s.Quiescent ∧ s.consumed = s.pushed ∧ s.pushed = 2 := by
  refine ⟨{ Irqfd.initial with pushed := 2, consumed := 2 }, rfl, ⟨rfl, rfl, rfl⟩, ?_, rfl⟩
  have hrun : Irqfd.initial.run crossedRun = some { Irqfd.initial with pushed := 2, consumed := 2 } := rfl
  exact consumed_of_quiescent hrun ⟨rfl, rfl, rfl⟩

end Irqfd

end MiniVirt.Vmm
