import MiniVirt.Vmm.Spec.Frame

/-!
# Which entry a queue takes first

`opens L d' d qi P` is the guarantee of `service_vq()` for queues of `d'` in a state with set-up `L`: as
long as queue `qi` of `d` has taken nothing since its `last_avail_idx` was 0, the entry it takes next is
in a slot of `P`.  A call that has yet to look at `ready` takes the one in slot 0 of the ring of `L`
(`serviceWith_opens`), and an iteration of the loop the one in slot 0 of its own ring
(`serviceRound_opens`).
-/

namespace MiniVirt.Vmm

/-- The first entry that queue `qi` of `d` takes, if it takes one, is in a slot of `P`. -/
def FirstAt (d : Dev) (qi : Nat) (P : Nat → Prop) (es : List Event) : Prop :=
  ∀ es₁ slot head es₂, es = es₁ ++ .consumed d qi slot head :: es₂ →
    es₁.countP (Event.isConsumed d qi) = 0 → P slot

variable {d d' : Dev} {q qi slot ring : Nat} {P : Nat → Prop} {es es₁ es₂ : List Event}

/-- No entry is taken. -/
theorem FirstAt.of_none (h : es.countP (Event.isConsumed d qi) = 0) : FirstAt d qi P es := by
  rintro es₁ slot head es₂ rfl -
  rw [List.countP_append, List.countP_cons_of_pos (by simp [Event.isConsumed])] at h
  omega

theorem FirstAt.append (h₁ : FirstAt d qi P es₁)
    (h₂ : es₁.countP (Event.isConsumed d qi) = 0 → FirstAt d qi P es₂) : FirstAt d qi P (es₁ ++ es₂) := by
  intro as slot head bs heq has
  rcases List.append_eq_append_iff.1 heq with ⟨cs, rfl, hcs⟩ | ⟨cs, rfl, hcs⟩
  · rw [List.countP_append, Nat.add_eq_zero_iff] at has
    exact h₂ has.1 cs slot head bs hcs has.2
  · cases cs with
    | nil =>
      rw [List.nil_append] at hcs
      rw [List.append_nil] at h₂
      exact h₂ has [] slot head bs hcs.symm rfl
    | cons c cs =>
      obtain ⟨rfl, -⟩ := List.cons.inj hcs
      exact h₁ as slot head cs rfl has

/-- `s'` differs from `s` by `service_vq()` for queues of `d'`. -/
structure Opens (L : Layout) (d' d : Dev) (qi : Nat) (P : Nat → Prop) (s s' : St) : Prop where
  serves : Serves d' s s'
  first : s.layout = L → (s.vq d qi).lastAvailIdx = 0 → ∀ es, s'.trace = s.trace ++ es → FirstAt d qi P es

variable {L : Layout}

namespace Opens

/-- What takes no entry. -/
theorem of_none {s s' : St} (h : Serves d' s s') (htr : s'.trace = s.trace ++ es)
    (hnone : es.countP (Event.isConsumed d qi) = 0) : Opens L d' d qi P s s' := by
  refine ⟨h, fun _ _ es' hes => ?_⟩
  rw [htr, List.append_cancel_left_eq] at hes
  rw [← hes]
  exact .of_none hnone

theorem of_trace {s s' : St} (h : Serves d' s s') (htr : s'.trace = s.trace) : Opens L d' d qi P s s' :=
  .of_none h (htr.trans (List.append_nil _).symm) rfl

theorem of_log (s : St) {e : Event} (he : ∀ d' qi, e.isConsumed d' qi = false) :
    Opens L d' d qi P s (s.log e) := by
  refine .of_none (.of_log s he) rfl ?_
  rw [List.countP_singleton, he]
  rfl

end Opens

def opens (L : Layout) (d' d : Dev) (qi : Nat) (P : Nat → Prop) : Guarantee St where
  rel := Opens L d' d qi P
  refl s := .of_trace ((serves d').refl s) rfl
  trans := by
    intro s₁ s₂ s₃ h₁ h₂
    refine ⟨(serves d').trans h₁.serves h₂.serves, fun hL hlast es hes => ?_⟩
    obtain ⟨es₁, ht₁, hl₁⟩ := h₁.serves.trace
    obtain ⟨es₂, ht₂, -⟩ := h₂.serves.trace
    rw [ht₂, ht₁, List.append_assoc, List.append_cancel_left_eq] at hes
    rw [← hes]
    refine (h₁.first hL hlast es₁ ht₁).append fun hnone => ?_
    have hlast₂ : (s₂.vq d qi).lastAvailIdx = 0 := by
      rw [hl₁, hnone, hlast]
      rfl
    exact h₂.first (h₁.serves.layout.trans hL) hlast₂ es₂ ht₂

theorem virtioRaiseIrq_opens : Within (opens L d' d qi P) (virtioRaiseIrq d') := by
  refine Within.bind (fun s => .of_trace (.of_setDev s rfl) rfl) fun _ => Within.get.bind fun s => ?_
  exact .ite (fun s => .of_log s fun _ _ => rfl) (fun s => .of_log s fun _ _ => rfl)

theorem opens_queue (q : Nat) : QueueServices d' q (opens L d' d qi P) where
  log s e he := by
    refine .of_log s fun _ _ => ?_
    cases e <;> first | rfl | cases he
  data s mem blk stale := .of_trace ((serves_services d').data s mem blk stale) rfl
  used s head len := .of_log s fun _ _ => rfl
  raise := virtioRaiseIrq_opens

theorem opens_console : ConsoleTransfers (opens L .console d qi P) :=
  ⟨(opens_queue 0).toTransfers, fun s c => .of_trace ((serves_services .console).conIn rfl s c) rfl⟩

/-- The entry counts if it is one of queue `qi` of `d`. -/
theorem advance_opens (h : d' = d → q = qi → P slot) (head : BitVec 16) :
    Within (opens L d' d qi P) (advance d' q slot head) := by
  intro s
  by_cases hq : d' = d ∧ q = qi
  case neg =>
    have htr : ((advance d' q slot head).run s).2.trace = s.trace ++ [.consumed d' q slot head] := rfl
    refine .of_none (advance_serves d' q slot head s) htr ?_
    simp [Event.isConsumed, hq]
  refine ⟨advance_serves d' q slot head s, fun _ _ es hes => ?_⟩
  rw [← List.append_cancel_left hes]
  intro es₁ slot' head' es₂ heq _
  rcases List.cons_eq_append_iff.1 heq with ⟨-, hcons⟩ | ⟨as, -, has⟩
  · obtain ⟨hevent, -⟩ := List.cons.inj hcons
    obtain ⟨-, -, rfl, -⟩ := Event.consumed.inj hevent
    exact h hq.1 hq.2
  · simp at has

variable {handle : List Seg → V (Option (BitVec 32))}

theorem serviceRound_opens (hh : ∀ segs, Within (opens L d' d qi P) (handle segs))
    (hring : d' = d → q = qi → P ring) (idx : BitVec 16) (did : Bool) :
    Within (opens L d' d qi P) (serviceRound handle d' q ring idx did) := by
  by_cases hq : d' = d ∧ q = qi
  case neg =>
    exact (opens_queue q).serviceRound hh (fun slot => advance_opens fun hd hqi => absurd ⟨hd, hqi⟩ hq) ring idx did
  obtain ⟨rfl, rfl⟩ := hq
  intro s
  by_cases hlast : (s.vq d' q).lastAvailIdx = 0
  case neg =>
    have hserves : Within (serves d') (serviceRound handle d' q ring idx did) :=
      ((serves_services d').queue q).serviceRound (fun segs => (hh segs).mono fun _ _ h => h.serves)
        (advance_serves d' q) ring idx did
    exact ⟨hserves s, fun _ h => absurd h hlast⟩
  -- The slot is the first of the ring.
  have hround : Within (opens L d' d' q P) (guestLoad ring 2 >>= fun head =>
      serveHead handle d' q ring (.ofNat 16 head) did) :=
    ((opens_queue q).guestLoad ring 2).bind fun head =>
      (opens_queue q).serveHead hh (advance_opens fun _ _ => hring rfl rfl) _ did
  unfold serviceRound
  rw [run_bind, run_get]
  dsimp only
  rw [run_ite, run_ite, hlast, show (0 : BitVec 16).toNat = 0 from rfl, Nat.zero_mod, Nat.mul_zero, Nat.add_zero]
  split
  · exact (opens L d' d' q P).refl s
  · split
    · exact (opens L d' d' q P).refl s
    · exact hround s

theorem serviceWith_opens (hh : ∀ segs, Within (opens L d' d qi P) (handle segs))
    (hready : (L.vq d qi).ready ≠ 0 → P (L.vq d qi).availRing) (q : Nat) :
    Within (opens L d' d qi P) (serviceWith handle d' q) := by
  intro s
  by_cases hL : s.layout = L
  case neg =>
    have hserves : Within (serves d') (serviceWith handle d' q) :=
      (serves_services d').serviceWith (fun segs => (hh segs).mono fun _ _ h => h.serves) q
    exact ⟨hserves s, fun h => absurd h hL⟩
  unfold serviceWith
  rw [run_bind, run_get]
  dsimp only
  rw [run_ite]
  split
  · exact (opens L d' d qi P).refl s
  · rename_i hlive
    split
    · rename_i availIdx ring hidx hring
      refine (opens_queue q).serviceRing (serviceRound_opens hh ?_) availIdx s
      rintro rfl rfl
      have hq := layout_vq hL d' q
      rw [← hq] at hready
      rw [(gpa2hva_eq_some hring).1]
      exact hready fun h => hlive (.inr (.inl h))
    · exact (opens L d' d qi P).refl s

theorem devHandle_opens (hready : (L.vq d qi).ready ≠ 0 → P (L.vq d qi).availRing) (q : Nat) (segs : List Seg) :
    Within (opens L d' d qi P) (devHandle d' q segs) := by
  cases d' with
  | blk => exact (opens_queue q).blkHandle segs
  | console =>
    show Within (opens L .console d qi P) (consoleHandle q segs)
    refine .ite ?_ (opens_console.consoleReceive segs)
    exact (opens_console.transmitSegs segs).bind fun _ =>
      (serviceWith_opens opens_console.consoleReceive hready 0).bind fun _ => .pure _

theorem serviceVq_opens (hready : (L.vq d qi).ready ≠ 0 → P (L.vq d qi).availRing) (q : Nat) :
    Within (opens L d' d qi P) (serviceVq d' q) := serviceWith_opens (devHandle_opens hready q) hready q

end MiniVirt.Vmm
