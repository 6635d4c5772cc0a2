import MiniVirt.Vmm.Spec.Work
import Mathlib.Order.Interval.Set.Basic

/-!
# What the device model may touch

`frame M W` is the guarantee of the code between an entry of the avail ring and the used ring: with
`M` bytes of guest RAM, all accesses to it lie below `M`, only bytes in `W` change, and the devices
and their queues stay as they are.  The walk of `gather_chain()`, the console and the data transfers
of the block device keep it, provided the segments lie in guest RAM.
-/

namespace MiniVirt.Vmm

/-! ### Accesses in guest RAM -/

/-- If the event is an access to guest RAM of `m` bytes, all its bytes are there. -/
def Event.InRam (m : Nat) : Event → Prop
  | .read off len | .write off len => ∀ i, off ≤ i → i < off + len → i < m
  | _ => True

/-- Every access so far was to a byte of guest RAM. -/
def St.InRam (s : St) : Prop := ∀ e ∈ s.trace, e.InRam s.memSize.toNat

theorem gpa2hva_eq_some {m a n : BitVec 64} {off : Nat} (h : gpa2hva m a n = some off) :
    off = a.toNat ∧ off + n.toNat ≤ m.toNat := by
  unfold gpa2hva at h
  split at h
  · cases h
  · rename_i hc
    have hoff : a.toNat = off := Option.some.inj h
    refine ⟨hoff.symm, ?_⟩
    simp only [not_or, BitVec.not_lt, BitVec.le_def, BitVec.toNat_add] at hc
    have ha := a.isLt
    have hn := n.isLt
    omega

theorem gpa2hva_of_le {m a n : BitVec 64} (h : a.toNat + n.toNat ≤ m.toNat) :
    gpa2hva m a n = some a.toNat := by
  have hm := m.isLt
  refine if_neg ?_
  simp only [not_or, BitVec.not_lt, BitVec.le_def, BitVec.toNat_add]
  omega

/-! ### The guarantee -/

/-- `s'` differs from `s` by work inside `M` bytes of guest RAM that writes only to `W`. -/
structure Frame (M : BitVec 64) (W : Set Nat) (s s' : St) : Prop where
  memSize : s'.memSize = M
  dev : s'.dev = s.dev
  useEventfd : s'.useEventfd = s.useEventfd
  mem : ∀ i, i ∉ W → s'.mem i = s.mem i
  trace : ∃ es, s'.trace = s.trace ++ es ∧ ∀ e ∈ es, e.InRam M.toNat ∧ e.isQueue = false

def frame (M : BitVec 64) (W : Set Nat) : Guarantee St where
  rel s s' := s.memSize = M → Frame M W s s'
  refl s hs := ⟨hs, rfl, rfl, fun _ _ => rfl, [], (List.append_nil _).symm, by simp⟩
  trans := by
    intro s₁ s₂ s₃ h₁ h₂ hs
    have h₁ := h₁ hs
    have h₂ := h₂ h₁.memSize
    obtain ⟨es₁, ht₁, he₁⟩ := h₁.trace
    obtain ⟨es₂, ht₂, he₂⟩ := h₂.trace
    refine ⟨h₂.memSize, h₂.dev.trans h₁.dev, h₂.useEventfd.trans h₁.useEventfd,
      fun i hi => (h₂.mem i hi).trans (h₁.mem i hi), es₁ ++ es₂, ?_, ?_⟩
    · rw [ht₂, ht₁, List.append_assoc]
    · intro e he
      rcases List.mem_append.1 he with he | he
      · exact he₁ e he
      · exact he₂ e he

variable {M : BitVec 64} {W W' : Set Nat} {α : Type}

namespace frame

theorem mono {m : V α} (h : Within (frame M W) m) (hW : W ⊆ W') : Within (frame M W') m := by
  refine Within.mono h fun s s' hrel hs => ?_
  have hf := hrel hs
  exact ⟨hf.memSize, hf.dev, hf.useEventfd, fun i hi => hf.mem i fun hw => hi (hW hw), hf.trace⟩

/-- The state that `get` returns has `M` bytes of guest RAM. -/
theorem get_bind {f : St → V α} (h : ∀ s : St, s.memSize = M → Within (frame M W) (f s)) :
    Within (frame M W) (get >>= f) := fun s hs => h s hs s hs

/-- Changes of the console's FIFO, the file and the stack. -/
theorem of_eq {m : V α} (h : ∀ s, (m.run s).2.memSize = s.memSize ∧ (m.run s).2.dev = s.dev ∧
    (m.run s).2.useEventfd = s.useEventfd ∧ (m.run s).2.mem = s.mem ∧ (m.run s).2.trace = s.trace) :
    Within (frame M W) m := by
  intro s hs
  obtain ⟨hM, hdev, hfd, hmem, htr⟩ := h s
  exact ⟨hM.trans hs, hdev, hfd, fun i _ => congrFun hmem i, [], by rw [htr, List.append_nil],
    by simp⟩

theorem emit {e : Event} (h : e.InRam M.toNat) (hq : e.isQueue = false) :
    Within (frame M W) (emit e) := by
  intro s hs
  refine ⟨hs, rfl, rfl, fun _ _ => rfl, [e], rfl, ?_⟩
  rintro e' he'
  rw [List.mem_singleton.1 he']
  exact ⟨h, hq⟩

theorem read {off n : Nat} (h : off + n ≤ M.toNat) :
    Within (frame M W) (Vmm.emit (.read off n)) := by
  refine frame.emit ?_ rfl
  intro i _ hi
  omega

theorem write {off n : Nat} (h : off + n ≤ M.toNat) :
    Within (frame M W) (Vmm.emit (.write off n)) := by
  refine frame.emit ?_ rfl
  intro i _ hi
  omega

end frame

/-! ### Operations on guest RAM -/

/-- The bytes of a segment. -/
def Seg.bytes (g : Seg) : Set Nat := Set.Ico g.hva (g.hva + g.len.toNat)

/-- The buffers of the segments lie in guest RAM. -/
def SegsInRam (M : BitVec 64) (segs : List Seg) : Prop :=
  ∀ g ∈ segs, g.hva + g.len.toNat ≤ M.toNat

theorem SegsInRam.head {g : Seg} {segs : List Seg} (h : SegsInRam M (g :: segs)) :
    g.hva + g.len.toNat ≤ M.toNat := h g (List.mem_cons_self)

theorem SegsInRam.tail {g : Seg} {segs : List Seg} (h : SegsInRam M (g :: segs)) :
    SegsInRam M segs := fun g' hg' => h g' (List.mem_cons_of_mem g hg')

theorem gatherLoop_frame {vq : Vq} {dt : Nat} (hdt : dt + 16 * vq.num.toNat ≤ M.toNat) (fuel : Nat)
    (idx : BitVec 16) (guard : BitVec 32) (segs : List Seg) :
    Within (frame M W) (gatherLoop vq dt fuel idx guard segs) := by
  induction fuel generalizing idx guard segs with
  | zero => exact .pure _
  | succ fuel ih =>
    unfold gatherLoop
    split
    · exact .pure _
    · rename_i hc
      refine (frame.read (by omega)).bind fun _ => frame.get_bind fun s _ => ?_
      dsimp only
      split
      · exact .pure _
      · split
        · exact ih _ _ _
        · exact .pure _

theorem toNat_mul_num (k : BitVec 64) (num : BitVec 32) (hk : k.toNat < 2 ^ 32) :
    (k * num.setWidth 64).toNat = k.toNat * num.toNat := by
  have hn := num.isLt
  have hmul := Nat.mul_le_mul (show k.toNat ≤ 4294967295 by omega) (show num.toNat ≤ 4294967295 by omega)
  rw [BitVec.toNat_mul, BitVec.toNat_setWidth, Nat.mod_eq_of_lt (show num.toNat < 2 ^ 64 by omega)]
  apply Nat.mod_eq_of_lt
  omega

theorem gatherChain_frame (vq : Vq) (head : BitVec 16) : Within (frame M W) (gatherChain vq head) := by
  refine frame.get_bind fun s hs => ?_
  split
  · exact .pure _
  · rename_i dt hdt
    have hle := (gpa2hva_eq_some hdt).2
    rw [toNat_mul_num 16 vq.num (by decide), hs] at hle
    exact gatherLoop_frame hle _ _ _ _

theorem Io.quota_le {ios : List Io} {n k : Nat} (h : Io.quota ios n = some k) : k ≤ n := by
  unfold Io.quota at h
  split at h
  · exact (Option.some.inj h).ge
  · cases h
  · exact (Option.some.inj h).symm.trans_le (Nat.min_le_right _ _)

theorem length_pread {blk : BlkBackend} {l : List (BitVec 8)} {n : Nat} {off : BitVec 64}
    (h : (pread n off blk).1 = some l) : l.length ≤ n := by
  unfold pread at h
  split at h
  · rename_i k _ hquota
    rw [← Option.some.inj h]
    exact (List.length_take_le _ _).trans (Io.quota_le hquota)
  · cases h

end MiniVirt.Vmm
