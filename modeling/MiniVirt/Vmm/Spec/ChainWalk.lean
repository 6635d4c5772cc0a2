import MiniVirt.Lib.Iterate
import MiniVirt.Vmm.Spec.Chain
import Mathlib.Data.FinEnum

/-!
# The end of the walk along a chain

`guard` ends a walk that has met a cycle, but it is a 32-bit number and never greater than `num` when `num` is the
greatest one.  Then only the chain itself can end the walk (`gatherChain_iff`).
-/

namespace MiniVirt.Vmm

variable {vq : Vq} {dt : Nat} {s : St}

/-! ### The walk without the guard -/

/-- The descriptor at index `idx` of the table at `dt`. -/
def descAt (m : ByteMem) (dt : Nat) (idx : BitVec 16) : Desc := Desc.ofMem m (dt + 16 * idx.toNat)

/-- The index after `idx`. -/
def nextIdx (m : ByteMem) (dt : Nat) (idx : BitVec 16) : BitVec 16 := (descAt m dt idx).next

/-- The walk goes no further than the descriptor `d`. -/
def Desc.Stops (memSize : BitVec 64) (d : Desc) : Prop := ¬ d.InRam memSize ∨ d.hasNext = false

/-- The walk comes to a descriptor at which it stops. -/
def WalkStops (s : St) (dt : Nat) (head : BitVec 16) : Prop :=
  ∃ k, (descAt s.mem dt ((nextIdx s.mem dt)^[k] head)).Stops s.memSize

/-- It does so before it has met all 2^16 indices. -/
theorem WalkStops.exists_lt {head : BitVec 16} (h : WalkStops s dt head) :
    ∃ k < 2 ^ 16, (descAt s.mem dt ((nextIdx s.mem dt)^[k] head)).Stops s.memSize := by
  have hcard : Fintype.card (BitVec 16) = 2 ^ 16 := FinEnum.card_eq_fintypeCard.symm
  rw [← hcard]
  exact exists_iterate_lt_card (P := fun idx => (descAt s.mem dt idx).Stops s.memSize) h

/-! ### Rounds -/

/-- A round of the walk is refused, or it reads a descriptor and then ends the walk or goes on to the next one. -/
theorem gatherLoop_round (vq : Vq) (dt fuel : Nat) (idx : BitVec 16) (guard : BitVec 32) (acc : List Seg) (s : St) :
    let y := (gatherLoop vq dt (fuel + 1) idx guard acc).run s
    let s' := s.log (.read (dt + 16 * idx.toNat) 16)
    ((vq.num.toNat ≤ idx.toNat ∨ vq.num < guard) ∧ y = (.bad, s)) ∨
      (guard ≤ vq.num ∧ (descAt s.mem dt idx).Stops s.memSize ∧ ∃ g, g ≠ .diverge ∧ y = (g, s')) ∨
        (guard ≤ vq.num ∧ ¬ (descAt s.mem dt idx).Stops s.memSize ∧
          ∃ acc', y = (gatherLoop vq dt fuel (nextIdx s.mem dt idx) (guard + 1) acc').run s') := by
  dsimp only
  rw [gatherLoop_succ_run]
  by_cases hrefused : vq.num.toNat ≤ idx.toNat ∨ vq.num < guard
  · rw [if_pos hrefused]
    exact .inl ⟨hrefused, rfl⟩
  · rw [if_neg hrefused]
    right
    have hguard : guard ≤ vq.num := BitVec.not_lt.1 fun h => hrefused (.inr h)
    have hstops : (descAt s.mem dt idx).Stops s.memSize ↔
        ¬ (descAt s.mem dt idx).InRam s.memSize ∨ (descAt s.mem dt idx).hasNext = false := Iff.rfl
    dsimp only
    rw [gpa2hva_desc]
    by_cases hram : (descAt s.mem dt idx).InRam s.memSize
    · rw [if_pos (by exact hram)]
      by_cases hnext : (descAt s.mem dt idx).hasNext = true
      · refine .inr ⟨hguard, ?_, _, if_pos hnext⟩
        rw [hstops, hnext]
        simp [hram]
      · refine .inl ⟨hguard, .inr (Bool.eq_false_of_not_eq_true hnext), .ok _, nofun, if_neg hnext⟩
    · rw [if_neg (by exact hram)]
      exact .inl ⟨hguard, .inl hram, .bad, nofun, rfl⟩

theorem length_trace_log (s : St) (e : Event) : (s.log e).trace.length = s.trace.length + 1 := by
  unfold St.log
  rw [List.length_append, List.length_singleton]

/-- A walk that comes to a stop at its `k`-th descriptor ends there, or before. -/
theorem gatherLoop_of_stops {k fuel : Nat} {idx : BitVec 16} {guard : BitVec 32} {acc : List Seg}
    (hstop : (descAt s.mem dt ((nextIdx s.mem dt)^[k] idx)).Stops s.memSize) (hfuel : k < fuel) :
    ((gatherLoop vq dt fuel idx guard acc).run s).1 ≠ .diverge ∧
      ((gatherLoop vq dt fuel idx guard acc).run s).2.trace.length ≤ s.trace.length + (k + 1) := by
  induction k generalizing s fuel idx guard acc with
  | zero =>
    obtain ⟨fuel, rfl⟩ := Nat.exists_eq_succ_of_ne_zero (Nat.ne_of_gt hfuel)
    obtain ⟨-, hy⟩ | ⟨-, -, g, hg, hy⟩ | ⟨-, hgo, -⟩ := gatherLoop_round vq dt fuel idx guard acc s
    · rw [hy]
      exact ⟨nofun, Nat.le_add_right _ _⟩
    · rw [hy]
      exact ⟨hg, by rw [length_trace_log]⟩
    · exact absurd hstop hgo
  | succ k ih =>
    obtain ⟨fuel, rfl⟩ := Nat.exists_eq_succ_of_ne_zero (show fuel ≠ 0 by omega)
    obtain ⟨-, hy⟩ | ⟨-, -, g, hg, hy⟩ | ⟨-, -, acc', hy⟩ := gatherLoop_round vq dt fuel idx guard acc s
    · rw [hy]
      exact ⟨nofun, Nat.le_add_right _ _⟩
    · rw [hy]
      exact ⟨hg, by rw [length_trace_log]; omega⟩
    · rw [hy]
      have hrest := @ih (s.log (.read (dt + 16 * idx.toNat) 16)) fuel (nextIdx s.mem dt idx) (guard + 1) acc'
      obtain ⟨hends, hlen⟩ := hrest hstop (by omega)
      rw [length_trace_log] at hlen
      exact ⟨hends, by omega⟩

/-- The guard lets no more than `num + 1` rounds pass, unless `num` is the greatest 32-bit number. -/
theorem gatherLoop_reads {fuel : Nat} {idx : BitVec 16} {guard : BitVec 32} {acc : List Seg}
    (hnum : vq.num.toNat + 1 < 2 ^ 32) (hguard : guard.toNat ≤ vq.num.toNat + 1) :
    ((gatherLoop vq dt fuel idx guard acc).run s).2.trace.length + guard.toNat ≤
      s.trace.length + (vq.num.toNat + 1) := by
  induction fuel generalizing s idx guard acc with
  | zero => exact Nat.add_le_add_left hguard _
  | succ fuel ih =>
    obtain ⟨-, hy⟩ | ⟨hle, -, g, -, hy⟩ | ⟨hle, -, acc', hy⟩ := gatherLoop_round vq dt fuel idx guard acc s
    · rw [hy]
      exact Nat.add_le_add_left hguard _
    · rw [hy, length_trace_log]
      rw [BitVec.le_def] at hle
      omega
    · rw [BitVec.le_def] at hle
      have hnext : (guard + 1).toNat = guard.toNat + 1 := by
        rw [BitVec.toNat_add]
        simp
        omega
      have hrest := @ih (s.log (.read (dt + 16 * idx.toNat) 16)) (nextIdx s.mem dt idx) (guard + 1) acc' (by omega)
      rw [length_trace_log, hnext] at hrest
      rw [hy]
      omega

/-- For the greatest `num`, a walk that comes to no stop goes on for ever. -/
theorem gatherLoop_forever {fuel : Nat} {idx : BitVec 16} {guard : BitVec 32} {acc : List Seg}
    (hnum : vq.num.toNat + 1 = 2 ^ 32) (hgo : ¬ WalkStops s dt idx) :
    ((gatherLoop vq dt fuel idx guard acc).run s).1 = .diverge := by
  induction fuel generalizing s idx guard acc with
  | zero => rfl
  | succ fuel ih =>
    obtain ⟨hrefused, -⟩ | ⟨-, hstops, -⟩ | ⟨-, -, acc', hy⟩ := gatherLoop_round vq dt fuel idx guard acc s
    · have hidx := idx.isLt
      have hguard := guard.isLt
      rw [BitVec.lt_def] at hrefused
      omega
    · exact absurd ⟨0, hstops⟩ hgo
    · rw [hy]
      refine ih fun ⟨k, hk⟩ => hgo ⟨k + 1, hk⟩

/-! ### The law -/

/-- What `gather_chain()` does with the chain at `head`. -/
structure GatherLaw (s : St) (vq : Vq) (head : BitVec 16) : Prop where
  ends : ((gatherChain vq head).run s).1 ≠ .diverge
  /-- Every descriptor that is visited is an event. -/
  visits : ((gatherChain vq head).run s).2.trace.length ≤ s.trace.length + (vq.num.toNat + 1)
  /-- It returns 0 exactly for a well-formed chain. -/
  ok : (∃ segs, ((gatherChain vq head).run s).1 = .ok segs) ↔ ∃ ds, ChainAt s.mem s.memSize vq head ds
  segs : ∀ segs ds, ((gatherChain vq head).run s).1 = .ok segs → ChainAt s.mem s.memSize vq head ds →
    segs = (ds.map Desc.seg).take 64

/-- The guard can pass `num`, or it is not needed. -/
def GuardWorks (s : St) (vq : Vq) (head : BitVec 16) : Prop :=
  vq.num ≠ 0xffffffff ∨ s.memSize.toNat < vq.desc.toNat + 16 * vq.num.toNat ∨ WalkStops s vq.desc.toNat head

theorem gatherChain_run (s : St) (vq : Vq) (head : BitVec 16) :
    (gatherChain vq head).run s =
      if vq.desc.toNat + 16 * vq.num.toNat ≤ s.memSize.toNat then
        (gatherLoop vq vq.desc.toNat (vq.num.toNat + 2) head 0 []).run s
      else (.bad, s) := by
  have hmul := toNat_mul_num 16 vq.num (by decide)
  unfold gatherChain
  rw [run_bind, run_get]
  dsimp only
  by_cases hle : vq.desc.toNat + 16 * vq.num.toNat ≤ s.memSize.toNat
  · rw [if_pos hle, gpa2hva_of_le (by rwa [hmul])]
  · rw [if_neg hle]
    cases hdt : gpa2hva s.memSize vq.desc (16 * vq.num.setWidth 64) with
    | none => rfl
    | some dt =>
      have hle' := (gpa2hva_eq_some hdt).2
      rw [(gpa2hva_eq_some hdt).1, hmul] at hle'
      exact absurd hle' hle

/-- The walk ends, after `num + 1` visits at most, where the guard works. -/
theorem gatherChain_ends {head : BitVec 16} (h : GuardWorks s vq head) :
    ((gatherChain vq head).run s).1 ≠ .diverge ∧
      ((gatherChain vq head).run s).2.trace.length ≤ s.trace.length + (vq.num.toNat + 1) := by
  have hlt := vq.num.isLt
  rw [gatherChain_run]
  split
  · rename_i hle
    by_cases hnum : vq.num.toNat + 1 = 2 ^ 32
    · have hstops : WalkStops s vq.desc.toNat head := by
        obtain hne | hout | hstops := h
        · exact absurd (BitVec.eq_of_toNat_eq (by simp; omega)) hne
        · omega
        · exact hstops
      obtain ⟨k, hk, hstop⟩ := hstops.exists_lt
      have hfuel : k < vq.num.toNat + 2 := by omega
      obtain ⟨hends, hlen⟩ := @gatherLoop_of_stops vq vq.desc.toNat s k _ head 0 [] hstop hfuel
      exact ⟨hends, by omega⟩
    · refine ⟨gatherLoop_ne_diverge (by omega) (Nat.zero_le _) (by simp), ?_⟩
      exact @gatherLoop_reads vq vq.desc.toNat s _ head 0 [] (by omega) (Nat.zero_le _)
  · exact ⟨nofun, Nat.le_add_right _ _⟩

theorem gatherChain_iff (s : St) (vq : Vq) (head : BitVec 16) : GatherLaw s vq head ↔ GuardWorks s vq head := by
  constructor
  · intro h
    by_contra hguard
    unfold GuardWorks at hguard
    simp only [not_or, ne_eq, not_not, Nat.not_lt] at hguard
    obtain ⟨hnum, hle, hgo⟩ := hguard
    refine h.ends ?_
    rw [gatherChain_run, if_pos hle]
    exact gatherLoop_forever (by rw [hnum]; rfl) hgo
  · intro h
    obtain ⟨hends, hvisits⟩ := gatherChain_ends h
    refine ⟨hends, hvisits, ?_, fun segs ds hok hds => ?_⟩
    · constructor
      · rintro ⟨segs, hok⟩
        obtain ⟨ds, hds, -⟩ := gatherChain_ok_iff.1 hok
        exact ⟨ds, hds⟩
      · rintro ⟨ds, hds⟩
        exact ⟨_, gatherChain_ok_iff.2 ⟨ds, hds, rfl⟩⟩
    · obtain ⟨ds', hds', rfl⟩ := gatherChain_ok_iff.1 hok
      rw [hds.2.unique hds'.2]
      rfl

/-- 64 GiB of guest RAM with a descriptor at 0 whose `next` is itself. -/
def endlessStart : St := .initial (fun i => if i = 12 then 1 else 0) 0x1000000000 [] false fun _ => 0

def endlessVq : Vq := { Vq.zero with num := 0xffffffff }

theorem not_gatherLaw : ¬∀ s vq head, GatherLaw s vq head := by
  intro h
  refine (h endlessStart endlessVq 0).ends ?_
  rw [gatherChain_run, if_pos (by decide)]
  refine gatherLoop_forever (by decide) ?_
  rintro ⟨k, hk⟩
  have hself : nextIdx endlessStart.mem 0 0 = 0 := by decide
  have hfixed : (nextIdx endlessStart.mem 0)^[k] 0 = 0 := Function.iterate_fixed hself k
  have hram : (descAt endlessStart.mem 0 0).InRam endlessStart.memSize := by decide
  have hnext : (descAt endlessStart.mem 0 0).hasNext = true := by decide
  have hstops : (descAt endlessStart.mem 0 0).Stops endlessStart.memSize := hfixed ▸ hk
  obtain hout | hlast := hstops
  · exact hout hram
  · rw [hnext] at hlast
    cases hlast

end MiniVirt.Vmm
