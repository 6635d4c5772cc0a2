import MiniVirt.Vmm.Spec.WritableBuffers

/-!
# The used ring

`push_used()` puts its element at the place that the free-running index `used->idx` has modulo `num`, and moves the
index on.  So after any number of elements the ring holds the last `num` ones (`usedAt_pushElems`), also when the index
has wrapped around, as `num` is a power of two.
-/

namespace MiniVirt.Vmm

/-- An element of the used ring. -/
structure UsedElem where
  head : BitVec 16
  len : BitVec 32
  deriving DecidableEq

namespace Vq

/-- `used->idx`. -/
def usedIdx (vq : Vq) (m : ByteMem) : Nat := m.load (vq.used.toNat + 2) 2

/-- Where `used->ring[i]` is. -/
def usedSlot (vq : Vq) (i : Nat) : Nat := vq.used.toNat + 4 + 8 * i

/-- The `id` and `len` of `used->ring[i]`. -/
def usedAt (vq : Vq) (m : ByteMem) (i : Nat) : Nat × Nat := (m.load (vq.usedSlot i) 4, m.load (vq.usedSlot i + 4) 4)

/-- The bytes of the used ring. -/
def usedRing (vq : Vq) : Set Nat := Set.Ico vq.used.toNat (vq.used.toNat + (4 + 8 * vq.num.toNat))

/-- Guest RAM after an element has been pushed. -/
def pushElem (vq : Vq) (m : ByteMem) (e : UsedElem) : ByteMem :=
  let slot := vq.usedSlot (vq.usedIdx m % vq.num.toNat)
  ((m.store slot 4 e.head.toNat).store (slot + 4) 4 e.len.toNat).store (vq.used.toNat + 2) 2 (vq.usedIdx m + 1)

def pushElems (vq : Vq) (m : ByteMem) (es : List UsedElem) : ByteMem := es.foldl vq.pushElem m

variable {vq : Vq} {m m' : ByteMem} {e : UsedElem} {es : List UsedElem}

theorem pushElems_concat (vq : Vq) (m : ByteMem) (es : List UsedElem) (e : UsedElem) :
    vq.pushElems m (es ++ [e]) = vq.pushElem (vq.pushElems m es) e := List.foldl_concat ..

/-! ### One element -/

theorem pushElem_of_not_mem (hnum : 0 < vq.num.toNat) {a : Nat} (ha : a ∉ vq.usedRing) (m : ByteMem) (e : UsedElem) :
    vq.pushElem m e a = m a := by
  have hslot := Nat.mod_lt (vq.usedIdx m) hnum
  have hout : a < vq.used.toNat ∨ vq.used.toNat + (4 + 8 * vq.num.toNat) ≤ a := by
    simpa [usedRing, Set.mem_Ico, Nat.lt_or_ge, imp_iff_not_or] using ha
  unfold pushElem usedSlot
  rw [ByteMem.store_of_not_mem (by omega), ByteMem.store_of_not_mem (by omega), ByteMem.store_of_not_mem (by omega)]

theorem usedIdx_congr (h : ∀ a ∈ vq.usedRing, m' a = m a) : vq.usedIdx m' = vq.usedIdx m := by
  apply ByteMem.load_congr
  intro i hi hi'
  exact h i ⟨by omega, by omega⟩

theorem usedAt_congr (h : ∀ a ∈ vq.usedRing, m' a = m a) {i : Nat} (hi : i < vq.num.toNat) :
    vq.usedAt m' i = vq.usedAt m i := by
  have hslot : ∀ a, vq.usedSlot i ≤ a → a < vq.usedSlot i + 8 → m' a = m a := by
    intro a ha ha'
    unfold usedSlot at ha ha'
    exact h a ⟨by omega, by omega⟩
  apply Prod.ext
  · exact ByteMem.load_congr fun a ha ha' => hslot a ha (by omega)
  · exact ByteMem.load_congr fun a ha ha' => hslot a (by omega) (by omega)

/-- What there is in the ring depends on what was in it. -/
theorem pushElem_congr (h : ∀ a ∈ vq.usedRing, m' a = m a) (e : UsedElem) :
    ∀ a ∈ vq.usedRing, vq.pushElem m' e a = vq.pushElem m e a := by
  intro a ha
  unfold pushElem
  rw [usedIdx_congr h]
  apply ByteMem.store_congr
  apply ByteMem.store_congr
  apply ByteMem.store_congr
  exact h a ha

theorem usedIdx_pushElem (vq : Vq) (m : ByteMem) (e : UsedElem) :
    vq.usedIdx (vq.pushElem m e) = (vq.usedIdx m + 1) % 65536 := ByteMem.load_store_self ..

theorem usedAt_pushElem_self (vq : Vq) (m : ByteMem) (e : UsedElem) :
    vq.usedAt (vq.pushElem m e) (vq.usedIdx m % vq.num.toNat) = (e.head.toNat, e.len.toNat) := by
  have hhead := e.head.isLt
  have hlen := e.len.isLt
  unfold usedAt pushElem
  dsimp only
  generalize hslot : vq.usedSlot (vq.usedIdx m % vq.num.toNat) = slot
  have hle : vq.used.toNat + 4 ≤ slot := hslot ▸ Nat.le_add_right _ _
  -- the index and the other half of the element lie apart
  rw [ByteMem.load_store_of_not_mem (by omega), ByteMem.load_store_of_not_mem (by omega), ByteMem.load_store_self,
    ByteMem.load_store_of_not_mem (by omega), ByteMem.load_store_self, Nat.mod_eq_of_lt (by omega),
    Nat.mod_eq_of_lt (by omega)]

theorem usedAt_pushElem_of_ne {i : Nat} (hi : i ≠ vq.usedIdx m % vq.num.toNat) (e : UsedElem) :
    vq.usedAt (vq.pushElem m e) i = vq.usedAt m i := by
  have hapart : vq.usedSlot i + 8 ≤ vq.usedSlot (vq.usedIdx m % vq.num.toNat) ∨
      vq.usedSlot (vq.usedIdx m % vq.num.toNat) + 8 ≤ vq.usedSlot i := by
    unfold usedSlot
    omega
  have hle : vq.used.toNat + 4 ≤ vq.usedSlot i := Nat.le_add_right _ _
  unfold usedAt pushElem
  dsimp only
  rw [ByteMem.load_store_of_not_mem (by omega), ByteMem.load_store_of_not_mem (by omega),
    ByteMem.load_store_of_not_mem (by omega), ByteMem.load_store_of_not_mem (by omega),
    ByteMem.load_store_of_not_mem (by omega), ByteMem.load_store_of_not_mem (by omega)]

/-! ### Any number of elements -/

theorem pushElems_append (vq : Vq) (m : ByteMem) (es es' : List UsedElem) :
    vq.pushElems m (es ++ es') = vq.pushElems (vq.pushElems m es) es' := List.foldl_append

theorem pushElems_of_not_mem (hnum : 0 < vq.num.toNat) {a : Nat} (ha : a ∉ vq.usedRing) (m : ByteMem)
    (es : List UsedElem) : vq.pushElems m es a = m a := by
  induction es generalizing m with
  | nil => rfl
  | cons e es ih => exact (ih _).trans (pushElem_of_not_mem hnum ha m e)

theorem pushElems_congr (h : ∀ a ∈ vq.usedRing, m' a = m a) (es : List UsedElem) :
    ∀ a ∈ vq.usedRing, vq.pushElems m' es a = vq.pushElems m es a := by
  induction es generalizing m m' with
  | nil => exact h
  | cons e es ih => exact ih (pushElem_congr h e)

theorem usedIdx_pushElems (vq : Vq) (m : ByteMem) (es : List UsedElem) :
    vq.usedIdx (vq.pushElems m es) = (vq.usedIdx m + es.length) % 65536 := by
  induction es using List.reverseRecOn with
  | nil => exact (Nat.mod_eq_of_lt (ByteMem.load_lt ..)).symm
  | append_singleton es e ih => simp [pushElems_concat, usedIdx_pushElem, ih, Nat.add_assoc]

/-- The ring holds the last `num` elements. -/
theorem usedAt_pushElems (hnum : vq.num.toNat ∣ 65536) {j : Nat} (hj : es[j]? = some e)
    (hlast : es.length ≤ j + vq.num.toNat) :
    vq.usedAt (vq.pushElems m es) ((vq.usedIdx m + j) % vq.num.toNat) = (e.head.toNat, e.len.toNat) := by
  induction es using List.reverseRecOn with
  | nil => cases hj
  | append_singleton es x ih =>
    have hidx : vq.usedIdx (vq.pushElems m es) % vq.num.toNat = (vq.usedIdx m + es.length) % vq.num.toNat := by
      rw [usedIdx_pushElems, Nat.mod_mod_of_dvd _ hnum]
    rw [List.length_append, List.length_singleton] at hlast
    rw [pushElems_concat]
    obtain hlt | hge := Nat.lt_or_ge j es.length
    · rw [List.getElem?_append_left hlt] at hj
      rw [usedAt_pushElem_of_ne, ih hj (by omega)]
      -- fewer than `num` elements have come after this one
      rw [hidx]
      intro heq
      have hmod : vq.usedIdx m + j ≡ vq.usedIdx m + es.length [MOD vq.num.toNat] := heq
      have hdvd := (Nat.modEq_iff_dvd' (by omega)).1 hmod
      have hle := Nat.le_of_dvd (by omega) hdvd
      omega
    · obtain ⟨hlt', hx⟩ := List.getElem?_eq_some_iff.1 hj
      rw [List.length_append, List.length_singleton] at hlt'
      obtain rfl : j = es.length := by omega
      rw [List.getElem_concat_length rfl] at hx
      rw [← hidx, usedAt_pushElem_self, hx]

end Vq

/-! ### `push_used()` -/

/-- The record of `push_used()`. -/
def pushEvents (d : Dev) (qi : Nat) (vq : Vq) (m : ByteMem) (e : UsedElem) : List Event :=
  let slot := vq.usedSlot (vq.usedIdx m % vq.num.toNat)
  [.read (vq.used.toNat + 2) 2, .write slot 4, .write (slot + 4) 4, .write (vq.used.toNat + 2) 2,
    .used d qi e.head e.len]

theorem pushUsed_run {s : St} {d : Dev} {qi : Nat}
    (h : (s.vq d qi).used.toNat + (4 + 8 * (s.vq d qi).num.toNat) ≤ s.memSize.toNat) (head : BitVec 16)
    (len : BitVec 32) :
    ((pushUsed d qi head len).run s).2 = { s with
      mem := (s.vq d qi).pushElem s.mem ⟨head, len⟩
      trace := s.trace ++ pushEvents d qi (s.vq d qi) s.mem ⟨head, len⟩ } := by
  have hsize := s.memSize.isLt
  have hidx : ((s.vq d qi).used + 2).toNat = (s.vq d qi).used.toNat + 2 := by
    rw [BitVec.toNat_add]
    simp
    omega
  have hring : ((s.vq d qi).used + 4).toNat = (s.vq d qi).used.toNat + 4 := by
    rw [BitVec.toNat_add]
    simp
    omega
  have hmul := toNat_mul_num 8 (s.vq d qi).num (by decide)
  have helems : ((s.vq d qi).used + 4).toNat + (8 * (s.vq d qi).num.setWidth 64).toNat ≤ s.memSize.toNat := by
    rw [hring, hmul]
    simp
    omega
  rw [pushUsed, run_bind, run_get]
  dsimp only
  rw [gpa2hva_of_le (by rw [hidx]; simp; omega), gpa2hva_of_le helems, hidx, hring]
  have htrace (slot : Nat) : s.trace ++ [.read ((s.vq d qi).used.toNat + 2) 2] ++ [.write slot 4] ++
      [.write (slot + 4) 4] ++ [.write ((s.vq d qi).used.toNat + 2) 2] ++ [.used d qi head len] =
        s.trace ++ [.read ((s.vq d qi).used.toNat + 2) 2, .write slot 4, .write (slot + 4) 4,
          .write ((s.vq d qi).used.toNat + 2) 2, .used d qi head len] := by simp
  unfold pushEvents
  rw [← htrace]
  rfl

end MiniVirt.Vmm
