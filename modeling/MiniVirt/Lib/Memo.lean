import Mathlib.Data.List.Nodup

/-!
# Memo tables and tables of lists

A memo table holds values of the function it remembers.  A table of lists holds each key once, in the order in which
the keys have come.
-/

namespace MiniVirt

/-! ### Memo tables -/

/-- What has been computed of `f` so far. -/
structure Memo {α β : Type} (f : α → β) where
  entries : List (α × β)
  sound : ∀ e ∈ entries, e.2 = f e.1

namespace Memo

variable {α β : Type} {f : α → β}

def empty (f : α → β) : Memo f := ⟨[], nofun⟩

theorem sound_cons {entries : List (α × β)} (h : ∀ e ∈ entries, e.2 = f e.1) (a : α) :
    ∀ e ∈ (a, f a) :: entries, e.2 = f e.1 := by
  intro e he
  obtain rfl | he := List.mem_cons.1 he
  · rfl
  · exact h e he

/-- `f a`, from the table when it is there. -/
def get [DecidableEq α] (m : Memo f) (a : α) : β × Memo f :=
  match m.entries.find? fun e => e.1 = a with
  | some e => (e.2, m)
  | none => (f a, ⟨(a, f a) :: m.entries, sound_cons m.sound a⟩)

@[simp] theorem get_fst [DecidableEq α] (m : Memo f) (a : α) : (m.get a).1 = f a := by
  unfold get
  split
  · rename_i e he
    have hkey : e.1 = a := by simpa using List.find?_some he
    rw [← hkey]
    exact m.sound e (List.mem_of_find?_eq_some he)
  · rfl

end Memo

/-! ### Tables of lists -/

/-- A list for each of finitely many keys. -/
structure ListTable (κ β : Type) where
  entries : List (κ × List β)
  nodup : (entries.map Prod.fst).Nodup

namespace ListTable

variable {κ β : Type}

def empty : ListTable κ β := ⟨[], List.nodup_nil⟩

/-- The items of all keys. -/
def items (t : ListTable κ β) : List β := t.entries.flatMap Prod.snd

variable [DecidableEq κ]

/-- The list of a key; it is empty when the key is not there. -/
def get (t : ListTable κ β) (k : κ) : List β := ((t.entries.find? fun e => e.1 = k).map Prod.snd).getD []

/-- `b` at the end of the list of `k`. -/
def appendAux (k : κ) (b : β) : List (κ × List β) → List (κ × List β)
  | [] => [(k, [b])]
  | e :: es => if e.1 = k then (k, e.2 ++ [b]) :: es else e :: appendAux k b es

theorem mem_keys_appendAux (k : κ) (b : β) (es : List (κ × List β)) (x : κ) :
    x ∈ (appendAux k b es).map Prod.fst ↔ x = k ∨ x ∈ es.map Prod.fst := by
  induction es with
  | nil => simp [appendAux]
  | cons e es ih =>
    unfold appendAux
    split
    · rename_i hk
      simp [hk]
    · rw [List.map_cons, List.mem_cons, ih, List.map_cons, List.mem_cons]
      tauto

theorem nodup_appendAux (k : κ) (b : β) {es : List (κ × List β)} (h : (es.map Prod.fst).Nodup) :
    ((appendAux k b es).map Prod.fst).Nodup := by
  induction es with
  | nil => exact List.nodup_singleton k
  | cons e es ih =>
    rw [List.map_cons, List.nodup_cons] at h
    unfold appendAux
    split
    · rename_i hk
      rw [List.map_cons, List.nodup_cons, ← hk]
      exact h
    · rename_i hk
      rw [List.map_cons, List.nodup_cons, mem_keys_appendAux]
      exact ⟨by tauto, ih h.2⟩

def append (t : ListTable κ β) (k : κ) (b : β) : ListTable κ β :=
  ⟨appendAux k b t.entries, nodup_appendAux k b t.nodup⟩

@[simp] theorem get_empty (k : κ) : (empty : ListTable κ β).get k = [] := rfl

theorem get_append (t : ListTable κ β) (k : κ) (b : β) (k' : κ) :
    (t.append k b).get k' = if k' = k then t.get k' ++ [b] else t.get k' := by
  obtain ⟨es, hes⟩ := t
  unfold append get
  dsimp only
  clear hes
  induction es with
  | nil =>
    unfold appendAux
    by_cases hk : k' = k
    · simp [hk]
    · simp [hk, Ne.symm hk]
  | cons e es ih =>
    unfold appendAux
    by_cases he : e.1 = k
    · rw [if_pos he]
      by_cases hk : k' = k
      · simp [he, hk]
      · simp [he, hk, Ne.symm hk]
    · rw [if_neg he, List.find?_cons, List.find?_cons]
      by_cases hk : e.1 = k'
      · have hne : ¬ k' = k := hk ▸ he
        simp [hk, hne]
      · simp only [hk, decide_false]
        exact ih

/-- What a loop adds to the list of a key, when one round is known to add. -/
theorem mem_get_foldl {ε : Type} {f : ListTable κ β → ε → ListTable κ β} {Q : ε → Prop} {k : κ} {b : β}
    (hf : ∀ t e, b ∈ (f t e).get k ↔ b ∈ t.get k ∨ Q e) (es : List ε) (t : ListTable κ β) :
    b ∈ (es.foldl f t).get k ↔ b ∈ t.get k ∨ ∃ e ∈ es, Q e := by
  induction es generalizing t with
  | nil => simp
  | cons e es ih =>
    rw [List.foldl_cons, ih, hf]
    simp only [List.mem_cons, exists_eq_or_imp]
    tauto

/-- The items are those of the keys. -/
theorem mem_items_iff {t : ListTable κ β} {b : β} : b ∈ t.items ↔ ∃ k, b ∈ t.get k := by
  obtain ⟨es, hes⟩ := t
  unfold items get
  dsimp only
  induction es with
  | nil => simp
  | cons e es ih =>
    rw [List.map_cons, List.nodup_cons] at hes
    rw [List.flatMap_cons, List.mem_append, ih hes.2]
    constructor
    · rintro (hb | ⟨k, hb⟩)
      · exact ⟨e.1, by simpa using hb⟩
      · refine ⟨k, ?_⟩
        have hk : e.1 ≠ k := by
          rintro rfl
          -- the key of `e` is not among the later ones
          have hnone : (es.find? fun e' => e'.1 = e.1) = none := by
            rw [List.find?_eq_none]
            intro e' he' heq
            exact hes.1 (List.mem_map.2 ⟨e', he', of_decide_eq_true heq⟩)
          rw [hnone] at hb
          exact absurd hb List.not_mem_nil
        rw [List.find?_cons]
        simpa [hk] using hb
    · rintro ⟨k, hb⟩
      rw [List.find?_cons] at hb
      by_cases hk : e.1 = k
      · left
        simpa [hk] using hb
      · right
        refine ⟨k, ?_⟩
        simpa [hk] using hb

end ListTable

end MiniVirt
