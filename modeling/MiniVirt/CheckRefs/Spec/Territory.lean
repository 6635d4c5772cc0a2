import MiniVirt.CheckRefs.Nearby

/-!
# The territory of a function

The territory of a definition goes up to the next definition of the file, and that of the last one up to the end of the
file.  `nearby_lines` stops at the line of the last definition itself (`territory_iff`).
-/

namespace MiniVirt.CheckRefs

variable {tree : Tree} {path : Path} {name : Name} {d n : Nat}

/-! ### The two indexes -/

theorem mem_numbered {text line : List Char} :
    (line, n) ∈ numbered text ↔ 1 ≤ n ∧ (splitlines text)[n - 1]? = some line :=
  List.mem_zipIdx_iff_le_and_getElem?_sub

theorem mem_get_defIndexOf :
    n ∈ (defIndexOf tree path).get name ↔
      ∃ line, (line, n) ∈ numbered (tree path) ∧ lineDef (isAsm path) line = some name := by
  unfold defIndexOf
  rw [ListTable.mem_get_foldl (Q := fun e => e.2 = n ∧ lineDef (isAsm path) e.1 = some name)]
  · rw [ListTable.get_empty]
    constructor
    · rintro (h | ⟨⟨line, _⟩, hmem, rfl, hdef⟩)
      · exact absurd h List.not_mem_nil
      · exact ⟨line, hmem, hdef⟩
    · rintro ⟨line, hmem, hdef⟩
      exact .inr ⟨(line, n), hmem, rfl, hdef⟩
  · intro t e
    cases hdef : lineDef (isAsm path) e.1 with
    | none => simp
    | some w =>
      rw [ListTable.get_append]
      by_cases hw : name = w
      · simp [hw, eq_comm]
      · simp [hw, Ne.symm hw]

theorem mem_get_occurrencesOf :
    n ∈ (occurrencesOf tree path).get name ↔ ∃ line, (line, n) ∈ numbered (tree path) ∧ name ∈ words line := by
  unfold occurrencesOf
  rw [ListTable.mem_get_foldl (Q := fun e => e.2 = n ∧ name ∈ words e.1)]
  · rw [ListTable.get_empty]
    constructor
    · rintro (h | ⟨⟨line, _⟩, hmem, rfl, hword⟩)
      · exact absurd h List.not_mem_nil
      · exact ⟨line, hmem, hword⟩
    · rintro ⟨line, hmem, hword⟩
      exact .inr ⟨(line, n), hmem, rfl, hword⟩
  · intro t e
    rw [ListTable.mem_get_foldl (Q := fun w => e.2 = n ∧ name = w)]
    · simp [and_comm]
    · intro t w
      rw [ListTable.get_append]
      by_cases hw : name = w
      · simp [hw, eq_comm]
      · simp [hw]

/-- A line of the file on which some definition is recorded. -/
def IsStart (tree : Tree) (path : Path) (n : Nat) : Prop := ∃ name, n ∈ (defIndexOf tree path).get name

theorem mem_startsOf : n ∈ startsOf (defIndexOf tree path) ↔ IsStart tree path n := by
  unfold startsOf IsStart
  rw [List.mem_insertionSort, List.mem_dedup, ListTable.mem_items_iff]

theorem sorted_startsOf (idx : ListTable Name Nat) : (startsOf idx).Pairwise (· ≤ ·) :=
  List.pairwise_insertionSort (· ≤ ·) _

/-! ### The lines near a name -/

/-- The lines of a definition end before the next one; without a next one they are the definition line alone. -/
theorem mem_bodyLines {starts : List Nat} (hs : starts.Pairwise (· ≤ ·)) (hd : d ∈ starts) :
    n ∈ bodyLines starts d ↔ d ≤ n ∧ (∀ e ∈ starts, d < e → n < e) ∧ (n = d ∨ ∃ e ∈ starts, d < e) := by
  unfold bodyLines
  dsimp only
  rw [Finset.mem_Ico]
  cases hlater : starts.filter fun e => d < e with
  | nil =>
    have hle : ∀ e ∈ starts, e ≤ d := by
      intro e he
      by_contra hlt
      have : e ∈ starts.filter fun e => d < e := List.mem_filter.2 ⟨he, by simpa using hlt⟩
      rw [hlater] at this
      exact absurd this List.not_mem_nil
    -- `d` is then the greatest definition line
    have hlast : starts.getLastD 0 = d := by
      have hne : starts ≠ [] := List.ne_nil_of_mem hd
      rw [List.getLastD_eq_getLast?, List.getLast?_eq_some_getLast hne, Option.getD_some]
      apply Nat.le_antisymm
      · exact hle _ (List.getLast_mem hne)
      · exact hs.rel_getLast hd
    rw [List.headD_nil, hlast]
    constructor
    · intro h
      exact ⟨h.1, fun e he hlt => absurd (hle e he) (by omega), .inl (by omega)⟩
    · rintro ⟨h, -, rfl | ⟨e, he, hlt⟩⟩
      · omega
      · exact absurd (hle e he) (by omega)
  | cons e es =>
    have hmem : ∀ x, x ∈ e :: es ↔ x ∈ starts ∧ d < x := by
      intro x
      rw [← hlater, List.mem_filter, decide_eq_true_iff]
    have he := (hmem e).1 List.mem_cons_self
    -- the list is sorted, so `e` is the next definition line
    have hnext : ∀ x ∈ starts, d < x → e ≤ x := by
      intro x hx hlt
      have hsorted : (e :: es).Pairwise (· ≤ ·) := hlater ▸ hs.filter _
      obtain rfl | hx := List.mem_cons.1 ((hmem x).2 ⟨hx, hlt⟩)
      · exact le_refl _
      · exact List.rel_of_pairwise_cons hsorted hx
    rw [List.headD_cons]
    constructor
    · intro h
      exact ⟨h.1, fun x hx hlt => Nat.lt_of_lt_of_le h.2 (hnext x hx hlt), .inr ⟨e, he⟩⟩
    · intro h
      exact ⟨h.1, h.2.1 e he.1 he.2⟩

/-- What `nearby_lines` returns, whatever the caches hold. -/
theorem nearbyLines_run (c : Caches tree) :
    ((nearbyLines path name).run c).1 =
      ((defIndexOf tree path).get name).foldl
        (fun rows d => rows ∪ bodyLines (startsOf (defIndexOf tree path)) d)
        ((occurrencesOf tree path).get name).toFinset := by
  have hrun : ((nearbyLines path name).run c).1 =
      (((c.DEF_INDEX.get path).2.get path).1.get name).foldl
        (fun rows d => rows ∪ bodyLines (startsOf (c.DEF_INDEX.get path).1) d)
        ((c.OCCURRENCES.get path).1.get name).toFinset := rfl
  rw [hrun, Memo.get_fst, Memo.get_fst, Memo.get_fst]

theorem mem_foldl_union {f : Nat → Finset Nat} (ds : List Nat) (rows : Finset Nat) :
    n ∈ ds.foldl (fun rows d => rows ∪ f d) rows ↔ n ∈ rows ∨ ∃ d ∈ ds, n ∈ f d := by
  induction ds generalizing rows with
  | nil => simp
  | cons d ds ih =>
    rw [List.foldl_cons, ih, Finset.mem_union]
    simp only [List.mem_cons, exists_eq_or_imp]
    tauto

/-- Line `n` is in the set that `nearby_lines` returns. -/
structure IsNear (c : Caches tree) (path : Path) (name : Name) (n : Nat) : Prop where
  mem : n ∈ ((nearbyLines path name).run c).1

theorem isNear_iff_mem {c : Caches tree} : IsNear c path name n ↔ n ∈ ((nearbyLines path name).run c).1 :=
  ⟨IsNear.mem, IsNear.mk⟩

instance decidableIsNear (c : Caches tree) (path : Path) (name : Name) (n : Nat) : Decidable (IsNear c path name n) :=
  decidable_of_iff' _ isNear_iff_mem

theorem isNear_iff {c : Caches tree} :
    IsNear c path name n ↔
      n ∈ (occurrencesOf tree path).get name ∨
        ∃ d ∈ (defIndexOf tree path).get name, d ≤ n ∧ (∀ e, IsStart tree path e → d < e → n < e) ∧
          (n = d ∨ ∃ e, IsStart tree path e ∧ d < e) := by
  rw [isNear_iff_mem, nearbyLines_run, mem_foldl_union, List.mem_toFinset]
  apply or_congr_right
  apply exists_congr
  intro d
  apply and_congr_right
  intro hd
  rw [mem_bodyLines (sorted_startsOf _) (mem_startsOf.2 ⟨name, hd⟩)]
  simp only [mem_startsOf]

/-! ### The nearest line -/

/-- The best candidate so far is at distance 0. -/
def AtZero (best : Option (Nat × Ref × Nat)) : Prop := ∃ b, best = some (0, b)

theorem AtZero.closer {best : Option (Nat × Ref × Nat)} (h : AtZero best) (order : SetOrder) (rows : Finset Nat)
    (r : Ref) : AtZero (closer order rows best r) := by
  obtain ⟨b, rfl⟩ := h
  unfold CheckRefs.closer
  split
  · exact ⟨b, rfl⟩
  · exact ⟨b, if_neg (Nat.not_lt_zero _)⟩

/-- A citation of one of the lines is at distance 0. -/
theorem atZero_closer {rows : Finset Nat} {r : Ref} (hn : n ∈ rows) (hstart : r.start ≤ n) (hstop : n ≤ r.stop)
    (order : SetOrder) (best : Option (Nat × Ref × Nat)) : AtZero (closer order rows best r) := by
  have hmem : n ∈ order.list rows := (order.mem_list rows n).2 hn
  have hzero : r.distance n = 0 := by
    unfold Ref.distance
    omega
  unfold closer
  split
  · rename_i hnone
    rw [List.argmin_eq_none] at hnone
    rw [hnone] at hmem
    exact absurd hmem List.not_mem_nil
  · rename_i m hm
    have hm0 : r.distance m = 0 := by
      have hle := List.le_of_mem_argmin hmem hm
      omega
    rw [hm0]
    split
    · exact ⟨_, rfl⟩
    · rename_i d b
      by_cases hd : 0 < d
      · exact ⟨_, if_pos hd⟩
      · obtain rfl : d = 0 := by omega
        exact ⟨_, if_neg hd⟩

theorem nearestStep_run (order : SetOrder) (best : Option (Nat × Ref × Nat)) (r : Ref) (c : Caches tree) :
    ((nearestStep order name best r).run c).1 = closer order ((nearbyLines r.path name).run c).1 best r := rfl

/-- A candidate at distance 0 is not replaced in the rest of the loop. -/
theorem AtZero.foldlM {best : Option (Nat × Ref × Nat)} (h : AtZero best) (order : SetOrder) (refs : List Ref)
    (c : Caches tree) : AtZero ((refs.foldlM (nearestStep order name) best).run c).1 := by
  induction refs generalizing best c with
  | nil => exact h
  | cons r refs ih =>
    rw [List.foldlM_cons, StateT.run_bind]
    apply ih
    rw [nearestStep_run]
    exact h.closer order _ r

theorem atZero_foldlM {r : Ref} {refs : List Ref} (hr : r ∈ refs)
    (hn : ∀ c : Caches tree, IsNear c r.path name n) (hstart : r.start ≤ n) (hstop : n ≤ r.stop)
    (order : SetOrder) (best : Option (Nat × Ref × Nat)) (c : Caches tree) :
    AtZero ((refs.foldlM (nearestStep order name) best).run c).1 := by
  induction refs generalizing best c with
  | nil => exact absurd hr List.not_mem_nil
  | cons r' refs ih =>
    rw [List.foldlM_cons, StateT.run_bind]
    obtain rfl | hr := List.mem_cons.1 hr
    · apply AtZero.foldlM
      rw [nearestStep_run]
      exact atZero_closer (hn c).mem hstart hstop order best
    · exact ih hr _ _

/-! ### The law -/

/-- Line `n` belongs to the definition of `name` at line `d`: no other definition comes between, and the file is not
at its end. -/
structure InTerritory (tree : Tree) (path : Path) (name : Name) (d n : Nat) : Prop where
  recorded : d ∈ (defIndexOf tree path).get name
  le : d ≤ n
  before_next : ∀ e, IsStart tree path e → d < e → n < e
  in_file : n ≤ (splitlines (tree path)).length

/-- The name is one of the words of a line, or the name that the line defines. -/
def Mentions (tree : Tree) (path : Path) (name : Name) (n : Nat) : Prop :=
  n ∈ (occurrencesOf tree path).get name ∨ n ∈ (defIndexOf tree path).get name

/-- Every function has its territory, whatever the caches hold, a citation of a line of it is at distance 0, and a line
before a definition is only there for its own sake or for another definition of the name. -/
structure TerritoryLaw (tree : Tree) (path : Path) : Prop where
  covered : ∀ (c : Caches tree) (name : Name) (d n : Nat), InTerritory tree path name d n →
    IsNear c path name n
  cited : ∀ (c : Caches tree) (order : SetOrder) (refs : List Ref) (r : Ref) (name : Name) (d n : Nat),
    InTerritory tree path name d n → r ∈ refs → r.path = path → r.start ≤ n → n ≤ r.stop →
      AtZero ((nearestIdent order refs name).run c).1
  before : ∀ (c : Caches tree) (name : Name) (d n : Nat), d ∈ (defIndexOf tree path).get name →
    IsNear c path name n → n < d →
      Mentions tree path name n ∨ ∃ d', d' ∈ (defIndexOf tree path).get name ∧ d' < n

/-- A line is near a name for its own sake or for a definition before it. -/
theorem mentions_or_after {c : Caches tree} (hn : IsNear c path name n) :
    Mentions tree path name n ∨ ∃ d', d' ∈ (defIndexOf tree path).get name ∧ d' < n := by
  rw [isNear_iff] at hn
  obtain hocc | ⟨d, hd, hle, -, -⟩ := hn
  · exact .inl (.inl hocc)
  · obtain rfl | hlt := Nat.eq_or_lt_of_le hle
    · exact .inl (.inr hd)
    · exact .inr ⟨d, hd, hlt⟩

/-! ### The last definition -/

/-- Every line after the last definition has the name of this definition among its words. -/
def TailMentions (asm : Bool) (lines : List (List Char)) : Prop :=
  ∀ before line after name, lines = before ++ line :: after → lineDef asm line = some name →
    (∀ l ∈ after, lineDef asm l = none) → ∀ l ∈ after, name ∈ words l

/-- The condition in terms of the indexes. -/
theorem tailMentions_iff :
    TailMentions (isAsm path) (splitlines (tree path)) ↔
      ∀ name d, d ∈ (defIndexOf tree path).get name → (∀ e, IsStart tree path e → e ≤ d) →
        ∀ n, d < n → n ≤ (splitlines (tree path)).length → n ∈ (occurrencesOf tree path).get name := by
  constructor
  · intro h name d hd hlast n hlt hn
    obtain ⟨line, hline, hdef⟩ := mem_get_defIndexOf.1 hd
    obtain ⟨hd1, hget⟩ := mem_numbered.1 hline
    obtain ⟨hd', rfl⟩ := List.getElem?_eq_some_iff.1 hget
    have hsplit := List.take_append_drop (d - 1) (splitlines (tree path))
    rw [List.drop_eq_getElem_cons hd', Nat.sub_add_cancel hd1] at hsplit
    -- no later line starts a definition, since `d` is the last start
    have hafter : ∀ l ∈ (splitlines (tree path)).drop d, lineDef (isAsm path) l = none := by
      intro l hl
      obtain ⟨i, hi⟩ := List.mem_iff_getElem?.1 hl
      rw [List.getElem?_drop] at hi
      cases hw : lineDef (isAsm path) l with
      | none => rfl
      | some w =>
        have hstart : d + i + 1 ∈ (defIndexOf tree path).get w :=
          mem_get_defIndexOf.2 ⟨l, mem_numbered.2 ⟨by omega, hi⟩, hw⟩
        have hle := hlast (d + i + 1) ⟨w, hstart⟩
        omega
    have hn' : n - 1 < (splitlines (tree path)).length := by omega
    have hget' := List.getElem?_eq_getElem hn'
    refine mem_get_occurrencesOf.2 ⟨_, mem_numbered.2 ⟨by omega, hget'⟩, ?_⟩
    apply h _ _ _ name hsplit.symm hdef hafter
    rw [List.mem_iff_getElem?]
    refine ⟨n - 1 - d, ?_⟩
    rw [List.getElem?_drop, ← hget']
    congr 1
    omega
  · intro h before line after name hsplit hdef hafter l hl
    -- from here on lines are counted behind the last definition
    have hget : ∀ i, (splitlines (tree path))[before.length + 1 + i]? = after[i]? := by
      intro i
      rw [hsplit, List.getElem?_append_right (by omega)]
      have hidx : before.length + 1 + i - before.length = i + 1 := by omega
      rw [hidx, List.getElem?_cons_succ]
    have hd : before.length + 1 ∈ (defIndexOf tree path).get name := by
      refine mem_get_defIndexOf.2 ⟨line, mem_numbered.2 ⟨by omega, ?_⟩, hdef⟩
      rw [hsplit]
      simp
    have hlast : ∀ e, IsStart tree path e → e ≤ before.length + 1 := by
      rintro e ⟨w, he⟩
      by_contra hlt
      obtain ⟨l', hl', hdef'⟩ := mem_get_defIndexOf.1 he
      have hget' := (mem_numbered.1 hl').2
      have hidx : e - 1 = before.length + 1 + (e - 1 - (before.length + 1)) := by omega
      rw [hidx, hget] at hget'
      rw [hafter l' (List.mem_of_getElem? hget')] at hdef'
      exact absurd hdef' nofun
    obtain ⟨i, hi⟩ := List.mem_iff_getElem?.1 hl
    have hi' := (List.getElem?_eq_some_iff.1 hi).1
    have hocc := h name _ hd hlast (before.length + 1 + i + 1) (by omega) (by
      rw [hsplit, List.length_append, List.length_cons]
      omega)
    obtain ⟨l', hl', hword⟩ := mem_get_occurrencesOf.1 hocc
    have hget' := (mem_numbered.1 hl').2
    rw [Nat.add_sub_cancel, hget, hi] at hget'
    obtain rfl := Option.some.inj hget'
    exact hword

theorem territory_iff (tree : Tree) (path : Path) :
    TerritoryLaw tree path ↔ TailMentions (isAsm path) (splitlines (tree path)) := by
  rw [tailMentions_iff]
  constructor
  · intro h name d hd hlast n hlt hn
    have hterr : InTerritory tree path name d n :=
      ⟨hd, Nat.le_of_lt hlt, fun e he hde => absurd (hlast e he) (by omega), hn⟩
    have hnear := h.covered (Caches.empty tree) name d n hterr
    rw [isNear_iff] at hnear
    obtain hocc | ⟨d', hd', hle, hnext, hend⟩ := hnear
    · exact hocc
    · -- `d` is the last definition, so `n` can only be in the lines of `d` itself, which end at `d`
      have hd'd : d' ≤ d := hlast d' ⟨name, hd'⟩
      obtain hend | ⟨e, he, hlt'⟩ := hend
      · omega
      · have hne := hnext e he hlt'
        have hed := hlast e he
        omega
  · intro h
    have hcovered : ∀ (c : Caches tree) (name : Name) (d n : Nat), InTerritory tree path name d n →
        IsNear c path name n := by
      intro c name d n hterr
      rw [isNear_iff]
      by_cases hnext : n = d ∨ ∃ e, IsStart tree path e ∧ d < e
      · exact .inr ⟨d, hterr.recorded, hterr.le, hterr.before_next, hnext⟩
      · left
        apply h name d hterr.recorded
        · intro e he
          by_contra hlt
          exact hnext (.inr ⟨e, he, by omega⟩)
        · have hle := hterr.le
          omega
        · exact hterr.in_file
    refine ⟨hcovered, ?_, fun c name d n _ hn _ => mentions_or_after hn⟩
    rintro c order refs r name d n hterr hr rfl hstart hstop
    exact atZero_foldlM hr (fun c => hcovered c name d n hterr) hstart hstop order none c

/-- A tree of files that all hold one function of three lines. -/
def oneFunction : Tree := fun _ => "int fn(void)\n\x7b\n\x7d\n".toList

/-- The lines of the function are 1 to 3, and only line 1 counts. -/
theorem not_territoryLaw : ¬ ∀ tree path, TerritoryLaw tree path := by
  intro h
  have hterr : InTerritory oneFunction "f.c".toList "fn".toList 1 2 := by
    refine ⟨by decide +kernel, by omega, ?_, by decide +kernel⟩
    intro e he hlt
    have hstarts : startsOf (defIndexOf oneFunction "f.c".toList) = [1] := by decide +kernel
    rw [← mem_startsOf, hstarts, List.mem_singleton] at he
    omega
  have hfar : ¬ IsNear (Caches.empty oneFunction) "f.c".toList "fn".toList 2 := by decide +kernel
  have hnear := (h oneFunction "f.c".toList).covered (Caches.empty oneFunction) "fn".toList 1 2 hterr
  exact hfar hnear

end MiniVirt.CheckRefs
