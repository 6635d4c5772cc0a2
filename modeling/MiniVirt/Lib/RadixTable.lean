import Mathlib.Logic.Function.Basic
import Mathlib.Data.List.Infix

/-!
# Radix tables in a store of pages

A store `m : P → I → E` gives every page its entries, and `child` reads the page that an entry
refers to.  Pages are shared state: an update of one page is seen along every path that goes
through it.  `Separated` rules that out up to a depth, and with it three kinds of update act on
the paths alone:

* `walk_setEntry_off_path`: an entry that the path does not use does not change the walk,
* `Separated.walk_link`: linking a fresh empty page adds one path,
* `Separated.walk_leaf`: writing an entry of a page at full depth changes no walk.
-/

namespace MiniVirt.RadixTable

variable {P I E : Type} (child : E → Option P)

/-- The page reached from `a` along a path of indices. -/
def walk (m : P → I → E) : P → List I → Option P
  | a, [] => some a
  | a, i :: p => (child (m a i)).bind fun b => walk m b p

/-- The entry `i` of the page `a` becomes `v`. -/
def setEntry [DecidableEq P] [DecidableEq I] (m : P → I → E) (a : P) (i : I) (v : E) : P → I → E :=
  Function.update m a (Function.update (m a) i v)

/-- All entries of the page `a` become `v`. -/
def fillPage [DecidableEq P] (m : P → I → E) (a : P) (v : E) : P → I → E :=
  Function.update m a fun _ => v

/-- No page is reached from `root` along two different paths of length at most `d`. -/
def Separated (m : P → I → E) (root : P) (d : Nat) : Prop :=
  ∀ ⦃p q : List I⦄ ⦃a : P⦄, p.length ≤ d → q.length ≤ d →
    walk child m root p = some a → walk child m root q = some a → p = q

/-- The page `b` is reached from `root` along no path of length at most `d`. -/
def Unreached (m : P → I → E) (root : P) (d : Nat) (b : P) : Prop :=
  ∀ p : List I, p.length ≤ d → walk child m root p ≠ some b

variable {child} {m m' : P → I → E} {root a b : P} {i : I} {v z : E} {p q : List I} {d : Nat}

@[simp]
theorem walk_nil (m : P → I → E) (a : P) : walk child m a [] = some a := rfl

theorem walk_cons (m : P → I → E) (a : P) (i : I) (p : List I) :
    walk child m a (i :: p) = (child (m a i)).bind fun b => walk child m b p := rfl

theorem walk_append (m : P → I → E) (a : P) (p q : List I) :
    walk child m a (p ++ q) = (walk child m a p).bind fun b => walk child m b q := by
  induction p generalizing a with
  | nil => rfl
  | cons i p ih =>
    rw [List.cons_append, walk_cons, walk_cons, Option.bind_assoc]
    exact congrArg _ (funext fun b => ih b)

theorem walk_append_singleton (m : P → I → E) (a : P) (p : List I) (i : I) :
    walk child m a (p ++ [i]) = (walk child m a p).bind fun b => child (m b i) := by
  rw [walk_append]
  refine congrArg _ (funext fun b => ?_)
  rw [walk_cons]
  cases child (m b i) <;> rfl

/-- A walk only depends on the entries it reads. -/
theorem walk_congr (h : ∀ p₁ i p₂ b, q = p₁ ++ i :: p₂ → walk child m a p₁ = some b →
    m' b i = m b i) : walk child m' a q = walk child m a q := by
  induction q generalizing a with
  | nil => rfl
  | cons i q ih =>
    rw [walk_cons, walk_cons, h [] i q a rfl rfl]
    cases hc : child (m a i) with
    | none => rfl
    | some b =>
      refine ih fun p₁ j p₂ b' hq hb' => h (i :: p₁) j p₂ b' (by rw [hq, List.cons_append]) ?_
      rw [walk_cons, hc]
      exact hb'

section Update

variable [DecidableEq P]

@[simp]
theorem fillPage_self : fillPage m a v a i = v := by simp [fillPage]

theorem fillPage_of_ne (h : b ≠ a) : fillPage m a v b = m b := by
  rw [fillPage, Function.update_of_ne h]

variable [DecidableEq I]

@[simp]
theorem setEntry_self : setEntry m a i v a i = v := by simp [setEntry]

theorem setEntry_of_ne {j : I} (h : (b, j) ≠ (a, i)) : setEntry m a i v b j = m b j := by
  unfold setEntry
  by_cases hb : b = a
  · subst hb
    have hj : j ≠ i := fun hj => h (by rw [hj])
    rw [Function.update_self, Function.update_of_ne hj]
  · rw [Function.update_of_ne hb]

/-- Changing the entry `i` of the page at `p` changes no walk but those that use it. -/
theorem walk_setEntry_off_path (hs : Separated child m root d)
    (hp : walk child m root p = some a) (hpd : p.length ≤ d) (hqd : q.length ≤ d + 1)
    (hpq : ¬ p ++ [i] <+: q) : walk child (setEntry m a i v) root q = walk child m root q := by
  refine walk_congr fun p₁ j p₂ b hq hb => setEntry_of_ne fun hbj => hpq ?_
  obtain ⟨rfl, rfl⟩ := Prod.mk.inj hbj
  have hlen : p₁.length ≤ d := by
    rw [hq, List.length_append, List.length_cons] at hqd
    omega
  obtain rfl := hs hlen hpd hb hp
  exact ⟨p₂, by rw [hq, List.append_assoc]; rfl⟩

/-- Writing an entry of a page at full depth changes no walk. -/
theorem Separated.walk_leaf (hs : Separated child m root d) (hp : walk child m root p = some a)
    (hpd : p.length = d) (hqd : q.length ≤ d) :
    walk child (setEntry m a i v) root q = walk child m root q := by
  refine walk_setEntry_off_path hs hp hpd.le (by omega) fun h => ?_
  have := h.length_le
  rw [List.length_append, List.length_singleton] at this
  omega

omit [DecidableEq I] in
/-- Filling a page that is not reached changes no walk. -/
theorem Unreached.walk_fillPage (hb : Unreached child m root d b) (hqd : q.length ≤ d + 1) :
    walk child (fillPage m b v) root q = walk child m root q := by
  refine walk_congr fun p₁ j p₂ c hq hc => ?_
  rw [fillPage_of_ne]
  rintro rfl
  refine hb p₁ ?_ hc
  rw [hq, List.length_append, List.length_cons] at hqd
  omega

/-- Linking the empty page `b` at the entry `i` of the page at `p` adds the path `p ++ [i]` and
changes nothing else. -/
theorem Separated.walk_link (hs : Separated child m root d) (hb : Unreached child m root d b)
    (hz : child z = none) (hv : child v = some b) (hp : walk child m root p = some a)
    (hpd : p.length < d) (hi : child (m a i) = none) (hqd : q.length ≤ d) :
    walk child (setEntry (fillPage m b z) a i v) root q =
      if q = p ++ [i] then some b else walk child m root q := by
  have hab : a ≠ b := by
    rintro rfl
    exact hb p hpd.le hp
  have hfill : ∀ q : List I, q.length ≤ d + 1 →
      walk child (fillPage m b z) root q = walk child m root q := fun q hq => hb.walk_fillPage hq
  have hs' : Separated child (fillPage m b z) root d := by
    intro q₁ q₂ c h₁ h₂ hc₁ hc₂
    rw [hfill _ (by omega)] at hc₁ hc₂
    exact hs h₁ h₂ hc₁ hc₂
  have hp' : walk child (fillPage m b z) root p = some a := by rw [hfill _ (by omega), hp]
  by_cases hpq : p ++ [i] <+: q
  · obtain ⟨r, rfl⟩ := hpq
    -- the walk to `a` and the entry it goes through next
    have hpa : walk child (setEntry (fillPage m b z) a i v) root p = some a := by
      rw [walk_setEntry_off_path hs' hp' hpd.le (by omega), hp']
      intro h
      have := h.length_le
      rw [List.length_append, List.length_singleton] at this
      omega
    rw [List.append_assoc, List.singleton_append, walk_append, hpa, Option.bind_some, walk_cons,
      setEntry_self, hv, Option.bind_some]
    cases r with
    | nil => rw [if_pos rfl, walk_nil]
    | cons j r =>
      rw [if_neg (by simp), walk_cons, setEntry_of_ne (by simp [hab.symm]), fillPage_self, hz,
        walk_append, hp, Option.bind_some, walk_cons, hi]
      rfl
  · rw [walk_setEntry_off_path hs' hp' hpd.le (by omega) hpq, hfill _ (by omega), if_neg]
    rintro rfl
    exact hpq (List.prefix_refl _)

theorem Separated.link (hs : Separated child m root d) (hb : Unreached child m root d b)
    (hz : child z = none) (hv : child v = some b) (hp : walk child m root p = some a)
    (hpd : p.length < d) (hi : child (m a i) = none) :
    Separated child (setEntry (fillPage m b z) a i v) root d := by
  intro q₁ q₂ c h₁ h₂ hc₁ hc₂
  rw [hs.walk_link hb hz hv hp hpd hi h₁] at hc₁
  rw [hs.walk_link hb hz hv hp hpd hi h₂] at hc₂
  split at hc₁ <;> split at hc₂
  · rename_i e₁ e₂
    rw [e₁, e₂]
  · exact absurd (hc₁ ▸ hc₂) (hb q₂ h₂)
  · exact absurd (hc₂ ▸ hc₁) (hb q₁ h₁)
  · exact hs h₁ h₂ hc₁ hc₂

theorem Separated.leaf (hs : Separated child m root d) (hp : walk child m root p = some a)
    (hpd : p.length = d) : Separated child (setEntry m a i v) root d := by
  intro q₁ q₂ c h₁ h₂ hc₁ hc₂
  rw [hs.walk_leaf hp hpd h₁] at hc₁
  rw [hs.walk_leaf hp hpd h₂] at hc₂
  exact hs h₁ h₂ hc₁ hc₂

omit [DecidableEq I] in
/-- A root without entries. -/
theorem separated_fillPage (hz : child z = none) : Separated child (fillPage m root z) root d := by
  have h : ∀ p : List I, ∀ c, walk child (fillPage m root z) root p = some c → p = [] := by
    intro p c hc
    cases p with
    | nil => rfl
    | cons i p =>
      rw [walk_cons, fillPage_self, hz] at hc
      exact absurd hc (by simp)
  intro q₁ q₂ c _ _ hc₁ hc₂
  rw [h q₁ c hc₁, h q₂ c hc₂]

end Update

end MiniVirt.RadixTable
