import Mathlib.Data.List.Infix

/-!
# Backtracking regular expressions

A pattern runs through the ways it can match in the order in which a backtracking matcher tries them.
-/

namespace MiniVirt

/-- A pattern; `γ` names its groups. -/
inductive Regex (γ : Type) where
  | empty
  | char (p : Char → Bool)
  | seq (r t : Regex γ)
  | alt (r t : Regex γ)
  | star (r : Regex γ)
  | group (name : γ) (r : Regex γ)

/-- What one way of matching has captured, the latest capture first, and the text it has left. -/
structure Match (γ : Type) where
  captured : List (γ × List Char)
  rest : List Char
  deriving DecidableEq

/-- All the ways to match at the beginning of a text, the preferred one first. -/
abbrev Matcher (γ : Type) := List Char → List (Match γ)

namespace Regex

variable {γ : Type}

/-- `m` and then `m'` on what it leaves. -/
def andThen (m m' : Matcher γ) : Matcher γ := fun s =>
  (m s).flatMap fun x => (m' x.rest).map fun y => ⟨y.captured ++ x.captured, y.rest⟩

/-- `m` as often as it goes on matching, and then less often.  A repetition that matches nothing is not tried. -/
def repeatedly (m : Matcher γ) : Nat → Matcher γ
  | 0 => fun s => [⟨[], s⟩]
  | fuel + 1 => fun s =>
    andThen (fun s => (m s).filter fun x => x.rest.length < s.length) (repeatedly m fuel) s ++ [⟨[], s⟩]

/-- The ways in which a pattern matches at the beginning of a text. -/
def run : Regex γ → Matcher γ
  | empty => fun s => [⟨[], s⟩]
  | char p => fun s =>
    match s with
    | [] => []
    | c :: s => if p c then [⟨[], s⟩] else []
  | seq r t => andThen r.run t.run
  | alt r t => fun s => r.run s ++ t.run s
  | star r => fun s => repeatedly r.run s.length s
  | group name r => fun s =>
    (r.run s).map fun x => ⟨(name, s.take (s.length - x.rest.length)) :: x.captured, x.rest⟩

/-! ### Derived patterns -/

def lit (c : Char) : Regex γ := char fun x => x = c

/-- The patterns of a list, one after the other. -/
def seqs (rs : List (Regex γ)) : Regex γ := rs.foldr seq empty

def text (s : String) : Regex γ := seqs (s.toList.map lit)

/-- One of the patterns of a list. -/
def alts (r : Regex γ) (rs : List (Regex γ)) : Regex γ := rs.foldl alt r

def plus (r : Regex γ) : Regex γ := seq r (star r)

/-- At most `n` times. -/
def upTo (r : Regex γ) : Nat → Regex γ
  | 0 => empty
  | n + 1 => alt (seq r (upTo r n)) empty

/-! ### Searching -/

/-- The match at the beginning of a text. -/
def matchStart (r : Regex γ) (s : List Char) : Option (Match γ) := (r.run s).head?

/-- The texts of the successive matches of a pattern that matches no empty text.  `skip` characters belong to the
match before. -/
def findallFrom (r : Regex γ) : Nat → List Char → List (List Char)
  | _, [] => []
  | skip + 1, _ :: s => findallFrom r skip s
  | 0, c :: s =>
    match r.matchStart (c :: s) with
    | none => findallFrom r 0 s
    | some x => (c :: s).take (s.length + 1 - x.rest.length) :: findallFrom r (s.length - x.rest.length) s

def findall (r : Regex γ) (s : List Char) : List (List Char) := r.findallFrom 0 s

end Regex

/-- The text that the group `name` has captured. -/
def Match.group? {γ : Type} [DecidableEq γ] (x : Match γ) (name : γ) : Option (List Char) :=
  (x.captured.find? fun e => e.1 = name).map Prod.snd

end MiniVirt
