import MiniVirt.Lib.Memo
import MiniVirt.Lib.Regex
import Mathlib.Data.Finset.Basic
import Mathlib.Data.List.Dedup
import Mathlib.Data.List.MinMax
import Mathlib.Data.List.Sort
import Mathlib.Order.Interval.Finset.Nat

/-!
# check-refs.py: the lines near a function

`def_index` and `occurrences` read a source file line by line, and `nearby_lines` puts together from them the lines
that count as belonging to a name.  A cited line range is checked against these lines by `nearest_ident`.
-/

namespace MiniVirt.CheckRefs

abbrev Path := List Char

abbrev Name := List Char

/-- What `open(path, errors="replace").read()` returns for each path. -/
abbrev Tree := Path → List Char

/-! ### Lines -/

def isLineEnd (c : Char) : Bool :=
  c ∈ ['\n', '\r', '\x0b', '\x0c', '\x1c', '\x1d', '\x1e', '\u0085', '\u2028', '\u2029']

/-- `str.splitlines`. -/
def splitlines : List Char → List (List Char)
  | [] => []
  | '\r' :: '\n' :: s => [] :: splitlines s
  | c :: s =>
    if isLineEnd c then [] :: splitlines s
    else ((c :: (splitlines s).headD []) :: (splitlines s).tail)

/-! ### Patterns -/

inductive Group where
  | name
  | name2
  deriving DecidableEq

open Regex

/-- `[A-Za-z_]` -/
def letter : Regex Group := char fun c => c.isAlpha || c = '_'

/-- `[A-Za-z0-9_]` -/
def wordChar : Regex Group := char fun c => c.isAlphanum || c = '_'

/-- `[ \t]` -/
def blank : Regex Group := char fun c => c = ' ' || c = '\t'

/-- `\s`, the characters for which `str.isspace` holds. -/
def space : Regex Group := char fun c =>
  (9 ≤ c.toNat ∧ c.toNat ≤ 13) ∨ (28 ≤ c.toNat ∧ c.toNat ≤ 32) ∨ (0x2000 ≤ c.toNat ∧ c.toNat ≤ 0x200a) ∨
    c.toNat ∈ [0x85, 0xa0, 0x1680, 0x2028, 0x2029, 0x202f, 0x205f, 0x3000]

/-- `[A-Za-z_][A-Za-z0-9_]*` -/
def ident : Regex Group := seq letter (star wordChar)

/-- `FN_DEF`; the pattern is only tried at the beginning of a line, where `^` matches. -/
def FN_DEF : Regex Group :=
  alt
    (seqs [plus (seq ident (plus blank)), upTo (lit '*') 3, star blank, group .name ident, star blank, lit '('])
    (seqs [star blank, lit '#', star blank, text "define", plus blank, group .name2 ident, star blank, lit '('])

/-- `ASM_DEF` -/
def ASM_DEF : Regex Group :=
  seqs [alts (text "SYM_FUNC_START") [text "SYM_FUNC_START_NO_ALIASES", text "SYM_CODE_START", text "SYM_ENTRY",
    text "ENTRY"], star space, lit '(', star space, group .name ident]

/-- `WORD` -/
def WORD : Regex Group := seq letter (plus wordChar)

/-! ### The index of a file -/

/-- `path.endswith(".S")` -/
def isAsm (path : Path) : Bool := ".S".toList.isSuffixOf path

/-- The name that `def_index` records for a line. -/
def lineDef (asm : Bool) (line : List Char) : Option Name :=
  match line with
  | [] => none
  | c :: _ =>
    if c ∈ " \t/*;,\x7b\x7d".toList then none
    else
      let m := if asm then ASM_DEF.matchStart line else FN_DEF.matchStart line
      let m := if m.isNone && !asm then ASM_DEF.matchStart line else m
      m.bind fun m => (m.group? .name).or (m.group? .name2)

/-- The lines of a file with their numbers. -/
def numbered (text : List Char) : List (List Char × Nat) := (splitlines text).zipIdx 1

/-- What `def_index` computes for a path that is not in `DEF_INDEX`. -/
def defIndexOf (tree : Tree) (path : Path) : ListTable Name Nat :=
  (numbered (tree path)).foldl (fun idx e =>
    match lineDef (isAsm path) e.1 with
    | none => idx
    | some name => idx.append name e.2) .empty

/-- `set(WORD.findall(line))` -/
def words (line : List Char) : List Name := (WORD.findall line).dedup

/-- What `occurrences` computes for a path that is not in `OCCURRENCES`. -/
def occurrencesOf (tree : Tree) (path : Path) : ListTable Name Nat :=
  (numbered (tree path)).foldl (fun idx e => (words e.1).foldl (fun idx w => idx.append w e.2) idx) .empty

/-! ### The caches -/

/-- `DEF_INDEX` and `OCCURRENCES`. -/
structure Caches (tree : Tree) where
  DEF_INDEX : Memo (defIndexOf tree)
  OCCURRENCES : Memo (occurrencesOf tree)

/-- The caches at the start of the program. -/
def Caches.empty (tree : Tree) : Caches tree := ⟨.empty _, .empty _⟩

variable {tree : Tree}

def defIndex (path : Path) : StateM (Caches tree) (ListTable Name Nat) := fun c =>
  let r := c.DEF_INDEX.get path
  (r.1, { c with DEF_INDEX := r.2 })

def occurrences (path : Path) : StateM (Caches tree) (ListTable Name Nat) := fun c =>
  let r := c.OCCURRENCES.get path
  (r.1, { c with OCCURRENCES := r.2 })

/-! ### The lines near a name -/

/-- `sorted` of the set of all definition lines. -/
def startsOf (idx : ListTable Name Nat) : List Nat := idx.items.dedup.insertionSort (· ≤ ·)

/-- The lines from the definition at `d` up to the next one. -/
def bodyLines (starts : List Nat) (d : Nat) : Finset Nat :=
  let later := starts.filter fun n => d < n
  Finset.Ico d (later.headD (starts.getLastD 0 + 1))

def nearbyLines (path : Path) (ident : Name) : StateM (Caches tree) (Finset Nat) := do
  let occ ← occurrences path
  let rows := (occ.get ident).toFinset
  let idx ← defIndex path
  let starts := startsOf idx
  let defs ← defIndex path
  return (defs.get ident).foldl (fun rows d => rows ∪ bodyLines starts d) rows

/-! ### The nearest line -/

/-- A citation that has been resolved to a file. -/
structure Ref where
  path : Path
  start : Nat
  stop : Nat
  deriving DecidableEq

/-- `max(r["start"] - n, n - r["end"], 0)` -/
def Ref.distance (r : Ref) (n : Nat) : Nat := max (r.start - n) (n - r.stop)

/-- The order in which the members of a set are met. -/
structure SetOrder where
  list : Finset Nat → List Nat
  mem_list : ∀ rows n, n ∈ list rows ↔ n ∈ rows

/-- The best of the candidates so far and the line of `rows` that is nearest to `r`. -/
def closer (order : SetOrder) (rows : Finset Nat) (best : Option (Nat × Ref × Nat)) (r : Ref) :
    Option (Nat × Ref × Nat) :=
  -- `min` takes the first of the lines at the least distance
  match (order.list rows).argmin r.distance with
  | none => best
  | some n =>
    match best with
    | none => some (r.distance n, r, n)
    | some (d, b) => if r.distance n < d then some (r.distance n, r, n) else some (d, b)

/-- One round of the loop over the citations. -/
def nearestStep (order : SetOrder) (ident : Name) (best : Option (Nat × Ref × Nat)) (r : Ref) :
    StateM (Caches tree) (Option (Nat × Ref × Nat)) := do
  let rows ← nearbyLines r.path ident
  return closer order rows best r

def nearestIdent (order : SetOrder) (refs : List Ref) (ident : Name) :
    StateM (Caches tree) (Option (Nat × Ref × Nat)) :=
  refs.foldlM (nearestStep order ident) none

end MiniVirt.CheckRefs
