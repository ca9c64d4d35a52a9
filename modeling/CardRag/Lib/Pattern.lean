import CardRag.Lib.PyStr

/-! # Backtracking patterns

The part of Python's `re` where it matters which match is found: groups, look-around and the order
in which a backtracking engine tries its choices. Repetition is of a character class only, greedy,
so a pattern is tried by recursion on the pattern and `run` lists every way it can match, the one the
engine takes in front. -/

namespace CardRag

inductive Pattern where
  | eps
  /-- `[p]{lo,hi}`, or `[p]{lo,}` without an upper bound. -/
  | many (p : Char → Bool) (lo : Nat) (hi : Option Nat)
  | seq (a b : Pattern)
  | alt (a b : Pattern)
  /-- `(?P<name>a)` -/
  | group (name : Str) (a : Pattern)
  /-- `(?!a)` -/
  | notAhead (a : Pattern)
  /-- `(?<![p])` -/
  | notBehind (p : Char → Bool)
  /-- `^` and `$` -/
  | atStart
  | atEnd

namespace Pattern

abbrev Groups := List (Str × Str)

structure Match where
  start : Nat
  stop : Nat
  groups : Groups
deriving DecidableEq, Repr

/-- `match.group(name)` of a group that took part. -/
def Match.group (m : Match) (name : Str) : Str := (m.groups.lookup name).getD []

def one (p : Char → Bool) : Pattern := many p 1 (some 1)

def opt (a : Pattern) : Pattern := alt a eps

def lit (s : String) : Pattern := s.toList.foldr (fun c a => seq (one (· == c)) a) eps

def ws : Pattern := many PyStr.isSpace 0 none

/-- The end and the groups of every match that starts at `pos`. -/
def run (text : Str) : Pattern → Nat → List (Nat × Groups)
  | eps, pos => [(pos, [])]
  | many p lo hi, pos =>
    let available := ((text.drop pos).takeWhile p).length
    let most := match hi with
      | none => available
      | some hi => min available hi
    -- greedy: the longest repetition is tried first
    ((List.range (most + 1)).reverse.filter (lo ≤ ·)).map fun n => (pos + n, [])
  | seq a b, pos => (run text a pos).flatMap fun m => (run text b m.1).map fun n => (n.1, m.2 ++ n.2)
  | alt a b, pos => run text a pos ++ run text b pos
  | group name a, pos => (run text a pos).map fun m => (m.1, (name, PyStr.slice text pos m.1) :: m.2)
  | notAhead a, pos => if (run text a pos).isEmpty then [(pos, [])] else []
  | notBehind p, pos => if 0 < pos ∧ (text[pos - 1]?).any p then [] else [(pos, [])]
  | atStart, pos => if pos = 0 then [(pos, [])] else []
  -- without `re.MULTILINE`, `$` also stands before a final line feed
  | atEnd, pos =>
    if pos = text.length ∨ (pos + 1 = text.length ∧ text[pos]? = some '\n') then [(pos, [])] else []

/-- The first match that starts at one of the `n` positions from `pos` on. -/
def searchFrom (a : Pattern) (text : Str) : Nat → Nat → Option Match
  | 0, _ => none
  | n + 1, pos =>
    match (run text a pos).head? with
    | some (stop, groups) => some ⟨pos, stop, groups⟩
    | none => searchFrom a text n (pos + 1)

def search (a : Pattern) (text : Str) : Option Match := searchFrom a text (text.length + 1) 0

/-- At most `n` matches from `pos` on. -/
def finditerFrom (a : Pattern) (text : Str) : Nat → Nat → List Match
  | 0, _ => []
  | n + 1, pos =>
    match searchFrom a text (text.length + 1 - pos) pos with
    | none => []
    | some m => m :: finditerFrom a text n (if m.stop = m.start then m.stop + 1 else m.stop)

/-- `a.finditer(text)`; no pattern the program iterates over matches the empty text. -/
def finditer (a : Pattern) (text : Str) : List Match := finditerFrom a text (text.length + 1) 0

example : (lit "ab").finditer "abcab".toList = [⟨0, 2, []⟩, ⟨3, 5, []⟩] := by decide

end Pattern

end CardRag
