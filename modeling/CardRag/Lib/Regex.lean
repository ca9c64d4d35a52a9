import CardRag.Lib.PyStr

/-! # Regular expressions

The patterns of the source are regular: character classes, sequence, alternation and repetition.
Matching is by derivatives, so it is a structural recursion on the text. `fullmatch` and `«match»`
are Python's `re.fullmatch` and `re.match` read as yes/no questions; greedy and lazy quantifiers
accept the same texts. -/

namespace CardRag

inductive Regex where
  | never
  | eps
  | cls (p : Char → Bool)
  | seq (a b : Regex)
  | alt (a b : Regex)
  | star (a : Regex)

namespace Regex

def nullable : Regex → Bool
  | never => false
  | eps => true
  | cls _ => false
  | seq a b => nullable a && nullable b
  | alt a b => nullable a || nullable b
  | star _ => true

/-- Sequence and alternation that drop dead branches, so that derivatives stay small. -/
def mkSeq : Regex → Regex → Regex
  | never, _ => never
  | eps, b => b
  | a, b => seq a b

def mkAlt : Regex → Regex → Regex
  | never, b => b
  | a, never => a
  | a, b => alt a b

def deriv (c : Char) : Regex → Regex
  | never => never
  | eps => never
  | cls p => if p c then eps else never
  | seq a b =>
    if nullable a then mkAlt (mkSeq (deriv c a) b) (deriv c b) else mkSeq (deriv c a) b
  | alt a b => mkAlt (deriv c a) (deriv c b)
  | star a => mkSeq (deriv c a) (star a)

/-- `re.fullmatch(r, s) is not None`. -/
def fullmatch : Regex → Str → Bool
  | r, [] => nullable r
  | r, c :: cs => fullmatch (deriv c r) cs

/-- `re.match(r, s) is not None`: some beginning of `s` matches. -/
def prefixMatch : Regex → Str → Bool
  | r, [] => nullable r
  | r, c :: cs => nullable r || prefixMatch (deriv c r) cs

def lit (s : Str) : Regex := s.foldr (fun c r => seq (cls (· == c)) r) eps

def plus (r : Regex) : Regex := seq r (star r)

def opt (r : Regex) : Regex := alt r eps

/-- `r{n}`. -/
def times (r : Regex) : Nat → Regex
  | 0 => eps
  | n + 1 => seq r (times r n)

/-- `r{m,m+k}`. -/
def between (r : Regex) (m k : Nat) : Regex := seq (times r m) (times (opt r) k)

/-- `r{n,}`. -/
def atLeast (r : Regex) (n : Nat) : Regex := seq (times r n) (star r)

def oneOf (s : String) : Regex := cls (s.toList.contains ·)

def space : Regex := cls PyStr.isSpace

def nonSpace : Regex := cls (fun c => !PyStr.isSpace c)

end Regex

end CardRag
