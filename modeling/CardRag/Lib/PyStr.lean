import Mathlib

/-! # Python text

A Python `str` is a sequence of code points, indexed and sliced by code point: `Str` is a list of
characters. The operations are those of `str` on such sequences. Case folding and the decimal
digits follow the Unicode database the interpreter is built with, so they are a parameter
(`Unicode`); white space and the line boundaries of `splitlines` are fixed sets. -/

namespace CardRag

/-- A Python `str`. -/
abbrev Str := List Char

-- the one instance by which membership of texts, paths and pairs is decided in every module
instance : LawfulBEq Str := inferInstance

instance : LawfulBEq (List Str) := inferInstance

instance : LawfulBEq (Str × Str) := inferInstance

/-- The parts of the interpreter's Unicode database that vary between its versions: full case
folding, character by character, and the class `\d` (category `Nd`). -/
structure Unicode where
  casefoldChar : Char → Str
  isDecimal : Char → Bool

namespace PyStr

/-- `str.isspace` of one character, which is also the class `\s`. -/
def isSpace (c : Char) : Bool :=
  let n := c.toNat
  (9 ≤ n && n ≤ 13) || (0x1c ≤ n && n ≤ 0x20) || n == 0x85 || n == 0xa0 || n == 0x1680 ||
    (0x2000 ≤ n && n ≤ 0x200a) || n == 0x2028 || n == 0x2029 || n == 0x202f || n == 0x205f ||
    n == 0x3000

/-- The line boundaries of `str.splitlines`. -/
def isLineBreak (c : Char) : Bool :=
  let n := c.toNat
  (10 ≤ n && n ≤ 13) || (0x1c ≤ n && n ≤ 0x1e) || n == 0x85 || n == 0x2028 || n == 0x2029

/-- Category `Cc`. -/
def isControl (c : Char) : Bool :=
  let n := c.toNat
  n ≤ 0x1f || (0x7f ≤ n && n ≤ 0x9f)

theorem isSpace_of_isLineBreak {c : Char} (h : isLineBreak c = true) : isSpace c = true := by
  simp only [isLineBreak, isSpace, Bool.or_eq_true, Bool.and_eq_true, decide_eq_true_eq,
    beq_iff_eq] at h ⊢
  omega

/-- `s[a:b]` for `0 ≤ a`. -/
def slice (s : Str) (a b : Nat) : Str := (s.drop a).take (b - a)

/-- `s.rstrip(chars)`. -/
def rstripBy (p : Char → Bool) (s : Str) : Str := s.rdropWhile p

/-- `s.strip(chars)`. -/
def stripBy (p : Char → Bool) (s : Str) : Str := rstripBy p (s.dropWhile p)

def strip (s : Str) : Str := stripBy isSpace s

/-- `s.split(sep)` for a one-character separator. -/
def split (sep : Char) (s : Str) : List Str := s.splitOnP (· == sep)

/-- `s.split()`. -/
def words (s : Str) : List Str := (s.splitOnP isSpace).filter (· ≠ [])

/-- `sub in s`. -/
def contains (sub s : Str) : Bool := s.tails.any (sub.isPrefixOf ·)

/-- `s.splitlines(keepends=True)`; `\r\n` is one boundary. -/
def splitlines : Str → List Str
  | [] => []
  | '\r' :: '\n' :: cs => ['\r', '\n'] :: splitlines cs
  | c :: cs =>
    if isLineBreak c then [c] :: splitlines cs
    else match splitlines cs with
      | [] => [[c]]
      | l :: ls => (c :: l) :: ls

theorem splitlines_flatten (s : Str) : (splitlines s).flatten = s := by
  fun_induction splitlines s with
  | case1 => rfl
  | case2 cs ih => simp [ih]
  | case3 c cs _ _ ih => simp [ih]
  | case4 c cs _ _ h ih => rw [h] at ih; simp_all
  | case5 c cs _ _ l ls h ih => rw [h] at ih; simp_all

theorem ne_nil_of_mem_splitlines {s l : Str} (h : l ∈ splitlines s) : l ≠ [] := by
  fun_induction splitlines s with
  | case1 => simp at h
  | case2 cs ih =>
    rcases List.mem_cons.1 h with rfl | h
    · simp
    · exact ih h
  | case3 c cs _ _ ih =>
    rcases List.mem_cons.1 h with rfl | h
    · simp
    · exact ih h
  | case4 c cs _ _ hs ih => simp at h; simp [h]
  | case5 c cs _ _ l' ls hs ih =>
    rcases List.mem_cons.1 h with rfl | h
    · simp
    · exact ih (by rw [hs]; exact List.mem_cons_of_mem _ h)

theorem split_ne_nil (sep : Char) (s : Str) : split sep s ≠ [] := List.splitOnP_ne_nil _ _

theorem slice_append_left (a b : Str) : slice (a ++ b) 0 a.length = a := by simp [slice]

theorem slice_shift (a s : Str) (i j : Nat) : slice (a ++ s) (a.length + i) (a.length + j) = slice s i j := by
  have ha : a.drop (a.length + i) = [] := List.drop_eq_nil_of_le (by omega)
  simp [slice, List.drop_append, Nat.add_sub_add_left, ha]

theorem length_slice {s : Str} {a b : Nat} (h : b ≤ s.length) : (slice s a b).length = b - a := by
  simp [slice]; omega

theorem mem_slice {s : Str} {a b i : Nat} {c : Char} (ha : a ≤ i) (hb : i < b) (hc : s[i]? = some c) :
    c ∈ slice s a b := by
  refine List.mem_of_getElem? (i := i - a) ?_
  have hi : a + (i - a) = i := by omega
  rw [slice, List.getElem?_take_of_lt (by omega), List.getElem?_drop, hi, hc]

theorem slice_self (s : Str) : slice s 0 s.length = s := by simp [slice]

/-- A line whose stripped text is empty holds white space only. -/
theorem all_isSpace_of_strip_eq_nil {s : Str} (h : strip s = []) : ∀ c ∈ s, isSpace c = true := by
  have h1 : ∀ c ∈ s.dropWhile isSpace, isSpace c = true := by
    rw [strip, stripBy, rstripBy, List.rdropWhile_eq_nil_iff] at h
    exact h
  have h2 : s.dropWhile isSpace = [] := by
    cases hd : s.dropWhile isSpace with
    | nil => rfl
    | cons c cs =>
      have hc := h1 c (by simp [hd])
      have := List.head_dropWhile_not isSpace (l := s) (by simp [hd])
      simp [hd, hc] at this
  exact List.dropWhile_eq_nil_iff.1 h2

theorem strip_eq_nil {s : Str} (h : ∀ c ∈ s, isSpace c = true) : strip s = [] := by
  rw [strip, stripBy, List.dropWhile_eq_nil_iff.2 h]
  rfl

end PyStr

def Unicode.casefold (U : Unicode) (s : Str) : Str := s.flatMap U.casefoldChar

/-- The database on ASCII text, where it is the same in every version. -/
def Unicode.ascii : Unicode := ⟨fun c => [c.toLower], Char.isDigit⟩

end CardRag
