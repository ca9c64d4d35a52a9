import CardRag.Lib.Json

/-! # Reading canonical JSON

`json.loads` of a text that `json.dumps` wrote with compact separators: the reader inverts
`Json.render` (`loads_render`). White space, fractions, exponents and signs, which no writer of the
program produces, are not read. -/

namespace CardRag

namespace Json

/-- The escape that `ensure_ascii` writes for a code unit of UTF-16. -/
def unitEscape (n : Nat) : Str :=
  "\\u".toList ++ [Nat.digitChar (n / 4096), Nat.digitChar (n / 256 % 16), Nat.digitChar (n / 16 % 16), Nat.digitChar (n % 16)]

def asciiChar (c : Char) : Str :=
  let n := c.toNat
  if n < 0x7f then [c]
  else if n < 0x10000 then unitEscape n
  else unitEscape (0xd800 + (n - 0x10000) / 0x400) ++ unitEscape (0xdc00 + (n - 0x10000) % 0x400)

/-- `json.dumps(value, sort_keys=True, separators=(",", ":"))`: what is not ASCII stands in strings and is
escaped there. -/
def renderAscii (value : Json) : Str := (render value).flatMap asciiChar

/-- A text literal at the front. -/
def readWord (word : Str) (value : Json) (text : Str) : Option (Json × Str) :=
  if word.isPrefixOf text then some (value, text.drop word.length) else none

/-- The characters of a string, up to its closing quote. -/
def readChars : (fuel : Nat) → Str → Option (Str × Str)
  | 0, _ => none
  | n + 1, text =>
    if text.head? = some '"' then some ([], text.drop 1)
    else (unescape text).bind fun p => (readChars n p.2).map fun q => (p.1 :: q.1, q.2)

/-- A quoted string. -/
def readStr (fuel : Nat) (text : Str) : Option (Str × Str) :=
  if text.head? = some '"' then readChars fuel (text.drop 1) else none

def readNum (text : Str) : Option (Json × Str) :=
  let digits := text.takeWhile Char.isDigit
  if digits = [] then none else some (num (Nat.ofDigitChars 10 digits 0), text.dropWhile Char.isDigit)

mutual
/-- The value at the front of a text, and what follows it. -/
def read : (fuel : Nat) → Str → Option (Json × Str)
  | 0, _ => none
  | n + 1, text =>
    match text.head? with
    | none => none
    | some 'n' => readWord "null".toList null text
    | some 't' => readWord "true".toList (bool true) text
    | some 'f' => readWord "false".toList (bool false) text
    | some '"' => (readStr n text).map fun p => (str p.1, p.2)
    | some '[' =>
      if text[1]? = some ']' then some (arr [], text.drop 2)
      else (read n (text.drop 1)).bind fun p => (readItems n p.2).map fun q => (arr (p.1 :: q.1), q.2)
    | some '\x7b' =>
      if text[1]? = some '\x7d' then some (obj [], text.drop 2)
      else (readField n (text.drop 1)).bind fun p => (readFields n p.2).map fun q => (obj (p.1 :: q.1), q.2)
    | some _ => readNum text

/-- The items after the first, up to the closing bracket. -/
def readItems : (fuel : Nat) → Str → Option (List Json × Str)
  | 0, _ => none
  | n + 1, text =>
    match text.head? with
    | some ']' => some ([], text.drop 1)
    | some ',' => (read n (text.drop 1)).bind fun p => (readItems n p.2).map fun q => (p.1 :: q.1, q.2)
    | _ => none

def readField : (fuel : Nat) → Str → Option ((Str × Json) × Str)
  | 0, _ => none
  | n + 1, text =>
    (readStr n text).bind fun p =>
      if p.2.head? = some ':' then (read n (p.2.drop 1)).map fun q => ((p.1, q.1), q.2) else none

def readFields : (fuel : Nat) → Str → Option (List (Str × Json) × Str)
  | 0, _ => none
  | n + 1, text =>
    match text.head? with
    | some '\x7d' => some ([], text.drop 1)
    | some ',' => (readField n (text.drop 1)).bind fun p => (readFields n p.2).map fun q => (p.1 :: q.1, q.2)
    | _ => none
end

/-- `json.loads(text)`; `none` is a `JSONDecodeError`. -/
def loads (text : Str) : Option Json :=
  match read (text.length + 1) text with
  | some (value, []) => some value
  | _ => none

theorem head?_escapeChar (c : Char) (u : Str) : (escapeChar c ++ u).head? ≠ some '"' := by
  intro h
  have hu := unescape_escapeChar c u
  cases he : escapeChar c ++ u with
  | nil => rw [he] at h; cases h
  | cons d ds =>
    rw [he] at h hu
    obtain rfl : d = '"' := by simpa using h
    simp [unescape] at hu

theorem length_escapeChar_pos (c : Char) : 0 < (escapeChar c).length := by
  unfold escapeChar
  split_ifs <;> simp [unicodeEscape]

theorem readChars_escaped {n : Nat} (s t : Str) (h : s.length < n) :
    readChars n (s.flatMap escapeChar ++ '"' :: t) = some (s, t) := by
  induction s generalizing n with
  | nil =>
    obtain ⟨m, rfl⟩ := Nat.exists_eq_succ_of_ne_zero (by omega : n ≠ 0)
    simp [readChars]
  | cons c s ih =>
    obtain ⟨m, rfl⟩ := Nat.exists_eq_succ_of_ne_zero (by omega : n ≠ 0)
    rw [List.length_cons] at h
    rw [List.flatMap_cons, List.append_assoc, readChars, if_neg (head?_escapeChar c _), unescape_escapeChar,
      Option.bind_some, ih (by omega), Option.map_some]

theorem length_le_renderStr (s : Str) : s.length + 2 ≤ (renderStr s).length := by
  have h : s.length ≤ (s.flatMap escapeChar).length := by
    induction s with
    | nil => simp
    | cons c s ih =>
      have := length_escapeChar_pos c
      rw [List.flatMap_cons, List.length_append, List.length_cons]
      omega
  rw [renderStr, List.length_append, List.length_cons, List.length_singleton]
  omega

theorem readStr_renderStr {n : Nat} (s t : Str) (h : (renderStr s ++ t).length ≤ n) :
    readStr n (renderStr s ++ t) = some (s, t) := by
  have hlen := length_le_renderStr s
  rw [List.length_append] at h
  rw [readStr, renderStr, List.append_assoc, List.cons_append, List.head?_cons, if_pos rfl, List.drop_one, List.tail_cons]
  exact readChars_escaped s t (by omega)

theorem dropWhile_decimal (n : Nat) {s : Str} (hs : Delimited s) :
    (decimal n ++ s).dropWhile Char.isDigit = s := by
  have h := List.takeWhile_append_dropWhile (p := Char.isDigit) (l := decimal n ++ s)
  rw [takeWhile_decimal n hs] at h
  exact List.append_cancel_left h

theorem readNum_decimal (n : Nat) {s : Str} (hs : Delimited s) : readNum (decimal n ++ s) = some (num n, s) := by
  have hne : decimal n ≠ [] := Nat.toDigits_ne_nil
  have hvalue : Nat.ofDigitChars 10 (decimal n) 0 = n := Nat.ofDigitChars_ten_toDigits
  simp only [readNum, takeWhile_decimal n hs, dropWhile_decimal n hs, if_neg hne, hvalue]

/-- A text that starts with a digit is read as a number. -/
theorem read_digit {n : Nat} {c : Char} {t : Str} (h : c.isDigit = true) : read (n + 1) (c :: t) = readNum (c :: t) := by
  rw [read, List.head?_cons]
  split <;> first | rfl | (rename_i heq; cases heq <;> exact absurd h (by decide))

theorem read_decimal {n k : Nat} {s : Str} (hs : Delimited s) : read (n + 1) (decimal k ++ s) = some (num k, s) := by
  obtain ⟨c, cs, hc, hkind⟩ := render_head (num k)
  rw [render] at hc
  have hdigit : c.isDigit = true :=
    Nat.isDigit_of_mem_toDigits (b := 10) (n := k) (by omega) (by omega) (by rw [show Nat.toDigits 10 k = _ from hc]; simp)
  have hnum := readNum_decimal k hs
  rw [hc, List.cons_append] at hnum ⊢
  rw [read_digit hdigit, hnum]

theorem renderStr_head (s t : Str) : ∃ u, renderStr s ++ t = '"' :: u :=
  ⟨_, by rw [renderStr, List.append_assoc, List.cons_append]⟩

mutual
theorem read_render : ∀ (v : Json) {n : Nat} {s : Str}, Delimited s → (render v ++ s).length < n →
    read n (render v ++ s) = some (v, s)
  | v, 0, s, _, h => absurd h (Nat.not_lt_zero _)
  | null, n + 1, s, _, _ => by simp [render, read, readWord]
  | bool true, n + 1, s, _, _ => by simp [render, read, readWord]
  | bool false, n + 1, s, _, _ => by simp [render, read, readWord]
  | num k, n + 1, s, hs, _ => by rw [render, read_decimal hs]
  | str a, n + 1, s, _, h => by
    rw [render] at h ⊢
    obtain ⟨u, hu⟩ := renderStr_head a s
    have hstr := readStr_renderStr a s (Nat.lt_succ_iff.1 h)
    rw [hu] at hstr ⊢
    simp only [read, List.head?_cons, hstr, Option.map_some]
  | arr [], n + 1, s, _, _ => by simp [render, read]
  | arr (x :: xs), n + 1, s, _, h => by
    simp only [render, List.cons_append, List.append_assoc, List.length_cons] at h ⊢
    have hitem := read_render x (delimited_renderItems xs s) (Nat.lt_of_succ_lt_succ h)
    have hrest : (renderItems xs ++ s).length < n := by
      rw [List.length_append] at h
      omega
    have hclose : (render x ++ (renderItems xs ++ s))[0]? ≠ some ']' := by
      intro hc
      cases hr : render x ++ (renderItems xs ++ s) with
      | nil => rw [hr] at hc; cases hc
      | cons c t =>
        rw [hr] at hc
        obtain rfl : c = ']' := by simpa using hc
        exact render_append_ne_close x _ _ hr
    simp only [read, List.head?_cons, List.getElem?_cons_succ, if_neg hclose, List.drop_one, List.tail_cons, hitem,
      Option.bind_some, readItems_render xs hrest, Option.map_some]
  | obj [], n + 1, s, _, _ => by simp [render, read]
  | obj ((k, v) :: fs), n + 1, s, _, h => by
    simp only [render, List.cons_append, List.append_assoc, List.length_cons] at h ⊢
    have hfield := readField_render k v (delimited_renderFields fs s) (Nat.lt_of_succ_lt_succ h)
    have hrest : (renderFields fs ++ s).length < n := by
      simp only [List.length_append, List.length_cons] at h ⊢
      omega
    obtain ⟨u, hu⟩ := renderStr_head k (':' :: (render v ++ (renderFields fs ++ s)))
    rw [hu] at hfield ⊢
    simp only [read, List.head?_cons, List.getElem?_cons_succ, List.getElem?_cons_zero, Option.some.injEq, Char.reduceEq,
      if_false, List.drop_one, List.tail_cons, hfield, Option.bind_some, readFields_render fs hrest, Option.map_some]

theorem readItems_render : ∀ (xs : List Json) {n : Nat} {s : Str}, (renderItems xs ++ s).length < n →
    readItems n (renderItems xs ++ s) = some (xs, s)
  | xs, 0, s, h => absurd h (Nat.not_lt_zero _)
  | [], n + 1, s, _ => by simp [renderItems, readItems]
  | x :: xs, n + 1, s, h => by
    simp only [renderItems, List.cons_append, List.append_assoc, List.length_cons] at h ⊢
    have hitem := read_render x (delimited_renderItems xs s) (Nat.lt_of_succ_lt_succ h)
    have hrest : (renderItems xs ++ s).length < n := by
      rw [List.length_append] at h
      omega
    simp only [readItems, List.head?_cons, List.drop_one, List.tail_cons, hitem, Option.bind_some,
      readItems_render xs hrest, Option.map_some]

theorem readField_render : ∀ (k : Str) (v : Json) {n : Nat} {s : Str}, Delimited s →
    (renderStr k ++ ':' :: (render v ++ s)).length < n →
      readField n (renderStr k ++ ':' :: (render v ++ s)) = some ((k, v), s)
  | k, v, 0, s, _, h => absurd h (Nat.not_lt_zero _)
  | k, v, n + 1, s, hs, h => by
    have hlen := length_le_renderStr k
    have hvalue : (render v ++ s).length < n := by
      simp only [List.length_append, List.length_cons] at h ⊢
      omega
    simp only [readField, readStr_renderStr k _ (Nat.lt_succ_iff.1 h), Option.bind_some, List.head?_cons, if_true,
      List.drop_one, List.tail_cons, read_render v hs hvalue, Option.map_some]

theorem readFields_render : ∀ (fs : List (Str × Json)) {n : Nat} {s : Str}, (renderFields fs ++ s).length < n →
    readFields n (renderFields fs ++ s) = some (fs, s)
  | fs, 0, s, h => absurd h (Nat.not_lt_zero _)
  | [], n + 1, s, _ => by simp [renderFields, readFields]
  | (k, v) :: fs, n + 1, s, h => by
    simp only [renderFields, List.cons_append, List.append_assoc, List.length_cons] at h ⊢
    have hfield := readField_render k v (delimited_renderFields fs s) (Nat.lt_of_succ_lt_succ h)
    have hrest : (renderFields fs ++ s).length < n := by
      simp only [List.length_append, List.length_cons] at h ⊢
      omega
    simp only [readFields, List.head?_cons, List.drop_one, List.tail_cons, hfield, Option.bind_some,
      readFields_render fs hrest, Option.map_some]
end

/-- `json.loads(json.dumps(value)) == value`. -/
theorem loads_render (v : Json) : loads (render v) = some v := by
  have h := read_render v (n := (render v).length + 1) (s := []) (by simp [Delimited]) (by simp)
  rw [List.append_nil] at h
  rw [loads, h]

end Json

end CardRag
