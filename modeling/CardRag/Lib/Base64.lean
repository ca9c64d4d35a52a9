import CardRag.Lib.PyStr

/-! # Base64 with the URL-safe alphabet

`base64.urlsafe_b64encode`, and `base64.urlsafe_b64decode` as the interpreter reads it without strict
mode: both alphabets are read, a character of neither is skipped, and a pad that ends a group ends the
text. -/

namespace CardRag

namespace Base64

def charOf (sextet : Nat) : Char :=
  if sextet < 26 then Char.ofNat (sextet + 65)
  else if sextet < 52 then Char.ofNat (sextet + 71)
  else if sextet < 62 then Char.ofNat (sextet - 4)
  else if sextet = 62 then '-'
  else '_'

/-- The sextet of a character; `+` and `/` are those of `-` and `_`. -/
def sextetOf (c : Char) : Option Nat :=
  let n := c.toNat
  if c.isUpper then some (n - 65)
  else if c.isLower then some (n - 71)
  else if c.isDigit then some (n + 4)
  else if c = '-' ∨ c = '+' then some 62
  else if c = '_' ∨ c = '/' then some 63
  else none

/-- The characters of the data, before the padding. -/
def digits : List UInt8 → Str
  | a :: b :: c :: rest =>
    charOf (a.toNat / 4) :: charOf (a.toNat % 4 * 16 + b.toNat / 16) ::
      charOf (b.toNat % 16 * 4 + c.toNat / 64) :: charOf (c.toNat % 64) :: digits rest
  | [a, b] =>
    [charOf (a.toNat / 4), charOf (a.toNat % 4 * 16 + b.toNat / 16), charOf (b.toNat % 16 * 4)]
  | [a] => [charOf (a.toNat / 4), charOf (a.toNat % 4 * 16)]
  | [] => []

/-- The pads that fill up a text of `n` characters: `-n % 4`. -/
def pads (n : Nat) : Str := List.replicate ((4 - n % 4) % 4) '='

/-- `urlsafe_b64encode(data).decode()`. -/
def encode (data : List UInt8) : Str := digits data ++ pads (digits data).length

/-- `binascii.a2b_base64`: `quad` characters of the group are read, `left` holds the bits of them that
are not yet in a byte, and `padding` counts the pads since the last of them. -/
def decodeFrom : (quad left padding : Nat) → Str → Option (List UInt8)
  | quad, _, _, [] => if quad = 0 then some [] else none
  | quad, left, padding, c :: cs =>
    if c = '=' then
      if 2 ≤ quad ∧ 4 ≤ quad + padding + 1 then some []
      else decodeFrom quad left (if 2 ≤ quad then padding + 1 else padding) cs
    else
      match sextetOf c with
      | none => decodeFrom quad left padding cs
      | some v =>
        match quad with
        | 0 => decodeFrom 1 v 0 cs
        | 1 => (decodeFrom 2 (v % 16) 0 cs).map (UInt8.ofNat (left * 4 + v / 16) :: ·)
        | 2 => (decodeFrom 3 (v % 4) 0 cs).map (UInt8.ofNat (left * 16 + v / 4) :: ·)
        | _ => (decodeFrom 0 0 0 cs).map (UInt8.ofNat (left * 64 + v) :: ·)

/-- `urlsafe_b64decode(text)`; `none` is a `ValueError`. -/
def decode (text : Str) : Option (List UInt8) :=
  if ∃ c ∈ text, 128 ≤ c.toNat then none else decodeFrom 0 0 0 text

theorem sextetOf_charOf {n : Nat} (h : n < 64) : sextetOf (charOf n) = some n := by
  interval_cases n <;> rfl

theorem charOf_ne_pad {n : Nat} (h : n < 64) : charOf n ≠ '=' := by
  intro heq
  have := sextetOf_charOf h
  rw [heq] at this
  cases this

theorem charOf_ascii {n : Nat} (h : n < 64) : (charOf n).toNat < 128 := by
  interval_cases n <;> decide

/-- Every character of the data is one of the alphabet. -/
theorem mem_digits : ∀ {data : List UInt8} {c : Char}, c ∈ digits data → ∃ n, n < 64 ∧ c = charOf n
  | a :: b :: d :: rest, c, h => by
    have ha := a.toNat_lt
    have hb := b.toNat_lt
    have hd := d.toNat_lt
    simp only [digits, List.mem_cons] at h
    rcases h with rfl | rfl | rfl | rfl | h
    · exact ⟨_, by omega, rfl⟩
    · exact ⟨_, by omega, rfl⟩
    · exact ⟨_, by omega, rfl⟩
    · exact ⟨_, by omega, rfl⟩
    · exact mem_digits h
  | [a, b], c, h => by
    have ha := a.toNat_lt
    have hb := b.toNat_lt
    simp only [digits, List.mem_cons, List.not_mem_nil, or_false] at h
    rcases h with rfl | rfl | rfl <;> exact ⟨_, by omega, rfl⟩
  | [a], c, h => by
    have ha := a.toNat_lt
    simp only [digits, List.mem_cons, List.not_mem_nil, or_false] at h
    rcases h with rfl | rfl <;> exact ⟨_, by omega, rfl⟩

section
variable {n : Nat} (h : n < 64) (left padding : Nat) (cs : Str)
include h

theorem decodeFrom_zero : decodeFrom 0 left padding (charOf n :: cs) = decodeFrom 1 n 0 cs := by
  simp only [decodeFrom, if_neg (charOf_ne_pad h), sextetOf_charOf h]

theorem decodeFrom_one : decodeFrom 1 left padding (charOf n :: cs) =
    (decodeFrom 2 (n % 16) 0 cs).map (UInt8.ofNat (left * 4 + n / 16) :: ·) := by
  simp only [decodeFrom, if_neg (charOf_ne_pad h), sextetOf_charOf h]

theorem decodeFrom_two : decodeFrom 2 left padding (charOf n :: cs) =
    (decodeFrom 3 (n % 4) 0 cs).map (UInt8.ofNat (left * 16 + n / 4) :: ·) := by
  simp only [decodeFrom, if_neg (charOf_ne_pad h), sextetOf_charOf h]

theorem decodeFrom_three : decodeFrom 3 left padding (charOf n :: cs) =
    (decodeFrom 0 0 0 cs).map (UInt8.ofNat (left * 64 + n) :: ·) := by
  simp only [decodeFrom, if_neg (charOf_ne_pad h), sextetOf_charOf h]

end

theorem ofNat_eq {n : Nat} {a : UInt8} (h : n = a.toNat) : UInt8.ofNat n = a := by
  rw [h, UInt8.ofNat_toNat]

theorem decodeFrom_digits : ∀ data : List UInt8,
    decodeFrom 0 0 0 (digits data ++ pads (digits data).length) = some data
  | a :: b :: c :: rest => by
    have ha := a.toNat_lt
    have hb := b.toNat_lt
    have hc := c.toNat_lt
    have hpads : pads ((digits rest).length + 1 + 1 + 1 + 1) = pads (digits rest).length := by
      rw [pads, pads, show ((digits rest).length + 1 + 1 + 1 + 1) % 4 = (digits rest).length % 4 by omega]
    simp only [digits, List.length_cons, hpads, List.cons_append]
    rw [decodeFrom_zero (by omega), decodeFrom_one (by omega), decodeFrom_two (by omega), decodeFrom_three (by omega),
      decodeFrom_digits rest]
    simp only [Option.map_some, Option.some.injEq, List.cons.injEq, and_true]
    exact ⟨ofNat_eq (by omega), ofNat_eq (by omega), ofNat_eq (by omega)⟩
  | [a, b] => by
    have ha := a.toNat_lt
    have hb := b.toNat_lt
    have hend : decodeFrom 3 (b.toNat % 16 * 4 % 4) 0 ['='] = some [] := rfl
    change decodeFrom 0 0 0 [_, _, _, '='] = _
    rw [decodeFrom_zero (by omega), decodeFrom_one (by omega), decodeFrom_two (by omega), hend]
    simp only [Option.map_some, Option.some.injEq, List.cons.injEq, and_true]
    exact ⟨ofNat_eq (by omega), ofNat_eq (by omega)⟩
  | [a] => by
    have ha := a.toNat_lt
    have hend : decodeFrom 2 (a.toNat % 4 * 16 % 16) 0 ['=', '='] = some [] := rfl
    change decodeFrom 0 0 0 [_, _, '=', '='] = _
    rw [decodeFrom_zero (by omega), decodeFrom_one (by omega), hend]
    simp only [Option.map_some, Option.some.injEq, List.cons.injEq, and_true]
    exact ofNat_eq (by omega)
  | [] => rfl

/-- `encode(data).rstrip("=")`. -/
theorem rstrip_encode (data : List UInt8) : PyStr.rstripBy (· == '=') (encode data) = digits data := by
  have hlast (c : Char) (h : c ∈ (digits data).getLast?) : ¬ (c == '=') = true := by
    obtain ⟨n, hn, rfl⟩ := mem_digits (List.mem_of_mem_getLast? h)
    simpa using charOf_ne_pad hn
  have hpads : ∀ k, PyStr.rstripBy (· == '=') (digits data ++ List.replicate k '=') = digits data := by
    intro k
    induction k with
    | zero =>
      rw [List.replicate_zero, List.append_nil, PyStr.rstripBy, List.rdropWhile_eq_self_iff]
      intro hne
      exact hlast _ (List.getLast?_eq_some_getLast hne ▸ rfl)
    | succ k ih =>
      rw [List.replicate_succ', ← List.append_assoc, PyStr.rstripBy, List.rdropWhile_concat_pos _ _ _ rfl]
      exact ih
  exact hpads _

/-- What the encoder writes without its padding is read back when the padding is put on again. -/
theorem decode_rstrip_encode (data : List UInt8) :
    decode (PyStr.rstripBy (· == '=') (encode data) ++ pads (PyStr.rstripBy (· == '=') (encode data)).length) =
      some data := by
  have hascii : ¬ ∃ c ∈ digits data ++ pads (digits data).length, 128 ≤ c.toNat := by
    rintro ⟨c, hc, hle⟩
    rcases List.mem_append.1 hc with hc | hc
    · obtain ⟨n, hn, rfl⟩ := mem_digits hc
      have := charOf_ascii hn
      omega
    · rw [List.eq_of_mem_replicate hc] at hle
      exact absurd hle (by decide)
  rw [rstrip_encode, decode, if_neg hascii, decodeFrom_digits]

end Base64

end CardRag
