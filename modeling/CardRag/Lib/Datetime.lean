import CardRag.Lib.PyStr

/-! # Dates and times

`datetime` values as far as the program uses them: the text `isoformat` writes, the text
`fromisoformat` reads, and the whole days between two of them. A `Clock` is a valid date and time of
day; a `Datetime` adds the offset from UTC in minutes, `none` for a naive value.

`fromisoformat` reads the extended form that `isoformat` writes. The other spellings of ISO 8601
that Python accepts are not modelled: no function of the program writes them. -/

namespace CardRag

/-- The days of a month of the Gregorian calendar. -/
def daysInMonth (year month : Nat) : Nat :=
  if month = 2 then if year % 4 = 0 ∧ (year % 100 ≠ 0 ∨ year % 400 = 0) then 29 else 28
  else if month = 4 ∨ month = 6 ∨ month = 9 ∨ month = 11 then 30 else 31

/-- A date and a time of day. -/
structure Clock where
  year : Nat
  month : Nat
  day : Nat
  hour : Nat
  minute : Nat
  second : Nat
  microsecond : Nat
  valid : (1 ≤ year ∧ year ≤ 9999) ∧ (1 ≤ month ∧ month ≤ 12) ∧ (1 ≤ day ∧ day ≤ daysInMonth year month) ∧
    hour < 24 ∧ minute < 60 ∧ second < 60 ∧ microsecond < 1000000
deriving DecidableEq, Repr

/-- A `datetime`: `offset` is `utcoffset()` in minutes, `none` when `tzinfo` is `None`. -/
structure Datetime where
  clock : Clock
  offset : Option Int
deriving DecidableEq, Repr

namespace Clock

/-- The last decimal digit of `n`. -/
def digit (n : Nat) : Char := Char.ofNat (48 + n % 10)

/-- `int(text)` for a text of decimal digits. -/
def number (text : Str) : Nat := text.foldl (fun n c => 10 * n + (c.toNat - 48)) 0

def two (n : Nat) : Str := [digit (n / 10), digit n]

def four (n : Nat) : Str := two (n / 100) ++ two n

def six (n : Nat) : Str := two (n / 10000) ++ four n

theorem toNat_digit (n : Nat) : (digit n).toNat = 48 + n % 10 := by
  have hvalid : (48 + n % 10).isValidChar := by
    left
    omega
  rw [digit, Char.ofNat, dif_pos hvalid]
  rfl

theorem isDigit_digit (n : Nat) : (digit n).isDigit = true := by
  have h : (digit n).val.toNat = 48 + n % 10 := toNat_digit n
  have h0 : ('0' : Char).val.toNat = 48 := rfl
  have h9 : ('9' : Char).val.toNat = 57 := rfl
  simp only [Char.isDigit, Bool.and_eq_true, decide_eq_true_eq, ge_iff_le, UInt32.le_iff_toNat_le]
  omega

theorem number_two {n : Nat} (h : n < 100) : number (two n) = n := by
  simp only [number, two, List.foldl_cons, List.foldl_nil, toNat_digit]
  omega

theorem number_four {n : Nat} (h : n < 10000) : number (four n) = n := by
  simp only [number, four, two, List.cons_append, List.nil_append, List.foldl_cons, List.foldl_nil, toNat_digit]
  omega

theorem number_six {n : Nat} (h : n < 1000000) : number (six n) = n := by
  simp only [number, six, four, two, List.cons_append, List.nil_append, List.foldl_cons, List.foldl_nil,
    toNat_digit]
  omega

/-- `isoformat()` without the offset. -/
def isoformat (c : Clock) : Str :=
  four c.year ++ '-' :: two c.month ++ '-' :: two c.day ++ 'T' :: two c.hour ++ ':' :: two c.minute ++
    ':' :: two c.second ++ (if c.microsecond = 0 then [] else '.' :: six c.microsecond)

/-- `isoformat()` of the clock in UTC. -/
def utcIsoformat (c : Clock) : Str := c.isoformat ++ "+00:00".toList

/-- Days since 0000-12-31, `date.toordinal()`. -/
def toordinal (c : Clock) : Nat :=
  let y := c.year - 1
  y * 365 + y / 4 - y / 100 + y / 400 + ((List.range' 1 (c.month - 1)).map (daysInMonth c.year)).sum + c.day

end Clock

namespace Datetime
open Clock

/-- The fraction of a second, if one is written, and what follows it. -/
def readFraction : Str → Option (Nat × Str)
  | '.' :: a :: b :: c :: d :: e :: f :: rest =>
    if [a, b, c, d, e, f].all Char.isDigit then some (number [a, b, c, d, e, f], rest) else none
  | rest => some (0, rest)

/-- The offset, if one is written. -/
def readOffset : Str → Option (Option Int)
  | [] => some none
  | [sign, a, b, ':', c, d] =>
    if [a, b, c, d].all Char.isDigit ∧ number [a, b] < 24 ∧ number [c, d] < 60 then
      let minutes : Int := number [a, b] * 60 + number [c, d]
      if sign = '+' then some (some minutes) else if sign = '-' then some (some (-minutes)) else none
    else none
  | _ => none

/-- `datetime.fromisoformat(text)`; `none` is a `ValueError`. -/
def fromisoformat : Str → Option Datetime
  | y₁ :: y₂ :: y₃ :: y₄ :: '-' :: o₁ :: o₂ :: '-' :: d₁ :: d₂ :: _ :: h₁ :: h₂ :: ':' :: m₁ :: m₂ :: ':' ::
      s₁ :: s₂ :: rest =>
    if [y₁, y₂, y₃, y₄, o₁, o₂, d₁, d₂, h₁, h₂, m₁, m₂, s₁, s₂].all Char.isDigit then do
      let (microsecond, rest) ← readFraction rest
      let offset ← readOffset rest
      let year := number [y₁, y₂, y₃, y₄]
      let month := number [o₁, o₂]
      let day := number [d₁, d₂]
      let hour := number [h₁, h₂]
      let minute := number [m₁, m₂]
      let second := number [s₁, s₂]
      if valid : (1 ≤ year ∧ year ≤ 9999) ∧ (1 ≤ month ∧ month ≤ 12) ∧ (1 ≤ day ∧ day ≤ daysInMonth year month) ∧
          hour < 24 ∧ minute < 60 ∧ second < 60 ∧ microsecond < 1000000 then
        some ⟨⟨year, month, day, hour, minute, second, microsecond, valid⟩, offset⟩
      else none
    else none
  | _ => none

theorem readFraction_isoformat (n : Nat) (h : n < 1000000) :
    readFraction ((if n = 0 then [] else '.' :: six n) ++ "+00:00".toList) = some (n, "+00:00".toList) := by
  split
  · rename_i hn
    subst hn
    rfl
  · have hd := fun k => isDigit_digit k
    have hnum := number_six h
    simp only [six, four, two, List.cons_append, List.nil_append] at hnum ⊢
    simp only [readFraction, List.all_cons, hd, Bool.and_self, List.all_nil, if_true, hnum]

/-- What `isoformat` writes for a time in UTC, `fromisoformat` reads back. -/
theorem fromisoformat_utcIsoformat (c : Clock) : fromisoformat c.utcIsoformat = some ⟨c, some 0⟩ := by
  obtain ⟨year, month, day, hour, minute, second, microsecond, valid⟩ := c
  obtain ⟨⟨hy1, hy2⟩, ⟨ho1, ho2⟩, ⟨hd1, hd2⟩, hh, hm, hs, hu⟩ := valid
  have hday : day < 100 := by
    have : daysInMonth year month ≤ 31 := by
      unfold daysInMonth
      split_ifs <;> omega
    omega
  have hyear := number_four (n := year) (by omega)
  have hmonth := number_two (n := month) (by omega)
  have hday := number_two hday
  have hhour := number_two (n := hour) (by omega)
  have hminute := number_two (n := minute) (by omega)
  have hsecond := number_two (n := second) (by omega)
  have hfrac := readFraction_isoformat microsecond hu
  have hoff : readOffset "+00:00".toList = some (some 0) := by decide
  have hdig := fun k => isDigit_digit k
  simp only [four, two, List.cons_append, List.nil_append] at hyear hmonth hday hhour hminute hsecond
  simp only [utcIsoformat, isoformat, four, two, List.cons_append, List.nil_append,
    fromisoformat, List.all_cons, hdig, Bool.and_self, List.all_nil, if_true, hfrac, hoff, hyear, hmonth, hday,
    hhour, hminute, hsecond, bind, Option.bind]
  rw [dif_pos ⟨⟨hy1, hy2⟩, ⟨ho1, ho2⟩, ⟨hd1, hd2⟩, hh, hm, hs, hu⟩]

/-- Microseconds since 0000-12-31, in UTC when the value is aware. -/
def micros (d : Datetime) : Int :=
  let minutes : Int := ((d.clock.toordinal * 24 + d.clock.hour) * 60 + d.clock.minute : Nat) - d.offset.getD 0
  (minutes * 60 + d.clock.second) * 1000000 + d.clock.microsecond

end Datetime

/-- A `date`. -/
structure Date where
  year : Nat
  month : Nat
  day : Nat
  valid : (1 ≤ year ∧ year ≤ 9999) ∧ (1 ≤ month ∧ month ≤ 12) ∧ 1 ≤ day ∧ day ≤ daysInMonth year month
deriving DecidableEq, Repr

namespace Date
open Clock

/-- `date(year, month, day)`; `none` is a `ValueError`. -/
def mk? (year month day : Nat) : Option Date :=
  if valid : (1 ≤ year ∧ year ≤ 9999) ∧ (1 ≤ month ∧ month ≤ 12) ∧ 1 ≤ day ∧ day ≤ daysInMonth year month then
    some ⟨year, month, day, valid⟩
  else none

def isoformat (d : Date) : Str := four d.year ++ '-' :: two d.month ++ '-' :: two d.day

/-- `date.fromisoformat(text)` of the extended form. -/
def fromisoformat : Str → Option Date
  | [y₁, y₂, y₃, y₄, '-', o₁, o₂, '-', d₁, d₂] =>
    if [y₁, y₂, y₃, y₄, o₁, o₂, d₁, d₂].all Char.isDigit then
      mk? (number [y₁, y₂, y₃, y₄]) (number [o₁, o₂]) (number [d₁, d₂])
    else none
  | _ => none

theorem fromisoformat_isoformat (d : Date) : fromisoformat d.isoformat = some d := by
  obtain ⟨year, month, day, valid⟩ := d
  have hday : day < 100 := by
    have : daysInMonth year month ≤ 31 := by
      unfold daysInMonth
      split_ifs <;> omega
    omega
  have hyear := number_four (n := year) (by omega)
  have hmonth := number_two (n := month) (by omega)
  have hday := number_two hday
  have hdig := fun k => isDigit_digit k
  simp only [four, two, List.cons_append, List.nil_append] at hyear hmonth hday
  simp only [isoformat, four, two, List.cons_append, List.nil_append, fromisoformat, List.all_cons, hdig,
    Bool.and_self, List.all_nil, if_true, hyear, hmonth, hday]
  exact dif_pos valid

theorem isoformat_injective : Function.Injective isoformat := by
  intro d d' h
  have hd := fromisoformat_isoformat d
  rw [h, fromisoformat_isoformat d'] at hd
  exact (Option.some.inj hd).symm

end Date

end CardRag
