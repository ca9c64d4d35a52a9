import CardRag.Lib.Guard
import CardRag.Lib.Json
import CardRag.Lib.PyList
import CardRag.Lib.Regex
import CardRag.Lib.Sha256

/-! # Shared contracts (`cardrag_core`)

Exceptions, digests and the small validators that every part of the system uses. The SHA-256
function is a parameter `H : Sha256`, as a function of the text whose UTF-8 encoding it digests; all
that is known of it is the form of its digests. Where a result needs two digests to differ it says
on which texts (`Sha256.InjectiveOn`). -/

namespace CardRag

/-- The exception classes raised by the modelled code. -/
inductive ExceptionClass where
  | valueError
  | typeError
  | runtimeError
  | keyError
  | indexError
  | structureValidationError
  | structureFallbackFailed
  | documentAggregationError
  | revisionHistoryError
  | retirementError
  | gcError
  | gcMarkVerificationError
  | gcDeletionError
  | gcPartialFailure
  | webdavError
  | servingDatabaseError
  | ocrVerificationError
  | ocrValidationError
  | providerSystemicError
  | partialExecutionError
  | exhaustiveAuditError
deriving DecidableEq, Repr

/-- A raised exception: its class and the text of its message. -/
structure Raised where
  cls : ExceptionClass
  message : String
deriving DecidableEq, Repr

def valueError (message : String) : Raised := ⟨.valueError, message⟩

/-- The temporal status of a contract revision. -/
inductive TemporalStatus where
  | current | superseded | ambiguous
deriving DecidableEq, Repr

def TemporalStatus.text : TemporalStatus → Str
  | current => "current".toList
  | superseded => "superseded".toList
  | ambiguous => "ambiguous".toList

/-- `[0-9a-f]`. -/
def isHexDigit (c : Char) : Bool := c.isDigit || ('a' ≤ c && c ≤ 'f')

/-- `_SHA256.fullmatch(value)`, the pattern `^[0-9a-f]{64}$`. -/
def isSha256 (value : Str) : Bool := value.length == 64 && value.all isHexDigit

/-- `_SOURCE_ID.fullmatch(value)`, the pattern `^source_[0-9a-f]{64}$`. -/
def isSourceId (value : Str) : Bool :=
  "source_".toList.isPrefixOf value && isSha256 (value.drop 7)

/-- `sha256_bytes(text.encode("utf-8"))`. -/
structure Sha256 where
  hexdigest : Str → Str
  isSha256_hexdigest : ∀ text, isSha256 (hexdigest text) = true

namespace Sha256

theorem length_hexdigest (H : Sha256) (text : Str) : (H.hexdigest text).length = 64 := by
  have := H.isSha256_hexdigest text
  simp only [isSha256, Bool.and_eq_true, beq_iff_eq] at this
  exact this.1

/-- No two of the texts collide. -/
def InjectiveOn (H : Sha256) (texts : List Str) : Prop :=
  ∀ s ∈ texts, ∀ t ∈ texts, H.hexdigest s = H.hexdigest t → s = t

/-- Digests that differ at the start tell the texts apart. -/
theorem injectiveOn_of_nodup {H : Sha256} {texts : List Str} (n : Nat)
    (h : (texts.map fun t => (H.hexdigest t).take n).Nodup) : H.InjectiveOn texts :=
  fun s hs t ht heq => List.inj_on_of_nodup_map h hs ht (by rw [heq])

/-- SHA-256 itself. -/
def standard : Sha256 where
  hexdigest := Sha.sha256
  isSha256_hexdigest text := by
    have hdigit : ∀ c ∈ Sha.hexDigits, isHexDigit c = true := by simp [Sha.hexDigits, isHexDigit]
    simp only [isSha256, Sha.length_sha256, beq_self_eq_true, Bool.true_and, List.all_eq_true]
    exact fun c hc => hdigit c (Sha.mem_hexDigits hc)

/-- `canonical_sha256(value)`. -/
def canonical (H : Sha256) (value : Json) : Str := H.hexdigest value.render

end Sha256

/-- `issuer_code(value)`: the pattern `[a-z][a-z0-9_-]{1,31}`. -/
def issuerCode (value : Str) : Except Raised Unit :=
  let letter : Char → Bool := fun c => 'a' ≤ c && c ≤ 'z'
  let tail : Regex := .cls fun c => letter c || c.isDigit || c == '_' || c == '-'
  raiseIf (Regex.fullmatch (.seq (.cls letter) (.between tail 1 30)) value = false)
    (valueError "issuer code must be a safe lowercase identifier")

/-- `date.fromisoformat(value).isoformat() == value`: the year, month and day of a date in
`0001-01-01 … 9999-12-31`, written `YYYY-MM-DD`. Every other form that `fromisoformat` reads is
written differently by `isoformat`. -/
def isCanonicalDate (value : Str) : Bool :=
  let year := Nat.ofDigitChars 10 (value.take 4) 0
  let month := Nat.ofDigitChars 10 ((value.drop 5).take 2) 0
  let day := Nat.ofDigitChars 10 (value.drop 8) 0
  let leap := year % 4 == 0 && (year % 100 != 0 || year % 400 == 0)
  let days := if month == 2 then (if leap then 29 else 28)
    else if month == 4 || month == 6 || month == 9 || month == 11 then 30 else 31
  value.length == 10 && value.getD 4 ' ' == '-' && value.getD 7 ' ' == '-' &&
    (value.take 4).all Char.isDigit && ((value.drop 5).take 2).all Char.isDigit &&
    (value.drop 8).all Char.isDigit &&
    1 ≤ year && 1 ≤ month && month ≤ 12 && 1 ≤ day && day ≤ days

end CardRag
