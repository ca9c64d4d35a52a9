import CardRag.Lib.Search
import CardRag.Ocr.Verify

/-! # Chunked OCR (`cardrag_worker.ocr`)

A document is recognised in calls, each for consecutive target pages. The provider's answer to a call
is validated and normalised page by page, saved as a checkpoint, and the pages of all calls are joined
into one text that the verifier checks. A later attempt reads the checkpoints back. -/

namespace CardRag

/-! ### Credentials (`providers.py`) -/

section
open Regex

/-- `[A-Za-z0-9]`. -/
def isAlphanumeric (c : Char) : Bool := ('a' ≤ c && c ≤ 'z') || ('A' ≤ c && c ≤ 'Z') || c.isDigit

/-- `[A-Za-z0-9_-]`. -/
def isTokenChar (c : Char) : Bool := isAlphanumeric c || c == '_' || c == '-'

/-- `[0-9A-Fa-f]`. -/
def isHex (c : Char) : Bool := c.isDigit || ('A' ≤ c && c ≤ 'F') || ('a' ≤ c && c ≤ 'f')

/-- `_CREDENTIAL_TOKEN_PATTERNS` without the look-around `(?<![A-Za-z0-9_-])…(?![A-Za-z0-9_-])`. -/
def credentialPatterns : List Regex :=
  [.seq (lit "sk-or-v1-".toList) (times (.cls isHex) 64),
   .alt (.seq (lit "github_pat_".toList) (between (.cls fun c => isAlphanumeric c || c == '_') 20 235))
     (.seq (lit "gh".toList) (.seq (oneOf "pousr") (.seq (lit "_".toList) (between (.cls isAlphanumeric) 20 235)))),
   .seq (lit "eyJ".toList) (.seq (atLeast (.cls isTokenChar) 5) (.seq (lit ".eyJ".toList)
     (.seq (atLeast (.cls isTokenChar) 5) (.seq (lit ".".toList) (atLeast (.cls isTokenChar) 10))))),
   .seq (lit "sk-".toList) (atLeast (.cls isTokenChar) 20)]

/-- Some pattern finds a credential. -/
def bearsCredential (value : Str) : Bool := credentialPatterns.any (search isTokenChar · value)

def rejectCredentialBearingOcr (value : Str) : Except Raised Unit :=
  raiseIf (bearsCredential value = true) ⟨.providerSystemicError, "provider_output_credential_detected"⟩

end

/-! ### One answer -/

def ocrBlankPageSentinel : Str := "[원본 이미지에 판독 가능한 텍스트·표·도형이 없는 빈 페이지]".toList

def ocrSparsePagePrefix : Str := "[희소 페이지에 보이는 원문]".toList

def ocrSparsePageMaxVisibleCharacters : Nat := 12

def splitOcrPages (text : Str) (expectedCount firstPage : Nat) : Except Raised (List Str) := do
  let found := findMarkers text
  raiseIf (∃ m ∈ found.head?, m.start ≠ 0)
    (ocrValidationError "OCR provider output must begin with the first Page marker")
  let numbers := found.map (·.number)
  let expected := List.range' firstPage expectedCount
  raiseIf (numbers ≠ expected) (ocrValidationError
    ("OCR page markers " ++ numbersText numbers ++ " do not match " ++ numbersText expected))
  let pages := cutPages (·.stop) text found
  raiseIf (∃ page ∈ pages, page.length < 1) (ocrValidationError "OCR contains an empty page")
  pure pages

/-- `value.splitlines()`. -/
def lineTexts (value : Str) : List Str :=
  (PyStr.splitlines value).map fun line => line.takeWhile fun c => !PyStr.isLineBreak c

/-- `visible_lines` of a sparse page. -/
def visibleLines (value : Str) : List Str :=
  (((lineTexts value).drop 1).map PyStr.strip).filter fun line => !line.isEmpty

/-- A sparse page: the wrapper line and the stripped visible lines. -/
def sparsePage (visible : List Str) : Str :=
  if visible = [] then ocrSparsePagePrefix else ocrSparsePagePrefix ++ '\n' :: unlines visible

/-- What the loop of `_validate_and_normalize_target_page_values` makes of one value. -/
def normalizeValue (value : Str) : Except Raised Str :=
  let invalid := ocrValidationError "OCR sparse-page wrapper is invalid"
  if PyStr.contains ocrSparsePagePrefix value then do
    raiseIf ((lineTexts value).take 1 ≠ [ocrSparsePagePrefix]) invalid
    raiseIf (∃ line ∈ visibleLines value, ocrMarker line ≠ none ∨ line = ocrBlankPageSentinel ∨
      line = ocrSparsePagePrefix) invalid
    raiseIf (ocrSparsePageMaxVisibleCharacters <
      ((visibleLines value).map fun line => (PyStr.words line).flatten.length).sum) invalid
    pure (sparsePage (visibleLines value))
  else do
    raiseIf (ocrBlankPageSentinel.isPrefixOf value = true ∧ value ≠ ocrBlankPageSentinel)
      (ocrValidationError "OCR blank-page sentinel must be exact")
    pure value

/-- `f"## Page {page_number}\n\n{value}"`. -/
def pageText (pageNumber : Nat) (value : Str) : Str := markerLine pageNumber ++ '\n' :: '\n' :: value

def normalizePage (pageNumber : Nat) (value : Str) : Except Raised Str := do
  let value ← normalizeValue value
  raiseIf ((pageText pageNumber value).length < 20)
    (ocrValidationError "OCR provider returned an implausibly short page")
  pure value

def validateAndNormalizeTargetPageValues (pageNumbers : List Nat) (values : List Str) :
    Except Raised (List Str) := do
  raiseIf (pageNumbers.length ≠ values.length) (ocrValidationError "OCR page/value count differs")
  (pageNumbers.zip values).mapM fun (pageNumber, value) => normalizePage pageNumber value

def validatedProviderTargetValues (raw : Str) (targetPageNumbers : List Nat) : Except Raised (List Str) := do
  rejectCredentialBearingOcr raw
  match targetPageNumbers with
  | [] => throw ⟨.indexError, "tuple index out of range"⟩
  | first :: _ => do
    let values ← splitOcrPages raw targetPageNumbers.length first
    raiseIf (∃ value ∈ values, value = []) (ocrValidationError "OCR provider returned an empty page")
    validateAndNormalizeTargetPageValues targetPageNumbers values

/-! ### The calls -/

structure OcrCall where
  targetPageNumbers : List Nat
  inputPageNumbers : List Nat
deriving DecidableEq, Repr

/-- `range(first, last + 1)`. -/
def pageRange (first last : Nat) : List Nat := List.range' first (last + 1 - first)

/-- `plan_ocr_calls(…)`; the two context counts are natural numbers. -/
def planOcrCalls (pageCount wholeDocumentMaxPages targetPagesPerCall contextPagesBefore contextPagesAfter : Nat) :
    Except Raised (List OcrCall) := do
  raiseIf (pageCount < 1) (valueError "page_count must be positive")
  raiseIf (wholeDocumentMaxPages < 1) (valueError "whole_document_max_pages must be positive")
  raiseIf (targetPagesPerCall < 1) (valueError "target_pages_per_call must be positive")
  if pageCount ≤ wholeDocumentMaxPages then pure [⟨pageRange 1 pageCount, pageRange 1 pageCount⟩]
  else
    -- `range(1, page_count + 1, target_pages_per_call)`
    let firstTargets := List.range' 1 ((pageCount + targetPagesPerCall - 1) / targetPagesPerCall) targetPagesPerCall
    pure (firstTargets.map fun firstTarget =>
      let lastTarget := min pageCount (firstTarget + targetPagesPerCall - 1)
      ⟨pageRange firstTarget lastTarget,
        pageRange (max 1 (firstTarget - contextPagesBefore)) (min pageCount (lastTarget + contextPagesAfter))⟩)

/-! ### Checkpoints and the whole document (`_resolve_serialized`) -/

/-- The text of consecutive pages with their markers. -/
def chunkText (pageNumbers : List Nat) (values : List Str) : Str :=
  joinPages (List.zipWith pageText pageNumbers values)

/-- `path.read_text(encoding="utf-8")` of a file written with these characters: every `\r\n` and `\r` is
read as `\n`. -/
def universalNewlines : Str → Str
  | [] => []
  | '\r' :: '\n' :: cs => '\n' :: universalNewlines cs
  | c :: cs => (if c = '\r' then '\n' else c) :: universalNewlines cs

/-- The pages that a later attempt reads from the checkpoint of a call. -/
def readCheckpoint (call : OcrCall) (written : Str) : Except Raised (List Str) := do
  let chunk := universalNewlines written
  rejectCredentialBearingOcr chunk
  match call.targetPageNumbers with
  | [] => throw ⟨.indexError, "tuple index out of range"⟩
  | first :: _ => do
    let pages ← splitOcrPages chunk call.targetPageNumbers.length first
    validateAndNormalizeTargetPageValues call.targetPageNumbers pages

/-- The values accepted for each call, in the order of the calls. -/
def acceptCalls (calls : List OcrCall) (raws : List Str) : Except Raised (List (List Str)) :=
  (calls.zip raws).mapM fun (call, raw) => validatedProviderTargetValues raw call.targetPageNumbers

/-- `page_text` after all calls: each target page with its value, later entries last. -/
def pageTexts (calls : List OcrCall) (values : List (List Str)) : List (Nat × Str) :=
  (List.zipWith (fun call values => call.targetPageNumbers.zip values) calls values).flatten

/-- `page_text[index] for index in range(1, page_count + 1)`. -/
def collectPages (pageCount : Nat) (texts : List (Nat × Str)) : Except Raised (List Str) :=
  (List.range' 1 pageCount).mapM fun index =>
    match PyList.get? (texts.foldl (fun d e => PyList.insert e.1 e.2 d) []) index with
    | some value => .ok value
    | none => .error ⟨.keyError, String.ofList (Json.decimal index)⟩

/-- The end of `_resolve_serialized`: the joined text is verified and its page bodies are the result. -/
def finishDocument (H : Sha256) (pageCount : Nat) (pages : List Str) : Except Raised (VerifiedOcr × List Str) := do
  let body := chunkText (List.range' 1 pageCount) pages
  rejectCredentialBearingOcr body
  let verified ← verifyOcrBytes H body { pageCount }
  let bodies ← verified.pages.mapM pageBody
  pure (verified, bodies)

end CardRag
