import CardRag.Core
import CardRag.Lib.Lines

/-! # OCR verification (`cardrag_core.ocr`)

The verifier reads the page markers of a text line by line, cuts the text at them and accepts it when
it is the canonical join of the pages so cut. The payload is given by the text whose UTF-8 encoding it
is: a payload that is no UTF-8 is refused, and NUL and CR are single bytes of the encoding. The number
of a marker is read without the interpreter's limit on the digits of `int`. -/

namespace CardRag

/-- `_PAGE_MARKER` on one line: the number of `## Page N`, written without leading zeros. -/
def ocrMarker (line : Str) : Option Nat :=
  let digits := line.drop 8
  if "## Page ".toList.isPrefixOf line && digits.all Char.isDigit && digits.head?.any (· != '0') then
    some (Nat.ofDigitChars 10 digits 0)
  else none

/-- A match of `_PAGE_MARKER` in a text. -/
structure PageMatch where
  start : Nat
  stop : Nat
  number : Nat
deriving DecidableEq, Repr

/-- The matches in consecutive lines, the first of which starts at `offset`. -/
def matchesFrom : Nat → List Str → List PageMatch
  | _, [] => []
  | offset, line :: lines =>
    (ocrMarker line).toList.map (⟨offset, offset + line.length, ·⟩) ++
      matchesFrom (offset + line.length + 1) lines

/-- `list(_PAGE_MARKER.finditer(text))`; with `re.MULTILINE` a match is a whole line between
newlines. -/
def findMarkers (text : Str) : List PageMatch := matchesFrom 0 (PyStr.split '\n' text)

/-- The text from each match to the next one, stripped. -/
def cutPages (cut : PageMatch → Nat) (text : Str) : List PageMatch → List Str
  | [] => []
  | m :: rest =>
    PyStr.strip (PyStr.slice text (cut m) ((rest.head?.map (·.start)).getD text.length)) ::
      cutPages cut text rest

/-- The text of a list of numbers. -/
def numbersText (numbers : List Nat) : String :=
  String.ofList ('[' :: ", ".toList.intercalate (numbers.map Json.decimal) ++ [']'])

/-- `"\n\n".join(pages) + "\n"`. -/
def joinPages (pages : List Str) : Str := ['\n', '\n'].intercalate pages ++ ['\n']

def ocrError (message : String) : Raised := ⟨.ocrVerificationError, message⟩

def splitPages (text : Str) (expectedPageCount minimumCharsPerPage : Nat) : Except Raised (List Str) := do
  let markers := findMarkers text
  let markerNumbers := markers.map (·.number)
  let expected := List.range' 1 expectedPageCount
  raiseIf (markerNumbers ≠ expected) (ocrError
    ("OCR page markers " ++ numbersText markerNumbers ++ " do not match " ++ numbersText expected))
  let pages := cutPages (·.start) text markers
  raiseIf (∃ page ∈ pages, page.length < minimumCharsPerPage)
    (ocrError "OCR contains an implausibly short page")
  raiseIf (text ≠ joinPages pages) (ocrError "OCR bytes are not in canonical page-join form")
  pure pages

/-- The keyword arguments of `verify_ocr_bytes`. -/
structure OcrExpectation where
  pageCount : Nat
  sha256 : Option Str := none
  sizeBytes : Option Nat := none
  charCount : Option Nat := none
  pageSha256 : Option (List Str) := none
  minimumCharsPerPage : Nat := 20
deriving Repr

structure VerifiedOcr where
  text : Str
  sha256 : Str
  sizeBytes : Nat
  charCount : Nat
  pages : List Str
  pageSha256 : List Str
deriving DecidableEq, Repr

/-- `len(text.encode("utf-8"))`. -/
def utf8Size (text : Str) : Nat := (text.map Char.utf8Size).sum

def verifyOcrBytes (H : Sha256) (payload : Str) (expected : OcrExpectation) : Except Raised VerifiedOcr := do
  raiseIf (expected.pageCount < 1) (valueError "expected_page_count must be positive")
  raiseIf (expected.minimumCharsPerPage < 1) (valueError "minimum_chars_per_page must be positive")
  raiseIf ('\x00' ∈ payload ∨ '\r' ∈ payload) (ocrError "OCR bytes contain forbidden NUL or CR characters")
  raiseIf (expected.sizeBytes.any (· ≠ utf8Size payload) = true)
    (ocrError "OCR byte size does not match its manifest")
  raiseIf (expected.sha256.any (· ≠ H.hexdigest payload) = true)
    (ocrError "OCR SHA-256 does not match its manifest")
  let pages ← splitPages payload expected.pageCount expected.minimumCharsPerPage
  raiseIf (expected.charCount.any (· ≠ payload.length) = true)
    (ocrError "OCR character count does not match its manifest")
  let pageHashes := pages.map H.hexdigest
  raiseIf (expected.pageSha256.any (· ≠ pageHashes) = true)
    (ocrError "OCR page hashes do not match its manifest")
  pure { text := payload, sha256 := H.hexdigest payload, sizeBytes := utf8Size payload,
         charCount := payload.length, pages, pageSha256 := pageHashes }

def ocrValidationError (message : String) : Raised := ⟨.ocrValidationError, message⟩

def pageBody (page : Str) : Except Raised Str := do
  let firstLine := page.takeWhile (· != '\n')
  raiseIf ('\n' ∉ page ∨ ocrMarker firstLine = none)
    (ocrValidationError "verified OCR page has no canonical marker")
  pure (PyStr.strip (page.drop (firstLine.length + 1)))

/-! ### Marker lines -/

section
variable {line : Str} {n : Nat}

/-- The marker line of a page. -/
def markerLine (n : Nat) : Str := "## Page ".toList ++ Json.decimal n

theorem ocrMarker_eq_some : ocrMarker line = some n ↔ ∃ digits, line = "## Page ".toList ++ digits ∧
    (∀ c ∈ digits, c.isDigit = true) ∧ (∃ c ∈ digits.head?, c ≠ '0') ∧ n = Nat.ofDigitChars 10 digits 0 := by
  have hdrop : ∀ digits : Str, ("## Page ".toList ++ digits).drop 8 = digits := fun _ => rfl
  simp only [ocrMarker]
  constructor
  · intro h
    split at h
    · rename_i hc
      simp only [Bool.and_eq_true, List.isPrefixOf_iff_prefix, List.all_eq_true, Option.any_eq_true, bne_iff_ne] at hc
      obtain ⟨⟨⟨digits, rfl⟩, hall⟩, c, hc, hne⟩ := hc
      rw [hdrop] at hall hc h
      exact ⟨digits, rfl, hall, ⟨c, hc, hne⟩, (Option.some.inj h).symm⟩
    · cases h
  · rintro ⟨digits, rfl, hall, ⟨c, hc, hne⟩, rfl⟩
    rw [hdrop, if_pos]
    simp only [Bool.and_eq_true, List.isPrefixOf_iff_prefix, List.all_eq_true, Option.any_eq_true, bne_iff_ne]
    exact ⟨⟨List.prefix_append _ _, hall⟩, c, hc, hne⟩

theorem isSpace_of_isDigit {c : Char} (h : c.isDigit = true) : PyStr.isSpace c = false := by
  have hlow : 48 ≤ c.toNat ∧ c.toNat ≤ 57 := by
    simpa [Char.isDigit, UInt32.le_iff_toNat_le] using h
  simp only [PyStr.isSpace, Bool.or_eq_false_iff, Bool.and_eq_false_iff, decide_eq_false_iff_not, beq_eq_false_iff_ne]
  omega

/-- A marker line has no line boundary, and no white space at its ends. -/
theorem ocrMarker_visible (h : ocrMarker line = some n) :
    (∀ c ∈ line, PyStr.isLineBreak c = false) ∧ PyStr.strip line = line ∧ line ≠ [] := by
  obtain ⟨digits, rfl, hall, ⟨c, hc, -⟩, -⟩ := ocrMarker_eq_some.1 h
  have hne : digits ≠ [] := by
    rintro rfl
    cases hc
  refine ⟨?_, PyStr.strip_eq_self ?_ ?_, by simp⟩
  · intro x hx
    rcases List.mem_append.1 hx with hx | hx
    · have hall : "## Page ".toList.all (fun c => !PyStr.isLineBreak c) = true := by decide
      simpa using List.all_eq_true.1 hall x hx
    · rw [← Bool.not_eq_true]
      intro hbreak
      have := PyStr.isSpace_of_isLineBreak hbreak
      rw [isSpace_of_isDigit (hall x hx)] at this
      cases this
  · intro x hx
    have hhead : ("## Page ".toList ++ digits).head? = some '#' := rfl
    rw [hhead, Option.mem_some_iff] at hx
    rw [← hx]
    decide
  · intro x hx
    rw [List.getLast?_append_of_ne_nil _ hne] at hx
    exact isSpace_of_isDigit (hall x (List.mem_of_getLast? hx))

theorem newline_notMem_marker (h : ocrMarker line = some n) : '\n' ∉ line := by
  intro hmem
  have := (ocrMarker_visible h).1 _ hmem
  revert this
  decide

theorem fields_marker (h : ocrMarker line = some n) : PyStr.fields PyStr.isLineBreak line = [line] := by
  obtain ⟨hbreak, hstrip, hne⟩ := ocrMarker_visible h
  rw [PyStr.fields_single hbreak, hstrip, if_neg hne]

end

/-! ### Lines and the texts they make -/

/-- The text of lines. -/
def unlines (lines : List Str) : Str := ['\n'].intercalate lines

section
variable {lines : List Str}

@[simp] theorem unlines_split (text : Str) : unlines (PyStr.split '\n' text) = text :=
  List.intercalate_splitOn '\n'

theorem unlines_append {a b : List Str} (ha : a ≠ []) (hb : b ≠ []) :
    unlines (a ++ b) = unlines a ++ '\n' :: unlines b := by
  rw [unlines, PyStr.intercalate_append ha hb, List.append_assoc]
  rfl

theorem unlines_cons (line : Str) {lines : List Str} (h : lines ≠ []) :
    unlines (line :: lines) = line ++ '\n' :: unlines lines := by
  rw [← List.singleton_append, unlines_append (by simp) h]
  simp [unlines]

theorem unlines_singleton (line : Str) : unlines [line] = line := by simp [unlines]

end

/-! ### Blocks: a marker line and the lines up to the next marker -/

/-- No marker line. -/
def isBody (line : Str) : Bool := (ocrMarker line).isNone

/-- The marker lines, each with the lines up to the next one. -/
def blocks : List Str → List (Str × List Str)
  | [] => []
  | line :: lines => if isBody line then blocks lines else (line, lines.takeWhile isBody) :: blocks lines

section
variable {lines : List Str} {pre : Str}

theorem numbers_matchesFrom (offset : Nat) (lines : List Str) :
    (matchesFrom offset lines).map (·.number) = lines.filterMap ocrMarker := by
  induction lines generalizing offset with
  | nil => rfl
  | cons line lines ih =>
    rw [matchesFrom, List.map_append, ih, List.filterMap_cons]
    cases ocrMarker line <;> simp

theorem numbers_findMarkers (text : Str) :
    (findMarkers text).map (·.number) = (PyStr.split '\n' text).filterMap ocrMarker :=
  numbers_matchesFrom 0 _

theorem ocrMarker_blocks (lines : List Str) :
    (blocks lines).map (fun b => ocrMarker b.1) = (lines.filterMap ocrMarker).map some := by
  induction lines with
  | nil => rfl
  | cons line lines ih =>
    rw [blocks, List.filterMap_cons]
    cases h : ocrMarker line with
    | none => simp [isBody, h, ih]
    | some n => simp [isBody, h, ih]

/-- Where the next match starts: after the lines that are no markers. -/
theorem head?_matchesFrom (offset : Nat) (lines : List Str) :
    ((matchesFrom offset lines).head?.map (·.start)) =
      if lines.dropWhile isBody = [] then none
      else some (offset + ((lines.takeWhile isBody).map (·.length + 1)).sum) := by
  induction lines generalizing offset with
  | nil => rfl
  | cons line lines ih =>
    cases h : ocrMarker line with
    | none =>
      have hb : isBody line = true := by simp [isBody, h]
      rw [matchesFrom, h, List.dropWhile_cons_of_pos hb, List.takeWhile_cons_of_pos hb]
      simp only [Option.toList_none, List.map_nil, List.nil_append, ih, List.map_cons, List.sum_cons]
      split
      · rfl
      · congr 1
        omega
    | some n =>
      have hb : ¬ isBody line = true := by simp [isBody, h]
      rw [matchesFrom, h, List.dropWhile_cons_of_neg hb, List.takeWhile_cons_of_neg hb]
      simp

theorem length_unlines (line : Str) (lines : List Str) :
    (unlines (line :: lines)).length = line.length + (lines.map (·.length + 1)).sum := by
  induction lines generalizing line with
  | nil => simp [unlines_singleton]
  | cons l lines ih =>
    rw [unlines_cons line (by simp), List.length_append, List.length_cons, ih]
    simp only [List.map_cons, List.sum_cons]
    omega

/-- The text from a marker line to the next match: the block, and the newline that ends it. -/
theorem slice_block (pre line : Str) (lines : List Str) :
    ∃ w : Str, (∀ c ∈ w, PyStr.isSpace c = true) ∧
      PyStr.slice (pre ++ unlines (line :: lines)) pre.length
        (((matchesFrom (pre.length + line.length + 1) lines).head?.map (·.start)).getD
          (pre ++ unlines (line :: lines)).length) = unlines (line :: lines.takeWhile isBody) ++ w := by
  rw [head?_matchesFrom]
  have hlines : lines = lines.takeWhile isBody ++ lines.dropWhile isBody := List.takeWhile_append_dropWhile.symm
  by_cases hd : lines.dropWhile isBody = []
  · refine ⟨[], nofun, ?_⟩
    rw [hd, List.append_nil] at hlines
    rw [if_pos hd, Option.getD_none, ← hlines, List.append_nil, List.length_append]
    have := PyStr.slice_shift pre (unlines (line :: lines)) 0 (unlines (line :: lines)).length
    rwa [Nat.add_zero, PyStr.slice_self] at this
  · have hspace : PyStr.isSpace '\n' = true := by decide
    refine ⟨['\n'], by simpa using hspace, ?_⟩
    have hsplit : unlines (line :: lines) =
        (unlines (line :: lines.takeWhile isBody) ++ ['\n']) ++ unlines (lines.dropWhile isBody) := by
      rw [List.append_assoc, List.singleton_append, ← unlines_append (by simp) hd, List.cons_append, ← hlines]
    have hlen := length_unlines line (lines.takeWhile isBody)
    have hstop : pre.length + line.length + 1 + ((lines.takeWhile isBody).map (·.length + 1)).sum =
        pre.length + (unlines (line :: lines.takeWhile isBody) ++ ['\n']).length := by
      rw [List.length_append, hlen, List.length_singleton]
      omega
    have hshift := PyStr.slice_shift pre (unlines (line :: lines)) 0
      (unlines (line :: lines.takeWhile isBody) ++ ['\n']).length
    rw [if_neg hd, Option.getD_some, hstop]
    rw [Nat.add_zero] at hshift
    rw [hshift, hsplit, PyStr.slice_append_left]

/-- What is cut out at each match when the cut at a marker line gives `f` of its block. -/
theorem cutPages_blocks {cut : PageMatch → Nat} {f : Str × List Str → Str}
    (hcut : ∀ (pre line : Str) (lines : List Str) (n stop : Nat) (w : Str), (∀ c ∈ w, PyStr.isSpace c = true) →
      PyStr.slice (pre ++ unlines (line :: lines)) pre.length stop = unlines (line :: lines.takeWhile isBody) ++ w →
      PyStr.strip (PyStr.slice (pre ++ unlines (line :: lines)) (cut ⟨pre.length, pre.length + line.length, n⟩) stop) =
        f (line, lines.takeWhile isBody))
    (pre : Str) (lines : List Str) :
    cutPages cut (pre ++ unlines lines) (matchesFrom pre.length lines) = (blocks lines).map f := by
  induction lines generalizing pre with
  | nil => rfl
  | cons line lines ih =>
    have hrest : cutPages cut (pre ++ unlines (line :: lines)) (matchesFrom (pre.length + line.length + 1) lines) =
        (blocks lines).map f := by
      cases lines with
      | nil => rfl
      | cons l lines =>
        have := ih (pre ++ line ++ ['\n'])
        rw [unlines_cons line (by simp)]
        simpa [Nat.add_assoc] using this
    cases h : ocrMarker line with
    | none =>
      have hb : isBody line = true := by simp [isBody, h]
      rw [matchesFrom, h, blocks, if_pos hb]
      exact hrest
    | some n =>
      have hb : ¬ isBody line = true := by simp [isBody, h]
      rw [matchesFrom, h, blocks, if_neg hb]
      obtain ⟨w, hw, hslice⟩ := slice_block pre line lines
      simp only [Option.toList_some, List.map_cons, List.map_nil, List.singleton_append, cutPages]
      rw [hcut pre line lines n _ w hw hslice, hrest]

/-- The verifier cuts at the start of the markers: a page is its block. -/
theorem cutPages_start (text : Str) : cutPages (·.start) text (findMarkers text) =
    (blocks (PyStr.split '\n' text)).map fun b => PyStr.strip (unlines (b.1 :: b.2)) := by
  have := @cutPages_blocks (·.start) (fun b => PyStr.strip (unlines (b.1 :: b.2)))
    (fun pre line lines n stop w hw hslice => by rw [hslice, PyStr.strip_append_spaces hw])
    [] (PyStr.split '\n' text)
  rwa [List.nil_append, unlines_split] at this

/-- The provider's answer is cut at the end of the markers: a value is the body of its block. -/
theorem cutPages_stop (text : Str) : cutPages (·.stop) text (findMarkers text) =
    (blocks (PyStr.split '\n' text)).map fun b => PyStr.strip (unlines b.2) := by
  have hnewline : PyStr.isSpace '\n' = true := by decide
  have := @cutPages_blocks (·.stop) (fun b => PyStr.strip (unlines b.2))
    (fun pre line lines n stop w hw hslice => by
      rw [PyStr.slice_add, hslice]
      cases hb : lines.takeWhile isBody with
      | nil =>
        rw [unlines_singleton, List.drop_left, PyStr.strip_eq_nil hw]
        rfl
      | cons l body =>
        rw [unlines_cons line (by simp), List.append_assoc, List.drop_left, List.cons_append,
          PyStr.strip_cons_space hnewline, PyStr.strip_append_spaces hw])
    [] (PyStr.split '\n' text)
  rwa [List.nil_append, unlines_split] at this

end

end CardRag
