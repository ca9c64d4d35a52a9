import CardRag.Structure.Model

/-! # Source lines and their classification

`_source_lines` cuts a page into lines with their offsets; the other functions decide what a line
is: a page marker, repeated boilerplate, a table row, a heading, a list item or a footnote. -/

namespace CardRag

structure SourceLine where
  page : Nat
  sourceStart : Nat
  sourceEnd : Nat
  text : Str
deriving DecidableEq, Repr

def SourceLine.visible (line : SourceLine) : Str :=
  PyStr.rstripBy (fun c => c == '\r' || c == '\n') line.text

def SourceLine.span (H : Sha256) (line : SourceLine) : NodeSpan :=
  ⟨line.page, line.sourceStart, line.sourceEnd, H.hexdigest line.text, 0, true⟩

/-- `(line.page, line.source_start, line.source_end)`. -/
def SourceLine.key (line : SourceLine) : Nat × Nat × Nat := (line.page, line.sourceStart, line.sourceEnd)

/-- `_span_with_ordinal(span, ordinal, is_canonical=…)`; `none` keeps the flag. -/
def NodeSpan.withOrdinal (span : NodeSpan) (ordinal : Nat) (isCanonical : Option Bool) : NodeSpan :=
  { span with spanOrdinal := ordinal, isCanonical := isCanonical.getD span.isCanonical }

/-- The lines of consecutive texts, the first of which starts at `offset`. -/
def linesFrom (page : Nat) : Nat → List Str → List SourceLine
  | _, [] => []
  | offset, text :: texts =>
    ⟨page, offset, offset + text.length, text⟩ :: linesFrom page (offset + text.length) texts

def sourceLines (page : PageRecord) : List SourceLine :=
  let texts := PyStr.splitlines page.text
  let offset := (texts.map List.length).sum
  linesFrom page.page 0 texts ++
    if offset < page.text.length then
      [⟨page.page, offset, page.text.length, page.text.drop offset⟩]
    else []

/-! ### Patterns -/

section
open Regex

/-- `_PAGE_MARKER`: the page number of a `## Page N` line. -/
def pageMarker (stripped : Str) : Option Nat :=
  let pattern : Regex := .seq (lit "## Page ".toList)
    (.seq (.cls fun c => c.isDigit && c != '0') (.seq (.star (.cls Char.isDigit)) (.star space)))
  if pattern.fullmatch stripped then
    some (Nat.ofDigitChars 10 ((stripped.drop 8).takeWhile Char.isDigit) 0)
  else none

/-- `_MARKDOWN_HEADING`: the number of hash signs. -/
def markdownHeading (stripped : Str) : Option Nat :=
  let pattern : Regex := .seq (between (lit ['#']) 1 5)
    (.seq (plus (oneOf " \t")) (.seq (plus (.cls (· != '\n'))) (.star space)))
  if pattern.fullmatch stripped then some (stripped.takeWhile (· == '#')).length else none

variable (U : Unicode)

/-- `\d`. -/
def digit : Regex := .cls U.isDecimal

/-- `_LIST_ITEM`. -/
def isListItem (text : Str) : Bool :=
  prefixMatch (.seq (.star space) (.seq
    (.alt (oneOf "-+*") (.alt (.seq (plus (digit U)) (oneOf ".)"))
      (.seq (.cls fun c => '가' ≤ c && c ≤ '힣') (oneOf ".)"))))
    (.seq (plus space) nonSpace))) text

/-- `_FOOTNOTE`. After one to three asterisks the look-ahead leaves only a character that is neither
white space nor an asterisk, which is then the required visible character. -/
def isFootnote (text : Str) : Bool :=
  let mark : Regex := .alt (lit ['※'])
    (.alt (.seq (lit ['[']) (.seq (plus (digit U)) (lit [']'])))
      (.alt (.seq (lit ['주']) (.seq (.star space) (oneOf "):."))) (oneOf "¹²³⁴⁵⁶⁷⁸⁹")))
  prefixMatch (.seq (.star space) (.alt (.seq mark (.seq (.star space) nonSpace))
    (.seq (between (lit ['*']) 1 2) (.cls fun c => !PyStr.isSpace c && c != '*')))) text

/-- `_MARKDOWN_BULLET`. -/
def isMarkdownBullet (text : Str) : Bool :=
  prefixMatch (.seq (.star space) (.seq (oneOf "-+*") (.seq (plus space) nonSpace))) text

/-- `_TABLE_SEPARATOR_CELL`. -/
def isSeparatorCell (cell : Str) : Bool :=
  fullmatch (.seq (opt (lit [':'])) (.seq (atLeast (lit ['-']) 3) (opt (lit [':'])))) cell

/-- `_PAGE_COUNTER`, ignoring case. -/
def isPageCounter (stripped : Str) : Bool :=
  let letter (s : String) : Regex := oneOf s
  let page : Regex := .seq (letter "pP") (.seq (letter "aA") (.seq (letter "gG") (letter "eE")))
  let label : Regex := .seq (.alt page (lit "페이지".toList)) (.star space)
  let total : Regex := .seq (.alt (lit ['/']) (.seq (letter "oO") (letter "fF")))
    (.seq (.star space) (plus (digit U)))
  fullmatch (.seq (.star space) (.seq (opt (lit ['-'])) (.seq (.star space) (.seq (opt label)
    (.seq (plus (digit U)) (.seq (.star space) (.seq (opt total)
      (.seq (.star space) (.seq (opt (lit ['-'])) (.star space)))))))))) stripped

/-- `^(?:혜택|서비스)\s*\d+\s*[.)-]?`. -/
def isNumberedHeading (stripped : Str) : Bool :=
  prefixMatch (.seq (.alt (lit "혜택".toList) (lit "서비스".toList))
    (.seq (.star space) (.seq (plus (digit U)) (.seq (.star space) (opt (oneOf ".)-")))))) stripped

end

/-! ### Classification -/

section
variable (U : Unicode)

def majorClass (text : Str) (profile : IssuerParserProfile) : MajorClass :=
  let normalized := U.casefold text
  let benefit := profile.benefitTerms.any fun term => PyStr.contains (U.casefold term) normalized
  let notice := profile.noticeTerms.any fun term => PyStr.contains (U.casefold term) normalized
  match benefit, notice with
  | true, true => .mixed
  | true, false => .benefit
  | false, true => .notice
  | false, false => .unknown

def inheritedClass (text : Str) (profile : IssuerParserProfile) (inherited : MajorClass) : MajorClass :=
  let classified := majorClass U text profile
  if classified = .unknown then inherited else classified

inductive HeadingKind where
  | major | item
deriving DecidableEq, Repr

def headingKind (text : Str) (profile : IssuerParserProfile) : Option HeadingKind :=
  let stripped := PyStr.strip text
  match markdownHeading stripped with
  | some hashes => some (if hashes ≤ 2 then .major else .item)
  | none =>
    if stripped = [] || 120 < stripped.length || stripped.contains '|' then none
    else if isMarkdownBullet text || isFootnote U text then none
    else if profile.majorPrefixes.any (·.isPrefixOf stripped) then some .major
    else if profile.itemPrefixes.any (·.isPrefixOf stripped) then some .item
    else if isNumberedHeading U stripped then some .item
    else if ("**".toList.isPrefixOf stripped || "[".toList.isPrefixOf stripped) &&
        ("**".toList.isSuffixOf stripped || "]".toList.isSuffixOf stripped) then some .item
    else if majorClass U stripped profile ≠ .unknown && stripped.length ≤ 45 &&
        !("다.".toList.isSuffixOf stripped || "요.".toList.isSuffixOf stripped) then some .major
    else none

def tableCells (text : Str) : List Str :=
  (PyStr.split '|' (PyStr.stripBy (· == '|') (PyStr.strip text))).map PyStr.strip

def isTableLine (text : Str) : Bool := 2 ≤ (PyStr.strip text).count '|'

def isTableSeparator (cells : List Str) : Bool := cells ≠ [] && cells.all isSeparatorCell

theorem tableCells_ne_nil (text : Str) : tableCells text ≠ [] := by
  simp only [tableCells, ne_eq, List.map_eq_nil_iff]
  exact PyStr.split_ne_nil _ _

def pageCounterKey : Str := "<page-counter>".toList

def edgeKey (text : Str) : Str :=
  let stripped := [' '].intercalate (PyStr.words (U.casefold (PyStr.strip text)))
  if isPageCounter U stripped then pageCounterKey else stripped

def looksLikeBoilerplate (text : Str) (profile : IssuerParserProfile) : Bool :=
  let normalized := edgeKey U text
  if normalized = [] || 120 < normalized.length then false
  else if normalized = pageCounterKey || (pageMarker (PyStr.strip text)).isSome then true
  else if profile.issuerMarkers.any fun m => PyStr.contains (U.casefold m) normalized then true
  else PyStr.contains "상품설명서".toList normalized || PyStr.contains "상품 안내".toList normalized

inductive Edge where
  | header | footer
deriving DecidableEq, Repr

/-- The bound of a Python slice of a sequence of `n` elements. -/
def sliceBound (n : Nat) (i : Int) : Nat := if i < 0 then (n + i).toNat else min i.toNat n

/-- The entries that one page adds to `occurrences` of `_repeated_edge_lines`. -/
def edgeOccurrences (lines : List SourceLine) (profile : IssuerParserProfile) :
    List ((Edge × Str) × SourceLine) :=
  let nonBlank := lines.filter fun line => PyStr.strip line.visible ≠ []
  let header := nonBlank.take (sliceBound nonBlank.length profile.edgeLineWindow)
  let footer := nonBlank.drop (sliceBound nonBlank.length (-profile.edgeLineWindow))
  let candidates := header.map (Edge.header, ·) ++ footer.map (Edge.footer, ·)
  (candidates.filter fun (_, line) =>
    edgeKey U line.visible ≠ [] && looksLikeBoilerplate U line.visible profile).map
    fun (edge, line) => ((edge, edgeKey U line.visible), line)

/-- `_repeated_edge_lines(page_lines, profile)`: the lines of every edge key that two pages share. -/
def repeatedEdgeLines (pageLines : List (List SourceLine)) (profile : IssuerParserProfile) :
    List (Nat × Nat × Nat) :=
  let occurrences := pageLines.flatMap (edgeOccurrences U · profile)
  let pageMembers (key : Edge × Str) : List Nat :=
    ((occurrences.filter (·.1 = key)).map (·.2.page)).dedup
  (occurrences.filter fun (key, _) => 2 ≤ (pageMembers key).length).map (·.2.key)

end

instance lawfulBEqTriple : LawfulBEq (Nat × Nat × Nat) := inferInstance

/-- A line that becomes boilerplate: a repeated edge line or a page marker. -/
def isBoilerplateLine (boilerplate : List (Nat × Nat × Nat)) (line : SourceLine) : Bool :=
  line.key ∈ boilerplate || (pageMarker (PyStr.strip line.visible)).isSome

/-- A line that the parser passes over when it looks for the next table line: blank, repeated
boilerplate or a page marker. -/
def isPassedOver (boilerplate : List (Nat × Nat × Nat)) (line : SourceLine) : Bool :=
  let stripped := PyStr.strip line.visible
  stripped = [] || line.key ∈ boilerplate || (pageMarker stripped).isSome

/-- `_next_table_line_is_separator(lines, current_index, boilerplate_lines)`, on the lines after the
current one. -/
def nextTableLineIsSeparator (boilerplate : List (Nat × Nat × Nat)) (rest : List SourceLine) : Bool :=
  match rest.find? fun line => !isPassedOver boilerplate line with
  | none => false
  | some line => isTableLine line.visible && isTableSeparator (tableCells line.visible)

/-! ### The lines of a page partition its text -/

theorem linesFrom_text (page : Nat) (offset : Nat) (texts : List Str) :
    (linesFrom page offset texts).map (·.text) = texts := by
  induction texts generalizing offset with
  | nil => rfl
  | cons t ts ih => simp [linesFrom, ih]

theorem sourceLines_eq (page : PageRecord) :
    sourceLines page = linesFrom page.page 0 (PyStr.splitlines page.text) := by
  have h : ((PyStr.splitlines page.text).map List.length).sum = page.text.length := by
    rw [← List.length_flatten, PyStr.splitlines_flatten]
  simp [sourceLines, h]

end CardRag
