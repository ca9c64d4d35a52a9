import CardRag.Lib.Pattern
import CardRag.Lib.Datetime
import CardRag.Lib.PyList

/-! # Launch dates

`resolve_launch_date_segments` (`derived_metadata.py`): the launch date of a revision from the text
segments of its structure. Each window of one or two adjoining segments is read by two patterns;
every reading not seen before is kept as evidence, and the status follows from the dates read. At
most eight pieces of evidence are returned.

`nfkc` is `unicodedata.normalize("NFKC", ·)`. -/

namespace CardRag.Launch
open PyStr

/-- One source-backed unit in document order. -/
structure DerivedTextSegment where
  text : Str
  nodeId : Option Str := none
  page : Option Nat := none
  sourceStart : Option Nat := none
  sourceEnd : Option Nat := none
  textSha256 : Option Str := none
  groupId : Option Str := none
  continuationFromPrevious : Bool := false
deriving DecidableEq, Repr

inductive MatchKind where
  | explicitLabel
  | dateBeforeLaunch
deriving DecidableEq, Repr

inductive LaunchDateStatus where
  | confirmed
  | missing
  | invalid
  | conflicting
deriving DecidableEq, Repr

structure LaunchDateEvidence where
  candidateOrdinal : Nat
  matchKind : MatchKind
  normalizedValue : Option Str
  excerpt : Str
  segments : List DerivedTextSegment
deriving DecidableEq, Repr

structure LaunchDateResolution where
  launchDate : Option Date
  status : LaunchDateStatus
  evidence : List LaunchDateEvidence := []
deriving DecidableEq, Repr

section patterns
open Pattern

def isDigit (c : Char) : Bool := c.isDigit

/-- `[0-9A-Za-z가-힣]` -/
def isWord (c : Char) : Bool := c.isDigit || c.isAlpha || ('가' ≤ c && c ≤ '힣')

/-- A full stop, a hyphen or a slash. -/
def isDot (c : Char) : Bool := c == '.' || c == '-' || c == '/'

/-- `[\s:：()\[\]{}\-–—•·|]*` -/
def separators : Pattern :=
  many (fun c => isSpace c || ":：()[]\x7b\x7d-–—•·|".toList.contains c) 0 none

def date : Pattern :=
  seq (group "year".toList (many isDigit 4 (some 4))) <| seq ws <|
  seq (alt (seq (lit "년") ws) (seq (one isDot) ws)) <|
  seq (group "month".toList (many isDigit 1 (some 3))) <| seq ws <|
  seq (alt (seq (lit "월") ws) (seq (one isDot) ws)) <|
  seq (group "day".toList (many isDigit 1 (some 3))) <| seq (opt (seq ws (lit "일"))) <|
  notAhead (alt (one isWord) (seq (lit ".") (one isDigit)))

/-- `일자?` -/
def dayWord : Pattern := seq (lit "일") (opt (lit "자"))

def label : Pattern :=
  seq (opt (seq (lit "상품") ws)) <|
  alt (seq (lit "출시") (seq ws dayWord)) <|
  alt (seq (lit "발매") (seq ws dayWord)) <|
  alt (seq (lit "판매") (seq ws (seq (lit "개시") (seq ws dayWord)))) <|
  seq (lit "신규") (seq ws (lit "출시"))

def labelPattern : Pattern := seq label (seq separators date)

def beforePattern : Pattern :=
  seq (notBehind isWord) <| seq date <| seq ws <| seq (opt (seq (lit "신규") ws)) (lit "출시")

def negativeDateLabel : Pattern :=
  seq (alt (lit "개정") <| alt (lit "시행") <| alt (lit "효력") <|
    alt (seq (lit "약관") (seq ws (lit "변경"))) (seq (lit "서비스") (seq ws (lit "시작")))) <|
  seq ws <| seq dayWord <| seq ws <| seq (opt (one fun c => c == ':' || c == '：')) <| seq ws atEnd

def twoDigitExplicit : Pattern :=
  seq label <| seq separators <| seq (opt (one fun c => "’'`".toList.contains c)) <|
  seq (many isDigit 2 (some 2)) (one isDot)

def splitLabelEnd : Pattern := seq label (seq separators atEnd)

def splitDateStart : Pattern := seq atStart (seq separators date)

end patterns

section
variable (nfkc : Str → Str)

def normalized (value : Str) : Str := (nfkc value).filter (· != '\u200b')

/-- The date of a match of `date`, if it is one of the years 1900 to 2099. -/
def candidate (m : Pattern.Match) : Option Date :=
  let year := m.group "year".toList
  let month := m.group "month".toList
  let day := m.group "day".toList
  match Date.mk? (Clock.number year) (Clock.number month) (Clock.number day) with
  | none => none
  | some parsed =>
    if month.length > 2 ∨ day.length > 2 ∨ ¬ (1900 ≤ parsed.year ∧ parsed.year ≤ 2099) then none
    else some parsed

def canJoin (left right : DerivedTextSegment) : Bool :=
  if left.groupId ≠ none ∧ left.groupId = right.groupId then true
  else if right.continuationFromPrevious then true
  else if left.page = none ∨ right.page ≠ left.page ∨ left.sourceEnd = none ∨
      right.sourceStart ≠ left.sourceEnd then false
  else
    (splitLabelEnd.search (strip (normalized nfkc left.text))).isSome &&
      (splitDateStart.search (strip (normalized nfkc right.text))).isSome

/-- `_windows`: every segment, and every segment with the next one it can be joined to. -/
def windows : List DerivedTextSegment → List (List DerivedTextSegment)
  | [] => []
  | [segment] => [[segment]]
  | segment :: next :: rest =>
    if canJoin nfkc segment next then [segment] :: [segment, next] :: windows (next :: rest)
    else [segment] :: windows (next :: rest)

/-- `" ".join(words)` -/
def joinWords (words : List Str) : Str := [' '].intercalate words

def excerpt (text : Str) (start stop : Nat) : Str :=
  (joinWords (PyStr.words (slice text (start - 40) (stop + 80)))).take 240

/-- The text of a window. -/
def windowText (window : List DerivedTextSegment) : Str :=
  strip (joinWords (window.map fun segment => strip (normalized nfkc segment.text)))

/-- `any(token in text for token in ("출시", "발매", "판매"))` -/
def mentionsLaunch (text : Str) : Bool :=
  ["출시", "발매", "판매"].any fun token => PyStr.contains token.toList text

/-- What makes two readings the same: the kind, the date and the nodes. -/
abbrev Key := MatchKind × Option Str × List (Option Str)

instance : LawfulBEq Key := inferInstance

/-- The state of the scan; `validDates` is a set. -/
structure Scan where
  evidence : List LaunchDateEvidence := []
  seen : List Key := []
  validDates : List Date := []
  invalid : Bool := false

/-- One match of one pattern. -/
def Scan.addMatch (window : List DerivedTextSegment) (text : Str) (kind : MatchKind) (s : Scan)
    (m : Pattern.Match) : Scan :=
  let before := slice text (m.start - 24) m.start
  if (negativeDateLabel.search before).isSome then s
  else
    let parsed := candidate m
    let normalizedValue := parsed.map Date.isoformat
    let key := (kind, normalizedValue, window.map (·.nodeId))
    if key ∈ s.seen then s
    else
      { evidence := s.evidence ++
          [⟨s.evidence.length, kind, normalizedValue, excerpt text m.start m.stop, window⟩]
        seen := key :: s.seen
        validDates := match parsed with
          | none => s.validDates
          | some d => s.validDates.insert d
        invalid := s.invalid || parsed.isNone }

/-- The check for a launch label before a date with a two-digit year. -/
def Scan.addTwoDigit (window : List DerivedTextSegment) (text : Str) (s : Scan) : Scan :=
  if (twoDigitExplicit.search text).isSome then
    let key : Key := (.explicitLabel, none, window.map (·.nodeId))
    if key ∈ s.seen then { s with invalid := true }
    else
      { s with
        evidence := s.evidence ++
          [⟨s.evidence.length, .explicitLabel, none, (joinWords (PyStr.words text)).take 240, window⟩]
        seen := key :: s.seen
        invalid := true }
  else s

def kinds : List (MatchKind × Pattern) :=
  [(.explicitLabel, labelPattern), (.dateBeforeLaunch, beforePattern)]

def Scan.addWindow (s : Scan) (window : List DerivedTextSegment) : Scan :=
  let text := windowText nfkc window
  if text = [] ∨ mentionsLaunch text = false then s
  else
    let s := kinds.foldl (fun s (kind, pattern) => (pattern.finditer text).foldl (Scan.addMatch window text kind) s) s
    s.addTwoDigit window text

def resolveLaunchDateSegments (segments : List DerivedTextSegment) : LaunchDateResolution :=
  let s := (windows nfkc segments).foldl (Scan.addWindow nfkc) {}
  if 1 < s.validDates.length then ⟨none, .conflicting, s.evidence.take 8⟩
  else match s.validDates with
    | d :: _ => ⟨some d, .confirmed, s.evidence.take 8⟩
    | [] => if s.invalid then ⟨none, .invalid, s.evidence.take 8⟩ else ⟨none, .missing, []⟩

end

end CardRag.Launch
