import CardRag.Launch.Readings
import CardRag.Structure.Validate

/-! # Launch-date evidence in a generation

How the pipeline writes a resolution as rows of `derived_field_evidence`, and the two checks the rows
of a revision have to pass: the exporter's (`_validate_inputs`) and the server's
(`_validate_v6_launch_dates`). All rows are of one revision and of the field `launch_date`. -/

namespace CardRag.Launch
open PyStr

/-- The pages and the nodes of a revision with their spans, as the validated structure has them. -/
structure SourceNodes (H : Sha256) where
  pages : List StructurePage
  /-- `nodes_by_id`, with the spans of each node -/
  nodes : List (Str × List NodeSpan)
  bound : ∀ node ∈ nodes, ∀ span ∈ node.2, ∃ page, pageByNumber pages span.page = some page ∧
    span.sourceStart < span.sourceEnd ∧ span.sourceEnd ≤ page.text.length ∧
    H.hexdigest (slice page.text span.sourceStart span.sourceEnd) = span.textSha256

/-- A row of `derived_field_evidence`. -/
structure DerivedFieldEvidence where
  candidateOrdinal : Nat
  spanOrdinal : Nat
  matchKind : MatchKind
  normalizedValue : Option Str
  nodeId : Str
  page : Nat
  sourceStart : Nat
  sourceEnd : Nat
  textSha256 : Str
deriving DecidableEq, Repr

def evidenceRow (c : LaunchDateEvidence) (nodeId : Str) (spanOrdinal : Nat) (span : NodeSpan) : DerivedFieldEvidence :=
  ⟨c.candidateOrdinal, spanOrdinal, c.matchKind, c.normalizedValue, nodeId, span.page, span.sourceStart,
    span.sourceEnd, span.textSha256⟩

/-- The rows of one more segment: a row for each span of its node. -/
def addSegment (nodes : List (Str × List NodeSpan)) (c : LaunchDateEvidence) (rows : List DerivedFieldEvidence)
    (segment : DerivedTextSegment) : Except Raised (List DerivedFieldEvidence) :=
  match segment.nodeId with
  | none => pure rows
  | some nodeId =>
    match PyList.get? nodes nodeId with
    | none => throw ⟨.keyError, "nodes_by_id"⟩
    -- the span ordinal counts the rows of the candidate so far
    | some spans => pure (rows ++ spans.mapIdx fun i span => evidenceRow c nodeId (rows.length + i) span)

def candidateRows (nodes : List (Str × List NodeSpan)) (c : LaunchDateEvidence) :
    Except Raised (List DerivedFieldEvidence) :=
  c.segments.foldlM (addSegment nodes c) []

def evidenceRows (nodes : List (Str × List NodeSpan)) (evidence : List LaunchDateEvidence) :
    Except Raised (List DerivedFieldEvidence) := do
  let rows ← evidence.mapM (candidateRows nodes)
  pure rows.flatten

def databaseError (message : String) : Raised := ⟨.servingDatabaseError, message⟩

/-- `date.fromisoformat(value)` returns, and its `isoformat()` is `value` again. -/
def checkCanonicalDate (value : Str) (invalid notCanonical : String) : Except Raised Unit :=
  match Date.fromisoformat value with
  | none => throw (databaseError invalid)
  | some d => raiseIf (d.isoformat ≠ value) (databaseError notCanonical)

/-- `normalized_values`, a set. -/
def normalizedValues (rows : List DerivedFieldEvidence) : Finset Str := (rows.filterMap (·.normalizedValue)).toFinset

/-- `normalized_values != {launch_date}` -/
def differsFrom (rows : List DerivedFieldEvidence) (launchDate : Option Str) : Prop :=
  (normalizedValues rows).image some ≠ {launchDate}

instance (rows : List DerivedFieldEvidence) (launchDate : Option Str) : Decidable (differsFrom rows launchDate) :=
  inferInstanceAs (Decidable (_ ≠ _))

/-- The span ordinals of a candidate, in the order of the rows. -/
def spanOrdinals (rows : List DerivedFieldEvidence) (candidate : Nat) : List Nat :=
  (rows.filter fun row => row.candidateOrdinal = candidate).map (·.spanOrdinal)

section
variable {H : Sha256} (src : SourceNodes H)

/-! ### The exporter -/

/-- The checks of one row by `_validate_inputs`. -/
def validateInputRow (row : DerivedFieldEvidence) : Except Raised Unit := do
  match PyList.get? src.nodes row.nodeId, pageByNumber src.pages row.page with
  | some spans, some page => do
    raiseIf (row.sourceEnd ≤ row.sourceStart ∨ row.sourceEnd > page.text.length)
      (databaseError "derived field evidence contains an invalid bounded value")
    raiseIf (H.hexdigest (slice page.text row.sourceStart row.sourceEnd) ≠ row.textSha256)
      (databaseError "derived field evidence hash does not match source text")
    raiseIf (¬ ∃ span ∈ spans, span.page = row.page ∧ span.sourceStart = row.sourceStart ∧
        span.sourceEnd = row.sourceEnd ∧ span.textSha256 = row.textSha256)
      (databaseError "derived field evidence does not match its node span")
    match row.normalizedValue with
    | none => pure ()
    | some value =>
      checkCanonicalDate value "derived field evidence date is invalid" "derived field evidence date is not canonical"
  | _, _ => throw (databaseError "derived field evidence is not source-bound")

/-- The part of `_validate_inputs` about the launch date of a revision and its evidence. -/
def validateInputs (launchDate : Option Str) (status : LaunchDateStatus) (rows : List DerivedFieldEvidence) :
    Except Raised Unit := do
  match status, launchDate with
  | .confirmed, none => throw (databaseError "confirmed launch date is missing")
  | .confirmed, some value =>
    checkCanonicalDate value "contract revision launch_date is invalid" "contract revision launch_date is not canonical"
  | _, _ => raiseIf (launchDate ≠ none) (databaseError "unconfirmed launch date must be null")
  rows.forM (validateInputRow src)
  (rows.map (·.candidateOrdinal)).dedup.forM fun candidate =>
    raiseIf (PyList.sortedBy id (spanOrdinals rows candidate) ≠ List.range (spanOrdinals rows candidate).length)
      (databaseError "derived field evidence spans are not contiguous")
  let candidates := PyList.sortedSet (rows.map (·.candidateOrdinal))
  raiseIf (candidates ≠ [] ∧ candidates ≠ List.range candidates.length)
    (databaseError "derived field evidence candidates are not contiguous")
  match status with
  | .confirmed => raiseIf (differsFrom rows launchDate) (databaseError "confirmed launch date differs from its evidence")
  | .missing => raiseIf (rows ≠ []) (databaseError "missing launch date unexpectedly has evidence")
  | .invalid =>
    raiseIf (rows = [] ∨ normalizedValues rows ≠ ∅) (databaseError "invalid launch date evidence is inconsistent")
  | .conflicting =>
    raiseIf ((normalizedValues rows).card < 2) (databaseError "conflicting launch date lacks distinct evidence")

/-! ### The server -/

/-- A row that the query for unbound evidence selects. -/
def unbound (row : DerivedFieldEvidence) : Bool :=
  match PyList.get? src.nodes row.nodeId, pageByNumber src.pages row.page with
  | _, none => false
  | none, some _ => true
  | some spans, some page =>
    decide (¬ ∃ span ∈ spans, span.page = row.page ∧ span.sourceStart = row.sourceStart ∧
      span.sourceEnd = row.sourceEnd ∧ span.textSha256 = row.textSha256) ||
    decide (row.sourceEnd ≤ row.sourceStart) || decide (row.sourceEnd > page.text.length) ||
    decide (row.textSha256.length ≠ 64)

/-- The checks of one row the server reads, joined with its page. -/
def validateV6Row (row : DerivedFieldEvidence) : Except Raised Unit :=
  match pageByNumber src.pages row.page with
  | none => pure ()
  | some page => do
    raiseIf (H.hexdigest (slice page.text row.sourceStart row.sourceEnd) ≠ row.textSha256)
      (databaseError "derived field evidence source hash differs")
    match row.normalizedValue with
    | none => pure ()
    | some value =>
      checkCanonicalDate value "derived field evidence date is invalid" "derived field evidence date is not canonical"

/-- `ORDER BY candidate_ordinal, span_ordinal` of the rows that have a page. -/
def orderedRows (rows : List DerivedFieldEvidence) : List DerivedFieldEvidence :=
  PyList.sortedBy (fun row => toLex (row.candidateOrdinal, row.spanOrdinal))
    (rows.filter fun row => (pageByNumber src.pages row.page).isSome)

/-- `_validate_v6_launch_dates` for one revision. -/
def validateV6LaunchDates (launchDate : Option Str) (status : LaunchDateStatus) (rows : List DerivedFieldEvidence) :
    Except Raised Unit := do
  match status, launchDate with
  | .confirmed, none => throw (databaseError "confirmed launch date is null")
  | .confirmed, some value =>
    checkCanonicalDate value "confirmed launch date is invalid" "confirmed launch date is not canonical"
  | _, _ => raiseIf (launchDate ≠ none) (databaseError "unconfirmed launch date is not null")
  raiseIf (rows.any (unbound src) = true) (databaseError "derived field evidence is not source-bound")
  let rows := orderedRows src rows
  rows.forM (validateV6Row src)
  (rows.map (·.candidateOrdinal)).dedup.forM fun candidate =>
    raiseIf (spanOrdinals rows candidate ≠ List.range (spanOrdinals rows candidate).length)
      (databaseError "derived field evidence spans are not contiguous")
  let candidates := PyList.sortedSet (rows.map (·.candidateOrdinal))
  raiseIf (candidates ≠ [] ∧ candidates ≠ List.range candidates.length)
    (databaseError "derived field evidence candidates are not contiguous")
  raiseIf (status = .confirmed ∧ differsFrom rows launchDate)
    (databaseError "confirmed launch date differs from its evidence")
  raiseIf (status = .missing ∧ rows ≠ []) (databaseError "missing launch date unexpectedly has evidence")
  raiseIf (status = .invalid ∧ (rows = [] ∨ normalizedValues rows ≠ ∅))
    (databaseError "invalid launch date evidence is inconsistent")
  raiseIf (status = .conflicting ∧ (normalizedValues rows).card < 2)
    (databaseError "conflicting launch date lacks distinct evidence")

/-- The rows the pipeline writes for the segments pass both checks. -/
def Published (nfkc : Str → Str) (segments : List DerivedTextSegment) : Prop :=
  let r := resolveLaunchDateSegments nfkc segments
  ∃ rows, evidenceRows src.nodes r.evidence = .ok rows ∧
    validateInputs src (r.launchDate.map Date.isoformat) r.status rows = .ok () ∧
    validateV6LaunchDates src (r.launchDate.map Date.isoformat) r.status rows = .ok ()

end

end CardRag.Launch
