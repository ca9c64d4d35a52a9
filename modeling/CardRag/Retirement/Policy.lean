import CardRag.Core
import CardRag.Lib.Datetime

/-! # The retirement policy (`retirement.py`)

`evaluate_retirements` classifies the documents missing from the corpus as retired, candidate or
unjustified and writes the next ledger. A double is the rational it stands for; the truncated double
product `int(baseline_total * max_ratio)` is the parameter `ratioCap`, its rounding being the
machine's. -/

namespace CardRag.Retirement

/-- `RETIREMENT_STATUSES`. -/
inductive Status where
  | candidate | retired | reinstated
deriving DecidableEq, Repr

/-- A value of `decision_inputs`; an older ledger may hold any JSON there. -/
inductive DecisionInput where
  | int (n : Int)
  | float (x : ℚ)
  | json (v : Json)

/-- `(issuer, product_code, document_type)`. -/
abbrev LineageKey := Str × Str × Str

/-- `RetirementEntry`. -/
structure Entry where
  documentId : Str
  sourceId : Str
  issuer : Str
  productCode : Str
  documentType : Str
  pdfSha256 : Str
  ocrSha256 : Option Str
  status : Status
  firstAbsentRunId : Str
  firstAbsentAt : Str
  lastObservedRunId : Str
  lastObservedAt : Str
  lastCheckedRunId : Str
  consecutiveAbsences : Int
  retiredRunId : Option Str
  retiredAt : Option Str
  reinstatedRunId : Option Str
  reinstatedAt : Option Str
  decisionInputs : List (Str × DecisionInput)

def Entry.lineageKey (e : Entry) : LineageKey := (e.issuer, e.productCode, e.documentType)

/-- `RetirementLedger`. -/
structure Ledger where
  updatedRunId : Str
  entries : List Entry
  ledgerSha256 : Str

structure AbsentDocument where
  documentId : Str
  sourceId : Str
  issuer : Str
  productCode : Str
  documentType : Str
  pdfSha256 : Str
  ocrSha256 : Option Str
  lastObservedRunId : Str
  lastObservedAt : Str
deriving DecidableEq

def AbsentDocument.lineageKey (d : AbsentDocument) : LineageKey := (d.issuer, d.productCode, d.documentType)

/-- `RetirementPolicy`, with what `__post_init__` checks. -/
structure Policy where
  graceRuns : Int
  graceDays : Int
  maxPerRun : Int
  maxRatio : ℚ
  minimumRuns : 2 ≤ graceRuns
  valid : 1 ≤ graceDays ∧ 1 ≤ maxPerRun ∧ 0 < maxRatio ∧ maxRatio ≤ 5 / 100

/-- What `_retired_record` reports. -/
structure RetiredRecord where
  consecutiveAbsences : Int
  documentId : Str
  documentType : Str
  firstAbsentRunId : Str
  issuer : Str
  lastObservedRunId : Str
  ocrSha256 : Option Str
  pdfSha256 : Str
  productCode : Str
  retiredRunId : Option Str
  revalidated : Bool
  sourceId : Str

/-- What `_candidate_record` reports. -/
structure CandidateRecord where
  consecutiveAbsences : Int
  documentId : Str
  documentType : Str
  firstAbsentRunId : Str
  issuer : Str
  lastObservedRunId : Str
  pdfSha256 : Str
  productCode : Str
  sourceId : Str

/-- `RetirementOutcome`. -/
structure Outcome where
  retired : List RetiredRecord
  candidates : List CandidateRecord
  unjustified : List (Str × Str)
  ledger : Ledger
  reinstated : List Str

def retiredRecord (entry : Entry) (already : Bool) : RetiredRecord where
  consecutiveAbsences := entry.consecutiveAbsences
  documentId := entry.documentId
  documentType := entry.documentType
  firstAbsentRunId := entry.firstAbsentRunId
  issuer := entry.issuer
  lastObservedRunId := entry.lastObservedRunId
  ocrSha256 := entry.ocrSha256
  pdfSha256 := entry.pdfSha256
  productCode := entry.productCode
  retiredRunId := entry.retiredRunId
  revalidated := already
  sourceId := entry.sourceId

def candidateRecord (entry : Entry) : CandidateRecord where
  consecutiveAbsences := entry.consecutiveAbsences
  documentId := entry.documentId
  documentType := entry.documentType
  firstAbsentRunId := entry.firstAbsentRunId
  issuer := entry.issuer
  lastObservedRunId := entry.lastObservedRunId
  pdfSha256 := entry.pdfSha256
  productCode := entry.productCode
  sourceId := entry.sourceId

/-- `_elapsed_days`: a naive time cannot be subtracted from an aware one, and nothing catches that. -/
def elapsedDays (firstAt nowAt : Str) : Except Raised Int :=
  match Datetime.fromisoformat firstAt, Datetime.fromisoformat nowAt with
  | some first, some now =>
    if first.offset.isSome = now.offset.isSome then
      return max 0 (Int.fdiv (now.micros - first.micros) (86400 * 1000000))
    else throw ⟨.typeError, "can't subtract offset-naive and offset-aware datetimes"⟩
  | _, _ => return 0

/-- The arguments of `evaluate_retirements` other than the ledger; `runStartedAt` is the start as
`astimezone(UTC)` gives it. -/
structure Inputs where
  runId : Str
  runStartedAt : Clock
  policy : Policy
  baselineTotal : Nat
  absent : List AbsentDocument
  durableOk : Str → Bool
  lineageAbsent : Str → Bool
  discoveredLineages : List LineageKey
  frozenIssuers : List Str

namespace Inputs
variable (I : Inputs) (ratioCap : Nat → ℚ → Int)

def runStamp : Str := I.runStartedAt.utcIsoformat

def ordered : List AbsentDocument :=
  PyList.sortedBy (fun item => toLex (item.issuer, toLex (item.productCode, item.documentId))) I.absent

def effectiveCap : Int :=
  let graceRunsCap := I.policy.maxPerRun
  max 1 (min graceRunsCap (if 0 < I.baselineTotal then ratioCap I.baselineTotal I.policy.maxRatio else graceRunsCap))

/-- The entry that stands for the document, unless it was reinstated. -/
def prior (previous : List (Str × Entry)) (item : AbsentDocument) : Option Entry :=
  match PyList.get? previous item.documentId with
  | some entry => if entry.status = .reinstated then none else some entry
  | none => none

/-- `absences`: resuming the same run must be idempotent. -/
def absences (prior : Option Entry) : Int :=
  match prior with
  | some entry =>
    if entry.lastCheckedRunId = I.runId then entry.consecutiveAbsences else entry.consecutiveAbsences + 1
  | none => 1

def firstRun (prior : Option Entry) : Str := (prior.map (·.firstAbsentRunId)).getD I.runId

def firstAt (prior : Option Entry) : Str := (prior.map (·.firstAbsentAt)).getD I.runStamp

def meetsGrace (prior : Option Entry) : Prop :=
  I.policy.graceRuns ≤ I.absences prior ∧ 2 ≤ I.absences prior

instance (prior : Option Entry) : Decidable (I.meetsGrace prior) := inferInstanceAs (Decidable (_ ∧ _))

/-- The entry a judged document gets. -/
def entry (item : AbsentDocument) (prior : Option Entry) (days : Int) : Entry where
  documentId := item.documentId
  sourceId := item.sourceId
  issuer := item.issuer
  productCode := item.productCode
  documentType := item.documentType
  pdfSha256 := item.pdfSha256
  ocrSha256 := item.ocrSha256
  status := if I.meetsGrace prior then .retired else .candidate
  firstAbsentRunId := I.firstRun prior
  firstAbsentAt := I.firstAt prior
  lastObservedRunId := item.lastObservedRunId
  lastObservedAt := item.lastObservedAt
  lastCheckedRunId := I.runId
  consecutiveAbsences := I.absences prior
  retiredRunId := if I.meetsGrace prior then some I.runId else none
  retiredAt := if I.meetsGrace prior then some I.runStamp else none
  reinstatedRunId := none
  reinstatedAt := none
  decisionInputs :=
    if I.meetsGrace prior then
      [("baseline_total".toList, .int I.baselineTotal), ("consecutive_absences".toList, .int (I.absences prior)),
        ("elapsed_days".toList, .int days), ("grace_days".toList, .int I.policy.graceDays),
        ("grace_runs".toList, .int I.policy.graceRuns), ("max_per_run".toList, .int I.policy.maxPerRun),
        ("max_ratio".toList, .float I.policy.maxRatio)]
    else []

/-- What the loop over the absent documents has built so far. -/
structure Progress where
  updated : List (Str × Entry)
  retired : List RetiredRecord
  candidates : List CandidateRecord
  unjustified : List (Str × Str)
  newJudgements : Int

def Progress.refuse (s : Progress) (item : AbsentDocument) (reason : String) : Progress :=
  { s with unjustified := PyList.insert item.documentId reason.toList s.unjustified }

/-- The loop body. -/
def classify (previous : List (Str × Entry)) (s : Progress) (item : AbsentDocument) : Except Raised Progress := do
  if item.issuer ∈ I.frozenIssuers then
    return s.refuse item "issuer_collection_unavailable"
  if I.durableOk item.documentId = false ∨ I.lineageAbsent item.documentId = false then
    return s.refuse item "retirement_evidence_incomplete"
  match prior previous item with
  | some e =>
    if e.status = .retired then
      return { s with retired := s.retired ++ [retiredRecord e true] }
  | none => pure ()
  let prior := prior previous item
  let days ← elapsedDays (I.firstAt prior) I.runStamp
  if I.effectiveCap ratioCap ≤ s.newJudgements then
    return s.refuse item "retirement_cap_exceeded"
  let entry := I.entry item prior days
  let s := { s with
    updated := PyList.insert entry.documentId entry s.updated
    newJudgements := s.newJudgements + 1 }
  if I.meetsGrace prior then
    return { s with retired := s.retired ++ [retiredRecord entry false] }
  return { s with candidates := s.candidates ++ [candidateRecord entry] }

/-- The lineage of an open entry is discovered again. -/
def returns (entry : Entry) : Prop :=
  entry.issuer ∉ I.frozenIssuers ∧ (entry.status = .candidate ∨ entry.status = .retired) ∧
    entry.lineageKey ∈ I.discoveredLineages

instance (entry : Entry) : Decidable (I.returns entry) := inferInstanceAs (Decidable (_ ∧ _ ∧ _))

def reinstate (entry : Entry) : Entry :=
  { entry with
    status := .reinstated
    lastCheckedRunId := I.runId
    reinstatedRunId := some I.runId
    reinstatedAt := some I.runStamp }

/-- The loop over the previous entries. -/
def reinstateAll (previous updated : List (Str × Entry)) : List (Str × Entry) :=
  previous.foldl (fun d e => if I.returns e.2 then PyList.insert e.1 (I.reinstate e.2) d else d) updated

end Inputs

def evaluateRetirements (ratioCap : Nat → ℚ → Int) (I : Inputs) (ledger : Option Ledger) : Except Raised Outcome := do
  let previous := PyList.dictOf (·.documentId) ((ledger.map (·.entries)).getD [])
  let s ← I.ordered.foldlM (I.classify ratioCap previous) ⟨previous, [], [], [], 0⟩
  return {
    retired := s.retired
    candidates := s.candidates
    unjustified := s.unjustified
    ledger := ⟨I.runId, PyList.values (I.reinstateAll previous s.updated), []⟩
    reinstated := PyList.sortedBy id ((previous.filter fun e => I.returns e.2).map (·.1)) }

end CardRag.Retirement
