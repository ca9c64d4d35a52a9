import CardRag.History.State

/-! # OCR failures and the v5 build (`pipeline.py`, `exporter_v5.py`)

The documents of a run after the OCR stage, the publication gate, the lineage checks of the v5 build
and the exporter's checks of the OCR-failed products. The lineage and revision identifiers are digests
of the fields that stand for them here. -/

namespace CardRag.Isolation

inductive Refusal where
  | ocrDocumentFailures
  | runtimeError (message : String)
  | servingDatabaseV5Error (message : String)
deriving DecidableEq

/-- An acquired document. -/
structure Document where
  lineage : Lineage
  sourceId : Str
  documentId : Str
  pdfSha256 : Str
  pdfSizeBytes : Nat
  pageCount : Nat
  temporalStatus : TemporalStatus
  supersedesDocumentId : Option Str
  isHistorical : Bool
deriving DecidableEq

/-- The product that a record of an OCR failure stands for. -/
def Lineage.product (l : Lineage) : Str × Str := (l.issuer, l.productCode)

def Document.product (d : Document) : Str × Str := Lineage.product d.lineage

/-- What `make_contract_revision_id` digests. -/
structure RevisionId where
  lineage : Lineage
  sourceId : Str
  pdfSha256 : Str
deriving DecidableEq

def Document.revisionId (d : Document) : RevisionId := ⟨d.lineage, d.sourceId, d.pdfSha256⟩

/-- `re.fullmatch(r"doc_[0-9a-f]{64}", id)` -/
def isDocumentId (id : Str) : Bool := "doc_".toList.isPrefixOf id && isSha256 (id.drop 4)

/-- `re.fullmatch(r"[a-z0-9_]{1,64}", code)` -/
def isReasonCode (code : Str) : Bool :=
  1 ≤ code.length && code.length ≤ 64 && code.all fun c => ('a' ≤ c && c ≤ 'z') || c.isDigit || c == '_'

/-- The failure of one document; the bounds are those of `OCRFailureRecord`, which is made of every
failure. -/
structure OcrFailure where
  reasonCode : Str
  reason : Str
  attempts : Nat
  isReasonCode_reasonCode : isReasonCode reasonCode = true
  reason_ne_nil : reason ≠ []
  length_reason : reason.length ≤ 256
  newline_notMem : '\n' ∉ reason
  return_notMem : '\r' ∉ reason
  attempts_pos : 0 < attempts

/-- What the acquisition hands to the OCR stage: revision history is materialised lineage by lineage,
each with the one revision that is current and the others behind it. -/
structure Corpus where
  issuers : List Str
  documents : List Document
  unsupported : List (Str × Str)
  issuers_ne_nil : issuers ≠ []
  issuer_mem : ∀ d ∈ documents, d.lineage.issuer ∈ issuers
  nodup_documentIds : (documents.map (·.documentId)).Nodup
  nodup_revisionIds : (documents.map (·.revisionId)).Nodup
  isHistorical_iff : ∀ d ∈ documents, (d.isHistorical = true ↔ d.temporalStatus ≠ .current)
  exists_current : ∀ d ∈ documents, ∃ c ∈ documents, c.lineage = d.lineage ∧ c.temporalStatus = .current
  current_unique : ∀ c ∈ documents, ∀ d ∈ documents, c.temporalStatus = .current → d.temporalStatus = .current →
    c.lineage = d.lineage → c = d
  predecessor : ∀ d ∈ documents, ∀ id, d.supersedesDocumentId = some id →
    ∃ p ∈ documents, p.documentId = id ∧ p.lineage = d.lineage ∧ p ≠ d
  isDocumentId_documentId : ∀ d ∈ documents, isDocumentId d.documentId = true
  isSha256_pdfSha256 : ∀ d ∈ documents, isSha256 d.pdfSha256 = true
  pdf_pos : ∀ d ∈ documents, 0 < d.pdfSizeBytes ∧ 0 < d.pageCount

/-- How the OCR of each document ended. -/
abbrev Split := Document → Option OcrFailure

namespace Corpus

def processed (c : Corpus) (split : Split) : List Document := c.documents.filter fun d => (split d).isNone

def failed (c : Corpus) (split : Split) : List (Document × OcrFailure) :=
  c.documents.filterMap fun d => (split d).map fun failure => (d, failure)

/-- `raw_issuer_ocr_counts`: acquired, succeeded and failed. -/
def counts (c : Corpus) (split : Split) (issuer : Str) : Nat × Nat × Nat :=
  ((c.documents.filter (·.lineage.issuer = issuer)).length,
    ((c.processed split).filter (·.lineage.issuer = issuer)).length,
    ((c.failed split).filter (·.1.lineage.issuer = issuer)).length)

/-- The OCR publication gate. -/
def gate (c : Corpus) (split : Split) : Except Refusal Unit := do
  raiseIf ((c.failed split).any (·.1.isHistorical) = true) .ocrDocumentFailures
  let closed := c.issuers.any fun issuer =>
    let (acquired, succeeded, failed) := c.counts split issuer
    acquired < 1 ∨ succeeded < 1 ∨ succeeded * 100 < acquired * 95 ∨ acquired ≠ succeeded + failed
  raiseIf (closed = true ∧ c.failed split ≠ []) .ocrDocumentFailures
  raiseIf (closed = true) (.runtimeError
    ("OCR publication gate failed: every enabled issuer requires at least one success " ++
      "and a success rate of at least 95 percent"))

end Corpus

/-! ### The lineages of the build -/

structure ContractRevisionInput where
  contractRevisionId : RevisionId
  productLineageId : Lineage
  documentId : Str
  temporalStatus : TemporalStatus
  supersedesRevisionId : Option RevisionId

/-- One pass of the loop that fills `current_lineage_rows`. -/
def noteCurrent (rows : List (Lineage × Document)) (d : Document) : Except Refusal (List (Lineage × Document)) :=
  if d.temporalStatus ≠ .current then return rows
  else do
    raiseIf (d.lineage ∈ rows.map (·.1)) (.runtimeError "v5 lineage has multiple current processed documents")
    return rows ++ [(d.lineage, d)]

/-- Two lists with the same members. -/
def sameSet {α : Type} [DecidableEq α] (xs ys : List α) : Bool := xs.all (· ∈ ys) && ys.all (· ∈ xs)

def supersedesRevisionId (processed : List Document) (d : Document) : Option RevisionId :=
  d.supersedesDocumentId.bind fun id =>
    let revision := (PyList.get? (PyList.dictOf (·.documentId) processed) id).map (·.revisionId)
    if id = d.documentId ∨ revision = some d.revisionId then none else revision

def revisionRows (processed : List Document) : List ContractRevisionInput :=
  processed.map fun d =>
    ⟨d.revisionId, d.lineage, d.documentId, d.temporalStatus, supersedesRevisionId processed d⟩

/-- The lineages of the generation and its revisions. -/
def buildLineages (processed : List Document) : Except Refusal (List Lineage × List ContractRevisionInput) := do
  raiseIf (processed = []) (.runtimeError "v5 generation requires at least one structured document")
  let current ← processed.foldlM noteCurrent []
  raiseIf (sameSet (current.map (·.1)) (processed.map (·.lineage)) = false)
    (.runtimeError "v5 lineage does not have exactly one proven current revision")
  raiseIf (processed.any fun d => d.supersedesDocumentId ≠ none ∧ supersedesRevisionId processed d = none)
    (.runtimeError "v5 revision predecessor is absent from the sealed generation")
  return (current.map (·.1), revisionRows processed)

/-! ### The OCR-failed products of the export -/

structure OCRFailedProductInput where
  issuer : Str
  productCode : Str
  documentId : Str
  pdfSha256 : Str
  pdfSizeBytes : Nat
  pageCount : Nat
  reasonCode : Str
  reason : Str
  attempts : Nat

def OCRFailedProductInput.identity (f : OCRFailedProductInput) : Str × Str := (f.issuer, f.productCode)

/-- A row of `failed_rows`. -/
def failedRow (f : Document × OcrFailure) : OCRFailedProductInput where
  issuer := f.1.lineage.issuer
  productCode := f.1.lineage.productCode
  documentId := f.1.documentId
  pdfSha256 := f.1.pdfSha256
  pdfSizeBytes := f.1.pdfSizeBytes
  pageCount := f.1.pageCount
  reasonCode := f.2.reasonCode
  reason := f.2.reason
  attempts := f.2.attempts

/-- The bounds that a row has to keep by itself. -/
def OCRFailedProductInput.bounded (f : OCRFailedProductInput) : Bool :=
  isDocumentId f.documentId ∧ 0 < f.pdfSizeBytes ∧ 0 < f.pageCount ∧ isReasonCode f.reasonCode ∧ f.reason ≠ [] ∧
    f.reason.length ≤ 256 ∧ '\n' ∉ f.reason ∧ '\r' ∉ f.reason ∧ 0 < f.attempts

/-- One pass of the loop over `ocr_failed_products`; `seen` are `failed_identities` and
`failed_document_ids`. -/
def validateFailed (issuers : List Str) (lineages : List Lineage) (unsupported : List (Str × Str))
    (seen : List (Str × Str) × List Str) (f : OCRFailedProductInput) : Except Refusal (List (Str × Str) × List Str) := do
  raiseIf
    (f.identity ∈ seen.1 ∨ f.identity ∈ unsupported ∨ f.identity ∈ lineages.map Lineage.product ∨
      f.issuer ∉ issuers ∨ f.documentId ∈ seen.2 ∨ f.bounded = false)
    (.servingDatabaseV5Error "OCR-failed product contains an invalid bounded value")
  raiseIf (isSha256 f.pdfSha256 = false) (.servingDatabaseV5Error "OCR-failed pdf_sha256 must be a lowercase sha256")
  return (seen.1 ++ [f.identity], seen.2 ++ [f.documentId])

/-- The lineage checks of the pipeline, then the OCR-failed checks of the exporter. -/
def build (c : Corpus) (split : Split) : Except Refusal (List Lineage × List ContractRevisionInput) := do
  let (lineages, revisions) ← buildLineages (c.processed split)
  let seen ← ((c.failed split).map failedRow).foldlM (validateFailed c.issuers lineages c.unsupported) ([], [])
  raiseIf (revisions.any fun r => r.documentId ∈ seen.2)
    (.servingDatabaseV5Error "an OCR-failed document cannot also be an active revision")
  return (lineages, revisions)

end CardRag.Isolation
