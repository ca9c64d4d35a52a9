import CardRag.Core
import CardRag.Lib.Datetime

/-! # The PDF cache of the worker (`state.py`)

The three tables of the PDF cache and the two transactions that write them: `record_pdf_cache_object`
stores the identity of a downloaded file, `bind_pdf_cache_source` ties a discovered source to the
bytes it now has. A table is the list of its rows; the `revision_id` of a new revision is one more
than the largest, as SQLite assigns an `INTEGER PRIMARY KEY`. Time stamps are the texts the columns
hold, compared as texts. -/

namespace CardRag

/-- The argument `observed_at` or `verified_at`, or the time of the call when it is `None`. An aware
value is given by its clock in UTC. -/
inductive Moment where
  | naive
  | aware (utc : Clock)

def Moment.utcIso : Moment → Except Raised Str
  | naive => .error (valueError "cache timestamps must be timezone-aware")
  | aware utc => .ok utc.utcIsoformat

def requiredText (field : String) (maximum : Nat) (value : Str) : Except Raised Unit :=
  raiseIf (value = [] ∨ value ≠ PyStr.strip value ∨ maximum < value.length ∨ '\x00' ∈ value)
    (valueError (field ++ " must be non-empty, trimmed, and bounded"))

def boundedText (field : String) (maximum : Nat) (value : Str) : Except Raised Unit :=
  raiseIf (value ≠ PyStr.strip value ∨ maximum < value.length ∨ '\x00' ∈ value)
    (valueError (field ++ " must be trimmed and bounded"))

def optionalHeader (field : String) : Option Str → Except Raised Unit
  | none => .ok ()
  | some value =>
    raiseIf (value = [] ∨ value ≠ PyStr.strip value ∨ 2048 < value.length ∨
        ∃ c ∈ value, c.toNat < 32 ∨ c.toNat = 127)
      (valueError (field ++ " must be a bounded single-line value"))

/-- A product and a document type of an issuer. -/
structure Lineage where
  issuer : Str
  productCode : Str
  documentType : Str
deriving DecidableEq, Repr

/-- `PDFSourceIdentity`: what of a source never changes. -/
structure PDFSourceIdentity where
  sourceId : Str
  lineage : Lineage
  sourceUrl : Str
  sourceVersion : Str
  sourcePostId : Str
  discoverySha256 : Str
deriving DecidableEq, Repr

/-- A row of `pdf_cache_object`. -/
structure PDFCacheObjectRow where
  pdfSha256 : Str
  sizeBytes : Nat
  pageCount : Nat
  relativePath : Str
  createdAt : Str
  lastVerifiedAt : Str
deriving DecidableEq, Repr

/-- A row of `pdf_cache_source`. -/
structure PDFCacheSource where
  identity : PDFSourceIdentity
  firstObservedAt : Str
  lastObservedAt : Str
  lastVerifiedAt : Str
  supersededBySourceId : Option Str
  supersededAt : Option Str
deriving DecidableEq, Repr

/-- A row of `pdf_cache_source_revision`. -/
structure PDFCacheSourceRevision where
  revisionId : Nat
  sourceId : Str
  pdfSha256 : Str
  pdfSizeBytes : Nat
  pageCount : Nat
  finalUrl : Str
  etag : Option Str
  lastModified : Option Str
  firstObservedAt : Str
  lastObservedAt : Str
  verifiedAt : Str
  supersededAt : Option Str
  previousRevisionId : Option Nat
deriving DecidableEq, Repr

/-- `PDFSourceRevisionRow`: a revision joined with its source and its object. -/
structure PDFSourceRevisionRow where
  revision : PDFCacheSourceRevision
  source : PDFCacheSource
  relativePath : Str
deriving DecidableEq, Repr

namespace PDFSourceRevisionRow

def revisionId (row : PDFSourceRevisionRow) : Nat := row.revision.revisionId
def sourceId (row : PDFSourceRevisionRow) : Str := row.source.identity.sourceId
def pdfSha256 (row : PDFSourceRevisionRow) : Str := row.revision.pdfSha256

end PDFSourceRevisionRow

/-- The PDF cache tables of `WorkerState`. -/
structure WorkerState where
  objects : List PDFCacheObjectRow
  sources : List PDFCacheSource
  revisions : List PDFCacheSourceRevision

/-- A new state. -/
def WorkerState.empty : WorkerState := ⟨[], [], []⟩

/-- `CASE WHEN column < value THEN value ELSE column END`. -/
def latest (column value : Str) : Str := if column < value then value else column

/-- The arguments of `record_pdf_cache_object`. -/
structure RecordRequest where
  pdfSha256 : Str
  sizeBytes : Nat
  pageCount : Nat
  relativePath : Str
  verifiedAt : Moment

/-- The arguments of `bind_pdf_cache_source`. -/
structure BindRequest where
  identity : PDFSourceIdentity
  pdfSha256 : Str
  pdfSizeBytes : Nat
  pageCount : Nat
  finalUrl : Str
  etag : Option Str
  lastModified : Option Str
  replaceValidators : Bool
  observedAt : Moment
  verifiedAt : Moment

namespace BindRequest

def sourceId (r : BindRequest) : Str := r.identity.sourceId
def lineage (r : BindRequest) : Lineage := r.identity.lineage

end BindRequest

namespace WorkerState

/-- `_PDF_REVISION_SELECT`, one row for each revision. -/
def joinRevision (st : WorkerState) (r : PDFCacheSourceRevision) : Option PDFSourceRevisionRow := do
  let source ← st.sources.find? (·.identity.sourceId = r.sourceId)
  let object ← st.objects.find? (·.pdfSha256 = r.pdfSha256)
  some ⟨r, source, object.relativePath⟩

def pdfCacheSourceBinding (st : WorkerState) (sourceId : Str) : Except Raised (Option PDFSourceRevisionRow) := do
  raiseIf (isSourceId sourceId = false) (valueError "PDF cache source_id is invalid")
  let rows := (st.revisions.filterMap st.joinRevision).filter fun row =>
    row.sourceId = sourceId ∧ row.revision.supersededAt = none
  return (PyList.sortedBy (fun row => row.revisionId) rows).getLast?

def recordPdfCacheObject (st : WorkerState) (r : RecordRequest) : Except Raised WorkerState := do
  raiseIf (isSha256 r.pdfSha256 = false) (valueError "PDF cache object sha256 is invalid")
  raiseIf (r.sizeBytes < 1 ∨ r.pageCount < 1)
    (valueError "PDF cache object size and page count must be positive")
  raiseIf (r.relativePath ≠ "objects/sha256/".toList ++ r.pdfSha256.take 2 ++ '/' :: r.pdfSha256)
    (valueError "PDF cache object path does not match its content identity")
  let timestamp ← r.verifiedAt.utcIso
  match st.objects.find? (·.pdfSha256 = r.pdfSha256) with
  | none =>
    return { st with objects := st.objects ++
      [⟨r.pdfSha256, r.sizeBytes, r.pageCount, r.relativePath, timestamp, timestamp⟩] }
  | some existing => do
    raiseIf ((existing.sizeBytes, existing.pageCount, existing.relativePath) ≠
        (r.sizeBytes, r.pageCount, r.relativePath))
      ⟨.runtimeError, "PDF cache object identity conflicts with durable state"⟩
    return { st with objects := st.objects.map fun o =>
      if o.pdfSha256 = r.pdfSha256 then { o with lastVerifiedAt := latest o.lastVerifiedAt timestamp } else o }

/-- The checks of `bind_pdf_cache_source` on its arguments. -/
def checkBind (r : BindRequest) : Except Raised Unit := do
  let i := r.identity
  raiseIf (isSourceId i.sourceId = false) (valueError "PDF cache source_id is invalid")
  raiseIf (isSha256 i.discoverySha256 = false ∨ i.sourceId ≠ "source_".toList ++ i.discoverySha256)
    (valueError "PDF cache discovery identity does not match source_id")
  raiseIf (isSha256 r.pdfSha256 = false) (valueError "PDF cache PDF sha256 is invalid")
  raiseIf (r.pdfSizeBytes < 1 ∨ r.pageCount < 1)
    (valueError "PDF cache PDF size and page count must be positive")
  requiredText "issuer" 64 i.lineage.issuer
  requiredText "product_code" 512 i.lineage.productCode
  requiredText "document_type" 128 i.lineage.documentType
  requiredText "source_version" 512 i.sourceVersion
  boundedText "source_post_id" 512 i.sourcePostId
  requiredText "source_url" 4096 i.sourceUrl
  requiredText "final_url" 4096 r.finalUrl
  raiseIf ("https://".toList.isPrefixOf i.sourceUrl = false ∨ "https://".toList.isPrefixOf r.finalUrl = false)
    (valueError "PDF cache source URLs must use HTTPS")
  optionalHeader "etag" r.etag
  optionalHeader "last_modified" r.lastModified

/-- The object of the bytes, with the same size and page count. -/
def checkObject (objects : List PDFCacheObjectRow) (r : BindRequest) : Except Raised Unit :=
  match objects.find? (·.pdfSha256 = r.pdfSha256) with
  | none => .error ⟨.keyError, "PDF cache object must be recorded before source binding"⟩
  | some o =>
    raiseIf ((o.sizeBytes, o.pageCount) ≠ (r.pdfSizeBytes, r.pageCount))
      ⟨.runtimeError, "PDF source binding conflicts with its cache object"⟩

/-- Inserts the source, or checks that it is the one already there. -/
def registerSource (sources : List PDFCacheSource) (r : BindRequest) (observed verified : Str) :
    Except Raised (List PDFCacheSource) :=
  match sources.find? (·.identity.sourceId = r.sourceId) with
  | none => .ok (sources ++ [⟨r.identity, observed, observed, verified, none, none⟩])
  | some source => do
    raiseIf (source.identity ≠ r.identity)
      ⟨.runtimeError, "PDF cache source identity conflicts with durable state"⟩
    return sources

/-- The active revision with the validators and stamps of this observation. -/
def refresh (r : BindRequest) (observed verified : Str) (v : PDFCacheSourceRevision) : PDFCacheSourceRevision :=
  { v with
    finalUrl := r.finalUrl
    etag := if r.replaceValidators then r.etag else r.etag.or v.etag
    lastModified := if r.replaceValidators then r.lastModified else r.lastModified.or v.lastModified
    lastObservedAt := latest v.lastObservedAt observed
    verifiedAt := latest v.verifiedAt verified }

/-- The row of new bytes. -/
def newRevision (r : BindRequest) (revisionId : Nat) (previous : Option Nat) (observed verified : Str) :
    PDFCacheSourceRevision :=
  { revisionId := revisionId, sourceId := r.sourceId, pdfSha256 := r.pdfSha256,
    pdfSizeBytes := r.pdfSizeBytes, pageCount := r.pageCount, finalUrl := r.finalUrl, etag := r.etag,
    lastModified := r.lastModified, firstObservedAt := observed, lastObservedAt := observed,
    verifiedAt := verified, supersededAt := none, previousRevisionId := previous }

/-- The row id SQLite gives the next row. -/
def nextRowid (revisions : List PDFCacheSourceRevision) : Nat :=
  (revisions.map (·.revisionId)).foldr max 0 + 1

/-- The revision this binding leaves active, and the revisions with it. -/
def bindRevision (revisions : List PDFCacheSourceRevision) (r : BindRequest) (observed verified : Str) :
    Except Raised (Nat × List PDFCacheSourceRevision) :=
  match revisions.find? (fun v => v.sourceId = r.sourceId ∧ v.supersededAt = none) with
  | none =>
    .ok (nextRowid revisions, revisions ++ [newRevision r (nextRowid revisions) none observed verified])
  | some current =>
    if current.pdfSha256 = r.pdfSha256 then do
      raiseIf ((current.pdfSizeBytes, current.pageCount) ≠ (r.pdfSizeBytes, r.pageCount))
        ⟨.runtimeError, "PDF cache revision identity conflicts with durable state"⟩
      return (current.revisionId, revisions.map fun v =>
        if v.revisionId = current.revisionId then refresh r observed verified v else v)
    else
      let superseded := revisions.map fun v =>
        if v.revisionId = current.revisionId ∧ v.supersededAt = none then { v with supersededAt := some observed }
        else v
      .ok (nextRowid superseded,
        superseded ++ [newRevision r (nextRowid superseded) (some current.revisionId) observed verified])

/-- The other active sources of the lineage point to this one. -/
def supersedeSource (r : BindRequest) (observed : Str) (s : PDFCacheSource) : PDFCacheSource :=
  if s.identity.lineage = r.lineage ∧ s.identity.sourceId ≠ r.sourceId ∧ s.supersededAt = none then
    { s with supersededBySourceId := some r.sourceId, supersededAt := some observed }
  else s

/-- This source is active. -/
def activateSource (r : BindRequest) (observed verified : Str) (s : PDFCacheSource) : PDFCacheSource :=
  if s.identity.sourceId = r.sourceId then
    { s with
      lastObservedAt := latest s.lastObservedAt observed
      lastVerifiedAt := latest s.lastVerifiedAt verified
      supersededBySourceId := none
      supersededAt := none }
  else s

def bindPdfCacheSource (st : WorkerState) (r : BindRequest) : Except Raised (PDFSourceRevisionRow × WorkerState) := do
  checkBind r
  let observed ← r.observedAt.utcIso
  let verified ← r.verifiedAt.utcIso
  checkObject st.objects r
  let sources ← registerSource st.sources r observed verified
  let (revisionId, revisions) ← bindRevision st.revisions r observed verified
  let bound : WorkerState := {
    sources := (sources.map (supersedeSource r observed)).map (activateSource r observed verified)
    revisions := revisions
    objects := st.objects.map fun o =>
      if o.pdfSha256 = r.pdfSha256 then { o with lastVerifiedAt := latest o.lastVerifiedAt verified } else o }
  match ← bound.pdfCacheSourceBinding r.sourceId with
  | none => throw ⟨.runtimeError, "PDF cache source binding was not persisted"⟩
  | some binding => do
    raiseIf (binding.revisionId ≠ revisionId) ⟨.runtimeError, "PDF cache source binding was not persisted"⟩
    return (binding, bound)

end WorkerState

/-- The transactions of the PDF cache. -/
inductive Command where
  | record (request : RecordRequest)
  | bind (request : BindRequest)

/-- One call that returns. -/
def Command.step (st : WorkerState) : Command → Except Raised WorkerState
  | record request => st.recordPdfCacheObject request
  | bind request => do return (← st.bindPdfCacheSource request).2

/-- The bindings among the calls, in order. -/
def bindings (commands : List Command) : List BindRequest :=
  commands.filterMap fun
    | .record _ => none
    | .bind request => some request

end CardRag
