import CardRag.Retirement.Continuity

/-! # The zero-loss gate (`corpus_diff.py`)

`generateCorpusDiffReport` compares the acquired documents with the prior corpus. The prior documents
that were not acquired go to the resolver of the pipeline, which adds the candidates of the ledger and
calls `evaluateRetirements`; what that leaves unjustified fails the gate. -/

namespace CardRag.Retirement

open PyList Guard Inputs

/-- `PriorEntry`. -/
structure PriorEntry where
  documentId : Str
  sourceId : Str
  issuer : Str
  productCode : Str
  documentType : Str
  pdfSha256 : Str
  ocrSha256 : Option Str

/-- `CorpusPriorView`; the id sets are lists without their order. -/
structure CorpusPriorView where
  kind : Str
  generationId : Str
  runId : Str
  observedAt : Str
  currentDocIds : List Str
  historicalDocIds : List Str
  entries : List (Str × PriorEntry)

/-- `RetirementRequest`. -/
structure RetirementRequest where
  documentId : Str
  sourceId : Str
  issuer : Str
  productCode : Str
  documentType : Str
  pdfSha256 : Str
  ocrSha256 : Option Str

/-- What the report reads of an acquired document; `documentId` is `source.document_id(pdf.sha256)`. -/
structure AcquiredDocument where
  documentId : Str
  sourceId : Str
  issuer : Str
  productCode : Str
  documentType : Str
  pdfSha256 : Str
  isHistorical : Bool
  supersedesDocumentId : Option Str

def AcquiredDocument.lineageKey (d : AcquiredDocument) : LineageKey := (d.issuer, d.productCode, d.documentType)

/-- An entry of `entries_by_doc_id`. -/
structure SeedEntry where
  sourceId : Str
  issuer : Str
  pdfSha256 : Str
  ocrSha256 : Option Str

/-- What the report reads of a `StateSeedLedger`; a source record is its product code and document type. -/
structure StateSeedLedger where
  generationId : Str
  runId : Str
  priorCurrentDocIds : List Str
  priorHistoricalDocIds : List Str
  entriesByDocId : List (Str × SeedEntry)
  sourceRecords : List (Str × Str × Str)
  isOcrRecoveryOnly : Bool

def priorViewFromSeedLedger (seedLedger : StateSeedLedger) (observedAt : Str) : CorpusPriorView where
  kind := "seed-ledger".toList
  generationId := seedLedger.generationId
  runId := seedLedger.runId
  observedAt := observedAt
  currentDocIds := seedLedger.priorCurrentDocIds
  historicalDocIds := seedLedger.priorHistoricalDocIds
  entries := seedLedger.entriesByDocId.map fun e => (e.1, {
    documentId := e.1
    sourceId := e.2.sourceId
    issuer := e.2.issuer
    productCode := ((get? seedLedger.sourceRecords e.2.sourceId).map (·.1)).getD []
    documentType := ((get? seedLedger.sourceRecords e.2.sourceId).map (·.2)).getD []
    pdfSha256 := e.2.pdfSha256
    ocrSha256 := e.2.ocrSha256 })

structure ChangeRecord where
  documentId : Str
  sourceId : Str
  issuer : Str
  productCode : Str
  newPdfSha256 : Str
  previousDocumentId : Option Str

structure ProductRecord where
  documentId : Str
  sourceId : Str
  issuer : Str
  productCode : Str
  pdfSha256 : Str

structure Counts where
  priorCurrent : Nat
  priorHistorical : Nat
  unchanged : Nat
  sameSourceByteRevision : Nat
  successorSources : Nat
  newProducts : Nat
  replacedPredecessors : Nat
  retired : Nat
  retirementCandidates : Nat
  finalCurrent : Nat
  finalHistorical : Nat
  finalCorpus : Nat
  missingUnjustified : Nat

/-- `CorpusDiffReport`, the schema version being fixed. -/
structure CorpusDiffReport where
  runId : Str
  baselineKind : Str
  counts : Counts
  unchanged : List Str
  sameSourceByteRevisions : List ChangeRecord
  successorSources : List ChangeRecord
  newProducts : List ProductRecord
  historicalMaintained : List Str
  retiredLineages : List RetiredRecord
  retirementCandidates : List CandidateRecord
  missingUnjustified : List Str

/-- The report raises what its resolver raises, or a `CorpusDiffError`. -/
inductive DiffFailure where
  | raised (e : Raised)
  | corpusDiff (runId : Str) (missingCount retiredCount candidateCount : Nat) (sample : List Str)

abbrev RetirementResolver := List RetirementRequest → List LineageKey → Except Raised (Option Outcome)

def productRecord (e : Str × AcquiredDocument) : ProductRecord :=
  ⟨e.1, e.2.sourceId, e.2.issuer, e.2.productCode, e.2.pdfSha256⟩

def changeRecord (e : Str × AcquiredDocument) (supersededId : Option Str) : ChangeRecord :=
  ⟨e.1, e.2.sourceId, e.2.issuer, e.2.productCode, e.2.pdfSha256, supersededId⟩

/-- What is compared. -/
structure Comparison where
  acquired : List AcquiredDocument
  prior : CorpusPriorView

namespace Comparison
variable (C : Comparison)

def currentMap : List (Str × AcquiredDocument) := dictOf (·.documentId) (C.acquired.filter fun d => d.isHistorical = false)

def historicalMap : List (Str × AcquiredDocument) := dictOf (·.documentId) (C.acquired.filter (·.isHistorical))

def allAcquiredIds : List Str := (C.currentMap.map (·.1) ++ C.historicalMap.map (·.1)).dedup

def priorAll : List Str := (C.prior.currentDocIds ++ C.prior.historicalDocIds).dedup

def priorSourceIds : List Str := (values C.prior.entries).map (·.sourceId)

def priorProducts : List (Str × Str) :=
  ((values C.prior.entries).filter (·.productCode ≠ [])).map fun pe => (pe.issuer, pe.productCode)

def unchanged : List Str := sortedBy id ((C.currentMap.map (·.1)).filter (· ∈ C.prior.currentDocIds))

def replacedPredecessors : List Str := (C.historicalMap.map (·.1)).filter (· ∈ C.prior.currentDocIds)

/-- `new_current_ids`, with their documents. -/
def newCurrent : List (Str × AcquiredDocument) := sortedBy (·.1) (C.currentMap.filter fun e => e.1 ∉ C.prior.currentDocIds)

def missing : List Str := sortedBy id (C.priorAll.filter (· ∉ C.allAcquiredIds))

/-- What the loop over the new current documents has built so far. -/
structure Changes where
  sameSourceByteRevisions : List ChangeRecord
  successorSources : List ChangeRecord
  newProductsList : List ProductRecord

/-- The loop body. -/
def classifyChange (s : Changes) (e : Str × AcquiredDocument) : Changes :=
  if e.2.sourceId ∈ C.priorSourceIds then
    { s with sameSourceByteRevisions := s.sameSourceByteRevisions ++ [changeRecord e (e.2.supersedesDocumentId <|>
        ((values C.prior.entries).find? fun pe => pe.sourceId = e.2.sourceId).map (·.documentId))] }
  else if (∃ x ∈ e.2.supersedesDocumentId,
        x ∈ C.replacedPredecessors ∨ x ∈ C.prior.entries.map (·.1) ∨ x ∈ C.priorAll) ∨
      (e.2.issuer, e.2.productCode) ∈ C.priorProducts then
    { s with successorSources := s.successorSources ++ [changeRecord e (e.2.supersedesDocumentId <|>
        ((values C.prior.entries).find? fun pe =>
          pe.issuer = e.2.issuer ∧ pe.productCode = e.2.productCode).map (·.documentId))] }
  else { s with newProductsList := s.newProductsList ++ [productRecord e] }

def changes : Changes := C.newCurrent.foldl C.classifyChange ⟨[], [], []⟩

def request (docId : Str) : RetirementRequest where
  documentId := docId
  sourceId := ((get? C.prior.entries docId).map (·.sourceId)).getD []
  issuer := ((get? C.prior.entries docId).map (·.issuer)).getD []
  productCode := ((get? C.prior.entries docId).map (·.productCode)).getD []
  documentType := ((get? C.prior.entries docId).map (·.documentType)).getD []
  pdfSha256 := ((get? C.prior.entries docId).map (·.pdfSha256)).getD []
  ocrSha256 := (get? C.prior.entries docId).bind (·.ocrSha256)

/-- `active_lineages`. -/
def activeLineages (discoveredLineages : Option (List LineageKey)) : List LineageKey :=
  discoveredLineages.getD ((C.acquired.filter fun d => d.isHistorical = false).map (·.lineageKey))

/-- The `unjustified` documents after the resolver. -/
def unjustified (outcome : Option Outcome) : List Str :=
  outcome.elim C.missing fun o => sortedBy id ((o.unjustified.map (·.1)).filter (· ∈ C.missing))

def report (runId : Str) (outcome : Option Outcome) : CorpusDiffReport where
  runId := runId
  baselineKind := C.prior.kind
  counts := {
    priorCurrent := C.prior.currentDocIds.dedup.length
    priorHistorical := C.prior.historicalDocIds.dedup.length
    unchanged := C.unchanged.length
    sameSourceByteRevision := C.changes.sameSourceByteRevisions.length
    successorSources := C.changes.successorSources.length
    newProducts := C.changes.newProductsList.length
    replacedPredecessors := C.replacedPredecessors.length
    retired := (outcome.elim [] (·.retired)).length
    retirementCandidates := (outcome.elim [] (·.candidates)).length
    finalCurrent := C.currentMap.length
    finalHistorical := C.historicalMap.length
    finalCorpus := C.allAcquiredIds.length
    missingUnjustified := (C.unjustified outcome).length }
  unchanged := C.unchanged
  sameSourceByteRevisions := C.changes.sameSourceByteRevisions
  successorSources := C.changes.successorSources
  newProducts := C.changes.newProductsList
  historicalMaintained := sortedBy id (C.historicalMap.map (·.1))
  retiredLineages := outcome.elim [] (·.retired)
  retirementCandidates := outcome.elim [] (·.candidates)
  missingUnjustified := C.unjustified outcome

/-- The report of a first run. -/
def firstReport (runId : Str) : CorpusDiffReport where
  runId := runId
  baselineKind := "none".toList
  counts := {
    priorCurrent := 0
    priorHistorical := 0
    unchanged := 0
    sameSourceByteRevision := 0
    successorSources := 0
    newProducts := C.currentMap.length
    replacedPredecessors := 0
    retired := 0
    retirementCandidates := 0
    finalCurrent := C.currentMap.length
    finalHistorical := C.historicalMap.length
    finalCorpus := C.allAcquiredIds.length
    missingUnjustified := 0 }
  unchanged := []
  sameSourceByteRevisions := []
  successorSources := []
  newProducts := (sortedBy (·.1) C.currentMap).map productRecord
  historicalMaintained := sortedBy id (C.historicalMap.map (·.1))
  retiredLineages := []
  retirementCandidates := []
  missingUnjustified := []

end Comparison

/-- `generate_corpus_diff_report` with a prior view; the report file is not written. -/
def compareWithPrior (runId : Str) (C : Comparison) (seedLedger : Option StateSeedLedger)
    (resolver : Option RetirementResolver) (failOnMissing : Bool) (discoveredLineages : Option (List LineageKey)) :
    Except DiffFailure CorpusDiffReport := do
  let outcome ← resolver.elim (pure none) fun resolve =>
    (resolve (C.missing.map C.request) (C.activeLineages discoveredLineages)).mapError .raised
  if C.unjustified outcome ≠ [] ∧ failOnMissing = true ∧
      ¬ ((∃ s ∈ seedLedger, s.isOcrRecoveryOnly = true) ∧ resolver.isNone = true) then
    throw (.corpusDiff runId (C.unjustified outcome).length (outcome.elim [] (·.retired)).length
      (outcome.elim [] (·.candidates)).length ((C.unjustified outcome).take 5))
  return C.report runId outcome

def generateCorpusDiffReport (runId : Str) (acquired : List AcquiredDocument) (seedLedger : Option StateSeedLedger)
    (prior : Option CorpusPriorView) (resolver : Option RetirementResolver) (failOnMissing : Bool) (priorObservedAt : Str)
    (discoveredLineages : Option (List LineageKey)) : Except DiffFailure CorpusDiffReport :=
  (prior <|> seedLedger.map (priorViewFromSeedLedger · priorObservedAt)).elim
    (.ok (Comparison.firstReport ⟨acquired, ⟨[], [], [], [], [], [], []⟩⟩ runId))
    fun prior => compareWithPrior runId ⟨acquired, prior⟩ seedLedger resolver failOnMissing discoveredLineages

/-! ## The resolver of the pipeline -/

/-- What `_build_retirement_resolver` closes over. `evidenceOk` is `_retirement_evidence_ok`, which
reads the caches and the disk. -/
structure ResolverContext where
  runId : Str
  now : Clock
  policy : Policy
  prior : CorpusPriorView
  loadLedger : Except Raised (Option Ledger)
  evidenceOk : AbsentDocument → Except Raised Bool
  frozenIssuers : List Str

namespace ResolverContext
variable (X : ResolverContext)

def ofRequest (request : RetirementRequest) : AbsentDocument where
  documentId := request.documentId
  sourceId := request.sourceId
  issuer := request.issuer
  productCode := request.productCode
  documentType := request.documentType
  pdfSha256 := request.pdfSha256
  ocrSha256 := request.ocrSha256
  lastObservedRunId := X.prior.runId
  lastObservedAt := X.prior.observedAt

def ofEntry (entry : Entry) : AbsentDocument where
  documentId := entry.documentId
  sourceId := entry.sourceId
  issuer := entry.issuer
  productCode := entry.productCode
  documentType := entry.documentType
  pdfSha256 := entry.pdfSha256
  ocrSha256 := entry.ocrSha256
  lastObservedRunId := entry.lastObservedRunId
  lastObservedAt := entry.lastObservedAt

/-- The loop over the ledger: its candidates that are neither requested, discovered nor of the prior corpus. -/
def addCandidate (discoveredLineages : List LineageKey) (absent : List (Str × AbsentDocument)) (entry : Entry) :
    List (Str × AbsentDocument) :=
  if entry.status ≠ .candidate ∨ entry.documentId ∈ absent.map (·.1) then absent
  else if entry.lineageKey ∈ discoveredLineages ∨ entry.documentId ∈ X.prior.entries.map (·.1) then absent
  else insert entry.documentId (ofEntry entry) absent

def absent (ledger : Option Ledger) (requests : List RetirementRequest) (discoveredLineages : List LineageKey) :
    List (Str × AbsentDocument) :=
  ((ledger.map (·.entries)).getD []).foldl (X.addCandidate discoveredLineages)
    (dictOf (·.documentId) (requests.map X.ofRequest))

/-- `durable`: no evidence is read past the budget. -/
def durable (documents : List AbsentDocument) : Except Raised (List (Str × Bool)) :=
  (documents.take (X.policy.maxPerRun + 10).toNat).mapM fun d => (X.evidenceOk d).map fun ok => (d.documentId, ok)

def inputs (absent : List (Str × AbsentDocument)) (durable : List (Str × Bool)) (discoveredLineages : List LineageKey) :
    Inputs where
  runId := X.runId
  runStartedAt := X.now
  policy := X.policy
  baselineTotal := X.prior.entries.length
  absent := values absent
  durableOk := fun d => (get? durable d).getD false
  lineageAbsent := fun d => ((get? absent d).map fun item => decide (item.lineageKey ∉ discoveredLineages)).getD false
  discoveredLineages := discoveredLineages
  frozenIssuers := X.frozenIssuers

def resolve (ratioCap : Nat → ℚ → Int) : RetirementResolver := fun requests discoveredLineages => do
  let ledger ← X.loadLedger
  let absent := X.absent ledger requests discoveredLineages
  let durable ← X.durable
    (sortedBy (fun item => toLex (item.issuer, toLex (item.productCode, item.documentId))) (values absent))
  let outcome ← evaluateRetirements ratioCap (X.inputs absent durable discoveredLineages) ledger
  return some outcome

end ResolverContext

/-! ## The current documents -/

namespace Comparison
variable {C : Comparison}

/-- The ids of the changes found so far. -/
def Changes.ids (s : Changes) : List Str :=
  s.sameSourceByteRevisions.map (·.documentId) ++ s.successorSources.map (·.documentId) ++
    s.newProductsList.map (·.documentId)

theorem ids_classifyChange (s : Changes) (e : Str × AcquiredDocument) :
    (C.classifyChange s e).ids.Perm (s.ids ++ [e.1]) := by
  unfold classifyChange
  refine List.perm_iff_count.2 fun d => ?_
  split
  · simp only [Changes.ids, List.map_append, List.map_cons, List.map_nil, List.count_append, changeRecord]
    omega
  · split <;>
      simp only [Changes.ids, List.map_append, List.map_cons, List.map_nil, List.count_append, changeRecord, productRecord]
    · omega
    · omega

theorem ids_foldl_classifyChange (L : List (Str × AcquiredDocument)) (s : Changes) :
    (L.foldl C.classifyChange s).ids.Perm (s.ids ++ L.map (·.1)) := by
  induction L generalizing s with
  | nil => simp
  | cons e L ih =>
    rw [List.foldl_cons, List.map_cons]
    refine (ih _).trans (((ids_classifyChange s e).append_right _).trans ?_)
    rw [List.append_assoc, List.singleton_append]

theorem nodup_currentMap : (C.currentMap.map (·.1)).Nodup := nodup_keys_dictOf _ _

theorem mem_currentMap {d : Str} :
    d ∈ C.currentMap.map (·.1) ↔ ∃ doc ∈ C.acquired, doc.isHistorical = false ∧ doc.documentId = d := by
  rw [currentMap, mem_keys_dictOf]
  simp [and_assoc]

theorem mem_allAcquiredIds {d : Str} : d ∈ C.allAcquiredIds ↔ ∃ doc ∈ C.acquired, doc.documentId = d := by
  rw [allAcquiredIds, List.mem_dedup, List.mem_append, currentMap, historicalMap, mem_keys_dictOf, mem_keys_dictOf]
  constructor
  · rintro (h | h) <;>
    · obtain ⟨doc, hdoc, hd⟩ := List.mem_map.1 h
      exact ⟨doc, List.mem_of_mem_filter hdoc, hd⟩
  · rintro ⟨doc, hdoc, rfl⟩
    cases hh : doc.isHistorical with
    | false => exact .inl (List.mem_map_of_mem (List.mem_filter.2 ⟨hdoc, by simp [hh]⟩))
    | true => exact .inr (List.mem_map_of_mem (List.mem_filter.2 ⟨hdoc, by simp [hh]⟩))

theorem mem_missing {d : Str} : d ∈ C.missing ↔
    (d ∈ C.prior.currentDocIds ∨ d ∈ C.prior.historicalDocIds) ∧ ¬ ∃ doc ∈ C.acquired, doc.documentId = d := by
  rw [missing, mem_sortedBy, List.mem_filter, priorAll, List.mem_dedup, List.mem_append, decide_eq_true_iff,
    mem_allAcquiredIds]

/-- The four kinds of current documents, together. -/
theorem current_perm : (C.unchanged ++ C.changes.ids).Perm (C.currentMap.map (·.1)) := by
  have hnew : (C.newCurrent.map (·.1)).Perm ((C.currentMap.map (·.1)).filter (· ∉ C.prior.currentDocIds)) := by
    rw [List.filter_map]
    exact (sortedBy_perm _ _).map _
  have hids : C.changes.ids.Perm (C.newCurrent.map (·.1)) := ids_foldl_classifyChange _ _
  refine ((sortedBy_perm id _).append (hids.trans hnew)).trans ?_
  have := List.filter_append_perm (fun d => decide (d ∈ C.prior.currentDocIds)) (C.currentMap.map (·.1))
  simpa only [decide_not] using this

end Comparison

/-! ## The missing documents -/

namespace ResolverContext
variable {X : ResolverContext} {discovered : List LineageKey}

/-- The absent documents stand under their ids, and the requested ones are among them. -/
structure Keyed (asked : List Str) (absent : List (Str × AbsentDocument)) : Prop where
  nodup : (absent.map (·.1)).Nodup
  key : ∀ e ∈ absent, e.2.documentId = e.1
  asked : ∀ d ∈ asked, d ∈ absent.map (·.1)

theorem Keyed.addCandidate {asked : List Str} {absent : List (Str × AbsentDocument)} (h : Keyed asked absent)
    (entry : Entry) : Keyed asked (X.addCandidate discovered absent entry) := by
  unfold ResolverContext.addCandidate
  split
  · exact h
  split
  · exact h
  refine ⟨nodup_keys_insert h.nodup, fun e he => ?_, fun d hd => ?_⟩
  · rcases mem_insert he with rfl | he
    · rfl
    · exact h.key e he
  · rw [keys_insert]
    split
    · exact h.asked d hd
    · exact List.mem_append_left _ (h.asked d hd)

theorem Keyed.foldl {asked : List Str} {absent : List (Str × AbsentDocument)} (h : Keyed asked absent)
    (entries : List Entry) : Keyed asked (entries.foldl (X.addCandidate discovered) absent) := by
  induction entries generalizing absent with
  | nil => exact h
  | cons entry entries ih => exact ih (h.addCandidate entry)

theorem keyed_absent (ledger : Option Ledger) (requests : List RetirementRequest) :
    Keyed (requests.map (·.documentId)) (X.absent ledger requests discovered) := by
  refine Keyed.foldl ⟨nodup_keys_dictOf _ _, fun e he => key_of_mem_dictOf he, fun d hd => ?_⟩ _
  rw [mem_keys_dictOf, List.map_map]
  exact hd

theorem Keyed.ids {asked : List Str} {absent : List (Str × AbsentDocument)} (h : Keyed asked absent) :
    (values absent).map (·.documentId) = absent.map (·.1) := by
  rw [values, List.map_map]
  exact List.map_congr_left fun e he => h.key e he

/-- Every requested document is in exactly one of the reports of the resolver. -/
theorem reportedOnce_of_resolve {ratioCap : Nat → ℚ → Int} {requests : List RetirementRequest} {outcome : Option Outcome}
    (h : X.resolve ratioCap requests discovered = .ok outcome) :
    ∃ o, outcome = some o ∧ ∀ r ∈ requests, o.ReportedOnce r.documentId := by
  obtain ⟨ledger, -, h⟩ := bind_eq_ok.1 h
  obtain ⟨durable, -, h⟩ := bind_eq_ok.1 h
  obtain ⟨o, ho, h⟩ := bind_eq_ok.1 h
  have hk : Keyed (requests.map (·.documentId)) (X.absent ledger requests discovered) := keyed_absent ledger requests
  have hn : ((values (X.absent ledger requests discovered)).map (·.documentId)).Nodup := hk.ids.symm ▸ hk.nodup
  obtain ⟨-, rfl⟩ := (evaluate_eq_ok_iff hn).1 ho
  refine ⟨_, (Except.ok.inj h).symm, fun r hr => ?_⟩
  have hr := hk.asked _ (List.mem_map_of_mem hr)
  rw [← hk.ids] at hr
  obtain ⟨i, hi, hd⟩ := List.mem_map.1 hr
  rw [← hd]
  exact reportedOnce hn (Indexed.dictOf _) hi

end ResolverContext

theorem compareWithPrior_ok {runId : Str} {C : Comparison} {seedLedger : Option StateSeedLedger}
    {resolve : RetirementResolver} {discovered : Option (List LineageKey)} {report : CorpusDiffReport}
    (h : compareWithPrior runId C seedLedger (some resolve) true discovered = .ok report) :
    ∃ outcome, resolve (C.missing.map C.request) (C.activeLineages discovered) = .ok outcome ∧
      C.unjustified outcome = [] ∧ report = C.report runId outcome := by
  obtain ⟨outcome, ho, h⟩ := bind_eq_ok.1 h
  have hresolve : resolve (C.missing.map C.request) (C.activeLineages discovered) = .ok outcome := by
    revert ho
    show Except.mapError _ (resolve _ _) = _ → _
    cases resolve (C.missing.map C.request) (C.activeLineages discovered) with
    | ok x => exact fun hx => congrArg _ (Except.ok.inj hx)
    | error e => exact fun hx => by cases hx
  refine ⟨outcome, hresolve, ?_, ?_⟩
  · by_contra hne
    rw [if_pos ⟨hne, rfl, fun hs => by cases hs.2⟩] at h
    cases h
  · by_cases hne : C.unjustified outcome = []
    · rw [if_neg fun hc => hc.1 hne] at h
      exact (Except.ok.inj h).symm
    · rw [if_pos ⟨hne, rfl, fun hs => by cases hs.2⟩] at h
      cases h

/-- The current documents of a report. -/
def CorpusDiffReport.currentIds (r : CorpusDiffReport) : List Str :=
  r.unchanged ++ (r.sameSourceByteRevisions.map (·.documentId) ++ r.successorSources.map (·.documentId) ++
    r.newProducts.map (·.documentId))

/-- When the gate passes, every prior document is acquired again or is in exactly one of the two
retirement reports, and every current document is in exactly one of the four lists of changes. -/
theorem zero_loss_gate (ratioCap : Nat → ℚ → Int) (X : ResolverContext) (runId : Str) (acquired : List AcquiredDocument)
    (seedLedger : Option StateSeedLedger) (priorObservedAt : Str) (discovered : Option (List LineageKey))
    (report : CorpusDiffReport) (h : generateCorpusDiffReport runId acquired seedLedger (some X.prior)
      (some (X.resolve ratioCap)) true priorObservedAt discovered = .ok report) :
    (∀ d, d ∈ X.prior.currentDocIds ∨ d ∈ X.prior.historicalDocIds →
      (∃ doc ∈ acquired, doc.documentId = d) ∨
        Xor (d ∈ report.retiredLineages.map (·.documentId)) (d ∈ report.retirementCandidates.map (·.documentId))) ∧
    report.currentIds.Nodup ∧
      ∀ d, d ∈ report.currentIds ↔ ∃ doc ∈ acquired, doc.isHistorical = false ∧ doc.documentId = d := by
  have hgate : compareWithPrior runId ⟨acquired, X.prior⟩ seedLedger (some (X.resolve ratioCap)) true discovered =
      .ok report := h
  obtain ⟨outcome, hresolve, hnone, rfl⟩ := compareWithPrior_ok hgate
  obtain ⟨o, rfl, hreported⟩ := ResolverContext.reportedOnce_of_resolve hresolve
  have hperm := Comparison.current_perm (C := ⟨acquired, X.prior⟩)
  refine ⟨fun d hd => ?_, hperm.nodup_iff.2 Comparison.nodup_currentMap, fun d => ?_⟩
  · by_cases hacquired : ∃ doc ∈ acquired, doc.documentId = d
    · exact .inl hacquired
    · have hmissing : d ∈ Comparison.missing ⟨acquired, X.prior⟩ := Comparison.mem_missing.2 ⟨hd, hacquired⟩
      refine .inr ?_
      rcases hreported _ (List.mem_map_of_mem hmissing) with ⟨hr, hc, -⟩ | ⟨hr, hc, -⟩ | ⟨-, -, hu⟩
      · exact .inl ⟨hr, hc⟩
      · exact .inr ⟨hc, hr⟩
      · obtain ⟨reason, hu⟩ := Option.isSome_iff_exists.1 hu
        have hkey : d ∈ o.unjustified.map (·.1) := List.mem_map_of_mem (mem_of_get? hu)
        have hleft : d ∈ Comparison.unjustified ⟨acquired, X.prior⟩ (some o) :=
          mem_sortedBy.2 (List.mem_filter.2 ⟨hkey, decide_eq_true hmissing⟩)
        rw [hnone] at hleft
        cases hleft
  · exact (hperm.mem_iff).trans Comparison.mem_currentMap

/-- The first run without `d2`, of whose absence there is complete evidence. -/
def gateContext : ResolverContext where
  runId := "run-1".toList
  now := crowdedRun.runStartedAt
  policy := crowdedRun.policy
  prior := {
    kind := "rolling-baseline".toList
    generationId := "generation".toList
    runId := "run-0".toList
    observedAt := "2026-09-29T00:00:00+00:00".toList
    currentDocIds := ["d1".toList, "d2".toList]
    historicalDocIds := []
    entries := ["d1", "d2"].map fun d => (d.toList, {
      documentId := d.toList, sourceId := d.toList, issuer := "lotte".toList, productCode := d.toList,
      documentType := "product-manual".toList, pdfSha256 := "pdf".toList, ocrSha256 := none }) }
  loadLedger := .ok none
  evidenceOk := fun _ => .ok true
  frozenIssuers := []

/-- `d1` is acquired again and `d2` becomes a candidate. -/
theorem zero_loss_gate_candidate :
    let acquired : List AcquiredDocument := [⟨"d1".toList, "d1".toList, "lotte".toList, "d1".toList,
      "product-manual".toList, "pdf".toList, false, none⟩]
    ∃ report : CorpusDiffReport,
      (∀ d, d ∈ gateContext.prior.currentDocIds ∨ d ∈ gateContext.prior.historicalDocIds →
        (∃ doc ∈ acquired, doc.documentId = d) ∨
          Xor (d ∈ report.retiredLineages.map (·.documentId)) (d ∈ report.retirementCandidates.map (·.documentId))) ∧
      report.currentIds.Nodup ∧
        ∀ d, d ∈ report.currentIds ↔ ∃ doc ∈ acquired, doc.isHistorical = false ∧ doc.documentId = d := by
  intro acquired
  have hok : ∃ report, generateCorpusDiffReport "run-1".toList acquired none (some gateContext.prior)
      (some (gateContext.resolve exactRatioCap)) true [] none = .ok report :=
    exists_ok_of_isOk (by decide +kernel)
  obtain ⟨report, h⟩ := hok
  exact ⟨report, zero_loss_gate _ _ _ _ _ _ _ _ h⟩

end CardRag.Retirement
