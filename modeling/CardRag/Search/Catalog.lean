import CardRag.Search.Graph

/-! # The contract catalog (`exact.py`, `models.py`)

The product lineages and contract revisions of a generation, the summaries that a response shows of
them, and the scope of a search: `_resolve_catalog`, which finds the product that a request or its query
names, and `_active_revisions`, which chooses the revisions of the scope. -/

namespace CardRag

instance : LinearOrder Date :=
  LinearOrder.lift' (fun d : Date => toLex (d.year, toLex (d.month, d.day))) fun d e h => by
    obtain ⟨y, m, n, hd⟩ := d
    obtain ⟨y', m', n', he⟩ := e
    simp only [EmbeddingLike.apply_eq_iff_eq, Prod.mk.injEq] at h
    obtain ⟨rfl, rfl, rfl⟩ := h
    rfl

namespace Search

/-- A row of `product_lineages`. -/
structure ProductLineageRow where
  productLineageId : Str
  issuer : Str
  productCode : Str
  documentType : Str
  name : Str
deriving DecidableEq, Repr

/-- A row of `contract_revisions`, less the columns that no search reads. -/
structure RevisionRow where
  contractRevisionId : Str
  productLineageId : Str
  documentId : Str
  sourceId : Str
  sourceVersion : Str
  sourceUrl : Str
  effectiveDate : Option Str
  pdfSha256 : Str
  pageCount : Nat
  temporalStatus : TemporalStatus
  supersedesRevisionId : Option Str
deriving DecidableEq, Repr

/-! ### Bounded fields of the response models -/

/-- What `pydantic` strips: `White_Space`, which `str.strip` widens by four separators. -/
def isWhiteSpace (c : Char) : Bool := PyStr.isSpace c && !(0x1c ≤ c.toNat && c.toNat ≤ 0x1f)

/-- `Field(min_length=1, max_length=maximum)`. -/
def boundedText (maximum : Nat) (value : Str) : Except Raised Str := do
  raiseIf (value = []) (valueError "String should have at least 1 character")
  raiseIf (maximum < value.length) (valueError s!"String should have at most {maximum} characters")
  pure value

def identifier (value : Str) : Except Raised Str := boundedText 512 (PyStr.stripBy isWhiteSpace value)

def optionalIdentifier : Option Str → Except Raised (Option Str)
  | none => pure none
  | some value => do pure (some (← identifier value))

def sha256Hex (value : Str) : Except Raised Str := do
  raiseIf (isSha256 value = false) (valueError "String should match pattern")
  pure value

/-- `date.fromisoformat` of a column that may be null. -/
def dateColumn : Option Str → Except Raised (Option Date)
  | none => pure none
  | some text => (Date.fromisoformat text).elim (throw (valueError "Invalid isoformat string")) fun d => pure (some d)

/-- `_summary`, of a row of the join of the two tables. -/
def summary (r : RevisionRow) (l : ProductLineageRow) : Except Raised ContractRevisionSummary := do
  let effectiveDate ← dateColumn r.effectiveDate
  let productLineageId ← identifier r.productLineageId
  let contractRevisionId ← identifier r.contractRevisionId
  let documentId ← identifier r.documentId
  let issuer ← identifier l.issuer
  let productCode ← identifier l.productCode
  let productName ← boundedText 1000 l.name
  let documentType ← identifier l.documentType
  let sourceId ← identifier r.sourceId
  let sourceVersion ← boundedText 512 r.sourceVersion
  let sourceUrl ← boundedText 4096 r.sourceUrl
  let supersedesRevisionId ← optionalIdentifier r.supersedesRevisionId
  let pdfSha256 ← sha256Hex r.pdfSha256
  raiseIf (r.pageCount < 1) (valueError "Input should be greater than or equal to 1")
  pure ⟨productLineageId, contractRevisionId, documentId, issuer, productCode, productName, documentType, sourceId,
    sourceVersion, sourceUrl, effectiveDate, r.temporalStatus, supersedesRevisionId, pdfSha256, r.pageCount⟩

/-- An identifier that no response model changes or refuses. -/
def IsIdentifier (value : Str) : Prop := identifier value = .ok value

theorem boundedText_eq_ok {maximum : Nat} {value value' : Str} :
    boundedText maximum value = .ok value' ↔ (value ≠ [] ∧ value.length ≤ maximum) ∧ value' = value := by
  simp only [boundedText, Guard.bind_eq_ok, raiseIf_eq_ok, Guard.exists_unit, Guard.pure_eq_ok, not_lt, ne_eq,
    and_assoc, eq_comm (b := value')]

theorem identifier_eq_ok {value value' : Str} : identifier value = .ok value' ↔
    (PyStr.stripBy isWhiteSpace value ≠ [] ∧ (PyStr.stripBy isWhiteSpace value).length ≤ 512) ∧
      value' = PyStr.stripBy isWhiteSpace value :=
  boundedText_eq_ok

theorem IsIdentifier.strip {value : Str} (h : IsIdentifier value) : PyStr.stripBy isWhiteSpace value = value :=
  (identifier_eq_ok.1 h).2.symm

/-- What a summary takes from its two rows. -/
theorem summary_eq_ok {r : RevisionRow} {l : ProductLineageRow} {s : ContractRevisionSummary} (h : summary r l = .ok s) :
    identifier r.productLineageId = .ok s.productLineageId ∧ identifier r.contractRevisionId = .ok s.contractRevisionId ∧
      identifier r.documentId = .ok s.documentId ∧ identifier l.issuer = .ok s.issuer ∧
      identifier l.productCode = .ok s.productCode ∧ s.temporalStatus = r.temporalStatus := by
  simp only [summary, Guard.bind_eq_ok, raiseIf_eq_ok, Guard.exists_unit, Guard.pure_eq_ok] at h
  obtain ⟨_, -, lineage, hlineage, revision, hrevision, document, hdocument, issuer, hissuer, code, hcode, -, -, -, -, -,
    -, -, -, -, -, -, -, -, -, -, rfl⟩ := h
  exact ⟨hlineage, hrevision, hdocument, hissuer, hcode, rfl⟩

/-- The two tables, with the keys that the schema declares. -/
structure Catalog where
  lineages : List ProductLineageRow
  revisions : List RevisionRow
  lineages_nodup : (lineages.map (·.productLineageId)).Nodup
  revisions_nodup : (revisions.map (·.contractRevisionId)).Nodup
  documents_nodup : (revisions.map (·.documentId)).Nodup
  lineage_mem : ∀ r ∈ revisions, ∃ l ∈ lineages, l.productLineageId = r.productLineageId
  lineage_identifier : ∀ l ∈ lineages, IsIdentifier l.productLineageId

/-- The rows of `_REVISION_SELECT`. -/
def Catalog.joined (K : Catalog) : List (RevisionRow × ProductLineageRow) :=
  K.revisions.flatMap fun r => (K.lineages.filter (·.productLineageId = r.productLineageId)).map fun l => (r, l)

def Catalog.summaries (K : Catalog) : Except Raised (List ContractRevisionSummary) := K.joined.mapM fun p => summary p.1 p.2

/-- The fields of a `ContractSearchRequest` that choose the scope. -/
structure ContractSearchRequest where
  query : Str
  issuer : Option Str := none
  productLineageId : Option Str := none
  productLineageIds : Option (List Str) := none
  launchStartDate : Option Date := none
  launchEndDate : Option Date := none
  asOf : Option Date := none
  includeHistory : Bool := false
  limit : Nat := 10

/-! ### The revisions of a scope -/

/-- The first filter of `_active_revisions`. -/
def ContractSearchRequest.covers (req : ContractSearchRequest) (r : ContractRevisionSummary) : Bool :=
  req.issuer.all (r.issuer = ·) && req.productLineageId.all (r.productLineageId = ·) &&
    req.productLineageIds.all (r.productLineageId ∈ ·)

/-- `temporal_status in {"current", "ambiguous"}`. -/
def ContractRevisionSummary.isActive (r : ContractRevisionSummary) : Bool :=
  r.temporalStatus = .current ∨ r.temporalStatus = .ambiguous

/-- The lineages in which a successor is dated before its predecessor. -/
def nonMonotonicLineages (summaries : List ContractRevisionSummary) : List Str :=
  let byId := PyList.dictOf (·.contractRevisionId) summaries
  (summaries.filter fun r => r.supersedesRevisionId.any fun p => r.effectiveDate.any fun d =>
    (PyList.get? byId p).any fun q => q.productLineageId = r.productLineageId ∧ q.effectiveDate.any (d < ·)).map
      (·.productLineageId)

def latestByLineage (eligible : List ContractRevisionSummary) : List (Str × Date) :=
  eligible.foldl (fun d r => match r.effectiveDate with
    | none => d
    | some e => PyList.insert r.productLineageId (max ((PyList.get? d r.productLineageId).getD e) e) d) []

/-- The selection for a date. -/
def selectAsOf (summaries : List ContractRevisionSummary) (asOf : Date) : Except Raised (List ContractRevisionSummary) := do
  let ambiguous := summaries.filter fun r => r.temporalStatus = .ambiguous ∧ r.effectiveDate = none
  let eligible := summaries.filter fun r => r.effectiveDate.any (· ≤ asOf)
  let nonMonotonic := nonMonotonicLineages summaries
  let latest := latestByLineage eligible
  let superseded := (eligible.filter (·.productLineageId ∈ nonMonotonic)).filterMap (·.supersedesRevisionId)
  let selected := ambiguous ++ eligible.filter fun r =>
    if r.productLineageId ∈ nonMonotonic then r.contractRevisionId ∉ superseded
    else r.effectiveDate = PyList.get? latest r.productLineageId
  raiseIf (∃ r ∈ selected, (selected.filter (·.productLineageId = r.productLineageId)).length ≠ 1)
    (valueError "as_of revision selection is ambiguous")
  pure selected

def activeRevisions (K : Catalog) (req : ContractSearchRequest) : Except Raised (List ContractRevisionSummary) := do
  let summaries := (← K.summaries).filter req.covers
  let selected ← if req.includeHistory then pure summaries else
    match req.asOf with
    | none => pure (summaries.filter (·.isActive))
    | some asOf => selectAsOf summaries asOf
  pure (PyList.sortedBy (·.contractRevisionId) selected)

theorem mem_joined {K : Catalog} {p : RevisionRow × ProductLineageRow} :
    p ∈ K.joined ↔ p.1 ∈ K.revisions ∧ p.2 ∈ K.lineages ∧ p.2.productLineageId = p.1.productLineageId := by
  simp only [Catalog.joined, List.mem_flatMap, List.mem_map, List.mem_filter, decide_eq_true_eq]
  constructor
  · rintro ⟨r, hr, l, hl, rfl⟩
    exact ⟨hr, hl⟩
  · rintro ⟨hr, hl⟩
    exact ⟨p.1, hr, p.2, hl, rfl⟩

theorem Catalog.eq_of_lineageId (K : Catalog) {l l' : ProductLineageRow} (hl : l ∈ K.lineages) (hl' : l' ∈ K.lineages)
    (h : l.productLineageId = l'.productLineageId) : l = l' :=
  List.inj_on_of_nodup_map K.lineages_nodup hl hl' h

/-- The rows of a summary. -/
theorem mem_summaries {K : Catalog} {summaries : List ContractRevisionSummary} (h : K.summaries = .ok summaries)
    {s : ContractRevisionSummary} (hs : s ∈ summaries) :
    ∃ r ∈ K.revisions, ∃ l ∈ K.lineages, l.productLineageId = r.productLineageId ∧ summary r l = .ok s := by
  have hall := Guard.mapM_eq_ok.1 h
  obtain ⟨p, hp, hsum⟩ : ∃ p ∈ K.joined, summary p.1 p.2 = .ok s := by
    generalize K.joined = ps at hall
    clear h
    induction hall with
    | nil => cases hs
    | @cons p t ps ts hpt _ ih =>
      rcases List.mem_cons.1 hs with rfl | hs
      · exact ⟨p, List.mem_cons_self, hpt⟩
      · obtain ⟨q, hq, hqs⟩ := ih hs
        exact ⟨q, List.mem_cons_of_mem _ hq, hqs⟩
  obtain ⟨hr, hl, hid⟩ := mem_joined.1 hp
  exact ⟨p.1, hr, p.2, hl, hid, hsum⟩

/-- The revisions of a search without a date: those of the scope that are current or ambiguous. -/
theorem mem_activeRevisions {K : Catalog} {req : ContractSearchRequest} {revisions : List ContractRevisionSummary}
    (h : activeRevisions K req = .ok revisions) (hhistory : req.includeHistory = false) (hdate : req.asOf = none) :
    ∃ summaries, K.summaries = .ok summaries ∧
      ∀ r, r ∈ revisions ↔ r ∈ summaries ∧ req.covers r = true ∧ r.isActive = true := by
  simp only [activeRevisions, hhistory, hdate, Guard.bind_eq_ok, Guard.pure_eq_ok, Bool.false_eq_true, if_false] at h
  obtain ⟨summaries, hsummaries, selected, rfl, rfl⟩ := h
  refine ⟨summaries, hsummaries, fun r => ?_⟩
  rw [PyList.mem_sortedBy, List.mem_filter, List.mem_filter, and_assoc]

/-! ### The product of a request -/

inductive CatalogStatus where
  | explicit | explicitMultiple | resolved | unresolved | ambiguous
deriving DecidableEq, Repr

structure CatalogResolution where
  status : CatalogStatus
  candidateCount : Nat
  productLineageId : Option Str
  productName : Option Str
deriving DecidableEq, Repr

section
variable (U : Unicode) (nfkc : Str → Str)

def canonicalCatalogText (value : Str) : Str := [' '].intercalate (PyStr.words (U.casefold (nfkc value)))

/-- The places at which `text.find(sub, …)` finds a text, one after the other. -/
def occurrences (sub text : Str) : List Nat := (List.range (text.length + 1)).filter fun i => sub.isPrefixOf (text.drop i)

def nameIsOnlyNested (query name : Str) (longerNames : List Str) : Bool :=
  (occurrences name query).all fun i => longerNames.any fun longer => (occurrences longer query).any fun j =>
    j ≤ i ∧ i + name.length ≤ j + longer.length

/-- The lineages whose names occur in the query, with the length of the normalized name. -/
def catalogCandidates (K : Catalog) (req : ContractSearchRequest) : List (Str × Str × Nat) :=
  ((PyList.sortedBy (·.productLineageId) (K.lineages.filter fun l => req.issuer.all (l.issuer = ·))).filter fun l =>
      canonicalCatalogText U nfkc l.name ≠ [] ∧
        PyStr.contains (canonicalCatalogText U nfkc l.name) (canonicalCatalogText U nfkc req.query)).map
    fun l => (l.productLineageId, l.name, (canonicalCatalogText U nfkc l.name).length)

/-- The search of a product by the names in the query. -/
def resolveByName (K : Catalog) (req : ContractSearchRequest) : CatalogResolution :=
  let candidates := catalogCandidates U nfkc K req
  let longest := candidates.filter fun c => !nameIsOnlyNested (canonicalCatalogText U nfkc req.query)
    (canonicalCatalogText U nfkc c.2.1)
    ((candidates.filter (c.2.2 < ·.2.2)).map fun other => canonicalCatalogText U nfkc other.2.1)
  if candidates = [] then ⟨.unresolved, 0, none, none⟩
  else match longest with
    | [c] => ⟨.resolved, 1, some c.1, some c.2.1⟩
    | _ => ⟨.ambiguous, longest.length, none, none⟩

def resolveCatalog (K : Catalog) (req : ContractSearchRequest) : Except Raised CatalogResolution :=
  match req.productLineageIds, req.productLineageId with
  | some ids, _ => do
    let rows := K.lineages.filter (·.productLineageId ∈ ids)
    raiseIf (¬ (∀ id ∈ ids, id ∈ rows.map (·.productLineageId)))
      (valueError "one or more explicit product lineages do not exist")
    raiseIf (req.issuer.any fun issuer => rows.any (·.issuer ≠ issuer))
      (valueError "explicit product lineage does not belong to issuer")
    pure ⟨.explicitMultiple, rows.length, none, none⟩
  | none, some id =>
    match K.lineages.find? (·.productLineageId = id) with
    | none => throw (valueError "explicit product lineage does not exist")
    | some l => do
      raiseIf (req.issuer.any (l.issuer ≠ ·)) (valueError "explicit product lineage does not belong to issuer")
      pure ⟨.explicit, 1, some id, none⟩
  | none, none => pure (resolveByName U nfkc K req)

/-- The request with the product that its query names. -/
def effectiveRequest (req : ContractSearchRequest) (catalog : CatalogResolution) : ContractSearchRequest :=
  if catalog.status = .resolved then { req with productLineageId := catalog.productLineageId } else req

end

end Search

end CardRag
