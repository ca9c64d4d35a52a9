import CardRag.History.State
import CardRag.Lib.Permuted

/-! # Planning the revision history (`revision_history_v5.py`)

The rows of a lineage become contract revisions, one for each source and PDF, and those whose source is not known
become unresolved identities. The dictionaries of the source are read off the rows they are filled from. -/

namespace CardRag.History

/-! ### Sources -/

/-- `SourceRecord`, as far as its discovery payload goes; `metadata` is in canonical form. -/
structure SourceRecord where
  issuer : Str
  productCode : Str
  productName : Str
  effectiveDate : Str
  sourceVersion : Str
  sourceUrl : Str
  sourcePostId : Str
  fileName : Str
  category : Str
  metadata : Json
  documentType : Str

namespace SourceRecord
variable (H : Sha256) (s : SourceRecord)

def lineage : Lineage := ⟨s.issuer, s.productCode, s.documentType⟩

def discoveryPayload : Json := .obj [
  ("category".toList, .str s.category), ("document_type".toList, .str s.documentType),
  ("effective_date".toList, .str s.effectiveDate), ("file_name".toList, .str s.fileName),
  ("issuer".toList, .str s.issuer), ("metadata".toList, s.metadata), ("product_code".toList, .str s.productCode),
  ("product_name".toList, .str s.productName), ("source_post_id".toList, .str s.sourcePostId),
  ("source_url".toList, .str s.sourceUrl), ("source_version".toList, .str s.sourceVersion)]

def sourceId : Str := "source_".toList ++ H.canonical s.discoveryPayload

def documentId (pdfSha256 : Str) : Except Raised Str := do
  raiseIf (isSha256 pdfSha256 = false) (valueError "invalid PDF sha256")
  return "doc_".toList ++ H.canonical (.obj [
    ("document_type".toList, .str s.documentType), ("effective_date".toList, .str s.effectiveDate),
    ("issuer".toList, .str s.issuer), ("pdf_sha256".toList, .str pdfSha256),
    ("product_code".toList, .str s.productCode), ("version".toList, .str s.sourceVersion)])

/-- `_record_identity(source)` -/
def identity : PDFSourceIdentity :=
  ⟨s.sourceId H, s.lineage, s.sourceUrl, s.sourceVersion, s.sourcePostId, H.canonical s.discoveryPayload⟩

end SourceRecord

/-! ### Plans -/

/-- A source and a PDF. -/
abbrev Identity := Str × Str

abbrev Row := PDFSourceRevisionRow

def identityOf (row : Row) : Identity := (row.sourceId, row.pdfSha256)

/-- `RevisionHistoryCandidateV5` -/
structure Candidate where
  source : SourceRecord
  revision : Row
  temporalStatus : TemporalStatus
  supersedesDocumentId : Option Str

inductive UnresolvedReason where
  | documentIdentityCollision
  | pdfCacheObjectUnavailable
  | sourceMetadataUnresolved
deriving DecidableEq

/-- `UnresolvedRevisionIdentityV5` -/
structure UnresolvedRevision where
  sourceId : Str
  pdfSha256 : Str
  reasonCode : UnresolvedReason
  valid : isSourceId sourceId = true ∧ isSha256 pdfSha256 = true

def UnresolvedRevision.make (sourceId pdfSha256 : Str) (reasonCode : UnresolvedReason) :
    Except Raised UnresolvedRevision :=
  if valid : isSourceId sourceId = true ∧ isSha256 pdfSha256 = true then .ok ⟨sourceId, pdfSha256, reasonCode, valid⟩
  else .error (valueError "unresolved revision identity is invalid")

/-- `RevisionHistoryPlanV5` -/
structure Plan where
  candidates : List Candidate
  unresolvedRevisions : List UnresolvedRevision

def historyError (message : String) : Raised := ⟨.revisionHistoryError, message⟩

/-! ### The rows -/

def timestamp (field : String) (value : Str) : Except Raised Unit :=
  match Datetime.fromisoformat value with
  | none => .error (historyError s!"historical {field} is invalid")
  | some parsed => raiseIf (parsed.offset = none) (historyError s!"historical {field} is timezone-naive")

/-- What is checked of a row by itself. -/
def checkFields (lineage : Lineage) (row : Row) : Except Raised Unit := do
  raiseIf (row.source.identity.lineage ≠ lineage) (historyError "historical PDF revision crosses a product lineage")
  raiseIf (row.revision.previousRevisionId.any (row.revisionId ≤ ·))
    (historyError "historical PDF revision order is not forward-only")
  timestamp "source_first_observed_at" row.source.firstObservedAt
  timestamp "source_last_observed_at" row.source.lastObservedAt
  timestamp "revision_first_observed_at" row.revision.firstObservedAt
  timestamp "revision_last_observed_at" row.revision.lastObservedAt
  timestamp "verified_at" row.revision.verifiedAt
  row.revision.supersededAt.forM (timestamp "superseded_at")
  row.source.supersededAt.forM (timestamp "source_superseded_at")

/-- A row after the rows `prior`. -/
def checkRow (lineage : Lineage) (prior : List Row) (row : Row) : Except Raised Unit := do
  raiseIf (prior.any (·.revisionId = row.revisionId)) (historyError "historical PDF revision_id is duplicated")
  checkFields lineage row
  raiseIf ((prior.find? (·.sourceId = row.sourceId)).any (·.source.identity ≠ row.source.identity))
    (historyError "historical source identity changes across byte revisions")

/-- The loop over the rows. -/
def checkRows (lineage : Lineage) (rows : List Row) : Except Raised (List Row) :=
  rows.foldlM (fun prior row => do
    checkRow lineage prior row
    return prior ++ [row]) []

/-- The rows that satisfy `q`, the oldest revision first. -/
def ordered (rows : List Row) (q : Row → Bool) : List Row := PyList.sortedBy (·.revisionId) (rows.filter q)

/-- The keys of `rows_by_identity`. -/
def identities (rows : List Row) : List Identity := (rows.map identityOf).dedup

/-- The keys of `source_rows`. -/
def sourceIds (rows : List Row) : List Str := (rows.map (·.sourceId)).dedup

/-! ### Known sources -/

/-- `resolved_sources` -/
def resolveSources (H : Sha256) (lineage : Lineage) (rows : List Row) (knownSources : List (Str × SourceRecord)) :
    Except Raised (List (Str × SourceRecord)) :=
  knownSources.foldlM (fun resolved known =>
    if known.2.lineage ≠ lineage then return resolved
    else match (rows.find? (·.sourceId = known.1)).map (·.source.identity) with
      | none => return resolved
      | some persisted => do
        raiseIf (known.2.identity H ≠ persisted) (historyError "snapshot source payload conflicts with PDF cache history")
        return PyList.insert known.1 known.2 resolved) []

/-- `contract_identity[0] in resolved_sources` -/
def isResolved (resolved : List (Str × SourceRecord)) (k : Identity) : Bool := (PyList.get? resolved k.1).isSome

/-- `unresolved_revisions` -/
def unresolved (rows : List Row) (resolved : List (Str × SourceRecord)) : Except Raised (List UnresolvedRevision) :=
  (PyList.sortedBy toLex ((identities rows).filter (isResolved resolved · = false))).mapM fun k =>
    UnresolvedRevision.make k.1 k.2 .sourceMetadataUnresolved

/-! ### Predecessors -/

/-- The identity of a row and that of its previous revision, when they differ. -/
def previousEdge (rows : List Row) (row : Row) : Except Raised (Option (Identity × Identity)) :=
  match row.revision.previousRevisionId with
  | none => return none
  | some id =>
    match rows.find? (·.revisionId = id) with
    | none => throw (historyError "historical previous_revision_id is missing or cross-source")
    | some previous => do
      raiseIf (previous.sourceId ≠ row.sourceId)
        (historyError "historical previous_revision_id is missing or cross-source")
      return if identityOf previous = identityOf row then none else some (identityOf row, identityOf previous)

/-- The successor of a source, and the source. -/
def successorOf (rows : List Row) (sourceId : Str) : Except Raised (Option (Str × Str)) :=
  match PyList.only? ((rows.filter (·.sourceId = sourceId)).map (·.source.supersededBySourceId)).dedup with
  | some successor => return successor.map (·, sourceId)
  | none => throw (historyError "historical source successor changes across byte revisions")

/-- Both sources are known, and give the two identities one document. -/
def sameDocument (H : Sha256) (resolved : List (Str × SourceRecord)) (target predecessor : Identity) :
    Except Raised Bool :=
  match PyList.get? resolved predecessor.1, PyList.get? resolved target.1 with
  | some predecessorSource, some source => do
    let targetDocument ← source.documentId H target.2
    let predecessorDocument ← predecessorSource.documentId H predecessor.2
    return targetDocument = predecessorDocument
  | _, _ => return false

/-- The first revision of a source that has one predecessor source, and the last revision of that. -/
def transitionEdge (H : Sha256) (rows : List Row) (resolved : List (Str × SourceRecord)) (priors : List (Str × Str))
    (sourceId : Str) : Except Raised (Option (Identity × Identity)) :=
  match PyList.only? ((priors.filter (·.1 = sourceId)).map (·.2)) with
  | some prior =>
    match (ordered rows (·.sourceId = sourceId)).head?, (ordered rows (·.sourceId = prior)).getLast? with
    | some first, some last =>
      if identityOf first = identityOf last then return none
      else do
        let same ← sameDocument H resolved (identityOf first) (identityOf last)
        return if same then none else some (identityOf first, identityOf last)
    | _, _ => return none
  | none => return none

/-- `predecessor_candidates`: an identity and one that it may supersede. -/
def predecessorEdges (H : Sha256) (rows : List Row) (resolved : List (Str × SourceRecord)) :
    Except Raised (List (Identity × Identity)) := do
  let previous ← rows.mapM (previousEdge rows)
  let successors ← (sourceIds rows).mapM (successorOf rows)
  let priors := successors.reduceOption
  let transitions ← (priors.map (·.1)).dedup.mapM (transitionEdge H rows resolved priors)
  return previous.reduceOption ++ transitions.reduceOption

/-! ### The plan -/

/-- `supersedes_document_id` of an identity with the predecessors `predecessors`. -/
def supersededDocument (H : Sha256) (resolved : List (Str × SourceRecord)) (source : SourceRecord) (k : Identity)
    (predecessors : List Identity) : Except Raised (Option Str) :=
  match PyList.only? predecessors with
  | some predecessor =>
    match PyList.get? resolved predecessor.1 with
    | some predecessorSource => do
      let superseded ← predecessorSource.documentId H predecessor.2
      let document ← source.documentId H k.2
      return if superseded = document then none else some superseded
    | none => return none
  | none => return none

/-- The candidate of an included identity, which has a source and rows. -/
def candidateOf (H : Sha256) (current : Identity) (rows : List Row) (resolved : List (Str × SourceRecord))
    (edges : List (Identity × Identity)) (k : Identity) : Except Raised Candidate :=
  match PyList.get? resolved k.1, (ordered rows (identityOf · = k)).getLast? with
  | some source, some representative => do
    let temporalStatus : TemporalStatus :=
      if k = current then .current
      else if rows.any fun row => identityOf row = k ∧ (row.revision.supersededAt ≠ none ∨ row.source.supersededAt ≠ none)
      then .superseded
      else .ambiguous
    let predecessors := ((edges.filter fun e => e.1 = k ∧ isResolved resolved e.2 ∧ e.2 ∈ identities rows).map (·.2)).dedup
    let superseded ← supersededDocument H resolved source k predecessors
    return ⟨source, representative, temporalStatus, superseded⟩
  | _, _ => throw ⟨.keyError, ""⟩

def candidateKey (H : Sha256) (c : Candidate) : Str ×ₗ Nat ×ₗ Str ×ₗ Str :=
  toLex (c.revision.revision.firstObservedAt,
    toLex (c.revision.revisionId, toLex (c.source.sourceId H, c.revision.pdfSha256)))

/-- `known_sources` with the current source. -/
def withCurrent (H : Sha256) (currentSource : SourceRecord) (knownSources : List (Str × SourceRecord)) :
    Except Raised (List (Str × SourceRecord)) :=
  match PyList.get? knownSources (currentSource.sourceId H) with
  | none => return PyList.insert (currentSource.sourceId H) currentSource knownSources
  | some known => do
    raiseIf (known.discoveryPayload.render ≠ currentSource.discoveryPayload.render)
      (historyError "current source payload conflicts with snapshot history")
    return knownSources

/-- `plan_revision_history_v5` -/
def planRevisionHistory (H : Sha256) (currentSource : SourceRecord) (currentPdfSha256 : Str) (rows : List Row)
    (knownSources : List (Str × SourceRecord)) : Except Raised Plan := do
  let current : Identity := (currentSource.sourceId H, currentPdfSha256)
  let knownSources ← withCurrent H currentSource knownSources
  let lineage := currentSource.lineage
  raiseIf (rows = []) (historyError "current lineage has no durable PDF revision history")
  let _ ← checkRows lineage rows
  raiseIf (rows.all fun row => ¬ (identityOf row = current ∧ row.revision.supersededAt = none ∧
      row.source.supersededAt = none))
    (historyError "current discovery/PDF is not the active durable revision")
  let resolved ← resolveSources H lineage rows knownSources
  let unresolvedRevisions ← unresolved rows resolved
  let edges ← predecessorEdges H rows resolved
  let planned ← ((identities rows).filter (isResolved resolved)).mapM
    (candidateOf H current rows resolved edges)
  let candidates := PyList.sortedBy (candidateKey H) planned
  raiseIf (candidates.countP (·.temporalStatus = .current) ≠ 1)
    (historyError "revision plan does not contain exactly one current contract")
  return ⟨candidates, unresolvedRevisions⟩

/-! ### The rows of a plan -/

/-- What the loop over the rows makes sure of. -/
structure ValidRows (lineage : Lineage) (rows : List Row) : Prop where
  nodup : (rows.map (·.revisionId)).Nodup
  fields : ∀ row ∈ rows, checkFields lineage row = .ok ()
  static : ∀ a ∈ rows, ∀ b ∈ rows, a.sourceId = b.sourceId → a.source.identity = b.source.identity

section
variable {lineage : Lineage} {rows rows' prior : List Row} {row : Row}

theorem ValidRows.nil : ValidRows lineage [] := ⟨List.nodup_nil, nofun, nofun⟩

theorem ValidRows.subset (h : ValidRows lineage rows) (hn : (rows'.map (·.revisionId)).Nodup)
    (hsub : rows' ⊆ rows) : ValidRows lineage rows' :=
  ⟨hn, fun row hrow => h.fields row (hsub hrow), fun a ha b hb => h.static a (hsub ha) b (hsub hb)⟩

theorem ValidRows.perm (h : ValidRows lineage rows) (hp : rows'.Perm rows) : ValidRows lineage rows' :=
  h.subset ((hp.map _).nodup_iff.2 h.nodup) hp.subset

theorem ValidRows.eq_of_revisionId (h : ValidRows lineage rows) {a b : Row} (ha : a ∈ rows) (hb : b ∈ rows)
    (hid : a.revisionId = b.revisionId) : a = b := List.inj_on_of_nodup_map h.nodup ha hb hid

theorem checkRow_eq_ok (h : ValidRows lineage prior) {u : Unit} :
    checkRow lineage prior row = .ok u ↔ ValidRows lineage (prior ++ [row]) := by
  unfold checkRow
  simp only [Guard.bind_eq_ok, raiseIf_eq_ok, Guard.exists_unit]
  constructor
  · rintro ⟨hnew, hfields, hsame⟩
    have hnone : ∀ a ∈ prior, a.revisionId ≠ row.revisionId := by simpa using hnew
    have hstatic : ∀ a ∈ prior, a.sourceId = row.sourceId → a.source.identity = row.source.identity := by
      intro a ha hid
      cases hfind : prior.find? (·.sourceId = row.sourceId) with
      | none => exact absurd hid (by simpa using List.find?_eq_none.1 hfind a ha)
      | some b =>
        have hb : b.sourceId = row.sourceId := by simpa using List.find?_some hfind
        rw [h.static a ha b (List.mem_of_find?_eq_some hfind) (hid.trans hb.symm)]
        simpa [hfind] using hsame
    refine ⟨?_, ?_, ?_⟩
    · rw [List.map_append, List.nodup_append]
      refine ⟨h.nodup, List.nodup_singleton _, fun id hid id' hid' => ?_⟩
      obtain ⟨a, ha, rfl⟩ := List.mem_map.1 hid
      rw [List.map_singleton, List.mem_singleton] at hid'
      exact hid' ▸ hnone a ha
    · intro a ha
      rcases List.mem_append.1 ha with ha | ha
      · exact h.fields a ha
      · exact List.mem_singleton.1 ha ▸ hfields
    · intro a ha b hb hid
      rcases List.mem_append.1 ha with hpa | hna <;> rcases List.mem_append.1 hb with hpb | hnb
      · exact h.static a hpa b hpb hid
      · obtain rfl := List.mem_singleton.1 hnb
        exact hstatic a hpa hid
      · obtain rfl := List.mem_singleton.1 hna
        exact (hstatic b hpb hid.symm).symm
      · rw [List.mem_singleton.1 hna, List.mem_singleton.1 hnb]
  · intro hv
    have hrow : row ∈ prior ++ [row] := by simp
    refine ⟨?_, hv.fields row hrow, ?_⟩
    · have hnodup := hv.nodup
      rw [List.map_append, List.nodup_append] at hnodup
      simp only [List.any_eq_true, decide_eq_true_eq, not_exists, not_and]
      exact fun a ha => hnodup.2.2 _ (List.mem_map_of_mem ha) _ (by simp)
    · cases hfind : prior.find? (·.sourceId = row.sourceId) with
      | none => simp
      | some b =>
        have hb : b.sourceId = row.sourceId := by simpa using List.find?_some hfind
        have hsame := hv.static b (List.mem_append_left _ (List.mem_of_find?_eq_some hfind)) row hrow hb
        simp [hsame]

theorem checkRows_eq_ok {rs : List Row} : checkRows lineage rows = .ok rs ↔ rs = rows ∧ ValidRows lineage rows := by
  have hloop : ∀ (rest prior : List Row), ValidRows lineage prior →
      (rest.foldlM (fun prior row => do
        checkRow lineage prior row
        return prior ++ [row]) prior = .ok rs ↔ rs = prior ++ rest ∧ ValidRows lineage (prior ++ rest)) := by
    intro rest
    induction rest with
    | nil =>
      intro prior hprior
      rw [List.foldlM_nil, Guard.pure_eq_ok, List.append_nil]
      exact ⟨fun h => ⟨h.symm, hprior⟩, fun h => h.1.symm⟩
    | cons row rest ih =>
      intro prior hprior
      simp only [List.foldlM_cons, Guard.bind_eq_ok, Guard.pure_eq_ok, checkRow_eq_ok hprior]
      constructor
      · rintro ⟨_, ⟨_, hrow, rfl⟩, hrest⟩
        simpa using (ih _ hrow).1 hrest
      · rintro ⟨rfl, hv⟩
        have hrow : ValidRows lineage (prior ++ [row]) :=
          hv.subset (hv.nodup.sublist (List.Sublist.map _ (by simp))) (by simp)
        exact ⟨_, ⟨(), hrow, rfl⟩, (ih _ hrow).2 (by simpa using hv)⟩
  have hrows := hloop rows [] .nil
  rwa [List.nil_append] at hrows

/-! ### Permuted rows -/

variable (h : ValidRows lineage rows) (hp : rows'.Perm rows)
include h hp

theorem ordered_perm (q : Row → Bool) : ordered rows' q = ordered rows q := by
  refine PyList.sortedBy_eq_of_perm (hp.filter q) fun a ha b hb hid => ?_
  exact (h.perm hp).eq_of_revisionId (List.mem_of_mem_filter ha) (List.mem_of_mem_filter hb) hid

theorem findRevision_perm (id : Nat) : rows'.find? (·.revisionId = id) = rows.find? (·.revisionId = id) := by
  have hfind := PyList.find?_map_of_perm (p := fun row : Row => row.revisionId = id) (f := fun row => row) hp
    fun a ha b hb hpa hpb => h.eq_of_revisionId ha hb ((of_decide_eq_true hpa).trans (of_decide_eq_true hpb).symm)
  simpa using hfind

theorem findIdentity_perm (sourceId : Str) : (rows'.find? (·.sourceId = sourceId)).map (·.source.identity) =
    (rows.find? (·.sourceId = sourceId)).map (·.source.identity) :=
  PyList.find?_map_of_perm hp fun a ha b hb hpa hpb =>
    h.static a ha b hb ((of_decide_eq_true hpa).trans (of_decide_eq_true hpb).symm)

theorem resolveSources_perm (H : Sha256) (knownSources : List (Str × SourceRecord)) :
    resolveSources H lineage rows' knownSources = resolveSources H lineage rows knownSources := by
  simp only [resolveSources, findIdentity_perm h hp]

theorem previousEdge_perm : previousEdge rows' = previousEdge rows := by
  funext row
  simp only [previousEdge, findRevision_perm h hp]

omit h in
theorem identities_perm : (identities rows').Perm (identities rows) := (hp.map _).dedup

omit h in
theorem sourceIds_perm : (sourceIds rows').Perm (sourceIds rows) := (hp.map _).dedup

omit h in
theorem unresolved_perm (resolved : List (Str × SourceRecord)) : unresolved rows' resolved = unresolved rows resolved := by
  rw [unresolved, unresolved]
  congr 1
  refine PyList.sortedBy_eq_of_perm ((identities_perm hp).filter _) fun a _ b _ hab => ?_
  exact toLex_inj.1 hab

omit h in
theorem successorOf_perm : successorOf rows' = successorOf rows := by
  funext sourceId
  have hsuccessors := ((hp.filter fun row => row.sourceId = sourceId).map (·.source.supersededBySourceId)).dedup
  simp only [successorOf, PyList.only?_of_perm hsuccessors]

theorem transitionEdge_perm (H : Sha256) (resolved : List (Str × SourceRecord)) {priors priors' : List (Str × Str)}
    (hpriors : priors'.Perm priors) :
    transitionEdge H rows' resolved priors' = transitionEdge H rows resolved priors := by
  funext sourceId
  have honly := PyList.only?_of_perm ((hpriors.filter fun e => e.1 = sourceId).map (·.2))
  simp only [transitionEdge, honly, ordered_perm h hp]

theorem predecessorEdges_perm (H : Sha256) {resolved : List (Str × SourceRecord)} {edges : List (Identity × Identity)}
    (hedges : predecessorEdges H rows resolved = .ok edges) :
    ∃ edges', predecessorEdges H rows' resolved = .ok edges' ∧ edges'.Perm edges := by
  unfold predecessorEdges at hedges
  simp only [Guard.bind_eq_ok, Guard.pure_eq_ok] at hedges
  obtain ⟨previous, hprevious, successors, hsuccessors, transitions, htransitions, rfl⟩ := hedges
  obtain ⟨previous', hprevious', hpp⟩ := Guard.mapM_perm hp hprevious
  obtain ⟨successors', hsuccessors', hsp⟩ := Guard.mapM_perm (sourceIds_perm hp) hsuccessors
  have hpriors := PyList.reduceOption_perm hsp
  obtain ⟨transitions', htransitions', htp⟩ := Guard.mapM_perm (hpriors.map (·.1)).dedup htransitions
  refine ⟨_, ?_, (PyList.reduceOption_perm hpp).append (PyList.reduceOption_perm htp)⟩
  unfold predecessorEdges
  rw [previousEdge_perm h hp, successorOf_perm hp]
  simp only [Guard.bind_eq_ok, Guard.pure_eq_ok]
  refine ⟨previous', hprevious', successors', hsuccessors', transitions', ?_, rfl⟩
  rw [transitionEdge_perm h hp H resolved hpriors]
  exact htransitions'

theorem candidateOf_perm (H : Sha256) (current : Identity) (resolved : List (Str × SourceRecord))
    {edges edges' : List (Identity × Identity)} (hedges : edges'.Perm edges) :
    candidateOf H current rows' resolved edges' = candidateOf H current rows resolved edges := by
  funext k
  have hmem : ∀ k, k ∈ identities rows' ↔ k ∈ identities rows := fun k => (identities_perm hp).mem_iff
  have hany : ∀ q : Row → Bool, rows'.any q = rows.any q := fun q => by
    rw [Bool.eq_iff_iff, List.any_eq_true, List.any_eq_true]
    exact exists_congr fun row => and_congr_left' hp.mem_iff
  have honly := PyList.only?_of_perm (((hedges.filter fun e => e.1 = k ∧ isResolved resolved e.2 ∧
    e.2 ∈ identities rows).map (·.2)).dedup)
  simp only [candidateOf, supersededDocument, ordered_perm h hp, hany, hmem, honly]

end

/-! ### The candidates -/

section
variable {H : Sha256} {current : Identity} {rows : List Row} {resolved : List (Str × SourceRecord)}
  {edges : List (Identity × Identity)} {lineage : Lineage}

/-- What a candidate says of its identity. -/
theorem candidateOf_eq_ok {k : Identity} {c : Candidate} (hc : candidateOf H current rows resolved edges k = .ok c) :
    c.revision ∈ rows ∧ identityOf c.revision = k ∧ PyList.get? resolved k.1 = some c.source ∧
      (c.temporalStatus = .current ↔ k = current) := by
  unfold candidateOf at hc
  split at hc
  · rename_i source representative hsource hlast
    simp only [Guard.bind_eq_ok, Guard.pure_eq_ok] at hc
    obtain ⟨superseded, -, rfl⟩ := hc
    have hmem := List.mem_of_getLast? hlast
    rw [ordered, PyList.mem_sortedBy, List.mem_filter, decide_eq_true_eq] at hmem
    refine ⟨hmem.1, hmem.2, hsource, ?_⟩
    show (if k = current then _ else _) = _ ↔ _
    split
    · simp [*]
    · split <;> simp [*]
  · cases hc

/-- The candidates, before they are sorted, are those of the identities. -/
theorem identities_of_candidates {ks : List Identity} {planned : List Candidate}
    (hplanned : ks.mapM (candidateOf H current rows resolved edges) = .ok planned) :
    planned.map (identityOf ·.revision) = ks := by
  rw [Guard.mapM_eq_ok] at hplanned
  induction hplanned with
  | nil => rfl
  | cons hc _ ih => rw [List.map_cons, ih, (candidateOf_eq_ok hc).2.1]

theorem identities_of_unresolved {ks : List Identity} {us : List UnresolvedRevision}
    (hus : ks.mapM (fun k => UnresolvedRevision.make k.1 k.2 .sourceMetadataUnresolved) = .ok us) :
    us.map (fun u => (u.sourceId, u.pdfSha256)) = ks := by
  rw [Guard.mapM_eq_ok] at hus
  induction hus with
  | nil => rfl
  | cons hu _ ih =>
    unfold UnresolvedRevision.make at hu
    split at hu
    · cases hu
      rw [List.map_cons, ih]
    · cases hu

/-- A resolved source is the one its rows name. -/
theorem resolveSources_identity {knownSources : List (Str × SourceRecord)}
    (hresolved : resolveSources H lineage rows knownSources = .ok resolved) {id : Str} {s : SourceRecord}
    (hget : PyList.get? resolved id = some s) :
    (rows.find? (·.sourceId = id)).map (·.source.identity) = some (s.identity H) := by
  refine Guard.foldlM_inv (fun resolved => ∀ id s, PyList.get? resolved id = some s →
    (rows.find? (·.sourceId = id)).map (·.source.identity) = some (s.identity H)) ?_ hresolved nofun id s hget
  intro resolved known resolved' hstep hinv id s hget
  split at hstep
  · rw [Guard.pure_eq_ok] at hstep
    exact hinv id s (hstep ▸ hget)
  · split at hstep
    · rw [Guard.pure_eq_ok] at hstep
      exact hinv id s (hstep ▸ hget)
    · rename_i persisted hpersisted
      simp only [Guard.bind_eq_ok, raiseIf_eq_ok, Guard.exists_unit, Guard.pure_eq_ok, not_not] at hstep
      obtain ⟨hsame, rfl⟩ := hstep
      rw [PyList.get?_insert] at hget
      split at hget
      · rename_i hid
        cases hget
        rw [← hid, hpersisted, hsame]
      · exact hinv id s hget

end

section
variable {H : Sha256} {currentSource : SourceRecord} {currentPdfSha256 : Str} {rows : List Row}
  {knownSources : List (Str × SourceRecord)} {p : Plan}

/-- The stages of a plan. -/
structure Planned (H : Sha256) (currentSource : SourceRecord) (current : Identity) (rows : List Row)
    (knownSources resolved : List (Str × SourceRecord)) (edges : List (Identity × Identity)) (planned : List Candidate)
    (p : Plan) : Prop where
  known : ∃ known, withCurrent H currentSource knownSources = .ok known ∧
    resolveSources H currentSource.lineage rows known = .ok resolved
  rows_ne : rows ≠ []
  valid : ValidRows currentSource.lineage rows
  active : ∃ row ∈ rows, identityOf row = current ∧ row.revision.supersededAt = none ∧ row.source.supersededAt = none
  unresolvedOk : unresolved rows resolved = .ok p.unresolvedRevisions
  edgesOk : predecessorEdges H rows resolved = .ok edges
  plannedOk : ((identities rows).filter (isResolved resolved)).mapM (candidateOf H current rows resolved edges) = .ok planned
  candidates : p.candidates = PyList.sortedBy (candidateKey H) planned
  one : p.candidates.countP (·.temporalStatus = .current) = 1

theorem planRevisionHistory_eq_ok : planRevisionHistory H currentSource currentPdfSha256 rows knownSources = .ok p ↔
    ∃ resolved edges planned, Planned H currentSource (currentSource.sourceId H, currentPdfSha256) rows knownSources
      resolved edges planned p := by
  unfold planRevisionHistory
  simp only [Guard.bind_eq_ok, raiseIf_eq_ok, Guard.exists_unit, Guard.pure_eq_ok, checkRows_eq_ok]
  constructor
  · rintro ⟨known, hknown, hne, _, ⟨rfl, hvalid⟩, hactive, resolved, hresolved, us, hus, edges, hedges, planned,
      hplanned, hone, rfl⟩
    exact ⟨resolved, edges, planned, ⟨known, hknown, hresolved⟩, hne, hvalid, by simpa using hactive, hus, hedges,
      hplanned, rfl, by simpa using hone⟩
  · rintro ⟨resolved, edges, planned, ⟨known, hknown, hresolved⟩, hne, hvalid, hactive, hus, hedges, hplanned, hcandidates,
      hone⟩
    refine ⟨known, hknown, hne, _, ⟨rfl, hvalid⟩, by simpa using hactive, resolved, hresolved, _, hus, edges, hedges,
      planned, hplanned, ?_, ?_⟩
    · rw [← hcandidates]
      simpa using hone
    · rw [← hcandidates]

namespace Planned
variable {current : Identity} {resolved : List (Str × SourceRecord)} {edges : List (Identity × Identity)}
  {planned : List Candidate} {rows' : List Row}

theorem mem_planned (h : Planned H currentSource current rows knownSources resolved edges planned p) {c : Candidate} :
    c ∈ p.candidates ↔ c ∈ planned := by rw [h.candidates, PyList.mem_sortedBy]

theorem candidate (h : Planned H currentSource current rows knownSources resolved edges planned p) {c : Candidate}
    (hc : c ∈ planned) : ∃ k, candidateOf H current rows resolved edges k = .ok c := by
  obtain ⟨k, -, hk⟩ := Guard.mem_of_mapM_ok h.plannedOk hc
  exact ⟨k, hk⟩

/-- Two candidates with one revision are the same. -/
theorem eq_of_revisionId (h : Planned H currentSource current rows knownSources resolved edges planned p)
    {c d : Candidate} (hc : c ∈ planned) (hd : d ∈ planned) (hid : c.revision.revisionId = d.revision.revisionId) :
    c = d := by
  obtain ⟨k, hk⟩ := h.candidate hc
  obtain ⟨l, hl⟩ := h.candidate hd
  obtain ⟨hcrow, hck, -, -⟩ := candidateOf_eq_ok hk
  obtain ⟨hdrow, hdl, -, -⟩ := candidateOf_eq_ok hl
  have hsame : k = l := by rw [← hck, ← hdl, h.valid.eq_of_revisionId hcrow hdrow hid]
  rw [hsame] at hk
  exact Except.ok.inj (hk.symm.trans hl)

/-- Every identity is in one of the two lists, and only once. -/
theorem partition (h : Planned H currentSource current rows knownSources resolved edges planned p) :
    (p.candidates.map (identityOf ·.revision) ++ p.unresolvedRevisions.map fun u => (u.sourceId, u.pdfSha256)).Perm
      (identities rows) := by
  have hcandidates : (p.candidates.map (identityOf ·.revision)).Perm ((identities rows).filter (isResolved resolved)) := by
    rw [h.candidates, ← identities_of_candidates h.plannedOk]
    exact (PyList.sortedBy_perm _ _).map _
  have hunresolved : (p.unresolvedRevisions.map fun u => (u.sourceId, u.pdfSha256)).Perm
      ((identities rows).filter (isResolved resolved · = false)) := by
    rw [identities_of_unresolved h.unresolvedOk]
    exact PyList.sortedBy_perm _ _
  refine (hcandidates.append hunresolved).trans ?_
  have hnot : (identities rows).filter (isResolved resolved · = false) =
      (identities rows).filter fun k => !isResolved resolved k :=
    List.filter_congr fun k _ => by simp
  rw [hnot]
  exact List.filter_append_perm _ _

/-- The one current candidate is the one asked for. -/
theorem current_candidate (h : Planned H currentSource current rows knownSources resolved edges planned p) :
    ∃ c, p.candidates.filter (·.temporalStatus = .current) = [c] ∧ identityOf c.revision = current ∧
      c.source.sourceId H = current.1 := by
  obtain ⟨c, hone⟩ := List.length_eq_one_iff.1 (List.countP_eq_length_filter ▸ h.one)
  have hmem : c ∈ p.candidates.filter (·.temporalStatus = .current) := by rw [hone]; exact List.mem_singleton_self c
  obtain ⟨hc, hcurrent⟩ := List.mem_filter.1 hmem
  obtain ⟨k, hk⟩ := h.candidate (h.mem_planned.1 hc)
  obtain ⟨hrow, hidentity, hsource, hstatus⟩ := candidateOf_eq_ok hk
  obtain rfl := hstatus.1 (of_decide_eq_true hcurrent)
  refine ⟨c, hone, hidentity, ?_⟩
  obtain ⟨known, -, hresolved⟩ := h.known
  have hfind := resolveSources_identity hresolved hsource
  cases hrows : rows.find? (·.sourceId = k.1) with
  | none => rw [hrows] at hfind; cases hfind
  | some row =>
    rw [hrows, Option.map_some, Option.some.injEq] at hfind
    have hid : row.sourceId = k.1 := by simpa using List.find?_some hrows
    rw [← hid]
    exact (congrArg PDFSourceIdentity.sourceId hfind).symm

/-- The order of the rows does not matter. -/
theorem perm (h : Planned H currentSource current rows knownSources resolved edges planned p) (hp : rows'.Perm rows) :
    ∃ edges' planned', Planned H currentSource current rows' knownSources resolved edges' planned' p := by
  obtain ⟨known, hknown, hresolved⟩ := h.known
  obtain ⟨edges', hedges', hep⟩ := predecessorEdges_perm h.valid hp H h.edgesOk
  have hcandidateOf := candidateOf_perm h.valid hp H current resolved hep
  obtain ⟨planned', hplanned', hpp⟩ :=
    Guard.mapM_perm ((identities_perm hp).filter (isResolved resolved)) h.plannedOk
  have hsorted : PyList.sortedBy (candidateKey H) planned' = PyList.sortedBy (candidateKey H) planned := by
    refine PyList.sortedBy_eq_of_perm hpp fun c hc d hd hkey => ?_
    refine h.eq_of_revisionId (hpp.subset hc) (hpp.subset hd) ?_
    have hkey' := (Prod.mk.inj (toLex_inj.1 hkey)).2
    exact (Prod.mk.inj (toLex_inj.1 hkey')).1
  obtain ⟨row, hrow, hactive⟩ := h.active
  refine ⟨edges', planned', ⟨known, hknown, ?_⟩, ?_, h.valid.perm hp, ⟨row, hp.mem_iff.2 hrow, hactive⟩, ?_, hedges', ?_, ?_,
    h.one⟩
  · rw [resolveSources_perm h.valid hp]
    exact hresolved
  · rintro rfl
    exact h.rows_ne (List.nil_perm.1 hp)
  · rw [unresolved_perm hp]
    exact h.unresolvedOk
  · rw [hcandidateOf]
    exact hplanned'
  · rw [h.candidates, hsorted]

end Planned

/-- A plan has each identity of the rows once, as a candidate or as unresolved; exactly one candidate is current,
the one asked for; and any order of the rows gives the same plan. -/
theorem plan_partition (h : planRevisionHistory H currentSource currentPdfSha256 rows knownSources = .ok p) :
    (p.candidates.map (identityOf ·.revision) ++ p.unresolvedRevisions.map fun u => (u.sourceId, u.pdfSha256)).Nodup ∧
      (∀ k, k ∈ (p.candidates.map (identityOf ·.revision) ++
        p.unresolvedRevisions.map fun u => (u.sourceId, u.pdfSha256)) ↔ ∃ row ∈ rows, identityOf row = k) ∧
      (∃ c, p.candidates.filter (·.temporalStatus = .current) = [c] ∧
        identityOf c.revision = (currentSource.sourceId H, currentPdfSha256) ∧
        c.source.sourceId H = currentSource.sourceId H) ∧
      ∀ rows' : List Row, rows'.Perm rows →
        planRevisionHistory H currentSource currentPdfSha256 rows' knownSources = .ok p := by
  obtain ⟨resolved, edges, planned, hplan⟩ := planRevisionHistory_eq_ok.1 h
  refine ⟨hplan.partition.nodup_iff.2 (List.nodup_dedup _), fun k => ?_, hplan.current_candidate, fun rows' hp => ?_⟩
  · rw [hplan.partition.mem_iff, identities, List.mem_dedup, List.mem_map]
  · obtain ⟨edges', planned', hplan'⟩ := hplan.perm hp
    exact planRevisionHistory_eq_ok.2 ⟨resolved, edges', planned', hplan'⟩

end

/-! ### A source that got new bytes -/

def cardSource : SourceRecord where
  issuer := "a".toList
  productCode := "b".toList
  productName := "c".toList
  effectiveDate := "2026-01-01".toList
  sourceVersion := "1".toList
  sourceUrl := "https://a/b".toList
  sourcePostId := []
  fileName := "b.pdf".toList
  category := "card".toList
  metadata := .obj []
  documentType := "terms".toList

def stamp : Str := "2026-01-01T00:00:00+00:00".toList

/-- The revision `id` with bytes of digest `c…c`. -/
def rowOf (id : Nat) (c : Char) (supersededAt : Option Str) (previous : Option Nat) : Row where
  revision := {
    revisionId := id, sourceId := cardSource.sourceId .standard, pdfSha256 := List.replicate 64 c, pdfSizeBytes := 10,
    pageCount := 1, finalUrl := cardSource.sourceUrl, etag := none, lastModified := none, firstObservedAt := stamp,
    lastObservedAt := stamp, verifiedAt := stamp, supersededAt := supersededAt, previousRevisionId := previous }
  source := ⟨cardSource.identity .standard, stamp, stamp, stamp, none, none⟩
  relativePath := []

theorem plan_partition_two : ∃ p, planRevisionHistory .standard cardSource (List.replicate 64 'b')
      [rowOf 1 'a' (some stamp) none, rowOf 2 'b' none (some 1)] [] = .ok p ∧
    planRevisionHistory .standard cardSource (List.replicate 64 'b')
      [rowOf 2 'b' none (some 1), rowOf 1 'a' (some stamp) none] [] = .ok p := by
  have hok : (planRevisionHistory .standard cardSource (List.replicate 64 'b')
      [rowOf 1 'a' (some stamp) none, rowOf 2 'b' none (some 1)] []).isOk = true := by decide +kernel
  obtain ⟨p, hp⟩ := Guard.exists_ok_of_isOk hok
  exact ⟨p, hp, (plan_partition hp).2.2.2 _ (List.Perm.swap _ _ _)⟩

end CardRag.History
