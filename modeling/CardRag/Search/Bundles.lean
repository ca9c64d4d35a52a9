import CardRag.Search.Graph

/-! # Evidence bundles (`exact.py`)

`_build_evidence_bundle` and the loop of `V5ExactRepository.search` that packs the bundles of the
ranked contracts into one response, in the modes `auto` and `full`. The lexical audit is the set of
nodes it found in each revision. -/

namespace CardRag.Search

/-- What the interpreter and `pydantic` do: the order of sets, the arithmetic of doubles and how a
double is written in JSON. -/
structure Runtime (σ : Type) where
  hash : SetOrder
  float : FloatOps σ
  floatText : σ → Str

structure ScoredEmbeddingView (σ : Type) where
  rowIndex : Nat
  viewType : ViewType
  score : σ
  displayText : Str
  spans : List SourceSpan

structure ScoredStructureNode (σ : Type) where
  node : ContextNode
  score : σ
  matchedViewTypes : List ViewType
  matchedViews : List (ScoredEmbeddingView σ)
  lexicalOnly : Bool

structure ContractEvidenceBundle (σ : Type) where
  contract : ContractRevisionSummary
  «matches» : List (ScoredStructureNode σ)
  nodes : List ContextNode
  linkedNoticeCount : Nat
  parentExpansionCount : Nat

/-! ### The size of a bundle -/

def jsonObject (fields : List (String × Str)) : Str :=
  '\x7b' :: [','].intercalate (fields.map fun f => Json.renderStr f.1.toList ++ ':' :: f.2) ++ ['\x7d']

def jsonArray (items : List Str) : Str := '[' :: [','].intercalate items ++ [']']

def jsonOption {α : Type} (dump : α → Str) : Option α → Str
  | none => "null".toList
  | some a => dump a

def jsonBool (b : Bool) : Str := if b then "true".toList else "false".toList

def jsonTexts (items : List Str) : Str := jsonArray (items.map Json.renderStr)

def SourceSpan.dump (s : SourceSpan) : Str :=
  jsonObject [("node_id", Json.renderStr s.nodeId), ("page", Json.decimal s.page),
    ("source_start", Json.decimal s.sourceStart), ("source_end", Json.decimal s.sourceEnd),
    ("text_sha256", Json.renderStr s.textSha256), ("span_ordinal", Json.decimal s.spanOrdinal),
    ("text", Json.renderStr s.text)]

def StructureNodeLink.dump (l : StructureNodeLink) : Str :=
  jsonObject [("from_node_id", Json.renderStr l.fromNodeId), ("to_node_id", Json.renderStr l.toNodeId),
    ("link_type", Json.renderStr l.linkType.text)]

def ContextNode.dump (n : ContextNode) : Str :=
  jsonObject [("node_id", Json.renderStr n.nodeId),
    ("contract_revision_id", Json.renderStr n.contractRevisionId),
    ("parent_id", jsonOption Json.renderStr n.parentId), ("node_type", Json.renderStr n.nodeType.text),
    ("major_class", Json.renderStr n.majorClass.text), ("raw_heading", jsonOption Json.renderStr n.rawHeading),
    ("ordinal", Json.decimal n.ordinal), ("display_text", Json.renderStr n.displayText),
    ("spans", jsonArray (n.spans.map (·.dump))), ("links", jsonArray (n.links.map (·.dump))),
    ("table_headers", jsonTexts n.tableHeaders), ("table_cells", jsonTexts n.tableCells),
    ("table_role", jsonOption (fun role => Json.renderStr (TableRole.text role)) n.tableRole)]

def ContractRevisionSummary.dump (c : ContractRevisionSummary) : Str :=
  jsonObject [("product_lineage_id", Json.renderStr c.productLineageId),
    ("contract_revision_id", Json.renderStr c.contractRevisionId), ("document_id", Json.renderStr c.documentId),
    ("issuer", Json.renderStr c.issuer), ("product_code", Json.renderStr c.productCode),
    ("product_name", Json.renderStr c.productName), ("document_type", Json.renderStr c.documentType),
    ("source_id", Json.renderStr c.sourceId), ("source_version", Json.renderStr c.sourceVersion),
    ("source_url", Json.renderStr c.sourceUrl),
    ("effective_date", jsonOption (fun d => Json.renderStr (Date.isoformat d)) c.effectiveDate),
    ("temporal_status", Json.renderStr c.temporalStatus.text),
    ("supersedes_revision_id", jsonOption Json.renderStr c.supersedesRevisionId),
    ("pdf_sha256", Json.renderStr c.pdfSha256), ("page_count", Json.decimal c.pageCount)]

section
variable {σ : Type} (R : Runtime σ)

def ScoredEmbeddingView.dump (v : ScoredEmbeddingView σ) : Str :=
  jsonObject [("row_index", Json.decimal v.rowIndex), ("view_type", Json.renderStr v.viewType.text),
    ("score", R.floatText v.score), ("display_text", Json.renderStr v.displayText),
    ("spans", jsonArray (v.spans.map (·.dump)))]

def ScoredStructureNode.dump (m : ScoredStructureNode σ) : Str :=
  jsonObject [("node", m.node.dump), ("score", R.floatText m.score),
    ("matched_view_types", jsonTexts (m.matchedViewTypes.map (·.text))),
    ("matched_views", jsonArray (m.matchedViews.map (·.dump R))), ("lexical_only", jsonBool m.lexicalOnly)]

/-- `model_dump_json()`. -/
def ContractEvidenceBundle.dump (b : ContractEvidenceBundle σ) : Str :=
  jsonObject [("contract", b.contract.dump), ("matches", jsonArray (b.matches.map (·.dump R))),
    ("nodes", jsonArray (b.nodes.map (·.dump))), ("linked_notice_count", Json.decimal b.linkedNoticeCount),
    ("parent_expansion_count", Json.decimal b.parentExpansionCount)]

def ContractEvidenceBundle.contextCharacterCount (b : ContractEvidenceBundle σ) : Nat := (b.dump R).length

/-! ### One bundle -/

def graphContextCharacterCount (nodes : List ContextNode) : Nat :=
  (nodes.map fun n => n.displayText.length + (n.rawHeading.getD []).length + (n.tableHeaders.map (·.length)).sum +
    (n.tableCells.map (·.length)).sum + (n.spans.map (·.text.length)).sum).sum

def fullContractContextNodeLimit : Nat := 512

def fullContractContextCharacterLimit : Nat := 500000

def fullContractExceedsContextLimit (db : Tables) (revisionId : Str) : Bool :=
  let rows := db.nodes.filter (·.contractRevisionId = revisionId)
  let spans := db.spans.filter (·.contractRevisionId = revisionId)
  let jsonLength (items : List Str) : Nat := (jsonTexts items).length
  let characters := (rows.map fun row => row.displayText.length + (row.rawHeading.getD []).length +
    jsonLength row.tableHeaders + jsonLength row.tableCells).sum
  decide (fullContractContextNodeLimit < rows.length) ||
    decide (fullContractContextCharacterLimit < characters + (spans.map fun s => s.sourceEnd - s.sourceStart).sum)

/-- The spans of a view. -/
def viewSourceSpans (db : Tables) (nodeId : Str) (rowIndex : Nat) : Except Raised (List SourceSpan) :=
  (PyList.sortedBy (·.spanOrdinal) (db.viewSpans.filter (·.rowIndex = rowIndex))).filterMap (fun s =>
      (db.pageText s.contractRevisionId s.page).map fun text =>
        (⟨nodeId, s.page, s.sourceStart, s.sourceEnd, s.textSha256, s.spanOrdinal,
          PyStr.slice text s.sourceStart s.sourceEnd⟩ : SourceSpan)) |>.mapM SourceSpan.checked

/-- One view of `_matched_views`, checked by the validators of `ScoredEmbeddingView`. -/
def matchedView (db : Tables) (revisionId nodeId : Str) (view : ViewScore σ) :
    Except Raised (ScoredEmbeddingView σ) := do
  let spans ← viewSourceSpans db nodeId view.rowIndex
  match db.views.find? (·.rowIndex = view.rowIndex) with
  | none => throw ⟨.runtimeError, "scored embedding view provenance disappeared"⟩
  | some row => do
    -- a view without spans is not in the join
    raiseIf (spans = [] ∨ row.nodeId ≠ nodeId ∨ row.contractRevisionId ≠ revisionId ∨ row.viewType ≠ view.viewType)
      ⟨.runtimeError, "scored embedding view provenance disappeared"⟩
    raiseIf (R.float.isFinite view.score = false) (valueError "embedding view score must be finite")
    raiseIf (spans.flatMap (·.text) ≠ row.displayText)
      (valueError "embedding view display text must equal its source spans")
    pure ⟨view.rowIndex, view.viewType, view.score, row.displayText, spans⟩

/-- A `ScoredStructureNode`, checked by its validator. -/
def ScoredStructureNode.checked (m : ScoredStructureNode σ) : Except Raised (ScoredStructureNode σ) := do
  raiseIf (m.matchedViewTypes = []) (valueError "Tuple should have at least 1 item after validation")
  match m.matchedViews with
  | [] => throw (valueError "Tuple should have at least 1 item after validation")
  | first :: rest => do
    raiseIf (¬ (m.matchedViews.map (·.rowIndex)).Nodup) (valueError "matched embedding view rows must be unique")
    let best := R.float.maximum first.score (rest.map (·.score))
    raiseIf (R.float.isClose m.score best = false)
      (valueError "structure node score must equal its best matched view")
    raiseIf (m.matchedViewTypes ≠ (m.matchedViews.filter fun v => R.float.isClose v.score best).map (·.viewType))
      (valueError "matched view types must identify every best-scoring lane")
    pure m

abbrev NodeScores (σ : Type) := List ((Str × Str) × NodeScore σ)

/-- A match of `_build_evidence_bundle`. -/
def scoredNode (db : Tables) (revisionId : Str) (lexicalHitIds : List Str) (hit : ContextNode × NodeScore σ) :
    Except Raised (ScoredStructureNode σ) := do
  let views ← hit.2.views.mapM (matchedView R db revisionId hit.1.nodeId)
  ScoredStructureNode.checked R
    ⟨hit.1, hit.2.score, hit.2.viewTypes, views, decide (hit.1.nodeId ∈ lexicalHitIds)⟩

/-- The initial nodes that are in the graph and have a score. -/
def scoredHits (revisionId : Str) (nodeScores : NodeScores σ) (nodes : List ContextNode) (initial : List Str) :
    List (ContextNode × NodeScore σ) :=
  initial.filterMap fun nodeId =>
    match PyList.get? (PyList.dictOf (·.nodeId) nodes) nodeId, PyList.get? nodeScores (revisionId, nodeId) with
    | some node, some score => some (node, score)
    | _, _ => none

/-- The graph of a bundle, and whether it fell back from the full contract. -/
def bundleGraph (db : Tables) (revisionId : Str) (initial : List Str) (productSpecificFull : Bool) :
    Except Raised (ExpandedGraph × Bool) := do
  let fallback := productSpecificFull && fullContractExceedsContextLimit db revisionId
  let graph ← expandedGraph R.hash db revisionId initial (productSpecificFull && !fallback)
  if productSpecificFull ∧ fallback = false ∧ (fullContractContextNodeLimit < graph.nodes.length ∨
      fullContractContextCharacterLimit < graphContextCharacterCount graph.nodes) then do
    let graph ← expandedGraph R.hash db revisionId initial false
    pure (graph, true)
  else pure (graph, fallback)

def buildEvidenceBundle (db : Tables) (nodeScores : NodeScores σ) (productSpecificFull : Bool)
    (summary : ContractRevisionSummary) (revisionId : Str) (initial lexicalHitIds : List Str) :
    Except Raised (ContractEvidenceBundle σ × Bool) := do
  let (graph, fallback) ← bundleGraph R db revisionId initial productSpecificFull
  let hits ← (scoredHits revisionId nodeScores graph.nodes initial).mapM (scoredNode R db revisionId lexicalHitIds)
  pure (⟨summary, hits, graph.nodes, graph.linkedNoticeCount, graph.parentExpansionCount⟩, fallback)

/-! ### The loop over the ranking -/

/-- `sorted(…, key=lambda item: (-score, id))`. -/
def rankByScore (entries : List (Str × σ)) : List Str :=
  (entries.insertionSort fun a b => R.float.lt b.2 a.2 = true ∨ (R.float.lt a.2 b.2 = false ∧ a.1 ≤ b.1)).map (·.1)

/-- `dense_hit_ids`: the eight best nodes of a revision. -/
def denseHitIds (nodeScores : NodeScores σ) (revisionId : Str) : List Str :=
  (rankByScore R ((nodeScores.filter (·.1.1 = revisionId)).map fun e => (e.1.2, e.2.score))).take 8

/-- `nodes_by_revision` of the lexical audit; a revision without nodes has none. -/
abbrev LexicalNodes := Str → List Str

def lexicalHitIds (nodeScores : NodeScores σ) (lexical : LexicalNodes) (revisionId : Str) : List Str :=
  PyList.sortedSet ((lexical revisionId).filter (· ∉ denseHitIds R nodeScores revisionId))

/-- The variables of the loop. -/
structure Packed (σ : Type) where
  bundles : List (ContractEvidenceBundle σ) := []
  additionalCount : Nat := 0
  fullContractFallbackCount : Nat := 0
  responseNodeCount : Nat := 0
  responseCharacterCount : Nat := 0
  responseTruncated : Bool := false

def maxSearchResponseNodes : Nat := 2048

def maxSearchResponseCharacters : Nat := 1000000

/-- `exceeds_budget` of a candidate bundle. -/
def Packed.exceeds (st : Packed σ) (candidate : ContractEvidenceBundle σ) : Bool :=
  decide (maxSearchResponseNodes < st.responseNodeCount + candidate.nodes.length) ||
    decide (maxSearchResponseCharacters < st.responseCharacterCount + candidate.contextCharacterCount R)

def Packed.add (st : Packed σ) (candidate : ContractEvidenceBundle σ × Bool) (emittedLexicalCount : Nat) : Packed σ :=
  { st with
    bundles := st.bundles ++ [candidate.1]
    additionalCount := st.additionalCount + emittedLexicalCount
    fullContractFallbackCount := st.fullContractFallbackCount + candidate.2.toNat
    responseNodeCount := st.responseNodeCount + candidate.1.nodes.length
    responseCharacterCount := st.responseCharacterCount + candidate.1.contextCharacterCount R }

/-- What a search has before it packs: the tables, the active revisions, the scores, and whether the
whole contract is asked for. -/
structure Ranking (σ : Type) where
  tables : Tables
  revisions : List ContractRevisionSummary
  nodeScores : NodeScores σ
  contractScores : List (Str × σ)
  limit : Nat
  productSpecificFull : Bool

/-- The bundle of a ranked revision with the given lexical nodes. -/
def Ranking.bundle (q : Ranking σ) (revisionId : Str) (lexicalHits : List Str) :
    Except Raised (ContractEvidenceBundle σ × Bool) :=
  match PyList.get? (PyList.dictOf (·.contractRevisionId) q.revisions) revisionId with
  | none => throw ⟨.keyError, "summaries"⟩
  | some summary =>
    buildEvidenceBundle R q.tables q.nodeScores q.productSpecificFull summary revisionId
      (denseHitIds R q.nodeScores revisionId ++ lexicalHits) lexicalHits

def Ranking.pack (q : Ranking σ) (lexical : LexicalNodes) (st : Packed σ) : List Str → Except Raised (Packed σ)
  | [] => pure st
  | revisionId :: rest => do
    let lexicalHits := lexicalHitIds R q.nodeScores lexical revisionId
    let candidate ← q.bundle R revisionId lexicalHits
    if st.exceeds R candidate.1 = false then
      q.pack lexical (st.add R candidate lexicalHits.length) rest
    else if lexicalHits = [] then pure { st with responseTruncated := true }
    else do
      -- the dense bundle alone
      let candidate ← q.bundle R revisionId []
      let st := { st with responseTruncated := true }
      if st.exceeds R candidate.1 = false then q.pack lexical (st.add R candidate 0) rest
      else pure st

def Ranking.rankedRevisionIds (q : Ranking σ) : List Str := (rankByScore R q.contractScores).take q.limit

/-- The bundles of a complete search. -/
def Ranking.search (q : Ranking σ) (lexical : LexicalNodes) : Except Raised (Packed σ) :=
  q.pack R lexical {} (q.rankedRevisionIds R)

end

end CardRag.Search
