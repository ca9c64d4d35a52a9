import CardRag.Paging.Cursor
import CardRag.Search.Bundles
import CardRag.Search.Catalog

/-! # Evidence search on contract generations (`repository.py`)

`_search_v5_compat`: the filters of a search for evidence become the scope of a contract search, and the
matches of its bundles, filtered by section, are ranked and answered in pages. What the contract search
does with the revisions of a scope is a `Retrieval`. -/

namespace CardRag.Search

open Paging

structure SearchFilters where
  issuer : Option Str
  productCode : Option Str
  documentId : Option Str
  sectionType : Option Str
  identifiers : ∀ v ∈ issuer.toList ++ productCode.toList ++ documentId.toList, IsIdentifier v

structure SearchRequest where
  query : Str
  filters : SearchFilters
  limit : Nat := 10
  cursor : Option Str := none

structure Evidence (σ : Type) where
  evidenceId : Str
  documentId : Str
  issuer : Str
  productCode : Str
  productName : Str
  documentTitle : Str
  pageStart : Nat
  pageEnd : Nat
  sectionType : Str
  text : Str
  sourceStart : Nat
  sourceEnd : Nat
  pdfSha256 : Str
  score : Option σ
  lexicalRank : Option Nat
  vectorRank : Option Nat

structure SearchPage (σ : Type) where
  items : List (Evidence σ)
  nextCursor : Option Str

/-- What a contract search makes of the revisions of its scope: bundles of some of these revisions, whose
matches are nodes of the bundle's revision. -/
structure Retrieval (σ : Type) (nodes : List NodeRow) where
  bundles : (productSpecific : Bool) → List ContractRevisionSummary → Except Raised (List (ContractEvidenceBundle σ))
  contract_mem : ∀ {productSpecific revisions bs}, bundles productSpecific revisions = .ok bs →
    ∀ b ∈ bs, b.contract ∈ revisions
  node_mem : ∀ {productSpecific revisions bs}, bundles productSpecific revisions = .ok bs → ∀ b ∈ bs, ∀ m ∈ b.matches,
    ∃ row ∈ nodes, row.contractRevisionId = b.contract.contractRevisionId ∧ row.nodeId = m.node.nodeId ∧
      row.nodeType = m.node.nodeType ∧ row.majorClass = m.node.majorClass

section
variable {σ : Type} (U : Unicode) (nfkc : Str → Str) {nodes : List NodeRow} (retrieval : Retrieval σ nodes) (K : Catalog)

/-- `V5ExactRepository.search` in the mode `exact`, up to the diagnostics. -/
def exactSearch (req : ContractSearchRequest) : Except Raised (List (ContractEvidenceBundle σ)) := do
  let catalog ← resolveCatalog U nfkc K req
  let revisions ← activeRevisions K (effectiveRequest req catalog)
  retrieval.bundles ((catalog.status = .explicit ∨ catalog.status = .resolved) ∧ revisions.length = 1) revisions

/-- `len(rows) == 1`. -/
def soleLineageId : List ProductLineageRow → Option Str
  | [l] => some l.productLineageId
  | _ => none

/-- The lineage that the filters name. -/
def filterLineage (f : SearchFilters) : Option Str :=
  match f.documentId, f.productCode with
  | some documentId, _ => (K.revisions.find? (·.documentId = documentId)).map (·.productLineageId)
  | none, some productCode =>
    soleLineageId (PyList.sortedBy (·.productLineageId)
      (K.lineages.filter fun l => l.productCode = productCode ∧ f.issuer.all (l.issuer = ·)))
  | none, none => none

/-- The contract search of an evidence search. -/
def contractRequest (request : SearchRequest) : ContractSearchRequest :=
  { query := request.query, issuer := request.filters.issuer, productLineageId := filterLineage K request.filters
    limit := 50 }

/-- The section filter admits a node of this type and class. -/
def sectionAdmits (sectionType : Option Str) (nodeType : NodeType) (majorClass : MajorClass) : Bool :=
  sectionType.all fun s => U.casefold s ∈ [U.casefold nodeType.text, U.casefold majorClass.text]

/-- `max(views, key=lambda view: (view.score, -view.row_index))`: the first of the largest. -/
def bestView (F : FloatOps σ) : List (ScoredEmbeddingView σ) → Option (ScoredEmbeddingView σ)
  | [] => none
  | first :: rest => some (rest.foldl (fun best v =>
      if F.lt best.score v.score = true ∨ (F.lt v.score best.score = false ∧ v.rowIndex < best.rowIndex) then v
      else best) first)

/-- The evidence of a match: none if the section does not fit or the best view has no span. -/
def matchEvidence (F : FloatOps σ) (sectionType : Option Str) (contract : ContractRevisionSummary)
    (m : ScoredStructureNode σ) : Option (Nat → Evidence σ) :=
  if sectionAdmits U sectionType m.node.nodeType m.node.majorClass then
    (bestView F m.matchedViews).bind fun view =>
      view.spans.head?.bind fun first => view.spans.getLast?.map fun last => fun vectorRank =>
        ⟨m.node.nodeId, contract.documentId, contract.issuer, contract.productCode, contract.productName,
          contract.productName, first.page, last.page, m.node.nodeType.text, view.displayText, first.sourceStart,
          last.sourceEnd, contract.pdfSha256, some m.score, if m.lexicalOnly then some 1 else none, some vectorRank⟩
  else none

/-- `ranked`. -/
def rankedEvidence (F : FloatOps σ) (sectionType : Option Str) (bundles : List (ContractEvidenceBundle σ)) :
    List (Evidence σ) :=
  (bundles.flatMap fun b => b.matches.filterMap (matchEvidence U F sectionType b.contract)).mapIdx
    fun i evidence => evidence (i + 1)

/-- `_binding(request)`. -/
def searchBinding (H : Sha256) (request : SearchRequest) : Str :=
  let text : Option Str → Json := fun value => value.elim .null .str
  H.hexdigest (Json.renderAscii (.obj [("filters".toList, .obj [("document_id".toList, text request.filters.documentId),
      ("issuer".toList, text request.filters.issuer), ("product_code".toList, text request.filters.productCode),
      ("section_type".toList, text request.filters.sectionType)]),
    ("query_sha256".toList, .str (H.hexdigest request.query))]))

/-- A page of a ranked list. -/
def answerPage (M : HmacSha256) (C : CursorCodec) (generationId binding : Str) (ranked : List (Evidence σ)) (cursor : Option Str)
    (limit : Nat) : Except Raised (SearchPage σ) := do
  let offset ← C.decode M cursor generationId binding ranked.length
  let items := (ranked.drop offset).take limit
  pure ⟨items, if offset + items.length < ranked.length then some (C.encode M generationId (offset + items.length) binding)
    else none⟩

def searchV5Compat (H : Sha256) (M : HmacSha256) (C : CursorCodec) (F : FloatOps σ) (generationId : Str)
    (request : SearchRequest) : Except Raised (SearchPage σ) := do
  let bundles ← exactSearch U nfkc retrieval K (contractRequest K request)
  answerPage M C generationId (searchBinding H request) (rankedEvidence U F request.filters.sectionType bundles)
    request.cursor request.limit

end

end CardRag.Search
