import CardRag.Lib.Datetime
import CardRag.Search.Aggregation

/-! # Context graphs (`exact.py`, `models.py`)

The tables of a generation that a search reads, the records of a response, and `_expanded_graph`: the
nodes a bundle shows around the nodes that were hit. A Python set is a list without repetitions, read
in the order of its insertion; where the code iterates over a set, the order is the runtime's
(`SetOrder`). -/

namespace CardRag

def LinkType.text : LinkType → Str
  | continuationOf => "CONTINUATION_OF".toList
  | footnoteOf => "FOOTNOTE_OF".toList
  | appliesTo => "APPLIES_TO".toList
  | previous => "PREVIOUS".toList
  | next => "NEXT".toList

namespace Search

/-- The order in which the interpreter iterates over a set. -/
structure SetOrder where
  order : List Str → List Str
  perm : ∀ s, (order s).Perm s

/-! ### Tables -/

/-- A row of `structure_nodes`; the two JSON columns are read as the lists they hold. -/
structure NodeRow where
  contractRevisionId : Str
  nodeId : Str
  parentId : Option Str
  nodeType : NodeType
  majorClass : MajorClass
  rawHeading : Option Str
  ordinal : Nat
  displayText : Str
  tableHeaders : List Str
  tableCells : List Str
  tableRole : Option TableRole
deriving DecidableEq, Repr

/-- A row of `node_spans`. -/
structure SpanRow where
  contractRevisionId : Str
  nodeId : Str
  page : Nat
  sourceStart : Nat
  sourceEnd : Nat
  textSha256 : Str
  spanOrdinal : Nat
deriving DecidableEq, Repr

/-- A row of `node_links`. -/
structure LinkRow where
  fromContractRevisionId : Str
  toContractRevisionId : Str
  fromNodeId : Str
  toNodeId : Str
  linkType : LinkType
deriving DecidableEq, Repr

/-- A row of `embedding_views`. -/
structure ViewRow where
  rowIndex : Nat
  contractRevisionId : Str
  nodeId : Str
  viewType : ViewType
  displayText : Str
deriving DecidableEq, Repr

/-- A row of `embedding_view_spans`. -/
structure ViewSpanRow where
  rowIndex : Nat
  contractRevisionId : Str
  page : Nat
  sourceStart : Nat
  sourceEnd : Nat
  textSha256 : Str
  spanOrdinal : Nat
deriving DecidableEq, Repr

structure Tables where
  nodes : List NodeRow
  spans : List SpanRow
  /-- `document_pages`: revision, page, text -/
  pages : List (Str × Nat × Str)
  links : List LinkRow
  views : List ViewRow
  viewSpans : List ViewSpanRow

/-- The text of a page. -/
def Tables.pageText (db : Tables) (revisionId : Str) (page : Nat) : Option Str :=
  (db.pages.find? fun p => p.1 = revisionId ∧ p.2.1 = page).map (·.2.2)

/-! ### Records of a response -/

structure ContractRevisionSummary where
  productLineageId : Str
  contractRevisionId : Str
  documentId : Str
  issuer : Str
  productCode : Str
  productName : Str
  documentType : Str
  sourceId : Str
  sourceVersion : Str
  sourceUrl : Str
  effectiveDate : Option Date
  temporalStatus : TemporalStatus
  supersedesRevisionId : Option Str
  pdfSha256 : Str
  pageCount : Nat
deriving DecidableEq, Repr

structure SourceSpan where
  nodeId : Str
  page : Nat
  sourceStart : Nat
  sourceEnd : Nat
  textSha256 : Str
  spanOrdinal : Nat
  text : Str
deriving DecidableEq, Repr

structure StructureNodeLink where
  fromNodeId : Str
  toNodeId : Str
  linkType : LinkType
deriving DecidableEq, Repr

structure ContextNode where
  nodeId : Str
  contractRevisionId : Str
  parentId : Option Str
  nodeType : NodeType
  majorClass : MajorClass
  rawHeading : Option Str
  ordinal : Nat
  displayText : Str
  spans : List SourceSpan
  links : List StructureNodeLink
  tableHeaders : List Str
  tableCells : List Str
  tableRole : Option TableRole
deriving DecidableEq, Repr

/-- A `SourceSpan`, checked by its validators. -/
def SourceSpan.checked (span : SourceSpan) : Except Raised SourceSpan := do
  raiseIf (span.page < 1) (valueError "Input should be greater than or equal to 1")
  raiseIf (span.sourceEnd ≤ span.sourceStart) (valueError "source span end must follow start")
  pure span

/-- A `StructureNode` of the response, checked by its validators. -/
def ContextNode.checked (node : ContextNode) : Except Raised ContextNode := do
  raiseIf (2000 < (node.rawHeading.getD []).length) (valueError "String should have at most 2000 characters")
  match node.nodeType with
  | .tableRow =>
    raiseIf (node.tableRole = none ∨ node.tableCells = [])
      (valueError "table row requires original cells and a role")
  | .table =>
    raiseIf (node.tableCells ≠ [] ∨ node.tableRole ≠ none)
      (valueError "table container cannot contain row-only metadata")
  | _ =>
    raiseIf (node.tableHeaders ≠ [] ∨ node.tableCells ≠ [] ∨ node.tableRole ≠ none)
      (valueError "non-table node cannot contain table metadata")
  pure node

/-! ### The expansion -/

def Tables.nodeRows (db : Tables) (revisionId : Str) : List (Str × NodeRow) :=
  PyList.dictOf (·.nodeId) (PyList.sortedBy (fun row : NodeRow => toLex (row.ordinal, row.nodeId))
    (db.nodes.filter (·.contractRevisionId = revisionId)))

/-- The links inside a revision, in the order of the query. -/
def Tables.nodeLinks (db : Tables) (revisionId : Str) : List StructureNodeLink :=
  (PyList.sortedBy (fun l : StructureNodeLink => toLex (l.fromNodeId, toLex (l.toNodeId, l.linkType.text)))
    ((db.links.filter fun l => l.fromContractRevisionId = revisionId ∧ l.toContractRevisionId = revisionId).map
      fun l => ⟨l.fromNodeId, l.toNodeId, l.linkType⟩))

def Tables.spansByNode (db : Tables) (revisionId : Str) : Except Raised (List SourceSpan) :=
  (PyList.sortedBy (fun s : SpanRow => toLex (s.nodeId, s.spanOrdinal))
    (db.spans.filter (·.contractRevisionId = revisionId))).filterMap (fun s =>
      (db.pageText revisionId s.page).map fun text =>
        (⟨s.nodeId, s.page, s.sourceStart, s.sourceEnd, s.textSha256, s.spanOrdinal,
          PyStr.slice text s.sourceStart s.sourceEnd⟩ : SourceSpan)) |>.mapM SourceSpan.checked

/-- `s.add(x)`. -/
def addTo (s : List Str) (x : Str) : List Str := if x ∈ s then s else s ++ [x]

theorem mem_addTo {s : List Str} {x y : Str} : y ∈ addTo s x ↔ y ∈ s ∨ y = x := by
  unfold addTo
  split
  · rename_i h
    exact ⟨.inl, fun hy => hy.elim id fun hy => hy ▸ h⟩
  · simp

theorem mem_foldl_addTo {xs s : List Str} {x : Str} : x ∈ xs.foldl addTo s ↔ x ∈ s ∨ x ∈ xs := by
  induction xs generalizing s with
  | nil => simp
  | cons y xs ih => rw [List.foldl_cons, ih, mem_addTo, List.mem_cons, or_assoc]

section
variable (hash : SetOrder) (rows : List (Str × NodeRow))

/-- `children`: the nodes below a node. -/
def children (nodeId : Str) : List Str :=
  (PyList.values rows).filterMap fun row => if row.parentId = some nodeId then some row.nodeId else none

/-- `add_descendants`; every call but the first has added a node, so `n` bounds the depth. It does not
go below a node that is selected already. -/
def addDescendants : Nat → List Str → Str → List Str
  | 0, selected, _ => selected
  | n + 1, selected, nodeId =>
    (hash.order (children rows nodeId)).foldl (fun selected child =>
      if child ∈ selected then selected else addDescendants n (selected ++ [child]) child) selected

/-- A node and its ancestors, nearest first. -/
def lineage : Nat → Str → List NodeRow
  | 0, _ => []
  | n + 1, current =>
    match PyList.get? rows current with
    | none => []
    | some row =>
      match row.parentId with
      | none => [row]
      | some parent => row :: lineage n parent

def addItemContext (selected : List Str) (nodeId : Str) : List Str :=
  let walk := lineage rows (rows.length + 1) nodeId
  let selected := (walk.map (·.nodeId)).foldl addTo selected
  match walk.find? (·.nodeType = .item) with
  | none => selected
  | some item => addDescendants hash rows (rows.length + 1) selected item.nodeId

def addAppliesSourceContext (selected : List Str) (nodeId : Str) : List Str :=
  let container := (lineage rows (rows.length + 1) nodeId).find? fun row =>
    (row.nodeType = .item ∨ row.nodeType = .majorSection) ∧ (row.majorClass = .notice ∨ row.majorClass = .mixed)
  let selected := addItemContext hash rows selected nodeId
  match container with
  | none => selected
  | some row => addDescendants hash rows (rows.length + 1) selected row.nodeId

/-- One of the three loops over the links: `expand` for each link of the types that has an end in the
base context. -/
def expandLinks (types : List LinkType) (base : List Str) (expand : List Str → StructureNodeLink → List Str)
    (links : List StructureNodeLink) (selected : List Str) : List Str :=
  links.foldl (fun selected link =>
    if link.linkType ∈ types ∧ (link.fromNodeId ∈ base ∨ link.toNodeId ∈ base) then expand selected link
    else selected) selected

/-- The node ids selected at the start. -/
def initialIds (initial : List Str) (full : Bool) : List Str :=
  if full then rows.map (·.1) else (initial.filter (· ∈ rows.map (·.1))).foldl addTo []

/-- `selected`, for the scope `full`. -/
def selectedIds (links : List StructureNodeLink) (initial : List Str) (full : Bool) : List Str :=
  let selected := initialIds rows initial full
  if full then selected
  else
    let base := (hash.order selected).foldl (addItemContext hash rows) selected
    let both (selected : List Str) (link : StructureNodeLink) : List Str :=
      addItemContext hash rows (addItemContext hash rows selected link.fromNodeId) link.toNodeId
    let selected := expandLinks [.appliesTo] base (fun selected link =>
      addItemContext hash rows (addAppliesSourceContext hash rows selected link.fromNodeId) link.toNodeId) links base
    let selected := expandLinks [.footnoteOf, .continuationOf] base both links selected
    expandLinks [.previous, .next] base both links selected

end

/-- The record of a row. -/
def NodeRow.toContextNode (row : NodeRow) (spans : List SourceSpan) (links : List StructureNodeLink) : ContextNode :=
  ⟨row.nodeId, row.contractRevisionId, row.parentId, row.nodeType, row.majorClass, row.rawHeading, row.ordinal,
    row.displayText, spans.filter (·.nodeId = row.nodeId), links.filter (·.fromNodeId = row.nodeId),
    row.tableHeaders, row.tableCells, row.tableRole⟩

structure ExpandedGraph where
  nodes : List ContextNode
  parentExpansionCount : Nat
  linkedNoticeCount : Nat

def expandedGraph (hash : SetOrder) (db : Tables) (revisionId : Str) (initial : List Str) (full : Bool) :
    Except Raised ExpandedGraph := do
  let rows := db.nodeRows revisionId
  let links := db.nodeLinks revisionId
  let spans ← db.spansByNode revisionId
  let selected := selectedIds hash rows links initial full
  let selectedLinks := links.filter fun l => l.fromNodeId ∈ selected ∧ l.toNodeId ∈ selected
  let ordered := PyList.sortedBy (fun row : NodeRow => toLex (row.ordinal, row.nodeId)) (PyList.values rows)
  let nodes ← (ordered.filter (·.nodeId ∈ selected)).mapM fun row =>
    (row.toContextNode spans selectedLinks).checked
  let notices := (selectedLinks.filter (·.linkType = .appliesTo)).flatMap fun l =>
    [l.fromNodeId, l.toNodeId].filter fun id =>
      (PyList.get? rows id).any fun row => row.majorClass = .notice ∨ row.majorClass = .mixed
  pure ⟨nodes, (selected.filter (· ∉ initialIds rows initial full)).length, notices.dedup.length⟩

end Search

end CardRag
