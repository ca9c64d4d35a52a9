import CardRag.Lib.Bitmap
import CardRag.Structure.Source

/-! # The structure validator (`validate_structure_artifact`)

The checks in the order of the source, each with its message. `NodeType` and `MajorClass` are
enumerations here, so the two membership tests of the source hold by typing. -/

namespace CardRag

def structureSchema : Str := "cardrag.structure.v2".toList

/-- The order in which a node lists its spans. -/
def NodeSpan.position (s : NodeSpan) : Nat ×ₗ Nat ×ₗ Nat :=
  toLex (s.page, toLex (s.sourceStart, s.sourceEnd))

/-- The offsets after each text, the first of which starts at `offset`. -/
def boundariesFrom : Nat → List Str → List Nat
  | _, [] => []
  | offset, text :: texts => (offset + text.length) :: boundariesFrom (offset + text.length) texts

/-- The starts of `_line_boundary_sets(text)`. -/
def boundaryStarts (text : Str) : List Nat := 0 :: boundariesFrom 0 (PyStr.splitlines text)

/-- The ends of `_line_boundary_sets(text)`. -/
def boundaryEnds (text : Str) : List Nat :=
  0 :: boundariesFrom 0 (PyStr.splitlines text) ++ [text.length]

section
variable (H : Sha256) (pages : List StructurePage)

/-- `pages_by_number.get(page)`. -/
def pageByNumber (page : Nat) : Option StructurePage := PyList.get? (PyList.dictOf (·.page) pages) page

/-- The source text under a span; spans are validated before their text is read. -/
def spanText (s : NodeSpan) : Str :=
  match pageByNumber pages s.page with
  | some page => PyStr.slice page.text s.sourceStart s.sourceEnd
  | none => []

def validateSpan (s : NodeSpan) : Except Raised Unit :=
  match pageByNumber pages s.page with
  | none => throw (structureError "node span references a missing source page")
  | some page => do
    raiseIf (¬ (s.sourceStart < s.sourceEnd ∧ s.sourceEnd ≤ page.text.length))
      (structureError "node span offsets exceed the source page")
    raiseIf (s.sourceStart ∉ boundaryStarts page.text ∨ s.sourceEnd ∉ boundaryEnds page.text)
      (structureError "node span splits an OCR line at an arbitrary boundary")
    raiseIf (H.hexdigest (PyStr.slice page.text s.sourceStart s.sourceEnd) ≠ s.textSha256)
      (structureError "node span hash does not match the exact source text")

/-- `nodes_by_id.get(node_id)`. -/
def nodeById (nodes : List StructureNode) (id : Str) : Option StructureNode :=
  PyList.get? (PyList.dictOf (·.nodeId) nodes) id

end

namespace StructureArtifact
variable (H : Sha256)

/-- The checks on the artifact's metadata and its identifiers. -/
def validateIdentity (a : StructureArtifact) : Except Raised Unit := do
  raiseIf (a.schemaVersion ≠ structureSchema)
    (structureError "unsupported structure artifact schema")
  issuerCode a.issuer
  requireContextMetadata .structureValidationError a.productName "product_name"
  requireContextMetadata .structureValidationError a.sourceVersion "source_version"
  requireCanonicalEffectiveDate .structureValidationError a.effectiveDate
  raiseIf (a.issuerProfile.issuer ≠ a.issuer)
    (structureError "issuer profile crosses the document issuer")
  let expectedLineage ← makeProductLineageId H a.issuer a.productCode a.documentType
  raiseIf (a.productLineageId ≠ expectedLineage)
    (structureError "product lineage identity does not match canonical input")
  let expectedRevision ← makeContractRevisionId H a.productLineageId a.sourceId a.pdfSha256
  raiseIf (a.contractRevisionId ≠ expectedRevision)
    (structureError "contract revision identity does not match canonical input")

/-- The checks on the source pages and their digests. -/
def validatePages (a : StructureArtifact) : Except Raised Unit := do
  raiseIf (a.pages = []) (structureError "structure artifact has no source pages")
  let pageNumbers := a.pages.map (·.page)
  raiseIf (pageNumbers ≠ PyList.sortedSet pageNumbers ∨ ∃ page ∈ pageNumbers, page < 1)
    (structureError "source pages are not positive, sorted, and unique")
  a.pages.forM fun page =>
    raiseIf (H.hexdigest page.text ≠ page.textSha256)
      (structureError "source page hash does not match its OCR text")
  raiseIf (a.sourceSha256 ≠ sourceDigest H a.pages)
    (structureError "structure source hash does not match its pages")
  raiseIf (a.sourceCoverageSha256 ≠ coverageDigest H a.pages)
    (structureError "structure coverage hash does not match its pages")
  raiseIf (a.sourceNonWhitespaceCharacters ≠ sourceNonWhitespace a.pages)
    (structureError "structure source character count is inconsistent")

/-- The nodes as a whole: distinct identifiers and one first, parentless root. -/
def validateRoot (a : StructureArtifact) : Except Raised Unit := do
  raiseIf (a.nodes = []) (structureError "structure artifact has no ROOT node")
  raiseIf (¬ (a.nodes.map (·.nodeId)).Nodup) (structureError "structure node ids are not unique")
  match a.nodes.filter (·.nodeType = .root) with
  | [root] => do
    raiseIf (root.parentId ≠ none)
      (structureError "structure artifact requires exactly one parentless ROOT")
    raiseIf (root.ordinal ≠ 0) (structureError "ROOT must be the first structure node")
  | _ => throw (structureError "structure artifact requires exactly one parentless ROOT")

/-- The parent of a node other than the root. -/
def validateParent (a : StructureArtifact) (node : StructureNode) : Except Raised Unit :=
  if node.nodeType = .root then pure ()
  else match node.parentId.bind (nodeById a.nodes) with
    | none => throw (structureError "structure node parent is missing")
    | some parent => do
      raiseIf (parent.contractRevisionId ≠ node.contractRevisionId)
        (structureError "structure parent crosses a contract revision")
      raiseIf (node.ordinal ≤ parent.ordinal)
        (structureError "structure parent must precede its child")

/-- The spans of a node and the text it displays. -/
def validateSpans (a : StructureArtifact) (node : StructureNode) : Except Raised Unit := do
  raiseIf (node.spans.map (·.spanOrdinal) ≠ List.range node.spans.length)
    (structureError "node span ordinals are not canonical")
  let positions := node.spans.map (·.position)
  raiseIf (positions ≠ PyList.sortedBy id positions)
    (structureError "node spans do not follow source page order")
  node.spans.forM (validateSpan H a.pages)
  raiseIf (node.displayText ≠ node.spans.flatMap (spanText a.pages))
    (structureError "structure node display_text is not its exact source spans")
  raiseIf (node.nodeType.isLeaf ∧ ∃ s ∈ node.spans, s.isCanonical = false)
    (structureError "canonical leaf contains a non-canonical source span")
  raiseIf (node.nodeType.isLeaf = false ∧ ∃ s ∈ node.spans, s.isCanonical = true)
    (structureError "container span cannot claim canonical source coverage")

/-- The table metadata of a node. -/
def validateTable (a : StructureArtifact) (node : StructureNode) : Except Raised Unit :=
  match node.nodeType with
  | .tableRow =>
    match node.parentId.bind (nodeById a.nodes) with
    | none => throw (structureError "TABLE_ROW must have a TABLE parent")
    | some table => do
      raiseIf (table.nodeType ≠ .table) (structureError "TABLE_ROW must have a TABLE parent")
      raiseIf (node.tableHeaders ≠ table.tableHeaders)
        (structureError "table row lost its original header relationship")
      raiseIf (node.tableRole = none ∨ node.tableCells = [])
        (structureError "table row lacks role or original cells")
  | .table =>
    raiseIf (node.tableCells ≠ [] ∨ node.tableRole ≠ none)
      (structureError "TABLE container cannot masquerade as a row")
  | _ =>
    raiseIf (node.tableHeaders ≠ [] ∨ node.tableCells ≠ [] ∨ node.tableRole ≠ none)
      (structureError "non-table node contains table metadata")

/-- One pass of the node loop. -/
def validateNode (a : StructureArtifact) (node : StructureNode) (expectedOrdinal : Nat) :
    Except Raised Unit := do
  raiseIf (node.ordinal ≠ expectedOrdinal)
    (structureError "structure node ordinals are not canonical")
  raiseIf (node.contractRevisionId ≠ a.contractRevisionId)
    (structureError "structure node crosses its contract revision")
  a.validateParent node
  a.validateSpans H node
  a.validateTable node

/-- `children.get(node_id, [])`: the nodes other than the root that name the parent. -/
def childrenOf (nodes : List StructureNode) (id : Str) : List StructureNode :=
  nodes.filter fun node => node.nodeType ≠ .root ∧ node.parentId = some id

def validateNodes (a : StructureArtifact) : Except Raised Unit := do
  a.nodes.zipIdx.forM fun (node, ordinal) => a.validateNode H node ordinal
  (a.nodes.filter (·.nodeType = .table)).forM fun table =>
    let rows := childrenOf a.nodes table.nodeId
    raiseIf (rows = [] ∨ ∃ row ∈ rows, row.nodeType ≠ .tableRow)
      (structureError "TABLE must contain only one or more TABLE_ROW children")

def validateLinks (a : StructureArtifact) : Except Raised Unit :=
  a.links.zipIdx.forM fun (link, expectedOrdinal) => do
    raiseIf (link.ordinal ≠ expectedOrdinal) (structureError "node link ordinals are not canonical")
    match nodeById a.nodes link.fromNodeId, nodeById a.nodes link.toNodeId with
    | some source, some target => do
      raiseIf (source.contractRevisionId ≠ a.contractRevisionId ∨
          target.contractRevisionId ≠ a.contractRevisionId)
        (structureError "node link crosses a contract revision")
      raiseIf (source.nodeId = target.nodeId) (structureError "node link cannot target itself")
    | _, _ => throw (structureError "node link references a node outside this artifact")

def leaves (a : StructureArtifact) : List StructureNode := a.nodes.filter (·.nodeType.isLeaf)

/-- The spans of the canonical leaves, in node order. -/
def leafSpans (a : StructureArtifact) : List NodeSpan := a.leaves.flatMap (·.spans)

/-- The flags and counters of the coverage loop. -/
structure CoverageState where
  coverage : Nat → List Bool
  coveredCharacters : Nat := 0
  coveredNonWhitespace : Nat := 0

/-- One offset of the coverage loop. -/
def markOffset (pages : List StructurePage) (st : CoverageState) (cell : Nat × Nat) :
    Except Raised CoverageState := do
  let coverage ← Bitmap.mark (structureError "canonical leaf spans overlap") st.coverage cell
  let text := ((pageByNumber pages cell.1).map (·.text)).getD []
  pure { coverage
         coveredCharacters := st.coveredCharacters + 1
         coveredNonWhitespace :=
           st.coveredNonWhitespace + if PyStr.isSpace (text.getD cell.2 ' ') then 0 else 1 }

def spanCells (s : NodeSpan) : List (Nat × Nat) := Bitmap.cells s.page s.sourceStart s.sourceEnd

def initialCoverage (pages : List StructurePage) (page : Nat) : List Bool :=
  List.replicate (((pageByNumber pages page).map (·.text.length)).getD 0) false

/-- The coverage loop over one leaf. -/
def coverLeaf (a : StructureArtifact) (st : CoverageState) (leaf : StructureNode) :
    Except Raised CoverageState := do
  raiseIf (leaf.spans = []) (structureError "canonical leaf has no exact source span")
  (leaf.spans.flatMap spanCells).foldlM (markOffset a.pages) st

/-- The text of a page as its leaf spans give it in source order. -/
def reconstructed (a : StructureArtifact) (page : StructurePage) : Str :=
  (PyList.sortedBy (·.sourceStart) (a.leafSpans.filter (·.page = page.page))).flatMap fun s =>
    PyStr.slice page.text s.sourceStart s.sourceEnd

/-- The losslessness checks; the result counts the covered characters. -/
def validateCoverage (a : StructureArtifact) : Except Raised StructureCoverage := do
  let st ← a.leaves.foldlM a.coverLeaf { coverage := initialCoverage a.pages }
  a.pages.forM fun page => do
    raiseIf ((st.coverage page.page).any (!·) = true)
      (structureError "canonical leaves do not losslessly reconstruct the OCR page")
    raiseIf (a.reconstructed page ≠ page.text)
      (structureError "canonical leaf reconstruction differs from OCR source")
  raiseIf (st.coveredNonWhitespace ≠ sourceNonWhitespace a.pages)
    (structureError "non-whitespace OCR source coverage is not 100 percent")
  a.nodes.forM fun node =>
    raiseIf (node.nodeId ≠ CardRag.nodeId H node)
      (structureError "structure node id does not match its canonical payload")
  pure { sourceCharacters := (a.pages.map (·.text.length)).sum
         coveredCharacters := st.coveredCharacters
         sourceNonWhitespaceCharacters := sourceNonWhitespace a.pages
         coveredNonWhitespaceCharacters := st.coveredNonWhitespace
         sourceSha256 := a.sourceSha256
         coverageSha256 := a.sourceCoverageSha256 }

end StructureArtifact

def validateStructureArtifact (H : Sha256) (a : StructureArtifact) : Except Raised StructureCoverage := do
  a.validateIdentity H
  a.validatePages H
  a.validateRoot
  a.validateNodes H
  a.validateLinks
  a.validateCoverage H

end CardRag
