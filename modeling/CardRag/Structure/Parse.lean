import CardRag.Structure.Validate

/-! # The structure parser (`parse_structure_artifact`)

The line loop keeps drafts of the nodes and links, the open section, item and table, and what the
previous page ended with. Indices into the drafts stand for nodes until the artifact is built, so
the parser state is explicit and a line is one step on it. -/

namespace CardRag

structure NodeDraft where
  parentIndex : Option Nat
  nodeType : NodeType
  majorClass : MajorClass
  rawHeading : Option Str := none
  spans : List NodeSpan := []
  tableHeaders : List Str := []
  tableCells : List Str := []
  tableRole : Option TableRole := none
deriving DecidableEq, Repr

structure LinkDraft where
  fromIndex : Nat
  toIndex : Nat
  linkType : LinkType
deriving DecidableEq, Repr

def rootDraft : NodeDraft := ⟨none, .root, .unknown, none, [], [], [], none⟩

/-- The variables of the line loop; the last four are reset on every page. -/
structure ParserState where
  drafts : List NodeDraft := [rootDraft]
  linkDrafts : List LinkDraft := []
  leafIndices : List Nat := []
  currentMajor : Option Nat := none
  currentItem : Option Nat := none
  previousPageLastSemantic : Option Nat := none
  previousPageLastTable : Option Nat := none
  previousReferenceLeaf : Option Nat := none
  benefitItemIndices : List Nat := []
  pageFirstSemantic : Bool := true
  pageLastSemantic : Option Nat := none
  pageLastTable : Option Nat := none
  currentTable : Option Nat := none
deriving Repr

def MajorClass.isNotice (c : MajorClass) : Bool := c = .notice || c = .mixed

def MajorClass.isBenefit (c : MajorClass) : Bool := c = .benefit || c = .mixed

namespace ParserState

/-- `drafts[i]`. -/
def draft (st : ParserState) (i : Nat) : NodeDraft := st.drafts.getD i rootDraft

/-- `add_node(…)`; the new node's index is the number of drafts before it. -/
def addNode (st : ParserState) (d : NodeDraft) : ParserState :=
  { st with
    drafts := st.drafts ++ [d]
    leafIndices := if d.nodeType.isLeaf then st.leafIndices ++ [st.drafts.length] else st.leafIndices }

def addLinks (st : ParserState) (links : List LinkDraft) : ParserState :=
  { st with linkDrafts := st.linkDrafts ++ links }

def ensureItem (st : ParserState) : ParserState :=
  match st.currentItem with
  | some _ => st
  | none =>
    let parent := st.currentMajor.getD 0
    let cls := (st.draft parent).majorClass
    let index := st.drafts.length
    let st := st.addNode { parentIndex := some parent, nodeType := .item, majorClass := cls }
    { st with
      currentItem := some index
      benefitItemIndices :=
        if cls.isBenefit then st.benefitItemIndices ++ [index] else st.benefitItemIndices }

/-- The index `ensure_item()` returns. -/
def item (st : ParserState) : Nat := st.currentItem.getD 0

/-- The first line of substance on a page continues the last one before it. -/
def continuationLinks (st : ParserState) (index : Nat) (continues : Bool) : List LinkDraft :=
  match st.previousPageLastSemantic with
  | some previous =>
    if st.pageFirstSemantic && continues then [⟨index, previous, .continuationOf⟩] else []
  | none => []

/-- A footnote, or a notice after a benefit, refers to the leaf before it. -/
def referenceLinks (st : ParserState) (leaf : Nat) (nodeType : NodeType) (nodeClass : MajorClass)
    (isHeading : Bool) : List LinkDraft :=
  match st.previousReferenceLeaf with
  | some reference =>
    if nodeType = NodeType.footnote then
      [⟨leaf, reference, .footnoteOf⟩, ⟨leaf, reference, .appliesTo⟩]
    else if !isHeading && nodeClass.isNotice && (st.draft reference).majorClass.isBenefit then
      [⟨leaf, reference, .appliesTo⟩]
    else []
  | none => []

section
variable (H : Sha256)

def boilerplateLine (st : ParserState) (line : SourceLine) : ParserState :=
  { st with currentTable := none }.addNode
    { parentIndex := some 0, nodeType := .boilerplate, majorClass := .unknown, spans := [line.span H] }

def blankLine (st : ParserState) (line : SourceLine) : ParserState :=
  let parent := st.currentItem.getD (st.currentMajor.getD 0)
  { st with currentTable := none }.addNode
    { parentIndex := some parent, nodeType := .unclassified,
      majorClass := (st.draft parent).majorClass, spans := [line.span H] }

/-- The first row of a table opens it: under the current item, with the headers of the table that
ended the previous page when it continues that one. -/
def openTable (st : ParserState) (continued : Bool) : ParserState :=
  let st := st.ensureItem
  let previous := st.previousPageLastTable.getD 0
  let table := st.drafts.length
  let st := st.addNode
    { parentIndex := some st.item, nodeType := .table, majorClass := (st.draft st.item).majorClass,
      tableHeaders := if continued then (st.draft previous).tableHeaders else [] }
  { st with currentTable := some table }.addLinks
    (if continued then [⟨table, previous, .continuationOf⟩] else [])

/-- Add a line to the spans of the open table, and its cells as headers if there are none yet. -/
def extendTable (st : ParserState) (table : Nat) (line : SourceLine) (headers : List Str) :
    ParserState :=
  { st with
    drafts := st.drafts.modify table fun t =>
      { t with
        spans := t.spans ++ [(line.span H).withOrdinal t.spans.length (some false)]
        tableHeaders := headers } }

/-- What a table row does to the headers of its table, and its role. -/
def rowRole (headers cells : List Str) : List Str × TableRole :=
  let separator := isTableSeparator cells
  if headers = [] ∧ separator = false then (cells, .header)
  else if separator then (headers, .separator)
  else if cells = headers then (headers, .header)
  else (headers, .body)

/-- A line of the open table. -/
def addRow (st : ParserState) (table : Nat) (line : SourceLine) (continued : Bool) : ParserState :=
  let cells := tableCells line.visible
  let kind := rowRole (st.draft table).tableHeaders cells
  let st := st.extendTable H table line kind.1
  let row := st.drafts.length
  let st := st.addNode
    { parentIndex := some table, nodeType := .tableRow, majorClass := (st.draft table).majorClass,
      spans := [line.span H], tableHeaders := kind.1, tableCells := cells, tableRole := some kind.2 }
  let st := st.addLinks (st.continuationLinks row continued)
  { st with
    pageFirstSemantic := false
    pageLastSemantic := some row
    pageLastTable := some table
    previousReferenceLeaf := some row }

def tableLine (st : ParserState) (declaresLocalHeader : Bool) (line : SourceLine) : ParserState :=
  match st.currentTable with
  | some table => st.addRow H table line false
  | none =>
    let continued :=
      st.pageFirstSemantic && st.previousPageLastTable.isSome && !declaresLocalHeader
    let st := st.openTable continued
    st.addRow H (st.currentTable.getD 0) line continued

/-- The leaf of a line outside tables, with the links it takes part in. -/
def addLeaf (st : ParserState) (line : SourceLine) (parent : Nat) (nodeType : NodeType)
    (nodeClass : MajorClass) (isHeading : Bool) : ParserState :=
  let leaf := st.drafts.length
  let st := st.addNode
    { parentIndex := some parent, nodeType := nodeType, majorClass := nodeClass,
      spans := [line.span H] }
  let st := st.addLinks (st.continuationLinks leaf (!isHeading))
  let st := st.addLinks (st.referenceLinks leaf nodeType nodeClass isHeading)
  { st with
    pageFirstSemantic := false
    pageLastSemantic := some leaf
    pageLastTable := none
    previousReferenceLeaf := if nodeType = NodeType.footnote then st.previousReferenceLeaf else some leaf }

variable (U : Unicode) (profile : IssuerParserProfile)

def majorHeading (st : ParserState) (line : SourceLine) : ParserState :=
  let ownClass := majorClass U line.visible profile
  let major := st.drafts.length
  let st := st.addNode
    { parentIndex := some 0, nodeType := .majorSection, majorClass := ownClass,
      rawHeading := some line.visible, spans := [(line.span H).withOrdinal 0 (some false)] }
  let st := { st with currentMajor := some major, currentItem := none }
  let st := st.addLinks (if ownClass.isNotice then
    st.benefitItemIndices.map fun benefit => ⟨major, benefit, .appliesTo⟩ else [])
  st.addLeaf H line major .paragraph ownClass true

def itemHeading (st : ParserState) (line : SourceLine) : ParserState :=
  let parent := st.currentMajor.getD 0
  let parentClass := (st.draft parent).majorClass
  let itemClass := inheritedClass U line.visible profile parentClass
  let item := st.drafts.length
  let st := st.addNode
    { parentIndex := some parent, nodeType := .item, majorClass := itemClass,
      rawHeading := some line.visible, spans := [(line.span H).withOrdinal 0 (some false)] }
  let st := { st with currentItem := some item }
  let st := st.addLinks (if itemClass.isNotice && !parentClass.isNotice then
    st.benefitItemIndices.getLast?.toList.map fun prior => ⟨item, prior, .appliesTo⟩ else [])
  let st :=
    { st with
      benefitItemIndices :=
        if itemClass.isBenefit then st.benefitItemIndices ++ [item] else st.benefitItemIndices }
  st.addLeaf H line item .paragraph itemClass true

/-- The type of a line that is neither a heading nor in a table. -/
def plainType (visible : Str) (inherited ownClass : MajorClass) : NodeType :=
  if isFootnote U visible then .footnote
  else if isListItem U visible then .listItem
  else if inherited ≠ .unknown || ownClass ≠ .unknown then .paragraph
  else .unclassified

def plainLine (st : ParserState) (line : SourceLine) : ParserState :=
  let st := st.ensureItem
  let inherited := (st.draft st.item).majorClass
  let nodeType := plainType U line.visible inherited (majorClass U line.visible profile)
  st.addLeaf H line st.item nodeType (inheritedClass U line.visible profile inherited) false

def textLine (st : ParserState) (line : SourceLine) : ParserState :=
  let st := { st with currentTable := none }
  match headingKind U line.visible profile with
  | some .major => st.majorHeading H U profile line
  | some .item => st.itemHeading H U profile line
  | none => st.plainLine H U profile line

/-- One line, with the lines of the page that follow it. -/
def stepLine (boilerplate : List (Nat × Nat × Nat)) (st : ParserState) (line : SourceLine)
    (rest : List SourceLine) : Except Raised ParserState := do
  let stripped := PyStr.strip line.visible
  let marker := pageMarker stripped
  raiseIf (marker.isSome ∧ marker ≠ some line.page)
    (structureError "embedded OCR page marker does not match PageRecord")
  if line.key ∈ boilerplate ∨ marker.isSome then pure (st.boilerplateLine H line)
  else if stripped = [] then pure (st.blankLine H line)
  else if isTableLine line.visible then
    pure (st.tableLine H (st.pageFirstSemantic && nextTableLineIsSeparator boilerplate rest) line)
  else pure (st.textLine H U profile line)

def stepLines (boilerplate : List (Nat × Nat × Nat)) :
    ParserState → List SourceLine → Except Raised ParserState
  | st, [] => pure st
  | st, line :: rest => do
    let st ← st.stepLine H U profile boilerplate line rest
    stepLines boilerplate st rest

/-- One page: the page variables start anew, and what the page ended with is kept if it had any
line of substance. -/
def stepPage (boilerplate : List (Nat × Nat × Nat)) (st : ParserState) (lines : List SourceLine) :
    Except Raised ParserState := do
  let st ← stepLines H U profile boilerplate
    { st with
      pageFirstSemantic := true, pageLastSemantic := none, pageLastTable := none,
      currentTable := none } lines
  match st.pageLastSemantic with
  | some last =>
    pure { st with previousPageLastSemantic := some last, previousPageLastTable := st.pageLastTable }
  | none => pure st

end

/-- The reading-order links between consecutive leaves. -/
def orderLinks (leafIndices : List Nat) : List LinkDraft :=
  (leafIndices.zip leafIndices.tail).flatMap fun (previous, current) =>
    [⟨previous, current, .next⟩, ⟨current, previous, .previous⟩]

end ParserState

/-- The arguments of `parse_structure_artifact` and `build_unclassified_fallback_artifact`. -/
structure StructureInput where
  pages : List PageRecord
  issuer : Str
  productCode : Str
  productName : Str
  sourceVersion : Str
  effectiveDate : Option Str
  documentType : Str
  sourceId : Str
  pdfSha256 : Str
  profile : Option IssuerParserProfile := none
deriving Repr

namespace StructureInput

/-- The input checks that both builders make. -/
def check (inp : StructureInput) : Except Raised Unit := do
  raiseIf (inp.pages = []) (valueError "structure input requires at least one page")
  issuerCode inp.issuer
  requireTrimmed inp.productCode "product_code"
  requireContextMetadata .valueError inp.productName "product_name"
  requireContextMetadata .valueError inp.sourceVersion "source_version"
  requireCanonicalEffectiveDate .valueError inp.effectiveDate
  requireTrimmed inp.documentType "document_type"
  raiseIf (isSourceId inp.sourceId = false) (valueError "invalid source_id")
  raiseIf (isSha256 inp.pdfSha256 = false) (valueError "invalid pdf_sha256")
  have documentIds := (inp.pages.map (·.documentId)).dedup
  raiseIf (documentIds.length ≠ 1 ∨ documentIds.headD [] = [])
    (valueError "structure pages must belong to one non-empty document_id")
  have pageNumbers : List Nat := inp.pages.map (·.page)
  raiseIf (pageNumbers ≠ PyList.sortedSet pageNumbers ∨ ∃ page ∈ pageNumbers, page < 1)
    (valueError "structure pages must be positive, sorted, and unique")

/-- `selected_profile`. -/
def selectProfile (inp : StructureInput) : Except Raised IssuerParserProfile := do
  let profile ← match inp.profile with
    | some profile => pure profile
    | none => issuerParserProfile inp.issuer
  raiseIf (profile.issuer ≠ inp.issuer)
    (valueError "issuer parser profile does not match the document issuer")
  pure profile

section
variable (H : Sha256)

def structurePages (inp : StructureInput) : List StructurePage :=
  inp.pages.map fun p => ⟨p.page, p.text, p.textSha256 H⟩

/-- The artifact that either builder puts around its nodes and links. -/
def artifact (inp : StructureInput) (profile : IssuerParserProfile) (lineageId revisionId : Str)
    (nodes : List StructureNode) (links : List NodeLink) : StructureArtifact where
  schemaVersion := structureSchema
  documentId := ((inp.pages.map (·.documentId)).dedup).headD []
  issuer := inp.issuer
  issuerProfile := profile
  productCode := inp.productCode
  productName := inp.productName
  sourceVersion := inp.sourceVersion
  effectiveDate := inp.effectiveDate
  documentType := inp.documentType
  productLineageId := lineageId
  contractRevisionId := revisionId
  sourceId := inp.sourceId
  pdfSha256 := inp.pdfSha256
  sourceSha256 := sourceDigest H (inp.structurePages H)
  sourceNonWhitespaceCharacters := sourceNonWhitespace (inp.structurePages H)
  sourceCoverageSha256 := coverageDigest H (inp.structurePages H)
  pages := inp.structurePages H
  nodes := nodes
  links := links

end

end StructureInput

/-- An input with the given pages and the shortest metadata that passes the checks. -/
def sampleInput (pages : List PageRecord) : StructureInput where
  pages := pages
  issuer := "kb".toList
  productCode := "p".toList
  productName := "p".toList
  sourceVersion := "1".toList
  effectiveDate := none
  documentType := "t".toList
  sourceId := "source_".toList ++ List.replicate 64 '0'
  pdfSha256 := List.replicate 64 '0'

section
variable (H : Sha256)

/-- `source_text_by_page[page][start:end]`, joined over the spans. -/
def draftText (pages : List StructurePage) (spans : List NodeSpan) : Str :=
  spans.flatMap fun s =>
    match PyList.get? (PyList.dictOf (·.page) pages) s.page with
    | some page => PyStr.slice page.text s.sourceStart s.sourceEnd
    | none => []

/-- The node of a draft: its parent is a node built before it. -/
def buildNode (pages : List StructurePage) (revisionId : Str) (nodes : List StructureNode)
    (d : NodeDraft) : StructureNode :=
  let provisional : StructureNode :=
    { nodeId := []
      contractRevisionId := revisionId
      parentId := d.parentIndex.map fun p => ((nodes.map (·.nodeId)).getD p [])
      nodeType := d.nodeType
      majorClass := d.majorClass
      rawHeading := d.rawHeading
      ordinal := nodes.length
      displayText := draftText pages d.spans
      spans := d.spans
      tableHeaders := d.tableHeaders
      tableCells := d.tableCells
      tableRole := d.tableRole }
  { provisional with nodeId := nodeId H provisional }

def buildNodes (pages : List StructurePage) (revisionId : Str) (drafts : List NodeDraft) :
    List StructureNode :=
  drafts.foldl (fun nodes d => nodes ++ [buildNode H pages revisionId nodes d]) []

/-- `link_order`. -/
def LinkType.order : LinkType → Nat
  | continuationOf => 0
  | footnoteOf => 1
  | appliesTo => 2
  | previous => 3
  | next => 4

/-- The distinct link drafts in the order of the artifact; a node's ordinal is its index. -/
def orderedLinkDrafts (drafts : List LinkDraft) : List LinkDraft :=
  PyList.sortedBy
    (fun l : LinkDraft => toLex (l.fromIndex, toLex (l.linkType.order, l.toIndex))) drafts.eraseDups

def buildLinks (nodes : List StructureNode) (drafts : List LinkDraft) : List NodeLink :=
  (orderedLinkDrafts drafts).zipIdx.map fun (l, ordinal) =>
    ⟨(nodes.map (·.nodeId)).getD l.fromIndex [], (nodes.map (·.nodeId)).getD l.toIndex [],
      l.linkType, ordinal⟩

variable (U : Unicode)

/-- The line loop over all pages. -/
def parseDrafts (inp : StructureInput) (profile : IssuerParserProfile) : Except Raised ParserState :=
  let lines := inp.pages.map sourceLines
  lines.foldlM (ParserState.stepPage H U profile (repeatedEdgeLines U lines profile)) {}

/-- The artifact the parser hands to the validator. -/
def parsedArtifact (inp : StructureInput) : Except Raised StructureArtifact := do
  inp.check
  let profile ← inp.selectProfile
  let lineageId ← makeProductLineageId H inp.issuer inp.productCode inp.documentType
  let revisionId ← makeContractRevisionId H lineageId inp.sourceId inp.pdfSha256
  let st ← parseDrafts H U inp profile
  let nodes := buildNodes H (inp.structurePages H) revisionId st.drafts
  let links := buildLinks nodes (st.linkDrafts ++ ParserState.orderLinks st.leafIndices)
  pure (inp.artifact H profile lineageId revisionId nodes links)

def parseStructureArtifact (inp : StructureInput) : Except Raised StructureArtifact := do
  let artifact ← parsedArtifact H U inp
  let _ ← validateStructureArtifact H artifact
  pure artifact

end

end CardRag
