import CardRag.Structure.Parse

/-! # The unclassified fallback (`build_unclassified_fallback_artifact`)

One neutral item under the root and one `UNCLASSIFIED` leaf per line, for the documents that the
parser refuses. The checks on the input are the parser's own. -/

namespace CardRag

section
variable (H : Sha256)

/-- `append_node(…)`, for the node at index `ordinal`. -/
def fallbackNode (pages : List StructurePage) (revisionId : Str) (ordinal : Nat)
    (parentId : Option Str) (nodeType : NodeType) (spans : List NodeSpan) : StructureNode :=
  let provisional : StructureNode :=
    { nodeId := []
      contractRevisionId := revisionId
      parentId := parentId
      nodeType := nodeType
      majorClass := .unknown
      rawHeading := none
      ordinal := ordinal
      displayText := spans.flatMap fun s =>
        (pages.filter (·.page = s.page)).flatMap fun page =>
          PyStr.slice page.text s.sourceStart s.sourceEnd
      spans := spans
      tableHeaders := []
      tableCells := []
      tableRole := none }
  { provisional with nodeId := nodeId H provisional }

namespace Fallback
variable (pages : List StructurePage) (revisionId : Str)

def root : StructureNode := fallbackNode H pages revisionId 0 none .root []

def item : StructureNode :=
  fallbackNode H pages revisionId 1 (some (root H pages revisionId).nodeId) .item []

/-- One leaf per line; the root and the item come before them. -/
def leaves (lines : List SourceLine) : List StructureNode :=
  (lines.zipIdx 2).map fun (line, ordinal) =>
    fallbackNode H pages revisionId ordinal (some (item H pages revisionId).nodeId) .unclassified
      [line.span H]

/-- The reading-order links between consecutive leaves. -/
def links (leaves : List StructureNode) : List NodeLink :=
  (leaves.zip leaves.tail).zipIdx.flatMap fun ((previous, current), k) =>
    [⟨previous.nodeId, current.nodeId, .next, 2 * k⟩, ⟨current.nodeId, previous.nodeId, .previous, 2 * k + 1⟩]

end Fallback

def buildUnclassifiedFallbackArtifact (inp : StructureInput) : Except Raised StructureArtifact := do
  inp.check
  let profile ← inp.selectProfile
  let lineageId ← makeProductLineageId H inp.issuer inp.productCode inp.documentType
  let revisionId ← makeContractRevisionId H lineageId inp.sourceId inp.pdfSha256
  let pages := inp.structurePages H
  let leaves := Fallback.leaves H pages revisionId (inp.pages.flatMap sourceLines)
  let nodes := Fallback.root H pages revisionId :: Fallback.item H pages revisionId :: leaves
  let artifact := inp.artifact H profile lineageId revisionId nodes (Fallback.links leaves)
  let _ ← validateStructureArtifact H artifact
  pure artifact

end

end CardRag
