import CardRag.Structure.Fallback

/-! # Derived views (`build_derived_views`, `validate_derived_views`)

The views of an artifact quote its spans: a title per heading, the raw and the contextual text of an
item or, where one of them exceeds the limits, groups of its leaves, the text of a section and of the
whole contract. Nothing is truncated: what does not fit is left out or refused. -/

namespace CardRag

/-- The limits of a view; the token counter is a function of the text that may itself raise. -/
structure ViewLimits where
  maximumChars : Int
  maximumTokens : Option Int := none
  tokenCounter : Option (Str → Except Raised Int) := none

/-- `_within_limits(text, …)`. -/
def ViewLimits.within (lim : ViewLimits) (text : Str) : Except Raised Bool :=
  if (text.length : Int) > lim.maximumChars then pure false
  else match lim.maximumTokens with
    | none => pure true
    | some maximum =>
      match lim.tokenCounter with
      | none => throw (valueError "maximum_tokens requires an exact token_counter")
      | some counter => do
        let count ← counter text
        raiseIf (count < 0) (valueError "token_counter returned a negative count")
        pure (count ≤ maximum)

/-- The key by which spans are the same source text. -/
def NodeSpan.sourceKey (s : NodeSpan) : Nat × Nat × Nat × Str :=
  (s.page, s.sourceStart, s.sourceEnd, s.textSha256)

def orderedUniqueSpans (spans : List NodeSpan) : List NodeSpan :=
  (PyList.sortedBy (·.position) (PyList.values (PyList.dictOf (·.sourceKey) spans))).zipIdx.map
    fun (s, ordinal) => s.withOrdinal ordinal none

def embeddingInput (viewType : ViewType) (displayText : Str) (context : List Str) : Str :=
  if (viewType ≠ .contextualItem ∧ viewType ≠ .detail) ∨ context = [] then displayText
  else ['\n'].intercalate (context ++ [displayText])

def contextLine (label : String) (value : Str) : Str := label.toList ++ ": ".toList ++ value

namespace StructureArtifact

/-- `_span_text(artifact, spans)`. -/
def textOf (a : StructureArtifact) (spans : List NodeSpan) : Str := spans.flatMap (spanText a.pages)

/-- The node and its ancestors, nearest first. Parents come before their children, so a chain is no
longer than the list of nodes. -/
def lineage (a : StructureArtifact) : Nat → StructureNode → List StructureNode
  | 0, _ => []
  | fuel + 1, node =>
    node :: match node.parentId.bind (nodeById a.nodes) with
      | none => []
      | some parent => lineage a fuel parent

/-- `_ancestor_headings(node, nodes_by_id)`: the headings above a node, outermost first. -/
def ancestorHeadings (a : StructureArtifact) (node : StructureNode) : List StructureNode :=
  ((a.lineage a.nodes.length node).filter (·.rawHeading.isSome)).reverse

def canonicalItemContext (a : StructureArtifact) (item : StructureNode) : List Str :=
  [contextLine "issuer" a.issuer, contextLine "product_name" a.productName,
    contextLine "product_code" a.productCode, contextLine "source_version" a.sourceVersion,
    contextLine "effective_date" ((a.effectiveDate.filter (· ≠ [])).getD "null".toList),
    contextLine "contract_revision_id" a.contractRevisionId,
    contextLine "major_class" item.majorClass.text] ++
  (a.ancestorHeadings item).map fun node => contextLine "heading" (node.rawHeading.getD [])

/-- The nodes below a node in preorder, the order in which the stack of `descendants` visits them; the
depth of a tree is at most the number of its nodes. -/
def descendants (a : StructureArtifact) : Nat → StructureNode → List StructureNode
  | 0, _ => []
  | depth + 1, node =>
    (a.nodes.filter (·.parentId = some node.nodeId)).flatMap fun child =>
      child :: descendants a depth child

def leafNodes (a : StructureArtifact) (node : StructureNode) : List StructureNode :=
  (a.descendants a.nodes.length node).filter (·.nodeType.isLeaf)

def headingSpans (a : StructureArtifact) (node : StructureNode) : List NodeSpan :=
  orderedUniqueSpans ((a.ancestorHeadings node).flatMap (·.spans))

/-- The spans of the leaves below a node. -/
def rawSpans (a : StructureArtifact) (node : StructureNode) : List NodeSpan :=
  orderedUniqueSpans ((a.leafNodes node).flatMap (·.spans))

/-- The groups closed so far and the spans of the open one. -/
structure Partition where
  groups : List (List NodeSpan) := []
  pending : List NodeSpan := []

/-- One unit of `_partition_spans`. -/
def partitionStep (a : StructureArtifact) (lim : ViewLimits) (context : List Str) (p : Partition)
    (unit : List NodeSpan) : Except Raised Partition := do
  let normalized := orderedUniqueSpans unit
  let fits ← lim.within (embeddingInput .detail (a.textOf normalized) context)
  raiseIf (fits = false)
    (structureError "one structural leaf exceeds the view limit; automatic truncation is forbidden")
  if p.pending = [] then pure { p with pending := p.pending ++ normalized }
  else do
    let joins ← lim.within
      (embeddingInput .detail (a.textOf (orderedUniqueSpans (p.pending ++ normalized))) context)
    if joins then pure { p with pending := p.pending ++ normalized }
    else pure { groups := p.groups ++ [orderedUniqueSpans p.pending], pending := normalized }

def partitionSpans (a : StructureArtifact) (lim : ViewLimits) (units : List (List NodeSpan))
    (context : List Str) : Except Raised (List (List NodeSpan)) := do
  let p ← units.foldlM (a.partitionStep lim context) {}
  pure (if p.pending = [] then p.groups else p.groups ++ [orderedUniqueSpans p.pending])

section
variable (H : Sha256) (a : StructureArtifact) (lim : ViewLimits)

/-- The view that `append_view` makes of its arguments. -/
def makeView (node : StructureNode) (viewType : ViewType) (spans : List NodeSpan) (context : List Str)
    (parentItemId : Option Str) (ordinal : Nat) : DerivedView :=
  let normalized := orderedUniqueSpans spans
  let input := embeddingInput viewType (a.textOf normalized) context
  let provisional : DerivedView :=
    { viewId := []
      contractRevisionId := a.contractRevisionId
      nodeId := node.nodeId
      parentItemId := parentItemId
      viewType := viewType
      ordinal := ordinal
      displayText := a.textOf normalized
      embeddingInput := input
      spans := normalized
      context := context
      inputSha256 := H.hexdigest input }
  { provisional with viewId := viewId H provisional }

def appendView (views : List DerivedView) (node : StructureNode) (viewType : ViewType)
    (spans : List NodeSpan) (context : List Str) (parentItemId : Option Str) :
    Except Raised (List DerivedView) :=
  let view := a.makeView H node viewType spans context parentItemId views.length
  if view.displayText = [] then pure views
  else do
    let fits ← lim.within view.embeddingInput
    raiseIf (fits = false) (structureError
      (String.ofList viewType.text ++ " exceeds its sealed limit; automatic truncation is forbidden"))
    pure (views ++ [view])

/-- `if fits: append_view(…)`. -/
def appendViewIf (fits : Bool) (views : List DerivedView) (node : StructureNode) (viewType : ViewType)
    (spans : List NodeSpan) (context : List Str) : Except Raised (List DerivedView) :=
  if fits then a.appendView H lim views node viewType spans context none else pure views

def titleView (views : List DerivedView) (node : StructureNode) : Except Raised (List DerivedView) := do
  let spans := a.headingSpans node
  let fits ← lim.within (a.textOf spans)
  raiseIf (fits = false)
    (structureError "TITLE exceeds its sealed limit; headings cannot be truncated")
  a.appendView H lim views node .title spans [] none

/-- The views of one item. -/
def itemViews (views : List DerivedView) (item : StructureNode) : Except Raised (List DerivedView) := do
  let rawSpans := a.rawSpans item
  if rawSpans = [] then pure views
  else do
    let context := a.canonicalItemContext item
    let contextualSpans := orderedUniqueSpans (a.headingSpans item ++ rawSpans)
    let rawFits ← lim.within (a.textOf rawSpans)
    let contextualFits ← lim.within (embeddingInput .contextualItem (a.textOf contextualSpans) context)
    let views ← a.appendViewIf H lim rawFits views item .rawItem rawSpans []
    let views ← a.appendViewIf H lim contextualFits views item .contextualItem contextualSpans context
    if rawFits && contextualFits then pure views
    else do
      let groups ← a.partitionSpans lim ((a.leafNodes item).map (·.spans)) context
      groups.foldlM (fun views group => a.appendView H lim views item .detail group context (some item.nodeId))
        views

def sectionView (views : List DerivedView) (node : StructureNode) : Except Raised (List DerivedView) := do
  let spans := a.rawSpans node
  if spans = [] then pure views
  else do
    let fits ← lim.within (a.textOf spans)
    a.appendViewIf H lim fits views node .majorSection spans []

def contractView (views : List DerivedView) : Except Raised (List DerivedView) := do
  let spans := orderedUniqueSpans a.leafSpans
  let fits ← lim.within (a.textOf spans)
  match a.nodes.find? (·.nodeType = .root), fits with
  | some root, true => a.appendView H lim views root .contract spans [] none
  | _, _ => pure views

/-- The metadata context of a view. -/
def validateViewContext (view : DerivedView) (node : StructureNode) : Except Raised Unit :=
  if view.viewType = .contextualItem ∨ view.viewType = .detail then do
    raiseIf (node.nodeType ≠ .item) (structureError "contextual derived view must reference an ITEM")
    raiseIf (view.context ≠ a.canonicalItemContext node)
      (structureError "derived contextual metadata does not match its structure artifact")
  else
    raiseIf (view.context ≠ []) (structureError "non-contextual derived view contains metadata context")

/-- The parent item of a view. -/
def validateViewParent (view : DerivedView) : Except Raised Unit :=
  match view.parentItemId with
  | none => pure ()
  | some id =>
    match nodeById a.nodes id with
    | none => throw (structureError "DETAIL view lost its parent ITEM")
    | some parent => do
      raiseIf (parent.nodeType ≠ .item) (structureError "DETAIL view lost its parent ITEM")
      raiseIf (parent.contractRevisionId ≠ view.contractRevisionId)
        (structureError "derived parent item crosses a contract revision")

/-- The node a view refers to. -/
def validateViewNode (view : DerivedView) : Except Raised Unit :=
  match nodeById a.nodes view.nodeId with
  | none => throw (structureError "derived view references a node outside its artifact")
  | some node => do
    raiseIf (view.contractRevisionId ≠ a.contractRevisionId ∨
        node.contractRevisionId ≠ view.contractRevisionId)
      (structureError "derived view crosses a contract revision")
    a.validateViewContext view node

/-- One view of the loop of `validate_derived_views`. -/
def validateView (view : DerivedView) (expectedOrdinal : Nat) : Except Raised Unit := do
  raiseIf (view.ordinal ≠ expectedOrdinal) (structureError "derived view ordinals are not canonical")
  a.validateViewNode view
  a.validateViewParent view
  raiseIf (view.viewType = .detail ∧ view.parentItemId ≠ some view.nodeId)
    (structureError "DETAIL view lost its canonical parent ITEM")
  raiseIf (view.viewType ≠ .detail ∧ view.parentItemId ≠ none)
    (structureError "non-DETAIL view cannot reference a parent ITEM")
  raiseIf (view.spans = []) (structureError "derived view has no source spans")
  view.spans.forM (validateSpan H a.pages)
  raiseIf (a.textOf view.spans ≠ view.displayText)
    (structureError "derived display_text is not the exact source spans")
  raiseIf (view.embeddingInput ≠ embeddingInput view.viewType view.displayText view.context)
    (structureError "derived embedding_input does not match its view policy")
  raiseIf (H.hexdigest view.embeddingInput ≠ view.inputSha256)
    (structureError "derived view input hash does not match embedding_input")
  let fits ← lim.within view.embeddingInput
  raiseIf (fits = false) (structureError "derived view exceeds its sealed limit")
  raiseIf (view.viewId ≠ CardRag.viewId H view)
    (structureError "derived view id does not match its canonical payload")

def validateDerivedViews (views : List DerivedView) : Except Raised Unit := do
  let _ ← validateStructureArtifact H a
  raiseIf (¬ (views.map (·.viewId)).Nodup) (structureError "derived view ids are not unique")
  views.zipIdx.forM fun (view, ordinal) => a.validateView H lim view ordinal

def titleNodes : List StructureNode :=
  a.nodes.filter fun node =>
    (node.nodeType = .majorSection ∨ node.nodeType = .item) ∧ node.rawHeading.isSome = true

def itemNodes : List StructureNode := a.nodes.filter (·.nodeType = .item)

def sectionNodes : List StructureNode :=
  a.nodes.filter fun node =>
    node.nodeType = .majorSection ∧ (node.majorClass = .benefit ∨ node.majorClass = .notice)

/-- The views in the order in which they are built, before their validation. -/
def collectViews : Except Raised (List DerivedView) := do
  let views ← a.titleNodes.foldlM (a.titleView H lim) []
  let views ← a.itemNodes.foldlM (a.itemViews H lim) views
  let views ← a.sectionNodes.foldlM (a.sectionView H lim) views
  a.contractView H lim views

def buildDerivedViews : Except Raised (List DerivedView) := do
  raiseIf (lim.maximumChars < 1 ∨ ∃ maximum ∈ lim.maximumTokens, maximum < 1)
    (valueError "derived view limits must be positive")
  raiseIf (lim.maximumTokens.isSome = true ∧ lim.tokenCounter.isNone = true)
    (valueError "maximum_tokens requires an exact token_counter")
  let _ ← validateStructureArtifact H a
  let views ← a.collectViews H lim
  a.validateDerivedViews H lim views
  pure views

end

end StructureArtifact

end CardRag
