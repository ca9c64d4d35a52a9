import CardRag.Core

/-! # The structure artifact (`structure.py`)

The records of `cardrag.structure.v2`: pages, spans, nodes, links, the artifact and the derived
views, with the payloads their identifiers digest. Page numbers, offsets and ordinals are natural
numbers: every validator rejects a negative one. -/

namespace CardRag

inductive MajorClass where
  | benefit | notice | mixed | unknown
deriving DecidableEq, Repr

inductive NodeType where
  | root | majorSection | item | paragraph | listItem | table | tableRow | footnote | boilerplate
  | unclassified
deriving DecidableEq, Repr

inductive LinkType where
  | continuationOf | footnoteOf | appliesTo | previous | next
deriving DecidableEq, Repr

inductive TableRole where
  | header | separator | body
deriving DecidableEq, Repr

inductive ViewType where
  | title | rawItem | contextualItem | detail | majorSection | contract
deriving DecidableEq, Repr

def MajorClass.text : MajorClass → Str
  | benefit => "BENEFIT".toList
  | notice => "NOTICE".toList
  | mixed => "MIXED".toList
  | unknown => "UNKNOWN".toList

def NodeType.text : NodeType → Str
  | root => "ROOT".toList
  | majorSection => "MAJOR_SECTION".toList
  | item => "ITEM".toList
  | paragraph => "PARAGRAPH".toList
  | listItem => "LIST_ITEM".toList
  | table => "TABLE".toList
  | tableRow => "TABLE_ROW".toList
  | footnote => "FOOTNOTE".toList
  | boilerplate => "BOILERPLATE".toList
  | unclassified => "UNCLASSIFIED".toList

def TableRole.text : TableRole → Str
  | header => "HEADER".toList
  | separator => "SEPARATOR".toList
  | body => "BODY".toList

def ViewType.text : ViewType → Str
  | title => "TITLE".toList
  | rawItem => "RAW_ITEM".toList
  | contextualItem => "CONTEXTUAL_ITEM".toList
  | detail => "DETAIL".toList
  | majorSection => "MAJOR_SECTION".toList
  | contract => "CONTRACT".toList

/-- `node_type in CANONICAL_LEAF_TYPES`; the other types are the `_CONTAINER_TYPES`. -/
def NodeType.isLeaf : NodeType → Bool
  | paragraph | listItem | tableRow | footnote | boilerplate | unclassified => true
  | root | majorSection | item | table => false

def structureError (message : String) : Raised := ⟨.structureValidationError, message⟩

/-- The sealed parser profile of an issuer. The tuples of terms and prefixes are lists; its
`payload` digest is not read by the parser. -/
structure IssuerParserProfile where
  issuer : Str
  profileId : Str
  issuerMarkers : List Str
  majorPrefixes : List Str
  itemPrefixes : List Str
  benefitTerms : List Str
  noticeTerms : List Str
  edgeLineWindow : Int
deriving DecidableEq, Repr

def benefitTerms : List Str :=
  ["혜택", "서비스", "할인", "적립", "캐시백", "포인트", "마일리지", "무료"].map String.toList

def noticeTerms : List Str :=
  ["이용 전 확인", "적용 안내", "제외 대상", "제외", "전월 실적", "공통 확인", "유의사항", "주의사항", "연회비",
    "해외 이용", "의무표시", "조건", "한도"].map String.toList

/-- A profile with the default terms and window. -/
def mkProfile (issuer profileId : Str) (markers majors items : List String) : IssuerParserProfile :=
  ⟨issuer, profileId, markers.map String.toList, majors.map String.toList, items.map String.toList,
    benefitTerms, noticeTerms, 2⟩

def profiles : List IssuerParserProfile :=
  [mkProfile "kb".toList "cardrag.issuer-profile.kb.v1".toList ["kb국민카드", "국민카드"]
      ["■", "▣", "◆"] ["□", "▶", "◇", "●"],
    mkProfile "samsung".toList "cardrag.issuer-profile.samsung.v1".toList ["삼성카드"]
      ["■", "▣", "◆"] ["혜택 ", "서비스 ", "□", "▶"],
    mkProfile "shinhan".toList "cardrag.issuer-profile.shinhan.v1".toList ["신한카드"]
      ["■", "▣", "◎"] ["□", "▶", "○", "●"],
    mkProfile "woori".toList "cardrag.issuer-profile.woori.v1".toList ["우리카드"]
      ["■", "▣", "Ⅰ", "Ⅱ", "Ⅲ", "Ⅳ"] ["□", "▶", "1.", "2.", "3.", "4."]]

def issuerParserProfile (issuer : Str) : Except Raised IssuerParserProfile := do
  issuerCode issuer
  match profiles.find? (·.issuer == issuer) with
  | some profile => pure profile
  | none =>
    pure { mkProfile issuer
      ("cardrag.issuer-profile.".toList ++ issuer ++ ".generic.v1".toList) []
      ["■", "▣", "◆"] ["□", "▶", "◇", "●"] with issuerMarkers := [issuer] }

/-- One verified OCR page of a document (`contracts.PageRecord`). -/
structure PageRecord where
  documentId : Str
  page : Nat
  text : Str
deriving DecidableEq, Repr

def PageRecord.textSha256 (H : Sha256) (page : PageRecord) : Str := H.hexdigest page.text

structure StructurePage where
  page : Nat
  text : Str
  textSha256 : Str
deriving DecidableEq, Repr

structure NodeSpan where
  page : Nat
  sourceStart : Nat
  sourceEnd : Nat
  textSha256 : Str
  spanOrdinal : Nat
  isCanonical : Bool
deriving DecidableEq, Repr

structure StructureNode where
  nodeId : Str
  contractRevisionId : Str
  parentId : Option Str
  nodeType : NodeType
  majorClass : MajorClass
  rawHeading : Option Str
  ordinal : Nat
  displayText : Str
  spans : List NodeSpan
  tableHeaders : List Str
  tableCells : List Str
  tableRole : Option TableRole
deriving DecidableEq, Repr

structure NodeLink where
  fromNodeId : Str
  toNodeId : Str
  linkType : LinkType
  ordinal : Nat
deriving DecidableEq, Repr

structure StructureCoverage where
  sourceCharacters : Nat
  coveredCharacters : Nat
  sourceNonWhitespaceCharacters : Nat
  coveredNonWhitespaceCharacters : Nat
  sourceSha256 : Str
  coverageSha256 : Str
deriving DecidableEq, Repr

structure StructureArtifact where
  schemaVersion : Str
  documentId : Str
  issuer : Str
  issuerProfile : IssuerParserProfile
  productCode : Str
  productName : Str
  sourceVersion : Str
  effectiveDate : Option Str
  documentType : Str
  productLineageId : Str
  contractRevisionId : Str
  sourceId : Str
  pdfSha256 : Str
  sourceSha256 : Str
  sourceNonWhitespaceCharacters : Nat
  sourceCoverageSha256 : Str
  pages : List StructurePage
  nodes : List StructureNode
  links : List NodeLink
deriving DecidableEq, Repr

structure DerivedView where
  viewId : Str
  contractRevisionId : Str
  nodeId : Str
  parentItemId : Option Str
  viewType : ViewType
  ordinal : Nat
  displayText : Str
  embeddingInput : Str
  spans : List NodeSpan
  context : List Str
  inputSha256 : Str
deriving DecidableEq, Repr

/-! ### Payloads, with the fields in key order -/

def Json.optStr : Option Str → Json
  | none => .null
  | some s => .str s

def Json.strs (xs : List Str) : Json := .arr (xs.map .str)

def NodeSpan.payload (s : NodeSpan) : Json :=
  .obj [("is_canonical".toList, .bool s.isCanonical), ("page".toList, .num s.page),
    ("source_end".toList, .num s.sourceEnd), ("source_start".toList, .num s.sourceStart),
    ("span_ordinal".toList, .num s.spanOrdinal), ("text_sha256".toList, .str s.textSha256)]

def StructureNode.identityPayload (n : StructureNode) : Json :=
  .obj [("contract_revision_id".toList, .str n.contractRevisionId),
    ("display_text".toList, .str n.displayText), ("major_class".toList, .str n.majorClass.text),
    ("node_type".toList, .str n.nodeType.text), ("ordinal".toList, .num n.ordinal),
    ("parent_id".toList, .optStr n.parentId), ("raw_heading".toList, .optStr n.rawHeading),
    ("spans".toList, .arr (n.spans.map NodeSpan.payload)),
    ("table_cells".toList, .strs n.tableCells), ("table_headers".toList, .strs n.tableHeaders),
    ("table_role".toList, .optStr (n.tableRole.map TableRole.text))]

def DerivedView.identityPayload (v : DerivedView) : Json :=
  .obj [("context".toList, .strs v.context),
    ("contract_revision_id".toList, .str v.contractRevisionId),
    ("display_text".toList, .str v.displayText), ("embedding_input".toList, .str v.embeddingInput),
    ("input_sha256".toList, .str v.inputSha256), ("node_id".toList, .str v.nodeId),
    ("ordinal".toList, .num v.ordinal), ("parent_item_id".toList, .optStr v.parentItemId),
    ("spans".toList, .arr (v.spans.map NodeSpan.payload)),
    ("view_type".toList, .str v.viewType.text)]

section
variable (H : Sha256)

/-- `_node_id(node)`; the payload leaves the identifier out. -/
def nodeId (n : StructureNode) : Str := "node_".toList ++ H.canonical n.identityPayload

def viewId (v : DerivedView) : Str := "view_".toList ++ H.canonical v.identityPayload

def nonWhitespace (text : Str) : Str := text.filter (fun c => !PyStr.isSpace c)

def sourceDigest (pages : List StructurePage) : Str :=
  H.canonical (.obj [
    ("pages".toList, .arr (pages.map fun p =>
      .obj [("page".toList, .num p.page), ("text_sha256".toList, .str p.textSha256)])),
    ("schema_version".toList, .str "cardrag.structure-source.v1".toList)])

def coverageDigest (pages : List StructurePage) : Str :=
  H.canonical (.obj [
    ("pages".toList, .arr (pages.map fun p =>
      .obj [("non_whitespace_characters".toList, .num (nonWhitespace p.text).length),
        ("non_whitespace_sha256".toList, .str (H.hexdigest (nonWhitespace p.text))),
        ("page".toList, .num p.page), ("text_sha256".toList, .str p.textSha256)])),
    ("schema_version".toList, .str "cardrag.structure-coverage.v1".toList)])

def sourceNonWhitespace (pages : List StructurePage) : Nat :=
  (pages.map fun p => (nonWhitespace p.text).length).sum

def requireTrimmed (value : Str) (label : String) : Except Raised Unit :=
  raiseIf (value = [] ∨ value ≠ PyStr.strip value)
    (valueError (label ++ " must be non-empty and trimmed"))

/-- `_require_context_metadata(value, label)`, raising with the given class: the validator reports
the same texts as `StructureValidationError`. -/
def requireContextMetadata (cls : ExceptionClass) (value : Str) (label : String) :
    Except Raised Unit := do
  raiseIf (value = [] ∨ value ≠ PyStr.strip value)
    ⟨cls, label ++ " must be a non-empty trimmed string"⟩
  raiseIf (value.any PyStr.isControl = true) ⟨cls, label ++ " must not contain control characters"⟩

def requireCanonicalEffectiveDate (cls : ExceptionClass) : Option Str → Except Raised Unit
  | none => pure ()
  | some value =>
    raiseIf (isCanonicalDate value = false) ⟨cls, "effective_date must be canonical ISO text or null"⟩

def makeProductLineageId (issuer productCode documentType : Str) : Except Raised Str := do
  issuerCode issuer
  requireTrimmed productCode "product_code"
  requireTrimmed documentType "document_type"
  pure ("lineage_".toList ++ H.canonical (.obj [("document_type".toList, .str documentType),
    ("issuer".toList, .str issuer), ("product_code".toList, .str productCode)]))

def makeContractRevisionId (productLineageId sourceId pdfSha256 : Str) : Except Raised Str := do
  raiseIf ("lineage_".toList.isPrefixOf productLineageId = false ∨ productLineageId.length ≠ 72)
    (valueError "invalid product_lineage_id")
  raiseIf (isSourceId sourceId = false) (valueError "invalid source_id")
  raiseIf (isSha256 pdfSha256 = false) (valueError "invalid pdf_sha256")
  pure ("revision_".toList ++ H.canonical (.obj [("pdf_sha256".toList, .str pdfSha256),
    ("product_lineage_id".toList, .str productLineageId), ("source_id".toList, .str sourceId)]))

end

end CardRag
