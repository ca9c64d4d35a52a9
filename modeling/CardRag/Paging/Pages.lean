import CardRag.Lib.Paging
import CardRag.Search.Filters

/-! # Paged queries (`repository.py`, `catalog.py`)

`get_evidence`, on contract generations and on the older ones, and the pages of the catalog listings. Each
of them, and `_search_v5_compat`, is read to its end with any limits that the query allows. -/

namespace CardRag.Paging

open Search

variable {σ : Type}

/-- The list that `f` makes of the elements, when it fails on none of them. -/
def resultsOf {ε α β : Type} (f : α → Except ε β) (x : α) : List β := (f x).toOption.toList

theorem mapM_eq_ok_resultsOf {ε α β : Type} {f : α → Except ε β} {xs : List α} {ys : List β} :
    xs.mapM f = .ok ys ↔ (∀ x ∈ xs, ∃ y, f x = .ok y) ∧ ys = xs.flatMap (resultsOf f) := by
  induction xs generalizing ys with
  | nil => simp [pure, Except.pure, eq_comm]
  | cons x xs ih =>
    simp only [List.mapM_cons, Guard.bind_eq_ok, Guard.pure_eq_ok, ih, List.forall_mem_cons, List.flatMap_cons]
    constructor
    · rintro ⟨y, hy, ys, ⟨hall, rfl⟩, rfl⟩
      refine ⟨⟨⟨y, hy⟩, hall⟩, ?_⟩
      rw [resultsOf, hy]
      rfl
    · rintro ⟨⟨⟨y, hy⟩, hall⟩, rfl⟩
      refine ⟨y, hy, _, ⟨hall, rfl⟩, ?_⟩
      rw [resultsOf, hy]
      rfl

theorem take_split {α : Type} (xs : List α) (o limit : Nat) :
    xs.drop o = (xs.drop o).take limit ++ xs.drop (o + ((xs.drop o).take limit).length) := by
  have h : xs.drop (o + ((xs.drop o).take limit).length) = (xs.drop o).drop limit := by
    rw [List.drop_drop, List.length_take, List.length_drop]
    by_cases hle : limit ≤ xs.length - o
    · rw [Nat.min_eq_left hle]
    · rw [List.drop_eq_nil_of_le (by omega), List.drop_eq_nil_of_le (by omega)]
  rw [h, List.take_append_drop]

theorem drop_eq_nil_iff_not_lt {α : Type} {xs : List α} {k : Nat} : xs.drop k = [] ↔ ¬ k < xs.length := by
  rw [List.drop_eq_nil_iff, not_lt]

/-! ### Evidence of a contract generation -/

structure EvidencePage (σ : Type) where
  items : List (Evidence σ)
  nextCursor : Option Str

/-- What a contract search and the evidence queries read of a generation. -/
structure ContractGeneration where
  generationId : Str
  catalog : Catalog
  tables : Tables

/-- The evidence of a node with spans. -/
def nodeEvidence (contract : ContractRevisionSummary) (node : ContextNode) : Except Raised (Evidence σ) :=
  match node.spans.head?, node.spans.getLast? with
  | some first, some last => do
    let text := ['\n'].intercalate (node.spans.map (·.text))
    raiseIf (text = []) (valueError "String should have at least 1 character")
    pure ⟨node.nodeId, contract.documentId, contract.issuer, contract.productCode, contract.productName,
      contract.productName, first.page, last.page, node.nodeType.text, text, first.sourceStart, last.sourceEnd,
      contract.pdfSha256, none, none, none⟩
  | _, _ => throw ⟨.indexError, "tuple index out of range"⟩

section
variable (H : Sha256) (M : HmacSha256) (C : CursorCodec) (hash : SetOrder) (G : ContractGeneration)

def getBundle (revisionId : Str) : Except Raised (Option (ContractRevisionSummary × List ContextNode)) := do
  match (← G.catalog.summaries).find? (·.contractRevisionId = revisionId) with
  | none => pure none
  | some contract => do
    let graph ← expandedGraph hash { G.tables with links := [] } revisionId [] true
    pure (some (contract, graph.nodes))

/-- The contract of a piece of evidence, the nodes of the bundle and the place of the evidence. -/
def evidenceAnchor (evidenceId : Str) : Except Raised (Option (ContractRevisionSummary × List ContextNode × Nat)) :=
  match G.tables.nodes.find? (·.nodeId = evidenceId) with
  | none => pure none
  | some row => do
    match ← getBundle hash G row.contractRevisionId with
    | none => pure none
    | some (contract, nodes) => pure ((nodes.findIdx? (·.nodeId = evidenceId)).map fun i => (contract, nodes, i))

/-- `sha256("evidence\x00" + evidence_id)`. -/
def evidenceBinding (evidenceId : Str) : Str := H.hexdigest ("evidence\x00".toList ++ evidenceId)

/-- A page of the nodes from the anchor on. -/
def evidencePage (evidenceId : Str) (contract : ContractRevisionSummary) (nodes : List ContextNode) (anchor : Nat)
    (cursor : Option Str) (limit : Nat) : Except Raised (EvidencePage σ) := do
  let offset ← C.decode M cursor G.generationId (evidenceBinding H evidenceId) nodes.length
  let selected := (nodes.drop (anchor + offset)).take limit
  -- a node without spans is passed over, but it counts for the offset
  let items ← (selected.filter (·.spans ≠ [])).mapM (nodeEvidence contract)
  pure ⟨items, if anchor + offset + selected.length < nodes.length then
    some (C.encode M G.generationId (offset + selected.length) (evidenceBinding H evidenceId)) else none⟩

/-- `get_evidence` of a contract generation; `none` when there is no such evidence. -/
def getEvidence (evidenceId : Str) (cursor : Option Str) (limit : Nat) : Except Raised (Option (EvidencePage σ)) := do
  raiseIf (limit < 1 ∨ 50 < limit) (valueError "limit must be between 1 and 50")
  match ← evidenceAnchor hash G evidenceId with
  | none => pure none
  | some (contract, nodes, anchor) => do pure (some (← evidencePage H M C G evidenceId contract nodes anchor cursor limit))

end

/-! ### Evidence of an older generation -/

structure EvidenceRow where
  evidenceId : Str
  documentId : Str
  pageStart : Nat
  pageEnd : Nat
  sectionType : Str
  text : Str
  sourceStart : Nat
  sourceEnd : Nat

structure DocumentRow where
  documentId : Str
  issuer : Str
  productCode : Str
  title : Str
  pdfSha256 : Str

structure ProductRow where
  issuer : Str
  productCode : Str
  name : Str

/-- A generation of the schemas v2 to v4 that the server holds: its vectors, 6144 bytes for each row of
`evidence`, fit into the limit of the settings, which is at most 1 GiB. -/
structure LegacyGeneration where
  generationId : Str
  evidence : List EvidenceRow
  documents : List DocumentRow
  products : List ProductRow
  maximumVectorBytes : Nat
  vectors_fit : evidence.length * 6144 ≤ maximumVectorBytes
  settings : maximumVectorBytes ≤ 1024 * 1024 * 1024

/-- The validators of `Evidence`. -/
def checkEvidence (e : Evidence σ) : Except Raised (Evidence σ) := do
  let evidenceId ← identifier e.evidenceId
  let documentId ← identifier e.documentId
  let issuer ← identifier e.issuer
  let productCode ← identifier e.productCode
  raiseIf (e.pageStart < 1 ∨ e.pageEnd < 1) (valueError "Input should be greater than or equal to 1")
  let sectionType ← Search.boundedText 256 e.sectionType
  raiseIf (e.text = []) (valueError "String should have at least 1 character")
  let pdfSha256 ← sha256Hex e.pdfSha256
  pure { e with evidenceId, documentId, issuer, productCode, sectionType, pdfSha256 }

/-- The rows of the join in `_evidence_rows`. -/
def LegacyGeneration.joined (G : LegacyGeneration) : List (Evidence σ) :=
  G.evidence.flatMap fun e => (G.documents.filter (·.documentId = e.documentId)).flatMap fun d =>
    (G.products.filter fun p => p.issuer = d.issuer ∧ p.productCode = d.productCode).map fun p =>
      ⟨e.evidenceId, e.documentId, d.issuer, d.productCode, p.name, d.title, e.pageStart, e.pageEnd, e.sectionType,
        e.text, e.sourceStart, e.sourceEnd, d.pdfSha256, none, none, none⟩

/-- One row of `_evidence_rows`. -/
def LegacyGeneration.evidenceRow (G : LegacyGeneration) (evidenceId : Str) : Except Raised (Evidence σ) :=
  match PyList.get? (PyList.dictOf (·.evidenceId) G.joined) evidenceId with
  | none => throw ⟨.runtimeError, "ranked evidence disappeared from immutable database"⟩
  | some e => checkEvidence e

def EvidenceRow.position (e : EvidenceRow) : Nat ×ₗ Nat ×ₗ Str := toLex (e.pageStart, toLex (e.sourceStart, e.evidenceId))

/-- The evidence of the anchor's document from the anchor on. -/
def LegacyGeneration.adjacentIds (G : LegacyGeneration) (anchor : EvidenceRow) : List Str :=
  (PyList.sortedBy (·.position)
    (G.evidence.filter fun e => e.documentId = anchor.documentId ∧ anchor.position ≤ e.position)).map (·.evidenceId)

def LegacyGeneration.adjacentEvidence (G : LegacyGeneration) (evidenceId : Str) (offset limit : Nat) :
    Except Raised (Option (List (Evidence σ) × Bool)) :=
  match G.evidence.find? (·.evidenceId = evidenceId) with
  | none => pure none
  | some anchor => do
    let rows := ((G.adjacentIds anchor).drop offset).take (limit + 1)
    let values ← (rows.take limit).mapM G.evidenceRow
    pure (some (values, decide (limit < rows.length)))

section
variable (H : Sha256) (M : HmacSha256) (C : CursorCodec) (G : LegacyGeneration)

/-- `get_evidence` of an older generation. -/
def getLegacyEvidence (evidenceId : Str) (cursor : Option Str) (limit : Nat) : Except Raised (Option (EvidencePage σ)) := do
  raiseIf (limit < 1 ∨ 50 < limit) (valueError "limit must be between 1 and 50")
  let offset ← C.decode M cursor G.generationId (evidenceBinding H evidenceId) 1000000
  match ← G.adjacentEvidence evidenceId offset limit with
  | none => pure none
  | some (rows, hasMore) =>
    pure (some ⟨rows, if hasMore then
      some (C.encode M G.generationId (offset + rows.length) (evidenceBinding H evidenceId)) else none⟩)

end

/-! ### Catalog listings -/

section
variable {α : Type} (H : Sha256) (M : HmacSha256) (C : CursorCodec) (generationId : Str)

/-- `page_limit`: no limit, or one from 1 to 100. -/
def validPageLimit (limit : Option Nat) : Prop := ∀ n, limit = some n → 1 ≤ n ∧ n ≤ 100

/-- `CatalogRepository._page`. -/
def catalogPage (items : List α) (binding : Json) (cursor : Option Str) (limit : Option Nat) :
    Except Raised (List α × Option Str) := do
  let queryHash := H.hexdigest binding.renderAscii
  let offset ← C.decode M cursor generationId queryHash items.length
  let selected := match limit with
    | some limit => (items.drop offset).take limit
    | none => items.drop offset
  pure (selected, if offset + selected.length < items.length then
    some (C.encode M generationId (offset + selected.length) queryHash) else none)

/-- The bindings of `recent` and `find`; a limit is part of them. -/
def recentBinding (scope : Option (List Str)) (start stop : Date) (limit : Option Nat) : Json :=
  .obj [("end".toList, .str stop.isoformat), ("limit".toList, limit.elim .null .num),
    ("scope".toList, scope.elim .null fun codes => .arr (codes.map .str)), ("start".toList, .str start.isoformat),
    ("tool".toList, .str "recent".toList)]

def findBinding (mode keyword sort : Str) (scope : Option (List Str)) (limit : Option Nat) : Json :=
  .obj [("keyword".toList, .str keyword), ("limit".toList, limit.elim .null .num), ("mode".toList, .str mode),
    ("scope".toList, scope.elim .null fun codes => .arr (codes.map .str)), ("sort".toList, .str sort),
    ("tool".toList, .str "find".toList)]

/-- The page of `recent` that lists these entries. -/
def recentPage (items : List α) (scope : Option (List Str)) (start stop : Date) (cursor : Option Str) (limit : Option Nat) :
    Except Raised (List α × Option Str) :=
  catalogPage H M C generationId items (recentBinding scope start stop limit) cursor limit

def findPage (items : List α) (mode keyword sort : Str) (scope : Option (List Str)) (cursor : Option Str)
    (limit : Option Nat) : Except Raised (List α × Option Str) :=
  catalogPage H M C generationId items (findBinding mode keyword sort scope limit) cursor limit

end

/-! ### Each query serves its list -/

section
variable {H : Sha256} {M : HmacSha256} {C : CursorCodec} {generationId binding : Str}

theorem decode_pointsTo {cursor : Option Str} {o maximum : Nat}
    (h : PointsTo (fun o => C.encode M generationId o binding) cursor o) (ho : o ≤ maximum) :
    C.decode M cursor generationId binding maximum = .ok o := by
  rcases h with ⟨rfl, rfl⟩ | rfl
  · rfl
  · exact CursorCodec.decode_encode ho

/-- The cursor behind a page, as the query computes it. -/
theorem next_eq {α γ : Type} {xs : List α} {k : Nat} {token : γ} :
    (if k < xs.length then some token else none) = if xs.drop k = [] then none else some token := by
  by_cases h : k < xs.length
  · rw [if_pos h, if_neg (by rw [drop_eq_nil_iff_not_lt]; exact not_not_intro h)]
  · rw [if_neg h, if_pos (drop_eq_nil_iff_not_lt.2 h)]

theorem take_ne_nil {α : Type} {xs : List α} {limit : Nat} (hlimit : 1 ≤ limit) (h : xs ≠ []) : xs.take limit ≠ [] := by
  rw [ne_eq, List.take_eq_nil_iff, not_or]
  exact ⟨by omega, h⟩

theorem serves_answerPage (ranked : List (Evidence σ)) :
    Serves (fun cursor limit => (fun page : SearchPage σ => (page.items, page.nextCursor)) <$>
      answerPage M C generationId binding ranked cursor limit) (fun limit => 1 ≤ limit ∧ limit ≤ 50) ranked (fun e => [e])
      fun o => C.encode M generationId o binding := by
  intro cursor o limit hc ho hlimit
  refine ⟨(ranked.drop o).take limit, _, take_split ranked o limit, take_ne_nil hlimit.1, ?_⟩
  dsimp only
  rw [answerPage, decode_pointsTo hc ho, ← next_eq, List.flatMap_singleton']
  rfl

theorem serves_catalogPage {α : Type} (items : List α) (binding : Option Nat → Json) (limit : Option Nat)
    (hlimit : validPageLimit limit) :
    Serves (fun cursor limit => catalogPage H M C generationId items (binding limit) cursor limit) (· = limit) items
      (fun e => [e]) fun o => C.encode M generationId o (H.hexdigest (binding limit).renderAscii) := by
  intro cursor o k hc ho hk
  obtain rfl : k = limit := hk
  dsimp only
  cases k with
  | none =>
    refine ⟨items.drop o, [], (List.append_nil _).symm, id, ?_⟩
    rw [catalogPage, decode_pointsTo hc ho, List.flatMap_singleton', if_pos rfl]
    show Except.ok (items.drop o, if o + (items.drop o).length < items.length then _ else none) = _
    rw [if_neg (by rw [List.length_drop]; omega)]
  | some k =>
    refine ⟨(items.drop o).take k, _, take_split items o k, take_ne_nil (hlimit k rfl).1, ?_⟩
    rw [catalogPage, decode_pointsTo hc ho, ← next_eq, List.flatMap_singleton']
    rfl

/-- What the nodes of a page show. -/
def shownNode (contract : ContractRevisionSummary) (node : ContextNode) : List (Evidence σ) :=
  if node.spans = [] then [] else resultsOf (nodeEvidence contract) node

theorem mapM_nodeEvidence {contract : ContractRevisionSummary} {nodes : List ContextNode}
    (h : ∀ node ∈ nodes, node.spans ≠ [] → ∃ e : Evidence σ, nodeEvidence contract node = .ok e) :
    (nodes.filter (·.spans ≠ [])).mapM (nodeEvidence contract) = .ok (nodes.flatMap (shownNode (σ := σ) contract)) := by
  rw [mapM_eq_ok_resultsOf]
  refine ⟨fun node hnode => ?_, ?_⟩
  · rw [List.mem_filter, decide_eq_true_eq] at hnode
    exact h node hnode.1 hnode.2
  · clear h
    induction nodes with
    | nil => rfl
    | cons node nodes ih =>
      rw [List.flatMap_cons, ih, shownNode, List.filter_cons]
      by_cases hs : node.spans = []
      · simp [hs]
      · simp [hs]

theorem serves_evidencePage (G : ContractGeneration) (evidenceId : Str) (contract : ContractRevisionSummary)
    (nodes : List ContextNode) (anchor : Nat)
    (h : ∀ node ∈ nodes.drop anchor, node.spans ≠ [] → ∃ e : Evidence σ, nodeEvidence contract node = .ok e) :
    Serves (fun cursor limit => (fun page : EvidencePage σ => (page.items, page.nextCursor)) <$>
      evidencePage H M C G evidenceId contract nodes anchor cursor limit) (fun limit => 1 ≤ limit ∧ limit ≤ 50)
      (nodes.drop anchor) (shownNode contract) fun o => C.encode M G.generationId o (evidenceBinding H evidenceId) := by
  intro cursor o limit hc ho hlimit
  refine ⟨((nodes.drop anchor).drop o).take limit, _, take_split _ o limit, take_ne_nil hlimit.1, ?_⟩
  have hmax : o ≤ nodes.length := by
    rw [List.length_drop] at ho
    omega
  have hitems : ((((nodes.drop anchor).drop o).take limit).filter (·.spans ≠ [])).mapM (nodeEvidence contract) =
      .ok ((((nodes.drop anchor).drop o).take limit).flatMap (shownNode (σ := σ) contract)) :=
    mapM_nodeEvidence fun node hnode => h node (List.mem_of_mem_drop (List.mem_of_mem_take hnode))
  have hlt : anchor + o + ((nodes.drop (anchor + o)).take limit).length < nodes.length ↔
      o + (((nodes.drop anchor).drop o).take limit).length < (nodes.drop anchor).length := by
    rw [List.drop_drop, List.length_drop]
    omega
  dsimp only
  rw [evidencePage, decode_pointsTo hc hmax, ← next_eq]
  show (fun page : EvidencePage σ => (page.items, page.nextCursor)) <$>
    ((((nodes.drop (anchor + o)).take limit).filter (·.spans ≠ [])).mapM (nodeEvidence contract) >>= fun items =>
      pure ⟨items, if anchor + o + ((nodes.drop (anchor + o)).take limit).length < nodes.length then _ else none⟩) = _
  rw [List.drop_drop] at hitems ⊢
  rw [hitems]
  simp only [hlt, List.drop_drop]
  rfl

/-- A page of `get_evidence`, read as its items and its cursor; evidence that does not exist has none. -/
def answered : Option (EvidencePage σ) → List (Evidence σ) × Option Str
  | none => ([], none)
  | some page => (page.items, page.nextCursor)

theorem getEvidence_eq {hash : SetOrder} {G : ContractGeneration} {evidenceId : Str} {contract : ContractRevisionSummary}
    {nodes : List ContextNode} {anchor : Nat} (h : evidenceAnchor hash G evidenceId = .ok (some (contract, nodes, anchor)))
    {cursor : Option Str} {limit : Nat} (hlimit : 1 ≤ limit ∧ limit ≤ 50) :
    answered (σ := σ) <$> getEvidence H M C hash G evidenceId cursor limit =
      (fun page : EvidencePage σ => (page.items, page.nextCursor)) <$>
        evidencePage H M C G evidenceId contract nodes anchor cursor limit := by
  have hguard : raiseIf (limit < 1 ∨ 50 < limit) (valueError "limit must be between 1 and 50") = .ok () := by
    rw [raiseIf_eq_ok]
    omega
  rw [getEvidence, hguard, h]
  show answered <$> (evidencePage H M C G evidenceId contract nodes anchor cursor limit >>= fun p => pure (some p)) = _
  cases evidencePage (σ := σ) H M C G evidenceId contract nodes anchor cursor limit with
  | error _ => rfl
  | ok _ => rfl

theorem length_adjacentIds (G : LegacyGeneration) (anchor : EvidenceRow) : (G.adjacentIds anchor).length ≤ 1000000 := by
  have hfilter := List.length_filter_le (fun e : EvidenceRow => e.documentId = anchor.documentId ∧ anchor.position ≤ e.position)
    G.evidence
  have hfit := G.vectors_fit
  have hmax := G.settings
  rw [LegacyGeneration.adjacentIds, List.length_map, PyList.length_sortedBy]
  omega

theorem serves_getLegacyEvidence (G : LegacyGeneration) {evidenceId : Str} {anchor : EvidenceRow}
    (hanchor : G.evidence.find? (·.evidenceId = evidenceId) = some anchor)
    (h : ∀ id ∈ G.adjacentIds anchor, ∃ e : Evidence σ, G.evidenceRow id = .ok e) :
    Serves (fun cursor limit => answered (σ := σ) <$> getLegacyEvidence H M C G evidenceId cursor limit)
      (fun limit => 1 ≤ limit ∧ limit ≤ 50) (G.adjacentIds anchor) (resultsOf G.evidenceRow)
      fun o => C.encode M G.generationId o (evidenceBinding H evidenceId) := by
  intro cursor o limit hc ho hlimit
  set ids := G.adjacentIds anchor with hids
  refine ⟨(ids.drop o).take limit, _, take_split ids o limit, take_ne_nil hlimit.1, ?_⟩
  have hguard : raiseIf (limit < 1 ∨ 50 < limit) (valueError "limit must be between 1 and 50") = .ok () := by
    rw [raiseIf_eq_ok]
    omega
  have hmax : o ≤ 1000000 := ho.trans (length_adjacentIds G anchor)
  have htake : ((ids.drop o).take (limit + 1)).take limit = (ids.drop o).take limit := by
    rw [List.take_take, Nat.min_eq_left (Nat.le_succ limit)]
  obtain ⟨values, hvalues, hlength⟩ : ∃ values : List (Evidence σ),
      ((ids.drop o).take limit).mapM G.evidenceRow = .ok values ∧ values.length = ((ids.drop o).take limit).length := by
    have hok : ∀ id ∈ (ids.drop o).take limit, ∃ e : Evidence σ, G.evidenceRow id = .ok e :=
      fun id hid => h id (List.mem_of_mem_drop (List.mem_of_mem_take hid))
    obtain ⟨values, hvalues⟩ := Guard.exists_mapM_ok.2 hok
    exact ⟨values, hvalues, (Guard.mapM_eq_ok.1 hvalues).length_eq.symm⟩
  have hshown := (mapM_eq_ok_resultsOf.1 hvalues).2
  have hmore : limit < ((ids.drop o).take (limit + 1)).length ↔ o + ((ids.drop o).take limit).length < ids.length := by
    rw [List.length_take, List.length_take, List.length_drop]
    omega
  have hadjacent : G.adjacentEvidence evidenceId o limit =
      .ok (some (values, decide (o + ((ids.drop o).take limit).length < ids.length))) := by
    rw [LegacyGeneration.adjacentEvidence, hanchor]
    show ((((ids.drop o).take (limit + 1)).take limit).mapM G.evidenceRow >>= fun values =>
      pure (some (values, decide (limit < ((ids.drop o).take (limit + 1)).length)))) = _
    rw [htake, hvalues, decide_eq_decide.2 hmore]
    rfl
  dsimp only
  rw [getLegacyEvidence, hguard, decode_pointsTo hc hmax, ← next_eq, ← hshown]
  show answered <$> (G.adjacentEvidence evidenceId o limit >>= _) = _
  rw [hadjacent]
  show Except.ok (values, if decide (o + ((ids.drop o).take limit).length < ids.length) = true then
    some (C.encode M G.generationId (o + values.length) (evidenceBinding H evidenceId)) else none) = _
  rw [hlength]
  simp only [decide_eq_true_eq]

end

/-- Every paged query is read to its end with any valid limits, and a cursor is good for what it was
issued for. -/
theorem paged_queries_complete_and_bound (H : Sha256) (M : HmacSha256) (C : CursorCodec) (hash : SetOrder) :
    -- `search_evidence`
    (∀ (U : Unicode) (nfkc : Str → Str) (nodes : List NodeRow) (retrieval : Retrieval σ nodes) (K : Catalog)
      (F : FloatOps σ) (generationId query : Str) (f : SearchFilters) (bundles : List (ContractEvidenceBundle σ)),
      exactSearch U nfkc retrieval K (contractRequest K ⟨query, f, 10, none⟩) = .ok bundles →
        Complete (fun cursor limit => (fun page : SearchPage σ => (page.items, page.nextCursor)) <$>
          searchV5Compat U nfkc retrieval K H M C F generationId ⟨query, f, limit, cursor⟩)
          (fun limit => 1 ≤ limit ∧ limit ≤ 50) (rankedEvidence U F f.sectionType bundles)) ∧
    -- `get_evidence`
    (∀ (G : ContractGeneration) (evidenceId : Str) (contract : ContractRevisionSummary) (nodes : List ContextNode)
      (anchor : Nat) (items : List (Evidence σ)), evidenceAnchor hash G evidenceId = .ok (some (contract, nodes, anchor)) →
      ((nodes.drop anchor).filter (·.spans ≠ [])).mapM (nodeEvidence contract) = .ok items →
        Complete (fun cursor limit => answered <$> getEvidence H M C hash G evidenceId cursor limit)
          (fun limit => 1 ≤ limit ∧ limit ≤ 50) items) ∧
    (∀ (G : LegacyGeneration) (evidenceId : Str) (anchor : EvidenceRow) (items : List (Evidence σ)),
      G.evidence.find? (·.evidenceId = evidenceId) = some anchor → (G.adjacentIds anchor).mapM G.evidenceRow = .ok items →
        Complete (fun cursor limit => answered <$> getLegacyEvidence H M C G evidenceId cursor limit)
          (fun limit => 1 ≤ limit ∧ limit ≤ 50) items) ∧
    -- the listings: the limit is part of the query
    (∀ (α : Type) (generationId : Str) (items : List α) (scope : Option (List Str)) (start stop : Date) (limit : Option Nat),
      validPageLimit limit →
        Complete (fun cursor limit => recentPage H M C generationId items scope start stop cursor limit) (· = limit) items) ∧
    (∀ (α : Type) (generationId : Str) (items : List α) (mode keyword sort : Str) (scope : Option (List Str))
      (limit : Option Nat), validPageLimit limit →
        Complete (fun cursor limit => findPage H M C generationId items mode keyword sort scope cursor limit) (· = limit)
          items) ∧
    -- cursors
    (∀ (generationId binding generationId' binding' : Str) (offset maximum offset' : Nat),
      C.decode M (some (C.encode M generationId offset binding)) generationId' binding' maximum = .ok offset' ↔
        (generationId' = generationId ∧ binding' = binding ∧ offset' = offset) ∧ offset ≤ maximum) ∧
    ∀ (issued : List (Str × Nat × Str)) (value generationId binding : Str) (offset maximum : Nat),
      CursorCodec.Unforged M C issued value → C.decode M (some value) generationId binding maximum = .ok offset →
        (generationId, offset, binding) ∈ issued := by
  refine ⟨?_, ?_, ?_, ?_, ?_, fun _ _ _ _ _ _ _ => CursorCodec.decode_encode_iff, fun _ _ _ _ _ _ =>
    CursorCodec.issued_of_decode⟩
  · intro U nfkc nodes retrieval K F generationId query f bundles hbundles
    have hserves := @serves_answerPage _ M C generationId (searchBinding H ⟨query, f, 10, none⟩)
      (rankedEvidence U F f.sectionType bundles)
    have hpage : ∀ cursor limit, searchV5Compat U nfkc retrieval K H M C F generationId ⟨query, f, limit, cursor⟩ =
        answerPage M C generationId (searchBinding H ⟨query, f, 10, none⟩) (rankedEvidence U F f.sectionType bundles)
          cursor limit := by
      intro cursor limit
      show exactSearch U nfkc retrieval K (contractRequest K ⟨query, f, 10, none⟩) >>= _ = _
      rw [hbundles]
      rfl
    simpa only [hpage, List.flatMap_singleton'] using hserves.complete
  · intro G evidenceId contract nodes anchor items hanchor hitems limits hvalid
    have hall : ∀ node ∈ nodes.drop anchor, node.spans ≠ [] → ∃ e : Evidence σ, nodeEvidence contract node = .ok e := by
      intro node hnode hspans
      exact (mapM_eq_ok_resultsOf.1 hitems).1 node (List.mem_filter.2 ⟨hnode, decide_eq_true hspans⟩)
    obtain rfl := Except.ok.inj (hitems.symm.trans (mapM_nodeEvidence hall))
    have hserves : Serves (fun cursor limit => answered (σ := σ) <$> getEvidence H M C hash G evidenceId cursor limit)
        (fun limit => 1 ≤ limit ∧ limit ≤ 50) (nodes.drop anchor) (shownNode contract)
        fun o => C.encode M G.generationId o (evidenceBinding H evidenceId) := by
      intro cursor o limit hc ho hlimit
      dsimp only
      rw [getEvidence_eq hanchor hlimit]
      exact serves_evidencePage G evidenceId contract nodes anchor hall cursor o limit hc ho hlimit
    exact hserves.complete limits hvalid
  · intro G evidenceId anchor items hanchor hitems
    obtain ⟨hall, rfl⟩ := mapM_eq_ok_resultsOf.1 hitems
    exact (serves_getLegacyEvidence G hanchor hall).complete
  · intro α generationId items scope start stop limit hlimit
    have h := (@serves_catalogPage H M C generationId _ items
      (recentBinding scope start stop) limit hlimit).complete
    rw [List.flatMap_singleton'] at h
    exact h
  · intro α generationId items mode keyword sort scope limit hlimit
    have h := (@serves_catalogPage H M C generationId _ items
      (findBinding mode keyword sort scope) limit hlimit).complete
    rw [List.flatMap_singleton'] at h
    exact h

def feeGeneration : ContractGeneration := ⟨"g".toList, oneProduct, paragraphTables .standard ["r".toList] [fee]⟩

def oneRow : LegacyGeneration where
  generationId := "g".toList
  evidence := [⟨"e".toList, "d".toList, 1, 1, "terms".toList, "fee".toList, 0, 3⟩]
  documents := [⟨"d".toList, "kb".toList, "B".toList, "card".toList, List.replicate 64 'a'⟩]
  products := [⟨"kb".toList, "B".toList, "card".toList⟩]
  maximumVectorBytes := 6144
  vectors_fit := by simp
  settings := by simp

theorem fee_queries_complete : (∃ bundles, Complete (fun cursor limit => (fun page : SearchPage Nat =>
      (page.items, page.nextCursor)) <$> searchV5Compat .ascii id feeRetrieval oneProduct .standard zeroMac zeroCodec
        tenths.float "g".toList ⟨"fee".toList, unknownCode, limit, cursor⟩) (fun limit => 1 ≤ limit ∧ limit ≤ 50)
      (rankedEvidence .ascii tenths.float none bundles)) ∧
    (∃ items : List (Evidence Nat), Complete (fun cursor limit => answered <$> getEvidence .standard zeroMac zeroCodec
      ⟨id, fun _ => .refl _⟩ feeGeneration "p".toList cursor limit) (fun limit => 1 ≤ limit ∧ limit ≤ 50) items) ∧
    (∃ items : List (Evidence Nat), Complete (fun cursor limit => answered <$> getLegacyEvidence .standard zeroMac zeroCodec
      oneRow "e".toList cursor limit) (fun limit => 1 ≤ limit ∧ limit ≤ 50) items) ∧
    Complete (fun cursor limit => recentPage .standard zeroMac zeroCodec "g".toList [1, 2, 3] none
      ⟨2024, 1, 1, by decide⟩ ⟨2024, 12, 31, by decide⟩ cursor limit) (· = some 2) [1, 2, 3] ∧
    Complete (fun cursor limit => findPage .standard zeroMac zeroCodec "g".toList [1, 2, 3] "name".toList "fee".toList
      "name".toList none cursor limit) (· = none) [1, 2, 3] ∧
    ("g".toList, 2, "b".toList) ∈ [("g".toList, 2, "b".toList)] := by
  obtain ⟨hsearch, hevidence, hlegacy, hrecent, hfind, -, hissued⟩ :=
    paged_queries_complete_and_bound (σ := Nat) .standard zeroMac zeroCodec ⟨id, fun _ => .refl _⟩
  refine ⟨?_, ?_, ?_, hrecent _ _ _ _ _ _ _ ?_, hfind _ _ _ _ _ _ _ _ ?_, ?_⟩
  · obtain ⟨bundles, hbundles⟩ : ∃ bundles, exactSearch .ascii id feeRetrieval oneProduct
        (contractRequest oneProduct ⟨"fee".toList, unknownCode, 10, none⟩) = .ok bundles :=
      Guard.exists_ok_of_isOk (by decide +kernel)
    exact ⟨bundles, hsearch _ _ _ _ _ _ _ _ _ _ hbundles⟩
  · obtain ⟨items, hitems⟩ : ∃ items : List (Evidence Nat), (do
        let anchor ← evidenceAnchor ⟨id, fun _ => .refl _⟩ feeGeneration "p".toList
        match anchor with
        | none => throw (valueError "no such evidence")
        | some (contract, nodes, anchor) => ((nodes.drop anchor).filter (·.spans ≠ [])).mapM (nodeEvidence contract)) =
          Except.ok items :=
      Guard.exists_ok_of_isOk (by decide +kernel)
    obtain ⟨anchor, hanchor, hitems⟩ := Guard.bind_eq_ok.1 hitems
    rcases anchor with _ | ⟨contract, nodes, anchor⟩
    · cases hitems
    · exact ⟨items, hevidence _ _ _ _ _ _ hanchor hitems⟩
  · obtain ⟨items, hitems⟩ : ∃ items : List (Evidence Nat), (oneRow.adjacentIds
        ⟨"e".toList, "d".toList, 1, 1, "terms".toList, "fee".toList, 0, 3⟩).mapM oneRow.evidenceRow = .ok items :=
      Guard.exists_ok_of_isOk (by decide +kernel)
    exact ⟨items, hlegacy _ _ _ _ rfl hitems⟩
  · rintro n (_ | _)
    decide
  · rintro n ⟨⟩
  · refine hissued _ (zeroCodec.encode zeroMac "g".toList 2 "b".toList) _ _ 2 3 ?_ (CursorCodec.decode_encode (by decide))
    intro signed hsigned
    rw [CursorCodec.signedBody_encode] at hsigned
    obtain rfl := Option.some.inj hsigned
    exact List.mem_singleton.2 rfl

end CardRag.Paging
