import CardRag.Lib.JsonRead
import CardRag.Lib.SelfSize
import CardRag.Search.Bundles
import CardRag.Search.Compact
import CardRag.Search.Outline

/-! # Sealed compact pages (`compact.py`, `exact.py`)

`_compact_evidence_groups` makes one bundle of each clause group, and `seal_compact_page` admits the groups in
turn, each wholly or not at all, merges those of one contract, and stays within the byte budget. -/

namespace CardRag.Search

open Guard

def compactResponseBytes : Nat := 65536

inductive OmissionReason where
  | responseByteLimit
  | candidateLimit
  | coarseView
deriving DecidableEq, Repr

structure CompactSearchDiagnostics where
  responseBytes : Nat
  rankedCandidateContracts : Nat
  candidateClauseGroups : Nat
  returnedClauseGroups : Nat
  omittedClauseGroups : Nat
  omittedContracts : Nat
  omissionReasons : List OmissionReason
  omittedGroupSample : List Str
  omittedGroupSampleComplete : Bool

/-- `κ` holds the fields that a page takes over as they are. -/
structure SearchCoverage (κ : Type) where
  request : κ
  exhaustiveRunning : Bool
  lexicalAdditionalEvidenceCount : Nat
  responseNodeCount : Nat
  responseCharacterCount : Nat
  responseTruncated : Bool
  fullContractFallbackCount : Nat

structure ContractSearchPage (κ σ : Type) where
  generationId : Str
  bundles : List (ContractEvidenceBundle σ)
  coverage : SearchCoverage κ
  compact : Option CompactSearchDiagnostics

/-- The serialiser of pages. The byte count stands in the text as a decimal number, and nothing else depends on it. -/
structure Encoding (κ σ : Type) where
  encodedResponseBytes : ContractSearchPage κ σ → Nat
  encoded : ∀ (page : ContractSearchPage κ σ) (d : CompactSearchDiagnostics), ∃ rest, ∀ n,
    encodedResponseBytes { page with compact := some { d with responseBytes := n } } = rest + (Json.decimal n).length

/-- The keyword arguments. -/
structure Candidates where
  rankedCandidateContracts : Nat
  coarseCount : Nat
  candidateLimitCount : Nat

variable {κ σ : Type}

abbrev ContractEvidenceBundle.revision (b : ContractEvidenceBundle σ) : Str := b.contract.contractRevisionId

/-! ### Clause groups as bundles -/

/-- The nodes with a notice in a set of semantic links, by the dictionary of the nodes. -/
def linkedNotices (byId : List (Str × ContextNode)) (nodes : List ContextNode) : Except Raised (List Str) := do
  let ends := nodes.flatMap fun n => (n.links.filter (·.linkType = .appliesTo)).flatMap fun l => [l.fromNodeId, l.toNodeId]
  let known ← ends.mapM fun nodeId =>
    match PyList.get? byId nodeId with
    | none => throw ⟨.keyError, "nodes"⟩
    | some node => pure node
  pure ((known.filter fun n => n.majorClass = .notice ∨ n.majorClass = .mixed).map (·.nodeId)).dedup

section
variable (R : Runtime σ) (linkOrder : LinkOrder) (db : Tables) (revisionId : Str) (summary : ContractRevisionSummary)
  (lexicalHits : List Str) (nodeScores : NodeScores σ)

/-- The loop body: a bundle, or nothing where the group is coarse. -/
def compactGroup (graph : List ContextNode) (nodeId : Str) : Except Raised (Option (ContractEvidenceBundle σ)) :=
  let selected := clauseGroup R.hash graph linkOrder nodeId
  match PyList.get? nodeScores (revisionId, nodeId) with
  | none => pure none
  | some score =>
    if selected = [] then pure none
    else do
      let views ← score.views.mapM (matchedView R db revisionId nodeId)
      match views.filter fun v => v.viewType ≠ .contract ∧ v.viewType ≠ .majorSection with
      | [] => pure none
      | first :: rest => do
        let best := R.float.maximum first.score (rest.map (·.score))
        let byId := PyList.dictOf (·.nodeId) selected
        let node ← (PyList.get? byId nodeId).elim (throw ⟨.keyError, "by_id"⟩) pure
        let found ← ScoredStructureNode.checked R ⟨node, best,
          ((first :: rest).filter fun v => R.float.isClose v.score best).map (·.viewType), first :: rest,
          decide (nodeId ∈ lexicalHits)⟩
        let notices ← linkedNotices byId selected
        pure (some ⟨summary, [found], selected, notices.length, selected.length - 1⟩)

/-- `_compact_evidence_groups`: the groups, and how many hits are coarse. -/
def compactEvidenceGroups (initialIds : List Str) : Except Raised (List (ContractEvidenceBundle σ) × Nat) := do
  let graph ← expandedGraph R.hash db revisionId [] true
  let results ← initialIds.mapM (compactGroup R linkOrder db revisionId summary lexicalHits nodeScores graph.nodes)
  pure (results.filterMap id, results.countP (·.isNone))

end

/-! ### Merging -/

def mergeLinks (old new : List StructureNodeLink) : List StructureNodeLink :=
  PyList.sortedBy (fun l => toLex (l.fromNodeId, toLex (l.toNodeId, l.linkType.text))) (old ++ new).dedup

/-- A node over the node of its id that is already there. -/
def joinNode (old : Option ContextNode) (node : ContextNode) : ContextNode :=
  old.elim node fun old => { node with links := mergeLinks old.links node.links }

def mergeNode (nodes : List (Str × ContextNode)) (node : ContextNode) : List (Str × ContextNode) :=
  PyList.insert node.nodeId (joinNode (PyList.get? nodes node.nodeId) node) nodes

def mergeNodes (previous group : List ContextNode) : List (Str × ContextNode) :=
  group.foldl mergeNode (PyList.dictOf (·.nodeId) previous)

/-- The loop body of `_merge` for two bundles of one contract. -/
def mergeBundle (previous group : ContractEvidenceBundle σ) : Except Raised (ContractEvidenceBundle σ) := do
  let nodes := mergeNodes previous.nodes group.nodes
  let found := PyList.dictOf (fun m : ScoredStructureNode σ => m.node.nodeId) (previous.matches ++ group.matches)
  let merged := PyList.sortedBy (fun n : ContextNode => toLex (n.ordinal, n.nodeId)) (PyList.values nodes)
  let notices ← linkedNotices nodes merged
  let shown ← (PyList.values found).mapM fun m =>
    match PyList.get? nodes m.node.nodeId with
    | none => throw ⟨.keyError, "nodes"⟩
    | some node => pure { m with node := node }
  pure ⟨previous.contract, shown, merged, notices.length, nodes.length - found.length⟩

def merge : List (ContractEvidenceBundle σ) → ContractEvidenceBundle σ → Except Raised (List (ContractEvidenceBundle σ))
  | [], group => pure [group]
  | previous :: rest, group =>
    if previous.revision = group.revision then (mergeBundle previous group).map (· :: rest)
    else (merge rest group).map (previous :: ·)

/-! ### Sealing -/

/-- The validators of a page. -/
def ContractSearchPage.checked (R : Runtime σ) (page : ContractSearchPage κ σ) : Except Raised (ContractSearchPage κ σ) := do
  raiseIf ((page.bundles.map (·.nodes.length)).sum ≠ page.coverage.responseNodeCount ∨
      (page.bundles.map (·.contextCharacterCount R)).sum ≠ page.coverage.responseCharacterCount)
    (valueError "contract bundles differ from response budget diagnostics")
  raiseIf (page.coverage.exhaustiveRunning ∧ page.bundles ≠ [])
    (valueError "running exhaustive audit cannot expose partial bundles")
  pure page

def ScoredEmbeddingView.checked (R : Runtime σ) (v : ScoredEmbeddingView σ) : Except Raised Unit := do
  v.spans.forM fun s => discard s.checked
  raiseIf (R.float.isFinite v.score = false) (valueError "embedding view score must be finite")
  raiseIf (v.spans.flatMap (·.text) ≠ v.displayText) (valueError "embedding view display text must equal its source spans")

def ContextNode.validate (n : ContextNode) : Except Raised Unit := do
  n.spans.forM fun s => discard s.checked
  discard n.checked

/-- `ContractSearchPage.model_validate(result.model_dump())`. -/
def ContractSearchPage.validate (R : Runtime σ) (page : ContractSearchPage κ σ) : Except Raised (ContractSearchPage κ σ) := do
  page.bundles.forM fun b => do
    b.nodes.forM (·.validate)
    b.matches.forM fun m => do
      m.node.validate
      m.matchedViews.forM (·.checked R)
      discard (m.checked R)
  raiseIf (compactResponseBytes < (page.compact.map (·.responseBytes)).getD 0)
    (valueError "Input should be less than or equal to 65536")
  raiseIf (maxSearchResponseNodes < page.coverage.responseNodeCount) (valueError "Input should be less than or equal to 2048")
  raiseIf (maxSearchResponseCharacters < page.coverage.responseCharacterCount)
    (valueError "Input should be less than or equal to 1000000")
  page.checked R

/-- `groups[i]` in the sample of the omitted. -/
def groupLabel (group : ContractEvidenceBundle σ) : Except Raised Str :=
  match group.matches with
  | [] => throw ⟨.indexError, "tuple index out of range"⟩
  | m :: _ => pure (group.revision ++ '/' :: m.node.nodeId)

/-- `reserve`: the eight labels that are longest in JSON. -/
def reserveLabels (labels : List Str) : List Str :=
  (labels.insertionSort fun a b => (Json.renderAscii (.str b)).length ≤ (Json.renderAscii (.str a)).length).take 8

section
variable (E : Encoding κ σ) (R : Runtime σ) (page : ContractSearchPage κ σ) (groups : List (ContractEvidenceBundle σ))
  (counts : Candidates)

/-- `candidates`. -/
def candidateGroups : Nat := groups.length + counts.coarseCount + counts.candidateLimitCount

/-- The contracts of the groups. -/
def groupContracts : Nat := (groups.map (·.revision)).dedup.length

/-- A page with diagnostics, as a document that states its size. -/
def sizedPage (bare : ContractSearchPage κ σ) : SelfSize.Sized CompactSearchDiagnostics where
  size d := E.encodedResponseBytes { bare with compact := some d }
  stated := CompactSearchDiagnostics.responseBytes
  state d n := { d with responseBytes := n }
  stated_state _ _ := rfl
  state_stated _ := rfl
  state_state _ _ _ := rfl
  size_state := E.encoded bare

def omissionReasons (omitted : List Str) : List OmissionReason :=
  (if omitted = [] then [] else [.responseByteLimit]) ++
    (if counts.candidateLimitCount ≠ 0 ∨ groupContracts groups < counts.rankedCandidateContracts then [.candidateLimit] else []) ++
    (if counts.coarseCount = 0 then [] else [.coarseView])

/-- The diagnostics of `build`; `accepted` is at most the number of the groups. -/
def diagnostics (bundles : List (ContractEvidenceBundle σ)) (accepted : Nat) (omitted : List Str) : CompactSearchDiagnostics where
  responseBytes := 0
  rankedCandidateContracts := counts.rankedCandidateContracts
  candidateClauseGroups := candidateGroups groups counts
  returnedClauseGroups := accepted
  omittedClauseGroups := candidateGroups groups counts - accepted
  omittedContracts := counts.rankedCandidateContracts - bundles.length
  omissionReasons := omissionReasons groups counts omitted
  omittedGroupSample := omitted.take 8
  omittedGroupSampleComplete := decide (omitted.length ≤ 8 ∧ counts.coarseCount = 0 ∧ counts.candidateLimitCount = 0 ∧
    counts.rankedCandidateContracts ≤ groupContracts groups)

def pageCoverage (bundles : List (ContractEvidenceBundle σ)) (accepted : Nat) : SearchCoverage κ :=
  { page.coverage with
    responseNodeCount := (bundles.map (·.nodes.length)).sum
    responseCharacterCount := (bundles.map (·.contextCharacterCount R)).sum
    responseTruncated := decide (candidateGroups groups counts - accepted ≠ 0 ∨ bundles.length < counts.rankedCandidateContracts)
    lexicalAdditionalEvidenceCount := (bundles.map fun b => b.matches.countP (·.lexicalOnly)).sum
    fullContractFallbackCount := 0 }

/-- `build`. -/
def buildPage (bundles : List (ContractEvidenceBundle σ)) (accepted : Nat) (omitted : List Str) :
    Except Raised (ContractSearchPage κ σ) := do
  raiseIf (counts.rankedCandidateContracts < bundles.length) (valueError "Input should be greater than or equal to 0")
  let d := diagnostics groups counts bundles accepted omitted
  let result ← ContractSearchPage.checked R
    ⟨page.generationId, bundles, pageCoverage R page groups counts bundles accepted, some d⟩
  pure { result with compact := some (SelfSize.settle (sizedPage E result) 6 d) }

/-- The variables of the loop over the groups. -/
structure Sealing (σ : Type) where
  bundles : List (ContractEvidenceBundle σ) := []
  accepted : Nat := 0
  omitted : List Str := []

def Sealing.offer (reserve : List Str) (st : Sealing σ) (group : ContractEvidenceBundle σ) : Except Raised (Sealing σ) := do
  let proposed ← merge st.bundles group
  let trial ← buildPage E R page groups counts proposed (st.accepted + 1) reserve
  if compactResponseBytes < E.encodedResponseBytes trial then do
    let label ← groupLabel group
    pure { st with omitted := st.omitted ++ [label] }
  else pure { st with bundles := proposed, accepted := st.accepted + 1 }

def sealCompactPage : Except Raised (ContractSearchPage κ σ) := do
  let labels ← groups.mapM groupLabel
  let st ← groups.foldlM (Sealing.offer E R page groups counts (reserveLabels labels)) {}
  let result ← buildPage E R page groups counts st.bundles st.accepted st.omitted
  raiseIf (compactResponseBytes < E.encodedResponseBytes result)
    ⟨.runtimeError, "compact response metadata exceeds the sealed byte budget"⟩
  result.validate R

end

/-! ### What a merge keeps -/

/-- A clause group as a bundle: each of its nodes once, and the matches are among them. -/
structure ContractEvidenceBundle.Whole (b : ContractEvidenceBundle σ) : Prop where
  nodup : (b.nodes.map (·.nodeId)).Nodup
  «matches» : ∀ m ∈ b.matches, m.node ∈ b.nodes

/-- A bundle holds exactly what these groups of its contract hold: their nodes, each once and with the links that it
has in any of them, and their matches. -/
structure ContractEvidenceBundle.Merges (groups : List (ContractEvidenceBundle σ)) (b : ContractEvidenceBundle σ) : Prop where
  contract : groups.head?.map (·.contract) = some b.contract
  nodup : (b.nodes.map (·.nodeId)).Nodup
  mem_nodes : ∀ x, x ∈ b.nodes.map (·.nodeId) ↔ ∃ g ∈ groups, x ∈ g.nodes.map (·.nodeId)
  nodes : ∀ n ∈ b.nodes, (∃ g ∈ groups, ∃ m ∈ g.nodes, n = { m with links := n.links }) ∧
    ∀ l, l ∈ n.links ↔ ∃ g ∈ groups, ∃ m ∈ g.nodes, m.nodeId = n.nodeId ∧ l ∈ m.links
  mem_matches : ∀ x, x ∈ b.matches.map (·.node.nodeId) ↔ ∃ g ∈ groups, x ∈ g.matches.map (·.node.nodeId)
  «matches» : ∀ m ∈ b.matches, m.node ∈ b.nodes ∧
    ∃ g ∈ groups, ∃ m' ∈ g.matches, m'.node.nodeId = m.node.nodeId ∧ m = { m' with node := m.node }

/-- The bundles of a page hold the admitted groups, one bundle for each contract in the order of admission. -/
structure Collects (groups bundles : List (ContractEvidenceBundle σ)) : Prop where
  contracts : bundles.map (·.revision) = (PyList.dictOf id (groups.map (·.revision))).map (·.1)
  merges : ∀ b ∈ bundles, b.Merges (groups.filter (·.revision = b.revision))

/-- Groups merged in turn. -/
def mergeAll (groups : List (ContractEvidenceBundle σ)) : Except Raised (List (ContractEvidenceBundle σ)) :=
  groups.foldlM merge []

/-- The groups that a list of verdicts admits. -/
def admitted (judged : List (ContractEvidenceBundle σ × Bool)) : List (ContractEvidenceBundle σ) :=
  (judged.filter (·.2)).map (·.1)

def leftOut (judged : List (ContractEvidenceBundle σ × Bool)) : List (ContractEvidenceBundle σ) :=
  (judged.filter fun j => !j.2).map (·.1)

/-- A group is admitted exactly if the page with it on top of the groups admitted before it, and with the reserve for
omissions, is within the budget. -/
def Judges (E : Encoding κ σ) (R : Runtime σ) (page : ContractSearchPage κ σ) (all : List (ContractEvidenceBundle σ))
    (counts : Candidates) (reserve : List Str) (before : List (ContractEvidenceBundle σ × Bool)) (g : ContractEvidenceBundle σ)
    (verdict : Bool) : Prop :=
  ∃ bundles proposed trial, mergeAll (admitted before) = .ok bundles ∧ merge bundles g = .ok proposed ∧
    buildPage E R page all counts proposed ((admitted before).length + 1) reserve = .ok trial ∧
    verdict = decide (E.encodedResponseBytes trial ≤ compactResponseBytes)

/-- A group that `_compact_evidence_groups` makes of some hits. -/
def IsClauseGroup (R : Runtime σ) (g : ContractEvidenceBundle σ) : Prop :=
  ∃ linkOrder db revisionId summary lexicalHits nodeScores initialIds groups coarse,
    compactEvidenceGroups R linkOrder db revisionId summary lexicalHits nodeScores initialIds = .ok (groups, coarse) ∧ g ∈ groups

theorem mem_mergeLinks {old new : List StructureNodeLink} {l : StructureNodeLink} :
    l ∈ mergeLinks old new ↔ l ∈ old ∨ l ∈ new := by
  rw [mergeLinks, PyList.mem_sortedBy, List.mem_dedup, List.mem_append]

@[simp] theorem joinNode_nodeId (old : Option ContextNode) (n : ContextNode) : (joinNode old n).nodeId = n.nodeId := by
  cases old <;> rfl

theorem joinNode_eq (old : Option ContextNode) (n : ContextNode) : joinNode old n = { n with links := (joinNode old n).links } := by
  cases old <;> rfl

theorem mem_joinNode {old : Option ContextNode} {n : ContextNode} {l : StructureNodeLink} :
    l ∈ (joinNode old n).links ↔ (∃ o ∈ old, l ∈ o.links) ∨ l ∈ n.links := by
  cases old with
  | none => simp [joinNode]
  | some o => simp [joinNode, mem_mergeLinks]

section
variable {previous group : List ContextNode} {n : ContextNode}

theorem get?_foldl_mergeNode (hn : (group.map (·.nodeId)).Nodup) (d : List (Str × ContextNode)) (k : Str) :
    PyList.get? (group.foldl mergeNode d) k =
      (group.find? (·.nodeId = k)).elim (PyList.get? d k) fun n => some (joinNode (PyList.get? d k) n) := by
  induction group generalizing d with
  | nil => rfl
  | cons n group ih =>
    obtain ⟨hnot, hn⟩ := List.nodup_cons.1 hn
    have hstep : PyList.get? (mergeNode d n) k = if n.nodeId = k then some (joinNode (PyList.get? d n.nodeId) n) else PyList.get? d k :=
      PyList.get?_insert ..
    rw [List.foldl_cons, ih hn, hstep]
    by_cases hk : n.nodeId = k
    · subst hk
      have hnone : group.find? (·.nodeId = n.nodeId) = none :=
        List.find?_eq_none.2 fun m hm heq => hnot (List.mem_map.2 ⟨m, hm, of_decide_eq_true heq⟩)
      rw [hnone, List.find?_cons_of_pos (by simp), if_pos rfl]
      rfl
    · rw [List.find?_cons_of_neg (by simpa using hk), if_neg hk]

theorem foldl_mergeNode_keyed (d : List (Str × ContextNode)) (hn : (d.map (·.1)).Nodup) (hk : ∀ e ∈ d, e.2.nodeId = e.1) :
    ((group.foldl mergeNode d).map (·.1)).Nodup ∧ ∀ e ∈ group.foldl mergeNode d, e.2.nodeId = e.1 := by
  induction group generalizing d with
  | nil => exact ⟨hn, hk⟩
  | cons n group ih =>
    refine ih _ (PyList.nodup_keys_insert hn) fun e he => ?_
    obtain rfl | he := PyList.mem_insert he
    · exact joinNode_nodeId ..
    · exact hk e he

theorem mergeNodes_keyed : ((mergeNodes previous group).map (·.1)).Nodup ∧ ∀ e ∈ mergeNodes previous group, e.2.nodeId = e.1 :=
  foldl_mergeNode_keyed _ (PyList.nodup_keys_dictOf ..) fun _ he => PyList.key_of_mem_dictOf he

theorem nodup_mergeNodes : ((PyList.values (mergeNodes previous group)).map (·.nodeId)).Nodup := by
  have hkeys : (PyList.values (mergeNodes previous group)).map (·.nodeId) = (mergeNodes previous group).map (·.1) := by
    rw [PyList.values, List.map_map]
    exact List.map_congr_left mergeNodes_keyed.2
  exact hkeys ▸ mergeNodes_keyed.1

theorem mem_values_iff : n ∈ PyList.values (mergeNodes previous group) ↔ PyList.get? (mergeNodes previous group) n.nodeId = some n := by
  obtain ⟨hnodup, hkeyed⟩ : ((mergeNodes previous group).map (·.1)).Nodup ∧ ∀ e ∈ mergeNodes previous group, e.2.nodeId = e.1 :=
    mergeNodes_keyed
  rw [← PyList.mem_iff_get? hnodup, PyList.values, List.mem_map]
  constructor
  · rintro ⟨e, he, rfl⟩
    exact hkeyed e he ▸ he
  · exact fun h => ⟨_, h, rfl⟩

/-- What is in the merged dictionary: the earlier nodes that the group does not have, and its own over these. -/
theorem mem_mergeNodes (hg : (group.map (·.nodeId)).Nodup) : n ∈ PyList.values (mergeNodes previous group) ↔
    (PyList.get? (PyList.dictOf (·.nodeId) previous) n.nodeId = some n ∧ n.nodeId ∉ group.map (·.nodeId)) ∨
      ∃ m ∈ group, n = joinNode (PyList.get? (PyList.dictOf (·.nodeId) previous) m.nodeId) m := by
  rw [mem_values_iff, mergeNodes, get?_foldl_mergeNode hg]
  cases hfind : group.find? (·.nodeId = n.nodeId) with
  | none =>
    have hnot : n.nodeId ∉ group.map (·.nodeId) := by
      intro h
      obtain ⟨m, hm, heq⟩ := List.mem_map.1 h
      exact List.find?_eq_none.1 hfind m hm (decide_eq_true heq)
    refine ⟨fun h => .inl ⟨h, hnot⟩, ?_⟩
    rintro (⟨h, -⟩ | ⟨m, hm, h⟩)
    · exact h
    · have hid : n.nodeId = m.nodeId := h ▸ joinNode_nodeId ..
      exact absurd (List.mem_map.2 ⟨m, hm, hid.symm⟩) hnot
  | some m =>
    have hm := List.mem_of_find?_eq_some hfind
    have hid : m.nodeId = n.nodeId := by simpa using List.find?_some hfind
    constructor
    · intro h
      exact .inr ⟨m, hm, hid ▸ (Option.some.inj h).symm⟩
    · rintro (⟨-, h⟩ | ⟨m', hm', h⟩)
      · exact absurd (List.mem_map.2 ⟨m, hm, hid⟩) h
      · have hid' : n.nodeId = m'.nodeId := h ▸ joinNode_nodeId ..
        have heq : m = m' := List.inj_on_of_nodup_map hg hm hm' (hid.trans hid')
        subst heq
        rw [Option.elim_some, ← hid, ← h]

end

/-- What a merged bundle is: the nodes of the merged dictionary in order, and the found matches, each with its node as the
bundle has it. -/
theorem mergeBundle_ok {previous group b : ContractEvidenceBundle σ} (h : mergeBundle previous group = .ok b) :
    b.contract = previous.contract ∧
    b.nodes = PyList.sortedBy (fun n : ContextNode => toLex (n.ordinal, n.nodeId))
      (PyList.values (mergeNodes previous.nodes group.nodes)) ∧
    (∀ m ∈ b.matches, ∃ m' ∈ PyList.values (PyList.dictOf (fun m : ScoredStructureNode σ => m.node.nodeId)
      (previous.matches ++ group.matches)), m'.node.nodeId = m.node.nodeId ∧ m.node ∈ b.nodes ∧ m = { m' with node := m.node }) ∧
    ∀ m' ∈ PyList.values (PyList.dictOf (fun m : ScoredStructureNode σ => m.node.nodeId) (previous.matches ++ group.matches)),
      ∃ m ∈ b.matches, m.node.nodeId = m'.node.nodeId := by
  simp only [mergeBundle, bind_eq_ok, pure_eq_ok] at h
  obtain ⟨notices, -, shown, hshown, rfl⟩ := h
  refine ⟨rfl, rfl, fun m hm => ?_, fun m' hm' => ?_⟩
  · obtain ⟨m', hm', hok⟩ := mem_of_mapM_ok hshown hm
    split at hok
    · cases hok
    · rename_i node hnode
      cases hok
      have hid : node.nodeId = m'.node.nodeId := mergeNodes_keyed.2 _ (PyList.mem_of_get? hnode)
      exact ⟨m', hm', hid.symm, PyList.mem_sortedBy.2 (mem_values_iff.2 (hid ▸ hnode)), rfl⟩
  · obtain ⟨m, hm, hok⟩ := mapM_ok_of_mem hshown hm'
    split at hok
    · cases hok
    · rename_i node hnode
      cases hok
      exact ⟨_, hm, mergeNodes_keyed.2 _ (PyList.mem_of_get? hnode)⟩

namespace ContractEvidenceBundle
variable {previous group b : ContractEvidenceBundle σ} {groups : List (ContractEvidenceBundle σ)}

theorem Whole.merges (h : group.Whole) : group.Merges [group] where
  contract := rfl
  nodup := h.nodup
  mem_nodes x := by simp
  nodes n hn := by
    refine ⟨⟨group, List.mem_singleton_self _, n, hn, rfl⟩, fun l => ⟨fun hl => ⟨group, List.mem_singleton_self _, n, hn, rfl, hl⟩, ?_⟩⟩
    rintro ⟨g, hg, m, hm, hid, hl⟩
    obtain rfl := List.mem_singleton.1 hg
    exact List.inj_on_of_nodup_map h.nodup hm hn hid ▸ hl
  mem_matches x := by simp
  «matches» m hm := ⟨h.matches m hm, group, List.mem_singleton_self _, m, hm, rfl, rfl⟩

/-- The one step: a bundle that holds some groups holds one more after the merge. -/
theorem Merges.step (h : previous.Merges groups) (hg : group.Whole) (hok : mergeBundle previous group = .ok b) :
    b.Merges (groups ++ [group]) ∧ b.contract = previous.contract := by
  obtain ⟨hcontract, hnodes, hfound, hall⟩ := mergeBundle_ok hok
  have hold : ∀ x n, PyList.get? (PyList.dictOf (·.nodeId) previous.nodes) x = some n ↔ n ∈ previous.nodes ∧ n.nodeId = x := by
    intro x n
    refine ⟨PyList.get?_dictOf_some, ?_⟩
    rintro ⟨hn, rfl⟩
    exact PyList.get?_dictOf_of_mem h.nodup hn
  have hmem : ∀ n, n ∈ b.nodes ↔ (n ∈ previous.nodes ∧ n.nodeId ∉ group.nodes.map (·.nodeId)) ∨
        ∃ m ∈ group.nodes, n = joinNode (PyList.get? (PyList.dictOf (·.nodeId) previous.nodes) m.nodeId) m := by
    intro n
    rw [hnodes, PyList.mem_sortedBy, mem_mergeNodes hg.nodup, hold]
    simp only [and_true]
  have hlast : ∀ {P : ContractEvidenceBundle σ → Prop}, (∃ g ∈ groups ++ [group], P g) ↔ (∃ g ∈ groups, P g) ∨ P group := by
    intro P
    simp only [List.mem_append, List.mem_singleton, or_and_right, exists_or, exists_eq_left]
  refine ⟨⟨?_, ?_, fun x => ?_, fun n hn => ?_, fun x => ?_, fun m hm => ?_⟩, hcontract⟩
  · rw [List.head?_append, Option.map_or, h.contract, hcontract]
    rfl
  · rw [hnodes]
    exact ((PyList.sortedBy_perm ..).map _).nodup_iff.2 nodup_mergeNodes
  · rw [hlast, ← h.mem_nodes, List.mem_map]
    simp only [hmem]
    constructor
    · rintro ⟨n, ⟨hn, -⟩ | ⟨m, hm, rfl⟩, rfl⟩
      · exact .inl (List.mem_map_of_mem hn)
      · rw [joinNode_nodeId]
        exact .inr (List.mem_map_of_mem hm)
    · intro hx
      by_cases hx' : x ∈ group.nodes.map (·.nodeId)
      · obtain ⟨m, hm, rfl⟩ := List.mem_map.1 hx'
        exact ⟨_, .inr ⟨m, hm, rfl⟩, joinNode_nodeId ..⟩
      · obtain ⟨n, hn, rfl⟩ := List.mem_map.1 (hx.resolve_right hx')
        exact ⟨n, .inl ⟨hn, hx'⟩, rfl⟩
  · simp only [hlast]
    obtain ⟨hn, hnot⟩ | ⟨m, hm, heq⟩ := (hmem n).1 hn
    · obtain ⟨hsource, hlinks⟩ := h.nodes n hn
      refine ⟨.inl hsource, fun l => (hlinks l).trans ⟨.inl, fun hl => hl.resolve_right ?_⟩⟩
      rintro ⟨m, hm, hid, -⟩
      exact hnot (List.mem_map.2 ⟨m, hm, hid⟩)
    · have hid : n.nodeId = m.nodeId := heq ▸ joinNode_nodeId ..
      refine ⟨.inr ⟨m, hm, heq ▸ joinNode_eq ..⟩, fun l => ?_⟩
      rw [heq, mem_joinNode, joinNode_nodeId]
      constructor
      · rintro (⟨o, ho, hl⟩ | hl)
        · obtain ⟨ho, hoid⟩ := (hold _ _).1 ho
          exact .inl (hoid ▸ ((h.nodes o ho).2 l).1 hl)
        · exact .inr ⟨m, hm, rfl, hl⟩
      · rintro (hex | ⟨m', hm', hid', hl⟩)
        · obtain ⟨g, hgm, m', hm', hid', -⟩ := id hex
          obtain ⟨o, ho, hoid⟩ := List.mem_map.1 ((h.mem_nodes m.nodeId).2 ⟨g, hgm, List.mem_map.2 ⟨m', hm', hid'⟩⟩)
          exact .inl ⟨o, (hold _ _).2 ⟨ho, hoid⟩, ((h.nodes o ho).2 l).2 (hoid ▸ hex)⟩
        · exact .inr (List.inj_on_of_nodup_map hg.nodup hm' hm hid' ▸ hl)
  · rw [hlast, ← h.mem_matches, ← List.mem_append, ← List.map_append]
    constructor
    · intro hx
      obtain ⟨m, hm, rfl⟩ := List.mem_map.1 hx
      obtain ⟨m', hm', hid, -, -⟩ := hfound m hm
      exact List.mem_map.2 ⟨m', PyList.mem_values_dictOf hm', hid⟩
    · intro hx
      obtain ⟨m₀, hm₀, rfl⟩ := List.mem_map.1 hx
      obtain ⟨m', hm', hkey⟩ : ∃ m' ∈ PyList.values (PyList.dictOf (fun m : ScoredStructureNode σ => m.node.nodeId)
          (previous.matches ++ group.matches)), m'.node.nodeId = m₀.node.nodeId := PyList.exists_mem_values_dictOf hm₀
      obtain ⟨m, hm, hid⟩ := hall m' hm'
      exact List.mem_map.2 ⟨m, hm, hid.trans hkey⟩
  · obtain ⟨m', hm', hid, hnode, heq⟩ := hfound m hm
    refine ⟨hnode, ?_⟩
    rw [hlast]
    obtain hm' | hm' := List.mem_append.1 (PyList.mem_values_dictOf hm')
    · obtain ⟨-, g, hgm, m₀, hm₀, hid₀, heq₀⟩ := h.matches m' hm'
      refine .inl ⟨g, hgm, m₀, hm₀, hid₀.trans hid, ?_⟩
      rw [heq, heq₀]
    · exact .inr ⟨m', hm', hid, heq⟩

end ContractEvidenceBundle

/-! ### The groups are whole -/

section
variable {R : Runtime σ} {linkOrder : LinkOrder} {db : Tables} {revisionId : Str} {summary : ContractRevisionSummary}
  {lexicalHits initialIds : List Str} {nodeScores : NodeScores σ}

theorem ScoredStructureNode.checked_eq {m found : ScoredStructureNode σ} (h : m.checked R = .ok found) : found = m := by
  simp only [ScoredStructureNode.checked, bind_eq_ok, raiseIf_eq_ok, exists_unit] at h
  obtain ⟨-, h⟩ := h
  split at h
  · cases h
  · simp only [bind_eq_ok, raiseIf_eq_ok, exists_unit, pure_eq_ok] at h
    obtain ⟨-, -, -, rfl⟩ := h
    rfl

end

/-! ### One run of the loop -/

/-- Only the first bundle of the group's contract changes; without one the group is a new bundle. -/
theorem merge_ok {bundles out : List (ContractEvidenceBundle σ)} {group : ContractEvidenceBundle σ}
    (hkeep : ∀ previous ∈ bundles, ∀ b, mergeBundle previous group = .ok b → b.contract = previous.contract)
    (hn : (bundles.map (·.revision)).Nodup) (h : merge bundles group = .ok out) :
    out.map (·.revision) = (if group.revision ∈ bundles.map (·.revision) then bundles.map (·.revision)
      else bundles.map (·.revision) ++ [group.revision]) ∧
    ∀ b ∈ out, (b ∈ bundles ∧ b.revision ≠ group.revision) ∨
      (∃ previous ∈ bundles, previous.revision = group.revision ∧ mergeBundle previous group = .ok b) ∨
      (b = group ∧ group.revision ∉ bundles.map (·.revision)) := by
  induction bundles generalizing out with
  | nil =>
    cases h
    exact ⟨rfl, fun b hb => .inr (.inr ⟨List.mem_singleton.1 hb, List.not_mem_nil⟩)⟩
  | cons previous rest ih =>
    obtain ⟨hnot, hn⟩ := List.nodup_cons.1 hn
    unfold merge at h
    split at h
    · rename_i heq
      obtain ⟨b, hb, rfl⟩ := map_eq_ok.1 h
      have hrevision : b.revision = previous.revision := congrArg (·.contractRevisionId) (hkeep previous List.mem_cons_self b hb)
      refine ⟨?_, fun x hx => ?_⟩
      · rw [if_pos (by simp [heq]), List.map_cons, List.map_cons, hrevision]
      · obtain rfl | hx := List.mem_cons.1 hx
        · exact .inr (.inl ⟨previous, List.mem_cons_self, heq, hb⟩)
        · exact .inl ⟨List.mem_cons_of_mem _ hx, fun hxg => hnot (List.mem_map.2 ⟨x, hx, hxg.trans heq.symm⟩)⟩
    · rename_i hne
      obtain ⟨out', hout, rfl⟩ := map_eq_ok.1 h
      obtain ⟨hmap, hmem⟩ := ih (fun p hp => hkeep p (List.mem_cons_of_mem _ hp)) hn hout
      refine ⟨?_, fun x hx => ?_⟩
      · rw [List.map_cons, hmap, List.map_cons]
        by_cases hin : group.revision ∈ rest.map (·.revision)
        · rw [if_pos hin, if_pos (List.mem_cons_of_mem _ hin)]
        · rw [if_neg hin, if_neg (by simpa [Ne.symm hne] using hin)]
          rfl
      · obtain rfl | hx := List.mem_cons.1 hx
        · exact .inl ⟨List.mem_cons_self, hne⟩
        · obtain ⟨hx, hxg⟩ | ⟨p, hp, hpg, hok⟩ | ⟨hxg, hin⟩ := hmem x hx
          · exact .inl ⟨List.mem_cons_of_mem _ hx, hxg⟩
          · exact .inr (.inl ⟨p, List.mem_cons_of_mem _ hp, hpg, hok⟩)
          · exact .inr (.inr ⟨hxg, by simpa [Ne.symm hne] using hin⟩)

variable {groups bundles : List (ContractEvidenceBundle σ)} {group : ContractEvidenceBundle σ}

theorem Collects.nodup (h : Collects groups bundles) : (bundles.map (·.revision)).Nodup :=
  h.contracts ▸ PyList.nodup_keys_dictOf ..

theorem Collects.mem_contracts (h : Collects groups bundles) (r : Str) :
    r ∈ bundles.map (·.revision) ↔ r ∈ groups.map (·.revision) := by
  rw [h.contracts, PyList.mem_keys_dictOf, List.map_id]

theorem Collects.merge (h : Collects groups bundles) (hg : group.Whole) {out : List (ContractEvidenceBundle σ)}
    (hok : Search.merge bundles group = .ok out) : Collects (groups ++ [group]) out := by
  obtain ⟨hmap, hmem⟩ := merge_ok (fun p hp _ hb => ((h.merges p hp).step hg hb).2) h.nodup hok
  constructor
  · rw [hmap, List.map_append, PyList.dictOf, List.foldl_append]
    change _ = (PyList.insert group.revision group.revision (PyList.dictOf id (groups.map (·.revision)))).map (·.1)
    rw [PyList.keys_insert, ← h.contracts]
    by_cases hin : group.revision ∈ bundles.map (·.revision)
    · rw [if_pos hin, if_pos hin]
    · rw [if_neg hin, if_neg hin]
  · intro b hb
    have hfilter : (groups ++ [group]).filter (·.revision = b.revision) = groups.filter (·.revision = b.revision) ++
        if group.revision = b.revision then [group] else [] := by
      rw [List.filter_append]
      by_cases hr : group.revision = b.revision <;> simp [hr]
    rw [hfilter]
    obtain ⟨hb, hne⟩ | ⟨p, hp, hpg, hok⟩ | ⟨rfl, hnot⟩ := hmem b hb
    · rw [if_neg (Ne.symm hne), List.append_nil]
      exact h.merges b hb
    · obtain ⟨hstep, hcontract⟩ := (h.merges p hp).step hg hok
      have hrevision : b.revision = p.revision := congrArg (·.contractRevisionId) hcontract
      rw [if_pos (hpg.symm.trans hrevision.symm), hrevision]
      exact hstep
    · have hnone : groups.filter (·.revision = b.revision) = [] := by
        refine List.filter_eq_nil_iff.2 fun g hgm heq => hnot ?_
        exact (h.mem_contracts _).2 (List.mem_map.2 ⟨g, hgm, of_decide_eq_true heq⟩)
      rw [if_pos rfl, hnone]
      exact hg.merges

section
variable {E : Encoding κ σ} {R : Runtime σ} {page sealed : ContractSearchPage κ σ} {counts : Candidates}

/-- What the loop has done with some groups, by its verdicts on them. -/
structure Progress (E : Encoding κ σ) (R : Runtime σ) (page : ContractSearchPage κ σ) (all : List (ContractEvidenceBundle σ))
    (counts : Candidates) (reserve : List Str) (judged : List (ContractEvidenceBundle σ × Bool)) (st : Sealing σ) : Prop where
  merged : mergeAll (admitted judged) = .ok st.bundles
  collects : Collects (admitted judged) st.bundles
  accepted : st.accepted = (admitted judged).length
  omitted : (leftOut judged).mapM groupLabel = .ok st.omitted
  verdicts : ∀ before g verdict after, judged = before ++ (g, verdict) :: after →
    Judges E R page all counts reserve before g verdict

theorem admitted_append (judged : List (ContractEvidenceBundle σ × Bool)) (g : ContractEvidenceBundle σ) (verdict : Bool) :
    admitted (judged ++ [(g, verdict)]) = admitted judged ++ if verdict then [g] else [] := by
  cases verdict <;> simp [admitted]

theorem leftOut_append (judged : List (ContractEvidenceBundle σ × Bool)) (g : ContractEvidenceBundle σ) (verdict : Bool) :
    leftOut (judged ++ [(g, verdict)]) = leftOut judged ++ if verdict then [] else [g] := by
  cases verdict <;> simp [leftOut]

theorem mergeAll_append (groups : List (ContractEvidenceBundle σ)) (g : ContractEvidenceBundle σ) :
    mergeAll (groups ++ [g]) = mergeAll groups >>= fun bundles => merge bundles g := by
  rw [mergeAll, List.foldlM_append, mergeAll]
  refine bind_congr fun bundles => ?_
  rw [List.foldlM_cons]
  cases merge bundles g <;> rfl

theorem Progress.offer {all : List (ContractEvidenceBundle σ)} {judged : List (ContractEvidenceBundle σ × Bool)}
    {reserve : List Str} {st st' : Sealing σ} (h : Progress E R page all counts reserve judged st) (hg : group.Whole)
    (hok : st.offer E R page all counts reserve group = .ok st') :
    ∃ verdict, Progress E R page all counts reserve (judged ++ [(group, verdict)]) st' := by
  simp only [Sealing.offer, bind_eq_ok] at hok
  obtain ⟨proposed, hmerge, trial, htrial, hok⟩ := hok
  have hjudges : Judges E R page all counts reserve judged group
      (decide (E.encodedResponseBytes trial ≤ compactResponseBytes)) :=
    ⟨_, _, _, h.merged, hmerge, h.accepted ▸ htrial, rfl⟩
  have hverdicts (verdict : Bool) (hv : Judges E R page all counts reserve judged group verdict) :
      ∀ before g v after, judged ++ [(group, verdict)] = before ++ (g, v) :: after →
        Judges E R page all counts reserve before g v := by
    intro before g v after heq
    obtain rfl | ⟨last, x, rfl⟩ := List.eq_nil_or_concat after
    · obtain ⟨rfl, hlast⟩ := List.append_inj' heq rfl
      obtain ⟨rfl, rfl⟩ := Prod.mk.inj (List.cons.inj hlast).1
      exact hv
    · rw [List.concat_eq_append, ← List.cons_append, ← List.append_assoc] at heq
      obtain ⟨rfl, -⟩ := List.append_inj' heq rfl
      exact h.verdicts before g v last rfl
  split at hok
  · rename_i hsize
    simp only [bind_eq_ok, pure_eq_ok] at hok
    obtain ⟨label, hlabel, rfl⟩ := hok
    rw [decide_eq_false (Nat.not_le.2 hsize)] at hjudges
    refine ⟨false, ?_, ?_, ?_, ?_, hverdicts false hjudges⟩
    · rw [admitted_append, if_neg Bool.false_ne_true, List.append_nil]
      exact h.merged
    · rw [admitted_append, if_neg Bool.false_ne_true, List.append_nil]
      exact h.collects
    · rw [admitted_append, if_neg Bool.false_ne_true, List.append_nil]
      exact h.accepted
    · rw [leftOut_append, if_neg Bool.false_ne_true]
      exact mapM_eq_ok.2 (List.rel_append (mapM_eq_ok.1 h.omitted) (.cons hlabel .nil))
  · rename_i hsize
    simp only [pure_eq_ok] at hok
    subst hok
    rw [decide_eq_true (Nat.le_of_not_lt hsize)] at hjudges
    refine ⟨true, ?_, ?_, ?_, ?_, hverdicts true hjudges⟩
    · rw [admitted_append, if_pos rfl, mergeAll_append, h.merged]
      exact hmerge
    · rw [admitted_append, if_pos rfl]
      exact h.collects.merge hg hmerge
    · rw [admitted_append, if_pos rfl, List.length_append, ← h.accepted, List.length_singleton]
    · rw [leftOut_append, if_pos rfl, List.append_nil]
      exact h.omitted

/-! ### The sealed page -/

theorem checked_eq_ok {p q : ContractSearchPage κ σ} (h : p.checked R = .ok q) : q = p := by
  simp only [ContractSearchPage.checked, bind_eq_ok, pure_eq_ok] at h
  obtain ⟨-, -, -, -, rfl⟩ := h
  rfl

/-- A page that was built has the diagnostics of its bundles, and states its size. -/
theorem buildPage_ok {all : List (ContractEvidenceBundle σ)} {accepted : Nat} {omitted : List Str}
    (h : buildPage E R page all counts bundles accepted omitted = .ok sealed) :
    bundles.length ≤ counts.rankedCandidateContracts ∧ sealed.bundles = bundles ∧
    ∃ size, sealed.compact = some { diagnostics all counts bundles accepted omitted with responseBytes := size } ∧
      size = E.encodedResponseBytes sealed := by
  simp only [buildPage, bind_eq_ok, raiseIf_eq_ok, exists_unit, pure_eq_ok] at h
  obtain ⟨hranked, bare, hbare, rfl⟩ := h
  obtain rfl := checked_eq_ok hbare
  obtain ⟨size, hsize⟩ := SelfSize.settle_state (sizedPage E
    ⟨page.generationId, bundles, pageCoverage R page all counts bundles accepted,
      some (diagnostics all counts bundles accepted omitted)⟩) 6 (diagnostics all counts bundles accepted omitted)
  have hspec := SelfSize.settle_spec (sizedPage E
    ⟨page.generationId, bundles, pageCoverage R page all counts bundles accepted,
      some (diagnostics all counts bundles accepted omitted)⟩) (n := 6) (by decide)
    (a := diagnostics all counts bundles accepted omitted) rfl
  rw [hsize] at hspec
  refine ⟨Nat.le_of_not_lt hranked, rfl, size, congrArg some hsize, ?_⟩
  rw [hsize]
  exact hspec

theorem sealCompactPage_ok (h : sealCompactPage E R page groups counts = .ok sealed) :
    ∃ labels st, groups.mapM groupLabel = .ok labels ∧
      groups.foldlM (Sealing.offer E R page groups counts (reserveLabels labels)) {} = .ok st ∧
      buildPage E R page groups counts st.bundles st.accepted st.omitted = .ok sealed ∧
      E.encodedResponseBytes sealed ≤ compactResponseBytes := by
  simp only [sealCompactPage, bind_eq_ok, raiseIf_eq_ok, exists_unit] at h
  obtain ⟨labels, hlabels, st, hst, result, hresult, hsize, hvalid⟩ := h
  simp only [ContractSearchPage.validate, bind_eq_ok, raiseIf_eq_ok, exists_unit] at hvalid
  obtain ⟨-, -, -, -, hchecked⟩ := hvalid
  obtain rfl := checked_eq_ok hchecked
  exact ⟨labels, st, hlabels, hst, hresult, Nat.le_of_not_lt hsize⟩

/-- A sealed page is within the budget, and the byte count it reports is its own. -/
theorem sealed_bytes (h : sealCompactPage E R page groups counts = .ok sealed) :
    E.encodedResponseBytes sealed ≤ 65536 ∧ ∃ d, sealed.compact = some d ∧ d.responseBytes = E.encodedResponseBytes sealed := by
  obtain ⟨labels, st, -, -, hbuild, hsize⟩ := sealCompactPage_ok h
  obtain ⟨-, -, size, hd, heq⟩ := buildPage_ok hbuild
  exact ⟨hsize, _, hd, heq⟩

end

/-! ### Pages in JSON

`encoded_response_bytes`: the bytes of `json.dumps(page, ensure_ascii=True, indent=2)`, where a value counts its bytes by
the depth at which it stands. -/

namespace PageJson

abbrev Bytes := Nat → Nat

def text (s : Str) : Bytes := fun _ =>
  s.foldr (fun c total => ((Json.escapeChar c).flatMap Json.asciiChar).length + total) 2

def number (n : Nat) : Bytes := fun _ => (Json.decimal n).length

def flag (b : Bool) : Bytes := fun _ => if b then 4 else 5

def nullable {α : Type} (value : α → Bytes) : Option α → Bytes
  | none => fun _ => 4
  | some a => value a

/-- Every field on a line of its own, with its indent, its colon and its comma. -/
def object (fields : List (String × Bytes)) : Bytes := fun depth =>
  fields.foldr (fun f total => f.1.utf8ByteSize + f.2 (depth + 1) + 2 * depth + 8 + total) (2 * depth + 2)

def array (items : List Bytes) : Bytes := fun depth =>
  if items = [] then 2 else items.foldr (fun item total => item (depth + 1) + 2 * depth + 4 + total) (2 * depth + 2)

def texts (items : List Str) : Bytes := array (items.map text)

def span (s : SourceSpan) : Bytes :=
  object [("node_id", text s.nodeId), ("page", number s.page), ("source_start", number s.sourceStart),
    ("source_end", number s.sourceEnd), ("text_sha256", text s.textSha256), ("span_ordinal", number s.spanOrdinal),
    ("text", text s.text)]

def link (l : StructureNodeLink) : Bytes :=
  object [("from_node_id", text l.fromNodeId), ("to_node_id", text l.toNodeId), ("link_type", text l.linkType.text)]

def node (n : ContextNode) : Bytes :=
  object [("node_id", text n.nodeId), ("contract_revision_id", text n.contractRevisionId),
    ("parent_id", nullable text n.parentId), ("node_type", text n.nodeType.text), ("major_class", text n.majorClass.text),
    ("raw_heading", nullable text n.rawHeading), ("ordinal", number n.ordinal), ("display_text", text n.displayText),
    ("spans", array (n.spans.map span)), ("links", array (n.links.map link)), ("table_headers", texts n.tableHeaders),
    ("table_cells", texts n.tableCells), ("table_role", nullable (fun role => text (TableRole.text role)) n.tableRole)]

def contract (c : ContractRevisionSummary) : Bytes :=
  object [("product_lineage_id", text c.productLineageId), ("contract_revision_id", text c.contractRevisionId),
    ("document_id", text c.documentId), ("issuer", text c.issuer), ("product_code", text c.productCode),
    ("product_name", text c.productName), ("document_type", text c.documentType), ("source_id", text c.sourceId),
    ("source_version", text c.sourceVersion), ("source_url", text c.sourceUrl),
    ("effective_date", nullable (fun d => text (Date.isoformat d)) c.effectiveDate),
    ("temporal_status", text c.temporalStatus.text), ("supersedes_revision_id", nullable text c.supersedesRevisionId),
    ("pdf_sha256", text c.pdfSha256), ("page_count", number c.pageCount)]

def reason : OmissionReason → Str
  | .responseByteLimit => "response_byte_limit".toList
  | .candidateLimit => "candidate_limit".toList
  | .coarseView => "coarse_view".toList

section
variable {σ : Type} (R : Runtime σ)

def score (s : σ) : Bytes := fun _ => (R.floatText s).length

def view (v : ScoredEmbeddingView σ) : Bytes :=
  object [("row_index", number v.rowIndex), ("view_type", text v.viewType.text), ("score", score R v.score),
    ("display_text", text v.displayText), ("spans", array (v.spans.map span))]

def found (m : ScoredStructureNode σ) : Bytes :=
  object [("node", node m.node), ("score", score R m.score), ("matched_view_types", texts (m.matchedViewTypes.map (·.text))),
    ("matched_views", array (m.matchedViews.map (view R))), ("lexical_only", flag m.lexicalOnly)]

def bundle (b : ContractEvidenceBundle σ) : Bytes :=
  object [("contract", contract b.contract), ("matches", array (b.matches.map (found R))),
    ("nodes", array (b.nodes.map node)), ("linked_notice_count", number b.linkedNoticeCount),
    ("parent_expansion_count", number b.parentExpansionCount)]

/-- The fields that the page takes over count as many bytes as they say. -/
def coverage (c : SearchCoverage Nat) : Bytes := fun depth =>
  c.request + object [("exhaustive_running", flag c.exhaustiveRunning),
    ("lexical_additional_evidence_count", number c.lexicalAdditionalEvidenceCount),
    ("response_node_count", number c.responseNodeCount), ("response_character_count", number c.responseCharacterCount),
    ("response_truncated", flag c.responseTruncated), ("full_contract_fallback_count", number c.fullContractFallbackCount)] depth

def compact (d : CompactSearchDiagnostics) : Bytes :=
  object [("response_bytes", number d.responseBytes), ("ranked_candidate_contracts", number d.rankedCandidateContracts),
    ("candidate_clause_bundles", number d.candidateClauseGroups), ("returned_clause_groups", number d.returnedClauseGroups),
    ("omitted_clause_bundles", number d.omittedClauseGroups), ("omitted_contracts", number d.omittedContracts),
    ("omission_reasons", texts (d.omissionReasons.map reason)), ("omitted_group_sample", texts d.omittedGroupSample),
    ("omitted_group_sample_complete", flag d.omittedGroupSampleComplete)]

def page (p : ContractSearchPage Nat σ) : Bytes :=
  object [("generation_id", text p.generationId), ("bundles", array (p.bundles.map (bundle R))),
    ("coverage", coverage p.coverage), ("compact", nullable compact p.compact)]

/-- The count stands in the page once. -/
def encoding : Encoding Nat σ where
  encodedResponseBytes p := page R p 0
  encoded p d := by
    refine ⟨page R { p with compact := some { d with responseBytes := 0 } } 0 - 1, fun n => ?_⟩
    have hzero : (Json.decimal 0).length = 1 := rfl
    simp only [page, compact, nullable, object, number, List.foldr, hzero]
    omega

end

end PageJson

/-! ### A page of two contracts

Contract `r` has two short clauses and a longer one, and contract `q` has a short one. What the page takes over
leaves no room for the longer clause beside the short ones. -/

def plainRuntime : Runtime Nat where
  hash := ⟨id, List.Perm.refl⟩
  float :=
    { isFinite := fun _ => true
      lt := fun a b => decide (a < b)
      isClose := fun a b => decide (a = b)
      fsum := fun xs => xs.foldr (fun a b => a + b) 0
      divBy := fun a n => a / n
      half := fun a => a / 2 }
  floatText := Json.decimal

/-- A clause on a page of its own, which its view shows. -/
structure Clause where
  revisionId : Str
  nodeId : Str
  page : Nat
  text : Str

def clauses : List Clause :=
  [⟨"r".toList, "p1".toList, 1, "fee".toList⟩, ⟨"r".toList, "p2".toList, 2, "rate".toList⟩,
    ⟨"r".toList, "p3".toList, 3, List.replicate 100 (Char.ofNat 0x1f600)⟩, ⟨"q".toList, "p4".toList, 4, "fee".toList⟩]

def clauseTables : Tables where
  nodes := clauses.map fun c => ⟨c.revisionId, c.nodeId, none, .paragraph, .benefit, none, c.page, c.text, [], [], none⟩
  spans := clauses.map fun c => ⟨c.revisionId, c.nodeId, c.page, 0, c.text.length, List.replicate 64 '0', 0⟩
  pages := clauses.map fun c => (c.revisionId, c.page, c.text)
  links := []
  views := clauses.map fun c => ⟨c.page, c.revisionId, c.nodeId, .rawItem, c.text⟩
  viewSpans := clauses.map fun c => ⟨c.page, c.revisionId, c.page, 0, c.text.length, List.replicate 64 '0', 0⟩

def clauseScores : NodeScores Nat :=
  clauses.map fun c => ((c.revisionId, c.nodeId), ⟨9 - c.page, [.rawItem], [⟨c.page, .rawItem, 9 - c.page⟩]⟩)

def clauseSummary (revisionId : Str) : ContractRevisionSummary :=
  ⟨"l".toList, revisionId, "d".toList, "i".toList, "p".toList, "x".toList, "t".toList, "s".toList, "v".toList, "u".toList,
    none, .current, none, [], 4⟩

def Clause.span (c : Clause) : SourceSpan := ⟨c.nodeId, c.page, 0, c.text.length, List.replicate 64 '0', 0, c.text⟩

def Clause.node (c : Clause) : ContextNode :=
  ⟨c.nodeId, c.revisionId, none, .paragraph, .benefit, none, c.page, c.text, [c.span], [], [], [], none⟩

/-- The clause as a group. -/
def Clause.bundle (c : Clause) : ContractEvidenceBundle Nat where
  contract := clauseSummary c.revisionId
  «matches» := [⟨c.node, 9 - c.page, [.rawItem], [⟨c.page, .rawItem, 9 - c.page, c.text, [c.span]⟩], false⟩]
  nodes := [c.node]
  linkedNoticeCount := 0
  parentExpansionCount := 0

deriving instance DecidableEq for ScoredEmbeddingView, ScoredStructureNode, ContractEvidenceBundle

def clauseGroups : List (ContractEvidenceBundle Nat) := clauses.map (·.bundle)

def clausePage : ContractSearchPage Nat Nat := ⟨"g".toList, [], ⟨55000, false, 0, 0, 0, false, 0⟩, none⟩

def sealedClauses : Except Raised (ContractSearchPage Nat Nat) :=
  sealCompactPage (PageJson.encoding plainRuntime) plainRuntime clausePage clauseGroups ⟨2, 0, 0⟩

theorem sealed_clauses : (sealedClauses.toOption.map fun sealed => (sealed.bundles.length,
    sealed.compact.map fun d => (d.returnedClauseGroups, d.omittedGroupSample))) = some (2, some (3, ["r/p3".toList])) := by
  decide +kernel

theorem exists_sealedClauses : ∃ sealed d, sealedClauses = .ok sealed ∧ sealed.bundles.length = 2 ∧ sealed.compact = some d ∧
    d.returnedClauseGroups = 3 ∧ d.omittedGroupSample = ["r/p3".toList] := by
  obtain ⟨sealed, hsealed, heq⟩ := Option.map_eq_some_iff.1 sealed_clauses
  obtain ⟨hbundles, heq⟩ := Prod.mk.inj heq
  obtain ⟨d, hd, heq⟩ := Option.map_eq_some_iff.1 heq
  obtain ⟨hreturned, hsample⟩ := Prod.mk.inj heq
  cases h : sealedClauses with
  | error e =>
    rw [h] at hsealed
    cases hsealed
  | ok found =>
    rw [h] at hsealed
    obtain rfl : found = sealed := Option.some.inj hsealed
    exact ⟨found, d, rfl, hbundles, hd, hreturned, hsample⟩

theorem sealed_bytes_plain : ∃ sealed, (PageJson.encoding plainRuntime).encodedResponseBytes sealed ≤ 65536 ∧
    ∃ d, sealed.compact = some d ∧ d.responseBytes = (PageJson.encoding plainRuntime).encodedResponseBytes sealed := by
  obtain ⟨sealed, -, h, -⟩ := exists_sealedClauses
  exact ⟨sealed, sealed_bytes h⟩

end CardRag.Search
