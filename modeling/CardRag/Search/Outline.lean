import CardRag.Search.Bundles

/-! # Dense matches

What a bundle says about the dense hits of its contract: the nodes, their scores and the views that
gave them. Whatever else was hit adds nodes to the graph of the bundle, but the dense matches stay the
same (`outline_bundle`). -/

namespace CardRag.Search

/-! ### The expansion keeps what is selected -/

section
variable {hash : SetOrder} {rows : List (Str × NodeRow)}

theorem subset_addTo (s : List Str) (x : Str) : s ⊆ addTo s x := by
  unfold addTo
  split
  · exact fun _ h => h
  · exact List.subset_append_left _ _

theorem subset_foldl {α : Type} {f : List Str → α → List Str} (h : ∀ s x, s ⊆ f s x) (xs : List α) (s : List Str) :
    s ⊆ xs.foldl f s := by
  induction xs generalizing s with
  | nil => exact fun _ h => h
  | cons x xs ih => exact fun _ hy => ih _ (h s x hy)

theorem subset_addDescendants (n : Nat) (s : List Str) (nodeId : Str) : s ⊆ addDescendants hash rows n s nodeId := by
  induction n generalizing s nodeId with
  | zero => exact fun _ h => h
  | succ n ih =>
    rw [addDescendants]
    refine subset_foldl (fun s child => ?_) _ s
    split
    · exact fun _ h => h
    · exact fun _ h => ih _ child (List.mem_append_left _ h)

theorem subset_addItemContext (s : List Str) (nodeId : Str) : s ⊆ addItemContext hash rows s nodeId := by
  unfold addItemContext
  dsimp only
  split
  · exact subset_foldl subset_addTo _ s
  · exact fun _ h => subset_addDescendants _ _ _ (subset_foldl subset_addTo _ s h)

theorem subset_addAppliesSourceContext (s : List Str) (nodeId : Str) :
    s ⊆ addAppliesSourceContext hash rows s nodeId := by
  unfold addAppliesSourceContext
  dsimp only
  split
  · exact subset_addItemContext s nodeId
  · exact fun _ h => subset_addDescendants _ _ _ (subset_addItemContext s nodeId h)

theorem subset_expandLinks {expand : List Str → StructureNodeLink → List Str} (h : ∀ s l, s ⊆ expand s l)
    (types : List LinkType) (base : List Str) (links : List StructureNodeLink) (s : List Str) :
    s ⊆ expandLinks types base expand links s := by
  refine subset_foldl (fun s l => ?_) links s
  split
  · exact h s l
  · exact fun _ h => h

theorem initialIds_subset (links : List StructureNodeLink) (initial : List Str) (full : Bool) :
    initialIds rows initial full ⊆ selectedIds hash rows links initial full := by
  unfold selectedIds
  dsimp only
  split
  · exact fun _ h => h
  · intro x hx
    refine subset_expandLinks (fun s l => ?_) _ _ _ _ (subset_expandLinks (fun s l => ?_) _ _ _ _
      (subset_expandLinks (fun s l => ?_) _ _ _ _ (subset_foldl subset_addItemContext _ _ hx)))
    · exact fun _ h => subset_addItemContext _ _ (subset_addItemContext _ _ h)
    · exact fun _ h => subset_addItemContext _ _ (subset_addItemContext _ _ h)
    · exact fun _ h => subset_addItemContext _ _ (subset_addAppliesSourceContext _ _ h)

/-- A node of the revision that was hit is selected. -/
theorem mem_selectedIds {links : List StructureNodeLink} {initial : List Str} {full : Bool} {nodeId : Str}
    (h : nodeId ∈ initial) (hrow : nodeId ∈ rows.map (·.1)) :
    nodeId ∈ selectedIds hash rows links initial full := by
  apply initialIds_subset
  unfold initialIds
  split
  · exact hrow
  · rw [mem_foldl_addTo, List.mem_filter]
    exact .inr ⟨h, by simpa using hrow⟩

end

/-! ### The nodes of a graph -/

/-- A node without the links the graph shows at it. -/
def ContextNode.bare (n : ContextNode) : ContextNode := { n with links := [] }

theorem ContextNode.checked_eq {n m : ContextNode} (h : n.checked = .ok m) : m = n := by
  unfold ContextNode.checked at h
  simp only [Guard.bind_eq_ok, raiseIf_eq_ok, Guard.exists_unit] at h
  obtain ⟨-, h⟩ := h
  split at h <;> simp only [Guard.bind_eq_ok, raiseIf_eq_ok, Guard.exists_unit, Guard.pure_eq_ok] at h
  all_goals exact h.2.symm

/-- The node rows of a revision, each under its own id. -/
theorem get?_nodeRows {db : Tables} {revisionId nodeId : Str} {row : NodeRow}
    (h : PyList.get? (db.nodeRows revisionId) nodeId = some row) :
    row.nodeId = nodeId ∧ row ∈ PyList.values (db.nodeRows revisionId) :=
  ⟨(PyList.get?_dictOf_some h).2, List.mem_map_of_mem (PyList.mem_of_get? h)⟩

theorem nodeIds_nodeRows (db : Tables) (revisionId : Str) :
    (PyList.values (db.nodeRows revisionId)).map (·.nodeId) = (db.nodeRows revisionId).map (·.1) := by
  rw [PyList.values, List.map_map]
  exact List.map_congr_left fun e he => PyList.key_of_mem_dictOf he

/-- What a graph shows of a node that was hit: the row of the node, whatever else was hit. -/
theorem expandedGraph_node {hash : SetOrder} {db : Tables} {revisionId : Str} {initial : List Str} {full : Bool}
    {graph : ExpandedGraph} (h : expandedGraph hash db revisionId initial full = .ok graph) :
    ∃ spans, db.spansByNode revisionId = .ok spans ∧ ∀ nodeId ∈ initial,
      (PyList.get? (PyList.dictOf (·.nodeId) graph.nodes) nodeId).map (·.bare) =
        (PyList.get? (db.nodeRows revisionId) nodeId).map fun row => row.toContextNode spans [] := by
  unfold expandedGraph at h
  simp only [Guard.bind_eq_ok, Guard.pure_eq_ok] at h
  obtain ⟨spans, hspans, nodes, hnodes, rfl⟩ := h
  refine ⟨spans, hspans, fun nodeId hinit => ?_⟩
  generalize hsel : selectedIds hash (db.nodeRows revisionId) (db.nodeLinks revisionId) initial full = selected at hnodes
  generalize hlinks : (db.nodeLinks revisionId).filter
    (fun l => decide (l.fromNodeId ∈ selected ∧ l.toNodeId ∈ selected)) = links at hnodes
  generalize hrows : (PyList.sortedBy (fun row : NodeRow => toLex (row.ordinal, row.nodeId))
    (PyList.values (db.nodeRows revisionId))).filter (·.nodeId ∈ selected) = shown at hnodes
  have hmap : nodes = shown.map fun row => row.toContextNode spans links := by
    have hall := Guard.mapM_eq_ok.1 hnodes
    clear hrows hnodes
    induction hall with
    | nil => rfl
    | cons hx _ ih => rw [ContextNode.checked_eq hx, ih, List.map_cons]
  have hids : nodes.map (·.nodeId) = shown.map (·.nodeId) := by
    rw [hmap, List.map_map]
    rfl
  have hshown : ∀ row, row ∈ shown ↔ row ∈ PyList.values (db.nodeRows revisionId) ∧ row.nodeId ∈ selected := by
    intro row
    rw [← hrows, List.mem_filter, PyList.mem_sortedBy, decide_eq_true_eq]
  have hnodup : (nodes.map (·.nodeId)).Nodup := by
    rw [hids, ← hrows]
    refine (List.filter_sublist.map _).nodup ?_
    refine ((PyList.sortedBy_perm _ _).map _).nodup_iff.2 ?_
    rw [nodeIds_nodeRows]
    exact PyList.nodup_keys_dictOf _ _
  cases hget : PyList.get? (db.nodeRows revisionId) nodeId with
  | none =>
    rw [Option.map_none, Option.map_eq_none_iff]
    cases hnode : PyList.get? (PyList.dictOf (·.nodeId) nodes) nodeId with
    | none => rfl
    | some node =>
      obtain ⟨hmem, rfl⟩ := PyList.get?_dictOf_some hnode
      rw [hmap, List.mem_map] at hmem
      obtain ⟨row, hrow, rfl⟩ := hmem
      have hkey : row.nodeId ∈ (db.nodeRows revisionId).map (·.1) := by
        rw [← nodeIds_nodeRows]
        exact List.mem_map_of_mem ((hshown row).1 hrow).1
      obtain ⟨row', hrow'⟩ := PyList.get?_dictOf_isSome.2 (PyList.mem_keys_dictOf.1 hkey)
      cases hget.symm.trans hrow'
  | some row =>
    obtain ⟨rfl, hvalue⟩ := get?_nodeRows hget
    have hkey : row.nodeId ∈ (db.nodeRows revisionId).map (·.1) := by
      rw [← nodeIds_nodeRows]
      exact List.mem_map_of_mem hvalue
    have hrow : row ∈ shown := (hshown row).2 ⟨hvalue, hsel ▸ mem_selectedIds hinit hkey⟩
    have hnode : row.toContextNode spans links ∈ nodes := hmap ▸ List.mem_map_of_mem hrow
    have hfound := PyList.get?_dictOf_of_mem hnodup hnode
    rw [show (row.toContextNode spans links).nodeId = row.nodeId from rfl] at hfound
    rw [hfound]
    rfl

/-! ### The dense matches of a bundle -/

section
variable {σ : Type} {R : Runtime σ}

/-- What a dense match says: the node, its score and the views that gave it. -/
def ScoredStructureNode.evidence (m : ScoredStructureNode σ) :
    ContextNode × σ × List ViewType × List (ScoredEmbeddingView σ) :=
  (m.node.bare, m.score, m.matchedViewTypes, m.matchedViews)

/-- The contract of a bundle and its dense matches. -/
def ContractEvidenceBundle.outline (b : ContractEvidenceBundle σ) :
    ContractRevisionSummary × List (ContextNode × σ × List ViewType × List (ScoredEmbeddingView σ)) :=
  (b.contract, (b.matches.filter (!·.lexicalOnly)).map (·.evidence))

theorem bundleGraph_node {db : Tables} {revisionId : Str} {initial : List Str} {full : Bool}
    {graph : ExpandedGraph × Bool} (h : bundleGraph R db revisionId initial full = .ok graph) :
    ∃ spans, db.spansByNode revisionId = .ok spans ∧ ∀ nodeId ∈ initial,
      (PyList.get? (PyList.dictOf (·.nodeId) graph.1.nodes) nodeId).map (·.bare) =
        (PyList.get? (db.nodeRows revisionId) nodeId).map fun row => row.toContextNode spans [] := by
  unfold bundleGraph at h
  simp only [Guard.bind_eq_ok] at h
  obtain ⟨first, hfirst, h⟩ := h
  split at h
  · simp only [Guard.bind_eq_ok, Guard.pure_eq_ok] at h
    obtain ⟨second, hsecond, rfl⟩ := h
    exact expandedGraph_node hsecond
  · rw [Guard.pure_eq_ok] at h
    subst h
    exact expandedGraph_node hfirst

theorem mem_scoredHits {revisionId : Str} {nodeScores : NodeScores σ} {nodes : List ContextNode} {ids : List Str}
    {hit : ContextNode × NodeScore σ} (h : hit ∈ scoredHits revisionId nodeScores nodes ids) : hit.1.nodeId ∈ ids := by
  obtain ⟨nodeId, hmem, hhit⟩ := List.mem_filterMap.1 h
  split at hhit
  · rename_i node score hget _
    cases hhit
    exact (PyList.get?_dictOf_some hget).2 ▸ hmem
  · cases hhit

theorem scoredNode_ok {db : Tables} {revisionId : Str} {lexicalHits : List Str} {hit : ContextNode × NodeScore σ}
    {m : ScoredStructureNode σ} (h : scoredNode R db revisionId lexicalHits hit = .ok m) :
    m.lexicalOnly = decide (hit.1.nodeId ∈ lexicalHits) ∧
      hit.2.views.mapM (matchedView R db revisionId hit.1.bare.nodeId) = .ok m.matchedViews ∧
      (m.node.bare, m.score, m.matchedViewTypes) = (hit.1.bare, hit.2.score, hit.2.viewTypes) := by
  unfold scoredNode ScoredStructureNode.checked at h
  simp only [Guard.bind_eq_ok, raiseIf_eq_ok, Guard.exists_unit] at h
  obtain ⟨views, hviews, -, h⟩ := h
  split at h
  · simp at h
  · rename_i hmatched
    simp only [Guard.bind_eq_ok, raiseIf_eq_ok, Guard.exists_unit, Guard.pure_eq_ok] at h
    obtain ⟨-, -, -, rfl⟩ := h
    exact ⟨rfl, hviews, rfl⟩

end

end CardRag.Search
