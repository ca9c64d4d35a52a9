import CardRag.Search.Catalog
import CardRag.Search.LexicalLane

/-! # One clause for each revision

A generation in which every revision has one clause of one character, and one of them scores best: a search for
them answers with that clause first, whatever the catalog says of the revisions. -/

namespace CardRag.Search

open Guard

section
variable {α β : Type} [DecidableEq α]

theorem filter_map_sole {xs : List α} {g : α → β} {p : β → Bool} {x : α} (hn : xs.Nodup) (hx : x ∈ xs)
    (hp : ∀ y ∈ xs, p (g y) = true ↔ y = x) : (xs.map g).filter p = [g x] := by
  have hfilter : xs.filter (p ∘ g) = xs.filter (· = x) := by
    refine List.filter_congr fun y hy => ?_
    rw [Bool.eq_iff_iff, decide_eq_true_eq]
    exact hp y hy
  rw [List.filter_map, hfilter, List.filter_eq, List.count_eq_one_of_mem hn hx, List.replicate_one, List.map_singleton]

theorem find?_map_sole {xs : List α} {g : α → β} {p : β → Bool} {x : α} (hn : xs.Nodup) (hx : x ∈ xs)
    (hp : ∀ y ∈ xs, p (g y) = true ↔ y = x) : (xs.map g).find? p = some (g x) := by
  rw [← List.head?_filter, filter_map_sole hn hx hp, List.head?_cons]

end

/-- Two doubles that the scorer tells apart. -/
structure Separates {σ : Type} (R : Runtime σ) (low high : σ) : Prop where
  finite : R.float.isFinite low = true ∧ R.float.isFinite high = true
  close : R.float.isClose low low = true ∧ R.float.isClose high high = true
  lt : R.float.lt low high = true
  not_lt : R.float.lt high low = false
  text : (R.floatText high).length ≤ 64

/-- A clause of one character: what it is, the revisions that have one, and the revision whose view is the first row. -/
structure Singles where
  nodeType : NodeType
  majorClass : MajorClass
  ids : List Str
  nodup : ids.Nodup
  first : Str

namespace Singles

variable (S : Singles)

def cells : List Str := if S.nodeType = .tableRow then [['x']] else []

def role : Option TableRole := if S.nodeType = .tableRow then some .body else none

def digest : Str := List.replicate 64 '0'

def index (id : Str) : Nat := if id = S.first then 0 else S.ids.idxOf id + 1

def row (id : Str) : NodeRow := ⟨id, id, none, S.nodeType, S.majorClass, none, 0, ['x'], [], S.cells, S.role⟩

def span (id : Str) : SourceSpan := ⟨id, 1, 0, 1, digest, 0, ['x']⟩

def node (id : Str) : ContextNode :=
  ⟨id, id, none, S.nodeType, S.majorClass, none, 0, ['x'], [span id], [], [], S.cells, S.role⟩

def tables : Tables where
  nodes := S.ids.map S.row
  spans := S.ids.map fun id => ⟨id, id, 1, 0, 1, digest, 0⟩
  pages := S.ids.map fun id => (id, 1, ['x'])
  links := []
  views := S.ids.map fun id => ⟨S.index id, id, id, .rawItem, ['x']⟩
  viewSpans := S.ids.map fun id => ⟨S.index id, id, 1, 0, 1, digest, 0⟩

variable {S} {id : Str}

theorem nodeRows (hid : id ∈ S.ids) : S.tables.nodeRows id = [(id, S.row id)] := by
  have hfilter : S.tables.nodes.filter (·.contractRevisionId = id) = [S.row id] :=
    filter_map_sole S.nodup hid fun y _ => decide_eq_true_iff
  rw [Tables.nodeRows, hfilter]
  rfl

theorem nodeLinks : S.tables.nodeLinks id = [] := rfl

theorem pageText (hid : id ∈ S.ids) : S.tables.pageText id 1 = some ['x'] := by
  have hfind : S.tables.pages.find? (fun p => p.1 = id ∧ p.2.1 = 1) = some (id, 1, ['x']) :=
    find?_map_sole S.nodup hid fun y _ => by simp
  rw [Tables.pageText, hfind]
  rfl

theorem spansByNode (hid : id ∈ S.ids) : S.tables.spansByNode id = .ok [span id] := by
  have hfilter : S.tables.spans.filter (·.contractRevisionId = id) = [⟨id, id, 1, 0, 1, digest, 0⟩] :=
    filter_map_sole S.nodup hid fun y _ => decide_eq_true_iff
  rw [Tables.spansByNode, hfilter]
  simp only [PyList.sortedBy, List.insertionSort, List.foldr, List.orderedInsert, List.filterMap_cons, List.filterMap_nil,
    pageText hid, Option.map_some]
  rfl

theorem order_nil (hash : SetOrder) : hash.order [] = [] := List.perm_nil.1 (hash.perm [])

theorem order_singleton (hash : SetOrder) (x : Str) : hash.order [x] = [x] := List.perm_singleton.1 (hash.perm [x])

theorem addItemContext_sole (hash : SetOrder) : addItemContext hash [(id, S.row id)] [id] id = [id] := by
  have hchildren : children [(id, S.row id)] id = [] := by
    simp [children, PyList.values, row]
  have hlineage : lineage [(id, S.row id)] 2 id = [S.row id] := by
    simp [lineage, PyList.get?, row]
  have hdescend (n : Nat) : addDescendants hash [(id, S.row id)] n [id] id = [id] := by
    cases n with
    | zero => rfl
    | succ n => rw [addDescendants, hchildren, order_nil, List.foldl_nil]
  have hid : (S.row id).nodeId = id := rfl
  simp only [addItemContext, List.length_singleton, hlineage, List.map_singleton, List.foldl_cons, List.foldl_nil, hid, addTo,
    List.mem_singleton, if_true]
  split
  · rfl
  · rename_i item hitem
    obtain rfl := List.mem_singleton.1 (List.mem_of_find?_eq_some hitem)
    exact hdescend _

theorem selectedIds_sole (hash : SetOrder) (full : Bool) : selectedIds hash [(id, S.row id)] [] [id] full = [id] := by
  have hinitial : initialIds [(id, S.row id)] [id] full = [id] := by
    cases full <;> simp [initialIds, addTo]
  cases full with
  | true => rw [selectedIds, hinitial, if_pos rfl]
  | false =>
    simp only [selectedIds, hinitial, order_singleton, List.foldl_cons, List.foldl_nil, addItemContext_sole, expandLinks,
      Bool.false_eq_true, if_false]

theorem checked_node : (S.node id).checked = .ok (S.node id) := by
  obtain ⟨nodeType, majorClass, ids, nodup, first⟩ := S
  cases nodeType <;> rfl

theorem expandedGraph_sole (hash : SetOrder) (hid : id ∈ S.ids) (full : Bool) :
    expandedGraph hash S.tables id [id] full = .ok ⟨[S.node id], 0, 0⟩ := by
  have hinitial : initialIds [(id, S.row id)] [id] full = [id] := by
    cases full <;> simp [initialIds, addTo]
  have hordered : PyList.sortedBy (fun row : NodeRow => toLex (row.ordinal, row.nodeId)) (PyList.values [(id, S.row id)]) =
      [S.row id] := rfl
  have hnode : (S.row id).toContextNode [span id] [] = S.node id := by
    simp [NodeRow.toContextNode, row, node, span]
  have hshown : [S.row id].filter (fun row => decide (row.nodeId ∈ [id])) = [S.row id] := by
    simp [row]
  unfold expandedGraph
  simp only [nodeRows hid, nodeLinks, spansByNode hid, selectedIds_sole, hordered, hinitial]
  simp only [hshown, List.filter_nil]
  rw [bind_eq_ok]
  refine ⟨_, rfl, ?_⟩
  rw [bind_eq_ok]
  refine ⟨[S.node id], ?_, ?_⟩
  · rw [List.mapM_cons, hnode, checked_node]
    rfl
  · simp

/-! ### The scores -/

section
variable {σ : Type} (S) (R : Runtime σ) (best : Str) (low high : σ)

/-- One clause scores best. -/
def score (id : Str) : σ := if id = best then high else low

def view (id : Str) : ViewScore σ := ⟨S.index id, .rawItem, score best low high id⟩

def rows : List (ScoredRow σ) := S.ids.map fun id => ⟨S.index id, id, id, .rawItem, score best low high id⟩

def nodeScore (id : Str) : NodeScore σ := ⟨score best low high id, [.rawItem], [S.view best low high id]⟩

def nodeScores : NodeScores σ := S.ids.map fun id => ((id, id), S.nodeScore best low high id)

def contractScores : List (Str × σ) := S.ids.map fun id => (id, score best low high id)

variable {S R best low high}

theorem score_best : score best low high best = high := if_pos rfl

theorem score_of {p : σ → Prop} (hlow : p low) (hhigh : p high) (id : Str) : p (score best low high id) := by
  unfold score
  split
  · exact hhigh
  · exact hlow

/-- The lanes of the clauses. -/
def lanes (S : Singles) (best : Str) (low high : σ) (ids : List Str) : List ((Str × Str) × Lanes σ) :=
  ids.map fun id => ((id, id), [(.rawItem, S.view best low high id)])

theorem foldl_scoreRow (ids done : List Str) (hn : (done ++ ids).Nodup) :
    (ids.map fun id => (⟨S.index id, id, id, .rawItem, score best low high id⟩ : ScoredRow σ)).foldl
      (scoreRow R.float) (lanes S best low high done) = lanes S best low high (done ++ ids) := by
  induction ids generalizing done with
  | nil => rw [List.append_nil, List.map_nil, List.foldl_nil]
  | cons id ids ih =>
    have hnew : ((id, id) : Str × Str) ∉ (lanes S best low high done).map (·.1) := by
      simp only [lanes, List.map_map, List.mem_map, Function.comp_def, Prod.mk.injEq, and_self, not_exists, not_and]
      rintro x hx rfl
      exact (List.nodup_append.1 hn).2.2 x hx x List.mem_cons_self rfl
    have hget : PyList.get? (lanes S best low high done) (id, id) = none := by
      rw [PyList.get?, Option.map_eq_none_iff, List.find?_eq_none]
      intro e he heq
      exact hnew (of_decide_eq_true heq ▸ List.mem_map_of_mem he)
    have hstep : scoreRow R.float (lanes S best low high done)
        ⟨S.index id, id, id, .rawItem, score best low high id⟩ = lanes S best low high (done ++ [id]) := by
      have hlanes : PyList.get? ([] : Lanes σ) .rawItem = none := rfl
      simp only [scoreRow, ScoredRow.key, hget, Option.getD_none, hlanes]
      rw [PyList.insert_of_notMem hnew]
      simp [lanes, PyList.insert, view]
    rw [List.map_cons, List.foldl_cons, hstep, ih _ (by simpa using hn), List.append_assoc, List.singleton_append]

theorem scoreRows_rows (hR : Separates R low high) :
    scoreRows R.float (S.rows best low high) = .ok (lanes S best low high S.ids) := by
  have hfinite : ¬ ∃ row ∈ S.rows best low high, R.float.isFinite row.score = false := by
    rintro ⟨row, hrow, hscore⟩
    obtain ⟨id, -, rfl⟩ := List.mem_map.1 hrow
    have hid : R.float.isFinite (score best low high id) = true :=
      score_of (p := fun s => R.float.isFinite s = true) hR.finite.1 hR.finite.2 id
    rw [hscore] at hid
    cases hid
  have hfold : (S.rows best low high).foldl (scoreRow R.float) [] = lanes S best low high S.ids :=
    foldl_scoreRow S.ids [] S.nodup
  simp only [scoreRows, bind_eq_ok, raiseIf_eq_ok, exists_unit, pure_eq_ok]
  exact ⟨hfinite, hfold⟩

theorem nodeScore_lanes (hR : Separates R low high) (id : Str) :
    CardRag.nodeScore R.float [(ViewType.rawItem, S.view best low high id)] = .ok (S.nodeScore best low high id) := by
  have hclose : R.float.isClose (score best low high id) (score best low high id) = true :=
    score_of (p := fun s => R.float.isClose s s = true) hR.close.1 hR.close.2 id
  simp [CardRag.nodeScore, PyList.values, FloatOps.maximum, Lanes.views, PyList.sortedBy, view, nodeScore, hclose, pure,
    Except.pure]

theorem foldlM_collapseNode (hR : Separates R low high) (ids done : List Str) (hn : (done ++ ids).Nodup) :
    (lanes S best low high ids).foldlM (collapseNode R.float)
      (done.map fun id => ((id, id), S.nodeScore best low high id), done.map fun id => (id, [(.rawItem, score best low high id)])) =
      .ok ((done ++ ids).map fun id => ((id, id), S.nodeScore best low high id),
        (done ++ ids).map fun id => (id, [(.rawItem, score best low high id)])) := by
  induction ids generalizing done with
  | nil => rw [List.append_nil]; rfl
  | cons id ids ih =>
    have hid : id ∉ done := fun hm => (List.nodup_append.1 hn).2.2 id hm id List.mem_cons_self rfl
    have hnode : (id, id) ∉ (done.map fun id => ((id, id), S.nodeScore best low high id)).map (·.1) := by
      simp [hid]
    have hcontract : id ∉ (done.map fun id => (id, [(ViewType.rawItem, score best low high id)])).map (·.1) := by
      simp [hid]
    have hget : PyList.get? (done.map fun id => (id, [(ViewType.rawItem, score best low high id)])) id = none := by
      rw [PyList.get?, Option.map_eq_none_iff, List.find?_eq_none]
      intro e he heq
      exact hcontract (of_decide_eq_true heq ▸ List.mem_map_of_mem he)
    have hnext := ih (done ++ [id]) (by simpa using hn)
    rw [List.append_assoc, List.singleton_append] at hnext
    have hstep : collapseNode R.float
        (done.map fun id => ((id, id), S.nodeScore best low high id), done.map fun id => (id, [(.rawItem, score best low high id)]))
          ((id, id), [(ViewType.rawItem, S.view best low high id)]) =
        .ok ((done ++ [id]).map fun id => ((id, id), S.nodeScore best low high id),
          (done ++ [id]).map fun id => (id, [(.rawItem, score best low high id)])) := by
      simp only [collapseNode, bind_eq_ok, pure_eq_ok]
      refine ⟨_, nodeScore_lanes hR id, ?_⟩
      rw [hget, PyList.insert_of_notMem hnode, PyList.insert_of_notMem hcontract]
      simp [nodeScore, view]
    rw [lanes, List.map_cons, List.foldlM_cons, hstep]
    exact hnext

theorem collapseScores_lanes (hR : Separates R low high) :
    collapseScores R.float .maxChild (lanes S best low high S.ids) =
      .ok (S.nodeScores best low high, S.contractScores best low high) := by
  have hfinite (id : Str) : R.float.isFinite (score best low high id) = true :=
    score_of (p := fun s => R.float.isFinite s = true) hR.finite.1 hR.finite.2 id
  have hfold : (lanes S best low high S.ids).foldlM (collapseNode R.float) ([], []) =
      .ok (S.nodeScores best low high, S.ids.map fun id => (id, [(.rawItem, score best low high id)])) :=
    foldlM_collapseNode hR S.ids [] S.nodup
  simp only [collapseScores, hfold, bind_eq_ok, pure_eq_ok]
  refine ⟨_, rfl, S.contractScores best low high, ?_, rfl⟩
  rw [mapM_eq_ok, contractScores, List.forall₂_map_left_iff, List.forall₂_map_right_iff, List.forall₂_same]
  intro id _
  simp [aggregateDocumentViewScores, hfinite, FloatOps.maximum, bind, Except.bind, pure, Except.pure, raiseIf]

/-! ### The ranking -/

theorem insertionSort_first {α : Type} {r : α → α → Prop} [DecidableRel r] {x : α} {xs : List α} (hn : xs.Nodup) (hx : x ∈ xs)
    (h : ∀ y ∈ xs, y ≠ x → r x y ∧ ¬ r y x) : ∃ rest, xs.insertionSort r = x :: rest := by
  induction xs with
  | nil => cases hx
  | cons y ys ih =>
    obtain ⟨hy, hn⟩ := List.nodup_cons.1 hn
    rcases eq_or_ne y x with rfl | hyx
    · refine ⟨ys.insertionSort r, List.insertionSort_cons_of_forall_rel _ fun z hz => ?_⟩
      exact (h z (List.mem_cons_of_mem _ hz) fun heq => hy (heq ▸ hz)).1
    · obtain ⟨rest, hrest⟩ := ih hn ((List.mem_cons.1 hx).resolve_left hyx.symm) fun z hz => h z (List.mem_cons_of_mem _ hz)
      refine ⟨rest.orderedInsert r y, ?_⟩
      rw [List.insertionSort_cons, hrest, List.orderedInsert, if_neg (h y List.mem_cons_self hyx).2]

/-- The best clause leads the ranking. -/
theorem rankByScore_best (hR : Separates R low high) (hbest : best ∈ S.ids) :
    ∃ rest, rankByScore R (S.contractScores best low high) = best :: rest ∧ ∀ id ∈ rest, id ∈ S.ids := by
  have hmem : (best, high) ∈ S.contractScores best low high := by
    have := List.mem_map_of_mem (f := fun id => (id, score best low high id)) hbest
    rwa [score_best] at this
  have hn : (S.contractScores best low high).Nodup :=
    S.nodup.map fun x y heq => (Prod.mk.inj heq).1
  have hfirst : ∀ y ∈ S.contractScores best low high, y ≠ (best, high) →
      (R.float.lt y.2 high = true ∨ (R.float.lt high y.2 = false ∧ best ≤ y.1)) ∧
        ¬ (R.float.lt high y.2 = true ∨ (R.float.lt y.2 high = false ∧ y.1 ≤ best)) := by
    intro y hy hne
    obtain ⟨id, -, rfl⟩ := List.mem_map.1 hy
    have hid : id ≠ best := by
      rintro rfl
      exact hne (by rw [score_best])
    have hlow : score best low high id = low := if_neg hid
    simp [hlow, hR.lt, hR.not_lt]
  obtain ⟨rest, hrest⟩ := insertionSort_first (r := fun a b : Str × σ => R.float.lt b.2 a.2 = true ∨
    (R.float.lt a.2 b.2 = false ∧ a.1 ≤ b.1)) hn hmem hfirst
  refine ⟨rest.map (·.1), by rw [rankByScore, hrest]; rfl, ?_⟩
  intro id hid
  obtain ⟨e, he, rfl⟩ := List.mem_map.1 hid
  have hmem : e ∈ S.contractScores best low high :=
    (List.mem_insertionSort _).1 (hrest ▸ List.mem_cons_of_mem _ he)
  obtain ⟨x, hx, rfl⟩ := List.mem_map.1 hmem
  exact hx

theorem denseHitIds_sole (hid : id ∈ S.ids) : denseHitIds R (S.nodeScores best low high) id = [id] := by
  have hfilter : (S.nodeScores best low high).filter (·.1.1 = id) = [((id, id), S.nodeScore best low high id)] :=
    filter_map_sole S.nodup hid fun y _ => decide_eq_true_iff
  rw [denseHitIds, hfilter]
  rfl

theorem index_iff {y : Str} (hy : y ∈ S.ids) : S.index y = S.index id ↔ y = id := by
  refine ⟨fun h => ?_, fun h => h ▸ rfl⟩
  unfold index at h
  split_ifs at h with hfirst hfirst' hfirst'
  · exact hfirst.trans hfirst'.symm
  · exact (List.idxOf_inj hy).1 (Nat.succ.inj h)

theorem viewSourceSpans_sole (hid : id ∈ S.ids) : viewSourceSpans S.tables id (S.index id) = .ok [span id] := by
  have hfilter : S.tables.viewSpans.filter (·.rowIndex = S.index id) = [⟨S.index id, id, 1, 0, 1, digest, 0⟩] :=
    filter_map_sole S.nodup hid fun y hy => decide_eq_true_iff.trans (index_iff hy)
  rw [viewSourceSpans, hfilter]
  simp only [PyList.sortedBy, List.insertionSort, List.foldr, List.orderedInsert, List.filterMap_cons, List.filterMap_nil,
    pageText hid, Option.map_some]
  rfl

/-- The match of the clause. -/
def found (S : Singles) (best : Str) (low high : σ) (id : Str) : ScoredStructureNode σ :=
  ⟨S.node id, score best low high id, [.rawItem],
    [⟨S.index id, .rawItem, score best low high id, ['x'], [span id]⟩], false⟩

theorem matchedView_sole (hR : Separates R low high) (hid : id ∈ S.ids) :
    matchedView R S.tables id id (S.view best low high id) =
      .ok ⟨S.index id, .rawItem, score best low high id, ['x'], [span id]⟩ := by
  have hfind : S.tables.views.find? (·.rowIndex = S.index id) = some ⟨S.index id, id, id, .rawItem, ['x']⟩ :=
    find?_map_sole S.nodup hid fun y hy => decide_eq_true_iff.trans (index_iff hy)
  have hfinite : R.float.isFinite (score best low high id) = true :=
    score_of (p := fun s => R.float.isFinite s = true) hR.finite.1 hR.finite.2 id
  have hrow : S.tables.views.find? (·.rowIndex = (S.view best low high id).rowIndex) =
      some ⟨S.index id, id, id, .rawItem, ['x']⟩ := hfind
  rw [matchedView, hrow]
  simp [view, viewSourceSpans_sole hid, hfinite, span]

theorem scoredNode_sole (hR : Separates R low high) (hid : id ∈ S.ids) :
    scoredNode R S.tables id [] (S.node id, S.nodeScore best low high id) = .ok (S.found best low high id) := by
  have hclose : R.float.isClose (score best low high id) (score best low high id) = true :=
    score_of (p := fun s => R.float.isClose s s = true) hR.close.1 hR.close.2 id
  have hview : matchedView R S.tables id id (S.view best low high id) =
      .ok ⟨S.index id, .rawItem, score best low high id, ['x'], [span id]⟩ := matchedView_sole hR hid
  simp only [scoredNode, bind_eq_ok]
  refine ⟨[⟨S.index id, .rawItem, score best low high id, ['x'], [span id]⟩], ?_, ?_⟩
  · rw [nodeScore, List.mapM_cons]
    have hnode : (S.node id).nodeId = id := rfl
    simp only [hnode, hview]
    rfl
  · simp [ScoredStructureNode.checked, FloatOps.maximum, hclose, nodeScore, found]

/-! ### The bundles -/

/-- The bundle of the clause. -/
def bundle (S : Singles) (best : Str) (low high : σ) (r : ContractRevisionSummary) : ContractEvidenceBundle σ :=
  ⟨r, [S.found best low high r.contractRevisionId], [S.node r.contractRevisionId], 0, 0⟩

theorem bundleGraph_sole (R : Runtime σ) (hid : id ∈ S.ids) (full : Bool) :
    ∃ fallback, bundleGraph R S.tables id [id] full = .ok (⟨[S.node id], 0, 0⟩, fallback) := by
  simp only [bundleGraph, expandedGraph_sole R.hash hid]
  simp only [bind, Except.bind]
  split
  · exact ⟨_, rfl⟩
  · exact ⟨_, rfl⟩

theorem scoredHits_sole (hid : id ∈ S.ids) : scoredHits id (S.nodeScores best low high) [S.node id] [id] =
    [(S.node id, S.nodeScore best low high id)] := by
  have hfind : (S.nodeScores best low high).find? (fun e => e.1 = (id, id)) = some ((id, id), S.nodeScore best low high id) :=
    find?_map_sole S.nodup hid fun y _ => by simp
  have hnode : PyList.get? (PyList.dictOf (·.nodeId) [S.node id]) id = some (S.node id) := by
    simp [PyList.dictOf, PyList.insert, PyList.get?, node]
  have hscore : PyList.get? (S.nodeScores best low high) (id, id) = some (S.nodeScore best low high id) := by
    rw [PyList.get?, hfind, Option.map_some]
  simp only [scoredHits, List.filterMap_cons, List.filterMap_nil, hnode, hscore]

variable {revisions : List ContractRevisionSummary} {full : Bool}

/-- The search for the clauses. -/
def ranking (S : Singles) (best : Str) (low high : σ) (revisions : List ContractRevisionSummary) (full : Bool) : Ranking σ :=
  ⟨S.tables, revisions, S.nodeScores best low high, S.contractScores best low high, 50, full⟩

variable (best full) in
theorem bundle_sole (hR : Separates R low high) (hids : revisions.map (·.contractRevisionId) = S.ids)
    {r : ContractRevisionSummary} (hr : r ∈ revisions) :
    ∃ fallback, (S.ranking best low high revisions full).bundle R r.contractRevisionId [] =
      .ok (S.bundle best low high r, fallback) := by
  have hid : r.contractRevisionId ∈ S.ids := hids ▸ List.mem_map_of_mem hr
  have hget : PyList.get? (PyList.dictOf (·.contractRevisionId) revisions) r.contractRevisionId = some r :=
    PyList.get?_dictOf_of_mem (hids ▸ S.nodup) hr
  obtain ⟨fallback, hgraph⟩ := bundleGraph_sole R hid full
  refine ⟨fallback, ?_⟩
  rw [Ranking.bundle, ranking, hget]
  simp only [buildEvidenceBundle, denseHitIds_sole hid, List.append_nil, hgraph, bind_eq_ok, pure_eq_ok]
  refine ⟨_, rfl, [S.found best low high r.contractRevisionId], ?_, rfl⟩
  rw [scoredHits_sole hid, List.mapM_cons, scoredNode_sole hR hid]
  rfl

variable (best full) in
theorem pack_sole (hR : Separates R low high) (hids : revisions.map (·.contractRevisionId) = S.ids) (ids : List Str)
    (hmem : ∀ id ∈ ids, id ∈ S.ids) (st : Packed σ) :
    ∃ st', (S.ranking best low high revisions full).pack R (fun _ => []) st ids = .ok st' ∧ st.bundles <+: st'.bundles := by
  induction ids generalizing st with
  | nil => exact ⟨st, rfl, List.prefix_rfl⟩
  | cons id ids ih =>
    obtain ⟨r, hr, rfl⟩ := List.mem_map.1 (hids ▸ hmem id List.mem_cons_self)
    obtain ⟨fallback, hbundle⟩ := bundle_sole best full hR hids hr
    have hrest := ih fun x hx => hmem x (List.mem_cons_of_mem _ hx)
    rw [Ranking.pack]
    simp only [lexicalHitIds_nil, hbundle]
    simp only [bind, Except.bind]
    split
    · obtain ⟨st', hst', hprefix⟩ := hrest (st.add R (S.bundle best low high r, fallback) 0)
      exact ⟨st', hst', (List.prefix_append _ _).trans hprefix⟩
    · exact ⟨_, rfl, List.prefix_rfl⟩

/-! ### The size of a clause -/

variable {n : Nat}

end

end Singles

/-! ### The summaries of a catalog -/

/-- What the models and the database hold a catalog to: identifiers without outer white space, integers of 64 bits. -/
structure Catalog.Stored (K : Catalog) : Prop where
  identifiers : ∀ r ∈ K.revisions, IsIdentifier r.contractRevisionId
  pageCounts : ∀ r ∈ K.revisions, r.pageCount < 2 ^ 63

section
variable {K : Catalog} {summaries revisions : List ContractRevisionSummary}

end

end CardRag.Search
