import CardRag.Export.ExactRows
import CardRag.Search.Scorable

/-! # The score capture of a release (`exact.py`)

`capture_unscoped_current_score_stream` walks the active rows of the matrix in blocks, and beside them
an iterator over `embedding_views`, and hands every row with its score to a sink. What it hands out
for a contract is aggregated to the score that an exact search gives the contract. Scores are rational
numbers here, as doubles that are summed exactly. -/

namespace CardRag

/-- `LoadedVectorsV5`, without the matrix. -/
structure LoadedVectors where
  rowIndices : List Nat
  nodeIds : List Str
  contractRevisionIds : List Str
  viewTypes : List ViewType
  profileIds : List Str

structure ExactCapturedRow where
  rowIndex : Nat
  contractRevisionId : Str
  nodeId : Str
  viewType : ViewType
  inputSha256 : Str
  embeddingProfileId : Str
  score : ℚ
deriving DecidableEq, Repr

/-- The counts of `ExactScoreCaptureSummary`, with the rows that the sink was given. -/
structure ExactScoreCapture where
  expectedActiveContracts : Nat
  expectedRows : Nat
  scoredRows : Nat
  exactBlocks : Nat
  rows : List ExactCapturedRow
deriving DecidableEq, Repr

/-- The rows that the sink was given, and those that the iterator still has, its current row first. -/
structure CaptureState where
  rows : List ExactCapturedRow
  provenanceRows : List ExactRow

/-- `SELECT … FROM embedding_views ORDER BY row_index`. -/
def embeddingViews (table : List ExactRow) : List ExactRow := PyList.sortedBy (·.rowIndex) table

/-- The columns that `load_vectors_v5` keeps. -/
def loadVectors (table : List ExactRow) : LoadedVectors :=
  let rows := embeddingViews table
  ⟨rows.map (·.rowIndex), rows.map (·.nodeId), rows.map (·.contractRevisionId), rows.map (·.viewType),
    rows.map (·.profileId)⟩

/-- `row_indices`: the rows of the active revisions. -/
def LoadedVectors.activeRows (vectors : LoadedVectors) (activeIds : List Str) : List Nat :=
  (vectors.contractRevisionIds.zipIdx.filter (·.1 ∈ activeIds)).map (·.2)

/-- `row_indices[start : start + block_rows]` for every start; `n` bounds their number. -/
def rowBlocks (blockRows : Nat) : Nat → List Nat → List (List Nat)
  | 0, _ => []
  | n + 1, rowIndices =>
    if rowIndices = [] then []
    else rowIndices.take blockRows :: rowBlocks blockRows n (rowIndices.drop blockRows)

section
variable (vectors : LoadedVectors) (score : Nat → ℚ)

/-- One row of a block. -/
def captureRow (state : CaptureState) (rowIndex : Nat) : Except Raised CaptureState :=
  match state.provenanceRows.dropWhile (·.rowIndex < rowIndex) with
  | [] => throw ⟨.runtimeError, "v5 score capture row provenance is incomplete"⟩
  | current :: provenanceRows => do
    raiseIf (current.rowIndex ≠ rowIndex) ⟨.runtimeError, "v5 score capture row provenance is incomplete"⟩
    raiseIf (vectors.rowIndices[rowIndex]? ≠ some rowIndex ∨
        vectors.contractRevisionIds[rowIndex]? ≠ some current.contractRevisionId ∨
        vectors.nodeIds[rowIndex]? ≠ some current.nodeId ∨
        vectors.viewTypes[rowIndex]? ≠ some current.viewType ∨
        vectors.profileIds[rowIndex]? ≠ some current.profileId)
      ⟨.runtimeError, "v5 score capture row provenance differs"⟩
    raiseIf (¬ (-1 ≤ score rowIndex ∧ score rowIndex ≤ 1))
      ⟨.runtimeError, "v5 exact scoring produced an out-of-range score"⟩
    pure ⟨state.rows ++ [⟨rowIndex, current.contractRevisionId, current.nodeId, current.viewType,
      current.inputSha256, current.profileId, score rowIndex⟩], provenanceRows⟩

/-- One block of rows. -/
def captureBlock (state : CaptureState) (selected : List Nat) : Except Raised CaptureState := do
  raiseIf (∃ i ∈ selected, FloatOps.exact.isFinite (score i) = false)
    ⟨.runtimeError, "v5 exact scoring produced an invalid float32 score"⟩
  selected.foldlM (captureRow vectors score) state

/-- `capture_unscoped_current_score_stream(query, handle, score_sink=…, block_rows=…)`, where the score
of a row is its product with the query. Rows that the sink got before an error are not kept. -/
def captureStream (table : List ExactRow) (activeIds : List Str) (blockRows : Nat) :
    Except Raised ExactScoreCapture := do
  raiseIf (¬ (1 ≤ blockRows ∧ blockRows ≤ 4096))
    (valueError "score capture block_rows must be an integer from 1 through 4096")
  let rowIndices := vectors.activeRows activeIds
  let blocks := rowBlocks blockRows rowIndices.length rowIndices
  let state ← blocks.foldlM (captureBlock vectors score) ⟨[], embeddingViews table⟩
  raiseIf (state.rows.length ≠ rowIndices.length)
    ⟨.runtimeError, "v5 score capture did not stream every active row"⟩
  pure ⟨activeIds.length, rowIndices.length, state.rows.length, blocks.length, state.rows⟩

/-- The rows that `_score_rows` reads, with their products. -/
def LoadedVectors.scoredRows (activeIds : List Str) : List (ScoredRow ℚ) :=
  (vectors.activeRows activeIds).map fun index =>
    ⟨index, vectors.contractRevisionIds.getD index [], vectors.nodeIds.getD index [],
      vectors.viewTypes.getD index .contract, score index⟩

/-- `_score_rows` and `_collapse_scores`, as an exact search runs them. -/
def exactContractScores (activeIds : List Str) (policy : DocumentAggregationPolicy) :
    Except Raised (List (Str × ℚ)) := do
  let scoresByNode ← scoreRows .exact (vectors.scoredRows score activeIds)
  let collapsed ← collapseScores .exact policy scoresByNode
  pure collapsed.2

end

/-- What the capture gives out for a row. -/
def ExactRow.captured (row : ExactRow) (score : Nat → ℚ) : ExactCapturedRow :=
  ⟨row.rowIndex, row.contractRevisionId, row.nodeId, row.viewType, row.inputSha256, row.profileId, score row.rowIndex⟩

/-- The captured rows of a contract, as the aggregation takes them. -/
def viewScoresOf (rows : List ExactCapturedRow) (contractRevisionId : Str) : List (ViewType × ℚ) :=
  (rows.filter (·.contractRevisionId = contractRevisionId)).map fun row => (row.viewType, row.score)

/-! ### The rows of a generation -/

section
variable {table rows : List ExactRow} {score : Nat → ℚ} {activeIds : List Str}

theorem flatten_rowBlocks {blockRows n : Nat} (hb : 1 ≤ blockRows) {rowIndices : List Nat}
    (hn : rowIndices.length ≤ n) : (rowBlocks blockRows n rowIndices).flatten = rowIndices := by
  induction n generalizing rowIndices with
  | zero => exact (List.eq_nil_of_length_eq_zero (Nat.le_zero.1 hn)).symm
  | succ n ih =>
    rw [rowBlocks]
    split
    · rename_i h
      rw [h]
      rfl
    · rename_i h
      have hpos := List.length_pos_of_ne_nil h
      rw [List.flatten_cons, ih (by rw [List.length_drop]; omega), List.take_append_drop]

/-- Row indices count from zero. -/
def Contiguous (rows : List ExactRow) : Prop := rows.map (·.rowIndex) = List.range rows.length

theorem Contiguous.getElem? (h : Contiguous rows) {row : ExactRow} (hrow : row ∈ rows) :
    rows[row.rowIndex]? = some row := by
  obtain ⟨i, hi, rfl⟩ := List.mem_iff_getElem.1 hrow
  have hindex : rows[i].rowIndex = i := by
    have := congrArg (·[i]?) h
    simpa [hi] using this
  rw [hindex]
  exact List.getElem?_eq_getElem hi

theorem Contiguous.zipIdx (h : Contiguous rows) : rows.zipIdx = rows.map fun row => (row, row.rowIndex) := by
  refine List.ext_getElem (by simp) fun i hi _ => ?_
  have hi : i < rows.length := by simpa using hi
  have hindex := congrArg (·[i]?) h
  simp only [List.getElem?_map, List.getElem?_eq_getElem hi, Option.map_some, List.getElem?_range hi] at hindex
  simpa using (Option.some.inj hindex).symm

theorem Contiguous.pairwise (h : Contiguous rows) : rows.Pairwise (·.rowIndex < ·.rowIndex) := by
  rw [← List.pairwise_map (f := ExactRow.rowIndex), h]
  exact List.pairwise_lt_range

theorem activeRows_eq (h : Contiguous (embeddingViews table)) : (loadVectors table).activeRows activeIds =
    ((embeddingViews table).filter (·.contractRevisionId ∈ activeIds)).map (·.rowIndex) := by
  rw [LoadedVectors.activeRows, loadVectors, List.zipIdx_map, h.zipIdx, List.map_map, List.filter_map, List.map_map]
  rfl

/-! ### The capture -/

theorem captureRow_ok {row : ExactRow} (h : Contiguous (embeddingViews table)) (hrow : row ∈ embeddingViews table)
    (hscore : -1 ≤ score row.rowIndex ∧ score row.rowIndex ≤ 1) {state : CaptureState} {rest : List ExactRow}
    (hrest : state.provenanceRows.dropWhile (·.rowIndex < row.rowIndex) = row :: rest) :
    captureRow (loadVectors table) score state row.rowIndex = .ok ⟨state.rows ++ [row.captured score], rest⟩ := by
  have hget := h.getElem? hrow
  rw [captureRow, hrest]
  simp only [Guard.bind_eq_ok, raiseIf_eq_ok, Guard.exists_unit, Guard.pure_eq_ok]
  refine ⟨by simp, ?_, by simpa using hscore, rfl⟩
  simp [loadVectors, hget]

/-- The walk along the active rows, with the rows before them that the iterator still has. -/
theorem captureRows_ok (activeIds : List Str) (h : Contiguous (embeddingViews table))
    (hscore : ∀ row ∈ embeddingViews table, -1 ≤ score row.rowIndex ∧ score row.rowIndex ≤ 1)
    (skipped : List ExactRow) (hsub : ∀ row ∈ rows, row ∈ embeddingViews table)
    (hsorted : (skipped ++ rows).Pairwise (·.rowIndex < ·.rowIndex)) (got : List ExactCapturedRow) :
    ∃ rest, ((rows.filter (·.contractRevisionId ∈ activeIds)).map (·.rowIndex)).foldlM
      (captureRow (loadVectors table) score) ⟨got, skipped ++ rows⟩ =
        .ok ⟨got ++ (rows.filter (·.contractRevisionId ∈ activeIds)).map (·.captured score), rest⟩ := by
  induction rows generalizing skipped got with
  | nil => exact ⟨skipped ++ [], by simp [pure, Except.pure]⟩
  | cons row rows ih =>
    obtain ⟨hrow, hsub⟩ := List.forall_mem_cons.1 hsub
    by_cases hactive : row.contractRevisionId ∈ activeIds
    · have hskip : (skipped ++ row :: rows).dropWhile (·.rowIndex < row.rowIndex) = row :: rows := by
        rw [List.dropWhile_append_of_pos]
        · simp
        · intro r hr
          have := (List.pairwise_append.1 hsorted).2.2 r hr row List.mem_cons_self
          simpa using this
      obtain ⟨rest, hrest⟩ := ih [] hsub (List.pairwise_cons.1 (List.pairwise_append.1 hsorted).2.1).2
        (got ++ [row.captured score])
      refine ⟨rest, ?_⟩
      rw [List.filter_cons_of_pos (by simpa using hactive), List.map_cons, List.foldlM_cons,
        captureRow_ok h hrow (hscore row hrow) hskip, List.map_cons]
      simpa using hrest
    · obtain ⟨rest, hrest⟩ := ih (skipped ++ [row]) hsub (by simpa using hsorted) got
      refine ⟨rest, ?_⟩
      rw [List.filter_cons_of_neg (by simpa using hactive)]
      simpa using hrest

theorem captureBlocks_eq (vectors : LoadedVectors) (blocks : List (List Nat)) (state : CaptureState) :
    blocks.foldlM (captureBlock vectors score) state = blocks.flatten.foldlM (captureRow vectors score) state := by
  induction blocks generalizing state with
  | nil => rfl
  | cons block blocks ih =>
    have hblock : captureBlock vectors score state block = block.foldlM (captureRow vectors score) state := by
      have hfinite : ¬ ∃ i ∈ block, FloatOps.exact.isFinite (score i) = false := by simp [FloatOps.exact]
      rw [captureBlock, raiseIf, if_neg hfinite]
      rfl
    rw [List.foldlM_cons, List.flatten_cons, List.foldlM_append, hblock]
    congr 1
    exact funext ih

/-- What the capture hands out. -/
def activeCaptured (table : List ExactRow) (score : Nat → ℚ) (activeIds : List Str) : List ExactCapturedRow :=
  ((embeddingViews table).filter (·.contractRevisionId ∈ activeIds)).map (·.captured score)

/-- Every active row is handed out once, in the order of the rows, with its own columns and score. -/
theorem captureStream_ok (h : Contiguous (embeddingViews table))
    (hscore : ∀ row ∈ embeddingViews table, -1 ≤ score row.rowIndex ∧ score row.rowIndex ≤ 1)
    {blockRows : Nat} (hb : 1 ≤ blockRows ∧ blockRows ≤ 4096) :
    ∃ exactBlocks, captureStream (loadVectors table) score table activeIds blockRows =
      .ok ⟨activeIds.length, (activeCaptured table score activeIds).length, (activeCaptured table score activeIds).length,
        exactBlocks, activeCaptured table score activeIds⟩ := by
  obtain ⟨rest, hrest⟩ := captureRows_ok activeIds h hscore [] (fun _ h => h) h.pairwise []
  rw [← activeRows_eq h, List.nil_append, List.nil_append] at hrest
  have hlength : (activeCaptured table score activeIds).length = ((loadVectors table).activeRows activeIds).length := by
    rw [activeRows_eq h, activeCaptured, List.length_map, List.length_map]
  refine ⟨(rowBlocks blockRows ((loadVectors table).activeRows activeIds).length
    ((loadVectors table).activeRows activeIds)).length, ?_⟩
  simp only [captureStream, Guard.bind_eq_ok, raiseIf_eq_ok, Guard.exists_unit, Guard.pure_eq_ok]
  refine ⟨not_not.2 hb, ⟨activeCaptured table score activeIds, rest⟩, ?_, not_not.2 hlength, ?_⟩
  · rw [captureBlocks_eq, flatten_rowBlocks hb.1 le_rfl]
    exact hrest
  · rw [hlength]

theorem scoredRows_eq (h : Contiguous (embeddingViews table)) : (loadVectors table).scoredRows score activeIds =
    ((embeddingViews table).filter (·.contractRevisionId ∈ activeIds)).map fun row =>
      ⟨row.rowIndex, row.contractRevisionId, row.nodeId, row.viewType, score row.rowIndex⟩ := by
  rw [LoadedVectors.scoredRows, activeRows_eq h, List.map_map]
  refine List.map_congr_left fun row hrow => ?_
  simp [loadVectors, List.getD_eq_getElem?_getD, h.getElem? (List.mem_filter.1 hrow).1]

end

/-! ### The aggregation -/

section
variable {rows : List (ScoredRow ℚ)}

theorem maximum_mem (first : ℚ) (rest : List ℚ) : FloatOps.exact.maximum first rest ∈ first :: rest := by
  induction rest using List.reverseRecOn with
  | nil => exact List.mem_cons_self
  | append_singleton rest x ih =>
    rw [FloatOps.maximum, List.foldl_append, List.foldl_cons, List.foldl_nil]
    split
    · simp
    · rcases List.mem_cons.1 ih with h | h
      · exact List.mem_cons.2 (.inl h)
      · exact List.mem_cons.2 (.inr (List.mem_append_left _ h))

theorem le_maximum {first : ℚ} {rest : List ℚ} : ∀ x ∈ first :: rest, x ≤ FloatOps.exact.maximum first rest := by
  induction rest using List.reverseRecOn with
  | nil => exact fun x hx => (List.mem_singleton.1 hx).le
  | append_singleton rest y ih =>
    rw [FloatOps.maximum, List.foldl_append, List.foldl_cons, List.foldl_nil]
    intro x hx
    have hx : x ∈ first :: rest ∨ x = y := by
      rw [← List.cons_append, List.mem_append, List.mem_singleton] at hx
      exact hx
    split
    · rename_i hlt
      have hlt : FloatOps.exact.maximum first rest < y := of_decide_eq_true hlt
      rcases hx with hx | rfl
      · exact (ih x hx).trans hlt.le
      · exact le_rfl
    · rename_i hlt
      have hlt : ¬ FloatOps.exact.maximum first rest < y := fun h => hlt (decide_eq_true h)
      rcases hx with hx | rfl
      · exact ih x hx
      · exact not_lt.1 hlt

theorem maximum_perm {first first' : ℚ} {rest rest' : List ℚ} (h : (first :: rest).Perm (first' :: rest')) :
    FloatOps.exact.maximum first rest = FloatOps.exact.maximum first' rest' :=
  le_antisymm (le_maximum _ (h.mem_iff.1 (maximum_mem first rest)))
    (le_maximum _ (h.mem_iff.2 (maximum_mem first' rest')))

theorem highest_perm {xs ys : List ℚ} (h : xs.Perm ys) :
    xs.mergeSort (fun x y => !FloatOps.exact.lt x y) = ys.mergeSort (fun x y => !FloatOps.exact.lt x y) := by
  have hle : ∀ x y, (!FloatOps.exact.lt x y) = true ↔ y ≤ x := fun x y => by simp [FloatOps.exact]
  have hsorted : ∀ zs : List ℚ, (zs.mergeSort fun x y => !FloatOps.exact.lt x y).Pairwise fun x y => y ≤ x := by
    intro zs
    refine (List.pairwise_mergeSort (fun x y z hx hy => ?_) (fun x y => ?_) zs).imp fun h => (hle _ _).1 h
    · rw [hle] at hx hy ⊢
      exact hy.trans hx
    · rw [Bool.or_eq_true, hle, hle]
      exact le_total y x
  refine List.Perm.eq_of_pairwise (fun x y _ _ hx hy => le_antisymm hy hx) (hsorted xs) (hsorted ys) ?_
  exact (List.mergeSort_perm xs _).trans (h.trans (List.mergeSort_perm ys _).symm)

/-- The order of the scores of a contract does not matter. -/
theorem aggregate_perm {xs ys : List (ViewType × ℚ)} (h : xs.Perm ys) (policy : DocumentAggregationPolicy) :
    aggregateDocumentViewScores .exact xs policy = aggregateDocumentViewScores .exact ys policy := by
  have hchild := (h.filter (·.1 ≠ .contract)).map (·.2)
  have hcontract := (h.filter (·.1 = .contract)).map (·.2)
  have hguard : (xs.isEmpty = true ∨ ∃ s ∈ xs, FloatOps.exact.isFinite s.2 = false) ↔
      (ys.isEmpty = true ∨ ∃ s ∈ ys, FloatOps.exact.isFinite s.2 = false) := by
    simp only [List.isEmpty_iff, h.mem_iff]
    rw [← List.length_eq_zero_iff, h.length_eq, List.length_eq_zero_iff]
  unfold aggregateDocumentViewScores
  simp only [raiseIf, hguard]
  congr 1
  funext _
  generalize (xs.filter (·.1 ≠ .contract)).map (·.2) = c at hchild
  generalize (ys.filter (·.1 ≠ .contract)).map (·.2) = d at hchild
  generalize (xs.filter (·.1 = .contract)).map (·.2) = c' at hcontract
  generalize (ys.filter (·.1 = .contract)).map (·.2) = d' at hcontract
  cases c with
  | nil =>
    obtain rfl := hchild.nil_eq
    rfl
  | cons first rest =>
    cases d with
    | nil => exact absurd hchild.eq_nil (List.cons_ne_nil _ _)
    | cons first' rest' =>
      dsimp only
      rw [maximum_perm hchild, highest_perm hchild]
      cases policy with
      | maxChild => rfl
      | top3Mean => rfl
      | contractPlusChild =>
        cases c' with
        | nil => rw [← hcontract.nil_eq]
        | cons x c' =>
          cases c' with
          | nil => rw [← List.perm_singleton.1 hcontract.symm]
          | cons y zs =>
            cases d' with
            | nil => exact absurd hcontract.eq_nil (List.cons_ne_nil _ _)
            | cons w d' =>
              cases d' with
              | nil => exact absurd hcontract.length_eq (by simp)
              | cons v us => rfl

theorem nodup_lanes (F : FloatOps ℚ) (rows : List (ScoredRow ℚ)) : ((rows.foldl (scoreRow F) []).map (·.1)).Nodup ∧
    ∀ e ∈ rows.foldl (scoreRow F) [], (e.2.map (·.1)).Nodup := by
  induction rows using List.reverseRecOn with
  | nil => exact ⟨List.nodup_nil, nofun⟩
  | append_singleton rows row ih =>
    rw [List.foldl_append, List.foldl_cons, List.foldl_nil]
    generalize rows.foldl (scoreRow F) [] = d at ih
    have hreplaced : ((PyList.insert row.key (PyList.insert row.viewType ⟨row.rowIndex, row.viewType, row.score⟩
        ((PyList.get? d row.key).getD [])) d).map (·.1)).Nodup ∧ ∀ e ∈ PyList.insert row.key (PyList.insert row.viewType
          ⟨row.rowIndex, row.viewType, row.score⟩ ((PyList.get? d row.key).getD [])) d, (e.2.map (·.1)).Nodup := by
      refine ⟨PyList.nodup_keys_insert ih.1, fun e he => ?_⟩
      rcases PyList.mem_insert he with rfl | he
      · refine PyList.nodup_keys_insert ?_
        cases hget : PyList.get? d row.key with
        | none => exact List.nodup_nil
        | some lanes => exact ih.2 _ (PyList.mem_of_get? hget)
      · exact ih.2 e he
    unfold scoreRow
    dsimp only
    split
    · exact hreplaced
    · split
      · exact hreplaced
      · exact ih

/-- Rows that differ in contract, node or view type are collapsed without loss. -/
theorem collapsed_perm (hn : (rows.map fun r => (r.key, r.viewType)).Nodup) (rev : Str) :
    (((rows.foldl (scoreRow .exact) []).filter (·.1.1 = rev)).flatMap laneScores).Perm
      ((rows.filter (·.contractRevisionId = rev)).map fun r => (r.viewType, r.score)) := by
  have hscored := scored_foldl (F := .exact) rows
  obtain ⟨hkeys, hlanes⟩ := nodup_lanes .exact rows
  generalize rows.foldl (scoreRow .exact) [] = d at hscored hkeys hlanes
  let entries (e : (Str × Str) × Lanes ℚ) : List ((Str × Str) × ViewType × ℚ) :=
    e.2.map fun lane => (e.1, lane.2.viewType, lane.2.score)
  have hviews : ∀ e, (laneScores e).Perm ((entries e).map (·.2)) := by
    intro e
    simp only [laneScores, Lanes.views, entries, List.map_map]
    refine ((PyList.sortedBy_perm _ _).map _).trans ?_
    rw [PyList.values, List.map_map]
    exact .refl _
  -- the collapsed scores and the rows, each with its node, are the same sets without repetitions
  have hentries : ((d.filter (·.1.1 = rev)).flatMap entries).Nodup := by
    rw [List.nodup_flatMap]
    constructor
    · intro e he
      have he := (List.mem_filter.1 he).1
      refine List.Nodup.of_map (fun t => t.2.1) ?_
      have : (entries e).map (fun t => t.2.1) = e.2.map (·.1) := by
        rw [List.map_map]
        exact List.map_congr_left fun lane hl => ((hscored.sound e he).2 lane hl).1
      rw [this]
      exact hlanes e he
    · refine ((List.pairwise_map.1 hkeys).filter _).imp fun {e f} hne => ?_
      rw [Function.onFun, List.disjoint_left]
      rintro t ht ht'
      obtain ⟨_, -, rfl⟩ := List.mem_map.1 ht
      obtain ⟨_, -, heq⟩ := List.mem_map.1 ht'
      exact hne (congrArg Prod.fst heq).symm
  have hrows : ((rows.filter (·.contractRevisionId = rev)).map fun r => (r.key, r.viewType, r.score)).Nodup := by
    refine List.Nodup.of_map (fun t : (Str × Str) × ViewType × ℚ => (t.1, t.2.1)) ?_
    rw [List.map_map]
    exact (hn.sublist (List.filter_sublist.map _))
  have hmem : ∀ t, t ∈ (d.filter (·.1.1 = rev)).flatMap entries ↔
      t ∈ (rows.filter (·.contractRevisionId = rev)).map fun r => (r.key, r.viewType, r.score) := by
    intro t
    simp only [List.mem_flatMap, List.mem_map, List.mem_filter, decide_eq_true_eq, entries]
    constructor
    · rintro ⟨e, ⟨he, hrev⟩, lane, hlane, rfl⟩
      obtain ⟨htype, row, hrow, hkey, hrt, hrs⟩ := (hscored.sound e he).2 lane hlane
      refine ⟨row, ⟨hrow, (congrArg Prod.fst hkey).trans hrev⟩, ?_⟩
      rw [hkey, hrt, hrs, htype]
    · rintro ⟨row, ⟨hrow, hrev⟩, rfl⟩
      obtain ⟨lanes, v, hget, hv⟩ := hscored.complete row hrow
      have he := PyList.mem_of_get? hget
      have hlane := PyList.mem_of_get? hv
      obtain ⟨htype, row', hrow', hkey, hrt, hrs⟩ := (hscored.sound _ he).2 _ hlane
      obtain rfl : row' = row := List.inj_on_of_nodup_map hn hrow' hrow (Prod.ext hkey hrt)
      exact ⟨_, ⟨he, hrev⟩, _, hlane, by rw [htype, hrs]⟩
  have hperm := ((List.perm_ext_iff_of_nodup hentries hrows).2 hmem).map (·.2)
  rw [List.map_flatMap, List.map_map] at hperm
  exact (List.Perm.flatMap_left _ fun e _ => hviews e).trans hperm

theorem scoreRows_exact : scoreRows .exact rows = .ok (rows.foldl (scoreRow .exact) []) := by
  have hfinite : ¬ ∃ row ∈ rows, FloatOps.exact.isFinite row.score = false := by simp [FloatOps.exact]
  rw [scoreRows, raiseIf, if_neg hfinite]
  rfl

/-- The scores that an exact search gives contracts are the aggregates of their rows. -/
theorem contractScores_iff (hn : (rows.map fun r => (r.key, r.viewType)).Nodup) (policy : DocumentAggregationPolicy) :
    (∀ nodeScores contractScores, (scoreRows .exact rows >>= collapseScores .exact policy) =
        .ok (nodeScores, contractScores) → ∀ rev s, (rev, s) ∈ contractScores ↔
      (∃ row ∈ rows, row.contractRevisionId = rev) ∧ aggregateDocumentViewScores .exact
        ((rows.filter (·.contractRevisionId = rev)).map fun r => (r.viewType, r.score)) policy = .ok s) ∧
    ((∃ out, (scoreRows .exact rows >>= collapseScores .exact policy) = .ok out) ↔
      ∀ row ∈ rows, ∃ s, aggregateDocumentViewScores .exact
        ((rows.filter (·.contractRevisionId = row.contractRevisionId)).map fun r => (r.viewType, r.score)) policy = .ok s) := by
  have hscored := scored_foldl (F := .exact) rows
  have hperm := collapsed_perm hn
  obtain ⟨nodes, byContract, hrun, hg⟩ := collapse_grouped (F := .exact) fun e he => (hscored.sound e he).1
  rw [scoreRows_exact]
  generalize rows.foldl (scoreRow .exact) [] = d at hscored hperm hrun hg
  -- the groups are the contracts of the rows
  have hgroup : ∀ rev, (∃ e ∈ d, e.1.1 = rev) ↔ ∃ row ∈ rows, row.contractRevisionId = rev := by
    intro rev
    constructor
    · rintro ⟨e, he, rfl⟩
      obtain ⟨hne, hlanes⟩ := hscored.sound e he
      obtain ⟨lane, hlane⟩ := List.exists_mem_of_ne_nil _ hne
      obtain ⟨-, row, hrow, hkey, -⟩ := hlanes lane hlane
      exact ⟨row, hrow, congrArg Prod.fst hkey⟩
    · rintro ⟨row, hrow, rfl⟩
      obtain ⟨lanes, -, hget, -⟩ := hscored.complete row hrow
      exact ⟨_, PyList.mem_of_get? hget, rfl⟩
  have haggregate : ∀ rev vs, (rev, vs) ∈ byContract → ∀ s, aggregateDocumentViewScores .exact vs policy = .ok s ↔
      aggregateDocumentViewScores .exact
        ((rows.filter (·.contractRevisionId = rev)).map fun r => (r.viewType, r.score)) policy = .ok s := by
    intro rev vs hvs s
    rw [PyList.mem_iff_get? hg.keys, hg.get, Option.ite_none_right_eq_some] at hvs
    rw [← Option.some.inj hvs.2, aggregate_perm (hperm rev) policy]
  have hentry : ∀ rev, (∃ vs, (rev, vs) ∈ byContract) ↔ ∃ row ∈ rows, row.contractRevisionId = rev := by
    intro rev
    rw [← hgroup]
    constructor
    · rintro ⟨vs, hvs⟩
      rw [PyList.mem_iff_get? hg.keys, hg.get, Option.ite_none_right_eq_some] at hvs
      exact hvs.1
    · intro h
      exact ⟨_, PyList.mem_of_get? ((hg.get rev).trans (if_pos h))⟩
  simp only [Guard.ok_bind, collapseScores, hrun, Guard.bind_eq_ok, Guard.pure_eq_ok]
  constructor
  · rintro nodeScores contractScores ⟨scores, hscores, heq⟩ rev s
    obtain rfl : scores = contractScores := congrArg Prod.snd heq
    constructor
    · intro hs
      obtain ⟨⟨rev', vs⟩, hvs, hrun⟩ := Guard.mem_of_mapM_ok hscores hs
      simp only [Guard.bind_eq_ok, Guard.pure_eq_ok, Prod.mk.injEq] at hrun
      obtain ⟨s', hs', rfl, rfl⟩ := hrun
      exact ⟨(hentry _).1 ⟨vs, hvs⟩, (haggregate _ _ hvs _).1 hs'⟩
    · rintro ⟨hrow, hs⟩
      obtain ⟨vs, hvs⟩ := (hentry rev).2 hrow
      obtain ⟨y, hy, hrun⟩ := Guard.mapM_ok_of_mem hscores hvs
      simp only [(haggregate _ _ hvs _).2 hs, Guard.ok_bind, Guard.pure_eq_ok] at hrun
      exact hrun ▸ hy
  · have hmap := @Guard.exists_mapM_ok _ _ _ (fun x : Str × List (ViewType × ℚ) => do
      let score ← aggregateDocumentViewScores .exact x.2 policy
      pure (x.1, score)) byContract
    constructor
    · rintro ⟨out, scores, hscores, -⟩ row hrow
      obtain ⟨vs, hvs⟩ := (hentry _).2 ⟨row, hrow, rfl⟩
      obtain ⟨y, hy⟩ := hmap.1 ⟨scores, hscores⟩ _ hvs
      simp only [Guard.bind_eq_ok, Guard.pure_eq_ok] at hy
      obtain ⟨s, hs, -⟩ := hy
      exact ⟨s, (haggregate _ _ hvs _).1 hs⟩
    · intro hall
      obtain ⟨scores, hscores⟩ := hmap.2 fun e hvs => by
        obtain ⟨rev, vs⟩ := e
        obtain ⟨row, hrow, rfl⟩ := (hentry rev).1 ⟨vs, hvs⟩
        obtain ⟨s, hs⟩ := hall row hrow
        exact ⟨_, Guard.bind_eq_ok.2 ⟨s, (haggregate _ _ hvs _).2 hs, rfl⟩⟩
      exact ⟨_, scores, hscores, rfl⟩

end

/-! ### The capture and the search -/

/-- For rows that the loader accepts, every choice of active revisions and every block size, the capture
raises nothing and hands out each active row once; aggregating what it hands out for a contract gives
the score of the contract in an exact search, which returns when every aggregate does. -/
theorem capture_agrees {H : Sha256} {profileId sidecar digest : Str} {table : List ExactRow}
    {revisions : List ExactRevision} {score : Nat → ℚ} {blockRows : Nat}
    (hload : v5ExactRowCorpusSha256 H profileId sidecar (embeddingViews table) revisions = .ok digest)
    (hscore : ∀ row ∈ embeddingViews table, -1 ≤ score row.rowIndex ∧ score row.rowIndex ≤ 1)
    (hb : 1 ≤ blockRows ∧ blockRows ≤ 4096) (activeIds : List Str) :
    (∃ exactBlocks, captureStream (loadVectors table) score table activeIds blockRows =
      .ok ⟨activeIds.length, (activeCaptured table score activeIds).length, (activeCaptured table score activeIds).length,
        exactBlocks, activeCaptured table score activeIds⟩) ∧
    ∀ policy, (∀ contractScores, exactContractScores (loadVectors table) score activeIds policy = .ok contractScores →
        ∀ rev s, (rev, s) ∈ contractScores ↔
          (∃ row ∈ activeCaptured table score activeIds, row.contractRevisionId = rev) ∧
          aggregateDocumentViewScores .exact (viewScoresOf (activeCaptured table score activeIds) rev) policy = .ok s) ∧
      ((∃ contractScores, exactContractScores (loadVectors table) score activeIds policy = .ok contractScores) ↔
        ∀ row ∈ activeCaptured table score activeIds, ∃ s, aggregateDocumentViewScores .exact
          (viewScoresOf (activeCaptured table score activeIds) row.contractRevisionId) policy = .ok s) := by
  simp only [v5ExactRowCorpusSha256, Guard.bind_eq_ok, raiseIf_eq_ok, Guard.exists_unit, not_not] at hload
  obtain ⟨-, -, hcontiguous, -, hnodup, -⟩ := hload
  refine ⟨captureStream_ok hcontiguous hscore hb, fun policy => ?_⟩
  have hn : (((loadVectors table).scoredRows score activeIds).map fun r => (r.key, r.viewType)).Nodup := by
    rw [scoredRows_eq hcontiguous, List.map_map]
    refine List.Nodup.of_map (fun k : (Str × Str) × ViewType => (k.1.1, k.1.2, k.2)) ?_
    rw [List.map_map]
    exact hnodup.sublist (List.filter_sublist.map _)
  obtain ⟨hvalues, hreturns⟩ := contractScores_iff hn policy
  have hscores : ∀ contractScores, exactContractScores (loadVectors table) score activeIds policy = .ok contractScores ↔
      ∃ out, (scoreRows .exact ((loadVectors table).scoredRows score activeIds) >>= collapseScores .exact policy) =
        .ok out ∧ out.2 = contractScores := by
    intro contractScores
    rw [exactContractScores, scoreRows_exact]
    simp only [Guard.ok_bind, Guard.bind_eq_ok, Guard.pure_eq_ok]
  -- both read the same rows
  have hview : ∀ rev, viewScoresOf (activeCaptured table score activeIds) rev =
      (((loadVectors table).scoredRows score activeIds).filter (·.contractRevisionId = rev)).map
        fun r => (r.viewType, r.score) := by
    intro rev
    rw [scoredRows_eq hcontiguous, viewScoresOf, activeCaptured, List.filter_map, List.filter_map, List.map_map,
      List.map_map]
    rfl
  have hrows : ∀ P : Str → Prop, (∀ row ∈ activeCaptured table score activeIds, P row.contractRevisionId) ↔
      ∀ row ∈ (loadVectors table).scoredRows score activeIds, P row.contractRevisionId := by
    intro P
    rw [scoredRows_eq hcontiguous, activeCaptured, List.forall_mem_map, List.forall_mem_map]
    rfl
  have hrow : ∀ rev, (∃ row ∈ activeCaptured table score activeIds, row.contractRevisionId = rev) ↔
      ∃ row ∈ (loadVectors table).scoredRows score activeIds, row.contractRevisionId = rev := by
    intro rev
    simpa only [not_forall, not_not, exists_prop] using not_congr (hrows (· ≠ rev))
  constructor
  · intro contractScores h rev s
    obtain ⟨out, hout, rfl⟩ := (hscores contractScores).1 h
    rw [hrow, hview]
    exact hvalues out.1 out.2 hout rev s
  · simp only [hview]
    rw [hrows fun rev => ∃ s, aggregateDocumentViewScores .exact ((((loadVectors table).scoredRows score activeIds).filter
      (·.contractRevisionId = rev)).map fun r => (r.viewType, r.score)) policy = .ok s, ← hreturns]
    constructor
    · rintro ⟨contractScores, h⟩
      obtain ⟨out, hout, -⟩ := (hscores contractScores).1 h
      exact ⟨out, hout⟩
    · rintro ⟨out, hout⟩
      exact ⟨out.2, (hscores out.2).2 ⟨out, hout, rfl⟩⟩

/-- Two rows of a contract, with a row of another contract between them. -/
def gapTable : List ExactRow :=
  [⟨2, "c".toList, "n".toList, .rawItem, [], "p".toList⟩, ⟨0, "c".toList, "r".toList, .contract, [], "p".toList⟩,
    ⟨1, "d".toList, "m".toList, .title, [], "p".toList⟩]

def gapScore (rowIndex : Nat) : ℚ := if rowIndex = 2 then 1 / 2 else 0

theorem gapTable_loads : ∃ digest, v5ExactRowCorpusSha256 .standard "p".toList (List.replicate 64 'a')
    (embeddingViews gapTable) [⟨"c".toList, [], none, .current⟩, ⟨"d".toList, [], none, .current⟩] = .ok digest :=
  Guard.exists_ok_of_isOk (by decide +kernel)

theorem capture_agrees_gap :
    (∃ exactBlocks, captureStream (loadVectors gapTable) gapScore gapTable ["c".toList] 1 =
      .ok ⟨1, 2, 2, exactBlocks, activeCaptured gapTable gapScore ["c".toList]⟩) ∧
    ∀ contractScores, exactContractScores (loadVectors gapTable) gapScore ["c".toList] .maxChild = .ok contractScores →
      ("c".toList, 1 / 2) ∈ contractScores := by
  obtain ⟨digest, hload⟩ := gapTable_loads
  have hscore : ∀ row ∈ embeddingViews gapTable, -1 ≤ gapScore row.rowIndex ∧ gapScore row.rowIndex ≤ 1 := by
    intro row _
    unfold gapScore
    split <;> norm_num
  obtain ⟨hcapture, hscores⟩ := capture_agrees hload hscore (show 1 ≤ 1 ∧ 1 ≤ 4096 by decide) ["c".toList]
  refine ⟨hcapture, fun contractScores h => ((hscores .maxChild).1 contractScores h "c".toList (1 / 2)).2 ⟨?_, ?_⟩⟩
  · decide
  · decide +kernel

end CardRag
