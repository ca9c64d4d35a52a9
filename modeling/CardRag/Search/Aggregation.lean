import CardRag.Structure.Model

/-! # Scoring contracts (`exact.py`, `aggregation.py`)

`_score_rows` keeps the best score of every node and view type, `_collapse_scores` groups them by
contract and aggregates each group. Scores are doubles; what the scorer computes with them is a
parameter. -/

namespace CardRag

inductive DocumentAggregationPolicy where
  | maxChild | top3Mean | contractPlusChild
deriving DecidableEq, Repr

/-- The operations on doubles that the scorer uses. -/
structure FloatOps (σ : Type) where
  isFinite : σ → Bool
  lt : σ → σ → Bool
  /-- `math.isclose(a, b, abs_tol=1e-7)` -/
  isClose : σ → σ → Bool
  /-- `math.fsum` -/
  fsum : List σ → σ
  /-- division by a length -/
  divBy : σ → Nat → σ
  /-- `0.5 * x` -/
  half : σ → σ

/-- A row of the matrix with its score. -/
structure ScoredRow (σ : Type) where
  rowIndex : Nat
  contractRevisionId : Str
  nodeId : Str
  viewType : ViewType
  score : σ

structure ViewScore (σ : Type) where
  rowIndex : Nat
  viewType : ViewType
  score : σ

structure NodeScore (σ : Type) where
  score : σ
  viewTypes : List ViewType
  views : List (ViewScore σ)

/-- `_VIEW_ORDER`. -/
def ViewType.order : ViewType → Nat
  | title => 0
  | rawItem => 1
  | contextualItem => 2
  | detail => 3
  | majorSection => 4
  | contract => 5

/-- The dictionary of a node: one score per view type. -/
abbrev Lanes (σ : Type) := List (ViewType × ViewScore σ)

section
variable {σ : Type} (F : FloatOps σ)

/-- `max(first, *rest)`: the first of the largest. -/
def FloatOps.maximum (first : σ) (rest : List σ) : σ :=
  rest.foldl (fun best x => if F.lt best x then x else best) first

def aggregationError (message : String) : Raised := ⟨.documentAggregationError, message⟩

def aggregateDocumentViewScores (scores : List (ViewType × σ)) (policy : DocumentAggregationPolicy) :
    Except Raised σ := do
  raiseIf (scores.isEmpty = true ∨ ∃ s ∈ scores, F.isFinite s.2 = false)
    (aggregationError "document aggregation requires finite row scores")
  match (scores.filter (·.1 ≠ .contract)).map (·.2) with
  | [] => throw (aggregationError "document aggregation requires at least one non-CONTRACT row")
  | first :: rest =>
    let maximumChild := F.maximum first rest
    match policy with
    | .maxChild => pure maximumChild
    | .top3Mean =>
      let highest := ((first :: rest).mergeSort fun x y => !F.lt x y).take 3
      pure (F.divBy (F.fsum highest) highest.length)
    | .contractPlusChild =>
      match (scores.filter (·.1 = .contract)).map (·.2) with
      | [contractScore] => pure (F.fsum [F.half contractScore, F.half maximumChild])
      | _ => throw (aggregationError "contract_plus_child requires exactly one CONTRACT row")

def ScoredRow.key (row : ScoredRow σ) : Str × Str := (row.contractRevisionId, row.nodeId)

/-- One row of `_score_rows`: a better score replaces the one of its node and view type. -/
def scoreRow (scoresByNode : List ((Str × Str) × Lanes σ)) (row : ScoredRow σ) : List ((Str × Str) × Lanes σ) :=
  let lanes := (PyList.get? scoresByNode row.key).getD []
  let replaced := PyList.insert row.key
    (PyList.insert row.viewType ⟨row.rowIndex, row.viewType, row.score⟩ lanes) scoresByNode
  match PyList.get? lanes row.viewType with
  | none => replaced
  | some previous => if F.lt previous.score row.score then replaced else scoresByNode

/-- `_score_rows(vectors, row_indices, query_vector)`, over the rows with their products. -/
def scoreRows (rows : List (ScoredRow σ)) : Except Raised (List ((Str × Str) × Lanes σ)) := do
  raiseIf (∃ row ∈ rows, F.isFinite row.score = false)
    ⟨.runtimeError, "v5 exact scoring produced a non-finite score"⟩
  pure (rows.foldl (scoreRow F) [])

/-- The views of a node in the order of their types. -/
def Lanes.views (lanes : Lanes σ) : List (ViewScore σ) :=
  PyList.sortedBy (fun v : ViewScore σ => toLex (v.viewType.order, v.rowIndex)) (PyList.values lanes)

/-- The score of a node. -/
def nodeScore (lanes : Lanes σ) : Except Raised (NodeScore σ) :=
  match (PyList.values lanes).map (·.score) with
  | [] => throw (valueError "max() iterable argument is empty")
  | first :: rest =>
    let best := F.maximum first rest
    let views := Lanes.views lanes
    pure ⟨best, (views.filter fun v => F.isClose v.score best).map (·.viewType), views⟩

/-- One node of the first loop of `_collapse_scores`. -/
def collapseNode (acc : List ((Str × Str) × NodeScore σ) × List (Str × List (ViewType × σ)))
    (entry : (Str × Str) × Lanes σ) :
    Except Raised (List ((Str × Str) × NodeScore σ) × List (Str × List (ViewType × σ))) := do
  let node ← nodeScore F entry.2
  pure (PyList.insert entry.1 node acc.1, PyList.insert entry.1.1
    ((PyList.get? acc.2 entry.1.1).getD [] ++ node.views.map fun v => (v.viewType, v.score)) acc.2)

def collapseScores (policy : DocumentAggregationPolicy) (scoresByNode : List ((Str × Str) × Lanes σ)) :
    Except Raised (List ((Str × Str) × NodeScore σ) × List (Str × σ)) := do
  let (nodeScores, byContract) ← scoresByNode.foldlM (collapseNode F) ([], [])
  let contractScores ← byContract.mapM fun (revisionId, viewScores) => do
    let score ← aggregateDocumentViewScores F viewScores policy
    pure (revisionId, score)
  pure (nodeScores, contractScores)

end

end CardRag
