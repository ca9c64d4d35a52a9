import CardRag.Core
import CardRag.Lib.Effects

/-! # The map-reduce ledger (`experimental_map_reduce.py`)

A job maps every unit of a corpus with one provider call each, and reduces the spans that were found in rounds of
batches, one call a batch. The ledger counts what was reserved and says what the next call is. A plan has what does
not change in a job: the sealed profile, the snapshot and the prompts. -/

namespace CardRag.MapReduce

/-- What a provider call is for. -/
inductive Coordinate where
  | map (unitId : Str)
  | reduce (roundIndex batchIndex : Nat)
deriving DecidableEq

structure PendingProviderCall where
  sequence : Nat
  coordinate : Coordinate
  requestSha256 : Str
  inputCharacters : Nat
  maximumCompletionTokens : Nat
deriving DecidableEq

structure Profile where
  maximumCompletionTokens : Nat
  maximumJobProviderCalls : Nat
  maximumJobInputCharacters : Nat
  maximumJobOutputTokens : Nat

/-- A receipt: the call it answers, whether model, provider and usage are those of the profile, and the raw answer. -/
structure Receipt where
  call : PendingProviderCall
  ofProfile : Bool
  content : Str
deriving DecidableEq

structure MapUnitResult (σ : Type) where
  unitId : Str
  spans : List σ
  receiptSha256 : Str
deriving DecidableEq

structure ReduceBatchResult (σ : Type) where
  roundIndex : Nat
  batchIndex : Nat
  inputSpanSha256 : Str
  inputSpanCount : Nat
  spans : List σ
  receiptSha256 : Str
deriving DecidableEq

inductive Status where
  | progress
  | complete
  | cancelled
deriving DecidableEq

structure Ledger (σ : Type) where
  status : Status
  completedMaps : List (MapUnitResult σ)
  completedReductions : List (ReduceBatchResult σ)
  receiptSha256s : List Str
  providerCallCount : Nat
  providerInputCharacters : Nat
  accountedOutputTokens : Nat
  pendingCall : Option PendingProviderCall
  reduceResult : Option (List σ)
deriving DecidableEq

/-- What is fixed for a job. -/
structure Plan (σ : Type) where
  profile : Profile
  units : List Str
  spanKey : σ → Str
  spanCharacters : σ → Nat
  /-- `profile.maximum_input_characters - _reduce_fixed_characters()` -/
  available : Nat
  inputSha256 : List σ → Str
  /-- The digest and the characters of a request. -/
  mapRequest : Str → Str × Nat
  reduceRequest : List σ → Nat → Str × Nat
  /-- `_validated_spans` of an answer, for a unit and for a batch. -/
  mapSpans : Str → Receipt → List σ
  reduceSpans : List σ → Nat → Receipt → List σ
  receiptSha256 : Receipt → Str

variable {σ : Type}

namespace Ledger

def empty : Ledger σ := ⟨.progress, [], [], [], 0, 0, 0, none, none⟩

def reductionCoordinates (l : Ledger σ) : List (Nat × Nat) := l.completedReductions.map fun r => (r.roundIndex, r.batchIndex)

/-- `ledger_is_an_ordered_complete_prefix`, as far as it is about calls. -/
def Valid (P : Plan σ) (l : Ledger σ) : Prop :=
  P.units.Nodup ∧
  l.completedMaps.map (·.unitId) = P.units.take l.completedMaps.length ∧
  (l.completedReductions ≠ [] → l.completedMaps.length = P.units.length) ∧
  l.completedMaps.map (·.receiptSha256) ++ l.completedReductions.map (·.receiptSha256) = l.receiptSha256s ∧
  l.providerCallCount = l.receiptSha256s.length + (if l.pendingCall.isSome then 1 else 0) ∧
  l.providerCallCount ≤ P.profile.maximumJobProviderCalls ∧
  (∀ p, l.pendingCall = some p → p.inputCharacters ≤ l.providerInputCharacters ∧
    p.sequence = l.receiptSha256s.length ∧ p.maximumCompletionTokens = P.profile.maximumCompletionTokens) ∧
  l.providerInputCharacters ≤ P.profile.maximumJobInputCharacters ∧
  l.accountedOutputTokens ≤ P.profile.maximumJobOutputTokens ∧
  l.accountedOutputTokens = l.providerCallCount * P.profile.maximumCompletionTokens ∧
  l.reductionCoordinates.Pairwise (fun a b => a.1 < b.1 ∨ a.1 = b.1 ∧ a.2 < b.2) ∧
  (l.status = .complete → l.completedMaps.length = P.units.length ∧ l.reduceResult.isSome ∧ l.pendingCall = none) ∧
  (l.status ≠ .complete → l.reduceResult = none)

/-- The validator, on a new ledger. -/
instance (P : Plan σ) (l : Ledger σ) : Decidable (l.Valid P) := by
  unfold Valid
  have : Decidable (∀ p, l.pendingCall = some p → p.inputCharacters ≤ l.providerInputCharacters ∧
      p.sequence = l.receiptSha256s.length ∧ p.maximumCompletionTokens = P.profile.maximumCompletionTokens) :=
    match l.pendingCall with
    | none => isTrue fun _ h => by cases h
    | some q => decidable_of_iff (q.inputCharacters ≤ l.providerInputCharacters ∧ q.sequence = l.receiptSha256s.length ∧
        q.maximumCompletionTokens = P.profile.maximumCompletionTokens)
        ⟨fun h p hp => Option.some.inj hp ▸ h, fun h => h q rfl⟩
  infer_instance

end Ledger

/-! ### The frontier of the reduction -/

section
variable (P : Plan σ)

def deduplicatedSpans (spans : List σ) : List σ :=
  PyList.values (spans.foldl (fun d s => if (PyList.get? d (P.spanKey s)).isSome then d else PyList.insert (P.spanKey s) s d) [])

def partitionReduceSpans (spans : List σ) : Except String (List (List σ)) := do
  let (batches, pending, _) ← spans.foldlM (fun (acc : List (List σ) × List σ × Nat) span =>
    let (batches, pending, pendingSize) := acc
    let size := P.spanCharacters span
    let combined := pendingSize + size + (if pending = [] then 0 else 1)
    if size * 2 + 1 > P.available then .error "validated span cannot enter bounded hierarchical reduce"
    else if pending ≠ [] ∧ combined > P.available then .ok (batches ++ [pending], [span], size)
    else .ok (batches, pending ++ [span], combined)) ([], [], 0)
  pure (if pending = [] then batches else batches ++ [pending])

structure PendingReduction (σ : Type) where
  roundIndex : Nat
  batchIndex : Nat
  spans : List σ
  finalBatch : Bool

inductive Reduction (σ : Type) where
  | pending (p : PendingReduction σ)
  | terminal (spans : List σ)

/-- The batches of a round against the results: the first without one, or the results left and the next frontier. -/
def reduceBatches (roundIndex : Nat) (final : Bool) : Nat → List (List σ) → List (ReduceBatchResult σ) → List σ →
    Except String (PendingReduction σ ⊕ (List (ReduceBatchResult σ) × List σ))
  | _, [], results, next => .ok (.inr (results, next))
  | batchIndex, batch :: _, [], _ => .ok (.inl ⟨roundIndex, batchIndex, batch, final⟩)
  | batchIndex, batch :: batches, result :: results, next =>
    if result.roundIndex ≠ roundIndex ∨ result.batchIndex ≠ batchIndex ∨ result.inputSpanCount ≠ batch.length ∨
        result.inputSpanSha256 ≠ P.inputSha256 batch then .error "reduce checkpoint input identity is stale"
    else if ∃ s ∈ result.spans, P.spanKey s ∉ batch.map P.spanKey then
      .error "reduce checkpoint introduced a new source span"
    else if ¬ final ∧ result.spans.length > max 1 (batch.length / 2) then
      .error "non-final reduce batch did not satisfy its sealed shrink bound"
    else reduceBatches roundIndex final (batchIndex + 1) batches results (next ++ result.spans)

/-- The rounds of `_reduction_state`, with so many left. -/
def reduceRounds : Nat → Nat → List σ → List (ReduceBatchResult σ) → Except String (Reduction σ)
  | 0, _, _, _ => .error "hierarchical reduce exceeded its sealed round bound"
  | left + 1, roundIndex, frontier, results =>
    match partitionReduceSpans P frontier with
    | .error e => .error e
    | .ok batches =>
      match reduceBatches P roundIndex (batches.length = 1) 0 batches results [] with
      | .error e => .error e
      | .ok (.inl p) => .ok (.pending p)
      | .ok (.inr (rest, next)) =>
        if batches.length = 1 then
          if rest ≠ [] then .error "reduce ledger has checkpoints after final batch" else .ok (.terminal next)
        else if (deduplicatedSpans P next).length ≥ frontier.length then
          .error "non-final hierarchical reduce round did not shrink"
        else if deduplicatedSpans P next = [] then
          if rest ≠ [] then .error "reduce ledger continued after an empty frontier" else .ok (.terminal [])
        else reduceRounds left (roundIndex + 1) (deduplicatedSpans P next) rest

/-- `_reduction_state`, with `MAX_REDUCE_ROUNDS`. -/
def reductionState (l : Ledger σ) : Except String (Reduction σ) :=
  if l.completedMaps.length ≠ P.units.length then .error "reduce requested before all maps completed"
  else
    let frontier := deduplicatedSpans P (l.completedMaps.flatMap (·.spans))
    if frontier = [] then
      if l.completedReductions ≠ [] then .error "empty map frontier has reduce checkpoints" else .ok (.terminal [])
    else reduceRounds P 32 0 frontier l.completedReductions

/-- `MAX_PROVIDER_SPANS` -/
def maximumProviderSpans : Nat := 64

def PendingReduction.maximumOutputs (p : PendingReduction σ) : Nat :=
  if p.finalBatch then maximumProviderSpans else min maximumProviderSpans (max 1 (p.spans.length / 2))

/-- `_next_call`: none once the reduction is terminal. -/
def nextCall (l : Ledger σ) : Except String (Option PendingProviderCall) :=
  let call (c : Coordinate) (request : Str × Nat) : PendingProviderCall :=
    ⟨l.receiptSha256s.length, c, request.1, request.2, P.profile.maximumCompletionTokens⟩
  match P.units[l.completedMaps.length]? with
  | some unit => .ok (some (call (.map unit) (P.mapRequest unit)))
  | none =>
    match reductionState P l with
    | .error e => .error e
    | .ok (.terminal _) => .ok none
    | .ok (.pending p) => .ok (some (call (.reduce p.roundIndex p.batchIndex) (P.reduceRequest p.spans p.maximumOutputs)))

end

end CardRag.MapReduce
