import CardRag.Lib.Interleave
import CardRag.Search.Aggregation

/-! # The exhaustive audit (`audit.py`, `_exhaustive_scores`)

An audit scores every contract of a generation against one query vector, eight contracts a call. Its ledger is kept
between the calls, which may fail at any write and run at once. `exhaustive_scores` says that whatever is given out is
what one uninterrupted pass would compute with the published vector. -/

namespace CardRag.Search.Exhaustive
open Interleave

structure ExpectedContract where
  contractRevisionId : Str
  embeddingRows : Nat
deriving DecidableEq

/-- `AuditContractScore`. -/
structure ContractScore (σ : Type) where
  contractRevisionId : Str
  aggregationPolicy : DocumentAggregationPolicy
  score : σ
  scoredEmbeddingRows : Nat
  exactBlocks : Nat
  nodes : List (Str × NodeScore σ)

structure AuditIdentity where
  jobId : Str
  generationId : Str
  querySha256 : Str
  exhaustiveProfileId : Str
  documentAggregationPolicy : DocumentAggregationPolicy
  sealedProfileSha256 : Option Str
deriving DecidableEq

inductive AuditStatus where
  | progress | complete
deriving DecidableEq

/-- `ExhaustiveAuditLedger`. -/
structure AuditLedger (σ : Type) where
  status : AuditStatus
  identity : AuditIdentity
  queryVectorSha256 : Str
  expectedContracts : List ExpectedContract
  expectedEmbeddingRows : Nat
  completedContracts : List (ContractScore σ)
  scoredEmbeddingRows : Nat
  exactBlocks : Nat

section
variable {σ : Type}

/-- `progress_is_a_complete_ordered_prefix`. -/
def AuditLedger.valid (l : AuditLedger σ) : Bool :=
  let expectedIds : List Str := l.expectedContracts.map (·.contractRevisionId)
  let completedIds : List Str := l.completedContracts.map (·.contractRevisionId)
  decide (expectedIds.Pairwise (· < ·)) &&
  decide (l.expectedEmbeddingRows = (l.expectedContracts.map (·.embeddingRows)).sum) &&
  decide (completedIds = expectedIds.take completedIds.length) &&
  l.completedContracts.all (fun c => decide (((l.expectedContracts.find? (·.contractRevisionId = c.contractRevisionId)).map
    (·.embeddingRows)) = some c.scoredEmbeddingRows)) &&
  l.completedContracts.all (fun c => decide (c.aggregationPolicy = l.identity.documentAggregationPolicy)) &&
  decide (l.scoredEmbeddingRows = (l.completedContracts.map (·.scoredEmbeddingRows)).sum) &&
  decide (l.exactBlocks = (l.completedContracts.map (·.exactBlocks)).sum) &&
  decide (l.status = .complete → completedIds.length = expectedIds.length)

end

/-- The files that are written once. -/
inductive AuditFile where
  | queryVector
  | complete
  | artifact (sha256 : Str)
deriving DecidableEq

inductive AuditDocument (V σ : Type) where
  | vector (v : V)
  /-- `_CompleteMarker`. -/
  | marker (jobId artifactSha256 : Str)
  | ledger (l : AuditLedger σ)

/-- The directory of the job. A file whose writing was interrupted is `some none`. -/
structure AuditDirectory (V σ : Type) where
  present : Bool
  files : AuditFile → Option (Option (AuditDocument V σ))
  progress : Option (AuditLedger σ)

def AuditDirectory.empty (V σ : Type) : AuditDirectory V σ := ⟨false, fun _ => none, none⟩

inductive AuditOp (V σ : Type) where
  | jobDirectory
  | makeDirectory
  | writeQuotaGuard
  | read (f : AuditFile)
  | readProgress
  | writeProgress (l : AuditLedger σ)
  | immutableGrowth (f : AuditFile) (d : AuditDocument V σ)
  | publishImmutable (f : AuditFile) (d : AuditDocument V σ)
  | embedQuery

inductive AuditReply (V σ : Type) where
  | returned
  /-- The call raised, or the process stopped. -/
  | refused
  | directory (present : Bool)
  | file (c : Option (Option (AuditDocument V σ)))
  | progress (l : Option (AuditLedger σ))
  | vector (v : V)

inductive AuditFailure where
  /-- `ExhaustiveAuditError`. -/
  | audit (message : String)
  /-- A ledger that its validator refuses. -/
  | validation
  | scoring (e : Raised)
  | refused

structure LoadedAudit (V σ : Type) where
  ledger : AuditLedger σ
  queryVector : V
  artifactSha256 : Option Str

structure ExhaustiveResult (σ : Type) where
  contracts : List (ContractScore σ)
  expectedRows : Nat
  scoredRows : Nat
  exactBlocks : Nat
  jobId : Str
  resumed : Bool
  status : AuditStatus
  artifactSha256 : Option Str

/-- One audit: the rows of each contract of the generation with their products with a vector, and what is computed
with bytes and doubles. -/
structure Audit (V σ : Type) where
  ops : FloatOps σ
  scoredRows : V → Str → List (ScoredRow σ)
  /-- The norm of `_canonical_query_vector`. -/
  normalized : V → Bool
  queryVectorSha256 : V → Str
  ledgerSha256 : AuditLedger σ → Str
  identity : AuditIdentity

abbrev AuditTask (V σ α : Type) := ExceptT AuditFailure (Prog (AuditOp V σ) (AuditReply V σ)) α

variable {V σ : Type}

namespace AuditTask

def ask (op : AuditOp V σ) : AuditTask V σ (AuditReply V σ) := ExceptT.lift (Prog.ask op)

/-- A call that has nothing to give back. -/
def perform (op : AuditOp V σ) : AuditTask V σ Unit := do
  match ← ask op with
  | .returned => pure ()
  | _ => throw .refused

def refuseIf (c : Prop) [Decidable c] (message : String) : AuditTask V σ Unit :=
  if c then throw (.audit message) else pure ()

/-- `model_validate`. -/
def validate (l : AuditLedger σ) : AuditTask V σ (AuditLedger σ) :=
  if l.valid then pure l else throw .validation

def requiredJobDirectory : AuditTask V σ Unit := do
  match ← ask .jobDirectory with
  | .directory true => pure ()
  | .directory false => throw (.audit "audit job directory is absent")
  | _ => throw .refused

def readQueryVector : AuditTask V σ V := do
  match ← ask (.read .queryVector) with
  | .file (some (some (.vector v))) => pure v
  | .file _ => throw (.audit "audit query vector is missing or unsafe")
  | _ => throw .refused

end AuditTask

namespace Audit
open AuditTask
variable (A : Audit V σ)

/-- `VECTOR_BLOCK_ROWS`. -/
def vectorBlockRows : Nat := 512

/-- `EXHAUSTIVE_CONTRACTS_PER_CALL`. -/
def contractsPerCall : Nat := 8

/-- What the loop of `_exhaustive_scores` makes of one contract. -/
def scoreContract (v : V) (expected : ExpectedContract) : Except AuditFailure (ContractScore σ) := do
  let revisionId := expected.contractRevisionId
  let rows := A.scoredRows v revisionId
  let (nodeScores, contractScores) ← (do
    let scoresByNode ← scoreRows A.ops rows
    collapseScores A.ops A.identity.documentAggregationPolicy scoresByNode).mapError .scoring
  match contractScores with
  | [(id, score)] =>
    raiseIf (id ≠ revisionId) (.audit "exhaustive contract batch did not produce exactly one contract score")
    let nodes := PyList.sortedBy (fun e : (Str × Str) × NodeScore σ => toLex e.1) nodeScores
    pure ⟨revisionId, A.identity.documentAggregationPolicy, score, rows.length,
      (rows.length + vectorBlockRows - 1) / vectorBlockRows,
      (nodes.filter (·.1.1 = revisionId)).map fun e => (e.1.2, e.2)⟩
  | _ => throw (.audit "exhaustive contract batch did not produce exactly one contract score")

def verifyIdentity (l : AuditLedger σ) (expected : List ExpectedContract) : AuditTask V σ Unit :=
  refuseIf (l.identity ≠ A.identity ∨ l.expectedContracts ≠ expected)
    "audit ledger identity or corpus expectation is stale"

def verifyQueryVector (l : AuditLedger σ) (v : V) : AuditTask V σ Unit :=
  refuseIf (A.queryVectorSha256 v ≠ l.queryVectorSha256) "audit query vector hash differs from its ledger"

/-- `load`, where a completion marker is published. -/
def loadComplete (expected : List ExpectedContract) (v : V) (jobId artifactSha256 : Str) :
    AuditTask V σ (LoadedAudit V σ) := do
  refuseIf (jobId ≠ A.identity.jobId) "completion marker belongs to another audit job"
  match ← ask (.read (.artifact artifactSha256)) with
  | .file (some (some (.ledger l))) => do
    refuseIf (A.ledgerSha256 l ≠ artifactSha256) "completion artifact hash or size is invalid"
    let l ← validate l
    A.verifyIdentity l expected
    A.verifyQueryVector l v
    refuseIf (l.status ≠ .complete) "completion artifact does not contain a complete ledger"
    pure ⟨l, v, some artifactSha256⟩
  | .file _ => throw (.audit "completion artifact is missing or unsafe")
  | _ => throw .refused

/-- `load`, where the audit is not complete. -/
def loadProgress (expected : List ExpectedContract) (v : V) : AuditTask V σ (Option (LoadedAudit V σ)) := do
  match ← ask .readProgress with
  | .progress none => pure none
  | .progress (some l) => do
    let l ← validate l
    refuseIf (l.status ≠ .progress) "audit progress is not a strict audit document"
    A.verifyIdentity l expected
    A.verifyQueryVector l v
    pure (some ⟨l, v, none⟩)
  | _ => throw .refused

def load (expected : List ExpectedContract) : AuditTask V σ (Option (LoadedAudit V σ)) := do
  match ← ask .jobDirectory with
  | .directory false => pure none
  | .directory true => do
    let v ← readQueryVector
    match ← ask (.read .complete) with
    | .file none => A.loadProgress expected v
    | .file (some (some (.marker jobId artifactSha256))) => do
      let loaded ← A.loadComplete expected v jobId artifactSha256
      pure (some loaded)
    | .file _ => throw (.audit "completion marker is not a strict audit document")
    | _ => throw .refused
  | _ => throw .refused

def loadQueryVector : AuditTask V σ (Option V) := do
  match ← ask .jobDirectory with
  | .directory false => pure none
  | .directory true => do
    match ← ask (.read .queryVector) with
    | .file none => pure none
    | .file (some (some (.vector v))) => pure (some v)
    | .file _ => throw (.audit "audit query vector has an invalid byte size")
    | _ => throw .refused
  | _ => throw .refused

/-- The ledger of an audit that has scored nothing. -/
def opening (expected : List ExpectedContract) (v : V) : AuditLedger σ :=
  ⟨.progress, A.identity, A.queryVectorSha256 v, expected, (expected.map (·.embeddingRows)).sum, [], 0, 0⟩

def begin (expected : List ExpectedContract) (v : V) : AuditTask V σ (AuditLedger σ) := do
  refuseIf (A.normalized v = false) "exhaustive query vector is not L2-normalized"
  let l ← validate (A.opening expected v)
  match ← ask .jobDirectory with
  | .directory true => perform (.immutableGrowth .queryVector (.vector v))
  | .directory false => pure ()
  | _ => throw .refused
  perform .writeQuotaGuard
  perform .makeDirectory
  perform (.publishImmutable .queryVector (.vector v))
  perform (.writeProgress l)
  pure l

def checkpoint (l : AuditLedger σ) (contract : ContractScore σ) : AuditTask V σ (AuditLedger σ) := do
  requiredJobDirectory
  A.verifyIdentity l l.expectedContracts
  let next ← validate { l with
    completedContracts := l.completedContracts ++ [contract]
    scoredEmbeddingRows := l.scoredEmbeddingRows + contract.scoredEmbeddingRows
    exactBlocks := l.exactBlocks + contract.exactBlocks }
  perform .writeQuotaGuard
  perform (.writeProgress next)
  pure next

def complete (l : AuditLedger σ) : AuditTask V σ (LoadedAudit V σ) := do
  requiredJobDirectory
  let l ← validate { l with status := .complete }
  A.verifyIdentity l l.expectedContracts
  let artifactSha256 := A.ledgerSha256 l
  perform (.immutableGrowth (.artifact artifactSha256) (.ledger l))
  perform (.immutableGrowth .complete (.marker A.identity.jobId artifactSha256))
  perform .writeQuotaGuard
  perform (.publishImmutable (.artifact artifactSha256) (.ledger l))
  perform (.publishImmutable .complete (.marker A.identity.jobId artifactSha256))
  let v ← readQueryVector
  A.verifyQueryVector l v
  pure ⟨l, v, some artifactSha256⟩

/-- The loop over the contracts that remain for this call. -/
def scoreContracts (v : V) : List ExpectedContract → AuditLedger σ → AuditTask V σ (AuditLedger σ)
  | [], l => pure l
  | expected :: rest, l =>
    match A.scoreContract v expected with
    | .error e => throw e
    | .ok contract => do
      let next ← A.checkpoint l contract
      scoreContracts v rest next

def resultFromAudit (loaded : LoadedAudit V σ) (resumed : Bool) : AuditTask V σ (ExhaustiveResult σ) := do
  let l := loaded.ledger
  refuseIf (l.status = .complete ∧ loaded.artifactSha256 = none) "complete exhaustive audit has no immutable artifact"
  refuseIf (l.status = .progress ∧ loaded.artifactSha256 ≠ none) "running exhaustive audit unexpectedly has an artifact"
  pure ⟨l.completedContracts, l.expectedEmbeddingRows, l.scoredEmbeddingRows, l.exactBlocks, l.identity.jobId, resumed,
    l.status, loaded.artifactSha256⟩

/-- The audit goes on from a ledger. -/
def proceed (expected : List ExpectedContract) (l : AuditLedger σ) (v : V) (resumed : Bool) :
    AuditTask V σ (ExhaustiveResult σ) := do
  let remaining := expected.drop l.completedContracts.length
  let l ← A.scoreContracts v (remaining.take contractsPerCall) l
  if l.completedContracts.length = expected.length then do
    let completed ← A.complete l
    resultFromAudit completed resumed
  else resultFromAudit ⟨l, v, none⟩ resumed

def embedQuery : AuditTask V σ V := do
  match ← ask .embedQuery with
  | .vector v => pure v
  | _ => throw .refused

/-- An audit that has no ledger yet. -/
def start (expected : List ExpectedContract) : AuditTask V σ (ExhaustiveResult σ) := do
  match ← loadQueryVector with
  | some v => do
    let l ← A.begin expected v
    A.proceed expected l v true
  | none => do
    let v ← embedQuery
    let l ← A.begin expected v
    A.proceed expected l v false

/-- `_exhaustive_scores`, from the contracts that the rows are grouped by. -/
def exhaustiveScores (expected : List ExpectedContract) : AuditTask V σ (ExhaustiveResult σ) := do
  match ← A.load expected with
  | none => A.start expected
  | some loaded =>
    if loaded.artifactSha256 ≠ none then resultFromAudit loaded true
    else A.proceed expected loaded.ledger loaded.queryVector true

end Audit

/-- What the file system, the quota and the embedder answer. A file that another call is writing is refused, and a
writing that is refused may leave its file torn. -/
def serveAudit {ι : Type} (_ : ι) (w : AuditDirectory V σ) (op : AuditOp V σ) (r : AuditReply V σ)
    (w' : AuditDirectory V σ) : Prop :=
  r = .refused ∧ w' = w ∨
  match op with
  | .jobDirectory => r = .directory w.present ∧ w' = w
  | .makeDirectory => (r = .refused ∨ r = .returned) ∧ w' = { w with present := true }
  | .writeQuotaGuard => r = .returned ∧ w' = w
  | .read f => r = .file (w.files f) ∧ w' = w
  | .readProgress => r = .progress w.progress ∧ w' = w
  | .writeProgress l => (r = .refused ∨ r = .returned) ∧ w' = { w with progress := some l }
  | .immutableGrowth f d => r = .returned ∧ (w.files f = none ∨ w.files f = some (some d)) ∧ w' = w
  | .publishImmutable f d =>
    w.files f = none ∧ (r = .refused ∧ (∃ c, (c = none ∨ c = some d) ∧
        w' = { w with files := Function.update w.files f (some c) }) ∨
      r = .returned ∧ w' = { w with files := Function.update w.files f (some (some d)) }) ∨
    w.files f = some (some d) ∧ r = .returned ∧ w' = w
  | .embedQuery => (∃ v, r = .vector v) ∧ w' = w

/-! ### What the directory holds -/

section
variable {A : Audit V σ} {ι : Type} {i : ι} {v v' : V} {w w' : AuditDirectory V σ} {l : AuditLedger σ}

/-- A ledger with the scores of a first part of its contracts, by one vector. -/
structure ScoredBy (A : Audit V σ) (v : V) (l : AuditLedger σ) : Prop where
  identity : l.identity = A.identity
  scored : l.completedContracts.map .ok =
    (l.expectedContracts.take l.completedContracts.length).map (A.scoreContract v)
  rows : l.scoredEmbeddingRows = (l.completedContracts.map (·.scoredEmbeddingRows)).sum
  blocks : l.exactBlocks = (l.completedContracts.map (·.exactBlocks)).sum

namespace AuditDirectory

def Published (w : AuditDirectory V σ) (v : V) : Prop := w.files .queryVector = some (some (.vector v))

def Holds (w : AuditDirectory V σ) (l : AuditLedger σ) : Prop :=
  w.progress = some l ∨ ∃ sha256, w.files (.artifact sha256) = some (some (.ledger l))

theorem Published.unique (h : w.Published v) (h' : w.Published v') : v = v' := by
  simpa using h.symm.trans h'

end AuditDirectory

/-- The ledger was scored by the published vector. -/
def Sound (A : Audit V σ) (l : AuditLedger σ) (w : AuditDirectory V σ) : Prop := ∃ v, w.Published v ∧ ScoredBy A v l

def AuditInv (A : Audit V σ) (w : AuditDirectory V σ) : Prop := ∀ l, w.Holds l → Sound A l w

/-- What every call does to the directory. -/
structure Guarantee (A : Audit V σ) (w w' : AuditDirectory V σ) : Prop where
  inv : AuditInv A w → AuditInv A w'
  vector : ∀ v, w.Published v → w'.Published v

theorem Sound.mono (h : Sound A l w) (hw : ∀ v, w.Published v → w'.Published v) : Sound A l w' :=
  h.imp fun v hv => ⟨hw v hv.1, hv.2⟩

theorem Sound.scoredBy (h : Sound A l w) (hw : w.Published v) : ScoredBy A v l := by
  obtain ⟨v', hv', hscored⟩ := h
  cases hv'.unique hw
  exact hscored

/-- The ledger that an operation writes. -/
def AuditOp.written : AuditOp V σ → Option (AuditLedger σ)
  | .writeProgress l => some l
  | .publishImmutable _ (.ledger l) => some l
  | _ => none

/-- A file that is not there is created, whole or torn. -/
theorem guarantee_create {f : AuditFile} {c : Option (AuditDocument V σ)} (hf : w.files f = none)
    (hc : ∀ l, c = some (.ledger l) → Sound A l w) :
    Guarantee A w { w with files := Function.update w.files f (some c) } := by
  have hvector (v) (hv : w.Published v) :
      AuditDirectory.Published { w with files := Function.update w.files f (some c) } v := by
    refine (Function.update_of_ne ?_ ..).trans hv
    rintro rfl
    exact absurd (hf.symm.trans hv) (by simp)
  refine ⟨fun hinv l hl => ?_, hvector⟩
  obtain hl | ⟨sha256, hl⟩ := hl
  · exact (hinv l (.inl hl)).mono hvector
  · by_cases hsame : AuditFile.artifact sha256 = f
    · subst hsame
      dsimp only at hl
      rw [Function.update_self] at hl
      exact (hc l (Option.some.inj hl)).mono hvector
    · dsimp only at hl
      rw [Function.update_of_ne hsame] at hl
      exact (hinv l (.inr ⟨sha256, hl⟩)).mono hvector

theorem guarantee_progress (hl : Sound A l w) : Guarantee A w { w with progress := some l } := by
  refine ⟨fun hinv l' hl' => ?_, fun v hv => hv⟩
  obtain hl' | hl' := hl'
  · cases hl'
    exact hl
  · exact hinv l' (.inr hl')

/-- Whatever the reply, and wherever the writing stops. -/
theorem serve_guarantee {op : AuditOp V σ} {r : AuditReply V σ} (h : serveAudit i w op r w')
    (hop : ∀ l, op.written = some l → Sound A l w) : Guarantee A w w' := by
  have hsame : Guarantee A w w := ⟨id, fun _ => id⟩
  obtain ⟨-, rfl⟩ | h := h
  · exact hsame
  · cases op with
    | makeDirectory =>
      obtain ⟨-, rfl⟩ := h
      exact ⟨id, fun _ => id⟩
    | writeProgress l =>
      obtain ⟨-, rfl⟩ := h
      exact guarantee_progress (hop l rfl)
    | publishImmutable f d =>
      have hd (l) (hl : d = .ledger l) : Sound A l w := by
        subst hl
        exact hop l rfl
      obtain ⟨hf, ⟨-, c, hc, rfl⟩ | ⟨-, rfl⟩⟩ | ⟨-, -, rfl⟩ := h
      · refine guarantee_create hf fun l hl => ?_
        obtain rfl | rfl := hc
        · cases hl
        · exact hd l (Option.some.inj hl)
      · exact guarantee_create hf fun l hl => hd l (Option.some.inj hl)
      · exact hsame
    | immutableGrowth f d =>
      obtain ⟨-, -, rfl⟩ := h
      exact hsame
    | jobDirectory =>
      obtain ⟨-, rfl⟩ := h
      exact hsame
    | writeQuotaGuard =>
      obtain ⟨-, rfl⟩ := h
      exact hsame
    | read f =>
      obtain ⟨-, rfl⟩ := h
      exact hsame
    | readProgress =>
      obtain ⟨-, rfl⟩ := h
      exact hsame
    | embedQuery =>
      obtain ⟨-, rfl⟩ := h
      exact hsame

/-! ### The calls -/

/-- What no call undoes. -/
def Lasting (A : Audit V σ) (P : AuditDirectory V σ → Prop) : Prop := ∀ w w', Guarantee A w w' → P w → P w'

/-- The audit `A` with the published vector `v`. -/
def At (A : Audit V σ) (v : V) (w : AuditDirectory V σ) : Prop := AuditInv A w ∧ w.Published v

theorem lasting_inv : Lasting A (AuditInv A) := fun _ _ h hinv => h.inv hinv

theorem lasting_at : Lasting A (At A v) := fun _ _ h hat => ⟨h.inv hat.1, h.vector v hat.2⟩

theorem lasting_sound : Lasting A (Sound A l) := fun _ _ h hl => hl.mono h.vector

theorem Lasting.and {P Q : AuditDirectory V σ → Prop} (hP : Lasting A P) (hQ : Lasting A Q) :
    Lasting A fun w => P w ∧ Q w := fun w w' h hw => ⟨hP w w' h hw.1, hQ w w' h hw.2⟩

theorem Lasting.const {p : Prop} : Lasting A fun _ => p := fun _ _ _ h => h

theorem Lasting.forall {κ : Type} {P : κ → AuditDirectory V σ → Prop} (h : ∀ k, Lasting A (P k)) :
    Lasting A fun w => ∀ k, P k w := fun w w' hG hw k => h k w w' hG (hw k)

theorem Lasting.imp {p : Prop} {P : AuditDirectory V σ → Prop} (h : Lasting A P) : Lasting A fun w => p → P w :=
  fun w w' hG hw hp => h w w' hG (hw hp)

theorem Lasting.stable {P : AuditDirectory V σ → Prop} (h : Lasting A P) : Stable (fun _ : ι => Guarantee A) i P :=
  Stable.of_step fun _ w w' _ hG hw => h w w' hG hw

variable {α β : Type} {P : AuditDirectory V σ → Prop} {Q : α → AuditDirectory V σ → Prop}
  {R : β → AuditDirectory V σ → Prop}

/-- From `P` the task gives out what `Q` says, unless it raises. -/
abbrev Meets (A : Audit V σ) (i : ι) (P : AuditDirectory V σ → Prop) (task : AuditTask V σ α)
    (Q : α → AuditDirectory V σ → Prop) : Prop :=
  Ends serveAudit (fun _ : ι => Guarantee A) i P task Q fun _ _ => True

namespace Meets

theorem raises {e : AuditFailure} : Meets A i P (throw e : AuditTask V σ α) Q :=
  Ends.throw (fun _ _ => trivial) (Lasting.const (A := A)).stable

theorem gives {a : α} (hQ : Lasting A (Q a)) (h : ∀ w, P w → Q a w) : Meets A i P (pure a : AuditTask V σ α) Q :=
  Ends.pure h hQ.stable

theorem andThen {task : AuditTask V σ α} {f : α → AuditTask V σ β} (h : Meets A i P task Q)
    (hf : ∀ a, Meets A i (Q a) (f a) R) : Meets A i P (task >>= f) R :=
  Ends.bind h hf fun _ => (Lasting.const (A := A)).stable

/-- A fact about the result that no directory changes. -/
theorem fact {task : AuditTask V σ α} {p : Prop} (h : p → Meets A i P task Q) : Meets A i (fun w => P w ∧ p) task Q :=
  fun w hw => h hw.2 w hw.1

/-- From less. -/
theorem weaken {task : AuditTask V σ α} (P' : AuditDirectory V σ → Prop) (h : Meets A i P' task Q)
    (hP : ∀ w, P w → P' w) : Meets A i P task Q := Ends.conseq h hP (fun _ _ hw => hw) fun _ _ hw => hw

theorem asks {op : AuditOp V σ} {Q : AuditReply V σ → AuditDirectory V σ → Prop} (hP : Lasting A P)
    (hop : ∀ l, op.written = some l → ∀ w, P w → Sound A l w) (hQ : ∀ r, Lasting A (Q r))
    (h : ∀ w r w', P w → P w' → serveAudit i w op r w' → Q r w') : Meets A i P (AuditTask.ask op) Q :=
  Ends.ask hP.stable (fun w r w' hw hserve =>
    have hG := serve_guarantee hserve fun l hl => hop l hl w hw
    ⟨hG, h w r w' hw (hP w w' hG hw) hserve⟩) fun r => (hQ r).stable

theorem performs {op : AuditOp V σ} {P' : AuditDirectory V σ → Prop} (hP : Lasting A P) (hP' : Lasting A P')
    (hop : ∀ l, op.written = some l → ∀ w, P w → Sound A l w)
    (h : ∀ w w', P w → P w' → serveAudit i w op .returned w' → P' w') :
    Meets A i P (AuditTask.perform op) fun _ => P' := by
  refine andThen (asks (Q := fun r w => r = .returned → P' w) hP hop (fun _ => hP'.imp) ?_) fun r => ?_
  · rintro w r w' hw hw' hserve rfl
    exact h w w' hw hw' hserve
  · cases r with
    | returned => exact gives hP' fun w hw => hw rfl
    | _ => exact raises

/-- An operation that keeps what is known. -/
theorem keeps {op : AuditOp V σ} (hP : Lasting A P) (hop : ∀ l, op.written = some l → ∀ w, P w → Sound A l w) :
    Meets A i P (AuditTask.perform op) fun _ => P :=
  performs hP hP hop fun _ _ _ hw' _ => hw'

theorem refuses {c : Prop} [Decidable c] {message : String} {f : Unit → AuditTask V σ β}
    (h : ¬ c → Meets A i P (f ()) R) : Meets A i P (AuditTask.refuseIf c message >>= f) R := by
  unfold AuditTask.refuseIf
  by_cases hc : c
  · rw [if_pos hc]
    exact raises
  · rw [if_neg hc]
    exact h hc

theorem validates {f : AuditLedger σ → AuditTask V σ β} (h : l.valid = true → Meets A i P (f l) R) :
    Meets A i P (AuditTask.validate l >>= f) R := by
  unfold AuditTask.validate
  split
  · rename_i hvalid
    exact h hvalid
  · exact raises

end Meets

theorem readQueryVector_meets (hP : Lasting A P) :
    Meets A i P AuditTask.readQueryVector fun v w => P w ∧ w.Published v := by
  refine Meets.andThen (Meets.asks (Q := fun r w => P w ∧ ∀ v, r = .file (some (some (.vector v))) → w.Published v) hP
    (fun _ h => by cases h) (fun r => hP.and (Lasting.forall fun v => Lasting.imp fun _ _ hG hv => hG.vector v hv)) ?_)
    fun r => ?_
  · rintro w r w' - hw' (⟨rfl, -⟩ | ⟨rfl, rfl⟩)
    · exact ⟨hw', fun v h => by cases h⟩
    · exact ⟨hw', fun v h => AuditReply.file.inj h⟩
  · cases r with
    | file c =>
      obtain _ | _ | ⟨v⟩ | _ | _ := c
      case some.some.vector => exact Meets.gives (hP.and fun _ _ hG hv => hG.vector v hv) fun w hw => ⟨hw.1, hw.2 v rfl⟩
      all_goals exact Meets.raises
    | _ => exact Meets.raises

theorem requiredJobDirectory_meets (hP : Lasting A P) : Meets A i P AuditTask.requiredJobDirectory fun _ => P := by
  refine Meets.andThen (Meets.asks (Q := fun _ => P) hP (fun _ h => by cases h) (fun _ => hP) fun _ _ _ _ hw' _ => hw')
    fun r => ?_
  cases r with
  | directory present =>
    cases present with
    | true => exact Meets.gives hP fun _ hw => hw
    | false => exact Meets.raises
  | _ => exact Meets.raises

/-! ### The store -/

/-- What `load` and `complete` give out. -/
structure Loaded (A : Audit V σ) (expected : List ExpectedContract) (v : V) (x : LoadedAudit V σ) : Prop where
  vector : x.queryVector = v
  scored : ScoredBy A v x.ledger
  contracts : x.ledger.expectedContracts = expected
  artifact : x.artifactSha256 ≠ none → x.ledger.completedContracts.length = expected.length

theorem complete_length (h : l.valid = true) (hstatus : l.status = .complete) :
    l.completedContracts.length = l.expectedContracts.length := by
  simp only [AuditLedger.valid, Bool.and_eq_true, decide_eq_true_eq, List.length_map] at h
  exact h.2 hstatus

variable {expected : List ExpectedContract}

theorem loadComplete_meets (jobId artifactSha256 : Str) :
    Meets A i (At A v) (A.loadComplete expected v jobId artifactSha256) fun x w => At A v w ∧ Loaded A expected v x := by
  refine Meets.refuses fun _ => Meets.andThen (Meets.asks
    (Q := fun r w => At A v w ∧ ∀ l, r = .file (some (some (.ledger l))) → Sound A l w) lasting_at
    (fun _ h => by cases h) (fun r => lasting_at.and (Lasting.forall fun l => lasting_sound.imp)) ?_) fun r => ?_
  · rintro w r w' - hw' (⟨rfl, -⟩ | ⟨rfl, rfl⟩)
    · exact ⟨hw', fun l h => by cases h⟩
    · exact ⟨hw', fun l h => hw'.1 l (.inr ⟨artifactSha256, AuditReply.file.inj h⟩)⟩
  · cases r with
    | file c =>
      obtain _ | _ | _ | _ | ⟨l⟩ := c
      case some.some.ledger =>
        refine Meets.weaken (fun w => At A v w ∧ ScoredBy A v l) (Meets.fact fun hl => ?_)
          fun w hw => ⟨hw.1, (hw.2 l rfl).scoredBy hw.1.2⟩
        refine Meets.refuses fun _ => Meets.validates fun hvalid => Meets.refuses fun hstale => Meets.refuses fun _ =>
          Meets.refuses fun hstatus => Meets.gives (lasting_at.and Lasting.const) fun w hw =>
            ⟨hw, rfl, hl, ?_, fun _ => ?_⟩
        · exact not_not.1 (not_or.1 hstale).2
        · rw [complete_length hvalid (not_not.1 hstatus), not_not.1 (not_or.1 hstale).2]
      all_goals exact Meets.raises
    | _ => exact Meets.raises

theorem loadProgress_meets : Meets A i (At A v) (A.loadProgress expected v)
    fun o w => At A v w ∧ ∀ x, o = some x → Loaded A expected v x := by
  refine Meets.andThen (Meets.asks (Q := fun r w => At A v w ∧ ∀ l, r = .progress (some l) → Sound A l w) lasting_at
    (fun _ h => by cases h) (fun r => lasting_at.and (Lasting.forall fun l => lasting_sound.imp)) ?_) fun r => ?_
  · rintro w r w' - hw' (⟨rfl, -⟩ | ⟨rfl, rfl⟩)
    · exact ⟨hw', fun l h => by cases h⟩
    · exact ⟨hw', fun l h => hw'.1 l (.inl (AuditReply.progress.inj h))⟩
  · cases r with
    | progress o =>
      cases o with
      | none => exact Meets.gives (lasting_at.and Lasting.const) fun w hw => ⟨hw.1, fun x h => by cases h⟩
      | some l =>
        refine Meets.weaken (fun w => At A v w ∧ ScoredBy A v l) (Meets.fact fun hl => ?_)
          fun w hw => ⟨hw.1, (hw.2 l rfl).scoredBy hw.1.2⟩
        refine Meets.validates fun _ => Meets.refuses fun _ => Meets.refuses fun hstale => Meets.refuses fun _ =>
          Meets.gives (lasting_at.and Lasting.const) fun w hw => ⟨hw, ?_⟩
        rintro x h
        cases h
        exact ⟨rfl, hl, not_not.1 (not_or.1 hstale).2, fun h => absurd rfl h⟩
    | _ => exact Meets.raises

theorem load_meets : Meets A i (AuditInv A) (A.load expected)
    fun o w => AuditInv A w ∧ ∀ x, o = some x → w.Published x.queryVector ∧ Loaded A expected x.queryVector x := by
  have hpost (o : Option (LoadedAudit V σ)) : Lasting A fun w =>
      AuditInv A w ∧ ∀ x, o = some x → w.Published x.queryVector ∧ Loaded A expected x.queryVector x :=
    lasting_inv.and (Lasting.forall fun x => Lasting.imp fun _ _ hG h => ⟨hG.vector _ h.1, h.2⟩)
  have hfound {v : V} {x : LoadedAudit V σ} {w : AuditDirectory V σ} (hat : At A v w) (hx : Loaded A expected v x) :
      w.Published x.queryVector ∧ Loaded A expected x.queryVector x := by
    obtain rfl := hx.vector
    exact ⟨hat.2, hx⟩
  refine Meets.andThen (Meets.asks (Q := fun _ => AuditInv A) lasting_inv (fun _ h => by cases h) (fun _ => lasting_inv)
    fun _ _ _ _ hw' _ => hw') fun r => ?_
  cases r with
  | directory present =>
    cases present with
    | false => exact Meets.gives (hpost none) fun w hw => ⟨hw, fun x h => by cases h⟩
    | true =>
      refine Meets.andThen (readQueryVector_meets lasting_inv) fun v => ?_
      refine Meets.andThen (Meets.asks (Q := fun _ => At A v) lasting_at (fun _ h => by cases h) (fun _ => lasting_at)
        fun _ _ _ _ hw' _ => hw') fun r => ?_
      cases r with
      | file c =>
        obtain _ | _ | _ | ⟨jobId, artifactSha256⟩ | _ := c
        case none =>
          exact Ends.conseq loadProgress_meets (fun _ h => h)
            (fun o w h => ⟨h.1.1, fun x hx => hfound h.1 (h.2 x hx)⟩) fun _ _ h => h
        case some.some.marker =>
          refine Meets.andThen (loadComplete_meets jobId artifactSha256) fun x =>
            Meets.gives (hpost (some x)) fun w hw => ⟨hw.1.1, ?_⟩
          rintro x' h
          cases h
          exact hfound hw.1 hw.2
        all_goals exact Meets.raises
      | _ => exact Meets.raises
  | _ => exact Meets.raises

theorem scoredBy_opening : ScoredBy A v (A.opening expected v) := ⟨rfl, rfl, rfl, rfl⟩

/-- The vector is published before the first ledger. -/
theorem begin_meets : Meets A i (AuditInv A) (A.begin expected v)
    fun l w => At A v w ∧ l = A.opening expected v := by
  have hpublish : Meets A i (AuditInv A) (AuditTask.perform (.publishImmutable .queryVector (.vector v)))
      fun _ => At A v := by
    refine Meets.performs lasting_inv lasting_at (fun _ h => by cases h) ?_
    rintro w w' - hinv (⟨h, -⟩ | ⟨-, ⟨h, -⟩ | ⟨-, rfl⟩⟩ | ⟨hf, -, rfl⟩)
    · cases h
    · cases h
    · have hfile : Function.update w.files .queryVector (some (some (.vector v))) .queryVector = some (some (.vector v)) :=
        Function.update_self ..
      exact ⟨hinv, hfile⟩
    · exact ⟨hinv, hf⟩
  have hkeep {op : AuditOp V σ} (hop : op.written = none) :
      Meets A i (AuditInv A) (AuditTask.perform op) fun _ => AuditInv A :=
    Meets.keeps lasting_inv fun _ h => by rw [hop] at h; cases h
  have hrest : Meets A i (AuditInv A) (do
      AuditTask.perform .writeQuotaGuard
      AuditTask.perform .makeDirectory
      AuditTask.perform (.publishImmutable .queryVector (.vector v))
      AuditTask.perform (.writeProgress (A.opening expected v))
      pure (A.opening expected v)) fun l w => At A v w ∧ l = A.opening expected v := by
    refine Meets.andThen (hkeep rfl) fun _ => Meets.andThen (hkeep rfl) fun _ => Meets.andThen hpublish fun _ => ?_
    refine Meets.andThen (Meets.keeps lasting_at ?_) fun _ =>
      Meets.gives (lasting_at.and Lasting.const) fun w hw => ⟨hw, rfl⟩
    rintro l h w hw
    cases h
    exact ⟨v, hw.2, scoredBy_opening⟩
  refine Meets.refuses fun _ => Meets.validates fun _ => ?_
  refine Meets.andThen (Meets.asks (Q := fun _ => AuditInv A) lasting_inv (fun _ h => by cases h) (fun _ => lasting_inv)
    fun _ _ _ _ hw' _ => hw') fun r => ?_
  cases r with
  | directory present =>
    cases present with
    | true => exact Meets.andThen (hkeep rfl) fun _ => hrest
    | false => exact hrest
  | _ => exact Meets.raises

/-- One more contract, the next of the expected ones. -/
theorem ScoredBy.snoc {expected : ExpectedContract} {contract : ContractScore σ} (h : ScoredBy A v l)
    (hnext : l.expectedContracts[l.completedContracts.length]? = some expected)
    (hscore : A.scoreContract v expected = .ok contract) : ScoredBy A v { l with
      completedContracts := l.completedContracts ++ [contract]
      scoredEmbeddingRows := l.scoredEmbeddingRows + contract.scoredEmbeddingRows
      exactBlocks := l.exactBlocks + contract.exactBlocks } where
  identity := h.identity
  scored := by
    rw [List.length_append, List.length_singleton, List.take_add_one, hnext, List.map_append, List.map_append, h.scored]
    simp [hscore]
  rows := by simp [h.rows]
  blocks := by simp [h.blocks]

theorem checkpoint_meets {e : ExpectedContract} {contract : ContractScore σ} (h : ScoredBy A v l)
    (hnext : l.expectedContracts[l.completedContracts.length]? = some e) (hscore : A.scoreContract v e = .ok contract) :
    Meets A i (At A v) (A.checkpoint l contract) fun next w => At A v w ∧ ScoredBy A v next ∧
      next.expectedContracts = l.expectedContracts ∧
      next.completedContracts.length = l.completedContracts.length + 1 := by
  refine Meets.andThen (requiredJobDirectory_meets lasting_at) fun _ => Meets.refuses fun _ => Meets.validates fun _ => ?_
  refine Meets.andThen (Meets.keeps lasting_at fun _ h => by cases h) fun _ => ?_
  refine Meets.andThen (Meets.keeps lasting_at ?_) fun _ =>
    Meets.gives (lasting_at.and Lasting.const) fun w hw => ⟨hw, h.snoc hnext hscore, rfl, List.length_append ..⟩
  rintro next hwritten w hw
  cases hwritten
  exact ⟨v, hw.2, h.snoc hnext hscore⟩

/-- The loop, by the contracts that are left of this call. -/
theorem scoreContracts_meets {todo : List ExpectedContract} (h : ScoredBy A v l)
    (htodo : ∃ later, l.expectedContracts.drop l.completedContracts.length = todo ++ later) :
    Meets A i (At A v) (A.scoreContracts v todo l) fun next w => At A v w ∧ ScoredBy A v next ∧
      next.expectedContracts = l.expectedContracts ∧
      next.completedContracts.length = l.completedContracts.length + todo.length := by
  induction todo generalizing l with
  | nil => exact Meets.gives (lasting_at.and Lasting.const) fun w hw => ⟨hw, h, rfl, rfl⟩
  | cons e rest ih =>
    obtain ⟨later, hlater⟩ := htodo
    have hnext : l.expectedContracts[l.completedContracts.length]? = some e := by
      rw [← List.head?_drop, hlater]
      rfl
    unfold Audit.scoreContracts
    cases hscore : A.scoreContract v e with
    | error err => exact Meets.raises
    | ok contract =>
      refine Meets.andThen (checkpoint_meets h hnext hscore) fun next => ?_
      refine Meets.fact fun ⟨hscored, hsame, hlen⟩ => ?_
      have hrest : next.expectedContracts.drop next.completedContracts.length = rest ++ later := by
        rw [hsame, hlen, ← List.tail_drop, hlater]
        rfl
      refine Ends.conseq (ih hscored ⟨later, hrest⟩) (fun _ h => h) (fun l' w hl' => ?_) fun _ _ h => h
      obtain ⟨hat, hscored', hsame', hlen'⟩ := hl'
      refine ⟨hat, hscored', hsame'.trans hsame, ?_⟩
      rw [hlen', hlen, List.length_cons]
      omega

theorem complete_meets (h : ScoredBy A v l) : Meets A i (At A v) (A.complete l)
    fun x w => At A v w ∧ Loaded A l.expectedContracts v x ∧ x.artifactSha256 ≠ none := by
  have hcomplete : ScoredBy A v { l with status := .complete } := ⟨h.identity, h.scored, h.rows, h.blocks⟩
  have hkeep {op : AuditOp V σ} (hop : op.written = none) :
      Meets A i (At A v) (AuditTask.perform op) fun _ => At A v :=
    Meets.keeps lasting_at fun _ h => by rw [hop] at h; cases h
  refine Meets.andThen (requiredJobDirectory_meets lasting_at) fun _ =>
    Meets.validates fun hvalid => Meets.refuses fun _ => ?_
  refine Meets.andThen (hkeep rfl) fun _ => Meets.andThen (hkeep rfl) fun _ => Meets.andThen (hkeep rfl) fun _ => ?_
  refine Meets.andThen (Meets.keeps lasting_at ?_) fun _ => Meets.andThen (hkeep rfl) fun _ => ?_
  · rintro l' hl' w hw
    cases hl'
    exact ⟨v, hw.2, hcomplete⟩
  refine Meets.andThen (readQueryVector_meets lasting_at) fun v' => Meets.refuses fun _ =>
    Meets.gives (lasting_at.and Lasting.const) fun w hw =>
      ⟨hw.1, ⟨hw.2.unique hw.1.2, hcomplete, rfl, fun _ => ?_⟩, ?_⟩
  · exact complete_length hvalid rfl
  · exact Option.some_ne_none _

/-! ### What an audit gives out -/

/-- A result with the scores of the first contracts by `v`: all of them, or at least those of one call. -/
structure Answers (A : Audit V σ) (expected : List ExpectedContract) (v : V) (result : ExhaustiveResult σ) : Prop where
  contracts : result.contracts.map .ok = (expected.take result.contracts.length).map (A.scoreContract v)
  rows : result.scoredRows = (result.contracts.map (·.scoredEmbeddingRows)).sum
  blocks : result.exactBlocks = (result.contracts.map (·.exactBlocks)).sum
  complete : result.status = .complete → result.contracts.length = expected.length
  running : result.status = .progress →
    Audit.contractsPerCall ≤ result.contracts.length ∧ result.contracts.length < expected.length

theorem lasting_answers {result : ExhaustiveResult σ} :
    Lasting A fun w => ∃ v, w.Published v ∧ Answers A expected v result :=
  fun _ _ hG h => h.imp fun v hv => ⟨hG.vector v hv.1, hv.2⟩

theorem resultFromAudit_meets {x : LoadedAudit V σ} {resumed : Bool} (hx : Loaded A expected v x)
    (hrunning : x.artifactSha256 = none → Audit.contractsPerCall ≤ x.ledger.completedContracts.length ∧
      x.ledger.completedContracts.length < expected.length) :
    Meets A i (At A v) (Audit.resultFromAudit x resumed)
      fun result w => ∃ v, w.Published v ∧ Answers A expected v result := by
  refine Meets.refuses fun hcomplete => Meets.refuses fun hprogress =>
    Meets.gives lasting_answers fun w hw => ⟨v, hw.2, ?_, hx.scored.rows, hx.scored.blocks, fun h => ?_, fun h => ?_⟩
  · rw [← hx.contracts]
    exact hx.scored.scored
  · exact hx.artifact fun hnone => hcomplete ⟨h, hnone⟩
  · exact hrunning (not_not.1 fun hsome => hprogress ⟨h, hsome⟩)

theorem proceed_meets {resumed : Bool} (h : ScoredBy A v l) (hexpected : l.expectedContracts = expected) :
    Meets A i (At A v) (A.proceed expected l v resumed)
      fun result w => ∃ v, w.Published v ∧ Answers A expected v result := by
  subst hexpected
  refine Meets.andThen (scoreContracts_meets h ⟨_, (List.take_append_drop ..).symm⟩) fun next => ?_
  refine Meets.fact fun ⟨hscored, hsame, hlen⟩ => ?_
  split
  · refine Meets.andThen (complete_meets hscored) fun x => Meets.fact fun ⟨hx, hartifact⟩ => ?_
    rw [hsame] at hx
    exact resultFromAudit_meets hx fun hnone => absurd hnone hartifact
  · rename_i hopen
    refine resultFromAudit_meets ⟨rfl, hscored, hsame, fun h => absurd rfl h⟩ fun _ => ?_
    rw [List.length_take, List.length_drop] at hlen
    have hle : next.completedContracts.length ≤ l.expectedContracts.length := by
      have := congrArg List.length hscored.scored
      rw [List.length_map, List.length_map, List.length_take, hsame] at this
      omega
    dsimp only
    unfold Audit.contractsPerCall at hlen ⊢
    omega

theorem loadQueryVector_meets : Meets A i (AuditInv A) (Audit.loadQueryVector (σ := σ)) fun _ : Option V => AuditInv A := by
  have hask (op : AuditOp V σ) (hop : op.written = none) : Meets A i (AuditInv A) (AuditTask.ask op) fun _ => AuditInv A :=
    Meets.asks lasting_inv (fun _ h => by rw [hop] at h; cases h) (fun _ => lasting_inv) fun _ _ _ _ hw' _ => hw'
  refine Meets.andThen (hask _ rfl) fun r => ?_
  cases r with
  | directory present =>
    cases present with
    | false => exact Meets.gives lasting_inv fun _ hw => hw
    | true =>
      refine Meets.andThen (hask _ rfl) fun r => ?_
      cases r with
      | file c =>
        obtain _ | _ | _ | _ | _ := c
        case none => exact Meets.gives lasting_inv fun _ hw => hw
        case some.some.vector => exact Meets.gives lasting_inv fun _ hw => hw
        all_goals exact Meets.raises
      | _ => exact Meets.raises
  | _ => exact Meets.raises

theorem start_meets : Meets A i (AuditInv A) (A.start expected)
    fun result w => ∃ v, w.Published v ∧ Answers A expected v result := by
  have hgo (v : V) (resumed : Bool) : Meets A i (AuditInv A) (do
      let l ← A.begin expected v
      A.proceed expected l v resumed) fun result w => ∃ v, w.Published v ∧ Answers A expected v result := by
    refine Meets.andThen begin_meets fun l => Meets.fact ?_
    rintro rfl
    exact proceed_meets scoredBy_opening rfl
  refine Meets.andThen loadQueryVector_meets fun o => ?_
  cases o with
  | some v => exact hgo v true
  | none =>
    have hembed : Meets A i (AuditInv A) (Audit.embedQuery (σ := σ)) fun _ : V => AuditInv A := by
      refine Meets.andThen (Meets.asks (Q := fun _ => AuditInv A) lasting_inv (fun _ h => by cases h) (fun _ => lasting_inv)
        fun _ _ _ _ hw' _ => hw') fun r => ?_
      cases r with
      | vector v => exact Meets.gives lasting_inv fun _ hw => hw
      | _ => exact Meets.raises
    exact Meets.andThen hembed fun v => hgo v false

theorem exhaustiveScores_meets : Meets A i (AuditInv A) (A.exhaustiveScores expected)
    fun result w => ∃ v, w.Published v ∧ Answers A expected v result := by
  refine Meets.andThen load_meets fun o => ?_
  cases o with
  | none => exact Meets.weaken _ start_meets fun _ hw => hw.1
  | some x =>
    refine Meets.weaken (fun w => At A x.queryVector w ∧ Loaded A expected x.queryVector x) (Meets.fact fun hx => ?_)
      fun w hw => ⟨⟨hw.1, (hw.2 x rfl).1⟩, (hw.2 x rfl).2⟩
    dsimp only
    split
    · rename_i hartifact
      exact resultFromAudit_meets hx fun hnone => absurd hnone hartifact
    · exact proceed_meets hx.scored hx.contracts

end

/-- However many calls of one audit run at once, stop at a write or resume one another: what each gives out is what
the published vector scores, contract by contract in their order, and a call that does not end the audit has scored
at least the contracts of one call. -/
theorem exhaustive_scores {ι : Type} [DecidableEq ι] (A : Audit V σ) (expected : ι → List ExpectedContract)
    {c c' : Config (AuditOp V σ) (AuditReply V σ) (Except AuditFailure (ExhaustiveResult σ)) (AuditDirectory V σ) ι}
    (hworld : c.world = .empty V σ) (hprogs : ∀ i, c.progs i = (A.exhaustiveScores (expected i)).run)
    (hreach : Interleave.Reaches serveAudit c c') {i : ι} {result : ExhaustiveResult σ}
    (hdone : c'.progs i = .done (.ok result)) :
    ∃ v, c'.world.files .queryVector = some (some (.vector v)) ∧ Answers A (expected i) v result := by
  have hinv : AuditInv A c.world := by
    rw [hworld]
    rintro l (h | ⟨sha256, h⟩)
    · cases h
    · cases h
  have hwp (i : ι) : Wp serveAudit (fun _ : ι => Guarantee A) i (c.progs i) (fun r w => ∀ result, r = .ok result →
      ∃ v, w.Published v ∧ Answers A (expected i) v result) c.world := by
    rw [hprogs i]
    refine (exhaustiveScores_meets c.world hinv).mono fun r w hr => ?_
    rintro result rfl
    exact hr
  have hend := (Wp.reachable hwp hreach).1 i
  rw [hdone] at hend
  exact hend.result result rfl

/-! An audit of two contracts by two calls, to which the embedder gives different vectors: the first stops after its
first checkpoint, and the second takes over. -/

/-- The answers to a call to which the embedder gives `v`. -/
def answerAudit (v : V) (w : AuditDirectory V σ) : AuditOp V σ → AuditReply V σ × AuditDirectory V σ
  | .jobDirectory => (.directory w.present, w)
  | .makeDirectory => (.returned, { w with present := true })
  | .writeQuotaGuard => (.returned, w)
  | .read f => (.file (w.files f), w)
  | .readProgress => (.progress w.progress, w)
  | .writeProgress l => (.returned, { w with progress := some l })
  | .immutableGrowth f _ =>
    match w.files f with
    | none => (.returned, w)
    | some _ => (.refused, w)
  | .publishImmutable f d =>
    match w.files f with
    | none => (.returned, { w with files := Function.update w.files f (some (some d)) })
    | some _ => (.refused, w)
  | .embedQuery => (.vector v, w)

theorem serve_answerAudit {ι : Type} (i : ι) (v : V) (w : AuditDirectory V σ) (op : AuditOp V σ) :
    serveAudit i w op (answerAudit v w op).1 (answerAudit v w op).2 := by
  cases op with
  | makeDirectory => exact .inr ⟨.inr rfl, rfl⟩
  | writeProgress l => exact .inr ⟨.inr rfl, rfl⟩
  | embedQuery => exact .inr ⟨⟨v, rfl⟩, rfl⟩
  | immutableGrowth f d =>
    simp only [answerAudit]
    split
    · rename_i hf
      exact .inr ⟨rfl, .inl hf, rfl⟩
    · exact .inl ⟨rfl, rfl⟩
  | publishImmutable f d =>
    simp only [answerAudit]
    split
    · rename_i hf
      exact .inr (.inl ⟨hf, .inr ⟨rfl, rfl⟩⟩)
    · exact .inl ⟨rfl, rfl⟩
  | _ => exact .inr ⟨rfl, rfl⟩

def pairAudit : Audit Nat Nat where
  ops :=
    { isFinite := fun _ => true
      lt := fun a b => decide (a < b)
      isClose := fun a b => decide (a = b)
      fsum := fun xs => xs.foldr (fun a b => a + b) 0
      divBy := fun a n => a / n
      half := fun a => a / 2 }
  scoredRows := fun v revisionId => [⟨0, revisionId, "n".toList, .title, v⟩]
  normalized := fun _ => true
  queryVectorSha256 := fun v => (Nat.repr v).toList
  ledgerSha256 := fun _ => "l".toList
  identity := ⟨"audit".toList, "g".toList, "q".toList, "p".toList, .maxChild, none⟩

def pairContracts : List ExpectedContract := [⟨"c".toList, 1⟩, ⟨"d".toList, 1⟩]

/-- The run of the two calls. -/
def takenOver : Config (AuditOp Nat Nat) (AuditReply Nat Nat) (Except AuditFailure (ExhaustiveResult Nat))
    (AuditDirectory Nat Nat) Bool :=
  Config.turns (fun i w op => answerAudit (if i then 9 else 7) w op)
    ⟨.empty Nat Nat, fun _ => (pairAudit.exhaustiveScores pairContracts).run⟩
    (List.replicate 11 false ++ List.replicate 14 true)

/-- What a call has given out. -/
def given {ω ρ α W ι ε : Type} (c : Config ω ρ (Except ε α) W ι) (i : ι) : Option α :=
  match c.progs i with
  | .done (.ok a) => some a
  | _ => none

theorem progs_of_given {ω ρ α W ι ε : Type} {c : Config ω ρ (Except ε α) W ι} {i : ι} {a : α} (h : given c i = some a) :
    c.progs i = .done (.ok a) := by
  unfold given at h
  split at h
  · rename_i heq
    rw [heq, Option.some.inj h]
  · cases h

theorem takenOver_scores : (given takenOver true).map (fun result =>
    (result.status, result.contracts.map (·.score), result.resumed)) = some (.complete, [7, 7], true) := by
  rfl

theorem exhaustive_scores_taken_over : ∃ result, takenOver.progs true = .done (.ok result) ∧
    result.contracts.map (·.score) = [7, 7] ∧ ∃ v, takenOver.world.files .queryVector = some (some (.vector v)) ∧
      Answers pairAudit pairContracts v result := by
  obtain ⟨result, hgiven, hscores⟩ := Option.map_eq_some_iff.1 takenOver_scores
  have hdone := progs_of_given hgiven
  refine ⟨result, hdone, congrArg (·.2.1) hscores, ?_⟩
  exact exhaustive_scores pairAudit (fun _ => pairContracts) rfl (fun _ => rfl)
    (reaches_turns (fun i w op => serve_answerAudit i _ w op) _ _) hdone

end CardRag.Search.Exhaustive
