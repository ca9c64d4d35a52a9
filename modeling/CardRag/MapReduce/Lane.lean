import CardRag.Lib.Runs
import CardRag.MapReduce.Ledger

/-! # Requests on a job (`ExperimentalMapReduceStore`, `_start`, `_resume`, `_advance`)

A request holds the lock of its job from the inspection to its end. Its durable effects are on record one by one:
`progress.json` is replaced, a receipt and a terminal marker are made once. A request that is stopped, by a crash or
by an exception, has done some of its effects. Checks that only read and refuse (the snapshot, the stored receipts,
the claim on the generation, quotas) are what the request is told: it is refused or not. -/

namespace CardRag.MapReduce

variable {σ : Type}

/-- The files of a job; an artifact is with its marker. -/
structure Job (σ : Type) where
  progress : Option (Ledger σ)
  receipts : List (Nat × Receipt)
  complete : Option (Ledger σ)
  cancelled : Option (Ledger σ)
  /-- Not on disk: every `provider.complete` so far, and whether the job had a marker then. -/
  calls : List (PendingProviderCall × Bool)

namespace Job

def empty : Job σ := ⟨none, [], none, none, []⟩

def terminal (j : Job σ) : Bool := j.complete.isSome || j.cancelled.isSome

/-- The durable counter. -/
def providerCallCount (j : Job σ) : Nat := (j.progress.map (·.providerCallCount)).getD 0

end Job

inductive Effect (σ : Type) where
  | progress (l : Ledger σ)
  | call (p : PendingProviderCall)
  | receipt (r : Receipt)
  | complete (l : Ledger σ)
  | cancelled (l : Ledger σ)

instance : Effects (Job σ) (Effect σ) where
  apply j
    | .progress l => { j with progress := some l }
    | .call p => { j with calls := j.calls ++ [(p, j.terminal)] }
    | .receipt r => { j with receipts := PyList.insert r.call.sequence r j.receipts }
    | .complete l => { j with complete := some l }
    | .cancelled l => { j with cancelled := some l }

abbrev Act (σ α : Type) := Program (Job σ) (Effect σ) String α

/-- A ledger that passes its validator. -/
def validated (P : Plan σ) (l : Ledger σ) : Act σ (Ledger σ) :=
  if l.Valid P then pure l else Program.raise "map-reduce ledger is invalid"

def writeProgress (l : Ledger σ) : Act σ Unit := Program.emit (.progress l)

section
variable (P : Plan σ)

/-- `begin`, after `_verify_minimum_job_budget`. -/
def beginJob : Act σ (Ledger σ) :=
  if P.units.length > P.profile.maximumJobProviderCalls then
    Program.raise "map plan exceeds sealed provider-call budget"
  else if (P.units.map fun u => (P.mapRequest u).2).sum > P.profile.maximumJobInputCharacters then
    Program.raise "map plan exceeds sealed input-character budget"
  else if P.units.length * P.profile.maximumCompletionTokens > P.profile.maximumJobOutputTokens then
    Program.raise "map plan exceeds sealed output-token budget"
  else do
    let l ← validated P Ledger.empty
    writeProgress l
    pure l

def reserveCall (l : Ledger σ) (p : PendingProviderCall) : Act σ (Ledger σ) :=
  if l.status ≠ .progress ∨ l.pendingCall.isSome then Program.raise "provider call reservation is not available"
  else if p.sequence ≠ l.receiptSha256s.length then Program.raise "provider call reservation sequence is stale"
  else if l.providerCallCount + 1 > P.profile.maximumJobProviderCalls then
    Program.raise "provider call budget exhausted before client call"
  else if l.providerInputCharacters + p.inputCharacters > P.profile.maximumJobInputCharacters then
    Program.raise "provider input-character budget exhausted before client call"
  else if l.accountedOutputTokens + p.maximumCompletionTokens > P.profile.maximumJobOutputTokens then
    Program.raise "provider output-token budget exhausted before client call"
  else do
    let next ← validated P { l with
      providerCallCount := l.providerCallCount + 1
      providerInputCharacters := l.providerInputCharacters + p.inputCharacters
      accountedOutputTokens := l.accountedOutputTokens + p.maximumCompletionTokens
      pendingCall := some p }
    writeProgress next
    pure next

/-- `publish_receipt`: a receipt that is there has to be this one. -/
def publishReceipt (l : Ledger σ) (r : Receipt) : Act σ Unit :=
  if l.pendingCall ≠ some r.call ∨ r.ofProfile = false then
    Program.raise "provider receipt differs from its reservation"
  else do
    match ← Program.look fun j => PyList.get? j.receipts r.call.sequence with
    | some r' => if r' = r then pure () else Program.raise "immutable map-reduce file differs"
    | none => Program.emit (.receipt r)

def pendingReceipt (l : Ledger σ) (j : Job σ) : Except String (Option Receipt) :=
  match l.pendingCall with
  | none => .ok none
  | some p =>
    match PyList.get? j.receipts p.sequence with
    | none => .ok none
    | some r => if r.call = p ∧ r.ofProfile then .ok (some r) else .error "pending provider receipt identity is stale"

def checkpointMap (l : Ledger σ) (result : MapUnitResult σ) (r : Receipt) : Act σ (Ledger σ) :=
  if l.pendingCall ≠ some r.call ∨ r.ofProfile = false then Program.raise "map receipt differs from its reservation"
  else if P.units[l.completedMaps.length]? ≠ some result.unitId then Program.raise "map checkpoint is out of order"
  else do
    let next ← validated P { l with
      completedMaps := l.completedMaps ++ [result]
      receiptSha256s := l.receiptSha256s ++ [result.receiptSha256]
      pendingCall := none }
    writeProgress next
    pure next

def checkpointReduce (l : Ledger σ) (result : ReduceBatchResult σ) (r : Receipt) : Act σ (Ledger σ) :=
  if l.pendingCall ≠ some r.call ∨ r.ofProfile = false then Program.raise "reduce receipt differs from its reservation"
  else match reductionState P l with
    | .error e => Program.raise e
    | .ok (.terminal _) => Program.raise "hierarchical reduce is already terminal"
    | .ok (.pending p) =>
      if result.roundIndex ≠ p.roundIndex ∨ result.batchIndex ≠ p.batchIndex ∨ result.inputSpanCount ≠ p.spans.length ∨
          result.inputSpanSha256 ≠ P.inputSha256 p.spans then Program.raise "reduce checkpoint is out of order"
      else do
        let next ← validated P { l with
          completedReductions := l.completedReductions ++ [result]
          receiptSha256s := l.receiptSha256s ++ [result.receiptSha256]
          pendingCall := none }
        let _ ← Program.ask fun _ => reductionState P next
        writeProgress next
        pure next

def commitReceipt (l : Ledger σ) (r : Receipt) : Act σ (Ledger σ) :=
  match l.pendingCall with
  | none => Program.raise "provider receipt has no durable reservation"
  | some p =>
    match p.coordinate with
    | .map _ =>
      match P.units[l.completedMaps.length]? with
      | none => Program.raise "tuple index out of range"
      | some unit => checkpointMap P l ⟨unit, P.mapSpans unit r, P.receiptSha256 r⟩ r
    | .reduce _ _ =>
      match reductionState P l with
      | .error e => Program.raise e
      | .ok (.terminal _) => Program.raise "reduce receipt follows terminal state"
      | .ok (.pending q) => checkpointReduce P l ⟨q.roundIndex, q.batchIndex, P.inputSha256 q.spans, q.spans.length,
          P.reduceSpans q.spans q.maximumOutputs r, P.receiptSha256 r⟩ r

def recoverPendingReceipt (l : Ledger σ) : Act σ (Ledger σ) := do
  match ← Program.ask (pendingReceipt l) with
  | none => pure l
  | some r => commitReceipt P l r

/-- `complete` -/
def completeJob (l : Ledger σ) : Act σ Unit :=
  match reductionState P l with
  | .error e => Program.raise e
  | .ok (.pending _) => Program.raise "map-reduce result is not terminal"
  | .ok (.terminal spans) => do
    let complete ← validated P { l with
      status := .complete
      reduceResult := some spans }
    Program.emit (.complete complete)

/-- `cancel` -/
def cancelJob (l : Ledger σ) : Act σ Unit := do
  let cancelled ← validated P { l with status := .cancelled }
  Program.emit (.cancelled cancelled)

def finalizeOrStatus (l : Ledger σ) : Act σ Unit :=
  if l.completedMaps.length = P.units.length then
    match reductionState P l with
    | .error e => Program.raise e
    | .ok (.terminal _) => completeJob P l
    | .ok (.pending _) => pure ()
  else pure ()

/-- `_advance`. The provider answers a call with what becomes its receipt, or with nothing that is taken. -/
def advance (answer : PendingProviderCall → Option Receipt) (l : Ledger σ) : Act σ Unit := do
  let recovered ← recoverPendingReceipt P l
  if l.pendingCall.isSome ∧ recovered.pendingCall = none then finalizeOrStatus P recovered
  else if recovered.pendingCall.isSome then pure ()
  else
    match ← Program.ask fun _ => nextCall P recovered with
    | none => completeJob P recovered
    | some p =>
      let reserved ← reserveCall P recovered p
      Program.emit (.call p)
      match answer p with
      | none => pure ()
      | some r =>
        publishReceipt reserved r
        let committed ← commitReceipt P reserved r
        finalizeOrStatus P committed

end

inductive Action where
  | start
  | poll
  | cancel
deriving DecidableEq

/-- A request on the job, what it meets, and after how many effects it stops if it does not come to its end. -/
structure Request where
  action : Action
  refused : Bool
  answer : PendingProviderCall → Option Receipt
  stopped : Option Nat

/-- The ledger of a job, of a new one where there is none. -/
def openJob (P : Plan σ) : Option (Ledger σ) → Act σ (Ledger σ)
  | none => beginJob P
  | some l => pure l

/-- `_start_locked` and `_resume_locked` -/
def serve (P : Plan σ) (q : Request) : Act σ Unit := do
  let job ← Program.look id
  if job.complete.isSome ∧ job.cancelled.isSome then Program.raise "map-reduce job has conflicting terminal markers"
  else if job.terminal then pure ()
  else if q.refused then Program.raise "request is refused"
  else
    let l ← openJob P job.progress
    if q.action = .cancel then
      let recovered ← recoverPendingReceipt P l
      cancelJob P recovered
    else advance P q.answer l

def step (P : Plan σ) (j : Job σ) (q : Request) : Job σ :=
  let es := (serve P q j).1
  Program.after j (es.take (q.stopped.getD es.length))

end CardRag.MapReduce
