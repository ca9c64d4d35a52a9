import CardRag.Core

/-! # The issuer rotation (`rotation.py`)

One issuer is assigned to each day of a schedule and channel, and the day has up to three runs. The
day row mirrors the last of its attempts. `claim` opens a day or its next attempt, `bind` records the
run of the current attempt and `complete` its result; each is one transaction. -/

namespace CardRag

/-- `run.status`. -/
inductive RunStatus where
  | running | succeeded | failed | noChange | interrupted
deriving DecidableEq, Repr

def RunStatus.text : RunStatus → Str
  | running => "running".toList
  | succeeded => "succeeded".toList
  | failed => "failed".toList
  | noChange => "no_change".toList
  | interrupted => "interrupted".toList

/-- `status in {"succeeded", "no_change", "failed"}`. -/
def RunStatus.isTerminal : RunStatus → Bool
  | succeeded | noChange | failed => true
  | running | interrupted => false

namespace Rotation

/-- A day of a schedule and channel. -/
structure Key where
  schedule : Str
  channel : Str
  day : Str
deriving DecidableEq, Repr

/-- A row of `issuer_rotation_day`. -/
structure DayRow where
  key : Key
  issuer : Str
  runId : Option Str
  resultJson : Option Str
deriving DecidableEq, Repr

/-- A row of `issuer_rotation_attempt`. -/
structure AttemptRow where
  key : Key
  attempt : Nat
  issuer : Str
  runId : Option Str
  resultJson : Option Str
deriving DecidableEq, Repr

/-- A row of `issuer_rotation`; the JSON lists are the lists they encode. -/
structure CycleRow where
  schedule : Str
  channel : Str
  remaining : List Str
  roster : List Str
deriving DecidableEq, Repr

/-- A row of `issuer_rotation_migration`. -/
structure MigrationRow where
  key : Key
  before : List Str
  after : List Str
deriving DecidableEq, Repr

structure Tables where
  days : List DayRow := []
  attempts : List AttemptRow := []
  cycles : List CycleRow := []
  migrations : List MigrationRow := []

/-- What a call reads besides its tables: the statuses of the runs and which of them are sealed. -/
structure Env where
  runStatus : Str → Option RunStatus
  sealed : Str → Bool

structure IssuerScope where
  pool : List Str
  selected : List Str
deriving DecidableEq, Repr

def issuerScope (pool selected : List Str) : Except Raised IssuerScope := do
  raiseIf (selected = [] ∨ ¬ selected.Nodup ∨ ¬ selected ⊆ pool)
    (valueError "issuer selection must be a nonempty subset of the configured pool")
  return ⟨pool, selected⟩

structure Assignment where
  scope : IssuerScope
  day : Str
  runId : Option Str := none
  result : Option Json := none
  attempt : Nat := 1

/-- `PartialExecutionError(reason, "scope")`. -/
def refusal (reason : String) : Raised :=
  ⟨.partialExecutionError, reason ++ ": stage=scope document_id=corpus"⟩

namespace Tables
variable (db : Tables)

def dayRow (k : Key) : Option DayRow := db.days.find? (·.key = k)

def attemptsOf (k : Key) : List AttemptRow := db.attempts.filter (·.key = k)

/-- `SELECT MAX(attempt) … WHERE` the key. -/
def maxAttempt (k : Key) : Option Nat := ((db.attemptsOf k).map (·.attempt)).max?

/-- `UPDATE issuer_rotation_day SET … WHERE` the key. -/
def updateDay (k : Key) (f : DayRow → DayRow) : Tables :=
  { db with days := db.days.map fun d => if d.key = k then f d else d }

/-- `UPDATE issuer_rotation_attempt SET … WHERE` the key and the attempt. -/
def updateAttempt (k : Key) (attempt : Nat) (f : AttemptRow → AttemptRow) : Tables :=
  { db with attempts := db.attempts.map fun a => if a.key = k ∧ a.attempt = attempt then f a else a }

def insertAttempt (a : AttemptRow) : Tables := { db with attempts := db.attempts ++ [a] }

def insertDay (d : DayRow) : Tables := { db with days := db.days ++ [d] }

/-- `INSERT OR REPLACE INTO issuer_rotation`. -/
def replaceCycle (c : CycleRow) : Tables :=
  { db with cycles := db.cycles.filter (fun r => ¬ (r.schedule = c.schedule ∧ r.channel = c.channel)) ++ [c] }

/-- `INSERT OR REPLACE INTO issuer_rotation_migration`. -/
def replaceMigration (m : MigrationRow) : Tables :=
  { db with migrations := db.migrations.filter (·.key ≠ m.key) ++ [m] }

end Tables

/-- The tables that `Rotation.__init__` leaves: a day from before attempts were recorded is its own
first attempt. -/
def migrateAttempts (db : Tables) : Tables :=
  { db with attempts := db.attempts ++
      (db.days.filter fun d => db.attemptsOf d.key = []).map fun d => ⟨d.key, 1, d.issuer, d.runId, d.resultJson⟩ }

section
variable (schedule channel : Str)

/-- The result of a run that ended without reporting to the rotation. -/
def reconciledResult (status : RunStatus) (runId : Str) : Str :=
  (Json.obj [("rotation_reconciled".toList, .bool true), ("run_id".toList, .str runId),
    ("status".toList, .str status.text)]).render

/-- The result of the day's run, from its status when it was not reported, and the tables with it. -/
def reconcile (env : Env) (row : DayRow) (attempt : Nat) (db : Tables) : Option Str × Tables :=
  match row.resultJson, row.runId.bind fun r => (env.runStatus r).map (r, ·) with
  | none, some (runId, status) =>
    if status.isTerminal then
      let result := reconciledResult status runId
      (some result, (db.updateDay row.key fun d => { d with resultJson := some result }).updateAttempt row.key attempt
        fun a => { a with resultJson := some result })
    else (none, db)
  | result, _ => (result, db)

/-- `claim` on a day that has a row. -/
def claimAgain (env : Env) (pool : List Str) (row : DayRow) (db : Tables) : Except Raised (Assignment × Tables) := do
  raiseIf (row.issuer ∉ pool) (refusal "rotation_assigned_issuer_disabled")
  let attempt := (db.maxAttempt row.key).getD 1
  let (result, db) := reconcile env row attempt db
  match result with
  | some _ => do
    raiseIf (3 ≤ attempt) (refusal "rotation_daily_attempt_limit")
    let db := (db.updateDay row.key fun d => { d with runId := none, resultJson := none }).insertAttempt
      ⟨row.key, attempt + 1, row.issuer, none, none⟩
    let scope ← issuerScope pool [row.issuer]
    return (⟨scope, row.key.day, none, none, attempt + 1⟩, db)
  | none => do
    let scope ← issuerScope pool [row.issuer]
    return (⟨scope, row.key.day, row.runId, none, attempt⟩, db)

/-- The day has a sealed run without a result that is not known to have ended. -/
def Unresolved (env : Env) (d : DayRow) : Prop :=
  d.key.schedule = schedule ∧ d.key.channel = channel ∧ d.resultJson = none ∧
    ∃ runId ∈ d.runId, env.sealed runId = true ∧ (env.runStatus runId).any (·.isTerminal) = false

instance (env : Env) (d : DayRow) : Decidable (Unresolved schedule channel env d) := by
  unfold Unresolved; infer_instance

def cycleRow (db : Tables) : Option CycleRow := db.cycles.find? fun c => c.schedule = schedule ∧ c.channel = channel

/-- The issuers left over from the last claim that are still in the pool. -/
def carried (pool : List Str) (db : Tables) : List Str :=
  (((cycleRow schedule channel db).map (·.remaining)).getD []).filter (· ∈ pool)

/-- `claim` on a day without a row. -/
def claimFirst (env : Env) (pool : List Str) (day : Str) (db : Tables) : Except Raised (Assignment × Tables) := do
  raiseIf (∃ d ∈ db.days, Unresolved schedule channel env d) (refusal "rotation_publication_reconciliation_required")
  let key : Key := ⟨schedule, channel, day⟩
  let cycle := cycleRow schedule channel db
  let roster := (cycle.map (·.roster)).getD pool
  let remaining := carried schedule channel pool db
  let db := if cycle.isSome ∧ roster ≠ pool then db.replaceMigration ⟨key, roster, pool⟩ else db
  let roster := if remaining = [] then pool else roster
  match if remaining = [] then pool else remaining with
  | [] => throw ⟨.indexError, "pop from empty list"⟩
  | issuer :: remaining => do
    let db := ((db.replaceCycle ⟨schedule, channel, remaining, roster⟩).insertDay ⟨key, issuer, none, none⟩).insertAttempt
      ⟨key, 1, issuer, none, none⟩
    let scope ← issuerScope pool [issuer]
    return (⟨scope, day, none, none, 1⟩, db)

/-- The body of the transaction of `claim(pool, now=…)`; `day` is the date of `now` in Seoul. -/
def claim (env : Env) (pool : List Str) (day : Str) (db : Tables) : Except Raised (Assignment × Tables) :=
  match db.dayRow ⟨schedule, channel, day⟩ with
  | some row => claimAgain env pool row db
  | none => claimFirst schedule channel env pool day db

/-- `bind(assignment, run_id)`: the assignment afterwards, and the tables. -/
def bind (assignment : Assignment) (runId : Str) (db : Tables) : Except Raised (Assignment × Tables) := do
  let key : Key := ⟨schedule, channel, assignment.day⟩
  raiseIf (assignment.runId ≠ none ∧ assignment.runId ≠ some runId) (valueError "rotation run binding changed")
  raiseIf (db.dayRow key = none ∨ db.maxAttempt key ≠ some assignment.attempt)
    (valueError "rotation attempt binding changed")
  return ({ assignment with runId := some runId },
    (db.updateDay key fun d => { d with runId := some runId }).updateAttempt key assignment.attempt
      fun a => { a with runId := some runId })

def complete (assignment : Assignment) (result : Json) (db : Tables) : Except Raised (Assignment × Tables) := do
  let key : Key := ⟨schedule, channel, assignment.day⟩
  let payload := result.render
  raiseIf (db.dayRow key = none ∨ db.maxAttempt key ≠ some assignment.attempt)
    (valueError "rotation attempt completion changed")
  return ({ assignment with result := some result },
    (db.updateDay key fun d => { d with resultJson := some payload }).updateAttempt key assignment.attempt
      fun a => { a with resultJson := some payload })

end

/-- The calls of a `Rotation(schedule, channel)`. -/
inductive Call where
  | claim (env : Env) (pool : List Str) (day : Str)
  | bind (assignment : Assignment) (runId : Str)
  | complete (assignment : Assignment) (result : Json)

/-- The body of the call's transaction. -/
def Call.body (schedule channel : Str) (db : Tables) : Call → Except Raised (Assignment × Tables)
  | claim env pool day => Rotation.claim schedule channel env pool day db
  | bind assignment runId => Rotation.bind schedule channel assignment runId db
  | complete assignment result => Rotation.complete schedule channel assignment result db

/-- `with state.transaction()`: what was written is rolled back when the body raises. -/
def transaction (db : Tables) (body : Except Raised (Assignment × Tables)) : Except Raised Assignment × Tables :=
  match body with
  | .ok (assignment, db') => (.ok assignment, db')
  | .error e => (.error e, db)

/-- A call on the rotation of a schedule and channel. -/
structure Step where
  schedule : Str
  channel : Str
  call : Call

def Step.outcome (s : Step) (db : Tables) : Except Raised Assignment × Tables :=
  transaction db (s.call.body s.schedule s.channel db)

/-- The tables after the calls, rejected ones included. -/
def run (db : Tables) (steps : List Step) : Tables := steps.foldl (fun db s => (s.outcome db).2) db

end Rotation

end CardRag
