import CardRag.Cleanup.Runs
import CardRag.Lib.Runs

/-! # Runs and stages in the state database (`state.py`)

A run is opened, resumed, reclaimed and finished; a stage of a document has a budget of attempts, which only an
explicit resume of its run renews. `Accounted` ties the rows to what was attempted, and every operation keeps
it; so a stage is started at most `max_attempts` times between two resumes (`attempts_bounded`). -/

namespace CardRag.Runs

inductive StageStatus where
  | pending
  | running
  | retry
  | succeeded
  | failed
  | skipped
deriving DecidableEq

/-- A row of `run`. -/
structure Run where
  runId : Str
  startedAt : Str
  finishedAt : Option Str
  status : Cleanup.RunStatus
  corpusSha256 : Option Str
  contractSha256 : Option Str
  error : Option Str

structure StageKey where
  runId : Str
  documentId : Str
  stageName : Str
deriving DecidableEq

/-- A row of `stage`. -/
structure StageRow where
  key : StageKey
  status : StageStatus
  attemptCount : Nat
  maxAttempts : Nat
  availableAt : Str
  lastError : Option Str
  updatedAt : Str

structure Db where
  runs : List Run
  stages : List StageRow

inductive Failure where
  /-- `sqlite3.IntegrityError`. -/
  | integrityError
  | raised (e : Raised)
deriving DecidableEq

def unknownRun (runId : Str) : Failure := .raised ⟨.keyError, "unknown run: " ++ String.ofList runId⟩

def notInitialized : Failure := .raised ⟨.keyError, "stage was not initialized"⟩

def exhausted : Failure := .raised ⟨.runtimeError, "stage exhausted its finite attempt budget"⟩

/-- `[:4000]`. -/
def bounded (text : Str) : Str := text.take 4000

namespace Db
variable (d : Db)

def run? (runId : Str) : Option Run := d.runs.find? (·.runId = runId)

def getStage (key : StageKey) : Option StageRow := d.stages.find? (·.key = key)

/-- `UPDATE run … WHERE`. -/
def updateRuns (p : Run → Bool) (f : Run → Run) : Db := { d with runs := d.runs.map fun r => if p r then f r else r }

/-- `UPDATE stage … WHERE`. -/
def updateStages (p : StageRow → Bool) (f : StageRow → StageRow) : Db :=
  { d with stages := d.stages.map fun s => if p s then f s else s }

def startRun (identifier now : Str) : Except Failure Db :=
  if (d.run? identifier).isSome then .error .integrityError
  else .ok { d with runs := d.runs ++ [⟨identifier, now, none, .running, none, none, none⟩] }

def interruptedError : Str := "worker process ended before the run reached a terminal state".toList

def markStaleRunningRunsInterrupted (excludeRunId : Option Str) (now : Str) : List Str × Db :=
  let identifiers := (PyList.sortedBy (fun r => toLex (r.startedAt, r.runId))
    (d.runs.filter fun r => r.status = .running ∧ some r.runId ≠ excludeRunId)).map (·.runId)
  (identifiers, d.updateRuns (fun r => r.runId ∈ identifiers ∧ r.status = .running) fun r =>
    { r with status := .interrupted, finishedAt := some now, error := some (bounded interruptedError) })

def renewed (now : Str) (s : StageRow) : StageRow :=
  { s with status := .retry, attemptCount := 0, availableAt := now, updatedAt := now }

def discovery : Str := "discovery".toList

def assertResumable (runId now : Str) : Except Failure Db :=
  match d.run? runId with
  | none => .error (unknownRun runId)
  | some row =>
    if row.status = .succeeded ∨ row.status = .noChange then
      .error (.raised (valueError ("run " ++ String.ofList runId ++ " is already complete")))
    else .ok (((d.updateRuns (·.runId = runId) fun r =>
        { r with status := .running, finishedAt := none, error := none }).updateStages
        (fun s => s.key.runId = runId ∧ s.status ∈ [.failed, .retry, .running, .skipped]) (renewed now)).updateStages
        (fun s => s.key.runId = runId ∧ s.key.stageName = discovery) fun s => { renewed now s with lastError := none })

/-- The `automatic_resume` of the pipeline, which renews no budget. -/
def automaticResume (runId : Str) : Db :=
  d.updateRuns (·.runId = runId) fun r => { r with status := .running, finishedAt := none }

def assertPublicationResumable (runId : Str) : Except Failure Db :=
  match d.run? runId with
  | none => .error (unknownRun runId)
  | some row =>
    if row.status ∉ [.failed, .interrupted, .running] then
      .error (.raised (valueError ("run " ++ String.ofList runId ++ " is not a resumable publication candidate")))
    else .ok (d.updateRuns (fun r => r.runId = runId ∧ r.status ∈ [.failed, .interrupted, .running]) fun r =>
        { r with status := .running, finishedAt := none, error := none })

structure Finish where
  status : Cleanup.RunStatus
  corpusSha256 : Option Str
  contractSha256 : Option Str
  error : Option Str

def Finish.row (f : Finish) (now : Str) (r : Run) : Run :=
  { r with status := f.status, finishedAt := some now, corpusSha256 := f.corpusSha256, contractSha256 := f.contractSha256,
           error := f.error }

def finishRun (runId : Str) (f : Finish) (now : Str) : Except Failure Db :=
  if f.status = .running then .error (.raised (valueError "finish_run cannot leave a run running"))
  else .ok (d.updateRuns (·.runId = runId) (f.row now))

def finishRunIfRunning (runId : Str) (f : Finish) (now : Str) : Except Failure (Bool × Db) :=
  if f.status = .running then .error (.raised (valueError "finish_run_if_running cannot leave a run running"))
  else .ok (d.runs.any fun r => r.runId = runId ∧ r.status = .running,
    d.updateRuns (fun r => r.runId = runId ∧ r.status = .running) (f.row now))

/-- `INSERT OR IGNORE` passes over a row that breaks `CHECK(max_attempts > 0)`, but not over a missing run. -/
def ensureStage (key : StageKey) (maxAttempts : Nat) (now : Str) : Except Failure Db :=
  if maxAttempts = 0 ∨ (d.getStage key).isSome then .ok d
  else if (d.run? key.runId).isNone then .error .integrityError
  else .ok { d with stages := d.stages ++ [⟨key, .pending, 0, maxAttempts, now, none, now⟩] }

def started (attempt : Nat) (now : Str) (s : StageRow) : StageRow :=
  { s with status := .running, attemptCount := attempt, lastError := none, updatedAt := now }

def stageStarted (key : StageKey) (now : Str) : Except Failure (Nat × Db) :=
  match d.getStage key with
  | none => .error notInitialized
  | some row =>
    if row.maxAttempts < row.attemptCount + 1 then .error exhausted
    else .ok (row.attemptCount + 1, d.updateStages (·.key = key) (started (row.attemptCount + 1) now))

def succeeded (now : Str) (s : StageRow) : StageRow := { s with status := .succeeded, lastError := none, updatedAt := now }

def stageSucceeded (key : StageKey) (now : Str) : Db := d.updateStages (·.key = key) (succeeded now)

def stageSkipped (key : StageKey) (reason now : Str) : Db :=
  d.updateStages (·.key = key) fun s => { s with status := .skipped, lastError := some (bounded reason), updatedAt := now }

def failed (status : StageStatus) (error availableAt now : Str) (s : StageRow) : StageRow :=
  { s with status := status, availableAt := availableAt, lastError := some (bounded error), updatedAt := now }

def stageTerminalFailed (key : StageKey) (error now : Str) : Except Failure Db :=
  if d.stages.any fun s => s.key = key ∧ s.status = .running then
    .ok (d.updateStages (fun s => s.key = key ∧ s.status = .running) (failed .failed error now now))
  else .error (.raised ⟨.runtimeError, "stage was not running"⟩)

/-- `availableAt` is `now` and the delay. -/
def stageFailed (key : StageKey) (error availableAt now : Str) : Except Failure (StageStatus × Db) :=
  match d.getStage key with
  | none => .error notInitialized
  | some row =>
    let status := if row.maxAttempts ≤ row.attemptCount then .failed else .retry
    .ok (status, d.updateStages (·.key = key) (failed status error availableAt now))

end Db

/-! ### Histories -/

inductive Op where
  | startRun (identifier : Str)
  | markStaleRunningRunsInterrupted (excludeRunId : Option Str)
  | assertResumable (runId : Str)
  | automaticResume (runId : Str)
  | assertPublicationResumable (runId : Str)
  | finishRun (runId : Str) (f : Db.Finish)
  | finishRunIfRunning (runId : Str) (f : Db.Finish)
  | ensureStage (key : StageKey) (maxAttempts : Nat)
  | stageStarted (key : StageKey)
  | stageSucceeded (key : StageKey)
  | stageSkipped (key : StageKey) (reason : Str)
  | stageTerminalFailed (key : StageKey) (error : Str)
  | stageFailed (key : StageKey) (error availableAt : Str)

/-- What an operation did to the budgets. -/
inductive Event where
  /-- The attempt that a stage was given. -/
  | attempt (key : StageKey) (number : Nat)
  /-- An explicit resume. -/
  | renewal (runId : Str)
deriving DecidableEq

/-- An operation at some time: the events of it, and the database after it. -/
def Db.perform (d : Db) (now : Str) : Op → Except Failure (List Event × Db)
  | .startRun identifier => ([], ·) <$> d.startRun identifier now
  | .markStaleRunningRunsInterrupted exclude => .ok ([], (d.markStaleRunningRunsInterrupted exclude now).2)
  | .assertResumable runId => ([.renewal runId], ·) <$> d.assertResumable runId now
  | .automaticResume runId => .ok ([], d.automaticResume runId)
  | .assertPublicationResumable runId => ([], ·) <$> d.assertPublicationResumable runId
  | .finishRun runId f => ([], ·) <$> d.finishRun runId f now
  | .finishRunIfRunning runId f => (fun r => ([], r.2)) <$> d.finishRunIfRunning runId f now
  | .ensureStage key maxAttempts => ([], ·) <$> d.ensureStage key maxAttempts now
  | .stageStarted key => (fun r => ([.attempt key r.1], r.2)) <$> d.stageStarted key now
  | .stageSucceeded key => .ok ([], d.stageSucceeded key now)
  | .stageSkipped key reason => .ok ([], d.stageSkipped key reason now)
  | .stageTerminalFailed key error => ([], ·) <$> d.stageTerminalFailed key error now
  | .stageFailed key error availableAt => (fun r => ([], r.2)) <$> d.stageFailed key error availableAt now

/-- A database with its history. -/
structure History where
  db : Db
  events : List Event

def History.empty : History := ⟨⟨[], []⟩, []⟩

/-- An operation that raises changes nothing. -/
def History.step (h : History) (o : Str × Op) : History :=
  match h.db.perform o.1 o.2 with
  | .ok (events, db) => ⟨db, h.events ++ events⟩
  | .error _ => h

/-! ### Budgets -/

/-- The attempts made and allowed. -/
def Db.budget (d : Db) (key : StageKey) : Option (Nat × Nat) :=
  (d.getStage key).map fun s => (s.attemptCount, s.maxAttempts)

namespace Db
variable {d : Db} {key : StageKey} {runId now : Str}

theorem getStage_updateStages {p : StageRow → Bool} {f : StageRow → StageRow} (hf : ∀ s, (f s).key = s.key) :
    (d.updateStages p f).getStage key = (d.getStage key).map fun s => if p s then f s else s := by
  have hkey (s : StageRow) : (if p s then f s else s).key = s.key := by
    split
    · exact hf s
    · rfl
  simp only [getStage, updateStages, List.find?_map, Function.comp_def, hkey]

theorem run?_updateRuns {p : Run → Bool} {f : Run → Run} (hf : ∀ r, (f r).runId = r.runId) :
    (d.updateRuns p f).run? runId = (d.run? runId).map fun r => if p r then f r else r := by
  have hid (r : Run) : (if p r then f r else r).runId = r.runId := by
    split
    · exact hf r
    · rfl
  simp only [run?, updateRuns, List.find?_map, Function.comp_def, hid]

theorem key_of_getStage {s : StageRow} (h : d.getStage key = some s) : s.key = key := by
  simpa using List.find?_some h

theorem id_of_run? {r : Run} (h : d.run? runId = some r) : r.runId = runId := by
  simpa using List.find?_some h

theorem getStage_update_key {f : StageRow → StageRow} (hf : ∀ s, (f s).key = s.key) (other : StageKey) :
    (d.updateStages (·.key = key) f).getStage other =
      if other = key then (d.getStage key).map f else d.getStage other := by
  rw [getStage_updateStages hf]
  by_cases hother : other = key
  · subst hother
    rw [if_pos rfl]
    refine Option.map_congr fun s hs => ?_
    simp [key_of_getStage hs]
  · rw [if_neg hother]
    cases hget : d.getStage other with
    | none => rfl
    | some s => simp [key_of_getStage hget, hother]

@[simp] theorem budget_updateRuns (p : Run → Bool) (f : Run → Run) : (d.updateRuns p f).budget = d.budget := rfl

/-- An update that leaves the counts alone. -/
theorem budget_updateStages {p : StageRow → Bool} {f : StageRow → StageRow}
    (hf : ∀ s, (f s).key = s.key ∧ (f s).attemptCount = s.attemptCount ∧ (f s).maxAttempts = s.maxAttempts) :
    (d.updateStages p f).budget = d.budget := by
  funext key
  rw [budget, getStage_updateStages fun s => (hf s).1, Option.map_map, budget]
  congr 1
  funext s
  by_cases hp : p s
  · simp [hp, hf s]
  · simp [hp]

/-- A renewal sets counts back, of stages of its run. -/
theorem budget_renewed (runId : Str) {p : StageRow → Bool} {f : StageRow → StageRow} (hp : ∀ s, p s → s.key.runId = runId)
    (hf : ∀ s, (f s).key = s.key ∧ (f s).attemptCount = 0 ∧ (f s).maxAttempts = s.maxAttempts) (key : StageKey) :
    (d.updateStages p f).budget key = d.budget key ∨
      key.runId = runId ∧ ∃ c m, d.budget key = some (c, m) ∧ (d.updateStages p f).budget key = some (0, m) := by
  simp only [budget, getStage_updateStages fun s => (hf s).1]
  cases hget : d.getStage key with
  | none => exact .inl rfl
  | some s =>
    by_cases hps : p s
    · refine .inr ⟨key_of_getStage hget ▸ hp s hps, s.attemptCount, s.maxAttempts, rfl, ?_⟩
      simp [hps, hf s]
    · simp [hps]

theorem budget_concat {s : StageRow} (h : d.getStage s.key = none) :
    ({ d with stages := d.stages ++ [s] } : Db).budget =
      Function.update d.budget s.key (some (s.attemptCount, s.maxAttempts)) := by
  funext key
  by_cases hkey : key = s.key
  · subst hkey
    have hnone : d.stages.find? (·.key = s.key) = none := h
    simp [budget, getStage, List.find?_append, hnone]
  · have hne : ¬ s.key = key := fun h => hkey h.symm
    simp [budget, getStage, List.find?_append, Function.update_of_ne hkey, hne]

end Db

/-- What an operation can do to the budgets, with its events. -/
inductive Moves (b b' : StageKey → Option (Nat × Nat)) : List Event → Prop where
  | same (h : b' = b) : Moves b b' []
  | added (key : StageKey) (m : Nat) (hm : 0 < m) (hnone : b key = none) (h : b' = Function.update b key (some (0, m))) :
      Moves b b' []
  | attempt (key : StageKey) (c m : Nat) (hb : b key = some (c, m)) (hc : c < m)
      (h : b' = Function.update b key (some (c + 1, m))) : Moves b b' [.attempt key (c + 1)]
  | renewal (runId : Str)
      (h : ∀ key, b' key = b key ∨ key.runId = runId ∧ ∃ c m, b key = some (c, m) ∧ b' key = some (0, m)) :
      Moves b b' [.renewal runId]

namespace Db
variable {d d' : Db} {key : StageKey} {runId now : Str} {n : Nat}

theorem moves_assertResumable (h : d.assertResumable runId now = .ok d') : Moves d.budget d'.budget [.renewal runId] := by
  unfold assertResumable at h
  split at h
  · cases h
  · split at h
    · cases h
    · cases h
      refine .renewal runId fun key => ?_
      have hfirst := budget_renewed runId (d := d.updateRuns (·.runId = runId) fun r =>
          { r with status := .running, finishedAt := none, error := none })
        (p := fun s => s.key.runId = runId ∧ s.status ∈ [.failed, .retry, .running, .skipped])
        (f := renewed now) (fun s hs => (of_decide_eq_true hs).1) (fun s => ⟨rfl, rfl, rfl⟩) key
      have hsecond := budget_renewed runId (d := ((d.updateRuns (·.runId = runId) fun r =>
          { r with status := .running, finishedAt := none, error := none }).updateStages
        (fun s => s.key.runId = runId ∧ s.status ∈ [.failed, .retry, .running, .skipped]) (renewed now)))
        (p := fun s => s.key.runId = runId ∧ s.key.stageName = discovery)
        (f := fun s => { renewed now s with lastError := none })
        (fun s hs => (of_decide_eq_true hs).1) (fun s => ⟨rfl, rfl, rfl⟩) key
      rw [budget_updateRuns] at hfirst
      -- A discovery stage may be renewed by both updates.
      obtain h₁ | ⟨hrun, c, m, hb, h₁⟩ := hfirst
      · obtain h₂ | ⟨hrun, c, m, hb, h₂⟩ := hsecond
        · exact .inl (h₂.trans h₁)
        · exact .inr ⟨hrun, c, m, h₁ ▸ hb, h₂⟩
      · refine .inr ⟨hrun, c, m, hb, ?_⟩
        obtain h₂ | ⟨-, c', m', hb', h₂⟩ := hsecond
        · exact h₂.trans h₁
        · cases h₁.symm.trans hb'
          exact h₂

theorem moves_ensureStage {maxAttempts : Nat} (h : d.ensureStage key maxAttempts now = .ok d') :
    Moves d.budget d'.budget [] := by
  unfold ensureStage at h
  split at h
  · cases h
    exact .same rfl
  · rename_i hnew
    split at h
    · cases h
    · cases h
      have hnone : d.getStage key = none := by
        simpa using fun hs => hnew (.inr hs)
      have hpos : 0 < maxAttempts := Nat.pos_of_ne_zero fun h0 => hnew (.inl h0)
      exact .added key maxAttempts hpos (by rw [budget, hnone]; rfl) (budget_concat hnone)

theorem moves_stageStarted (h : d.stageStarted key now = .ok (n, d')) : Moves d.budget d'.budget [.attempt key n] := by
  unfold stageStarted at h
  split at h
  · cases h
  · rename_i row hrow
    split at h
    · cases h
    · rename_i hleft
      cases h
      have hb : d.budget key = some (row.attemptCount, row.maxAttempts) := by rw [budget, hrow]; rfl
      refine .attempt key row.attemptCount row.maxAttempts hb (by omega) ?_
      funext other
      rw [budget, getStage_update_key (f := started (row.attemptCount + 1) now) fun _ => rfl]
      by_cases hother : other = key
      · subst hother
        rw [if_pos rfl, hrow, Function.update_self]
        rfl
      · rw [if_neg hother, Function.update_of_ne hother]
        rfl

theorem moves_perform {events : List Event} {o : Op} (h : d.perform now o = .ok (events, d')) :
    Moves d.budget d'.budget events := by
  cases o with
  | startRun identifier =>
    obtain ⟨d₁, hd₁, heq⟩ := Guard.map_eq_ok.1 h
    cases heq
    unfold Db.startRun at hd₁
    split at hd₁
    · cases hd₁
    · cases hd₁
      exact .same rfl
  | markStaleRunningRunsInterrupted exclude => cases h; exact .same rfl
  | assertResumable runId =>
    obtain ⟨d₁, hd₁, heq⟩ := Guard.map_eq_ok.1 h
    cases heq
    exact moves_assertResumable hd₁
  | automaticResume runId => cases h; exact .same rfl
  | assertPublicationResumable runId =>
    obtain ⟨d₁, hd₁, heq⟩ := Guard.map_eq_ok.1 h
    cases heq
    unfold Db.assertPublicationResumable at hd₁
    split at hd₁
    · cases hd₁
    · split at hd₁
      · cases hd₁
      · cases hd₁
        exact .same rfl
  | finishRun runId f =>
    obtain ⟨d₁, hd₁, heq⟩ := Guard.map_eq_ok.1 h
    cases heq
    unfold Db.finishRun at hd₁
    split at hd₁
    · cases hd₁
    · cases hd₁
      exact .same rfl
  | finishRunIfRunning runId f =>
    obtain ⟨d₁, hd₁, heq⟩ := Guard.map_eq_ok.1 h
    cases heq
    unfold Db.finishRunIfRunning at hd₁
    split at hd₁
    · cases hd₁
    · cases hd₁
      exact .same rfl
  | ensureStage key maxAttempts =>
    obtain ⟨d₁, hd₁, heq⟩ := Guard.map_eq_ok.1 h
    cases heq
    exact moves_ensureStage hd₁
  | stageStarted key =>
    obtain ⟨⟨n, d₁⟩, hd₁, heq⟩ := Guard.map_eq_ok.1 h
    cases heq
    exact moves_stageStarted hd₁
  | stageSucceeded key => cases h; exact .same (budget_updateStages fun _ => ⟨rfl, rfl, rfl⟩)
  | stageSkipped key reason => cases h; exact .same (budget_updateStages fun _ => ⟨rfl, rfl, rfl⟩)
  | stageTerminalFailed key error =>
    obtain ⟨d₁, hd₁, heq⟩ := Guard.map_eq_ok.1 h
    cases heq
    unfold Db.stageTerminalFailed at hd₁
    split at hd₁
    · cases hd₁
      exact .same (budget_updateStages fun _ => ⟨rfl, rfl, rfl⟩)
    · cases hd₁
  | stageFailed key error availableAt =>
    obtain ⟨⟨status, d₁⟩, hd₁, heq⟩ := Guard.map_eq_ok.1 h
    cases heq
    unfold Db.stageFailed at hd₁
    split at hd₁
    · cases hd₁
    · cases hd₁
      exact .same (budget_updateStages fun _ => ⟨rfl, rfl, rfl⟩)

end Db

/-! ### Accounts -/

/-- The attempts of a stage since the last explicit resume of its run. -/
def epoch (key : StageKey) (events : List Event) : List Nat :=
  events.foldl (fun numbers e =>
    match e with
    | .attempt other n => if other = key then numbers ++ [n] else numbers
    | .renewal runId => if runId = key.runId then [] else numbers) []

/-- All attempts of a stage. -/
def starts (key : StageKey) (events : List Event) : Nat :=
  events.countP fun e =>
    match e with
    | .attempt other _ => other = key
    | .renewal _ => false

def renewals (runId : Str) (events : List Event) : Nat := events.count (.renewal runId)

/-- A stage with `c` of `m` attempts made. -/
structure Balance (key : StageKey) (events : List Event) (c m : Nat) : Prop where
  positive : 0 < m
  within : c ≤ m
  increasing : (epoch key events).Pairwise (· < ·)
  numbers : ∀ n ∈ epoch key events, 1 ≤ n ∧ n ≤ c
  starts : starts key events ≤ m * renewals key.runId events + c

/-- The events account for every budget. -/
def Accounted (b : StageKey → Option (Nat × Nat)) (events : List Event) : Prop :=
  ∀ key, match b key with
    | none => starts key events = 0
    | some (c, m) => Balance key events c m

theorem epoch_snoc (key : StageKey) (events : List Event) (e : Event) : epoch key (events ++ [e]) =
    match e with
    | .attempt other n => if other = key then epoch key events ++ [n] else epoch key events
    | .renewal runId => if runId = key.runId then [] else epoch key events := by
  simp only [epoch, List.foldl_append, List.foldl_cons, List.foldl_nil]

theorem epoch_eq_nil {key : StageKey} {events : List Event} (h : starts key events = 0) : epoch key events = [] := by
  induction events using List.reverseRecOn with
  | nil => rfl
  | append_singleton events e ih =>
    rw [starts, List.countP_append, Nat.add_eq_zero_iff] at h
    rw [epoch_snoc, ih h.1]
    cases e with
    | attempt other n =>
      have hne : other ≠ key := by simpa using h.2
      simp [hne]
    | renewal runId => simp

theorem Balance.other {key : StageKey} {events : List Event} {c m : Nat} (h : Balance key events c m) {other : StageKey}
    (hother : other ≠ key) (n : Nat) : Balance key (events ++ [.attempt other n]) c m where
  positive := h.positive
  within := h.within
  increasing := by simpa [epoch_snoc, hother] using h.increasing
  numbers := by simpa [epoch_snoc, hother] using h.numbers
  starts := by
    have hstarts := h.starts
    simpa [Runs.starts, renewals, List.countP_append, hother] using hstarts

/-- The next attempt is the one after all of its epoch. -/
theorem Balance.attempt {key : StageKey} {events : List Event} {c m : Nat} (h : Balance key events c m) (hc : c < m) :
    Balance key (events ++ [.attempt key (c + 1)]) (c + 1) m where
  positive := h.positive
  within := hc
  increasing := by
    simp only [epoch_snoc, if_true, List.pairwise_append, List.pairwise_singleton, List.mem_singleton, forall_eq, true_and]
    exact ⟨h.increasing, fun n hn => Nat.lt_succ_of_le (h.numbers n hn).2⟩
  numbers := by
    intro n hn
    simp only [epoch_snoc, if_true, List.mem_append, List.mem_singleton] at hn
    obtain hn | rfl := hn
    · exact ⟨(h.numbers n hn).1, Nat.le_succ_of_le (h.numbers n hn).2⟩
    · exact ⟨Nat.le_add_left .., le_rfl⟩
  starts := by
    have hstarts := h.starts
    simp only [Runs.starts, renewals, List.countP_append, List.count_append] at hstarts ⊢
    simp
    omega

/-- A resume of its run begins a new epoch, with a budget of its own where the count is set back. -/
theorem Balance.renewal {key : StageKey} {events : List Event} {c c' m : Nat} (h : Balance key events c m)
    (hc : c' = c ∨ c' = 0) : Balance key (events ++ [.renewal key.runId]) c' m where
  positive := h.positive
  within := by have := h.within; omega
  increasing := by simp [epoch_snoc]
  numbers := by simp [epoch_snoc]
  starts := by
    have hstarts := h.starts
    have hwithin := h.within
    simp only [Runs.starts, renewals, List.countP_append, List.count_append] at hstarts ⊢
    simp only [List.countP_singleton, List.count_singleton_self, Bool.false_eq_true, if_false, Nat.mul_add]
    omega

theorem Balance.renewal_of_ne {key : StageKey} {events : List Event} {c m : Nat} (h : Balance key events c m)
    {runId : Str} (hrun : runId ≠ key.runId) : Balance key (events ++ [.renewal runId]) c m where
  positive := h.positive
  within := h.within
  increasing := by simpa [epoch_snoc, hrun] using h.increasing
  numbers := by simpa [epoch_snoc, hrun] using h.numbers
  starts := by
    have hstarts := h.starts
    simpa [Runs.starts, renewals, List.countP_append, hrun] using hstarts

theorem Accounted.moves {b b' : StageKey → Option (Nat × Nat)} {events new : List Event} (h : Accounted b events)
    (hm : Moves b b' new) : Accounted b' (events ++ new) := by
  intro key
  have hkey := h key
  cases hm with
  | same heq => rw [heq, List.append_nil]; exact hkey
  | added k m hpos hnone heq =>
    rw [heq, List.append_nil]
    by_cases hk : key = k
    · subst hk
      rw [hnone] at hkey
      have hnil := epoch_eq_nil hkey
      rw [Function.update_self]
      exact ⟨hpos, Nat.zero_le m, by simp [hnil], by simp [hnil], by simp [hkey]⟩
    · rw [Function.update_of_ne hk]
      exact hkey
  | attempt k c m hb hc heq =>
    rw [heq]
    by_cases hk : key = k
    · subst hk
      rw [hb] at hkey
      rw [Function.update_self]
      exact hkey.attempt hc
    · rw [Function.update_of_ne hk]
      cases hbk : b key with
      | none =>
        rw [hbk] at hkey
        simpa [starts, List.countP_append, Ne.symm hk] using hkey
      | some cm =>
        rw [hbk] at hkey
        exact hkey.other (Ne.symm hk) (c + 1)
  | renewal runId hmoved =>
    cases hbk : b key with
    | none =>
      have hsame : b' key = none := by
        obtain heq | ⟨-, c, m, hb, -⟩ := hmoved key
        · rw [heq, hbk]
        · cases hbk.symm.trans hb
      rw [hbk] at hkey
      rw [hsame]
      simpa [starts, List.countP_append] using hkey
    | some cm =>
      rw [hbk] at hkey
      obtain heq | ⟨hrun, c, m, hb, heq⟩ := hmoved key
      · rw [heq, hbk]
        by_cases hrun : runId = key.runId
        · subst hrun
          exact hkey.renewal (.inl rfl)
        · exact hkey.renewal_of_ne hrun
      · cases hbk.symm.trans hb
        rw [heq, ← hrun]
        exact hkey.renewal (.inr rfl)

theorem History.step_accounted {h : History} (hacc : Accounted h.db.budget h.events) (o : Str × Op) :
    Accounted (h.step o).db.budget (h.step o).events := by
  unfold History.step
  split
  · rename_i events db hperform
    exact hacc.moves (Db.moves_perform hperform)
  · exact hacc

/-- Between two resumes a stage gets each attempt number once, in order and within its budget; so all its attempts
fit in one budget for each resume and one more. -/
def WithinBudget (h : History) (key : StageKey) : Prop :=
  match h.db.getStage key with
  | none => starts key h.events = 0
  | some s => (epoch key h.events).Pairwise (· < ·) ∧ (∀ n ∈ epoch key h.events, 1 ≤ n ∧ n ≤ s.maxAttempts) ∧
      starts key h.events ≤ s.maxAttempts * (renewals key.runId h.events + 1)

theorem accounted_run (ops : List (Str × Op)) :
    Accounted (runFrom History.step .empty ops).db.budget (runFrom History.step .empty ops).events := by
  have hempty : Accounted History.empty.db.budget History.empty.events := fun _ => rfl
  exact (Along.of_step (I := fun h : History => Accounted h.db.budget h.events) (P := fun _ _ _ => True)
    (fun h o hacc => ⟨History.step_accounted hacc o, trivial⟩) hempty ops).2

/-- Whatever is done to the database, in any order. -/
theorem attempts_bounded (ops : List (Str × Op)) (key : StageKey) :
    WithinBudget (runFrom History.step .empty ops) key := by
  have hkey := accounted_run ops key
  unfold WithinBudget
  cases hget : (runFrom History.step .empty ops).db.getStage key with
  | none => simpa [Db.budget, hget] using hkey
  | some s =>
    simp only [Db.budget, hget, Option.map_some] at hkey
    refine ⟨hkey.increasing, fun n hn => ⟨(hkey.numbers n hn).1, (hkey.numbers n hn).2.trans hkey.within⟩, ?_⟩
    calc starts key _ ≤ _ := hkey.starts
      _ ≤ s.maxAttempts * (renewals key.runId _ + 1) := by
        rw [Nat.mul_succ]
        exact Nat.add_le_add_left hkey.within _

/-! ### Finished runs -/

/-- The operations that set the row of a run whatever it says. -/
def Op.Overwrites (runId : Str) : Op → Prop
  | .finishRun other _ => other = runId
  | .automaticResume other => other = runId
  | _ => False

def Complete (r : Run) : Prop := r.status = .succeeded ∨ r.status = .noChange

namespace Db
variable {d d' : Db} {runId now : Str} {row : Run} {events : List Event}

theorem run?_updateRuns_of_not {p : Run → Bool} {f : Run → Run} (hf : ∀ r, (f r).runId = r.runId)
    (h : d.run? runId = some row) (hp : p row = false) : (d.updateRuns p f).run? runId = some row := by
  rw [run?_updateRuns hf, h]
  simp [hp]

theorem Complete.ne_running (h : Complete row) : row.status ≠ .running := by
  obtain h | h := h <;> simp [h]

theorem run?_startRun {identifier : Str} (h : d.run? runId = some row) (hok : d.startRun identifier now = .ok d') :
    d'.run? runId = some row := by
  unfold startRun at hok
  split at hok
  · cases hok
  · cases hok
    have hfind : d.runs.find? (·.runId = runId) = some row := h
    simp [run?, List.find?_append, hfind]

theorem run?_assertResumable {other : Str} (h : d.run? runId = some row) (hrow : Complete row)
    (hok : d.assertResumable other now = .ok d') : d'.run? runId = some row := by
  unfold assertResumable at hok
  split at hok
  · cases hok
  · rename_i found hfound
    split at hok
    · cases hok
    · rename_i hopen
      cases hok
      -- The run resumed is another one: its own row is not complete.
      have hne : row.runId ≠ other := by
        rintro rfl
        rw [id_of_run? h, h] at hfound
        exact hopen (Option.some.inj hfound ▸ hrow)
      exact run?_updateRuns_of_not (fun _ => rfl) h (by simp [hne])

theorem run?_assertPublicationResumable {other : Str} (h : d.run? runId = some row) (hrow : Complete row)
    (hok : d.assertPublicationResumable other = .ok d') : d'.run? runId = some row := by
  unfold assertPublicationResumable at hok
  split at hok
  · cases hok
  · split at hok
    · cases hok
    · cases hok
      have hstatus : row.status ∉ [Cleanup.RunStatus.failed, .interrupted, .running] := by
        obtain h | h := hrow <;> simp [h]
      exact run?_updateRuns_of_not (fun _ => rfl) h (by simpa using fun _ => hstatus)

theorem run?_finishRun {other : Str} {f : Finish} (h : d.run? runId = some row) (hne : row.runId ≠ other)
    (hok : d.finishRun other f now = .ok d') : d'.run? runId = some row := by
  unfold finishRun at hok
  split at hok
  · cases hok
  · cases hok
    exact run?_updateRuns_of_not (fun _ => rfl) h (by simp [hne])

theorem run?_finishRunIfRunning {other : Str} {f : Finish} {was : Bool} (h : d.run? runId = some row) (hrow : Complete row)
    (hok : d.finishRunIfRunning other f now = .ok (was, d')) : d'.run? runId = some row := by
  unfold finishRunIfRunning at hok
  split at hok
  · cases hok
  · cases hok
    exact run?_updateRuns_of_not (fun _ => rfl) h (by simp [Complete.ne_running hrow])

theorem runs_ensureStage {key : StageKey} {maxAttempts : Nat} (hok : d.ensureStage key maxAttempts now = .ok d') :
    d'.runs = d.runs := by
  unfold ensureStage at hok
  split at hok
  · cases hok
    rfl
  · split at hok
    · cases hok
    · cases hok
      rfl

theorem runs_stageStarted {key : StageKey} {n : Nat} (hok : d.stageStarted key now = .ok (n, d')) : d'.runs = d.runs := by
  unfold stageStarted at hok
  split at hok
  · cases hok
  · split at hok
    · cases hok
    · cases hok
      rfl

theorem runs_stageTerminalFailed {key : StageKey} {error : Str} (hok : d.stageTerminalFailed key error now = .ok d') :
    d'.runs = d.runs := by
  unfold stageTerminalFailed at hok
  split at hok
  · cases hok
    rfl
  · cases hok

theorem runs_stageFailed {key : StageKey} {error availableAt : Str} {status : StageStatus}
    (hok : d.stageFailed key error availableAt now = .ok (status, d')) : d'.runs = d.runs := by
  unfold stageFailed at hok
  split at hok
  · cases hok
  · cases hok
    rfl

/-- What works on the stages leaves the runs alone. -/
theorem run?_of_runs (h : d.run? runId = some row) (hruns : d'.runs = d.runs) : d'.run? runId = some row := by
  rwa [run?, hruns]

theorem run?_perform {o : Op} (h : d.run? runId = some row) (hrow : Complete row) (ho : ¬ o.Overwrites runId)
    (hperform : d.perform now o = .ok (events, d')) : d'.run? runId = some row := by
  have hother : ∀ other, other ≠ runId → row.runId ≠ other := fun other hne heq => hne (heq ▸ id_of_run? h)
  cases o with
  | startRun identifier =>
    obtain ⟨d₁, hd₁, heq⟩ := Guard.map_eq_ok.1 hperform
    cases heq
    exact run?_startRun h hd₁
  | markStaleRunningRunsInterrupted exclude =>
    cases hperform
    exact run?_updateRuns_of_not (fun _ => rfl) h (by simp [Complete.ne_running hrow])
  | assertResumable other =>
    obtain ⟨d₁, hd₁, heq⟩ := Guard.map_eq_ok.1 hperform
    cases heq
    exact run?_assertResumable h hrow hd₁
  | automaticResume other =>
    cases hperform
    exact run?_updateRuns_of_not (fun _ => rfl) h (by simp [hother other ho])
  | assertPublicationResumable other =>
    obtain ⟨d₁, hd₁, heq⟩ := Guard.map_eq_ok.1 hperform
    cases heq
    exact run?_assertPublicationResumable h hrow hd₁
  | finishRun other f =>
    obtain ⟨d₁, hd₁, heq⟩ := Guard.map_eq_ok.1 hperform
    cases heq
    exact run?_finishRun h (hother other ho) hd₁
  | finishRunIfRunning other f =>
    obtain ⟨⟨was, d₁⟩, hd₁, heq⟩ := Guard.map_eq_ok.1 hperform
    cases heq
    exact run?_finishRunIfRunning h hrow hd₁
  | ensureStage key maxAttempts =>
    obtain ⟨d₁, hd₁, heq⟩ := Guard.map_eq_ok.1 hperform
    cases heq
    exact run?_of_runs h (runs_ensureStage hd₁)
  | stageStarted key =>
    obtain ⟨⟨n, d₁⟩, hd₁, heq⟩ := Guard.map_eq_ok.1 hperform
    cases heq
    exact run?_of_runs h (runs_stageStarted hd₁)
  | stageSucceeded key =>
    cases hperform
    exact h
  | stageSkipped key reason =>
    cases hperform
    exact h
  | stageTerminalFailed key error =>
    obtain ⟨d₁, hd₁, heq⟩ := Guard.map_eq_ok.1 hperform
    cases heq
    exact run?_of_runs h (runs_stageTerminalFailed hd₁)
  | stageFailed key error availableAt =>
    obtain ⟨⟨status, d₁⟩, hd₁, heq⟩ := Guard.map_eq_ok.1 hperform
    cases heq
    exact run?_of_runs h (runs_stageFailed hd₁)

end Db

/-- No resume, no reclaim and no late failure changes the row of a run that is over. -/
theorem complete_run_kept {h : History} {runId : Str} {row : Run} (hrow : h.db.run? runId = some row) (hc : Complete row)
    {ops : List (Str × Op)} (hops : ∀ o ∈ ops, ¬ o.2.Overwrites runId) :
    (runFrom History.step h ops).db.run? runId = some row := by
  induction ops generalizing h with
  | nil => exact hrow
  | cons o ops ih =>
    refine ih (h := h.step o) ?_ fun o ho => hops o (List.mem_cons_of_mem _ ho)
    unfold History.step
    split
    · rename_i events db hperform
      exact Db.run?_perform hrow hc (hops _ List.mem_cons_self) hperform
    · exact hrow

theorem complete_run_kept_resume :
    (runFrom History.step ⟨⟨[⟨"r".toList, [], none, .succeeded, none, none, none⟩], []⟩, []⟩
      [([], .assertResumable "r".toList), ([], .markStaleRunningRunsInterrupted none),
        ([], .finishRunIfRunning "r".toList ⟨.failed, none, none, none⟩)]).db.run? "r".toList =
      some ⟨"r".toList, [], none, .succeeded, none, none, none⟩ :=
  complete_run_kept rfl (.inl rfl) (by simp [Op.Overwrites])

end CardRag.Runs
