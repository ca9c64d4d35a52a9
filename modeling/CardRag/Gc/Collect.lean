import CardRag.Core

/-! # Remote garbage collection (`gc.py`, `state.py`)

`collect_garbage` from the end of its mark phase on: the candidates, the table of when each was first
seen unreferenced, and the sweep. What the mark phase found and how the server answers the sweep are
its inputs. Times are microseconds since `datetime.min`, in UTC. -/

namespace CardRag.Gc

/-- What the mark phase found. -/
structure Marks where
  retained : List Str
  marked : List Str
  allGenerations : List Str
  allObjects : List Str
  inactiveCaches : List Str
  incomingTempLeaves : List Str

/-- `candidates`, in order. -/
def Marks.candidates (m : Marks) : List Str :=
  PyList.sortedSet
    ((m.allGenerations.filter (· ∉ m.retained)).map ("v1/generations/".toList ++ ·) ++
      m.allObjects.filter (· ∉ m.marked) ++ m.inactiveCaches ++ m.incomingTempLeaves)

/-! ### `gc_unreferenced` -/

structure Unreferenced where
  remotePath : Str
  firstSeenAt : Nat
  lastSeenAt : Nat
deriving DecidableEq, Repr

abbrev Table := List Unreferenced

/-- The upsert of `note_unreferenced`. -/
def upsert (table : Table) (path : Str) (observedAt : Nat) : Table :=
  if table.any (·.remotePath = path) then
    table.map fun row => if row.remotePath = path then { row with lastSeenAt := observedAt } else row
  else table ++ [⟨path, observedAt, observedAt⟩]

/-- `first_seen_at` of a path; it has a row. -/
def firstSeen (table : Table) (path : Str) : Option Nat := (table.find? (·.remotePath = path)).map (·.firstSeenAt)

/-- `{path: state.note_unreferenced(path, …) for path in sorted(candidates)}`. -/
def noteAll (observedAt : Nat) : Table → List Str → Table × List (Str × Nat)
  | table, [] => (table, [])
  | table, path :: paths =>
    let table := upsert table path observedAt
    let (table', seen) := noteAll observedAt table paths
    (table', (path, (firstSeen table path).getD observedAt) :: seen)

def clearUnreferencedExcept (table : Table) (paths : List Str) : Table := table.filter (·.remotePath ∈ paths)

def clearUnreferenced (table : Table) (path : Str) : Table := table.filter (·.remotePath ≠ path)

/-! ### The sweep -/

def isIncomingTempLeaf (path : Str) : Bool :=
  ["v1/.incoming/channels/".toList, "v1/.incoming/publish/".toList].any fun root =>
    let name := path.drop root.length
    root.isPrefixOf path && (name.take 32).all isHexDigit && decide (name.drop 32 = ".tmp".toList)

inductive Failure where
  | value
  | overflow
  | unknownPointer
  | mark
  | unexpectedCandidate (path : Str)
  | pointerChanged
  | firstDelete (path : Str)
  | partialFailure (deletedCount : Nat)
  | interrupted
deriving DecidableEq

def deletionOrder (path : Str) : Except Failure (Nat × Str) :=
  if isIncomingTempLeaf path then .ok (0, path)
  else if "v1/generations/".toList.isPrefixOf path then .ok (1, path)
  else if "v1/ocr-cache/".toList.isPrefixOf path then .ok (2, path)
  else if "v1/objects/".toList.isPrefixOf path then .ok (3, path)
  else .error (.unexpectedCandidate path)

/-- What happens at one eligible path: the pointer changed, a request raised, the task was cancelled
(before the deletion was asked for, or then), the temporary object is gone, or the deletion succeeded. -/
inductive Answer where
  | pointerChanged
  | raised (deleteSent : Bool)
  | cancelled (deleteSent : Bool)
  | leafGone
  | deleted
deriving DecidableEq

/-- The sweep: the paths whose deletion was asked for, those deleted, the table, and what stopped it. -/
structure Swept where
  requested : List Str
  deleted : List Str
  table : Table
  stopped : Option Answer

def sweep (answer : Str → Answer) : Table → List Str → Swept
  | table, [] => ⟨[], [], table, none⟩
  | table, path :: paths =>
    match answer path with
    | .leafGone =>
      if isIncomingTempLeaf path then sweep answer (clearUnreferenced table path) paths
      else
        let rest := sweep answer (clearUnreferenced table path) paths
        { rest with requested := path :: rest.requested, deleted := path :: rest.deleted }
    | .deleted =>
      let rest := sweep answer (clearUnreferenced table path) paths
      { rest with requested := path :: rest.requested, deleted := path :: rest.deleted }
    | .pointerChanged => ⟨[], [], table, some .pointerChanged⟩
    | .raised sent => ⟨if sent then [path] else [], [], table, some (.raised sent)⟩
    | .cancelled sent => ⟨if sent then [path] else [], [], table, some (.cancelled sent)⟩

/-- What the sweep raises. -/
def Swept.failure (s : Swept) (eligible : List Str) : Option Failure :=
  match s.stopped with
  | none => none
  | some (.cancelled _) => some .interrupted
  | some .pointerChanged => some (if s.deleted = [] then .pointerChanged else .partialFailure s.deleted.length)
  | some _ => some (if s.deleted = [] then .firstDelete (eligible.headD []) else .partialFailure s.deleted.length)

/-! ### One run -/

structure Run where
  apply : Bool
  retainGenerations : Nat
  graceDays : Nat
  observedAt : Nat
  /-- The pointer is one of the two that may be collected. -/
  knownPointer : Bool
  /-- `none` when the mark phase raised. -/
  marks : Option Marks
  /-- The pointer is unchanged before the first deletion. -/
  pointerUnchanged : Bool
  answer : Str → Answer

structure GCResult where
  retainedGenerations : List Str
  markedObjects : Nat
  candidates : List Str
  eligible : List Str
  deleted : List Str
  dryRun : Bool

/-- The table after a run, the deletions it asked for and those that succeeded, and what it returned or
raised. -/
structure Collected where
  table : Table
  requested : List Str
  deleted : List Str
  result : Except Failure GCResult

def graceMicroseconds (days : Nat) : Nat := 86400000000 * days

/-- The mark phase of a run that got that far. -/
def Run.completed (run : Run) : Option Marks :=
  if run.retainGenerations < 1 ∨ run.graceDays < 1 ∨ run.knownPointer = false then none else run.marks

def eligible (run : Run) (seen : List (Str × Nat)) : Except Failure (List Str) := do
  if run.observedAt < graceMicroseconds run.graceDays then throw .overflow
  let threshold := run.observedAt - graceMicroseconds run.graceDays
  let keys ← ((seen.filter (·.2 ≤ threshold)).map (·.1)).mapM deletionOrder
  return (PyList.sortedBy (fun key => toLex key) keys).map (·.2)

/-- The end of a run: nothing on a dry run, else the sweep of the eligible paths. -/
def Run.delete (run : Run) (marks : Marks) (table : Table) (paths : List Str) : Collected :=
  let result (deleted : List Str) : GCResult := ⟨marks.retained,
    (marks.marked.eraseDups.filter ("v1/objects/".toList.isPrefixOf ·)).length, marks.candidates, paths, deleted,
    !run.apply⟩
  if run.apply = false ∨ paths = [] then ⟨table, [], [], .ok (result [])⟩
  else if run.pointerUnchanged = false then ⟨table, [], [], .error .pointerChanged⟩
  else
    let swept := sweep run.answer table paths
    ⟨swept.table, swept.requested, swept.deleted,
      match swept.failure paths with
      | some e => .error e
      | none => .ok (result swept.deleted)⟩

/-- A run from the end of its mark phase on. -/
def Run.afterMark (run : Run) (marks : Marks) (table : Table) : Collected :=
  let noted := noteAll run.observedAt table marks.candidates
  let table := clearUnreferencedExcept noted.1 marks.candidates
  match eligible run noted.2 with
  | .error e => ⟨table, [], [], .error e⟩
  | .ok paths => run.delete marks table paths

def Run.collectGarbage (run : Run) (table : Table) : Collected :=
  if run.retainGenerations < 1 ∨ run.graceDays < 1 then ⟨table, [], [], .error .value⟩
  else if run.knownPointer = false then ⟨table, [], [], .error .unknownPointer⟩
  else match run.marks with
  | none => ⟨table, [], [], .error .mark⟩
  | some marks => run.afterMark marks table

/-- The table after some runs on a new state. -/
def tableAfter (runs : List Run) : Table := runs.foldl (fun table run => (run.collectGarbage table).table) []

end CardRag.Gc
