import CardRag.Backup.Ledger

/-! # The flush (`backup.py`)

`BackupLedger.flush` as the steps between which other processes may run: it opens under the lock, transports
one row after the other, publishes the index, deletes the rows it has verified and reports. What the network
and the clock do is given to each step. -/

namespace CardRag.Backup

open Publish (Path Bytes)

structure IndexItem where
  remotePath : Path
  sha256 : Str
  sizeBytes : Nat
  documentId : Option Str
  info : Option DocInfo
deriving DecidableEq

/-- `v1/backup/index.json`. -/
inductive Index where
  | absent
  | unreadable
  | present (items : List IndexItem)
deriving DecidableEq

structure Remote where
  objects : List (Path × Bytes)
  index : Index
deriving DecidableEq

/-- The digest and the size, where known, of each bound path. -/
abbrev Bindings := List (Path × (Str × Option Nat))

structure Request where
  root : Str
  force : Bool
  /-- `should_trigger`. -/
  due : Bool
  /-- A client can be made. -/
  client : Bool
  allowed : Option (List Path)
  expected : Option Bindings
deriving DecidableEq

inductive Phase where
  | transporting
  | published (committed : Bool)
  | settled
deriving DecidableEq

structure Flush where
  request : Request
  queue : List Row
  /-- The receipts before the first row. -/
  existing : List Receipt
  verified : List Row
  conflicts : Nat
  phase : Phase
deriving DecidableEq

structure System where
  ledger : State
  remote : Remote
  flush : Option Flush
  /-- `backup_scope_complete` of the flushes that returned, the newest first. -/
  reports : List (Request × Option Bool)
deriving DecidableEq

/-! ### Diagnostics -/

namespace State

variable (s : State) (expected : Bindings) (root : Str)

/-- The receipt of the path that the dictionary of a root keeps. -/
def receiptByPath (p : Path) : Option Receipt := (s.receiptsAt root p).getLast?

def foreignConflict (p : Path) (sha : Str) : Bool :=
  s.receipts.any fun r => r.remoteRoot ≠ root ∧ r.remotePath = p ∧ r.sha256 ≠ sha

def matches? (p : Path) (b : Str × Option Nat) : Bool :=
  (s.receiptByPath root p).any fun r => (r.sha256, some r.sizeBytes) = b

/-- `_scoped_integrity`: the conflicts, the paths with a receipt, and the missing. -/
def scopedIntegrity : List Path × List (Path × Str) × List Path :=
  let undone := expected.filter fun e => !s.matches? root e.1 e.2
  ((undone.filter fun e => (s.receiptByPath root e.1).isSome || s.foreignConflict root e.1 e.2.1).map (·.1),
    (expected.filter fun e => s.matches? root e.1 e.2).map fun e => (e.1, e.2.1),
    PyList.sortedBy id ((undone.filter fun e => e.1 ∉ s.pendingPaths).map (·.1)))

end State

/-- The counters of `_scope_diagnostics` that completion reads. -/
structure Diagnostics where
  remaining : Nat
  conflicts : Nat
  missing : Nat
  unbound : Nat

/-- A row disagrees with the binding. -/
def disagrees (b : Str × Option Nat) (sha : Str) (size : Nat) : Bool := b.1 ≠ sha || b.2.any (· ≠ size)

def State.scopeDiagnostics (s : State) (allowed : List Path) (expected : Bindings) (root : Str) (transportConflicts : Nat) :
    Diagnostics :=
  let inside := s.pending.filter (·.remotePath ∈ allowed)
  let rows := inside.filter fun r => (PyList.get? expected r.remotePath).any (disagrees · r.sha256 r.sizeBytes)
  let (conflicts, _, missing) := s.scopedIntegrity expected root
  { remaining := inside.length
    conflicts := max transportConflicts (rows.map (·.remotePath) ++ conflicts).dedup.length
    missing := missing.length
    unbound := (allowed.filter fun p => p ∉ expected.map (·.1)).length }

/-! ### The index -/

/-- `_remote_index_entries`: the last item of a path counts. -/
def entries (items : List IndexItem) (p : Path) : Option Str := (items.reverse.find? (·.remotePath = p)).map (·.sha256)

/-- `_scoped_completion`, with what the last read of the index finds. -/
def scopedCompletion (s : State) (index : Index) (expected : Bindings) (d : Diagnostics) (root : Str) : Option Bool :=
  if d.remaining ≠ 0 ∨ d.conflicts ≠ 0 ∨ d.unbound ≠ 0 ∨ d.missing ≠ 0 then some false
  else
    let (conflicts, done, _) := s.scopedIntegrity expected root
    if conflicts ≠ [] then some false
    else match index with
      | .present items => some (done.all fun e => entries items e.1 = some e.2)
      | _ => none

/-- The committed index omits or contradicts a receipt of the root. -/
def repairNeeded (s : State) (index : Index) (root : Str) : Bool :=
  match index with
  | .present items => s.receipts.any fun r => r.remoteRoot = root ∧ entries items r.remotePath ≠ some r.sha256
  | _ => false

def indexItem (s : State) (r : Receipt) : IndexItem :=
  let info := PyList.get? s.docInfo r.remotePath
  -- what `doc_info_` says takes the place of `doc_map_`
  ⟨r.remotePath, r.sha256, r.sizeBytes, (info.map (·.documentId)).or (PyList.get? s.docMap r.remotePath), info⟩

/-- The items of the next index; `none` where the committed one cannot be read. -/
def nextItems (s : State) (index : Index) (root : Str) (expected : Option Bindings) : Option (List IndexItem) :=
  let merge (old : List IndexItem) :=
    let byPath := (s.receipts.filter (·.remoteRoot = root)).foldl (fun d r => PyList.insert r.remotePath (indexItem s r) d)
      (PyList.dictOf (·.remotePath) old)
    -- an entry that contradicts its binding is dropped
    PyList.values (byPath.filter fun e => !((expected.bind (PyList.get? · e.1)).any (·.1 ≠ e.2.sha256)))
  match index with
  | .present items => some (merge items)
  | .absent => some (merge [])
  | .unreadable => none

/-! ### Rows -/

/-- What is done with a row. -/
inductive Action where
  /-- Held without evidence, or in conflict. -/
  | blocked (conflict : Bool)
  | reuse
  | lost
  | upload (body : Bytes)
deriving DecidableEq

/-- The local file of a row, or its pinned copy. -/
def State.source (s : State) (row : Row) : Option Bytes := (PyList.get? s.files row.localPath).or (PyList.get? s.spool row.sha256)

section
variable (sha256 : Bytes → Str)

def examine (q : Request) (before : State) (s : State) (row : Row) : Action :=
  let binding := q.expected.bind (PyList.get? · row.remotePath)
  let receipt := before.receiptByPath q.root row.remotePath
  if q.expected.isSome ∧ binding = none then .blocked false
  else if binding.any (disagrees · row.sha256 row.sizeBytes) then .blocked true
  else if binding.any fun b => receipt.any (·.sha256 ≠ b.1) then .blocked true
  else if binding.any fun b => before.foreignConflict q.root row.remotePath b.1 then .blocked true
  else if receipt.any fun r => (r.sha256, r.sizeBytes) = (row.sha256, row.sizeBytes) then .reuse
  else match s.source row with
    | none => .lost
    | some body => if binding.any (sha256 body ≠ ·.1) then .blocked true else .upload body

/-- What a `put_bytes` comes to. A failed one may have stored the body. -/
inductive Answer where
  | done
  | failed (stored : Bool)
deriving DecidableEq

/-- `put_bytes`: stored once; other bytes at the path are refused. -/
def putBytes (objects : List (Path × Bytes)) (p : Path) (body : Bytes) (answer : Answer) : List (Path × Bytes) × Bool :=
  match PyList.get? objects p, answer with
  | some old, .done => (objects, old = body)
  | none, .done => (PyList.insert p body objects, true)
  | none, .failed true => (PyList.insert p body objects, false)
  | _, .failed _ => (objects, false)

def markLost (s : State) (itemId : Str) : State :=
  { s with pending := s.pending.map fun r => if r.itemId = itemId then { r with status := .lostSource } else r }

/-- The next row of the queue. -/
def transport (y : System) (f : Flush) (row : Row) (rest : List Row) (answer : Answer) : System :=
  match examine sha256 f.request { y.ledger with receipts := f.existing } y.ledger row with
  | .blocked conflict =>
    { y with flush := some { f with queue := rest, conflicts := f.conflicts + conflict.toNat } }
  | .reuse => { y with flush := some { f with queue := rest, verified := f.verified ++ [row] } }
  | .lost => { y with ledger := markLost y.ledger row.itemId, flush := some { f with queue := rest } }
  | .upload body =>
    match putBytes y.remote.objects row.remotePath body answer with
    | (objects, true) =>
      { y with
        remote := { y.remote with objects }
        ledger := y.ledger.insertReceipt ⟨row.remotePath, f.request.root, row.sha256, row.sizeBytes⟩
        flush := some { f with queue := rest, verified := f.verified ++ [row] } }
    -- a failure ends the rows of this flush
    | (objects, false) => { y with remote := { y.remote with objects }, flush := some { f with queue := [] } }

/-! ### Steps -/

/-- A lost row whose file has appeared is pending again. -/
def unmarkLost (s : State) : State :=
  { s with pending := s.pending.map fun r =>
      if r.status = .lostSource ∧ (s.source r).isSome then { r with status := .pending } else r }

def report (y : System) (q : Request) (complete : Option Bool) : System :=
  { y with flush := none, reports := (q, complete) :: y.reports }

/-- `backup_scope_complete` of a scoped flush. -/
def verdict (y : System) (q : Request) (readable : Bool) (transportConflicts : Nat) : Option Bool :=
  match q.allowed, q.expected with
  | some allowed, some expected =>
    if q.client then
      scopedCompletion y.ledger (if readable then y.remote.index else .unreadable) expected
        (y.ledger.scopeDiagnostics allowed expected q.root transportConflicts) q.root
    else none
  | _, _ => none

/-- The flush takes the lock and the rows. Without rows it reads the index for a repair, and again to report. -/
def begin (y : System) (q : Request) (probe readable : Bool) : System :=
  if y.flush.isSome then { y with reports := (q, none) :: y.reports }
  else
    let y := { y with ledger := unmarkLost y.ledger }
    let pending := PyList.sortedBy (·.createdAt) (y.ledger.pending.filter (·.status = .pending))
    let pending := pending.filter fun r => q.allowed.all (r.remotePath ∈ ·)
    if pending = [] ∧ (q.force && q.client && probe && repairNeeded y.ledger y.remote.index q.root) = false then
      report y q (verdict y q readable 0)
    else if (q.force || q.due) = false ∨ q.client = false then report y q none
    else { y with flush := some ⟨q, pending, y.ledger.receipts, [], 0, .transporting⟩ }

/-- The index and its pointer are published. -/
def publish (y : System) (f : Flush) (done : Bool) : System :=
  let wanted := f.verified ≠ [] ∨ repairNeeded y.ledger y.remote.index f.request.root
  match nextItems y.ledger y.remote.index f.request.root f.request.expected with
  | some items =>
    if wanted ∧ done = true then
      let listed := y.ledger.receipts.filter fun r => r.remoteRoot = f.request.root ∧ entries items r.remotePath = some r.sha256
      { y with
        ledger := { y.ledger with history := .listed listed :: y.ledger.history }
        remote := { y.remote with index := .present items }
        flush := some { f with phase := .published true } }
    else { y with flush := some { f with phase := .published false } }
  | none => { y with flush := some { f with phase := .published false } }

/-- The rows that have the item id of a verified row are deleted. -/
def deleteVerified (s : State) (v : Row) : State :=
  { s.deleteRow v.itemId with history := .deleted v (s.pending.filter (·.itemId = v.itemId)) :: s.history }

/-- The verified rows are deleted, with their pinned copies. -/
def settle (y : System) (f : Flush) (committed : Bool) : System :=
  let ledger := if committed then
      { f.verified.foldl deleteVerified y.ledger with
        spool := y.ledger.spool.filter fun e => e.1 ∉ f.verified.map (·.sha256) }
    else y.ledger
  { y with ledger, flush := some { f with phase := .settled } }

inductive Event where
  | document (root runId : Str) (now : Int) (known : Known) (bundles : List Bundle)
  | run (root runId : Str) (now : Int) (evidence : RunEvidence)
  /-- The local files and the pinned ones are changed or removed. -/
  | disk (files spool : List (Str × Bytes))
  | begin (q : Request) (probe readable : Bool)
  | transport (answer : Answer)
  /-- The data budget is spent. -/
  | stop
  | publish (done : Bool)
  | settle
  | conclude (readable : Bool)
  | crash

/-- The flush and the row that are next to be transported. -/
def System.next (y : System) : Option (Flush × Row × List Row) :=
  match y.flush with
  | some f =>
    match f.queue with
    | row :: rest => if f.phase = .transporting then some (f, row, rest) else none
    | [] => none
  | none => none

/-- An event out of its phase does nothing. -/
def step (y : System) : Event → System
  | .document root runId now known bundles =>
    { y with ledger := recordDocumentOcr sha256 root runId now y.ledger known bundles }
  | .run root runId now evidence => { y with ledger := recordRunSuccess sha256 root runId now y.ledger evidence }
  | .disk files spool => { y with ledger := { y.ledger with files, spool } }
  | .begin q probe readable => begin y q probe readable
  | .transport answer =>
    match y.next with
    | some (f, row, rest) => transport sha256 y f row rest answer
    | none => y
  | .stop => { y with flush := y.flush.map fun f => { f with queue := [] } }
  | .publish done =>
    match y.flush with
    | some ⟨q, [], existing, verified, conflicts, .transporting⟩ =>
      publish y ⟨q, [], existing, verified, conflicts, .transporting⟩ done
    | _ => y
  | .settle =>
    match y.flush with
    | some ⟨q, queue, existing, verified, conflicts, .published committed⟩ =>
      settle y ⟨q, queue, existing, verified, conflicts, .published committed⟩ committed
    | _ => y
  | .conclude readable =>
    match y.flush with
    | some ⟨q, _, _, _, conflicts, .settled⟩ => report y q (verdict y q readable conflicts)
    | _ => y
  | .crash => { y with flush := none }

end

end CardRag.Backup
