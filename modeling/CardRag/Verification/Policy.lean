import CardRag.Lib.PyList
import CardRag.Publish.Webdav

/-! # The verification policy (`webdav_verification.py`)

`VerificationPolicy` with the tables of the worker's state that it keeps. The hash of a scope stands for
what it hashes, `uuid4` and the server's answers are inputs, and times are microseconds. -/

namespace CardRag.Verification

open Publish (Path)

structure Settings where
  everyRuns : Nat
  maxAgeDays : Nat
  newCasGib : Nat
  forceFull : Bool
  /-- `mode == "strict"` -/
  strict : Bool
deriving DecidableEq

/-- What `scope` hashes. -/
structure Scope where
  endpoint : Str
  username : Str
  everyRuns : Nat
  maxAgeDays : Nat
  newCasGib : Nat
deriving DecidableEq

def Settings.scope (s : Settings) (endpoint username : Str) : Scope :=
  ⟨endpoint, username, s.everyRuns, s.maxAgeDays, s.newCasGib⟩

def microseconds (days : Nat) : Int := days * 86400 * 1000000

structure Audit where
  epoch : Str
  completedAt : Option Int
  runs : Nat
  newBytes : Nat
  pending : Bool
deriving DecidableEq

structure RunRecord where
  epoch : Option Str
  counted : Bool
  auditCompleted : Bool
deriving DecidableEq

/-- A record of the kind `cas`. -/
structure Intent where
  pending : Bool
  countedEpoch : Option Str
deriving DecidableEq

/-- A record of the kind `object`; its method is always `sha256-get`. -/
structure Receipt where
  sha256 : Str
  size : Nat
  etag : Option Str
  verifiedAt : Int
deriving DecidableEq

inductive Phase where
  | uploading
  | moved
  | quarantining
  | quarantined
  | verified
deriving DecidableEq

structure Journal where
  attempts : Nat := 0
  phase : Option Phase := none
  created : Bool := false
  quarantine : Path := []
  exhausted : Bool := false
deriving DecidableEq

inductive RunStatus where
  | running
  | succeeded
  | failed
  | noChange
  | interrupted
deriving DecidableEq

def RunStatus.finished (s : RunStatus) : Bool := s = .succeeded || s = .noChange

/-- The table `webdav_verification`, one field for each kind, and the statuses of `run`. A journal belongs
to an endpoint and a username. -/
structure Store where
  audits : List ((Scope × Str) × Audit) := []
  runs : List ((Scope × Str × Str) × RunRecord) := []
  intents : List ((Scope × Path) × Intent) := []
  objects : List ((Scope × Path) × Receipt) := []
  journals : List (((Str × Str) × Str × Path) × Journal) := []
  status : List (Str × RunStatus) := []

/-- A `VerificationPolicy`. -/
structure Policy where
  scope : Scope
  settings : Settings
  channel : Str
  runId : Str
  audit : Audit
  memo : List (Path × Str × Nat × Bool) := []
  auditDone : Bool := false
  sealId : Option Str := none
  generationId : Option Str := none

/-- The policy of the current run with the tables. -/
structure State where
  store : Store
  policy : Policy

structure Begin where
  settings : Settings
  endpoint : Str
  username : Str
  channel : Str
  runId : Str
  uuid : Str

def Begin.scope (b : Begin) : Scope := b.settings.scope b.endpoint b.username

inductive Reason where
  | baseline
  | age
  | incomplete
  | runs
  | bytes
  | forced
  | strict
deriving DecidableEq

/-- One call of `verify_sync` with the answers it gets: a `HEAD` with its size and ETag, and the ETag of
a read whose bytes match; `none` where an exception is raised. -/
structure VerifyCall where
  path : Path
  digest : Str
  size : Nat
  force : Bool
  now : Int
  head : Option (Option Nat × Option Str)
  read : Option (Option Str)
  readAt : Int

inductive Outcome where
  /-- From the memo. -/
  | reused
  /-- From a receipt and the `HEAD`. -/
  | confirmed
  | read
  | raised
deriving DecidableEq

namespace State

variable (s : State)

def putAudit (audit : Audit) : State :=
  ⟨{ s.store with audits := PyList.insert (s.policy.scope, s.policy.channel) audit s.store.audits },
    { s.policy with audit }⟩

def runRecord : Option RunRecord := PyList.get? s.store.runs (s.policy.scope, s.policy.channel, s.policy.runId)

def putRun (record : RunRecord) : State :=
  { s with store := { s.store with
      runs := PyList.insert (s.policy.scope, s.policy.channel, s.policy.runId) record s.store.runs } }

def intent (path : Path) : Option Intent := PyList.get? s.store.intents (s.policy.scope, path)

def putIntent (path : Path) (i : Intent) : State :=
  { s with store := { s.store with intents := PyList.insert (s.policy.scope, path) i s.store.intents } }

/-! ### Audits -/

def due (now : Int) : List Reason :=
  let a := s.policy.audit
  let set := s.policy.settings
  (match a.completedAt with
    | none => [Reason.baseline]
    | some completedAt =>
      if now < completedAt then [.baseline] else if microseconds set.maxAgeDays ≤ now - completedAt then [.age] else []) ++
    (if a.pending then [.incomplete] else []) ++
    (if set.everyRuns ≤ a.runs + 1 ∧ s.policy.auditDone = false then [.runs] else []) ++
    (if set.newCasGib * 1024 ^ 3 ≤ a.newBytes then [.bytes] else []) ++
    if s.policy.auditDone = false ∧ (set.forceFull ∨ set.strict) then [if set.forceFull then .forced else .strict] else []

def startAudit : State := s.putAudit { s.policy.audit with pending := true }

def completeAudit (now : Int) (uuid : Str) : State :=
  let s := (s.putAudit ⟨uuid, some now, 0, 0, false⟩).putRun ⟨none, false, true⟩
  { s with policy := { s.policy with auditDone := true } }

def finishRun : State :=
  match s.runRecord with
  | some record => if record.counted ∨ record.auditCompleted then s else counted
  | none => counted
where
  counted : State :=
    (s.putAudit { s.policy.audit with runs := s.policy.audit.runs + 1 }).putRun ⟨some s.policy.audit.epoch, true, false⟩

/-- The row of a finished run that nobody has counted. -/
def uncounted (row : (Scope × Str × Str) × RunRecord) : Bool :=
  row.1.1 = s.policy.scope && row.1.2.1 = s.policy.channel &&
    (PyList.get? s.store.status row.1.2.2).any RunStatus.finished &&
    row.2.epoch = some s.policy.audit.epoch && !row.2.counted && !row.2.auditCompleted

/-- `_reconcile_finished_runs`; each row is a run of its own. -/
def reconcileFinishedRuns : State :=
  let runs := s.store.runs.map fun row => if s.uncounted row then (row.1, { row.2 with counted := true }) else row
  let audit := { s.policy.audit with runs := s.policy.audit.runs + (s.store.runs.filter s.uncounted).length }
  ({ s with store := { s.store with runs } } : State).putAudit audit

/-- The audit is loaded, or there has been none. -/
def opened (store : Store) (b : Begin) : State :=
  let audit := (PyList.get? store.audits (b.scope, b.channel)).getD ⟨b.uuid, none, 0, 0, false⟩
  let policy : Policy := { scope := b.scope, settings := b.settings, channel := b.channel, runId := b.runId, audit }
  (⟨store, policy⟩ : State).putAudit audit

/-- `VerificationPolicy(…)`. -/
def begin (store : Store) (b : Begin) : State :=
  let s := (opened store b).reconcileFinishedRuns
  match s.runRecord with
  | some _ => s
  | none => s.putRun ⟨some s.policy.audit.epoch, false, false⟩

/-! ### Receipts -/

/-- The path is one of those an invalidation drops. -/
def covers (path : Path) (recursive : Bool) (p : Path) : Bool := p = path || recursive && path.isPrefixOf p

def invalidate (path : Path) (recursive : Bool) : State :=
  ⟨{ s.store with objects := s.store.objects.filter fun row => !(row.1.1 = s.policy.scope && covers path recursive row.1.2) },
    { s.policy with memo := s.policy.memo.filter fun row => !covers path recursive row.1 }⟩

inductive Found where
  | skip
  | receipt (r : Receipt)
  | nothing

/-- The receipt is for these bytes and recent. -/
def usable (r : Receipt) (digest : Str) (size : Nat) (now : Int) : Bool :=
  r.sha256 = digest && r.size = size && 0 ≤ r.verifiedAt && r.verifiedAt ≤ now &&
    now - r.verifiedAt < microseconds s.policy.settings.maxAgeDays

def lookup (path : Path) (digest : Str) (size : Nat) (force : Bool) (now : Int) : Found :=
  let memo := PyList.get? s.policy.memo path
  if memo.any fun m => m.1 = digest && m.2.1 = size && (m.2.2 || !force) then .skip
  else if force || (s.intent path).any (·.pending) then .nothing
  else match PyList.get? s.store.objects (s.policy.scope, path) with
    | some r => if s.usable r digest size now then .receipt r else .nothing
    | none => .nothing

/-- `_remember(…, full=False)`. -/
def rememberHead (path : Path) (digest : Str) (size : Nat) : State :=
  { s with policy := { s.policy with memo := PyList.insert path (digest, size, false) s.policy.memo } }

/-- The first verification after an upload counts its bytes. -/
def countUpload (path : Path) (size : Nat) : State :=
  if (s.intent path).any (·.pending) then
    (s.putAudit { s.policy.audit with newBytes := s.policy.audit.newBytes + size }).putIntent path
      ⟨false, some s.policy.audit.epoch⟩
  else s

/-- `_remember(…, full=True)`. -/
def rememberRead (path : Path) (digest : Str) (size : Nat) (etag : Option Str) (now : Int) : State :=
  (⟨{ s.store with objects := PyList.insert (s.policy.scope, path) ⟨digest, size, etag, now⟩ s.store.objects },
    { s.policy with memo := PyList.insert path (digest, size, true) s.policy.memo }⟩ : State).countUpload path size

def incoming (path : Path) : Bool := ["v1".toList, ".incoming".toList].isPrefixOf path

/-- The full read. -/
def readBytes (c : VerifyCall) : State × Outcome :=
  let s := s.invalidate c.path false
  match c.read with
  | none => (s, .raised)
  | some etag => (if incoming c.path then s else s.rememberRead c.path c.digest c.size etag c.readAt, .read)

def verifySync (c : VerifyCall) : State × Outcome :=
  match s.lookup c.path c.digest c.size c.force c.now with
  | .skip => (s, .reused)
  | .nothing => s.readBytes c
  | .receipt r =>
    match c.head with
    | none => (s.invalidate c.path false, .raised)
    | some (size, etag) =>
      if size = some c.size ∧ etag = r.etag then (s.rememberHead c.path c.digest c.size, .confirmed)
      else s.readBytes c

/-! ### Uploads -/

def journalKey (path : Path) : (Str × Str) × Str × Path :=
  ((s.policy.scope.endpoint, s.policy.scope.username), s.policy.sealId.getD "None".toList, path)

def journal (path : Path) : Journal := (PyList.get? s.store.journals (s.journalKey path)).getD {}

def saveJournal (path : Path) (j : Journal) : State :=
  { s with store := { s.store with journals := PyList.insert (s.journalKey path) j s.store.journals } }

/-- The path is a member of the generation that is sealed. -/
def sealed (path : Path) : Bool :=
  s.policy.sealId.isSome && s.policy.generationId.any (path.dropLast.getLast? = some ·)

/-- `upload_intent`; `none` is the exhausted retry budget. -/
def uploadIntent (path : Path) : State × Bool :=
  let s := s.invalidate path false
  if ["v1".toList, "objects".toList, "sha256".toList].isPrefixOf path then
    if (s.intent path).any (·.countedEpoch = some s.policy.audit.epoch) then (s, true)
    else (s.putIntent path ⟨true, none⟩, true)
  else if s.sealed path then
    let j := s.journal path
    if j.exhausted ∨ 2 ≤ j.attempts then (s, false)
    else (s.saveJournal path { j with attempts := j.attempts + 1, phase := some .uploading, created := false }, true)
  else (s, true)

def moved (path : Path) (statusCode : Nat) : State :=
  if s.sealed path then
    s.saveJournal path { s.journal path with phase := some .moved, created := statusCode = 201 }
  else s

/-- `delete`: a generation or an OCR run is forgotten with all that is under it. -/
def recursive (path : Path) : Bool :=
  path.take 2 = ["v1".toList, "generations".toList] || path.take 2 = ["v1".toList, "ocr-cache".toList]

end State

/-! ### Runs -/

/-- What the worker does. A process that stops goes on with the next `begin`. -/
inductive Event where
  | begin (b : Begin)
  | bind (sealId generationId : Str)
  | verify (c : VerifyCall)
  | upload (path : Path)
  | moved (path : Path) (statusCode : Nat)
  | delete (path : Path)
  /-- `put_bytes`, and a member that is put in quarantine. -/
  | invalidate (path : Path)
  /-- After a failed read of the pointer, and when the pointer is another's. -/
  | clearMemo
  | startAudit
  | completeAudit (now : Int) (uuid : Str)
  /-- The run's status is recorded. -/
  | status (runId : Str) (status : RunStatus)
  | finish

namespace State

def step (s : State) : Event → State
  | .begin b => begin s.store b
  | .bind sealId generationId => { s with policy := { s.policy with sealId := some sealId, generationId := some generationId } }
  | .verify c => (s.verifySync c).1
  | .upload path => (s.uploadIntent path).1
  | .moved path statusCode => s.moved path statusCode
  | .delete path => s.invalidate path (recursive path)
  | .invalidate path => s.invalidate path false
  | .clearMemo => { s with policy := { s.policy with memo := [] } }
  | .startAudit => s.startAudit
  | .completeAudit now uuid => s.completeAudit now uuid
  | .status runId status => { s with store := { s.store with status := PyList.insert runId status s.store.status } }
  | .finish => s.finishRun

def start (b : Begin) : State := begin {} b

end State

end CardRag.Verification
