import CardRag.Core
import CardRag.Lib.Interleave

/-! # The generation of a running job (`experimental_map_reduce.py`, `store.py`)

A job reads the generation it was started on, and a GC root keeps that generation. Starters claim the
root before they take the lease of the job, and failed starts, completion and cancellation release it.
However requests interleave, fail or crash, a job with progress and without a terminal marker has the
root of its generation (`running_job_rooted`). What the requests do besides is `other`. -/

namespace CardRag.MapReduce

open Interleave

/-- The operations that roots, leases and markers depend on, each under the lock or the lease its code
takes. `releaseUnstarted` is the release of `_release_unstarted_claim`. -/
inductive RootOp where
  | claimCurrent (querySha256 profileId : Str)
  | acquireJob (jobId : Str)
  | releaseLease (jobId : Str)
  | inspect (jobId : Str)
  | discardUnstarted (jobId : Str)
  | releaseRoot (jobId generationId : Str)
  | releaseUnstarted (jobId generationId : Str)
  | generationForRoot (jobId : Str)
  | verifyRoot (jobId generationId : Str)
  | begin (jobId generationId : Str)
  | complete (jobId : Str)
  | cancel (jobId : Str)
  | activate (generationId : Str)
  | other

inductive RootReply where
  | claimed (jobId generationId : Str)
  /-- The generation of the progress, and whether there is a terminal marker. -/
  | inspected (found : Option (Str × Bool))
  | root (generationId : Option Str)
  | flag (b : Bool)
  | returned
  | raised
  | crashed

/-- An exception runs the handlers of a request, a crash does not. -/
inductive RootFailure where
  | raised
  | crashed
deriving DecidableEq

abbrev RootTask (α : Type) := ExceptT RootFailure (Prog RootOp RootReply) α

/-- What is on disk, and who holds the lease of a slot. `unstarted` has, for every root that a failed
start released, what progress the job had then. -/
structure RootWorld (ι : Type) where
  current : Str
  roots : Str → Option Str
  progress : Str → Option Str
  terminal : Str → Bool
  lease : Nat → Option ι
  unstarted : List (Str × Option Str)

inductive ResumeAction where
  | poll
  | cancel
deriving DecidableEq

/-- A request; `activate` is a generation switch of the updater, with the pruning after it. -/
inductive JobRequest where
  | start (querySha256 profileId : Str)
  | resume (jobId querySha256 profileId : Str) (action : ResumeAction)
  | activate (generationId : Str)

namespace RootTask

def ask (op : RootOp) : RootTask RootReply := do
  match ← ExceptT.lift (Prog.ask op) with
  | .raised => throw .raised
  | .crashed => throw .crashed
  | r => pure r

def perform (op : RootOp) : RootTask Unit := do
  let _ ← ask op
  pure ()

/-- A check that raises. -/
def require (c : Prop) [Decidable c] : RootTask Unit := if c then pure () else throw .raised

/-- `except BaseException: …; raise`; after a crash nothing runs. -/
def onRaised (handler : RootTask Unit) (e : RootFailure) : RootTask Unit :=
  if e = .raised then do
    handler
    throw e
  else throw e

def inspect (jobId : Str) : RootTask (Option (Str × Bool)) := do
  match ← ask (.inspect jobId) with
  | .inspected found => pure found
  | _ => throw .raised

def generationForRoot (jobId : Str) : RootTask (Option Str) := do
  match ← ask (.generationForRoot jobId) with
  | .root generationId => pure generationId
  | _ => throw .raised

def discardUnstarted (jobId : Str) : RootTask Bool := do
  match ← ask (.discardUnstarted jobId) with
  | .flag b => pure b
  | _ => throw .raised

/-- `lease = await acquire_job(…)` and `finally: lease.release()`. -/
def withLease (jobId : Str) (task : RootTask Unit) : RootTask Unit := do
  perform (.acquireJob jobId)
  tryCatch task (onRaised (perform (.releaseLease jobId)))
  perform (.releaseLease jobId)

def completeAndRelease (jobId generationId : Str) : RootTask Unit := do
  perform (.complete jobId)
  perform (.releaseRoot jobId generationId)

/-- `_advance`: at most one provider call, and the end of the job if its reduction is terminal. -/
def advance (jobId generationId : Str) : RootTask Unit := do
  match ← ask .other with
  | .flag true => completeAndRelease jobId generationId
  | _ => pure ()

def releaseUnstartedClaim (jobId generationId : Str) : RootTask Unit := do
  match ← inspect jobId with
  | some _ => pure ()
  | none =>
    match ← discardUnstarted jobId with
    | false => pure ()
    | true => perform (.releaseUnstarted jobId generationId)

def beginWithGenerationRoot (jobId generationId : Str) : RootTask Unit := do
  match ← generationForRoot jobId with
  | none => throw .raised
  | some existing =>
    require (existing = generationId)
    perform (.begin jobId generationId)

/-- `_start_locked`, with the pin of `_start`. -/
def startLocked (jobId generationId : Str) : RootTask Unit := do
  perform .other
  match ← inspect jobId with
  | none =>
    perform .other
    beginWithGenerationRoot jobId generationId
    advance jobId generationId
  | some (found, true) =>
    require (found = generationId)
    perform (.releaseRoot jobId generationId)
  | some (found, false) =>
    require (found = generationId)
    perform .other
    perform (.verifyRoot jobId generationId)
    perform .other
    advance jobId generationId

section
variable (jobIdOf : Str → Str → Str → Str)

/-- `_start`, where `jobIdOf` is the job id of `_identity`. -/
def start (querySha256 profileId : Str) : RootTask Unit := do
  match ← ask (.claimCurrent querySha256 profileId) with
  | .claimed jobId generationId =>
    require (jobIdOf generationId querySha256 profileId = jobId)
    withLease jobId (tryCatch (startLocked jobId generationId) (onRaised (releaseUnstartedClaim jobId generationId)))
  | _ => throw .raised

/-- `job_store.begin` or `job_store.load`. -/
def beginOrLoad (jobId generationId : Str) : Bool → RootTask Unit
  | false => perform (.begin jobId generationId)
  | true => perform .other

/-- What a poll or a cancellation is for. -/
def finishResume (jobId generationId : Str) : ResumeAction → RootTask Unit
  | .poll => advance jobId generationId
  | .cancel => do
    perform .other
    perform (.cancel jobId)
    perform (.releaseRoot jobId generationId)

/-- The end of `_resume_locked`, with the generation pinned. -/
def resumePinned (jobId generationId : Str) (started : Bool) (action : ResumeAction) : RootTask Unit := do
  perform .other
  perform (.verifyRoot jobId generationId)
  perform .other
  beginOrLoad jobId generationId started
  finishResume jobId generationId action

def resumeLocked (jobId querySha256 profileId : Str) (action : ResumeAction) : RootTask Unit := do
  perform .other
  match ← inspect jobId with
  | none =>
    match ← generationForRoot jobId with
    | none => throw .raised
    | some generationId =>
      require (jobIdOf generationId querySha256 profileId = jobId)
      resumePinned jobId generationId false action
  | some (generationId, true) =>
    require (jobIdOf generationId querySha256 profileId = jobId)
    perform (.releaseRoot jobId generationId)
  | some (generationId, false) =>
    require (jobIdOf generationId querySha256 profileId = jobId)
    resumePinned jobId generationId true action

/-- A request of a process. -/
def serve : JobRequest → RootTask Unit
  | .start querySha256 profileId => start jobIdOf querySha256 profileId
  | .resume jobId querySha256 profileId action =>
    withLease jobId (resumeLocked jobIdOf jobId querySha256 profileId action)
  | .activate generationId => perform (.activate generationId)

end

end RootTask

/-! ### What an operation does -/

section
variable {ι : Type} (jobIdOf : Str → Str → Str → Str) (slot : Str → Nat) (i : ι)

/-- An operation that does what it is for. -/
inductive Done : RootWorld ι → RootOp → RootReply → RootWorld ι → Prop
  | claimExisting {w querySha256 profileId jobId generationId} : w.roots jobId = some generationId →
      jobIdOf generationId querySha256 profileId = jobId →
      Done w (.claimCurrent querySha256 profileId) (.claimed jobId generationId) w
  | claimNew {w querySha256 profileId} : w.roots (jobIdOf w.current querySha256 profileId) = none →
      Done w (.claimCurrent querySha256 profileId) (.claimed (jobIdOf w.current querySha256 profileId) w.current)
        { w with roots := Function.update w.roots (jobIdOf w.current querySha256 profileId) (some w.current) }
  | acquireJob {w jobId} : w.lease (slot jobId) = none →
      Done w (.acquireJob jobId) .returned { w with lease := Function.update w.lease (slot jobId) (some i) }
  | releaseLease {w jobId} : w.lease (slot jobId) = some i →
      Done w (.releaseLease jobId) .returned { w with lease := Function.update w.lease (slot jobId) none }
  | inspect {w jobId} :
      Done w (.inspect jobId) (.inspected ((w.progress jobId).map fun g => (g, w.terminal jobId))) w
  | discarded {w jobId} : w.progress jobId = none → Done w (.discardUnstarted jobId) (.flag true) w
  | notEmpty {w jobId} : Done w (.discardUnstarted jobId) (.flag false) w
  | releaseRoot {w jobId generationId} : w.roots jobId = none ∨ w.roots jobId = some generationId →
      Done w (.releaseRoot jobId generationId) .returned { w with roots := Function.update w.roots jobId none }
  | releaseUnstarted {w jobId generationId} : w.roots jobId = none ∨ w.roots jobId = some generationId →
      Done w (.releaseUnstarted jobId generationId) .returned
        { w with roots := Function.update w.roots jobId none, unstarted := (jobId, w.progress jobId) :: w.unstarted }
  | generationForRoot {w jobId} : Done w (.generationForRoot jobId) (.root (w.roots jobId)) w
  | verifyRoot {w jobId generationId} : w.roots jobId = some generationId →
      Done w (.verifyRoot jobId generationId) .returned w
  | begin {w jobId generationId} : Done w (.begin jobId generationId) .returned
      { w with progress := Function.update w.progress jobId (some generationId) }
  | complete {w jobId} : w.progress jobId ≠ none → Done w (.complete jobId) .returned
      { w with terminal := Function.update w.terminal jobId true }
  | cancel {w jobId} : w.progress jobId ≠ none → Done w (.cancel jobId) .returned
      { w with terminal := Function.update w.terminal jobId true }
  | activate {w generationId} : Done w (.activate generationId) .returned { w with current := generationId }
  | other {w} (r : RootReply) : r = .returned ∨ (∃ b, r = .flag b) → Done w .other r w

end

/-- An operation as a process meets it: it may raise or crash before it takes effect or after. -/
inductive ServeRoot {ι : Type} [DecidableEq ι] (jobIdOf : Str → Str → Str → Str) (slot : Str → Nat) (i : ι) :
    RootWorld ι → RootOp → RootReply → RootWorld ι → Prop
  | done {w op r w'} : Done jobIdOf slot i w op r w' → ServeRoot jobIdOf slot i w op r w'
  | raised {w op} : ServeRoot jobIdOf slot i w op .raised w
  | raisedAfter {w op r w'} : Done jobIdOf slot i w op r w' → ServeRoot jobIdOf slot i w op .raised w'
  | crashed {w op} : ServeRoot jobIdOf slot i w op .crashed
      { w with lease := fun s => if w.lease s = some i then none else w.lease s }
  | crashedAfter {w op r w'} : Done jobIdOf slot i w op r w' →
      ServeRoot jobIdOf slot i w op .crashed
        { w' with lease := fun s => if w'.lease s = some i then none else w'.lease s }

end CardRag.MapReduce
