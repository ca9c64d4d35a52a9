import CardRag.Core
import CardRag.Lib.Interleave

/-! # Immutable publication (`cas.py`, `webdav.py`)

`ImmutablePublisher._publish` as a program over the requests of its WebDAV client. A path is the list
of its parts. The digest of bytes is a parameter `sha256`. -/

namespace CardRag.Publish

open Interleave

abbrev Bytes := List UInt8

abbrev Path := List Str

/-- `[A-Za-z0-9._-]`. -/
def isPortable (c : Char) : Bool := c.isAlphanum || c = '.' || c = '_' || c = '-'

/-- `_SAFE_SEGMENT`, less `.` and `..`. -/
def safeSegment : Str → Bool
  | [] => false
  | c :: cs => (c.isAlphanum || c = '.') && cs.all isPortable && decide (cs.length ≤ 254) &&
      decide (c :: cs ≠ ".".toList) && decide (c :: cs ≠ "..".toList)

/-- `validate_relative_path` accepts the path. -/
def validPath (p : Path) : Bool := decide (p ≠ []) && p.all safeSegment

/-! ### The client -/

/-- A request to the server, or something the call does without it: drawing a `uuid4` and running the
caller's `pre_commit`. -/
inductive Op where
  | head (path : Path)
  | mkcol (path : Path)
  | put (path : Path) (content : Bytes) (contentType : Str)
  | get (path : Path)
  | move (source destination : Path)
  | delete (path : Path)
  | uuid4
  | preCommit

/-- `failed` is no response at all, or an exception of local code; `interrupted` is an exception that
is no `Exception`, such as `KeyboardInterrupt`. -/
inductive Reply where
  | status (code : Nat)
  | body (content : Bytes)
  | hex (uuid : Str)
  | returned
  | failed
  | interrupted

/-- What is raised: `WebDAVHTTPError` with its status, or another exception. -/
inductive Failure where
  | http (status : Nat)
  | integrity
  | webdav
  | value
  | local
  | interrupted
deriving DecidableEq

abbrev Task (α : Type) := ExceptT Failure (Prog Op Reply) α

def ask (op : Op) : Task Reply := do
  match ← ExceptT.lift (Prog.ask op) with
  | .interrupted => throw .interrupted
  | r => pure r

def request (op : Op) (expected : List Nat) : Task Unit := do
  match ← ask op with
  | .status code => if code ∈ expected then pure () else throw (.http code)
  | _ => throw .webdav

/-- `exists`. -/
def existsAt (p : Path) : Task Bool :=
  tryCatch (do request (.head p) [200, 204]; pure true) fun e => if e = .http 404 then pure false else throw e

/-- `ensure_collection`, with `mkcol(…, exist_ok=True)` on every parent. -/
def ensureCollection (p : Path) : Task Unit :=
  if validPath p = false then throw .value
  else (p.inits.drop 1).forM fun current => request (.mkcol current) [201, 405]

def put (p : Path) (content : Bytes) (contentType : Str) : Task Unit :=
  request (.put p content contentType) [200, 201, 204]

def move (source destination : Path) : Task Unit := request (.move source destination) [201, 204]

def delete (p : Path) : Task Unit := request (.delete p) [200, 202, 204, 404]

/-! ### The publisher -/

structure Publication where
  destination : Path
  digest : Str
  sizeBytes : Nat
  mediaType : Str
  content : Bytes
  hasPreCommit : Bool

structure ArtifactRef where
  sha256 : Str
  sizeBytes : Nat
  mediaType : Str
  path : Path

def Publication.ref (r : Publication) : ArtifactRef := ⟨r.digest, r.sizeBytes, r.mediaType, r.destination⟩

def temporaryPath (uuid : Str) : Path :=
  ["v1".toList, ".incoming".toList, "publish".toList, uuid ++ ".tmp".toList]

section
variable (sha256 : Bytes → Str)

/-- The bytes a publication asks for. -/
def Publication.Accepts (r : Publication) (content : Bytes) : Prop :=
  content.length = r.sizeBytes ∧ sha256 content = r.digest

/-- `_verify_remote`, that is `verify`. -/
def verifyRemote (r : Publication) (p : Path) : Task Unit := do
  if isSha256 r.digest = false then throw .value
  match ← ask (.get p) with
  | .body content =>
    if content.length ≠ r.sizeBytes then throw .integrity
    else if sha256 content ≠ r.digest then throw .integrity
    else pure ()
  | .status code => throw (.http code)
  | _ => throw .webdav

def newTemporary : Task Path := do
  match ← ask .uuid4 with
  | .hex uuid => pure (temporaryPath uuid)
  | _ => throw .local

def runPreCommit (r : Publication) : Task Unit :=
  if r.hasPreCommit then do
    match ← ask .preCommit with
    | .returned => pure ()
    | _ => throw .local
  else pure ()

/-- The move; a collision when the server says so and the destination exists. -/
def moveOrCollide (temporary destination : Path) : Task Unit :=
  tryCatch (move temporary destination) fun e =>
    if e = .http 409 ∨ e = .http 412 then do
      if ← existsAt destination then pure () else throw e
    else throw e

/-- Uploads, reads back and moves. -/
def commit (r : Publication) (temporary : Path) : Task Unit := do
  put temporary r.content r.mediaType
  verifyRemote sha256 r temporary
  runPreCommit r
  moveOrCollide temporary r.destination
  -- `_verify_collision` and `_verify_remote` are the same readback
  verifyRemote sha256 r r.destination

/-- The deletion, with `suppress(Exception)`. -/
def cleanUp (temporary : Path) : Task Unit :=
  tryCatch (delete temporary) fun e => if e = .interrupted then throw e else pure ()

def publish (r : Publication) : Task ArtifactRef := do
  if validPath r.destination = false then throw .value
  if ← existsAt r.destination then
    verifyRemote sha256 r r.destination
    return r.ref
  ensureCollection r.destination.dropLast
  let temporary ← newTemporary
  ensureCollection temporary.dropLast
  tryCatch (commit sha256 r temporary) fun e => do
    cleanUp temporary
    throw e
  cleanUp temporary
  return r.ref

end

/-! ### The server -/

/-- The objects of the server; the names drawn for temporary objects, with the calls that drew them;
and what was asked and replied, the last first. -/
structure World (ι : Type) where
  objects : Path → Option Bytes
  temporaries : List (ι × Path)
  trace : List (ι × Op × Reply)

/-- How a request may change the objects. A `PUT` may store anything, a `MOVE` moves an object to a
path that has none or does nothing, and the status says nothing more. A `GET` is answered with the
bytes that are there. -/
inductive Served (objects : Path → Option Bytes) : Op → Reply → (Path → Option Bytes) → Prop where
  | idle (op : Op) (r : Reply) (h : ∀ content, r ≠ .body content) : Served objects op r objects
  | get {path : Path} {content : Bytes} (h : objects path = some content) :
      Served objects (.get path) (.body content) objects
  | put (path : Path) (sent : Bytes) (contentType : Str) (stored : Bytes) (code : Reply)
      (h : ∀ content, code ≠ .body content) :
      Served objects (.put path sent contentType) code (Function.update objects path (some stored))
  | move {source destination : Path} {content : Bytes} (hs : objects source = some content)
      (hd : objects destination = none) (code : Reply) (h : ∀ content, code ≠ .body content) :
      Served objects (.move source destination) code
        (Function.update (Function.update objects source none) destination (some content))
  | delete (path : Path) (code : Reply) (h : ∀ content, code ≠ .body content) :
      Served objects (.delete path) code (Function.update objects path none)

variable {ι : Type} (requests : ι → Publication)

/-- A name that `uuid4` gives: no call has drawn it and no call publishes there. -/
def Fresh (w : World ι) (p : Path) : Prop := (∀ x ∈ w.temporaries, x.2 ≠ p) ∧ ∀ j, (requests j).destination ≠ p

/-- One request of call `i`. -/
inductive Serve (i : ι) (w : World ι) : Op → Reply → World ι → Prop where
  | remote {op : Op} {r : Reply} {objects : Path → Option Bytes} (h : Served w.objects op r objects) (hop : op ≠ .uuid4) :
      Serve i w op r ⟨objects, w.temporaries, (i, op, r) :: w.trace⟩
  | uuid4 {uuid : Str} (h : Fresh requests w (temporaryPath uuid)) :
      Serve i w .uuid4 (.hex uuid) ⟨w.objects, (i, temporaryPath uuid) :: w.temporaries, (i, .uuid4, .hex uuid) :: w.trace⟩

end CardRag.Publish
