import CardRag.Generations.Pruning

/-! # The updater (`updater.py`)

`poll_once` in the steps between which requests can run, over the store of the process that polls. A
step is one pass of a loop body or what stands between two waits; where the source raises, and
wherever the network or the manifest checks make it raise, the poll fails. What is downloaded, the
modification time of a staged directory and what the state quota answers are inputs. -/

namespace CardRag.Generations

/-- The manifest of a published generation. The database is sealed by its digest, so a download that
passes `_verify_artifact` is that database. -/
structure RemoteGeneration where
  generationId : Str
  database : Database
  documents : List Document

/-- `_verify_pdf_artifact` -/
def CasObject.verifies (o : CasObject) (document : Document) : Bool :=
  o.sha256 = document.pdfSha256 ∧ o.size = document.pdfSizeBytes ∧ o.pdfHeader

def Disk.hasObject (d : Disk) (digest : Str) : Bool := d.objects.any (·.name = digest)

/-- `_sync_pdf`, where `download_object` delivers `download`. -/
def syncPdf (s : Settings) (d : Disk) (document : Document) (download : CasObject) : Except Failure Disk := do
  raiseIf (s.maximumPdfBytes < document.pdfSizeBytes) (.runtimeError "referenced PDF exceeds 100 MiB")
  raiseIf (isSha256 document.pdfSha256 = false) (.valueError "invalid CAS digest")
  if d.objects.any fun o => o.name = document.pdfSha256 ∧ o.verifies document then return d
  else
    raiseIf (download.sha256 ≠ document.pdfSha256 ∨ download.size ≠ document.pdfSizeBytes)
      (.runtimeError "downloaded artifact hash or size differs from its manifest")
    raiseIf (download.pdfHeader = false) (.runtimeError "referenced CAS object is not application/pdf")
    return { d with
      objects := d.objects.filter (·.name ≠ document.pdfSha256) ++ [{ download with name := document.pdfSha256 }] }

/-- The document part of `_verify_generation_binding`. -/
def verifyGenerationBinding (handle : GenerationHandle) (generation : RemoteGeneration) : Except Failure Unit := do
  let declared := PyList.dictOf (·.documentId) generation.documents
  raiseIf (declared.length ≠ generation.documents.length)
    (.runtimeError "generation manifest contains duplicate document IDs")
  raiseIf (PyList.sortedSet (declared.map (·.1)) ≠ PyList.sortedSet (handle.database.documents.map (·.documentId)))
    (.runtimeError "manifest and database document sets differ")
  handle.database.documents.forM fun row =>
    raiseIf (PyList.get? declared row.documentId ≠ some row)
      (.runtimeError "manifest and database PDF references differ")

/-- `_validated_handle` over the directory's database. -/
def validatedHandle (s : Settings) (dir : GenerationDir) (generation : RemoteGeneration) :
    Except Failure GenerationHandle := do
  raiseIf (dir.database ≠ some generation.database)
    (.runtimeError "downloaded artifact hash or size differs from its manifest")
  let handle ← loadGenerationHandle s dir
  verifyGenerationBinding handle generation
  return handle

/-- A generation on its way to activation: whether its directory is in `generations/` yet, and the
digests synchronised for it so far. -/
structure Candidate where
  handle : GenerationHandle
  placed : Bool
  synced : List Str

/-- Where `poll_once` is; `documents` and `rows` are what its loops still have to do. -/
inductive Phase where
  | idle
  /-- the channel names the active generation, which is pinned meanwhile -/
  | repairing (entry : Nat) (documents : List Document)
  | validating (generation : RemoteGeneration) (existing : Bool)
  | syncing (candidate : Candidate) (documents : List Document)
  | verifying (candidate : Candidate) (rows : List Document)

def Phase.candidate : Phase → Option Candidate
  | syncing candidate _ => some candidate
  | verifying candidate _ => some candidate
  | _ => none

structure System where
  store : Store
  phase : Phase

def System.start (d : Disk) : System := ⟨⟨d, .start⟩, .idle⟩

inductive PollStep where
  | begin (generation : RemoteGeneration)
  | validate
  | sync (download : CasObject)
  | verify
  /-- `os.replace(staging, final)` -/
  | install (mtimeNs : Nat)
  | activate (quota : Except Failure Unit)
  /-- the end of the `with` block around the active generation -/
  | close
  | fail

/-- An operation of a request, or of the start of the server; only the updater activates. -/
abbrev Request := { operation : Operation // ∀ handle quota, operation ≠ .activate handle quota }

inductive Event where
  | request (request : Request)
  | poll (step : PollStep)

namespace System

/-- The pin that a step releases. -/
def releases (sys : System) : Event → Option Nat
  | .request request => match request.1 with
    | .release k => some k
    | _ => none
  | .poll step => match step, sys.phase with
    | .close, .repairing entry [] => some (sys.store.process.pins.idxOf entry)
    | .fail, .repairing entry _ => some (sys.store.process.pins.idxOf entry)
    | _, _ => none

def begin (sys : System) (generation : RemoteGeneration) : System :=
  if isGenerationId generation.generationId = false then sys
  else if sys.store.process.activeGenerationId = some generation.generationId then
    match sys.store.process.active with
    | none => sys
    | some entry =>
      ⟨{ sys.store with process := sys.store.process.take entry }, .repairing entry generation.documents⟩
  else { sys with phase := .validating generation (sys.store.disk.has generation.generationId) }

def validate (s : Settings) (sys : System) (generation : RemoteGeneration) (existing : Bool) : System :=
  let directory := if existing then sys.store.disk.find generation.generationId
    else some ⟨generation.generationId, 0, some generation.database⟩
  match directory with
  | none => { sys with phase := .idle }
  | some directory => match validatedHandle s directory generation with
    | .error _ => { sys with phase := .idle }
    | .ok handle => { sys with phase := .syncing ⟨handle, existing, []⟩ generation.documents }

def pollStep (s : Settings) (sys : System) (step : PollStep) : System :=
  match step, sys.phase with
  | .begin generation, .idle => sys.begin generation
  | .validate, .validating generation existing => validate s sys generation existing
  | .sync download, .repairing entry (document :: documents) =>
    match syncPdf s sys.store.disk document download with
    | .error _ => sys
    | .ok disk => ⟨{ sys.store with disk }, .repairing entry documents⟩
  | .sync download, .syncing candidate (document :: documents) =>
    match syncPdf s sys.store.disk document download with
    | .error _ => { sys with phase := .idle }
    | .ok disk => ⟨{ sys.store with disk },
        .syncing { candidate with synced := candidate.synced ++ [document.pdfSha256] } documents⟩
  | .verify, .syncing candidate [] =>
    { sys with phase := .verifying candidate candidate.handle.database.documents }
  | .verify, .verifying candidate (row :: rows) =>
    match verifyPdfForHandle s sys.store.disk row with
    | .error _ => { sys with phase := .idle }
    | .ok _ => { sys with phase := .verifying candidate rows }
  | .install mtimeNs, .verifying candidate [] =>
    if candidate.placed then sys
    else if sys.store.disk.has candidate.handle.generationId then { sys with phase := .idle }
    else
      let directory := ⟨candidate.handle.generationId, mtimeNs, some candidate.handle.database⟩
      let disk := { sys.store.disk with generations := sys.store.disk.generations ++ [directory] }
      ⟨{ sys.store with disk }, .verifying { candidate with placed := true } []⟩
  | .activate quota, .verifying candidate [] =>
    if candidate.placed then ⟨perform s sys.store (.activate candidate.handle quota), .idle⟩ else sys
  | .close, .repairing entry [] =>
    ⟨perform s sys.store (.release (sys.store.process.pins.idxOf entry)), .idle⟩
  | .fail, .repairing entry _ =>
    ⟨perform s sys.store (.release (sys.store.process.pins.idxOf entry)), .idle⟩
  | .fail, _ => { sys with phase := .idle }
  | _, _ => sys

def step (s : Settings) (sys : System) : Event → System
  | .request request => { sys with store := perform s sys.store request.1 }
  | .poll step => sys.pollStep s step

end System

end CardRag.Generations
