import CardRag.Core
import CardRag.Gc.Tree
import CardRag.Lib.Effects

/-! # OCR reprocess requests (`ocr_requests.py`)

The files of `ocr-requests`, and the calls that put them there, and the selections of the runs. A file holds what its bytes are the canonical
JSON of, or nothing that any reader takes (`broken`). Links, directories in the place of files and the bounds on
file sizes are left out; every file that these calls write is within its bound. -/

namespace CardRag.Requests

open Gc (validIdentifier)

structure Target where
  documentId : Str
  pdfSha256 : Str
  pdfSizeBytes : Nat
  pageCount : Nat
deriving DecidableEq

structure Request where
  requestId : Str
  sourceGenerationId : Str
  createdAt : Int
  targets : List Target
deriving DecidableEq

/-- What `OCRRequestTarget` checks. -/
def Target.Valid (t : Target) : Prop :=
  validIdentifier t.documentId = true ∧ isSha256 t.pdfSha256 = true ∧ 1 ≤ t.pdfSizeBytes ∧ 1 ≤ t.pageCount

instance (t : Target) : Decidable t.Valid := inferInstanceAs (Decidable (_ ∧ _))

/-- What `OCRReprocessRequest` checks. -/
def Request.Valid (r : Request) : Prop :=
  validIdentifier r.requestId = true ∧ validIdentifier r.sourceGenerationId = true ∧
    (1 ≤ r.targets.length ∧ r.targets.length ≤ 100) ∧ (∀ t ∈ r.targets, t.Valid) ∧
    (r.targets.map (·.documentId)).Nodup

instance (r : Request) : Decidable r.Valid := inferInstanceAs (Decidable (_ ∧ _))

structure Completion where
  requestId : Str
  runId : Str
  generationId : Str
deriving DecidableEq

/-- A file by its directory and the request it is named after. -/
inductive File where
  | request (id : Str)
  | completed (id : Str)
  | delegated (id : Str)
  | delegatedCompleted (id : Str)
  /-- `ocr-reprocess-selection.json` of a run. -/
  | selection (runId : Str)
  | temporary (id token : Str)
deriving DecidableEq

inductive Content where
  | request (r : Request)
  | completion (c : Completion)
  | delegation (parent : Str) (children : List Str)
  | delegatedCompletion (id : Str) (proofs : List Completion)
  | selection (request : Option Request)
  | broken
deriving DecidableEq

abbrev Directory := List (File × Content)

structure Write where
  file : File
  content : Content

namespace Directory

variable (d : Directory)

def read (f : File) : Option Content := PyList.get? d f

def write (f : File) (c : Content) : Directory := PyList.insert f c d

/-- `sorted(root.glob("ocr-*.json"))` -/
def requestIds : List Str :=
  let named : File → Option Str
    | .request id => if "ocr-".toList.isPrefixOf id then some id else none
    | _ => none
  PyList.sortedBy (· ++ ".json".toList) (d.filterMap fun e => named e.1).dedup

end Directory

instance : Effects Directory Write where
  apply d w := d.write w.file w.content

abbrev Action (α : Type) := Program Directory Write String α

/-- A file that is there has to hold `c`; one that is not is put there. -/
def keep (f : File) (c : Content) (conflict : String) : Action Unit := do
  match ← Program.look (Directory.read · f) with
  | some c' => if c' = c then pure () else Program.raise conflict
  | none => Program.emit ⟨f, c⟩

/-- `queue_reprocess_requests`: a link to a name that is taken fails. -/
def queue (requests : List Request) : Action Unit :=
  requests.forM fun r => do
    match ← Program.look (Directory.read · (.request r.requestId)) with
    | some _ => Program.raise "File exists"
    | none => Program.emit ⟨.request r.requestId, .request r⟩

/-- `OCRReprocessRequest.model_validate_json(path.read_bytes())`, and that the file is named after it. -/
def readRequest (id : Str) (d : Directory) : Except String Request :=
  match d.read (.request id) with
  | some (.request r) =>
    if ¬ r.Valid then .error "OCR request file is invalid"
    else if r.requestId ≠ id then .error "OCR request file identity is invalid"
    else .ok r
  | _ => .error "OCR request file is invalid"

section
variable (H : Sha256) (issuerByDocument : List (Str × Str))

def issuerOf (t : Target) : Option Str := PyList.get? issuerByDocument t.documentId

/-- The targets by issuer, where every issuer is known. -/
def groups (targets : List Target) : Option (List (Str × List Target)) :=
  targets.foldlM (fun g t => (issuerOf issuerByDocument t).map fun issuer =>
    PyList.insert issuer ((PyList.get? g issuer).getD [] ++ [t]) g) []

def child (parent : Request) (group : Str × List Target) : Request :=
  { parent with
    requestId := "ocr-child-".toList ++ H.canonical (.arr [.str parent.requestId, .str group.1])
    targets := group.2 }

def children (parent : Request) (g : List (Str × List Target)) : List Request :=
  (PyList.sortedBy (·.1) g).map (child H parent)

/-- One turn of the loop of `partition_reprocess_requests`. -/
def partitionRequest (id : Str) : Action Unit := do
  let parent ← Program.ask (readRequest id)
  let receipt ← Program.look (Directory.read · (.completed id))
  if receipt.isSome then pure ()
  else match groups issuerByDocument parent.targets with
    | none => pure ()
    | some g =>
      if g.length < 2 then pure ()
      else do
        (children H parent g).forM fun c => keep (.request c.requestId) (.request c) "OCR child identity conflict"
        keep (.delegated id) (.delegation parent.requestId ((children H parent g).map (·.requestId)))
          "OCR delegation identity conflict"

/-- `partition_reprocess_requests` -/
def partition : Action Unit := do
  let ids ← Program.look Directory.requestIds
  ids.forM (partitionRequest H issuerByDocument)

end

/-- A completion receipt of this request, if there is one. -/
def readCompletion (id : Str) (invalid : String) (d : Directory) : Except String (Option Completion) :=
  match d.read (.completed id) with
  | none => .ok none
  | some (.completion c) =>
    if c.requestId ≠ id then .error invalid
    else if ¬ validIdentifier c.runId then .error "run_id is not a safe portable identifier"
    else if ¬ validIdentifier c.generationId then .error "generation_id is not a safe portable identifier"
    else .ok (some c)
  | some _ => .error invalid

/-- A child of a delegation, and its completion. -/
def readChild (parent : Request) (d : Directory) (childId : Str) : Except String (Request × Option Completion) :=
  if ¬ validIdentifier childId then .error "request_id is not a safe portable identifier"
  else match d.read (.request childId) with
    | none => .error "No such file or directory"
    | some (.request c) =>
      if ¬ c.Valid then .error "OCR child is invalid"
      else if c.requestId ≠ childId ∨ c.sourceGenerationId ≠ parent.sourceGenerationId then .error "OCR child is invalid"
      else match readCompletion childId "OCR child completion proof is invalid" d with
        | .ok proof => .ok (c, proof)
        | .error e => .error e
    | some _ => .error "OCR child is invalid"

/-- What `_delegated_request` reads: the proofs of a delegated request and how many children it has. -/
def readDelegation (parent : Request) (d : Directory) : Except String (Option (List Completion × Nat)) :=
  match d.read (.delegated parent.requestId) with
  | none => .ok none
  | some (.delegation p childIds) =>
    if p ≠ parent.requestId then .error "OCR delegation is invalid"
    else match childIds.mapM (readChild parent d) with
      | .error e => .error e
      | .ok found =>
        let targets := found.flatMap (·.1.targets)
        if PyList.sortedBy id (targets.map (·.documentId)) ≠ PyList.sortedBy id (parent.targets.map (·.documentId)) then
          .error "OCR child partition does not cover its parent exactly"
        else if ∃ t ∈ targets, PyList.get? (PyList.dictOf (·.documentId) parent.targets) t.documentId ≠ some t then
          .error "OCR child target changed"
        else .ok (some (found.filterMap (·.2), childIds.length))
  | some _ => .error "OCR delegation is invalid"

def delegatedRequest (parent : Request) : Action Bool := do
  match ← Program.ask (readDelegation parent) with
  | none => pure false
  | some (proofs, count) =>
    if proofs.length = count then
      keep (.delegatedCompleted parent.requestId) (.delegatedCompletion parent.requestId proofs)
        "OCR delegated completion conflict"
    pure true

/-- The loop of `load_next_reprocess_request`. -/
def loadFrom (eligible : Option (List Str)) : List Str → Action (Option Request)
  | [] => pure none
  | id :: ids => do
    let request ← Program.ask (readRequest id)
    if ← delegatedRequest request then loadFrom eligible ids
    else
      let receipt ← Program.ask (readCompletion request.requestId "OCR request completion receipt contract is invalid")
      if receipt.isSome then loadFrom eligible ids
      else if eligible.any fun e => request.targets.any (·.documentId ∉ e) then loadFrom eligible ids
      else pure (some request)

/-- `load_next_reprocess_request` -/
def loadNext (eligible : Option (List Str)) : Action (Option Request) := do
  let ids ← Program.look Directory.requestIds
  loadFrom eligible ids

/-- `path.open("xb")` -/
def create (f : File) (c : Content) : Action Unit := do
  match ← Program.look (Directory.read · f) with
  | some _ => Program.raise "File exists"
  | none => Program.emit ⟨f, c⟩

/-- The selection that a run has, if it has one. -/
def readSelection (runId : Str) (eligible : Option (List Str)) (d : Directory) : Except String (Option (Option Request)) :=
  match d.read (.selection runId) with
  | none => .ok none
  | some (.selection none) => .ok (some none)
  | some (.selection (some r)) =>
    if ¬ r.Valid then .error "OCR run request selection is invalid"
    else if eligible.any fun e => r.targets.any (·.documentId ∉ e) then
      .error "persisted OCR request exceeds the frozen issuer scope"
    else .ok (some (some r))
  | some _ => .error "OCR run request selection contract is invalid"

/-- `select_run_reprocess_request` -/
def selectRun (runId : Str) (eligible : Option (List Str)) : Action (Option Request) :=
  if ¬ validIdentifier runId then Program.raise "run_id is not a safe portable identifier"
  else do
    match ← Program.ask (readSelection runId eligible) with
    | some request => pure request
    | none =>
      let request ← loadNext eligible
      create (.selection runId) (.selection request)
      pure request

/-- `complete_reprocess_request` -/
def complete (request : Request) (runId generationId : Str) : Action Unit :=
  if ¬ validIdentifier runId then Program.raise "run_id is not a safe portable identifier"
  else if ¬ validIdentifier generationId then Program.raise "generation_id is not a safe portable identifier"
  else keep (.completed request.requestId) (.completion ⟨request.requestId, runId, generationId⟩)
    "OCR request completion receipt conflicts"

inductive Call where
  | partition
  | load (eligible : Option (List Str))
  | complete (request : Request) (runId generationId : Str)

def step (H : Sha256) (issuerByDocument : List (Str × Str)) (d : Directory) : Call → Directory
  | .partition => (partition H issuerByDocument).final d
  | .load eligible => (loadNext eligible).final d
  | .complete request runId generationId => (complete request runId generationId).final d

end CardRag.Requests
