import CardRag.Gc.Tree

/-! # The backup ledger (`backup.py`)

The rows of `backup_pending` and `backup_receipts`, what `backup_meta` says about paths, and the local files
they name. `record_document_ocr` and `record_run_success` put rows in. The evidence that they find on disk
(seals, native manifests and their checks, cache files) is what they are given here. -/

namespace CardRag.Backup

open Publish (Path Bytes)
open Gc (objectPath cacheRoot manifestName readyName)

inductive Status where
  | pending
  | lostSource
deriving DecidableEq

/-- A row of `backup_pending`. -/
structure Row where
  itemId : Str
  itemType : Str
  sha256 : Str
  sizeBytes : Nat
  localPath : Str
  remotePath : Path
  mediaType : Str
  createdAt : Int
  status : Status
deriving DecidableEq

/-- A row of `backup_receipts`; path, root and digest are its key. -/
structure Receipt where
  remotePath : Path
  remoteRoot : Str
  sha256 : Str
  sizeBytes : Nat
deriving DecidableEq

/-- A `doc_info_` value. -/
structure DocInfo where
  documentId : Str
  reuseKey : Str
  pdfSha256 : Str
  ocrSha256 : Str
  kind : Str
deriving DecidableEq

/-- An `ocr_owned_` value, `none` where it is damaged, beside the run and the identity of its key. -/
structure Owned where
  documentId : Str
  pdfSha256 : Str
  ocrSha256 : Str
  paths : List Path
deriving DecidableEq

/-- What happened to the rows. -/
inductive Change where
  /-- A row is put in, for verified bytes or not, in the place of others. -/
  | put (row : Row) (verified : Bool) (replaced : List Row)
  /-- An index that lists these receipts is committed. -/
  | listed (receipts : List Receipt)
  /-- What is deleted for a row that was verified. -/
  | deleted (row : Row) (rows : List Row)
deriving DecidableEq

structure State where
  pending : List Row
  receipts : List Receipt
  docMap : List (Path × Str)
  docInfo : List (Path × DocInfo)
  owned : List ((Str × Str) × Option Owned)
  files : List (Str × Bytes)
  /-- `backup/spool`, by digest. -/
  spool : List (Str × Bytes)
  /-- Not in the database: the changes so far, the newest first. -/
  history : List Change
deriving DecidableEq

def State.empty : State := ⟨[], [], [], [], [], [], [], []⟩

/-! ### Paths -/

def nativeRoot (reuseKey : Str) : Path := cacheRoot "native".toList ++ [reuseKey.take 2, reuseKey]

/-- The root of the control files: the canonical one, or of a variant. -/
def bundleRoot (reuseKey : Str) : Option Str → Path
  | none => nativeRoot reuseKey
  | some ocrSha => nativeRoot reuseKey ++ ["variants".toList, ocrSha]

namespace State

variable (s : State)

def receiptsAt (root : Str) (p : Path) : List Receipt := s.receipts.filter fun r => r.remotePath = p ∧ r.remoteRoot = root

/-- `resolve_ocr_bundle_paths` for native OCR: the variant whose paths are taken. Whether
`_is_valid_remote_ocr_variant` finds evidence for the receipts is given. -/
def resolve (root reuseKey ocrSha manifestSha : Str) (generationOnly corroborated : Bool) : Option Str :=
  let rows := s.receiptsAt root (nativeRoot reuseKey ++ [manifestName])
  if rows ≠ [] then
    if rows.any (·.sha256 = manifestSha) then none else if generationOnly && corroborated then some ocrSha else none
  else if s.receiptsAt root (bundleRoot reuseKey (some ocrSha) ++ [manifestName]) ≠ [] then some ocrSha
  else none

/-! ### Rows -/

/-- `INSERT OR REPLACE INTO backup_pending`. -/
def insertRow (verified : Bool) (r : Row) : State :=
  { s with
    pending := s.pending.filter (·.itemId ≠ r.itemId) ++ [r]
    history := .put r verified (s.pending.filter (·.itemId = r.itemId)) :: s.history }

/-- `DELETE FROM backup_pending WHERE item_id = ?` -/
def deleteRow (itemId : Str) : State := { s with pending := s.pending.filter (·.itemId ≠ itemId) }

/-- `INSERT OR REPLACE INTO backup_receipts`. -/
def insertReceipt (r : Receipt) : State :=
  let same (r' : Receipt) : Bool := r'.remotePath = r.remotePath ∧ r'.remoteRoot = r.remoteRoot ∧ r'.sha256 = r.sha256
  { s with receipts := s.receipts.filter (fun r' => !same r') ++ [r] }

/-- `_spool`: a pinned file is not replaced. -/
def spoolFile (source sha : Str) : State :=
  match PyList.get? s.files source, PyList.get? s.spool sha with
  | some body, none => { s with spool := PyList.insert sha body s.spool }
  | _, _ => s

def writeFile (path : Str) (body : Bytes) : State := { s with files := PyList.insert path body s.files }

def pendingPaths : List Path := s.pending.map (·.remotePath)

def receiptPaths (root : Str) : List Path := (s.receipts.filter (·.remoteRoot = root)).map (·.remotePath)

end State

/-! ### Recording -/

/-- The row to record. Its file is pinned in the spool under the row's digest. -/
abbrev Artifact := Row

/-- Native OCR of a document: what its manifest says, the canonical manifest and READY, and the files. -/
structure Bundle where
  documentId : Str
  reuseKey : Str
  pdfSha256 : Str
  output : Str × Nat
  manifestBytes : Bytes
  readyBytes : Bytes
  bodyFile : Str
  manifestFile : Str
  readyFile : Str
  generationOnly : Bool
  corroborated : Bool

section
variable (sha256 : Bytes → Str)

namespace Bundle

variable (b : Bundle) (s : State) (root : Str) (now : Int)

def variant : Option Str :=
  s.resolve root b.reuseKey b.output.1 (sha256 b.manifestBytes) b.generationOnly b.corroborated

def manifestPath : Path := bundleRoot b.reuseKey (b.variant sha256 s root) ++ [manifestName]

def readyPath : Path := bundleRoot b.reuseKey (b.variant sha256 s root) ++ [readyName]

def paths : List Path := [objectPath b.output.1, b.manifestPath sha256 s root, b.readyPath sha256 s root]

def body : Artifact where
  itemId := "cas-".toList ++ b.output.1
  itemType := "ocr_cas".toList
  sha256 := b.output.1
  sizeBytes := b.output.2
  localPath := b.bodyFile
  remotePath := objectPath b.output.1
  mediaType := "text/markdown; charset=utf-8".toList
  createdAt := now
  status := .pending

def manifest : Artifact where
  itemId := "man-".toList ++ b.reuseKey
  itemType := "ocr_manifest".toList
  sha256 := sha256 b.manifestBytes
  sizeBytes := b.manifestBytes.length
  localPath := b.manifestFile
  remotePath := b.manifestPath sha256 s root
  mediaType := "application/json".toList
  createdAt := now
  status := .pending

def ready : Artifact where
  itemId := "ready-".toList ++ b.reuseKey
  itemType := "ocr_ready".toList
  sha256 := sha256 b.readyBytes
  sizeBytes := b.readyBytes.length
  localPath := b.readyFile
  remotePath := b.readyPath sha256 s root
  mediaType := "application/json".toList
  createdAt := now
  status := .pending

def info : DocInfo := ⟨b.documentId, b.reuseKey, b.pdfSha256, b.output.1, "native".toList⟩

end Bundle

/-- The paths a recorder has seen in the receipts of the root and in the rows. -/
structure Known where
  receipts : List Path
  pending : List Path

def State.known (s : State) (root : Str) : Known := ⟨s.receiptPaths root, s.pendingPaths⟩

/-- A row is put in for a path that has neither a receipt nor a row. -/
def register (s : State) (k : Known) (a : Artifact) : State × Known :=
  if a.remotePath ∈ k.receipts ∨ a.remotePath ∈ k.pending then (s, k)
  else ((s.spoolFile a.localPath a.sha256).insertRow false a, { k with pending := a.remotePath :: k.pending })

/-- `_upsert` of `_register_verified_ocr_bundle`: rows of the path with other bytes are repaired. -/
def upsert (s : State) (k : Known) (a : Artifact) : State × Known :=
  if a.remotePath ∈ k.receipts then (s, k)
  else
    let stale := s.pending.filter fun r =>
      r.remotePath = a.remotePath ∧ (r.sha256 ≠ a.sha256 ∨ r.sizeBytes ≠ a.sizeBytes)
    let s := stale.foldl (fun s r => s.deleteRow r.itemId) s
    let k := if stale = [] then k else { k with pending := k.pending.filter (· ≠ a.remotePath) }
    -- the same content may already have a row under another item id
    if a.remotePath ∈ k.pending ∧ (s.pending.all fun r => r.remotePath ≠ a.remotePath ∨ r.itemId ≠ a.itemId) = true then
      (s, k)
    else ((s.spoolFile a.localPath a.sha256).insertRow true a, { k with pending := a.remotePath :: k.pending })

/-- The `backup_meta` rows of a bundle; `infoPaths` are those that get a `doc_info_`. -/
def tag (s : State) (runId : Str) (b : Bundle) (paths infoPaths : List Path) : State :=
  { s with
    docMap := paths.foldl (fun d p => PyList.insert p b.documentId d) s.docMap
    docInfo := infoPaths.foldl (fun d p => PyList.insert p b.info d) s.docInfo
    owned := PyList.insert (runId, b.documentId ++ '\x00' :: b.reuseKey)
      (some ⟨b.documentId, b.pdfSha256, b.output.1, paths.tail⟩) s.owned }

/-- One native manifest of `record_document_ocr` and of an unscoped `record_run_success`. -/
def registerBundle (root runId : Str) (now : Int) (infoPaths : List Path → List Path) (s : State) (k : Known) (b : Bundle) :
    State × Known :=
  let (s1, k1) := register s k (b.body now)
  let (s2, k2) := register s1 k1 (b.manifest sha256 s root now)
  let ready := b.ready sha256 s root now
  let s3 := if ready.remotePath ∈ k2.receipts ∨ ready.remotePath ∈ k2.pending then s2 else s2.writeFile b.readyFile b.readyBytes
  let (s4, k4) := register s3 k2 ready
  (tag s4 runId b (b.paths sha256 s root) (infoPaths (b.paths sha256 s root)), k4)

def registerVerifiedOcrBundle (root runId : Str) (now : Int) (s : State) (k : Known) (b : Bundle) : State × Known :=
  let (s1, k1) := upsert s k (b.body now)
  let (s2, k2) := upsert s1 k1 (b.manifest sha256 s root now)
  let (s3, k3) := upsert (s2.writeFile b.readyFile b.readyBytes) k2 (b.ready sha256 s root now)
  (tag s3 runId b (b.paths sha256 s root) (b.paths sha256 s root), k3)

/-- A loop of a recorder. -/
def recordAll {α : Type} (f : State → Known → α → State × Known) (s : State) (k : Known) : List α → State × Known
  | [] => (s, k)
  | x :: xs =>
    let (s, k) := f s k x
    recordAll f s k xs

/-- `record_document_ocr`. What it knows was read before its first row: `known`. -/
def recordDocumentOcr (root runId : Str) (now : Int) (s : State) (known : Known) (bundles : List Bundle) : State :=
  (recordAll (registerBundle sha256 root runId now id) s known bundles).1

/-- The seal's objects with a local file, and the OCR of the documents: of the selected ones where issuers are
selected, else of all, with the files of the local OCR cache. -/
structure RunEvidence where
  objects : List (Str × Str × Nat × Str × Str)
  bundles : List Bundle
  cache : List (Str × Str × Str)
  selected : Bool

/-- A row of the seal: the kind, the digest, the size, the local file and the media type. -/
def sealObject (now : Int) (o : Str × Str × Nat × Str × Str) : Artifact where
  itemId := o.1 ++ '-' :: o.2.1
  itemType := o.1
  sha256 := o.2.1
  sizeBytes := o.2.2.1
  localPath := o.2.2.2.1
  remotePath := objectPath o.2.1
  mediaType := o.2.2.2.2
  createdAt := now
  status := .pending

/-- A row of the local OCR cache: the key, the name and the file. -/
def cacheFile (now : Int) (c : Str × Str × Str) (body : Bytes) : Artifact where
  itemId := "cache-".toList ++ c.1 ++ '-' :: c.2.1
  itemType := "ocr_cache".toList
  sha256 := sha256 body
  sizeBytes := body.length
  localPath := c.2.2
  remotePath := ["v1".toList, "caches".toList, "ocr".toList, c.1, c.2.1]
  mediaType := if (".json".toList).isSuffixOf c.2.1 then "application/json".toList else "text/markdown".toList
  createdAt := now
  status := .pending

def registerCacheFile (now : Int) (s : State) (k : Known) (c : Str × Str × Str) : State × Known :=
  match PyList.get? s.files c.2.2 with
  | some body => register s k (cacheFile sha256 now c body)
  | none => (s, k)

def recordRunSuccess (root runId : Str) (now : Int) (s : State) (e : RunEvidence) : State :=
  let (s, k) := recordAll (fun s k o => register s k (sealObject now o)) s (s.known root) e.objects
  if e.selected then (recordAll (registerVerifiedOcrBundle sha256 root runId now) s k e.bundles).1
  else
    let (s, k) := recordAll (registerBundle sha256 root runId now (fun ps => ps.dropLast)) s k e.bundles
    (recordAll (registerCacheFile sha256 now) s k e.cache).1

end

end CardRag.Backup
