import CardRag.Gc.Mark

/-! # The lookup of content variants (`content_cache.py`)

`ContentOCRVariantStore` of a worker with a WebDAV client: `freeze`, `_read_variant`, `_lookup_local` and
`lookup`. What manifests are and `verify_ocr_bytes` are parameters; a file of the run directory that breaks
its contract is `invalid`. -/

namespace CardRag.Variants

open Publish (Path Bytes)
open Gc (Tree indexRoot contentRoot manifestName readyName objectPath validIdentifier)

/-- `OCRInput`. -/
structure Source where
  pdfSha256 : Str
  pdfSizeBytes : Nat
  pageCount : Nat
deriving DecidableEq

/-- Manifests of content variants and the checks of their control objects. -/
structure Controls where
  Manifest : Type
  source : Manifest → Source
  cacheEpoch : Manifest → Nat
  reuseKey : Manifest → Str
  variantId : Manifest → Str
  variantLabel : Manifest → Str
  manifestSha256 : Manifest → Str
  output : Manifest → Str × Nat
  ocrChars : Manifest → Nat
  pageOutputSha256 : Manifest → List Str
  createdAt : Manifest → Int
  /-- A canonical manifest. -/
  read : Bytes → Option Manifest
  /-- The body is a canonical READY that verifies the manifest. -/
  verifies : Bytes → Manifest → Bool
  /-- The body is the canonical index entry of the manifest. -/
  indexes : Bytes → Manifest → Bool
  /-- `content_addressed_ocr_reuse_key`. -/
  reuseKeyOf : Source → Nat → Str
  /-- `ContentOCRArtifactManifest.create` for sealed OCR, from the time, the generation, the document and
  the native manifest beside it. -/
  create : Source → Nat → Str × Nat → Nat × List Str → Int → Str → Str → Option Bytes → Manifest
  sha256 : Bytes → Str
  /-- `reject_credential_bearing_ocr` raises. -/
  rejects : Bytes → Bool
  /-- `verify_ocr_bytes` for a page count: the characters and the digests of the pages. -/
  verifyOcr : Bytes → Nat → Option (Nat × List Str)

inductive Failure where
  /-- `ContentCacheValidationError`. -/
  | validation (message : String)
  | provider
  | integrity
  | identifier
deriving DecidableEq

def controlObjectMaxBytes : Nat := 8 * 1024 * 1024

def maxIndexEntries : Nat := 200000

def maxSnapshotBytes : Nat := 32 * 1024 * 1024

/-! ### State -/

/-- A control file of the run directory. -/
inductive File (α : Type) where
  | valid (content : α)
  | invalid

structure Selection where
  reuseKey : Str
  entry : Path
  variantId : Str

structure SealedDocument where
  documentId : Option Str
  available : Bool
  pdf : Str × Nat
  pageCount : Nat
  cacheKind : Option Str
  reuseKey : Option Str
  ocr : Option (Str × Nat)
  variantId : Option Str
  createdAt : Int

/-- Another run of the state directory; its documents where it is sealed. -/
structure SealedRun where
  name : Str
  generationId : Str
  documents : List SealedDocument
  ocr : List (Str × Bytes)
  nativeManifest : List (Str × Bytes)
  contentManifest : List (Str × Bytes)

structure Host where
  remote : Tree
  snapshots : List (Str × File (List Path))
  selections : List ((Str × Str) × File Selection)
  runs : List SealedRun
  /-- `_snapshots`, of the process. -/
  memory : List (Str × List Path)

structure Args where
  runId : Str
  source : Source
  cacheEpoch : Nat
  expected : Option (Str × Nat)
  documentId : Option Str

structure Hit (C : Controls) where
  manifest : C.Manifest
  body : Bytes

/-! ### The index -/

/-- `_INDEX_NAME`: the key and the label. -/
def indexName (n : Str) : Option (Str × Str) :=
  let key := n.take 64
  let label := (n.drop 65).dropLast.dropLast.dropLast.dropLast.dropLast
  if n.length = 105 ∧ isSha256 key ∧ n[64]? = some '-' ∧ (label.take 8).all Char.isDigit ∧ label[8]? = some 'T' ∧
      ((label.drop 9).take 12).all Char.isDigit ∧ label[21]? = some 'Z' ∧ label[22]? = some '-' ∧
      (label.drop 23).all isHexDigit ∧ n.drop 100 = ".json".toList then some (key, label)
  else none

/-- `_indexed_variant_path`: the key and the root. -/
def indexedVariantPath (entry : Path) : Option (Str × Path) :=
  if entry.dropLast = indexRoot then
    (entry.getLast?.bind indexName).map fun p => (p.1, contentRoot ++ [p.1.take 2, p.1, "variants".toList, p.2])
  else none

def posix (p : Path) : Str := (p.intersperse "/".toList).flatten

def snapshotJson (entries : List Path) : Json :=
  .obj [("entries".toList, .arr (entries.map fun e => .str (posix e))),
    ("schema_version".toList, .str "cardrag.ocr-content-index-snapshot.v1".toList)]

/-- `freeze`: the entries of the run. -/
def freeze (h : Host) (runId : Str) : Host × Except Failure (List Path) :=
  if validIdentifier runId = false then (h, .error .identifier)
  else match PyList.get? h.memory runId with
    | some entries => (h, .ok entries)
    | none =>
      match PyList.get? h.snapshots runId with
      | some .invalid => (h, .error (.validation "content index snapshot contract is invalid"))
      | some (.valid entries) =>
        if entries.all fun e => (indexedVariantPath e).isSome then
          ({ h with memory := PyList.insert runId entries h.memory }, .ok entries)
        else (h, .error (.validation "content index entry name is invalid"))
      | none =>
        let entries := PyList.sortedBy posix (h.remote.children indexRoot)
        if maxIndexEntries < entries.length then (h, .error (.validation "content index exceeds the run limit"))
        else if entries.all (fun e => (indexedVariantPath e).isSome) = false then
          (h, .error (.validation "content index entry name is invalid"))
        else if maxSnapshotBytes < (snapshotJson entries).render.length then
          (h, .error (.validation "content index snapshot is too large"))
        else ({ h with
            snapshots := PyList.insert runId (.valid entries) h.snapshots
            memory := PyList.insert runId entries h.memory }, .ok entries)

/-- `_snapshots[run_id].get(key, ())`. -/
def entriesOf (entries : List Path) (key : Str) : List Path :=
  entries.filter fun e => (indexedVariantPath e).any (·.1 = key)

/-! ### Remote variants -/

section
variable (C : Controls)

/-- `get_bytes`. -/
def get (t : Tree) (p : Path) (maxBytes : Nat) : Except Failure (Option Bytes) :=
  match t.file p with
  | some b => if maxBytes < b.length then .error .integrity else .ok (some b)
  | none => .ok none

def readVariant (t : Tree) (entry : Path) (source : Source) (key : Str) : Except Failure (Hit C) :=
  match indexedVariantPath entry with
  | none => .error (.validation "content index entry name is invalid")
  | some (entryKey, root) => do
    raiseIf (entryKey ≠ key) (.validation "content index key does not match PDF")
    let index ← get t entry controlObjectMaxBytes
    let manifest ← get t (root ++ [manifestName]) controlObjectMaxBytes
    let ready ← get t (root ++ [readyName]) controlObjectMaxBytes
    match index, manifest, ready with
    | some index, some manifest, some ready =>
      match C.read manifest with
      | none => .error (.validation "content variant control JSON is invalid")
      | some m => do
        raiseIf (C.indexes index m = false ∨ C.verifies ready m = false ∨ C.source m ≠ source ∨ C.reuseKey m ≠ key ∨
          contentRoot ++ [(C.reuseKey m).take 2, C.reuseKey m, "variants".toList, C.variantLabel m] ≠ root)
          (.validation "content variant identity is invalid")
        match ← get t (objectPath (C.output m).1) (C.output m).2 with
        | none => .error (.validation "content variant CAS object is missing")
        | some body => do
          raiseIf (C.rejects body) .provider
          raiseIf (C.sha256 body ≠ (C.output m).1 ∨ body.length ≠ (C.output m).2 ∨
            C.verifyOcr body source.pageCount ≠ some (C.ocrChars m, C.pageOutputSha256 m))
            (.validation "content variant OCR bytes are invalid")
          return ⟨m, body⟩
    | _, _, _ => .error (.validation "content variant control file is missing")

/-- The hit has the OCR the caller expects. -/
def accepts (expected : Option (Str × Nat)) (hit : Hit C) : Bool := expected.all (C.output hit.manifest = ·)

/-- The verified variants of the entries, each with its entry. -/
def verifiedHits (t : Tree) (a : Args) (key : Str) : List Path → Except Failure (List (Path × Hit C))
  | [] => .ok []
  | entry :: entries =>
    match readVariant C t entry a.source key with
    | .error (.validation _) => verifiedHits t a key entries
    | .error e => .error e
    | .ok hit =>
      if accepts C a.expected hit then (verifiedHits t a key entries).map ((entry, hit) :: ·)
      else verifiedHits t a key entries

/-- `max(verified, key=…)`: the first of the greatest. -/
def newest (best : Path × Hit C) (hits : List (Path × Hit C)) : Path × Hit C :=
  hits.foldl (fun best h =>
    if toLex (C.createdAt best.2.manifest, C.manifestSha256 best.2.manifest) <
        toLex (C.createdAt h.2.manifest, C.manifestSha256 h.2.manifest) then h else best) best

/-- `entries[variant_id]`: the last entry of the variant. -/
def entryOf (hits : List (Path × Hit C)) (variantId : Str) : Option Path :=
  PyList.get? (hits.foldl (fun d h => PyList.insert (C.variantId h.2.manifest) h.1 d) []) variantId

/-! ### Sealed runs -/

/-- The manifest beside the sealed OCR, where it is of this variant. -/
def restoredManifest (a : Args) (key : Str) (run : SealedRun) (doc : SealedDocument) (documentId : Str)
    (ocr : Str × Nat) (verified : Nat × List Str) : Option C.Manifest := do
  let raw ← PyList.get? run.contentManifest documentId
  guard (0 < raw.length ∧ raw.length ≤ controlObjectMaxBytes)
  let m ← C.read raw
  guard (C.source m = a.source ∧ C.cacheEpoch m = a.cacheEpoch ∧ C.reuseKey m = key ∧ C.output m = ocr ∧
    C.ocrChars m = verified.1 ∧ C.pageOutputSha256 m = verified.2 ∧
    (doc.cacheKind ≠ some "content".toList ∨ some (C.variantId m) = doc.variantId))
  return m

/-- One document of a sealed run. -/
def localDocument (a : Args) (key : Str) (run : SealedRun) (doc : SealedDocument) :
    Except Failure (Option (Path × Hit C)) :=
  if doc.available = false ∨ doc.pdf ≠ (a.source.pdfSha256, a.source.pdfSizeBytes) ∨ doc.pageCount ≠ a.source.pageCount
    then .ok none
  -- a native or adopted document stands in at epoch 0 only
  else if (doc.cacheKind = some "content".toList ∧ doc.reuseKey ≠ some key) ∨
      (doc.cacheKind ≠ some "content".toList ∧ a.cacheEpoch ≠ 0) then .ok none
  else match doc.ocr, doc.documentId with
    | some ocr, some documentId =>
      if ocr.1 = [] ∨ ocr.2 = 0 ∨ a.expected.any (ocr ≠ ·) then .ok none
      else match PyList.get? run.ocr documentId with
        | none => .ok none
        | some body =>
          if body.length ≠ ocr.2 ∨ C.sha256 body ≠ ocr.1 then .ok none
          else if C.rejects body then .error .provider
          else match C.verifyOcr body a.source.pageCount with
            | none => .ok none
            | some verified =>
              let created := C.create a.source a.cacheEpoch ocr verified doc.createdAt run.generationId documentId
                (PyList.get? run.nativeManifest documentId)
              let manifest := (restoredManifest C a key run doc documentId ocr verified).getD created
              .ok (some (["local-sealed".toList, run.name, documentId], ⟨manifest, body⟩))
    | _, _ => .ok none

/-- The first hit. -/
def firstHit {α β : Type} (f : α → Except Failure (Option β)) : List α → Except Failure (Option β)
  | [] => .ok none
  | x :: xs =>
    match f x with
    | .ok none => firstHit f xs
    | r => r

/-- `_lookup_local`, with the entry it writes to the selection. -/
def lookupLocal (h : Host) (a : Args) (key : Str) : Except Failure (Option (Path × Hit C)) :=
  let runs := (PyList.sortedBy (·.name) h.runs).reverse.filter (·.name ≠ a.runId)
  firstHit (fun run =>
    let own := run.documents.filter fun d => a.documentId.isSome && d.documentId = a.documentId
    let others := run.documents.filter fun d => !(a.documentId.isSome && d.documentId = a.documentId)
    firstHit (localDocument C a key run) (own ++ others)) runs

/-! ### `lookup` -/

/-- The selection of the document is written. -/
def select (h : Host) (a : Args) (key : Str) (entry : Path) (hit : Hit C) : Host :=
  match a.documentId with
  | none => h
  | some documentId =>
    let selection : File Selection := .valid ⟨key, entry, C.variantId hit.manifest⟩
    { h with selections := PyList.insert (a.runId, documentId) selection h.selections }

/-- The selection of the document is read back. -/
def readSelection (h : Host) (a : Args) (key : Str) (entries : List Path) (selection : File Selection) :
    Except Failure (Hit C) :=
  match selection with
  | .invalid => .error (.validation "content selection contract is invalid")
  | .valid s =>
    if s.reuseKey ≠ key then .error (.validation "content selection contract is invalid")
    else if s.entry ∉ entriesOf entries key then .error (.validation "content selection is outside the run snapshot")
    else match readVariant C h.remote s.entry a.source key with
      | .error (.validation _) => .error (.validation "frozen content selection is no longer valid")
      | .error e => .error e
      | .ok hit =>
        if C.variantId hit.manifest ≠ s.variantId then .error (.validation "frozen content selection variant changed")
        else if accepts C a.expected hit = false then
          .error (.validation "frozen content selection conflicts with retained OCR")
        else .ok hit

/-- The choice of a document without a selection. -/
def choose (h : Host) (a : Args) (key : Str) (entries : List Path) : Host × Except Failure (Option (Hit C)) :=
  match verifiedHits C h.remote a key (entriesOf entries key) with
  | .error e => (h, .error e)
  | .ok [] =>
    match lookupLocal C h a key with
    | .error e => (h, .error e)
    | .ok none => (h, .ok none)
    | .ok (some (entry, hit)) => (select C h a key entry hit, .ok (some hit))
  | .ok (first :: rest) =>
    let hit := (newest C first rest).2
    let entry := (entryOf C (first :: rest) (C.variantId hit.manifest)).getD []
    (select C h a key entry hit, .ok (some hit))

def lookup (h : Host) (a : Args) : Host × Except Failure (Option (Hit C)) :=
  let key := C.reuseKeyOf a.source a.cacheEpoch
  match freeze h a.runId with
  | (h, .error e) => (h, .error e)
  | (h, .ok entries) =>
    match a.documentId with
    | none => choose C h a key entries
    | some documentId =>
      if validIdentifier documentId = false then (h, .error .identifier)
      else match PyList.get? h.selections (a.runId, documentId) with
        | some selection => (h, (readSelection C h a key entries selection).map some)
        | none => choose C h a key entries

end

end CardRag.Variants
