import CardRag.Backup.Flush

/-! # The scope of a backup (`backup.py`)

`scoped_backup_scope`: the remote paths of the selected documents, and the digest and size of those that
local evidence binds. -/

namespace CardRag.Backup

open Publish (Path Bytes)
open Gc (objectPath cacheRoot manifestName readyName)

/-- A document of the seal. -/
structure SealDoc where
  documentId : Option Str
  issuer : Str
  pdf : Str × Option Nat
  ocr : Option (Str × Option Nat)
  ocrReuseKey : Option Str
  ocrCacheKind : Option Str

/-- What is found on disk for a run: its seal, the verified bundles of a document, and the pair that the local OCR
cache binds to a key and a document. -/
structure Disk where
  runId : Str
  documents : Option (List SealDoc)
  bundles : SealDoc → List Bundle
  cachePair : Str → SealDoc → Option ((Str × Nat) × (Str × Nat))
  /-- `_is_valid_remote_ocr_variant`. -/
  corroborates : Str → SealDoc → Bool
  sha256 : Bytes → Str
  /-- The digest of a key of `backup_meta`. -/
  keyDigest : Str × Str → Str

structure Scope where
  paths : List Path
  expected : Bindings
  /-- `doc_has_bound_metadata`. -/
  bound : List Str

namespace Scope

/-- A path that evidence does not bind. -/
def add (c : Scope) (p : Path) : Scope := { c with paths := p :: c.paths }

/-- `_bind` of a verified digest; a size that was unknown is filled in. -/
def bind (c : Scope) (p : Path) (sha : Str) (size : Option Nat) : Scope :=
  let fresh := (PyList.get? c.expected p).all fun previous => previous.2.isNone && size.isSome
  { c with
    paths := p :: c.paths
    expected := if fresh then PyList.insert p (sha, size) c.expected else c.expected }

def markBound (c : Scope) (documentId : Option Str) : Scope := { c with bound := documentId.toList.filter (· ≠ []) ++ c.bound }

def isBound (c : Scope) (documentId : Option Str) : Bool := documentId.any (· ∈ c.bound)

end Scope

section
variable (d : Disk) (s : State) (root : Str)

def SealDoc.refs (doc : SealDoc) : List (Str × Option Nat) := doc.pdf :: doc.ocr.toList

def bindBundle (c : Scope) (doc : SealDoc) (b : Bundle) : Scope :=
  let c := c.bind (objectPath b.output.1) b.output.1 (some b.output.2)
  let c := c.bind (b.manifestPath d.sha256 s root) (d.sha256 b.manifestBytes) (some b.manifestBytes.length)
  let c := c.bind (b.readyPath d.sha256 s root) (d.sha256 b.readyBytes) (some b.readyBytes.length)
  c.markBound doc.documentId

/-- The pair of the local cache is bound where the bundle of this OCR belongs. -/
def bindPair (c : Scope) (doc : SealDoc) (key : Str) (generationOnly : Bool) (pair : (Str × Nat) × (Str × Nat)) : Scope :=
  let variant := s.resolve root key ((doc.ocr.map (·.1)).getD []) pair.1.1 generationOnly (d.corroborates key doc)
  let c := c.bind (bundleRoot key variant ++ [manifestName]) pair.1.1 (some pair.1.2)
  let c := c.bind (bundleRoot key variant ++ [readyName]) pair.2.1 (some pair.2.2)
  c.markBound doc.documentId

def isNative (doc : SealDoc) : Bool := doc.ocrCacheKind.all fun k => k = [] ∨ k = "native".toList

/-- A selected document of the seal. -/
def scopeDocument (c : Scope) (doc : SealDoc) : Scope :=
  let c := { c with bound := c.bound.filter fun id => some id ≠ doc.documentId }
  let c := doc.refs.foldl (fun c ref => c.bind (objectPath ref.1) ref.1 ref.2) c
  let bundles := d.bundles doc
  let c := bundles.foldl (bindBundle d s root · doc) c
  match doc.ocrReuseKey with
  | none => c
  | some key =>
    if key = [] ∨ c.isBound doc.documentId ∨ isNative doc = false then c
    else
      let paths := bundles.flatMap (·.paths d.sha256 s root)
      match if paths.any fun p => (nativeRoot key).isPrefixOf p then none else d.cachePair key doc with
      | some pair => bindPair d s root c doc key false pair
      -- required, without evidence
      | none => (c.add (nativeRoot key ++ [manifestName])).add (nativeRoot key ++ [readyName])

/-- `selected_docs.get`: the last document with the id. -/
def selectedDoc (docs : List SealDoc) (id : Str) : Option SealDoc := docs.reverse.find? (·.documentId = some id)

def nativeControl (p : Path) : Bool :=
  (cacheRoot "native".toList).isPrefixOf p && (p.getLast? = some manifestName || p.getLast? = some readyName)

/-- An obligation that was recorded for the run. -/
def scopeOwned (docs : List SealDoc) (c : Scope) (o : (Str × Str) × Option Owned) : Scope :=
  let damaged := c.add ["v1".toList, "backup".toList, "unverified-ownership".toList, d.keyDigest o.1]
  match o.2 with
  | none => damaged
  | some owned =>
    match selectedDoc docs owned.documentId with
    | none => c
    | some doc =>
      if owned.pdfSha256 = doc.pdf.1 ∧ some owned.ocrSha256 = doc.ocr.map (·.1) then
        if owned.paths.length = 2 ∧ owned.paths.all nativeControl then owned.paths.foldl Scope.add c else damaged
      else c

/-- The tag of a path is of a past revision of the document. -/
def isStale (doc : SealDoc) (info : Option DocInfo) : Bool :=
  info.any fun i => (doc.pdf.1 ≠ [] ∧ i.pdfSha256 ≠ [] ∧ i.pdfSha256 ≠ doc.pdf.1) ∨
    ∃ ocr ∈ doc.ocr, ocr.1 ≠ [] ∧ i.ocrSha256 ≠ [] ∧ i.ocrSha256 ≠ ocr.1

/-- The reuse key of a native control path. -/
def keyOfPath (p : Path) : Option Str :=
  match p with
  | [_, _, _, _, key, name] => if (name = manifestName ∨ name = readyName) ∧ key.length = 64 then some key else none
  | [_, _, _, _, key, variants, _, name] =>
    if variants = "variants".toList ∧ (name = manifestName ∨ name = readyName) ∧ key.length = 64 then some key else none
  | _ => none

/-- Phase 1 of a tagged path. -/
def rebind (c : Scope) (doc : SealDoc) (p : Path) : Scope :=
  let info := PyList.get? s.docInfo p
  if isStale doc info = true ∨ p ∈ c.expected.map (·.1) ∨ (cacheRoot "native".toList).isPrefixOf p = false then c
  else match (info.map (·.reuseKey)).or (keyOfPath p) with
    | none => c
    | some key =>
      if key = [] ∨ (info.all fun i => i.kind = [] ∨ i.kind = "native".toList) = false then c
      else match d.cachePair key doc with
        | none => c
        | some pair => bindPair d s root c doc key doc.ocrReuseKey.isNone pair

/-- Phase 2 of a tagged path: it stays visible, or is excluded. -/
def resolveTag (c : Scope) (doc : SealDoc) (p : Path) : Scope :=
  if p ∈ c.paths ∨ isStale doc (PyList.get? s.docInfo p) = true then c
  else if (["v1".toList, "ocr-cache".toList] : Path).isPrefixOf p then
    if p ∈ s.pendingPaths then c.add p
    else if c.isBound doc.documentId then c
    else if isNative doc then c.add p else c
  else if doc.ocrCacheKind = some "adopted".toList ∨ doc.ocrCacheKind = some "content".toList then c
  else c.add p

def scopedBackupScope (issuers : List Str) : List Path × Bindings :=
  match d.documents with
  | none => ([], [])
  | some documents =>
    let docs := documents.filter (·.issuer ∈ issuers)
    let c := docs.foldl (scopeDocument d s root) ⟨[], [], []⟩
    let c := (s.owned.filter (·.1.1 = d.runId)).foldl (scopeOwned d docs) c
    let tagged := s.docMap.filterMap fun t => (selectedDoc docs t.2).map fun doc => (doc, t.1)
    let c := tagged.foldl (fun c t => rebind d s root c t.1 t.2) c
    let c := tagged.foldl (fun c t => resolveTag s c t.1 t.2) c
    (c.paths, c.expected)

end

end CardRag.Backup
