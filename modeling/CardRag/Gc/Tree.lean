import CardRag.Publish.Webdav

/-! # The remote tree and the worker's writes (`webdav.py`, `cas.py`, `content_cache.py`)

Collections and files under the WebDAV root, the listing of a collection, and what a completed write of
each publisher leaves behind. A temporary object is moved away by the write that uploaded it, and a
readback compares digests, which stand for the bytes. -/

namespace CardRag.Gc

open Publish

/-- `PurePosixPath.as_posix()`. -/
def posix (p : Path) : Str := ['/'].intercalate p

def name (p : Path) : Str := p.getLast?.getD []

/-- `validate_identifier(value)` accepts it. -/
def validIdentifier : Str → Bool
  | [] => false
  | c :: cs => c.isAlphanum && cs.all isPortable && decide (cs.length ≤ 127)

structure Tree where
  collections : List Path
  files : List (Path × Bytes)

namespace Tree

def empty : Tree := ⟨[], []⟩

def file (t : Tree) (p : Path) : Option Bytes := PyList.get? t.files p

/-- `ensure_collection(p)`. -/
def ensure (t : Tree) (p : Path) : Tree :=
  { t with collections := t.collections ++ (p.inits.drop 1).filter (· ∉ t.collections) }

def put (t : Tree) (p : Path) (content : Bytes) : Tree := { t with files := PyList.insert p content t.files }

def remove (t : Tree) (p : Path) : Tree := { t with files := t.files.filter (·.1 ≠ p) }

end Tree

/-! ### Paths -/

def generationsRoot : Path := ["v1".toList, "generations".toList]

def objectsRoot : Path := ["v1".toList, "objects".toList, "sha256".toList]

def cacheRoot (kind : Str) : Path := ["v1".toList, "ocr-cache".toList, kind]

def contentRoot : Path := cacheRoot "content".toList

/-- `CONTENT_INDEX_ROOT`. -/
def indexRoot : Path := cacheRoot "content-index".toList

def incomingRoot : Path := ["v1".toList, ".incoming".toList]

def channelsRoot : Path := ["v1".toList, "channels".toList]

def objectPath (digest : Str) : Path := objectsRoot ++ [digest.take 2, digest]

def manifestName : Str := "manifest.json".toList

def readyName : Str := "READY.json".toList

def generationMembers : List Str := ["index.sqlite3".toList, "vectors.f32".toList, manifestName, readyName]

/-- The name of a temporary object. -/
def tempName (hex : Str) : Str := hex ++ ".tmp".toList

/-! ### Content variants -/

/-- The manifests of content variants, with their canonical bytes, those of the READY and the index entry
that `_publish_controls` makes of them, and `verify_ocr_bytes` of their output. -/
structure ContentControls where
  Manifest : Type
  reuseKey : Manifest → Str
  variantId : Manifest → Str
  variantLabel : Manifest → Str
  outputSha256 : Manifest → Str
  outputSizeBytes : Manifest → Nat
  migratedFrom : Manifest → Option (Str × Str)
  isSha256_reuseKey : ∀ m, isSha256 (reuseKey m) = true
  canonicalBytes : Manifest → Bytes
  read : Bytes → Option Manifest
  read_canonicalBytes : ∀ m, read (canonicalBytes m) = some m
  readyBytes : Manifest → Bytes
  /-- The body is a canonical READY that verifies the manifest. -/
  verifies : Bytes → Manifest → Bool
  verifies_readyBytes : ∀ m, verifies (readyBytes m) m = true
  indexBytes : Manifest → Bytes
  verifyOcr : Manifest → Bytes → Bool

namespace ContentControls

variable (C : ContentControls) (m : C.Manifest)

def reuseRoot : Path := contentRoot ++ [(C.reuseKey m).take 2, C.reuseKey m]

def variantRoot : Path := C.reuseRoot m ++ ["variants".toList, C.variantLabel m]

/-- `content_index_path(manifest)`. -/
def indexPath : Path := indexRoot ++ [C.reuseKey m ++ ['-'] ++ C.variantLabel m ++ ".json".toList]

def outputPath : Path := objectPath (C.outputSha256 m)

end ContentControls

/-! ### Completed writes -/

inductive Write (C : ContentControls) where
  /-- `ImmutablePublisher`, for a destination of its caller. -/
  | immutable (destination : Path) (content : Bytes)
  | cas (content : Bytes)
  /-- `publish_generation_file`. -/
  | member (generationId memberName : Str) (content : Bytes)
  | quarantine (generationId memberName hex : Str)
  | pointer (channel : Str) (content : Bytes)
  /-- `ContentOCRVariantStore.publish`, or `publish_existing` without a body. -/
  | variant (manifest : C.Manifest) (body : Option Bytes)
  /-- `WebDAVClient.atomic_replace_bytes`. -/
  | atomicReplace (destination : Path) (content : Bytes) (hex : Str)

section
variable {C : ContentControls} (sha256 : Bytes → Str)

/-- `ImmutablePublisher._publish`; `none` when it does not complete. -/
def publishImmutable (t : Tree) (destination : Path) (content : Bytes) : Option Tree :=
  if validPath destination = false then none
  else match t.file destination with
    | some old => if old = content then some t else none
    | none => some (((t.ensure destination.dropLast).ensure (incomingRoot ++ ["publish".toList])).put destination content)

def publishCas (t : Tree) (content : Bytes) : Option Tree :=
  if isSha256 (sha256 content) = false then none else publishImmutable t (objectPath (sha256 content)) content

/-- `_quarantine_generation_member` of a member without manifest and READY. -/
def quarantineMember (t : Tree) (generationId memberName hex : Str) : Option Tree :=
  let path := generationsRoot ++ [generationId, memberName]
  let quarantine := incomingRoot ++ ["publish".toList, tempName hex]
  if memberName ∉ ["index.sqlite3".toList, "vectors.f32".toList] ∨ hex.length ≠ 32 ∨ hex.all isHexDigit = false ∨
      validPath quarantine = false ∨ quarantine.dropLast ∉ t.collections ∨
      (t.file (generationsRoot ++ [generationId, manifestName])).isSome ∨
      (t.file (generationsRoot ++ [generationId, readyName])).isSome ∨ (t.file quarantine).isSome then none
  else (t.file path).map fun content => (t.remove path).put quarantine content

/-- `StablePointerPublisher.atomic_replace_bytes`. -/
def replacePointer (t : Tree) (channel : Str) (content : Bytes) : Option Tree :=
  let destination := channelsRoot ++ [channel ++ ".json".toList]
  if validIdentifier channel = false ∨ validPath destination = false then none
  else some (((t.ensure channelsRoot).ensure (incomingRoot ++ ["channels".toList])).put destination content)

def publishControls (t : Tree) (m : C.Manifest) : Option Tree := do
  let t ← publishImmutable t (C.variantRoot m ++ [manifestName]) (C.canonicalBytes m)
  let t ← publishImmutable t (C.variantRoot m ++ [readyName]) (C.readyBytes m)
  publishImmutable t (C.indexPath m) (C.indexBytes m)

/-- `publish` and `publish_existing`. -/
def publishVariant (t : Tree) (m : C.Manifest) (body : Option Bytes) : Option Tree :=
  match body with
  | some body =>
    if C.verifyOcr m body = false ∨ sha256 body ≠ C.outputSha256 m then none
    else do publishControls (← publishCas sha256 t body) m
  | none => do
    let body ← t.file (C.outputPath m)
    if C.verifyOcr m body = false then none else publishControls t m

def atomicReplace (t : Tree) (destination : Path) (content : Bytes) (hex : Str) : Option Tree := do
  let temporary := incomingRoot ++ ["backup".toList, tempName hex]
  if validPath destination = false then none
  else
    let t ← publishImmutable ((t.ensure temporary.dropLast).ensure destination.dropLast) temporary content
    some ((t.remove temporary).put destination content)

/-- The tree after a write; `none` when the write does not complete. -/
def perform (t : Tree) : Write C → Option Tree
  | .immutable destination content => publishImmutable t destination content
  | .cas content => publishCas sha256 t content
  | .member generationId memberName content =>
    if validIdentifier generationId = false ∨ memberName ∉ ["index.sqlite3".toList, "vectors.f32".toList] then none
    else publishImmutable t (generationsRoot ++ [generationId, memberName]) content
  | .quarantine generationId memberName hex => quarantineMember t generationId memberName hex
  | .pointer channel content => replacePointer t channel content
  | .variant manifest body => publishVariant sha256 t manifest body
  | .atomicReplace destination content hex => atomicReplace t destination content hex

end

end CardRag.Gc
