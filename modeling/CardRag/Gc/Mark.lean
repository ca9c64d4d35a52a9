import CardRag.Gc.Collect
import CardRag.Gc.Tree

/-! # The mark phase on the tree (`gc.py`)

What `collect_garbage` lists once it has read the generations it retains: the content variants, the OCR
caches, the generations, the objects and the temporary objects, with the checks it makes on what it finds. -/

namespace CardRag.Gc

open Publish

/-- What the mark phase raises: an answer of the server, a path that the client refuses, a listing or
shape check, or a disagreement with a generation that is retained. -/
inductive MarkFailure where
  | http (status : Nat)
  | value
  | shape (text : Str)
  | retained (text : Str)
deriving DecidableEq

abbrev Marked (α : Type) := Except MarkFailure α

/-- Digest, size and path of an OCR output. -/
abbrev Binding := Str × Nat × Str

/-- What was read of the generations that are retained. -/
structure Retained where
  generations : List Str
  marked : List Str
  variants : List ((Str × Str) × Binding)
  references : List ((Str × Str) × List Binding)

/-- The paths below a collection, in order. -/
def Tree.children (t : Tree) (p : Path) : List Path :=
  PyList.sortedBy posix ((t.collections ++ t.files.map (·.1)).filter fun q => q ≠ [] ∧ q.dropLast = p).dedup

def listChildren (t : Tree) (p : Path) : Marked (List Path) := do
  if p ∈ t.collections then
    raiseIf ((t.children p).any (validPath · = false)) .value
    pure (t.children p)
  else if (t.file p).isSome then pure []
  else throw (.http 404)

def optionalChildren (t : Tree) (p : Path) : Marked (List Path) :=
  match listChildren t p with
  | .error (.http 404) => pure []
  | r => r

/-- `_HEX_PREFIX`. -/
def isHexPrefix (value : Str) : Bool := value.length == 2 && value.all isHexDigit

/-- One directory of `_list_generation_ids`. -/
def generationIdOf (t : Tree) (path : Path) : Marked Str := do
  raiseIf (path.dropLast ≠ generationsRoot) (.shape "unexpected generations PROPFIND shape".toList)
  raiseIf (validIdentifier (name path) = false) (.shape "unsafe generation ID in PROPFIND".toList)
  let generationChildren ← listChildren t path
  let names := ((generationChildren.filter (·.dropLast = path)).map name).dedup
  raiseIf (names.length ≠ generationChildren.length ∨ ∃ n ∈ names, n ∉ generationMembers)
    (.shape ("unexpected object in generation ".toList ++ name path))
  pure (name path)

def listGenerationIds (t : Tree) : Marked (List Str) := do
  let children ← listChildren t generationsRoot
  let ids ← children.mapM (generationIdOf t)
  pure (PyList.sortedBy id ids)

def listPrefix (t : Tree) (p : Path) : Marked (List Path) := do
  let children ← listChildren t p
  children.forM fun path =>
    raiseIf (path.dropLast ≠ p ∨ isSha256 (name path) = false ∨ (name path).take 2 ≠ name p)
      (.shape "unexpected CAS object in PROPFIND".toList)
  pure children

def listCasObjects (t : Tree) : Marked (List Path) := do
  let prefixes ← listChildren t objectsRoot
  prefixes.forM fun p =>
    raiseIf (p.dropLast ≠ objectsRoot ∨ isHexPrefix (name p) = false) (.shape "unexpected CAS prefix in PROPFIND".toList)
  let groups ← prefixes.mapM (listPrefix t)
  pure (PyList.sortedBy posix groups.flatten)

/-- `_INCOMING_TEMP_LEAF`. -/
def isTempName (value : Str) : Bool :=
  (value.take 32).all isHexDigit && decide (value.length = 36) && decide (value.drop 32 = ".tmp".toList)

def incomingNamespaces : List Str := ["channels".toList, "publish".toList]

/-- `_incoming_leaf_exists_and_is_safe`. -/
def incomingLeafExists (t : Tree) (path : Path) : Marked Bool :=
  match listChildren t path with
  | .ok [] => pure true
  | .ok _ => throw (.shape "incoming temporary deletion candidate is not a leaf".toList)
  | .error (.http 404) => pure false
  | .error e => throw e

def incomingLeaf (t : Tree) (root path : Path) : Marked (Path × Bool) := do
  raiseIf (path.dropLast ≠ root ∨ isTempName (name path) = false) (.shape "unexpected incoming temporary path".toList)
  pure (path, ← incomingLeafExists t path)

/-- One namespace of `_list_incoming_temp_leaves`. -/
def incomingLeaves (t : Tree) (root : Path) : Marked (List Path) := do
  let found ← (← listChildren t root).mapM (incomingLeaf t root)
  pure ((found.filter (·.2)).map (·.1))

/-- `_list_incoming_temp_leaves`; a listing has no duplicates. -/
def listIncomingTempLeaves (t : Tree) : Marked (List Path) := do
  let children ← optionalChildren t incomingRoot
  children.forM fun path =>
    raiseIf (path.dropLast ≠ incomingRoot ∨ name path ∉ incomingNamespaces ++ ["objects".toList])
      (.shape "unexpected incoming namespace path".toList)
  let groups ← (PyList.sortedBy posix (children.filter (name · ∈ incomingNamespaces))).mapM (incomingLeaves t)
  pure (PyList.sortedBy posix groups.flatten)

section
variable (C : ContentControls) (t : Tree)

/-- What a content variant binds: its manifest, READY, index entry and output. -/
structure FoundVariant where
  manifest : C.Manifest
  manifestPath : Path
  readyPath : Path

/-- `manifest.output`. -/
def ContentControls.binding (m : C.Manifest) : Binding := (C.outputSha256 m, C.outputSizeBytes m, posix (C.outputPath m))

def variantFailed : MarkFailure := .shape "content OCR variant failed mark verification".toList

/-- `_required_bytes`, in the `try` block. -/
def requiredBytes (p : Path) : Marked Bytes := (t.file p).elim (throw variantFailed) pure

/-- The `try` block: the controls of a variant agree. -/
def verifyVariant (retained : List ((Str × Str) × Binding)) (indexSet : List Path) (key : Str) (variantRoot : Path) :
    Marked (FoundVariant C) := do
  let manifestPath := variantRoot ++ [manifestName]
  let readyPath := variantRoot ++ [readyName]
  let manifestBody ← requiredBytes t manifestPath
  let readyBody ← requiredBytes t readyPath
  match C.read manifestBody with
  | none => throw variantFailed
  | some m => do
    raiseIf (C.indexPath m ∉ indexSet) variantFailed
    let indexBody ← requiredBytes t (C.indexPath m)
    raiseIf (C.canonicalBytes m ≠ manifestBody ∨ C.verifies readyBody m = false ∨ C.indexBytes m ≠ indexBody ∨
      C.reuseKey m ≠ key ∨ C.variantRoot m ≠ variantRoot) variantFailed
    raiseIf ((PyList.get? retained (C.reuseKey m, C.variantId m)).any (· ≠ C.binding m))
      (.retained "content OCR variant failed mark verification".toList)
    let ocrBody ← requiredBytes t (C.outputPath m)
    raiseIf (C.verifyOcr m ocrBody = false) variantFailed
    pure ⟨m, manifestPath, readyPath⟩

/-- One directory of variants. -/
def listVariant (retained : List ((Str × Str) × Binding)) (indexSet : List Path) (key : Str) (variantsRoot variantRoot : Path) :
    Marked (FoundVariant C) := do
  raiseIf (variantRoot.dropLast ≠ variantsRoot) (.shape "unexpected content OCR variant path".toList)
  let children ← listChildren t variantRoot
  raiseIf (children.length ≠ 2 ∨ variantRoot ++ [manifestName] ∉ children ∨ variantRoot ++ [readyName] ∉ children)
    (.shape "incomplete content OCR variant".toList)
  verifyVariant C t retained indexSet key variantRoot

/-- The variants of one reuse key. -/
def listVariants (retained : List ((Str × Str) × Binding)) (indexSet : List Path) (keyPrefix reuseRoot : Path) :
    Marked (List (FoundVariant C)) := do
  let key := name reuseRoot
  raiseIf (reuseRoot.dropLast ≠ keyPrefix ∨ isSha256 key = false ∨ key.take 2 ≠ name keyPrefix)
    (.shape "unexpected content OCR reuse directory".toList)
  let variantsRoot := reuseRoot ++ ["variants".toList]
  raiseIf ((← listChildren t reuseRoot) ≠ [variantsRoot]) (.shape "unexpected content OCR reuse shape".toList)
  (← listChildren t variantsRoot).mapM (listVariant C t retained indexSet key variantsRoot)

/-- The variants under one prefix. -/
def listContentPrefix (retained : List ((Str × Str) × Binding)) (indexSet : List Path) (p : Path) :
    Marked (List (FoundVariant C)) := do
  raiseIf (p.dropLast ≠ contentRoot ∨ isHexPrefix (name p) = false) (.shape "unexpected content OCR prefix".toList)
  let groups ← (← listChildren t p).mapM (listVariants C t retained indexSet p)
  pure groups.flatten

/-- The marks and `legacy_references`. -/
structure ContentMarks where
  marked : List Str
  legacy : List ((Str × Str) × List Binding)

/-- `d.setdefault(key, set()).update(bindings)`. -/
def addReferences (d : List ((Str × Str) × List Binding)) (r : (Str × Str) × List Binding) : List ((Str × Str) × List Binding) :=
  PyList.insert r.1 (((PyList.get? d r.1).getD []) ++ r.2).dedup d

def markContentVariants (retained : List ((Str × Str) × Binding)) : Marked ContentMarks := do
  let indexSet ← optionalChildren t indexRoot
  indexSet.forM fun entry =>
    raiseIf (entry.dropLast ≠ indexRoot ∨ ¬ ".json".toList <:+ name entry)
      (.shape "unexpected content OCR index entry".toList)
  let prefixes ← optionalChildren t contentRoot
  let found := (← prefixes.mapM (listContentPrefix C t retained indexSet)).flatten
  raiseIf (∃ entry ∈ indexSet, entry ∉ found.map (C.indexPath ·.manifest))
    (.shape "content OCR index or retained generation variant is missing".toList)
  raiseIf (∃ r ∈ retained, r.1 ∉ found.map fun v => (C.reuseKey v.manifest, C.variantId v.manifest))
    (.retained "content OCR index or retained generation variant is missing".toList)
  pure ⟨found.flatMap fun v => [posix v.manifestPath, posix v.readyPath, posix (C.indexPath v.manifest),
      posix (C.outputPath v.manifest)],
    (found.filterMap fun v => (C.migratedFrom v.manifest).map fun identity => (identity, [C.binding v.manifest])).foldl
      addReferences []⟩

/-- What a pair of control bodies under this key binds; `none` when they are invalid, not canonical or do
not agree. -/
abbrev CacheControls := Str → Str → Bytes → Bytes → Option Binding

/-- One key of the OCR caches: unreferenced, or the reference with what is marked for it. -/
inductive CacheEntry where
  | inactive (path : Str)
  | found (reference : Str × Str) (marked : List Str)

def CacheEntry.marked : CacheEntry → List Str
  | .inactive _ => []
  | .found _ marked => marked

def CacheEntry.reference : CacheEntry → Option (Str × Str)
  | .inactive _ => none
  | .found reference _ => some reference

def CacheEntry.inactivePath : CacheEntry → Option Str
  | .inactive path => some path
  | .found .. => none

def markCache (controls : CacheControls) (retained required : List ((Str × Str) × List Binding)) (kind : Str)
    (keyPrefix reuseRoot : Path) : Marked CacheEntry := do
  let key := name reuseRoot
  raiseIf (reuseRoot.dropLast ≠ keyPrefix ∨ isSha256 key = false ∨ key.take 2 ≠ name keyPrefix)
    (.shape "unexpected OCR cache reuse directory".toList)
  let root := cacheRoot kind ++ [key.take 2, key]
  let bindings := PyList.get? retained (kind, key)
  let children ← listChildren t reuseRoot
  let names := ((children.filter (·.dropLast = reuseRoot)).map name).dedup
  raiseIf (names.length ≠ children.length ∨ ∃ n ∈ names, n ∉ [manifestName, readyName])
    (.shape ("unexpected object in ".toList ++ kind ++ " OCR cache ".toList ++ key))
  match t.file (root ++ [manifestName]), t.file (root ++ [readyName]) with
  | _, none => pure (.inactive (posix reuseRoot))
  | none, some _ => do
    raiseIf bindings.isSome (.retained ("retained OCR cache has no manifest ".toList ++ key))
    pure (.inactive (posix reuseRoot))
  | some manifestBody, some readyBody =>
    match controls kind key manifestBody readyBody, bindings with
    | none, some _ => throw (.retained ("invalid retained OCR cache ".toList ++ key))
    | _, none => pure (.inactive (posix reuseRoot))
    | some binding, some bindings => do
      raiseIf (binding ∉ bindings) (.retained "retained generation/cache binding differs".toList)
      raiseIf ((PyList.get? required (kind, key)).any (binding ∉ ·)) (.retained "migrated legacy OCR binding differs".toList)
      pure (.found (kind, key) [posix (root ++ [manifestName]), posix (root ++ [readyName]), binding.2.2])

def markPrefix (controls : CacheControls) (retained required : List ((Str × Str) × List Binding)) (kind : Str) (p : Path) :
    Marked (List CacheEntry) := do
  raiseIf (p.dropLast ≠ cacheRoot kind ∨ isHexPrefix (name p) = false) (.shape "unexpected OCR cache prefix".toList)
  (← listChildren t p).mapM (markCache t controls retained required kind p)

def markOcrCaches (controls : CacheControls) (retained required : List ((Str × Str) × List Binding)) :
    Marked (List CacheEntry) := do
  let groups ← ["native".toList, "adopted".toList].mapM fun kind => do
    let prefixes ← optionalChildren t (cacheRoot kind)
    let entries ← prefixes.mapM (markPrefix t controls retained required kind)
    pure entries.flatten
  let entries := groups.flatten
  raiseIf (∃ r ∈ required, r.1 ∈ retained.map (·.1) ∧ r.1 ∉ entries.filterMap CacheEntry.reference)
    (.retained "migrated legacy OCR provenance is missing".toList)
  pure entries

/-- `collect_garbage`, from the generations it retains to what it hands to the sweep. -/
def markPhase (controls : CacheControls) (R : Retained) : Marked Marks := do
  let content ← markContentVariants C t R.variants
  let references := content.legacy.foldl addReferences R.references
  let entries ← markOcrCaches t controls references content.legacy
  let allGenerations ← listGenerationIds t
  let allObjects ← listCasObjects t
  let incomingTempLeaves ← listIncomingTempLeaves t
  pure ⟨R.generations, R.marked ++ content.marked ++ entries.flatMap CacheEntry.marked, allGenerations,
    allObjects.map posix, entries.filterMap CacheEntry.inactivePath, incomingTempLeaves.map posix⟩

end

end CardRag.Gc
