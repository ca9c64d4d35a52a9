import CardRag.Core

/-! # The local generations (`store.py`)

The state root as every process sees it, the handle entries one process keeps, and the operations of
`GenerationStore` on both. Entries are mutable objects of the source that pins hold on to, so they
live in a heap and the table and the pins refer to them by address. What the storage quotas answer is
an input of the operations that ask them. -/

namespace CardRag.Generations

/-! ### The state root -/

/-- A row of `verify_handle_pdfs`. A revision always has its lineage row, so these are also the rows
that the object store is marked from. -/
structure Document where
  documentId : Str
  pdfSha256 : Str
  pdfSizeBytes : Nat
deriving DecidableEq

/-- What is read of `index.sqlite3` and its vectors. -/
structure Database where
  generationId : Str
  /-- the schema, the counts and the vectors pass their validation -/
  valid : Bool
  documents : List Document
  residentVectorBytes : Nat
deriving DecidableEq

/-- A directory of `generations/`; without a database when that cannot be read. -/
structure GenerationDir where
  name : Str
  mtimeNs : Nat
  database : Option Database
deriving DecidableEq

/-- A file of `objects/sha256/`, by what is computed of its bytes. -/
structure CasObject where
  name : Str
  size : Nat
  pdfHeader : Bool
  sha256 : Str
deriving DecidableEq

/-- The state root. `current` is what `current.json` names, and `roots` the owners of
`generation-gc-roots/` with the generations they retain. -/
structure Disk where
  generations : List GenerationDir
  objects : List CasObject
  current : Option Str
  roots : List (Str × Str)
deriving DecidableEq

inductive Failure where
  | runtimeError (message : String)
  | valueError (message : String)
  | fileNotFoundError
  /-- what the schema and vector validation raises -/
  | invalidDatabase
deriving DecidableEq

def isIdStart (c : Char) : Bool := ('A' ≤ c && c ≤ 'Z') || ('a' ≤ c && c ≤ 'z') || ('0' ≤ c && c ≤ '9')

/-- `GENERATION_ID.fullmatch(id)`. -/
def isGenerationId : Str → Bool
  | [] => false
  | c :: cs => isIdStart c && cs.length ≤ 127 && cs.all fun c => isIdStart c || c == '.' || c == '_' || c == '-'

/-- `GENERATION_GC_ROOT_OWNER.fullmatch(owner)`. -/
def isGcRootOwner (owner : Str) : Bool := "map-reduce-".toList.isPrefixOf owner && isSha256 (owner.drop 11)

structure Settings where
  retention : Nat
  maximumResidentVectorBytes : Nat
  maximumPdfBytes : Nat
  two_le_retention : 2 ≤ retention

namespace Disk

def find (d : Disk) (id : Str) : Option GenerationDir := d.generations.find? (·.name = id)

/-- `(generations / id).is_dir()` -/
def has (d : Disk) (id : Str) : Bool := d.generations.any (·.name = id)

/-- The directories that pruning looks at. -/
def named (d : Disk) : List GenerationDir := d.generations.filter fun g => isGenerationId g.name

/-- `shutil.rmtree(generations / id)` -/
def remove (d : Disk) (id : Str) : Disk := { d with generations := d.generations.filter (·.name ≠ id) }

/-- `_durable_generation_roots_locked` -/
def durableGenerationRoots (d : Disk) : Except Failure (List (Str × Str)) := do
  d.roots.forM fun root => do
    raiseIf (isGcRootOwner root.1 = false ∨ isGenerationId root.2 = false)
      (.runtimeError "generation GC root identity is invalid")
    raiseIf (d.has root.2 = false) (.runtimeError "generation GC root references a missing generation")
  return d.roots

/-- `_durable_current_generation_id_locked` -/
def durableCurrentGenerationId (d : Disk) : Except Failure Str :=
  match d.current with
  | none => throw (.runtimeError "durable current generation pointer is missing or unsafe")
  | some id => do
    raiseIf (isGenerationId id = false) (.runtimeError "durable current generation pointer identity is invalid")
    raiseIf (d.has id = false) (.runtimeError "durable current generation is missing")
    return id

end Disk

/-! ### Handles -/

structure GenerationHandle where
  generationId : Str
  database : Database
deriving DecidableEq

def loadGenerationHandle (s : Settings) (dir : GenerationDir) : Except Failure GenerationHandle := do
  raiseIf (isGenerationId dir.name = false) (.runtimeError "invalid local generation ID")
  match dir.database with
  | none => throw (.runtimeError "generation database is missing or unsafe")
  | some database => do
    raiseIf (database.valid = false) .invalidDatabase
    raiseIf (database.generationId ≠ dir.name) (.runtimeError "database generation ID differs from its directory")
    raiseIf (s.maximumResidentVectorBytes < database.residentVectorBytes)
      (.runtimeError "generation vector arrays exceed the configured resident memory limit")
    return ⟨dir.name, database⟩

def verifyPdfForHandle (s : Settings) (d : Disk) (document : Document) : Except Failure Unit := do
  raiseIf (s.maximumPdfBytes < document.pdfSizeBytes) (.runtimeError "PDF exceeds the configured 100 MiB bound")
  raiseIf (isSha256 document.pdfSha256 = false) (.valueError "invalid CAS digest")
  match d.objects.find? (·.name = document.pdfSha256) with
  | none => throw .fileNotFoundError
  | some object => do
    raiseIf (object.size ≠ document.pdfSizeBytes) (.runtimeError "PDF size differs from serving metadata")
    raiseIf (object.pdfHeader = false) (.runtimeError "source object is not application/pdf")
    raiseIf (object.sha256 ≠ document.pdfSha256) (.runtimeError "PDF hash differs from serving metadata")

def verifyHandlePdfs (s : Settings) (d : Disk) (handle : GenerationHandle) : Except Failure Unit :=
  handle.database.documents.forM (verifyPdfForHandle s d)

/-- The handle of a generation of the state root, read and verified. -/
def readGeneration (s : Settings) (d : Disk) (id : Str) : Except Failure GenerationHandle :=
  match d.find id with
  | none => throw .fileNotFoundError
  | some dir => do
    let handle ← loadGenerationHandle s dir
    verifyHandlePdfs s d handle
    return handle

/-! ### One process -/

structure HandleEntry where
  handle : GenerationHandle
  references : Int
deriving DecidableEq

/-- `pins` are the pins not yet released, each by the entry it took. -/
structure Process where
  heap : List HandleEntry
  entries : List (Str × Nat)
  active : Option Nat
  pins : List Nat
deriving DecidableEq

namespace Process

def start : Process := ⟨[], [], none, []⟩

def references (p : Process) (entry : Nat) : Int := ((p.heap[entry]?).map (·.references)).getD 0

def generationOf (p : Process) (entry : Nat) : Option Str := (p.heap[entry]?).map (·.handle.generationId)

def activeGenerationId (p : Process) : Option Str := p.active.bind p.generationOf

/-- The table holds an entry of the generation that has references. -/
def pinned (p : Process) (id : Str) : Bool := ((PyList.get? p.entries id).map p.references).any (0 < ·)

/-- `entry = _HandleEntry(handle)`, and its place in the table. -/
def newEntry (p : Process) (handle : GenerationHandle) : Process :=
  { p with
    heap := p.heap ++ [⟨handle, 0⟩]
    entries := PyList.insert handle.generationId p.heap.length p.entries }

def activateEntry (p : Process) (entry : Nat) : Process := { p with active := some entry }

/-- `entry.references += 1` and the pin that holds it. -/
def take (p : Process) (entry : Nat) : Process :=
  { p with
    heap := p.heap.modify entry fun e => { e with references := e.references + 1 }
    pins := p.pins ++ [entry] }

/-- `entry.references -= 1` when the pin of place `k` is released. -/
def drop (p : Process) (k entry : Nat) : Process :=
  { p with
    heap := p.heap.modify entry fun e => { e with references := e.references - 1 }
    pins := p.pins.eraseIdx k }

def pop (p : Process) (id : Str) : Process := { p with entries := p.entries.filter (·.1 ≠ id) }

/-- What the entries of the table keep in memory, without one generation's. -/
def residentVectorBytes (p : Process) (without : Option Str) : Nat :=
  ((p.entries.filter (some ·.1 ≠ without)).map fun e =>
    ((p.heap[e.2]?).map (·.handle.database.residentVectorBytes)).getD 0).sum

end Process

/-- A process and the state root it works on. -/
structure Store where
  disk : Disk
  process : Process
deriving DecidableEq

/-! ### Pruning -/

/-- `candidates`, newest first. -/
def candidates (d : Disk) : List GenerationDir :=
  (PyList.sortedBy (fun g : GenerationDir => toLex (g.mtimeNs, g.name)) d.named).reverse

def retained (s : Settings) (st : Store) : List Str :=
  ((candidates st.disk).take s.retention).map (·.name) ++ st.process.activeGenerationId.toList ++
    st.disk.roots.map (·.2)

/-- What is done to one candidate: its idle entry leaves the table, and its directory goes unless it
is retained or pinned. -/
def pruneOne (retained : List Str) (st : Store) (id : Str) : Store :=
  let entry := PyList.get? st.process.entries id
  let pinned := st.process.pinned id
  let process := if entry ≠ none ∧ entry ≠ st.process.active ∧ pinned = false then st.process.pop id else st.process
  if id ∈ retained ∨ pinned = true then { st with process }
  else { disk := st.disk.remove id, process := process.pop id }

/-- The digests that the directory's database refers to; `none` when it cannot be read. -/
def GenerationDir.digests (dir : GenerationDir) : Option (List Str) :=
  dir.database.map fun database => database.documents.map (·.pdfSha256)

/-- `referenced`; `none` when one of the databases cannot be read. -/
def referenced (d : Disk) : Option (List Str) := (d.named.mapM GenerationDir.digests).map List.flatten

/-- `_prune_cas_locked` -/
def pruneCas (d : Disk) : Disk :=
  match referenced d with
  | none => d
  | some digests => { d with objects := d.objects.filter fun o => isSha256 o.name = false ∨ o.name ∈ digests }

/-- `_prune_locked`, with the durable roots already read. -/
def prune (s : Settings) (st : Store) : Store :=
  let pruned := ((candidates st.disk).map (·.name)).foldl (pruneOne (retained s st)) st
  { pruned with disk := pruneCas pruned.disk }

/-! ### The operations -/

/-- `load_current`: the process after it, and what it returns. -/
def loadCurrent (s : Settings) (st : Store) : Process × Bool :=
  match st.disk.current with
  | none => (st.process, false)
  | some id =>
    if isGenerationId id then
      match readGeneration s st.disk id with
      | .error _ => (st.process, false)
      | .ok handle => ((st.process.newEntry handle).activateEntry st.process.heap.length, true)
    else (st.process, false)

/-- `pin`, up to where it yields the handle. -/
def pin (st : Store) : Except Failure Process :=
  match st.process.active with
  | none => throw (.runtimeError "no serving generation is active")
  | some entry => return st.process.take entry

/-- `pin_generation`, up to where it yields the handle. -/
def pinGeneration (s : Settings) (st : Store) (id : Str) : Except Failure Process := do
  raiseIf (isGenerationId id = false) (.runtimeError "requested generation ID is invalid")
  match PyList.get? st.process.entries id with
  | some entry => return st.process.take entry
  | none => do
    raiseIf (st.disk.has id = false) (.runtimeError "requested generation is missing or unsafe")
    match readGeneration s st.disk id with
    | .error _ => throw (.runtimeError "requested generation failed exact validation")
    | .ok handle => do
      raiseIf
        (s.maximumResidentVectorBytes <
          st.process.residentVectorBytes none + handle.database.residentVectorBytes)
        (.runtimeError "requested generation exceeds the resident vector memory limit")
      return (st.process.newEntry handle).take st.process.heap.length

/-- The end of a `with` block over the pin of place `k`: what it leaves, and what it raises. -/
def release (s : Settings) (st : Store) (k : Nat) : Store × Option Failure :=
  match st.process.pins[k]? with
  | none => (st, none)
  | some entry =>
    let dropped := { st with process := st.process.drop k entry }
    if some entry ≠ dropped.process.active ∧ dropped.process.references entry = 0 then
      match dropped.disk.durableGenerationRoots with
      | .error failure => (dropped, some failure)
      | .ok _ => (prune s dropped, none)
    else (dropped, none)

/-- `_acquire_generation_gc_root_locked`; `quota` is what the state and audit quotas answer. -/
def acquireRootLocked (d : Disk) (owner id : Str) (quota : Except Failure Unit) : Except Failure Disk := do
  raiseIf (d.has id = false) (.runtimeError "generation GC root references a missing generation")
  match PyList.get? d.roots owner with
  | some bound => do
    raiseIf (bound ≠ id) (.runtimeError "generation GC root already binds another generation")
    return d
  | none => do
    quota
    return { d with roots := PyList.insert owner id d.roots }

/-- `acquire_generation_gc_root` -/
def acquireRoot (d : Disk) (owner id : Str) (quota : Except Failure Unit) : Except Failure Disk := do
  raiseIf (isGcRootOwner owner = false) (.runtimeError "generation GC root owner is invalid")
  raiseIf (isGenerationId id = false) (.runtimeError "generation GC root generation is invalid")
  let _ ← d.durableGenerationRoots
  acquireRootLocked d owner id quota

/-- `claim_current_generation_gc_root`: the state root after it, and what it returns. -/
def claimCurrentRoot (d : Disk) (ownerFor : Str → Str) (quota : Except Failure Unit) :
    Except Failure (Disk × Str × Str × Bool) := do
  let roots ← d.durableGenerationRoots
  roots.forM fun root =>
    raiseIf (isGcRootOwner (ownerFor root.2) = false) (.runtimeError "derived generation GC root owner is invalid")
  match roots.filter fun root => ownerFor root.2 = root.1 with
  | [root] => return (d, root.1, root.2, false)
  | root :: more =>
    let owners := PyList.sortedBy id ((root :: more).map (·.1))
    throw (.runtimeError ("multiple durable jobs match one sealed query/profile: " ++
      String.ofList (List.intercalate [','] owners)))
  | [] => do
    let id ← d.durableCurrentGenerationId
    raiseIf (isGcRootOwner (ownerFor id) = false) (.runtimeError "derived generation GC root owner is invalid")
    let rooted ← acquireRootLocked d (ownerFor id) id quota
    return (rooted, ownerFor id, id, true)

/-- `release_generation_gc_root` -/
def releaseRoot (d : Disk) (owner id : Str) : Except Failure Disk := do
  let roots ← d.durableGenerationRoots
  match PyList.get? roots owner with
  | none => return d
  | some existing => do
    raiseIf (existing ≠ id) (.runtimeError "generation GC root release identity is stale")
    return { d with roots := d.roots.filter (·.1 ≠ owner) }

/-- `activate` up to its prune; `quota` is what the state quota answers. -/
def switch (s : Settings) (st : Store) (handle : GenerationHandle) (quota : Except Failure Unit) :
    Except Failure Store := do
  let _ ← st.disk.durableGenerationRoots
  let id := handle.generationId
  let entry := PyList.get? st.process.entries id
  let own := match entry.bind (st.process.heap[·]?) with
    | some e => e.handle.database.residentVectorBytes
    | none => handle.database.residentVectorBytes
  raiseIf (s.maximumResidentVectorBytes < st.process.residentVectorBytes (some id) + own)
    (.runtimeError "candidate plus resident/pinned vector memory exceeds the resident limit")
  quota
  let disk := { st.disk with current := some id }
  let process := match entry with
    | some entry => st.process.activateEntry entry
    | none => (st.process.newEntry handle).activateEntry st.process.heap.length
  return { disk, process }

def activate (s : Settings) (st : Store) (handle : GenerationHandle) (quota : Except Failure Unit) :
    Except Failure Store := do
  let switched ← switch s st handle quota
  return prune s switched

inductive Operation where
  | loadCurrent
  | pin
  | pinGeneration (id : Str)
  | release (k : Nat)
  | acquireRoot (owner id : Str) (quota : Except Failure Unit)
  | claimCurrentRoot (ownerFor : Str → Str) (quota : Except Failure Unit)
  | releaseRoot (owner id : Str)
  | activate (handle : GenerationHandle) (quota : Except Failure Unit)

/-- What an operation leaves. One that raises leaves everything as it was, except that a released pin
stays released. -/
def perform (s : Settings) (st : Store) : Operation → Store
  | .loadCurrent => { st with process := (loadCurrent s st).1 }
  | .pin => { st with process := (pin st).toOption.getD st.process }
  | .pinGeneration id => { st with process := (pinGeneration s st id).toOption.getD st.process }
  | .release k => (release s st k).1
  | .acquireRoot owner id quota => { st with disk := (acquireRoot st.disk owner id quota).toOption.getD st.disk }
  | .claimCurrentRoot ownerFor quota =>
    { st with disk := ((claimCurrentRoot st.disk ownerFor quota).toOption.map (·.1)).getD st.disk }
  | .releaseRoot owner id => { st with disk := (releaseRoot st.disk owner id).toOption.getD st.disk }
  | .activate handle quota => (activate s st handle quota).toOption.getD st

end CardRag.Generations
