import CardRag.History.Supersession
import CardRag.Lib.Runs
import CardRag.Publish.Webdav

/-! # The PDF cache on disk (`pdf_cache.py`)

Each call of `PDFCache` as what it does to the file system and the tables, one effect after the other, with its
result. A call that is killed has done the first of its effects. The tables are those of `state.py`. -/

namespace CardRag.Pdf

open Publish (Bytes)

inductive Problem where
  /-- `PDFValidationError` and its subclasses. -/
  | validation (message : String)
  | security (message : String)
  | metadata (message : String)
  | invalidLeaf (message : String)
  | state (raised : Raised)
deriving DecidableEq

/-- `hashlib` and `pdfium`: the digest, and the pages of a document that opens completely. -/
structure Library where
  sha256 : Bytes → Str
  isSha256_sha256 : ∀ body, isSha256 (sha256 body) = true
  pageCount : Bytes → Option Nat

abbrev Node := Str × Str

structure PDFCache where
  /-- The directories of `objects/sha256`. -/
  dirs : List Str
  /-- The regular files in them. -/
  nodes : List (Node × Bytes)
  /-- How many names `mkstemp` has made. -/
  made : Nat
  tables : WorkerState

inductive Effect where
  | mkdir (dir : Str)
  | mkstemp (node : Node)
  | write (node : Node) (block : Bytes)
  | replace (node target : Node)
  | unlink (node : Node)
  | commit (tables : WorkerState)

def PDFCache.empty : PDFCache := ⟨[], [], 0, .empty⟩

def Effect.apply (c : PDFCache) : Effect → PDFCache
  | .mkdir dir => { c with dirs := if dir ∈ c.dirs then c.dirs else c.dirs ++ [dir] }
  | .mkstemp node => { c with nodes := c.nodes ++ [(node, [])], made := c.made + 1 }
  | .write node block => { c with nodes := c.nodes.map fun e => if e.1 = node then (e.1, e.2 ++ block) else e }
  | .replace node target =>
    { c with nodes := (c.nodes.filter (·.1 ≠ target)).map fun e => if e.1 = node then (target, e.2) else e }
  | .unlink node => { c with nodes := c.nodes.filter (·.1 ≠ node) }
  | .commit tables => { c with tables }

def PDFCache.perform (c : PDFCache) (effects : List Effect) : PDFCache := effects.foldl Effect.apply c

/-- What a call does, and what it returns. -/
structure Call (β : Type) where
  effects : List Effect
  result : Except Problem β

/-- The directory and the name of an object. -/
def objectPath (digest : Str) : Node := (digest.take 2, digest)

def relativeObjectPath (digest : Str) : Str := "objects/sha256/".toList ++ digest.take 2 ++ '/' :: digest

def temporaryName (n : Nat) : Str := ".ingest-".toList ++ Nat.toDigits 10 n ++ ".pdf".toList

structure CachedPDFObject where
  path : Node
  sha256 : Str
  sizeBytes : Nat
  pageCount : Nat
deriving DecidableEq

structure PDFCacheHit where
  path : Node
  sha256 : Str
  sizeBytes : Nat
  pageCount : Nat
  finalUrl : Str
  sourceId : Str
  etag : Option Str
  lastModified : Option Str
  originCheckedAt : Str
deriving DecidableEq

def hit (path : Node) (binding : PDFSourceRevisionRow) : PDFCacheHit where
  path := path
  sha256 := binding.pdfSha256
  sizeBytes := binding.revision.pdfSizeBytes
  pageCount := binding.revision.pageCount
  finalUrl := binding.revision.finalUrl
  sourceId := binding.sourceId
  etag := binding.revision.etag
  lastModified := binding.revision.lastModified
  originCheckedAt := binding.revision.lastObservedAt

def bytes (text : String) : Bytes := text.toList.map fun x => UInt8.ofNat x.toNat

/-- Whether the bytes start with one of the signatures. -/
def startsWith (body : Bytes) (signatures : List String) : Bool := signatures.any fun s => (bytes s).isPrefixOf body

section
variable (P : Library)

def validatePdf (body : Bytes) (expectedSha256 : Option Str) : Except Problem (Str × Nat × Nat) := do
  raiseIf (startsWith body ["SCDSA002", "SCDSA004", "\u009b DRMONE"] = true)
    (.validation "response is a recognized protected document container")
  raiseIf (startsWith body ["PK\u0003\u0004", "PK\u0005\u0006", "PK\u0007\u0008"] = true)
    (.validation "response is a zip archive")
  raiseIf (startsWith body ["%PDF-"] = false) (.validation "response does not start with a PDF signature")
  raiseIf (expectedSha256.any (· ≠ P.sha256 body) = true)
    (.validation "downloaded PDF hash differs from the expected hash")
  match P.pageCount body with
  | none => .error (.validation "PDF structure cannot be opened completely")
  | some 0 => .error (.validation "PDF contains no pages")
  | some (n + 1) => .ok (P.sha256 body, body.length, n + 1)

def validatedCacheObject (c : PDFCache) (digest : Str) : Except Problem CachedPDFObject :=
  if isSha256 digest = false then .error (.state (valueError "PDF cache sha256 is invalid"))
  else match PyList.get? c.nodes (objectPath digest) with
  | none => .error (.invalidLeaf "cache object failed PDF validation")
  | some body =>
    match validatePdf P body (some digest) with
    | .error _ => .error (.invalidLeaf "cache object failed PDF validation")
    | .ok (sha256, sizeBytes, pageCount) => .ok ⟨objectPath digest, sha256, sizeBytes, pageCount⟩

/-! ### Ingestion -/

structure IngestRequest where
  /-- The source, as it is read and written. -/
  blocks : List Bytes
  expectedSha256 : Option Str
  expectedSizeBytes : Option Nat
  expectedPageCount : Option Nat
  now : Clock

def IngestRequest.body (r : IngestRequest) : Bytes := r.blocks.flatten

/-- `record_pdf_cache_object`, then the value. -/
def recordThen {β : Type} (tables : WorkerState) (done : List Effect) (digest : Str) (sizeBytes pageCount : Nat)
    (verifiedAt : Moment) (value : β) : Call β :=
  match tables.recordPdfCacheObject ⟨digest, sizeBytes, pageCount, relativeObjectPath digest, verifiedAt⟩ with
  | .error e => ⟨done, .error (.state e)⟩
  | .ok tables => ⟨done ++ [.commit tables], .ok value⟩

/-- The checks of the source. -/
def checkSource (r : IngestRequest) : Except Problem (Str × Nat × Nat) := do
  let (digest, sizeBytes, pageCount) ← validatePdf P r.body r.expectedSha256
  raiseIf (r.expectedSizeBytes.any (· ≠ sizeBytes) = true) (.validation "PDF size differs from the expected size")
  raiseIf (r.expectedPageCount.any (· ≠ pageCount) = true)
    (.validation "PDF page count differs from the expected count")
  return (digest, sizeBytes, pageCount)

/-- The source is copied to a temporary of the directory of its object. -/
def copy (c : PDFCache) (r : IngestRequest) (digest : Str) : List Effect :=
  let temporary : Node := (digest.take 2, temporaryName c.made)
  .mkdir (digest.take 2) :: .mkstemp temporary :: r.blocks.map (.write temporary)

/-- The leaf is put in place where it is not there, and the temporary is gone. -/
def ingest (c : PDFCache) (r : IngestRequest) : Call CachedPDFObject :=
  match checkSource P r with
  | .error e => ⟨[], .error e⟩
  | .ok (digest, sizeBytes, pageCount) =>
    match validatedCacheObject P c digest with
    | .ok current => recordThen c.tables [.mkdir (digest.take 2)] digest sizeBytes pageCount (.aware r.now) current
    | .error _ =>
      let temporary : Node := (digest.take 2, temporaryName c.made)
      let copied := c.perform (copy c r digest)
      let drop (e : Problem) : Call CachedPDFObject := ⟨copy c r digest ++ [.unlink temporary], .error e⟩
      match validatePdf P ((PyList.get? copied.nodes temporary).getD []) (some digest) with
      | .error e => drop e
      | .ok checked =>
        if checked ≠ (digest, sizeBytes, pageCount) then drop (.validation "PDF changed while it was copied into cache")
        else match validatedCacheObject P copied digest with
          | .ok winner =>
            if (winner.sizeBytes, winner.pageCount) ≠ (sizeBytes, pageCount) then
              drop (.metadata "validated CAS object metadata changed during ingestion")
            else recordThen c.tables (copy c r digest ++ [.unlink temporary]) digest sizeBytes pageCount (.aware r.now) winner
          | .error _ =>
            let stored := copy c r digest ++ [.replace temporary (objectPath digest), .unlink temporary]
            match validatedCacheObject P (c.perform stored) digest with
            | .error e => ⟨stored, .error e⟩
            | .ok winner =>
              if (winner.sizeBytes, winner.pageCount) ≠ (sizeBytes, pageCount) then
                ⟨stored, .error (.metadata "validated CAS object metadata changed during ingestion")⟩
              else recordThen c.tables stored digest sizeBytes pageCount (.aware r.now) winner

/-- A new leaf is to be stored: the temporary is made by the second effect, and renamed after its last block. -/
def Stores (c : PDFCache) (r : IngestRequest) : Prop :=
  ∃ digest sizeBytes pageCount, checkSource P r = .ok (digest, sizeBytes, pageCount) ∧
    (validatedCacheObject P c digest).isOk = false

/-! ### The other calls -/

structure Binding where
  identity : PDFSourceIdentity
  cached : CachedPDFObject
  finalUrl : Str
  etag : Option Str
  lastModified : Option Str
  replaceValidators : Bool
  observedAt : Moment
  verifiedAt : Moment

def Binding.request (b : Binding) (validated : CachedPDFObject) : BindRequest where
  identity := b.identity
  pdfSha256 := validated.sha256
  pdfSizeBytes := validated.sizeBytes
  pageCount := validated.pageCount
  finalUrl := b.finalUrl
  etag := b.etag
  lastModified := b.lastModified
  replaceValidators := b.replaceValidators
  observedAt := b.observedAt
  verifiedAt := b.verifiedAt

def bind (c : PDFCache) (b : Binding) : Call PDFCacheHit :=
  match validatedCacheObject P c b.cached.sha256 with
  | .error e => ⟨[], .error e⟩
  | .ok validated =>
    if b.cached.path ≠ validated.path ∨ b.cached.sizeBytes ≠ validated.sizeBytes ∨ b.cached.pageCount ≠ validated.pageCount then
      ⟨[], .error (.metadata "cache binding input does not match its validated CAS object")⟩
    else match c.tables.recordPdfCacheObject
        ⟨validated.sha256, validated.sizeBytes, validated.pageCount, relativeObjectPath validated.sha256, b.verifiedAt⟩ with
      | .error e => ⟨[], .error (.state e)⟩
      | .ok recorded =>
        let done : List Effect := [.commit recorded, .commit ((Command.bind (b.request validated)).durable recorded)]
        match recorded.bindPdfCacheSource (b.request validated) with
        | .error e => ⟨done, .error (.state e)⟩
        | .ok (binding, _) => ⟨done, .ok (hit validated.path binding)⟩

/-- `mark_pdf_cache_verified` of valid identities: whether there is an active revision with the digest. -/
def markPdfCacheVerified (tables : WorkerState) (sourceId pdfSha256 timestamp : Str) : Bool × WorkerState :=
  match tables.revisions.find? fun v => v.sourceId = sourceId ∧ v.pdfSha256 = pdfSha256 ∧ v.supersededAt = none with
  | none => (false, tables)
  | some revision =>
    (true, {
      revisions := tables.revisions.map fun v =>
        if v.revisionId = revision.revisionId then { v with verifiedAt := timestamp } else v
      sources := tables.sources.map fun s =>
        if s.identity.sourceId = sourceId then { s with lastVerifiedAt := timestamp } else s
      objects := tables.objects.map fun o => if o.pdfSha256 = pdfSha256 then { o with lastVerifiedAt := timestamp } else o })

/-- `lookup` of a source id, or of an identity. -/
def lookup (c : PDFCache) (sourceId : Str) (identity : Option PDFSourceIdentity) (now : Clock) : Call (Option PDFCacheHit) :=
  match c.tables.pdfCacheSourceBinding sourceId with
  | .error e => ⟨[], .error (.state e)⟩
  | .ok none => ⟨[], .ok none⟩
  | .ok (some binding) =>
    if identity.any (· ≠ binding.source.identity) then
      ⟨[], .error (.metadata "source identity conflicts with its durable cache binding")⟩
    else if isSha256 binding.pdfSha256 = false then ⟨[], .error (.state (valueError "PDF cache sha256 is invalid"))⟩
    else if binding.relativePath ≠ relativeObjectPath binding.pdfSha256 then
      ⟨[], .error (.metadata "durable PDF object path is not content-addressed")⟩
    else match validatedCacheObject P c binding.pdfSha256 with
      | .error (.invalidLeaf _) => ⟨[], .ok none⟩
      | .error e => ⟨[], .error e⟩
      | .ok cached =>
        if (cached.sizeBytes, cached.pageCount) ≠ (binding.revision.pdfSizeBytes, binding.revision.pageCount) then ⟨[], .ok none⟩
        else match markPdfCacheVerified c.tables sourceId binding.pdfSha256 now.utcIsoformat with
          | (false, _) => ⟨[], .ok none⟩
          | (true, tables) => ⟨[.commit tables], .ok (some (hit cached.path binding))⟩

structure PruneResult where
  scannedObjects : Nat
  protectedObjects : Nat
  deletedObjects : Nat
  deletedBytes : Nat
deriving DecidableEq

/-- The tree, directory by directory and name by name. -/
def listing (c : PDFCache) : List (Str × List (Node × Bytes)) :=
  (PyList.sortedBy id c.dirs).map fun dir => (dir, PyList.sortedBy (·.1.2) (c.nodes.filter (·.1.1 = dir)))

/-- The preflight of `prune` on one directory. -/
def scanDirectory (candidates : List (Node × Bytes)) (d : Str × List (Node × Bytes)) : Except Problem (List (Node × Bytes)) := do
  raiseIf (d.1.length ≠ 2 ∨ d.1.all isHexDigit = false) (.security "PDF cache object tree contains an unsafe prefix node")
  d.2.foldlM (fun candidates e => do
    raiseIf (isSha256 e.1.2 = false ∨ e.1.2.take 2 ≠ d.1 ∨ e.1.2 ∈ candidates.map (·.1.2))
      (.security "PDF cache object tree contains an unsafe object node")
    return candidates ++ [e]) candidates

def prune (c : PDFCache) (protectedSha256s : List Str) : Call PruneResult :=
  if protectedSha256s.any (isSha256 · = false) then
    ⟨[], .error (.state (valueError "protected PDF cache sha256 is invalid"))⟩
  else match (listing c).foldlM scanDirectory [] with
    | .error e => ⟨[], .error e⟩
    | .ok candidates =>
      let deleted := candidates.filter (·.1.2 ∉ protectedSha256s)
      ⟨deleted.map fun e => .unlink e.1, .ok {
        scannedObjects := candidates.length
        protectedObjects := candidates.length - deleted.length
        deletedObjects := deleted.length
        deletedBytes := (deleted.map (·.2.length)).sum }⟩

/-! ### Runs -/

inductive Op where
  | ingest (r : IngestRequest)
  | bind (b : Binding)
  | lookup (sourceId : Str) (identity : Option PDFSourceIdentity) (now : Clock)
  | prune (protectedSha256s : List Str)

def Op.effects (c : PDFCache) : Op → List Effect
  | .ingest r => (Pdf.ingest P c r).effects
  | .bind b => (Pdf.bind P c b).effects
  | .lookup sourceId identity now => (Pdf.lookup P c sourceId identity now).effects
  | .prune protectedSha256s => (Pdf.prune c protectedSha256s).effects

/-- A call, and after how many effects it is killed. -/
structure Event where
  op : Op
  killed : Option Nat

def step (c : PDFCache) (e : Event) : PDFCache :=
  c.perform (match e.killed with
    | none => e.op.effects P c
    | some n => (e.op.effects P c).take n)

structure Sound (c : PDFCache) : Prop where
  /-- A leaf holds the bytes of its digest. -/
  leaves : ∀ e ∈ c.nodes, isSha256 e.1.2 = true → e.1 = objectPath (P.sha256 e.2)
  /-- A bound source is a hit exactly where the leaf of its current digest is there. -/
  lookup : ∀ sourceId binding, c.tables.pdfCacheSourceBinding sourceId = .ok (some binding) →
    ∀ identity now, (∀ i, identity = some i → i = binding.source.identity) →
      (lookup P c sourceId identity now).result = .ok (if objectPath binding.pdfSha256 ∈ c.nodes.map (·.1) then
        some (hit (objectPath binding.pdfSha256) binding) else none)
  /-- The tree is safe for `prune`. -/
  prune : ∀ protectedSha256s message, (prune c protectedSha256s).result ≠ .error (.security message)

/-- The cache stays sound, and protected leaves stay. -/
structure Keeps (c : PDFCache) (e : Event) (c' : PDFCache) : Prop where
  sound : Sound P c'
  guarded : ∀ protectedSha256s, e.op = .prune protectedSha256s → ∀ digest ∈ protectedSha256s, ∀ body,
    PyList.get? c.nodes (objectPath digest) = some body → PyList.get? c'.nodes (objectPath digest) = some body

/-- No ingestion is killed between `mkstemp` and `os.replace`. -/
def Settles (c : PDFCache) (e : Event) : Prop :=
  ∀ r n, e.op = .ingest r → e.killed = some n → Stores P c r → n ≤ 1 ∨ r.blocks.length + 3 ≤ n

/-- The contents that are ingested. -/
def contents (events : List Event) : List Bytes := events.filterMap fun e =>
  match e.op with
  | .ingest r => some r.body
  | _ => none

end

/-! ### Files -/

section
variable {P : Library} {c : PDFCache} {S : List Bytes} {tables tables' : WorkerState} {body : Bytes} {digest : Str}
  {sizeBytes pageCount : Nat}

theorem validatePdf_eq_ok {expected : Option Str} (h : validatePdf P body expected = .ok (digest, sizeBytes, pageCount)) :
    digest = P.sha256 body ∧ sizeBytes = body.length ∧ P.pageCount body = some pageCount ∧
      validatePdf P body (some digest) = .ok (digest, sizeBytes, pageCount) := by
  unfold validatePdf at h ⊢
  simp only [Guard.bind_eq_ok, raiseIf_eq_ok, Guard.exists_unit] at h ⊢
  obtain ⟨hprotected, hzip, hpdf, -, h⟩ := h
  cases hpages : P.pageCount body with
  | none =>
    rw [hpages] at h
    cases h
  | some n =>
    rw [hpages] at h
    cases n with
    | zero => cases h
    | succ n =>
      cases h
      exact ⟨rfl, rfl, rfl, hprotected, hzip, hpdf, by simp, rfl⟩

theorem objectPath_injective : Function.Injective objectPath := fun _ _ h => (Prod.mk.inj h).2

theorem isSha256_temporaryName (n : Nat) : isSha256 (temporaryName n) = false := by
  have hall : (temporaryName n).all isHexDigit = false := rfl
  rw [isSha256, hall, Bool.and_false]

/-- Sizes and page counts of a digest are those of its content. -/
def Known (P : Library) (S : List Bytes) (digest : Str) (sizeBytes pageCount : Nat) : Prop :=
  ∃ body ∈ S, P.sha256 body = digest ∧ body.length = sizeBytes ∧ P.pageCount body = some pageCount

structure TablesOk (P : Library) (S : List Bytes) (tables : WorkerState) : Prop where
  objects : ∀ o ∈ tables.objects, o.relativePath = relativeObjectPath o.pdfSha256
  revisions : ∀ v ∈ tables.revisions, Known P S v.pdfSha256 v.pdfSizeBytes v.pageCount

theorem TablesOk.record (h : TablesOk P S tables) {r : RecordRequest} (hpath : r.relativePath = relativeObjectPath r.pdfSha256)
    (hok : tables.recordPdfCacheObject r = .ok tables') : TablesOk P S tables' := by
  simp only [WorkerState.recordPdfCacheObject, Guard.bind_eq_ok, raiseIf_eq_ok, Guard.exists_unit] at hok
  obtain ⟨-, -, -, timestamp, -, hok⟩ := hok
  split at hok
  · rw [Guard.pure_eq_ok] at hok
    subst hok
    refine ⟨fun o ho => ?_, h.revisions⟩
    rcases List.mem_append.1 ho with ho | ho
    · exact h.objects o ho
    · rw [List.mem_singleton.1 ho]
      exact hpath
  · simp only [Guard.bind_eq_ok, raiseIf_eq_ok, Guard.exists_unit, Guard.pure_eq_ok] at hok
    obtain ⟨-, rfl⟩ := hok
    refine ⟨fun o ho => ?_, h.revisions⟩
    obtain ⟨o', ho', rfl⟩ := List.mem_map.1 ho
    split <;> exact h.objects o' ho'

theorem bindRevision_known {revisions revisions' : List PDFCacheSourceRevision} {r : BindRequest} {observed verified : Str}
    {revisionId : Nat} (h : ∀ v ∈ revisions, Known P S v.pdfSha256 v.pdfSizeBytes v.pageCount)
    (hr : Known P S r.pdfSha256 r.pdfSizeBytes r.pageCount)
    (hok : WorkerState.bindRevision revisions r observed verified = .ok (revisionId, revisions')) :
    ∀ v ∈ revisions', Known P S v.pdfSha256 v.pdfSizeBytes v.pageCount := by
  unfold WorkerState.bindRevision at hok
  split at hok
  · cases hok
    intro v hv
    rcases List.mem_append.1 hv with hv | hv
    · exact h v hv
    · rw [List.mem_singleton.1 hv]
      exact hr
  · split at hok
    · simp only [Guard.bind_eq_ok, raiseIf_eq_ok, Guard.exists_unit, Guard.pure_eq_ok] at hok
      obtain ⟨-, hok⟩ := hok
      cases hok
      intro v hv
      obtain ⟨v', hv', rfl⟩ := List.mem_map.1 hv
      split <;> exact h v' hv'
    · cases hok
      intro v hv
      rcases List.mem_append.1 hv with hv | hv
      · obtain ⟨v', hv', rfl⟩ := List.mem_map.1 hv
        split <;> exact h v' hv'
      · rw [List.mem_singleton.1 hv]
        exact hr

theorem TablesOk.bind (h : TablesOk P S tables) {r : BindRequest} (hr : Known P S r.pdfSha256 r.pdfSizeBytes r.pageCount) :
    TablesOk P S ((Command.bind r).durable tables) := by
  have hdurable : (Command.bind r).durable tables = ((tables.bindTransaction r).toOption.map (·.2)).getD tables := rfl
  rw [hdurable]
  cases hok : tables.bindTransaction r with
  | error e => exact h
  | ok result =>
    obtain ⟨revisionId, bound⟩ := result
    simp only [WorkerState.bindTransaction, Guard.bind_eq_ok, Guard.exists_unit, Guard.pure_eq_ok] at hok
    obtain ⟨-, observed, -, verified, -, -, sources, -, ⟨revisionId', revisions⟩, hrevisions, hbound⟩ := hok
    obtain ⟨-, rfl⟩ := Prod.mk.inj hbound
    refine ⟨fun o ho => ?_, bindRevision_known h.revisions hr hrevisions⟩
    obtain ⟨o', ho', rfl⟩ := List.mem_map.1 ho
    split <;> exact h.objects o' ho'

theorem TablesOk.mark (h : TablesOk P S tables) (sourceId pdfSha256 timestamp : Str) :
    TablesOk P S (markPdfCacheVerified tables sourceId pdfSha256 timestamp).2 := by
  unfold markPdfCacheVerified
  split
  · exact h
  · refine ⟨fun o ho => ?_, fun v hv => ?_⟩
    · obtain ⟨o', ho', rfl⟩ := List.mem_map.1 ho
      split <;> exact h.objects o' ho'
    · obtain ⟨v', hv', rfl⟩ := List.mem_map.1 hv
      split <;> exact h.revisions v' hv'

/-! ### The invariant -/

structure Inv (P : Library) (S : List Bytes) (c : PDFCache) : Prop where
  dirs : ∀ dir ∈ c.dirs, dir.length = 2 ∧ dir.all isHexDigit = true
  dirsNodup : c.dirs.Nodup
  leaf : ∀ e ∈ c.nodes, e.1 = objectPath (P.sha256 e.2) ∧ e.2 ∈ S ∧
    ∃ pageCount, validatePdf P e.2 (some (P.sha256 e.2)) = .ok (P.sha256 e.2, e.2.length, pageCount)
  nodup : (c.nodes.map (·.1)).Nodup
  tables : TablesOk P S c.tables

theorem mem_keys {nodes : List (Node × Bytes)} {node : Node} :
    node ∈ nodes.map (·.1) ↔ ∃ body, PyList.get? nodes node = some body := by
  constructor
  · intro h
    rw [← Option.isSome_iff_exists, PyList.get?, Option.isSome_map, List.find?_isSome]
    obtain ⟨e, he, rfl⟩ := List.mem_map.1 h
    exact ⟨e, he, by simp⟩
  · rintro ⟨body, h⟩
    exact List.mem_map.2 ⟨_, PyList.mem_of_get? h, rfl⟩

/-- The leaf of a digest is valid where it is there. -/
theorem Inv.validated (h : Inv P S c) (hget : PyList.get? c.nodes (objectPath digest) = some body) :
    P.sha256 body = digest ∧ body ∈ S ∧ ∃ pageCount, P.pageCount body = some pageCount ∧
      validatedCacheObject P c digest = .ok ⟨objectPath digest, digest, body.length, pageCount⟩ := by
  obtain ⟨hpath, hS, pageCount, hvalid⟩ := h.leaf _ (PyList.mem_of_get? hget)
  have hdigest : P.sha256 body = digest := (objectPath_injective hpath).symm
  obtain ⟨-, -, hpages, -⟩ := validatePdf_eq_ok hvalid
  refine ⟨hdigest, hS, pageCount, hpages, ?_⟩
  have hsha : ¬ isSha256 digest = false := by rw [← hdigest, P.isSha256_sha256]; nofun
  unfold validatedCacheObject
  rw [if_neg hsha, hget]
  dsimp only at hvalid ⊢
  rw [← hdigest, hvalid]

theorem validated_absent (hsha : isSha256 digest = true) (h : objectPath digest ∉ c.nodes.map (·.1)) :
    validatedCacheObject P c digest = .error (.invalidLeaf "cache object failed PDF validation") := by
  have hget : PyList.get? c.nodes (objectPath digest) = none := by
    by_contra hne
    obtain ⟨body, hbody⟩ := Option.ne_none_iff_exists'.1 hne
    exact h (mem_keys.2 ⟨body, hbody⟩)
  unfold validatedCacheObject
  rw [if_neg (by rw [hsha]; nofun), hget]

/-! ### Soundness -/

theorem binding_mem {sourceId : Str} {binding : PDFSourceRevisionRow}
    (h : tables.pdfCacheSourceBinding sourceId = .ok (some binding)) :
    binding.revision ∈ tables.revisions ∧ binding.revision.supersededAt = none ∧ binding.revision.sourceId = sourceId ∧
      ∃ o ∈ tables.objects, o.pdfSha256 = binding.pdfSha256 ∧ binding.relativePath = o.relativePath := by
  simp only [WorkerState.pdfCacheSourceBinding, Guard.bind_eq_ok, raiseIf_eq_ok, Guard.exists_unit, Guard.pure_eq_ok] at h
  obtain ⟨-, h⟩ := h
  have hmem := (PyList.sortedBy_perm _ _).mem_iff.1 (List.mem_of_getLast? h)
  rw [List.mem_filter, List.mem_filterMap] at hmem
  obtain ⟨⟨v, hv, hjoin⟩, hsel⟩ := hmem
  simp only [Bool.decide_and, Bool.and_eq_true, decide_eq_true_eq] at hsel
  simp only [WorkerState.joinRevision, Option.bind_eq_bind, Option.bind_eq_some_iff, Option.some.injEq] at hjoin
  obtain ⟨source, hsource, o, ho, rfl⟩ := hjoin
  have hsid := List.find?_some hsource
  have hdigest := List.find?_some ho
  rw [decide_eq_true_eq] at hsid hdigest
  exact ⟨hv, hsel.2, hsid.symm.trans hsel.1, o, List.mem_of_find?_eq_some ho, hdigest, rfl⟩

theorem Inv.lookup (h : Inv P S c) (hinj : ∀ b ∈ S, ∀ b' ∈ S, P.sha256 b = P.sha256 b' → b = b') {sourceId : Str}
    {binding : PDFSourceRevisionRow} (hbound : c.tables.pdfCacheSourceBinding sourceId = .ok (some binding))
    {identity : Option PDFSourceIdentity} (now : Clock) (hid : ∀ i, identity = some i → i = binding.source.identity) :
    (Pdf.lookup P c sourceId identity now).result = .ok (if objectPath binding.pdfSha256 ∈ c.nodes.map (·.1) then
      some (hit (objectPath binding.pdfSha256) binding) else none) := by
  obtain ⟨hrev, hactive, hsource, o, ho, hdigest, hrelative⟩ := binding_mem hbound
  have hpath : binding.relativePath = relativeObjectPath binding.pdfSha256 := by
    rw [hrelative, h.tables.objects o ho, hdigest]
  have hidentity : ¬ identity.any (· ≠ binding.source.identity) = true := by
    cases identity with
    | none => nofun
    | some i => simp [hid i rfl]
  obtain ⟨body', hbody', hsha', hlength, hpages'⟩ := h.tables.revisions _ hrev
  have hdigest' : isSha256 binding.pdfSha256 = true := (congrArg isSha256 hsha').symm.trans (P.isSha256_sha256 body')
  unfold Pdf.lookup
  rw [hbound]
  dsimp only
  rw [if_neg hidentity, if_neg (by rw [hdigest']; nofun), if_neg (not_not.2 hpath)]
  split_ifs with hin
  · obtain ⟨body, hget⟩ := mem_keys.1 hin
    obtain ⟨hsha, hbody, pageCount, hpages, hvalid⟩ := h.validated hget
    obtain rfl := hinj body hbody body' hbody' (hsha.trans hsha'.symm)
    rw [hpages, Option.some.injEq] at hpages'
    rw [hvalid]
    dsimp only
    rw [if_neg (by rw [hlength, hpages']; exact not_not.2 rfl)]
    have hfound : (c.tables.revisions.find? fun v =>
        v.sourceId = sourceId ∧ v.pdfSha256 = binding.pdfSha256 ∧ v.supersededAt = none).isSome := by
      rw [List.find?_isSome]
      exact ⟨binding.revision, hrev, decide_eq_true ⟨hsource, rfl, hactive⟩⟩
    obtain ⟨revision, hfind⟩ := Option.isSome_iff_exists.1 hfound
    unfold markPdfCacheVerified
    rw [hfind]
  · rw [@validated_absent P c _ hdigest' hin]

/-- The preflight passes, and it passes on leaves only. -/
theorem scanDirectory_ok {candidates leaves : List (Node × Bytes)} {dir : Str} (hdir : dir.length = 2 ∧ dir.all isHexDigit = true)
    (hleaves : ∀ e ∈ leaves, isSha256 e.1.2 = true ∧ e.1.2.take 2 = dir)
    (hnd : ((candidates ++ leaves).map (·.1.2)).Nodup) : scanDirectory candidates (dir, leaves) = .ok (candidates ++ leaves) := by
  have hprefix : ¬ (dir.length ≠ 2 ∨ dir.all isHexDigit = false) := by simp [hdir.1, hdir.2]
  unfold scanDirectory
  simp only [raiseIf, if_neg hprefix, Guard.ok_bind]
  induction leaves generalizing candidates with
  | nil => rw [List.append_nil]; rfl
  | cons e leaves ih =>
    obtain ⟨hsha, htake⟩ := hleaves e List.mem_cons_self
    have hnew : e.1.2 ∉ candidates.map (·.1.2) := by
      rw [List.map_append, List.map_cons, List.nodup_append] at hnd
      exact fun hin => hnd.2.2 _ hin _ List.mem_cons_self rfl
    have hcheck : ¬ (isSha256 e.1.2 = false ∨ e.1.2.take 2 ≠ dir ∨ e.1.2 ∈ candidates.map (·.1.2)) := by
      simp only [hsha, htake, hnew, Bool.true_eq_false, ne_eq, not_true_eq_false, or_self, not_false_eq_true]
    rw [List.foldlM_cons, if_neg hcheck, Guard.ok_bind]
    have happend : candidates ++ e :: leaves = (candidates ++ [e]) ++ leaves := by simp
    rw [happend] at hnd ⊢
    exact ih (fun e' he' => hleaves e' (List.mem_cons_of_mem _ he')) hnd

theorem scan_all {candidates : List (Node × Bytes)} {ds : List (Str × List (Node × Bytes))}
    (hdirs : ∀ d ∈ ds, d.1.length = 2 ∧ d.1.all isHexDigit = true)
    (hleaves : ∀ d ∈ ds, ∀ e ∈ d.2, isSha256 e.1.2 = true ∧ e.1.2.take 2 = d.1)
    (hnd : ((candidates ++ ds.flatMap (·.2)).map (·.1.2)).Nodup) :
    ds.foldlM scanDirectory candidates = .ok (candidates ++ ds.flatMap (·.2)) := by
  induction ds generalizing candidates with
  | nil => rw [List.flatMap_nil, List.append_nil]; rfl
  | cons d ds ih =>
    rw [List.flatMap_cons, ← List.append_assoc] at hnd ⊢
    have hfirst : ((candidates ++ d.2).map (·.1.2)).Nodup := by
      rw [List.map_append] at hnd
      exact (List.nodup_append.1 hnd).1
    have hd := scanDirectory_ok (hdirs d List.mem_cons_self) (hleaves d List.mem_cons_self) hfirst
    rw [List.foldlM_cons, show scanDirectory candidates d = .ok (candidates ++ d.2) from hd, Guard.ok_bind]
    exact ih (fun d' hd' => hdirs d' (List.mem_cons_of_mem _ hd')) (fun d' hd' => hleaves d' (List.mem_cons_of_mem _ hd')) hnd

theorem mem_listing {d : Str × List (Node × Bytes)} : d ∈ listing c ↔
    d.1 ∈ c.dirs ∧ d.2 = PyList.sortedBy (·.1.2) (c.nodes.filter (·.1.1 = d.1)) := by
  unfold listing
  rw [List.mem_map]
  constructor
  · rintro ⟨dir, hdir, rfl⟩
    exact ⟨(PyList.sortedBy_perm _ _).mem_iff.1 hdir, rfl⟩
  · rintro ⟨hdir, hleaves⟩
    exact ⟨d.1, (PyList.sortedBy_perm _ _).mem_iff.2 hdir, Prod.ext rfl hleaves.symm⟩

theorem mem_leaves {dir : Str} {e : Node × Bytes} :
    e ∈ PyList.sortedBy (·.1.2) (c.nodes.filter (·.1.1 = dir)) ↔ e ∈ c.nodes ∧ e.1.1 = dir := by
  rw [(PyList.sortedBy_perm _ _).mem_iff, List.mem_filter, decide_eq_true_eq]

theorem Inv.name (h : Inv P S c) {e : Node × Bytes} (he : e ∈ c.nodes) : isSha256 e.1.2 = true ∧ e.1.2.take 2 = e.1.1 := by
  obtain ⟨hpath, -⟩ := h.leaf e he
  rw [hpath]
  exact ⟨P.isSha256_sha256 _, rfl⟩

theorem Inv.names_nodup (h : Inv P S c) : (c.nodes.map (·.1.2)).Nodup := by
  have hpaths : (c.nodes.map (·.1.2)).map objectPath = c.nodes.map (·.1) := by
    rw [List.map_map]
    refine List.map_congr_left fun e he => ?_
    obtain ⟨-, htake⟩ := h.name he
    exact Prod.ext htake rfl
  exact List.Nodup.of_map objectPath (hpaths ▸ h.nodup)

/-- The preflight finds all leaves. -/
theorem Inv.scan (h : Inv P S c) : (listing c).foldlM scanDirectory [] = .ok ((listing c).flatMap (·.2)) := by
  refine scan_all (fun d hd => h.dirs d.1 (mem_listing.1 hd).1) (fun d hd e he => ?_) ?_
  · rw [(mem_listing.1 hd).2, mem_leaves] at he
    exact ⟨(h.name he.1).1, (h.name he.1).2.trans he.2⟩
  · rw [List.nil_append, List.map_flatMap, List.nodup_flatMap]
    refine ⟨fun d hd => ?_, ?_⟩
    · rw [(mem_listing.1 hd).2]
      exact ((PyList.sortedBy_perm _ _).map _).nodup_iff.2 (h.names_nodup.sublist (List.filter_sublist.map _))
    · have hsorted : (PyList.sortedBy id c.dirs).Nodup := (PyList.sortedBy_perm _ _).nodup_iff.2 h.dirsNodup
      unfold listing
      rw [List.pairwise_map]
      refine hsorted.imp fun {dir dir'} hne => ?_
      intro name hname hname'
      obtain ⟨e, he, rfl⟩ := List.mem_map.1 hname
      obtain ⟨e', he', heq⟩ := List.mem_map.1 hname'
      rw [mem_leaves] at he he'
      refine hne ?_
      rw [← he.2, ← he'.2, ← (h.name he.1).2, ← (h.name he'.1).2, heq]

theorem Inv.prune (h : Inv P S c) (protectedSha256s : List Str) (message : String) :
    (Pdf.prune c protectedSha256s).result ≠ .error (.security message) := by
  unfold Pdf.prune
  split
  · rintro ⟨⟩
  · rw [h.scan]
    rintro ⟨⟩

theorem Inv.sound (h : Inv P S c) (hinj : ∀ b ∈ S, ∀ b' ∈ S, P.sha256 b = P.sha256 b' → b = b') : Sound P c where
  leaves := fun e he _ => (h.leaf e he).1
  lookup := fun _ _ hbound _ now hid => h.lookup hinj hbound now hid
  prune := h.prune

/-! ### Effects that keep the invariant -/

theorem Inv.commit (h : Inv P S c) (ht : TablesOk P S tables) : Inv P S { c with tables } :=
  ⟨h.dirs, h.dirsNodup, h.leaf, h.nodup, ht⟩

theorem Inv.mkdir (h : Inv P S c) (body : Bytes) : Inv P S (Effect.apply c (.mkdir ((P.sha256 body).take 2))) := by
  have hsha := P.isSha256_sha256 body
  simp only [isSha256, Bool.and_eq_true, beq_iff_eq, List.all_eq_true] at hsha
  by_cases hin : (P.sha256 body).take 2 ∈ c.dirs
  · rw [Effect.apply, if_pos hin]
    exact h
  · rw [Effect.apply, if_neg hin]
    refine ⟨fun dir hdir => ?_, ?_, h.leaf, h.nodup, h.tables⟩
    · rcases List.mem_append.1 hdir with hdir | hdir
      · exact h.dirs dir hdir
      · rw [List.mem_singleton.1 hdir]
        refine ⟨by rw [List.length_take, hsha.1]; rfl, List.all_eq_true.2 fun x hx => hsha.2 x (List.mem_of_mem_take hx)⟩
    · rw [List.nodup_append]
      refine ⟨h.dirsNodup, List.nodup_singleton _, fun a ha b hb hab => ?_⟩
      rw [List.mem_singleton.1 hb] at hab
      exact hin (hab ▸ ha)

theorem Inv.filter (h : Inv P S c) (p : Node × Bytes → Bool) : Inv P S { c with nodes := c.nodes.filter p } :=
  ⟨h.dirs, h.dirsNodup, fun e he => h.leaf e (List.mem_of_mem_filter he), h.nodup.sublist (List.filter_sublist.map _), h.tables⟩

/-- A new leaf. -/
theorem Inv.store (h : Inv P S c) {made : Nat} (hout : objectPath (P.sha256 body) ∉ c.nodes.map (·.1)) (hS : body ∈ S)
    (hvalid : validatePdf P body (some (P.sha256 body)) = .ok (P.sha256 body, body.length, pageCount)) :
    Inv P S { c with nodes := c.nodes ++ [(objectPath (P.sha256 body), body)], made } := by
  refine ⟨h.dirs, h.dirsNodup, fun e he => ?_, ?_, h.tables⟩
  · rcases List.mem_append.1 he with he | he
    · exact h.leaf e he
    · rw [List.mem_singleton.1 he]
      exact ⟨rfl, hS, pageCount, hvalid⟩
  · rw [List.map_append, List.nodup_append]
    refine ⟨h.nodup, List.nodup_singleton _, fun a ha b hb hab => ?_⟩
    rw [List.map_singleton, List.mem_singleton] at hb
    rw [hab, hb] at ha
    exact hout ha

/-- The unlinked nodes are gone. -/
theorem perform_unlinks (nodes : List Node) (c : PDFCache) :
    c.perform (nodes.map .unlink) = { c with nodes := c.nodes.filter (·.1 ∉ nodes) } := by
  unfold PDFCache.perform
  induction nodes generalizing c with
  | nil => simp
  | cons node nodes ih =>
    rw [List.map_cons, List.foldl_cons, ih]
    simp only [Effect.apply, List.filter_filter]
    congr 1
    refine List.filter_congr fun e _ => ?_
    rw [Bool.eq_iff_iff]
    simp [and_comm]

theorem perform_append (c : PDFCache) (done rest : List Effect) : c.perform (done ++ rest) = (c.perform done).perform rest :=
  List.foldl_append

/-! ### Ingestion, effect by effect -/

theorem Inv.temporary (h : Inv P S c) (dir : Str) (n : Nat) : (dir, temporaryName n) ∉ c.nodes.map (·.1) := by
  intro hin
  obtain ⟨e, he, heq⟩ := List.mem_map.1 hin
  have hsha := (h.name he).1
  rw [heq, isSha256_temporaryName] at hsha
  cases hsha

theorem perform_writes {node : Node} (blocks : List Bytes) (body : Bytes) (hout : node ∉ c.nodes.map (·.1)) {made : Nat} :
    PDFCache.perform { c with nodes := c.nodes ++ [(node, body)], made } (blocks.map (.write node)) =
      { c with nodes := c.nodes ++ [(node, body ++ blocks.flatten)], made } := by
  unfold PDFCache.perform
  induction blocks generalizing body with
  | nil => simp
  | cons block blocks ih =>
    have hothers : c.nodes.map (fun e => if e.1 = node then (e.1, e.2 ++ block) else e) = c.nodes :=
      (List.map_congr_left fun e he => if_neg fun heq => hout (List.mem_map.2 ⟨e, he, heq⟩)).trans (List.map_id _)
    rw [List.map_cons, List.foldl_cons, List.flatten_cons, ← List.append_assoc, ← ih (body ++ block)]
    simp only [Effect.apply, List.map_append, hothers, List.map_cons, List.map_nil, if_true]

/-- The temporary holds what was copied so far. -/
theorem Inv.copied (h : Inv P S c) (r : IngestRequest) (digest : Str) :
    c.perform (copy c r digest) =
      { Effect.apply c (.mkdir (digest.take 2)) with
        nodes := c.nodes ++ [((digest.take 2, temporaryName c.made), r.body)]
        made := c.made + 1 } :=
  @perform_writes (Effect.apply c (.mkdir (digest.take 2))) _ r.blocks [] (h.temporary _ _) (c.made + 1)

/-- After `os.replace` the leaf is there, and nothing is left to unlink. -/
theorem Inv.replaced (h : Inv P S c) (r : IngestRequest) (hsha : isSha256 digest = true)
    (hout : objectPath digest ∉ c.nodes.map (·.1)) (drop : Bool) :
    c.perform (copy c r digest ++ .replace (digest.take 2, temporaryName c.made) (objectPath digest) ::
        if drop then [.unlink (digest.take 2, temporaryName c.made)] else []) =
      { Effect.apply c (.mkdir (digest.take 2)) with
        nodes := c.nodes ++ [(objectPath digest, r.body)]
        made := c.made + 1 } := by
  have hne : (digest.take 2, temporaryName c.made) ≠ objectPath digest := by
    intro heq
    rw [← (Prod.mk.inj heq).2, isSha256_temporaryName] at hsha
    cases hsha
  have hleaves : c.nodes.filter (·.1 ≠ objectPath digest) = c.nodes :=
    List.filter_eq_self.2 fun e he => decide_eq_true fun heq => hout (List.mem_map.2 ⟨e, he, heq⟩)
  have hothers : c.nodes.map (fun e => if e.1 = (digest.take 2, temporaryName c.made) then (objectPath digest, e.2) else e) =
      c.nodes :=
    (List.map_congr_left fun e he => if_neg fun heq => h.temporary _ _ (List.mem_map.2 ⟨e, he, heq⟩)).trans (List.map_id _)
  have hgone : c.nodes.filter (·.1 ≠ (digest.take 2, temporaryName c.made)) = c.nodes :=
    List.filter_eq_self.2 fun e he => decide_eq_true fun heq => h.temporary _ _ (List.mem_map.2 ⟨e, he, heq⟩)
  have hreplace : c.perform (copy c r digest ++ [.replace (digest.take 2, temporaryName c.made) (objectPath digest)]) =
      { Effect.apply c (.mkdir (digest.take 2)) with
        nodes := c.nodes ++ [(objectPath digest, r.body)]
        made := c.made + 1 } := by
    rw [perform_append, h.copied]
    simp only [PDFCache.perform, List.foldl_cons, List.foldl_nil, Effect.apply, List.filter_append, hleaves, List.map_append,
      hothers]
    simp [hne]
  cases drop with
  | false => exact hreplace
  | true =>
    rw [if_pos rfl, List.append_cons, perform_append, hreplace]
    simp only [PDFCache.perform, List.foldl_cons, List.foldl_nil, Effect.apply, List.filter_append, hgone]
    simp [hne.symm]

/-- The effects that keep the invariant wherever they are. -/
inductive Safe (P : Library) (S : List Bytes) : Effect → Prop where
  | mkdir (body : Bytes) : Safe P S (.mkdir ((P.sha256 body).take 2))
  | unlink (node : Node) : Safe P S (.unlink node)
  | commit {tables : WorkerState} (h : TablesOk P S tables) : Safe P S (.commit tables)

theorem Inv.perform {effects : List Effect} (h : Inv P S c) (hsafe : ∀ e ∈ effects, Safe P S e) :
    Inv P S (c.perform effects) := by
  unfold PDFCache.perform
  induction effects generalizing c with
  | nil => exact h
  | cons e effects ih =>
    refine ih ?_ fun e' he' => hsafe e' (List.mem_cons_of_mem _ he')
    cases hsafe e List.mem_cons_self with
    | mkdir body => exact h.mkdir body
    | unlink node => exact h.filter _
    | commit ht => exact h.commit ht

theorem TablesOk.recordThen {β : Type} (h : TablesOk P S tables) (done : List Effect) (digest : Str) (sizeBytes pageCount : Nat)
    (verifiedAt : Moment) (value : β) :
    ∃ commits, (recordThen tables done digest sizeBytes pageCount verifiedAt value).effects = done ++ commits ∧
      ∀ e ∈ commits, Safe P S e := by
  unfold Pdf.recordThen
  split
  · exact ⟨[], (List.append_nil _).symm, nofun⟩
  · rename_i hok
    refine ⟨_, rfl, fun e he => ?_⟩
    rw [List.mem_singleton.1 he]
    exact .commit (h.record rfl hok)

theorem checkSource_eq_ok {r : IngestRequest} (h : checkSource P r = .ok (digest, sizeBytes, pageCount)) :
    digest = P.sha256 r.body ∧ sizeBytes = r.body.length ∧ P.pageCount r.body = some pageCount ∧
      validatePdf P r.body (some digest) = .ok (digest, sizeBytes, pageCount) := by
  simp only [checkSource, Guard.bind_eq_ok, raiseIf_eq_ok, Guard.exists_unit, Guard.pure_eq_ok] at h
  obtain ⟨⟨_, _, _⟩, hvalid, -, -, heq⟩ := h
  cases heq
  exact validatePdf_eq_ok hvalid

/-- An ingestion that stores no leaf makes no temporary. -/
theorem Inv.ingest_safe (h : Inv P S c) {r : IngestRequest} (hno : ¬ Stores P c r) :
    ∀ e ∈ (ingest P c r).effects, Safe P S e := by
  unfold ingest
  cases hchecked : checkSource P r with
  | error e => nofun
  | ok checked =>
    obtain ⟨digest, sizeBytes, pageCount⟩ := checked
    obtain ⟨rfl, -⟩ := checkSource_eq_ok hchecked
    dsimp only
    cases hvalid : validatedCacheObject P c (P.sha256 r.body) with
    | error e => exact absurd ⟨_, _, _, hchecked, by rw [hvalid]; rfl⟩ hno
    | ok current =>
      dsimp only
      obtain ⟨commits, heq, hsafe⟩ := h.tables.recordThen [.mkdir ((P.sha256 r.body).take 2)] (P.sha256 r.body) sizeBytes
        pageCount (.aware r.now) current
      rw [heq]
      intro e he
      rcases List.mem_append.1 he with he | he
      · rw [List.mem_singleton.1 he]
        exact .mkdir _
      · exact hsafe e he

theorem Inv.notMem_of_isOk (h : Inv P S c) (hno : (validatedCacheObject P c digest).isOk = false) :
    objectPath digest ∉ c.nodes.map (·.1) := by
  intro hin
  obtain ⟨body, hget⟩ := mem_keys.1 hin
  obtain ⟨-, -, pageCount, -, hvalid⟩ := h.validated hget
  rw [hvalid] at hno
  cases hno

/-- An ingestion that stores a leaf: the copy, the renaming, and what follows. -/
theorem Inv.ingest_stores (h : Inv P S c) {r : IngestRequest} (hS : r.body ∈ S)
    (hchecked : checkSource P r = .ok (digest, sizeBytes, pageCount)) (hno : (validatedCacheObject P c digest).isOk = false) :
    ∃ rest, (ingest P c r).effects =
        copy c r digest ++ [.replace (digest.take 2, temporaryName c.made) (objectPath digest)] ++ rest ∧
      (∀ e ∈ rest, Safe P S e) ∧
      Inv P S (c.perform (copy c r digest ++ [.replace (digest.take 2, temporaryName c.made) (objectPath digest)])) := by
  obtain ⟨hdigest, hsize, hpages, hvalid⟩ := checkSource_eq_ok hchecked
  have hsha : isSha256 digest = true := by rw [hdigest, P.isSha256_sha256]
  have hout := h.notMem_of_isOk hno
  have hinv : Inv P S { Effect.apply c (.mkdir (digest.take 2)) with
      nodes := c.nodes ++ [(objectPath digest, r.body)]
      made := c.made + 1 } := by
    subst hdigest hsize
    exact (h.mkdir r.body).store hout hS hvalid
  have hget : PyList.get? (c.nodes ++ [(objectPath digest, r.body)]) (objectPath digest) = some r.body := by
    rw [← PyList.insert_of_notMem hout, PyList.get?_insert, if_pos rfl]
  obtain ⟨-, -, pages, hpages', hwinner⟩ := hinv.validated hget
  obtain rfl := Option.some.inj (hpages.symm.trans hpages')
  rw [← h.replaced r hsha hout true] at hwinner
  have hcopied : PyList.get? (c.perform (copy c r digest)).nodes (digest.take 2, temporaryName c.made) = some r.body := by
    rw [h.copied]
    dsimp only
    rw [← PyList.insert_of_notMem (h.temporary _ _), PyList.get?_insert, if_pos rfl]
  have hloser : validatedCacheObject P (c.perform (copy c r digest)) digest =
      .error (.invalidLeaf "cache object failed PDF validation") := by
    refine validated_absent hsha ?_
    rw [h.copied, List.map_append, List.mem_append]
    rintro (hin | hin)
    · exact hout hin
    · have htemporary := (Prod.mk.inj (List.mem_singleton.1 hin)).2
      rw [htemporary, isSha256_temporaryName] at hsha
      cases hsha
  have heffects : (ingest P c r).effects = (recordThen c.tables (copy c r digest ++
      [.replace (digest.take 2, temporaryName c.made) (objectPath digest), .unlink (digest.take 2, temporaryName c.made)])
      digest sizeBytes pageCount (.aware r.now) (⟨objectPath digest, digest, r.body.length, pageCount⟩ : CachedPDFObject)).effects := by
    unfold ingest
    rw [hchecked]
    dsimp only
    cases hcase : validatedCacheObject P c digest with
    | ok current =>
      rw [hcase] at hno
      cases hno
    | error e =>
      dsimp only
      rw [hcopied, Option.getD_some, hvalid]
      dsimp only
      rw [if_neg (not_not.2 rfl), hloser]
      dsimp only
      rw [show validatedCacheObject P (c.perform (copy c r digest ++ [.replace (digest.take 2, temporaryName c.made)
        (objectPath digest), .unlink (digest.take 2, temporaryName c.made)])) digest = _ from hwinner]
      dsimp only
      rw [if_neg (by rw [hsize]; exact not_not.2 rfl)]
  obtain ⟨commits, heq, hsafe⟩ := h.tables.recordThen (copy c r digest ++ [.replace (digest.take 2, temporaryName c.made)
      (objectPath digest), .unlink (digest.take 2, temporaryName c.made)]) digest sizeBytes pageCount (.aware r.now)
      (⟨objectPath digest, digest, r.body.length, pageCount⟩ : CachedPDFObject)
  refine ⟨.unlink (digest.take 2, temporaryName c.made) :: commits, ?_, fun e he => ?_, ?_⟩
  · rw [heffects, heq, List.append_assoc, List.append_assoc]
    rfl
  · rcases List.mem_cons.1 he with rfl | he
    · exact .unlink _
    · exact hsafe e he
  · rw [show c.perform (copy c r digest ++ [.replace (digest.take 2, temporaryName c.made) (objectPath digest)]) = _ from
      h.replaced r hsha hout false]
    exact hinv

theorem length_copy (c : PDFCache) (r : IngestRequest) (digest : Str) : (copy c r digest).length = r.blocks.length + 2 := by
  simp [copy]

/-- An ingestion that is not killed between `mkstemp` and `os.replace`. -/
theorem Inv.ingest (h : Inv P S c) {r : IngestRequest} (hS : r.body ∈ S) {n : Nat}
    (hn : Stores P c r → n ≤ 1 ∨ r.blocks.length + 3 ≤ n) : Inv P S (c.perform ((Pdf.ingest P c r).effects.take n)) := by
  by_cases hstores : Stores P c r
  · obtain ⟨digest, sizeBytes, pageCount, hchecked, hno⟩ := hstores
    obtain ⟨rest, heffects, hsafe, hinv⟩ := h.ingest_stores hS hchecked hno
    obtain ⟨hdigest, -⟩ := checkSource_eq_ok hchecked
    rw [heffects]
    rcases hn ⟨digest, sizeBytes, pageCount, hchecked, hno⟩ with hn | hn
    · refine h.perform fun e he => ?_
      have hfirst : e ∈ [Effect.mkdir (digest.take 2)] := by
        rw [copy, List.cons_append, List.cons_append] at he
        have hone := (List.take_prefix_take_left hn).subset he
        exact hone
      rw [List.mem_singleton.1 hfirst, hdigest]
      exact .mkdir _
    · rw [List.take_append, List.take_of_length_le (by rw [List.length_append, length_copy]; exact hn), perform_append]
      exact hinv.perform fun e he => hsafe e (List.mem_of_mem_take he)
  · exact h.perform fun e he => h.ingest_safe hstores e (List.mem_of_mem_take he)

/-! ### The other calls, effect by effect -/

theorem Inv.known (h : Inv P S c) {validated : CachedPDFObject} (hok : validatedCacheObject P c digest = .ok validated) :
    Known P S validated.sha256 validated.sizeBytes validated.pageCount := by
  unfold validatedCacheObject at hok
  split_ifs at hok
  split at hok
  · cases hok
  · rename_i body hget
    split at hok
    · cases hok
    · rename_i hvalid
      obtain ⟨hsha, hsize, hpages, -⟩ := validatePdf_eq_ok hvalid
      cases hok
      exact ⟨body, (h.leaf _ (PyList.mem_of_get? hget)).2.1, hsha.symm, hsize.symm, hpages⟩

theorem Inv.bind_safe (h : Inv P S c) (b : Binding) : ∀ e ∈ (Pdf.bind P c b).effects, Safe P S e := by
  unfold Pdf.bind
  split
  · nofun
  · rename_i validated hvalidated
    split_ifs
    · nofun
    · split
      · nofun
      · rename_i recorded hrecorded
        have hrec : TablesOk P S recorded := h.tables.record rfl hrecorded
        have hsafe : ∀ e ∈ [Effect.commit recorded, .commit ((Command.bind (b.request validated)).durable recorded)],
            Safe P S e := by
          intro e he
          simp only [List.mem_cons, List.not_mem_nil, or_false] at he
          rcases he with rfl | rfl
          · exact .commit hrec
          · exact .commit (hrec.bind (h.known hvalidated))
        split <;> exact hsafe

theorem Inv.lookup_safe (h : Inv P S c) (sourceId : Str) (identity : Option PDFSourceIdentity) (now : Clock) :
    ∀ e ∈ (Pdf.lookup P c sourceId identity now).effects, Safe P S e := by
  unfold Pdf.lookup
  split
  · nofun
  · nofun
  · rename_i binding _
    split_ifs
    · nofun
    · nofun
    · nofun
    · split
      · nofun
      · nofun
      · split_ifs
        · nofun
        · have hmark := h.tables.mark sourceId binding.pdfSha256 now.utcIsoformat
          split
          · nofun
          · rename_i hmarked
            rw [hmarked] at hmark
            intro e he
            rw [List.mem_singleton.1 he]
            exact .commit hmark

/-- `prune` unlinks nodes that are not protected, and does nothing else. -/
theorem prune_effects (c : PDFCache) (protectedSha256s : List Str) :
    ∃ nodes : List Node, (Pdf.prune c protectedSha256s).effects = nodes.map .unlink ∧
      ∀ node ∈ nodes, node.2 ∉ protectedSha256s := by
  unfold Pdf.prune
  split
  · exact ⟨[], rfl, nofun⟩
  · split
    · exact ⟨[], rfl, nofun⟩
    · rename_i candidates _
      refine ⟨(candidates.filter (·.1.2 ∉ protectedSha256s)).map (·.1), (List.map_map).symm, fun node hnode => ?_⟩
      obtain ⟨e, he, rfl⟩ := List.mem_map.1 hnode
      exact of_decide_eq_true (List.mem_filter.1 he).2

theorem prune_guarded {protectedSha256s : List Str} (hdigest : digest ∈ protectedSha256s) (n : Nat) :
    PyList.get? (c.perform ((Pdf.prune c protectedSha256s).effects.take n)).nodes (objectPath digest) =
      PyList.get? c.nodes (objectPath digest) := by
  obtain ⟨nodes, heq, hnodes⟩ := prune_effects c protectedSha256s
  have hout : objectPath digest ∉ nodes.take n := fun hin => hnodes _ (List.mem_of_mem_take hin) hdigest
  rw [heq, ← List.map_take, perform_unlinks]
  dsimp only
  rw [PyList.get?_filter (fun node => decide (node ∉ nodes.take n)), if_pos (decide_eq_true hout)]

/-! ### Steps and runs -/

/-- A call does the first of its effects: so many as it was killed after, or any number from `m` on. -/
theorem step_take (P : Library) (c : PDFCache) (e : Event) (m : Nat) :
    ∃ n, step P c e = c.perform ((e.op.effects P c).take n) ∧ (e.killed = some n ∨ m ≤ n) := by
  unfold step
  cases e.killed with
  | none => exact ⟨max (e.op.effects P c).length m, by rw [List.take_of_length_le (le_max_left _ _)], .inr (le_max_right _ _)⟩
  | some n => exact ⟨n, rfl, .inl rfl⟩

theorem Inv.step (h : Inv P S c) {e : Event} (hS : ∀ r, e.op = .ingest r → r.body ∈ S) (hsettles : Settles P c e) :
    Inv P S (Pdf.step P c e) := by
  cases hop : e.op with
  | ingest r =>
    obtain ⟨n, heq, hn⟩ := step_take P c e (r.blocks.length + 3)
    rw [heq, hop]
    refine h.ingest (hS r hop) fun hstores => ?_
    rcases hn with hn | hn
    · exact hsettles r n hop hn hstores
    · exact .inr hn
  | bind b =>
    obtain ⟨n, heq, -⟩ := step_take P c e 0
    rw [heq, hop]
    exact h.perform fun e he => h.bind_safe b e (List.mem_of_mem_take he)
  | lookup sourceId identity now =>
    obtain ⟨n, heq, -⟩ := step_take P c e 0
    rw [heq, hop]
    exact h.perform fun e he => h.lookup_safe sourceId identity now e (List.mem_of_mem_take he)
  | prune protectedSha256s =>
    obtain ⟨n, heq, -⟩ := step_take P c e 0
    obtain ⟨nodes, hnodes, -⟩ := prune_effects c protectedSha256s
    rw [heq, hop]
    refine h.perform fun e he => ?_
    have he' : e ∈ nodes.map .unlink := hnodes ▸ List.mem_of_mem_take he
    obtain ⟨node, -, rfl⟩ := List.mem_map.1 he'
    exact .unlink node

theorem step_guarded (P : Library) (c : PDFCache) {e : Event} {protectedSha256s : List Str} (hop : e.op = .prune protectedSha256s)
    (hdigest : digest ∈ protectedSha256s) :
    PyList.get? (step P c e).nodes (objectPath digest) = PyList.get? c.nodes (objectPath digest) := by
  obtain ⟨n, heq, -⟩ := step_take P c e 0
  rw [heq, hop]
  exact prune_guarded hdigest n

/-- One node that is no leaf is an error of every preflight. -/
theorem leftover_raises {dir name : Str} (hdir : dir ∈ c.dirs) (hnode : ((dir, name), body) ∈ c.nodes)
    (hname : isSha256 name = false) : ∃ message, (Pdf.prune c []).result = .error (.security message) := by
  unfold Pdf.prune
  rw [if_neg (by nofun)]
  cases hscan : (listing c).foldlM scanDirectory [] with
  | error e =>
    have hraises : Guard.Raises (fun e => ∃ message, e = Problem.security message) ((listing c).foldlM scanDirectory []) := by
      refine Guard.raises_foldlM (fun candidates d => ?_) []
      refine (Guard.raises_raiseIf ⟨_, rfl⟩).bind fun _ => Guard.raises_foldlM (fun candidates e => ?_) _
      exact (Guard.raises_raiseIf ⟨_, rfl⟩).bind fun _ => Guard.raises_pure _
    obtain ⟨message, rfl⟩ := hraises e hscan
    exact ⟨message, rfl⟩
  | ok candidates =>
    have hlisted : (dir, PyList.sortedBy (·.1.2) (c.nodes.filter (·.1.1 = dir))) ∈ listing c := mem_listing.2 ⟨hdir, rfl⟩
    obtain ⟨candidates₁, candidates₂, hd⟩ := Guard.foldlM_mem hscan hlisted
    simp only [scanDirectory, Guard.bind_eq_ok, raiseIf_eq_ok, Guard.exists_unit] at hd
    obtain ⟨-, hd⟩ := hd
    obtain ⟨candidates₃, candidates₄, he⟩ := Guard.foldlM_mem hd (mem_leaves.2 ⟨hnode, rfl⟩)
    simp only [Guard.bind_eq_ok, raiseIf_eq_ok, Guard.exists_unit, hname, true_or, not_true, false_and] at he

/-- An ingestion killed between `mkstemp` and `os.replace` leaves its temporary, and with it `prune` does nothing any more. -/
theorem Inv.settles (h : Inv P S c) {e : Event} (hsound : Sound P (Pdf.step P c e)) (hS : ∀ r, e.op = .ingest r → r.body ∈ S) :
    Settles P c e := by
  intro r n hop hkilled hstores
  by_contra hn
  obtain ⟨m, rfl⟩ : ∃ m, n = m + 2 := ⟨n - 2, by omega⟩
  obtain ⟨digest, sizeBytes, pageCount, hchecked, hno⟩ := hstores
  obtain ⟨rest, heffects, -, -⟩ := h.ingest_stores (hS r hop) hchecked hno
  have hstep : Pdf.step P c e = c.perform (copy c { r with blocks := r.blocks.take m } digest) := by
    unfold Pdf.step
    rw [hkilled, hop]
    dsimp only [Op.effects]
    rw [heffects, List.append_assoc, List.take_append_of_le_length (by rw [length_copy]; omega)]
    simp only [copy, List.take_succ_cons, List.map_take]
  have hdir : digest.take 2 ∈ (Effect.apply c (.mkdir (digest.take 2))).dirs := by
    rw [Effect.apply]
    by_cases hin : digest.take 2 ∈ c.dirs
    · simp [hin]
    · simp [hin]
  rw [hstep, h.copied] at hsound
  obtain ⟨message, hraises⟩ : ∃ message, (Pdf.prune { Effect.apply c (.mkdir (digest.take 2)) with
      nodes := c.nodes ++ [((digest.take 2, temporaryName c.made), IngestRequest.body { r with blocks := r.blocks.take m })]
      made := c.made + 1 } []).result = .error (.security message) :=
    leftover_raises hdir (List.mem_append_right _ List.mem_cons_self) (isSha256_temporaryName c.made)
  exact hsound.prune [] message hraises

theorem Inv.empty : Inv P S .empty := ⟨nofun, List.nodup_nil, nofun, List.nodup_nil, ⟨nofun, nofun⟩⟩

theorem Inv.keeps_iff (h : Inv P S c) (hinj : ∀ b ∈ S, ∀ b' ∈ S, P.sha256 b = P.sha256 b' → b = b') {e : Event}
    (hS : ∀ r, e.op = .ingest r → r.body ∈ S) : Keeps P c e (Pdf.step P c e) ↔ Settles P c e := by
  constructor
  · intro hkeeps
    exact h.settles hkeeps.sound hS
  · intro hsettles
    refine ⟨(h.step hS hsettles).sound hinj, fun protectedSha256s hop digest hdigest body hget => ?_⟩
    rw [step_guarded P c hop hdigest, hget]

theorem along_iff (hinj : ∀ b ∈ S, ∀ b' ∈ S, P.sha256 b = P.sha256 b' → b = b') {events : List Event}
    (hS : ∀ e ∈ events, ∀ r, e.op = .ingest r → r.body ∈ S) (h : Inv P S c) :
    Along (step P) (Keeps P) c events ↔ Along (step P) (fun c e _ => Settles P c e) c events := by
  induction events generalizing c with
  | nil => exact Iff.rfl
  | cons e events ih =>
    have hiff := h.keeps_iff hinj (hS e List.mem_cons_self)
    have hrest : Settles P c e → (Along (step P) (Keeps P) (step P c e) events ↔
        Along (step P) (fun c e _ => Settles P c e) (step P c e) events) := fun hsettles =>
      ih (fun e' he' => hS e' (List.mem_cons_of_mem _ he')) (h.step (hS e List.mem_cons_self) hsettles)
    constructor
    · rintro ⟨hkeeps, hlater⟩
      exact ⟨hiff.1 hkeeps, (hrest (hiff.1 hkeeps)).1 hlater⟩
    · rintro ⟨hsettles, hlater⟩
      exact ⟨hiff.2 hsettles, (hrest hsettles).2 hlater⟩

/-- A run keeps the cache exactly where no ingestion of a new leaf is killed between `mkstemp` and `os.replace`. The contents
of the run have different digests. -/
theorem pdf_cache_iff (P : Library) (events : List Event)
    (hinj : ∀ b ∈ contents events, ∀ b' ∈ contents events, P.sha256 b = P.sha256 b' → b = b') :
    Along (step P) (Keeps P) .empty events ↔ Along (step P) (fun c e _ => Settles P c e) .empty events := by
  refine along_iff hinj (fun e he r hop => ?_) Inv.empty
  rw [contents, List.mem_filterMap]
  exact ⟨e, he, by rw [hop]⟩

end

/-! ### A document of one page -/

def onePage : Bytes :=
  bytes "%PDF-1.4\n" ++ bytes "1 0 obj<</Type/Catalog/Pages 2 0 R>>endobj\n2 0 obj<</Type/Pages/Kids[3 0 R]/Count 1>>endobj\n" ++
    bytes "3 0 obj<</Type/Page/Parent 2 0 R/MediaBox[0 0 3 3]>>endobj\ntrailer<</Root 1 0 R>>\n%%EOF"

def onePageSha256 : Str := "72fec874beff7c521ac2143c26a4eb39518633493de66fd186dbd6a9a52337fe".toList

/-- What the libraries say of this document. -/
def onePageLibrary : Library where
  sha256 := fun body => if body = onePage then onePageSha256 else List.replicate 64 '0'
  isSha256_sha256 := fun body => by
    split
    · rfl
    · rfl
  pageCount := fun body => if body = onePage then some 1 else none

def onePageRequest : IngestRequest where
  blocks := [onePage]
  expectedSha256 := none
  expectedSizeBytes := none
  expectedPageCount := none
  now := ⟨2026, 1, 1, 0, 0, 0, 0, by decide⟩

theorem onePage_checked : checkSource onePageLibrary onePageRequest = .ok (onePageSha256, onePage.length, 1) := by
  have hbody : onePageRequest.body = onePage := List.append_nil _
  have hsha : onePageLibrary.sha256 onePage = onePageSha256 := by
    dsimp only [onePageLibrary]
    rw [if_pos rfl]
  have hpages : onePageLibrary.pageCount onePage = some 1 := by
    dsimp only [onePageLibrary]
    rw [if_pos rfl]
  have hvalid : validatePdf onePageLibrary onePage none = .ok (onePageSha256, onePage.length, 1) := by
    unfold validatePdf
    rw [hpages, hsha]
    rfl
  unfold checkSource
  rw [hbody, show validatePdf onePageLibrary onePage onePageRequest.expectedSha256 = _ from hvalid]
  rfl

theorem pdf_cache_iff_onePage : Along (step onePageLibrary) (Keeps onePageLibrary) .empty
    [⟨.ingest onePageRequest, some 1⟩, ⟨.ingest onePageRequest, none⟩, ⟨.prune [onePageSha256], none⟩] := by
  refine (pdf_cache_iff onePageLibrary _ ?_).2 ⟨?_, ?_, ?_, trivial⟩
  · intro b hb b' hb' _
    have hone : ∀ b ∈ contents [⟨.ingest onePageRequest, some 1⟩, ⟨.ingest onePageRequest, none⟩, ⟨.prune [onePageSha256], none⟩],
        b = onePageRequest.body := by
      intro b hb
      simp only [contents, List.filterMap_cons, List.filterMap_nil, List.mem_cons, List.not_mem_nil, or_false, or_self] at hb
      exact hb
    exact (hone b hb).trans (hone b' hb').symm
  · intro r n _ hkilled _
    cases hkilled
    exact .inl le_rfl
  · nofun
  · nofun

/-- The temporary of a killed ingestion stays among the leaves, and no `prune` gets past it. -/
theorem killed_ingest_blocks :
    (prune (step onePageLibrary .empty ⟨.ingest onePageRequest, some 2⟩) []).result =
        .error (.security "PDF cache object tree contains an unsafe object node") ∧
      ¬ Along (step onePageLibrary) (Keeps onePageLibrary) .empty [⟨.ingest onePageRequest, some 2⟩] := by
  obtain ⟨rest, heffects, -, -⟩ :=
    @Inv.ingest_stores _ .empty [onePageRequest.body] _ _ _ Inv.empty _ (List.mem_singleton_self _) onePage_checked rfl
  have hstep : step onePageLibrary .empty ⟨.ingest onePageRequest, some 2⟩ =
      ⟨[onePageSha256.take 2], [((onePageSha256.take 2, temporaryName 0), [])], 1, .empty⟩ := by
    unfold step
    dsimp only [Op.effects]
    rw [heffects]
    rfl
  have hblocked : (prune (step onePageLibrary .empty ⟨.ingest onePageRequest, some 2⟩) []).result =
      .error (.security "PDF cache object tree contains an unsafe object node") := by
    rw [hstep]
    rfl
  exact ⟨hblocked, fun h => h.1.sound.prune [] _ hblocked⟩

end CardRag.Pdf
