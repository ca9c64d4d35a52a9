import CardRag.Backup.Truth

/-! # Restoring a backup (`backup.py`)

`BackupLedger.restore`: the items come from the receipts of the host, or from the index where it has none. Each is
fetched, verified and written with its receipt, an OCR cache file is linked into `cache/ocr`, and the native bundles
that are there at the end are seeded, in `cache/ocr` over the links. The recovery ledger is left out. -/

namespace CardRag.Backup

open Publish (Path Bytes)
open Gc (objectPath cacheRoot manifestName readyName)

/-- A file under `cache/ocr`. -/
inductive Copy where
  /-- The file of the same name under `v1/caches/ocr`: one inode. -/
  | linked
  | own (b : Bytes)
deriving DecidableEq

structure RestoreHost where
  ledger : State
  target : List (Path × Bytes)
  /-- `cache/ocr`. -/
  cache : List (Path × Copy)
  /-- `ocr-seed`: the body and the manifest of a document. -/
  seeds : List (Str × (Bytes × Bytes))

/-- What an interrupted attempt has done for its last item, which has no receipt. -/
inductive Torn where
  | nothing
  | file
  | copy

/-- Where an attempt ends. -/
inductive Cut where
  | finished
  /-- After so many items. -/
  | items (n : Nat) (torn : Torn)
  /-- After so many seeds. -/
  | seeds (n : Nat)

/-- The order in which a directory is listed. -/
structure GlobOrder where
  order : List (Path × Bytes) → List (Path × Bytes)
  perm : ∀ l, (order l).Perm l

structure Attempt where
  fetch : Path → Bool
  readable : Bool
  cut : Cut
  /-- `os.link` works for the file. -/
  links : Path → Bool
  glob : GlobOrder

inductive RestoreStatus where
  | succeeded
  | failed
  | empty
deriving DecidableEq

structure Outcome where
  status : RestoreStatus
  /-- The manifests that were seeded, and the document of each. -/
  seeded : List (Path × Str)
deriving DecidableEq

/-- What a restore reads from, and the directory it writes to. -/
structure Committed where
  root : Str
  targetDir : Path
  objects : List (Path × Bytes)
  index : List IndexItem
  sha256 : Bytes → Str
  /-- The reuse key and the OCR digest of a native manifest. -/
  read : Bytes → Option (Str × Str)
  /-- `OCRReady(...).canonical_bytes()`, of the reuse key, the manifest's digest and the OCR's. -/
  ready : Str → Str → Str → Bytes

def IndexItem.right (i : IndexItem) (sha256 : Bytes → Str) (b : Bytes) : Bool := sha256 b = i.sha256 ∧ b.length = i.sizeBytes

/-- Where the index keeps the files of `cache/ocr`. -/
def ocrCopies : Path := ["v1".toList, "caches".toList, "ocr".toList]

def cacheRel (p : Path) : Option Path := if ocrCopies.isPrefixOf p then some (p.drop 3) else none

def ocrName : Str := "ocr.md".toList

/-- A bundle that is seeded. -/
structure NativeBundle where
  path : Path
  documentId : Str
  reuseKey : Str
  ocrSha256 : Str
  body : Bytes
  manifest : Bytes

section
variable (k : Committed)

/-- The receipts of the host, or the index. -/
def restoreItems (h : RestoreHost) (readable : Bool) : Option (List IndexItem) :=
  let found := (h.ledger.receipts.filter (·.remoteRoot = k.root)).map fun r =>
    (⟨r.remotePath, r.sha256, r.sizeBytes, none, none⟩ : IndexItem)
  if found ≠ [] then some found else if readable then some k.index else none

/-- The body that is written for an item; `none` where nothing is fetched that verifies. -/
def fetched (fetch : Path → Bool) (i : IndexItem) : Option Bytes :=
  ((if fetch i.remotePath then PyList.get? k.objects i.remotePath else none).filter (i.right k.sha256))

def isPresent (h : RestoreHost) (i : IndexItem) : Bool := (PyList.get? h.target i.remotePath).any (i.right k.sha256)

/-- `dest.write_bytes(content)`. -/
def RestoreHost.putFile (h : RestoreHost) (p : Path) (b : Bytes) : RestoreHost :=
  { h with target := PyList.insert p b h.target }

/-- A file of the OCR cache is linked into `cache/ocr`, or written there, if it is not there yet. -/
def RestoreHost.copyFile (links : Path → Bool) (h : RestoreHost) (p : Path) (b : Bytes) : RestoreHost :=
  match cacheRel p with
  | none => h
  | some rel =>
    if (PyList.get? h.cache rel).isSome then h
    else { h with cache := PyList.insert rel (if links rel then .linked else .own b) h.cache }

/-- One item, and whether one has failed. -/
def restoreItem (a : Attempt) (r : RestoreHost × Bool) (i : IndexItem) : RestoreHost × Bool :=
  if isPresent k r.1 i then r
  else match fetched k a.fetch i with
    | some b =>
      let h := (r.1.putFile i.remotePath b).copyFile a.links i.remotePath b
      ({ h with ledger := h.ledger.insertReceipt ⟨i.remotePath, k.root, i.sha256, i.sizeBytes⟩ }, r.2)
    | none => (r.1, true)

/-- An item that is broken off before its receipt. -/
def tearItem (a : Attempt) (torn : Torn) (h : RestoreHost) (i : IndexItem) : RestoreHost :=
  if isPresent k h i then h
  else match fetched k a.fetch i, torn with
    | some b, .file => h.putFile i.remotePath b
    | some b, .copy => (h.putFile i.remotePath b).copyFile a.links i.remotePath b
    | _, _ => h

def isManifest (p : Path) : Bool := (cacheRoot "native".toList).isPrefixOf p && p.getLast? = some manifestName

/-- The document of a bundle: of the first item that shares the digest, the path, the reuse key or the canonical
path of its manifest. -/
def seedId (items : List IndexItem) (p : Path) (manifest : Bytes) (reuseKey : Str) : Str :=
  let found := items.find? fun r =>
    r.sha256 = k.sha256 manifest ∨ r.remotePath = p ∨ r.info.map (·.reuseKey) = some reuseKey ∨
      r.remotePath = nativeRoot reuseKey ++ [manifestName]
  ((found.bind (·.documentId)).filter (· ≠ [])).getD "doc1".toList

/-- The bundle of a manifest that was restored. -/
def bundleOf (items : List IndexItem) (target : List (Path × Bytes)) (e : Path × Bytes) : Option NativeBundle := do
  guard (isManifest e.1)
  let (reuseKey, ocrSha) ← k.read e.2
  let body ← PyList.get? target (objectPath ocrSha)
  guard (k.sha256 body = ocrSha)
  return ⟨e.1, seedId k items e.1 e.2 reuseKey, reuseKey, ocrSha, body, e.2⟩

/-- `glob("v1/ocr-cache/native/**/manifest.json")`, read; seeding does not write to these files. -/
def bundlesOf (glob : GlobOrder) (items : List IndexItem) (target : List (Path × Bytes)) : List NativeBundle :=
  (glob.order target).filterMap (bundleOf k items target)

/-- The three files of a bundle. -/
def NativeBundle.files (b : NativeBundle) (dir : Path) : List (Path × Bytes) :=
  [(dir ++ [ocrName], b.body), (dir ++ [manifestName], b.manifest),
    (dir ++ [readyName], k.ready b.reuseKey (k.sha256 b.manifest) b.ocrSha256)]

/-- What a bundle writes under `cache/ocr`, where the canonical manifest of its key is there or not. -/
def NativeBundle.writes (b : NativeBundle) (known : Bool) : List (Path × Bytes) :=
  let isVariant : Bool := "variants".toList ∈ k.targetDir ++ b.path
  (if isVariant then b.files k [b.reuseKey, "variants".toList, b.ocrSha256] else []) ++
    if !known || !isVariant then b.files k [b.reuseKey] else []

/-- `write_bytes` under `cache/ocr`: a link is written through. -/
def RestoreHost.writeCopy (h : RestoreHost) (w : Path × Bytes) : RestoreHost :=
  if PyList.get? h.cache w.1 = some .linked then h.putFile (ocrCopies ++ w.1) w.2
  else { h with cache := PyList.insert w.1 (.own w.2) h.cache }

/-- There is a manifest for the key under `cache/ocr`. -/
def RestoreHost.knows (h : RestoreHost) (reuseKey : Str) : Bool := (PyList.get? h.cache [reuseKey, manifestName]).isSome

def seedBundle (h : RestoreHost) (b : NativeBundle) : RestoreHost :=
  let seeded := { h with seeds := PyList.insert b.documentId (b.body, b.manifest) h.seeds }
  (b.writes k (h.knows b.reuseKey)).foldl RestoreHost.writeCopy seeded

def restore (a : Attempt) (h : RestoreHost) : RestoreHost × Option Outcome :=
  match restoreItems k h a.readable with
  | none => (h, some ⟨.failed, []⟩)
  | some items =>
    if items = [] then (h, some ⟨.empty, []⟩)
    else match a.cut with
      | .items n torn =>
        let (h, _) := (items.take n).foldl (restoreItem k a) (h, false)
        (((items.drop n).take 1).foldl (tearItem k a torn) h, none)
      | .seeds n =>
        let (h, _) := items.foldl (restoreItem k a) (h, false)
        (((bundlesOf k a.glob items h.target).take n).foldl (seedBundle k) h, none)
      | .finished =>
        let (h, failed) := items.foldl (restoreItem k a) (h, false)
        let bundles := bundlesOf k a.glob items h.target
        (bundles.foldl (seedBundle k) h,
          some ⟨if failed then .failed else .succeeded, bundles.map fun b => (b.path, b.documentId)⟩)

/-! ### What a restore owes -/

/-- The backup is whole: one item a path, and the bytes of each. -/
structure Committed.Intact : Prop where
  paths : (k.index.map (·.remotePath)).Nodup
  bytes : ∀ i ∈ k.index, ∃ b, PyList.get? k.objects i.remotePath = some b ∧ i.right k.sha256 b = true

/-- The item is a native manifest whose OCR is in the backup, and names its document. -/
structure Committed.Names (i : IndexItem) (manifest : Bytes) (reuseKey documentId : Str) : Prop where
  mem : i ∈ k.index
  path : isManifest i.remotePath = true
  stored : PyList.get? k.objects i.remotePath = some manifest
  body : ∃ ocrSha body, k.read manifest = some (reuseKey, ocrSha) ∧ objectPath ocrSha ∈ k.index.map (·.remotePath) ∧
    PyList.get? k.objects (objectPath ocrSha) = some body ∧ k.sha256 body = ocrSha
  document : i.documentId = some documentId
  named : documentId ≠ []

/-- Every indexed path has its bytes, and every bundle is seeded under the document that its item names. -/
structure Faithful (h : RestoreHost) (o : Outcome) : Prop where
  bytes : ∀ i ∈ k.index, ∃ b, PyList.get? h.target i.remotePath = some b ∧ i.right k.sha256 b = true
  seeded : ∀ i manifest reuseKey documentId, k.Names i manifest reuseKey documentId → (i.remotePath, documentId) ∈ o.seeded

/-- The files of the host with those of the items that it lacks. -/
def withItems (items : List IndexItem) (target : List (Path × Bytes)) : List (Path × Bytes) :=
  items.foldl (fun t i => if (PyList.get? t i.remotePath).any (i.right k.sha256) then t
    else (PyList.get? k.objects i.remotePath).elim t fun b => PyList.insert i.remotePath b t) target

/-- The file is among the items, and the host lacks it. -/
def Lacks (h : RestoreHost) (items : List IndexItem) (p : Path) : Prop :=
  ∃ i ∈ items, i.remotePath = p ∧ isPresent k h i = false

instance (h : RestoreHost) (items : List IndexItem) (p : Path) : Decidable (Lacks k h items p) :=
  inferInstanceAs (Decidable (∃ i ∈ items, _))

/-- With the items there, the file under `cache/ocr` is a link: it was one, or was not there and can be linked. -/
def Shared (links : Path → Bool) (h : RestoreHost) (items : List IndexItem) (rel : Path) : Prop :=
  PyList.get? h.cache rel = some .linked ∨
    PyList.get? h.cache rel = none ∧ Lacks k h items (ocrCopies ++ rel) ∧ links rel = true

instance (links : Path → Bool) (h : RestoreHost) (items : List IndexItem) (rel : Path) :
    Decidable (Shared k links h items rel) := inferInstanceAs (Decidable (_ ∨ _))

/-- With the items there, a key has a manifest under `cache/ocr`. -/
def knownKey (h : RestoreHost) (items : List IndexItem) (reuseKey : Str) : Bool :=
  h.knows reuseKey || decide (Lacks k h items (ocrCopies ++ [reuseKey, manifestName]))

/-- What bundles write under `cache/ocr`, by the keys that have a manifest there. -/
def seedWrites (known : Str → Bool) : List NativeBundle → List (Path × Bytes)
  | [] => []
  | b :: bs => b.writes k (known b.reuseKey) ++ seedWrites (fun key => decide (key = b.reuseKey) || known key) bs

/-- The last bytes that are written to a file. -/
def lastWritten (rel : Path) (ws : List (Path × Bytes)) : Option Bytes :=
  ws.foldl (fun last w => if w.1 = rel then some w.2 else last) none

/-- What the seeds put in place of a restored file, through the link under `cache/ocr`. -/
def overwritten (links : Path → Bool) (glob : GlobOrder) (h : RestoreHost) (items : List IndexItem) (p : Path) : Option Bytes :=
  (cacheRel p).bind fun rel =>
    if Shared k links h items rel then
      lastWritten rel (seedWrites k (knownKey k h items) (bundlesOf k glob items (withItems k items h.target)))
    else none

/-- Before the call: each indexed path is among the items or has its bytes, and if the seeds write through to it, they
leave its bytes; and the first item that matches a bundle names the bundle's document. -/
structure Covers (links : Path → Bool) (glob : GlobOrder) (h : RestoreHost) (items : List IndexItem) : Prop where
  paths : ∀ i ∈ k.index, overwritten k links glob h items i.remotePath = none →
    i.remotePath ∈ items.map (·.remotePath) ∨ isPresent k h i = true
  copies : ∀ i ∈ k.index, ∀ b, overwritten k links glob h items i.remotePath = some b → i.right k.sha256 b = true
  documents : ∀ i manifest reuseKey documentId, k.Names i manifest reuseKey documentId →
    seedId k items i.remotePath manifest reuseKey = documentId

end

theorem cacheRel_eq_some {p rel : Path} : cacheRel p = some rel ↔ p = ocrCopies ++ rel := by
  unfold cacheRel
  constructor
  · intro h
    obtain ⟨hp, hrel⟩ := Option.ite_none_right_eq_some.1 h
    obtain ⟨t, rfl⟩ := List.isPrefixOf_iff_prefix.1 hp
    rw [← Option.some.inj hrel]
    rfl
  · rintro rfl
    rw [if_pos (List.isPrefixOf_iff_prefix.2 (List.prefix_append _ _))]
    rfl

/-! ### Attempts -/

/-- What earlier attempts leave: files of the backup at its paths, if no seed was written through to them, and
receipts of its items. -/
structure Restored (k : Committed) (h : RestoreHost) : Prop where
  keys : (h.target.map (·.1)).Nodup
  files : ∀ p b, PyList.get? h.target p = some b → p ∈ k.index.map (·.remotePath) ∧
    (PyList.get? k.objects p = some b ∨ (cacheRel p).isSome = true)
  links : ∀ rel, PyList.get? h.cache rel = some .linked → ocrCopies ++ rel ∈ k.index.map (·.remotePath)
  receipts : ∀ r ∈ h.ledger.receipts, ∃ i ∈ k.index, i.remotePath = r.remotePath ∧ i.sha256 = r.sha256 ∧ i.sizeBytes = r.sizeBytes

/-- An item of the index, whatever it says of a document. -/
def Listed (k : Committed) (i : IndexItem) : Prop :=
  ∃ j ∈ k.index, j.remotePath = i.remotePath ∧ j.sha256 = i.sha256 ∧ j.sizeBytes = i.sizeBytes

section
variable {k : Committed} {h : RestoreHost} {i : IndexItem} {items : List IndexItem} {fetch : Path → Bool} {a : Attempt}

theorem Listed.right {b : Bytes} (hi : Listed k i) (hk : k.Intact) (hb : PyList.get? k.objects i.remotePath = some b) :
    i.right k.sha256 b = true := by
  obtain ⟨j, hj, hp, hs, hz⟩ := hi
  obtain ⟨b', hb', hr⟩ := hk.bytes j hj
  rw [hp, hb] at hb'
  obtain rfl := Option.some.inj hb'
  simpa [IndexItem.right, hs, hz] using hr

theorem Listed.mem (hi : Listed k i) : i.remotePath ∈ k.index.map (·.remotePath) := by
  obtain ⟨j, hj, hp, -⟩ := hi
  exact hp ▸ List.mem_map_of_mem hj

theorem fetched_eq_some {b : Bytes} (hf : fetched k fetch i = some b) : PyList.get? k.objects i.remotePath = some b := by
  unfold fetched at hf
  obtain ⟨hf, -⟩ := Option.filter_eq_some_iff.1 hf
  split at hf
  · exact hf
  · cases hf

theorem Restored.putFile (h' : Restored k h) (hi : Listed k i) {b : Bytes} (hb : PyList.get? k.objects i.remotePath = some b) :
    Restored k (h.putFile i.remotePath b) := by
  refine ⟨PyList.nodup_keys_insert h'.keys, fun p c hp => ?_, h'.links, h'.receipts⟩
  rw [RestoreHost.putFile, PyList.get?_insert] at hp
  split at hp
  · rename_i heq
    obtain rfl := Option.some.inj hp
    exact heq ▸ ⟨hi.mem, .inl hb⟩
  · exact h'.files p c hp

theorem Restored.copyFile (h' : Restored k h) (hi : Listed k i) (links : Path → Bool) (b : Bytes) :
    Restored k (h.copyFile links i.remotePath b) := by
  unfold RestoreHost.copyFile
  split
  · exact h'
  · rename_i rel hrel
    split
    · exact h'
    · refine ⟨h'.keys, h'.files, fun rel' hlinked => ?_, h'.receipts⟩
      rw [PyList.get?_insert] at hlinked
      split at hlinked
      · rename_i heq
        exact heq ▸ cacheRel_eq_some.1 hrel ▸ hi.mem
      · exact h'.links rel' hlinked

theorem Restored.item (h' : Restored k h) (a : Attempt) (hi : Listed k i) (failed : Bool) :
    Restored k (restoreItem k a (h, failed) i).1 := by
  unfold restoreItem
  split
  · exact h'
  split
  · rename_i b hf
    have hw := (h'.putFile hi (fetched_eq_some hf)).copyFile hi a.links b
    refine ⟨hw.keys, hw.files, hw.links, fun r hr => ?_⟩
    rcases List.mem_append.1 hr with hr | hr
    · exact hw.receipts r (List.mem_filter.1 hr).1
    · rw [List.mem_singleton.1 hr]
      exact hi
  · exact h'

theorem Restored.loop (h' : Restored k h) (a : Attempt) (items : List IndexItem) (hi : ∀ i ∈ items, Listed k i) (failed : Bool) :
    Restored k (items.foldl (restoreItem k a) (h, failed)).1 := by
  induction items generalizing h failed with
  | nil => exact h'
  | cons i items ih =>
    rw [List.foldl_cons]
    exact ih (h'.item a (hi i (by simp)) failed) (fun j hj => hi j (List.mem_cons_of_mem _ hj)) _

theorem Restored.tear (h' : Restored k h) (a : Attempt) (torn : Torn) (hi : ∀ i ∈ items, Listed k i) :
    Restored k (items.foldl (tearItem k a torn) h) := by
  induction items generalizing h with
  | nil => exact h'
  | cons i items ih =>
    rw [List.foldl_cons]
    refine ih ?_ fun j hj => hi j (List.mem_cons_of_mem _ hj)
    have hli := hi i (by simp)
    unfold tearItem
    split
    · exact h'
    split
    · rename_i b hf
      exact h'.putFile hli (fetched_eq_some hf)
    · rename_i b hf
      exact (h'.putFile hli (fetched_eq_some hf)).copyFile hli a.links b
    · exact h'

/-- A write through a link reaches an indexed file of the OCR cache. -/
theorem Restored.writeCopy (h' : Restored k h) (w : Path × Bytes) : Restored k (h.writeCopy w) := by
  unfold RestoreHost.writeCopy
  split
  · rename_i hlinked
    refine ⟨PyList.nodup_keys_insert h'.keys, fun p c hp => ?_, h'.links, h'.receipts⟩
    rw [RestoreHost.putFile, PyList.get?_insert] at hp
    split at hp
    · rename_i heq
      exact heq ▸ ⟨h'.links _ hlinked, .inr (by rw [cacheRel_eq_some.2 rfl]; rfl)⟩
    · exact h'.files p c hp
  · refine ⟨h'.keys, h'.files, fun rel hrel => ?_, h'.receipts⟩
    rw [PyList.get?_insert] at hrel
    split at hrel
    · cases hrel
    · exact h'.links rel hrel

theorem Restored.seed (h' : Restored k h) (bs : List NativeBundle) : Restored k (bs.foldl (seedBundle k) h) := by
  have hwrites : ∀ (ws : List (Path × Bytes)) {h : RestoreHost}, Restored k h → Restored k (ws.foldl RestoreHost.writeCopy h) := by
    intro ws
    induction ws with
    | nil => exact fun h' => h'
    | cons w ws ih => exact fun h' => ih (h'.writeCopy w)
  induction bs generalizing h with
  | nil => exact h'
  | cons b bs ih => exact ih (hwrites _ ⟨h'.keys, h'.files, h'.links, h'.receipts⟩)

theorem Restored.listed (h' : Restored k h) {readable : Bool} (hr : restoreItems k h readable = some items) :
    ∀ i ∈ items, Listed k i := by
  unfold restoreItems at hr
  dsimp only at hr
  split at hr
  · obtain rfl := Option.some.inj hr
    intro i hi
    obtain ⟨r, hr, rfl⟩ := List.mem_map.1 hi
    exact h'.receipts r (List.mem_filter.1 hr).1
  · split at hr
    · obtain rfl := Option.some.inj hr
      exact fun i hi => ⟨i, hi, rfl, rfl, rfl⟩
    · cases hr

theorem Restored.restore (h' : Restored k h) (a : Attempt) : Restored k (restore k a h).1 := by
  unfold Backup.restore
  split
  · exact h'
  · rename_i items hr
    have hl := h'.listed hr
    split
    · exact h'
    split
    · rename_i n torn _
      exact (h'.loop a (items.take n) (fun i hi => hl i (List.mem_of_mem_take hi)) false).tear a torn
        fun i hi => hl i (List.mem_of_mem_drop (List.mem_of_mem_take hi))
    · exact (h'.loop a items hl false).seed _
    · exact (h'.loop a items hl false).seed _

/-! ### The last attempt -/

end

/-- An attempt that runs to its end without a failed fetch. -/
def lastAttempt (links : Path → Bool) (glob : GlobOrder) : Attempt := ⟨fun _ => true, true, .finished, links, glob⟩

section
variable {k : Committed} {h : RestoreHost} {i : IndexItem} {items : List IndexItem} {links : Path → Bool} {glob : GlobOrder}

/-- A loop whose fetches all succeed. -/
structure Filled (k : Committed) (links : Path → Bool) (items : List IndexItem) (h : RestoreHost) (r : RestoreHost × Bool) :
    Prop where
  fine : r.2 = false
  target : r.1.target = withItems k items h.target
  linked : ∀ rel, PyList.get? r.1.cache rel = some .linked ↔ Shared k links h items rel
  copied : ∀ rel, (PyList.get? r.1.cache rel).isSome = true ↔
    (PyList.get? h.cache rel).isSome = true ∨ Lacks k h items (ocrCopies ++ rel)

/-! ### Seeds -/

end

def freshHost : RestoreHost := ⟨.empty, [], [], []⟩

/-- The host after earlier attempts. -/
def afterAttempts (k : Committed) (attempts : List Attempt) : RestoreHost :=
  attempts.foldl (fun h a => (restore k a h).1) freshHost

section
variable {k : Committed} {h : RestoreHost} {items : List IndexItem} {links : Path → Bool} {glob : GlobOrder}

end

def plainGlob : GlobOrder := ⟨id, List.Perm.refl⟩

/-- Two documents whose OCR has one reuse key: the second one's bundle is a variant. -/
def twoVariantsBackup : Committed where
  root := "root".toList
  targetDir := ["restored".toList]
  objects := [(objectPath "a".toList, [97]), (nativeRoot "k".toList ++ [manifestName], [109, 97]),
    (objectPath "b".toList, [98]), (bundleRoot "k".toList (some "b".toList) ++ [manifestName], [109, 98])]
  index :=
    let info (d ocr : Str) : DocInfo := ⟨d, "k".toList, "p".toList, ocr, "native".toList⟩
    [⟨objectPath "a".toList, "a".toList, 1, some "d1".toList, some (info "d1".toList "a".toList)⟩,
      ⟨nativeRoot "k".toList ++ [manifestName], "ma".toList, 2, some "d1".toList, some (info "d1".toList "a".toList)⟩,
      ⟨objectPath "b".toList, "b".toList, 1, some "d2".toList, some (info "d2".toList "b".toList)⟩,
      ⟨bundleRoot "k".toList (some "b".toList) ++ [manifestName], "mb".toList, 2, some "d2".toList,
        some (info "d2".toList "b".toList)⟩]
  sha256 := plainSha
  read b := match b with
    | [109, c] => some ("k".toList, [Char.ofNat c.toNat])
    | _ => none
  ready _ _ _ := [114]

/-- A bundle, and an older text of its key in the OCR cache. -/
def oldCopyBackup : Committed :=
  { twoVariantsBackup with
    objects := [(objectPath "a".toList, [97]), (nativeRoot "k".toList ++ [manifestName], [109, 97]),
      (ocrCopies ++ ["k".toList, ocrName], [98])]
    index :=
      let info : DocInfo := ⟨"d1".toList, "k".toList, "p".toList, "a".toList, "native".toList⟩
      [⟨objectPath "a".toList, "a".toList, 1, some "d1".toList, some info⟩,
        ⟨nativeRoot "k".toList ++ [manifestName], "ma".toList, 2, some "d1".toList, some info⟩,
        ⟨ocrCopies ++ ["k".toList, ocrName], "b".toList, 1, none, none⟩] }

def oneItem : Attempt := ⟨fun _ => true, true, .items 1 .nothing, fun _ => true, plainGlob⟩

end CardRag.Backup

