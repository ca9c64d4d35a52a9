import CardRag.Lib.Effects
import CardRag.Lib.Runs
import CardRag.Lib.PyList
import CardRag.Publish.Webdav

/-! # Publishing into a local directory (`local_publisher.py`)

A publication puts in the objects, moves the staged generation to its place, replaces the pointer of its
channel and deletes the generations that its retention rule does not keep. The rule knows the pointer of
one channel only. Where the pointers of the others are kept, every pointer resolves at every moment
(`pointers_resolve`). -/

namespace CardRag.Publish

/-- What a publication reads of a generation manifest. -/
structure LocalManifest where
  generationId : Str
  servingDatabase : Str × Nat
  vectorSidecar : Option (Str × Nat)
  /-- The objects that the documents name. -/
  objects : List Str
deriving DecidableEq

structure GenerationReady where
  generationId : Str
  manifestSha256 : Str
  servingDatabase : Str × Nat
  vectorSidecar : Option (Str × Nat)
deriving DecidableEq

structure GenerationPointer where
  generationId : Str
  manifestSha256 : Str
  readySha256 : Str
deriving DecidableEq

/-- The digests, and `GenerationManifest.model_validate_json`. READY files and pointers are the canonical
JSON of their records and stand for them. -/
structure Formats where
  sha256 : Bytes → Str
  readySha256 : GenerationReady → Str
  parseManifest : Bytes → Option LocalManifest

/-- A generation directory; a file is missing while the directory is being deleted. -/
structure GenerationDir where
  ready : Option GenerationReady
  manifest : Option Bytes
  database : Option Bytes
  vectors : Option Bytes
deriving DecidableEq

inductive GenerationFile where
  | ready
  | manifest
  | database
  | vectors
deriving DecidableEq

def GenerationDir.unlink (dir : GenerationDir) : GenerationFile → GenerationDir
  | .ready => { dir with ready := none }
  | .manifest => { dir with manifest := none }
  | .database => { dir with database := none }
  | .vectors => { dir with vectors := none }

/-- A serving directory. -/
structure Serving where
  objects : List (Str × Bytes)
  generations : List (Str × GenerationDir)
  pointers : List (Str × GenerationPointer)
deriving DecidableEq

inductive ServingEffect where
  /-- A checked copy replaces an object. -/
  | object (sha256 : Str) (content : Bytes)
  /-- The staging directory is moved to its place. -/
  | install (generationId : Str) (dir : GenerationDir)
  | pointer (channel : Str) (pointer : GenerationPointer)
  | unlink (generationId : Str) (file : GenerationFile)
  | rmdir (generationId : Str)
deriving DecidableEq

instance : Effects Serving ServingEffect where
  apply s
    | .object sha256 content => { s with objects := PyList.insert sha256 content s.objects }
    | .install generationId dir => { s with generations := PyList.insert generationId dir s.generations }
    | .pointer channel pointer => { s with pointers := PyList.insert channel pointer s.pointers }
    | .unlink generationId file =>
      { s with
        generations := (PyList.get? s.generations generationId).elim s.generations fun dir =>
          PyList.insert generationId (dir.unlink file) s.generations }
    | .rmdir generationId => { s with generations := s.generations.filter fun e => e.1 ≠ generationId }

abbrev ServingAct (α : Type) := Program Serving ServingEffect String α

/-- A publication and what it meets: the space on the volume, the fence, the modification times, what
`rmtree` manages to delete of a generation, and after how many steps it is stopped if it is. -/
structure LocalPublication where
  channel : Str
  generationId : Str
  database : Bytes
  manifestBody : Bytes
  vectors : Option Bytes
  /-- Content, declared digest and size. -/
  uniqueObjects : List (Bytes × Str × Nat)
  enoughSpace : Bool
  fence : Bool
  newestFirst : List Str → List Str
  deletes : Str → List GenerationFile × Bool
  stopped : Option Nat

section
variable (F : Formats) (q : LocalPublication)

def identity (content : Bytes) : Str × Nat := (F.sha256 content, content.length)

def publishObject (o : Bytes × Str × Nat) : ServingAct Unit := do
  match ← Program.look fun s => PyList.get? s.objects o.2.1 with
  | some content =>
    if identity F content = o.2 then pure ()
    else if identity F o.1 ≠ o.2 then Program.raise "CAS object identity mismatch during local publication"
    else Program.emit (.object o.2.1 o.1)
  | none =>
    if identity F o.1 ≠ o.2 then Program.raise "CAS object identity mismatch during local publication"
    else Program.emit (.object o.2.1 o.1)

/-- The READY file of the staged generation. -/
def LocalPublication.ready : GenerationReady :=
  ⟨q.generationId, F.sha256 q.manifestBody, identity F q.database, q.vectors.map (identity F)⟩

def LocalPublication.dir : GenerationDir := ⟨some (q.ready F), some q.manifestBody, some q.database, q.vectors⟩

def LocalPublication.pointer : GenerationPointer :=
  ⟨q.generationId, F.sha256 q.manifestBody, F.readySha256 (q.ready F)⟩

/-- The checks on the staged files. -/
def checkStaged : ServingAct Unit :=
  match F.parseManifest q.manifestBody with
  | none => Program.raise "manifest is invalid"
  | some manifest =>
    if manifest.generationId ≠ q.generationId then Program.raise "manifest generation_id does not match target"
    else if identity F q.database ≠ manifest.servingDatabase then
      Program.raise "staged database does not match manifest"
    else if manifest.vectorSidecar.isSome ∧ q.vectors.map (identity F) ≠ manifest.vectorSidecar then
      Program.raise "staged vector sidecar does not match manifest"
    else pure ()

/-- `staging_dir.replace(final_gen_dir)`, or the generation that is there. -/
def installGeneration : ServingAct Unit := do
  match ← Program.look fun s => PyList.get? s.generations q.generationId with
  | some dir =>
    if dir.ready = some (q.ready F) then pure ()
    else Program.raise "generation directory already exists with conflicting contents; refusing to overwrite"
  | none => Program.emit (.install q.generationId (q.dir F))

def retainGens (previous : Option Str) (names : List Str) : List Str :=
  let newest := (q.newestFirst (names.filter (· ≠ q.generationId))).take 1
  q.generationId :: match previous with
    | some p => if p ≠ q.generationId then [p] else newest
    | none => newest

/-- `_remove_tree_with_accounting` -/
def removeTree (generationId : Str) : ServingAct Unit := do
  (q.deletes generationId).1.forM fun file => Program.emit (.unlink generationId file)
  if (q.deletes generationId).2 then Program.emit (.rmdir generationId)

def publishSync : ServingAct Unit :=
  if q.enoughSpace = false then Program.raise "insufficient disk space on serving volume"
  else do
    q.uniqueObjects.forM (publishObject F)
    checkStaged F q
    installGeneration F q
    let previous ← Program.look fun s => (PyList.get? s.pointers q.channel).map (·.generationId)
    if q.fence = false then Program.raise "predecessor fence"
    else
      Program.emit (.pointer q.channel (q.pointer F))
      let names ← Program.look fun s => s.generations.map (·.1)
      (names.filter (· ∉ retainGens q previous names)).forM (removeTree q)

/-- A publication that runs to its end or stops. -/
def publishStep (s : Serving) (q : LocalPublication) : Serving :=
  let es := (publishSync F q s).1
  Program.after s (es.take (q.stopped.getD es.length))

end

/-! ### Pointers that resolve -/

/-- The objects are there, with their bytes. -/
def HasObjects (F : Formats) (s : Serving) (objects : List Str) : Prop :=
  ∀ o ∈ objects, ∃ content, PyList.get? s.objects o = some content ∧ F.sha256 content = o

/-- The files of a generation are those of its READY and its manifest. -/
structure Coherent (F : Formats) (s : Serving) (id : Str) (dir : GenerationDir) : Prop where
  manifest : ∀ ready ∈ dir.ready, ∀ body ∈ dir.manifest, F.sha256 body = ready.manifestSha256 ∧
    ∃ m, F.parseManifest body = some m ∧ m.generationId = id ∧ m.servingDatabase = ready.servingDatabase ∧
      (∀ v ∈ m.vectorSidecar, ready.vectorSidecar = some v) ∧ HasObjects F s m.objects
  database : ∀ ready ∈ dir.ready, ∀ content ∈ dir.database, identity F content = ready.servingDatabase
  vectors : ∀ ready ∈ dir.ready, ∀ content ∈ dir.vectors, ready.vectorSidecar = some (identity F content)

/-- No file is missing. -/
structure Whole (dir : GenerationDir) : Prop where
  ready : dir.ready ≠ none
  manifest : dir.manifest ≠ none
  database : dir.database ≠ none
  vectors : ∀ ready ∈ dir.ready, ready.vectorSidecar ≠ none → dir.vectors ≠ none

/-- A pointer names a generation with the bytes that it binds. -/
def Resolves (F : Formats) (s : Serving) (p : GenerationPointer) : Prop :=
  ∃ dir ready body content m, PyList.get? s.generations p.generationId = some dir ∧
    dir.ready = some ready ∧ F.readySha256 ready = p.readySha256 ∧
    dir.manifest = some body ∧ F.sha256 body = p.manifestSha256 ∧
    F.parseManifest body = some m ∧ m.generationId = p.generationId ∧
    dir.database = some content ∧ identity F content = m.servingDatabase ∧
    (∀ v ∈ m.vectorSidecar, ∃ vectors, dir.vectors = some vectors ∧ identity F vectors = v) ∧
    HasObjects F s m.objects

/-- All pointers resolve, and what is on disk is coherent. -/
structure LocalServed (F : Formats) (s : Serving) : Prop where
  pointers : ∀ channel p, PyList.get? s.pointers channel = some p → Resolves F s p
  coherent : ∀ id dir, PyList.get? s.generations id = some dir → Coherent F s id dir

/-- The generations once the staged one is in place. -/
def installed (F : Formats) (q : LocalPublication) (s₀ : Serving) : List (Str × GenerationDir) :=
  if (PyList.get? s₀.generations q.generationId).isSome then s₀.generations
  else PyList.insert q.generationId (q.dir F) s₀.generations

/-- What the code does not look after, in a publication that has the space and passes the fence: a generation that is
published again is whole, and retention keeps the generations of the other channels. -/
structure Careful (F : Formats) (s : Serving) (q : LocalPublication) : Prop where
  /-- `unique_objects` lists every object the manifest names. -/
  listed : ∀ m ∈ F.parseManifest q.manifestBody, ∀ o ∈ m.objects, o ∈ q.uniqueObjects.map (·.2.1)
  whole : q.enoughSpace = true → q.fence = true →
    ∀ dir ∈ PyList.get? s.generations q.generationId, dir.ready = some (q.ready F) → Whole dir
  others : q.enoughSpace = true → q.fence = true → ∀ channel p, channel ≠ q.channel → PyList.get? s.pointers channel = some p →
    p.generationId ∈ retainGens q ((PyList.get? s.pointers q.channel).map (·.generationId))
      ((installed F q s).map (·.1))

/-- What a publication does to pointers and to the generation of its channel, at every moment. -/
structure Orderly (F : Formats) (s : Serving) (q : LocalPublication) : Prop where
  served : ∀ k, LocalServed F (Program.after s ((publishSync F q s).1.take k))
  unchanged : ∀ k, (∀ e ∈ (publishSync F q s).1.take k, ∀ channel p, e ≠ .pointer channel p) →
    (Program.after s ((publishSync F q s).1.take k)).pointers = s.pointers
  previous : ∀ p ∈ PyList.get? s.pointers q.channel, ∀ k,
    PyList.get? (Program.after s ((publishSync F q s).1.take k)).generations p.generationId =
      PyList.get? s.generations p.generationId

/-! ### Effects -/

section
variable {F : Formats} {s s' s₀ : Serving} {q : LocalPublication} {p : GenerationPointer} {dir : GenerationDir}
  {id o : Str} {content : Bytes}

/-- Objects that have their bytes keep some of them. -/
def Keeps (F : Formats) (s s' : Serving) : Prop :=
  ∀ o content, PyList.get? s.objects o = some content → F.sha256 content = o →
    ∃ content', PyList.get? s'.objects o = some content' ∧ F.sha256 content' = o

theorem Keeps.of_eq (h : s'.objects = s.objects) : Keeps F s s' :=
  fun _ content hget hsha => ⟨content, h ▸ hget, hsha⟩

theorem HasObjects.mono (hk : Keeps F s s') {objects : List Str} (h : HasObjects F s objects) :
    HasObjects F s' objects := by
  intro o ho
  obtain ⟨content, hget, hsha⟩ := h o ho
  exact hk o content hget hsha

theorem Coherent.mono (hk : Keeps F s s') (h : Coherent F s id dir) : Coherent F s' id dir where
  manifest ready hready body hbody := by
    obtain ⟨hsha, m, hm, hid, hdb, hvec, hobj⟩ := h.manifest ready hready body hbody
    exact ⟨hsha, m, hm, hid, hdb, hvec, hobj.mono hk⟩
  database := h.database
  vectors := h.vectors

theorem Resolves.mono (hk : Keeps F s s')
    (hgen : PyList.get? s'.generations p.generationId = PyList.get? s.generations p.generationId)
    (h : Resolves F s p) : Resolves F s' p := by
  obtain ⟨dir, ready, body, content, m, hdir, h1, h2, h3, h4, h5, h6, h7, h8, h9, hobj⟩ := h
  exact ⟨dir, ready, body, content, m, hgen.trans hdir, h1, h2, h3, h4, h5, h6, h7, h8, h9, hobj.mono hk⟩

/-- A whole and coherent generation resolves the pointer of its READY. -/
theorem resolves_pointer (hdir : PyList.get? s.generations q.generationId = some dir)
    (hready : dir.ready = some (q.ready F)) (hw : Whole dir) (hc : Coherent F s q.generationId dir) :
    Resolves F s (q.pointer F) := by
  obtain ⟨body, hbody⟩ := Option.ne_none_iff_exists'.1 hw.manifest
  obtain ⟨content, hcontent⟩ := Option.ne_none_iff_exists'.1 hw.database
  obtain ⟨hsha, m, hm, hid, hdb, hvec, hobj⟩ := hc.manifest _ hready body hbody
  refine ⟨dir, q.ready F, body, content, m, hdir, hready, rfl, hbody, hsha, hm, hid, hcontent,
    (hc.database _ hready content hcontent).trans hdb.symm, fun v hv => ?_, hobj⟩
  have hsome := hvec v hv
  obtain ⟨vectors, hvectors⟩ := Option.ne_none_iff_exists'.1
    (hw.vectors _ hready (by rw [hsome]; exact Option.some_ne_none v))
  exact ⟨vectors, hvectors, Option.some.inj ((hc.vectors _ hready vectors hvectors).symm.trans hsome)⟩

namespace LocalServed

theorem object (h : LocalServed F s) (hsha : F.sha256 content = o) :
    LocalServed F (Effects.apply s (ServingEffect.object o content)) := by
  have hk : Keeps F s (Effects.apply s (ServingEffect.object o content)) := by
    intro o' content' hget hsha'
    by_cases ho : o = o'
    · subst ho
      exact ⟨content, by simp [Effects.apply, PyList.get?_insert], hsha⟩
    · exact ⟨content', by simp [Effects.apply, PyList.get?_insert, ho, hget], hsha'⟩
  exact ⟨fun channel p hp => (h.pointers channel p hp).mono hk rfl,
    fun id dir hdir => (h.coherent id dir hdir).mono hk⟩

theorem install (h : LocalServed F s) (hnone : PyList.get? s.generations id = none) (hc : Coherent F s id dir) :
    LocalServed F (Effects.apply s (ServingEffect.install id dir)) := by
  have hk : Keeps F s (Effects.apply s (ServingEffect.install id dir)) := Keeps.of_eq rfl
  refine ⟨fun channel p hp => ?_, fun id' dir' hdir => ?_⟩
  · have hr := h.pointers channel p hp
    refine hr.mono hk ?_
    obtain ⟨dir', -, -, -, -, hdir, -⟩ := hr
    have hne : ¬ id = p.generationId := fun he => by rw [he, hdir] at hnone; cases hnone
    exact (PyList.get?_insert ..).trans (if_neg hne)
  · have hget := (PyList.get?_insert id id' dir s.generations).symm.trans hdir
    split at hget
    · rename_i heq
      obtain rfl := Option.some.inj hget
      exact heq ▸ hc.mono hk
    · exact (h.coherent id' dir' hget).mono hk

theorem pointer (h : LocalServed F s) (hr : Resolves F s p) (channel : Str) :
    LocalServed F (Effects.apply s (ServingEffect.pointer channel p)) := by
  have hk : Keeps F s (Effects.apply s (ServingEffect.pointer channel p)) := Keeps.of_eq rfl
  refine ⟨fun channel' p' hp => ?_, fun id dir hdir => (h.coherent id dir hdir).mono hk⟩
  have hget := (PyList.get?_insert channel channel' p s.pointers).symm.trans hp
  split at hget
  · obtain rfl := Option.some.inj hget
    exact hr.mono hk rfl
  · exact (h.pointers channel' p' hget).mono hk rfl

/-- Fewer files of a generation that no pointer names. -/
theorem shrink (h : LocalServed F s) (hobj : s'.objects = s.objects) (hptr : s'.pointers = s.pointers)
    (hgen : ∀ id', id' ≠ id → PyList.get? s'.generations id' = PyList.get? s.generations id')
    (hid : ∀ dir, PyList.get? s'.generations id = some dir → Coherent F s id dir)
    (hfree : ∀ channel p, PyList.get? s.pointers channel = some p → p.generationId ≠ id) : LocalServed F s' := by
  have hk : Keeps F s s' := Keeps.of_eq hobj
  refine ⟨fun channel p hp => ?_, fun id' dir hdir => ?_⟩
  · rw [hptr] at hp
    exact (h.pointers channel p hp).mono hk (hgen _ (hfree channel p hp))
  · by_cases he : id' = id
    · subst he
      exact (hid dir hdir).mono hk
    · exact (h.coherent id' dir ((hgen id' he).symm.trans hdir)).mono hk

theorem coherent_unlink (hc : Coherent F s id dir) (file : GenerationFile) : Coherent F s id (dir.unlink file) := by
  cases file with
  | ready => exact ⟨nofun, nofun, nofun⟩
  | manifest => exact ⟨fun _ _ => nofun, hc.database, hc.vectors⟩
  | database => exact ⟨hc.manifest, fun _ _ => nofun, hc.vectors⟩
  | vectors => exact ⟨hc.manifest, hc.database, fun _ _ => nofun⟩

end LocalServed

theorem get?_unlink (file : GenerationFile) {id' : Str} (hne : id' ≠ id) :
    PyList.get? (Effects.apply s (ServingEffect.unlink id file)).generations id' = PyList.get? s.generations id' := by
  simp only [Effects.apply]
  cases PyList.get? s.generations id with
  | none => rfl
  | some dir => exact (PyList.get?_insert ..).trans (if_neg hne.symm)

theorem get?_rmdir {id' : Str} (hne : id' ≠ id) :
    PyList.get? (Effects.apply s (ServingEffect.rmdir id)).generations id' = PyList.get? s.generations id' := by
  have hfilter := PyList.get?_filter (fun k => decide (k ≠ id)) s.generations id'
  rw [if_pos (by simpa using hne)] at hfilter
  exact hfilter

theorem LocalServed.unlink (h : LocalServed F s) (file : GenerationFile)
    (hfree : ∀ channel p, PyList.get? s.pointers channel = some p → p.generationId ≠ id) :
    LocalServed F (Effects.apply s (ServingEffect.unlink id file)) := by
  refine h.shrink rfl rfl (fun id' hne => get?_unlink file hne) (fun dir hdir => ?_) hfree
  simp only [Effects.apply] at hdir
  cases hget : PyList.get? s.generations id with
  | none => simp [hget] at hdir
  | some dir' =>
    rw [hget, Option.elim_some, PyList.get?_insert, if_pos rfl] at hdir
    obtain rfl := Option.some.inj hdir
    exact coherent_unlink (h.coherent id dir' hget) file

theorem LocalServed.rmdir (h : LocalServed F s)
    (hfree : ∀ channel p, PyList.get? s.pointers channel = some p → p.generationId ≠ id) :
    LocalServed F (Effects.apply s (ServingEffect.rmdir id)) := by
  refine h.shrink rfl rfl (fun id' hne => get?_rmdir hne) (fun dir hdir => ?_) hfree
  have hfilter := PyList.get?_filter (fun k => decide (k ≠ id)) s.generations id
  rw [if_neg (by simp)] at hfilter
  exact absurd (hfilter.symm.trans hdir) nofun

/-! ### The publication -/

/-- Pointers resolve, and the generation that the channel pointed to before is as it was. -/
def Fine (F : Formats) (q : LocalPublication) (s₀ s : Serving) : Prop :=
  LocalServed F s ∧ ∀ p ∈ PyList.get? s₀.pointers q.channel,
    PyList.get? s.generations p.generationId = PyList.get? s₀.generations p.generationId

open Program (Ends)

/-- The objects of the publication are put in. -/
def Stocked (F : Formats) (s₀ : Serving) (done : List (Bytes × Str × Nat)) (s : Serving) : Prop :=
  s.generations = s₀.generations ∧ s.pointers = s₀.pointers ∧ HasObjects F s (done.map (·.2.1))

theorem Fine.of_generations (h : LocalServed F s) (hg : s.generations = s₀.generations) : Fine F q s₀ s :=
  ⟨h, fun _ _ => by rw [hg]⟩

theorem stocked_concat {done : List (Bytes × Str × Nat)} {x : Bytes × Str × Nat} (h : Stocked F s₀ done s)
    (hx : PyList.get? s.objects x.2.1 = some content) (hsha : F.sha256 content = x.2.1) :
    Stocked F s₀ (done ++ [x]) s := by
  refine ⟨h.1, h.2.1, fun o ho => ?_⟩
  rw [List.map_append] at ho
  rcases List.mem_append.1 ho with ho | ho
  · exact h.2.2 o ho
  · rw [List.map_singleton, List.mem_singleton] at ho
    exact ⟨content, ho ▸ hx, ho ▸ hsha⟩

theorem ends_publishObject {done : List (Bytes × Str × Nat)} {x : Bytes × Str × Nat} (hI : Fine F q s₀ s)
    (h : Stocked F s₀ done s) :
    Ends (Fine F q s₀) (publishObject F x) (fun _ => Stocked F s₀ (done ++ [x])) s := by
  have hput : ¬ identity F x.1 ≠ x.2 →
      Ends (Fine F q s₀) (Program.emit (ServingEffect.object x.2.1 x.1) : ServingAct Unit)
      (fun _ => Stocked F s₀ (done ++ [x])) s := by
    intro hid
    have hsha : F.sha256 x.1 = x.2.1 := congrArg Prod.fst (not_not.1 hid)
    have hserved := hI.1.object (o := x.2.1) hsha
    refine .emit hI (.of_generations hserved h.1) ?_
    have hstock : Stocked F s₀ done (Effects.apply s (ServingEffect.object x.2.1 x.1)) := by
      refine ⟨h.1, h.2.1, fun o ho => ?_⟩
      obtain ⟨content, hget, hsha'⟩ := h.2.2 o ho
      by_cases he : x.2.1 = o
      · exact ⟨x.1, (PyList.get?_insert ..).trans (if_pos he), he ▸ hsha⟩
      · exact ⟨content, ((PyList.get?_insert ..).trans (if_neg he)).trans hget, hsha'⟩
    exact stocked_concat hstock ((PyList.get?_insert ..).trans (if_pos rfl)) hsha
  refine .bind (.look hI ?_)
  cases hget : PyList.get? s.objects x.2.1 with
  | none =>
    dsimp only
    split
    · exact .raise hI
    · exact hput ‹_›
  | some content =>
    dsimp only
    split
    · rename_i hid
      exact .pure hI (stocked_concat h hget (congrArg Prod.fst hid))
    · split
      · exact .raise hI
      · exact hput ‹_›

/-- What the checks on the staged files say. -/
def Staged (F : Formats) (q : LocalPublication) : Prop :=
  ∃ m, F.parseManifest q.manifestBody = some m ∧ m.generationId = q.generationId ∧
    m.servingDatabase = identity F q.database ∧ ∀ v ∈ m.vectorSidecar, (q.ready F).vectorSidecar = some v

theorem ends_checkStaged (hI : Fine F q s₀ s) {R : Serving → Prop} (hR : R s) :
    Ends (Fine F q s₀) (checkStaged F q) (fun _ s => Staged F q ∧ R s) s := by
  unfold checkStaged
  cases hm : F.parseManifest q.manifestBody with
  | none => exact .raise hI
  | some m =>
    dsimp only
    split
    · exact .raise hI
    · rename_i hid
      split
      · exact .raise hI
      · rename_i hdb
        split
        · exact .raise hI
        · rename_i hvec
          refine .pure hI ⟨⟨m, hm, not_not.1 hid, (not_not.1 hdb).symm, fun v hv => ?_⟩, hR⟩
          have hsome : m.vectorSidecar = some v := hv
          by_contra hne
          exact hvec ⟨by rw [hsome]; rfl, fun he => hne (he.trans hsome)⟩

/-- The staged generation is coherent and whole. -/
theorem coherent_dir (hst : Staged F q) (hc : Careful F s₀ q) (h : Stocked F s₀ q.uniqueObjects s) :
    Coherent F s q.generationId (q.dir F) ∧ Whole (q.dir F) := by
  obtain ⟨m, hm, hid, hdb, hvec⟩ := hst
  refine ⟨⟨?_, ?_, ?_⟩, ⟨nofun, nofun, nofun, ?_⟩⟩
  · intro ready hready body hbody
    obtain rfl := Option.some.inj hready
    obtain rfl := Option.some.inj hbody
    exact ⟨rfl, m, hm, hid, hdb, hvec, fun o ho => h.2.2 o (hc.listed m hm o ho)⟩
  · intro ready hready content hcontent
    obtain rfl := Option.some.inj hready
    obtain rfl := Option.some.inj hcontent
    rfl
  · intro ready hready content hcontent
    obtain rfl := Option.some.inj hready
    have hv : q.vectors = some content := hcontent
    simp only [LocalPublication.ready, hv, Option.map_some]
  · intro ready hready hne hv
    obtain rfl := Option.some.inj hready
    have hv' : q.vectors = none := hv
    exact hne (by simp only [LocalPublication.ready, hv', Option.map_none])

/-- The generation is in place, whole if its pointer is to be written, and the pointers are as before. -/
structure InPlace (F : Formats) (q : LocalPublication) (s₀ s : Serving) : Prop where
  generations : s.generations = installed F q s₀
  pointers : s.pointers = s₀.pointers
  resolves : q.fence = true → Resolves F s (q.pointer F)

theorem ends_installGeneration (h₀ : LocalServed F s₀) (hspace : q.enoughSpace = true) (hI : Fine F q s₀ s) (hst : Staged F q) (hc : Careful F s₀ q)
    (h : Stocked F s₀ q.uniqueObjects s) :
    Ends (Fine F q s₀) (installGeneration F q) (fun _ => InPlace F q s₀) s := by
  refine .bind (.look hI ?_)
  cases hget : PyList.get? s.generations q.generationId with
  | some dir =>
    dsimp only
    split
    · rename_i hready
      have hget₀ : PyList.get? s₀.generations q.generationId = some dir := h.1 ▸ hget
      refine .pure hI ⟨?_, h.2.1, fun hfence =>
        resolves_pointer hget hready (hc.whole hspace hfence dir hget₀ hready) (hI.1.coherent _ _ hget)⟩
      rw [installed, hget₀, if_pos Option.isSome_some]
      exact h.1
    · exact .raise hI
  | none =>
    have hget₀ : PyList.get? s₀.generations q.generationId = none := h.1 ▸ hget
    obtain ⟨hco, hw⟩ := coherent_dir hst hc h
    have hserved := hI.1.install hget hco
    have hnew : PyList.get? (Effects.apply s (ServingEffect.install q.generationId (q.dir F))).generations
        q.generationId = some (q.dir F) := (PyList.get?_insert ..).trans (if_pos rfl)
    refine .emit hI ⟨hserved, fun p hp => ?_⟩ ⟨?_, h.2.1,
      fun _ => resolves_pointer hnew rfl hw (hserved.coherent _ _ hnew)⟩
    · obtain ⟨dir, -, -, -, -, hdir, -⟩ := h₀.pointers _ p hp
      have hne : ¬ q.generationId = p.generationId := fun he => by rw [he, hdir] at hget₀; cases hget₀
      exact ((PyList.get?_insert ..).trans (if_neg hne)).trans (by rw [h.1])
    · rw [installed, hget₀, if_neg (by simp)]
      simp only [Effects.apply, h.1]

/-- What retention goes by: the pointers are those after the replacement, and kept generations are as they
were. -/
structure Retained (s₁ : Serving) (keep : List Str) (s : Serving) : Prop where
  pointers : s.pointers = s₁.pointers
  generations : ∀ id ∈ keep, PyList.get? s.generations id = PyList.get? s₁.generations id

theorem ends_removeTree {s₁ : Serving} {keep : List Str} (hid : id ∉ keep)
    (hnamed : ∀ channel p, PyList.get? s₁.pointers channel = some p → p.generationId ∈ keep)
    (hprev : ∀ p ∈ PyList.get? s₀.pointers q.channel, p.generationId ∈ keep) (hI : Fine F q s₀ s)
    (h : Retained s₁ keep s) : Ends (Fine F q s₀) (removeTree q id) (fun _ => Retained s₁ keep) s := by
  have hne : ∀ {id'}, id' ∈ keep → id' ≠ id := fun hk he => hid (he ▸ hk)
  have hfree : ∀ {s : Serving}, Retained s₁ keep s →
      ∀ channel p, PyList.get? s.pointers channel = some p → p.generationId ≠ id :=
    fun hr channel p hp => hne (hnamed channel p (hr.pointers ▸ hp))
  refine .bind ((Ends.forM (fun _ => Retained s₁ keep) [] (fun done file s _ hI hr => ?_) hI h).mono
    fun _ s hI hr => ?_)
  · refine .emit hI ⟨hI.1.unlink file (hfree hr), fun p hp => ?_⟩ ⟨hr.pointers, fun id' hk => ?_⟩
    · exact (get?_unlink file (hne (hprev p hp))).trans (hI.2 p hp)
    · exact (get?_unlink file (hne hk)).trans (hr.generations id' hk)
  · split
    · refine .emit hI ⟨hI.1.rmdir (hfree hr), fun p hp => ?_⟩ ⟨hr.pointers, fun id' hk => ?_⟩
      · exact (get?_rmdir (hne (hprev p hp))).trans (hI.2 p hp)
      · exact (get?_rmdir (hne hk)).trans (hr.generations id' hk)
    · exact .pure hI hr

theorem ends_publishSync (h₀ : LocalServed F s₀) (hc : Careful F s₀ q) :
    Ends (Fine F q s₀) (publishSync F q) (fun _ _ => True) s₀ := by
  have hI₀ : Fine F q s₀ s₀ := ⟨h₀, fun _ _ => rfl⟩
  unfold publishSync
  split
  · exact .raise hI₀
  rename_i hspace
  rw [Bool.not_eq_false] at hspace
  refine .bind ((Ends.forM (Stocked F s₀) [] (fun done x s _ hI h => ends_publishObject hI h) hI₀
    ⟨rfl, rfl, fun _ h => absurd h List.not_mem_nil⟩).mono fun _ s hI h => ?_)
  rw [List.nil_append] at h
  refine .bind ((ends_checkStaged hI h).mono fun _ s hI hst => ?_)
  refine .bind ((ends_installGeneration h₀ hspace hI hst.1 hc hst.2).mono fun _ s hI hin => ?_)
  refine .bind (.look hI ?_)
  split
  · exact .raise hI
  rename_i hfence
  rw [Bool.not_eq_false] at hfence
  have hserved := hI.1.pointer (hin.resolves hfence) q.channel
  refine .bind (.emit hI ⟨hserved, hI.2⟩ (.bind (.look ⟨hserved, hI.2⟩ ?_)))
  -- the rule keeps the generations of all pointers and the one before
  have hkeep : retainGens q ((PyList.get? s.pointers q.channel).map (·.generationId))
      ((Effects.apply s (ServingEffect.pointer q.channel (q.pointer F))).generations.map (·.1)) =
      retainGens q ((PyList.get? s₀.pointers q.channel).map (·.generationId)) ((installed F q s₀).map (·.1)) := by
    rw [hin.pointers, show (Effects.apply s (ServingEffect.pointer q.channel (q.pointer F))).generations =
      installed F q s₀ from hin.generations]
  rw [hkeep]
  have hnamed : ∀ channel p,
      PyList.get? (Effects.apply s (ServingEffect.pointer q.channel (q.pointer F))).pointers channel = some p →
      p.generationId ∈ retainGens q ((PyList.get? s₀.pointers q.channel).map (·.generationId))
        ((installed F q s₀).map (·.1)) := by
    intro channel p hp
    have hget := (PyList.get?_insert q.channel channel (q.pointer F) s.pointers).symm.trans hp
    split at hget
    · obtain rfl := Option.some.inj hget
      exact List.mem_cons_self
    · rename_i hne
      rw [hin.pointers] at hget
      exact hc.others hspace hfence channel p (Ne.symm hne) hget
  have hprev : ∀ p ∈ PyList.get? s₀.pointers q.channel, p.generationId ∈
      retainGens q ((PyList.get? s₀.pointers q.channel).map (·.generationId)) ((installed F q s₀).map (·.1)) := by
    intro p hp
    have hp' : PyList.get? s₀.pointers q.channel = some p := hp
    unfold retainGens
    rw [hp', Option.map_some]
    dsimp only
    by_cases he : p.generationId = q.generationId
    · rw [he]
      exact List.mem_cons_self
    · rw [if_pos he]
      simp
  refine (Ends.forM (fun _ => Retained (Effects.apply s (ServingEffect.pointer q.channel (q.pointer F))) _) []
    (fun done id s hid hI hr => ends_removeTree ?_ hnamed hprev hI hr) ⟨hserved, hI.2⟩ ⟨rfl, fun _ _ => rfl⟩).mono
    fun _ _ _ _ => trivial
  exact of_decide_eq_true (List.mem_filter.1 hid).2

theorem pointers_of_effects {es : List ServingEffect} (h : ∀ e ∈ es, ∀ channel p, e ≠ .pointer channel p) :
    (Program.after s es).pointers = s.pointers := by
  induction es generalizing s with
  | nil => rfl
  | cons e es ih =>
    have hrest := ih (s := Effects.apply s e) fun e he => h e (List.mem_cons_of_mem _ he)
    refine hrest.trans ?_
    cases e with
    | pointer channel p => exact absurd rfl (h _ List.mem_cons_self channel p)
    | object => rfl
    | install => rfl
    | unlink => rfl
    | rmdir => rfl

theorem orderly (h : LocalServed F s) (hc : Careful F s q) : Orderly F s q where
  served k := ((ends_publishSync h hc).cuts k).1
  unchanged _ hk := pointers_of_effects hk
  previous p hp k := ((ends_publishSync h hc).cuts k).2 p hp

/-- In a run of publications that meet the condition, every pointer resolves at every moment, a
publication that stops before its pointer changes none, and the generation its channel pointed to stays. -/
theorem pointers_resolve (hs : LocalServed F s) {qs : List LocalPublication}
    (hc : Along (publishStep F) (fun s q _ => Careful F s q) s qs) :
    Along (publishStep F) (fun s q _ => Orderly F s q) s qs ∧ LocalServed F (runFrom (publishStep F) s qs) :=
  Along.of_inv (I := LocalServed F) (C := fun s q _ => Careful F s q) (P := fun s q _ => Orderly F s q)
    (fun s q h hc => ⟨(orderly h hc).served (q.stopped.getD (publishSync F q s).1.length), orderly h hc⟩) hs hc

end

/-! Two channels in one directory. Digests are the bytes as characters, and the body of a manifest is its
generation id. -/

def Serving.empty : Serving := ⟨[], [], []⟩

def letters : Formats where
  sha256 content := content.map fun b => Char.ofNat b.toNat
  readySha256 ready := ready.manifestSha256
  parseManifest body := some ⟨body.map fun b => Char.ofNat b.toNat, ([], 0), none, []⟩

def plainPublication (channel : Str) (generation : UInt8) : LocalPublication :=
  ⟨channel, [Char.ofNat generation.toNat], [], [generation], none, [], true, true, id,
    fun _ => ([.ready, .manifest, .database, .vectors], true), none⟩

theorem served_empty : LocalServed letters .empty := ⟨nofun, nofun⟩

/-- The second generation of a channel takes the only generation of the other one away. -/
theorem other_channel_pruned :
    (∀ q ∈ [plainPublication "a".toList 49, plainPublication "b".toList 50, plainPublication "b".toList 51],
      ∀ m ∈ letters.parseManifest q.manifestBody, ∀ o ∈ m.objects, o ∈ q.uniqueObjects.map (·.2.1)) ∧
    LocalServed letters .empty ∧
    ¬ LocalServed letters (runFrom (publishStep letters) .empty
      [plainPublication "a".toList 49, plainPublication "b".toList 50, plainPublication "b".toList 51]) := by
  refine ⟨by decide, served_empty, fun h => ?_⟩
  obtain ⟨dir, -, -, -, -, hdir, -⟩ := h.pointers "a".toList ⟨"1".toList, "1".toList, "1".toList⟩ (by decide)
  have hnone : PyList.get? (runFrom (publishStep letters) .empty [plainPublication "a".toList 49,
      plainPublication "b".toList 50, plainPublication "b".toList 51]).generations "1".toList = none := by decide
  exact absurd (hnone.symm.trans hdir) nofun

/-- With one generation each, both stay. -/
theorem pointers_resolve_two_channels : Along (publishStep letters) (fun s q _ => Orderly letters s q) .empty
    [plainPublication "a".toList 49, plainPublication "b".toList 50] ∧
    LocalServed letters (runFrom (publishStep letters) .empty
      [plainPublication "a".toList 49, plainPublication "b".toList 50]) := by
  refine pointers_resolve served_empty ⟨⟨nofun, fun _ _ => nofun, fun _ _ => nofun⟩, ⟨?_, fun _ _ => nofun, fun _ _ => ?_⟩, trivial⟩
  · intro m hm o ho
    obtain rfl := Option.some.inj hm
    cases ho
  · intro channel p hne hp
    have hmem := PyList.mem_of_get? hp
    have hall : ∀ e ∈ (publishStep letters .empty (plainPublication "a".toList 49)).pointers,
        e.2.generationId = "1".toList := by decide
    rw [hall _ hmem]
    decide

end CardRag.Publish
