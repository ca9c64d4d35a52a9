import CardRag.Generations.Pointer
import CardRag.Generations.Poll

/-! # Integrity of the local generations

A prune marks the objects of the directories it leaves, so what it can take from the updater is what a
candidate has synchronised and no directory refers to yet, and a candidate's directory itself. As long
as it finds both covered, `current.json` names a generation with its database and its PDFs. -/

namespace CardRag.Generations

variable {s : Settings} {st : Store} {d : Disk} {id digest : Str} {dir : GenerationDir} {database : Database}

/-- A generation that `current.json` names has its directory, its database and the PDFs that the
database refers to. -/
def Intact (d : Disk) : Prop :=
  ∀ id, d.current = some id → isGenerationId id = true → ∃ dir database, d.find id = some dir ∧
    dir.database = some database ∧ ∀ row ∈ database.documents, d.hasObject row.pdfSha256 = true

theorem hasObject_iff : d.hasObject digest = true ↔ ∃ o ∈ d.objects, o.name = digest := by simp [Disk.hasObject]

theorem has_of_find (h : d.find id = some dir) : d.has id = true :=
  has_iff.2 ⟨dir, List.mem_of_find?_eq_some h, by simpa using List.find?_some h⟩

/-! ### What a prune marks -/

/-- A directory that the prune leaves refers to the digest, or nothing is pruned of the objects because
some database cannot be read. -/
def Marked (s : Settings) (st : Store) (digest : Str) : Prop :=
  ∀ digests, referenced { st.disk with generations := st.disk.generations.filter fun g => Keeps s st g.name } =
    some digests → digest ∈ digests

theorem mem_of_mapM {α β : Type} {f : α → Option β} {xs : List α} {ys : List β} (h : xs.mapM f = some ys) {x : α}
    (hx : x ∈ xs) : ∃ y ∈ ys, f x = some y := by
  induction xs generalizing ys with
  | nil => cases hx
  | cons a xs ih =>
    simp only [List.mapM_cons, Option.bind_eq_bind, Option.bind_eq_some_iff] at h
    obtain ⟨b, hb, bs, hbs, hys⟩ := h
    cases Option.some.inj hys
    rcases List.mem_cons.1 hx with rfl | hx
    · exact ⟨b, List.mem_cons_self, hb⟩
    · obtain ⟨y, hy, hf⟩ := ih hbs hx
      exact ⟨y, List.mem_cons_of_mem _ hy, hf⟩

theorem marked_of_dir (hdir : dir ∈ st.disk.generations) (hid : isGenerationId dir.name = true)
    (hkeeps : Keeps s st dir.name) (hdb : dir.database = some database) {row : Document} (hrow : row ∈ database.documents) :
    Marked s st row.pdfSha256 := by
  intro digests hdigests
  rw [referenced, Option.map_eq_some_iff] at hdigests
  obtain ⟨lists, hlists, rfl⟩ := hdigests
  have hmem : dir ∈ Disk.named { st.disk with generations := st.disk.generations.filter fun g => Keeps s st g.name } := by
    simp [Disk.named, hdir, hkeeps, hid]
  obtain ⟨list, hlist, hf⟩ := mem_of_mapM hlists hmem
  rw [GenerationDir.digests, hdb] at hf
  cases Option.some.inj hf
  exact List.mem_flatten.2 ⟨_, hlist, List.mem_map_of_mem hrow⟩

theorem hasObject_prune (h : st.disk.hasObject digest = true) (hmarked : Marked s st digest) :
    (prune s st).disk.hasObject digest = true := by
  obtain ⟨o, ho, rfl⟩ := hasObject_iff.1 h
  rw [prune_disk, hasObject_iff]
  unfold pruneCas
  split
  · exact ⟨o, ho, rfl⟩
  · rename_i digests hdigests
    refine ⟨o, ?_, rfl⟩
    simp [ho, hmarked digests hdigests]

theorem find_prune (h : st.disk.find id = some dir) (hkeeps : Keeps s st id) : (prune s st).disk.find id = some dir := by
  rw [Disk.find, prune_generations, List.find?_filter, ← h, Disk.find]
  congr 1
  funext g
  by_cases hg : g.name = id
  · simp [hg, hkeeps]
  · simp [hg]

theorem keeps_of_covered (h : Covered s st id) : Keeps s st id := fun _ => mem_retained_iff.2 h

/-- A directory that the prune leaves keeps its place and the PDFs of its database. -/
theorem generation_prune (hfind : st.disk.find id = some dir) (hdb : dir.database = some database)
    (hid : isGenerationId id = true) (hcovered : Covered s st id)
    (hpdfs : ∀ row ∈ database.documents, st.disk.hasObject row.pdfSha256 = true) :
    ∀ row ∈ database.documents, (prune s st).disk.hasObject row.pdfSha256 = true := by
  intro row hrow
  have hname : dir.name = id := by simpa using List.find?_some hfind
  have hkeeps : Keeps s st dir.name := hname ▸ keeps_of_covered hcovered
  exact hasObject_prune (hpdfs row hrow) (marked_of_dir (List.mem_of_find?_eq_some hfind) (hname ▸ hid) hkeeps hdb hrow)

theorem Intact.prune (h : Intact st.disk)
    (hcovered : ∀ id, st.disk.current = some id → isGenerationId id = true → st.disk.has id = true → Covered s st id) :
    Intact (prune s st).disk := by
  intro id hcurrent hid
  rw [prune_current] at hcurrent
  obtain ⟨dir, database, hfind, hdb, hpdfs⟩ := h id hcurrent hid
  have hc := hcovered id hcurrent hid (has_of_find hfind)
  exact ⟨dir, database, find_prune hfind (keeps_of_covered hc), hdb, generation_prune hfind hdb hid hc hpdfs⟩

/-! ### The candidate -/

/-- How far a candidate is, with `documents` still to synchronise. -/
structure Candidate.Ready (c : Candidate) (d : Disk) (documents : List Document) : Prop where
  isId : isGenerationId c.handle.generationId = true
  placed : c.placed = true → ∃ dir, d.find c.handle.generationId = some dir ∧ dir.database = some c.handle.database
  synced : ∀ digest ∈ c.synced, d.hasObject digest = true
  rows : ∀ row ∈ c.handle.database.documents, row.pdfSha256 ∈ c.synced ∨ row ∈ documents

theorem Candidate.Ready.prune {c : Candidate} {documents : List Document} (h : c.Ready st.disk documents)
    (hplaced : c.placed = true → Covered s st c.handle.generationId) (hsynced : ∀ digest ∈ c.synced, Marked s st digest) :
    c.Ready (prune s st).disk documents where
  isId := h.isId
  placed hp := by
    obtain ⟨dir, hfind, hdb⟩ := h.placed hp
    exact ⟨dir, find_prune hfind (keeps_of_covered (hplaced hp)), hdb⟩
  synced digest hd := hasObject_prune (h.synced digest hd) (hsynced digest hd)
  rows := h.rows

/-- What the phase of the poll says of the state root. -/
def Phase.Holds (d : Disk) : Phase → Prop
  | .syncing c documents => c.Ready d documents
  | .verifying c _ => c.Ready d []
  | _ => True

structure System.Inv (sys : System) : Prop where
  process : sys.store.process.Inv
  intact : Intact sys.store.disk
  phase : sys.phase.Holds sys.store.disk

/-! ### Releases -/

/-- A release that prunes covers what `current.json` names and a candidate in place, and marks what the
candidate has synchronised. -/
def ReleasesSpare (s : Settings) (sys : System) (e : Event) (_ : System) : Prop :=
  ∀ k, sys.releases e = some k → prunes s sys.store (.release k) = true →
    let st := unpruned s sys.store (.release k)
    (∀ id, st.disk.current = some id → isGenerationId id = true → st.disk.has id = true → Covered s st id) ∧
    ∀ c, sys.phase.candidate = some c →
      (c.placed = true → Covered s st c.handle.generationId) ∧ ∀ digest ∈ c.synced, Marked s st digest

/-- The state root is intact after the step, and a release keeps what the candidate has
synchronised. -/
def Integrity (sys : System) (e : Event) (after : System) : Prop :=
  Intact after.store.disk ∧ ∀ k, sys.releases e = some k → ∀ c, sys.phase.candidate = some c →
    ∀ digest ∈ c.synced, sys.store.disk.hasObject digest = true → after.store.disk.hasObject digest = true

theorem Phase.Holds.prune {phase : Phase} (h : phase.Holds st.disk)
    (hspare : ∀ c, phase.candidate = some c →
      (c.placed = true → Covered s st c.handle.generationId) ∧ ∀ digest ∈ c.synced, Marked s st digest) :
    phase.Holds (prune s st).disk := by
  cases phase with
  | syncing c documents => exact Candidate.Ready.prune h (hspare c rfl).1 (hspare c rfl).2
  | verifying c rows => exact Candidate.Ready.prune h (hspare c rfl).1 (hspare c rfl).2
  | _ => trivial

theorem release_integrity {sys : System} {e : Event} {after : System} {k : Nat} (hinv : sys.Inv)
    (hk : sys.releases e = some k) (hspare : ReleasesSpare s sys e after) :
    Intact (perform s sys.store (.release k)).disk ∧ sys.phase.Holds (perform s sys.store (.release k)).disk ∧
      ∀ c, sys.phase.candidate = some c → ∀ digest ∈ c.synced, sys.store.disk.hasObject digest = true →
        (perform s sys.store (.release k)).disk.hasObject digest = true := by
  have hdisk := unpruned_release_disk s sys.store k
  have hintact := hdisk.symm ▸ hinv.intact
  have hphase := hdisk.symm ▸ hinv.phase
  rw [perform_eq]
  split
  · rename_i hprunes
    obtain ⟨hcurrent, hcandidate⟩ := hspare k hk hprunes
    refine ⟨hintact.prune hcurrent, hphase.prune hcandidate, fun c hc digest hd hhas => ?_⟩
    exact hasObject_prune (hdisk.symm ▸ hhas) ((hcandidate c hc).2 digest hd)
  · exact ⟨hintact, hphase, fun c hc digest hd hhas => hdisk.symm ▸ hhas⟩

/-! ### What only adds to the state root -/

structure Grows (d d' : Disk) : Prop where
  find : ∀ id dir, d.find id = some dir → d'.find id = some dir
  current : d'.current = d.current
  objects : ∀ digest, d.hasObject digest = true → d'.hasObject digest = true

theorem Intact.grows {d' : Disk} (h : Intact d) (hd : Grows d d') : Intact d' := by
  intro id hcurrent hid
  rw [hd.current] at hcurrent
  obtain ⟨dir, database, hfind, hdb, hpdfs⟩ := h id hcurrent hid
  exact ⟨dir, database, hd.find id dir hfind, hdb, fun row hrow => hd.objects _ (hpdfs row hrow)⟩

theorem Candidate.Ready.grows {c : Candidate} {documents : List Document} {d' : Disk} (h : c.Ready d documents)
    (hd : Grows d d') : c.Ready d' documents where
  isId := h.isId
  placed hp := by
    obtain ⟨dir, hfind, hdb⟩ := h.placed hp
    exact ⟨dir, hd.find _ dir hfind, hdb⟩
  synced digest hdigest := hd.objects digest (h.synced digest hdigest)
  rows := h.rows

theorem Phase.Holds.grows {phase : Phase} {d' : Disk} (h : phase.Holds d) (hd : Grows d d') : phase.Holds d' := by
  cases phase with
  | syncing c documents => exact Candidate.Ready.grows h hd
  | verifying c rows => exact Candidate.Ready.grows h hd
  | _ => trivial

theorem grows_roots (d : Disk) (roots : List (Str × Str)) : Grows d { d with roots } :=
  ⟨fun _ _ h => h, rfl, fun _ h => h⟩

theorem grows_install (d : Disk) (dir : GenerationDir) : Grows d { d with generations := d.generations ++ [dir] } where
  find id dir' h := by rw [Disk.find, List.find?_append, show d.generations.find? _ = _ from h]; rfl
  current := rfl
  objects _ h := h

theorem find_install (hnew : d.has dir.name = false) :
    Disk.find { d with generations := d.generations ++ [dir] } dir.name = some dir := by
  have hnone : d.generations.find? (·.name = dir.name) = none := by
    refine List.find?_eq_none.2 fun g hg hname => ?_
    rw [has_iff.2 ⟨g, hg, by simpa using hname⟩] at hnew
    cases hnew
  rw [Disk.find, List.find?_append, hnone]
  simp

theorem syncPdf_spec {d' : Disk} {document : Document} {download : CasObject}
    (h : syncPdf s d document download = .ok d') : Grows d d' ∧ d'.hasObject document.pdfSha256 = true := by
  unfold syncPdf at h
  simp only [Guard.bind_eq_ok, raiseIf_eq_ok, Guard.exists_unit] at h
  obtain ⟨-, -, h⟩ := h
  split at h
  · rename_i hany
    cases Guard.pure_eq_ok.1 h
    refine ⟨grows_roots d d.roots, hasObject_iff.2 ?_⟩
    obtain ⟨o, ho, hverifies⟩ := List.any_eq_true.1 hany
    exact ⟨o, ho, (of_decide_eq_true hverifies).1⟩
  · simp only [Guard.bind_eq_ok, raiseIf_eq_ok, Guard.exists_unit, Guard.pure_eq_ok] at h
    obtain ⟨-, -, rfl⟩ := h
    refine ⟨⟨fun _ _ h => h, rfl, fun digest hdigest => ?_⟩, hasObject_iff.2 ⟨_, List.mem_append_right _ (List.mem_singleton.2 rfl), rfl⟩⟩
    rw [hasObject_iff] at hdigest ⊢
    obtain ⟨o, ho, rfl⟩ := hdigest
    by_cases hname : o.name = document.pdfSha256
    · exact ⟨_, List.mem_append_right _ (List.mem_singleton.2 rfl), hname.symm⟩
    · exact ⟨o, List.mem_append_left _ (by simp [ho, hname]), rfl⟩

theorem validatedHandle_eq_ok {generation : RemoteGeneration} {handle : GenerationHandle}
    (h : validatedHandle s dir generation = .ok handle) :
    handle.generationId = dir.name ∧ isGenerationId dir.name = true ∧ dir.database = some handle.database ∧
      ∀ row ∈ handle.database.documents, row ∈ generation.documents := by
  unfold validatedHandle at h
  simp only [Guard.bind_eq_ok, raiseIf_eq_ok, Guard.exists_unit, Guard.pure_eq_ok] at h
  obtain ⟨-, _, hload, hbinding, rfl⟩ := h
  obtain ⟨hname, hdb⟩ := loadGenerationHandle_eq_ok hload
  have hid : isGenerationId dir.name = true := by
    unfold loadGenerationHandle at hload
    simp only [Guard.bind_eq_ok, raiseIf_eq_ok, Guard.exists_unit, Bool.not_eq_false] at hload
    exact hload.1
  refine ⟨hname, hid, hdb, fun row hrow => ?_⟩
  unfold verifyGenerationBinding at hbinding
  simp only [Guard.bind_eq_ok, raiseIf_eq_ok, Guard.exists_unit, Guard.forM_eq_ok, not_not] at hbinding
  exact (PyList.get?_dictOf_some (hbinding.2.2 row hrow)).1

/-! ### Every step -/

theorem activate_intact {c : Candidate} (hprocess : st.process.Inv) (hintact : Intact st.disk)
    (hready : c.Ready st.disk []) (hplaced : c.placed = true) (quota : Except Failure Unit) :
    Intact (perform s st (.activate c.handle quota)).disk := by
  rw [perform_eq]
  cases hrun : switch s st c.handle quota with
  | error failure => simpa [prunes, unpruned, hrun, Except.isOk, Except.toBool, Except.toOption] using hintact
  | ok switched =>
    have hunpruned : unpruned s st (.activate c.handle quota) = switched := by simp only [unpruned, hrun]; rfl
    obtain ⟨hcurrent, hactive⟩ := active_of_switch hprocess hrun
    have hdisk := (switch_eq_ok hrun).1
    rw [if_pos (by simp [prunes, hrun, Except.isOk, Except.toBool]), hunpruned]
    refine Intact.prune ?_ fun id hid _ _ => .inl (hactive.trans (hcurrent.symm.trans hid))
    -- the pointer now names the candidate, whose loops are done
    rw [hdisk]
    intro id hid _
    cases Option.some.inj hid
    obtain ⟨dir, hfind, hdb⟩ := hready.placed hplaced
    refine ⟨dir, c.handle.database, hfind, hdb, fun row hrow => ?_⟩
    rcases hready.rows row hrow with hsynced | hleft
    · exact hready.synced _ hsynced
    · cases hleft

namespace System

theorem Inv.start (hintact : Intact d) : (System.start d).Inv := ⟨Process.inv_start, hintact, trivial⟩

theorem Inv.idle {sys : System} (h : sys.Inv) : System.Inv { sys with phase := .idle } := ⟨h.process, h.intact, trivial⟩

theorem Inv.validate {sys : System} (h : sys.Inv) (generation : RemoteGeneration) (existing : Bool) :
    (System.validate s sys generation existing).Inv := by
  unfold System.validate
  dsimp only
  split
  · exact h.idle
  · rename_i directory hdirectory
    split
    · exact h.idle
    · rename_i handle hvalid
      obtain ⟨hname, hid, hdb, hrows⟩ := validatedHandle_eq_ok hvalid
      refine ⟨h.process, h.intact, ⟨hname ▸ hid, fun hplaced => ?_, nofun, fun row hrow => .inr (hrows row hrow)⟩⟩
      rw [if_pos hplaced] at hdirectory
      have hfind : directory.name = generation.generationId := by simpa using List.find?_some hdirectory
      exact ⟨directory, by rw [hname, hfind]; exact hdirectory, hdb⟩

theorem Inv.begin {sys : System} (h : sys.Inv) (generation : RemoteGeneration) : (sys.begin generation).Inv := by
  unfold System.begin
  split
  · exact h
  · split
    · split
      · exact h
      · rename_i entry hactive
        obtain ⟨_, hgen, -⟩ := h.process.active entry hactive
        exact ⟨h.process.take (Process.lt_of_generationOf hgen), h.intact, trivial⟩
    · exact ⟨h.process, h.intact, trivial⟩

theorem Inv.sync {store : Store} {c : Candidate} {document : Document} {documents : List Document}
    {download : CasObject} {disk : Disk} (h : System.Inv ⟨store, .syncing c (document :: documents)⟩)
    (hsync : syncPdf s store.disk document download = .ok disk) :
    System.Inv ⟨{ store with disk }, .syncing { c with synced := c.synced ++ [document.pdfSha256] } documents⟩ := by
  obtain ⟨hgrows, hhas⟩ := syncPdf_spec hsync
  have hready := Candidate.Ready.grows h.phase hgrows
  refine ⟨h.process, h.intact.grows hgrows, ⟨hready.isId, hready.placed, fun digest hdigest => ?_, fun row hrow => ?_⟩⟩
  · rcases List.mem_append.1 hdigest with hdigest | hdigest
    · exact hready.synced digest hdigest
    · rw [List.mem_singleton.1 hdigest]
      exact hhas
  · rcases hready.rows row hrow with hsynced | hleft
    · exact .inl (List.mem_append_left _ hsynced)
    · rcases List.mem_cons.1 hleft with rfl | hleft
      · exact .inl (List.mem_append_right _ (List.mem_singleton.2 rfl))
      · exact .inr hleft

theorem Inv.install {store : Store} {c : Candidate} {mtimeNs : Nat} (h : System.Inv ⟨store, .verifying c []⟩)
    (hnew : store.disk.has c.handle.generationId = false) :
    System.Inv ⟨{ store with disk := { store.disk with
        generations := store.disk.generations ++ [⟨c.handle.generationId, mtimeNs, some c.handle.database⟩] } },
      .verifying { c with placed := true } []⟩ := by
  have hgrows := grows_install store.disk ⟨c.handle.generationId, mtimeNs, some c.handle.database⟩
  have hready := Candidate.Ready.grows h.phase hgrows
  exact ⟨h.process, h.intact.grows hgrows, ⟨hready.isId, fun _ => ⟨_, find_install hnew, rfl⟩, hready.synced, hready.rows⟩⟩

/-- A step that releases a pin is that release; the poll has no candidate then. -/
theorem step_of_releases {sys : System} {e : Event} {k : Nat} (hk : sys.releases e = some k) :
    (sys.step s e).store = perform s sys.store (.release k) ∧
      ((sys.step s e).phase = sys.phase ∨ (sys.step s e).phase = .idle) := by
  obtain ⟨store, phase⟩ := sys
  cases e with
  | request request =>
    obtain ⟨operation, hrequest⟩ := request
    cases operation with
    | release k' => cases hk; exact ⟨rfl, .inl rfl⟩
    | _ => cases hk
  | poll step =>
    cases step with
    | close =>
      cases phase with
      | repairing entry documents =>
        cases documents with
        | nil => cases hk; exact ⟨rfl, .inr rfl⟩
        | cons document documents => cases hk
      | _ => cases hk
    | fail =>
      cases phase with
      | repairing entry documents => cases hk; exact ⟨rfl, .inr rfl⟩
      | _ => cases hk
    | _ => cases hk

theorem Inv.request {sys : System} (h : sys.Inv) (request : Request)
    (hnone : sys.releases (.request request) = none) : (sys.step s (.request request)).Inv := by
  obtain ⟨operation, hrequest⟩ := request
  obtain ⟨roots, hdisk⟩ := unpruned_disk s sys.store hrequest
  have hperform : (perform s sys.store operation).disk = { sys.store.disk with roots } := by
    rw [perform_eq, if_neg, hdisk]
    cases operation with
    | release k => cases hnone
    | activate handle quota => exact absurd rfl (hrequest handle quota)
    | _ => exact Bool.false_ne_true
  have hgrows : Grows sys.store.disk (perform s sys.store operation).disk := hperform ▸ grows_roots _ roots
  exact ⟨h.process.perform s operation, h.intact.grows hgrows, Phase.Holds.grows h.phase hgrows⟩

theorem Inv.poll {sys : System} (h : sys.Inv) (step : PollStep) (hnone : sys.releases (.poll step) = none) :
    (sys.pollStep s step).Inv := by
  obtain ⟨store, phase⟩ := sys
  cases step with
  | begin generation =>
    cases phase with
    | idle => exact h.begin generation
    | _ => exact h
  | validate =>
    cases phase with
    | validating generation existing => exact h.validate generation existing
    | _ => exact h
  | sync download =>
    cases phase with
    | repairing entry documents =>
      cases documents with
      | nil => exact h
      | cons document documents =>
        unfold System.pollStep
        dsimp only
        cases hsync : syncPdf s store.disk document download with
        | error failure => exact h
        | ok disk => exact ⟨h.process, h.intact.grows (syncPdf_spec hsync).1, trivial⟩
    | syncing c documents =>
      cases documents with
      | nil => exact h
      | cons document documents =>
        unfold System.pollStep
        dsimp only
        cases hsync : syncPdf s store.disk document download with
        | error failure => exact h.idle
        | ok disk => exact h.sync hsync
    | _ => exact h
  | verify =>
    cases phase with
    | syncing c documents =>
      cases documents with
      | nil => exact ⟨h.process, h.intact, h.phase⟩
      | cons document documents => exact h
    | verifying c rows =>
      cases rows with
      | nil => exact h
      | cons row rows =>
        unfold System.pollStep
        dsimp only
        cases verifyPdfForHandle s store.disk row with
        | error failure => exact h.idle
        | ok _ => exact ⟨h.process, h.intact, h.phase⟩
    | _ => exact h
  | install mtimeNs =>
    cases phase with
    | verifying c rows =>
      cases rows with
      | nil =>
        show System.Inv (ite _ _ (ite _ _ _))
        split
        · exact h
        · split
          · exact h.idle
          · rename_i hnew
            exact h.install (Bool.eq_false_iff.2 hnew)
      | cons row rows => exact h
    | _ => exact h
  | activate quota =>
    cases phase with
    | verifying c rows =>
      cases rows with
      | nil =>
        show System.Inv (ite _ _ _)
        split
        · rename_i hplaced
          exact ⟨h.process.perform s _, activate_intact h.process h.intact h.phase hplaced quota, trivial⟩
        · exact h
      | cons row rows => exact h
    | _ => exact h
  | close =>
    cases phase with
    | repairing entry documents =>
      cases documents with
      | nil => cases hnone
      | cons document documents => exact h
    | _ => exact h
  | fail =>
    cases phase with
    | repairing entry documents => cases hnone
    | _ => exact h.idle

theorem step_integrity {sys : System} {e : Event} (h : sys.Inv) (hspare : ReleasesSpare s sys e (sys.step s e)) :
    (sys.step s e).Inv ∧ Integrity sys e (sys.step s e) := by
  cases hk : sys.releases e with
  | none =>
    have hinv : (sys.step s e).Inv := by
      cases e with
      | request request => exact h.request request hk
      | poll step => exact h.poll step hk
    exact ⟨hinv, hinv.intact, fun k hk' => absurd (hk.symm.trans hk') nofun⟩
  | some k =>
    obtain ⟨hstore, hphase⟩ := step_of_releases (s := s) hk
    obtain ⟨hintact, hholds, hkept⟩ := release_integrity h hk hspare
    have hinv : (sys.step s e).Inv := by
      refine ⟨hstore ▸ h.process.perform s _, hstore ▸ hintact, ?_⟩
      rcases hphase with hphase | hphase
      · rw [hphase, hstore]
        exact hholds
      · rw [hphase]
        trivial
    refine ⟨hinv, hinv.intact, fun k' hk' c hc digest hdigest hhas => ?_⟩
    rw [hstore]
    exact hkept c hc digest hdigest hhas

end System

/-- From an intact state root, a run in which each release that prunes spares what the updater is
working on leaves the state root intact after every step. -/
theorem integrity_kept (s : Settings) (d : Disk) (events : List Event) (hintact : Intact d)
    (hspare : Along (System.step s) (ReleasesSpare s) (System.start d) events) :
    Along (System.step s) Integrity (System.start d) events :=
  (Along.of_inv (I := System.Inv) (fun _ _ hinv hc => System.step_integrity hinv hc) (System.Inv.start hintact) hspare).1

/-! ### A release while a generation is staged -/

def onePdf : Settings := ⟨2, 0, 1, two.two_le_retention⟩

def pdf : Document := ⟨"d".toList, List.replicate 64 'a', 1⟩

/-- `A` is current, and `B` is there as well. -/
def twoGenerations : Disk where
  generations := [⟨"A".toList, 1, some (emptyDatabase "A")⟩, ⟨"B".toList, 2, some (emptyDatabase "B")⟩]
  objects := []
  current := some "A".toList
  roots := []

def remoteB : RemoteGeneration := ⟨"B".toList, emptyDatabase "B", []⟩

def remoteC : RemoteGeneration := ⟨"C".toList, ⟨"C".toList, true, [pdf], 0⟩, [pdf]⟩

/-- A request pins `A`, and a poll activates `B`. -/
def pinnedBehind : List Event :=
  [.request ⟨.loadCurrent, nofun⟩, .request ⟨.pin, nofun⟩, .poll (.begin remoteB), .poll .validate, .poll .verify,
    .poll (.activate (.ok ()))]

theorem intact_twoGenerations : Intact twoGenerations := by
  intro id hid _
  cases Option.some.inj hid
  exact ⟨_, emptyDatabase "A", rfl, rfl, nofun⟩

theorem integrity_kept_pinnedBehind : Along (System.step onePdf) Integrity (System.start twoGenerations)
    (pinnedBehind ++ [.request ⟨.release 0, nofun⟩]) := by
  refine integrity_kept onePdf twoGenerations _ intact_twoGenerations ⟨nofun, nofun, nofun, nofun, nofun, nofun, ?_, trivial⟩
  rintro k hk -
  cases Option.some.inj hk
  refine ⟨fun id hid _ _ => .inl ?_, nofun⟩
  cases Option.some.inj hid
  decide

/-- The request ends between the verification of `C` and its activation. -/
theorem release_loses_staged : ¬ Along (System.step onePdf) Integrity (System.start twoGenerations)
    (pinnedBehind ++ [.poll (.begin remoteC), .poll .validate, .poll (.sync ⟨[], 1, true, List.replicate 64 'a'⟩),
      .poll .verify, .poll .verify, .request ⟨.release 0, nofun⟩, .poll (.install 3), .poll (.activate (.ok ()))]) := by
  rintro ⟨-, -, -, -, -, -, -, -, -, -, -, -, -, ⟨hintact, -⟩, -⟩
  obtain ⟨dir, database, hfind, hdb, hpdfs⟩ := hintact "C".toList (by decide) (by decide)
  have hdir : some dir = some ⟨"C".toList, 3, some remoteC.database⟩ := hfind.symm.trans (by decide)
  cases Option.some.inj hdir
  cases Option.some.inj hdb
  have hhas := hpdfs pdf (by decide)
  revert hhas
  decide

end CardRag.Generations
