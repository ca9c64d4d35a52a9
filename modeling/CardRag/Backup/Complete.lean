import CardRag.Backup.Scope

/-! # What completion stands for

The scope binds only paths that it allows, and it allows the objects of every selected document. A flush that
reports its scope complete has a receipt and an index entry for each of them, and no row. -/

namespace CardRag.Backup

open Publish (Path Bytes)
open Gc (objectPath cacheRoot manifestName readyName)

/-! ### The scope -/

/-- Bound paths are allowed. -/
def Scope.Bounded (c : Scope) : Prop := ∀ p ∈ c.expected.map (·.1), p ∈ c.paths

/-- A part of the planner: it forgets no path and binds only what it allows. -/
structure Extends (c c' : Scope) : Prop where
  paths : ∀ p ∈ c.paths, p ∈ c'.paths
  bounded : c.Bounded → c'.Bounded

namespace Extends

variable {c c' c'' : Scope}

theorem refl (c : Scope) : Extends c c := ⟨fun _ => id, id⟩

theorem trans (h : Extends c c') (h' : Extends c' c'') : Extends c c'' :=
  ⟨fun p hp => h'.paths p (h.paths p hp), fun hb => h'.bounded (h.bounded hb)⟩

theorem add (c : Scope) (p : Path) : Extends c (c.add p) :=
  ⟨fun _ => List.mem_cons_of_mem _, fun hb q hq => List.mem_cons_of_mem _ (hb q hq)⟩

theorem mark (c : Scope) (bound : List Str) : Extends c { c with bound } := ⟨fun _ => id, id⟩

theorem bind (c : Scope) (p : Path) (sha : Str) (size : Option Nat) : Extends c (c.bind p sha size) := by
  refine ⟨fun q hq => List.mem_cons_of_mem _ hq, fun hb q hq => ?_⟩
  simp only [Scope.bind] at hq ⊢
  have hold : q ∈ c.expected.map (·.1) → q ∈ p :: c.paths := fun h => List.mem_cons_of_mem _ (hb q h)
  split at hq
  · rw [PyList.keys_insert] at hq
    split at hq
    · exact hold hq
    · rcases List.mem_append.1 hq with hq | hq
      · exact hold hq
      · rw [List.mem_singleton.1 hq]
        simp
  · exact hold hq

theorem foldl {α : Type} {f : Scope → α → Scope} (hf : ∀ c x, Extends c (f c x)) (xs : List α) (c : Scope) :
    Extends c (xs.foldl f c) := by
  induction xs generalizing c with
  | nil => exact refl c
  | cons x xs ih => exact (hf c x).trans (ih _)

end Extends

theorem Scope.mem_bind (c : Scope) (p : Path) (sha : Str) (size : Option Nat) : p ∈ (c.bind p sha size).paths := by
  simp [Scope.bind]

section
variable (d : Disk) (s : State) (root : Str) (c : Scope) (doc : SealDoc)

theorem bindBundle_extends (b : Bundle) : Extends c (bindBundle d s root c doc b) :=
  (Extends.bind c _ _ _).trans ((Extends.bind _ _ _ _).trans ((Extends.bind _ _ _ _).trans (Extends.mark _ _)))

theorem bindPair_extends (key : Str) (generationOnly : Bool) (pair : (Str × Nat) × (Str × Nat)) :
    Extends c (bindPair d s root c doc key generationOnly pair) :=
  (Extends.bind c _ _ _).trans ((Extends.bind _ _ _ _).trans (Extends.mark _ _))

/-- The objects of the document come first, and the rest only adds to them. -/
theorem scopeDocument_extends :
    Extends (doc.refs.foldl (fun c ref => c.bind (objectPath ref.1) ref.1 ref.2)
      { c with bound := c.bound.filter fun id => some id ≠ doc.documentId }) (scopeDocument d s root c doc) := by
  unfold scopeDocument
  have hbundles := Extends.foldl (bindBundle_extends d s root · doc) (d.bundles doc)
  dsimp only
  split
  · exact hbundles _
  split
  · exact hbundles _
  split
  · exact (hbundles _).trans (bindPair_extends _ _ _ _ _ _ _ _)
  · exact (hbundles _).trans ((Extends.add _ _).trans (Extends.add _ _))

theorem refs_extends (refs : List (Str × Option Nat)) :
    Extends c (refs.foldl (fun c ref => c.bind (objectPath ref.1) ref.1 ref.2) c) :=
  Extends.foldl (fun c ref => Extends.bind c (objectPath ref.1) ref.1 ref.2) refs c

theorem mem_refs {refs : List (Str × Option Nat)} {ref : Str × Option Nat} (h : ref ∈ refs) :
    objectPath ref.1 ∈ (refs.foldl (fun c ref => c.bind (objectPath ref.1) ref.1 ref.2) c).paths := by
  induction refs generalizing c with
  | nil => cases h
  | cons r refs ih =>
    rcases List.mem_cons.1 h with rfl | h
    · exact (refs_extends _ refs).paths _ (Scope.mem_bind _ _ _ _)
    · exact ih _ h

theorem scopeDocument_extends_self : Extends c (scopeDocument d s root c doc) :=
  (Extends.mark c _).trans ((refs_extends _ doc.refs).trans (scopeDocument_extends d s root c doc))

theorem mem_scopeDocuments {docs : List SealDoc} (hdoc : doc ∈ docs) {ref : Str × Option Nat} (href : ref ∈ doc.refs) :
    objectPath ref.1 ∈ (docs.foldl (scopeDocument d s root) c).paths := by
  induction docs generalizing c with
  | nil => cases hdoc
  | cons doc' docs ih =>
    rcases List.mem_cons.1 hdoc with rfl | hdoc
    · exact (Extends.foldl (scopeDocument_extends_self d s root) docs _).paths _
        ((scopeDocument_extends d s root c doc).paths _ (mem_refs _ href))
    · exact ih _ hdoc

theorem scopeOwned_extends (docs : List SealDoc) (o : (Str × Str) × Option Owned) : Extends c (scopeOwned d docs c o) := by
  unfold scopeOwned
  dsimp only
  split
  · exact Extends.add _ _
  split
  · exact Extends.refl c
  split
  · split
    · exact Extends.foldl Extends.add _ c
    · exact Extends.add _ _
  · exact Extends.refl c

theorem rebind_extends (p : Path) : Extends c (rebind d s root c doc p) := by
  unfold rebind
  dsimp only
  split
  · exact Extends.refl c
  split
  · exact Extends.refl c
  split
  · exact Extends.refl c
  split
  · exact Extends.refl c
  · exact bindPair_extends _ _ _ _ _ _ _ _

theorem resolveTag_extends (p : Path) : Extends c (resolveTag s c doc p) := by
  unfold resolveTag
  split
  · exact Extends.refl c
  split
  · split
    · exact Extends.add c p
    split
    · exact Extends.refl c
    split
    · exact Extends.add c p
    · exact Extends.refl c
  split
  · exact Extends.refl c
  · exact Extends.add c p

/-- What the planner adds to the selected documents. -/
theorem scope_extends (docs : List SealDoc) (owned : List ((Str × Str) × Option Owned)) (tagged : List (SealDoc × Path)) :
    Extends c (tagged.foldl (fun c t => resolveTag s c t.1 t.2)
      (tagged.foldl (fun c t => rebind d s root c t.1 t.2) (owned.foldl (scopeOwned d docs) c))) :=
  (Extends.foldl (fun c o => scopeOwned_extends d c docs o) owned c).trans
    ((Extends.foldl (fun c t => rebind_extends d s root c t.1 t.2) tagged _).trans
      (Extends.foldl (fun c t => resolveTag_extends s c t.1 t.2) tagged _))

end

section
variable {d : Disk} {s : State} {root : Str} {issuers : List Str}

theorem scope_bounded {p : Path} (hp : p ∈ (scopedBackupScope d s root issuers).2.map (·.1)) :
    p ∈ (scopedBackupScope d s root issuers).1 := by
  unfold scopedBackupScope at hp ⊢
  split at hp
  · cases hp
  · rename_i documents hdocs
    have hempty : Scope.Bounded ⟨[], [], []⟩ := fun q hq => by cases hq
    exact (scope_extends d s root _ _ _ _).bounded
      ((Extends.foldl (scopeDocument_extends_self d s root) _ _).bounded hempty) p hp

/-- The PDF and the OCR of every selected document are in scope. -/
theorem scope_objects {documents : List SealDoc} (hdocs : d.documents = some documents) {doc : SealDoc}
    (hdoc : doc ∈ documents) (hissuer : doc.issuer ∈ issuers) {ref : Str × Option Nat} (href : ref ∈ doc.refs) :
    objectPath ref.1 ∈ (scopedBackupScope d s root issuers).1 := by
  unfold scopedBackupScope
  rw [hdocs]
  dsimp only
  exact (scope_extends d s root _ _ _ _).paths _
    (mem_scopeDocuments d s root _ _ (List.mem_filter.2 ⟨hdoc, by simpa using hissuer⟩) href)

end

/-! ### The verdict -/

/-- What stands behind a completed scope, for one of its paths. -/
structure PathDone (y : System) (root : Str) (expected : Bindings) (p : Path) : Prop where
  bound : ∃ sha size, (p, (sha, some size)) ∈ expected ∧ ⟨p, root, sha, size⟩ ∈ y.ledger.receipts ∧
    ∃ items, y.remote.index = .present items ∧ entries items p = some sha
  rows : ∀ r ∈ y.ledger.pending, r.remotePath ≠ p

section
variable {s : State} {root : Str} {expected : Bindings} {p : Path} {b : Str × Option Nat}

theorem matches_receipt (h : s.matches? root p b = true) :
    ∃ size, b.2 = some size ∧ ⟨p, root, b.1, size⟩ ∈ s.receipts := by
  unfold State.matches? State.receiptByPath at h
  cases hr : (s.receiptsAt root p).getLast? with
  | none => simp [hr] at h
  | some r =>
    rw [hr] at h
    have heq : (r.sha256, some r.sizeBytes) = b := by simpa using h
    obtain ⟨hmem, hat⟩ := List.mem_filter.1 (List.mem_of_getLast? hr)
    obtain ⟨hp, hroot⟩ : r.remotePath = p ∧ r.remoteRoot = root := by simpa using hat
    obtain ⟨rp, rr, rs, rz⟩ := r
    obtain rfl : rp = p := hp
    obtain rfl : rr = root := hroot
    rw [← heq]
    exact ⟨rz, rfl, hmem⟩

/-- With no row at an allowed path and nothing missing, everything that is bound has its receipt. -/
theorem matches_of_counters {allowed : List Path} {conflicts : Nat}
    (hsub : ∀ p ∈ expected.map (·.1), p ∈ allowed)
    (hrem : (s.scopeDiagnostics allowed expected root conflicts).remaining = 0)
    (hmiss : (s.scopeDiagnostics allowed expected root conflicts).missing = 0) {e : Path × (Str × Option Nat)}
    (he : e ∈ expected) : s.matches? root e.1 e.2 = true := by
  by_contra hundone
  have hrows : ∀ r ∈ s.pending, r.remotePath ∉ allowed := by
    have hnil : s.pending.filter (·.remotePath ∈ allowed) = [] := List.length_eq_zero_iff.1 hrem
    intro r hr hin
    exact absurd (List.filter_eq_nil_iff.1 hnil r hr) (by simpa using hin)
  have hnil : (s.scopedIntegrity expected root).2.2 = [] := List.length_eq_zero_iff.1 hmiss
  have hmem : e.1 ∈ (s.scopedIntegrity expected root).2.2 := by
    simp only [State.scopedIntegrity, PyList.mem_sortedBy, List.mem_map, List.mem_filter]
    refine ⟨e, ⟨⟨he, by simpa using hundone⟩, ?_⟩, rfl⟩
    have hnot : e.1 ∉ s.pendingPaths := by
      intro hrow
      obtain ⟨r, hr, hp⟩ := List.mem_map.1 hrow
      exact hrows r hr (hp ▸ hsub _ (List.mem_map_of_mem he))
    simpa using hnot
  rw [hnil] at hmem
  cases hmem

theorem scopedCompletion_true {index : Index} {diag : Diagnostics} (h : scopedCompletion s index expected diag root = some true) :
    (diag.remaining = 0 ∧ diag.conflicts = 0 ∧ diag.unbound = 0 ∧ diag.missing = 0) ∧
      ∃ items, index = .present items ∧ ∀ e ∈ (s.scopedIntegrity expected root).2.1, entries items e.1 = some e.2 := by
  unfold scopedCompletion at h
  split at h
  · cases h
  rename_i hzero
  split at h
  rename_i conflicts done missing hint
  split at h
  · cases h
  split at h
  · rename_i items
    rw [hint]
    refine ⟨by omega, items, rfl, ?_⟩
    simpa using h
  · cases h

/-- A verdict of completion, for the paths and bindings of a scope. -/
theorem verdict_true {y : System} {q : Request} {readable : Bool} {conflicts : Nat} {allowed : List Path}
    (hallowed : q.allowed = some allowed) (hexpected : q.expected = some expected)
    (hsub : ∀ p ∈ expected.map (·.1), p ∈ allowed) (h : verdict y q readable conflicts = some true) :
    ∀ p ∈ allowed, PathDone y q.root expected p := by
  intro p hp
  unfold verdict at h
  rw [hallowed, hexpected] at h
  dsimp only at h
  split at h
  · obtain ⟨⟨hrem, -, hunb, hmiss⟩, items, hindex, hdone⟩ := scopedCompletion_true h
    have hkey : p ∈ expected.map (·.1) := by
      have hnil : allowed.filter (fun p => p ∉ expected.map (·.1)) = [] := List.length_eq_zero_iff.1 hunb
      simpa using List.filter_eq_nil_iff.1 hnil p hp
    obtain ⟨e, he, rfl⟩ := List.mem_map.1 hkey
    have hmatch := matches_of_counters hsub hrem hmiss he
    obtain ⟨size, hsize, hrec⟩ := matches_receipt hmatch
    refine ⟨⟨e.2.1, size, ?_, hrec, items, ?_, ?_⟩, ?_⟩
    · rw [← hsize]
      exact he
    · cases readable with
      | false => cases hindex
      | true => exact hindex
    · refine hdone (e.1, e.2.1) ?_
      simp only [State.scopedIntegrity, List.mem_map, List.mem_filter]
      exact ⟨e, ⟨he, hmatch⟩, rfl⟩
    · intro r hr hrp
      have hnil : y.ledger.pending.filter (·.remotePath ∈ allowed) = [] := List.length_eq_zero_iff.1 hrem
      exact absurd (List.filter_eq_nil_iff.1 hnil r hr) (by simpa [hrp] using hp)
  · cases h

end

theorem reports_ne {reports : List (Request × Option Bool)} {x : Request × Option Bool} : reports ≠ x :: reports :=
  fun h => absurd (congrArg List.length h) (by simp)

/-- A step that reports completion reports the verdict on what it leaves. -/
theorem step_reports {sha256 : Bytes → Str} {y : System} {e : Event} {q : Request}
    (h : (step sha256 y e).reports = (q, some true) :: y.reports) :
    ∃ readable conflicts, verdict (step sha256 y e) q readable conflicts = some true := by
  cases e with
  | document | run | disk | stop | crash => exact absurd h reports_ne
  | begin q' probe readable =>
    simp only [step, begin] at h ⊢
    split at h
    · cases h
    rename_i hfree
    rw [if_neg hfree]
    split at h
    · rename_i hidle
      rw [if_pos hidle]
      obtain ⟨hq, -⟩ := List.cons.inj h
      obtain ⟨rfl, hverdict⟩ := Prod.mk.inj hq
      exact ⟨readable, 0, hverdict⟩
    · split at h
      · cases h
      · exact absurd h reports_ne
  | transport answer =>
    simp only [step] at h
    split at h
    · unfold transport at h
      split at h
      · exact absurd h reports_ne
      · exact absurd h reports_ne
      · exact absurd h reports_ne
      · split at h <;> exact absurd h reports_ne
    · exact absurd h reports_ne
  | publish done =>
    simp only [step] at h
    split at h
    · unfold publish at h
      dsimp only at h
      split at h
      · split at h <;> exact absurd h reports_ne
      · exact absurd h reports_ne
    · exact absurd h reports_ne
  | settle =>
    simp only [step] at h
    split at h <;> exact absurd h reports_ne
  | conclude readable =>
    simp only [step] at h ⊢
    split at h
    · rename_i conflicts _
      obtain ⟨hq, -⟩ := List.cons.inj h
      obtain ⟨rfl, hverdict⟩ := Prod.mk.inj hq
      exact ⟨readable, conflicts, hverdict⟩
    · exact absurd h reports_ne

/-- Whatever rows, receipts and index there are: a flush with the paths and bindings of `scoped_backup_scope` that
reports its scope complete leaves a receipt and an index entry for every path in scope, and no row. -/
theorem complete_has_evidence (sha256 : Bytes → Str) (d : Disk) (planned : State) (issuers : List Str) (y : System)
    (e : Event) (q : Request) (hallowed : q.allowed = some (scopedBackupScope d planned q.root issuers).1)
    (hexpected : q.expected = some (scopedBackupScope d planned q.root issuers).2)
    (hreport : (step sha256 y e).reports = (q, some true) :: y.reports) :
    (∀ p ∈ (scopedBackupScope d planned q.root issuers).1,
      PathDone (step sha256 y e) q.root (scopedBackupScope d planned q.root issuers).2 p) ∧
    ∀ documents, d.documents = some documents → ∀ doc ∈ documents, doc.issuer ∈ issuers → ∀ ref ∈ doc.refs,
      objectPath ref.1 ∈ (scopedBackupScope d planned q.root issuers).1 := by
  obtain ⟨readable, conflicts, hverdict⟩ := step_reports hreport
  exact ⟨verdict_true hallowed hexpected (fun p hp => scope_bounded hp) hverdict,
    fun documents hdocs doc hdoc hissuer ref href => scope_objects hdocs hdoc hissuer href⟩

/-- One selected document, whose PDF and OCR are backed up with the pair of their key, and one of another issuer. -/
def savedDisk : Disk where
  runId := "r".toList
  documents := some [⟨some "d".toList, "i".toList, ("pdf".toList, some 3), some ("ocr".toList, some 2), some "k".toList, none⟩,
    ⟨some "e".toList, "j".toList, ("other".toList, some 5), none, none, none⟩]
  bundles _ := []
  cachePair _ _ := some (("m".toList, 1), ("y".toList, 1))
  corroborates _ _ := false
  sha256 b := b.map fun c => Char.ofNat c.toNat
  keyDigest k := k.1 ++ k.2

/-- What the scope binds, with a body for each. -/
def savedFiles : List (Path × Str × Bytes) :=
  [(objectPath "pdf".toList, "pdf".toList, [1, 2, 3]), (objectPath "ocr".toList, "ocr".toList, [4, 5]),
    (nativeRoot "k".toList ++ [manifestName], "m".toList, [6]), (nativeRoot "k".toList ++ [readyName], "y".toList, [7])]

def savedRequest : Request where
  root := "root".toList
  force := true
  due := false
  client := true
  allowed := some (scopedBackupScope savedDisk .empty "root".toList ["i".toList]).1
  expected := some (scopedBackupScope savedDisk .empty "root".toList ["i".toList]).2

/-- Each path has a receipt of this root and one of another root, of other bytes. -/
def savedSystem : System where
  ledger := { State.empty with
    receipts := savedFiles.flatMap fun f => [⟨f.1, "elsewhere".toList, "old".toList, 9⟩, ⟨f.1, "root".toList, f.2.1, f.2.2.length⟩] }
  remote := ⟨savedFiles.map fun f => (f.1, f.2.2), .present (savedFiles.map fun f => ⟨f.1, f.2.1, f.2.2.length, none, none⟩)⟩
  flush := none
  reports := []

theorem complete_has_evidence_saved :
    (scopedBackupScope savedDisk .empty "root".toList ["i".toList]).1.length = 4 ∧
    (∀ p ∈ (scopedBackupScope savedDisk .empty "root".toList ["i".toList]).1,
      PathDone (step savedDisk.sha256 savedSystem (.begin savedRequest true true)) "root".toList
        (scopedBackupScope savedDisk .empty "root".toList ["i".toList]).2 p) ∧
    ∀ documents, savedDisk.documents = some documents → ∀ doc ∈ documents, doc.issuer ∈ ["i".toList] →
      ∀ ref ∈ doc.refs, objectPath ref.1 ∈ (scopedBackupScope savedDisk .empty "root".toList ["i".toList]).1 :=
  ⟨by decide +kernel, complete_has_evidence savedDisk.sha256 savedDisk .empty ["i".toList] savedSystem
    (.begin savedRequest true true) savedRequest rfl rfl (by decide +kernel)⟩

end CardRag.Backup
