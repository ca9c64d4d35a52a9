import CardRag.Backup.Truth

/-! # What the worker still owes

A row that was put in is owed until an index lists a receipt of exactly its bytes, or a selected run puts verified
bytes in for its path. Rows have an item id of their own that does not say the path, so a row can be lost to another
one with its id. -/

namespace CardRag.Backup

open Publish (Path Bytes)
open Gc (objectPath cacheRoot manifestName readyName)

/-- The remote path, the digest and the size of a row. -/
abbrev Obligation := Path × Str × Nat

def Row.obligation (r : Row) : Obligation := (r.remotePath, r.sha256, r.sizeBytes)

def Receipt.obligation (r : Receipt) : Obligation := (r.remotePath, r.sha256, r.sizeBytes)

/-- What was put in and not replaced by verified bytes. -/
def owed : List Change → List Obligation
  | [] => []
  | .put row true _ :: log => row.obligation :: (owed log).filter (·.1 ≠ row.remotePath)
  | .put row false _ :: log => row.obligation :: owed log
  | .listed _ :: log => owed log
  | .deleted _ _ :: log => owed log

/-- What an index listed with its receipt. -/
def listedIn : List Change → List Obligation
  | [] => []
  | .listed receipts :: log => receipts.map (·.obligation) ++ listedIn log
  | .put _ _ _ :: log => listedIn log
  | .deleted _ _ :: log => listedIn log

/-- A change that takes no row but the one it is about. -/
def Change.Proper : Change → Prop
  | .put row _ replaced => ∀ r ∈ replaced, r.remotePath = row.remotePath
  | .listed _ => True
  | .deleted row rows => ∀ r ∈ rows, r.obligation = row.obligation

instance : DecidablePred Change.Proper := fun c => by
  cases c <;> unfold Change.Proper <;> infer_instance

/-- Everything that is owed was listed or has its row, and no row was taken for another. -/
structure Kept (s : State) : Prop where
  rows : ∀ o ∈ owed s.history, o ∈ listedIn s.history ∨ ∃ r ∈ s.pending, r.obligation = o
  proper : ∀ c ∈ s.history, c.Proper

/-- The item id is the key of the rows, and what was listed stays so. -/
structure Safe (old : List Obligation) (s : State) : Prop where
  kept : Kept s
  keyed : (s.pending.map (·.itemId)).Nodup
  listed : ∀ o ∈ old, o ∈ listedIn s.history

variable {old : List Obligation}

theorem Safe.congr {s s' : State} (h : Safe old s) (hp : s'.pending = s.pending) (hh : s'.history = s.history) :
    Safe old s' :=
  ⟨⟨fun o ho => by rw [hp, hh]; exact h.kept.rows o (hh ▸ ho), fun c hc => h.kept.proper c (hh ▸ hc)⟩, hp ▸ h.keyed,
    fun o ho => hh ▸ h.listed o ho⟩

/-! ### Rows -/

section
variable {s : State} {k : Known} {a r : Row}

theorem mem_insertRow {verified : Bool} : r ∈ (s.insertRow verified a).pending ↔ r ∈ s.pending ∧ r.itemId ≠ a.itemId ∨ r = a := by
  simp [State.insertRow]

theorem mem_deleteRow {id : Str} : r ∈ (s.deleteRow id).pending ↔ r ∈ s.pending ∧ r.itemId ≠ id := by
  simp [State.deleteRow]

theorem Safe.nodup_filter {id : Str} (h : (s.pending.map (·.itemId)).Nodup) :
    ((s.pending.filter (·.itemId ≠ id)).map (·.itemId)).Nodup :=
  h.sublist (List.Sublist.map _ List.filter_sublist)

theorem Safe.nodup_insertRow (verified : Bool) (h : (s.pending.map (·.itemId)).Nodup) :
    ((s.insertRow verified a).pending.map (·.itemId)).Nodup := by
  simp only [State.insertRow, List.map_append, List.map_cons, List.map_nil]
  rw [List.nodup_append]
  refine ⟨Safe.nodup_filter h, by simp, fun x hx y hy => ?_⟩
  obtain ⟨r, hr, rfl⟩ := List.mem_map.1 hx
  rw [List.mem_singleton.1 hy]
  simpa using (List.mem_filter.1 hr).2

/-- A row that takes the place of no other is put in. -/
theorem Safe.insertFresh (h : Safe old s) (hfree : ∀ r ∈ s.pending, r.itemId ≠ a.itemId) : Safe old (s.insertRow false a) := by
  refine ⟨⟨fun o ho => ?_, fun c hc => ?_⟩, Safe.nodup_insertRow false h.keyed, h.listed⟩
  · rcases List.mem_cons.1 ho with rfl | ho
    · exact .inr ⟨a, mem_insertRow.2 (.inr rfl), rfl⟩
    · rcases h.kept.rows o ho with hl | ⟨r, hr, ho⟩
      · exact .inl hl
      · exact .inr ⟨r, mem_insertRow.2 (.inl ⟨hr, hfree r hr⟩), ho⟩
  · rcases List.mem_cons.1 hc with rfl | hc
    · intro r hr
      obtain ⟨hr, hid⟩ := List.mem_filter.1 hr
      exact absurd (by simpa using hid) (hfree r hr)
    · exact h.kept.proper c hc

/-- A verified row is put in after the rows in `gone`, all of its path, are deleted. -/
theorem Safe.insertVerified {s₁ : State} (h : Safe old s) (hh : s₁.history = s.history)
    (hkeyed : (s₁.pending.map (·.itemId)).Nodup) (hsub : ∀ r ∈ s₁.pending, r ∈ s.pending)
    (hother : ∀ r ∈ s.pending, r.remotePath ≠ a.remotePath → r ∈ s₁.pending)
    (hpath : ∀ r ∈ s.pending, r.itemId = a.itemId → r.remotePath = a.remotePath) : Safe old (s₁.insertRow true a) := by
  refine ⟨⟨fun o ho => ?_, fun c hc => ?_⟩, Safe.nodup_insertRow true hkeyed, fun o ho => ?_⟩
  · rcases List.mem_cons.1 ho with rfl | ho
    · exact .inr ⟨a, mem_insertRow.2 (.inr rfl), rfl⟩
    · obtain ⟨ho, hne⟩ := List.mem_filter.1 ho
      rcases h.kept.rows o (hh ▸ ho) with hl | ⟨r, hr, rfl⟩
      · exact .inl (show o ∈ listedIn s₁.history from hh ▸ hl)
      · have hrp : r.remotePath ≠ a.remotePath := of_decide_eq_true hne
        exact .inr ⟨r, mem_insertRow.2 (.inl ⟨hother r hr hrp, fun hid => hrp (hpath r hr hid)⟩), rfl⟩
  · rcases List.mem_cons.1 hc with rfl | hc
    · intro r hr
      obtain ⟨hr, hid⟩ := List.mem_filter.1 hr
      exact hpath r (hsub r hr) (by simpa using hid)
    · exact h.kept.proper c (hh ▸ hc)
  · exact show o ∈ listedIn s₁.history from hh ▸ h.listed o ho

theorem spoolFile_pending (s : State) (source sha : Str) :
    (s.spoolFile source sha).pending = s.pending ∧ (s.spoolFile source sha).history = s.history := by
  unfold State.spoolFile
  split <;> exact ⟨rfl, rfl⟩

theorem Safe.spoolFile (h : Safe old s) (source sha : Str) : Safe old (s.spoolFile source sha) :=
  h.congr (spoolFile_pending s source sha).1 (spoolFile_pending s source sha).2

/-! ### One artifact -/

/-- Artifacts for paths that are not known yet have item ids that no row has, and one id has one path. -/
def PlainApart (ids : List (Str × Path)) (s : State) (k : Known) : Prop :=
  ∀ x ∈ ids, x.2 ∉ k.receipts → x.2 ∉ k.pending → (∀ r ∈ s.pending, r.itemId ≠ x.1) ∧
    ∀ x' ∈ ids, x'.2 ∉ k.receipts → x'.2 ∉ k.pending → x'.1 = x.1 → x'.2 = x.2

/-- Artifacts for paths without a receipt have item ids that only rows of their path have. -/
def VerifiedApart (ids : List (Str × Path)) (s : State) (k : Known) : Prop :=
  ∀ x ∈ ids, x.2 ∉ k.receipts → (∀ r ∈ s.pending, r.itemId = x.1 → r.remotePath = x.2) ∧
    ∀ x' ∈ ids, x'.2 ∉ k.receipts → x'.1 = x.1 → x'.2 = x.2

/-- What a plain recorder keeps. -/
structure Plain (old : List Obligation) (ids : List (Str × Path)) (s : State) (k : Known) : Prop where
  safe : Safe old s
  apart : PlainApart ids s k

structure Verified (old : List Obligation) (ids : List (Str × Path)) (s : State) (k : Known) : Prop where
  safe : Safe old s
  apart : VerifiedApart ids s k

theorem Plain.congr {ids : List (Str × Path)} {s' : State} (h : Plain old ids s k) (hp : s'.pending = s.pending)
    (hh : s'.history = s.history) : Plain old ids s' k := by
  refine ⟨h.safe.congr hp hh, fun x hx hr hk => ?_⟩
  rw [hp]
  exact h.apart x hx hr hk

theorem Verified.congr {ids : List (Str × Path)} {s' : State} (h : Verified old ids s k) (hp : s'.pending = s.pending)
    (hh : s'.history = s.history) : Verified old ids s' k := by
  refine ⟨h.safe.congr hp hh, fun x hx hr => ?_⟩
  rw [hp]
  exact h.apart x hx hr

theorem Plain.register {ids : List (Str × Path)} (h : Plain old ids s k) (ha : (a.itemId, a.remotePath) ∈ ids) :
    Plain old ids (register s k a).1 (register s k a).2 := by
  unfold Backup.register
  split
  · exact h
  rename_i hfresh
  rw [not_or] at hfresh
  obtain ⟨hfree, hone⟩ := h.apart _ ha hfresh.1 hfresh.2
  obtain ⟨hp, hh⟩ := spoolFile_pending s a.localPath a.sha256
  refine ⟨(h.safe.spoolFile _ _).insertFresh (hp ▸ hfree), fun x hx hr hk => ?_⟩
  have hk' : x.2 ≠ a.remotePath ∧ x.2 ∉ k.pending := by simpa using hk
  obtain ⟨hfreex, honex⟩ := h.apart x hx hr hk'.2
  refine ⟨fun r hrow hid => ?_, fun x' hx' hr' hkx' => honex x' hx' hr' fun hm => hkx' (List.mem_cons_of_mem _ hm)⟩
  rcases mem_insertRow.1 hrow with ⟨hrow, -⟩ | rfl
  · exact hfreex r (hp ▸ hrow) hid
  · exact hk'.1 (hone x hx hr hk'.2 hid.symm)

theorem mem_deleteRows {rows : List Row} {s : State} :
    r ∈ (rows.foldl (fun s x => s.deleteRow x.itemId) s).pending ↔ r ∈ s.pending ∧ ∀ x ∈ rows, r.itemId ≠ x.itemId := by
  induction rows generalizing s with
  | nil => simp
  | cons x rows ih =>
    rw [List.foldl_cons, ih, mem_deleteRow]
    simp [and_assoc]

theorem deleteRows_safe (rows : List Row) (s : State) (h : (s.pending.map (·.itemId)).Nodup) :
    ((rows.foldl (fun s x => s.deleteRow x.itemId) s).pending.map (·.itemId)).Nodup ∧
      (rows.foldl (fun s x => s.deleteRow x.itemId) s).history = s.history := by
  induction rows generalizing s with
  | nil => exact ⟨h, rfl⟩
  | cons x rows ih => exact ih (s.deleteRow x.itemId) (Safe.nodup_filter h)

theorem Verified.upsert {ids : List (Str × Path)} (h : Verified old ids s k) (ha : (a.itemId, a.remotePath) ∈ ids) :
    Verified old ids (upsert s k a).1 (upsert s k a).2 := by
  unfold Backup.upsert
  split
  · exact h
  rename_i hrec
  dsimp only
  generalize hstale : (s.pending.filter fun r =>
    r.remotePath = a.remotePath ∧ (r.sha256 ≠ a.sha256 ∨ r.sizeBytes ≠ a.sizeBytes)) = stale
  have hpaths : ∀ r ∈ stale, r ∈ s.pending ∧ r.remotePath = a.remotePath := by
    intro r hr
    rw [← hstale] at hr
    obtain ⟨hr, hcond⟩ := List.mem_filter.1 hr
    exact ⟨hr, (of_decide_eq_true hcond).1⟩
  obtain ⟨hkeyed, hh⟩ := deleteRows_safe stale s h.safe.keyed
  have hmem : ∀ r, r ∈ (stale.foldl (fun s x => s.deleteRow x.itemId) s).pending ↔
      r ∈ s.pending ∧ ∀ x ∈ stale, r.itemId ≠ x.itemId := fun r => mem_deleteRows
  have hnone : stale = [] → stale.foldl (fun s x => s.deleteRow x.itemId) s = s := fun h => by rw [h]; rfl
  generalize stale.foldl (fun s x => s.deleteRow x.itemId) s = s₁ at hkeyed hh hmem hnone ⊢
  obtain ⟨hpath, hone⟩ := h.apart _ ha hrec
  have hother : ∀ r ∈ s.pending, r.remotePath ≠ a.remotePath → r ∈ s₁.pending := by
    intro r hr hne
    refine (hmem r).2 ⟨hr, fun x hx hid => hne ?_⟩
    obtain ⟨hx, hxp⟩ := hpaths x hx
    rw [List.inj_on_of_nodup_map h.safe.keyed hr hx hid]
    exact hxp
  obtain ⟨hp, hsh⟩ := spoolFile_pending s₁ a.localPath a.sha256
  -- the row is put in, whether or not others were repaired
  have hput : ∀ k' : Known, k'.receipts = k.receipts → Verified old ids ((s₁.spoolFile a.localPath a.sha256).insertRow true a) k' := by
    intro k' hk'
    refine ⟨h.safe.insertVerified (hsh.trans hh) (hp ▸ hkeyed) (fun r hr => ((hmem r).1 (hp ▸ hr)).1)
      (fun r hr hne => hp ▸ hother r hr hne) hpath, fun x hx hr => ?_⟩
    rw [hk'] at hr ⊢
    obtain ⟨hpathx, honex⟩ := h.apart x hx hr
    refine ⟨fun r hrow hid => ?_, honex⟩
    rcases mem_insertRow.1 hrow with ⟨hrow, -⟩ | rfl
    · exact hpathx r ((hmem r).1 (hp ▸ hrow)).1 hid
    · exact honex _ ha hrec hid
  split
  · rename_i hnil
    split
    · rw [hnone hnil]
      exact h
    · exact hput _ rfl
  · rename_i hnil
    rw [if_neg]
    · exact hput _ rfl
    · simp

end

/-! ### Calls -/

section
variable {sha256 : Bytes → Str} {s : State} {k : Known} {root runId : Str} {now : Int}

/-- The item ids of a bundle and their paths. -/
def Bundle.ids (b : Bundle) (sha256 : Bytes → Str) (s : State) (root : Str) : List (Str × Path) :=
  [("cas-".toList ++ b.output.1, objectPath b.output.1), ("man-".toList ++ b.reuseKey, b.manifestPath sha256 s root),
    ("ready-".toList ++ b.reuseKey, b.readyPath sha256 s root)]

def objectId (o : Str × Str × Nat × Str × Str) : Str × Path := (o.1 ++ '-' :: o.2.1, objectPath o.2.1)

def cacheId (c : Str × Str × Str) : Str × Path :=
  ("cache-".toList ++ c.1 ++ '-' :: c.2.1, ["v1".toList, "caches".toList, "ocr".toList, c.1, c.2.1])

theorem Bundle.paths_congr (b : Bundle) (sha256 : Bytes → Str) (root : Str) {s' : State} (h : s'.receipts = s.receipts) :
    b.manifestPath sha256 s' root = b.manifestPath sha256 s root ∧ b.readyPath sha256 s' root = b.readyPath sha256 s root := by
  unfold Bundle.manifestPath Bundle.readyPath Bundle.variant State.resolve State.receiptsAt
  rw [h]
  exact ⟨rfl, rfl⟩

theorem Plain.tag {ids : List (Str × Path)} (h : Plain old ids s k) (runId : Str) (b : Bundle) (paths infoPaths : List Path) :
    Plain old ids (tag s runId b paths infoPaths) k := h.congr rfl rfl

theorem Verified.tag {ids : List (Str × Path)} (h : Verified old ids s k) (runId : Str) (b : Bundle) (paths infoPaths : List Path) :
    Verified old ids (tag s runId b paths infoPaths) k := h.congr rfl rfl

theorem Plain.bundle {ids : List (Str × Path)} (h : Plain old ids s k) (b : Bundle) (hb : ∀ x ∈ b.ids sha256 s root, x ∈ ids)
    (infoPaths : List Path → List Path) : Plain old ids (registerBundle sha256 root runId now infoPaths s k b).1
      (registerBundle sha256 root runId now infoPaths s k b).2 := by
  have h1 := h.register (a := b.body now) (hb _ (by simp [Bundle.ids, Bundle.body]))
  have h2 := h1.register (a := b.manifest sha256 s root now) (hb _ (by simp [Bundle.ids, Bundle.manifest]))
  simp only [registerBundle]
  refine Plain.tag (Plain.register ?_ (hb _ (by simp [Bundle.ids, Bundle.ready]))) _ _ _ _
  split
  · exact h2
  · exact h2.congr rfl rfl

theorem Verified.bundle {ids : List (Str × Path)} (h : Verified old ids s k) (b : Bundle) (hb : ∀ x ∈ b.ids sha256 s root, x ∈ ids) :
    Verified old ids (registerVerifiedOcrBundle sha256 root runId now s k b).1
      (registerVerifiedOcrBundle sha256 root runId now s k b).2 := by
  have h1 := h.upsert (a := b.body now) (hb _ (by simp [Bundle.ids, Bundle.body]))
  have h2 := h1.upsert (a := b.manifest sha256 s root now) (hb _ (by simp [Bundle.ids, Bundle.manifest]))
  have hready := hb ((b.ready sha256 s root now).itemId, (b.ready sha256 s root now).remotePath) (by simp [Bundle.ids, Bundle.ready])
  simp only [registerVerifiedOcrBundle]
  refine Verified.tag (Verified.upsert ?_ hready) _ _ _ _
  exact h2.congr rfl rfl

theorem VerifiedApart.register {ids : List (Str × Path)} (h : VerifiedApart ids s k) {a : Artifact}
    (ha : (a.itemId, a.remotePath) ∈ ids) : VerifiedApart ids (register s k a).1 (register s k a).2 := by
  unfold Backup.register
  split
  · exact h
  rename_i hfresh
  rw [not_or] at hfresh
  intro x hx hr
  obtain ⟨hpath, hone⟩ := h x hx hr
  refine ⟨fun r hrow hid => ?_, hone⟩
  rcases mem_insertRow.1 hrow with ⟨hrow, -⟩ | rfl
  · exact hpath r ((spoolFile_pending s a.localPath a.sha256).1 ▸ hrow) hid
  · exact hone _ ha hfresh.1 hid

/-- A loop keeps what each turn keeps. -/
theorem recordAll_inv {α : Type} {f : State → Known → α → State × Known} {I : State → Known → Prop} (xs : List α)
    (hf : ∀ s k, I s k → ∀ x ∈ xs, I (f s k x).1 (f s k x).2) (h : I s k) : I (recordAll f s k xs).1 (recordAll f s k xs).2 := by
  induction xs generalizing s k with
  | nil => exact h
  | cons x xs ih =>
    exact ih (fun s k h y hy => hf s k h y (List.mem_cons_of_mem _ hy)) (hf s k h x (by simp))

/-- The item ids of a call of `record_document_ocr` do not lose a row. -/
def DocumentApart (sha256 : Bytes → Str) (s : State) (root : Str) (known : Known) (bundles : List Bundle) : Prop :=
  PlainApart (bundles.flatMap (·.ids sha256 s root)) s known

/-- The item ids of a call of `record_run_success` do not lose a row. -/
def RunApart (sha256 : Bytes → Str) (s : State) (root : Str) (e : RunEvidence) : Prop :=
  let objects := e.objects.map objectId
  let bundles := e.bundles.flatMap (·.ids sha256 s root)
  if e.selected then PlainApart objects s (s.known root) ∧ VerifiedApart (bundles ++ objects) s (s.known root)
  else PlainApart (objects ++ bundles ++ e.cache.map cacheId) s (s.known root)

theorem Safe.recordDocumentOcr {known : Known} {bundles : List Bundle} (h : Safe old s)
    (hapart : DocumentApart sha256 s root known bundles) : Safe old (recordDocumentOcr sha256 root runId now s known bundles) := by
  have hinv : Plain old (bundles.flatMap (·.ids sha256 s root)) s known ∧ s.receipts = s.receipts := ⟨⟨h, hapart⟩, rfl⟩
  refine (recordAll_inv _ (I := fun s' k => Plain old (bundles.flatMap (·.ids sha256 s root)) s' k ∧ s'.receipts = s.receipts)
    (fun s' k hi b hb => ⟨hi.1.bundle b ?_ _, (registerBundle_receipts _ _ _ _ b).trans hi.2⟩) hinv).1.safe
  obtain ⟨hman, hready⟩ := b.paths_congr sha256 root hi.2
  intro x hx
  simp only [Bundle.ids, hman, hready] at hx
  exact List.mem_flatMap.2 ⟨b, hb, hx⟩

theorem Safe.recordRunSuccess {e : RunEvidence} (h : Safe old s) (hapart : RunApart sha256 s root e) :
    Safe old (recordRunSuccess sha256 root runId now s e) := by
  unfold RunApart at hapart
  unfold Backup.recordRunSuccess
  dsimp only at hapart ⊢
  split at hapart
  · obtain ⟨hobjects, hbundles⟩ := hapart
    rw [if_pos (by assumption)]
    set ids := e.bundles.flatMap (·.ids sha256 s root) ++ e.objects.map objectId
    have hfirst : Plain old (e.objects.map objectId) s (s.known root) ∧ VerifiedApart ids s (s.known root) ∧
        s.receipts = s.receipts := ⟨⟨h, hobjects⟩, hbundles, rfl⟩
    have hsecond := recordAll_inv e.objects (f := fun s k o => register s k (sealObject now o))
      (I := fun s' k => Plain old (e.objects.map objectId) s' k ∧ VerifiedApart ids s' k ∧ s'.receipts = s.receipts)
      (fun s' k hi o ho => ⟨hi.1.register (List.mem_map_of_mem (f := objectId) ho),
        hi.2.1.register (List.mem_append_right _ (List.mem_map_of_mem (f := objectId) ho)), (register_receipts _).trans hi.2.2⟩)
      hfirst
    refine (recordAll_inv _ (I := fun s' k => Verified old ids s' k ∧ s'.receipts = s.receipts)
      (fun s' k hi b hb => ⟨hi.1.bundle b ?_, (registerVerifiedOcrBundle_receipts _ _ _ b).trans hi.2⟩)
      ⟨⟨hsecond.1.safe, hsecond.2.1⟩, hsecond.2.2⟩).1.safe
    obtain ⟨hman, hready⟩ := b.paths_congr sha256 root hi.2
    intro x hx
    simp only [Bundle.ids, hman, hready] at hx
    exact List.mem_append_left _ (List.mem_flatMap.2 ⟨b, hb, hx⟩)
  · rw [if_neg (by assumption)]
    set ids := e.objects.map objectId ++ e.bundles.flatMap (·.ids sha256 s root) ++ e.cache.map cacheId
    have hfirst : Plain old ids s (s.known root) ∧ s.receipts = s.receipts := ⟨⟨h, hapart⟩, rfl⟩
    have hsecond := recordAll_inv e.objects (f := fun s k o => register s k (sealObject now o))
      (I := fun s' k => Plain old ids s' k ∧ s'.receipts = s.receipts)
      (fun s' k hi o ho => ⟨hi.1.register (List.mem_append_left _ (List.mem_append_left _ (List.mem_map_of_mem (f := objectId) ho))),
        (register_receipts _).trans hi.2⟩) hfirst
    have hthird := recordAll_inv e.bundles
      (f := registerBundle sha256 root runId now fun ps => ps.dropLast)
      (I := fun s' k => Plain old ids s' k ∧ s'.receipts = s.receipts)
      (fun s' k hi b hb => ⟨hi.1.bundle b (fun x hx => by
          obtain ⟨hman, hready⟩ := b.paths_congr sha256 root hi.2
          simp only [Bundle.ids, hman, hready] at hx
          exact List.mem_append_left _ (List.mem_append_right _ (List.mem_flatMap.2 ⟨b, hb, hx⟩))) _,
        (registerBundle_receipts _ _ _ _ b).trans hi.2⟩) hsecond
    refine (recordAll_inv _ (I := fun s' k => Plain old ids s' k) (fun s' k hi c hc => ?_) hthird.1).safe
    unfold registerCacheFile
    split
    · exact hi.register (List.mem_append_right _ (List.mem_map_of_mem (f := cacheId) hc))
    · exact hi

end

/-! ### The index -/

theorem get?_foldl_insert {α β κ : Type} [DecidableEq κ] (key : α → κ) (val : α → β) (xs : List α) (d : List (κ × β)) (k : κ) :
    PyList.get? (xs.foldl (fun d x => PyList.insert (key x) (val x) d) d) k =
      (((xs.filter (key · = k)).getLast?).map val).or (PyList.get? d k) := by
  induction xs using List.reverseRecOn with
  | nil => simp
  | append_singleton xs x ih =>
    rw [List.foldl_append, List.foldl_cons, List.foldl_nil, PyList.get?_insert, List.filter_append]
    by_cases hx : key x = k
    · simp [hx]
    · simp [hx, ih]

/-- A dictionary of items has each under its path. -/
structure ByPath (d : List (Path × IndexItem)) : Prop where
  keys : (d.map (·.1)).Nodup
  paths : ∀ e ∈ d, e.2.remotePath = e.1

theorem ByPath.insert {d : List (Path × IndexItem)} (h : ByPath d) (i : IndexItem) : ByPath (PyList.insert i.remotePath i d) := by
  refine ⟨PyList.nodup_keys_insert h.keys, fun e he => ?_⟩
  rcases PyList.mem_insert he with rfl | he
  · rfl
  · exact h.paths e he

theorem ByPath.foldl {s : State} {d : List (Path × IndexItem)} (h : ByPath d) (rs : List Receipt) :
    ByPath (rs.foldl (fun d r => PyList.insert r.remotePath (indexItem s r) d) d) := by
  induction rs generalizing d with
  | nil => exact h
  | cons r rs ih => exact ih (h.insert (indexItem s r))

/-- With one item a path, the entry of a path is that of its item. -/
theorem entries_of_mem {items : List IndexItem} (hn : (items.map (·.remotePath)).Nodup) {i : IndexItem} (hi : i ∈ items) :
    entries items i.remotePath = some i.sha256 := by
  unfold entries
  cases hf : items.reverse.find? (·.remotePath = i.remotePath) with
  | none => exact absurd (List.find?_eq_none.1 hf i (List.mem_reverse.2 hi)) (by simp)
  | some j =>
    have hj : j ∈ items := List.mem_reverse.1 (List.mem_of_find?_eq_some hf)
    have hp : j.remotePath = i.remotePath := by simpa using List.find?_some hf
    rw [List.inj_on_of_nodup_map hn hj hi hp]
    rfl

/-- A dictionary without some of its items lists the others. -/
theorem ByPath.entries {d : List (Path × IndexItem)} (h : ByPath d) (q : Path × IndexItem → Bool) {e : Path × IndexItem}
    (he : e ∈ d) (hq : q e = true) : entries (PyList.values (d.filter q)) e.1 = some e.2.sha256 := by
  have hmap : (PyList.values (d.filter q)).map (·.remotePath) = (d.filter q).map (·.1) := by
    rw [PyList.values, List.map_map]
    exact List.map_congr_left fun e he => h.paths e (List.mem_filter.1 he).1
  have hn : ((PyList.values (d.filter q)).map (·.remotePath)).Nodup := by
    rw [hmap]
    exact h.keys.sublist (List.Sublist.map _ List.filter_sublist)
  have hentry := entries_of_mem hn (List.mem_map_of_mem (f := (·.2)) (List.mem_filter.2 ⟨he, hq⟩))
  rwa [h.paths e he] at hentry

/-- The next index lists the newest receipt of a path, unless a binding contradicts it. -/
theorem entries_nextItems {s : State} {index : Index} {root : Str} {expected : Option Bindings} {items : List IndexItem}
    (h : nextItems s index root expected = some items) {p : Path} {r : Receipt} (hr : s.receiptByPath root p = some r)
    (hbound : ∀ b, expected.bind (PyList.get? · p) = some b → b.1 = r.sha256) :
    entries items p = some r.sha256 := by
  have hmerge : ∀ old : List IndexItem, entries (PyList.values (((s.receipts.filter (·.remoteRoot = root)).foldl
      (fun d r => PyList.insert r.remotePath (indexItem s r) d) (PyList.dictOf (·.remotePath) old)).filter fun e =>
        !((expected.bind (PyList.get? · e.1)).any (·.1 ≠ e.2.sha256)))) p = some r.sha256 := by
    intro old
    have hd : ByPath ((s.receipts.filter (·.remoteRoot = root)).foldl
        (fun d r => PyList.insert r.remotePath (indexItem s r) d) (PyList.dictOf (·.remotePath) old)) :=
      ByPath.foldl ⟨PyList.nodup_keys_dictOf _ old, fun e he => PyList.key_of_mem_dictOf he⟩ _
    have hget := get?_foldl_insert (·.remotePath) (indexItem s) (s.receipts.filter (·.remoteRoot = root))
      (PyList.dictOf (·.remotePath) old) p
    have hlast : (s.receipts.filter (·.remoteRoot = root)).filter (·.remotePath = p) = s.receiptsAt root p := by
      rw [List.filter_filter, State.receiptsAt]
      exact List.filter_congr fun r _ => by simp
    rw [hlast, show (s.receiptsAt root p).getLast? = some r from hr] at hget
    refine hd.entries _ (PyList.mem_of_get? hget) ?_
    cases hb : expected.bind (PyList.get? · p) with
    | none => simp
    | some b => simp [hbound b hb, indexItem]
  unfold nextItems at h
  split at h
  · obtain rfl := Option.some.inj h
    exact hmerge _
  · obtain rfl := Option.some.inj h
    exact hmerge _
  · cases h

/-! ### Steps -/

/-- What is kept beside the rows: verified rows agree with their bindings, and are listed before they are deleted. -/
structure Tracked (y : System) : Prop where
  kept : Kept y.ledger
  keyed : (y.ledger.pending.map (·.itemId)).Nodup
  bound : ∀ f ∈ y.flush, ∀ v ∈ f.verified, ∀ b, f.request.expected.bind (PyList.get? · v.remotePath) = some b → b.1 = v.sha256
  listed : ∀ f ∈ y.flush, f.phase = .published true → ∀ v ∈ f.verified, v.obligation ∈ listedIn y.ledger.history

/-- No step loses a row: the item ids that a recorder puts in are free or of rows of their path, the newest receipt of a
verified row's path is the row's when the index is published, and the row is still the one of its item id when it is
deleted. -/
def Undisturbed (sha256 : Bytes → Str) (y : System) (e : Event) (_ : System) : Prop :=
  match e with
  | .document root _ _ known bundles => DocumentApart sha256 y.ledger root known bundles
  | .run root _ _ evidence => RunApart sha256 y.ledger root evidence
  | .publish _ => ∀ f ∈ y.flush, ∀ v ∈ f.verified, ∃ r ∈ y.ledger.receiptByPath f.request.root v.remotePath,
      r.sha256 = v.sha256 ∧ r.sizeBytes = v.sizeBytes
  | .settle => ∀ f ∈ y.flush, ∀ v ∈ f.verified, ∀ r ∈ y.ledger.pending, r.itemId = v.itemId → r.obligation = v.obligation
  | _ => True

instance (ids : List (Str × Path)) (s : State) (k : Known) : Decidable (PlainApart ids s k) := by
  unfold PlainApart
  infer_instance

instance (ids : List (Str × Path)) (s : State) (k : Known) : Decidable (VerifiedApart ids s k) := by
  unfold VerifiedApart
  infer_instance

instance (sha256 : Bytes → Str) (y : System) (e : Event) (y' : System) : Decidable (Undisturbed sha256 y e y') := by
  unfold Undisturbed DocumentApart RunApart
  cases e <;> infer_instance

section
variable {sha256 : Bytes → Str} {y : System} {s : State}

theorem Tracked.safe (h : Tracked y) : Safe (listedIn y.ledger.history) y.ledger := ⟨h.kept, h.keyed, fun _ => id⟩

/-- The rows are recorded, and the flush goes on. -/
theorem Tracked.record (h : Tracked y) (hs : Safe (listedIn y.ledger.history) s) : Tracked { y with ledger := s } :=
  ⟨hs.kept, hs.keyed, h.bound, fun f hf hp v hv => hs.listed _ (h.listed f hf hp v hv)⟩

/-- The status of rows is no part of what is owed. -/
theorem Safe.mapRows {g : Row → Row} (h : Safe old s) (hid : ∀ r, (g r).itemId = r.itemId)
    (ho : ∀ r, (g r).obligation = r.obligation) : Safe old { s with pending := s.pending.map g } := by
  refine ⟨⟨fun o hmem => ?_, h.kept.proper⟩, ?_, h.listed⟩
  · rcases h.kept.rows o hmem with hl | ⟨r, hr, hobl⟩
    · exact .inl hl
    · exact .inr ⟨g r, List.mem_map_of_mem hr, (ho r).trans hobl⟩
  · have hmap : (s.pending.map g).map (·.itemId) = s.pending.map (·.itemId) := by
      rw [List.map_map]
      exact List.map_congr_left fun r _ => hid r
    exact hmap ▸ h.keyed

theorem Safe.unmarkLost (h : Safe old s) : Safe old (unmarkLost s) := by
  refine h.mapRows (fun r => ?_) fun r => ?_
  · split <;> rfl
  · split <;> rfl

theorem Safe.markLost (h : Safe old s) (id : Str) : Safe old (markLost s id) := by
  refine h.mapRows (fun r => ?_) fun r => ?_
  · split <;> rfl
  · split <;> rfl

/-- A listed row is deleted. -/
theorem Safe.deleteVerified (h : Safe old s) {v : Row} (hl : v.obligation ∈ listedIn s.history)
    (hid : ∀ r ∈ s.pending, r.itemId = v.itemId → r.obligation = v.obligation) : Safe old (deleteVerified s v) := by
  refine ⟨⟨fun o ho => ?_, fun c hc => ?_⟩, Safe.nodup_filter h.keyed, h.listed⟩
  · rcases h.kept.rows o ho with hlo | ⟨r, hr, rfl⟩
    · exact .inl hlo
    · by_cases hrid : r.itemId = v.itemId
      · exact .inl (show r.obligation ∈ listedIn s.history from hid r hr hrid ▸ hl)
      · exact .inr ⟨r, mem_deleteRow.2 ⟨hr, hrid⟩, rfl⟩
  · rcases List.mem_cons.1 hc with rfl | hc
    · intro r hr
      obtain ⟨hr, hrid⟩ := List.mem_filter.1 hr
      exact hid r hr (by simpa using hrid)
    · exact h.kept.proper c hc

theorem Safe.deleteAll {vs : List Row} (h : Safe old s) (hl : ∀ v ∈ vs, v.obligation ∈ listedIn s.history)
    (hid : ∀ v ∈ vs, ∀ r ∈ s.pending, r.itemId = v.itemId → r.obligation = v.obligation) :
    Safe old (vs.foldl Backup.deleteVerified s) := by
  induction vs generalizing s with
  | nil => exact h
  | cons v vs ih =>
    refine ih (h.deleteVerified (hl v (by simp)) (hid v (by simp))) (fun w hw => hl w (List.mem_cons_of_mem _ hw)) ?_
    exact fun w hw r hr => hid w (List.mem_cons_of_mem _ hw) r (mem_deleteRow.1 hr).1

/-- What is verified agrees with its binding. -/
theorem examine_bound {q : Request} {before : State} {row : Row} {x : Action} (h : examine sha256 q before s row = x)
    (hx : x = .reuse ∨ ∃ body, x = .upload body) {b : Str × Option Nat}
    (hb : q.expected.bind (PyList.get? · row.remotePath) = some b) : b.1 = row.sha256 := by
  unfold examine at h
  dsimp only at h
  rw [hb] at h
  split at h
  · rcases hx with rfl | ⟨body, rfl⟩ <;> cases h
  split at h
  · rcases hx with rfl | ⟨body, rfl⟩ <;> cases h
  · rename_i hdis
    by_contra hne
    exact hdis (by simp [disagrees, hne])

theorem Tracked.begin (h : Tracked y) (q : Request) (probe readable : Bool) : Tracked (begin y q probe readable) := by
  have hs := h.safe.unmarkLost
  have hidle : Tracked { y with ledger := unmarkLost y.ledger, flush := none } :=
    ⟨hs.kept, hs.keyed, fun f hf => (by cases hf), fun f hf => (by cases hf)⟩
  unfold Backup.begin
  split
  · exact ⟨h.kept, h.keyed, h.bound, h.listed⟩
  dsimp only
  split
  · exact ⟨hidle.kept, hidle.keyed, hidle.bound, hidle.listed⟩
  split
  · exact ⟨hidle.kept, hidle.keyed, hidle.bound, hidle.listed⟩
  · refine ⟨hs.kept, hs.keyed, fun f hf v hv => ?_, fun f hf hp => ?_⟩
    · obtain rfl := Option.some.inj hf
      cases hv
    · obtain rfl := Option.some.inj hf
      cases hp

theorem Tracked.transport (h : Tracked y) {f : Flush} (hf : y.flush = some f) (hphase : f.phase = .transporting) (row : Row)
    (rest : List Row) (answer : Answer) : Tracked (transport sha256 y f row rest answer) := by
  have hverified : ∀ x, examine sha256 f.request { y.ledger with receipts := f.existing } y.ledger row = x →
      (x = .reuse ∨ ∃ body, x = .upload body) → ∀ v ∈ f.verified ++ [row], ∀ b,
        f.request.expected.bind (PyList.get? · v.remotePath) = some b → b.1 = v.sha256 := by
    intro x hx hok v hv b hb
    rcases List.mem_append.1 hv with hv | hv
    · exact h.bound f hf v hv b hb
    · rw [List.mem_singleton.1 hv] at hb ⊢
      exact examine_bound hx hok hb
  unfold Backup.transport
  split
  · refine ⟨h.kept, h.keyed, fun g hg => ?_, fun g hg hp => ?_⟩
    · obtain rfl := Option.some.inj hg
      exact h.bound f hf
    · obtain rfl := Option.some.inj hg
      rw [hphase] at hp
      cases hp
  · rename_i hx
    refine ⟨h.kept, h.keyed, fun g hg => ?_, fun g hg hp => ?_⟩
    · obtain rfl := Option.some.inj hg
      exact hverified _ hx (.inl rfl)
    · obtain rfl := Option.some.inj hg
      rw [hphase] at hp
      cases hp
  · have hs := h.safe.markLost row.itemId
    refine ⟨hs.kept, hs.keyed, fun g hg => ?_, fun g hg hp => ?_⟩
    · obtain rfl := Option.some.inj hg
      exact h.bound f hf
    · obtain rfl := Option.some.inj hg
      rw [hphase] at hp
      cases hp
  · rename_i body hx
    split
    · refine ⟨⟨h.kept.rows, h.kept.proper⟩, h.keyed, fun g hg => ?_, fun g hg hp => ?_⟩
      · obtain rfl := Option.some.inj hg
        exact hverified _ hx (.inr ⟨body, rfl⟩)
      · obtain rfl := Option.some.inj hg
        rw [hphase] at hp
        cases hp
    · refine ⟨h.kept, h.keyed, fun g hg => ?_, fun g hg hp => ?_⟩
      · obtain rfl := Option.some.inj hg
        exact h.bound f hf
      · obtain rfl := Option.some.inj hg
        rw [hphase] at hp
        cases hp

theorem Tracked.publish (h : Tracked y) {f : Flush} (hf : y.flush = some f) (done : Bool)
    (hnewest : ∀ v ∈ f.verified, ∃ r ∈ y.ledger.receiptByPath f.request.root v.remotePath,
      r.sha256 = v.sha256 ∧ r.sizeBytes = v.sizeBytes) : Tracked (publish y f done) := by
  have hfailed : Tracked { y with flush := some { f with phase := .published false } } := by
    refine ⟨h.kept, h.keyed, fun g hg => ?_, fun g hg hp => ?_⟩
    · obtain rfl := Option.some.inj hg
      exact h.bound f hf
    · obtain rfl := Option.some.inj hg
      cases hp
  unfold Backup.publish
  dsimp only
  split
  · rename_i items hitems
    split
    · refine ⟨⟨fun o ho => ?_, fun c hc => ?_⟩, h.keyed, fun g hg => ?_, fun g hg hp v hv => ?_⟩
      · exact (h.kept.rows o ho).imp_left (List.mem_append_right _)
      · rcases List.mem_cons.1 hc with rfl | hc
        · exact trivial
        · exact h.kept.proper c hc
      · obtain rfl := Option.some.inj hg
        exact h.bound f hf
      · obtain rfl := Option.some.inj hg
        obtain ⟨r, hr, hsha, hsize⟩ := hnewest v hv
        obtain ⟨hmem, hat⟩ := List.mem_filter.1 (List.mem_of_getLast? hr)
        obtain ⟨hp, hroot⟩ : r.remotePath = v.remotePath ∧ r.remoteRoot = f.request.root := by simpa using hat
        have hentry := entries_nextItems hitems hr fun b hb => (h.bound f hf v hv b hb).trans hsha.symm
        refine List.mem_append_left _ (List.mem_map.2 ⟨r, List.mem_filter.2 ⟨hmem, ?_⟩, ?_⟩)
        · rw [← hp] at hentry
          simp [hroot, hentry]
        · rw [Receipt.obligation, Row.obligation, hp, hsha, hsize]
    · exact hfailed
  · exact hfailed

theorem Tracked.settle (h : Tracked y) {f : Flush} (hf : y.flush = some f) {committed : Bool}
    (hphase : f.phase = .published committed)
    (hown : ∀ v ∈ f.verified, ∀ r ∈ y.ledger.pending, r.itemId = v.itemId → r.obligation = v.obligation) :
    Tracked (settle y f committed) := by
  have hnext : ∀ s : State, Kept s → (s.pending.map (·.itemId)).Nodup →
      Tracked { y with ledger := s, flush := some { f with phase := .settled } } := by
    refine fun s hk hn => ⟨hk, hn, fun g hg => ?_, fun g hg hp => ?_⟩
    · obtain rfl := Option.some.inj hg
      exact h.bound f hf
    · obtain rfl := Option.some.inj hg
      cases hp
  unfold Backup.settle
  dsimp only
  split
  · rename_i hc
    have hs := h.safe.deleteAll (h.listed f hf (hc ▸ hphase)) hown
    exact hnext _ ⟨hs.kept.rows, hs.kept.proper⟩ hs.keyed
  · exact hnext _ h.kept h.keyed

theorem next_eq_some {f : Flush} {row : Row} {rest : List Row} (h : y.next = some (f, row, rest)) :
    y.flush = some f ∧ f.phase = .transporting := by
  unfold System.next at h
  split at h
  · rename_i g hg
    split at h
    · split at h
      · rename_i hp
        obtain rfl := (Prod.mk.inj (Option.some.inj h)).1
        exact ⟨hg, hp⟩
      · cases h
    · cases h
  · cases h

/-- A step that meets the condition loses nothing. -/
theorem Tracked.step (h : Tracked y) (e : Event) (hc : Undisturbed sha256 y e (step sha256 y e)) : Tracked (step sha256 y e) := by
  cases e with
  | document root runId now known bundles => exact h.record (h.safe.recordDocumentOcr hc)
  | run root runId now evidence => exact h.record (h.safe.recordRunSuccess hc)
  | disk files spool => exact h.record (h.safe.congr rfl rfl)
  | begin q probe readable => exact h.begin q probe readable
  | transport answer =>
    simp only [Backup.step]
    cases hn : y.next with
    | none => exact h
    | some next =>
      obtain ⟨f, row, rest⟩ := next
      obtain ⟨hf, hp⟩ := next_eq_some hn
      exact h.transport hf hp row rest answer
  | stop =>
    refine ⟨h.kept, h.keyed, fun f hf => ?_, fun f hf hp => ?_⟩
    · obtain ⟨g, hg, rfl⟩ := Option.map_eq_some_iff.1 hf
      exact h.bound g hg
    · obtain ⟨g, hg, rfl⟩ := Option.map_eq_some_iff.1 hf
      exact h.listed g hg hp
  | publish done =>
    simp only [Backup.step]
    split
    · rename_i hf
      exact h.publish hf done (hc _ hf)
    · exact h
  | settle =>
    simp only [Backup.step]
    split
    · rename_i hf
      exact h.settle hf rfl (hc _ hf)
    · exact h
  | conclude readable =>
    simp only [Backup.step]
    split
    · exact ⟨h.kept, h.keyed, fun f hf => (by cases hf), fun f hf => (by cases hf)⟩
    · exact h
  | crash => exact ⟨h.kept, h.keyed, fun f hf => (by cases hf), fun f hf => (by cases hf)⟩

end

/-- OCR of one reuse key: the text is the digest. -/
def nativeOcr (documentId ocr : Str) (size : UInt8) : Bundle where
  documentId := documentId
  reuseKey := "k".toList
  pdfSha256 := "p".toList
  output := (ocr, 1)
  manifestBytes := [109, size]
  readyBytes := [114, size]
  bodyFile := "body-".toList ++ documentId
  manifestFile := "manifest-".toList ++ documentId
  readyFile := "ready-".toList ++ documentId
  generationOnly := true
  corroborated := true

def unscoped : Request := ⟨"root".toList, true, true, true, none, none⟩

/-- The first OCR of a key is recorded and backed up. -/
def firstBackup : List Event :=
  [.disk [("body-a".toList, [97]), ("manifest-a".toList, [109, 1]), ("body-b".toList, [98]), ("manifest-b".toList, [109, 2]),
      ("body-c".toList, [99]), ("manifest-c".toList, [109, 3])] [],
    .document "root".toList "r1".toList 0 ⟨[], []⟩ [nativeOcr "a".toList "a".toList 1], .begin unscoped true true,
    .transport .done, .transport .done, .transport .done, .publish true, .settle, .conclude true]

/-- Two more variants of the key are recorded, each with all that the ledger knows. -/
def twoVariants : List Event :=
  let y := runFrom (step plainSha) freshSystem firstBackup
  let known := y.ledger.known "root".toList
  let y' := step plainSha y (.document "root".toList "r2".toList 1 known [nativeOcr "b".toList "b".toList 2])
  [.document "root".toList "r2".toList 1 known [nativeOcr "b".toList "b".toList 2],
    .document "root".toList "r3".toList 2 (y'.ledger.known "root".toList) [nativeOcr "c".toList "c".toList 3]]

instance (s : State) : Decidable (Kept s) :=
  decidable_of_iff ((∀ o ∈ owed s.history, o ∈ listedIn s.history ∨ ∃ r ∈ s.pending, r.obligation = o) ∧
    ∀ c ∈ s.history, c.Proper) ⟨fun h => ⟨h.1, h.2⟩, fun h => ⟨h.rows, h.proper⟩⟩

end CardRag.Backup
