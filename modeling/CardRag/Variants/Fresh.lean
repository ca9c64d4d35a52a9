import CardRag.Variants.Choice

/-! # The lookup of a new run

A run of which nothing is there yet lists the index and finds the latest of the verified variants. -/

namespace CardRag.Variants

open Publish (Path)
open Gc (Tree indexRoot validIdentifier)

/-- Nothing of the run is there yet. -/
def FreshRun (h : Host) (a : Args) : Prop :=
  validIdentifier a.runId = true ∧ PyList.get? h.memory a.runId = none ∧ PyList.get? h.snapshots a.runId = none ∧
    ∀ documentId, a.documentId = some documentId →
      validIdentifier documentId = true ∧ PyList.get? h.selections (a.runId, documentId) = none

/-- The entries pass the checks of a snapshot. -/
structure Listed (entries : List Path) : Prop where
  limit : entries.length ≤ maxIndexEntries
  named : ∀ entry ∈ entries, (indexedVariantPath entry).isSome
  size : (snapshotJson entries).render.length ≤ maxSnapshotBytes

section
variable {C : Controls} {t : Tree} {h : Host} {a : Args} {key : Str} {entry : Path} {entries : List Path}

theorem freeze_fresh (hfresh : FreshRun h a) : (freeze h a.runId).2 = .ok entries ↔
    entries = PyList.sortedBy posix (h.remote.children indexRoot) ∧ Listed entries := by
  obtain ⟨hrun, hmemory, hsnapshot, -⟩ := hfresh
  unfold freeze
  rw [if_neg (by simp [hrun]), hmemory, hsnapshot]
  dsimp only
  split
  · rename_i hlimit
    refine ⟨nofun, ?_⟩
    rintro ⟨rfl, hlisted⟩
    exact absurd hlimit (not_lt.2 hlisted.limit)
  rename_i hlimit
  split
  · rename_i hnamed
    refine ⟨nofun, ?_⟩
    rintro ⟨rfl, hlisted⟩
    rw [List.all_eq_true.2 hlisted.named] at hnamed
    cases hnamed
  rename_i hnamed
  split
  · rename_i hsize
    refine ⟨nofun, ?_⟩
    rintro ⟨rfl, hlisted⟩
    exact absurd hsize (not_lt.2 hlisted.size)
  rename_i hsize
  rw [Bool.not_eq_false, List.all_eq_true] at hnamed
  constructor
  · intro hok
    obtain rfl := Except.ok.inj hok
    exact ⟨rfl, not_lt.1 hlimit, hnamed, not_lt.1 hsize⟩
  · rintro ⟨rfl, -⟩
    rfl

/-- Without a selection the run chooses among its entries. -/
theorem lookup_fresh (hfresh : FreshRun h a) (hok : (freeze h a.runId).2 = .ok entries) :
    (lookup C h a).2 = (choose C (freeze h a.runId).1 a (C.reuseKeyOf a.source a.cacheEpoch) entries).2 := by
  have hfr : freeze h a.runId = ((freeze h a.runId).1, .ok entries) := Prod.ext rfl hok
  cases hd : a.documentId with
  | none =>
    unfold lookup
    dsimp only
    rw [hfr, hd]
  | some documentId =>
    obtain ⟨hid, hselection⟩ := hfresh.2.2.2 documentId hd
    rw [lookup_of_freeze hfr hd, if_neg (by simp [hid]), (freeze_keeps h a.runId).2.1, hselection]

/-- What a successful lookup of a new run has read. -/
theorem of_lookup_fresh {r : Option (Hit C)} (hfresh : FreshRun h a) (hl : (lookup C h a).2 = .ok r) :
    Listed (PyList.sortedBy posix (h.remote.children indexRoot)) ∧
      ∃ hits, verifiedHits C h.remote a (C.reuseKeyOf a.source a.cacheEpoch)
        (entriesOf (PyList.sortedBy posix (h.remote.children indexRoot)) (C.reuseKeyOf a.source a.cacheEpoch)) = .ok hits := by
  cases hok : (freeze h a.runId).2 with
  | error e =>
    have hfr : freeze h a.runId = ((freeze h a.runId).1, .error e) := Prod.ext rfl hok
    unfold lookup at hl
    dsimp only at hl
    rw [hfr] at hl
    cases hl
  | ok entries =>
    obtain ⟨rfl, hlisted⟩ := (freeze_fresh hfresh).1 hok
    refine ⟨hlisted, ?_⟩
    rw [lookup_fresh hfresh hok, choose, (freeze_keeps h a.runId).2.2] at hl
    split at hl
    · cases hl
    · exact ⟨_, ‹_›⟩
    · exact ⟨_, ‹_›⟩

/-- Only an entry that breaks its contract is passed over. -/
theorem readVariant_of_verifiedHits {hits : List (Path × Hit C)} (hv : verifiedHits C t a key entries = .ok hits)
    (hmem : entry ∈ entries) {e : Failure} (hread : readVariant C t entry a.source key = .error e) :
    ∃ message, e = .validation message := by
  induction entries generalizing hits with
  | nil => cases hmem
  | cons first rest ih =>
    simp only [verifiedHits] at hv
    rcases List.mem_cons.1 hmem with rfl | hmem
    · rw [hread] at hv
      cases e with
      | validation message => exact ⟨message, rfl⟩
      | provider => cases hv
      | integrity => cases hv
      | identifier => cases hv
    · split at hv
      · exact ih hv hmem
      · cases hv
      · split at hv
        · cases hvs : verifiedHits C t a key rest with
          | error err => simp [hvs, Except.map] at hv
          | ok hs => exact ih hvs hmem
        · exact ih hv hmem

/-- Where all entries are verified, all are hits. -/
theorem exists_verifiedHits (hexpected : a.expected = none)
    (hall : ∀ entry ∈ entries, ∃ hit, readVariant C t entry a.source key = .ok hit) :
    ∃ hits, verifiedHits C t a key entries = .ok hits ∧
      ∀ entry ∈ entries, ∀ hit, readVariant C t entry a.source key = .ok hit → (entry, hit) ∈ hits := by
  induction entries with
  | nil => exact ⟨[], rfl, nofun⟩
  | cons first rest ih =>
    obtain ⟨hit, hread⟩ := hall first List.mem_cons_self
    obtain ⟨hits, hrest, hmem⟩ := ih fun entry hentry => hall entry (List.mem_cons_of_mem _ hentry)
    have hacc : accepts C a.expected hit = true := by simp [accepts, hexpected]
    refine ⟨(first, hit) :: hits, ?_, fun entry hentry hit' hread' => ?_⟩
    · simp only [verifiedHits, hread, hacc, if_true, hrest]
      rfl
    · rcases List.mem_cons.1 hentry with rfl | hentry
      · obtain rfl := Except.ok.inj (hread.symm.trans hread')
        exact List.mem_cons_self
      · exact List.mem_cons_of_mem _ (hmem entry hentry hit' hread')

theorem createdAt_le_of_key {m m' : C.Manifest}
    (h : toLex (C.createdAt m, C.manifestSha256 m) ≤ toLex (C.createdAt m', C.manifestSha256 m')) :
    C.createdAt m ≤ C.createdAt m' := by
  rcases Prod.Lex.le_iff.1 h with hlt | ⟨heq, -⟩
  · exact le_of_lt hlt
  · exact le_of_eq heq

/-- The newest is as late as every hit. -/
theorem newest_le {best : Path × Hit C} {hits : List (Path × Hit C)} {x : Path × Hit C} (hx : x ∈ best :: hits) :
    toLex (C.createdAt x.2.manifest, C.manifestSha256 x.2.manifest) ≤
      toLex (C.createdAt (newest C best hits).2.manifest, C.manifestSha256 (newest C best hits).2.manifest) := by
  unfold newest
  induction hits generalizing best x with
  | nil =>
    obtain rfl := List.mem_singleton.1 hx
    exact le_rfl
  | cons y ys ih =>
    rw [List.foldl_cons]
    split
    · rename_i hlt
      rcases List.mem_cons.1 hx with rfl | hx
      · exact le_trans (le_of_lt hlt) (ih List.mem_cons_self)
      · exact ih hx
    · rename_i hlt
      rcases List.mem_cons.1 hx with rfl | hx
      · exact ih List.mem_cons_self
      · rcases List.mem_cons.1 hx with rfl | hx
        · exact le_trans (not_lt.1 hlt) (ih List.mem_cons_self)
        · exact ih (List.mem_cons_of_mem _ hx)

/-- A new run finds the verified entry that is later than all others. -/
theorem lookup_latest {hit : Hit C} (hfresh : FreshRun h a) (hexpected : a.expected = none)
    (hlisted : Listed (PyList.sortedBy posix (h.remote.children indexRoot)))
    (hall : ∀ entry ∈ entriesOf (h.remote.children indexRoot) (C.reuseKeyOf a.source a.cacheEpoch), ∃ hit,
      readVariant C h.remote entry a.source (C.reuseKeyOf a.source a.cacheEpoch) = .ok hit)
    (hentry : entry ∈ entriesOf (h.remote.children indexRoot) (C.reuseKeyOf a.source a.cacheEpoch))
    (hread : readVariant C h.remote entry a.source (C.reuseKeyOf a.source a.cacheEpoch) = .ok hit)
    (hlatest : ∀ other ∈ entriesOf (h.remote.children indexRoot) (C.reuseKeyOf a.source a.cacheEpoch), ∀ hit',
      readVariant C h.remote other a.source (C.reuseKeyOf a.source a.cacheEpoch) = .ok hit' → other ≠ entry →
        C.createdAt hit'.manifest < C.createdAt hit.manifest) :
    (lookup C h a).2 = .ok (some hit) := by
  have hok := (freeze_fresh hfresh).2 ⟨rfl, hlisted⟩
  have hmem (e : Path) : e ∈ entriesOf (PyList.sortedBy posix (h.remote.children indexRoot))
      (C.reuseKeyOf a.source a.cacheEpoch) ↔
        e ∈ entriesOf (h.remote.children indexRoot) (C.reuseKeyOf a.source a.cacheEpoch) := by simp [entriesOf]
  obtain ⟨hits, hv, hin⟩ := exists_verifiedHits hexpected fun e he => hall e ((hmem e).1 he)
  have hhit := hin entry ((hmem entry).2 hentry) hit hread
  rw [lookup_fresh hfresh hok, choose, (freeze_keeps h a.runId).2.2, hv]
  cases hits with
  | nil => cases hhit
  | cons first rest =>
    obtain ⟨hnew, hnewread, -⟩ := mem_verifiedHits hv (newest_mem first rest)
    have hle := createdAt_le_of_key (newest_le hhit)
    have hentryeq : (newest C first rest).1 = entry := by
      by_contra hne
      exact absurd (hlatest _ ((hmem _).1 hnew) _ hnewread hne) (not_lt.2 hle)
    rw [hentryeq] at hnewread
    have hsame : (newest C first rest).2 = hit := Except.ok.inj (hnewread.symm.trans hread)
    dsimp only
    rw [hsame]

end

end CardRag.Variants
