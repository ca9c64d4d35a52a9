import CardRag.Gc.Kept
import CardRag.Lib.Runs
import CardRag.Variants.Lookup

/-! # The choice of a run

A lookup that finds a verified entry in the index snapshot of its run is repeated with the same result for
as long as the committed objects stay. A lookup that falls back to a sealed run writes a selection that
every later lookup refuses. -/

namespace CardRag.Variants

open Publish (Path Bytes)
open Gc (Tree indexRoot contentRoot manifestName readyName objectPath validIdentifier)

/-- What happens to a host: lookups, a new process, a published object, and runs that are sealed. -/
inductive Event where
  | lookup (a : Args)
  | restart
  | publish (p : Path) (content : Bytes)
  | sealed (runs : List SealedRun)

section
variable (C : Controls)

/-- A committed object is not overwritten. -/
def step (h : Host) : Event → Host
  | .lookup a => (lookup C h a).1
  | .restart => { h with memory := [] }
  | .publish p content => if (h.remote.file p).isSome then h else { h with remote := h.remote.put p content }
  | .sealed runs => { h with runs }

/-- An entry of the snapshot that the run has, or takes now, is verified and has the expected OCR. -/
def RemoteChoice (h : Host) (a : Args) : Prop :=
  ∃ entries, (freeze h a.runId).2 = .ok entries ∧
    ∃ entry ∈ entriesOf entries (C.reuseKeyOf a.source a.cacheEpoch), ∃ hit,
      readVariant C h.remote entry a.source (C.reuseKeyOf a.source a.cacheEpoch) = .ok hit ∧ accepts C a.expected hit = true

/-- No two of the manifests collide. -/
def TellsApart (t : Tree) : Prop :=
  ∀ p p' b b' m m', t.file p = some b → t.file p' = some b' → C.read b = some m → C.read b' = some m' →
    C.variantId m = C.variantId m' → m = m'

end

/-! ### Reading -/

section
variable {C : Controls} {t t' : Tree} {source : Source} {key : Str} {entry : Path} {hit : Hit C}

theorem get_mono (hmono : ∀ p b, t.file p = some b → t'.file p = some b) {p : Path} {n : Nat} {b : Bytes}
    (h : get t p n = .ok (some b)) : get t' p n = .ok (some b) := by
  unfold get at h ⊢
  cases hf : t.file p with
  | none => simp [hf] at h
  | some c =>
    rw [hf] at h
    rw [hmono p c hf]
    exact h

/-- What a verified variant is read from. -/
theorem readVariant_eq_ok : readVariant C t entry source key = .ok hit ↔
    ∃ root index manifest ready, indexedVariantPath entry = some (key, root) ∧
      get t entry controlObjectMaxBytes = .ok (some index) ∧
      get t (root ++ [manifestName]) controlObjectMaxBytes = .ok (some manifest) ∧
      get t (root ++ [readyName]) controlObjectMaxBytes = .ok (some ready) ∧ C.read manifest = some hit.manifest ∧
      ¬ (C.indexes index hit.manifest = false ∨ C.verifies ready hit.manifest = false ∨ C.source hit.manifest ≠ source ∨
        C.reuseKey hit.manifest ≠ key ∨ contentRoot ++ [(C.reuseKey hit.manifest).take 2, C.reuseKey hit.manifest,
          "variants".toList, C.variantLabel hit.manifest] ≠ root) ∧
      get t (objectPath (C.output hit.manifest).1) (C.output hit.manifest).2 = .ok (some hit.body) ∧
      ¬ C.rejects hit.body ∧ ¬ (C.sha256 hit.body ≠ (C.output hit.manifest).1 ∨
        hit.body.length ≠ (C.output hit.manifest).2 ∨
        C.verifyOcr hit.body source.pageCount ≠ some (C.ocrChars hit.manifest, C.pageOutputSha256 hit.manifest)) := by
  unfold readVariant
  cases hpath : indexedVariantPath entry with
  | none => simp
  | some p =>
    obtain ⟨entryKey, root⟩ := p
    simp only [Guard.bind_eq_ok, raiseIf_eq_ok, Guard.exists_unit, not_not]
    constructor
    · rintro ⟨rfl, index, hindex, manifest, hmanifest, ready, hready, h⟩
      cases index <;> cases manifest <;> cases ready <;> try (simp at h; done)
      rename_i index manifest ready
      dsimp only at h
      cases hread : C.read manifest with
      | none => simp [hread] at h
      | some m =>
        simp only [hread, Guard.bind_eq_ok, raiseIf_eq_ok, Guard.exists_unit] at h
        obtain ⟨hid, body, hbody, h⟩ := h
        cases body with
        | none => simp at h
        | some body =>
          simp only [Guard.bind_eq_ok, raiseIf_eq_ok, Guard.exists_unit, Guard.pure_eq_ok] at h
          obtain ⟨hrej, hver, rfl⟩ := h
          exact ⟨root, index, manifest, ready, rfl, hindex, hmanifest, hready, hread, hid, hbody, hrej, hver⟩
    · rintro ⟨root', index, manifest, ready, hp, hindex, hmanifest, hready, hread, hid, hbody, hrej, hver⟩
      obtain ⟨rfl, rfl⟩ := Prod.mk.inj (Option.some.inj hp)
      refine ⟨rfl, _, hindex, _, hmanifest, _, hready, ?_⟩
      dsimp only
      rw [hread]
      dsimp only
      simp only [Guard.bind_eq_ok, raiseIf_eq_ok, Guard.exists_unit]
      refine ⟨hid, _, hbody, ?_⟩
      dsimp only
      simp only [Guard.bind_eq_ok, raiseIf_eq_ok, Guard.exists_unit, Guard.pure_eq_ok]
      exact ⟨hrej, hver, trivial⟩

/-- Objects that are added do not change what is verified. -/
theorem readVariant_mono (hmono : ∀ p b, t.file p = some b → t'.file p = some b)
    (h : readVariant C t entry source key = .ok hit) : readVariant C t' entry source key = .ok hit := by
  obtain ⟨root, index, manifest, ready, hp, hindex, hmanifest, hready, hread, hid, hbody, hrest⟩ := readVariant_eq_ok.1 h
  exact readVariant_eq_ok.2 ⟨root, index, manifest, ready, hp, get_mono hmono hindex, get_mono hmono hmanifest,
    get_mono hmono hready, hread, hid, get_mono hmono hbody, hrest⟩

theorem file_of_get {p : Path} {n : Nat} {b : Bytes} (h : get t p n = .ok (some b)) : t.file p = some b := by
  unfold get at h
  split at h
  · rename_i c hc
    split at h
    · cases h
    · exact hc.trans (Except.ok.inj h)
  · simp at h

/-- Two verified variants with one id are one variant. -/
theorem hit_unique (hapart : TellsApart C t) {entry' : Path} {hit' : Hit C}
    (h : readVariant C t entry source key = .ok hit) (h' : readVariant C t entry' source key = .ok hit')
    (hid : C.variantId hit.manifest = C.variantId hit'.manifest) : hit = hit' := by
  obtain ⟨_, _, manifest, _, -, -, hm, -, hread, -, hbody, -⟩ := readVariant_eq_ok.1 h
  obtain ⟨_, _, manifest', _, -, -, hm', -, hread', -, hbody', -⟩ := readVariant_eq_ok.1 h'
  have hman := hapart _ _ _ _ _ _ (file_of_get hm) (file_of_get hm') hread hread' hid
  obtain ⟨m, b⟩ := hit
  obtain ⟨m', b'⟩ := hit'
  obtain rfl : m = m' := hman
  simp only at hbody hbody'
  rw [hbody] at hbody'
  simpa using hbody'

end

/-! ### Choosing -/

section
variable {C : Controls} {h : Host} {a : Args} {key : Str} {entries : List Path}

theorem mem_verifiedHits {t : Tree} {hits : List (Path × Hit C)} (hv : verifiedHits C t a key entries = .ok hits)
    {p : Path × Hit C} (hp : p ∈ hits) :
    p.1 ∈ entries ∧ readVariant C t p.1 a.source key = .ok p.2 ∧ accepts C a.expected p.2 = true := by
  induction entries generalizing hits with
  | nil =>
    obtain rfl := Except.ok.inj hv
    cases hp
  | cons e es ih =>
    simp only [verifiedHits] at hv
    split at hv
    · obtain ⟨hmem, hrest⟩ := ih hv hp
      exact ⟨List.mem_cons_of_mem _ hmem, hrest⟩
    · cases hv
    · rename_i hit hread
      split at hv
      · rename_i hacc
        cases hvs : verifiedHits C t a key es with
        | error err => simp [hvs, Except.map] at hv
        | ok hs =>
          rw [hvs] at hv
          obtain rfl := Except.ok.inj hv
          rcases List.mem_cons.1 hp with rfl | hp
          · exact ⟨by simp, hread, hacc⟩
          · obtain ⟨hmem, hrest⟩ := ih hvs hp
            exact ⟨List.mem_cons_of_mem _ hmem, hrest⟩
      · obtain ⟨hmem, hrest⟩ := ih hv hp
        exact ⟨List.mem_cons_of_mem _ hmem, hrest⟩

theorem verifiedHits_ne_nil {t : Tree} {hits : List (Path × Hit C)} (hv : verifiedHits C t a key entries = .ok hits)
    {entry : Path} (hmem : entry ∈ entries) {hit : Hit C} (hread : readVariant C t entry a.source key = .ok hit)
    (hacc : accepts C a.expected hit = true) : hits ≠ [] := by
  induction entries generalizing hits with
  | nil => cases hmem
  | cons e es ih =>
    simp only [verifiedHits] at hv
    rcases List.mem_cons.1 hmem with rfl | hmem
    · rw [hread] at hv
      simp only [hacc, if_true] at hv
      cases hvs : verifiedHits C t a key es with
      | error err => simp [hvs, Except.map] at hv
      | ok hs =>
        rw [hvs] at hv
        obtain rfl := Except.ok.inj hv
        exact List.cons_ne_nil _ _
    · split at hv
      · exact ih hv hmem
      · cases hv
      · split at hv
        · cases hvs : verifiedHits C t a key es with
          | error err => simp [hvs, Except.map] at hv
          | ok hs =>
            rw [hvs] at hv
            obtain rfl := Except.ok.inj hv
            exact List.cons_ne_nil _ _
        · exact ih hv hmem

theorem newest_mem (best : Path × Hit C) (hits : List (Path × Hit C)) : newest C best hits ∈ best :: hits := by
  unfold newest
  induction hits generalizing best with
  | nil => simp
  | cons x xs ih =>
    rw [List.foldl_cons]
    split
    · exact List.mem_cons_of_mem _ (ih x)
    · rcases List.mem_cons.1 (ih best) with h | h
      · rw [h]
        simp
      · exact List.mem_cons_of_mem _ (List.mem_cons_of_mem _ h)

theorem entryOf_spec {hits : List (Path × Hit C)} {p : Path × Hit C} (hp : p ∈ hits) :
    ∃ q ∈ hits, C.variantId q.2.manifest = C.variantId p.2.manifest ∧
      entryOf C hits (C.variantId p.2.manifest) = some q.1 := by
  unfold entryOf
  induction hits using List.reverseRecOn with
  | nil => cases hp
  | append_singleton xs x ih =>
    rw [List.foldl_append, List.foldl_cons, List.foldl_nil, PyList.get?_insert]
    split
    · rename_i hx
      exact ⟨x, by simp, hx, rfl⟩
    · rename_i hx
      rcases List.mem_append.1 hp with hp | hp
      · obtain ⟨q, hq, hrest⟩ := ih hp
        exact ⟨q, List.mem_append_left _ hq, hrest⟩
      · rw [List.mem_singleton.1 hp] at hx
        exact absurd rfl hx

theorem firstHit_some {α β : Type} {f : α → Except Failure (Option β)} {xs : List α} {y : β}
    (hf : firstHit f xs = .ok (some y)) : ∃ x ∈ xs, f x = .ok (some y) := by
  induction xs with
  | nil => simp [firstHit] at hf
  | cons x xs ih =>
    simp only [firstHit] at hf
    split at hf
    · obtain ⟨x', hx', h'⟩ := ih hf
      exact ⟨x', by simp [hx'], h'⟩
    · exact ⟨x, by simp, hf⟩

theorem localDocument_entry {run : SealedRun} {doc : SealedDocument} {p : Path × Hit C}
    (hl : localDocument C a key run doc = .ok (some p)) : ∃ n d, p.1 = ["local-sealed".toList, n, d] := by
  unfold localDocument at hl
  split at hl
  · cases hl
  split at hl
  · cases hl
  split at hl
  · split at hl
    · cases hl
    split at hl
    · cases hl
    split at hl
    · cases hl
    split at hl
    · cases hl
    split at hl
    · cases hl
    · obtain rfl := Option.some.inj (Except.ok.inj hl)
      exact ⟨_, _, rfl⟩
  · cases hl

/-- The entry of a sealed run is outside every index snapshot. -/
theorem lookupLocal_entry {p : Path × Hit C} (hl : lookupLocal C h a key = .ok (some p)) (entries : List Path) (key' : Str) :
    p.1 ∉ entriesOf entries key' := by
  obtain ⟨run, -, hrun⟩ := firstHit_some hl
  obtain ⟨doc, -, hdoc⟩ := firstHit_some hrun
  obtain ⟨n, d, hp⟩ := localDocument_entry hdoc
  intro hmem
  have hindexed := (List.mem_filter.1 hmem).2
  have hroot : ¬ (["local-sealed".toList, n] : Path) = indexRoot := by
    intro heq
    simpa [indexRoot, Gc.cacheRoot] using congrArg List.length heq
  rw [hp] at hindexed
  simp only [indexedVariantPath, List.dropLast_cons_cons, List.dropLast_singleton] at hindexed
  rw [if_neg hroot] at hindexed
  cases hindexed

end

/-! ### What a run keeps -/

/-- The entries in memory are those of the snapshot. -/
def Consistent (h : Host) : Prop :=
  ∀ runId entries, PyList.get? h.memory runId = some entries → PyList.get? h.snapshots runId = some (.valid entries) ∧
    (entries.all fun e => (indexedVariantPath e).isSome) = true

/-- The files that are there stay as they are. -/
structure Keeps (h h' : Host) : Prop where
  remote : ∀ p b, h.remote.file p = some b → h'.remote.file p = some b
  snapshots : ∀ runId f, PyList.get? h.snapshots runId = some f → PyList.get? h'.snapshots runId = some f
  selections : ∀ k f, PyList.get? h.selections k = some f → PyList.get? h'.selections k = some f
  consistent : Consistent h → Consistent h'

namespace Keeps

variable {h h' h'' : Host}

theorem refl (h : Host) : Keeps h h := ⟨fun _ _ => id, fun _ _ => id, fun _ _ => id, id⟩

theorem trans (hk : Keeps h h') (hk' : Keeps h' h'') : Keeps h h'' :=
  ⟨fun p b hf => hk'.remote p b (hk.remote p b hf), fun r f hf => hk'.snapshots r f (hk.snapshots r f hf),
    fun k f hf => hk'.selections k f (hk.selections k f hf), fun hc => hk'.consistent (hk.consistent hc)⟩

end Keeps

section
variable {C : Controls} {h : Host} {a : Args} {runId : Str} {entries : List Path}

theorem freeze_memory (hsnap : PyList.get? h.snapshots runId = some (.valid entries))
    (hall : (entries.all fun e => (indexedVariantPath e).isSome) = true) :
    Keeps h { h with memory := PyList.insert runId entries h.memory } := by
  refine ⟨fun _ _ => id, fun _ _ => id, fun _ _ => id, fun hc r es hget => ?_⟩
  simp only [PyList.get?_insert] at hget
  split at hget
  · rename_i heq
    obtain rfl := heq
    obtain rfl := Option.some.inj hget
    exact ⟨hsnap, hall⟩
  · exact hc r es hget

/-- A snapshot that is taken or read stays, with what is there already. -/
theorem freeze_keeps (h : Host) (runId : Str) : Keeps h (freeze h runId).1 ∧ (freeze h runId).1.selections = h.selections ∧
    (freeze h runId).1.remote = h.remote := by
  unfold freeze
  split
  · exact ⟨Keeps.refl h, rfl, rfl⟩
  split
  · exact ⟨Keeps.refl h, rfl, rfl⟩
  split
  · exact ⟨Keeps.refl h, rfl, rfl⟩
  · rename_i entries hsnap
    split
    · rename_i hall
      exact ⟨freeze_memory hsnap hall, rfl, rfl⟩
    · exact ⟨Keeps.refl h, rfl, rfl⟩
  · rename_i hsnap
    dsimp only
    split
    · exact ⟨Keeps.refl h, rfl, rfl⟩
    split
    · exact ⟨Keeps.refl h, rfl, rfl⟩
    split
    · exact ⟨Keeps.refl h, rfl, rfl⟩
    · rename_i hall _
      simp only [Bool.not_eq_false] at hall
      refine ⟨?_, rfl, rfl⟩
      have hfile : Keeps h { h with
          snapshots := PyList.insert runId (.valid (PyList.sortedBy posix (h.remote.children indexRoot))) h.snapshots } := by
        have hsnaps : ∀ r f, PyList.get? h.snapshots r = some f → PyList.get? (PyList.insert runId
            (File.valid (PyList.sortedBy posix (h.remote.children indexRoot))) h.snapshots) r = some f := by
          intro r f hf
          rw [PyList.get?_insert, if_neg]
          · exact hf
          · rintro rfl
            rw [hsnap] at hf
            cases hf
        refine ⟨fun _ _ => id, hsnaps, fun _ _ => id, fun hc r es hget => ?_⟩
        obtain ⟨hs, ha⟩ := hc r es hget
        exact ⟨hsnaps r _ hs, ha⟩
      refine hfile.trans (freeze_memory ?_ hall)
      rw [PyList.get?_insert, if_pos rfl]

theorem freeze_ok (hc : Consistent h) (hok : (freeze h runId).2 = .ok entries) :
    validIdentifier runId = true ∧ PyList.get? (freeze h runId).1.snapshots runId = some (.valid entries) ∧
      (entries.all fun e => (indexedVariantPath e).isSome) = true := by
  unfold freeze at hok ⊢
  split at hok
  · cases hok
  · rename_i hid
    simp only [Bool.not_eq_false] at hid
    rw [if_neg (by simp [hid])]
    refine ⟨hid, ?_⟩
    split at hok
    · rename_i hmem
      obtain rfl := Except.ok.inj hok
      exact hc runId _ hmem
    · split at hok
      · cases hok
      · rename_i hsnap
        split at hok
        · rename_i hall
          obtain rfl := Except.ok.inj hok
          rw [if_pos hall]
          exact ⟨hsnap, hall⟩
        · cases hok
      · dsimp only at hok ⊢
        split at hok
        · cases hok
        · rename_i h1
          split at hok
          · cases hok
          · rename_i h2
            split at hok
            · cases hok
            · rename_i h3
              obtain rfl := Except.ok.inj hok
              rw [if_neg h1, if_neg h2, if_neg h3]
              simp only [Bool.not_eq_false] at h2
              exact ⟨by rw [PyList.get?_insert, if_pos rfl], h2⟩

theorem freeze_again (hc : Consistent h) (hid : validIdentifier runId = true)
    (hsnap : PyList.get? h.snapshots runId = some (.valid entries))
    (hall : (entries.all fun e => (indexedVariantPath e).isSome) = true) : (freeze h runId).2 = .ok entries := by
  unfold freeze
  rw [if_neg (by simp [hid])]
  cases hmem : PyList.get? h.memory runId with
  | some es =>
    obtain ⟨hs, -⟩ := hc runId es hmem
    rw [hsnap] at hs
    simpa using hs.symm
  | none =>
    rw [hsnap]
    dsimp only
    rw [if_pos hall]

/-- A selection is written where there is none. -/
theorem select_keeps (key : Str) (entry : Path) (hit : Hit C)
    (hnone : ∀ d, a.documentId = some d → PyList.get? h.selections (a.runId, d) = none) :
    Keeps h (select C h a key entry hit) := by
  unfold select
  cases hd : a.documentId with
  | none => exact Keeps.refl h
  | some d =>
    refine ⟨fun _ _ => id, fun _ _ => id, fun k f hf => ?_, id⟩
    rw [PyList.get?_insert, if_neg]
    · exact hf
    · rintro rfl
      rw [hnone d hd] at hf
      cases hf

theorem choose_keeps (key : Str) (hnone : ∀ d, a.documentId = some d → PyList.get? h.selections (a.runId, d) = none) :
    Keeps h (choose C h a key entries).1 := by
  unfold choose
  split
  · exact Keeps.refl h
  · split
    · exact Keeps.refl h
    · exact Keeps.refl h
    · exact select_keeps key _ _ hnone
  · exact select_keeps key _ _ hnone

theorem lookup_keeps (h : Host) (a : Args) : Keeps h (lookup C h a).1 := by
  obtain ⟨hf, -, -⟩ := freeze_keeps h a.runId
  unfold lookup
  dsimp only
  split
  · rename_i h' e hfr
    rw [hfr] at hf
    exact hf
  · rename_i h' es hfr
    rw [hfr] at hf
    split
    · rename_i hd
      exact hf.trans (choose_keeps _ fun d hd' => by rw [hd] at hd'; cases hd')
    · rename_i d hd
      split
      · exact hf
      · split
        · exact hf
        · rename_i hsel
          refine hf.trans (choose_keeps _ fun d' hd' => ?_)
          rw [hd] at hd'
          obtain rfl := Option.some.inj hd'
          exact hsel

theorem step_keeps (h : Host) (e : Event) : Keeps h (step C h e) := by
  cases e with
  | lookup a => exact lookup_keeps h a
  | restart => exact ⟨fun _ _ => id, fun _ _ => id, fun _ _ => id, fun _ r es hget => by cases hget⟩
  | publish p content =>
    simp only [step]
    split
    · exact Keeps.refl h
    · rename_i hnone
      refine ⟨fun q b hq => ?_, fun _ _ => id, fun _ _ => id, id⟩
      rw [Gc.Tree.file_put]
      split
      · rename_i heq
        subst heq
        rw [hq] at hnone
        simp at hnone
      · exact hq
  | sealed runs => exact ⟨fun _ _ => id, fun _ _ => id, fun _ _ => id, id⟩

theorem run_keeps (h : Host) (es : List Event) : Keeps h (runFrom (step C) h es) := by
  induction es generalizing h with
  | nil => exact Keeps.refl h
  | cons e es ih => exact (step_keeps h e).trans (ih _)

end

/-! ### What is chosen stays -/

/-- The choice of the document is on record: its run's snapshot, its selection, and the variant behind it. -/
structure Chosen (C : Controls) (a : Args) (documentId : Str) (entries : List Path) (s : Selection) (hit : Hit C) (h : Host) :
    Prop where
  consistent : Consistent h
  run : validIdentifier a.runId = true
  document : validIdentifier documentId = true
  snapshot : PyList.get? h.snapshots a.runId = some (.valid entries)
  indexed : (entries.all fun e => (indexedVariantPath e).isSome) = true
  selection : PyList.get? h.selections (a.runId, documentId) = some (.valid s)
  key : s.reuseKey = C.reuseKeyOf a.source a.cacheEpoch
  entry : s.entry ∈ entriesOf entries s.reuseKey
  read : readVariant C h.remote s.entry a.source s.reuseKey = .ok hit
  variant : C.variantId hit.manifest = s.variantId
  accepted : accepts C a.expected hit = true

section
variable {C : Controls} {h h' : Host} {a : Args} {documentId : Str} {entries : List Path} {s : Selection} {hit : Hit C}

theorem Chosen.keep (hi : Chosen C a documentId entries s hit h) (hk : Keeps h h') : Chosen C a documentId entries s hit h' where
  consistent := hk.consistent hi.consistent
  run := hi.run
  document := hi.document
  snapshot := hk.snapshots _ _ hi.snapshot
  indexed := hi.indexed
  selection := hk.selections _ _ hi.selection
  key := hi.key
  entry := hi.entry
  read := readVariant_mono hk.remote hi.read
  variant := hi.variant
  accepted := hi.accepted

theorem lookup_of_freeze {h1 : Host} (hf : freeze h a.runId = (h1, .ok entries)) (hd : a.documentId = some documentId) :
    lookup C h a = if validIdentifier documentId = false then (h1, .error .identifier)
      else match PyList.get? h1.selections (a.runId, documentId) with
        | some selection => (h1, (readSelection C h1 a (C.reuseKeyOf a.source a.cacheEpoch) entries selection).map some)
        | none => choose C h1 a (C.reuseKeyOf a.source a.cacheEpoch) entries := by
  unfold lookup
  rewrite [hf, hd]
  rfl

theorem Chosen.lookup (hi : Chosen C a documentId entries s hit h) (hd : a.documentId = some documentId) :
    (lookup C h a).2 = .ok (some hit) := by
  have hfreeze := freeze_again hi.consistent hi.run hi.snapshot hi.indexed
  obtain ⟨-, hsel, hremote⟩ := freeze_keeps h a.runId
  have hread : readSelection C (freeze h a.runId).1 a (C.reuseKeyOf a.source a.cacheEpoch) entries (.valid s) = .ok hit := by
    simp only [readSelection, ← hi.key, hremote, hi.read, hi.variant, hi.accepted]
    simp [hi.entry]
  rw [lookup_of_freeze (Prod.ext rfl hfreeze) hd, if_neg (by simp [hi.document]), hsel, hi.selection]
  dsimp only
  rw [hread]
  rfl

/-- A selection that was read back is the choice. -/
theorem chosen_of_readSelection {selection : File Selection} (hc : Consistent h) (hrun : validIdentifier a.runId = true)
    (hdoc : validIdentifier documentId = true) (hsnap : PyList.get? h.snapshots a.runId = some (.valid entries))
    (hall : (entries.all fun e => (indexedVariantPath e).isSome) = true)
    (hsel : PyList.get? h.selections (a.runId, documentId) = some selection)
    (hread : readSelection C h a (C.reuseKeyOf a.source a.cacheEpoch) entries selection = .ok hit) :
    ∃ s, Chosen C a documentId entries s hit h := by
  cases selection with
  | invalid => cases hread
  | valid s =>
    unfold readSelection at hread
    dsimp only at hread
    split at hread
    · cases hread
    rename_i hkey
    rw [ne_eq, not_not] at hkey
    split at hread
    · cases hread
    rename_i hmem
    rw [not_not] at hmem
    split at hread
    · cases hread
    · cases hread
    rename_i hit' hok
    split at hread
    · cases hread
    rename_i hvar
    rw [ne_eq, not_not] at hvar
    split at hread
    · cases hread
    rename_i hacc
    obtain rfl := Except.ok.inj hread
    exact ⟨s, hc, hrun, hdoc, hsnap, hall, hsel, hkey, hkey ▸ hmem, hkey ▸ hok, hvar, by simpa using hacc⟩

/-- The newest of the verified variants becomes the choice. -/
theorem chosen_of_verifiedHits {key : Str} {first : Path × Hit C} {rest : List (Path × Hit C)} (hc : Consistent h)
    (hrun : validIdentifier a.runId = true) (hdoc : validIdentifier documentId = true)
    (hsnap : PyList.get? h.snapshots a.runId = some (.valid entries))
    (hall : (entries.all fun e => (indexedVariantPath e).isSome) = true) (hd : a.documentId = some documentId)
    (hkey : key = C.reuseKeyOf a.source a.cacheEpoch) (hapart : TellsApart C h.remote)
    (hv : verifiedHits C h.remote a key (entriesOf entries key) = .ok (first :: rest)) :
    ∃ s, Chosen C a documentId entries s (newest C first rest).2 (select C h a key
      ((entryOf C (first :: rest) (C.variantId (newest C first rest).2.manifest)).getD []) (newest C first rest).2) := by
  have hnew := newest_mem first rest
  obtain ⟨-, hnread, hnacc⟩ := mem_verifiedHits hv hnew
  obtain ⟨q, hq, hid, hentry⟩ := entryOf_spec hnew
  obtain ⟨hqmem, hqread, -⟩ := mem_verifiedHits hv hq
  have hsame : q.2 = (newest C first rest).2 := hit_unique hapart hqread hnread hid
  rw [hsame] at hqread
  have hhost : select C h a key ((entryOf C (first :: rest) (C.variantId (newest C first rest).2.manifest)).getD [])
      (newest C first rest).2 = { h with
        selections := PyList.insert (a.runId, documentId)
          (.valid ⟨key, q.1, C.variantId (newest C first rest).2.manifest⟩) h.selections } := by
    simp only [select, hd, hentry, Option.getD_some]
  rw [hhost]
  exact ⟨⟨key, q.1, _⟩, hc, hrun, hdoc, hsnap, hall, by rw [PyList.get?_insert, if_pos rfl], hkey, hqmem, hqread, rfl, hnacc⟩

end

section
variable {C : Controls} {h : Host} {a : Args} {documentId : Str} {hit : Hit C}

/-- A lookup that returned a variant of the index has chosen it. -/
theorem chosen_of_lookup (hc : Consistent h) (hd : a.documentId = some documentId) (hapart : TellsApart C h.remote)
    (hremote : RemoteChoice C h a) (hl : (lookup C h a).2 = .ok (some hit)) :
    ∃ entries s, Chosen C a documentId entries s hit (lookup C h a).1 := by
  obtain ⟨entries, hfr, entry, hentry, hit', hread, hacc⟩ := hremote
  obtain ⟨hrun, hsnap, hall⟩ := freeze_ok hc hfr
  obtain ⟨hkeep, -, hrem⟩ := freeze_keeps h a.runId
  have hc1 := hkeep.consistent hc
  rw [lookup_of_freeze (Prod.ext rfl hfr) hd] at hl ⊢
  split at hl
  · cases hl
  rename_i hdoc
  simp only [Bool.not_eq_false] at hdoc
  rw [if_neg (by simp [hdoc])]
  cases hsel : PyList.get? (freeze h a.runId).1.selections (a.runId, documentId) with
  | some selection =>
    rw [hsel] at hl
    dsimp only at hl ⊢
    cases hrs : readSelection C (freeze h a.runId).1 a (C.reuseKeyOf a.source a.cacheEpoch) entries selection with
    | error e => simp [hrs, Except.map] at hl
    | ok hit'' =>
      rw [hrs] at hl
      obtain rfl := Option.some.inj (Except.ok.inj hl)
      exact ⟨entries, chosen_of_readSelection hc1 hrun hdoc hsnap hall hsel hrs⟩
  | none =>
    rw [hsel] at hl
    dsimp only at hl ⊢
    unfold choose at hl ⊢
    cases hv : verifiedHits C (freeze h a.runId).1.remote a (C.reuseKeyOf a.source a.cacheEpoch)
        (entriesOf entries (C.reuseKeyOf a.source a.cacheEpoch)) with
    | error e => simp [hv] at hl
    | ok hits =>
      rw [hv] at hl
      cases hits with
      | nil => exact absurd rfl (verifiedHits_ne_nil hv hentry (hrem ▸ hread) hacc)
      | cons first rest =>
        obtain rfl := Option.some.inj (Except.ok.inj hl)
        exact ⟨entries, chosen_of_verifiedHits hc1 hrun hdoc hsnap hall hd rfl (hrem ▸ hapart) hv⟩

theorem select_selections (key : Str) (entry : Path) (hit : Hit C) (hd : a.documentId = some documentId) :
    (select C h a key entry hit).snapshots = h.snapshots ∧ (select C h a key entry hit).selections =
      PyList.insert (a.runId, documentId) (.valid ⟨key, entry, C.variantId hit.manifest⟩) h.selections := by
  unfold select
  rw [hd]
  exact ⟨rfl, rfl⟩

/-- A selection of an entry outside the snapshot is refused. -/
theorem refused_of_entry {entries : List Path} {s : Selection} (hc : Consistent h) (hrun : validIdentifier a.runId = true)
    (hdoc : validIdentifier documentId = true) (hsnap : PyList.get? h.snapshots a.runId = some (.valid entries))
    (hall : (entries.all fun e => (indexedVariantPath e).isSome) = true) (hd : a.documentId = some documentId)
    (hsel : PyList.get? h.selections (a.runId, documentId) = some (.valid s))
    (hout : s.entry ∉ entriesOf entries (C.reuseKeyOf a.source a.cacheEpoch)) (hit' : Hit C) :
    (lookup C h a).2 ≠ .ok (some hit') := by
  obtain ⟨-, hsels, -⟩ := freeze_keeps h a.runId
  rw [lookup_of_freeze (Prod.ext rfl (freeze_again hc hrun hsnap hall)) hd, if_neg (by simp [hdoc]), hsels, hsel]
  dsimp only [readSelection]
  split
  · exact fun h => by cases h
  · simp [Except.map]

/-- A lookup that returned sealed OCR is refused when it is repeated. -/
theorem refused_of_lookup (hc : Consistent h) (hd : a.documentId = some documentId) (hremote : ¬ RemoteChoice C h a)
    (hl : (lookup C h a).2 = .ok (some hit)) (hit' : Hit C) :
    (lookup C (lookup C h a).1 a).2 ≠ .ok (some hit') := by
  obtain ⟨hkeep, -, hrem⟩ := freeze_keeps h a.runId
  cases hfr : (freeze h a.runId).2 with
  | error e =>
    have heq : freeze h a.runId = ((freeze h a.runId).1, .error e) := Prod.ext rfl hfr
    simp only [lookup] at hl
    rw [heq] at hl
    cases hl
  | ok entries =>
    obtain ⟨hrun, hsnap, hall⟩ := freeze_ok hc hfr
    have hc1 := hkeep.consistent hc
    have hnone : ∀ entry ∈ entriesOf entries (C.reuseKeyOf a.source a.cacheEpoch), ∀ hit,
        readVariant C h.remote entry a.source (C.reuseKeyOf a.source a.cacheEpoch) = .ok hit →
          accepts C a.expected hit ≠ true := fun entry hmem hit hread hacc =>
      hremote ⟨entries, hfr, entry, hmem, hit, hread, hacc⟩
    rw [lookup_of_freeze (Prod.ext rfl hfr) hd] at hl ⊢
    split at hl
    · cases hl
    rename_i hdoc
    simp only [Bool.not_eq_false] at hdoc
    rw [if_neg (by simp [hdoc])]
    cases hsel : PyList.get? (freeze h a.runId).1.selections (a.runId, documentId) with
    | some selection =>
      rw [hsel] at hl
      dsimp only at hl
      cases hrs : readSelection C (freeze h a.runId).1 a (C.reuseKeyOf a.source a.cacheEpoch) entries selection with
      | error e => simp [hrs, Except.map] at hl
      | ok hit'' =>
        obtain ⟨s, hs⟩ := chosen_of_readSelection hc1 hrun hdoc hsnap hall hsel hrs
        exact absurd hs.accepted (hnone _ (hs.key ▸ hs.entry) _ (hrem ▸ hs.key ▸ hs.read))
    | none =>
      rw [hsel] at hl
      dsimp only at hl ⊢
      unfold choose at hl ⊢
      cases hv : verifiedHits C (freeze h a.runId).1.remote a (C.reuseKeyOf a.source a.cacheEpoch)
          (entriesOf entries (C.reuseKeyOf a.source a.cacheEpoch)) with
      | error e => simp [hv] at hl
      | ok hits =>
        rw [hv] at hl
        cases hits with
        | cons first rest =>
          obtain ⟨hmem, hread, hacc⟩ := mem_verifiedHits hv (List.mem_cons_self (a := first) (l := rest))
          exact absurd hacc (hnone _ hmem _ (hrem ▸ hread))
        | nil =>
          dsimp only at hl ⊢
          cases hloc : lookupLocal C (freeze h a.runId).1 a (C.reuseKeyOf a.source a.cacheEpoch) with
          | error e => simp [hloc] at hl
          | ok found =>
            cases found with
            | none => simp [hloc] at hl
            | some p =>
              dsimp only
              obtain ⟨hsnaps, hsels⟩ := select_selections (h := (freeze h a.runId).1) (C.reuseKeyOf a.source a.cacheEpoch)
                p.1 p.2 hd
              refine refused_of_entry (s := ⟨C.reuseKeyOf a.source a.cacheEpoch, p.1, C.variantId p.2.manifest⟩) ?_ hrun
                hdoc (hsnaps ▸ hsnap) hall hd ?_ (lookupLocal_entry hloc entries _) hit'
              · exact (select_keeps _ _ _ fun d hd' => by
                  rw [hd] at hd'
                  exact Option.some.inj hd' ▸ hsel).consistent hc1
              · rw [hsels, PyList.get?_insert, if_pos rfl]

end

/-- The variant a lookup returned is the variant of every later lookup exactly where an entry of the run's index
snapshot is verified and has the expected OCR. -/
theorem choice_kept_iff (C : Controls) (h0 : Host) (hmemory : h0.memory = []) (before : List Event) (a : Args)
    (hdocument : a.documentId.isSome) (hit : Hit C)
    (hreturned : (lookup C (runFrom (step C) h0 before) a).2 = .ok (some hit))
    (hapart : TellsApart C (runFrom (step C) h0 before).remote) :
    (∀ after : List Event, ∃ hit' : Hit C,
      (lookup C (runFrom (step C) (lookup C (runFrom (step C) h0 before) a).1 after) a).2 = .ok (some hit') ∧
        C.variantId hit'.manifest = C.variantId hit.manifest ∧ hit'.body = hit.body) ↔
      RemoteChoice C (runFrom (step C) h0 before) a := by
  obtain ⟨documentId, hd⟩ := Option.isSome_iff_exists.1 hdocument
  have hempty : Consistent h0 := by
    intro runId entries hget
    rw [hmemory] at hget
    cases hget
  have hc := (run_keeps (C := C) h0 before).consistent hempty
  constructor
  · intro hkept
    by_contra hremote
    obtain ⟨hit', hl, -⟩ := hkept []
    exact refused_of_lookup hc hd hremote hreturned hit' hl
  · intro hremote after
    obtain ⟨entries, s, hchosen⟩ := chosen_of_lookup hc hd hapart hremote hreturned
    exact ⟨hit, (hchosen.keep (run_keeps _ after)).lookup hd, rfl, rfl⟩

/-- Digests that are the text itself, and manifests that are digests. -/
def plain : Controls where
  Manifest := Str
  source _ := ⟨"p".toList, 1, 1⟩
  cacheEpoch _ := 0
  reuseKey _ := List.replicate 64 'a'
  variantId m := m
  variantLabel _ := "20260101T000000000000Z-aaaaaaaaaaaa".toList
  manifestSha256 m := m
  output m := (m, m.length)
  ocrChars m := m.length
  pageOutputSha256 m := [m]
  createdAt _ := 0
  read b := some (b.map fun c => Char.ofNat c.toNat)
  verifies _ _ := true
  indexes _ _ := true
  reuseKeyOf _ _ := List.replicate 64 'a'
  create _ _ ocr _ _ _ _ _ := ocr.1
  sha256 b := b.map fun c => Char.ofNat c.toNat
  rejects _ := false
  verifyOcr b _ := some (b.length, [b.map fun c => Char.ofNat c.toNat])

def onePage : Args := ⟨"r2".toList, ⟨"p".toList, 1, 1⟩, 0, none, some "d".toList⟩

/-- Nothing in the index, and run `r1` is sealed with the OCR of the document. -/
def sealedHost : Host where
  remote := ⟨[], []⟩
  snapshots := []
  selections := []
  runs := [⟨"r1".toList, "g".toList, [⟨some "d".toList, true, ("p".toList, 1), 1, none, none, some ("x".toList, 1), none, 0⟩],
    [("d".toList, [120])], [], []⟩]
  memory := []

theorem sealed_choice_refused :
    (lookup plain sealedHost onePage).2 = .ok (some ⟨"x".toList, [120]⟩) ∧
      (lookup plain (lookup plain sealedHost onePage).1 onePage).2 =
        .error (.validation "content selection is outside the run snapshot") := by
  constructor <;> rfl

/-- One committed variant. -/
def indexedHost : Host where
  remote :=
    let key : Str := List.replicate 64 'a'
    let label := "20260101T000000000000Z-aaaaaaaaaaaa".toList
    let root := contentRoot ++ [key.take 2, key, "variants".toList, label]
    ⟨[], [(indexRoot ++ [key ++ "-".toList ++ label ++ ".json".toList], [105]), (root ++ [manifestName], [120]),
      (root ++ [readyName], [114]), (objectPath "x".toList, [120])]⟩
  snapshots := []
  selections := []
  runs := []
  memory := []

set_option maxRecDepth 8000 in
theorem choice_kept_indexed :
    (∀ after : List Event, ∃ hit' : Hit plain,
      (lookup plain (runFrom (step plain) (lookup plain (runFrom (step plain) indexedHost []) onePage).1 after) onePage).2 =
          .ok (some hit') ∧
        plain.variantId hit'.manifest = "x".toList ∧ hit'.body = [120]) ↔
      RemoteChoice plain (runFrom (step plain) indexedHost []) onePage :=
  choice_kept_iff plain indexedHost rfl [] onePage rfl ⟨"x".toList, [120]⟩ rfl (fun _ _ _ _ _ _ _ _ _ _ h => h)

end CardRag.Variants
