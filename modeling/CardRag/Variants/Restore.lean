import CardRag.Variants.Fresh
import CardRag.Variants.Published

/-! # Restoring a variant (`content_cache.py`)

`restore_variant` lists the verified variants of a PDF and publishes an old one again as the latest. A
lookup passes over a sibling that is not verified, the listing of a restore raises for it; otherwise a
restored variant is what every new run finds. -/

namespace CardRag.Variants

open Publish (Path Bytes validPath safeSegment isPortable)
open Gc (Tree indexRoot contentRoot manifestName readyName objectPath validIdentifier ContentControls)

/-- `datetime.max`, in microseconds since 1970. -/
def maxMoment : Int := 253402300799999999

/-- The manifests that `restore_variant` makes, and the control objects of a manifest. -/
structure Publication (C : Controls) where
  /-- `create` from a verified manifest, for a source, an epoch and a time. -/
  restored : C.Manifest → Source → Nat → Int → C.Manifest
  migratedFrom : C.Manifest → Option (Str × Str)
  canonicalBytes : C.Manifest → Bytes
  readyBytes : C.Manifest → Bytes
  indexBytes : C.Manifest → Bytes
  isSha256_reuseKey : ∀ m, isSha256 (C.reuseKey m) = true
  validIdentifier_variantId : ∀ m, validIdentifier (C.variantId m) = true
  read_canonicalBytes : ∀ m, C.read (canonicalBytes m) = some m
  verifies_readyBytes : ∀ m, C.verifies (readyBytes m) m = true
  indexes_indexBytes : ∀ m, C.indexes (indexBytes m) m = true
  readyBytes_le : ∀ m, (readyBytes m).length ≤ controlObjectMaxBytes
  indexBytes_le : ∀ m, (indexBytes m).length ≤ controlObjectMaxBytes
  /-- The label of a time since 1970 is its digits and twelve of the digest. -/
  safeSegment_variantLabel : ∀ m, 0 ≤ C.createdAt m → safeSegment (C.variantLabel m) = true
  indexName_variantLabel : ∀ m, 0 ≤ C.createdAt m →
    indexName (C.reuseKey m ++ ['-'] ++ C.variantLabel m ++ ".json".toList) = some (C.reuseKey m, C.variantLabel m)
  source_restored : ∀ m epoch at', C.source (restored m (C.source m) epoch at') = C.source m
  reuseKey_restored : ∀ m epoch at', C.reuseKey (restored m (C.source m) epoch at') = C.reuseKeyOf (C.source m) epoch
  output_restored : ∀ m epoch at', C.output (restored m (C.source m) epoch at') = C.output m
  ocrChars_restored : ∀ m epoch at', C.ocrChars (restored m (C.source m) epoch at') = C.ocrChars m
  pageOutputSha256_restored : ∀ m epoch at',
    C.pageOutputSha256 (restored m (C.source m) epoch at') = C.pageOutputSha256 m
  createdAt_restored : ∀ m epoch at', 0 ≤ at' → at' ≤ maxMoment →
    C.createdAt (restored m (C.source m) epoch at') = at'

/-- The manifests as the publishers see them; `publish_existing` checks the body before it writes. -/
def Publication.controls {C : Controls} (P : Publication C) : ContentControls where
  Manifest := C.Manifest
  reuseKey := C.reuseKey
  variantId := C.variantId
  variantLabel := C.variantLabel
  outputSha256 m := (C.output m).1
  outputSizeBytes m := (C.output m).2
  migratedFrom := P.migratedFrom
  isSha256_reuseKey := P.isSha256_reuseKey
  canonicalBytes := P.canonicalBytes
  read := C.read
  read_canonicalBytes := P.read_canonicalBytes
  readyBytes := P.readyBytes
  verifies := C.verifies
  verifies_readyBytes := P.verifies_readyBytes
  indexBytes := P.indexBytes
  verifyOcr m body := !C.rejects body && decide (C.sha256 body = (C.output m).1 ∧ body.length = (C.output m).2 ∧
    C.verifyOcr body (C.source m).pageCount = some (C.ocrChars m, C.pageOutputSha256 m))

inductive RestoreFailure where
  | read (failure : Failure)
  /-- The time is after `datetime.max`. -/
  | overflow
  /-- `publish_existing` does not complete. -/
  | publication

section
variable (C : Controls)

/-- The key of `sorted` in `verified_variants`. -/
def timeKey (hit : Hit C) : Int ×ₗ Str := toLex (C.createdAt hit.manifest, C.manifestSha256 hit.manifest)

/-- The loop of `verified_variants`. -/
def readSiblings (t : Tree) (source : Source) (key : Str) : List Path → Except Failure (List (Hit C))
  | [] => .ok []
  | entry :: entries =>
    match indexedVariantPath entry with
    | none => .error (.validation "content index entry name is invalid")
    | some (entryKey, _) =>
      if entryKey = key then do
        let hit ← readVariant C t entry source key
        return hit :: (← readSiblings t source key entries)
      else readSiblings t source key entries

def verifiedVariants (t : Tree) (source : Source) (cacheEpoch : Nat) : Except Failure (List (Hit C)) := do
  let entries := t.children indexRoot
  raiseIf (maxIndexEntries < entries.length) (.validation "content index exceeds the lookup limit")
  let hits ← readSiblings C t source (C.reuseKeyOf source cacheEpoch) entries
  return PyList.sortedBy (timeKey C) hits

end

section
variable {C : Controls} (P : Publication C)

/-- `restore_variant` at a time of the clock. -/
def restoreVariant (t : Tree) (now : Nat) (source : Source) (cacheEpoch : Nat) (variantId : Str) :
    Except RestoreFailure (Tree × C.Manifest) :=
  if validIdentifier variantId = false then .error (.read .identifier)
  else match verifiedVariants C t source cacheEpoch with
    | .error e => .error (.read e)
    | .ok hits =>
      match hits.find? (C.variantId ·.manifest = variantId), hits.getLast? with
      | some original, some last =>
        let createdAt := max (now : Int) (C.createdAt last.manifest + 1)
        if maxMoment < createdAt then .error .overflow
        else
          let manifest : P.controls.Manifest := P.restored original.manifest source cacheEpoch createdAt
          match Gc.publishVariant C.sha256 t manifest none with
          | none => .error .publication
          | some t' => .ok (t', manifest)
      | _, _ => .error (.read (.validation "requested historical variant is not verified"))

/-- The restore succeeds, and every new run then finds the OCR of the variant. -/
def TakesEffect (t : Tree) (now : Nat) (source : Source) (cacheEpoch : Nat) (original : Hit C) : Prop :=
  ∃ t' manifest, restoreVariant P t now source cacheEpoch (C.variantId original.manifest) = .ok (t', manifest) ∧
    ∀ h a, h.remote = t' → FreshRun h a → a.source = source → a.cacheEpoch = cacheEpoch → a.expected = none →
      ∃ hit, (lookup C h a).2 = .ok (some hit) ∧ hit.body = original.body

/-- The times of the siblings that are verified. -/
def siblingTimes (C : Controls) (t : Tree) (source : Source) (cacheEpoch : Nat) : Set Int :=
  let key := C.reuseKeyOf source cacheEpoch
  {at' | ∃ entry ∈ entriesOf (t.children indexRoot) key, ∃ hit,
    readVariant C t entry source key = .ok hit ∧ C.createdAt hit.manifest = at'}

/-- The controls of the manifest can be written, and read by every new run. -/
structure Room (t : Tree) (m : C.Manifest) : Prop where
  manifest : Writable t (P.controls.variantRoot m ++ [manifestName]) (P.canonicalBytes m)
  ready : Writable t (P.controls.variantRoot m ++ [readyName]) (P.readyBytes m)
  index : Writable t (P.controls.indexPath m) (P.indexBytes m)
  size : (P.canonicalBytes m).length ≤ controlObjectMaxBytes
  snapshot : (snapshotJson (PyList.sortedBy posix (P.controls.indexPath m :: t.children indexRoot))).render.length ≤
    maxSnapshotBytes

/-- Every entry of the index is named as one and every sibling is verified, and there is room for one more variant
after the latest of them. -/
structure Restorable (t : Tree) (now : Nat) (source : Source) (cacheEpoch : Nat) (original : Hit C) : Prop where
  limit : (t.children indexRoot).length < maxIndexEntries
  named : ∀ entry ∈ t.children indexRoot, (indexedVariantPath entry).isSome
  siblings : ∀ entry ∈ entriesOf (t.children indexRoot) (C.reuseKeyOf source cacheEpoch), ∃ hit,
    readVariant C t entry source (C.reuseKeyOf source cacheEpoch) = .ok hit
  room : ∀ latest, IsGreatest (siblingTimes C t source cacheEpoch) latest →
    max (now : Int) (latest + 1) ≤ maxMoment ∧
      Room P t (P.restored original.manifest source cacheEpoch (max (now : Int) (latest + 1)))

end

/-! ### The listing -/

section
variable {C : Controls} {t t' : Tree} {source : Source} {key : Str} {entries : List Path} {hits : List (Hit C)}

theorem readSiblings_eq_ok : readSiblings C t source key entries = .ok hits ↔
    (∀ entry ∈ entries, (indexedVariantPath entry).isSome) ∧
      (entriesOf entries key).mapM (fun entry => readVariant C t entry source key) = .ok hits := by
  induction entries generalizing hits with
  | nil =>
    show Except.ok [] = Except.ok hits ↔ _
    constructor
    · intro h
      exact ⟨nofun, h⟩
    · intro h
      exact h.2
  | cons entry entries ih =>
    simp only [readSiblings]
    cases hpath : indexedVariantPath entry with
    | none => simp [hpath]
    | some p =>
      obtain ⟨entryKey, root⟩ := p
      dsimp only
      split
      · rename_i hkey
        have hcons : entriesOf (entry :: entries) key = entry :: entriesOf entries key := by
          simp [entriesOf, hpath, hkey]
        simp only [Guard.bind_eq_ok, Guard.pure_eq_ok, ih, hcons, List.mapM_cons, List.forall_mem_cons, hpath,
          Option.isSome_some, true_and]
        constructor
        · rintro ⟨hit, hread, rest, ⟨hnamed, hrest⟩, rfl⟩
          exact ⟨hnamed, hit, hread, rest, hrest, rfl⟩
        · rintro ⟨hnamed, hit, hread, rest, hrest, rfl⟩
          exact ⟨hit, hread, rest, ⟨hnamed, hrest⟩, rfl⟩
      · rename_i hkey
        have hskip : entriesOf (entry :: entries) key = entriesOf entries key := by
          simp [entriesOf, hpath, hkey]
        rw [ih, hskip]
        simp [hpath]

/-- What `verified_variants` returns, in the order of their times. -/
theorem verifiedVariants_eq_ok {cacheEpoch : Nat} : verifiedVariants C t source cacheEpoch = .ok hits ↔
    (t.children indexRoot).length ≤ maxIndexEntries ∧
      (∀ entry ∈ t.children indexRoot, (indexedVariantPath entry).isSome) ∧
      ∃ read, (entriesOf (t.children indexRoot) (C.reuseKeyOf source cacheEpoch)).mapM
          (fun entry => readVariant C t entry source (C.reuseKeyOf source cacheEpoch)) = .ok read ∧
        hits = PyList.sortedBy (timeKey C) read := by
  simp only [verifiedVariants, Guard.bind_eq_ok, raiseIf_eq_ok, Guard.exists_unit, Guard.pure_eq_ok, readSiblings_eq_ok,
    not_lt]
  constructor
  · rintro ⟨hlimit, read, ⟨hnamed, hread⟩, rfl⟩
    exact ⟨hlimit, hnamed, read, hread, rfl⟩
  · rintro ⟨hlimit, hnamed, read, hread, rfl⟩
    exact ⟨hlimit, read, ⟨hnamed, hread⟩, rfl⟩

/-- The last of the sorted variants is the latest. -/
theorem isGreatest_getLast {xs : List (Hit C)} {last : Hit C}
    (hlast : (PyList.sortedBy (timeKey C) xs).getLast? = some last) :
    last ∈ xs ∧ ∀ hit ∈ xs, C.createdAt hit.manifest ≤ C.createdAt last.manifest := by
  have hmem := PyList.mem_sortedBy.1 (List.mem_of_getLast? hlast)
  refine ⟨hmem, fun hit hhit => ?_⟩
  have hle : timeKey C hit ≤ timeKey C last := by
    have hsorted := PyList.sortedBy_pairwise (timeKey C) xs
    obtain ⟨front, hfront⟩ := List.getLast?_eq_some_iff.1 hlast
    rw [hfront, List.pairwise_append] at hsorted
    have hin : hit ∈ PyList.sortedBy (timeKey C) xs := PyList.mem_sortedBy.2 hhit
    rw [hfront, List.mem_append, List.mem_singleton] at hin
    rcases hin with hin | rfl
    · exact hsorted.2.2 _ hin _ (List.mem_singleton_self _)
    · exact le_rfl
  exact createdAt_le_of_key hle

theorem isGreatest_siblingTimes {cacheEpoch : Nat} {read : List (Hit C)} {last : Hit C}
    (hall : (entriesOf (t.children indexRoot) (C.reuseKeyOf source cacheEpoch)).mapM
      (fun entry => readVariant C t entry source (C.reuseKeyOf source cacheEpoch)) = .ok read)
    (hlast : (PyList.sortedBy (timeKey C) read).getLast? = some last) :
    IsGreatest (siblingTimes C t source cacheEpoch) (C.createdAt last.manifest) := by
  obtain ⟨hmem, hlatest⟩ := isGreatest_getLast hlast
  constructor
  · obtain ⟨entry, hentry, hread⟩ := Guard.mem_of_mapM_ok hall hmem
    exact ⟨entry, hentry, last, hread, rfl⟩
  · rintro _ ⟨entry, hentry, hit, hread, rfl⟩
    obtain ⟨hit', hin, hread'⟩ := Guard.mapM_ok_of_mem hall hentry
    obtain rfl := Except.ok.inj (hread.symm.trans hread')
    exact hlatest hit hin

/-- There is a latest of the siblings when all are verified. -/
theorem exists_latest {cacheEpoch : Nat} {entry : Path}
    (hentry : entry ∈ entriesOf (t.children indexRoot) (C.reuseKeyOf source cacheEpoch))
    (hsiblings : ∀ entry ∈ entriesOf (t.children indexRoot) (C.reuseKeyOf source cacheEpoch), ∃ hit,
      readVariant C t entry source (C.reuseKeyOf source cacheEpoch) = .ok hit) :
    ∃ latest, IsGreatest (siblingTimes C t source cacheEpoch) latest := by
  obtain ⟨read, hall⟩ := Guard.exists_mapM_ok.2 hsiblings
  obtain ⟨hit, hhit, -⟩ := Guard.mapM_ok_of_mem hall hentry
  have hin : hit ∈ PyList.sortedBy (timeKey C) read := PyList.mem_sortedBy.2 hhit
  exact ⟨_, isGreatest_siblingTimes hall (List.getLast?_eq_some_getLast (List.ne_nil_of_mem hin))⟩

end

/-! ### The restore -/

section
variable {C : Controls} {P : Publication C} {t t' : Tree} {now : Nat} {source : Source} {cacheEpoch : Nat} {entry : Path}
  {original : Hit C} {manifest : C.Manifest}

theorem mem_entriesOf_of_read {key : Str} {entries : List Path} (hentry : entry ∈ entries)
    (hread : readVariant C t entry source key = .ok original) : entry ∈ entriesOf entries key := by
  obtain ⟨root, -, -, -, hpath, -⟩ := readVariant_eq_ok.1 hread
  exact List.mem_filter.2 ⟨hentry, by simp [hpath]⟩

/-- When a restore of a verified variant succeeds, and what it publishes. -/
theorem restoreVariant_eq_ok (hentry : entry ∈ t.children indexRoot)
    (hread : readVariant C t entry source (C.reuseKeyOf source cacheEpoch) = .ok original) (hapart : TellsApart C t) :
    restoreVariant P t now source cacheEpoch (C.variantId original.manifest) = .ok (t', manifest) ↔
      ((t.children indexRoot).length ≤ maxIndexEntries ∧
        (∀ entry ∈ t.children indexRoot, (indexedVariantPath entry).isSome) ∧
        ∀ entry ∈ entriesOf (t.children indexRoot) (C.reuseKeyOf source cacheEpoch), ∃ hit,
          readVariant C t entry source (C.reuseKeyOf source cacheEpoch) = .ok hit) ∧
      ∃ latest, IsGreatest (siblingTimes C t source cacheEpoch) latest ∧ max (now : Int) (latest + 1) ≤ maxMoment ∧
        manifest = P.restored original.manifest source cacheEpoch (max (now : Int) (latest + 1)) ∧
        Gc.publishVariant (C := P.controls) C.sha256 t manifest none = some t' := by
  have hmem := mem_entriesOf_of_read hentry hread
  simp only [restoreVariant]
  rw [if_neg (by simp [P.validIdentifier_variantId])]
  cases hverified : verifiedVariants C t source cacheEpoch with
  | error e =>
    refine ⟨nofun, fun ⟨⟨hlimit, hnamed, hsiblings⟩, _⟩ => ?_⟩
    obtain ⟨read, hall⟩ := Guard.exists_mapM_ok.2 hsiblings
    rw [verifiedVariants_eq_ok.2 ⟨hlimit, hnamed, read, hall, rfl⟩] at hverified
    cases hverified
  | ok hits =>
    obtain ⟨hlimit, hnamed, read, hall, hsorted⟩ := verifiedVariants_eq_ok.1 hverified
    obtain ⟨hit, hhit, hok⟩ := Guard.mapM_ok_of_mem hall hmem
    obtain rfl : original = hit := Except.ok.inj (hread.symm.trans hok)
    have horiginal : original ∈ hits := by
      rw [hsorted]
      exact PyList.mem_sortedBy.2 hhit
    obtain ⟨found, hfound⟩ : ∃ found, hits.find? (C.variantId ·.manifest = C.variantId original.manifest) = some found :=
      Option.isSome_iff_exists.1 (List.find?_isSome.2 ⟨original, horiginal, by simp⟩)
    -- no two manifests have one id, so the first of the id is the variant asked for
    obtain rfl : original = found := by
      have hin := List.mem_of_find?_eq_some hfound
      rw [hsorted] at hin
      obtain ⟨entry', -, hread'⟩ := Guard.mem_of_mapM_ok hall (PyList.mem_sortedBy.1 hin)
      have hid := List.find?_some hfound
      simp only [decide_eq_true_eq] at hid
      exact hit_unique hapart hread hread' hid.symm
    obtain ⟨last, hlast⟩ : ∃ last, hits.getLast? = some last :=
      ⟨_, List.getLast?_eq_some_getLast (List.ne_nil_of_mem horiginal)⟩
    have hgreatest := isGreatest_siblingTimes hall (hsorted ▸ hlast)
    dsimp only
    rw [hfound, hlast]
    dsimp only
    split
    · rename_i hover
      refine ⟨nofun, fun ⟨_, latest, hlatest', hmax, _⟩ => ?_⟩
      obtain rfl := hgreatest.unique hlatest'
      exact absurd hover (not_lt.2 hmax)
    · rename_i hmax
      rw [not_lt] at hmax
      constructor
      · intro h
        split at h
        · cases h
        rename_i t'' hpublish
        obtain ⟨rfl, rfl⟩ := Prod.mk.inj (Except.ok.inj h)
        exact ⟨⟨hlimit, hnamed, Guard.exists_mapM_ok.1 ⟨read, hall⟩⟩, _, hgreatest, hmax, rfl, hpublish⟩
      · rintro ⟨-, latest, hlatest', -, rfl, hpublish⟩
        obtain rfl := hgreatest.unique hlatest'
        rw [hpublish]

end

/-! ### The paths of a manifest -/

theorem isAlphanum_of_isHexDigit {c : Char} (h : isHexDigit c = true) : c.isAlphanum = true := by
  simp only [isHexDigit, Char.isAlphanum, Char.isAlpha, Char.isLower, Bool.or_eq_true, Bool.and_eq_true,
    decide_eq_true_eq] at h ⊢
  rcases h with h | ⟨ha, hf⟩
  · exact .inr h
  · exact .inl (.inr ⟨ha, le_trans hf (by decide)⟩)

theorem isPortable_of_isAlphanum {c : Char} (h : c.isAlphanum = true) : isPortable c = true := by simp [isPortable, h]

theorem isPortable_of_safeSegment {s : Str} (h : safeSegment s = true) : s.all isPortable = true := by
  cases s with
  | nil => rfl
  | cons c cs =>
    simp only [safeSegment, Bool.and_eq_true, Bool.or_eq_true, decide_eq_true_eq] at h
    obtain ⟨⟨⟨⟨hc, hcs⟩, -⟩, -⟩, -⟩ := h
    rw [List.all_cons, hcs, Bool.and_true]
    rcases hc with hc | rfl
    · exact isPortable_of_isAlphanum hc
    · decide

/-- A short portable text that starts with a hexadecimal digit. -/
theorem safeSegment_of_hex {c : Char} {cs : Str} (hc : isHexDigit c = true) (hcs : cs.all isPortable = true)
    (hlen : cs.length ≤ 254) : safeSegment (c :: cs) = true := by
  have halpha := isAlphanum_of_isHexDigit hc
  have hdot : c ≠ '.' := by
    rintro rfl
    exact absurd hc (by decide)
  simp only [safeSegment, halpha, hcs, Bool.and_eq_true, Bool.or_eq_true, decide_eq_true_eq, true_or, true_and]
  refine ⟨⟨hlen, fun h => hdot ?_⟩, fun h => hdot ?_⟩
  · exact (List.cons.inj h).1
  · exact (List.cons.inj h).1

section
variable {C : Controls} (P : Publication C) {m : C.Manifest}

theorem Publication.validPath_controls (htime : 0 ≤ C.createdAt m) : ∀ p ∈ [P.controls.variantRoot m ++ [manifestName],
    P.controls.variantRoot m ++ [readyName], P.controls.indexPath m], validPath p = true := by
  have hkey := P.isSha256_reuseKey m
  have hlabel := P.safeSegment_variantLabel m htime
  simp only [isSha256, Bool.and_eq_true, beq_iff_eq] at hkey
  obtain ⟨hlen, hhex⟩ := hkey
  have hlabellen : (C.variantLabel m).length = 35 := by
    have hname := P.indexName_variantLabel m htime
    unfold indexName at hname
    dsimp only at hname
    split at hname
    · rename_i h
      have := h.1
      simp [hlen] at this
      omega
    · cases hname
  cases hm : C.reuseKey m with
  | nil => simp [hm] at hlen
  | cons c cs =>
    rw [hm] at hlen hhex
    rw [List.all_cons, Bool.and_eq_true] at hhex
    have hcs : cs.all isPortable = true := List.all_eq_true.2 fun x hx =>
      isPortable_of_isAlphanum (isAlphanum_of_isHexDigit (List.all_eq_true.1 hhex.2 x hx))
    simp only [List.length_cons] at hlen
    have hfull : safeSegment (c :: cs) = true := safeSegment_of_hex hhex.1 hcs (by omega)
    have htwo : safeSegment (c :: cs.take 1) = true :=
      safeSegment_of_hex hhex.1 (List.all_eq_true.2 fun x hx => List.all_eq_true.1 hcs x (List.mem_of_mem_take hx))
        (by simp)
    have hindex : safeSegment (c :: (cs ++ ('-' :: (C.variantLabel m ++ ".json".toList)))) = true := by
      refine safeSegment_of_hex hhex.1 ?_ ?_
      · rw [List.all_append, hcs, List.all_cons, List.all_append, isPortable_of_safeSegment hlabel]
        decide
      · simp [hlabellen]
        omega
    have hnames : safeSegment "v1".toList = true ∧ safeSegment "ocr-cache".toList = true ∧
        safeSegment "content".toList = true ∧ safeSegment "content-index".toList = true ∧
        safeSegment "variants".toList = true ∧ safeSegment manifestName = true ∧ safeSegment readyName = true := by decide
    have hkeyeq : P.controls.reuseKey m = c :: cs := hm
    have hlabeleq : safeSegment (P.controls.variantLabel m) = true := hlabel
    have hindexeq : safeSegment (c :: (cs ++ ('-' :: (P.controls.variantLabel m ++ ".json".toList)))) = true := hindex
    simp only [List.forall_mem_cons, validPath, ContentControls.variantRoot, ContentControls.reuseRoot,
      ContentControls.indexPath, contentRoot, indexRoot, Gc.cacheRoot, hkeyeq]
    simp only [List.cons_append, List.nil_append, List.append_assoc, List.take_succ_cons, List.all_cons, List.all_nil,
      hnames, hfull, htwo, hlabeleq, hindexeq, Bool.and_true, decide_eq_true_eq]
    have hcons (x : Str) (xs : Path) : decide (x :: xs ≠ []) = true := decide_eq_true (List.cons_ne_nil x xs)
    exact ⟨hcons _ _, hcons _ _, List.cons_ne_nil _ _, fun _ h => absurd h List.not_mem_nil⟩

end

/-! ### The restored variant -/

/-- The manifest is of the OCR of the variant, at a time of its own. -/
structure CopyOf {C : Controls} (original : Hit C) (source : Source) (key : Str) (at' : Int) (m : C.Manifest) : Prop where
  time : 0 ≤ at'
  source : C.source m = source
  reuseKey : C.reuseKey m = key
  output : C.output m = C.output original.manifest
  ocrChars : C.ocrChars m = C.ocrChars original.manifest
  pages : C.pageOutputSha256 m = C.pageOutputSha256 original.manifest
  createdAt : C.createdAt m = at'

theorem get_of_file {t : Tree} {p : Path} {n : Nat} {b : Bytes} (h : t.file p = some b) (hlen : b.length ≤ n) :
    get t p n = .ok (some b) := by
  rw [get, h]
  exact if_neg (not_lt.2 hlen)

section
variable {C : Controls} {P : Publication C} {t t' : Tree} {source : Source} {cacheEpoch : Nat} {key : Str} {at' : Int}
  {entry : Path} {original : Hit C} {m : C.Manifest}

theorem copyOf_restored (hread : readVariant C t entry source key = .ok original)
    (hkey : key = C.reuseKeyOf source cacheEpoch) (htime : 0 ≤ at') (hmax : at' ≤ maxMoment) :
    CopyOf original source key at' (P.restored original.manifest source cacheEpoch at') := by
  obtain ⟨_, _, _, _, -, -, -, -, -, hid, -⟩ := readVariant_eq_ok.1 hread
  simp only [not_or, ne_eq, not_not] at hid
  obtain ⟨-, -, rfl, -, -⟩ := hid
  exact {
    time := htime
    source := P.source_restored _ _ _
    reuseKey := (P.reuseKey_restored _ _ _).trans hkey.symm
    output := P.output_restored _ _ _
    ocrChars := P.ocrChars_restored _ _ _
    pages := P.pageOutputSha256_restored _ _ _
    createdAt := P.createdAt_restored _ _ _ htime hmax }

theorem indexedVariantPath_indexPath (htime : 0 ≤ C.createdAt m) :
    indexedVariantPath (P.controls.indexPath m) = some (C.reuseKey m, P.controls.variantRoot m) := by
  have hlast : (P.controls.indexPath m).getLast?.bind indexName = some (C.reuseKey m, C.variantLabel m) := by
    show (indexRoot ++ [C.reuseKey m ++ ['-'] ++ C.variantLabel m ++ ".json".toList]).getLast?.bind indexName = _
    rw [List.getLast?_concat]
    exact P.indexName_variantLabel m htime
  have hroot : (P.controls.indexPath m).dropLast = indexRoot := by simp [ContentControls.indexPath]
  simp only [indexedVariantPath, hroot, if_true, hlast, Option.map_some]
  simp [ContentControls.variantRoot, ContentControls.reuseRoot, Publication.controls]

theorem CopyOf.path (h : CopyOf original source key at' m) :
    indexedVariantPath (P.controls.indexPath m) = some (key, P.controls.variantRoot m) := by
  rw [indexedVariantPath_indexPath (by rw [h.createdAt]; exact h.time), h.reuseKey]

/-- `publish_existing` finds the OCR of a verified variant again. -/
theorem CopyOf.verifyOcr (h : CopyOf original source key at' m) (hread : readVariant C t entry source key = .ok original) :
    t.file (P.controls.outputPath m) = some original.body ∧ P.controls.verifyOcr m original.body = true := by
  obtain ⟨_, _, _, _, -, -, -, -, -, -, hbody, hrej, hver⟩ := readVariant_eq_ok.1 hread
  simp only [not_or, ne_eq, not_not] at hver
  obtain ⟨hsha, hlen, hocr⟩ := hver
  constructor
  · show t.file (objectPath (C.output m).1) = _
    rw [h.output]
    exact file_of_get hbody
  · show (!C.rejects original.body && decide (_ = (C.output m).1 ∧ _ = (C.output m).2 ∧
      C.verifyOcr original.body (C.source m).pageCount = some (C.ocrChars m, C.pageOutputSha256 m))) = true
    rw [h.output, h.source, h.ocrChars, h.pages]
    simp [hrej, hsha, hlen, hocr]

/-- The restored variant is verified where its manifest is small enough. -/
theorem CopyOf.readVariant (h : CopyOf original source key at' m) (hread : readVariant C t entry source key = .ok original)
    (hwrite : Published P.controls t t' m) (hsize : (P.canonicalBytes m).length ≤ controlObjectMaxBytes) :
    Variants.readVariant C t' (P.controls.indexPath m) source key = .ok ⟨m, original.body⟩ := by
  obtain ⟨_, _, _, _, -, -, -, -, -, -, hbody, hrej, hver⟩ := readVariant_eq_ok.1 hread
  have hpath := h.path (P := P)
  refine readVariant_eq_ok.2 ⟨_, _, _, _, hpath, get_of_file hwrite.index_file (P.indexBytes_le _),
    get_of_file hwrite.manifest_file hsize, get_of_file hwrite.ready_file (P.readyBytes_le _), P.read_canonicalBytes _,
    ?_, ?_, hrej, ?_⟩
  · rintro (hi | hv | hs | hk | hroot)
    · exact absurd (hi.symm.trans (P.indexes_indexBytes m)) (by decide)
    · exact absurd (hv.symm.trans (P.verifies_readyBytes m)) (by decide)
    · exact hs h.source
    · exact hk h.reuseKey
    · refine hroot ?_
      simp [ContentControls.variantRoot, ContentControls.reuseRoot, Publication.controls]
  · rw [h.output]
    exact get_mono hwrite.keep hbody
  · rw [h.output, h.ocrChars, h.pages]
    exact hver

/-- A restored variant is later than every sibling, so its entry is new. -/
theorem CopyOf.indexPath_notMem {latest : Int} (h : CopyOf original source key at' m)
    (hkey : key = C.reuseKeyOf source cacheEpoch)
    (hsiblings : ∀ entry ∈ entriesOf (t.children indexRoot) key, ∃ hit,
      Variants.readVariant C t entry source key = .ok hit)
    (hlatest : IsGreatest (siblingTimes C t source cacheEpoch) latest) (hlt : latest < at')
    (hwritable : Writable t (P.controls.variantRoot m ++ [manifestName]) (P.canonicalBytes m)) :
    P.controls.indexPath m ∉ t.children indexRoot := by
  -- the entry would be a sibling, verified from the manifest that is written over it
  intro hmem
  have hpath := h.path (P := P)
  have hentry : P.controls.indexPath m ∈ entriesOf (t.children indexRoot) key :=
    List.mem_filter.2 ⟨hmem, by simp [hpath]⟩
  obtain ⟨hit, hread⟩ := hsiblings _ hentry
  obtain ⟨root, _, manifest, _, hroot, -, hmanifest, -, hmread, -⟩ := readVariant_eq_ok.1 hread
  rw [hpath] at hroot
  obtain ⟨-, rfl⟩ := Prod.mk.inj (Option.some.inj hroot)
  obtain rfl := hwritable _ (file_of_get hmanifest)
  have hsame : m = hit.manifest := Option.some.inj ((P.read_canonicalBytes m).symm.trans hmread)
  have hle : C.createdAt hit.manifest ≤ latest := hlatest.2 ⟨_, hkey ▸ hentry, hit, hkey ▸ hread, rfl⟩
  rw [← hsame, h.createdAt] at hle
  omega

end

/-! ### When a restore takes effect -/

section
variable {C : Controls} {P : Publication C} {t t' : Tree} {now : Nat} {source : Source} {cacheEpoch : Nat} {key : Str}
  {at' : Int} {entry : Path} {original : Hit C} {m : C.Manifest}

theorem publishVariant_eq_some (h : CopyOf original source key at' m)
    (hread : readVariant C t entry source key = .ok original) :
    Gc.publishVariant (C := P.controls) C.sha256 t m none = some t' ↔ Gc.publishControls (C := P.controls) t m = some t' := by
  obtain ⟨hfile, hocr⟩ := h.verifyOcr (P := P) hread
  simp only [Gc.publishVariant, hfile, Option.bind_eq_bind, Option.bind_some, hocr]
  rfl

/-- A manifest that is too large cannot be read back. -/
theorem CopyOf.not_large (h : CopyOf original source key at' m) (hwrite : Published P.controls t t' m)
    (hsize : controlObjectMaxBytes < (P.canonicalBytes m).length) :
    Variants.readVariant C t' (P.controls.indexPath m) source key = .error .integrity := by
  have hpath := h.path (P := P)
  have hlarge : get t' (P.controls.variantRoot m ++ [manifestName]) controlObjectMaxBytes = .error .integrity := by
    rw [get, hwrite.manifest_file]
    exact if_pos hsize
  unfold Variants.readVariant
  rw [hpath]
  simp only [ne_eq, not_true_eq_false, raiseIf, if_false, get_of_file hwrite.index_file (P.indexBytes_le _), hlarge]
  rfl

/-- A restore that takes effect had room. -/
theorem restorable_of_takesEffect (hentry : entry ∈ t.children indexRoot)
    (hread : readVariant C t entry source (C.reuseKeyOf source cacheEpoch) = .ok original) (hapart : TellsApart C t)
    (h : TakesEffect P t now source cacheEpoch original) : Restorable P t now source cacheEpoch original := by
  obtain ⟨t', m, hrestore, hlookup⟩ := h
  obtain ⟨⟨hlimit, hnamed, hsiblings⟩, latest, hlatest, hmax, rfl, hpublish⟩ :=
    (restoreVariant_eq_ok hentry hread hapart).1 hrestore
  have hcopy : CopyOf original source (C.reuseKeyOf source cacheEpoch) (max (now : Int) (latest + 1))
      (P.restored original.manifest source cacheEpoch (max (now : Int) (latest + 1))) :=
    copyOf_restored hread rfl (by omega) hmax
  have hwrite := published ((publishVariant_eq_some hcopy hread).1 hpublish)
  have hnew := hcopy.indexPath_notMem (P := P) rfl hsiblings hlatest (by omega) hwrite.manifest
  -- one new run shows what the listing of all of them is
  have hfresh : FreshRun ⟨t', [], [], [], []⟩ ⟨"r".toList, source, cacheEpoch, none, none⟩ :=
    ⟨show validIdentifier "r".toList = true by decide, rfl, rfl, nofun⟩
  obtain ⟨hit, hl, -⟩ := hlookup _ _ rfl hfresh rfl rfl rfl
  obtain ⟨hlisted, hits, hv⟩ := of_lookup_fresh hfresh hl
  dsimp only at hlisted hv
  have hindex : P.controls.indexPath (P.restored original.manifest source cacheEpoch (max (now : Int) (latest + 1))) ∈
      entriesOf (PyList.sortedBy posix (t'.children indexRoot)) (C.reuseKeyOf source cacheEpoch) := by
    exact List.mem_filter.2 ⟨PyList.mem_sortedBy.2 ((hwrite.children _).2 (.inl rfl)), by simp [hcopy.path]⟩
  refine ⟨?_, hnamed, hsiblings, fun latest' hlatest' => ?_⟩
  · have hlen := hlisted.limit
    rw [PyList.length_sortedBy, ← (hwrite.perm hnew).length_eq] at hlen
    exact hlen
  · obtain rfl := hlatest.unique hlatest'
    refine ⟨hmax, hwrite.manifest, hwrite.ready, hwrite.index, ?_, ?_⟩
    · by_contra hsize
      obtain ⟨message, hmessage⟩ := readVariant_of_verifiedHits hv hindex (hcopy.not_large hwrite (not_le.1 hsize))
      cases hmessage
    · have hsnapshot := hlisted.size
      rw [← hwrite.sorted hnew] at hsnapshot
      exact hsnapshot

/-- Where there is room the restored variant is what a new run finds. -/
theorem takesEffect_of_restorable (hentry : entry ∈ t.children indexRoot)
    (hread : readVariant C t entry source (C.reuseKeyOf source cacheEpoch) = .ok original) (hapart : TellsApart C t)
    (h : Restorable P t now source cacheEpoch original) : TakesEffect P t now source cacheEpoch original := by
  have hmem := mem_entriesOf_of_read hentry hread
  obtain ⟨latest, hlatest⟩ := exists_latest hmem h.siblings
  obtain ⟨hmax, hroom⟩ := h.room latest hlatest
  have hcopy : CopyOf original source (C.reuseKeyOf source cacheEpoch) (max (now : Int) (latest + 1))
      (P.restored original.manifest source cacheEpoch (max (now : Int) (latest + 1))) :=
    copyOf_restored hread rfl (by omega) hmax
  obtain ⟨t', hpublish⟩ := publishControls_isSome
    (P.validPath_controls (by rw [hcopy.createdAt]; exact hcopy.time)) hroom.manifest hroom.ready hroom.index
  have hwrite := published hpublish
  have hnew := hcopy.indexPath_notMem (P := P) rfl h.siblings hlatest (by omega) hroom.manifest
  have hrestore : restoreVariant P t now source cacheEpoch (C.variantId original.manifest) = .ok (t', _) :=
    (restoreVariant_eq_ok hentry hread hapart).2 ⟨⟨le_of_lt h.limit, h.named, h.siblings⟩, latest, hlatest, hmax, rfl,
      (publishVariant_eq_some hcopy hread).2 hpublish⟩
  refine ⟨t', _, hrestore, ?_⟩
  rintro host a rfl hfresh rfl rfl hexpected
  have hpath := hcopy.path (P := P)
  have hentries (e : Path) (he : e ∈ entriesOf (host.remote.children indexRoot) (C.reuseKeyOf a.source a.cacheEpoch)) :
      e = P.controls.indexPath (P.restored original.manifest a.source a.cacheEpoch (max (now : Int) (latest + 1))) ∨
        e ∈ entriesOf (t.children indexRoot) (C.reuseKeyOf a.source a.cacheEpoch) := by
    obtain ⟨hin, hkey⟩ := List.mem_filter.1 he
    exact ((hwrite.children e).1 hin).imp_right fun hin => List.mem_filter.2 ⟨hin, hkey⟩
  have hnewread := hcopy.readVariant hread hwrite hroom.size
  refine ⟨⟨_, original.body⟩, lookup_latest hfresh hexpected ?_ ?_ ?_ hnewread ?_, rfl⟩
  · rw [← hwrite.sorted hnew]
    refine ⟨?_, fun e he => ?_, hroom.snapshot⟩
    · rw [PyList.length_sortedBy]
      exact h.limit
    · rcases List.mem_cons.1 (PyList.mem_sortedBy.1 he) with rfl | he
      · rw [hpath]
        rfl
      · exact h.named e he
  · intro e he
    rcases hentries e he with rfl | he
    · exact ⟨_, hnewread⟩
    · obtain ⟨hit, hok⟩ := h.siblings e he
      exact ⟨hit, readVariant_mono hwrite.keep hok⟩
  · exact List.mem_filter.2 ⟨(hwrite.children _).2 (.inl rfl), by simp [hpath]⟩
  · intro other hother hit' hread' hne
    rcases hentries other hother with rfl | hother
    · exact absurd rfl hne
    obtain ⟨hit, hok⟩ := h.siblings other hother
    obtain rfl := Except.ok.inj ((readVariant_mono hwrite.keep hok).symm.trans hread')
    have hle : C.createdAt hit.manifest ≤ latest := hlatest.2 ⟨other, hother, hit, hok, rfl⟩
    show C.createdAt hit.manifest < C.createdAt (P.restored original.manifest a.source a.cacheEpoch _)
    rw [hcopy.createdAt]
    omega

end

/-- A restore of a verified variant takes effect exactly where every entry of the index is named as one, every other
variant of the PDF is verified too, and there is room for one more. -/
theorem restore_takes_effect_iff {C : Controls} (P : Publication C) (t : Tree) (now : Nat) (source : Source)
    (cacheEpoch : Nat) (entry : Path) (original : Hit C) (hentry : entry ∈ t.children indexRoot)
    (hread : readVariant C t entry source (C.reuseKeyOf source cacheEpoch) = .ok original) (hapart : TellsApart C t) :
    TakesEffect P t now source cacheEpoch original ↔ Restorable P t now source cacheEpoch original :=
  ⟨restorable_of_takesEffect hentry hread hapart, takesEffect_of_restorable hentry hread hapart⟩

def timedId : Nat → Str
  | 0 => "v".toList
  | _ + 1 => "w".toList

def timedDigits : Nat → Str
  | 0 => List.replicate 12 'a'
  | _ + 1 => List.replicate 12 'b'

def timedLabel (m : Nat) : Str :=
  List.replicate 8 '2' ++ ['T'] ++ List.replicate 12 '0' ++ ['Z', '-'] ++ timedDigits m

theorem validIdentifier_timedId (m : Nat) : validIdentifier (timedId m) = true := by
  cases m <;> (rw [timedId]; decide)

set_option maxRecDepth 8000 in
theorem safeSegment_timedLabel (m : Nat) : safeSegment (timedLabel m) = true := by
  cases m with
  | zero => rfl
  | succ n => rfl

set_option maxRecDepth 8000 in
theorem indexName_timedLabel (m : Nat) :
    indexName (List.replicate 64 'a' ++ ['-'] ++ timedLabel m ++ ".json".toList) =
      some (List.replicate 64 'a', timedLabel m) := by
  cases m with
  | zero => rfl
  | succ n => rfl

/-- Manifests that are their time, as many bytes, and digests that are the text itself. -/
def timed : Controls where
  Manifest := Nat
  source _ := ⟨"p".toList, 1, 1⟩
  cacheEpoch _ := 0
  reuseKey _ := List.replicate 64 'a'
  variantId := timedId
  variantLabel := timedLabel
  manifestSha256 _ := []
  output _ := ("x".toList, 1)
  ocrChars _ := 1
  pageOutputSha256 _ := ["x".toList]
  createdAt m := (m : Int)
  read b := some b.length
  verifies _ _ := true
  indexes _ _ := true
  reuseKeyOf _ _ := List.replicate 64 'a'
  create _ _ _ _ at' _ _ _ := at'.toNat
  sha256 b := b.map fun c => Char.ofNat c.toNat
  rejects _ := false
  verifyOcr b _ := some (b.length, [b.map fun c => Char.ofNat c.toNat])

set_option maxRecDepth 8000 in
def timedPublication : Publication timed where
  restored _ _ _ at' := at'.toNat
  migratedFrom _ := none
  canonicalBytes m := List.replicate m 120
  readyBytes _ := [114]
  indexBytes _ := [105]
  isSha256_reuseKey _ := show isSha256 (List.replicate 64 'a') = true by decide
  validIdentifier_variantId := validIdentifier_timedId
  read_canonicalBytes m := congrArg some List.length_replicate
  verifies_readyBytes _ := rfl
  indexes_indexBytes _ := rfl
  readyBytes_le _ := by decide
  indexBytes_le _ := by decide
  safeSegment_variantLabel m _ := safeSegment_timedLabel m
  indexName_variantLabel m _ := indexName_timedLabel m
  source_restored _ _ _ := rfl
  reuseKey_restored _ _ _ := rfl
  output_restored _ _ _ := rfl
  ocrChars_restored _ _ _ := rfl
  pageOutputSha256_restored _ _ _ := rfl
  createdAt_restored _ _ _ htime _ := Int.toNat_of_nonneg htime

/-- The OCR `x`, published in 1970. -/
def zeroHit : Hit timed := @Hit.mk timed (0 : Nat) [120]

def timedEntry (c : Char) : Path :=
  indexRoot ++ [List.replicate 64 'a' ++ ['-'] ++ List.replicate 8 '2' ++ ['T'] ++ List.replicate 12 '0' ++ ['Z', '-'] ++
    List.replicate 12 c ++ ".json".toList]

/-- One committed variant. -/
def committed : Tree :=
  let root := contentRoot ++ ["aa".toList, List.replicate 64 'a', "variants".toList, timedLabel 0]
  ⟨[], [(timedEntry 'a', [105]), (root ++ [manifestName], []), (root ++ [readyName], [114]),
    (objectPath "x".toList, [120])]⟩

/-- Beside it, the index entry of a variant without its controls. -/
def halfPublished : Tree := committed.put (timedEntry 'c') [105]

set_option maxRecDepth 8000 in
theorem restore_refused_for_sibling :
    readVariant timed halfPublished (timedEntry 'a') ⟨"p".toList, 1, 1⟩ (List.replicate 64 'a') = .ok zeroHit ∧
      restoreVariant timedPublication halfPublished 5 ⟨"p".toList, 1, 1⟩ 0 "v".toList =
        .error (.read (.validation "content variant control file is missing")) ∧
      ¬ TakesEffect timedPublication halfPublished 5 ⟨"p".toList, 1, 1⟩ 0 zeroHit := by
  have hrestore : restoreVariant timedPublication halfPublished 5 ⟨"p".toList, 1, 1⟩ 0 "v".toList =
      .error (.read (.validation "content variant control file is missing")) := by rfl
  refine ⟨rfl, hrestore, ?_⟩
  rintro ⟨t', m, hok, -⟩
  exact absurd (hrestore.symm.trans hok) nofun

theorem file_committed {p : Path} {b : Bytes} (h : committed.file p = some b) : b.length = 0 ∨ b.length = 1 := by
  obtain ⟨e, he, rfl⟩ := Option.map_eq_some_iff.1 h
  have hin := List.mem_of_find?_eq_some he
  simp only [committed, List.mem_cons, List.not_mem_nil, or_false] at hin
  rcases hin with rfl | rfl | rfl | rfl <;> simp

theorem tellsApart_committed : TellsApart timed committed := by
  intro p p' b b' m m' hb hb' hm hm' hid
  obtain rfl : b.length = m := Option.some.inj hm
  obtain rfl : b'.length = m' := Option.some.inj hm'
  have hid : timedId b.length = timedId b'.length := hid
  rcases file_committed hb with h | h <;> rcases file_committed hb' with h' | h' <;> rw [h, h'] at hid ⊢
  · exact absurd hid (by decide)
  · exact absurd hid (by decide)

set_option maxRecDepth 8000 in
theorem children_committed : committed.children indexRoot = [timedEntry 'a'] := rfl

theorem readVariant_committed :
    readVariant timed committed (timedEntry 'a') ⟨"p".toList, 1, 1⟩ (List.replicate 64 'a') = .ok zeroHit := rfl

set_option maxRecDepth 8000 in
theorem restore_takes_effect_committed :
    TakesEffect timedPublication committed 5 ⟨"p".toList, 1, 1⟩ 0 zeroHit := by
  have hentries : entriesOf (committed.children indexRoot) (List.replicate 64 'a') = [timedEntry 'a'] := by
    rw [children_committed]
    rfl
  refine (restore_takes_effect_iff timedPublication committed 5 ⟨"p".toList, 1, 1⟩ 0 (timedEntry 'a') zeroHit
    (by rw [children_committed]; exact List.mem_singleton_self _) readVariant_committed tellsApart_committed).2 ?_
  refine ⟨by rw [children_committed]; decide, fun entry hentry => ?_, fun entry hentry => ?_, fun latest hlatest => ?_⟩
  · rw [children_committed, List.mem_singleton] at hentry
    subst hentry
    rfl
  · rw [show timed.reuseKeyOf _ _ = List.replicate 64 'a' from rfl, hentries, List.mem_singleton] at hentry
    subst hentry
    exact ⟨zeroHit, readVariant_committed⟩
  · obtain ⟨entry, hentry, hit, hread, htime⟩ := hlatest.1
    rw [show timed.reuseKeyOf _ _ = List.replicate 64 'a' from rfl, hentries, List.mem_singleton] at hentry
    subst hentry
    obtain rfl := Except.ok.inj (readVariant_committed.symm.trans hread)
    obtain rfl : (0 : Int) = latest := htime
    have hfree {p : Path} {content : Bytes} (h : committed.file p = none) : Writable committed p content := by
      intro old hold
      rw [h] at hold
      cases hold
    refine ⟨by decide, hfree rfl, hfree rfl, hfree rfl, by decide, ?_⟩
    · rw [children_committed]
      exact Nat.le_of_ble_eq_true rfl

end CardRag.Variants
