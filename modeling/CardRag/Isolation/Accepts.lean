import CardRag.Isolation.Build

/-! # When a build with OCR failures goes through

The gate counts documents by issuer, while the build goes by lineages and the export by products. The
three agree exactly when no OCR-failed document has its product in common with anything else of the
generation, and a superseded revision of its own lineage is such a thing. -/

namespace CardRag.Isolation

variable {c : Corpus} {split : Split}

/-! ### The two loops -/

def currentOf (docs : List Document) : List Document := docs.filter (·.temporalStatus = .current)

theorem foldlM_noteCurrent (docs : List Document) (seen : List (Lineage × Document)) (hseen : (seen.map (·.1)).Nodup)
    (rows : List (Lineage × Document)) :
    docs.foldlM noteCurrent seen = .ok rows ↔ (seen.map (·.1) ++ (currentOf docs).map (·.lineage)).Nodup ∧
      rows = seen ++ (currentOf docs).map fun d => (d.lineage, d) := by
  induction docs generalizing seen with
  | nil =>
    rw [List.foldlM_nil, Guard.pure_eq_ok, eq_comm]
    simp [currentOf, hseen]
  | cons d docs ih =>
    rw [List.foldlM_cons, Guard.bind_eq_ok]
    by_cases hcurrent : d.temporalStatus = .current
    · have hcons : currentOf (d :: docs) = d :: currentOf docs := by simp [currentOf, hcurrent]
      have hnote (rows' : List (Lineage × Document)) : noteCurrent seen d = .ok rows' ↔
          d.lineage ∉ seen.map (·.1) ∧ seen ++ [(d.lineage, d)] = rows' := by
        rw [noteCurrent, if_neg (not_not.2 hcurrent)]
        simp
      rw [hcons, List.map_cons, List.append_cons]
      constructor
      · rintro ⟨rows', hrows', hrest⟩
        obtain ⟨hnew, rfl⟩ := (hnote rows').1 hrows'
        have hnodup : ((seen ++ [(d.lineage, d)]).map (·.1)).Nodup := by
          rw [List.map_append]
          exact List.Nodup.append hseen (by simp) (by simpa using hnew)
        simpa using (ih _ hnodup).1 hrest
      · rintro ⟨hnodup, rfl⟩
        have hfirst := (List.nodup_append.1 hnodup).1
        have hnew : d.lineage ∉ seen.map (·.1) := fun hmem => (List.nodup_append.1 hfirst).2.2 _ hmem _ (by simp) rfl
        refine ⟨_, (hnote _).2 ⟨hnew, rfl⟩, (ih _ (by simpa using hfirst)).2 ⟨by simpa using hnodup, by simp⟩⟩
    · have hcons : currentOf (d :: docs) = currentOf docs := by simp [currentOf, hcurrent]
      have hnote : noteCurrent seen d = .ok seen := by rw [noteCurrent, if_pos hcurrent]; rfl
      rw [hcons, ← ih seen hseen, hnote]
      constructor
      · rintro ⟨_, heq, hrest⟩
        cases heq
        exact hrest
      · exact fun hrest => ⟨seen, rfl, hrest⟩

theorem noteCurrent_eq_ok {docs : List Document} {rows : List (Lineage × Document)} :
    docs.foldlM noteCurrent [] = .ok rows ↔
      ((currentOf docs).map (·.lineage)).Nodup ∧ rows = (currentOf docs).map fun d => (d.lineage, d) := by
  simpa using foldlM_noteCurrent docs [] (by simp) rows

/-- What a row needs of the rest of the export. -/
structure Admissible (issuers : List Str) (lineages : List Lineage) (unsupported : List (Str × Str))
    (f : OCRFailedProductInput) : Prop where
  unsupported : f.identity ∉ unsupported
  lineage : f.identity ∉ lineages.map Lineage.product
  issuer : f.issuer ∈ issuers
  bounded : f.bounded = true
  sha256 : isSha256 f.pdfSha256 = true

theorem validateFailed_eq_ok {issuers : List Str} {lineages : List Lineage} {unsupported : List (Str × Str)}
    {seen seen' : List (Str × Str) × List Str} {f : OCRFailedProductInput} :
    validateFailed issuers lineages unsupported seen f = .ok seen' ↔
      Admissible issuers lineages unsupported f ∧ f.identity ∉ seen.1 ∧ f.documentId ∉ seen.2 ∧
        seen' = (seen.1 ++ [f.identity], seen.2 ++ [f.documentId]) := by
  simp only [validateFailed, Guard.bind_eq_ok, raiseIf_eq_ok, Guard.exists_unit, Guard.pure_eq_ok, not_or, not_not,
    Bool.not_eq_false]
  constructor
  · rintro ⟨⟨h1, h2, h3, h4, h5, h6⟩, h7, rfl⟩
    exact ⟨⟨h2, h3, h4, h6, h7⟩, h1, h5, rfl⟩
  · rintro ⟨⟨h2, h3, h4, h6, h7⟩, h1, h5, rfl⟩
    exact ⟨⟨h1, h2, h3, h4, h5, h6⟩, h7, rfl⟩

theorem foldlM_validateFailed {issuers : List Str} {lineages : List Lineage} {unsupported : List (Str × Str)}
    (fs : List OCRFailedProductInput) (seen seen' : List (Str × Str) × List Str)
    (hseen : seen.1.Nodup ∧ seen.2.Nodup) :
    fs.foldlM (validateFailed issuers lineages unsupported) seen = .ok seen' ↔
      (∀ f ∈ fs, Admissible issuers lineages unsupported f) ∧ (seen.1 ++ fs.map (·.identity)).Nodup ∧
        (seen.2 ++ fs.map (·.documentId)).Nodup ∧
        seen' = (seen.1 ++ fs.map (·.identity), seen.2 ++ fs.map (·.documentId)) := by
  induction fs generalizing seen with
  | nil =>
    rw [List.foldlM_nil, Guard.pure_eq_ok, eq_comm]
    simp [hseen]
  | cons f fs ih =>
    rw [List.foldlM_cons, Guard.bind_eq_ok, List.map_cons, List.map_cons, List.append_cons seen.1,
      List.append_cons seen.2, List.forall_mem_cons]
    simp only [validateFailed_eq_ok]
    have hadd {α : Type} {xs : List α} {x : α} (hxs : xs.Nodup) (hx : x ∉ xs) : (xs ++ [x]).Nodup :=
      List.Nodup.append hxs (by simp) (by simpa using hx)
    constructor
    · rintro ⟨_, ⟨hf, hid, hdoc, rfl⟩, hrest⟩
      obtain ⟨hfs, h1, h2, rfl⟩ := (ih _ ⟨hadd hseen.1 hid, hadd hseen.2 hdoc⟩).1 hrest
      exact ⟨⟨hf, hfs⟩, h1, h2, rfl⟩
    · rintro ⟨⟨hf, hfs⟩, h1, h2, rfl⟩
      have hfirst1 := (List.nodup_append.1 h1).1
      have hfirst2 := (List.nodup_append.1 h2).1
      have hid : f.identity ∉ seen.1 := fun hmem => (List.nodup_append.1 hfirst1).2.2 _ hmem _ (by simp) rfl
      have hdoc : f.documentId ∉ seen.2 := fun hmem => (List.nodup_append.1 hfirst2).2.2 _ hmem _ (by simp) rfl
      exact ⟨_, ⟨hf, hid, hdoc, rfl⟩, (ih _ ⟨hfirst1, hfirst2⟩).2 ⟨hfs, h1, h2, rfl⟩⟩

/-! ### The corpus and its split -/

/-- No OCR-failed document has its product in common with a processed document, with an unsupported
product or with another failure. -/
structure Isolated (c : Corpus) (split : Split) : Prop where
  processed : ∀ f ∈ c.failed split, ∀ p ∈ c.processed split, p.product ≠ f.1.product
  unsupported : ∀ f ∈ c.failed split, f.1.product ∉ c.unsupported
  failed : ((c.failed split).map (·.1.product)).Nodup

theorem mem_processed {d : Document} : d ∈ c.processed split ↔ d ∈ c.documents ∧ split d = none := by
  simp [Corpus.processed, Option.isNone_iff_eq_none]

theorem mem_failed {f : Document × OcrFailure} : f ∈ c.failed split ↔ f.1 ∈ c.documents ∧ split f.1 = some f.2 := by
  simp only [Corpus.failed, List.mem_filterMap, Option.map_eq_some_iff]
  constructor
  · rintro ⟨d, hd, failure, hfailure, rfl⟩
    exact ⟨hd, hfailure⟩
  · rintro ⟨hd, hfailure⟩
    exact ⟨f.1, hd, f.2, hfailure, rfl⟩

theorem processed_or_failed (split : Split) {d : Document} (hd : d ∈ c.documents) :
    d ∈ c.processed split ∨ ∃ failure, (d, failure) ∈ c.failed split := by
  cases hs : split d with
  | none => exact .inl (mem_processed.2 ⟨hd, hs⟩)
  | some failure => exact .inr ⟨failure, mem_failed.2 ⟨hd, hs⟩⟩

theorem failed_documents_sublist (c : Corpus) (split : Split) : ((c.failed split).map (·.1)).Sublist c.documents := by
  unfold Corpus.failed
  induction c.documents with
  | nil => exact .slnil
  | cons d docs ih =>
    cases hs : split d with
    | none => simpa [hs] using ih.cons d
    | some failure => simpa [hs] using ih.cons_cons d

theorem gate_eq_ok (h : c.gate split = .ok ()) : c.processed split ≠ [] ∧ ∀ f ∈ c.failed split, f.1.temporalStatus = .current := by
  simp only [Corpus.gate, Guard.bind_eq_ok, raiseIf_eq_ok, Guard.exists_unit, Bool.not_eq_true, List.any_eq_false,
    decide_eq_true_eq] at h
  obtain ⟨hhistorical, -, hclosed⟩ := h
  constructor
  · obtain ⟨issuer, hissuer⟩ := List.exists_mem_of_ne_nil _ c.issuers_ne_nil
    have hopen := hclosed issuer hissuer
    intro hnil
    simp [Corpus.counts, hnil] at hopen
  · intro f hf
    by_contra hnot
    have hfalse := hhistorical f hf
    rw [(c.isHistorical_iff f.1 (mem_failed.1 hf).1).2 hnot] at hfalse
    cases hfalse

/-! ### Both directions -/

theorem sameSet_iff {α : Type} [DecidableEq α] {xs ys : List α} : sameSet xs ys = true ↔ ∀ x, x ∈ xs ↔ x ∈ ys := by
  simp only [sameSet, Bool.and_eq_true, List.all_eq_true, decide_eq_true_eq]
  exact ⟨fun h x => ⟨h.1 x, h.2 x⟩, fun h => ⟨fun x => (h x).1, fun x => (h x).2⟩⟩

theorem buildLineages_eq_ok {processed : List Document} {lineages : List Lineage} {revisions : List ContractRevisionInput}
    (h : buildLineages processed = .ok (lineages, revisions)) : ∀ p ∈ processed, p.lineage ∈ lineages := by
  simp only [buildLineages, Guard.bind_eq_ok, raiseIf_eq_ok, Guard.exists_unit, Guard.pure_eq_ok, Prod.mk.injEq,
    Bool.not_eq_false] at h
  obtain ⟨-, current, -, hsame, -, rfl, -⟩ := h
  exact fun p hp => (sameSet_iff.1 hsame p.lineage).2 (List.mem_map_of_mem hp)

theorem isolated_of_build {r : List Lineage × List ContractRevisionInput} (h : build c split = .ok r) : Isolated c split := by
  simp only [build, Guard.bind_eq_ok] at h
  obtain ⟨⟨lineages, revisions⟩, hbuild, seen, hseen, -⟩ := h
  obtain ⟨hrows, hnodup, -, -⟩ := (foldlM_validateFailed _ _ _ ⟨List.nodup_nil, List.nodup_nil⟩).1 hseen
  have hrow {f : Document × OcrFailure} (hf : f ∈ c.failed split) :
      Admissible c.issuers lineages c.unsupported (failedRow f) := hrows _ (List.mem_map_of_mem hf)
  refine ⟨fun f hf p hp hproduct => ?_, fun f hf => (hrow hf).unsupported, ?_⟩
  · refine (hrow hf).lineage ?_
    have hlineage := buildLineages_eq_ok hbuild p hp
    exact List.mem_map.2 ⟨p.lineage, hlineage, hproduct⟩
  · rw [List.nil_append, List.map_map] at hnodup
    exact hnodup

theorem failedRow_admissible {f : Document × OcrFailure} {lineages : List Lineage} (hf : f ∈ c.failed split)
    (hunsupported : f.1.product ∉ c.unsupported) (hlineages : f.1.product ∉ lineages.map Lineage.product) :
    Admissible c.issuers lineages c.unsupported (failedRow f) := by
  have hd := (mem_failed.1 hf).1
  refine ⟨hunsupported, hlineages, c.issuer_mem _ hd, ?_, c.isSha256_pdfSha256 _ hd⟩
  have hpos := c.pdf_pos _ hd
  exact decide_eq_true ⟨c.isDocumentId_documentId _ hd, hpos.1, hpos.2, f.2.isReasonCode_reasonCode, f.2.reason_ne_nil,
    f.2.length_reason, f.2.newline_notMem, f.2.return_notMem, f.2.attempts_pos⟩

/-- The lineage of a processed document keeps its current revision and its predecessors. -/
theorem Isolated.processed_of_lineage (h : Isolated c split) {p d : Document} (hp : p ∈ c.processed split)
    (hd : d ∈ c.documents) (hlineage : d.lineage = p.lineage) : d ∈ c.processed split := by
  rcases processed_or_failed split hd with hd' | ⟨failure, hfailed⟩
  · exact hd'
  · exact absurd (congrArg Lineage.product hlineage.symm) (h.processed _ hfailed p hp)

theorem Isolated.supersedesRevisionId_ne_none (h : Isolated c split) {d : Document} (hd : d ∈ c.processed split)
    (hsupersedes : d.supersedesDocumentId ≠ none) : supersedesRevisionId (c.processed split) d ≠ none := by
  obtain ⟨id, hid⟩ := Option.ne_none_iff_exists'.1 hsupersedes
  have hmem := (mem_processed.1 hd).1
  obtain ⟨p, hp, rfl, hlineage, hne⟩ := c.predecessor d hmem id hid
  have hprocessed := h.processed_of_lineage hd hp hlineage
  have hnodup : ((c.processed split).map (·.documentId)).Nodup :=
    c.nodup_documentIds.sublist (List.filter_sublist.map _)
  have hget := PyList.get?_dictOf_of_mem hnodup hprocessed
  have hdoc : p.documentId ≠ d.documentId := fun heq => hne (List.inj_on_of_nodup_map c.nodup_documentIds hp hmem heq)
  have hrev : p.revisionId ≠ d.revisionId := fun heq => hne (List.inj_on_of_nodup_map c.nodup_revisionIds hp hmem heq)
  simp [supersedesRevisionId, hid, hget, hdoc, hrev]

theorem Isolated.buildLineages (h : Isolated c split) (hne : c.processed split ≠ []) :
    buildLineages (c.processed split) =
      .ok ((currentOf (c.processed split)).map (·.lineage), revisionRows (c.processed split)) := by
  have hnodup : ((currentOf (c.processed split)).map (·.lineage)).Nodup := by
    have hdocs : (currentOf (c.processed split)).Nodup :=
      (c.nodup_documentIds.of_map _).sublist (List.filter_sublist.trans List.filter_sublist)
    refine hdocs.map_on fun d hd e he heq => ?_
    have hd' := List.mem_filter.1 hd
    have he' := List.mem_filter.1 he
    exact c.current_unique d (mem_processed.1 hd'.1).1 e (mem_processed.1 he'.1).1 (of_decide_eq_true hd'.2)
      (of_decide_eq_true he'.2) heq
  have hrows := noteCurrent_eq_ok.2 ⟨hnodup, rfl⟩
  have hmap : ((currentOf (c.processed split)).map fun d => (d.lineage, d)).map (·.1) =
      (currentOf (c.processed split)).map (·.lineage) := by
    rw [List.map_map]
    rfl
  have hsame : sameSet ((currentOf (c.processed split)).map (·.lineage)) ((c.processed split).map (·.lineage)) = true := by
    refine sameSet_iff.2 fun l => ⟨fun hl => ?_, fun hl => ?_⟩
    · obtain ⟨d, hd, rfl⟩ := List.mem_map.1 hl
      exact List.mem_map_of_mem (List.mem_filter.1 hd).1
    · obtain ⟨p, hp, rfl⟩ := List.mem_map.1 hl
      obtain ⟨d, hd, hlineage, hcurrent⟩ := c.exists_current p (mem_processed.1 hp).1
      refine List.mem_map.2 ⟨d, List.mem_filter.2 ⟨h.processed_of_lineage hp hd hlineage, ?_⟩, hlineage⟩
      exact decide_eq_true hcurrent
  simp only [Isolation.buildLineages, Guard.bind_eq_ok, raiseIf_eq_ok, Guard.exists_unit, Guard.pure_eq_ok,
    Prod.mk.injEq]
  refine ⟨hne, _, hrows, ?_, ?_, hmap, trivial⟩
  · rw [hmap, hsame]
    exact Bool.noConfusion
  · simp only [List.any_eq_true, decide_eq_true_eq, not_exists, not_and]
    exact fun d hd hsup => h.supersedesRevisionId_ne_none hd hsup

/-- Behind the publication gate, a build goes through if and only if its OCR failures are isolated. -/
theorem build_accepts_iff (c : Corpus) (split : Split) (hgate : c.gate split = .ok ()) :
    (∃ r, build c split = .ok r) ↔ Isolated c split := by
  obtain ⟨hne, -⟩ := gate_eq_ok hgate
  refine ⟨fun ⟨r, hr⟩ => isolated_of_build hr, fun h => ?_⟩
  have hlineages := h.buildLineages hne
  have hrows : ∀ f ∈ (c.failed split).map failedRow,
      Admissible c.issuers ((currentOf (c.processed split)).map (·.lineage)) c.unsupported f := by
    intro row hrow
    obtain ⟨f, hf, rfl⟩ := List.mem_map.1 hrow
    refine failedRow_admissible hf (h.unsupported f hf) fun hmem => ?_
    rw [List.map_map, List.mem_map] at hmem
    obtain ⟨p, hp, hproduct⟩ := hmem
    exact h.processed f hf p (List.mem_filter.1 hp).1 hproduct
  have hproducts : (((c.failed split).map failedRow).map (·.identity)).Nodup := by
    rw [List.map_map]
    exact h.failed
  have hids : (((c.failed split).map failedRow).map (·.documentId)).Nodup := by
    have hnodup := c.nodup_documentIds.sublist ((failed_documents_sublist c split).map (·.documentId))
    rw [List.map_map] at hnodup ⊢
    exact hnodup
  have hfold := (foldlM_validateFailed _ ([], []) _ ⟨List.nodup_nil, List.nodup_nil⟩).2 ⟨hrows, hproducts, hids, rfl⟩
  refine ⟨((currentOf (c.processed split)).map (·.lineage), revisionRows (c.processed split)), ?_⟩
  simp only [build, Guard.bind_eq_ok, raiseIf_eq_ok, Guard.exists_unit, Guard.pure_eq_ok]
  refine ⟨_, hlineages, _, hfold, ?_, rfl⟩
  simp only [List.any_eq_true, decide_eq_true_eq, not_exists, not_and]
  intro r hr hmem
  -- an identifier on both sides would be one document, processed and failed
  obtain ⟨p, hp, rfl⟩ := List.mem_map.1 hr
  rw [List.nil_append, List.map_map, List.mem_map] at hmem
  obtain ⟨f, hf, hfid⟩ := hmem
  have heq : p = f.1 := List.inj_on_of_nodup_map c.nodup_documentIds (mem_processed.1 hp).1 (mem_failed.1 hf).1
    hfid.symm
  have hnone := (mem_processed.1 hp).2
  rw [heq, (mem_failed.1 hf).2] at hnone
  cases hnone

/-! ### One failure among twenty documents -/

def code (i : Nat) : Str := [Nat.digitChar (i / 10), Nat.digitChar (i % 10)]

/-- The current document of the product `i`. -/
def currentDocument (i : Nat) : Document where
  lineage := ⟨"a".toList, code i, "t".toList⟩
  sourceId := code i
  documentId := "doc_".toList ++ code i ++ List.replicate 62 '0'
  pdfSha256 := List.replicate 64 '0'
  pdfSizeBytes := 1
  pageCount := 1
  temporalStatus := .current
  supersedesDocumentId := none
  isHistorical := false

/-- A revision of the product `0` that was superseded. -/
def supersededDocument : Document :=
  { currentDocument 99 with
    lineage := (currentDocument 0).lineage
    temporalStatus := .superseded
    isHistorical := true }

def providerError : OcrFailure :=
  ⟨"provider_error".toList, "The OCR provider failed.".toList, 3, by decide, by decide, by decide, by decide, by decide,
    by decide⟩

/-- The OCR of the product's current document fails. -/
def failing (i : Nat) : Split := fun d => if d = currentDocument i then some providerError else none

def twentyDocuments : Corpus where
  issuers := ["a".toList]
  documents := (List.range 19).map currentDocument ++ [supersededDocument]
  unsupported := []
  issuers_ne_nil := by decide
  issuer_mem := by decide
  nodup_documentIds := by decide
  nodup_revisionIds := by decide
  isHistorical_iff := by decide
  exists_current := by decide
  current_unique := by decide
  predecessor := by decide
  isDocumentId_documentId := by decide
  isSha256_pdfSha256 := by decide
  pdf_pos := by decide

theorem build_accepts_iff_one_failure :
    (∃ r, build twentyDocuments (failing 1) = .ok r) ↔ Isolated twentyDocuments (failing 1) :=
  build_accepts_iff twentyDocuments (failing 1) (by decide)

/-- The gate admits the failure of the product `0`, and the build does not. -/
theorem superseded_revision_refused : twentyDocuments.gate (failing 0) = .ok () ∧
    build twentyDocuments (failing 0) =
      .error (.runtimeError "v5 lineage does not have exactly one proven current revision") := by
  constructor
  · decide
  · rfl

end CardRag.Isolation
