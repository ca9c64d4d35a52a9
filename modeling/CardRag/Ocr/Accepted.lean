import CardRag.Ocr.Chunks

/-! # What an accepted answer gives

Every page value accepted for a call is stripped, not empty and long enough, and a second pass over it
changes nothing. Its words are words of the provider's answer, so it bears no credential: a credential
is always a part of one word. -/

namespace CardRag

open Regex

/-! ### Credentials are words -/

/-- The code points of `[A-Za-z0-9_-]`. -/
theorem toNat_of_isTokenChar {c : Char} (h : isTokenChar c = true) : (97 ≤ c.toNat ∧ c.toNat ≤ 122) ∨
    (65 ≤ c.toNat ∧ c.toNat ≤ 90) ∨ (48 ≤ c.toNat ∧ c.toNat ≤ 57) ∨ c.toNat = 95 ∨ c.toNat = 45 := by
  simp only [isTokenChar, isAlphanumeric, Char.isDigit, Bool.or_eq_true, Bool.and_eq_true, decide_eq_true_eq,
    beq_iff_eq, Char.le_def, UInt32.le_iff_toNat_le] at h
  rcases h with (((h | h) | h) | rfl) | rfl
  · exact .inl h
  · exact .inr (.inl h)
  · exact .inr (.inr (.inl h))
  · exact .inr (.inr (.inr (.inl rfl)))
  · exact .inr (.inr (.inr (.inr rfl)))

theorem isSpace_of_isTokenChar {c : Char} (h : isTokenChar c = true) : PyStr.isSpace c = false := by
  have hn := toNat_of_isTokenChar h
  simp only [PyStr.isSpace, Bool.or_eq_false_iff, Bool.and_eq_false_iff, decide_eq_false_iff_not, beq_eq_false_iff_ne]
  omega

/-- The characters of the credential patterns are visible. -/
theorem within_credentialPatterns : ∀ r ∈ credentialPatterns, Within (fun c => !PyStr.isSpace c) r := by
  have htoken : Within (fun c => !PyStr.isSpace c) (.cls isTokenChar) := by
    intro c hc
    simp [isSpace_of_isTokenChar hc]
  have halpha : Within (fun c => !PyStr.isSpace c) (.cls isAlphanumeric) := by
    intro c hc
    exact htoken c (by simp [isTokenChar, hc])
  have hword : Within (fun c => !PyStr.isSpace c) (.cls fun c => isAlphanumeric c || c == '_') := by
    intro c hc
    have hc : (isAlphanumeric c || c == '_') = true := hc
    exact htoken c (by rw [isTokenChar, hc]; rfl)
  have hhex : Within (fun c => !PyStr.isSpace c) (.cls isHex) := by
    intro c hc
    refine halpha c ?_
    simp only [isHex, isAlphanumeric, Bool.or_eq_true, Bool.and_eq_true, decide_eq_true_eq] at hc ⊢
    rcases hc with (hc | hc) | hc
    · exact .inr hc
    · exact .inl (.inr ⟨hc.1, hc.2.trans (by decide)⟩)
    · exact .inl (.inl ⟨hc.1, hc.2.trans (by decide)⟩)
  have hlit : ∀ s : Str, s.all (fun c => !PyStr.isSpace c) = true → Within (fun c => !PyStr.isSpace c) (lit s) :=
    fun s hs => within_lit (List.all_eq_true.1 hs)
  simp only [credentialPatterns, List.forall_mem_cons]
  refine ⟨⟨hlit _ (by decide), within_times hhex 64⟩, ⟨⟨hlit _ (by decide), within_between hword 20 235⟩,
    hlit _ (by decide), ?_, hlit _ (by decide), within_between halpha 20 235⟩, ?_, ?_, nofun⟩
  · exact within_oneOf (List.all_eq_true.1 (by decide))
  · exact ⟨hlit _ (by decide), within_atLeast htoken 5, hlit _ (by decide), within_atLeast htoken 5,
      hlit _ (by decide), within_atLeast htoken 10⟩
  · exact ⟨hlit _ (by decide), within_atLeast htoken 20⟩

theorem nullable_credentialPatterns : ∀ r ∈ credentialPatterns, nullable r = false := by
  intro r hr
  have hall : credentialPatterns.all (fun r => !nullable r) = true := by decide
  simpa using List.all_eq_true.1 hall r hr

/-- A text bears a credential exactly when one of its words does. -/
theorem bearsCredential_iff_words (s : Str) :
    bearsCredential s = true ↔ ∃ w ∈ PyStr.fields PyStr.isSpace s, bearsCredential w = true := by
  have hword : ∀ r ∈ credentialPatterns, ∀ s, search isTokenChar r s = true ↔
      ∃ w ∈ PyStr.fields PyStr.isSpace s, search isTokenChar r w = true := fun r hr s =>
    search_iff_words (fun c => isSpace_of_isTokenChar) (within_credentialPatterns r hr) (nullable_credentialPatterns r hr)
  simp only [bearsCredential, List.any_eq_true]
  constructor
  · rintro ⟨r, hr, hs⟩
    obtain ⟨w, hw, hsearch⟩ := (hword r hr s).1 hs
    exact ⟨w, hw, r, hr, hsearch⟩
  · rintro ⟨w, hw, r, hr, hsearch⟩
    exact ⟨r, hr, (hword r hr s).2 ⟨w, hw, hsearch⟩⟩

/-- A word of digits is no credential: no pattern starts with one. -/
theorem bearsCredential_digits {s : Str} (h : ∀ c ∈ s, c.isDigit = true) : bearsCredential s = false := by
  have hnever : ∀ c : Char, c.isDigit = true → ∀ r ∈ credentialPatterns, Regex.deriv c r = never := by
    intro c hc
    have hne : ∀ x : Char, x.isDigit = false → c ≠ x := by
      rintro x hx rfl
      rw [hc] at hx
      cases hx
    have hs := hne 's' (by decide)
    have hg := hne 'g' (by decide)
    have he := hne 'e' (by decide)
    simp only [credentialPatterns, List.forall_mem_cons]
    refine ⟨deriv_seq_lit hs _, ?_, deriv_seq_lit he _, deriv_seq_lit hs _, nofun⟩
    rw [Regex.deriv]
    exact congrArg₂ mkAlt (deriv_seq_lit hg _) (deriv_seq_lit hg _)
  rw [← Bool.not_eq_true, bearsCredential, List.any_eq_true]
  rintro ⟨r, hr, hsearch⟩
  obtain ⟨a, m, b, rfl, hm, -⟩ := search_iff.1 hsearch
  cases m with
  | nil =>
    rw [fullmatch, nullable_credentialPatterns r hr] at hm
    cases hm
  | cons c m =>
    rw [fullmatch, hnever c (h c (by simp)) r hr, fullmatch_never] at hm
    cases hm

/-! ### The words of lines and blocks -/

section
variable {lines : List Str} {text : Str}

theorem words_unlines (lines : List Str) :
    PyStr.fields PyStr.isSpace (unlines lines) = lines.flatMap (PyStr.fields PyStr.isSpace) := by
  have hnewline : PyStr.isSpace '\n' = true := by decide
  induction lines with
  | nil => exact PyStr.fields_nil
  | cons l lines ih =>
    cases lines with
    | nil => rw [unlines_singleton, List.flatMap_singleton]
    | cons l' lines => rw [unlines_cons l (by simp), PyStr.fields_append_cons hnewline, ih]; rfl

theorem words_split (text : Str) :
    (PyStr.split '\n' text).flatMap (PyStr.fields PyStr.isSpace) = PyStr.fields PyStr.isSpace text := by
  refine PyStr.flatMap_fields (fun c hc => ?_) text
  rw [beq_iff_eq.1 hc]
  decide

theorem mem_of_mem_blocks {b : Str × List Str} (h : b ∈ blocks lines) : ∀ l ∈ b.2, l ∈ lines := by
  induction lines with
  | nil => cases h
  | cons line lines ih =>
    rw [blocks] at h
    split at h
    · exact fun l hl => List.mem_cons_of_mem _ (ih h l hl)
    · rcases List.mem_cons.1 h with rfl | h
      · exact fun l hl => List.mem_cons_of_mem _ ((List.takeWhile_sublist _).subset hl)
      · exact fun l hl => List.mem_cons_of_mem _ (ih h l hl)

/-- The words of the body of a block are words of the text. -/
theorem words_block {b : Str × List Str} (h : b ∈ blocks (PyStr.split '\n' text)) :
    PyStr.fields PyStr.isSpace (PyStr.strip (unlines b.2)) ⊆ PyStr.fields PyStr.isSpace text := by
  rw [PyStr.fields_strip, words_unlines, ← words_split text]
  intro w hw
  obtain ⟨l, hl, hw⟩ := List.mem_flatMap.1 hw
  exact List.mem_flatMap.2 ⟨l, mem_of_mem_blocks h l hl, hw⟩

end

/-! ### Sparse pages -/

section
variable {value v : Str}

theorem lineText_visible {l : Str} (h : l ∈ PyStr.splitlines value) :
    PyStr.strip (l.takeWhile fun c => !PyStr.isLineBreak c) = PyStr.strip l := by
  obtain ⟨p, b, rfl, hp, hb⟩ := PyStr.exists_of_mem_splitlines value l h
  have htake : (p ++ b).takeWhile (fun c => !PyStr.isLineBreak c) = p := by
    rw [List.takeWhile_append_of_pos (by simpa using hp)]
    cases b with
    | nil => simp
    | cons c b => simp [hb c (by simp)]
  rw [htake, PyStr.strip_append_spaces fun c hc => PyStr.isSpace_of_isLineBreak (hb c hc)]

/-- The words of a line are words of the text. -/
theorem words_lineText {x : Str} (h : x ∈ lineTexts value) :
    PyStr.fields PyStr.isSpace x ⊆ PyStr.fields PyStr.isSpace value := by
  obtain ⟨l, hl, rfl⟩ := List.mem_map.1 h
  rw [← PyStr.fields_strip, lineText_visible hl]
  by_cases hempty : PyStr.strip l = []
  · rw [hempty, PyStr.fields_nil]
    exact List.nil_subset _
  · refine PyStr.fields_subset_of_mem (fun c => PyStr.isSpace_of_isLineBreak) ?_
    rw [← PyStr.strip_splitlines]
    simp only [List.mem_filter, List.mem_map, Bool.not_eq_true', List.isEmpty_eq_false_iff]
    exact ⟨⟨l, hl, rfl⟩, hempty⟩

/-- The visible lines are stripped, not empty and hold no line boundary. -/
theorem visibleLine_spec {x : Str} (h : x ∈ visibleLines value) : PyStr.strip x = x ∧ x ≠ [] ∧
    (∀ c ∈ x, PyStr.isLineBreak c = false) ∧ PyStr.fields PyStr.isSpace x ⊆ PyStr.fields PyStr.isSpace value := by
  simp only [visibleLines, List.mem_filter, List.mem_map, Bool.not_eq_true', List.isEmpty_eq_false_iff] at h
  obtain ⟨⟨l, hl, rfl⟩, hne⟩ := h
  have hline := List.mem_of_mem_drop hl
  refine ⟨PyStr.strip_strip l, hne, fun c hc => ?_, ?_⟩
  · obtain ⟨u, w, hl', -⟩ := PyStr.exists_strip l
    have hcl : c ∈ l := by rw [hl']; simp [hc]
    obtain ⟨l', -, rfl⟩ := List.mem_map.1 hline
    simpa using List.mem_takeWhile_imp hcl
  · rw [PyStr.fields_strip]
    exact words_lineText hline

theorem lineTexts_unlines {lines : List Str} (hne : lines ≠ [])
    (h : ∀ l ∈ lines, l ≠ [] ∧ ∀ c ∈ l, PyStr.isLineBreak c = false) : lineTexts (unlines lines) = lines := by
  induction lines with
  | nil => exact absurd rfl hne
  | cons l lines ih =>
    obtain ⟨⟨hl, hbreak⟩, hrest⟩ := List.forall_mem_cons.1 h
    have htake : ∀ b : Str, (∀ c ∈ b.head?, PyStr.isLineBreak c = true) →
        (l ++ b).takeWhile (fun c => !PyStr.isLineBreak c) = l := by
      intro b hb
      rw [List.takeWhile_append_of_pos (by simpa using hbreak)]
      cases b with
      | nil => simp
      | cons c b => simp [hb c rfl]
    cases lines with
    | nil =>
      rw [unlines_singleton, lineTexts, PyStr.splitlines_single hbreak hl, List.map_singleton]
      exact congrArg (fun x => [x]) (by simpa using htake [] nofun)
    | cons l' lines =>
      have hnewline : PyStr.isLineBreak '\n' = true := by decide
      rw [unlines_cons l (by simp), lineTexts, PyStr.splitlines_append_newline hbreak, List.map_cons,
        htake ['\n'] (by simpa using hnewline)]
      exact congrArg (l :: ·) (ih (by simp) hrest)

theorem sparsePage_eq (visible : List Str) : sparsePage visible = unlines (ocrSparsePagePrefix :: visible) := by
  unfold sparsePage
  split
  · rename_i h
    rw [h, unlines_singleton]
  · rename_i h
    rw [unlines_cons _ h]

theorem strip_sparseWrapper : PyStr.strip ocrSparsePagePrefix = ocrSparsePagePrefix := by decide +kernel

theorem isLineBreak_sparseWrapper : ∀ c ∈ ocrSparsePagePrefix, PyStr.isLineBreak c = false := by
  have hall : ocrSparsePagePrefix.all (fun c => !PyStr.isLineBreak c) = true := by decide +kernel
  exact fun c hc => by simpa using List.all_eq_true.1 hall c hc

/-- Stripped lines make a stripped text. -/
theorem strip_unlines {lines : List Str} (hne : lines ≠ []) (h : ∀ l ∈ lines, PyStr.strip l = l ∧ l ≠ []) :
    PyStr.strip (unlines lines) = unlines lines ∧ unlines lines ≠ [] := by
  have hends : unlines lines ≠ [] ∧ (∀ c ∈ (unlines lines).head?, PyStr.isSpace c = false) ∧
      ∀ c ∈ (unlines lines).getLast?, PyStr.isSpace c = false := by
    induction lines with
    | nil => exact absurd rfl hne
    | cons l lines ih =>
      obtain ⟨⟨hl, hlne⟩, hrest⟩ := List.forall_mem_cons.1 h
      have hhead : ∀ c ∈ l.head?, PyStr.isSpace c = false := fun c hc => PyStr.isSpace_head_strip (s := l) (by rwa [hl])
      have hlast : ∀ c ∈ l.getLast?, PyStr.isSpace c = false :=
        fun c hc => PyStr.isSpace_getLast_strip (s := l) (by rwa [hl])
      cases lines with
      | nil =>
        rw [unlines_singleton]
        exact ⟨hlne, hhead, hlast⟩
      | cons l' lines =>
        obtain ⟨hune, -, hulast⟩ := ih (by simp) hrest
        rw [unlines_cons l (by simp)]
        refine ⟨by simp, ?_, ?_⟩
        · rwa [List.head?_append_of_ne_nil _ hlne]
        · rw [List.getLast?_append_of_ne_nil _ (by simp), List.getLast?_cons_of_ne_nil hune]
          exact hulast
  exact ⟨PyStr.strip_eq_self hends.2.1 hends.2.2, hends.1⟩

/-- Normalising a stripped page value gives one that is stripped and stays as it is. -/
theorem normalizeValue_spec (hstrip : PyStr.strip value = value) (hne : value ≠ [])
    (h : normalizeValue value = .ok v) : PyStr.strip v = v ∧ v ≠ [] ∧ normalizeValue v = .ok v ∧
      PyStr.fields PyStr.isSpace v ⊆ PyStr.fields PyStr.isSpace value := by
  have hcopy := h
  rw [normalizeValue] at h
  split at h
  · simp only [Guard.bind_eq_ok, raiseIf_eq_ok, Guard.exists_unit, Guard.pure_eq_ok] at h
    obtain ⟨hfirst, hlines, hcount, rfl⟩ := h
    have hprefix : ocrSparsePagePrefix ∈ lineTexts value := by
      have hmem : ocrSparsePagePrefix ∈ (lineTexts value).take 1 := by
        rw [not_not.1 hfirst]
        exact List.mem_singleton.2 rfl
      exact List.mem_of_mem_take hmem
    have hall : ∀ l ∈ ocrSparsePagePrefix :: visibleLines value, PyStr.strip l = l ∧ l ≠ [] :=
      List.forall_mem_cons.2 ⟨⟨strip_sparseWrapper, by decide⟩, fun l hl => ⟨(visibleLine_spec hl).1, (visibleLine_spec hl).2.1⟩⟩
    have htexts : lineTexts (sparsePage (visibleLines value)) = ocrSparsePagePrefix :: visibleLines value := by
      rw [sparsePage_eq]
      refine lineTexts_unlines (by simp) (List.forall_mem_cons.2 ⟨⟨by decide, isLineBreak_sparseWrapper⟩, fun l hl => ?_⟩)
      exact ⟨(visibleLine_spec hl).2.1, (visibleLine_spec hl).2.2.1⟩
    have hvisible : visibleLines (sparsePage (visibleLines value)) = visibleLines value := by
      have hmap : (visibleLines value).map PyStr.strip = visibleLines value :=
        (List.map_congr_left fun l hl => (visibleLine_spec hl).1).trans (List.map_id _)
      rw [visibleLines, htexts, List.drop_one, List.tail_cons, hmap, List.filter_eq_self]
      exact fun l hl => by simpa using (visibleLine_spec hl).2.1
    have hcontains : PyStr.contains ocrSparsePagePrefix (sparsePage (visibleLines value)) = true := by
      refine List.any_eq_true.2 ⟨_, (List.mem_tails _ _).2 (List.suffix_refl _), List.isPrefixOf_iff_prefix.2 ?_⟩
      unfold sparsePage
      split
      · exact List.prefix_refl _
      · exact List.prefix_append _ _
    refine ⟨?_, ?_, ?_, ?_⟩
    · rw [sparsePage_eq]
      exact (strip_unlines (by simp) hall).1
    · rw [sparsePage_eq]
      exact (strip_unlines (by simp) hall).2
    · rw [normalizeValue, if_pos hcontains]
      simp only [Guard.bind_eq_ok, raiseIf_eq_ok, Guard.exists_unit, Guard.pure_eq_ok, hvisible]
      exact ⟨by simp [htexts], hlines, hcount, trivial⟩
    · rw [sparsePage_eq, words_unlines]
      intro w hw
      obtain ⟨l, hl, hw⟩ := List.mem_flatMap.1 hw
      rcases List.mem_cons.1 hl with rfl | hl
      · exact words_lineText hprefix hw
      · exact (visibleLine_spec hl).2.2.2 hw
  · simp only [Guard.bind_eq_ok, raiseIf_eq_ok, Guard.exists_unit, Guard.pure_eq_ok] at h
    obtain ⟨-, rfl⟩ := h
    exact ⟨hstrip, hne, hcopy, fun _ hw => hw⟩

end

/-! ### Accepted pages -/

/-- What the validation of an answer leaves of a page. -/
structure AcceptedPage (pageNumber : Nat) (value : Str) : Prop where
  stripped : PyStr.strip value = value
  ne_nil : value ≠ []
  long : 20 ≤ (pageText pageNumber value).length
  normal : normalizePage pageNumber value = .ok value
  no_credential : ∀ w ∈ PyStr.fields PyStr.isSpace value, bearsCredential w = false

section
variable {raw : Str} {targets : List Nat} {values : List Str}

theorem splitOcrPages_eq_ok {text : Str} {expectedCount firstPage : Nat} {pages : List Str} :
    splitOcrPages text expectedCount firstPage = .ok pages ↔ (∀ m ∈ (findMarkers text).head?, m.start = 0) ∧
      (PyStr.split '\n' text).filterMap ocrMarker = List.range' firstPage expectedCount ∧
      pages = (blocks (PyStr.split '\n' text)).map (fun b => PyStr.strip (unlines b.2)) ∧ ∀ page ∈ pages, page ≠ [] := by
  simp only [splitOcrPages, Guard.bind_eq_ok, raiseIf_eq_ok, Guard.exists_unit, Guard.pure_eq_ok, numbers_findMarkers,
    cutPages_stop, not_exists, not_and, not_not, ne_eq]
  constructor
  · rintro ⟨h1, h2, h3, rfl⟩
    exact ⟨h1, h2, rfl, fun page hpage hnil => h3 page hpage (by simp [hnil])⟩
  · rintro ⟨h1, h2, rfl, h3⟩
    refine ⟨h1, h2, fun page hpage hlen => h3 page hpage ?_, rfl⟩
    exact List.length_eq_zero_iff.1 (by omega)

theorem normalizePage_eq_ok {n : Nat} {value v : Str} : normalizePage n value = .ok v ↔
    normalizeValue value = .ok v ∧ 20 ≤ (pageText n v).length := by
  simp only [normalizePage, Guard.bind_eq_ok, raiseIf_eq_ok, Guard.exists_unit, Guard.pure_eq_ok, not_lt]
  constructor
  · rintro ⟨w, hw, hlen, rfl⟩
    exact ⟨hw, hlen⟩
  · rintro ⟨hv, hlen⟩
    exact ⟨v, hv, hlen, rfl⟩

/-- Every value accepted for the targets of a call is an accepted page. -/
theorem acceptedPages (h : validatedProviderTargetValues raw targets = .ok values) :
    List.Forall₂ AcceptedPage targets values := by
  simp only [validatedProviderTargetValues, rejectCredentialBearingOcr, Guard.bind_eq_ok, raiseIf_eq_ok,
    Guard.exists_unit] at h
  obtain ⟨hcred, h⟩ := h
  cases targets with
  | nil => simp at h
  | cons first rest =>
    simp only [Guard.bind_eq_ok, raiseIf_eq_ok, Guard.exists_unit, validateAndNormalizeTargetPageValues, not_not] at h
    obtain ⟨pages, hsplit, -, hlen, hmap⟩ := h
    obtain ⟨-, -, hpages, hne⟩ := splitOcrPages_eq_ok.1 hsplit
    obtain ⟨hvlen, hget⟩ := List.forall₂_iff_get.1 (Guard.mapM_eq_ok.1 hmap)
    have hzip : (List.zip (first :: rest) pages).length = (first :: rest).length := by
      rw [List.length_zip, hlen, Nat.min_self]
    refine List.forall₂_iff_get.2 ⟨by rw [← hvlen, hzip], fun i h1 h2 => ?_⟩
    have hpage : i < pages.length := by omega
    have hi := hget i (by omega) h2
    simp only [List.get_eq_getElem, List.getElem_zip] at hi ⊢
    obtain ⟨hnorm, hlong⟩ := normalizePage_eq_ok.1 hi
    have hsource : ∀ page ∈ pages, PyStr.strip page = page ∧
        PyStr.fields PyStr.isSpace page ⊆ PyStr.fields PyStr.isSpace raw := by
      rw [hpages]
      intro page hmem
      obtain ⟨b, hb, rfl⟩ := List.mem_map.1 hmem
      exact ⟨PyStr.strip_strip _, words_block hb⟩
    have hmem : pages[i] ∈ pages := List.getElem_mem hpage
    obtain ⟨hstrip, hnil, hfix, hwords⟩ := normalizeValue_spec (hsource _ hmem).1 (hne _ hmem) hnorm
    refine ⟨hstrip, hnil, hlong, normalizePage_eq_ok.2 ⟨hfix, hlong⟩, fun w hw => ?_⟩
    rw [← Bool.not_eq_true]
    intro hbears
    exact hcred ((bearsCredential_iff_words raw).2 ⟨w, (hsource _ hmem).2 (hwords hw), hbears⟩)

end

end CardRag
