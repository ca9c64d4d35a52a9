import CardRag.Ocr.Accepted

/-! # The assembled document

The pages accepted call by call are joined into one text. It verifies, and the checkpoints read back as
they were accepted, exactly when no accepted page holds NUL or CR and no line of one is a page marker:
the validation of an answer does not look for the first two, and stripping a page can bring the third
to the start or the end of it. -/

namespace CardRag

/-! ### The marker line of a page -/

theorem head_toDigits {n : Nat} (h : 0 < n) : ∃ c ∈ (Nat.toDigits 10 n).head?, c ≠ '0' := by
  induction n using Nat.strong_induction_on with
  | _ n ih =>
    by_cases hlt : n < 10
    · rw [Nat.toDigits_of_lt_base hlt]
      refine ⟨_, rfl, ?_⟩
      interval_cases n <;> decide
    · obtain ⟨c, hc, hne⟩ := ih (n / 10) (by omega) (by omega)
      rw [Nat.toDigits_of_base_le (by omega) (by omega)]
      exact ⟨c, by rwa [List.head?_append_of_ne_nil _ Nat.toDigits_ne_nil], hne⟩

theorem isDigit_decimal {n : Nat} : ∀ c ∈ Json.decimal n, c.isDigit = true :=
  fun _ hc => Nat.isDigit_of_mem_toDigits (by omega) (by omega) hc

theorem ocrMarker_markerLine {n : Nat} (h : 0 < n) : ocrMarker (markerLine n) = some n :=
  ocrMarker_eq_some.2 ⟨_, rfl, isDigit_decimal, head_toDigits h, Nat.ofDigitChars_ten_toDigits.symm⟩

/-- The words of a marker line are no credentials. -/
theorem words_markerLine (n : Nat) : ∀ w ∈ PyStr.fields PyStr.isSpace (markerLine n), bearsCredential w = false := by
  have hspace : PyStr.isSpace ' ' = true := by decide
  have hsplit : markerLine n = "##".toList ++ ' ' :: ("Page".toList ++ ' ' :: Json.decimal n) := rfl
  have hhash : PyStr.fields PyStr.isSpace "##".toList = ["##".toList] := by decide +kernel
  have hpage : PyStr.fields PyStr.isSpace "Page".toList = ["Page".toList] := by decide +kernel
  have hdigits : PyStr.fields PyStr.isSpace (Json.decimal n) ⊆ [Json.decimal n] := by
    have hnone : ∀ c ∈ Json.decimal n, PyStr.isSpace c = false := fun c hc => isSpace_of_isDigit (isDigit_decimal c hc)
    have hstrip : PyStr.strip (Json.decimal n) = Json.decimal n :=
      PyStr.strip_eq_self (fun c hc => hnone c (List.mem_of_head? hc)) (fun c hc => hnone c (List.mem_of_getLast? hc))
    rw [PyStr.fields_single hnone, hstrip]
    split
    · exact List.nil_subset _
    · exact List.Subset.refl _
  rw [hsplit, PyStr.fields_append_cons hspace, PyStr.fields_append_cons hspace, hhash, hpage]
  intro w hw
  rcases List.mem_append.1 hw with hw | hw
  · rw [List.mem_singleton.1 hw]
    decide +kernel
  rcases List.mem_append.1 hw with hw | hw
  · rw [List.mem_singleton.1 hw]
    decide +kernel
  · rw [List.mem_singleton.1 (hdigits hw)]
    exact bearsCredential_digits isDigit_decimal

/-! ### The lines of joined pages -/

section
variable {pages : List Str}

theorem split_append_newline (a b : Str) :
    PyStr.split '\n' (a ++ '\n' :: b) = PyStr.split '\n' a ++ PyStr.split '\n' b :=
  List.splitOnP_append_cons a b (by simp)

theorem split_joinPages (hne : pages ≠ []) :
    PyStr.split '\n' (joinPages pages) = pages.flatMap fun p => PyStr.split '\n' p ++ [[]] := by
  induction pages with
  | nil => exact absurd rfl hne
  | cons p pages ih =>
    cases pages with
    | nil =>
      rw [joinPages, List.intercalate_singleton, split_append_newline]
      simp [PyStr.split]
    | cons p' pages =>
      have hjoin : joinPages (p :: p' :: pages) = p ++ '\n' :: ([] ++ '\n' :: joinPages (p' :: pages)) := by
        simp [joinPages]
      rw [hjoin, split_append_newline, split_append_newline, ih (by simp)]
      simp [PyStr.split]

end

section
variable {n : Nat} {value : Str}

theorem split_pageText (h : 0 < n) (value : Str) :
    PyStr.split '\n' (pageText n value) = markerLine n :: [] :: PyStr.split '\n' value := by
  have hmarker : PyStr.split '\n' (markerLine n) = [markerLine n] :=
    List.splitOn_eq_singleton (newline_notMem_marker (ocrMarker_markerLine h))
  have htext : pageText n value = markerLine n ++ '\n' :: ([] ++ '\n' :: value) := rfl
  rw [htext, split_append_newline, split_append_newline, hmarker]
  rfl

/-- A page with its marker is stripped when its value is. -/
theorem strip_pageText (hstrip : PyStr.strip value = value) (hne : value ≠ []) :
    PyStr.strip (pageText n value) = pageText n value := by
  refine PyStr.strip_eq_self ?_ ?_
  · intro c hc
    have hhead : (pageText n value).head? = some '#' := rfl
    rw [hhead, Option.mem_some_iff] at hc
    rw [← hc]
    decide
  · intro c hc
    rw [pageText, List.getLast?_append_of_ne_nil _ (by simp), List.getLast?_cons_of_ne_nil (by simp),
      List.getLast?_cons_of_ne_nil hne] at hc
    exact PyStr.isSpace_getLast_strip (by rwa [hstrip])

end

/-! ### Joined pages, cut again -/

/-- No line of the page value is a page marker. -/
def NoMarker (value : Str) : Prop := ∀ line ∈ PyStr.split '\n' value, ocrMarker line = none

instance (value : Str) : Decidable (NoMarker value) := by unfold NoMarker; infer_instance

/-- The lines of a joined page. -/
def pageLines (e : Nat × Str) : List Str := markerLine e.1 :: [] :: (PyStr.split '\n' e.2 ++ [[]])

section
variable {es : List (Nat × Str)}

theorem split_pages (hne : es ≠ []) (hpos : ∀ e ∈ es, 0 < e.1) :
    PyStr.split '\n' (joinPages (es.map fun e => pageText e.1 e.2)) = es.flatMap pageLines := by
  rw [split_joinPages (by simpa using hne), List.flatMap_map]
  refine List.flatMap_congr fun e he => ?_
  rw [split_pageText (hpos e he)]
  rfl

/-- The markers in joined pages: each page's own, and those in its value. -/
theorem markers_pages (hpos : ∀ e ∈ es, 0 < e.1) : (es.flatMap pageLines).filterMap ocrMarker =
    es.flatMap fun e => e.1 :: (PyStr.split '\n' e.2).filterMap ocrMarker := by
  induction es with
  | nil => rfl
  | cons e es ih =>
    have hnil : ocrMarker [] = none := by decide
    rw [List.flatMap_cons, List.flatMap_cons, List.filterMap_append, ih fun e' he' => hpos e' (by simp [he']), pageLines]
    simp [ocrMarker_markerLine (hpos e (by simp)), hnil]

/-- A marker line, lines that are none, and then nothing or another marker. -/
theorem blocks_cons_append {line : Str} {body rest : List Str} (hline : isBody line = false)
    (hbody : ∀ l ∈ body, isBody l = true) (hrest : ∀ l ∈ rest.head?, isBody l = false) :
    blocks (line :: (body ++ rest)) = (line, body) :: blocks rest := by
  have htake : (body ++ rest).takeWhile isBody = body := by
    rw [List.takeWhile_append_of_pos hbody]
    cases rest with
    | nil => simp
    | cons l rest => simp [hrest l rfl]
  have hskip : blocks (body ++ rest) = blocks rest := by
    clear htake
    induction body with
    | nil => rfl
    | cons l body ih =>
      rw [List.cons_append, blocks, if_pos (hbody l (by simp))]
      exact ih fun l' hl' => hbody l' (by simp [hl'])
  rw [blocks, if_neg (by simp [hline]), htake, hskip]

/-- Blocks of joined pages without markers in their values. -/
theorem blocks_pages (hpos : ∀ e ∈ es, 0 < e.1) (hclean : ∀ e ∈ es, NoMarker e.2) :
    blocks (es.flatMap pageLines) = es.map fun e => (markerLine e.1, [] :: (PyStr.split '\n' e.2 ++ [[]])) := by
  induction es with
  | nil => rfl
  | cons e es ih =>
    have hnil : isBody [] = true := by decide
    have hline : isBody (markerLine e.1) = false := by simp [isBody, ocrMarker_markerLine (hpos e (by simp))]
    have hbody : ∀ l ∈ [] :: (PyStr.split '\n' e.2 ++ [[]]), isBody l = true := by
      intro l hl
      simp only [List.mem_cons, List.mem_append, List.not_mem_nil, or_false] at hl
      rcases hl with rfl | hl | rfl
      · exact hnil
      · simp [isBody, hclean e (by simp) l hl]
      · exact hnil
    have hrest : ∀ l ∈ (es.flatMap pageLines).head?, isBody l = false := by
      cases es with
      | nil =>
        intro l hl
        cases hl
      | cons e' es =>
        intro l hl
        have hhead : l = markerLine e'.1 := by simpa [pageLines, eq_comm] using hl
        simp [hhead, isBody, ocrMarker_markerLine (hpos e' (by simp))]
    have hcons := blocks_cons_append hline hbody hrest
    rw [List.flatMap_cons, List.map_cons, ← ih (fun e' he' => hpos e' (by simp [he'])) fun e' he' => hclean e' (by simp [he'])]
    exact hcons

/-- What is cut out of a joined page: the page with its marker, or its value alone. -/
theorem unlines_page (n : Nat) {value : Str} (hstrip : PyStr.strip value = value) (hne : value ≠ []) :
    PyStr.strip (unlines (markerLine n :: [] :: (PyStr.split '\n' value ++ [[]]))) = pageText n value ∧
      PyStr.strip (unlines ([] :: (PyStr.split '\n' value ++ [[]]))) = value := by
  have hnewline : PyStr.isSpace '\n' = true := by decide
  have hvalue : unlines ([] :: (PyStr.split '\n' value ++ [[]])) = '\n' :: (value ++ ['\n']) := by
    rw [unlines_cons [] (by simp), unlines_append (PyStr.split_ne_nil _ _) (by simp), unlines_split, unlines_singleton]
    rfl
  constructor
  · rw [unlines_cons _ (by simp), hvalue]
    have htext : markerLine n ++ '\n' :: '\n' :: (value ++ ['\n']) = pageText n value ++ ['\n'] := by
      simp [pageText]
    rw [htext, PyStr.strip_concat_space hnewline, strip_pageText hstrip hne]
  · rw [hvalue, PyStr.strip_cons_space hnewline, PyStr.strip_concat_space hnewline, hstrip]

end

/-! ### One chunk -/

section
variable {targets : List Nat} {values : List Str}

theorem chunkText_eq (targets : List Nat) (values : List Str) :
    chunkText targets values = joinPages ((targets.zip values).map fun e => pageText e.1 e.2) := by
  rw [chunkText, List.zip, List.map_zipWith]

theorem pos_of_mem_zip (h : ∀ n ∈ targets, 0 < n) : ∀ e ∈ targets.zip values, 0 < e.1 :=
  fun e he => h e.1 (List.of_mem_zip he).1

theorem acceptedPage_of_mem_zip (h : List.Forall₂ AcceptedPage targets values) :
    ∀ e ∈ targets.zip values, AcceptedPage e.1 e.2 := by
  intro e he
  obtain ⟨i, hi, rfl⟩ := List.getElem_of_mem he
  rw [List.getElem_zip]
  exact (List.forall₂_iff_get.1 h).2 i _ _

/-- Every value was accepted for one of the targets. -/
theorem exists_mem_zip (h : List.Forall₂ AcceptedPage targets values) {value : Str} (hv : value ∈ values) :
    ∃ n, (n, value) ∈ targets.zip values := by
  have hlen : values.length ≤ targets.length := h.length_eq.ge
  rw [← List.map_snd_zip hlen] at hv
  obtain ⟨e, he, rfl⟩ := List.mem_map.1 hv
  exact ⟨e.1, he⟩

theorem zip_ne_nil (hne : targets ≠ []) (h : List.Forall₂ AcceptedPage targets values) : targets.zip values ≠ [] := by
  intro hnil
  rcases List.zip_eq_nil_iff.1 hnil with hnil | hnil
  · exact hne hnil
  · rw [hnil, List.forall₂_nil_right_iff] at h
    exact hne h

/-- Joined pages that were accepted bear no credential. -/
theorem bearsCredential_chunk (hpos : ∀ n ∈ targets, 0 < n) (hne : targets ≠ [])
    (h : List.Forall₂ AcceptedPage targets values) : bearsCredential (chunkText targets values) = false := by
  rw [← Bool.not_eq_true, bearsCredential_iff_words, chunkText_eq, ← words_split,
    split_pages (zip_ne_nil hne h) (pos_of_mem_zip hpos)]
  rintro ⟨w, hw, hbears⟩
  obtain ⟨l, hl, hw⟩ := List.mem_flatMap.1 hw
  obtain ⟨e, he, hl⟩ := List.mem_flatMap.1 hl
  simp only [pageLines, List.mem_cons, List.mem_append, List.not_mem_nil, or_false] at hl
  have hclear : bearsCredential w = false := by
    rcases hl with rfl | rfl | hl | rfl
    · exact words_markerLine e.1 w hw
    · simp [PyStr.fields_nil] at hw
    · refine (acceptedPage_of_mem_zip h e he).no_credential w ?_
      rw [← words_split]
      exact List.mem_flatMap.2 ⟨l, hl, hw⟩
    · simp [PyStr.fields_nil] at hw
  rw [hclear] at hbears
  cases hbears

/-- What both splitters see in joined pages without markers in their values. -/
theorem chunk_blocks (hpos : ∀ n ∈ targets, 0 < n) (hne : targets ≠ [])
    (h : List.Forall₂ AcceptedPage targets values) (hclean : ∀ value ∈ values, NoMarker value) :
    (PyStr.split '\n' (chunkText targets values)).filterMap ocrMarker = targets ∧
      (blocks (PyStr.split '\n' (chunkText targets values))).map (fun b => PyStr.strip (unlines (b.1 :: b.2))) =
        List.zipWith pageText targets values ∧
      (blocks (PyStr.split '\n' (chunkText targets values))).map (fun b => PyStr.strip (unlines b.2)) = values := by
  have hlen : targets.length = values.length := h.length_eq
  have hes := zip_ne_nil hne h
  have hclean' : ∀ e ∈ targets.zip values, NoMarker e.2 := fun e he => hclean e.2 (List.of_mem_zip he).2
  have hcut := fun e he => unlines_page e.1 (acceptedPage_of_mem_zip h e he).stripped (acceptedPage_of_mem_zip h e he).ne_nil
  rw [chunkText_eq, split_pages hes (pos_of_mem_zip hpos), blocks_pages (pos_of_mem_zip hpos) hclean',
    markers_pages (pos_of_mem_zip hpos), List.map_map, List.map_map]
  refine ⟨?_, ?_, ?_⟩
  · have hself : ∀ e ∈ targets.zip values, e.1 :: (PyStr.split '\n' e.2).filterMap ocrMarker = [e.1] := by
      intro e he
      rw [List.filterMap_eq_nil_iff.2 (hclean' e he)]
    rw [List.flatMap_congr hself, ← List.map_eq_flatMap, List.map_fst_zip (by omega)]
  · refine (List.map_congr_left fun e he => (hcut e he).1).trans ?_
    rw [List.zip, List.map_zipWith]
  · refine (List.map_congr_left fun e he => (hcut e he).2).trans ?_
    exact List.map_snd_zip (by omega)

/-- A text whose first line is a marker matches at its start. -/
theorem start_of_head {text line : Str} {lines : List Str} {n : Nat} (hsplit : PyStr.split '\n' text = line :: lines)
    (hline : ocrMarker line = some n) : ∀ m ∈ (findMarkers text).head?, m.start = 0 := by
  intro m hm
  rw [findMarkers, hsplit, matchesFrom, hline] at hm
  obtain rfl : _ = m := Option.some.inj hm
  rfl

theorem splitOcrPages_chunk {first n : Nat} (hfirst : 0 < first) (hn : 0 < n)
    (h : List.Forall₂ AcceptedPage (List.range' first n) values) (hclean : ∀ value ∈ values, NoMarker value) :
    splitOcrPages (chunkText (List.range' first n) values) n first = .ok values := by
  have hpos : ∀ k ∈ List.range' first n, 0 < k := by
    intro k hk
    have := (List.mem_range'_1.1 hk).1
    omega
  have hne : List.range' first n ≠ [] := by simp; omega
  obtain ⟨hnumbers, -, hvalues⟩ := chunk_blocks hpos hne h hclean
  refine splitOcrPages_eq_ok.2 ⟨?_, hnumbers, hvalues.symm, fun value hvalue => ?_⟩
  · have hlines := split_pages (zip_ne_nil hne h) (pos_of_mem_zip hpos)
    rw [← chunkText_eq] at hlines
    cases hes : (List.range' first n).zip values with
    | nil => exact absurd hes (zip_ne_nil hne h)
    | cons e es =>
      rw [hes, List.flatMap_cons, pageLines] at hlines
      exact start_of_head hlines (ocrMarker_markerLine (pos_of_mem_zip hpos e (by rw [hes]; simp)))
  · obtain ⟨k, hk⟩ := exists_mem_zip h hvalue
    exact (acceptedPage_of_mem_zip h _ hk).ne_nil

theorem universalNewlines_eq {s : Str} (h : '\r' ∉ s) : universalNewlines s = s := by
  fun_induction universalNewlines s with
  | case1 => rfl
  | case2 cs ih => simp at h
  | case3 c cs _ ih =>
    simp only [List.mem_cons, not_or] at h
    rw [if_neg fun hc => h.1 hc.symm, ih h.2]

theorem mem_unlines {c : Char} (hc : c ≠ '\n') {lines : List Str} : c ∈ unlines lines ↔ ∃ l ∈ lines, c ∈ l := by
  induction lines with
  | nil => simp [unlines]
  | cons l lines ih =>
    cases lines with
    | nil => simp [unlines_singleton]
    | cons l' lines =>
      rw [unlines_cons l (by simp), List.mem_append, List.mem_cons, ih]
      simp [hc]

/-- The forbidden characters of joined pages are those of the values. -/
theorem mem_chunk (hpos : ∀ n ∈ targets, 0 < n) (hne : targets ≠ []) (h : List.Forall₂ AcceptedPage targets values)
    {c : Char} (hc : c = '\x00' ∨ c = '\r') : c ∈ chunkText targets values ↔ ∃ value ∈ values, c ∈ value := by
  have hnewline : c ≠ '\n' := by rcases hc with rfl | rfl <;> decide
  have hmarker : ∀ n, c ∉ markerLine n := by
    intro n hmem
    rcases List.mem_append.1 hmem with hmem | hmem
    · revert hmem
      rcases hc with rfl | rfl <;> decide
    · have := isDigit_decimal c hmem
      revert this
      rcases hc with rfl | rfl <;> decide
  have hlines := split_pages (zip_ne_nil hne h) (pos_of_mem_zip hpos)
  rw [← chunkText_eq] at hlines
  rw [← unlines_split (chunkText targets values), mem_unlines hnewline, hlines]
  simp only [List.mem_flatMap, pageLines, List.mem_cons, List.mem_append, List.not_mem_nil, or_false]
  constructor
  · rintro ⟨l, ⟨e, he, hl⟩, hmem⟩
    rcases hl with rfl | rfl | hl | rfl
    · exact absurd hmem (hmarker e.1)
    · cases hmem
    · refine ⟨e.2, (List.of_mem_zip he).2, ?_⟩
      rw [← unlines_split e.2, mem_unlines hnewline]
      exact ⟨l, hl, hmem⟩
    · cases hmem
  · rintro ⟨value, hvalue, hmem⟩
    obtain ⟨n, hn⟩ := exists_mem_zip h hvalue
    rw [← unlines_split value, mem_unlines hnewline] at hmem
    obtain ⟨l, hl, hmem⟩ := hmem
    exact ⟨l, ⟨(n, value), hn, .inr (.inr (.inl hl))⟩, hmem⟩

/-! ### Reading a checkpoint back -/

theorem normalize_accepted (h : List.Forall₂ AcceptedPage targets values) :
    validateAndNormalizeTargetPageValues targets values = .ok values := by
  simp only [validateAndNormalizeTargetPageValues, Guard.bind_eq_ok, raiseIf_eq_ok, Guard.exists_unit, not_not,
    Guard.mapM_eq_ok]
  refine ⟨h.length_eq, List.forall₂_iff_get.2 ⟨?_, fun i h1 h2 => ?_⟩⟩
  · rw [List.length_zip, h.length_eq, Nat.min_self]
  · have hi : i < targets.length := h.length_eq ▸ h2
    simp only [List.get_eq_getElem, List.getElem_zip]
    exact ((List.forall₂_iff_get.1 h).2 i hi h2).normal

/-- A checkpoint without NUL, CR and markers in its pages reads back as it was accepted. -/
theorem readCheckpoint_chunk {call : OcrCall} {first n : Nat} (hcall : call.targetPageNumbers = List.range' first n)
    (hfirst : 0 < first) (hn : 0 < n) (h : List.Forall₂ AcceptedPage call.targetPageNumbers values)
    (hclean : ∀ value ∈ values, '\r' ∉ value ∧ NoMarker value) :
    readCheckpoint call (chunkText call.targetPageNumbers values) = .ok values := by
  have hpos : ∀ k ∈ call.targetPageNumbers, 0 < k := by
    intro k hk
    rw [hcall] at hk
    have := (List.mem_range'_1.1 hk).1
    omega
  have hne : call.targetPageNumbers ≠ [] := by rw [hcall]; simp; omega
  have hcr : '\r' ∉ chunkText call.targetPageNumbers values := by
    rw [mem_chunk hpos hne h (.inr rfl)]
    rintro ⟨value, hvalue, hmem⟩
    exact (hclean value hvalue).1 hmem
  have hsplit := splitOcrPages_chunk hfirst hn (hcall ▸ h) fun value hvalue => (hclean value hvalue).2
  rw [← hcall] at hsplit
  simp only [readCheckpoint, universalNewlines_eq hcr, rejectCredentialBearingOcr, Guard.bind_eq_ok, raiseIf_eq_ok,
    Guard.exists_unit, bearsCredential_chunk hpos hne h, Bool.false_eq_true, not_false_eq_true, true_and]
  obtain ⟨rest, hcons⟩ : ∃ rest, call.targetPageNumbers = first :: rest := by
    rw [hcall]
    obtain ⟨n, rfl⟩ := Nat.exists_eq_succ_of_ne_zero hn.ne'
    exact ⟨_, List.range'_succ⟩
  have hcount : call.targetPageNumbers.length = n := by rw [hcall, List.length_range']
  rw [hcons]
  simp only [Guard.bind_eq_ok]
  rw [← hcons, hcount]
  exact ⟨values, hsplit, normalize_accepted h⟩

end

end CardRag
