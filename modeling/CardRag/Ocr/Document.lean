import CardRag.Ocr.Assemble

/-! # From accepted answers to the verified document

The targets of the planned calls partition the pages of the document in order, so the pages of all
calls are the accepted values one after another. The joined text is verified, its page bodies are the
accepted values and every checkpoint reads back as it was accepted, exactly when the values are clean. -/

namespace CardRag

/-! ### The plan -/

section
variable {pageCount : Nat}

theorem pageRange_eq (first last : Nat) : pageRange first last = List.range' first (last + 1 - first) := rfl

/-- The targets of calls that start every `k` pages, from `s` on. -/
theorem targets_partition {k : Nat} (hk : 0 < k) (m s : Nat) (hlow : pageCount + 1 - s ≤ m * k)
    (hhigh : m * k < pageCount + 1 - s + k) :
    (List.range' s m k).flatMap (fun f => pageRange f (min pageCount (f + k - 1))) =
      List.range' s (pageCount + 1 - s) := by
  induction m generalizing s with
  | zero =>
    have hnone : pageCount + 1 - s = 0 := by omega
    rw [hnone]
    rfl
  | succ m ih =>
    rw [Nat.succ_mul] at hlow hhigh
    rw [List.range'_succ, List.flatMap_cons, pageRange_eq, ih (s + k) (by omega) (by omega)]
    by_cases hfull : s + k - 1 ≤ pageCount
    · have h1 : min pageCount (s + k - 1) + 1 - s = k := by omega
      have h2 : pageCount + 1 - s = k + (pageCount + 1 - (s + k)) := by omega
      rw [h1, h2, ← List.range'_append_1]
    · have h1 : min pageCount (s + k - 1) + 1 - s = pageCount + 1 - s := by omega
      have h2 : pageCount + 1 - (s + k) = 0 := by omega
      rw [h1, h2, List.range'_zero, List.append_nil]

variable {whole perCall before after : Nat} {calls : List OcrCall}

/-- The targets of the calls partition the pages in order, and each call has consecutive ones. -/
theorem plan_spec (h : planOcrCalls pageCount whole perCall before after = .ok calls) :
    0 < pageCount ∧ calls.flatMap (·.targetPageNumbers) = List.range' 1 pageCount ∧
      ∀ call ∈ calls, ∃ first n, call.targetPageNumbers = List.range' first n ∧ 0 < first ∧ 0 < n := by
  simp only [planOcrCalls, Guard.bind_eq_ok, raiseIf_eq_ok, Guard.exists_unit] at h
  obtain ⟨hcount, -, hper, h⟩ := h
  split at h
  · rw [Guard.pure_eq_ok] at h
    subst h
    refine ⟨by omega, by simp [pageRange], fun call hcall => ⟨1, pageCount, ?_, by omega, by omega⟩⟩
    rw [List.mem_singleton.1 hcall, pageRange_eq, Nat.add_sub_cancel]
  · rw [Guard.pure_eq_ok] at h
    subst h
    have hdiv := Nat.div_add_mod (pageCount + perCall - 1) perCall
    have hmod := Nat.mod_lt (pageCount + perCall - 1) (show 0 < perCall by omega)
    rw [Nat.mul_comm] at hdiv
    refine ⟨by omega, ?_, ?_⟩
    · rw [List.flatMap_map]
      have := @targets_partition pageCount perCall (by omega) ((pageCount + perCall - 1) / perCall) 1
        (by omega) (by omega)
      rwa [Nat.add_sub_cancel] at this
    · intro call hcall
      obtain ⟨f, hf, rfl⟩ := List.mem_map.1 hcall
      obtain ⟨i, hi, rfl⟩ := List.mem_range'.1 hf
      refine ⟨_, _, pageRange_eq _ _, by omega, ?_⟩
      have hle : (i + 1) * perCall ≤ (pageCount + perCall - 1) / perCall * perCall := Nat.mul_le_mul_right _ hi
      rw [Nat.succ_mul] at hle
      rw [Nat.mul_comm perCall i]
      omega

end

/-! ### The joined text -/

/-- What the validation of an answer should have refused: NUL, CR and page markers. -/
def CleanValue (value : Str) : Prop := '\x00' ∉ value ∧ '\r' ∉ value ∧ NoMarker value

instance (value : Str) : Decidable (CleanValue value) := by unfold CleanValue; infer_instance

section
variable {H : Sha256} {pageCount : Nat} {pages : List Str}

theorem pageBody_pageText {n : Nat} {value : Str} (hn : 0 < n) (hstrip : PyStr.strip value = value) :
    pageBody (pageText n value) = .ok value := by
  have hnewline : PyStr.isSpace '\n' = true := by decide
  have hmarker := newline_notMem_marker (ocrMarker_markerLine hn)
  have hfirst : (pageText n value).takeWhile (· != '\n') = markerLine n := by
    have hall : ∀ c ∈ markerLine n, (c != '\n') = true := by
      intro c hc
      rw [bne_iff_ne]
      rintro rfl
      exact hmarker hc
    rw [pageText, List.takeWhile_append_of_pos hall]
    simp
  have hrest : (pageText n value).drop ((markerLine n).length + 1) = '\n' :: value := by
    rw [pageText, List.drop_length_add_append]
    rfl
  simp only [pageBody, hfirst, hrest, Guard.bind_eq_ok, raiseIf_eq_ok, Guard.exists_unit, Guard.pure_eq_ok]
  refine ⟨?_, by rw [PyStr.strip_cons_space hnewline, hstrip]⟩
  rw [ocrMarker_markerLine hn]
  simp [pageText]

/-- A list of which each element adds its own number and more is as long as the numbers only when
nothing is added. -/
theorem flatMap_cons_eq {α : Type} {f : α → Nat} {g : α → List Nat} {es : List α}
    (h : (es.flatMap fun e => f e :: g e).length = es.length) : ∀ e ∈ es, g e = [] := by
  induction es with
  | nil => nofun
  | cons e es ih =>
    have hle : es.length ≤ (es.flatMap fun e => f e :: g e).length := by
      clear h ih
      induction es with
      | nil => exact Nat.le_refl 0
      | cons e es ih =>
        rw [List.flatMap_cons, List.length_append, List.length_cons, List.length_cons]
        omega
    rw [List.flatMap_cons, List.length_append, List.length_cons, List.length_cons] at h
    refine List.forall_mem_cons.2 ⟨List.length_eq_zero_iff.1 (by omega), ih (by omega)⟩

/-- The document is accepted with the values as its page bodies exactly when they are clean. -/
theorem finishDocument_iff (hcount : 0 < pageCount) (h : List.Forall₂ AcceptedPage (List.range' 1 pageCount) pages) :
    (∃ v, finishDocument H pageCount pages = .ok (v, pages)) ↔ ∀ value ∈ pages, CleanValue value := by
  have hpos : ∀ k ∈ List.range' 1 pageCount, 0 < k := by
    intro k hk
    have := (List.mem_range'_1.1 hk).1
    omega
  have hne : List.range' 1 pageCount ≠ [] := by simp; omega
  have hforbidden : ('\x00' ∈ chunkText (List.range' 1 pageCount) pages ∨
      '\r' ∈ chunkText (List.range' 1 pageCount) pages) ↔ ∃ value ∈ pages, '\x00' ∈ value ∨ '\r' ∈ value := by
    rw [mem_chunk hpos hne h (.inl rfl), mem_chunk hpos hne h (.inr rfl)]
    constructor
    · rintro (⟨value, hv, hc⟩ | ⟨value, hv, hc⟩)
      · exact ⟨value, hv, .inl hc⟩
      · exact ⟨value, hv, .inr hc⟩
    · rintro ⟨value, hv, hc | hc⟩
      · exact .inl ⟨value, hv, hc⟩
      · exact .inr ⟨value, hv, hc⟩
  constructor
  · rintro ⟨v, hv⟩
    simp only [finishDocument, Guard.bind_eq_ok, Guard.exists_unit, verifyOcrBytes, splitPages, raiseIf_eq_ok,
      Guard.pure_eq_ok, numbers_findMarkers, not_not] at hv
    obtain ⟨-, _, ⟨-, -, hchars, -, -, _, ⟨hnumbers, -⟩, -⟩, -⟩ := hv
    rw [hforbidden] at hchars
    have hlines := split_pages (zip_ne_nil hne h) (pos_of_mem_zip hpos)
    rw [← chunkText_eq] at hlines
    rw [hlines, markers_pages (pos_of_mem_zip hpos)] at hnumbers
    have hlen := congrArg List.length hnumbers
    have hzip : ((List.range' 1 pageCount).zip pages).length = (List.range' 1 pageCount).length := by
      rw [List.length_zip, h.length_eq, Nat.min_self]
    rw [← hzip] at hlen
    have hmarkers := flatMap_cons_eq hlen
    intro value hvalue
    obtain ⟨n, hn⟩ := exists_mem_zip h hvalue
    refine ⟨fun hc => hchars ⟨value, hvalue, .inl hc⟩, fun hc => hchars ⟨value, hvalue, .inr hc⟩, ?_⟩
    exact List.filterMap_eq_nil_iff.1 (hmarkers _ hn)
  · intro hclean
    obtain ⟨hnumbers, hcut, -⟩ := chunk_blocks hpos hne h fun value hv => (hclean value hv).2.2
    have hsplit : splitPages (chunkText (List.range' 1 pageCount) pages) pageCount 20 =
        .ok (List.zipWith pageText (List.range' 1 pageCount) pages) := by
      simp only [splitPages, Guard.bind_eq_ok, Guard.exists_unit, raiseIf_eq_ok, Guard.pure_eq_ok, numbers_findMarkers,
        cutPages_start, hnumbers, hcut, not_not, and_true, true_and, not_exists, not_and, not_lt]
      refine ⟨fun page hpage => ?_, rfl⟩
      have hzip : List.zipWith pageText (List.range' 1 pageCount) pages =
          ((List.range' 1 pageCount).zip pages).map fun e => pageText e.1 e.2 := by rw [List.zip, List.map_zipWith]
      rw [hzip, List.mem_map] at hpage
      obtain ⟨e, he, rfl⟩ := hpage
      exact (acceptedPage_of_mem_zip h e he).long
    have hbodies : (List.zipWith pageText (List.range' 1 pageCount) pages).mapM pageBody = .ok pages := by
      refine Guard.mapM_eq_ok.2 (List.forall₂_iff_get.2 ⟨?_, fun i h1 h2 => ?_⟩)
      · rw [List.length_zipWith, h.length_eq, Nat.min_self]
      · have hi : i < (List.range' 1 pageCount).length := h.length_eq ▸ h2
        simp only [List.get_eq_getElem, List.getElem_zipWith]
        exact pageBody_pageText (hpos _ (List.getElem_mem hi)) ((List.forall₂_iff_get.1 h).2 i hi h2).stripped
    have hchars : ¬ ('\x00' ∈ chunkText (List.range' 1 pageCount) pages ∨
        '\r' ∈ chunkText (List.range' 1 pageCount) pages) := by
      rw [hforbidden]
      rintro ⟨value, hv, hc | hc⟩
      · exact (hclean value hv).1 hc
      · exact (hclean value hv).2.1 hc
    simp only [finishDocument, rejectCredentialBearingOcr, Guard.bind_eq_ok, Guard.exists_unit, verifyOcrBytes,
      raiseIf_eq_ok, Guard.pure_eq_ok, hsplit, bearsCredential_chunk hpos hne h]
    refine ⟨_, by simp, _, ⟨by omega, by simp, hchars, by simp, by simp, _, rfl, by simp, by simp, rfl⟩, _, hbodies, rfl⟩

/-! ### The pages of all calls -/

theorem foldl_insert_eq {α : Type} {es d : List (Nat × α)} (h : ((d ++ es).map (·.1)).Nodup) :
    es.foldl (fun d e => PyList.insert e.1 e.2 d) d = d ++ es := by
  induction es generalizing d with
  | nil => rw [List.foldl_nil, List.append_nil]
  | cons e es ih =>
    have hnew : e.1 ∉ d.map (·.1) := by
      intro hmem
      rw [List.map_append, List.nodup_append] at h
      exact h.2.2 _ hmem e.1 (by simp) rfl
    rw [List.foldl_cons, PyList.insert_of_notMem hnew, ih (by simpa using h)]
    simp

theorem collectPages_zip {values : List Str} (hlen : values.length = pageCount) :
    collectPages pageCount ((List.range' 1 pageCount).zip values) = .ok values := by
  have hlen' : (List.range' 1 pageCount).length = values.length := by rw [List.length_range', hlen]
  have hkeys : ((List.range' 1 pageCount).zip values).map (·.1) = List.range' 1 pageCount := List.map_fst_zip hlen'.le
  have hnodup : (((List.range' 1 pageCount).zip values).map (·.1)).Nodup := by
    rw [hkeys]
    exact List.nodup_range'
  rw [collectPages, foldl_insert_eq (by rwa [List.nil_append]), List.nil_append]
  refine Guard.mapM_eq_ok.2 (List.forall₂_iff_get.2 ⟨hlen', fun i h1 h2 => ?_⟩)
  have hmem : ((List.range' 1 pageCount)[i], values[i]) ∈ (List.range' 1 pageCount).zip values :=
    List.mem_iff_getElem.2 ⟨i, by simp [hlen', h2], by rw [List.getElem_zip]⟩
  have hget := (PyList.mem_iff_get? hnodup).1 hmem
  simp only [List.get_eq_getElem, hget]

theorem pageTexts_eq {calls : List OcrCall} {values : List (List Str)}
    (h : List.Forall₂ (fun call vs => List.Forall₂ AcceptedPage call.targetPageNumbers vs) calls values) :
    pageTexts calls values = (calls.flatMap (·.targetPageNumbers)).zip values.flatten := by
  unfold pageTexts
  induction h with
  | nil => rfl
  | cons hcall _ ih =>
    rw [List.zipWith_cons_cons, List.flatten_cons, ih, List.flatMap_cons, List.flatten_cons,
      List.zip_append hcall.length_eq]

theorem acceptCalls_pages {calls : List OcrCall} {raws : List Str} {values : List (List Str)}
    (hlen : calls.length = raws.length) (h : acceptCalls calls raws = .ok values) :
    List.Forall₂ (fun call vs => List.Forall₂ AcceptedPage call.targetPageNumbers vs) calls values := by
  obtain ⟨hzip, hget⟩ := List.forall₂_iff_get.1 (Guard.mapM_eq_ok.1 h)
  rw [List.length_zip, ← hlen, Nat.min_self] at hzip
  refine List.forall₂_iff_get.2 ⟨hzip, fun i h1 h2 => ?_⟩
  have hi := hget i (by simp [← hlen, h1]) h2
  simp only [List.get_eq_getElem, List.getElem_zip] at hi
  exact acceptedPages hi

end

/-! ### The document -/

/-- The accepted answers make a document: its pages are the accepted values, the joined text verifies
with them as its page bodies, and every checkpoint reads back as it was accepted. -/
structure Assembles (H : Sha256) (pageCount : Nat) (calls : List OcrCall) (values : List (List Str)) : Prop where
  pages : collectPages pageCount (pageTexts calls values) = .ok values.flatten
  verified : ∃ v, finishDocument H pageCount values.flatten = .ok (v, values.flatten)
  reread : ∀ e ∈ calls.zip values, readCheckpoint e.1 (chunkText e.1.targetPageNumbers e.2) = .ok e.2

section
variable {H : Sha256} {pageCount whole perCall before after : Nat} {calls : List OcrCall} {raws : List Str}
  {values : List (List Str)}

/-- The calls partition the pages, and answers accepted call by call make a document exactly when no
accepted value holds NUL, CR or a line that is a page marker. -/
theorem assembles_iff (hplan : planOcrCalls pageCount whole perCall before after = .ok calls)
    (hlen : calls.length = raws.length) (haccept : acceptCalls calls raws = .ok values) :
    calls.flatMap (·.targetPageNumbers) = List.range' 1 pageCount ∧
      (Assembles H pageCount calls values ↔ ∀ value ∈ values.flatten, CleanValue value) := by
  obtain ⟨hcount, hpartition, hcalls⟩ := plan_spec hplan
  have hall := acceptCalls_pages hlen haccept
  have hpages : List.Forall₂ AcceptedPage (List.range' 1 pageCount) values.flatten := by
    rw [← hpartition, List.flatMap_def]
    exact List.rel_flatten (List.forall₂_map_left_iff.2 hall)
  refine ⟨hpartition, fun h => (finishDocument_iff hcount hpages).1 h.verified, fun hclean => ⟨?_, ?_, ?_⟩⟩
  · rw [pageTexts_eq hall, hpartition]
    exact collectPages_zip (by rw [← hpages.length_eq, List.length_range'])
  · exact (finishDocument_iff hcount hpages).2 hclean
  · rintro ⟨call, vs⟩ he
    obtain ⟨first, n, htargets, hfirst, hn⟩ := hcalls call (List.of_mem_zip he).1
    have hvs : List.Forall₂ AcceptedPage call.targetPageNumbers vs := by
      obtain ⟨i, hi, heq⟩ := List.getElem_of_mem he
      rw [List.getElem_zip, Prod.mk.injEq] at heq
      rw [← heq.1, ← heq.2]
      exact (List.forall₂_iff_get.1 hall).2 i _ _
    refine readCheckpoint_chunk htargets hfirst hn hvs fun value hvalue => ?_
    exact (hclean value (List.mem_flatten.2 ⟨vs, (List.of_mem_zip he).2, hvalue⟩)).2

end

/-- One call for a document of one page. -/
def singleCall : List OcrCall := [⟨[1], [1]⟩]

/-- A page value that ends in NUL and a letter. -/
def nulValue : Str := "abcdefghij".toList ++ ['\x00', 'z']

/-- An answer with it, as the provider sends it. -/
def nulAnswer : Str := "## Page 1\n\n".toList ++ nulValue

theorem accept_nulAnswer : planOcrCalls 1 1 1 0 0 = .ok singleCall ∧ acceptCalls singleCall [nulAnswer] = .ok [[nulValue]] := by
  constructor <;> decide +kernel

theorem assembles_iff_nulAnswer : acceptCalls singleCall [nulAnswer] = .ok [[nulValue]] ∧
    (singleCall.flatMap (·.targetPageNumbers) = List.range' 1 1 ∧
      (Assembles .standard 1 singleCall [[nulValue]] ↔ ∀ value ∈ [[nulValue]].flatten, CleanValue value)) :=
  ⟨accept_nulAnswer.2, assembles_iff accept_nulAnswer.1 rfl accept_nulAnswer.2⟩

/-- The answer is accepted and its checkpoint is accepted on every later attempt, but the document it
makes is refused each time. -/
theorem nulAnswer_refused : planOcrCalls 1 1 1 0 0 = .ok singleCall ∧
    acceptCalls singleCall [nulAnswer] = .ok [[nulValue]] ∧ ¬ Assembles .standard 1 singleCall [[nulValue]] ∧
    (∀ e ∈ singleCall.zip [[nulValue]], readCheckpoint e.1 (chunkText e.1.targetPageNumbers e.2) = .ok e.2) ∧
    finishDocument .standard 1 [nulValue] = .error (ocrError "OCR bytes contain forbidden NUL or CR characters") := by
  have hrefused : finishDocument .standard 1 [nulValue] =
      .error (ocrError "OCR bytes contain forbidden NUL or CR characters") := by decide +kernel
  refine ⟨accept_nulAnswer.1, accept_nulAnswer.2, ?_, by decide +kernel, hrefused⟩
  rintro ⟨-, ⟨v, hv⟩, -⟩
  have hflat : [[nulValue]].flatten = [nulValue] := rfl
  rw [hflat, hrefused] at hv
  cases hv

end CardRag
