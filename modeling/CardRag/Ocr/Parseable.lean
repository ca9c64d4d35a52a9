import CardRag.Ocr.Verify
import CardRag.Structure.Markers

/-! # Verified OCR and the structure parser

The verifier takes for a page marker a line between newlines that is exactly `## Page N`. The parser
cuts at every line boundary of Unicode and strips the line first, so it sees markers inside the bodies
of verified pages. It refuses the document exactly when one of them numbers another page. -/

namespace CardRag

/-- `OCRResult.pages` of a verified text. -/
def ocrPages (v : VerifiedOcr) : Except Raised (List Str) := v.pages.mapM pageBody

def pageRecords (documentId : Str) (pages : List Str) : List PageRecord :=
  (pages.zipIdx 1).map fun (text, page) => ⟨documentId, page, text⟩

/-- Every line of a page that the parser takes for a marker is the page's own. -/
def OwnMarkers (pages : List Str) : Prop :=
  ∀ e ∈ pages.zipIdx 1, ∀ line ∈ PyStr.splitlines e.1, ∀ n ∈ pageMarker (PyStr.strip line), n = e.2

instance (pages : List Str) : Decidable (OwnMarkers pages) := by unfold OwnMarkers; infer_instance

section
variable {k : Nat} {s : Str}

/-! ### The markers that the parser sees -/

/-- The marker fields of a text all number page `k`. -/
def MarkersAre (k : Nat) (s : Str) : Prop :=
  ∀ x ∈ PyStr.fields PyStr.isLineBreak s, ∀ n ∈ pageMarker x, n = k

theorem markersAre_iff : MarkersAre k s ↔
    ∀ line ∈ PyStr.splitlines s, ∀ n ∈ pageMarker (PyStr.strip line), n = k := by
  have hnil : pageMarker [] = none := rfl
  rw [MarkersAre, ← PyStr.strip_splitlines]
  simp only [List.mem_filter, List.mem_map, Bool.not_eq_true', List.isEmpty_eq_false_iff]
  constructor
  · intro h line hline n hn
    refine h (PyStr.strip line) ⟨⟨line, hline, rfl⟩, ?_⟩ n hn
    intro hempty
    rw [hempty, hnil] at hn
    cases hn
  · rintro h _ ⟨⟨line, hline, rfl⟩, -⟩
    exact h line hline

theorem markersAre_strip : MarkersAre k (PyStr.strip s) ↔ MarkersAre k s := by
  rw [MarkersAre, PyStr.fields_strip]
  rfl

/-- The parser reads an exact marker line as the verifier does. -/
theorem pageMarker_of_ocrMarker {line : Str} {n m : Nat} (h : ocrMarker line = some n)
    (hm : m ∈ pageMarker line) : m = n := by
  obtain ⟨digits, rfl, hall, -, rfl⟩ := ocrMarker_eq_some.1 h
  have hdrop : ("## Page ".toList ++ digits).drop 8 = digits := rfl
  simp only [pageMarker, Option.mem_def] at hm
  split at hm
  · rw [hdrop, List.takeWhile_eq_self_iff.2 hall] at hm
    exact (Option.some.inj hm).symm
  · cases hm

end

section
variable {H : Sha256} {U : Unicode} {payload : Str} {expected : OcrExpectation} {v : VerifiedOcr}
  {bodies : List Str}

/-! ### What the verifier accepts -/

theorem verified_blocks (h : verifyOcrBytes H payload expected = .ok v) :
    v.pages = (blocks (PyStr.split '\n' payload)).map (fun b => PyStr.strip (unlines (b.1 :: b.2))) ∧
      (blocks (PyStr.split '\n' payload)).map (fun b => ocrMarker b.1) =
        (List.range' 1 expected.pageCount).map some := by
  simp only [verifyOcrBytes, splitPages, Guard.bind_eq_ok, raiseIf_eq_ok, Guard.exists_unit, Guard.pure_eq_ok] at h
  obtain ⟨-, -, -, -, -, pages, ⟨hnumbers, -, -, rfl⟩, -, -, rfl⟩ := h
  rw [not_not, numbers_findMarkers] at hnumbers
  rw [ocrMarker_blocks, hnumbers]
  exact ⟨cutPages_start payload, rfl⟩

/-- The first field of a verified page is its own marker line. -/
theorem fields_verified (h : verifyOcrBytes H payload expected = .ok v) {k : Nat} {page : Str}
    (hpage : (page, k) ∈ v.pages.zipIdx 1) : ∃ line rest, ocrMarker line = some k ∧
      PyStr.fields PyStr.isLineBreak page = line :: rest := by
  obtain ⟨hpages, hmarkers⟩ := verified_blocks h
  have hnewline : PyStr.isLineBreak '\n' = true := by decide
  obtain ⟨hle, hget⟩ := List.mk_mem_zipIdx_iff_le_and_getElem?_sub.1 hpage
  rw [hpages, List.getElem?_map, Option.map_eq_some_iff] at hget
  obtain ⟨b, hb, rfl⟩ := hget
  have hmarker := congrArg (·[k - 1]?) hmarkers
  simp only [List.getElem?_map, hb, Option.map_some] at hmarker
  obtain ⟨n, hn, hmark⟩ := Option.map_eq_some_iff.1 hmarker.symm
  obtain ⟨hlt, rfl⟩ := List.getElem?_eq_some_iff.1 hn
  refine ⟨b.1, PyStr.fields PyStr.isLineBreak (unlines b.2), ?_, ?_⟩
  · rw [← hmark, List.getElem_range']
    congr 1
    omega
  · rw [PyStr.fields_strip]
    cases hbody : b.2 with
    | nil => rw [unlines_singleton, fields_marker hmark.symm]; rfl
    | cons l body =>
      rw [unlines_cons b.1 (by simp), PyStr.fields_append_cons hnewline, fields_marker hmark.symm]
      rfl

/-- Taking the body off a page drops its marker line and nothing else that the parser sees. -/
theorem markersAre_pageBody (h : verifyOcrBytes H payload expected = .ok v) {k : Nat} {page body : Str}
    (hpage : (page, k) ∈ v.pages.zipIdx 1) (hbody : pageBody page = .ok body) :
    MarkersAre k body ↔ MarkersAre k page := by
  obtain ⟨line, rest, hline, hfields⟩ := fields_verified h hpage
  have hnewline : PyStr.isLineBreak '\n' = true := by decide
  simp only [pageBody, Guard.bind_eq_ok, raiseIf_eq_ok, Guard.exists_unit, Guard.pure_eq_ok, not_or, not_not] at hbody
  obtain ⟨⟨hmem, hfirst⟩, rfl⟩ := hbody
  obtain ⟨n, hn⟩ := Option.ne_none_iff_exists'.1 hfirst
  -- the page is its first line, a newline and the remainder
  have hcut : page = page.takeWhile (· != '\n') ++ '\n' :: page.drop ((page.takeWhile (· != '\n')).length + 1) :=
    PyStr.eq_partition hmem
  have hpieces : PyStr.fields PyStr.isLineBreak page = page.takeWhile (· != '\n') ::
      PyStr.fields PyStr.isLineBreak (page.drop ((page.takeWhile (· != '\n')).length + 1)) := by
    conv_lhs => rw [hcut]
    rw [PyStr.fields_append_cons hnewline, fields_marker hn]
    rfl
  have hsame : line = page.takeWhile (· != '\n') := by
    rw [hfields] at hpieces
    exact (List.cons.inj hpieces).1
  rw [markersAre_strip, MarkersAre, MarkersAre, hpieces, List.forall_mem_cons]
  refine ⟨fun hrest => ⟨fun m hm => ?_, hrest⟩, fun hall => hall.2⟩
  rw [← hsame] at hm
  exact pageMarker_of_ocrMarker hline hm

/-! ### The parser on verified pages -/

theorem strip_visible (l : SourceLine) : PyStr.strip l.visible = PyStr.strip l.text := by
  have hsplit : l.text = l.visible ++ l.text.rtakeWhile fun c => c == '\r' || c == '\n' :=
    (List.rdropWhile_append_rtakeWhile ..).symm
  rw [hsplit, PyStr.strip_append_spaces]
  intro c hc
  have := List.mem_rtakeWhile_imp hc
  simp only [Bool.or_eq_true, beq_iff_eq] at this
  rcases this with rfl | rfl <;> decide

theorem markersOwn_iff (inp : StructureInput) : inp.MarkersOwn ↔ ∀ p ∈ inp.pages, MarkersAre p.page p.text := by
  simp only [StructureInput.MarkersOwn, mem_allLines, markersAre_iff, strip_visible]
  constructor
  · intro h p hp line hline
    rw [← linesFrom_text p.page 0 (PyStr.splitlines p.text), ← sourceLines_eq, List.mem_map] at hline
    obtain ⟨l, hl, rfl⟩ := hline
    rw [← (sourceLines_of hl).page_eq]
    exact h l ⟨p, hp, hl⟩
  · rintro h l ⟨p, hp, hl⟩
    rw [(sourceLines_of hl).page_eq]
    refine h p hp l.text ?_
    rw [← linesFrom_text p.page 0 (PyStr.splitlines p.text), ← sourceLines_eq]
    exact List.mem_map_of_mem hl

/-- Verified OCR is refused for its page markers exactly when a line of one of its pages, cut at every
line boundary and stripped, is the marker of another page. -/
theorem verified_parse_iff {inp : StructureInput} {documentId : Str} (hverified : verifyOcrBytes H payload expected = .ok v)
    (hbodies : ocrPages v = .ok bodies) (hpages : inp.pages = pageRecords documentId bodies)
    (hcheck : inp.check = .ok ()) (hprofile : ∀ p ∈ inp.profile, p.issuer = inp.issuer) :
    parseStructureArtifact H U inp ≠ .error markerMismatch ↔ OwnMarkers v.pages := by
  obtain ⟨profile, hselect⟩ := selectProfile_returns hcheck hprofile
  rw [ne_eq, parse_markerMismatch_iff hcheck hselect, not_not, markersOwn_iff, hpages]
  obtain ⟨hlen, hget⟩ := List.forall₂_iff_get.1 (Guard.mapM_eq_ok.1 hbodies)
  have hsame : ∀ k page body, (page, k) ∈ v.pages.zipIdx 1 → (body, k) ∈ bodies.zipIdx 1 →
      (MarkersAre k body ↔ MarkersAre k page) := by
    intro k page body hpage hbody
    refine markersAre_pageBody hverified hpage ?_
    obtain ⟨hk, hb1, hp⟩ := List.mem_zipIdx hpage
    obtain ⟨-, hb2, hb⟩ := List.mem_zipIdx hbody
    rw [hp, hb]
    exact hget (k - 1) (by omega) (by omega)
  simp only [pageRecords, List.forall_mem_map, OwnMarkers, ← markersAre_iff]
  constructor
  · rintro h ⟨page, k⟩ hpage
    obtain ⟨hk, hb, -⟩ := List.mem_zipIdx hpage
    have hbody : (bodies[k - 1], k) ∈ bodies.zipIdx 1 :=
      List.mk_mem_zipIdx_iff_le_and_getElem?_sub.2 ⟨hk, List.getElem?_eq_getElem (by omega)⟩
    exact (hsame k page _ hpage hbody).1 (h _ hbody)
  · rintro h ⟨body, k⟩ hbody
    obtain ⟨hk, hb, -⟩ := List.mem_zipIdx hbody
    have hpage : (v.pages[k - 1], k) ∈ v.pages.zipIdx 1 :=
      List.mk_mem_zipIdx_iff_le_and_getElem?_sub.2 ⟨hk, List.getElem?_eq_getElem (by omega)⟩
    exact (hsame k _ body hpage hbody).2 (h _ hpage)

end

/-- A verified page with an indented line that reads like the marker of page 2. -/
def indentedMarker : Str := "## Page 1\n\nabcdefghij\n ## Page 2\n".toList

def indentedBody : Str := "abcdefghij\n ## Page 2".toList

def indentedInput : StructureInput := sampleInput (pageRecords ['d'] [indentedBody])

theorem verified_indentedMarker : ∃ v, verifyOcrBytes .standard indentedMarker { pageCount := 1 } = .ok v ∧
    ocrPages v = .ok [indentedBody] := by
  have heval : (verifyOcrBytes .standard indentedMarker { pageCount := 1 }).map ocrPages =
      .ok (.ok [indentedBody]) := by decide +kernel
  cases hv : verifyOcrBytes .standard indentedMarker { pageCount := 1 } with
  | error e => rw [hv] at heval; cases heval
  | ok v =>
    rw [hv] at heval
    exact ⟨v, rfl, Except.ok.inj heval⟩

theorem verified_parse_iff_indentedMarker : ∃ v, verifyOcrBytes .standard indentedMarker { pageCount := 1 } = .ok v ∧
    (parseStructureArtifact .standard .ascii indentedInput ≠ .error markerMismatch ↔ OwnMarkers v.pages) := by
  obtain ⟨v, hv, hbodies⟩ := verified_indentedMarker
  exact ⟨v, hv, verified_parse_iff hv hbodies rfl (by decide +kernel) (by decide)⟩

/-- The verifier accepts the indented line as text of page 1, and the parser refuses the page for it. -/
theorem parse_refuses_indentedMarker : ∃ v bodies,
    verifyOcrBytes .standard indentedMarker { pageCount := 1 } = .ok v ∧ ocrPages v = .ok bodies ∧
      indentedInput.pages = pageRecords ['d'] bodies ∧ indentedInput.check = .ok () ∧
      parseStructureArtifact .standard .ascii indentedInput = .error markerMismatch := by
  obtain ⟨v, hv, hbodies⟩ := verified_indentedMarker
  have hcheck : indentedInput.check = .ok () := by decide +kernel
  obtain ⟨profile, hprofile⟩ := selectProfile_returns hcheck (by decide)
  refine ⟨v, _, hv, hbodies, rfl, hcheck, (parse_markerMismatch_iff hcheck hprofile).2 ?_⟩
  decide +kernel

end CardRag
