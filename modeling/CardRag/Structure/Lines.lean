import CardRag.Structure.Validate

/-! # The lines of a page

A page's lines are consecutive, non-empty and made of its text: each is the slice of the page at its
own offsets, its offsets are line boundaries, and together they reach every offset once. `allLines`
puts the lines of all pages in source order. -/

namespace CardRag

/-- `a` ends before `b` starts, on the same page or an earlier one. -/
def SourceLine.Before (a b : SourceLine) : Prop :=
  a.page < b.page ∨ a.page = b.page ∧ a.sourceEnd ≤ b.sourceStart

section
variable {page offset : Nat} {texts : List Str}

theorem linesFrom_page {l : SourceLine} (h : l ∈ linesFrom page offset texts) : l.page = page := by
  induction texts generalizing offset with
  | nil => simp [linesFrom] at h
  | cons t ts ih =>
    rcases List.mem_cons.1 h with rfl | h
    · rfl
    · exact ih h

theorem linesFrom_bounds {l : SourceLine} (h : l ∈ linesFrom page offset texts) :
    offset ≤ l.sourceStart ∧ l.sourceEnd = l.sourceStart + l.text.length ∧
      l.sourceEnd ≤ offset + texts.flatten.length ∧ l.text ∈ texts := by
  induction texts generalizing offset with
  | nil => simp [linesFrom] at h
  | cons t ts ih =>
    rcases List.mem_cons.1 h with rfl | h
    · simp
    · obtain ⟨h1, h2, h3, h4⟩ := ih h
      refine ⟨by omega, h2, ?_, by simp [h4]⟩
      simp only [List.flatten_cons, List.length_append]
      omega

theorem linesFrom_pairwise (page offset : Nat) (texts : List Str) :
    (linesFrom page offset texts).Pairwise SourceLine.Before := by
  induction texts generalizing offset with
  | nil => exact List.Pairwise.nil
  | cons t ts ih =>
    exact List.pairwise_cons.2 ⟨fun l hl => .inr ⟨(linesFrom_page hl).symm, (linesFrom_bounds hl).1⟩, ih _⟩

theorem linesFrom_slice {l : SourceLine} (pre : Str) (h : l ∈ linesFrom page pre.length texts) :
    PyStr.slice (pre ++ texts.flatten) l.sourceStart l.sourceEnd = l.text := by
  induction texts generalizing pre with
  | nil => simp [linesFrom] at h
  | cons t ts ih =>
    rcases List.mem_cons.1 h with rfl | h
    · show PyStr.slice (pre ++ (t :: ts).flatten) (pre.length + 0) (pre.length + t.length) = t
      rw [PyStr.slice_shift, List.flatten_cons, PyStr.slice_append_left]
    · have := ih (pre ++ t) (by simpa using h)
      simpa using this

theorem linesFrom_boundaries {l : SourceLine} (h : l ∈ linesFrom page offset texts) :
    l.sourceStart ∈ offset :: boundariesFrom offset texts ∧ l.sourceEnd ∈ boundariesFrom offset texts := by
  induction texts generalizing offset with
  | nil => simp [linesFrom] at h
  | cons t ts ih =>
    rcases List.mem_cons.1 h with rfl | h
    · simp [boundariesFrom]
    · obtain ⟨h1, h2⟩ := ih h
      exact ⟨List.mem_cons_of_mem _ h1, List.mem_cons_of_mem _ h2⟩

end

/-- What a line of a page knows about the page. -/
structure SourceLine.Of (l : SourceLine) (page : Nat) (text : Str) : Prop where
  page_eq : l.page = page
  start_lt : l.sourceStart < l.sourceEnd
  end_le : l.sourceEnd ≤ text.length
  start_mem : l.sourceStart ∈ boundaryStarts text
  end_mem : l.sourceEnd ∈ boundaryEnds text
  slice_eq : PyStr.slice text l.sourceStart l.sourceEnd = l.text

section
variable {p : PageRecord} {l : SourceLine}

theorem sourceLines_of (h : l ∈ sourceLines p) : l.Of p.page p.text := by
  rw [sourceLines_eq] at h
  obtain ⟨-, hend, hle, hmem⟩ := linesFrom_bounds h
  obtain ⟨hs, he⟩ := linesFrom_boundaries h
  have hpos : 0 < l.text.length := List.length_pos_iff.2 (PyStr.ne_nil_of_mem_splitlines hmem)
  have hslice := linesFrom_slice [] h
  rw [PyStr.splitlines_flatten] at hle hslice
  exact ⟨linesFrom_page h, by omega, by omega, hs, by simp [boundaryEnds, he], hslice⟩

theorem sourceLines_pairwise (p : PageRecord) : (sourceLines p).Pairwise SourceLine.Before :=
  sourceLines_eq p ▸ linesFrom_pairwise _ _ _

theorem sourceLines_text (p : PageRecord) : (sourceLines p).flatMap (·.text) = p.text := by
  rw [sourceLines_eq, List.flatMap_def, linesFrom_text, PyStr.splitlines_flatten]

end

/-- The lines of the document in source order. -/
def allLines (pages : List PageRecord) : List SourceLine := pages.flatMap sourceLines

theorem mem_allLines {pages : List PageRecord} {l : SourceLine} :
    l ∈ allLines pages ↔ ∃ p ∈ pages, l ∈ sourceLines p := List.mem_flatMap

theorem allLines_pairwise {pages : List PageRecord} (h : (pages.map (·.page)).Pairwise (· < ·)) :
    (allLines pages).Pairwise SourceLine.Before := by
  induction pages with
  | nil => exact List.Pairwise.nil
  | cons p ps ih =>
    obtain ⟨hp, hps⟩ := List.pairwise_cons.1 h
    rw [allLines, List.flatMap_cons]
    refine List.pairwise_append.2 ⟨sourceLines_pairwise p, ih hps, fun a ha b hb => ?_⟩
    obtain ⟨q, hq, hb⟩ := mem_allLines.1 hb
    refine .inl ?_
    rw [(sourceLines_of ha).page_eq, (sourceLines_of hb).page_eq]
    exact hp q.page (List.mem_map_of_mem hq)

/-- On one page the lines of the document are the page's own. -/
theorem filter_allLines {pages : List PageRecord} (h : (pages.map (·.page)).Pairwise (· < ·))
    {p : PageRecord} (hp : p ∈ pages) :
    (allLines pages).filter (·.page = p.page) = sourceLines p := by
  induction pages with
  | nil => simp at hp
  | cons q qs ih =>
    obtain ⟨hq, hqs⟩ := List.pairwise_cons.1 h
    rw [allLines, List.flatMap_cons, List.filter_append]
    rcases List.mem_cons.1 hp with rfl | hp
    · have h1 : (sourceLines p).filter (·.page = p.page) = sourceLines p :=
        List.filter_eq_self.2 fun l hl => by simp [(sourceLines_of hl).page_eq]
      have h2 : (qs.flatMap sourceLines).filter (·.page = p.page) = [] := by
        refine List.filter_eq_nil_iff.2 fun l hl => ?_
        obtain ⟨r, hr, hl⟩ := mem_allLines.1 hl
        have : p.page < r.page := hq r.page (List.mem_map_of_mem hr)
        simp only [(sourceLines_of hl).page_eq, decide_eq_true_eq]
        omega
      rw [h1, h2, List.append_nil]
    · have h1 : (sourceLines q).filter (·.page = p.page) = [] := by
        refine List.filter_eq_nil_iff.2 fun l hl => ?_
        have : q.page < p.page := hq p.page (List.mem_map_of_mem hp)
        simp only [(sourceLines_of hl).page_eq, decide_eq_true_eq]
        omega
      rw [h1, List.nil_append]
      exact ih hqs hp

/-- A line whose visible text is blank holds white space only. -/
theorem SourceLine.all_isSpace {l : SourceLine} (h : PyStr.strip l.visible = []) :
    ∀ c ∈ l.text, PyStr.isSpace c = true := by
  have hv := PyStr.all_isSpace_of_strip_eq_nil h
  intro c hc
  by_cases hcv : c ∈ l.visible
  · exact hv c hcv
  · -- what `rstrip` dropped is a carriage return or a line feed
    have hsplit : l.text = l.visible ++ l.text.rtakeWhile fun c => c == '\r' || c == '\n' :=
      (List.rdropWhile_append_rtakeWhile ..).symm
    rw [hsplit, List.mem_append] at hc
    have := List.mem_rtakeWhile_imp (hc.resolve_left hcv)
    simp only [Bool.or_eq_true, beq_iff_eq] at this
    rcases this with rfl | rfl <;> decide

/-- A line with a visible character is not blank. -/
theorem SourceLine.exists_visible {l : SourceLine} (h : PyStr.strip l.visible ≠ []) :
    ∃ c ∈ l.text, PyStr.isSpace c = false := by
  by_contra hnone
  refine h (PyStr.strip_eq_nil fun c hc => ?_)
  have hmem : c ∈ l.text := (List.rdropWhile_prefix ..).subset hc
  by_contra hcs
  exact hnone ⟨c, hmem, by simpa using hcs⟩

end CardRag
