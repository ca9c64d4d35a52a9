import CardRag.Structure.Fallback
import CardRag.Structure.WellFormed

/-! # One leaf per line covers the pages

An artifact whose leaf spans are the source lines, in order, meets every coverage check of the
validator. Both builders make such artifacts. -/

namespace CardRag

theorem Bitmap.cells_append {κ : Type} (k : κ) {a b c : Nat} (hab : a ≤ b) (hbc : b ≤ c) :
    Bitmap.cells k a b ++ Bitmap.cells k b c = Bitmap.cells k a c := by
  have hb : b = a + (b - a) := by omega
  have hc : c - a = (b - a) + (c - b) := by omega
  rw [Bitmap.cells, Bitmap.cells, Bitmap.cells, ← List.map_append, hc, ← List.range'_append_1, ← hb]

theorem cells_linesFrom (page offset : Nat) (texts : List Str) :
    (linesFrom page offset texts).flatMap (fun l => Bitmap.cells l.page l.sourceStart l.sourceEnd) =
      Bitmap.cells page offset (offset + texts.flatten.length) := by
  induction texts generalizing offset with
  | nil => simp [linesFrom, Bitmap.cells]
  | cons t ts ih =>
    rw [linesFrom, List.flatMap_cons, ih, List.flatten_cons, List.length_append, ← Nat.add_assoc]
    exact Bitmap.cells_append _ (Nat.le_add_right _ _) (Nat.le_add_right _ _)

/-- The cells of a page's lines are the cells of the page. -/
theorem cells_sourceLines (H : Sha256) (p : PageRecord) :
    ((sourceLines p).map (SourceLine.span H)).flatMap StructureArtifact.spanCells =
      Bitmap.cells p.page 0 p.text.length := by
  rw [List.flatMap_map, sourceLines_eq]
  have := cells_linesFrom p.page 0 (PyStr.splitlines p.text)
  rwa [PyStr.splitlines_flatten, Nat.zero_add] at this

theorem countP_range_getD (f : Char → Bool) (text : Str) :
    (List.range text.length).countP (fun i => f (text.getD i ' ')) = text.countP f := by
  have htext : (List.range text.length).map (fun i => text.getD i ' ') = text := by
    refine List.ext_getElem (by simp) fun i h1 h2 => ?_
    simp [List.getElem?_eq_getElem h2]
  conv_rhs => rw [← htext, List.countP_map]
  rfl

namespace StructureArtifact

variable {H : Sha256} {a : StructureArtifact} {pages : List PageRecord}

theorem pageByNumber_structurePages (hn : (pages.map (·.page)).Pairwise (· < ·)) {p : PageRecord}
    (hp : p ∈ pages) :
    pageByNumber (pages.map fun p => ⟨p.page, p.text, p.textSha256 H⟩) p.page =
      some ⟨p.page, p.text, p.textSha256 H⟩ := by
  have hnd : ((pages.map fun p => (⟨p.page, p.text, p.textSha256 H⟩ : StructurePage)).map
      (·.page)).Nodup := by
    rw [List.map_map]
    exact hn.imp ne_of_lt
  exact PyList.get?_dictOf_of_mem hnd
    (List.mem_map_of_mem (f := fun p => (⟨p.page, p.text, p.textSha256 H⟩ : StructurePage)) hp)

section
variable (hn : (pages.map (·.page)).Pairwise (· < ·))
  (hpages : a.pages = pages.map fun p => ⟨p.page, p.text, p.textSha256 H⟩)
  (hspans : a.leafSpans = (allLines pages).map (SourceLine.span H))

include hspans in
theorem leafCells_eq : a.leafCells = pages.flatMap fun p => Bitmap.cells p.page 0 p.text.length := by
  rw [leafCells, hspans, allLines]
  simp only [← cells_sourceLines H, List.map_flatMap, List.flatMap_assoc]

include hn hspans in
theorem leafCells_nodup : a.leafCells.Nodup := by
  rw [leafCells_eq hspans, List.nodup_flatMap]
  refine ⟨fun p _ => Bitmap.nodup_cells _ _ _, (List.pairwise_map.1 hn).imp fun {p q} hlt c hp hq => ?_⟩
  have h1 := (Bitmap.mem_cells.1 hp).1
  have h2 := (Bitmap.mem_cells.1 hq).1
  omega

include hn hpages hspans in
theorem leafCells_count : a.leafCells.countP (isTextCell a.pages) = sourceNonWhitespace a.pages := by
  have hpage : ∀ p ∈ pages, (Bitmap.cells p.page 0 p.text.length).countP (isTextCell a.pages) =
      (nonWhitespace p.text).length := by
    intro p hp
    have hcell : ∀ i, isTextCell a.pages (p.page, i) = !PyStr.isSpace (p.text.getD i ' ') := by
      intro i
      rw [isTextCell, hpages, pageByNumber_structurePages hn hp]
      rfl
    rw [Bitmap.cells, List.countP_map, Nat.sub_zero, ← List.range_eq_range', nonWhitespace,
      ← List.countP_eq_length_filter, ← countP_range_getD]
    exact List.countP_congr fun i _ => by simp [hcell]
  rw [leafCells_eq hspans, List.countP_flatMap, sourceNonWhitespace]
  conv_rhs => rw [hpages, List.map_map]
  exact congrArg List.sum (List.map_congr_left hpage)

include hn hpages hspans in
theorem reconstructed_eq {page : StructurePage} (hp : page ∈ a.pages) : a.reconstructed page = page.text := by
  obtain ⟨p, hmem, rfl⟩ := List.mem_map.1 (hpages ▸ hp)
  have hfilter : a.leafSpans.filter (·.page = p.page) = (sourceLines p).map (SourceLine.span H) := by
    rw [hspans, List.filter_map, ← filter_allLines hn hmem]
    rfl
  have hsorted : ((sourceLines p).map (SourceLine.span H)).Pairwise
      (fun s t => s.sourceStart ≤ t.sourceStart) := by
    rw [List.pairwise_map]
    refine (sourceLines_pairwise p).imp_of_mem fun {l m} hl hm hb => ?_
    have h1 := sourceLines_of hl
    have h2 := (sourceLines_of hm).page_eq
    have h3 := h1.page_eq
    have h4 := h1.start_lt
    show l.sourceStart ≤ m.sourceStart
    rcases hb with hb | ⟨-, hb⟩ <;> omega
  rw [reconstructed, hfilter, PyList.sortedBy_eq_self hsorted, List.flatMap_map]
  calc (sourceLines p).flatMap (fun l => PyStr.slice p.text l.sourceStart l.sourceEnd)
      = (sourceLines p).flatMap (·.text) := List.flatMap_congr fun l hl => (sourceLines_of hl).slice_eq
    _ = p.text := sourceLines_text p

include hn hpages hspans in
theorem covered_of_lines (hne : ∀ leaf ∈ a.leaves, leaf.spans ≠ []) : a.Covered where
  spans_ne := hne
  nodup := leafCells_nodup hn hspans
  full page hp i hi := by
    obtain ⟨p, hmem, rfl⟩ := List.mem_map.1 (hpages ▸ hp)
    rw [leafCells_eq hspans]
    exact List.mem_flatMap.2 ⟨p, hmem, Bitmap.mem_cells.2 ⟨rfl, Nat.zero_le i, hi⟩⟩
  text _ hp := reconstructed_eq hn hpages hspans hp
  count := leafCells_count hn hpages hspans

end

end StructureArtifact

end CardRag
