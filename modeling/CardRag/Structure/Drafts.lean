import CardRag.Structure.Fallback
import CardRag.Structure.Lines

/-! # Well-formed drafts

`DraftsOk H isBoiler seen done ds`: the drafts form a tree whose parents come first, each kind of
node hangs where the parser may put it, the spans of a draft are lines among `seen` in source order,
and the leaves are the lines of `done`, one each. `seen` runs ahead of `done` while a line is being
processed: a heading is quoted by its section before its own leaf is there. -/

namespace CardRag

/-- The spans of consecutive lines of a node. -/
def lineSpans (H : Sha256) (ls : List SourceLine) (isCanonical : Bool) : List NodeSpan :=
  ls.zipIdx.map fun (l, i) => (l.span H).withOrdinal i (some isCanonical)

section
variable {H : Sha256} {ls : List SourceLine} {b : Bool}

@[simp] theorem length_lineSpans : (lineSpans H ls b).length = ls.length := by simp [lineSpans]

theorem lineSpans_append (l : SourceLine) :
    lineSpans H (ls ++ [l]) b = lineSpans H ls b ++ [(l.span H).withOrdinal ls.length (some b)] := by
  simp [lineSpans, List.zipIdx_append]

theorem lineSpans_singleton (l : SourceLine) : lineSpans H [l] true = [l.span H] := rfl

theorem lineSpans_ordinals : (lineSpans H ls b).map (·.spanOrdinal) = List.range (lineSpans H ls b).length := by
  rw [length_lineSpans, lineSpans, List.map_map, List.range_eq_range', ← List.zipIdx_map_snd]
  rfl

theorem lineSpans_pairwise (h : ls.Pairwise SourceLine.Before) (hl : ∀ l ∈ ls, l.sourceStart < l.sourceEnd) :
    (lineSpans H ls b).Pairwise (fun s t => s.position ≤ t.position) := by
  have hz : ls.zipIdx.Pairwise (fun x y => x.1.Before y.1) := by
    rw [← List.pairwise_map (f := Prod.fst), List.zipIdx_map_fst]
    exact h
  rw [lineSpans, List.pairwise_map]
  refine hz.imp_of_mem fun {x y} hx hy hb => ?_
  have hxl := hl x.1 (by rw [← List.zipIdx_map_fst 0 ls]; exact List.mem_map_of_mem hx)
  show toLex (x.1.page, toLex (x.1.sourceStart, x.1.sourceEnd)) ≤
    toLex (y.1.page, toLex (y.1.sourceStart, y.1.sourceEnd))
  rw [Prod.Lex.toLex_le_toLex, Prod.Lex.toLex_le_toLex]
  rcases hb with hb | ⟨hp, hb⟩
  · exact .inl hb
  · exact .inr ⟨hp, .inl (by show x.1.sourceStart < y.1.sourceStart; omega)⟩

theorem mem_lineSpans {s : NodeSpan} (h : s ∈ lineSpans H ls b) :
    ∃ l ∈ ls, ∃ i, s = (l.span H).withOrdinal i (some b) := by
  obtain ⟨⟨l, i⟩, hli, rfl⟩ := List.mem_map.1 h
  exact ⟨l, (List.mem_zipIdx' hli).2 ▸ List.getElem_mem _, i, rfl⟩

end

/-- Where a draft may hang: the kinds of parent the parser gives to each kind of node. A paragraph
under a section is the section's own heading line; only blank lines are unclassified outside an
item. -/
def NodeDraft.Under (H : Sha256) (ls : List SourceLine) (d parent : NodeDraft) : Prop :=
  match d.nodeType with
  | .root => False
  | .majorSection | .boilerplate => parent.nodeType = .root
  | .item => parent.nodeType = .root ∨ parent.nodeType = .majorSection
  | .table | .listItem | .footnote => parent.nodeType = .item
  | .tableRow => parent.nodeType = .table
  | .paragraph => parent.nodeType = .item ∨
      parent.nodeType = .majorSection ∧ parent.rawHeading ≠ none ∧ parent.spans = lineSpans H ls false
  | .unclassified => parent.nodeType = .item ∨
      (parent.nodeType = .root ∨ parent.nodeType = .majorSection) ∧ ∀ l ∈ ls, PyStr.strip l.visible = []

theorem NodeDraft.Under.ne_root {H : Sha256} {ls : List SourceLine} {d parent : NodeDraft}
    (h : d.Under H ls parent) : d.nodeType ≠ .root := by
  intro ht
  simp [NodeDraft.Under, ht] at h

/-- Only rows hang under tables. -/
theorem NodeDraft.Under.row {H : Sha256} {ls : List SourceLine} {d parent : NodeDraft}
    (h : d.Under H ls parent) (ht : parent.nodeType = .table) : d.nodeType = .tableRow := by
  unfold NodeDraft.Under at h
  cases hd : d.nodeType <;> simp_all

/-- The table metadata of a draft, apart from the headers a row shares with its table. -/
def NodeDraft.MetaOk (d : NodeDraft) : Prop :=
  match d.nodeType with
  | .tableRow => d.tableRole ≠ none ∧ d.tableCells ≠ []
  | .table => d.tableCells = [] ∧ d.tableRole = none
  | _ => d.tableHeaders = [] ∧ d.tableCells = [] ∧ d.tableRole = none

/-- A draft other than the root. -/
structure DraftOk (H : Sha256) (seen : List SourceLine) (ds : List NodeDraft) (i : Nat)
    (d : NodeDraft) : Prop where
  place : ∃ p parent ls, p < i ∧ d.parentIndex = some p ∧ ds[p]? = some parent ∧
    ls.Sublist seen ∧ d.spans = lineSpans H ls d.nodeType.isLeaf ∧
    (d.nodeType.isLeaf = true → ls.length = 1) ∧ d.Under H ls parent
  table : d.MetaOk

/-- The leaf of a line. -/
def LeafOf (H : Sha256) (isBoiler : SourceLine → Bool) (d : NodeDraft) (l : SourceLine) : Prop :=
  d.spans = [l.span H] ∧ (d.nodeType = .boilerplate ↔ isBoiler l = true)

structure DraftsOk (H : Sha256) (isBoiler : SourceLine → Bool) (seen done : List SourceLine)
    (ds : List NodeDraft) : Prop where
  root : ds[0]? = some rootDraft
  node : ∀ i d, ds[i]? = some d → 0 < i → DraftOk H seen ds i d
  leaves : List.Forall₂ (LeafOf H isBoiler) (ds.filter (·.nodeType.isLeaf)) done

/-- The draft at an index has a type. -/
def HasType (ds : List NodeDraft) (i : Nat) (t : NodeType) : Prop := ∃ d, ds[i]? = some d ∧ d.nodeType = t

theorem HasType.lt {ds : List NodeDraft} {i : Nat} {t : NodeType} (h : HasType ds i t) : i < ds.length := by
  obtain ⟨d, hd, -⟩ := h
  exact (List.getElem?_eq_some_iff.1 hd).1

/-- The drafts after some steps: indices keep their types. -/
structure Extends (ds ds' : List NodeDraft) : Prop where
  length : ds.length ≤ ds'.length
  type : ∀ i t, HasType ds i t → HasType ds' i t

theorem Extends.append (ds : List NodeDraft) (d : NodeDraft) : Extends ds (ds ++ [d]) where
  length := by simp
  type i t := fun ⟨e, he, ht⟩ => ⟨e, by rw [List.getElem?_append_left (List.getElem?_eq_some_iff.1 he).1, he], ht⟩

theorem Extends.modify (ds : List NodeDraft) (t : Nat) {f : NodeDraft → NodeDraft}
    (hf : ∀ d, (f d).nodeType = d.nodeType) : Extends ds (ds.modify t f) where
  length := by simp
  type i u := by
    rintro ⟨d, hd, hu⟩
    refine ⟨if t = i then f d else d, ?_, ?_⟩
    · simp only [List.getElem?_modify, hd]
      split <;> rfl
    · split
      · rw [hf, hu]
      · exact hu

section
variable {H : Sha256} {isBoiler : SourceLine → Bool} {seen done : List SourceLine} {ds : List NodeDraft}
  {i : Nat} {d e : NodeDraft}

theorem DraftOk.append (h : DraftOk H seen ds i d) : DraftOk H seen (ds ++ [e]) i d := by
  obtain ⟨⟨p, parent, ls, hp, hpi, hget, hrest⟩, hm⟩ := h
  refine ⟨⟨p, parent, ls, hp, hpi, ?_, hrest⟩, hm⟩
  rw [List.getElem?_append_left (List.getElem?_eq_some_iff.1 hget).1, hget]

theorem DraftOk.see (h : DraftOk H seen ds i d) (l : SourceLine) : DraftOk H (seen ++ [l]) ds i d := by
  obtain ⟨⟨p, parent, ls, hp, hpi, hget, hls, hrest⟩, hm⟩ := h
  exact ⟨⟨p, parent, ls, hp, hpi, hget, hls.trans (List.sublist_append_left _ _), hrest⟩, hm⟩

/-- A change to a table leaves the leaves alone. -/
theorem filter_modify_table {t : Nat} {table : NodeDraft} {f : NodeDraft → NodeDraft}
    (ht : ds[t]? = some table) (htype : table.nodeType = .table) (hf : (f table).nodeType = table.nodeType) :
    (ds.modify t f).filter (·.nodeType.isLeaf) = ds.filter (·.nodeType.isLeaf) := by
  have hleaf : table.nodeType.isLeaf = false := by rw [htype]; rfl
  induction ds generalizing t with
  | nil => simp
  | cons x xs ih =>
    cases t with
    | zero =>
      obtain rfl : x = table := by simpa using ht
      simp [hleaf, hf]
    | succ t =>
      have := ih (by simpa using ht)
      simp [List.filter_cons, this]

namespace DraftsOk

theorem init (H : Sha256) (isBoiler : SourceLine → Bool) : DraftsOk H isBoiler [] [] [rootDraft] where
  root := rfl
  node i d hd hi := by
    have : i < 1 := (List.getElem?_eq_some_iff.1 hd).1
    omega
  leaves := List.Forall₂.nil

theorem length_pos (h : DraftsOk H isBoiler seen done ds) : 0 < ds.length :=
  (List.getElem?_eq_some_iff.1 h.root).1

theorem parent_lt (h : DraftsOk H isBoiler seen done ds) (hd : ds[i]? = some d) :
    ∀ p ∈ d.parentIndex, p < i := by
  rcases Nat.eq_zero_or_pos i with rfl | hi
  · rw [h.root] at hd
    cases hd
    simp [rootDraft]
  · obtain ⟨p, _, _, hlt, hp, -⟩ := (h.node i d hd hi).place
    rintro q hq
    rw [hp] at hq
    cases hq
    exact hlt

theorem see (h : DraftsOk H isBoiler seen done ds) (l : SourceLine) :
    DraftsOk H isBoiler (seen ++ [l]) done ds :=
  ⟨h.root, fun i d hd hi => (h.node i d hd hi).see l, h.leaves⟩

theorem node_append (h : DraftsOk H isBoiler seen done ds) (hd : DraftOk H seen ds ds.length d) :
    ∀ i e, (ds ++ [d])[i]? = some e → 0 < i → DraftOk H seen (ds ++ [d]) i e := by
  intro i e he hi
  rcases Nat.lt_trichotomy i ds.length with hlt | heq | hgt
  · rw [List.getElem?_append_left hlt] at he
    exact (h.node i e he hi).append
  · subst heq
    simp only [List.getElem?_append_right (Nat.le_refl _), Nat.sub_self, List.getElem?_cons_zero,
      Option.some.injEq] at he
    exact he ▸ hd.append
  · simp [List.getElem?_append_right (Nat.le_of_lt hgt), Nat.sub_ne_zero_of_lt hgt] at he

theorem root_append (h : DraftsOk H isBoiler seen done ds) : (ds ++ [d])[0]? = some rootDraft := by
  rw [List.getElem?_append_left h.length_pos, h.root]

theorem append_container (h : DraftsOk H isBoiler seen done ds) (hd : DraftOk H seen ds ds.length d)
    (ht : d.nodeType.isLeaf = false) : DraftsOk H isBoiler seen done (ds ++ [d]) :=
  ⟨h.root_append, h.node_append hd, by simpa [List.filter_append, ht] using h.leaves⟩

theorem append_leaf (h : DraftsOk H isBoiler seen done ds) (hd : DraftOk H seen ds ds.length d)
    (ht : d.nodeType.isLeaf = true) {l : SourceLine} (hl : LeafOf H isBoiler d l) :
    DraftsOk H isBoiler seen (done ++ [l]) (ds ++ [d]) :=
  ⟨h.root_append, h.node_append hd, by
    rw [List.filter_append, List.filter_cons_of_pos (by simpa using ht), List.filter_nil]
    exact List.rel_append h.leaves (.cons hl .nil)⟩

/-- A line added to the spans of a table. -/
theorem extend_table {t : Nat} (h : DraftsOk H isBoiler done done ds) (ht : HasType ds t .table)
    (l : SourceLine) (headers : List Str) :
    DraftsOk H isBoiler (done ++ [l]) done (ds.modify t fun d =>
      { d with
        spans := d.spans ++ [(l.span H).withOrdinal d.spans.length (some false)]
        tableHeaders := headers }) := by
  obtain ⟨table, htable, htype⟩ := ht
  have ht0 : t ≠ 0 := by
    rintro rfl
    rw [h.root] at htable
    cases htable
    cases htype
  -- the parent of a draft keeps its type, and a table is nobody's section
  have hparent : ∀ (p : Nat) (parent : NodeDraft), ds[p]? = some parent → ∃ parent', (ds.modify t fun d =>
      { d with
        spans := d.spans ++ [(l.span H).withOrdinal d.spans.length (some false)]
        tableHeaders := headers })[p]? = some parent' ∧
      ∀ ls d, NodeDraft.Under H ls d parent → NodeDraft.Under H ls d parent' := by
    intro p parent hp
    simp only [List.getElem?_modify, hp]
    by_cases hpt : t = p
    · subst hpt
      obtain rfl : table = parent := Option.some.inj (htable.symm.trans hp)
      refine ⟨_, by simp; rfl, fun ls d hu => ?_⟩
      unfold NodeDraft.Under at hu ⊢
      cases hd : d.nodeType <;> simp_all
    · exact ⟨parent, by simp [hpt], fun _ _ hu => hu⟩
  refine ⟨?_, fun i d hd hi => ?_, ?_⟩
  · simp [ht0, h.root]
  · simp only [List.getElem?_modify] at hd
    by_cases hit : t = i
    · subst hit
      simp only [htable, if_true, Option.map_eq_map, Option.map_some, Option.some.injEq] at hd
      obtain ⟨⟨p, parent, ls, hlt, hpi, hget, hls, hspans, -, hu⟩, hm⟩ := h.node t table htable hi
      obtain ⟨parent', hget', hu'⟩ := hparent p parent hget
      have hleaf : table.nodeType.isLeaf = false := by rw [htype]; rfl
      subst hd
      refine ⟨⟨p, parent', ls ++ [l], hlt, hpi, hget', hls.append (List.Sublist.refl _), ?_, ?_, ?_⟩, ?_⟩
      · simp only [hspans, hleaf, lineSpans_append, length_lineSpans]
      · simp [hleaf]
      · have := hu' ls table hu
        unfold NodeDraft.Under at this ⊢
        simpa only [htype] using this
      · unfold NodeDraft.MetaOk at hm ⊢
        simpa only [htype] using hm
    · have hd : ds[i]? = some d := by simpa [hit] using hd
      obtain ⟨⟨p, parent, ls, hlt, hpi, hget, hls, hspans, hone, hu⟩, hm⟩ := (h.node i d hd hi).see l
      obtain ⟨parent', hget', hu'⟩ := hparent p parent hget
      exact ⟨⟨p, parent', ls, hlt, hpi, hget', hls, hspans, hone, hu' ls d hu⟩, hm⟩
  · rw [filter_modify_table htable htype rfl]
    exact h.leaves

end DraftsOk

end

end CardRag
