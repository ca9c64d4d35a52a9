import CardRag.Structure.Parsed
import CardRag.Structure.ViewPlan

/-! # Every line can be found

Outside the boilerplate a leaf hangs under an item, repeats the heading of its section or is blank
(`Placed`). Items and headings are quoted by views, so the text of such leaves lies in a view. -/

namespace CardRag

namespace StructureArtifact

/-- The artifact around the nodes of well-formed drafts. -/
structure OfDrafts (H : Sha256) (a : StructureArtifact) (inp : StructureInput) (revisionId : Str)
    (isBoiler : SourceLine → Bool) (ds : List NodeDraft) : Prop where
  pages : a.pages = inp.structurePages H
  nodes : a.nodes = buildNodes H (inp.structurePages H) revisionId ds
  check : inp.check = .ok ()
  drafts : DraftsOk H isBoiler (allLines inp.pages) (allLines inp.pages) ds

section
variable {H : Sha256} {U : Unicode} {a : StructureArtifact} {inp : StructureInput}

theorem ofDrafts_of_parse (h : parseStructureArtifact H U inp = .ok a) :
    ∃ profile revisionId st, inp.selectProfile = .ok profile ∧ parseDrafts H U inp profile = .ok st ∧
      OfDrafts H a inp revisionId
        (isBoilerplateLine (repeatedEdgeLines U (inp.pages.map sourceLines) profile)) st.drafts := by
  obtain ⟨hparsed, -⟩ := parseStructureArtifact_eq_ok.1 h
  obtain ⟨profile, lineageId, revisionId, st, hc, hp, -, -, hst, rfl⟩ := parsedArtifact_eq hparsed
  exact ⟨profile, revisionId, st, hp, hst, rfl, rfl, hc, (parseDrafts_inv hst).drafts⟩

theorem ofDrafts_of_fallback (h : buildUnclassifiedFallbackArtifact H inp = .ok a) :
    ∃ revisionId ds, OfDrafts H a inp revisionId (fun _ => false) ds := by
  obtain ⟨profile, lineageId, revisionId, links, hc, -, -, -, rfl⟩ := fallbackArtifact_eq h
  exact ⟨revisionId, _, rfl, rfl, hc, Fallback.draftsOk H (allLines inp.pages)⟩

end

/-- Where the text of a leaf is quoted: by the views of an item, by a title, or nowhere if it is blank. -/
inductive Placed (a : StructureArtifact) (leaf : StructureNode) : Prop
  | item (item : StructureNode) (hi : item.nodeType = .item) (hp : Relation.TransGen a.IsParent item leaf)
  | heading (sec : StructureNode) (hs : sec ∈ a.nodes) (ht : sec.nodeType = .majorSection)
      (hh : sec.rawHeading ≠ none) (hk : ∀ s ∈ leaf.spans, ∃ t ∈ sec.spans, t.sourceKey = s.sourceKey)
  | blank (hb : ∀ s ∈ leaf.spans, ∀ c ∈ spanText a.pages s, PyStr.isSpace c = true)

section
variable {H : Sha256} {a : StructureArtifact} {inp : StructureInput} {revisionId : Str}
  {isBoiler : SourceLine → Bool} {ds : List NodeDraft} {leaf : StructureNode}

theorem spanText_line (hd : OfDrafts H a inp revisionId isBoiler ds) {l : SourceLine}
    (hl : l ∈ allLines inp.pages) (i : Nat) (b : Bool) :
    spanText a.pages ((l.span H).withOrdinal i (some b)) = l.text := by
  obtain ⟨p, hp, hl⟩ := mem_allLines.1 hl
  have ho := sourceLines_of hl
  have hpage : pageByNumber a.pages l.page = some ⟨p.page, p.text, p.textSha256 H⟩ := by
    rw [hd.pages, ho.page_eq]
    exact pageByNumber_structurePages (Build.increasing_of_check hd.check).1 hp
  unfold spanText
  rw [show pageByNumber a.pages ((l.span H).withOrdinal i (some b)).page = _ from hpage]
  exact ho.slice_eq

/-- The node, its draft and its parent, for nodes other than the root. -/
theorem OfDrafts.parent (hd : OfDrafts H a inp revisionId isBoiler ds) (h : a.WellFormed H)
    (hn : leaf ∈ a.nodes) (ht : leaf.nodeType ≠ .root) :
    ∃ (d pd : NodeDraft) (parent : StructureNode) (ls : List SourceLine), a.IsParent parent leaf ∧ leaf.nodeType = d.nodeType ∧ parent.nodeType = pd.nodeType ∧
      parent.rawHeading = pd.rawHeading ∧ parent.spans = pd.spans ∧ ls.Sublist (allLines inp.pages) ∧
      leaf.spans = lineSpans H ls d.nodeType.isLeaf ∧ d.Under H ls pd := by
  obtain ⟨i, hi⟩ := List.getElem?_of_mem hn
  have hids := h.ids
  rw [hd.nodes] at hi hids
  obtain ⟨d, hget, ho⟩ := Build.exists_draft hd.drafts hi
  have hpos : 0 < i := by
    rcases Nat.eq_zero_or_pos i with rfl | hpos
    · rw [hd.drafts.root] at hget
      cases hget
      exact absurd ho.type ht
    · exact hpos
  obtain ⟨p, pd, pn, -, -, -, hpn, hpo, hid, -, ls, hls, hspans, hu⟩ :=
    Build.parent_eq hd.drafts hids hpos hget ho
  have hmem : pn ∈ a.nodes := hd.nodes ▸ List.mem_of_getElem? hpn
  exact ⟨d, pd, pn, ls, ⟨hmem, hn, ht, hid⟩, ho.type, hpo.type, hpo.heading, hpo.spans, hls,
    ho.spans.trans hspans, hu⟩

/-- A node of a type that only hangs under items. -/
theorem OfDrafts.under_item (hd : OfDrafts H a inp revisionId isBoiler ds) (h : a.WellFormed H)
    {node : StructureNode} (hn : node ∈ a.nodes)
    (ht : node.nodeType = .table ∨ node.nodeType = .listItem ∨ node.nodeType = .footnote) :
    ∃ item, item.nodeType = .item ∧ a.IsParent item node := by
  have hroot : node.nodeType ≠ .root := by rcases ht with ht | ht | ht <;> simp [ht]
  obtain ⟨d, pd, parent, ls, hp, htype, hptype, -, -, -, -, hu⟩ := hd.parent h hn hroot
  refine ⟨parent, ?_, hp⟩
  unfold NodeDraft.Under at hu
  rw [hptype]
  rw [htype] at ht
  rcases ht with ht | ht | ht <;> simpa [ht] using hu

/-- Every line has its leaf. -/
theorem OfDrafts.leaf_of_line (hd : OfDrafts H a inp revisionId isBoiler ds) {l : SourceLine}
    (hl : l ∈ allLines inp.pages) : ∃ leaf ∈ a.nodes, leaf.nodeType.isLeaf = true ∧ leaf.spans = [l.span H] ∧
      (leaf.nodeType = .boilerplate ↔ isBoiler l = true) := by
  obtain ⟨i, hi⟩ := List.getElem?_of_mem hl
  have hlt := (List.getElem?_eq_some_iff.1 hi).1
  have hlen := hd.drafts.leaves.length_eq
  have hleaf := hd.drafts.leaves.get (i := i) (by omega) hlt
  simp only [List.get_eq_getElem, (List.getElem?_eq_some_iff.1 hi).2] at hleaf
  obtain ⟨hmem, htype⟩ := List.mem_filter.1
    (List.getElem_mem (l := ds.filter (·.nodeType.isLeaf)) (n := i) (by omega))
  obtain ⟨j, hj⟩ := List.getElem?_of_mem hmem
  obtain ⟨n, hn, ho⟩ := exists_nodeOf H (inp.structurePages H) revisionId hj (hd.drafts.parent_lt hj)
  refine ⟨n, hd.nodes ▸ List.mem_of_getElem? hn, by rw [ho.type]; exact htype, ho.spans.trans hleaf.1, ?_⟩
  rw [ho.type]
  exact hleaf.2

theorem OfDrafts.placed (hd : OfDrafts H a inp revisionId isBoiler ds) (h : a.WellFormed H)
    (hn : leaf ∈ a.nodes) (hleaf : leaf.nodeType.isLeaf = true) (hb : leaf.nodeType ≠ .boilerplate) :
    a.Placed leaf := by
  have hroot : leaf.nodeType ≠ .root := fun ht => by simp [ht, NodeType.isLeaf] at hleaf
  obtain ⟨d, pd, parent, ls, hp, htype, hptype, hheading, hpspans, hls, hspans, hu⟩ := hd.parent h hn hroot
  have under : pd.nodeType = .item → a.Placed leaf := fun hi => .item parent (hptype.trans hi) (.single hp)
  unfold NodeDraft.Under at hu
  cases ht : leaf.nodeType with
  | root | majorSection | item | table => simp [ht, NodeType.isLeaf] at hleaf
  | boilerplate => exact absurd ht hb
  | listItem | footnote =>
    rw [ht] at htype
    rw [← htype] at hu
    exact under hu
  | paragraph =>
    rw [ht] at htype
    rw [← htype] at hu
    rcases hu with hu | ⟨hsec, hhead, hsp⟩
    · exact under hu
    · -- the section quotes the same lines, with its own ordinals and flags
      refine .heading parent hp.1 (hptype.trans hsec) (hheading ▸ hhead) fun s hs => ?_
      rw [hspans] at hs
      obtain ⟨l, hl, i, rfl⟩ := mem_lineSpans hs
      obtain ⟨j, hj⟩ := List.getElem?_of_mem hl
      refine ⟨(l.span H).withOrdinal j (some false), ?_, rfl⟩
      rw [hpspans, hsp]
      exact List.mem_map.2 ⟨(l, j), List.mk_mem_zipIdx_iff_getElem?.2 hj, rfl⟩
  | unclassified =>
    rw [ht] at htype
    rw [← htype] at hu
    rcases hu with hu | ⟨-, hblank⟩
    · exact under hu
    · refine .blank fun s hs c hc => ?_
      rw [hspans] at hs
      obtain ⟨l, hl, i, rfl⟩ := mem_lineSpans hs
      rw [spanText_line hd (hls.subset hl)] at hc
      exact SourceLine.all_isSpace (hblank l hl) c hc
  | tableRow =>
    rw [ht] at htype
    rw [← htype] at hu
    obtain ⟨item, hitem, hip⟩ := hd.under_item h hp.1 (.inl (hptype.trans hu))
    exact .item item hitem (.tail (.single hip) hp)

end

/-! ### Quoting the leaves -/

/-- The view types that answer a search for a passage; sections and contracts are summaries of them. -/
def passageTypes : List ViewType := [.title, .rawItem, .contextualItem, .detail]

section
variable {H : Sha256} {U : Unicode} {a : StructureArtifact} {lim : ViewLimits} {views : List DerivedView}
  {leaf item : StructureNode} {s : NodeSpan}

/-- A span of a leaf below an item is in the plan of the item. -/
theorem itemPlan_covers (h : a.WellFormed H) (hcol : a.collectViews H lim = .ok views)
    (hitem : item ∈ a.nodes) (ht : item.nodeType = .item) (hl : leaf ∈ a.leafNodes item) (hs : s ∈ leaf.spans) :
    ∃ p ∈ a.itemPlan lim item, p.viewType ∈ passageTypes ∧ ∃ t ∈ p.spans, t.sourceKey = s.sourceKey := by
  obtain ⟨t, ht', hk⟩ := exists_orderedUniqueSpans (List.mem_flatMap.2 ⟨leaf, hl, hs⟩)
  have hraw : a.rawSpans item ≠ [] := List.ne_nil_of_mem ht'
  unfold itemPlan
  rw [if_neg hraw]
  cases hr : a.rawFits lim item with
  | true =>
    refine ⟨⟨item, .rawItem, a.rawSpans item⟩, ?_, by simp [passageTypes], t, ht', hk⟩
    simp
  | false =>
    have hfit : (a.rawFits lim item && a.contextualFits lim item) = false := by rw [hr]; rfl
    simp only [collectViews, Guard.bind_eq_ok] at hcol
    obtain ⟨_, -, _, hitems, -⟩ := hcol
    obtain ⟨_, _, hv⟩ := Guard.foldlM_mem hitems
      (show item ∈ a.itemNodes from List.mem_filter.2 ⟨hitem, by simpa using ht⟩)
    obtain ⟨groups, hg⟩ := partitionSpans_of_itemViews hraw hfit hv
    obtain ⟨hcover, -, -⟩ := partitionSpans_spec h.units_ne_nil hg
    obtain ⟨g, hgm, u, hu, hku⟩ := hcover s
      (List.mem_flatten.2 ⟨leaf.spans, List.mem_map_of_mem hl, hs⟩)
    have hgroups : a.detailGroups lim item = groups := by
      rw [detailGroups, hfit, if_neg Bool.false_ne_true, hg]
    refine ⟨⟨item, .detail, g⟩, ?_, by simp [passageTypes], u, hu, hku⟩
    rw [hgroups]
    exact List.mem_append_right _ (List.mem_map_of_mem hgm)

/-- A heading quotes itself. -/
theorem titlePlan_covers (hn : item ∈ a.nodes) (hh : item.rawHeading ≠ none) (hs : s ∈ item.spans) :
    ∃ p ∈ a.titlePlan item, p.viewType ∈ passageTypes ∧ ∃ t ∈ p.spans, t.sourceKey = s.sourceKey := by
  have hself : item ∈ a.ancestorHeadings item := by
    rw [ancestorHeadings, List.mem_reverse, List.mem_filter]
    refine ⟨?_, by simpa [Option.isSome_iff_ne_none] using hh⟩
    obtain ⟨k, hk⟩ := Nat.exists_eq_succ_of_ne_zero (List.length_pos_of_mem hn).ne'
    rw [hk]
    exact List.mem_cons_self
  obtain ⟨t, ht, hk⟩ := exists_orderedUniqueSpans (List.mem_flatMap.2 ⟨item, hself, hs⟩)
  refine ⟨⟨item, .title, a.headingSpans item⟩, ?_, by simp [passageTypes], t, ht, hk⟩
  have hne : a.headingSpans item ≠ [] := List.ne_nil_of_mem ht
  unfold titlePlan
  rw [if_neg hne]
  exact List.mem_singleton_self _

/-- What is planned is quoted by a view. -/
theorem view_of_plan (hb : List.Forall₂ a.Built (a.viewPlan lim) views)
    (hp : ∃ p ∈ a.viewPlan lim, p.viewType ∈ passageTypes ∧ ∃ t ∈ p.spans, t.sourceKey = s.sourceKey) :
    ∃ v ∈ views, v.viewType ∈ passageTypes ∧ ∃ t ∈ v.spans, t.sourceKey = s.sourceKey := by
  obtain ⟨p, hp, htype, t, ht, hk⟩ := hp
  obtain ⟨i, hi, rfl⟩ := List.getElem_of_mem hp
  have hlen := hb.length_eq
  have hv := hb.get (i := i) hi (by omega)
  simp only [List.get_eq_getElem] at hv
  obtain ⟨u, hu, hku⟩ := exists_orderedUniqueSpans ht
  exact ⟨views[i], List.getElem_mem _, hv.type ▸ htype, u, hv.spans ▸ hu, hku.trans hk⟩

/-- What a validated view keeps of its limits and its text. -/
theorem validateView_text {v : DerivedView} {i : Nat} (h : a.validateView H lim v i = .ok ()) :
    lim.within v.embeddingInput = .ok true ∧ v.displayText = a.textOf v.spans := by
  simp only [validateView, Guard.bind_eq_ok, raiseIf_eq_ok, Guard.exists_unit, not_not] at h
  obtain ⟨-, -, -, -, -, -, -, htext, -, -, fits, hf, htrue, -⟩ := h
  rw [Bool.not_eq_false] at htrue
  exact ⟨htrue ▸ hf, htext.symm⟩

theorem validateDerivedViews_text (h : a.validateDerivedViews H lim views = .ok ()) {v : DerivedView}
    (hv : v ∈ views) : lim.within v.embeddingInput = .ok true ∧ v.displayText = a.textOf v.spans := by
  simp only [validateDerivedViews, Guard.bind_eq_ok, raiseIf_eq_ok, Guard.exists_unit, Guard.forM_eq_ok] at h
  obtain ⟨_, -, -, h⟩ := h
  obtain ⟨i, hi⟩ := List.getElem?_of_mem hv
  exact validateView_text (h (v, i) (List.mk_mem_zipIdx_iff_getElem?.2 hi))

/-- Every span of a leaf with visible text is quoted by a passage view. -/
theorem quoted_of_placed (hv : a.buildDerivedViews H lim = .ok views) (hp : a.Placed leaf)
    (hleaf : leaf.nodeType.isLeaf = true) (hs : s ∈ leaf.spans)
    (hvisible : ∃ c ∈ spanText a.pages s, PyStr.isSpace c = false) :
    ∃ v ∈ views, v.viewType ∈ passageTypes ∧ ∃ t ∈ v.spans, t.sourceKey = s.sourceKey := by
  obtain ⟨h, hcol, -⟩ := buildDerivedViews_eq_ok hv
  refine view_of_plan (collectViews_built h hcol) ?_
  unfold viewPlan
  cases hp with
  | item item hi hp =>
    have hitem : item ∈ a.nodes := by
      obtain ⟨_, hc, -⟩ := Relation.TransGen.head'_iff.1 hp
      exact hc.1
    obtain ⟨p, hpm, hrest⟩ := itemPlan_covers h hcol hitem hi (h.mem_leafNodes_of_below hp hleaf) hs
    have hin : item ∈ a.itemNodes := List.mem_filter.2 ⟨hitem, by simpa using hi⟩
    exact ⟨p, by simp only [List.mem_append]; exact .inl (.inl (.inr (List.mem_flatMap.2 ⟨item, hin, hpm⟩))), hrest⟩
  | heading sec hsec ht hh hk =>
    obtain ⟨t, htm, hkt⟩ := hk s hs
    obtain ⟨p, hpm, htype, u, hu, hku⟩ := titlePlan_covers hsec hh htm
    have hin : sec ∈ a.titleNodes :=
      List.mem_filter.2 ⟨hsec, by simpa [ht, Option.isSome_iff_ne_none] using hh⟩
    exact ⟨p, by simp only [List.mem_append]; exact .inl (.inl (.inl (List.mem_flatMap.2 ⟨sec, hin, hpm⟩))),
      htype, u, hu, hku.trans hkt⟩
  | blank hb =>
    obtain ⟨c, hc, hcs⟩ := hvisible
    rw [hb s hs c hc] at hcs
    cases hcs

/-- A line with a visible character that is not boilerplate has a passage view. -/
theorem OfDrafts.exists_passage {inp : StructureInput} {revisionId : Str} {isBoiler : SourceLine → Bool}
    {ds : List NodeDraft} (hd : OfDrafts H a inp revisionId isBoiler ds)
    (hv : a.buildDerivedViews H lim = .ok views) {l : SourceLine} (hl : l ∈ allLines inp.pages)
    (hboiler : isBoiler l = false) (hvisible : ∃ c ∈ l.text, PyStr.isSpace c = false) :
    ∃ v ∈ views, v.viewType ∈ passageTypes := by
  obtain ⟨hwf, -, -⟩ := buildDerivedViews_eq_ok hv
  obtain ⟨leaf, hn, hleaf, hspans, hb⟩ := hd.leaf_of_line hl
  have hnb : leaf.nodeType ≠ .boilerplate := fun h => by simp [hb.1 h] at hboiler
  obtain ⟨c, hc, hcs⟩ := hvisible
  have htext : spanText a.pages (l.span H) = l.text := spanText_line hd hl 0 true
  obtain ⟨v, hvm, htype, -⟩ := quoted_of_placed hv (hd.placed hwf hn hleaf hnb) hleaf
    (s := l.span H) (by simp [hspans]) ⟨c, htext ▸ hc, hcs⟩
  exact ⟨v, hvm, htype⟩

end

end StructureArtifact

section
variable {H : Sha256} {U : Unicode} {a : StructureArtifact} {lim : ViewLimits} {views : List DerivedView}

theorem ViewLimits.within_eq_true {text : Str} (h : lim.within text = .ok true) :
    (text.length : Int) ≤ lim.maximumChars ∧ ∀ maximum ∈ lim.maximumTokens, ∃ counter count,
      lim.tokenCounter = some counter ∧ counter text = .ok count ∧ count ≤ maximum := by
  unfold within at h
  split at h
  · simp at h
  · rename_i hlen
    refine ⟨not_lt.1 hlen, fun maximum hm => ?_⟩
    rw [Option.mem_def] at hm
    rw [hm] at h
    dsimp only at h
    split at h
    · simp at h
    · rename_i counter hcounter
      simp only [Guard.bind_eq_ok, raiseIf_eq_ok, Guard.exists_unit, Guard.pure_eq_ok, decide_eq_true_eq] at h
      obtain ⟨count, hcount, -, hle⟩ := h
      exact ⟨counter, count, hcounter, hcount, hle⟩

/-- Nothing becomes unsearchable: what the parser or the fallback returns is quoted, outside the
boilerplate, down to the last visible character, by views that keep both limits and quote exactly. -/
theorem views_cover_leaves
    (h : (∃ inp, parseStructureArtifact H U inp = .ok a) ∨ ∃ inp, buildUnclassifiedFallbackArtifact H inp = .ok a)
    (hv : a.buildDerivedViews H lim = .ok views) :
    (∀ leaf ∈ a.leaves, leaf.nodeType ≠ .boilerplate → ∀ s ∈ leaf.spans, ∀ page ∈ a.pages, ∀ offset c,
      s.Holds page.page offset → page.text[offset]? = some c → PyStr.isSpace c = false →
      ∃ v ∈ views, (v.viewType = .title ∨ v.viewType = .rawItem ∨ v.viewType = .contextualItem ∨
        v.viewType = .detail) ∧ ∃ t ∈ v.spans, t.Holds page.page offset) ∧
    ∀ v ∈ views, (v.embeddingInput.length : Int) ≤ lim.maximumChars ∧
      (∀ maximum ∈ lim.maximumTokens, ∃ counter count, lim.tokenCounter = some counter ∧
        counter v.embeddingInput = .ok count ∧ count ≤ maximum) ∧
      v.displayText = v.spans.flatMap (spanText a.pages) := by
  obtain ⟨hwf, -, hval⟩ := StructureArtifact.buildDerivedViews_eq_ok hv
  have hdrafts : ∃ inp revisionId isBoiler ds, a.OfDrafts H inp revisionId isBoiler ds := by
    rcases h with ⟨inp, h⟩ | ⟨inp, h⟩
    · obtain ⟨_, revisionId, st, -, -, hd⟩ := StructureArtifact.ofDrafts_of_parse h
      exact ⟨inp, revisionId, _, st.drafts, hd⟩
    · obtain ⟨revisionId, ds, hd⟩ := StructureArtifact.ofDrafts_of_fallback h
      exact ⟨inp, revisionId, _, ds, hd⟩
  obtain ⟨inp, revisionId, isBoiler, ds, hd⟩ := hdrafts
  refine ⟨fun leaf hl hb s hs page hp offset c hholds hc hspace => ?_, fun v hvm => ?_⟩
  · obtain ⟨hn, hleaf⟩ := List.mem_filter.1 hl
    have hP := StructureArtifact.validatePages_ok_iff.1 hwf.pages
    -- the character is one of the span's own
    have hmem : c ∈ spanText a.pages s := by
      rw [spanText, hholds.1, hP.pageByNumber hp]
      exact PyStr.mem_slice hholds.2.1 hholds.2.2 hc
    obtain ⟨v, hvm, htype, t, ht, hk⟩ :=
      StructureArtifact.quoted_of_placed hv (hd.placed hwf hn hleaf hb) hleaf hs ⟨c, hmem, hspace⟩
    refine ⟨v, hvm, by simpa [StructureArtifact.passageTypes] using htype, t, ht, Holds_of_sourceKey hk.symm hholds⟩
  · obtain ⟨hfit, htext⟩ := StructureArtifact.validateDerivedViews_text hval hvm
    obtain ⟨hchars, htokens⟩ := ViewLimits.within_eq_true hfit
    exact ⟨hchars, htokens, htext⟩

end

theorem exists_views_two_pages : ∃ a views, buildUnclassifiedFallbackArtifact .standard twoPages = .ok a ∧
    a.buildDerivedViews .standard ⟨1000, none, none⟩ = .ok views ∧ views ≠ [] := by
  have heval : fallbackViews twoPages ⟨1000, none, none⟩ (fun _ views => decide (views ≠ [])) = true := by decide +kernel
  obtain ⟨a, views, ha, hv, hne⟩ := exists_views heval
  exact ⟨a, views, ha, hv, of_decide_eq_true hne⟩

theorem views_cover_leaves_two_pages : ∃ a views,
    buildUnclassifiedFallbackArtifact .standard twoPages = .ok a ∧
    a.buildDerivedViews .standard ⟨1000, none, none⟩ = .ok views ∧
    (∀ leaf ∈ a.leaves, leaf.nodeType ≠ .boilerplate → ∀ s ∈ leaf.spans, ∀ page ∈ a.pages, ∀ offset c,
      s.Holds page.page offset → page.text[offset]? = some c → PyStr.isSpace c = false →
      ∃ v ∈ views, (v.viewType = .title ∨ v.viewType = .rawItem ∨ v.viewType = .contextualItem ∨
        v.viewType = .detail) ∧ ∃ t ∈ v.spans, t.Holds page.page offset) ∧
    ∀ v ∈ views, (v.embeddingInput.length : Int) ≤ 1000 := by
  obtain ⟨a, views, ha, hv, -⟩ := exists_views_two_pages
  have hcover := views_cover_leaves (U := .ascii) (.inr ⟨_, ha⟩) hv
  exact ⟨a, views, ha, hv, hcover.1, fun v hvm => (hcover.2 v hvm).1⟩

end CardRag
