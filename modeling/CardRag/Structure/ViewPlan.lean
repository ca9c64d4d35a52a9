import CardRag.Structure.ViewSpans

/-! # The plan of the views

`viewPlan` lists what `build_derived_views` sets out to build: a node, a view type and the spans to
quote. Views that are returned are the planned ones, one for one, so questions about the views become
questions about the plan. -/

namespace CardRag

/-- The answer of `_within_limits` when it returns. -/
def ViewLimits.fits (lim : ViewLimits) (text : Str) : Bool :=
  match lim.within text with
  | .ok b => b
  | .error _ => false

theorem ViewLimits.fits_eq {lim : ViewLimits} {text : Str} {b : Bool} (h : lim.within text = .ok b) :
    lim.fits text = b := by
  rw [fits, h]

theorem ViewLimits.fits_iff {lim : ViewLimits} {text : Str} :
    lim.fits text = true ↔ lim.within text = .ok true := by
  unfold fits
  split
  · rename_i b hb
    rw [hb, Except.ok.injEq]
  · rename_i e he
    rw [he]
    simp

namespace StructureArtifact

structure Planned where
  node : StructureNode
  viewType : ViewType
  spans : List NodeSpan

section
variable (a : StructureArtifact) (lim : ViewLimits)

def titlePlan (node : StructureNode) : List Planned :=
  if a.headingSpans node = [] then [] else [⟨node, .title, a.headingSpans node⟩]

def contextualSpans (item : StructureNode) : List NodeSpan :=
  orderedUniqueSpans (a.headingSpans item ++ a.rawSpans item)

/-- The leaves of an item, the units of its partition. -/
def units (item : StructureNode) : List (List NodeSpan) := (a.leafNodes item).map (·.spans)

def rawFits (item : StructureNode) : Bool := lim.fits (a.textOf (a.rawSpans item))

def contextualFits (item : StructureNode) : Bool :=
  lim.fits (embeddingInput .contextualItem (a.textOf (a.contextualSpans item)) (a.canonicalItemContext item))

def detailGroups (item : StructureNode) : List (List NodeSpan) :=
  if a.rawFits lim item && a.contextualFits lim item then []
  else match a.partitionSpans lim (a.units item) (a.canonicalItemContext item) with
    | .ok groups => groups
    | .error _ => []

def itemPlan (item : StructureNode) : List Planned :=
  if a.rawSpans item = [] then []
  else
    (if a.rawFits lim item then [⟨item, .rawItem, a.rawSpans item⟩] else []) ++
    (if a.contextualFits lim item then [⟨item, .contextualItem, a.contextualSpans item⟩] else []) ++
    (a.detailGroups lim item).map (⟨item, .detail, ·⟩)

def sectionPlan (node : StructureNode) : List Planned :=
  if a.rawSpans node ≠ [] ∧ lim.fits (a.textOf (a.rawSpans node)) = true then
    [⟨node, .majorSection, a.rawSpans node⟩]
  else []

def contractPlan : List Planned :=
  match a.nodes.find? (·.nodeType = .root) with
  | none => []
  | some root =>
    if a.leafSpans ≠ [] ∧ lim.fits (a.textOf (orderedUniqueSpans a.leafSpans)) = true then
      [⟨root, .contract, orderedUniqueSpans a.leafSpans⟩]
    else []

def viewPlan : List Planned :=
  a.titleNodes.flatMap a.titlePlan ++ a.itemNodes.flatMap (a.itemPlan lim) ++
    a.sectionNodes.flatMap (a.sectionPlan lim) ++ a.contractPlan lim

end

/-- A view built to plan. -/
structure Built (a : StructureArtifact) (p : Planned) (v : DerivedView) : Prop where
  node : v.nodeId = p.node.nodeId
  type : v.viewType = p.viewType
  spans : v.spans = orderedUniqueSpans p.spans
  revision : v.contractRevisionId = a.contractRevisionId

/-- A step that appends the views of a plan to those before it. -/
def Appends (a : StructureArtifact) (plan : List Planned) (views views' : List DerivedView) : Prop :=
  ∃ new, views' = views ++ new ∧ List.Forall₂ a.Built plan new

section
variable {H : Sha256} {a : StructureArtifact} {lim : ViewLimits} {views views' views'' : List DerivedView}
  {plan plan' : List Planned}

theorem Appends.refl (views : List DerivedView) : a.Appends [] views views := ⟨[], by simp, .nil⟩

theorem Appends.trans (h : a.Appends plan views views') (h' : a.Appends plan' views' views'') :
    a.Appends (plan ++ plan') views views'' := by
  obtain ⟨new, rfl, hb⟩ := h
  obtain ⟨new', rfl, hb'⟩ := h'
  exact ⟨new ++ new', by simp, List.rel_append hb hb'⟩

/-- A loop over elements that append their plans. -/
theorem Appends.foldlM {α : Type} {f : List DerivedView → α → Except Raised (List DerivedView)}
    {planOf : α → List Planned} {xs : List α}
    (step : ∀ x ∈ xs, ∀ vs vs', f vs x = .ok vs' → a.Appends (planOf x) vs vs')
    (h : xs.foldlM f views = .ok views') : a.Appends (xs.flatMap planOf) views views' := by
  obtain ⟨news, hnews, rfl⟩ := Guard.foldlM_append step h
  refine ⟨news.flatten, rfl, ?_⟩
  clear h step
  induction hnews with
  | nil => exact .nil
  | cons hx _ ih => exact List.rel_append hx ih

theorem appendView_appends {node : StructureNode} {viewType : ViewType} {spans : List NodeSpan}
    {context : List Str} {parentItemId : Option Str} (hne : spans ≠ []) (hs : ∀ s ∈ spans, a.HasText s)
    (h : a.appendView H lim views node viewType spans context parentItemId = .ok views') :
    a.Appends [⟨node, viewType, spans⟩] views views' := by
  unfold appendView at h
  dsimp only at h
  rw [if_neg (show ¬ (a.makeView H node viewType spans context parentItemId views.length).displayText = []
    from textOf_ne_nil hne hs)] at h
  simp only [Guard.bind_eq_ok, raiseIf_eq_ok, Guard.exists_unit, Guard.pure_eq_ok] at h
  obtain ⟨fits, -, -, rfl⟩ := h
  exact ⟨_, rfl, .cons ⟨rfl, rfl, rfl, rfl⟩ .nil⟩

theorem appendView_nil {node : StructureNode} {viewType : ViewType} {context : List Str}
    {parentItemId : Option Str}
    (h : a.appendView H lim views node viewType [] context parentItemId = .ok views') : views' = views := by
  have hempty : (a.makeView H node viewType [] context parentItemId views.length).displayText = [] := rfl
  unfold appendView at h
  dsimp only at h
  rw [if_pos hempty, Guard.pure_eq_ok] at h
  exact h.symm

theorem appendViewIf_appends {node : StructureNode} {fits : Bool} {viewType : ViewType} {spans : List NodeSpan}
    {context : List Str} (hne : spans ≠ []) (hs : ∀ s ∈ spans, a.HasText s)
    (h : a.appendViewIf H lim fits views node viewType spans context = .ok views') :
    a.Appends (if fits = true then [⟨node, viewType, spans⟩] else []) views views' := by
  unfold appendViewIf at h
  cases fits with
  | true => exact appendView_appends hne hs h
  | false =>
    simp only [Bool.false_eq_true, if_false, Guard.pure_eq_ok] at h ⊢
    rw [h]
    exact Appends.refl views'

end

/-! ### The nodes and spans a view may quote -/

section
variable {H : Sha256} {a : StructureArtifact} {lim : ViewLimits} {node : StructureNode}

theorem mem_nodes_of_lineage {fuel : Nat} {n : StructureNode} (h : n ∈ a.lineage fuel node) (hn : node ∈ a.nodes) :
    n ∈ a.nodes := by
  induction fuel generalizing node with
  | zero => simp [lineage] at h
  | succ fuel ih =>
    rcases List.mem_cons.1 h with rfl | h
    · exact hn
    · split at h
      · simp at h
      · rename_i parent hp
        obtain ⟨id, -, hid⟩ := Option.bind_eq_some_iff.1 hp
        exact ih h (PyList.get?_dictOf_some hid).1

theorem mem_nodes_of_descendants {depth : Nat} {n : StructureNode} (h : n ∈ a.descendants depth node) :
    n ∈ a.nodes := by
  induction depth generalizing node with
  | zero => simp [descendants] at h
  | succ depth ih =>
    obtain ⟨child, hc, h⟩ := List.mem_flatMap.1 h
    rcases List.mem_cons.1 h with rfl | h
    · exact (List.mem_filter.1 hc).1
    · exact ih h

theorem mem_leafNodes {n : StructureNode} :
    n ∈ a.leafNodes node ↔ n ∈ a.descendants a.nodes.length node ∧ n.nodeType.isLeaf = true :=
  List.mem_filter

namespace WellFormed
variable (h : a.WellFormed H)
include h

theorem hasText {s : NodeSpan} (hn : node ∈ a.nodes) (hs : s ∈ node.spans) : a.HasText s := by
  obtain ⟨i, -, hok⟩ := h.nodeOk hn
  obtain ⟨page, hp⟩ := hok.spans s hs
  exact SpanOk.hasText hp

theorem hasText_headingSpans (hn : node ∈ a.nodes) : ∀ s ∈ a.headingSpans node, a.HasText s := by
  refine hasText_orderedUnique fun s hs => ?_
  obtain ⟨n, hnl, hs⟩ := List.mem_flatMap.1 hs
  rw [ancestorHeadings, List.mem_reverse, List.mem_filter] at hnl
  exact h.hasText (mem_nodes_of_lineage hnl.1 hn) hs

theorem hasText_rawSpans : ∀ s ∈ a.rawSpans node, a.HasText s := by
  refine hasText_orderedUnique fun s hs => ?_
  obtain ⟨n, hnl, hs⟩ := List.mem_flatMap.1 hs
  exact h.hasText (mem_nodes_of_descendants (mem_leafNodes.1 hnl).1) hs

theorem hasText_contextualSpans (hn : node ∈ a.nodes) : ∀ s ∈ a.contextualSpans node, a.HasText s := by
  refine hasText_orderedUnique fun s hs => ?_
  rcases List.mem_append.1 hs with hs | hs
  · exact h.hasText_headingSpans hn s hs
  · exact h.hasText_rawSpans s hs

theorem hasText_leafSpans : ∀ s ∈ a.leafSpans, a.HasText s := by
  intro s hs
  obtain ⟨n, hn, -, hs⟩ := mem_leafSpans.1 hs
  exact h.hasText hn hs

/-- The leaves of an item have spans: the units of a partition are not empty. -/
theorem units_ne_nil : ∀ unit ∈ a.units node, unit ≠ [] := by
  intro unit hu
  obtain ⟨leaf, hl, rfl⟩ := List.mem_map.1 hu
  obtain ⟨hd, ht⟩ := mem_leafNodes.1 hl
  exact h.covered.spans_ne leaf (List.mem_filter.2 ⟨mem_nodes_of_descendants hd, ht⟩)

/-- The fuel of `descendants` is enough: every node below another is found. Each step down raises the
ordinal. -/
theorem mem_descendants_of_lt {depth : Nat} {n : StructureNode} (hp : Relation.TransGen a.IsParent node n)
    (hd : n.ordinal ≤ node.ordinal + depth) : n ∈ a.descendants depth node := by
  have hlt : ∀ {m}, Relation.TransGen a.IsParent m n → m.ordinal < n.ordinal := by
    intro m hm
    induction hm using Relation.TransGen.head_induction_on with
    | single hm => exact h.precedes hm
    | head hm _ ih => exact (h.precedes hm).trans ih
  induction depth generalizing node with
  | zero => exact absurd (hlt hp) (by omega)
  | succ depth ih =>
    obtain ⟨child, hc, hrest⟩ := Relation.TransGen.head'_iff.1 hp
    have hchild : child ∈ a.nodes.filter (·.parentId = some node.nodeId) :=
      List.mem_filter.2 ⟨hc.2.1, by simpa using hc.2.2.2⟩
    refine List.mem_flatMap.2 ⟨child, hchild, ?_⟩
    rcases Relation.reflTransGen_iff_eq_or_transGen.1 hrest with rfl | hrest
    · exact List.mem_cons_self
    · have := h.precedes hc
      exact List.mem_cons_of_mem _ (ih hrest (by omega))

theorem mem_leafNodes_of_below {n : StructureNode} (hp : Relation.TransGen a.IsParent node n)
    (ht : n.nodeType.isLeaf = true) : n ∈ a.leafNodes node := by
  have hn : n ∈ a.nodes := by
    obtain ⟨_, -, hc⟩ := Relation.TransGen.tail'_iff.1 hp
    exact hc.2.1
  obtain ⟨i, hi, hok⟩ := h.nodeOk hn
  have hlt := (List.getElem?_eq_some_iff.1 hi).1
  have hord := hok.ordinal
  exact mem_leafNodes.2 ⟨h.mem_descendants_of_lt hp (by omega), ht⟩

end WellFormed

end

/-! ### The views follow the plan -/

section
variable {H : Sha256} {a : StructureArtifact} {lim : ViewLimits} {views views' : List DerivedView}
  {node item : StructureNode}

/-- The groups of a partition hold every unit, are not empty and quote the units only. -/
theorem partitionSpans_spec {units groups : List (List NodeSpan)} {context : List Str}
    (hu : ∀ unit ∈ units, unit ≠ []) (h : a.partitionSpans lim units context = .ok groups) :
    (∀ s ∈ units.flatten, ∃ g ∈ groups, ∃ t ∈ g, t.sourceKey = s.sourceKey) ∧ (∀ g ∈ groups, g ≠ []) ∧
      ∀ g ∈ groups, ∀ s ∈ g, ∃ t ∈ units.flatten, s.sourceKey = t.sourceKey := by
  simp only [partitionSpans, Guard.bind_eq_ok, Guard.pure_eq_ok] at h
  obtain ⟨p, hp, rfl⟩ := h
  have hinit : PartitionOk [] ({} : Partition) := ⟨by simp, by simp, by simp, by simp⟩
  have hok := hinit.run hu hp
  rw [List.nil_append] at hok
  by_cases hpend : p.pending = []
  · rw [if_pos hpend]
    refine ⟨fun s hs => ?_, hok.groups_ne, fun g hg s hs => hok.source s (.inr ⟨g, hg, hs⟩)⟩
    rcases hok.cover s hs with hc | ⟨t, ht, -⟩
    · exact hc
    · rw [hpend] at ht
      cases ht
  · rw [if_neg hpend]
    refine ⟨fun s hs => ?_, fun g hg => ?_, fun g hg s hs => ?_⟩
    · rcases hok.cover s hs with ⟨g, hg, hc⟩ | ⟨t, ht, hk⟩
      · exact ⟨g, List.mem_append_left _ hg, hc⟩
      · obtain ⟨u, hu', hk'⟩ := exists_orderedUniqueSpans ht
        exact ⟨_, List.mem_append_right _ (List.mem_singleton_self _), u, hu', hk'.trans hk⟩
    · rcases List.mem_append.1 hg with hg | hg
      · exact hok.groups_ne g hg
      · rw [List.mem_singleton.1 hg]
        exact fun hn => hpend (orderedUniqueSpans_eq_nil.1 hn)
    · rcases List.mem_append.1 hg with hg | hg
      · exact hok.source s (.inr ⟨g, hg, hs⟩)
      · rw [List.mem_singleton.1 hg] at hs
        obtain ⟨u, hu', hk'⟩ := mem_orderedUniqueSpans hs
        obtain ⟨t, ht, hk⟩ := hok.source u (.inl hu')
        exact ⟨t, ht, hk'.trans hk⟩

theorem titleView_appends (h : a.WellFormed H) (hn : node ∈ a.nodes)
    (hv : a.titleView H lim views node = .ok views') : a.Appends (a.titlePlan node) views views' := by
  simp only [titleView, Guard.bind_eq_ok, raiseIf_eq_ok, Guard.exists_unit] at hv
  obtain ⟨fits, -, -, hv⟩ := hv
  unfold titlePlan
  split
  · rename_i hnil
    rw [hnil] at hv
    rw [appendView_nil hv]
    exact Appends.refl views
  · rename_i hne
    exact appendView_appends hne (h.hasText_headingSpans hn) hv

theorem sectionView_appends (h : a.WellFormed H) (hv : a.sectionView H lim views node = .ok views') :
    a.Appends (a.sectionPlan lim node) views views' := by
  unfold sectionView at hv
  unfold sectionPlan
  dsimp only at hv
  by_cases hnil : a.rawSpans node = []
  · rw [if_pos hnil, Guard.pure_eq_ok] at hv
    rw [if_neg (by simp [hnil]), hv]
    exact Appends.refl views'
  · rw [if_neg hnil, Guard.bind_eq_ok] at hv
    obtain ⟨fits, hf, hv⟩ := hv
    have := appendViewIf_appends hnil h.hasText_rawSpans hv
    simpa [hnil, ViewLimits.fits_eq hf] using this

theorem contractView_appends (h : a.WellFormed H) (hv : a.contractView H lim views = .ok views') :
    a.Appends (a.contractPlan lim) views views' := by
  simp only [contractView, Guard.bind_eq_ok] at hv
  obtain ⟨fits, hf, hv⟩ := hv
  unfold contractPlan
  cases hroot : a.nodes.find? (·.nodeType = .root) with
  | none =>
    simp only [hroot, Guard.pure_eq_ok] at hv
    rw [hv]
    exact Appends.refl views'
  | some root =>
    rw [hroot] at hv
    cases fits with
    | false =>
      simp only [Guard.pure_eq_ok] at hv
      rw [hv]
      dsimp only
      rw [if_neg (by simp [ViewLimits.fits_eq hf])]
      exact Appends.refl views'
    | true =>
      dsimp only at hv ⊢
      by_cases hnil : a.leafSpans = []
      · rw [if_neg (by simp [hnil])]
        rw [hnil] at hv
        rw [appendView_nil hv]
        exact Appends.refl views
      · rw [if_pos ⟨hnil, ViewLimits.fits_eq hf⟩]
        exact appendView_appends (fun hn => hnil (orderedUniqueSpans_eq_nil.1 hn))
          (hasText_orderedUnique h.hasText_leafSpans) hv

/-- The groups an item is split into, when its views are built. -/
theorem detailGroups_text (h : a.WellFormed H) {groups : List (List NodeSpan)}
    (hp : a.partitionSpans lim (a.units item) (a.canonicalItemContext item) = .ok groups) :
    ∀ g ∈ groups, g ≠ [] ∧ ∀ s ∈ g, a.HasText s := by
  obtain ⟨-, hne, hsrc⟩ := partitionSpans_spec h.units_ne_nil hp
  refine fun g hg => ⟨hne g hg, fun s hs => ?_⟩
  obtain ⟨t, ht, hk⟩ := hsrc g hg s hs
  obtain ⟨unit, hu, ht⟩ := List.mem_flatten.1 ht
  obtain ⟨leaf, hl, rfl⟩ := List.mem_map.1 hu
  show spanText a.pages s ≠ []
  rw [spanText_of_sourceKey a.pages hk]
  exact h.hasText (mem_nodes_of_descendants (mem_leafNodes.1 hl).1) ht

theorem itemViews_appends (h : a.WellFormed H) (hn : item ∈ a.nodes)
    (hv : a.itemViews H lim views item = .ok views') : a.Appends (a.itemPlan lim item) views views' := by
  unfold itemViews at hv
  unfold itemPlan
  dsimp only at hv
  by_cases hnil : a.rawSpans item = []
  · rw [if_pos hnil, Guard.pure_eq_ok] at hv
    rw [if_pos hnil, hv]
    exact Appends.refl views'
  rw [if_neg hnil] at hv
  rw [if_neg hnil]
  simp only [Guard.bind_eq_ok] at hv
  obtain ⟨rawFits, hraw, ctxFits, hctx, views1, h1, views2, h2, hv⟩ := hv
  have hr : a.rawFits lim item = rawFits := ViewLimits.fits_eq hraw
  have hc : a.contextualFits lim item = ctxFits := ViewLimits.fits_eq hctx
  have hcne : a.contextualSpans item ≠ [] := by
    intro hcn
    have := orderedUniqueSpans_eq_nil.1 hcn
    exact hnil (List.append_eq_nil_iff.1 this).2
  rw [hr, hc]
  refine ((appendViewIf_appends hnil h.hasText_rawSpans h1).trans
    (appendViewIf_appends hcne (h.hasText_contextualSpans hn) h2)).trans ?_
  unfold detailGroups
  rw [hr, hc]
  split at hv
  · rename_i hboth
    rw [if_pos hboth, List.map_nil]
    rw [Guard.pure_eq_ok.1 hv]
    exact Appends.refl views'
  · rename_i hboth
    rw [if_neg hboth]
    obtain ⟨groups, hg, hv⟩ := Guard.bind_eq_ok.1 hv
    have hg' : a.partitionSpans lim (a.units item) (a.canonicalItemContext item) = .ok groups := hg
    have htext := detailGroups_text h hg'
    rw [hg']
    rw [List.map_eq_flatMap]
    exact Appends.foldlM
      (fun g hgm vs vs' hstep => appendView_appends (htext g hgm).1 (htext g hgm).2 hstep) hv

/-- An item with text that exceeds a limit was split. -/
theorem partitionSpans_of_itemViews (hraw : a.rawSpans item ≠ [])
    (hfit : (a.rawFits lim item && a.contextualFits lim item) = false)
    (hv : a.itemViews H lim views item = .ok views') :
    ∃ groups, a.partitionSpans lim (a.units item) (a.canonicalItemContext item) = .ok groups := by
  unfold itemViews at hv
  dsimp only at hv
  rw [if_neg hraw] at hv
  simp only [Guard.bind_eq_ok] at hv
  obtain ⟨rawFits, hr, ctxFits, hc, _, -, _, -, hv⟩ := hv
  have hr' : a.rawFits lim item = rawFits := ViewLimits.fits_eq hr
  have hc' : a.contextualFits lim item = ctxFits := ViewLimits.fits_eq hc
  rw [hr', hc'] at hfit
  rw [hfit, if_neg Bool.false_ne_true] at hv
  obtain ⟨groups, hg, -⟩ := Guard.bind_eq_ok.1 hv
  exact ⟨groups, hg⟩

/-- The views are the planned ones. -/
theorem collectViews_built (h : a.WellFormed H) (hv : a.collectViews H lim = .ok views) :
    List.Forall₂ a.Built (a.viewPlan lim) views := by
  simp only [collectViews, Guard.bind_eq_ok] at hv
  obtain ⟨v1, h1, v2, h2, v3, h3, h4⟩ := hv
  have hmem : ∀ {p : StructureNode → Bool} {n}, n ∈ a.nodes.filter p → n ∈ a.nodes :=
    fun hn => (List.mem_filter.1 hn).1
  have e1 := Appends.foldlM (fun n hn _ _ hs => titleView_appends h (hmem hn) hs) h1
  have e2 := Appends.foldlM (fun n hn _ _ hs => itemViews_appends h (hmem hn) hs) h2
  have e3 := Appends.foldlM (fun n _ _ _ hs => sectionView_appends h hs) h3
  obtain ⟨new, rfl, hb⟩ := ((e1.trans e2).trans e3).trans (contractView_appends h h4)
  exact hb

theorem buildDerivedViews_eq_ok (hv : a.buildDerivedViews H lim = .ok views) :
    a.WellFormed H ∧ a.collectViews H lim = .ok views ∧ a.validateDerivedViews H lim views = .ok () := by
  simp only [buildDerivedViews, Guard.bind_eq_ok, Guard.exists_unit, Guard.pure_eq_ok] at hv
  obtain ⟨-, -, c, hc, views', hcol, hval, rfl⟩ := hv
  exact ⟨validate_ok_iff.1 ⟨c, hc⟩, hcol, hval⟩

end

end StructureArtifact

/-- A document of one line. -/
def oneLine : StructureInput := sampleInput [⟨['d'], 1, ['a']⟩]

/-- The fallback returns, and so do its views, of which `p` holds. -/
def fallbackViews (inp : StructureInput) (lim : ViewLimits) (p : StructureArtifact → List DerivedView → Bool) : Bool :=
  match buildUnclassifiedFallbackArtifact .standard inp with
  | .error _ => false
  | .ok a => match a.buildDerivedViews .standard lim with
    | .error _ => false
    | .ok views => p a views

theorem exists_views {inp : StructureInput} {lim : ViewLimits} {p : StructureArtifact → List DerivedView → Bool}
    (h : fallbackViews inp lim p = true) :
    ∃ a views, buildUnclassifiedFallbackArtifact .standard inp = .ok a ∧
      a.buildDerivedViews .standard lim = .ok views ∧ p a views = true := by
  unfold fallbackViews at h
  split at h
  · cases h
  · rename_i a ha
    split at h
    · cases h
    · rename_i views hv
      exact ⟨a, views, ha, hv, h⟩

theorem exists_views_one_line : ∃ a views, buildUnclassifiedFallbackArtifact .standard oneLine = .ok a ∧
    a.buildDerivedViews .standard ⟨1000, none, none⟩ = .ok views ∧ views ≠ [] := by
  have heval : fallbackViews oneLine ⟨1000, none, none⟩ (fun _ views => decide (views ≠ [])) = true := by decide +kernel
  obtain ⟨a, views, ha, hv, hne⟩ := exists_views heval
  exact ⟨a, views, ha, hv, of_decide_eq_true hne⟩

end CardRag
