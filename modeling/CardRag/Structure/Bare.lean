import CardRag.Structure.Derive

/-! # Documents without a line of substance

When every line is blank, boilerplate or a page marker, the parser opens no section and no item. The
plan of the views then holds at most the contract, whose text is that of the pages. -/

namespace CardRag

/-- Some line is neither blank nor boilerplate nor a page marker. -/
def StructureInput.HasSubstance (U : Unicode) (inp : StructureInput) (profile : IssuerParserProfile) : Prop :=
  ∃ l ∈ allLines inp.pages, isPassedOver (repeatedEdgeLines U (inp.pages.map sourceLines) profile) l = false

/-- The text of the document. -/
def StructureInput.text (inp : StructureInput) : Str := inp.pages.flatMap (·.text)

namespace ParserState

/-- Nothing is open, and nothing but the root and leaves outside items was added. -/
structure Bare (st : ParserState) : Prop where
  major : st.currentMajor = none
  item : st.currentItem = none
  drafts : ∀ d ∈ st.drafts, d.nodeType = .root ∨ d.nodeType = .boilerplate ∨ d.nodeType = .unclassified

section
variable {H : Sha256} {U : Unicode} {profile : IssuerParserProfile} {boilerplate : List (Nat × Nat × Nat)}
  {st st' : ParserState} {l : SourceLine} {lines rest : List SourceLine}

theorem Bare.addNode {d : NodeDraft} (h : Bare st) (hd : d.nodeType = .boilerplate ∨ d.nodeType = .unclassified) :
    Bare (st.addNode d) := by
  refine ⟨h.major, h.item, fun e he => ?_⟩
  rcases List.mem_append.1 he with he | he
  · exact h.drafts e he
  · rw [List.mem_singleton.1 he]
    exact .inr hd

theorem Bare.stepLine (h : Bare st) (hl : isPassedOver boilerplate l = true)
    (hstep : st.stepLine H U profile boilerplate l rest = .ok st') : Bare st' := by
  have hclosed : Bare { st with currentTable := none } := ⟨h.major, h.item, h.drafts⟩
  simp only [ParserState.stepLine, Guard.bind_eq_ok, Guard.exists_unit] at hstep
  obtain ⟨-, hstep⟩ := hstep
  split at hstep
  · rw [Guard.pure_eq_ok] at hstep
    exact hstep ▸ hclosed.addNode (.inl rfl)
  · rename_i hb
    split at hstep
    · rw [Guard.pure_eq_ok] at hstep
      exact hstep ▸ hclosed.addNode (.inr rfl)
    · -- a line that is passed over is one of the two above
      rename_i hblank
      rw [not_or] at hb
      simp [isPassedOver, hblank, hb.1, hb.2] at hl

theorem Bare.stepLines (h : Bare st) (hl : ∀ l ∈ lines, isPassedOver boilerplate l = true)
    (hstep : ParserState.stepLines H U profile boilerplate st lines = .ok st') : Bare st' := by
  induction lines generalizing st with
  | nil =>
    rw [ParserState.stepLines, Guard.pure_eq_ok] at hstep
    exact hstep ▸ h
  | cons l rest ih =>
    simp only [ParserState.stepLines, Guard.bind_eq_ok] at hstep
    obtain ⟨st1, h1, h2⟩ := hstep
    exact ih (h.stepLine (hl l (by simp)) h1) (fun l' hl' => hl l' (by simp [hl'])) h2

theorem Bare.stepPage (h : Bare st) (hl : ∀ l ∈ lines, isPassedOver boilerplate l = true)
    (hstep : ParserState.stepPage H U profile boilerplate st lines = .ok st') : Bare st' := by
  simp only [ParserState.stepPage, Guard.bind_eq_ok] at hstep
  obtain ⟨st1, h1, h2⟩ := hstep
  have h0 : Bare { st with
      pageFirstSemantic := true, pageLastSemantic := none, pageLastTable := none, currentTable := none } :=
    ⟨h.major, h.item, h.drafts⟩
  have hb := h0.stepLines hl h1
  split at h2 <;> rw [Guard.pure_eq_ok] at h2 <;> rw [← h2]
  · exact ⟨hb.major, hb.item, hb.drafts⟩
  · exact hb

end

end ParserState

section
variable {H : Sha256} {U : Unicode} {profile : IssuerParserProfile} {inp : StructureInput} {lim : ViewLimits}
  {a : StructureArtifact} {views : List DerivedView}

theorem parseDrafts_bare {st : ParserState} (hs : ¬ inp.HasSubstance U profile)
    (h : parseDrafts H U inp profile = .ok st) : st.Bare := by
  have hl : ∀ lines ∈ inp.pages.map sourceLines, ∀ l ∈ lines,
      isPassedOver (repeatedEdgeLines U (inp.pages.map sourceLines) profile) l = true := by
    intro lines hlines l hl
    obtain ⟨p, hp, rfl⟩ := List.mem_map.1 hlines
    by_contra hpass
    exact hs ⟨l, mem_allLines.2 ⟨p, hp, hl⟩, by simpa using hpass⟩
  unfold parseDrafts at h
  dsimp only at h
  generalize repeatedEdgeLines U (inp.pages.map sourceLines) profile = boilerplate at h hl
  generalize inp.pages.map sourceLines = pages at h hl
  have hinit : ParserState.Bare {} := ⟨rfl, rfl, by simp [rootDraft]⟩
  revert hinit
  generalize ({} : ParserState) = st0 at h
  intro hb
  induction pages generalizing st0 with
  | nil =>
    rw [List.foldlM_nil, Guard.pure_eq_ok] at h
    exact h ▸ hb
  | cons lines pages ih =>
    simp only [List.foldlM_cons, Guard.bind_eq_ok] at h
    obtain ⟨st1, h1, h2⟩ := h
    exact ih (fun ls hls => hl ls (by simp [hls])) st1 h2 (hb.stepPage (hl lines (by simp)) h1)

/-- The parser accepts a document without substance. -/
theorem parse_returns_of_bare (hcheck : inp.check = .ok ()) (hprofile : inp.selectProfile = .ok profile)
    (hmark : inp.MarkersOwn) (hs : ¬ inp.HasSubstance U profile) (hinj : H.InjectiveOn (parsedPayloads H U inp)) :
    ∃ a, parseStructureArtifact H U inp = .ok a := by
  obtain ⟨st, hst⟩ := parseDrafts_returns H U profile hmark
  have hbare := parseDrafts_bare hs hst
  have hrows : RowsAgree st.drafts := by
    intro i p row table hrow ht
    rcases hbare.drafts row (List.mem_of_getElem? hrow) with h | h | h <;> rw [h] at ht <;> cases ht
  exact exists_parse_of_headersLead hcheck hprofile hmark hinj ((parseDrafts_tables hst).2.1 hrows)

/-! ### The text of the contract view -/

theorem SourceLine.Before.position_lt {k l : SourceLine} (h : k.Before l) (hk : k.sourceStart < k.sourceEnd) :
    (k.span H).position < (l.span H).position := by
  show toLex (k.page, toLex (k.sourceStart, k.sourceEnd)) < toLex (l.page, toLex (l.sourceStart, l.sourceEnd))
  rw [Prod.Lex.toLex_lt_toLex, Prod.Lex.toLex_lt_toLex]
  rcases h with h | ⟨hp, h⟩
  · exact .inl h
  · exact .inr ⟨hp, .inl (by show k.sourceStart < l.sourceStart; omega)⟩

theorem sourceKeys_nodup {spans : List NodeSpan} (h : spans.Pairwise fun s t => s.position < t.position) :
    (spans.map NodeSpan.sourceKey).Nodup := by
  rw [List.Nodup, List.pairwise_map]
  refine h.imp fun {s t} hlt heq => ?_
  simp only [NodeSpan.sourceKey, Prod.mk.injEq] at heq
  obtain ⟨h1, h2, h3, -⟩ := heq
  exact absurd hlt (by simp [NodeSpan.position, h1, h2, h3])

/-- Spans in source order are kept as they are. -/
theorem textOf_orderedUnique {spans : List NodeSpan} (h : spans.Pairwise fun s t => s.position < t.position) :
    a.textOf (orderedUniqueSpans spans) = a.textOf spans := by
  rw [orderedUniqueSpans, PyList.values_dictOf_of_nodup (sourceKeys_nodup h),
    PyList.sortedBy_eq_self (h.imp le_of_lt)]
  have hfst : a.textOf spans = (spans.zipIdx.map Prod.fst).flatMap (spanText a.pages) := by
    rw [List.zipIdx_map_fst]
    rfl
  rw [hfst, StructureArtifact.textOf, List.flatMap_map, List.flatMap_map]
  rfl

theorem orderedUnique_pairwise {spans : List NodeSpan} (h : spans.Pairwise fun s t => s.position < t.position) :
    (orderedUniqueSpans spans).Pairwise fun s t => s.position < t.position := by
  have hz : spans.zipIdx.Pairwise fun x y => x.1.position < y.1.position := by
    have hfst : (spans.zipIdx.map Prod.fst).Pairwise fun s t => s.position < t.position := by
      rw [List.zipIdx_map_fst]
      exact h
    rw [List.pairwise_map] at hfst
    exact hfst
  rw [orderedUniqueSpans, PyList.values_dictOf_of_nodup (sourceKeys_nodup h),
    PyList.sortedBy_eq_self (h.imp le_of_lt), List.pairwise_map]
  exact hz

section
variable {revisionId : Str} {isBoiler : SourceLine → Bool} {ds : List NodeDraft}

theorem leafSpans_eq_lines (hd : a.OfDrafts H inp revisionId isBoiler ds) :
    a.leafSpans = (allLines inp.pages).map (SourceLine.span H) := by
  have := @Build.leafSpans_eq H isBoiler inp a.issuerProfile [] revisionId ds [] hd.drafts
  simpa [StructureArtifact.leafSpans, StructureArtifact.leaves, hd.nodes, StructureInput.artifact] using this

theorem leafSpans_ne_nil (hd : a.OfDrafts H inp revisionId isBoiler ds) {l : SourceLine}
    (hl : l ∈ allLines inp.pages) : a.leafSpans ≠ [] := by
  rw [leafSpans_eq_lines hd]
  exact List.ne_nil_of_mem (List.mem_map_of_mem hl)

theorem leafSpans_pairwise (hd : a.OfDrafts H inp revisionId isBoiler ds) :
    a.leafSpans.Pairwise fun s t => s.position < t.position := by
  have hpos : ∀ l ∈ allLines inp.pages, l.sourceStart < l.sourceEnd := by
    intro l hl
    obtain ⟨p, -, hl⟩ := mem_allLines.1 hl
    exact (sourceLines_of hl).start_lt
  rw [leafSpans_eq_lines hd, List.pairwise_map]
  exact (allLines_pairwise (Build.increasing_of_check hd.check).1).imp_of_mem
    fun hk _ hb => hb.position_lt (hpos _ hk)

theorem contractText_idem (hd : a.OfDrafts H inp revisionId isBoiler ds) :
    a.textOf (orderedUniqueSpans (orderedUniqueSpans a.leafSpans)) =
      a.textOf (orderedUniqueSpans a.leafSpans) :=
  textOf_orderedUnique (orderedUnique_pairwise (leafSpans_pairwise hd))

theorem contractText_eq (hd : a.OfDrafts H inp revisionId isBoiler ds) :
    a.textOf (orderedUniqueSpans a.leafSpans) = inp.text := by
  rw [textOf_orderedUnique (leafSpans_pairwise hd), leafSpans_eq_lines hd, StructureArtifact.textOf,
    List.flatMap_map]
  have hline : ∀ l ∈ allLines inp.pages, spanText a.pages (l.span H) = l.text := fun l hl =>
    StructureArtifact.spanText_line hd hl 0 true
  rw [List.flatMap_congr hline, allLines, List.flatMap_assoc]
  exact List.flatMap_congr fun p _ => sourceLines_text p

end

/-! ### The views of a document without substance -/

theorem bare_nodes (hs : ¬ inp.HasSubstance U profile) (hprofile : inp.selectProfile = .ok profile)
    (h : parseStructureArtifact H U inp = .ok a) :
    a.titleNodes = [] ∧ a.itemNodes = [] ∧ a.sectionNodes = [] := by
  obtain ⟨profile', revisionId, st, hp, hst, hd⟩ := StructureArtifact.ofDrafts_of_parse h
  rw [hprofile] at hp
  cases hp
  have hbare := parseDrafts_bare hs hst
  have htype : ∀ n ∈ a.nodes, n.nodeType ≠ .item ∧ n.nodeType ≠ .majorSection := by
    intro n hn
    rw [hd.nodes] at hn
    obtain ⟨i, hi⟩ := List.getElem?_of_mem hn
    obtain ⟨d, hget, ho⟩ := Build.exists_draft hd.drafts hi
    rw [ho.type]
    rcases hbare.drafts d (List.mem_of_getElem? hget) with ht | ht | ht <;> simp [ht]
  refine ⟨?_, ?_, ?_⟩ <;> refine List.filter_eq_nil_iff.2 fun n hn => ?_ <;> simp [htype n hn]

theorem validateSpan_of_sourceKey {pages : List StructurePage} {s t : NodeSpan} (hk : s.sourceKey = t.sourceKey) :
    validateSpan H pages s = validateSpan H pages t := by
  simp only [NodeSpan.sourceKey, Prod.mk.injEq] at hk
  obtain ⟨h1, h2, h3, h4⟩ := hk
  simp only [validateSpan, h1, h2, h3, h4]

/-- A view without context quotes valid spans: the validator accepts it. -/
theorem validateView_plain {node : StructureNode} (viewType : ViewType) {spans : List NodeSpan} (i : Nat)
    (h : a.WellFormed H) (hn : node ∈ a.nodes) (hctx : viewType ≠ .contextualItem) (hdet : viewType ≠ .detail)
    (hne : spans ≠ []) (hspans : ∀ s ∈ spans, ∃ page, SpanOk H a.pages s page)
    (hfit : lim.within (a.textOf (orderedUniqueSpans spans)) = .ok true) :
    a.validateView H lim (a.makeView H node viewType spans [] none i) i = .ok () := by
  have hinput : (a.makeView H node viewType spans [] none i).embeddingInput = a.textOf (orderedUniqueSpans spans) := by
    simp [StructureArtifact.makeView, embeddingInput]
  have hnode : a.validateViewNode (a.makeView H node viewType spans [] none i) = .ok () := by
    obtain ⟨_, -, hok⟩ := h.nodeOk hn
    have hget : nodeById a.nodes (a.makeView H node viewType spans [] none i).nodeId = some node := h.nodeById_eq hn
    unfold StructureArtifact.validateViewNode
    rw [hget]
    simp [StructureArtifact.validateViewContext, StructureArtifact.makeView, hctx, hdet, hok.revision]
  have hnorm : orderedUniqueSpans spans ≠ [] := fun hnil => hne (orderedUniqueSpans_eq_nil.1 hnil)
  simp only [StructureArtifact.validateView, Guard.bind_eq_ok, raiseIf_eq_ok, Guard.exists_unit, not_not, hnode,
    Guard.forM_eq_ok, hinput, hfit, Except.ok.injEq, exists_eq_left']
  refine ⟨rfl, trivial, rfl, fun hd => hdet hd.1, fun hd => hd.2 rfl, hnorm, fun s hs => ?_, rfl, ?_, ?_, by simp, rfl⟩
  · obtain ⟨t, ht, hk⟩ := mem_orderedUniqueSpans hs
    rw [validateSpan_of_sourceKey hk]
    exact validateSpan_ok_iff.2 (hspans t ht)
  · simp [StructureArtifact.makeView, embeddingInput]
  · simp [StructureArtifact.makeView, embeddingInput]

/-- A plan of the contract alone gives one view. -/
theorem buildDerivedViews_contract (h : a.WellFormed H)
    (hnodes : a.titleNodes = [] ∧ a.itemNodes = [] ∧ a.sectionNodes = [])
    (hlim : ¬ (lim.maximumChars < 1 ∨ ∃ maximum ∈ lim.maximumTokens, maximum < 1) ∧
      ¬ (lim.maximumTokens.isSome = true ∧ lim.tokenCounter.isNone = true))
    (hne : a.leafSpans ≠ []) (hfit : lim.within (a.textOf (orderedUniqueSpans a.leafSpans)) = .ok true)
    (hidem : a.textOf (orderedUniqueSpans (orderedUniqueSpans a.leafSpans)) =
      a.textOf (orderedUniqueSpans a.leafSpans)) :
    ∃ view, a.buildDerivedViews H lim = .ok [view] ∧ view.viewType = .contract := by
  obtain ⟨root, rest, hcons, htype, -⟩ := h.root_first
  have hroot : a.nodes.find? (·.nodeType = .root) = some root := by simp [hcons, htype]
  have hspans : ∀ s ∈ orderedUniqueSpans a.leafSpans, ∃ page, SpanOk H a.pages s page := by
    intro s hs
    obtain ⟨t, ht, hk⟩ := mem_orderedUniqueSpans hs
    obtain ⟨n, hn, -, ht⟩ := StructureArtifact.mem_leafSpans.1 ht
    obtain ⟨_, -, hok⟩ := h.nodeOk hn
    rw [← validateSpan_ok_iff, validateSpan_of_sourceKey hk]
    exact validateSpan_ok_iff.2 (hok.spans t ht)
  have hnorm : orderedUniqueSpans a.leafSpans ≠ [] := fun hnil => hne (orderedUniqueSpans_eq_nil.1 hnil)
  have hvalid := validateView_plain .contract 0 h (by simp [hcons] : root ∈ a.nodes)
    (by simp) (by simp) hnorm hspans (hidem.symm ▸ hfit)
  set view := a.makeView H root .contract (orderedUniqueSpans a.leafSpans) [] none 0 with hview
  have hdisplay : view.displayText ≠ [] :=
    StructureArtifact.textOf_ne_nil hnorm (StructureArtifact.hasText_orderedUnique h.hasText_leafSpans)
  have hinput : view.embeddingInput = a.textOf (orderedUniqueSpans a.leafSpans) := by
    rw [← hidem]
    simp [hview, StructureArtifact.makeView, embeddingInput]
  have happend : a.appendView H lim [] root .contract (orderedUniqueSpans a.leafSpans) [] none = .ok [view] := by
    unfold StructureArtifact.appendView
    dsimp only
    rw [List.length_nil, ← hview, if_neg hdisplay, hinput, hfit]
    rfl
  have hcol : a.collectViews H lim = .ok [view] := by
    simp only [StructureArtifact.collectViews, hnodes.1, hnodes.2.1, hnodes.2.2, List.foldlM_nil,
      Guard.bind_eq_ok, Guard.pure_eq_ok, exists_eq_left', StructureArtifact.contractView, hroot, hfit,
      Except.ok.injEq, exists_eq_left']
    exact happend
  obtain ⟨c, hc⟩ := StructureArtifact.validate_ok_iff.2 h
  refine ⟨view, ?_, rfl⟩
  simp only [StructureArtifact.buildDerivedViews, Guard.bind_eq_ok, raiseIf_eq_ok, Guard.exists_unit,
    Guard.pure_eq_ok, StructureArtifact.validateDerivedViews, Guard.forM_eq_ok, hc, Except.ok.injEq, exists_eq_left']
  exact ⟨hlim.1, hlim.2, [view], hcol, ⟨by simp, by simpa using hvalid⟩, rfl⟩

/-! ### The input checks leave a profile -/

theorem issuerCode_of_check (h : inp.check = .ok ()) : issuerCode inp.issuer = .ok () := by
  simp only [StructureInput.check, Guard.bind_eq_ok, Guard.exists_unit] at h
  exact h.2.1

theorem issuerParserProfile_issuer {issuer : Str} (h : issuerCode issuer = .ok ()) :
    ∃ profile, issuerParserProfile issuer = .ok profile ∧ profile.issuer = issuer := by
  simp only [issuerParserProfile, Guard.bind_eq_ok, Guard.exists_unit]
  split
  · rename_i profile hfind
    have hissuer := List.find?_some hfind
    exact ⟨profile, ⟨h, rfl⟩, by simpa using hissuer⟩
  · exact ⟨_, ⟨h, rfl⟩, rfl⟩

theorem selectProfile_returns (hcheck : inp.check = .ok ()) (hprofile : ∀ p ∈ inp.profile, p.issuer = inp.issuer) :
    ∃ profile, inp.selectProfile = .ok profile := by
  unfold StructureInput.selectProfile
  cases hp : inp.profile with
  | some p =>
    simp only [Guard.bind_eq_ok, raiseIf_eq_ok, Guard.exists_unit, Guard.pure_eq_ok]
    exact ⟨p, p, rfl, not_not.2 (hprofile p hp), rfl⟩
  | none =>
    obtain ⟨profile, hsel, hissuer⟩ := issuerParserProfile_issuer (issuerCode_of_check hcheck)
    simp only [Guard.bind_eq_ok, raiseIf_eq_ok, Guard.exists_unit, Guard.pure_eq_ok]
    exact ⟨profile, profile, hsel, not_not.2 hissuer, rfl⟩

/-! ### When a document has a view besides the contract -/

theorem stepLines_markers {boilerplate : List (Nat × Nat × Nat)} {lines : List SourceLine} {st st' : ParserState}
    (h : ParserState.stepLines H U profile boilerplate st lines = .ok st') :
    ∀ l ∈ lines, ∀ n ∈ pageMarker (PyStr.strip l.visible), n = l.page := by
  induction lines generalizing st with
  | nil => simp
  | cons l rest ih =>
    simp only [ParserState.stepLines, Guard.bind_eq_ok] at h
    obtain ⟨st1, h1, h2⟩ := h
    refine List.forall_mem_cons.2 ⟨fun n hn => ?_, ih h2⟩
    simp only [ParserState.stepLine, Guard.bind_eq_ok, raiseIf_eq_ok, Guard.exists_unit, not_and, not_not] at h1
    have hown := h1.1 (by rw [Option.mem_def.1 hn]; rfl)
    rw [Option.mem_def.1 hn] at hown
    exact Option.some.inj hown

/-- The line loop refuses foreign page markers. -/
theorem markersOwn_of_drafts {profile : IssuerParserProfile} {st : ParserState}
    (hst : parseDrafts H U inp profile = .ok st) : inp.MarkersOwn := by
  intro l hl
  obtain ⟨p, hp, hl⟩ := mem_allLines.1 hl
  obtain ⟨st1, st2, hpage⟩ := Guard.foldlM_mem hst (List.mem_map_of_mem hp)
  simp only [ParserState.stepPage, Guard.bind_eq_ok] at hpage
  obtain ⟨st3, hlines, -⟩ := hpage
  exact stepLines_markers hlines l hl

theorem markersOwn_of_parse (h : parseStructureArtifact H U inp = .ok a) : inp.MarkersOwn := by
  obtain ⟨profile, _, st, -, hst, -⟩ := StructureArtifact.ofDrafts_of_parse h
  exact markersOwn_of_drafts hst

theorem exists_visible_line (h : ∃ p ∈ inp.pages, ∃ c ∈ p.text, PyStr.isSpace c = false) :
    ∃ l ∈ allLines inp.pages, ∃ c ∈ l.text, PyStr.isSpace c = false := by
  obtain ⟨p, hp, c, hc, hcs⟩ := h
  rw [← sourceLines_text p] at hc
  obtain ⟨l, hl, hc⟩ := List.mem_flatMap.1 hc
  exact ⟨l, mem_allLines.2 ⟨p, hp, hl⟩, c, hc, hcs⟩

theorem passage_ne_contract {v : DerivedView} (h : v.viewType ∈ StructureArtifact.passageTypes) :
    v.viewType ≠ .contract := by
  intro hc
  rw [hc] at h
  simp [StructureArtifact.passageTypes] at h

/-- Without titles, items and sections the plan is the contract's. -/
theorem views_of_contractPlan (hv : a.buildDerivedViews H lim = .ok views)
    (hnodes : a.titleNodes = [] ∧ a.itemNodes = [] ∧ a.sectionNodes = []) :
    List.Forall₂ a.Built (a.contractPlan lim) views := by
  obtain ⟨hwf, hcol, -⟩ := StructureArtifact.buildDerivedViews_eq_ok hv
  have hb := StructureArtifact.collectViews_built hwf hcol
  simpa [StructureArtifact.viewPlan, hnodes.1, hnodes.2.1, hnodes.2.2] using hb

theorem contractPlan_mem {p : StructureArtifact.Planned} (h : p ∈ a.contractPlan lim) :
    p.viewType = .contract ∧ lim.within (a.textOf (orderedUniqueSpans a.leafSpans)) = .ok true := by
  unfold StructureArtifact.contractPlan at h
  split at h
  · cases h
  · split at h
    · rename_i hfit
      rw [List.mem_singleton.1 h]
      exact ⟨rfl, ViewLimits.fits_iff.1 hfit.2⟩
    · cases h

/-- The stage returns a view besides the contract unless the parser accepts a document without
substance whose text fits the limits. -/
theorem child_view_iff {reason : Option FallbackReason}
    (hvisible : ∃ p ∈ inp.pages, ∃ c ∈ p.text, PyStr.isSpace c = false)
    (hprofile : inp.selectProfile = .ok profile) (hinj : H.InjectiveOn (parsedPayloads H U inp))
    (h : deriveV5 H U lim inp = .ok (a, views, reason)) :
    (∃ v ∈ views, v.viewType ≠ .contract) ↔
      inp.HasSubstance U profile ∨ ¬ inp.MarkersOwn ∨ lim.within inp.text ≠ .ok true := by
  obtain ⟨⟨hv, hne⟩, hfrom⟩ := deriveV5_cases h
  rcases hfrom with hparse | ⟨hfall, hfail⟩
  · obtain ⟨profile', revisionId, st, hp, -, hd⟩ := StructureArtifact.ofDrafts_of_parse hparse
    rw [hprofile] at hp
    cases hp
    by_cases hs : inp.HasSubstance U profile
    · simp only [hs, true_or, iff_true]
      obtain ⟨l, hl, hpass⟩ := hs
      simp only [isPassedOver, Bool.or_eq_false_iff, decide_eq_false_iff_not] at hpass
      obtain ⟨v, hvm, htype⟩ := hd.exists_passage hv hl
        (by simp only [isBoilerplateLine, Bool.or_eq_false_iff, decide_eq_false_iff_not]
            exact ⟨hpass.1.2, hpass.2⟩)
        (SourceLine.exists_visible hpass.1.1)
      exact ⟨v, hvm, passage_ne_contract htype⟩
    · have hb := views_of_contractPlan hv (bare_nodes hs hprofile hparse)
      simp only [hs, markersOwn_of_parse hparse, not_true_eq_false, false_or]
      obtain ⟨v, hvm⟩ := List.exists_mem_of_ne_nil views hne
      -- the plan is not empty, so the contract fits
      have hplan : ∀ v ∈ views, v.viewType = .contract ∧ lim.within inp.text = .ok true := by
        intro v hvm
        obtain ⟨i, hi, rfl⟩ := List.getElem_of_mem hvm
        have hbuilt := hb.get (i := i) (by rw [hb.length_eq]; exact hi) hi
        obtain ⟨hc, hfit⟩ := contractPlan_mem (List.get_mem (a.contractPlan lim) ⟨i, by rw [hb.length_eq]; exact hi⟩)
        exact ⟨hbuilt.type.trans hc, contractText_eq hd ▸ hfit⟩
      simp only [(hplan v hvm).2, ne_eq, not_true_eq_false, iff_false, not_exists, not_and, not_not]
      exact fun w hw => (hplan w hw).1
  · obtain ⟨revisionId, ds, hd⟩ := StructureArtifact.ofDrafts_of_fallback hfall
    obtain ⟨l, hl, hlv⟩ := exists_visible_line hvisible
    obtain ⟨v, hvm, htype⟩ := hd.exists_passage hv hl rfl hlv
    have hchild : ∃ v ∈ views, v.viewType ≠ .contract := ⟨v, hvm, passage_ne_contract htype⟩
    simp only [hchild, true_iff]
    by_contra hnot
    simp only [not_or, not_not] at hnot
    obtain ⟨hs, hmark, hfit⟩ := hnot
    obtain ⟨p, hparse⟩ := parse_returns_of_bare hd.check hprofile hmark hs hinj
    obtain ⟨_, _, st, -, -, hdp⟩ := StructureArtifact.ofDrafts_of_parse hparse
    have hwf := (parseStructureArtifact_eq_ok.1 hparse).2
    simp only [StructureArtifact.buildDerivedViews, Guard.bind_eq_ok, raiseIf_eq_ok, Guard.exists_unit] at hv
    obtain ⟨view, hview, -⟩ := buildDerivedViews_contract hwf (bare_nodes hs hprofile hparse) ⟨hv.1, hv.2.1⟩
      (leafSpans_ne_nil hdp hl) (by rw [contractText_eq hdp]; exact hfit) (contractText_idem hdp)
    exact hfail p [view] hparse (buildRows_eq_ok.2 ⟨hview, by simp⟩)

end

end CardRag
