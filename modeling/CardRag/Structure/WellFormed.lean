import CardRag.Structure.Lines

/-! # What the structure validator accepts

`WellFormed H a` states, as one proposition, what `validate_structure_artifact` checks of `a`, and
`validate_ok_iff` says that it returns exactly on the well-formed artifacts. The node loop and the
coverage loop are read back by the lemmas before it. -/

namespace CardRag

/-- A span that lies on its page at line boundaries and carries the digest of its text. -/
structure SpanOk (H : Sha256) (pages : List StructurePage) (s : NodeSpan) (page : StructurePage) :
    Prop where
  page_eq : pageByNumber pages s.page = some page
  start_lt : s.sourceStart < s.sourceEnd
  end_le : s.sourceEnd ≤ page.text.length
  start_mem : s.sourceStart ∈ boundaryStarts page.text
  end_mem : s.sourceEnd ∈ boundaryEnds page.text
  hash : H.hexdigest (PyStr.slice page.text s.sourceStart s.sourceEnd) = s.textSha256

theorem validateSpan_ok_iff {H : Sha256} {pages : List StructurePage} {s : NodeSpan} :
    validateSpan H pages s = .ok () ↔ ∃ page, SpanOk H pages s page := by
  unfold validateSpan
  split
  · rename_i h
    refine ⟨fun h => by simp [Guard.throw_ne_ok] at h, fun ⟨page, hp⟩ => ?_⟩
    rw [hp.page_eq] at h; cases h
  · rename_i page h
    simp only [Guard.bind_eq_ok, raiseIf_eq_ok, Guard.exists_unit, not_not, not_or]
    constructor
    · rintro ⟨⟨h1, h2⟩, ⟨h3, h4⟩, h5⟩
      exact ⟨page, h, h1, h2, h3, h4, h5⟩
    · rintro ⟨page', hp⟩
      obtain rfl : page = page' := by have := hp.page_eq; rw [h] at this; exact Option.some.inj this
      exact ⟨⟨hp.start_lt, hp.end_le⟩, ⟨hp.start_mem, hp.end_mem⟩, hp.hash⟩

namespace StructureArtifact

/-- The table metadata of a node. -/
def TableOk (a : StructureArtifact) (node : StructureNode) : Prop :=
  match node.nodeType with
  | .tableRow => ∃ table, node.parentId.bind (nodeById a.nodes) = some table ∧ table.nodeType = .table ∧
      node.tableHeaders = table.tableHeaders ∧ node.tableRole ≠ none ∧ node.tableCells ≠ []
  | .table => node.tableCells = [] ∧ node.tableRole = none
  | _ => node.tableHeaders = [] ∧ node.tableCells = [] ∧ node.tableRole = none

structure NodeOk (H : Sha256) (a : StructureArtifact) (node : StructureNode) (i : Nat) : Prop where
  ordinal : node.ordinal = i
  revision : node.contractRevisionId = a.contractRevisionId
  parent : node.nodeType ≠ .root → ∃ parent, node.parentId.bind (nodeById a.nodes) = some parent ∧
    parent.contractRevisionId = node.contractRevisionId ∧ parent.ordinal < node.ordinal
  spanOrdinals : node.spans.map (·.spanOrdinal) = List.range node.spans.length
  positions : node.spans.Pairwise (fun s t => s.position ≤ t.position)
  spans : ∀ s ∈ node.spans, ∃ page, SpanOk H a.pages s page
  display : node.displayText = node.spans.flatMap (spanText a.pages)
  canonical : ∀ s ∈ node.spans, s.isCanonical = node.nodeType.isLeaf
  table : a.TableOk node

variable {H : Sha256} {a : StructureArtifact}

theorem validateParent_ok_iff {node : StructureNode} :
    a.validateParent node = .ok () ↔ (node.nodeType ≠ .root →
      ∃ parent, node.parentId.bind (nodeById a.nodes) = some parent ∧
        parent.contractRevisionId = node.contractRevisionId ∧ parent.ordinal < node.ordinal) := by
  unfold validateParent
  split
  · rename_i h; simp [h, pure, Except.pure]
  · rename_i h
    split
    · rename_i hp; simp [h, hp, Guard.throw_ne_ok]
    · rename_i parent hp
      simp only [Guard.bind_eq_ok, raiseIf_eq_ok, Guard.exists_unit, not_not, not_le]
      constructor
      · rintro ⟨h1, h2⟩ -
        exact ⟨parent, hp, h1, h2⟩
      · intro h'
        obtain ⟨parent', hp', h1, h2⟩ := h' h
        rw [hp] at hp'
        cases hp'
        exact ⟨h1, h2⟩

theorem validateTable_ok_iff {node : StructureNode} :
    a.validateTable node = .ok () ↔ a.TableOk node := by
  unfold validateTable TableOk
  cases node.nodeType <;> dsimp only
  case tableRow =>
    split
    · rename_i hp; simp [hp, Guard.throw_ne_ok]
    · rename_i table hp
      simp only [hp, Guard.bind_eq_ok, raiseIf_eq_ok, Guard.exists_unit, not_not, not_or,
        Option.some.injEq, exists_eq_left', ne_eq]
  all_goals simp

theorem validateSpans_ok_iff {node : StructureNode} :
    a.validateSpans H node = .ok () ↔
      node.spans.map (·.spanOrdinal) = List.range node.spans.length ∧
      node.spans.Pairwise (fun s t => s.position ≤ t.position) ∧
      (∀ s ∈ node.spans, ∃ page, SpanOk H a.pages s page) ∧
      node.displayText = node.spans.flatMap (spanText a.pages) ∧
      (∀ s ∈ node.spans, s.isCanonical = node.nodeType.isLeaf) := by
  unfold validateSpans
  have hflag : (¬ (node.nodeType.isLeaf = true ∧ ∃ s ∈ node.spans, s.isCanonical = false) ∧
      ¬ (node.nodeType.isLeaf = false ∧ ∃ s ∈ node.spans, s.isCanonical = true)) ↔
      ∀ s ∈ node.spans, s.isCanonical = node.nodeType.isLeaf := by
    cases node.nodeType.isLeaf <;> simp
  simp only [Guard.bind_eq_ok, raiseIf_eq_ok, Guard.exists_unit, not_not, Guard.forM_eq_ok,
    validateSpan_ok_iff, PyList.eq_sortedBy_iff, List.pairwise_map, id_eq, hflag]

theorem validateNode_ok_iff {node : StructureNode} {i : Nat} :
    a.validateNode H node i = .ok () ↔ a.NodeOk H node i := by
  unfold validateNode
  simp only [Guard.bind_eq_ok, raiseIf_eq_ok, Guard.exists_unit, not_not,
    validateParent_ok_iff, validateSpans_ok_iff, validateTable_ok_iff]
  constructor
  · rintro ⟨h1, h2, h3, ⟨h4, h5, h6, h7, h8⟩, h9⟩
    exact ⟨h1, h2, h3, h4, h5, h6, h7, h8, h9⟩
  · rintro ⟨h1, h2, h3, h4, h5, h6, h7, h8, h9⟩
    exact ⟨h1, h2, h3, ⟨h4, h5, h6, h7, h8⟩, h9⟩

/-! ### The coverage loop -/

/-- The cells of the canonical leaves, in node order. -/
def leafCells (a : StructureArtifact) : List (Nat × Nat) := a.leafSpans.flatMap spanCells

/-- Whether the character at a cell counts as covered text. -/
def isTextCell (pages : List StructurePage) (cell : Nat × Nat) : Bool :=
  !PyStr.isSpace ((((pageByNumber pages cell.1).map (·.text)).getD []).getD cell.2 ' ')

def overlap : Raised := structureError "canonical leaf spans overlap"

theorem foldlM_markOffset {pages : List StructurePage} {cs : List (Nat × Nat)} {st st' : CoverageState} :
    cs.foldlM (markOffset pages) st = .ok st' ↔
      cs.foldlM (Bitmap.mark overlap) st.coverage = .ok st'.coverage ∧
      st'.coveredCharacters = st.coveredCharacters + cs.length ∧
      st'.coveredNonWhitespace = st.coveredNonWhitespace + cs.countP (isTextCell pages) := by
  induction cs generalizing st with
  | nil =>
    obtain ⟨c, n, w⟩ := st
    obtain ⟨c', n', w'⟩ := st'
    simp [pure, Except.pure, eq_comm]
  | cons cell cs ih =>
    have hstep : ∀ st₁, markOffset pages st cell = .ok st₁ ↔
        Bitmap.mark overlap st.coverage cell = .ok st₁.coverage ∧
        st₁.coveredCharacters = st.coveredCharacters + 1 ∧
        st₁.coveredNonWhitespace =
          st.coveredNonWhitespace + if isTextCell pages cell = true then 1 else 0 := by
      intro st₁
      obtain ⟨c, n, w⟩ := st₁
      simp only [markOffset, Guard.bind_eq_ok, Guard.pure_eq_ok, CoverageState.mk.injEq, isTextCell,
        overlap, Bool.not_eq_true', ← Bool.not_eq_true, ite_not]
      constructor
      · rintro ⟨m, hm, rfl, rfl, rfl⟩; exact ⟨hm, rfl, rfl⟩
      · rintro ⟨hm, rfl, rfl⟩; exact ⟨c, hm, rfl, rfl, rfl⟩
    simp only [List.foldlM_cons, Guard.bind_eq_ok, hstep, ih, List.length_cons, List.countP_cons]
    constructor
    · rintro ⟨st₁, ⟨h1, h2, h3⟩, h4, h5, h6⟩
      exact ⟨⟨_, h1, h4⟩, by omega, by omega⟩
    · rintro ⟨⟨m, h1, h4⟩, h5, h6⟩
      exact ⟨⟨m, st.coveredCharacters + 1, _⟩, ⟨h1, rfl, rfl⟩, h4, by dsimp only; omega, by dsimp only; omega⟩

theorem foldlM_coverLeaf {leaves : List StructureNode} {st st' : CoverageState} :
    leaves.foldlM a.coverLeaf st = .ok st' ↔ (∀ leaf ∈ leaves, leaf.spans ≠ []) ∧
      ((leaves.flatMap (·.spans)).flatMap spanCells).foldlM (markOffset a.pages) st = .ok st' := by
  induction leaves generalizing st with
  | nil => simp
  | cons leaf leaves ih =>
    simp only [List.foldlM_cons, Guard.bind_eq_ok, coverLeaf, raiseIf_eq_ok, Guard.exists_unit,
      ih, List.flatMap_cons, List.flatMap_append, List.foldlM_append, List.forall_mem_cons]
    constructor
    · rintro ⟨st₁, ⟨h1, h2⟩, h3, h4⟩
      exact ⟨⟨h1, h3⟩, st₁, h2, h4⟩
    · rintro ⟨⟨h1, h3⟩, st₁, h2, h4⟩
      exact ⟨st₁, ⟨h1, h2⟩, h3, h4⟩

/-- The canonical leaves partition the pages. -/
structure Covered (a : StructureArtifact) : Prop where
  spans_ne : ∀ leaf ∈ a.leaves, leaf.spans ≠ []
  nodup : a.leafCells.Nodup
  full : ∀ page ∈ a.pages, ∀ i < page.text.length, (page.page, i) ∈ a.leafCells
  text : ∀ page ∈ a.pages, a.reconstructed page = page.text
  count : a.leafCells.countP (isTextCell a.pages) = sourceNonWhitespace a.pages

theorem bit_initialCoverage (pages : List StructurePage) (cell : Nat × Nat) :
    Bitmap.bit (initialCoverage pages) cell = false := by
  rw [Bitmap.bit, initialCoverage, List.getD_eq_getElem?_getD, List.getElem?_replicate]
  split <;> rfl

theorem validateCoverage_ok_iff
    (hbounds : ∀ c ∈ a.leafCells, c.2 < (initialCoverage a.pages c.1).length)
    (hpages : ∀ page ∈ a.pages, (initialCoverage a.pages page.page).length = page.text.length) :
    (∃ c, a.validateCoverage H = .ok c) ↔
      a.Covered ∧ ∀ node ∈ a.nodes, node.nodeId = nodeId H node := by
  have hcells : (a.leaves.flatMap (·.spans)).flatMap spanCells = a.leafCells := rfl
  simp only [validateCoverage, Guard.bind_eq_ok, raiseIf_eq_ok, Guard.forM_eq_ok,
    Guard.exists_unit, not_not, Guard.pure_eq_ok, foldlM_coverLeaf, foldlM_markOffset, hcells,
    Nat.zero_add, Bool.not_eq_true]
  -- after a marking that returns, a page is full exactly when its cells are leaf cells
  have hfull : ∀ m, a.leafCells.foldlM (Bitmap.mark overlap) (initialCoverage a.pages) = .ok m →
      ∀ page ∈ a.pages, (m page.page).any (!·) = false ↔
        ∀ i < page.text.length, (page.page, i) ∈ a.leafCells := by
    intro m hm page hp
    rw [Bitmap.any_not_eq_false_iff, Bitmap.length_of_foldlM_mark hm, hpages page hp]
    simp only [Bitmap.bit_of_foldlM_mark hbounds hm, bit_initialCoverage, Bool.or_false,
      decide_eq_true_eq]
  constructor
  · rintro ⟨c, st, ⟨hne, hm, -, hcount⟩, hpg, hnw, hids, -⟩
    have hmark := (Bitmap.foldlM_mark_eq_ok hbounds).1 ⟨_, hm⟩
    exact ⟨⟨hne, hmark.1, fun page hp => (hfull _ hm page hp).1 (hpg page hp).1,
      fun page hp => (hpg page hp).2, hcount ▸ hnw⟩, hids⟩
  · rintro ⟨⟨hne, hnd, hfl, htext, hcount⟩, hids⟩
    obtain ⟨m, hm⟩ := (Bitmap.foldlM_mark_eq_ok (e := overlap) hbounds).2
      ⟨hnd, fun c _ => bit_initialCoverage a.pages c⟩
    exact ⟨_, ⟨m, a.leafCells.length, _⟩, ⟨hne, hm, rfl, rfl⟩,
      fun page hp => ⟨(hfull m hm page hp).2 (hfl page hp), htext page hp⟩, hcount, hids, rfl⟩

/-! ### The artifact as a whole -/

structure LinkOk (a : StructureArtifact) (link : NodeLink) (i : Nat) : Prop where
  ordinal : link.ordinal = i
  ends : ∃ source target, nodeById a.nodes link.fromNodeId = some source ∧
    nodeById a.nodes link.toNodeId = some target ∧
    source.contractRevisionId = a.contractRevisionId ∧
    target.contractRevisionId = a.contractRevisionId ∧ source.nodeId ≠ target.nodeId

/-- What `validate_structure_artifact` accepts. -/
structure WellFormed (H : Sha256) (a : StructureArtifact) : Prop where
  identity : a.validateIdentity H = .ok ()
  pages : a.validatePages H = .ok ()
  ids : (a.nodes.map (·.nodeId)).Nodup
  root : ∃ root, a.nodes.filter (·.nodeType = .root) = [root] ∧ root.parentId = none ∧ root.ordinal = 0
  node : ∀ i node, a.nodes[i]? = some node → a.NodeOk H node i
  table : ∀ table ∈ a.nodes, table.nodeType = .table → childrenOf a.nodes table.nodeId ≠ [] ∧
    ∀ row ∈ childrenOf a.nodes table.nodeId, row.nodeType = .tableRow
  link : ∀ i link, a.links[i]? = some link → a.LinkOk link i
  covered : a.Covered
  nodeIds : ∀ node ∈ a.nodes, node.nodeId = nodeId H node

theorem validateRoot_ok_iff : a.validateRoot = .ok () ↔ (a.nodes.map (·.nodeId)).Nodup ∧
    ∃ root, a.nodes.filter (·.nodeType = .root) = [root] ∧ root.parentId = none ∧ root.ordinal = 0 := by
  unfold validateRoot
  simp only [Guard.bind_eq_ok, raiseIf_eq_ok, Guard.exists_unit, not_not]
  constructor
  · rintro ⟨-, hn, h⟩
    split at h
    · rename_i root hr
      simp only [Guard.bind_eq_ok, raiseIf_eq_ok, Guard.exists_unit, not_not] at h
      exact ⟨hn, root, hr, h⟩
    · simp [Guard.throw_ne_ok] at h
  · rintro ⟨hn, root, hr, h⟩
    refine ⟨fun h0 => by simp [h0] at hr, hn, ?_⟩
    rw [hr]
    simpa only [Guard.bind_eq_ok, raiseIf_eq_ok, Guard.exists_unit, not_not] using h

theorem validateNodes_ok_iff : a.validateNodes H = .ok () ↔
    (∀ i node, a.nodes[i]? = some node → a.NodeOk H node i) ∧
    ∀ table ∈ a.nodes, table.nodeType = .table → childrenOf a.nodes table.nodeId ≠ [] ∧
      ∀ row ∈ childrenOf a.nodes table.nodeId, row.nodeType = .tableRow := by
  have hloop : (∀ x ∈ a.nodes.zipIdx, a.validateNode H x.1 x.2 = .ok ()) ↔
      ∀ i node, a.nodes[i]? = some node → a.NodeOk H node i := by
    simp only [validateNode_ok_iff]
    exact ⟨fun h i node hn => h (node, i) (List.mk_mem_zipIdx_iff_getElem?.2 hn),
      fun h x hx => h x.2 x.1 (List.mk_mem_zipIdx_iff_getElem?.1 hx)⟩
  simp only [validateNodes, Guard.bind_eq_ok, Guard.forM_eq_ok, Guard.exists_unit,
    raiseIf_eq_ok, List.mem_filter, decide_eq_true_eq, hloop, not_or, not_exists, not_and, not_not,
    and_imp, ne_eq]

theorem validateLinks_ok_iff : a.validateLinks = .ok () ↔
    ∀ i link, a.links[i]? = some link → a.LinkOk link i := by
  simp only [validateLinks, Guard.forM_eq_ok]
  constructor
  · intro h i link hl
    have hlink := h (link, i) (List.mk_mem_zipIdx_iff_getElem?.2 hl)
    simp only [Guard.bind_eq_ok, raiseIf_eq_ok, Guard.exists_unit, not_not] at hlink
    obtain ⟨ho, hlink⟩ := hlink
    split at hlink
    · rename_i source target hs ht
      simp only [Guard.bind_eq_ok, raiseIf_eq_ok, Guard.exists_unit, not_or, not_not] at hlink
      exact ⟨ho, source, target, hs, ht, hlink.1.1, hlink.1.2, hlink.2⟩
    · simp [Guard.throw_ne_ok] at hlink
  · intro h x hx
    obtain ⟨ho, source, target, hs, ht, h1, h2, h3⟩ := h x.2 x.1 (List.mk_mem_zipIdx_iff_getElem?.1 hx)
    simp only [Guard.bind_eq_ok, raiseIf_eq_ok, Guard.exists_unit, not_not]
    refine ⟨ho, ?_⟩
    rw [hs, ht]
    simp only [Guard.bind_eq_ok, raiseIf_eq_ok, Guard.exists_unit, not_or, not_not]
    exact ⟨⟨h1, h2⟩, h3⟩

structure PagesOk (H : Sha256) (a : StructureArtifact) : Prop where
  ne_nil : a.pages ≠ []
  increasing : (a.pages.map (·.page)).Pairwise (· < ·)
  pos : ∀ page ∈ a.pages, 1 ≤ page.page
  hash : ∀ page ∈ a.pages, H.hexdigest page.text = page.textSha256
  source : a.sourceSha256 = sourceDigest H a.pages
  coverage : a.sourceCoverageSha256 = coverageDigest H a.pages
  count : a.sourceNonWhitespaceCharacters = sourceNonWhitespace a.pages

theorem validatePages_ok_iff : a.validatePages H = .ok () ↔ a.PagesOk H := by
  simp only [validatePages, Guard.bind_eq_ok, raiseIf_eq_ok, Guard.exists_unit, Guard.forM_eq_ok,
    not_not, not_or, not_exists, not_and, not_lt, PyList.eq_sortedSet_iff, List.forall_mem_map, ne_eq]
  constructor
  · rintro ⟨h1, ⟨h2, h3⟩, h4, h5, h6, h7⟩
    exact ⟨h1, h2, h3, h4, h5, h6, h7⟩
  · rintro ⟨h1, h2, h3, h4, h5, h6, h7⟩
    exact ⟨h1, ⟨h2, h3⟩, h4, h5, h6, h7⟩

theorem PagesOk.pageByNumber (h : a.PagesOk H) {page : StructurePage} (hp : page ∈ a.pages) :
    pageByNumber a.pages page.page = some page :=
  PyList.get?_dictOf_of_mem (h.increasing.imp ne_of_lt) hp

theorem PagesOk.length_initialCoverage (h : a.PagesOk H) {page : StructurePage} (hp : page ∈ a.pages) :
    (initialCoverage a.pages page.page).length = page.text.length := by
  simp [initialCoverage, h.pageByNumber hp]

theorem mem_leafSpans {s : NodeSpan} :
    s ∈ a.leafSpans ↔ ∃ node ∈ a.nodes, node.nodeType.isLeaf = true ∧ s ∈ node.spans := by
  simp [leafSpans, leaves, and_assoc]

theorem mem_leafCells {c : Nat × Nat} :
    c ∈ a.leafCells ↔ ∃ s ∈ a.leafSpans, c.1 = s.page ∧ s.sourceStart ≤ c.2 ∧ c.2 < s.sourceEnd := by
  simp [leafCells, spanCells, Bitmap.mem_cells]

theorem leafCells_bounds (h : ∀ i node, a.nodes[i]? = some node → a.NodeOk H node i) :
    ∀ c ∈ a.leafCells, c.2 < (initialCoverage a.pages c.1).length := by
  intro c hc
  obtain ⟨s, hs, hpage, -, hlt⟩ := mem_leafCells.1 hc
  obtain ⟨node, hn, -, hs⟩ := mem_leafSpans.1 hs
  obtain ⟨i, hi⟩ := List.getElem?_of_mem hn
  obtain ⟨page, hp⟩ := (h i node hi).spans s hs
  have := hp.end_le
  simp only [initialCoverage, hpage, hp.page_eq, Option.map_some, Option.getD_some,
    List.length_replicate]
  omega

theorem validate_ok_iff : (∃ c, validateStructureArtifact H a = .ok c) ↔ a.WellFormed H := by
  simp only [validateStructureArtifact, Guard.bind_eq_ok, Guard.exists_unit, exists_and_left,
    validateRoot_ok_iff, validateNodes_ok_iff, validateLinks_ok_iff]
  constructor
  · rintro ⟨hid, hpg, ⟨hnd, hroot⟩, ⟨hnode, htable⟩, hlink, hcov⟩
    have hP := validatePages_ok_iff.1 hpg
    rw [validateCoverage_ok_iff (leafCells_bounds hnode) fun _ => hP.length_initialCoverage] at hcov
    exact ⟨hid, hpg, hnd, hroot, hnode, htable, hlink, hcov.1, hcov.2⟩
  · intro h
    have hP := validatePages_ok_iff.1 h.pages
    refine ⟨h.identity, h.pages, ⟨h.ids, h.root⟩, ⟨h.node, h.table⟩, h.link, ?_⟩
    rw [validateCoverage_ok_iff (leafCells_bounds h.node) fun _ => hP.length_initialCoverage]
    exact ⟨h.covered, h.nodeIds⟩

end StructureArtifact

end CardRag
