import CardRag.Structure.Drafts

/-! # The invariant of the line loop

`Inv`: the drafts are well formed, every index the state keeps points at a draft of the right type,
and links point backwards. Each primitive of the parser keeps it, so each line does, so every run
does. -/

namespace CardRag

namespace ParserState

structure Inv (H : Sha256) (isBoiler : SourceLine → Bool) (seen done : List SourceLine)
    (st : ParserState) : Prop where
  drafts : DraftsOk H isBoiler seen done st.drafts
  leafOrder : st.leafIndices.Pairwise (· < ·)
  leafBound : ∀ i ∈ st.leafIndices, i < st.drafts.length
  major : ∀ m ∈ st.currentMajor, HasType st.drafts m .majorSection
  item : ∀ i ∈ st.currentItem, HasType st.drafts i .item
  table : ∀ t ∈ st.currentTable, HasType st.drafts t .table
  lastTable : ∀ t ∈ st.pageLastTable, HasType st.drafts t .table
  prevTable : ∀ t ∈ st.previousPageLastTable, HasType st.drafts t .table
  lastSemantic : ∀ i ∈ st.pageLastSemantic, i < st.drafts.length
  prevSemantic : ∀ i ∈ st.previousPageLastSemantic, i < st.drafts.length
  reference : ∀ i ∈ st.previousReferenceLeaf, i < st.drafts.length
  benefit : ∀ i ∈ st.benefitItemIndices, i < st.drafts.length
  links : ∀ l ∈ st.linkDrafts, l.toIndex < l.fromIndex ∧ l.fromIndex < st.drafts.length

theorem mem_continuationLinks {st : ParserState} {index : Nat} {continues : Bool} {k : LinkDraft}
    (hk : k ∈ st.continuationLinks index continues) :
    k.fromIndex = index ∧ k.toIndex ∈ st.previousPageLastSemantic := by
  unfold continuationLinks at hk
  split at hk
  · rename_i previous hprev
    split at hk
    · rw [List.mem_singleton.1 hk]
      exact ⟨rfl, hprev⟩
    · simp at hk
  · simp at hk

theorem mem_referenceLinks {st : ParserState} {leaf : Nat} {nodeType : NodeType} {nodeClass : MajorClass}
    {isHeading : Bool} {k : LinkDraft} (hk : k ∈ st.referenceLinks leaf nodeType nodeClass isHeading) :
    k.fromIndex = leaf ∧ k.toIndex ∈ st.previousReferenceLeaf := by
  unfold referenceLinks at hk
  split at hk
  · rename_i reference href
    split at hk
    · rcases List.mem_pair.1 hk with rfl | rfl <;> exact ⟨rfl, href⟩
    · split at hk
      · rw [List.mem_singleton.1 hk]
        exact ⟨rfl, href⟩
      · simp at hk
  · simp at hk

@[simp] theorem drafts_addNode (st : ParserState) (d : NodeDraft) : (st.addNode d).drafts = st.drafts ++ [d] := rfl

@[simp] theorem drafts_addLinks (st : ParserState) (ls : List LinkDraft) : (st.addLinks ls).drafts = st.drafts := rfl

theorem hasType_addNode (st : ParserState) (d : NodeDraft) :
    HasType (st.addNode d).drafts st.drafts.length d.nodeType :=
  ⟨d, by simp, rfl⟩

theorem length_lt_addNode (st : ParserState) (d : NodeDraft) : st.drafts.length < (st.addNode d).drafts.length := by
  simp

namespace Inv

variable {H : Sha256} {isBoiler : SourceLine → Bool} {seen seen' done done' : List SourceLine}
  {st : ParserState} {d : NodeDraft} {l : SourceLine}

theorem init (H : Sha256) (isBoiler : SourceLine → Bool) : Inv H isBoiler [] [] {} := by
  refine ⟨DraftsOk.init H isBoiler, ?_, ?_, ?_, ?_, ?_, ?_, ?_, ?_, ?_, ?_, ?_, ?_⟩ <;> simp

/-- The drafts of a state may be extended. -/
theorem extend (h : Inv H isBoiler seen done st) {ds : List NodeDraft} (he : Extends st.drafts ds)
    (hd : DraftsOk H isBoiler seen' done' ds) : Inv H isBoiler seen' done' { st with drafts := ds } where
  drafts := hd
  leafOrder := h.leafOrder
  leafBound i hi := lt_of_lt_of_le (h.leafBound i hi) he.length
  major m hm := he.type _ _ (h.major m hm)
  item i hi := he.type _ _ (h.item i hi)
  table t ht := he.type _ _ (h.table t ht)
  lastTable t ht := he.type _ _ (h.lastTable t ht)
  prevTable t ht := he.type _ _ (h.prevTable t ht)
  lastSemantic i hi := lt_of_lt_of_le (h.lastSemantic i hi) he.length
  prevSemantic i hi := lt_of_lt_of_le (h.prevSemantic i hi) he.length
  reference i hi := lt_of_lt_of_le (h.reference i hi) he.length
  benefit i hi := lt_of_lt_of_le (h.benefit i hi) he.length
  links l hl := ⟨(h.links l hl).1, lt_of_lt_of_le (h.links l hl).2 he.length⟩

theorem see (h : Inv H isBoiler seen done st) (l : SourceLine) : Inv H isBoiler (seen ++ [l]) done st :=
  { h with drafts := h.drafts.see l }

theorem closeTable (h : Inv H isBoiler seen done st) :
    Inv H isBoiler seen done { st with currentTable := none } :=
  { h with table := by simp }

theorem add_container (h : Inv H isBoiler seen done st) (hd : DraftOk H seen st.drafts st.drafts.length d)
    (ht : d.nodeType.isLeaf = false) : Inv H isBoiler seen done (st.addNode d) := by
  have := h.extend (Extends.append _ d) (h.drafts.append_container hd ht)
  simpa [addNode, ht] using this

theorem add_leaf (h : Inv H isBoiler seen done st) (hd : DraftOk H seen st.drafts st.drafts.length d)
    (ht : d.nodeType.isLeaf = true) (hl : LeafOf H isBoiler d l) :
    Inv H isBoiler seen (done ++ [l]) (st.addNode d) := by
  have h1 := h.extend (Extends.append _ d) (h.drafts.append_leaf hd ht hl)
  have h2 : (st.leafIndices ++ [st.drafts.length]).Pairwise (· < ·) :=
    List.pairwise_append.2 ⟨h.leafOrder, List.pairwise_singleton _ _,
      fun i hi j hj => by rw [List.mem_singleton.1 hj]; exact h.leafBound i hi⟩
  have h3 : ∀ i ∈ st.leafIndices ++ [st.drafts.length], i < (st.drafts ++ [d]).length := by
    intro i hi
    rcases List.mem_append.1 hi with hi | hi
    · exact h1.leafBound i hi
    · simp [List.mem_singleton.1 hi]
  simpa [addNode, ht] using
    (show Inv H isBoiler seen (done ++ [l])
      { st with drafts := st.drafts ++ [d], leafIndices := st.leafIndices ++ [st.drafts.length] } from
      { h1 with leafOrder := h2, leafBound := h3 })

theorem add_links (h : Inv H isBoiler seen done st) (ls : List LinkDraft)
    (hl : ∀ l ∈ ls, l.toIndex < l.fromIndex ∧ l.fromIndex < st.drafts.length) :
    Inv H isBoiler seen done (st.addLinks ls) :=
  { h with links := fun l hm => (List.mem_append.1 hm).elim (h.links l) (hl l) }

theorem set_table (h : Inv H isBoiler seen done st) {t : Nat} (ht : HasType st.drafts t .table) :
    Inv H isBoiler seen done { st with currentTable := some t } :=
  { h with table := by rintro _ ⟨⟩; exact ht }

theorem set_major (h : Inv H isBoiler seen done st) {m : Nat} (hm : HasType st.drafts m .majorSection) :
    Inv H isBoiler seen done { st with currentMajor := some m, currentItem := none } :=
  { h with major := by rintro _ ⟨⟩; exact hm, item := by simp }

theorem set_item (h : Inv H isBoiler seen done st) {i : Nat} (hi : HasType st.drafts i .item) :
    Inv H isBoiler seen done { st with currentItem := some i } :=
  { h with item := by rintro _ ⟨⟩; exact hi }

theorem note_benefit (h : Inv H isBoiler seen done st) {i : Nat} (hi : i < st.drafts.length) (c : MajorClass) :
    Inv H isBoiler seen done
      { st with
        benefitItemIndices :=
          if c.isBenefit then st.benefitItemIndices ++ [i] else st.benefitItemIndices } :=
  { h with
    benefit := fun j hj => by
      dsimp only at hj
      split at hj
      · rcases List.mem_append.1 hj with hj | hj
        · exact h.benefit j hj
        · rw [List.mem_singleton.1 hj]; exact hi
      · exact h.benefit j hj }

/-- The section the next item hangs under. -/
theorem section_parent (h : Inv H isBoiler seen done st) : ∃ parent,
    st.drafts[st.currentMajor.getD 0]? = some parent ∧
      (parent.nodeType = .root ∨ parent.nodeType = .majorSection) := by
  cases hm : st.currentMajor with
  | none => exact ⟨rootDraft, h.drafts.root, .inl rfl⟩
  | some m =>
    obtain ⟨d, hd, ht⟩ := h.major m hm
    exact ⟨d, hd, .inr ht⟩

theorem ensureItem (h : Inv H isBoiler seen done st) : Inv H isBoiler seen done st.ensureItem := by
  unfold ParserState.ensureItem
  split
  · exact h
  · obtain ⟨parent, hp, ht⟩ := h.section_parent
    have hd : DraftOk H seen st.drafts st.drafts.length
        { parentIndex := some (st.currentMajor.getD 0), nodeType := .item,
          majorClass := (st.draft (st.currentMajor.getD 0)).majorClass } :=
      ⟨⟨_, parent, [], (List.getElem?_eq_some_iff.1 hp).1, rfl, hp, List.nil_sublist _, rfl, by simp [NodeType.isLeaf],
        ht⟩, rfl, rfl, rfl⟩
    exact ((h.add_container hd rfl).set_item (hasType_addNode st _)).note_benefit (length_lt_addNode st _) _

theorem item_ensureItem (h : Inv H isBoiler seen done st) :
    HasType st.ensureItem.drafts st.ensureItem.item .item := by
  have hi := h.ensureItem.item
  have hsome : ∃ i, st.ensureItem.currentItem = some i := by
    unfold ParserState.ensureItem
    split
    · rename_i i hi; exact ⟨i, hi⟩
    · exact ⟨_, rfl⟩
  obtain ⟨i, hs⟩ := hsome
  simpa [ParserState.item, hs] using hi i hs

/-! ### Lines -/

theorem boilerplateLine (h : Inv H isBoiler done done st) (hl : isBoiler l = true) :
    Inv H isBoiler (done ++ [l]) (done ++ [l]) (st.boilerplateLine H l) := by
  refine (h.closeTable.see l).add_leaf ⟨⟨0, rootDraft, [l], h.drafts.length_pos, rfl, h.drafts.root,
    List.sublist_append_right _ _, rfl, fun _ => rfl, rfl⟩, rfl, rfl, rfl⟩ rfl ⟨rfl, by simp [hl]⟩

theorem blankLine (h : Inv H isBoiler done done st) (hl : isBoiler l = false)
    (hblank : PyStr.strip l.visible = []) :
    Inv H isBoiler (done ++ [l]) (done ++ [l]) (st.blankLine H l) := by
  have hparent : ∃ parent, st.drafts[st.currentItem.getD (st.currentMajor.getD 0)]? = some parent ∧
      (parent.nodeType = .item ∨ parent.nodeType = .root ∨ parent.nodeType = .majorSection) := by
    cases hi : st.currentItem with
    | some i =>
      obtain ⟨d, hd, ht⟩ := h.item i hi
      exact ⟨d, hd, .inl ht⟩
    | none =>
      obtain ⟨d, hd, ht⟩ := h.section_parent
      exact ⟨d, hd, .inr ht⟩
  obtain ⟨parent, hp, ht⟩ := hparent
  exact (h.closeTable.see l).add_leaf ⟨⟨_, parent, [l], (List.getElem?_eq_some_iff.1 hp).1, rfl, hp,
    List.sublist_append_right _ _, rfl, fun _ => rfl, ht.imp_right fun ht => ⟨ht, by simpa using hblank⟩⟩,
    rfl, rfl, rfl⟩ rfl
    ⟨rfl, by simp [hl]⟩

/-- A line of substance leaves its mark on the page. -/
theorem mark_semantic (h : Inv H isBoiler seen done st) (leaf : Nat) (hl : leaf < st.drafts.length)
    {table reference : Option Nat} (ht : ∀ t ∈ table, HasType st.drafts t .table)
    (hr : ∀ i ∈ reference, i < st.drafts.length) :
    Inv H isBoiler seen done
      { st with
        pageFirstSemantic := false
        pageLastSemantic := some leaf
        pageLastTable := table
        previousReferenceLeaf := reference } :=
  { h with
    lastSemantic := by rintro i ⟨⟩; exact hl
    lastTable := ht
    reference := hr }

/-- The leaf of a line outside tables. -/
theorem addLeaf (h : Inv H isBoiler seen done st) {parent : Nat} {nodeType : NodeType}
    {nodeClass : MajorClass} {isHeading : Bool}
    (hd : DraftOk H seen st.drafts st.drafts.length
      { parentIndex := some parent, nodeType := nodeType, majorClass := nodeClass, spans := [l.span H] })
    (ht : nodeType.isLeaf = true) (hb : nodeType ≠ .boilerplate) (hl : isBoiler l = false) :
    Inv H isBoiler seen (done ++ [l]) (st.addLeaf H l parent nodeType nodeClass isHeading) := by
  have h1 := h.add_leaf (l := l) hd ht ⟨rfl, by simp [hb, hl]⟩
  have hlen : st.drafts.length < (st.addNode
      { parentIndex := some parent, nodeType := nodeType, majorClass := nodeClass,
        spans := [l.span H] }).drafts.length := by simp [addNode]
  -- the new leaf is the last draft, so its links point backwards
  have h2 := h1.add_links (st.continuationLinks st.drafts.length (!isHeading)) fun k hk => by
    obtain ⟨hfrom, hto⟩ := mem_continuationLinks hk
    exact ⟨hfrom ▸ h.prevSemantic _ hto, hfrom ▸ hlen⟩
  have h3 := h2.add_links (((st.addNode
      { parentIndex := some parent, nodeType := nodeType, majorClass := nodeClass,
        spans := [l.span H] }).addLinks (st.continuationLinks st.drafts.length (!isHeading))).referenceLinks
      st.drafts.length nodeType nodeClass isHeading) fun k hk => by
    obtain ⟨hfrom, hto⟩ := mem_referenceLinks hk
    exact ⟨hfrom ▸ h.reference _ hto, hfrom ▸ hlen⟩
  refine h3.mark_semantic _ hlen (by simp) ?_
  split
  · exact h3.reference
  · rintro i ⟨⟩
    exact hlen

theorem openTable (h : Inv H isBoiler seen done st) (continued : Bool)
    (hc : continued = true → st.previousPageLastTable.isSome = true) :
    Inv H isBoiler seen done (st.openTable continued) := by
  have h1 := h.ensureItem
  obtain ⟨item, hitem, htype⟩ := h.item_ensureItem
  have hd : DraftOk H seen st.ensureItem.drafts st.ensureItem.drafts.length
      { parentIndex := some st.ensureItem.item, nodeType := .table,
        majorClass := (st.ensureItem.draft st.ensureItem.item).majorClass,
        tableHeaders := if continued then
          (st.ensureItem.draft (st.ensureItem.previousPageLastTable.getD 0)).tableHeaders else [] } :=
    ⟨⟨_, item, [], (List.getElem?_eq_some_iff.1 hitem).1, rfl, hitem, List.nil_sublist _, rfl,
      by simp [NodeType.isLeaf], htype⟩, rfl, rfl⟩
  refine ((h1.add_container hd rfl).set_table (hasType_addNode _ _)).add_links _ fun k hk => ?_
  split at hk
  · rename_i hcont
    obtain ⟨previous, hprev⟩ := Option.isSome_iff_exists.1 (hc hcont)
    have hprev' : st.ensureItem.previousPageLastTable = some previous := by
      unfold ParserState.ensureItem; split <;> exact hprev
    rw [List.mem_singleton.1 hk, hprev']
    exact ⟨(h1.prevTable previous hprev').lt, length_lt_addNode _ _⟩
  · simp at hk

theorem addRow (h : Inv H isBoiler done done st) {table : Nat} (ht : HasType st.drafts table .table)
    (hl : isBoiler l = false) {continued : Bool} :
    Inv H isBoiler (done ++ [l]) (done ++ [l]) (st.addRow H table l continued) := by
  unfold ParserState.addRow
  dsimp only
  generalize rowRole (st.draft table).tableHeaders (tableCells l.visible) = kind
  obtain ⟨headers, role⟩ := kind
  have he : Extends st.drafts (st.extendTable H table l headers).drafts :=
    Extends.modify _ _ fun _ => rfl
  have h1 : Inv H isBoiler (done ++ [l]) done (st.extendTable H table l headers) :=
    h.extend he (h.drafts.extend_table ht l headers)
  obtain ⟨t, hget, htype⟩ := he.type _ _ ht
  have h2 := h1.add_leaf (l := l) (d :=
    { parentIndex := some table, nodeType := .tableRow,
      majorClass := ((st.extendTable H table l headers).draft table).majorClass, spans := [l.span H],
      tableHeaders := headers, tableCells := tableCells l.visible, tableRole := some role })
    ⟨⟨table, t, [l], (List.getElem?_eq_some_iff.1 hget).1, rfl, hget, List.sublist_append_right _ _, rfl,
      fun _ => rfl, htype⟩, by simp, tableCells_ne_nil _⟩ rfl ⟨rfl, by simp [hl]⟩
  have h3 := h2.add_links (ParserState.continuationLinks _ _ continued) fun k hk => by
    obtain ⟨hfrom, hto⟩ := mem_continuationLinks hk
    exact ⟨hfrom ▸ h1.prevSemantic _ hto, hfrom ▸ length_lt_addNode _ _⟩
  refine h3.mark_semantic (st.extendTable H table l headers).drafts.length
    (length_lt_addNode _ _) ?_ ?_
  · rintro _ ⟨⟩
    exact (Extends.append _ _).type _ _ (he.type _ _ ht)
  · rintro _ ⟨⟩
    exact length_lt_addNode _ _

theorem tableLine (h : Inv H isBoiler done done st) (hl : isBoiler l = false) {declares : Bool} :
    Inv H isBoiler (done ++ [l]) (done ++ [l]) (st.tableLine H declares l) := by
  unfold ParserState.tableLine
  split
  · rename_i table ht
    exact h.addRow (h.table table ht) hl
  · have h1 := h.openTable
      (st.pageFirstSemantic && st.previousPageLastTable.isSome && !declares) (by simp +contextual)
    exact h1.addRow (h1.table _ rfl) hl

variable {U : Unicode} {profile : IssuerParserProfile}

theorem majorHeading (h : Inv H isBoiler done done st) (hl : isBoiler l = false) :
    Inv H isBoiler (done ++ [l]) (done ++ [l]) (st.majorHeading H U profile l) := by
  have h1 := (h.see l).add_container (d :=
    { parentIndex := some 0, nodeType := .majorSection, majorClass := CardRag.majorClass U l.visible profile,
      rawHeading := some l.visible, spans := [(l.span H).withOrdinal 0 (some false)] })
    ⟨⟨0, rootDraft, [l], h.drafts.length_pos, rfl, h.drafts.root, List.sublist_append_right _ _, rfl,
      fun _ => rfl, rfl⟩, rfl, rfl, rfl⟩ rfl
  have h2 := (h1.set_major (hasType_addNode st _)).add_links
    (if (CardRag.majorClass U l.visible profile).isNotice then
      st.benefitItemIndices.map fun benefit => ⟨st.drafts.length, benefit, .appliesTo⟩ else []) fun k hk => by
    split at hk
    · obtain ⟨benefit, hb, rfl⟩ := List.mem_map.1 hk
      exact ⟨h.benefit benefit hb, length_lt_addNode _ _⟩
    · simp at hk
  exact h2.addLeaf ⟨⟨st.drafts.length, _, [l], length_lt_addNode _ _, rfl, List.getElem?_concat_length,
    List.sublist_append_right _ _, rfl, fun _ => rfl, .inr ⟨rfl, by simp, rfl⟩⟩, rfl, rfl, rfl⟩ rfl (by simp) hl

theorem itemHeading (h : Inv H isBoiler done done st) (hl : isBoiler l = false) :
    Inv H isBoiler (done ++ [l]) (done ++ [l]) (st.itemHeading H U profile l) := by
  obtain ⟨parent, hp, ht⟩ := h.section_parent
  have h1 := (h.see l).add_container (d :=
    { parentIndex := some (st.currentMajor.getD 0), nodeType := .item,
      majorClass := inheritedClass U l.visible profile (st.draft (st.currentMajor.getD 0)).majorClass,
      rawHeading := some l.visible, spans := [(l.span H).withOrdinal 0 (some false)] })
    ⟨⟨_, parent, [l], (List.getElem?_eq_some_iff.1 hp).1, rfl, hp, List.sublist_append_right _ _, rfl,
      fun _ => rfl, ht⟩, rfl, rfl, rfl⟩ rfl
  have h2 := (h1.set_item (hasType_addNode st _)).add_links
    (if (inheritedClass U l.visible profile (st.draft (st.currentMajor.getD 0)).majorClass).isNotice &&
        !(st.draft (st.currentMajor.getD 0)).majorClass.isNotice then
      st.benefitItemIndices.getLast?.toList.map fun prior => ⟨st.drafts.length, prior, .appliesTo⟩
      else []) fun k hk => by
    split at hk
    · obtain ⟨prior, hb, rfl⟩ := List.mem_map.1 hk
      exact ⟨h.benefit prior (List.mem_of_getLast? (by simpa using hb)), length_lt_addNode _ _⟩
    · simp at hk
  have h3 := h2.note_benefit (i := st.drafts.length) (length_lt_addNode _ _)
    (inheritedClass U l.visible profile (st.draft (st.currentMajor.getD 0)).majorClass)
  exact h3.addLeaf ⟨⟨st.drafts.length, _, [l], length_lt_addNode _ _, rfl, List.getElem?_concat_length,
    List.sublist_append_right _ _, rfl, fun _ => rfl, .inl rfl⟩, rfl, rfl, rfl⟩ rfl (by simp) hl

theorem plainType_cases (U : Unicode) (visible : Str) (inherited ownClass : MajorClass) :
    plainType U visible inherited ownClass = .footnote ∨ plainType U visible inherited ownClass = .listItem ∨
      plainType U visible inherited ownClass = .paragraph ∨
      plainType U visible inherited ownClass = .unclassified := by
  unfold plainType
  split
  · exact .inl rfl
  · split
    · exact .inr (.inl rfl)
    · split
      · exact .inr (.inr (.inl rfl))
      · exact .inr (.inr (.inr rfl))

theorem plainLine (h : Inv H isBoiler done done st) (hl : isBoiler l = false) :
    Inv H isBoiler (done ++ [l]) (done ++ [l]) (st.plainLine H U profile l) := by
  obtain ⟨item, hitem, htype⟩ := h.item_ensureItem
  unfold ParserState.plainLine
  dsimp only
  have hleaf := plainType_cases U l.visible (st.ensureItem.draft st.ensureItem.item).majorClass
    (CardRag.majorClass U l.visible profile)
  generalize plainType U l.visible _ _ = nodeType at hleaf ⊢
  refine (h.ensureItem.see l).addLeaf ⟨⟨_, item, [l], (List.getElem?_eq_some_iff.1 hitem).1, rfl, hitem,
    List.sublist_append_right _ _, ?_, fun _ => rfl, ?_⟩, ?_⟩ ?_ ?_ hl
  all_goals
    rcases hleaf with rfl | rfl | rfl | rfl <;>
      simp [NodeDraft.Under, NodeDraft.MetaOk, NodeType.isLeaf, htype, lineSpans_singleton]

theorem textLine (h : Inv H isBoiler done done st) (hl : isBoiler l = false) :
    Inv H isBoiler (done ++ [l]) (done ++ [l]) (st.textLine H U profile l) := by
  unfold ParserState.textLine
  split
  · exact h.closeTable.majorHeading hl
  · exact h.closeTable.itemHeading hl
  · exact h.closeTable.plainLine hl

/-- One line of the loop. -/
theorem stepLine {boilerplate : List (Nat × Nat × Nat)} {rest : List SourceLine} {st' : ParserState}
    (h : Inv H (isBoilerplateLine boilerplate) done done st)
    (hstep : st.stepLine H U profile boilerplate l rest = .ok st') :
    Inv H (isBoilerplateLine boilerplate) (done ++ [l]) (done ++ [l]) st' := by
  simp only [ParserState.stepLine, Guard.bind_eq_ok, raiseIf_eq_ok, Guard.exists_unit] at hstep
  obtain ⟨-, hstep⟩ := hstep
  split at hstep
  · rename_i hb
    simp only [Guard.pure_eq_ok] at hstep
    exact hstep ▸ h.boilerplateLine (by simpa [isBoilerplateLine] using hb)
  · rename_i hb
    have hl : isBoilerplateLine boilerplate l = false := by simpa [isBoilerplateLine] using hb
    split at hstep
    · rename_i hblank
      simp only [Guard.pure_eq_ok] at hstep
      exact hstep ▸ h.blankLine hl hblank
    · split at hstep <;> simp only [Guard.pure_eq_ok] at hstep
      · exact hstep ▸ h.tableLine hl
      · exact hstep ▸ h.textLine hl

theorem stepLines {boilerplate : List (Nat × Nat × Nat)} {lines : List SourceLine} {st' : ParserState}
    (h : Inv H (isBoilerplateLine boilerplate) done done st)
    (hstep : ParserState.stepLines H U profile boilerplate st lines = .ok st') :
    Inv H (isBoilerplateLine boilerplate) (done ++ lines) (done ++ lines) st' := by
  induction lines generalizing st done with
  | nil =>
    simp only [ParserState.stepLines, Guard.pure_eq_ok] at hstep
    simpa [← hstep] using h
  | cons l rest ih =>
    simp only [ParserState.stepLines, Guard.bind_eq_ok] at hstep
    obtain ⟨st1, h1, h2⟩ := hstep
    simpa using ih (h.stepLine h1) h2

theorem stepPage {boilerplate : List (Nat × Nat × Nat)} {lines : List SourceLine} {st' : ParserState}
    (h : Inv H (isBoilerplateLine boilerplate) done done st)
    (hstep : ParserState.stepPage H U profile boilerplate st lines = .ok st') :
    Inv H (isBoilerplateLine boilerplate) (done ++ lines) (done ++ lines) st' := by
  simp only [ParserState.stepPage, Guard.bind_eq_ok] at hstep
  obtain ⟨st1, h1, h2⟩ := hstep
  have h0 : Inv H (isBoilerplateLine boilerplate) done done
      { st with
        pageFirstSemantic := true, pageLastSemantic := none, pageLastTable := none,
        currentTable := none } :=
    { h with table := by simp, lastTable := by simp, lastSemantic := by simp }
  have hi := h0.stepLines h1
  split at h2 <;> simp only [Guard.pure_eq_ok] at h2
  · rename_i last hlast
    rw [← h2]
    refine { hi with prevSemantic := ?_, prevTable := hi.lastTable }
    rintro _ ⟨⟩
    exact hi.lastSemantic last hlast
  · exact h2 ▸ hi

end Inv

end ParserState

/-- The invariant of a finished line loop. -/
theorem parseDrafts_inv {H : Sha256} {U : Unicode} {inp : StructureInput} {profile : IssuerParserProfile}
    {st : ParserState} (h : parseDrafts H U inp profile = .ok st) :
    st.Inv H (isBoilerplateLine (repeatedEdgeLines U (inp.pages.map sourceLines) profile))
      (allLines inp.pages) (allLines inp.pages) := by
  have hrun : ∀ (pages : List (List SourceLine)) boilerplate done st st',
      ParserState.Inv H (isBoilerplateLine boilerplate) done done st →
      pages.foldlM (ParserState.stepPage H U profile boilerplate) st = .ok st' →
      ParserState.Inv H (isBoilerplateLine boilerplate) (done ++ pages.flatten) (done ++ pages.flatten) st' := by
    intro pages boilerplate
    induction pages with
    | nil =>
      intro done st st' hi hs
      simp only [List.foldlM_nil, Guard.pure_eq_ok] at hs
      simpa [← hs] using hi
    | cons lines pages ih =>
      intro done st st' hi hs
      simp only [List.foldlM_cons, Guard.bind_eq_ok] at hs
      obtain ⟨st1, h1, h2⟩ := hs
      simpa using ih _ _ _ (hi.stepPage h1) h2
  simpa [allLines, List.flatMap_def] using hrun _ _ _ _ _ (ParserState.Inv.init H _) h

end CardRag
