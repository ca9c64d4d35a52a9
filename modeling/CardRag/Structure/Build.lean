import CardRag.Structure.Cover
import CardRag.Structure.Drafts

/-! # From drafts to an accepted artifact

`buildNodes` turns well-formed drafts into nodes; the validator accepts the artifact around them
exactly when every table row carries the headers of its table. The digests of the node payloads must
not collide. -/

namespace CardRag

/-- The node built from the draft at index `i`. -/
structure NodeOf (H : Sha256) (pages : List StructurePage) (revisionId : Str) (nodes : List StructureNode)
    (i : Nat) (d : NodeDraft) (n : StructureNode) : Prop where
  ordinal : n.ordinal = i
  revision : n.contractRevisionId = revisionId
  type : n.nodeType = d.nodeType
  cls : n.majorClass = d.majorClass
  heading : n.rawHeading = d.rawHeading
  spans : n.spans = d.spans
  display : n.displayText = draftText pages d.spans
  headers : n.tableHeaders = d.tableHeaders
  cells : n.tableCells = d.tableCells
  role : n.tableRole = d.tableRole
  id : n.nodeId = nodeId H n
  parent : n.parentId = d.parentIndex.map fun p => ((nodes.map (·.nodeId)).getD p [])

section
variable (H : Sha256) (pages : List StructurePage) (revisionId : Str) {ds : List NodeDraft}

theorem buildNodes_append (d : NodeDraft) : buildNodes H pages revisionId (ds ++ [d]) =
    buildNodes H pages revisionId ds ++
      [buildNode H pages revisionId (buildNodes H pages revisionId ds) d] := by
  simp [buildNodes]

@[simp] theorem length_buildNodes : (buildNodes H pages revisionId ds).length = ds.length := by
  induction ds using List.reverseRecOn with
  | nil => rfl
  | append_singleton ds d ih => simp [buildNodes_append, ih]

/-- Every draft becomes the node at its index, over the nodes before it. -/
theorem exists_nodeOf {i : Nat} {d : NodeDraft} (hd : ds[i]? = some d) (hp : ∀ p ∈ d.parentIndex, p < i) :
    ∃ n, (buildNodes H pages revisionId ds)[i]? = some n ∧
      NodeOf H pages revisionId (buildNodes H pages revisionId ds) i d n := by
  induction ds using List.reverseRecOn with
  | nil => simp at hd
  | append_singleton ds e ih =>
    set nodes := buildNodes H pages revisionId ds with hnodes
    have hlen : nodes.length = ds.length := length_buildNodes H pages revisionId
    -- a parent's identifier is not touched by the nodes after it
    have hparent : ∀ x : StructureNode, (d.parentIndex.map fun p => ((nodes.map (·.nodeId)).getD p [])) =
        d.parentIndex.map fun p => (((nodes ++ [x]).map (·.nodeId)).getD p []) := by
      intro x
      cases hpi : d.parentIndex with
      | none => rfl
      | some p =>
        have h1 := hp p hpi
        have h2 := (List.getElem?_eq_some_iff.1 hd).1
        simp only [List.length_append, List.length_singleton] at h2
        have h3 : p < nodes.length := by omega
        rw [List.map_append, Option.map_some, Option.map_some, List.getD_append _ _ _ _ (by simpa using h3)]
    rw [buildNodes_append, ← hnodes]
    by_cases hi : i < ds.length
    · rw [List.getElem?_append_left hi] at hd
      obtain ⟨n, hn, ho⟩ := ih hd
      refine ⟨n, by rw [List.getElem?_append_left (by omega), hn], { ho with parent := ?_ }⟩
      rw [ho.parent, hparent]
    · have hi' : i = ds.length := by
        have := (List.getElem?_eq_some_iff.1 hd).1
        simp only [List.length_append, List.length_singleton] at this
        omega
      subst hi'
      obtain rfl : e = d := by simpa using hd
      exact ⟨_, by rw [← hlen, List.getElem?_concat_length],
        ⟨hlen, rfl, rfl, rfl, rfl, rfl, rfl, rfl, rfl, rfl, rfl, hparent _⟩⟩

end

/-- Every row of the drafts carries the headers of its table. -/
def RowsAgree (ds : List NodeDraft) : Prop :=
  ∀ (i p : Nat) (row table : NodeDraft), ds[i]? = some row → row.nodeType = .tableRow → row.parentIndex = some p →
    ds[p]? = some table → row.tableHeaders = table.tableHeaders

/-- Every table of the drafts has a row. -/
def TablesFilled (ds : List NodeDraft) : Prop :=
  ∀ t, HasType ds t .table → ∃ (i : Nat) (row : NodeDraft), ds[i]? = some row ∧ row.nodeType = .tableRow ∧ row.parentIndex = some t

/-- Links with canonical ordinals between distinct nodes. -/
def LinksOk (nodes : List StructureNode) (links : List NodeLink) : Prop :=
  ∀ (i : Nat) (link : NodeLink), links[i]? = some link → link.ordinal = i ∧
    ∃ (f t : Nat) (source target : StructureNode), f ≠ t ∧
    nodes[f]? = some source ∧ nodes[t]? = some target ∧
    link.fromNodeId = source.nodeId ∧ link.toNodeId = target.nodeId

/-- The texts whose digests identify the nodes. -/
def nodePayloads (nodes : List StructureNode) : List Str := nodes.map fun n => n.identityPayload.render

/-- Payloads tell nodes with different ordinals apart. -/
theorem ordinal_eq_of_nodeId {H : Sha256} {nodes : List StructureNode} (hinj : H.InjectiveOn (nodePayloads nodes))
    {m n : StructureNode} (hm : m ∈ nodes) (hn : n ∈ nodes) (h : nodeId H m = nodeId H n) :
    m.ordinal = n.ordinal := by
  have hd : H.hexdigest m.identityPayload.render = H.hexdigest n.identityPayload.render :=
    List.append_cancel_left h
  have hr := hinj _ (List.mem_map_of_mem hm) _ (List.mem_map_of_mem hn) hd
  have hp := Json.render_injective hr
  simp only [StructureNode.identityPayload, Json.obj.injEq, List.cons.injEq, Prod.mk.injEq,
    Json.num.injEq, true_and] at hp
  exact hp.2.2.2.2.1

namespace Build

variable {H : Sha256} {isBoiler : SourceLine → Bool} {inp : StructureInput} {profile : IssuerParserProfile}
  {lineageId revisionId : Str} {ds : List NodeDraft} {links : List NodeLink}

theorem validateIdentity_ok (hcheck : inp.check = .ok ()) (hprofile : inp.selectProfile = .ok profile)
    (hlineage : makeProductLineageId H inp.issuer inp.productCode inp.documentType = .ok lineageId)
    (hrevision : makeContractRevisionId H lineageId inp.sourceId inp.pdfSha256 = .ok revisionId)
    (nodes : List StructureNode) (links : List NodeLink) :
    (inp.artifact H profile lineageId revisionId nodes links).validateIdentity H = .ok () := by
  have hmeta : ∀ value label, requireContextMetadata .valueError value label = .ok () →
      requireContextMetadata .structureValidationError value label = .ok () := by
    intro value label h
    simpa only [requireContextMetadata, Guard.bind_eq_ok, raiseIf_eq_ok, Guard.exists_unit] using h
  have hdate : ∀ value, requireCanonicalEffectiveDate .valueError value = .ok () →
      requireCanonicalEffectiveDate .structureValidationError value = .ok () := by
    intro value h
    cases value with
    | none => rfl
    | some value => simpa only [requireCanonicalEffectiveDate, raiseIf_eq_ok] using h
  have hissuer : profile.issuer = inp.issuer := by
    unfold StructureInput.selectProfile at hprofile
    split at hprofile <;>
    · simp only [Guard.bind_eq_ok, raiseIf_eq_ok, Guard.exists_unit, Guard.pure_eq_ok, not_not] at hprofile
      obtain ⟨q, -, h, rfl⟩ := hprofile
      exact h
  simp only [StructureInput.check, Guard.bind_eq_ok, Guard.exists_unit] at hcheck
  obtain ⟨-, h1, -, h2, h3, h4, -⟩ := hcheck
  simp only [StructureArtifact.validateIdentity, Guard.bind_eq_ok, raiseIf_eq_ok, Guard.exists_unit, not_not]
  exact ⟨rfl, h1, hmeta _ _ h2, hmeta _ _ h3, hdate _ h4, hissuer, lineageId, hlineage, rfl, revisionId,
    hrevision, rfl⟩

theorem increasing_of_check (hcheck : inp.check = .ok ()) :
    (inp.pages.map (·.page)).Pairwise (· < ·) ∧ (∀ p ∈ inp.pages, 1 ≤ p.page) ∧ inp.pages ≠ [] := by
  simp only [StructureInput.check, Guard.bind_eq_ok, Guard.exists_unit, raiseIf_eq_ok, not_or, not_not,
    not_exists, not_and, not_lt, PyList.eq_sortedSet_iff, List.forall_mem_map] at hcheck
  obtain ⟨h1, -, -, -, -, -, -, -, -, -, h2, h3⟩ := hcheck
  exact ⟨h2, h3, h1⟩

theorem validatePages_ok (hcheck : inp.check = .ok ()) (nodes : List StructureNode) (links : List NodeLink) :
    (inp.artifact H profile lineageId revisionId nodes links).validatePages H = .ok () := by
  obtain ⟨hinc, hpos, hne⟩ := increasing_of_check hcheck
  refine StructureArtifact.validatePages_ok_iff.2 ⟨?_, ?_, ?_, ?_, rfl, rfl, rfl⟩
  · simpa [StructureInput.artifact, StructureInput.structurePages] using hne
  · simpa [StructureInput.artifact, StructureInput.structurePages, List.map_map, Function.comp_def] using hinc
  · simpa [StructureInput.artifact, StructureInput.structurePages] using hpos
  · simp [StructureInput.artifact, StructureInput.structurePages, PageRecord.textSha256]

theorem spanOk_of_mem (hinc : (inp.pages.map (·.page)).Pairwise (· < ·)) {l : SourceLine}
    (hl : l ∈ allLines inp.pages) (i : Nat) (b : Bool) :
    ∃ page, SpanOk H (inp.structurePages H) ((l.span H).withOrdinal i (some b)) page := by
  obtain ⟨p, hp, hl⟩ := mem_allLines.1 hl
  have ho := sourceLines_of hl
  have hpage : pageByNumber (inp.structurePages H) l.page = some ⟨p.page, p.text, p.textSha256 H⟩ := by
    rw [ho.page_eq]
    exact StructureArtifact.pageByNumber_structurePages hinc hp
  exact ⟨_, hpage, ho.start_lt, ho.end_le, ho.start_mem, ho.end_mem, by
    show H.hexdigest (PyStr.slice p.text l.sourceStart l.sourceEnd) = H.hexdigest l.text
    rw [ho.slice_eq]⟩

section
variable (hds : DraftsOk H isBoiler (allLines inp.pages) (allLines inp.pages) ds)
include hds

/-- Nodes and drafts correspond index by index. -/
theorem exists_draft {i : Nat} {n : StructureNode}
    (hn : (buildNodes H (inp.structurePages H) revisionId ds)[i]? = some n) :
    ∃ d, ds[i]? = some d ∧ NodeOf H (inp.structurePages H) revisionId
      (buildNodes H (inp.structurePages H) revisionId ds) i d n := by
  have hi := (List.getElem?_eq_some_iff.1 hn).1
  rw [length_buildNodes] at hi
  obtain ⟨m, hm, ho⟩ := exists_nodeOf H (inp.structurePages H) revisionId
    (List.getElem?_eq_getElem hi) (hds.parent_lt (List.getElem?_eq_getElem hi))
  rw [hn] at hm
  cases hm
  exact ⟨_, List.getElem?_eq_getElem hi, ho⟩

theorem ids_nodup (hinj : H.InjectiveOn (nodePayloads (buildNodes H (inp.structurePages H) revisionId ds))) :
    ((buildNodes H (inp.structurePages H) revisionId ds).map (·.nodeId)).Nodup := by
  rw [List.nodup_iff_getElem?_ne_getElem?]
  intro i j hij hj heq
  rw [List.length_map] at hj
  have hi : i < (buildNodes H (inp.structurePages H) revisionId ds).length := by omega
  rw [List.getElem?_map, List.getElem?_map, List.getElem?_eq_getElem hi, List.getElem?_eq_getElem hj,
    Option.map_some, Option.map_some, Option.some.injEq] at heq
  obtain ⟨_, -, ho1⟩ := exists_draft hds (List.getElem?_eq_getElem hi)
  obtain ⟨_, -, ho2⟩ := exists_draft hds (List.getElem?_eq_getElem hj)
  have := ordinal_eq_of_nodeId hinj (List.getElem_mem hi) (List.getElem_mem hj)
    (by rw [← ho1.id, ← ho2.id, heq])
  rw [ho1.ordinal, ho2.ordinal] at this
  omega

/-- The leaf spans of the artifact are the source lines. -/
theorem leafSpans_eq : (inp.artifact H profile lineageId revisionId
    (buildNodes H (inp.structurePages H) revisionId ds) links).leafSpans =
      (allLines inp.pages).map (SourceLine.span H) := by
  have hsame : (buildNodes H (inp.structurePages H) revisionId ds).map (fun n => (n.nodeType, n.spans)) =
      ds.map (fun d => (d.nodeType, d.spans)) := by
    refine List.ext_getElem? fun i => ?_
    rw [List.getElem?_map, List.getElem?_map]
    cases hd : ds[i]? with
    | none =>
      have hlen := List.getElem?_eq_none_iff.1 hd
      have hn : (buildNodes H (inp.structurePages H) revisionId ds)[i]? = none :=
        List.getElem?_eq_none (by simpa using hlen)
      rw [hn]
      rfl
    | some d =>
      obtain ⟨n, hn, ho⟩ := exists_nodeOf H (inp.structurePages H) revisionId
        hd (hds.parent_lt hd)
      simp [hn, ho.type, ho.spans]
  have hnodes : ((buildNodes H (inp.structurePages H) revisionId ds).filter (·.nodeType.isLeaf)).flatMap
      (·.spans) = (ds.filter (·.nodeType.isLeaf)).flatMap (·.spans) := by
    have := congrArg (fun l => (l.filter (·.1.isLeaf)).flatMap (·.2)) hsame
    simpa only [List.filter_map, List.flatMap_map, Function.comp_def] using this
  have hleaves := hds.leaves
  show ((buildNodes H (inp.structurePages H) revisionId ds).filter (·.nodeType.isLeaf)).flatMap
    (·.spans) = _
  rw [hnodes]
  clear hsame hnodes
  generalize ds.filter (·.nodeType.isLeaf) = leaves at hleaves
  generalize allLines inp.pages = lines at hleaves
  induction hleaves with
  | nil => rfl
  | cons hl _ ih => rw [List.flatMap_cons, hl.1, ih]; rfl

/-- The parent of a node, found by its identifier. -/
theorem parent_eq (hids : ((buildNodes H (inp.structurePages H) revisionId ds).map (·.nodeId)).Nodup)
    {i : Nat} {d : NodeDraft} {n : StructureNode} (hi : 0 < i) (hd : ds[i]? = some d)
    (ho : NodeOf H (inp.structurePages H) revisionId
      (buildNodes H (inp.structurePages H) revisionId ds) i d n) :
    ∃ p pd pn, p < i ∧ d.parentIndex = some p ∧ ds[p]? = some pd ∧
      (buildNodes H (inp.structurePages H) revisionId ds)[p]? = some pn ∧
      NodeOf H (inp.structurePages H) revisionId (buildNodes H (inp.structurePages H) revisionId ds) p pd pn ∧
      n.parentId = some pn.nodeId ∧
      n.parentId.bind (nodeById (buildNodes H (inp.structurePages H) revisionId ds)) = some pn ∧
      ∃ ls, ls.Sublist (allLines inp.pages) ∧ d.spans = lineSpans H ls d.nodeType.isLeaf ∧ d.Under H ls pd := by
  obtain ⟨p, pd, ls, hlt, hp, hpd, hls, hspans, -, hu⟩ := (hds.node i d hd hi).place
  obtain ⟨pn, hpn, hpo⟩ := exists_nodeOf H (inp.structurePages H) revisionId
    hpd (hds.parent_lt hpd)
  have hid : n.parentId = some pn.nodeId := by
    rw [ho.parent, hp, Option.map_some, List.getD_eq_getElem?_getD, List.getElem?_map, hpn]
    rfl
  refine ⟨p, pd, pn, hlt, hp, hpd, hpn, hpo, hid, ?_, ls, hls, hspans, hu⟩
  rw [hid]
  exact PyList.get?_dictOf_of_mem hids (List.mem_of_getElem? hpn)

theorem root_ok : ∃ root, (buildNodes H (inp.structurePages H) revisionId ds).filter
    (·.nodeType = .root) = [root] ∧ root.parentId = none ∧ root.ordinal = 0 := by
  obtain ⟨root, hr, ho⟩ := exists_nodeOf H (inp.structurePages H) revisionId
    hds.root (hds.parent_lt hds.root)
  have hrest : ∀ i n, (buildNodes H (inp.structurePages H) revisionId ds)[i + 1]? = some n →
      n.nodeType ≠ .root := by
    intro i n hn
    obtain ⟨d, hd, hno⟩ := exists_draft hds hn
    obtain ⟨_, _, _, _, _, _, _, _, _, hu⟩ := (hds.node _ d hd (Nat.succ_pos i)).place
    rw [hno.type]
    exact hu.ne_root
  refine ⟨root, ?_, by rw [ho.parent]; rfl, ho.ordinal⟩
  cases hn : buildNodes H (inp.structurePages H) revisionId ds with
  | nil => simp [hn] at hr
  | cons n ns =>
    rw [hn] at hr hrest
    obtain rfl : n = root := by simpa using hr
    rw [List.filter_cons_of_pos (by rw [ho.type]; rfl), List.filter_eq_nil_iff.2]
    intro m hm hroot
    obtain ⟨i, hi⟩ := List.getElem?_of_mem hm
    exact hrest i m (by simpa using hi) (of_decide_eq_true hroot)

/-- Everything the validator asks of a node, but for the headers of a row. -/
theorem node_ok (hinc : (inp.pages.map (·.page)).Pairwise (· < ·))
    (hids : ((buildNodes H (inp.structurePages H) revisionId ds).map (·.nodeId)).Nodup)
    {i : Nat} {n : StructureNode} (hn : (buildNodes H (inp.structurePages H) revisionId ds)[i]? = some n)
    (htable : (inp.artifact H profile lineageId revisionId
      (buildNodes H (inp.structurePages H) revisionId ds) links).TableOk n) :
    (inp.artifact H profile lineageId revisionId
      (buildNodes H (inp.structurePages H) revisionId ds) links).NodeOk H n i := by
  obtain ⟨d, hd, ho⟩ := exists_draft hds hn
  have hspans : ∃ ls : List SourceLine, ls.Sublist (allLines inp.pages) ∧
      d.spans = lineSpans H ls d.nodeType.isLeaf := by
    rcases Nat.eq_zero_or_pos i with rfl | hi
    · rw [hds.root] at hd
      cases hd
      exact ⟨[], List.nil_sublist _, rfl⟩
    · obtain ⟨_, _, ls, -, -, -, hls, hspans, -⟩ := (hds.node i d hd hi).place
      exact ⟨ls, hls, hspans⟩
  obtain ⟨ls, hls, hspans⟩ := hspans
  have hstart : ∀ l ∈ ls, l.sourceStart < l.sourceEnd := by
    intro l hl
    obtain ⟨p, -, hl⟩ := mem_allLines.1 (hls.subset hl)
    exact (sourceLines_of hl).start_lt
  refine ⟨ho.ordinal, ho.revision, fun hroot => ?_, ?_, ?_, fun s hs => ?_, ?_, fun s hs => ?_, htable⟩
  · have hi : 0 < i := by
      rcases Nat.eq_zero_or_pos i with rfl | hi
      · rw [hds.root] at hd
        cases hd
        exact absurd ho.type hroot
      · exact hi
    obtain ⟨p, _, pn, hlt, -, -, -, hpo, -, hbind, -⟩ := parent_eq hds hids hi hd ho
    exact ⟨pn, hbind, by rw [hpo.revision, ho.revision], by rw [hpo.ordinal, ho.ordinal]; exact hlt⟩
  · rw [ho.spans, hspans]
    exact lineSpans_ordinals
  · rw [ho.spans, hspans]
    exact lineSpans_pairwise ((allLines_pairwise hinc).sublist hls) hstart
  · rw [ho.spans, hspans] at hs
    obtain ⟨l, hl, j, rfl⟩ := mem_lineSpans hs
    exact spanOk_of_mem hinc (hls.subset hl) j _
  · rw [ho.display, ho.spans]
    rfl
  · rw [ho.spans, hspans] at hs
    obtain ⟨l, -, j, rfl⟩ := mem_lineSpans hs
    rw [ho.type]
    rfl

/-- The table metadata of a node, given the headers of the rows. -/
theorem table_ok (hids : ((buildNodes H (inp.structurePages H) revisionId ds).map (·.nodeId)).Nodup)
    {i : Nat} {n : StructureNode} (hn : (buildNodes H (inp.structurePages H) revisionId ds)[i]? = some n)
    (hrows : RowsAgree ds) :
    (inp.artifact H profile lineageId revisionId
      (buildNodes H (inp.structurePages H) revisionId ds) links).TableOk n := by
  obtain ⟨d, hd, ho⟩ := exists_draft hds hn
  unfold StructureArtifact.TableOk
  rcases Nat.eq_zero_or_pos i with rfl | hi
  · rw [hds.root] at hd
    cases hd
    rw [ho.type]
    exact ⟨ho.headers, ho.cells, ho.role⟩
  · have hm := (hds.node i d hd hi).table
    unfold NodeDraft.MetaOk at hm
    rw [ho.type, ho.headers, ho.cells, ho.role]
    cases ht : d.nodeType <;> rw [ht] at hm <;> try exact hm
    obtain ⟨p, pd, pn, hlt, hp, hpd, hpn, hpo, hid, hbind, ls, -, -, hu⟩ := parent_eq hds hids hi hd ho
    refine ⟨pn, hbind, ?_, ?_, hm⟩
    · rw [hpo.type]
      simpa [NodeDraft.Under, ht] using hu
    · rw [hrows i p d pd hd ht hp hpd, hpo.headers]

/-- Only artifacts whose rows agree with their tables are accepted. -/
theorem rows_of_wellFormed (h : (inp.artifact H profile lineageId revisionId
    (buildNodes H (inp.structurePages H) revisionId ds) links).WellFormed H) : RowsAgree ds := by
  intro i p d pd hd ht hp hpd
  obtain ⟨n, hn, ho⟩ := exists_nodeOf H (inp.structurePages H) revisionId
    hd (hds.parent_lt hd)
  have hi : 0 < i := lt_of_le_of_lt (Nat.zero_le p) (hds.parent_lt hd p hp)
  obtain ⟨p', pd', pn, -, hp', hpd', -, hpo, -, hbind, -⟩ := parent_eq hds h.ids hi hd ho
  rw [hp] at hp'
  cases hp'
  rw [hpd] at hpd'
  cases hpd'
  have hok := (h.node i n hn).table
  simp only [StructureArtifact.TableOk, ho.type, ht] at hok
  obtain ⟨table, hget, -, hheaders, -⟩ := hok
  rw [show nodeById (inp.artifact H profile lineageId revisionId
    (buildNodes H (inp.structurePages H) revisionId ds) links).nodes = nodeById
    (buildNodes H (inp.structurePages H) revisionId ds) from rfl, hbind] at hget
  cases hget
  rw [← ho.headers, hheaders, hpo.headers]

theorem children_ok (hids : ((buildNodes H (inp.structurePages H) revisionId ds).map (·.nodeId)).Nodup)
    (hfilled : TablesFilled ds) {table : StructureNode}
    (hmem : table ∈ buildNodes H (inp.structurePages H) revisionId ds) (ht : table.nodeType = .table) :
    StructureArtifact.childrenOf (buildNodes H (inp.structurePages H) revisionId ds) table.nodeId ≠ [] ∧
      ∀ row ∈ StructureArtifact.childrenOf (buildNodes H (inp.structurePages H) revisionId ds) table.nodeId,
        row.nodeType = .tableRow := by
  obtain ⟨t, htn⟩ := List.getElem?_of_mem hmem
  obtain ⟨td, htd, hto⟩ := exists_draft hds htn
  have htype : td.nodeType = .table := by rw [← hto.type, ht]
  constructor
  · obtain ⟨i, row, hrow, hrt, hrp⟩ := hfilled t ⟨td, htd, htype⟩
    obtain ⟨n, hn, ho⟩ := exists_nodeOf H (inp.structurePages H) revisionId
      hrow (hds.parent_lt hrow)
    have hid : n.parentId = some table.nodeId := by
      rw [ho.parent, hrp, Option.map_some, List.getD_eq_getElem?_getD, List.getElem?_map, htn]
      rfl
    refine List.ne_nil_of_mem (a := n) (List.mem_filter.2 ⟨List.mem_of_getElem? hn, ?_⟩)
    simp [ho.type, hrt, hid]
  · intro row hrow
    obtain ⟨hrm, hrp⟩ := List.mem_filter.1 hrow
    obtain ⟨hroot, hid⟩ := of_decide_eq_true hrp
    obtain ⟨i, hi⟩ := List.getElem?_of_mem hrm
    obtain ⟨d, hd, ho⟩ := exists_draft hds hi
    have hpos : 0 < i := by
      rcases Nat.eq_zero_or_pos i with rfl | h
      · rw [hds.root] at hd
        cases hd
        exact absurd ho.type hroot
      · exact h
    obtain ⟨p, pd, pn, -, -, hpd, hpn, hpo, hid', -, ls, -, -, hu⟩ := parent_eq hds hids hpos hd ho
    have hpn' : pn = table := List.inj_on_of_nodup_map hids (List.mem_of_getElem? hpn) hmem
      (Option.some.inj (hid'.symm.trans hid))
    rw [ho.type]
    exact hu.row (by rw [← hpo.type, hpn', ht])

/-- The validator accepts what is built from well-formed drafts exactly when rows and tables agree on
their headers. -/
theorem wellFormed_iff (hcheck : inp.check = .ok ()) (hprofile : inp.selectProfile = .ok profile)
    (hlineage : makeProductLineageId H inp.issuer inp.productCode inp.documentType = .ok lineageId)
    (hrevision : makeContractRevisionId H lineageId inp.sourceId inp.pdfSha256 = .ok revisionId)
    (hfilled : TablesFilled ds)
    (hinj : H.InjectiveOn (nodePayloads (buildNodes H (inp.structurePages H) revisionId ds)))
    (hlinks : LinksOk (buildNodes H (inp.structurePages H) revisionId ds) links) :
    (inp.artifact H profile lineageId revisionId
      (buildNodes H (inp.structurePages H) revisionId ds) links).WellFormed H ↔ RowsAgree ds := by
  have hids := ids_nodup hds hinj
  obtain ⟨hinc, -, -⟩ := increasing_of_check hcheck
  constructor
  · exact rows_of_wellFormed hds
  · intro hrows
    refine ⟨validateIdentity_ok hcheck hprofile hlineage hrevision _ _, validatePages_ok hcheck _ _, hids,
      root_ok hds, fun i n hn => node_ok hds hinc hids hn (table_ok hds hids hn hrows),
      fun table hm ht => children_ok hds hids hfilled hm ht, fun i link hl => ?_,
      StructureArtifact.covered_of_lines hinc rfl (leafSpans_eq hds) fun leaf hleaf => ?_, fun n hn => ?_⟩
    · obtain ⟨hord, f, t, source, target, hne, hs, ht, hfrom, hto⟩ := hlinks i link hl
      have hsm := List.mem_of_getElem? hs
      have htm := List.mem_of_getElem? ht
      obtain ⟨_, -, hso⟩ := exists_draft hds hs
      obtain ⟨_, -, hto'⟩ := exists_draft hds ht
      refine ⟨hord, source, target, ?_, ?_, hso.revision, hto'.revision, fun heq => hne ?_⟩
      · rw [hfrom]
        exact PyList.get?_dictOf_of_mem hids hsm
      · rw [hto]
        exact PyList.get?_dictOf_of_mem hids htm
      · rw [← hso.ordinal, ← hto'.ordinal, List.inj_on_of_nodup_map hids hsm htm heq]
    · obtain ⟨hmem, ht⟩ := List.mem_filter.1 hleaf
      obtain ⟨i, hi⟩ := List.getElem?_of_mem hmem
      obtain ⟨d, hd, ho⟩ := exists_draft hds hi
      have hleafd : d.nodeType.isLeaf = true := by rw [← ho.type]; exact ht
      have hpos : 0 < i := by
        rcases Nat.eq_zero_or_pos i with rfl | h
        · rw [hds.root] at hd
          cases hd
          simp [rootDraft, NodeType.isLeaf] at hleafd
        · exact h
      obtain ⟨_, _, ls, -, -, -, -, hspans, hone, -⟩ := (hds.node i d hd hpos).place
      rw [ho.spans, hspans]
      intro hnil
      have hlen := hone hleafd
      have := congrArg List.length hnil
      simp [hlen] at this
    · obtain ⟨i, hi⟩ := List.getElem?_of_mem hn
      obtain ⟨_, -, ho⟩ := exists_draft hds hi
      exact ho.id

end

end Build

end CardRag
