import CardRag.Structure.Lossless
import CardRag.Structure.TableRun

/-! # When the parser and the fallback return

On a document that passes the input checks and holds no foreign page marker the line loop never
raises, so everything rests on the final validation. It accepts the parsed artifact exactly when the
headers of every table lead (`headersLead`), and it always accepts the fallback. -/

namespace CardRag

/-- No line of the document is the marker of another page. -/
def StructureInput.MarkersOwn (inp : StructureInput) : Prop :=
  ∀ l ∈ allLines inp.pages, ∀ n ∈ pageMarker (PyStr.strip l.visible), n = l.page

instance (inp : StructureInput) : Decidable inp.MarkersOwn := by
  unfold StructureInput.MarkersOwn; infer_instance

section
variable {H : Sha256} {U : Unicode} {inp : StructureInput} {profile : IssuerParserProfile}

/-! ### The line loop returns -/

theorem stepLine_returns (H : Sha256) (U : Unicode) (profile : IssuerParserProfile)
    (boilerplate : List (Nat × Nat × Nat)) (st : ParserState) {l : SourceLine}
    (rest : List SourceLine) (hl : ∀ n ∈ pageMarker (PyStr.strip l.visible), n = l.page) :
    ∃ st', st.stepLine H U profile boilerplate l rest = .ok st' := by
  have hmark : ¬ ((pageMarker (PyStr.strip l.visible)).isSome = true ∧
      pageMarker (PyStr.strip l.visible) ≠ some l.page) := by
    rintro ⟨hsome, hne⟩
    obtain ⟨n, hn⟩ := Option.isSome_iff_exists.1 hsome
    exact hne (by rw [hn, hl n hn])
  have hpure : ∀ x : ParserState, ∃ st', (pure x : Except Raised ParserState) = .ok st' := fun x => ⟨x, rfl⟩
  simp only [ParserState.stepLine, Guard.bind_eq_ok, raiseIf_eq_ok, Guard.exists_unit, exists_and_left]
  refine ⟨hmark, ?_⟩
  split
  · exact hpure _
  · split
    · exact hpure _
    · split <;> exact hpure _

theorem stepLines_returns (H : Sha256) (U : Unicode) (profile : IssuerParserProfile)
    (boilerplate : List (Nat × Nat × Nat)) {lines : List SourceLine} (st : ParserState)
    (hl : ∀ l ∈ lines, ∀ n ∈ pageMarker (PyStr.strip l.visible), n = l.page) :
    ∃ st', ParserState.stepLines H U profile boilerplate st lines = .ok st' := by
  induction lines generalizing st with
  | nil => exact ⟨st, rfl⟩
  | cons l rest ih =>
    obtain ⟨st1, h1⟩ := stepLine_returns H U profile boilerplate st rest (hl l (by simp))
    obtain ⟨st2, h2⟩ := ih st1 fun l' hl' => hl l' (by simp [hl'])
    refine ⟨st2, ?_⟩
    simp only [ParserState.stepLines, Guard.bind_eq_ok]
    exact ⟨st1, h1, h2⟩

theorem parseDrafts_returns (H : Sha256) (U : Unicode) (profile : IssuerParserProfile) (hmark : inp.MarkersOwn) : ∃ st, parseDrafts H U inp profile = .ok st := by
  have hrun : ∀ (boilerplate : List (Nat × Nat × Nat)) (pages : List (List SourceLine)) (st : ParserState),
      (∀ lines ∈ pages, ∀ l ∈ lines, ∀ n ∈ pageMarker (PyStr.strip l.visible), n = l.page) →
      ∃ st', pages.foldlM (ParserState.stepPage H U profile boilerplate) st = .ok st' := by
    intro boilerplate pages
    induction pages with
    | nil => intro st _; exact ⟨st, rfl⟩
    | cons lines pages ih =>
      intro st hl
      obtain ⟨st1, h1⟩ := stepLines_returns H U profile boilerplate
        { st with
          pageFirstSemantic := true, pageLastSemantic := none, pageLastTable := none,
          currentTable := none } (hl lines (by simp))
      obtain ⟨st2, h2⟩ : ∃ st2, ParserState.stepPage H U profile boilerplate st lines = .ok st2 := by
        simp only [ParserState.stepPage, Guard.bind_eq_ok, h1, Except.ok.injEq, exists_eq_left']
        split <;> exact ⟨_, rfl⟩
      obtain ⟨st3, h3⟩ := ih st2 fun lines' h' => hl lines' (by simp [h'])
      refine ⟨st3, ?_⟩
      simp only [List.foldlM_cons, Guard.bind_eq_ok]
      exact ⟨st2, h2, h3⟩
  refine hrun _ _ _ fun lines hlines l hl => hmark l ?_
  obtain ⟨p, hp, rfl⟩ := List.mem_map.1 hlines
  exact mem_allLines.2 ⟨p, hp, hl⟩

/-! ### The identifiers and links of the parsed artifact -/

theorem lineage_returns (hcheck : inp.check = .ok ()) :
    ∃ lineageId, makeProductLineageId H inp.issuer inp.productCode inp.documentType = .ok lineageId ∧
      ∃ revisionId, makeContractRevisionId H lineageId inp.sourceId inp.pdfSha256 = .ok revisionId := by
  simp only [StructureInput.check, Guard.bind_eq_ok, Guard.exists_unit] at hcheck
  obtain ⟨-, hissuer, hcode, -, -, -, htype, hsource, hpdf, -⟩ := hcheck
  have hlineage : makeProductLineageId H inp.issuer inp.productCode inp.documentType =
      .ok ("lineage_".toList ++ H.canonical (.obj [("document_type".toList, .str inp.documentType),
        ("issuer".toList, .str inp.issuer), ("product_code".toList, .str inp.productCode)])) := by
    simp only [makeProductLineageId, Guard.bind_eq_ok, Guard.exists_unit, Guard.pure_eq_ok]
    exact ⟨hissuer, hcode, htype, trivial⟩
  refine ⟨_, hlineage, ?_⟩
  simp only [makeContractRevisionId, Guard.bind_eq_ok, Guard.exists_unit, Guard.pure_eq_ok,
    exists_and_left, exists_eq', and_true]
  refine ⟨?_, hsource, hpdf⟩
  simp only [raiseIf_eq_ok, not_or, not_not, Bool.not_eq_false]
  constructor
  · rfl
  · rw [List.length_append, Sha256.canonical, H.length_hexdigest]
    rfl

/-- The reading-order links join distinct leaves. -/
theorem mem_orderLinks {indices : List Nat} (h : indices.Pairwise (· < ·)) {k : LinkDraft}
    (hk : k ∈ ParserState.orderLinks indices) :
    k.fromIndex ≠ k.toIndex ∧ k.fromIndex ∈ indices ∧ k.toIndex ∈ indices := by
  obtain ⟨⟨a, b⟩, hab, hk⟩ := List.mem_flatMap.1 hk
  have ha := (List.of_mem_zip hab).1
  have hb := List.mem_of_mem_tail (List.of_mem_zip hab).2
  have hlt : a < b := by
    obtain ⟨i, hi, heq⟩ := List.getElem_of_mem hab
    rw [List.getElem_zip, Prod.mk.injEq, List.getElem_tail] at heq
    rw [← heq.1, ← heq.2]
    exact List.pairwise_iff_getElem.1 h i (i + 1) _ _ (Nat.lt_succ_self i)
  rcases List.mem_pair.1 hk with rfl | rfl
  · exact ⟨by dsimp only; omega, ha, hb⟩
  · exact ⟨by dsimp only; omega, hb, ha⟩

theorem linksOk_buildLinks {nodes : List StructureNode} {drafts : List LinkDraft}
    (h : ∀ k ∈ drafts, k.fromIndex ≠ k.toIndex ∧ k.fromIndex < nodes.length ∧ k.toIndex < nodes.length) :
    LinksOk nodes (buildLinks nodes drafts) := by
  intro i link hlink
  simp only [buildLinks, List.getElem?_map, Option.map_eq_some_iff] at hlink
  obtain ⟨⟨k, j⟩, hk, rfl⟩ := hlink
  rw [List.getElem?_zipIdx, Option.map_eq_some_iff] at hk
  obtain ⟨k', hk', heq⟩ := hk
  obtain ⟨rfl, rfl⟩ := Prod.mk.inj heq
  have hmem : k' ∈ drafts := by
    have := List.mem_of_getElem? hk'
    rw [orderedLinkDrafts, PyList.mem_sortedBy] at this
    simpa using this
  obtain ⟨hne, hfrom, hto⟩ := h k' hmem
  refine ⟨Nat.zero_add i, k'.fromIndex, k'.toIndex, _, _, hne, List.getElem?_eq_getElem hfrom,
    List.getElem?_eq_getElem hto, ?_, ?_⟩
  · simp [hfrom]
  · simp [hto]

theorem linksOk_parse {isBoiler : SourceLine → Bool} {done : List SourceLine} {st : ParserState}
    (hi : st.Inv H isBoiler done done) (pages : List StructurePage) (revisionId : Str) :
    LinksOk (buildNodes H pages revisionId st.drafts) (buildLinks (buildNodes H pages revisionId st.drafts)
      (st.linkDrafts ++ ParserState.orderLinks st.leafIndices)) := by
  refine linksOk_buildLinks fun k hk => ?_
  rw [length_buildNodes]
  rcases List.mem_append.1 hk with hk | hk
  · obtain ⟨h1, h2⟩ := hi.links k hk
    exact ⟨by omega, h2, by omega⟩
  · obtain ⟨hne, hf, ht⟩ := mem_orderLinks hi.leafOrder hk
    exact ⟨hne, hi.leafBound _ hf, hi.leafBound _ ht⟩

/-- What the parser hands to the validator. -/
theorem parsedArtifact_eq {a : StructureArtifact} (h : parsedArtifact H U inp = .ok a) :
    ∃ profile lineageId revisionId st, inp.check = .ok () ∧ inp.selectProfile = .ok profile ∧
      makeProductLineageId H inp.issuer inp.productCode inp.documentType = .ok lineageId ∧
      makeContractRevisionId H lineageId inp.sourceId inp.pdfSha256 = .ok revisionId ∧
      parseDrafts H U inp profile = .ok st ∧
      a = inp.artifact H profile lineageId revisionId (buildNodes H (inp.structurePages H) revisionId st.drafts)
        (buildLinks (buildNodes H (inp.structurePages H) revisionId st.drafts)
          (st.linkDrafts ++ ParserState.orderLinks st.leafIndices)) := by
  simp only [parsedArtifact, Guard.bind_eq_ok, Guard.pure_eq_ok, Guard.exists_unit] at h
  obtain ⟨hc, profile, hp, lineageId, hl, revisionId, hr, st, hst, rfl⟩ := h
  exact ⟨profile, lineageId, revisionId, st, hc, hp, hl, hr, hst, rfl⟩

/-- The payload texts whose digests identify the nodes of the parsed artifact. -/
def parsedPayloads (H : Sha256) (U : Unicode) (inp : StructureInput) : List Str :=
  match parsedArtifact H U inp with
  | .ok a => nodePayloads a.nodes
  | .error _ => []

/-- The parser returns only if the headers of every table lead. -/
theorem headersLead_of_parse {a : StructureArtifact} (h : parseStructureArtifact H U inp = .ok a)
    (hprofile : inp.selectProfile = .ok profile) : headersLead U inp profile = true := by
  obtain ⟨hparsed, hwf⟩ := parseStructureArtifact_eq_ok.1 h
  obtain ⟨profile', lineageId, revisionId, st, -, hp, -, -, hst, rfl⟩ := parsedArtifact_eq hparsed
  rw [hprofile] at hp
  cases hp
  exact (parseDrafts_tables hst).2.1 (Build.rows_of_wellFormed (parseDrafts_inv hst).drafts hwf)

/-- Leading headers are enough: the line loop returns and the validator accepts. -/
theorem exists_parse_of_headersLead (hcheck : inp.check = .ok ()) (hprofile : inp.selectProfile = .ok profile)
    (hmark : inp.MarkersOwn) (hinj : H.InjectiveOn (parsedPayloads H U inp))
    (hlead : headersLead U inp profile = true) : ∃ a, parseStructureArtifact H U inp = .ok a := by
  obtain ⟨lineageId, hlineage, revisionId, hrevision⟩ := lineage_returns (H := H) hcheck
  obtain ⟨st, hst⟩ := parseDrafts_returns H U profile hmark
  obtain ⟨hfilled, hrows⟩ := parseDrafts_tables hst
  have hi := parseDrafts_inv hst
  have hparsed : parsedArtifact H U inp = .ok (inp.artifact H profile lineageId revisionId
      (buildNodes H (inp.structurePages H) revisionId st.drafts)
      (buildLinks (buildNodes H (inp.structurePages H) revisionId st.drafts)
        (st.linkDrafts ++ ParserState.orderLinks st.leafIndices))) := by
    simp only [parsedArtifact, Guard.bind_eq_ok, Guard.pure_eq_ok, Guard.exists_unit]
    exact ⟨hcheck, profile, hprofile, lineageId, hlineage, revisionId, hrevision, st, hst, rfl⟩
  rw [parsedPayloads, hparsed] at hinj
  exact ⟨_, parseStructureArtifact_eq_ok.2 ⟨hparsed, (Build.wellFormed_iff hi.drafts hcheck hprofile hlineage
    hrevision hfilled hinj (linksOk_parse hi _ _)).2 (hrows.2 hlead)⟩⟩

/-- `parse_structure_artifact` returns on a document without foreign page markers exactly when no table
names its headers after rows that lack them. -/
theorem parse_returns_iff_headersLead (hcheck : inp.check = .ok ()) (hprofile : inp.selectProfile = .ok profile)
    (hmark : inp.MarkersOwn) (hinj : H.InjectiveOn (parsedPayloads H U inp)) :
    (∃ a, parseStructureArtifact H U inp = .ok a) ↔ headersLead U inp profile = true := by
  constructor
  · rintro ⟨a, h⟩
    exact headersLead_of_parse h hprofile
  · exact exists_parse_of_headersLead hcheck hprofile hmark hinj

end

/-- A document of one table row. -/
def oneRow : StructureInput := sampleInput [⟨['d'], 1, "|1|2|".toList⟩]

/-- A table that starts with its separator row. -/
def separatorFirst : StructureInput := sampleInput [⟨['d'], 1, "|---|---|\n|1|2|\n".toList⟩]

theorem parse_returns_oneRow : oneRow.check = .ok () ∧ oneRow.MarkersOwn ∧
    ∃ profile, oneRow.selectProfile = .ok profile ∧
      ((∃ a, parseStructureArtifact .standard .ascii oneRow = .ok a) ↔ headersLead .ascii oneRow profile = true) := by
  have hcheck : oneRow.check = .ok () := by decide +kernel
  have hmark : oneRow.MarkersOwn := by decide +kernel
  obtain ⟨profile, hprofile⟩ := Guard.exists_ok_of_isOk (x := oneRow.selectProfile) (by decide +kernel)
  have hdigests : (parsedPayloads .standard .ascii oneRow).map
      (fun t => (Sha256.standard.hexdigest t).take 1) = [['5'], ['7'], ['2'], ['c']] := by decide +kernel
  have hinj : Sha256.standard.InjectiveOn (parsedPayloads .standard .ascii oneRow) :=
    Sha256.injectiveOn_of_nodup 1 (by rw [hdigests]; decide)
  exact ⟨hcheck, hmark, profile, hprofile, parse_returns_iff_headersLead hcheck hprofile hmark hinj⟩

theorem parse_refuses_separatorFirst : separatorFirst.check = .ok () ∧ separatorFirst.MarkersOwn ∧
    (∃ profile, separatorFirst.selectProfile = .ok profile) ∧
    Sha256.standard.InjectiveOn (parsedPayloads .standard .ascii separatorFirst) ∧
    ¬ ∃ a, parseStructureArtifact .standard .ascii separatorFirst = .ok a := by
  have hprofile : separatorFirst.selectProfile = .ok (profiles.head (by simp [profiles])) := by decide +kernel
  have hlate : headersLead .ascii separatorFirst (profiles.head (by simp [profiles])) = false := by
    decide +kernel
  have hdigests : (parsedPayloads .standard .ascii separatorFirst).map
      (fun t => (Sha256.standard.hexdigest t).take 1) = [['5'], ['7'], ['e'], ['6'], ['8']] := by decide +kernel
  refine ⟨by decide +kernel, by decide +kernel, ⟨_, hprofile⟩,
    Sha256.injectiveOn_of_nodup 1 (by rw [hdigests]; decide), fun ⟨a, h⟩ => ?_⟩
  have hlead := headersLead_of_parse h hprofile
  rw [hlate] at hlead
  cases hlead

/-! ### The fallback -/

namespace Fallback

def itemDraft : NodeDraft := { parentIndex := some 0, nodeType := .item, majorClass := .unknown }

def leafDraft (H : Sha256) (line : SourceLine) : NodeDraft :=
  { parentIndex := some 1, nodeType := .unclassified, majorClass := .unknown, spans := [line.span H] }

/-- The drafts of which the fallback nodes are built. -/
def drafts (H : Sha256) (lines : List SourceLine) : List NodeDraft :=
  rootDraft :: itemDraft :: lines.map (leafDraft H)

variable {H : Sha256} {pages : List StructurePage} {revisionId : Str} {lines : List SourceLine}

theorem drafts_append (l : SourceLine) : drafts H (lines ++ [l]) = drafts H lines ++ [leafDraft H l] := by
  simp [drafts]

theorem draftsOk (H : Sha256) (lines : List SourceLine) :
    DraftsOk H (fun _ => false) lines lines (drafts H lines) := by
  induction lines using List.reverseRecOn with
  | nil =>
    refine (DraftsOk.init H fun _ => false).append_container ?_ rfl
    exact ⟨⟨0, rootDraft, [], Nat.one_pos, rfl, rfl, List.nil_sublist _, rfl, by simp [itemDraft, NodeType.isLeaf],
      .inl rfl⟩, rfl, rfl, rfl⟩
  | append_singleton lines l ih =>
    rw [drafts_append]
    refine (ih.see l).append_leaf ?_ rfl ⟨rfl, by simp [leafDraft]⟩
    exact ⟨⟨1, itemDraft, [l], by simp [drafts], rfl, rfl, List.sublist_append_right _ _, rfl, fun _ => rfl,
      .inl rfl⟩, rfl, rfl, rfl⟩

/-- No draft of the fallback is a table. -/
theorem no_tables {i : Nat} {d : NodeDraft} (hd : (drafts H lines)[i]? = some d) :
    d.nodeType ≠ .table ∧ d.nodeType ≠ .tableRow := by
  have hmem := List.mem_of_getElem? hd
  simp only [drafts, List.mem_cons, List.mem_map] at hmem
  rcases hmem with rfl | rfl | ⟨l, -, rfl⟩ <;> simp [rootDraft, itemDraft, leafDraft]

theorem displayText_eq (hn : (pages.map (·.page)).Nodup) (spans : List NodeSpan) :
    (spans.flatMap fun s => (pages.filter (·.page = s.page)).flatMap fun page =>
      PyStr.slice page.text s.sourceStart s.sourceEnd) = draftText pages spans := by
  refine List.flatMap_congr fun s _ => ?_
  rw [PyList.filter_key_eq hn]
  cases PyList.get? (PyList.dictOf (·.page) pages) s.page <;> simp

theorem nodes_eq (H : Sha256) (revisionId : Str) (lines : List SourceLine) (hn : (pages.map (·.page)).Nodup) :
    root H pages revisionId :: item H pages revisionId :: leaves H pages revisionId lines =
      buildNodes H pages revisionId (drafts H lines) := by
  induction lines using List.reverseRecOn with
  | nil => rfl
  | append_singleton lines l ih =>
    have hleaves : leaves H pages revisionId (lines ++ [l]) = leaves H pages revisionId lines ++
        [fallbackNode H pages revisionId (2 + lines.length) (some (item H pages revisionId).nodeId)
          .unclassified [l.span H]] := by
      simp [leaves, List.zipIdx_append]
    rw [drafts_append, buildNodes_append, ← ih, hleaves]
    simp only [List.cons_append, List.cons.injEq, true_and, List.append_cancel_left_eq, and_true]
    simp only [fallbackNode, buildNode, displayText_eq hn]
    have hlen : 2 + lines.length = lines.length + 1 + 1 := by omega
    simp [leafDraft, leaves, hlen]

/-- Two links per pair of neighbours, with consecutive ordinals. -/
theorem getElem?_links {pairs : List (StructureNode × StructureNode)} {n i : Nat} {link : NodeLink}
    (h : ((pairs.zipIdx n).flatMap fun ((previous, current), k) =>
      [(⟨previous.nodeId, current.nodeId, .next, 2 * k⟩ : NodeLink),
        ⟨current.nodeId, previous.nodeId, .previous, 2 * k + 1⟩])[i]? = some link) :
    link.ordinal = 2 * n + i ∧ ∃ a b, (a, b) ∈ pairs ∧
      (link.fromNodeId = a.nodeId ∧ link.toNodeId = b.nodeId ∨
        link.fromNodeId = b.nodeId ∧ link.toNodeId = a.nodeId) := by
  induction pairs generalizing n i with
  | nil => simp at h
  | cons pair pairs ih =>
    obtain ⟨a, b⟩ := pair
    rw [List.zipIdx_cons, List.flatMap_cons] at h
    rcases i with _ | _ | i
    · simp only [List.cons_append, List.getElem?_cons_zero, Option.some.injEq] at h
      subst h
      exact ⟨rfl, a, b, by simp, .inl ⟨rfl, rfl⟩⟩
    · simp only [List.cons_append, List.getElem?_cons_succ, List.getElem?_cons_zero, Option.some.injEq] at h
      subst h
      exact ⟨rfl, a, b, by simp, .inr ⟨rfl, rfl⟩⟩
    · obtain ⟨hord, x, y, hmem, hends⟩ := ih (by simpa using h)
      exact ⟨by omega, x, y, List.mem_cons_of_mem _ hmem, hends⟩

theorem linksOk (root item : StructureNode) (leaves : List StructureNode) :
    LinksOk (root :: item :: leaves) (links leaves) := by
  intro i link hlink
  obtain ⟨hord, a, b, hmem, hends⟩ := getElem?_links hlink
  obtain ⟨j, hj, heq⟩ := List.getElem_of_mem hmem
  rw [List.getElem_zip, Prod.mk.injEq, List.getElem_tail] at heq
  obtain ⟨rfl, rfl⟩ := heq
  simp only [List.length_zip, List.length_tail] at hj
  have ha : (root :: item :: leaves)[j + 2]? = some leaves[j] := by simp
  have hb : (root :: item :: leaves)[j + 3]? = some leaves[j + 1] := by
    rw [List.getElem?_cons_succ, List.getElem?_cons_succ, List.getElem?_eq_getElem]
  refine ⟨by omega, ?_⟩
  rcases hends with ⟨hf, ht⟩ | ⟨hf, ht⟩
  · exact ⟨j + 2, j + 3, _, _, by omega, ha, hb, hf, ht⟩
  · exact ⟨j + 3, j + 2, _, _, by omega, hb, ha, hf, ht⟩

end Fallback

section
variable {H : Sha256} {inp : StructureInput} {profile : IssuerParserProfile}

/-- The fallback artifact, as built from drafts. -/
theorem fallbackArtifact_eq {a : StructureArtifact} (h : buildUnclassifiedFallbackArtifact H inp = .ok a) :
    ∃ profile lineageId revisionId links, inp.check = .ok () ∧ inp.selectProfile = .ok profile ∧
      makeProductLineageId H inp.issuer inp.productCode inp.documentType = .ok lineageId ∧
      makeContractRevisionId H lineageId inp.sourceId inp.pdfSha256 = .ok revisionId ∧
      a = inp.artifact H profile lineageId revisionId
        (buildNodes H (inp.structurePages H) revisionId (Fallback.drafts H (allLines inp.pages))) links := by
  simp only [buildUnclassifiedFallbackArtifact, Guard.bind_eq_ok, Guard.pure_eq_ok, Guard.exists_unit] at h
  obtain ⟨hc, profile, hp, lineageId, hl, revisionId, hr, _, -, rfl⟩ := h
  have hn : ((inp.structurePages H).map (·.page)).Nodup := by
    rw [StructureInput.structurePages, List.map_map]
    exact (Build.increasing_of_check hc).1.imp ne_of_lt
  exact ⟨profile, lineageId, revisionId, _, hc, hp, hl, hr, by rw [Fallback.nodes_eq H revisionId _ hn]; rfl⟩

/-- The payload texts whose digests identify the nodes of the fallback artifact. -/
def fallbackPayloads (H : Sha256) (inp : StructureInput) : List Str :=
  match makeProductLineageId H inp.issuer inp.productCode inp.documentType >>= fun lineageId =>
      makeContractRevisionId H lineageId inp.sourceId inp.pdfSha256 with
  | .ok revisionId => nodePayloads
      (buildNodes H (inp.structurePages H) revisionId (Fallback.drafts H (allLines inp.pages)))
  | .error _ => []

/-- The fallback returns on every input that passes the checks. -/
theorem fallback_returns (hcheck : inp.check = .ok ()) (hprofile : inp.selectProfile = .ok profile)
    (hinj : H.InjectiveOn (fallbackPayloads H inp)) : ∃ a, buildUnclassifiedFallbackArtifact H inp = .ok a := by
  obtain ⟨lineageId, hlineage, revisionId, hrevision⟩ := lineage_returns (H := H) hcheck
  have hids : makeProductLineageId H inp.issuer inp.productCode inp.documentType >>= (fun lineageId =>
      makeContractRevisionId H lineageId inp.sourceId inp.pdfSha256) = .ok revisionId :=
    Guard.bind_eq_ok.2 ⟨lineageId, hlineage, hrevision⟩
  rw [fallbackPayloads, hids] at hinj
  have hn : ((inp.structurePages H).map (·.page)).Nodup := by
    rw [StructureInput.structurePages, List.map_map]
    exact (Build.increasing_of_check hcheck).1.imp ne_of_lt
  have hnodes := Fallback.nodes_eq H revisionId (allLines inp.pages) hn
  have hwf := (Build.wellFormed_iff (Fallback.draftsOk H (allLines inp.pages)) hcheck hprofile hlineage hrevision
    (by rintro t ⟨d, hd, ht⟩; exact absurd ht (Fallback.no_tables hd).1) hinj
    (hnodes ▸ Fallback.linksOk _ _ _)).2
    (fun i p row table hrow ht => absurd ht (Fallback.no_tables hrow).2)
  obtain ⟨c, hc⟩ := StructureArtifact.validate_ok_iff.2 hwf
  rw [← hnodes] at hc
  have hreturn : ∀ a, inp.artifact H profile lineageId revisionId
      (Fallback.root H (inp.structurePages H) revisionId :: Fallback.item H (inp.structurePages H) revisionId ::
        Fallback.leaves H (inp.structurePages H) revisionId (allLines inp.pages))
      (Fallback.links (Fallback.leaves H (inp.structurePages H) revisionId (allLines inp.pages))) = a →
      buildUnclassifiedFallbackArtifact H inp = .ok a := by
    rintro _ rfl
    simp only [buildUnclassifiedFallbackArtifact, Guard.bind_eq_ok, Guard.pure_eq_ok, Guard.exists_unit]
    exact ⟨hcheck, profile, hprofile, lineageId, hlineage, revisionId, hrevision, c, hc, rfl⟩
  exact ⟨_, hreturn _ rfl⟩

end

end CardRag
