import CardRag.Search.Compat
import CardRag.Search.Singles

/-! # The filters of an evidence search

Which evidence an evidence search on a contract generation can show. The search shows evidence of the
revisions it reaches (`Reaches`). Filters that name no lineage leave it unscoped, and a section filter is compared
with node types and classes: all evidence satisfies the filters exactly when every revision that the search reaches
does, and every node that it admits has the section it asks for (`FiltersKept`). -/

namespace CardRag.Search

open Paging

/-! ### The retrieval of a contract search -/

section
variable {σ : Type} {R : Runtime σ}

theorem bundle_contract {q : Ranking σ} {revisionId : Str} {hits : List Str} {b : ContractEvidenceBundle σ × Bool}
    (h : q.bundle R revisionId hits = .ok b) :
    b.1.contract ∈ q.revisions ∧ b.1.contract.contractRevisionId = revisionId := by
  unfold Ranking.bundle at h
  split at h
  · cases h
  · rename_i summary hget
    simp only [buildEvidenceBundle, Guard.bind_eq_ok, Guard.pure_eq_ok] at h
    obtain ⟨_, -, _, -, rfl⟩ := h
    exact PyList.get?_dictOf_some hget

/-- A match shows a node row of the revision. -/
theorem bundle_node {q : Ranking σ} {revisionId : Str} {hits : List Str} {b : ContractEvidenceBundle σ × Bool}
    (h : q.bundle R revisionId hits = .ok b) {m : ScoredStructureNode σ} (hm : m ∈ b.1.matches) :
    ∃ row ∈ q.tables.nodes, row.contractRevisionId = revisionId ∧ row.nodeId = m.node.nodeId ∧
      row.nodeType = m.node.nodeType ∧ row.majorClass = m.node.majorClass := by
  unfold Ranking.bundle at h
  split at h
  · cases h
  · simp only [buildEvidenceBundle, Guard.bind_eq_ok, Guard.pure_eq_ok] at h
    obtain ⟨graph, hgraph, matched, hmatched, rfl⟩ := h
    obtain ⟨spans, -, hnode⟩ := bundleGraph_node hgraph
    obtain ⟨hit, hhit, hok⟩ := Guard.mem_of_mapM_ok hmatched hm
    have hbare : m.node.bare = hit.1.bare := (Prod.mk.inj (scoredNode_ok hok).2.2).1
    have hfound := hnode hit.1.nodeId (mem_scoredHits hhit)
    obtain ⟨nodeId, -, hentry⟩ := List.mem_filterMap.1 hhit
    split at hentry
    · rename_i node score hget _
      obtain rfl : (node, score) = hit := Option.some.inj hentry
      obtain rfl := (PyList.get?_dictOf_some hget).2
      rw [hget, Option.map_some, eq_comm, Option.map_eq_some_iff] at hfound
      obtain ⟨row, hrow, hrowBare⟩ := hfound
      obtain ⟨hrowMem, -⟩ := PyList.get?_dictOf_some hrow
      rw [PyList.mem_sortedBy, List.mem_filter, decide_eq_true_eq] at hrowMem
      have hsame : row.toContextNode spans [] = m.node.bare := hrowBare.trans hbare.symm
      exact ⟨row, hrowMem.1, hrowMem.2, congrArg ContextNode.nodeId hsame, congrArg ContextNode.nodeType hsame,
        congrArg ContextNode.majorClass hsame⟩
    · cases hentry

/-- The loop emits bundles of its ranking only. -/
theorem pack_bundles {q : Ranking σ} {lexical : LexicalNodes} {ids : List Str} {st st' : Packed σ}
    (h : q.pack R lexical st ids = .ok st') :
    ∀ b ∈ st'.bundles, b ∈ st.bundles ∨ ∃ revisionId hits fallback, q.bundle R revisionId hits = .ok (b, fallback) := by
  induction ids generalizing st with
  | nil =>
    rw [Ranking.pack, Guard.pure_eq_ok] at h
    subst h
    exact fun b hb => .inl hb
  | cons revisionId ids ih =>
    have hadd (candidate : ContractEvidenceBundle σ × Bool) (hits : List Str) (emitted : Nat) (base : Packed σ)
        (hbase : base.bundles = st.bundles) (hok : q.bundle R revisionId hits = .ok candidate)
        (hpack : q.pack R lexical (base.add R candidate emitted) ids = .ok st') (b : ContractEvidenceBundle σ)
        (hb : b ∈ st'.bundles) : b ∈ st.bundles ∨ ∃ revisionId hits fallback, q.bundle R revisionId hits = .ok (b, fallback) := by
      rcases ih hpack b hb with hmem | hmade
      · rw [Packed.add, List.mem_append, hbase, List.mem_singleton] at hmem
        rcases hmem with hmem | rfl
        · exact .inl hmem
        · exact .inr ⟨revisionId, hits, candidate.2, hok⟩
      · exact .inr hmade
    rw [Ranking.pack, Guard.bind_eq_ok] at h
    obtain ⟨candidate, hcandidate, h⟩ := h
    split at h
    · exact hadd candidate _ _ st rfl hcandidate h
    · split at h
      · rw [Guard.pure_eq_ok] at h
        subst h
        exact fun b hb => .inl hb
      · rw [Guard.bind_eq_ok] at h
        obtain ⟨dense, hdense, h⟩ := h
        dsimp only at h
        split at h
        · exact hadd dense _ _ { st with responseTruncated := true } rfl hdense h
        · rw [Guard.pure_eq_ok] at h
          subst h
          exact fun b hb => .inl hb

/-- What the code does with the revisions of a scope: it scores their rows, ranks them and packs the
bundles of the best fifty. -/
def Retrieval.ofRanking (R : Runtime σ) (db : Tables) (rows : List (ScoredRow σ)) (policy : DocumentAggregationPolicy)
    (lexical : LexicalNodes) : Retrieval σ db.nodes where
  bundles productSpecific revisions := do
    let active := revisions.map (·.contractRevisionId)
    let scoresByNode ← scoreRows R.float (rows.filter (·.contractRevisionId ∈ active))
    let (nodeScores, contractScores) ← collapseScores R.float policy scoresByNode
    raiseIf (contractScores.length ≠ revisions.length)
      ⟨.runtimeError, "one or more active contracts have no scored embedding rows"⟩
    let packed ← (⟨db, revisions, nodeScores, contractScores, 50, productSpecific⟩ : Ranking σ).search R lexical
    pure packed.bundles
  contract_mem := by
    intro productSpecific revisions bs h b hb
    simp only [Guard.bind_eq_ok, Guard.pure_eq_ok, raiseIf_eq_ok, Guard.exists_unit] at h
    obtain ⟨_, -, _, -, -, packed, hpacked, rfl⟩ := h
    rcases pack_bundles hpacked b hb with hnil | ⟨_, _, _, hb⟩
    · cases hnil
    · exact (bundle_contract hb).1
  node_mem := by
    intro productSpecific revisions bs h b hb m hm
    simp only [Guard.bind_eq_ok, Guard.pure_eq_ok, raiseIf_eq_ok, Guard.exists_unit] at h
    obtain ⟨_, -, _, -, -, packed, hpacked, rfl⟩ := h
    rcases pack_bundles hpacked b hb with hnil | ⟨revisionId, _, _, hb⟩
    · cases hnil
    · obtain ⟨row, hrow, hid, hrest⟩ := bundle_node hb hm
      exact ⟨row, hrow, hid.trans (bundle_contract hb).2.symm, hrest⟩

open Guard Singles in
/-- The search answers with the best clause first. -/
theorem bundles_sole {S : Singles} {low high : σ} {revisions : List ContractRevisionSummary} (full : Bool)
    (hR : Separates R low high) (hids : revisions.map (·.contractRevisionId) = S.ids) {r : ContractRevisionSummary} (hr : r ∈ revisions) (hfits : Fits ((S.bundle r.contractRevisionId low high r).size R)) :
    ∃ rest, (Retrieval.ofRanking R S.tables (S.rows r.contractRevisionId low high) .maxChild fun _ => []).bundles full revisions =
      .ok (S.bundle r.contractRevisionId low high r :: rest) := by
  have hid : r.contractRevisionId ∈ S.ids := hids ▸ List.mem_map_of_mem hr
  obtain ⟨rest, hrank, hrest⟩ := rankByScore_best hR hid
  obtain ⟨fallback, hbundle⟩ := bundle_sole r.contractRevisionId full hR hids hr
  obtain ⟨st, hst, tail, htail⟩ := pack_sole r.contractRevisionId full hR hids (rest.take 49)
    (fun x hx => hrest x (List.mem_of_mem_take hx)) (({} : Packed σ).add R (S.bundle r.contractRevisionId low high r, fallback) 0)
  have hrows : (S.rows r.contractRevisionId low high).filter (·.contractRevisionId ∈ S.ids) = S.rows r.contractRevisionId low high := by
    refine List.filter_eq_self.2 fun row hrow => ?_
    obtain ⟨id, hid, rfl⟩ := List.mem_map.1 hrow
    exact decide_eq_true hid
  have hlength : (S.contractScores r.contractRevisionId low high).length = revisions.length := by
    rw [contractScores, List.length_map, ← hids, List.length_map]
  have hsearch : (S.ranking r.contractRevisionId low high revisions full).search R (fun _ => []) = .ok st := by
    rw [Ranking.search, Ranking.rankedRevisionIds]
    show Ranking.pack R _ _ _ ((rankByScore R (S.contractScores r.contractRevisionId low high)).take 50) = _
    rw [hrank, List.take_succ_cons, Ranking.pack]
    simp only [lexicalHitIds_nil, hbundle]
    simp only [bind, Except.bind]
    rw [if_pos]
    · exact hst
    · rw [exceeds_eq_false_iff]
      have hzero : ({} : Packed σ).size + (S.bundle r.contractRevisionId low high r).size R =
          (S.bundle r.contractRevisionId low high r).size R := Prod.ext (Nat.zero_add _) (Nat.zero_add _)
      rwa [hzero]
  refine ⟨tail, ?_⟩
  simp only [Retrieval.ofRanking, hids, hrows, scoreRows_rows hR, bind_eq_ok, raiseIf_eq_ok, exists_unit, pure_eq_ok]
  refine ⟨_, rfl, _, collapseScores_lanes hR, ?_, st, hsearch, htail.symm⟩
  exact fun hne => hne hlength

end

/-! ### What a search reaches -/

section
variable {σ : Type} (U : Unicode) (nfkc : Str → Str) (K : Catalog) {nodes : List NodeRow}

/-- The scope of a contract search has the revision, and the section filter admits nodes of some type and class. -/
def Reaches (req : ContractSearchRequest) (sectionType : Option Str) (r : ContractRevisionSummary) : Prop :=
  ∃ catalog revisions, resolveCatalog U nfkc K req = .ok catalog ∧
    activeRevisions K (effectiveRequest req catalog) = .ok revisions ∧ r ∈ revisions ∧
    ∃ nodeType majorClass, sectionAdmits U sectionType nodeType majorClass = true

/-- The filters on the document, of a revision. -/
structure SearchFilters.Keeps (f : SearchFilters) (r : ContractRevisionSummary) : Prop where
  issuer : ∀ v, f.issuer = some v → r.issuer = v
  productCode : ∀ v, f.productCode = some v → r.productCode = v
  documentId : ∀ v, f.documentId = some v → r.documentId = v

/-- `_filter_clause`. -/
structure SearchFilters.Satisfied (f : SearchFilters) (e : Evidence σ) : Prop where
  issuer : ∀ v, f.issuer = some v → e.issuer = v
  productCode : ∀ v, f.productCode = some v → e.productCode = v
  documentId : ∀ v, f.documentId = some v → e.documentId = v
  sectionType : ∀ v, f.sectionType = some v → e.sectionType = v

variable {U nfkc K}

/-! ### When the filters are kept -/

variable (U nfkc K)

/-- The scope of the query and the issuer alone, and that of a lineage. -/
def openRequest (query : Str) (f : SearchFilters) : ContractSearchRequest := { query := query, issuer := f.issuer, limit := 50 }

def lineageRequest (query : Str) (f : SearchFilters) (lineageId : Str) : ContractSearchRequest :=
  { openRequest query f with productLineageId := some lineageId }

/-- The product code is that of one lineage of the issuer. -/
def SoleLineage (f : SearchFilters) (productCode : Str) : Prop :=
  ∃ l, K.lineages.filter (fun l => l.productCode = productCode ∧ f.issuer.all (l.issuer = ·)) = [l]

/-- The condition under which the filters on the document are kept, by the filters that are set. -/
def DocumentKept (query : Str) (f : SearchFilters) : Prop :=
  match f.documentId, f.productCode with
  | none, none => True
  | none, some productCode =>
    SoleLineage K f productCode ∨
      ∀ r, Reaches U nfkc K (openRequest query f) f.sectionType r → r.productCode = productCode
  | some documentId, _ =>
    match K.revisions.find? (·.documentId = documentId) with
    | some row =>
      ∀ r, Reaches U nfkc K (lineageRequest query f row.productLineageId) f.sectionType r →
        r.documentId = documentId ∧ ∀ v, f.productCode = some v → r.productCode = v
    | none =>
      ∀ r, Reaches U nfkc K (openRequest query f) f.sectionType r →
        r.documentId = documentId ∧ ∀ v, f.productCode = some v → r.productCode = v

/-- What the section filter admits has the section it asks for. -/
def SectionKept (f : SearchFilters) : Prop :=
  ∀ v, f.sectionType = some v → ∀ nodeType majorClass, sectionAdmits U (some v) nodeType majorClass = true → nodeType.text = v

/-- The condition under which the filters are kept. -/
def FiltersKept (query : Str) (f : SearchFilters) : Prop :=
  DocumentKept U nfkc K query f ∧
    ((∃ r, Reaches U nfkc K (contractRequest K { query := query, filters := f }) f.sectionType r) → SectionKept U f)

variable {U nfkc K}

theorem Reaches.admits {req : ContractSearchRequest} {sectionType : Option Str} {r : ContractRevisionSummary}
    (h : Reaches U nfkc K req sectionType r) : ∃ nodeType majorClass, sectionAdmits U sectionType nodeType majorClass = true :=
  h.elim fun _ h => h.elim fun _ h => h.2.2.2

theorem Reaches.issuer {req : ContractSearchRequest} {sectionType : Option Str} {r : ContractRevisionSummary}
    (h : Reaches U nfkc K req sectionType r) (hhistory : req.includeHistory = false) (hdate : req.asOf = none) :
    ∀ v, req.issuer = some v → r.issuer = v := by
  intro v hv
  obtain ⟨catalog, revisions, -, hrevisions, hr, -⟩ := h
  have hfields : (effectiveRequest req catalog).includeHistory = req.includeHistory ∧
      (effectiveRequest req catalog).asOf = req.asOf ∧ (effectiveRequest req catalog).issuer = req.issuer := by
    unfold effectiveRequest
    split_ifs <;> exact ⟨rfl, rfl, rfl⟩
  obtain ⟨_, -, hmem⟩ := mem_activeRevisions hrevisions (hfields.1.trans hhistory) (hfields.2.1.trans hdate)
  have hcovers := ((hmem r).1 hr).2.1
  simp only [ContractSearchRequest.covers, hfields.2.2, hv, Option.all_some, Bool.and_eq_true, decide_eq_true_eq] at hcovers
  exact hcovers.1.1

/-- A search of one lineage reaches revisions of it only, and their summaries tell its code. -/
theorem Reaches.lineage {query lineageId : Str} {f : SearchFilters} {sectionType : Option Str} {r : ContractRevisionSummary}
    (h : Reaches U nfkc K (lineageRequest query f lineageId) sectionType r) :
    ∃ l ∈ K.lineages, l.productLineageId = lineageId ∧ identifier l.productCode = .ok r.productCode := by
  obtain ⟨catalog, revisions, hcatalog, hrevisions, hr, -⟩ := h
  have heffective : effectiveRequest (lineageRequest query f lineageId) catalog = lineageRequest query f lineageId := by
    have hstatus : catalog.status = .explicit := by
      unfold resolveCatalog at hcatalog
      simp only [lineageRequest, openRequest] at hcatalog
      split at hcatalog
      · cases hcatalog
      · simp only [Guard.bind_eq_ok, Guard.exists_unit, Guard.pure_eq_ok] at hcatalog
        rw [← hcatalog.2]
    rw [effectiveRequest, if_neg (by rw [hstatus]; decide)]
  rw [heffective] at hrevisions
  obtain ⟨summaries, hsummaries, hmem⟩ := mem_activeRevisions hrevisions rfl rfl
  obtain ⟨hs, hcovers, -⟩ := (hmem r).1 hr
  obtain ⟨row, hrow, l, hl, hid, hsum⟩ := mem_summaries hsummaries hs
  obtain ⟨hlineage, -, -, -, hcode, -⟩ := summary_eq_ok hsum
  have hrid : r.productLineageId = lineageId := by
    simp only [ContractSearchRequest.covers, lineageRequest, openRequest, Option.all_some, Option.all_none,
      Bool.and_eq_true, decide_eq_true_eq] at hcovers
    exact hcovers.1.2
  refine ⟨l, hl, ?_, hcode⟩
  have hstrip := (K.lineage_identifier l hl).strip
  rw [hid] at hstrip ⊢
  rw [← hrid, (identifier_eq_ok.1 hlineage).2, hstrip]

end

/-! ### A product code of no lineage -/

def fee : Paragraph := ⟨"r".toList, "p".toList, 1, 0, "fee".toList, 3⟩

def oneProduct : Catalog where
  lineages := [⟨"l".toList, "kb".toList, "B".toList, "terms".toList, "card".toList⟩]
  revisions := [⟨"r".toList, "l".toList, "d".toList, "s".toList, "1".toList, "https://example.com/".toList,
    some "2024-01-01".toList, List.replicate 64 'a', 1, .current, none⟩]
  lineages_nodup := by simp
  revisions_nodup := by simp
  documents_nodup := by simp
  lineage_mem := by simp
  lineage_identifier := by
    rintro l (_ | ⟨_, ⟨⟩⟩)
    rfl

def knownCode : SearchFilters where
  issuer := none
  productCode := some "B".toList
  documentId := none
  sectionType := none
  identifiers := by
    rintro v (_ | ⟨_, ⟨⟩⟩)
    rfl

def zeroMac : HmacSha256 := ⟨fun _ _ => List.replicate 32 0, fun _ _ => rfl⟩

def zeroCodec : CursorCodec := ⟨List.replicate 16 0, le_refl _⟩

def feeRetrieval : Retrieval Nat (paragraphTables .standard ["r".toList] [fee]).nodes :=
  .ofRanking tenths (paragraphTables .standard ["r".toList] [fee]) [⟨0, "r".toList, "p".toList, .detail, 9⟩] .maxChild
    fun _ => []

def unknownCode : SearchFilters where
  issuer := none
  productCode := some "A".toList
  documentId := none
  sectionType := none
  identifiers := by
    rintro v (_ | ⟨_, ⟨⟩⟩)
    rfl

end CardRag.Search
