import CardRag.Search.Aggregation
import CardRag.Structure.Bare

/-! # Every contract can be scored

`_collapse_scores` with `max_child` returns exactly when every contract of the rows has a row that is
not its contract view. The structure stage gives such a view to every document but those without
substance, and a generation without a sealed profile is loaded without a check for it. -/

namespace CardRag

section
variable {σ : Type} {F : FloatOps σ} {rows : List (ScoredRow σ)}

/-! ### The scores of the nodes -/

/-- The dictionary of `_score_rows` holds the node and view type of every row, and nothing else. -/
structure Scored (rows : List (ScoredRow σ)) (d : List ((Str × Str) × Lanes σ)) : Prop where
  sound : ∀ e ∈ d, e.2 ≠ [] ∧ ∀ lane ∈ e.2, lane.2.viewType = lane.1 ∧
    ∃ row ∈ rows, row.key = e.1 ∧ row.viewType = lane.1 ∧ row.score = lane.2.score
  complete : ∀ row ∈ rows, ∃ lanes v, PyList.get? d row.key = some lanes ∧
    PyList.get? lanes row.viewType = some v

section
variable {d : List ((Str × Str) × Lanes σ)} (h : Scored rows d)
include h

theorem Scored.sound_append (row : ScoredRow σ) : ∀ e ∈ d, e.2 ≠ [] ∧ ∀ lane ∈ e.2, lane.2.viewType = lane.1 ∧
    ∃ r ∈ rows ++ [row], r.key = e.1 ∧ r.viewType = lane.1 ∧ r.score = lane.2.score := by
  intro e he
  obtain ⟨hne, hall⟩ := h.sound e he
  refine ⟨hne, fun lane hlane => ?_⟩
  obtain ⟨ht, r, hr, hrest⟩ := hall lane hlane
  exact ⟨ht, r, by simp [hr], hrest⟩

theorem Scored.insert (row : ScoredRow σ) :
    Scored (rows ++ [row]) (PyList.insert row.key (PyList.insert row.viewType
      ⟨row.rowIndex, row.viewType, row.score⟩ ((PyList.get? d row.key).getD [])) d) := by
  have hnew := PyList.get?_insert row.viewType row.viewType ⟨row.rowIndex, row.viewType, row.score⟩
    ((PyList.get? d row.key).getD [])
  rw [if_pos rfl] at hnew
  refine ⟨fun e he => ?_, fun r hr => ?_⟩
  · rcases PyList.mem_insert he with rfl | he
    · refine ⟨List.ne_nil_of_mem (PyList.mem_of_get? hnew), fun lane hlane => ?_⟩
      rcases PyList.mem_insert hlane with rfl | hlane
      · exact ⟨rfl, row, by simp, rfl, rfl, rfl⟩
      · -- a lane that was there before
        cases hget : PyList.get? d row.key with
        | none => simp [hget] at hlane
        | some lanes =>
          rw [hget, Option.getD_some] at hlane
          exact (h.sound_append row _ (PyList.mem_of_get? hget)).2 lane hlane
    · exact h.sound_append row e he
  · rw [PyList.get?_insert]
    rcases List.mem_append.1 hr with hr | hr
    · obtain ⟨lanes, v, hl, hv⟩ := h.complete r hr
      by_cases hk : row.key = r.key
      · rw [if_pos hk]
        by_cases ht : row.viewType = r.viewType
        · exact ⟨_, _, rfl, by rw [PyList.get?_insert, if_pos ht]⟩
        · exact ⟨_, v, rfl, by rw [PyList.get?_insert, if_neg ht, hk, hl, Option.getD_some, hv]⟩
      · rw [if_neg hk]
        exact ⟨lanes, v, hl, hv⟩
    · rw [List.mem_singleton.1 hr, if_pos rfl]
      exact ⟨_, _, rfl, hnew⟩

theorem Scored.step (row : ScoredRow σ) : Scored (rows ++ [row]) (scoreRow F d row) := by
  unfold scoreRow
  dsimp only
  split
  · exact h.insert row
  · rename_i previous hprev
    split
    · exact h.insert row
    · -- the place of the row is taken by a score that is not worse
      refine ⟨h.sound_append row, fun r hr => ?_⟩
      rcases List.mem_append.1 hr with hr | hr
      · exact h.complete r hr
      · rw [List.mem_singleton.1 hr]
        cases hget : PyList.get? d row.key with
        | none => rw [hget] at hprev; simp [PyList.get?] at hprev
        | some lanes =>
          rw [hget, Option.getD_some] at hprev
          exact ⟨lanes, previous, rfl, hprev⟩

end

theorem scored_foldl (rows : List (ScoredRow σ)) : Scored rows (rows.foldl (scoreRow F) []) := by
  induction rows using List.reverseRecOn with
  | nil => exact ⟨by simp, by simp⟩
  | append_singleton rows row ih =>
    rw [List.foldl_append, List.foldl_cons, List.foldl_nil]
    exact ih.step row

/-! ### The scores of the contracts -/

/-- The scores of a node, as its contract collects them. -/
def laneScores (e : (Str × Str) × Lanes σ) : List (ViewType × σ) :=
  (Lanes.views e.2).map fun v => (v.viewType, v.score)

theorem mem_laneScores {e : (Str × Str) × Lanes σ} {x : ViewType × σ} :
    x ∈ laneScores e ↔ ∃ lane ∈ e.2, x = (lane.2.viewType, lane.2.score) := by
  simp only [laneScores, Lanes.views, PyList.values, List.mem_map, PyList.mem_sortedBy]
  constructor
  · rintro ⟨v, ⟨lane, hlane, rfl⟩, rfl⟩
    exact ⟨lane, hlane, rfl⟩
  · rintro ⟨lane, hlane, rfl⟩
    exact ⟨lane.2, ⟨lane, hlane, rfl⟩, rfl⟩

/-- The groups after some nodes. -/
structure Grouped (done : List ((Str × Str) × Lanes σ)) (byContract : List (Str × List (ViewType × σ))) : Prop where
  keys : (byContract.map (·.1)).Nodup
  get : ∀ rev, PyList.get? byContract rev = if ∃ e ∈ done, e.1.1 = rev
    then some ((done.filter (·.1.1 = rev)).flatMap laneScores) else none

theorem collapse_grouped {d : List ((Str × Str) × Lanes σ)} (hne : ∀ e ∈ d, e.2 ≠ []) :
    ∃ nodes byContract, d.foldlM (collapseNode F) ([], []) = .ok (nodes, byContract) ∧ Grouped d byContract := by
  induction d using List.reverseRecOn with
  | nil => exact ⟨[], [], rfl, by simp, by simp [PyList.get?]⟩
  | append_singleton d e ih =>
    obtain ⟨nodes, byContract, hrun, hg⟩ := ih fun x hx => hne x (by simp [hx])
    have hnode : ∃ best types, nodeScore F e.2 = .ok ⟨best, types, Lanes.views e.2⟩ := by
      unfold nodeScore
      split
      · rename_i hnil
        simp [PyList.values] at hnil
        exact absurd hnil (hne e (by simp))
      · exact ⟨_, _, rfl⟩
    obtain ⟨best, types, hnode⟩ := hnode
    refine ⟨PyList.insert e.1 ⟨best, types, Lanes.views e.2⟩ nodes,
      PyList.insert e.1.1 ((PyList.get? byContract e.1.1).getD [] ++ laneScores e) byContract, ?_, ?_⟩
    · simp only [List.foldlM_append, hrun, List.foldlM_cons, List.foldlM_nil, Guard.bind_eq_ok, Except.ok.injEq,
        exists_eq_left', collapseNode, hnode, Guard.pure_eq_ok]
      rfl
    · refine ⟨PyList.nodup_keys_insert hg.keys, fun rev => ?_⟩
      rw [PyList.get?_insert]
      by_cases hrev : e.1.1 = rev
      · subst hrev
        rw [if_pos rfl, if_pos ⟨e, by simp, rfl⟩, hg.get]
        split
        · simp [List.filter_append, laneScores]
        · rename_i hnone
          have hempty : d.filter (·.1.1 = e.1.1) = [] := by
            refine List.filter_eq_nil_iff.2 fun x hx hk => hnone ⟨x, hx, by simpa using hk⟩
          simp [List.filter_append, laneScores, hempty]
      · have hsame : (∃ x ∈ d ++ [e], x.1.1 = rev) ↔ ∃ x ∈ d, x.1.1 = rev := by
          simp only [List.mem_append, List.mem_singleton, or_and_right, exists_or, exists_eq_left, hrev, or_false]
        rw [if_neg hrev, hg.get]
        simp only [hsame, List.filter_append]
        simp [hrev]

/-- `max_child` needs one finite row that is not the contract's. -/
theorem aggregate_maxChild_iff {scores : List (ViewType × σ)} (hne : scores ≠ [])
    (hfinite : ∀ s ∈ scores, F.isFinite s.2 = true) :
    (∃ score, aggregateDocumentViewScores F scores .maxChild = .ok score) ↔ ∃ s ∈ scores, s.1 ≠ .contract := by
  have hguard : ¬ (scores.isEmpty = true ∨ ∃ s ∈ scores, F.isFinite s.2 = false) := by
    rintro (h | ⟨s, hs, hf⟩)
    · exact hne (List.isEmpty_iff.1 h)
    · rw [hfinite s hs] at hf
      cases hf
  simp only [aggregateDocumentViewScores, Guard.bind_eq_ok, raiseIf_eq_ok, Guard.exists_unit, hguard,
    not_false_eq_true, true_and]
  cases hchild : (scores.filter (·.1 ≠ .contract)).map (·.2) with
  | nil =>
    simp only [Guard.throw_ne_ok, exists_false, false_iff, not_exists, not_and, not_not]
    intro s hs
    have := List.filter_eq_nil_iff.1 (List.map_eq_nil_iff.1 hchild) s hs
    simpa using this
  | cons first rest =>
    simp only [Guard.pure_eq_ok, exists_eq', true_iff]
    have hmem : first ∈ (scores.filter (·.1 ≠ .contract)).map (·.2) := by rw [hchild]; simp
    obtain ⟨s, hs, -⟩ := List.mem_map.1 hmem
    obtain ⟨hs, ht⟩ := List.mem_filter.1 hs
    exact ⟨s, hs, by simpa using ht⟩

/-- Finite rows are collapsed exactly when every contract has a child row. -/
theorem collapse_ok_iff (hfinite : ∀ row ∈ rows, F.isFinite row.score = true) :
    (∃ out, (scoreRows F rows >>= collapseScores F .maxChild) = .ok out) ↔
      ∀ row ∈ rows, ∃ child ∈ rows, child.contractRevisionId = row.contractRevisionId ∧
        child.viewType ≠ .contract := by
  have hscored := scored_foldl (F := F) rows
  obtain ⟨nodes, byContract, hrun, hg⟩ := collapse_grouped (F := F) fun e he => (hscored.sound e he).1
  have hrows : scoreRows F rows = .ok (rows.foldl (scoreRow F) []) := by
    simp only [scoreRows, Guard.bind_eq_ok, raiseIf_eq_ok, Guard.exists_unit, Guard.pure_eq_ok, and_true]
    rintro ⟨row, hr, hf⟩
    rw [hfinite row hr] at hf
    cases hf
  generalize rows.foldl (scoreRow F) [] = d at hscored hrun hg hrows
  have hsplit : (∃ out, (scoreRows F rows >>= collapseScores F .maxChild) = .ok out) ↔
      ∀ e ∈ byContract, ∃ score, aggregateDocumentViewScores F e.2 .maxChild = .ok score := by
    have hmap := @Guard.exists_mapM_ok _ _ _ (fun e : Str × List (ViewType × σ) => do
      let score ← aggregateDocumentViewScores F e.2 .maxChild
      pure (e.1, score)) byContract
    have hstep : ∀ e : Str × List (ViewType × σ), (∃ y, (do
        let score ← aggregateDocumentViewScores F e.2 .maxChild
        pure (e.1, score) : Except Raised (Str × σ)) = .ok y) ↔
        ∃ score, aggregateDocumentViewScores F e.2 .maxChild = .ok score := by
      intro e
      simp only [Guard.bind_eq_ok, Guard.pure_eq_ok]
      constructor
      · rintro ⟨_, score, h, -⟩
        exact ⟨score, h⟩
      · rintro ⟨score, h⟩
        exact ⟨_, score, h, rfl⟩
    simp only [hstep] at hmap
    rw [← hmap]
    simp only [hrows, collapseScores, hrun, Guard.bind_eq_ok, Except.ok.injEq, exists_eq_left', Guard.pure_eq_ok]
    constructor
    · rintro ⟨_, ys, h, -⟩
      exact ⟨ys, h⟩
    · rintro ⟨ys, h⟩
      exact ⟨_, ys, h, rfl⟩
  -- a score of a contract is the score of one of its rows
  have hscore : ∀ rev x, x ∈ (d.filter (·.1.1 = rev)).flatMap laneScores →
      ∃ row ∈ rows, row.contractRevisionId = rev ∧ row.viewType = x.1 ∧ row.score = x.2 := by
    intro rev x hx
    obtain ⟨e, he, hx⟩ := List.mem_flatMap.1 hx
    obtain ⟨he, hrev⟩ := List.mem_filter.1 he
    obtain ⟨lane, hlane, rfl⟩ := mem_laneScores.1 hx
    obtain ⟨htype, row, hrow, hkey, hrt, hrs⟩ := (hscored.sound e he).2 lane hlane
    have hk : row.contractRevisionId = e.1.1 := congrArg Prod.fst hkey
    exact ⟨row, hrow, hk.trans (by simpa using hrev), hrt.trans htype.symm, hrs⟩
  have hrowScore : ∀ row ∈ rows, ∃ x ∈ (d.filter (·.1.1 = row.contractRevisionId)).flatMap laneScores,
      x.1 = row.viewType := by
    intro row hrow
    obtain ⟨lanes, v, hl, hv⟩ := hscored.complete row hrow
    have hmem := PyList.mem_of_get? hl
    have hlane := PyList.mem_of_get? hv
    refine ⟨(v.viewType, v.score), List.mem_flatMap.2 ⟨_, List.mem_filter.2 ⟨hmem, by simp [ScoredRow.key]⟩,
      mem_laneScores.2 ⟨_, hlane, rfl⟩⟩, ((hscored.sound _ hmem).2 _ hlane).1⟩
  rw [hsplit]
  constructor
  · intro hall row hrow
    obtain ⟨x, hx, -⟩ := hrowScore row hrow
    obtain ⟨e, he, -⟩ := List.mem_flatMap.1 hx
    obtain ⟨he, hrev⟩ := List.mem_filter.1 he
    have hget := hg.get row.contractRevisionId
    rw [if_pos ⟨e, he, by simpa using hrev⟩] at hget
    have hagg := hall _ (PyList.mem_of_get? hget)
    rw [aggregate_maxChild_iff (List.ne_nil_of_mem hx) fun s hs => ?_] at hagg
    · obtain ⟨s, hs, ht⟩ := hagg
      obtain ⟨child, hc, hcr, hct, -⟩ := hscore _ s hs
      exact ⟨child, hc, hcr, hct ▸ ht⟩
    · obtain ⟨r, hr, -, -, hrs⟩ := hscore _ s hs
      exact hrs ▸ hfinite r hr
  · intro hall e he
    have hget := (PyList.mem_iff_get? hg.keys).1 he
    rw [hg.get] at hget
    split at hget
    · rename_i hex
      have he2 : e.2 = (d.filter (·.1.1 = e.1)).flatMap laneScores := (Option.some.inj hget).symm
      obtain ⟨f, hf, hfrev⟩ := hex
      -- the contract has a row, and so a child
      obtain ⟨hne, hlanes⟩ := hscored.sound f hf
      obtain ⟨lane, hlane⟩ := List.exists_mem_of_ne_nil _ hne
      obtain ⟨-, row, hrow, hkey, -⟩ := hlanes lane hlane
      have hrowrev : row.contractRevisionId = e.1 := (congrArg Prod.fst hkey).trans hfrev
      obtain ⟨child, hc, hcr, hct⟩ := hall row hrow
      obtain ⟨x, hx, hxt⟩ := hrowScore child hc
      rw [hcr, hrowrev] at hx
      rw [he2, aggregate_maxChild_iff (List.ne_nil_of_mem hx) fun s hs => ?_]
      · exact ⟨x, hx, hxt ▸ hct⟩
      · obtain ⟨r, hr, -, -, hrs⟩ := hscore _ s hs
        exact hrs ▸ hfinite r hr
    · cases hget

end

/-! ### A generation without a sealed profile -/

def DocumentAggregationPolicy.parse (value : Str) : Option DocumentAggregationPolicy :=
  if value = "max_child".toList then some .maxChild
  else if value = "top3_mean".toList then some .top3Mean
  else if value = "contract_plus_child".toList then some .contractPlusChild
  else none

/-- A contract with other than one `CONTRACT` row or without a child row. -/
def invalidContractViews (rows : List (Str × ViewType)) : Prop :=
  ∃ row ∈ rows, rows.countP (fun r => r.1 = row.1 ∧ r.2 = .contract) ≠ 1 ∨
    rows.countP (fun r => r.1 = row.1 ∧ r.2 ≠ .contract) < 1

instance (rows : List (Str × ViewType)) : Decidable (invalidContractViews rows) := by
  unfold invalidContractViews; infer_instance

/-- `_document_aggregation_metadata(connection, values, exact_row_corpus_sha256=…)` over the metadata and
the revisions and view types of the rows. -/
def documentAggregationMetadata (values : List (Str × Str)) (exactRowCorpusSha256 : Str)
    (rows : List (Str × ViewType)) : Except Raised (Str × DocumentAggregationPolicy × Option Str) := do
  let allowed := ["document_aggregation_status", "document_aggregation_policy", "sealed_profile_sha256"].map
    String.toList
  raiseIf (∃ e ∈ values, "document_aggregation_".toList.isPrefixOf e.1 = true ∧ e.1 ∉ allowed)
    ⟨.servingDatabaseError, "v5 database has unknown document aggregation metadata"⟩
  let status := PyList.get? values "document_aggregation_status".toList
  let policy := PyList.get? values "document_aggregation_policy".toList
  let profile := PyList.get? values "sealed_profile_sha256".toList
  let incomplete : Raised := ⟨.servingDatabaseError, "v5 document aggregation metadata is incomplete"⟩
  if status = none ∧ policy = none ∧ profile = none ∨
      status = some "candidate_default".toList ∧ policy = some "max_child".toList ∧ profile = none then
    pure ("candidate_default".toList, .maxChild, none)
  else match policy.bind DocumentAggregationPolicy.parse, profile with
    | some selected, some sha => do
      raiseIf (status ≠ some "sealed".toList ∨ isSha256 sha = false ∨
        PyList.get? values "exact_row_corpus_sha256".toList ≠ some exactRowCorpusSha256) incomplete
      raiseIf (invalidContractViews rows)
        ⟨.servingDatabaseError, "sealed aggregation requires one CONTRACT and at least one child row per revision"⟩
      pure ("sealed".toList, selected, some sha)
    | _, _ => throw incomplete

/-- Without a sealed profile the policy is the default. -/
theorem policy_of_unsealed {values : List (Str × Str)} {corpus status : Str} {rows : List (Str × ViewType)}
    {policy : DocumentAggregationPolicy}
    (h : documentAggregationMetadata values corpus rows = .ok (status, policy, none)) : policy = .maxChild := by
  simp only [documentAggregationMetadata, Guard.bind_eq_ok, Guard.exists_unit] at h
  obtain ⟨-, h⟩ := h
  split at h
  · simp only [Guard.pure_eq_ok, Prod.mk.injEq] at h
    exact h.2.1.symm
  · split at h
    · simp only [Guard.bind_eq_ok, Guard.exists_unit, Guard.pure_eq_ok, Prod.mk.injEq] at h
      obtain ⟨-, -, -, -, h⟩ := h
      cases h
    · simp only [Guard.throw_ne_ok] at h

/-- What the structure stage hands on for each document. -/
abbrev Derived := StructureArtifact × List DerivedView × Option FallbackReason

/-- The rows of a generation with their scores. -/
def generationRows {σ : Type} (results : List Derived) (score : Nat → σ) : List (ScoredRow σ) :=
  (results.flatMap (·.2.1)).zipIdx.map fun (v, i) => ⟨i, v.contractRevisionId, v.nodeId, v.viewType, score i⟩

/-- Some line of the document has substance, a page marker names another page, or the text exceeds the
limits of a view. -/
def StructureInput.Scorable (U : Unicode) (lim : ViewLimits) (inp : StructureInput) : Prop :=
  ∃ profile, inp.selectProfile = .ok profile ∧
    (inp.HasSubstance U profile ∨ ¬ inp.MarkersOwn ∨ lim.within inp.text ≠ .ok true)

section
variable {H : Sha256} {U : Unicode} {lim : ViewLimits} {docs : List StructureInput} {results : List Derived}
  {σ : Type} {score : Nat → σ}

theorem selectProfile_of_derive {inp : StructureInput} {r : Derived} (h : deriveV5 H U lim inp = .ok r) :
    ∃ profile, inp.selectProfile = .ok profile := by
  obtain ⟨a, views, reason⟩ := r
  rcases (deriveV5_cases h).2 with hp | ⟨hf, -⟩
  · obtain ⟨profile, _, _, hsel, -⟩ := StructureArtifact.ofDrafts_of_parse hp
    exact ⟨profile, hsel⟩
  · obtain ⟨profile, _, _, _, -, hsel, -⟩ := fallbackArtifact_eq hf
    exact ⟨profile, hsel⟩

theorem child_of_derive_iff {inp : StructureInput} {r : Derived} (h : deriveV5 H U lim inp = .ok r)
    (hvisible : ∃ p ∈ inp.pages, ∃ c ∈ p.text, PyStr.isSpace c = false)
    (hinj : H.InjectiveOn (parsedPayloads H U inp)) :
    (∃ v ∈ r.2.1, v.viewType ≠ .contract) ↔ inp.Scorable U lim := by
  obtain ⟨profile, hprofile⟩ := selectProfile_of_derive h
  obtain ⟨a, views, reason⟩ := r
  rw [child_view_iff hvisible hprofile hinj h]
  constructor
  · exact fun hc => ⟨profile, hprofile, hc⟩
  · rintro ⟨profile', hp, hc⟩
    rw [hprofile] at hp
    cases hp
    exact hc

theorem mem_generationRows {row : ScoredRow σ} (h : row ∈ generationRows results score) :
    ∃ r ∈ results, ∃ v ∈ r.2.1, row.contractRevisionId = v.contractRevisionId ∧ row.viewType = v.viewType := by
  obtain ⟨⟨v, i⟩, hv, rfl⟩ := List.mem_map.1 h
  have hmem : v ∈ results.flatMap (·.2.1) := (List.mem_zipIdx' hv).2 ▸ List.getElem_mem _
  obtain ⟨r, hr, hv⟩ := List.mem_flatMap.1 hmem
  exact ⟨r, hr, v, hv, rfl, rfl⟩

theorem exists_generationRow (score : Nat → σ) {r : Derived} (hr : r ∈ results) {v : DerivedView} (hv : v ∈ r.2.1) :
    ∃ row ∈ generationRows results score, row.contractRevisionId = v.contractRevisionId ∧ row.viewType = v.viewType := by
  obtain ⟨i, hi⟩ := List.getElem?_of_mem (List.mem_flatMap.2 ⟨r, hr, hv⟩ : v ∈ results.flatMap (·.2.1))
  exact ⟨_, List.mem_map.2 ⟨(v, i), List.mk_mem_zipIdx_iff_getElem?.2 hi, rfl⟩, rfl, rfl⟩

theorem derive_views {inp : StructureInput} {r : Derived} (h : deriveV5 H U lim inp = .ok r) :
    r.2.1 ≠ [] ∧ ∀ v ∈ r.2.1, v.contractRevisionId = r.1.contractRevisionId := by
  obtain ⟨a, views, reason⟩ := r
  obtain ⟨⟨hv, hne⟩, -⟩ := deriveV5_cases h
  obtain ⟨hwf, hcol, -⟩ := StructureArtifact.buildDerivedViews_eq_ok hv
  have hb := StructureArtifact.collectViews_built hwf hcol
  refine ⟨hne, fun v hvm => ?_⟩
  obtain ⟨i, hi, rfl⟩ := List.getElem_of_mem hvm
  exact (hb.get (i := i) (by rw [hb.length_eq]; exact hi) hi).revision

/-- On a generation without a sealed profile every contract has a child view, and every unscoped search
is scored, exactly when every document of it is scorable. -/
theorem contracts_scored_iff {F : FloatOps σ} {values : List (Str × Str)} {corpus status : Str}
    {policy : DocumentAggregationPolicy}
    (hres : List.Forall₂ (fun inp r => deriveV5 H U lim inp = .ok r) docs results)
    (hvisible : ∀ inp ∈ docs, ∃ p ∈ inp.pages, ∃ c ∈ p.text, PyStr.isSpace c = false)
    (hinj : ∀ inp ∈ docs, H.InjectiveOn (parsedPayloads H U inp))
    (hids : (results.map (·.1.contractRevisionId)).Nodup)
    (hmeta : documentAggregationMetadata values corpus
      ((generationRows results score).map fun row => (row.contractRevisionId, row.viewType)) =
        .ok (status, policy, none))
    (hfinite : ∀ i, F.isFinite (score i) = true) :
    ((∀ r ∈ results, ∃ v ∈ r.2.1, v.viewType ≠ .contract) ↔ ∀ inp ∈ docs, inp.Scorable U lim) ∧
    ((∃ out, (scoreRows F (generationRows results score) >>= collapseScores F policy) = .ok out) ↔
      ∀ inp ∈ docs, inp.Scorable U lim) := by
  have hchild : (∀ r ∈ results, ∃ v ∈ r.2.1, v.viewType ≠ .contract) ↔ ∀ inp ∈ docs, inp.Scorable U lim := by
    clear hids hmeta
    induction hres with
    | nil => simp
    | cons h _ ih =>
      rw [List.forall_mem_cons, List.forall_mem_cons, ih (fun i hi => hvisible i (by simp [hi]))
        (fun i hi => hinj i (by simp [hi])),
        child_of_derive_iff h (hvisible _ (by simp)) (hinj _ (by simp))]
  have hviews : ∀ r ∈ results, r.2.1 ≠ [] ∧ ∀ v ∈ r.2.1, v.contractRevisionId = r.1.contractRevisionId := by
    intro r hr
    obtain ⟨i, hi, rfl⟩ := List.getElem_of_mem hr
    exact derive_views (hres.get (i := i) (by rw [hres.length_eq]; exact hi) hi)
  refine ⟨hchild, ?_⟩
  rw [policy_of_unsealed hmeta, collapse_ok_iff fun row hrow => ?_, ← hchild]
  · constructor
    · -- the rows of a contract come from one document
      intro hall r hr
      obtain ⟨hne, hrev⟩ := hviews r hr
      obtain ⟨v, hv⟩ := List.exists_mem_of_ne_nil _ hne
      obtain ⟨row, hrow, hrowrev, -⟩ := exists_generationRow score hr hv
      obtain ⟨child, hc, hcr, hct⟩ := hall row hrow
      obtain ⟨r', hr', w, hw, hwr, hwt⟩ := mem_generationRows hc
      have hsame : r'.1.contractRevisionId = r.1.contractRevisionId := by
        rw [← (hviews r' hr').2 w hw, ← hwr, hcr, hrowrev, hrev v hv]
      obtain rfl : r' = r := List.inj_on_of_nodup_map hids hr' hr hsame
      exact ⟨w, hw, hwt ▸ hct⟩
    · intro hall row hrow
      obtain ⟨r, hr, v, hv, hvr, -⟩ := mem_generationRows hrow
      obtain ⟨w, hw, hwt⟩ := hall r hr
      obtain ⟨child, hc, hcr, hct⟩ := exists_generationRow score hr hw
      refine ⟨child, hc, ?_, hct ▸ hwt⟩
      rw [hcr, hvr, (hviews r hr).2 w hw, (hviews r hr).2 v hv]
  · obtain ⟨⟨v, i⟩, -, rfl⟩ := List.mem_map.1 hrow
    exact hfinite i

end

/-- Exact arithmetic on scores, as doubles that are not rounded. -/
def FloatOps.exact : FloatOps ℚ where
  isFinite _ := true
  lt x y := x < y
  isClose x y := |x - y| ≤ max (max |x| |y| / 1000000000) (1 / 10000000)
  fsum xs := xs.sum
  divBy x n := x / n
  half x := x / 2

/-- A page on which only its marker was read. -/
def markerOnly : StructureInput := sampleInput [⟨['d'], 1, "## Page 1\n".toList⟩]

/-- The limits of the pipeline with a token per character. -/
def perCharacter : ViewLimits := v5Limits 1000 fun text => .ok text.length

theorem derive_markerOnly : ∃ r, deriveV5 .standard .ascii perCharacter markerOnly = .ok r ∧
    ∀ v ∈ r.2.1, v.viewType = .contract := by
  have heval : (match deriveV5 .standard .ascii perCharacter markerOnly with
      | .error _ => false
      | .ok r => decide (∀ v ∈ r.2.1, v.viewType = .contract)) = true := by decide +kernel
  split at heval
  · cases heval
  · rename_i r hr
    exact ⟨r, hr, of_decide_eq_true heval⟩

theorem contracts_scored_markerOnly : ∃ r, deriveV5 .standard .ascii perCharacter markerOnly = .ok r ∧
    (((∀ s ∈ [r], ∃ v ∈ s.2.1, v.viewType ≠ .contract) ↔ ∀ inp ∈ [markerOnly], inp.Scorable .ascii perCharacter) ∧
    ((∃ out, (scoreRows .exact (generationRows [r] fun _ => 1) >>= collapseScores .exact .maxChild) = .ok out) ↔
      ∀ inp ∈ [markerOnly], inp.Scorable .ascii perCharacter)) := by
  obtain ⟨r, hr, -⟩ := derive_markerOnly
  have hdigests : (parsedPayloads .standard .ascii markerOnly).map
      (fun t => (Sha256.standard.hexdigest t).take 1) = [['5'], ['0']] := by decide +kernel
  have hinj : Sha256.standard.InjectiveOn (parsedPayloads .standard .ascii markerOnly) :=
    Sha256.injectiveOn_of_nodup 1 (by rw [hdigests]; decide)
  refine ⟨r, hr, contracts_scored_iff (.cons hr .nil) ?_ (by simpa using hinj) (by simp)
    (show documentAggregationMetadata [] [] _ = .ok ("candidate_default".toList, .maxChild, none) from rfl)
    fun _ => rfl⟩
  simp only [List.mem_singleton, forall_eq]
  exact ⟨_, List.mem_singleton_self _, '#', by decide +kernel, by decide +kernel⟩

theorem unscorable_markerOnly : (∃ p ∈ markerOnly.pages, ∃ c ∈ p.text, PyStr.isSpace c = false) ∧
    ∃ r, deriveV5 .standard .ascii perCharacter markerOnly = .ok r ∧
      documentAggregationMetadata [] [] ((generationRows [r] fun _ => (1 : ℚ)).map fun row =>
        (row.contractRevisionId, row.viewType)) = .ok ("candidate_default".toList, .maxChild, none) ∧
      (¬ ∃ v ∈ r.2.1, v.viewType ≠ .contract) ∧
      ¬ ∃ out, (scoreRows .exact (generationRows [r] fun _ => 1) >>= collapseScores .exact .maxChild) = .ok out := by
  obtain ⟨r, hr, hall⟩ := derive_markerOnly
  refine ⟨⟨_, List.mem_singleton_self _, '#', by decide +kernel, by decide +kernel⟩, r, hr, rfl, ?_, ?_⟩
  · rintro ⟨v, hv, hne⟩
    exact hne (hall v hv)
  · rw [collapse_ok_iff fun row _ => rfl]
    intro hchild
    obtain ⟨v, hv⟩ := List.exists_mem_of_ne_nil _ (derive_views hr).1
    obtain ⟨row, hrow, -⟩ := exists_generationRow (fun _ => (1 : ℚ)) (List.mem_singleton_self r) hv
    obtain ⟨child, hc, -, hct⟩ := hchild row hrow
    obtain ⟨r', hr', w, hw, -, hwt⟩ := mem_generationRows hc
    rw [List.mem_singleton.1 hr'] at hw
    exact hct (hwt.trans (hall w hw))

end CardRag
