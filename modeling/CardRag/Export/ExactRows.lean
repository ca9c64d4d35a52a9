import CardRag.Structure.ViewPlan

/-! # The exact-row corpus (`v5_exact_row_corpus_sha256`)

The exporter and the server digest the embedding rows of a generation after the same checks; one of
them asks that a revision, a node and a view type name a single row. The views of a contract pass it
exactly when no item is split into several details. -/

namespace CardRag

/-- `[A-Za-z0-9][A-Za-z0-9._-]{0,127}`. -/
def isProfileId (value : Str) : Bool :=
  let first : Char → Bool := Char.isAlphanum
  Regex.fullmatch (.seq (.cls first)
    (.between (.cls fun c => first c || c == '.' || c == '_' || c == '-') 0 127)) value

/-- A row of the embedding matrix. -/
structure ExactRow where
  rowIndex : Nat
  contractRevisionId : Str
  nodeId : Str
  viewType : ViewType
  inputSha256 : Str
  profileId : Str
deriving DecidableEq, Repr

/-- A revision in the scope of the rows. -/
structure ExactRevision where
  contractRevisionId : Str
  productLineageId : Str
  effectiveDate : Option Str
  temporalStatus : TemporalStatus
deriving DecidableEq, Repr

/-- The order of the tuples; a missing date is never compared with a date. -/
def ExactRevision.key (r : ExactRevision) : Str ×ₗ Str ×ₗ Str ×ₗ Str :=
  toLex (r.contractRevisionId, toLex (r.productLineageId,
    toLex (r.effectiveDate.getD [], r.temporalStatus.text)))

/-- `sorted(revisions)` compares a missing date with a date. -/
def ExactRevision.Incomparable (r s : ExactRevision) : Prop :=
  r.contractRevisionId = s.contractRevisionId ∧ r.productLineageId = s.productLineageId ∧
    r.effectiveDate.isSome ≠ s.effectiveDate.isSome

instance (r s : ExactRevision) : Decidable (r.Incomparable s) := by
  unfold ExactRevision.Incomparable; infer_instance

def ExactRow.identity (r : ExactRow) : Str × Str × ViewType := (r.contractRevisionId, r.nodeId, r.viewType)

def ExactRevision.payload (r : ExactRevision) : Json :=
  .obj [("contract_revision_id".toList, .str r.contractRevisionId),
    ("effective_date".toList, .optStr r.effectiveDate),
    ("product_lineage_id".toList, .str r.productLineageId),
    ("temporal_status".toList, .str r.temporalStatus.text)]

def ExactRow.payload (r : ExactRow) : Json :=
  .obj [("contract_revision_id".toList, .str r.contractRevisionId),
    ("embedding_profile_id".toList, .str r.profileId), ("input_sha256".toList, .str r.inputSha256),
    ("node_id".toList, .str r.nodeId), ("row_index".toList, .num r.rowIndex),
    ("view_type".toList, .str r.viewType.text)]

def v5ExactRowCorpusSha256 (H : Sha256) (embeddingProfileId vectorSidecarSha256 : Str) (rows : List ExactRow)
    (revisions : List ExactRevision) : Except Raised Str := do
  raiseIf (isProfileId embeddingProfileId = false)
    (valueError "exact-row corpus embedding profile ID is invalid")
  raiseIf (isSha256 vectorSidecarSha256 = false) (valueError "exact-row corpus vector SHA-256 is invalid")
  raiseIf (rows.map (·.rowIndex) ≠ List.range rows.length)
    (valueError "exact-row corpus row indices must be contiguous and ordered")
  raiseIf (∃ row ∈ rows, row.profileId ≠ embeddingProfileId)
    (valueError "exact-row corpus row uses another embedding profile")
  raiseIf (¬ (rows.map (·.identity)).Nodup)
    (valueError "exact-row corpus contains duplicate revision/node/view identities")
  raiseIf (∃ r ∈ revisions, ∃ s ∈ revisions, r.Incomparable s)
    ⟨.typeError, "'<' not supported between instances of 'str' and 'NoneType'"⟩
  raiseIf (revisions ≠ PyList.sortedBy (·.key) revisions.dedup)
    (valueError "exact-row corpus revisions must be sorted and unique")
  raiseIf ((rows.map (·.contractRevisionId)).toFinset ≠ (revisions.map (·.contractRevisionId)).toFinset)
    (valueError "exact-row corpus rows and revisions differ")
  pure (H.canonical (.obj [
    ("embedding_profile_id".toList, .str embeddingProfileId),
    ("revisions".toList, .arr (revisions.map (·.payload))),
    ("rows".toList, .arr (rows.map (·.payload))),
    ("schema_version".toList, .str "cardrag.exact-row-corpus.v1".toList),
    ("vector_sidecar_sha256".toList, .str vectorSidecarSha256)]))

/-- The rows that the pipeline exports for the views of one contract. -/
def viewRows (profileId : Str) (views : List DerivedView) : List ExactRow :=
  views.zipIdx.map fun (view, index) =>
    ⟨index, view.contractRevisionId, view.nodeId, view.viewType, view.inputSha256, profileId⟩

/-- The revision of an artifact. -/
def StructureArtifact.exactRevision (a : StructureArtifact) (status : TemporalStatus) : ExactRevision :=
  ⟨a.contractRevisionId, a.productLineageId, a.effectiveDate, status⟩

namespace StructureArtifact

/-- What tells the rows of one contract apart. -/
def Planned.key (p : Planned) : Str × ViewType := (p.node.nodeId, p.viewType)

section
variable {H : Sha256} {a : StructureArtifact} {lim : ViewLimits} {views : List DerivedView}
  {nodes : List StructureNode} {item : StructureNode}

/-- Plans of nodes with distinct identifiers repeat a key only within a node. -/
theorem nodup_flatMap_key {planOf : StructureNode → List Planned} (hn : (nodes.map (·.nodeId)).Nodup)
    (hp : ∀ n ∈ nodes, ∀ p ∈ planOf n, p.node = n) :
    ((nodes.flatMap planOf).map Planned.key).Nodup ↔ ∀ n ∈ nodes, ((planOf n).map Planned.key).Nodup := by
  rw [List.map_flatMap, List.nodup_flatMap]
  refine ⟨fun h => h.1, fun h => ⟨h, ?_⟩⟩
  rw [List.Nodup, List.pairwise_map] at hn
  refine hn.imp_of_mem fun {m n} hm hn hne => ?_
  simp only [Function.onFun, List.disjoint_left, List.mem_map, not_exists, not_and]
  rintro _ ⟨p, hpm, rfl⟩ q hqn heq
  rw [Planned.key, Planned.key, Prod.mk.injEq, hp m hm p hpm, hp n hn q hqn] at heq
  exact hne heq.1.symm

theorem titlePlan_node {p : Planned} (h : p ∈ a.titlePlan item) : p.node = item ∧ p.viewType = .title := by
  unfold titlePlan at h
  split at h
  · cases h
  · rw [List.mem_singleton.1 h]
    exact ⟨rfl, rfl⟩

theorem sectionPlan_node {p : Planned} (h : p ∈ a.sectionPlan lim item) :
    p.node = item ∧ p.viewType = .majorSection := by
  unfold sectionPlan at h
  split at h
  · rw [List.mem_singleton.1 h]
    exact ⟨rfl, rfl⟩
  · cases h

theorem contractPlan_type {p : Planned} (h : p ∈ a.contractPlan lim) : p.viewType = .contract := by
  unfold contractPlan at h
  split at h
  · cases h
  · split at h
    · rw [List.mem_singleton.1 h]
    · cases h

theorem itemPlan_node {p : Planned} (h : p ∈ a.itemPlan lim item) :
    p.node = item ∧ (p.viewType = .rawItem ∨ p.viewType = .contextualItem ∨ p.viewType = .detail) := by
  unfold itemPlan at h
  split at h
  · cases h
  · simp only [List.mem_append, List.mem_map] at h
    rcases h with (h | h) | ⟨g, -, rfl⟩
    · split at h
      · rw [List.mem_singleton.1 h]
        exact ⟨rfl, .inl rfl⟩
      · cases h
    · split at h
      · rw [List.mem_singleton.1 h]
        exact ⟨rfl, .inr (.inl rfl)⟩
      · cases h
    · exact ⟨rfl, .inr (.inr rfl)⟩

/-- Only details repeat. -/
theorem nodup_itemPlan : ((a.itemPlan lim item).map Planned.key).Nodup ↔
    a.rawSpans item = [] ∨ (a.detailGroups lim item).length ≤ 1 := by
  unfold itemPlan
  by_cases hnil : a.rawSpans item = []
  · simp [hnil]
  · have hdetail : ((a.detailGroups lim item).map fun g => (⟨item, .detail, g⟩ : Planned)).map Planned.key =
        List.replicate (a.detailGroups lim item).length (item.nodeId, ViewType.detail) := by
      simp [Planned.key, Function.comp_def]
    rw [if_neg hnil, List.map_append, hdetail]
    cases a.rawFits lim item <;> cases a.contextualFits lim item <;>
      simp [hnil, Planned.key, List.nodup_replicate, List.mem_replicate]

/-- The loop of `build_derived_views` that makes the views of a type. -/
def stage : ViewType → Nat
  | .title => 0
  | .rawItem | .contextualItem | .detail => 1
  | .majorSection => 2
  | .contract => 3

theorem nodup_append_of_stage {l m : List Planned} {k : Nat} (hl : ∀ p ∈ l, stage p.viewType < k)
    (hm : ∀ p ∈ m, stage p.viewType = k) :
    ((l ++ m).map Planned.key).Nodup ↔ (l.map Planned.key).Nodup ∧ (m.map Planned.key).Nodup := by
  rw [List.map_append, List.nodup_append]
  refine ⟨fun h => ⟨h.1, h.2.1⟩, fun h => ⟨h.1, h.2, fun x hx y hy heq => ?_⟩⟩
  obtain ⟨p, hp, rfl⟩ := List.mem_map.1 hx
  obtain ⟨q, hq, rfl⟩ := List.mem_map.1 hy
  have hlt := hl p hp
  rw [(Prod.mk.inj heq).2, hm q hq] at hlt
  omega

theorem nodup_viewPlan (h : a.WellFormed H) : ((a.viewPlan lim).map Planned.key).Nodup ↔
    ∀ item ∈ a.itemNodes, a.rawSpans item = [] ∨ (a.detailGroups lim item).length ≤ 1 := by
  have hids : ∀ p : StructureNode → Bool, ((a.nodes.filter p).map (·.nodeId)).Nodup := fun p =>
    h.ids.sublist (List.filter_sublist.map _)
  have htitle : ((a.titleNodes.flatMap a.titlePlan).map Planned.key).Nodup := by
    refine (nodup_flatMap_key (hids _) fun n _ p hp => (titlePlan_node hp).1).2 fun n _ => ?_
    unfold titlePlan
    split <;> simp
  have hsection : ((a.sectionNodes.flatMap (a.sectionPlan lim)).map Planned.key).Nodup := by
    refine (nodup_flatMap_key (hids _) fun n _ p hp => (sectionPlan_node hp).1).2 fun n _ => ?_
    unfold sectionPlan
    split <;> simp
  have hcontract : ((a.contractPlan lim).map Planned.key).Nodup := by
    unfold contractPlan
    split
    · simp
    · split <;> simp
  have hitem : ((a.itemNodes.flatMap (a.itemPlan lim)).map Planned.key).Nodup ↔
      ∀ item ∈ a.itemNodes, ((a.itemPlan lim item).map Planned.key).Nodup :=
    nodup_flatMap_key (hids _) fun n _ p hp => (itemPlan_node hp).1
  have s0 : ∀ p ∈ a.titleNodes.flatMap a.titlePlan, stage p.viewType = 0 := by
    intro p hp
    obtain ⟨n, -, hp⟩ := List.mem_flatMap.1 hp
    rw [(titlePlan_node hp).2, stage]
  have s1 : ∀ p ∈ a.itemNodes.flatMap (a.itemPlan lim), stage p.viewType = 1 := by
    intro p hp
    obtain ⟨n, -, hp⟩ := List.mem_flatMap.1 hp
    rcases (itemPlan_node hp).2 with ht | ht | ht <;> rw [ht, stage]
  have s2 : ∀ p ∈ a.sectionNodes.flatMap (a.sectionPlan lim), stage p.viewType = 2 := by
    intro p hp
    obtain ⟨n, -, hp⟩ := List.mem_flatMap.1 hp
    rw [(sectionPlan_node hp).2, stage]
  have s3 : ∀ p ∈ a.contractPlan lim, stage p.viewType = 3 := fun p hp => by
    rw [contractPlan_type hp, stage]
  have s01 : ∀ p ∈ a.titleNodes.flatMap a.titlePlan ++ a.itemNodes.flatMap (a.itemPlan lim),
      stage p.viewType < 2 := by
    intro p hp
    rcases List.mem_append.1 hp with hp | hp
    · rw [s0 p hp]; omega
    · rw [s1 p hp]; omega
  have s012 : ∀ p ∈ a.titleNodes.flatMap a.titlePlan ++ a.itemNodes.flatMap (a.itemPlan lim) ++
      a.sectionNodes.flatMap (a.sectionPlan lim), stage p.viewType < 3 := by
    intro p hp
    rcases List.mem_append.1 hp with hp | hp
    · exact (s01 p hp).trans (by omega)
    · rw [s2 p hp]; omega
  rw [viewPlan, nodup_append_of_stage s012 s3, nodup_append_of_stage s01 s2,
    nodup_append_of_stage (fun p hp => by rw [s0 p hp]; omega) s1,
    hitem]
  simp only [htitle, hsection, hcontract, true_and, and_true, nodup_itemPlan]

/-! ### When an item is one detail -/

theorem length_partitionSpans {units groups : List (List NodeSpan)} {context : List Str}
    (hu : ∀ unit ∈ units, unit ≠ []) (h : a.partitionSpans lim units context = .ok groups) :
    groups.length ≤ 1 ↔ ∀ us, us <+: units → 2 ≤ us.length →
      lim.within (a.detailInput context us) = .ok true := by
  simp only [partitionSpans, Guard.bind_eq_ok, Guard.pure_eq_ok] at h
  obtain ⟨p, hp, rfl⟩ := h
  have hsingle : p.groups = [] ↔ ∀ us, us <+: units → us ≠ [] → 2 ≤ ([] ++ us).length →
      lim.within (a.detailInput context ([] ++ us)) = .ok true :=
    partition_single hu (by simp) rfl rfl hp
  have hinit : PartitionOk [] ({} : Partition) := ⟨by simp, by simp, by simp, by simp⟩
  have hpend := (hinit.run hu hp).pending
  rw [List.nil_append] at hpend
  have hgroups : p.groups = [] ↔ (if p.pending = [] then p.groups
      else p.groups ++ [orderedUniqueSpans p.pending]).length ≤ 1 := by
    by_cases hnil : p.pending = []
    · have hunits : units = [] := by
        by_contra hne
        exact hpend hne hnil
      subst hunits
      simp only [List.foldlM_nil, Guard.pure_eq_ok] at hp
      simp [← hp]
    · simp [hnil]
  rw [← hgroups, hsingle]
  constructor
  · intro hall us hus hlen
    exact hall us hus (by rintro rfl; simp at hlen) hlen
  · intro hall us hus _ hlen
    exact hall us hus hlen

/-- The text of every item fits raw and in context, or its leaves fit into one detail however many of
them are read. -/
def DetailsJoin (a : StructureArtifact) (lim : ViewLimits) : Prop :=
  ∀ item ∈ a.itemNodes,
    (lim.within (a.textOf (a.rawSpans item)) = .ok true ∧
      lim.within (embeddingInput .contextualItem (a.textOf (a.contextualSpans item))
        (a.canonicalItemContext item)) = .ok true) ∨
    ∀ us, us <+: a.units item → 2 ≤ us.length →
      lim.within (a.detailInput (a.canonicalItemContext item) us) = .ok true

theorem detailGroups_iff (h : a.WellFormed H) (hcol : a.collectViews H lim = .ok views) (hi : item ∈ a.itemNodes) :
    (a.rawSpans item = [] ∨ (a.detailGroups lim item).length ≤ 1) ↔
      (lim.within (a.textOf (a.rawSpans item)) = .ok true ∧
        lim.within (embeddingInput .contextualItem (a.textOf (a.contextualSpans item))
          (a.canonicalItemContext item)) = .ok true) ∨
      ∀ us, us <+: a.units item → 2 ≤ us.length →
        lim.within (a.detailInput (a.canonicalItemContext item) us) = .ok true := by
  rw [← ViewLimits.fits_iff, ← ViewLimits.fits_iff]
  by_cases hnil : a.rawSpans item = []
  · have hunits : a.units item = [] := by
      rw [rawSpans, orderedUniqueSpans_eq_nil, List.flatMap_eq_nil_iff] at hnil
      by_contra hne
      obtain ⟨unit, hu⟩ := List.exists_mem_of_ne_nil _ hne
      have hune := h.units_ne_nil unit hu
      obtain ⟨leaf, hl, rfl⟩ := List.mem_map.1 hu
      exact hune (hnil leaf hl)
    simp only [hnil, true_or, true_iff]
    refine .inr fun us hus hlen => ?_
    rw [hunits, List.prefix_nil] at hus
    subst hus
    simp at hlen
  · simp only [hnil, false_or]
    show (a.detailGroups lim item).length ≤ 1 ↔
      (a.rawFits lim item = true ∧ a.contextualFits lim item = true) ∨ _
    unfold detailGroups
    by_cases hfit : (a.rawFits lim item && a.contextualFits lim item) = true
    · rw [if_pos hfit]
      simp only [Bool.and_eq_true] at hfit
      simp [hfit]
    · simp only [collectViews, Guard.bind_eq_ok] at hcol
      obtain ⟨_, -, _, hitems, -⟩ := hcol
      obtain ⟨_, _, hv⟩ := Guard.foldlM_mem hitems hi
      obtain ⟨groups, hg⟩ := partitionSpans_of_itemViews hnil (Bool.eq_false_iff.2 hfit) hv
      rw [if_neg hfit, hg]
      dsimp only
      rw [length_partitionSpans h.units_ne_nil hg]
      rw [Bool.and_eq_true] at hfit
      simp only [hfit, false_or]

/-- The identities of the views are those of the plan. -/
theorem nodup_views (h : a.WellFormed H) (hcol : a.collectViews H lim = .ok views) :
    (views.map fun v => (v.contractRevisionId, v.nodeId, v.viewType)).Nodup ↔ a.DetailsJoin lim := by
  have hkeys : (views.map fun v => (v.contractRevisionId, v.nodeId, v.viewType)) =
      ((a.viewPlan lim).map Planned.key).map fun k => (a.contractRevisionId, k) := by
    have hb := collectViews_built h hcol
    generalize a.viewPlan lim = plan at hb
    clear hcol
    induction hb with
    | nil => rfl
    | cons hpv _ ih => simp only [List.map_cons, ih, hpv.revision, hpv.node, hpv.type, Planned.key]
  rw [hkeys, List.nodup_map_iff (fun x y hxy => (Prod.mk.inj hxy).2), nodup_viewPlan h]
  exact forall₂_congr fun item hi => detailGroups_iff h hcol hi

end

end StructureArtifact

section
variable {H : Sha256} {a : StructureArtifact} {lim : ViewLimits} {views : List DerivedView}

/-- The checks of the corpus on the rows of one contract. -/
theorem corpus_ok_iff {profileId sidecarSha256 : Str} {status : TemporalStatus} (hne : views ≠ [])
    (hrev : ∀ v ∈ views, v.contractRevisionId = a.contractRevisionId) (hprofile : isProfileId profileId = true)
    (hsha : isSha256 sidecarSha256 = true) :
    (∃ digest, v5ExactRowCorpusSha256 H profileId sidecarSha256 (viewRows profileId views)
      [a.exactRevision status] = .ok digest) ↔
    (views.map fun v => (v.contractRevisionId, v.nodeId, v.viewType)).Nodup := by
  have hindex : (viewRows profileId views).map (·.rowIndex) = List.range (viewRows profileId views).length := by
    rw [viewRows, List.map_map, List.length_map, List.length_zipIdx, List.range_eq_range', ← List.zipIdx_map_snd]
    rfl
  have hrow : ∀ row ∈ viewRows profileId views, row.profileId = profileId := by
    intro row hr
    obtain ⟨x, -, rfl⟩ := List.mem_map.1 hr
    rfl
  have hidentity : (viewRows profileId views).map (·.identity) =
      views.map fun v => (v.contractRevisionId, v.nodeId, v.viewType) := by
    have hfst : views.map (fun v => (v.contractRevisionId, v.nodeId, v.viewType)) =
        (views.zipIdx.map Prod.fst).map fun v => (v.contractRevisionId, v.nodeId, v.viewType) := by
      rw [List.zipIdx_map_fst]
    rw [hfst, viewRows, List.map_map, List.map_map]
    rfl
  have hrevisions : ((viewRows profileId views).map (·.contractRevisionId)).toFinset =
      ([a.exactRevision status].map (·.contractRevisionId)).toFinset := by
    have hmap : (viewRows profileId views).map (·.contractRevisionId) =
        List.replicate views.length a.contractRevisionId := by
      rw [List.eq_replicate_iff]
      refine ⟨by simp [viewRows], fun r hr => ?_⟩
      obtain ⟨row, hrow, rfl⟩ := List.mem_map.1 hr
      obtain ⟨⟨v, i⟩, hv, rfl⟩ := List.mem_map.1 hrow
      exact hrev v ((List.mem_zipIdx' hv).2 ▸ List.getElem_mem _)
    rw [hmap, List.toFinset_replicate_of_ne_zero (by simpa using hne)]
    rfl
  simp only [v5ExactRowCorpusSha256, Guard.bind_eq_ok, raiseIf_eq_ok, Guard.exists_unit, Guard.pure_eq_ok,
    exists_and_left, exists_eq', and_true, hprofile, hsha, hindex, hidentity, hrevisions, not_not]
  constructor
  · rintro ⟨-, -, -, -, h, -⟩
    exact h
  · intro h
    refine ⟨by simp, by simp, trivial, ?_, h, ?_, rfl⟩
    · rintro ⟨row, hr, hne⟩
      exact hne (hrow row hr)
    · simp [ExactRevision.Incomparable]

/-- The views of a contract have distinct row identities, and the corpus digest is returned, exactly when
no item is split. -/
theorem rows_exportable_iff {profileId sidecarSha256 : Str} (status : TemporalStatus)
    (hv : a.buildDerivedViews H lim = .ok views) (hne : views ≠ [])
    (hprofile : isProfileId profileId = true) (hsha : isSha256 sidecarSha256 = true) :
    ((views.map fun v => (v.contractRevisionId, v.nodeId, v.viewType)).Nodup ∧
      ∃ digest, v5ExactRowCorpusSha256 H profileId sidecarSha256 (viewRows profileId views)
        [a.exactRevision status] = .ok digest) ↔ a.DetailsJoin lim := by
  obtain ⟨hwf, hcol, -⟩ := StructureArtifact.buildDerivedViews_eq_ok hv
  have hrev : ∀ v ∈ views, v.contractRevisionId = a.contractRevisionId := by
    intro v hvm
    have hb := StructureArtifact.collectViews_built hwf hcol
    obtain ⟨i, hi, rfl⟩ := List.getElem_of_mem hvm
    exact (hb.get (i := i) (by rw [hb.length_eq]; exact hi) hi).revision
  rw [corpus_ok_iff hne hrev hprofile hsha, and_self, StructureArtifact.nodup_views hwf hcol]

end

theorem rows_exportable_one_line : ∃ a views,
    buildUnclassifiedFallbackArtifact .standard oneLine = .ok a ∧
    a.buildDerivedViews .standard ⟨1000, none, none⟩ = .ok views ∧ views ≠ [] ∧
    (((views.map fun v => (v.contractRevisionId, v.nodeId, v.viewType)).Nodup ∧
      ∃ digest, v5ExactRowCorpusSha256 .standard ['p'] (List.replicate 64 '0') (viewRows ['p'] views)
        [a.exactRevision .current] = .ok digest) ↔ a.DetailsJoin ⟨1000, none, none⟩) := by
  obtain ⟨a, views, ha, hv, hne⟩ := exists_views_one_line
  exact ⟨a, views, ha, hv, hne, rows_exportable_iff .current hv hne (by decide +kernel) (by decide +kernel)⟩

/-- Two lines, each of which fits the limit of `splitLimits` as a detail, but not both. -/
def twoLines : StructureInput := sampleInput [⟨['d'], 1, "a\nb\n".toList⟩]

def splitLimits : ViewLimits := ⟨202, none, none⟩

theorem rows_collide_two_lines : ∃ a views,
    buildUnclassifiedFallbackArtifact .standard twoLines = .ok a ∧
    a.buildDerivedViews .standard splitLimits = .ok views ∧ views ≠ [] ∧
    isProfileId ['p'] = true ∧ isSha256 (List.replicate 64 '0') = true ∧
    ¬ (views.map fun v => (v.contractRevisionId, v.nodeId, v.viewType)).Nodup ∧
    ¬ ∃ digest, v5ExactRowCorpusSha256 .standard ['p'] (List.replicate 64 '0') (viewRows ['p'] views)
      [a.exactRevision .current] = .ok digest := by
  have heval : fallbackViews twoLines splitLimits (fun a views =>
      decide (¬ (views.map fun v => (v.contractRevisionId, v.nodeId, v.viewType)).Nodup ∧
        ∀ v ∈ views, v.contractRevisionId = a.contractRevisionId)) = true := by decide +kernel
  obtain ⟨a, views, ha, hv, hholds⟩ := exists_views heval
  obtain ⟨hdup, hrev⟩ := of_decide_eq_true hholds
  have hne : views ≠ [] := by
    rintro rfl
    exact hdup List.nodup_nil
  have hprofile : isProfileId ['p'] = true := by decide +kernel
  have hsha : isSha256 (List.replicate 64 '0') = true := by decide +kernel
  exact ⟨a, views, ha, hv, hne, hprofile, hsha, hdup, fun hd => hdup ((corpus_ok_iff hne hrev hprofile hsha).1 hd)⟩

end CardRag
