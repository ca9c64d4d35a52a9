import CardRag.History.State

/-! # Supersession in the PDF cache

Whatever calls are made on a new state, and whichever of them raise: a bound source has one active
revision, a lineage has one active source, the one bound last, and the successors of a superseded
source lead to it (`supersession_invariant`). A source is superseded by the one bound next, so along
the successors the last binding gets more recent. -/

namespace CardRag

/-! ### What a call leaves in the tables -/

/-- The transaction of `bind_pdf_cache_source`: the revision it leaves active, and the tables it
commits. -/
def WorkerState.bindTransaction (st : WorkerState) (r : BindRequest) : Except Raised (Nat × WorkerState) := do
  WorkerState.checkBind r
  let observed ← r.observedAt.utcIso
  let verified ← r.verifiedAt.utcIso
  WorkerState.checkObject st.objects r
  let sources ← WorkerState.registerSource st.sources r observed verified
  let (revisionId, revisions) ← WorkerState.bindRevision st.revisions r observed verified
  return (revisionId,
    { sources := (sources.map (WorkerState.supersedeSource r observed)).map
        (WorkerState.activateSource r observed verified)
      revisions := revisions
      objects := st.objects.map fun o =>
        if o.pdfSha256 = r.pdfSha256 then { o with lastVerifiedAt := latest o.lastVerifiedAt verified } else o })

theorem WorkerState.bindPdfCacheSource_eq (st : WorkerState) (r : BindRequest) :
    st.bindPdfCacheSource r = (do
      let (revisionId, bound) ← st.bindTransaction r
      match ← bound.pdfCacheSourceBinding r.sourceId with
      | none => throw ⟨.runtimeError, "PDF cache source binding was not persisted"⟩
      | some binding => do
        raiseIf (binding.revisionId ≠ revisionId) ⟨.runtimeError, "PDF cache source binding was not persisted"⟩
        return (binding, bound)) := by
  simp only [bindPdfCacheSource, bindTransaction, bind_assoc, pure_bind] <;> rfl

/-- The tables after a call, whether it returns or raises: the transaction is rolled back when it
raises, and what is raised after the commit does not undo it. -/
def Command.durable (st : WorkerState) : Command → WorkerState
  | record request => (st.recordPdfCacheObject request).toOption.getD st
  | bind request => ((st.bindTransaction request).toOption.map (·.2)).getD st

/-- The tables after some calls, and the bindings that returned, the last one first. -/
structure Bindings where
  state : WorkerState
  bound : List BindRequest

def Bindings.call (b : Bindings) (c : Command) : Bindings where
  state := c.durable b.state
  bound := match c with
    | .record _ => b.bound
    | .bind request => if (b.state.bindPdfCacheSource request).isOk then request :: b.bound else b.bound

/-- Calls on a new state. -/
def Bindings.after (commands : List Command) : Bindings := commands.foldl Bindings.call ⟨.empty, []⟩

/-- How long ago a source was bound last. -/
def lastBound (bound : List BindRequest) (sourceId : Str) : Nat := (bound.map (·.sourceId)).idxOf sourceId

/-- The binding of a lineage that was made last. -/
def latestOf (bound : List BindRequest) (lineage : Lineage) : Option BindRequest := bound.find? (·.lineage = lineage)

/-- The only row with the key of `a` that is selected. -/
theorem filter_eq_singleton {α β : Type} {key : α → β} {rows : List α} {p : α → Bool} {a : α}
    (hn : (rows.map key).Nodup) (ha : a ∈ rows) (hpa : p a = true) (hu : ∀ u ∈ rows, p u = true → key u = key a) :
    rows.filter p = [a] := by
  have hnodup : (rows.filter p).Nodup := (List.Nodup.of_map _ hn).filter _
  refine List.perm_singleton.1 ((List.perm_ext_iff_of_nodup hnodup (List.nodup_singleton a)).2 fun u => ?_)
  rw [List.mem_filter, List.mem_singleton]
  constructor
  · rintro ⟨hmem, hpu⟩
    exact List.inj_on_of_nodup_map hn hmem ha (hu u hmem hpu)
  · rintro rfl
    exact ⟨ha, hpa⟩

/-! ### The sources -/

/-- What a binding does to the row of a source. -/
def rebind (r : BindRequest) (observed verified : Str) (s : PDFCacheSource) : PDFCacheSource :=
  WorkerState.activateSource r observed verified (WorkerState.supersedeSource r observed s)

section rebind
variable (r : BindRequest) (observed verified : Str) {s : PDFCacheSource}

theorem rebind_identity (s : PDFCacheSource) : (rebind r observed verified s).identity = s.identity := by
  unfold rebind WorkerState.activateSource WorkerState.supersedeSource
  split <;> split <;> rfl

theorem rebind_self (h : s.identity.sourceId = r.sourceId) :
    (rebind r observed verified s).supersededAt = none ∧
      (rebind r observed verified s).supersededBySourceId = none := by
  have hs : WorkerState.supersedeSource r observed s = s := if_neg fun hc => hc.2.1 h
  rw [rebind, hs, WorkerState.activateSource, if_pos h]
  exact ⟨rfl, rfl⟩

theorem rebind_active (h : s.identity.sourceId ≠ r.sourceId) (hl : s.identity.lineage = r.lineage)
    (ha : s.supersededAt = none) :
    rebind r observed verified s = { s with supersededBySourceId := some r.sourceId, supersededAt := some observed } := by
  rw [rebind, WorkerState.supersedeSource, if_pos ⟨hl, h, ha⟩, WorkerState.activateSource, if_neg]
  exact h

theorem rebind_other (h : s.identity.sourceId ≠ r.sourceId)
    (hother : ¬ (s.identity.lineage = r.lineage ∧ s.supersededAt = none)) : rebind r observed verified s = s := by
  rw [rebind, WorkerState.supersedeSource, if_neg fun hc => hother ⟨hc.1, hc.2.2⟩, WorkerState.activateSource,
    if_neg h]

end rebind

/-- The table of the sources after the bindings `bound`, the last one first. -/
structure SourceInv (sources : List PDFCacheSource) (bound : List BindRequest) : Prop where
  nodup : (sources.map (·.identity.sourceId)).Nodup
  identity : ∀ s ∈ sources, ∃ r ∈ bound, r.identity = s.identity
  registered : ∀ r ∈ bound, ∃ s ∈ sources, s.identity = r.identity
  active : ∀ s ∈ sources,
    s.supersededAt = none ↔ (latestOf bound s.identity.lineage).map (·.sourceId) = some s.identity.sourceId
  pointer : ∀ s ∈ sources, s.supersededAt = none ↔ s.supersededBySourceId = none
  newer : ∀ s ∈ sources, ∀ id, s.supersededBySourceId = some id → ∃ u ∈ sources, u.identity.sourceId = id ∧
    u.identity.lineage = s.identity.lineage ∧ lastBound bound id < lastBound bound s.identity.sourceId

namespace SourceInv
variable {sources : List PDFCacheSource} {bound : List BindRequest}

theorem eq_of_sourceId (h : SourceInv sources bound) {s u : PDFCacheSource} (hs : s ∈ sources) (hu : u ∈ sources)
    (hid : s.identity.sourceId = u.identity.sourceId) : s = u :=
  List.inj_on_of_nodup_map h.nodup hs hu hid

theorem empty : SourceInv [] [] where
  nodup := List.nodup_nil
  identity := by simp
  registered := by simp
  active := by simp
  pointer := by simp
  newer := by simp

theorem active_iff (h : SourceInv sources bound) {s : PDFCacheSource} (hs : s ∈ sources) :
    s.supersededAt = none ↔ ∃ r, latestOf bound s.identity.lineage = some r ∧ r.sourceId = s.identity.sourceId := by
  rw [h.active s hs, Option.map_eq_some_iff]

end SourceInv

theorem lastBound_self (r : BindRequest) (bound : List BindRequest) : lastBound (r :: bound) r.sourceId = 0 := by
  rw [lastBound, List.map_cons, List.idxOf_cons_self]

theorem lastBound_ne {r : BindRequest} (bound : List BindRequest) {id : Str} (h : id ≠ r.sourceId) :
    lastBound (r :: bound) id = lastBound bound id + 1 := by
  rw [lastBound, List.map_cons, List.idxOf_cons_ne _ h.symm]
  rfl

/-- `registerSource` leaves the other rows alone and has a row for the source. -/
structure Registered (r : BindRequest) (sources sources' : List PDFCacheSource) : Prop where
  row : ∃ s ∈ sources', s.identity = r.identity
  subset : ∀ s ∈ sources, s ∈ sources'
  other : ∀ s ∈ sources', s.identity.sourceId ≠ r.sourceId → s ∈ sources

theorem registerSource_cases {sources sources' : List PDFCacheSource} {r : BindRequest} {observed verified : Str}
    (h : WorkerState.registerSource sources r observed verified = .ok sources') :
    (sources' = sources ∧ ∃ s ∈ sources, s.identity = r.identity) ∨
      ((∀ s ∈ sources, s.identity.sourceId ≠ r.sourceId) ∧
        sources' = sources ++ [⟨r.identity, observed, observed, verified, none, none⟩]) := by
  unfold WorkerState.registerSource at h
  cases hfind : sources.find? (·.identity.sourceId = r.sourceId) with
  | none =>
    rw [hfind] at h
    refine .inr ⟨fun s hs hid => ?_, (Except.ok.inj h).symm⟩
    exact absurd (decide_eq_true hid) (List.find?_eq_none.1 hfind s hs)
  | some s =>
    rw [hfind] at h
    simp only [Guard.bind_eq_ok, raiseIf_eq_ok, Guard.exists_unit, not_not, Guard.pure_eq_ok] at h
    exact .inl ⟨h.2.symm, s, List.mem_of_find?_eq_some hfind, h.1⟩

theorem registerSource_registered {sources sources' : List PDFCacheSource} {r : BindRequest} {observed verified : Str}
    (h : WorkerState.registerSource sources r observed verified = .ok sources') : Registered r sources sources' := by
  rcases registerSource_cases h with ⟨rfl, hs⟩ | ⟨-, rfl⟩
  · exact ⟨hs, fun _ h => h, fun _ h _ => h⟩
  · refine ⟨⟨_, List.mem_append_right _ (List.mem_singleton_self _), rfl⟩, fun _ h => List.mem_append_left _ h, ?_⟩
    intro s hs hid
    rcases List.mem_append.1 hs with hs | hs
    · exact hs
    · rw [List.mem_singleton] at hs
      subst hs
      exact absurd rfl hid

theorem registerSource_nodup {sources sources' : List PDFCacheSource} {r : BindRequest} {observed verified : Str}
    (h : WorkerState.registerSource sources r observed verified = .ok sources')
    (hn : (sources.map (·.identity.sourceId)).Nodup) : (sources'.map (·.identity.sourceId)).Nodup := by
  rcases registerSource_cases h with ⟨rfl, -⟩ | ⟨hnew, rfl⟩
  · exact hn
  · rw [List.map_append, List.nodup_append]
    refine ⟨hn, List.nodup_singleton _, ?_⟩
    intro id hid id' hid'
    obtain ⟨s, hs, rfl⟩ := List.mem_map.1 hid
    rw [List.map_singleton, List.mem_singleton] at hid'
    exact hid' ▸ hnew s hs

/-- A binding keeps the table of the sources in order. -/
theorem SourceInv.bind {sources sources' : List PDFCacheSource} {bound : List BindRequest} {r : BindRequest}
    {observed verified : Str} (h : SourceInv sources bound)
    (hr : WorkerState.registerSource sources r observed verified = .ok sources') :
    SourceInv (sources'.map (rebind r observed verified)) (r :: bound) := by
  have hreg := registerSource_registered hr
  have hnodup := registerSource_nodup hr h.nodup
  obtain ⟨s₀, hs₀, hid₀⟩ := hreg.row
  have hself : ∀ s ∈ sources', s.identity.sourceId = r.sourceId → s.identity = r.identity := by
    intro s hs hid
    rw [List.inj_on_of_nodup_map hnodup hs hs₀ (hid.trans (congrArg _ hid₀.symm)), hid₀]
  have hid₀' : s₀.identity.sourceId = r.sourceId := congrArg _ hid₀
  refine ⟨?_, ?_, ?_, ?_, ?_, ?_⟩
  · rw [List.map_map]
    simpa only [Function.comp_def, rebind_identity] using hnodup
  · intro s' hs'
    obtain ⟨s, hs, rfl⟩ := List.mem_map.1 hs'
    rw [rebind_identity]
    by_cases hid : s.identity.sourceId = r.sourceId
    · exact ⟨r, List.mem_cons_self, (hself s hs hid).symm⟩
    · obtain ⟨q, hq, hqs⟩ := h.identity s (hreg.other s hs hid)
      exact ⟨q, List.mem_cons_of_mem _ hq, hqs⟩
  · intro q hq
    rcases List.mem_cons.1 hq with rfl | hq
    · exact ⟨_, List.mem_map_of_mem hs₀, (rebind_identity _ _ _ _).trans hid₀⟩
    · obtain ⟨s, hs, hqs⟩ := h.registered q hq
      exact ⟨_, List.mem_map_of_mem (hreg.subset s hs), (rebind_identity _ _ _ _).trans hqs⟩
  · intro s' hs'
    obtain ⟨s, hs, rfl⟩ := List.mem_map.1 hs'
    rw [rebind_identity, latestOf, List.find?_cons]
    by_cases hid : s.identity.sourceId = r.sourceId
    · have hl : r.lineage = s.identity.lineage := congrArg _ (hself s hs hid).symm
      simp only [hl, decide_true, Option.map_some, hid, (rebind_self r observed verified hid).1]
    · have hold := h.active s (hreg.other s hs hid)
      by_cases hl : s.identity.lineage = r.lineage
      · simp only [hl, decide_true, Option.map_some, Option.some.injEq, Ne.symm hid, iff_false]
        by_cases ha : s.supersededAt = none
        · rw [rebind_active r observed verified hid hl ha]
          exact Option.some_ne_none _
        · rw [rebind_other r observed verified hid fun hc => ha hc.2]
          exact ha
      · rw [rebind_other r observed verified hid fun hc => hl hc.1, decide_eq_false (Ne.symm hl)]
        exact hold
  · intro s' hs'
    obtain ⟨s, hs, rfl⟩ := List.mem_map.1 hs'
    by_cases hid : s.identity.sourceId = r.sourceId
    · obtain ⟨h₁, h₂⟩ := rebind_self r observed verified hid
      exact iff_of_true h₁ h₂
    · by_cases hl : s.identity.lineage = r.lineage ∧ s.supersededAt = none
      · rw [rebind_active r observed verified hid hl.1 hl.2]
        exact iff_of_false (Option.some_ne_none _) (Option.some_ne_none _)
      · rw [rebind_other r observed verified hid hl]
        exact h.pointer s (hreg.other s hs hid)
  · intro s' hs' id hptr
    obtain ⟨s, hs, rfl⟩ := List.mem_map.1 hs'
    rw [rebind_identity]
    by_cases hid : s.identity.sourceId = r.sourceId
    · rw [(rebind_self r observed verified hid).2] at hptr
      cases hptr
    rw [lastBound_ne bound hid]
    by_cases hl : s.identity.lineage = r.lineage ∧ s.supersededAt = none
    · rw [rebind_active r observed verified hid hl.1 hl.2] at hptr
      cases hptr
      refine ⟨_, List.mem_map_of_mem hs₀, ?_, ?_, ?_⟩
      · rw [rebind_identity, hid₀']
      · rw [rebind_identity, hid₀, hl.1]
        rfl
      · rw [lastBound_self]
        exact Nat.succ_pos _
    · rw [rebind_other r observed verified hid hl] at hptr
      obtain ⟨u, hu, huid, hul, hlt⟩ := h.newer s (hreg.other s hs hid) id hptr
      refine ⟨_, List.mem_map_of_mem (hreg.subset u hu), ?_, ?_, ?_⟩
      · rw [rebind_identity, huid]
      · rw [rebind_identity, hul]
      · by_cases hir : id = r.sourceId
        · rw [hir, lastBound_self]
          exact Nat.succ_pos _
        · rw [lastBound_ne bound hir]
          exact Nat.succ_lt_succ hlt

/-- `superseded_by_source_id` of a source. -/
def successorIn (sources : List PDFCacheSource) (sourceId : Str) : Option Str :=
  (sources.find? (·.identity.sourceId = sourceId)).bind (·.supersededBySourceId)

namespace SourceInv
variable {sources : List PDFCacheSource} {bound : List BindRequest}

theorem successorIn_eq (h : SourceInv sources bound) {s : PDFCacheSource} (hs : s ∈ sources) :
    successorIn sources s.identity.sourceId = s.supersededBySourceId := by
  cases hfind : sources.find? (·.identity.sourceId = s.identity.sourceId) with
  | none => exact absurd (decide_eq_true rfl) (List.find?_eq_none.1 hfind s hs)
  | some u =>
    have hid : u.identity.sourceId = s.identity.sourceId := by
      simpa only [decide_eq_true_eq] using List.find?_some hfind
    rw [successorIn, hfind, h.eq_of_sourceId (List.mem_of_find?_eq_some hfind) hs hid]
    rfl

/-- The active sources of a lineage: the one bound last. -/
theorem exists_active (h : SourceInv sources bound) {s : PDFCacheSource} (hs : s ∈ sources) :
    ∃ r a, latestOf bound s.identity.lineage = some r ∧ a.identity = r.identity ∧
      sources.filter (fun u => u.identity.lineage = s.identity.lineage ∧ u.supersededAt = none) = [a] := by
  obtain ⟨q, hq, hqs⟩ := h.identity s hs
  have hsome : (latestOf bound s.identity.lineage).isSome := by
    rw [latestOf, List.find?_isSome]
    exact ⟨q, hq, decide_eq_true (congrArg _ hqs)⟩
  obtain ⟨r, hr⟩ := Option.isSome_iff_exists.1 hsome
  have hrl : r.lineage = s.identity.lineage := by
    simpa only [decide_eq_true_eq] using List.find?_some hr
  obtain ⟨a, ha, har⟩ := h.registered r (List.mem_of_find?_eq_some hr)
  have hal : a.identity.lineage = s.identity.lineage := (congrArg _ har).trans hrl
  have haid : r.sourceId = a.identity.sourceId := (congrArg (·.sourceId) har).symm
  refine ⟨r, a, hr, har, filter_eq_singleton h.nodup ha ?_ fun u hu hcond => ?_⟩
  · exact decide_eq_true ⟨hal, (h.active_iff ha).2 ⟨r, hal ▸ hr, haid⟩⟩
  · obtain ⟨hul, hua⟩ := of_decide_eq_true hcond
    obtain ⟨r', hr', hid⟩ := (h.active_iff hu).1 hua
    rw [hul, hr] at hr'
    obtain rfl := Option.some.inj hr'
    exact hid.symm.trans haid

/-- The successors of a source lead to the active one of its lineage, each bound more recently than
the one before. -/
theorem exists_path (h : SourceInv sources bound) {s a : PDFCacheSource} (hs : s ∈ sources)
    (ha : sources.filter (fun u => u.identity.lineage = s.identity.lineage ∧ u.supersededAt = none) = [a]) :
    ∃ path : List Str, path.Nodup ∧ path.head? = some s.identity.sourceId ∧
      path.getLast? = some a.identity.sourceId ∧ path.IsChain (fun id id' => successorIn sources id = some id') := by
  suffices hpath : ∃ path : List Str, path.Pairwise (fun id id' => lastBound bound id' < lastBound bound id) ∧
      path.head? = some s.identity.sourceId ∧ path.getLast? = some a.identity.sourceId ∧
      path.IsChain (fun id id' => successorIn sources id = some id') by
    obtain ⟨path, hp, hrest⟩ := hpath
    exact ⟨path, hp.imp fun hlt heq => absurd (heq ▸ hlt) (Nat.lt_irrefl _), hrest⟩
  -- the last binding of the successor is more recent
  generalize hn : lastBound bound s.identity.sourceId = n
  induction n using Nat.strong_induction_on generalizing s with
  | _ n ih =>
    cases hptr : s.supersededBySourceId with
    | none =>
      have hmem : s ∈ sources.filter (fun u => u.identity.lineage = s.identity.lineage ∧ u.supersededAt = none) :=
        List.mem_filter.2 ⟨hs, decide_eq_true ⟨rfl, (h.pointer s hs).2 hptr⟩⟩
      rw [ha, List.mem_singleton] at hmem
      subst hmem
      exact ⟨[s.identity.sourceId], List.pairwise_singleton _ _, rfl, rfl, List.isChain_singleton _⟩
    | some id =>
      obtain ⟨u, hu, rfl, hul, hlt⟩ := h.newer s hs id hptr
      obtain ⟨path, hp, hhead, hlast, hchain⟩ := ih _ (hn ▸ hlt) hu (hul ▸ ha) rfl
      cases path with
      | nil => cases hhead
      | cons x xs =>
        obtain rfl : x = u.identity.sourceId := Option.some.inj hhead
        refine ⟨s.identity.sourceId :: u.identity.sourceId :: xs, ?_, rfl, ?_, ?_⟩
        · refine List.pairwise_cons.2 ⟨fun y hy => ?_, hp⟩
          rcases List.mem_cons.1 hy with rfl | hy
          · exact hlt
          · exact lt_trans ((List.pairwise_cons.1 hp).1 y hy) hlt
        · rw [List.getLast?_cons_cons]
          exact hlast
        · exact List.isChain_cons_cons.2 ⟨(h.successorIn_eq hs).trans hptr, hchain⟩

end SourceInv

/-! ### The revisions -/

/-- The revisions of a source that are not superseded. -/
def activeOf (revisions : List PDFCacheSourceRevision) (sourceId : Str) : List PDFCacheSourceRevision :=
  revisions.filter fun v => v.sourceId = sourceId ∧ v.supersededAt = none

theorem mem_activeOf {revisions : List PDFCacheSourceRevision} {sourceId : Str} {v : PDFCacheSourceRevision} :
    v ∈ activeOf revisions sourceId ↔ v ∈ revisions ∧ v.sourceId = sourceId ∧ v.supersededAt = none := by
  rw [activeOf, List.mem_filter, decide_eq_true_eq]

/-- The table of the revisions after the bindings `bound`; `digests` are the recorded objects. -/
structure RevisionInv (revisions : List PDFCacheSourceRevision) (digests : List Str) (bound : List BindRequest) :
    Prop where
  nodup : (revisions.map (·.revisionId)).Nodup
  source : ∀ v ∈ revisions, ∃ r ∈ bound, r.sourceId = v.sourceId
  object : ∀ v ∈ revisions, v.pdfSha256 ∈ digests
  active : ∀ r ∈ bound, ∃ v, activeOf revisions r.sourceId = [v]
  previous : ∀ v ∈ revisions, ∀ p, v.previousRevisionId = some p →
    ∃ w ∈ revisions, w.revisionId = p ∧ w.sourceId = v.sourceId ∧ w.revisionId < v.revisionId

/-- A write that leaves the identity of a row as it is. -/
structure KeepsIdentity (g : PDFCacheSourceRevision → PDFCacheSourceRevision) : Prop where
  revisionId : ∀ v, (g v).revisionId = v.revisionId
  sourceId : ∀ v, (g v).sourceId = v.sourceId
  pdfSha256 : ∀ v, (g v).pdfSha256 = v.pdfSha256
  previousRevisionId : ∀ v, (g v).previousRevisionId = v.previousRevisionId

theorem lt_nextRowid {revisions : List PDFCacheSourceRevision} {v : PDFCacheSourceRevision} (h : v ∈ revisions) :
    v.revisionId < WorkerState.nextRowid revisions := by
  induction revisions with
  | nil => cases h
  | cons w ws ih =>
    have hstep : WorkerState.nextRowid (w :: ws) = max w.revisionId (WorkerState.nextRowid ws - 1) + 1 := rfl
    rcases List.mem_cons.1 h with rfl | h
    · omega
    · have := ih h
      omega

namespace RevisionInv
variable {revisions : List PDFCacheSourceRevision} {digests : List Str} {bound : List BindRequest} {r : BindRequest}
  {g : PDFCacheSourceRevision → PDFCacheSourceRevision}

theorem eq_of_revisionId (h : RevisionInv revisions digests bound) {v w : PDFCacheSourceRevision} (hv : v ∈ revisions)
    (hw : w ∈ revisions) (hid : v.revisionId = w.revisionId) : v = w :=
  List.inj_on_of_nodup_map h.nodup hv hw hid

/-- The active revision of a source is the only one. -/
theorem eq_of_active (h : RevisionInv revisions digests bound) {v w : PDFCacheSourceRevision} {sourceId : Str}
    (hv : v ∈ activeOf revisions sourceId) (hw : w ∈ activeOf revisions sourceId) : v = w := by
  have hmem := mem_activeOf.1 hv
  obtain ⟨q, hq, hqv⟩ := h.source v hmem.1
  obtain ⟨a, ha⟩ := h.active q hq
  rw [hqv, hmem.2.1] at ha
  rw [ha, List.mem_singleton] at hv hw
  rw [hv, hw]

/-- All but the active rows, after a write that keeps the identity. -/
theorem previous_map (h : RevisionInv revisions digests bound) (hg : KeepsIdentity g) : ∀ v ∈ revisions.map g, ∀ p,
    v.previousRevisionId = some p →
      ∃ w ∈ revisions.map g, w.revisionId = p ∧ w.sourceId = v.sourceId ∧ w.revisionId < v.revisionId := by
  intro v' hv' p hp
  obtain ⟨v, hv, rfl⟩ := List.mem_map.1 hv'
  rw [hg.previousRevisionId] at hp
  obtain ⟨w, hw, hwp, hws, hlt⟩ := h.previous v hv p hp
  refine ⟨g w, List.mem_map_of_mem hw, ?_, ?_, ?_⟩
  · rw [hg.revisionId, hwp]
  · rw [hg.sourceId, hg.sourceId, hws]
  · rw [hg.revisionId, hg.revisionId]
    exact hlt

theorem nodup_map (h : RevisionInv revisions digests bound) (hg : KeepsIdentity g) :
    ((revisions.map g).map (·.revisionId)).Nodup := by
  rw [List.map_map]
  simpa only [Function.comp_def, hg.revisionId] using h.nodup

/-- The row of new bytes behind rows that keep their identity and are not active for the source. -/
theorem append (h : RevisionInv revisions digests bound) (hg : KeepsIdentity g) (previous : Option Nat)
    (observed verified : Str) (hdigest : r.pdfSha256 ∈ digests)
    (hnone : activeOf (revisions.map g) r.sourceId = [])
    (hother : ∀ q ∈ bound, q.sourceId ≠ r.sourceId → ∃ v, activeOf (revisions.map g) q.sourceId = [v])
    (hprevious : ∀ p, previous = some p → ∃ w ∈ revisions, w.revisionId = p ∧ w.sourceId = r.sourceId) :
    let new := WorkerState.newRevision r (WorkerState.nextRowid (revisions.map g)) previous observed verified
    RevisionInv (revisions.map g ++ [new]) digests (r :: bound) ∧
      activeOf (revisions.map g ++ [new]) r.sourceId = [new] := by
  intro new
  have hsplit : ∀ id, activeOf (revisions.map g ++ [new]) id =
      activeOf (revisions.map g) id ++ if r.sourceId = id then [new] else [] := by
    intro id
    have hnew : new.sourceId = r.sourceId ∧ new.supersededAt = none := ⟨rfl, rfl⟩
    rw [activeOf, List.filter_append, List.filter_singleton]
    simp only [hnew, and_true, Bool.cond_decide]
    rfl
  have hself : activeOf (revisions.map g ++ [new]) r.sourceId = [new] := by
    rw [hsplit, hnone, if_pos rfl, List.nil_append]
  refine ⟨⟨?_, ?_, ?_, ?_, ?_⟩, hself⟩
  · rw [List.map_append, List.nodup_append]
    refine ⟨h.nodup_map hg, List.nodup_singleton _, ?_⟩
    intro id hid id' hid'
    obtain ⟨v, hv, rfl⟩ := List.mem_map.1 hid
    rw [List.map_singleton, List.mem_singleton] at hid'
    exact hid' ▸ (lt_nextRowid hv).ne
  · intro v hv
    rcases List.mem_append.1 hv with hv | hv
    · obtain ⟨w, hw, rfl⟩ := List.mem_map.1 hv
      obtain ⟨q, hq, hqw⟩ := h.source w hw
      exact ⟨q, List.mem_cons_of_mem _ hq, hqw.trans (hg.sourceId w).symm⟩
    · obtain rfl := List.mem_singleton.1 hv
      exact ⟨r, List.mem_cons_self, rfl⟩
  · intro v hv
    rcases List.mem_append.1 hv with hv | hv
    · obtain ⟨w, hw, rfl⟩ := List.mem_map.1 hv
      rw [hg.pdfSha256]
      exact h.object w hw
    · obtain rfl := List.mem_singleton.1 hv
      exact hdigest
  · intro q hq
    by_cases hid : q.sourceId = r.sourceId
    · exact ⟨new, hid ▸ hself⟩
    rcases List.mem_cons.1 hq with rfl | hq
    · exact absurd rfl hid
    · obtain ⟨v, hv⟩ := hother q hq hid
      exact ⟨v, by rw [hsplit, hv, if_neg (Ne.symm hid), List.append_nil]⟩
  · intro v hv p hp
    rcases List.mem_append.1 hv with hv | hv
    · obtain ⟨w, hw, hrest⟩ := h.previous_map hg v hv p hp
      exact ⟨w, List.mem_append_left _ hw, hrest⟩
    · obtain rfl := List.mem_singleton.1 hv
      obtain ⟨w, hw, hwp, hws⟩ := hprevious p hp
      refine ⟨g w, List.mem_append_left _ (List.mem_map_of_mem hw), ?_, ?_, ?_⟩
      · rw [hg.revisionId, hwp]
      · rw [hg.sourceId, hws]
        rfl
      · exact lt_nextRowid (List.mem_map_of_mem hw)

theorem empty : RevisionInv [] [] [] := by
  refine ⟨List.nodup_nil, ?_, ?_, ?_, ?_⟩ <;> simp

theorem activeOf_eq (h : RevisionInv revisions digests bound) {current : PDFCacheSourceRevision} {sourceId : Str}
    (hcurrent : current ∈ activeOf revisions sourceId) : activeOf revisions sourceId = [current] := by
  have hmem := mem_activeOf.1 hcurrent
  obtain ⟨q, hq, hqv⟩ := h.source current hmem.1
  obtain ⟨a, ha⟩ := h.active q hq
  rw [hqv, hmem.2.1] at ha
  rw [ha, List.mem_singleton] at hcurrent
  rw [ha, hcurrent]

/-- New validators and stamps for the active revision of the source. -/
theorem refreshed (h : RevisionInv revisions digests bound) {current : PDFCacheSourceRevision}
    (hcurrent : current ∈ activeOf revisions r.sourceId) (hg : KeepsIdentity g)
    (hactive : ∀ v, (g v).supersededAt = v.supersededAt) :
    RevisionInv (revisions.map g) digests (r :: bound) ∧ activeOf (revisions.map g) r.sourceId = [g current] := by
  have hmap : ∀ id, activeOf (revisions.map g) id = (activeOf revisions id).map g := by
    intro id
    rw [activeOf, List.filter_map]
    simp only [Function.comp_def, hg.sourceId, hactive]
    rfl
  have hself : activeOf (revisions.map g) r.sourceId = [g current] := by
    rw [hmap, h.activeOf_eq hcurrent, List.map_singleton]
  refine ⟨⟨h.nodup_map hg, ?_, ?_, ?_, h.previous_map hg⟩, hself⟩
  · intro v hv
    obtain ⟨w, hw, rfl⟩ := List.mem_map.1 hv
    obtain ⟨q, hq, hqw⟩ := h.source w hw
    exact ⟨q, List.mem_cons_of_mem _ hq, hqw.trans (hg.sourceId w).symm⟩
  · intro v hv
    obtain ⟨w, hw, rfl⟩ := List.mem_map.1 hv
    rw [hg.pdfSha256]
    exact h.object w hw
  · intro q hq
    rcases List.mem_cons.1 hq with rfl | hq
    · exact ⟨g current, hself⟩
    · obtain ⟨v, hv⟩ := h.active q hq
      exact ⟨g v, by rw [hmap, hv, List.map_singleton]⟩

/-- The active revision of the source is superseded and new bytes take its place. -/
theorem replaced (h : RevisionInv revisions digests bound) {current : PDFCacheSourceRevision} {observed verified : Str}
    (hcurrent : current ∈ activeOf revisions r.sourceId) (hdigest : r.pdfSha256 ∈ digests) :
    let superseded := revisions.map fun v =>
      if v.revisionId = current.revisionId ∧ v.supersededAt = none then { v with supersededAt := some observed } else v
    let new := WorkerState.newRevision r (WorkerState.nextRowid superseded) (some current.revisionId) observed verified
    RevisionInv (superseded ++ [new]) digests (r :: bound) ∧ activeOf (superseded ++ [new]) r.sourceId = [new] := by
  have hmem := mem_activeOf.1 hcurrent
  set g : PDFCacheSourceRevision → PDFCacheSourceRevision := fun v =>
    if v.revisionId = current.revisionId ∧ v.supersededAt = none then { v with supersededAt := some observed } else v
    with hgdef
  have hg : KeepsIdentity g := by
    refine ⟨?_, ?_, ?_, ?_⟩ <;> intro v <;> rw [hgdef] <;> dsimp only <;> split <;> rfl
  -- the row itself, and no other
  have hsuperseded : (g current).supersededAt = some observed := by
    simp only [hgdef, hmem.2.2, and_self, if_true]
  have hunchanged : ∀ v ∈ revisions, v ≠ current → g v = v := fun v hv hne =>
    if_neg fun hc => hne (h.eq_of_revisionId hv hmem.1 hc.1)
  refine h.append hg _ _ _ hdigest ?_ ?_ ?_
  · refine List.eq_nil_iff_forall_not_mem.2 fun v' hv' => ?_
    obtain ⟨hv', hid, hnone⟩ := mem_activeOf.1 hv'
    obtain ⟨v, hv, rfl⟩ := List.mem_map.1 hv'
    by_cases hvc : v = current
    · rw [hvc, hsuperseded] at hnone
      cases hnone
    · rw [hunchanged v hv hvc] at hid hnone
      exact hvc (h.eq_of_active (mem_activeOf.2 ⟨hv, hid, hnone⟩) hcurrent)
  · intro q hq hqr
    obtain ⟨a, ha⟩ := h.active q hq
    refine ⟨a, ?_⟩
    rw [← ha, activeOf, activeOf, List.filter_map]
    have hfilter : revisions.filter ((fun v => decide (v.sourceId = q.sourceId ∧ v.supersededAt = none)) ∘ g) =
        revisions.filter fun v => decide (v.sourceId = q.sourceId ∧ v.supersededAt = none) := by
      refine List.filter_congr fun v hv => ?_
      by_cases hvc : v = current
      · have hne : current.sourceId ≠ q.sourceId := fun hc => hqr (hc.symm.trans hmem.2.1)
        simp only [Function.comp_def, hg.sourceId, hvc, hne, false_and]
      · rw [Function.comp_apply, hunchanged v hv hvc]
    rw [hfilter]
    refine (List.map_congr_left fun v hv => ?_).trans (List.map_id _)
    obtain ⟨hv, hcond⟩ := List.mem_filter.1 hv
    rw [decide_eq_true_eq] at hcond
    refine hunchanged v hv fun hvc => hqr ?_
    rw [← hcond.1, hvc, hmem.2.1]
  · rintro p hp
    cases hp
    exact ⟨current, hmem.1, rfl, hmem.2.1⟩

end RevisionInv

/-- A binding keeps the table of the revisions in order, and the revision it names is active. -/
theorem RevisionInv.bind {revisions revisions' : List PDFCacheSourceRevision} {digests : List Str}
    {bound : List BindRequest} {r : BindRequest} {observed verified : Str} {revisionId : Nat}
    (h : RevisionInv revisions digests bound) (hdigest : r.pdfSha256 ∈ digests)
    (hr : WorkerState.bindRevision revisions r observed verified = .ok (revisionId, revisions')) :
    RevisionInv revisions' digests (r :: bound) ∧
      ∃ v, activeOf revisions' r.sourceId = [v] ∧ v.revisionId = revisionId := by
  unfold WorkerState.bindRevision at hr
  cases hfind : revisions.find? (fun v => v.sourceId = r.sourceId ∧ v.supersededAt = none) with
  | none =>
    rw [hfind] at hr
    obtain ⟨rfl, rfl⟩ := Prod.mk.inj (Except.ok.inj hr)
    have hnone : activeOf revisions r.sourceId = [] := by
      rw [activeOf, List.filter_eq_nil_iff]
      exact List.find?_eq_none.1 hfind
    have happend := h.append (r := r) (g := id) ⟨fun _ => rfl, fun _ => rfl, fun _ => rfl, fun _ => rfl⟩ none observed
      verified hdigest
    rw [List.map_id] at happend
    obtain ⟨hinv, hself⟩ := happend hnone (fun q hq _ => h.active q hq) (by simp)
    exact ⟨hinv, _, hself, rfl⟩
  | some current =>
    have hcurrent : current ∈ activeOf revisions r.sourceId := by
      have hcond := List.find?_some hfind
      exact List.mem_filter.2 ⟨List.mem_of_find?_eq_some hfind, hcond⟩
    rw [hfind] at hr
    dsimp only at hr
    split at hr
    · simp only [Guard.bind_eq_ok, Guard.pure_eq_ok, Prod.mk.injEq] at hr
      obtain ⟨-, -, rfl, rfl⟩ := hr
      obtain ⟨hinv, hself⟩ := h.refreshed (r := r) hcurrent
        (g := fun v => if v.revisionId = current.revisionId then WorkerState.refresh r observed verified v else v)
        (by refine ⟨?_, ?_, ?_, ?_⟩ <;> intro v <;> split <;> rfl)
        (by intro v; split <;> rfl)
      refine ⟨hinv, _, hself, ?_⟩
      rw [if_pos rfl]
      rfl
    · obtain ⟨rfl, rfl⟩ := Prod.mk.inj (Except.ok.inj hr)
      obtain ⟨hinv, hself⟩ := h.replaced hcurrent hdigest
      exact ⟨hinv, _, hself, rfl⟩

/-! ### Runs -/

/-- The tables after the bindings `bound`, the last one first. -/
structure CacheInv (st : WorkerState) (bound : List BindRequest) : Prop where
  sources : SourceInv st.sources bound
  revisions : RevisionInv st.revisions (st.objects.map (·.pdfSha256)) bound

theorem checkObject_eq_ok {objects : List PDFCacheObjectRow} {r : BindRequest} {u : Unit}
    (h : WorkerState.checkObject objects r = .ok u) : r.pdfSha256 ∈ objects.map (·.pdfSha256) := by
  unfold WorkerState.checkObject at h
  cases hfind : objects.find? (·.pdfSha256 = r.pdfSha256) with
  | none =>
    rw [hfind] at h
    cases h
  | some o =>
    have ho : o.pdfSha256 = r.pdfSha256 := by simpa using List.find?_some hfind
    exact List.mem_map.2 ⟨o, List.mem_of_find?_eq_some hfind, ho⟩

theorem isSourceId_of_checkBind {r : BindRequest} {u : Unit} (h : WorkerState.checkBind r = .ok u) :
    isSourceId r.sourceId = true := by
  unfold WorkerState.checkBind at h
  rw [Guard.bind_eq_ok] at h
  obtain ⟨_, h, -⟩ := h
  exact Bool.of_not_eq_false (raiseIf_eq_ok.1 h)

namespace CacheInv
variable {st st' : WorkerState} {bound : List BindRequest} {r : BindRequest} {revisionId : Nat}

theorem empty : CacheInv .empty [] := ⟨.empty, .empty⟩

/-- What the transaction of a binding commits. -/
theorem bindTransaction (h : CacheInv st bound) (hr : st.bindTransaction r = .ok (revisionId, st')) :
    CacheInv st' (r :: bound) ∧ isSourceId r.sourceId = true ∧
      ∃ v, activeOf st'.revisions r.sourceId = [v] ∧ v.revisionId = revisionId := by
  unfold WorkerState.bindTransaction at hr
  simp only [Guard.bind_eq_ok, Guard.pure_eq_ok, Prod.mk.injEq, Prod.exists] at hr
  obtain ⟨_, hcheck, observed, -, verified, -, _, hobject, sources, hsources, _, _, hrevisions, rfl, rfl⟩ := hr
  have hdigests : (st.objects.map fun o => if o.pdfSha256 = r.pdfSha256 then
      { o with lastVerifiedAt := latest o.lastVerifiedAt verified } else o).map (·.pdfSha256) =
        st.objects.map (·.pdfSha256) := by
    rw [List.map_map]
    refine List.map_congr_left fun o _ => ?_
    simp only [Function.comp_def]
    split <;> rfl
  obtain ⟨hinv, hself⟩ := h.revisions.bind (checkObject_eq_ok hobject) hrevisions
  refine ⟨⟨?_, ?_⟩, isSourceId_of_checkBind hcheck, hself⟩
  · rw [List.map_map]
    exact h.sources.bind hsources
  · rw [hdigests]
    exact hinv

/-- Every revision is found with its source and its object. -/
theorem joinRevision_eq (h : CacheInv st bound) {v : PDFCacheSourceRevision} (hv : v ∈ st.revisions) :
    ∃ source path, st.joinRevision v = some ⟨v, source, path⟩ ∧ source.identity.sourceId = v.sourceId := by
  obtain ⟨q, hq, hqv⟩ := h.revisions.source v hv
  obtain ⟨s, hs, hsq⟩ := h.sources.registered q hq
  have hsource : (st.sources.find? (·.identity.sourceId = v.sourceId)).isSome := by
    rw [List.find?_isSome]
    exact ⟨s, hs, decide_eq_true ((congrArg (·.sourceId) hsq).trans hqv)⟩
  have hobject : (st.objects.find? (·.pdfSha256 = v.pdfSha256)).isSome := by
    obtain ⟨o, ho, hov⟩ := List.mem_map.1 (h.revisions.object v hv)
    rw [List.find?_isSome]
    exact ⟨o, ho, decide_eq_true hov⟩
  obtain ⟨source, hfind⟩ := Option.isSome_iff_exists.1 hsource
  obtain ⟨object, hfind'⟩ := Option.isSome_iff_exists.1 hobject
  refine ⟨source, object.relativePath, ?_, by simpa using List.find?_some hfind⟩
  rw [WorkerState.joinRevision, hfind, hfind']
  rfl

/-- What `pdf_cache_source_binding` reads is the active revision. -/
theorem pdfCacheSourceBinding_eq (h : CacheInv st bound) {sourceId : Str} (hid : isSourceId sourceId = true)
    {v : PDFCacheSourceRevision} (hv : activeOf st.revisions sourceId = [v]) :
    ∃ source path, st.pdfCacheSourceBinding sourceId = .ok (some ⟨v, source, path⟩) := by
  have hmem : v ∈ activeOf st.revisions sourceId := hv ▸ List.mem_singleton_self v
  obtain ⟨source, path, hjoin, -⟩ := h.joinRevision_eq (mem_activeOf.1 hmem).1
  refine ⟨source, path, ?_⟩
  have hrows : (st.revisions.filterMap st.joinRevision).filter (fun row =>
      row.sourceId = sourceId ∧ row.revision.supersededAt = none) = [⟨v, source, path⟩] := by
    have hactive : (activeOf st.revisions sourceId).filterMap st.joinRevision = [⟨v, source, path⟩] := by
      rw [hv, List.filterMap_cons, hjoin, List.filterMap_nil]
    rw [← hactive, activeOf, List.filter_filterMap, List.filterMap_filter]
    refine List.filterMap_congr fun w hw => ?_
    obtain ⟨source', path', hjoin', hsource'⟩ := h.joinRevision_eq hw
    rw [hjoin', Option.filter_some]
    have hiff : (PDFSourceRevisionRow.sourceId ⟨w, source', path'⟩ = sourceId ∧ w.supersededAt = none) ↔
        (w.sourceId = sourceId ∧ w.supersededAt = none) := by
      rw [PDFSourceRevisionRow.sourceId, hsource']
    simp only [hiff]
  rw [WorkerState.pdfCacheSourceBinding, raiseIf, if_neg (by rw [hid]; decide)]
  show Except.ok ((PyList.sortedBy _ _).getLast?) = _
  rw [hrows]
  rfl

/-- A binding that is committed returns: nothing is raised after the commit. -/
theorem bindPdfCacheSource_eq_ok (h : CacheInv st bound) (hr : st.bindTransaction r = .ok (revisionId, st')) :
    ∃ row, st.bindPdfCacheSource r = .ok (row, st') := by
  obtain ⟨hinv, hid, v, hv, hrev⟩ := h.bindTransaction hr
  obtain ⟨source, path, hread⟩ := hinv.pdfCacheSourceBinding_eq hid hv
  refine ⟨⟨v, source, path⟩, ?_⟩
  rw [WorkerState.bindPdfCacheSource_eq, hr]
  show (do
    match ← st'.pdfCacheSourceBinding r.sourceId with
    | none => throw (⟨.runtimeError, "PDF cache source binding was not persisted"⟩ : Raised)
    | some binding => do
      raiseIf (binding.revisionId ≠ revisionId) ⟨.runtimeError, "PDF cache source binding was not persisted"⟩
      return (binding, st')) = _
  rw [hread]
  show (do raiseIf (v.revisionId ≠ revisionId) _; _) = _
  rw [raiseIf, if_neg (not_not.2 hrev)]
  rfl

theorem bindPdfCacheSource_eq_error {e : Raised} (hr : st.bindTransaction r = .error e) :
    st.bindPdfCacheSource r = .error e := by
  rw [WorkerState.bindPdfCacheSource_eq]
  exact Guard.bind_error hr _

/-- A call that raises leaves the tables as they are. -/
theorem durable_of_error (h : CacheInv st bound) {c : Command} {e : Raised} (hc : c.step st = .error e) :
    c.durable st = st := by
  cases c with
  | record request =>
    change st.recordPdfCacheObject request = .error e at hc
    rw [Command.durable, hc]
    rfl
  | bind request =>
    cases ht : st.bindTransaction request with
    | error e' =>
      rw [Command.durable, ht]
      rfl
    | ok p =>
      obtain ⟨revisionId, st'⟩ := p
      obtain ⟨row, hok⟩ := h.bindPdfCacheSource_eq_ok ht
      rw [Command.step, hok] at hc
      cases hc

theorem record (h : CacheInv st bound) {request : RecordRequest} (hr : st.recordPdfCacheObject request = .ok st') :
    CacheInv st' bound := by
  unfold WorkerState.recordPdfCacheObject at hr
  simp only [Guard.bind_eq_ok] at hr
  obtain ⟨-, -, -, -, -, -, timestamp, -, hr⟩ := hr
  cases hfind : st.objects.find? (·.pdfSha256 = request.pdfSha256) with
  | none =>
    rw [hfind] at hr
    obtain rfl := Except.ok.inj hr
    refine ⟨h.sources, { h.revisions with object := fun v hv => ?_ }⟩
    rw [List.map_append]
    exact List.mem_append_left _ (h.revisions.object v hv)
  | some existing =>
    rw [hfind] at hr
    simp only [Guard.bind_eq_ok, Guard.pure_eq_ok] at hr
    obtain ⟨-, -, rfl⟩ := hr
    refine ⟨h.sources, { h.revisions with object := fun v hv => ?_ }⟩
    obtain ⟨o, ho, hov⟩ := List.mem_map.1 (h.revisions.object v hv)
    refine List.mem_map.2 ⟨_, List.mem_map_of_mem ho, ?_⟩
    split <;> exact hov

/-- One call, whether it returns or raises. -/
theorem call {b : Bindings} (h : CacheInv b.state b.bound) (c : Command) : CacheInv (b.call c).state (b.call c).bound := by
  cases c with
  | record request =>
    show CacheInv ((b.state.recordPdfCacheObject request).toOption.getD b.state) b.bound
    cases hr : b.state.recordPdfCacheObject request with
    | error e => exact h
    | ok st' => exact h.record hr
  | bind request =>
    show CacheInv (((b.state.bindTransaction request).toOption.map (·.2)).getD b.state)
      (if (b.state.bindPdfCacheSource request).isOk then request :: b.bound else b.bound)
    cases ht : b.state.bindTransaction request with
    | error e =>
      rw [bindPdfCacheSource_eq_error ht]
      exact h
    | ok p =>
      obtain ⟨revisionId, st'⟩ := p
      obtain ⟨row, hok⟩ := h.bindPdfCacheSource_eq_ok ht
      rw [hok]
      exact (h.bindTransaction ht).1

theorem after (commands : List Command) : CacheInv (Bindings.after commands).state (Bindings.after commands).bound := by
  have hfold : ∀ b : Bindings, CacheInv b.state b.bound →
      CacheInv (commands.foldl Bindings.call b).state (commands.foldl Bindings.call b).bound := by
    induction commands with
    | nil => exact fun b hb => hb
    | cons c cs ih => exact fun b hb => ih (b.call c) (hb.call c)
  exact hfold ⟨.empty, []⟩ .empty

end CacheInv

/-- For any calls on a new state, returning or raising: a source is in the table exactly when a
binding of it returned, and has one active revision; a lineage has one active source, the one bound
last, and the successors of each of its sources lead there without a cycle; a revision follows an
earlier one of its source; and the next call that raises changes nothing. -/
theorem supersession_invariant (commands : List Command) :
    let st := (Bindings.after commands).state
    let bound := (Bindings.after commands).bound
    (∀ r ∈ bound, ∃ v, activeOf st.revisions r.sourceId = [v]) ∧
      (∀ identity, (∃ s ∈ st.sources, s.identity = identity) ↔ ∃ r ∈ bound, r.identity = identity) ∧
      (∀ s ∈ st.sources, ∃ r a, latestOf bound s.identity.lineage = some r ∧ a.identity = r.identity ∧
        st.sources.filter (fun u => u.identity.lineage = s.identity.lineage ∧ u.supersededAt = none) = [a] ∧
        ∃ path : List Str, path.Nodup ∧ path.head? = some s.identity.sourceId ∧
          path.getLast? = some a.identity.sourceId ∧
          path.IsChain (fun id id' => successorIn st.sources id = some id')) ∧
      (∀ v ∈ st.revisions, ∀ p, v.previousRevisionId = some p →
        ∃ w, st.revisions.filter (·.revisionId = p) = [w] ∧ w.sourceId = v.sourceId ∧ w.revisionId < v.revisionId) ∧
      ∀ c e, Command.step st c = .error e → c.durable st = st := by
  have h := CacheInv.after commands
  refine ⟨h.revisions.active, fun identity => ⟨?_, ?_⟩, ?_, ?_, fun c e hc => h.durable_of_error hc⟩
  · rintro ⟨s, hs, rfl⟩
    exact h.sources.identity s hs
  · rintro ⟨r, hr, rfl⟩
    exact h.sources.registered r hr
  · intro s hs
    obtain ⟨r, a, hlatest, har, ha⟩ := h.sources.exists_active hs
    exact ⟨r, a, hlatest, har, ha, h.sources.exists_path hs ha⟩
  · intro v hv p hp
    obtain ⟨w, hw, rfl, hws, hlt⟩ := h.revisions.previous v hv p hp
    refine ⟨w, ?_, hws, hlt⟩
    exact filter_eq_singleton h.revisions.nodup hw (decide_eq_true rfl) fun u _ hu => of_decide_eq_true hu

end CardRag
