import CardRag.Launch.Evidence

/-! # When launch-date evidence is publishable

The status of a resolution is decided by all readings, the rows carry the first eight. The rows are
always bound to the source and contiguous, so both checks come down to the rule of the status
(`validateInputs_iff`, `validateV6LaunchDates_iff`), and that rule holds exactly when the first eight
readings already show what all of them show (`EightSuffice`). -/

namespace CardRag.Launch
open PyStr

section rows
variable {H : Sha256} (src : SourceNodes H)

/-- A row that copies a span of a node. -/
def Bound (row : DerivedFieldEvidence) : Prop :=
  ∃ spans, PyList.get? src.nodes row.nodeId = some spans ∧ ∃ span ∈ spans,
    span.page = row.page ∧ span.sourceStart = row.sourceStart ∧ span.sourceEnd = row.sourceEnd ∧
      span.textSha256 = row.textSha256

/-- Rows of the candidate `c`, numbered from zero. -/
structure RowsOf (c : LaunchDateEvidence) (rows : List DerivedFieldEvidence) : Prop where
  spans : rows.map (·.spanOrdinal) = List.range rows.length
  candidate : ∀ row ∈ rows, row.candidateOrdinal = c.candidateOrdinal
  value : ∀ row ∈ rows, row.normalizedValue = c.normalizedValue
  bound : ∀ row ∈ rows, Bound src row

variable {src} {c : LaunchDateEvidence} {rows : List DerivedFieldEvidence}

theorem RowsOf.nil : RowsOf src c [] := ⟨rfl, by simp, by simp, by simp⟩

theorem RowsOf.addSpans (h : RowsOf src c rows) {nodeId : Str} {spans : List NodeSpan}
    (hspans : PyList.get? src.nodes nodeId = some spans) :
    RowsOf src c (rows ++ spans.mapIdx fun i span => evidenceRow c nodeId (rows.length + i) span) := by
  have hnew : ∀ row ∈ spans.mapIdx fun i span => evidenceRow c nodeId (rows.length + i) span,
      ∃ i, ∃ span ∈ spans, row = evidenceRow c nodeId (rows.length + i) span := by
    intro row hrow
    obtain ⟨i, hi, rfl⟩ := List.mem_mapIdx.1 hrow
    exact ⟨i, spans[i], List.getElem_mem hi, rfl⟩
  constructor
  · rw [List.map_append, h.spans, List.length_append, List.length_mapIdx, List.range_add]
    congr 1
    apply List.ext_getElem
    · simp
    · intro i _ _
      simp [evidenceRow]
  · intro row hrow
    rcases List.mem_append.1 hrow with hrow | hrow
    · exact h.candidate row hrow
    · obtain ⟨i, span, -, rfl⟩ := hnew row hrow
      rfl
  · intro row hrow
    rcases List.mem_append.1 hrow with hrow | hrow
    · exact h.value row hrow
    · obtain ⟨i, span, -, rfl⟩ := hnew row hrow
      rfl
  · intro row hrow
    rcases List.mem_append.1 hrow with hrow | hrow
    · exact h.bound row hrow
    · obtain ⟨i, span, hspan, rfl⟩ := hnew row hrow
      exact ⟨spans, hspans, span, hspan, rfl, rfl, rfl, rfl⟩

/-- The segment names a node of the revision that has a span. -/
def Sourced (src : SourceNodes H) (segment : DerivedTextSegment) : Prop :=
  ∃ nodeId spans, segment.nodeId = some nodeId ∧ PyList.get? src.nodes nodeId = some spans ∧ spans ≠ []

theorem exists_candidateRows (hne : c.segments ≠ []) (hsourced : ∀ segment ∈ c.segments, Sourced src segment) :
    ∃ rows, candidateRows src.nodes c = .ok rows ∧ RowsOf src c rows ∧ rows ≠ [] := by
  -- induction on the segments still to write, over any rows written before
  have hrun : ∀ (segments : List DerivedTextSegment) (rows : List DerivedFieldEvidence),
      (∀ segment ∈ segments, Sourced src segment) → RowsOf src c rows → (segments ≠ [] ∨ rows ≠ []) →
      ∃ rows', segments.foldlM (addSegment src.nodes c) rows = .ok rows' ∧ RowsOf src c rows' ∧ rows' ≠ [] := by
    intro segments
    induction segments with
    | nil =>
      intro rows _ h hne
      exact ⟨rows, rfl, h, hne.resolve_left fun h => h rfl⟩
    | cons segment segments ih =>
      intro rows hs h _
      obtain ⟨nodeId, spans, hid, hspans, hspansne⟩ := hs segment (by simp)
      obtain ⟨rows', hrun, hrows⟩ := ih _ (fun s hs' => hs s (by simp [hs'])) (h.addSpans hspans)
        (Or.inr (by simp [hspansne]))
      refine ⟨rows', ?_, hrows⟩
      rw [List.foldlM_cons, addSegment, hid]
      dsimp only
      rw [hspans]
      exact hrun
  exact hrun c.segments [] hsourced .nil (Or.inl hne)

/-- A block of rows for each candidate. -/
abbrev Written (src : SourceNodes H) (evidence : List LaunchDateEvidence) (blocks : List (List DerivedFieldEvidence)) :
    Prop :=
  List.Forall₂ (fun c rows => RowsOf src c rows ∧ rows ≠ []) evidence blocks

theorem exists_evidenceRows {evidence : List LaunchDateEvidence}
    (h : ∀ c ∈ evidence, c.segments ≠ [] ∧ ∀ segment ∈ c.segments, Sourced src segment) :
    ∃ blocks, evidenceRows src.nodes evidence = .ok blocks.flatten ∧
      Written src evidence blocks := by
  have hblocks : ∃ blocks, evidence.mapM (candidateRows src.nodes) = .ok blocks ∧
      Written src evidence blocks := by
    induction evidence with
    | nil => exact ⟨[], rfl, .nil⟩
    | cons c evidence ih =>
      obtain ⟨rows, hrows, hof⟩ := exists_candidateRows (h c (by simp)).1 (h c (by simp)).2
      obtain ⟨blocks, hblocks, hofs⟩ := ih fun c' hc' => h c' (by simp [hc'])
      refine ⟨rows :: blocks, ?_, .cons hof hofs⟩
      rw [List.mapM_cons, hrows]
      dsimp only [bind, Except.bind]
      rw [hblocks]
      rfl
  obtain ⟨blocks, hmap, hof⟩ := hblocks
  refine ⟨blocks, ?_, hof⟩
  rw [evidenceRows, hmap]
  rfl

/-! ### The rows of a revision -/

variable {evidence : List LaunchDateEvidence} {blocks : List (List DerivedFieldEvidence)}

theorem exists_candidate (h : Written src evidence blocks)
    {row : DerivedFieldEvidence} (hrow : row ∈ blocks.flatten) :
    ∃ c ∈ evidence, row.candidateOrdinal = c.candidateOrdinal ∧ row.normalizedValue = c.normalizedValue ∧
      Bound src row := by
  induction h with
  | nil => cases hrow
  | @cons c block evidence blocks hc _ ih =>
    rw [List.flatten_cons, List.mem_append] at hrow
    rcases hrow with hrow | hrow
    · exact ⟨c, by simp, hc.1.candidate row hrow, hc.1.value row hrow, hc.1.bound row hrow⟩
    · obtain ⟨c', hc', hrow⟩ := ih hrow
      exact ⟨c', by simp [hc'], hrow⟩

theorem exists_row (h : Written src evidence blocks)
    (hc : c ∈ evidence) :
    ∃ row ∈ blocks.flatten, row.candidateOrdinal = c.candidateOrdinal ∧ row.normalizedValue = c.normalizedValue := by
  induction h with
  | nil => cases hc
  | @cons c' block evidence blocks hof _ ih =>
    rcases List.mem_cons.1 hc with rfl | hc
    · obtain ⟨row, hrow⟩ := List.exists_mem_of_ne_nil block hof.2
      exact ⟨row, by simp [hrow], hof.1.candidate row hrow, hof.1.value row hrow⟩
    · obtain ⟨row, hrow, heq⟩ := ih hc
      exact ⟨row, by rw [List.flatten_cons]; exact List.mem_append_right _ hrow, heq⟩

/-- The spans of every candidate are numbered from zero. -/
theorem spanOrdinals_flatten (h : Written src evidence blocks)
    (hord : (evidence.map (·.candidateOrdinal)).Pairwise (· < ·)) (candidate : Nat) :
    spanOrdinals blocks.flatten candidate = List.range (spanOrdinals blocks.flatten candidate).length := by
  induction h with
  | nil => rfl
  | @cons c block evidence blocks hc hrest ih =>
    rw [List.map_cons, List.pairwise_cons] at hord
    have hsplit : spanOrdinals (block :: blocks).flatten candidate =
        spanOrdinals block candidate ++ spanOrdinals blocks.flatten candidate := by
      rw [spanOrdinals, List.flatten_cons, List.filter_append, List.map_append]
      rfl
    by_cases hk : c.candidateOrdinal = candidate
    · have hblock : spanOrdinals block candidate = List.range block.length := by
        rw [spanOrdinals, List.filter_eq_self.2, hc.1.spans]
        intro row hrow
        rw [hc.1.candidate row hrow, hk, decide_eq_true rfl]
      -- later candidates have larger ordinals
      have hlater : spanOrdinals blocks.flatten candidate = [] := by
        rw [spanOrdinals, List.map_eq_nil_iff, List.filter_eq_nil_iff]
        intro row hrow heq
        obtain ⟨c', hc', hrow, -⟩ := exists_candidate hrest hrow
        have hlt := hord.1 c'.candidateOrdinal (List.mem_map_of_mem hc')
        have heq := of_decide_eq_true heq
        omega
      rw [hsplit, hblock, hlater, List.append_nil, List.length_range]
    · have hblock : spanOrdinals block candidate = [] := by
        rw [spanOrdinals, List.map_eq_nil_iff, List.filter_eq_nil_iff]
        intro row hrow heq
        exact hk ((hc.1.candidate row hrow).symm.trans (of_decide_eq_true heq))
      rw [hsplit, hblock, List.nil_append]
      exact ih hord.2

theorem pairwise_flatten (h : Written src evidence blocks)
    (hord : (evidence.map (·.candidateOrdinal)).Pairwise (· < ·)) :
    blocks.flatten.Pairwise fun row row' =>
      toLex (row.candidateOrdinal, row.spanOrdinal) ≤ toLex (row'.candidateOrdinal, row'.spanOrdinal) := by
  induction h with
  | nil => exact .nil
  | @cons c block evidence blocks hc hrest ih =>
    rw [List.map_cons, List.pairwise_cons] at hord
    rw [List.flatten_cons, List.pairwise_append]
    refine ⟨?_, ih hord.2, ?_⟩
    · have hspans : block.Pairwise fun row row' => row.spanOrdinal < row'.spanOrdinal := by
        rw [← List.pairwise_map, hc.1.spans]
        exact List.pairwise_lt_range
      refine hspans.imp_of_mem fun hrow hrow' hlt => ?_
      rw [Prod.Lex.toLex_le_toLex]
      exact Or.inr ⟨(hc.1.candidate _ hrow).trans (hc.1.candidate _ hrow').symm, hlt.le⟩
    · intro row hrow row' hrow'
      obtain ⟨c', hc', hcand, -⟩ := exists_candidate hrest hrow'
      have hlt := hord.1 c'.candidateOrdinal (List.mem_map_of_mem hc')
      rw [Prod.Lex.toLex_le_toLex]
      left
      dsimp only
      rwa [hc.1.candidate row hrow, hcand]

theorem sortedSet_candidates (h : Written src evidence blocks)
    (hord : (evidence.map (·.candidateOrdinal)).Pairwise (· < ·)) :
    PyList.sortedSet (blocks.flatten.map (·.candidateOrdinal)) = evidence.map (·.candidateOrdinal) := by
  have hmem : ∀ n, n ∈ (blocks.flatten.map (·.candidateOrdinal)).dedup ↔ n ∈ evidence.map (·.candidateOrdinal) := by
    intro n
    rw [List.mem_dedup, List.mem_map, List.mem_map]
    constructor
    · rintro ⟨row, hrow, rfl⟩
      obtain ⟨c, hc, heq, -⟩ := exists_candidate h hrow
      exact ⟨c, hc, heq.symm⟩
    · rintro ⟨c, hc, rfl⟩
      obtain ⟨row, hrow, heq, -⟩ := exists_row h hc
      exact ⟨row, hrow, heq⟩
  have hperm := (List.perm_ext_iff_of_nodup (List.nodup_dedup _) (hord.imp ne_of_lt)).2 hmem
  rw [PyList.sortedSet]
  refine (PyList.sortedBy_perm id _ |>.trans hperm).eq_of_pairwise (fun _ _ _ _ hle hge => le_antisymm hle hge)
    (PyList.sortedBy_pairwise id _) (hord.imp le_of_lt)

theorem normalizedValues_flatten (h : Written src evidence blocks) :
    normalizedValues blocks.flatten = (evidence.filterMap (·.normalizedValue)).toFinset := by
  ext v
  rw [normalizedValues, List.mem_toFinset, List.mem_toFinset, List.mem_filterMap, List.mem_filterMap]
  constructor
  · rintro ⟨row, hrow, hv⟩
    obtain ⟨c, hc, -, heq, -⟩ := exists_candidate h hrow
    exact ⟨c, hc, heq ▸ hv⟩
  · rintro ⟨c, hc, hv⟩
    obtain ⟨row, hrow, -, heq⟩ := exists_row h hc
    exact ⟨row, hrow, heq ▸ hv⟩

theorem flatten_eq_nil_iff (h : Written src evidence blocks) :
    blocks.flatten = [] ↔ evidence = [] := by
  constructor
  · intro hnil
    rw [List.eq_nil_iff_forall_not_mem]
    intro c hc
    obtain ⟨row, hrow, -⟩ := exists_row h hc
    rw [hnil] at hrow
    cases hrow
  · rintro rfl
    rw [List.forall₂_nil_left_iff.1 h]
    rfl

/-! ### The two checks -/

/-- The rule of a status for the rows of the revision. -/
def StatusRule (launchDate : Option Str) (status : LaunchDateStatus) (rows : List DerivedFieldEvidence) : Prop :=
  match status with
  | .confirmed => ¬ differsFrom rows launchDate
  | .missing => rows = []
  | .invalid => rows ≠ [] ∧ normalizedValues rows = ∅
  | .conflicting => 1 < (normalizedValues rows).card

/-- What both checks ask of the rows, apart from the rule of the status. -/
structure Sound (src : SourceNodes H) (rows : List DerivedFieldEvidence) : Prop where
  bound : ∀ row ∈ rows, Bound src row
  written : ∀ row ∈ rows, ∀ v, row.normalizedValue = some v → ∃ d : Date, v = d.isoformat
  spans : ∀ candidate, spanOrdinals rows candidate = List.range (spanOrdinals rows candidate).length
  candidates : PyList.sortedSet (rows.map (·.candidateOrdinal)) =
    List.range (PyList.sortedSet (rows.map (·.candidateOrdinal))).length
  ordered : rows.Pairwise fun row row' =>
    toLex (row.candidateOrdinal, row.spanOrdinal) ≤ toLex (row'.candidateOrdinal, row'.spanOrdinal)

theorem checkCanonicalDate_isoformat (d : Date) (invalid notCanonical : String) :
    checkCanonicalDate d.isoformat invalid notCanonical = .ok () := by
  rw [checkCanonicalDate, Date.fromisoformat_isoformat]
  exact raiseIf_eq_ok.2 (not_not.2 rfl)

theorem Bound.page {row : DerivedFieldEvidence} (h : Bound src row) :
    ∃ page, pageByNumber src.pages row.page = some page ∧ row.sourceStart < row.sourceEnd ∧
      row.sourceEnd ≤ page.text.length ∧
      H.hexdigest (slice page.text row.sourceStart row.sourceEnd) = row.textSha256 := by
  obtain ⟨spans, hspans, span, hspan, hpage, hstart, hend, hhash⟩ := h
  rw [← hpage, ← hstart, ← hend, ← hhash]
  exact src.bound (row.nodeId, spans) (PyList.mem_of_get? hspans) span hspan

theorem Sound.validateInputRow (h : Sound src rows) {row : DerivedFieldEvidence} (hrow : row ∈ rows) :
    validateInputRow src row = .ok () := by
  obtain ⟨spans, hspans, hspan⟩ := h.bound row hrow
  obtain ⟨page, hpage, hstart, hend, hhash⟩ := (h.bound row hrow).page
  unfold Launch.validateInputRow
  simp only [hspans, hpage, Guard.bind_eq_ok, raiseIf_eq_ok, Guard.exists_unit, not_not, not_or, not_le, gt_iff_lt,
    not_lt]
  refine ⟨⟨hstart, hend⟩, hhash, hspan, ?_⟩
  cases hv : row.normalizedValue with
  | none => rfl
  | some v =>
    obtain ⟨d, rfl⟩ := h.written row hrow v hv
    exact checkCanonicalDate_isoformat d _ _

theorem Sound.validateV6Row (h : Sound src rows) {row : DerivedFieldEvidence} (hrow : row ∈ rows) :
    validateV6Row src row = .ok () := by
  obtain ⟨page, hpage, -, -, hhash⟩ := (h.bound row hrow).page
  unfold Launch.validateV6Row
  simp only [hpage, Guard.bind_eq_ok, raiseIf_eq_ok, Guard.exists_unit, not_not]
  refine ⟨hhash, ?_⟩
  cases hv : row.normalizedValue with
  | none => rfl
  | some v =>
    obtain ⟨d, rfl⟩ := h.written row hrow v hv
    exact checkCanonicalDate_isoformat d _ _

theorem Sound.not_unbound (h : Sound src rows) : ¬ rows.any (unbound src) = true := by
  rw [List.any_eq_true]
  rintro ⟨row, hrow, hun⟩
  obtain ⟨spans, hspans, hspan⟩ := h.bound row hrow
  obtain ⟨page, hpage, hstart, hend, hhash⟩ := (h.bound row hrow).page
  have hlength : row.textSha256.length = 64 := hhash ▸ H.length_hexdigest _
  simp only [unbound, hspans, hpage, Bool.or_eq_true, decide_eq_true_eq] at hun
  rcases hun with ((hun | hun) | hun) | hun
  · exact hun hspan
  · omega
  · omega
  · exact hun hlength

/-- The server reads the rows in the order the pipeline writes them. -/
theorem Sound.orderedRows (h : Sound src rows) : orderedRows src rows = rows := by
  have hpages : (rows.filter fun row => (pageByNumber src.pages row.page).isSome) = rows := by
    refine List.filter_eq_self.2 fun row hrow => ?_
    obtain ⟨page, hpage, -⟩ := (h.bound row hrow).page
    rw [hpage]
    rfl
  rw [Launch.orderedRows, hpages]
  exact PyList.sortedBy_eq_self h.ordered

theorem validateInputs_iff {launchDate : Option Date} {status : LaunchDateStatus} (h : Sound src rows)
    (hstatus : status = .confirmed ↔ launchDate ≠ none) :
    validateInputs src (launchDate.map Date.isoformat) status rows = .ok () ↔
      StatusRule (launchDate.map Date.isoformat) status rows := by
  have hrows : rows.forM (Launch.validateInputRow src) = .ok () :=
    Guard.forM_eq_ok.2 fun row hrow => h.validateInputRow hrow
  have hspans : ∀ candidate, PyList.sortedBy id (spanOrdinals rows candidate) =
      List.range (spanOrdinals rows candidate).length := by
    intro candidate
    rw [PyList.sortedBy_eq_self, ← h.spans candidate]
    rw [h.spans candidate]
    exact List.pairwise_le_range
  unfold validateInputs StatusRule
  cases status with
  | confirmed =>
    obtain ⟨d, rfl⟩ := Option.ne_none_iff_exists'.1 (hstatus.1 rfl)
    simp [-List.forM_eq_forM, checkCanonicalDate_isoformat, hrows, hspans, ← h.candidates]
  | missing =>
    obtain rfl : launchDate = none := not_not.1 fun hne => nomatch hstatus.2 hne
    simp [-List.forM_eq_forM, hrows, hspans, ← h.candidates]
  | invalid =>
    obtain rfl : launchDate = none := not_not.1 fun hne => nomatch hstatus.2 hne
    simp [-List.forM_eq_forM, hrows, hspans, ← h.candidates]
  | conflicting =>
    obtain rfl : launchDate = none := not_not.1 fun hne => nomatch hstatus.2 hne
    simp [-List.forM_eq_forM, hrows, hspans, ← h.candidates]

theorem validateV6LaunchDates_iff {launchDate : Option Date} {status : LaunchDateStatus} (h : Sound src rows)
    (hstatus : status = .confirmed ↔ launchDate ≠ none) :
    validateV6LaunchDates src (launchDate.map Date.isoformat) status rows = .ok () ↔
      StatusRule (launchDate.map Date.isoformat) status rows := by
  have hrows : rows.forM (Launch.validateV6Row src) = .ok () :=
    Guard.forM_eq_ok.2 fun row hrow => h.validateV6Row hrow
  unfold validateV6LaunchDates StatusRule
  rw [h.orderedRows]
  cases status with
  | confirmed =>
    obtain ⟨d, rfl⟩ := Option.ne_none_iff_exists'.1 (hstatus.1 rfl)
    simp [-List.forM_eq_forM, checkCanonicalDate_isoformat, h.not_unbound, hrows, ← h.spans, ← h.candidates]
  | missing =>
    obtain rfl : launchDate = none := not_not.1 fun hne => nomatch hstatus.2 hne
    simp [-List.forM_eq_forM, h.not_unbound, hrows, ← h.spans, ← h.candidates]
  | invalid =>
    obtain rfl : launchDate = none := not_not.1 fun hne => nomatch hstatus.2 hne
    simp [-List.forM_eq_forM, h.not_unbound, hrows, ← h.spans, ← h.candidates]
  | conflicting =>
    obtain rfl : launchDate = none := not_not.1 fun hne => nomatch hstatus.2 hne
    simp [-List.forM_eq_forM, h.not_unbound, hrows, ← h.spans, ← h.candidates]

end rows

/-! ### The first eight readings -/

/-- The different dates of the readings. -/
def datesOf (ks : List Key) : Finset Str := (ks.filterMap Key.value).toFinset

/-- The first eight different readings show as many different dates as all of them, counted up to two. -/
def EightSuffice (rs : List Key) : Prop := min 2 (datesOf rs).card ≤ (datesOf (rs.eraseDups.take 8)).card

instance (rs : List Key) : Decidable (EightSuffice rs) := inferInstanceAs (Decidable (_ ≤ _))

theorem datesOf_kept_subset (rs : List Key) : datesOf (rs.eraseDups.take 8) ⊆ datesOf rs := by
  intro v hv
  rw [datesOf, List.mem_toFinset, List.mem_filterMap] at hv ⊢
  obtain ⟨k, hk, hv⟩ := hv
  exact ⟨k, List.mem_eraseDups.1 (List.mem_of_mem_take hk), hv⟩

namespace Scan.Follows

variable {segments : List DerivedTextSegment} {rs : List Key} {s : Scan} (h : Follows segments rs s)
include h

theorem datesOf_eq : datesOf rs = (s.validDates.map Date.isoformat).toFinset := by
  ext v
  rw [datesOf, List.mem_toFinset, List.mem_toFinset, List.mem_filterMap, List.mem_map]
  constructor
  · rintro ⟨k, hk, hv⟩
    obtain ⟨d, rfl⟩ := h.written k hk v hv
    exact ⟨d, (h.dates d).2 ⟨k, hk, hv⟩, rfl⟩
  · rintro ⟨d, hd, rfl⟩
    exact (h.dates d).1 hd

theorem card_datesOf : (datesOf rs).card = s.validDates.length := by
  rw [h.datesOf_eq, List.toFinset_card_of_nodup (h.nodup.map Date.isoformat_injective), List.length_map]

theorem kept_values : ((s.evidence.take 8).filterMap (·.normalizedValue)).toFinset = datesOf (rs.eraseDups.take 8) := by
  rw [datesOf, ← h.keys, ← List.map_take, List.filterMap_map]
  rfl

/-- A reading that is not a date is noted as invalid, so nothing was read when nothing is noted. -/
theorem evidence_eq_nil (hdates : s.validDates = []) (hinvalid : s.invalid = false) : s.evidence = [] := by
  have hrs : rs = [] := by
    rw [List.eq_nil_iff_forall_not_mem]
    intro k hk
    cases hv : Key.value k with
    | none => exact absurd (h.invalid.2 ⟨k, hk, hv⟩) (by simp [hinvalid])
    | some v =>
      obtain ⟨d, rfl⟩ := h.written k hk v hv
      exact absurd ((h.dates d).2 ⟨k, hk, hv⟩) (by simp [hdates])
  have hkeys := h.keys
  rw [hrs, List.eraseDups_nil, List.map_eq_nil_iff] at hkeys
  exact hkeys

theorem evidence_ne_nil (hinvalid : s.invalid = true) : s.evidence ≠ [] := by
  obtain ⟨k, hk, -⟩ := h.invalid.1 hinvalid
  intro hnil
  have hkeys := h.keys
  rw [hnil, List.map_nil] at hkeys
  exact absurd (List.mem_eraseDups.2 hk) (by simp [← hkeys])

theorem sound_rows {H : Sha256} {src : SourceNodes H} {blocks : List (List DerivedFieldEvidence)}
    (hw : Written src (s.evidence.take 8) blocks) : Sound src blocks.flatten := by
  have hords : (s.evidence.take 8).map (·.candidateOrdinal) = List.range (min 8 s.evidence.length) := by
    rw [List.map_take, h.ordinals, List.take_range]
  have hord : ((s.evidence.take 8).map (·.candidateOrdinal)).Pairwise (· < ·) := hords ▸ List.pairwise_lt_range
  constructor
  · intro row hrow
    obtain ⟨c, -, -, -, hbound⟩ := exists_candidate hw hrow
    exact hbound
  · intro row hrow v hv
    obtain ⟨c, hc, -, hvalue, -⟩ := exists_candidate hw hrow
    have hkey : c.key ∈ rs.eraseDups := h.keys ▸ List.mem_map_of_mem (List.mem_of_mem_take hc)
    exact h.written c.key (List.mem_eraseDups.1 hkey) v (hvalue.symm.trans hv)
  · exact spanOrdinals_flatten hw hord
  · rw [sortedSet_candidates hw hord, hords, List.length_range]
  · exact pairwise_flatten hw hord

end Scan.Follows

section
variable (nfkc : Str → Str) (segments : List DerivedTextSegment)

def scanned : Scan := (windows nfkc segments).foldl (Scan.addWindow nfkc) {}

/-- The evidence returned is the first eight pieces, also where none is. -/
theorem resolve_evidence :
    (resolveLaunchDateSegments nfkc segments).evidence = (scanned nfkc segments).evidence.take 8 := by
  have hf := follows_scan nfkc segments
  unfold resolveLaunchDateSegments
  rw [← scanned] at hf ⊢
  dsimp only
  split
  · rfl
  · split
    · rfl
    · rename_i hdates
      split
      · rfl
      · rename_i hinvalid
        rw [hf.evidence_eq_nil hdates (by simpa using hinvalid)]
        rfl

theorem resolve_confirmed_iff :
    (resolveLaunchDateSegments nfkc segments).status = .confirmed ↔
      (resolveLaunchDateSegments nfkc segments).launchDate ≠ none := by
  unfold resolveLaunchDateSegments
  dsimp only
  split
  · simp
  · split
    · simp
    · split <;> simp

variable {nfkc segments} {H : Sha256} {src : SourceNodes H}

theorem statusRule_iff {blocks : List (List DerivedFieldEvidence)}
    (hw : Written src ((scanned nfkc segments).evidence.take 8) blocks) :
    StatusRule ((resolveLaunchDateSegments nfkc segments).launchDate.map Date.isoformat)
        (resolveLaunchDateSegments nfkc segments).status blocks.flatten ↔
      EightSuffice (readings nfkc segments) := by
  have hf := follows_scan nfkc segments
  have hvalues := normalizedValues_flatten hw
  have hnil := flatten_eq_nil_iff hw
  unfold resolveLaunchDateSegments
  rw [← scanned] at hf ⊢
  rw [hf.kept_values] at hvalues
  have hsub := datesOf_kept_subset (readings nfkc segments)
  have hcard := hf.card_datesOf
  unfold EightSuffice
  dsimp only
  split
  · rename_i htwo
    show 1 < (normalizedValues blocks.flatten).card ↔ _
    rw [hvalues]
    omega
  · rename_i htwo
    split
    · rename_i d ds hdates
      have hone : (scanned nfkc segments).validDates = [d] := by
        rw [hdates, List.length_cons] at htwo
        rw [hdates, List.length_eq_zero_iff.1 (show ds.length = 0 by omega)]
      have hall : datesOf (readings nfkc segments) = {d.isoformat} := by
        rw [hf.datesOf_eq, hone]
        rfl
      rw [hall] at hsub
      have himage : (normalizedValues blocks.flatten).image some = {some d.isoformat} ↔
          datesOf ((readings nfkc segments).eraseDups.take 8) = {d.isoformat} := by
        rw [hvalues, ← Finset.image_singleton, (Finset.image_injective (Option.some_injective _)).eq_iff]
      show ¬ differsFrom blocks.flatten (some d.isoformat) ↔ _
      rw [differsFrom, not_not, himage, hall, Finset.card_singleton]
      rcases Finset.subset_singleton_iff.1 hsub with hkept | hkept <;> simp [hkept]
    · rename_i hdates
      have hnone : datesOf (readings nfkc segments) = ∅ := by
        rw [hf.datesOf_eq, hdates]
        rfl
      rw [hnone, Finset.subset_empty] at hsub
      have htrue : min 2 (datesOf (readings nfkc segments)).card ≤
          (datesOf ((readings nfkc segments).eraseDups.take 8)).card := by
        rw [hnone, Finset.card_empty]
        omega
      refine iff_of_true ?_ htrue
      split
      · rename_i hinvalid
        refine ⟨fun hempty => ?_, hvalues.trans hsub⟩
        rw [hnil, List.take_eq_nil_iff] at hempty
        exact hf.evidence_ne_nil hinvalid (hempty.resolve_left (by decide))
      · rename_i hinvalid
        show blocks.flatten = []
        rw [hnil, hf.evidence_eq_nil hdates (by simpa using hinvalid)]
        rfl

end

/-- Segments that name nodes of the revision, as the pipeline makes them: the rows pass both checks
exactly when the first eight readings suffice. -/
theorem launchDate_published_iff {H : Sha256} (nfkc : Str → Str) (src : SourceNodes H)
    (segments : List DerivedTextSegment) (hsourced : ∀ segment ∈ segments, Sourced src segment) :
    Published src nfkc segments ↔ EightSuffice (readings nfkc segments) := by
  have hf := follows_scan nfkc segments
  rw [← scanned] at hf
  obtain ⟨blocks, hrows, hw⟩ := exists_evidenceRows (H := H) fun c hc => by
    obtain ⟨hne, hsub⟩ := hf.sources c (List.mem_of_mem_take hc)
    exact ⟨hne, fun segment hs => hsourced segment (hsub hs)⟩
  have hsound := hf.sound_rows hw
  have hconfirmed := resolve_confirmed_iff nfkc segments
  unfold Published
  dsimp only
  rw [resolve_evidence, hrows]
  simp only [Except.ok.injEq, exists_eq_left', validateInputs_iff hsound hconfirmed,
    validateV6LaunchDates_iff hsound hconfirmed, and_self]
  exact statusRule_iff hw

/-! ### Documents of one line a page -/

def lineNode (i : Nat) : Str := [Char.ofNat (97 + i)]

def lineSpan (i : Nat) (line : Str) : NodeSpan := ⟨i + 1, 0, line.length, Sha256.standard.hexdigest line, 0, true⟩

/-- A revision with one line on each page, each line a node. -/
def lineSource (lines : List Str) (hlines : ∀ line ∈ lines, line ≠ []) : SourceNodes .standard where
  pages := lines.mapIdx fun i line => ⟨i + 1, line, Sha256.standard.hexdigest line⟩
  nodes := lines.mapIdx fun i line => (lineNode i, [lineSpan i line])
  bound := by
    intro node hnode span hspan
    obtain ⟨i, hi, rfl⟩ := List.mem_mapIdx.1 hnode
    obtain rfl := List.mem_singleton.1 hspan
    have hnodup : ((lines.mapIdx fun i line => (⟨i + 1, line, Sha256.standard.hexdigest line⟩ : StructurePage)).map
        (·.page)).Nodup := by
      rw [List.nodup_iff_injective_getElem]
      intro j k hjk
      simp at hjk
      exact Fin.ext hjk
    have hmem : (⟨i + 1, lines[i], Sha256.standard.hexdigest lines[i]⟩ : StructurePage) ∈
        lines.mapIdx fun i line => ⟨i + 1, line, Sha256.standard.hexdigest line⟩ :=
      List.mem_mapIdx.2 ⟨i, hi, rfl⟩
    refine ⟨_, PyList.get?_dictOf_of_mem hnodup hmem, ?_, le_refl _, ?_⟩
    · exact List.length_pos_of_ne_nil (hlines _ (List.getElem_mem hi))
    · show Sha256.standard.hexdigest (slice lines[i] 0 lines[i].length) = Sha256.standard.hexdigest lines[i]
      rw [slice_self]

/-- The segments of these nodes, all under the root. -/
def lineSegments (lines : List Str) : List DerivedTextSegment :=
  lines.mapIdx fun i line =>
    { text := line, nodeId := some (lineNode i), page := some (i + 1), sourceStart := some 0,
      sourceEnd := some line.length, textSha256 := some (Sha256.standard.hexdigest line), groupId := some "root".toList }

/-- A document that gives its launch date once. -/
def plainLines : List Str := ["출시일 2024.1.1".toList]

theorem launchDate_published_plainLines :
    (∀ segment ∈ lineSegments plainLines, Sourced (lineSource plainLines (by decide)) segment) ∧
      Published (lineSource plainLines (by decide)) id (lineSegments plainLines) := by
  have hsourced : ∀ segment ∈ lineSegments plainLines, Sourced (lineSource plainLines (by decide)) segment := by
    intro segment h
    obtain rfl := List.mem_singleton.1 h
    exact ⟨_, _, rfl, rfl, by simp⟩
  exact ⟨hsourced, (launchDate_published_iff id _ _ hsourced).2 (by decide +kernel)⟩

/-- A document that gives a month 13 four times before it gives its launch date. -/
def oddLines : List Str := List.replicate 4 "출시일 2024.13.1".toList ++ ["출시일 2024.1.1".toList]

theorem oddLines_refused :
    (∀ segment ∈ lineSegments oddLines, Sourced (lineSource oddLines (by decide)) segment) ∧
      (resolveLaunchDateSegments id (lineSegments oddLines)).status = .confirmed ∧
      ¬ Published (lineSource oddLines (by decide)) id (lineSegments oddLines) := by
  have hstatus : (resolveLaunchDateSegments id (lineSegments oddLines)).status = .confirmed := by decide +kernel
  refine ⟨?_, hstatus, ?_⟩
  · intro segment h
    obtain ⟨i, hi, rfl⟩ := List.mem_mapIdx.1 h
    change i < 5 at hi
    interval_cases i <;> exact ⟨_, _, rfl, rfl, by simp⟩
  · -- the eight rows kept are of the joined and single windows before the date
    have hrefused : (evidenceRows (lineSource oddLines (by decide)).nodes
          (resolveLaunchDateSegments id (lineSegments oddLines)).evidence >>=
        validateInputs (lineSource oddLines (by decide)) (some "2024-01-01".toList) .confirmed) =
        .error (databaseError "confirmed launch date differs from its evidence") := by decide +kernel
    rintro ⟨rows, hrows, hinputs, -⟩
    have hdate : (resolveLaunchDateSegments id (lineSegments oddLines)).launchDate.map Date.isoformat =
        some "2024-01-01".toList := by decide +kernel
    rw [hdate, hstatus] at hinputs
    rw [hrows] at hrefused
    exact nomatch hinputs.symm.trans hrefused

end CardRag.Launch
