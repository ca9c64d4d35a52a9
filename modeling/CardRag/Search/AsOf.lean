import CardRag.Search.Catalog

/-! # The revision of a date

A lineage is a chain of revisions, each superseding the one before. `as_of` selects the chain's
eligible revisions whose successor is not eligible: one if the eligible revisions are contiguous, more
than one, and an error, if a revision dated later than both of its neighbours splits them. -/

namespace CardRag.Search

/-- What `_validate_structure` checks of the revisions: a revision supersedes one of its own lineage. -/
structure Sealed (summaries : List ContractRevisionSummary) : Prop where
  ids : (summaries.map (·.contractRevisionId)).Nodup
  supersedes : ∀ r ∈ summaries, ∀ q ∈ summaries, r.supersedesRevisionId = some q.contractRevisionId →
    r.productLineageId = q.productLineageId

/-- The revisions of a lineage form one chain, the oldest first, with distinct dates. -/
structure SupersessionChain (summaries : List ContractRevisionSummary) (lineage : Str)
    (chain : List ContractRevisionSummary) : Prop where
  perm : chain.Perm (summaries.filter (·.productLineageId = lineage))
  first : ∀ r ∈ chain.head?, r.supersedesRevisionId = none
  linked : ∀ i (h : i + 1 < chain.length), chain[i + 1].supersedesRevisionId = some chain[i].contractRevisionId
  dated : ∀ r ∈ chain, r.effectiveDate ≠ none
  dates : (chain.map (·.effectiveDate)).Nodup

/-- The revision is effective on the date. -/
def ContractRevisionSummary.EffectiveOn (asOf : Date) (r : ContractRevisionSummary) : Prop :=
  r.effectiveDate.any (· ≤ asOf) = true

instance (asOf : Date) : DecidablePred (ContractRevisionSummary.EffectiveOn asOf) :=
  fun r => inferInstanceAs (Decidable (r.effectiveDate.any (· ≤ asOf) = true))

/-- The latest revision of the chain among those effective on the date. -/
def terminal (asOf : Date) (chain : List ContractRevisionSummary) : Option ContractRevisionSummary :=
  (chain.filter fun r => r.EffectiveOn asOf).getLast?

/-- No revision of the chain is missing between two effective ones. -/
def Contiguous (asOf : Date) (chain : List ContractRevisionSummary) : Prop :=
  ∀ i j k (_ : i < j) (_ : j < k) (_ : k < chain.length),
    chain[i].EffectiveOn asOf → chain[k].EffectiveOn asOf → chain[j].EffectiveOn asOf

/-- The effective revisions whose successor is not effective. -/
def stops (asOf : Date) : List ContractRevisionSummary → List ContractRevisionSummary
  | [] => []
  | r :: rest =>
    if r.EffectiveOn asOf ∧ ∀ s ∈ rest.head?, ¬ s.EffectiveOn asOf then r :: stops asOf rest else stops asOf rest

section
variable {asOf : Date} {chain rest : List ContractRevisionSummary} {r : ContractRevisionSummary}

theorem contiguous_cons : Contiguous asOf (r :: rest) ↔
    Contiguous asOf rest ∧ (r.EffectiveOn asOf → (∀ s ∈ rest.head?, ¬ s.EffectiveOn asOf) →
      ∀ s ∈ rest, ¬ s.EffectiveOn asOf) := by
  constructor
  · intro h
    refine ⟨fun i j k hij hjk hk hi hk' => ?_, fun hr hhead s hs hse => ?_⟩
    · exact h (i + 1) (j + 1) (k + 1) (by omega) (by omega) (by simpa using hk) hi hk'
    · obtain ⟨k, hk, rfl⟩ := List.getElem_of_mem hs
      cases rest with
      | nil => cases hs
      | cons t rest =>
        have ht : ¬ t.EffectiveOn asOf := hhead t rfl
        rcases k with - | k
        · exact ht hse
        · exact ht (h 0 1 (k + 2) (by omega) (by omega) (by simpa using hk) hr hse)
  · rintro ⟨hrest, hhead⟩ i j k hij hjk hk hi hk'
    obtain ⟨j, rfl⟩ : ∃ j', j = j' + 1 := ⟨j - 1, by omega⟩
    obtain ⟨k, rfl⟩ : ∃ k', k = k' + 1 := ⟨k - 1, by omega⟩
    have hk1 : k < rest.length := by simpa using hk
    rcases i with - | i
    · rw [List.getElem_cons_succ] at hk' ⊢
      by_contra hj
      -- the first revision before `j` is effective as long as the head of the rest is
      by_cases h0 : ∀ s ∈ rest.head?, ¬ s.EffectiveOn asOf
      · exact hhead hi h0 _ (List.getElem_mem hk1) hk'
      · push Not at h0
        obtain ⟨s, hs, hse⟩ := h0
        cases rest with
        | nil => cases hs
        | cons t rest =>
          obtain rfl : t = s := Option.some.inj hs
          rcases j with - | j
          · exact hj hse
          · exact hj (hrest 0 (j + 1) k (by omega) (by omega) hk1 hse hk')
    · exact hrest i j k (by omega) (by omega) hk1 hi hk'

theorem stops_eq_nil_iff : stops asOf chain = [] ↔ ∀ r ∈ chain, ¬ r.EffectiveOn asOf := by
  induction chain with
  | nil => simp [stops]
  | cons r rest ih =>
    rw [stops]
    split
    · rename_i h
      simp only [reduceCtorEq, List.mem_cons, forall_eq_or_imp, false_iff, not_and]
      exact fun hr => absurd h.1 hr
    · rename_i h
      rw [ih, List.forall_mem_cons]
      refine ⟨fun hrest => ⟨fun hr => h ⟨hr, fun s hs => hrest s (List.mem_of_mem_head? hs)⟩, hrest⟩, fun h => h.2⟩

/-- One stop at most exactly when the effective revisions are contiguous. -/
theorem length_stops_le_one_iff : (stops asOf chain).length ≤ 1 ↔ Contiguous asOf chain := by
  induction chain with
  | nil => exact ⟨fun _ i j k _ _ hk => absurd hk (Nat.not_lt_zero _), fun _ => Nat.zero_le _⟩
  | cons r rest ih =>
    rw [contiguous_cons, stops]
    split
    · rename_i h
      have hlen : (r :: stops asOf rest).length ≤ 1 ↔ stops asOf rest = [] := by
        rw [List.length_cons, ← List.length_eq_zero_iff]
        omega
      rw [hlen, stops_eq_nil_iff]
      refine ⟨fun hnone => ⟨?_, fun _ _ => hnone⟩, fun hc => hc.2 h.1 h.2⟩
      exact fun i j k _ _ hk _ hk' => absurd hk' (hnone _ (List.getElem_mem hk))
    · rename_i h
      rw [ih]
      exact ⟨fun hc => ⟨hc, fun hr hs => absurd ⟨hr, hs⟩ h⟩, fun hc => hc.1⟩

/-- The one stop is the latest effective revision. -/
theorem stops_of_contiguous (h : Contiguous asOf chain) : stops asOf chain = (terminal asOf chain).toList := by
  induction chain with
  | nil => rfl
  | cons r rest ih =>
    obtain ⟨hrest, hhead⟩ := contiguous_cons.1 h
    rw [stops, terminal, List.filter_cons]
    split
    · rename_i hr
      have hnone := hhead hr.1 hr.2
      rw [if_pos (decide_eq_true hr.1), stops_eq_nil_iff.2 hnone, List.filter_eq_nil_iff.2 (by simpa using hnone)]
      rfl
    · rename_i hr
      rw [ih hrest, terminal]
      split
      · rename_i hre
        have hne : rest.filter (fun r => r.EffectiveOn asOf) ≠ [] := by
          intro hnil
          refine hr ⟨of_decide_eq_true hre, fun s hs hse => ?_⟩
          have := List.filter_eq_nil_iff.1 hnil s (List.mem_of_mem_head? hs)
          exact this (decide_eq_true hse)
        obtain ⟨x, xs, hx⟩ := List.exists_cons_of_ne_nil hne
        rw [hx, List.getLast?_cons_cons]
      · rfl

/-- A filter that keeps an effective revision unless its successor is effective keeps the stops. -/
theorem filter_eq_stops {p : ContractRevisionSummary → Bool}
    (hp : ∀ i (h : i < chain.length), p chain[i] = true ↔
      chain[i].EffectiveOn asOf ∧ ∀ h' : i + 1 < chain.length, ¬ chain[i + 1].EffectiveOn asOf) :
    chain.filter p = stops asOf chain := by
  induction chain with
  | nil => rfl
  | cons r rest ih =>
    have hrest := ih fun i h => by
      have := hp (i + 1) (by simpa using h)
      simpa using this
    have hr := hp 0 (by simp)
    have hhead : (∀ h' : 0 + 1 < (r :: rest).length, ¬ (r :: rest)[0 + 1].EffectiveOn asOf) ↔
        ∀ s ∈ rest.head?, ¬ s.EffectiveOn asOf := by
      cases rest with
      | nil => simp
      | cons s rest => simp
    rw [hhead, List.getElem_cons_zero] at hr
    rw [stops, List.filter_cons, hrest]
    by_cases h : r.EffectiveOn asOf ∧ ∀ s ∈ rest.head?, ¬ s.EffectiveOn asOf
    · rw [if_pos h, if_pos (hr.2 h)]
    · rw [if_neg h, if_neg fun hpr => h (hr.1 hpr)]

end

/-- The revisions that a date selects, before the check that each lineage has one. -/
def selectionAsOf (summaries : List ContractRevisionSummary) (asOf : Date) : List ContractRevisionSummary :=
  let eligible := summaries.filter fun r => r.effectiveDate.any (· ≤ asOf)
  let superseded := (eligible.filter (·.productLineageId ∈ nonMonotonicLineages summaries)).filterMap (·.supersedesRevisionId)
  summaries.filter (fun r => r.temporalStatus = .ambiguous ∧ r.effectiveDate = none) ++ eligible.filter fun r =>
    if r.productLineageId ∈ nonMonotonicLineages summaries then r.contractRevisionId ∉ superseded
    else r.effectiveDate = PyList.get? (latestByLineage eligible) r.productLineageId

theorem selectAsOf_eq (summaries : List ContractRevisionSummary) (asOf : Date) : selectAsOf summaries asOf =
    (do
      let selected := selectionAsOf summaries asOf
      raiseIf (∃ r ∈ selected, (selected.filter (·.productLineageId = r.productLineageId)).length ≠ 1)
        (valueError "as_of revision selection is ambiguous")
      pure selected) := rfl

/-- The selected revisions of a lineage. -/
def selectedOf (summaries : List ContractRevisionSummary) (asOf : Date) (lineage : Str) : List ContractRevisionSummary :=
  (selectionAsOf summaries asOf).filter (·.productLineageId = lineage)

/-! ### The latest date of a lineage -/

/-- `m` is the latest date of the lineage among the revisions. -/
structure Latest (eligible : List ContractRevisionSummary) (lineage : Str) (m : Date) : Prop where
  attained : ∃ r ∈ eligible, r.productLineageId = lineage ∧ r.effectiveDate = some m
  le : ∀ r ∈ eligible, r.productLineageId = lineage → ∀ d, r.effectiveDate = some d → d ≤ m

theorem latest_spec (eligible : List ContractRevisionSummary) (lineage : Str) :
    match PyList.get? (latestByLineage eligible) lineage with
    | some m => Latest eligible lineage m
    | none => ∀ r ∈ eligible, r.productLineageId = lineage → r.effectiveDate = none := by
  induction eligible using List.reverseRecOn with
  | nil => exact fun r hr => absurd hr List.not_mem_nil
  | append_singleton xs r ih =>
    cases he : r.effectiveDate with
    | none =>
      have hstep : latestByLineage (xs ++ [r]) = latestByLineage xs := by
        simp only [latestByLineage, List.foldl_append, List.foldl_cons, List.foldl_nil, he]
      rw [hstep]
      cases hg : PyList.get? (latestByLineage xs) lineage with
      | none =>
        simp only [hg] at ih
        intro s hs hl
        rcases List.mem_append.1 hs with hs | hs
        · exact ih s hs hl
        · exact List.mem_singleton.1 hs ▸ he
      | some m =>
        simp only [hg] at ih
        refine ⟨ih.attained.imp fun s hs => ⟨List.mem_append_left _ hs.1, hs.2⟩, fun s hs hl d hd => ?_⟩
        rcases List.mem_append.1 hs with hs | hs
        · exact ih.le s hs hl d hd
        · rw [List.mem_singleton.1 hs, he] at hd
          cases hd
    | some e =>
      have hstep : latestByLineage (xs ++ [r]) = PyList.insert r.productLineageId
          (max ((PyList.get? (latestByLineage xs) r.productLineageId).getD e) e) (latestByLineage xs) := by
        simp only [latestByLineage, List.foldl_append, List.foldl_cons, List.foldl_nil, he]
      rw [hstep, PyList.get?_insert]
      by_cases hl : r.productLineageId = lineage
      · subst hl
        rw [if_pos rfl]
        dsimp only
        cases hg : PyList.get? (latestByLineage xs) r.productLineageId with
        | none =>
          simp only [hg] at ih
          rw [Option.getD_none, max_self]
          refine ⟨⟨r, by simp, rfl, he⟩, fun s hs hl d hd => ?_⟩
          rcases List.mem_append.1 hs with hs | hs
          · rw [ih s hs hl] at hd
            cases hd
          · rw [List.mem_singleton.1 hs, he] at hd
            exact (Option.some.inj hd).ge
        | some m =>
          simp only [hg] at ih
          rw [Option.getD_some]
          refine ⟨?_, fun s hs hl d hd => ?_⟩
          · rcases le_total m e with hme | hme
            · exact ⟨r, by simp, rfl, by rw [max_eq_right hme, he]⟩
            · obtain ⟨s, hs, hsl, hsd⟩ := ih.attained
              exact ⟨s, List.mem_append_left _ hs, hsl, by rw [max_eq_left hme, hsd]⟩
          · rcases List.mem_append.1 hs with hs | hs
            · exact le_max_of_le_left (ih.le s hs hl d hd)
            · rw [List.mem_singleton.1 hs, he] at hd
              exact le_max_of_le_right (Option.some.inj hd).ge
      · rw [if_neg hl]
        cases hg : PyList.get? (latestByLineage xs) lineage with
        | none =>
          simp only [hg] at ih
          intro s hs hsl
          rcases List.mem_append.1 hs with hs | hs
          · exact ih s hs hsl
          · exact absurd (List.mem_singleton.1 hs ▸ hsl) hl
        | some m =>
          simp only [hg] at ih
          refine ⟨ih.attained.imp fun s hs => ⟨List.mem_append_left _ hs.1, hs.2⟩, fun s hs hsl d hd => ?_⟩
          rcases List.mem_append.1 hs with hs | hs
          · exact ih.le s hs hsl d hd
          · exact absurd (List.mem_singleton.1 hs ▸ hsl) hl

section
variable {summaries chain : List ContractRevisionSummary} {lineage : Str} {asOf : Date}

theorem SupersessionChain.mem (hc : SupersessionChain summaries lineage chain) {r : ContractRevisionSummary} :
    r ∈ chain ↔ r ∈ summaries ∧ r.productLineageId = lineage := by
  rw [hc.perm.mem_iff, List.mem_filter, decide_eq_true_eq]

theorem SupersessionChain.ids (hs : Sealed summaries) (hc : SupersessionChain summaries lineage chain) :
    (chain.map (·.contractRevisionId)).Nodup :=
  (hc.perm.map _).nodup_iff.2 ((List.filter_sublist.map _).nodup hs.ids)

/-- What supersedes a revision of the chain is the next one. -/
theorem SupersessionChain.supersedes_iff (hs : Sealed summaries) (hc : SupersessionChain summaries lineage chain)
    {i : Nat} (hi : i < chain.length) {s : ContractRevisionSummary} (hsm : s ∈ summaries) :
    s.supersedesRevisionId = some chain[i].contractRevisionId ↔ ∃ h : i + 1 < chain.length, s = chain[i + 1] := by
  constructor
  · intro h
    have hmem := hc.mem.1 (List.getElem_mem hi)
    have hl := (hs.supersedes s hsm _ hmem.1 h).trans hmem.2
    obtain ⟨j, hj, rfl⟩ := List.getElem_of_mem (hc.mem.2 ⟨hsm, hl⟩)
    rcases j with - | j
    · rw [hc.first _ (by rw [List.head?_eq_getElem?, List.getElem?_eq_getElem hj]; rfl)] at h
      cases h
    · rw [hc.linked j hj] at h
      have hlen : (chain.map (·.contractRevisionId)).length = chain.length := List.length_map _
      have hjl : j < (chain.map (·.contractRevisionId)).length := by omega
      have hil : i < (chain.map (·.contractRevisionId)).length := by omega
      have hij : (chain.map (·.contractRevisionId))[j] = (chain.map (·.contractRevisionId))[i] := by
        simpa using Option.some.inj h
      obtain rfl := (hc.ids hs).getElem_inj_iff.1 hij
      exact ⟨hj, rfl⟩
  · rintro ⟨h, rfl⟩
    exact hc.linked i h

theorem mem_nonMonotonic (hs : Sealed summaries) : lineage ∈ nonMonotonicLineages summaries ↔
    ∃ r ∈ summaries, ∃ q ∈ summaries, r.productLineageId = lineage ∧ q.productLineageId = lineage ∧
      r.supersedesRevisionId = some q.contractRevisionId ∧
      ∃ d e, r.effectiveDate = some d ∧ q.effectiveDate = some e ∧ d < e := by
  simp only [nonMonotonicLineages, List.mem_map, List.mem_filter, Option.any_eq_true, decide_eq_true_eq]
  constructor
  · rintro ⟨r, ⟨hr, p, hp, d, hd, q, hq, hl, e, he, hlt⟩, rfl⟩
    obtain ⟨hqm, hqp⟩ := PyList.get?_dictOf_some hq
    exact ⟨r, hr, q, hqm, rfl, hl, by rw [hp, ← hqp], d, e, hd, he, hlt⟩
  · rintro ⟨r, hr, q, hq, rfl, hl, hp, d, e, hd, he, hlt⟩
    exact ⟨r, ⟨hr, _, hp, d, hd, q, PyList.get?_dictOf_of_mem hs.ids hq, hl, e, he, hlt⟩, rfl⟩

/-- In an ordinary lineage the dates grow along the chain. -/
theorem SupersessionChain.dates_lt (hs : Sealed summaries) (hc : SupersessionChain summaries lineage chain)
    (hmono : lineage ∉ nonMonotonicLineages summaries) {i j : Nat} (hij : i < j) (hj : j < chain.length) {d e : Date}
    (hd : chain[i].effectiveDate = some d) (he : chain[j].effectiveDate = some e) : d < e := by
  have hstep : ∀ k (hk : k + 1 < chain.length) {d e : Date}, chain[k].effectiveDate = some d →
      chain[k + 1].effectiveDate = some e → d < e := by
    intro k hk d e hd he
    have hm := hc.mem.1 (List.getElem_mem (show k < chain.length by omega))
    have hm' := hc.mem.1 (List.getElem_mem hk)
    have hle : d ≤ e := by
      by_contra hlt
      exact hmono ((mem_nonMonotonic hs).2 ⟨_, hm'.1, _, hm.1, hm'.2, hm.2, hc.linked k hk, e, d, he, hd, not_le.1 hlt⟩)
    refine lt_of_le_of_ne hle fun hde => ?_
    have hlen : (chain.map (·.effectiveDate)).length = chain.length := List.length_map _
    have hkl : k < (chain.map (·.effectiveDate)).length := by omega
    have hkl' : k + 1 < (chain.map (·.effectiveDate)).length := by omega
    have hkk : (chain.map (·.effectiveDate))[k] = (chain.map (·.effectiveDate))[k + 1] := by
      simp [hd, he, hde]
    have := hc.dates.getElem_inj_iff.1 hkk
    omega
  induction j generalizing e with
  | zero => omega
  | succ j ih =>
    rcases Nat.lt_succ_iff_lt_or_eq.1 hij with hlt | rfl
    · obtain ⟨m, hm⟩ := Option.ne_none_iff_exists'.1 (hc.dated _ (List.getElem_mem (show j < chain.length by omega)))
      exact (ih hlt (by omega) hd hm hstep).trans (hstep j hj hm he)
    · exact hstep i hj hd he

theorem effectiveOn_iff {r : ContractRevisionSummary} {d : Date} (hd : r.effectiveDate = some d) :
    r.EffectiveOn asOf ↔ d ≤ asOf := by
  rw [ContractRevisionSummary.EffectiveOn, hd, Option.any_some, decide_eq_true_eq]

theorem not_superseded_iff (hs : Sealed summaries) (hc : SupersessionChain summaries lineage chain)
    (hnon : lineage ∈ nonMonotonicLineages summaries) {i : Nat} (hi : i < chain.length) :
    chain[i].contractRevisionId ∉ ((summaries.filter fun r => r.effectiveDate.any (· ≤ asOf)).filter
        (·.productLineageId ∈ nonMonotonicLineages summaries)).filterMap (·.supersedesRevisionId) ↔
      ∀ h : i + 1 < chain.length, ¬ chain[i + 1].EffectiveOn asOf := by
  simp only [List.mem_filterMap, List.mem_filter, decide_eq_true_eq, not_exists, not_and]
  constructor
  · intro h hi' he
    have hm := hc.mem.1 (List.getElem_mem hi')
    exact h _ ⟨⟨hm.1, he⟩, hm.2 ▸ hnon⟩ (hc.linked i hi')
  · rintro h s ⟨⟨hsm, he⟩, -⟩ hsup
    obtain ⟨hi', rfl⟩ := (hc.supersedes_iff hs hi hsm).1 hsup
    exact h hi' he

theorem latest_iff (hs : Sealed summaries) (hc : SupersessionChain summaries lineage chain)
    (hmono : lineage ∉ nonMonotonicLineages summaries) {i : Nat} (hi : i < chain.length)
    (he : chain[i].EffectiveOn asOf) : chain[i].effectiveDate =
        PyList.get? (latestByLineage (summaries.filter fun r => r.effectiveDate.any (· ≤ asOf))) lineage ↔
      ∀ h : i + 1 < chain.length, ¬ chain[i + 1].EffectiveOn asOf := by
  obtain ⟨d, hd⟩ := Option.ne_none_iff_exists'.1 (hc.dated _ (List.getElem_mem hi))
  have hmem : ∀ {k} (hk : k < chain.length), chain[k].EffectiveOn asOf →
      chain[k] ∈ summaries.filter (fun r => r.effectiveDate.any (· ≤ asOf)) ∧ chain[k].productLineageId = lineage := by
    intro k hk hke
    have hm := hc.mem.1 (List.getElem_mem hk)
    exact ⟨List.mem_filter.2 ⟨hm.1, hke⟩, hm.2⟩
  have hspec := latest_spec (summaries.filter fun r => r.effectiveDate.any (· ≤ asOf)) lineage
  cases hg : PyList.get? (latestByLineage (summaries.filter fun r => r.effectiveDate.any (· ≤ asOf))) lineage with
  | none =>
    simp only [hg] at hspec
    rw [hspec _ (hmem hi he).1 (hmem hi he).2] at hd
    cases hd
  | some m =>
    simp only [hg] at hspec
    have hdm : d ≤ m := hspec.le _ (hmem hi he).1 (hmem hi he).2 d hd
    rw [hd, Option.some.injEq]
    constructor
    · rintro rfl hi' he'
      obtain ⟨e, hde⟩ := Option.ne_none_iff_exists'.1 (hc.dated _ (List.getElem_mem hi'))
      have hlt := hc.dates_lt hs hmono (Nat.lt_succ_self i) hi' hd hde
      exact absurd (hspec.le _ (hmem hi' he').1 (hmem hi' he').2 e hde) (not_le.2 hlt)
    · intro hnext
      refine le_antisymm hdm ?_
      obtain ⟨s, hsm, hsl, hsd⟩ := hspec.attained
      obtain ⟨hss, hse⟩ := List.mem_filter.1 hsm
      obtain ⟨k, hk, rfl⟩ := List.getElem_of_mem (hc.mem.2 ⟨hss, hsl⟩)
      rcases lt_trichotomy k i with hki | rfl | hki
      · exact (hc.dates_lt hs hmono hki hi hsd hd).le
      · rw [hd] at hsd
        exact (Option.some.inj hsd).ge
      · exfalso
        have hi' : i + 1 < chain.length := by omega
        obtain ⟨e, hde⟩ := Option.ne_none_iff_exists'.1 (hc.dated _ (List.getElem_mem hi'))
        refine hnext hi' ((effectiveOn_iff hde).2 ?_)
        have hmo := (effectiveOn_iff hsd).1 hse
        rcases Nat.lt_or_eq_of_le (show i + 1 ≤ k by omega) with hlt | rfl
        · exact (hc.dates_lt hs hmono hlt hk hde hsd).le.trans hmo
        · rw [hde] at hsd
          exact (Option.some.inj hsd).symm ▸ hmo

/-- Which revisions of the chain a date selects. -/
theorem selected_iff (hs : Sealed summaries) (hc : SupersessionChain summaries lineage chain) {i : Nat}
    (hi : i < chain.length) : chain[i] ∈ selectionAsOf summaries asOf ↔
      chain[i].EffectiveOn asOf ∧ ∀ h : i + 1 < chain.length, ¬ chain[i + 1].EffectiveOn asOf := by
  have hm := hc.mem.1 (List.getElem_mem hi)
  have hdated := hc.dated _ (List.getElem_mem hi)
  rw [selectionAsOf, List.mem_append, List.mem_filter, List.mem_filter, List.mem_filter, hm.2]
  simp only [hdated, and_false, decide_false, Bool.false_eq_true, and_false, false_or, hm.1, true_and]
  refine and_congr_right fun he => ?_
  by_cases hnon : lineage ∈ nonMonotonicLineages summaries
  · rw [if_pos hnon, decide_eq_true_eq, not_superseded_iff hs hc hnon hi]
  · rw [if_neg hnon, decide_eq_true_eq, latest_iff hs hc hnon hi he]

/-- What a date selects of the lineage are the stops of its chain. -/
theorem selectedOf_perm (hs : Sealed summaries) (hc : SupersessionChain summaries lineage chain) :
    (selectedOf summaries asOf lineage).Perm (stops asOf chain) := by
  have hnd : summaries.Nodup := hs.ids.of_map _
  have hchain : chain.Nodup := (hc.ids hs).of_map _
  have hstops : chain.filter (· ∈ selectionAsOf summaries asOf) = stops asOf chain :=
    filter_eq_stops fun i hi => by rw [decide_eq_true_eq, selected_iff hs hc hi]
  have hsel : (selectionAsOf summaries asOf).filter (·.productLineageId = lineage) =
      (summaries.filter (·.productLineageId = lineage)).filter (· ∈ selectionAsOf summaries asOf) := by
    have hdated : ∀ r ∈ summaries, r.productLineageId = lineage → r.effectiveDate ≠ none :=
      fun r hr hl => hc.dated r (hc.mem.2 ⟨hr, hl⟩)
    have hnone : (summaries.filter fun r => r.temporalStatus = .ambiguous ∧ r.effectiveDate = none).filter
        (·.productLineageId = lineage) = [] := by
      rw [List.filter_eq_nil_iff]
      intro r hr hl
      obtain ⟨hr, ha⟩ := List.mem_filter.1 hr
      exact hdated r hr (of_decide_eq_true hl) (of_decide_eq_true ha).2
    obtain ⟨p, hp⟩ : ∃ p, selectionAsOf summaries asOf =
        summaries.filter (fun r => r.temporalStatus = .ambiguous ∧ r.effectiveDate = none) ++
          (summaries.filter fun r => r.effectiveDate.any (· ≤ asOf)).filter p := ⟨_, rfl⟩
    rw [hp, List.filter_append, hnone, List.nil_append, List.filter_filter, List.filter_filter, List.filter_filter]
    refine List.filter_congr fun r hr => ?_
    by_cases hl : r.productLineageId = lineage
    · simp [hl, hdated r hr hl, hr, List.mem_filter, Bool.and_comm]
    · simp [hl]
  rw [selectedOf, hsel, ← hstops]
  exact (hc.perm.filter _).symm

end

/-- Every lineage of the scope gives the date one revision at most. -/
def ambiguousAsOf : Raised := valueError "as_of revision selection is ambiguous"

/-- The revisions in the scope of a request. -/
def inScope (req : ContractSearchRequest) (summaries : List ContractRevisionSummary) : List ContractRevisionSummary :=
  summaries.filter req.covers

theorem activeRevisions_asOf {K : Catalog} {req : ContractSearchRequest} {summaries : List ContractRevisionSummary}
    {asOf : Date} (hK : K.summaries = .ok summaries) (hhistory : req.includeHistory = false)
    (hdate : req.asOf = some asOf) :
    ((∃ lineage, 1 < (selectedOf (inScope req summaries) asOf lineage).length) →
      activeRevisions K req = .error ambiguousAsOf) ∧
    ((¬ ∃ lineage, 1 < (selectedOf (inScope req summaries) asOf lineage).length) → activeRevisions K req =
      .ok (PyList.sortedBy (·.contractRevisionId) (selectionAsOf (inScope req summaries) asOf))) := by
  have hraise : (∃ r ∈ selectionAsOf (inScope req summaries) asOf, ((selectionAsOf (inScope req summaries) asOf).filter
      (·.productLineageId = r.productLineageId)).length ≠ 1) ↔
      ∃ lineage, 1 < (selectedOf (inScope req summaries) asOf lineage).length := by
    constructor
    · rintro ⟨r, hr, hne⟩
      have hpos : 0 < ((selectionAsOf (inScope req summaries) asOf).filter
          (·.productLineageId = r.productLineageId)).length :=
        List.length_pos_of_mem (List.mem_filter.2 ⟨hr, decide_eq_true rfl⟩)
      exact ⟨r.productLineageId, by rw [selectedOf]; omega⟩
    · rintro ⟨lineage, hlt⟩
      obtain ⟨r, hr⟩ := List.exists_mem_of_length_pos (Nat.zero_lt_of_lt hlt)
      obtain ⟨hr, hl⟩ := List.mem_filter.1 hr
      exact ⟨r, hr, by rw [of_decide_eq_true hl]; exact Nat.ne_of_gt hlt⟩
  have hselect : activeRevisions K req = (selectAsOf (inScope req summaries) asOf >>= fun selected =>
      pure (PyList.sortedBy (·.contractRevisionId) selected)) := by
    rw [activeRevisions, hK, hhistory, hdate]
    rfl
  rw [hselect, selectAsOf_eq]
  dsimp only
  refine ⟨fun h => ?_, fun h => ?_⟩
  · rw [raiseIf, if_pos (hraise.2 h)]
    rfl
  · rw [raiseIf, if_neg (mt hraise.1 h)]
    rfl

/-- What the date gives for the lineage: the latest revision of its chain among those effective, or
none; and never more than one, which is what the ambiguity error reports. -/
structure SelectsTerminal (K : Catalog) (req : ContractSearchRequest) (summaries : List ContractRevisionSummary)
    (asOf : Date) (lineage : Str) (chain : List ContractRevisionSummary) : Prop where
  unambiguous : (selectedOf (inScope req summaries) asOf lineage).length ≤ 1
  selects : ∀ revisions, activeRevisions K req = .ok revisions →
    revisions.filter (·.productLineageId = lineage) = (terminal asOf chain).toList

/-- A date selects the terminal effective revision of a chain exactly when the effective revisions of
the chain are contiguous. The request fails exactly when some lineage has more than one. -/
theorem as_of_selects_terminal_iff (K : Catalog) (req : ContractSearchRequest) (asOf : Date)
    {summaries : List ContractRevisionSummary} (hK : K.summaries = .ok summaries) (hs : Sealed summaries)
    (hhistory : req.includeHistory = false) (hdate : req.asOf = some asOf) {lineage : Str}
    {chain : List ContractRevisionSummary} (hc : SupersessionChain summaries lineage chain)
    (hcovers : ∀ r ∈ chain, req.covers r = true) :
    (activeRevisions K req = .error ambiguousAsOf ↔
      ∃ other, 1 < (selectedOf (inScope req summaries) asOf other).length) ∧
    (SelectsTerminal K req summaries asOf lineage chain ↔ Contiguous asOf chain) := by
  have hactive := activeRevisions_asOf hK hhistory hdate
  have hs' : Sealed (inScope req summaries) :=
    ⟨(List.filter_sublist.map _).nodup hs.ids, fun r hr q hq =>
      hs.supersedes r (List.mem_of_mem_filter hr) q (List.mem_of_mem_filter hq)⟩
  have hc' : SupersessionChain (inScope req summaries) lineage chain := by
    refine ⟨?_, hc.first, hc.linked, hc.dated, hc.dates⟩
    have hall : (inScope req summaries).filter (·.productLineageId = lineage) =
        summaries.filter (·.productLineageId = lineage) := by
      rw [inScope, List.filter_filter]
      refine List.filter_congr fun r hr => ?_
      by_cases hl : r.productLineageId = lineage
      · simp [hl, hcovers r (hc.mem.2 ⟨hr, hl⟩)]
      · simp [hl]
    exact hall ▸ hc.perm
  have hperm : (selectedOf (inScope req summaries) asOf lineage).Perm (stops asOf chain) := selectedOf_perm hs' hc'
  refine ⟨?_, ?_⟩
  · refine ⟨fun h => ?_, hactive.1⟩
    by_contra hne
    rw [hactive.2 hne] at h
    cases h
  constructor
  · intro h
    rw [← length_stops_le_one_iff, ← hperm.length_eq]
    exact h.unambiguous
  · intro h
    have hlen := length_stops_le_one_iff.2 h
    refine ⟨hperm.length_eq ▸ hlen, fun revisions hrev => ?_⟩
    by_cases hne : ∃ other, 1 < (selectedOf (inScope req summaries) asOf other).length
    · rw [hactive.1 hne] at hrev
      cases hrev
    · obtain rfl := Except.ok.inj ((hactive.2 hne).symm.trans hrev)
      have hsorted := (PyList.sortedBy_perm (·.contractRevisionId) (selectionAsOf (inScope req summaries) asOf)).filter
        (·.productLineageId = lineage)
      have hout := hsorted.trans hperm
      rw [stops_of_contiguous h] at hout
      cases ht : terminal asOf chain with
      | none => exact (ht ▸ hout).eq_nil
      | some r => exact (ht ▸ hout).eq_singleton

/-- A lineage of three revisions: the second is dated after the third, which is the current one. -/
def backdated : Catalog where
  lineages := [⟨"l".toList, "kb".toList, "1".toList, "manual".toList, "card".toList⟩]
  revisions := [("r1", "2024-01-01", .superseded, none), ("r2", "2024-01-10", .superseded, some "r1"),
    ("r3", "2024-01-05", .current, some "r2")].map fun r => {
      contractRevisionId := r.1.toList, productLineageId := "l".toList, documentId := r.1.toList,
      sourceId := "s".toList, sourceVersion := "1".toList, sourceUrl := "https://example.com/".toList,
      effectiveDate := some r.2.1.toList, pdfSha256 := List.replicate 64 '0', pageCount := 1,
      temporalStatus := r.2.2.1, supersedesRevisionId := r.2.2.2.map (·.toList) }
  lineages_nodup := by decide
  revisions_nodup := by decide
  documents_nodup := by decide
  lineage_mem := by decide
  lineage_identifier := by
    unfold IsIdentifier
    decide

def backdatedRevision (revisionId : String) (effectiveDate : Date) (status : TemporalStatus)
    (supersedes : Option String) : ContractRevisionSummary :=
  ⟨"l".toList, revisionId.toList, revisionId.toList, "kb".toList, "1".toList, "card".toList, "manual".toList,
    "s".toList, "1".toList, "https://example.com/".toList, some effectiveDate, status,
    supersedes.map (·.toList), List.replicate 64 '0', 1⟩

def backdatedChain : List ContractRevisionSummary :=
  [backdatedRevision "r1" ⟨2024, 1, 1, by decide⟩ .superseded none,
    backdatedRevision "r2" ⟨2024, 1, 10, by decide⟩ .superseded (some "r1"),
    backdatedRevision "r3" ⟨2024, 1, 5, by decide⟩ .current (some "r2")]

theorem summaries_backdated : backdated.summaries = .ok backdatedChain := by decide +kernel

theorem sealed_backdated : Sealed backdatedChain := ⟨by decide, by decide⟩

theorem chain_backdated : SupersessionChain backdatedChain "l".toList backdatedChain where
  perm := .refl _
  first := by decide
  linked
    | 0, _ => rfl
    | 1, _ => rfl
    | n + 2, h => absurd h (by simp [backdatedChain])
  dated := by decide
  dates := by decide

/-- On the day of the third revision the first and the third are effective, and both are selected. -/
theorem as_of_splits : ¬ ∀ (K : Catalog) (req : ContractSearchRequest) (asOf : Date)
    (summaries : List ContractRevisionSummary) (lineage : Str) (chain : List ContractRevisionSummary),
    K.summaries = .ok summaries → Sealed summaries → req.includeHistory = false → req.asOf = some asOf →
    SupersessionChain summaries lineage chain → (∀ r ∈ chain, req.covers r = true) →
      SelectsTerminal K req summaries asOf lineage chain := by
  intro h
  have hsel := h backdated { query := [], asOf := some ⟨2024, 1, 5, by decide⟩ } ⟨2024, 1, 5, by decide⟩ backdatedChain
    "l".toList backdatedChain summaries_backdated sealed_backdated rfl rfl chain_backdated (fun _ _ => rfl)
  exact absurd hsel.unambiguous (by decide +kernel)

/-- When all three are effective the last of the chain is selected, not the latest date. -/
theorem as_of_selects_backdated : SelectsTerminal backdated { query := [], asOf := some ⟨2024, 1, 10, by decide⟩ }
    backdatedChain ⟨2024, 1, 10, by decide⟩ "l".toList backdatedChain := by
  have hall : ∀ r ∈ backdatedChain, r.EffectiveOn ⟨2024, 1, 10, by decide⟩ := by decide
  exact (as_of_selects_terminal_iff backdated _ _ summaries_backdated sealed_backdated rfl rfl chain_backdated
    (fun _ _ => rfl)).2.2 fun _ _ _ _ _ _ _ _ => hall _ (List.getElem_mem _)

end CardRag.Search
