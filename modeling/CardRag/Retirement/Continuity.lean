import CardRag.Retirement.Resume

/-! # Grace continuity

A chain is a list of evaluations, the newest first, each on the ledger that the one before it
returned. `Counted` is the invariant of an open entry: it counts distinct runs since its document
was last reinstated, and the document was absent with complete evidence in each. -/

namespace CardRag.Retirement

open PyList Guard Inputs

/-- An evaluation and what it returned. The resolver keeps the absent documents in a dictionary under
their ids. -/
structure Evaluation where
  inputs : Inputs
  outcome : Outcome
  distinct : (inputs.absent.map (·.documentId)).Nodup

/-- The ledger an evaluation after these reads. -/
def latestLedger (es : List Evaluation) : Option Ledger := es.head?.map (·.outcome.ledger)

def entriesOf (es : List Evaluation) : List Entry := ((latestLedger es).map (·.entries)).getD []

/-- The `previous` of an evaluation after these. -/
def held (es : List Evaluation) : List (Str × Entry) := dictOf (·.documentId) (entriesOf es)

def Chained (ratioCap : Nat → ℚ → Int) : List Evaluation → Prop
  | [] => True
  | e :: es => evaluateRetirements ratioCap e.inputs (latestLedger es) = .ok e.outcome ∧ Chained ratioCap es

/-- The evaluations of one run id follow each other. -/
def Consecutive : List Evaluation → Prop
  | [] => True
  | e :: es =>
    (e.inputs.runId ∈ es.map (·.inputs.runId) → ∃ last ∈ es.head?, last.inputs.runId = e.inputs.runId) ∧ Consecutive es

/-- The document is absent with complete evidence. -/
def AbsentIn (d : Str) (e : Evaluation) : Prop := ∃ i ∈ e.inputs.absent, i.documentId = d ∧ e.inputs.Eligible i

instance (d : Str) : DecidablePred (AbsentIn d) := fun e =>
  inferInstanceAs (Decidable (∃ i ∈ e.inputs.absent, i.documentId = d ∧ e.inputs.Eligible i))

/-- The evaluation after `es` reinstates the document. -/
def ReinstatedIn (d : Str) (e : Evaluation) (es : List Evaluation) : Prop := e.inputs.ComesBack (held es) d

/-- The evaluation after `es` is given the lineage of the document's entry as discovered. -/
def ObservedIn (d : Str) (e : Evaluation) (es : List Evaluation) : Prop :=
  ∃ x ∈ get? (held es) d, x.lineageKey ∈ e.inputs.discoveredLineages

instance (d : Str) (e : Evaluation) (es : List Evaluation) : Decidable (ReinstatedIn d e es) :=
  inferInstanceAs (Decidable (∃ x ∈ get? (held es) d, e.inputs.returns x))

instance (d : Str) (e : Evaluation) (es : List Evaluation) : Decidable (ObservedIn d e es) :=
  inferInstanceAs (Decidable (∃ x ∈ get? (held es) d, x.lineageKey ∈ e.inputs.discoveredLineages))

/-- The evaluations after the last one that `stop`s. -/
def since (stop : Evaluation → List Evaluation → Prop) [∀ e es, Decidable (stop e es)] : List Evaluation → List Evaluation
  | [] => []
  | e :: es => if stop e es then [] else e :: since stop es

/-- The ids of the runs in which the document is absent with complete evidence. -/
def absentRuns (d : Str) (es : List Evaluation) : Finset Str := ((es.filter (AbsentIn d)).map (·.inputs.runId)).toFinset

/-- Since the last `stop`, a retired document was absent in as many runs as the run that retired it asks for. -/
def RetiredAfterGrace (stop : Str → Evaluation → List Evaluation → Prop) [∀ d e es, Decidable (stop d e es)]
    (es : List Evaluation) : Prop :=
  ∀ entry ∈ entriesOf es, entry.status = .retired →
    ∃ e ∈ since (stop entry.documentId) es, AbsentIn entry.documentId e ∧ entry.retiredRunId = some e.inputs.runId ∧
      max 2 e.inputs.policy.graceRuns ≤ ((absentRuns entry.documentId (since (stop entry.documentId) es)).card : Int)

namespace Outcome

/-- How many documents are newly judged. -/
def newlyJudged (o : Outcome) : Nat := (o.retired.filter fun r => r.revalidated = false).length + o.candidates.length

/-- The document is in exactly one of the three reports. -/
def ReportedOnce (o : Outcome) (d : Str) : Prop :=
  (d ∈ o.retired.map (·.documentId) ∧ d ∉ o.candidates.map (·.documentId) ∧ get? o.unjustified d = none) ∨
  (d ∉ o.retired.map (·.documentId) ∧ d ∈ o.candidates.map (·.documentId) ∧ get? o.unjustified d = none) ∨
  (d ∉ o.retired.map (·.documentId) ∧ d ∉ o.candidates.map (·.documentId) ∧ (get? o.unjustified d).isSome)

end Outcome

/-! ## One evaluation -/

section
variable {I : Inputs} {ratioCap : Nat → ℚ → Int} {previous : List (Str × Entry)}

theorem newlyJudged_run (rul : AbsentDocument → Ruling) (L : List AbsentDocument) (s : Progress) :
    ((run rul L s).retired.filter fun r => r.revalidated = false).length + (run rul L s).candidates.length =
      (s.retired.filter fun r => r.revalidated = false).length + s.candidates.length +
        (L.filter fun i => (rul i).entry.isSome).length := by
  induction L generalizing s with
  | nil => rfl
  | cons i L ih =>
    rw [run, List.foldl_cons]
    refine (ih _).trans ?_
    cases hr : rul i with
    | refused reason => simp [Ruling.apply, Ruling.entry, Progress.refuse, hr]
    | already e => simp [Ruling.apply, Ruling.entry, retiredRecord, hr, List.filter_append]
    | judged e =>
      by_cases hs : e.status = .retired
      · simp [Ruling.apply, Ruling.entry, retiredRecord, hr, hs, List.filter_append]
        omega
      · simp [Ruling.apply, Ruling.entry, hr, hs]
        omega

theorem newlyJudged_le (hn : (I.absent.map (·.documentId)).Nodup) :
    ((I.outcome ratioCap previous).newlyJudged : Int) ≤ I.effectiveCap ratioCap := by
  have hcount : (I.outcome ratioCap previous).newlyJudged =
      (I.ordered.filter fun i => (I.decided ratioCap previous i).entry.isSome).length := by
    rw [Outcome.newlyJudged, outcome, progress_eq_run]
    exact (newlyJudged_run _ _ _).trans (Nat.zero_add _)
  have hsub : (I.ordered.filter fun i => (I.decided ratioCap previous i).entry.isSome) ⊆ I.judged ratioCap previous := by
    intro i hi
    obtain ⟨e, he⟩ := Option.isSome_iff_exists.1 (List.mem_filter.1 hi).2
    exact (judged_of_entry he).1
  have hnd : I.ordered.Nodup := (nodup_ordered hn).of_map _
  have hle := (List.subperm_of_subset (hnd.filter _) hsub).length_le
  have hcap : (I.judged ratioCap previous).length ≤ (I.effectiveCap ratioCap).toNat := List.length_take_le ..
  have hpos : 1 ≤ I.effectiveCap ratioCap := le_max_left ..
  omega

theorem reportedOnce (hn : (I.absent.map (·.documentId)).Nodup) (hp : Indexed previous) {i : AbsentDocument}
    (hi : i ∈ I.absent) : (I.outcome ratioCap previous).ReportedOnce i.documentId := by
  have honly : ∀ {k}, (∃ j ∈ I.absent, j.documentId = i.documentId ∧ (I.decided ratioCap previous j).kind = k) ↔
      (I.decided ratioCap previous i).kind = k := by
    intro k
    constructor
    · rintro ⟨j, hj, hd, hk⟩
      rwa [← List.inj_on_of_nodup_map hn hj hi hd]
    · exact fun hk => ⟨i, hi, rfl, hk⟩
  rw [Outcome.ReportedOnce, mem_retired hp, mem_candidates hp, honly, honly, get?_unjustified hn hi]
  cases (I.decided ratioCap previous i).kind with
  | retired => exact .inl ⟨rfl, by simp, rfl⟩
  | candidate => exact .inr (.inl ⟨by simp, rfl, rfl⟩)
  | unjustified reason => exact .inr (.inr ⟨by simp, by simp, rfl⟩)

theorem get?_of_prior {i : AbsentDocument} {x : Entry} (h : prior previous i = some x) :
    get? previous i.documentId = some x ∧ x.status ≠ .reinstated := by
  rw [prior_eq, Option.filter_eq_some_iff] at h
  exact ⟨h.1, of_decide_eq_true h.2⟩

end

/-! ## Chains -/

section
variable {ratioCap : Nat → ℚ → Int} {e : Evaluation} {es : List Evaluation} {d : Str}

theorem indexed_held (es : List Evaluation) : Indexed (held es) := Indexed.dictOf _

theorem Chained.outcome_eq (h : Chained ratioCap (e :: es)) : e.outcome = e.inputs.outcome ratioCap (held es) :=
  ((evaluate_eq_ok_iff e.distinct).1 h.1).2

theorem Chained.entriesOf_eq (h : Chained ratioCap (e :: es)) :
    entriesOf (e :: es) = values (e.inputs.next ratioCap (held es)) := by
  show e.outcome.ledger.entries = _
  rw [h.outcome_eq]
  rfl

theorem Chained.held_eq (h : Chained ratioCap (e :: es)) : held (e :: es) = e.inputs.next ratioCap (held es) := by
  rw [held, h.entriesOf_eq, (indexed_next (indexed_held es)).dictOf_values]

theorem Chained.get?_held (h : Chained ratioCap es) {entry : Entry} (hm : entry ∈ entriesOf es) :
    get? (held es) entry.documentId = some entry := by
  cases es with
  | nil => cases hm
  | cons e es =>
    have hp : Indexed (e.inputs.next ratioCap (held es)) := indexed_next (indexed_held es)
    rw [h.entriesOf_eq] at hm
    obtain ⟨⟨k, x⟩, hx, rfl⟩ := List.mem_map.1 hm
    rw [h.held_eq, ← mem_iff_get? hp.nodup, hp.key _ hx]
    exact hx

theorem mem_of_mem_since {stop : Evaluation → List Evaluation → Prop} [∀ e es, Decidable (stop e es)]
    (h : e ∈ since stop es) : e ∈ es := by
  induction es with
  | nil => exact h
  | cons e' es ih =>
    rw [since] at h
    split at h
    · cases h
    · rcases List.mem_cons.1 h with rfl | h
      · exact List.mem_cons_self ..
      · exact List.mem_cons_of_mem _ (ih h)

theorem consecutive_of_nodup (h : (es.map (·.inputs.runId)).Nodup) : Consecutive es := by
  induction es with
  | nil => trivial
  | cons e es ih =>
    obtain ⟨he, hes⟩ := List.nodup_cons.1 h
    exact ⟨fun hm => absurd hm he, ih hes⟩

theorem mem_absentRuns {r : Str} : r ∈ absentRuns d es ↔ ∃ e ∈ es, AbsentIn d e ∧ e.inputs.runId = r := by
  simp [absentRuns, and_assoc]

/-- What an open entry counts, `runs` being the ids of the runs that judged it. -/
structure Counted (d : Str) (es : List Evaluation) (entry : Entry) (runs : Finset Str) : Prop where
  absent : runs ⊆ absentRuns d (since (ReinstatedIn d) es)
  count : entry.consecutiveAbsences = runs.card
  /-- The newest run can only be counted as the last one. -/
  newest : ∀ last ∈ es.head?, last.inputs.runId ∈ runs → entry.lastCheckedRunId = last.inputs.runId
  grace : entry.status = .retired → ∃ e ∈ since (ReinstatedIn d) es, AbsentIn d e ∧
    entry.retiredRunId = some e.inputs.runId ∧ max 2 e.inputs.policy.graceRuns ≤ entry.consecutiveAbsences

namespace Counted
variable {entry : Entry} {runs : Finset Str}

/-- An evaluation of a run that the entry counts is one of the run it was last checked in. -/
theorem lastChecked (h : Counted d es entry runs) (hc : Consecutive (e :: es)) (hr : e.inputs.runId ∈ runs) :
    entry.lastCheckedRunId = e.inputs.runId := by
  obtain ⟨e', he', -, hrun⟩ := mem_absentRuns.1 (h.absent hr)
  obtain ⟨last, hlast, hl⟩ := hc.1 (List.mem_map.2 ⟨e', mem_of_mem_since he', hrun⟩)
  rw [← hl] at hr ⊢
  exact h.newest last hlast hr

theorem since_cons (hb : ¬ ReinstatedIn d e es) : since (ReinstatedIn d) (e :: es) = e :: since (ReinstatedIn d) es :=
  if_neg hb

theorem absentRuns_subset (hb : ¬ ReinstatedIn d e es) :
    absentRuns d (since (ReinstatedIn d) es) ⊆ absentRuns d (since (ReinstatedIn d) (e :: es)) := by
  intro r hr
  rw [since_cons hb]
  obtain ⟨e', he', h⟩ := mem_absentRuns.1 hr
  exact mem_absentRuns.2 ⟨e', List.mem_cons_of_mem _ he', h⟩

/-- The evaluation leaves the entry as it is. -/
theorem kept (h : Counted d es entry runs) (hc : Consecutive (e :: es)) (hb : ¬ ReinstatedIn d e es) :
    Counted d (e :: es) entry runs where
  absent := h.absent.trans (absentRuns_subset hb)
  count := h.count
  newest last hlast hr := by
    obtain rfl := Option.some.inj hlast
    exact h.lastChecked hc hr
  grace hs := by
    obtain ⟨e', he', hg⟩ := h.grace hs
    rw [since_cons hb]
    exact ⟨e', List.mem_cons_of_mem _ he', hg⟩

end Counted

/-- The entry a judged document gets counts what its `prior` counted, and this run. -/
theorem counted_newEntry {i : AbsentDocument} (hc : Consecutive (e :: es)) (hi : i ∈ e.inputs.absent)
    (hel : e.inputs.Eligible i) (hb : ¬ ReinstatedIn i.documentId e es)
    (hprior : ∀ x ∈ prior (held es) i, ∃ runs, Counted i.documentId es x runs) :
    ∃ runs, Counted i.documentId (e :: es) (e.inputs.newEntry (held es) i) runs := by
  have hsince := Counted.since_cons hb
  have habsent : AbsentIn i.documentId e := ⟨i, hi, rfl, hel⟩
  have hhere : e.inputs.runId ∈ absentRuns i.documentId (since (ReinstatedIn i.documentId) (e :: es)) := by
    rw [hsince]
    exact mem_absentRuns.2 ⟨e, List.mem_cons_self .., habsent, rfl⟩
  have hgrace : (e.inputs.newEntry (held es) i).status = .retired →
      ∃ e' ∈ since (ReinstatedIn i.documentId) (e :: es), AbsentIn i.documentId e' ∧
        (e.inputs.newEntry (held es) i).retiredRunId = some e'.inputs.runId ∧
        max 2 e'.inputs.policy.graceRuns ≤ (e.inputs.newEntry (held es) i).consecutiveAbsences := by
    intro hs
    have hg := (newEntry_retired_iff i).1 hs
    rw [hsince]
    exact ⟨e, List.mem_cons_self .., habsent, if_pos hg, max_le hg.2 hg.1⟩
  have hnewest : ∀ {runs : Finset Str}, ∀ last ∈ (e :: es).head?, last.inputs.runId ∈ runs →
      (e.inputs.newEntry (held es) i).lastCheckedRunId = last.inputs.runId := by
    intro runs last hlast _
    obtain rfl := Option.some.inj hlast
    rfl
  have hcount : (e.inputs.newEntry (held es) i).consecutiveAbsences = e.inputs.absences (prior (held es) i) := rfl
  cases hp : prior (held es) i with
  | none =>
    refine ⟨{e.inputs.runId}, ⟨Finset.singleton_subset_iff.2 hhere, ?_, hnewest, hgrace⟩⟩
    rw [hcount, hp]
    rfl
  | some x =>
    obtain ⟨runs, h⟩ := hprior x hp
    by_cases hrun : x.lastCheckedRunId = e.inputs.runId
    · -- the run is resumed, its absence being counted already
      refine ⟨runs, ⟨h.absent.trans (Counted.absentRuns_subset hb), ?_, hnewest, hgrace⟩⟩
      rw [hcount, hp, ← h.count]
      exact if_pos hrun
    · have hfresh : e.inputs.runId ∉ runs := fun hr => hrun (h.lastChecked hc hr)
      refine ⟨insert e.inputs.runId runs, ⟨?_, ?_, hnewest, hgrace⟩⟩
      · exact Finset.insert_subset hhere (h.absent.trans (Counted.absentRuns_subset hb))
      · rw [hcount, hp, Finset.card_insert_of_notMem hfresh, Nat.cast_add, ← h.count]
        exact if_neg hrun

/-- Every open entry of the ledger is `Counted`. -/
theorem counted_held (h : Chained ratioCap es) (hc : Consecutive es) {entry : Entry} (hd : get? (held es) d = some entry)
    (hs : entry.status ≠ .reinstated) : ∃ runs, Counted d es entry runs := by
  induction es generalizing d entry with
  | nil => cases hd
  | cons e es ih =>
    have hp := indexed_held es
    rw [h.held_eq] at hd
    by_cases hb : ReinstatedIn d e es
    · obtain ⟨x, hx, hr⟩ := hb
      rw [next_of_comesBack hp hx hr] at hd
      obtain rfl := Option.some.inj hd
      exact absurd rfl hs
    by_cases hj : ∃ i ∈ e.inputs.judged ratioCap (held es), i.documentId = d
    · obtain ⟨i, hi, rfl⟩ := hj
      obtain ⟨hia, hel, -⟩ := mem_judged hi
      rw [next_of_judged e.distinct hp hi hb] at hd
      obtain rfl := Option.some.inj hd
      refine counted_newEntry hc hia hel hb fun x hx => ?_
      obtain ⟨hget, hopen⟩ := get?_of_prior hx
      exact ih h.2 hc.2 hget hopen
    · rw [next_of_not_judged e.distinct hp (fun i hi he => hj ⟨i, hi, he⟩) hb] at hd
      obtain ⟨runs, hcounted⟩ := ih h.2 hc.2 hd hs
      exact ⟨runs, hcounted.kept hc hb⟩

theorem retiredAfterGrace (h : Chained ratioCap es) (hc : Consecutive es) : RetiredAfterGrace ReinstatedIn es := by
  intro entry hm hs
  obtain ⟨runs, hcounted⟩ := counted_held h hc (h.get?_held hm) (by simp [hs])
  obtain ⟨e, he, habsent, hrun, hgrace⟩ := hcounted.grace hs
  refine ⟨e, he, habsent, hrun, hgrace.trans ?_⟩
  rw [hcounted.count]
  exact_mod_cast Finset.card_le_card hcounted.absent

theorem Chained.reports (h : Chained ratioCap es) : ∀ e ∈ es,
    (e.outcome.newlyJudged : Int) ≤ e.inputs.effectiveCap ratioCap ∧
      ∀ i ∈ e.inputs.absent, e.outcome.ReportedOnce i.documentId := by
  induction es with
  | nil => simp
  | cons e es ih =>
    intro e' he'
    rcases List.mem_cons.1 he' with rfl | he'
    · rw [h.outcome_eq]
      exact ⟨newlyJudged_le e'.distinct, fun i hi => reportedOnce e'.distinct (indexed_held es) hi⟩
    · exact ih h.2 e' he'

end

/-- In every chain of evaluations from an empty state, a document is retired only if it was absent with
complete evidence in `max 2 grace_runs` runs with distinct ids since it was last reinstated, no
evaluation judges more documents anew than its cap, and each reports an absent document once. -/
theorem retirement_safe (ratioCap : Nat → ℚ → Int) (es : List Evaluation) (h : Chained ratioCap es) (hc : Consecutive es) :
    RetiredAfterGrace ReinstatedIn es ∧ ∀ e ∈ es, (e.outcome.newlyJudged : Int) ≤ e.inputs.effectiveCap ratioCap ∧
      ∀ i ∈ e.inputs.absent, e.outcome.ReportedOnce i.documentId :=
  ⟨retiredAfterGrace h hc, h.reports⟩

/-- A run from which the document `d1` is missing. -/
def missingRun (runId : String) : Inputs :=
  { crowdedRun with runId := runId.toList, absent := crowdedRun.absent.take 1 }

/-- The second run from which `d1` is missing retires it. -/
theorem retirement_safe_two : ∃ es, Chained exactRatioCap es ∧ (∃ entry ∈ entriesOf es, entry.status = .retired) ∧
    RetiredAfterGrace ReinstatedIn es ∧ ∀ e ∈ es, (e.outcome.newlyJudged : Int) ≤ e.inputs.effectiveCap exactRatioCap ∧
      ∀ i ∈ e.inputs.absent, e.outcome.ReportedOnce i.documentId := by
  have hrun : (evaluateRetirements exactRatioCap (missingRun "run-1") none >>= fun o₁ =>
      evaluateRetirements exactRatioCap (missingRun "run-2") (some o₁.ledger) >>= fun o₂ =>
      .ok (o₂.ledger.entries.map (·.status))) = .ok [.retired] := by decide +kernel
  obtain ⟨o₁, h₁, hrun⟩ := bind_eq_ok.1 hrun
  obtain ⟨o₂, h₂, hrun⟩ := bind_eq_ok.1 hrun
  obtain ⟨entry, he, hs⟩ := List.map_eq_singleton_iff.1 (Except.ok.inj hrun)
  have hchain : Chained exactRatioCap
      [⟨missingRun "run-2", o₂, by decide⟩, ⟨missingRun "run-1", o₁, by decide⟩] := ⟨h₂, h₁, trivial⟩
  refine ⟨_, hchain, ⟨entry, ?_, hs⟩, retirement_safe _ _ hchain (consecutive_of_nodup ?_)⟩
  · show entry ∈ o₂.ledger.entries
    rw [he]
    exact List.mem_singleton_self entry
  · show ["run-2".toList, "run-1".toList].Nodup
    decide

/-- Only the newest evaluation comes after one that stops right before it. -/
theorem card_absentRuns_le_one (d : Str) (stop : Evaluation → List Evaluation → Prop) [∀ e es, Decidable (stop e es)]
    (e : Evaluation) {e' : Evaluation} {es : List Evaluation} (hstop : stop e' es) :
    (absentRuns d (since stop (e :: e' :: es))).card ≤ 1 := by
  have hlen : (since stop (e :: e' :: es)).length ≤ 1 := by
    rw [since, since, if_pos hstop]
    split <;> simp
  refine (List.toFinset_card_le _).trans ?_
  rw [List.length_map]
  exact (List.length_filter_le ..).trans hlen

/-- A run that discovers the lineage of `d1` while its issuer is frozen. -/
def frozenRun : Inputs :=
  { crowdedRun with
    absent := []
    discoveredLineages := [("lotte".toList, "d1".toList, "product-manual".toList)]
    frozenIssuers := ["lotte".toList] }

/-- `d1` is retired after one absence since it was observed, its issuer having been frozen then. -/
theorem retired_once_absent_since_observed : ¬ ∀ (ratioCap : Nat → ℚ → Int) (es : List Evaluation),
    Chained ratioCap es → Consecutive es →
      RetiredAfterGrace (fun d e es => ObservedIn d e es ∨ ReinstatedIn d e es) es := by
  intro hall
  have hrun : (evaluateRetirements exactRatioCap (missingRun "run-1") none >>= fun o₁ =>
      evaluateRetirements exactRatioCap frozenRun (some o₁.ledger) >>= fun o₂ =>
      evaluateRetirements exactRatioCap (missingRun "run-3") (some o₂.ledger) >>= fun o₃ =>
      .ok (o₁.ledger.entries.map fun e =>
          decide (e.documentId = "d1".toList ∧ e.lineageKey ∈ frozenRun.discoveredLineages),
        o₃.ledger.entries.map fun e => decide (e.documentId = "d1".toList ∧ e.status = .retired))) =
      .ok ([true], [true]) := by decide +kernel
  obtain ⟨o₁, h₁, hrun⟩ := bind_eq_ok.1 hrun
  obtain ⟨o₂, h₂, hrun⟩ := bind_eq_ok.1 hrun
  obtain ⟨o₃, h₃, hrun⟩ := bind_eq_ok.1 hrun
  obtain ⟨hfirst, hlast⟩ := Prod.mk.inj (Except.ok.inj hrun)
  obtain ⟨x, hx, hxk⟩ := List.map_eq_singleton_iff.1 hfirst
  obtain ⟨y, hy, hyk⟩ := List.map_eq_singleton_iff.1 hlast
  obtain ⟨hxd, hdiscovered⟩ := of_decide_eq_true hxk
  obtain ⟨hyd, hretired⟩ := of_decide_eq_true hyk
  have hobserved : ObservedIn y.documentId ⟨frozenRun, o₂, by decide⟩ [⟨missingRun "run-1", o₁, by decide⟩] := by
    refine ⟨x, ?_, hdiscovered⟩
    show get? (dictOf Entry.documentId o₁.ledger.entries) y.documentId = some x
    rw [hx, hyd, ← hxd]
    exact get?_dictOf_of_mem (by simp) (List.mem_singleton_self x)
  obtain ⟨e, -, -, -, hle⟩ := hall exactRatioCap [⟨missingRun "run-3", o₃, by decide⟩, ⟨frozenRun, o₂, by decide⟩,
    ⟨missingRun "run-1", o₁, by decide⟩] ⟨h₃, h₂, h₁, trivial⟩
    (consecutive_of_nodup (by show ["run-3".toList, "run-2".toList, "run-1".toList].Nodup; decide)) y
    (by show y ∈ o₃.ledger.entries; rw [hy]; exact List.mem_singleton_self y) hretired
  have hone := card_absentRuns_le_one y.documentId
    (fun e es => ObservedIn y.documentId e es ∨ ReinstatedIn y.documentId e es) ⟨missingRun "run-3", o₃, by decide⟩
    (.inl hobserved)
  exact absurd ((le_max_left ..).trans (hle.trans (Int.ofNat_le.2 hone))) (by decide)

end CardRag.Retirement
