import CardRag.Retirement.Policy

/-! # Resuming a run

A second evaluation with the same inputs reads the ledger of the first. Both are described document
by document (`Inputs.ruling`): who competes for the cap, who of these is judged, and what the ledger
then holds. The documents the first pass retires do not compete in the second, so with a full cap
others are judged in their place. -/

namespace CardRag.Retirement

open PyList Guard

/-- A dictionary of entries under their document ids. -/
structure Indexed (d : List (Str × Entry)) : Prop where
  nodup : (d.map (·.1)).Nodup
  key : ∀ e ∈ d, e.2.documentId = e.1

namespace Indexed
variable {d : List (Str × Entry)}

theorem dictOf (xs : List Entry) : Indexed (dictOf (·.documentId) xs) :=
  ⟨nodup_keys_dictOf _ xs, fun _ he => key_of_mem_dictOf he⟩

theorem insert (h : Indexed d) (e : Entry) : Indexed (insert e.documentId e d) := by
  refine ⟨nodup_keys_insert h.nodup, fun x hx => ?_⟩
  rcases mem_insert hx with rfl | hx
  · rfl
  · exact h.key x hx

theorem documentId (h : Indexed d) {k : Str} {e : Entry} (he : get? d k = some e) : e.documentId = k :=
  h.key (k, e) (mem_of_get? he)

/-- The values determine the dictionary. -/
theorem dictOf_values (h : Indexed d) : PyList.dictOf (·.documentId) (values d) = d := by
  have hmap : (values d).map (·.documentId) = d.map (·.1) := by
    rw [values, List.map_map]
    exact List.map_congr_left fun e he => h.key e he
  rw [dictOf_of_nodup (hmap ▸ h.nodup), values, List.map_map]
  refine (List.map_congr_left fun e he => ?_).trans (List.map_id d)
  exact Prod.ext (h.key e he) rfl

theorem ext {d' : List (Str × Entry)} (h : Indexed d) (h' : Indexed d') (hv : values d = values d') : d = d' := by
  rw [← h.dictOf_values, ← h'.dictOf_values, hv]

end Indexed

namespace Inputs
variable {I : Inputs} {ratioCap : Nat → ℚ → Int} {previous : List (Str × Entry)}

variable (I) in
/-- The document passes the checks that do not depend on the ledger. -/
def Eligible (item : AbsentDocument) : Prop :=
  item.issuer ∉ I.frozenIssuers ∧ I.durableOk item.documentId = true ∧ I.lineageAbsent item.documentId = true

instance (item : AbsentDocument) : Decidable (I.Eligible item) := inferInstanceAs (Decidable (_ ∧ _ ∧ _))

/-- The ledger holds the document as retired. -/
def RetiredBefore (previous : List (Str × Entry)) (item : AbsentDocument) : Prop :=
  ∃ e ∈ prior previous item, e.status = .retired

instance (item : AbsentDocument) : Decidable (RetiredBefore previous item) := by
  unfold RetiredBefore
  infer_instance

variable (I previous) in
/-- The documents a judgement is asked for, in their order. -/
def competing : List AbsentDocument :=
  I.ordered.filter fun item => I.Eligible item ∧ ¬ RetiredBefore previous item

variable (I ratioCap previous) in
/-- The competing documents within the cap. -/
def judged : List AbsentDocument := (I.competing previous).take (I.effectiveCap ratioCap).toNat

variable (I previous) in
/-- The document has an open entry whose lineage is discovered again. -/
def ComesBack (documentId : Str) : Prop := ∃ e ∈ get? previous documentId, I.returns e

/-- What an evaluation says of a document. -/
inductive Ruling where
  | refused (reason : String)
  | already (entry : Entry)
  | judged (entry : Entry)

variable (I previous) in
/-- The elapsed days of a judged document. -/
def days (item : AbsentDocument) : Int :=
  match elapsedDays (I.firstAt (prior previous item)) I.runStamp with
  | .ok d => d
  | .error _ => 0

variable (I previous) in
def newEntry (item : AbsentDocument) : Entry := I.entry item (prior previous item) (I.days previous item)

variable (I previous) in
/-- The ruling when the documents of `J` are within the cap. -/
def ruling (J : List AbsentDocument) (item : AbsentDocument) : Ruling :=
  if item.issuer ∈ I.frozenIssuers then .refused "issuer_collection_unavailable"
  else if I.durableOk item.documentId = false ∨ I.lineageAbsent item.documentId = false then
    .refused "retirement_evidence_incomplete"
  else match (prior previous item).filter (·.status = .retired) with
    | some e => .already e
    | none => if item ∈ J then .judged (I.newEntry previous item) else .refused "retirement_cap_exceeded"

def Ruling.apply (s : Progress) (item : AbsentDocument) : Ruling → Progress
  | .refused reason => s.refuse item reason
  | .already e => { s with retired := s.retired ++ [retiredRecord e true] }
  | .judged e =>
    { s with
      updated := insert e.documentId e s.updated
      newJudgements := s.newJudgements + 1
      retired := if e.status = .retired then s.retired ++ [retiredRecord e false] else s.retired
      candidates := if e.status = .retired then s.candidates else s.candidates ++ [candidateRecord e] }

theorem newEntry_status (item : AbsentDocument) :
    (I.newEntry previous item).status = if I.meetsGrace (prior previous item) then .retired else .candidate := rfl

theorem newEntry_status_ne (item : AbsentDocument) : (I.newEntry previous item).status ≠ .reinstated := by
  rw [newEntry_status]
  split <;> simp

theorem newEntry_retired_iff (item : AbsentDocument) :
    (I.newEntry previous item).status = .retired ↔ I.meetsGrace (prior previous item) := by
  rw [newEntry_status]
  split <;> simp_all

theorem filter_eq_none {item : AbsentDocument} (h : ¬ RetiredBefore previous item) :
    (prior previous item).filter (·.status = .retired) = none := by
  rw [Option.filter_eq_none_iff]
  exact fun e he hs => h ⟨e, he, of_decide_eq_true hs⟩

theorem filter_eq_some {item : AbsentDocument} {e : Entry} (he : prior previous item = some e) (hs : e.status = .retired) :
    (prior previous item).filter (·.status = .retired) = some e := by
  rw [he, Option.filter_some, if_pos (by simpa using hs)]

theorem ruling_of_not_eligible {item : AbsentDocument} (h : ¬ I.Eligible item) :
    ∃ r, ∀ previous J, I.ruling previous J item = .refused r := by
  by_cases hf : item.issuer ∈ I.frozenIssuers
  · exact ⟨_, fun _ _ => if_pos hf⟩
  · have hc : I.durableOk item.documentId = false ∨ I.lineageAbsent item.documentId = false := by
      by_contra hc
      rw [not_or, Bool.not_eq_false, Bool.not_eq_false] at hc
      exact h ⟨hf, hc⟩
    exact ⟨_, fun _ _ => (if_neg hf).trans (if_pos hc)⟩

theorem ruling_of_eligible {item : AbsentDocument} (h : I.Eligible item) (J : List AbsentDocument) :
    I.ruling previous J item = match (prior previous item).filter (·.status = .retired) with
      | some e => .already e
      | none => if item ∈ J then .judged (I.newEntry previous item) else .refused "retirement_cap_exceeded" := by
  rw [ruling, if_neg h.1, if_neg]
  rw [h.2.1, h.2.2]
  simp

theorem ruling_of_retired {item : AbsentDocument} (h : I.Eligible item) {e : Entry} (he : prior previous item = some e)
    (hs : e.status = .retired) (J : List AbsentDocument) : I.ruling previous J item = .already e := by
  rw [ruling_of_eligible h, filter_eq_some he hs]

theorem ruling_of_competes {item : AbsentDocument} (h : I.Eligible item) (hr : ¬ RetiredBefore previous item)
    (J : List AbsentDocument) : I.ruling previous J item =
      if item ∈ J then .judged (I.newEntry previous item) else .refused "retirement_cap_exceeded" := by
  rw [ruling_of_eligible h, filter_eq_none hr]

/-- One step of the loop. -/
theorem classify_eq {s : Progress} {item : AbsentDocument} {J : List AbsentDocument}
    (hJ : I.Eligible item → ¬ RetiredBefore previous item → (item ∈ J ↔ s.newJudgements < I.effectiveCap ratioCap))
    (hd : I.Eligible item → ¬ RetiredBefore previous item →
      ∃ d, elapsedDays (I.firstAt (prior previous item)) I.runStamp = .ok d) :
    I.classify ratioCap previous s item = .ok ((I.ruling previous J item).apply s item) := by
  unfold classify
  by_cases hf : item.issuer ∈ I.frozenIssuers
  · rw [if_pos hf, ruling, if_pos hf]
    rfl
  by_cases hc : I.durableOk item.documentId = false ∨ I.lineageAbsent item.documentId = false
  · rw [if_neg hf, if_pos hc, ruling, if_neg hf, if_pos hc]
    rfl
  have hel : I.Eligible item := ⟨hf, by rwa [not_or, Bool.not_eq_false, Bool.not_eq_false] at hc⟩
  rw [if_neg hf, if_neg hc]
  by_cases hr : RetiredBefore previous item
  · obtain ⟨e, he, hs⟩ := hr
    rw [ruling_of_retired hel he hs]
    simp only [Option.mem_def.1 he, hs, if_true]
    rfl
  · rw [ruling_of_competes hel hr]
    obtain ⟨d, hd⟩ := hd hel hr
    have hdays : I.days previous item = d := by rw [days, hd]
    have hstep : ∀ {jp : Except Raised Progress}, (match prior previous item with
        | some e => if e.status = .retired then (pure { s with retired := s.retired ++ [retiredRecord e true] }) else jp
        | none => jp) = jp := by
      intro jp
      cases hp : prior previous item with
      | none => rfl
      | some e => exact if_neg fun hs => hr ⟨e, hp, hs⟩
    refine hstep.trans ?_
    dsimp only
    rw [hd]
    show (if I.effectiveCap ratioCap ≤ s.newJudgements then _ else _) = _
    by_cases hj : item ∈ J
    · have hlt := (hJ hel hr).1 hj
      rw [if_neg (not_le.2 hlt), if_pos hj, newEntry, hdays]
      by_cases hg : I.meetsGrace (prior previous item) <;> simp [hg, Ruling.apply, entry]
    · have hle := not_lt.1 fun hlt => hj ((hJ hel hr).2 hlt)
      rw [if_pos hle, if_neg hj]
      rfl

theorem elapsed_of_classify {s s' : Progress} {item : AbsentDocument} (h : I.classify ratioCap previous s item = .ok s')
    (hel : I.Eligible item) (hr : ¬ RetiredBefore previous item) :
    ∃ d, elapsedDays (I.firstAt (prior previous item)) I.runStamp = .ok d := by
  cases he : elapsedDays (I.firstAt (prior previous item)) I.runStamp with
  | ok d => exact ⟨d, rfl⟩
  | error e =>
    have hc : ¬ (I.durableOk item.documentId = false ∨ I.lineageAbsent item.documentId = false) := by
      simp [hel.2.1, hel.2.2]
    unfold classify at h
    rw [if_neg hel.1, if_neg hc] at h
    cases hp : prior previous item with
    | none =>
      simp only [hp] at h he
      rw [he] at h
      cases h
    | some x =>
      have hs : x.status ≠ .retired := fun hs => hr ⟨x, hp, hs⟩
      simp only [hp, if_neg hs] at h he
      rw [he] at h
      cases h

theorem newJudgements_apply {s : Progress} {item : AbsentDocument} {J : List AbsentDocument} :
    ((I.ruling previous J item).apply s item).newJudgements =
      if (I.Eligible item ∧ ¬ RetiredBefore previous item) ∧ item ∈ J then s.newJudgements + 1 else s.newJudgements := by
  by_cases hel : I.Eligible item
  · by_cases hr : RetiredBefore previous item
    · obtain ⟨e, he, hs⟩ := id hr
      rw [ruling_of_retired hel he hs, if_neg fun h => h.1.2 hr]
      rfl
    · rw [ruling_of_competes hel hr]
      by_cases hj : item ∈ J
      · rw [if_pos hj, if_pos ⟨⟨hel, hr⟩, hj⟩]
        rfl
      · rw [if_neg hj, if_neg fun h => hj h.2]
        rfl
  · obtain ⟨r, hr⟩ := ruling_of_not_eligible hel
    rw [hr, if_neg fun h => hel h.1.1]
    rfl

/-- The loop, document by document. -/
theorem foldlM_classify {L J : List AbsentDocument} (hn : L.Nodup) (s : Progress)
    (hJ : ∀ i ∈ L, I.Eligible i → ¬ RetiredBefore previous i →
      (i ∈ J ↔ i ∈ (L.filter fun i => I.Eligible i ∧ ¬ RetiredBefore previous i).take
        (I.effectiveCap ratioCap - s.newJudgements).toNat))
    (hd : ∀ i ∈ L, I.Eligible i → ¬ RetiredBefore previous i →
      ∃ d, elapsedDays (I.firstAt (prior previous i)) I.runStamp = .ok d) :
    L.foldlM (I.classify ratioCap previous) s = .ok (L.foldl (fun s i => (I.ruling previous J i).apply s i) s) := by
  induction L generalizing s with
  | nil => rfl
  | cons i L ih =>
    obtain ⟨hi, hn⟩ := List.nodup_cons.1 hn
    have hhead : I.Eligible i → ¬ RetiredBefore previous i → (i ∈ J ↔ s.newJudgements < I.effectiveCap ratioCap) := by
      intro hel hr
      rw [hJ i (List.mem_cons_self ..) hel hr, List.filter_cons_of_pos (by simpa using ⟨hel, hr⟩)]
      cases hk : (I.effectiveCap ratioCap - s.newJudgements).toNat with
      | zero => simp only [List.take_zero, List.not_mem_nil, false_iff]; omega
      | succ k => simp only [List.take_succ_cons, List.mem_cons, true_or, true_iff]; omega
    rw [List.foldlM_cons, classify_eq (J := J) hhead (hd i (List.mem_cons_self ..)), List.foldl_cons]
    refine ih hn _ (fun j hj hel hr => ?_) (fun j hj => hd j (List.mem_cons_of_mem _ hj))
    have hji : j ≠ i := fun h => hi (h ▸ hj)
    rw [hJ j (List.mem_cons_of_mem _ hj) hel hr, newJudgements_apply]
    by_cases hc : I.Eligible i ∧ ¬ RetiredBefore previous i
    · rw [List.filter_cons_of_pos (by simpa using hc)]
      by_cases hij : i ∈ J
      · have hlt := (hhead hc.1 hc.2).1 hij
        have hk : (I.effectiveCap ratioCap - s.newJudgements).toNat =
            (I.effectiveCap ratioCap - (s.newJudgements + 1)).toNat + 1 := by omega
        rw [if_pos ⟨hc, hij⟩, hk, List.take_succ_cons, List.mem_cons, or_iff_right hji]
      · have hk : (I.effectiveCap ratioCap - s.newJudgements).toNat = 0 := by
          have := mt (hhead hc.1 hc.2).2 hij
          omega
        rw [if_neg fun h => hij h.2, hk, List.take_zero, List.take_zero]
    · rw [List.filter_cons_of_neg (by simpa using hc), if_neg fun h => hc h.1]

variable (I ratioCap previous) in
/-- What the loop over the absent documents builds. -/
def progress : Progress :=
  I.ordered.foldl (fun s i => (I.ruling previous (I.judged ratioCap previous) i).apply s i) ⟨previous, [], [], [], 0⟩

variable (I ratioCap previous) in
/-- The next ledger, by document id. -/
def next : List (Str × Entry) := I.reinstateAll previous (I.progress ratioCap previous).updated

variable (I ratioCap previous) in
def outcome : Outcome where
  retired := (I.progress ratioCap previous).retired
  candidates := (I.progress ratioCap previous).candidates
  unjustified := (I.progress ratioCap previous).unjustified
  ledger := ⟨I.runId, values (I.next ratioCap previous), []⟩
  reinstated := sortedBy id ((previous.filter fun e => I.returns e.2).map (·.1))

theorem mem_ordered {i : AbsentDocument} : i ∈ I.ordered ↔ i ∈ I.absent := mem_sortedBy

theorem nodup_ordered (hn : (I.absent.map (·.documentId)).Nodup) : (I.ordered.map (·.documentId)).Nodup :=
  ((sortedBy_perm _ I.absent).map _).nodup_iff.2 hn

/-- Every time that a judgement subtracts is an aware one, or none. -/
def Dated (I : Inputs) (previous : List (Str × Entry)) : Prop :=
  ∀ i ∈ I.absent, I.Eligible i → ¬ RetiredBefore previous i →
    ∃ d, elapsedDays (I.firstAt (prior previous i)) I.runStamp = .ok d

theorem evaluate_eq_ok_iff (hn : (I.absent.map (·.documentId)).Nodup) {ledger : Option Ledger} {o : Outcome} :
    let previous := dictOf (·.documentId) ((ledger.map (·.entries)).getD [])
    evaluateRetirements ratioCap I ledger = .ok o ↔ I.Dated previous ∧ o = I.outcome ratioCap previous := by
  intro previous
  have hnd : I.ordered.Nodup := (nodup_ordered hn).of_map _
  have hrun : I.Dated previous → I.ordered.foldlM (I.classify ratioCap previous) ⟨previous, [], [], [], 0⟩ =
      .ok (I.progress ratioCap previous) := by
    intro hd
    refine foldlM_classify hnd _ (fun i hi hel hr => ?_) (fun i hi => hd i (mem_ordered.1 hi))
    rw [Int.sub_zero]
    rfl
  unfold evaluateRetirements
  constructor
  · intro h
    obtain ⟨s, hs, ho⟩ := bind_eq_ok.1 h
    have hd : I.Dated previous := fun i hi hel hr => by
      obtain ⟨s₁, s₂, hc⟩ := foldlM_mem hs (mem_ordered.2 hi)
      exact elapsed_of_classify hc hel hr
    have hs' : s = I.progress ratioCap previous := by
      have := hs.symm.trans (hrun hd)
      exact Except.ok.inj this
    subst hs'
    exact ⟨hd, (Except.ok.inj ho).symm⟩
  · rintro ⟨hd, rfl⟩
    exact bind_eq_ok.2 ⟨_, hrun hd, rfl⟩

/-- How a document is classified. -/
inductive Kind where
  | retired | candidate
  | unjustified (reason : Str)

def Ruling.kind : Ruling → Kind
  | .refused reason => .unjustified reason.toList
  | .already _ => .retired
  | .judged e => if e.status = .retired then .retired else .candidate

def Kind.reason : Kind → Option Str
  | .unjustified reason => some reason
  | _ => none

def Ruling.entry : Ruling → Option Entry
  | .judged e => some e
  | _ => none

variable (I ratioCap previous) in
/-- The ruling of an evaluation. -/
def decided (item : AbsentDocument) : Ruling := I.ruling previous (I.judged ratioCap previous) item

theorem documentId_prior (hp : Indexed previous) {item : AbsentDocument} {e : Entry} (h : prior previous item = some e) :
    e.documentId = item.documentId := by
  unfold prior at h
  split at h
  · rename_i x hx
    split at h
    · cases h
    · cases h
      exact hp.documentId hx
  · cases h

/-- A ruling that names an entry names one of the document. -/
theorem documentId_ruling (hp : Indexed previous) {J : List AbsentDocument} {item : AbsentDocument} {e : Entry}
    (h : I.ruling previous J item = .already e ∨ I.ruling previous J item = .judged e) : e.documentId = item.documentId := by
  by_cases hel : I.Eligible item
  · by_cases hr : RetiredBefore previous item
    · obtain ⟨x, hx, hs⟩ := hr
      rw [ruling_of_retired hel hx hs] at h
      rcases h with h | h <;> cases h
      exact documentId_prior hp hx
    · rw [ruling_of_competes hel hr] at h
      split at h <;> rcases h with h | h <;> cases h
      rfl
  · obtain ⟨r, hr⟩ := ruling_of_not_eligible hel
    rw [hr] at h
    rcases h with h | h <;> cases h

section
variable {rul : AbsentDocument → Ruling} {L : List AbsentDocument} {s : Progress}

/-- The loop under given rulings. -/
def run (rul : AbsentDocument → Ruling) (L : List AbsentDocument) (s : Progress) : Progress :=
  L.foldl (fun s i => (rul i).apply s i) s

/-- Every ruling names the entry of its document. -/
def Named (rul : AbsentDocument → Ruling) : Prop :=
  ∀ i e, rul i = .already e ∨ rul i = .judged e → e.documentId = i.documentId

theorem run_updated (h : Named rul) :
    (run rul L s).updated = assignAll (·.documentId) (fun i => (rul i).entry) L s.updated := by
  induction L generalizing s with
  | nil => rfl
  | cons i L ih =>
    rw [run, List.foldl_cons, assignAll, List.foldl_cons]
    refine ih.trans ?_
    cases hr : rul i with
    | judged e => simp only [Ruling.apply, Ruling.entry, Option.elim_some, h i e (.inr hr), assignAll]
    | _ => rfl

theorem run_unjustified :
    (run rul L s).unjustified = assignAll (·.documentId) (fun i => (rul i).kind.reason) L s.unjustified := by
  induction L generalizing s with
  | nil => rfl
  | cons i L ih =>
    rw [run, List.foldl_cons, assignAll, List.foldl_cons]
    refine ih.trans ?_
    cases hr : rul i with
    | judged e => by_cases hs : e.status = .retired <;> simp [Ruling.apply, Ruling.kind, Kind.reason, assignAll, hs]
    | _ => rfl

theorem mem_run_retired (h : Named rul) {d : Str} : d ∈ (run rul L s).retired.map (·.documentId) ↔
    d ∈ s.retired.map (·.documentId) ∨ ∃ i ∈ L, i.documentId = d ∧ (rul i).kind = .retired := by
  induction L generalizing s with
  | nil => simp [run]
  | cons i L ih =>
    rw [run, List.foldl_cons]
    refine ih.trans ?_
    simp only [List.mem_cons, exists_eq_or_imp, ← or_assoc]
    refine or_congr_left ?_
    cases hr : rul i with
    | refused reason => simp [Ruling.apply, Ruling.kind, Progress.refuse]
    | already e => simp [Ruling.apply, Ruling.kind, retiredRecord, h i e (.inl hr), eq_comm]
    | judged e =>
      by_cases hs : e.status = .retired
      · simp [Ruling.apply, Ruling.kind, retiredRecord, hs, h i e (.inr hr), eq_comm]
      · simp [Ruling.apply, Ruling.kind, hs]

theorem mem_run_candidates (h : Named rul) {d : Str} : d ∈ (run rul L s).candidates.map (·.documentId) ↔
    d ∈ s.candidates.map (·.documentId) ∨ ∃ i ∈ L, i.documentId = d ∧ (rul i).kind = .candidate := by
  induction L generalizing s with
  | nil => simp [run]
  | cons i L ih =>
    rw [run, List.foldl_cons]
    refine ih.trans ?_
    simp only [List.mem_cons, exists_eq_or_imp, ← or_assoc]
    refine or_congr_left ?_
    cases hr : rul i with
    | refused reason => simp [Ruling.apply, Ruling.kind, Progress.refuse]
    | already e => simp [Ruling.apply, Ruling.kind]
    | judged e =>
      by_cases hs : e.status = .retired
      · simp [Ruling.apply, Ruling.kind, hs]
      · simp [Ruling.apply, Ruling.kind, candidateRecord, hs, h i e (.inr hr), eq_comm]

end

theorem named_decided (hp : Indexed previous) : Named (I.decided ratioCap previous) :=
  fun _ _ h => documentId_ruling hp h

theorem progress_eq_run : I.progress ratioCap previous = run (I.decided ratioCap previous) I.ordered ⟨previous, [], [], [], 0⟩ :=
  rfl

/-- Both evaluations classify every document the same way. -/
structure SameClassification (o o' : Outcome) : Prop where
  retired : ∀ d, d ∈ o.retired.map (·.documentId) ↔ d ∈ o'.retired.map (·.documentId)
  candidates : ∀ d, d ∈ o.candidates.map (·.documentId) ↔ d ∈ o'.candidates.map (·.documentId)
  unjustified : ∀ d, get? o.unjustified d = get? o'.unjustified d

theorem mem_retired (hp : Indexed previous) {d : Str} : d ∈ (I.outcome ratioCap previous).retired.map (·.documentId) ↔
    ∃ i ∈ I.absent, i.documentId = d ∧ (I.decided ratioCap previous i).kind = .retired := by
  rw [outcome, progress_eq_run, mem_run_retired (named_decided hp)]
  simp only [List.map_nil, List.not_mem_nil, false_or, mem_ordered]

theorem mem_candidates (hp : Indexed previous) {d : Str} : d ∈ (I.outcome ratioCap previous).candidates.map (·.documentId) ↔
    ∃ i ∈ I.absent, i.documentId = d ∧ (I.decided ratioCap previous i).kind = .candidate := by
  rw [outcome, progress_eq_run, mem_run_candidates (named_decided hp)]
  simp only [List.map_nil, List.not_mem_nil, false_or, mem_ordered]

theorem get?_unjustified (hn : (I.absent.map (·.documentId)).Nodup) {i : AbsentDocument} (hi : i ∈ I.absent) :
    get? (I.outcome ratioCap previous).unjustified i.documentId = (I.decided ratioCap previous i).kind.reason := by
  rw [outcome, progress_eq_run, run_unjustified, get?_assignAll_of_mem (nodup_ordered hn) (mem_ordered.2 hi)]
  exact Option.or_none

theorem get?_unjustified_of_ne {d : Str} (h : ∀ i ∈ I.absent, i.documentId ≠ d) :
    get? (I.outcome ratioCap previous).unjustified d = none := by
  rw [outcome, progress_eq_run, run_unjustified, get?_assignAll_of_ne fun i hi => h i (mem_ordered.1 hi)]
  rfl

theorem sameClassification_iff (hn : (I.absent.map (·.documentId)).Nodup) {previous' : List (Str × Entry)}
    (hp : Indexed previous) (hp' : Indexed previous') :
    SameClassification (I.outcome ratioCap previous) (I.outcome ratioCap previous') ↔
      ∀ i ∈ I.absent, (I.decided ratioCap previous i).kind = (I.decided ratioCap previous' i).kind := by
  have hinj : ∀ {i j}, i ∈ I.absent → j ∈ I.absent → i.documentId = j.documentId → i = j :=
    fun hi hj h => List.inj_on_of_nodup_map hn hi hj h
  constructor
  · intro h i hi
    cases hk : (I.decided ratioCap previous i).kind with
    | retired =>
      obtain ⟨j, hj, hd, hkj⟩ := (mem_retired hp').1 ((h.retired _).1 ((mem_retired hp).2 ⟨i, hi, rfl, hk⟩))
      rw [← hinj hj hi hd, hkj]
    | candidate =>
      obtain ⟨j, hj, hd, hkj⟩ := (mem_candidates hp').1 ((h.candidates _).1 ((mem_candidates hp).2 ⟨i, hi, rfl, hk⟩))
      rw [← hinj hj hi hd, hkj]
    | unjustified reason =>
      have hu := h.unjustified i.documentId
      rw [get?_unjustified hn hi, get?_unjustified hn hi, hk] at hu
      cases hk' : (I.decided ratioCap previous' i).kind with
      | unjustified reason' => rw [hk'] at hu; exact congrArg _ (Option.some.inj hu)
      | _ => rw [hk'] at hu; cases hu
  · intro h
    refine ⟨fun d => ?_, fun d => ?_, fun d => ?_⟩
    · rw [mem_retired hp, mem_retired hp']
      exact exists_congr fun i => and_congr_right fun hi => by rw [h i hi]
    · rw [mem_candidates hp, mem_candidates hp']
      exact exists_congr fun i => and_congr_right fun hi => by rw [h i hi]
    · by_cases hd : ∃ i ∈ I.absent, i.documentId = d
      · obtain ⟨i, hi, rfl⟩ := hd
        rw [get?_unjustified hn hi, get?_unjustified hn hi, h i hi]
      · have hne : ∀ i ∈ I.absent, i.documentId ≠ d := fun i hi he => hd ⟨i, hi, he⟩
        rw [get?_unjustified_of_ne hne, get?_unjustified_of_ne hne]

/-! ## The next ledger -/

theorem reinstateAll_eq (updated : List (Str × Entry)) : I.reinstateAll previous updated =
    assignAll (·.1) (fun e => if I.returns e.2 then some (I.reinstate e.2) else none) previous updated := by
  unfold reinstateAll assignAll
  congr 1
  funext d e
  by_cases h : I.returns e.2 <;> simp only [h, if_true, if_false, Option.elim_some, Option.elim_none]

theorem progress_updated (hp : Indexed previous) : (I.progress ratioCap previous).updated =
    assignAll (·.documentId) (fun i => (I.decided ratioCap previous i).entry) I.ordered previous := by
  rw [progress_eq_run, run_updated (named_decided hp)]

theorem entry_of_decided (hp : Indexed previous) {i : AbsentDocument} {e : Entry}
    (h : (I.decided ratioCap previous i).entry = some e) : e.documentId = i.documentId := by
  have hnamed : Named (I.decided ratioCap previous) := named_decided hp
  refine hnamed i e (.inr ?_)
  cases hr : I.decided ratioCap previous i with
  | judged x => rw [hr] at h; exact congrArg _ (Option.some.inj h)
  | _ => rw [hr] at h; cases h

theorem indexed_next (hp : Indexed previous) : Indexed (I.next ratioCap previous) := by
  rw [next, reinstateAll_eq, progress_updated hp]
  have hu : Indexed (assignAll (·.documentId) (fun i => (I.decided ratioCap previous i).entry) I.ordered previous) :=
    assignAll_inv (fun d hd i e he => entry_of_decided hp he ▸ hd.insert e) hp
  have : ∀ {xs : List (Str × Entry)}, (∀ e ∈ xs, e.2.documentId = e.1) → ∀ {d}, Indexed d →
      Indexed (assignAll (·.1) (fun e => if I.returns e.2 then some (I.reinstate e.2) else none) xs d) := by
    intro xs hxs
    induction xs with
    | nil => exact fun hd => hd
    | cons x xs ih =>
      intro d hd
      refine ih (fun e he => hxs e (List.mem_cons_of_mem _ he)) ?_
      by_cases hr : I.returns x.2
      · simp only [hr, if_true, Option.elim_some]
        exact hxs x (List.mem_cons_self ..) ▸ hd.insert (I.reinstate x.2)
      · simpa only [hr, if_false, Option.elim_none] using hd
  exact this hp.key hu

/-- The next ledger under an id that the previous one holds. -/
theorem get?_next_of_some (hp : Indexed previous) {d : Str} {e : Entry} (he : get? previous d = some e) :
    get? (I.next ratioCap previous) d =
      if I.returns e then some (I.reinstate e) else get? (I.progress ratioCap previous).updated d := by
  have hm := mem_of_get? he
  rw [next, reinstateAll_eq]
  have := get?_assignAll_of_mem (f := fun e : Str × Entry => if I.returns e.2 then some (I.reinstate e.2) else none)
    (d := (I.progress ratioCap previous).updated) hp.nodup hm
  refine this.trans ?_
  split <;> rfl

theorem next_of_comesBack (hp : Indexed previous) {d : Str} {e : Entry} (he : get? previous d = some e) (hr : I.returns e) :
    get? (I.next ratioCap previous) d = some (I.reinstate e) := by
  rw [get?_next_of_some hp he, if_pos hr]

theorem next_of_not_comesBack (hp : Indexed previous) {d : Str} (hr : ¬ I.ComesBack previous d) :
    get? (I.next ratioCap previous) d = get? (I.progress ratioCap previous).updated d := by
  cases hd : get? previous d with
  | some e => rw [get?_next_of_some hp hd, if_neg fun h => hr ⟨e, hd, h⟩]
  | none =>
    rw [next, reinstateAll_eq, get?_assignAll_of_ne]
    rintro ⟨k, e⟩ he rfl
    rw [(mem_iff_get? hp.nodup).1 he] at hd
    cases hd

theorem mem_judged {i : AbsentDocument} (hi : i ∈ I.judged ratioCap previous) :
    i ∈ I.absent ∧ I.Eligible i ∧ ¬ RetiredBefore previous i := by
  have := List.mem_filter.1 (List.mem_of_mem_take hi)
  exact ⟨mem_ordered.1 this.1, by simpa using this.2⟩

theorem decided_of_judged {i : AbsentDocument} (hi : i ∈ I.judged ratioCap previous) :
    I.decided ratioCap previous i = .judged (I.newEntry previous i) := by
  obtain ⟨-, hel, hr⟩ := mem_judged hi
  rw [decided, ruling_of_competes hel hr, if_pos hi]

theorem decided_of_not_judged {i : AbsentDocument} (hel : I.Eligible i) (hr : ¬ RetiredBefore previous i)
    (hi : i ∉ I.judged ratioCap previous) : I.decided ratioCap previous i = .refused "retirement_cap_exceeded" := by
  rw [decided, ruling_of_competes hel hr, if_neg hi]

theorem judged_of_entry {i : AbsentDocument} {e : Entry} (h : (I.decided ratioCap previous i).entry = some e) :
    i ∈ I.judged ratioCap previous ∧ e = I.newEntry previous i := by
  by_cases hel : I.Eligible i
  · by_cases hr : RetiredBefore previous i
    · obtain ⟨x, hx, hs⟩ := hr
      rw [decided, ruling_of_retired hel hx hs] at h
      cases h
    · by_cases hi : i ∈ I.judged ratioCap previous
      · rw [decided_of_judged hi] at h
        exact ⟨hi, (Option.some.inj h).symm⟩
      · rw [decided_of_not_judged hel hr hi] at h
        cases h
  · obtain ⟨r, hr⟩ := ruling_of_not_eligible hel
    rw [decided, hr] at h
    cases h

theorem next_of_judged (hn : (I.absent.map (·.documentId)).Nodup) (hp : Indexed previous) {i : AbsentDocument}
    (hi : i ∈ I.judged ratioCap previous) (hr : ¬ I.ComesBack previous i.documentId) :
    get? (I.next ratioCap previous) i.documentId = some (I.newEntry previous i) := by
  rw [next_of_not_comesBack hp hr, progress_updated hp,
    get?_assignAll_of_mem (nodup_ordered hn) (mem_ordered.2 (mem_judged hi).1), decided_of_judged hi]
  rfl

theorem next_of_not_judged (hn : (I.absent.map (·.documentId)).Nodup) (hp : Indexed previous) {d : Str}
    (hi : ∀ i ∈ I.judged ratioCap previous, i.documentId ≠ d) (hr : ¬ I.ComesBack previous d) :
    get? (I.next ratioCap previous) d = get? previous d := by
  rw [next_of_not_comesBack hp hr, progress_updated hp]
  by_cases hd : ∃ i ∈ I.ordered, i.documentId = d
  · obtain ⟨i, hio, rfl⟩ := hd
    rw [get?_assignAll_of_mem (nodup_ordered hn) hio]
    cases he : (I.decided ratioCap previous i).entry with
    | none => rfl
    | some e => exact absurd rfl (hi i (judged_of_entry he).1)
  · exact get?_assignAll_of_ne fun i hio he => hd ⟨i, hio, he⟩

/-! ## What the second pass finds -/

theorem prior_eq (d : List (Str × Entry)) (i : AbsentDocument) :
    prior d i = (get? d i.documentId).filter (·.status ≠ .reinstated) := by
  unfold prior
  cases get? d i.documentId with
  | none => rfl
  | some e => by_cases hs : e.status = .reinstated <;> simp [hs, Option.filter]

theorem prior_next_of_comesBack (hp : Indexed previous) {i : AbsentDocument} (hr : I.ComesBack previous i.documentId) :
    prior (I.next ratioCap previous) i = none := by
  obtain ⟨e, he, hret⟩ := hr
  rw [prior_eq, next_of_comesBack hp he hret]
  simp [reinstate]

theorem prior_next_of_judged (hn : (I.absent.map (·.documentId)).Nodup) (hp : Indexed previous) {i : AbsentDocument}
    (hi : i ∈ I.judged ratioCap previous) (hr : ¬ I.ComesBack previous i.documentId) :
    prior (I.next ratioCap previous) i = some (I.newEntry previous i) := by
  rw [prior_eq, next_of_judged hn hp hi hr, Option.filter_some, if_pos (by simpa using newEntry_status_ne i)]

theorem prior_next_of_not_judged (hn : (I.absent.map (·.documentId)).Nodup) (hp : Indexed previous) {i : AbsentDocument}
    (hia : i ∈ I.absent) (hi : i ∉ I.judged ratioCap previous) (hr : ¬ I.ComesBack previous i.documentId) :
    prior (I.next ratioCap previous) i = prior previous i := by
  have hne : ∀ j ∈ I.judged ratioCap previous, j.documentId ≠ i.documentId := fun j hj hd =>
    hi (List.inj_on_of_nodup_map hn (mem_judged hj).1 hia hd ▸ hj)
  rw [prior_eq, prior_eq, next_of_not_judged hn hp hne hr]

/-- Resuming the same run: the counters are read back as they were. -/
theorem meetsGrace_newEntry (i : AbsentDocument) :
    I.meetsGrace (some (I.newEntry previous i)) ↔ I.meetsGrace (prior previous i) := by
  have : I.absences (some (I.newEntry previous i)) = I.absences (prior previous i) := if_pos rfl
  rw [meetsGrace, meetsGrace, this]

theorem not_meetsGrace_none : ¬ I.meetsGrace none := by
  intro h
  have := h.2
  simp [absences] at this

theorem elapsed_runStamp : ∃ d, elapsedDays I.runStamp I.runStamp = .ok d := by
  rw [elapsedDays, runStamp, Datetime.fromisoformat_utcIsoformat]
  exact ⟨_, if_pos rfl⟩

theorem dated_next (hn : (I.absent.map (·.documentId)).Nodup) (hp : Indexed previous) (hd : I.Dated previous) :
    I.Dated (I.next ratioCap previous) := by
  intro i hia hel hr
  by_cases hc : I.ComesBack previous i.documentId
  · rw [prior_next_of_comesBack hp hc]
    exact elapsed_runStamp
  by_cases hi : i ∈ I.judged ratioCap previous
  · rw [prior_next_of_judged hn hp hi hc]
    exact hd i hia hel (mem_judged hi).2.2
  · have hprior := prior_next_of_not_judged hn hp hia hi hc
    rw [hprior]
    exact hd i hia hel fun h => hr (by rwa [RetiredBefore, hprior])

/-- When resuming is harmless: no document that a judgement or an earlier retirement stands for comes
back, and a full cap leaves no newly retired document. -/
structure Resumable (I : Inputs) (ratioCap : Nat → ℚ → Int) (previous : List (Str × Entry)) : Prop where
  retired : ∀ i ∈ I.absent, I.Eligible i → RetiredBefore previous i → ¬ I.ComesBack previous i.documentId
  returning : ∀ i ∈ I.judged ratioCap previous, ¬ I.ComesBack previous i.documentId
  discovered : ∀ i ∈ I.judged ratioCap previous, i.lineageKey ∉ I.discoveredLineages
  cap : (I.competing previous).length ≤ (I.effectiveCap ratioCap).toNat ∨
    ∀ i ∈ I.judged ratioCap previous, ¬ I.meetsGrace (prior previous i)

theorem retiredBefore_next_of_judged (hn : (I.absent.map (·.documentId)).Nodup) (hp : Indexed previous)
    {i : AbsentDocument} (hi : i ∈ I.judged ratioCap previous) (hr : ¬ I.ComesBack previous i.documentId) :
    RetiredBefore (I.next ratioCap previous) i ↔ I.meetsGrace (prior previous i) := by
  rw [RetiredBefore, prior_next_of_judged hn hp hi hr, ← newEntry_retired_iff]
  simp

/-- The documents that compete in the second pass are those not retired by the first. -/
theorem competing_next (hn : (I.absent.map (·.documentId)).Nodup) (hp : Indexed previous)
    (hret : ∀ i ∈ I.absent, I.Eligible i → RetiredBefore previous i → ¬ I.ComesBack previous i.documentId)
    (hjudged : ∀ i ∈ I.judged ratioCap previous, ¬ I.ComesBack previous i.documentId) :
    I.competing (I.next ratioCap previous) = (I.competing previous).filter fun i =>
      ¬ (i ∈ I.judged ratioCap previous ∧ I.meetsGrace (prior previous i)) := by
  rw [competing, competing, List.filter_filter]
  refine List.filter_congr fun i hi => ?_
  have hia := mem_ordered.1 hi
  rw [← Bool.decide_and, decide_eq_decide]
  by_cases hel : I.Eligible i
  · by_cases hr : RetiredBefore previous i
    · have hnj : i ∉ I.judged ratioCap previous := fun h => (mem_judged h).2.2 hr
      have hprior := prior_next_of_not_judged hn hp hia hnj (hret i hia hel hr)
      have hr' : RetiredBefore (I.next ratioCap previous) i := by rwa [RetiredBefore, hprior]
      simp [hr, hr']
    · by_cases hj : i ∈ I.judged ratioCap previous
      · have := retiredBefore_next_of_judged hn hp hj (hjudged i hj)
        simp [hel, hr, hj, this]
      · have hr' : ¬ RetiredBefore (I.next ratioCap previous) i := by
          by_cases hc : I.ComesBack previous i.documentId
          · rw [RetiredBefore, prior_next_of_comesBack hp hc]
            simp
          · rwa [RetiredBefore, prior_next_of_not_judged hn hp hia hj hc]
        simp [hel, hr, hj, hr']
  · simp [hel]

/-- What is dropped before a cut makes room for what stands behind it. -/
theorem getElem_mem_take_filter {α : Type} {p : α → Bool} {L : List α} {n : Nat} (hn : n < L.length)
    (hp : p L[n] = true) {j : α} (hj : j ∈ L.take n) (hpj : p j = false) : L[n] ∈ (L.filter p).take n := by
  have hsplit : L = L.take n ++ L[n] :: L.drop (n + 1) := by
    rw [← List.drop_eq_getElem_cons hn, List.take_append_drop]
  have hlt : ((L.take n).filter p).length < n := by
    have hle : (L.take n).length ≤ n := List.length_take_le ..
    have hne : ((L.take n).filter p).length ≠ (L.take n).length := fun h => by
      have := List.length_filter_eq_length_iff.1 h j hj
      rw [hpj] at this
      cases this
    have := List.length_filter_le p (L.take n)
    omega
  have hfilter : L.filter p = (L.take n).filter p ++ L[n] :: (L.drop (n + 1)).filter p := by
    conv_lhs => rw [hsplit, List.filter_append, List.filter_cons_of_pos hp]
  rw [hfilter, List.take_append, List.mem_append]
  right
  obtain ⟨k, hk⟩ : ∃ k, n - ((L.take n).filter p).length = k + 1 := ⟨_, (Nat.succ_pred_eq_of_pos (by omega)).symm⟩
  rw [hk, List.take_succ_cons]
  exact List.mem_cons_self ..

theorem nodup_competing (hn : (I.absent.map (·.documentId)).Nodup) : (I.competing previous).Nodup :=
  ((nodup_ordered hn).of_map _).filter _

section
variable (hn : (I.absent.map (·.documentId)).Nodup) (hp : Indexed previous)
include hn hp

/-- Under the condition, who is judged again was judged before as a candidate. -/
theorem judged_next (h : I.Resumable ratioCap previous) {i : AbsentDocument} (hi : i ∈ I.competing previous) :
    i ∈ I.judged ratioCap (I.next ratioCap previous) ↔
      i ∈ I.judged ratioCap previous ∧ ¬ I.meetsGrace (prior previous i) := by
  rw [judged, competing_next hn hp h.retired h.returning]
  rcases h.cap with hcap | hgrace
  · have hall : i ∈ I.judged ratioCap previous := by rwa [judged, List.take_of_length_le hcap]
    rw [List.take_of_length_le ((List.length_filter_le ..).trans hcap), List.mem_filter]
    simp [hi, hall]
  · have hself : (I.competing previous).filter (fun i =>
        ¬ (i ∈ I.judged ratioCap previous ∧ I.meetsGrace (prior previous i))) = I.competing previous :=
      List.filter_eq_self.2 fun j _ => decide_eq_true fun hj => hgrace j hj.1 hj.2
    rw [hself]
    exact ⟨fun hj => ⟨hj, hgrace i hj⟩, fun hj => hj.1⟩

theorem mem_judged_next (h : I.Resumable ratioCap previous) {i : AbsentDocument}
    (hi : i ∈ I.judged ratioCap (I.next ratioCap previous)) :
    i ∈ I.judged ratioCap previous ∧ ¬ I.meetsGrace (prior previous i) := by
  have hc : i ∈ I.competing previous := by
    have := List.mem_of_mem_take hi
    rw [competing_next hn hp h.retired h.returning] at this
    exact (List.mem_filter.1 this).1
  exact (judged_next hn hp h hc).1 hi

/-- A candidate judged again gets the entry it has. -/
theorem newEntry_next (h : I.Resumable ratioCap previous) {i : AbsentDocument} (hi : i ∈ I.judged ratioCap previous)
    (hg : ¬ I.meetsGrace (prior previous i)) :
    I.newEntry (I.next ratioCap previous) i = I.newEntry previous i := by
  have hprior := prior_next_of_judged hn hp hi (h.returning i hi)
  have hg' : ¬ I.meetsGrace (some (I.newEntry previous i)) := fun hm => hg ((meetsGrace_newEntry i).1 hm)
  have habs : I.absences (some (I.newEntry previous i)) = I.absences (prior previous i) := if_pos rfl
  rw [newEntry, hprior, entry]
  conv_rhs => rw [newEntry, entry]
  simp only [hg, hg', if_false, habs]
  rfl

theorem kind_next (h : I.Resumable ratioCap previous) {i : AbsentDocument} (hia : i ∈ I.absent) :
    (I.decided ratioCap previous i).kind = (I.decided ratioCap (I.next ratioCap previous) i).kind := by
  by_cases hel : I.Eligible i
  · by_cases hr : RetiredBefore previous i
    · have hnj : i ∉ I.judged ratioCap previous := fun hj => (mem_judged hj).2.2 hr
      obtain ⟨e, he, hs⟩ := id hr
      have he' := (prior_next_of_not_judged hn hp hia hnj (h.retired i hia hel hr)).trans he
      rw [decided, ruling_of_retired hel he hs, decided, ruling_of_retired hel he' hs]
    · have hc : i ∈ I.competing previous := List.mem_filter.2 ⟨mem_ordered.2 hia, by simpa using ⟨hel, hr⟩⟩
      by_cases hj : i ∈ I.judged ratioCap previous
      · by_cases hg : I.meetsGrace (prior previous i)
        · have hs := (newEntry_retired_iff i).2 hg
          rw [decided_of_judged hj, decided, ruling_of_retired hel (prior_next_of_judged hn hp hj (h.returning i hj)) hs]
          exact if_pos hs
        · rw [decided_of_judged hj, decided_of_judged ((judged_next hn hp h hc).2 ⟨hj, hg⟩), newEntry_next hn hp h hj hg]
      · have hj' : i ∉ I.judged ratioCap (I.next ratioCap previous) := fun hj' => hj ((judged_next hn hp h hc).1 hj').1
        have hc' : i ∈ I.competing (I.next ratioCap previous) := by
          rw [competing_next hn hp h.retired h.returning, List.mem_filter]
          exact ⟨hc, by simp [hj]⟩
        have hr' : ¬ RetiredBefore (I.next ratioCap previous) i := by
          have := (List.mem_filter.1 hc').2
          exact (by simpa using this : _ ∧ _).2
        rw [decided_of_not_judged hel hr hj, decided_of_not_judged hel hr' hj']
  · obtain ⟨r, hr⟩ := ruling_of_not_eligible hel
    rw [decided, hr, decided, hr]

theorem next_next (h : I.Resumable ratioCap previous) :
    I.next ratioCap (I.next ratioCap previous) = I.next ratioCap previous := by
  have hp' : Indexed (I.next ratioCap previous) := indexed_next hp
  have hrun : (I.progress ratioCap (I.next ratioCap previous)).updated = I.next ratioCap previous := by
    rw [progress_updated hp']
    refine assignAll_eq_self fun i hi e he => ?_
    obtain ⟨hj, rfl⟩ := judged_of_entry he
    obtain ⟨hj, hg⟩ := mem_judged_next hn hp h hj
    rw [newEntry_next hn hp h hj hg, next_of_judged hn hp hj (h.returning i hj)]
  rw [next, hrun, reinstateAll_eq]
  refine assignAll_eq_self fun x hx v hv => ?_
  have hx' := (mem_iff_get? hp'.nodup).1 hx
  have hnot : ¬ I.returns x.2 := by
    intro hret
    by_cases hc : I.ComesBack previous x.1
    · obtain ⟨e, he, hre⟩ := hc
      rw [next_of_comesBack hp he hre] at hx'
      have hs := hret.2.1
      rw [← Option.some.inj hx'] at hs
      rcases hs with hs | hs <;> cases hs
    · by_cases hj : ∃ i ∈ I.judged ratioCap previous, i.documentId = x.1
      · obtain ⟨i, hj, hd⟩ := hj
        rw [← hd, next_of_judged hn hp hj (hd ▸ hc)] at hx'
        have hl := hret.2.2
        rw [← Option.some.inj hx'] at hl
        exact h.discovered i hj hl
      · rw [next_of_not_judged hn hp (fun i hi hd => hj ⟨i, hi, hd⟩) hc] at hx'
        exact hc ⟨x.2, hx', hret⟩
  simp [hnot] at hv

/-- An evaluation that changes nothing when repeated meets the condition. -/
theorem resumable_of_next
    (hk : ∀ i ∈ I.absent, (I.decided ratioCap previous i).kind = (I.decided ratioCap (I.next ratioCap previous) i).kind)
    (hl : I.next ratioCap (I.next ratioCap previous) = I.next ratioCap previous) : I.Resumable ratioCap previous := by
  have hp' : Indexed (I.next ratioCap previous) := indexed_next hp
  have hret : ∀ i ∈ I.absent, I.Eligible i → RetiredBefore previous i → ¬ I.ComesBack previous i.documentId := by
    intro i hia hel hr hc
    have hki := hk i hia
    obtain ⟨e, he, hs⟩ := hr
    have hprior : prior (I.next ratioCap previous) i = none := prior_next_of_comesBack hp hc
    have hr' : ¬ RetiredBefore (I.next ratioCap previous) i := by
      rw [RetiredBefore, hprior]
      simp
    rw [decided, ruling_of_retired hel he hs, decided, ruling_of_competes hel hr'] at hki
    split at hki
    · have hng : ¬ (I.newEntry (I.next ratioCap previous) i).status = .retired := by
        rw [newEntry_retired_iff, hprior]
        exact not_meetsGrace_none
      simp only [Ruling.kind, if_neg hng] at hki
      cases hki
    · cases hki
  have hjudged : ∀ i ∈ I.judged ratioCap previous, ¬ I.ComesBack previous i.documentId := by
    intro i hi hc
    obtain ⟨hia, hel, -⟩ := mem_judged hi
    have hki := hk i hia
    have hprior : prior (I.next ratioCap previous) i = none := prior_next_of_comesBack hp hc
    have hr' : ¬ RetiredBefore (I.next ratioCap previous) i := by
      rw [RetiredBefore, hprior]
      simp
    by_cases hj : i ∈ I.judged ratioCap (I.next ratioCap previous)
    · obtain ⟨e, he, hre⟩ := hc
      have hU : get? (I.next ratioCap previous) i.documentId = some (I.reinstate e) := next_of_comesBack hp he hre
      have hnc : ¬ I.ComesBack (I.next ratioCap previous) i.documentId := by
        rintro ⟨x, hx, hxr⟩
        rw [hU] at hx
        obtain rfl := Option.some.inj hx
        rcases hxr.2.1 with hs | hs <;> cases hs
      have hnext := next_of_judged hn hp' hj hnc
      rw [hl, hU] at hnext
      exact newEntry_status_ne i (congrArg Entry.status (Option.some.inj hnext)).symm
    · rw [decided_of_judged hi, decided_of_not_judged hel hr' hj] at hki
      simp only [Ruling.kind] at hki
      split at hki <;> cases hki
  refine ⟨hret, hjudged, fun i hi hd => ?_, ?_⟩
  · have hU := next_of_judged hn hp hi (hjudged i hi)
    have hre : I.returns (I.newEntry previous i) := by
      refine ⟨(mem_judged hi).2.1.1, ?_, hd⟩
      rw [newEntry_status]
      split
      · exact .inr rfl
      · exact .inl rfl
    have hnext : get? (I.next ratioCap (I.next ratioCap previous)) i.documentId = _ := next_of_comesBack hp' hU hre
    rw [hl, hU] at hnext
    exact newEntry_status_ne i (congrArg Entry.status (Option.some.inj hnext))
  · by_contra hc
    push Not at hc
    obtain ⟨hlen, j, hj, hg⟩ := hc
    have hx := List.getElem_mem hlen
    have hnj : (I.competing previous)[(I.effectiveCap ratioCap).toNat] ∉ I.judged ratioCap previous := by
      intro hm
      obtain ⟨k, hk, he⟩ := List.mem_take_iff_getElem.1 hm
      have := (nodup_competing hn).getElem_inj_iff.1 he
      omega
    have hj' : (I.competing previous)[(I.effectiveCap ratioCap).toNat] ∈ I.judged ratioCap (I.next ratioCap previous) := by
      rw [judged, competing_next hn hp hret hjudged]
      exact getElem_mem_take_filter hlen (decide_eq_true fun h => hnj h.1) hj (decide_eq_false fun h => h ⟨hj, hg⟩)
    have hc := List.mem_filter.1 hx
    have hce := of_decide_eq_true hc.2
    have hki := hk _ (mem_ordered.1 hc.1)
    rw [decided_of_not_judged hce.1 hce.2 hnj, decided_of_judged hj'] at hki
    simp only [Ruling.kind] at hki
    split at hki <;> cases hki

end
end Inputs

open Inputs

/-- Evaluating again with the same run id and the same inputs on the ledger of the first evaluation
classifies every document the same way and returns an equal ledger exactly when `Resumable` holds. -/
theorem resume_harmless_iff (ratioCap : Nat → ℚ → Int) (I : Inputs) (ledger : Option Ledger) (o : Outcome)
    (hn : (I.absent.map (·.documentId)).Nodup) (h : evaluateRetirements ratioCap I ledger = .ok o) :
    (∃ o', evaluateRetirements ratioCap I (some o.ledger) = .ok o' ∧ SameClassification o o' ∧ o'.ledger = o.ledger) ↔
      I.Resumable ratioCap (dictOf (·.documentId) ((ledger.map (·.entries)).getD [])) := by
  generalize hprev : dictOf (·.documentId) ((ledger.map (·.entries)).getD []) = previous
  have hp : Indexed previous := hprev ▸ Indexed.dictOf _
  obtain ⟨hd, rfl⟩ := hprev ▸ (evaluate_eq_ok_iff hn).1 h
  have hp' : Indexed (I.next ratioCap previous) := indexed_next hp
  have hprev' : dictOf (·.documentId) (((some (I.outcome ratioCap previous).ledger).map (·.entries)).getD []) =
      I.next ratioCap previous := hp'.dictOf_values
  constructor
  · rintro ⟨o', ho', hsame, hledger⟩
    obtain ⟨-, rfl⟩ := hprev' ▸ (evaluate_eq_ok_iff hn).1 ho'
    refine resumable_of_next hn hp ((sameClassification_iff hn hp hp').1 hsame) ?_
    exact (indexed_next hp').ext hp' (congrArg Ledger.entries hledger)
  · intro hr
    refine ⟨I.outcome ratioCap (I.next ratioCap previous), ?_, ?_, ?_⟩
    · exact (evaluate_eq_ok_iff hn).2 (hprev'.symm ▸ ⟨dated_next hn hp hd, rfl⟩)
    · exact (sameClassification_iff hn hp hp').2 fun i hi => kind_next hn hp hr hi
    · simp only [outcome, next_next hn hp hr]

/-- A run with two absent documents and a cap of one. -/
def crowdedRun : Inputs where
  runId := "run-2".toList
  runStartedAt := ⟨2026, 10, 1, 0, 0, 0, 0, by decide⟩
  policy := ⟨2, 30, 1, 1 / 200, by decide, by norm_num⟩
  baselineTotal := 10000
  absent := ["d1", "d2"].map fun d => {
    documentId := d.toList, sourceId := "source".toList, issuer := "lotte".toList, productCode := d.toList,
    documentType := "product-manual".toList, pdfSha256 := "pdf".toList, ocrSha256 := none,
    lastObservedRunId := "run-0".toList, lastObservedAt := "2026-09-29T00:00:00+00:00".toList }
  durableOk := fun _ => true
  lineageAbsent := fun _ => true
  discoveredLineages := []
  frozenIssuers := []

/-- The ledger in which both are candidates for one run. -/
def crowdedLedger : Ledger where
  updatedRunId := "run-1".toList
  ledgerSha256 := []
  entries := crowdedRun.absent.map fun d => {
    documentId := d.documentId, sourceId := d.sourceId, issuer := d.issuer, productCode := d.productCode,
    documentType := d.documentType, pdfSha256 := d.pdfSha256, ocrSha256 := d.ocrSha256, status := .candidate,
    firstAbsentRunId := "run-1".toList, firstAbsentAt := "2026-09-30T00:00:00+00:00".toList,
    lastObservedRunId := d.lastObservedRunId, lastObservedAt := d.lastObservedAt,
    lastCheckedRunId := "run-1".toList, consecutiveAbsences := 1, retiredRunId := none, retiredAt := none,
    reinstatedRunId := none, reinstatedAt := none, decisionInputs := [] }

/-- `int(baseline_total * max_ratio)` without the rounding of the double product. -/
def exactRatioCap (baselineTotal : Nat) (maxRatio : ℚ) : Int := (baselineTotal * maxRatio).floor

/-- The first pass retires one document and refuses the other; the second retires both. -/
theorem resume_retires_more : ¬ ∀ (ratioCap : Nat → ℚ → Int) (I : Inputs) (ledger : Option Ledger) (o : Outcome),
    (I.absent.map (·.documentId)).Nodup → evaluateRetirements ratioCap I ledger = .ok o →
      ∃ o', evaluateRetirements ratioCap I (some o.ledger) = .ok o' ∧ SameClassification o o' ∧ o'.ledger = o.ledger := by
  intro hall
  have hrun : (evaluateRetirements exactRatioCap crowdedRun (some crowdedLedger) >>= fun o =>
      evaluateRetirements exactRatioCap crowdedRun (some o.ledger) >>= fun o' =>
      .ok (o.retired.map (·.documentId), o'.retired.map (·.documentId))) =
      .ok (["d1".toList], ["d1".toList, "d2".toList]) := by decide +kernel
  obtain ⟨o, ho, hrun⟩ := bind_eq_ok.1 hrun
  obtain ⟨o', ho', hsame, -⟩ := hall exactRatioCap crowdedRun (some crowdedLedger) o (by decide) ho
  obtain ⟨o'', ho'', hrun⟩ := bind_eq_ok.1 hrun
  obtain rfl := Except.ok.inj (ho'.symm.trans ho'')
  have hids := Except.ok.inj hrun
  have := (hsame.retired "d2".toList).2 (by simp [(Prod.mk.inj hids).2])
  rw [(Prod.mk.inj hids).1] at this
  simp at this

/-- With room for both the same run is resumed without a change. -/
theorem resume_harmless_roomy : ∃ o, evaluateRetirements exactRatioCap
      { crowdedRun with policy := ⟨2, 30, 2, 1 / 200, by decide, by norm_num⟩ } (some crowdedLedger) = .ok o ∧
    ∃ o', evaluateRetirements exactRatioCap
        { crowdedRun with policy := ⟨2, 30, 2, 1 / 200, by decide, by norm_num⟩ } (some o.ledger) = .ok o' ∧
      SameClassification o o' ∧ o'.ledger = o.ledger := by
  have hok : ∃ o, evaluateRetirements exactRatioCap
      { crowdedRun with policy := ⟨2, 30, 2, 1 / 200, by decide, by norm_num⟩ } (some crowdedLedger) = .ok o :=
    exists_ok_of_isOk (by decide +kernel)
  obtain ⟨o, ho⟩ := hok
  refine ⟨o, ho, (resume_harmless_iff _ _ _ o (by decide) ho).2 ⟨?_, ?_, ?_, .inl ?_⟩⟩
  · rintro i - - - ⟨e, -, he⟩
    exact List.not_mem_nil he.2.2
  · rintro i - ⟨e, -, he⟩
    exact List.not_mem_nil he.2.2
  · exact fun i _ => List.not_mem_nil
  · exact (List.length_filter_le ..).trans (by decide +kernel)

end CardRag.Retirement
