import CardRag.Rotation.Ledger

/-! # The ledger of attempts

`LedgerInv`: the attempts of a day are numbered from one, at most three, all for the day's issuer; the
day row mirrors the last; every earlier one has a result. Each primitive statement on the tables says
what it does to the day row and the attempts of every key, and the three calls keep the invariant
because each changes the day row and its last attempt alike. -/

namespace CardRag.Rotation

/-- The attempts `as` of the day `d`. -/
structure DayInv (d : DayRow) (as : List AttemptRow) : Prop where
  numbers : as.map (·.attempt) = List.range' 1 as.length
  bounded : as.length ≤ 3
  issuer : ∀ a ∈ as, a.issuer = d.issuer
  mirror : ∃ last, as.getLast? = some last ∧ last.runId = d.runId ∧ last.resultJson = d.resultJson
  finished : ∀ a ∈ as.dropLast, a.resultJson ≠ none

structure LedgerInv (db : Tables) : Prop where
  days : (db.days.map (·.key)).Nodup
  absent : ∀ k, db.dayRow k = none → db.attemptsOf k = []
  present : ∀ k d, db.dayRow k = some d → DayInv d (db.attemptsOf k)

/-! ### What each statement does to a day -/

namespace Tables
variable {db : Tables} {k k' : Key}

theorem key_of_dayRow {d : DayRow} (h : db.dayRow k = some d) : d.key = k := by
  simpa using List.find?_some h

theorem dayRow_eq_none : db.dayRow k = none ↔ k ∉ db.days.map (·.key) := by
  simp [dayRow, List.find?_eq_none]

theorem keys_updateDay {f : DayRow → DayRow} (hf : ∀ d, (f d).key = d.key) :
    (db.updateDay k f).days.map (·.key) = db.days.map (·.key) := by
  simp only [updateDay, List.map_map]
  refine List.map_congr_left fun d _ => ?_
  simp only [Function.comp_apply]
  split
  · exact hf d
  · rfl

theorem dayRow_updateDay {f : DayRow → DayRow} (hf : ∀ d, (f d).key = d.key) :
    (db.updateDay k f).dayRow k' = if k' = k then (db.dayRow k).map f else db.dayRow k' := by
  have hkey : ∀ d : DayRow, (if d.key = k then f d else d).key = d.key := by
    intro d
    split
    · exact hf d
    · rfl
  have hfind : (db.updateDay k f).dayRow k' = (db.dayRow k').map fun d => if d.key = k then f d else d := by
    simp only [updateDay, dayRow, List.find?_map, Function.comp_def, hkey]
  rw [hfind]
  split
  · rename_i hk
    subst hk
    cases hd : db.dayRow k' with
    | none => rfl
    | some d => simp [key_of_dayRow hd]
  · rename_i hk
    cases hd : db.dayRow k' with
    | none => rfl
    | some d =>
      have hne : ¬ d.key = k := fun h => hk (key_of_dayRow hd ▸ h)
      simp [hne]

@[simp] theorem attemptsOf_updateDay {f : DayRow → DayRow} : (db.updateDay k f).attemptsOf k' = db.attemptsOf k' := rfl

@[simp] theorem dayRow_updateAttempt {n : Nat} {f : AttemptRow → AttemptRow} :
    (db.updateAttempt k n f).dayRow k' = db.dayRow k' := rfl

theorem attemptsOf_updateAttempt {n : Nat} {f : AttemptRow → AttemptRow} (hf : ∀ a, (f a).key = a.key) :
    (db.updateAttempt k n f).attemptsOf k' =
      if k' = k then (db.attemptsOf k).map fun a => if a.attempt = n then f a else a else db.attemptsOf k' := by
  have hkey : ∀ a : AttemptRow, (if a.key = k ∧ a.attempt = n then f a else a).key = a.key := by
    intro a
    split
    · exact hf a
    · rfl
  simp only [updateAttempt, attemptsOf, List.filter_map, Function.comp_def, hkey]
  split
  · rename_i hk
    subst hk
    refine List.map_congr_left fun a ha => ?_
    have hak : a.key = k' := by simpa using (List.mem_filter.1 ha).2
    simp [hak]
  · rename_i hk
    have hid : ∀ a ∈ db.attempts.filter (·.key = k'), (if a.key = k ∧ a.attempt = n then f a else a) = id a := by
      intro a ha
      have hak : a.key = k' := by simpa using (List.mem_filter.1 ha).2
      rw [if_neg fun h => hk (hak ▸ h.1), id]
    rw [List.map_congr_left hid, List.map_id]

@[simp] theorem dayRow_insertAttempt {a : AttemptRow} : (db.insertAttempt a).dayRow k' = db.dayRow k' := rfl

theorem attemptsOf_insertAttempt {a : AttemptRow} :
    (db.insertAttempt a).attemptsOf k' = if k' = a.key then db.attemptsOf k' ++ [a] else db.attemptsOf k' := by
  simp only [insertAttempt, attemptsOf, List.filter_append, List.filter_singleton]
  by_cases h : k' = a.key
  · simp [h]
  · have : ¬ a.key = k' := fun h' => h h'.symm
    simp [h, this]

theorem dayRow_insertDay {d : DayRow} (h : db.dayRow d.key = none) :
    (db.insertDay d).dayRow k' = if k' = d.key then some d else db.dayRow k' := by
  simp only [insertDay, dayRow, List.find?_append, List.find?_singleton]
  by_cases hk : k' = d.key
  · subst hk
    rw [dayRow] at h
    simp [h]
  · have : ¬ d.key = k' := fun h' => hk h'.symm
    simp [hk, this]

@[simp] theorem attemptsOf_insertDay {d : DayRow} : (db.insertDay d).attemptsOf k' = db.attemptsOf k' := rfl

end Tables

/-! ### The last attempt -/

section
variable {d : DayRow} {as init : List AttemptRow} {last : AttemptRow}

theorem DayInv.split (h : DayInv d as) : ∃ init last, as = init ++ [last] ∧ last.attempt = init.length + 1 ∧
    (∀ a ∈ init, a.attempt ≠ init.length + 1) ∧ last.runId = d.runId ∧ last.resultJson = d.resultJson := by
  obtain ⟨last, hlast, hrun, hresult⟩ := h.mirror
  obtain ⟨init, rfl⟩ := List.getLast?_eq_some_iff.1 hlast
  have hnum := h.numbers
  rw [List.map_append, List.length_append, List.length_singleton, List.range'_concat] at hnum
  obtain ⟨hinit, hend⟩ := List.append_inj' hnum rfl
  refine ⟨init, last, rfl, ?_, fun a ha heq => ?_, hrun, hresult⟩
  · have : last.attempt = 1 + init.length := by simpa using hend
    omega
  · have hmem : a.attempt ∈ List.range' 1 init.length := hinit ▸ List.mem_map_of_mem ha
    rw [List.mem_range'_1] at hmem
    omega

theorem DayInv.max (h : DayInv d as) : (as.map (·.attempt)).max? = some as.length := by
  obtain ⟨init, last, rfl, hlast, -⟩ := h.split
  rw [List.max?_eq_some_iff]
  refine ⟨List.mem_map.2 ⟨last, by simp, by simpa using hlast⟩, fun n hn => ?_⟩
  rw [h.numbers, List.mem_range'_1] at hn
  omega

/-- An update of the last attempt and the same update of the day. -/
theorem DayInv.update {d' : DayRow} {f : AttemptRow → AttemptRow} (h : DayInv d as)
    (hd : d'.issuer = d.issuer) (hf : ∀ a, (f a).attempt = a.attempt ∧ (f a).issuer = a.issuer)
    (hmirror : ∀ a : AttemptRow, a.runId = d.runId → a.resultJson = d.resultJson →
      (f a).runId = d'.runId ∧ (f a).resultJson = d'.resultJson) :
    DayInv d' (as.map fun a => if a.attempt = as.length then f a else a) := by
  obtain ⟨init, last, rfl, hlast, hinit, hrun, hresult⟩ := h.split
  have hkeep : init.map (fun a => if a.attempt = (init ++ [last]).length then f a else a) = init := by
    have hid : ∀ a ∈ init, (if a.attempt = (init ++ [last]).length then f a else a) = id a := by
      intro a ha
      rw [if_neg (by simpa using hinit a ha), id]
    rw [List.map_congr_left hid, List.map_id]
  have hmap : (init ++ [last]).map (fun a => if a.attempt = (init ++ [last]).length then f a else a) =
      init ++ [f last] := by
    rw [List.map_append, hkeep]
    simp [hlast]
  rw [hmap]
  refine ⟨?_, by simpa using h.bounded, ?_, ⟨f last, by simp, hmirror last hrun hresult⟩, ?_⟩
  · have := h.numbers
    simpa [(hf last).1] using this
  · intro a ha
    rw [hd]
    rcases List.mem_append.1 ha with ha | ha
    · exact h.issuer a (by simp [ha])
    · rw [List.mem_singleton.1 ha, (hf last).2]
      exact h.issuer last (by simp)
  · have := h.finished
    simpa using this

/-- A further attempt after one with a result. -/
theorem DayInv.append {d' : DayRow} {a : AttemptRow} (h : DayInv d as) (hres : d.resultJson ≠ none)
    (hlen : as.length < 3) (hd : d'.issuer = d.issuer) (hnum : a.attempt = as.length + 1) (ha : a.issuer = d.issuer)
    (hrun : a.runId = d'.runId) (hresult : a.resultJson = d'.resultJson) : DayInv d' (as ++ [a]) := by
  obtain ⟨init, last, rfl, -, -, -, hlast⟩ := h.split
  have hsize : (init ++ [last] ++ [a]).length = (init ++ [last]).length + 1 := by simp
  refine ⟨?_, by omega, ?_, ⟨a, by simp, hrun, hresult⟩, ?_⟩
  · rw [hsize, List.map_append, h.numbers, List.range'_concat]
    simp [hnum, Nat.add_comm]
  · intro b hb
    rw [hd]
    rcases List.mem_append.1 hb with hb | hb
    · exact h.issuer b hb
    · rw [List.mem_singleton.1 hb, ha]
  · intro b hb
    rw [List.dropLast_concat] at hb
    rcases List.mem_append.1 hb with hb | hb
    · exact h.finished b (by simpa using hb)
    · rw [List.mem_singleton.1 hb, hlast]
      exact hres

end

/-! ### What each call does to the ledger -/

namespace LedgerInv
variable {db : Tables} {k : Key} {d : DayRow}

theorem maxAttempt (h : LedgerInv db) (hd : db.dayRow k = some d) : db.maxAttempt k = some (db.attemptsOf k).length :=
  (h.present k d hd).max

/-- A day and its last attempt change alike. -/
theorem update {f : DayRow → DayRow} {g : AttemptRow → AttemptRow} (h : LedgerInv db) (hd : db.dayRow k = some d)
    (hf : ∀ d, (f d).key = d.key ∧ (f d).issuer = d.issuer)
    (hg : ∀ a, (g a).key = a.key ∧ (g a).attempt = a.attempt ∧ (g a).issuer = a.issuer)
    (hmirror : ∀ a : AttemptRow, a.runId = d.runId → a.resultJson = d.resultJson →
      (g a).runId = (f d).runId ∧ (g a).resultJson = (f d).resultJson) :
    LedgerInv ((db.updateDay k f).updateAttempt k (db.attemptsOf k).length g) := by
  refine ⟨?_, fun k' hk' => ?_, fun k' d' hd' => ?_⟩
  · show ((db.updateDay k f).days.map (·.key)).Nodup
    rw [Tables.keys_updateDay fun d => (hf d).1]
    exact h.days
  · rw [Tables.dayRow_updateAttempt, Tables.dayRow_updateDay fun d => (hf d).1] at hk'
    rw [Tables.attemptsOf_updateAttempt fun a => (hg a).1, Tables.attemptsOf_updateDay]
    split at hk' <;> rename_i hkk
    · rw [hd] at hk'
      cases hk'
    · rw [if_neg hkk]
      exact h.absent k' hk'
  · rw [Tables.dayRow_updateAttempt, Tables.dayRow_updateDay fun d => (hf d).1] at hd'
    rw [Tables.attemptsOf_updateAttempt fun a => (hg a).1, Tables.attemptsOf_updateDay]
    split at hd' <;> rename_i hkk
    · rw [hd, Option.map_some, Option.some.injEq] at hd'
      subst hd'
      rw [if_pos hkk]
      exact (h.present k d hd).update (hf d).2 (fun a => (hg a).2) hmirror
    · rw [if_neg hkk]
      exact h.present k' d' hd'

/-- The next attempt of a day whose last one has a result. -/
theorem next (h : LedgerInv db) (hd : db.dayRow k = some d) (hres : d.resultJson ≠ none)
    (hlen : (db.attemptsOf k).length < 3) :
    LedgerInv ((db.updateDay k fun d => { d with runId := none, resultJson := none }).insertAttempt
      ⟨k, (db.attemptsOf k).length + 1, d.issuer, none, none⟩) := by
  have hkey : ∀ d : DayRow, ({ d with runId := none, resultJson := none } : DayRow).key = d.key := fun _ => rfl
  refine ⟨?_, fun k' hk' => ?_, fun k' d' hd' => ?_⟩
  · show ((db.updateDay k _).days.map (·.key)).Nodup
    rw [Tables.keys_updateDay hkey]
    exact h.days
  · rw [Tables.dayRow_insertAttempt, Tables.dayRow_updateDay hkey] at hk'
    rw [Tables.attemptsOf_insertAttempt, Tables.attemptsOf_updateDay]
    split at hk' <;> rename_i hkk
    · rw [hd] at hk'
      cases hk'
    · rw [if_neg hkk]
      exact h.absent k' hk'
  · rw [Tables.dayRow_insertAttempt, Tables.dayRow_updateDay hkey] at hd'
    rw [Tables.attemptsOf_insertAttempt, Tables.attemptsOf_updateDay]
    split at hd' <;> rename_i hkk
    · rw [hd, Option.map_some, Option.some.injEq] at hd'
      subst hd'
      rw [if_pos hkk, hkk]
      exact (h.present k d hd).append hres hlen rfl rfl rfl rfl rfl
    · rw [if_neg hkk]
      exact h.present k' d' hd'

/-- The first attempt of a new day. -/
theorem opened (h : LedgerInv db) (hk : db.dayRow k = none) (issuer : Str) :
    LedgerInv ((db.insertDay ⟨k, issuer, none, none⟩).insertAttempt ⟨k, 1, issuer, none, none⟩) := by
  refine ⟨?_, fun k' hk' => ?_, fun k' d' hd' => ?_⟩
  · show ((db.days ++ [(⟨k, issuer, none, none⟩ : DayRow)]).map DayRow.key).Nodup
    rw [List.map_append, List.nodup_append]
    refine ⟨h.days, by simp, fun a ha b hb => ?_⟩
    rintro rfl
    rw [List.map_singleton, List.mem_singleton] at hb
    exact Tables.dayRow_eq_none.1 hk ((show a = k from hb) ▸ ha)
  · rw [Tables.dayRow_insertAttempt, Tables.dayRow_insertDay hk] at hk'
    rw [Tables.attemptsOf_insertAttempt, Tables.attemptsOf_insertDay]
    split at hk' <;> rename_i hkk
    · cases hk'
    · rw [if_neg hkk]
      exact h.absent k' hk'
  · rw [Tables.dayRow_insertAttempt, Tables.dayRow_insertDay hk] at hd'
    rw [Tables.attemptsOf_insertAttempt, Tables.attemptsOf_insertDay]
    split at hd' <;> rename_i hkk
    · cases hd'
      rw [if_pos hkk, show k' = k from hkk, h.absent k hk]
      exact ⟨rfl, by simp, by simp, ⟨_, rfl, rfl, rfl⟩, by simp⟩
    · rw [if_neg hkk]
      exact h.present k' d' hd'

theorem congr {db' : Tables} (h : LedgerInv db) (hdays : db'.days = db.days) (hattempts : db'.attempts = db.attempts) :
    LedgerInv db' := by
  have hday : ∀ k, db'.dayRow k = db.dayRow k := fun k => by rw [Tables.dayRow, Tables.dayRow, hdays]
  have hatt : ∀ k, db'.attemptsOf k = db.attemptsOf k := fun k => by
    rw [Tables.attemptsOf, Tables.attemptsOf, hattempts]
  refine ⟨hdays ▸ h.days, fun k hk => ?_, fun k d hd => ?_⟩
  · rw [hatt]
    exact h.absent k (hday k ▸ hk)
  · rw [hatt]
    exact h.present k d (hday k ▸ hd)

end LedgerInv

section
variable {db db' : Tables} {schedule channel : Str} {a : Assignment}

theorem reconcile_inv {env : Env} {row : DayRow} (h : LedgerInv db) (hrow : db.dayRow row.key = some row) :
    LedgerInv (reconcile env row (db.attemptsOf row.key).length db).2 ∧
    ∃ row', (reconcile env row (db.attemptsOf row.key).length db).2.dayRow row.key = some row' ∧
      row'.issuer = row.issuer ∧ row'.runId = row.runId ∧
      row'.resultJson = (reconcile env row (db.attemptsOf row.key).length db).1 ∧
      ((reconcile env row (db.attemptsOf row.key).length db).2.attemptsOf row.key).length =
        (db.attemptsOf row.key).length := by
  unfold reconcile
  split
  · split
    · rename_i runId status _ _ _
      refine ⟨h.update hrow (fun _ => ⟨rfl, rfl⟩) (fun _ => ⟨rfl, rfl, rfl⟩) fun b hb _ => ⟨hb, rfl⟩,
        { row with resultJson := some (reconciledResult status runId) }, ?_, rfl, rfl, rfl, ?_⟩
      · show (db.updateDay row.key _).dayRow row.key = _
        have hkey : ∀ d : DayRow, ({ d with resultJson := some (reconciledResult status runId) } : DayRow).key = d.key :=
          fun _ => rfl
        rw [Tables.dayRow_updateDay hkey, if_pos rfl, hrow, Option.map_some]
      · show ((Tables.updateAttempt _ row.key _ _).attemptsOf row.key).length = _
        have hkey : ∀ b : AttemptRow, ({ b with resultJson := some (reconciledResult status runId) } : AttemptRow).key =
            b.key := fun _ => rfl
        rw [Tables.attemptsOf_updateAttempt hkey, if_pos rfl, List.length_map, Tables.attemptsOf_updateDay]
    · rename_i hres _ _
      exact ⟨h, row, hrow, rfl, rfl, hres, rfl⟩
  · exact ⟨h, row, hrow, rfl, rfl, rfl, rfl⟩

theorem claimAgain_inv {env : Env} {pool : List Str} {row : DayRow} (h : LedgerInv db)
    (hrow : db.dayRow row.key = some row) (hc : claimAgain env pool row db = .ok (a, db')) : LedgerInv db' := by
  obtain ⟨hinv, row', hrow', hissuer, -, hresult, hlen⟩ := @reconcile_inv db env row h hrow
  simp only [claimAgain, h.maxAttempt hrow, Option.getD_some, Guard.bind_eq_ok, raiseIf_eq_ok, Guard.exists_unit] at hc
  obtain ⟨-, hc⟩ := hc
  split at hc
  · rename_i result hsome
    simp only [Guard.bind_eq_ok, raiseIf_eq_ok, Guard.exists_unit, Guard.pure_eq_ok, Prod.mk.injEq] at hc
    obtain ⟨hlt, scope, -, -, rfl⟩ := hc
    have hres : row'.resultJson ≠ none := by
      rw [hresult, hsome]
      simp
    have hnext := hinv.next hrow' hres (by omega)
    rw [hlen, hissuer] at hnext
    exact hnext
  · simp only [Guard.bind_eq_ok, Guard.pure_eq_ok, Prod.mk.injEq] at hc
    obtain ⟨scope, -, -, rfl⟩ := hc
    exact hinv

theorem claimFirst_inv {env : Env} {pool : List Str} {day : Str} (h : LedgerInv db)
    (hnone : db.dayRow ⟨schedule, channel, day⟩ = none)
    (hc : claimFirst schedule channel env pool day db = .ok (a, db')) : LedgerInv db' := by
  simp only [claimFirst, Guard.bind_eq_ok, raiseIf_eq_ok, Guard.exists_unit] at hc
  obtain ⟨-, hc⟩ := hc
  split at hc
  · cases hc
  · rename_i issuer remaining _
    simp only [Guard.bind_eq_ok, Guard.pure_eq_ok, Prod.mk.injEq] at hc
    obtain ⟨scope, -, -, rfl⟩ := hc
    have hkeep : ∀ db₁ : Tables, db₁.days = db.days → db₁.attempts = db.attempts →
        LedgerInv ((db₁.insertDay ⟨⟨schedule, channel, day⟩, issuer, none, none⟩).insertAttempt
          ⟨⟨schedule, channel, day⟩, 1, issuer, none, none⟩) := by
      intro db₁ hdays hattempts
      refine (h.congr hdays hattempts).opened ?_ issuer
      rw [Tables.dayRow, hdays]
      exact hnone
    refine hkeep (Tables.replaceCycle _ _) ?_ ?_
    · show (Tables.replaceCycle _ _).days = db.days
      unfold Tables.replaceCycle
      split <;> rfl
    · show (Tables.replaceCycle _ _).attempts = db.attempts
      unfold Tables.replaceCycle
      split <;> rfl

theorem bind_inv {b : Assignment} {runId : Str} (h : LedgerInv db)
    (hb : bind schedule channel b runId db = .ok (a, db')) : LedgerInv db' := by
  simp only [bind, Guard.bind_eq_ok, raiseIf_eq_ok, Guard.exists_unit, Guard.pure_eq_ok, Prod.mk.injEq, not_or,
    not_not] at hb
  obtain ⟨-, ⟨hday, hmax⟩, -, rfl⟩ := hb
  obtain ⟨d, hd⟩ := Option.ne_none_iff_exists'.1 hday
  have hattempt : (db.attemptsOf ⟨schedule, channel, b.day⟩).length = b.attempt := by
    rw [h.maxAttempt hd] at hmax
    exact Option.some.inj hmax
  rw [← hattempt]
  exact h.update hd (fun _ => ⟨rfl, rfl⟩) (fun _ => ⟨rfl, rfl, rfl⟩) fun _ _ hr => ⟨rfl, hr⟩

theorem complete_inv {b : Assignment} {result : Json} (h : LedgerInv db)
    (hb : complete schedule channel b result db = .ok (a, db')) : LedgerInv db' := by
  simp only [complete, Guard.bind_eq_ok, raiseIf_eq_ok, Guard.exists_unit, Guard.pure_eq_ok, Prod.mk.injEq, not_or,
    not_not] at hb
  obtain ⟨⟨hday, hmax⟩, -, rfl⟩ := hb
  obtain ⟨d, hd⟩ := Option.ne_none_iff_exists'.1 hday
  have hattempt : (db.attemptsOf ⟨schedule, channel, b.day⟩).length = b.attempt := by
    rw [h.maxAttempt hd] at hmax
    exact Option.some.inj hmax
  rw [← hattempt]
  exact h.update hd (fun _ => ⟨rfl, rfl⟩) (fun _ => ⟨rfl, rfl, rfl⟩) fun _ hr _ => ⟨hr, rfl⟩

/-- A call that returns keeps the ledger. -/
theorem body_inv {call : Call} (h : LedgerInv db) (hc : call.body schedule channel db = .ok (a, db')) : LedgerInv db' := by
  cases call with
  | claim env pool day =>
    simp only [Call.body, claim] at hc
    split at hc
    · rename_i row hrow
      have hkey := Tables.key_of_dayRow hrow
      rw [← hkey] at hrow
      exact claimAgain_inv h hrow hc
    · rename_i hnone
      exact claimFirst_inv h hnone hc
  | bind b runId => exact bind_inv h hc
  | complete b result => exact complete_inv h hc

theorem outcome_inv (s : Step) (h : LedgerInv db) : LedgerInv (s.outcome db).2 := by
  unfold Step.outcome transaction
  split
  · rename_i hbody
    exact body_inv h hbody
  · exact h

theorem run_inv (steps : List Step) (h : LedgerInv db) : LedgerInv (run db steps) := by
  induction steps generalizing db with
  | nil => exact h
  | cons s steps ih => exact ih (outcome_inv s h)

/-- A rejected call leaves the tables as they were. -/
theorem outcome_rejected {s : Step} {e : Raised} (h : (s.outcome db).1 = .error e) : (s.outcome db).2 = db := by
  unfold Step.outcome transaction at h ⊢
  split at h
  · cases h
  · rfl

/-- The tables of an older version, once the attempts of its days are recorded. -/
theorem migrate_inv (hkeys : (db.days.map (·.key)).Nodup) (hnone : db.attempts = []) : LedgerInv (migrateAttempts db) := by
  have hfilter : ∀ k, (migrateAttempts db).attemptsOf k =
      (db.days.filter (·.key = k)).map fun d => ⟨d.key, 1, d.issuer, d.runId, d.resultJson⟩ := by
    intro k
    simp [migrateAttempts, Tables.attemptsOf, hnone, List.filter_map, Function.comp_def]
  have hday : ∀ k, (migrateAttempts db).dayRow k = db.dayRow k := fun _ => rfl
  refine ⟨hkeys, fun k hk => ?_, fun k d hd => ?_⟩
  · rw [hfilter, List.map_eq_nil_iff, List.filter_eq_nil_iff]
    rw [hday, Tables.dayRow, List.find?_eq_none] at hk
    exact hk
  · rw [hday] at hd
    have hone : db.days.filter (·.key = k) = [d] := by
      rw [PyList.filter_key_eq hkeys k]
      have hmem := List.mem_of_find?_eq_some hd
      rw [← Tables.key_of_dayRow hd, PyList.get?_dictOf_of_mem hkeys hmem]
      rfl
    rw [hfilter, hone]
    exact ⟨rfl, by simp, by simp, ⟨_, rfl, rfl, rfl⟩, by simp⟩

/-- After every sequence of calls the attempts of each day are numbered from one, at most three, for the
day's issuer; the day row mirrors the last and each earlier one has a result; and a rejected call
changes nothing. -/
theorem ledger_of_run {db₀ : Tables} (hkeys : (db₀.days.map (·.key)).Nodup) (hnone : db₀.attempts = [])
    (steps : List Step) :
    LedgerInv (run (migrateAttempts db₀) steps) ∧
    ∀ s : Step, ∀ e, (s.outcome (run (migrateAttempts db₀) steps)).1 = .error e →
      (s.outcome (run (migrateAttempts db₀) steps)).2 = run (migrateAttempts db₀) steps :=
  ⟨run_inv steps (migrate_inv hkeys hnone), fun _ _ he => outcome_rejected he⟩

end

/-- A day from before attempts were recorded, with its result. -/
def legacyDay : Tables :=
  { days := [⟨⟨"daily".toList, "stable".toList, "2026-10-22".toList⟩, "woori".toList, some ['r'], some ['s']⟩] }

theorem ledger_of_run_legacyDay : ∃ steps : List Step,
    (run (migrateAttempts legacyDay) steps).attemptsOf ⟨"daily".toList, "stable".toList, "2026-10-22".toList⟩ ≠
      (migrateAttempts legacyDay).attemptsOf ⟨"daily".toList, "stable".toList, "2026-10-22".toList⟩ ∧
    LedgerInv (run (migrateAttempts legacyDay) steps) ∧
    ∀ s : Step, ∀ e, (s.outcome (run (migrateAttempts legacyDay) steps)).1 = .error e →
      (s.outcome (run (migrateAttempts legacyDay) steps)).2 = run (migrateAttempts legacyDay) steps :=
  ⟨[⟨"daily".toList, "stable".toList, .claim ⟨fun _ => none, fun _ => false⟩ ["woori".toList] "2026-10-22".toList⟩],
    by decide +kernel, ledger_of_run (by simp [legacyDay]) rfl _⟩

end CardRag.Rotation
