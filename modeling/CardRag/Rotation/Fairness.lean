import CardRag.Lib.Dealing
import CardRag.Rotation.LedgerInv

/-! # Round-robin fairness of the rotation

The first claims of the days of a schedule and channel are draws from its remaining list; no other
call touches that list. Fairness is that of `Deals`. An issuer that has left the pool by the claim
that refills the list is dropped undealt, which is why the result on exactly one assignment asks for
it in the pool of that claim too. -/

namespace CardRag.Rotation

section
variable (schedule channel : Str)

/-- What remains of the current cycle. -/
def remaining (db : Tables) : List Str := ((cycleRow schedule channel db).map (·.remaining)).getD []

/-- The draw that a step makes: a successful claim on a day of the rotation that has no row yet. -/
def firstClaim (db : Tables) (s : Step) : Option (Draw Str) :=
  match s.call, (s.outcome db).1 with
  | .claim _ pool day, .ok a =>
    if s.schedule = schedule ∧ s.channel = channel ∧ db.dayRow ⟨schedule, channel, day⟩ = none then
      some ⟨pool, a.scope.selected.headD [], decide (carried schedule channel pool db = [])⟩
    else none
  | _, _ => none

/-- The successful first-of-day claims of the rotation in a run. -/
def firstClaims : Tables → List Step → List (Draw Str)
  | _, [] => []
  | db, s :: steps => (firstClaim schedule channel db s).toList ++ firstClaims (s.outcome db).2 steps

end

section
variable {schedule channel : Str} {db db' : Tables} {a : Assignment}

theorem issuerScope_selected {pool selected : List Str} {scope : IssuerScope}
    (h : issuerScope pool selected = .ok scope) : scope.selected = selected := by
  simp only [issuerScope, Guard.bind_eq_ok, raiseIf_eq_ok, Guard.exists_unit, Guard.pure_eq_ok] at h
  rw [← h.2]

theorem cycleRow_replaceCycle (c : CycleRow) : cycleRow schedule channel (db.replaceCycle c) =
    if c.schedule = schedule ∧ c.channel = channel then some c else cycleRow schedule channel db := by
  unfold cycleRow Tables.replaceCycle
  rw [List.find?_append]
  by_cases hc : c.schedule = schedule ∧ c.channel = channel
  · have hnone : (db.cycles.filter fun r => ¬ (r.schedule = c.schedule ∧ r.channel = c.channel)).find?
        (fun r => r.schedule = schedule ∧ r.channel = channel) = none := by
      rw [List.find?_eq_none]
      intro r hr hmine
      rw [List.mem_filter, decide_eq_true_eq] at hr
      obtain ⟨h1, h2⟩ := of_decide_eq_true hmine
      exact hr.2 ⟨h1.trans hc.1.symm, h2.trans hc.2.symm⟩
    rw [hnone, if_pos hc]
    simp [hc]
  · have hsame : (db.cycles.filter fun r => ¬ (r.schedule = c.schedule ∧ r.channel = c.channel)).find?
        (fun r => r.schedule = schedule ∧ r.channel = channel) =
        db.cycles.find? fun r => r.schedule = schedule ∧ r.channel = channel := by
      induction db.cycles with
      | nil => rfl
      | cons r rows ih =>
        by_cases hr : r.schedule = schedule ∧ r.channel = channel
        · have hkeep : ¬ (r.schedule = c.schedule ∧ r.channel = c.channel) := by
            rintro ⟨h1, h2⟩
            exact hc ⟨h1.symm.trans hr.1, h2.symm.trans hr.2⟩
          rw [List.filter_cons_of_pos (by simpa [← not_and_or] using hkeep), List.find?_cons_of_pos (by simpa using hr),
            List.find?_cons_of_pos (by simpa using hr)]
        · rw [List.find?_cons_of_neg (by simpa using hr), List.filter_cons]
          split
          · rw [List.find?_cons_of_neg (by simpa using hr), ih]
          · exact ih
    rw [hsame, if_neg hc]
    simp [hc]

/-- A first claim deals from the remaining list. -/
theorem claimFirst_deals {env : Env} {pool : List Str} {day : Str}
    (h : claimFirst schedule channel env pool day db = .ok (a, db')) :
    (∃ issuer, a.scope.selected = [issuer] ∧
      (if carried schedule channel pool db = [] then pool else carried schedule channel pool db) =
        issuer :: remaining schedule channel db') ∧
    ∀ s c, ¬ (s = schedule ∧ c = channel) → cycleRow s c db' = cycleRow s c db := by
  simp only [claimFirst, Guard.bind_eq_ok, raiseIf_eq_ok, Guard.exists_unit] at h
  obtain ⟨-, h⟩ := h
  split at h
  · cases h
  · rename_i issuer rest hhand
    simp only [Guard.bind_eq_ok, Guard.pure_eq_ok, Prod.mk.injEq] at h
    obtain ⟨scope, hscope, rfl, rfl⟩ := h
    have hcycle : ∀ (s c : Str) (db₁ : Tables) (row : CycleRow) (d : DayRow) (b : AttemptRow),
        cycleRow s c (((db₁.replaceCycle row).insertDay d).insertAttempt b) =
          if row.schedule = s ∧ row.channel = c then some row else cycleRow s c db₁ :=
      fun _ _ _ row _ _ => cycleRow_replaceCycle row
    refine ⟨⟨issuer, issuerScope_selected hscope, ?_⟩, fun s c hne => ?_⟩
    · rw [hhand, remaining, hcycle, if_pos ⟨rfl, rfl⟩]
      rfl
    · rw [hcycle, if_neg fun h => hne ⟨h.1.symm, h.2.symm⟩]
      split <;> rfl

theorem reconcile_cycles (env : Env) (row : DayRow) (n : Nat) : (reconcile env row n db).2.cycles = db.cycles := by
  unfold reconcile
  split
  · split <;> rfl
  · rfl

/-- A later claim of a day leaves the cycles alone. -/
theorem claimAgain_cycles {env : Env} {pool : List Str} {row : DayRow}
    (h : claimAgain env pool row db = .ok (a, db')) : db'.cycles = db.cycles := by
  simp only [claimAgain, Guard.bind_eq_ok, raiseIf_eq_ok, Guard.exists_unit] at h
  obtain ⟨-, h⟩ := h
  split at h
  · simp only [Guard.bind_eq_ok, raiseIf_eq_ok, Guard.exists_unit, Guard.pure_eq_ok, Prod.mk.injEq] at h
    obtain ⟨-, scope, -, -, rfl⟩ := h
    exact reconcile_cycles env row _
  · simp only [Guard.bind_eq_ok, Guard.pure_eq_ok, Prod.mk.injEq] at h
    obtain ⟨scope, -, -, rfl⟩ := h
    exact reconcile_cycles env row _

theorem remaining_congr (h : cycleRow schedule channel db' = cycleRow schedule channel db) :
    remaining schedule channel db' = remaining schedule channel db := by
  rw [remaining, remaining, h]

/-- A step either draws from the remaining list or leaves it. -/
theorem outcome_deals (db : Tables) (s : Step) :
    (∃ d, firstClaim schedule channel db s = some d ∧
      d.refilled = (kept (remaining schedule channel db) d.pool).isEmpty ∧
      (if d.refilled = true then d.pool else kept (remaining schedule channel db) d.pool) =
        d.dealt :: remaining schedule channel (s.outcome db).2) ∨
    (firstClaim schedule channel db s = none ∧
      remaining schedule channel (s.outcome db).2 = remaining schedule channel db) := by
  obtain ⟨s₁, c₁, call⟩ := s
  unfold firstClaim Step.outcome transaction
  cases hbody : call.body s₁ c₁ db with
  | error e =>
    right
    cases call <;> exact ⟨rfl, rfl⟩
  | ok r =>
    obtain ⟨a, db'⟩ := r
    cases call with
    | bind b runId =>
      right
      simp only [Call.body, bind, Guard.bind_eq_ok, raiseIf_eq_ok, Guard.exists_unit, Guard.pure_eq_ok,
        Prod.mk.injEq] at hbody
      obtain ⟨-, -, -, rfl⟩ := hbody
      exact ⟨rfl, rfl⟩
    | complete b result =>
      right
      simp only [Call.body, complete, Guard.bind_eq_ok, raiseIf_eq_ok, Guard.exists_unit, Guard.pure_eq_ok,
        Prod.mk.injEq] at hbody
      obtain ⟨-, -, rfl⟩ := hbody
      exact ⟨rfl, rfl⟩
    | claim env pool day =>
      simp only [Call.body, claim] at hbody
      split at hbody
      · rename_i row hrow
        right
        refine ⟨?_, remaining_congr ?_⟩
        · refine if_neg ?_
          rintro ⟨rfl, rfl, hnone⟩
          rw [hnone] at hrow
          cases hrow
        · show cycleRow schedule channel db' = _
          rw [cycleRow, cycleRow, claimAgain_cycles hbody]
      · rename_i hnone
        obtain ⟨⟨issuer, hsel, hhand⟩, hother⟩ := claimFirst_deals hbody
        by_cases hmine : s₁ = schedule ∧ c₁ = channel
        · obtain ⟨rfl, rfl⟩ := hmine
          left
          refine ⟨_, if_pos ⟨rfl, rfl, hnone⟩, ?_, ?_⟩
          · show decide (carried s₁ c₁ pool db = []) = (carried s₁ c₁ pool db).isEmpty
            simp only [← List.isEmpty_iff, Bool.decide_eq_true]
          · show (if decide (carried s₁ c₁ pool db = []) = true then pool else carried s₁ c₁ pool db) =
              a.scope.selected.headD [] :: remaining s₁ c₁ db'
            simp only [decide_eq_true_eq]
            rw [hhand, hsel]
            rfl
        · right
          refine ⟨if_neg fun h => hmine ⟨h.1, h.2.1⟩, remaining_congr ?_⟩
          exact hother schedule channel fun h => hmine ⟨h.1.symm, h.2.symm⟩

/-- The first claims of a run are draws from the remaining list. -/
theorem firstClaims_deals (db : Tables) (steps : List Step) :
    Deals (remaining schedule channel db) (firstClaims schedule channel db steps) := by
  induction steps generalizing db with
  | nil => trivial
  | cons s steps ih =>
    rcases @outcome_deals schedule channel db s with ⟨d, hd, hrefill, hhand⟩ | ⟨hnone, hsame⟩
    · rw [firstClaims, hd]
      exact ⟨hrefill, _, hhand, ih _⟩
    · rw [firstClaims, hnone, ← hsame]
      exact ih _

/-- In every run from tables without a cycle: a first claim assigns an issuer of its pool; a cycle
assigns no issuer twice; an issuer in the pools of all claims of a cycle and of the claim that refills
next is assigned exactly once in the cycle; and with one pool throughout, any claims as many as the
pool is long assign it in cyclic order. -/
theorem firstClaims_fair (hfresh : cycleRow schedule channel db = none) (steps : List Step)
    (hpools : ∀ d ∈ firstClaims schedule channel db steps, d.pool.Nodup) :
    (∀ d ∈ firstClaims schedule channel db steps, d.dealt ∈ d.pool) ∧
    (∀ before first rest after, firstClaims schedule channel db steps = before ++ (first :: rest ++ after) →
      first.refilled = true → (∀ d ∈ rest, d.refilled = false) →
      ((first :: rest).map (·.dealt)).Nodup ∧
      ∀ next later, after = next :: later → next.refilled = true →
        ∀ issuer, (∀ d ∈ first :: rest, issuer ∈ d.pool) → issuer ∈ next.pool →
          ((first :: rest).map (·.dealt)).count issuer = 1) ∧
    ∀ pool, (∀ d ∈ firstClaims schedule channel db steps, d.pool = pool) →
      ∀ k, k + pool.length ≤ (firstClaims schedule channel db steps).length →
        (((firstClaims schedule channel db steps).drop k).take pool.length).map (·.dealt) = pool.rotate k := by
  have hdeals : Deals [] (firstClaims schedule channel db steps) := by
    have hstart : remaining schedule channel db = [] := by rw [remaining, hfresh]; rfl
    exact hstart ▸ firstClaims_deals db steps
  refine ⟨fun d hd => hdeals.mem_pool hd, ?_, fun pool hpool k hk => hdeals.window_constant hpool hk⟩
  intro before first rest after heq hfirst hrest
  rw [heq] at hdeals hpools
  obtain ⟨hand, hcycle, -⟩ := hdeals.drop List.nodup_nil fun d hd => hpools d (by simp [hd])
  have hpool : first.pool.Nodup := hpools first (by simp)
  obtain ⟨-, -, hnodup, -⟩ := hcycle.cycle hfirst hpool hrest
  refine ⟨hnodup, fun next later hafter hnext issuer hall hin => ?_⟩
  subst hafter
  exact hcycle.count_cycle hfirst hpool hrest hnext hall hin

end

/-- Claims of the day for the daily rotation of a channel, by the last figure of the day. -/
def dailyClaim (day : Char) (pool : List Str) : Step :=
  ⟨"daily".toList, "stable".toList, .claim ⟨fun _ => none, fun _ => false⟩ pool [day]⟩

theorem firstClaims_fair_twoDays :
    (∀ d ∈ firstClaims "daily".toList "stable".toList {} [dailyClaim '1' [['a'], ['b']], dailyClaim '2' [['a'], ['b']]],
      d.dealt ∈ d.pool) ∧
    (((firstClaims "daily".toList "stable".toList {}
      [dailyClaim '1' [['a'], ['b']], dailyClaim '2' [['a'], ['b']]]).drop 0).take 2).map (·.dealt) = [['a'], ['b']] := by
  have hclaims : firstClaims "daily".toList "stable".toList {} [dailyClaim '1' [['a'], ['b']], dailyClaim '2' [['a'], ['b']]] =
      [⟨[['a'], ['b']], ['a'], true⟩, ⟨[['a'], ['b']], ['b'], false⟩] := by decide +kernel
  have hfair := @firstClaims_fair "daily".toList "stable".toList {} rfl
    [dailyClaim '1' [['a'], ['b']], dailyClaim '2' [['a'], ['b']]] (by rw [hclaims]; decide)
  exact ⟨hfair.1, hfair.2.2 [['a'], ['b']] (by rw [hclaims]; decide) 0 (by rw [hclaims]; decide)⟩

/-- An issuer that is in the pool of the refill and of every later claim of the cycle, of which there is
none, is not assigned before the next refill: the pool of the claim that refills has lost it. -/
theorem firstClaims_drop_issuer : ∃ first next : Draw Str,
    firstClaims "daily".toList "stable".toList {} [dailyClaim '1' [['a'], ['b']], dailyClaim '2' [['c']]] = [first, next] ∧
    first.pool.Nodup ∧ next.pool.Nodup ∧ first.refilled = true ∧ next.refilled = true ∧
    (∀ d ∈ [first], ['b'] ∈ d.pool) ∧ ([first].map (·.dealt)).count ['b'] ≠ 1 := by
  refine ⟨⟨[['a'], ['b']], ['a'], true⟩, ⟨[['c']], ['c'], true⟩, ?_⟩
  decide +kernel

end CardRag.Rotation
