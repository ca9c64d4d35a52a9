import CardRag.Lib.Interleave
import CardRag.Runs.State

/-! # The attempts of a stage (`_finite_stage`)

A stage of a document is started, run and booked until it succeeds, fails for good or has no attempt left. The
stages of many documents run at once and share the database. `finite_stage_ends` says where each of them ends,
however they interleave, are cancelled, or fail to write: the row counts exactly the calls that were made. -/

namespace CardRag.Runs
open Interleave

/-- What is shared: the database, and how often each operation was called. -/
structure StageWorld where
  db : Db
  calls : StageKey → Nat

inductive StageOp where
  | ensureStage (maxAttempts : Nat)
  | getStage
  | stageStarted
  /-- The provider's operation. -/
  | operation
  | stageTerminalFailed (error : Str)
  | stageFailed (error : Str) (delay : ℚ)
  | stageSucceeded
  | sleep (delay : ℚ)

inductive StageReply (ε τ : Type) where
  | returned
  | row (s : Option StageRow)
  | attempt (number : Nat)
  | status (s : StageStatus)
  | result (t : τ)
  /-- The operation raised. -/
  | failed (e : ε)
  | cancelled
  /-- The state raised, and nothing was written. -/
  | refused

inductive StageFailure (ε : Type) where
  | raised (e : ε)
  | refused
  /-- `stage failure bookkeeping failed`. -/
  | bookkeeping
  /-- `WorkerUnexpectedFailureError`: the success could not be written. -/
  | unexpected
  /-- `download revalidation requires a positive finite attempt budget`. -/
  | noBudget
  | cancelled
  | hung

/-- The arguments of a stage; `terminalText` is `non_retryable_error_formatter`, and `revalidates` the exceptions
that have a `_retryable_download_revalidation_kind`. -/
structure StagePolicy (ε : Type) where
  nonRetryable : ε → Bool
  terminalText : Option (ε → Str)
  errorText : ε → Str
  revalidates : ε → Bool
  baseSeconds : ℚ
  capSeconds : ℚ

/-- `attempt` is one-based. -/
def retryDelay (attempt : Nat) (baseSeconds capSeconds : ℚ) : ℚ := min capSeconds (baseSeconds * 2 ^ (attempt - 1))

variable {ε τ : Type}

abbrev StageTask (ε τ α : Type) := ExceptT (StageFailure ε) (Prog StageOp (StageReply ε τ)) α

def StageTask.ask (op : StageOp) : StageTask ε τ (StageReply ε τ) := ExceptT.lift (Prog.ask op)

namespace StagePolicy
variable (p : StagePolicy ε)

def delay (attempt : Nat) : ℚ := retryDelay attempt p.baseSeconds p.capSeconds

/-- A failure that no attempt can mend; its row stays `running` where there is no text for it. -/
def giveUp (e : ε) : StageTask ε τ τ :=
  match p.terminalText with
  | none => throw (.raised e)
  | some text => do
    match ← StageTask.ask (.stageTerminalFailed (text e)) with
    | .returned => throw (.raised e)
    | _ => throw .bookkeeping

/-- A failure that may be tried again by `again`, after the backoff. -/
def book (attempt : Nat) (e : ε) (again : StageTask ε τ τ) : StageTask ε τ τ := do
  match ← StageTask.ask (.stageFailed (p.errorText e) (p.delay attempt)) with
  | .status .failed => throw (.raised e)
  | .status _ =>
    match ← StageTask.ask (.sleep (p.delay attempt)) with
    | .returned => again
    | _ => throw .cancelled
  | _ => throw .bookkeeping

def succeed (t : τ) : StageTask ε τ τ := do
  match ← StageTask.ask .stageSucceeded with
  | .returned => pure t
  | _ => throw .unexpected

/-- The attempt `number`, once the row has it. -/
def attempt (number : Nat) (again : StageTask ε τ τ) : StageTask ε τ τ := do
  match ← StageTask.ask .operation with
  | .result t => succeed t
  | .failed e => if p.nonRetryable e then p.giveUp e else p.book number e again
  | _ => throw .cancelled

/-- `while True`. -/
def attempts : Nat → StageTask ε τ τ
  | 0 => throw .hung
  | fuel + 1 => do
    match ← StageTask.ask .stageStarted with
    | .attempt number => p.attempt number (attempts fuel)
    | _ => throw .refused

/-- `_revalidate_download`, with the attempts that remain. -/
def revalidateDownload (maximum : Nat) : Nat → StageTask ε τ τ
  | 0 => throw .noBudget
  | remaining + 1 => do
    match ← StageTask.ask .operation with
    | .result t => pure t
    | .failed e =>
      if p.revalidates e && !p.nonRetryable e && decide (maximum - remaining < maximum) then do
        match ← StageTask.ask (.sleep (p.delay (maximum - remaining))) with
        | .returned => revalidateDownload maximum remaining
        | _ => throw .cancelled
      else throw (.raised e)
    | _ => throw .cancelled

def operate : StageTask ε τ τ := do
  match ← StageTask.ask .operation with
  | .result t => pure t
  | .failed e => throw (.raised e)
  | _ => throw .cancelled

def download : Str := "download".toList

def dispatch (name : Str) (maximum fuel : Nat) (row : Option StageRow) : StageTask ε τ τ :=
  match row with
  | none => p.attempts fuel
  | some s =>
    if s.status = .succeeded then
      if name = download then p.revalidateDownload maximum maximum else operate
    else p.attempts fuel

/-- `_finite_stage`, for a stage that is not taken from the artifacts of another run. -/
def finiteStage (name : Str) (maximum fuel : Nat) : StageTask ε τ τ := do
  match ← StageTask.ask (.ensureStage maximum) with
  | .returned =>
    match ← StageTask.ask .getStage with
    | .row row => p.dispatch name maximum fuel row
    | _ => throw .refused
  | _ => throw .refused

end StagePolicy

/-- The replies of the state, of the operation and of the event loop, at any time. -/
def serve (key : StageKey) (w : StageWorld) (op : StageOp) (r : StageReply ε τ) (w' : StageWorld) : Prop :=
  match op with
  | .ensureStage maxAttempts =>
    r = .refused ∧ w' = w ∨ r = .returned ∧ ∃ now d, w.db.ensureStage key maxAttempts now = .ok d ∧ w' = ⟨d, w.calls⟩
  | .getStage => r = .refused ∧ w' = w ∨ r = .row (w.db.getStage key) ∧ w' = w
  | .stageStarted =>
    r = .refused ∧ w' = w ∨ ∃ now n d, w.db.stageStarted key now = .ok (n, d) ∧ r = .attempt n ∧ w' = ⟨d, w.calls⟩
  | .operation =>
    (r = .cancelled ∨ (∃ t, r = .result t) ∨ ∃ e, r = .failed e) ∧
      w' = ⟨w.db, Function.update w.calls key (w.calls key + 1)⟩
  | .stageTerminalFailed error =>
    r = .refused ∧ w' = w ∨ r = .returned ∧ ∃ now d, w.db.stageTerminalFailed key error now = .ok d ∧ w' = ⟨d, w.calls⟩
  | .stageFailed error _ =>
    r = .refused ∧ w' = w ∨ ∃ availableAt now status d, w.db.stageFailed key error availableAt now = .ok (status, d) ∧
      r = .status status ∧ w' = ⟨d, w.calls⟩
  | .stageSucceeded => r = .refused ∧ w' = w ∨ r = .returned ∧ ∃ now, w' = ⟨w.db.stageSucceeded key now, w.calls⟩
  | .sleep _ => (r = .returned ∨ r = .cancelled) ∧ w' = w

/-- A stage writes its own row only. -/
def Own (key : StageKey) (w w' : StageWorld) : Prop :=
  ∀ other, other ≠ key → w'.db.getStage other = w.db.getStage other ∧ w'.calls other = w.calls other

/-- A property of a row and of the number of calls. -/
def At (key : StageKey) (φ : Option StageRow → Nat → Prop) (w : StageWorld) : Prop := φ (w.db.getStage key) (w.calls key)

theorem stable_at {key : StageKey} {φ : Option StageRow → Nat → Prop} : Stable Own key (At key φ) :=
  Stable.of_step fun j w w' hj hown h => by
    obtain ⟨hrow, hcalls⟩ := hown key (Ne.symm hj)
    unfold At
    rw [hrow, hcalls]
    exact h

namespace Db
variable {d d' : Db} {key other : StageKey} {now : Str}

theorem getStage_ensureStage {maxAttempts : Nat} (h : d.ensureStage key maxAttempts now = .ok d') :
    d' = d ∧ (maxAttempts = 0 ∨ (d.getStage key).isSome) ∨ d.getStage key = none ∧
      (∃ s, s.status = .pending ∧ s.attemptCount = 0 ∧ s.maxAttempts = maxAttempts ∧ d'.getStage key = some s) ∧
      ∀ other, other ≠ key → d'.getStage other = d.getStage other := by
  unfold ensureStage at h
  split at h
  · rename_i hold
    cases h
    exact .inl ⟨rfl, hold⟩
  · rename_i hnew
    split at h
    · cases h
    · cases h
      have hnone : d.getStage key = none := by
        simpa using fun hs => hnew (.inr hs)
      have hfind : d.stages.find? (·.key = key) = none := hnone
      refine .inr ⟨hnone, ⟨⟨key, .pending, 0, maxAttempts, now, none, now⟩, rfl, rfl, rfl, ?_⟩, fun other hother => ?_⟩
      · simp [getStage, List.find?_append, hfind]
      · simp [getStage, List.find?_append, Ne.symm hother]

theorem stageStarted_eq_ok {n : Nat} (h : d.stageStarted key now = .ok (n, d')) :
    ∃ s, d.getStage key = some s ∧ s.attemptCount < s.maxAttempts ∧
      d' = d.updateStages (·.key = key) (started (s.attemptCount + 1) now) := by
  unfold stageStarted at h
  split at h
  · cases h
  · rename_i row hrow
    split at h
    · cases h
    · rename_i hleft
      cases h
      exact ⟨row, hrow, by omega, rfl⟩

/-- A terminal failure of a running stage. -/
theorem stageTerminalFailed_eq_ok {error : Str} (h : d.stageTerminalFailed key error now = .ok d') (other : StageKey) :
    d'.getStage other = if other = key then (d.getStage key).map fun s =>
      if s.status = .running then failed .failed error now now s else s
    else d.getStage other := by
  unfold stageTerminalFailed at h
  split at h
  · cases h
    rw [getStage_updateStages (f := failed .failed error now now) fun _ => rfl]
    by_cases hother : other = key
    · subst hother
      rw [if_pos rfl]
      refine Option.map_congr fun s hs => ?_
      simp [key_of_getStage hs]
    · rw [if_neg hother]
      cases hget : d.getStage other with
      | none => rfl
      | some s => simp [key_of_getStage hget, hother]
  · cases h

theorem stageFailed_eq_ok {error availableAt : Str} {status : StageStatus}
    (h : d.stageFailed key error availableAt now = .ok (status, d')) :
    ∃ s, d.getStage key = some s ∧ status = (if s.maxAttempts ≤ s.attemptCount then .failed else .retry) ∧
      ∀ other, d'.getStage other =
        if other = key then (d.getStage key).map (failed status error availableAt now) else d.getStage other := by
  unfold stageFailed at h
  split at h
  · cases h
  · rename_i row hrow
    cases h
    exact ⟨row, hrow, rfl, getStage_update_key (f := failed _ error availableAt now) fun _ => rfl⟩

end Db

/-- Whatever the reply. -/
theorem serve_own {key : StageKey} {w w' : StageWorld} {op : StageOp} {r : StageReply ε τ} (h : serve key w op r w') :
    Own key w w' := by
  intro other hother
  cases op with
  | ensureStage maxAttempts =>
    obtain ⟨-, rfl⟩ | ⟨-, now, d, hd, rfl⟩ := h
    · exact ⟨rfl, rfl⟩
    · obtain ⟨rfl, -⟩ | ⟨-, -, hkept⟩ := Db.getStage_ensureStage hd
      · exact ⟨rfl, rfl⟩
      · exact ⟨hkept other hother, rfl⟩
  | getStage =>
    obtain ⟨-, rfl⟩ | ⟨-, rfl⟩ := h
    · exact ⟨rfl, rfl⟩
    · exact ⟨rfl, rfl⟩
  | stageStarted =>
    obtain ⟨-, rfl⟩ | ⟨now, n, d, hd, -, rfl⟩ := h
    · exact ⟨rfl, rfl⟩
    · obtain ⟨s, -, -, rfl⟩ := Db.stageStarted_eq_ok hd
      refine ⟨?_, rfl⟩
      dsimp only
      rw [Db.getStage_update_key (f := Db.started (s.attemptCount + 1) now) fun _ => rfl, if_neg hother]
  | operation =>
    obtain ⟨-, rfl⟩ := h
    exact ⟨rfl, Function.update_of_ne hother ..⟩
  | stageTerminalFailed error =>
    obtain ⟨-, rfl⟩ | ⟨-, now, d, hd, rfl⟩ := h
    · exact ⟨rfl, rfl⟩
    · exact ⟨(Db.stageTerminalFailed_eq_ok hd other).trans (if_neg hother), rfl⟩
  | stageFailed error delay =>
    obtain ⟨-, rfl⟩ | ⟨availableAt, now, status, d, hd, -, rfl⟩ := h
    · exact ⟨rfl, rfl⟩
    · obtain ⟨s, -, -, hkept⟩ := Db.stageFailed_eq_ok hd
      exact ⟨(hkept other).trans (if_neg hother), rfl⟩
  | stageSucceeded =>
    obtain ⟨-, rfl⟩ | ⟨-, now, rfl⟩ := h
    · exact ⟨rfl, rfl⟩
    · exact ⟨(Db.getStage_update_key (f := Db.succeeded now) (fun _ => rfl) other).trans (if_neg hother), rfl⟩
  | sleep delay =>
    obtain ⟨-, rfl⟩ := h
    exact ⟨rfl, rfl⟩

/-- One call, seen from its own row. -/
theorem ends_ask {key : StageKey} {op : StageOp} {φ : Option StageRow → Nat → Prop}
    {ψ : StageReply ε τ → Option StageRow → Nat → Prop} {E : StageFailure ε → StageWorld → Prop}
    (h : ∀ w r w', φ (w.db.getStage key) (w.calls key) → serve key w op r w' → ψ r (w'.db.getStage key) (w'.calls key)) :
    Ends serve Own key (At key φ) (StageTask.ask op) (fun r => At key (ψ r)) E :=
  Ends.ask stable_at (fun w r w' hφ hserve => ⟨serve_own hserve, h w r w' hφ hserve⟩) fun _ => stable_at

/-! ### Where a stage ends -/

/-- The row of a stage after `j` calls, with `c` of `m` attempts before them. -/
structure Booked (c m j : Nat) (s : StageRow) : Prop where
  count : s.attemptCount = c + j
  maximum : s.maxAttempts = m
  within : c + j ≤ m

/-- What the row says of the end of a stage. -/
def Verdict (p : StagePolicy ε) (s : StageRow) : Except (StageFailure ε) τ → Prop
  | .ok _ => s.status = .succeeded
  | .error (.raised e) =>
    if p.nonRetryable e then s.status = if p.terminalText.isSome then .failed else .running
    else s.status = .failed ∧ s.attemptCount = s.maxAttempts
  | .error .bookkeeping => s.status = .running
  | .error .unexpected => s.status = .running
  | .error .cancelled => s.status = .running ∨ s.status = .retry ∧ s.attemptCount < s.maxAttempts
  | .error .refused => True
  | .error .noBudget => False
  | .error .hung => False

/-- A stage that ended after `j` attempts, where `n` calls were made before. -/
def Ended (p : StagePolicy ε) (c m n : Nat) (r : Except (StageFailure ε) τ) (o : Option StageRow) (calls : Nat) : Prop :=
  ∃ j s, o = some s ∧ calls = n + j ∧ Booked c m j s ∧ (0 < j ∨ r = .error .refused) ∧ Verdict p s r

section
variable {p : StagePolicy ε} {key : StageKey} {c m n j : Nat}

/-- From `φ`, the task ends as `ψ` says of its result. -/
abbrev EndsWith (key : StageKey) (φ : Option StageRow → Nat → Prop) (task : StageTask ε τ τ)
    (ψ : Except (StageFailure ε) τ → Option StageRow → Nat → Prop) : Prop :=
  Ends serve Own key (At key φ) task (fun t => At key (ψ (.ok t))) fun e => At key (ψ (.error e))

namespace EndsWith
variable {φ : Option StageRow → Nat → Prop} {ψ : Except (StageFailure ε) τ → Option StageRow → Nat → Prop}

theorem throw {e : StageFailure ε} (h : ∀ o calls, φ o calls → ψ (.error e) o calls) : EndsWith key φ (throw e) ψ :=
  Ends.throw (fun _ hw => h _ _ hw) stable_at

theorem pure {t : τ} (h : ∀ o calls, φ o calls → ψ (.ok t) o calls) : EndsWith key φ (Pure.pure t) ψ :=
  Ends.pure (fun _ hw => h _ _ hw) stable_at

theorem ask {op : StageOp} {χ : StageReply ε τ → Option StageRow → Nat → Prop} {f : StageReply ε τ → StageTask ε τ τ}
    (h : ∀ w r w', φ (w.db.getStage key) (w.calls key) → serve key w op r w' → χ r (w'.db.getStage key) (w'.calls key))
    (hf : ∀ r, EndsWith key (χ r) (f r) ψ) : EndsWith key φ (StageTask.ask op >>= f) ψ :=
  Ends.bind (ends_ask h) hf fun _ => stable_at

/-- No world meets the precondition. -/
theorem never {task : StageTask ε τ τ} (h : ∀ o calls, ¬ φ o calls) : EndsWith key φ task ψ :=
  fun _ hw => (h _ _ hw).elim

end EndsWith

/-- The row of a stage with status `status`, after `j` calls. -/
def Standing (c m n j : Nat) (status : StageStatus → Prop) (o : Option StageRow) (calls : Nat) : Prop :=
  ∃ s, o = some s ∧ calls = n + j ∧ Booked c m j s ∧ status s.status

theorem succeed_ends (hj : 0 < j) (t : τ) :
    EndsWith key (Standing c m n j (· = .running)) (StagePolicy.succeed (ε := ε) t) (Ended p c m n) := by
  refine EndsWith.ask (χ := fun r o calls => r = .returned ∧ Standing c m n j (· = .succeeded) o calls ∨
    r = .refused ∧ Standing c m n j (· = .running) o calls) ?_ fun r => ?_
  · rintro w r w' ⟨s, hs, hcalls, hb, hstatus⟩ (⟨rfl, rfl⟩ | ⟨rfl, now, rfl⟩)
    · exact .inr ⟨rfl, s, hs, hcalls, hb, hstatus⟩
    · refine .inl ⟨rfl, Db.succeeded now s, ?_, hcalls, ⟨hb.count, hb.maximum, hb.within⟩, rfl⟩
      dsimp only
      rw [Db.stageSucceeded, Db.getStage_update_key (f := Db.succeeded now) fun _ => rfl, if_pos rfl, hs]
      rfl
  · cases r with
    | returned =>
      refine EndsWith.pure ?_
      rintro o calls (⟨-, s, hs, hcalls, hb, hstatus⟩ | ⟨h, -⟩)
      · exact ⟨j, s, hs, hcalls, hb, .inl hj, hstatus⟩
      · cases h
    | refused =>
      refine EndsWith.throw ?_
      rintro o calls (⟨h, -⟩ | ⟨-, s, hs, hcalls, hb, hstatus⟩)
      · cases h
      · exact ⟨j, s, hs, hcalls, hb, .inl hj, hstatus⟩
    | _ => exact EndsWith.never (by rintro o calls (⟨h, -⟩ | ⟨h, -⟩) <;> cases h)

theorem giveUp_ends {e : ε} (hj : 0 < j) (he : p.nonRetryable e = true) :
    EndsWith key (Standing c m n j (· = .running)) (p.giveUp (τ := τ) e) (Ended p c m n) := by
  unfold StagePolicy.giveUp
  split
  · rename_i htext
    refine EndsWith.throw ?_
    rintro o calls ⟨s, hs, hcalls, hb, hstatus⟩
    exact ⟨j, s, hs, hcalls, hb, .inl hj, by simp [Verdict, he, htext, hstatus]⟩
  · rename_i text htext
    refine EndsWith.ask (χ := fun r o calls => r = .returned ∧ Standing c m n j (· = .failed) o calls ∨
      r = .refused ∧ Standing c m n j (· = .running) o calls) ?_ fun r => ?_
    · rintro w r w' ⟨s, hs, hcalls, hb, hstatus⟩ (⟨rfl, rfl⟩ | ⟨rfl, now, d, hd, rfl⟩)
      · exact .inr ⟨rfl, s, hs, hcalls, hb, hstatus⟩
      · refine .inl ⟨rfl, Db.failed .failed (text e) now now s, ?_, hcalls, ⟨hb.count, hb.maximum, hb.within⟩, rfl⟩
        dsimp only
        rw [Db.stageTerminalFailed_eq_ok hd, if_pos rfl, hs, Option.map_some, if_pos hstatus]
    · cases r with
      | returned =>
        refine EndsWith.throw ?_
        rintro o calls (⟨-, s, hs, hcalls, hb, hstatus⟩ | ⟨h, -⟩)
        · exact ⟨j, s, hs, hcalls, hb, .inl hj, by simp [Verdict, he, htext, hstatus]⟩
        · cases h
      | refused =>
        refine EndsWith.throw ?_
        rintro o calls (⟨h, -⟩ | ⟨-, s, hs, hcalls, hb, hstatus⟩)
        · cases h
        · exact ⟨j, s, hs, hcalls, hb, .inl hj, hstatus⟩
      | _ => exact EndsWith.never (by rintro o calls (⟨h, -⟩ | ⟨h, -⟩) <;> cases h)

/-- After a failure the stage has no attempt left, or goes on with `again`. -/
theorem book_ends {e : ε} {number : Nat} {again : StageTask ε τ τ} (hj : 0 < j) (he : p.nonRetryable e = false)
    (hagain : c + j < m → EndsWith key (Standing c m n j fun _ => True) again (Ended p c m n)) :
    EndsWith key (Standing c m n j (· = .running)) (p.book number e again) (Ended p c m n) := by
  refine EndsWith.ask (χ := fun r o calls => r = .status .failed ∧ c + j = m ∧ Standing c m n j (· = .failed) o calls ∨
    r = .status .retry ∧ c + j < m ∧ Standing c m n j (· = .retry) o calls ∨
    r = .refused ∧ Standing c m n j (· = .running) o calls) ?_ fun r => ?_
  · rintro w r w' ⟨s, hs, hcalls, hb, hstatus⟩ (⟨rfl, rfl⟩ | ⟨availableAt, now, status, d, hd, rfl, rfl⟩)
    · exact .inr (.inr ⟨rfl, s, hs, hcalls, hb, hstatus⟩)
    · obtain ⟨s', hs', hverdict, hrow⟩ := Db.stageFailed_eq_ok hd
      cases hs.symm.trans hs'
      have hrow' : d.getStage key = some (Db.failed status (p.errorText e) availableAt now s) := by
        rw [hrow, if_pos rfl, hs]
        rfl
      rw [hb.count, hb.maximum] at hverdict
      have hbooked : Booked c m j (Db.failed status (p.errorText e) availableAt now s) := ⟨hb.count, hb.maximum, hb.within⟩
      split at hverdict
      · rename_i hfull
        exact .inl ⟨by rw [hverdict], le_antisymm hb.within hfull, _, hrow', hcalls, hbooked, hverdict⟩
      · rename_i hleft
        exact .inr (.inl ⟨by rw [hverdict], Nat.lt_of_not_le hleft, _, hrow', hcalls, hbooked, hverdict⟩)
  · cases r with
    | status s =>
      cases s with
      | failed =>
        refine EndsWith.throw ?_
        rintro o calls (⟨-, hfull, s, hs, hcalls, hb, hstatus⟩ | ⟨h, -⟩ | ⟨h, -⟩)
        · exact ⟨j, s, hs, hcalls, hb, .inl hj, by simp [Verdict, he, hstatus, hb.count, hb.maximum, hfull]⟩
        · cases h
        · cases h
      | retry =>
        -- The backoff changes nothing.
        refine EndsWith.ask (χ := fun r o calls => (r = .returned ∨ r = .cancelled) ∧ c + j < m ∧
          Standing c m n j (· = .retry) o calls) ?_ fun r => ?_
        · rintro w r w' (⟨h, -⟩ | ⟨-, hleft, hstanding⟩ | ⟨h, -⟩) ⟨hr, rfl⟩
          · cases h
          · exact ⟨hr, hleft, hstanding⟩
          · cases h
        · cases r with
          | returned =>
            by_cases hleft : c + j < m
            · refine Ends.conseq (hagain hleft) ?_ (fun _ _ h => h) fun _ _ h => h
              rintro w ⟨-, -, s, hs, hcalls, hb, -⟩
              exact ⟨s, hs, hcalls, hb, trivial⟩
            · exact EndsWith.never fun o calls h => hleft h.2.1
          | cancelled =>
            refine EndsWith.throw ?_
            rintro o calls ⟨-, hleft, s, hs, hcalls, hb, hstatus⟩
            exact ⟨j, s, hs, hcalls, hb, .inl hj, .inr ⟨hstatus, by rw [hb.count, hb.maximum]; exact hleft⟩⟩
          | _ => exact EndsWith.never (by rintro o calls ⟨h | h, -⟩ <;> cases h)
      | _ => exact EndsWith.never (by rintro o calls (⟨h, -⟩ | ⟨h, -⟩ | ⟨h, -⟩) <;> cases h)
    | refused =>
      refine EndsWith.throw ?_
      rintro o calls (⟨h, -⟩ | ⟨h, -⟩ | ⟨-, s, hs, hcalls, hb, hstatus⟩)
      · cases h
      · cases h
      · exact ⟨j, s, hs, hcalls, hb, .inl hj, hstatus⟩
    | _ => exact EndsWith.never (by rintro o calls (⟨h, -⟩ | ⟨h, -⟩ | ⟨h, -⟩) <;> cases h)

/-- The row has its next attempt, which is not called yet. -/
def Started (c m n j : Nat) (o : Option StageRow) (calls : Nat) : Prop :=
  ∃ s, o = some s ∧ calls = n + j ∧ Booked c m (j + 1) s ∧ s.status = .running

theorem attempt_ends {number : Nat} {again : StageTask ε τ τ}
    (hagain : c + (j + 1) < m → EndsWith key (Standing c m n (j + 1) fun _ => True) again (Ended p c m n)) :
    EndsWith key (Started c m n j) (p.attempt number again) (Ended p c m n) := by
  refine EndsWith.ask (χ := fun r o calls => (r = .cancelled ∨ (∃ t, r = .result t) ∨ ∃ e, r = .failed e) ∧
    Standing c m n (j + 1) (· = .running) o calls) ?_ fun r => ?_
  · rintro w r w' ⟨s, hs, hcalls, hb, hstatus⟩ ⟨hr, rfl⟩
    refine ⟨hr, s, hs, ?_, hb, hstatus⟩
    dsimp only
    rw [Function.update_self, hcalls, Nat.add_assoc]
  · cases r with
    | result t =>
      exact Ends.conseq (succeed_ends (Nat.succ_pos j) t) (fun w h => h.2) (fun _ _ h => h) fun _ _ h => h
    | failed e =>
      dsimp only
      split
      · rename_i he
        exact Ends.conseq (giveUp_ends (Nat.succ_pos j) he) (fun w h => h.2) (fun _ _ h => h) fun _ _ h => h
      · rename_i he
        exact Ends.conseq (book_ends (Nat.succ_pos j) (by simpa using he) hagain) (fun w h => h.2) (fun _ _ h => h)
          fun _ _ h => h
    | cancelled =>
      refine EndsWith.throw ?_
      rintro o calls ⟨-, s, hs, hcalls, hb, hstatus⟩
      exact ⟨j + 1, s, hs, hcalls, hb, .inl (Nat.succ_pos j), .inl hstatus⟩
    | _ => exact EndsWith.never (by rintro o calls ⟨h | ⟨t, h⟩ | ⟨e, h⟩, -⟩ <;> cases h)

/-- The loop, by the attempts that are left: it never runs dry. -/
theorem attempts_ends {fuel : Nat} (hfuel : m - (c + j) < fuel) :
    EndsWith key (Standing c m n j fun _ => True) (p.attempts (τ := τ) fuel) (Ended p c m n) := by
  induction fuel generalizing j with
  | zero => exact absurd hfuel (Nat.not_lt_zero _)
  | succ fuel ih =>
    refine EndsWith.ask (χ := fun r o calls => (∃ number, r = .attempt number) ∧ c + j < m ∧ Started c m n j o calls ∨
      r = .refused ∧ Standing c m n j (fun _ => True) o calls) ?_ fun r => ?_
    · rintro w r w' ⟨s, hs, hcalls, hb, -⟩ (⟨rfl, rfl⟩ | ⟨now, number, d, hd, rfl, rfl⟩)
      · exact .inr ⟨rfl, s, hs, hcalls, hb, trivial⟩
      · obtain ⟨s', hs', hleft, rfl⟩ := Db.stageStarted_eq_ok hd
        cases hs.symm.trans hs'
        rw [hb.count, hb.maximum] at hleft
        refine .inl ⟨⟨number, rfl⟩, hleft, Db.started (s.attemptCount + 1) now s, ?_, hcalls, ⟨?_, hb.maximum, hleft⟩, rfl⟩
        · dsimp only
          rw [Db.getStage_update_key (f := Db.started (s.attemptCount + 1) now) fun _ => rfl, if_pos rfl, hs]
          rfl
        · exact congrArg (· + 1) hb.count
    · cases r with
      | attempt number =>
        by_cases hleft : c + j < m
        · have hnext : m - (c + (j + 1)) < fuel := by omega
          refine Ends.conseq (attempt_ends fun _ => ih hnext) ?_ (fun _ _ h => h) fun _ _ h => h
          rintro w (⟨-, -, h⟩ | ⟨h, -⟩)
          · exact h
          · cases h
        · refine EndsWith.never ?_
          rintro o calls (⟨-, h, -⟩ | ⟨h, -⟩)
          · exact hleft h
          · cases h
      | refused =>
        refine EndsWith.throw ?_
        rintro o calls (⟨⟨_, h⟩, -⟩ | ⟨-, s, hs, hcalls, hb, -⟩)
        · cases h
        · exact ⟨j, s, hs, hcalls, hb, .inr rfl, trivial⟩
      | _ => exact EndsWith.never (by rintro o calls (⟨⟨_, h⟩, -⟩ | ⟨h, -⟩) <;> cases h)

/-- A stage that has succeeded before: its row stays as it is. -/
def Repeated (s : StageRow) (limit n : Nat) (r : Except (StageFailure ε) τ) (o : Option StageRow) (calls : Nat) : Prop :=
  ∃ j, o = some s ∧ calls = n + j ∧ j ≤ limit ∧
    match r with
    | .ok _ => 0 < j
    | .error (.raised _) => 0 < j
    | .error .cancelled => 0 < j
    | .error .noBudget => limit = 0
    | .error .refused => j = 0
    | .error _ => False

variable {s : StageRow}

theorem operate_ends : EndsWith key (fun o calls => o = some s ∧ calls = n) (StagePolicy.operate (ε := ε) (τ := τ))
    (Repeated s 1 n) := by
  refine EndsWith.ask (χ := fun r o calls => (r = .cancelled ∨ (∃ t, r = .result t) ∨ ∃ e, r = .failed e) ∧
    o = some s ∧ calls = n + 1) ?_ fun r => ?_
  · rintro w r w' ⟨hs, hcalls⟩ ⟨hr, rfl⟩
    exact ⟨hr, hs, by dsimp only; rw [Function.update_self, hcalls]⟩
  · cases r with
    | result t => exact EndsWith.pure fun o calls h => ⟨1, h.2.1, h.2.2, le_rfl, Nat.one_pos⟩
    | failed e => exact EndsWith.throw fun o calls h => ⟨1, h.2.1, h.2.2, le_rfl, Nat.one_pos⟩
    | cancelled => exact EndsWith.throw fun o calls h => ⟨1, h.2.1, h.2.2, le_rfl, Nat.one_pos⟩
    | _ => exact EndsWith.never (by rintro o calls ⟨h | ⟨t, h⟩ | ⟨e, h⟩, -⟩ <;> cases h)

/-- `remaining` of the attempts are left, and the last one never waits for another. -/
theorem revalidateDownload_ends {maximum remaining : Nat} (hj : j + remaining = maximum)
    (hpos : remaining = 0 → maximum = 0) :
    EndsWith key (fun o calls => o = some s ∧ calls = n + j) (p.revalidateDownload (τ := τ) maximum remaining)
      (Repeated s maximum n) := by
  induction remaining generalizing j with
  | zero =>
    have hzero := hpos rfl
    exact EndsWith.throw fun o calls h => ⟨j, h.1, h.2, by omega, hzero⟩
  | succ remaining ih =>
    have hlimit : j + 1 ≤ maximum := by omega
    refine EndsWith.ask (χ := fun r o calls => (r = .cancelled ∨ (∃ t, r = .result t) ∨ ∃ e, r = .failed e) ∧
      o = some s ∧ calls = n + (j + 1)) ?_ fun r => ?_
    · rintro w r w' ⟨hs, hcalls⟩ ⟨hr, rfl⟩
      exact ⟨hr, hs, by dsimp only; rw [Function.update_self, hcalls, Nat.add_assoc]⟩
    · cases r with
      | result t => exact EndsWith.pure fun o calls h => ⟨j + 1, h.2.1, h.2.2, hlimit, Nat.succ_pos j⟩
      | failed e =>
        dsimp only
        split
        · rename_i hagain
          simp only [Bool.and_eq_true, decide_eq_true_eq] at hagain
          refine EndsWith.ask (χ := fun r o calls => (r = .returned ∨ r = .cancelled) ∧ o = some s ∧ calls = n + (j + 1))
            ?_ fun r => ?_
          · rintro w r w' ⟨-, hs, hcalls⟩ ⟨hr, rfl⟩
            exact ⟨hr, hs, hcalls⟩
          · cases r with
            | returned =>
              refine Ends.conseq (ih (by omega) fun h => ?_) (fun w h => h.2) (fun _ _ h => h) fun _ _ h => h
              omega
            | cancelled => exact EndsWith.throw fun o calls h => ⟨j + 1, h.2.1, h.2.2, hlimit, Nat.succ_pos j⟩
            | _ => exact EndsWith.never (by rintro o calls ⟨h | h, -⟩ <;> cases h)
        · exact EndsWith.throw fun o calls h => ⟨j + 1, h.2.1, h.2.2, hlimit, Nat.succ_pos j⟩
      | cancelled => exact EndsWith.throw fun o calls h => ⟨j + 1, h.2.1, h.2.2, hlimit, Nat.succ_pos j⟩
      | _ => exact EndsWith.never (by rintro o calls ⟨h | ⟨t, h⟩ | ⟨e, h⟩, -⟩ <;> cases h)

/-- Where a stage ends that had the row `old`, and `n` calls before. -/
def Outcome (p : StagePolicy ε) (name : Str) (maximum : Nat) (old : Option StageRow) (n : Nat)
    (r : Except (StageFailure ε) τ) (o : Option StageRow) (calls : Nat) : Prop :=
  match old with
  | none => r = .error .refused ∧ o = none ∧ calls = n ∨ Ended p 0 maximum n r o calls
  | some s =>
    if s.status = .succeeded then Repeated s (if name = StagePolicy.download then maximum else 1) n r o calls
    else Ended p s.attemptCount s.maxAttempts n r o calls

/-- The row once it is ensured: the old one, or a new one where there was none. -/
def Ensured (maximum : Nat) (old o : Option StageRow) : Prop :=
  o = old ∧ (old = none → maximum = 0) ∨
    old = none ∧ ∃ s, s.status = .pending ∧ s.attemptCount = 0 ∧ s.maxAttempts = maximum ∧ o = some s

variable {name : Str} {maximum fuel : Nat} {old o : Option StageRow}

theorem outcome_refused (hold : ∀ s, old = some s → s.attemptCount ≤ s.maxAttempts) (h : o = old ∨ Ensured maximum old o) :
    Outcome (τ := τ) p name maximum old n (.error .refused) o n := by
  cases old with
  | none =>
    obtain rfl | ⟨rfl, -⟩ | ⟨-, s, -, hcount, hmax, rfl⟩ := h
    · exact .inl ⟨rfl, rfl, rfl⟩
    · exact .inl ⟨rfl, rfl, rfl⟩
    · exact .inr ⟨0, s, rfl, rfl, ⟨hcount, hmax, Nat.zero_le _⟩, .inr rfl, trivial⟩
  | some s =>
    have ho : o = some s := by
      obtain rfl | ⟨rfl, -⟩ | ⟨h, -⟩ := h
      · rfl
      · rfl
      · cases h
    by_cases hstatus : s.status = .succeeded
    · simp only [Outcome, hstatus, if_true]
      exact ⟨0, ho, rfl, Nat.zero_le _, rfl⟩
    · simp only [Outcome, hstatus, if_false]
      exact ⟨0, s, ho, rfl, ⟨rfl, rfl, hold s rfl⟩, .inr rfl, trivial⟩

theorem attempts_none : EndsWith key (fun o calls => o = none ∧ calls = n) (p.attempts (τ := τ) (fuel + 1))
    (fun r o calls => r = .error .refused ∧ o = none ∧ calls = n) := by
  refine EndsWith.ask (χ := fun r o calls => r = .refused ∧ o = none ∧ calls = n) ?_ fun r => ?_
  · rintro w r w' ⟨hs, hcalls⟩ (⟨rfl, rfl⟩ | ⟨now, number, d, hd, -⟩)
    · exact ⟨rfl, hs, hcalls⟩
    · obtain ⟨s, hs', -⟩ := Db.stageStarted_eq_ok hd
      cases hs.symm.trans hs'
  · cases r with
    | refused => exact EndsWith.throw fun o calls h => ⟨rfl, h.2⟩
    | _ => exact EndsWith.never (by rintro o calls ⟨h, -⟩; cases h)

theorem dispatch_ends (hold : ∀ s, old = some s → s.attemptCount ≤ s.maxAttempts ∧ s.maxAttempts < fuel)
    (hfuel : maximum < fuel) (he : Ensured maximum old o) :
    EndsWith key (fun o' calls => o' = o ∧ calls = n) (p.dispatch (τ := τ) name maximum fuel o)
      (Outcome p name maximum old n) := by
  obtain ⟨rfl, hzero⟩ | ⟨rfl, s, hstatus, hcount, hmax, rfl⟩ := he
  · cases o with
    | none =>
      obtain ⟨fuel, rfl⟩ := Nat.exists_eq_succ_of_ne_zero (Nat.ne_zero_of_lt hfuel)
      exact Ends.conseq attempts_none (fun _ h => h) (fun _ _ h => .inl h) fun _ _ h => .inl h
    | some s =>
      obtain ⟨hwithin, hleft⟩ := hold s rfl
      unfold StagePolicy.dispatch Outcome
      by_cases hstatus : s.status = .succeeded
      · simp only [hstatus, if_true]
        by_cases hname : name = StagePolicy.download
        · simp only [hname, if_true]
          exact revalidateDownload_ends (j := 0) (Nat.zero_add _) id
        · simp only [hname, if_false]
          exact operate_ends
      · simp only [hstatus, if_false]
        refine Ends.conseq (attempts_ends (c := s.attemptCount) (m := s.maxAttempts) (n := n) (j := 0) (by omega)) ?_
          (fun _ _ h => h) fun _ _ h => h
        rintro w ⟨hs, hcalls⟩
        exact ⟨s, hs, hcalls, ⟨rfl, rfl, hwithin⟩, trivial⟩
  · have hne : s.status ≠ .succeeded := by simp [hstatus]
    simp only [StagePolicy.dispatch, hne, if_false]
    refine Ends.conseq (attempts_ends (c := 0) (m := maximum) (n := n) (j := 0) (by omega)) ?_
      (fun _ _ h => .inr h) fun _ _ h => .inr h
    rintro w ⟨hs, hcalls⟩
    exact ⟨s, hs, hcalls, ⟨hcount, hmax, Nat.zero_le _⟩, trivial⟩

theorem finiteStage_ends (hold : ∀ s, old = some s → s.attemptCount ≤ s.maxAttempts ∧ s.maxAttempts < fuel)
    (hfuel : maximum < fuel) :
    EndsWith key (fun o calls => o = old ∧ calls = n) (p.finiteStage (τ := τ) name maximum fuel)
      (Outcome p name maximum old n) := by
  have hwithin : ∀ s, old = some s → s.attemptCount ≤ s.maxAttempts := fun s hs => (hold s hs).1
  refine EndsWith.ask (χ := fun r o calls => (r = .refused ∧ o = old ∨ r = .returned ∧ Ensured maximum old o) ∧ calls = n)
    ?_ fun r => ?_
  · rintro w r w' ⟨hs, hcalls⟩ (⟨rfl, rfl⟩ | ⟨rfl, now, d, hd, rfl⟩)
    · exact ⟨.inl ⟨rfl, hs⟩, hcalls⟩
    · obtain ⟨rfl, hkept⟩ | ⟨hnone, hnew, -⟩ := Db.getStage_ensureStage hd
      · refine ⟨.inr ⟨rfl, .inl ⟨hs, fun hnone => ?_⟩⟩, hcalls⟩
        rw [hs, hnone] at hkept
        simpa using hkept
      · exact ⟨.inr ⟨rfl, .inr ⟨hs.symm.trans hnone, hnew⟩⟩, hcalls⟩
  · cases r with
    | returned =>
      refine EndsWith.ask (χ := fun r o calls => (r = .refused ∨ r = .row o) ∧ Ensured maximum old o ∧ calls = n)
        ?_ fun r => ?_
      · rintro w r w' ⟨⟨h, -⟩ | ⟨-, he⟩, hcalls⟩ (⟨rfl, rfl⟩ | ⟨rfl, rfl⟩)
        · cases h
        · cases h
        · exact ⟨.inl rfl, he, hcalls⟩
        · exact ⟨.inr rfl, he, hcalls⟩
      · cases r with
        | row o =>
          by_cases he : Ensured maximum old o
          · refine Ends.conseq (dispatch_ends hold hfuel he) ?_ (fun _ _ h => h) fun _ _ h => h
            rintro w ⟨h | h, -, hcalls⟩
            · cases h
            · cases h
              exact ⟨rfl, hcalls⟩
          · refine EndsWith.never ?_
            rintro o' calls ⟨h | h, he', -⟩
            · cases h
            · cases h
              exact he he'
        | refused =>
          refine EndsWith.throw ?_
          rintro o calls ⟨-, he, rfl⟩
          exact outcome_refused hwithin (.inr he)
        | _ => exact EndsWith.never (by rintro o calls ⟨h | h, -⟩ <;> cases h)
    | refused =>
      refine EndsWith.throw ?_
      rintro o calls ⟨⟨-, ho⟩ | ⟨h, -⟩, rfl⟩
      · exact outcome_refused hwithin (.inl ho)
      · cases h
    | _ => exact EndsWith.never (by rintro o calls ⟨⟨h, -⟩ | ⟨h, -⟩, -⟩ <;> cases h)

end

/-! ### All stages -/

/-- What the pipeline runs for a stage. -/
structure StageCall (ε τ : Type) where
  policy : StagePolicy ε
  maximum : Nat
  fuel : Nat
  /-- `execution_plan.skips("structure")`: what the artifacts of the other run come to. -/
  reuse : Option (Except ε τ)

namespace StageCall
variable (call : StageCall ε τ)

/-- What a stage takes from another run. -/
def reused (name : Str) : Option (Except ε τ) :=
  if name ∈ ["structure".toList, "views".toList] then call.reuse else none

def task (key : StageKey) : Prog StageOp (StageReply ε τ) (Except (StageFailure ε) τ) :=
  match call.reused key.stageName with
  | some r => .done (r.mapError .raised)
  | none => (call.policy.finiteStage key.stageName call.maximum call.fuel).run

/-- Where a stage ends: one that is taken from another run touches neither its row nor its operation. -/
def Ends (name : Str) (old : Option StageRow) (n : Nat) (r : Except (StageFailure ε) τ) (o : Option StageRow) (calls : Nat) :
    Prop :=
  match call.reused name with
  | some q => r = q.mapError .raised ∧ o = old ∧ calls = n
  | none => Outcome call.policy name call.maximum old n r o calls

end StageCall

abbrev StageConfig (ε τ : Type) := Config StageOp (StageReply ε τ) (Except (StageFailure ε) τ) StageWorld StageKey

/-- The stages of `tasks` run from a database with any history; the others are idle. Wherever the run has got to, a
stage that is over has kept to its budget, its row tells how it ended, and the loop has not run dry. -/
theorem finite_stage_ends (ops : List (Str × Op)) {c c' : StageConfig ε τ}
    (tasks : StageKey → Option (StageCall ε τ)) {idle : Except (StageFailure ε) τ}
    (hdb : c.world.db = (runFrom History.step .empty ops).db)
    (hprogs : ∀ key, c.progs key = (tasks key).elim (.done idle) (·.task key))
    (hfuel : ∀ key call, tasks key = some call →
      call.maximum < call.fuel ∧ ∀ s, c.world.db.getStage key = some s → s.maxAttempts < call.fuel)
    (hreach : Reaches serve c c') {key : StageKey} {call : StageCall ε τ} (hkey : tasks key = some call)
    {r : Except (StageFailure ε) τ} (hdone : c'.progs key = .done r) :
    call.Ends key.stageName (c.world.db.getStage key) (c.world.calls key) r (c'.world.db.getStage key) (c'.world.calls key) := by
  have hrows : ∀ key s, c.world.db.getStage key = some s → s.attemptCount ≤ s.maxAttempts := by
    intro key s hs
    have hacc := accounted_run ops key
    rw [← hdb] at hacc
    simp only [Db.budget, hs, Option.map_some] at hacc
    exact hacc.within
  have hwp (key : StageKey) : Wp serve Own key (c.progs key) (fun r w => ∀ call, tasks key = some call →
      call.Ends key.stageName (c.world.db.getStage key) (c.world.calls key) r (w.db.getStage key) (w.calls key)) c.world := by
    rw [hprogs key]
    cases htask : tasks key with
    | none =>
      intro w _ call h
      cases h
    | some call =>
      rw [Option.elim_some, StageCall.task]
      cases hreuse : call.reused key.stageName with
      | some q =>
        intro w hrely call' h
        cases h
        rw [StageCall.Ends, hreuse]
        exact ⟨rfl, (stable_at c.world w ⟨rfl, rfl⟩ hrely :
          At key (fun o calls => o = c.world.db.getStage key ∧ calls = c.world.calls key) w)⟩
      | none =>
        refine (finiteStage_ends (fun s hs => ⟨hrows key s hs, (hfuel key call htask).2 s hs⟩) (hfuel key call htask).1
          c.world ⟨rfl, rfl⟩).mono fun r w hr => ?_
        rintro call' h
        cases h
        rw [StageCall.Ends, hreuse]
        cases r with
        | ok t => exact hr
        | error e => exact hr
  have hend := (Wp.reachable hwp hreach).1 key
  rw [hdone] at hend
  exact hend.result call hkey

/-! The OCR of one document, whose first attempt fails, beside the structure of another one. -/

def ocrKey : StageKey := ⟨"r".toList, "d".toList, "ocr".toList⟩

def structureKey : StageKey := ⟨"r".toList, "e".toList, "structure".toList⟩

def plainCall : StageCall Unit Unit := ⟨⟨fun _ => false, none, fun _ => [], fun _ => false, 1, 30⟩, 4, 5, none⟩

def twoTasks (key : StageKey) : Option (StageCall Unit Unit) :=
  if key = ocrKey ∨ key = structureKey then some plainCall else none

def twoStart : StageConfig Unit Unit where
  world := ⟨(runFrom History.step .empty [([], .startRun ocrKey.runId)]).db, fun _ => 0⟩
  progs key := (twoTasks key).elim (.done (.error .cancelled)) (·.task key)

theorem twoTasks_fuel (key : StageKey) (call : StageCall Unit Unit) (h : twoTasks key = some call) :
    call.maximum < call.fuel ∧ ∀ s, twoStart.world.db.getStage key = some s → s.maxAttempts < call.fuel := by
  obtain ⟨-, heq⟩ := Option.ite_none_right_eq_some.1 h
  cases heq
  refine ⟨by decide, fun s hs => ?_⟩
  cases hs

/-- The state never raises, and the first call of the OCR fails. -/
def answerStage (key : StageKey) (w : StageWorld) : StageOp → StageReply Unit Unit × StageWorld
  | .ensureStage maxAttempts =>
    match w.db.ensureStage key maxAttempts [] with
    | .ok d => (.returned, ⟨d, w.calls⟩)
    | .error _ => (.refused, w)
  | .getStage => (.row (w.db.getStage key), w)
  | .stageStarted =>
    match w.db.stageStarted key [] with
    | .ok (n, d) => (.attempt n, ⟨d, w.calls⟩)
    | .error _ => (.refused, w)
  | .operation => (if key = ocrKey ∧ w.calls key = 0 then .failed () else .result (),
      ⟨w.db, Function.update w.calls key (w.calls key + 1)⟩)
  | .stageTerminalFailed _ => (.refused, w)
  | .stageFailed error _ =>
    match w.db.stageFailed key error [] [] with
    | .ok (status, d) => (.status status, ⟨d, w.calls⟩)
    | .error _ => (.refused, w)
  | .stageSucceeded => (.returned, ⟨w.db.stageSucceeded key [], w.calls⟩)
  | .sleep _ => (.returned, w)

theorem serve_answerStage (key : StageKey) (w : StageWorld) (op : StageOp) :
    serve key w op (answerStage key w op).1 (answerStage key w op).2 := by
  cases op with
  | ensureStage maxAttempts =>
    simp only [answerStage, serve]
    split
    · exact .inr ⟨rfl, [], _, ‹_›, rfl⟩
    · exact .inl ⟨rfl, rfl⟩
  | getStage => exact .inr ⟨rfl, rfl⟩
  | stageStarted =>
    simp only [answerStage, serve]
    split
    · exact .inr ⟨[], _, _, ‹_›, rfl, rfl⟩
    · exact .inl ⟨rfl, rfl⟩
  | operation =>
    refine ⟨.inr ?_, rfl⟩
    simp only [answerStage]
    split
    · exact .inr ⟨(), rfl⟩
    · exact .inl ⟨(), rfl⟩
  | stageTerminalFailed error => exact .inl ⟨rfl, rfl⟩
  | stageFailed error delay =>
    simp only [answerStage, serve]
    split
    · exact .inr ⟨[], [], _, _, ‹_›, rfl, rfl⟩
    · exact .inl ⟨rfl, rfl⟩
  | stageSucceeded => exact .inr ⟨rfl, [], rfl⟩
  | sleep delay => exact ⟨.inl rfl, rfl⟩

/-- The structure is read and built while the OCR fails, waits and is called again. -/
def twoEnd : StageConfig Unit Unit :=
  twoStart.turns answerStage [ocrKey, structureKey, ocrKey, structureKey, ocrKey, ocrKey, structureKey, ocrKey, structureKey,
    ocrKey, ocrKey, structureKey, ocrKey, ocrKey]

theorem finite_stage_ends_retried : twoEnd.world.calls ocrKey = 2 ∧ twoEnd.world.calls structureKey = 1 ∧
    plainCall.Ends ocrKey.stageName none 0 (.ok ()) (twoEnd.world.db.getStage ocrKey) (twoEnd.world.calls ocrKey) ∧
    plainCall.Ends structureKey.stageName none 0 (.ok ()) (twoEnd.world.db.getStage structureKey)
      (twoEnd.world.calls structureKey) := by
  have hreach : Reaches serve twoStart twoEnd := reaches_turns serve_answerStage _ _
  refine ⟨by decide, by decide, ?_, ?_⟩
  · exact finite_stage_ends [([], .startRun ocrKey.runId)] twoTasks rfl (fun _ => rfl) twoTasks_fuel hreach
      (if_pos (.inl rfl)) rfl
  · exact finite_stage_ends [([], .startRun ocrKey.runId)] twoTasks rfl (fun _ => rfl) twoTasks_fuel hreach
      (if_pos (.inr rfl)) rfl

end CardRag.Runs
