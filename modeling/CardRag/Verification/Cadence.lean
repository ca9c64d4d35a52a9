import CardRag.Lib.Runs
import CardRag.Verification.Policy

/-! # When a full audit is due

`Course` is the history that the counters of an audit stand for: the runs that finished since the last
completed audit, the runs that completed one, and what was added to each counter. A run that has recorded
its status and then stops is counted when the next run begins; until then the course is `awaiting` it. -/

namespace CardRag.Verification

open Publish (Path)

structure Course where
  /-- The runs that finished without an audit since the last completed audit. -/
  finished : Finset Str := ∅
  audited : Finset Str := ∅
  /-- The current run has recorded its status, and `finish_run` is still to come. -/
  awaiting : Bool := false
  /-- One for each time that `audit.runs` grew. -/
  counts : List Str := []
  /-- One for each time that `audit.new_bytes` grew. -/
  added : List (Path × Nat) := []

namespace State

variable (s : State)

def record (runId : Str) : Option RunRecord := PyList.get? s.store.runs (s.policy.scope, s.policy.channel, runId)

def isFinished (runId : Str) : Bool := (PyList.get? s.store.status runId).any RunStatus.finished

def epoch : Str := s.policy.audit.epoch

/-- The runs that an event counts. -/
def counted : Event → List Str
  | .begin b => ((opened s.store b).store.runs.filter (opened s.store b).uncounted).map (·.1.2.2)
  | .finish => if s.runRecord.any fun r => r.counted || r.auditCompleted then [] else [s.policy.runId]
  | _ => []

/-- What an event adds to the new bytes. -/
def added : Event → List (Path × Nat)
  | .verify c =>
    if (s.verifySync c).2 = .read ∧ incoming c.path = false ∧ (s.intent c.path).any (·.pending) = true then
      [(c.path, c.size)]
    else []
  | _ => []

end State

def Course.step (h : Course) (s : State) : Event → Course
  | .begin b => { h with awaiting := false, counts := h.counts ++ s.counted (.begin b) }
  | .completeAudit _ _ => { audited := insert s.policy.runId h.audited }
  | .status runId status =>
    if status.finished = true ∧ runId ∉ h.audited ∧ runId ∉ h.finished then
      { h with finished := insert runId h.finished, awaiting := true }
    else h
  | .finish =>
    { h with
      finished := if s.policy.runId ∈ h.audited then h.finished else insert s.policy.runId h.finished
      awaiting := false
      counts := h.counts ++ s.counted .finish }
  | .verify c => { h with added := h.added ++ s.added (.verify c) }
  | _ => h

structure Track where
  state : State
  course : Course

def Track.step (t : Track) (e : Event) : Track := ⟨t.state.step e, t.course.step t.state e⟩

def Track.start (b : Begin) : Track := ⟨State.start b, {}⟩

/-- The runs of one channel and one scope. A run records that it has finished while it is the current one,
and only a run that has not is resumed or marked as interrupted; an epoch is a new one. -/
def Serial (channel : Str) (scope : Scope) (t : Track) : Event → Track → Prop
  | .begin b, _ => b.channel = channel ∧ b.scope = scope
  | .completeAudit _ uuid, _ => (∀ row ∈ t.state.store.runs, row.2.epoch ≠ some uuid) ∧
      ∀ row ∈ t.state.store.intents, row.2.countedEpoch ≠ some uuid
  | .status runId status, _ =>
      if status.finished then runId = t.state.policy.runId else t.state.isFinished runId = false
  | _, _ => True

instance (ch : Str) (sc : Scope) (t : Track) (e : Event) (t' : Track) : Decidable (Serial ch sc t e t') := by
  cases e <;> unfold Serial <;> infer_instance

/-! ### What keeps the count -/

namespace State

variable (s : State)

/-- The current run was counted before the last completed audit. -/
def countedEarlier : Bool := s.runRecord.any fun r => r.counted && r.epoch ≠ some s.epoch

/-- The current run has recorded its status, is not counted, and began before the last completed audit. -/
def leftBehind : Bool :=
  s.isFinished s.policy.runId && s.runRecord.any fun r => !r.counted && !r.auditCompleted && r.epoch ≠ some s.epoch

end State

/-- No run is counted in two epochs, and a run that begins finds none left behind. -/
def Countable (t : Track) : Event → Track → Prop
  | .begin _, _ => t.state.leftBehind = false
  | .status _ status, _ => status.finished = true → t.state.countedEarlier = false
  | .finish, _ => t.state.countedEarlier = false
  | _, _ => True

instance (t : Track) (e : Event) (t' : Track) : Decidable (Countable t e t') := by
  cases e <;> unfold Countable <;> infer_instance

/-- The counters are what they stand for, and an audit is due by them. -/
structure OnCadence (t : Track) : Prop where
  counted : ∀ r ∈ t.course.finished, ¬ (t.course.awaiting = true ∧ r = t.state.policy.runId) → t.course.counts.count r = 1
  audited : ∀ r ∈ t.course.audited, t.course.counts.count r = 0
  runs : t.state.policy.audit.runs = t.course.counts.length
  added : (t.course.added.map (·.1)).Nodup
  newBytes : t.state.policy.audit.newBytes = (t.course.added.map (·.2)).sum
  dueRuns : t.state.policy.auditDone = false →
    t.state.policy.settings.everyRuns ≤ (t.course.finished.erase t.state.policy.runId).card + 1 →
    ∀ now, Reason.runs ∈ t.state.due now
  dueBytes : t.state.policy.settings.newCasGib * 1024 ^ 3 ≤ (t.course.added.map (·.2)).sum →
    ∀ now, Reason.bytes ∈ t.state.due now

/-! ### The invariant -/

/-- The counter of runs and the records agree with the course. -/
structure RunsInv (ch : Str) (sc : Scope) (s : State) (h : Course) : Prop where
  scope : s.policy.scope = sc
  channel : s.policy.channel = ch
  stored : PyList.get? s.store.audits (sc, ch) = some s.policy.audit
  keys : (s.store.runs.map (·.1)).Nodup
  rows : ∀ row ∈ s.store.runs, row.1.1 = sc ∧ row.1.2.1 = ch
  recorded : ∀ id, s.isFinished id = true → ∃ r, s.record id = some r
  audited : ∀ id, id ∈ h.audited ↔ ∃ r, s.record id = some r ∧ r.auditCompleted = true
  plain : ∀ id r, s.record id = some r → r.auditCompleted = true → r.counted = false ∧ r.epoch = none
  nodup : h.counts.Nodup
  runs : s.policy.audit.runs = h.counts.length
  counts : ∀ id, id ∈ h.counts ↔ ∃ r, s.record id = some r ∧ r.counted = true ∧ r.epoch = some s.epoch
  finished : ∀ id, id ∈ h.finished ↔ id ∈ h.counts ∨ h.awaiting = true ∧ id = s.policy.runId
  awaiting : h.awaiting = true → s.isFinished s.policy.runId = true ∧
    ∃ r, s.runRecord = some r ∧ r.counted = false ∧ r.auditCompleted = false
  waiting : ∀ id r, s.isFinished id = true → s.record id = some r → r.epoch = some s.epoch → r.counted = false →
    r.auditCompleted = false → h.awaiting = true ∧ id = s.policy.runId

/-- The counter of bytes and the intents agree with the course. -/
structure BytesInv (s : State) (h : Course) : Prop where
  newBytes : s.policy.audit.newBytes = (h.added.map (·.2)).sum
  nodup : (h.added.map (·.1)).Nodup
  verified : ∀ path ∈ h.added.map (·.1), s.intent path = some ⟨false, some s.epoch⟩

/-- What `verify_sync`, uploads and deletions leave as it is. -/
structure SameRuns (s s' : State) : Prop where
  scope : s'.policy.scope = s.policy.scope
  channel : s'.policy.channel = s.policy.channel
  runId : s'.policy.runId = s.policy.runId
  rows : s'.store.runs = s.store.runs
  status : s'.store.status = s.store.status
  epoch : s'.epoch = s.epoch
  runs : s'.policy.audit.runs = s.policy.audit.runs
  stored : PyList.get? s.store.audits (s.policy.scope, s.policy.channel) = some s.policy.audit →
    PyList.get? s'.store.audits (s.policy.scope, s.policy.channel) = some s'.policy.audit

namespace SameRuns

variable {s s' s'' : State}

theorem refl (s : State) : SameRuns s s := ⟨rfl, rfl, rfl, rfl, rfl, rfl, rfl, id⟩

theorem trans (h : SameRuns s s') (h' : SameRuns s' s'') : SameRuns s s'' where
  scope := h'.scope.trans h.scope
  channel := h'.channel.trans h.channel
  runId := h'.runId.trans h.runId
  rows := h'.rows.trans h.rows
  status := h'.status.trans h.status
  epoch := h'.epoch.trans h.epoch
  runs := h'.runs.trans h.runs
  stored := fun hs => h.scope ▸ h.channel ▸ h'.stored (h.scope.symm ▸ h.channel.symm ▸ h.stored hs)

theorem putAudit (s : State) (audit : Audit) (he : audit.epoch = s.epoch) (hr : audit.runs = s.policy.audit.runs) :
    SameRuns s (s.putAudit audit) :=
  ⟨rfl, rfl, rfl, rfl, rfl, he, hr, fun _ => by simp [State.putAudit, PyList.get?_insert]⟩

theorem countUpload (s : State) (path : Path) (size : Nat) : SameRuns s (s.countUpload path size) := by
  unfold State.countUpload
  split
  · exact (putAudit s { s.policy.audit with newBytes := s.policy.audit.newBytes + size } rfl rfl).trans
      ⟨rfl, rfl, rfl, rfl, rfl, rfl, rfl, id⟩
  · exact refl s

theorem readBytes (s : State) (c : VerifyCall) : SameRuns s (s.readBytes c).1 := by
  have hinv : SameRuns s (s.invalidate c.path false) := ⟨rfl, rfl, rfl, rfl, rfl, rfl, rfl, id⟩
  unfold State.readBytes
  cases c.read with
  | none => exact hinv
  | some etag =>
    dsimp only
    split
    · exact hinv
    · refine SameRuns.trans ?_ (countUpload _ _ _)
      exact ⟨rfl, rfl, rfl, rfl, rfl, rfl, rfl, id⟩

theorem verify (s : State) (c : VerifyCall) : SameRuns s (s.verifySync c).1 := by
  unfold State.verifySync
  split
  · exact refl s
  · exact readBytes s c
  · split
    · exact ⟨rfl, rfl, rfl, rfl, rfl, rfl, rfl, id⟩
    · split
      · exact ⟨rfl, rfl, rfl, rfl, rfl, rfl, rfl, id⟩
      · exact readBytes s c

theorem upload (s : State) (path : Path) : SameRuns s (s.uploadIntent path).1 := by
  unfold State.uploadIntent
  dsimp only
  split_ifs <;> exact ⟨rfl, rfl, rfl, rfl, rfl, rfl, rfl, id⟩

theorem moved (s : State) (path : Path) (statusCode : Nat) : SameRuns s (s.moved path statusCode) := by
  unfold State.moved
  split <;> exact ⟨rfl, rfl, rfl, rfl, rfl, rfl, rfl, id⟩

end SameRuns

namespace RunsInv

variable {ch : Str} {sc : Scope} {s s' : State} {h h' : Course}

theorem congr (hs : SameRuns s s') (hf : h'.finished = h.finished) (ha : h'.audited = h.audited)
    (hw : h'.awaiting = h.awaiting) (hc : h'.counts = h.counts) (hi : RunsInv ch sc s h) :
    RunsInv ch sc s' h' := by
  have hrec : ∀ id, s'.record id = s.record id := fun id => by rw [State.record, State.record, hs.scope, hs.channel, hs.rows]
  have hfin : ∀ id, s'.isFinished id = s.isFinished id := fun id => by rw [State.isFinished, State.isFinished, hs.status]
  have hrun : s'.runRecord = s.runRecord := by
    rw [State.runRecord, State.runRecord, hs.scope, hs.channel, hs.rows, hs.runId]
  refine ⟨hs.scope.trans hi.scope, hs.channel.trans hi.channel, ?_, hs.rows ▸ hi.keys, hs.rows ▸ hi.rows, ?_, ?_, ?_,
    hc ▸ hi.nodup, hc ▸ hs.runs.trans hi.runs, ?_, ?_, ?_, ?_⟩
  · have := hs.stored
    rw [hi.scope, hi.channel] at this
    exact this hi.stored
  · simpa only [hrec, hfin] using hi.recorded
  · simpa only [hrec, ha] using hi.audited
  · simpa only [hrec] using hi.plain
  · simpa only [hrec, hc, hs.epoch] using hi.counts
  · simpa only [hf, hc, hw, hs.runId] using hi.finished
  · simpa only [hw, hfin, hs.runId, hrun] using hi.awaiting
  · simpa only [hfin, hrec, hs.epoch, hw, hs.runId] using hi.waiting

theorem record_putRun (s : State) (r : RunRecord) (id : Str) :
    (s.putRun r).record id = if s.policy.runId = id then some r else s.record id := by
  simp only [State.record, State.putRun, PyList.get?_insert, Prod.mk.injEq, true_and]

/-- The record of the current run is replaced. -/
theorem rows_putRun (hi : RunsInv ch sc s h) (r : RunRecord) :
    ((s.putRun r).store.runs.map (·.1)).Nodup ∧ ∀ row ∈ (s.putRun r).store.runs, row.1.1 = sc ∧ row.1.2.1 = ch := by
  refine ⟨PyList.nodup_keys_insert hi.keys, fun row hrow => ?_⟩
  rcases PyList.mem_insert hrow with rfl | hrow
  · exact ⟨hi.scope, hi.channel⟩
  · exact hi.rows row hrow

theorem epoch_of_counted {r : RunRecord} (hr : s.runRecord = some r) (hc : r.counted = true)
    (hce : s.countedEarlier = false) : r.epoch = some s.epoch := by
  simp only [State.countedEarlier, hr, Option.any_some, hc, Bool.true_and, decide_eq_false_iff_not, not_not] at hce
  exact hce

theorem notMem_of_plain (hi : RunsInv ch sc s h) {id : Str} {r : RunRecord} (hr : s.record id = some r)
    (hc : r.counted = false) : id ∉ h.counts := by
  intro hid
  obtain ⟨r', hr', hc', -⟩ := (hi.counts id).1 hid
  obtain rfl := Option.some.inj (hr.symm.trans hr')
  simp [hc] at hc'

theorem notMem_audited (hi : RunsInv ch sc s h) {id : Str} {r : RunRecord} (hr : s.record id = some r)
    (ha : r.auditCompleted = false) : id ∉ h.audited := by
  intro hid
  obtain ⟨r', hr', ha'⟩ := (hi.audited id).1 hid
  obtain rfl := Option.some.inj (hr.symm.trans hr')
  simp [ha] at ha'

theorem finish (hi : RunsInv ch sc s h) (hcur : ∃ r, s.record s.policy.runId = some r) (hce : s.countedEarlier = false) :
    RunsInv ch sc (s.step .finish) (h.step s .finish) := by
  obtain ⟨r, hr⟩ := hcur
  have hrun : s.runRecord = some r := hr
  by_cases hdone : r.counted = true ∨ r.auditCompleted = true
  · -- nothing is counted
    have hstep : s.step .finish = s := by
      simp only [State.step, State.finishRun, hrun, if_pos hdone]
    have hcounts : (h.step s .finish).counts = h.counts := by
      simp only [Course.step, State.counted, hrun, Option.any_some, Bool.or_eq_true, if_pos hdone, List.append_nil]
    have hnot : h.awaiting = false := by
      refine Bool.eq_false_iff.2 fun hw => ?_
      obtain ⟨-, r', hr', hc, ha⟩ := hi.awaiting hw
      obtain rfl := Option.some.inj (hrun.symm.trans hr')
      simp [hc, ha] at hdone
    have hfin : (h.step s .finish).finished = h.finished := by
      simp only [Course.step]
      split
      · rfl
      · rename_i haud
        refine Finset.insert_eq_of_mem ((hi.finished _).2 (.inl ((hi.counts _).2 ⟨r, hr, ?_, ?_⟩)))
        · refine hdone.resolve_right fun ha => haud ((hi.audited _).2 ⟨r, hr, ha⟩)
        · refine epoch_of_counted hrun ?_ hce
          exact hdone.resolve_right fun ha => haud ((hi.audited _).2 ⟨r, hr, ha⟩)
    rw [hstep]
    exact hi.congr (SameRuns.refl s) hfin rfl hnot.symm hcounts
  · -- the run is counted now
    rw [not_or, Bool.not_eq_true, Bool.not_eq_true] at hdone
    obtain ⟨hc, ha⟩ := hdone
    have hnot := hi.notMem_of_plain hr hc
    have haud := hi.notMem_audited hr ha
    have hstep : s.step .finish = (s.putAudit { s.policy.audit with runs := s.policy.audit.runs + 1 }).putRun
        ⟨some s.epoch, true, false⟩ := by
      simp [State.step, State.finishRun, hrun, hc, ha, State.finishRun.counted, State.epoch]
    have hcounts : (h.step s .finish).counts = h.counts ++ [s.policy.runId] := by
      simp [Course.step, State.counted, hrun, hc, ha]
    have hfin : (h.step s .finish).finished = insert s.policy.runId h.finished := by
      simp [Course.step, haud]
    have hrec : ∀ id, (s.step .finish).record id =
        if s.policy.runId = id then some ⟨some s.epoch, true, false⟩ else s.record id := by
      rw [hstep]
      exact record_putRun _ _
    obtain ⟨hkeys, hrows⟩ := hi.rows_putRun ⟨some s.epoch, true, false⟩
    have hsame : (s.step .finish).epoch = s.epoch ∧ (s.step .finish).policy.runId = s.policy.runId ∧
        (s.step .finish).policy.audit.runs = s.policy.audit.runs + 1 := by
      rw [hstep]
      exact ⟨rfl, rfl, rfl⟩
    refine ⟨by rw [hstep]; exact hi.scope, by rw [hstep]; exact hi.channel, ?_, by rw [hstep]; exact hkeys,
      by rw [hstep]; exact hrows, ?_, ?_, ?_, ?_, ?_, ?_, ?_, ?_, ?_⟩
    · rw [hstep]
      simp [State.putAudit, State.putRun, PyList.get?_insert, hi.scope, hi.channel]
    · intro id hid
      rw [hrec]
      split
      · exact ⟨_, rfl⟩
      · refine hi.recorded id ?_
        rwa [hstep] at hid
    · intro id
      rw [hrec]
      show id ∈ h.audited ↔ _
      split
      · rename_i hid
        subst hid
        simpa using haud
      · exact hi.audited id
    · intro id r'
      rw [hrec]
      split
      · rintro ⟨⟩ h
        cases h
      · exact hi.plain id r'
    · rw [hcounts]
      exact List.nodup_append.2 ⟨hi.nodup, by simp, fun a ha b hb => by rintro rfl; exact hnot (List.mem_singleton.1 hb ▸ ha)⟩
    · rw [hsame.2.2, hcounts, hi.runs, List.length_append, List.length_singleton]
    · intro id
      rw [hcounts, hrec, hsame.1, List.mem_append, List.mem_singleton]
      split
      · rename_i hid
        simp [hid]
      · rename_i hid
        rw [hi.counts id]
        simp [Ne.symm hid]
    · intro id
      rw [hfin, hcounts, hsame.2.1, Finset.mem_insert, hi.finished, List.mem_append, List.mem_singleton]
      show _ ↔ _ ∨ false = true ∧ _
      tauto
    · intro hw
      cases hw
    · intro id r' hid hr' he hc' ha'
      rw [hrec] at hr'
      split at hr'
      · cases hr'
        cases hc'
      · rename_i hne
        rw [hstep] at hid
        obtain ⟨-, heq⟩ := hi.waiting id r' hid hr' (hsame.1 ▸ he) hc' ha'
        exact absurd heq.symm hne

theorem completeAudit (hi : RunsInv ch sc s h) {now : Int} {uuid : Str}
    (hfresh : ∀ row ∈ s.store.runs, row.2.epoch ≠ some uuid) :
    RunsInv ch sc (s.step (.completeAudit now uuid)) (h.step s (.completeAudit now uuid)) := by
  obtain ⟨hkeys, hrows⟩ := hi.rows_putRun ⟨none, false, true⟩
  have hrec : ∀ id, (s.step (.completeAudit now uuid)).record id =
      if s.policy.runId = id then some ⟨none, false, true⟩ else s.record id := record_putRun _ _
  have hold : ∀ id r, s.record id = some r → r.epoch ≠ some uuid := fun id r hr =>
    hfresh _ (PyList.mem_of_get? hr)
  refine ⟨hi.scope, hi.channel, ?_, hkeys, hrows, ?_, ?_, ?_, List.nodup_nil, rfl, ?_,
    ?_, fun hw => (by cases hw), ?_⟩
  · simp [State.step, State.completeAudit, State.putAudit, State.putRun, PyList.get?_insert, hi.scope, hi.channel]
  · intro id hid
    rw [hrec]
    split
    · exact ⟨_, rfl⟩
    · exact hi.recorded id hid
  · intro id
    rw [hrec]
    show id ∈ insert s.policy.runId h.audited ↔ _
    rw [Finset.mem_insert, hi.audited id]
    split
    · rename_i hid
      simp [hid]
    · rename_i hid
      simp [Ne.symm hid]
  · intro id r
    rw [hrec]
    split
    · rintro ⟨⟩ -
      exact ⟨rfl, rfl⟩
    · exact hi.plain id r
  · intro id
    rw [hrec]
    refine ⟨fun hid => absurd hid (List.not_mem_nil), ?_⟩
    rintro ⟨r, hr, hc, he⟩
    split at hr
    · cases hr
      cases hc
    · exact absurd he (hold id r hr)
  · intro id
    show id ∈ (∅ : Finset Str) ↔ id ∈ ([] : List Str) ∨ false = true ∧ _
    simp
  · intro id r hid hr he hc ha
    rw [hrec] at hr
    split at hr
    · cases hr
      cases ha
    · exact absurd he (hold id r hr)

theorem isFinished_status (s : State) (id : Str) (status : RunStatus) (id' : Str) :
    (s.step (.status id status)).isFinished id' = if id = id' then status.finished else s.isFinished id' := by
  simp only [State.isFinished, State.step, PyList.get?_insert]
  split <;> rfl

theorem status (hi : RunsInv ch sc s h) (hcur : ∃ r, s.record s.policy.runId = some r) {id : Str} {status : RunStatus}
    (hserial : if status.finished then id = s.policy.runId else s.isFinished id = false)
    (hce : status.finished = true → s.countedEarlier = false) :
    RunsInv ch sc (s.step (.status id status)) (h.step s (.status id status)) := by
  have hfin := isFinished_status s id status
  cases hst : status.finished with
  | false =>
    simp only [hst, Bool.false_eq_true, if_false] at hserial
    have hcourse : h.step s (.status id status) = h := by simp [Course.step, hst]
    have hkept : ∀ id', (s.step (.status id status)).isFinished id' = true → s.isFinished id' = true := by
      intro id' h'
      rw [hfin, hst] at h'
      split at h'
      · cases h'
      · exact h'
    rw [hcourse]
    refine ⟨hi.scope, hi.channel, hi.stored, hi.keys, hi.rows, fun id' h' => hi.recorded id' (hkept id' h'),
      hi.audited, hi.plain, hi.nodup, hi.runs, hi.counts, hi.finished, fun hw => ?_,
      fun id' r h' => hi.waiting id' r (hkept id' h')⟩
    obtain ⟨hf, hr⟩ := hi.awaiting hw
    refine ⟨?_, hr⟩
    show (s.step (.status id status)).isFinished s.policy.runId = true
    rw [hfin, if_neg]
    · exact hf
    · rintro rfl
      rw [hf] at hserial
      cases hserial
  | true =>
    simp only [hst, if_true] at hserial
    subst hserial
    obtain ⟨r, hr⟩ := hcur
    have hrun : s.runRecord = some r := hr
    have hkept : ∀ id', (s.step (.status s.policy.runId status)).isFinished id' = true →
        id' = s.policy.runId ∨ s.isFinished id' = true := by
      intro id' h'
      rw [hfin] at h'
      split at h'
      · rename_i heq
        exact .inl heq.symm
      · exact .inr h'
    have hrecorded : ∀ id', (s.step (.status s.policy.runId status)).isFinished id' = true → ∃ r, s.record id' = some r := by
      intro id' h'
      rcases hkept id' h' with rfl | h'
      · exact ⟨r, hr⟩
      · exact hi.recorded id' h'
    by_cases hnew : s.policy.runId ∉ h.audited ∧ s.policy.runId ∉ h.finished
    · -- the run waits to be counted
      have hcourse : h.step s (.status s.policy.runId status) =
          { h with finished := insert s.policy.runId h.finished, awaiting := true } := by
        simp [Course.step, hst, hnew]
      have hw : h.awaiting = false := Bool.eq_false_iff.2 fun hw => hnew.2 ((hi.finished _).2 (.inr ⟨hw, rfl⟩))
      have ha : r.auditCompleted = false := Bool.eq_false_iff.2 fun ha => hnew.1 ((hi.audited _).2 ⟨r, hr, ha⟩)
      have hc : r.counted = false := by
        refine Bool.eq_false_iff.2 fun hc => hnew.2 ((hi.finished _).2 (.inl ((hi.counts _).2 ⟨r, hr, hc, ?_⟩)))
        exact epoch_of_counted hrun hc (hce hst)
      rw [hcourse]
      refine ⟨hi.scope, hi.channel, hi.stored, hi.keys, hi.rows, hrecorded, hi.audited, hi.plain, hi.nodup,
        hi.runs, hi.counts, fun id' => ?_, fun _ => ⟨(hfin _).trans ((if_pos rfl).trans hst), r, hr, hc, ha⟩, ?_⟩
      · show id' ∈ insert s.policy.runId h.finished ↔ id' ∈ h.counts ∨ true = true ∧ id' = s.policy.runId
        rw [Finset.mem_insert, hi.finished id', hw]
        tauto
      · intro id' r' h' hr' he hc' ha'
        rcases hkept id' h' with rfl | h'
        · exact ⟨rfl, rfl⟩
        · obtain ⟨hw', -⟩ := hi.waiting id' r' h' hr' he hc' ha'
          rw [hw] at hw'
          cases hw'
    · have hcourse : h.step s (.status s.policy.runId status) = h := by simp [Course.step, hst, hnew]
      rw [hcourse]
      refine ⟨hi.scope, hi.channel, hi.stored, hi.keys, hi.rows, hrecorded, hi.audited, hi.plain, hi.nodup,
        hi.runs, hi.counts, hi.finished, fun hw => ⟨(hfin _).trans ((if_pos rfl).trans hst), (hi.awaiting hw).2⟩, ?_⟩
      intro id' r' h' hr' he hc' ha'
      rcases hkept id' h' with rfl | h'
      · obtain hmem : s.policy.runId ∈ h.finished := by
          by_contra hmem
          exact hnew ⟨hi.notMem_audited hr' ha', hmem⟩
        exact ((hi.finished _).1 hmem).resolve_left (hi.notMem_of_plain hr' hc')
      · exact hi.waiting id' r' h' hr' he hc' ha'

/-- A run that has no record gets one. -/
theorem newRecord (hi : RunsInv ch sc s h) (hw : h.awaiting = false) (hnone : s.record s.policy.runId = none) :
    RunsInv ch sc (s.putRun ⟨some s.epoch, false, false⟩) h := by
  obtain ⟨hkeys, hrows⟩ := hi.rows_putRun ⟨some s.epoch, false, false⟩
  have hrec := record_putRun s ⟨some s.epoch, false, false⟩
  have hfin : s.isFinished s.policy.runId = false := by
    refine Bool.eq_false_iff.2 fun hf => ?_
    obtain ⟨r, hr⟩ := hi.recorded _ hf
    rw [hnone] at hr
    cases hr
  refine ⟨hi.scope, hi.channel, hi.stored, hkeys, hrows, fun id hid => ?_, fun id => ?_, fun id r => ?_, hi.nodup,
    hi.runs, fun id => ?_, hi.finished, fun h' => absurd h' (by simp [hw]), fun id r hid hr he hc ha => ?_⟩
  · rw [hrec]
    split
    · exact ⟨_, rfl⟩
    · exact hi.recorded id hid
  · rw [hrec, hi.audited id]
    split
    · rename_i hid
      subst hid
      simp [hnone]
    · rfl
  · rw [hrec]
    split
    · rintro ⟨⟩ ha
      cases ha
    · exact hi.plain id r
  · rw [hrec, hi.counts id]
    split
    · rename_i hid
      subst hid
      simp [hnone]
    · rfl
  · rw [hrec] at hr
    split at hr
    · rename_i heq
      have hid' : s.isFinished id = true := hid
      rw [← heq, hfin] at hid'
      cases hid'
    · exact hi.waiting id r hid hr he hc ha

section
variable {b : Begin}

theorem opened_audit (hi : RunsInv ch sc s h) (hb : b.channel = ch ∧ b.scope = sc) :
    (State.opened s.store b).policy.audit = s.policy.audit := by
  obtain ⟨rfl, rfl⟩ := hb
  simp only [State.opened, State.putAudit, hi.stored, Option.getD_some]

theorem mem_of_record (hi : RunsInv ch sc s h) {id : Str} {r : RunRecord} (hr : s.record id = some r) :
    ((sc, ch, id), r) ∈ s.store.runs := by
  have := PyList.mem_of_get? hr
  rwa [hi.scope, hi.channel] at this

theorem record_of_mem (hi : RunsInv ch sc s h) {row : (Scope × Str × Str) × RunRecord} (hrow : row ∈ s.store.runs) :
    s.record row.1.2.2 = some row.2 := by
  obtain ⟨⟨sc', ch', id⟩, r⟩ := row
  obtain ⟨rfl, rfl⟩ := hi.rows _ hrow
  rw [State.record, hi.scope, hi.channel]
  exact (PyList.mem_iff_get? hi.keys).1 hrow

theorem record_awaiting (hi : RunsInv ch sc s h) (hleft : s.leftBehind = false) (hw : h.awaiting = true) :
    ∃ r, s.record s.policy.runId = some r ∧ s.isFinished s.policy.runId = true ∧ r.epoch = some s.epoch ∧
      r.counted = false ∧ r.auditCompleted = false := by
  obtain ⟨hf, r, hr, hc, ha⟩ := hi.awaiting hw
  refine ⟨r, hr, hf, ?_, hc, ha⟩
  simp only [State.leftBehind, hf, hr, Option.any_some, hc, ha, Bool.true_and, Bool.not_false,
    decide_eq_false_iff_not, not_not] at hleft
  exact hleft

/-- What is reconciled is the run that the course waits for. -/
theorem uncounted_iff (hi : RunsInv ch sc s h) (hb : b.channel = ch ∧ b.scope = sc) (hleft : s.leftBehind = false)
    {row : (Scope × Str × Str) × RunRecord} (hrow : row ∈ s.store.runs) :
    (State.opened s.store b).uncounted row = true ↔ h.awaiting = true ∧ row.1.2.2 = s.policy.runId := by
  obtain ⟨hsc, hch⟩ := hi.rows _ hrow
  have hr := hi.record_of_mem hrow
  have hun : (State.opened s.store b).uncounted row = true ↔ s.isFinished row.1.2.2 = true ∧
      row.2.epoch = some s.epoch ∧ row.2.counted = false ∧ row.2.auditCompleted = false := by
    simp only [State.uncounted, hi.opened_audit hb, Bool.and_eq_true, decide_eq_true_eq, Bool.not_eq_true']
    simp only [State.opened, State.putAudit, hsc, hch, hb.1, hb.2, true_and, and_assoc]
    rfl
  rw [hun]
  constructor
  · rintro ⟨hf, he, hc, ha⟩
    exact hi.waiting _ _ hf hr he hc ha
  · rintro ⟨hw, hid⟩
    obtain ⟨r, hr', hf, he, hc, ha⟩ := hi.record_awaiting hleft hw
    rw [hid] at hr
    obtain rfl := Option.some.inj (hr'.symm.trans hr)
    exact ⟨hid ▸ hf, he, hc, ha⟩

theorem mem_counted (hi : RunsInv ch sc s h) (hb : b.channel = ch ∧ b.scope = sc) (hleft : s.leftBehind = false)
    {id : Str} : id ∈ s.counted (.begin b) ↔ h.awaiting = true ∧ id = s.policy.runId := by
  simp only [State.counted, List.mem_map, List.mem_filter]
  constructor
  · rintro ⟨row, ⟨hrow, hun⟩, rfl⟩
    exact (hi.uncounted_iff hb hleft hrow).1 hun
  · rintro ⟨hw, rfl⟩
    obtain ⟨-, r, hr, -, -⟩ := hi.awaiting hw
    have hrow := hi.mem_of_record hr
    exact ⟨_, ⟨hrow, (hi.uncounted_iff hb hleft hrow).2 ⟨hw, rfl⟩⟩, rfl⟩

theorem nodup_counted (hi : RunsInv ch sc s h) : (s.counted (.begin b)).Nodup := by
  refine List.Nodup.map_on ?_ ((List.Nodup.of_map _ hi.keys).filter _)
  intro x hx y hy hxy
  have hx := List.mem_of_mem_filter hx
  have hy := List.mem_of_mem_filter hy
  refine List.inj_on_of_nodup_map hi.keys hx hy (Prod.ext ?_ (Prod.ext ?_ hxy))
  · exact (hi.rows _ hx).1.trans (hi.rows _ hy).1.symm
  · exact (hi.rows _ hx).2.trans (hi.rows _ hy).2.symm

theorem reconcile (hi : RunsInv ch sc s h) (hb : b.channel = ch ∧ b.scope = sc) (hleft : s.leftBehind = false) :
    RunsInv ch sc (State.opened s.store b).reconcileFinishedRuns (h.step s (.begin b)) := by
  have haudit := hi.opened_audit hb
  have hmem : ∀ id, id ∈ s.counted (.begin b) ↔ h.awaiting = true ∧ id = s.policy.runId := fun _ => hi.mem_counted hb hleft
  have hkey : ∀ row, (if (State.opened s.store b).uncounted row then (row.1, { row.2 with counted := true }) else row).1 =
      row.1 := by
    intro row
    split <;> rfl
  have hrec : ∀ id, (State.opened s.store b).reconcileFinishedRuns.record id = (s.record id).map fun r =>
      if h.awaiting = true ∧ id = s.policy.runId then { r with counted := true } else r := by
    intro id
    have hget := PyList.get?_map hkey s.store.runs (b.scope, b.channel, id)
    have hold : s.record id = PyList.get? s.store.runs (b.scope, b.channel, id) := by
      rw [State.record, hi.scope, hi.channel, hb.1, hb.2]
    rw [hold]
    refine hget.trans ?_
    cases hr : PyList.get? s.store.runs (b.scope, b.channel, id) with
    | none => rfl
    | some r =>
      have hrow := PyList.mem_of_get? hr
      have hun := hi.uncounted_iff hb hleft hrow
      simp only [Option.map_some, Option.some.injEq]
      by_cases hw : h.awaiting = true ∧ id = s.policy.runId
      · rw [if_pos (hun.2 hw), if_pos hw]
      · rw [if_neg (fun h' => hw (hun.1 h')), if_neg hw]
  have hepoch : (State.opened s.store b).reconcileFinishedRuns.epoch = s.epoch := by
    show (State.opened s.store b).policy.audit.epoch = _
    rw [haudit]
    rfl
  have hapart : ∀ id, id ∈ s.counted (.begin b) → id ∉ h.counts := by
    intro id hid
    obtain ⟨hw, rfl⟩ := (hmem id).1 hid
    obtain ⟨r, hr, -, -, hc, -⟩ := hi.record_awaiting hleft hw
    exact hi.notMem_of_plain hr hc
  refine ⟨hb.2, hb.1, ?_, ?_, ?_, fun id hid => ?_, fun id => ?_, fun id r hr ha => ?_, ?_, ?_, fun id => ?_, fun id => ?_,
    fun hw => (by cases hw), fun id r hid hr he hc ha => ?_⟩
  · simp [State.reconcileFinishedRuns, State.opened, State.putAudit, PyList.get?_insert, hb.1, hb.2]
  · have hkeys : ((State.opened s.store b).reconcileFinishedRuns.store.runs.map (·.1)) = s.store.runs.map (·.1) := by
      refine (List.map_map ..).trans (List.map_congr_left fun row _ => hkey row)
    rw [hkeys]
    exact hi.keys
  · intro row hrow
    obtain ⟨row', hrow', rfl⟩ := List.mem_map.1 hrow
    rw [hkey row']
    exact hi.rows row' hrow'
  · obtain ⟨r, hr⟩ := hi.recorded id hid
    rw [hrec, hr]
    exact ⟨_, rfl⟩
  · show id ∈ h.audited ↔ _
    rw [hrec, hi.audited id]
    cases s.record id with
    | none => simp
    | some r =>
      simp only [Option.map_some, Option.some.injEq, exists_eq_left']
      split <;> rfl
  · rw [hrec, Option.map_eq_some_iff] at hr
    obtain ⟨r', hr', rfl⟩ := hr
    split at ha
    · rename_i hw
      obtain ⟨r, hr, -, -, -, hna⟩ := hi.record_awaiting hleft hw.1
      rw [← hw.2, hr'] at hr
      obtain rfl := Option.some.inj hr
      rw [hna] at ha
      cases ha
    · rename_i hw
      rw [if_neg hw]
      exact hi.plain id r' hr' ha
  · exact List.nodup_append.2 ⟨hi.nodup, hi.nodup_counted, fun a ha c hc hac => hapart c hc (hac ▸ ha)⟩
  · show (State.opened s.store b).policy.audit.runs + _ = (h.counts ++ s.counted (.begin b)).length
    rw [haudit, hi.runs, List.length_append, State.counted, List.length_map]
  · show id ∈ h.counts ++ s.counted (.begin b) ↔ _
    rw [List.mem_append, hmem, hrec, hepoch]
    by_cases hw : h.awaiting = true ∧ id = s.policy.runId
    · obtain ⟨r, hr, -, he, -, -⟩ := hi.record_awaiting hleft hw.1
      rw [hw.2, hr]
      simp [hw.1, he]
    · simp only [hw, or_false, if_false, Option.map_id']
      exact hi.counts id
  · show id ∈ h.finished ↔ id ∈ h.counts ++ s.counted (.begin b) ∨ false = true ∧ _
    rw [hi.finished id, List.mem_append, hmem]
    simp
  · rw [hrec, Option.map_eq_some_iff] at hr
    obtain ⟨r', hr', rfl⟩ := hr
    split at hc
    · cases hc
    · rename_i hw
      rw [if_neg hw] at he ha
      exact absurd (hi.waiting id r' hid hr' (hepoch ▸ he) hc ha) hw

theorem begin (hi : RunsInv ch sc s h) (hb : b.channel = ch ∧ b.scope = sc) (hleft : s.leftBehind = false) :
    RunsInv ch sc (s.step (.begin b)) (h.step s (.begin b)) ∧
      ∃ r, (s.step (.begin b)).record (s.step (.begin b)).policy.runId = some r := by
  have hq := hi.reconcile hb hleft
  simp only [State.step, State.begin]
  cases hr : (State.opened s.store b).reconcileFinishedRuns.runRecord with
  | some r => exact ⟨hq, r, hr⟩
  | none =>
    exact ⟨hq.newRecord rfl hr, _, (record_putRun _ _ _).trans (if_pos rfl)⟩

end

end RunsInv

namespace BytesInv

variable {s s' : State} {h h' : Course}

theorem congr (hi : BytesInv s h) (hn : s'.policy.audit.newBytes = s.policy.audit.newBytes) (he : s'.epoch = s.epoch)
    (hint : ∀ path, s'.intent path = s.intent path) (ha : h'.added = h.added) : BytesInv s' h' := by
  refine ⟨?_, ha ▸ hi.nodup, fun path hpath => ?_⟩
  · rw [hn, ha]
    exact hi.newBytes
  · rw [hint, he]
    exact hi.verified path (ha ▸ hpath)

/-- A read counts the bytes of a pending upload, once. -/
theorem read (hi : BytesInv s h) (c : VerifyCall) :
    BytesInv (s.readBytes c).1 { h with added := h.added ++
      if (s.readBytes c).2 = .read ∧ State.incoming c.path = false ∧ (s.intent c.path).any (·.pending) = true then
        [(c.path, c.size)]
      else [] } := by
  unfold State.readBytes
  cases c.read with
  | none => exact hi.congr rfl rfl (fun _ => rfl) (by simp)
  | some etag =>
    cases hinc : State.incoming c.path with
    | true => exact hi.congr rfl rfl (fun _ => rfl) (by simp)
    | false =>
      by_cases hp : (s.intent c.path).any (·.pending) = true
      · have hnot : c.path ∉ h.added.map (·.1) := by
          intro hmem
          rw [hi.verified _ hmem] at hp
          cases hp
        have hstep : (s.invalidate c.path false).rememberRead c.path c.digest c.size etag c.readAt = _ := if_pos hp
        simp only [hp, Bool.false_eq_true, if_false, and_self, if_true]
        rw [hstep]
        refine ⟨?_, ?_, fun path hpath => ?_⟩
        · show s.policy.audit.newBytes + c.size = _
          simp [hi.newBytes]
        · rw [List.map_append, List.nodup_append]
          exact ⟨hi.nodup, by simp, fun a ha b hb => by rintro rfl; simp at hb; exact hnot (hb ▸ ha)⟩
        · simp only [State.intent, State.putIntent, PyList.get?_insert, Prod.mk.injEq]
          split
          · rfl
          · rename_i hne
            rw [List.map_append, List.mem_append] at hpath
            rcases hpath with hpath | hpath
            · exact hi.verified path hpath
            · simp only [List.map_cons, List.map_nil, List.mem_singleton] at hpath
              exact absurd hpath.symm (by simpa using hne)
      · have hstep : (s.invalidate c.path false).rememberRead c.path c.digest c.size etag c.readAt = _ := if_neg hp
        simp only [hp, Bool.false_eq_true, if_false, and_false, List.append_nil]
        rw [hstep]
        exact hi.congr rfl rfl (fun _ => rfl) rfl

theorem verify (hi : BytesInv s h) (c : VerifyCall) : BytesInv (s.step (.verify c)) (h.step s (.verify c)) := by
  simp only [State.step, Course.step, State.added]
  have hread := hi.read c
  unfold State.verifySync
  split
  · exact hi.congr rfl rfl (fun _ => rfl) (by simp)
  · exact hread
  · split
    · exact hi.congr rfl rfl (fun _ => rfl) (by simp)
    · split
      · exact hi.congr rfl rfl (fun _ => rfl) (by simp)
      · exact hread

theorem upload (hi : BytesInv s h) (path : Path) : BytesInv (s.step (.upload path)) (h.step s (.upload path)) := by
  simp only [State.step, State.uploadIntent]
  split
  · split
    · exact hi.congr rfl rfl (fun _ => rfl) rfl
    · rename_i hnew
      refine ⟨hi.newBytes, hi.nodup, fun p hp => ?_⟩
      have hold := hi.verified p hp
      have hne : ¬ path = p := by
        rintro rfl
        refine hnew ?_
        have : (s.invalidate path false).intent path = some ⟨false, some s.epoch⟩ := hold
        rw [this]
        simp [State.epoch, State.invalidate]
      simp only [State.intent, State.putIntent, PyList.get?_insert, Prod.mk.injEq, hne, and_false, if_false]
      exact hold
  · split
    · split
      · exact hi.congr rfl rfl (fun _ => rfl) rfl
      · exact hi.congr rfl rfl (fun _ => rfl) rfl
    · exact hi.congr rfl rfl (fun _ => rfl) rfl

theorem begin {ch : Str} {sc : Scope} {b : Begin} (hi : BytesInv s h) (hr : RunsInv ch sc s h)
    (hb : b.channel = ch ∧ b.scope = sc) : BytesInv (s.step (.begin b)) (h.step s (.begin b)) := by
  have haudit := hr.opened_audit hb
  have hq : BytesInv (State.opened s.store b).reconcileFinishedRuns (h.step s (.begin b)) := by
    refine hi.congr ?_ ?_ (fun path => ?_) rfl
    · show (State.opened s.store b).policy.audit.newBytes = _
      rw [haudit]
    · show (State.opened s.store b).policy.audit.epoch = _
      rw [haudit]
      rfl
    · show PyList.get? s.store.intents (b.scope, path) = PyList.get? s.store.intents (s.policy.scope, path)
      rw [hb.2, hr.scope]
  simp only [State.step, State.begin]
  cases (State.opened s.store b).reconcileFinishedRuns.runRecord with
  | some r => exact hq
  | none => exact hq.congr rfl rfl (fun _ => rfl) rfl

end BytesInv

/-! ### The cadence -/

theorem State.due_runs {s : State} {now : Int}
    (h : s.policy.settings.everyRuns ≤ s.policy.audit.runs + 1 ∧ s.policy.auditDone = false) : Reason.runs ∈ s.due now := by
  unfold State.due
  refine List.mem_append_left _ (List.mem_append_left _ (List.mem_append_right _ ?_))
  rw [if_pos h]
  exact List.mem_singleton_self _

theorem State.due_bytes {s : State} {now : Int}
    (h : s.policy.settings.newCasGib * 1024 ^ 3 ≤ s.policy.audit.newBytes) : Reason.bytes ∈ s.due now := by
  unfold State.due
  refine List.mem_append_left _ (List.mem_append_right _ ?_)
  rw [if_pos h]
  exact List.mem_singleton_self _

structure Kept (ch : Str) (sc : Scope) (t : Track) : Prop where
  runs : RunsInv ch sc t.state t.course
  bytes : BytesInv t.state t.course
  current : ∃ r, t.state.record t.state.policy.runId = some r

namespace Kept

variable {ch : Str} {sc : Scope} {t : Track}

theorem same (hi : Kept ch sc t) {e : Event} (hs : SameRuns t.state (t.state.step e))
    (hb : BytesInv (t.state.step e) (t.course.step t.state e)) (hf : (t.course.step t.state e).finished = t.course.finished)
    (ha : (t.course.step t.state e).audited = t.course.audited) (hw : (t.course.step t.state e).awaiting = t.course.awaiting)
    (hc : (t.course.step t.state e).counts = t.course.counts) : Kept ch sc (t.step e) := by
  refine ⟨hi.runs.congr hs hf ha hw hc, hb, ?_⟩
  obtain ⟨r, hr⟩ := hi.current
  refine ⟨r, ?_⟩
  show (t.state.step e).record (t.state.step e).policy.runId = some r
  rw [State.record, hs.scope, hs.channel, hs.rows, hs.runId]
  exact hr

theorem step (hi : Kept ch sc t) {e : Event} (hserial : Serial ch sc t e (t.step e)) (hc : Countable t e (t.step e)) :
    Kept ch sc (t.step e) := by
  cases e with
  | begin b =>
    obtain ⟨hr, hcur⟩ := hi.runs.begin hserial hc
    exact ⟨hr, hi.bytes.begin hi.runs hserial, hcur⟩
  | verify c => exact hi.same (SameRuns.verify _ c) (hi.bytes.verify c) rfl rfl rfl rfl
  | upload path => exact hi.same (SameRuns.upload _ path) (hi.bytes.upload path) rfl rfl rfl rfl
  | moved path statusCode =>
    refine hi.same (SameRuns.moved _ path statusCode) ?_ rfl rfl rfl rfl
    simp only [State.step, State.moved]
    split
    · exact hi.bytes.congr rfl rfl (fun _ => rfl) rfl
    · exact hi.bytes
  | startAudit => exact hi.same (SameRuns.putAudit _ _ rfl rfl) (hi.bytes.congr rfl rfl (fun _ => rfl) rfl) rfl rfl rfl rfl
  | completeAudit now uuid =>
    exact ⟨hi.runs.completeAudit hserial.1, ⟨rfl, List.nodup_nil, fun _ h => by cases h⟩, _,
      (RunsInv.record_putRun _ _ _).trans (if_pos rfl)⟩
  | status id status =>
    refine ⟨hi.runs.status hi.current hserial hc, hi.bytes.congr rfl rfl (fun _ => rfl) ?_, hi.current⟩
    show (t.course.step t.state (.status id status)).added = _
    simp only [Course.step]
    split <;> rfl
  | finish =>
    refine ⟨hi.runs.finish hi.current hc, ?_, ?_⟩
    · show BytesInv (t.state.step .finish) (t.course.step t.state .finish)
      simp only [State.step, State.finishRun]
      split
      · split
        · exact hi.bytes.congr rfl rfl (fun _ => rfl) rfl
        · exact hi.bytes.congr rfl rfl (fun _ => rfl) rfl
      · exact hi.bytes.congr rfl rfl (fun _ => rfl) rfl
    · obtain ⟨r, hr⟩ := hi.current
      have hrun : t.state.runRecord = some r := hr
      show ∃ r, (t.state.step .finish).record (t.state.step .finish).policy.runId = some r
      simp only [State.step, State.finishRun, hrun]
      split
      · exact ⟨r, hr⟩
      · exact ⟨_, (RunsInv.record_putRun _ _ _).trans (if_pos rfl)⟩
  | bind _ _ | delete _ | invalidate _ | clearMemo =>
    exact hi.same ⟨rfl, rfl, rfl, rfl, rfl, rfl, rfl, id⟩ (hi.bytes.congr rfl rfl (fun _ => rfl) rfl) rfl rfl rfl rfl

theorem onCadence (hi : Kept ch sc t) : OnCadence t where
  counted r hr hnot := by
    have hmem := ((hi.runs.finished r).1 hr).resolve_right hnot
    exact List.count_eq_one_of_mem hi.runs.nodup hmem
  audited r hr := by
    refine List.count_eq_zero_of_not_mem fun hmem => ?_
    obtain ⟨rec, hrec, ha⟩ := (hi.runs.audited r).1 hr
    obtain ⟨rec', hrec', hc, -⟩ := (hi.runs.counts r).1 hmem
    obtain rfl := Option.some.inj (hrec.symm.trans hrec')
    rw [(hi.runs.plain r rec hrec ha).1] at hc
    cases hc
  runs := hi.runs.runs
  added := hi.bytes.nodup
  newBytes := hi.bytes.newBytes
  dueRuns hdone hother now := by
    have hsub : t.course.finished.erase t.state.policy.runId ⊆ t.course.counts.toFinset := by
      intro r hr
      obtain ⟨hne, hr⟩ := Finset.mem_erase.1 hr
      rw [List.mem_toFinset]
      exact ((hi.runs.finished r).1 hr).resolve_right fun h => hne h.2
    have hcard := Finset.card_le_card hsub
    rw [List.toFinset_card_of_nodup hi.runs.nodup, ← hi.runs.runs] at hcard
    exact State.due_runs ⟨by omega, hdone⟩
  dueBytes hbytes now := State.due_bytes (hi.bytes.newBytes ▸ hbytes)

theorem start {b : Begin} (hb : b.channel = ch ∧ b.scope = sc) : Kept ch sc (Track.start b) := by
  obtain ⟨rfl, rfl⟩ := hb
  have hq : RunsInv b.channel b.scope (State.opened {} b).reconcileFinishedRuns {} := by
    have hrec : ∀ id, (State.opened {} b).reconcileFinishedRuns.record id = none := fun _ => rfl
    refine ⟨rfl, rfl, ?_, List.nodup_nil, fun row h => (by cases h), fun id h => (by cases h), fun id => ?_, fun id r h => ?_,
      List.nodup_nil, rfl, fun id => ?_, fun id => by simp, fun h => (by cases h), fun id r h => (by cases h)⟩
    · simp [State.reconcileFinishedRuns, State.opened, State.putAudit, PyList.get?_insert]
    · simp [hrec]
    · rw [hrec] at h
      cases h
    · simp [hrec]
  exact ⟨hq.newRecord rfl rfl, ⟨rfl, List.nodup_nil, fun _ h => by cases h⟩, _, (RunsInv.record_putRun _ _ _).trans (if_pos rfl)⟩

end Kept

/-- In every sequence of runs on one channel and one scope in which no run is counted in two epochs or left behind,
the counters stand for the course and an audit is due by them. -/
theorem cadence_kept (ch : Str) (sc : Scope) (b : Begin) (hb : b.channel = ch ∧ b.scope = sc) (events : List Event)
    (hserial : Along Track.step (Serial ch sc) (Track.start b) events)
    (hcountable : Along Track.step Countable (Track.start b) events) :
    Along Track.step (fun _ _ t => OnCadence t) (Track.start b) events := by
  have hstep : ∀ t e, Kept ch sc t → Serial ch sc t e (t.step e) ∧ Countable t e (t.step e) →
      Kept ch sc (t.step e) ∧ OnCadence (t.step e) := by
    intro t e hi hc
    have hkept := hi.step hc.1 hc.2
    exact ⟨hkept, hkept.onCadence⟩
  exact (Along.of_inv hstep (Kept.start hb) (hserial.and hcountable)).1

def nightly (runId : Str) : Begin :=
  ⟨⟨10, 7, 1, false, false⟩, "https".toList, "w".toList, "stable".toList, runId, "e1".toList⟩

/-- Run `b` audits after run `a` began. Run `a` goes on, records its success and stops before `finish_run`. -/
def leftBehindRun : List Event :=
  [.begin (nightly "b".toList), .completeAudit 0 "e2".toList, .status "b".toList .succeeded, .finish,
    .status "a".toList .running, .begin (nightly "a".toList), .status "a".toList .succeeded]

/-- Run `a` is counted, goes on after the audit of run `b`, and finishes. -/
def countedEarlierRun : List Event :=
  [.status "a".toList .interrupted, .finish, .begin (nightly "b".toList), .completeAudit 0 "e2".toList,
    .status "b".toList .succeeded, .finish, .status "a".toList .running, .begin (nightly "a".toList),
    .status "a".toList .succeeded]

theorem finished_run_not_counted :
    (Along Track.step (Serial "stable".toList (nightly []).scope) (Track.start (nightly "a".toList))
        (leftBehindRun ++ [.begin (nightly "c".toList)]) ∧
      ¬ Along Track.step (fun _ _ t => OnCadence t) (Track.start (nightly "a".toList))
        (leftBehindRun ++ [.begin (nightly "c".toList)])) ∧
    Along Track.step (Serial "stable".toList (nightly []).scope) (Track.start (nightly "a".toList))
        (countedEarlierRun ++ [.finish]) ∧
      ¬ Along Track.step (fun _ _ t => OnCadence t) (Track.start (nightly "a".toList)) (countedEarlierRun ++ [.finish]) := by
  refine ⟨⟨by decide +kernel, fun h => ?_⟩, by decide +kernel, fun h => ?_⟩
  · have hcount := h.last.counted "a".toList (by decide +kernel) (by decide +kernel)
    revert hcount
    decide +kernel
  · have hcount := h.last.counted "a".toList (by decide +kernel) (by decide +kernel)
    revert hcount
    decide +kernel

/-- Run `a` stops after its status is recorded, and run `b` audits. -/
def crashedRun : List Event :=
  [.status "a".toList .succeeded, .begin (nightly "b".toList), .completeAudit 0 "e2".toList, .finish]

theorem cadence_kept_crash :
    Along Track.step (fun _ _ t => OnCadence t) (Track.start (nightly "a".toList)) crashedRun :=
  cadence_kept "stable".toList (nightly []).scope (nightly "a".toList) ⟨rfl, rfl⟩ crashedRun (by decide +kernel)
    (by decide +kernel)

end CardRag.Verification
