import CardRag.Backup.Truth

/-! # The spool (`backup.py`)

A pinned file is named by its digest, and rows of different paths may share it. A flush that commits deletes the
files of the rows it has verified (`flush_pinned_iff`). -/

namespace CardRag.Backup

/-- What a flush does after it has begun. -/
inductive FlushStep where
  | transport (answer : Answer)
  /-- The data budget is spent. -/
  | stop
  | publish (done : Bool)
  | settle
  | conclude (readable : Bool)
  | crash

def FlushStep.event : FlushStep → Event
  | .transport answer => .transport answer
  | .stop => .stop
  | .publish done => .publish done
  | .settle => .settle
  | .conclude readable => .conclude readable
  | .crash => .crash

section
variable (sha256 : Publish.Bytes → Str)

def flushStep (y : System) (e : FlushStep) : System := step sha256 y e.event

/-- `BackupLedger.flush`. -/
def flush (y : System) (q : Request) (probe readable : Bool) (steps : List FlushStep) : System :=
  runFrom (flushStep sha256) (begin y q probe readable) steps

/-- Every row that is left has the pinned file that it had. -/
def Pinned (before after : State) : Prop :=
  ∀ row ∈ after.pending, (PyList.get? before.spool row.sha256).isSome →
    PyList.get? after.spool row.sha256 = PyList.get? before.spool row.sha256

/-- Where the verified rows are deleted, no row that stays shares a pinned file with one of them. -/
def Unshared (y : System) : FlushStep → Prop
  | .settle => ∀ f, y.flush = some f → f.phase = .published true → ∀ row ∈ y.ledger.pending,
      row.itemId ∉ f.verified.map (·.itemId) → (PyList.get? y.ledger.spool row.sha256).isSome →
        row.sha256 ∉ f.verified.map (·.sha256)
  | _ => True

variable {y : System} {e : FlushStep}

theorem deleteVerified_pending (rows : List Row) (s : State) :
    (rows.foldl deleteVerified s).pending = s.pending.filter (·.itemId ∉ rows.map (·.itemId)) := by
  induction rows generalizing s with
  | nil => simp
  | cons v rows ih =>
    rw [List.foldl_cons, ih]
    simp only [deleteVerified, State.deleteRow, List.filter_filter]
    refine List.filter_congr fun r _ => ?_
    rw [Bool.eq_iff_iff]
    simp [and_comm]

theorem putBytes_spool (y : System) (f : Flush) (row : Row) (rest : List Row) (answer : Answer) :
    (transport sha256 y f row rest answer).ledger.spool = y.ledger.spool := by
  unfold transport
  split
  · rfl
  · rfl
  · rfl
  · split <;> rfl

theorem publish_spool (y : System) (f : Flush) (done : Bool) : (publish y f done).ledger.spool = y.ledger.spool := by
  unfold publish
  dsimp only
  split
  · split <;> rfl
  · rfl

theorem begin_spool (y : System) (q : Request) (probe readable : Bool) :
    (begin y q probe readable).ledger.spool = y.ledger.spool := by
  unfold begin
  split
  · rfl
  · dsimp only
    split
    · rfl
    · split <;> rfl

/-- The flush is past its deletions, or there is none. -/
def Over (y : System) : Prop := ∀ f, y.flush = some f → f.phase = .settled

theorem Over.step (h : Over y) (e : FlushStep) :
    Over (flushStep sha256 y e) ∧ (flushStep sha256 y e).ledger = y.ledger ∧ Unshared y e := by
  obtain ⟨ledger, remote, flush, reports⟩ := y
  cases flush with
  | none =>
    have hnone : ∀ f : Flush, none = some f → f.phase = .settled := nofun
    cases e with
    | settle => exact ⟨hnone, rfl, nofun⟩
    | _ => exact ⟨hnone, rfl, trivial⟩
  | some f =>
    obtain ⟨q, queue, existing, verified, conflicts, phase⟩ := f
    obtain rfl : phase = .settled := h _ rfl
    cases e with
    | transport answer => cases queue <;> exact ⟨h, rfl, trivial⟩
    | stop => exact ⟨fun f hf => Option.some.inj hf ▸ rfl, rfl, trivial⟩
    | publish done => cases queue <;> exact ⟨h, rfl, trivial⟩
    | settle =>
      refine ⟨h, rfl, fun f hf hphase => ?_⟩
      rw [h f hf] at hphase
      cases hphase
    | conclude readable => exact ⟨nofun, rfl, trivial⟩
    | crash => exact ⟨nofun, rfl, trivial⟩

theorem Over.run (h : Over y) (steps : List FlushStep) : (runFrom (flushStep sha256) y steps).ledger = y.ledger ∧
    Along (flushStep sha256) (fun y e _ => Unshared y e) y steps := by
  induction steps generalizing y with
  | nil => exact ⟨rfl, trivial⟩
  | cons e steps ih =>
    obtain ⟨hover, hledger, hunshared⟩ := h.step sha256 e
    obtain ⟨hrest, halong⟩ := ih hover
    exact ⟨hrest.trans hledger, hunshared, halong⟩

/-- A step that does not commit keeps the pinned files. -/
theorem flushStep_spool (h : e = .settle → ∀ f, y.flush = some f → f.phase ≠ .published true) :
    (flushStep sha256 y e).ledger.spool = y.ledger.spool ∧ Unshared y e := by
  cases e with
  | transport answer =>
    refine ⟨?_, trivial⟩
    simp only [flushStep, FlushStep.event, step]
    split
    · exact putBytes_spool ..
    · rfl
  | stop => exact ⟨rfl, trivial⟩
  | publish done =>
    refine ⟨?_, trivial⟩
    simp only [flushStep, FlushStep.event, step]
    split
    · exact publish_spool ..
    · rfl
  | settle =>
    refine ⟨?_, fun f hf hphase => absurd hphase (h rfl f hf)⟩
    simp only [flushStep, FlushStep.event, step]
    split
    · rename_i committed hf
      cases committed with
      | false => rfl
      | true => exact absurd rfl (h rfl _ hf)
    · rfl
  | conclude readable =>
    refine ⟨?_, trivial⟩
    simp only [flushStep, FlushStep.event, step]
    split <;> rfl
  | crash => exact ⟨rfl, trivial⟩

/-- The rows and the pinned files that a commit leaves. -/
theorem settle_pinned_iff {f : Flush} (hf : y.flush = some f) (hphase : f.phase = .published true) :
    Over (flushStep sha256 y .settle) ∧
      (Pinned y.ledger (flushStep sha256 y .settle).ledger ↔ Unshared y .settle) := by
  obtain ⟨ledger, remote, flush, reports⟩ := y
  obtain ⟨q, queue, existing, verified, conflicts, phase⟩ := f
  obtain rfl : flush = _ := hf
  obtain rfl : phase = _ := hphase
  refine ⟨fun f hf => Option.some.inj hf ▸ rfl, ?_⟩
  have hstep : (flushStep sha256 ⟨ledger, remote, some ⟨q, queue, existing, verified, conflicts, .published true⟩, reports⟩
      .settle).ledger = { verified.foldl deleteVerified ledger with
        spool := ledger.spool.filter fun e => e.1 ∉ verified.map (·.sha256) } := rfl
  have hget (sha : Str) : PyList.get? (ledger.spool.filter fun e => e.1 ∉ verified.map (·.sha256)) sha =
      if sha ∉ verified.map (·.sha256) then PyList.get? ledger.spool sha else none := by
    rw [PyList.get?_filter (fun sha => decide (sha ∉ verified.map (·.sha256)))]
    simp only [decide_eq_true_eq]
  rw [hstep]
  constructor
  · intro h g hg _ row hrow hid hpin hmem
    obtain rfl := Option.some.inj hg
    have hleft := h row (by
      rw [deleteVerified_pending, List.mem_filter]
      exact ⟨hrow, by simpa using hid⟩) hpin
    rw [hget, if_neg (not_not.2 hmem)] at hleft
    rw [← hleft] at hpin
    cases hpin
  · intro h row hrow hpin
    rw [deleteVerified_pending, List.mem_filter] at hrow
    have hout := h _ rfl rfl row hrow.1 (by simpa using hrow.2) hpin
    rw [hget, if_pos hout]

end

/-- The rows that a flush leaves have their pinned files exactly where it deletes no row that shares one with a row
that it leaves. -/
theorem flush_pinned_iff (sha256 : Publish.Bytes → Str) (y : System) (q : Request) (probe readable : Bool)
    (steps : List FlushStep) : Pinned y.ledger (flush sha256 y q probe readable steps).ledger ↔
      Along (flushStep sha256) (fun y e _ => Unshared y e) (begin y q probe readable) steps := by
  rw [flush]
  have hspool := begin_spool y q probe readable
  generalize begin y q probe readable = z at hspool
  induction steps generalizing z with
  | nil => exact iff_of_true (fun row _ _ => by rw [runFrom, List.foldl_nil, hspool]) trivial
  | cons e steps ih =>
    rw [runFrom, List.foldl_cons, ← runFrom, Along]
    by_cases hc : e = .settle ∧ ∃ f, z.flush = some f ∧ f.phase = .published true
    · -- the commit is the last step that changes anything
      obtain ⟨rfl, f, hf, hphase⟩ := hc
      obtain ⟨hover, hiff⟩ := settle_pinned_iff sha256 hf hphase
      obtain ⟨hledger, halong⟩ := hover.run sha256 steps
      rw [hledger, ← hiff, and_iff_left halong, Pinned, Pinned, hspool]
    · obtain ⟨hkeep, hunshared⟩ := @flushStep_spool sha256 z e fun he f hf hphase =>
        hc ⟨he, f, hf, hphase⟩
      exact (ih _ (hkeep.trans hspool)).trans (and_iff_right hunshared).symm

/-- An OCR body, listed in the seal and kept in the OCR cache. -/
def sharedBody : List Event :=
  let sha := plainSha [97]
  [.disk [("body".toList, [97]), ("cached".toList, [97])] [],
    .run "root".toList "r1".toList 0
      ⟨[("ocr".toList, sha, 1, "body".toList, "text/markdown".toList)], [],
        [("k".toList, "body.md".toList, "cached".toList)], false⟩]

/-- The budget is spent after the first row. -/
def oneRow : List FlushStep := [.transport .done, .stop, .publish true, .settle, .conclude true]

/-- The row of the cache file is left without the pinned file. -/
theorem shared_file_deleted :
    let y := runFrom (step plainSha) freshSystem sharedBody
    ¬ Pinned y.ledger (flush plainSha y ⟨"root".toList, true, true, true, none, none⟩ true true oneRow).ledger := by
  intro y h
  have hleft := h (cacheFile plainSha 0 ("k".toList, "body.md".toList, "cached".toList) [97]) (by decide) rfl
  cases hleft

end CardRag.Backup
