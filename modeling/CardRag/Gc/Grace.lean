import CardRag.Gc.Collect

/-! # The grace period over runs

A row of the table stands for an unbroken series of runs in which its path was a candidate, from the
run that first saw it unreferenced on (`Since`). A run deletes a path only by such a row, so only after
the grace period (`grace_respected`). -/

namespace CardRag.Gc

/-- `first` saw `path` unreferenced, and so did every later one of `runs` that completed its mark phase. -/
def Since (runs : List Run) (path : Str) (before : List Run) (first : Run) (later : List Run) : Prop :=
  runs = before ++ first :: later ∧ first.completed.isSome ∧
    ∀ r ∈ first :: later, ∀ m, r.completed = some m → path ∈ m.candidates

/-- Every row dates from a run since which its path was a candidate. -/
def Dated (runs : List Run) (table : Table) : Prop :=
  ∀ row ∈ table, ∃ before first later, Since runs row.remotePath before first later ∧
    first.observedAt = row.firstSeenAt

section
variable {table : Table} {path : Str} {observedAt : Nat} {row : Unreferenced}

/-- A row of the same path and date. -/
def Dates (table : Table) (path : Str) (seen : Nat) : Prop :=
  ∃ old ∈ table, old.remotePath = path ∧ old.firstSeenAt = seen

theorem mem_upsert (h : row ∈ upsert table path observedAt) :
    Dates table row.remotePath row.firstSeenAt ∨ (row.remotePath = path ∧ row.firstSeenAt = observedAt) := by
  unfold upsert at h
  split at h
  · obtain ⟨old, hold, rfl⟩ := List.mem_map.1 h
    refine .inl ⟨old, hold, ?_⟩
    split <;> exact ⟨rfl, rfl⟩
  · rcases List.mem_append.1 h with h | h
    · exact .inl ⟨row, h, rfl, rfl⟩
    · rw [List.mem_singleton] at h
      exact .inr (h ▸ ⟨rfl, rfl⟩)

theorem dates_upsert {p : Str} {seen : Nat} (h : Dates (upsert table path observedAt) p seen) :
    Dates table p seen ∨ (p = path ∧ seen = observedAt) := by
  obtain ⟨row, hrow, rfl, rfl⟩ := h
  exact mem_upsert hrow

theorem dates_noteAll {paths : List Str} {p : Str} {seen : Nat}
    (h : Dates (noteAll observedAt table paths).1 p seen) : Dates table p seen ∨ (p ∈ paths ∧ seen = observedAt) := by
  induction paths generalizing table with
  | nil => exact .inl h
  | cons q qs ih =>
    rcases ih h with h | ⟨hp, hseen⟩
    · rcases dates_upsert h with h | ⟨rfl, hseen⟩
      · exact .inl h
      · exact .inr ⟨List.mem_cons_self, hseen⟩
    · exact .inr ⟨List.mem_cons_of_mem _ hp, hseen⟩

/-- What `note_unreferenced` returns is an earlier date or the time of the run. -/
theorem mem_seen {paths : List Str} {p : Str} {seen : Nat} (h : (p, seen) ∈ (noteAll observedAt table paths).2) :
    p ∈ paths ∧ (Dates table p seen ∨ seen = observedAt) := by
  induction paths generalizing table with
  | nil => exact absurd h List.not_mem_nil
  | cons q qs ih =>
    rcases List.mem_cons.1 h with h | h
    · obtain ⟨rfl, rfl⟩ := Prod.mk.inj h
      refine ⟨List.mem_cons_self, ?_⟩
      unfold firstSeen
      cases hfind : (upsert table p observedAt).find? (·.remotePath = p) with
      | none => exact .inr rfl
      | some row =>
        have hpath : row.remotePath = p := by simpa using List.find?_some hfind
        rcases mem_upsert (List.mem_of_find?_eq_some hfind) with hrow | ⟨-, hseen⟩
        · exact .inl (hpath ▸ hrow)
        · exact .inr hseen
    · obtain ⟨hp, hseen⟩ := ih h
      refine ⟨List.mem_cons_of_mem _ hp, ?_⟩
      rcases hseen with hseen | hseen
      · rcases dates_upsert hseen with hseen | ⟨-, hseen⟩
        · exact .inl hseen
        · exact .inr hseen
      · exact .inr hseen

end

/-! ### The sweep -/

section
variable (answer : Str → Answer)

theorem sweep_table (table : Table) (paths : List Str) : ∀ row ∈ (sweep answer table paths).table, row ∈ table := by
  induction paths generalizing table with
  | nil => exact fun row h => h
  | cons p ps ih =>
    intro row h
    rw [sweep] at h
    have hrest : ∀ row ∈ (sweep answer (clearUnreferenced table p) ps).table, row ∈ table :=
      fun row h => List.mem_of_mem_filter (ih _ row h)
    cases hanswer : answer p with
    | leafGone =>
      rw [hanswer] at h
      dsimp only at h
      split at h <;> exact hrest row h
    | deleted =>
      rw [hanswer] at h
      exact hrest row h
    | pointerChanged | raised | cancelled =>
      rw [hanswer] at h
      exact h

theorem sweep_requested (table : Table) (paths : List Str) : ∀ p ∈ (sweep answer table paths).requested, p ∈ paths := by
  induction paths generalizing table with
  | nil => exact fun p h => h
  | cons q qs ih =>
    intro p h
    rw [sweep] at h
    have hcons : p ∈ q :: (sweep answer (clearUnreferenced table q) qs).requested → p ∈ q :: qs := by
      intro h
      rcases List.mem_cons.1 h with rfl | h
      · exact List.mem_cons_self
      · exact List.mem_cons_of_mem _ (ih _ p h)
    cases hanswer : answer q with
    | leafGone =>
      rw [hanswer] at h
      dsimp only at h
      split at h
      · exact List.mem_cons_of_mem _ (ih _ p h)
      · exact hcons h
    | deleted =>
      rw [hanswer] at h
      exact hcons h
    | pointerChanged =>
      rw [hanswer] at h
      exact absurd h List.not_mem_nil
    | raised sent | cancelled sent =>
      rw [hanswer] at h
      dsimp only at h
      split at h
      · exact List.mem_singleton.1 h ▸ List.mem_cons_self
      · exact absurd h List.not_mem_nil

theorem sweep_deleted (table : Table) (paths : List Str) :
    ∀ p ∈ (sweep answer table paths).deleted, p ∈ (sweep answer table paths).requested := by
  induction paths generalizing table with
  | nil => exact fun p h => h
  | cons q qs ih =>
    intro p
    rw [sweep]
    have hcons : p ∈ q :: (sweep answer (clearUnreferenced table q) qs).deleted →
        p ∈ q :: (sweep answer (clearUnreferenced table q) qs).requested := by
      intro h
      rcases List.mem_cons.1 h with rfl | h
      · exact List.mem_cons_self
      · exact List.mem_cons_of_mem _ (ih _ p h)
    cases hanswer : answer q with
    | leafGone =>
      dsimp only
      split
      · exact ih _ p
      · exact hcons
    | deleted => exact hcons
    | pointerChanged | raised | cancelled => exact fun h => absurd h List.not_mem_nil

end

/-! ### One run -/

/-- What a run that completed its mark phase leaves and asks for. -/
structure Sweeps (run : Run) (table : Table) (marks : Marks) (c : Collected) : Prop where
  rows : ∀ row ∈ c.table, row.remotePath ∈ marks.candidates ∧
    (Dates table row.remotePath row.firstSeenAt ∨ row.firstSeenAt = run.observedAt)
  requested : ∀ p ∈ c.requested, p ∈ marks.candidates ∧ ∃ seen, (Dates table p seen ∨ seen = run.observedAt) ∧
    seen + graceMicroseconds run.graceDays ≤ run.observedAt
  deleted : ∀ p ∈ c.deleted, p ∈ c.requested

theorem deletionOrder_path {path : Str} {key : Nat × Str} (h : deletionOrder path = .ok key) : key.2 = path := by
  unfold deletionOrder at h
  repeat' split at h
  all_goals cases h
  all_goals rfl

theorem map_deletionOrder {paths : List Str} {keys : List (Nat × Str)} (h : paths.mapM deletionOrder = .ok keys) :
    keys.map (·.2) = paths := by
  rw [Guard.mapM_eq_ok] at h
  induction h with
  | nil => rfl
  | cons hkey _ ih => rw [List.map_cons, deletionOrder_path hkey, ih]

theorem mem_eligible {run : Run} {seen : List (Str × Nat)} {paths : List Str} (h : eligible run seen = .ok paths)
    {p : Str} (hp : p ∈ paths) :
    ∃ s, (p, s) ∈ seen ∧ s + graceMicroseconds run.graceDays ≤ run.observedAt := by
  unfold eligible at h
  split at h
  · cases h
  · rename_i hgrace
    simp only [Guard.bind_eq_ok, Guard.pure_eq_ok] at h
    obtain ⟨keys, hkeys, rfl⟩ := h
    obtain ⟨key, hkey, rfl⟩ := List.mem_map.1 hp
    rw [PyList.mem_sortedBy] at hkey
    have hmem : key.2 ∈ keys.map (·.2) := List.mem_map_of_mem hkey
    rw [map_deletionOrder hkeys] at hmem
    obtain ⟨⟨q, s⟩, hqs, hq⟩ := List.mem_map.1 hmem
    obtain ⟨hseen, hle⟩ := List.mem_filter.1 hqs
    rw [decide_eq_true_eq] at hle
    exact ⟨s, hq ▸ hseen, by omega⟩

/-- The rows a run leaves when it deletes nothing, and the paths it may delete. -/
theorem noted_rows (run : Run) (marks : Marks) (table : Table) :
    ∀ row ∈ clearUnreferencedExcept (noteAll run.observedAt table marks.candidates).1 marks.candidates,
      row.remotePath ∈ marks.candidates ∧
        (Dates table row.remotePath row.firstSeenAt ∨ row.firstSeenAt = run.observedAt) := by
  intro row hrow
  obtain ⟨hrow, hcand⟩ := List.mem_filter.1 hrow
  refine ⟨of_decide_eq_true hcand, ?_⟩
  rcases dates_noteAll ⟨row, hrow, rfl, rfl⟩ with h | ⟨-, h⟩
  · exact .inl h
  · exact .inr h

theorem delete_spec (run : Run) (marks : Marks) (table : Table) (paths : List Str) :
    (∀ row ∈ (run.delete marks table paths).table, row ∈ table) ∧
      (∀ p ∈ (run.delete marks table paths).requested, p ∈ paths) ∧
      ∀ p ∈ (run.delete marks table paths).deleted, p ∈ (run.delete marks table paths).requested := by
  unfold Run.delete
  split
  · exact ⟨fun _ h => h, fun _ h => absurd h List.not_mem_nil, fun _ h => h⟩
  split
  · exact ⟨fun _ h => h, fun _ h => absurd h List.not_mem_nil, fun _ h => h⟩
  · exact ⟨sweep_table _ _ _, sweep_requested _ _ _, sweep_deleted _ _ _⟩

theorem sweeps_afterMark (run : Run) (marks : Marks) (table : Table) :
    Sweeps run table marks (run.afterMark marks table) := by
  have hrows := noted_rows run marks table
  unfold Run.afterMark
  dsimp only
  generalize hnoted : noteAll run.observedAt table marks.candidates = noted at hrows
  cases helig : eligible run noted.2 with
  | error e => exact ⟨hrows, fun p h => absurd h List.not_mem_nil, fun p h => absurd h List.not_mem_nil⟩
  | ok paths =>
    obtain ⟨htable, hrequested, hdeleted⟩ :=
      delete_spec run marks (clearUnreferencedExcept noted.1 marks.candidates) paths
    refine ⟨fun row h => hrows row (htable row h), fun p hp => ?_, hdeleted⟩
    obtain ⟨s, hs, hle⟩ := mem_eligible helig (hrequested p hp)
    rw [← hnoted] at hs
    obtain ⟨hcand, hdate⟩ := mem_seen hs
    exact ⟨hcand, s, hdate, hle⟩

theorem collectGarbage_of_completed {run : Run} {marks : Marks} (table : Table) (hmarks : run.completed = some marks) :
    run.collectGarbage table = run.afterMark marks table := by
  unfold Run.completed at hmarks
  split at hmarks
  · cases hmarks
  · rename_i hargs
    obtain ⟨hretain, hgrace, hpointer⟩ : ¬ _ ∧ ¬ _ ∧ ¬ _ := by simpa only [not_or] using hargs
    rw [Run.collectGarbage, if_neg (not_or.2 ⟨hretain, hgrace⟩), if_neg hpointer, hmarks]

theorem sweeps_collectGarbage {run : Run} {marks : Marks} (table : Table) (hmarks : run.completed = some marks) :
    Sweeps run table marks (run.collectGarbage table) := by
  rw [collectGarbage_of_completed table hmarks]
  exact sweeps_afterMark run marks table

/-- A run whose mark phase raised does nothing. -/
theorem collectGarbage_of_not_completed {run : Run} (table : Table) (h : run.completed = none) :
    (run.collectGarbage table).table = table ∧ (run.collectGarbage table).requested = [] ∧
      (run.collectGarbage table).deleted = [] := by
  unfold Run.collectGarbage
  by_cases hargs : run.retainGenerations < 1 ∨ run.graceDays < 1
  · rw [if_pos hargs]
    exact ⟨rfl, rfl, rfl⟩
  rw [if_neg hargs]
  by_cases hpointer : run.knownPointer = false
  · rw [if_pos hpointer]
    exact ⟨rfl, rfl, rfl⟩
  rw [if_neg hpointer]
  rw [not_or] at hargs
  rw [Run.completed, if_neg (not_or.2 ⟨hargs.1, not_or.2 ⟨hargs.2, hpointer⟩⟩)] at h
  rw [h]
  exact ⟨rfl, rfl, rfl⟩

/-! ### Runs -/

theorem Since.snoc {runs : List Run} {path : Str} {before later : List Run} {first run : Run}
    (h : Since runs path before first later) (hrun : ∀ m, run.completed = some m → path ∈ m.candidates) :
    Since (runs ++ [run]) path before first (later ++ [run]) := by
  obtain ⟨rfl, hfirst, hall⟩ := h
  refine ⟨by rw [List.append_assoc, List.cons_append], hfirst, ?_⟩
  intro r hr
  rw [← List.cons_append] at hr
  rcases List.mem_append.1 hr with hr | hr
  · exact hall r hr
  · rw [List.mem_singleton] at hr
    exact hr ▸ hrun

theorem Dated.snoc {runs : List Run} {table : Table} (h : Dated runs table) (run : Run) :
    Dated (runs ++ [run]) (run.collectGarbage table).table := by
  intro row hrow
  cases hmarks : run.completed with
  | none =>
    rw [(collectGarbage_of_not_completed table hmarks).1] at hrow
    obtain ⟨before, first, later, hsince, hdate⟩ := h row hrow
    exact ⟨before, first, later ++ [run], hsince.snoc (fun m hm => by rw [hmarks] at hm; cases hm), hdate⟩
  | some marks =>
    obtain ⟨hcand, hdates⟩ := (sweeps_collectGarbage table hmarks).rows row hrow
    have hrun : ∀ m, run.completed = some m → row.remotePath ∈ m.candidates := by
      intro m hm
      rw [hmarks] at hm
      exact Option.some.inj hm ▸ hcand
    rcases hdates with ⟨old, hold, hpath, hseen⟩ | hseen
    · obtain ⟨before, first, later, hsince, hdate⟩ := h old hold
      rw [hpath] at hsince
      exact ⟨before, first, later ++ [run], hsince.snoc hrun, hdate.trans hseen⟩
    · refine ⟨runs, run, [], ⟨rfl, ?_, ?_⟩, hseen.symm⟩
      · rw [hmarks]
        rfl
      · intro r hr
        rw [List.mem_singleton] at hr
        exact hr ▸ hrun

theorem dated_tableAfter (runs : List Run) : Dated runs (tableAfter runs) := by
  induction runs using List.reverseRecOn with
  | nil => exact fun row h => absurd h List.not_mem_nil
  | append_singleton runs run ih =>
    rw [tableAfter, List.foldl_append]
    exact ih.snoc run

/-- A run that deletes a path, or asks for its deletion, comes the grace period after a run since which
the path was a candidate of every run that completed its mark phase; and that run comes after every
completed run in which the path was referenced. -/
theorem grace_respected (runs : List Run) (run : Run) {path : Str}
    (h : path ∈ (run.collectGarbage (tableAfter runs)).deleted ∨
      path ∈ (run.collectGarbage (tableAfter runs)).requested) :
    ∃ before first later, Since (runs ++ [run]) path before first (later ++ [run]) ∧
      first.observedAt + graceMicroseconds run.graceDays ≤ run.observedAt ∧
      ∀ before' r later' m, runs = before' ++ r :: later' → r.completed = some m → path ∉ m.candidates →
        ∃ between, later' = between ++ first :: later := by
  cases hmarks : run.completed with
  | none =>
    obtain ⟨-, hrequested, hdeleted⟩ := collectGarbage_of_not_completed (tableAfter runs) hmarks
    rw [hrequested, hdeleted] at h
    rcases h with h | h <;> exact absurd h List.not_mem_nil
  | some marks =>
    have hsweeps := sweeps_collectGarbage (tableAfter runs) hmarks
    have hpath : path ∈ (run.collectGarbage (tableAfter runs)).requested := h.elim (hsweeps.deleted path) id
    obtain ⟨hcand, seen, hdates, hle⟩ := hsweeps.requested path hpath
    -- the grace period is positive, so the row is older than the run
    have hgrace : 0 < graceMicroseconds run.graceDays := by
      have hdays : ¬ run.graceDays < 1 := fun hlt => by
        rw [Run.completed, if_pos (.inr (.inl hlt))] at hmarks
        cases hmarks
      unfold graceMicroseconds
      omega
    obtain ⟨old, hold, rfl, rfl⟩ | rfl := hdates
    · obtain ⟨before, first, later, hsince, hdate⟩ := dated_tableAfter runs old hold
      refine ⟨before, first, later, hsince.snoc fun m hm => ?_, hdate ▸ hle, ?_⟩
      · rw [hmarks] at hm
        exact Option.some.inj hm ▸ hcand
      · intro before' r later' m hruns hm hout
        obtain ⟨hsplit, -, hall⟩ := hsince
        have hnot : r ∉ first :: later := fun hr => hout (hall r hr m hm)
        rw [hruns] at hsplit
        rcases List.append_eq_append_iff.1 hsplit with ⟨a, -, ha⟩ | ⟨c, -, hc⟩
        · cases a with
          | nil => exact absurd ((List.cons.inj ha).1 ▸ List.mem_cons_self) hnot
          | cons x between => exact ⟨between, (List.cons.inj ha).2⟩
        · exact absurd (hc ▸ List.mem_append_right c List.mem_cons_self) hnot
    · omega

/-- An object that no generation refers to. -/
def leftover : Str := "v1/objects/sha256/00/00".toList

/-- A run with one day of grace that finds only `leftover`. -/
def sweepAt (observedAt : Nat) : Run :=
  ⟨true, 2, 1, observedAt, true, some ⟨[], [], [], [leftover], [], []⟩, true, fun _ => .deleted⟩

theorem grace_respected_leftover : leftover ∈ ((sweepAt 90000000000).collectGarbage (tableAfter [sweepAt 0])).deleted ∧
    ∃ before first later, Since [sweepAt 0, sweepAt 90000000000] leftover before first (later ++ [sweepAt 90000000000]) ∧
      first.observedAt + graceMicroseconds 1 ≤ 90000000000 := by
  have hdeleted : leftover ∈ ((sweepAt 90000000000).collectGarbage (tableAfter [sweepAt 0])).deleted := by
    decide +kernel
  obtain ⟨before, first, later, hsince, hle, -⟩ := grace_respected [sweepAt 0] (sweepAt 90000000000) (.inl hdeleted)
  exact ⟨hdeleted, before, first, later, hsince, hle⟩

end CardRag.Gc
