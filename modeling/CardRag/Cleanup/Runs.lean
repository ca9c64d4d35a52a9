import CardRag.Core

/-! # The cleanup of local runs (`_cleanup_local_runs`)

Run directories are deleted when their run is over and nothing needs them. A run may take its inputs from
another one, which its execution plan names, so what is kept is closed under these references: a worklist over
the plans on disk, which may form cycles or name runs that are gone (`cleanup_respects_chains`). -/

namespace CardRag.Cleanup

inductive RunStatus where
  | running
  | succeeded
  | failed
  | noChange
  | interrupted
deriving DecidableEq

/-- A row of `run`. -/
structure RunRow where
  runId : Str
  startedAt : Str
  status : RunStatus
deriving DecidableEq

/-- A row of `publish`. -/
structure PublishRow where
  generationId : Str
  runId : Str
  ready : Bool
  publishedAt : Str
deriving DecidableEq

/-- `execution-plan.json` of a run directory. -/
inductive PlanFile where
  /-- No regular file is there. -/
  | absent
  /-- It is no JSON object, or cannot be read. -/
  | broken
  /-- `source_run_id`, where it is text. -/
  | plan (sourceRunId : Option Str)
deriving DecidableEq

/-- An entry of `runs`. -/
inductive RunEntry where
  | directory (plan : PlanFile)
  /-- A symbolic link to a directory. -/
  | link (plan : PlanFile)
  | other
deriving DecidableEq

structure Worker where
  runs : List RunRow
  publications : List PublishRow
  /-- `runs`, where it is a directory and no symbolic link. -/
  entries : Option (List (Str × RunEntry))
  /-- `pending_acquisitions`. -/
  pendingAcquisitions : Except Raised (List Str)
  retainedGenerations : Nat
  retainedIncompleteRuns : Nat

/-- `ORDER BY … DESC`. -/
def descending {α κ : Type} [LinearOrder κ] (key : α → κ) (rows : List α) : List α :=
  PyList.sortedBy (fun r => OrderDual.toDual (key r)) rows

def retainedPublicationRunIds (w : Worker) : List Str :=
  ((descending (fun p => toLex (p.publishedAt, p.generationId)) (w.publications.filter (·.ready))).take
    w.retainedGenerations).map (·.runId)

def completedRunIds (w : Worker) : List Str :=
  (PyList.sortedBy (·.startedAt) (w.runs.filter fun r => r.status = .succeeded ∨ r.status = .noChange)).map (·.runId)

def prunableIncompleteRunIds (w : Worker) : List Str :=
  ((descending (fun r => toLex (r.startedAt, r.runId)) (w.runs.filter fun r => r.status = .failed ∨ r.status = .running ∨
    r.status = .interrupted)).drop w.retainedIncompleteRuns).map (·.runId)

def removable (w : Worker) : List Str := completedRunIds w ++ prunableIncompleteRunIds w

/-- `[A-Za-z0-9_-]{1,128}`. -/
def isRunId (value : Str) : Bool :=
  value ≠ [] && decide (value.length ≤ 128) && value.all fun c => c.isAlphanum || c == '_' || c == '-'

def planUnreadable : Raised := valueError "execution plan is not a JSON object"

def notADirectory : Raised := ⟨.runtimeError, "not a directory"⟩

section
variable (entries : List (Str × RunEntry))

def planOf (runId : Str) : PlanFile :=
  match PyList.get? entries runId with
  | some (.directory plan) => plan
  | some (.link plan) => plan
  | _ => .absent

/-- The run that the plan of a run names. -/
def sourceOf (runId : Str) : Except Raised (Option Str) :=
  match planOf entries runId with
  | .absent => .ok none
  | .broken => .error planUnreadable
  | .plan source => .ok (source.filter isRunId)

/-- The runs that are named anywhere. -/
def sources : List Str :=
  entries.filterMap fun e =>
    match e.2 with
    | .directory (.plan source) => source
    | .link (.plan source) => source
    | _ => none

theorem mem_sources {runId source : Str} (h : sourceOf entries runId = .ok (some source)) : source ∈ sources entries := by
  unfold sourceOf at h
  split at h
  · cases h
  · cases h
  · rename_i named hplan
    have hnamed : named = some source := (Option.filter_eq_some_iff.1 (Except.ok.inj h)).1
    unfold planOf at hplan
    split at hplan
    · rename_i plan hget
      refine List.mem_filterMap.2 ⟨_, PyList.mem_of_get? hget, ?_⟩
      rw [hplan]
      exact hnamed
    · rename_i plan hget
      refine List.mem_filterMap.2 ⟨_, PyList.mem_of_get? hget, ?_⟩
      rw [hplan]
      exact hnamed
    · cases hplan

theorem length_fresh_lt {xs kept : List Str} {x : Str} (hmem : x ∈ xs) (hx : x ∉ kept) :
    (xs.filter (· ∉ x :: kept)).length < (xs.filter (· ∉ kept)).length := by
  have hfilter : xs.filter (· ∉ x :: kept) = (xs.filter (· ∉ kept)).filter (· ≠ x) := by
    rw [List.filter_filter]
    refine List.filter_congr fun y _ => ?_
    simp
  rw [hfilter]
  exact List.length_filter_lt_length_iff_exists.2 ⟨x, List.mem_filter.2 ⟨hmem, decide_eq_true hx⟩, by simp⟩

/-- The worklist. -/
def protect (pending kept : List Str) : Except Raised (List Str) :=
  match pending with
  | [] => .ok kept
  | runId :: pending =>
    match _h : sourceOf entries runId with
    | .error e => .error e
    | .ok none => protect pending kept
    | .ok (some source) => if _hs : source ∈ kept then protect pending kept else protect (source :: pending) (source :: kept)
termination_by ((sources entries).filter (· ∉ kept)).length + pending.length
decreasing_by
  · simp
  · simp
  · have := length_fresh_lt (mem_sources entries _h) _hs
    simp only [List.length_cons]
    omega

/-- What is kept. -/
def keptRuns (w : Worker) (excludeRunId : Str) : Except Raised (List Str) := do
  raiseIf (w.retainedGenerations < 1) (valueError "publication retention limit must be positive")
  let acquisitions ← w.pendingAcquisitions
  raiseIf (w.retainedIncompleteRuns < 1) (valueError "incomplete run retention must be positive")
  let directories := (entries.filter fun e => e.2 ≠ .other).map (·.1)
  let kept := (retainedPublicationRunIds w ++ acquisitions ++ [excludeRunId] ++
    (completedRunIds w).filter (· ∉ removable w) ++ directories.filter (· ∉ removable w)).dedup
  protect entries kept kept

/-- The runs that were deleted, and how the loop over them ended. -/
structure Outcome where
  deleted : List Str
  result : Except Raised Unit

def deleteRuns (excludeRunId : Str) (kept : List Str) : List Str → Outcome
  | [] => ⟨[], .ok ()⟩
  | runId :: runIds =>
    if runId = excludeRunId ∨ runId ∈ kept then deleteRuns excludeRunId kept runIds
    else match PyList.get? entries runId with
      | some (.directory _) =>
        { deleteRuns excludeRunId kept runIds with deleted := runId :: (deleteRuns excludeRunId kept runIds).deleted }
      | some .other => ⟨[], .error notADirectory⟩
      | _ => deleteRuns excludeRunId kept runIds

end

/-- `_cleanup_local_runs`, as far as it is about runs. -/
def cleanupLocalRuns (w : Worker) (excludeRunId : Str) : Outcome :=
  match w.entries with
  | none => ⟨[], .ok ()⟩
  | some entries =>
    match keptRuns entries w excludeRunId with
    | .error e => ⟨[], .error e⟩
    | .ok kept => deleteRuns entries excludeRunId kept (PyList.sortedSet (removable w))

/-! ### What is kept -/

section
variable {w : Worker} {entries : List (Str × RunEntry)} {excludeRunId : Str} {pending kept out : List Str} {runId x : Str}

/-- The plan of a run names another one. -/
def Follows (entries : List (Str × RunEntry)) (runId source : Str) : Prop := sourceOf entries runId = .ok (some source)

/-- A run that is kept whatever the plans say. -/
def Root (w : Worker) (excludeRunId runId : Str) : Prop :=
  runId ∈ retainedPublicationRunIds w ∨ (∃ acquisitions, w.pendingAcquisitions = .ok acquisitions ∧ runId ∈ acquisitions) ∨
    runId = excludeRunId ∨ runId ∉ removable w

/-- The plan of a run is read, and what it names is kept. -/
def Closed (entries : List (Str × RunEntry)) (kept : List Str) (runId : Str) : Prop :=
  ∃ source, sourceOf entries runId = .ok source ∧ ∀ s ∈ source, s ∈ kept

theorem Closed.mono {kept' : List Str} (hsub : kept ⊆ kept') (h : Closed entries kept runId) :
    Closed entries kept' runId := by
  obtain ⟨source, hsource, hmem⟩ := h
  exact ⟨source, hsource, fun s hs => hsub (hmem s hs)⟩

/-- The worklist ends with a closed set. -/
theorem protect_closed (h : protect entries pending kept = .ok out)
    (hinv : ∀ x ∈ kept, x ∈ pending ∨ Closed entries kept x) : kept ⊆ out ∧ ∀ x ∈ out, Closed entries out x := by
  induction pending, kept using protect.induct entries with
  | case1 kept =>
    rw [protect] at h
    obtain rfl := Except.ok.inj h
    exact ⟨List.Subset.refl kept, fun x hx => (hinv x hx).resolve_left nofun⟩
  | case2 kept runId pending e hsource =>
    rw [protect, hsource] at h
    cases h
  | case3 kept runId pending hsource ih =>
    rw [protect, hsource] at h
    refine ih h fun x hx => ?_
    rcases hinv x hx with hmem | hclosed
    · rcases List.mem_cons.1 hmem with rfl | hmem
      · exact .inr ⟨none, hsource, nofun⟩
      · exact .inl hmem
    · exact .inr hclosed
  | case4 kept runId pending source hsource hs ih =>
    rw [protect, hsource] at h
    dsimp only at h
    rw [dif_pos hs] at h
    refine ih h fun x hx => ?_
    rcases hinv x hx with hmem | hclosed
    · rcases List.mem_cons.1 hmem with rfl | hmem
      · exact .inr ⟨some source, hsource, fun s hs' => (Option.some.inj hs') ▸ hs⟩
      · exact .inl hmem
    · exact .inr hclosed
  | case5 kept runId pending source hsource hs ih =>
    rw [protect, hsource] at h
    dsimp only at h
    rw [dif_neg hs] at h
    have hnext : ∀ x ∈ source :: kept, x ∈ source :: pending ∨ Closed entries (source :: kept) x := by
      intro x hx
      rcases List.mem_cons.1 hx with rfl | hx
      · exact .inl List.mem_cons_self
      · rcases hinv x hx with hmem | hcl
        · rcases List.mem_cons.1 hmem with rfl | hmem
          · exact .inr ⟨some source, hsource, fun s hs' => (Option.some.inj hs') ▸ List.mem_cons_self⟩
          · exact .inl (List.mem_cons_of_mem _ hmem)
        · exact .inr (hcl.mono fun y hy => List.mem_cons_of_mem _ hy)
    obtain ⟨hsub, hclosed⟩ := ih h hnext
    exact ⟨fun x hx => hsub (List.mem_cons_of_mem _ hx), hclosed⟩

/-- A closed set holds whatever its runs lead to, and every plan on the way was read. -/
theorem Closed.reaches {root : Str} (hclosed : ∀ x ∈ out, Closed entries out x) (hroot : root ∈ out)
    (h : Relation.ReflTransGen (Follows entries) root x) : x ∈ out := by
  induction h with
  | refl => exact hroot
  | tail _ hstep ih =>
    obtain ⟨source, hsource, hmem⟩ := hclosed _ ih
    obtain rfl := Except.ok.inj (hsource.symm.trans hstep)
    exact hmem _ rfl

/-- The roots are kept, but for a name that has no plan. -/
theorem root_kept (h : keptRuns entries w excludeRunId = .ok out) (hroot : Root w excludeRunId runId) :
    (runId ∈ out ∧ ∀ x ∈ out, Closed entries out x) ∨ (runId ∉ removable w ∧ planOf entries runId = .absent) := by
  simp only [keptRuns, Guard.bind_eq_ok, raiseIf_eq_ok, Guard.exists_unit] at h
  obtain ⟨-, acquisitions, hacquisitions, -, h⟩ := h
  obtain ⟨hsub, hclosed⟩ := protect_closed h fun x hx => .inl hx
  have hmem : ∀ {x}, (x ∈ retainedPublicationRunIds w ∨ x ∈ acquisitions ∨ x = excludeRunId ∨
      x ∈ ((entries.filter fun e => e.2 ≠ .other).map (·.1)).filter (· ∉ removable w)) → x ∈ out := by
    intro x hx
    refine hsub (List.mem_dedup.2 ?_)
    simp only [List.mem_append, List.mem_singleton]
    tauto
  rcases hroot with hpub | ⟨acquisitions', hacq, hin⟩ | heq | hnot
  · exact .inl ⟨hmem (.inl hpub), hclosed⟩
  · obtain rfl := Except.ok.inj (hacquisitions.symm.trans hacq)
    exact .inl ⟨hmem (.inr (.inl hin)), hclosed⟩
  · exact .inl ⟨hmem (.inr (.inr (.inl heq))), hclosed⟩
  · have hdirectory : ∀ entry, PyList.get? entries runId = some entry → entry ≠ .other → runId ∈ out := by
      intro entry hget hne
      refine hmem (.inr (.inr (.inr (List.mem_filter.2 ⟨?_, decide_eq_true hnot⟩))))
      exact List.mem_map.2 ⟨_, List.mem_filter.2 ⟨PyList.mem_of_get? hget, decide_eq_true hne⟩, rfl⟩
    cases hget : PyList.get? entries runId with
    | none => exact .inr ⟨hnot, by rw [planOf, hget]⟩
    | some entry =>
      cases entry with
      | directory plan => exact .inl ⟨hdirectory _ hget (by simp), hclosed⟩
      | link plan => exact .inl ⟨hdirectory _ hget (by simp), hclosed⟩
      | other => exact .inr ⟨hnot, by rw [planOf, hget]⟩

theorem mem_deleteRuns {runIds : List Str} (h : x ∈ (deleteRuns entries excludeRunId kept runIds).deleted) :
    x ∈ runIds ∧ x ≠ excludeRunId ∧ x ∉ kept := by
  induction runIds with
  | nil => cases h
  | cons runId runIds ih =>
    have htail : x ∈ (deleteRuns entries excludeRunId kept runIds).deleted →
        x ∈ runId :: runIds ∧ x ≠ excludeRunId ∧ x ∉ kept :=
      fun h => ⟨List.mem_cons_of_mem _ (ih h).1, (ih h).2⟩
    unfold deleteRuns at h
    split at h
    · exact htail h
    · rename_i hno
      split at h
      · rcases List.mem_cons.1 h with rfl | h
        · exact ⟨List.mem_cons_self, fun heq => hno (.inl heq), fun hk => hno (.inr hk)⟩
        · exact htail h
      · cases h
      · exact htail h

/-- Nothing that a kept run leads to is deleted, and nothing at all where a plan on the way cannot be read. -/
theorem cleanup_respects_chains (w : Worker) (excludeRunId : Str) :
    (∀ runId ∈ (cleanupLocalRuns w excludeRunId).deleted, ∀ entries ∈ w.entries, ∀ root, Root w excludeRunId root →
      ¬ Relation.ReflTransGen (Follows entries) root runId) ∧
    ∀ entries ∈ w.entries, ∀ root x, Root w excludeRunId root → Relation.ReflTransGen (Follows entries) root x →
      planOf entries x = .broken → (cleanupLocalRuns w excludeRunId).deleted = [] := by
  have habsent : ∀ {entries : List (Str × RunEntry)} {root x : Str}, planOf entries root = .absent →
      Relation.ReflTransGen (Follows entries) root x → x = root := by
    intro entries root x hplan h
    rcases Relation.ReflTransGen.cases_head h with rfl | ⟨y, hstep, -⟩
    · rfl
    · rw [Follows, sourceOf, hplan] at hstep
      cases hstep
  constructor
  · intro runId hdeleted entries hentries root hroot hreach
    have hentries : w.entries = some entries := hentries
    unfold cleanupLocalRuns at hdeleted
    rw [hentries] at hdeleted
    dsimp only at hdeleted
    split at hdeleted
    · cases hdeleted
    · rename_i kept hkept
      obtain ⟨hmem, -, hnot⟩ := mem_deleteRuns hdeleted
      rcases root_kept hkept hroot with ⟨hin, hclosed⟩ | ⟨hrem, hplan⟩
      · exact hnot (Closed.reaches hclosed hin hreach)
      · rw [habsent hplan hreach] at hmem
        exact hrem (PyList.mem_sortedSet.1 hmem)
  · intro entries hentries root x hroot hreach hbroken
    have hentries : w.entries = some entries := hentries
    unfold cleanupLocalRuns
    rw [hentries]
    dsimp only
    split
    · rfl
    · rename_i kept hkept
      rcases root_kept hkept hroot with ⟨hin, hclosed⟩ | ⟨-, hplan⟩
      · obtain ⟨source, hsource, -⟩ := hclosed x (Closed.reaches hclosed hin hreach)
        rw [sourceOf, hbroken] at hsource
        cases hsource
      · rw [habsent hplan hreach, hplan] at hbroken
        cases hbroken

end

/-- A published run over the data of an earlier one. -/
def chain : Worker where
  runs := [⟨"base".toList, "1".toList, .succeeded⟩, ⟨"next".toList, "2".toList, .succeeded⟩]
  publications := [⟨"g".toList, "next".toList, true, "3".toList⟩]
  entries := some [("base".toList, .directory .absent), ("next".toList, .directory (.plan (some "base".toList)))]
  pendingAcquisitions := .ok []
  retainedGenerations := 1
  retainedIncompleteRuns := 1

theorem cleanup_respects_chains_pair : "base".toList ∉ (cleanupLocalRuns chain "run".toList).deleted := by
  intro h
  refine (cleanup_respects_chains chain "run".toList).1 "base".toList h _ rfl "next".toList (.inl (by decide)) ?_
  exact Relation.ReflTransGen.single (by rfl)

end CardRag.Cleanup
