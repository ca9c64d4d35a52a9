import CardRag.Generations.Pins

/-! # The durable pointer, with any number of processes

Processes share the state root, and each of their operations runs under the lifecycle lock. A prune
goes by the generation its own process has active, not by the one `current.json` names. -/

namespace CardRag.Generations

variable {ι : Type} [DecidableEq ι]

structure World (ι : Type) where
  disk : Disk
  processes : ι → Process

namespace World

/-- No process has done anything yet. -/
def start (d : Disk) : World ι := ⟨d, fun _ => .start⟩

def store (w : World ι) (i : ι) : Store := ⟨w.disk, w.processes i⟩

end World

/-- One process does one operation. -/
def act (settings : ι → Settings) (w : World ι) (a : ι × Operation) : World ι :=
  let after := perform (settings a.1) (w.store a.1) a.2
  ⟨after.disk, Function.update w.processes a.1 after.process⟩

/-- The generation that `current.json` names keeps its directory. -/
def KeepsCurrent (w : World ι) (_ : ι × Operation) (after : World ι) : Prop :=
  ∀ id, after.disk.current = some id → w.disk.has id = true → after.disk.has id = true

/-- The generation is active in the process, one of the newest, rooted, or pinned in the process. -/
def Covered (s : Settings) (st : Store) (id : Str) : Prop :=
  st.process.activeGenerationId = some id ∨ id ∈ ((candidates st.disk).take s.retention).map (·.name) ∨
    id ∈ st.disk.roots.map (·.2) ∨ st.process.pinned id = true

/-- A release that prunes finds the generation that `current.json` names covered in its own process. -/
def ReleasesCovered (settings : ι → Settings) (w : World ι) (a : ι × Operation) (_ : World ι) : Prop :=
  ∀ k, a.2 = .release k → prunes (settings a.1) (w.store a.1) a.2 = true →
    ∀ id, w.disk.current = some id → isGenerationId id = true → w.disk.has id = true →
      Covered (settings a.1) (unpruned (settings a.1) (w.store a.1) a.2) id

theorem mem_retained_iff {s : Settings} {st : Store} {id : Str} :
    id ∈ retained s st ∨ st.process.pinned id = true ↔ Covered s st id := by
  simp only [retained, Covered, List.mem_append, Option.mem_toList]
  tauto

theorem unpruned_release_disk (s : Settings) (st : Store) (k : Nat) : (unpruned s st (.release k)).disk = st.disk := by
  cases hk : st.process.pins[k]? with
  | none => simp only [unpruned, hk]
  | some entry => simp only [unpruned, hk]

/-- The process that activates a generation has it active when it prunes. -/
theorem active_of_switch {s : Settings} {st st' : Store} {handle : GenerationHandle} {quota : Except Failure Unit}
    (hinv : st.process.Inv) (h : switch s st handle quota = .ok st') :
    st'.disk.current = some handle.generationId ∧ st'.process.activeGenerationId = some handle.generationId := by
  unfold switch at h
  simp only [Guard.bind_eq_ok, raiseIf_eq_ok, Guard.exists_unit, Guard.pure_eq_ok] at h
  obtain ⟨_, -, -, -, rfl⟩ := h
  refine ⟨rfl, ?_⟩
  cases hget : PyList.get? st.process.entries handle.generationId with
  | none =>
    show (st.process.newEntry handle).generationOf st.process.heap.length = _
    rw [Process.generationOf_newEntry, if_pos rfl]
  | some entry => exact hinv.entry _ _ hget

theorem keepsCurrent_iff (settings : ι → Settings) (w : World ι) (a : ι × Operation)
    (hinv : ∀ i, (w.processes i).Inv) :
    KeepsCurrent w a (act settings w a) ↔ ReleasesCovered settings w a (act settings w a) := by
  obtain ⟨i, operation⟩ := a
  have hgenerations := unpruned_generations (settings i) (w.store i) operation
  have hperform := perform_eq (settings i) (w.store i) operation
  cases hprunes : prunes (settings i) (w.store i) operation with
  | false =>
    rw [hprunes, if_neg Bool.false_ne_true] at hperform
    constructor
    · intro _ k hk hprunes'
      exact absurd (hprunes.symm.trans hprunes') Bool.false_ne_true
    · intro _ id _ hhas
      show (perform _ _ _).disk.has id = true
      rw [hperform, has_iff, hgenerations]
      exact has_iff.1 hhas
  | true =>
    rw [hprunes, if_pos rfl] at hperform
    cases operation with
    | release k =>
      have hdisk := unpruned_release_disk (settings i) (w.store i) k
      have hkept (id : Str) (hhas : w.disk.has id = true) : (act settings w (i, .release k)).disk.has id = true ↔
          (isGenerationId id = true → Covered (settings i) (unpruned (settings i) (w.store i) (.release k)) id) := by
        show (perform _ _ _).disk.has id = true ↔ _
        rw [hperform, has_prune, hdisk, Keeps, mem_retained_iff]
        exact and_iff_right hhas
      have hcurrent : (act settings w (i, .release k)).disk.current = w.disk.current := by
        show (perform _ _ _).disk.current = _
        rw [hperform, prune_current, hdisk]
        rfl
      constructor
      · intro h k' hk' _ id hid hgen hhas
        exact (hkept id hhas).1 (h id (hcurrent.trans hid) hhas) hgen
      · intro h id hid hhas
        exact (hkept id hhas).2 fun hgen => h k rfl hprunes id (hcurrent.symm.trans hid) hgen hhas
    | activate handle quota =>
      refine ⟨fun _ _ hk => (by cases hk), fun _ id hid hhas => ?_⟩
      cases hrun : switch (settings i) (w.store i) handle quota with
      | error failure => simp [prunes, hrun, Except.isOk, Except.toBool] at hprunes
      | ok switched =>
        have hunpruned : unpruned (settings i) (w.store i) (.activate handle quota) = switched := by
          simp only [unpruned, hrun]; rfl
        obtain ⟨hpointer, hactive⟩ := active_of_switch (hinv i) hrun
        change (perform _ _ _).disk.current = some id at hid
        show (perform _ _ _).disk.has id = true
        rw [hperform, hunpruned, prune_current, hpointer] at hid
        rw [hperform, has_prune, has_iff, hgenerations]
        refine ⟨has_iff.1 hhas, fun _ => .inl ?_⟩
        rw [hunpruned]
        exact active_mem_retained _ _ (hactive.trans hid)
    | _ => simp [prunes] at hprunes

/-- In a run of any number of processes no prune removes the generation that `current.json` names, if
and only if each release that prunes finds that generation covered in the releasing process. -/
theorem current_kept_iff (settings : ι → Settings) (d : Disk) (actions : List (ι × Operation)) :
    Along (act settings) KeepsCurrent (World.start d) actions ↔
      Along (act settings) (ReleasesCovered settings) (World.start d) actions := by
  refine Along.congr (I := fun w => ∀ i, (w.processes i).Inv) (fun w a hinv i => ?_)
    (fun w a hinv => keepsCurrent_iff settings w a hinv) (fun _ => Process.inv_start) actions
  show (Function.update w.processes a.1 _ i).Inv
  by_cases hi : i = a.1
  · subst hi
    rw [Function.update_self]
    exact (hinv a.1).perform _ _
  · rw [Function.update_of_ne hi]
    exact hinv i

def activateA : Operation := .activate ⟨"A".toList, emptyDatabase "A"⟩ (.ok ())

/-- `C` is current and two processes have it active. One pins `B`, the other goes back to `A`, and the
release of `B` removes `A`. -/
theorem stale_release_removes_current : ¬ Along (act fun _ : Bool => two) KeepsCurrent
    (World.start { threeGenerations with current := some "C".toList })
    [(false, .loadCurrent), (true, .loadCurrent), (false, .pinGeneration "B".toList), (true, activateA),
      (false, .release 0)] := by
  rintro ⟨-, -, -, -, hkept, -⟩
  have hhas := hkept "A".toList (by decide) (by decide)
  revert hhas
  decide

end CardRag.Generations
