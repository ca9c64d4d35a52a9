import CardRag.Generations.Store

/-! # What a prune leaves

A prune keeps exactly the directories that are retained or pinned when it starts (`Keeps`), and of the
process it only takes idle entries out of the table (`Trims`). -/

namespace CardRag.Generations

variable {s : Settings} {st : Store} {p p' p'' : Process} {d : Disk} {id : Str} {kept : List Str}

/-! ### The table -/

theorem get?_pop (p : Process) (id id' : Str) :
    PyList.get? (p.pop id).entries id' = if id' = id then none else PyList.get? p.entries id' := by
  show PyList.get? (p.entries.filter (·.1 ≠ id)) id' = _
  split
  · rename_i h
    subst h
    rw [PyList.get?, List.find?_filter]
    simp
  · rename_i h
    rw [PyList.get?, PyList.get?, List.find?_filter]
    congr 2
    funext e
    by_cases he : e.1 = id'
    · simp [he, h]
    · simp [he]

/-- `p'` is `p` after idle entries left its table. -/
structure Trims (kept : List Str) (p p' : Process) : Prop where
  heap : p'.heap = p.heap
  active : p'.active = p.active
  pins : p'.pins = p.pins
  entry : ∀ id e, PyList.get? p'.entries id = some e → PyList.get? p.entries id = some e
  pinned_entry : ∀ id, p.pinned id = true → PyList.get? p'.entries id = PyList.get? p.entries id
  active_entry : ∀ id e, p.active = some e → id ∈ kept → PyList.get? p.entries id = some e →
    PyList.get? p'.entries id = some e

namespace Trims

theorem refl : Trims kept p p := ⟨rfl, rfl, rfl, fun _ _ h => h, fun _ _ => rfl, fun _ _ _ _ h => h⟩

theorem references (h : Trims kept p p') (e : Nat) : p'.references e = p.references e := by
  rw [Process.references, Process.references, h.heap]

theorem generationOf (h : Trims kept p p') (e : Nat) : p'.generationOf e = p.generationOf e := by
  rw [Process.generationOf, Process.generationOf, h.heap]

theorem pinned (h : Trims kept p p') (id : Str) : p'.pinned id = p.pinned id := by
  cases hp : p.pinned id with
  | true =>
    have hsame := h.pinned_entry id hp
    simp only [Process.pinned, hsame, show p'.references = p.references from funext h.references]
    exact hp
  | false =>
    cases he : PyList.get? p'.entries id with
    | none => simp [Process.pinned, he]
    | some e =>
      rw [Process.pinned, h.entry id e he] at hp
      simp only [Process.pinned, he, show p'.references = p.references from funext h.references]
      exact hp

theorem trans (h : Trims kept p p') (h' : Trims kept p' p'') : Trims kept p p'' where
  heap := h'.heap.trans h.heap
  active := h'.active.trans h.active
  pins := h'.pins.trans h.pins
  entry id e he := h.entry id e (h'.entry id e he)
  pinned_entry id hp := (h'.pinned_entry id ((h.pinned id).trans hp)).trans (h.pinned_entry id hp)
  active_entry id e ha hk he := h'.active_entry id e (h.active.trans ha) hk (h.active_entry id e ha hk he)

/-- An entry without references that is not both active and retained may leave the table. -/
theorem pop (hp : p.pinned id = false) (ha : ∀ e, p.active = some e → id ∈ kept → PyList.get? p.entries id ≠ some e) :
    Trims kept p (p.pop id) where
  heap := rfl
  active := rfl
  pins := rfl
  entry id' e he := by
    rw [get?_pop] at he
    split at he
    · cases he
    · exact he
  pinned_entry id' hp' := by
    rw [get?_pop, if_neg]
    rintro rfl
    rw [hp] at hp'
    cases hp'
  active_entry id' e ha' hk he := by
    rw [get?_pop, if_neg]
    · exact he
    · rintro rfl
      exact ha e ha' hk he

end Trims

/-! ### One candidate -/

theorem pruneOne_disk (kept : List Str) (st : Store) (id : Str) :
    (pruneOne kept st id).disk = if id ∈ kept ∨ st.process.pinned id = true then st.disk else st.disk.remove id := by
  unfold pruneOne
  dsimp only
  split <;> rfl

theorem pruneOne_trims (kept : List Str) (st : Store) (id : Str) : Trims kept st.process (pruneOne kept st id).process := by
  -- the first of the two places where the entry may leave the table
  have hidle : Trims kept st.process (if PyList.get? st.process.entries id ≠ none ∧
      PyList.get? st.process.entries id ≠ st.process.active ∧ st.process.pinned id = false
      then st.process.pop id else st.process) := by
    split
    · rename_i h
      exact .pop h.2.2 fun e ha _ he => h.2.1 (he.trans ha.symm)
    · exact .refl
  unfold pruneOne
  dsimp only
  split
  · exact hidle
  · rename_i h
    rw [not_or, Bool.not_eq_true] at h
    exact hidle.trans (.pop ((hidle.pinned id).trans h.2) fun _ _ hk => absurd hk h.1)

/-! ### All of them -/

theorem foldl_pruneOne (kept ids : List Str) (st : Store) :
    let after := ids.foldl (pruneOne kept) st
    after.disk = { st.disk with
      generations := st.disk.generations.filter fun g => g.name ∉ ids ∨ g.name ∈ kept ∨ st.process.pinned g.name = true } ∧
    Trims kept st.process after.process := by
  induction ids generalizing st with
  | nil => exact ⟨by simp, .refl⟩
  | cons id ids ih =>
    have htrims := pruneOne_trims kept st id
    obtain ⟨hdisk, hrest⟩ := ih (pruneOne kept st id)
    refine ⟨?_, htrims.trans hrest⟩
    rw [List.foldl_cons, hdisk, pruneOne_disk]
    simp only [htrims.pinned]
    split
    · rename_i h
      congr 1
      refine List.filter_congr fun g _ => ?_
      by_cases hg : g.name = id
      · subst hg; simp [h]
      · simp [hg]
    · rename_i h
      simp only [Disk.remove, List.filter_filter]
      congr 1
      refine List.filter_congr fun g _ => ?_
      by_cases hg : g.name = id
      · subst hg; simp only [not_or, Bool.not_eq_true] at h; simp [h]
      · simp [hg]

/-- The directory is one that a prune leaves. -/
def Keeps (s : Settings) (st : Store) (id : Str) : Prop :=
  isGenerationId id = true → id ∈ retained s st ∨ st.process.pinned id = true

instance : Decidable (Keeps s st id) := inferInstanceAs (Decidable (_ → _))

theorem mem_candidates {g : GenerationDir} : g ∈ candidates d ↔ g ∈ d.generations ∧ isGenerationId g.name = true := by
  simp [candidates, Disk.named]

theorem pruneCas_generations (d : Disk) : (pruneCas d).generations = d.generations := by
  unfold pruneCas; split <;> rfl

theorem pruneCas_current (d : Disk) : (pruneCas d).current = d.current := by
  unfold pruneCas; split <;> rfl

theorem pruneCas_roots (d : Disk) : (pruneCas d).roots = d.roots := by
  unfold pruneCas; split <;> rfl

theorem prune_process (s : Settings) (st : Store) : Trims (retained s st) st.process (prune s st).process :=
  (foldl_pruneOne _ _ _).2

theorem prune_disk (s : Settings) (st : Store) :
    (prune s st).disk =
      pruneCas { st.disk with generations := st.disk.generations.filter fun g => Keeps s st g.name } := by
  have hkept : (st.disk.generations.filter fun g => g.name ∉ (candidates st.disk).map (·.name) ∨
      g.name ∈ retained s st ∨ st.process.pinned g.name = true) =
      st.disk.generations.filter fun g => Keeps s st g.name := by
    refine List.filter_congr fun g hg => ?_
    have hname : g.name ∈ (candidates st.disk).map (·.name) ↔ isGenerationId g.name = true := by
      rw [List.mem_map]
      constructor
      · rintro ⟨g', hg', hname⟩
        exact hname ▸ (mem_candidates.1 hg').2
      · exact fun hid => ⟨g, mem_candidates.2 ⟨hg, hid⟩, rfl⟩
    refine decide_eq_decide.2 ?_
    rw [hname, Keeps]
    exact Decidable.imp_iff_not_or.symm
  show pruneCas (List.foldl (pruneOne (retained s st)) st ((candidates st.disk).map (·.name))).disk = _
  rw [(foldl_pruneOne _ _ _).1, hkept]

theorem prune_generations (s : Settings) (st : Store) :
    (prune s st).disk.generations = st.disk.generations.filter fun g => Keeps s st g.name := by
  rw [prune_disk, pruneCas_generations]

theorem prune_current (s : Settings) (st : Store) : (prune s st).disk.current = st.disk.current := by
  rw [prune_disk, pruneCas_current]

theorem prune_roots (s : Settings) (st : Store) : (prune s st).disk.roots = st.disk.roots := by
  rw [prune_disk, pruneCas_roots]

theorem has_iff : d.has id = true ↔ ∃ g ∈ d.generations, g.name = id := by simp [Disk.has]

/-- A prune leaves a directory exactly when it keeps it. -/
theorem has_prune (s : Settings) (st : Store) (id : Str) :
    (prune s st).disk.has id = true ↔ st.disk.has id = true ∧ Keeps s st id := by
  simp only [has_iff, prune_generations, List.mem_filter, decide_eq_true_eq]
  constructor
  · rintro ⟨g, ⟨hg, hk⟩, rfl⟩
    exact ⟨⟨g, hg, rfl⟩, hk⟩
  · rintro ⟨⟨g, hg, rfl⟩, hk⟩
    exact ⟨g, ⟨hg, hk⟩, rfl⟩

/-! ### Where an operation prunes -/

/-- What an operation has done when it starts to prune, or all of it where it does not. -/
def unpruned (s : Settings) (st : Store) : Operation → Store
  | .release k =>
    match st.process.pins[k]? with
    | none => st
    | some entry => { st with process := st.process.drop k entry }
  | .activate handle quota => (switch s st handle quota).toOption.getD st
  | operation => perform s st operation

def prunes (s : Settings) (st : Store) : Operation → Bool
  | .release k =>
    match st.process.pins[k]? with
    | none => false
    | some entry => some entry ≠ st.process.active ∧ (st.process.drop k entry).references entry = 0 ∧
        st.disk.durableGenerationRoots.isOk = true
  | .activate handle quota => (switch s st handle quota).isOk
  | _ => false

theorem perform_eq (s : Settings) (st : Store) (operation : Operation) :
    perform s st operation = if prunes s st operation = true then prune s (unpruned s st operation)
      else unpruned s st operation := by
  cases operation with
  | release k =>
    cases hpin : st.process.pins[k]? with
    | none => simp only [perform, release, unpruned, prunes, hpin, Bool.false_eq_true, if_false]
    | some entry =>
      simp only [perform, release, unpruned, prunes, hpin, decide_eq_true_eq]
      by_cases hidle : some entry ≠ st.process.active ∧ (st.process.drop k entry).references entry = 0
      · rw [if_pos (show some entry ≠ (st.process.drop k entry).active ∧ _ from hidle)]
        cases hroots : st.disk.durableGenerationRoots with
        | error failure => simp [Except.isOk, Except.toBool]
        | ok roots => simp [hidle, Except.isOk, Except.toBool]
      · rw [if_neg (show ¬ (some entry ≠ (st.process.drop k entry).active ∧ _) from hidle),
          if_neg fun h => hidle ⟨h.1, h.2.1⟩]
  | activate handle quota =>
    have hrun : ∀ x : Except Failure Store, (x >>= fun switched => pure (prune s switched)).toOption.getD st =
        if x.isOk = true then prune s (x.toOption.getD st) else x.toOption.getD st := by
      intro x
      cases x <;> rfl
    exact hrun (switch s st handle quota)
  | _ => rfl

end CardRag.Generations
