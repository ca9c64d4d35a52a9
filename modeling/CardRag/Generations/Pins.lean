import CardRag.Generations.Pruning
import CardRag.Lib.Runs

/-! # Pins

A reference count is the number of pins not yet released on that entry. An entry that pins hold is
the table's entry of its generation as long as `load_current` does not put another in its place, and
then a prune sees every pin. -/

namespace CardRag.Generations

variable {s : Settings} {st : Store} {p p' : Process} {handle : GenerationHandle} {id : Str} {entry k : Nat}

namespace Process

/-- Some pin not yet released is on the generation. -/
def HasPin (p : Process) (id : Str) : Prop := ∃ entry ∈ p.pins, p.generationOf entry = some id

/-- The entry is the table's for its generation. -/
def Listed (p : Process) (entry : Nat) : Prop :=
  ∃ id, p.generationOf entry = some id ∧ PyList.get? p.entries id = some entry

/-- What the operations keep of a process. -/
structure Inv (p : Process) : Prop where
  pin_lt : ∀ entry ∈ p.pins, entry < p.heap.length
  count : ∀ entry, p.references entry = p.pins.count entry
  entry : ∀ id entry, PyList.get? p.entries id = some entry → p.generationOf entry = some id
  active : ∀ entry, p.active = some entry → p.Listed entry

/-- Every pin is on a listed entry. -/
def PinsListed (p : Process) : Prop := ∀ entry ∈ p.pins, p.Listed entry

theorem inv_start : start.Inv :=
  ⟨by simp [start], by simp [start, references], by simp [start, PyList.get?], by simp [start]⟩

theorem lt_of_generationOf (h : p.generationOf entry = some id) : entry < p.heap.length := by
  rw [generationOf, Option.map_eq_some_iff] at h
  obtain ⟨e, he, -⟩ := h
  exact (List.getElem?_eq_some_iff.1 he).1

theorem pinned_iff (id : Str) :
    p.pinned id = true ↔ ∃ entry, PyList.get? p.entries id = some entry ∧ 0 < p.references entry := by
  rw [pinned]
  cases PyList.get? p.entries id with
  | none => simp
  | some entry => simp

/-! ### New entries -/

theorem generationOf_newEntry (handle : GenerationHandle) (entry : Nat) :
    (p.newEntry handle).generationOf entry =
      if entry = p.heap.length then some handle.generationId else p.generationOf entry := by
  show Option.map _ (p.heap ++ [_])[entry]? = _
  rw [List.getElem?_append]
  split
  · rename_i h
    rw [if_neg (Nat.ne_of_lt h)]
    rfl
  · rename_i h
    split
    · rename_i heq
      simp [heq]
    · rename_i hne
      rw [generationOf, List.getElem?_eq_none (by simp; omega), List.getElem?_eq_none (by omega)]

theorem references_newEntry (handle : GenerationHandle) (entry : Nat) :
    (p.newEntry handle).references entry = p.references entry := by
  show Option.getD (Option.map _ (p.heap ++ [_])[entry]?) 0 = _
  rw [List.getElem?_append]
  split
  · rfl
  · rename_i h
    rw [references, List.getElem?_eq_none (Nat.le_of_not_lt h)]
    by_cases heq : entry = p.heap.length
    · simp [heq]
    · rw [List.getElem?_eq_none (by simp; omega)]

theorem get?_newEntry (handle : GenerationHandle) (id : Str) :
    PyList.get? (p.newEntry handle).entries id =
      if handle.generationId = id then some p.heap.length else PyList.get? p.entries id :=
  PyList.get?_insert _ _ _ _

theorem listed_newEntry (handle : GenerationHandle) : (p.newEntry handle).Listed p.heap.length :=
  ⟨handle.generationId, by rw [generationOf_newEntry, if_pos rfl], by rw [get?_newEntry, if_pos rfl]⟩

/-- A listed entry of another generation stays listed. -/
theorem Listed.newEntry (h : p.Listed entry) (hne : p.generationOf entry ≠ some handle.generationId) :
    (p.newEntry handle).Listed entry := by
  obtain ⟨id, hgen, hget⟩ := h
  refine ⟨id, ?_, ?_⟩
  · rw [generationOf_newEntry, if_neg (Nat.ne_of_lt (lt_of_generationOf hgen)), hgen]
  · rw [get?_newEntry, if_neg, hget]
    rintro rfl
    exact hne hgen

theorem Inv.entry_newEntry (h : p.Inv) (id : Str) (entry : Nat)
    (hget : PyList.get? (p.newEntry handle).entries id = some entry) :
    (p.newEntry handle).generationOf entry = some id := by
  rw [get?_newEntry] at hget
  rw [generationOf_newEntry]
  split at hget
  · rename_i hid
    rw [if_pos (Option.some.inj hget).symm, hid]
  · have hgen := h.entry id entry hget
    rw [if_neg (Nat.ne_of_lt (lt_of_generationOf hgen)), hgen]

/-- A new entry that becomes active. -/
theorem Inv.newActive (h : p.Inv) (handle : GenerationHandle) :
    ((p.newEntry handle).activateEntry p.heap.length).Inv where
  pin_lt entry hmem := by
    show entry < (p.heap ++ [_]).length
    have := h.pin_lt entry hmem
    simp; omega
  count entry := (references_newEntry handle entry).trans (h.count entry)
  entry := h.entry_newEntry
  active entry hactive := by
    cases Option.some.inj hactive
    exact listed_newEntry handle

/-- A new entry of a generation that the table does not have. -/
theorem Inv.newEntry (h : p.Inv) (hnone : PyList.get? p.entries handle.generationId = none) :
    (p.newEntry handle).Inv where
  pin_lt entry hmem := by
    show entry < (p.heap ++ [_]).length
    have := h.pin_lt entry hmem
    simp; omega
  count entry := (references_newEntry handle entry).trans (h.count entry)
  entry := h.entry_newEntry
  active entry hactive := by
    have hlisted := h.active entry hactive
    refine hlisted.newEntry fun hgen => ?_
    obtain ⟨id, hgen', hget⟩ := hlisted
    rw [hgen] at hgen'
    cases hgen'
    rw [hnone] at hget
    cases hget

theorem Inv.activateEntry (h : p.Inv) (hget : PyList.get? p.entries id = some entry) : (p.activateEntry entry).Inv where
  pin_lt := h.pin_lt
  count := h.count
  entry := h.entry
  active e he := by
    cases Option.some.inj he
    exact ⟨id, h.entry id entry hget, hget⟩

/-! ### References -/

theorem generationOf_modify (f : Int → Int) (p : Process) (pins : List Nat) (entry e : Nat) :
    Process.generationOf
      { p with heap := p.heap.modify entry fun x => { x with references := f x.references }, pins } e =
      p.generationOf e := by
  show Option.map _ (p.heap.modify entry _)[e]? = Option.map _ p.heap[e]?
  rw [List.getElem?_modify]
  cases p.heap[e]? with
  | none => rfl
  | some x =>
    show some (HandleEntry.handle (ite _ _ x)).generationId = _
    split <;> rfl

theorem references_modify (f : Int → Int) (p : Process) (pins : List Nat) (entry e : Nat) (he : e < p.heap.length) :
    Process.references
      { p with heap := p.heap.modify entry fun x => { x with references := f x.references }, pins } e =
      if entry = e then f (p.references e) else p.references e := by
  show Option.getD (Option.map _ (p.heap.modify entry _)[e]?) 0 = ite _ (f (Option.getD (Option.map _ p.heap[e]?) 0)) _
  rw [references, List.getElem?_modify, List.getElem?_eq_getElem he]
  split <;> rfl

theorem references_of_le (p : Process) {e : Nat} (he : p.heap.length ≤ e) : p.references e = 0 := by
  rw [references, List.getElem?_eq_none he]
  rfl

theorem generationOf_take (p : Process) (entry e : Nat) : (p.take entry).generationOf e = p.generationOf e :=
  generationOf_modify (· + 1) p _ entry e

theorem generationOf_drop (p : Process) (k entry e : Nat) : (p.drop k entry).generationOf e = p.generationOf e :=
  generationOf_modify (· - 1) p _ entry e

theorem Inv.take (h : p.Inv) (hlt : entry < p.heap.length) : (p.take entry).Inv where
  pin_lt e hmem := by
    show e < (p.heap.modify entry _).length
    rw [List.length_modify]
    rcases List.mem_append.1 hmem with hmem | hmem
    · exact h.pin_lt e hmem
    · rw [List.mem_singleton.1 hmem]
      exact hlt
  count e := by
    show _ = (((p.pins ++ [entry]).count e : Nat) : Int)
    rw [List.count_append, List.count_singleton]
    by_cases he : e < p.heap.length
    · have hrefs : (p.take entry).references e = if entry = e then p.references e + 1 else p.references e :=
        references_modify (· + 1) p (p.pins ++ [entry]) entry e he
      rw [hrefs, h.count e]
      by_cases heq : entry = e <;> simp [heq]
    · have hne : entry ≠ e := fun heq => he (heq ▸ hlt)
      have hlen : (p.take entry).heap.length = p.heap.length := List.length_modify ..
      rw [references_of_le _ (hlen ▸ Nat.le_of_not_lt he)]
      have hcount := h.count e
      rw [references_of_le _ (Nat.le_of_not_lt he)] at hcount
      simp [hne, ← hcount]
  entry id e hget := (generationOf_take p entry e).trans (h.entry id e hget)
  active e hactive := by
    obtain ⟨id, hgen, hget⟩ := h.active e hactive
    exact ⟨id, (generationOf_take p entry e).trans hgen, hget⟩

theorem count_eraseIdx (hk : p.pins[k]? = some entry) (e : Nat) :
    p.pins.count e = (if entry = e then 1 else 0) + (p.pins.eraseIdx k).count e := by
  obtain ⟨hlt, hget⟩ := List.getElem?_eq_some_iff.1 hk
  have hperm := (List.getElem_cons_eraseIdx_perm hlt).count_eq e
  rw [← hperm, hget, List.count_cons]
  by_cases heq : entry = e <;> simp [heq]; omega

theorem Inv.drop (h : p.Inv) (hk : p.pins[k]? = some entry) : (p.drop k entry).Inv where
  pin_lt e hmem := by
    show e < (p.heap.modify entry _).length
    rw [List.length_modify]
    exact h.pin_lt e (List.mem_of_mem_eraseIdx hmem)
  count e := by
    show _ = (((p.pins.eraseIdx k).count e : Nat) : Int)
    have hcount := count_eraseIdx hk e
    have hlt := h.pin_lt entry (List.mem_of_getElem? hk)
    by_cases he : e < p.heap.length
    · have hrefs : (p.drop k entry).references e = if entry = e then p.references e - 1 else p.references e :=
        references_modify (· - 1) p (p.pins.eraseIdx k) entry e he
      rw [hrefs, h.count e, hcount]
      by_cases heq : entry = e <;> simp [heq]
    · have hne : entry ≠ e := fun heq => he (heq ▸ hlt)
      have hlen : (p.drop k entry).heap.length = p.heap.length := List.length_modify ..
      have hzero := h.count e
      rw [references_of_le _ (Nat.le_of_not_lt he), hcount, if_neg hne] at hzero
      rw [references_of_le _ (hlen ▸ Nat.le_of_not_lt he), hzero]
      simp
  entry id e hget := (generationOf_drop p k entry e).trans (h.entry id e hget)
  active e hactive := by
    obtain ⟨id, hgen, hget⟩ := h.active e hactive
    exact ⟨id, (generationOf_drop p k entry e).trans hgen, hget⟩

/-! ### Pruning -/

theorem Inv.trims {kept : List Str} (h : p.Inv) (ht : Trims kept p p')
    (hactive : ∀ id, p.activeGenerationId = some id → id ∈ kept) : p'.Inv where
  pin_lt entry hmem := by
    rw [ht.heap]
    exact h.pin_lt entry (ht.pins ▸ hmem)
  count entry := by rw [ht.references, ht.pins, h.count]
  entry id entry hget := (ht.generationOf entry).trans (h.entry id entry (ht.entry id entry hget))
  active entry hact := by
    rw [ht.active] at hact
    obtain ⟨id, hgen, hget⟩ := h.active entry hact
    have hid : id ∈ kept := hactive id (by rw [activeGenerationId, hact]; exact hgen)
    exact ⟨id, (ht.generationOf entry).trans hgen, ht.active_entry id entry hact hid hget⟩

/-- A prune sees a listed pin. -/
theorem Inv.pinned_of_hasPin (h : p.Inv) (hl : p.PinsListed) (hpin : p.HasPin id) : p.pinned id = true := by
  obtain ⟨entry, hmem, hgen⟩ := hpin
  obtain ⟨id', hgen', hget⟩ := hl entry hmem
  cases hgen.symm.trans hgen'
  refine (pinned_iff id).2 ⟨entry, hget, ?_⟩
  rw [h.count]
  exact_mod_cast List.count_pos_iff.2 hmem

theorem PinsListed.trims {kept : List Str} (hl : p.PinsListed) (h : p.Inv) (ht : Trims kept p p') : p'.PinsListed := by
  intro entry hmem
  rw [ht.pins] at hmem
  obtain ⟨id, hgen, hget⟩ := hl entry hmem
  have hpinned := h.pinned_of_hasPin hl ⟨entry, hmem, hgen⟩
  exact ⟨id, (ht.generationOf entry).trans hgen, (ht.pinned_entry id hpinned).trans hget⟩

/-- A new entry hides no pin unless one is on its generation. -/
theorem PinsListed.newEntry (hl : p.PinsListed) (hpin : ¬ p.HasPin handle.generationId) :
    (p.newEntry handle).PinsListed :=
  fun entry hmem => (hl entry hmem).newEntry fun hgen => hpin ⟨entry, hmem, hgen⟩

/-- A generation without an entry in the table has no listed pin. -/
theorem PinsListed.not_hasPin (hl : p.PinsListed) (hnone : PyList.get? p.entries id = none) : ¬ p.HasPin id := by
  rintro ⟨entry, hmem, hgen⟩
  obtain ⟨id', hgen', hget⟩ := hl entry hmem
  cases hgen.symm.trans hgen'
  rw [hnone] at hget
  cases hget

theorem PinsListed.take (hl : p.PinsListed) (hentry : p.Listed entry) : (p.take entry).PinsListed := by
  intro e hmem
  have hlisted : p.Listed e := by
    rcases List.mem_append.1 hmem with hmem | hmem
    · exact hl e hmem
    · rw [List.mem_singleton.1 hmem]
      exact hentry
  obtain ⟨id, hgen, hget⟩ := hlisted
  exact ⟨id, (generationOf_take p entry e).trans hgen, hget⟩

theorem PinsListed.drop (hl : p.PinsListed) (k entry : Nat) : (p.drop k entry).PinsListed := by
  intro e hmem
  obtain ⟨id, hgen, hget⟩ := hl e (List.mem_of_mem_eraseIdx hmem)
  exact ⟨id, (generationOf_drop p k entry e).trans hgen, hget⟩

end Process

/-! ### The operations -/

theorem loadGenerationHandle_eq_ok {dir : GenerationDir} (h : loadGenerationHandle s dir = .ok handle) :
    handle.generationId = dir.name ∧ dir.database = some handle.database := by
  unfold loadGenerationHandle at h
  simp only [Guard.bind_eq_ok, raiseIf_eq_ok, Guard.exists_unit] at h
  obtain ⟨-, h⟩ := h
  cases hdb : dir.database with
  | none => simp [hdb] at h
  | some database =>
    simp only [hdb, Guard.bind_eq_ok, raiseIf_eq_ok, Guard.exists_unit, Guard.pure_eq_ok] at h
    obtain ⟨-, -, -, rfl⟩ := h
    exact ⟨rfl, rfl⟩

theorem readGeneration_eq_ok {d : Disk} (h : readGeneration s d id = .ok handle) :
    handle.generationId = id ∧ ∃ dir, d.find id = some dir ∧ dir.database = some handle.database ∧
      verifyHandlePdfs s d handle = .ok () := by
  unfold readGeneration at h
  cases hfind : d.find id with
  | none => simp [hfind] at h
  | some dir =>
    simp only [hfind, Guard.bind_eq_ok, Guard.exists_unit, Guard.pure_eq_ok] at h
    obtain ⟨_, hload, hverify, rfl⟩ := h
    obtain ⟨hname, hdb⟩ := loadGenerationHandle_eq_ok hload
    have hdir : dir.name = id := by simpa using List.find?_some hfind
    exact ⟨hname.trans hdir, dir, rfl, hdb, hverify⟩

/-- What an operation does to the process, a prune apart. -/
inductive Moves (s : Settings) (st : Store) : Operation → Process → Prop where
  | none (operation : Operation) : Moves s st operation st.process
  | load {id : Str} {handle : GenerationHandle} (hcurrent : st.disk.current = some id)
      (hid : isGenerationId id = true) (hread : readGeneration s st.disk id = .ok handle) :
      Moves s st .loadCurrent ((st.process.newEntry handle).activateEntry st.process.heap.length)
  | pin {entry : Nat} (hactive : st.process.active = some entry) : Moves s st .pin (st.process.take entry)
  | pinListed {id : Str} {entry : Nat} (hget : PyList.get? st.process.entries id = some entry) :
      Moves s st (.pinGeneration id) (st.process.take entry)
  | pinNew {handle : GenerationHandle} (hnone : PyList.get? st.process.entries handle.generationId = Option.none) :
      Moves s st (.pinGeneration handle.generationId) ((st.process.newEntry handle).take st.process.heap.length)
  | release {k entry : Nat} (hk : st.process.pins[k]? = some entry) :
      Moves s st (.release k) (st.process.drop k entry)
  | activateListed {handle : GenerationHandle} {entry : Nat} (quota : Except Failure Unit)
      (hget : PyList.get? st.process.entries handle.generationId = some entry) :
      Moves s st (.activate handle quota) (st.process.activateEntry entry)
  | activateNew {handle : GenerationHandle} (quota : Except Failure Unit)
      (hnone : PyList.get? st.process.entries handle.generationId = Option.none) :
      Moves s st (.activate handle quota) ((st.process.newEntry handle).activateEntry st.process.heap.length)

theorem switch_eq_ok {quota : Except Failure Unit} {st' : Store} (h : switch s st handle quota = .ok st') :
    st'.disk = { st.disk with current := some handle.generationId } ∧
      Moves s st (.activate handle quota) st'.process := by
  unfold switch at h
  simp only [Guard.bind_eq_ok, raiseIf_eq_ok, Guard.exists_unit, Guard.pure_eq_ok] at h
  obtain ⟨_, -, -, -, rfl⟩ := h
  refine ⟨rfl, ?_⟩
  cases hget : PyList.get? st.process.entries handle.generationId with
  | none => exact .activateNew quota hget
  | some entry => exact .activateListed quota hget

theorem moves_unpruned (s : Settings) (st : Store) (operation : Operation) :
    Moves s st operation (unpruned s st operation).process := by
  cases operation with
  | loadCurrent =>
    show Moves s st .loadCurrent (loadCurrent s st).1
    unfold loadCurrent
    split
    · exact .none _
    · rename_i id hcurrent
      split
      · rename_i hid
        split
        · exact .none _
        · rename_i handle hread
          exact .load hcurrent hid hread
      · exact .none _
  | pin =>
    show Moves s st .pin ((pin st).toOption.getD st.process)
    unfold pin
    split
    · exact .none _
    · rename_i entry hactive
      exact .pin hactive
  | pinGeneration id =>
    show Moves s st (.pinGeneration id) ((pinGeneration s st id).toOption.getD st.process)
    cases hrun : pinGeneration s st id with
    | error failure => exact .none _
    | ok p =>
      show Moves s st (.pinGeneration id) p
      unfold pinGeneration at hrun
      simp only [Guard.bind_eq_ok, raiseIf_eq_ok, Guard.exists_unit] at hrun
      obtain ⟨-, hrun⟩ := hrun
      split at hrun
      · rename_i entry hget
        rw [Guard.pure_eq_ok] at hrun
        exact hrun ▸ .pinListed hget
      · rename_i hnone
        simp only [Guard.bind_eq_ok, raiseIf_eq_ok, Guard.exists_unit] at hrun
        obtain ⟨-, hrun⟩ := hrun
        split at hrun
        · simp at hrun
        · rename_i handle hread
          simp only [Guard.bind_eq_ok, raiseIf_eq_ok, Guard.exists_unit, Guard.pure_eq_ok] at hrun
          obtain ⟨-, rfl⟩ := hrun
          obtain ⟨rfl, -⟩ := readGeneration_eq_ok hread
          exact .pinNew hnone
  | release k =>
    cases hk : st.process.pins[k]? with
    | none =>
      simp only [unpruned, hk]
      exact .none _
    | some entry =>
      simp only [unpruned, hk]
      exact .release hk
  | activate handle quota =>
    show Moves s st (.activate handle quota) ((switch s st handle quota).toOption.getD st).process
    cases hrun : switch s st handle quota with
    | error failure => exact .none _
    | ok st' => exact (switch_eq_ok hrun).2
  | _ => exact .none _

theorem acquireRootLocked_disk {d d' : Disk} {owner : Str} {quota : Except Failure Unit}
    (h : acquireRootLocked d owner id quota = .ok d') : ∃ roots, d' = { d with roots } := by
  unfold acquireRootLocked at h
  simp only [Guard.bind_eq_ok] at h
  obtain ⟨_, -, h⟩ := h
  split at h
  · simp only [Guard.bind_eq_ok, Guard.pure_eq_ok] at h
    obtain ⟨_, -, rfl⟩ := h
    exact ⟨_, rfl⟩
  · simp only [Guard.bind_eq_ok, Guard.pure_eq_ok] at h
    obtain ⟨_, -, rfl⟩ := h
    exact ⟨_, rfl⟩

/-- Apart from a prune only `activate` touches more of the state root than the GC roots. -/
theorem unpruned_disk (s : Settings) (st : Store) {operation : Operation}
    (hrequest : ∀ handle quota, operation ≠ .activate handle quota) :
    ∃ roots, (unpruned s st operation).disk = { st.disk with roots } := by
  cases operation with
  | release k =>
    cases hk : st.process.pins[k]? with
    | none => simp only [unpruned, hk]; exact ⟨_, rfl⟩
    | some entry => simp only [unpruned, hk]; exact ⟨_, rfl⟩
  | activate handle quota => exact absurd rfl (hrequest handle quota)
  | acquireRoot owner id quota =>
    show ∃ roots, (acquireRoot st.disk owner id quota).toOption.getD st.disk = { st.disk with roots }
    cases hrun : acquireRoot st.disk owner id quota with
    | error failure => exact ⟨_, rfl⟩
    | ok d =>
      unfold acquireRoot at hrun
      simp only [Guard.bind_eq_ok] at hrun
      obtain ⟨_, -, _, -, _, -, hrun⟩ := hrun
      exact acquireRootLocked_disk hrun
  | claimCurrentRoot ownerFor quota =>
    show ∃ roots, ((claimCurrentRoot st.disk ownerFor quota).toOption.map (·.1)).getD st.disk = { st.disk with roots }
    cases hrun : claimCurrentRoot st.disk ownerFor quota with
    | error failure => exact ⟨_, rfl⟩
    | ok claimed =>
      unfold claimCurrentRoot at hrun
      simp only [Guard.bind_eq_ok] at hrun
      obtain ⟨_, -, _, -, hrun⟩ := hrun
      show ∃ roots, claimed.1 = { st.disk with roots }
      split at hrun
      · rw [Guard.pure_eq_ok] at hrun
        exact ⟨_, congrArg Prod.fst hrun.symm⟩
      · simp at hrun
      · simp only [Guard.bind_eq_ok, Guard.pure_eq_ok] at hrun
        obtain ⟨_, -, _, -, d, hrun, rfl⟩ := hrun
        exact acquireRootLocked_disk hrun
  | releaseRoot owner id =>
    show ∃ roots, (releaseRoot st.disk owner id).toOption.getD st.disk = { st.disk with roots }
    cases hrun : releaseRoot st.disk owner id with
    | error failure => exact ⟨_, rfl⟩
    | ok d =>
      unfold releaseRoot at hrun
      simp only [Guard.bind_eq_ok] at hrun
      obtain ⟨_, -, hrun⟩ := hrun
      split at hrun
      · rw [Guard.pure_eq_ok] at hrun
        exact ⟨_, hrun.symm⟩
      · simp only [Guard.bind_eq_ok, Guard.pure_eq_ok] at hrun
        obtain ⟨_, -, rfl⟩ := hrun
        exact ⟨_, rfl⟩
  | _ => exact ⟨_, rfl⟩

theorem unpruned_generations (s : Settings) (st : Store) (operation : Operation) :
    (unpruned s st operation).disk.generations = st.disk.generations := by
  by_cases hactivate : ∃ handle quota, operation = .activate handle quota
  · obtain ⟨handle, quota, rfl⟩ := hactivate
    show ((switch s st handle quota).toOption.getD st).disk.generations = _
    cases hrun : switch s st handle quota with
    | error failure => rfl
    | ok st' =>
      show st'.disk.generations = _
      rw [(switch_eq_ok hrun).1]
  · obtain ⟨roots, hdisk⟩ := unpruned_disk s st fun handle quota heq => hactivate ⟨handle, quota, heq⟩
    rw [hdisk]

/-! ### Every operation -/

/-- `load_current` replaces no entry that a pin is on. -/
def Careful (s : Settings) (st : Store) (operation : Operation) (_ : Store) : Prop :=
  operation = .loadCurrent → ∀ id handle, st.disk.current = some id → isGenerationId id = true →
    readGeneration s st.disk id = .ok handle → ¬ st.process.HasPin id

theorem Moves.inv {operation : Operation} (h : Moves s st operation p) (hinv : st.process.Inv) : p.Inv := by
  cases h with
  | none => exact hinv
  | load hcurrent hid hread => exact hinv.newActive _
  | pin hactive =>
    obtain ⟨_, hgen, -⟩ := hinv.active _ hactive
    exact hinv.take (Process.lt_of_generationOf hgen)
  | pinListed hget => exact hinv.take (Process.lt_of_generationOf (hinv.entry _ _ hget))
  | pinNew hnone => exact (hinv.newEntry hnone).take (by simp [Process.newEntry])
  | release hk => exact hinv.drop hk
  | activateListed quota hget => exact hinv.activateEntry hget
  | activateNew quota hnone => exact hinv.newActive _

theorem Moves.pinsListed {operation : Operation} {after : Store} (h : Moves s st operation p) (hinv : st.process.Inv)
    (hl : st.process.PinsListed) (hcareful : Careful s st operation after) : p.PinsListed := by
  cases h with
  | none => exact hl
  | load hcurrent hid hread =>
    have hpin := hcareful rfl _ _ hcurrent hid hread
    exact hl.newEntry ((readGeneration_eq_ok hread).1 ▸ hpin)
  | pin hactive => exact hl.take (hinv.active _ hactive)
  | pinListed hget => exact hl.take ⟨_, hinv.entry _ _ hget, hget⟩
  | pinNew hnone => exact (hl.newEntry (hl.not_hasPin hnone)).take (Process.listed_newEntry _)
  | release hk => exact hl.drop _ _
  | activateListed quota hget => exact hl
  | activateNew quota hnone => exact hl.newEntry (hl.not_hasPin hnone)

theorem active_mem_retained (s : Settings) (st : Store) (h : st.process.activeGenerationId = some id) :
    id ∈ retained s st := by simp [retained, h]

theorem root_mem_retained (s : Settings) (st : Store) (h : id ∈ st.disk.roots.map (·.2)) : id ∈ retained s st :=
  List.mem_append_right _ h

theorem Process.Inv.perform (hinv : st.process.Inv) (s : Settings) (operation : Operation) :
    (perform s st operation).process.Inv := by
  have hmoved := (moves_unpruned s st operation).inv hinv
  rw [perform_eq]
  split
  · exact hmoved.trims (prune_process s _) fun id => active_mem_retained s _
  · exact hmoved

/-- What must not lose its directory. -/
def Protected (st : Store) (id : Str) : Prop :=
  st.process.HasPin id ∨ st.process.activeGenerationId = some id ∨ id ∈ st.disk.roots.map (·.2)

/-- An operation removes nothing that is protected when it is done, and no reference count is
negative. -/
def KeepsProtected (before : Store) (_ : Operation) (after : Store) : Prop :=
  (∀ id, Protected after id → before.disk.has id = true → after.disk.has id = true) ∧
    ∀ entry ∈ after.process.heap, 0 ≤ entry.references

theorem Process.Inv.references_nonneg (hinv : p.Inv) : ∀ entry ∈ p.heap, 0 ≤ entry.references := by
  intro entry hmem
  obtain ⟨i, hi⟩ := List.mem_iff_getElem?.1 hmem
  have hcount := hinv.count i
  rw [Process.references, hi] at hcount
  have hrefs : entry.references = (p.pins.count i : Int) := hcount
  rw [hrefs]
  exact Int.natCast_nonneg _

theorem protected_prune (h : Protected (prune s st) id) : Protected st id := by
  have htrims := prune_process s st
  rcases h with ⟨entry, hmem, hgen⟩ | hactive | hroot
  · exact .inl ⟨entry, htrims.pins ▸ hmem, (htrims.generationOf entry).symm.trans hgen⟩
  · refine .inr (.inl ?_)
    rw [← hactive, Process.activeGenerationId, Process.activeGenerationId, htrims.active,
      funext htrims.generationOf]
  · exact .inr (.inr (prune_roots s st ▸ hroot))

theorem keepsProtected_of_listed {operation : Operation} (hinv : st.process.Inv)
    (hl : (unpruned s st operation).process.PinsListed) : KeepsProtected st operation (perform s st operation) := by
  refine ⟨fun id hprotected hhas => ?_, (hinv.perform s operation).references_nonneg⟩
  have hmoved := (moves_unpruned s st operation).inv hinv
  have hhas' : (unpruned s st operation).disk.has id = true := by
    rw [has_iff, unpruned_generations, ← has_iff]
    exact hhas
  rw [perform_eq] at hprotected ⊢
  split at hprotected
  · rename_i hprunes
    rw [if_pos hprunes, has_prune]
    refine ⟨hhas', fun _ => ?_⟩
    rcases protected_prune hprotected with hpin | hactive | hroot
    · exact .inr (hmoved.pinned_of_hasPin hl hpin)
    · exact .inl (active_mem_retained s _ hactive)
    · exact .inl (root_mem_retained s _ hroot)
  · rename_i hprunes
    rw [if_neg hprunes]
    exact hhas'

/-- In every run of a process whose calls of `load_current` find no pin on the generation that
`current.json` names, whatever is pinned, active or rooted keeps its directory, and no reference count
is ever negative. -/
theorem protected_generations_kept (s : Settings) (d : Disk) (operations : List Operation)
    (hcareful : Along (perform s) (Careful s) ⟨d, .start⟩ operations) :
    Along (perform s) KeepsProtected ⟨d, .start⟩ operations := by
  have hstart : Process.start.Inv ∧ Process.start.PinsListed := ⟨Process.inv_start, by simp [Process.PinsListed, Process.start]⟩
  refine (Along.of_inv (I := fun st => st.process.Inv ∧ st.process.PinsListed) ?_ hstart hcareful).1
  rintro st operation ⟨hinv, hl⟩ hc
  have hmoves := moves_unpruned s st operation
  have hl' := hmoves.pinsListed hinv hl hc
  refine ⟨⟨hinv.perform s operation, ?_⟩, keepsProtected_of_listed hinv hl'⟩
  rw [perform_eq]
  split
  · exact hl'.trims (hmoves.inv hinv) (prune_process s _)
  · exact hl'

/-! ### Three generations, of which two are retained -/

def two : Settings := ⟨2, 0, 0, le_rfl⟩

def emptyDatabase (name : String) : Database := ⟨name.toList, true, [], 0⟩

/-- `A`, the oldest, is current. -/
def threeGenerations : Disk where
  generations := [⟨"A".toList, 1, some (emptyDatabase "A")⟩, ⟨"B".toList, 2, some (emptyDatabase "B")⟩,
    ⟨"C".toList, 3, some (emptyDatabase "C")⟩]
  objects := []
  current := some "A".toList
  roots := []

def activateB : Operation := .activate ⟨"B".toList, emptyDatabase "B"⟩ (.ok ())

theorem protected_generations_kept_activateB : Along (perform two) KeepsProtected ⟨threeGenerations, .start⟩
    [.loadCurrent, .pin, activateB, .release 0] := by
  refine protected_generations_kept two threeGenerations _ ⟨?_, ?_, ?_, ?_, trivial⟩
  · rintro - id handle - - - ⟨entry, hmem, -⟩
    exact absurd hmem (List.not_mem_nil)
  all_goals exact nofun

/-- `load_current` once more while `A` is pinned: activating `B` then removes `A`. -/
theorem reload_loses_pinned : ¬ Along (perform two) KeepsProtected ⟨threeGenerations, .start⟩
    [.loadCurrent, .pin, .loadCurrent, activateB] := by
  rintro ⟨-, -, -, ⟨hkept, -⟩, -⟩
  have hpin : Protected (runFrom (perform two) ⟨threeGenerations, .start⟩
      [.loadCurrent, .pin, .loadCurrent, activateB]) "A".toList := .inl ⟨0, by decide, by decide⟩
  have hhas := hkept "A".toList hpin (by decide)
  revert hhas
  decide

end CardRag.Generations
