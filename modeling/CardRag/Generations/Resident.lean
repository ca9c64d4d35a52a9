import CardRag.Generations.Pins

/-! # Resident vectors

The requests to a store, one statement of the source after the other on one state, so that what a request that
raises leaves behind is what the statements before it left. The entries of the table come from three places, and
what they keep in memory stays within the limit in every run (`resident_bounded`). -/

namespace CardRag.Generations

variable {s : Settings} {st : Store} {p p' : Process} {handle : GenerationHandle} {id : Str} {entry : Nat}

/-! ### The requests -/

/-- `pins` of the process stand for the `with` blocks; `release` is the end of one. -/
inductive StoreCall where
  | pin
  | pinGeneration (id : Str)
  | release (k : Nat)
  | activate (handle : GenerationHandle) (quota : Except Failure Unit)

def StoreCall.operation : StoreCall → Operation
  | .pin => .pin
  | .pinGeneration id => .pinGeneration id
  | .release k => .release k
  | .activate handle quota => .activate handle quota

/-- Code of the store: it may raise, and what it did until then is done. -/
abbrev Code (α : Type) := ExceptT Failure (StateM Store) α

namespace Code

def run {α : Type} (x : Code α) (st : Store) : Except Failure α × Store := StateT.run (ExceptT.run x) st

/-- A check, or a value that is read without a change. -/
def check {α : Type} (x : Except Failure α) : Code α := ExceptT.mk (pure x)

def onProcess (f : Process → Process) : Code Unit := modify fun st => { st with process := f st.process }

variable {α β : Type}

@[simp] theorem run_pure (a : α) (st : Store) : run (pure a) st = (.ok a, st) := rfl

@[simp] theorem run_throw (e : Failure) (st : Store) : run (throw e : Code α) st = (.error e, st) := rfl

@[simp] theorem run_check (x : Except Failure α) (st : Store) : run (check x) st = (x, st) := rfl

@[simp] theorem run_get (st : Store) : run (get : Code Store) st = (.ok st, st) := rfl

@[simp] theorem run_modify (f : Store → Store) (st : Store) : run (modify f : Code PUnit) st = (.ok (), f st) := rfl

@[simp] theorem run_onProcess (f : Process → Process) (st : Store) :
    run (onProcess f) st = (.ok (), { st with process := f st.process }) := rfl

@[simp] theorem run_bind (x : Code α) (f : α → Code β) (st : Store) :
    run (x >>= f) st = match run x st with
      | (.ok a, st') => run (f a) st'
      | (.error e, st') => (.error e, st') := by
  rcases h : run x st with ⟨a | e, st'⟩
  all_goals
    have hx : x st = _ := h
    show (ExceptT.bind x f) st = _
    simp only [ExceptT.bind, ExceptT.mk, bind, StateT.bind, hx]
    rfl

end Code

open Code

/-- `pin`, up to where it yields the handle. -/
def pinCode : Code Unit := do
  let st ← get
  match st.process.active with
  | none => throw (.runtimeError "no serving generation is active")
  | some entry => onProcess (·.take entry)

/-- `pin_generation`, up to where it yields the handle. -/
def pinGenerationCode (s : Settings) (id : Str) : Code Unit := do
  check (raiseIf (isGenerationId id = false) (.runtimeError "requested generation ID is invalid"))
  let st ← get
  match PyList.get? st.process.entries id with
  | some entry => onProcess (·.take entry)
  | none => do
    check (raiseIf (st.disk.has id = false) (.runtimeError "requested generation is missing or unsafe"))
    match readGeneration s st.disk id with
    | .error _ => throw (.runtimeError "requested generation failed exact validation")
    | .ok handle => do
      check (raiseIf
        (s.maximumResidentVectorBytes <
          st.process.residentVectorBytes none + handle.database.residentVectorBytes)
        (.runtimeError "requested generation exceeds the resident vector memory limit"))
      onProcess (·.newEntry handle)
      onProcess (·.take st.process.heap.length)

/-- The end of a `with` block over the pin of place `k`. -/
def releaseCode (s : Settings) (k : Nat) : Code Unit := do
  let st ← get
  match st.process.pins[k]? with
  | none => pure ()
  | some entry => do
    onProcess (·.drop k entry)
    let st ← get
    if some entry ≠ st.process.active ∧ st.process.references entry = 0 then do
      let _ ← check st.disk.durableGenerationRoots
      modify (prune s)
    else pure ()

/-- `activate` -/
def activateCode (s : Settings) (handle : GenerationHandle) (quota : Except Failure Unit) : Code Unit := do
  let st ← get
  let _ ← check st.disk.durableGenerationRoots
  let id := handle.generationId
  let entry := PyList.get? st.process.entries id
  let own := match entry.bind (st.process.heap[·]?) with
    | some e => e.handle.database.residentVectorBytes
    | none => handle.database.residentVectorBytes
  check (raiseIf (s.maximumResidentVectorBytes < st.process.residentVectorBytes (some id) + own)
    (.runtimeError "candidate plus resident/pinned vector memory exceeds the resident limit"))
  check quota
  modify fun st => { st with disk := { st.disk with current := some id } }
  match entry with
  | some entry => onProcess (·.activateEntry entry)
  | none => do
    onProcess (·.newEntry handle)
    onProcess (·.activateEntry st.process.heap.length)
  modify (prune s)

def StoreCall.code (s : Settings) : StoreCall → Code Unit
  | .pin => pinCode
  | .pinGeneration id => pinGenerationCode s id
  | .release k => releaseCode s k
  | .activate handle quota => activateCode s handle quota

theorem run_pinCode (st : Store) :
    run pinCode st = match pin st with
      | .ok p => (.ok (), { st with process := p })
      | .error e => (.error e, st) := by
  simp only [pinCode, pin, run_bind, run_get]
  cases st.process.active <;> rfl

theorem run_check_bind {α β : Type} (x : Except Failure α) (f : α → Code β) (st : Store) :
    run (check x >>= f) st = match x with
      | .ok a => run (f a) st
      | .error e => (.error e, st) := by
  rw [run_bind, run_check]
  cases x <;> rfl

theorem run_pinGenerationCode (s : Settings) (st : Store) (id : Str) :
    run (pinGenerationCode s id) st = match pinGeneration s st id with
      | .ok p => (.ok (), { st with process := p })
      | .error e => (.error e, st) := by
  unfold pinGenerationCode pinGeneration
  rw [run_check_bind]
  cases raiseIf (isGenerationId id = false) (Failure.runtimeError "requested generation ID is invalid") with
  | error e => rfl
  | ok =>
    rw [run_bind, run_get]
    cases hget : PyList.get? st.process.entries id with
    | some entry => simp [hget]
    | none =>
      simp only [hget, run_check_bind]
      cases raiseIf (st.disk.has id = false) (Failure.runtimeError "requested generation is missing or unsafe") with
      | error e => rfl
      | ok =>
        cases hread : readGeneration s st.disk id with
        | error e => rfl
        | ok handle =>
          simp only [run_check_bind]
          cases raiseIf (s.maximumResidentVectorBytes < st.process.residentVectorBytes none +
            handle.database.residentVectorBytes)
              (Failure.runtimeError "requested generation exceeds the resident vector memory limit") <;> rfl

theorem run_activateCode (s : Settings) (st : Store) (handle : GenerationHandle) (quota : Except Failure Unit) :
    run (activateCode s handle quota) st = match activate s st handle quota with
      | .ok st' => (.ok (), st')
      | .error e => (.error e, st) := by
  unfold activateCode activate switch
  rw [run_bind, run_get]
  simp only [run_check_bind]
  cases st.disk.durableGenerationRoots with
  | error e => rfl
  | ok roots =>
    dsimp only
    generalize raiseIf (s.maximumResidentVectorBytes < _) _ = fits
    cases fits with
    | error e => rfl
    | ok =>
      cases quota with
      | error e => rfl
      | ok => cases PyList.get? st.process.entries handle.generationId <;> rfl

theorem run_releaseCode (s : Settings) (st : Store) (k : Nat) :
    (run (releaseCode s k) st).2 = (release s st k).1 := by
  unfold releaseCode release
  rw [run_bind, run_get]
  cases hpin : st.process.pins[k]? with
  | none => simp only [hpin, run_pure]
  | some entry =>
    simp only [hpin, run_bind, run_onProcess, run_get]
    split
    · rw [run_check_bind]
      cases st.disk.durableGenerationRoots <;> rfl
    · rfl

/-- What the statements leave is what the operation leaves. -/
theorem run_code (s : Settings) (st : Store) (r : StoreCall) : (run (r.code s) st).2 = perform s st r.operation := by
  cases r with
  | pin =>
    rw [StoreCall.code, run_pinCode]
    show _ = { st with process := (pin st).toOption.getD st.process }
    cases pin st <;> rfl
  | pinGeneration id =>
    rw [StoreCall.code, run_pinGenerationCode]
    show _ = { st with process := (pinGeneration s st id).toOption.getD st.process }
    cases pinGeneration s st id <;> rfl
  | release k => exact run_releaseCode s st k
  | activate handle quota =>
    rw [StoreCall.code, run_activateCode]
    show _ = (activate s st handle quota).toOption.getD st
    cases activate s st handle quota <;> rfl

/-- What a request raises when there is no memory for its vectors. -/
def StoreCall.memoryRefusal : StoreCall → Option Failure
  | .pinGeneration _ => some (.runtimeError "requested generation exceeds the resident vector memory limit")
  | .activate .. => some (.runtimeError "candidate plus resident/pinned vector memory exceeds the resident limit")
  | _ => none

/-- A request that raises changes nothing, except that a released pin stays released. -/
theorem run_error {r : StoreCall} {e : Failure} (h : (run (r.code s) st).1 = .error e) (hr : r.memoryRefusal ≠ none) :
    (run (r.code s) st).2 = st := by
  cases r with
  | pin => exact absurd rfl hr
  | release k => exact absurd rfl hr
  | pinGeneration id =>
    rw [StoreCall.code, run_pinGenerationCode] at h ⊢
    cases hrun : pinGeneration s st id with
    | ok p => simp [hrun] at h
    | error e => rfl
  | activate handle quota =>
    rw [StoreCall.code, run_activateCode] at h ⊢
    cases hrun : activate s st handle quota with
    | ok p => simp [hrun] at h
    | error e => rfl

/-! ### What the table keeps in memory -/

namespace Process

def entryBytes (p : Process) (entry : Nat) : Nat :=
  ((p.heap[entry]?).map (·.handle.database.residentVectorBytes)).getD 0

theorem residentVectorBytes_none (p : Process) :
    p.residentVectorBytes none = (p.entries.map fun e => p.entryBytes e.2).sum := by
  rw [residentVectorBytes, List.filter_eq_self.2 (by simp)]
  rfl

/-- Without a generation that is not in the table. -/
theorem residentVectorBytes_of_notMem (hnone : PyList.get? p.entries id = none) :
    p.residentVectorBytes (some id) = p.residentVectorBytes none := by
  have hkeys : ∀ e ∈ p.entries, e.1 ≠ id := by
    intro e hmem heq
    rw [PyList.get?, Option.map_eq_none_iff, List.find?_eq_none] at hnone
    exact hnone e hmem (by simpa using heq)
  rw [residentVectorBytes, residentVectorBytes]
  congr 2
  exact List.filter_congr fun e hmem => by simp [hkeys e hmem]

/-- The table is within the limit. -/
structure Fits (s : Settings) (p : Process) : Prop where
  entry_lt : ∀ e ∈ p.entries, e.2 < p.heap.length
  bound : p.residentVectorBytes none ≤ s.maximumResidentVectorBytes

theorem fits_start : start.Fits s := ⟨by simp [start], by simp [start, residentVectorBytes]⟩

theorem Fits.activateEntry (h : p.Fits s) (entry : Nat) : (p.activateEntry entry).Fits s := ⟨h.entry_lt, h.bound⟩

theorem Fits.modify (h : p.Fits s) (f : Int → Int) (pins : List Nat) (entry : Nat) :
    Fits s { p with heap := p.heap.modify entry fun x => { x with references := f x.references }, pins } where
  entry_lt e hmem := by
    show e.2 < (p.heap.modify entry _).length
    rw [List.length_modify]
    exact h.entry_lt e hmem
  bound := by
    refine le_of_eq_of_le ?_ h.bound
    rw [residentVectorBytes_none, residentVectorBytes_none]
    congr 2
    funext e
    show Option.getD (Option.map _ (p.heap.modify entry _)[e.2]?) 0 = Option.getD (Option.map _ p.heap[e.2]?) 0
    rw [List.getElem?_modify]
    cases p.heap[e.2]? with
    | none => rfl
    | some x =>
      show (HandleEntry.handle (ite _ _ x)).database.residentVectorBytes = _
      split <;> rfl

theorem Fits.newEntry (h : p.Fits s) (hnone : PyList.get? p.entries handle.generationId = none)
    (hle : p.residentVectorBytes none + handle.database.residentVectorBytes ≤ s.maximumResidentVectorBytes) :
    (p.newEntry handle).Fits s := by
  have hkey : handle.generationId ∉ p.entries.map (·.1) := by
    rintro hmem
    obtain ⟨e, hmem, heq⟩ := List.mem_map.1 hmem
    rw [PyList.get?, Option.map_eq_none_iff, List.find?_eq_none] at hnone
    exact hnone e hmem (by simpa using heq)
  have hentries : (p.newEntry handle).entries = p.entries ++ [(handle.generationId, p.heap.length)] :=
    PyList.insert_of_notMem hkey
  have hlen : (p.newEntry handle).heap.length = p.heap.length + 1 := by simp [Process.newEntry]
  refine ⟨?_, ?_⟩
  · intro e hmem
    rw [hentries, List.mem_append, List.mem_singleton] at hmem
    rcases hmem with hmem | rfl
    · have := h.entry_lt e hmem
      omega
    · rw [hlen]
      exact Nat.lt_succ_self _
  · refine le_of_eq_of_le ?_ hle
    have hold : ∀ e ∈ p.entries, (p.newEntry handle).entryBytes e.2 = p.entryBytes e.2 := by
      intro e hmem
      show Option.getD (Option.map _ (p.heap ++ [_])[e.2]?) 0 = _
      rw [List.getElem?_append_left (h.entry_lt e hmem)]
      rfl
    have hnew : (p.newEntry handle).entryBytes p.heap.length = handle.database.residentVectorBytes := by
      show Option.getD (Option.map _ (p.heap ++ [_])[p.heap.length]?) 0 = _
      rw [List.getElem?_concat_length]
      rfl
    rw [residentVectorBytes_none, residentVectorBytes_none, hentries, List.map_append, List.sum_append,
      List.map_congr_left hold]
    simp [hnew]

/-- A prune only takes entries out. -/
theorem Fits.sublist (h : p.Fits s) (hheap : p'.heap = p.heap) (hsub : p'.entries.Sublist p.entries) :
    p'.Fits s where
  entry_lt e hmem := hheap ▸ h.entry_lt e (hsub.subset hmem)
  bound := by
    have hbytes : p'.entryBytes = p.entryBytes := by
      funext e
      rw [entryBytes, entryBytes, hheap]
    refine le_trans ?_ h.bound
    rw [residentVectorBytes_none, residentVectorBytes_none, hbytes]
    exact (hsub.map _).sum_le_sum fun _ _ => Nat.zero_le _

end Process

open Process

theorem loadGenerationHandle_bytes {dir : GenerationDir} (h : loadGenerationHandle s dir = .ok handle) :
    handle.database.residentVectorBytes ≤ s.maximumResidentVectorBytes := by
  unfold loadGenerationHandle at h
  simp only [Guard.bind_eq_ok, raiseIf_eq_ok, Guard.exists_unit] at h
  obtain ⟨-, h⟩ := h
  cases hdb : dir.database with
  | none => simp [hdb] at h
  | some database =>
    simp only [hdb, Guard.bind_eq_ok, raiseIf_eq_ok, Guard.exists_unit, Guard.pure_eq_ok] at h
    obtain ⟨-, -, hle, rfl⟩ := h
    exact Nat.not_lt.1 hle

/-- At start-up the table is empty, and the handle is within the limit by itself. -/
theorem fits_loadCurrent (s : Settings) (d : Disk) : Fits s (loadCurrent s ⟨d, .start⟩).1 := by
  unfold loadCurrent
  split
  · exact fits_start
  · split
    · rename_i id _ _
      split
      · exact fits_start
      · rename_i handle hread
        have hle : handle.database.residentVectorBytes ≤ s.maximumResidentVectorBytes := by
          unfold readGeneration at hread
          split at hread
          · cases hread
          · simp only [Guard.bind_eq_ok, Guard.exists_unit, Guard.pure_eq_ok] at hread
            obtain ⟨_, hload, -, rfl⟩ := hread
            exact loadGenerationHandle_bytes hload
        refine Fits.activateEntry (Fits.newEntry fits_start rfl ?_) _
        simpa [start, residentVectorBytes] using hle
    · exact fits_start

theorem pinGeneration_fits (h : st.process.Fits s) (hpin : pinGeneration s st id = .ok p) : p.Fits s := by
  unfold pinGeneration at hpin
  simp only [Guard.bind_eq_ok, raiseIf_eq_ok, Guard.exists_unit] at hpin
  obtain ⟨-, hpin⟩ := hpin
  split at hpin
  · rw [Guard.pure_eq_ok] at hpin
    exact hpin ▸ h.modify (· + 1) _ _
  · rename_i hnone
    simp only [Guard.bind_eq_ok, raiseIf_eq_ok, Guard.exists_unit] at hpin
    obtain ⟨-, hpin⟩ := hpin
    split at hpin
    · cases hpin
    · rename_i handle hread
      simp only [Guard.bind_eq_ok, raiseIf_eq_ok, Guard.exists_unit, Guard.pure_eq_ok] at hpin
      obtain ⟨hle, rfl⟩ := hpin
      obtain ⟨rfl, -⟩ := readGeneration_eq_ok hread
      exact (h.newEntry hnone (Nat.not_lt.1 hle)).modify (· + 1) _ _

theorem switch_fits {quota : Except Failure Unit} {st' : Store} (h : st.process.Fits s)
    (hswitch : switch s st handle quota = .ok st') : st'.process.Fits s := by
  unfold switch at hswitch
  simp only [Guard.bind_eq_ok, raiseIf_eq_ok, Guard.exists_unit, Guard.pure_eq_ok] at hswitch
  obtain ⟨_, -, hle, -, rfl⟩ := hswitch
  cases hget : PyList.get? st.process.entries handle.generationId with
  | some entry => exact h.activateEntry entry
  | none =>
    rw [hget, residentVectorBytes_of_notMem hget] at hle
    exact (h.newEntry hget (Nat.not_lt.1 hle)).activateEntry _

theorem pop_sublist (p : Process) (id : Str) : (p.pop id).entries.Sublist p.entries := List.filter_sublist

theorem pruneOne_sublist (kept : List Str) (st : Store) (id : Str) :
    (pruneOne kept st id).process.entries.Sublist st.process.entries := by
  have hidle : (if PyList.get? st.process.entries id ≠ none ∧ PyList.get? st.process.entries id ≠ st.process.active ∧
      st.process.pinned id = false then st.process.pop id else st.process).entries.Sublist st.process.entries := by
    split
    · exact pop_sublist _ _
    · exact .refl _
  unfold pruneOne
  dsimp only
  split
  · exact hidle
  · exact (pop_sublist _ _).trans hidle

theorem prune_sublist (s : Settings) (st : Store) : (prune s st).process.entries.Sublist st.process.entries := by
  have hfold : ∀ (ids : List Str) (st' : Store), (ids.foldl (pruneOne (retained s st)) st').process.entries.Sublist
      st'.process.entries := by
    intro ids
    induction ids with
    | nil => exact fun st' => .refl _
    | cons id ids ih => exact fun st' => (ih _).trans (pruneOne_sublist _ st' id)
  exact hfold _ st

theorem fits_prune (h : st.process.Fits s) : (prune s st).process.Fits s :=
  h.sublist (prune_process s st).heap (prune_sublist s st)

theorem fits_perform (h : st.process.Fits s) (r : StoreCall) : (perform s st r.operation).process.Fits s := by
  cases r with
  | pin =>
    show Fits s ((pin st).toOption.getD st.process)
    unfold pin
    split
    · exact h
    · exact h.modify (· + 1) _ _
  | pinGeneration id =>
    show Fits s ((pinGeneration s st id).toOption.getD st.process)
    cases hpin : pinGeneration s st id with
    | error e => exact h
    | ok p => exact pinGeneration_fits h hpin
  | release k =>
    show Fits s (release s st k).1.process
    unfold release
    split
    · exact h
    · rename_i entry _
      have hdrop : Fits s (st.process.drop k entry) := h.modify (· - 1) _ _
      dsimp only
      split
      · split
        · exact hdrop
        · exact fits_prune hdrop
      · exact hdrop
  | activate handle quota =>
    show Fits s ((activate s st handle quota).toOption.getD st).process
    unfold activate
    cases hswitch : switch s st handle quota with
    | error e => exact h
    | ok st' => exact fits_prune (switch_fits h hswitch)

/-! ### Runs -/

/-- A request, on the state root as it is then: other code installs and removes generations in between. -/
def serve (s : Settings) (st : Store) (call : Disk × StoreCall) : Store :=
  (run (call.2.code s) { st with disk := call.1 }).2

/-- The request is refused for its vectors. -/
def RefusedForMemory (s : Settings) (st : Store) (call : Disk × StoreCall) : Prop :=
  ∃ e, call.2.memoryRefusal = some e ∧ (run (call.2.code s) { st with disk := call.1 }).1 = .error e

/-- In every run from start-up, whatever the state root is at each request, the table is within the limit; a
request refused for its vectors changes neither the process nor the state root. -/
theorem resident_bounded (s : Settings) (d : Disk) (calls : List (Disk × StoreCall)) :
    (loadCurrent s ⟨d, .start⟩).1.residentVectorBytes none ≤ s.maximumResidentVectorBytes ∧
    Along (serve s) (fun st call st' => st'.process.residentVectorBytes none ≤ s.maximumResidentVectorBytes ∧
      (RefusedForMemory s st call → st' = { st with disk := call.1 })) ⟨d, (loadCurrent s ⟨d, .start⟩).1⟩ calls := by
  have hstart := fits_loadCurrent s d
  refine ⟨hstart.bound, (Along.of_step (I := fun st => st.process.Fits s) (fun st call h => ?_) hstart calls).1⟩
  have hfits : (serve s st call).process.Fits s := by
    rw [serve, run_code]
    exact @fits_perform s { st with disk := call.1 } h call.2
  refine ⟨hfits, hfits.bound, ?_⟩
  rintro ⟨e, hrefusal, herror⟩
  exact run_error herror (by simp [hrefusal])

end CardRag.Generations
