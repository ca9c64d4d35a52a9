import CardRag.Lib.PyList
import CardRag.Lib.Runs

/-! # Bounded ordered work (`bounded.py`)

`bounded_ordered_map` as the steps between which its workers may be suspended: a worker that has the lock of the
condition admits an item or waits, an operation ends, and its worker gives the slot back. When operations end, and
how, is given to the steps. The caller itself is not cancelled. -/

namespace CardRag.Bounded

variable {α κ ρ ε : Type}

structure Limits where
  concurrency : Nat
  perGroup : Nat
  concurrency_pos : 1 ≤ concurrency
  perGroup_pos : 1 ≤ perGroup

/-- How an operation ends. -/
inductive Ending (ρ ε : Type) where
  | result (r : ρ)
  | failure (e : ε)
  | cancelled

inductive Failure (ε : Type) where
  | raised (e : ε)
  | cancelledError
deriving DecidableEq

/-- What a worker does after its operation. -/
inductive Exit where
  | again
  | failed
  | cancelled
deriving DecidableEq

inductive Worker (κ : Type) where
  /-- At the lock of the condition: new, woken, or back from an operation. -/
  | ready
  | waiting
  | running (key : κ) (index : Nat)
  /-- In the `finally`. -/
  | finishing (key : κ) (index : Nat) (exit : Exit)
  | done (failed : Bool)
deriving DecidableEq

def Exit.worker : Exit → Worker κ
  | .again => .ready
  | .failed => .done true
  | .cancelled => .done false

structure Pool (κ ρ ε : Type) where
  pending : κ → List Nat
  groups : List κ
  active : κ → Nat
  /-- `none` is `missing`. -/
  results : List (Option ρ)
  failures : List (Failure ε)
  workers : List (Worker κ)
  /-- The task group has seen a failed worker and cancels the others. -/
  aborting : Bool
  /-- Not in the program: the operations in the order of their starts, and what they returned. -/
  started : List Nat
  returned : List (Nat × ρ)

inductive Event (ρ ε : Type) where
  | admitted (slot : Nat)
  | finish (slot : Nat) (ending : Ending ρ ε)
  | leave (slot : Nat)
  | abort
  | cancel (slot : Nat)

/-- What the call comes to. -/
inductive Outcome (ρ ε : Type) where
  | returned (results : List ρ)
  | raised (failure : Failure ε)
  /-- "bounded work completed without every input result" -/
  | runtimeError

/-! ### Admission -/

/-- The rotation of the groups up to the first eligible one. -/
def rotate (eligible : κ → Bool) : Nat → List κ → Option κ × List κ
  | 0, groups => (none, groups)
  | _ + 1, [] => (none, [])
  | n + 1, key :: groups =>
    if eligible key then (some key, groups ++ [key]) else rotate eligible n (groups ++ [key])

/-- The places of the items of a group. -/
def indicesOf [DecidableEq κ] (items : List α) (groupKey : α → κ) (key : κ) : List Nat :=
  (List.range items.length).filter fun i => items[i]?.map groupKey = some key

namespace Pool

variable (L : Limits)

def start [DecidableEq κ] (items : List α) (groupKey : α → κ) : Pool κ ρ ε where
  pending := indicesOf items groupKey
  groups := (PyList.dictOf groupKey items).map (·.1)
  active _ := 0
  results := List.replicate items.length none
  failures := []
  workers := List.replicate (min L.concurrency items.length) .ready
  aborting := false
  started := []
  returned := []

variable (s : Pool κ ρ ε)

def setWorker (slot : Nat) (w : Worker κ) : Pool κ ρ ε := { s with workers := s.workers.set slot w }

def eligible (key : κ) : Bool := s.pending key ≠ [] && s.active key < L.perGroup

/-- Under the lock; the operation starts as the lock is released. -/
def admitted [DecidableEq κ] (slot : Nat) : Pool κ ρ ε :=
  if s.failures ≠ [] then s.setWorker slot (.done false)
  else match rotate (s.eligible L) s.groups.length s.groups with
    | (some key, groups) =>
      match s.pending key with
      | index :: rest =>
        { s with
          pending := Function.update s.pending key rest
          groups
          active := Function.update s.active key (s.active key + 1)
          workers := s.workers.set slot (.running key index)
          started := s.started ++ [index] }
      | [] => s
    | (none, groups) =>
      { s with
        groups
        workers := s.workers.set slot (if groups.any (s.pending · ≠ []) then .waiting else .done false) }

def finish (slot : Nat) (key : κ) (index : Nat) : Ending ρ ε → Pool κ ρ ε
  | .result r =>
    { s with
      results := s.results.set index (some r)
      workers := s.workers.set slot (.finishing key index .again)
      returned := s.returned ++ [(index, r)] }
  | .failure e =>
    { s with failures := s.failures ++ [.raised e], workers := s.workers.set slot (.finishing key index .failed) }
  | .cancelled =>
    if s.failures ≠ [] then s.setWorker slot (.finishing key index .cancelled)
    else { s with
      failures := s.failures ++ [.cancelledError], workers := s.workers.set slot (.finishing key index .failed) }

/-- `notify_all`. -/
def wake : Worker κ → Worker κ
  | .waiting => .ready
  | w => w

def leave [DecidableEq κ] (slot : Nat) (key : κ) (exit : Exit) : Pool κ ρ ε :=
  { s with
    active := Function.update s.active key (s.active key - 1)
    workers := (s.workers.map wake).set slot exit.worker }

/-- An event out of its phase does nothing. -/
def step [DecidableEq κ] : Event ρ ε → Pool κ ρ ε
  | .admitted slot =>
    match s.workers[slot]? with
    | some .ready => s.admitted L slot
    | _ => s
  | .finish slot ending =>
    match s.workers[slot]? with
    | some (.running key index) => s.finish slot key index ending
    | _ => s
  | .leave slot =>
    match s.workers[slot]? with
    | some (.finishing key _ exit) => s.leave slot key exit
    | _ => s
  | .abort => if s.workers.any (· = .done true) then { s with aborting := true } else s
  | .cancel slot =>
    match s.workers[slot]? with
    | some .ready => if s.aborting then s.setWorker slot (.done false) else s
    | some .waiting => if s.aborting then s.setWorker slot (.done false) else s
    | _ => s

/-- After the task group; `none` while a worker is left. -/
def outcome : Option (Outcome ρ ε) :=
  if s.workers.any (fun | .done _ => false | _ => true) then none
  else match s.failures with
    | f :: _ => some (.raised f)
    | [] => match s.results.mapM id with
      | some results => some (.returned results)
      | none => some .runtimeError

/-- The items whose operations run. -/
def running : List Nat := s.workers.filterMap fun
  | .running _ index => some index
  | _ => none

/-- Every live worker waits, and an item is pending. -/
def Stuck : Prop :=
  .waiting ∈ s.workers ∧ (∀ w ∈ s.workers, w = .waiting ∨ ∃ failed, w = .done failed) ∧ ∃ key, s.pending key ≠ []

end Pool

/-! ### One at a time -/

/-- With a concurrency of one the items are taken in order. -/
structure Alone (ρ ε : Type) where
  results : List ρ
  running : Bool
  failures : List (Failure ε)
  started : List Nat
  returned : List (Nat × ρ)

namespace Alone

def start : Alone ρ ε := ⟨[], false, [], [], []⟩

def step (n : Nat) (s : Alone ρ ε) : Event ρ ε → Alone ρ ε
  | .admitted _ =>
    if s.running = false ∧ s.failures = [] ∧ s.results.length < n then
      { s with running := true, started := s.started ++ [s.results.length] }
    else s
  | .finish _ ending =>
    if s.running then
      match ending with
      | .result r =>
        { s with running := false, results := s.results ++ [r], returned := s.returned ++ [(s.results.length, r)] }
      | .failure e => { s with running := false, failures := [.raised e] }
      | .cancelled => { s with running := false, failures := [.cancelledError] }
    else s
  | _ => s

def outcome (n : Nat) (s : Alone ρ ε) : Option (Outcome ρ ε) :=
  match s.failures with
  | f :: _ => some (.raised f)
  | [] => if s.results.length = n then some (.returned s.results) else none

end Alone

/-! ### The call -/

inductive Run (κ ρ ε : Type) where
  | alone (s : Alone ρ ε)
  | pool (s : Pool κ ρ ε)

namespace Run

variable [DecidableEq κ] (items : List α) (groupKey : α → κ) (L : Limits)

/-- `bounded_ordered_map`. -/
def start : Run κ ρ ε := if L.concurrency = 1 then .alone .start else .pool (.start L items groupKey)

def step (s : Run κ ρ ε) (e : Event ρ ε) : Run κ ρ ε :=
  match s with
  | .alone s => .alone (s.step items.length e)
  | .pool s => .pool (s.step L e)

def started : Run κ ρ ε → List Nat
  | .alone s => s.started
  | .pool s => s.started

def returned : Run κ ρ ε → List (Nat × ρ)
  | .alone s => s.returned
  | .pool s => s.returned

def failures : Run κ ρ ε → List (Failure ε)
  | .alone s => s.failures
  | .pool s => s.failures

def running : Run κ ρ ε → List Nat
  | .alone s => if s.running then [s.results.length] else []
  | .pool s => s.running

def Stuck : Run κ ρ ε → Prop
  | .alone _ => False
  | .pool s => s.Stuck

def outcome : Run κ ρ ε → Option (Outcome ρ ε)
  | .alone s => s.outcome items.length
  | .pool s => s.outcome

/-- What holds in every state. -/
structure Laws (s : Run κ ρ ε) : Prop where
  once : s.started.Nodup
  order : ∀ key, (s.started.filter fun i => items[i]?.map groupKey = some key).Pairwise (· < ·)
  concurrency : s.running.length ≤ L.concurrency
  perGroup : ∀ key, (s.running.filter fun i => items[i]?.map groupKey = some key).length ≤ L.perGroup
  live : ¬ s.Stuck
  /-- The call returns the result of each item, in the order of the items, or raises the first failure. -/
  outcome : ∀ o, s.outcome items = some o →
    (∃ results, o = .returned results ∧ results.length = items.length ∧
      ∀ (i : Nat) r, results[i]? = some r → (i, r) ∈ s.returned) ∨
    ∃ f, o = .raised f ∧ s.failures.head? = some f

/-- No operation starts after a failure, and what was recorded stays. -/
structure Keeps (s s' : Run κ ρ ε) : Prop where
  laws : Laws items groupKey L s'
  quiet : s.failures ≠ [] → s'.started = s.started
  failures : s.failures <+: s'.failures
  started : s.started <+: s'.started

end Run

/-! ### Workers in their list -/

/-- The worker has a place of the group. -/
def Worker.holds [DecidableEq κ] (key : κ) : Worker κ → Bool
  | .running k _ => k = key
  | .finishing k _ _ => k = key
  | _ => false

/-- The worker has recorded a failure, or was cancelled after one. -/
def Worker.failing : Worker κ → Prop
  | .finishing _ _ .failed | .finishing _ _ .cancelled | .done true => True
  | _ => False

section
variable {workers : List (Worker κ)} {slot : Nat} {w w' v : Worker κ}

theorem countP_set_add (p : Worker κ → Bool) (w' : Worker κ) (h : workers[slot]? = some w) :
    (workers.set slot w').countP p + (p w).toNat = workers.countP p + (p w').toNat := by
  obtain ⟨hlt, rfl⟩ := List.getElem?_eq_some_iff.1 h
  rw [List.countP_set hlt]
  have hpos : p workers[slot] = true → 0 < workers.countP p := fun hp =>
    List.countP_pos_iff.2 ⟨_, List.getElem_mem hlt, hp⟩
  cases hw : p workers[slot] <;> cases hw' : p w' <;> simp
  · have := hpos hw
    omega
  · have := hpos hw
    omega

/-- Another worker stays in the list. -/
theorem mem_set_of_ne (h : workers[slot]? = some w) (hv : v ∈ workers) (hne : v ≠ w) : v ∈ workers.set slot w' := by
  obtain ⟨j, hj⟩ := List.mem_iff_getElem?.1 hv
  have hjs : slot ≠ j := by
    rintro rfl
    rw [h] at hj
    exact hne (Option.some.inj hj).symm
  exact List.mem_iff_getElem?.2 ⟨j, by rwa [List.getElem?_set_ne hjs]⟩

theorem mem_set_self (h : workers[slot]? = some w) : w' ∈ workers.set slot w' :=
  List.mem_iff_getElem?.2 ⟨slot, List.getElem?_set_self (List.getElem?_eq_some_iff.1 h).1⟩

end

/-! ### The rotation -/

section
variable {eligible : κ → Bool} {n : Nat} {groups groups' : List κ} {key : κ}

theorem rotate_some (h : rotate eligible n groups = (some key, groups')) :
    eligible key = true ∧ ∀ k, k ∈ groups' ↔ k ∈ groups := by
  induction n generalizing groups with
  | zero => cases h
  | succ n ih =>
    cases groups with
    | nil => cases h
    | cons g groups =>
      rw [rotate] at h
      split at h
      · rename_i hg
        obtain ⟨hk, rfl⟩ := Prod.mk.inj h
        obtain rfl := Option.some.inj hk
        exact ⟨hg, fun k => by simp [or_comm]⟩
      · obtain ⟨hk, hmem⟩ := ih h
        exact ⟨hk, fun k => by rw [hmem k]; simp [or_comm]⟩

/-- Every group has had its turn. -/
theorem rotate_none {passed rest : List κ} (hpassed : ∀ k ∈ passed, eligible k = false)
    (h : rotate eligible rest.length (rest ++ passed) = (none, groups')) :
    (∀ k ∈ rest ++ passed, eligible k = false) ∧ ∀ k, k ∈ groups' ↔ k ∈ rest ++ passed := by
  induction rest generalizing passed with
  | nil =>
    obtain ⟨-, rfl⟩ := Prod.mk.inj h
    exact ⟨by simpa using hpassed, fun k => Iff.rfl⟩
  | cons g rest ih =>
    rw [List.length_cons, List.cons_append, rotate] at h
    split at h
    · cases h
    · rename_i hg
      have hg : eligible g = false := by simpa using hg
      rw [List.append_assoc] at h
      have hpassed' : ∀ k ∈ passed ++ [g], eligible k = false := by
        intro k hk
        rcases List.mem_append.1 hk with hk | hk
        · exact hpassed k hk
        · rw [List.mem_singleton.1 hk]
          exact hg
      obtain ⟨hall, hmem⟩ := ih hpassed' h
      have hperm (k : κ) : k ∈ rest ++ (passed ++ [g]) ↔ k ∈ g :: rest ++ passed := by
        simp only [List.mem_append, List.mem_cons, List.not_mem_nil, or_false]
        tauto
      exact ⟨fun k hk => hall k ((hperm k).2 hk), fun k => (hmem k).trans (hperm k)⟩

end

/-! ### The invariant -/

section
variable [DecidableEq κ] {items : List α} {groupKey : α → κ} {L : Limits} {s : Pool κ ρ ε} {slot index : Nat} {key : κ}

structure Pool.Inv (items : List α) (groupKey : α → κ) (L : Limits) (s : Pool κ ρ ε) : Prop where
  /-- What was started and what is pending of a group are its items in order. -/
  order : ∀ key, (s.started.filter fun i => items[i]?.map groupKey = some key) ++ s.pending key =
    indicesOf items groupKey key
  inRange : ∀ i ∈ s.started, i < items.length
  groups : ∀ key, key ∈ s.groups ↔ key ∈ items.map groupKey
  active : ∀ key, s.active key = s.workers.countP (·.holds key)
  perGroup : ∀ key, s.active key ≤ L.perGroup
  /-- No group could be served when a worker waits. -/
  blocked : .waiting ∈ s.workers → ∀ key, s.pending key ≠ [] → L.perGroup ≤ s.active key
  size : s.workers.length = min L.concurrency items.length
  length : s.results.length = items.length
  aborted : s.aborting = true → s.failures ≠ []
  failing : ∀ w ∈ s.workers, w.failing → s.failures ≠ []
  drained : s.failures = [] → ∀ failed, .done failed ∈ s.workers → ∀ key, s.pending key = []
  cover : s.failures = [] → ∀ i ∈ s.started, (∃ r, s.results[i]? = some (some r)) ∨ ∃ key, .running key i ∈ s.workers
  own : ∀ (i : Nat) r, s.results[i]? = some (some r) → (i, r) ∈ s.returned
  keyed : ∀ key i, .running key i ∈ s.workers → items[i]?.map groupKey = some key

theorem mem_indicesOf {i : Nat} : i ∈ indicesOf items groupKey key ↔ items[i]?.map groupKey = some key := by
  rw [indicesOf, List.mem_filter, List.mem_range, decide_eq_true_eq, and_iff_right_iff_imp]
  intro h
  obtain ⟨a, ha, -⟩ := Option.map_eq_some_iff.1 h
  exact (List.getElem?_eq_some_iff.1 ha).1

theorem indicesOf_pairwise (items : List α) (groupKey : α → κ) (key : κ) :
    (indicesOf items groupKey key).Pairwise (· < ·) := List.pairwise_lt_range.filter _

namespace Pool.Inv

theorem pending_key (h : s.Inv items groupKey L) {i : Nat} (hi : i ∈ s.pending key) :
    items[i]?.map groupKey = some key := by
  rw [← mem_indicesOf, ← h.order key]
  exact List.mem_append_right _ hi

theorem key_mem_groups (h : s.Inv items groupKey L) (hpending : s.pending key ≠ []) : key ∈ s.groups := by
  obtain ⟨i, hi⟩ := List.exists_mem_of_ne_nil _ hpending
  obtain ⟨a, ha, hkey⟩ := Option.map_eq_some_iff.1 (h.pending_key hi)
  exact (h.groups key).2 (List.mem_map.2 ⟨a, List.mem_of_getElem? ha, hkey⟩)

/-- A worker that has no operation leaves after a failure. -/
theorem quit {w : Worker κ} (h : s.Inv items groupKey L) (hw : s.workers[slot]? = some w) (hfree : ∀ key, w.holds key = false)
    (hf : s.failures ≠ []) : (s.setWorker slot (.done false)).Inv items groupKey L where
  order := h.order
  inRange := h.inRange
  groups := h.groups
  active := fun key => by
    have hcount := countP_set_add (fun v => v.holds key) (.done false) hw
    rw [hfree key] at hcount
    exact (h.active key).trans hcount.symm
  perGroup := h.perGroup
  blocked := fun hwait => by
    rcases List.mem_or_eq_of_mem_set hwait with hwait | hwait
    · exact h.blocked hwait
    · cases hwait
  size := by rw [setWorker, List.length_set, h.size]
  length := h.length
  aborted := h.aborted
  failing := fun _ _ _ => hf
  drained := fun hnil => absurd hnil hf
  cover := fun hnil => absurd hnil hf
  own := h.own
  keyed := fun key i hrun => by
    rcases List.mem_or_eq_of_mem_set hrun with hrun | hrun
    · exact h.keyed key i hrun
    · cases hrun

/-- The next item of an eligible group starts. -/
theorem start_next {rest : List Nat} {groups : List κ} (h : s.Inv items groupKey L) (hw : s.workers[slot]? = some .ready)
    (hf : s.failures = []) (hgroups : ∀ k, k ∈ groups ↔ k ∈ s.groups) (hpending : s.pending key = index :: rest)
    (hactive : s.active key < L.perGroup) :
    Inv items groupKey L { s with
      pending := Function.update s.pending key rest
      groups
      active := Function.update s.active key (s.active key + 1)
      workers := s.workers.set slot (.running key index)
      started := s.started ++ [index] } := by
  have hkey : items[index]?.map groupKey = some key := h.pending_key (by rw [hpending]; exact List.mem_cons_self)
  have hle (k : κ) : s.active k ≤ Function.update s.active key (s.active key + 1) k := by
    by_cases hk : k = key
    · subst hk
      rw [Function.update_self]
      omega
    · rw [Function.update_of_ne hk]
  have hshrink (k : κ) (hne : Function.update s.pending key rest k ≠ []) : s.pending k ≠ [] := by
    by_cases hk : k = key
    · subst hk
      rw [hpending]
      exact List.cons_ne_nil _ _
    · rwa [Function.update_of_ne hk] at hne
  refine ⟨fun k => ?_, fun i hi => ?_, fun k => (hgroups k).trans (h.groups k), fun k => ?_, fun k => ?_, fun hwait k hk => ?_,
    ?_, h.length, h.aborted, fun w hw' hfail => ?_, fun hnil failed hdone => ?_, fun hnil i hi => ?_, h.own, fun k i hrun => ?_⟩
  · rw [← h.order k, List.filter_append]
    dsimp only
    by_cases hk : k = key
    · subst hk
      rw [Function.update_self, hpending, List.filter_cons_of_pos (by simpa using hkey), List.filter_nil, List.append_assoc]
      rfl
    · have hne : ¬ some key = some k := fun heq => hk (Option.some.inj heq).symm
      rw [Function.update_of_ne hk, List.filter_cons_of_neg (by simpa [hkey] using fun heq => hk heq.symm), List.filter_nil,
        List.append_nil]
  · rcases List.mem_append.1 hi with hi | hi
    · exact h.inRange i hi
    · rw [List.mem_singleton.1 hi]
      obtain ⟨a, ha, -⟩ := Option.map_eq_some_iff.1 hkey
      exact (List.getElem?_eq_some_iff.1 ha).1
  · have hcount := countP_set_add (fun v => v.holds k) (.running key index) hw
    simp only [Worker.holds] at hcount
    dsimp only
    by_cases hk : k = key
    · subst hk
      rw [Function.update_self, h.active k]
      simp only [Bool.toNat_false, decide_true, Bool.toNat_true, Nat.add_zero] at hcount
      exact hcount.symm
    · have hne : ¬ key = k := fun heq => hk heq.symm
      rw [Function.update_of_ne hk, h.active k]
      simp only [hne, decide_false, Bool.toNat_false, Nat.add_zero] at hcount
      exact hcount.symm
  · dsimp only
    by_cases hk : k = key
    · subst hk
      rw [Function.update_self]
      exact hactive
    · rw [Function.update_of_ne hk]
      exact h.perGroup k
  · rcases List.mem_or_eq_of_mem_set hwait with hwait | hwait
    · exact (h.blocked hwait k (hshrink k hk)).trans (hle k)
    · cases hwait
  · rw [List.length_set, h.size]
  · rcases List.mem_or_eq_of_mem_set hw' with hw' | rfl
    · exact h.failing w hw' hfail
    · exact hfail.elim
  · rcases List.mem_or_eq_of_mem_set hdone with hdone | hdone
    · rw [h.drained hf failed hdone key] at hpending
      cases hpending
    · cases hdone
  · rcases List.mem_append.1 hi with hi | hi
    · rcases h.cover hf i hi with hres | ⟨k, hrun⟩
      · exact .inl hres
      · exact .inr ⟨k, mem_set_of_ne hw hrun nofun⟩
    · rw [List.mem_singleton.1 hi]
      exact .inr ⟨key, mem_set_self hw⟩
  · rcases List.mem_or_eq_of_mem_set hrun with hrun | hrun
    · exact h.keyed k i hrun
    · obtain ⟨rfl, rfl⟩ := Worker.running.inj hrun
      exact hkey

/-- Nothing can be admitted. -/
theorem rest {w : Worker κ} {groups : List κ} (h : s.Inv items groupKey L) (hw : s.workers[slot]? = some .ready)
    (hgroups : ∀ k, k ∈ groups ↔ k ∈ s.groups) (hfull : ∀ k ∈ s.groups, s.eligible L k = false)
    (hnew : w = if groups.any (s.pending · ≠ []) then .waiting else .done false) :
    Inv items groupKey L { s with groups, workers := s.workers.set slot w } := by
  have hfree (k : κ) : w.holds k = false := by
    rw [hnew]
    split <;> rfl
  have hany (k : κ) (hk : s.pending k ≠ []) : (groups.any (s.pending · ≠ [])) = true :=
    List.any_eq_true.2 ⟨k, (hgroups k).2 (h.key_mem_groups hk), by simpa using hk⟩
  refine ⟨h.order, h.inRange, fun k => (hgroups k).trans (h.groups k), fun k => ?_, h.perGroup, fun _ k hk => ?_, ?_, h.length,
    h.aborted, fun v hv hfail => ?_, fun hnil failed hdone k => ?_, fun hnil i hi => ?_, h.own, fun k i hrun => ?_⟩
  · have hcount := countP_set_add (fun v => v.holds k) w hw
    rw [hfree k] at hcount
    exact (h.active k).trans hcount.symm
  · have hno := hfull k (h.key_mem_groups hk)
    simp only [eligible, Bool.and_eq_false_imp, decide_eq_true_eq, decide_eq_false_iff_not, not_lt] at hno
    exact hno hk
  · rw [List.length_set, h.size]
  · rcases List.mem_or_eq_of_mem_set hv with hv | rfl
    · exact h.failing v hv hfail
    · rw [hnew] at hfail
      split at hfail <;> exact hfail.elim
  · rcases List.mem_or_eq_of_mem_set hdone with hdone | hdone
    · exact h.drained hnil failed hdone k
    · by_contra hk
      rw [hnew, if_pos (hany k hk)] at hdone
      cases hdone
  · rcases h.cover hnil i hi with hres | ⟨k, hrun⟩
    · exact .inl hres
    · exact .inr ⟨k, mem_set_of_ne hw hrun nofun⟩
  · rcases List.mem_or_eq_of_mem_set hrun with hrun | hrun
    · exact h.keyed k i hrun
    · rw [hnew] at hrun
      split at hrun <;> cases hrun

theorem admitted (h : s.Inv items groupKey L) (hw : s.workers[slot]? = some .ready) :
    (s.admitted L slot).Inv items groupKey L := by
  unfold Pool.admitted
  split
  · rename_i hf
    exact h.quit hw (fun _ => rfl) hf
  · rename_i hf
    split
    · rename_i key groups hrot
      obtain ⟨hkey, hmem⟩ := rotate_some hrot
      simp only [eligible, Bool.and_eq_true, decide_eq_true_eq] at hkey
      split
      · rename_i index rest hpending
        exact h.start_next hw (not_not.1 hf) hmem hpending hkey.2
      · exact h
    · rename_i groups hrot
      have hnone := @rotate_none κ (s.eligible L) groups [] s.groups nofun (by rwa [List.append_nil])
      rw [List.append_nil] at hnone
      exact h.rest hw hnone.2 hnone.1 rfl

/-- An operation returns. -/
theorem finish_result (h : s.Inv items groupKey L) (hw : s.workers[slot]? = some (.running key index)) (r : ρ) :
    (s.finish slot key index (.result r)).Inv items groupKey L := by
  have hkey := h.keyed key index (List.mem_of_getElem? hw)
  have hlt : index < s.results.length := by
    obtain ⟨a, ha, -⟩ := Option.map_eq_some_iff.1 hkey
    rw [h.length]
    exact (List.getElem?_eq_some_iff.1 ha).1
  refine ⟨h.order, h.inRange, h.groups, fun k => ?_, h.perGroup, fun hwait => ?_, ?_, ?_, h.aborted, fun v hv hfail => ?_,
    fun hnil failed hdone => ?_, fun hnil i hi => ?_, fun i r' hres => ?_, fun k i hrun => ?_⟩
  · have hcount := countP_set_add (fun v => v.holds k) (.finishing key index .again) hw
    simp only [Worker.holds, Nat.add_right_cancel_iff] at hcount
    exact (h.active k).trans hcount.symm
  · rcases List.mem_or_eq_of_mem_set hwait with hwait | hwait
    · exact h.blocked hwait
    · cases hwait
  · exact List.length_set.trans h.size
  · exact List.length_set.trans h.length
  · rcases List.mem_or_eq_of_mem_set hv with hv | rfl
    · exact h.failing v hv hfail
    · exact hfail.elim
  · rcases List.mem_or_eq_of_mem_set hdone with hdone | hdone
    · exact h.drained hnil failed hdone
    · cases hdone
  · by_cases hii : i = index
    · subst hii
      exact .inl ⟨r, List.getElem?_set_self hlt⟩
    · rcases h.cover hnil i hi with ⟨r', hres⟩ | ⟨k, hrun⟩
      · exact .inl ⟨r', by rw [finish, List.getElem?_set_ne (Ne.symm hii), hres]⟩
      · exact .inr ⟨k, mem_set_of_ne hw hrun fun heq => hii (Worker.running.inj heq).2⟩
  · by_cases hii : i = index
    · subst hii
      rw [finish, List.getElem?_set_self hlt] at hres
      obtain rfl := Option.some.inj (Option.some.inj hres)
      exact List.mem_append_right _ (List.mem_singleton_self _)
    · rw [finish, List.getElem?_set_ne (Ne.symm hii)] at hres
      exact List.mem_append_left _ (h.own i r' hres)
  · rcases List.mem_or_eq_of_mem_set hrun with hrun | hrun
    · exact h.keyed k i hrun
    · cases hrun

/-- An operation ends otherwise. -/
theorem finish_other {failures : List (Failure ε)} {exit : Exit} (h : s.Inv items groupKey L)
    (hw : s.workers[slot]? = some (.running key index)) (hf : failures ≠ []) :
    Inv items groupKey L { s with failures, workers := s.workers.set slot (.finishing key index exit) } := by
  refine ⟨h.order, h.inRange, h.groups, fun k => ?_, h.perGroup, fun hwait => ?_, ?_, h.length, fun _ => hf, fun _ _ _ => hf,
    fun hnil => absurd hnil hf, fun hnil => absurd hnil hf, h.own, fun k i hrun => ?_⟩
  · have hcount := countP_set_add (fun v => v.holds k) (.finishing key index exit) hw
    simp only [Worker.holds, Nat.add_right_cancel_iff] at hcount
    exact (h.active k).trans hcount.symm
  · rcases List.mem_or_eq_of_mem_set hwait with hwait | hwait
    · exact h.blocked hwait
    · cases hwait
  · rw [List.length_set, h.size]
  · rcases List.mem_or_eq_of_mem_set hrun with hrun | hrun
    · exact h.keyed k i hrun
    · cases hrun

theorem finish (h : s.Inv items groupKey L) (hw : s.workers[slot]? = some (.running key index)) (ending : Ending ρ ε) :
    (s.finish slot key index ending).Inv items groupKey L := by
  cases ending with
  | result r => exact h.finish_result hw r
  | failure e => exact h.finish_other hw (by simp)
  | cancelled =>
    simp only [Pool.finish]
    split
    · rename_i hf
      exact h.finish_other hw hf
    · exact h.finish_other hw (by simp)

/-- A worker gives its place back and wakes the others. -/
theorem leave {exit : Exit} (h : s.Inv items groupKey L) (hw : s.workers[slot]? = some (.finishing key index exit)) :
    (s.leave slot key exit).Inv items groupKey L := by
  have hwake (k : κ) (w : Worker κ) : (wake w).holds k = w.holds k := by cases w <;> rfl
  have hlt := (List.getElem?_eq_some_iff.1 hw).1
  have hslot : (s.workers.map wake)[slot]? = some (.finishing key index exit) := by
    rw [List.getElem?_map, hw]
    rfl
  have hmem {w : Worker κ} (hne : w ≠ .ready) (hin : w ∈ s.workers.map wake) : w ∈ s.workers := by
    obtain ⟨v, hv, rfl⟩ := List.mem_map.1 hin
    cases v with
    | waiting => exact absurd rfl hne
    | _ => exact hv
  have hexit : exit ≠ .again → s.failures ≠ [] := fun hne => by
    refine h.failing _ (List.mem_of_getElem? hw) ?_
    cases exit with
    | again => exact absurd rfl hne
    | failed => exact trivial
    | cancelled => exact trivial
  have hleft (k : κ) : (exit.worker : Worker κ).holds k = false := by cases exit <;> rfl
  refine ⟨h.order, h.inRange, h.groups, fun k => ?_, fun k => ?_, fun hwait => ?_, ?_, h.length, h.aborted, fun v hv hfail => ?_,
    fun hnil failed hdone => ?_, fun hnil i hi => ?_, h.own, fun k i hrun => ?_⟩
  · have hcount := countP_set_add (fun v => v.holds k) exit.worker hslot
    have hmap : (s.workers.map wake).countP (fun v => v.holds k) = s.workers.countP fun v => v.holds k := by
      rw [List.countP_map]
      exact List.countP_congr fun w _ => by simp only [Function.comp_apply, hwake]
    have hheld : (Worker.finishing key index exit).holds k = decide (key = k) := rfl
    rw [hmap, hleft k, ← h.active k, hheld, Bool.toNat_false, Nat.add_zero] at hcount
    show Function.update s.active key (s.active key - 1) k = ((s.workers.map wake).set slot exit.worker).countP fun v => v.holds k
    by_cases hk : k = key
    · subst hk
      rw [Function.update_self]
      simp only [decide_true, Bool.toNat_true] at hcount
      omega
    · have hne : ¬ key = k := fun heq => hk heq.symm
      rw [Function.update_of_ne hk]
      simp only [hne, decide_false, Bool.toNat_false, Nat.add_zero] at hcount
      exact hcount.symm
  · have hle : Function.update s.active key (s.active key - 1) k ≤ s.active k := by
      by_cases hk : k = key
      · subst hk
        rw [Function.update_self]
        omega
      · rw [Function.update_of_ne hk]
    exact hle.trans (h.perGroup k)
  · rcases List.mem_or_eq_of_mem_set hwait with hwait | hwait
    · obtain ⟨v, -, hv⟩ := List.mem_map.1 hwait
      cases v <;> cases hv
    · cases exit <;> cases hwait
  · exact (List.length_set.trans (List.length_map _)).trans h.size
  · rcases List.mem_or_eq_of_mem_set hv with hv | rfl
    · obtain ⟨u, hu, rfl⟩ := List.mem_map.1 hv
      cases u with
      | waiting => exact hfail.elim
      | _ => exact h.failing _ hu hfail
    · refine hexit ?_
      rintro rfl
      exact hfail.elim
  · rcases List.mem_or_eq_of_mem_set hdone with hdone | hdone
    · exact h.drained hnil failed (hmem nofun hdone)
    · cases exit with
      | again => cases hdone
      | failed => exact absurd hnil (hexit nofun)
      | cancelled => exact absurd hnil (hexit nofun)
  · rcases h.cover hnil i hi with hres | ⟨k, hrun⟩
    · exact .inl hres
    · exact .inr ⟨k, mem_set_of_ne hslot (List.mem_map.2 ⟨_, hrun, rfl⟩) nofun⟩
  · rcases List.mem_or_eq_of_mem_set hrun with hrun | hrun
    · exact h.keyed k i (hmem nofun hrun)
    · cases exit <;> cases hrun

theorem step (h : s.Inv items groupKey L) (e : Event ρ ε) : (s.step L e).Inv items groupKey L := by
  cases e with
  | admitted slot =>
    simp only [Pool.step]
    split
    · rename_i hw
      exact h.admitted hw
    · exact h
  | finish slot ending =>
    simp only [Pool.step]
    split
    · rename_i key index hw
      exact h.finish hw ending
    · exact h
  | leave slot =>
    simp only [Pool.step]
    split
    · rename_i key index exit hw
      exact h.leave hw
    · exact h
  | abort =>
    simp only [Pool.step]
    split
    · rename_i hany
      obtain ⟨w, hw, hdone⟩ := List.any_eq_true.1 hany
      obtain rfl := of_decide_eq_true hdone
      exact ⟨h.order, h.inRange, h.groups, h.active, h.perGroup, h.blocked, h.size, h.length,
        fun _ => h.failing _ hw trivial, h.failing, h.drained, h.cover, h.own, h.keyed⟩
    · exact h
  | cancel slot =>
    simp only [Pool.step]
    split
    · rename_i hw
      split
      · rename_i habort
        exact h.quit hw (fun _ => rfl) (h.aborted habort)
      · exact h
    · rename_i hw
      split
      · rename_i habort
        exact h.quit hw (fun _ => rfl) (h.aborted habort)
      · exact h
    · exact h

end Pool.Inv

theorem inv_start : (Pool.start L items groupKey : Pool κ ρ ε).Inv items groupKey L := by
  have hready {w : Worker κ} (hw : w ∈ List.replicate (min L.concurrency items.length) (.ready : Worker κ)) : w = .ready :=
    (List.mem_replicate.1 hw).2
  refine ⟨fun _ => rfl, nofun, fun key => PyList.mem_keys_dictOf, fun key => ?_, fun key => Nat.zero_le _,
    fun hwait => (nomatch hready hwait), List.length_replicate, List.length_replicate, nofun, fun w hw hfail => ?_,
    fun _ failed hdone => (nomatch hready hdone), nofun, fun i r hres => ?_, fun key i hrun => (nomatch hready hrun)⟩
  · refine (List.countP_eq_zero.2 fun w hw => ?_).symm
    rw [hready hw]
    simp [Worker.holds]
  · rw [hready hw] at hfail
    exact hfail.elim
  · have hmem := List.mem_of_getElem? hres
    cases (List.mem_replicate.1 hmem).2

/-! ### The laws -/

theorem Pool.Inv.started_nodup (h : s.Inv items groupKey L) : s.started.Nodup := by
  rw [List.nodup_iff_count_le_one]
  intro i
  by_cases hi : i ∈ s.started
  · obtain ⟨key, hkey⟩ : ∃ key, items[i]?.map groupKey = some key := by
      rw [List.getElem?_eq_getElem (h.inRange i hi)]
      exact ⟨_, rfl⟩
    have hnd : (indicesOf items groupKey key).Nodup := (indicesOf_pairwise items groupKey key).imp Nat.ne_of_lt
    rw [← h.order, List.nodup_append] at hnd
    have hcount : (s.started.filter fun i => items[i]?.map groupKey = some key).count i = s.started.count i :=
      List.count_filter (decide_eq_true hkey)
    rw [← hcount]
    exact List.nodup_iff_count_le_one.1 hnd.1 i
  · rw [List.count_eq_zero.2 hi]
    exact Nat.zero_le 1

theorem Pool.Inv.started_order (h : s.Inv items groupKey L) (key : κ) :
    (s.started.filter fun i => items[i]?.map groupKey = some key).Pairwise (· < ·) := by
  have hsorted := indicesOf_pairwise items groupKey key
  rw [← h.order key, List.pairwise_append] at hsorted
  exact hsorted.1

theorem running_filter_le {workers : List (Worker κ)}
    (hkeyed : ∀ key i, .running key i ∈ workers → items[i]?.map groupKey = some key) (key : κ) :
    ((workers.filterMap fun
      | .running _ index => some index
      | _ => none).filter fun i => items[i]?.map groupKey = some key).length ≤ workers.countP fun v => v.holds key := by
  induction workers with
  | nil => exact Nat.le_refl 0
  | cons w workers ih =>
    have hrest := ih fun k i hrun => hkeyed k i (List.mem_cons_of_mem _ hrun)
    rw [List.countP_cons]
    cases w with
    | running k i =>
      have hk := hkeyed k i List.mem_cons_self
      by_cases hkey : k = key
      · subst hkey
        simp only [List.filterMap_cons, List.filter_cons, hk, decide_true, if_true, List.length_cons, Worker.holds]
        exact Nat.succ_le_succ hrest
      · have hne : ¬ some k = some key := fun heq => hkey (Option.some.inj heq)
        simp only [List.filterMap_cons, List.filter_cons, hk, hne, decide_false, Bool.false_eq_true, if_false]
        exact hrest.trans (Nat.le_add_right ..)
    | ready | waiting | finishing | done => exact hrest.trans (Nat.le_add_right ..)

theorem Pool.Inv.not_stuck (h : s.Inv items groupKey L) : ¬ s.Stuck := by
  rintro ⟨hwait, hall, key, hpending⟩
  have hzero : s.active key = 0 := by
    rw [h.active key, List.countP_eq_zero]
    intro w hw
    rcases hall w hw with rfl | ⟨failed, rfl⟩ <;> simp [Worker.holds]
  have hfull := h.blocked hwait key hpending
  have hpos := L.perGroup_pos
  omega

/-- No result is missing. -/
theorem mapM_id_of_some {l : List (Option ρ)} (h : ∀ x ∈ l, ∃ r, x = some r) : ∃ rs, l.mapM id = some rs ∧ l = rs.map some := by
  induction l with
  | nil => exact ⟨[], rfl, rfl⟩
  | cons x l ih =>
    obtain ⟨r, rfl⟩ := h x List.mem_cons_self
    obtain ⟨rs, hrs, rfl⟩ := ih fun y hy => h y (List.mem_cons_of_mem _ hy)
    exact ⟨r :: rs, by rw [List.mapM_cons, hrs]; rfl, rfl⟩

/-- Where no worker is left and none has failed, every item has its result. -/
theorem Pool.Inv.results_some (h : s.Inv items groupKey L) (hf : s.failures = [])
    (hdone : ∀ w ∈ s.workers, ∃ failed, w = .done failed) : ∀ x ∈ s.results, ∃ r, x = some r := by
  intro x hx
  obtain ⟨i, hi⟩ := List.mem_iff_getElem?.1 hx
  have hlt : i < items.length := h.length ▸ (List.getElem?_eq_some_iff.1 hi).1
  obtain ⟨key, hkey⟩ : ∃ key, items[i]?.map groupKey = some key := by
    rw [List.getElem?_eq_getElem hlt]
    exact ⟨_, rfl⟩
  have hdrained : s.pending key = [] := by
    have hpos : 0 < s.workers.length := by
      have hconcurrency := L.concurrency_pos
      rw [h.size]
      omega
    obtain ⟨w, hw⟩ := List.exists_mem_of_length_pos hpos
    obtain ⟨failed, rfl⟩ := hdone w hw
    exact h.drained hf failed hw key
  have hstarted : i ∈ s.started := by
    have hin : i ∈ indicesOf items groupKey key := mem_indicesOf.2 hkey
    rw [← h.order key, hdrained, List.append_nil] at hin
    exact (List.mem_filter.1 hin).1
  rcases h.cover hf i hstarted with ⟨r, hres⟩ | ⟨k, hrun⟩
  · rw [hi] at hres
    exact ⟨r, Option.some.inj hres⟩
  · obtain ⟨failed, hfailed⟩ := hdone _ hrun
    cases hfailed

/-- When every worker is done, the results are complete or a failure was recorded. -/
theorem Pool.Inv.outcome_cases (h : s.Inv items groupKey L) {o : Outcome ρ ε} (ho : s.outcome = some o) :
    (∃ results, o = .returned results ∧ results.length = items.length ∧
      ∀ (i : Nat) r, results[i]? = some r → (i, r) ∈ s.returned) ∨
    ∃ f, o = .raised f ∧ s.failures.head? = some f := by
  unfold Pool.outcome at ho
  split at ho
  · cases ho
  · rename_i hleft
    have hdone : ∀ w ∈ s.workers, ∃ failed, w = .done failed := by
      intro w hw
      cases w with
      | done failed => exact ⟨failed, rfl⟩
      | _ => exact absurd (List.any_eq_true.2 ⟨_, hw, rfl⟩) hleft
    cases hf : s.failures with
    | cons f rest =>
      rw [hf] at ho
      exact .inr ⟨f, (Option.some.inj ho).symm, rfl⟩
    | nil =>
      obtain ⟨rs, hrs, hmap⟩ := mapM_id_of_some (h.results_some hf hdone)
      rw [hf, hrs] at ho
      refine .inl ⟨rs, (Option.some.inj ho).symm, ?_, fun i r hr => h.own i r ?_⟩
      · rw [← h.length, hmap, List.length_map]
      · rw [hmap, List.getElem?_map, hr]
        rfl

/-! ### One at a time -/

structure Alone.Inv (items : List α) (s : Alone ρ ε) : Prop where
  started : s.started = List.range (s.results.length + s.running.toNat + s.failures.length)
  idle : s.running = true → s.failures = []
  bound : s.results.length + s.running.toNat + s.failures.length ≤ items.length
  own : ∀ (i : Nat) r, s.results[i]? = some r → (i, r) ∈ s.returned

theorem Alone.Inv.step {s : Alone ρ ε} (h : s.Inv items) (e : Event ρ ε) : (s.step items.length e).Inv items := by
  have hstarted := h.started
  have hbound := h.bound
  cases e with
  | admitted slot =>
    simp only [Alone.step]
    split
    · rename_i hgo
      obtain ⟨hidle, hf, hlt⟩ := hgo
      rw [hidle, hf] at hstarted
      refine ⟨?_, fun _ => hf, ?_, h.own⟩
      · rw [hstarted, hf]
        exact (List.range_succ).symm
      · rw [hf]
        exact hlt
    · exact h
  | finish slot ending =>
    simp only [Alone.step]
    split
    · rename_i hrun
      have hf := h.idle hrun
      rw [hrun, hf] at hstarted hbound
      cases ending with
      | result r =>
        refine ⟨?_, nofun, ?_, fun i r' hr => ?_⟩
        · rw [hstarted, hf, List.length_append]
          rfl
        · rw [hf, List.length_append]
          exact hbound
        · rcases Nat.lt_or_ge i s.results.length with hi | hi
          · rw [List.getElem?_append_left hi] at hr
            exact List.mem_append_left _ (h.own i r' hr)
          · rw [List.getElem?_append_right hi] at hr
            have hzero : i - s.results.length = 0 := by
              have hlt := (List.getElem?_eq_some_iff.1 hr).1
              rw [List.length_singleton] at hlt
              omega
            have hlast : i = s.results.length := by omega
            rw [hzero] at hr
            obtain rfl := Option.some.inj hr
            rw [hlast]
            exact List.mem_append_right _ (List.mem_singleton_self _)
      | failure e => exact ⟨hstarted, nofun, hbound, h.own⟩
      | cancelled => exact ⟨hstarted, nofun, hbound, h.own⟩
    · exact h
  | leave slot => exact h
  | abort => exact h
  | cancel slot => exact h

theorem Alone.inv_start : (Alone.start : Alone ρ ε).Inv items := ⟨rfl, nofun, Nat.zero_le _, nofun⟩

theorem Alone.Inv.laws {s : Alone ρ ε} (h : s.Inv items) : (Run.alone s : Run κ ρ ε).Laws items groupKey L where
  once := by
    show s.started.Nodup
    rw [h.started]
    exact List.nodup_range
  order := fun key => by
    show (s.started.filter _).Pairwise _
    rw [h.started]
    exact List.pairwise_lt_range.filter _
  concurrency := by
    have hone : (Run.alone s : Run κ ρ ε).running.length ≤ 1 := by
      show (if s.running then [s.results.length] else []).length ≤ 1
      split <;> simp
    exact hone.trans L.concurrency_pos
  perGroup := fun key => by
    have hone : (Run.alone s : Run κ ρ ε).running.length ≤ 1 := by
      show (if s.running then [s.results.length] else []).length ≤ 1
      split <;> simp
    exact (List.length_filter_le ..).trans (hone.trans L.perGroup_pos)
  live := id
  outcome := fun o ho => by
    change s.outcome items.length = some o at ho
    unfold Alone.outcome at ho
    cases hf : s.failures with
    | cons f rest =>
      rw [hf] at ho
      refine .inr ⟨f, (Option.some.inj ho).symm, ?_⟩
      show s.failures.head? = some f
      rw [hf]
      rfl
    | nil =>
      rw [hf] at ho
      dsimp only at ho
      split at ho
      · rename_i hlen
        exact .inl ⟨s.results, (Option.some.inj ho).symm, hlen, h.own⟩
      · cases ho

theorem Pool.Inv.laws (h : s.Inv items groupKey L) : (Run.pool s).Laws items groupKey L where
  once := h.started_nodup
  order := h.started_order
  concurrency := by
    have hle : (Run.pool s).running.length ≤ s.workers.length := List.length_filterMap_le ..
    rw [h.size] at hle
    exact hle.trans (Nat.min_le_left ..)
  perGroup := fun key => by
    have hle := running_filter_le h.keyed key
    rw [← h.active key] at hle
    exact hle.trans (h.perGroup key)
  live := h.not_stuck
  outcome := fun _ ho => h.outcome_cases ho

/-! ### What a step keeps -/

theorem Pool.step_failures (s : Pool κ ρ ε) (e : Event ρ ε) : s.failures <+: (s.step L e).failures := by
  cases e with
  | admitted slot =>
    simp only [Pool.step, Pool.admitted]
    split
    · split
      · exact List.prefix_rfl
      · split
        · split <;> exact List.prefix_rfl
        · exact List.prefix_rfl
    · exact List.prefix_rfl
  | finish slot ending =>
    simp only [Pool.step]
    split
    · cases ending with
      | result r => exact List.prefix_rfl
      | failure e => exact List.prefix_append ..
      | cancelled =>
        simp only [Pool.finish]
        split
        · exact List.prefix_rfl
        · exact List.prefix_append ..
    · exact List.prefix_rfl
  | leave slot => simp only [Pool.step]; split <;> exact List.prefix_rfl
  | abort => simp only [Pool.step]; split <;> exact List.prefix_rfl
  | cancel slot =>
    simp only [Pool.step]
    split
    · split <;> exact List.prefix_rfl
    · split <;> exact List.prefix_rfl
    · exact List.prefix_rfl

/-- An operation starts only where no failure is recorded. -/
theorem Pool.step_started (s : Pool κ ρ ε) (e : Event ρ ε) :
    (s.failures ≠ [] → (s.step L e).started = s.started) ∧ s.started <+: (s.step L e).started := by
  have hsame {t : Pool κ ρ ε} (ht : t.started = s.started) :
      (s.failures ≠ [] → t.started = s.started) ∧ s.started <+: t.started := ⟨fun _ => ht, by rw [ht]⟩
  cases e with
  | admitted slot =>
    simp only [Pool.step, Pool.admitted]
    split
    · split
      · exact hsame rfl
      · rename_i hf
        split
        · split
          · exact ⟨fun hne => absurd hne hf, List.prefix_append ..⟩
          · exact hsame rfl
        · exact hsame rfl
    · exact hsame rfl
  | finish slot ending =>
    simp only [Pool.step]
    split
    · cases ending with
      | result r => exact hsame rfl
      | failure e => exact hsame rfl
      | cancelled =>
        simp only [Pool.finish]
        split <;> exact hsame rfl
    · exact hsame rfl
  | leave slot => simp only [Pool.step]; split <;> exact hsame rfl
  | abort => simp only [Pool.step]; split <;> exact hsame rfl
  | cancel slot =>
    simp only [Pool.step]
    split
    · split <;> exact hsame rfl
    · split <;> exact hsame rfl
    · exact hsame rfl

theorem Alone.step_keeps {s : Alone ρ ε} (h : s.Inv items) (e : Event ρ ε) :
    (s.failures ≠ [] → (s.step items.length e).started = s.started) ∧ s.failures <+: (s.step items.length e).failures ∧
      s.started <+: (s.step items.length e).started := by
  cases e with
  | admitted slot =>
    simp only [Alone.step]
    split
    · rename_i hgo
      exact ⟨fun hne => absurd hgo.2.1 hne, List.prefix_rfl, List.prefix_append ..⟩
    · exact ⟨fun _ => rfl, List.prefix_rfl, List.prefix_rfl⟩
  | finish slot ending =>
    simp only [Alone.step]
    split
    · rename_i hrun
      have hf := h.idle hrun
      cases ending with
      | result r => exact ⟨fun _ => rfl, List.prefix_rfl, List.prefix_rfl⟩
      | failure e => exact ⟨fun _ => rfl, by rw [hf]; exact List.nil_prefix, List.prefix_rfl⟩
      | cancelled => exact ⟨fun _ => rfl, by rw [hf]; exact List.nil_prefix, List.prefix_rfl⟩
    · exact ⟨fun _ => rfl, List.prefix_rfl, List.prefix_rfl⟩
  | leave slot => exact ⟨fun _ => rfl, List.prefix_rfl, List.prefix_rfl⟩
  | abort => exact ⟨fun _ => rfl, List.prefix_rfl, List.prefix_rfl⟩
  | cancel slot => exact ⟨fun _ => rfl, List.prefix_rfl, List.prefix_rfl⟩

def Run.Inv (items : List α) (groupKey : α → κ) (L : Limits) : Run κ ρ ε → Prop
  | .alone s => s.Inv items
  | .pool s => s.Inv items groupKey L

theorem Run.Inv.laws {s : Run κ ρ ε} (h : s.Inv items groupKey L) : s.Laws items groupKey L := by
  cases s with
  | alone s => exact Alone.Inv.laws h
  | pool s => exact Pool.Inv.laws h

theorem Run.inv_start : (Run.start items groupKey L : Run κ ρ ε).Inv items groupKey L := by
  unfold Run.start
  split
  · exact Alone.inv_start
  · exact Bounded.inv_start

theorem Run.Inv.step {s : Run κ ρ ε} (h : s.Inv items groupKey L) (e : Event ρ ε) :
    (s.step items L e).Inv items groupKey L ∧ Keeps items groupKey L s (s.step items L e) := by
  cases s with
  | alone s =>
    have hinv : (Run.alone (s.step items.length e) : Run κ ρ ε).Inv items groupKey L := Alone.Inv.step h e
    obtain ⟨hquiet, hfailures, hstarted⟩ := Alone.step_keeps h e
    exact ⟨hinv, hinv.laws, hquiet, hfailures, hstarted⟩
  | pool s =>
    have hinv : (Run.pool (s.step L e)).Inv items groupKey L := Pool.Inv.step h e
    obtain ⟨hquiet, hstarted⟩ := Pool.step_started (L := L) s e
    exact ⟨hinv, hinv.laws, hquiet, Pool.step_failures s e, hstarted⟩

end

/-- Whatever the order in which operations end, and however they end, the laws hold from the start and after every
step. -/
theorem bounded_ordered_map_laws [DecidableEq κ] (items : List α) (groupKey : α → κ) (L : Limits)
    (events : List (Event ρ ε)) :
    (Run.start items groupKey L : Run κ ρ ε).Laws items groupKey L ∧
      Along (Run.step items L) (fun s _ s' => s.Keeps items groupKey L s') (Run.start items groupKey L : Run κ ρ ε) events :=
  ⟨Run.inv_start.laws, (Along.of_step (I := Run.Inv items groupKey L) (fun _ e h => h.step e) Run.inv_start events).1⟩

end CardRag.Bounded
