import CardRag.Cleanup.Runs
import CardRag.Lib.Runs
import CardRag.Retirement.Policy

/-! # The versions of the retirement ledger (`retirement.py`)

A ledger is written as a version named by its digest, and a pointer is moved to it. The loader takes a version
only from a run that succeeded; it falls back to the newest of these where the pointer names another one. The
pruning goes by time and pointer alone, so it forgets the ledger that the loader takes where enough runs that
did not succeed have written theirs since (`prune_keeps_ledger_iff`). -/

namespace CardRag.Cleanup

open Retirement (Ledger)

structure LedgerVersion where
  ledger : Ledger
  mtime : Nat

/-- `audit-reports/retirements`: the versions in the order of the listing, and the pointer. -/
structure LedgerDirectory where
  versions : List (Str × LedgerVersion)
  latest : Option Str

def LedgerDirectory.names (d : LedgerDirectory) : List Str := d.versions.map (·.1)

def ledgerInvalid : Raised := ⟨.retirementError, "retirement_ledger_invalid"⟩

section
variable (statuses : Str → Option RunStatus)

/-- The run of the ledger is over and succeeded. -/
def verified (v : LedgerVersion) : Bool :=
  v.ledger.updatedRunId = [] || statuses v.ledger.updatedRunId = some .succeeded ||
    statuses v.ledger.updatedRunId = some .noChange

def tryLoadVersion (e : Str × LedgerVersion) : Option Ledger :=
  if verified statuses e.2 then some { e.2.ledger with ledgerSha256 := e.1 } else none

/-- `load_retirement_ledger` with the worker state. -/
def loadRetirementLedger (d : LedgerDirectory) : Except Raised (Option Ledger) :=
  if d.versions = [] then .ok none
  else do
    let pointed ← match d.latest with
      | none => pure none
      | some name =>
        match PyList.get? d.versions name with
        | none => throw ledgerInvalid
        | some v => pure (tryLoadVersion statuses (name, v))
    match pointed with
    | some ledger => pure (some ledger)
    | none => pure ((descending (·.2.mtime) d.versions).findSome? (tryLoadVersion statuses))

end

/-- `(-item[0], item[1])` -/
def rank (e : Str × LedgerVersion) : Natᵒᵈ ×ₗ Str := toLex (OrderDual.toDual e.2.mtime, e.1)

/-- The loop over the versions in order. -/
def keepNames (keep : Nat) (kept : List Str) : List (Str × LedgerVersion) → List Str
  | [] => kept
  | e :: entries =>
    if keep ≤ kept.length then kept
    else if e.1 ∈ kept then keepNames keep kept entries
    else keepNames keep (kept ++ [e.1]) entries

def pruneRetirementLedgers (keep : Nat) (d : LedgerDirectory) : Except Raised LedgerDirectory := do
  raiseIf (keep < 1) ⟨.retirementError, "retirement_keep_invalid"⟩
  let kept := keepNames keep d.latest.toList (PyList.sortedBy rank d.versions)
  return { d with versions := d.versions.filter (·.1 ∈ kept) }

/-- What happens to the versions: a write that is stopped after some of its steps, or a pruning. -/
inductive LedgerEvent where
  | write (ledger : Ledger) (mtime steps : Nat)
  | prune (keep : Nat)

/-- `write_retirement_ledger`: the version, the pointer taken away, the new pointer. -/
def writeRetirementLedger (digest : Ledger → Str) (d : LedgerDirectory) (ledger : Ledger) (mtime steps : Nat) :
    LedgerDirectory :=
  let name := digest ledger
  let version : LedgerVersion := ⟨{ ledger with ledgerSha256 := [] }, mtime⟩
  let versions := if name ∈ d.names then d.versions else d.versions ++ [(name, version)]
  match steps with
  | 0 => d
  | 1 => { d with versions }
  | 2 => ⟨versions, none⟩
  | _ => ⟨versions, some name⟩

def ledgerStep (digest : Ledger → Str) (d : LedgerDirectory) : LedgerEvent → LedgerDirectory
  | .write ledger mtime steps => writeRetirementLedger digest d ledger mtime steps
  | .prune keep =>
    match pruneRetirementLedgers keep d with
    | .ok d' => d'
    | .error _ => d

/-- The pointed version is of a run that succeeded, or few enough other versions rank before the newest one
that is. -/
def Remembered (statuses : Str → Option RunStatus) (keep : Nat) (d : LedgerDirectory) : Prop :=
  (∃ name ∈ d.latest, ∃ v ∈ PyList.get? d.versions name, verified statuses v = true) ∨
    ∀ e, (descending (·.2.mtime) d.versions).find? (verified statuses ·.2) = some e →
      (d.versions.filter fun m => m.1 ∉ d.latest.toList ∧ rank m < rank e).length + d.latest.toList.length < keep

/-! ### The order of the versions -/

section
variable {α κ : Type} [LinearOrder κ]

theorem filter_orderedInsert {r : α → α → Prop} [DecidableRel r] [IsTrans α r] (p : α → Bool) (a : α) {l : List α}
    (h : l.Pairwise r) :
    (l.orderedInsert r a).filter p = if p a then (l.filter p).orderedInsert r a else l.filter p := by
  induction l with
  | nil => by_cases ha : p a <;> simp [ha]
  | cons b l ih =>
    obtain ⟨hb, hl⟩ := List.pairwise_cons.1 h
    by_cases hab : r a b
    · rw [List.orderedInsert_cons, if_pos hab]
      by_cases ha : p a
      · rw [List.filter_cons_of_pos ha, if_pos ha]
        cases hf : (b :: l).filter p with
        | nil => rfl
        | cons c rest =>
          have hc : c ∈ (b :: l).filter p := hf ▸ List.mem_cons_self
          have hac : r a c := by
            rcases List.mem_cons.1 (List.mem_filter.1 hc).1 with rfl | hc
            · exact hab
            · exact IsTrans.trans _ _ _ hab (hb c hc)
          rw [List.orderedInsert_cons, if_pos hac]
      · rw [List.filter_cons_of_neg ha, if_neg ha]
    · rw [List.orderedInsert_cons, if_neg hab]
      by_cases hpb : p b
      · rw [List.filter_cons_of_pos hpb, List.filter_cons_of_pos hpb, ih hl]
        split
        · rw [List.orderedInsert_cons, if_neg hab]
        · rfl
      · rw [List.filter_cons_of_neg hpb, List.filter_cons_of_neg hpb, ih hl]

/-- A stable sort of what is left is what is left of the sort. -/
theorem sortedBy_filter (key : α → κ) (p : α → Bool) (xs : List α) :
    PyList.sortedBy key (xs.filter p) = (PyList.sortedBy key xs).filter p := by
  have : IsTrans α (fun a b : α => key a ≤ key b) := ⟨fun _ _ _ => le_trans⟩
  induction xs with
  | nil => rfl
  | cons a xs ih =>
    have hsorted := PyList.sortedBy_pairwise key xs
    have hcons : PyList.sortedBy key (a :: xs) =
      (PyList.sortedBy key xs).orderedInsert (fun a b => key a ≤ key b) a := rfl
    rw [hcons, filter_orderedInsert p a hsorted, ← ih]
    by_cases ha : p a
    · rw [List.filter_cons_of_pos ha, if_pos ha]
      rfl
    · rw [List.filter_cons_of_neg ha, if_neg ha]

end

section
variable {statuses : Str → Option RunStatus} {keep : Nat} {d : LedgerDirectory} {e x : Str × LedgerVersion}
  {kept : List Str} {entries : List (Str × LedgerVersion)}

theorem subset_keepNames {name : Str} (h : name ∈ kept) : name ∈ keepNames keep kept entries := by
  induction entries generalizing kept with
  | nil => exact h
  | cons e entries ih =>
    unfold keepNames
    split
    · exact h
    · split
      · exact ih h
      · exact ih (List.mem_append_left _ h)

/-- A version is kept when few enough versions that are not kept already come before it. -/
theorem mem_keepNames (hsorted : entries.Pairwise fun a b => rank a < rank b) (hnodup : (entries.map (·.1)).Nodup)
    (hx : x ∈ entries) : x.1 ∈ keepNames keep kept entries ↔
      x.1 ∈ kept ∨ (entries.filter fun m => m.1 ∉ kept ∧ rank m < rank x).length + kept.length < keep := by
  induction entries generalizing kept with
  | nil => cases hx
  | cons e entries ih =>
    obtain ⟨hfirst, hrest⟩ := List.pairwise_cons.1 hsorted
    rw [List.map_cons, List.nodup_cons] at hnodup
    unfold keepNames
    split
    · rename_i hfull
      refine ⟨.inl, fun h => h.resolve_right (by omega)⟩
    · rename_i hroom
      rcases List.mem_cons.1 hx with rfl | hx
      · -- nothing comes before the first
        have hnone : ((x :: entries).filter fun m => m.1 ∉ kept ∧ rank m < rank x) = [] := by
          refine List.filter_eq_nil_iff.2 fun m hm => ?_
          rcases List.mem_cons.1 hm with rfl | hm
          · simp
          · have := (hfirst m hm).le
            simp [not_lt.2 this]
        rw [hnone, List.length_nil, Nat.zero_add]
        split
        · rename_i hk
          exact ⟨fun _ => .inl hk, fun _ => subset_keepNames hk⟩
        · exact ⟨fun _ => .inr (by omega), fun _ => subset_keepNames (by simp)⟩
      · have hlt := hfirst x hx
        have hne : x.1 ≠ e.1 := fun heq => hnodup.1 (heq ▸ List.mem_map_of_mem hx)
        split
        · rename_i hk
          rw [ih hrest hnodup.2 hx, List.filter_cons_of_neg (by simp [hk])]
        · rename_i hk
          rw [ih hrest hnodup.2 hx, List.filter_cons_of_pos (by simp [hk, hlt])]
          have hfilter : (entries.filter fun m => m.1 ∉ kept ++ [e.1] ∧ rank m < rank x) =
              entries.filter fun m => m.1 ∉ kept ∧ rank m < rank x := by
            refine List.filter_congr fun m hm => ?_
            have hme : m.1 ≠ e.1 := fun heq => hnodup.1 (heq ▸ List.mem_map_of_mem hm)
            simp [hme]
          rw [hfilter, List.length_append, List.length_singleton, List.length_cons, List.mem_append,
            List.mem_singleton]
          constructor
          · rintro ((h | h) | h)
            · exact .inl h
            · exact absurd h hne
            · exact .inr (by omega)
          · rintro (h | h)
            · exact .inl (.inl h)
            · exact .inr (by omega)

/-- The names differ, and the pointer names one of them. -/
structure LedgerDirectory.Sound (d : LedgerDirectory) : Prop where
  nodup : d.names.Nodup
  latest : ∀ name ∈ d.latest, name ∈ d.names

theorem sound_write (digest : Ledger → Str) (h : d.Sound) (ledger : Ledger) (mtime steps : Nat) :
    (writeRetirementLedger digest d ledger mtime steps).Sound := by
  have hversions : ((if digest ledger ∈ d.names then d.versions else
      d.versions ++ [(digest ledger, ⟨{ ledger with ledgerSha256 := [] }, mtime⟩)]).map (·.1)).Nodup := by
    split
    · exact h.nodup
    · rename_i hnew
      rw [List.map_append, List.map_singleton, List.nodup_append]
      refine ⟨h.nodup, List.nodup_singleton _, fun a ha b hb => ?_⟩
      rw [List.mem_singleton.1 hb]
      rintro rfl
      exact hnew ha
  have hold : ∀ name ∈ d.names, name ∈ ((if digest ledger ∈ d.names then d.versions else
      d.versions ++ [(digest ledger, ⟨{ ledger with ledgerSha256 := [] }, mtime⟩)]).map (·.1)) := by
    intro name hname
    split
    · exact hname
    · exact List.map_append ▸ List.mem_append_left _ hname
  have hnew : digest ledger ∈ ((if digest ledger ∈ d.names then d.versions else
      d.versions ++ [(digest ledger, ⟨{ ledger with ledgerSha256 := [] }, mtime⟩)]).map (·.1)) := by
    split
    · assumption
    · simp
  unfold writeRetirementLedger
  rcases steps with _ | _ | _ | steps
  · exact h
  · exact ⟨hversions, fun name hname => hold name (h.latest name hname)⟩
  · exact ⟨hversions, fun name hname => by cases hname⟩
  · exact ⟨hversions, fun name hname => (Option.some.inj hname) ▸ hnew⟩

theorem prune_eq_ok (hk : 1 ≤ keep) : pruneRetirementLedgers keep d = .ok { d with
    versions := d.versions.filter (·.1 ∈ keepNames keep d.latest.toList (PyList.sortedBy rank d.versions)) } := by
  simp only [pruneRetirementLedgers, raiseIf, if_neg (by omega : ¬ keep < 1)]
  rfl

theorem sound_prune (h : d.Sound) {d' : LedgerDirectory} (hp : pruneRetirementLedgers keep d = .ok d') : d'.Sound := by
  simp only [pruneRetirementLedgers, Guard.bind_eq_ok, raiseIf_eq_ok, Guard.exists_unit, Guard.pure_eq_ok] at hp
  obtain ⟨-, rfl⟩ := hp
  refine ⟨h.nodup.sublist (List.filter_sublist.map _), fun name hname => ?_⟩
  obtain ⟨e, he, rfl⟩ := List.mem_map.1 (h.latest name hname)
  refine List.mem_map_of_mem (List.mem_filter.2 ⟨he, decide_eq_true (subset_keepNames ?_)⟩)
  exact Option.mem_toList.2 hname

theorem sound_run (digest : Ledger → Str) (events : List LedgerEvent) :
    (runFrom (ledgerStep digest) ⟨[], none⟩ events).Sound := by
  have hempty : LedgerDirectory.Sound ⟨[], none⟩ := ⟨List.nodup_nil, nofun⟩
  refine (Along.of_step (I := LedgerDirectory.Sound) (P := fun _ _ _ => True) (fun d event h => ⟨?_, trivial⟩)
    hempty events).2
  cases event with
  | write ledger mtime steps => exact sound_write digest h ledger mtime steps
  | prune keep =>
    unfold ledgerStep
    dsimp only
    split
    · rename_i d' hp
      exact sound_prune h hp
    · exact h

/-! ### What the loader takes -/

section
variable (statuses : Str → Option RunStatus) (d : LedgerDirectory)

/-- The pointed version, if it is verified. -/
def pointed : Option Ledger :=
  d.latest.bind fun name => (PyList.get? d.versions name).bind fun v => tryLoadVersion statuses (name, v)

/-- The newest verified version. -/
def newestVerified : Option (Str × LedgerVersion) := (descending (·.2.mtime) d.versions).find? (verified statuses ·.2)

end

theorem findSome?_tryLoad (xs : List (Str × LedgerVersion)) : xs.findSome? (tryLoadVersion statuses) =
    (xs.find? (verified statuses ·.2)).map fun e => { e.2.ledger with ledgerSha256 := e.1 } := by
  induction xs with
  | nil => rfl
  | cons e xs ih =>
    rw [List.findSome?_cons, List.find?_cons, tryLoadVersion]
    by_cases hv : verified statuses e.2
    · simp only [hv, if_true, Option.map_some]
    · simp only [hv, if_false, Bool.false_eq_true, ih]

theorem load_eq (h : d.Sound) : loadRetirementLedger statuses d =
    .ok ((pointed statuses d).or ((newestVerified statuses d).map fun e => { e.2.ledger with ledgerSha256 := e.1 })) := by
  rw [newestVerified, ← findSome?_tryLoad]
  unfold loadRetirementLedger pointed
  split
  · rename_i hnil
    have hlatest : d.latest = none := by
      refine Option.eq_none_iff_forall_not_mem.2 fun name hname => ?_
      have := h.latest name hname
      rw [LedgerDirectory.names, hnil] at this
      cases this
    rw [hlatest, hnil]
    rfl
  · cases hlatest : d.latest with
    | none => rfl
    | some name =>
      obtain ⟨e, he, hname⟩ := List.mem_map.1 (h.latest name hlatest)
      have hget : PyList.get? d.versions name = some e.2 := by
        rw [← hname]
        exact (PyList.mem_iff_get? h.nodup).1 he
      simp only [hget, Option.bind_some, pure, Except.pure, bind, Except.bind]
      cases tryLoadVersion statuses (name, e.2) with
      | none => rfl
      | some ledger => rfl

theorem rank_pairwise (h : d.Sound) : (PyList.sortedBy rank d.versions).Pairwise fun a b => rank a < rank b := by
  have hnodup : ((PyList.sortedBy rank d.versions).map (·.1)).Nodup :=
    ((PyList.sortedBy_perm rank d.versions).map _).nodup_iff.2 h.nodup
  refine ((PyList.sortedBy_pairwise rank d.versions).and (List.pairwise_map.1 hnodup)).imp fun {a b} hab => ?_
  refine lt_of_le_of_ne hab.1 fun heq => hab.2 ?_
  exact (Prod.mk.inj (toLex.injective heq)).2

theorem mem_kept_iff (keep : Nat) (h : d.Sound) (hx : x ∈ d.versions) :
    x.1 ∈ keepNames keep d.latest.toList (PyList.sortedBy rank d.versions) ↔ x.1 ∈ d.latest.toList ∨
      (d.versions.filter fun m => m.1 ∉ d.latest.toList ∧ rank m < rank x).length + d.latest.toList.length < keep := by
  have hnodup : ((PyList.sortedBy rank d.versions).map (·.1)).Nodup :=
    ((PyList.sortedBy_perm rank d.versions).map _).nodup_iff.2 h.nodup
  rw [mem_keepNames (rank_pairwise h) hnodup (PyList.mem_sortedBy.2 hx),
    ((PyList.sortedBy_perm rank d.versions).filter _).length_eq]

/-- The newest verified version of what is left, where it is left. -/
theorem newestVerified_filter {q : Str → Bool} (he : newestVerified statuses d = some e) (hq : q e.1 = true) :
    newestVerified statuses { d with versions := d.versions.filter (q ·.1) } = some e := by
  unfold newestVerified descending at he ⊢
  dsimp only
  rw [sortedBy_filter, List.find?_filter]
  rw [List.find?_eq_some_iff_append] at he ⊢
  obtain ⟨hv, as, bs, hsplit, has⟩ := he
  refine ⟨by simp [hq, hv], as, bs, hsplit, fun a ha => ?_⟩
  have hnot : verified statuses a.2 = false := by simpa using has a ha
  simp [hnot]

theorem mem_newestVerified (he : newestVerified statuses d = some e) : e ∈ d.versions ∧ verified statuses e.2 = true :=
  ⟨PyList.mem_sortedBy.1 (List.mem_of_find?_eq_some he), by simpa using List.find?_some he⟩

/-- The pointed version stays. -/
theorem pointed_filter {q : Str → Bool} (hq : ∀ name ∈ d.latest, q name = true) :
    pointed statuses { d with versions := d.versions.filter (q ·.1) } = pointed statuses d := by
  unfold pointed
  dsimp only
  cases hl : d.latest with
  | none => rfl
  | some name =>
    have hget := PyList.get?_filter q d.versions name
    rw [if_pos (hq name hl)] at hget
    rw [Option.bind_some, Option.bind_some, hget]

/-- A pointed version that the loader takes has its name. -/
theorem pointed_eq_some {ledger : Ledger} (h : pointed statuses d = some ledger) : ∃ name ∈ d.latest,
    ∃ v ∈ PyList.get? d.versions name, verified statuses v = true ∧ ledger.ledgerSha256 = name := by
  obtain ⟨name, hname, hrest⟩ := Option.bind_eq_some_iff.1 h
  obtain ⟨v, hv, hload⟩ := Option.bind_eq_some_iff.1 hrest
  unfold tryLoadVersion at hload
  split at hload
  · rename_i hver
    exact ⟨name, hname, v, hv, hver, by rw [← Option.some.inj hload]⟩
  · cases hload

/-- After a pruning the loader takes the ledger it took before exactly when that one is remembered. -/
theorem prune_keeps_ledger_iff (digest : Ledger → Str) (events : List LedgerEvent)
    (statuses : Str → Option RunStatus) (keep : Nat) (hk : 3 ≤ keep) :
    ∃ d', pruneRetirementLedgers keep (runFrom (ledgerStep digest) ⟨[], none⟩ events) = .ok d' ∧
      (loadRetirementLedger statuses d' =
          loadRetirementLedger statuses (runFrom (ledgerStep digest) ⟨[], none⟩ events) ↔
        Remembered statuses keep (runFrom (ledgerStep digest) ⟨[], none⟩ events)) ∧
      ((∀ ledger, loadRetirementLedger statuses (runFrom (ledgerStep digest) ⟨[], none⟩ events) = .ok (some ledger) →
          ledger.ledgerSha256 ∈ d'.names) ↔
        Remembered statuses keep (runFrom (ledgerStep digest) ⟨[], none⟩ events)) := by
  have h := sound_run digest events
  generalize runFrom (ledgerStep digest) ⟨[], none⟩ events = d at h ⊢
  have hp := prune_eq_ok (d := d) (by omega : 1 ≤ keep)
  refine ⟨_, hp, ?_⟩
  have h' := sound_prune h hp
  have hkept : ∀ x ∈ d.versions, x.1 ∈ keepNames keep d.latest.toList (PyList.sortedBy rank d.versions) ↔
      x.1 ∈ d.latest.toList ∨ (d.versions.filter fun m => m.1 ∉ d.latest.toList ∧ rank m < rank x).length +
        d.latest.toList.length < keep := fun x hx => mem_kept_iff keep h hx
  have hlatest : ∀ name ∈ d.latest.toList, name ∈ keepNames keep d.latest.toList (PyList.sortedBy rank d.versions) :=
    fun name hname => subset_keepNames hname
  generalize keepNames keep d.latest.toList (PyList.sortedBy rank d.versions) = kept at h' hkept hlatest ⊢
  rw [load_eq h, load_eq h']
  have hpointed : pointed statuses { d with versions := d.versions.filter (·.1 ∈ kept) } = pointed statuses d :=
    pointed_filter (q := fun k => decide (k ∈ kept)) fun name hname =>
      decide_eq_true (hlatest name (Option.mem_toList.2 hname))
  rw [hpointed]
  cases hpt : pointed statuses d with
  | some ledger =>
    -- the pointed version is verified and stays
    obtain ⟨name, hname, v, hv, hver, hsha⟩ := pointed_eq_some hpt
    have hrem : Remembered statuses keep d := .inl ⟨name, hname, v, hv, hver⟩
    refine ⟨⟨fun _ => hrem, fun _ => rfl⟩, ⟨fun _ => hrem, fun _ loaded hloaded => ?_⟩⟩
    obtain rfl : ledger = loaded := Option.some.inj (Except.ok.inj hloaded)
    rw [hsha]
    exact List.mem_map.2 ⟨(name, v), List.mem_filter.2 ⟨PyList.mem_of_get? hv,
      decide_eq_true (hlatest name (Option.mem_toList.2 hname))⟩, rfl⟩
  | none =>
    have hunverified : ¬ ∃ name ∈ d.latest, ∃ v ∈ PyList.get? d.versions name, verified statuses v = true := by
      rintro ⟨name, hname, v, hv, hver⟩
      have hname : d.latest = some name := hname
      have hv : PyList.get? d.versions name = some v := hv
      rw [pointed, hname, Option.bind_some, hv, Option.bind_some, tryLoadVersion, if_pos hver] at hpt
      cases hpt
    cases hnew : newestVerified statuses d with
    | none =>
      have hrem : Remembered statuses keep d := .inr fun e he => by
        rw [newestVerified] at hnew
        rw [hnew] at he
        cases he
      have hnone : newestVerified statuses { d with versions := d.versions.filter (·.1 ∈ kept) } = none := by
        refine List.find?_eq_none.2 fun e he => ?_
        have hmem := (List.mem_filter.1 (PyList.mem_sortedBy.1 he)).1
        exact List.find?_eq_none.1 hnew e (PyList.mem_sortedBy.2 hmem)
      rw [hnone]
      refine ⟨⟨fun _ => hrem, fun _ => rfl⟩, ⟨fun _ => hrem, fun _ loaded hloaded => ?_⟩⟩
      cases hloaded
    | some e =>
      obtain ⟨hmem, hver⟩ := mem_newestVerified hnew
      have hnotlatest : e.1 ∉ d.latest.toList := by
        intro hin
        exact hunverified ⟨e.1, Option.mem_toList.1 hin, e.2, (PyList.mem_iff_get? h.nodup).1 hmem, hver⟩
      have hrem : Remembered statuses keep d ↔ e.1 ∈ kept := by
        rw [hkept e hmem]
        constructor
        · rintro (hpt' | hall)
          · exact absurd hpt' hunverified
          · exact .inr (hall e hnew)
        · rintro (hin | hlt)
          · exact absurd hin hnotlatest
          · refine .inr fun e' he' => ?_
            obtain rfl : e = e' := Option.some.inj (hnew.symm.trans he')
            exact hlt
      rw [hrem]
      constructor
      · constructor
        · intro hsame
          have hsame := Except.ok.inj hsame
          simp only [Option.none_or, Option.map_some] at hsame
          obtain ⟨e', he', heq⟩ := Option.map_eq_some_iff.1 hsame
          have hin := (List.mem_filter.1 (mem_newestVerified he').1).2
          have hname : e'.1 = e.1 := congrArg Ledger.ledgerSha256 heq
          rw [← hname]
          exact of_decide_eq_true hin
        · intro hin
          rw [newestVerified_filter (q := fun k => decide (k ∈ kept)) hnew (decide_eq_true hin)]
      · constructor
        · intro hall
          obtain ⟨x, hx, hname⟩ := List.mem_map.1 (hall _ rfl)
          have hname : x.1 = e.1 := hname
          rw [← hname]
          exact of_decide_eq_true (List.mem_filter.1 hx).2
        · intro hin loaded hloaded
          obtain rfl := Option.some.inj (Except.ok.inj hloaded)
          exact List.mem_map.2 ⟨e, List.mem_filter.2 ⟨hmem, decide_eq_true hin⟩, rfl⟩

end

/-! Four runs write their ledgers, and only the first succeeded. The run id stands for the digest. -/

def ledgerOf (runId : String) : Ledger := ⟨runId.toList, [], []⟩

def fourWrites : List LedgerEvent :=
  [.write (ledgerOf "1") 1 3, .write (ledgerOf "2") 2 3, .write (ledgerOf "3") 3 3, .write (ledgerOf "4") 4 3]

def firstSucceeded (runId : Str) : Option RunStatus := if runId = "1".toList then some .succeeded else some .failed

/-- The ledger of the first run is pruned. -/
theorem prune_forgets_ledger :
    ∃ d', pruneRetirementLedgers 3 (runFrom (ledgerStep (·.updatedRunId)) ⟨[], none⟩ fourWrites) = .ok d' ∧
      loadRetirementLedger firstSucceeded (runFrom (ledgerStep (·.updatedRunId)) ⟨[], none⟩ fourWrites) =
        .ok (some ⟨"1".toList, [], "1".toList⟩) ∧
      loadRetirementLedger firstSucceeded d' = .ok none :=
  ⟨_, rfl, rfl, rfl⟩

/-- With room for four it stays. -/
theorem prune_keeps_ledger_four :
    ∃ d', pruneRetirementLedgers 4 (runFrom (ledgerStep (·.updatedRunId)) ⟨[], none⟩ fourWrites) = .ok d' ∧
      (loadRetirementLedger firstSucceeded d' =
          loadRetirementLedger firstSucceeded (runFrom (ledgerStep (·.updatedRunId)) ⟨[], none⟩ fourWrites) ↔
        Remembered firstSucceeded 4 (runFrom (ledgerStep (·.updatedRunId)) ⟨[], none⟩ fourWrites)) ∧
      ((∀ ledger, loadRetirementLedger firstSucceeded
          (runFrom (ledgerStep (·.updatedRunId)) ⟨[], none⟩ fourWrites) = .ok (some ledger) →
          ledger.ledgerSha256 ∈ d'.names) ↔
        Remembered firstSucceeded 4 (runFrom (ledgerStep (·.updatedRunId)) ⟨[], none⟩ fourWrites)) :=
  prune_keeps_ledger_iff (·.updatedRunId) fourWrites firstSucceeded 4 (by decide)

end CardRag.Cleanup
