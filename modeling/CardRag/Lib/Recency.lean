import CardRag.Lib.PyList

/-! # Ordered dictionaries that evict

The entries of an `OrderedDict`, the least recently used one first. A use moves its key to the end, and
eviction pops from the front while a limit on the number of entries or on a counter of their sizes is
exceeded. The keys are those of the latest uses (`suffix_use`, `suffix_evict`). -/

namespace CardRag.Recency

variable {κ α : Type}

/-- The sum of the sizes. -/
def total (size : κ × α → Nat) (d : List (κ × α)) : Nat := (d.map size).sum

@[simp] theorem total_nil (size : κ × α → Nat) : total size [] = 0 := rfl

@[simp] theorem total_cons (size : κ × α → Nat) (e : κ × α) (d : List (κ × α)) :
    total size (e :: d) = size e + total size d := by simp [total]

@[simp] theorem total_append (size : κ × α → Nat) (d d' : List (κ × α)) :
    total size (d ++ d') = total size d + total size d' := by simp [total]

/-! ### Uses -/

section
variable [DecidableEq κ]

/-- `d.pop(k, None)`. -/
def erase (k : κ) (d : List (κ × α)) : List (κ × α) := d.filter (·.1 ≠ k)

/-- `d.pop(k, None)`, then `d[k] = v`. -/
def replace (k : κ) (v : α) (d : List (κ × α)) : List (κ × α) := erase k d ++ [(k, v)]

/-- `d.move_to_end(k)` for a key that is there. -/
def moveToEnd (k : κ) (d : List (κ × α)) : List (κ × α) := erase k d ++ d.filter (·.1 = k)

variable {size : κ × α → Nat} {k k' : κ} {v : α} {d : List (κ × α)}

theorem get?_erase : PyList.get? (erase k d) k' = if k' = k then none else PyList.get? d k' := by
  rw [erase, PyList.get?_filter (fun k' => decide (k' ≠ k))]
  by_cases h : k' = k <;> simp [h]

theorem get?_append {d' : List (κ × α)} : PyList.get? (d ++ d') k = (PyList.get? d k).or (PyList.get? d' k) := by
  unfold PyList.get?
  rw [List.find?_append]
  cases d.find? fun e => e.1 = k <;> rfl

theorem get?_replace : PyList.get? (replace k v d) k' = if k' = k then some v else PyList.get? d k' := by
  rw [replace, get?_append, get?_erase]
  split
  · rename_i h
    simp [PyList.get?, h]
  · rename_i h
    have hne : ¬ k = k' := fun hk => h hk.symm
    simp [PyList.get?, hne]

theorem get?_isSome_iff : (PyList.get? d k).isSome ↔ k ∈ d.map (·.1) := by
  rw [PyList.get?, Option.isSome_map, List.find?_isSome]
  simp

/-- What is left behind a part that is cut off is found as before. -/
theorem get?_of_suffix {d' : List (κ × α)} (hnd : ((d ++ d').map (·.1)).Nodup) (h : PyList.get? d' k = some v) :
    PyList.get? (d ++ d') k = some v := by
  rw [List.map_append] at hnd
  have hmem : k ∈ d'.map (·.1) := get?_isSome_iff.1 (by rw [h]; rfl)
  have hout : ¬ (PyList.get? d k).isSome := fun hin => List.disjoint_of_nodup_append hnd (get?_isSome_iff.1 hin) hmem
  rw [get?_append, Option.not_isSome_iff_eq_none.1 hout, h]
  rfl

/-- The entry of a key is the only one. -/
theorem filter_eq_of_get? (hnd : (d.map (·.1)).Nodup) (hv : PyList.get? d k = some v) : d.filter (·.1 = k) = [(k, v)] := by
  induction d with
  | nil => cases hv
  | cons e d ih =>
    rw [List.map_cons, List.nodup_cons] at hnd
    by_cases he : e.1 = k
    · have hrest : d.filter (·.1 = k) = [] := by
        refine List.filter_eq_nil_iff.2 fun e' he' => ?_
        simp only [decide_eq_true_eq]
        intro hk
        exact hnd.1 (List.mem_map.2 ⟨e', he', hk.trans he.symm⟩)
      have hval : e.2 = v := by simpa [PyList.get?, he] using hv
      rw [List.filter_cons_of_pos (by simpa using he), hrest, ← he, ← hval]
    · rw [List.filter_cons_of_neg (by simpa using he)]
      exact ih hnd.2 (by simpa [PyList.get?, he] using hv)

theorem moveToEnd_eq (hnd : (d.map (·.1)).Nodup) (hv : PyList.get? d k = some v) : moveToEnd k d = replace k v d := by
  rw [moveToEnd, filter_eq_of_get? hnd hv, replace]

theorem total_erase (hnd : (d.map (·.1)).Nodup) :
    total size (erase k d) + ((PyList.get? d k).map fun v => size (k, v)).getD 0 = total size d := by
  induction d with
  | nil => rfl
  | cons e d ih =>
    rw [List.map_cons, List.nodup_cons] at hnd
    by_cases he : e.1 = k
    · have hrest : erase k d = d := by
        refine List.filter_eq_self.2 fun e' he' => ?_
        simp only [ne_eq, decide_not, Bool.not_eq_true', decide_eq_false_iff_not]
        intro hk
        exact hnd.1 (List.mem_map.2 ⟨e', he', hk.trans he.symm⟩)
      have herase : erase k (e :: d) = d := by
        rw [erase, List.filter_cons_of_neg (by simpa using he)]
        exact hrest
      have hget : PyList.get? (e :: d) k = some e.2 := by simp [PyList.get?, he]
      rw [herase, hget, total_cons, Option.map_some, Option.getD_some, ← he, Nat.add_comm]
    · have herase : erase k (e :: d) = e :: erase k d := List.filter_cons_of_pos (by simpa using he)
      have hget : PyList.get? (e :: d) k = PyList.get? d k := by simp [PyList.get?, he]
      rw [herase, hget, total_cons, total_cons, Nat.add_assoc, ih hnd.2]

theorem moveToEnd_perm : (moveToEnd k d).Perm d := by
  have hsplit : erase k d = d.filter fun e => !decide (e.1 = k) := List.filter_congr fun e _ => by simp
  rw [moveToEnd, hsplit]
  exact List.perm_append_comm.trans (List.filter_append_perm _ d)

theorem total_moveToEnd : total size (moveToEnd k d) = total size d :=
  (moveToEnd_perm.map size).sum_eq

theorem nodup_erase (hnd : (d.map (·.1)).Nodup) : ((erase k d).map (·.1)).Nodup :=
  hnd.sublist (List.filter_sublist.map _)

theorem keys_erase : (erase k d).map (·.1) = (d.map (·.1)).filter (· ≠ k) := by
  rw [erase, List.filter_map]
  rfl

theorem nodup_replace (hnd : (d.map (·.1)).Nodup) : ((replace k v d).map (·.1)).Nodup := by
  rw [replace, List.map_append, List.nodup_append]
  refine ⟨nodup_erase hnd, List.nodup_singleton _, ?_⟩
  intro a ha b hb hab
  rw [keys_erase, List.mem_filter] at ha
  obtain rfl := List.mem_singleton.1 hb
  simp [hab] at ha

/-- The keys in the order of their last uses, the latest last. -/
def recent (uses : List κ) : List κ := uses.dedup

theorem recent_snoc (uses : List κ) (k : κ) : recent (uses ++ [k]) = (recent uses).filter (· ≠ k) ++ [k] := by
  unfold recent
  induction uses with
  | nil => rfl
  | cons x xs ih =>
    rw [List.cons_append]
    by_cases hx : x ∈ xs
    · rw [List.dedup_cons_of_mem hx, List.dedup_cons_of_mem (List.mem_append_left _ hx), ih]
    · by_cases hk : x = k
      · subst hk
        rw [List.dedup_cons_of_mem (by simp), List.dedup_cons_of_notMem hx, ih, List.filter_cons_of_neg (by simp)]
      · rw [List.dedup_cons_of_notMem (by simp [hx, hk]), List.dedup_cons_of_notMem hx, ih,
          List.filter_cons_of_pos (by simpa using hk), List.cons_append]

/-- A use keeps the latest keys. -/
theorem suffix_use {uses : List κ} (h : d.map (·.1) <:+ recent uses) : (replace k v d).map (·.1) <:+ recent (uses ++ [k]) := by
  obtain ⟨old, hold⟩ := h
  refine ⟨old.filter (· ≠ k), ?_⟩
  rw [recent_snoc, replace, List.map_append, keys_erase, ← hold, List.filter_append, List.append_assoc]
  rfl

end

/-! ### Eviction -/

/-- `while full(len(d), counter): …`: the entries and the counter that are left, with the popped entries; `none`
where it pops from an empty dictionary. -/
def evict (full : Nat → Int → Bool) (size : κ × α → Nat) :
    List (κ × α) → Int → Option (List (κ × α) × Int × List (κ × α))
  | [], n => if full 0 n then none else some ([], n, [])
  | e :: d, n =>
    if full (d.length + 1) n then (evict full size d (n - size e)).map fun r => (r.1, r.2.1, e :: r.2.2)
    else some (e :: d, n, [])

variable {full : Nat → Int → Bool} {size : κ × α → Nat} {d : List (κ × α)}

/-- Where the counter is the sum of the sizes, the oldest entries are popped, and no more than the limits ask for. -/
theorem evict_spec (hempty : full 0 0 = false) : ∃ popped kept, d = popped ++ kept ∧
    evict full size d (total size d) = some (kept, (total size kept : Int), popped) ∧
    full kept.length (total size kept) = false ∧
    ∀ front e back, popped = front ++ e :: back →
      full ((e :: back).length + kept.length) (total size (e :: back) + total size kept : Nat) = true := by
  induction d with
  | nil => exact ⟨[], [], rfl, by simp [evict, hempty], by simpa using hempty, by simp⟩
  | cons e d ih =>
    by_cases hfull : full (d.length + 1) (total size (e :: d)) = true
    · obtain ⟨popped, kept, hd, hevict, hdone, hneed⟩ := ih
      refine ⟨e :: popped, kept, by rw [hd, List.cons_append], ?_, hdone, ?_⟩
      · have hcount : ((total size (e :: d) : Nat) : Int) - size e = (total size d : Nat) := by
          rw [total_cons]
          omega
        rw [evict, if_pos hfull, hcount, hevict]
        rfl
      · intro front e' back h
        cases front with
        | nil =>
          obtain ⟨rfl, rfl⟩ := List.cons.inj h
          rw [← total_append, List.cons_append, ← hd, List.length_cons]
          have hlen : popped.length + 1 + kept.length = d.length + 1 := by
            rw [hd, List.length_append]
            omega
          rw [hlen]
          exact hfull
        | cons x front => exact hneed front e' back (List.cons.inj h).2
    · exact ⟨[], e :: d, rfl, by rw [evict, if_neg hfull], by simpa using hfull, by simp⟩

theorem suffix_evict {uses : List κ} [DecidableEq κ] (popped : List (κ × α)) {kept : List (κ × α)}
    (h : (popped ++ kept).map (·.1) <:+ recent uses) :
    kept.map (·.1) <:+ recent uses := by
  rw [List.map_append] at h
  exact (List.suffix_append _ _).trans h

end CardRag.Recency
