import Mathlib

/-! # Python collections

`sorted` with a key, `sorted(set(…))`, and dictionaries in insertion order. A dictionary is the list
of its entries; assigning to a present key keeps the key's place and replaces the value. -/

namespace CardRag

namespace PyList

variable {α κ : Type}

section
variable [LinearOrder κ]

/-- `sorted(xs, key=key)`: stable. -/
def sortedBy (key : α → κ) (xs : List α) : List α := xs.insertionSort (fun a b => key a ≤ key b)

theorem sortedBy_perm (key : α → κ) (xs : List α) : (sortedBy key xs).Perm xs :=
  List.perm_insertionSort _ xs

@[simp] theorem mem_sortedBy {key : α → κ} {xs : List α} {x : α} : x ∈ sortedBy key xs ↔ x ∈ xs :=
  (sortedBy_perm key xs).mem_iff

@[simp] theorem length_sortedBy (key : α → κ) (xs : List α) : (sortedBy key xs).length = xs.length :=
  (sortedBy_perm key xs).length_eq

theorem sortedBy_pairwise (key : α → κ) (xs : List α) :
    (sortedBy key xs).Pairwise (fun a b => key a ≤ key b) := by
  have : Std.Total (fun a b : α => key a ≤ key b) := ⟨fun a b => le_total _ _⟩
  have : IsTrans α (fun a b : α => key a ≤ key b) := ⟨fun _ _ _ => le_trans⟩
  exact List.pairwise_insertionSort _ xs

theorem sortedBy_eq_self {key : α → κ} {xs : List α} (h : xs.Pairwise (fun a b => key a ≤ key b)) :
    sortedBy key xs = xs :=
  List.Pairwise.insertionSort_eq h

theorem eq_sortedBy_iff {key : α → κ} {xs : List α} :
    xs = sortedBy key xs ↔ xs.Pairwise (fun a b => key a ≤ key b) :=
  ⟨fun h => h ▸ sortedBy_pairwise key xs, fun h => (sortedBy_eq_self h).symm⟩

/-- `sorted(set(xs))`. -/
def sortedSet (xs : List κ) : List κ := sortedBy id xs.dedup

@[simp] theorem mem_sortedSet {xs : List κ} {x : κ} : x ∈ sortedSet xs ↔ x ∈ xs := by
  rw [sortedSet, mem_sortedBy, List.mem_dedup]

theorem eq_sortedSet_iff {xs : List κ} : xs = sortedSet xs ↔ xs.Pairwise (· < ·) := by
  constructor
  · intro h
    have hle : xs.Pairwise (· ≤ ·) := h ▸ sortedBy_pairwise id xs.dedup
    have hnd : xs.Nodup := by
      rw [h]
      exact (sortedBy_perm id xs.dedup).nodup_iff.2 (List.nodup_dedup xs)
    exact (hle.and hnd).imp fun h => lt_of_le_of_ne h.1 h.2
  · intro h
    have hnd : xs.Nodup := h.imp ne_of_lt
    rw [sortedSet, hnd.dedup]
    exact (sortedBy_eq_self (h.imp le_of_lt)).symm

end

section
variable [DecidableEq κ]

/-- `d[k] = v`. -/
def insert (k : κ) (v : α) : List (κ × α) → List (κ × α)
  | [] => [(k, v)]
  | (k', v') :: d => if k' = k then (k, v) :: d else (k', v') :: insert k v d

/-- `{key(x): x for x in xs}`. -/
def dictOf (key : α → κ) (xs : List α) : List (κ × α) :=
  xs.foldl (fun d x => insert (key x) x d) []

def values (d : List (κ × α)) : List α := d.map (·.2)

def get? (d : List (κ × α)) (k : κ) : Option α := (d.find? (fun e => e.1 = k)).map (·.2)

theorem mem_insert {k : κ} {v : α} {d : List (κ × α)} {e : κ × α} (h : e ∈ insert k v d) :
    e = (k, v) ∨ e ∈ d := by
  induction d with
  | nil => simpa [insert] using h
  | cons p d ih =>
    unfold insert at h
    split at h
    · rcases List.mem_cons.1 h with h | h
      · exact .inl h
      · exact .inr (List.mem_cons_of_mem _ h)
    · rcases List.mem_cons.1 h with rfl | h
      · exact .inr (by simp)
      · exact (ih h).imp_right (List.mem_cons_of_mem _)

theorem keys_insert (k : κ) (v : α) (d : List (κ × α)) :
    (insert k v d).map (·.1) = if k ∈ d.map (·.1) then d.map (·.1) else d.map (·.1) ++ [k] := by
  induction d with
  | nil => simp [insert]
  | cons p d ih =>
    unfold insert
    split
    · rename_i h; simp [h]
    · rename_i h
      have hk : ¬ k = p.1 := fun hk => h hk.symm
      simp only [List.map_cons, ih, List.mem_cons, hk, false_or]
      split <;> simp

theorem nodup_keys_insert {k : κ} {v : α} {d : List (κ × α)} (h : (d.map (·.1)).Nodup) :
    ((insert k v d).map (·.1)).Nodup := by
  rw [keys_insert]
  split
  · exact h
  · rename_i hk
    rw [List.nodup_append]
    exact ⟨h, by simp, fun a ha b hb => by rintro rfl; simp at hb; exact hk (hb ▸ ha)⟩

/-- The dictionary a comprehension builds over one that is already there. -/
theorem foldl_insert_spec (key : α → κ) (xs : List α) (d : List (κ × α))
    (hd : ∀ e ∈ d, key e.2 = e.1) (hn : (d.map (·.1)).Nodup) :
    let r := xs.foldl (fun d x => insert (key x) x d) d
    (r.map (·.1)).Nodup ∧ (∀ e ∈ r, key e.2 = e.1 ∧ (e ∈ d ∨ e.2 ∈ xs)) ∧
      (∀ k, k ∈ r.map (·.1) ↔ k ∈ d.map (·.1) ∨ k ∈ xs.map key) := by
  induction xs generalizing d with
  | nil => exact ⟨hn, fun e he => ⟨hd e he, .inl he⟩, by simp⟩
  | cons x xs ih =>
    have hd' : ∀ e ∈ insert (key x) x d, key e.2 = e.1 := by
      intro e he
      rcases mem_insert he with rfl | he
      · rfl
      · exact hd e he
    obtain ⟨h1, h2, h3⟩ := ih (insert (key x) x d) hd' (nodup_keys_insert hn)
    refine ⟨h1, fun e he => ?_, fun k => ?_⟩
    · obtain ⟨hk, hm⟩ := h2 e he
      refine ⟨hk, ?_⟩
      rcases hm with hm | hm
      · rcases mem_insert hm with rfl | hm
        · exact .inr (by simp)
        · exact .inl hm
      · exact .inr (List.mem_cons_of_mem _ hm)
    · rw [List.foldl_cons, h3, keys_insert, List.map_cons, List.mem_cons]
      split
      · rename_i hx
        constructor
        · rintro (h | h)
          · exact .inl h
          · exact .inr (.inr h)
        · rintro (h | rfl | h)
          · exact .inl h
          · exact .inl hx
          · exact .inr h
      · simp [or_assoc]

theorem nodup_keys_dictOf (key : α → κ) (xs : List α) : ((dictOf key xs).map (·.1)).Nodup :=
  (foldl_insert_spec key xs [] (by simp) (by simp)).1

theorem key_of_mem_dictOf {key : α → κ} {xs : List α} {e : κ × α} (h : e ∈ dictOf key xs) :
    key e.2 = e.1 :=
  ((foldl_insert_spec key xs [] (by simp) (by simp)).2.1 e h).1

theorem mem_of_mem_dictOf {key : α → κ} {xs : List α} {e : κ × α} (h : e ∈ dictOf key xs) :
    e.2 ∈ xs := by
  rcases ((foldl_insert_spec key xs [] (by simp) (by simp)).2.1 e h).2 with h | h
  · simp at h
  · exact h

theorem mem_keys_dictOf {key : α → κ} {xs : List α} {k : κ} :
    k ∈ (dictOf key xs).map (·.1) ↔ k ∈ xs.map key := by
  rw [dictOf, (foldl_insert_spec key xs [] (by simp) (by simp)).2.2 k]
  simp

theorem mem_values_dictOf {key : α → κ} {xs : List α} {x : α} (h : x ∈ values (dictOf key xs)) :
    x ∈ xs := by
  obtain ⟨e, he, rfl⟩ := List.mem_map.1 h
  exact mem_of_mem_dictOf he

theorem exists_mem_values_dictOf {key : α → κ} {xs : List α} {x : α} (h : x ∈ xs) :
    ∃ y ∈ values (dictOf key xs), key y = key x := by
  obtain ⟨e, he, hk⟩ := List.mem_map.1 (mem_keys_dictOf.2 (List.mem_map_of_mem (f := key) h))
  exact ⟨e.2, List.mem_map_of_mem he, (key_of_mem_dictOf he).trans hk⟩

theorem get?_dictOf_some {key : α → κ} {xs : List α} {k : κ} {x : α}
    (h : get? (dictOf key xs) k = some x) : x ∈ xs ∧ key x = k := by
  rw [get?, Option.map_eq_some_iff] at h
  obtain ⟨e, he, rfl⟩ := h
  have hk : e.1 = k := by simpa using List.find?_some he
  have hm := List.mem_of_find?_eq_some he
  exact ⟨mem_of_mem_dictOf hm, (key_of_mem_dictOf hm).trans hk⟩

theorem get?_dictOf_isSome {key : α → κ} {xs : List α} {k : κ} :
    (∃ x, get? (dictOf key xs) k = some x) ↔ k ∈ xs.map key := by
  rw [← @mem_keys_dictOf _ _ _ key xs]
  simp only [get?, Option.map_eq_some_iff, List.mem_map]
  constructor
  · rintro ⟨_, e, he, -⟩
    exact ⟨e, List.mem_of_find?_eq_some he, by simpa using List.find?_some he⟩
  · rintro ⟨e, he, hk⟩
    cases hf : (dictOf key xs).find? (fun e => e.1 = k) with
    | none => exact absurd hk (by simpa using List.find?_eq_none.1 hf e he)
    | some e' => exact ⟨e'.2, e', rfl, rfl⟩

/-- With distinct keys a dictionary finds each of its values. -/
theorem get?_dictOf_of_mem {key : α → κ} {xs : List α} (hn : (xs.map key).Nodup) {x : α}
    (hx : x ∈ xs) : get? (dictOf key xs) (key x) = some x := by
  obtain ⟨y, hy⟩ := get?_dictOf_isSome.2 (List.mem_map_of_mem (f := key) hx)
  obtain ⟨hmem, hk⟩ := get?_dictOf_some hy
  rw [hy, List.inj_on_of_nodup_map hn hmem hx hk]

/-- With distinct keys a filter by key finds what the dictionary finds. -/
theorem filter_key_eq {key : α → κ} {xs : List α} (hn : (xs.map key).Nodup) (k : κ) :
    xs.filter (fun x => key x = k) = (get? (dictOf key xs) k).toList := by
  cases hg : get? (dictOf key xs) k with
  | none =>
    refine List.filter_eq_nil_iff.2 fun x hx hk => ?_
    obtain ⟨y, hy⟩ := get?_dictOf_isSome.2 (List.mem_map_of_mem (f := key) hx)
    rw [of_decide_eq_true hk, hg] at hy
    cases hy
  | some y =>
    obtain ⟨hy, rfl⟩ := get?_dictOf_some hg
    obtain ⟨l₁, l₂, rfl⟩ := List.append_of_mem hy
    have hne : ∀ x ∈ l₁ ++ l₂, key x ≠ key y := by
      intro x hx heq
      rw [List.map_append, List.map_cons, List.nodup_middle, List.nodup_cons, ← List.map_append] at hn
      exact hn.1 (heq ▸ List.mem_map_of_mem hx)
    have h₁ : l₁.filter (fun x => key x = key y) = [] :=
      List.filter_eq_nil_iff.2 fun x hx => by simpa using hne x (by simp [hx])
    have h₂ : l₂.filter (fun x => key x = key y) = [] :=
      List.filter_eq_nil_iff.2 fun x hx => by simpa using hne x (by simp [hx])
    simp [List.filter_append, h₁, h₂]

theorem get?_insert (k k' : κ) (v : α) (d : List (κ × α)) :
    get? (insert k v d) k' = if k = k' then some v else get? d k' := by
  induction d with
  | nil => by_cases h : k = k' <;> simp [insert, get?, h]
  | cons p d ih =>
    unfold insert
    simp only [get?] at ih
    split
    · rename_i hp
      by_cases h : k = k' <;> simp [get?, hp, h]
    · rename_i hp
      by_cases hpk : p.1 = k'
      · have hne : ¬ k = k' := fun h => hp (hpk.trans h.symm)
        simp [get?, hpk, hne]
      · simp [get?, hpk, ih]

theorem get?_map {f : κ × α → κ × α} (hf : ∀ e, (f e).1 = e.1) (d : List (κ × α)) (k : κ) :
    get? (d.map f) k = (get? d k).map fun v => (f (k, v)).2 := by
  induction d with
  | nil => rfl
  | cons p d ih =>
    by_cases hp : p.1 = k
    · subst hp
      simp [get?, hf]
    · have hl : get? ((p :: d).map f) k = get? (d.map f) k := by simp [get?, hf, hp]
      have hr : get? (p :: d) k = get? d k := by simp [get?, hp]
      rw [hl, hr, ih]

theorem get?_filter (q : κ → Bool) (d : List (κ × α)) (k : κ) :
    get? (d.filter fun e => q e.1) k = if q k then get? d k else none := by
  induction d with
  | nil => simp [get?]
  | cons p d ih =>
    simp only [get?] at ih
    by_cases hp : p.1 = k <;> by_cases hq : q p.1 <;> simp_all [get?]

theorem insert_of_notMem {k : κ} {v : α} {d : List (κ × α)} (h : k ∉ d.map (·.1)) : insert k v d = d ++ [(k, v)] := by
  induction d with
  | nil => rfl
  | cons p d ih =>
    simp only [List.map_cons, List.mem_cons, not_or] at h
    unfold insert
    rw [if_neg fun hp => h.1 hp.symm, ih h.2, List.cons_append]

/-- With distinct keys a comprehension keeps everything, in order. -/
theorem values_dictOf_of_nodup {key : α → κ} {xs : List α} (hn : (xs.map key).Nodup) : values (dictOf key xs) = xs := by
  induction xs using List.reverseRecOn with
  | nil => rfl
  | append_singleton xs x ih =>
    rw [List.map_append, List.nodup_append] at hn
    have hx : key x ∉ (dictOf key xs).map (·.1) := by
      rw [mem_keys_dictOf]
      exact fun hm => hn.2.2 _ hm _ (by simp) rfl
    have hstep : dictOf key (xs ++ [x]) = insert (key x) x (dictOf key xs) := by simp [dictOf]
    rw [hstep, insert_of_notMem hx, values, List.map_append]
    exact congrArg (· ++ [x]) (ih hn.1)

theorem dictOf_of_nodup {key : α → κ} {xs : List α} (hn : (xs.map key).Nodup) :
    dictOf key xs = xs.map fun x => (key x, x) := by
  have hvalues := values_dictOf_of_nodup hn
  conv_rhs => rw [← hvalues, values, List.map_map]
  refine (List.map_id _).symm.trans (List.map_congr_left fun e he => ?_)
  exact Prod.ext (key_of_mem_dictOf he).symm rfl

/-- Assigning what is there changes nothing. -/
theorem insert_eq_self {d : List (κ × α)} {k : κ} {e : α} (h : get? d k = some e) : insert k e d = d := by
  induction d with
  | nil => simp [get?] at h
  | cons p d ih =>
    by_cases hp : p.1 = k
    · have he : p.2 = e := by simpa [get?, hp] using h
      rw [insert, if_pos hp, ← hp, ← he]
    · have htail : get? d k = some e := by simpa [get?, hp] using h
      rw [insert, if_neg hp, ih htail]

/-- Assign what `f` gives, over `xs`. -/
def assignAll {β : Type} (key : α → κ) (f : α → Option β) (xs : List α) (d : List (κ × β)) : List (κ × β) :=
  xs.foldl (fun d x => (f x).elim d fun v => insert (key x) v d) d

section
variable {β : Type} {key : α → κ} {f : α → Option β} {xs : List α} {d : List (κ × β)}

theorem get?_assign (x : α) (k : κ) :
    get? ((f x).elim d fun v => insert (key x) v d) k = if key x = k then (f x).or (get? d k) else get? d k := by
  cases f x with
  | none => simp
  | some v =>
    rw [Option.elim_some, get?_insert]
    rfl

theorem get?_assignAll_of_ne {k : κ} (h : ∀ x ∈ xs, key x ≠ k) : get? (assignAll key f xs d) k = get? d k := by
  unfold assignAll
  induction xs generalizing d with
  | nil => rfl
  | cons x xs ih =>
    rw [List.foldl_cons, ih fun y hy => h y (List.mem_cons_of_mem _ hy), get?_assign, if_neg (h x (List.mem_cons_self ..))]

theorem get?_assignAll_of_mem (hn : (xs.map key).Nodup) {x : α} (hx : x ∈ xs) :
    get? (assignAll key f xs d) (key x) = (f x).or (get? d (key x)) := by
  induction xs generalizing d with
  | nil => cases hx
  | cons y xs ih =>
    rw [List.map_cons, List.nodup_cons] at hn
    show get? (assignAll key f xs _) _ = _
    rcases List.mem_cons.1 hx with rfl | hx
    · rw [get?_assignAll_of_ne fun z hz he => hn.1 (List.mem_map.2 ⟨z, hz, he⟩), get?_assign, if_pos rfl]
    · have hne : key y ≠ key x := fun he => hn.1 (List.mem_map.2 ⟨x, hx, he.symm⟩)
      rw [ih hn.2 hx, get?_assign, if_neg hne]

theorem assignAll_inv {P : List (κ × β) → Prop} (hP : ∀ d, P d → ∀ x v, f x = some v → P (insert (key x) v d))
    (hd : P d) : P (assignAll key f xs d) := by
  unfold assignAll
  induction xs generalizing d with
  | nil => exact hd
  | cons x xs ih =>
    rw [List.foldl_cons]
    cases hf : f x with
    | none => exact ih hd
    | some v => exact ih (hP d hd x v hf)

/-- Assigning everywhere what is there changes nothing. -/
theorem assignAll_eq_self (h : ∀ x ∈ xs, ∀ v ∈ f x, get? d (key x) = some v) : assignAll key f xs d = d := by
  unfold assignAll
  induction xs with
  | nil => rfl
  | cons x xs ih =>
    have hx : (f x).elim d (fun v => insert (key x) v d) = d := by
      cases hf : f x with
      | none => rfl
      | some v => exact insert_eq_self (h x (List.mem_cons_self ..) v hf)
    rw [List.foldl_cons, hx]
    exact ih fun y hy => h y (List.mem_cons_of_mem _ hy)

end

theorem mem_of_get? {d : List (κ × α)} {k : κ} {v : α} (h : get? d k = some v) : (k, v) ∈ d := by
  rw [get?, Option.map_eq_some_iff] at h
  obtain ⟨e, he, rfl⟩ := h
  have hk : e.1 = k := by simpa using List.find?_some he
  exact hk ▸ List.mem_of_find?_eq_some he

/-- With distinct keys an entry is what its key finds. -/
theorem mem_iff_get? {d : List (κ × α)} (hn : (d.map (·.1)).Nodup) {k : κ} {v : α} :
    (k, v) ∈ d ↔ get? d k = some v := by
  constructor
  · intro h
    have hfind : ∃ e, d.find? (fun e => e.1 = k) = some e := by
      cases hf : d.find? (fun e => e.1 = k) with
      | none => exact absurd (List.find?_eq_none.1 hf _ h) (by simp)
      | some e => exact ⟨e, rfl⟩
    obtain ⟨e, he⟩ := hfind
    have hk : e.1 = k := by simpa using List.find?_some he
    have heq := List.inj_on_of_nodup_map hn (List.mem_of_find?_eq_some he) h hk
    rw [get?, he, heq]
    rfl
  · exact mem_of_get?

end

end PyList

end CardRag
