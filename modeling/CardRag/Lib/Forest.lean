import Mathlib

/-! # Forests

A forest is a partial parent function without cycles. `climb` walks from a node to its root, `sweep`
visits everything below the nodes of a stack; both take fuel, and the number of nodes is enough. -/

namespace CardRag.Forest

variable {κ : Type} (parent : κ → Option κ)

/-- `a` is `x` or stands above it. -/
def Above (x a : κ) : Prop := Relation.ReflTransGen (fun x p => parent x = some p) x a

/-- All nodes that have a parent or children are listed, and nothing is above itself. -/
structure Rooted (ids : List κ) : Prop where
  mem : ∀ x p, parent x = some p → x ∈ ids ∧ p ∈ ids
  ranked : ∃ depth : κ → Nat, ∀ x p, parent x = some p → depth p < depth x

/-- A node and the nodes above it, nearest first. -/
def climb : Nat → κ → List κ
  | 0, _ => []
  | n + 1, x => x :: (parent x).elim [] (climb n)

variable {parent} {ids : List κ} {n : Nat} {x a b : κ}

theorem Above.mem (hr : Rooted parent ids) (hx : x ∈ ids) (h : Above parent x a) : a ∈ ids := by
  induction h with
  | refl => exact hx
  | tail _ hp _ => exact (hr.mem _ _ hp).2

theorem Above.mem_left (hr : Rooted parent ids) (ha : a ∈ ids) (h : Above parent x a) : x ∈ ids := by
  rcases Relation.ReflTransGen.cases_head h with rfl | ⟨p, hp, -⟩
  · exact ha
  · exact (hr.mem _ _ hp).1

theorem above_of_mem_climb (h : a ∈ climb parent n x) : Above parent x a := by
  induction n generalizing x with
  | zero => cases h
  | succ n ih =>
    rcases List.mem_cons.1 h with rfl | h
    · exact .refl
    · cases hp : parent x with
      | none => simp [hp] at h
      | some p =>
        rw [hp] at h
        exact .head hp (ih h)

theorem Above.depth_le {depth : κ → Nat} (hd : ∀ x p, parent x = some p → depth p < depth x) (h : Above parent x a) :
    depth a ≤ depth x := by
  induction h with
  | refl => exact le_rfl
  | tail _ hp ih => exact (hd _ _ hp).le.trans ih

theorem nodup_climb (hr : Rooted parent ids) : (climb parent n x).Nodup := by
  obtain ⟨depth, hd⟩ := hr.ranked
  induction n generalizing x with
  | zero => exact List.nodup_nil
  | succ n ih =>
    cases hp : parent x with
    | none => simp [climb, hp]
    | some p =>
      rw [climb, hp]
      refine List.nodup_cons.2 ⟨fun h => ?_, ih⟩
      exact absurd (hd _ _ hp) (not_lt.2 ((above_of_mem_climb h).depth_le hd))

/-- A climb stops at a root or when the fuel is used up. -/
theorem parent_mem_climb (ha : a ∈ climb parent n x) (hp : parent a = some b) :
    b ∈ climb parent n x ∨ (climb parent n x).length = n := by
  induction n generalizing x with
  | zero => cases ha
  | succ n ih =>
    rw [climb] at ha ⊢
    rcases List.mem_cons.1 ha with rfl | ha
    · rw [hp, Option.elim_some]
      cases n with
      | zero => exact .inr rfl
      | succ n => exact .inl (List.mem_cons_of_mem _ (by rw [climb]; exact List.mem_cons_self))
    · cases hx : parent x with
      | none => simp [hx] at ha
      | some p =>
        rw [hx] at ha
        rcases ih ha with h | h
        · exact .inl (List.mem_cons_of_mem _ h)
        · exact .inr (by rw [Option.elim_some, List.length_cons, h])

/-- With fuel beyond the number of nodes a climb meets everything above. -/
theorem mem_climb_iff (hr : Rooted parent ids) (hx : x ∈ ids) (hn : ids.length < n) :
    a ∈ climb parent n x ↔ Above parent x a := by
  refine ⟨above_of_mem_climb, fun h => ?_⟩
  have hle : (climb parent n x).length ≤ ids.length :=
    (List.subperm_of_subset (nodup_climb hr) fun c hc => (above_of_mem_climb hc).mem hr hx).length_le
  induction h with
  | refl =>
    obtain ⟨k, rfl⟩ := Nat.exists_eq_succ_of_ne_zero (Nat.ne_of_gt (Nat.zero_lt_of_lt hn))
    exact List.mem_cons_self
  | tail _ hp ih =>
    rcases parent_mem_climb ih hp with h | h
    · exact h
    · omega

/-! ### Below a stack -/

variable [DecidableEq κ]

/-- Visit the nodes of a stack and what is below them, except below nodes that were seen. -/
def sweep (children : κ → List κ) : Nat → List κ → List κ → List κ
  | 0, _, seen => seen
  | _ + 1, [], seen => seen
  | n + 1, x :: pending, seen =>
    if x ∈ seen then sweep children n pending seen else sweep children n (children x ++ pending) (seen ++ [x])

/-- The nodes whose parent has not been seen. -/
def waiting (parent : κ → Option κ) (ids seen : List κ) : List κ :=
  ids.filter fun c => (parent c).any (· ∉ seen)

theorem subset_sweep {children : κ → List κ} {pending seen : List κ} : seen ⊆ sweep children n pending seen := by
  induction n generalizing pending seen with
  | zero => exact fun _ h => h
  | succ n ih =>
    cases pending with
    | nil => exact fun _ h => h
    | cons x pending =>
      rw [sweep]
      split
      · exact ih
      · exact fun y hy => ih (List.mem_append_left _ hy)

/-- `children` lists, without repetition, the nodes of each parent. -/
structure Lists (parent : κ → Option κ) (ids : List κ) (children : κ → List κ) : Prop where
  mem : ∀ x ∈ ids, ∀ c, c ∈ children x ↔ parent c = some x
  nodup : ∀ x, (children x).Nodup

theorem length_waiting {children : κ → List κ} (hr : Rooted parent ids) (hids : ids.Nodup) (hc : Lists parent ids children)
    {seen : List κ} (hxm : x ∈ ids) (hx : x ∉ seen) :
    (waiting parent ids seen).length = (children x).length + (waiting parent ids (seen ++ [x])).length := by
  have hperm : (waiting parent ids seen).Perm (children x ++ waiting parent ids (seen ++ [x])) := by
    refine (List.perm_ext_iff_of_nodup (hids.filter _) ?_).2 ?_
    rotate_left
    · intro c
      simp only [waiting, List.mem_append, List.mem_filter, hc.mem x hxm]
      cases hp : parent c with
      | none => simp
      | some p =>
        have hcm := (hr.mem _ _ hp).1
        by_cases hpx : p = x
        · simp [hpx, hx, hcm]
        · simp [hpx, hcm]
    · refine List.nodup_append.2 ⟨hc.nodup x, hids.filter _, fun c hcx d hd => ?_⟩
      rintro rfl
      have := (List.mem_filter.1 hd).2
      rw [(hc.mem x hxm c).1 hcx] at this
      simp at this
  rw [hperm.length_eq, List.length_append]

omit [DecidableEq κ] in
/-- What is below a node whose descendants are seen or waiting on the stack. -/
theorem below_seen {pending seen : List κ} (hdown : ∀ y ∈ seen, ∀ c, parent c = some y → c ∈ seen ∨ c ∈ pending)
    (hx : x ∈ seen) {y : κ} (h : Above parent y x) : y ∈ seen ∨ ∃ r ∈ pending, Above parent y r := by
  induction h using Relation.ReflTransGen.head_induction_on with
  | refl => exact .inl hx
  | head hp _ ih =>
    rcases ih with h | ⟨r, hr, ha⟩
    · exact (hdown _ h _ hp).imp_right fun hc => ⟨_, hc, .refl⟩
    · exact .inr ⟨r, hr, ha.head hp⟩

/-- With fuel for the stack and for every node still waiting, a sweep sees what it is to see. -/
theorem mem_sweep_iff {children : κ → List κ} (hr : Rooted parent ids) (hids : ids.Nodup) (hc : Lists parent ids children)
    {pending seen : List κ} (hpending : ∀ r ∈ pending, r ∈ ids)
    (hn : pending.length + (waiting parent ids seen).length ≤ n)
    (hdown : ∀ y ∈ seen, ∀ c, parent c = some y → c ∈ seen ∨ c ∈ pending) {y : κ} :
    y ∈ sweep children n pending seen ↔ y ∈ seen ∨ ∃ r ∈ pending, Above parent y r := by
  induction n generalizing pending seen with
  | zero =>
    obtain rfl : pending = [] := List.length_eq_zero_iff.1 (by omega)
    simp [sweep]
  | succ n ih =>
    cases pending with
    | nil => simp [sweep]
    | cons x pending =>
      rw [List.length_cons] at hn
      obtain ⟨hxm, hpending⟩ := List.forall_mem_cons.1 hpending
      -- what is below a seen node is seen or below the stack
      rw [sweep]
      split
      · rename_i hx
        have hdown' : ∀ y ∈ seen, ∀ c, parent c = some y → c ∈ seen ∨ c ∈ pending := by
          intro y hy c hcy
          rcases hdown y hy c hcy with h | h
          · exact .inl h
          · rcases List.mem_cons.1 h with rfl | h
            · exact .inl hx
            · exact .inr h
        rw [ih hpending (by omega) hdown']
        refine ⟨Or.imp_right fun ⟨r, hr, ha⟩ => ⟨r, List.mem_cons_of_mem _ hr, ha⟩, ?_⟩
        rintro (h | ⟨r, hrm, ha⟩)
        · exact .inl h
        · rcases List.mem_cons.1 hrm with rfl | hrm
          · exact below_seen hdown' hx ha
          · exact .inr ⟨r, hrm, ha⟩
      · rename_i hx
        have hlen := length_waiting hr hids hc hxm hx
        have hpending' : ∀ r ∈ children x ++ pending, r ∈ ids := fun r hrm =>
          (List.mem_append.1 hrm).elim (fun h => (hr.mem _ _ ((hc.mem x hxm r).1 h)).1) (hpending r)
        have hdown' : ∀ y ∈ seen ++ [x], ∀ c, parent c = some y → c ∈ seen ++ [x] ∨ c ∈ children x ++ pending := by
          intro y hy c hcy
          rcases List.mem_append.1 hy with hy | hy
          · rcases hdown y hy c hcy with h | h
            · exact .inl (List.mem_append_left _ h)
            · rcases List.mem_cons.1 h with rfl | h
              · exact .inl (by simp)
              · exact .inr (List.mem_append_right _ h)
          · obtain rfl := List.mem_singleton.1 hy
            exact .inr (List.mem_append_left _ ((hc.mem _ hxm _).2 hcy))
        rw [ih hpending' (by rw [List.length_append]; omega) hdown']
        constructor
        · rintro (h | ⟨r, hrm, ha⟩)
          · rcases List.mem_append.1 h with h | h
            · exact .inl h
            · exact .inr ⟨x, List.mem_cons_self, List.mem_singleton.1 h ▸ .refl⟩
          · rcases List.mem_append.1 hrm with hrm | hrm
            · exact .inr ⟨x, List.mem_cons_self, ha.tail ((hc.mem _ hxm _).1 hrm)⟩
            · exact .inr ⟨r, List.mem_cons_of_mem _ hrm, ha⟩
        · rintro (h | ⟨r, hrm, ha⟩)
          · exact .inl (List.mem_append_left _ h)
          · rcases List.mem_cons.1 hrm with rfl | hrm
            · rcases Relation.ReflTransGen.cases_tail ha with rfl | ⟨c, hac, hcr⟩
              · exact .inl (by simp)
              · exact .inr ⟨c, List.mem_append_left _ ((hc.mem _ hxm _).2 hcr), hac⟩
            · exact .inr ⟨r, List.mem_append_right _ hrm, ha⟩

theorem nodup_sweep {children : κ → List κ} {pending seen : List κ} (h : seen.Nodup) :
    (sweep children n pending seen).Nodup := by
  induction n generalizing pending seen with
  | zero => exact h
  | succ n ih =>
    cases pending with
    | nil => exact h
    | cons x pending =>
      rw [sweep]
      split
      · exact ih h
      · rename_i hx
        refine ih (List.nodup_append.2 ⟨h, List.nodup_singleton x, fun a ha b hb hab => ?_⟩)
        exact hx (List.mem_singleton.1 hb ▸ hab ▸ ha)

end CardRag.Forest
