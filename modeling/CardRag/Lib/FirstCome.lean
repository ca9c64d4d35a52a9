import Mathlib.Data.List.Induction
import Mathlib.Data.List.Perm.Subperm

/-! # First come, first served

Claimants come one after the other. Each has a place of its own and claims places, and it is served unless
its own place is claimed by a claimant served before. Who is served depends on the order: a chain of
claimants that do not stand in each other's way is served where it comes first (`run_chain`), and then
nobody whose place it claims is. -/

namespace CardRag.FirstCome

variable {α β : Type} [DecidableEq β] (home : α → β) (claims : α → List β)

/-- The place of the claimant is claimed. -/
def Starved (us : List α) (x : α) : Prop := ∃ u ∈ us, home x ∈ claims u

instance (us : List α) (x : α) : Decidable (Starved home claims us x) := inferInstanceAs (Decidable (∃ u ∈ us, _))

def serve (us : List α) (x : α) : List α := if Starved home claims us x then us else us ++ [x]

/-- Those who are served. -/
def run (xs : List α) : List α := xs.foldl (serve home claims) []

/-- Nobody claims the place of one who comes later. -/
def Chain (us : List α) : Prop := us.Pairwise fun u v => home v ∉ claims u

variable {home claims} {us xs ys : List α} {x : α}

theorem Chain.serve (h : Chain home claims us) (x : α) : Chain home claims (serve home claims us x) := by
  unfold FirstCome.serve
  split
  · exact h
  · rename_i hx
    refine List.pairwise_append.2 ⟨h, List.pairwise_singleton _ _, fun u hu v hv => ?_⟩
    rw [List.mem_singleton.1 hv]
    exact fun hclaim => hx ⟨u, hu, hclaim⟩

theorem Chain.foldl (h : Chain home claims us) (xs : List α) : Chain home claims (xs.foldl (FirstCome.serve home claims) us) := by
  induction xs generalizing us with
  | nil => exact h
  | cons x xs ih => exact ih (h.serve x)

theorem chain_run (xs : List α) : Chain home claims (run home claims xs) := Chain.foldl List.Pairwise.nil xs

variable (home claims) in
/-- Those who are served after others. -/
theorem exists_foldl (us xs : List α) : ∃ more, xs.foldl (serve home claims) us = us ++ more ∧ more.Sublist xs := by
  induction xs generalizing us with
  | nil => exact ⟨[], (List.append_nil us).symm, List.Sublist.slnil⟩
  | cons x xs ih =>
    obtain ⟨more, heq, hsub⟩ := ih (serve home claims us x)
    rw [List.foldl_cons, heq]
    unfold serve
    split
    · exact ⟨more, rfl, hsub.cons x⟩
    · exact ⟨x :: more, by rw [List.append_assoc, List.singleton_append], hsub.cons_cons x⟩

theorem run_sublist (xs : List α) : (run home claims xs).Sublist xs := by
  obtain ⟨more, heq, hsub⟩ := exists_foldl home claims [] xs
  rw [run, heq]
  exact hsub

omit [DecidableEq β] in
theorem Starved.mono (h : Starved home claims us x) (hsub : us ⊆ ys) : Starved home claims ys x :=
  h.imp fun _ hu => ⟨hsub hu.1, hu.2⟩

/-- Whoever is not served is starved. -/
theorem mem_run_or_starved (hx : x ∈ xs) : x ∈ run home claims xs ∨ Starved home claims (run home claims xs) x := by
  obtain ⟨before, after, rfl⟩ := List.append_of_mem hx
  rw [run, List.foldl_append, List.foldl_cons]
  obtain ⟨more, heq, -⟩ := exists_foldl home claims
    (serve home claims (before.foldl (serve home claims) []) x) after
  rw [heq]
  by_cases hstarved : Starved home claims (before.foldl (serve home claims) []) x
  · rw [serve, if_pos hstarved]
    exact .inr (hstarved.mono (List.subset_append_left _ _))
  · rw [serve, if_neg hstarved]
    exact .inl (List.mem_append_left _ (List.mem_append_right _ (List.mem_singleton.2 rfl)))

/-- A chain that comes first is served. -/
theorem run_chain (h : Chain home claims us) : run home claims us = us := by
  induction us using List.reverseRecOn with
  | nil => rfl
  | append_singleton us x ih =>
    obtain ⟨hus, -, hx⟩ := List.pairwise_append.1 h
    have hrun : us.foldl (serve home claims) [] = us := ih hus
    rw [run, List.foldl_append, List.foldl_cons, List.foldl_nil, hrun, serve, if_neg]
    rintro ⟨u, hu, hclaim⟩
    exact hx u hu x (List.mem_singleton.2 rfl) hclaim

theorem run_append (h : Chain home claims us) (ys : List α) :
    ∃ more, run home claims (us ++ ys) = us ++ more ∧ more.Sublist ys ∧ ∀ v ∈ more, ¬ Starved home claims us v := by
  obtain ⟨more, heq, hsub⟩ := exists_foldl home claims us ys
  have hrun : run home claims (us ++ ys) = us ++ more := by
    rw [run, List.foldl_append]
    exact (congrArg (ys.foldl (serve home claims)) (run_chain h)).trans heq
  refine ⟨more, hrun, hsub, ?_⟩
  have hchain : Chain home claims (run home claims (us ++ ys)) := chain_run (us ++ ys)
  rw [hrun] at hchain
  rintro v hv ⟨u, hu, hclaim⟩
  exact (List.pairwise_append.1 hchain).2.2 u hu v hv hclaim

/-- The rows behind some values can be brought into the order of the values. -/
theorem exists_perm_filterMap {γ : Type} {g : γ → Option α} {rows : List γ} (h : (rows.filterMap g).Perm xs) :
    ∃ rows' : List γ, rows'.Perm rows ∧ rows'.filterMap g = xs := by
  induction xs generalizing rows with
  | nil => exact ⟨rows, .refl _, List.perm_nil.1 h⟩
  | cons x xs ih =>
    obtain ⟨a, ha, hga⟩ := List.mem_filterMap.1 (h.mem_iff.2 List.mem_cons_self)
    obtain ⟨before, after, rfl⟩ := List.append_of_mem ha
    have hperm : (before ++ a :: after).Perm (a :: (before ++ after)) := List.perm_middle
    have hrest : ((before ++ after).filterMap g).Perm xs := by
      have hcons := (hperm.filterMap g).symm.trans h
      rw [List.filterMap_cons_some hga] at hcons
      exact hcons.cons_inv
    obtain ⟨rows', hrows, heq⟩ := ih hrest
    exact ⟨a :: rows', (hrows.cons a).trans hperm.symm, by rw [List.filterMap_cons_some hga, heq]⟩

/-- Some of the values can be brought to the front. -/
theorem exists_perm_front {γ : Type} {g : γ → Option α} {rows : List γ} (h : us.Subperm (rows.filterMap g)) :
    ∃ (rows' : List γ) (rest : List α), rows'.Perm rows ∧ rows'.filterMap g = us ++ rest := by
  obtain ⟨us', hus, hsub⟩ := h
  obtain ⟨rest, hrest⟩ := hsub.exists_perm_append
  obtain ⟨rows', hperm, heq⟩ := exists_perm_filterMap (hrest.trans (hus.append_right rest))
  exact ⟨rows', rest, hperm, heq⟩

end CardRag.FirstCome
