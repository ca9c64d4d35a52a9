import CardRag.Lib.Guard
import CardRag.Lib.PyList

/-! # Results that do not depend on the order

A permuted list is sorted, searched, grouped and mapped with the same results, as far as keys tell its elements
apart. -/

namespace CardRag

variable {α β κ ε : Type} {xs ys : List α}

/-- Sorting forgets the order when the key is injective on the elements. -/
theorem PyList.sortedBy_eq_of_perm [LinearOrder κ] {key : α → κ} (h : xs.Perm ys)
    (hinj : ∀ a ∈ xs, ∀ b ∈ xs, key a = key b → a = b) : sortedBy key xs = sortedBy key ys := by
  have hperm : (sortedBy key xs).Perm (sortedBy key ys) :=
    ((sortedBy_perm key xs).trans h).trans (sortedBy_perm key ys).symm
  refine hperm.eq_of_pairwise (fun a b ha hb hab hba => ?_) (sortedBy_pairwise key xs) (sortedBy_pairwise key ys)
  exact hinj a (mem_sortedBy.1 ha) b (h.mem_iff.2 (mem_sortedBy.1 hb)) (le_antisymm hab hba)

/-- Mapping a permuted list gives permuted results. -/
theorem Guard.mapM_perm {f : α → Except ε β} {zs : List β} (h : ys.Perm xs) (hmap : xs.mapM f = .ok zs) :
    ∃ zs', ys.mapM f = .ok zs' ∧ zs'.Perm zs := by
  rw [Guard.mapM_eq_ok] at hmap
  obtain ⟨zs', hforall, hperm⟩ := List.perm_comp_forall₂ h hmap
  exact ⟨zs', Guard.mapM_eq_ok.2 hforall, hperm⟩

/-- What is read of the first match is the same when all matches agree on it. -/
theorem PyList.find?_map_of_perm {p : α → Bool} {f : α → β} (h : ys.Perm xs)
    (hagree : ∀ a ∈ xs, ∀ b ∈ xs, p a = true → p b = true → f a = f b) :
    (ys.find? p).map f = (xs.find? p).map f := by
  cases hx : xs.find? p with
  | none =>
    have hnone : ys.find? p = none :=
      List.find?_eq_none.2 fun a ha => List.find?_eq_none.1 hx a (h.mem_iff.1 ha)
    rw [hnone]
  | some a =>
    have ha := List.mem_of_find?_eq_some hx
    cases hy : ys.find? p with
    | none => exact absurd (List.find?_some hx) (List.find?_eq_none.1 hy a (h.mem_iff.2 ha))
    | some b =>
      have hb := h.mem_iff.1 (List.mem_of_find?_eq_some hy)
      rw [Option.map_some, Option.map_some, hagree b hb a ha (List.find?_some hy) (List.find?_some hx)]

/-- `next(iter(xs))` when there is exactly one. -/
def PyList.only? : List α → Option α
  | [a] => some a
  | _ => none

theorem PyList.only?_eq_some {a : α} : PyList.only? xs = some a ↔ xs = [a] := by
  cases xs with
  | nil => simp [PyList.only?]
  | cons x rest => cases rest <;> simp [PyList.only?]

theorem PyList.only?_of_perm (h : ys.Perm xs) : PyList.only? ys = PyList.only? xs := by
  refine Option.ext fun a => ?_
  rw [PyList.only?_eq_some, PyList.only?_eq_some]
  exact ⟨fun hy => List.singleton_perm.1 (hy ▸ h) |>.symm, fun hx => List.perm_singleton.1 (hx ▸ h)⟩

theorem PyList.reduceOption_perm {xs ys : List (Option α)} (h : ys.Perm xs) :
    ys.reduceOption.Perm xs.reduceOption := h.filterMap id

end CardRag
