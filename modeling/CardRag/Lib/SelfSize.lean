import CardRag.Lib.Json

/-! # Documents that state their own size

A document has a field where its own size is written in decimal. Writing the size changes it, so the
size is measured and written until nothing changes. Starting from zero, three rounds are enough. -/

namespace CardRag.SelfSize

/-- The number of decimal digits. -/
abbrev digits (n : Nat) : Nat := (Json.decimal n).length

theorem digits_pos (n : Nat) : 0 < digits n := Nat.length_toDigits_pos

theorem digits_le_iff {n k : Nat} (hk : 0 < k) : digits n ≤ k ↔ n < 10 ^ k :=
  Nat.length_toDigits_le_iff (by decide) hk

theorem digits_mono {m n : Nat} (h : m ≤ n) : digits m ≤ digits n :=
  (digits_le_iff (digits_pos n)).2 (h.trans_lt ((digits_le_iff (digits_pos n)).1 le_rfl))

/-- Adding as much as the number of digits makes a number at most one digit longer. -/
theorem digits_add_le {n k : Nat} (hk : k ≤ digits n) : digits (n + k) ≤ digits n + 1 := by
  rw [digits_le_iff (Nat.succ_pos _), Nat.pow_succ]
  have hn : n < 10 ^ digits n := (digits_le_iff (digits_pos n)).1 le_rfl
  have hd : digits n < 10 ^ digits n := Nat.lt_pow_self (by decide)
  omega

theorem digits_zero : digits 0 = 1 := rfl

/-- `rest` is the size without the digits. -/
theorem fixed_three (rest : Nat) : Function.IsFixedPt (fun n => rest + digits n) ((fun n => rest + digits n)^[3] 0) := by
  change rest + digits (rest + digits (rest + digits (rest + digits 0))) = rest + digits (rest + digits (rest + digits 0))
  rw [digits_zero]
  have hone := digits_pos (rest + 1)
  obtain ⟨k, hk⟩ : ∃ k, digits (rest + 1) = k + 1 := ⟨digits (rest + 1) - 1, by omega⟩
  have hsum : rest + 1 + k = rest + digits (rest + 1) := by omega
  have hle : digits (rest + digits (rest + 1)) ≤ digits (rest + 1) + 1 := hsum ▸ digits_add_le (by omega)
  have hge : digits (rest + 1) ≤ digits (rest + digits (rest + 1)) := digits_mono (by omega)
  obtain heq | hlt := hge.eq_or_lt
  · rw [← heq, ← heq]
  · -- The size has gained its one digit, and stays below the next power of ten.
    have heq : digits (rest + digits (rest + 1)) = digits (rest + 1) + 1 := by omega
    have hnext : digits (rest + 1 + digits (rest + 1)) ≤ digits (rest + 1) + 1 := digits_add_le le_rfl
    have hback : digits (rest + digits (rest + 1)) ≤ digits (rest + 1 + digits (rest + 1)) := digits_mono (by omega)
    rw [heq, show rest + (digits (rest + 1) + 1) = rest + 1 + digits (rest + 1) by omega]
    omega

/-- Documents with such a field. -/
structure Sized (α : Type) where
  size : α → Nat
  stated : α → Nat
  state : α → Nat → α
  stated_state : ∀ a n, stated (state a n) = n
  state_stated : ∀ a, state a (stated a) = a
  state_state : ∀ a m n, state (state a m) n = state a n
  size_state : ∀ a, ∃ rest, ∀ n, size (state a n) = rest + digits n

variable {α : Type} (D : Sized α)

def settle : Nat → α → α
  | 0, a => a
  | n + 1, a => if D.size a = D.stated a then a else settle n (D.state a (D.size a))

theorem settle_state (n : Nat) (a : α) : ∃ m, settle D n a = D.state a m := by
  induction n generalizing a with
  | zero => exact ⟨D.stated a, (D.state_stated a).symm⟩
  | succ n ih =>
    unfold settle
    split
    · exact ⟨D.stated a, (D.state_stated a).symm⟩
    · obtain ⟨m, hm⟩ := ih (D.state a (D.size a))
      exact ⟨m, hm.trans (D.state_state ..)⟩

theorem settle_fixed {n rest : Nat} {a : α} (hrest : ∀ n, D.size (D.state a n) = rest + digits n)
    (hfix : Function.IsFixedPt (fun n => rest + digits n) ((fun n => rest + digits n)^[n] (D.stated a))) :
    D.stated (settle D n a) = D.size (settle D n a) := by
  induction n generalizing a with
  | zero =>
    have hsize := hrest (D.stated a)
    rw [D.state_stated] at hsize
    exact (hsize.trans hfix).symm
  | succ n ih =>
    unfold settle
    split
    · rename_i h
      exact h.symm
    · refine ih (fun m => by rw [D.state_state, hrest]) ?_
      rw [D.stated_state]
      have hsize := hrest (D.stated a)
      rw [D.state_stated] at hsize
      rwa [hsize]

/-- From zero, three rounds or more end in a document that states its size. -/
theorem settle_spec {n : Nat} (hn : 3 ≤ n) {a : α} (h : D.stated a = 0) : D.stated (settle D n a) = D.size (settle D n a) := by
  obtain ⟨rest, hrest⟩ := D.size_state a
  refine settle_fixed D hrest ?_
  have hthree := fixed_three rest
  obtain ⟨k, rfl⟩ := Nat.exists_eq_add_of_le' hn
  rw [h, Function.iterate_add_apply, hthree.iterate k]
  exact hthree

end CardRag.SelfSize
