import Mathlib

/-! # Events that keep a distance

A list of times is spaced when each is at least `d` after the one before it. Then no window of `k` times `d` holds
more than `k` of them (`Spaced.window`). Also how a count changes when one element does. -/

namespace CardRag

theorem countP_set_eq {α : Type} (p : α → Bool) {xs : List α} {i : Nat} {a : α} (h : xs[i]? = some a) (b : α) :
    (xs.set i b).countP p + (p a).toNat = xs.countP p + (p b).toNat := by
  obtain ⟨hlt, rfl⟩ := List.getElem?_eq_some_iff.1 h
  have hpos : p xs[i] = true → 0 < xs.countP p := fun hp => List.countP_pos_iff.2 ⟨_, List.getElem_mem hlt, hp⟩
  rw [List.countP_set hlt]
  cases ha : p xs[i] with
  | false => cases p b <;> simp
  | true =>
    have := hpos ha
    cases p b <;> simp <;> omega

variable {α : Type} [AddCommGroup α] [LinearOrder α] [IsOrderedAddMonoid α]

def Spaced (d : α) (ts : List α) : Prop := ts.Pairwise fun a b => a + d ≤ b

namespace Spaced
variable {d t : α} {ts : List α}

/-- It is enough to look at the last one. -/
theorem snoc (hd : 0 ≤ d) (h : Spaced d ts) (hlast : ∀ a ∈ ts.getLast?, a + d ≤ t) : Spaced d (ts ++ [t]) := by
  refine List.pairwise_append.2 ⟨h, List.pairwise_singleton .., fun a ha b hb => ?_⟩
  rw [List.mem_singleton] at hb
  subst hb
  obtain ⟨init, last, rfl⟩ := List.eq_nil_or_concat ts |>.resolve_left (List.ne_nil_of_mem ha)
  rw [List.concat_eq_append] at h ha hlast
  have hend : last + d ≤ b := hlast last (by simp)
  obtain ha | ha := List.mem_append.1 ha
  · have hbefore : a + d ≤ last := (List.pairwise_append.1 h).2.2 a ha last (by simp)
    exact hbefore.trans ((le_add_of_nonneg_right hd).trans hend)
  · rw [List.mem_singleton] at ha
    exact ha ▸ hend

theorem nsmul_le (h : Spaced d (t :: ts)) : ∀ a ∈ (t :: ts).getLast?, t + ts.length • d ≤ a := by
  induction ts generalizing t with
  | nil =>
    intro a ha
    cases ha
    simp
  | cons b ts ih =>
    intro a ha
    rw [List.getLast?_cons_cons] at ha
    obtain ⟨hall, hrest⟩ := List.pairwise_cons.1 h
    have hb : t + d ≤ b := hall b List.mem_cons_self
    calc t + (ts.length + 1) • d = t + d + ts.length • d := by rw [succ_nsmul]; abel
      _ ≤ b + ts.length • d := by gcongr
      _ ≤ a := ih hrest a ha

theorem window (hd : 0 ≤ d) (h : Spaced d ts) (s : α) (k : Nat) :
    ts.countP (fun t => s ≤ t ∧ t < s + k • d) ≤ k := by
  have hsub : Spaced d (ts.filter fun t => s ≤ t ∧ t < s + k • d) := h.sublist List.filter_sublist
  rw [List.countP_eq_length_filter]
  cases hts : ts.filter fun t => s ≤ t ∧ t < s + k • d with
  | nil => exact Nat.zero_le k
  | cons t rest =>
    rw [hts] at hsub
    have hmem (a : α) (ha : a ∈ t :: rest) : s ≤ a ∧ a < s + k • d := by
      rw [← hts] at ha
      simpa using (List.mem_filter.1 ha).2
    obtain ⟨last, hlast⟩ : ∃ last, (t :: rest).getLast? = some last := ⟨_, List.getLast?_eq_some_getLast (by simp)⟩
    have hfar := hsub.nsmul_le last hlast
    have hlt : rest.length • d < k • d := by
      have hlow := (hmem t List.mem_cons_self).1
      have hhigh := (hmem last (List.mem_of_getLast? hlast)).2
      have hle : s + rest.length • d < s + k • d := lt_of_le_of_lt (by gcongr) (hfar.trans_lt hhigh)
      exact lt_of_add_lt_add_left hle
    by_contra hlong
    have hmany : k ≤ rest.length := by simpa using hlong
    exact absurd (nsmul_le_nsmul_left hd hmany) (not_le_of_gt hlt)

end Spaced

end CardRag
