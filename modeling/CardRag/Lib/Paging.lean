import Mathlib

/-! # Lists answered in pages

A query answers with the items of a page and, when it has more, a cursor for the next page. `Follows`
is a reader that starts from a cursor, follows the cursors it is given and chooses a limit for each
page. A query that goes through a list page by page (`Serves`) is read to its end with any limits, and
the reader gets every element once and in order (`Serves.complete`). -/

namespace CardRag.Paging

variable {α β γ κ ε : Type}

/-- Read from a cursor with these limits, the query returns these items and then no cursor. -/
inductive Follows (page : Option γ → κ → Except ε (List β × Option γ)) : Option γ → List κ → List β → Prop where
  | last {cursor : Option γ} {limit : κ} {items : List β} (h : page cursor limit = .ok (items, none)) :
    Follows page cursor [limit] items
  | more {cursor : Option γ} {limit : κ} {items : List β} {next : γ} {limits : List κ} {rest : List β}
    (h : page cursor limit = .ok (items, some next)) (follows : Follows page (some next) limits rest) :
    Follows page cursor (limit :: limits) (items ++ rest)

/-- No cursor stands for the start of the list, `token o` for the element at `o`. -/
def PointsTo (token : Nat → γ) (cursor : Option γ) (o : Nat) : Prop := (cursor = none ∧ o = 0) ∨ cursor = some (token o)

/-- A page is what the query shows of some elements from the cursor on, at least one if there is one;
the next cursor points behind them, and there is none at the end. -/
def Serves (page : Option γ → κ → Except ε (List β × Option γ)) (valid : κ → Prop) (xs : List α) (shown : α → List β)
    (token : Nat → γ) : Prop :=
  ∀ cursor o limit, PointsTo token cursor o → o ≤ xs.length → valid limit →
    ∃ front back, xs.drop o = front ++ back ∧ (xs.drop o ≠ [] → front ≠ []) ∧
      page cursor limit = .ok (front.flatMap shown, if back = [] then none else some (token (o + front.length)))

variable {page : Option γ → κ → Except ε (List β × Option γ)} {valid : κ → Prop} {xs : List α} {shown : α → List β}
  {token : Nat → γ}

/-- One page and then the pages of the remaining elements. -/
theorem Serves.follows_from (h : Serves page valid xs shown token) (ys : List α) {o : Nat} {cursor : Option γ}
    (hdrop : xs.drop o = ys) (ho : o ≤ xs.length) (hc : PointsTo token cursor o) {limits : Nat → κ}
    (hvalid : ∀ i, valid (limits i)) : ∃ n, Follows page cursor ((List.range n).map limits) (ys.flatMap shown) := by
  induction hn : ys.length using Nat.strong_induction_on generalizing ys o cursor limits with
  | _ n ih =>
    obtain ⟨front, back, hsplit, hfront, hpage⟩ := h cursor o (limits 0) hc ho (hvalid 0)
    rw [hdrop] at hsplit hfront
    by_cases hback : back = []
    · refine ⟨1, ?_⟩
      rw [if_pos hback] at hpage
      rw [hsplit, hback, List.append_nil]
      exact .last hpage
    · have hne : ys ≠ [] := fun hys => by simp_all
      have hpos : 0 < front.length := List.length_pos_iff.2 (hfront hne)
      have hlen : ys.length = front.length + back.length := by rw [hsplit, List.length_append]
      have hxs : ys.length = xs.length - o := by rw [← hdrop, List.length_drop]
      have hrest : xs.drop (o + front.length) = back := by
        rw [← List.drop_drop, hdrop, hsplit, List.drop_left]
      have hvalid' : ∀ i, valid ((fun j => limits (j + 1)) i) := fun i => hvalid (i + 1)
      obtain ⟨m, hm⟩ := ih back.length (by omega) back hrest (by omega) (.inr rfl) hvalid' rfl
      refine ⟨m + 1, ?_⟩
      rw [if_neg hback] at hpage
      rw [hsplit, List.flatMap_append, List.range_succ_eq_map, List.map_cons, List.map_map]
      exact .more hpage hm

/-- Whatever valid limits a reader chooses, it reads these items from no cursor to the end. -/
def Complete (page : Option γ → κ → Except ε (List β × Option γ)) (valid : κ → Prop) (items : List β) : Prop :=
  ∀ limits : Nat → κ, (∀ i, valid (limits i)) → ∃ n, Follows page none ((List.range n).map limits) items

theorem Serves.complete (h : Serves page valid xs shown token) : Complete page valid (xs.flatMap shown) :=
  fun _ hvalid => h.follows_from xs rfl (Nat.zero_le _) (.inl ⟨rfl, rfl⟩) hvalid

end CardRag.Paging
