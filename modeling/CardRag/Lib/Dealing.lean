import Mathlib

/-! # Dealing from a hand that is refilled

Each draw has a pool: what is left of the hand and still in the pool is kept, an empty hand is
refilled with the whole pool, and the first of the hand is dealt. Between two refills nothing is
dealt twice, and what stays in the pools until the next refill is dealt; with one pool throughout the
draws go round it. -/

namespace CardRag

variable {α : Type} [BEq α] [LawfulBEq α]

/-- One draw: its pool, what was dealt, and whether the hand was refilled for it. -/
structure Draw (α : Type) where
  pool : List α
  dealt : α
  refilled : Bool
deriving DecidableEq, Repr

/-- What is left of the hand and still in the pool. -/
def kept (hand pool : List α) : List α := hand.filter (· ∈ pool)

/-- The draws are dealt one after the other from the hand. -/
def Deals : List α → List (Draw α) → Prop
  | _, [] => True
  | hand, d :: ds =>
    d.refilled = (kept hand d.pool).isEmpty ∧
    ∃ rest, (if d.refilled = true then d.pool else kept hand d.pool) = d.dealt :: rest ∧ Deals rest ds

theorem mem_kept {hand pool : List α} {x : α} : x ∈ kept hand pool ↔ x ∈ hand ∧ x ∈ pool := by simp [kept]

namespace Deals
variable {hand : List α} {ds seg post : List (Draw α)} {d : Draw α} {x : α}

theorem mem_pool (h : Deals hand ds) (hd : d ∈ ds) : d.dealt ∈ d.pool := by
  induction ds generalizing hand with
  | nil => cases hd
  | cons e ds ih =>
    obtain ⟨-, rest, hhand, hds⟩ := h
    rcases List.mem_cons.1 hd with rfl | hd
    · split at hhand
      · rw [hhand]
        exact List.mem_cons_self
      · have hmem : d.dealt ∈ kept hand d.pool := hhand ▸ List.mem_cons_self
        exact (mem_kept.1 hmem).2
    · exact ih hds hd

/-- The hand after some draws. -/
theorem drop (h : Deals hand (seg ++ post)) (hn : hand.Nodup) (hpool : ∀ d ∈ seg, d.pool.Nodup) :
    ∃ hand', Deals hand' post ∧ hand'.Nodup := by
  induction seg generalizing hand with
  | nil => exact ⟨hand, h, hn⟩
  | cons e seg ih =>
    obtain ⟨-, rest, hhand, hds⟩ := h
    have hcons : (e.dealt :: rest).Nodup := by
      rw [← hhand]
      split
      · exact hpool e (by simp)
      · exact hn.filter _
    exact ih hds (List.nodup_cons.1 hcons).2 fun d hd => hpool d (by simp [hd])

/-- A stretch of draws without a refill deals distinct members of the hand, and keeps what stays in
the pools. -/
theorem stretch (h : Deals hand (seg ++ post)) (hn : hand.Nodup) (hseg : ∀ d ∈ seg, d.refilled = false) :
    ∃ hand', Deals hand' post ∧ (seg.map (·.dealt)).Nodup ∧ (∀ x ∈ seg.map (·.dealt), x ∈ hand) ∧
      ∀ x ∈ hand, (∀ d ∈ seg, x ∈ d.pool) → x ∈ seg.map (·.dealt) ∨ x ∈ hand' := by
  induction seg generalizing hand with
  | nil => exact ⟨hand, h, by simp, by simp, fun x hx _ => .inr hx⟩
  | cons e seg ih =>
    obtain ⟨-, rest, hhand, hds⟩ := h
    rw [hseg e (by simp), if_neg (by simp)] at hhand
    have hcons : (e.dealt :: rest).Nodup := hhand ▸ hn.filter _
    have hmem : ∀ y ∈ e.dealt :: rest, y ∈ hand := by
      intro y hy
      rw [← hhand] at hy
      exact (mem_kept.1 hy).1
    obtain ⟨hand', hpost, hnodup, hfrom, hkept⟩ :=
      ih hds (List.nodup_cons.1 hcons).2 fun d hd => hseg d (by simp [hd])
    refine ⟨hand', hpost, ?_, ?_, fun x hx hall => ?_⟩
    · rw [List.map_cons, List.nodup_cons]
      exact ⟨fun hm => (List.nodup_cons.1 hcons).1 (hfrom _ hm), hnodup⟩
    · rw [List.map_cons, List.forall_mem_cons]
      exact ⟨hmem _ List.mem_cons_self, fun y hy => hmem y (List.mem_cons_of_mem _ (hfrom y hy))⟩
    · have hx' : x ∈ e.dealt :: rest := by
        rw [← hhand]
        exact mem_kept.2 ⟨hx, hall e (by simp)⟩
      rcases List.mem_cons.1 hx' with rfl | hx'
      · exact .inl (by simp)
      · rcases hkept x hx' (fun d hd => hall d (by simp [hd])) with hy | hy
        · exact .inl (by simp only [List.map_cons, List.mem_cons, hy, or_true])
        · exact .inr hy

/-- A cycle: a refill and the draws after it that needed none. -/
theorem cycle {first : Draw α} (h : Deals hand (first :: seg ++ post)) (hfirst : first.refilled = true)
    (hpool : first.pool.Nodup) (hseg : ∀ d ∈ seg, d.refilled = false) :
    ∃ hand', Deals hand' post ∧ ((first :: seg).map (·.dealt)).Nodup ∧
      ∀ x, (∀ d ∈ first :: seg, x ∈ d.pool) → x ∈ (first :: seg).map (·.dealt) ∨ x ∈ hand' := by
  obtain ⟨-, rest, hhand, hds⟩ := h
  rw [if_pos hfirst] at hhand
  obtain ⟨hnot, hrest⟩ := List.nodup_cons.1 (hhand ▸ hpool)
  obtain ⟨hand', hpost, hnodup, hfrom, hkept⟩ := stretch hds hrest hseg
  refine ⟨hand', hpost, ?_, fun x hx => ?_⟩
  · rw [List.map_cons, List.nodup_cons]
    exact ⟨fun hm => hnot (hfrom _ hm), hnodup⟩
  · have hmem := hx first (by simp)
    rw [hhand] at hmem
    rcases List.mem_cons.1 hmem with rfl | hmem
    · exact .inl (by simp)
    · rcases hkept x hmem (fun d hd => hx d (by simp [hd])) with hy | hy
      · exact .inl (by simp only [List.map_cons, List.mem_cons, hy, or_true])
      · exact .inr hy

/-- What stays in the pools through a cycle and in the pool of the draw that refills next is dealt
exactly once. -/
theorem count_cycle {first next : Draw α} (h : Deals hand (first :: seg ++ next :: post)) (hfirst : first.refilled = true)
    (hpool : first.pool.Nodup) (hseg : ∀ d ∈ seg, d.refilled = false) (hnext : next.refilled = true)
    (hx : ∀ d ∈ first :: seg, x ∈ d.pool) (hxn : x ∈ next.pool) : ((first :: seg).map (·.dealt)).count x = 1 := by
  obtain ⟨hand', ⟨hrefill, -⟩, hnodup, hkept⟩ := h.cycle hfirst hpool hseg
  refine List.count_eq_one_of_mem hnodup ?_
  rcases hkept x hx with hm | hm
  · exact hm
  · have hempty : kept hand' next.pool = [] := List.isEmpty_iff.1 (hrefill.symm.trans hnext)
    have hmem : x ∈ kept hand' next.pool := mem_kept.2 ⟨hm, hxn⟩
    rw [hempty] at hmem
    cases hmem

/-- With one pool throughout, the draws go round it. -/
theorem getElem_constant {pool : List α} {j : Nat} (hj : j ≤ pool.length) (h : Deals (pool.drop j) ds)
    (hpool : ∀ d ∈ ds, d.pool = pool) {i : Nat} {d : Draw α} (hd : ds[i]? = some d) :
    pool[(j + i) % pool.length]? = some d.dealt := by
  induction ds generalizing j i with
  | nil => simp at hd
  | cons e ds ih =>
    obtain ⟨hrefill, rest, hhand, hds⟩ := h
    have hself : kept (pool.drop j) e.pool = pool.drop j := by
      rw [hpool e (by simp)]
      exact List.filter_eq_self.2 fun a ha => by simpa using List.mem_of_mem_drop ha
    rw [hself] at hrefill hhand
    simp only [hrefill, List.isEmpty_iff, hpool e (by simp)] at hhand
    have hlater : ∀ d ∈ ds, d.pool = pool := fun d hd => hpool d (by simp [hd])
    -- the hand is the pool from some place on, or the whole pool after the last place
    obtain ⟨m, hm, hmod, hdrop⟩ : ∃ m, m < pool.length ∧ m = j % pool.length ∧ pool.drop m = e.dealt :: rest := by
      by_cases hend : pool.drop j = []
      · rw [if_pos hend] at hhand
        have hjl : j = pool.length := le_antisymm hj (List.drop_eq_nil_iff.1 hend)
        refine ⟨0, ?_, ?_, by rw [List.drop_zero]; exact hhand⟩
        · rw [hhand]
          simp
        · rw [hjl, Nat.mod_self]
      · rw [if_neg hend] at hhand
        have hlt : j < pool.length := by
          rw [List.drop_eq_nil_iff] at hend
          omega
        exact ⟨j, hlt, (Nat.mod_eq_of_lt hlt).symm, hhand⟩
    cases i with
    | zero =>
      rw [List.getElem?_cons_zero, Option.some.injEq] at hd
      subst hd
      have hget : (pool.drop m)[0]? = some e.dealt := by rw [hdrop]; rfl
      rw [List.getElem?_drop] at hget
      rw [Nat.add_zero, ← hmod]
      simpa using hget
    | succ i =>
      rw [List.getElem?_cons_succ] at hd
      have hrest : pool.drop (m + 1) = rest := by
        rw [← List.drop_drop, hdrop]
        rfl
      rw [← hrest] at hds
      have hnext := ih (by omega) hds hlater hd
      have hindex : (j + (i + 1)) % pool.length = (m + 1 + i) % pool.length := by
        rw [hmod, Nat.add_assoc, Nat.add_comm 1 i, Nat.mod_add_mod]
      rw [hindex]
      exact hnext

/-- Every window of the pool's length deals the pool, from the place that was reached. -/
theorem window_constant {pool : List α} {k : Nat} (h : Deals [] ds) (hpool : ∀ d ∈ ds, d.pool = pool)
    (hk : k + pool.length ≤ ds.length) : ((ds.drop k).take pool.length).map (·.dealt) = pool.rotate k := by
  have hstart : Deals (pool.drop pool.length) ds := by simpa using h
  refine List.ext_getElem? fun i => ?_
  by_cases hi : i < pool.length
  · obtain ⟨d, hd⟩ : ∃ d, ds[k + i]? = some d := ⟨_, List.getElem?_eq_getElem (by omega)⟩
    have hget := getElem_constant le_rfl hstart hpool hd
    rw [List.getElem?_map, List.getElem?_take_of_lt hi, List.getElem?_drop, hd, List.getElem?_rotate hi, Option.map_some,
      ← hget]
    congr 1
    rw [Nat.add_mod_left, Nat.add_comm]
  · rw [List.getElem?_eq_none (by simp; omega), List.getElem?_eq_none (by simp; omega)]

end Deals

end CardRag
