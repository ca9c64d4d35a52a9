import CardRag.Lib.Guard

/-! # Coverage bitmaps

A coverage check keeps one list of flags per page, marks the cells of one span after another and
raises at a cell that is marked already. A cell is a page key with an offset. Marking succeeds
exactly when no cell comes twice, and afterwards the marked cells are those of the spans. -/

namespace CardRag

namespace Bitmap

variable {ε κ : Type}

def bit (m : κ → List Bool) (c : κ × Nat) : Bool := (m c.1).getD c.2 false

/-- `if m[k][i]: raise e` and `m[k][i] = True`. -/
def mark [DecidableEq κ] (e : ε) (m : κ → List Bool) (c : κ × Nat) : Except ε (κ → List Bool) := do
  raiseIf (bit m c = true) e
  pure (Function.update m c.1 ((m c.1).set c.2 true))

/-- The cells of `range(start, stop)` on one page. -/
def cells (k : κ) (start stop : Nat) : List (κ × Nat) := (List.range' start (stop - start)).map (k, ·)

theorem mem_cells {k : κ} {start stop : Nat} {c : κ × Nat} :
    c ∈ cells k start stop ↔ c.1 = k ∧ start ≤ c.2 ∧ c.2 < stop := by
  simp only [cells, List.mem_map, List.mem_range'_1]
  constructor
  · rintro ⟨i, ⟨h1, h2⟩, rfl⟩; exact ⟨rfl, h1, by show i < stop; omega⟩
  · rintro ⟨rfl, h1, h2⟩; exact ⟨c.2, ⟨h1, by omega⟩, rfl⟩

theorem nodup_cells (k : κ) (start stop : Nat) : (cells k start stop).Nodup :=
  (List.nodup_range' 1).map fun _ _ h => (Prod.mk.inj h).2

section
variable [DecidableEq κ]

theorem mark_eq_ok {e : ε} {m m' : κ → List Bool} {c : κ × Nat} :
    mark e m c = .ok m' ↔ bit m c = false ∧ Function.update m c.1 ((m c.1).set c.2 true) = m' := by
  simp [mark]

theorem length_mark {m : κ → List Bool} {c : κ × Nat} (k : κ) :
    (Function.update m c.1 ((m c.1).set c.2 true) k).length = (m k).length := by
  by_cases hk : k = c.1
  · subst hk; simp
  · simp [hk]

theorem bit_mark {m : κ → List Bool} {c : κ × Nat} (hc : c.2 < (m c.1).length) (d : κ × Nat) :
    bit (Function.update m c.1 ((m c.1).set c.2 true)) d = (decide (d = c) || bit m d) := by
  obtain ⟨k, i⟩ := c
  obtain ⟨k', i'⟩ := d
  dsimp only at hc
  by_cases hk : k' = k
  · subst hk
    by_cases hi : i' = i
    · subst hi
      simp [bit, List.getD_eq_getElem?_getD, hc]
    · simp [bit, List.getD_eq_getElem?_getD, hi, Ne.symm hi]
  · simp [bit, hk]

/-- Marking a list of cells, read as a whole. -/
theorem foldlM_mark_eq_ok {e : ε} {cs : List (κ × Nat)} {m : κ → List Bool}
    (hb : ∀ c ∈ cs, c.2 < (m c.1).length) :
    (∃ m', cs.foldlM (mark e) m = .ok m') ↔ cs.Nodup ∧ ∀ c ∈ cs, bit m c = false := by
  induction cs generalizing m with
  | nil => simp
  | cons c cs ih =>
    have hc := hb c (by simp)
    simp only [List.foldlM_cons, Guard.bind_eq_ok, mark_eq_ok]
    have step := ih (m := Function.update m c.1 ((m c.1).set c.2 true)) fun d hd => by
      rw [length_mark]; exact hb d (by simp [hd])
    constructor
    · rintro ⟨m', m₁, ⟨hfresh, rfl⟩, h⟩
      obtain ⟨hn, hall⟩ := step.1 ⟨m', h⟩
      have hrest : ∀ d ∈ cs, d ≠ c ∧ bit m d = false := fun d hd => by
        have := hall d hd; rw [bit_mark hc] at this; simpa using this
      refine ⟨List.nodup_cons.2 ⟨fun h => (hrest c h).1 rfl, hn⟩, fun d hd => ?_⟩
      rcases List.mem_cons.1 hd with rfl | hd
      · exact hfresh
      · exact (hrest d hd).2
    · rintro ⟨hn, hall⟩
      obtain ⟨hcn, hn⟩ := List.nodup_cons.1 hn
      obtain ⟨m', h⟩ := step.2 ⟨hn, fun d hd => by
        rw [bit_mark hc, hall d (by simp [hd])]
        simp; rintro rfl; exact hcn hd⟩
      exact ⟨m', _, ⟨hall c (by simp), rfl⟩, h⟩

theorem length_of_foldlM_mark {e : ε} {cs : List (κ × Nat)} {m m' : κ → List Bool}
    (h : cs.foldlM (mark e) m = .ok m') (k : κ) : (m' k).length = (m k).length :=
  Guard.foldlM_inv (fun s => (s k).length = (m k).length)
    (fun s c s' hs hk => by rw [← (mark_eq_ok.1 hs).2, length_mark, hk]) h rfl

theorem bit_of_foldlM_mark {e : ε} {cs : List (κ × Nat)} {m m' : κ → List Bool}
    (hb : ∀ c ∈ cs, c.2 < (m c.1).length) (h : cs.foldlM (mark e) m = .ok m') (d : κ × Nat) :
    bit m' d = (decide (d ∈ cs) || bit m d) := by
  induction cs generalizing m with
  | nil => simp only [List.foldlM_nil, Guard.pure_eq_ok] at h; simp [h]
  | cons c cs ih =>
    simp only [List.foldlM_cons, Guard.bind_eq_ok, mark_eq_ok] at h
    obtain ⟨m₁, ⟨-, rfl⟩, h⟩ := h
    rw [ih (fun d hd => by rw [length_mark]; exact hb d (by simp [hd])) h, bit_mark (hb c (by simp))]
    by_cases hd : d ∈ cs <;> by_cases hdc : d = c <;> simp [hd, hdc]

end

/-- `any(not flag for flag in m[k])` fails exactly when every offset of the page is marked. -/
theorem any_not_eq_false_iff {m : κ → List Bool} {k : κ} :
    (m k).any (!·) = false ↔ ∀ i < (m k).length, bit m (k, i) = true := by
  simp only [List.any_eq_false, Bool.not_eq_true', Bool.not_eq_false, bit]
  constructor
  · intro h i hi
    rw [List.getD_eq_getElem _ _ hi]
    exact h _ (List.getElem_mem hi)
  · intro h b hb
    obtain ⟨i, hi, rfl⟩ := List.getElem_of_mem hb
    have := h i hi
    rwa [List.getD_eq_getElem _ _ hi] at this

end Bitmap

end CardRag
