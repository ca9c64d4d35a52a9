import CardRag.Lib.Bitmap

/-! # Tilings

Two ways to check that spans tile the pages of a bitmap: marking their cells, and a sweep over the spans of a
page in order. Marking succeeds where no two spans of a page overlap; a sweep that ends at the length of the
page has seen no overlap and no gap. -/

namespace CardRag

namespace Tiling

variable {ε κ : Type}

/-- The spans of one page do not overlap. -/
def Apart (s t : Nat × Nat) : Prop := s.2 ≤ t.1 ∨ t.2 ≤ s.1

theorem Apart.symm {s t : Nat × Nat} (h : Apart s t) : Apart t s := Or.symm h

/-- The spans of every page do not overlap. -/
def ApartOn (s t : κ × Nat × Nat) : Prop := s.1 = t.1 → Apart s.2 t.2

theorem ApartOn.symm {s t : κ × Nat × Nat} (h : ApartOn s t) : ApartOn t s := fun heq => (h heq.symm).symm

def cellsOf (s : κ × Nat × Nat) : List (κ × Nat) := Bitmap.cells s.1 s.2.1 s.2.2

theorem mem_cellsOf {s : κ × Nat × Nat} {c : κ × Nat} : c ∈ cellsOf s ↔ c.1 = s.1 ∧ s.2.1 ≤ c.2 ∧ c.2 < s.2.2 :=
  Bitmap.mem_cells

theorem nodup_cellsOf {spans : List (κ × Nat × Nat)} (hne : ∀ s ∈ spans, s.2.1 < s.2.2) :
    (spans.flatMap cellsOf).Nodup ↔ spans.Pairwise ApartOn := by
  rw [List.nodup_flatMap]
  constructor
  · rintro ⟨-, hdis⟩
    refine hdis.imp_of_mem fun {s t} hs ht h heq => ?_
    have hs := hne s hs
    have ht := hne t ht
    by_contra hno
    simp only [Apart, not_or] at hno
    -- both hold the later of their starts
    refine h (a := (s.1, max s.2.1 t.2.1)) (mem_cellsOf.2 ⟨rfl, ?_, ?_⟩) (mem_cellsOf.2 ⟨heq, ?_, ?_⟩) <;>
      dsimp only <;> omega
  · intro h
    refine ⟨fun s _ => Bitmap.nodup_cells _ _ _, h.imp fun {s t} hst c hs ht => ?_⟩
    obtain ⟨hsk, hs⟩ := mem_cellsOf.1 hs
    obtain ⟨htk, ht⟩ := mem_cellsOf.1 ht
    have hapart := hst (hsk.symm.trans htk)
    unfold Apart at hapart
    omega

section
variable [DecidableEq κ]

/-- No overlap, page by page. -/
theorem pairwise_apartOn_iff {spans : List (κ × Nat × Nat)} :
    spans.Pairwise ApartOn ↔ ∀ k, ((spans.filter (·.1 = k)).map (·.2)).Pairwise Apart := by
  constructor
  · intro h k
    rw [List.pairwise_map]
    refine (h.filter _).imp_of_mem fun {s t} hs ht hst => hst ?_
    have hs := of_decide_eq_true (List.mem_filter.1 hs).2
    have ht := of_decide_eq_true (List.mem_filter.1 ht).2
    exact hs.trans ht.symm
  · intro h
    induction spans with
    | nil => exact List.Pairwise.nil
    | cons s spans ih =>
      refine List.pairwise_cons.2 ⟨fun t ht heq => ?_, ih fun k => ?_⟩
      · have hs := h s.1
        rw [List.filter_cons_of_pos (by simp), List.map_cons, List.pairwise_cons] at hs
        exact hs.1 t.2 (List.mem_map_of_mem (List.mem_filter.2 ⟨ht, decide_eq_true heq.symm⟩))
      · have hk := h k
        by_cases hsk : s.1 = k
        · rw [List.filter_cons_of_pos (by simpa using hsk), List.map_cons, List.pairwise_cons] at hk
          exact hk.2
        · rwa [List.filter_cons_of_neg (by simpa using hsk)] at hk

theorem marks_iff {e : ε} {spans : List (κ × Nat × Nat)} {m : κ → List Bool} (hne : ∀ s ∈ spans, s.2.1 < s.2.2)
    (hb : ∀ s ∈ spans, s.2.2 ≤ (m s.1).length) (hclear : ∀ c, Bitmap.bit m c = false) :
    (∃ m', (spans.flatMap cellsOf).foldlM (Bitmap.mark e) m = .ok m') ↔ spans.Pairwise ApartOn := by
  rw [Bitmap.foldlM_mark_eq_ok, nodup_cellsOf hne]
  · exact and_iff_left fun c _ => hclear c
  · intro c hc
    obtain ⟨s, hs, hcs⟩ := List.mem_flatMap.1 hc
    obtain ⟨hk, -, hlt⟩ := mem_cellsOf.1 hcs
    rw [hk]
    exact hlt.trans_le (hb s hs)

/-- The marked cells are those of the spans. -/
theorem bit_marks {e : ε} {spans : List (κ × Nat × Nat)} {m m' : κ → List Bool}
    (hb : ∀ s ∈ spans, s.2.2 ≤ (m s.1).length) (hclear : ∀ c, Bitmap.bit m c = false)
    (h : (spans.flatMap cellsOf).foldlM (Bitmap.mark e) m = .ok m') {c : κ × Nat} :
    Bitmap.bit m' c = true ↔ ∃ s ∈ spans, c.1 = s.1 ∧ s.2.1 ≤ c.2 ∧ c.2 < s.2.2 := by
  rw [Bitmap.bit_of_foldlM_mark _ h, hclear, Bool.or_false, decide_eq_true_eq, List.mem_flatMap]
  · exact exists_congr fun s => and_congr_right fun _ => mem_cellsOf
  · intro c hc
    obtain ⟨s, hs, hcs⟩ := List.mem_flatMap.1 hc
    obtain ⟨hk, -, hlt⟩ := mem_cellsOf.1 hcs
    rw [hk]
    exact hlt.trans_le (hb s hs)

end

/-- A sweep over spans in order, from where the last one ended. -/
def sweep (gap overlap : ε) : Nat → List (Nat × Nat) → Except ε Nat
  | current, [] => .ok current
  | current, (start, stop) :: spans => do
    raiseIf (start < current) overlap
    raiseIf (current < start) gap
    raiseIf (stop ≤ start) overlap
    sweep gap overlap stop spans

/-- A sweep ends at `length` when the spans tile what is between. -/
theorem sweep_eq_ok {gap overlap : ε} {spans : List (Nat × Nat)} {current length : Nat}
    (hsorted : spans.Pairwise fun s t => s.1 ≤ t.1) (hin : ∀ s ∈ spans, s.1 < s.2 ∧ s.2 ≤ length)
    (hle : current ≤ length) : sweep gap overlap current spans = .ok length ↔
      (∀ s ∈ spans, current ≤ s.1) ∧ spans.Pairwise Apart ∧
        ∀ i, current ≤ i → i < length → ∃ s ∈ spans, s.1 ≤ i ∧ i < s.2 := by
  induction spans generalizing current with
  | nil =>
    simp only [sweep, Except.ok.injEq, List.not_mem_nil, false_and, exists_false, List.Pairwise.nil, true_and,
      IsEmpty.forall_iff, implies_true, imp_false, not_lt]
    exact ⟨fun h i hi => h ▸ hi, fun h => le_antisymm hle (h current le_rfl)⟩
  | cons s spans ih =>
    obtain ⟨hfirst, hafterwards⟩ := List.pairwise_cons.1 hsorted
    obtain ⟨start, stop⟩ := s
    have hs := hin (start, stop) List.mem_cons_self
    have hrest : ∀ t ∈ spans, t.1 < t.2 ∧ t.2 ≤ length := fun t ht => hin t (List.mem_cons_of_mem _ ht)
    have hstep := ih hafterwards hrest hs.2
    simp only [sweep, Guard.bind_eq_ok, raiseIf_eq_ok, Guard.exists_unit, hstep, List.pairwise_cons,
      List.forall_mem_cons]
    dsimp only at hs hfirst
    constructor
    · rintro ⟨hge, hgap, -, hafter, hpair, hcover⟩
      refine ⟨⟨by omega, fun t ht => by have := hafter t ht; omega⟩, ⟨fun t ht => .inl (hafter t ht), hpair⟩, ?_⟩
      intro i hi hlt
      by_cases hstop : i < stop
      · exact ⟨(start, stop), List.mem_cons_self, by dsimp only; omega, hstop⟩
      · obtain ⟨t, ht, hit⟩ := hcover i (by omega) hlt
        exact ⟨t, List.mem_cons_of_mem _ ht, hit⟩
    · rintro ⟨⟨hge, -⟩, ⟨hapart, hpair⟩, hcover⟩
      have hafter : ∀ t ∈ spans, stop ≤ t.1 := by
        intro t ht
        have h1 := hapart t ht
        have h2 := hfirst t ht
        have h3 := (hrest t ht).1
        unfold Apart at h1
        dsimp only at h1
        omega
      refine ⟨by omega, ?_, by omega, hafter, hpair, fun i hi hlt => ?_⟩
      · -- the span that covers `current` starts no later than this one
        intro hgap
        obtain ⟨t, ht, hit⟩ := hcover current le_rfl (by omega)
        rcases List.mem_cons.1 ht with rfl | ht
        · dsimp only at hit
          omega
        · have := hfirst t ht
          omega
      · obtain ⟨t, ht, hit⟩ := hcover i (by omega) hlt
        rcases List.mem_cons.1 ht with rfl | ht
        · dsimp only at hit
          omega
        · exact ⟨t, ht, hit⟩

end Tiling

end CardRag
