import Mathlib

/-! # Runs of a step function

A run is the list of what was done to a state. `Along step P s os` says `P` of every step of the run
`os` from `s`: of the state before, what is done there, and the state after. -/

namespace CardRag

variable {σ ω : Type}

/-- The state a run ends in. -/
def runFrom (step : σ → ω → σ) (s : σ) (os : List ω) : σ := os.foldl step s

def Along (step : σ → ω → σ) (P : σ → ω → σ → Prop) : σ → List ω → Prop
  | _, [] => True
  | s, o :: os => P s o (step s o) ∧ Along step P (step s o) os

instance Along.decidable (step : σ → ω → σ) (P : σ → ω → σ → Prop) [h : ∀ s o s', Decidable (P s o s')] :
    (s : σ) → (os : List ω) → Decidable (Along step P s os)
  | _, [] => isTrue trivial
  | s, o :: os => @instDecidableAnd _ _ (h s o (step s o)) (Along.decidable step P (step s o) os)

namespace Along

variable {step : σ → ω → σ} {I : σ → Prop} {C P : σ → ω → σ → Prop}

/-- The invariant rule: steps that meet `C` keep `I`, and do `P` where it holds. -/
theorem of_inv (hstep : ∀ s o, I s → C s o (step s o) → I (step s o) ∧ P s o (step s o)) {s : σ} {os : List ω}
    (hs : I s) (hC : Along step C s os) : Along step P s os ∧ I (runFrom step s os) := by
  induction os generalizing s with
  | nil => exact ⟨trivial, hs⟩
  | cons o os ih =>
    obtain ⟨hinv, hP⟩ := hstep s o hs hC.1
    obtain ⟨hrest, hend⟩ := ih hinv hC.2
    exact ⟨⟨hP, hrest⟩, hend⟩

/-- Where every step keeps `I`, no run needs a condition. -/
theorem of_step (hstep : ∀ s o, I s → I (step s o) ∧ P s o (step s o)) {s : σ} (hs : I s) (os : List ω) :
    Along step P s os ∧ I (runFrom step s os) := by
  induction os generalizing s with
  | nil => exact ⟨trivial, hs⟩
  | cons o os ih =>
    obtain ⟨hinv, hP⟩ := hstep s o hs
    obtain ⟨hrest, hend⟩ := ih hinv
    exact ⟨⟨hP, hrest⟩, hend⟩

/-- Two properties that agree on every step from a state of the invariant agree on every run. -/
theorem congr (hstep : ∀ s o, I s → I (step s o)) (h : ∀ s o, I s → (P s o (step s o) ↔ C s o (step s o)))
    {s : σ} (hs : I s) (os : List ω) : Along step P s os ↔ Along step C s os := by
  induction os generalizing s with
  | nil => exact Iff.rfl
  | cons o os ih => exact and_congr (h s o hs) (ih (hstep s o hs))

/-- Where a step with `C` keeps `I`, and `P` and `C` agree from it, a run does `P` exactly where it meets `C`. -/
theorem iff_of_inv (hstep : ∀ s o, I s → (P s o (step s o) ↔ C s o (step s o)) ∧ (C s o (step s o) → I (step s o)))
    {s : σ} (hs : I s) (os : List ω) : Along step P s os ↔ Along step C s os := by
  induction os generalizing s with
  | nil => exact Iff.rfl
  | cons o os ih =>
    obtain ⟨hiff, hinv⟩ := hstep s o hs
    exact ⟨fun h => ⟨hiff.1 h.1, (ih (hinv (hiff.1 h.1))).1 h.2⟩, fun h => ⟨hiff.2 h.1, (ih (hinv h.1)).2 h.2⟩⟩

theorem and {s : σ} {os : List ω} (hP : Along step P s os) (hC : Along step C s os) :
    Along step (fun s o s' => P s o s' ∧ C s o s') s os := by
  induction os generalizing s with
  | nil => exact trivial
  | cons o os ih => exact ⟨⟨hP.1, hC.1⟩, ih hP.2 hC.2⟩

theorem last {s : σ} {os : List ω} {o : ω} (h : Along step P s (os ++ [o])) :
    P (runFrom step s os) o (runFrom step s (os ++ [o])) := by
  induction os generalizing s with
  | nil => exact h.1
  | cons o' os ih => exact ih h.2

end Along

/-- Something happened with `P`, and nothing with `stop` after it. The newest is first. -/
def Since (P stop : ω → Prop) : List ω → Prop
  | [] => False
  | e :: log => P e ∨ ¬ stop e ∧ Since P stop log

namespace Since

variable {P P' stop stop' : ω → Prop} {e : ω} {log : List ω}

theorem now (h : P e) : Since P stop (e :: log) := .inl h

theorem cons (he : ¬ stop e) (h : Since P stop log) : Since P stop (e :: log) := .inr ⟨he, h⟩

theorem mono (hP : ∀ e, P e → P' e) (hstop : ∀ e, stop' e → stop e) (h : Since P stop log) : Since P' stop' log := by
  induction log with
  | nil => exact h
  | cons e log ih =>
    rcases h with h | ⟨hs, h⟩
    · exact now (hP e h)
    · exact cons (fun h => hs (hstop e h)) (ih h)

theorem exists_mem (h : Since P stop log) : ∃ e ∈ log, P e := by
  induction log with
  | nil => exact h.elim
  | cons e log ih =>
    rcases h with h | ⟨-, h⟩
    · exact ⟨e, by simp, h⟩
    · obtain ⟨e', hmem, hP⟩ := ih h
      exact ⟨e', by simp [hmem], hP⟩

end Since

end CardRag
