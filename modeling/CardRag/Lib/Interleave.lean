import Mathlib

/-! # Programs that share a world

A program makes calls whose replies it does not control, and the calls of several programs interleave.
`Wp` is the rely-guarantee reading of one program: between two of its calls the others may change the
world as they guarantee, and each of its own calls keeps its guarantee. Programs that meet it alone meet
it together (`Wp.reachable`). -/

namespace CardRag.Interleave

/-- A program over calls `ω` with replies `ρ`. -/
inductive Prog (ω ρ α : Type) where
  | done (a : α)
  | call (op : ω) (k : ρ → Prog ω ρ α)

namespace Prog
variable {ω ρ α β : Type}

protected def bind : Prog ω ρ α → (α → Prog ω ρ β) → Prog ω ρ β
  | done a, f => f a
  | call op k, f => call op fun r => (k r).bind f

instance : Monad (Prog ω ρ) where
  pure := done
  bind := Prog.bind

/-- One call. -/
def ask (op : ω) : Prog ω ρ ρ := call op done

end Prog

variable {ω ρ α β W ι : Type}

/-- What is shared, and what is left of each program. -/
structure Config (ω ρ α W ι : Type) where
  world : W
  progs : ι → Prog ω ρ α

section
variable [DecidableEq ι] (serve : ι → W → ω → ρ → W → Prop)

/-- One of the programs makes its next call. -/
inductive Step : Config ω ρ α W ι → Config ω ρ α W ι → Prop where
  | call {c : Config ω ρ α W ι} (i : ι) {op : ω} {k : ρ → Prog ω ρ α} {r : ρ} {w : W} (hi : c.progs i = .call op k)
      (hw : serve i c.world op r w) : Step c ⟨w, Function.update c.progs i (k r)⟩

/-- Any interleaving. -/
abbrev Reaches : Config ω ρ α W ι → Config ω ρ α W ι → Prop := Relation.ReflTransGen (Step serve)

end

section
variable (serve : ι → W → ω → ρ → W → Prop) (G : ι → W → W → Prop)

/-- What the other programs may do meanwhile. -/
abbrev Rely (i : ι) : W → W → Prop := Relation.ReflTransGen fun a b => ∃ j, j ≠ i ∧ G j a b

/-- The program keeps its guarantee and ends with `Q`, whatever the others do. -/
def Wp (i : ι) : Prog ω ρ α → (α → W → Prop) → W → Prop
  | .done a, Q, w => ∀ w', Rely G i w w' → Q a w'
  | .call op k, Q, w => ∀ w', Rely G i w w' → ∀ r w'', serve i w' op r w'' → G i w' w'' ∧ Wp i (k r) Q w''

end

namespace Wp
variable {serve : ι → W → ω → ρ → W → Prop} {G : ι → W → W → Prop} {i : ι} {w w' : W}

/-- What the others do does not undo it. -/
theorem rely {p : Prog ω ρ α} {Q : α → W → Prop} (h : Wp serve G i p Q w) (hw : Rely G i w w') :
    Wp serve G i p Q w' := by
  cases p with
  | done a => exact fun w'' hw'' => h w'' (hw.trans hw'')
  | call op k => exact fun w'' hw'' => h w'' (hw.trans hw'')

theorem mono {p : Prog ω ρ α} {Q Q' : α → W → Prop} (h : Wp serve G i p Q w) (hQ : ∀ a w, Q a w → Q' a w) :
    Wp serve G i p Q' w := by
  induction p generalizing w with
  | done a => exact fun w' hw' => hQ a w' (h w' hw')
  | call op k ih =>
    intro w' hw' r w'' hserve
    obtain ⟨hG, hk⟩ := h w' hw' r w'' hserve
    exact ⟨hG, ih r hk⟩

theorem bind {p : Prog ω ρ α} {f : α → Prog ω ρ β} {Q : β → W → Prop}
    (h : Wp serve G i p (fun a w => Wp serve G i (f a) Q w) w) : Wp serve G i (p >>= f) Q w := by
  induction p generalizing w with
  | done a => exact h w .refl
  | call op k ih =>
    intro w' hw' r w'' hserve
    obtain ⟨hG, hk⟩ := h w' hw' r w'' hserve
    exact ⟨hG, ih r hk⟩

theorem result {a : α} {Q : α → W → Prop} (h : Wp serve G i (.done a : Prog ω ρ α) Q w) : Q a w := h w .refl

variable [DecidableEq ι]

/-- The programs of a reachable configuration are still good, and the world has changed only as they
guarantee. -/
theorem reachable {c c' : Config ω ρ α W ι} {Q : ι → α → W → Prop} (h : ∀ i, Wp serve G i (c.progs i) (Q i) c.world)
    (hc : Reaches serve c c') :
    (∀ i, Wp serve G i (c'.progs i) (Q i) c'.world) ∧
      Relation.ReflTransGen (fun a b => ∃ j, G j a b) c.world c'.world := by
  induction hc with
  | refl => exact ⟨h, .refl⟩
  | @tail c₁ c₂ _ hstep ih =>
    obtain ⟨hwp, hG⟩ := ih
    cases hstep with
    | @call i op k r w hi hserve =>
      have hcall := hwp i
      rw [hi] at hcall
      obtain ⟨hg, hk⟩ := hcall c₁.world .refl r w hserve
      refine ⟨fun j => ?_, hG.tail ⟨i, hg⟩⟩
      dsimp only
      by_cases hj : j = i
      · subst hj
        rw [Function.update_self]
        exact hk
      · rw [Function.update_of_ne hj]
        exact (hwp j).rely (.single ⟨i, Ne.symm hj, hg⟩)

end Wp

/-! ### Programs that raise -/

section
variable {ε : Type} (serve : ι → W → ω → ρ → W → Prop) (G : ι → W → W → Prop) (i : ι)

/-- From `P` the program returns with `Q` or raises with `E`. -/
def Ends (P : W → Prop) (p : ExceptT ε (Prog ω ρ) α) (Q : α → W → Prop) (E : ε → W → Prop) : Prop :=
  ∀ w, P w → Wp serve G i p.run (fun r w => match r with | .ok a => Q a w | .error e => E e w) w

/-- The others do not undo `P`. -/
def Stable (P : W → Prop) : Prop := ∀ w w', P w → Rely G i w w' → P w'

end

section
variable {ε : Type} {serve : ι → W → ω → ρ → W → Prop} {G : ι → W → W → Prop} {i : ι}

theorem Stable.of_step {P : W → Prop} (h : ∀ j w w', j ≠ i → G j w w' → P w → P w') : Stable G i P := by
  intro w w' hP hw
  induction hw with
  | refl => exact hP
  | tail _ hstep ih =>
    obtain ⟨j, hj, hG⟩ := hstep
    exact h j _ _ hj hG ih

theorem Stable.and {P P' : W → Prop} (h : Stable G i P) (h' : Stable G i P') : Stable G i fun w => P w ∧ P' w :=
  fun w w' hP hw => ⟨h w w' hP.1 hw, h' w w' hP.2 hw⟩

namespace Ends
variable {P P' : W → Prop} {Q Q' : α → W → Prop} {E F : ε → W → Prop} {p : ExceptT ε (Prog ω ρ) α}

theorem conseq (h : Ends serve G i P' p Q' F) (hP : ∀ w, P w → P' w) (hQ : ∀ a w, Q' a w → Q a w)
    (hE : ∀ e w, F e w → E e w) : Ends serve G i P p Q E := by
  intro w hw
  refine (h w (hP w hw)).mono fun r w' hr => ?_
  cases r with
  | ok a => exact hQ a w' hr
  | error e => exact hE e w' hr

theorem pure {a : α} (hQ : ∀ w, P w → Q a w) (hs : Stable G i (Q a)) :
    Ends serve G i P (Pure.pure a : ExceptT ε (Prog ω ρ) α) Q E :=
  fun w hw w' hw' => hs w w' (hQ w hw) hw'

theorem throw {e : ε} (hE : ∀ w, P w → E e w) (hs : Stable G i (E e)) :
    Ends serve G i P (MonadExcept.throw e : ExceptT ε (Prog ω ρ) α) Q E :=
  fun w hw w' hw' => hs w w' (hE w hw) hw'

theorem bind {f : α → ExceptT ε (Prog ω ρ) β} {R : β → W → Prop} (h : Ends serve G i P p Q E)
    (hf : ∀ a, Ends serve G i (Q a) (f a) R E) (hs : ∀ e, Stable G i (E e)) : Ends serve G i P (p >>= f) R E := by
  intro w hw
  refine Wp.bind ((h w hw).mono fun r w' hr => ?_)
  cases r with
  | ok a => exact hf a w' hr
  | error e => exact fun w'' hw'' => hs e w' w'' hr hw''

theorem tryCatch {f : ε → ExceptT ε (Prog ω ρ) α} (h : Ends serve G i P p Q F)
    (hf : ∀ e, Ends serve G i (F e) (f e) Q E) (hs : ∀ a, Stable G i (Q a)) :
    Ends serve G i P (MonadExcept.tryCatch p f) Q E := by
  intro w hw
  refine Wp.bind ((h w hw).mono fun r w' hr => ?_)
  cases r with
  | ok a => exact fun w'' hw'' => hs a w' w'' hr hw''
  | error e => exact hf e w' hr

/-- One call: what the world was when it is made, and what it is after any reply. -/
theorem ask {op : ω} {Q : ρ → W → Prop} (hP : Stable G i P)
    (h : ∀ w r w', P w → serve i w op r w' → G i w w' ∧ Q r w') (hs : ∀ r, Stable G i (Q r)) :
    Ends serve G i P (ExceptT.lift (Prog.ask op) : ExceptT ε (Prog ω ρ) ρ) Q E := by
  intro w hw w' hw' r w'' hserve
  obtain ⟨hG, hQ⟩ := h w' r w'' (hP w w' hw hw') hserve
  exact ⟨hG, fun w₃ hw₃ => hs r w'' w₃ hQ hw₃⟩

end Ends

end

/-! ### Schedules -/

section
variable [DecidableEq ι] {serve : ι → W → ω → ρ → W → Prop} (answer : ι → W → ω → ρ × W)

/-- The next call of a program, with its answer. -/
def Config.turn (c : Config ω ρ α W ι) (i : ι) : Config ω ρ α W ι :=
  match c.progs i with
  | .done _ => c
  | .call op k => ⟨(answer i c.world op).2, Function.update c.progs i (k (answer i c.world op).1)⟩

/-- The turns of a schedule, with the answers of a server. -/
def Config.turns (c : Config ω ρ α W ι) (schedule : List ι) : Config ω ρ α W ι := schedule.foldl (Config.turn answer) c

variable {answer}

theorem reaches_turns (h : ∀ i w op, serve i w op (answer i w op).1 (answer i w op).2) (c : Config ω ρ α W ι)
    (schedule : List ι) : Reaches serve c (c.turns answer schedule) := by
  induction schedule generalizing c with
  | nil => exact .refl
  | cons i schedule ih =>
    refine .trans ?_ (ih (c.turn answer i))
    unfold Config.turn
    split
    · exact .refl
    · rename_i op k hi
      exact .single (.call i hi (h i c.world op))

end

end CardRag.Interleave
