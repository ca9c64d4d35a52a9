import Mathlib

/-! # Programs with effects

A program reads a state and changes it by effects, one after the other; a raise leaves the effects before it.
`Ends` says what holds when it stops, and what holds besides when it returns. -/

namespace CardRag

/-- What one effect does to the state. -/
class Effects (σ : Type) (ω : outParam Type) where
  apply : σ → ω → σ

/-- The effects of a program from a state, and its result. -/
def Program (σ ω ε α : Type) := σ → List ω × Except ε α

namespace Program

variable {σ ω ε α β : Type} [Effects σ ω]

/-- The state after effects. -/
def after (s : σ) (es : List ω) : σ := es.foldl Effects.apply s

protected def pure (a : α) : Program σ ω ε α := fun _ => ([], .ok a)

protected def bind (x : Program σ ω ε α) (f : α → Program σ ω ε β) : Program σ ω ε β := fun s =>
  match x s with
  | (es, .ok a) => (es ++ (f a (after s es)).1, (f a (after s es)).2)
  | (es, .error e) => (es, .error e)

instance : Monad (Program σ ω ε) where
  pure := Program.pure
  bind := Program.bind

def ask (f : σ → Except ε α) : Program σ ω ε α := fun s => ([], f s)

def look (f : σ → α) : Program σ ω ε α := ask fun s => .ok (f s)

def emit (e : ω) : Program σ ω ε Unit := fun _ => ([e], .ok ())

def raise (e : ε) : Program σ ω ε α := fun _ => ([], .error e)

/-- The state a program ends in. -/
def final (x : Program σ ω ε α) (s : σ) : σ := after s (x s).1

/-- The program has `I` after each effect, and returns with `Q`. -/
structure Ends (I : σ → Prop) (x : Program σ ω ε α) (Q : α → σ → Prop) (s : σ) : Prop where
  cuts : ∀ k, I (after s ((x s).1.take k))
  returns : ∀ a, (x s).2 = .ok a → Q a (x.final s)

/-- The program returns, with `Q`. -/
def Runs (x : Program σ ω ε α) (Q : α → σ → Prop) (s : σ) : Prop := ∃ a, (x s).2 = .ok a ∧ Q a (x.final s)

/-- The program changes nothing and returns. -/
def Idle (x : Program σ ω ε α) (a : α) (s : σ) : Prop := x s = ([], .ok a)

variable {I : σ → Prop} {x : Program σ ω ε α} {f : α → Program σ ω ε β} {Q : α → σ → Prop} {R : β → σ → Prop} {s : σ}

theorem after_append (s : σ) (es es' : List ω) : after s (es ++ es') = after (after s es) es' := List.foldl_append ..

theorem bind_apply (x : Program σ ω ε α) (f : α → Program σ ω ε β) (s : σ) : (x >>= f) s = match x s with
    | (es, .ok a) => (es ++ (f a (after s es)).1, (f a (after s es)).2)
    | (es, .error e) => (es, .error e) := rfl

theorem bind_ask (g : σ → Except ε α) (f : α → Program σ ω ε β) (s : σ) : (ask g >>= f) s = match g s with
    | .ok a => f a s
    | .error e => ([], .error e) := by
  rw [bind_apply]
  unfold ask
  cases g s <;> rfl

namespace Ends

theorem stops (h : Ends I x Q s) : I (x.final s) := by
  have hall := h.cuts (x s).1.length
  rwa [List.take_length] at hall

theorem pure {a : α} (hI : I s) (hQ : Q a s) : Ends I (Pure.pure a : Program σ ω ε α) Q s := by
  refine ⟨fun k => ?_, fun b hb => ?_⟩
  · rw [show ((Pure.pure a : Program σ ω ε α) s).1 = [] from rfl, List.take_nil]
    exact hI
  · obtain rfl := Except.ok.inj hb
    exact hQ

theorem raise {e : ε} (hI : I s) : Ends I (Program.raise e : Program σ ω ε α) Q s := by
  refine ⟨fun k => ?_, fun _ h => by cases h⟩
  rw [show ((Program.raise e : Program σ ω ε α) s).1 = [] from rfl, List.take_nil]
  exact hI

theorem ask {g : σ → Except ε α} (hI : I s) (hQ : ∀ a, g s = .ok a → Q a s) :
    Ends I (Program.ask g : Program σ ω ε α) Q s := by
  refine ⟨fun k => ?_, hQ⟩
  rw [show ((Program.ask g : Program σ ω ε α) s).1 = [] from rfl, List.take_nil]
  exact hI

theorem look {g : σ → α} (hI : I s) (hQ : Q (g s) s) : Ends I (Program.look g : Program σ ω ε α) Q s := by
  refine ask hI fun b hb => ?_
  obtain rfl := Except.ok.inj hb
  exact hQ

theorem emit {e : ω} {Q : Unit → σ → Prop} (hI : I s) (hI' : I (Effects.apply s e)) (hQ : Q () (Effects.apply s e)) :
    Ends I (Program.emit e : Program σ ω ε Unit) Q s := by
  refine ⟨fun k => ?_, fun _ _ => hQ⟩
  cases k with
  | zero => exact hI
  | succ k =>
    rw [show (((Program.emit e : Program σ ω ε Unit) s).1).take (k + 1) = [e] by simp [Program.emit]]
    exact hI'

theorem bind (h : Ends I x (fun a s => Ends I (f a) R s) s) : Ends I (x >>= f) R s := by
  obtain ⟨hcuts, hret⟩ := h
  unfold final at hret
  generalize hx : x s = r at hcuts hret
  obtain ⟨es, r⟩ := r
  cases r with
  | error e =>
    have hrun : (x >>= f) s = (es, .error e) := by rw [bind_apply, hx]
    refine ⟨fun k => ?_, fun b hb => ?_⟩
    · rw [hrun]
      exact hcuts k
    · rw [hrun] at hb
      cases hb
  | ok a =>
    obtain ⟨hcuts', hret'⟩ := hret a rfl
    have hrun : (x >>= f) s = (es ++ (f a (after s es)).1, (f a (after s es)).2) := by rw [bind_apply, hx]
    refine ⟨fun k => ?_, fun b hb => ?_⟩
    · rw [hrun, List.take_append, after_append]
      rcases Nat.le_total k es.length with hk | hk
      · rw [Nat.sub_eq_zero_of_le hk, List.take_zero]
        exact hcuts k
      · rw [List.take_of_length_le hk]
        exact hcuts' _
    · rw [hrun] at hb
      rw [final, hrun, after_append]
      exact hret' b hb

theorem mono {Q' : α → σ → Prop} (h : Ends I x Q s) (hQ : ∀ a s, I s → Q a s → Q' a s) : Ends I x Q' s :=
  ⟨h.cuts, fun a ha => hQ a _ h.stops (h.returns a ha)⟩

/-- The loop rule: `J` of what is done so far. -/
theorem forM {γ : Type} {g : γ → Program σ ω ε Unit} (J : List γ → σ → Prop) {xs : List γ} (done : List γ)
    (hstep : ∀ done x s, x ∈ xs → I s → J done s → Ends I (g x) (fun _ s => J (done ++ [x]) s) s) (hI : I s) (hJ : J done s) :
    Ends I (xs.forM g) (fun _ s => J (done ++ xs) s) s := by
  induction xs generalizing done s with
  | nil => exact pure hI (by simpa using hJ)
  | cons x xs ih =>
    refine bind ((hstep done x s (by simp) hI hJ).mono fun _ s' hI' hJ' => ?_)
    have hrest := ih (done ++ [x]) (fun done y s hy => hstep done y s (List.mem_cons_of_mem _ hy)) hI' hJ'
    simpa using hrest

end Ends

namespace Runs

theorem pure {a : α} (hQ : Q a s) : Runs (Pure.pure a : Program σ ω ε α) Q s := ⟨a, rfl, hQ⟩

theorem ask {g : σ → Except ε α} {a : α} (h : g s = .ok a) (hQ : Q a s) : Runs (Program.ask g : Program σ ω ε α) Q s := ⟨a, h, hQ⟩

theorem look {g : σ → α} (hQ : Q (g s) s) : Runs (Program.look g : Program σ ω ε α) Q s := ⟨g s, rfl, hQ⟩

theorem bind (h : Runs x (fun a s => Runs (f a) R s) s) : Runs (x >>= f) R s := by
  obtain ⟨a, ha, b, hb, hR⟩ := h
  unfold final at hb hR
  generalize hx : x s = r at ha hb hR
  obtain ⟨es, r⟩ := r
  obtain rfl : r = .ok a := ha
  have hrun : (x >>= f) s = (es ++ (f a (after s es)).1, (f a (after s es)).2) := by rw [bind_apply, hx]
  refine ⟨b, by rw [hrun]; exact hb, ?_⟩
  rw [final, hrun, after_append]
  exact hR

theorem mono {Q' : α → σ → Prop} (h : Runs x Q s) (hQ : ∀ a s, Q a s → Q' a s) : Runs x Q' s := by
  obtain ⟨a, ha, hQa⟩ := h
  exact ⟨a, ha, hQ a _ hQa⟩

theorem forM {γ : Type} {g : γ → Program σ ω ε Unit} (J : List γ → σ → Prop) {xs : List γ} (done : List γ)
    (hstep : ∀ done x s, x ∈ xs → J done s → Runs (g x) (fun _ s => J (done ++ [x]) s) s) (hJ : J done s) :
    Runs (xs.forM g) (fun _ s => J (done ++ xs) s) s := by
  induction xs generalizing done s with
  | nil => exact pure (by simpa using hJ)
  | cons x xs ih =>
    refine bind ((hstep done x s (by simp) hJ).mono fun _ s' hJ' => ?_)
    have hrest := ih (done ++ [x]) (fun done y s hy => hstep done y s (List.mem_cons_of_mem _ hy)) hJ'
    simpa using hrest

/-- What a returned bind did. -/
theorem of_bind {b : β} (h : ((x >>= f) s).2 = .ok b) : ∃ a, (x s).2 = .ok a ∧ (f a (x.final s)).2 = .ok b ∧
    (x >>= f).final s = (f a).final (x.final s) ∧ ((x >>= f) s).1 = (x s).1 ++ (f a (x.final s)).1 := by
  unfold final
  generalize hx : x s = r
  obtain ⟨es, r⟩ := r
  cases r with
  | error e =>
    rw [bind_apply, hx] at h
    cases h
  | ok a =>
    have hrun : (x >>= f) s = (es ++ (f a (after s es)).1, (f a (after s es)).2) := by rw [bind_apply, hx]
    rw [hrun] at h
    refine ⟨a, rfl, h, ?_, ?_⟩
    · rw [hrun, after_append]
    · rw [hrun]

end Runs

namespace Idle

theorem bind {a : α} (h : Idle x a s) {b : β} (hf : Idle (f a) b s) : Idle (x >>= f) b s := by
  have hf' : f a (after s ([] : List ω)) = ([], .ok b) := hf
  show (x >>= f) s = ([], .ok b)
  rw [bind_apply, show x s = ([], .ok a) from h]
  simp only [hf', List.append_nil]

omit [Effects σ ω] in
theorem ask {g : σ → Except ε α} {a : α} (h : g s = .ok a) : Idle (Program.ask g : Program σ ω ε α) a s := by
  rw [Idle, Program.ask, h]

omit [Effects σ ω] in
theorem look (g : σ → α) (s : σ) : Idle (Program.look g : Program σ ω ε α) (g s) s := rfl

theorem pure (a : α) (s : σ) : Idle (Pure.pure a : Program σ ω ε α) a s := rfl

theorem forM {γ : Type} {g : γ → Program σ ω ε Unit} {xs : List γ} (h : ∀ x ∈ xs, Idle (g x) () s) : Idle (xs.forM g) () s := by
  induction xs with
  | nil => exact rfl
  | cons x xs ih => exact (h x (by simp)).bind (ih fun y hy => h y (List.mem_cons_of_mem _ hy))

end Idle

end Program

end CardRag
