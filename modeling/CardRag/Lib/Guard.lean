import Mathlib

/-! # Guard sequences in `Except`

A validator of the source is a sequence of `if … : raise …` statements and loops of such
sequences. Here it is an `Except` block over `raiseIf`, `List.forM` and `List.foldlM`; the lemmas
below read such a block back as the conjunction of what it checked. -/

namespace CardRag

variable {ε α β σ : Type}

/-- `if c: raise e`. -/
def raiseIf (c : Prop) [Decidable c] (e : ε) : Except ε Unit :=
  if c then .error e else .ok ()

@[simp] theorem raiseIf_eq_ok {c : Prop} [Decidable c] {e : ε} {u : Unit} :
    raiseIf c e = .ok u ↔ ¬ c := by
  unfold raiseIf; split <;> simp [*]

namespace Guard

@[simp] theorem bind_eq_ok {x : Except ε α} {f : α → Except ε β} {b : β} :
    (x >>= f) = .ok b ↔ ∃ a, x = .ok a ∧ f a = .ok b := by
  cases x <;> simp [bind, Except.bind]

theorem ok_bind (a : α) (f : α → Except ε β) : (.ok a >>= f) = f a := rfl

@[simp] theorem pure_eq_ok {a b : α} : (pure a : Except ε α) = .ok b ↔ a = b := by
  simp [pure, Except.pure]

@[simp] theorem throw_ne_ok {e : ε} {a : α} : (throw e : Except ε α) = .ok a ↔ False := by
  simp [throw, throwThe, MonadExceptOf.throw]

@[simp] theorem map_eq_ok {x : Except ε α} {f : α → β} {b : β} :
    (f <$> x) = .ok b ↔ ∃ a, x = .ok a ∧ f a = b := by
  cases x <;> simp [Functor.map, Except.map]

@[simp] theorem exists_unit {p : Unit → Prop} : (∃ u, p u) ↔ p () :=
  ⟨fun ⟨_, h⟩ => h, fun h => ⟨_, h⟩⟩

@[simp] theorem forM_eq_ok {xs : List α} {f : α → Except ε Unit} {u : Unit} :
    xs.forM f = .ok u ↔ ∀ x ∈ xs, f x = .ok () := by
  induction xs with
  | nil => simp [List.forM, pure, Except.pure]
  | cons x xs ih =>
    have unfold_cons : (x :: xs).forM f = f x >>= fun _ => xs.forM f := rfl
    rw [unfold_cons, bind_eq_ok, exists_unit, ih, List.forall_mem_cons]

/-- A step that raises decides the whole block. -/
theorem bind_error {x : Except ε α} {e : ε} (h : x = .error e) (f : α → Except ε β) :
    (x >>= f) = .error e := by
  subst h; rfl

theorem exists_ok_of_isOk {x : Except ε α} (h : x.isOk = true) : ∃ a, x = .ok a := by
  cases x with
  | error e => simp [Except.isOk, Except.toBool] at h
  | ok a => exact ⟨a, rfl⟩

/-- The loop rule: an invariant that holds before the loop and is kept by every step that returns
holds after a loop that returns. -/
theorem foldlM_inv {f : σ → α → Except ε σ} (P : σ → Prop)
    (step : ∀ s x s', f s x = .ok s' → P s → P s') {xs : List α} {s s' : σ}
    (h : xs.foldlM f s = .ok s') (hs : P s) : P s' := by
  induction xs generalizing s with
  | nil =>
    simp only [List.foldlM_nil, pure_eq_ok] at h
    exact h ▸ hs
  | cons x xs ih =>
    simp only [List.foldlM_cons, bind_eq_ok] at h
    obtain ⟨s₁, h₁, h₂⟩ := h
    exact ih h₂ (step s x s₁ h₁ hs)

/-- A loop that returns ran its body on every element. -/
theorem foldlM_mem {f : σ → α → Except ε σ} {xs : List α} {s s' : σ} (h : xs.foldlM f s = .ok s') {x : α}
    (hx : x ∈ xs) : ∃ s₁ s₂, f s₁ x = .ok s₂ := by
  induction xs generalizing s with
  | nil => cases hx
  | cons y ys ih =>
    simp only [List.foldlM_cons, bind_eq_ok] at h
    obtain ⟨s₁, h₁, h₂⟩ := h
    rcases List.mem_cons.1 hx with rfl | hx
    · exact ⟨s, s₁, h₁⟩
    · exact ih h₂ hx

/-- A loop that only appends: each element adds its own block. -/
theorem foldlM_append {f : List β → α → Except ε (List β)} {Q : α → List β → Prop} {xs : List α}
    (step : ∀ x ∈ xs, ∀ vs vs', f vs x = .ok vs' → ∃ new, vs' = vs ++ new ∧ Q x new) {vs vs' : List β}
    (h : xs.foldlM f vs = .ok vs') : ∃ news, List.Forall₂ Q xs news ∧ vs' = vs ++ news.flatten := by
  induction xs generalizing vs with
  | nil =>
    simp only [List.foldlM_nil, pure_eq_ok] at h
    exact ⟨[], .nil, by simp [h]⟩
  | cons x xs ih =>
    simp only [List.foldlM_cons, bind_eq_ok] at h
    obtain ⟨vs₁, h₁, h₂⟩ := h
    obtain ⟨new, rfl, hq⟩ := step x (by simp) vs vs₁ h₁
    obtain ⟨news, hqs, rfl⟩ := ih (fun y hy => step y (by simp [hy])) h₂
    exact ⟨new :: news, .cons hq hqs, by simp⟩

/-- A comprehension returns when every element does. -/
theorem exists_mapM_ok {f : α → Except ε β} {xs : List α} :
    (∃ ys, xs.mapM f = .ok ys) ↔ ∀ x ∈ xs, ∃ y, f x = .ok y := by
  induction xs with
  | nil => exact ⟨fun _ => by simp, fun _ => ⟨[], rfl⟩⟩
  | cons x xs ih =>
    simp only [List.mapM_cons, bind_eq_ok, pure_eq_ok, List.forall_mem_cons, ← ih]
    constructor
    · rintro ⟨_, y, hy, ys, hys, -⟩
      exact ⟨⟨y, hy⟩, ys, hys⟩
    · rintro ⟨⟨y, hy⟩, ys, hys⟩
      exact ⟨_, y, hy, ys, hys, rfl⟩

/-- A comprehension returns the values of its elements. -/
theorem mapM_eq_ok {f : α → Except ε β} {xs : List α} {ys : List β} :
    xs.mapM f = .ok ys ↔ List.Forall₂ (fun x y => f x = .ok y) xs ys := by
  induction xs generalizing ys with
  | nil => rw [List.mapM_nil, pure_eq_ok, List.forall₂_nil_left_iff, eq_comm]
  | cons x xs ih =>
    simp only [List.mapM_cons, bind_eq_ok, pure_eq_ok, List.forall₂_cons_left_iff, ih]
    constructor
    · rintro ⟨y, hy, ys', hys, rfl⟩
      exact ⟨y, ys', hy, hys, rfl⟩
    · rintro ⟨y, ys', hy, hys, rfl⟩
      exact ⟨y, hy, ys', hys, rfl⟩

theorem mem_of_mapM_ok {f : α → Except ε β} {xs : List α} {ys : List β} {y : β} (h : xs.mapM f = .ok ys) (hy : y ∈ ys) :
    ∃ x ∈ xs, f x = .ok y := by
  rw [mapM_eq_ok] at h
  induction h with
  | nil => cases hy
  | @cons x z xs ys hx _ ih =>
    rcases List.mem_cons.1 hy with rfl | hy
    · exact ⟨x, by simp, hx⟩
    · obtain ⟨x', hx', hok⟩ := ih hy
      exact ⟨x', by simp [hx'], hok⟩

theorem mapM_ok_of_mem {f : α → Except ε β} {xs : List α} {ys : List β} {x : α} (h : xs.mapM f = .ok ys) (hx : x ∈ xs) :
    ∃ y ∈ ys, f x = .ok y := by
  rw [mapM_eq_ok] at h
  induction h with
  | nil => cases hx
  | @cons z y xs ys hy _ ih =>
    rcases List.mem_cons.1 hx with rfl | hx
    · exact ⟨y, by simp, hy⟩
    · obtain ⟨y', hy', hok⟩ := ih hx
      exact ⟨y', by simp [hy'], hok⟩

/-! ### What a block may raise -/

/-- Whatever the block raises satisfies `P`. -/
def Raises (P : ε → Prop) (x : Except ε α) : Prop := ∀ e, x = .error e → P e

variable {P : ε → Prop}

theorem raises_ok (a : α) : Raises P (.ok a : Except ε α) := nofun

theorem raises_of_ok {x : Except ε α} (h : ∃ a, x = .ok a) : Raises P x := by
  obtain ⟨a, rfl⟩ := h
  exact raises_ok a

theorem raises_pure (a : α) : Raises P (pure a : Except ε α) := nofun

theorem raises_throw {e : ε} (h : P e) : Raises P (throw e : Except ε α) := by
  intro e' heq
  exact Except.error.inj heq ▸ h

theorem raises_raiseIf {c : Prop} [Decidable c] {e : ε} (h : P e) : Raises P (raiseIf c e) := by
  unfold raiseIf
  split
  · exact raises_throw h
  · exact raises_ok ()

theorem raises_raiseIf_of_not {c : Prop} [Decidable c] {e : ε} (h : ¬ c) : Raises P (raiseIf c e) := by
  rw [raiseIf, if_neg h]
  exact raises_ok ()

theorem Raises.bind {x : Except ε α} {f : α → Except ε β} (hx : Raises P x) (hf : ∀ a, Raises P (f a)) :
    Raises P (x >>= f) := by
  cases x with
  | error e => exact fun e' h => hx e' (congrArg Except.error (Except.error.inj h))
  | ok a => exact hf a

/-- The rest of a block runs on what was returned. -/
theorem Raises.bind_of_ok {x : Except ε α} {f : α → Except ε β} (hx : Raises P x)
    (hf : ∀ a, x = .ok a → Raises P (f a)) : Raises P (x >>= f) := by
  cases x with
  | error e => exact fun e' h => hx e' (congrArg Except.error (Except.error.inj h))
  | ok a => exact hf a rfl

theorem raises_mapM {xs : List α} {f : α → Except ε β} (h : ∀ x ∈ xs, Raises P (f x)) : Raises P (xs.mapM f) := by
  induction xs with
  | nil => exact raises_pure []
  | cons x xs ih =>
    rw [List.mapM_cons]
    refine (h x (by simp)).bind fun y => (ih fun z hz => h z (by simp [hz])).bind fun ys => raises_pure _

theorem raises_forM_of_mem {xs : List α} {f : α → Except ε Unit} (h : ∀ x ∈ xs, Raises P (f x)) : Raises P (xs.forM f) := by
  induction xs with
  | nil => exact raises_pure ()
  | cons x xs ih => exact (h x (by simp)).bind fun _ => ih fun y hy => h y (by simp [hy])

theorem raises_forM {xs : List α} {f : α → Except ε Unit} (h : ∀ x, Raises P (f x)) : Raises P (xs.forM f) :=
  raises_forM_of_mem fun x _ => h x

theorem raises_foldlM {xs : List α} {f : σ → α → Except ε σ} (h : ∀ s x, Raises P (f s x)) (s : σ) :
    Raises P (xs.foldlM f s) := by
  induction xs generalizing s with
  | nil => exact raises_pure s
  | cons x xs ih => exact (h s x).bind fun s' => ih s'

end Guard

end CardRag
