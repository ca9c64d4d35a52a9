import CardRag.Requests.Exact

/-! # Cut calls

A call that is cut leaves the files it had finished, and what it had of the one it was making: a request is made
through a temporary file and a link (`queue_reprocess_requests`), every other file in place. `recovers_iff` is the
part that no call differs in: files are only added, so a file left half made stays so. -/

namespace CardRag.Requests

open Program (Ends Idle Runs after)
open Directory (Extends)

variable {α β : Type} {d d' s D : Directory} {f : File} {c : Content} {es es' : List Write} {x : Action α}

/-! ### Effects that only add files -/

/-- Each write is of a file that is not there, and complete. -/
def Adds (d : Directory) : List Write → Prop
  | [] => True
  | w :: es => d.read w.file = none ∧ w.content ≠ .broken ∧ (∀ id token, w.file ≠ .temporary id token) ∧
      Adds (d.write w.file w.content) es

namespace Adds

theorem append (h : Adds d es) (h' : Adds (after d es) es') : Adds d (es ++ es') := by
  induction es generalizing d with
  | nil => exact h'
  | cons w es ih => exact ⟨h.1, h.2.1, h.2.2.1, ih h.2.2.2 h'⟩

theorem grown (h : Adds d es) : Extends d (after d es) := by
  induction es generalizing d with
  | nil => exact Extends.refl d
  | cons w es ih => exact (Extends.write h.1 w.content).trans (ih h.2.2.2)

theorem take (h : Adds d es) (k : Nat) : Extends d (after d (es.take k)) ∧ Extends (after d (es.take k)) (after d es) := by
  induction es generalizing d k with
  | nil =>
    rw [List.take_nil]
    exact ⟨Extends.refl d, Extends.refl d⟩
  | cons w es ih =>
    cases k with
    | zero => exact ⟨Extends.refl d, h.grown⟩
    | succ k =>
      obtain ⟨hlow, hhigh⟩ := ih h.2.2.2 k
      exact ⟨(Extends.write h.1 w.content).trans hlow, hhigh⟩

theorem mem (h : Adds d es) {w : Write} (hw : w ∈ es) : w.content ≠ .broken ∧ (after d es).read w.file = some w.content := by
  induction es generalizing d with
  | nil => cases hw
  | cons v es ih =>
    rcases List.mem_cons.1 hw with rfl | hw
    · exact ⟨h.2.1, grown h.2.2.2 _ _ (Directory.read_write_self _ _)⟩
    · exact ih h.2.2.2 hw

theorem temporary (h : Adds d es) (id token : Str) :
    (after d es).read (.temporary id token) = d.read (.temporary id token) := by
  induction es generalizing d with
  | nil => rfl
  | cons w es ih =>
    have hrest := ih h.2.2.2
    rw [Directory.read_write_ne (h.2.2.1 id token)] at hrest
    exact hrest

end Adds

/-- A program that only adds complete files. -/
def Adding (x : Action α) : Prop := ∀ d, Adds d (x d).1

namespace Adding

theorem ask (g : Directory → Except String α) : Adding (Program.ask g) := fun _ => trivial

theorem look (g : Directory → α) : Adding (Program.look g) := fun _ => trivial

theorem pure (a : α) : Adding (Pure.pure a) := fun _ => trivial

theorem raise (e : String) : Adding (Program.raise e : Action α) := fun _ => trivial

theorem bind {g : α → Action β} (h : Adding x) (hg : ∀ a, Adding (g a)) : Adding (x >>= g) := by
  intro d
  have hx := h d
  rw [Program.bind_apply]
  generalize x d = r at hx
  obtain ⟨es, r⟩ := r
  cases r with
  | error e => exact hx
  | ok a => exact hx.append (hg a _)

theorem forM {γ : Type} {g : γ → Action Unit} {xs : List γ} (h : ∀ y ∈ xs, Adding (g y)) : Adding (xs.forM g) := by
  induction xs with
  | nil => exact pure ()
  | cons y xs ih => exact bind (h y (by simp)) fun _ => ih fun z hz => h z (List.mem_cons_of_mem y hz)

end Adding

/-- What `keep` does. -/
theorem keep_eq (f : File) (c : Content) (conflict : String) (d : Directory) : keep f c conflict d =
    match d.read f with
    | some c' => if c' = c then ([], .ok ()) else ([], .error conflict)
    | none => ([⟨f, c⟩], .ok ()) := by
  refine (Program.bind_ask _ _ d).trans ?_
  dsimp only
  cases d.read f with
  | none => rfl
  | some c' =>
    dsimp only
    split <;> rfl

theorem adding_keep {conflict : String} (hc : c ≠ .broken) (hf : ∀ id token, f ≠ .temporary id token) :
    Adding (keep f c conflict) := by
  intro d
  rw [keep_eq]
  cases hread : d.read f with
  | none => exact ⟨hread, hc, hf, trivial⟩
  | some c' =>
    dsimp only
    split <;> exact trivial

/-! ### Cuts -/

/-- How far the making of a file came. -/
inductive Stage where
  | untouched
  | opened
  | written
  | linked
deriving DecidableEq

/-- What is left of a file that is being made. -/
def torn (token : Str) (w : Write) : Stage → List Write
  | .untouched => []
  | .opened => match w.file with
    | .request id => [⟨.temporary id token, .broken⟩]
    | f => [⟨f, .broken⟩]
  | .written => match w.file with
    | .request id => [⟨.temporary id token, w.content⟩]
    | _ => [w]
  | .linked => match w.file with
    | .request id => [⟨.temporary id token, w.content⟩, w]
    | _ => [w]

/-- Some files are finished, and the next one is at a stage. -/
structure Cut where
  done : Nat
  stage : Stage
  token : Str

def cutAt (x : Action α) (cut : Cut) (d : Directory) : Directory :=
  after d ((x d).1.take cut.done ++ (((x d).1[cut.done]?).map (torn cut.token · cut.stage)).getD [])

/-- Where the call returns, it returns the same after the cut and leaves the same files. -/
def Recovers (x : Action α) (cut : Cut) (d : Directory) : Prop :=
  ∀ a, (x d).2 = .ok a → (x (cutAt x cut d)).2 = .ok a ∧ ∀ f, (x.final (cutAt x cut d)).read f = (x.final d).read f

/-- A file that is being made is incomplete, or its temporary file is there. -/
def HalfMade (w : Write) : Stage → Prop
  | .untouched => False
  | .opened => True
  | .written | .linked => ∃ id, w.file = .request id

/-- The cut leaves no incomplete and no temporary file. -/
def Clean (x : Action α) (cut : Cut) (d : Directory) : Prop := ∀ w, (x d).1[cut.done]? = some w → ¬ HalfMade w cut.stage

/-- After some of its files the call does the rest. -/
def Resumes (x : Action α) (d : Directory) : Prop := ∀ a k, (x d).2 = .ok a →
  Runs x (fun b s => b = a ∧ ∀ f, s.read f = (x.final d).read f) (after d ((x d).1.take k))

theorem Clean.cutAt {cut : Cut} (h : Clean x cut d) : ∃ k, cutAt x cut d = after d ((x d).1.take k) := by
  unfold Requests.cutAt
  cases hw : (x d).1[cut.done]? with
  | none => exact ⟨cut.done, by simp⟩
  | some w =>
    have hnot := h w hw
    have hnext : (x d).1.take (cut.done + 1) = (x d).1.take cut.done ++ [w] := by
      rw [List.take_add_one, hw]
      rfl
    obtain ⟨done, stage, token⟩ := cut
    cases stage with
    | untouched => exact ⟨done, by simp [torn]⟩
    | opened => exact absurd trivial hnot
    | written =>
      refine ⟨done + 1, ?_⟩
      rw [hnext]
      obtain ⟨f, c⟩ := w
      cases f with
      | request id => exact absurd ⟨id, rfl⟩ hnot
      | _ => rfl
    | linked =>
      refine ⟨done + 1, ?_⟩
      rw [hnext]
      obtain ⟨f, c⟩ := w
      cases f with
      | request id => exact absurd ⟨id, rfl⟩ hnot
      | _ => rfl

/-- A half made file is one that no uninterrupted call leaves. -/
theorem exists_torn (hx : Adding x) {cut : Cut} (hfresh : ∀ id, d.read (.temporary id cut.token) = none) {w : Write}
    (hw : (x d).1[cut.done]? = some w) (hhalf : HalfMade w cut.stage) :
    ∃ f c, (cutAt x cut d).read f = some c ∧ (x.final d).read f ≠ some c := by
  have htemp (id : Str) : (x.final d).read (.temporary id cut.token) = none := ((hx d).temporary id _).trans (hfresh id)
  obtain ⟨hcomplete, hfinal⟩ := (hx d).mem (List.mem_of_getElem? hw)
  unfold cutAt
  rw [hw, Option.map_some, Option.getD_some, Program.after_append]
  generalize after d ((x d).1.take cut.done) = s
  have hwritten (id : Str) (c : Content) : ∃ f c', (s.write (.temporary id cut.token) c).read f = some c' ∧
      (x.final d).read f ≠ some c' :=
    ⟨_, c, Directory.read_write_self _ c, by rw [htemp]; simp⟩
  obtain ⟨f, c⟩ := w
  obtain ⟨done, stage, token⟩ := cut
  cases stage with
  | untouched => exact hhalf.elim
  | opened =>
    have hbroken : ∃ f' c', (s.write f .broken).read f' = some c' ∧ (x.final d).read f' ≠ some c' := by
      refine ⟨f, .broken, Directory.read_write_self _ _, fun h => hcomplete ?_⟩
      exact Option.some.inj (hfinal.symm.trans h)
    cases f with
    | request id => exact hwritten id _
    | _ => exact hbroken
  | written =>
    obtain ⟨id, hid⟩ := hhalf
    obtain rfl : f = .request id := hid
    exact hwritten id _
  | linked =>
    obtain ⟨id, hid⟩ := hhalf
    obtain rfl : f = .request id := hid
    refine ⟨.temporary id token, c, ?_, by rw [htemp]; simp⟩
    show ((s.write (.temporary id token) c).write (.request id) c).read _ = _
    rw [Directory.read_write_ne (by simp), Directory.read_write_self]

/-- A call that resumes after any of its files recovers from exactly the cuts that leave no file half made. -/
theorem recovers_iff (hx : Adding x) (hresumes : Resumes x d) {cut : Cut}
    (hfresh : ∀ id, d.read (.temporary id cut.token) = none) :
    Recovers x cut d ↔ (∃ e, (x d).2 = .error e) ∨ Clean x cut d := by
  constructor
  · intro h
    cases hret : (x d).2 with
    | error e => exact .inl ⟨e, rfl⟩
    | ok a =>
      refine .inr fun w hw hhalf => ?_
      obtain ⟨f, c, hleft, hne⟩ := exists_torn hx hfresh hw hhalf
      obtain ⟨-, hsame⟩ := h a hret
      exact hne ((hsame f).symm.trans ((hx _).grown f c hleft))
  · rintro (⟨e, herr⟩ | hclean) a hret
    · cases herr.symm.trans hret
    · obtain ⟨k, hk⟩ := hclean.cutAt
      obtain ⟨b, hb, rfl, hsame⟩ := hresumes a k hret
      rw [hk]
      exact ⟨hb, hsame⟩

/-- It is enough to resume from any files between those before and those after. -/
theorem Resumes.of_between (hx : Adding x) (h : ∀ a s, (x d).2 = .ok a → Extends d s → Extends s (x.final d) →
    Runs x (fun b s' => b = a ∧ ∀ f, s'.read f = (x.final d).read f) s) : Resumes x d := by
  intro a k hret
  obtain ⟨hlow, hhigh⟩ := (hx d).take k
  exact h a _ hret hlow hhigh

theorem read_eq (hlow : Extends s D) (hhigh : Extends D s) (f : File) : s.read f = D.read f := by
  cases hread : s.read f with
  | some c => exact (hlow f c hread).symm
  | none =>
    cases hD : D.read f with
    | none => rfl
    | some c => cases hread.symm.trans (hhigh f c hD)

/-- A file that is right in the end is kept or put in place. -/
theorem runs_keep {conflict : String} (hD : D.read f = some c) (hs : Extends s D) : Runs (keep f c conflict)
    (fun _ s' => Extends s s' ∧ Extends s' D ∧ s'.read f = some c ∧ ∀ f', f' ≠ f → s'.read f' = s.read f') s := by
  refine ⟨(), ?_⟩
  cases hread : s.read f with
  | some c' =>
    obtain rfl := Option.some.inj ((hs _ _ hread).symm.trans hD)
    have hrun : keep f c' conflict s = ([], .ok ()) := by
      rw [keep_eq, hread]
      exact if_pos rfl
    rw [Program.final, hrun]
    exact ⟨rfl, Extends.refl s, hs, hread, fun _ _ => rfl⟩
  | none =>
    have hrun : keep f c conflict s = ([⟨f, c⟩], .ok ()) := by rw [keep_eq, hread]
    rw [Program.final, hrun]
    refine ⟨rfl, Extends.write hread c, ?_, Directory.read_write_self f c, fun f' hf' => ?_⟩
    · intro f' c' h
      rw [show after s [⟨f, c⟩] = s.write f c from rfl, Directory.read_write] at h
      split at h
      · rename_i heq
        obtain rfl := Option.some.inj h
        exact heq ▸ hD
      · exact hs f' c' h
    · exact Directory.read_write_ne hf'.symm c

/-- What a returned `keep` did. -/
theorem keep_ok {conflict : String} (h : (keep f c conflict d).2 = .ok ()) : ((keep f c conflict).final d).read f = some c ∧
    ∀ f', f' ≠ f → ((keep f c conflict).final d).read f' = d.read f' := by
  rw [Program.final]
  rw [keep_eq] at h ⊢
  cases hread : d.read f with
  | some c' =>
    rw [hread] at h
    dsimp only at h ⊢
    split at h
    · rename_i heq
      rw [if_pos heq]
      exact ⟨heq ▸ hread, fun _ _ => rfl⟩
    · cases h
  | none => exact ⟨Directory.read_write_self f c, fun f' hf' => Directory.read_write_ne hf'.symm c⟩

end CardRag.Requests
