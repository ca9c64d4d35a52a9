import CardRag.MapReduce.Roots

/-! # Running jobs keep their generation

A process changes a job, or takes its root away, only while it holds the lease of the job's slot, and it
takes the root away only when it has seen that the job has no progress, or a terminal marker. -/

namespace CardRag.MapReduce

open Interleave

variable {ι : Type} {jobIdOf : Str → Str → Str → Str} {slot : Str → Nat} {i : ι} {w w' : RootWorld ι}

/-- A job with progress and without a terminal marker has the root of its generation, and failed starts
released roots of jobs without progress only. -/
structure RootWorld.Rooted (w : RootWorld ι) : Prop where
  running : ∀ jobId g, w.progress jobId = some g → w.terminal jobId = false → w.roots jobId = some g
  unstarted : ∀ e ∈ w.unstarted, e.2 = none

/-- What a process does to the world. -/
structure RootGuarantee (slot : Str → Nat) (i : ι) (w w' : RootWorld ι) : Prop where
  lease : ∀ s, w'.lease s = w.lease s ∨ (w.lease s = none ∧ w'.lease s = some i) ∨
    (w.lease s = some i ∧ w'.lease s = none)
  foreign : ∀ jobId, w.lease (slot jobId) ≠ some i → w'.progress jobId = w.progress jobId ∧
    w'.terminal jobId = w.terminal jobId ∧ ∀ g, w.roots jobId = some g → w'.roots jobId = some g
  roots : ∀ jobId g, w.roots jobId = some g → w'.roots jobId = some g ∨
    (w.progress jobId = none ∧ w'.progress jobId = none) ∨ w.terminal jobId = true
  progress : ∀ jobId g, w'.progress jobId = some g → w.progress jobId = some g ∨
    (w.roots jobId = some g ∧ w'.roots jobId = some g)
  terminal : ∀ jobId, w.terminal jobId = true → w'.terminal jobId = true
  unstarted : ∀ e ∈ w'.unstarted, e ∈ w.unstarted ∨ e.2 = none

theorem RootGuarantee.rooted (h : RootGuarantee slot i w w') (hw : w.Rooted) : w'.Rooted where
  running jobId g hp ht := by
    have hopen : w.terminal jobId = false := by
      by_contra hne
      have := h.terminal jobId (Bool.not_eq_false _ ▸ hne)
      rw [ht] at this
      cases this
    rcases h.progress jobId g hp with hp' | ⟨-, hroot⟩
    · rcases h.roots jobId g (hw.running jobId g hp' hopen) with hroot | ⟨-, hnone⟩ | hend
      · exact hroot
      · rw [hp] at hnone
        cases hnone
      · rw [hopen] at hend
        cases hend
    · exact hroot
  unstarted e he := (h.unstarted e he).elim (hw.unstarted e) id

/-- What a process must know before an operation that changes a job or takes a root away. -/
def RootOp.Allowed (slot : Str → Nat) (i : ι) (w : RootWorld ι) : RootOp → Prop
  | .releaseRoot jobId _ => w.lease (slot jobId) = some i ∧ w.terminal jobId = true
  | .releaseUnstarted jobId _ => w.lease (slot jobId) = some i ∧ w.progress jobId = none
  | .begin jobId g => w.lease (slot jobId) = some i ∧ w.roots jobId = some g
  | .complete jobId | .cancel jobId => w.lease (slot jobId) = some i
  | _ => True

theorem RootGuarantee.refl (w : RootWorld ι) : RootGuarantee slot i w w where
  lease _ := .inl rfl
  foreign _ _ := ⟨rfl, rfl, fun _ h => h⟩
  roots _ _ h := .inl h
  progress _ _ h := .inl h
  terminal _ h := h
  unstarted _ h := .inl h

section
variable {slot : Str → Nat} {jobId g : Str}

/-- A root is taken away by the holder of the lease, from a job without progress or with a marker. -/
theorem RootGuarantee.release (hl : w.lease (slot jobId) = some i)
    (hjob : w.progress jobId = none ∨ w.terminal jobId = true) {unstarted : List (Str × Option Str)}
    (hu : ∀ e ∈ unstarted, e ∈ w.unstarted ∨ e.2 = none) : RootGuarantee slot i w
      { w with roots := Function.update w.roots jobId none, unstarted := unstarted } where
  lease _ := .inl rfl
  foreign job h := by
    have hne : job ≠ jobId := fun heq => h (heq ▸ hl)
    exact ⟨rfl, rfl, fun g hg => by simpa [Function.update_of_ne hne] using hg⟩
  roots job g hg := by
    by_cases heq : job = jobId
    · subst heq
      exact .inr (hjob.imp (fun h => ⟨h, h⟩) id)
    · exact .inl (by simpa [Function.update_of_ne heq] using hg)
  progress _ _ h := .inl h
  terminal _ h := h
  unstarted := hu

theorem RootGuarantee.begin (hl : w.lease (slot jobId) = some i) (hroot : w.roots jobId = some g) :
    RootGuarantee slot i w { w with progress := Function.update w.progress jobId (some g) } where
  lease _ := .inl rfl
  foreign job h := by
    have hne : job ≠ jobId := fun heq => h (heq ▸ hl)
    exact ⟨by simp [Function.update_of_ne hne], rfl, fun _ h => h⟩
  roots _ _ h := .inl h
  progress job g' hp := by
    by_cases heq : job = jobId
    · subst heq
      have : g = g' := by simpa using hp
      exact .inr ⟨this ▸ hroot, this ▸ hroot⟩
    · exact .inl (by simpa [Function.update_of_ne heq] using hp)
  terminal _ h := h
  unstarted _ h := .inl h

theorem RootGuarantee.mark (hl : w.lease (slot jobId) = some i) :
    RootGuarantee slot i w { w with terminal := Function.update w.terminal jobId true } where
  lease _ := .inl rfl
  foreign job h := by
    have hne : job ≠ jobId := fun heq => h (heq ▸ hl)
    exact ⟨rfl, by simp [Function.update_of_ne hne], fun _ h => h⟩
  roots _ _ h := .inl h
  progress _ _ h := .inl h
  terminal job h := by
    by_cases heq : job = jobId
    · simp [heq]
    · simpa [Function.update_of_ne heq] using h
  unstarted _ h := .inl h

/-- Taking or giving back a lease. -/
theorem RootGuarantee.leased {s : Nat} {owner : Option ι}
    (hs : (w.lease s = none ∧ owner = some i) ∨ (w.lease s = some i ∧ owner = none)) :
    RootGuarantee slot i w { w with lease := Function.update w.lease s owner } where
  lease t := by
    by_cases heq : t = s
    · subst heq
      right
      simpa using hs
    · exact .inl (by simp [Function.update_of_ne heq])
  foreign _ _ := ⟨rfl, rfl, fun _ h => h⟩
  roots _ _ h := .inl h
  progress _ _ h := .inl h
  terminal _ h := h
  unstarted _ h := .inl h

/-- A new root. -/
theorem RootGuarantee.claim (hnone : w.roots jobId = none) (g : Str) :
    RootGuarantee slot i w { w with roots := Function.update w.roots jobId (some g) } where
  lease _ := .inl rfl
  foreign job _ := by
    refine ⟨rfl, rfl, fun g' hg => ?_⟩
    have hne : job ≠ jobId := by
      rintro rfl
      rw [hnone] at hg
      cases hg
    simpa [Function.update_of_ne hne] using hg
  roots job g' hg := by
    have hne : job ≠ jobId := by
      rintro rfl
      rw [hnone] at hg
      cases hg
    exact .inl (by simpa [Function.update_of_ne hne] using hg)
  progress _ _ h := .inl h
  terminal _ h := h
  unstarted _ h := .inl h

end

theorem guarantee_of_done {op : RootOp} {r : RootReply} (h : Done jobIdOf slot i w op r w')
    (ha : op.Allowed slot i w) : RootGuarantee slot i w w' := by
  cases h with
  | claimExisting => exact .refl w
  | claimNew hnone => exact .claim hnone _
  | acquireJob hs => exact .leased (.inl ⟨hs, rfl⟩)
  | releaseLease hs => exact .leased (.inr ⟨hs, rfl⟩)
  | inspect => exact .refl w
  | discarded => exact .refl w
  | notEmpty => exact .refl w
  | releaseRoot => exact .release ha.1 (.inr ha.2) fun _ h => .inl h
  | releaseUnstarted =>
    refine .release ha.1 (.inl ha.2) fun e he => ?_
    rcases List.mem_cons.1 he with rfl | he
    · exact .inr ha.2
    · exact .inl he
  | generationForRoot => exact .refl w
  | verifyRoot => exact .refl w
  | begin => exact .begin ha.1 ha.2
  | complete => exact .mark ha
  | cancel => exact .mark ha
  | activate =>
    exact ⟨fun _ => .inl rfl, fun _ _ => ⟨rfl, rfl, fun _ h => h⟩, fun _ _ h => .inl h, fun _ _ h => .inl h,
      fun _ h => h, fun _ h => .inl h⟩
  | other => exact .refl w

/-! ### What the holder of a lease knows -/

/-- The process holds the lease of the job, and `R` holds of its progress, marker and root. -/
def Held (slot : Str → Nat) (i : ι) (jobId : Str) (R : Option Str → Bool → Option Str → Prop)
    (w : RootWorld ι) : Prop :=
  w.lease (slot jobId) = some i ∧ R (w.progress jobId) (w.terminal jobId) (w.roots jobId)

/-- A root that another process claims does not undo it. -/
def Claimable (R : Option Str → Bool → Option Str → Prop) : Prop :=
  ∀ p t r r', R p t r → (∀ g, r = some g → r' = some g) → R p t r'

section
variable {jobId g : Str} {R R' : Option Str → Bool → Option Str → Prop} {α β : Type}

theorem stable_held (hR : Claimable R) : Stable (RootGuarantee slot) i (Held slot i jobId R) := by
  refine Stable.of_step fun j w w' hj h hw => ?_
  have hlease : w.lease (slot jobId) ≠ some j := by
    rw [hw.1]
    exact fun heq => hj (Option.some.inj heq).symm
  obtain ⟨hp, ht, hr⟩ := h.foreign jobId hlease
  refine ⟨?_, ?_⟩
  · rcases h.lease (slot jobId) with heq | ⟨hnone, -⟩ | ⟨howned, -⟩
    · rw [heq, hw.1]
    · rw [hw.1] at hnone
      cases hnone
    · exact absurd howned hlease
  · rw [hp, ht]
    exact hR _ _ _ _ hw.2 hr

/-- What a task leaves behind that fails: after an exception the lease is still held. -/
def Failed (slot : Str → Nat) (i : ι) (jobId : Str) (e : RootFailure) (w : RootWorld ι) : Prop :=
  e = .raised → w.lease (slot jobId) = some i

theorem stable_failed (e : RootFailure) : Stable (RootGuarantee slot) i (Failed slot i jobId e) := by
  have h : Stable (RootGuarantee slot) i (Held slot i jobId fun _ _ _ => True) := stable_held fun _ _ _ _ _ _ => trivial
  intro w w' hw hrely he
  exact (h w w' ⟨hw he, trivial⟩ hrely).1

/-- Operations that leave leases alone. -/
def RootOp.KeepsLease : RootOp → Prop
  | .acquireJob _ | .releaseLease _ => False
  | _ => True

theorem lease_of_done {op : RootOp} {r : RootReply} (h : Done jobIdOf slot i w op r w') (hop : op.KeepsLease) :
    w'.lease = w.lease := by
  cases h <;> first | rfl | exact hop.elim

end

variable [DecidableEq ι]

/-- A crash gives the leases of the process back. -/
theorem RootGuarantee.crash (h : RootGuarantee slot i w w') : RootGuarantee slot i w
    { w' with lease := fun s => if w'.lease s = some i then none else w'.lease s } where
  lease s := by
    dsimp only
    split
    · rename_i hs
      rcases h.lease s with heq | ⟨hnone, -⟩ | ⟨howned, -⟩
      · exact .inr (.inr ⟨heq ▸ hs, rfl⟩)
      · exact .inl hnone.symm
      · exact .inr (.inr ⟨howned, rfl⟩)
    · exact h.lease s
  foreign := h.foreign
  roots := h.roots
  progress := h.progress
  terminal := h.terminal
  unstarted := h.unstarted

theorem guarantee_of_serve {op : RootOp} {r : RootReply} (h : ServeRoot jobIdOf slot i w op r w')
    (ha : op.Allowed slot i w) : RootGuarantee slot i w w' := by
  cases h with
  | done h => exact guarantee_of_done h ha
  | raised => exact .refl w
  | raisedAfter h => exact guarantee_of_done h ha
  | crashed => exact RootGuarantee.crash (.refl w)
  | crashedAfter h => exact (guarantee_of_done h ha).crash

section
variable {jobId g : Str} {R R' : Option Str → Bool → Option Str → Prop} {α β : Type}

/-- What is known after the reply of an operation under the lease. -/
def HeldAfter (slot : Str → Nat) (i : ι) (jobId : Str) (Q : RootReply → Option Str → Bool → Option Str → Prop) (r : RootReply)
    (w : RootWorld ι) : Prop :=
  match r with
  | .raised => w.lease (slot jobId) = some i
  | .crashed => True
  | r => Held slot i jobId (Q r) w

/-- An operation under the lease. -/
theorem ends_held {op : RootOp} {Q : RootReply → Option Str → Bool → Option Str → Prop} (hR : Claimable R)
    (hQ : ∀ r, Claimable (Q r)) (hop : op.KeepsLease) (hallowed : ∀ w, Held slot i jobId R w → op.Allowed slot i w)
    (hdone : ∀ w r w', Held slot i jobId R w → Done jobIdOf slot i w op r w' →
      Q r (w'.progress jobId) (w'.terminal jobId) (w'.roots jobId)) :
    Ends (ServeRoot jobIdOf slot) (RootGuarantee slot) i (Held slot i jobId R) (RootTask.ask op)
      (fun r => Held slot i jobId (Q r)) (Failed slot i jobId) := by
  have hafter : ∀ r, Stable (RootGuarantee slot) i (HeldAfter slot i jobId Q r) := by
    intro r
    cases r with
    | raised => exact fun w w' hw hrely => stable_failed .raised w w' (fun _ => hw) hrely rfl
    | crashed => exact fun _ _ _ _ => trivial
    | claimed => exact stable_held (hQ _)
    | inspected => exact stable_held (hQ _)
    | root => exact stable_held (hQ _)
    | flag => exact stable_held (hQ _)
    | returned => exact stable_held (hQ _)
  refine Ends.bind (Q := HeldAfter slot i jobId Q) (Ends.ask (stable_held hR) (fun w r w' hw hserve => ?_) hafter)
    (fun r => ?_) stable_failed
  · refine ⟨guarantee_of_serve hserve (hallowed w hw), ?_⟩
    cases hserve with
    | done h =>
      have hheld : Held slot i jobId (Q r) w' := ⟨by rw [lease_of_done h hop]; exact hw.1, hdone w r w' hw h⟩
      cases h with
      | other r hr =>
        rcases hr with rfl | ⟨b, rfl⟩
        · exact hheld
        · exact hheld
      | _ => exact hheld
    | raised => exact hw.1
    | raisedAfter h => exact (congrFun (lease_of_done h hop) _).trans hw.1
    | crashed => trivial
    | crashedAfter h => trivial
  · cases r with
    | raised => exact .throw (fun w hw _ => hw) (stable_failed _)
    | crashed => exact .throw (fun w hw he => by cases he) (stable_failed _)
    | claimed => exact .pure (fun w hw => hw) (stable_held (hQ _))
    | inspected => exact .pure (fun w hw => hw) (stable_held (hQ _))
    | root => exact .pure (fun w hw => hw) (stable_held (hQ _))
    | flag => exact .pure (fun w hw => hw) (stable_held (hQ _))
    | returned => exact .pure (fun w hw => hw) (stable_held (hQ _))

/-- An operation whose reply does not matter. -/
theorem ends_perform {op : RootOp} (hR : Claimable R) (hR' : Claimable R') (hop : op.KeepsLease)
    (hallowed : ∀ w, Held slot i jobId R w → op.Allowed slot i w)
    (hdone : ∀ w r w', Held slot i jobId R w → Done jobIdOf slot i w op r w' →
      R' (w'.progress jobId) (w'.terminal jobId) (w'.roots jobId)) :
    Ends (ServeRoot jobIdOf slot) (RootGuarantee slot) i (Held slot i jobId R) (RootTask.perform op)
      (fun _ => Held slot i jobId R') (Failed slot i jobId) :=
  Ends.bind (ends_held hR (fun _ => hR') hop hallowed hdone) (fun _ => .pure (fun _ h => h) (stable_held hR'))
    stable_failed

theorem ends_other (hR : Claimable R) : Ends (ServeRoot jobIdOf slot) (RootGuarantee slot) i (Held slot i jobId R)
    (RootTask.perform .other) (fun _ => Held slot i jobId R) (Failed slot i jobId) := by
  refine ends_perform hR hR trivial (fun _ _ => trivial) fun w r w' hw h => ?_
  cases h
  exact hw.2

theorem ends_require (hR : Claimable R) (c : Prop) [Decidable c] :
    Ends (ServeRoot jobIdOf slot) (RootGuarantee slot) i (Held slot i jobId R) (RootTask.require c)
      (fun _ w => c ∧ Held slot i jobId R w) (Failed slot i jobId) := by
  unfold RootTask.require
  split
  · rename_i hc
    refine .pure (fun w hw => ⟨hc, hw⟩) fun w w' hw hrely => ⟨hc, stable_held hR w w' hw.2 hrely⟩
  · exact .throw (fun w hw _ => hw.1) (stable_failed _)

/-! ### Tasks under the lease -/

abbrev anyJob : Option Str → Bool → Option Str → Prop := fun _ _ _ => True

abbrev fresh : Option Str → Bool → Option Str → Prop := fun p _ _ => p = none

abbrev freshRooted (g : Str) : Option Str → Bool → Option Str → Prop := fun p _ r => p = none ∧ r = some g

abbrev ended : Option Str → Bool → Option Str → Prop := fun _ t _ => t = true

theorem claimable_any : Claimable anyJob := fun _ _ _ _ h _ => h

theorem claimable_fresh : Claimable fresh := fun _ _ _ _ h _ => h

theorem claimable_freshRooted (g : Str) : Claimable (freshRooted g) := fun _ _ _ _ h hr => ⟨h.1, hr g h.2⟩

theorem claimable_ended : Claimable ended := fun _ _ _ _ h _ => h

/-- What was inspected. -/
def seen : Option (Str × Bool) → Option Str → Bool → Option Str → Prop
  | none => fresh
  | some (_, true) => ended
  | some (_, false) => anyJob

theorem claimable_seen (found : Option (Str × Bool)) : Claimable (seen found) := by
  match found with
  | none => exact claimable_fresh
  | some (_, true) => exact claimable_ended
  | some (_, false) => exact claimable_any

theorem ends_inspect (hR : Claimable R) : Ends (ServeRoot jobIdOf slot) (RootGuarantee slot) i (Held slot i jobId R)
    (RootTask.inspect jobId) (fun found => Held slot i jobId (seen found)) (Failed slot i jobId) := by
  have hask : Ends (ServeRoot jobIdOf slot) (RootGuarantee slot) i (Held slot i jobId R) (RootTask.ask (.inspect jobId))
      (fun r => Held slot i jobId fun p t root => ∀ found, r = .inspected found → seen found p t root)
      (Failed slot i jobId) := by
    refine ends_held hR (fun r => ?_) trivial (fun _ _ => trivial) fun w r w' hw h => ?_
    · exact fun p t r r' h hr found hfound => claimable_seen found _ _ _ _ (h found hfound) hr
    · cases h with
      | inspect =>
        rintro found hfound
        obtain rfl := RootReply.inspected.inj hfound
        cases hp : w.progress jobId with
        | none => exact rfl
        | some g =>
          cases ht : w.terminal jobId with
          | true => exact rfl
          | false => trivial
  refine Ends.bind hask (fun r => ?_) stable_failed
  split
  · exact .pure (fun w hw => ⟨hw.1, hw.2 _ rfl⟩) (stable_held (claimable_seen _))
  · exact .throw (fun w hw _ => hw.1) (stable_failed _)

theorem ends_releaseRoot (g : Str) : Ends (ServeRoot jobIdOf slot) (RootGuarantee slot) i (Held slot i jobId ended)
    (RootTask.perform (.releaseRoot jobId g)) (fun _ => Held slot i jobId anyJob) (Failed slot i jobId) :=
  ends_perform claimable_ended claimable_any trivial (fun _ hw => hw) fun _ _ _ _ _ => trivial

/-- Publishing a terminal marker. -/
theorem ends_mark (hR : Claimable R) {op : RootOp} (hop : op = .complete jobId ∨ op = .cancel jobId) :
    Ends (ServeRoot jobIdOf slot) (RootGuarantee slot) i (Held slot i jobId R) (RootTask.perform op)
      (fun _ => Held slot i jobId ended) (Failed slot i jobId) := by
  refine ends_perform hR claimable_ended ?_ (fun w hw => ?_) fun w r w' hw h => ?_
  · rcases hop with rfl | rfl <;> trivial
  · rcases hop with rfl | rfl <;> exact hw.1
  · rcases hop with rfl | rfl <;> cases h <;> exact Function.update_self ..

theorem ends_advanceLocked (hR : Claimable R) (g : Str) : Ends (ServeRoot jobIdOf slot) (RootGuarantee slot) i
    (Held slot i jobId R) (RootTask.advance jobId g) (fun _ => Held slot i jobId anyJob) (Failed slot i jobId) := by
  have hask : Ends (ServeRoot jobIdOf slot) (RootGuarantee slot) i (Held slot i jobId R) (RootTask.ask .other)
      (fun _ => Held slot i jobId anyJob) (Failed slot i jobId) :=
    ends_held hR (fun _ => claimable_any) trivial (fun _ _ => trivial) fun _ _ _ _ _ => trivial
  refine Ends.bind hask (fun r => ?_) stable_failed
  split
  · exact Ends.bind (ends_mark claimable_any (.inl rfl)) (fun _ => ends_releaseRoot g) stable_failed
  · exact .pure (fun _ h => h) (stable_held claimable_any)

theorem ends_beginLocked (g : Str) : Ends (ServeRoot jobIdOf slot) (RootGuarantee slot) i (Held slot i jobId (freshRooted g))
    (RootTask.perform (.begin jobId g)) (fun _ => Held slot i jobId anyJob) (Failed slot i jobId) :=
  ends_perform (claimable_freshRooted g) claimable_any trivial (fun _ hw => ⟨hw.1, hw.2.2⟩) fun _ _ _ _ _ => trivial

theorem ends_generationForRoot : Ends (ServeRoot jobIdOf slot) (RootGuarantee slot) i (Held slot i jobId fresh)
    (RootTask.generationForRoot jobId) (fun found => Held slot i jobId fun p _ r => p = none ∧
      ∀ g, found = some g → r = some g) (Failed slot i jobId) := by
  have hQ : ∀ found : Option Str, Claimable fun p _ r => p = none ∧ ∀ g, found = some g → r = some g :=
    fun _ _ _ _ _ h hr => ⟨h.1, fun g hg => hr g (h.2 g hg)⟩
  have hask : Ends (ServeRoot jobIdOf slot) (RootGuarantee slot) i (Held slot i jobId fresh)
      (RootTask.ask (.generationForRoot jobId))
      (fun reply => Held slot i jobId fun p _ r =>
        p = none ∧ ∀ found, reply = .root found → ∀ g, found = some g → r = some g)
      (Failed slot i jobId) := by
    refine ends_held claimable_fresh (fun reply => ?_) trivial (fun _ _ => trivial) fun w r w' hw h => ?_
    · exact fun _ _ _ _ h hr => ⟨h.1, fun found hf g hg => hr g (h.2 found hf g hg)⟩
    · cases h with
      | generationForRoot =>
        refine ⟨hw.2, ?_⟩
        rintro found hfound g rfl
        exact RootReply.root.inj hfound
  refine Ends.bind hask (fun r => ?_) stable_failed
  split
  · exact .pure (fun w hw => ⟨hw.1, hw.2.1, hw.2.2 _ rfl⟩) (stable_held (hQ _))
  · exact .throw (fun w hw _ => hw.1) (stable_failed _)

theorem ends_verifyRoot (g : Str) : Ends (ServeRoot jobIdOf slot) (RootGuarantee slot) i (Held slot i jobId fresh)
    (RootTask.perform (.verifyRoot jobId g)) (fun _ => Held slot i jobId (freshRooted g)) (Failed slot i jobId) := by
  refine ends_perform claimable_fresh (claimable_freshRooted g) trivial (fun _ _ => trivial) fun w r w' hw h => ?_
  cases h with
  | verifyRoot hroot => exact ⟨hw.2, hroot⟩

theorem ends_any (hR : Claimable R) {op : RootOp} (hop : op = .other ∨ ∃ g, op = .verifyRoot jobId g) :
    Ends (ServeRoot jobIdOf slot) (RootGuarantee slot) i (Held slot i jobId R) (RootTask.perform op)
      (fun _ => Held slot i jobId anyJob) (Failed slot i jobId) := by
  refine ends_perform hR claimable_any ?_ (fun w hw => ?_) fun _ _ _ _ _ => trivial
  · rcases hop with rfl | ⟨g, rfl⟩ <;> trivial
  · rcases hop with rfl | ⟨g, rfl⟩ <;> trivial

theorem ends_startLocked (g : Str) : Ends (ServeRoot jobIdOf slot) (RootGuarantee slot) i (Held slot i jobId anyJob)
    (RootTask.startLocked jobId g) (fun _ => Held slot i jobId anyJob) (Failed slot i jobId) := by
  refine Ends.bind (ends_other claimable_any) (fun _ => ?_) stable_failed
  refine Ends.bind (ends_inspect claimable_any) (fun found => ?_) stable_failed
  split
  · -- a new job begins with the root of its generation
    refine Ends.bind (ends_other claimable_fresh) (fun _ => ?_) stable_failed
    refine Ends.bind (Q := fun _ => Held slot i jobId anyJob) ?_ (fun _ => ends_advanceLocked claimable_any g) stable_failed
    refine Ends.bind ends_generationForRoot (fun found => ?_) stable_failed
    split
    · exact .throw (fun w hw _ => hw.1) (stable_failed _)
    · rename_i existing
      refine Ends.bind (ends_require (fun p t r r' h hr => ⟨h.1, fun g hg => hr g (h.2 g hg)⟩) _) (fun _ => ?_)
        stable_failed
      refine (ends_beginLocked g).conseq ?_ (fun _ _ h => h) fun _ _ h => h
      rintro w ⟨rfl, hw⟩
      exact ⟨hw.1, hw.2.1, hw.2.2 _ rfl⟩
  · refine Ends.bind (ends_require claimable_ended _) (fun _ => ?_) stable_failed
    exact (ends_releaseRoot g).conseq (fun w hw => hw.2) (fun _ _ h => h) fun _ _ h => h
  · refine Ends.bind (ends_require claimable_any _) (fun _ => ?_) stable_failed
    refine Ends.bind (Q := fun _ => Held slot i jobId anyJob)
      ((ends_other claimable_any).conseq (fun w hw => hw.2) (fun _ _ h => h) fun _ _ h => h) (fun _ => ?_) stable_failed
    refine Ends.bind (ends_any claimable_any (.inr ⟨g, rfl⟩)) (fun _ => ?_) stable_failed
    refine Ends.bind (ends_other claimable_any) (fun _ => ?_) stable_failed
    exact ends_advanceLocked claimable_any g

theorem ends_releaseUnstartedClaim (g : Str) : Ends (ServeRoot jobIdOf slot) (RootGuarantee slot) i
    (Held slot i jobId anyJob) (RootTask.releaseUnstartedClaim jobId g) (fun _ => Held slot i jobId anyJob)
    (Failed slot i jobId) := by
  refine Ends.bind (ends_inspect claimable_any) (fun found => ?_) stable_failed
  split
  · exact .pure (fun w hw => ⟨hw.1, trivial⟩) (stable_held claimable_any)
  · have hdiscard : Ends (ServeRoot jobIdOf slot) (RootGuarantee slot) i (Held slot i jobId fresh)
        (RootTask.discardUnstarted jobId) (fun _ => Held slot i jobId fresh) (Failed slot i jobId) := by
      refine Ends.bind (ends_held (Q := fun _ => fresh) claimable_fresh (fun _ => claimable_fresh) trivial
        (fun _ _ => trivial) fun w r w' hw h => ?_) (fun r => ?_) stable_failed
      · cases h <;> exact hw.2
      · split
        · exact .pure (fun _ h => h) (stable_held claimable_fresh)
        · exact .throw (fun w hw _ => hw.1) (stable_failed _)
    refine Ends.bind hdiscard (fun empty => ?_) stable_failed
    split
    · exact .pure (fun w hw => ⟨hw.1, trivial⟩) (stable_held claimable_any)
    · exact ends_perform claimable_fresh claimable_any trivial (fun _ hw => hw) fun _ _ _ _ _ => trivial

theorem ends_resumeLocked (querySha256 profileId : Str) (action : ResumeAction) :
    Ends (ServeRoot jobIdOf slot) (RootGuarantee slot) i (Held slot i jobId anyJob)
      (RootTask.resumeLocked jobIdOf jobId querySha256 profileId action) (fun _ => Held slot i jobId anyJob)
      (Failed slot i jobId) := by
  have hfinish : ∀ g, Ends (ServeRoot jobIdOf slot) (RootGuarantee slot) i (Held slot i jobId anyJob)
      (RootTask.finishResume jobId g action) (fun _ => Held slot i jobId anyJob) (Failed slot i jobId) := by
    intro g
    cases action with
    | poll => exact ends_advanceLocked claimable_any g
    | cancel =>
      refine Ends.bind (ends_other claimable_any) (fun _ => ?_) stable_failed
      exact Ends.bind (ends_mark claimable_any (.inr rfl)) (fun _ => ends_releaseRoot g) stable_failed
  refine Ends.bind (ends_other claimable_any) (fun _ => ?_) stable_failed
  refine Ends.bind (ends_inspect claimable_any) (fun found => ?_) stable_failed
  split
  · refine Ends.bind ends_generationForRoot (fun found => ?_) stable_failed
    split
    · exact .throw (fun w hw _ => hw.1) (stable_failed _)
    · rename_i g
      refine Ends.bind (ends_require (fun p t r r' h hr => ⟨h.1, fun g hg => hr g (h.2 g hg)⟩) _) (fun _ => ?_)
        stable_failed
      refine Ends.bind (Q := fun _ => Held slot i jobId fresh) ((ends_other claimable_fresh).conseq
        (fun w hw => ⟨hw.2.1, hw.2.2.1⟩) (fun _ _ h => h) fun _ _ h => h) (fun _ => ?_) stable_failed
      refine Ends.bind (ends_verifyRoot g) (fun _ => ?_) stable_failed
      refine Ends.bind (ends_other (claimable_freshRooted g)) (fun _ => ?_) stable_failed
      exact Ends.bind (ends_beginLocked g) (fun _ => hfinish g) stable_failed
  · refine Ends.bind (ends_require claimable_ended _) (fun _ => ?_) stable_failed
    exact (ends_releaseRoot _).conseq (fun w hw => hw.2) (fun _ _ h => h) fun _ _ h => h
  · rename_i g
    refine Ends.bind (ends_require claimable_any _) (fun _ => ?_) stable_failed
    refine Ends.bind (Q := fun _ => Held slot i jobId anyJob)
      ((ends_other claimable_any).conseq (fun w hw => hw.2) (fun _ _ h => h) fun _ _ h => h) (fun _ => ?_) stable_failed
    refine Ends.bind (ends_any claimable_any (.inr ⟨g, rfl⟩)) (fun _ => ?_) stable_failed
    refine Ends.bind (ends_other claimable_any) (fun _ => ?_) stable_failed
    exact Ends.bind (ends_other claimable_any) (fun _ => hfinish g) stable_failed

/-! ### Requests -/

omit [DecidableEq ι] in
theorem stable_true {P : RootWorld ι → Prop} (h : ∀ w, P w) : Stable (RootGuarantee slot) i P := fun _ w' _ _ => h w'

/-- An operation that needs nothing and of which nothing is used. -/
theorem ends_free {op : RootOp} (hallowed : ∀ w : RootWorld ι, op.Allowed slot i w) :
    Ends (ServeRoot jobIdOf slot) (RootGuarantee slot) i (fun _ => True) (RootTask.ask op) (fun _ _ => True)
      (fun _ _ => True) := by
  refine Ends.bind (Q := fun _ _ => True) (Ends.ask (stable_true fun _ => trivial)
    (fun w r w' _ hserve => ⟨guarantee_of_serve hserve (hallowed w), trivial⟩) fun _ => stable_true fun _ => trivial)
    (fun r => ?_) fun _ => stable_true fun _ => trivial
  cases r with
  | raised => exact .throw (fun _ _ => trivial) (stable_true fun _ => trivial)
  | crashed => exact .throw (fun _ _ => trivial) (stable_true fun _ => trivial)
  | _ => exact .pure (fun _ _ => trivial) (stable_true fun _ => trivial)

def ClaimedAfter (slot : Str → Nat) (i : ι) (jobId : Str) (r : RootReply) (w : RootWorld ι) : Prop :=
  match r with
  | .raised | .crashed => True
  | _ => Held slot i jobId anyJob w

theorem ends_acquireJob : Ends (ServeRoot jobIdOf slot) (RootGuarantee slot) i (fun _ => True)
    (RootTask.perform (.acquireJob jobId)) (fun _ => Held slot i jobId anyJob) (fun _ _ => True) := by
  have hafter : ∀ r, Stable (RootGuarantee slot) i (ClaimedAfter slot i jobId r) := by
    intro r
    cases r with
    | raised => exact stable_true fun _ => trivial
    | crashed => exact stable_true fun _ => trivial
    | _ => exact stable_held claimable_any
  have hask : Ends (ServeRoot jobIdOf slot) (RootGuarantee slot) i (fun _ => True) (RootTask.ask (.acquireJob jobId))
      (fun _ => Held slot i jobId anyJob) (fun _ _ => True) := by
    refine Ends.bind (Q := ClaimedAfter slot i jobId) (Ends.ask (stable_true fun _ => trivial) (fun w r w' _ hserve => ?_) hafter)
      (fun r => ?_) fun _ => stable_true fun _ => trivial
    · refine ⟨guarantee_of_serve hserve trivial, ?_⟩
      cases hserve with
      | done h =>
        cases h with
        | acquireJob => exact ⟨Function.update_self .., trivial⟩
      | raised => trivial
      | raisedAfter => trivial
      | crashed => trivial
      | crashedAfter => trivial
    · cases r with
      | raised => exact .throw (fun _ _ => trivial) (stable_true fun _ => trivial)
      | crashed => exact .throw (fun _ _ => trivial) (stable_true fun _ => trivial)
      | _ => exact .pure (fun _ h => h) (stable_held claimable_any)
  exact Ends.bind hask (fun _ => .pure (fun _ h => h) (stable_held claimable_any)) fun _ => stable_true fun _ => trivial

theorem ends_releaseLease : Ends (ServeRoot jobIdOf slot) (RootGuarantee slot) i (fun _ => True)
    (RootTask.perform (.releaseLease jobId)) (fun _ _ => True) (fun _ _ => True) :=
  Ends.bind (ends_free fun _ => trivial) (fun _ => .pure (fun _ h => h) (stable_true fun _ => trivial)) fun _ =>
    stable_true fun _ => trivial

/-- A task between taking the lease and giving it back. -/
theorem ends_withLease {task : RootTask Unit} (h : Ends (ServeRoot jobIdOf slot) (RootGuarantee slot) i
    (Held slot i jobId anyJob) task (fun _ => Held slot i jobId anyJob) (Failed slot i jobId)) :
    Ends (ServeRoot jobIdOf slot) (RootGuarantee slot) i (fun _ => True) (RootTask.withLease jobId task)
      (fun _ _ => True) (fun _ _ => True) := by
  refine Ends.bind ends_acquireJob (fun _ => ?_) fun _ => stable_true fun _ => trivial
  refine Ends.bind (Q := fun _ _ => True) ?_ (fun _ => ends_releaseLease) fun _ => stable_true fun _ => trivial
  refine Ends.tryCatch (h.conseq (fun _ h => h) (fun _ _ _ => trivial) fun _ _ _ => trivial) (F := fun _ _ => True)
    (fun e => ?_) fun _ => stable_true fun _ => trivial
  unfold RootTask.onRaised
  split
  · exact Ends.bind ends_releaseLease (fun _ => .throw (fun _ h => h) (stable_true fun _ => trivial)) fun _ =>
      stable_true fun _ => trivial
  · exact .throw (fun _ h => h) (stable_true fun _ => trivial)

theorem ends_start (querySha256 profileId : Str) : Ends (ServeRoot jobIdOf slot) (RootGuarantee slot) i (fun _ => True)
    (RootTask.start jobIdOf querySha256 profileId) (fun _ _ => True) (fun _ _ => True) := by
  refine Ends.bind (ends_free fun _ => trivial) (fun r => ?_) fun _ => stable_true fun _ => trivial
  split
  · rename_i jobId g
    have hlocked : Ends (ServeRoot jobIdOf slot) (RootGuarantee slot) i (Held slot i jobId anyJob)
        (tryCatch (RootTask.startLocked jobId g) (RootTask.onRaised (RootTask.releaseUnstartedClaim jobId g)))
        (fun _ => Held slot i jobId anyJob) (Failed slot i jobId) := by
      refine Ends.tryCatch (ends_startLocked g) (fun e => ?_) fun _ => stable_held claimable_any
      unfold RootTask.onRaised
      split
      · rename_i he
        refine Ends.bind ((ends_releaseUnstartedClaim g).conseq (fun w hw => ⟨hw he, trivial⟩) (fun _ _ h => h)
          fun _ _ h => h) (fun _ => ?_) stable_failed
        exact .throw (fun w hw _ => hw.1) (stable_failed _)
      · exact .throw (fun _ h => h) (stable_failed _)
    refine Ends.bind (Q := fun _ _ => True) ?_ (fun _ => ends_withLease hlocked) fun _ => stable_true fun _ => trivial
    unfold RootTask.require
    split
    · exact .pure (fun _ h => h) (stable_true fun _ => trivial)
    · exact .throw (fun _ h => h) (stable_true fun _ => trivial)
  · exact .throw (fun _ h => h) (stable_true fun _ => trivial)

theorem ends_request (q : JobRequest) : Ends (ServeRoot jobIdOf slot) (RootGuarantee slot) i (fun _ => True)
    (RootTask.serve jobIdOf q) (fun _ _ => True) (fun _ _ => True) := by
  cases q with
  | start querySha256 profileId => exact ends_start querySha256 profileId
  | resume jobId querySha256 profileId action => exact ends_withLease (ends_resumeLocked querySha256 profileId action)
  | activate g =>
    exact Ends.bind (ends_free fun _ => trivial) (fun _ => .pure (fun _ h => h) (stable_true fun _ => trivial)) fun _ =>
      stable_true fun _ => trivial

end

/-- Any number of requests, each by a process of its own, on a world as they find it. -/
def rootConfig (jobIdOf : Str → Str → Str → Str) (requests : ι → JobRequest) (w : RootWorld ι) :
    Config RootOp RootReply (Except RootFailure Unit) (RootWorld ι) ι :=
  ⟨w, fun i => (RootTask.serve jobIdOf (requests i)).run⟩

/-- However start, poll and cancel requests and generation switches interleave, fail or crash, a job
with progress and without a terminal marker has the root of its generation, and a root that a failed
start released was of a job without progress. -/
theorem running_job_rooted (jobIdOf : Str → Str → Str → Str) (slot : Str → Nat) (requests : ι → JobRequest)
    {w : RootWorld ι} (hw : w.Rooted) {c : Config RootOp RootReply (Except RootFailure Unit) (RootWorld ι) ι}
    (hc : Reaches (ServeRoot jobIdOf slot) (rootConfig jobIdOf requests w) c) : c.world.Rooted := by
  have hwp : ∀ i, Wp (ServeRoot jobIdOf slot) (RootGuarantee slot) i ((rootConfig jobIdOf requests w).progs i)
      (fun _ _ => True) (rootConfig jobIdOf requests w).world := by
    intro i
    exact (ends_request (requests i) w trivial).mono fun _ _ _ => trivial
  obtain ⟨-, hchain⟩ := Wp.reachable (Q := fun _ _ _ => True) hwp hc
  generalize c.world = w' at hchain
  induction hchain with
  | refl => exact hw
  | tail _ hstep ih =>
    obtain ⟨j, hG⟩ := hstep
    exact hG.rooted ih

/-! Two starters of one job: the first fails before it has begun, and the second publishes progress. -/

/-- The answers to two processes: the first fails as soon as it holds the lease. -/
def answerRoots (i : Bool) (w : RootWorld Bool) : RootOp → RootReply × RootWorld Bool
  | .claimCurrent q p =>
    match w.roots (w.current ++ q ++ p) with
    | none => (.claimed (w.current ++ q ++ p) w.current,
        { w with roots := Function.update w.roots (w.current ++ q ++ p) (some w.current) })
    | some _ => (.raised, w)
  | .acquireJob jobId =>
    match w.lease jobId.length with
    | none => (.returned, { w with lease := Function.update w.lease jobId.length (some i) })
    | some _ => (.raised, w)
  | .releaseLease jobId =>
    if w.lease jobId.length = some i then (.returned, { w with lease := Function.update w.lease jobId.length none })
    else (.raised, w)
  | .inspect jobId => (.inspected ((w.progress jobId).map fun g => (g, w.terminal jobId)), w)
  | .discardUnstarted jobId =>
    match w.progress jobId with
    | none => (.flag true, w)
    | some _ => (.flag false, w)
  | .releaseUnstarted jobId g =>
    if w.roots jobId = some g then (.returned,
      { w with roots := Function.update w.roots jobId none, unstarted := (jobId, w.progress jobId) :: w.unstarted })
    else (.raised, w)
  | .generationForRoot jobId => (.root (w.roots jobId), w)
  | .begin jobId g => (.returned, { w with progress := Function.update w.progress jobId (some g) })
  | .other => if i then (.returned, w) else (.raised, w)
  | _ => (.raised, w)

theorem serve_answerRoots (i : Bool) (w : RootWorld Bool) (op : RootOp) :
    ServeRoot (fun g q p => g ++ q ++ p) List.length i w op (answerRoots i w op).1 (answerRoots i w op).2 := by
  cases op with
  | claimCurrent q p =>
    simp only [answerRoots]
    split
    · rename_i hroot
      exact .done (.claimNew hroot)
    · exact .raised
  | acquireJob jobId =>
    simp only [answerRoots]
    split
    · rename_i hfree
      exact .done (.acquireJob hfree)
    · exact .raised
  | releaseLease jobId =>
    simp only [answerRoots]
    split
    · rename_i hheld
      exact .done (.releaseLease hheld)
    · exact .raised
  | inspect jobId => exact .done .inspect
  | discardUnstarted jobId =>
    simp only [answerRoots]
    split
    · rename_i hnone
      exact .done (.discarded hnone)
    · exact .done .notEmpty
  | releaseUnstarted jobId g =>
    simp only [answerRoots]
    split
    · rename_i hroot
      exact .done (.releaseUnstarted (.inr hroot))
    · exact .raised
  | generationForRoot jobId => exact .done .generationForRoot
  | begin jobId g => exact .done .begin
  | other =>
    cases i with
    | true => exact .done (.other _ (.inl rfl))
    | false => exact .raised
  | _ => exact .raised

def noJobs : RootWorld Bool := ⟨"g".toList, fun _ => none, fun _ => none, fun _ => false, fun _ => none, []⟩

/-- The first starter to its end, then the second until its first checkpoint. -/
def retriedStart : Config RootOp RootReply (Except RootFailure Unit) (RootWorld Bool) Bool :=
  (rootConfig (fun g q p => g ++ q ++ p) (fun _ => .start "q".toList "p".toList) noJobs).turns answerRoots
    (List.replicate 7 false ++ List.replicate 7 true)

theorem retriedStart_world : retriedStart.world.progress "gqp".toList = some "g".toList ∧
    retriedStart.world.terminal "gqp".toList = false ∧ retriedStart.world.unstarted = [("gqp".toList, none)] := by
  decide

/-- The root that the failed start has released is claimed again when there is progress. -/
theorem running_job_rooted_claimed : retriedStart.world.progress "gqp".toList = some "g".toList ∧
    retriedStart.world.unstarted = [("gqp".toList, none)] ∧ retriedStart.world.Rooted ∧
    retriedStart.world.roots "gqp".toList = some "g".toList := by
  have hrooted : retriedStart.world.Rooted :=
    running_job_rooted (fun g q p => g ++ q ++ p) List.length (fun _ => .start "q".toList "p".toList)
      ⟨fun _ _ h => absurd h (by simp [noJobs]), by simp [noJobs]⟩ (reaches_turns serve_answerRoots _ _)
  obtain ⟨hprogress, hterminal, hunstarted⟩ := retriedStart_world
  exact ⟨hprogress, hunstarted, hrooted, hrooted.running _ _ hprogress hterminal⟩

end CardRag.MapReduce
