import CardRag.Structure.Searchable

/-! # The structure stage of the pipeline

The pipeline parses the pages, falls back to unclassified leaves when the parser or the views fail,
and keeps an artifact with at least one view. A document whose lines are all blank, boilerplate or
page markers has no item and no heading: its only view is the contract. -/

namespace CardRag

inductive FallbackReason where
  | parserFailed | derivedViewFailed
deriving DecidableEq, Repr

/-- The stage that `_StructureFallbackFailed` names. -/
inductive FailureStage where
  | parser | derivedViews
deriving DecidableEq, Repr

/-- The limits of the pipeline: `V5_VIEW_MAXIMUM_CHARACTERS` and the tokens of the profile. -/
def v5Limits (maximumTokens : Int) (tokenCounter : Str → Except Raised Int) : ViewLimits :=
  ⟨131072, some maximumTokens, some tokenCounter⟩

section
variable (H : Sha256) (U : Unicode) (lim : ViewLimits)

def unclassifiedFallbackV5 (inp : StructureInput) : Except Raised StructureArtifact := do
  let fallback ← buildUnclassifiedFallbackArtifact H inp
  let _ ← validateStructureArtifact H fallback
  pure fallback

def parseV5 (inp : StructureInput) : Except Raised StructureArtifact := do
  let artifact ← parseStructureArtifact H U inp
  let _ ← validateStructureArtifact H artifact
  pure artifact

def structureV5 (inp : StructureInput) : Except FailureStage (StructureArtifact × Option FallbackReason) :=
  match parseV5 H U inp with
  | .ok artifact => .ok (artifact, none)
  | .error _ =>
    match unclassifiedFallbackV5 H inp with
    | .ok artifact => .ok (artifact, some .parserFailed)
    | .error _ => .error .parser

def buildRows (candidate : StructureArtifact) : Except Raised (List DerivedView) := do
  let generated ← candidate.buildDerivedViews H lim
  raiseIf (generated = []) (valueError "structure artifact produced no searchable derived view")
  pure generated

def makeViewsV5 (inp : StructureInput) (artifact : StructureArtifact) (reason : Option FallbackReason) :
    Except FailureStage (StructureArtifact × List DerivedView × Option FallbackReason) :=
  match buildRows H lim artifact with
  | .ok rows => .ok (artifact, rows, reason)
  | .error _ =>
    if reason.isSome then .error .derivedViews
    else match unclassifiedFallbackV5 H inp >>= fun fallback => (fallback, ·) <$> buildRows H lim fallback with
      | .ok (fallback, rows) => .ok (fallback, rows, some .derivedViewFailed)
      | .error _ => .error .derivedViews

/-- The artifact and the views of a document. -/
def deriveV5 (inp : StructureInput) :
    Except FailureStage (StructureArtifact × List DerivedView × Option FallbackReason) := do
  let (artifact, reason) ← structureV5 H U inp
  makeViewsV5 H lim inp artifact reason

end

section
variable {H : Sha256} {U : Unicode} {lim : ViewLimits} {inp : StructureInput} {a : StructureArtifact}
  {views : List DerivedView} {reason : Option FallbackReason}

theorem buildRows_eq_ok : buildRows H lim a = .ok views ↔ a.buildDerivedViews H lim = .ok views ∧ views ≠ [] := by
  simp only [buildRows, Guard.bind_eq_ok, raiseIf_eq_ok, Guard.exists_unit, Guard.pure_eq_ok]
  constructor
  · rintro ⟨views, h, hne, rfl⟩
    exact ⟨h, hne⟩
  · rintro ⟨h, hne⟩
    exact ⟨views, h, hne, rfl⟩

theorem parseV5_eq_ok : parseV5 H U inp = .ok a ↔ parseStructureArtifact H U inp = .ok a := by
  simp only [parseV5, Guard.bind_eq_ok, Guard.pure_eq_ok]
  constructor
  · rintro ⟨b, h, _, -, rfl⟩
    exact h
  · intro h
    obtain ⟨c, hc⟩ := StructureArtifact.validate_ok_iff.2 (parseStructureArtifact_eq_ok.1 h).2
    exact ⟨a, h, c, hc, rfl⟩

theorem unclassifiedFallbackV5_eq_ok (h : unclassifiedFallbackV5 H inp = .ok a) :
    buildUnclassifiedFallbackArtifact H inp = .ok a := by
  simp only [unclassifiedFallbackV5, Guard.bind_eq_ok, Guard.pure_eq_ok] at h
  obtain ⟨b, h, _, -, rfl⟩ := h
  exact h

/-- What the stage returns: the parsed artifact if it has views, else the fallback. -/
theorem deriveV5_cases (h : deriveV5 H U lim inp = .ok (a, views, reason)) :
    (a.buildDerivedViews H lim = .ok views ∧ views ≠ []) ∧
    (parseStructureArtifact H U inp = .ok a ∨
      buildUnclassifiedFallbackArtifact H inp = .ok a ∧
        ∀ p rows, parseStructureArtifact H U inp = .ok p → buildRows H lim p ≠ .ok rows) := by
  simp only [deriveV5, Guard.bind_eq_ok] at h
  obtain ⟨⟨artifact, why⟩, hs, hm⟩ := h
  have hstage : (parseStructureArtifact H U inp = .ok artifact ∧ why = none) ∨
      (buildUnclassifiedFallbackArtifact H inp = .ok artifact ∧ why.isSome = true ∧
        ∀ p, parseStructureArtifact H U inp ≠ .ok p) := by
    unfold structureV5 at hs
    split at hs
    · rename_i p hp
      simp only [Except.ok.injEq, Prod.mk.injEq] at hs
      obtain ⟨rfl, rfl⟩ := hs
      exact .inl ⟨parseV5_eq_ok.1 hp, rfl⟩
    · rename_i e he
      split at hs
      · rename_i f hf
        simp only [Except.ok.injEq, Prod.mk.injEq] at hs
        obtain ⟨rfl, rfl⟩ := hs
        refine .inr ⟨unclassifiedFallbackV5_eq_ok hf, rfl, fun p hp => ?_⟩
        rw [parseV5_eq_ok.2 hp] at he
        cases he
      · cases hs
  unfold makeViewsV5 at hm
  dsimp only at hm
  split at hm
  · rename_i rows hrows
    simp only [Except.ok.injEq, Prod.mk.injEq] at hm
    obtain ⟨rfl, rfl, rfl⟩ := hm
    refine ⟨buildRows_eq_ok.1 hrows, ?_⟩
    rcases hstage with ⟨hp, -⟩ | ⟨hf, -, hnone⟩
    · exact .inl hp
    · exact .inr ⟨hf, fun p _ hp => absurd hp (hnone p)⟩
  · rename_i e he
    split at hm
    · cases hm
    · rename_i hwhy
      rcases hstage with ⟨hp, -⟩ | ⟨-, hsome, -⟩
      · split at hm
        · rename_i f rows hf
          simp only [Except.ok.injEq, Prod.mk.injEq] at hm
          obtain ⟨rfl, rfl, rfl⟩ := hm
          simp only [Guard.bind_eq_ok, Guard.map_eq_ok, Prod.mk.injEq] at hf
          obtain ⟨b, hb, rows', hrows, rfl, rfl⟩ := hf
          refine ⟨buildRows_eq_ok.1 hrows, .inr ⟨unclassifiedFallbackV5_eq_ok hb, fun p rows'' hp' hr => ?_⟩⟩
          rw [hp] at hp'
          cases hp'
          rw [he] at hr
          cases hr
        · cases hm
      · exact absurd hsome hwhy

end

end CardRag
