import CardRag.Structure.Bare

/-! # The fallback is total, and the replay that lacks it

`build_unclassified_fallback_artifact` returns on every document that passes the input checks, so
the structure stage of the full run always has an artifact. The replay of a partial execution
(`replay_pdf_source`) parses and builds the views once more without that rescue: it agrees with the
full run exactly on the documents for which the full run needed none. -/

namespace CardRag

section
variable (H : Sha256) (U : Unicode) (lim : ViewLimits)

/-- The structure stage of `replay_pdf_source(…)`, when the plan does not skip it. -/
def replayPdfSource (inp : StructureInput) : Except Raised (StructureArtifact × List DerivedView) := do
  let artifact ← parseStructureArtifact H U inp
  let _ ← validateStructureArtifact H artifact
  let views ← artifact.buildDerivedViews H lim
  pure (artifact, views)

/-- The parser's own artifact carries the document: no line is the marker of another page, the headers
of every table lead, and the views of what was parsed are built and not empty. -/
structure StructureInput.Direct (inp : StructureInput) : Prop where
  markers : inp.MarkersOwn
  headers : ∃ profile, inp.selectProfile = .ok profile ∧ headersLead U inp profile = true
  views : ∀ p, parsedArtifact H U inp = .ok p → ∃ rows, p.buildDerivedViews H lim = .ok rows ∧ rows ≠ []

end

section
variable {H : Sha256} {U : Unicode} {lim : ViewLimits} {inp : StructureInput} {a : StructureArtifact}
  {views : List DerivedView} {reason : Option FallbackReason}

/-! ### The fallback -/

theorem unclassifiedFallbackV5_of_build (h : buildUnclassifiedFallbackArtifact H inp = .ok a) :
    unclassifiedFallbackV5 H inp = .ok a := by
  obtain ⟨c, hc⟩ := StructureArtifact.validate_ok_iff.2 (wellFormed_of_fallback h)
  simp only [unclassifiedFallbackV5, Guard.bind_eq_ok, Guard.pure_eq_ok]
  exact ⟨a, h, c, hc, rfl⟩

/-- On every document that passes the input checks the fallback returns an artifact that the validator
accepts, so the parser stage never fails. -/
theorem fallback_total (hcheck : inp.check = .ok ()) (hprofile : ∀ p ∈ inp.profile, p.issuer = inp.issuer)
    (hinj : H.InjectiveOn (fallbackPayloads H inp)) :
    (∃ a c, buildUnclassifiedFallbackArtifact H inp = .ok a ∧ validateStructureArtifact H a = .ok c) ∧
      ∃ r, structureV5 H U inp = .ok r := by
  obtain ⟨profile, hsel⟩ := selectProfile_returns hcheck hprofile
  obtain ⟨a, ha⟩ := fallback_returns hcheck hsel hinj
  obtain ⟨c, hc⟩ := StructureArtifact.validate_ok_iff.2 (wellFormed_of_fallback ha)
  refine ⟨⟨a, c, ha, hc⟩, ?_⟩
  unfold structureV5
  split
  · exact ⟨_, rfl⟩
  · rw [unclassifiedFallbackV5_of_build ha]
    exact ⟨_, rfl⟩

end

/-- A page that quotes the marker of another one. -/
def foreignMarker : StructureInput := sampleInput [⟨['d'], 1, "x\n ## Page 7".toList⟩]

theorem fallback_total_foreignMarker : foreignMarker.check = .ok () ∧
    ((∃ a c, buildUnclassifiedFallbackArtifact .standard foreignMarker = .ok a ∧
      validateStructureArtifact .standard a = .ok c) ∧ ∃ r, structureV5 .standard .ascii foreignMarker = .ok r) := by
  have hcheck : foreignMarker.check = .ok () := by decide +kernel
  have hdigests : (fallbackPayloads .standard foreignMarker).map
      (fun t => (Sha256.standard.hexdigest t).take 1) = [['5'], ['7'], ['1'], ['b']] := by decide +kernel
  exact ⟨hcheck, fallback_total hcheck (by decide) (Sha256.injectiveOn_of_nodup 1 (by rw [hdigests]; decide))⟩

section
variable {H : Sha256} {U : Unicode} {lim : ViewLimits} {inp : StructureInput} {a : StructureArtifact}
  {views : List DerivedView} {reason : Option FallbackReason}

/-! ### The replay -/

theorem replayPdfSource_eq_ok : replayPdfSource H U lim inp = .ok (a, views) ↔
    parseStructureArtifact H U inp = .ok a ∧ a.buildDerivedViews H lim = .ok views := by
  simp only [replayPdfSource, Guard.bind_eq_ok, Guard.pure_eq_ok, Prod.mk.injEq]
  constructor
  · rintro ⟨b, hb, _, -, views', hv, rfl, rfl⟩
    exact ⟨hb, hv⟩
  · rintro ⟨ha, hv⟩
    obtain ⟨c, hc⟩ := StructureArtifact.validate_ok_iff.2 (parseStructureArtifact_eq_ok.1 ha).2
    exact ⟨a, ha, c, hc, views, hv, rfl, rfl⟩

theorem check_of_derive (h : deriveV5 H U lim inp = .ok (a, views, reason)) : inp.check = .ok () := by
  rcases (deriveV5_cases h).2 with hp | ⟨hf, -⟩
  · obtain ⟨_, _, _, _, hc, -⟩ := parsedArtifact_eq (parseStructureArtifact_eq_ok.1 hp).1
    exact hc
  · obtain ⟨_, _, _, _, hc, -⟩ := fallbackArtifact_eq hf
    exact hc

/-- The document is carried by the parser's artifact exactly when the parser returns one with views. -/
theorem direct_iff (hcheck : inp.check = .ok ()) (hinj : H.InjectiveOn (parsedPayloads H U inp)) :
    inp.Direct H U lim ↔ ∃ p rows, parseStructureArtifact H U inp = .ok p ∧
      p.buildDerivedViews H lim = .ok rows ∧ rows ≠ [] := by
  constructor
  · rintro ⟨hmark, ⟨profile, hprofile, hlead⟩, hviews⟩
    obtain ⟨p, hp⟩ := exists_parse_of_headersLead hcheck hprofile hmark hinj hlead
    obtain ⟨rows, hrows, hne⟩ := hviews p (parseStructureArtifact_eq_ok.1 hp).1
    exact ⟨p, rows, hp, hrows, hne⟩
  · rintro ⟨p, rows, hp, hrows, hne⟩
    obtain ⟨hparsed, -⟩ := parseStructureArtifact_eq_ok.1 hp
    obtain ⟨profile, _, _, _, -, hprofile, -⟩ := parsedArtifact_eq hparsed
    refine ⟨markersOwn_of_parse hp, ⟨profile, hprofile, headersLead_of_parse hp hprofile⟩, fun q hq => ?_⟩
    rw [hparsed] at hq
    cases hq
    exact ⟨rows, hrows, hne⟩

/-- Where the full run has an artifact and views, the replay has the same ones exactly when the full
run did not fall back. -/
theorem replay_agrees_iff (h : deriveV5 H U lim inp = .ok (a, views, reason))
    (hinj : H.InjectiveOn (parsedPayloads H U inp)) :
    replayPdfSource H U lim inp = .ok (a, views) ↔ inp.Direct H U lim := by
  obtain ⟨⟨hv, hne⟩, hfrom⟩ := deriveV5_cases h
  rw [direct_iff (check_of_derive h) hinj, replayPdfSource_eq_ok]
  constructor
  · rintro ⟨ha, hv⟩
    exact ⟨a, views, ha, hv, hne⟩
  · rintro ⟨p, rows, hp, hrows, hrne⟩
    rcases hfrom with ha | ⟨-, hfail⟩
    · exact ⟨ha, hv⟩
    · exact absurd (buildRows_eq_ok.2 ⟨hrows, hrne⟩) (hfail p rows hp)

end

/-- The limits of the pipeline with a token per character. -/
def tokenPerCharacter : ViewLimits := v5Limits 1000 fun text => .ok text.length

theorem derive_foreignMarker : ∃ a views reason,
    deriveV5 .standard .ascii tokenPerCharacter foreignMarker = .ok (a, views, reason) := by
  have heval : (deriveV5 .standard .ascii tokenPerCharacter foreignMarker).isOk = true := by decide +kernel
  obtain ⟨⟨a, views, reason⟩, h⟩ := Guard.exists_ok_of_isOk heval
  exact ⟨a, views, reason, h⟩

theorem replay_agrees_foreignMarker : ∃ a views reason,
    deriveV5 .standard .ascii tokenPerCharacter foreignMarker = .ok (a, views, reason) ∧
    (replayPdfSource .standard .ascii tokenPerCharacter foreignMarker = .ok (a, views) ↔
      foreignMarker.Direct .standard .ascii tokenPerCharacter) := by
  obtain ⟨a, views, reason, h⟩ := derive_foreignMarker
  have hnone : parsedPayloads .standard .ascii foreignMarker = [] := by decide +kernel
  exact ⟨a, views, reason, h, replay_agrees_iff h (by rw [hnone]; rintro _ ⟨⟩)⟩

theorem replay_refuses_foreignMarker : (∃ a views reason,
    deriveV5 .standard .ascii tokenPerCharacter foreignMarker = .ok (a, views, reason)) ∧
    ¬ ∃ r, replayPdfSource .standard .ascii tokenPerCharacter foreignMarker = .ok r := by
  refine ⟨derive_foreignMarker, ?_⟩
  rintro ⟨⟨a, views⟩, h⟩
  have hforeign : ¬ foreignMarker.MarkersOwn := by decide +kernel
  exact hforeign (markersOwn_of_parse (replayPdfSource_eq_ok.1 h).1)

end CardRag
