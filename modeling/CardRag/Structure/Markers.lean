import CardRag.Structure.Bare

/-! # The exception of a foreign page marker

`parse_structure_artifact` raises "embedded OCR page marker does not match PageRecord" in its line
loop and nowhere else, and the line loop raises nothing else. So on input that passes the checks the
parser ends that way exactly when some line is the marker of another page. -/

namespace CardRag

open Guard

/-- The exception of the line loop. -/
def markerMismatch : Raised := structureError "embedded OCR page marker does not match PageRecord"

section
variable {H : Sha256} {U : Unicode} {inp : StructureInput} {profile : IssuerParserProfile}

/-! ### The line loop raises nothing else -/

theorem stepLine_raises (boilerplate : List (Nat × Nat × Nat)) (st : ParserState) (l : SourceLine)
    (rest : List SourceLine) : Raises (· = markerMismatch) (st.stepLine H U profile boilerplate l rest) := by
  refine Raises.bind (raises_raiseIf rfl) fun _ => ?_
  split
  · exact raises_pure _
  · split
    · exact raises_pure _
    · split <;> exact raises_pure _

theorem stepLines_raises (boilerplate : List (Nat × Nat × Nat)) (st : ParserState) (lines : List SourceLine) :
    Raises (· = markerMismatch) (ParserState.stepLines H U profile boilerplate st lines) := by
  induction lines generalizing st with
  | nil => exact raises_pure st
  | cons l rest ih => exact (stepLine_raises boilerplate st l rest).bind fun st' => ih st'

theorem parseDrafts_raises : Raises (· = markerMismatch) (parseDrafts H U inp profile) := by
  refine raises_foldlM (fun st lines => ?_) _
  refine (stepLines_raises _ _ _).bind fun st' => ?_
  split <;> exact raises_pure _

/-! ### The validator raises something else -/

/-- An exception other than the one of the line loop. -/
def Elsewhere (e : Raised) : Prop := e ≠ markerMismatch

theorem elsewhere_of_message {cls : ExceptionClass} {message : String} (h : message ≠ markerMismatch.message) :
    Elsewhere ⟨cls, message⟩ := by
  intro heq
  exact h (congrArg Raised.message heq)

/-- A check whose message is another one. -/
theorem check_raises {c : Prop} [Decidable c] {cls : ExceptionClass} {message : String}
    (h : message ≠ markerMismatch.message) : Raises Elsewhere (raiseIf c ⟨cls, message⟩) :=
  raises_raiseIf (elsewhere_of_message h)

theorem issuerCode_raises (issuer : Str) : Raises Elsewhere (issuerCode issuer) :=
  check_raises (by decide)

theorem requireContextMetadata_raises {cls : ExceptionClass} (value : Str) {label : String}
    (h1 : label ++ " must be a non-empty trimmed string" ≠ markerMismatch.message)
    (h2 : label ++ " must not contain control characters" ≠ markerMismatch.message) :
    Raises Elsewhere (requireContextMetadata cls value label) :=
  (check_raises h1).bind fun _ => check_raises h2

theorem requireCanonicalEffectiveDate_raises (cls : ExceptionClass) (value : Option Str) :
    Raises Elsewhere (requireCanonicalEffectiveDate cls value) := by
  cases value with
  | none => exact raises_pure ()
  | some value => exact check_raises (by decide)

theorem makeProductLineageId_raises (issuer productCode documentType : Str) :
    Raises Elsewhere (makeProductLineageId H issuer productCode documentType) := by
  refine (issuerCode_raises issuer).bind fun _ => ?_
  refine (check_raises (by decide)).bind fun _ => ?_
  refine (check_raises (by decide)).bind fun _ => raises_pure _

theorem makeContractRevisionId_raises (lineageId sourceId pdfSha256 : Str) :
    Raises Elsewhere (makeContractRevisionId H lineageId sourceId pdfSha256) := by
  refine (check_raises (by decide)).bind fun _ => ?_
  refine (check_raises (by decide)).bind fun _ => ?_
  refine (check_raises (by decide)).bind fun _ => raises_pure _

variable {a : StructureArtifact}

theorem validateIdentity_raises : Raises Elsewhere (a.validateIdentity H) := by
  refine (check_raises (by decide)).bind fun _ => ?_
  refine (issuerCode_raises _).bind fun _ => ?_
  refine (requireContextMetadata_raises _ (by decide) (by decide)).bind fun _ => ?_
  refine (requireContextMetadata_raises _ (by decide) (by decide)).bind fun _ => ?_
  refine (requireCanonicalEffectiveDate_raises _ _).bind fun _ => ?_
  refine (check_raises (by decide)).bind fun _ => ?_
  refine (makeProductLineageId_raises _ _ _).bind fun _ => ?_
  refine (check_raises (by decide)).bind fun _ => ?_
  refine (makeContractRevisionId_raises _ _ _).bind fun _ => ?_
  exact check_raises (by decide)

theorem validatePages_raises : Raises Elsewhere (a.validatePages H) := by
  refine (check_raises (by decide)).bind fun _ => ?_
  refine (check_raises (by decide)).bind fun _ => ?_
  refine (raises_forM fun page => check_raises (by decide)).bind fun _ => ?_
  refine (check_raises (by decide)).bind fun _ => ?_
  refine (check_raises (by decide)).bind fun _ => ?_
  exact check_raises (by decide)

theorem validateRoot_raises : Raises Elsewhere a.validateRoot := by
  refine (check_raises (by decide)).bind fun _ => ?_
  refine (check_raises (by decide)).bind fun _ => ?_
  split
  · exact (check_raises (by decide)).bind fun _ => check_raises (by decide)
  · exact raises_throw (elsewhere_of_message (by decide))

theorem validateSpan_raises (pages : List StructurePage) (s : NodeSpan) :
    Raises Elsewhere (validateSpan H pages s) := by
  unfold validateSpan
  split
  · exact raises_throw (elsewhere_of_message (by decide))
  · refine (check_raises (by decide)).bind fun _ => ?_
    exact (check_raises (by decide)).bind fun _ => check_raises (by decide)

theorem validateParent_raises (node : StructureNode) : Raises Elsewhere (a.validateParent node) := by
  unfold StructureArtifact.validateParent
  split
  · exact raises_pure ()
  · split
    · exact raises_throw (elsewhere_of_message (by decide))
    · exact (check_raises (by decide)).bind fun _ => check_raises (by decide)

theorem validateSpans_raises (node : StructureNode) : Raises Elsewhere (a.validateSpans H node) := by
  refine (check_raises (by decide)).bind fun _ => ?_
  refine (check_raises (by decide)).bind fun _ => ?_
  refine (raises_forM fun s => validateSpan_raises _ s).bind fun _ => ?_
  refine (check_raises (by decide)).bind fun _ => ?_
  refine (check_raises (by decide)).bind fun _ => ?_
  exact check_raises (by decide)

theorem validateTable_raises (node : StructureNode) : Raises Elsewhere (a.validateTable node) := by
  unfold StructureArtifact.validateTable
  split
  · split
    · exact raises_throw (elsewhere_of_message (by decide))
    · refine (check_raises (by decide)).bind fun _ => ?_
      exact (check_raises (by decide)).bind fun _ => check_raises (by decide)
  · exact check_raises (by decide)
  · exact check_raises (by decide)

theorem validateNodes_raises : Raises Elsewhere (a.validateNodes H) := by
  refine (raises_forM fun (node, ordinal) => ?_).bind fun _ => raises_forM fun table => check_raises (by decide)
  refine (check_raises (by decide)).bind fun _ => ?_
  refine (check_raises (by decide)).bind fun _ => ?_
  refine (validateParent_raises node).bind fun _ => ?_
  exact (validateSpans_raises node).bind fun _ => validateTable_raises node

theorem validateLinks_raises : Raises Elsewhere a.validateLinks := by
  refine raises_forM fun (link, ordinal) => (check_raises (by decide)).bind fun _ => ?_
  split
  · exact (check_raises (by decide)).bind fun _ => check_raises (by decide)
  · exact raises_throw (elsewhere_of_message (by decide))

theorem validateCoverage_raises : Raises Elsewhere (a.validateCoverage H) := by
  have hleaf : ∀ st leaf, Raises Elsewhere (a.coverLeaf st leaf) := by
    intro st leaf
    refine (check_raises (by decide)).bind fun _ => raises_foldlM (fun st cell => ?_) _
    refine Raises.bind ?_ fun _ => raises_pure _
    exact (check_raises (by decide)).bind fun _ => raises_pure _
  refine (raises_foldlM hleaf _).bind fun st => ?_
  refine (raises_forM fun page => (check_raises (by decide)).bind fun _ => check_raises (by decide)).bind fun _ => ?_
  refine (check_raises (by decide)).bind fun _ => ?_
  exact (raises_forM fun node => check_raises (by decide)).bind fun _ => raises_pure _

theorem validateStructureArtifact_raises : Raises Elsewhere (validateStructureArtifact H a) := by
  refine validateIdentity_raises.bind fun _ => ?_
  refine validatePages_raises.bind fun _ => ?_
  refine validateRoot_raises.bind fun _ => ?_
  refine validateNodes_raises.bind fun _ => ?_
  exact validateLinks_raises.bind fun _ => validateCoverage_raises

/-! ### The parser -/

/-- On input that passes the checks the parser raises the exception exactly when some line is the
marker of another page. -/
theorem parse_markerMismatch_iff (hcheck : inp.check = .ok ()) (hprofile : inp.selectProfile = .ok profile) :
    parseStructureArtifact H U inp = .error markerMismatch ↔ ¬ inp.MarkersOwn := by
  obtain ⟨lineageId, hlineage, revisionId, hrevision⟩ := lineage_returns (H := H) hcheck
  cases hst : parseDrafts H U inp profile with
  | ok st =>
    have hparsed : ∃ a, parsedArtifact H U inp = .ok a := by
      simp only [parsedArtifact, bind_eq_ok, exists_unit, pure_eq_ok]
      exact ⟨_, hcheck, profile, hprofile, lineageId, hlineage, revisionId, hrevision, st, hst, rfl⟩
    obtain ⟨a, ha⟩ := hparsed
    have hother : Raises Elsewhere (parseStructureArtifact H U inp) := by
      rw [parseStructureArtifact, ha]
      exact validateStructureArtifact_raises.bind fun _ => raises_pure _
    exact ⟨fun h => absurd rfl (hother _ h), fun h => absurd (markersOwn_of_drafts hst) h⟩
  | error e =>
    obtain rfl := parseDrafts_raises e hst
    have hparsed : parsedArtifact H U inp = .error markerMismatch := by
      rw [parsedArtifact, hcheck, hprofile]
      show (makeProductLineageId H inp.issuer inp.productCode inp.documentType >>= _) = _
      rw [hlineage]
      show (makeContractRevisionId H lineageId inp.sourceId inp.pdfSha256 >>= _) = _
      rw [hrevision]
      exact bind_error hst _
    refine ⟨fun _ hmark => ?_, fun _ => bind_error hparsed _⟩
    obtain ⟨st, hok⟩ := parseDrafts_returns H U profile hmark
    rw [hst] at hok
    cases hok

end

end CardRag
