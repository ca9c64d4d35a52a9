import CardRag.Lib.Packing
import CardRag.Search.Outline

/-! # The lexical lane

Lexical hits do not change the dense matches of a bundle, but they take room in the response. A search
returns what it would return without them exactly when what the kept lexical nodes take is in the room that
the dense bundles leave (`lexical_diagnostic_iff`). -/

namespace CardRag.Search

section
variable {σ : Type} {R : Runtime σ}

/-! ### The loop as two runs over the ranking -/

/-- Nodes and characters. -/
abbrev Size := Nat × Nat

def Packed.size (st : Packed σ) : Size := (st.responseNodeCount, st.responseCharacterCount)

variable (R) in
def ContractEvidenceBundle.size (b : ContractEvidenceBundle σ) : Size := (b.nodes.length, b.contextCharacterCount R)

/-- The response budget. -/
def Fits (s : Size) : Prop := s.1 ≤ maxSearchResponseNodes ∧ s.2 ≤ maxSearchResponseCharacters

instance (s : Size) : Decidable (Fits s) := inferInstanceAs (Decidable (_ ∧ _))

variable (R) in
/-- The dense bundle of a contract on top of what is spent. -/
def denseMove (q : Ranking σ) (spent : Size) (revisionId : Str) : Packing.Move Size :=
  match q.bundle R revisionId [] with
  | .error _ => .fail
  | .ok b => if Fits (spent + b.1.size R) then .keep (spent + b.1.size R) else .stop

variable (R) in
/-- The bundle with the lexical nodes where it fits, the dense bundle where it does not. -/
def lexicalMove (q : Ranking σ) (lexical : LexicalNodes) (spent : Size) (revisionId : Str) : Packing.Move Size :=
  match q.bundle R revisionId (lexicalHitIds R q.nodeScores lexical revisionId) with
  | .error _ => .fail
  | .ok b => if Fits (spent + b.1.size R) then .keep (spent + b.1.size R) else denseMove R q spent revisionId

theorem exceeds_eq_false_iff {st : Packed σ} {b : ContractEvidenceBundle σ} :
    st.exceeds R b = false ↔ Fits (st.size + b.size R) := by
  rw [Packed.exceeds, Bool.or_eq_false_iff, decide_eq_false_iff_not, decide_eq_false_iff_not, not_lt, not_lt]
  rfl

theorem lexicalHitIds_nil (nodeScores : NodeScores σ) (revisionId : Str) :
    lexicalHitIds R nodeScores (fun _ => []) revisionId = [] := rfl

variable {q : Ranking σ} {lexical : LexicalNodes} {st : Packed σ} {revisionId : Str}

/-- A bundle of a revision whose lexical nodes are not dense hits. -/
def IsBundle (R : Runtime σ) (q : Ranking σ) (revisionId : Str) (b : ContractEvidenceBundle σ) : Prop :=
  ∃ hits fallback, (∀ id ∈ denseHitIds R q.nodeScores revisionId, id ∉ hits) ∧
    q.bundle R revisionId hits = .ok (b, fallback)

/-! ### The search with and without lexical nodes -/

/-- The bundles a search returns, as far as the lexical lane must not change them; `none` is an
exception. -/
def outcome (R : Runtime σ) (q : Ranking σ) (lexical : LexicalNodes) :
    Option (List (ContractRevisionSummary × List (ContextNode × σ × List ViewType × List (ScoredEmbeddingView σ)))) :=
  (q.search R lexical).toOption.map fun st => st.bundles.map (·.outline)

/-! ### What lexical nodes take of the room -/

/-- The sizes of the bundle of a contract, without lexical nodes and with them. -/
structure Load where
  revisionId : Str
  dense : Size
  withLexical : Size

/-- Nodes and characters on top of others; negative where nodes are hidden. -/
abbrev Room := ℤ × ℤ

def room (s : Size) : Room := (s.1, s.2)

/-- The room is within the budget. -/
def Within (r : Room) : Prop := r.1 ≤ maxSearchResponseNodes ∧ r.2 ≤ maxSearchResponseCharacters

instance (r : Room) : Decidable (Within r) := inferInstanceAs (Decidable (_ ∧ _))

theorem room_add (s t : Size) : room (s + t) = room s + room t := by
  simp [room]

theorem fits_iff (s : Size) : Fits s ↔ Within (room s) := by
  simp [Fits, Within, room]

namespace Load

/-- What the lexical nodes add. -/
def extra (e : Load) : Room := room e.withLexical - room e.dense

/-- The dense bundles of the contracts before, and what lexical nodes take beside them: those of a contract are
kept where they fit. -/
def occupy (before : Room × Room) (e : Load) : Room × Room :=
  (before.1 + room e.dense,
    if Within (before.1 + room e.dense + (before.2 + e.extra)) then before.2 + e.extra else before.2)

/-- The dense bundles of some contracts. -/
def total (es : List Load) : Room := (es.foldl occupy (0, 0)).1

/-- What the kept lexical nodes of some contracts take. -/
def taken (es : List Load) : Room := (es.foldl occupy (0, 0)).2

theorem total_append (es : List Load) (e : Load) : total (es ++ [e]) = total es + room e.dense := by
  rw [total, List.foldl_append]
  rfl

theorem taken_append (es : List Load) (e : Load) : taken (es ++ [e]) =
    if Within (total (es ++ [e]) + (taken es + e.extra)) then taken es + e.extra else taken es := by
  rw [total_append, taken, List.foldl_append]
  rfl

end Load

variable (R) in
/-- The contract has bundles of these sizes. -/
structure Serves (q : Ranking σ) (lexical : LexicalNodes) (e : Load) : Prop where
  dense : ∃ b, q.bundle R e.revisionId [] = .ok b ∧ b.1.size R = e.dense
  withLexical : ∃ b, q.bundle R e.revisionId (lexicalHitIds R q.nodeScores lexical e.revisionId) = .ok b ∧
    b.1.size R = e.withLexical

variable (R) in
/-- What the kept lexical nodes take is in the room that the dense bundles leave: a contract whose dense bundle fits
beside the dense ones before it fits beside what was taken, too, and no other contract does. -/
def RoomLeft (q : Ranking σ) (lexical : LexicalNodes) : Prop :=
  ∀ front e back, q.rankedRevisionIds R = front.map (·.revisionId) ++ e.revisionId :: back →
    (∀ x ∈ front, Serves R q lexical x) → Serves R q lexical e → Within (Load.total front) →
      (Within (Load.total (front ++ [e])) ↔ Within (Load.total (front ++ [e]) + Load.taken front) ∨
        Within (Load.total (front ++ [e]) + (Load.taken front + e.extra)))

theorem Serves.denseMove {e : Load} (h : Serves R q lexical e) (spent : Size) : denseMove R q spent e.revisionId =
    if Within (room spent + room e.dense) then .keep (spent + e.dense) else .stop := by
  obtain ⟨b, hb, hsize⟩ := h.dense
  rw [Search.denseMove, hb]
  simp only [hsize, fits_iff, room_add]

theorem Serves.lexicalMove {e : Load} (h : Serves R q lexical e) (spent : Size) :
    lexicalMove R q lexical spent e.revisionId =
      if Within (room spent + room e.withLexical) then .keep (spent + e.withLexical)
      else Search.denseMove R q spent e.revisionId := by
  obtain ⟨b, hb, hsize⟩ := h.withLexical
  rw [Search.lexicalMove, hb]
  simp only [hsize, fits_iff, room_add]

/-- The lexical search keeps a contract where its bundle fits beside what was taken, and takes what `Load.occupy` says. -/
theorem Serves.keeps {e : Load} (h : Serves R q lexical e) {front : List Load} {spent : Size}
    (hspent : room spent = Load.total front + Load.taken front) :
    ((Search.lexicalMove R q lexical spent e.revisionId).Keeps ↔ Within (Load.total (front ++ [e]) + Load.taken front) ∨
        Within (Load.total (front ++ [e]) + (Load.taken front + e.extra))) ∧
      ∀ spent', Search.lexicalMove R q lexical spent e.revisionId = .keep spent' →
        room spent' = Load.total (front ++ [e]) + Load.taken (front ++ [e]) := by
  have hdense : room spent + room e.dense = Load.total (front ++ [e]) + Load.taken front := by
    rw [hspent, Load.total_append]
    abel
  have hlexical : room spent + room e.withLexical = Load.total (front ++ [e]) + (Load.taken front + e.extra) := by
    rw [hspent, Load.total_append, Load.extra]
    abel
  rw [h.lexicalMove, h.denseMove, hdense, hlexical, Load.taken_append]
  by_cases hw : Within (Load.total (front ++ [e]) + (Load.taken front + e.extra))
  · rw [if_pos hw, if_pos hw]
    refine ⟨iff_of_true ⟨_, rfl⟩ (.inr hw), fun spent' heq => ?_⟩
    cases heq
    rw [room_add, hlexical]
  · rw [if_neg hw, if_neg hw, or_iff_left hw]
    by_cases hw' : Within (Load.total (front ++ [e]) + Load.taken front)
    · rw [if_pos hw']
      refine ⟨iff_of_true ⟨_, rfl⟩ hw', fun spent' heq => ?_⟩
      cases heq
      rw [room_add, hdense]
    · rw [if_neg hw']
      exact ⟨iff_of_false nofun hw', nofun⟩

/-- The lexical lane leaves the room of the dense bundles: either both searches come to a context that cannot be
shown, or neither does and what the kept lexical nodes take is in the room that is left. -/
def RoomKept (R : Runtime σ) (q : Ranking σ) (lexical : LexicalNodes) : Prop :=
  (Packing.Fails (denseMove R q) (0, 0) (q.rankedRevisionIds R) ∧
      Packing.Fails (lexicalMove R q lexical) (0, 0) (q.rankedRevisionIds R)) ∨
    (¬ Packing.Fails (denseMove R q) (0, 0) (q.rankedRevisionIds R) ∧
      ¬ Packing.Fails (lexicalMove R q lexical) (0, 0) (q.rankedRevisionIds R) ∧ RoomLeft R q lexical)

end

/-! ### A long lexical hit

Revision `a` has eight short paragraphs that score best and a long one that only the lexical audit
finds; revision `b` has one long paragraph. -/

/-- Scores in tenths. -/
def tenths : Runtime Nat where
  hash := ⟨id, fun _ => .refl _⟩
  float := ⟨fun _ => true, fun a b => decide (a < b), fun a b => decide (a = b), List.sum, fun a n => a / n,
    fun a => a / 2⟩
  floatText n := "0.".toList ++ Json.decimal n

/-- A paragraph with a page and a view of its own. -/
structure Paragraph where
  revisionId : Str
  nodeId : Str
  page : Nat
  rowIndex : Nat
  text : Str
  length : Nat

def Paragraph.row (p : Paragraph) : NodeRow :=
  ⟨p.revisionId, p.nodeId, some (p.revisionId ++ "-root".toList), .paragraph, .benefit, none, p.page, p.text, [], [],
    none⟩

def rootRow (revisionId : Str) : NodeRow :=
  ⟨revisionId, revisionId ++ "-root".toList, none, .root, .unknown, none, 0, [], [], [], none⟩

def paragraphTables (H : Sha256) (revisions : List Str) (ps : List Paragraph) : Tables where
  nodes := revisions.map rootRow ++ ps.map (·.row)
  spans := ps.map fun p => ⟨p.revisionId, p.nodeId, p.page, 0, p.length, H.hexdigest p.text, 0⟩
  pages := ps.map fun p => (p.revisionId, p.page, p.text)
  links := []
  views := ps.map fun p => ⟨p.rowIndex, p.revisionId, p.nodeId, .detail, p.text⟩
  viewSpans := ps.map fun p => ⟨p.rowIndex, p.revisionId, p.page, 0, p.length, H.hexdigest p.text, 0⟩

def short (page : Nat) : Paragraph := ⟨"a".toList, 'a' :: Json.decimal page, page, page - 1, "b".toList, 1⟩

def shorts : List Paragraph := [short 1, short 2, short 3, short 4, short 5, short 6, short 7, short 8]

def longA (t : Str) : Paragraph := ⟨"a".toList, "a9".toList, 9, 8, t, 100000⟩

def longB (t : Str) : Paragraph := ⟨"b".toList, "b1".toList, 1, 9, t, 100000⟩

def summaryOf (H : Sha256) (revisionId : Str) : ContractRevisionSummary :=
  ⟨"lineage-".toList ++ revisionId, revisionId, "document-".toList ++ revisionId, "kb".toList, revisionId,
    "card".toList, "terms".toList, "source-".toList ++ revisionId, "1".toList, "https://example.com/".toList, none,
    .current, none, H.hexdigest revisionId, 9⟩

def scoreOf (score : Nat) (p : Paragraph) : NodeScore Nat := ⟨score, [.detail], [⟨p.rowIndex, .detail, score⟩]⟩

def crowded (H : Sha256) (t : Str) : Ranking Nat where
  tables := paragraphTables H ["a".toList, "b".toList] (shorts ++ [longA t, longB t])
  revisions := [summaryOf H "a".toList, summaryOf H "b".toList]
  nodeScores := shorts.map (fun p => ((p.revisionId, p.nodeId), scoreOf 9 p)) ++
    [(("a".toList, "a9".toList), scoreOf 1 (longA t)), (("b".toList, "b1".toList), scoreOf 5 (longB t))]
  contractScores := [("a".toList, 9), ("b".toList, 5)]
  limit := 10
  productSpecificFull := false

def longText : Str := List.replicate 100000 'a'

/-- The lexical audit found the long paragraph of `a`. -/
def longHit : LexicalNodes := fun revisionId => if revisionId = "a".toList then ["a9".toList] else []

section crowded
variable (H : Sha256) (p : Paragraph) (t : Str)

def spanOf (text : Str) : SourceSpan := ⟨p.nodeId, p.page, 0, p.length, H.hexdigest p.text, 0, text⟩

def nodeOf (text : Str) : ContextNode := p.row.toContextNode [spanOf H p text] []

def matchOf (score : Nat) (lexicalOnly : Bool) (text : Str) : ScoredStructureNode Nat :=
  ⟨nodeOf H p text, score, [.detail], [⟨p.rowIndex, .detail, score, p.text, [spanOf H p text]⟩], lexicalOnly⟩

def rootNode (revisionId : Str) : ContextNode := (rootRow revisionId).toContextNode [] []

def byId (rows : List NodeRow) : List (Str × NodeRow) := rows.map fun row => (row.nodeId, row)

def rowsA : List NodeRow := rootRow "a".toList :: shorts.map (·.row) ++ [(longA t).row]

/-- The dense bundle of `a`. -/
def bundleA : ContractEvidenceBundle Nat :=
  ⟨summaryOf H "a".toList, shorts.map fun p => matchOf H p 9 false p.text,
    rootNode "a".toList :: shorts.map fun p => nodeOf H p p.text, 0, 1⟩

/-- The bundle of `a` with its lexical node. -/
def bundleA9 : ContractEvidenceBundle Nat :=
  ⟨summaryOf H "a".toList, (shorts.map fun p => matchOf H p 9 false p.text) ++ [matchOf H (longA t) 1 true t],
    (rootNode "a".toList :: shorts.map fun p => nodeOf H p p.text) ++ [nodeOf H (longA t) t], 0, 1⟩

def bundleB : ContractEvidenceBundle Nat :=
  ⟨summaryOf H "b".toList, [matchOf H (longB t) 5 false t], [rootNode "b".toList, nodeOf H (longB t) t], 0, 1⟩

/-- Short identifiers and numbers. -/
def Paragraph.Small (p : Paragraph) : Prop :=
  p.nodeId.length ≤ 2 ∧ p.revisionId.length ≤ 1 ∧ (Json.decimal p.page).length ≤ 6 ∧
    (Json.decimal p.length).length ≤ 6 ∧ (Json.decimal p.rowIndex).length ≤ 6

/-- The texts of a summary without date and predecessor. -/
def summaryTexts (c : ContractRevisionSummary) : List Str :=
  [c.productLineageId, c.contractRevisionId, c.documentId, c.issuer, c.productCode, c.productName, c.documentType,
    c.sourceId, c.sourceVersion, c.sourceUrl, c.temporalStatus.text, c.pdfSha256]

section long
variable {t} (ht : t.length = 100000) (hr : (Json.renderStr t).length = 100002)
include hr

include ht

end long

end crowded

end CardRag.Search
