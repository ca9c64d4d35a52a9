import CardRag.Launch.Resolve

/-! # What the scan for launch dates reads

`readings` lists what the patterns read in the windows, in the order of the scan and without its
bookkeeping. `Scan.Follows` ties the state of the scan to the readings so far: the evidence is the
readings without repetitions, the valid dates are the dates read, and `invalid` says that some
reading had no date. -/

namespace CardRag.Launch
open PyStr

section
variable (nfkc : Str → Str)

/-- What one match says, unless the words before it say that the date is another one. -/
def matchReading (window : List DerivedTextSegment) (text : Str) (kind : MatchKind) (m : Pattern.Match) :
    Option Key :=
  if (negativeDateLabel.search (slice text (m.start - 24) m.start)).isSome then none
  else some (kind, (candidate m).map Date.isoformat, window.map (·.nodeId))

def windowReadings (window : List DerivedTextSegment) : List Key :=
  let text := windowText nfkc window
  if text = [] ∨ mentionsLaunch text = false then []
  else kinds.flatMap (fun (kind, pattern) => (pattern.finditer text).filterMap (matchReading window text kind)) ++
    if (twoDigitExplicit.search text).isSome then [(.explicitLabel, none, window.map (·.nodeId))] else []

/-- Every reading of the windows, in the order of the scan. -/
def readings (segments : List DerivedTextSegment) : List Key :=
  (windows nfkc segments).flatMap (windowReadings nfkc)

end

/-- The date a reading gives, as `isoformat` writes it. -/
def Key.value (k : Key) : Option Str := k.2.1

def LaunchDateEvidence.key (e : LaunchDateEvidence) : Key :=
  (e.matchKind, e.normalizedValue, e.segments.map (·.nodeId))

/-- The state of the scan after the readings `rs`. -/
structure Scan.Follows (segments : List DerivedTextSegment) (rs : List Key) (s : Scan) : Prop where
  keys : s.evidence.map (·.key) = rs.eraseDups
  seen : ∀ k, k ∈ s.seen ↔ k ∈ rs
  ordinals : s.evidence.map (·.candidateOrdinal) = List.range s.evidence.length
  dates : ∀ d, d ∈ s.validDates ↔ ∃ k ∈ rs, Key.value k = some d.isoformat
  nodup : s.validDates.Nodup
  invalid : s.invalid = true ↔ ∃ k ∈ rs, Key.value k = none
  written : ∀ k ∈ rs, ∀ v, Key.value k = some v → ∃ d : Date, v = d.isoformat
  sources : ∀ e ∈ s.evidence, e.segments ≠ [] ∧ e.segments ⊆ segments

namespace Scan

variable {segments : List DerivedTextSegment} {rs : List Key} {s : Scan}

/-- The bookkeeping of one reading. -/
def note (window : List DerivedTextSegment) (kind : MatchKind) (parsed : Option Date) (excerpt : Str)
    (s : Scan) : Scan :=
  let key := (kind, parsed.map Date.isoformat, window.map (·.nodeId))
  if key ∈ s.seen then s
  else
    { evidence := s.evidence ++ [⟨s.evidence.length, kind, parsed.map Date.isoformat, excerpt, window⟩]
      seen := key :: s.seen
      validDates := match parsed with
        | none => s.validDates
        | some d => s.validDates.insert d
      invalid := s.invalid || parsed.isNone }

theorem addMatch_eq (window : List DerivedTextSegment) (text : Str) (kind : MatchKind) (m : Pattern.Match) :
    s.addMatch window text kind m =
      if (negativeDateLabel.search (slice text (m.start - 24) m.start)).isSome then s
      else s.note window kind (candidate m) (excerpt text m.start m.stop) := rfl

namespace Follows

theorem init : Follows segments [] {} where
  keys := rfl
  seen := by simp
  ordinals := rfl
  dates := by simp
  nodup := List.nodup_nil
  invalid := by simp
  written := by simp
  sources := by simp

theorem eraseDups_concat {k : Key} : (rs ++ [k]).eraseDups = if k ∈ rs then rs.eraseDups else rs.eraseDups ++ [k] := by
  rw [List.eraseDups_append, List.cons_removeAll]
  by_cases h : k ∈ rs
  · simp [h]
  · simp [h, List.eraseDups_cons]

theorem exists_concat {k : Key} {p : Key → Prop} : (∃ x ∈ rs ++ [k], p x) ↔ (∃ x ∈ rs, p x) ∨ p k := by
  simp only [List.mem_append, List.mem_singleton, or_and_right, exists_or, exists_eq_left]

/-- Noting a reading once more changes nothing. -/
theorem again {k : Key} (h : Follows segments rs s) (hk : k ∈ rs) : Follows segments (rs ++ [k]) s where
  keys := by rw [eraseDups_concat, if_pos hk, h.keys]
  seen := fun k' => by
    rw [h.seen, List.mem_append, List.mem_singleton]
    exact ⟨Or.inl, fun h' => h'.elim id fun e => e ▸ hk⟩
  ordinals := h.ordinals
  dates := fun d => by
    rw [h.dates, exists_concat]
    exact ⟨Or.inl, fun h' => h'.elim id fun hv => ⟨k, hk, hv⟩⟩
  nodup := h.nodup
  invalid := by
    rw [h.invalid, exists_concat]
    exact ⟨Or.inl, fun h' => h'.elim id fun hv => ⟨k, hk, hv⟩⟩
  written := fun k' hk' => h.written k' <| by
    rcases List.mem_append.1 hk' with hk' | hk'
    · exact hk'
    · rwa [List.mem_singleton.1 hk']
  sources := h.sources

theorem note {window : List DerivedTextSegment} (hne : window ≠ []) (hsub : window ⊆ segments) (kind : MatchKind)
    (parsed : Option Date) (excerpt : Str) (h : Follows segments rs s) :
    Follows segments (rs ++ [(kind, parsed.map Date.isoformat, window.map (·.nodeId))])
      (s.note window kind parsed excerpt) := by
  unfold Scan.note
  dsimp only
  by_cases hseen : (kind, parsed.map Date.isoformat, window.map (·.nodeId)) ∈ s.seen
  · rw [if_pos hseen]
    exact h.again ((h.seen _).1 hseen)
  · rw [if_neg hseen]
    have hnew : (kind, parsed.map Date.isoformat, window.map (·.nodeId)) ∉ rs := fun hmem => hseen ((h.seen _).2 hmem)
    constructor
    · rw [eraseDups_concat, if_neg hnew, ← h.keys, List.map_append]
      rfl
    · intro k
      rw [List.mem_cons, h.seen, List.mem_append, List.mem_singleton, or_comm]
    · rw [List.map_append, h.ordinals, List.length_append, List.length_singleton, List.range_succ]
      rfl
    · intro d
      rw [exists_concat, ← h.dates d, Key.value]
      cases parsed with
      | none => simp
      | some d' =>
        simp only [List.mem_insert_iff, Option.map_some, Option.some.injEq, Date.isoformat_injective.eq_iff]
        rw [or_comm, eq_comm]
    · cases parsed with
      | none => exact h.nodup
      | some d' => exact h.nodup.insert
    · rw [exists_concat, ← h.invalid, Key.value, Bool.or_eq_true, Option.map_eq_none_iff, Option.isNone_iff_eq_none]
    · intro k hk v hv
      rcases List.mem_append.1 hk with hk | hk
      · exact h.written k hk v hv
      · rw [List.mem_singleton.1 hk, Key.value, Option.map_eq_some_iff] at hv
        obtain ⟨d, -, rfl⟩ := hv
        exact ⟨d, rfl⟩
    · intro e he
      rcases List.mem_append.1 he with he | he
      · exact h.sources e he
      · rw [List.mem_singleton.1 he]
        exact ⟨hne, hsub⟩

theorem addMatch {window : List DerivedTextSegment} (hne : window ≠ []) (hsub : window ⊆ segments) (text : Str)
    (kind : MatchKind) (m : Pattern.Match) (h : Follows segments rs s) :
    Follows segments (rs ++ (matchReading window text kind m).toList) (s.addMatch window text kind m) := by
  rw [addMatch_eq, matchReading]
  split
  · simpa using h
  · exact h.note hne hsub kind (candidate m) _

theorem addMatches {window : List DerivedTextSegment} (hne : window ≠ []) (hsub : window ⊆ segments) (text : Str)
    (kind : MatchKind) (ms : List Pattern.Match) (h : Follows segments rs s) :
    Follows segments (rs ++ ms.filterMap (matchReading window text kind))
      (ms.foldl (Scan.addMatch window text kind) s) := by
  induction ms generalizing rs s with
  | nil => simpa using h
  | cons m ms ih =>
    have hm := ih (h.addMatch hne hsub text kind m)
    rw [List.append_assoc] at hm
    rw [List.foldl_cons]
    convert hm using 2
    rw [List.filterMap_cons]
    cases matchReading window text kind m <;> rfl

theorem addKinds {window : List DerivedTextSegment} (hne : window ≠ []) (hsub : window ⊆ segments) (text : Str)
    (ks : List (MatchKind × Pattern)) (h : Follows segments rs s) :
    Follows segments
      (rs ++ ks.flatMap fun (kind, pattern) => (pattern.finditer text).filterMap (matchReading window text kind))
      (ks.foldl (fun s (kind, pattern) => (pattern.finditer text).foldl (Scan.addMatch window text kind) s) s) := by
  induction ks generalizing rs s with
  | nil => simpa using h
  | cons k ks ih =>
    have hk := ih (h.addMatches hne hsub text k.1 (k.2.finditer text))
    rw [List.append_assoc] at hk
    exact hk

theorem addTwoDigit {window : List DerivedTextSegment} (hne : window ≠ []) (hsub : window ⊆ segments) (text : Str)
    (h : Follows segments rs s) :
    Follows segments
      (rs ++ if (twoDigitExplicit.search text).isSome then [(.explicitLabel, none, window.map (·.nodeId))] else [])
      (s.addTwoDigit window text) := by
  unfold Scan.addTwoDigit
  split
  · have hnote := h.note hne hsub .explicitLabel none ((joinWords (words text)).take 240)
    unfold Scan.note at hnote
    simp only [Option.map_none, Option.isNone_none, Bool.or_true] at hnote
    dsimp only
    by_cases hseen : ((.explicitLabel, none, window.map (·.nodeId)) : Key) ∈ s.seen
    · rw [if_pos hseen] at hnote ⊢
      -- the reading was noted before, and `invalid` with it
      have hinvalid : s.invalid = true := h.invalid.2 ⟨_, (h.seen _).1 hseen, rfl⟩
      rw [← hinvalid]
      exact hnote
    · rw [if_neg hseen] at hnote ⊢
      exact hnote
  · simpa using h

theorem addWindow (nfkc : Str → Str) {window : List DerivedTextSegment} (hne : window ≠ []) (hsub : window ⊆ segments)
    (h : Follows segments rs s) :
    Follows segments (rs ++ windowReadings nfkc window) (s.addWindow nfkc window) := by
  unfold Scan.addWindow windowReadings
  dsimp only
  split
  · simpa using h
  · rw [← List.append_assoc]
    exact (h.addKinds hne hsub _ kinds).addTwoDigit hne hsub _

theorem addWindows (nfkc : Str → Str) (ws : List (List DerivedTextSegment))
    (hws : ∀ window ∈ ws, window ≠ [] ∧ window ⊆ segments) (h : Follows segments rs s) :
    Follows segments (rs ++ ws.flatMap (windowReadings nfkc)) (ws.foldl (Scan.addWindow nfkc) s) := by
  induction ws generalizing rs s with
  | nil => simpa using h
  | cons window ws ih =>
    obtain ⟨hne, hsub⟩ := hws window (by simp)
    have hw := ih (fun w hw => hws w (by simp [hw])) (h.addWindow nfkc hne hsub)
    rw [List.append_assoc] at hw
    exact hw

end Follows

end Scan

/-- A window is made of segments. -/
theorem mem_windows {nfkc : Str → Str} {segments window : List DerivedTextSegment}
    (h : window ∈ windows nfkc segments) : window ≠ [] ∧ window ⊆ segments := by
  fun_induction windows nfkc segments with
  | case1 => cases h
  | case2 segment =>
    rw [List.mem_singleton.1 h]
    exact ⟨by simp, by simp⟩
  | case3 segment next rest _ ih =>
    rcases List.mem_cons.1 h with rfl | h
    · exact ⟨by simp, by simp⟩
    rcases List.mem_cons.1 h with rfl | h
    · exact ⟨by simp, by simp⟩
    · exact ⟨(ih h).1, fun x hx => List.mem_cons_of_mem _ ((ih h).2 hx)⟩
  | case4 segment next rest _ ih =>
    rcases List.mem_cons.1 h with rfl | h
    · exact ⟨by simp, by simp⟩
    · exact ⟨(ih h).1, fun x hx => List.mem_cons_of_mem _ ((ih h).2 hx)⟩

/-- The whole scan follows the readings of the segments. -/
theorem follows_scan (nfkc : Str → Str) (segments : List DerivedTextSegment) :
    Scan.Follows segments (readings nfkc segments) ((windows nfkc segments).foldl (Scan.addWindow nfkc) {}) := by
  have h := Scan.Follows.init.addWindows nfkc (windows nfkc segments) fun _ => mem_windows
  rwa [List.nil_append] at h

end CardRag.Launch
