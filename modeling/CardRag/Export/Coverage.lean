import CardRag.Lib.Tiling
import CardRag.Core

/-! # The coverage checks (`exporter_v5.py`, `schema_v5.py`)

Three checks decide whether the canonical spans of a generation cover its pages: a bitmap for each revision
before the export, a sweep over the stored spans of each page after it, and a bitmap over everything in the
server. The first two accept the same spans, in any order, and the third accepts them too
(`coverage_checks_agree`). -/

namespace CardRag.Export

open Tiling

structure CoveragePage where
  contractRevisionId : Str
  page : Nat
  text : Str
deriving DecidableEq

/-- A canonical span. -/
structure CanonicalSpan where
  contractRevisionId : Str
  page : Nat
  sourceStart : Nat
  sourceEnd : Nat
deriving DecidableEq

/-- The pages of the revisions, and spans of them that the earlier checks let through. -/
structure CoverageInput where
  revisions : List Str
  pages : List CoveragePage
  spans : List CanonicalSpan
  pages_nodup : (pages.map fun p => (p.contractRevisionId, p.page)).Nodup
  revision_mem : ∀ p ∈ pages, p.contractRevisionId ∈ revisions
  within : ∀ s ∈ spans, s.sourceStart < s.sourceEnd ∧ ∃ p ∈ pages, p.contractRevisionId = s.contractRevisionId ∧
    p.page = s.page ∧ s.sourceEnd ≤ p.text.length

def servingDatabaseError (message : String) : Raised := ⟨.servingDatabaseError, message⟩

def overlapping : Raised := servingDatabaseError "canonical source spans overlap"

def storedOverlapping : Raised := servingDatabaseError "stored canonical source spans overlap"

def notReconstructed : Raised :=
  servingDatabaseError "stored canonical spans do not reconstruct the OCR source"

/-- `sum(not char.isspace() for char in text)`. -/
def nonWhitespace (text : Str) : Nat := text.countP fun c => !PyStr.isSpace c

/-- The characters of a text under the marks that are set, less white space. -/
def markedNonWhitespace (text : Str) (marks : List Bool) : Nat :=
  (text.zip marks).countP fun p => p.2 && !PyStr.isSpace p.1

section
variable (pages : List CoveragePage) (spans : List CanonicalSpan)

/-- `[False] * len(page.text)` of a page by its number. -/
def clearMarks (k : Nat) : List Bool :=
  List.replicate (((pages.find? (·.page = k)).map fun p => p.text.length).getD 0) false

/-- `_validate_inputs`: the canonical spans of one revision. -/
def validateRevision (revision : Str) : Except Raised Unit := do
  let revisionPages := PyList.sortedBy (·.page) (pages.filter (·.contractRevisionId = revision))
  let covered ← ((spans.filter (·.contractRevisionId = revision)).flatMap fun s =>
    Bitmap.cells s.page s.sourceStart s.sourceEnd).foldlM (Bitmap.mark overlapping) (clearMarks revisionPages)
  raiseIf (revisionPages.any fun p => (covered p.page).any (!·))
    (servingDatabaseError "canonical source spans do not reconstruct every OCR character")
  raiseIf ((revisionPages.map fun p => nonWhitespace p.text).sum ≠
      (revisionPages.map fun p => markedNonWhitespace p.text (covered p.page)).sum)
    (servingDatabaseError "non-whitespace OCR source coverage is not 100 percent")

/-- The sweep over the stored spans of one page. -/
def verifyStoredPage (p : CoveragePage) : Except Raised Unit := do
  let intervals := PyList.sortedBy (fun s : Nat × Nat => toLex s)
    ((spans.filter fun s => s.contractRevisionId = p.contractRevisionId ∧ s.page = p.page).map fun s =>
      (s.sourceStart, s.sourceEnd))
  if p.text.length = 0 then raiseIf (intervals ≠ []) notReconstructed
  else do
    raiseIf ((intervals.head?.map (·.1)).all (· ≠ 0)) notReconstructed
    let currentEnd ← sweep notReconstructed storedOverlapping 0 intervals
    raiseIf (currentEnd ≠ p.text.length) notReconstructed

/-- The stored coverage verification. -/
def verifyStored : Except Raised Unit :=
  (PyList.sortedSet (pages.map (·.contractRevisionId))).forM fun revision =>
    (PyList.sortedBy (·.page) (pages.filter (·.contractRevisionId = revision))).forM (verifyStoredPage spans)

/-- `bytearray(len(text))` of a page by its identity. -/
def clearCoverage (k : Str × Nat) : List Bool :=
  List.replicate (((pages.find? fun p => (p.contractRevisionId, p.page) = k).map fun p => p.text.length).getD 0) false

/-- `_validate_source_coverage`: the marks, and the count of what they cover. -/
def validateSourceCoverage : Except Raised Unit := do
  let coverage ← (spans.flatMap fun s => Bitmap.cells (s.contractRevisionId, s.page) s.sourceStart s.sourceEnd).foldlM
    (Bitmap.mark overlapping) (clearCoverage pages)
  (PyList.sortedBy (fun p : CoveragePage => toLex (p.contractRevisionId, p.page)) pages).forM fun p =>
    (p.text.zipIdx).forM fun c =>
      raiseIf (PyStr.isSpace c.1 = false ∧ Bitmap.bit coverage ((p.contractRevisionId, p.page), c.2) = false)
        (servingDatabaseError "canonical source coverage is below 100 percent")

end

/-- `_validate_inputs`: the coverage of every revision. -/
def CoverageInput.validate (C : CoverageInput) (spans : List CanonicalSpan) : Except Raised Unit :=
  C.revisions.forM (validateRevision C.pages spans)

/-! ### What the checks decide -/

/-- The spans of a page. -/
def spansOf (spans : List CanonicalSpan) (p : CoveragePage) : List (Nat × Nat) :=
  (spans.filter fun s => s.contractRevisionId = p.contractRevisionId ∧ s.page = p.page).map fun s =>
    (s.sourceStart, s.sourceEnd)

/-- The spans of a page do not overlap and leave nothing out. -/
structure Tiled (spans : List (Nat × Nat)) (length : Nat) : Prop where
  apart : spans.Pairwise Apart
  full : ∀ i < length, ∃ s ∈ spans, s.1 ≤ i ∧ i < s.2

section
variable {C : CoverageInput} {spans : List CanonicalSpan} {p : CoveragePage}

theorem Tiled.perm {l l' : List (Nat × Nat)} {n : Nat} (h : l.Perm l') (ht : Tiled l n) : Tiled l' n :=
  ⟨(h.pairwise_iff fun h => h.symm).1 ht.apart, fun i hi => by
    obtain ⟨s, hs, hin⟩ := ht.full i hi
    exact ⟨s, h.mem_iff.1 hs, hin⟩⟩

theorem spansOf_in (hperm : spans.Perm C.spans) (hp : p ∈ C.pages) {s : Nat × Nat} (hs : s ∈ spansOf spans p) :
    s.1 < s.2 ∧ s.2 ≤ p.text.length := by
  obtain ⟨span, hspan, rfl⟩ := List.mem_map.1 hs
  obtain ⟨hspan, hkey⟩ := List.mem_filter.1 hspan
  have hkey := of_decide_eq_true hkey
  obtain ⟨hlt, p', hp', hr, hn, hend⟩ := C.within span (hperm.mem_iff.1 hspan)
  have heq : p' = p := List.inj_on_of_nodup_map C.pages_nodup hp' hp
    (Prod.ext (hr.trans hkey.1) (hn.trans hkey.2))
  exact ⟨hlt, heq ▸ hend⟩

/-- The sweep of a page accepts tilings. -/
theorem verifyStoredPage_eq_ok (hperm : spans.Perm C.spans) (hp : p ∈ C.pages) :
    verifyStoredPage spans p = .ok () ↔ Tiled (spansOf spans p) p.text.length := by
  have hsort : (PyList.sortedBy (fun s : Nat × Nat => toLex s) (spansOf spans p)).Perm (spansOf spans p) :=
    PyList.sortedBy_perm _ _
  have htiled : Tiled (PyList.sortedBy (fun s : Nat × Nat => toLex s) (spansOf spans p)) p.text.length ↔
      Tiled (spansOf spans p) p.text.length := ⟨Tiled.perm hsort, Tiled.perm hsort.symm⟩
  rw [← htiled]
  have hsorted : (PyList.sortedBy (fun s : Nat × Nat => toLex s) (spansOf spans p)).Pairwise fun s t => s.1 ≤ t.1 :=
    (PyList.sortedBy_pairwise _ _).imp fun {s t} h => by
      rcases Prod.Lex.toLex_le_toLex.1 h with h | h
      · exact h.le
      · exact h.1.le
  have hin : ∀ s ∈ PyList.sortedBy (fun s : Nat × Nat => toLex s) (spansOf spans p),
      s.1 < s.2 ∧ s.2 ≤ p.text.length := fun s hs => spansOf_in hperm hp (PyList.mem_sortedBy.1 hs)
  unfold verifyStoredPage
  change (if p.text.length = 0 then
    raiseIf (PyList.sortedBy (fun s : Nat × Nat => toLex s) (spansOf spans p) ≠ []) notReconstructed else (do
    raiseIf (((PyList.sortedBy (fun s : Nat × Nat => toLex s) (spansOf spans p)).head?.map fun s : Nat × Nat => s.1).all (· ≠ 0))
      notReconstructed
    let currentEnd ← sweep notReconstructed storedOverlapping 0
      (PyList.sortedBy (fun s : Nat × Nat => toLex s) (spansOf spans p))
    raiseIf (currentEnd ≠ p.text.length) notReconstructed)) = _ ↔ _
  generalize PyList.sortedBy (fun s : Nat × Nat => toLex s) (spansOf spans p) = intervals at hsorted hin ⊢
  split
  · rename_i hzero
    have hnil : intervals = [] := List.eq_nil_iff_forall_not_mem.2 fun s hs => by
      have := hin s hs
      omega
    subst hnil
    rw [hzero]
    exact ⟨fun _ => ⟨List.Pairwise.nil, fun i hi => absurd hi (Nat.not_lt_zero i)⟩, fun _ => rfl⟩
  · rename_i hpos
    have hsweep := @sweep_eq_ok _ notReconstructed storedOverlapping _ _ _ hsorted hin (Nat.zero_le p.text.length)
    simp only [Guard.bind_eq_ok, raiseIf_eq_ok, Guard.exists_unit, not_not, exists_eq_right, hsweep]
    constructor
    · rintro ⟨-, -, hpair, hcover⟩
      exact ⟨hpair, fun i hi => hcover i (Nat.zero_le i) hi⟩
    · intro ht
      refine ⟨fun hhead => ?_, fun s _ => Nat.zero_le s.1, ht.apart, fun i _ hi => ht.full i hi⟩
      -- the first interval holds the first character
      obtain ⟨s, hs, hle, -⟩ := ht.full 0 (by omega)
      cases intervals with
      | nil => cases hs
      | cons first rest =>
        have hfirst : first.1 ≠ 0 := by simpa using hhead
        rcases List.mem_cons.1 hs with rfl | hs
        · omega
        · have := (List.pairwise_cons.1 hsorted).1 s hs
          omega

theorem verifyStored_eq_ok (hperm : spans.Perm C.spans) :
    verifyStored C.pages spans = .ok () ↔ ∀ p ∈ C.pages, Tiled (spansOf spans p) p.text.length := by
  simp only [verifyStored, Guard.forM_eq_ok, PyList.mem_sortedSet, PyList.mem_sortedBy, List.mem_filter, List.mem_map,
    decide_eq_true_eq]
  constructor
  · intro h p hp
    exact (verifyStoredPage_eq_ok hperm hp).1 (h _ ⟨p, hp, rfl⟩ p ⟨hp, rfl⟩)
  · rintro h - - p ⟨hp, -⟩
    exact (verifyStoredPage_eq_ok hperm hp).2 (h p hp)

/-- Where every mark is set, the marked characters are the characters. -/
theorem markedNonWhitespace_eq {text : Str} {marks : List Bool} (hlen : marks.length = text.length)
    (hall : ∀ b ∈ marks, b = true) : markedNonWhitespace text marks = nonWhitespace text := by
  induction text generalizing marks with
  | nil => rfl
  | cons c text ih =>
    cases marks with
    | nil => cases hlen
    | cons b marks =>
      have hrest := ih (Nat.succ.inj hlen) fun b hb => hall b (List.mem_cons_of_mem _ hb)
      have hb : b = true := hall b List.mem_cons_self
      unfold markedNonWhitespace nonWhitespace at hrest ⊢
      rw [List.zip_cons_cons, List.countP_cons, List.countP_cons, hrest, hb, Bool.true_and]

theorem eq_of_identity {p' : CoveragePage} (hp : p ∈ C.pages) (hp' : p' ∈ C.pages)
    (hr : p'.contractRevisionId = p.contractRevisionId) (hn : p'.page = p.page) : p' = p :=
  List.inj_on_of_nodup_map C.pages_nodup hp' hp (Prod.ext hr hn)

/-- The pages of a revision, as the dictionary is made from them. -/
abbrev revisionPages (C : CoverageInput) (revision : Str) : List CoveragePage :=
  PyList.sortedBy (·.page) (C.pages.filter (·.contractRevisionId = revision))

theorem mem_revisionPages {revision : Str} :
    p ∈ revisionPages C revision ↔ p ∈ C.pages ∧ p.contractRevisionId = revision := by
  rw [PyList.mem_sortedBy, List.mem_filter, decide_eq_true_eq]

theorem clearMarks_page (hp : p ∈ C.pages) :
    clearMarks (revisionPages C p.contractRevisionId) p.page = List.replicate p.text.length false := by
  unfold clearMarks
  cases hfind : (revisionPages C p.contractRevisionId).find? (·.page = p.page) with
  | none =>
    have := List.find?_eq_none.1 hfind p (mem_revisionPages.2 ⟨hp, rfl⟩)
    simp at this
  | some p' =>
    obtain ⟨hp', hr⟩ := mem_revisionPages.1 (List.mem_of_find?_eq_some hfind)
    have hn : p'.page = p.page := by simpa using List.find?_some hfind
    rw [eq_of_identity hp hp' hr hn]
    rfl

theorem bit_clear {κ : Type} {f : κ → Nat} (c : κ × Nat) : Bitmap.bit (fun k => List.replicate (f k) false) c = false := by
  rw [Bitmap.bit, List.getD_eq_getElem?_getD, List.getElem?_replicate]
  split <;> rfl

/-- The spans of a revision, by page. -/
def byPage (spans : List CanonicalSpan) (revision : Str) : List (Nat × Nat × Nat) :=
  (spans.filter (·.contractRevisionId = revision)).map fun s => (s.page, s.sourceStart, s.sourceEnd)

theorem filter_byPage : ((byPage spans p.contractRevisionId).filter (·.1 = p.page)).map (·.2) = spansOf spans p := by
  rw [byPage, List.filter_map, List.map_map, List.filter_filter, spansOf]
  congr 1
  refine List.filter_congr fun s _ => ?_
  simp [and_comm]

theorem mem_byPage {revision : Str} {s : Nat × Nat × Nat} (hperm : spans.Perm C.spans)
    (hs : s ∈ byPage spans revision) : s.2.1 < s.2.2 ∧ ∃ p ∈ C.pages, p.contractRevisionId = revision ∧ p.page = s.1 ∧
      s.2.2 ≤ p.text.length := by
  obtain ⟨span, hspan, rfl⟩ := List.mem_map.1 hs
  obtain ⟨hspan, hr⟩ := List.mem_filter.1 hspan
  have hr := of_decide_eq_true hr
  obtain ⟨hlt, p, hp, hpr, hn, hend⟩ := C.within span (hperm.mem_iff.1 hspan)
  exact ⟨hlt, p, hp, hpr.trans hr, hn, hend⟩

/-- The bitmap of a revision accepts tilings of its pages. -/
theorem validateRevision_eq_ok (hperm : spans.Perm C.spans) (revision : Str) :
    validateRevision C.pages spans revision = .ok () ↔
      ∀ p ∈ C.pages, p.contractRevisionId = revision → Tiled (spansOf spans p) p.text.length := by
  have hne : ∀ s ∈ byPage spans revision, s.2.1 < s.2.2 := fun s hs => (mem_byPage hperm hs).1
  have hb : ∀ s ∈ byPage spans revision, s.2.2 ≤ (clearMarks (revisionPages C revision) s.1).length := by
    intro s hs
    obtain ⟨-, p, hp, rfl, hn, hend⟩ := mem_byPage hperm hs
    rw [← hn, clearMarks_page hp, List.length_replicate]
    exact hend
  have hclear : ∀ c, Bitmap.bit (clearMarks (revisionPages C revision)) c = false := fun c => bit_clear c
  have hmarks := marks_iff (e := overlapping) hne hb hclear
  have hflat : ((spans.filter (·.contractRevisionId = revision)).flatMap fun s =>
      Bitmap.cells s.page s.sourceStart s.sourceEnd) = (byPage spans revision).flatMap cellsOf := by
    rw [byPage, List.flatMap_map]
    rfl
  unfold validateRevision
  simp only [hflat, Guard.bind_eq_ok, raiseIf_eq_ok, Guard.exists_unit, not_not]
  constructor
  · rintro ⟨covered, hcovered, hfull, -⟩ p hp rfl
    refine ⟨?_, fun i hi => ?_⟩
    · rw [← filter_byPage]
      exact pairwise_apartOn_iff.1 (hmarks.1 ⟨covered, hcovered⟩) p.page
    · have hlen : (covered p.page).length = p.text.length := by
        rw [Bitmap.length_of_foldlM_mark hcovered, clearMarks_page hp, List.length_replicate]
      have hpage : (covered p.page).any (!·) = false := by
        by_contra hany
        exact hfull (List.any_eq_true.2 ⟨p, mem_revisionPages.2 ⟨hp, rfl⟩, by simpa using hany⟩)
      have hbit := Bitmap.any_not_eq_false_iff.1 hpage i (by omega)
      obtain ⟨s, hs, hk, hin⟩ := (bit_marks hb hclear hcovered).1 hbit
      refine ⟨s.2, ?_, hin⟩
      rw [← filter_byPage]
      exact List.mem_map_of_mem (List.mem_filter.2 ⟨hs, decide_eq_true hk.symm⟩)
  · intro h
    have hpair : (byPage spans revision).Pairwise ApartOn := by
      refine pairwise_apartOn_iff.2 fun k => ?_
      by_cases hpage : ∃ p ∈ C.pages, p.contractRevisionId = revision ∧ p.page = k
      · obtain ⟨p, hp, rfl, rfl⟩ := hpage
        rw [filter_byPage]
        exact (h p hp rfl).apart
      · have hnil : (byPage spans revision).filter (·.1 = k) = [] := by
          refine List.filter_eq_nil_iff.2 fun s hs hk => hpage ?_
          obtain ⟨-, p, hp, hr, hn, -⟩ := mem_byPage hperm hs
          exact ⟨p, hp, hr, hn.trans (of_decide_eq_true hk)⟩
        rw [hnil]
        exact List.Pairwise.nil
    obtain ⟨covered, hcovered⟩ := hmarks.2 hpair
    have hset : ∀ p ∈ revisionPages C revision, (covered p.page).length = p.text.length ∧
        ∀ b ∈ covered p.page, b = true := by
      intro p hp
      obtain ⟨hmem, rfl⟩ := mem_revisionPages.1 hp
      have hlen : (covered p.page).length = p.text.length := by
        rw [Bitmap.length_of_foldlM_mark hcovered, clearMarks_page hmem, List.length_replicate]
      have hany : (covered p.page).any (!·) = false := by
        refine Bitmap.any_not_eq_false_iff.2 fun i hi => (bit_marks hb hclear hcovered).2 ?_
        obtain ⟨s, hs, hin⟩ := (h p hmem rfl).full i (by omega)
        rw [← filter_byPage] at hs
        obtain ⟨t, ht, rfl⟩ := List.mem_map.1 hs
        obtain ⟨ht, hk⟩ := List.mem_filter.1 ht
        exact ⟨t, ht, (of_decide_eq_true hk).symm, hin⟩
      refine ⟨hlen, fun b hb => ?_⟩
      have := List.any_eq_false.1 hany b hb
      simpa using this
    refine ⟨covered, hcovered, fun hany => ?_, ?_⟩
    · obtain ⟨p, hp, hflag⟩ := List.any_eq_true.1 hany
      obtain ⟨b, hb, hnot⟩ := List.any_eq_true.1 hflag
      rw [(hset p hp).2 b hb] at hnot
      cases hnot
    · refine congrArg List.sum (List.map_congr_left fun p hp => ?_)
      exact (markedNonWhitespace_eq (hset p hp).1 (hset p hp).2).symm

theorem validate_eq_ok (hperm : spans.Perm C.spans) :
    C.validate spans = .ok () ↔ ∀ p ∈ C.pages, Tiled (spansOf spans p) p.text.length := by
  simp only [CoverageInput.validate, Guard.forM_eq_ok, validateRevision_eq_ok hperm]
  exact ⟨fun h p hp => h _ (C.revision_mem p hp) p hp rfl, fun h _ _ p hp _ => h p hp⟩

/-- All spans, by the identity of the page. -/
def byIdentity (spans : List CanonicalSpan) : List ((Str × Nat) × Nat × Nat) :=
  spans.map fun s => ((s.contractRevisionId, s.page), s.sourceStart, s.sourceEnd)

theorem filter_byIdentity :
    ((byIdentity spans).filter (·.1 = (p.contractRevisionId, p.page))).map (·.2) = spansOf spans p := by
  rw [byIdentity, List.filter_map, List.map_map, spansOf]
  congr 1
  refine List.filter_congr fun s _ => ?_
  simp [Prod.ext_iff]

theorem clearCoverage_page (hp : p ∈ C.pages) :
    clearCoverage C.pages (p.contractRevisionId, p.page) = List.replicate p.text.length false := by
  unfold clearCoverage
  cases hfind : C.pages.find? fun p' => (p'.contractRevisionId, p'.page) = (p.contractRevisionId, p.page) with
  | none =>
    have := List.find?_eq_none.1 hfind p hp
    simp at this
  | some p' =>
    have hkey : (p'.contractRevisionId, p'.page) = (p.contractRevisionId, p.page) := by
      simpa using List.find?_some hfind
    rw [eq_of_identity hp (List.mem_of_find?_eq_some hfind) (Prod.mk.inj hkey).1 (Prod.mk.inj hkey).2]
    rfl

/-- The bitmap of the server accepts tilings. -/
theorem validateSourceCoverage_of_tiled (hperm : spans.Perm C.spans)
    (h : ∀ p ∈ C.pages, Tiled (spansOf spans p) p.text.length) : validateSourceCoverage C.pages spans = .ok () := by
  have hwithin : ∀ s ∈ byIdentity spans, s.2.1 < s.2.2 ∧ ∃ p ∈ C.pages, (p.contractRevisionId, p.page) = s.1 ∧
      s.2.2 ≤ p.text.length := by
    intro s hs
    obtain ⟨span, hspan, rfl⟩ := List.mem_map.1 hs
    obtain ⟨hlt, p, hp, hr, hn, hend⟩ := C.within span (hperm.mem_iff.1 hspan)
    exact ⟨hlt, p, hp, Prod.ext hr hn, hend⟩
  have hne : ∀ s ∈ byIdentity spans, s.2.1 < s.2.2 := fun s hs => (hwithin s hs).1
  have hb : ∀ s ∈ byIdentity spans, s.2.2 ≤ (clearCoverage C.pages s.1).length := by
    intro s hs
    obtain ⟨-, p, hp, hk, hend⟩ := hwithin s hs
    rw [← hk, clearCoverage_page hp, List.length_replicate]
    exact hend
  have hclear : ∀ c, Bitmap.bit (clearCoverage C.pages) c = false := fun c => bit_clear c
  have hflat : (spans.flatMap fun s => Bitmap.cells (s.contractRevisionId, s.page) s.sourceStart s.sourceEnd) =
      (byIdentity spans).flatMap cellsOf := by
    rw [byIdentity, List.flatMap_map]
    rfl
  have hpair : (byIdentity spans).Pairwise ApartOn := by
    refine pairwise_apartOn_iff.2 fun k => ?_
    by_cases hpage : ∃ p ∈ C.pages, (p.contractRevisionId, p.page) = k
    · obtain ⟨p, hp, rfl⟩ := hpage
      rw [filter_byIdentity]
      exact (h p hp).apart
    · have hnil : (byIdentity spans).filter (·.1 = k) = [] := by
        refine List.filter_eq_nil_iff.2 fun s hs hk => hpage ?_
        obtain ⟨-, p, hp, hkey, -⟩ := hwithin s hs
        exact ⟨p, hp, hkey.trans (of_decide_eq_true hk)⟩
      rw [hnil]
      exact List.Pairwise.nil
  obtain ⟨coverage, hcoverage⟩ := (marks_iff (e := overlapping) hne hb hclear).2 hpair
  unfold validateSourceCoverage
  simp only [hflat, Guard.bind_eq_ok, Guard.forM_eq_ok, raiseIf_eq_ok, not_and, Bool.not_eq_false]
  refine ⟨coverage, hcoverage, fun p hp c hc _ => (bit_marks hb hclear hcoverage).2 ?_⟩
  have hlt : c.2 < p.text.length := (List.mem_zipIdx' hc).1
  obtain ⟨s, hs, hin⟩ := (h p (PyList.mem_sortedBy.1 hp)).full c.2 hlt
  rw [← filter_byIdentity] at hs
  obtain ⟨t, ht, rfl⟩ := List.mem_map.1 hs
  obtain ⟨ht, hk⟩ := List.mem_filter.1 ht
  exact ⟨t, ht, (of_decide_eq_true hk).symm, hin⟩

theorem spansOf_perm {spans' : List CanonicalSpan} (h : spans.Perm spans') : (spansOf spans p).Perm (spansOf spans' p) :=
  (h.filter _).map _

/-- The sweep accepts what the bitmap accepts, whatever the order of the spans, and the server's bitmap then
accepts it too. -/
theorem coverage_checks_agree (C : CoverageInput) :
    (∀ exported stored : List CanonicalSpan, exported.Perm C.spans → stored.Perm C.spans →
      (verifyStored C.pages stored = .ok () ↔ C.validate exported = .ok ())) ∧
    ∀ exported served : List CanonicalSpan, exported.Perm C.spans → served.Perm C.spans →
      C.validate exported = .ok () → validateSourceCoverage C.pages served = .ok () := by
  constructor
  · intro exported stored he hs
    rw [verifyStored_eq_ok hs, validate_eq_ok he]
    have hperm := hs.trans he.symm
    exact forall_congr' fun p => forall_congr' fun _ => ⟨Tiled.perm (spansOf_perm hperm),
      Tiled.perm (spansOf_perm hperm.symm)⟩
  · intro exported served he hs hok
    refine validateSourceCoverage_of_tiled hs fun p hp => ?_
    exact Tiled.perm (spansOf_perm (he.trans hs.symm)) ((validate_eq_ok he).1 hok p hp)

end

/-- A page under two spans, the second one first. -/
def twoSpans : CoverageInput where
  revisions := ["r".toList]
  pages := [⟨"r".toList, 1, "fees".toList⟩]
  spans := [⟨"r".toList, 1, 2, 4⟩, ⟨"r".toList, 1, 0, 2⟩]
  pages_nodup := by decide
  revision_mem := by decide
  within := by decide

theorem coverage_checks_agree_two_spans :
    (verifyStored twoSpans.pages twoSpans.spans = .ok () ↔ twoSpans.validate twoSpans.spans = .ok ()) ∧
      (twoSpans.validate twoSpans.spans = .ok () → validateSourceCoverage twoSpans.pages twoSpans.spans = .ok ()) :=
  ⟨(coverage_checks_agree twoSpans).1 _ _ (.refl _) (.refl _), (coverage_checks_agree twoSpans).2 _ _ (.refl _) (.refl _)⟩

end CardRag.Export
