import CardRag.Structure.Model

/-! # Page chunks (`chunk_pages`)

A window of a page is cut back to a blank or a line break, trimmed, and moved on by its length less the
overlap. What a chunk says of the page is right for every page. A window that is all white space ends the
page, and the text after it is in no chunk (`chunkPages_lossless`). -/

namespace CardRag.Export

structure Chunk where
  evidenceId : Str
  documentId : Str
  pageStart : Nat
  pageEnd : Nat
  sectionType : Str
  text : Str
  sourceStart : Nat
  sourceEnd : Nat
deriving DecidableEq

/-- `text[i].isspace()`. -/
def blankAt (text : Str) (i : Nat) : Bool := text[i]?.any PyStr.isSpace

/-- `text.rfind(c, a, b)` for a character. -/
def rfind (text : Str) (c : Char) (a : Nat) : Nat → Int
  | 0 => -1
  | b + 1 => if a ≤ b ∧ text[b]? = some c then b else rfind text c a b

/-- `while start < end and text[start].isspace(): start += 1`, with the steps left. -/
def skipBlank (text : Str) : Nat → Nat → Nat
  | 0, start => start
  | steps + 1, start => if blankAt text start then skipBlank text steps (start + 1) else start

/-- `while end > start and text[end - 1].isspace(): end -= 1`. -/
def dropBlank (text : Str) (start : Nat) : Nat → Nat
  | 0 => 0
  | stop + 1 => if start < stop + 1 ∧ blankAt text stop then dropBlank text start stop else stop + 1

/-- Where the window from `start` ends. -/
def windowEnd (text : Str) (maximumChars start : Nat) : Nat :=
  let limit := min text.length (start + maximumChars)
  let boundary := max (rfind text '\n' (start + 1) limit) (rfind text ' ' (start + 1) limit)
  if limit < text.length ∧ (start + maximumChars / 2 : Nat) < boundary then boundary.toNat else limit

theorem le_skipBlank (text : Str) (steps start : Nat) : start ≤ skipBlank text steps start := by
  induction steps generalizing start with
  | zero => exact le_rfl
  | succ steps ih =>
    unfold skipBlank
    split
    · exact (Nat.le_succ start).trans (ih (start + 1))
    · exact le_rfl

/-- The chunks of a page from `start` on: where they start and end. -/
def pageChunks (text : Str) (maximumChars overlapChars : Nat) (start : Nat) : List (Nat × Nat) :=
  if _h : start < text.length then
    let window := windowEnd text maximumChars start
    let first := skipBlank text (window - start) start
    let last := dropBlank text first window
    if last ≤ first then []
    else if text.length ≤ last then [(first, last)]
    else (first, last) :: pageChunks text maximumChars overlapChars (max (first + 1) (last - overlapChars))
  else []
termination_by text.length - start
decreasing_by
  have := le_skipBlank text (windowEnd text maximumChars start - start) start
  omega

def sectionType (text : Str) : Str :=
  let first := if PyStr.strip text = [] then []
    else ((PyStr.splitlines (text.dropWhile PyStr.isSpace)).headD []).takeWhile fun c => !PyStr.isLineBreak c
  if "#".toList.isPrefixOf first then "heading".toList else "body".toList

/-- What an evidence id digests. -/
def evidenceIdentity (H : Sha256) (documentId : Str) (page : Nat) (text : Str) (span : Nat × Nat) : Json :=
  .obj [("document_id".toList, .str documentId), ("page".toList, .num page), ("source_end".toList, .num span.2),
    ("source_start".toList, .num span.1),
    ("text_sha256".toList, .str (H.hexdigest (PyStr.slice text span.1 span.2)))]

def chunk (H : Sha256) (documentId : Str) (page : PageRecord) (span : Nat × Nat) : Chunk :=
  let text := PyStr.slice page.text span.1 span.2
  ⟨"evidence_".toList ++ H.canonical (evidenceIdentity H documentId page.page page.text span), documentId, page.page,
    page.page, sectionType text, text, span.1, span.2⟩

def chunksOf (H : Sha256) (documentId : Str) (maximumChars overlapChars : Nat) (page : PageRecord) : List Chunk :=
  (pageChunks page.text maximumChars overlapChars 0).map (chunk H documentId page)

def chunkPages (H : Sha256) (documentId : Str) (pages : List PageRecord) (maximumChars overlapChars : Nat) :
    Except Raised (List Chunk) := do
  raiseIf (maximumChars < 200 ∨ ¬ overlapChars < maximumChars / 2) (valueError "invalid chunk window")
  return pages.flatMap (chunksOf H documentId maximumChars overlapChars)

/-! ### What is said of the chunks -/

/-- A window of the page is all white space, and text comes after it. -/
def Stalls (text : Str) (maximumChars start : Nat) : Prop :=
  start + maximumChars < text.length ∧
    (∀ i, start ≤ i → i < windowEnd text maximumChars start → blankAt text i = true) ∧
    ∃ i < text.length, windowEnd text maximumChars start ≤ i ∧ blankAt text i = false

/-- Every other character of the page is in a chunk. -/
def Covered (text : Str) (spans : List (Nat × Nat)) : Prop :=
  ∀ i < text.length, blankAt text i = false → ∃ span ∈ spans, span.1 ≤ i ∧ i < span.2

/-- The chunks of one page. -/
structure PageChunked (H : Sha256) (documentId : Str) (maximumChars : Nat) (page : PageRecord) (chunks : List Chunk) :
    Prop where
  slices : ∀ c ∈ chunks, c.pageStart = page.page ∧ c.text = PyStr.slice page.text c.sourceStart c.sourceEnd ∧
    c.sourceStart < c.sourceEnd ∧ c.sourceEnd ≤ page.text.length ∧ c.text.length ≤ maximumChars
  increasing : chunks.Pairwise fun a b => a.sourceStart < b.sourceStart
  /-- Where the digests of the page do not collide. -/
  evidence : H.InjectiveOn (chunks.map fun c =>
    (evidenceIdentity H documentId page.page page.text (c.sourceStart, c.sourceEnd)).render) →
    (chunks.map (·.evidenceId)).Nodup
  covered : Covered page.text (chunks.map fun c => (c.sourceStart, c.sourceEnd))

/-! ### The window -/

section
variable {text : Str} {c : Char} {a b i maximumChars overlapChars start stop steps : Nat}

theorem rfind_cases (text : Str) (c : Char) (a b : Nat) :
    (rfind text c a b = -1 ∧ ∀ i, a ≤ i → i < b → text[i]? ≠ some c) ∨
      ∃ k : Nat, rfind text c a b = k ∧ a ≤ k ∧ k < b ∧ text[k]? = some c ∧
        ∀ i, k < i → i < b → text[i]? ≠ some c := by
  induction b with
  | zero => exact .inl ⟨rfl, fun i _ hi => absurd hi (Nat.not_lt_zero i)⟩
  | succ b ih =>
    unfold rfind
    split
    · rename_i h
      exact .inr ⟨b, rfl, h.1, Nat.lt_succ_self b, h.2, fun i hi hlt => by omega⟩
    · rename_i h
      have hb : a ≤ b → text[b]? ≠ some c := fun hab hc => h ⟨hab, hc⟩
      rcases ih with ⟨heq, hnone⟩ | ⟨k, heq, hak, hkb, hc, hlast⟩
      · refine .inl ⟨heq, fun i hai hi => ?_⟩
        rcases Nat.lt_succ_iff_lt_or_eq.1 hi with hi | rfl
        · exact hnone i hai hi
        · exact hb hai
      · refine .inr ⟨k, heq, hak, by omega, hc, fun i hki hi => ?_⟩
        rcases Nat.lt_succ_iff_lt_or_eq.1 hi with hi | rfl
        · exact hlast i hki hi
        · exact hb (by omega)

/-- A line break or a blank. -/
def Breaks (text : Str) (i : Nat) : Prop := text[i]? = some '\n' ∨ text[i]? = some ' '

/-- The window ends at its limit, or at the last break of the window where it lies beyond the middle. -/
theorem windowEnd_cases (text : Str) (maximumChars start : Nat) :
    let limit := min text.length (start + maximumChars)
    (windowEnd text maximumChars start = limit ∧
      (limit < text.length → ∀ i, start + maximumChars / 2 < i → i < limit → ¬ Breaks text i)) ∨
    (limit < text.length ∧ start + maximumChars / 2 < windowEnd text maximumChars start ∧
      windowEnd text maximumChars start < limit ∧ Breaks text (windowEnd text maximumChars start) ∧
      ∀ i, windowEnd text maximumChars start < i → i < limit → ¬ Breaks text i) := by
  intro limit
  have hlast : ∀ i, start + 1 ≤ i → i < limit → Breaks text i →
      (i : Int) ≤ max (rfind text '\n' (start + 1) limit) (rfind text ' ' (start + 1) limit) := by
    rintro i hi hlt (hc | hc)
    · refine le_max_of_le_left ?_
      rcases rfind_cases text '\n' (start + 1) limit with ⟨-, hnone⟩ | ⟨k, heq, -, -, -, hk⟩
      · exact absurd hc (hnone i hi hlt)
      · by_contra hlt'
        exact hk i (by omega) hlt hc
    · refine le_max_of_le_right ?_
      rcases rfind_cases text ' ' (start + 1) limit with ⟨-, hnone⟩ | ⟨k, heq, -, -, -, hk⟩
      · exact absurd hc (hnone i hi hlt)
      · by_contra hlt'
        exact hk i (by omega) hlt hc
  have hbound : max (rfind text '\n' (start + 1) limit) (rfind text ' ' (start + 1) limit) < limit := by
    have hlim : (-1 : Int) < limit := by omega
    refine max_lt ?_ ?_
    · rcases rfind_cases text '\n' (start + 1) limit with ⟨heq, -⟩ | ⟨k, heq, -, hk, -⟩ <;> omega
    · rcases rfind_cases text ' ' (start + 1) limit with ⟨heq, -⟩ | ⟨k, heq, -, hk, -⟩ <;> omega
  have hlimit : min text.length (start + maximumChars) = limit := rfl
  unfold windowEnd
  rw [hlimit]
  dsimp only
  clear_value limit
  split
  · rename_i h
    have hbreak : Breaks text (max (rfind text '\n' (start + 1) limit) (rfind text ' ' (start + 1) limit)).toNat := by
      rcases le_total (rfind text '\n' (start + 1) limit) (rfind text ' ' (start + 1) limit) with hle | hle
      · rw [max_eq_right hle] at h ⊢
        rcases rfind_cases text ' ' (start + 1) limit with ⟨heq, -⟩ | ⟨k, heq, -, -, hk, -⟩
        · omega
        · exact .inr (by rw [heq]; exact hk)
      · rw [max_eq_left hle] at h ⊢
        rcases rfind_cases text '\n' (start + 1) limit with ⟨heq, -⟩ | ⟨k, heq, -, -, hk, -⟩
        · omega
        · exact .inl (by rw [heq]; exact hk)
    refine .inr ⟨h.1, by omega, by omega, hbreak, fun i hi hlt hbr => ?_⟩
    have := hlast i (by omega) hlt hbr
    omega
  · rename_i h
    refine .inl ⟨rfl, fun hlim i hi hlt hbr => ?_⟩
    have := hlast i (by omega) hlt hbr
    exact h ⟨hlim, by omega⟩

theorem windowEnd_le (text : Str) (maximumChars start : Nat) :
    windowEnd text maximumChars start ≤ text.length ∧ windowEnd text maximumChars start ≤ start + maximumChars := by
  have := windowEnd_cases text maximumChars start
  dsimp only at this
  omega

theorem start_lt_windowEnd (hm : 0 < maximumChars) (hs : start < text.length) :
    start < windowEnd text maximumChars start := by
  have := windowEnd_cases text maximumChars start
  dsimp only at this
  omega

/-- An earlier window does not end later. -/
theorem windowEnd_mono {start' : Nat} (h : start ≤ start') (hlim : start' + maximumChars < text.length) :
    windowEnd text maximumChars start ≤ windowEnd text maximumChars start' := by
  rcases Nat.eq_or_lt_of_le h with rfl | h
  · exact le_rfl
  have hlim₁ : min text.length (start + maximumChars) = start + maximumChars := by omega
  have hlim₂ : min text.length (start' + maximumChars) = start' + maximumChars := by omega
  have hs' := windowEnd_cases text maximumChars start'
  have hs := windowEnd_cases text maximumChars start
  dsimp only at hs hs'
  rw [hlim₁] at hs
  rw [hlim₂] at hs'
  rcases hs' with ⟨heq', -⟩ | ⟨-, hmid', hlt', hbreak', hlast'⟩
  · omega
  by_contra hgt
  rcases hs with ⟨heq, hnone⟩ | ⟨-, hmid, hlt, hbreak, -⟩
  · -- the break of the later window would be in the earlier one, beyond its middle
    exact hnone (by omega) (windowEnd text maximumChars start') (by omega) (by omega) hbreak'
  · exact hlast' _ (by omega) (by omega) hbreak

theorem skipBlank_le (text : Str) (steps start : Nat) : skipBlank text steps start ≤ start + steps := by
  induction steps generalizing start with
  | zero => exact le_rfl
  | succ steps ih =>
    unfold skipBlank
    split
    · exact (ih (start + 1)).trans (by omega)
    · omega

theorem blankAt_of_lt_skipBlank (hi : start ≤ i) (hlt : i < skipBlank text steps start) : blankAt text i = true := by
  induction steps generalizing start with
  | zero => exact absurd hlt (by simp only [skipBlank]; omega)
  | succ steps ih =>
    unfold skipBlank at hlt
    split at hlt
    · rename_i hblank
      rcases Nat.eq_or_lt_of_le hi with rfl | hi
      · exact hblank
      · exact ih hi hlt
    · omega

theorem dropBlank_le (text : Str) (start stop : Nat) : dropBlank text start stop ≤ stop := by
  induction stop with
  | zero => exact le_rfl
  | succ stop ih =>
    unfold dropBlank
    split
    · exact ih.trans (Nat.le_succ stop)
    · exact le_rfl

theorem blankAt_of_dropBlank_le (hi : dropBlank text start stop ≤ i) (hlt : i < stop) : blankAt text i = true := by
  induction stop with
  | zero => exact absurd hlt (Nat.not_lt_zero i)
  | succ stop ih =>
    unfold dropBlank at hi
    split at hi
    · rename_i h
      rcases Nat.lt_succ_iff_lt_or_eq.1 hlt with hlt | rfl
      · exact ih hi hlt
      · exact h.2
    · omega

theorem blankAt_dropBlank (h : start < dropBlank text start stop) : blankAt text (dropBlank text start stop - 1) = false := by
  induction stop with
  | zero => exact absurd h (Nat.not_lt_zero start)
  | succ stop ih =>
    unfold dropBlank at h ⊢
    split
    · rename_i hblank
      rw [if_pos hblank] at h
      exact ih h
    · rename_i hblank
      rw [if_neg hblank] at h
      rw [Nat.add_sub_cancel]
      exact Bool.eq_false_iff.2 fun hb => hblank ⟨h, hb⟩

/-! ### The chunks of a page -/

/-- The loop, once: what is trimmed is white space, and the next window starts in the chunk. -/
theorem pageChunks_step (overlapChars : Nat) (hm : 0 < maximumChars) (hs : start < text.length) :
    ((∀ i, start ≤ i → i < windowEnd text maximumChars start → blankAt text i = true) ∧
      pageChunks text maximumChars overlapChars start = []) ∨
    ∃ first last, start ≤ first ∧ first < last ∧ last ≤ windowEnd text maximumChars start ∧
      blankAt text (last - 1) = false ∧
      (∀ i, start ≤ i → i < first → blankAt text i = true) ∧
      (∀ i, last ≤ i → i < windowEnd text maximumChars start → blankAt text i = true) ∧
      ((text.length ≤ last ∧ pageChunks text maximumChars overlapChars start = [(first, last)]) ∨
        (last < text.length ∧ pageChunks text maximumChars overlapChars start =
          (first, last) :: pageChunks text maximumChars overlapChars (max (first + 1) (last - overlapChars)))) := by
  have hlt := start_lt_windowEnd hm hs
  rw [pageChunks, dif_pos hs]
  dsimp only
  have hfirst := skipBlank_le text (windowEnd text maximumChars start - start) start
  have hbefore : ∀ i, start ≤ i → i < skipBlank text (windowEnd text maximumChars start - start) start →
      blankAt text i = true := fun i hi hlt => blankAt_of_lt_skipBlank hi hlt
  have hle := le_skipBlank text (windowEnd text maximumChars start - start) start
  generalize skipBlank text (windowEnd text maximumChars start - start) start = first at hfirst hbefore hle ⊢
  have hafter : ∀ i, dropBlank text first (windowEnd text maximumChars start) ≤ i →
      i < windowEnd text maximumChars start → blankAt text i = true := fun i hi hlt => blankAt_of_dropBlank_le hi hlt
  have hdrop := dropBlank_le text first (windowEnd text maximumChars start)
  have hlast : first < dropBlank text first (windowEnd text maximumChars start) →
      blankAt text (dropBlank text first (windowEnd text maximumChars start) - 1) = false := blankAt_dropBlank
  generalize dropBlank text first (windowEnd text maximumChars start) = last at hafter hdrop hlast ⊢
  split
  · refine .inl ⟨fun i hi hlt => ?_, rfl⟩
    by_cases hif : i < first
    · exact hbefore i hi hif
    · exact hafter i (by omega) hlt
  · refine .inr ⟨first, last, hle, by omega, hdrop, hlast (by omega), hbefore, hafter, ?_⟩
    split
    · exact .inl ⟨by assumption, rfl⟩
    · exact .inr ⟨by omega, rfl⟩

theorem pageChunks_of_le (hs : text.length ≤ start) : pageChunks text maximumChars overlapChars start = [] := by
  rw [pageChunks, dif_neg (by omega)]

theorem mem_pageChunks (hm : 0 < maximumChars) {span : Nat × Nat}
    (h : span ∈ pageChunks text maximumChars overlapChars start) :
    start ≤ span.1 ∧ span.1 < span.2 ∧ span.2 ≤ text.length ∧ span.2 ≤ span.1 + maximumChars := by
  induction hn : text.length - start using Nat.strong_induction_on generalizing start with
  | _ n ih =>
    by_cases hs : start < text.length
    · have hw := windowEnd_le text maximumChars start
      rcases pageChunks_step overlapChars hm hs with
        ⟨-, heq⟩ | ⟨first, last, hle, hlt, hlast, -, -, -, ⟨-, heq⟩ | ⟨-, heq⟩⟩
      · rw [heq] at h
        cases h
      · rw [heq, List.mem_singleton] at h
        subst h
        exact ⟨hle, hlt, by omega, by dsimp only; omega⟩
      · rw [heq] at h
        rcases List.mem_cons.1 h with rfl | h
        · exact ⟨hle, hlt, by omega, by dsimp only; omega⟩
        · have hrest := ih _ (by omega) h rfl
          omega
    · rw [pageChunks_of_le (by omega)] at h
      cases h

theorem pageChunks_increasing (hm : 0 < maximumChars) (text : Str) (overlapChars start : Nat) :
    (pageChunks text maximumChars overlapChars start).Pairwise fun a b => a.1 < b.1 := by
  induction hn : text.length - start using Nat.strong_induction_on generalizing start with
  | _ n ih =>
    by_cases hs : start < text.length
    · rcases pageChunks_step overlapChars hm hs with
        ⟨-, heq⟩ | ⟨first, last, hle, hlt, hlast, -, -, -, ⟨-, heq⟩ | ⟨hend, heq⟩⟩
      · rw [heq]
        exact List.Pairwise.nil
      · rw [heq]
        exact List.pairwise_singleton _ _
      · rw [heq, List.pairwise_cons]
        refine ⟨fun span hspan => ?_, ih _ (by omega) _ rfl⟩
        have := mem_pageChunks hm hspan
        dsimp only
        omega
    · rw [pageChunks_of_le (by omega)]
      exact List.Pairwise.nil

/-- Where no window stalls, what is not in a chunk from `start` on is white space. -/
theorem covered_from (hm : 0 < maximumChars) (hno : ∀ start, ¬ Stalls text maximumChars start) (hi : start ≤ i)
    (hlt : i < text.length) (htext : blankAt text i = false) :
    ∃ span ∈ pageChunks text maximumChars overlapChars start, span.1 ≤ i ∧ i < span.2 := by
  induction hn : text.length - start using Nat.strong_induction_on generalizing start with
  | _ n ih =>
    have hs : start < text.length := by omega
    have hnot : ∀ {P : Prop}, blankAt text i = true → P := fun h => by rw [htext] at h; cases h
    rcases pageChunks_step overlapChars hm hs with
      ⟨hblank, heq⟩ | ⟨first, last, hle, hfl, hlast, -, hbefore, hafter, ⟨hend, heq⟩ | ⟨hend, heq⟩⟩
    · by_cases hwin : i < windowEnd text maximumChars start
      · exact hnot (hblank i hi hwin)
      · have hlim : start + maximumChars < text.length := by
          have := windowEnd_cases text maximumChars start
          dsimp only at this
          omega
        exact absurd ⟨hlim, hblank, i, hlt, by omega, htext⟩ (hno start)
    · rw [heq]
      refine ⟨(first, last), by simp, ?_, by dsimp only; omega⟩
      by_contra hif
      exact hnot (hbefore i hi (by dsimp only at hif; omega))
    · rw [heq]
      by_cases hif : i < first
      · exact hnot (hbefore i hi hif)
      · by_cases hil : i < last
        · exact ⟨(first, last), by simp, by dsimp only; omega, hil⟩
        · obtain ⟨span, hspan, hin⟩ := ih _ (by omega) (show max (first + 1) (last - overlapChars) ≤ i by omega) rfl
          exact ⟨span, List.mem_cons_of_mem _ hspan, hin⟩

/-- No chunk reaches past a window that stalls. -/
theorem le_of_stalls {stall : Nat} (hm : 0 < maximumChars) (hst : Stalls text maximumChars stall) (hs : start ≤ stall)
    {span : Nat × Nat} (h : span ∈ pageChunks text maximumChars overlapChars start) : span.2 ≤ stall := by
  obtain ⟨hlim, hblank, -⟩ := hst
  induction hn : text.length - start using Nat.strong_induction_on generalizing start with
  | _ n ih =>
    have hmono := windowEnd_mono hs hlim
    rcases pageChunks_step overlapChars hm (by omega : start < text.length) with
      ⟨-, heq⟩ | ⟨first, last, hle, hfl, hlast, htext, -, -, hcases⟩
    · rw [heq] at h
      cases h
    · -- the last character of the chunk is none of the stalled window's
      have hbound : last ≤ stall := by
        by_contra hgt
        rw [hblank (last - 1) (by omega) (by omega)] at htext
        cases htext
      rcases hcases with ⟨-, heq⟩ | ⟨-, heq⟩
      · rw [heq, List.mem_singleton] at h
        rw [h]
        exact hbound
      · rw [heq] at h
        rcases List.mem_cons.1 h with rfl | h
        · exact hbound
        · exact ih _ (by omega) (by omega) h rfl

theorem covered_iff (hm : 0 < maximumChars) (text : Str) (overlapChars : Nat) :
    Covered text (pageChunks text maximumChars overlapChars 0) ↔ ∀ start, ¬ Stalls text maximumChars start := by
  constructor
  · intro h stall hst
    obtain ⟨-, -, i, hlt, hwin, htext⟩ := id hst
    obtain ⟨span, hspan, -, hi⟩ := h i hlt htext
    have hle := le_of_stalls hm hst (Nat.zero_le stall) hspan
    have hstall : stall < windowEnd text maximumChars stall := start_lt_windowEnd hm (by have := hst.1; omega)
    omega
  · intro h i hlt htext
    exact covered_from hm h (Nat.zero_le i) hlt htext

end

/-! ### The chunks of a document -/

section
variable {H : Sha256} {documentId : Str} {maximumChars overlapChars : Nat} {page : PageRecord} {pages : List PageRecord}
  {chunks : List Chunk}

theorem spans_of_chunks (H : Sha256) (documentId : Str) (page : PageRecord) (spans : List (Nat × Nat)) :
    ((spans.map (chunk H documentId page)).map fun c => (c.sourceStart, c.sourceEnd)) = spans := by
  rw [List.map_map]
  exact List.map_id _

/-- Digested texts of one page differ where the starts do. -/
theorem evidenceIdentity_inj {text : Str} {n : Nat} {a b : Nat × Nat}
    (h : evidenceIdentity H documentId n text a = evidenceIdentity H documentId n text b) : a.1 = b.1 := by
  simp only [evidenceIdentity, Json.obj.injEq, List.cons.injEq, Prod.mk.injEq, Json.num.injEq] at h
  exact h.2.2.2.1.2

theorem chunked_iff (hm : 0 < maximumChars) :
    PageChunked H documentId maximumChars page (chunksOf H documentId maximumChars overlapChars page) ↔
      ∀ start, ¬ Stalls page.text maximumChars start := by
  rw [← covered_iff hm page.text overlapChars]
  unfold chunksOf
  constructor
  · intro h
    have := h.covered
    rwa [spans_of_chunks] at this
  · intro h
    have hinc := pageChunks_increasing hm page.text overlapChars 0
    refine ⟨?_, ?_, ?_, by rwa [spans_of_chunks]⟩
    · intro c hc
      obtain ⟨span, hspan, rfl⟩ := List.mem_map.1 hc
      obtain ⟨-, hlt, hend, hmax⟩ := mem_pageChunks hm hspan
      refine ⟨rfl, rfl, hlt, hend, ?_⟩
      show (PyStr.slice page.text span.1 span.2).length ≤ maximumChars
      rw [PyStr.length_slice hend]
      omega
    · rw [List.pairwise_map]
      exact hinc
    · intro hinj
      rw [List.map_map]
      refine List.Nodup.map_on ?_ (hinc.imp fun h => fun heq => by rw [heq] at h; omega)
      intro a ha b hb heq
      have hkey : ∀ span ∈ pageChunks page.text maximumChars overlapChars 0,
          (evidenceIdentity H documentId page.page page.text span).render ∈
            ((pageChunks page.text maximumChars overlapChars 0).map (chunk H documentId page)).map fun c =>
              (evidenceIdentity H documentId page.page page.text (c.sourceStart, c.sourceEnd)).render :=
        fun span hspan => List.mem_map.2 ⟨_, List.mem_map_of_mem hspan, rfl⟩
      have hdigest := hinj _ (hkey a ha) _ (hkey b hb) (List.append_cancel_left heq)
      have hstart := evidenceIdentity_inj (Json.render_injective hdigest)
      have hnodup : ((pageChunks page.text maximumChars overlapChars 0).map (·.1)).Nodup :=
        List.pairwise_map.2 (hinc.imp ne_of_lt)
      exact List.inj_on_of_nodup_map hnodup ha hb hstart

/-- The loop ends for every list of pages; the chunks are those the pages should have unless a window stalls. -/
theorem chunkPages_lossless (hm : 200 ≤ maximumChars) (ho : overlapChars < maximumChars / 2) :
    chunkPages H documentId pages maximumChars overlapChars =
        .ok (pages.flatMap (chunksOf H documentId maximumChars overlapChars)) ∧
      ((∀ page ∈ pages,
          PageChunked H documentId maximumChars page (chunksOf H documentId maximumChars overlapChars page)) ↔
        ∀ page ∈ pages, ∀ start, ¬ Stalls page.text maximumChars start) := by
  constructor
  · have hno : ¬ (maximumChars < 200 ∨ ¬ overlapChars < maximumChars / 2) := by omega
    simp only [chunkPages, raiseIf, if_neg hno]
    rfl
  · refine forall_congr' fun page => forall_congr' fun _ => ?_
    exact chunked_iff (by omega)

end

/-- Two hundred blanks and a letter. -/
def blankWindow : PageRecord := ⟨"doc".toList, 1, List.replicate 200 ' ' ++ ['x']⟩

theorem stalls_blankWindow : Stalls blankWindow.text 200 0 := by
  have hw := windowEnd_le blankWindow.text 200 0
  have hlast : blankWindow.text[200]? = some 'x' := by
    rw [blankWindow, List.getElem?_append_right (by rw [List.length_replicate]), List.length_replicate]
    rfl
  have hlength : blankWindow.text.length = 201 := by
    rw [blankWindow, List.length_append, List.length_replicate]
    rfl
  refine ⟨by omega, fun i _ hi => ?_, 200, by omega, by omega, by rw [blankAt, hlast]; decide⟩
  have hget : blankWindow.text[i]? = some ' ' := by
    rw [blankWindow, List.getElem?_append_left (by rw [List.length_replicate]; omega),
      List.getElem?_replicate_of_lt (by omega)]
  rw [blankAt, hget]
  rfl

/-- The letter is in no chunk. -/
theorem chunkPages_loses_text : ¬ ∀ page ∈ [blankWindow],
    PageChunked .standard "doc".toList 200 page (chunksOf .standard "doc".toList 200 50 page) :=
  fun h => (chunked_iff (by decide)).1 (h blankWindow (by simp)) 0 stalls_blankWindow

/-- A page of one line. -/
theorem chunkPages_lossless_line :
    chunkPages .standard "doc".toList [⟨"doc".toList, 1, "fee".toList⟩] 200 50 =
        .ok ([⟨"doc".toList, 1, "fee".toList⟩].flatMap (chunksOf .standard "doc".toList 200 50)) ∧
      ((∀ page ∈ [(⟨"doc".toList, 1, "fee".toList⟩ : PageRecord)],
          PageChunked .standard "doc".toList 200 page (chunksOf .standard "doc".toList 200 50 page)) ↔
        ∀ page ∈ [(⟨"doc".toList, 1, "fee".toList⟩ : PageRecord)], ∀ start, ¬ Stalls page.text 200 start) :=
  chunkPages_lossless (by decide) (by decide)

end CardRag.Export
