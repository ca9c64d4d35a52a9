import CardRag.Lib.PyStr

/-! # Lines, fields and white space

Texts cut at separators. `fields q s` are the pieces of `s` between separators of the class `q`,
stripped, without the empty ones: with every separator a space they do not see the white space at
the ends of a text, so they are the same before and after `strip`. -/

namespace CardRag.PyStr

/-! ### Stripping -/

section
variable {c : Char} {s : Str}

theorem strip_cons_space (h : isSpace c = true) (s : Str) : strip (c :: s) = strip s := by
  rw [strip, stripBy, List.dropWhile_cons_of_pos h]
  rfl

theorem rdropWhile_concat_space (h : isSpace c = true) (s : Str) :
    (s ++ [c]).rdropWhile isSpace = s.rdropWhile isSpace := by
  rw [List.rdropWhile_concat, if_pos h]

theorem strip_concat_space (h : isSpace c = true) (s : Str) : strip (s ++ [c]) = strip s := by
  simp only [strip, stripBy, rstripBy]
  by_cases hs : ∀ x ∈ s, isSpace x = true
  · have hall : ∀ x ∈ s ++ [c], isSpace x = true := by simpa [or_imp, forall_and, h] using hs
    rw [List.dropWhile_eq_nil_iff.2 hs, List.dropWhile_eq_nil_iff.2 hall]
  · rw [List.dropWhile_append, if_neg, rdropWhile_concat_space h]
    rw [List.isEmpty_iff, List.dropWhile_eq_nil_iff]
    exact hs

theorem strip_append_spaces {w : Str} (h : ∀ x ∈ w, isSpace x = true) (s : Str) : strip (s ++ w) = strip s := by
  induction w using List.reverseRecOn with
  | nil => rw [List.append_nil]
  | append_singleton w x ih =>
    rw [← List.append_assoc, strip_concat_space (h x (by simp)), ih fun y hy => h y (by simp [hy])]

/-- A text is its stripped form between two runs of white space. -/
theorem exists_strip (s : Str) : ∃ u w, s = u ++ strip s ++ w ∧ (∀ x ∈ u, isSpace x = true) ∧
    ∀ x ∈ w, isSpace x = true := by
  refine ⟨s.takeWhile isSpace, (s.dropWhile isSpace).rtakeWhile isSpace, ?_, ?_, ?_⟩
  · rw [List.append_assoc, strip, stripBy, rstripBy]
    have hr : (s.dropWhile isSpace).rdropWhile isSpace ++ (s.dropWhile isSpace).rtakeWhile isSpace =
        s.dropWhile isSpace := by
      rw [List.rdropWhile, List.rtakeWhile, ← List.reverse_append, List.takeWhile_append_dropWhile,
        List.reverse_reverse]
    rw [hr, List.takeWhile_append_dropWhile]
  · exact fun x hx => List.mem_takeWhile_imp hx
  · exact fun x hx => List.mem_rtakeWhile_imp hx

/-- A text with no white space at its ends is stripped. -/
theorem strip_eq_self (hhead : ∀ x ∈ s.head?, isSpace x = false) (hlast : ∀ x ∈ s.getLast?, isSpace x = false) :
    strip s = s := by
  have hd : s.dropWhile isSpace = s := by
    rw [List.dropWhile_eq_self_iff]
    intro hl
    rw [hhead _ (by simp [List.head?_eq_getElem?, hl])]
    simp
  rw [strip, stripBy, rstripBy, hd, List.rdropWhile_eq_self_iff]
  intro hne
  rw [hlast _ (by simp [List.getLast?_eq_getLast_of_ne_nil hne])]
  simp

theorem isSpace_head_strip {x : Char} (hx : x ∈ (strip s).head?) : isSpace x = false := by
  cases hs : strip s with
  | nil => simp [hs] at hx
  | cons y ys =>
    rw [hs] at hx
    have hd : (s.dropWhile isSpace).head? = some x := by
      obtain ⟨w, hw⟩ : (strip s) <+: s.dropWhile isSpace := List.rdropWhile_prefix _ _
      rw [hs] at hw
      rw [← hw]
      simpa using hx
    have := List.head?_dropWhile_not isSpace s
    rw [hd] at this
    simpa using this

theorem isSpace_getLast_strip {x : Char} (hx : x ∈ (strip s).getLast?) : isSpace x = false := by
  have hne : strip s ≠ [] := by
    rintro h
    simp [h] at hx
  have hlast := List.rdropWhile_last_not isSpace (s.dropWhile isSpace) hne
  rw [List.getLast?_eq_getLast_of_ne_nil hne, Option.mem_some_iff] at hx
  rw [← hx, ← Bool.not_eq_true]
  exact hlast

theorem strip_strip (s : Str) : strip (strip s) = strip s :=
  strip_eq_self (fun _ => isSpace_head_strip) (fun _ => isSpace_getLast_strip)

end

theorem slice_add (s : Str) (a k b : Nat) : slice s (a + k) b = (slice s a b).drop k := by
  rw [slice, slice, List.drop_take, List.drop_drop]
  congr 1
  omega

/-- `s.partition(sep)` at a separator that occurs. -/
theorem eq_partition {sep : Char} {s : Str} (h : sep ∈ s) :
    s = s.takeWhile (· != sep) ++ sep :: s.drop ((s.takeWhile (· != sep)).length + 1) := by
  induction s with
  | nil => cases h
  | cons c s ih =>
    by_cases hc : c = sep
    · subst hc
      simp
    · have htake : (c :: s).takeWhile (· != sep) = c :: s.takeWhile (· != sep) := by
        rw [List.takeWhile_cons, if_pos (by simpa using hc)]
      rw [htake, List.length_cons, List.drop_succ_cons, List.cons_append]
      rw [← ih ((List.mem_cons.1 h).resolve_left fun heq => hc heq.symm)]

/-! ### Joining -/

theorem intercalate_append {sep : Str} {a b : List Str} (ha : a ≠ []) (hb : b ≠ []) :
    sep.intercalate (a ++ b) = sep.intercalate a ++ sep ++ sep.intercalate b := by
  induction a with
  | nil => exact absurd rfl ha
  | cons x a ih =>
    cases a with
    | nil => rw [List.singleton_append, List.intercalate_cons_of_ne_nil hb, List.intercalate_singleton]
    | cons y a =>
      rw [List.cons_append, List.intercalate_cons_of_ne_nil (by simp), ih (by simp),
        List.intercalate_cons_of_ne_nil (List.cons_ne_nil y a)]
      simp only [List.append_assoc]

/-! ### Fields -/

/-- The non-empty stripped pieces of a text between separators. -/
def fields (q : Char → Bool) (s : Str) : List Str := ((s.splitOnP q).map strip).filter fun f => !f.isEmpty

section
variable {q : Char → Bool} {c : Char} {s : Str}

theorem fields_append_cons (h : q c = true) (a b : Str) : fields q (a ++ c :: b) = fields q a ++ fields q b := by
  rw [fields, List.splitOnP_append_cons a b h, List.map_append, List.filter_append]
  rfl

theorem fields_nil : fields q [] = [] := by simp [fields, strip, stripBy, rstripBy]

/-- A text without separators is one field. -/
theorem fields_single (hq : ∀ x ∈ s, q x = false) : fields q s = if strip s = [] then [] else [strip s] := by
  rw [fields, List.splitOnP_eq_singleton hq]
  by_cases h : strip s = [] <;> simp [h]

/-- A character that is no separator and ends the text goes to the last piece. -/
theorem splitOnP_concat (h : q c = false) (s : Str) : ∃ init last, s.splitOnP q = init ++ [last] ∧
    (s ++ [c]).splitOnP q = init ++ [last ++ [c]] := by
  induction s with
  | nil => exact ⟨[], [], by simp, by simp [List.splitOnP_cons_eq_if_modifyHead, h]⟩
  | cons x s ih =>
    obtain ⟨init, last, h1, h2⟩ := ih
    rw [List.cons_append, List.splitOnP_cons_eq_if_modifyHead, List.splitOnP_cons_eq_if_modifyHead, h1, h2]
    by_cases hx : q x = true
    · exact ⟨[] :: init, last, by simp [hx], by simp [hx]⟩
    · cases init with
      | nil => exact ⟨[], x :: last, by simp [hx], by simp [hx]⟩
      | cons i init => exact ⟨(x :: i) :: init, last, by simp [hx], by simp [hx]⟩

theorem fields_cons_space (h : isSpace c = true) (s : Str) : fields q (c :: s) = fields q s := by
  by_cases hc : q c = true
  · rw [← List.nil_append (c :: s), fields_append_cons hc, fields_nil, List.nil_append]
  · cases hs : s.splitOnP q with
    | nil => exact absurd hs (List.splitOnP_ne_nil q s)
    | cons l ls =>
      have hsplit : (c :: s).splitOnP q = (c :: l) :: ls := by
        rw [List.splitOnP_cons_eq_if_modifyHead, if_neg hc, hs]
        rfl
      rw [fields, fields, hsplit, hs, List.map_cons, List.map_cons, strip_cons_space h]

theorem fields_concat_space (h : isSpace c = true) (s : Str) : fields q (s ++ [c]) = fields q s := by
  by_cases hc : q c = true
  · rw [fields_append_cons hc, fields_nil, List.append_nil]
  · obtain ⟨init, last, h1, h2⟩ := splitOnP_concat (Bool.eq_false_iff.2 hc) s
    rw [fields, fields, h1, h2, List.map_append, List.map_append, List.map_singleton, List.map_singleton,
      strip_concat_space h]

theorem fields_spaces_append {w : Str} (h : ∀ x ∈ w, isSpace x = true) (s : Str) :
    fields q (w ++ s) = fields q s := by
  induction w with
  | nil => rfl
  | cons x w ih =>
    rw [List.cons_append, fields_cons_space (h x (by simp)), ih fun y hy => h y (by simp [hy])]

theorem fields_append_spaces {w : Str} (h : ∀ x ∈ w, isSpace x = true) (s : Str) :
    fields q (s ++ w) = fields q s := by
  induction w using List.reverseRecOn with
  | nil => rw [List.append_nil]
  | append_singleton w x ih =>
    rw [← List.append_assoc, fields_concat_space (h x (by simp)), ih fun y hy => h y (by simp [hy])]

/-- White space at the ends of a text is in none of its fields. -/
theorem fields_strip (s : Str) : fields q (strip s) = fields q s := by
  obtain ⟨u, w, hs, hu, hw⟩ := exists_strip s
  conv_rhs => rw [hs]
  rw [fields_append_spaces hw, fields_spaces_append hu]

end

/-- Cutting at some of the separators first does not change the fields. -/
theorem flatMap_fields {q q' : Char → Bool} (hq : ∀ c, q' c = true → q c = true) (s : Str) :
    (s.splitOnP q').flatMap (fields q) = fields q s := by
  induction hlen : s.length using Nat.strong_induction_on generalizing s with | _ n ih => ?_
  subst hlen
  by_cases hs : ∃ c ∈ s, q' c = true
  · obtain ⟨c, hc, hsep⟩ := hs
    obtain ⟨a, b, rfl⟩ := List.append_of_mem hc
    rw [List.splitOnP_append_cons a b hsep, List.flatMap_append, fields_append_cons (hq c hsep),
      ih a.length (by simp) a rfl, ih b.length (by simp; omega) b rfl]
  · have hnone : ∀ c ∈ s, q' c = false := by
      intro c hc
      rw [← Bool.not_eq_true]
      exact fun hsep => hs ⟨c, hc, hsep⟩
    rw [List.splitOnP_eq_singleton hnone, List.flatMap_singleton]

/-- The words of a line are words of the text. -/
theorem fields_subset_of_mem {q q' : Char → Bool} (hq : ∀ c, q' c = true → q c = true) {s l : Str}
    (hl : l ∈ fields q' s) : fields q l ⊆ fields q s := by
  simp only [fields, List.mem_filter, List.mem_map] at hl
  obtain ⟨⟨p, hp, rfl⟩, -⟩ := hl
  rw [fields_strip, ← flatMap_fields hq s]
  exact fun w hw => List.mem_flatMap.2 ⟨p, hp, hw⟩

/-- The pieces of a text and its lines run in step: a line is its piece and the boundary after it. -/
def InStep (lines pieces : List Str) : Prop :=
  ((lines.map strip).filter fun f => !f.isEmpty) = (pieces.map strip).filter fun f => !f.isEmpty

theorem InStep.cons {p b : Str} {ls ps : List Str} (hb : ∀ x ∈ b, isSpace x = true) (h : InStep ls ps) :
    InStep ((p ++ b) :: ls) (p :: ps) := by
  unfold InStep at h ⊢
  rw [List.map_cons, List.map_cons, strip_append_spaces hb, List.filter_cons, List.filter_cons, h]

theorem splitlines_inStep (s : Str) : s = [] ∨ ∃ p b ls ps, splitlines s = (p ++ b) :: ls ∧
    s.splitOnP isLineBreak = p :: ps ∧ (∀ x ∈ b, isSpace x = true) ∧ InStep ls ps := by
  have hrest : ∀ cs : Str, (cs = [] ∨ ∃ p b ls ps, splitlines cs = (p ++ b) :: ls ∧
      cs.splitOnP isLineBreak = p :: ps ∧ (∀ x ∈ b, isSpace x = true) ∧ InStep ls ps) →
      InStep (splitlines cs) (cs.splitOnP isLineBreak) := by
    rintro cs (rfl | ⟨p, b, ls, ps, hl, hp, hb, h⟩)
    · rw [splitlines, List.splitOnP_nil]
      rfl
    · rw [hl, hp]
      exact h.cons hb
  fun_induction splitlines s with
  | case1 => exact .inl rfl
  | case2 cs ih =>
    have hcr : isLineBreak '\r' = true := by decide
    have hlf : isLineBreak '\n' = true := by decide
    refine .inr ⟨[], ['\r', '\n'], splitlines cs, [] :: cs.splitOnP isLineBreak, rfl, ?_, ?_, hrest cs ih⟩
    · rw [List.splitOnP_cons_eq_if_modifyHead, if_pos hcr, List.splitOnP_cons_eq_if_modifyHead, if_pos hlf]
    · simpa using And.intro (isSpace_of_isLineBreak hcr) (isSpace_of_isLineBreak hlf)
  | case3 c cs _ hc ih =>
    refine .inr ⟨[], [c], splitlines cs, cs.splitOnP isLineBreak, rfl, ?_, ?_, hrest cs ih⟩
    · rw [List.splitOnP_cons_eq_if_modifyHead, if_pos hc]
    · simpa using isSpace_of_isLineBreak hc
  | case4 c cs _ hc hs ih =>
    have hcs : cs = [] := by rw [← splitlines_flatten cs, hs]; rfl
    refine .inr ⟨[c], [], [], [], rfl, ?_, by simp, rfl⟩
    rw [hcs, List.splitOnP_cons_eq_if_modifyHead, if_neg hc]
    rfl
  | case5 c cs _ hc l ls hs ih =>
    rcases ih with rfl | ⟨p, b, ls', ps, hl, hp, hb, h⟩
    · simp [splitlines] at hs
    · rw [hs] at hl
      obtain ⟨rfl, rfl⟩ := List.cons.inj hl
      refine .inr ⟨c :: p, b, ls, ps, rfl, ?_, hb, h⟩
      rw [List.splitOnP_cons_eq_if_modifyHead, if_neg hc, hp]
      rfl

/-- A line is text without line boundaries, followed by its boundary. -/
theorem exists_of_mem_splitlines (s : Str) : ∀ l ∈ splitlines s, ∃ p b, l = p ++ b ∧
    (∀ c ∈ p, isLineBreak c = false) ∧ ∀ c ∈ b, isLineBreak c = true := by
  fun_induction splitlines s with
  | case1 => exact fun _ h => absurd h List.not_mem_nil
  | case2 cs ih =>
    have hcr : isLineBreak '\r' = true := by decide
    have hlf : isLineBreak '\n' = true := by decide
    exact List.forall_mem_cons.2 ⟨⟨[], ['\r', '\n'], rfl, List.forall_mem_nil _, by simpa using And.intro hcr hlf⟩, ih⟩
  | case3 c cs _ hc ih =>
    exact List.forall_mem_cons.2 ⟨⟨[], [c], rfl, List.forall_mem_nil _, by simpa using hc⟩, ih⟩
  | case4 c cs _ hc hs ih =>
    exact List.forall_mem_cons.2 ⟨⟨[c], [], rfl, by simpa using hc, List.forall_mem_nil _⟩, List.forall_mem_nil _⟩
  | case5 c cs _ hc l ls hs ih =>
    rw [hs, List.forall_mem_cons] at ih
    obtain ⟨⟨p, b, rfl, hp, hb⟩, hrest⟩ := ih
    exact List.forall_mem_cons.2 ⟨⟨c :: p, b, rfl, List.forall_mem_cons.2 ⟨by simpa using hc, hp⟩, hb⟩, hrest⟩

/-- Text without line boundaries before a newline is the first line. -/
theorem splitlines_append_newline {l : Str} (h : ∀ c ∈ l, isLineBreak c = false) (rest : Str) :
    splitlines (l ++ '\n' :: rest) = (l ++ ['\n']) :: splitlines rest := by
  induction l with
  | nil =>
    rw [List.nil_append, splitlines, if_pos (by decide)]
    · rfl
    · nofun
  | cons c l ih =>
    obtain ⟨hc, hl⟩ := List.forall_mem_cons.1 h
    have hcr : c ≠ '\r' := by
      rintro rfl
      revert hc
      decide
    rw [List.cons_append, splitlines, if_neg (by simp [hc]), ih hl]
    · rfl
    · intro cs hcs
      exact absurd hcs hcr

theorem splitlines_single {l : Str} (h : ∀ c ∈ l, isLineBreak c = false) (hne : l ≠ []) : splitlines l = [l] := by
  induction l with
  | nil => exact absurd rfl hne
  | cons c l ih =>
    obtain ⟨hc, hl⟩ := List.forall_mem_cons.1 h
    have hcr : c ≠ '\r' := by
      rintro rfl
      revert hc
      decide
    cases l with
    | nil => simp [splitlines, hc]
    | cons d l =>
      rw [splitlines, if_neg (by simp [hc]), ih hl (by simp)]
      intro cs hcs
      exact absurd hcs hcr

/-- The stripped lines of a text that are not blank. -/
theorem strip_splitlines (s : Str) :
    ((splitlines s).map strip).filter (fun f => !f.isEmpty) = fields isLineBreak s := by
  rcases splitlines_inStep s with rfl | ⟨p, b, ls, ps, hl, hp, hb, h⟩
  · rw [fields_nil]
    rfl
  · rw [hl, fields, hp]
    exact h.cons hb

end CardRag.PyStr
