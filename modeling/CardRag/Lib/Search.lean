import CardRag.Lib.Lines
import CardRag.Lib.Regex

/-! # Searching for a token

`(?<![t])r(?![t])` searched in a text: a part that matches `r`, with no character of the class `t` on
either side. Where `r` has no white space, is never empty and `t` has no white space either, a text
holds such a token exactly when one of its words does. -/

namespace CardRag

namespace Regex

/-! ### The characters of a match -/

/-- Every class of the pattern lies in `p`. -/
def Within (p : Char → Bool) : Regex → Prop
  | never => True
  | eps => True
  | cls q => ∀ c, q c = true → p c = true
  | seq a b => Within p a ∧ Within p b
  | alt a b => Within p a ∧ Within p b
  | star a => Within p a

section
variable {p : Char → Bool} {r : Regex} {c : Char} {s : Str}

theorem within_mkSeq {a b : Regex} (ha : Within p a) (hb : Within p b) : Within p (mkSeq a b) := by
  unfold mkSeq
  split
  · exact trivial
  · exact hb
  · exact ⟨ha, hb⟩

theorem within_mkAlt {a b : Regex} (ha : Within p a) (hb : Within p b) : Within p (mkAlt a b) := by
  unfold mkAlt
  split
  · exact hb
  · exact ha
  · exact ⟨ha, hb⟩

theorem within_deriv (c : Char) (h : Within p r) : Within p (deriv c r) := by
  induction r with
  | never => exact trivial
  | eps => exact trivial
  | cls q => rw [deriv]; split <;> exact trivial
  | seq a b iha ihb =>
    rw [deriv]
    split
    · exact within_mkAlt (within_mkSeq (iha h.1) h.2) (ihb h.2)
    · exact within_mkSeq (iha h.1) h.2
  | alt a b iha ihb => exact within_mkAlt (iha h.1) (ihb h.2)
  | star a ih => exact within_mkSeq (ih h) h

/-- A character outside the classes of the pattern leaves no match. -/
theorem deriv_eq_never (h : Within p r) (hc : p c = false) : deriv c r = never := by
  induction r with
  | never => rfl
  | eps => rfl
  | cls q =>
    rw [deriv, if_neg]
    intro hq
    rw [h c hq] at hc
    cases hc
  | seq a b iha ihb =>
    rw [deriv, iha h.1, ihb h.2]
    split <;> rfl
  | alt a b iha ihb => rw [deriv, iha h.1, ihb h.2]; rfl
  | star a ih => rw [deriv, ih h]; rfl

/-- A pattern that starts with another character leaves no match. -/
theorem deriv_seq_lit {x : Char} {xs : Str} (h : c ≠ x) (r : Regex) : deriv c (.seq (lit (x :: xs)) r) = never := by
  have hx : (c == x) = false := beq_eq_false_iff_ne.2 h
  have hlit : deriv c (lit (x :: xs)) = never := by
    show deriv c (.seq (.cls (· == x)) (lit xs)) = never
    simp [deriv, nullable, mkSeq, hx]
  rw [deriv, hlit, if_neg]
  · rfl
  · show ¬ nullable (.seq (.cls (· == x)) (lit xs)) = true
    simp [nullable]

theorem fullmatch_never (s : Str) : fullmatch never s = false := by
  induction s with
  | nil => rfl
  | cons c s ih => exact ih

/-- The characters of a match are in the classes of the pattern. -/
theorem within_of_fullmatch (h : Within p r) (hm : fullmatch r s = true) : ∀ c ∈ s, p c = true := by
  induction s generalizing r with
  | nil => nofun
  | cons c s ih =>
    rw [fullmatch] at hm
    refine List.forall_mem_cons.2 ⟨?_, ih (within_deriv c h) hm⟩
    by_contra hc
    rw [deriv_eq_never h (Bool.eq_false_iff.2 hc), fullmatch_never] at hm
    cases hm

theorem within_lit {s : Str} (h : ∀ c ∈ s, p c = true) : Within p (lit s) := by
  induction s with
  | nil => exact trivial
  | cons c s ih =>
    refine ⟨fun x hx => ?_, ih fun y hy => h y (by simp [hy])⟩
    rw [beq_iff_eq.1 hx]
    exact h c (by simp)

theorem within_oneOf {s : String} (h : ∀ c ∈ s.toList, p c = true) : Within p (oneOf s) :=
  fun c hc => h c (List.contains_iff_mem.1 hc)

theorem within_times (h : Within p r) (n : Nat) : Within p (times r n) := by
  induction n with
  | zero => exact trivial
  | succ n ih => exact ⟨h, ih⟩

theorem within_between (h : Within p r) (m k : Nat) : Within p (between r m k) :=
  ⟨within_times h m, within_times (show Within p (opt r) from ⟨h, trivial⟩) k⟩

theorem within_atLeast (h : Within p r) (n : Nat) : Within p (atLeast r n) := ⟨within_times h n, h⟩

end

/-! ### The search -/

section
variable (t : Char → Bool)

/-- No character of the class, or no character at all. -/
def clear : Option Char → Bool
  | none => true
  | some c => !t c

/-- Some beginning of the text matches and no character of the class follows it. -/
def matchClear : Regex → Str → Bool
  | r, [] => nullable r
  | r, c :: cs => (nullable r && !t c) || matchClear (deriv c r) cs

/-- The search from here on, after the character `prev`. -/
def searchFrom (r : Regex) : Option Char → Str → Bool
  | prev, [] => clear t prev && matchClear t r []
  | prev, c :: cs => (clear t prev && matchClear t r (c :: cs)) || searchFrom r (some c) cs

/-- `re.search("(?<![t])r(?![t])", s) is not None`. -/
def search (r : Regex) (s : Str) : Bool := searchFrom t r none s

end

section
variable {t : Char → Bool} {r : Regex} {s : Str}

theorem matchClear_iff : matchClear t r s = true ↔
    ∃ m b, s = m ++ b ∧ fullmatch r m = true ∧ clear t b.head? = true := by
  induction s generalizing r with
  | nil =>
    constructor
    · exact fun h => ⟨[], [], rfl, h, rfl⟩
    · rintro ⟨m, b, heq, hm, -⟩
      obtain ⟨rfl, rfl⟩ := List.append_eq_nil_iff.1 heq.symm
      exact hm
  | cons c s ih =>
    rw [matchClear, Bool.or_eq_true, Bool.and_eq_true, ih]
    constructor
    · rintro (⟨hn, hc⟩ | ⟨m, b, rfl, hm, hb⟩)
      · exact ⟨[], c :: s, rfl, hn, hc⟩
      · exact ⟨c :: m, b, rfl, hm, hb⟩
    · rintro ⟨m, b, heq, hm, hb⟩
      cases m with
      | nil =>
        obtain rfl : c :: s = b := heq
        exact .inl ⟨hm, hb⟩
      | cons x m =>
        obtain ⟨rfl, rfl⟩ := List.cons.inj heq
        exact .inr ⟨m, b, rfl, hm, hb⟩

theorem getLast?_cons_or (c : Char) (a : Str) (prev : Option Char) :
    (c :: a).getLast?.or prev = a.getLast?.or (some c) := by
  rw [List.getLast?_cons]
  cases a.getLast? <;> rfl

theorem searchFrom_iff {prev : Option Char} : searchFrom t r prev s = true ↔ ∃ a m b, s = a ++ m ++ b ∧
    fullmatch r m = true ∧ clear t (a.getLast?.or prev) = true ∧ clear t b.head? = true := by
  induction s generalizing prev with
  | nil =>
    rw [searchFrom, Bool.and_eq_true, matchClear_iff]
    constructor
    · rintro ⟨hp, m, b, heq, hm, hb⟩
      exact ⟨[], m, b, heq, hm, hp, hb⟩
    · rintro ⟨a, m, b, heq, hm, ha, hb⟩
      obtain ⟨hab, rfl⟩ := List.append_eq_nil_iff.1 heq.symm
      obtain ⟨rfl, rfl⟩ := List.append_eq_nil_iff.1 hab
      exact ⟨ha, [], [], rfl, hm, hb⟩
  | cons c s ih =>
    rw [searchFrom, Bool.or_eq_true, Bool.and_eq_true, matchClear_iff, ih]
    constructor
    · rintro (⟨hp, m, b, heq, hm, hb⟩ | ⟨a, m, b, rfl, hm, ha, hb⟩)
      · exact ⟨[], m, b, heq, hm, hp, hb⟩
      · exact ⟨c :: a, m, b, rfl, hm, by rwa [getLast?_cons_or], hb⟩
    · rintro ⟨a, m, b, heq, hm, ha, hb⟩
      cases a with
      | nil => exact .inl ⟨ha, m, b, heq, hm, hb⟩
      | cons x a =>
        obtain ⟨rfl, rfl⟩ := List.cons.inj heq
        exact .inr ⟨a, m, b, rfl, hm, by rwa [getLast?_cons_or] at ha, hb⟩

theorem search_iff : search t r s = true ↔ ∃ a m b, s = a ++ m ++ b ∧
    fullmatch r m = true ∧ clear t a.getLast? = true ∧ clear t b.head? = true := by
  simp only [search, searchFrom_iff, Option.or_none]

/-! ### A token lies in one word -/

/-- A part between white space, or the ends of the text, is one of its words. -/
theorem mem_words_of_append {x f y : Str} (hne : f ≠ []) (hf : ∀ c ∈ f, PyStr.isSpace c = false)
    (hx : ∀ c ∈ x.getLast?, PyStr.isSpace c = true) (hy : ∀ c ∈ y.head?, PyStr.isSpace c = true) :
    f ∈ PyStr.fields PyStr.isSpace (x ++ f ++ y) := by
  have hword : f ∈ PyStr.fields PyStr.isSpace (f ++ y) := by
    have hstrip : PyStr.strip f = f :=
      PyStr.strip_eq_self (fun c hc => hf c (List.mem_of_head? hc)) (fun c hc => hf c (List.mem_of_getLast? hc))
    have hself : f ∈ PyStr.fields PyStr.isSpace f := by
      rw [PyStr.fields_single hf, hstrip, if_neg hne]
      exact List.mem_singleton.2 rfl
    cases y with
    | nil => rwa [List.append_nil]
    | cons c y =>
      rw [PyStr.fields_append_cons (hy c rfl)]
      exact List.mem_append_left _ hself
  rw [List.append_assoc]
  rcases List.eq_nil_or_concat x with rfl | ⟨x, c, rfl⟩
  · exact hword
  · rw [List.concat_eq_append, List.append_assoc, List.singleton_append, PyStr.fields_append_cons (hx c (by simp))]
    exact List.mem_append_right _ hword

/-- A word of a text is a part of it between white space or the ends. -/
theorem exists_append_of_mem_words {f : Str} (h : f ∈ PyStr.fields PyStr.isSpace s) : ∃ x y, s = x ++ f ++ y ∧
    (∀ c ∈ x.getLast?, PyStr.isSpace c = true) ∧ ∀ c ∈ y.head?, PyStr.isSpace c = true := by
  -- by the length of the text: white space in it leaves two shorter ones
  induction hlen : s.length using Nat.strong_induction_on generalizing s with | _ n ih => ?_
  subst hlen
  by_cases hs : ∃ c ∈ s, PyStr.isSpace c = true
  · obtain ⟨c, hc, hspace⟩ := hs
    obtain ⟨a, b, rfl⟩ := List.append_of_mem hc
    rw [PyStr.fields_append_cons hspace] at h
    rcases List.mem_append.1 h with h | h
    · obtain ⟨x, y, hxy, hx, hy⟩ := ih a.length (by simp) h rfl
      refine ⟨x, y ++ c :: b, by rw [hxy]; simp, hx, ?_⟩
      cases y with
      | nil => simpa using hspace
      | cons d y => exact hy
    · obtain ⟨x, y, hxy, hx, hy⟩ := ih b.length (by simp; omega) h rfl
      refine ⟨a ++ c :: x, y, by rw [hxy]; simp, ?_, hy⟩
      cases x with
      | nil => simpa using hspace
      | cons d x => simpa using hx
  · have hnone : ∀ c ∈ s, PyStr.isSpace c = false := by
      intro c hc
      rw [← Bool.not_eq_true]
      exact fun hspace => hs ⟨c, hc, hspace⟩
    have hstrip : PyStr.strip s = s :=
      PyStr.strip_eq_self (fun c hc => hnone c (List.mem_of_head? hc)) (fun c hc => hnone c (List.mem_of_getLast? hc))
    rw [PyStr.fields_single hnone, hstrip] at h
    split at h
    · cases h
    · rw [List.mem_singleton] at h
      exact ⟨[], [], by simp [h], nofun, nofun⟩

theorem clear_getLast? {x a : Str} : clear t (x ++ a).getLast? = true ↔
    clear t a.getLast? = true ∧ (a = [] → clear t x.getLast? = true) := by
  rcases List.eq_nil_or_concat a with rfl | ⟨a, c, rfl⟩
  · simp [clear]
  · simp [← List.append_assoc]

theorem clear_head? {b y : Str} : clear t (b ++ y).head? = true ↔
    clear t b.head? = true ∧ (b = [] → clear t y.head? = true) := by
  cases b <;> simp [clear]

variable (ht : ∀ c, t c = true → PyStr.isSpace c = false) (hr : Within (fun c => !PyStr.isSpace c) r)
  (hn : nullable r = false)
include ht hr hn

/-- A text holds a token exactly when one of its words does. -/
theorem search_iff_words : search t r s = true ↔ ∃ w ∈ PyStr.fields PyStr.isSpace s, search t r w = true := by
  constructor
  · rw [search_iff]
    rintro ⟨a, m, b, rfl, hm, ha, hb⟩
    have hspace : ∀ c ∈ m, PyStr.isSpace c = false := by
      intro c hc
      simpa using within_of_fullmatch hr hm c hc
    have hne : m ≠ [] := by
      rintro rfl
      rw [fullmatch, hn] at hm
      cases hm
    -- the word: the match with the runs of visible characters on either side
    let visible : Char → Bool := fun c => !PyStr.isSpace c
    have hleft : a = a.rdropWhile visible ++ a.rtakeWhile visible := (List.rdropWhile_append_rtakeWhile ..).symm
    have hright : b = b.takeWhile visible ++ b.dropWhile visible := List.takeWhile_append_dropWhile.symm
    refine ⟨a.rtakeWhile visible ++ m ++ b.takeWhile visible, ?_, search_iff.2 ⟨_, m, _, rfl, hm, ?_, ?_⟩⟩
    · have hsplit : a ++ m ++ b = a.rdropWhile visible ++ (a.rtakeWhile visible ++ m ++ b.takeWhile visible) ++
          b.dropWhile visible := by
        conv_lhs => rw [hleft, hright]
        simp only [List.append_assoc]
      rw [hsplit]
      refine mem_words_of_append (by simp [hne]) ?_ ?_ ?_
      · intro c hc
        simp only [List.mem_append, or_assoc] at hc
        rcases hc with hc | hc | hc
        · simpa [visible] using List.mem_rtakeWhile_imp hc
        · exact hspace c hc
        · simpa [visible] using List.mem_takeWhile_imp hc
      · intro c hc
        have hlast := List.rdropWhile_last_not visible a (by rintro h; simp [h] at hc)
        rw [← Option.some.inj ((List.getLast?_eq_some_getLast _).symm.trans hc)]
        simpa [visible] using hlast
      · intro c hc
        have hhead := List.head?_dropWhile_not visible b
        rw [Option.mem_def.1 hc] at hhead
        simpa [visible] using hhead
    · rw [hleft, clear_getLast?] at ha
      exact ha.1
    · rw [hright, clear_head?] at hb
      exact hb.1
  · rintro ⟨w, hw, hsearch⟩
    obtain ⟨x, y, rfl, hx, hy⟩ := exists_append_of_mem_words hw
    obtain ⟨a, m, b, rfl, hm, ha, hb⟩ := search_iff.1 hsearch
    have hspace : ∀ o : Option Char, (∀ c ∈ o, PyStr.isSpace c = true) → clear t o = true := by
      rintro (_ | c) hc
      · rfl
      · rw [clear, Bool.not_eq_true', ← Bool.not_eq_true]
        intro htc
        have := hc c rfl
        rw [ht c htc] at this
        cases this
    refine search_iff.2 ⟨x ++ a, m, b ++ y, by simp, hm, ?_, ?_⟩
    · exact clear_getLast?.2 ⟨ha, fun _ => hspace _ hx⟩
    · exact clear_head?.2 ⟨hb, fun _ => hspace _ hy⟩

end

end Regex

end CardRag
