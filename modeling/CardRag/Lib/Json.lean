import CardRag.Lib.PyStr

/-! # Canonical JSON

`json.dumps(value, ensure_ascii=False, sort_keys=True, separators=(",", ":"))` over null, booleans,
integers, strings, arrays and objects. An object is the list of its fields in key order. Rendering
is prefix-free up to the digits of a number (`render_append_inj`), hence injective. -/

namespace CardRag

inductive Json where
  | null
  | bool (b : Bool)
  | num (n : Nat)
  | str (s : Str)
  | arr (xs : List Json)
  | obj (fields : List (Str × Json))

namespace Json

/-- The decimal digits of `n`, most significant first. -/
def decimal (n : Nat) : Str := Nat.toDigits 10 n

/-- The `\u` escape of a control character: its code has at most two hexadecimal digits. -/
def unicodeEscape (c : Char) : Str :=
  "\\u00".toList ++ [Nat.digitChar (c.toNat / 16), Nat.digitChar (c.toNat % 16)]

def escapeChar (c : Char) : Str :=
  if c = '"' then "\\\"".toList
  else if c = '\\' then "\\\\".toList
  else if c = '\n' then "\\n".toList
  else if c = '\r' then "\\r".toList
  else if c = '\t' then "\\t".toList
  else if c = '\x08' then "\\b".toList
  else if c = '\x0c' then "\\f".toList
  else if c.toNat < 0x20 then unicodeEscape c
  else [c]

def renderStr (s : Str) : Str := '"' :: s.flatMap escapeChar ++ ['"']

mutual
def render : Json → Str
  | null => "null".toList
  | bool true => "true".toList
  | bool false => "false".toList
  | num n => decimal n
  | str s => renderStr s
  | arr [] => "[]".toList
  | arr (x :: xs) => '[' :: render x ++ renderItems xs
  | obj [] => "\x7b\x7d".toList
  | obj ((k, v) :: fs) => '\x7b' :: renderStr k ++ ':' :: render v ++ renderFields fs

/-- The items after the first, each behind its comma, and the closing bracket. -/
def renderItems : List Json → Str
  | [] => [']']
  | x :: xs => ',' :: render x ++ renderItems xs

def renderFields : List (Str × Json) → Str
  | [] => ['\x7d']
  | (k, v) :: fs => ',' :: renderStr k ++ ':' :: render v ++ renderFields fs
end

/-! ### Strings and numbers can be read back off the front of a text -/

def hexValue (c : Char) : Nat := if c.isDigit then c.toNat - 48 else c.toNat - 87

/-- The first character of an escaped text, and what follows it; `none` at the closing quote. -/
def unescape : Str → Option (Char × Str)
  | '\\' :: 'u' :: '0' :: '0' :: a :: b :: u => some (Char.ofNat (16 * hexValue a + hexValue b), u)
  | '\\' :: 'n' :: u => some ('\n', u)
  | '\\' :: 'r' :: u => some ('\r', u)
  | '\\' :: 't' :: u => some ('\t', u)
  | '\\' :: 'b' :: u => some ('\x08', u)
  | '\\' :: 'f' :: u => some ('\x0c', u)
  | '\\' :: c :: u => some (c, u)
  | '"' :: _ => none
  | c :: u => some (c, u)
  | [] => none

theorem unescape_unicodeEscape (c : Char) (h : c.toNat < 0x20) (u : Str) :
    unescape (unicodeEscape c ++ u) = some (c, u) := by
  have hc : c = Char.ofNat c.toNat := (Char.ofNat_toNat c).symm
  generalize c.toNat = n at hc h
  subst hc
  interval_cases n <;> rfl

theorem unescape_escapeChar (c : Char) (u : Str) : unescape (escapeChar c ++ u) = some (c, u) := by
  unfold escapeChar
  repeat' split
  all_goals try (subst c; rfl)
  · exact unescape_unicodeEscape c ‹_› u
  · rename_i hq hb _ _ _ _ _ _
    show unescape (c :: u) = some (c, u)
    unfold unescape
    split <;> simp_all

theorem escaped_append_inj {s s' t t' : Str}
    (h : s.flatMap escapeChar ++ '"' :: t = s'.flatMap escapeChar ++ '"' :: t') : s = s' ∧ t = t' := by
  induction s generalizing s' with
  | nil =>
    cases s' with
    | nil => simpa using h
    | cons c cs =>
      have := congrArg unescape h
      rw [List.flatMap_cons, List.append_assoc, unescape_escapeChar] at this
      simp [unescape] at this
  | cons c cs ih =>
    have hu := congrArg unescape h
    rw [List.flatMap_cons, List.append_assoc, unescape_escapeChar] at hu
    cases s' with
    | nil => simp [unescape] at hu
    | cons d ds =>
      rw [List.flatMap_cons, List.append_assoc, unescape_escapeChar] at hu
      obtain ⟨rfl, hrest⟩ := Prod.mk.inj (Option.some.inj hu)
      obtain ⟨rfl, ht⟩ := ih hrest
      exact ⟨rfl, ht⟩

theorem renderStr_append_inj {s s' t t' : Str} (h : renderStr s ++ t = renderStr s' ++ t') :
    s = s' ∧ t = t' := by
  simp only [renderStr, List.cons_append, List.append_assoc, List.nil_append, List.cons.injEq,
    true_and] at h
  exact escaped_append_inj h

/-- A text that does not go on with a digit. -/
def Delimited (s : Str) : Prop := ∀ c ∈ s.head?, c.isDigit = false

theorem takeWhile_decimal (n : Nat) {s : Str} (hs : Delimited s) :
    (decimal n ++ s).takeWhile Char.isDigit = decimal n := by
  have hd : ∀ c ∈ decimal n, c.isDigit = true := fun c hc =>
    Nat.isDigit_of_mem_toDigits (by omega) (by omega) hc
  rw [List.takeWhile_append_of_pos hd]
  cases s with
  | nil => simp
  | cons c cs => rw [List.takeWhile_cons_of_neg (by simp [hs c (by simp)]), List.append_nil]

theorem decimal_append_inj {n m : Nat} {s t : Str} (hs : Delimited s) (ht : Delimited t)
    (h : decimal n ++ s = decimal m ++ t) : n = m ∧ s = t := by
  have hd : decimal n = decimal m := by rw [← takeWhile_decimal n hs, h, takeWhile_decimal m ht]
  have hnm : n = m := by
    have := congrArg (Nat.ofDigitChars 10 · 0) hd
    simpa [decimal, Nat.ofDigitChars_ten_toDigits] using this
  exact ⟨hnm, List.append_cancel_left (hd ▸ h)⟩

/-! ### Rendering is injective -/

/-- Which kind of value a text starts with. -/
def headKind (c : Char) : Nat :=
  if c.isDigit then 0 else c.toNat

def kind : Json → Nat
  | null => 'n'.toNat
  | bool true => 't'.toNat
  | bool false => 'f'.toNat
  | num _ => 0
  | str _ => '"'.toNat
  | arr _ => '['.toNat
  | obj _ => '\x7b'.toNat

theorem render_head (v : Json) : ∃ c cs, render v = c :: cs ∧ headKind c = kind v := by
  match v with
  | null => exact ⟨'n', "ull".toList, rfl, rfl⟩
  | bool true => exact ⟨'t', "rue".toList, rfl, rfl⟩
  | bool false => exact ⟨'f', "alse".toList, rfl, rfl⟩
  | num n =>
    cases hd : decimal n with
    | nil => exact absurd hd Nat.toDigits_ne_nil
    | cons c cs =>
      have : c.isDigit = true :=
        Nat.isDigit_of_mem_toDigits (b := 10) (n := n) (by omega) (by omega)
          (by rw [show Nat.toDigits 10 n = decimal n from rfl, hd]; simp)
      exact ⟨c, cs, by rw [render, hd], by simp [headKind, kind, this]⟩
  | str s => exact ⟨'"', s.flatMap escapeChar ++ ['"'], by simp [render, renderStr], rfl⟩
  | arr [] => exact ⟨'[', [']'], by simp [render], rfl⟩
  | arr (x :: xs) => exact ⟨'[', render x ++ renderItems xs, by simp [render], rfl⟩
  | obj [] => exact ⟨'\x7b', ['\x7d'], by simp [render], rfl⟩
  | obj ((k, v) :: fs) =>
    exact ⟨'\x7b', renderStr k ++ ':' :: (render v ++ renderFields fs), by simp [render], rfl⟩

theorem kind_eq_of_render_append {v w : Json} {s t : Str} (h : render v ++ s = render w ++ t) :
    kind v = kind w := by
  obtain ⟨c, cs, hv, hc⟩ := render_head v
  obtain ⟨d, ds, hw, hd⟩ := render_head w
  rw [hv, hw] at h
  rw [← hc, ← hd, (List.cons.inj h).1]

/-- No value starts with a closing bracket. -/
theorem render_append_ne_close (v : Json) (s t : Str) : render v ++ s ≠ ']' :: t := by
  obtain ⟨c, cs, hv, hc⟩ := render_head v
  rw [hv]
  intro h
  rw [List.cons_append, List.cons.injEq] at h
  rw [h.1] at hc
  revert hc
  match v with
  | null | bool true | bool false | num _ | str _ | arr _ | obj _ => simp [headKind, kind]

theorem delimited_cons {c : Char} (h : c.isDigit = false) (s : Str) : Delimited (c :: s) := by
  intro d hd; simp at hd; exact hd ▸ h

theorem delimited_renderItems (xs : List Json) (s : Str) : Delimited (renderItems xs ++ s) := by
  cases xs <;> simp only [renderItems, List.cons_append] <;> exact delimited_cons rfl _

theorem delimited_renderFields (fs : List (Str × Json)) (s : Str) :
    Delimited (renderFields fs ++ s) := by
  match fs with
  | [] => exact delimited_cons rfl _
  | (k, v) :: fs => simp only [renderFields, List.cons_append]; exact delimited_cons rfl _

mutual
theorem render_append_inj : ∀ (v w : Json) {s t : Str}, Delimited s → Delimited t →
    render v ++ s = render w ++ t → v = w ∧ s = t
  | null, w, s, t, _, _, h => by
    have hk := kind_eq_of_render_append h
    match w with
    | null => exact ⟨rfl, List.append_cancel_left h⟩
    | bool true | bool false | num _ | str _ | arr _ | obj _ => simp [kind] at hk
  | bool b, w, s, t, _, _, h => by
    have hk := kind_eq_of_render_append h
    match b, w with
    | true, bool true => exact ⟨rfl, List.append_cancel_left h⟩
    | false, bool false => exact ⟨rfl, List.append_cancel_left h⟩
    | true, null | true, bool false | true, num _ | true, str _ | true, arr _ | true, obj _ =>
      simp [kind] at hk
    | false, null | false, bool true | false, num _ | false, str _ | false, arr _ | false, obj _ =>
      simp [kind] at hk
  | num n, w, s, t, hs, ht, h => by
    have hk := kind_eq_of_render_append h
    match w with
    | num m =>
      simp only [render] at h
      obtain ⟨rfl, hst⟩ := decimal_append_inj hs ht h
      exact ⟨rfl, hst⟩
    | null | bool true | bool false | str _ | arr _ | obj _ => simp [kind] at hk
  | str a, w, s, t, _, _, h => by
    have hk := kind_eq_of_render_append h
    match w with
    | str b =>
      simp only [render] at h
      obtain ⟨rfl, hst⟩ := renderStr_append_inj h
      exact ⟨rfl, hst⟩
    | null | bool true | bool false | num _ | arr _ | obj _ => simp [kind] at hk
  | arr xs, w, s, t, _, _, h => by
    have hk := kind_eq_of_render_append h
    match w with
    | arr ys =>
      match xs, ys with
      | [], [] => exact ⟨rfl, List.append_cancel_left h⟩
      | [], y :: ys =>
        simp only [render, List.cons_append, List.append_assoc] at h
        exact absurd (List.cons.inj h).2.symm (render_append_ne_close _ _ _)
      | x :: xs, [] =>
        simp only [render, List.cons_append, List.append_assoc] at h
        exact absurd (List.cons.inj h).2 (render_append_ne_close _ _ _)
      | x :: xs, y :: ys =>
        simp only [render, List.cons_append, List.append_assoc, List.cons.injEq, true_and] at h
        obtain ⟨rfl, hitems⟩ := render_append_inj x y (delimited_renderItems xs s)
          (delimited_renderItems ys t) h
        obtain ⟨rfl, hst⟩ := renderItems_append_inj xs ys hitems
        exact ⟨rfl, hst⟩
    | null | bool true | bool false | num _ | str _ | obj _ => simp [kind] at hk
  | obj fs, w, s, t, _, _, h => by
    have hk := kind_eq_of_render_append h
    match w with
    | obj gs =>
      match fs, gs with
      | [], [] => exact ⟨rfl, List.append_cancel_left h⟩
      | [], (_, _) :: _ | (_, _) :: _, [] => simp [render, renderStr] at h
      | (k, v) :: fs, (l, w) :: gs =>
        simp only [render, List.cons_append, List.append_assoc, List.cons.injEq, true_and] at h
        obtain ⟨rfl, hvalue⟩ := renderStr_append_inj h
        obtain ⟨rfl, hfields⟩ := render_append_inj v w (delimited_renderFields fs s)
          (delimited_renderFields gs t) (List.cons.inj hvalue).2
        obtain ⟨rfl, hst⟩ := renderFields_append_inj fs gs hfields
        exact ⟨rfl, hst⟩
    | null | bool true | bool false | num _ | str _ | arr _ => simp [kind] at hk

theorem renderItems_append_inj : ∀ (xs ys : List Json) {s t : Str},
    renderItems xs ++ s = renderItems ys ++ t → xs = ys ∧ s = t
  | [], [], s, t, h => ⟨rfl, List.append_cancel_left h⟩
  | [], _ :: _, s, t, h => by simp [renderItems] at h
  | _ :: _, [], s, t, h => by simp [renderItems] at h
  | x :: xs, y :: ys, s, t, h => by
    simp only [renderItems, List.cons_append, List.append_assoc, List.cons.injEq, true_and] at h
    obtain ⟨rfl, hitems⟩ := render_append_inj x y (delimited_renderItems xs s)
      (delimited_renderItems ys t) h
    obtain ⟨rfl, hst⟩ := renderItems_append_inj xs ys hitems
    exact ⟨rfl, hst⟩

theorem renderFields_append_inj : ∀ (fs gs : List (Str × Json)) {s t : Str},
    renderFields fs ++ s = renderFields gs ++ t → fs = gs ∧ s = t
  | [], [], s, t, h => ⟨rfl, List.append_cancel_left h⟩
  | [], (_, _) :: _, s, t, h => by simp [renderFields] at h
  | (_, _) :: _, [], s, t, h => by simp [renderFields] at h
  | (k, v) :: fs, (l, w) :: gs, s, t, h => by
    simp only [renderFields, List.cons_append, List.append_assoc, List.cons.injEq, true_and] at h
    obtain ⟨rfl, hvalue⟩ := renderStr_append_inj h
    obtain ⟨rfl, hfields⟩ := render_append_inj v w (delimited_renderFields fs s)
      (delimited_renderFields gs t) (List.cons.inj hvalue).2
    obtain ⟨rfl, hst⟩ := renderFields_append_inj fs gs hfields
    exact ⟨rfl, hst⟩
end

theorem render_injective : Function.Injective render := by
  intro v w h
  have nil : Delimited [] := by simp [Delimited]
  exact (render_append_inj v w nil nil (by rw [h])).1

end Json

end CardRag
