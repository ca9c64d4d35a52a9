import CardRag.Core
import CardRag.Lib.Base64
import CardRag.Lib.JsonRead

/-! # Cursors (`repository.py`)

`CursorCodec`: a cursor is a JSON body with its HMAC in base64. HMAC-SHA256 is a parameter. The bodies
hold a generation identifier and a hexadecimal digest, so the writer's ASCII escapes do not occur. -/

namespace CardRag.Paging

abbrev Bytes := List UInt8

/-- `hmac.digest(key, message, "sha256")`. -/
structure HmacSha256 where
  digest : Bytes → Bytes → Bytes
  length_digest : ∀ key message, (digest key message).length = 32

/-- `text.encode()`. -/
def encodeUtf8 (text : Str) : Bytes := text.flatMap String.utf8EncodeChar

/-- `body.decode()`; `none` is a `UnicodeDecodeError`. -/
def decodeUtf8 (body : Bytes) : Option Str := (ByteArray.utf8Decode? body.toByteArray).map Array.toList

theorem decodeUtf8_encodeUtf8 (text : Str) : decodeUtf8 (encodeUtf8 text) = some text := by
  have h : (encodeUtf8 text).toByteArray = text.utf8Encode := rfl
  rw [decodeUtf8, h, List.utf8Decode?_utf8Encode, Option.map_some]

/-- A `CursorCodec`: the constructor refuses a shorter secret. -/
structure CursorCodec where
  secret : Bytes
  long : 16 ≤ secret.length

namespace CursorCodec

variable (M : HmacSha256) (C : CursorCodec)

/-- The body of a cursor. -/
def body (generationId : Str) (offset : Nat) (binding : Str) : Bytes :=
  encodeUtf8 (Json.render (.obj [("b".toList, .str binding), ("g".toList, .str generationId), ("o".toList, .num offset)]))

def encode (generationId : Str) (offset : Nat) (binding : Str) : Str :=
  let body := body generationId offset binding
  PyStr.rstripBy (· == '=') (Base64.encode (body ++ M.digest C.secret body))

/-- The body of a signed cursor; `none` when it is no base64, too short or not signed. -/
def signedBody (value : Str) : Option Bytes :=
  (Base64.decode (value ++ Base64.pads value.length)).bind fun raw =>
    let body := raw.take (raw.length - 32)
    if raw.length ≤ 32 then none
    else if raw.drop (raw.length - 32) ≠ M.digest C.secret body then none
    else some body

/-- The three fields of a payload. -/
def payload (body : Bytes) : Option (Json × Json × Json) :=
  ((decodeUtf8 body).bind Json.loads).bind fun
    | .obj fields =>
      let d := fields.foldl (fun d f => PyList.insert f.1 f.2 d) []
      if ∃ f ∈ d, f.1 ∉ ["b".toList, "g".toList, "o".toList] then none
      else match PyList.get? d "b".toList, PyList.get? d "g".toList, PyList.get? d "o".toList with
        | some b, some g, some o => some (b, g, o)
        | _, _, _ => none
    | _ => none

/-- The offset of a payload that is bound to the generation and the query. -/
def boundOffset (generationId binding : Str) (maximum : Nat) : Json × Json × Json → Option Nat
  | (.str b, .str g, .num offset) =>
    if b ≠ binding ∨ g ≠ generationId ∨ maximum < offset then none else some offset
  | _ => none

/-- The offset of a cursor that was given. -/
def read (value generationId binding : Str) (maximum : Nat) : Option Nat :=
  ((C.signedBody M value).bind payload).bind (boundOffset generationId binding maximum)

def decode (value : Option Str) (generationId binding : Str) (maximum : Nat) : Except Raised Nat :=
  match value with
  | none => pure 0
  | some value => (C.read M value generationId binding maximum).elim (throw (valueError "invalid or stale cursor")) pure

variable {M C} {generationId binding : Str} {offset maximum : Nat}

theorem body_ne_nil (generationId : Str) (offset : Nat) (binding : Str) : body generationId offset binding ≠ [] := by
  have h : Json.render (.obj [("b".toList, .str binding), ("g".toList, .str generationId), ("o".toList, .num offset)]) ≠ [] := by
    simp [Json.render]
  intro hnil
  have hd := decodeUtf8_encodeUtf8 (Json.render (.obj [("b".toList, .str binding), ("g".toList, .str generationId),
    ("o".toList, .num offset)]))
  rw [body] at hnil
  rw [hnil] at hd
  exact h (Option.some.inj (hd.symm.trans (decodeUtf8_encodeUtf8 [])))

theorem signedBody_encode :
    C.signedBody M (C.encode M generationId offset binding) = some (body generationId offset binding) := by
  have hlen := M.length_digest C.secret (body generationId offset binding)
  have hpos := List.length_pos_iff.2 (body_ne_nil generationId offset binding)
  rw [signedBody, encode, Base64.decode_rstrip_encode, Option.bind_some]
  simp only [List.length_append, hlen, Nat.add_sub_cancel, List.take_left, List.drop_left, ne_eq, not_true,
    if_false, if_neg (show ¬ (body generationId offset binding).length + 32 ≤ 32 by omega)]

theorem payload_body (generationId : Str) (offset : Nat) (binding : Str) :
    payload (body generationId offset binding) = some (.str binding, .str generationId, .num offset) := by
  rw [payload, body, decodeUtf8_encodeUtf8, Option.bind_some, Json.loads_render, Option.bind_some]
  simp [PyList.insert, PyList.get?]

theorem boundOffset_eq_some {p : Json × Json × Json} :
    boundOffset generationId binding maximum p = some offset ↔
      p = (.str binding, .str generationId, .num offset) ∧ offset ≤ maximum := by
  constructor
  · intro h
    unfold boundOffset at h
    split at h
    · split_ifs at h with hc
      obtain ⟨rfl, rfl, hle⟩ : _ = _ ∧ _ = _ ∧ _ ≤ _ := by simpa only [ne_eq, not_or, not_not, not_lt] using hc
      cases h
      exact ⟨rfl, hle⟩
    · cases h
  · rintro ⟨rfl, hle⟩
    simp [boundOffset, hle]

theorem decode_none : C.decode M none generationId binding maximum = .ok 0 := rfl

theorem elim_eq_ok {ε α : Type} {o : Option α} {e : ε} {a : α} :
    (o.elim (throw e) pure : Except ε α) = .ok a ↔ o = some a := by
  cases o <;> simp

theorem decode_some_eq_ok {value : Str} : C.decode M (some value) generationId binding maximum = .ok offset ↔
    ∃ body, C.signedBody M value = some body ∧ payload body = some (.str binding, .str generationId, .num offset) ∧
      offset ≤ maximum := by
  rw [CursorCodec.decode, elim_eq_ok, read]
  constructor
  · intro h
    obtain ⟨p, hp, hbound⟩ := Option.bind_eq_some_iff.1 h
    obtain ⟨body, hbody, hpayload⟩ := Option.bind_eq_some_iff.1 hp
    obtain ⟨rfl, hle⟩ := boundOffset_eq_some.1 hbound
    exact ⟨body, hbody, hpayload, hle⟩
  · rintro ⟨body, hbody, hpayload, hle⟩
    rw [hbody, Option.bind_some, hpayload, Option.bind_some, boundOffset_eq_some.2 ⟨rfl, hle⟩]

/-- Decoding undoes encoding up to the maximum, and refuses what lies beyond. -/
theorem decode_encode (h : offset ≤ maximum) :
    C.decode M (some (C.encode M generationId offset binding)) generationId binding maximum = .ok offset :=
  decode_some_eq_ok.2 ⟨_, signedBody_encode, payload_body _ _ _, h⟩

/-- An issued cursor is accepted for its generation and binding only. -/
theorem decode_encode_iff {generationId' binding' : Str} {offset' : Nat} :
    C.decode M (some (C.encode M generationId offset binding)) generationId' binding' maximum = .ok offset' ↔
      (generationId' = generationId ∧ binding' = binding ∧ offset' = offset) ∧ offset ≤ maximum := by
  rw [decode_some_eq_ok, signedBody_encode]
  constructor
  · rintro ⟨signed, hsigned, hpayload, hle⟩
    rw [← Option.some.inj hsigned, payload_body] at hpayload
    simp only [Option.some.injEq, Prod.mk.injEq, Json.str.injEq, Json.num.injEq] at hpayload
    obtain ⟨rfl, rfl, rfl⟩ := hpayload
    exact ⟨⟨rfl, rfl, rfl⟩, hle⟩
  · rintro ⟨⟨rfl, rfl, rfl⟩, hle⟩
    exact ⟨_, rfl, payload_body _ _ _, hle⟩

/-- No body is signed but those the codec signed itself. -/
def Unforged (M : HmacSha256) (C : CursorCodec) (issued : List (Str × Nat × Str)) (value : Str) : Prop :=
  ∀ signed, C.signedBody M value = some signed → signed ∈ issued.map fun i => body i.1 i.2.1 i.2.2

/-- A cursor is accepted only for the generation and the binding it was issued for. -/
theorem issued_of_decode {issued : List (Str × Nat × Str)} {value : Str} (hissued : Unforged M C issued value)
    (h : C.decode M (some value) generationId binding maximum = .ok offset) : (generationId, offset, binding) ∈ issued := by
  obtain ⟨signed, hsigned, hpayload, -⟩ := decode_some_eq_ok.1 h
  obtain ⟨⟨g, o, b⟩, hi, rfl⟩ := List.mem_map.1 (hissued signed hsigned)
  rw [payload_body] at hpayload
  simp only [Option.some.injEq, Prod.mk.injEq, Json.str.injEq, Json.num.injEq] at hpayload
  obtain ⟨rfl, rfl, rfl⟩ := hpayload
  exact hi

end CursorCodec

end CardRag.Paging
