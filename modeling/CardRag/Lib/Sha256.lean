import CardRag.Lib.PyStr

/-! # SHA-256

`hashlib.sha256(text.encode("utf-8")).hexdigest()` on natural numbers, so that the digest of a short
text can be evaluated: the padded message and the window of the message schedule are single numbers,
and `force` keeps numbers evaluated between steps. -/

namespace CardRag

namespace Sha

/-- Evaluate a number before it is passed on. -/
def force {α : Type} (n : Nat) (k : Nat → α) : α :=
  match n with
  | 0 => k 0
  | m + 1 => k (m + 1)

def word (n : Nat) : Nat := n % 2 ^ 32

def rotr (n x : Nat) : Nat := (x >>> n) ||| word (x <<< (32 - n))

def roundConstants : List Nat :=
  [0x428a2f98, 0x71374491, 0xb5c0fbcf, 0xe9b5dba5, 0x3956c25b, 0x59f111f1, 0x923f82a4, 0xab1c5ed5,
    0xd807aa98, 0x12835b01, 0x243185be, 0x550c7dc3, 0x72be5d74, 0x80deb1fe, 0x9bdc06a7, 0xc19bf174,
    0xe49b69c1, 0xefbe4786, 0x0fc19dc6, 0x240ca1cc, 0x2de92c6f, 0x4a7484aa, 0x5cb0a9dc, 0x76f988da,
    0x983e5152, 0xa831c66d, 0xb00327c8, 0xbf597fc7, 0xc6e00bf3, 0xd5a79147, 0x06ca6351, 0x14292967,
    0x27b70a85, 0x2e1b2138, 0x4d2c6dfc, 0x53380d13, 0x650a7354, 0x766a0abb, 0x81c2c92e, 0x92722c85,
    0xa2bfe8a1, 0xa81a664b, 0xc24b8b70, 0xc76c51a3, 0xd192e819, 0xd6990624, 0xf40e3585, 0x106aa070,
    0x19a4c116, 0x1e376c08, 0x2748774c, 0x34b0bcb5, 0x391c0cb3, 0x4ed8aa4a, 0x5b9cca4f, 0x682e6ff3,
    0x748f82ee, 0x78a5636f, 0x84c87814, 0x8cc70208, 0x90befffa, 0xa4506ceb, 0xbef9a3f7, 0xc67178f2]

/-- The eight words of the hash state. -/
structure State where
  (a b c d e f g h : Nat)

def initialState : State :=
  ⟨0x6a09e667, 0xbb67ae85, 0x3c6ef372, 0xa54ff53a, 0x510e527f, 0x9b05688c, 0x1f83d9ab, 0x5be0cd19⟩

def round (s : State) (k w : Nat) : State :=
  let s1 := rotr 6 s.e ^^^ rotr 11 s.e ^^^ rotr 25 s.e
  let ch := (s.e &&& s.f) ^^^ ((0xffffffff ^^^ s.e) &&& s.g)
  force (s.h + s1 + ch + k + w) fun t =>
    let s0 := rotr 2 s.a ^^^ rotr 13 s.a ^^^ rotr 22 s.a
    let maj := (s.a &&& s.b) ^^^ (s.a &&& s.c) ^^^ (s.b &&& s.c)
    force (word (t + s0 + maj)) fun a => force (word (s.d + t)) fun e =>
      ⟨a, s.a, s.b, s.c, e, s.e, s.f, s.g⟩

/-- The rounds of one block; `window` holds the next sixteen words of the message schedule. -/
def rounds : List Nat → Nat → State → State
  | [], _, s => s
  | k :: ks, window, s =>
    let w (i : Nat) : Nat := word (window >>> (32 * (15 - i)))
    let s0 := rotr 7 (w 1) ^^^ rotr 18 (w 1) ^^^ (w 1 >>> 3)
    let s1 := rotr 17 (w 14) ^^^ rotr 19 (w 14) ^^^ (w 14 >>> 10)
    force (w 0) fun w0 => force (window <<< 32 % 2 ^ 512 + word (w0 + s0 + w 9 + s1)) fun next =>
      rounds ks next (round s k w0)

def State.add (s t : State) : State :=
  force (word (s.a + t.a)) fun a => force (word (s.b + t.b)) fun b =>
  force (word (s.c + t.c)) fun c => force (word (s.d + t.d)) fun d =>
  force (word (s.e + t.e)) fun e => force (word (s.f + t.f)) fun f =>
  force (word (s.g + t.g)) fun g => force (word (s.h + t.h)) fun h => ⟨a, b, c, d, e, f, g, h⟩

/-- The number of bytes of a character in UTF-8, and these bytes as one number. -/
def utf8 (c : Char) : Nat × Nat :=
  let n := c.toNat
  if n < 0x80 then (1, n)
  else if n < 0x800 then (2, (0xc0 + n / 64) * 256 + (0x80 + n % 64))
  else if n < 0x10000 then (3, ((0xe0 + n / 4096) * 256 + (0x80 + n / 64 % 64)) * 256 + (0x80 + n % 64))
  else (4, (((0xf0 + n / 262144) * 256 + (0x80 + n / 4096 % 64)) * 256 + (0x80 + n / 64 % 64)) * 256 +
    (0x80 + n % 64))

/-- The length and the bytes of a text, passed on as numbers. -/
def encode {α : Type} (k : Nat → Nat → α) : Str → Nat → Nat → α
  | [], length, bytes => k length bytes
  | c :: cs, length, bytes =>
    match utf8 c with
    | (n, code) => force (length + n) fun length => force (bytes * 256 ^ n + code) fun bytes =>
        encode k cs length bytes

/-- The number of zero bytes of the padding. -/
def zeros (length : Nat) : Nat := (119 - length % 64) % 64

def blocks : Nat → Nat → State → State
  | 0, _, s => s
  | n + 1, message, s =>
    blocks n message (s.add (rounds roundConstants (message >>> (512 * n) % 2 ^ 512) s))

def hexDigits : List Char :=
  ['0', '1', '2', '3', '4', '5', '6', '7', '8', '9', 'a', 'b', 'c', 'd', 'e', 'f']

def hexWord (n : Nat) : Str :=
  [28, 24, 20, 16, 12, 8, 4, 0].map fun shift => hexDigits.getD (n >>> shift % 16) '0'

def State.hex : State → Str
  | ⟨a, b, c, d, e, f, g, h⟩ => [a, b, c, d, e, f, g, h].flatMap hexWord

/-- The digest of a message given by its length and its bytes. -/
def digest (length bytes : Nat) : Str :=
  force ((bytes * 256 + 0x80) * 256 ^ (zeros length + 8) + length * 8) fun message =>
    (blocks ((length + zeros length + 9) / 64) message initialState).hex

def sha256 (text : Str) : Str := encode digest text 0 0

theorem force_eq {α : Type} (n : Nat) (k : Nat → α) : force n k = k n := by cases n <;> rfl

/-- Every digest is a state in hexadecimal. -/
theorem sha256_eq (text : Str) : ∃ s : State, sha256 text = s.hex := by
  have hencode : ∀ (text : Str) (length bytes : Nat), ∃ s : State, encode digest text length bytes = s.hex := by
    intro text
    induction text with
    | nil => intro length bytes; exact ⟨_, by rw [encode, digest, force_eq]⟩
    | cons c cs ih =>
      intro length bytes
      obtain ⟨n, code⟩ : Nat × Nat := utf8 c
      simp only [encode, force_eq]
      exact ih _ _
  exact hencode text 0 0

theorem mem_hexDigits {text : Str} {c : Char} (h : c ∈ sha256 text) : c ∈ hexDigits := by
  obtain ⟨s, hs⟩ := sha256_eq text
  rw [hs] at h
  obtain ⟨n, -, h⟩ := List.mem_flatMap.1 h
  obtain ⟨shift, -, rfl⟩ := List.mem_map.1 h
  have hlt : n >>> shift % 16 < hexDigits.length := Nat.mod_lt _ (by decide)
  rw [List.getD_eq_getElem _ _ hlt]
  exact List.getElem_mem hlt

theorem length_sha256 (text : Str) : (sha256 text).length = 64 := by
  obtain ⟨s, hs⟩ := sha256_eq text
  simp [hs, State.hex, hexWord]

example : sha256 "abc".toList =
    "ba7816bf8f01cfea414140de5dae2223b00361a396177a9cb410ff61f20015ad".toList := by decide +kernel

end Sha

end CardRag
