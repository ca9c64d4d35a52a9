import CardRag.Lib.Recency
import CardRag.Lib.Runs

/-! # The prefetch memo (`ocr.py`, `_NativeSealMemo`)

The memo with the reservations that its readers hold, each until it is consumed by `put` or released. The
accounting holds in every order of the calls (`memo_sound`). -/

namespace CardRag.SealMemo

open Recency

def LOCAL_OCR_PREFETCH_MAX_ENTRIES : Nat := 8

def LOCAL_OCR_PREFETCH_MAX_BYTES : Nat := 64 * 1024 * 1024

/-- `_NativeSealMemoEntry`; the value is the seal with its snapshot. -/
structure MemoEntry (α : Type) where
  value : α
  sizeBytes : Nat
deriving DecidableEq

structure Memo (κ α : Type) where
  entries : List (κ × MemoEntry α)
  sizeBytes : Int
  reservedBytes : Int
  epoch : Nat
deriving DecidableEq

variable {κ α ι : Type}

def size (e : κ × MemoEntry α) : Nat := e.2.sizeBytes

/-- The condition of the `while` of `put`. -/
def exceeded (reservedBytes : Int) (n : Nat) (sizeBytes : Int) : Bool :=
  decide (LOCAL_OCR_PREFETCH_MAX_ENTRIES < n ∨ LOCAL_OCR_PREFETCH_MAX_BYTES < sizeBytes + reservedBytes)

namespace Memo

def empty : Memo κ α := ⟨[], 0, 0, 0⟩

def reserve (m : Memo κ α) (previousBytes requestedBytes : Int) : Memo κ α × Bool :=
  let growth := requestedBytes - previousBytes
  if LOCAL_OCR_PREFETCH_MAX_BYTES < m.sizeBytes + m.reservedBytes + growth then (m, false)
  else ({ m with reservedBytes := m.reservedBytes + growth }, true)

def release (m : Memo κ α) (reservedBytes : Int) : Memo κ α :=
  { m with reservedBytes := m.reservedBytes - reservedBytes }

def clear (m : Memo κ α) : Memo κ α := { m with entries := [], sizeBytes := 0, epoch := m.epoch + 1 }

variable [DecidableEq κ]

def get (m : Memo κ α) (key : κ) : Memo κ α × Nat × Option (MemoEntry α) :=
  match PyList.get? m.entries key with
  | none => (m, m.epoch, none)
  | some entry => ({ m with entries := moveToEnd key m.entries }, m.epoch, some entry)

def discard (m : Memo κ α) (key : κ) : Memo κ α :=
  match PyList.get? m.entries key with
  | none => m
  | some entry => { m with entries := erase key m.entries, sizeBytes := m.sizeBytes - entry.sizeBytes }

/-- `none` where it pops from an empty map. -/
def put (m : Memo κ α) (key : κ) (entry : MemoEntry α) (epoch : Nat) (reservedBytes : Int) : Option (Memo κ α × Bool) :=
  let m := { m with reservedBytes := m.reservedBytes - reservedBytes }
  if epoch ≠ m.epoch ∨ LOCAL_OCR_PREFETCH_MAX_BYTES < entry.sizeBytes then some (m, false)
  else
    let m := m.discard key
    match evict (exceeded m.reservedBytes) size (m.entries ++ [(key, entry)]) (m.sizeBytes + entry.sizeBytes) with
    | none => none
    | some (entries, sizeBytes, _) =>
      some ({ m with entries, sizeBytes }, decide (key ∈ entries.map (·.1)))

end Memo

/-! ### Runs -/

/-- The memo, with the reservation that each reader holds. -/
structure State (κ α ι : Type) where
  memo : Memo κ α
  held : List (ι × Nat)

inductive Call (κ α ι : Type) where
  | get (key : κ)
  | discard (key : κ)
  | reserve (reader : ι) (requestedBytes : Nat)
  | release (reader : ι)
  | put (reader : ι) (key : κ) (entry : MemoEntry α) (epoch : Nat)
  | clear

namespace State

def start : State κ α ι := ⟨.empty, []⟩

variable [DecidableEq ι]

def reservation (s : State κ α ι) (reader : ι) : Nat := (PyList.get? s.held reader).getD 0

variable [DecidableEq κ]

/-- `put` of what the reader read, with its reservation. -/
def putResult (s : State κ α ι) (reader : ι) (key : κ) (entry : MemoEntry α) (epoch : Nat) : Option (Memo κ α × Bool) :=
  s.memo.put key entry epoch (s.reservation reader)

end State

variable [DecidableEq ι] [DecidableEq κ]

/-- A refused reservation leaves the reader with its previous one. -/
def step (s : State κ α ι) : Call κ α ι → State κ α ι
  | .get key => { s with memo := (s.memo.get key).1 }
  | .discard key => { s with memo := s.memo.discard key }
  | .reserve reader requestedBytes =>
    let (memo, admitted) := s.memo.reserve (s.reservation reader) requestedBytes
    ⟨memo, if admitted then replace reader requestedBytes s.held else s.held⟩
  | .release reader => ⟨s.memo.release (s.reservation reader), erase reader s.held⟩
  | .put reader key entry epoch =>
    ⟨((s.putResult reader key entry epoch).map (·.1)).getD s.memo, erase reader s.held⟩
  | .clear => { s with memo := s.memo.clear }

/-- The accounting of the memo. -/
structure State.Sound (s : State κ α ι) : Prop where
  nodup : (s.memo.entries.map (·.1)).Nodup
  heldNodup : (s.held.map (·.1)).Nodup
  sizeBytes : s.memo.sizeBytes = (total size s.memo.entries : Nat)
  reservedBytes : s.memo.reservedBytes = (total (·.2) s.held : Nat)
  maxBytes : s.memo.sizeBytes + s.memo.reservedBytes ≤ LOCAL_OCR_PREFETCH_MAX_BYTES
  maxEntries : s.memo.entries.length ≤ LOCAL_OCR_PREFETCH_MAX_ENTRIES

variable {s : State κ α ι} {key : κ}

omit [DecidableEq κ] in
theorem total_erase_held (reader : ι) (hs : s.Sound) :
    (total (·.2) (erase reader s.held) : Nat) + s.reservation reader = total (·.2) s.held := by
  rw [← @total_erase ι Nat _ (·.2) reader _ hs.heldNodup, State.reservation]
  cases PyList.get? s.held reader <;> rfl

omit [DecidableEq ι] in
/-- The entries are the same up to their order. -/
theorem State.Sound.moved {entry : MemoEntry α} (hs : s.Sound) (hget : PyList.get? s.memo.entries key = some entry) :
    State.Sound { s with memo := { s.memo with entries := moveToEnd key s.memo.entries } } := by
  refine ⟨?_, hs.heldNodup, ?_, hs.reservedBytes, hs.maxBytes, ?_⟩
  · rw [moveToEnd_eq hs.nodup hget]
    exact nodup_replace hs.nodup
  · rw [total_moveToEnd]
    exact hs.sizeBytes
  · rw [moveToEnd_perm.length_eq]
    exact hs.maxEntries

omit [DecidableEq ι] in
theorem State.Sound.discard (hs : s.Sound) (key : κ) : State.Sound { s with memo := s.memo.discard key } := by
  have herase := @total_erase κ (MemoEntry α) _ size key _ hs.nodup
  unfold Memo.discard
  cases hget : PyList.get? s.memo.entries key with
  | none => exact hs
  | some entry =>
    rw [hget] at herase
    simp only [Option.map_some, Option.getD_some, size] at herase
    have hsize : s.memo.sizeBytes - entry.sizeBytes = (total size (erase key s.memo.entries) : Nat) := by
      rw [hs.sizeBytes]
      omega
    refine ⟨nodup_erase hs.nodup, hs.heldNodup, hsize, hs.reservedBytes, ?_, ?_⟩
    · have hmax := hs.maxBytes
      dsimp only
      omega
    · exact (List.length_filter_le ..).trans hs.maxEntries

theorem discard_entries (m : Memo κ α) (key : κ) : (m.discard key).entries = erase key m.entries := by
  unfold Memo.discard
  cases hget : PyList.get? m.entries key with
  | some entry => rfl
  | none =>
    refine (List.filter_eq_self.2 fun e he => ?_).symm
    simp only [ne_eq, decide_not, Bool.not_eq_true', decide_eq_false_iff_not]
    intro hk
    have hin : (PyList.get? m.entries key).isSome := get?_isSome_iff.2 (List.mem_map.2 ⟨e, he, hk⟩)
    rw [hget] at hin
    cases hin

omit [DecidableEq κ] in
theorem State.Sound.release (hs : s.Sound) (reader : ι) :
    State.Sound (⟨s.memo.release (s.reservation reader), erase reader s.held⟩ : State κ α ι) := by
  have herase := total_erase_held reader hs
  have hreserved := hs.reservedBytes
  have hmax := hs.maxBytes
  refine ⟨hs.nodup, nodup_erase hs.heldNodup, hs.sizeBytes, ?_, ?_, hs.maxEntries⟩
  · simp only [Memo.release]
    omega
  · simp only [Memo.release]
    omega

theorem State.Sound.reserve (hs : s.Sound) (reader : ι) (requestedBytes : Nat) :
    State.Sound (step s (.reserve reader requestedBytes)) := by
  have herase := total_erase_held reader hs
  have hreserved := hs.reservedBytes
  unfold step Memo.reserve
  dsimp only
  split
  · exact hs
  · rename_i hfits
    refine ⟨hs.nodup, nodup_replace hs.heldNodup, hs.sizeBytes, ?_, ?_, hs.maxEntries⟩
    · simp only [if_true, replace, total_append, total_cons, total_nil]
      omega
    · dsimp only
      omega

/-- The loop pops the oldest entries until the limits are met, and the reservations alone meet them. -/
theorem putResult_spec (reader : ι) (hs : s.Sound) (key : κ) (entry : MemoEntry α) (epoch : Nat) :
    ∃ r : Memo κ α × Bool, s.putResult reader key entry epoch = some r ∧
      State.Sound (⟨r.1, erase reader s.held⟩ : State κ α ι) := by
  have hrel := hs.release reader
  have hdis := hrel.discard key
  unfold State.putResult Memo.put
  dsimp only
  split
  · exact ⟨_, rfl, hrel⟩
  · set m := (s.memo.release (s.reservation reader)).discard key with hm
    have hcount : m.sizeBytes + entry.sizeBytes = (total size (m.entries ++ [(key, entry)]) : Nat) := by
      have hsize := hdis.sizeBytes
      rw [total_append, total_cons, total_nil, size]
      dsimp only at hsize ⊢
      omega
    have hempty : exceeded m.reservedBytes 0 0 = false := by
      have hmax := hdis.maxBytes
      have hsize := hdis.sizeBytes
      simp only [exceeded, decide_eq_false_iff_not, not_or, not_lt]
      dsimp only at hmax hsize
      omega
    have hnd : ((m.entries ++ [(key, entry)]).map (·.1)).Nodup := by
      rw [hm, discard_entries]
      exact nodup_replace hrel.nodup
    obtain ⟨popped, kept, hd, hevict, hdone, -⟩ :=
      @evict_spec κ (MemoEntry α) (exceeded m.reservedBytes) size (m.entries ++ [(key, entry)]) hempty
    simp only [exceeded, decide_eq_false_iff_not, not_or, not_lt] at hdone
    rw [hd, List.map_append, List.nodup_append] at hnd
    refine ⟨(⟨kept, (total size kept : Nat), m.reservedBytes, m.epoch⟩, decide (key ∈ (kept.map (·.1) : List κ))), ?_, ?_⟩
    · simp only [hm, Memo.release] at hcount hevict ⊢
      rw [hcount, hevict]
    · exact ⟨hnd.2.1, hdis.heldNodup, rfl, hdis.reservedBytes, hdone.2, hdone.1⟩

omit [DecidableEq ι] [DecidableEq κ] in
theorem sound_start : State.Sound (.start : State κ α ι) :=
  ⟨List.nodup_nil, List.nodup_nil, rfl, rfl, Int.zero_le_ofNat _, Nat.zero_le _⟩

theorem sound_step (hs : s.Sound) (call : Call κ α ι) : State.Sound (step s call) := by
  cases call with
  | get key =>
    unfold step Memo.get
    dsimp only
    split
    · exact hs
    · rename_i entry hget
      exact hs.moved hget
  | discard key => exact hs.discard key
  | reserve reader requestedBytes => exact hs.reserve reader requestedBytes
  | release reader => exact hs.release reader
  | put reader key entry epoch =>
    obtain ⟨r, hr, hsound⟩ := putResult_spec reader hs key entry epoch
    rw [step, hr]
    exact hsound
  | clear =>
    have hmax := hs.maxBytes
    have hsize := hs.sizeBytes
    refine ⟨List.nodup_nil, hs.heldNodup, rfl, hs.reservedBytes, ?_, Nat.zero_le _⟩
    have hreserved : (0 : Int) + s.memo.reservedBytes ≤ LOCAL_OCR_PREFETCH_MAX_BYTES := by omega
    exact hreserved

/-- In every order of the calls the counters are those of the entries and of the reservations, the limits are met,
and no `put` pops from an empty map. -/
theorem memo_sound (calls : List (Call κ α ι)) :
    let s := runFrom step State.start calls
    s.Sound ∧ ∀ reader key entry epoch, (s.putResult reader key entry epoch).isSome := by
  have hs : State.Sound (runFrom step (State.start : State κ α ι) calls) :=
    (Along.of_step (I := State.Sound) (P := fun _ _ _ => True) (fun _ call hs => ⟨sound_step hs call, trivial⟩)
      sound_start calls).2
  refine ⟨hs, fun reader key entry epoch => ?_⟩
  obtain ⟨r, hr, -⟩ := putResult_spec reader hs key entry epoch
  rw [hr]
  rfl

end CardRag.SealMemo
