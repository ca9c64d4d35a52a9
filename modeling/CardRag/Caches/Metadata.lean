import CardRag.Lib.Recency
import CardRag.Lib.Runs
import CardRag.Ocr.Verify
import CardRag.Publish.Webdav

/-! # The metadata cache (`metadata_cache.py`)

`MetadataCache` with the calls that were made on it. A value that is too large for the cache leaves the older
one of its key in place (`metadata_laws_iff`). -/

namespace CardRag.Metadata

open Publish (Bytes)
open Recency

/-- `json.dumps(value, …).encode()` where it can be encoded, and `json.loads`. -/
structure JsonText (Value : Type) where
  dumps : Value → Option Bytes
  loads : Bytes → Value

structure Limits where
  maxBytes : Nat
  maxEntries : Nat
  maxBytes_pos : 1 ≤ maxBytes
  maxEntries_pos : 1 ≤ maxEntries

abbrev Key := List Str

structure MetadataCache where
  entries : List (Key × Bytes)
  bytes : Int
  hits : Nat
  misses : Nat
  evictions : Nat
deriving DecidableEq

inductive Failure where
  /-- The value has no JSON text. -/
  | encoding
  /-- `popitem` of an empty map. -/
  | keyError
deriving DecidableEq

def MetadataCache.empty : MetadataCache := ⟨[], 0, 0, 0, 0⟩

/-- The bytes of a value and of the parts of its key. -/
def entrySize (e : Key × Bytes) : Nat := e.2.length + (e.1.map utf8Size).sum

/-- The condition of the `while` of `set`. -/
def Limits.exceeded (L : Limits) (n : Nat) (bytes : Int) : Bool := decide (L.maxBytes < bytes ∨ L.maxEntries < n)

section
variable {Value : Type} (L : Limits) (J : JsonText Value)

namespace MetadataCache

def get (c : MetadataCache) (key : Key) : Option Value × MetadataCache :=
  match PyList.get? c.entries key with
  | none => (none, { c with misses := c.misses + 1 })
  | some value => (some (J.loads value), { c with entries := moveToEnd key c.entries, hits := c.hits + 1 })

def set (c : MetadataCache) (key : Key) (value : Value) : Except Failure MetadataCache :=
  match J.dumps value with
  | none => .error .encoding
  | some encoded =>
    let size := entrySize (key, encoded)
    if L.maxBytes < size then .ok c
    else
      let prior := ((PyList.get? c.entries key).map fun value => entrySize (key, value)).getD 0
      match evict L.exceeded entrySize (replace key encoded c.entries) (c.bytes - prior + size) with
      | none => .error .keyError
      | some (entries, bytes, evicted) => .ok { c with entries, bytes, evictions := c.evictions + evicted.length }

/-- `snapshot`, with the limits. -/
def snapshot (c : MetadataCache) : List (String × Int) :=
  [("hits", c.hits), ("misses", c.misses), ("evictions", c.evictions), ("entries", c.entries.length),
    ("bytes", c.bytes), ("max_entries", L.maxEntries), ("max_bytes", L.maxBytes)]

end MetadataCache

/-! ### Runs -/

inductive Call (Value : Type) where
  | get (key : Key)
  | set (key : Key) (value : Value)

/-- The cache, with the calls so far and the keys of those that used an entry. -/
structure History (Value : Type) where
  cache : MetadataCache
  calls : List (Call Value)
  uses : List Key

def History.start : History Value := ⟨.empty, [], []⟩

/-- A call that raises leaves the cache as it is. -/
def step (h : History Value) (call : Call Value) : History Value :=
  match call with
  | .get key =>
    { cache := (h.cache.get J key).2
      calls := h.calls ++ [call]
      uses := if (PyList.get? h.cache.entries key).isSome then h.uses ++ [key] else h.uses }
  | .set key value =>
    { cache := (h.cache.set L J key value).toOption.getD h.cache
      calls := h.calls ++ [call]
      uses :=
        if (J.dumps value).any fun encoded => entrySize (key, encoded) ≤ L.maxBytes then h.uses ++ [key] else h.uses }

/-- The JSON text of the most recent `set` of the key. -/
def lastSet (calls : List (Call Value)) (key : Key) : Option Bytes :=
  calls.foldl (fun last call =>
    match call with
    | .get _ => last
    | .set k value => if k = key then (J.dumps value).or last else last) none

/-- What holds of the cache after its calls. -/
structure Laws (h : History Value) : Prop where
  nodup : (h.cache.entries.map (·.1)).Nodup
  bytes : h.cache.bytes = (total entrySize h.cache.entries : Nat)
  maxBytes : h.cache.bytes ≤ L.maxBytes
  maxEntries : h.cache.entries.length ≤ L.maxEntries
  /-- The keys are those of the latest uses, so only the least recently used ones have been removed. -/
  recent : h.cache.entries.map (·.1) <:+ recent h.uses
  /-- No `set` pops from an empty map. -/
  pops : ∀ key value, h.cache.set L J key value ≠ .error .keyError
  current : ∀ key, (h.cache.get J key).1 = none ∨
    ∃ encoded, lastSet J h.calls key = some encoded ∧ (h.cache.get J key).1 = some (J.loads encoded)

/-- A value that is too large is set only for a key that is not there, or is there with the same value. -/
def Fits (h : History Value) : Call Value → Prop
  | .get _ => True
  | .set key value => ∀ encoded prior, J.dumps value = some encoded → L.maxBytes < entrySize (key, encoded) →
      PyList.get? h.cache.entries key = some prior → J.loads prior = J.loads encoded

end

section
variable {Value : Type} {L : Limits} {J : JsonText Value} {h : History Value} {key : Key} {value : Value}

theorem exceeded_zero : L.exceeded 0 0 = false := by simp [Limits.exceeded]

theorem lastSet_snoc (calls : List (Call Value)) (call : Call Value) (key : Key) :
    lastSet J (calls ++ [call]) key = match call with
      | .get _ => lastSet J calls key
      | .set k value => if k = key then (J.dumps value).or (lastSet J calls key) else lastSet J calls key := by
  rw [lastSet, List.foldl_append]
  cases call <;> rfl

/-- A value that is not too large is stored, and the oldest entries make room for it. -/
theorem set_spec (hnd : (h.cache.entries.map (·.1)).Nodup) (hbytes : h.cache.bytes = (total entrySize h.cache.entries : Nat))
    {encoded : Bytes} (hdumps : J.dumps value = some encoded) (hfits : entrySize (key, encoded) ≤ L.maxBytes) :
    ∃ popped kept, replace key encoded h.cache.entries = popped ++ kept ∧
      h.cache.set L J key value = .ok { h.cache with
        entries := kept, bytes := (total entrySize kept : Nat), evictions := h.cache.evictions + popped.length } ∧
      L.exceeded kept.length (total entrySize kept : Nat) = false := by
  have hcount : h.cache.bytes - (((PyList.get? h.cache.entries key).map fun value => entrySize (key, value)).getD 0 : Nat) +
      (entrySize (key, encoded) : Nat) = (total entrySize (replace key encoded h.cache.entries) : Nat) := by
    have herase := @total_erase Key Bytes _ entrySize key _ hnd
    rw [replace, total_append, total_cons, total_nil, hbytes, ← herase]
    omega
  obtain ⟨popped, kept, hd, hevict, hdone, -⟩ :=
    @evict_spec Key Bytes L.exceeded entrySize (replace key encoded h.cache.entries) exceeded_zero
  refine ⟨popped, kept, hd, ?_, hdone⟩
  simp only [MetadataCache.set, hdumps]
  rw [if_neg (not_lt.2 hfits), hcount, hevict]

theorem set_ne_keyError (hnd : (h.cache.entries.map (·.1)).Nodup)
    (hbytes : h.cache.bytes = (total entrySize h.cache.entries : Nat)) : h.cache.set L J key value ≠ .error .keyError := by
  cases hdumps : J.dumps value with
  | none => simp [MetadataCache.set, hdumps]
  | some encoded =>
    by_cases hfits : entrySize (key, encoded) ≤ L.maxBytes
    · obtain ⟨popped, kept, -, hset, -⟩ := set_spec hnd hbytes hdumps hfits
      rw [hset]
      rintro ⟨⟩
    · have hset : h.cache.set L J key value = .ok h.cache := by
        simp only [MetadataCache.set, hdumps]
        exact if_pos (not_le.1 hfits)
      rw [hset]
      rintro ⟨⟩

/-- What the cache holds of a key is the last value of the key. -/
def Fresh (J : JsonText Value) (entries : List (Key × Bytes)) (calls : List (Call Value)) : Prop :=
  ∀ key old, PyList.get? entries key = some old → ∃ encoded, lastSet J calls key = some encoded ∧ J.loads old = J.loads encoded

theorem current_iff : (∀ key, (h.cache.get J key).1 = none ∨
    ∃ encoded, lastSet J h.calls key = some encoded ∧ (h.cache.get J key).1 = some (J.loads encoded)) ↔
      Fresh J h.cache.entries h.calls := by
  refine forall_congr' fun key => ?_
  unfold MetadataCache.get
  cases PyList.get? h.cache.entries key with
  | none => simp
  | some old => simp

/-! ### Each call keeps the laws -/

theorem Laws.of_entries {h' : History Value} (hnd : (h'.cache.entries.map (·.1)).Nodup)
    (hbytes : h'.cache.bytes = (total entrySize h'.cache.entries : Nat))
    (hlimits : L.exceeded h'.cache.entries.length h'.cache.bytes = false)
    (hrecent : h'.cache.entries.map (·.1) <:+ Recency.recent h'.uses) (hfresh : Fresh J h'.cache.entries h'.calls) :
    Laws L J h' := by
  simp only [Limits.exceeded, decide_eq_false_iff_not, not_or, not_lt] at hlimits
  exact ⟨hnd, hbytes, hlimits.1, hlimits.2, hrecent, fun _ _ => set_ne_keyError hnd hbytes, current_iff.2 hfresh⟩

theorem Laws.exceeded (hl : Laws L J h) : L.exceeded h.cache.entries.length h.cache.bytes = false := by
  simp only [Limits.exceeded, decide_eq_false_iff_not, not_or, not_lt]
  exact ⟨hl.maxBytes, hl.maxEntries⟩

theorem Laws.get (hl : Laws L J h) (key : Key) : Laws L J (step L J h (.get key)) := by
  have hfresh := current_iff.1 hl.current
  cases hget : PyList.get? h.cache.entries key with
  | none =>
    have hstep : step L J h (.get key) = ⟨{ h.cache with misses := h.cache.misses + 1 }, h.calls ++ [.get key], h.uses⟩ := by
      simp [step, MetadataCache.get, hget]
    rw [hstep]
    refine .of_entries hl.nodup hl.bytes hl.exceeded hl.recent fun k old hold => ?_
    rw [lastSet_snoc]
    exact hfresh k old hold
  | some value =>
    have hmove := moveToEnd_eq hl.nodup hget
    have hstep : step L J h (.get key) = ⟨{ h.cache with
        entries := replace key value h.cache.entries, hits := h.cache.hits + 1 }, h.calls ++ [.get key], h.uses ++ [key]⟩ := by
      simp [step, MetadataCache.get, hget, hmove]
    have htotal : total entrySize (replace key value h.cache.entries) = total entrySize h.cache.entries := by
      rw [← hmove, total_moveToEnd]
    have hlength : (replace key value h.cache.entries).length = h.cache.entries.length := by
      rw [← hmove, moveToEnd_perm.length_eq]
    rw [hstep]
    refine .of_entries (nodup_replace hl.nodup) ?_ ?_ (suffix_use hl.recent) fun k old hold => ?_
    · rw [htotal]
      exact hl.bytes
    · rw [hlength]
      exact hl.exceeded
    · rw [lastSet_snoc]
      rw [get?_replace] at hold
      split at hold
      · rename_i hk
        obtain rfl := Option.some.inj hold
        exact hk ▸ hfresh key value hget
      · exact hfresh k old hold

theorem Laws.set (hl : Laws L J h) {key : Key} {value : Value} (hfits : Fits L J h (.set key value)) :
    Laws L J (step L J h (.set key value)) := by
  have hfresh := current_iff.1 hl.current
  cases hdumps : J.dumps value with
  | none =>
    have hstep : step L J h (.set key value) = ⟨h.cache, h.calls ++ [.set key value], h.uses⟩ := by
      simp [step, MetadataCache.set, hdumps, Except.toOption]
    rw [hstep]
    refine .of_entries hl.nodup hl.bytes hl.exceeded hl.recent fun k old hold => ?_
    rw [lastSet_snoc]
    simpa [hdumps] using hfresh k old hold
  | some encoded =>
    by_cases hsize : entrySize (key, encoded) ≤ L.maxBytes
    · obtain ⟨popped, kept, hd, hset, hdone⟩ := set_spec (J := J) hl.nodup hl.bytes hdumps hsize
      have hstep : step L J h (.set key value) = ⟨{ h.cache with
          entries := kept, bytes := (total entrySize kept : Nat), evictions := h.cache.evictions + popped.length },
          h.calls ++ [.set key value], h.uses ++ [key]⟩ := by
        simp [step, hset, hdumps, hsize, Except.toOption]
      have hnd : ((popped ++ kept).map (·.1)).Nodup := hd ▸ nodup_replace hl.nodup
      rw [hstep]
      refine .of_entries ?_ rfl hdone (suffix_evict popped ?_) fun k old hold => ?_
      · rw [List.map_append, List.nodup_append] at hnd
        exact hnd.2.1
      · rw [← hd]
        exact suffix_use hl.recent
      · have hin := get?_of_suffix hnd hold
        rw [← hd, get?_replace] at hin
        rw [lastSet_snoc]
        dsimp only
        split at hin
        · rename_i hk
          obtain rfl := Option.some.inj hin
          exact ⟨encoded, by simp [hk, hdumps], rfl⟩
        · rename_i hk
          rw [if_neg (fun heq => hk heq.symm)]
          exact hfresh k old hin
    · have hstep : step L J h (.set key value) = ⟨h.cache, h.calls ++ [.set key value], h.uses⟩ := by
        simp [step, MetadataCache.set, hdumps, hsize, not_le.1 hsize, Except.toOption]
      rw [hstep]
      refine .of_entries hl.nodup hl.bytes hl.exceeded hl.recent fun k old hold => ?_
      rw [lastSet_snoc]
      dsimp only
      split
      · rename_i hk
        subst hk
        exact ⟨encoded, by simp [hdumps], hfits encoded old hdumps (not_le.1 hsize) hold⟩
      · exact hfresh k old hold

/-- After a value that was too large only its own older value would be wrong. -/
theorem Fits.of_laws {call : Call Value} (hl : Laws L J (step L J h call)) : Fits L J h call := by
  cases call with
  | get key => exact trivial
  | set key value =>
    intro encoded prior hdumps hsize hget
    have hstep : step L J h (.set key value) = ⟨h.cache, h.calls ++ [.set key value], h.uses⟩ := by
      simp [step, MetadataCache.set, hdumps, not_le.2 hsize, hsize, Except.toOption]
    have hfresh := current_iff.1 hl.current
    rw [hstep] at hfresh
    obtain ⟨last, hlast, heq⟩ := hfresh key prior hget
    rw [lastSet_snoc] at hlast
    simp only [if_true, hdumps, Option.some_or, Option.some.injEq] at hlast
    exact heq.trans (by rw [hlast])

theorem laws_start : Laws L J (History.start : History Value) := by
  refine .of_entries List.nodup_nil rfl ?_ (List.suffix_refl _) fun _ _ hold => ?_
  · exact exceeded_zero
  · cases hold

end

/-- The laws hold after every call exactly where no value that is too large is set for a key that is there with
another value. -/
theorem metadata_laws_iff {Value : Type} (L : Limits) (J : JsonText Value) (calls : List (Call Value)) :
    Along (step L J) (fun _ _ h => Laws L J h) .start calls ↔
      Along (step L J) (fun h call _ => Fits L J h call) .start calls := by
  refine Along.iff_of_inv (I := Laws L J) (fun h call hl => ?_) laws_start calls
  have hstep : Fits L J h call → Laws L J (step L J h call) := fun hfits => by
    cases call with
    | get key => exact hl.get key
    | set key value => exact hl.set hfits
  exact ⟨⟨Fits.of_laws, hstep⟩, hstep⟩

/-- Texts that are their own JSON, of which six characters and a key fit. -/
def sixBytes : Limits := ⟨6, 2, by decide, by decide⟩

def verbatim : JsonText Bytes := ⟨some, id⟩

def stale : List (Call Bytes) := [.set ["k".toList] [1], .set ["k".toList] [1, 2, 3, 4, 5, 6]]

/-- The second value is too large, and the first one is still found. -/
theorem metadata_stale : let h := runFrom (step sixBytes verbatim) .start stale
    (h.cache.get verbatim ["k".toList]).1 = some [1] ∧ lastSet verbatim h.calls ["k".toList] = some [1, 2, 3, 4, 5, 6] ∧
      ¬ Laws sixBytes verbatim h := by
  refine ⟨rfl, rfl, fun hl => ?_⟩
  rcases hl.current ["k".toList] with h | ⟨encoded, hlast, h⟩
  · cases h
  · obtain rfl : [1, 2, 3, 4, 5, 6] = encoded := Option.some.inj hlast
    exact absurd (Option.some.inj h) (by decide)

end CardRag.Metadata
