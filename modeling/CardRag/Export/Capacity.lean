import CardRag.Core

/-! # Capacity predictions (`capacity_v5.py`)

The bytes that a build will need are predicted by bounded additions, multiplications and page round-ups, and
they are computed again when the prediction is made and at every later gate. The three agree with one set of
sums (`capacity_exact`). -/

namespace CardRag.Export

def maxSafeBytes : Nat := 2 ^ 63 - 1

def vectorRowBytes : Nat := 4096 * 4

def sqlitePageBytes : Nat := 4096

def embeddingCacheRowEnvelopeBytes : Nat := 2 * vectorRowBytes

def embeddingCacheWalRowEnvelopeBytes : Nat := embeddingCacheRowEnvelopeBytes

/-- `max(8 * MIB, 2 * WORKER_STATE_WAL_AUTOCHECKPOINT_PAGES * WORKER_STATE_SQLITE_PAGE_BYTES)` -/
def embeddingCacheWalPeakBytes : Nat := max (8 * (1024 * 1024)) (2 * 1000 * 4096)

def databaseFixedBytes : Nat := 1024 * 1024

def databasePayloadMultiplier : Nat := 1

def databaseFtsIndexedTextMultiplier : Nat := 4

def databaseRowEnvelopeBytes : Nat := 768

def databaseExportPeakMultiplier : Nat := 4

inductive CapacityFailure where
  /-- A `ValueError`. -/
  | value (message : String)
  /-- `capacity_bytes_range_exceeded`. -/
  | rangeExceeded (label : String) (left right : Nat)
  /-- `capacity_prediction_contract_invalid`. -/
  | contractInvalid (peakGrowth logicalGrowth : Nat)
deriving DecidableEq

def CapacityFailure.OutOfRange : CapacityFailure → Prop
  | .rangeExceeded .. => True
  | _ => False

/-! ### Bounded arithmetic -/

def boundedInteger (value : Nat) (label : String) (allowZero : Bool) : Except CapacityFailure Nat := do
  let qualifier := if allowZero then "non-negative" else "positive"
  raiseIf ((value = 0 ∧ allowZero = false) ∨ maxSafeBytes < value)
    (.value s!"{label} must be a {qualifier} bounded integer")
  return value

def checkedAdd (left right : Nat) (label : String) : Except CapacityFailure Nat := do
  let _ ← boundedInteger left label true
  let _ ← boundedInteger right label true
  raiseIf (maxSafeBytes - left < right) (.rangeExceeded label left right)
  return left + right

def checkedMultiply (left right : Nat) (label : String) : Except CapacityFailure Nat := do
  let _ ← boundedInteger left label true
  let _ ← boundedInteger right label true
  raiseIf (left ≠ 0 ∧ maxSafeBytes / left < right) (.rangeExceeded label left right)
  return left * right

def roundUpToPage (value : Nat) (label : String) : Except CapacityFailure Nat := do
  let bounded ← boundedInteger value label true
  let remainder := bounded % sqlitePageBytes
  if remainder = 0 then return bounded
  else checkedAdd bounded (sqlitePageBytes - remainder) label

def embeddingCacheTransactionBytes (misses : Nat) : Except CapacityFailure Nat := do
  let rowGrowth ← checkedMultiply misses embeddingCacheWalRowEnvelopeBytes "v5 embedding cache transaction"
  checkedAdd embeddingCacheWalPeakBytes rowGrowth "v5 embedding cache transaction"

/-- The baseline of an existing write-ahead log is added to a transaction. -/
def withWalBaseline (walBaseline transaction : Nat) : Except CapacityFailure Nat :=
  if walBaseline ≠ 0 then checkedAdd walBaseline transaction "v5 embedding cache transaction" else pure transaction

/-! ### Predictions -/

structure DatabaseCounts where
  payloadBytes : Nat
  rowCount : Nat
  ftsIndexedTextBytes : Nat
  secondaryIndexTextBytes : Nat
deriving DecidableEq

def predictServingDatabaseBytes (c : DatabaseCounts) : Except CapacityFailure Nat := do
  let label := "predicted serving database bytes"
  let payload ← boundedInteger c.payloadBytes "database payload bytes" true
  let rows ← boundedInteger c.rowCount "database row count" true
  let ftsBytes ← boundedInteger c.ftsIndexedTextBytes "database FTS indexed text bytes" true
  let secondaryIndexBytes ← boundedInteger c.secondaryIndexTextBytes "database secondary-index text bytes" true
  let expandedPayload ← checkedMultiply payload databasePayloadMultiplier label
  let rowEnvelope ← checkedMultiply rows databaseRowEnvelopeBytes label
  let ftsIndex ← checkedMultiply ftsBytes databaseFtsIndexedTextMultiplier label
  let prediction ← checkedAdd databaseFixedBytes expandedPayload label
  let prediction ← checkedAdd prediction rowEnvelope label
  let prediction ← checkedAdd prediction ftsIndex label
  let prediction ← checkedAdd prediction secondaryIndexBytes label
  roundUpToPage prediction label

/-- `V5ArtifactPrediction`, less the two fields that are constants. -/
structure V5ArtifactPrediction where
  derivedViewCount : Nat
  embeddingCacheMissCount : Nat
  embeddingCacheWalBaselineBytes : Nat
  embeddingCacheGrowthBytes : Nat
  embeddingCacheTransactionBytes : Nat
  vectorSidecarBytes : Nat
  servingDatabaseBytes : Nat
  databaseExportPeakBytes : Nat
  logicalGrowthBytes : Nat
  peakGrowthBytes : Nat
deriving DecidableEq

def V5ArtifactPrediction.postInit (p : V5ArtifactPrediction) : Except CapacityFailure Unit := do
  let views ← boundedInteger p.derivedViewCount "derived view count" false
  let misses ← boundedInteger p.embeddingCacheMissCount "embedding cache miss count" true
  raiseIf (views < misses) (.value "embedding cache miss count cannot exceed derived view count")
  let walBaseline ← boundedInteger p.embeddingCacheWalBaselineBytes "embedding cache WAL baseline bytes" true
  let _ ← boundedInteger p.embeddingCacheGrowthBytes "v5 embedding cache growth" true
  let _ ← boundedInteger p.embeddingCacheTransactionBytes "v5 embedding cache transaction" true
  let _ ← boundedInteger p.vectorSidecarBytes "v5 vector sidecar bytes" false
  let _ ← boundedInteger p.servingDatabaseBytes "predicted serving database bytes" false
  let _ ← boundedInteger p.databaseExportPeakBytes "v5 database export peak" false
  let _ ← boundedInteger p.logicalGrowthBytes "v5 logical state growth" false
  let _ ← boundedInteger p.peakGrowthBytes "v5 peak filesystem growth" false
  let expectedSidecar ← checkedMultiply views vectorRowBytes "v5 vector sidecar bytes"
  let expectedCache ← checkedMultiply misses embeddingCacheRowEnvelopeBytes "v5 embedding cache growth"
  let transaction ← CardRag.Export.embeddingCacheTransactionBytes misses
  let expectedTransaction ← withWalBaseline walBaseline transaction
  let expectedDatabasePeak ← checkedMultiply p.servingDatabaseBytes databaseExportPeakMultiplier
    "v5 database export peak"
  let expectedLogical ← checkedAdd expectedCache expectedTransaction "v5 logical state growth"
  let expectedLogical ← checkedAdd expectedLogical expectedSidecar "v5 logical state growth"
  let expectedLogical ← checkedAdd expectedLogical p.servingDatabaseBytes "v5 logical state growth"
  let expectedPeak ← checkedAdd expectedCache expectedTransaction "v5 peak filesystem growth"
  let expectedPeak ← checkedAdd expectedPeak expectedSidecar "v5 peak filesystem growth"
  let expectedPeak ← checkedAdd expectedPeak expectedDatabasePeak "v5 peak filesystem growth"
  raiseIf (p.embeddingCacheGrowthBytes ≠ expectedCache ∨ p.embeddingCacheTransactionBytes ≠ expectedTransaction ∨
    p.vectorSidecarBytes ≠ expectedSidecar ∨ p.databaseExportPeakBytes ≠ expectedDatabasePeak ∨
    p.logicalGrowthBytes ≠ expectedLogical ∨ p.peakGrowthBytes ≠ expectedPeak)
    (.value "v5 capacity prediction arithmetic is inconsistent")

structure BuildCounts where
  derivedViewCount : Nat
  database : DatabaseCounts
  embeddingCacheMissCount : Option Nat
  embeddingCacheWalBaselineBytes : Nat
deriving DecidableEq

/-- Without a count every view is a miss. -/
def missCount (embeddingCacheMissCount : Option Nat) (views : Nat) : Except CapacityFailure Nat :=
  match embeddingCacheMissCount with
  | none => pure views
  | some count => do
    let misses ← boundedInteger count "embedding cache miss count" true
    raiseIf (views < misses) (.value "embedding cache miss count cannot exceed derived view count")
    return misses

def predictV5LocalArtifacts (c : BuildCounts) : Except CapacityFailure V5ArtifactPrediction := do
  let views ← boundedInteger c.derivedViewCount "derived view count" false
  let misses ← missCount c.embeddingCacheMissCount views
  let walBaseline ← boundedInteger c.embeddingCacheWalBaselineBytes "embedding cache WAL baseline bytes" true
  let sidecarBytes ← checkedMultiply views vectorRowBytes "v5 vector sidecar bytes"
  let cacheGrowth ← checkedMultiply misses embeddingCacheRowEnvelopeBytes "v5 embedding cache growth"
  let transaction ← embeddingCacheTransactionBytes misses
  let cacheTransaction ← withWalBaseline walBaseline transaction
  let databaseBytes ← predictServingDatabaseBytes c.database
  let databasePeak ← checkedMultiply databaseBytes databaseExportPeakMultiplier "v5 database export peak"
  let logicalGrowth ← checkedAdd cacheGrowth cacheTransaction "v5 logical state growth"
  let logicalGrowth ← checkedAdd logicalGrowth sidecarBytes "v5 logical state growth"
  let logicalGrowth ← checkedAdd logicalGrowth databaseBytes "v5 logical state growth"
  let peakGrowth ← checkedAdd cacheGrowth cacheTransaction "v5 peak filesystem growth"
  let peakGrowth ← checkedAdd peakGrowth sidecarBytes "v5 peak filesystem growth"
  let peakGrowth ← checkedAdd peakGrowth databasePeak "v5 peak filesystem growth"
  raiseIf (peakGrowth < logicalGrowth) (.contractInvalid peakGrowth logicalGrowth)
  let p : V5ArtifactPrediction := ⟨views, misses, walBaseline, cacheGrowth, cacheTransaction, sidecarBytes, databaseBytes,
    databasePeak, logicalGrowth, peakGrowth⟩
  p.postInit
  return p

/-- The transaction of the remaining rows, and the log that was there before, when there are any. -/
def withTransaction (p : V5ArtifactPrediction) (remaining required : Nat) : Except CapacityFailure Nat :=
  if remaining ≠ 0 then do
    let transaction ← embeddingCacheTransactionBytes remaining
    let required ← checkedAdd required transaction "remaining v5 peak growth"
    checkedAdd required p.embeddingCacheWalBaselineBytes "remaining v5 peak growth"
  else pure required

def remainingRequiredFreeBytes (p : V5ArtifactPrediction) (remainingMissCount reservedFreeSpaceBytes : Nat) :
    Except CapacityFailure Nat := do
  let remaining ← boundedInteger remainingMissCount "remaining embedding cache miss count" true
  raiseIf (p.embeddingCacheMissCount < remaining)
    (.value "remaining embedding cache misses exceed the initial prediction")
  let reserve ← boundedInteger reservedFreeSpaceBytes "reserved free-space bytes" true
  let required ← checkedMultiply remaining embeddingCacheRowEnvelopeBytes "remaining v5 embedding cache growth"
  let required ← withTransaction p remaining required
  let required ← checkedAdd required p.vectorSidecarBytes "remaining v5 peak growth"
  let required ← checkedAdd required p.databaseExportPeakBytes "remaining v5 peak growth"
  checkedAdd required reserve "remaining v5 required filesystem bytes"

/-! ### The sums -/

def pageCeil (n : Nat) : Nat := if n % 4096 = 0 then n else n + (4096 - n % 4096)

def DatabaseCounts.bytes (d : DatabaseCounts) : Nat :=
  pageCeil (databaseFixedBytes + d.payloadBytes * databasePayloadMultiplier + d.rowCount * databaseRowEnvelopeBytes +
    d.ftsIndexedTextBytes * databaseFtsIndexedTextMultiplier + d.secondaryIndexTextBytes)

/-- The write-ahead log of `misses` cache rows. -/
def transactionBytes (misses : Nat) : Nat :=
  embeddingCacheWalPeakBytes + misses * embeddingCacheWalRowEnvelopeBytes

def BuildCounts.misses (c : BuildCounts) : Nat := c.embeddingCacheMissCount.getD c.derivedViewCount

/-- What a build writes, without bounds. -/
def BuildCounts.sums (c : BuildCounts) : V5ArtifactPrediction :=
  let growth := c.misses * embeddingCacheRowEnvelopeBytes
  let transaction := c.embeddingCacheWalBaselineBytes + transactionBytes c.misses
  let sidecar := c.derivedViewCount * vectorRowBytes
  let databasePeak := c.database.bytes * databaseExportPeakMultiplier
  ⟨c.derivedViewCount, c.misses, c.embeddingCacheWalBaselineBytes, growth, transaction, sidecar, c.database.bytes,
    databasePeak, growth + transaction + sidecar + c.database.bytes, growth + transaction + sidecar + databasePeak⟩

/-- What is still to be written when `remaining` of the misses are. -/
def V5ArtifactPrediction.remaining (p : V5ArtifactPrediction) (remaining : Nat) : Nat :=
  (if remaining = 0 then 0 else
    remaining * embeddingCacheRowEnvelopeBytes + transactionBytes remaining + p.embeddingCacheWalBaselineBytes) +
      p.vectorSidecarBytes + p.databaseExportPeakBytes

/-- The counts are in their ranges. -/
structure BuildCounts.Admissible (c : BuildCounts) : Prop where
  views : 0 < c.derivedViewCount ∧ c.derivedViewCount ≤ maxSafeBytes
  misses : c.misses ≤ c.derivedViewCount
  wal : c.embeddingCacheWalBaselineBytes ≤ maxSafeBytes
  payload : c.database.payloadBytes ≤ maxSafeBytes
  rows : c.database.rowCount ≤ maxSafeBytes
  fts : c.database.ftsIndexedTextBytes ≤ maxSafeBytes
  secondary : c.database.secondaryIndexTextBytes ≤ maxSafeBytes

/-- No count is larger. -/
structure BuildCounts.Le (c c' : BuildCounts) : Prop where
  views : c.derivedViewCount ≤ c'.derivedViewCount
  misses : c.misses ≤ c'.misses
  wal : c.embeddingCacheWalBaselineBytes ≤ c'.embeddingCacheWalBaselineBytes
  payload : c.database.payloadBytes ≤ c'.database.payloadBytes
  rows : c.database.rowCount ≤ c'.database.rowCount
  fts : c.database.ftsIndexedTextBytes ≤ c'.database.ftsIndexedTextBytes
  secondary : c.database.secondaryIndexTextBytes ≤ c'.database.secondaryIndexTextBytes

/-- No size is larger. -/
structure V5ArtifactPrediction.Le (p p' : V5ArtifactPrediction) : Prop where
  growth : p.embeddingCacheGrowthBytes ≤ p'.embeddingCacheGrowthBytes
  transaction : p.embeddingCacheTransactionBytes ≤ p'.embeddingCacheTransactionBytes
  sidecar : p.vectorSidecarBytes ≤ p'.vectorSidecarBytes
  database : p.servingDatabaseBytes ≤ p'.servingDatabaseBytes
  databasePeak : p.databaseExportPeakBytes ≤ p'.databaseExportPeakBytes
  logical : p.logicalGrowthBytes ≤ p'.logicalGrowthBytes
  peak : p.peakGrowthBytes ≤ p'.peakGrowthBytes

/-- Every field is a bounded integer. -/
structure V5ArtifactPrediction.Safe (p : V5ArtifactPrediction) : Prop where
  views : p.derivedViewCount ≤ maxSafeBytes
  misses : p.embeddingCacheMissCount ≤ maxSafeBytes
  wal : p.embeddingCacheWalBaselineBytes ≤ maxSafeBytes
  growth : p.embeddingCacheGrowthBytes ≤ maxSafeBytes
  transaction : p.embeddingCacheTransactionBytes ≤ maxSafeBytes
  sidecar : p.vectorSidecarBytes ≤ maxSafeBytes
  database : p.servingDatabaseBytes ≤ maxSafeBytes
  databasePeak : p.databaseExportPeakBytes ≤ maxSafeBytes
  logical : p.logicalGrowthBytes ≤ maxSafeBytes
  peak : p.peakGrowthBytes ≤ maxSafeBytes

/-- The fields are the sums of one another, and they are in range. -/
structure V5ArtifactPrediction.Consistent (p : V5ArtifactPrediction) : Prop where
  views : 0 < p.derivedViewCount
  misses : p.embeddingCacheMissCount ≤ p.derivedViewCount
  growth : p.embeddingCacheGrowthBytes = p.embeddingCacheMissCount * embeddingCacheRowEnvelopeBytes
  transaction : p.embeddingCacheTransactionBytes =
    p.embeddingCacheWalBaselineBytes + transactionBytes p.embeddingCacheMissCount
  sidecar : p.vectorSidecarBytes = p.derivedViewCount * vectorRowBytes
  database : 0 < p.servingDatabaseBytes
  databasePeak : p.databaseExportPeakBytes = p.servingDatabaseBytes * databaseExportPeakMultiplier
  logical : p.logicalGrowthBytes = p.embeddingCacheGrowthBytes + p.embeddingCacheTransactionBytes +
    p.vectorSidecarBytes + p.servingDatabaseBytes
  peak : p.peakGrowthBytes = p.embeddingCacheGrowthBytes + p.embeddingCacheTransactionBytes +
    p.vectorSidecarBytes + p.databaseExportPeakBytes
  range : p.peakGrowthBytes ≤ maxSafeBytes

/-! ### Results that are in range, or report that they are not -/

/-- The result satisfies `Q`, or the sum `total` it belongs to is reported out of range. -/
def Bounded {α : Type} (total : Nat) (x : Except CapacityFailure α) (Q : α → Prop) : Prop :=
  match x with
  | .ok a => Q a
  | .error e => e.OutOfRange ∧ maxSafeBytes < total

/-- The number `n`, which is in range. -/
def Within (n value : Nat) : Prop := value = n ∧ n ≤ maxSafeBytes

section
variable {α β : Type} {total left right value n : Nat} {label : String} {x : Except CapacityFailure α}
  {Q : α → Prop}

theorem Bounded.pure {a : α} (h : Q a) : Bounded total (Pure.pure a) Q := h

theorem Bounded.bind {f : α → Except CapacityFailure β} {R : β → Prop} (hx : Bounded total x Q)
    (hf : ∀ a, Q a → Bounded total (f a) R) : Bounded total (x >>= f) R := by
  cases x with
  | ok a => exact hf a hx
  | error e => exact hx

theorem Bounded.ok (hx : Bounded total x Q) (hle : total ≤ maxSafeBytes) : ∃ a, x = .ok a ∧ Q a := by
  cases x with
  | ok a => exact ⟨a, rfl, hx⟩
  | error e =>
    have hbig : maxSafeBytes < total := hx.2
    omega

theorem bounded_raiseIf {c : Prop} [Decidable c] {e : CapacityFailure} (h : ¬ c) :
    Bounded total (raiseIf c e) fun _ => True := by
  rw [raiseIf, if_neg h]
  exact trivial

theorem bounded_integer {allowZero : Bool} (hpos : allowZero = false → value ≠ 0) (hle : value ≤ maxSafeBytes) :
    Bounded total (boundedInteger value label allowZero) (Within value) := by
  refine (bounded_raiseIf ?_).bind fun _ _ => .pure ⟨rfl, hle⟩
  rintro (⟨hzero, hno⟩ | hbig)
  · exact hpos hno hzero
  · omega

theorem bounded_natural (hle : value ≤ maxSafeBytes) : Bounded total (boundedInteger value label true) (Within value) :=
  bounded_integer (fun h => by cases h) hle

theorem bounded_add (hl : left ≤ maxSafeBytes) (hr : right ≤ maxSafeBytes) (htotal : left + right ≤ total) :
    Bounded total (checkedAdd left right label) (Within (left + right)) := by
  refine (bounded_natural hl).bind fun _ _ => (bounded_natural hr).bind fun _ _ => ?_
  by_cases h : maxSafeBytes - left < right
  · rw [raiseIf, if_pos h]
    exact ⟨trivial, by omega⟩
  · exact (bounded_raiseIf h).bind fun _ _ => .pure ⟨rfl, by omega⟩

theorem bounded_multiply (hl : left ≤ maxSafeBytes) (hr : right ≤ maxSafeBytes) (htotal : left * right ≤ total) :
    Bounded total (checkedMultiply left right label) (Within (left * right)) := by
  refine (bounded_natural hl).bind fun _ _ => (bounded_natural hr).bind fun _ _ => ?_
  have hdiv : left ≠ 0 → (maxSafeBytes / left < right ↔ maxSafeBytes < left * right) := fun hne => by
    rw [Nat.mul_comm]
    exact Nat.div_lt_iff_lt_mul (Nat.pos_of_ne_zero hne)
  by_cases h : left ≠ 0 ∧ maxSafeBytes / left < right
  · have hbig : maxSafeBytes < left * right := (hdiv h.1).1 h.2
    rw [raiseIf, if_pos h]
    exact ⟨trivial, by omega⟩
  · refine (bounded_raiseIf h).bind fun _ _ => .pure ⟨rfl, ?_⟩
    by_cases hzero : left = 0
    · simp [hzero]
    · exact Nat.le_of_not_lt fun hbig => h ⟨hzero, (hdiv hzero).2 hbig⟩

theorem bounded_roundUp (hle : value ≤ maxSafeBytes) (htotal : pageCeil value ≤ total) :
    Bounded total (roundUpToPage value label) (Within (pageCeil value)) := by
  refine (bounded_natural hle).bind ?_
  rintro value ⟨rfl, -⟩
  unfold pageCeil at htotal ⊢
  by_cases hrem : value % 4096 = 0
  · rw [if_pos hrem] at htotal ⊢
    rw [if_pos (show value % sqlitePageBytes = 0 from hrem)]
    exact .pure ⟨rfl, hle⟩
  · rw [if_neg hrem] at htotal ⊢
    rw [if_neg (show ¬ value % sqlitePageBytes = 0 from hrem)]
    exact bounded_add hle (by simp only [sqlitePageBytes, maxSafeBytes]; omega) htotal

theorem bounded_transaction {misses : Nat} (hle : misses ≤ maxSafeBytes) (htotal : transactionBytes misses ≤ total) :
    Bounded total (embeddingCacheTransactionBytes misses) (Within (transactionBytes misses)) := by
  unfold transactionBytes at htotal ⊢
  refine (bounded_multiply hle (by decide) (by omega)).bind ?_
  rintro _ ⟨rfl, hrow⟩
  exact bounded_add (by decide) hrow htotal

/-- The baseline is added only when there is one, and a zero baseline adds nothing. -/
theorem bounded_wal {wal transaction : Nat} (hwal : wal ≤ maxSafeBytes) (htr : transaction ≤ maxSafeBytes)
    (htotal : wal + transaction ≤ total) :
    Bounded total (withWalBaseline wal transaction) (Within (wal + transaction)) := by
  unfold withWalBaseline
  by_cases hzero : wal = 0
  · subst hzero
    rw [if_neg (by simp), Nat.zero_add]
    exact .pure ⟨rfl, htr⟩
  · rw [if_pos hzero]
    exact bounded_add hwal htr htotal

end

theorem le_pageCeil (n : Nat) : n ≤ pageCeil n := by
  unfold pageCeil
  split <;> omega

theorem pageCeil_mono {m n : Nat} (h : m ≤ n) : pageCeil m ≤ pageCeil n := by
  unfold pageCeil
  split <;> split <;> omega

/-! ### The prediction -/

section
variable {c c' : BuildCounts} {d d' : DatabaseCounts}

theorem bounded_database {total : Nat} (hpayload : d.payloadBytes ≤ maxSafeBytes) (hrows : d.rowCount ≤ maxSafeBytes)
    (hfts : d.ftsIndexedTextBytes ≤ maxSafeBytes) (hsecondary : d.secondaryIndexTextBytes ≤ maxSafeBytes)
    (htotal : d.bytes ≤ total) : Bounded total (predictServingDatabaseBytes d) (Within d.bytes) := by
  have hsum := (le_pageCeil _).trans htotal
  refine (bounded_natural hpayload).bind ?_
  rintro _ ⟨rfl, -⟩
  refine (bounded_natural hrows).bind ?_
  rintro _ ⟨rfl, -⟩
  refine (bounded_natural hfts).bind ?_
  rintro _ ⟨rfl, -⟩
  refine (bounded_natural hsecondary).bind ?_
  rintro _ ⟨rfl, -⟩
  refine (bounded_multiply hpayload (by decide) (by omega)).bind ?_
  rintro _ ⟨rfl, hexpanded⟩
  refine (bounded_multiply hrows (by decide) (by omega)).bind ?_
  rintro _ ⟨rfl, henvelope⟩
  refine (bounded_multiply hfts (by decide) (by omega)).bind ?_
  rintro _ ⟨rfl, hindex⟩
  refine (bounded_add (by decide) hexpanded (by omega)).bind ?_
  rintro _ ⟨rfl, hle⟩
  refine (bounded_add hle henvelope (by omega)).bind ?_
  rintro _ ⟨rfl, hle⟩
  refine (bounded_add hle hindex (by omega)).bind ?_
  rintro _ ⟨rfl, hle⟩
  refine (bounded_add hle hsecondary (by omega)).bind ?_
  rintro _ ⟨rfl, hle⟩
  exact bounded_roundUp hle htotal

theorem databaseBytes_pos : 0 < d.bytes := by
  have hfixed : 0 < databaseFixedBytes := by decide
  have hsum : databaseFixedBytes ≤ d.bytes := (by omega : databaseFixedBytes ≤ _).trans (le_pageCeil _)
  omega

variable {p : V5ArtifactPrediction}

theorem V5ArtifactPrediction.Consistent.safe (h : p.Consistent) : p.Safe := by
  obtain ⟨-, hmisses, hgrowth, htransaction, hsidecar, -, hdatabasePeak, hlogical, hpeak, hrange⟩ := h
  have hviews : p.derivedViewCount ≤ p.derivedViewCount * vectorRowBytes := Nat.le_mul_of_pos_right _ (by decide)
  have hdatabase : p.servingDatabaseBytes ≤ p.servingDatabaseBytes * databaseExportPeakMultiplier :=
    Nat.le_mul_of_pos_right _ (by decide)
  constructor <;> omega

/-- What the constructor computes again is what it was given. -/
theorem V5ArtifactPrediction.Consistent.postInit_ok (h : p.Consistent) : p.postInit = .ok () := by
  have hsafe := h.safe
  obtain ⟨hviews, hmisses, hgrowth, htransaction, hsidecar, hdatabase, hdatabasePeak, hlogical, hpeak, hrange⟩ := h
  have hwide : p.derivedViewCount ≤ p.derivedViewCount * vectorRowBytes := Nat.le_mul_of_pos_right _ (by decide)
  have hfull : p.servingDatabaseBytes ≤ p.servingDatabaseBytes * databaseExportPeakMultiplier :=
    Nat.le_mul_of_pos_right _ (by decide)
  suffices hb : Bounded p.peakGrowthBytes p.postInit fun _ => True by
    obtain ⟨_, h, -⟩ := hb.ok hrange
    exact h
  unfold V5ArtifactPrediction.postInit
  refine (bounded_integer (fun _ => by omega) hsafe.views).bind ?_
  rintro _ ⟨rfl, -⟩
  refine (bounded_natural hsafe.misses).bind ?_
  rintro _ ⟨rfl, -⟩
  refine (bounded_raiseIf (by omega)).bind fun _ _ => ?_
  refine (bounded_natural hsafe.wal).bind ?_
  rintro _ ⟨rfl, -⟩
  refine (bounded_natural hsafe.growth).bind fun _ _ => (bounded_natural hsafe.transaction).bind fun _ _ => ?_
  refine (bounded_integer (fun _ => by omega) hsafe.sidecar).bind fun _ _ => ?_
  refine (bounded_integer (fun _ => by omega) hsafe.database).bind fun _ _ => ?_
  refine (bounded_integer (fun _ => by omega) hsafe.databasePeak).bind fun _ _ => ?_
  refine (bounded_integer (fun _ => by omega) hsafe.logical).bind fun _ _ => ?_
  refine (bounded_integer (fun _ => by omega) hsafe.peak).bind fun _ _ => ?_
  refine (bounded_multiply hsafe.views (by decide) (by omega)).bind ?_
  rintro _ ⟨rfl, -⟩
  refine (bounded_multiply hsafe.misses (by decide) (by omega)).bind ?_
  rintro _ ⟨rfl, -⟩
  refine (bounded_transaction hsafe.misses (by omega)).bind ?_
  rintro _ ⟨rfl, htr⟩
  refine (bounded_wal hsafe.wal htr (by omega)).bind ?_
  rintro _ ⟨rfl, -⟩
  refine (bounded_multiply hsafe.database (by decide) (by omega)).bind ?_
  rintro _ ⟨rfl, -⟩
  rw [← hsidecar, ← hgrowth, ← htransaction, ← hdatabasePeak]
  refine (bounded_add hsafe.growth hsafe.transaction (by omega)).bind ?_
  rintro _ ⟨rfl, hle⟩
  refine (bounded_add hle hsafe.sidecar (by omega)).bind ?_
  rintro _ ⟨rfl, hle⟩
  refine (bounded_add hle hsafe.database (by omega)).bind ?_
  rintro _ ⟨rfl, -⟩
  refine (bounded_add hsafe.growth hsafe.transaction (by omega)).bind ?_
  rintro _ ⟨rfl, hle⟩
  refine (bounded_add hle hsafe.sidecar (by omega)).bind ?_
  rintro _ ⟨rfl, hle⟩
  refine (bounded_add hle hsafe.databasePeak (by omega)).bind ?_
  rintro _ ⟨rfl, -⟩
  exact bounded_raiseIf (by simp [hlogical, hpeak])

theorem sums_consistent (h : c.Admissible) (hle : c.sums.peakGrowthBytes ≤ maxSafeBytes) : c.sums.Consistent where
  views := h.views.1
  misses := h.misses
  growth := rfl
  transaction := rfl
  sidecar := rfl
  database := databaseBytes_pos
  databasePeak := rfl
  logical := rfl
  peak := rfl
  range := hle

theorem bounded_missCount {total : Nat} (h : c.Admissible) :
    Bounded total (missCount c.embeddingCacheMissCount c.derivedViewCount) (Within c.misses) := by
  have hmisses := h.misses
  unfold BuildCounts.misses at hmisses ⊢
  cases hcount : c.embeddingCacheMissCount with
  | none => exact .pure ⟨rfl, h.views.2⟩
  | some count =>
    rw [hcount] at hmisses
    refine (bounded_natural (hmisses.trans h.views.2)).bind ?_
    rintro _ ⟨rfl, hle⟩
    exact (bounded_raiseIf (Nat.not_lt.2 hmisses)).bind fun _ _ => .pure ⟨rfl, hle⟩

theorem bounded_predict (h : c.Admissible) :
    Bounded c.sums.peakGrowthBytes (predictV5LocalArtifacts c) fun p => p = c.sums ∧ c.sums.peakGrowthBytes ≤ maxSafeBytes := by
  have hviews := h.views
  have hmisses := h.misses
  have hbytes : c.database.bytes ≤ c.database.bytes * databaseExportPeakMultiplier :=
    Nat.le_mul_of_pos_right _ (by decide)
  have htotal : c.sums.peakGrowthBytes = c.misses * embeddingCacheRowEnvelopeBytes +
      (c.embeddingCacheWalBaselineBytes + transactionBytes c.misses) + c.derivedViewCount * vectorRowBytes +
        c.database.bytes * databaseExportPeakMultiplier := rfl
  unfold predictV5LocalArtifacts
  refine (bounded_integer (fun _ => by omega) (by omega)).bind ?_
  rintro _ ⟨rfl, -⟩
  refine (bounded_missCount h).bind ?_
  rintro _ ⟨rfl, hmissesLe⟩
  refine (bounded_natural h.wal).bind ?_
  rintro _ ⟨rfl, hwal⟩
  refine (bounded_multiply (by omega) (by decide) (by omega)).bind ?_
  rintro _ ⟨rfl, hsidecar⟩
  refine (bounded_multiply (by omega) (by decide) (by omega)).bind ?_
  rintro _ ⟨rfl, hgrowth⟩
  refine (bounded_transaction (by omega) (by omega)).bind ?_
  rintro _ ⟨rfl, htransaction⟩
  refine (bounded_wal (by omega) htransaction (by omega)).bind ?_
  rintro _ ⟨rfl, hwhole⟩
  refine (bounded_database h.payload h.rows h.fts h.secondary (by omega)).bind ?_
  rintro _ ⟨rfl, hdatabase⟩
  refine (bounded_multiply hdatabase (by decide) (by omega)).bind ?_
  rintro _ ⟨rfl, hpeak⟩
  refine (bounded_add hgrowth hwhole (by omega)).bind ?_
  rintro _ ⟨rfl, hle⟩
  refine (bounded_add hle hsidecar (by omega)).bind ?_
  rintro _ ⟨rfl, hle⟩
  refine (bounded_add hle hdatabase (by omega)).bind ?_
  rintro _ ⟨rfl, -⟩
  refine (bounded_add hgrowth hwhole (by omega)).bind ?_
  rintro _ ⟨rfl, hle⟩
  refine (bounded_add hle hsidecar (by omega)).bind ?_
  rintro _ ⟨rfl, hle⟩
  refine (bounded_add hle hpeak (by omega)).bind ?_
  rintro _ ⟨rfl, hle⟩
  refine (bounded_raiseIf (by omega)).bind fun _ _ => ?_
  have hpost := (sums_consistent h (htotal.le.trans hle)).postInit_ok
  simp only [BuildCounts.sums] at hpost
  simp only [hpost]
  exact .pure ⟨rfl, htotal.le.trans hle⟩

theorem databaseBytes_mono (h : c.Le c') : c.database.bytes ≤ c'.database.bytes :=
  pageCeil_mono (Nat.add_le_add (Nat.add_le_add (Nat.add_le_add (Nat.add_le_add_left
    (Nat.mul_le_mul_right _ h.payload) _) (Nat.mul_le_mul_right _ h.rows)) (Nat.mul_le_mul_right _ h.fts)) h.secondary)

theorem transactionBytes_mono {m n : Nat} (h : m ≤ n) : transactionBytes m ≤ transactionBytes n :=
  Nat.add_le_add_left (Nat.mul_le_mul_right _ h) _

theorem sums_mono (h : c.Le c') : c.sums.Le c'.sums := by
  have hgrowth := Nat.mul_le_mul_right embeddingCacheRowEnvelopeBytes h.misses
  have htransaction := Nat.add_le_add h.wal (transactionBytes_mono h.misses)
  have hsidecar := Nat.mul_le_mul_right vectorRowBytes h.views
  have hdatabase := databaseBytes_mono h
  have hpeak := Nat.mul_le_mul_right databaseExportPeakMultiplier hdatabase
  have hrest := Nat.add_le_add (Nat.add_le_add hgrowth htransaction) hsidecar
  exact ⟨hgrowth, htransaction, hsidecar, hdatabase, hpeak, Nat.add_le_add hrest hdatabase,
    Nat.add_le_add hrest hpeak⟩

theorem predict_eq (h : c.Admissible) (hp : predictV5LocalArtifacts c = .ok p) :
    p = c.sums ∧ c.sums.peakGrowthBytes ≤ maxSafeBytes := by
  have hb := bounded_predict h
  rw [hp] at hb
  exact hb

/-! ### What remains -/

variable {r r' reserve : Nat}

theorem remaining_mono (h : r ≤ r') : p.remaining r ≤ p.remaining r' := by
  have hrows := Nat.mul_le_mul_right embeddingCacheRowEnvelopeBytes h
  have htransaction := transactionBytes_mono h
  unfold V5ArtifactPrediction.remaining
  split <;> split <;> omega

theorem V5ArtifactPrediction.Consistent.remaining_all (h : p.Consistent) (hne : p.embeddingCacheMissCount ≠ 0) :
    p.remaining p.embeddingCacheMissCount = p.peakGrowthBytes := by
  rw [V5ArtifactPrediction.remaining, if_neg hne, h.peak, h.growth, h.transaction]
  omega

theorem V5ArtifactPrediction.Consistent.remaining_le (h : p.Consistent) (hr : r ≤ p.embeddingCacheMissCount) :
    p.remaining r ≤ p.peakGrowthBytes := by
  by_cases hne : p.embeddingCacheMissCount = 0
  · have hzero : r = 0 := by omega
    rw [V5ArtifactPrediction.remaining, if_pos hzero, h.peak]
    omega
  · exact (remaining_mono hr).trans (h.remaining_all hne).le

theorem bounded_withTransaction {total required : Nat} (h : p.Safe) (hr : r ≤ maxSafeBytes)
    (hrequired : required ≤ maxSafeBytes)
    (htotal : (if r = 0 then required else required + transactionBytes r + p.embeddingCacheWalBaselineBytes) ≤ total) :
    Bounded total (withTransaction p r required)
      (Within (if r = 0 then required else required + transactionBytes r + p.embeddingCacheWalBaselineBytes)) := by
  unfold withTransaction
  by_cases hzero : r = 0
  · rw [if_pos hzero, if_neg (not_not.2 hzero)]
    exact .pure ⟨rfl, hrequired⟩
  · rw [if_neg hzero] at htotal ⊢
    rw [if_pos hzero]
    refine (bounded_transaction hr (by omega)).bind ?_
    rintro _ ⟨rfl, htr⟩
    refine (bounded_add hrequired htr (by omega)).bind ?_
    rintro _ ⟨rfl, hle⟩
    exact bounded_add hle h.wal (by omega)

theorem bounded_remaining (h : p.Safe) (hr : r ≤ p.embeddingCacheMissCount) (hreserve : reserve ≤ maxSafeBytes) :
    Bounded (p.remaining r + reserve) (remainingRequiredFreeBytes p r reserve) (Within (p.remaining r + reserve)) := by
  have hsum : p.remaining r = (if r = 0 then r * embeddingCacheRowEnvelopeBytes else
      r * embeddingCacheRowEnvelopeBytes + transactionBytes r + p.embeddingCacheWalBaselineBytes) +
        p.vectorSidecarBytes + p.databaseExportPeakBytes := by
    unfold V5ArtifactPrediction.remaining
    split
    · simp [*]
    · rfl
  have hrow : r * embeddingCacheRowEnvelopeBytes ≤ (if r = 0 then r * embeddingCacheRowEnvelopeBytes else
      r * embeddingCacheRowEnvelopeBytes + transactionBytes r + p.embeddingCacheWalBaselineBytes) := by
    split <;> omega
  rw [hsum]
  have hle := hr.trans h.misses
  unfold remainingRequiredFreeBytes
  refine (bounded_natural hle).bind ?_
  rintro _ ⟨rfl, -⟩
  refine (bounded_raiseIf (by omega)).bind fun _ _ => ?_
  refine (bounded_natural hreserve).bind ?_
  rintro _ ⟨rfl, -⟩
  refine (bounded_multiply hle (by decide) (by omega)).bind ?_
  rintro _ ⟨rfl, hgrowth⟩
  refine (bounded_withTransaction h hle hgrowth (by omega)).bind ?_
  rintro _ ⟨rfl, hwith⟩
  refine (bounded_add hwith h.sidecar (by omega)).bind ?_
  rintro _ ⟨rfl, hside⟩
  refine (bounded_add hside h.databasePeak (by omega)).bind ?_
  rintro _ ⟨rfl, hpeak⟩
  exact bounded_add hpeak hreserve le_rfl

/-- The prediction is accepted by its own recomputation or reported out of range, smaller counts need no more, and
a gate after some of the rows asks for no more than the gate before the first. -/
theorem capacity_exact {c : BuildCounts} (h : c.Admissible) :
    ((∃ e, predictV5LocalArtifacts c = .error e ∧ e.OutOfRange) ∨
      ∃ p, predictV5LocalArtifacts c = .ok p ∧ p.postInit = .ok () ∧ p.Safe) ∧
    (∀ c' p', c'.Admissible → c.Le c' → predictV5LocalArtifacts c' = .ok p' →
      ∃ p, predictV5LocalArtifacts c = .ok p ∧ p.Le p') ∧
    ∀ p reserve, predictV5LocalArtifacts c = .ok p → reserve ≤ maxSafeBytes →
      (∀ r e, r ≤ p.embeddingCacheMissCount → remainingRequiredFreeBytes p r reserve = .error e → e.OutOfRange) ∧
      (∀ r r' n', r ≤ r' → r' ≤ p.embeddingCacheMissCount → remainingRequiredFreeBytes p r' reserve = .ok n' →
        ∃ n, remainingRequiredFreeBytes p r reserve = .ok n ∧ n ≤ n') ∧
      (∀ r n, r ≤ p.embeddingCacheMissCount → remainingRequiredFreeBytes p r reserve = .ok n →
        n ≤ p.peakGrowthBytes + reserve) ∧
      ∀ n, p.embeddingCacheMissCount ≠ 0 →
        remainingRequiredFreeBytes p p.embeddingCacheMissCount reserve = .ok n → n = p.peakGrowthBytes + reserve := by
  refine ⟨?_, ?_, ?_⟩
  · have hb := bounded_predict h
    cases hp : predictV5LocalArtifacts c with
    | error e =>
      rw [hp] at hb
      exact .inl ⟨e, rfl, hb.1⟩
    | ok p =>
      obtain ⟨rfl, hle⟩ := predict_eq h hp
      have hcons := sums_consistent h hle
      exact .inr ⟨_, rfl, hcons.postInit_ok, hcons.safe⟩
  · intro c' p' h' hle hp'
    obtain ⟨rfl, hrange⟩ := predict_eq h' hp'
    have hmono := sums_mono hle
    obtain ⟨p, hp, rfl, -⟩ := (bounded_predict h).ok (hmono.peak.trans hrange)
    exact ⟨_, hp, hmono⟩
  · intro p reserve hp hreserve
    obtain ⟨rfl, hrange⟩ := predict_eq h hp
    have hcons := sums_consistent h hrange
    have hok : ∀ {r n}, r ≤ c.sums.embeddingCacheMissCount → remainingRequiredFreeBytes c.sums r reserve = .ok n →
        n = c.sums.remaining r + reserve ∧ c.sums.remaining r + reserve ≤ maxSafeBytes := fun hr hn => by
      have hb := bounded_remaining hcons.safe hr hreserve
      rw [hn] at hb
      exact hb
    refine ⟨fun r e hr he => ?_, fun r r' n' hle hr' hn' => ?_, fun r n hr hn => ?_, fun n hne hn => ?_⟩
    · have hb := bounded_remaining hcons.safe hr hreserve
      rw [he] at hb
      exact hb.1
    · obtain ⟨rfl, hbig⟩ := hok hr' hn'
      have hmono : c.sums.remaining r ≤ c.sums.remaining r' := remaining_mono hle
      obtain ⟨n, hn, rfl, -⟩ := (bounded_remaining hcons.safe (hle.trans hr') hreserve).ok (by omega)
      exact ⟨_, hn, by omega⟩
    · obtain ⟨rfl, -⟩ := hok hr hn
      exact Nat.add_le_add_right (hcons.remaining_le hr) reserve
    · obtain ⟨rfl, -⟩ := hok le_rfl hn
      rw [hcons.remaining_all hne]

end

/-- Two views, one of them cached, and no log. -/
def twoViews : BuildCounts := ⟨2, ⟨5000, 12, 3000, 700⟩, some 1, 0⟩

theorem capacity_exact_two_views : ∃ p, predictV5LocalArtifacts twoViews = .ok p ∧ p.peakGrowthBytes = 12795904 ∧
    remainingRequiredFreeBytes p 1 100 = .ok 12796004 ∧ ∀ n, remainingRequiredFreeBytes p 0 100 = .ok n →
      n ≤ p.peakGrowthBytes + 100 := by
  have h : twoViews.Admissible := by constructor <;> decide
  obtain ⟨p, hp, rfl, -⟩ := (bounded_predict h).ok (by decide)
  refine ⟨_, hp, by decide, by decide, fun n hn => ?_⟩
  exact ((capacity_exact h).2.2 _ 100 hp (by decide)).2.2.1 0 n (by decide) hn

end CardRag.Export
