import CardRag.Core
import CardRag.Lib.Guard
import CardRag.Lib.PyList

/-! # The state quota (`quota.py`)

Writers reserve the growth of the state tree before they write, or write under the quota lock. The
checks are the code's; the tree is the bytes outside reserved writes, the reservation records and what
each writer has written so far. `State.charged` counts a reservation in full, so a writer that fills
its reservation changes nothing, and a measurement may find its files at any stage. -/

namespace CardRag.Quota

open Guard

/-- `MAX_SAFE_BYTES`. -/
def maxSafeBytes : Int := 2 ^ 63 - 1

/-- `StorageQuotaError`, a `RuntimeError`. -/
def storageQuotaError (message : String) : Raised := ⟨.runtimeError, message⟩

def validateByteLimit (value : Int) (label : String) (allowZero : Bool) : Except Raised Int := do
  raiseIf (value < (if allowZero then 0 else 1) ∨ maxSafeBytes < value)
    (valueError (label ++ " must be a " ++ (if allowZero then "non-negative" else "positive") ++ " bounded integer"))
  return value

def checkedAdd (left right : Int) (label : String) : Except Raised Int := do
  let _ ← validateByteLimit left label true
  let _ ← validateByteLimit right label true
  raiseIf (maxSafeBytes - left < right) (storageQuotaError (label ++ " exceeds the supported byte range"))
  return left + right

/-- The part of `StateQuotaPolicy` that the checks read. -/
structure StateQuotaPolicy where
  maximumStateBytes : Int
  reservedFreeSpaceBytes : Int
  valid : 1 ≤ maximumStateBytes ∧ maximumStateBytes ≤ maxSafeBytes ∧
    0 ≤ reservedFreeSpaceBytes ∧ reservedFreeSpaceBytes ≤ maxSafeBytes

/-- An entry of the state tree; a link or a special file raises. -/
inductive Node where
  | file (size : Nat)
  | directory (entries : List Node)

mutual
def amount : Node → Except Raised Int
  | .file size => .ok size
  | .directory entries => directoryUsage entries 0

/-- `_directory_usage`, from the `total` so far. -/
def directoryUsage : List Node → Int → Except Raised Int
  | [], total => .ok total
  | entry :: entries, total => do
    let amount ← amount entry
    let total ← checkedAdd total amount "storage quota usage"
    directoryUsage entries total
end

mutual
/-- The logical bytes of an entry. -/
def Node.bytes : Node → Nat
  | .file size => size
  | .directory entries => bytesOf entries

def bytesOf : List Node → Nat
  | [] => 0
  | entry :: entries => entry.bytes + bytesOf entries
end

/-- A published reservation and what its writer has written under it. -/
structure Reservation where
  token : Str
  logical : Int
  peak : Int
  recordBytes : Nat
  written : Nat
  /-- The writer holds the lease. -/
  live : Bool
  within : (written : Int) ≤ logical

/-- `_MAXIMUM_RESERVATIONS`. -/
def maximumReservations : Nat := 4096

/-- `_MAXIMUM_COORDINATION_ENTRIES`. -/
def maximumCoordinationEntries : Nat := 8192

/-- `_durable_reservations_locked`: the directory also holds the lock and the policy. -/
def durableReservationsLocked (reservations : List Reservation) : Except Raised (List (Int × Int)) := do
  raiseIf (maximumCoordinationEntries < reservations.length + 2)
    (storageQuotaError "state quota coordination entry cap is exceeded")
  raiseIf (maximumReservations < reservations.length) (storageQuotaError "state quota reservation count is exhausted")
  return (PyList.sortedBy (·.token) reservations).map fun r => (r.logical, r.peak)

/-- The loop that adds up the reservations. -/
def addReserved (s : Int × Int) (r : Int × Int) : Except Raised (Int × Int) := do
  let reservedLogical ← checkedAdd s.1 r.1 "reserved logical state growth"
  let reservedPeak ← checkedAdd s.2 r.2 "reserved peak state growth"
  return (reservedLogical, reservedPeak)

/-- `_ensure_global_state_growth_locked`, the walk having `found` the tree and the disk being `free`. -/
def ensureGlobalStateGrowthLocked (policy : StateQuotaPolicy) (reservations : List Reservation) (found : List Node)
    (free logicalGrowth peakGrowth : Int) : Except Raised Unit := do
  let logicalGrowth ← validateByteLimit logicalGrowth "logical state growth" true
  let peakGrowth ← validateByteLimit peakGrowth "peak state growth" true
  raiseIf (peakGrowth < logicalGrowth) (valueError "peak state growth cannot be smaller than logical growth")
  let usage ← directoryUsage found 0
  let durable ← durableReservationsLocked reservations
  let reserved ← durable.foldlM addReserved (0, 0)
  let accountedUsage ← checkedAdd usage reserved.1 "accounted state usage"
  raiseIf (policy.maximumStateBytes < accountedUsage ∨ policy.maximumStateBytes - accountedUsage < logicalGrowth)
    (storageQuotaError "MCP state quota has insufficient capacity for this write")
  let requiredPeak ← checkedAdd reserved.2 peakGrowth "reserved filesystem growth"
  raiseIf (free < requiredPeak ∨ free - requiredPeak < policy.reservedFreeSpaceBytes)
    (storageQuotaError "MCP reserved free-space gate rejected this write")

/-- `_ensure_policy_bootstrap_capacity`. -/
def ensurePolicyBootstrapCapacity (policy : StateQuotaPolicy) (found : List Node) (free size : Int) :
    Except Raised Unit := do
  let usage ← directoryUsage found 0
  raiseIf (policy.maximumStateBytes < usage ∨ policy.maximumStateBytes - usage < size)
    (storageQuotaError "MCP state quota cannot contain its durable policy")
  let peak ← checkedAdd size size "state quota policy publication growth"
  raiseIf (free < peak ∨ free - peak < policy.reservedFreeSpaceBytes)
    (storageQuotaError "MCP reserved free-space gate rejected its durable policy")

/-- The checks of `reserve_global_state_growth`; `recordBytes` is the length of the record to publish. -/
def reserveGlobalStateGrowth (policy : StateQuotaPolicy) (reservations : List Reservation) (found : List Node)
    (free logical peak : Int) (recordBytes : Nat) : Except Raised Unit := do
  let logical ← validateByteLimit logical "logical state growth" true
  let peak ← validateByteLimit peak "peak state growth" true
  raiseIf (peak < logical) (valueError "peak state growth cannot be smaller than logical growth")
  let durable ← durableReservationsLocked reservations
  raiseIf (maximumReservations ≤ durable.length) (storageQuotaError "state quota reservation count is exhausted")
  let logicalGrowth ← checkedAdd logical recordBytes "reserved logical state and receipt growth"
  let receipts ← checkedAdd recordBytes recordBytes "reservation publication peak growth"
  let peakGrowth ← checkedAdd peak receipts "reserved filesystem and receipt growth"
  ensureGlobalStateGrowthLocked policy reservations found free logicalGrowth peakGrowth

/-- The state tree and its writers. -/
structure State where
  /-- The bytes outside the reservation records and the reserved writes. -/
  base : Nat
  reservations : List Reservation
  /-- What the holder of the quota lock may still add; `none` between quota transactions. -/
  inside : Option Nat

namespace State

/-- The logical usage of the state tree. -/
def usage (s : State) : Int := s.base + (s.reservations.map fun r => (r.recordBytes + r.written : Int)).sum

/-- The unwritten part of the reservations on record, the live ones among them. -/
def unwritten (s : State) : Int := (s.reservations.map fun r => r.logical - (r.written : Int)).sum

/-- Only reserved writes go on while the lock is held, so a walk finds all the other bytes. -/
def Finds (s : State) (found : List Node) : Prop := s.base + (s.reservations.map (·.recordBytes)).sum ≤ bytesOf found

end State

/-- What any thread or process does next. `write` sets what a live writer has written; `reconcile`
removes one of the records that `reconcile_abandoned_state_reservations` finds without a lease. -/
inductive Step (policy : StateQuotaPolicy) : State → State → Prop where
  | publishPolicy {s : State} {size : Nat} {free : Int} {found : List Node} (hfree : s.inside = none)
      (hnone : s.reservations = []) (hfinds : s.Finds found)
      (hok : ensurePolicyBootstrapCapacity policy found free size = .ok ()) :
      Step policy s { s with base := s.base + size }
  | reserve {s : State} {token : Str} {logical peak free : Int} {recordBytes : Nat} {found : List Node}
      (hlogical : (0 : Int) ≤ logical) (hfree : s.inside = none) (hfinds : s.Finds found)
      (hok : reserveGlobalStateGrowth policy s.reservations found free logical peak recordBytes = .ok ()) :
      Step policy s { s with reservations := s.reservations ++ [⟨token, logical, peak, recordBytes, 0, true, hlogical⟩] }
  | write {s : State} {before after : List Reservation} {r : Reservation} {n : Nat}
      (hs : s.reservations = before ++ r :: after) (hlive : r.live = true) (hn : (n : Int) ≤ r.logical) :
      Step policy s { s with reservations := before ++ { r with written := n, within := hn } :: after }
  | release {s : State} {before after : List Reservation} {r : Reservation} (hs : s.reservations = before ++ r :: after)
      (hlive : r.live = true) (hfree : s.inside = none) :
      Step policy s { s with base := s.base + r.written, reservations := before ++ after }
  | die {s : State} {before after : List Reservation} {r : Reservation} (hs : s.reservations = before ++ r :: after) :
      Step policy s { s with reservations := before ++ { r with live := false } :: after }
  | enterGuard {s : State} {logicalGrowth peakGrowth free : Int} {found : List Node} (hfree : s.inside = none)
      (hfinds : s.Finds found)
      (hok : ensureGlobalStateGrowthLocked policy s.reservations found free logicalGrowth peakGrowth = .ok ()) :
      Step policy s { s with inside := some logicalGrowth.toNat }
  | enterTransaction {s : State} (hfree : s.inside = none) : Step policy s { s with inside := some 0 }
  | grow {s : State} {room n : Nat} (hs : s.inside = some room) (hn : n ≤ room) :
      Step policy s { s with base := s.base + n, inside := some (room - n) }
  | shrink {s : State} {room n : Nat} (hs : s.inside = some room) (hn : n ≤ s.base) :
      Step policy s { s with base := s.base - n, inside := some (room + n) }
  | leave {s : State} : Step policy s { s with inside := none }
  | reconcile {s : State} {before after : List Reservation} {r : Reservation} (hs : s.reservations = before ++ r :: after)
      (hdead : r.live = false) (hfree : s.inside = none) :
      Step policy s { s with base := s.base + r.written, reservations := before ++ after }

/-! ## The checks -/

theorem validateByteLimit_eq_ok {value v : Int} {label : String} {allowZero : Bool} :
    validateByteLimit value label allowZero = .ok v ↔
      (if allowZero then 0 else 1) ≤ value ∧ value ≤ maxSafeBytes ∧ v = value := by
  simp only [validateByteLimit, bind_eq_ok, raiseIf_eq_ok, pure_eq_ok, exists_unit, not_or, not_lt, and_assoc,
    eq_comm (a := v)]

theorem checkedAdd_eq_ok {a b c : Int} {label : String} :
    checkedAdd a b label = .ok c ↔ 0 ≤ a ∧ 0 ≤ b ∧ a + b ≤ maxSafeBytes ∧ c = a + b := by
  simp only [checkedAdd, bind_eq_ok, validateByteLimit_eq_ok, raiseIf_eq_ok, pure_eq_ok, exists_unit, if_true]
  constructor
  · rintro ⟨x, ⟨ha, -, rfl⟩, y, ⟨hb, -, rfl⟩, hle, rfl⟩
    exact ⟨ha, hb, by omega, rfl⟩
  · rintro ⟨ha, hb, hle, rfl⟩
    exact ⟨a, ⟨ha, by omega, rfl⟩, b, ⟨hb, by omega, rfl⟩, by omega, rfl⟩

mutual
theorem amount_eq_ok {n : Node} {u : Int} (h : amount n = .ok u) : u = n.bytes := by
  cases n with
  | file size =>
    rw [amount] at h
    rw [Node.bytes]
    exact (Except.ok.inj h).symm
  | directory entries =>
    rw [amount] at h
    rw [Node.bytes, directoryUsage_eq_ok h, Int.zero_add]

theorem directoryUsage_eq_ok {ns : List Node} {total u : Int} (h : directoryUsage ns total = .ok u) :
    u = total + bytesOf ns := by
  cases ns with
  | nil =>
    rw [directoryUsage] at h
    rw [bytesOf]
    simpa using (Except.ok.inj h).symm
  | cons n ns =>
    rw [directoryUsage] at h
    obtain ⟨a, ha, h⟩ := bind_eq_ok.1 h
    obtain ⟨t, ht, h⟩ := bind_eq_ok.1 h
    rw [directoryUsage_eq_ok h, (checkedAdd_eq_ok.1 ht).2.2.2, amount_eq_ok ha, bytesOf]
    push_cast
    omega
end

theorem directoryUsage_le {ns : List Node} {total u : Int} (ht : total ≤ maxSafeBytes)
    (h : directoryUsage ns total = .ok u) : u ≤ maxSafeBytes := by
  induction ns generalizing total with
  | nil =>
    rw [directoryUsage] at h
    exact (Except.ok.inj h) ▸ ht
  | cons n ns ih =>
    rw [directoryUsage] at h
    obtain ⟨a, -, h⟩ := bind_eq_ok.1 h
    obtain ⟨t, ht, h⟩ := bind_eq_ok.1 h
    obtain ⟨-, -, hle, rfl⟩ := checkedAdd_eq_ok.1 ht
    exact ih hle h

/-- The reservations as the checks add them up. -/
def durable (reservations : List Reservation) : List (Int × Int) :=
  (PyList.sortedBy (·.token) reservations).map fun r => (r.logical, r.peak)

theorem durableReservationsLocked_eq_ok {reservations : List Reservation} {rs : List (Int × Int)}
    (h : durableReservationsLocked reservations = .ok rs) : rs = durable reservations := by
  simp only [durableReservationsLocked, bind_eq_ok, raiseIf_eq_ok, pure_eq_ok, exists_unit] at h
  exact h.2.2.symm

theorem sum_durable (reservations : List Reservation) :
    ((durable reservations).map (·.1)).sum = (reservations.map (·.logical)).sum := by
  rw [durable, List.map_map]
  exact ((PyList.sortedBy_perm _ reservations).map _).sum_eq

theorem foldlM_addReserved {rs : List (Int × Int)} {s t : Int × Int} (hs : s.1 ≤ maxSafeBytes ∧ s.2 ≤ maxSafeBytes)
    (h : rs.foldlM addReserved s = .ok t) :
    t.1 = s.1 + (rs.map (·.1)).sum ∧ t.2 = s.2 + (rs.map (·.2)).sum ∧
      ∀ k, s.1 + ((rs.take k).map (·.1)).sum ≤ maxSafeBytes ∧ s.2 + ((rs.take k).map (·.2)).sum ≤ maxSafeBytes := by
  induction rs generalizing s with
  | nil =>
    obtain rfl := Except.ok.inj h
    simpa using hs
  | cons r rs ih =>
    rw [List.foldlM_cons] at h
    obtain ⟨s', hs', h⟩ := bind_eq_ok.1 h
    obtain ⟨x, hx, hs'⟩ := bind_eq_ok.1 hs'
    obtain ⟨y, hy, hs'⟩ := bind_eq_ok.1 hs'
    obtain rfl := Except.ok.inj hs'
    obtain ⟨-, -, hxle, rfl⟩ := checkedAdd_eq_ok.1 hx
    obtain ⟨-, -, hyle, rfl⟩ := checkedAdd_eq_ok.1 hy
    obtain ⟨h₁, h₂, htake⟩ := ih ⟨hxle, hyle⟩ h
    simp only [List.map_cons, List.sum_cons]
    refine ⟨by omega, by omega, fun k => ?_⟩
    cases k with
    | zero => simpa using hs
    | succ k =>
      have := htake k
      simp only [List.take_succ_cons, List.map_cons, List.sum_cons]
      omega

/-- The sums that a passed check formed are in the supported range. -/
structure SumsSafe (reservations : List Reservation) (found : List Node) (peakGrowth : Int) : Prop where
  usage : bytesOf found ≤ maxSafeBytes
  reserved : ∀ k, (((durable reservations).take k).map (·.1)).sum ≤ maxSafeBytes ∧
    (((durable reservations).take k).map (·.2)).sum ≤ maxSafeBytes
  accounted : bytesOf found + (reservations.map (·.logical)).sum ≤ maxSafeBytes
  requiredPeak : ((durable reservations).map (·.2)).sum + peakGrowth ≤ maxSafeBytes

section
variable {policy : StateQuotaPolicy} {reservations : List Reservation} {found : List Node} {free : Int}

theorem ensure_ok {logicalGrowth peakGrowth : Int}
    (h : ensureGlobalStateGrowthLocked policy reservations found free logicalGrowth peakGrowth = .ok ()) :
    0 ≤ logicalGrowth ∧
    bytesOf found + (reservations.map (·.logical)).sum + logicalGrowth ≤ policy.maximumStateBytes ∧
    SumsSafe reservations found peakGrowth := by
  unfold ensureGlobalStateGrowthLocked at h
  obtain ⟨l, hl, h⟩ := bind_eq_ok.1 h
  obtain ⟨p, hp, h⟩ := bind_eq_ok.1 h
  obtain ⟨_, -, h⟩ := bind_eq_ok.1 h
  obtain ⟨usage, hu, h⟩ := bind_eq_ok.1 h
  obtain ⟨rs, hrs, h⟩ := bind_eq_ok.1 h
  obtain ⟨reserved, hr, h⟩ := bind_eq_ok.1 h
  obtain ⟨accounted, ha, h⟩ := bind_eq_ok.1 h
  obtain ⟨_, hcap, h⟩ := bind_eq_ok.1 h
  obtain ⟨required, hq, -⟩ := bind_eq_ok.1 h
  obtain ⟨hpos, -, rfl⟩ := validateByteLimit_eq_ok.1 hl
  obtain ⟨-, -, rfl⟩ := validateByteLimit_eq_ok.1 hp
  obtain rfl := durableReservationsLocked_eq_ok hrs
  obtain ⟨h₁, h₂, htake⟩ := foldlM_addReserved ⟨by decide, by decide⟩ hr
  have hbytes := directoryUsage_eq_ok hu
  have hbound := directoryUsage_le (by decide) hu
  obtain ⟨-, -, hale, rfl⟩ := checkedAdd_eq_ok.1 ha
  obtain ⟨-, -, hqle, -⟩ := checkedAdd_eq_ok.1 hq
  rw [raiseIf_eq_ok, not_or, not_lt, not_lt] at hcap
  simp only [Int.zero_add] at h₁ h₂ htake hbytes
  rw [sum_durable] at h₁
  refine ⟨hpos, by omega, ⟨by omega, htake, by omega, by omega⟩⟩

theorem bootstrap_ok {size : Int} (h : ensurePolicyBootstrapCapacity policy found free size = .ok ()) :
    bytesOf found + size ≤ policy.maximumStateBytes := by
  obtain ⟨usage, hu, h⟩ := bind_eq_ok.1 h
  obtain ⟨_, hcap, -⟩ := bind_eq_ok.1 h
  have hbytes := directoryUsage_eq_ok hu
  rw [raiseIf_eq_ok, not_or, not_lt, not_lt] at hcap
  omega

theorem reserve_ok {logical peak : Int} {recordBytes : Nat}
    (h : reserveGlobalStateGrowth policy reservations found free logical peak recordBytes = .ok ()) :
    bytesOf found + (reservations.map (·.logical)).sum + (logical + recordBytes) ≤ policy.maximumStateBytes ∧
    logical + recordBytes ≤ maxSafeBytes ∧ (recordBytes + recordBytes : Int) ≤ maxSafeBytes ∧
    peak + (recordBytes + recordBytes) ≤ maxSafeBytes ∧
    SumsSafe reservations found (peak + (recordBytes + recordBytes)) := by
  unfold reserveGlobalStateGrowth at h
  obtain ⟨l, hl, h⟩ := bind_eq_ok.1 h
  obtain ⟨p, hp, h⟩ := bind_eq_ok.1 h
  obtain ⟨_, -, h⟩ := bind_eq_ok.1 h
  obtain ⟨rs, -, h⟩ := bind_eq_ok.1 h
  obtain ⟨_, -, h⟩ := bind_eq_ok.1 h
  obtain ⟨growth, hg, h⟩ := bind_eq_ok.1 h
  obtain ⟨receipts, hr, h⟩ := bind_eq_ok.1 h
  obtain ⟨peakGrowth, hk, h⟩ := bind_eq_ok.1 h
  obtain ⟨-, -, hgle, rfl⟩ := checkedAdd_eq_ok.1 hg
  obtain ⟨-, -, hrle, rfl⟩ := checkedAdd_eq_ok.1 hr
  obtain ⟨-, -, hkle, rfl⟩ := checkedAdd_eq_ok.1 hk
  obtain ⟨-, hcap, hsums⟩ := ensure_ok h
  obtain ⟨-, -, rfl⟩ := validateByteLimit_eq_ok.1 hl
  obtain ⟨-, -, rfl⟩ := validateByteLimit_eq_ok.1 hp
  exact ⟨hcap, hgle, hrle, hkle, hsums⟩

end

/-! ## Runs -/

namespace State
variable {policy : StateQuotaPolicy} {s s' : State}

/-- The bytes that are there or promised. -/
def charged (s : State) : Int :=
  s.base + (s.reservations.map fun r => (r.recordBytes + r.logical : Int)).sum + (s.inside.getD 0 : Nat)

/-- The invariant of every run. -/
def Within (policy : StateQuotaPolicy) (s : State) : Prop := s.charged ≤ policy.maximumStateBytes

theorem usage_add_unwritten (s : State) :
    s.usage + s.unwritten = s.base + (s.reservations.map fun r => (r.recordBytes + r.logical : Int)).sum := by
  have hsum : ∀ rs : List Reservation, (rs.map fun r => (r.recordBytes + r.written : Int)).sum +
      (rs.map fun r => r.logical - (r.written : Int)).sum = (rs.map fun r => (r.recordBytes + r.logical : Int)).sum := by
    intro rs
    induction rs with
    | nil => rfl
    | cons r rs ih => simp only [List.map_cons, List.sum_cons]; omega
  have := hsum s.reservations
  rw [usage, unwritten]
  omega

theorem usage_add_unwritten_le (h : s.Within policy) : s.usage + s.unwritten ≤ policy.maximumStateBytes := by
  rw [usage_add_unwritten]
  unfold Within charged at h
  omega

/-- A walk finds at least what is not a reserved write. -/
theorem charged_le (hfree : s.inside = none) {found : List Node} (hfinds : s.Finds found) :
    s.charged ≤ bytesOf found + (s.reservations.map (·.logical)).sum := by
  have hsum : ∀ rs : List Reservation, (rs.map fun r => (r.recordBytes + r.logical : Int)).sum =
      ((rs.map (·.recordBytes)).sum : Nat) + (rs.map (·.logical)).sum := by
    intro rs
    induction rs with
    | nil => rfl
    | cons r rs ih => simp only [List.map_cons, List.sum_cons]; push_cast at ih ⊢; omega
  rw [charged, hsum, hfree, Option.getD_none]
  unfold Finds at hfinds
  omega

theorem Within.step (h : s.Within policy) (hstep : Step policy s s') : s'.Within policy := by
  unfold Within at h ⊢
  cases hstep with
  | publishPolicy hfree hnone hfinds hok =>
    have hle := charged_le hfree hfinds
    have hcap := bootstrap_ok hok
    rw [charged, hfree, hnone] at hle
    rw [charged, hfree, hnone]
    simp only [List.map_nil, List.sum_nil, Option.getD_none] at hle ⊢
    push_cast
    omega
  | reserve hlogical hfree hfinds hok =>
    have hle := charged_le hfree hfinds
    have hcap := (reserve_ok hok).1
    rw [charged, hfree, Option.getD_none] at hle ⊢
    simp only [List.map_append, List.map_cons, List.map_nil, List.sum_append, List.sum_cons, List.sum_nil]
    omega
  | write hs hlive hn =>
    unfold charged at h ⊢
    rw [hs] at h
    simpa only [List.map_append, List.map_cons] using h
  | release hs hlive hfree =>
    rename_i r
    have := r.within
    unfold charged at h ⊢
    rw [hs] at h
    simp only [List.map_append, List.map_cons, List.sum_append, List.sum_cons] at h ⊢
    omega
  | die hs =>
    unfold charged at h ⊢
    rw [hs] at h
    simpa only [List.map_append, List.map_cons] using h
  | enterGuard hfree hfinds hok =>
    have hle := charged_le hfree hfinds
    obtain ⟨hpos, hcap, -⟩ := ensure_ok hok
    rw [charged, hfree, Option.getD_none] at hle
    rw [charged, Option.getD_some]
    dsimp only
    omega
  | enterTransaction hfree =>
    rw [charged, hfree] at h
    exact h
  | grow hs hn =>
    rw [charged, hs, Option.getD_some] at h
    rw [charged, Option.getD_some]
    push_cast
    omega
  | shrink hs hn =>
    rw [charged, hs, Option.getD_some] at h
    rw [charged, Option.getD_some]
    push_cast
    omega
  | leave =>
    unfold charged at h ⊢
    rw [Option.getD_none]
    dsimp only
    omega
  | reconcile hs hdead hfree =>
    rename_i r
    have := r.within
    unfold charged at h ⊢
    rw [hs] at h
    simp only [List.map_append, List.map_cons, List.sum_append, List.sum_cons] at h ⊢
    omega

theorem Within.run (h : s.Within policy) (hrun : Relation.ReflTransGen (Step policy) s s') : s'.Within policy := by
  induction hrun with
  | refl => exact h
  | tail _ hstep ih => exact ih.step hstep

end State

/-- In every interleaving from a tree below the limit, the logical usage and the unwritten part of the
reservations stay below it, and the sums of every check that passes are in the supported range. -/
theorem quota_safe (policy : StateQuotaPolicy) (base : Nat) (s : State) (hbase : (base : Int) ≤ policy.maximumStateBytes)
    (hrun : Relation.ReflTransGen (Step policy) ⟨base, [], none⟩ s) :
    s.usage + s.unwritten ≤ policy.maximumStateBytes ∧
    (∀ found free logicalGrowth peakGrowth,
      ensureGlobalStateGrowthLocked policy s.reservations found free logicalGrowth peakGrowth = .ok () →
        SumsSafe s.reservations found peakGrowth) ∧
    ∀ found free logical peak recordBytes,
      reserveGlobalStateGrowth policy s.reservations found free logical peak recordBytes = .ok () →
        logical + recordBytes ≤ maxSafeBytes ∧ (recordBytes + recordBytes : Int) ≤ maxSafeBytes ∧
        peak + (recordBytes + recordBytes) ≤ maxSafeBytes ∧
        SumsSafe s.reservations found (peak + (recordBytes + recordBytes)) := by
  have hstart : State.Within policy ⟨base, [], none⟩ := by
    simpa [State.Within, State.charged] using hbase
  exact ⟨State.usage_add_unwritten_le (hstart.run hrun), fun _ _ _ _ h => (ensure_ok h).2.2, fun _ _ _ _ _ h =>
    (reserve_ok h).2⟩

/-- A limit of a thousand bytes. -/
def smallPolicy : StateQuotaPolicy := ⟨1000, 0, by decide⟩

/-- A reservation of a hundred bytes. -/
def hundred (written : Nat) (h : (written : Int) ≤ 100) : Reservation := ⟨"a".toList, 100, 100, 20, written, true, h⟩

/-- A writer has written 60 of the 100 bytes it reserved. -/
theorem quota_safe_writing : ∃ s : State, s.usage = 90 ∧ s.unwritten = 40 ∧
    s.usage + s.unwritten ≤ smallPolicy.maximumStateBytes := by
  have hreserve : Step smallPolicy ⟨10, [], none⟩ ⟨10, [hundred 0 (by decide)], none⟩ :=
    @Step.reserve smallPolicy _ "a".toList 100 100 200 20 [.file 10] (by decide) rfl (by unfold State.Finds; decide)
      (by rfl)
  have hwrite : Step smallPolicy ⟨10, [hundred 0 (by decide)], none⟩ ⟨10, [hundred 60 (by decide)], none⟩ :=
    @Step.write smallPolicy ⟨10, [hundred 0 (by decide)], none⟩ [] [] (hundred 0 (by decide)) 60 rfl rfl (by decide)
  exact ⟨⟨10, [hundred 60 (by decide)], none⟩, by decide, by decide,
    (quota_safe smallPolicy 10 _ (by decide) ((Relation.ReflTransGen.single hreserve).tail hwrite)).1⟩

end CardRag.Quota
