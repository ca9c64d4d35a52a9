import CardRag.Lib.PyList
import CardRag.Lib.Runs
import CardRag.Publish.Webdav

/-! # The reranker shadow store (`reranker.py`, `quota.py`)

`RerankerShadowStore` with any number of publishers. Each of their steps may be the last one before they are killed.
The lock of `state_quota_guard` is let go when its holder is killed. -/

namespace CardRag.Shadow

open Publish (Bytes)

def MAX_RERANKER_ARTIFACT_BYTES : Nat := 8 * 1024 * 1024

/-- `RerankerShadowArtifact`: what it is looked up by, and the rest. -/
structure Artifact (ι γ β : Type) where
  identity : ι
  candidates : γ
  rest : β
deriving DecidableEq

/-- The canonical JSON of artifacts, which reads back, and the digest of an identity. -/
structure Codec (ι γ β : Type) where
  canonicalSha256 : ι → Str
  canonicalBytes : Artifact ι γ β → Bytes
  validateJson : Bytes → Option (Artifact ι γ β)
  canonicalBytes_ne_nil : ∀ x, canonicalBytes x ≠ []
  validateJson_canonicalBytes : ∀ x, validateJson (canonicalBytes x) = some x

structure Limits where
  maximumJobs : Nat
  maximumTotalBytes : Nat
  maximumArtifactBytes : Nat
  artifact_le : maximumArtifactBytes ≤ MAX_RERANKER_ARTIFACT_BYTES
  total_le : maximumArtifactBytes ≤ maximumTotalBytes

structure File where
  bytes : Bytes
  writable : Bool
deriving DecidableEq

/-- The directory: the files with the name of an artifact by its digest, and the temporaries, which have other
names. -/
structure Store (ι γ β : Type) where
  artifacts : List (Str × File)
  temporaries : List (Nat × File)
  /-- Who holds the lock of the quota guard. -/
  guard : Option Nat
  /-- Not on disk: the artifacts that were linked, the oldest first. -/
  linked : List (Artifact ι γ β)
deriving DecidableEq

inductive Phase (α : Type) where
  | called
  /-- `load` has found nothing, and the size is within its bound. -/
  | checked
  | guarded
  | temporary
  | written
  /-- The temporary is to be unlinked. -/
  | closing (outcome : Except String α)
  | returned (artifact : α)
  | raised (error : String)
  | killed

def stale : String := "reranker artifact identity or candidates are stale"
def tooLarge : String := "reranker artifact exceeds its size bound"
def stateQuota : String := "MCP state quota rejected reranker audit write"
def totalQuota : String := "reranker audit total quota rejected this write"
def jobQuota : String := "reranker audit job quota rejected this query"
def unsafeEntry : String := "reranker artifact directory contains an unsafe entry"

section
variable {ι γ β : Type} [DecidableEq ι] [DecidableEq γ] (C : Codec ι γ β) (L : Limits)

namespace Codec

/-- `_read_artifact`. -/
def readArtifact (f : File) : Except String (Artifact ι γ β) :=
  if f.writable then .error "reranker artifact must be an immutable regular file"
  else if f.bytes.length < 1 ∨ MAX_RERANKER_ARTIFACT_BYTES < f.bytes.length then
    .error "reranker artifact has an invalid size"
  else match C.validateJson f.bytes with
    | none => .error "reranker artifact schema is invalid"
    | some x => if C.canonicalBytes x ≠ f.bytes then .error "reranker artifact is not canonical JSON" else .ok x

end Codec

namespace Store

variable (s : Store ι γ β)

def load (identity : ι) (candidates : γ) : Except String (Option (Artifact ι γ β)) :=
  match PyList.get? s.artifacts (C.canonicalSha256 identity) with
  | none => .ok none
  | some f => match C.readArtifact f with
    | .error e => .error e
    | .ok x => if x.identity ≠ identity ∨ x.candidates ≠ candidates then .error stale else .ok (some x)

def artifactCount : Except String Nat := if s.temporaries ≠ [] then .error unsafeEntry else .ok s.artifacts.length

/-- `safe_subtree_usage` of the directory. -/
def usage : Nat := (s.artifacts.map (·.2.bytes.length)).sum + (s.temporaries.map (·.2.bytes.length)).sum

/-- The checks under the lock; whether the state as a whole has room is given. -/
def writeQuotaGuard (artifactBytes : Nat) (admitted : Bool) : Except String Unit :=
  if admitted = false then .error stateQuota
  else if L.maximumTotalBytes < s.usage ∨ L.maximumTotalBytes - s.usage < artifactBytes then .error totalQuota
  else match s.artifactCount with
    | .error e => .error e
    | .ok n => if L.maximumJobs ≤ n then .error jobQuota else .ok ()

/-- The next step of `publish`. -/
def advance (i : Nat) (x : Artifact ι γ β) (admitted : Bool) : Phase (Artifact ι γ β) → Store ι γ β × Phase (Artifact ι γ β)
  | .called =>
    match s.load C x.identity x.candidates with
    | .error e => (s, .raised e)
    | .ok (some y) => (s, .returned y)
    | .ok none => if L.maximumArtifactBytes < (C.canonicalBytes x).length then (s, .raised tooLarge) else (s, .checked)
  | .checked =>
    if s.guard.isSome then (s, .checked)
    else match s.writeQuotaGuard L (C.canonicalBytes x).length admitted with
      | .error e => (s, .raised e)
      | .ok () => ({ s with guard := some i }, .guarded)
  | .guarded =>
    match s.load C x.identity x.candidates with
    | .error e => ({ s with guard := none }, .raised e)
    | .ok (some y) => ({ s with guard := none }, .returned y)
    | .ok none => ({ s with temporaries := PyList.insert i ⟨[], true⟩ s.temporaries }, .temporary)
  | .temporary => ({ s with temporaries := PyList.insert i ⟨C.canonicalBytes x, false⟩ s.temporaries }, .written)
  | .written =>
    match PyList.get? s.artifacts (C.canonicalSha256 x.identity), PyList.get? s.temporaries i with
    | none, some f =>
      ({ s with artifacts := s.artifacts ++ [(C.canonicalSha256 x.identity, f)], linked := s.linked ++ [x] },
        .closing (.ok x))
    | none, none => (s, .closing (.error "FileNotFoundError"))
    | some _, _ =>
      match s.load C x.identity x.candidates with
      | .error e => (s, .closing (.error e))
      | .ok (some y) => (s, .closing (.ok y))
      | .ok none => (s, .closing (.error "reranker artifact publication raced"))
  | .closing outcome =>
    ({ s with temporaries := s.temporaries.filter (·.1 ≠ i), guard := none },
      match outcome with
      | .error e => .raised e
      | .ok y => .returned y)
  | phase => (s, phase)

end Store

/-! ### Publishers -/

structure System (ι γ β : Type) where
  store : Store ι γ β
  publishers : List (Artifact ι γ β × Phase (Artifact ι γ β))

def fresh : System ι γ β := ⟨⟨[], [], none, []⟩, []⟩

inductive Event (ι γ β : Type) where
  | publish (artifact : Artifact ι γ β)
  | advance (publisher : Nat) (admitted : Bool)
  | kill (publisher : Nat)

def step (y : System ι γ β) : Event ι γ β → System ι γ β
  | .publish x => { y with publishers := y.publishers ++ [(x, .called)] }
  | .advance i admitted =>
    match y.publishers[i]? with
    | some (x, phase) =>
      let (store, phase') := y.store.advance C L i x admitted phase
      ⟨store, y.publishers.set i (x, phase')⟩
    | none => y
  | .kill i =>
    match y.publishers[i]? with
    | some (x, _) =>
      ⟨{ y.store with guard := if y.store.guard = some i then none else y.store.guard }, y.publishers.set i (x, .killed)⟩
    | none => y

/-! ### Properties -/

/-- What a publisher may raise. -/
def Cause (s : Store ι γ β) (e : Event ι γ β) (x : Artifact ι γ β) (error : String) : Prop :=
  (error = stale ∧ ∃ z ∈ s.linked, C.canonicalSha256 z.identity = C.canonicalSha256 x.identity ∧
    ¬ (z.identity = x.identity ∧ z.candidates = x.candidates)) ∨
  (error = tooLarge ∧ L.maximumArtifactBytes < (C.canonicalBytes x).length) ∨
  (error = stateQuota ∧ ∃ i, e = .advance i false) ∨
  (error = totalQuota ∧
    L.maximumTotalBytes < (s.linked.map fun z => (C.canonicalBytes z).length).sum + (C.canonicalBytes x).length) ∨
  (error = jobQuota ∧ L.maximumJobs ≤ s.linked.length)

structure Sound (y : System ι γ β) : Prop where
  absent : ∀ identity candidates, (∀ x ∈ y.store.linked, C.canonicalSha256 x.identity ≠ C.canonicalSha256 identity) →
    y.store.load C identity candidates = .ok none
  found : ∀ x ∈ y.store.linked, y.store.load C x.identity x.candidates = .ok (some x)
  /-- One publisher links the file of a digest. -/
  once : (y.store.linked.map fun x => C.canonicalSha256 x.identity).Nodup
  returned : ∀ x z, (x, .returned z) ∈ y.publishers → y.store.load C x.identity x.candidates = .ok (some z)
  writable : y.store.guard = none → y.store.artifactCount = .ok y.store.linked.length

/-- What was linked stays, and whoever raises has a cause. -/
structure Keeps (y : System ι γ β) (e : Event ι γ β) (y' : System ι γ β) : Prop where
  linked : y.store.linked <+: y'.store.linked
  sound : Sound C y'
  cause : ∀ (i : Nat) x error, y'.publishers[i]? = some (x, .raised error) →
    y.publishers[i]? = some (x, .raised error) ∨ Cause C L y.store e x error

/-- No publisher is killed that has not unlinked its temporary. -/
def Cleans (y : System ι γ β) : Event ι γ β → Prop
  | .kill i => ∀ f, (i, f) ∉ y.store.temporaries
  | _ => True

end

section
variable {ι γ β : Type} [DecidableEq ι] [DecidableEq γ] {C : Codec ι γ β} {L : Limits} {s s' : Store ι γ β}
  {y : System ι γ β} {x z : Artifact ι γ β} {i j : Nat} {phase : Phase (Artifact ι γ β)}

/-! ### Loading -/

/-- The files are those of the linked artifacts. -/
structure Store.Files (C : Codec ι γ β) (s : Store ι γ β) : Prop where
  files : s.artifacts = s.linked.map fun x => (C.canonicalSha256 x.identity, ⟨C.canonicalBytes x, false⟩)
  once : (s.linked.map fun x => C.canonicalSha256 x.identity).Nodup
  bound : ∀ x ∈ s.linked, (C.canonicalBytes x).length ≤ MAX_RERANKER_ARTIFACT_BYTES

omit [DecidableEq ι] [DecidableEq γ] in
theorem readArtifact_canonical (h : (C.canonicalBytes x).length ≤ MAX_RERANKER_ARTIFACT_BYTES) :
    C.readArtifact ⟨C.canonicalBytes x, false⟩ = .ok x := by
  have hpos := List.length_pos_iff.2 (C.canonicalBytes_ne_nil x)
  have hsize : ¬ ((C.canonicalBytes x).length < 1 ∨ MAX_RERANKER_ARTIFACT_BYTES < (C.canonicalBytes x).length) := by omega
  simp only [Codec.readArtifact, Bool.false_eq_true, if_false, if_neg hsize, C.validateJson_canonicalBytes, ne_eq,
    not_true_eq_false]

omit [DecidableEq ι] [DecidableEq γ] in
theorem get?_linked {l : List (Artifact ι γ β)} (hnd : (l.map fun x => C.canonicalSha256 x.identity).Nodup) (hz : z ∈ l) :
    PyList.get? (l.map fun x => (C.canonicalSha256 x.identity, (⟨C.canonicalBytes x, false⟩ : File)))
      (C.canonicalSha256 z.identity) = some ⟨C.canonicalBytes z, false⟩ := by
  induction l with
  | nil => cases hz
  | cons w l ih =>
    rw [List.map_cons, List.nodup_cons] at hnd
    rw [List.map_cons]
    rcases List.mem_cons.1 hz with rfl | hz
    · simp [PyList.get?]
    · have hne : ¬ C.canonicalSha256 w.identity = C.canonicalSha256 z.identity := by
        intro heq
        exact hnd.1 (List.mem_map.2 ⟨z, hz, heq.symm⟩)
      simpa [PyList.get?, hne] using ih hnd.2 hz

omit [DecidableEq ι] [DecidableEq γ] in
theorem get?_not_linked {l : List (Artifact ι γ β)} {digest : Str} (h : ∀ x ∈ l, C.canonicalSha256 x.identity ≠ digest) :
    PyList.get? (l.map fun x => (C.canonicalSha256 x.identity, (⟨C.canonicalBytes x, false⟩ : File))) digest = none := by
  rw [PyList.get?, Option.map_eq_none_iff, List.find?_eq_none]
  intro e he
  obtain ⟨x, hx, rfl⟩ := List.mem_map.1 he
  simpa using h x hx

theorem Store.Files.load_absent (h : s.Files C) {identity : ι} {candidates : γ}
    (hout : ∀ x ∈ s.linked, C.canonicalSha256 x.identity ≠ C.canonicalSha256 identity) :
    s.load C identity candidates = .ok none := by
  rw [Store.load, h.files, get?_not_linked hout]

/-- What was linked under the digest is asked with the right identity and candidates, or not. -/
theorem Store.Files.load_linked (h : s.Files C) {identity : ι} (candidates : γ) (hz : z ∈ s.linked)
    (hd : C.canonicalSha256 z.identity = C.canonicalSha256 identity) : s.load C identity candidates =
      if z.identity ≠ identity ∨ z.candidates ≠ candidates then .error stale else .ok (some z) := by
  rw [Store.load, h.files, ← hd, get?_linked h.once hz]
  simp only [readArtifact_canonical (h.bound z hz)]

theorem Store.Files.load_found (h : s.Files C) (hz : z ∈ s.linked) : s.load C z.identity z.candidates = .ok (some z) := by
  rw [h.load_linked _ hz rfl]
  simp

theorem Store.Files.load_cases (h : s.Files C) (identity : ι) (candidates : γ) :
    ((∀ z ∈ s.linked, C.canonicalSha256 z.identity ≠ C.canonicalSha256 identity) ∧ s.load C identity candidates = .ok none) ∨
    (∃ z ∈ s.linked, z.identity = identity ∧ z.candidates = candidates ∧ s.load C identity candidates = .ok (some z)) ∨
    (∃ z ∈ s.linked, C.canonicalSha256 z.identity = C.canonicalSha256 identity ∧
      ¬ (z.identity = identity ∧ z.candidates = candidates) ∧ s.load C identity candidates = .error stale) := by
  by_cases hin : ∃ z ∈ s.linked, C.canonicalSha256 z.identity = C.canonicalSha256 identity
  · obtain ⟨z, hz, hd⟩ := hin
    have hload := h.load_linked candidates hz hd
    by_cases heq : z.identity = identity ∧ z.candidates = candidates
    · rw [if_neg (by simp [heq.1, heq.2])] at hload
      exact .inr (.inl ⟨z, hz, heq.1, heq.2, hload⟩)
    · rw [if_pos (by by_contra hcon; simp only [not_or, not_not] at hcon; exact heq hcon)] at hload
      exact .inr (.inr ⟨z, hz, hd, heq, hload⟩)
  · have hout : ∀ z ∈ s.linked, C.canonicalSha256 z.identity ≠ C.canonicalSha256 identity := fun z hz hd => hin ⟨z, hz, hd⟩
    exact .inl ⟨hout, h.load_absent hout⟩

omit [DecidableEq ι] [DecidableEq γ] in
theorem Store.Files.usage_eq (h : s.Files C) (htemp : s.temporaries = []) :
    s.usage = (s.linked.map fun z => (C.canonicalBytes z).length).sum := by
  rw [Store.usage, h.files, htemp, List.map_map]
  rfl

/-! ### The invariant -/

/-- What holds of a publisher in its phase. -/
def PhaseOk (C : Codec ι γ β) (L : Limits) (s : Store ι γ β) (i : Nat) (x : Artifact ι γ β) :
    Phase (Artifact ι γ β) → Prop
  | .checked => (C.canonicalBytes x).length ≤ L.maximumArtifactBytes
  | .guarded => (C.canonicalBytes x).length ≤ L.maximumArtifactBytes ∧ s.guard = some i ∧ s.temporaries = []
  | .temporary => (C.canonicalBytes x).length ≤ L.maximumArtifactBytes ∧ s.guard = some i ∧
      (∃ f, s.temporaries = [(i, f)]) ∧ ∀ z ∈ s.linked, C.canonicalSha256 z.identity ≠ C.canonicalSha256 x.identity
  | .written => (C.canonicalBytes x).length ≤ L.maximumArtifactBytes ∧ s.guard = some i ∧
      s.temporaries = [(i, ⟨C.canonicalBytes x, false⟩)] ∧
      ∀ z ∈ s.linked, C.canonicalSha256 z.identity ≠ C.canonicalSha256 x.identity
  | .closing outcome => s.guard = some i ∧ (∃ f, s.temporaries = [(i, f)]) ∧ outcome = .ok x ∧ x ∈ s.linked
  | .returned z => z ∈ s.linked ∧ z.identity = x.identity ∧ z.candidates = x.candidates
  | _ => True

def Phase.busy : Phase (Artifact ι γ β) → Prop
  | .guarded | .temporary | .written | .closing _ => True
  | _ => False

structure Inv (C : Codec ι γ β) (L : Limits) (y : System ι γ β) : Prop where
  files : y.store.Files C
  free : y.store.guard = none → y.store.temporaries = []
  owner : ∀ i, y.store.guard = some i → ∃ x phase, y.publishers[i]? = some (x, phase) ∧ phase.busy
  phases : ∀ i x phase, y.publishers[i]? = some (x, phase) → PhaseOk C L y.store i x phase

omit [DecidableEq ι] [DecidableEq γ] in
/-- What the holder of the lock does, and who takes it, leaves the others as they are. -/
theorem PhaseOk.frame (h : PhaseOk C L s j x phase) (hne : j ≠ i) (hguard : s.guard = none ∨ s.guard = some i)
    (hlinked : s.linked <+: s'.linked) : PhaseOk C L s' j x phase := by
  have hout : s.guard ≠ some j := by
    rcases hguard with hg | hg
    · rw [hg]
      exact nofun
    · rw [hg]
      exact fun hij => hne (Option.some.inj hij).symm
  cases phase with
  | guarded => exact absurd h.2.1 hout
  | temporary => exact absurd h.2.1 hout
  | written => exact absurd h.2.1 hout
  | closing outcome => exact absurd h.1 hout
  | returned z => exact ⟨hlinked.subset h.1, h.2⟩
  | checked => exact h
  | called => exact trivial
  | raised error => exact trivial
  | killed => exact trivial

omit [DecidableEq ι] [DecidableEq γ] in
theorem Inv.sound_writable (h : Inv C L y) (hguard : y.store.guard = none) :
    y.store.artifactCount = .ok y.store.linked.length := by
  rw [Store.artifactCount, h.free hguard, h.files.files]
  simp

theorem Inv.sound (h : Inv C L y) : Sound C y where
  absent := fun _ _ hout => h.files.load_absent hout
  found := fun _ hx => h.files.load_found hx
  once := h.files.once
  returned := fun x z hxz => by
    obtain ⟨i, hi⟩ := List.mem_iff_getElem?.1 hxz
    obtain ⟨hz, hid, hcand⟩ := h.phases i x _ hi
    rw [← hid, ← hcand]
    exact h.files.load_found hz
  writable := h.sound_writable

/-! ### Steps -/

omit [DecidableEq ι] [DecidableEq γ] in
theorem Inv.update {phase' : Phase (Artifact ι γ β)} (h : Inv C L y) (hfiles : s'.Files C)
    (hfree : s'.guard = none → s'.temporaries = [])
    (howner : ∀ j, s'.guard = some j → (j = i ∧ phase'.busy ∧ i < y.publishers.length) ∨ (j ≠ i ∧ y.store.guard = some j))
    (hothers : ∀ j x phase, j ≠ i → PhaseOk C L y.store j x phase → PhaseOk C L s' j x phase)
    (hphase : PhaseOk C L s' i x phase') : Inv C L ⟨s', y.publishers.set i (x, phase')⟩ := by
  refine ⟨hfiles, hfree, fun j hj => ?_, fun j w q hj => ?_⟩
  · rcases howner j hj with ⟨rfl, hbusy, hlt⟩ | ⟨hne, hg⟩
    · exact ⟨x, phase', List.getElem?_set_self hlt, hbusy⟩
    · obtain ⟨w, q, hw, hbusy⟩ := h.owner j hg
      exact ⟨w, q, by rwa [List.getElem?_set_ne (Ne.symm hne)], hbusy⟩
  · by_cases hij : j = i
    · subst hij
      rw [List.getElem?_set] at hj
      simp only [if_true] at hj
      split at hj
      · cases hj
        exact hphase
      · cases hj
    · rw [List.getElem?_set_ne (Ne.symm hij)] at hj
      exact hothers j w q hij (h.phases j w q hj)

omit [DecidableEq ι] [DecidableEq γ] in
theorem Inv.not_owner (h : Inv C L y) (hi : y.publishers[i]? = some (x, phase)) (hidle : ¬ phase.busy) :
    y.store.guard ≠ some i := by
  intro hg
  obtain ⟨w, q, hw, hbusy⟩ := h.owner i hg
  rw [hi] at hw
  cases hw
  exact hidle hbusy

omit [DecidableEq ι] [DecidableEq γ] in
/-- A publisher without the lock moves on. -/
theorem Inv.stay {phase' : Phase (Artifact ι γ β)} (h : Inv C L y) (hi : y.publishers[i]? = some (x, phase))
    (hidle : ¬ phase.busy) (hphase : PhaseOk C L y.store i x phase') : Inv C L ⟨y.store, y.publishers.set i (x, phase')⟩ :=
  h.update h.files h.free (fun _ hj => .inr ⟨fun hij => h.not_owner hi hidle (hij ▸ hj), hj⟩) (fun _ _ _ _ hok => hok) hphase

omit [DecidableEq ι] [DecidableEq γ] in
/-- It takes the lock, or has it and keeps it. -/
theorem Inv.hold {phase' : Phase (Artifact ι γ β)} (h : Inv C L y) (hi : y.publishers[i]? = some (x, phase))
    (hguard : y.store.guard = none ∨ y.store.guard = some i) (hguard' : s'.guard = some i) (hbusy : phase'.busy)
    (hfiles : s'.Files C) (hlinked : y.store.linked <+: s'.linked) (hphase : PhaseOk C L s' i x phase') :
    Inv C L ⟨s', y.publishers.set i (x, phase')⟩ := by
  have hlt : i < y.publishers.length := (List.getElem?_eq_some_iff.1 hi).1
  refine h.update hfiles (fun hg => ?_) (fun j hj => ?_) (fun j _ _ hne hok => hok.frame hne hguard hlinked) hphase
  · rw [hguard'] at hg
    cases hg
  · rw [hguard'] at hj
    exact .inl ⟨(Option.some.inj hj).symm, hbusy, hlt⟩

omit [DecidableEq ι] [DecidableEq γ] in
/-- It lets the lock go. -/
theorem Inv.leave {phase' : Phase (Artifact ι γ β)} (h : Inv C L y) (hguard : y.store.guard = some i)
    (hguard' : s'.guard = none) (htemp : s'.temporaries = []) (hfiles : s'.Files C)
    (hlinked : y.store.linked <+: s'.linked) (hphase : PhaseOk C L s' i x phase') :
    Inv C L ⟨s', y.publishers.set i (x, phase')⟩ := by
  refine h.update hfiles (fun _ => htemp) (fun j hj => ?_) (fun j _ _ hne hok => hok.frame hne (.inr hguard) hlinked) hphase
  rw [hguard'] at hj
  cases hj

omit [DecidableEq ι] [DecidableEq γ] in
/-- The checks under the lock, where there is no temporary. -/
theorem writeQuotaGuard_cases (h : s.Files C) (htemp : s.temporaries = []) (x : Artifact ι γ β) (admitted : Bool) :
    s.writeQuotaGuard L (C.canonicalBytes x).length admitted = .ok () ∨
    ∃ error, s.writeQuotaGuard L (C.canonicalBytes x).length admitted = .error error ∧
      Cause C L s (.advance i admitted) x error := by
  have husage := h.usage_eq htemp
  unfold Store.writeQuotaGuard
  cases admitted with
  | false => exact .inr ⟨stateQuota, rfl, .inr (.inr (.inl ⟨rfl, i, rfl⟩))⟩
  | true =>
    rw [if_neg (by simp)]
    split
    · rename_i htotal
      refine .inr ⟨totalQuota, rfl, .inr (.inr (.inr (.inl ⟨rfl, ?_⟩)))⟩
      rw [← husage]
      omega
    · have hcount : s.artifactCount = .ok s.linked.length := by
        rw [Store.artifactCount, htemp, h.files]
        simp
      rw [hcount]
      dsimp only
      split
      · rename_i hjobs
        exact .inr ⟨jobQuota, rfl, .inr (.inr (.inr (.inr ⟨rfl, hjobs⟩)))⟩
      · exact .inl rfl

omit [DecidableEq ι] [DecidableEq γ] in
theorem Store.Files.link (h : s.Files C) (hsize : (C.canonicalBytes x).length ≤ L.maximumArtifactBytes)
    (hout : ∀ z ∈ s.linked, C.canonicalSha256 z.identity ≠ C.canonicalSha256 x.identity) :
    Store.Files C { s with
      artifacts := s.artifacts ++ [(C.canonicalSha256 x.identity, ⟨C.canonicalBytes x, false⟩)], linked := s.linked ++ [x] } := by
  refine ⟨?_, ?_, fun z hz => ?_⟩
  · rw [h.files, List.map_append]
    rfl
  · rw [List.map_append, List.nodup_append]
    refine ⟨h.once, List.nodup_singleton _, ?_⟩
    intro a ha b hb hab
    obtain ⟨z, hz, rfl⟩ := List.mem_map.1 ha
    exact hout z hz (hab.trans (List.mem_singleton.1 hb))
  · rcases List.mem_append.1 hz with hz | hz
    · exact h.bound z hz
    · rw [List.mem_singleton.1 hz]
      exact hsize.trans L.artifact_le

/-- What one step of a publisher keeps, and why it raises. -/
structure Advanced (C : Codec ι γ β) (L : Limits) (y : System ι γ β) (i : Nat) (x : Artifact ι γ β) (admitted : Bool)
    (phase : Phase (Artifact ι γ β)) (r : Store ι γ β × Phase (Artifact ι γ β)) : Prop where
  inv : Inv C L ⟨r.1, y.publishers.set i (x, r.2)⟩
  linked : y.store.linked <+: r.1.linked
  cause : ∀ error, r.2 = .raised error → phase = .raised error ∨ Cause C L y.store (.advance i admitted) x error

theorem advance_spec (h : Inv C L y) (hi : y.publishers[i]? = some (x, phase)) (admitted : Bool) :
    Advanced C L y i x admitted phase (y.store.advance C L i x admitted phase) := by
  have hok := h.phases i x phase hi
  have hload := h.files.load_cases x.identity x.candidates
  cases phase with
  | called =>
    simp only [Store.advance]
    rcases hload with ⟨hout, hl⟩ | ⟨z, hz, hid, hcand, hl⟩ | ⟨z, hz, hd, hne, hl⟩
    · rw [hl]
      dsimp only
      split
      · rename_i hsize
        refine ⟨h.stay hi id trivial, List.prefix_rfl, fun error he => ?_⟩
        cases he
        exact .inr (.inr (.inl ⟨rfl, hsize⟩))
      · rename_i hsize
        exact ⟨h.stay hi id (Nat.le_of_not_lt hsize), List.prefix_rfl, fun _ he => by cases he⟩
    · rw [hl]
      exact ⟨h.stay hi id ⟨hz, hid, hcand⟩, List.prefix_rfl, fun _ he => by cases he⟩
    · rw [hl]
      refine ⟨h.stay hi id trivial, List.prefix_rfl, fun error he => ?_⟩
      cases he
      exact .inr (.inl ⟨rfl, z, hz, hd, hne⟩)
  | checked =>
    simp only [Store.advance]
    split
    · exact ⟨h.stay hi id hok, List.prefix_rfl, fun _ he => by cases he⟩
    · rename_i hguard
      have hfree : y.store.guard = none := by simpa using hguard
      rcases @writeQuotaGuard_cases ι γ β C L y.store i h.files (h.free hfree) x admitted with hq | ⟨error, hq, hcause⟩
      · rw [hq]
        exact ⟨h.hold hi (.inl hfree) rfl trivial ⟨h.files.files, h.files.once, h.files.bound⟩ List.prefix_rfl
          ⟨hok, rfl, h.free hfree⟩, List.prefix_rfl, fun _ he => by cases he⟩
      · rw [hq]
        refine ⟨h.stay hi id trivial, List.prefix_rfl, fun error' he => ?_⟩
        cases he
        exact .inr hcause
  | guarded =>
    obtain ⟨hsize, hguard, htemp⟩ := hok
    have hfiles (s' : Store ι γ β) (ha : s'.artifacts = y.store.artifacts) (hl : s'.linked = y.store.linked) : s'.Files C :=
      ⟨by rw [ha, hl]; exact h.files.files, by rw [hl]; exact h.files.once, by rw [hl]; exact h.files.bound⟩
    simp only [Store.advance]
    rcases hload with ⟨hout, hl⟩ | ⟨z, hz, hid, hcand, hl⟩ | ⟨z, hz, hd, hne, hl⟩
    · rw [hl]
      refine ⟨h.hold hi (.inr hguard) hguard trivial (hfiles _ rfl rfl) List.prefix_rfl ⟨hsize, hguard, ?_, hout⟩,
        List.prefix_rfl, fun _ he => by cases he⟩
      exact ⟨⟨[], true⟩, by rw [htemp]; rfl⟩
    · rw [hl]
      exact ⟨h.leave hguard rfl htemp (hfiles _ rfl rfl) List.prefix_rfl ⟨hz, hid, hcand⟩, List.prefix_rfl, fun _ he => by cases he⟩
    · rw [hl]
      refine ⟨h.leave hguard rfl htemp (hfiles _ rfl rfl) List.prefix_rfl trivial, List.prefix_rfl, fun error he => ?_⟩
      cases he
      exact .inr (.inl ⟨rfl, z, hz, hd, hne⟩)
  | temporary =>
    obtain ⟨hsize, hguard, ⟨f, htemp⟩, hout⟩ := hok
    refine ⟨h.hold hi (.inr hguard) hguard trivial ⟨h.files.files, h.files.once, h.files.bound⟩ List.prefix_rfl
      ⟨hsize, hguard, ?_, hout⟩, List.prefix_rfl, fun _ he => by cases he⟩
    simp [Store.advance, htemp, PyList.insert]
  | written =>
    obtain ⟨hsize, hguard, htemp, hout⟩ := hok
    have hget : PyList.get? y.store.artifacts (C.canonicalSha256 x.identity) = none := by
      rw [h.files.files]
      exact get?_not_linked hout
    have htget : PyList.get? y.store.temporaries i = some ⟨C.canonicalBytes x, false⟩ := by
      simp [htemp, PyList.get?]
    simp only [Store.advance, hget, htget]
    refine ⟨h.hold hi (.inr hguard) hguard trivial (h.files.link hsize hout) (List.prefix_append ..)
      ⟨hguard, ⟨_, htemp⟩, rfl, by simp⟩, List.prefix_append .., fun _ he => by cases he⟩
  | closing outcome =>
    obtain ⟨hguard, ⟨f, htemp⟩, rfl, hx⟩ := hok
    refine ⟨h.leave hguard rfl ?_ ⟨h.files.files, h.files.once, h.files.bound⟩ List.prefix_rfl ⟨hx, rfl, rfl⟩,
      List.prefix_rfl, fun _ he => by cases he⟩
    simp [Store.advance, htemp]
  | returned z => exact ⟨h.stay hi id hok, List.prefix_rfl, fun _ he => by cases he⟩
  | raised error =>
    refine ⟨h.stay hi id trivial, List.prefix_rfl, fun error' he => ?_⟩
    exact .inl he
  | killed => exact ⟨h.stay hi id trivial, List.prefix_rfl, fun _ he => by cases he⟩

theorem Inv.keeps {e : Event ι γ β} (h : Inv C L (step C L y e)) (hlinked : y.store.linked <+: (step C L y e).store.linked)
    (hcause : ∀ (i : Nat) x error, (step C L y e).publishers[i]? = some (x, .raised error) →
      y.publishers[i]? = some (x, .raised error) ∨ Cause C L y.store e x error) : Keeps C L y e (step C L y e) :=
  ⟨hlinked, h.sound, hcause⟩

theorem Inv.publish (h : Inv C L y) (x : Artifact ι γ β) :
    Inv C L (step C L y (.publish x)) ∧ Keeps C L y (.publish x) (step C L y (.publish x)) := by
  have hinv : Inv C L (step C L y (.publish x)) := by
    refine ⟨h.files, h.free, fun j hj => ?_, fun j w q hj => ?_⟩
    · obtain ⟨w, q, hw, hbusy⟩ := h.owner j hj
      exact ⟨w, q, by rw [step, List.getElem?_append_left (List.getElem?_eq_some_iff.1 hw).1, hw], hbusy⟩
    · rcases Nat.lt_or_ge j y.publishers.length with hlt | hge
      · rw [step, List.getElem?_append_left hlt] at hj
        exact h.phases j w q hj
      · rw [step, List.getElem?_append_right hge] at hj
        obtain rfl : q = .called := by
          have hmem := List.mem_of_getElem? hj
          rw [List.mem_singleton] at hmem
          exact (Prod.mk.inj hmem).2
        exact trivial
  refine ⟨hinv, hinv.keeps List.prefix_rfl fun j w error hj => ?_⟩
  rcases Nat.lt_or_ge j y.publishers.length with hlt | hge
  · rw [step, List.getElem?_append_left hlt] at hj
    exact .inl hj
  · rw [step, List.getElem?_append_right hge] at hj
    have hmem := List.mem_of_getElem? hj
    rw [List.mem_singleton] at hmem
    cases (Prod.mk.inj hmem).2

theorem Inv.advance (h : Inv C L y) (i : Nat) (admitted : Bool) :
    Inv C L (step C L y (.advance i admitted)) ∧ Keeps C L y (.advance i admitted) (step C L y (.advance i admitted)) := by
  cases hi : y.publishers[i]? with
  | none =>
    have hstep : step C L y (.advance i admitted) = y := by simp only [step, hi]
    rw [hstep]
    exact ⟨h, List.prefix_rfl, h.sound, fun _ _ _ hj => .inl hj⟩
  | some p =>
    obtain ⟨x, phase⟩ := p
    have hspec := advance_spec h hi admitted
    have hstep : step C L y (.advance i admitted) = ⟨(y.store.advance C L i x admitted phase).1,
        y.publishers.set i (x, (y.store.advance C L i x admitted phase).2)⟩ := by simp only [step, hi]
    rw [hstep]
    refine ⟨hspec.inv, hspec.linked, hspec.inv.sound, fun j w error hj => ?_⟩
    by_cases hij : j = i
    · subst hij
      rw [List.getElem?_set_self (List.getElem?_eq_some_iff.1 hi).1] at hj
      obtain ⟨rfl, he⟩ := Prod.mk.inj (Option.some.inj hj)
      rcases hspec.cause error he with hsame | hcause
      · rw [hi, hsame]
        exact .inl rfl
      · exact .inr hcause
    · rw [List.getElem?_set_ne (Ne.symm hij)] at hj
      exact .inl hj

omit [DecidableEq ι] [DecidableEq γ] in
/-- A temporary is the one of the publisher that has the lock. -/
theorem Inv.temporary_owner (h : Inv C L y) {f : File} (hf : (i, f) ∈ y.store.temporaries) : y.store.guard = some i := by
  cases hguard : y.store.guard with
  | none =>
    rw [h.free hguard] at hf
    cases hf
  | some k =>
    obtain ⟨w, q, hw, hbusy⟩ := h.owner k hguard
    have hok := h.phases k w q hw
    have hone (g : File) (htemp : y.store.temporaries = [(k, g)]) : i = k := by
      rw [htemp, List.mem_singleton] at hf
      exact (Prod.mk.inj hf).1
    cases q with
    | guarded =>
      rw [hok.2.2] at hf
      cases hf
    | temporary =>
      obtain ⟨-, -, ⟨g, hg⟩, -⟩ := hok
      rw [hone g hg]
    | written => rw [hone _ hok.2.2.1]
    | closing outcome =>
      obtain ⟨-, ⟨g, hg⟩, -⟩ := hok
      rw [hone g hg]
    | called | checked | returned | raised | killed => exact hbusy.elim

theorem Inv.kill (h : Inv C L y) (hclean : Cleans y (.kill i)) :
    Inv C L (step C L y (.kill i)) ∧ Keeps C L y (.kill i) (step C L y (.kill i)) := by
  cases hi : y.publishers[i]? with
  | none =>
    have hstep : step C L y (.kill i) = y := by simp only [step, hi]
    rw [hstep]
    exact ⟨h, List.prefix_rfl, h.sound, fun _ _ _ hj => .inl hj⟩
  | some p =>
    obtain ⟨x, phase⟩ := p
    have hstep : step C L y (.kill i) = ⟨{ y.store with
        guard := if y.store.guard = some i then none else y.store.guard }, y.publishers.set i (x, .killed)⟩ := by
      simp only [step, hi]
    rw [hstep]
    have hinv : Inv C L ⟨{ y.store with guard := if y.store.guard = some i then none else y.store.guard },
        y.publishers.set i (x, .killed)⟩ := by
      by_cases hguard : y.store.guard = some i
      · rw [if_pos hguard]
        have htemp : y.store.temporaries = [] := by
          refine List.eq_nil_iff_forall_not_mem.2 fun t ht => ?_
          have howner := h.temporary_owner (i := t.1) (f := t.2) ht
          rw [hguard, Option.some.injEq] at howner
          exact hclean t.2 (by rw [howner]; exact ht)
        exact h.leave hguard rfl htemp ⟨h.files.files, h.files.once, h.files.bound⟩ List.prefix_rfl trivial
      · rw [if_neg hguard]
        refine h.stay hi (fun hbusy => ?_) trivial
        have hok := h.phases i x phase hi
        cases phase with
        | guarded => exact hguard hok.2.1
        | temporary => exact hguard hok.2.1
        | written => exact hguard hok.2.1
        | closing outcome => exact hguard hok.1
        | called | checked | returned | raised | killed => exact hbusy
    refine ⟨hinv, List.prefix_rfl, hinv.sound, fun j w error hj => ?_⟩
    by_cases hij : j = i
    · subst hij
      rw [List.getElem?_set_self (List.getElem?_eq_some_iff.1 hi).1] at hj
      cases hj
    · rw [List.getElem?_set_ne (Ne.symm hij)] at hj
      exact .inl hj

/-- A temporary that is left makes the directory unsafe. -/
theorem Keeps.cleans (h : Inv C L y) (hk : Keeps C L y (.kill i) (step C L y (.kill i))) : Cleans y (.kill i) := by
  intro f hf
  have hguard := h.temporary_owner hf
  obtain ⟨x, phase, hi, -⟩ := h.owner i hguard
  have hne : y.store.temporaries ≠ [] := List.ne_nil_of_mem hf
  have hcount := hk.sound.writable (by simp only [step, hi, hguard, if_true])
  simp only [step, hi, Store.artifactCount, if_pos hne] at hcount
  cases hcount

omit [DecidableEq ι] [DecidableEq γ] in
theorem inv_fresh : Inv C L (fresh : System ι γ β) :=
  ⟨⟨rfl, List.nodup_nil, nofun⟩, fun _ => rfl, nofun, nofun⟩

end

/-- In a run from an empty directory the store is create-once and stays writable after every step exactly where no
publisher is killed before it has unlinked its temporary. -/
theorem shadow_store_iff {ι γ β : Type} [DecidableEq ι] [DecidableEq γ] (C : Codec ι γ β) (L : Limits)
    (events : List (Event ι γ β)) :
    Along (step C L) (Keeps C L) fresh events ↔ Along (step C L) (fun y e _ => Cleans y e) fresh events := by
  refine Along.iff_of_inv (I := Inv C L) (fun y e h => ?_) inv_fresh events
  cases e with
  | publish x => exact ⟨iff_of_true (h.publish x).2 trivial, fun _ => (h.publish x).1⟩
  | advance i admitted => exact ⟨iff_of_true (h.advance i admitted).2 trivial, fun _ => (h.advance i admitted).1⟩
  | kill i => exact ⟨⟨fun hk => hk.cleans h, fun hc => (h.kill hc).2⟩, fun hc => (h.kill hc).1⟩

/-- Artifacts of numbers, each its own JSON. -/
def bytePair : Codec UInt8 Unit UInt8 where
  canonicalSha256 n := [Char.ofNat n.toNat]
  canonicalBytes x := [x.identity, x.rest]
  validateJson
    | [n, r] => some ⟨n, (), r⟩
    | _ => none
  canonicalBytes_ne_nil _ := nofun
  validateJson_canonicalBytes _ := rfl

def roomy : Limits := ⟨10, 100, 10, by decide, by decide⟩

/-- The first publisher is killed before it has written its temporary, and another one comes. -/
def killedEarly : List (Event UInt8 Unit UInt8) :=
  [.publish ⟨1, (), 1⟩, .advance 0 true, .advance 0 true, .advance 0 true, .kill 0, .publish ⟨2, (), 2⟩, .advance 1 true,
    .advance 1 true]

/-- Its publish is refused, with all quotas met. -/
theorem leftover_blocks : let y := runFrom (step bytePair roomy) fresh killedEarly
    y.publishers[1]? = some (⟨2, (), 2⟩, .raised unsafeEntry) ∧ y.store.linked = [] ∧ y.store.usage = 0 ∧
      ¬ Along (step bytePair roomy) (Keeps bytePair roomy) fresh killedEarly := by
  refine ⟨rfl, rfl, rfl, fun h => ?_⟩
  have hcount := h.2.2.2.2.1.sound.writable rfl
  cases hcount

end CardRag.Shadow
