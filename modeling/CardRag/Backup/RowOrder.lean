import CardRag.Backup.Complete
import CardRag.Lib.FirstCome

/-! # The order of the ledger rows

`scoped_backup_scope` rebinds the tagged paths one after the other. The first binding of a path wins, and a tag
whose own path is bound by then is skipped. The scope does not depend on the order in which the rows of the
ledger are read exactly where tags that bind a path agree on it, and no tags that come first can leave a path
without a binding or a document without its mark (`scope_order_free_iff`). -/

namespace CardRag.Backup

open Publish (Path Bytes)
open Gc (objectPath cacheRoot manifestName readyName)

/-! ### What a tag rebinds -/

/-- The bundle root and the pair that the local cache gives for a tag. -/
structure Offer where
  root : Path
  manifest : Str × Nat
  ready : Str × Nat
deriving DecidableEq

namespace Offer

variable (o : Offer)

def binds : List (Path × (Str × Nat)) := [(o.root ++ [manifestName], o.manifest), (o.root ++ [readyName], o.ready)]

def paths : List Path := o.binds.map (·.1)

/-- The bindings of an offer, and the mark at its document. -/
def applyTo (c : Scope) (doc : SealDoc) : Scope :=
  ((c.bind (o.root ++ [manifestName]) o.manifest.1 (some o.manifest.2)).bind (o.root ++ [readyName]) o.ready.1
    (some o.ready.2)).markBound doc.documentId

end Offer

section
variable (d : Disk) (s : State) (root : Str)

/-- What phase 1 rebinds for a tagged path that is not bound yet. -/
def offer (t : SealDoc × Path) : Option Offer :=
  let info := PyList.get? s.docInfo t.2
  if isStale t.1 info = true ∨ (cacheRoot "native".toList).isPrefixOf t.2 = false then none
  else match (info.map (·.reuseKey)).or (keyOfPath t.2) with
    | none => none
    | some key =>
      if key = [] ∨ (info.all fun i => i.kind = [] ∨ i.kind = "native".toList) = false then none
      else (d.cachePair key t.1).map fun pair =>
        ⟨bundleRoot key (s.resolve root key ((t.1.ocr.map (·.1)).getD []) pair.1.1 t.1.ocrReuseKey.isNone
          (d.corroborates key t.1)), pair.1, pair.2⟩

/-- The selected documents and the tagged paths. -/
def tagged (docs : List SealDoc) : List (SealDoc × Path) :=
  s.docMap.filterMap fun t => (selectedDoc docs t.2).map fun doc => (doc, t.1)

/-- What the documents of the seal and the obligations of the run bind. -/
def scopeOfSeal (docs : List SealDoc) : Scope :=
  (s.owned.filter (·.1.1 = d.runId)).foldl (scopeOwned d docs) (docs.foldl (scopeDocument d s root) ⟨[], [], []⟩)

/-- The paths a tag is excluded from the scope for, as shared cache and as past objects. -/
structure Exclusions where
  sharedCache : List Path
  staleObject : List Path

/-- What phase 2 excludes for a tagged path. -/
def excludeTag (c : Scope) (x : Exclusions) (doc : SealDoc) (p : Path) : Exclusions :=
  let shared : Exclusions := { x with sharedCache := p :: x.sharedCache }
  if p ∈ c.paths then x
  else if isStale doc (PyList.get? s.docInfo p) = true then
    if (["v1".toList, "ocr-cache".toList] : Path).isPrefixOf p then shared
    else { x with staleObject := p :: x.staleObject }
  else if (["v1".toList, "ocr-cache".toList] : Path).isPrefixOf p then
    if p ∈ s.pendingPaths then x
    else if c.isBound doc.documentId then shared
    else if isNative doc then x else shared
  else if doc.ocrCacheKind = some "adopted".toList ∨ doc.ocrCacheKind = some "content".toList then shared
  else x

/-- `scoped_backup_scope` with its exclusion counts. -/
def scopeWithCounts (issuers : List Str) : (List Path × Bindings) × Nat × Nat :=
  match d.documents with
  | none => (([], []), 0, 0)
  | some documents =>
    let docs := documents.filter (·.issuer ∈ issuers)
    let c := (tagged s docs).foldl (fun c t => rebind d s root c t.1 t.2) (scopeOfSeal d s root docs)
    let (c, x) := (tagged s docs).foldl (fun (c, x) t => (resolveTag s c t.1 t.2, excludeTag s c x t.1 t.2))
      (c, ⟨[], []⟩)
    ((c.paths, c.expected), (x.sharedCache.dedup.filter (· ∉ c.paths)).length,
      (x.staleObject.dedup.filter (· ∉ c.paths)).length)

end

/-- The tables hold the same rows, in some order. -/
structure SameRows (s s' : State) : Prop where
  docMap : s'.docMap.Perm s.docMap
  docInfo : s'.docInfo.Perm s.docInfo
  owned : s'.owned.Perm s.owned
  receipts : s'.receipts.Perm s.receipts
  pending : s'.pending.Perm s.pending

/-- `key` is the primary key of `backup_meta`. -/
structure Keyed (s : State) : Prop where
  docMap : (s.docMap.map (·.1)).Nodup
  docInfo : (s.docInfo.map (·.1)).Nodup

/-- The same paths, bindings and counts. -/
structure SameScope (r r' : (List Path × Bindings) × Nat × Nat) : Prop where
  paths : ∀ p, p ∈ r'.1.1 ↔ p ∈ r.1.1
  expected : ∀ p, PyList.get? r'.1.2 p = PyList.get? r.1.2 p
  counts : r'.2 = r.2

/-- A verified digest over what is bound already. -/
def rebound (previous : Option (Str × Option Nat)) (v : Str × Nat) : Option (Str × Option Nat) :=
  if previous.all fun previous => previous.2.isNone then some (v.1, some v.2) else previous

/-! ### The claims of the tags -/

/-- A tag with what it rebinds. -/
abbrev Claimant := (SealDoc × Path) × Offer

namespace Claimant

/-- The tagged path. -/
def home (w : Claimant) : Path := w.1.2

def claims (w : Claimant) : List Path := w.2.paths

/-- It marks the document of the tag. -/
def Marks (w : Claimant) (t : SealDoc × Path) : Prop :=
  ∃ id, id ≠ [] ∧ w.1.1.documentId = some id ∧ t.1.documentId = some id

end Claimant

section
variable (d : Disk) (s : State) (root : Str)

/-- The tag rebinds, if no other tag has bound its path. -/
def claimant (c₁ : Scope) (t : SealDoc × Path) : Option Claimant :=
  if t.2 ∈ c₁.expected.map (·.1) then none else (offer d s root t).map fun o => (t, o)

def claimants (c₁ : Scope) (xs : List (SealDoc × Path)) : List Claimant := xs.filterMap (claimant d s root c₁)

/-- A tag of the shared cache that stays visible where its document has no mark. -/
def reliesOnMark (t : SealDoc × Path) : Bool :=
  !isStale t.1 (PyList.get? s.docInfo t.2) && (["v1".toList, "ocr-cache".toList] : Path).isPrefixOf t.2 &&
    !decide (t.2 ∈ s.pendingPaths) && isNative t.1

open FirstCome (Chain Starved)

/-- Whoever comes first, each path gets the binding that it gets from any of the tags that claim it, and each document
whose tags rely on its mark is marked. -/
structure Unrivalled (c₁ : Scope) (xs : List (SealDoc × Path)) : Prop where
  agree : ∀ w ∈ claimants d s root c₁ xs, ∀ w' ∈ claimants d s root c₁ xs, ∀ b ∈ w.2.binds, ∀ b' ∈ w'.2.binds,
    b.1 = b'.1 → rebound (PyList.get? c₁.expected b.1) b.2 = rebound (PyList.get? c₁.expected b.1) b'.2
  served : ∀ w ∈ claimants d s root c₁ xs, ∀ b ∈ w.2.binds,
    rebound (PyList.get? c₁.expected b.1) b.2 ≠ PyList.get? c₁.expected b.1 →
      ∀ us, us.Subperm (claimants d s root c₁ xs) → Chain Claimant.home Claimant.claims us →
        (∀ u ∈ us, b.1 ∉ u.claims) →
          ∃ v ∈ claimants d s root c₁ xs, b.1 ∈ v.claims ∧ ¬ Starved Claimant.home Claimant.claims us v
  marked : ∀ t ∈ xs, reliesOnMark s t = true → t.2 ∉ c₁.paths → (∀ w ∈ claimants d s root c₁ xs, t.2 ∉ w.claims) →
    c₁.isBound t.1.documentId = false → ∀ w ∈ claimants d s root c₁ xs, w.Marks t →
      ∀ us, us.Subperm (claimants d s root c₁ xs) → Chain Claimant.home Claimant.claims us → (∀ u ∈ us, ¬ u.Marks t) →
        ∃ v ∈ claimants d s root c₁ xs, v.Marks t ∧ ¬ Starved Claimant.home Claimant.claims us v

end

/-! ### One binding -/

section
variable {d : Disk} {s s' : State} {root : Str} {c c₁ : Scope} {t t' : SealDoc × Path} {o o' : Offer} {p q : Path}
  {xs : List (SealDoc × Path)}

theorem rebound_rebound (previous : Option (Str × Option Nat)) (v w : Str × Nat) :
    rebound (rebound previous v) w = rebound previous v := by
  unfold rebound
  split <;> simp_all

theorem rebound_isSome (previous : Option (Str × Option Nat)) (v : Str × Nat) : (rebound previous v).isSome = true := by
  unfold rebound
  cases previous with
  | none => rfl
  | some v' => split <;> rfl

theorem get?_bind (sha : Str) (n : Nat) : PyList.get? (c.bind p sha (some n)).expected q =
    if p = q then rebound (PyList.get? c.expected q) (sha, n) else PyList.get? c.expected q := by
  have hall : ((PyList.get? c.expected p).all fun previous => previous.2.isNone && (some n).isSome) =
      (PyList.get? c.expected p).all fun previous => previous.2.isNone := by
    congr 1
    funext previous
    rw [Option.isSome_some, Bool.and_true]
  simp only [Scope.bind]
  rw [hall]
  unfold rebound
  by_cases hpq : p = q
  · subst hpq
    rw [if_pos rfl]
    split
    · rw [PyList.get?_insert, if_pos rfl]
    · rfl
  · rw [if_neg hpq]
    split
    · rw [PyList.get?_insert, if_neg hpq]
    · rfl

theorem mem_keys_iff : p ∈ c.expected.map (·.1) ↔ (PyList.get? c.expected p).isSome = true := by
  constructor
  · intro h
    obtain ⟨e, he, rfl⟩ := List.mem_map.1 h
    rw [PyList.get?, Option.isSome_map, List.find?_isSome]
    exact ⟨e, he, by simp⟩
  · intro h
    obtain ⟨v, hv⟩ := Option.isSome_iff_exists.1 h
    exact List.mem_map_of_mem (PyList.mem_of_get? hv)

theorem names_ne (r r' : Path) : r ++ [manifestName] ≠ r' ++ [readyName] := by
  intro h
  have := (List.append_inj_right' h rfl)
  exact absurd this (by decide)

theorem get?_applyTo_of_mem {b : Path × (Str × Nat)} (hb : b ∈ o.binds) (doc : SealDoc) :
    PyList.get? (o.applyTo c doc).expected b.1 = rebound (PyList.get? c.expected b.1) b.2 := by
  unfold Offer.applyTo Scope.markBound
  dsimp only
  rw [get?_bind, get?_bind]
  unfold Offer.binds at hb
  rcases List.mem_cons.1 hb with rfl | hb
  · rw [if_neg (names_ne _ _).symm, if_pos rfl]
  · rw [List.mem_singleton.1 hb, if_pos rfl, if_neg (names_ne _ _)]

theorem get?_applyTo_of_not_mem (hq : q ∉ o.paths) (doc : SealDoc) :
    PyList.get? (o.applyTo c doc).expected q = PyList.get? c.expected q := by
  unfold Offer.paths Offer.binds at hq
  simp only [List.map_cons, List.map_nil, List.mem_cons, List.not_mem_nil, or_false, not_or] at hq
  unfold Offer.applyTo Scope.markBound
  dsimp only
  rw [get?_bind, get?_bind, if_neg fun h => hq.2 h.symm, if_neg fun h => hq.1 h.symm]

theorem mem_paths_applyTo (doc : SealDoc) : q ∈ (o.applyTo c doc).paths ↔ q ∈ o.paths ∨ q ∈ c.paths := by
  unfold Offer.applyTo Scope.markBound Scope.bind Offer.paths Offer.binds
  simp only [List.mem_cons, List.map_cons, List.map_nil, List.not_mem_nil, or_false]
  tauto

theorem mem_bound_applyTo (doc : SealDoc) {id : Str} :
    id ∈ (o.applyTo c doc).bound ↔ (doc.documentId = some id ∧ id ≠ []) ∨ id ∈ c.bound := by
  unfold Offer.applyTo Scope.markBound Scope.bind
  simp

theorem rebind_eq : rebind d s root c t.1 t.2 =
    if t.2 ∈ c.expected.map (·.1) then c else match offer d s root t with
      | none => c
      | some o => o.applyTo c t.1 := by
  unfold rebind offer
  dsimp only
  by_cases hmem : t.2 ∈ c.expected.map (·.1)
  · rw [if_pos (.inr (.inl hmem)), if_pos hmem]
  · rw [if_neg hmem]
    by_cases hst : isStale t.1 (PyList.get? s.docInfo t.2) = true ∨ (cacheRoot "native".toList).isPrefixOf t.2 = false
    · rw [if_pos (hst.imp_right .inr), if_pos hst]
    · rw [if_neg fun h => hst (h.imp_right fun h => h.resolve_left hmem), if_neg hst]
      cases ((PyList.get? s.docInfo t.2).map (·.reuseKey)).or (keyOfPath t.2) with
      | none => rfl
      | some key =>
        dsimp only
        split
        · rfl
        · cases d.cachePair key t.1 with
          | none => rfl
          | some pair => rfl

/-! ### Phase 1 -/

def Claimant.apply (c : Scope) (w : Claimant) : Scope := w.2.applyTo c w.1.1

section
variable {ws us : List Claimant} {w : Claimant}

theorem mem_keys_foldl : q ∈ (us.foldl Claimant.apply c).expected.map (·.1) ↔
    q ∈ c.expected.map (·.1) ∨ ∃ u ∈ us, q ∈ u.claims := by
  induction us generalizing c with
  | nil => simp
  | cons u us ih =>
    rw [List.foldl_cons, ih, List.exists_mem_cons_iff, ← or_assoc]
    refine or_congr_left ?_
    rw [mem_keys_iff, mem_keys_iff]
    by_cases hq : q ∈ u.claims
    · obtain ⟨b, hb, rfl⟩ := List.mem_map.1 hq
      rw [Claimant.apply, get?_applyTo_of_mem hb]
      exact iff_of_true (rebound_isSome _ _) (.inr hq)
    · rw [Claimant.apply, get?_applyTo_of_not_mem hq, or_iff_left hq]

theorem mem_paths_foldl : q ∈ (us.foldl Claimant.apply c).paths ↔ q ∈ c.paths ∨ ∃ u ∈ us, q ∈ u.claims := by
  induction us generalizing c with
  | nil => simp
  | cons u us ih =>
    rw [List.foldl_cons, ih, List.exists_mem_cons_iff, ← or_assoc, Claimant.apply, mem_paths_applyTo]
    exact or_congr_left or_comm

theorem mem_bound_foldl {id : Str} : id ∈ (us.foldl Claimant.apply c).bound ↔
    id ∈ c.bound ∨ ∃ u ∈ us, u.1.1.documentId = some id ∧ id ≠ [] := by
  induction us generalizing c with
  | nil => simp
  | cons u us ih =>
    rw [List.foldl_cons, ih, List.exists_mem_cons_iff, ← or_assoc, Claimant.apply, mem_bound_applyTo]
    exact or_congr_left or_comm

theorem isBound_foldl {t : SealDoc × Path} : (us.foldl Claimant.apply c).isBound t.1.documentId = true ↔
    c.isBound t.1.documentId = true ∨ ∃ u ∈ us, u.Marks t := by
  unfold Scope.isBound Claimant.Marks
  cases t.1.documentId with
  | none => simp
  | some id =>
    simp only [Option.any_some, decide_eq_true_eq, mem_bound_foldl, Option.some.injEq]
    refine or_congr_right ⟨fun ⟨u, hu, hid, hne⟩ => ⟨u, hu, id, hne, hid, rfl⟩, ?_⟩
    rintro ⟨u, hu, _, hne, hid, rfl⟩
    exact ⟨u, hu, hid, hne⟩

variable (us c q) in
/-- The first who claims a path binds it. -/
theorem get?_foldl : (∃ u ∈ us, ∃ b ∈ u.2.binds, b.1 = q ∧
      PyList.get? (us.foldl Claimant.apply c).expected q = rebound (PyList.get? c.expected q) b.2) ∨
    ((∀ u ∈ us, q ∉ u.claims) ∧ PyList.get? (us.foldl Claimant.apply c).expected q = PyList.get? c.expected q) := by
  induction us generalizing c with
  | nil => exact .inr ⟨by simp, rfl⟩
  | cons u us ih =>
    rw [List.foldl_cons]
    by_cases hq : q ∈ u.claims
    · obtain ⟨b, hb, rfl⟩ := List.mem_map.1 hq
      refine .inl ⟨u, List.mem_cons_self, b, hb, rfl, ?_⟩
      have hhead : PyList.get? (u.apply c).expected b.1 = rebound (PyList.get? c.expected b.1) b.2 :=
        get?_applyTo_of_mem hb _
      rcases ih (u.apply c) with ⟨_, _, b', _, _, hvalue⟩ | ⟨-, hvalue⟩
      · rw [hvalue, hhead, rebound_rebound]
      · rw [hvalue, hhead]
    · have hhead : PyList.get? (u.apply c).expected q = PyList.get? c.expected q := get?_applyTo_of_not_mem hq _
      rcases ih (u.apply c) with ⟨v, hv, b, hb, hbq, hvalue⟩ | ⟨hnone, hvalue⟩
      · exact .inl ⟨v, List.mem_cons_of_mem _ hv, b, hb, hbq, hhead ▸ hvalue⟩
      · refine .inr ⟨fun v hv => ?_, hvalue.trans hhead⟩
        rcases List.mem_cons.1 hv with rfl | hv
        · exact hq
        · exact hnone v hv

theorem get?_foldl_first {b : Path × (Str × Nat)} (hb : b ∈ w.2.binds) :
    PyList.get? ((w :: us).foldl Claimant.apply c).expected b.1 = rebound (PyList.get? c.expected b.1) b.2 := by
  have hhead : PyList.get? (w.apply c).expected b.1 = rebound (PyList.get? c.expected b.1) b.2 :=
    get?_applyTo_of_mem hb _
  rw [List.foldl_cons]
  rcases get?_foldl (w.apply c) b.1 us with ⟨_, _, b', _, _, hvalue⟩ | ⟨-, hvalue⟩
  · rw [hvalue, hhead, rebound_rebound]
  · rw [hvalue, hhead]

/-- Who is served, of the tags in this order. -/
abbrev servedOf (ws : List Claimant) : List Claimant := FirstCome.run Claimant.home Claimant.claims ws

/-- Phase 1 serves the tags in their order. -/
theorem phase1_eq : xs.foldl (fun c t => rebind d s root c t.1 t.2) c₁ =
    (servedOf (claimants d s root c₁ xs)).foldl Claimant.apply c₁ := by
  induction xs using List.reverseRecOn with
  | nil => rfl
  | append_singleton xs t ih =>
    have hserved : servedOf (claimants d s root c₁ (xs ++ [t])) = (claimant d s root c₁ t).toList.foldl
        (FirstCome.serve Claimant.home Claimant.claims) (servedOf (claimants d s root c₁ xs)) := by
      rw [servedOf, FirstCome.run, claimants, List.filterMap_append, List.foldl_append]
      congr 1
    rw [List.foldl_append, List.foldl_cons, List.foldl_nil, ih, rebind_eq, hserved]
    unfold claimant
    by_cases hkey : t.2 ∈ c₁.expected.map (·.1)
    · rw [if_pos hkey, if_pos (mem_keys_foldl.2 (.inl hkey))]
      rfl
    · rw [if_neg hkey]
      cases hoffer : offer d s root t with
      | none =>
        dsimp only [Option.map_none]
        split <;> rfl
      | some o =>
        dsimp only [Option.map_some]
        rw [Option.toList_some, List.foldl_cons, List.foldl_nil, FirstCome.serve]
        by_cases hstarved : FirstCome.Starved Claimant.home Claimant.claims (servedOf (claimants d s root c₁ xs)) (t, o)
        · have hmem : t.2 ∈ ((servedOf (claimants d s root c₁ xs)).foldl Claimant.apply c₁).expected.map (·.1) :=
            mem_keys_foldl.2 (.inr hstarved)
          rw [if_pos hmem, if_pos hstarved]
        · rw [if_neg fun hmem => (mem_keys_foldl.1 hmem).elim hkey hstarved, if_neg hstarved, List.foldl_append]
          rfl

end

/-! ### Phase 2 -/

/-- A tag that stays visible without evidence. -/
def keepsTag (s : State) (c : Scope) (t : SealDoc × Path) : Bool :=
  !isStale t.1 (PyList.get? s.docInfo t.2) &&
    if (["v1".toList, "ocr-cache".toList] : Path).isPrefixOf t.2 then
      decide (t.2 ∈ s.pendingPaths) || (!c.isBound t.1.documentId && isNative t.1)
    else !decide (t.1.ocrCacheKind = some "adopted".toList ∨ t.1.ocrCacheKind = some "content".toList)

/-- A tag of a shared cache artifact. -/
def sharesTag (s : State) (c : Scope) (t : SealDoc × Path) : Bool :=
  if (["v1".toList, "ocr-cache".toList] : Path).isPrefixOf t.2 then
    isStale t.1 (PyList.get? s.docInfo t.2) ||
      (!decide (t.2 ∈ s.pendingPaths) && (c.isBound t.1.documentId || !isNative t.1))
  else !isStale t.1 (PyList.get? s.docInfo t.2) &&
    decide (t.1.ocrCacheKind = some "adopted".toList ∨ t.1.ocrCacheKind = some "content".toList)

/-- A tag of a past object. -/
def pastTag (s : State) (t : SealDoc × Path) : Bool :=
  !(["v1".toList, "ocr-cache".toList] : Path).isPrefixOf t.2 && isStale t.1 (PyList.get? s.docInfo t.2)

/-- The branches of phase 2, apart from what they test. -/
theorem branches_eq {α : Type} (P K A : Prop) [Decidable P] [Decidable K] [Decidable A]
    (stale cache bound native : Bool) (x y : α) :
    (if P ∨ stale = true then x
      else if cache = true then if K then y else if bound = true then x else if native = true then y else x
      else if A then x else y) =
    if P then x
    else if (!stale && if cache = true then decide K || (!bound && native) else !decide A) = true then y else x := by
  by_cases hP : P
  · rw [if_pos (.inl hP), if_pos hP]
  · cases stale with
    | true => simp [hP]
    | false =>
      cases cache with
      | true => by_cases hK : K <;> cases bound <;> cases native <;> simp [hP, hK]
      | false => by_cases hA : A <;> simp [hP, hA]

theorem resolveTag_eq : resolveTag s c t.1 t.2 =
    if t.2 ∈ c.paths then c else if keepsTag s c t then c.add t.2 else c :=
  branches_eq _ _ _ _ _ _ _ _ _

theorem exclusions_eq (K A : Prop) [Decidable K] [Decidable A] (stale cache bound native : Bool) (x : Exclusions)
    (p : Path) :
    (if stale = true then
        if cache = true then { x with sharedCache := p :: x.sharedCache }
        else { x with staleObject := p :: x.staleObject }
      else if cache = true then
        if K then x
        else if bound = true then { x with sharedCache := p :: x.sharedCache }
        else if native = true then x else { x with sharedCache := p :: x.sharedCache }
      else if A then { x with sharedCache := p :: x.sharedCache } else x) =
    (⟨if (if cache = true then stale || (!decide K && (bound || !native)) else !stale && decide A) = true then
        p :: x.sharedCache else x.sharedCache,
      if (!cache && stale) = true then p :: x.staleObject else x.staleObject⟩ : Exclusions) := by
  cases stale with
  | true => cases cache <;> simp
  | false =>
    cases cache with
    | true => by_cases hK : K <;> cases bound <;> cases native <;> simp [hK]
    | false => by_cases hA : A <;> simp [hA]

theorem excludeTag_eq {x : Exclusions} (hp : t.2 ∉ c.paths) : excludeTag s c x t.1 t.2 =
    ⟨if sharesTag s c t then t.2 :: x.sharedCache else x.sharedCache,
      if pastTag s t then t.2 :: x.staleObject else x.staleObject⟩ := by
  unfold excludeTag
  dsimp only
  rw [if_neg hp]
  exact exclusions_eq _ _ _ _ _ _ _ _

/-- A tag of phase 2, with its exclusions. -/
def phase2 (s : State) (cx : Scope × Exclusions) (t : SealDoc × Path) : Scope × Exclusions :=
  (resolveTag s cx.1 t.1 t.2, excludeTag s cx.1 cx.2 t.1 t.2)

/-- What phase 2 has done for the tags `xs`, in whatever order. -/
structure Resolved (s : State) (c : Scope) (xs : List (SealDoc × Path)) (cx : Scope × Exclusions) : Prop where
  paths : ∀ q, q ∈ cx.1.paths ↔ q ∈ c.paths ∨ ∃ t ∈ xs, keepsTag s c t = true ∧ t.2 = q
  bound : cx.1.bound = c.bound
  expected : cx.1.expected = c.expected
  shared : ∀ q, q ∉ cx.1.paths → (q ∈ cx.2.sharedCache ↔ ∃ t ∈ xs, sharesTag s c t = true ∧ t.2 = q)
  past : ∀ q, q ∉ cx.1.paths → (q ∈ cx.2.staleObject ↔ ∃ t ∈ xs, pastTag s t = true ∧ t.2 = q)

/-- Membership after one more tag. -/
theorem exists_mem_append {P : SealDoc × Path → Prop} : (∃ t' ∈ xs ++ [t], P t') ↔ (∃ t' ∈ xs, P t') ∨ P t := by
  simp only [List.mem_append, List.mem_singleton, or_and_right, exists_or, exists_eq_left]

theorem Resolved.step {cx : Scope × Exclusions} (h : Resolved s c xs cx) : Resolved s c (xs ++ [t]) (phase2 s cx t) := by
  have hbound : ∀ id : Option Str, cx.1.isBound id = c.isBound id := fun id => by
    rw [Scope.isBound, Scope.isBound, h.bound]
  have hkeeps : keepsTag s cx.1 t = keepsTag s c t := by unfold keepsTag; rw [hbound]
  have hshares : sharesTag s cx.1 t = sharesTag s c t := by unfold sharesTag; rw [hbound]
  have hres : (phase2 s cx t).1 =
      if t.2 ∈ cx.1.paths then cx.1 else if keepsTag s c t then cx.1.add t.2 else cx.1 := by
    rw [← hkeeps]
    exact resolveTag_eq
  have hpaths : ∀ q, q ∈ (phase2 s cx t).1.paths ↔ q ∈ cx.1.paths ∨ keepsTag s c t = true ∧ t.2 = q := by
    intro q
    rw [hres]
    split
    · rename_i hmem
      exact ⟨.inl, fun hq => hq.elim id fun hq => hq.2 ▸ hmem⟩
    · split
      · rename_i hk
        rw [and_iff_right hk, Scope.add, List.mem_cons, or_comm, eq_comm (a := q)]
      · rename_i hk
        exact ⟨.inl, fun hq => hq.resolve_right fun hq => hk hq.1⟩
  have hexcl : ∀ q, q ∉ (phase2 s cx t).1.paths →
      (q ∈ (phase2 s cx t).2.sharedCache ↔ q ∈ cx.2.sharedCache ∨ sharesTag s c t = true ∧ t.2 = q) ∧
      (q ∈ (phase2 s cx t).2.staleObject ↔ q ∈ cx.2.staleObject ∨ pastTag s t = true ∧ t.2 = q) := by
    intro q hq
    have hq' : q ∉ cx.1.paths := fun h => hq ((hpaths q).2 (.inl h))
    by_cases hmem : t.2 ∈ cx.1.paths
    · have hx : (phase2 s cx t).2 = cx.2 := by
        unfold phase2 excludeTag
        exact if_pos hmem
      have hne : ¬ t.2 = q := fun h => hq' (h ▸ hmem)
      rw [hx]
      exact ⟨⟨.inl, fun h => h.resolve_right fun h => hne h.2⟩, ⟨.inl, fun h => h.resolve_right fun h => hne h.2⟩⟩
    · have hx : (phase2 s cx t).2 = ⟨if sharesTag s c t then t.2 :: cx.2.sharedCache else cx.2.sharedCache,
          if pastTag s t then t.2 :: cx.2.staleObject else cx.2.staleObject⟩ := by
        rw [← hshares]
        exact excludeTag_eq hmem
      rw [hx]
      dsimp only
      constructor
      · split
        · rename_i hk
          rw [and_iff_right hk, List.mem_cons, or_comm, eq_comm (a := q)]
        · rename_i hk
          exact ⟨.inl, fun hq => hq.resolve_right fun hq => hk hq.1⟩
      · split
        · rename_i hk
          rw [and_iff_right hk, List.mem_cons, or_comm, eq_comm (a := q)]
        · rename_i hk
          exact ⟨.inl, fun hq => hq.resolve_right fun hq => hk hq.1⟩
  refine ⟨fun q => ?_, ?_, ?_, fun q hq => ?_, fun q hq => ?_⟩
  · rw [hpaths, h.paths, exists_mem_append, or_assoc]
  · rw [hres]
    split
    · exact h.bound
    · split
      · exact h.bound
      · exact h.bound
  · rw [hres]
    split
    · exact h.expected
    · split
      · exact h.expected
      · exact h.expected
  · rw [(hexcl q hq).1, h.shared q fun h => hq ((hpaths q).2 (.inl h)), exists_mem_append]
  · rw [(hexcl q hq).2, h.past q fun h => hq ((hpaths q).2 (.inl h)), exists_mem_append]

/-- Phase 2 over all tags. -/
theorem Resolved.run (s : State) (c : Scope) (xs : List (SealDoc × Path)) :
    Resolved s c xs (xs.foldl (phase2 s) (c, ⟨[], []⟩)) := by
  induction xs using List.reverseRecOn with
  | nil => exact ⟨by simp, rfl, rfl, by simp, by simp⟩
  | append_singleton xs t ih =>
    rw [List.foldl_append, List.foldl_cons, List.foldl_nil]
    exact ih.step

/-! ### The same rows in another order -/

/-- Scopes that differ in the order of their lists only. -/
structure SameState (c c' : Scope) : Prop where
  paths : ∀ q, q ∈ c'.paths ↔ q ∈ c.paths
  bound : ∀ id, id ∈ c'.bound ↔ id ∈ c.bound
  expected : ∀ q, PyList.get? c'.expected q = PyList.get? c.expected q

theorem get?_perm {κ α : Type} [DecidableEq κ] {e e' : List (κ × α)} (h : e'.Perm e) (hn : (e.map (·.1)).Nodup)
    (k : κ) :
    PyList.get? e' k = PyList.get? e k := by
  have hn' : (e'.map (·.1)).Nodup := (h.map _).nodup_iff.2 hn
  refine Option.ext fun v => ?_
  exact (PyList.mem_iff_get? hn').symm.trans (h.mem_iff.trans (PyList.mem_iff_get? hn))

section
variable (h : SameRows s s')
include h

theorem SameRows.resolve_eq : s'.resolve = s.resolve := by
  funext root reuseKey ocrSha manifestSha generationOnly corroborated
  have hat : ∀ p, (s'.receiptsAt root p).Perm (s.receiptsAt root p) := fun p => h.receipts.filter _
  have hne : ∀ p, s'.receiptsAt root p ≠ [] ↔ s.receiptsAt root p ≠ [] := fun p => by
    rw [Ne, ← List.length_eq_zero_iff, (hat p).length_eq, List.length_eq_zero_iff]
  unfold State.resolve
  dsimp only
  simp only [hne, (hat _).any_eq]

theorem SameRows.scopeDocument_eq (docs : List SealDoc) (c : Scope) :
    docs.foldl (scopeDocument d s' root) c = docs.foldl (scopeDocument d s root) c := by
  have hvariant : ∀ b : Bundle, b.variant d.sha256 s' root = b.variant d.sha256 s root := fun b => by
    unfold Bundle.variant
    rw [h.resolve_eq]
  have hpaths : ∀ b : Bundle, b.paths d.sha256 s' root = b.paths d.sha256 s root := fun b => by
    unfold Bundle.paths Bundle.manifestPath Bundle.readyPath
    rw [hvariant]
  have hbind : bindBundle d s' root = bindBundle d s root := by
    funext c doc b
    unfold bindBundle Bundle.manifestPath Bundle.readyPath
    rw [hvariant]
  have hpair : bindPair d s' root = bindPair d s root := by
    funext c doc key generationOnly pair
    unfold bindPair
    rw [h.resolve_eq]
  have hdoc : scopeDocument d s' root = scopeDocument d s root := by
    funext c doc
    unfold scopeDocument
    simp only [hbind, hpair, hpaths]
  rw [hdoc]

theorem SameRows.mem_pendingPaths : p ∈ s'.pendingPaths ↔ p ∈ s.pendingPaths :=
  (h.pending.map _).mem_iff

theorem SameRows.mem_tagged (docs : List SealDoc) : t ∈ tagged s' docs ↔ t ∈ tagged s docs :=
  (h.docMap.filterMap _).mem_iff

end

/-- An obligation adds paths, and nothing else. -/
theorem scopeOwned_eq (docs : List SealDoc) (o : (Str × Str) × Option Owned) (c : Scope) :
    scopeOwned d docs c o = { c with paths := (scopeOwned d docs ⟨[], [], []⟩ o).paths ++ c.paths } := by
  have hadd : ∀ (ps : List Path) (c : Scope), ps.foldl Scope.add c = { c with paths := ps.reverse ++ c.paths } := by
    intro ps
    induction ps with
    | nil => exact fun c => rfl
    | cons p ps ih =>
      intro c
      rw [List.foldl_cons, ih, List.reverse_cons, List.append_assoc]
      rfl
  unfold scopeOwned
  cases o.2 with
  | none => rfl
  | some owned =>
    dsimp only
    cases selectedDoc docs owned.documentId with
    | none => rfl
    | some doc =>
      dsimp only
      split
      · split
        · rw [hadd, hadd, List.append_nil]
        · rfl
      · rfl

theorem scopeOwned_foldl (docs : List SealDoc) (os : List ((Str × Str) × Option Owned)) (c : Scope) :
    (∀ q, q ∈ (os.foldl (scopeOwned d docs) c).paths ↔
      q ∈ c.paths ∨ ∃ o ∈ os, q ∈ (scopeOwned d docs ⟨[], [], []⟩ o).paths) ∧
    (os.foldl (scopeOwned d docs) c).bound = c.bound ∧ (os.foldl (scopeOwned d docs) c).expected = c.expected := by
  induction os generalizing c with
  | nil => exact ⟨fun q => by simp, rfl, rfl⟩
  | cons o os ih =>
    obtain ⟨hpaths, hbound, hexpected⟩ := ih (scopeOwned d docs c o)
    rw [List.foldl_cons]
    refine ⟨fun q => ?_, ?_, ?_⟩
    · rw [hpaths, scopeOwned_eq, List.exists_mem_cons_iff]
      dsimp only
      rw [List.mem_append, or_comm (a := q ∈ (scopeOwned d docs ⟨[], [], []⟩ o).paths), or_assoc]
    · rw [hbound, scopeOwned_eq]
    · rw [hexpected, scopeOwned_eq]

theorem SameRows.scopeOfSeal (h : SameRows s s') (docs : List SealDoc) :
    SameState (scopeOfSeal d s root docs) (scopeOfSeal d s' root docs) := by
  unfold Backup.scopeOfSeal
  rw [h.scopeDocument_eq]
  have howned := h.owned.filter fun o => decide (o.1.1 = d.runId)
  obtain ⟨hpaths, hbound, hexpected⟩ := scopeOwned_foldl (d := d) docs (s.owned.filter fun o => decide (o.1.1 = d.runId))
    (docs.foldl (scopeDocument d s root) ⟨[], [], []⟩)
  obtain ⟨hpaths', hbound', hexpected'⟩ := scopeOwned_foldl (d := d) docs
    (s'.owned.filter fun o => decide (o.1.1 = d.runId)) (docs.foldl (scopeDocument d s root) ⟨[], [], []⟩)
  refine ⟨fun q => ?_, fun id => by rw [hbound, hbound'], fun q => by rw [hexpected, hexpected']⟩
  rw [hpaths, hpaths']
  simp only [howned.mem_iff]

section
variable (h : SameRows s s') (hk : Keyed s)
include h hk

theorem SameRows.info (p : Path) : PyList.get? s'.docInfo p = PyList.get? s.docInfo p :=
  get?_perm h.docInfo hk.docInfo p

theorem SameRows.offer_eq : offer d s' root t = offer d s root t := by
  unfold offer
  rw [h.info hk, h.resolve_eq]

theorem SameRows.claimant_eq (hc : SameState c c₁) : claimant d s' root c₁ t = claimant d s root c t := by
  unfold claimant
  simp only [h.offer_eq hk, mem_keys_iff, hc.expected]

theorem SameRows.reliesOnMark_eq : reliesOnMark s' t = reliesOnMark s t := by
  unfold reliesOnMark
  simp only [h.info hk, h.mem_pendingPaths]

theorem SameRows.keeps_eq :
    keepsTag s' c t = keepsTag s c t ∧ sharesTag s' c t = sharesTag s c t ∧ pastTag s' t = pastTag s t := by
  unfold keepsTag sharesTag pastTag
  simp only [h.info hk, h.mem_pendingPaths, and_self]

end

theorem SameRows.claimants_perm (h : SameRows s s') (hk : Keyed s) (hc : SameState c c₁) (docs : List SealDoc) :
    (claimants d s' root c₁ (tagged s' docs)).Perm (claimants d s root c (tagged s docs)) := by
  have heq : claimant d s' root c₁ = claimant d s root c := funext fun _ => h.claimant_eq hk hc
  rw [claimants, claimants, heq]
  exact (h.docMap.filterMap _).filterMap _

open FirstCome (Chain Starved)

/-- The condition is about the rows, not about their order. -/
theorem Unrivalled.of_same (h : SameRows s s') (hk : Keyed s) (hc : SameState c c₁) {docs : List SealDoc}
    (hu : Unrivalled d s root c (tagged s docs)) : Unrivalled d s' root c₁ (tagged s' docs) := by
  have hperm : (claimants d s' root c₁ (tagged s' docs)).Perm (claimants d s root c (tagged s docs)) :=
    h.claimants_perm hk hc docs
  have hbound : ∀ id : Option Str, c₁.isBound id = c.isBound id := fun id => by
    unfold Scope.isBound
    simp only [hc.bound]
  refine ⟨?_, ?_, ?_⟩
  · simp only [hperm.mem_iff, hc.expected]
    exact hu.agree
  · simp only [hperm.mem_iff, hc.expected, hperm.subperm_left]
    exact hu.served
  · simp only [hperm.mem_iff, hc.paths, hbound, hperm.subperm_left, h.mem_tagged docs, h.reliesOnMark_eq hk]
    exact hu.marked

/-! ### What phase 1 comes to -/

/-- What phase 1 has done, in whatever order. -/
structure Settled (d : Disk) (s : State) (root : Str) (c₁ : Scope) (xs : List (SealDoc × Path)) (c : Scope) : Prop where
  paths : ∀ q, q ∈ c.paths ↔ q ∈ c₁.paths ∨ ∃ w ∈ claimants d s root c₁ xs, q ∈ w.claims
  value : ∀ w ∈ claimants d s root c₁ xs, ∀ b ∈ w.2.binds,
    PyList.get? c.expected b.1 = rebound (PyList.get? c₁.expected b.1) b.2
  rest : ∀ q, (∀ w ∈ claimants d s root c₁ xs, q ∉ w.claims) → PyList.get? c.expected q = PyList.get? c₁.expected q
  marks : ∀ t ∈ xs, reliesOnMark s t = true → t.2 ∉ c.paths → (c.isBound t.1.documentId = true ↔
    c₁.isBound t.1.documentId = true ∨ ∃ w ∈ claimants d s root c₁ xs, w.Marks t)

/-- Whoever is served, the outcome is the same. -/
theorem Unrivalled.settled {us : List Claimant} (h : Unrivalled d s root c₁ xs)
    (hkeys : ∀ q ∈ c₁.expected.map (·.1), q ∈ c₁.paths) (hsub : us.Subperm (claimants d s root c₁ xs))
    (hchain : Chain Claimant.home Claimant.claims us)
    (hall : ∀ w ∈ claimants d s root c₁ xs, w ∈ us ∨ Starved Claimant.home Claimant.claims us w) :
    Settled d s root c₁ xs (us.foldl Claimant.apply c₁) := by
  have hsubset : ∀ u ∈ us, u ∈ claimants d s root c₁ xs := fun u hu => hsub.subset hu
  have hserved : ∀ w ∈ claimants d s root c₁ xs, ∀ b ∈ w.2.binds,
      rebound (PyList.get? c₁.expected b.1) b.2 ≠ PyList.get? c₁.expected b.1 → ∃ u ∈ us, b.1 ∈ u.claims := by
    intro w hw b hb hopen
    by_contra hnone
    obtain ⟨v, hv, hclaim, hfree⟩ := h.served w hw b hb hopen us hsub hchain fun u hu hq => hnone ⟨u, hu, hq⟩
    exact hnone ⟨v, (hall v hv).resolve_right hfree, hclaim⟩
  have hpaths : ∀ q, q ∈ (us.foldl Claimant.apply c₁).paths ↔
      q ∈ c₁.paths ∨ ∃ w ∈ claimants d s root c₁ xs, q ∈ w.claims := by
    intro q
    rw [mem_paths_foldl]
    constructor
    · rintro (hq | ⟨u, hu, hq⟩)
      · exact .inl hq
      · exact .inr ⟨u, hsubset u hu, hq⟩
    · rintro (hq | ⟨w, hw, hq⟩)
      · exact .inl hq
      · obtain ⟨b, hb, rfl⟩ := List.mem_map.1 hq
        by_cases hopen : rebound (PyList.get? c₁.expected b.1) b.2 = PyList.get? c₁.expected b.1
        · exact .inl (hkeys _ (mem_keys_iff.2 (hopen ▸ rebound_isSome _ _)))
        · exact .inr (hserved w hw b hb hopen)
  refine ⟨hpaths, fun w hw b hb => ?_, fun q hq => ?_, fun t ht hrelies hpath => ?_⟩
  · rcases get?_foldl c₁ b.1 us with ⟨u, hu, b', hb', hsame, hvalue⟩ | ⟨hnone, hvalue⟩
    · rw [hvalue, ← hsame]
      exact h.agree u (hsubset u hu) w hw b' hb' b hb hsame
    · rw [hvalue]
      by_contra hopen
      obtain ⟨u, hu, hclaim⟩ := hserved w hw b hb fun heq => hopen heq.symm
      exact hnone u hu hclaim
  · rcases get?_foldl c₁ q us with ⟨u, hu, b, hb, rfl, -⟩ | ⟨-, hvalue⟩
    · exact absurd (List.mem_map_of_mem hb) (hq u (hsubset u hu))
    · exact hvalue
  · rw [isBound_foldl]
    constructor
    · rintro (hbound | ⟨u, hu, hmarks⟩)
      · exact .inl hbound
      · exact .inr ⟨u, hsubset u hu, hmarks⟩
    · rintro (hbound | ⟨w, hw, hmarks⟩)
      · exact .inl hbound
      · rw [hpaths] at hpath
        by_contra hnone
        rw [not_or] at hnone
        obtain ⟨v, hv, hv', hfree⟩ := h.marked t ht hrelies (fun hq => hpath (.inl hq))
          (fun w hw hq => hpath (.inr ⟨w, hw, hq⟩)) (Bool.eq_false_iff.2 hnone.1) w hw hmarks us hsub hchain
          fun u hu hu' => hnone.2 ⟨u, hu, hu'⟩
        exact hnone.2 ⟨v, (hall v hv).resolve_right hfree, hv'⟩

theorem branches_congr (stale cache kept native other bound bound' : Bool)
    (h : (!stale && cache && !kept && native) = true → bound' = bound) :
    ((!stale && if cache = true then kept || (!bound' && native) else !other) =
        (!stale && if cache = true then kept || (!bound && native) else !other)) ∧
      (if cache = true then stale || (!kept && (bound' || !native)) else !stale && other) =
        (if cache = true then stale || (!kept && (bound || !native)) else !stale && other) := by
  revert stale cache kept native other bound bound'
  decide

theorem branches_relies (stale cache kept native other bound : Bool) (h : (!stale && cache && !kept && native) = true) :
    (!stale && if cache = true then kept || (!bound && native) else !other) = !bound := by
  revert stale cache kept native other bound
  decide

/-- The decision on a tag depends on the mark of its document at most where the tag relies on it. -/
theorem tag_congr {c' : Scope} (h : reliesOnMark s t = true → c'.isBound t.1.documentId = c.isBound t.1.documentId) :
    keepsTag s c' t = keepsTag s c t ∧ sharesTag s c' t = sharesTag s c t :=
  branches_congr _ _ _ _ _ _ _ h

theorem keepsTag_relies (h : reliesOnMark s t = true) : keepsTag s c t = !c.isBound t.1.documentId :=
  branches_relies _ _ _ _ _ _ h

/-! ### The scope of the seal -/

/-- What is bound is in the scope. -/
def Scope.Sound (c : Scope) : Prop := ∀ q ∈ c.expected.map (·.1), q ∈ c.paths

theorem Scope.Sound.bind (h : c.Sound) (p : Path) (sha : Str) (size : Option Nat) : (c.bind p sha size).Sound := by
  intro q hq
  unfold Scope.bind at hq ⊢
  dsimp only at hq ⊢
  split at hq
  · rw [PyList.keys_insert] at hq
    split at hq
    · exact List.mem_cons_of_mem _ (h q hq)
    · rcases List.mem_append.1 hq with hq | hq
      · exact List.mem_cons_of_mem _ (h q hq)
      · exact List.mem_cons.2 (.inl (List.mem_singleton.1 hq))
  · exact List.mem_cons_of_mem _ (h q hq)

theorem Scope.Sound.foldl {α : Type} {f : Scope → α → Scope} (hf : ∀ c x, c.Sound → (f c x).Sound)
    (h : c.Sound) (xs : List α) : (xs.foldl f c).Sound := by
  induction xs generalizing c with
  | nil => exact h
  | cons x xs ih => exact ih (hf c x h)

theorem Scope.Sound.add (h : c.Sound) (p : Path) : (c.add p).Sound := fun q hq => List.mem_cons_of_mem _ (h q hq)

theorem sound_scopeDocument (doc : SealDoc) (h : c.Sound) : (scopeDocument d s root c doc).Sound := by
  have hstart : Scope.Sound { c with bound := c.bound.filter fun id => some id ≠ doc.documentId } := h
  have hrefs := Scope.Sound.foldl
    (f := fun (c : Scope) (ref : Str × Option Nat) => c.bind (objectPath ref.1) ref.1 ref.2)
    (fun _ _ hc => hc.bind _ _ _) hstart doc.refs
  have hbundles := Scope.Sound.foldl (f := (bindBundle d s root · doc))
    (fun (c : Scope) _ (hc : c.Sound) => ((hc.bind _ _ _).bind _ _ _).bind _ _ _) hrefs (d.bundles doc)
  unfold scopeDocument
  dsimp only
  split
  · exact hbundles
  · split
    · exact hbundles
    · split
      · exact (hbundles.bind _ _ _).bind _ _ _
      · exact (hbundles.add _).add _

theorem sound_scopeOfSeal (docs : List SealDoc) : (scopeOfSeal d s root docs).Sound := by
  have hempty : (⟨[], [], []⟩ : Scope).Sound := fun q hq => absurd hq List.not_mem_nil
  have hdocs := Scope.Sound.foldl (f := scopeDocument d s root) (fun _ doc hc => sound_scopeDocument doc hc) hempty docs
  intro q hq
  obtain ⟨hpaths, -, hexpected⟩ := scopeOwned_foldl (d := d) docs (s.owned.filter fun o => decide (o.1.1 = d.runId))
    (docs.foldl (scopeDocument d s root) ⟨[], [], []⟩)
  unfold scopeOfSeal at hq ⊢
  rw [hexpected] at hq
  exact (hpaths q).2 (.inl (hdocs q hq))

/-! ### Orders of the rows -/

theorem scopeWithCounts_paths {issuers : List Str} {documents : List SealDoc} (hd : d.documents = some documents) :
    let docs := documents.filter fun doc => decide (doc.issuer ∈ issuers)
    let c := (tagged s docs).foldl (fun c t => rebind d s root c t.1 t.2) (scopeOfSeal d s root docs)
    scopeWithCounts d s root issuers =
      ((((tagged s docs).foldl (phase2 s) (c, ⟨[], []⟩)).1.paths,
          ((tagged s docs).foldl (phase2 s) (c, ⟨[], []⟩)).1.expected),
        (((tagged s docs).foldl (phase2 s) (c, ⟨[], []⟩)).2.sharedCache.dedup.filter
            (· ∉ ((tagged s docs).foldl (phase2 s) (c, ⟨[], []⟩)).1.paths)).length,
        (((tagged s docs).foldl (phase2 s) (c, ⟨[], []⟩)).2.staleObject.dedup.filter
            (· ∉ ((tagged s docs).foldl (phase2 s) (c, ⟨[], []⟩)).1.paths)).length) := by
  unfold scopeWithCounts
  rw [hd]
  rfl

/-- Tags have different paths. -/
theorem tagged_unique (hk : Keyed s) {docs : List SealDoc} (ht : t ∈ tagged s docs) (ht' : t' ∈ tagged s docs)
    (h : t.2 = t'.2) : t = t' := by
  obtain ⟨r, hr, hdoc⟩ := List.mem_filterMap.1 ht
  obtain ⟨r', hr', hdoc'⟩ := List.mem_filterMap.1 ht'
  obtain ⟨doc, hdoc, rfl⟩ := Option.map_eq_some_iff.1 hdoc
  obtain ⟨doc', hdoc', rfl⟩ := Option.map_eq_some_iff.1 hdoc'
  obtain rfl := List.inj_on_of_nodup_map hk.docMap hr hr' h
  rw [Option.some.inj (hdoc.symm.trans hdoc')]

/-- Any chain of claimants is served in some order of the rows. -/
theorem exists_order {issuers : List Str} {documents : List SealDoc} (hd : d.documents = some documents)
    {docs : List SealDoc} (hdocs : docs = documents.filter fun doc => decide (doc.issuer ∈ issuers)) {us : List Claimant}
    (hus : us.Subperm (claimants d s root (scopeOfSeal d s root docs) (tagged s docs)))
    (hchain : Chain Claimant.home Claimant.claims us) :
    ∃ s' more, SameRows s s' ∧
      (∀ v ∈ more, v ∈ claimants d s root (scopeOfSeal d s root docs) (tagged s docs) ∧
        ¬ Starved Claimant.home Claimant.claims us v) ∧
      (∀ q, PyList.get? (scopeWithCounts d s' root issuers).1.2 q =
        PyList.get? ((us ++ more).foldl Claimant.apply (scopeOfSeal d s root docs)).expected q) ∧
      ∀ q, q ∈ (scopeWithCounts d s' root issuers).1.1 ↔
        q ∈ ((us ++ more).foldl Claimant.apply (scopeOfSeal d s root docs)).paths ∨ ∃ t ∈ tagged s docs,
          keepsTag s ((us ++ more).foldl Claimant.apply (scopeOfSeal d s root docs)) t = true ∧ t.2 = q := by
  let g : Path × Str → Option Claimant := fun row =>
    ((selectedDoc docs row.2).map fun doc => (doc, row.1)).bind (claimant d s root (scopeOfSeal d s root docs))
  have hclaimants (rows : List (Path × Str)) :
      claimants d s root (scopeOfSeal d s root docs)
          (rows.filterMap fun row => (selectedDoc docs row.2).map fun doc => (doc, row.1)) =
        rows.filterMap g := List.filterMap_filterMap
  have hfront : us.Subperm (s.docMap.filterMap g) := by
    rw [← hclaimants]
    exact hus
  obtain ⟨rows, rest, hperm, hrows⟩ := FirstCome.exists_perm_front hfront
  obtain ⟨more, hmore, hsub, hfree⟩ := FirstCome.run_append hchain rest
  have hsame : SameRows s { s with docMap := rows } := ⟨hperm, .refl _, .refl _, .refl _, .refl _⟩
  have hphase : (tagged { s with docMap := rows } docs).foldl (fun c t => rebind d { s with docMap := rows } root c t.1 t.2)
      (scopeOfSeal d { s with docMap := rows } root docs) =
        (us ++ more).foldl Claimant.apply (scopeOfSeal d s root docs) := by
    rw [phase1_eq]
    change (servedOf (claimants d s root (scopeOfSeal d s root docs) (rows.filterMap _))).foldl Claimant.apply _ = _
    rw [hclaimants, hrows, servedOf, hmore]
    rfl
  have hresolved := Resolved.run { s with docMap := rows } ((us ++ more).foldl Claimant.apply (scopeOfSeal d s root docs))
    (tagged { s with docMap := rows } docs)
  refine ⟨{ s with docMap := rows }, more, hsame, fun v hv => ⟨?_, hfree v hv⟩, fun q => ?_, fun q => ?_⟩
  · have hrow : v ∈ rows.filterMap g := hrows ▸ List.mem_append_right _ (hsub.subset hv)
    have hv' : v ∈ s.docMap.filterMap g := (hperm.filterMap g).mem_iff.1 hrow
    rw [← hclaimants] at hv'
    exact hv'
  · rw [scopeWithCounts_paths hd, ← hdocs]
    dsimp only
    rw [hphase]
    exact congrArg (PyList.get? · q) hresolved.expected
  · rw [scopeWithCounts_paths hd, ← hdocs]
    dsimp only
    rw [hphase, hresolved.paths]
    simp only [hsame.mem_tagged docs]
    rfl

theorem length_dedup_filter_congr {a b : List Path} {P Q : Path → Prop} [DecidablePred P] [DecidablePred Q]
    (h : ∀ q, q ∈ a ∧ P q ↔ q ∈ b ∧ Q q) : (a.dedup.filter P).length = (b.dedup.filter Q).length := by
  refine ((List.perm_ext_iff_of_nodup ((List.nodup_dedup a).filter _) ((List.nodup_dedup b).filter _)).2
    fun q => ?_).length_eq
  simp only [List.mem_filter, List.mem_dedup, decide_eq_true_eq]
  exact h q

theorem scopeWithCounts_fst (issuers : List Str) :
    (scopeWithCounts d s root issuers).1 = scopedBackupScope d s root issuers := by
  have hfst : ∀ (xs : List (SealDoc × Path)) (cx : Scope × Exclusions),
      (xs.foldl (phase2 s) cx).1 = xs.foldl (fun c t => resolveTag s c t.1 t.2) cx.1 := by
    intro xs
    induction xs with
    | nil => exact fun _ => rfl
    | cons t xs ih => exact fun cx => ih _
  unfold scopeWithCounts scopedBackupScope
  cases d.documents with
  | none => rfl
  | some documents =>
    dsimp only
    rw [← hfst _ (_, ⟨[], []⟩)]
    rfl

/-! ### Every order gives the same scope -/

theorem SameRows.exists_tag (h : SameRows s s') {docs : List SealDoc} {f g : SealDoc × Path → Bool}
    (hfg : ∀ t ∈ tagged s docs, t.2 = q → g t = f t) :
    (∃ t ∈ tagged s' docs, g t = true ∧ t.2 = q) ↔ ∃ t ∈ tagged s docs, f t = true ∧ t.2 = q := by
  simp only [h.mem_tagged]
  exact exists_congr fun t => and_congr_right fun ht => and_congr_left fun hq => by rw [hfg t ht hq]

/-- Phase 1 in the order of the rows. -/
theorem Unrivalled.run {docs : List SealDoc} (h : Unrivalled d s root (scopeOfSeal d s root docs) (tagged s docs)) :
    Settled d s root (scopeOfSeal d s root docs) (tagged s docs)
      ((tagged s docs).foldl (fun c t => rebind d s root c t.1 t.2) (scopeOfSeal d s root docs)) := by
  rw [phase1_eq]
  exact h.settled (sound_scopeOfSeal docs) (FirstCome.run_sublist _).subperm (FirstCome.chain_run _) fun w hw =>
    FirstCome.mem_run_or_starved hw

section
variable {c' c₁' : Scope} {docs : List SealDoc} (h : SameRows s s') (hk : Keyed s) (hc : SameState c₁ c₁')
  (hs : Settled d s root c₁ (tagged s docs) c) (hs' : Settled d s' root c₁' (tagged s' docs) c')
include h hk hc hs hs'

theorem Settled.same_paths : q ∈ c'.paths ↔ q ∈ c.paths := by
  rw [hs'.paths, hs.paths, hc.paths]
  simp only [(h.claimants_perm hk hc docs).mem_iff]

theorem Settled.same_expected : PyList.get? c'.expected q = PyList.get? c.expected q := by
  have hmem {w : Claimant} : w ∈ claimants d s' root c₁' (tagged s' docs) ↔ w ∈ claimants d s root c₁ (tagged s docs) :=
    (h.claimants_perm hk hc docs).mem_iff
  by_cases hq : ∃ w ∈ claimants d s root c₁ (tagged s docs), q ∈ w.claims
  · obtain ⟨w, hw, hq⟩ := hq
    obtain ⟨b, hb, rfl⟩ := List.mem_map.1 hq
    rw [hs'.value w (hmem.2 hw) b hb, hs.value w hw b hb, hc.expected]
  · have hnone : ∀ w ∈ claimants d s root c₁ (tagged s docs), q ∉ w.claims := fun w hw hclaim => hq ⟨w, hw, hclaim⟩
    rw [hs'.rest q fun w hw => hnone w (hmem.1 hw), hs.rest q hnone, hc.expected]

theorem Settled.same_mark (ht : t ∈ tagged s docs) (hrelies : reliesOnMark s t = true) (hpath : t.2 ∉ c.paths) :
    c'.isBound t.1.documentId = c.isBound t.1.documentId := by
  have hbound : c₁'.isBound t.1.documentId = c₁.isBound t.1.documentId := by
    unfold Scope.isBound
    simp only [hc.bound]
  rw [Bool.eq_iff_iff, hs.marks t ht hrelies hpath, hs'.marks t ((h.mem_tagged docs).2 ht)
    ((h.reliesOnMark_eq hk).trans hrelies) (mt (Settled.same_paths h hk hc hs hs').1 hpath), hbound]
  simp only [(h.claimants_perm hk hc docs).mem_iff]

end

/-- Where the tags are unrivalled, paths, bindings and exclusion counts do not depend on the order of the rows. -/
theorem Unrivalled.scopes {issuers : List Str} {documents : List SealDoc} (hk : Keyed s)
    (hd : d.documents = some documents) {docs : List SealDoc}
    (hdocs : docs = documents.filter fun doc => decide (doc.issuer ∈ issuers))
    (hu : Unrivalled d s root (scopeOfSeal d s root docs) (tagged s docs)) (h : SameRows s s') :
    SameScope (scopeWithCounts d s root issuers) (scopeWithCounts d s' root issuers) := by
  have hseal : SameState (scopeOfSeal d s root docs) (scopeOfSeal d s' root docs) := h.scopeOfSeal docs
  have hs := hu.run
  have hs' := (hu.of_same h hk hseal).run
  rw [scopeWithCounts_paths hd, scopeWithCounts_paths hd, ← hdocs]
  generalize (tagged s docs).foldl (fun c t => rebind d s root c t.1 t.2) (scopeOfSeal d s root docs) = c at hs ⊢
  generalize (tagged s' docs).foldl (fun c t => rebind d s' root c t.1 t.2) (scopeOfSeal d s' root docs) = c' at hs' ⊢
  have hpaths (q : Path) : q ∈ c'.paths ↔ q ∈ c.paths := Settled.same_paths h hk hseal hs hs'
  have htag : ∀ t ∈ tagged s docs, t.2 ∉ c.paths →
      keepsTag s' c' t = keepsTag s c t ∧ sharesTag s' c' t = sharesTag s c t := by
    intro t ht hpath
    have hkeeps := h.keeps_eq hk (c := c') (t := t)
    have hmark := tag_congr fun hrelies => Settled.same_mark h hk hseal hs hs' ht hrelies hpath
    exact ⟨hkeeps.1.trans hmark.1, hkeeps.2.1.trans hmark.2⟩
  have hx := Resolved.run s c (tagged s docs)
  have hx' := Resolved.run s' c' (tagged s' docs)
  have hfinal (q : Path) : q ∈ ((tagged s' docs).foldl (phase2 s') (c', ⟨[], []⟩)).1.paths ↔
      q ∈ ((tagged s docs).foldl (phase2 s) (c, ⟨[], []⟩)).1.paths := by
    rw [hx.paths, hx'.paths, hpaths]
    exact or_congr_right' fun hq => h.exists_tag fun t ht hsame => (htag t ht (hsame ▸ hq)).1
  refine ⟨hfinal, fun q => ?_,
    Prod.ext (length_dedup_filter_congr fun q => ?_) (length_dedup_filter_congr fun q => ?_)⟩
  · exact (congrArg (PyList.get? · q) hx'.expected).trans
      ((Settled.same_expected h hk hseal hs hs').trans (congrArg (PyList.get? · q) hx.expected).symm)
  · rw [hfinal]
    refine and_congr_left fun hq => ?_
    rw [hx'.shared q (mt (hfinal q).1 hq), hx.shared q hq]
    exact h.exists_tag fun t ht hsame => (htag t ht fun hm => hq ((hx.paths q).2 (.inl (hsame ▸ hm)))).2
  · rw [hfinal]
    refine and_congr_left fun hq => ?_
    rw [hx'.past q (mt (hfinal q).1 hq), hx.past q hq]
    exact h.exists_tag fun t _ _ => (h.keeps_eq hk (c := c') (t := t)).2.2

/-- A tag that relies on the mark of its document is visible where nobody marks it. -/
theorem visible_iff {us : List Claimant} {docs : List SealDoc} (hk : Keyed s) (ht : t ∈ tagged s docs)
    (hrelies : reliesOnMark s t = true) (hpath : t.2 ∉ c.paths) (hclaims : ∀ u ∈ us, t.2 ∉ u.claims)
    (hmark : c.isBound t.1.documentId = false) :
    (t.2 ∈ (us.foldl Claimant.apply c).paths ∨
        ∃ t' ∈ tagged s docs, keepsTag s (us.foldl Claimant.apply c) t' = true ∧ t'.2 = t.2) ↔
      ∀ u ∈ us, ¬ u.Marks t := by
  have hpath' : t.2 ∉ (us.foldl Claimant.apply c).paths := by
    rw [mem_paths_foldl]
    rintro (hq | ⟨u, hu, hq⟩)
    · exact hpath hq
    · exact hclaims u hu hq
  have hbound : (us.foldl Claimant.apply c).isBound t.1.documentId = true ↔ ∃ u ∈ us, u.Marks t := by
    rw [isBound_foldl, hmark]
    simp
  have hkeep : (∃ t' ∈ tagged s docs, keepsTag s (us.foldl Claimant.apply c) t' = true ∧ t'.2 = t.2) ↔
      keepsTag s (us.foldl Claimant.apply c) t = true :=
    ⟨fun ⟨_, ht', hkeep, hsame⟩ => tagged_unique hk ht' ht hsame ▸ hkeep, fun hkeep => ⟨t, ht, hkeep, rfl⟩⟩
  rw [or_iff_right hpath', hkeep, keepsTag_relies hrelies, Bool.not_eq_true', ← Bool.not_eq_true, hbound]
  simp only [not_exists, not_and]

/-- Where every order gives the same scope, the tags are unrivalled: a rival would come first in some order. -/
theorem Unrivalled.of_scopes {issuers : List Str} {documents : List SealDoc} (hk : Keyed s)
    (hd : d.documents = some documents) {docs : List SealDoc}
    (hdocs : docs = documents.filter fun doc => decide (doc.issuer ∈ issuers))
    (h : ∀ s', SameRows s s' → SameScope (scopeWithCounts d s root issuers) (scopeWithCounts d s' root issuers)) :
    Unrivalled d s root (scopeOfSeal d s root docs) (tagged s docs) := by
  have hsolo : ∀ w ∈ claimants d s root (scopeOfSeal d s root docs) (tagged s docs),
      [w].Subperm (claimants d s root (scopeOfSeal d s root docs) (tagged s docs)) := fun w hw =>
    (List.singleton_sublist.2 hw).subperm
  have hchainSolo (w : Claimant) : Chain Claimant.home Claimant.claims [w] := List.pairwise_singleton _ _
  have hfirst : ∀ w ∈ claimants d s root (scopeOfSeal d s root docs) (tagged s docs), ∀ b ∈ w.2.binds,
      PyList.get? (scopeWithCounts d s root issuers).1.2 b.1 =
        rebound (PyList.get? (scopeOfSeal d s root docs).expected b.1) b.2 := by
    intro w hw b hb
    obtain ⟨s', more, hsame, -, hexpected, -⟩ := exists_order hd hdocs (hsolo w hw) (hchainSolo w)
    rw [← (h s' hsame).expected, hexpected]
    exact get?_foldl_first hb
  refine ⟨fun w hw w' hw' b hb b' hb' heq => ?_, ?_, ?_⟩
  · rw [← hfirst w hw b hb, heq]
    exact hfirst w' hw' b' hb'
  · intro w hw b hb hopen us hsub hchain hnone
    by_contra hstarved
    obtain ⟨s', more, hsame, hmore, hexpected, -⟩ := exists_order hd hdocs hsub hchain
    refine hopen ?_
    rw [← hfirst w hw b hb, ← (h s' hsame).expected, hexpected]
    rcases get?_foldl (scopeOfSeal d s root docs) b.1 (us ++ more) with ⟨u, hu, b', hb', hpath, -⟩ | ⟨-, hvalue⟩
    · have hclaim : b.1 ∈ u.claims := hpath ▸ List.mem_map_of_mem hb'
      rcases List.mem_append.1 hu with hu | hu
      · exact absurd hclaim (hnone u hu)
      · exact absurd ⟨u, (hmore u hu).1, hclaim, (hmore u hu).2⟩ hstarved
    · exact hvalue
  · intro t ht hrelies hpath hclaims hmark w hw hmarks us hsub hchain hnone
    by_contra hstarved
    obtain ⟨s₁, more₁, hsame₁, hmore₁, -, hpaths₁⟩ := exists_order hd hdocs hsub hchain
    obtain ⟨s₂, more₂, hsame₂, hmore₂, -, hpaths₂⟩ := exists_order hd hdocs (hsolo w hw) (hchainSolo w)
    -- after `us` nobody marks the document, after `w` it is marked
    have hunmarked : ∀ u ∈ us ++ more₁, ¬ u.Marks t := by
      intro u hu hu'
      rcases List.mem_append.1 hu with hu | hu
      · exact hnone u hu hu'
      · exact hstarved ⟨u, (hmore₁ u hu).1, hu', (hmore₁ u hu).2⟩
    have hclaims₁ : ∀ u ∈ us ++ more₁, t.2 ∉ u.claims := fun u hu =>
      hclaims u ((List.mem_append.1 hu).elim (fun hu => hsub.subset hu) fun hu => (hmore₁ u hu).1)
    have hclaims₂ : ∀ u ∈ [w] ++ more₂, t.2 ∉ u.claims := fun u hu =>
      hclaims u ((List.mem_append.1 hu).elim (fun hu => (hsolo w hw).subset hu) fun hu => (hmore₂ u hu).1)
    have hvisible : t.2 ∈ (scopeWithCounts d s root issuers).1.1 := by
      rw [← (h s₁ hsame₁).paths, hpaths₁]
      exact (visible_iff hk ht hrelies hpath hclaims₁ hmark).2 hunmarked
    rw [← (h s₂ hsame₂).paths, hpaths₂, visible_iff hk ht hrelies hpath hclaims₂ hmark] at hvisible
    exact hvisible w (List.mem_append_left _ (List.mem_singleton.2 rfl)) hmarks

/-- Paths, bindings and exclusion counts are the same in every order of the rows exactly where the tags of the
selected documents are unrivalled. -/
theorem scope_order_free_iff {issuers : List Str} (hk : Keyed s) :
    (∀ s', SameRows s s' → SameScope (scopeWithCounts d s root issuers) (scopeWithCounts d s' root issuers)) ↔
      ∀ documents, d.documents = some documents →
        let docs := documents.filter fun doc => decide (doc.issuer ∈ issuers)
        Unrivalled d s root (scopeOfSeal d s root docs) (tagged s docs) := by
  refine ⟨fun h documents hd => Unrivalled.of_scopes hk hd rfl h, fun hu s' hs => ?_⟩
  cases hd : d.documents with
  | none =>
    unfold scopeWithCounts
    rw [hd]
    exact ⟨fun _ => Iff.rfl, fun _ => rfl, rfl⟩
  | some documents => exact (hu documents hd).scopes hk hd rfl hs


end

/-! Two documents of one PDF with different OCR, both with a pair in the cache of their key. -/

def sharedKeyDoc (id ocr : Str) : SealDoc := ⟨some id, "a".toList, ("p".toList, some 1), some (ocr, some 1), none, none⟩

def sharedKeyDisk : Disk where
  runId := "run".toList
  documents := some [sharedKeyDoc "x".toList "o".toList, sharedKeyDoc "y".toList "q".toList]
  bundles _ := []
  cachePair key doc := if key = "k".toList then doc.ocr.map fun ocr => (('m' :: ocr.1, 1), ('r' :: ocr.1, 1)) else none
  corroborates _ _ := false
  sha256 _ := []
  keyDigest _ := []

def tagRow (p : Path) (id ocr : Str) (s : State) : State :=
  { s with
    docMap := (p, id) :: s.docMap
    docInfo := (p, ⟨id, "k".toList, "p".toList, ocr, "native".toList⟩) :: s.docInfo }

/-- The canonical manifest is tagged for `x`, the manifest of a variant for `y`. -/
def rivalTags : State :=
  tagRow (nativeRoot "k".toList ++ [manifestName]) "x".toList "o".toList
    (tagRow (bundleRoot "k".toList (some "q".toList) ++ [manifestName]) "y".toList "q".toList .empty)

/-- Without a receipt both are rebound at the canonical path, and the first one wins. -/
theorem scope_order_counts : Keyed rivalTags ∧ SameRows rivalTags { rivalTags with docMap := rivalTags.docMap.reverse } ∧
    ¬ SameScope (scopeWithCounts sharedKeyDisk rivalTags [] ["a".toList])
      (scopeWithCounts sharedKeyDisk { rivalTags with docMap := rivalTags.docMap.reverse } [] ["a".toList]) := by
  refine ⟨⟨by decide, by decide⟩, ⟨List.reverse_perm _, .refl _, .refl _, .refl _, .refl _⟩, fun h => ?_⟩
  exact absurd (h.expected (nativeRoot "k".toList ++ [manifestName])) (by decide)

/-! Two documents of one PDF with the same OCR and the same pair. Each tags a control file of it, and the one that comes
second finds its path bound. -/

def sharedPairDisk : Disk :=
  { sharedKeyDisk with documents := some [sharedKeyDoc "x".toList "o".toList, sharedKeyDoc "y".toList "o".toList] }

def sharedPairTags : State :=
  tagRow (nativeRoot "k".toList ++ [manifestName]) "x".toList "o".toList
    (tagRow (nativeRoot "k".toList ++ [readyName]) "y".toList "o".toList .empty)

theorem scope_order_free_pair : SameScope (scopeWithCounts sharedPairDisk sharedPairTags [] ["a".toList])
    (scopeWithCounts sharedPairDisk { sharedPairTags with docMap := sharedPairTags.docMap.reverse } [] ["a".toList]) := by
  refine (scope_order_free_iff ⟨by decide, by decide⟩).2 (fun documents hd => ?_) _
    ⟨List.reverse_perm _, .refl _, .refl _, .refl _, .refl _⟩
  obtain rfl := Option.some.inj hd
  intro docs
  have hclaims : ∀ w ∈ claimants sharedPairDisk sharedPairTags [] (scopeOfSeal sharedPairDisk sharedPairTags [] docs)
      (tagged sharedPairTags docs), w.2 = ⟨nativeRoot "k".toList, ("mo".toList, 1), ("ro".toList, 1)⟩ := by decide
  refine ⟨fun w hw w' hw' b hb b' hb' hsame => ?_, fun w hw b hb _ us hsub _ hnone => ?_, fun t ht _ _ hfree => ?_⟩
  · rw [hclaims w hw] at hb
    rw [hclaims w' hw'] at hb'
    revert b b'
    decide
  · obtain rfl : us = [] := List.eq_nil_iff_forall_not_mem.2 fun u hu => hnone u hu <| by
      rw [Claimant.claims, hclaims u (hsub.subset hu), ← hclaims w hw]
      exact List.mem_map_of_mem hb
    exact ⟨w, hw, List.mem_map_of_mem hb, fun ⟨_, hu, _⟩ => absurd hu List.not_mem_nil⟩
  · have hclaimed : ∀ t ∈ tagged sharedPairTags docs, ∃ w ∈ claimants sharedPairDisk sharedPairTags []
        (scopeOfSeal sharedPairDisk sharedPairTags [] docs) (tagged sharedPairTags docs), t.2 ∈ w.claims := by decide
    obtain ⟨w, hw, hclaim⟩ := hclaimed t ht
    exact absurd hclaim (hfree w hw)

end CardRag.Backup
