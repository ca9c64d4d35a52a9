import CardRag.Gc.Mark

/-! # What the worker's writes keep

`Base`: every file lies where the mark phase knows it, and every collection may hold such a file.
`Contents`: what lies under the roots of the content variants belongs to whole variants. Every write
whose destination the mark phase knows keeps both. -/

namespace CardRag.Gc

open Publish

/-! ### Paths -/

@[simp] theorem name_append (p : Path) (n : Str) : name (p ++ [n]) = n := by simp [name]

theorem prefix_total {r s a b : Path} (h : r ++ a = s ++ b) : r <+: s ∨ s <+: r :=
  List.prefix_or_prefix_of_prefix (List.prefix_append r a) (h ▸ List.prefix_append s b)

/-- Paths under roots of which neither contains the other differ. -/
theorem ne_of_roots {r s a b : Path} (h : ¬ (r <+: s ∨ s <+: r)) : r ++ a ≠ s ++ b :=
  fun heq => h (prefix_total heq)

theorem not_prefix_of_roots {r s b : Path} (h : ¬ (r <+: s ∨ s <+: r)) : ¬ r <+: s ++ b := fun ⟨_, hs⟩ => h (prefix_total hs)

theorem validPath_of_prefix {p q : Path} (h : validPath p = true) (hq : q <+: p) (hne : q ≠ []) : validPath q = true := by
  simp only [validPath, Bool.and_eq_true, decide_eq_true_eq, List.all_eq_true] at h ⊢
  exact ⟨hne, fun x hx => h.2 x (hq.subset hx)⟩

def cacheRoots : List Path := [cacheRoot "native".toList, cacheRoot "adopted".toList]

/-- The mark phase has no objection to a file here. -/
structure Known (p : Path) : Prop where
  generations : ∀ rest, p = generationsRoot ++ rest →
    ∃ id member, rest = [id, member] ∧ validIdentifier id = true ∧ member ∈ generationMembers
  objects : ∀ rest, p = objectsRoot ++ rest → ∃ digest : Str, rest = [digest.take 2, digest] ∧ isSha256 digest = true
  caches : ∀ root ∈ cacheRoots, ∀ rest, p = root ++ rest →
    ∃ key file : Str, rest = [key.take 2, key, file] ∧ isSha256 key = true ∧ file ∈ [manifestName, readyName]
  incoming : ∀ rest, p = incomingRoot ++ rest → (∃ tail, rest = "objects".toList :: tail) ∨
    ∃ space ∈ incomingNamespaces, ∃ leaf, rest = [space, leaf] ∧ isTempName leaf = true

/-- The path is not one of the content variants' or of their index. -/
def Foreign (p : Path) : Prop := ¬ contentRoot <+: p ∧ ¬ indexRoot <+: p

/-- A file outside the namespaces that are checked. -/
theorem Known.of_outside {p : Path} (h : ∀ r ∈ generationsRoot :: objectsRoot :: incomingRoot :: cacheRoots, ¬ r <+: p) :
    Known p := by
  have hne {r rest : Path} (hr : r ∈ generationsRoot :: objectsRoot :: incomingRoot :: cacheRoots) : p ≠ r ++ rest :=
    fun heq => h r hr (heq ▸ List.prefix_append r rest)
  exact ⟨fun rest heq => (hne (by simp) heq).elim, fun rest heq => (hne (by simp) heq).elim,
    fun root hroot rest heq => (hne (by simp [hroot]) heq).elim, fun rest heq => (hne (by simp) heq).elim⟩

/-- A file under a root that is apart from the namespaces that are checked. -/
theorem Known.of_root {root : Path} (rest : Path)
    (h : ∀ r ∈ generationsRoot :: objectsRoot :: incomingRoot :: cacheRoots, ¬ (r <+: root ∨ root <+: r)) :
    Known (root ++ rest) :=
  .of_outside fun r hr => not_prefix_of_roots (h r hr)

theorem Foreign.of_root {root : Path} (rest : Path) (hc : ¬ (contentRoot <+: root ∨ root <+: contentRoot))
    (hi : ¬ (indexRoot <+: root ∨ root <+: indexRoot)) : Foreign (root ++ rest) :=
  ⟨not_prefix_of_roots hc, not_prefix_of_roots hi⟩

theorem Foreign.of_prefix {p q : Path} (h : Foreign p) (hq : q <+: p) : Foreign q :=
  ⟨fun hc => h.1 (hc.trans hq), fun hi => h.2 (hi.trans hq)⟩

theorem cacheRoots_apart {root a b : Path} (h : ∀ r ∈ cacheRoots, ¬ (root <+: r ∨ r <+: root)) :
    ∀ r ∈ cacheRoots, root ++ a ≠ r ++ b :=
  fun r hr => ne_of_roots (h r hr)

theorem Known.generation {id member : Str} (hid : validIdentifier id = true) (hmember : member ∈ generationMembers) :
    Known (generationsRoot ++ [id, member]) where
  generations rest h := ⟨id, member, (List.append_cancel_left h).symm, hid, hmember⟩
  objects _ h := (ne_of_roots (by decide) h).elim
  caches root hroot _ h := (cacheRoots_apart (by decide) root hroot h).elim
  incoming _ h := (ne_of_roots (by decide) h).elim

theorem Known.object {digest : Str} (h : isSha256 digest = true) : Known (objectPath digest) where
  generations _ heq := (ne_of_roots (by decide) heq).elim
  objects rest heq := ⟨digest, (List.append_cancel_left heq).symm, h⟩
  caches root hroot _ heq := (cacheRoots_apart (by decide) root hroot heq).elim
  incoming _ heq := (ne_of_roots (by decide) heq).elim

theorem Known.temporary {space leaf : Str} (hspace : space ∈ incomingNamespaces) (hleaf : isTempName leaf = true) :
    Known (incomingRoot ++ [space, leaf]) where
  generations _ h := (ne_of_roots (by decide) h).elim
  objects _ h := (ne_of_roots (by decide) h).elim
  caches root hroot _ h := (cacheRoots_apart (by decide) root hroot h).elim
  incoming rest h := .inr ⟨space, hspace, leaf, (List.append_cancel_left h).symm, hleaf⟩

/-! ### The primitives -/

namespace Tree

variable {t : Tree} {p q : Path} {content : Bytes}

def paths (t : Tree) : List Path := t.files.map (·.1)

theorem mem_paths : p ∈ t.paths ↔ (t.file p).isSome := by
  rw [paths, file, PyList.get?, Option.isSome_map, List.find?_isSome]
  simp [eq_comm]

@[simp] theorem file_ensure : (t.ensure q).file p = t.file p := rfl

@[simp] theorem paths_ensure : (t.ensure q).paths = t.paths := rfl

@[simp] theorem collections_put : (t.put q content).collections = t.collections := rfl

@[simp] theorem collections_remove : (t.remove q).collections = t.collections := rfl

theorem file_put : (t.put q content).file p = if q = p then some content else t.file p := PyList.get?_insert q p content t.files

theorem mem_paths_put : p ∈ (t.put q content).paths ↔ p = q ∨ p ∈ t.paths := by
  rw [mem_paths, mem_paths, file_put]
  by_cases h : q = p
  · simp [h]
  · simp [h, Ne.symm h]

theorem file_remove (h : p ≠ q) : (t.remove q).file p = t.file p := by
  simp only [file, remove, PyList.get?, List.find?_filter]
  congr 2
  funext e
  by_cases he : e.1 = p
  · simp [he, h]
  · simp [he]

theorem mem_paths_remove (hp : p ∈ (t.remove q).paths) : p ∈ t.paths := by
  obtain ⟨e, he, rfl⟩ := List.mem_map.1 hp
  exact List.mem_map_of_mem (List.mem_filter.1 he).1

theorem mem_collections_ensure : p ∈ (t.ensure q).collections ↔ p ∈ t.collections ∨ (p ≠ [] ∧ p <+: q) := by
  have hdrop : p ∈ q.inits.drop 1 ↔ p ≠ [] ∧ p <+: q := by
    cases q with
    | nil => simp
    | cons x q => cases p <;> simp [List.inits, and_comm, eq_comm]
  simp only [ensure, List.mem_append, List.mem_filter, hdrop, decide_not, Bool.not_eq_true', decide_eq_false_iff_not]
  tauto

end Tree

/-! ### What the writes keep -/

variable {t t' : Tree} {p q : Path} {content : Bytes}

/-- A collection that may hold a known file. -/
def KnownCollection (q : Path) : Prop := ∃ rest, rest ≠ [] ∧ validPath (q ++ rest) = true ∧ Known (q ++ rest)

theorem KnownCollection.of_prefix (h : KnownCollection p) (hq : q <+: p) : KnownCollection q := by
  obtain ⟨rest, hrest, hvalid, hknown⟩ := h
  obtain ⟨s, rfl⟩ := hq
  rw [List.append_assoc] at hvalid hknown
  exact ⟨s ++ rest, by simp [hrest], hvalid, hknown⟩

theorem Known.dropLast (h : Known p) (hvalid : validPath p = true) : KnownCollection p.dropLast := by
  have hne : p ≠ [] := by
    rintro rfl
    exact absurd hvalid (by decide)
  have happ := List.dropLast_append_getLast hne
  exact ⟨[p.getLast hne], by simp, by rwa [happ], by rwa [happ]⟩

theorem knownCollection_incoming {space : Str} (h : space ∈ incomingNamespaces) : KnownCollection (incomingRoot ++ [space]) := by
  have hvalid : ∀ s ∈ incomingNamespaces, validPath (incomingRoot ++ [s] ++ [tempName (List.replicate 32 'a')]) = true := by
    decide
  refine ⟨[tempName (List.replicate 32 'a')], by simp, hvalid space h, ?_⟩
  rw [List.append_assoc]
  exact .temporary h (by decide)

/-- The collections and the files lie where the mark phase knows them. -/
structure Base (t : Tree) : Prop where
  valid : ∀ p ∈ t.paths, validPath p = true
  known : ∀ p ∈ t.paths, Known p
  parents : ∀ p ∈ t.paths, ∀ q, q <+: p → q ≠ [] → q ≠ p → q ∈ t.collections
  closed : ∀ p ∈ t.collections, ∀ q, q <+: p → q ≠ [] → q ∈ t.collections
  nonempty : ∀ q ∈ t.collections, q ≠ []
  collections : ∀ q ∈ t.collections, KnownCollection q

theorem Base.empty : Base .empty := by
  refine ⟨?_, ?_, ?_, ?_, ?_, ?_⟩ <;> intro p hp <;> cases hp

theorem Base.ensure (h : Base t) (hp : KnownCollection p) : Base (t.ensure p) where
  valid := h.valid
  known := h.known
  parents q hq r hr hne hrq := Tree.mem_collections_ensure.2 (.inl (h.parents q hq r hr hne hrq))
  closed q hq r hr hne := by
    rcases Tree.mem_collections_ensure.1 hq with hq | hq
    · exact Tree.mem_collections_ensure.2 (.inl (h.closed q hq r hr hne))
    · exact Tree.mem_collections_ensure.2 (.inr ⟨hne, hr.trans hq.2⟩)
  nonempty q hq := by
    rcases Tree.mem_collections_ensure.1 hq with hq | hq
    · exact h.nonempty q hq
    · exact hq.1
  collections q hq := by
    rcases Tree.mem_collections_ensure.1 hq with hq | hq
    · exact h.collections q hq
    · exact hp.of_prefix hq.2

theorem Base.put (h : Base t) (hvalid : validPath p = true) (hp : Known p)
    (hparents : ∀ q, q <+: p.dropLast → q ≠ [] → q ∈ t.collections) : Base (t.put p content) where
  valid q hq := by
    rcases Tree.mem_paths_put.1 hq with rfl | hq
    · exact hvalid
    · exact h.valid q hq
  known q hq := by
    rcases Tree.mem_paths_put.1 hq with rfl | hq
    · exact hp
    · exact h.known q hq
  parents q hq r hr hne hrq := by
    rcases Tree.mem_paths_put.1 hq with rfl | hq
    · refine hparents r ?_ hne
      have hlen : r.length ≤ q.dropLast.length := by
        have hlt := hr.length_le.lt_of_ne fun heq => hrq (hr.eq_of_length heq)
        rw [List.length_dropLast]
        omega
      exact List.prefix_of_prefix_length_le hr (List.dropLast_prefix q) hlen
    · exact h.parents q hq r hr hne hrq
  closed := h.closed
  nonempty := h.nonempty
  collections := h.collections

theorem Base.remove (h : Base t) : Base (t.remove p) where
  valid q hq := h.valid q (Tree.mem_paths_remove hq)
  known q hq := h.known q (Tree.mem_paths_remove hq)
  parents q hq := h.parents q (Tree.mem_paths_remove hq)
  closed := h.closed
  nonempty := h.nonempty
  collections := h.collections

/-- The file of a completed immutable write is there, or it is added with its collections. -/
theorem publishImmutable_eq_some : publishImmutable t p content = some t' ↔ validPath p = true ∧
    ((t.file p = some content ∧ t' = t) ∨ (t.file p = none ∧
      t' = ((t.ensure p.dropLast).ensure (incomingRoot ++ ["publish".toList])).put p content)) := by
  unfold publishImmutable
  by_cases hvalid : validPath p = true
  · rw [if_neg (by simp [hvalid])]
    cases hfile : t.file p with
    | none => simp [hvalid, eq_comm]
    | some old =>
      by_cases hold : old = content
      · simp [hvalid, hold, eq_comm]
      · simp [hold]
  · simp [hvalid]

theorem Base.publishImmutable (h : Base t) (hp : Known p) (hwrite : publishImmutable t p content = some t') : Base t' := by
  obtain ⟨hvalid, ⟨-, rfl⟩ | ⟨-, rfl⟩⟩ := publishImmutable_eq_some.1 hwrite
  · exact h
  · refine ((h.ensure (hp.dropLast hvalid)).ensure (knownCollection_incoming (by decide))).put hvalid hp ?_
    intro q hq hne
    exact Tree.mem_collections_ensure.2 (.inl (Tree.mem_collections_ensure.2 (.inr ⟨hne, hq⟩)))

/-! ### Content variants -/

section
variable {C : ContentControls}

/-- The controls and the output of a content variant are there. -/
structure Whole (C : ContentControls) (t : Tree) (m : C.Manifest) : Prop where
  manifest : t.file (C.variantRoot m ++ [manifestName]) = some (C.canonicalBytes m)
  ready : t.file (C.variantRoot m ++ [readyName]) = some (C.readyBytes m)
  index : t.file (C.indexPath m) = some (C.indexBytes m)
  output : ∃ body, t.file (C.outputPath m) = some body ∧ C.verifyOcr m body = true

/-- What lies under the roots of the content variants belongs to whole variants. -/
structure Contents (C : ContentControls) (t : Tree) : Prop where
  collections : ∀ q ∈ t.collections, contentRoot <+: q → ∃ m, Whole C t m ∧ q <+: C.variantRoot m
  files : ∀ p ∈ t.paths, contentRoot <+: p → ∃ m, Whole C t m ∧
    (p = C.variantRoot m ++ [manifestName] ∨ p = C.variantRoot m ++ [readyName])
  index : ∀ p ∈ t.paths, indexRoot <+: p → ∃ m, Whole C t m ∧ p = C.indexPath m
  indexRoot_leaf : ∀ q ∈ t.collections, indexRoot <+: q → q = indexRoot

theorem Contents.empty : Contents C .empty := by
  refine ⟨?_, ?_, ?_, ?_⟩ <;> intro p hp <;> cases hp

theorem contentRoot_prefix_variantRoot (m : C.Manifest) : contentRoot <+: C.variantRoot m :=
  (List.prefix_append _ _).trans (List.prefix_append _ _)

theorem contentRoot_prefix_manifest (m : C.Manifest) (n : Str) : contentRoot <+: C.variantRoot m ++ [n] :=
  (contentRoot_prefix_variantRoot m).trans (List.prefix_append _ _)

theorem indexRoot_prefix_indexPath (m : C.Manifest) : indexRoot <+: C.indexPath m := List.prefix_append _ _

/-- A variant stays whole where its files stay. -/
theorem Whole.mono {m : C.Manifest} (h : Whole C t m)
    (hkeep : ∀ q c, contentRoot <+: q ∨ indexRoot <+: q ∨ objectsRoot <+: q → t.file q = some c → t'.file q = some c) :
    Whole C t' m where
  manifest := hkeep _ _ (.inl (contentRoot_prefix_manifest m _)) h.manifest
  ready := hkeep _ _ (.inl (contentRoot_prefix_manifest m _)) h.ready
  index := hkeep _ _ (.inr (.inl (indexRoot_prefix_indexPath m))) h.index
  output := by
    obtain ⟨body, hbody, hocr⟩ := h.output
    exact ⟨body, hkeep _ _ (.inr (.inr (List.prefix_append _ _))) hbody, hocr⟩

/-- A write elsewhere. -/
theorem Contents.frame (h : Contents C t) (hcol : ∀ q ∈ t'.collections, q ∈ t.collections ∨ Foreign q)
    (hpaths : ∀ q ∈ t'.paths, q ∈ t.paths ∨ Foreign q)
    (hkeep : ∀ q c, contentRoot <+: q ∨ indexRoot <+: q ∨ objectsRoot <+: q → t.file q = some c → t'.file q = some c) :
    Contents C t' where
  collections q hq hroot := by
    rcases hcol q hq with hq | hq
    · obtain ⟨m, hm, hprefix⟩ := h.collections q hq hroot
      exact ⟨m, hm.mono hkeep, hprefix⟩
    · exact (hq.1 hroot).elim
  files q hq hroot := by
    rcases hpaths q hq with hq | hq
    · obtain ⟨m, hm, heq⟩ := h.files q hq hroot
      exact ⟨m, hm.mono hkeep, heq⟩
    · exact (hq.1 hroot).elim
  index q hq hroot := by
    rcases hpaths q hq with hq | hq
    · obtain ⟨m, hm, heq⟩ := h.index q hq hroot
      exact ⟨m, hm.mono hkeep, heq⟩
    · exact (hq.2 hroot).elim
  indexRoot_leaf q hq hroot := by
    rcases hcol q hq with hq | hq
    · exact h.indexRoot_leaf q hq hroot
    · exact (hq.2 hroot).elim

theorem Contents.ensure (h : Contents C t) (hp : Foreign p) : Contents C (t.ensure p) := by
  refine h.frame (fun q hq => ?_) (fun q hq => .inl hq) fun _ _ _ hq => hq
  rcases Tree.mem_collections_ensure.1 hq with hq | hq
  · exact .inl hq
  · exact .inr (hp.of_prefix hq.2)

theorem Contents.put (h : Contents C t) (hp : Foreign p) (hobject : t.file p = none ∨ ¬ objectsRoot <+: p) :
    Contents C (t.put p content) := by
  refine h.frame (fun q hq => .inl hq) (fun q hq => ?_) fun q c hroot hfile => ?_
  · rcases Tree.mem_paths_put.1 hq with rfl | hq
    · exact .inr hp
    · exact .inl hq
  · rw [Tree.file_put, if_neg, hfile]
    rintro rfl
    rcases hobject with hnone | hobject
    · rw [hnone] at hfile
      cases hfile
    · rcases hroot with hroot | hroot | hroot
      · exact hp.1 hroot
      · exact hp.2 hroot
      · exact hobject hroot

theorem Contents.remove (h : Contents C t) (hp : Foreign p) (hobject : ¬ objectsRoot <+: p) : Contents C (t.remove p) := by
  refine h.frame (fun q hq => .inl hq) (fun q hq => .inl (Tree.mem_paths_remove hq)) fun q c hroot hfile => ?_
  rw [Tree.file_remove, hfile]
  rintro rfl
  rcases hroot with hroot | hroot | hroot
  · exact hp.1 hroot
  · exact hp.2 hroot
  · exact hobject hroot

theorem foreign_publish : Foreign (incomingRoot ++ ["publish".toList]) := .of_root _ (by decide) (by decide)

theorem Contents.publishImmutable (h : Contents C t) (hp : Foreign p) (hwrite : publishImmutable t p content = some t') :
    Contents C t' := by
  obtain ⟨-, ⟨-, rfl⟩ | ⟨hnone, rfl⟩⟩ := publishImmutable_eq_some.1 hwrite
  · exact h
  · exact ((h.ensure (hp.of_prefix (List.dropLast_prefix p))).ensure foreign_publish).put hp (.inl hnone)

/-- An immutable write leaves what is there. -/
theorem file_of_publishImmutable (hwrite : publishImmutable t p content = some t') :
    t'.file p = some content ∧ ∀ q c, t.file q = some c → t'.file q = some c := by
  obtain ⟨-, ⟨hfile, rfl⟩ | ⟨hnone, rfl⟩⟩ := publishImmutable_eq_some.1 hwrite
  · exact ⟨hfile, fun _ _ hq => hq⟩
  · refine ⟨by rw [Tree.file_put, if_pos rfl], fun q c hq => ?_⟩
    rw [Tree.file_put, if_neg, Tree.file_ensure, Tree.file_ensure, hq]
    rintro rfl
    rw [hnone] at hq
    cases hq

theorem collections_of_publishImmutable (hwrite : publishImmutable t p content = some t') (hq : q ∈ t'.collections) :
    q ∈ t.collections ∨ q <+: p.dropLast ∨ Foreign q := by
  obtain ⟨-, ⟨-, rfl⟩ | ⟨-, rfl⟩⟩ := publishImmutable_eq_some.1 hwrite
  · exact .inl hq
  · rcases Tree.mem_collections_ensure.1 hq with hq | hq
    · rcases Tree.mem_collections_ensure.1 hq with hq | hq
      · exact .inl hq
      · exact .inr (.inl hq.2)
    · exact .inr (.inr (foreign_publish.of_prefix hq.2))

theorem paths_of_publishImmutable (hwrite : publishImmutable t p content = some t') (hq : q ∈ t'.paths) :
    q ∈ t.paths ∨ q = p := by
  obtain ⟨-, ⟨-, rfl⟩ | ⟨-, rfl⟩⟩ := publishImmutable_eq_some.1 hwrite
  · exact .inl hq
  · exact (Tree.mem_paths_put.1 hq).symm

theorem not_indexRoot_variantRoot (m : C.Manifest) : ¬ indexRoot <+: C.variantRoot m := by
  intro h
  rcases List.prefix_or_prefix_of_prefix h (contentRoot_prefix_variantRoot m) with h | h
  · exact absurd h (by decide)
  · exact absurd h (by decide)

/-- The three controls make the variant whole, and add nothing else under the roots. -/
theorem Contents.publishControls {m : C.Manifest} (h : Contents C t)
    (houtput : ∃ body, t.file (C.outputPath m) = some body ∧ C.verifyOcr m body = true)
    (hwrite : publishControls t m = some t') : Contents C t' := by
  simp only [Gc.publishControls, Option.bind_eq_bind, Option.bind_eq_some_iff] at hwrite
  obtain ⟨t₁, h₁, t₂, h₂, h₃⟩ := hwrite
  obtain ⟨hm₁, keep₁⟩ := file_of_publishImmutable h₁
  obtain ⟨hm₂, keep₂⟩ := file_of_publishImmutable h₂
  obtain ⟨hm₃, keep₃⟩ := file_of_publishImmutable h₃
  have keep (q : Path) (c : Bytes) (hq : t.file q = some c) : t'.file q = some c := keep₃ _ _ (keep₂ _ _ (keep₁ _ _ hq))
  have hwhole : Whole C t' m := by
    obtain ⟨body, hbody, hocr⟩ := houtput
    exact ⟨keep₃ _ _ (keep₂ _ _ hm₁), keep₃ _ _ hm₂, hm₃, body, keep _ _ hbody, hocr⟩
  have hcol (q : Path) (hq : q ∈ t'.collections) : q ∈ t.collections ∨ q <+: C.variantRoot m ∨ q <+: indexRoot ∨ Foreign q := by
    rcases collections_of_publishImmutable h₃ hq with hq | hq | hq
    · rcases collections_of_publishImmutable h₂ hq with hq | hq | hq
      · rcases collections_of_publishImmutable h₁ hq with hq | hq | hq
        · exact .inl hq
        · exact .inr (.inl (by simpa using hq))
        · exact .inr (.inr (.inr hq))
      · exact .inr (.inl (by simpa using hq))
      · exact .inr (.inr (.inr hq))
    · exact .inr (.inr (.inl (by simpa [ContentControls.indexPath] using hq)))
    · exact .inr (.inr (.inr hq))
  have hpaths (q : Path) (hq : q ∈ t'.paths) : q ∈ t.paths ∨ q = C.variantRoot m ++ [manifestName] ∨
      q = C.variantRoot m ++ [readyName] ∨ q = C.indexPath m := by
    rcases paths_of_publishImmutable h₃ hq with hq | hq
    · rcases paths_of_publishImmutable h₂ hq with hq | hq
      · exact (paths_of_publishImmutable h₁ hq).imp_right .inl
      · exact .inr (.inr (.inl hq))
    · exact .inr (.inr (.inr hq))
  refine ⟨fun q hq hroot => ?_, fun q hq hroot => ?_, fun q hq hroot => ?_, fun q hq hroot => ?_⟩
  · rcases hcol q hq with hq | hq | hq | hq
    · obtain ⟨m', hm', hprefix⟩ := h.collections q hq hroot
      exact ⟨m', hm'.mono fun q c _ => keep q c, hprefix⟩
    · exact ⟨m, hwhole, hq⟩
    · exact absurd (hroot.trans hq) (by decide)
    · exact (hq.1 hroot).elim
  · rcases hpaths q hq with hq | hq | hq | rfl
    · obtain ⟨m', hm', heq⟩ := h.files q hq hroot
      exact ⟨m', hm'.mono fun q c _ => keep q c, heq⟩
    · exact ⟨m, hwhole, .inl hq⟩
    · exact ⟨m, hwhole, .inr hq⟩
    · rcases List.prefix_or_prefix_of_prefix hroot (indexRoot_prefix_indexPath m) with hroot | hroot
      · exact absurd hroot (by decide)
      · exact absurd hroot (by decide)
  · rcases hpaths q hq with hq | hq | hq | hq
    · obtain ⟨m', hm', heq⟩ := h.index q hq hroot
      exact ⟨m', hm'.mono fun q c _ => keep q c, heq⟩
    all_goals
      subst hq
      first
      | exact ⟨m, hwhole, rfl⟩
      | rcases List.prefix_or_prefix_of_prefix hroot (contentRoot_prefix_manifest m _) with hroot | hroot
        · exact absurd hroot (by decide)
        · exact absurd hroot (by decide)
  · rcases hcol q hq with hq | hq | hq | hq
    · exact h.indexRoot_leaf q hq hroot
    · exact (not_indexRoot_variantRoot m (hroot.trans hq)).elim
    · exact hq.eq_of_length_le hroot.length_le
    · exact (hq.2 hroot).elim

/-! ### Every write keeps both -/

/-- A write to a destination that the mark phase knows; no index is replaced. -/
def Write.Kept : Write C → Prop
  | .immutable destination _ => Known destination ∧ Foreign destination
  | .atomicReplace .. => False
  | _ => True

structure Inv (C : ContentControls) (t : Tree) : Prop where
  base : Base t
  contents : Contents C t

theorem Inv.publishImmutable (h : Inv C t) (hp : Known p) (hf : Foreign p) (hwrite : publishImmutable t p content = some t') :
    Inv C t' :=
  ⟨h.base.publishImmutable hp hwrite, h.contents.publishImmutable hf hwrite⟩

theorem Inv.publishCas {sha256 : Bytes → Str} (h : Inv C t) (hwrite : publishCas sha256 t content = some t') :
    Inv C t' ∧ t'.file (objectPath (sha256 content)) = some content := by
  unfold Gc.publishCas at hwrite
  split_ifs at hwrite with hsha
  rw [Bool.not_eq_false] at hsha
  exact ⟨h.publishImmutable (.object hsha) (.of_root _ (by decide) (by decide)) hwrite, (file_of_publishImmutable hwrite).1⟩

theorem Known.variant (m : C.Manifest) (n : Str) : Known (C.variantRoot m ++ [n]) := by
  simp only [ContentControls.variantRoot, ContentControls.reuseRoot, List.append_assoc]
  exact .of_root _ (by decide)

theorem Inv.publishControls {m : C.Manifest} (h : Inv C t)
    (houtput : ∃ body, t.file (C.outputPath m) = some body ∧ C.verifyOcr m body = true)
    (hwrite : publishControls t m = some t') : Inv C t' := by
  refine ⟨?_, h.contents.publishControls houtput hwrite⟩
  simp only [Gc.publishControls, Option.bind_eq_bind, Option.bind_eq_some_iff] at hwrite
  obtain ⟨t₁, h₁, t₂, h₂, h₃⟩ := hwrite
  have hindex : Known (C.indexPath m) := .of_root _ (by decide)
  exact ((h.base.publishImmutable (.variant m _) h₁).publishImmutable (.variant m _) h₂).publishImmutable hindex h₃

theorem isTempName_tempName {hex : Str} (hlen : hex.length = 32) (hhex : hex.all isHexDigit = true) :
    isTempName (tempName hex) = true := by
  have htake : (tempName hex).take 32 = hex := by rw [tempName, ← hlen, List.take_left]
  have hdrop : (tempName hex).drop 32 = ".tmp".toList := by rw [tempName, ← hlen, List.drop_left]
  have hlength : (tempName hex).length = 36 := by rw [tempName, List.length_append, hlen]; rfl
  simp only [isTempName, htake, hdrop, hlength, hhex, decide_true, Bool.and_true]

theorem Inv.quarantineMember {generationId memberName hex : Str} (h : Inv C t)
    (hwrite : quarantineMember t generationId memberName hex = some t') : Inv C t' := by
  unfold Gc.quarantineMember at hwrite
  dsimp only at hwrite
  split_ifs at hwrite with hguard
  simp only [not_or, not_not, Bool.not_eq_false] at hguard
  obtain ⟨-, hlen, hhex, hvalid, hcol, -, -, -⟩ := hguard
  obtain ⟨content, -, rfl⟩ := Option.map_eq_some_iff.1 hwrite
  have hknown : Known (incomingRoot ++ ["publish".toList, tempName hex]) :=
    .temporary (by decide) (isTempName_tempName hlen hhex)
  have hcontents : Contents C (t.remove (generationsRoot ++ [generationId, memberName])) :=
    h.contents.remove (.of_root _ (by decide) (by decide)) (not_prefix_of_roots (by decide))
  exact ⟨h.base.remove.put hvalid hknown fun q hq hne => h.base.closed _ hcol q hq hne,
    hcontents.put (.of_root _ (by decide) (by decide)) (.inr (not_prefix_of_roots (by decide)))⟩

theorem Inv.replacePointer {channel : Str} (h : Inv C t) (hwrite : replacePointer t channel content = some t') : Inv C t' := by
  unfold Gc.replacePointer at hwrite
  dsimp only at hwrite
  split_ifs at hwrite with hguard
  simp only [not_or, Bool.not_eq_false] at hguard
  cases hwrite
  have hknown : Known (channelsRoot ++ [channel ++ ".json".toList]) := .of_root _ (by decide)
  have hforeign : Foreign (channelsRoot ++ [channel ++ ".json".toList]) := .of_root _ (by decide) (by decide)
  have hroot : channelsRoot <+: channelsRoot ++ [channel ++ ".json".toList] := List.prefix_append _ _
  refine ⟨((h.base.ensure ?_).ensure (knownCollection_incoming (by decide))).put hguard.2 hknown fun q hq hne => ?_,
    ((h.contents.ensure (hforeign.of_prefix hroot)).ensure (.of_root _ (by decide) (by decide))).put hforeign
      (.inr (not_prefix_of_roots (by decide)))⟩
  · simpa [channelsRoot] using hknown.dropLast hguard.2
  · refine Tree.mem_collections_ensure.2 (.inl (Tree.mem_collections_ensure.2 (.inr ⟨hne, ?_⟩)))
    simpa [channelsRoot] using hq

theorem Inv.perform {sha256 : Bytes → Str} {w : Write C} (h : Inv C t) (hw : w.Kept) (hwrite : perform sha256 t w = some t') :
    Inv C t' := by
  cases w with
  | immutable destination content => exact h.publishImmutable hw.1 hw.2 hwrite
  | cas content => exact (h.publishCas hwrite).1
  | member generationId memberName content =>
    simp only [Gc.perform] at hwrite
    split_ifs at hwrite with hguard
    simp only [not_or, not_not, Bool.not_eq_false] at hguard
    refine h.publishImmutable (.generation hguard.1 ?_) (.of_root _ (by decide) (by decide)) hwrite
    rcases List.mem_cons.1 hguard.2 with hmember | hmember
    · simp [hmember, generationMembers]
    · simp [List.mem_singleton.1 hmember, generationMembers]
  | quarantine generationId memberName hex => exact h.quarantineMember hwrite
  | pointer channel content => exact h.replacePointer hwrite
  | variant m body =>
    simp only [Gc.perform, publishVariant] at hwrite
    cases body with
    | some body =>
      dsimp only at hwrite
      split_ifs at hwrite with hguard
      simp only [not_or, not_not, Bool.not_eq_false] at hguard
      obtain ⟨t₁, h₁, h₂⟩ := Option.bind_eq_some_iff.1 hwrite
      obtain ⟨hinv, hfile⟩ := h.publishCas h₁
      refine hinv.publishControls ⟨body, ?_, hguard.1⟩ h₂
      rw [ContentControls.outputPath, ← hguard.2, hfile]
    | none =>
      obtain ⟨body, hbody, hwrite⟩ := Option.bind_eq_some_iff.1 hwrite
      split_ifs at hwrite with hocr
      exact h.publishControls ⟨body, hbody, Bool.not_eq_false _ ▸ hocr⟩ hwrite
  | atomicReplace => exact hw.elim

theorem Inv.of_run {sha256 : Bytes → Str} {ws : List (Write C)} (h : Inv C t) (hw : ∀ w ∈ ws, w.Kept)
    (hrun : ws.foldlM (Gc.perform sha256) t = some t') : Inv C t' := by
  induction ws generalizing t with
  | nil =>
    cases hrun
    exact h
  | cons w ws ih =>
    rw [List.foldlM_cons] at hrun
    obtain ⟨t₁, h₁, h₂⟩ := Option.bind_eq_some_iff.1 hrun
    exact ih (h.perform (hw w (by simp)) h₁) (fun v hv => hw v (by simp [hv])) h₂

end

end CardRag.Gc
