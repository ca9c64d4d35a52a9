import CardRag.Gc.Kept

/-! # The collector accepts the worker's tree

On a tree that the writes keep, the mark phase raises only over what the retained generations bind.
`WebDAVClient.atomic_replace_bytes` leaves a tree on which it always raises. -/

namespace CardRag.Gc

open Publish

variable {C : ContentControls} {t : Tree} {p q : Path}

/-! ### Listings -/

theorem mem_children : q ∈ t.children p ↔ (q ∈ t.collections ∨ q ∈ t.paths) ∧ ∃ n, q = p ++ [n] := by
  have hlast : q ≠ [] ∧ q.dropLast = p ↔ ∃ n, q = p ++ [n] := by
    constructor
    · rintro ⟨hne, rfl⟩
      exact ⟨q.getLast hne, (List.dropLast_append_getLast hne).symm⟩
    · rintro ⟨n, rfl⟩
      simp
  rw [Tree.children, PyList.mem_sortedBy, List.mem_dedup, List.mem_filter, decide_eq_true_eq, hlast, List.mem_append]
  rfl

theorem nodup_children : (t.children p).Nodup := (PyList.sortedBy_perm _ _).nodup_iff.2 (List.nodup_dedup _)

theorem dropLast_of_mem_children (hq : q ∈ t.children p) : q.dropLast = p := by
  obtain ⟨-, n, rfl⟩ := mem_children.1 hq
  simp

/-- A listing has no duplicates, so its names are as many. -/
theorem names_children : (((t.children p).filter (·.dropLast = p)).map name).dedup = (t.children p).map name := by
  have hfilter : (t.children p).filter (·.dropLast = p) = t.children p :=
    List.filter_eq_self.2 fun q hq => decide_eq_true (dropLast_of_mem_children hq)
  rw [hfilter]
  refine List.Nodup.dedup (nodup_children.map_on ?_)
  rintro x hx y hy hxy
  obtain ⟨-, n, rfl⟩ := mem_children.1 hx
  obtain ⟨-, k, rfl⟩ := mem_children.1 hy
  rw [name_append, name_append] at hxy
  rw [hxy]

theorem Base.valid_collection (h : Base t) (hq : q ∈ t.collections) : validPath q = true := by
  obtain ⟨rest, -, hvalid, -⟩ := h.collections q hq
  exact validPath_of_prefix hvalid (List.prefix_append q rest) (h.nonempty q hq)

theorem listChildren_of_mem (h : Base t) (hp : p ∈ t.collections) : listChildren t p = .ok (t.children p) := by
  have hvalid : ¬ (t.children p).any (validPath · = false) := by
    rw [List.any_eq_true]
    rintro ⟨q, hq, hinvalid⟩
    rw [decide_eq_true_eq] at hinvalid
    rcases (mem_children.1 hq).1 with hq | hq
    · exact absurd (h.valid_collection hq) (by simp [hinvalid])
    · exact absurd (h.valid q hq) (by simp [hinvalid])
  rw [listChildren, if_pos hp, raiseIf, if_neg hvalid]
  rfl

theorem optionalChildren_eq (h : Base t) (p : Path) :
    optionalChildren t p = .ok (if p ∈ t.collections then t.children p else []) := by
  by_cases hp : p ∈ t.collections
  · rw [optionalChildren, listChildren_of_mem h hp, if_pos hp]
  · rw [optionalChildren, listChildren, if_neg hp, if_neg hp]
    by_cases hfile : (t.file p).isSome
    · rw [if_pos hfile]
      rfl
    · rw [if_neg hfile]
      rfl

theorem mem_optionalChildren (hq : q ∈ if p ∈ t.collections then t.children p else []) : q ∈ t.children p := by
  split_ifs at hq with hp
  · exact hq
  · cases hq

/-! ### Generations, objects and temporary objects -/

theorem generationIdOf_ok (h : Base t) {path : Path} (hpath : path ∈ t.children generationsRoot) :
    ∃ id, generationIdOf t path = .ok id := by
  obtain ⟨hmem, n, rfl⟩ := mem_children.1 hpath
  -- a file directly below the root would not be known
  have hcol : generationsRoot ++ [n] ∈ t.collections := by
    refine hmem.resolve_right fun hfile => ?_
    obtain ⟨id, member, hrest, -⟩ := (h.known _ hfile).generations _ rfl
    simp at hrest
  have hid : validIdentifier n = true := by
    obtain ⟨rest, -, -, hknown⟩ := h.collections _ hcol
    obtain ⟨id, member, hrest, hid, -⟩ := hknown.generations _ (List.append_assoc _ _ _)
    simp only [List.singleton_append, List.cons.injEq] at hrest
    exact hrest.1 ▸ hid
  have hmembers : ∀ k ∈ (t.children (generationsRoot ++ [n])).map name, k ∈ generationMembers := by
    rintro k hk
    obtain ⟨q, hq, rfl⟩ := List.mem_map.1 hk
    obtain ⟨hq, k, rfl⟩ := mem_children.1 hq
    rw [name_append]
    rcases hq with hq | hq
    · obtain ⟨rest, hne, -, hknown⟩ := h.collections _ hq
      obtain ⟨id, member, hrest, -⟩ := hknown.generations ([n] ++ ([k] ++ rest)) (by simp)
      simp at hrest
      exact absurd hrest.2.2 hne
    · obtain ⟨id, member, hrest, -, hmember⟩ := (h.known _ hq).generations ([n] ++ [k]) (List.append_assoc _ _ _)
      simp only [List.singleton_append, List.cons.injEq, and_true] at hrest
      exact hrest.2 ▸ hmember
  refine ⟨n, ?_⟩
  simp only [generationIdOf, Guard.bind_eq_ok, raiseIf_eq_ok, Guard.exists_unit, Guard.pure_eq_ok, listChildren_of_mem h hcol,
    Except.ok.injEq, exists_eq_left', names_children, name_append, hid]
  refine ⟨by simp, by simp, ?_, trivial⟩
  rw [List.length_map, not_or]
  refine ⟨by simp, ?_⟩
  rintro ⟨k, hk, hnot⟩
  exact hnot (hmembers k hk)

theorem listGenerationIds_ok (h : Base t) (hroot : generationsRoot ∈ t.collections) : ∃ ids, listGenerationIds t = .ok ids := by
  obtain ⟨ids, hids⟩ := Guard.exists_mapM_ok.2 fun _ hpath => generationIdOf_ok h hpath
  refine ⟨PyList.sortedBy id ids, ?_⟩
  rw [listGenerationIds, listChildren_of_mem h hroot]
  show (t.children generationsRoot).mapM (generationIdOf t) >>= _ = _
  rw [hids]
  rfl

theorem isHexPrefix_take {digest : Str} (h : isSha256 digest = true) : isHexPrefix (digest.take 2) = true := by
  simp only [isSha256, Bool.and_eq_true, beq_iff_eq, List.all_eq_true] at h
  simp only [isHexPrefix, Bool.and_eq_true, beq_iff_eq, List.all_eq_true, List.length_take, h.1]
  exact ⟨rfl, fun c hc => h.2 c (List.mem_of_mem_take hc)⟩

/-- The collections directly below the objects are prefixes of digests. -/
theorem objects_child (h : Base t) (hp : p ∈ t.children objectsRoot) :
    p ∈ t.collections ∧ ∃ digest : Str, isSha256 digest = true ∧ p = objectsRoot ++ [digest.take 2] := by
  obtain ⟨hmem, n, rfl⟩ := mem_children.1 hp
  have hcol : objectsRoot ++ [n] ∈ t.collections := by
    refine hmem.resolve_right fun hfile => ?_
    obtain ⟨digest, hrest, -⟩ := (h.known _ hfile).objects _ rfl
    simp at hrest
  obtain ⟨rest, -, -, hknown⟩ := h.collections _ hcol
  obtain ⟨digest, hrest, hsha⟩ := hknown.objects _ (List.append_assoc _ _ _)
  simp only [List.singleton_append, List.cons.injEq] at hrest
  exact ⟨hcol, digest, hsha, by rw [hrest.1]⟩

theorem listPrefix_ok (h : Base t) (hp : p ∈ t.children objectsRoot) : ∃ children, listPrefix t p = .ok children := by
  obtain ⟨hcol, digest, hsha, rfl⟩ := objects_child h hp
  refine ⟨t.children (objectsRoot ++ [digest.take 2]), ?_⟩
  simp only [listPrefix, listChildren_of_mem h hcol, Guard.bind_eq_ok, Except.ok.injEq, exists_eq_left', Guard.forM_eq_ok,
    raiseIf_eq_ok, Guard.pure_eq_ok, Guard.exists_unit, and_true, name_append]
  intro q hq
  obtain ⟨hq, k, rfl⟩ := mem_children.1 hq
  rcases hq with hq | hq
  · obtain ⟨rest, hne, -, hknown⟩ := h.collections _ hq
    obtain ⟨digest', hrest, -⟩ := hknown.objects ([digest.take 2] ++ ([k] ++ rest)) (by simp)
    simp at hrest
    exact absurd hrest.2.2 hne
  · obtain ⟨digest', hrest, hsha'⟩ := (h.known _ hq).objects ([digest.take 2] ++ [k]) (List.append_assoc _ _ _)
    simp only [List.singleton_append, List.cons.injEq, and_true] at hrest
    obtain ⟨htake, rfl⟩ := hrest
    rw [name_append, not_or, not_or]
    exact ⟨by simp, by simp [hsha'], by simp [htake]⟩

theorem listCasObjects_ok (h : Base t) (hroot : objectsRoot ∈ t.collections) : ∃ objects, listCasObjects t = .ok objects := by
  obtain ⟨groups, hgroups⟩ := Guard.exists_mapM_ok.2 fun p hp => listPrefix_ok h (p := p) hp
  refine ⟨PyList.sortedBy posix groups.flatten, ?_⟩
  simp only [listCasObjects, listChildren_of_mem h hroot, Guard.bind_eq_ok, Except.ok.injEq, exists_eq_left',
    Guard.forM_eq_ok, raiseIf_eq_ok, Guard.pure_eq_ok, Guard.exists_unit]
  refine ⟨fun p hp => ?_, groups, hgroups, rfl⟩
  obtain ⟨-, digest, hsha, rfl⟩ := objects_child h hp
  simp [isHexPrefix_take hsha]

/-- The temporary objects of a namespace are files. -/
theorem incomingLeaf_ok (h : Base t) {space : Str} (hspace : space ∈ incomingNamespaces)
    (hq : q ∈ t.children (incomingRoot ++ [space])) : ∃ r, incomingLeaf t (incomingRoot ++ [space]) q = .ok r := by
  have hobjects : space ≠ "objects".toList := by
    rintro rfl
    exact absurd hspace (by decide)
  obtain ⟨hmem, n, rfl⟩ := mem_children.1 hq
  have hcol : incomingRoot ++ [space] ++ [n] ∉ t.collections := by
    intro hcol
    obtain ⟨rest, hne, -, hknown⟩ := h.collections _ hcol
    rcases hknown.incoming ([space] ++ ([n] ++ rest)) (by simp) with ⟨tail, hrest⟩ | ⟨_, -, leaf, hrest, -⟩
    · simp only [List.singleton_append, List.cons.injEq] at hrest
      exact hobjects hrest.1
    · simp at hrest
      exact hne hrest.2.2
  have hfile := hmem.resolve_left hcol
  have hname : isTempName n = true := by
    rcases (h.known _ hfile).incoming ([space] ++ [n]) (List.append_assoc _ _ _) with ⟨tail, hrest⟩ | ⟨_, -, leaf, hrest, hleaf⟩
    · simp only [List.singleton_append, List.cons.injEq] at hrest
      exact absurd hrest.1 hobjects
    · simp only [List.singleton_append, List.cons.injEq, and_true] at hrest
      exact hrest.2 ▸ hleaf
  have hexists : incomingLeafExists t (incomingRoot ++ [space] ++ [n]) = .ok true := by
    rw [incomingLeafExists, listChildren, if_neg hcol, if_pos (Tree.mem_paths.1 hfile)]
    rfl
  refine ⟨(incomingRoot ++ [space] ++ [n], true), ?_⟩
  simp only [incomingLeaf, hexists, Guard.bind_eq_ok, raiseIf_eq_ok, Guard.exists_unit, Guard.pure_eq_ok, Except.ok.injEq,
    exists_eq_left', name_append, hname, and_true]
  simp

/-- Below the incoming root are the namespaces of the publishers. -/
theorem incoming_child (h : Base t) (hp : p ∈ t.children incomingRoot) :
    ∃ space ∈ incomingNamespaces ++ ["objects".toList], p = incomingRoot ++ [space] ∧
      (space ∈ incomingNamespaces → p ∈ t.collections) := by
  obtain ⟨hmem, n, rfl⟩ := mem_children.1 hp
  rcases hmem with hcol | hfile
  · obtain ⟨rest, -, -, hknown⟩ := h.collections _ hcol
    rcases hknown.incoming _ (List.append_assoc _ _ _) with ⟨tail, hrest⟩ | ⟨space, hspace, leaf, hrest, -⟩
    · simp only [List.singleton_append, List.cons.injEq] at hrest
      exact ⟨n, by simp [hrest.1], rfl, fun _ => hcol⟩
    · simp only [List.singleton_append, List.cons.injEq] at hrest
      exact ⟨n, List.mem_append_left _ (hrest.1 ▸ hspace), rfl, fun _ => hcol⟩
  · rcases (h.known _ hfile).incoming _ rfl with ⟨tail, hrest⟩ | ⟨space, hspace, leaf, hrest, -⟩
    · simp only [List.cons.injEq] at hrest
      refine ⟨n, by simp [hrest.1], rfl, fun hn => ?_⟩
      rw [hrest.1] at hn
      exact absurd hn (by decide)
    · simp at hrest

theorem incomingLeaves_ok (h : Base t) {space : Str} (hspace : space ∈ incomingNamespaces)
    (hcol : incomingRoot ++ [space] ∈ t.collections) : ∃ leaves, incomingLeaves t (incomingRoot ++ [space]) = .ok leaves := by
  obtain ⟨found, hfound⟩ := Guard.exists_mapM_ok.2 fun q hq => incomingLeaf_ok h hspace (q := q) hq
  refine ⟨(found.filter (·.2)).map (·.1), ?_⟩
  simp only [incomingLeaves, listChildren_of_mem h hcol, Guard.bind_eq_ok, Except.ok.injEq, exists_eq_left', Guard.pure_eq_ok]
  exact ⟨found, hfound, rfl⟩

theorem listIncomingTempLeaves_ok (h : Base t) : ∃ leaves, listIncomingTempLeaves t = .ok leaves := by
  set children := if incomingRoot ∈ t.collections then t.children incomingRoot else [] with hchildren
  have hchild (p : Path) (hp : p ∈ children) := incoming_child h (mem_optionalChildren hp)
  have hleaves : ∀ p ∈ PyList.sortedBy posix (children.filter (name · ∈ incomingNamespaces)),
      ∃ leaves, incomingLeaves t p = .ok leaves := by
    intro p hp
    rw [PyList.mem_sortedBy, List.mem_filter, decide_eq_true_eq] at hp
    obtain ⟨space, -, rfl, hcol⟩ := hchild p hp.1
    rw [name_append] at hp
    exact incomingLeaves_ok h hp.2 (hcol hp.2)
  obtain ⟨groups, hgroups⟩ := Guard.exists_mapM_ok.2 hleaves
  refine ⟨PyList.sortedBy posix groups.flatten, ?_⟩
  simp only [listIncomingTempLeaves, optionalChildren_eq h, ← hchildren, Guard.bind_eq_ok, Except.ok.injEq, exists_eq_left',
    Guard.forM_eq_ok, raiseIf_eq_ok, Guard.pure_eq_ok, Guard.exists_unit]
  refine ⟨fun p hp => ?_, groups, hgroups, rfl⟩
  obtain ⟨space, hspace, rfl, -⟩ := hchild p hp
  rw [name_append, not_or, not_not, not_not]
  exact ⟨by simp, hspace⟩

/-! ### Content variants -/

/-- A disagreement with a generation that is retained. -/
def Retains (e : MarkFailure) : Prop := ∃ text, e = .retained text

theorem length_variantRoot (m : C.Manifest) : (C.variantRoot m).length = 7 := rfl

/-- Below a collection of the content variants, up to their own, lie only collections of whole variants. -/
theorem Contents.child (h : Contents C t) (hroot : contentRoot <+: p) (hlen : p.length < 7) (hq : q ∈ t.children p) :
    q ∈ t.collections ∧ ∃ m, Whole C t m ∧ q = (C.variantRoot m).take (p.length + 1) := by
  obtain ⟨hmem, n, rfl⟩ := mem_children.1 hq
  have hroot' : contentRoot <+: p ++ [n] := hroot.trans (List.prefix_append p [n])
  have hcol : p ++ [n] ∈ t.collections := by
    refine hmem.resolve_right fun hfile => ?_
    obtain ⟨m, -, heq⟩ := h.files _ hfile hroot'
    have hlen' : (p ++ [n]).length = 8 := by rcases heq with heq | heq <;> rw [heq] <;> rfl
    rw [List.length_append, List.length_singleton] at hlen'
    omega
  obtain ⟨m, hm, hprefix⟩ := h.collections _ hcol hroot'
  refine ⟨hcol, m, hm, ?_⟩
  rw [List.prefix_iff_eq_take] at hprefix
  simpa using hprefix

theorem eq_singleton_of_nodup {α : Type} {xs : List α} {x : α} (hn : xs.Nodup) (hx : x ∈ xs) (h : ∀ y ∈ xs, y = x) :
    xs = [x] := by
  rcases xs with _ | ⟨y, _ | ⟨z, xs⟩⟩
  · cases hx
  · rw [h y (by simp)]
  · rw [h y (by simp), h z (by simp)] at hn
    simp at hn

theorem Inv.variantRoot_mem {m : C.Manifest} (h : Inv C t) (hm : Whole C t m) : C.variantRoot m ∈ t.collections := by
  refine h.base.parents _ (Tree.mem_paths.2 (by rw [hm.manifest]; rfl)) _ (List.prefix_append _ _) ?_ ?_
  · exact List.ne_nil_of_length_pos (by rw [length_variantRoot]; omega)
  · exact fun heq => by simpa using congrArg List.length heq

theorem Inv.indexRoot_mem {m : C.Manifest} (h : Inv C t) (hm : Whole C t m) : indexRoot ∈ t.collections := by
  have hfile : C.indexPath m ∈ t.paths := Tree.mem_paths.2 (by rw [hm.index]; rfl)
  refine h.base.parents _ hfile _ (indexRoot_prefix_indexPath m) (by simp [indexRoot, cacheRoot]) ?_
  exact fun heq => by simpa [ContentControls.indexPath] using congrArg List.length heq

theorem requiredBytes_eq {content : Bytes} (h : t.file p = some content) : requiredBytes t p = .ok content := by
  rw [requiredBytes, h]
  rfl

section
variable {retained : List ((Str × Str) × Binding)} {indexSet : List Path}

/-- The controls of a whole variant agree. -/
theorem verifyVariant_of_whole {m : C.Manifest} (hm : Whole C t m) (hindex : C.indexPath m ∈ indexSet) :
    verifyVariant C t retained indexSet (C.reuseKey m) (C.variantRoot m) =
      raiseIf ((PyList.get? retained (C.reuseKey m, C.variantId m)).any (· ≠ C.binding m))
        (.retained "content OCR variant failed mark verification".toList) >>= fun _ =>
      pure ⟨m, C.variantRoot m ++ [manifestName], C.variantRoot m ++ [readyName]⟩ := by
  obtain ⟨body, hbody, hocr⟩ := hm.output
  have hagree : ¬ (C.canonicalBytes m ≠ C.canonicalBytes m ∨ C.verifies (C.readyBytes m) m = false ∨
      C.indexBytes m ≠ C.indexBytes m ∨ C.reuseKey m ≠ C.reuseKey m ∨ C.variantRoot m ≠ C.variantRoot m) := by
    simp [C.verifies_readyBytes]
  simp only [verifyVariant, requiredBytes_eq hm.manifest, requiredBytes_eq hm.ready, requiredBytes_eq hm.index,
    requiredBytes_eq hbody, C.read_canonicalBytes, Guard.ok_bind, raiseIf, if_neg (not_not_intro hindex), if_neg hagree,
    if_neg (show ¬ C.verifyOcr m body = false by simp [hocr])]

theorem manifestName_ne_readyName : manifestName ≠ readyName := by decide

theorem Inv.children_variantRoot {m : C.Manifest} (h : Inv C t) (hm : Whole C t m) :
    (t.children (C.variantRoot m)).Perm [C.variantRoot m ++ [manifestName], C.variantRoot m ++ [readyName]] := by
  rw [List.perm_ext_iff_of_nodup nodup_children (by simp [manifestName_ne_readyName])]
  intro q
  rw [mem_children]
  constructor
  · rintro ⟨hmem, n, rfl⟩
    have hroot := contentRoot_prefix_manifest m n
    rcases hmem with hcol | hfile
    · obtain ⟨m', -, hprefix⟩ := h.contents.collections _ hcol hroot
      have hlen := hprefix.length_le
      rw [List.length_append, length_variantRoot, length_variantRoot] at hlen
      simp at hlen
    · obtain ⟨m', -, heq | heq⟩ := h.contents.files _ hfile hroot
      · obtain ⟨-, hn⟩ := List.append_inj heq rfl
        simp [hn]
      · obtain ⟨-, hn⟩ := List.append_inj heq rfl
        simp [hn]
  · intro hq
    rcases List.mem_cons.1 hq with rfl | hq
    · exact ⟨.inr (Tree.mem_paths.2 (by rw [hm.manifest]; rfl)), _, rfl⟩
    · rw [List.mem_singleton] at hq
      subst hq
      exact ⟨.inr (Tree.mem_paths.2 (by rw [hm.ready]; rfl)), _, rfl⟩

/-- What a whole variant is read as: itself, if no retained generation binds it otherwise. -/
def boundVariant (retained : List ((Str × Str) × Binding)) (m : C.Manifest) : Marked (FoundVariant C) := do
  raiseIf ((PyList.get? retained (C.reuseKey m, C.variantId m)).any (· ≠ C.binding m))
    (.retained "content OCR variant failed mark verification".toList)
  pure ⟨m, C.variantRoot m ++ [manifestName], C.variantRoot m ++ [readyName]⟩

theorem boundVariant_raises (m : C.Manifest) : Guard.Raises Retains (boundVariant retained m) :=
  (Guard.raises_raiseIf ⟨_, rfl⟩).bind fun _ => Guard.raises_pure _

theorem manifest_of_boundVariant {m : C.Manifest} {v : FoundVariant C} (h : boundVariant retained m = .ok v) : v.manifest = m := by
  simp only [boundVariant, Guard.bind_eq_ok, Guard.pure_eq_ok] at h
  obtain ⟨-, -, rfl⟩ := h
  rfl

theorem listVariant_eq {m : C.Manifest} (h : Inv C t) (hm : Whole C t m) (hindex : C.indexPath m ∈ indexSet) :
    listVariant C t retained indexSet (C.reuseKey m) (C.reuseRoot m ++ ["variants".toList]) (C.variantRoot m) =
      boundVariant retained m := by
  have hperm := h.children_variantRoot hm
  have hchildren : ¬ ((t.children (C.variantRoot m)).length ≠ 2 ∨
      C.variantRoot m ++ [manifestName] ∉ t.children (C.variantRoot m) ∨
        C.variantRoot m ++ [readyName] ∉ t.children (C.variantRoot m)) := by
    simp [hperm.length_eq, hperm.mem_iff]
  have hroot : ¬ (C.variantRoot m).dropLast ≠ C.reuseRoot m ++ ["variants".toList] := by simp [ContentControls.variantRoot]
  simp only [listVariant, raiseIf, if_neg hroot, listChildren_of_mem h.base (h.variantRoot_mem hm), Guard.ok_bind, if_neg hchildren,
    verifyVariant_of_whole hm hindex]
  rfl

theorem Inv.reuse_mem {m : C.Manifest} (h : Inv C t) (hm : Whole C t m) (n : Nat) (hn : 0 < n) :
    (C.variantRoot m).take n ∈ t.collections := by
  refine h.base.closed _ (h.variantRoot_mem hm) _ (List.take_prefix _ _) fun hnil => ?_
  have hlen := congrArg List.length hnil
  rw [List.length_take, length_variantRoot, List.length_nil] at hlen
  omega

/-- A reuse key's collection holds the collection of its variants alone. -/
theorem children_reuseRoot {m : C.Manifest} (h : Inv C t) (hm : Whole C t m) :
    t.children (C.reuseRoot m) = [C.reuseRoot m ++ ["variants".toList]] := by
  refine eq_singleton_of_nodup nodup_children (mem_children.2 ⟨.inl (h.reuse_mem hm 6 (by omega)), _, rfl⟩) fun q hq => ?_
  obtain ⟨-, m', -, heq⟩ := h.contents.child (List.prefix_append _ _) (by simp [contentRoot, cacheRoot]) hq
  obtain ⟨-, n, hn⟩ := mem_children.1 hq
  rw [hn] at heq ⊢
  have hroots : C.reuseRoot m ++ [n] = C.reuseRoot m' ++ ["variants".toList] := heq
  obtain ⟨-, heq⟩ := List.append_inj hroots rfl
  rw [heq]

theorem mem_children_variants {m : C.Manifest} (h : Inv C t)
    (hq : q ∈ t.children (C.reuseRoot m ++ ["variants".toList])) : ∃ m', Whole C t m' ∧ q = C.variantRoot m' ∧
      C.reuseRoot m' = C.reuseRoot m := by
  have hroot : contentRoot <+: C.reuseRoot m ++ ["variants".toList] := (List.prefix_append _ _).trans (List.prefix_append _ _)
  obtain ⟨-, m', hm', rfl⟩ := h.contents.child hroot (by simp [ContentControls.reuseRoot, contentRoot, cacheRoot]) hq
  obtain ⟨-, n, hn⟩ := mem_children.1 hq
  have hvariants : (C.variantRoot m').take ((C.reuseRoot m ++ ["variants".toList]).length + 1) = C.variantRoot m' :=
    List.take_of_length_le (le_of_eq (length_variantRoot m'))
  rw [hvariants] at hn ⊢
  rw [List.append_assoc] at hn
  exact ⟨m', hm', rfl, (List.append_inj hn rfl).1⟩

theorem reuseKey_of_reuseRoot {m m' : C.Manifest} (h : C.reuseRoot m' = C.reuseRoot m) : C.reuseKey m' = C.reuseKey m := by
  have hkeys := List.append_cancel_left h
  simp only [List.cons.injEq, and_true] at hkeys
  exact hkeys.2

/-- A reuse key of whole variants: they are read one by one. -/
theorem listVariants_eq {m : C.Manifest} (h : Inv C t) (hm : Whole C t m) :
    listVariants C t retained indexSet (contentRoot ++ [(C.reuseKey m).take 2]) (C.reuseRoot m) =
      (t.children (C.reuseRoot m ++ ["variants".toList])).mapM
        (listVariant C t retained indexSet (C.reuseKey m) (C.reuseRoot m ++ ["variants".toList])) := by
  have hname : name (C.reuseRoot m) = C.reuseKey m := by simp [ContentControls.reuseRoot, name]
  have hshape : ¬ ((C.reuseRoot m).dropLast ≠ contentRoot ++ [(C.reuseKey m).take 2] ∨ isSha256 (C.reuseKey m) = false ∨
      (C.reuseKey m).take 2 ≠ name (contentRoot ++ [(C.reuseKey m).take 2])) := by
    simp [ContentControls.reuseRoot, C.isSha256_reuseKey]
  have hreuse : C.reuseRoot m ∈ t.collections := h.reuse_mem hm 5 (by omega)
  have hvariants : C.reuseRoot m ++ ["variants".toList] ∈ t.collections := h.reuse_mem hm 6 (by omega)
  simp only [listVariants, hname, raiseIf, if_neg hshape, Guard.ok_bind, listChildren_of_mem h.base hreuse,
    children_reuseRoot h hm, if_neg (not_not_intro rfl), listChildren_of_mem h.base hvariants]

theorem mem_children_content (h : Inv C t) (hq : q ∈ t.children contentRoot) :
    q ∈ t.collections ∧ ∃ m, Whole C t m ∧ q = contentRoot ++ [(C.reuseKey m).take 2] := by
  obtain ⟨hcol, m, hm, rfl⟩ := h.contents.child (List.prefix_refl _) (by simp [contentRoot, cacheRoot]) hq
  exact ⟨hcol, m, hm, rfl⟩

theorem mem_children_prefix (h : Inv C t) {n : Str} (hq : q ∈ t.children (contentRoot ++ [n])) :
    ∃ m, Whole C t m ∧ q = C.reuseRoot m ∧ n = (C.reuseKey m).take 2 := by
  obtain ⟨-, m, hm, rfl⟩ := h.contents.child (List.prefix_append _ _) (by simp [contentRoot, cacheRoot]) hq
  obtain ⟨-, k, hk⟩ := mem_children.1 hq
  have heq : C.reuseRoot m = contentRoot ++ [n] ++ [k] := hk
  refine ⟨m, hm, rfl, ?_⟩
  rw [List.append_assoc] at heq
  have hkeys := List.append_cancel_left heq
  simp only [List.singleton_append, List.cons.injEq, and_true] at hkeys
  exact hkeys.1.symm

theorem listContentPrefix_eq (h : Inv C t) (hq : q ∈ t.children contentRoot) :
    listContentPrefix C t retained indexSet q =
      ((t.children q).mapM (listVariants C t retained indexSet q)) >>= fun groups => pure groups.flatten := by
  obtain ⟨hcol, m, -, rfl⟩ := mem_children_content h hq
  have hshape : ¬ ((contentRoot ++ [(C.reuseKey m).take 2]).dropLast ≠ contentRoot ∨
      isHexPrefix (name (contentRoot ++ [(C.reuseKey m).take 2])) = false) := by
    simp [isHexPrefix_take (C.isSha256_reuseKey m)]
  simp only [listContentPrefix, raiseIf, if_neg hshape, listChildren_of_mem h.base hcol, Guard.ok_bind]

/-- Reading the variants under a prefix raises only over a retained generation. -/
theorem listContentPrefix_raises (h : Inv C t) (hindex : ∀ m, Whole C t m → C.indexPath m ∈ indexSet)
    (hq : q ∈ t.children contentRoot) : Guard.Raises Retains (listContentPrefix C t retained indexSet q) := by
  rw [listContentPrefix_eq h hq]
  obtain ⟨-, m, -, rfl⟩ := mem_children_content h hq
  refine (Guard.raises_mapM fun r hr => ?_).bind fun _ => Guard.raises_pure _
  obtain ⟨m, hm, rfl, hn⟩ := mem_children_prefix h hr
  rw [hn, listVariants_eq h hm]
  refine Guard.raises_mapM fun v hv => ?_
  obtain ⟨m', hm', rfl, hroot⟩ := mem_children_variants h hv
  rw [← hroot, ← reuseKey_of_reuseRoot hroot, listVariant_eq h hm' (hindex m' hm')]
  exact boundVariant_raises m'

/-- Every whole variant is found. -/
theorem mem_found (h : Inv C t) (hindex : ∀ m, Whole C t m → C.indexPath m ∈ indexSet) {m : C.Manifest} (hm : Whole C t m)
    {groups : List (List (FoundVariant C))} (hgroups : (t.children contentRoot).mapM (listContentPrefix C t retained indexSet) = .ok groups) :
    ∃ v ∈ groups.flatten, v.manifest = m := by
  have hprefix : contentRoot ++ [(C.reuseKey m).take 2] ∈ t.children contentRoot :=
    mem_children.2 ⟨.inl (h.reuse_mem hm 4 (by omega)), _, rfl⟩
  obtain ⟨found, hfound, hok⟩ := Guard.mapM_ok_of_mem hgroups hprefix
  rw [listContentPrefix_eq h hprefix] at hok
  simp only [Guard.bind_eq_ok, Guard.pure_eq_ok] at hok
  obtain ⟨inner, hinner, rfl⟩ := hok
  have hreuse : C.reuseRoot m ∈ t.children (contentRoot ++ [(C.reuseKey m).take 2]) :=
    mem_children.2 ⟨.inl (h.reuse_mem hm 5 (by omega)), C.reuseKey m, by simp [ContentControls.reuseRoot]⟩
  obtain ⟨vs, hvs, hok⟩ := Guard.mapM_ok_of_mem hinner hreuse
  rw [listVariants_eq h hm] at hok
  have hvariant : C.variantRoot m ∈ t.children (C.reuseRoot m ++ ["variants".toList]) :=
    mem_children.2 ⟨.inl (h.variantRoot_mem hm), C.variantLabel m, by simp [ContentControls.variantRoot]⟩
  obtain ⟨v, hv, hok⟩ := Guard.mapM_ok_of_mem hok hvariant
  rw [listVariant_eq h hm (hindex m hm)] at hok
  exact ⟨v, List.mem_flatten.2 ⟨_, hfound, List.mem_flatten.2 ⟨vs, hvs, hv⟩⟩, manifest_of_boundVariant hok⟩

end

/-- The index lists the entries of the whole variants. -/
theorem mem_children_index (h : Inv C t) (hq : q ∈ t.children indexRoot) : ∃ m, Whole C t m ∧ q = C.indexPath m := by
  obtain ⟨hmem, n, rfl⟩ := mem_children.1 hq
  rcases hmem with hcol | hfile
  · have heq := h.contents.indexRoot_leaf _ hcol (List.prefix_append _ _)
    simp at heq
  · exact h.contents.index _ hfile (List.prefix_append _ _)

theorem markContentVariants_raises (h : Inv C t) (retained : List ((Str × Str) × Binding)) :
    Guard.Raises Retains (markContentVariants C t retained) := by
  set indexSet := if indexRoot ∈ t.collections then t.children indexRoot else [] with hindexSet
  set prefixes := if contentRoot ∈ t.collections then t.children contentRoot else [] with hprefixes
  have hindex : ∀ m, Whole C t m → C.indexPath m ∈ indexSet := by
    intro m hm
    rw [hindexSet, if_pos (h.indexRoot_mem hm)]
    exact mem_children.2 ⟨.inr (Tree.mem_paths.2 (by rw [hm.index]; rfl)), _, rfl⟩
  rw [markContentVariants, optionalChildren_eq h.base, ← hindexSet, Guard.ok_bind]
  refine Guard.Raises.bind_of_ok (Guard.raises_forM_of_mem fun entry hentry => Guard.raises_raiseIf_of_not ?_) fun _ _ => ?_
  · obtain ⟨m, -, rfl⟩ := mem_children_index h (mem_optionalChildren hentry)
    simp only [ContentControls.indexPath, List.dropLast_concat, ne_eq, not_true, name_append, false_or, not_not]
    exact List.suffix_append _ _
  rw [optionalChildren_eq h.base, ← hprefixes, Guard.ok_bind]
  refine Guard.Raises.bind_of_ok (Guard.raises_mapM fun p hp => listContentPrefix_raises h hindex (mem_optionalChildren hp))
    fun groups hgroups => ?_
  refine (Guard.raises_raiseIf_of_not ?_).bind fun _ => (Guard.raises_raiseIf ⟨_, rfl⟩).bind fun _ => Guard.raises_pure _
  rintro ⟨entry, hentry, hnot⟩
  obtain ⟨m, hm, rfl⟩ := mem_children_index h (mem_optionalChildren hentry)
  have hroot : contentRoot ∈ t.collections := h.reuse_mem hm 3 (by omega)
  rw [hprefixes, if_pos hroot] at hgroups
  obtain ⟨v, hv, hm'⟩ := mem_found h hindex hm hgroups
  exact hnot (List.mem_map.2 ⟨v, hv, by rw [hm']⟩)

/-! ### OCR caches -/

section
variable {root : Path} (hroot : root ∈ cacheRoots)
include hroot

theorem cache_child (h : Base t) (hp : p ∈ t.children root) :
    p ∈ t.collections ∧ ∃ key : Str, isSha256 key = true ∧ p = root ++ [key.take 2] := by
  obtain ⟨hmem, n, rfl⟩ := mem_children.1 hp
  have hcol : root ++ [n] ∈ t.collections := by
    refine hmem.resolve_right fun hfile => ?_
    obtain ⟨key, file, hrest, -⟩ := (h.known _ hfile).caches root hroot _ rfl
    simp at hrest
  obtain ⟨rest, -, -, hknown⟩ := h.collections _ hcol
  obtain ⟨key, file, hrest, hsha, -⟩ := hknown.caches root hroot _ (List.append_assoc _ _ _)
  simp only [List.singleton_append, List.cons.injEq] at hrest
  exact ⟨hcol, key, hsha, by rw [hrest.1]⟩

theorem cache_reuse (h : Base t) {n : Str} (hq : q ∈ t.children (root ++ [n])) :
    q ∈ t.collections ∧ ∃ key : Str, isSha256 key = true ∧ n = key.take 2 ∧ q = root ++ [n] ++ [key] := by
  obtain ⟨hmem, k, rfl⟩ := mem_children.1 hq
  have hcol : root ++ [n] ++ [k] ∈ t.collections := by
    refine hmem.resolve_right fun hfile => ?_
    obtain ⟨key, file, hrest, -⟩ := (h.known _ hfile).caches root hroot ([n] ++ [k]) (List.append_assoc _ _ _)
    simp at hrest
  obtain ⟨rest, -, -, hknown⟩ := h.collections _ hcol
  obtain ⟨key, file, hrest, hsha, -⟩ := hknown.caches root hroot ([n] ++ ([k] ++ rest)) (by simp)
  simp only [List.singleton_append, List.cons.injEq] at hrest
  exact ⟨hcol, key, hsha, hrest.1, by rw [hrest.2.1]⟩

theorem cache_members (h : Base t) {n key : Str} {k : Str} (hk : k ∈ (t.children (root ++ [n] ++ [key])).map name) :
    k ∈ [manifestName, readyName] := by
  obtain ⟨q, hq, rfl⟩ := List.mem_map.1 hk
  obtain ⟨hq, k, rfl⟩ := mem_children.1 hq
  rw [name_append]
  rcases hq with hq | hq
  · obtain ⟨rest, hne, -, hknown⟩ := h.collections _ hq
    obtain ⟨key', file, hrest, -⟩ := hknown.caches root hroot ([n] ++ ([key] ++ ([k] ++ rest))) (by simp)
    simp at hrest
    exact absurd hrest.2.2.2 hne
  · obtain ⟨key', file, hrest, -, hfile⟩ := (h.known _ hq).caches root hroot ([n] ++ ([key] ++ [k])) (by simp)
    simp only [List.singleton_append, List.cons.injEq, and_true] at hrest
    exact hrest.2.2 ▸ hfile

end

section
variable (controls : CacheControls) (retained required : List ((Str × Str) × List Binding)) {kind : Str}
  (hkind : cacheRoot kind ∈ cacheRoots)
include hkind

theorem markCache_raises (h : Base t) {n : Str} (hq : q ∈ t.children (cacheRoot kind ++ [n])) :
    Guard.Raises Retains (markCache t controls retained required kind (cacheRoot kind ++ [n]) q) := by
  obtain ⟨hcol, key, hsha, rfl, rfl⟩ := cache_reuse hkind h hq
  rw [markCache]
  refine (Guard.raises_raiseIf_of_not ?_).bind fun _ => ?_
  · rw [name_append, name_append]
    simp [hsha]
  rw [listChildren_of_mem h hcol, Guard.ok_bind, names_children]
  refine (Guard.raises_raiseIf_of_not ?_).bind fun _ => ?_
  · rw [List.length_map, not_or]
    exact ⟨by simp, fun ⟨k, hk, hnot⟩ => hnot (cache_members hkind h hk)⟩
  split
  · exact Guard.raises_pure _
  · exact (Guard.raises_raiseIf ⟨_, rfl⟩).bind fun _ => Guard.raises_pure _
  · split
    · exact Guard.raises_throw ⟨_, rfl⟩
    · exact Guard.raises_pure _
    · exact (Guard.raises_raiseIf ⟨_, rfl⟩).bind fun _ => (Guard.raises_raiseIf ⟨_, rfl⟩).bind fun _ => Guard.raises_pure _

theorem markPrefix_raises (h : Base t) (hp : p ∈ t.children (cacheRoot kind)) :
    Guard.Raises Retains (markPrefix t controls retained required kind p) := by
  obtain ⟨hcol, key, hsha, rfl⟩ := cache_child hkind h hp
  rw [markPrefix, listChildren_of_mem h hcol, Guard.ok_bind]
  refine (Guard.raises_raiseIf_of_not ?_).bind fun _ => Guard.raises_mapM fun q hq =>
    markCache_raises controls retained required hkind h hq
  rw [name_append]
  simp [isHexPrefix_take hsha]

end

theorem markOcrCaches_raises (h : Base t) (controls : CacheControls) (retained required : List ((Str × Str) × List Binding)) :
    Guard.Raises Retains (markOcrCaches t controls retained required) := by
  refine Guard.Raises.bind (Guard.raises_mapM fun kind hkind => ?_) fun _ =>
    (Guard.raises_raiseIf ⟨_, rfl⟩).bind fun _ => Guard.raises_pure _
  have hroot : cacheRoot kind ∈ cacheRoots := List.mem_map_of_mem (f := cacheRoot) hkind
  rw [optionalChildren_eq h, Guard.ok_bind]
  refine (Guard.raises_mapM fun p hp => ?_).bind fun _ => Guard.raises_pure _
  exact markPrefix_raises controls retained required hroot h (mem_optionalChildren hp)

/-! ### The mark phase -/

theorem Inv.markPhase_raises (h : Inv C t) (hgenerations : generationsRoot ∈ t.collections) (hobjects : objectsRoot ∈ t.collections)
    (controls : CacheControls) (R : Retained) : Guard.Raises Retains (markPhase C t controls R) := by
  refine (markContentVariants_raises h R.variants).bind fun content => ?_
  refine (markOcrCaches_raises h.base controls _ _).bind fun entries => ?_
  refine (Guard.raises_of_ok (listGenerationIds_ok h.base hgenerations)).bind fun ids => ?_
  refine (Guard.raises_of_ok (listCasObjects_ok h.base hobjects)).bind fun objects => ?_
  exact (Guard.raises_of_ok (listIncomingTempLeaves_ok h.base)).bind fun leaves => Guard.raises_pure _

/-- The checks of the mark phase never object to a tree that the worker wrote without replacing an index,
once it holds a generation and an object. -/
theorem worker_tree_accepted (sha256 : Bytes → Str) (ws : List (Write C)) (hw : ∀ w ∈ ws, w.Kept)
    (hrun : ws.foldlM (perform sha256) .empty = some t)
    (hgeneration : ∃ id, (t.file (generationsRoot ++ [id, manifestName])).isSome)
    (hobject : ∃ digest, (t.file (objectPath digest)).isSome) (controls : CacheControls) (R : Retained) :
    ∀ e, markPhase C t controls R = .error e → ∃ text, e = .retained text := by
  have h : Inv C t := Inv.of_run ⟨.empty, .empty⟩ hw hrun
  have hgenerations : generationsRoot ∈ t.collections := by
    obtain ⟨id, hfile⟩ := hgeneration
    exact h.base.parents _ (Tree.mem_paths.2 hfile) _ (List.prefix_append _ _) (by simp [generationsRoot]) (by simp)
  have hobjects : objectsRoot ∈ t.collections := by
    obtain ⟨digest, hfile⟩ := hobject
    exact h.base.parents _ (Tree.mem_paths.2 hfile) _ (List.prefix_append _ _) (by simp [objectsRoot]) (by simp [objectPath])
  exact h.markPhase_raises hgenerations hobjects controls R

/-! ### A run -/

/-- One content variant. -/
def oneVariant : ContentControls where
  Manifest := Unit
  reuseKey _ := List.replicate 64 'a'
  variantId _ := List.replicate 64 'b'
  variantLabel _ := "20240101T000000000000Z-aaaaaaaaaaaa".toList
  outputSha256 _ := List.replicate 64 'c'
  outputSizeBytes _ := 1
  migratedFrom _ := none
  isSha256_reuseKey _ := by decide
  canonicalBytes _ := [1]
  read body := if body = [1] then some () else none
  read_canonicalBytes _ := rfl
  readyBytes _ := [2]
  verifies body _ := body = [2]
  verifies_readyBytes _ := rfl
  indexBytes _ := [3]
  verifyOcr _ body := body = [4]

def twoDigests (content : Bytes) : Str := if content = [4] then List.replicate 64 'c' else List.replicate 64 'd'

/-- A content variant, a generation whose database was uploaded twice, its pointer and an object. -/
def published : List (Write oneVariant) :=
  [.variant () (some [4]), .member "g".toList "index.sqlite3".toList [5],
    .quarantine "g".toList "index.sqlite3".toList (List.replicate 32 'a'), .member "g".toList "index.sqlite3".toList [6],
    .immutable (generationsRoot ++ ["g".toList, manifestName]) [7], .immutable (generationsRoot ++ ["g".toList, readyName]) [8],
    .pointer "stable".toList [9], .cas [1]]

/-- `_atomic_replace_backup_index`. -/
def backupIndex : Write oneVariant :=
  .atomicReplace ["v1".toList, "backup".toList, "index.json".toList] [10] (List.replicate 32 'b')

/-- What the run has published, and what stops the mark phase on it. -/
def outcome (ws : List (Write oneVariant)) : Option (Bool × Bool × Option MarkFailure) :=
  (ws.foldlM (perform twoDigests) .empty).map fun t =>
    ((t.file (generationsRoot ++ ["g".toList, manifestName])).isSome, (t.file (objectPath (List.replicate 64 'd'))).isSome,
      match markPhase oneVariant t (fun _ _ _ _ => none) ⟨["g".toList], [], [], []⟩ with
      | .ok _ => none
      | .error e => some e)

theorem worker_tree_accepted_published : ∃ t, published.foldlM (perform twoDigests) .empty = some t ∧
    ∀ e, markPhase oneVariant t (fun _ _ _ _ => none) ⟨["g".toList], [], [], []⟩ = .error e → ∃ text, e = .retained text := by
  have hw : ∀ w ∈ published, w.Kept := by
    have hmember (n : Str) (hn : n ∈ generationMembers) : Known (generationsRoot ++ ["g".toList, n]) ∧
        Foreign (generationsRoot ++ ["g".toList, n]) :=
      ⟨.generation (by decide) hn, .of_root _ (by decide) (by decide)⟩
    simp only [published, List.forall_mem_cons, Write.Kept, List.not_mem_nil, false_imp_iff, implies_true, true_and, and_true]
    exact ⟨hmember _ (by decide), hmember _ (by decide)⟩
  have h : outcome published = some (true, true, none) := by decide +kernel
  obtain ⟨t, hrun, hfound⟩ := Option.map_eq_some_iff.1 h
  simp only [Prod.mk.injEq] at hfound
  exact ⟨t, hrun, worker_tree_accepted twoDigests published hw hrun ⟨_, hfound.1⟩ ⟨_, hfound.2.1⟩ _ _⟩

/-- `atomic_replace_bytes` leaves a collection that the mark phase does not know. -/
theorem backup_index_stops_collection : ∃ t, (published ++ [backupIndex]).foldlM (perform twoDigests) .empty = some t ∧
    (t.file (generationsRoot ++ ["g".toList, manifestName])).isSome ∧ (t.file (objectPath (List.replicate 64 'd'))).isSome ∧
    markPhase oneVariant t (fun _ _ _ _ => none) ⟨["g".toList], [], [], []⟩ =
      .error (.shape "unexpected incoming namespace path".toList) := by
  have h : outcome (published ++ [backupIndex]) =
      some (true, true, some (.shape "unexpected incoming namespace path".toList)) := by
    decide +kernel
  obtain ⟨t, hrun, hfound⟩ := Option.map_eq_some_iff.1 h
  simp only [Prod.mk.injEq] at hfound
  refine ⟨t, hrun, hfound.1, hfound.2.1, ?_⟩
  generalize markPhase oneVariant t (fun _ _ _ _ => none) ⟨["g".toList], [], [], []⟩ = r at hfound ⊢
  cases r with
  | ok _ => cases hfound.2.2
  | error e => rw [Option.some.inj hfound.2.2]

end CardRag.Gc
