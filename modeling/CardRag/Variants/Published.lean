import CardRag.Gc.Accepts
import CardRag.Lib.Permuted
import CardRag.Variants.Lookup

/-! # What the publication of a variant leaves (`content_cache.py`)

`_publish_controls` completes where its three paths are free, and adds one entry to the index. -/

namespace CardRag.Variants

open Publish (Path Bytes validPath)
open Gc (Tree indexRoot manifestName readyName ContentControls)

/-- The path is free, or has the bytes already. -/
def Writable (t : Tree) (p : Path) (content : Bytes) : Prop := ∀ old, t.file p = some old → old = content

section
variable {t t' : Tree} {p q : Path} {content : Bytes}

theorem publishImmutable_isSome (hvalid : validPath p = true) (h : Writable t p content) :
    ∃ t', Gc.publishImmutable t p content = some t' := by
  cases hfile : t.file p with
  | none => exact ⟨_, Gc.publishImmutable_eq_some.2 ⟨hvalid, .inr ⟨hfile, rfl⟩⟩⟩
  | some old =>
    obtain rfl := h old hfile
    exact ⟨t, Gc.publishImmutable_eq_some.2 ⟨hvalid, .inl ⟨hfile, rfl⟩⟩⟩

/-- What an immutable write finds and leaves. -/
theorem of_publishImmutable (h : Gc.publishImmutable t p content = some t') :
    Writable t p content ∧ (∀ q, q ≠ p → t'.file q = t.file q) ∧ t.collections ⊆ t'.collections := by
  obtain ⟨-, ⟨hfile, rfl⟩ | ⟨hnone, rfl⟩⟩ := Gc.publishImmutable_eq_some.1 h
  · refine ⟨fun old hold => ?_, fun _ _ => rfl, List.Subset.refl _⟩
    exact Option.some.inj (hold.symm.trans hfile)
  · refine ⟨fun old hold => ?_, fun q hq => ?_, fun q hq => ?_⟩
    · rw [hnone] at hold
      cases hold
    · rw [Tree.file_put, if_neg (Ne.symm hq), Tree.file_ensure, Tree.file_ensure]
    · rw [Tree.collections_put]
      exact Tree.mem_collections_ensure.2 (.inl (Tree.mem_collections_ensure.2 (.inl hq)))

end

section
variable {C : ContentControls} {t t' : Tree} {m : C.Manifest} {q : Path}

theorem manifest_ne_ready : C.variantRoot m ++ [readyName] ≠ C.variantRoot m ++ [manifestName] := by
  intro h
  exact absurd (List.append_cancel_left h) (by decide)

theorem control_ne_index (n : Str) : C.indexPath m ≠ C.variantRoot m ++ [n] := by
  intro h
  have hroot := h ▸ Gc.indexRoot_prefix_indexPath m
  rcases List.prefix_or_prefix_of_prefix hroot (Gc.contentRoot_prefix_manifest m n) with hroot | hroot
  · exact absurd hroot (by decide)
  · exact absurd hroot (by decide)

/-- The three writes complete on valid paths that are free or have the bytes. -/
theorem publishControls_isSome (hpaths : ∀ p ∈ [C.variantRoot m ++ [manifestName], C.variantRoot m ++ [readyName],
    C.indexPath m], validPath p = true) (hmanifest : Writable t (C.variantRoot m ++ [manifestName]) (C.canonicalBytes m))
    (hready : Writable t (C.variantRoot m ++ [readyName]) (C.readyBytes m))
    (hindex : Writable t (C.indexPath m) (C.indexBytes m)) : ∃ t', Gc.publishControls t m = some t' := by
  obtain ⟨t₁, h₁⟩ := publishImmutable_isSome (hpaths _ (by simp)) hmanifest
  obtain ⟨-, hfile₁, -⟩ := of_publishImmutable h₁
  have hready₁ : Writable t₁ (C.variantRoot m ++ [readyName]) (C.readyBytes m) := by
    intro old hold
    rw [hfile₁ _ manifest_ne_ready] at hold
    exact hready old hold
  obtain ⟨t₂, h₂⟩ := publishImmutable_isSome (hpaths _ (by simp)) hready₁
  obtain ⟨-, hfile₂, -⟩ := of_publishImmutable h₂
  have hindex₂ : Writable t₂ (C.indexPath m) (C.indexBytes m) := by
    intro old hold
    rw [hfile₂ _ (control_ne_index _), hfile₁ _ (control_ne_index _)] at hold
    exact hindex old hold
  obtain ⟨t₃, h₃⟩ := publishImmutable_isSome (hpaths _ (by simp)) hindex₂
  exact ⟨t₃, by simp [Gc.publishControls, h₁, h₂, h₃]⟩

/-- What the three writes find and leave. -/
structure Published (C : ContentControls) (t t' : Tree) (m : C.Manifest) : Prop where
  manifest : Writable t (C.variantRoot m ++ [manifestName]) (C.canonicalBytes m)
  ready : Writable t (C.variantRoot m ++ [readyName]) (C.readyBytes m)
  index : Writable t (C.indexPath m) (C.indexBytes m)
  manifest_file : t'.file (C.variantRoot m ++ [manifestName]) = some (C.canonicalBytes m)
  ready_file : t'.file (C.variantRoot m ++ [readyName]) = some (C.readyBytes m)
  index_file : t'.file (C.indexPath m) = some (C.indexBytes m)
  keep : ∀ q c, t.file q = some c → t'.file q = some c
  children : ∀ q, q ∈ t'.children indexRoot ↔ q = C.indexPath m ∨ q ∈ t.children indexRoot

theorem published (h : Gc.publishControls t m = some t') : Published C t t' m := by
  simp only [Gc.publishControls, Option.bind_eq_bind, Option.bind_eq_some_iff] at h
  obtain ⟨t₁, h₁, t₂, h₂, h₃⟩ := h
  obtain ⟨hm₁, keep₁⟩ := Gc.file_of_publishImmutable h₁
  obtain ⟨hm₂, keep₂⟩ := Gc.file_of_publishImmutable h₂
  obtain ⟨hm₃, keep₃⟩ := Gc.file_of_publishImmutable h₃
  obtain ⟨hw₁, hfile₁, hcol₁⟩ := of_publishImmutable h₁
  obtain ⟨hw₂, hfile₂, hcol₂⟩ := of_publishImmutable h₂
  obtain ⟨hw₃, -, hcol₃⟩ := of_publishImmutable h₃
  have keep (q : Path) (c : Bytes) (hq : t.file q = some c) : t'.file q = some c := keep₃ _ _ (keep₂ _ _ (keep₁ _ _ hq))
  refine ⟨hw₁, fun old hold => ?_, fun old hold => ?_, keep₃ _ _ (keep₂ _ _ hm₁), keep₃ _ _ hm₂, hm₃, keep, fun q => ?_⟩
  · rw [← hfile₁ _ manifest_ne_ready] at hold
    exact hw₂ old hold
  · rw [← hfile₁ _ (control_ne_index _), ← hfile₂ _ (control_ne_index _)] at hold
    exact hw₃ old hold
  · rw [Gc.mem_children, Gc.mem_children]
    constructor
    · rintro ⟨hq, n, rfl⟩
      have hunder : indexRoot <+: indexRoot ++ [n] := List.prefix_append _ _
      have hout (r : Path) (hr : indexRoot ++ [n] <+: r) (hroot : ¬ indexRoot <+: r) : False := hroot (hunder.trans hr)
      have hcontrol (name : Str) : indexRoot ++ [n] ≠ C.variantRoot m ++ [name] := by
        intro heq
        rcases List.prefix_or_prefix_of_prefix (heq ▸ hunder) (Gc.contentRoot_prefix_manifest m name) with h | h
        · exact absurd h (by decide)
        · exact absurd h (by decide)
      rcases hq with hq | hq
      · refine .inr ⟨.inl ?_, n, rfl⟩
        rcases Gc.collections_of_publishImmutable h₃ hq with hq | hq | hq
        · rcases Gc.collections_of_publishImmutable h₂ hq with hq | hq | hq
          · rcases Gc.collections_of_publishImmutable h₁ hq with hq | hq | hq
            · exact hq
            · exact (hout _ (by simpa using hq) (Gc.not_indexRoot_variantRoot m)).elim
            · exact (hq.2 hunder).elim
          · exact (hout _ (by simpa using hq) (Gc.not_indexRoot_variantRoot m)).elim
          · exact (hq.2 hunder).elim
        · have hlen := hq.length_le
          simp [ContentControls.indexPath] at hlen
        · exact (hq.2 hunder).elim
      · rcases Gc.paths_of_publishImmutable h₃ hq with hq | hq
        · rcases Gc.paths_of_publishImmutable h₂ hq with hq | hq
          · rcases Gc.paths_of_publishImmutable h₁ hq with hq | hq
            · exact .inr ⟨.inr hq, n, rfl⟩
            · exact (hcontrol _ hq).elim
          · exact (hcontrol _ hq).elim
        · exact .inl hq
    · rintro (rfl | ⟨hq, hn⟩)
      · exact ⟨.inr (Tree.mem_paths.2 (by rw [hm₃]; rfl)), _, rfl⟩
      · refine ⟨hq.imp (fun hq => hcol₃ (hcol₂ (hcol₁ hq))) fun hq => ?_, hn⟩
        obtain ⟨c, hc⟩ := Option.isSome_iff_exists.1 (Tree.mem_paths.1 hq)
        exact Tree.mem_paths.2 (by rw [keep q c hc]; rfl)

/-- The index gains the entry. -/
theorem Published.perm (h : Published C t t' m) (hnew : C.indexPath m ∉ t.children indexRoot) :
    (C.indexPath m :: t.children indexRoot).Perm (t'.children indexRoot) := by
  refine (List.perm_ext_iff_of_nodup (List.nodup_cons.2 ⟨hnew, Gc.nodup_children⟩) Gc.nodup_children).2 fun q => ?_
  rw [h.children, List.mem_cons]

theorem posix_inj {a b : Path} (ha : a ∈ t.children indexRoot) (hb : b ∈ t.children indexRoot)
    (h : posix a = posix b) : a = b := by
  obtain ⟨-, n, rfl⟩ := Gc.mem_children.1 ha
  obtain ⟨-, n', rfl⟩ := Gc.mem_children.1 hb
  have hposix (n : Str) : posix (indexRoot ++ [n]) = "v1/ocr-cache/content-index/".toList ++ n := by
    simp [posix, indexRoot, Gc.cacheRoot, List.intersperse]
  rw [hposix, hposix] at h
  rw [List.append_cancel_left h]

/-- The listing of a fresh run. -/
theorem Published.sorted (h : Published C t t' m) (hnew : C.indexPath m ∉ t.children indexRoot) :
    PyList.sortedBy posix (C.indexPath m :: t.children indexRoot) = PyList.sortedBy posix (t'.children indexRoot) := by
  refine PyList.sortedBy_eq_of_perm (h.perm hnew) fun a ha b hb => ?_
  exact posix_inj ((h.perm hnew).mem_iff.1 ha) ((h.perm hnew).mem_iff.1 hb)

end

end CardRag.Variants
