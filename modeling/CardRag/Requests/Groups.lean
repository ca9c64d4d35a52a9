import CardRag.Requests.Directory

/-! # Targets by issuer

`groups` is the partition of the targets by their issuer: a group for each issuer among them, with all of its
targets in their order. So children are valid requests of one issuer each, and together have what their parent has. -/

namespace CardRag.Requests

open Gc (validIdentifier)

variable {H : Sha256} {issuers : List (Str × Str)} {targets : List Target} {g : List (Str × List Target)}

/-- The targets of one issuer. -/
def ofIssuer (issuers : List (Str × Str)) (issuer : Str) (targets : List Target) : List Target :=
  targets.filter fun t => issuerOf issuers t = some issuer

structure Grouped (issuers : List (Str × Str)) (targets : List Target) (g : List (Str × List Target)) : Prop where
  keys : (g.map (·.1)).Nodup
  known : ∀ t ∈ targets, (issuerOf issuers t).isSome
  get : ∀ i, PyList.get? g i = if ofIssuer issuers i targets = [] then none else some (ofIssuer issuers i targets)

theorem groups_append (t : Target) : groups issuers (targets ++ [t]) =
    (groups issuers targets).bind fun g => (issuerOf issuers t).map fun i =>
      PyList.insert i ((PyList.get? g i).getD [] ++ [t]) g := by
  simp [groups, List.foldlM_append]

theorem Grouped.append {t : Target} {i : Str} (h : Grouped issuers targets g) (hi : issuerOf issuers t = some i) :
    Grouped issuers (targets ++ [t]) (PyList.insert i ((PyList.get? g i).getD [] ++ [t]) g) := by
  refine ⟨PyList.nodup_keys_insert h.keys, ?_, fun j => ?_⟩
  · intro u hu
    rcases List.mem_append.1 hu with hu | hu
    · exact h.known u hu
    · rw [List.mem_singleton.1 hu, hi]
      rfl
  · rw [PyList.get?_insert]
    have hfilter : ofIssuer issuers j (targets ++ [t]) = ofIssuer issuers j targets ++ (if i = j then [t] else []) := by
      rw [ofIssuer, List.filter_append, ← ofIssuer]
      by_cases hij : i = j <;> simp [hi, hij]
    rw [hfilter]
    by_cases hij : i = j
    · subst hij
      rw [if_pos rfl, if_pos rfl, if_neg (by simp), h.get i]
      by_cases hempty : ofIssuer issuers i targets = [] <;> simp [hempty]
    · rw [if_neg hij, if_neg hij, List.append_nil]
      exact h.get j

theorem groups_spec (h : groups issuers targets = some g) : Grouped issuers targets g := by
  induction targets using List.reverseRecOn generalizing g with
  | nil =>
    obtain rfl : ([] : List (Str × List Target)) = g := Option.some.inj h
    exact ⟨by simp, by simp, fun i => by simp [PyList.get?, ofIssuer]⟩
  | append_singleton targets t ih =>
    rw [groups_append, Option.bind_eq_some_iff] at h
    obtain ⟨g', hg', h⟩ := h
    obtain ⟨i, hi, rfl⟩ := Option.map_eq_some_iff.1 h
    exact (ih hg').append hi

theorem exists_groups (h : ∀ t ∈ targets, (issuerOf issuers t).isSome) : ∃ g, groups issuers targets = some g := by
  induction targets using List.reverseRecOn with
  | nil => exact ⟨[], rfl⟩
  | append_singleton targets t ih =>
    obtain ⟨g, hg⟩ := ih fun u hu => h u (by simp [hu])
    obtain ⟨i, hi⟩ := Option.isSome_iff_exists.1 (h t (by simp))
    exact ⟨_, by rw [groups_append, hg, hi]; rfl⟩

namespace Grouped

theorem mem_iff (h : Grouped issuers targets g) {i : Str} {us : List Target} :
    (i, us) ∈ g ↔ us = ofIssuer issuers i targets ∧ us ≠ [] := by
  rw [PyList.mem_iff_get? h.keys, h.get i]
  by_cases hempty : ofIssuer issuers i targets = []
  · simp only [hempty, if_pos]
    constructor
    · intro hno
      cases hno
    · rintro ⟨rfl, hne⟩
      exact absurd rfl hne
  · rw [if_neg hempty, Option.some.injEq]
    constructor
    · rintro rfl
      exact ⟨rfl, hempty⟩
    · rintro ⟨rfl, -⟩
      rfl

theorem mem_of_target (h : Grouped issuers targets g) {t : Target} {i : Str} (ht : t ∈ targets)
    (hi : issuerOf issuers t = some i) : (i, ofIssuer issuers i targets) ∈ g := by
  have hmem : t ∈ ofIssuer issuers i targets := List.mem_filter.2 ⟨ht, by simpa using hi⟩
  exact h.mem_iff.2 ⟨rfl, List.ne_nil_of_mem hmem⟩

/-- Targets of one issuer make one group. -/
theorem length_le_one (h : Grouped issuers targets g) {i : Str} (hone : ∀ t ∈ targets, issuerOf issuers t = some i) :
    g.length ≤ 1 := by
  have hkeys : ∀ k ∈ g.map (·.1), k = i := by
    intro k hk
    obtain ⟨⟨k', us⟩, hmem, rfl⟩ := List.mem_map.1 hk
    obtain ⟨rfl, hne⟩ := h.mem_iff.1 hmem
    obtain ⟨t, ht⟩ := List.exists_mem_of_ne_nil _ hne
    obtain ⟨hmem, hi⟩ := List.mem_filter.1 ht
    have hk : issuerOf issuers t = some k' := by simpa using hi
    exact Option.some.inj (hk.symm.trans (hone t hmem))
  have hrep : g.map (·.1) = List.replicate (g.map (·.1)).length i := List.eq_replicate_iff.2 ⟨rfl, hkeys⟩
  have hnd := h.keys
  rw [hrep, List.nodup_replicate] at hnd
  simpa using hnd

/-- Two issuers among the targets make two groups. -/
theorem two_le_length (h : Grouped issuers targets g) {t t' : Target} (ht : t ∈ targets) (ht' : t' ∈ targets)
    (hne : issuerOf issuers t ≠ issuerOf issuers t') : 2 ≤ g.length := by
  obtain ⟨i, hi⟩ := Option.isSome_iff_exists.1 (h.known t ht)
  obtain ⟨i', hi'⟩ := Option.isSome_iff_exists.1 (h.known t' ht')
  have hmem := h.mem_of_target ht hi
  have hmem' := h.mem_of_target ht' hi'
  by_contra hlt
  match g, hlt with
  | [], _ => simp at hmem
  | [e], _ =>
    rw [List.mem_singleton] at hmem hmem'
    have hii : i = i' := congrArg Prod.fst (hmem.trans hmem'.symm)
    exact hne (by rw [hi, hi', hii])
  | _ :: _ :: _, hlt => simp at hlt

end Grouped

/-! ### Children -/

theorem mem_children {parent c : Request} : c ∈ children H parent g ↔ ∃ e ∈ g, child H parent e = c := by
  simp [children]

theorem validIdentifier_child (H : Sha256) (parent : Request) (e : Str × List Target) :
    validIdentifier (child H parent e).requestId = true := by
  set digest := H.canonical (.arr [.str parent.requestId, .str e.1]) with hd
  have hsha : isSha256 digest = true := H.isSha256_hexdigest _
  simp only [isSha256, Bool.and_eq_true, beq_iff_eq, List.all_eq_true] at hsha
  have hid : (child H parent e).requestId = 'o' :: ("cr-child-".toList ++ digest) := rfl
  have hdigits : ∀ c ∈ digest, Publish.isPortable c = true := by
    intro c hc
    have hhex := hsha.2 c hc
    simp only [isHexDigit, Bool.or_eq_true, Bool.and_eq_true, decide_eq_true_eq] at hhex
    simp only [Publish.isPortable, Char.isAlphanum, Char.isAlpha, Char.isLower, Bool.or_eq_true, decide_eq_true_eq,
      Bool.and_eq_true]
    rcases hhex with hhex | ⟨hlow, hhigh⟩
    · exact .inl (.inl (.inl (.inr hhex)))
    · exact .inl (.inl (.inl (.inl (.inr ⟨hlow, hhigh.trans (by decide)⟩))))
  rw [hid, validIdentifier, Bool.and_eq_true, Bool.and_eq_true, List.all_append, Bool.and_eq_true, decide_eq_true_eq]
  refine ⟨⟨by decide, by decide +kernel, List.all_eq_true.2 hdigits⟩, ?_⟩
  simp [hsha.1]

/-- A child has its issuer's targets of the parent, so it is as valid as the parent. -/
theorem valid_child {parent c : Request} (hvalid : parent.Valid) (hg : Grouped issuers parent.targets g)
    (hc : c ∈ children H parent g) : c.Valid := by
  obtain ⟨⟨i, us⟩, he, rfl⟩ := mem_children.1 hc
  obtain ⟨-, hgen, ⟨-, hmax⟩, htargets, hdistinct⟩ := hvalid
  obtain ⟨rfl, hne⟩ := hg.mem_iff.1 he
  have hsub : (ofIssuer issuers i parent.targets).Sublist parent.targets := List.filter_sublist
  refine ⟨validIdentifier_child H parent _, hgen, ⟨?_, ?_⟩, ?_, ?_⟩
  · exact List.length_pos_iff.2 hne
  · exact hsub.length_le.trans hmax
  · exact fun t ht => htargets t (hsub.subset ht)
  · exact (hsub.map _).nodup hdistinct

theorem issuer_child {parent c : Request} (hg : Grouped issuers parent.targets g) (hc : c ∈ children H parent g) :
    ∃ i, ∀ t ∈ c.targets, issuerOf issuers t = some i := by
  obtain ⟨⟨i, us⟩, he, rfl⟩ := mem_children.1 hc
  obtain ⟨rfl, -⟩ := hg.mem_iff.1 he
  exact ⟨i, fun t ht => by simpa using (List.mem_filter.1 ht).2⟩

/-- No child is mixed. -/
theorem length_groups_child {parent c : Request} (hg : Grouped issuers parent.targets g) (hc : c ∈ children H parent g)
    {g' : List (Str × List Target)} (hg' : Grouped issuers c.targets g') : g'.length ≤ 1 := by
  obtain ⟨i, hi⟩ := issuer_child hg hc
  exact hg'.length_le_one hi

theorem cover_children {parent : Request} (hg : Grouped issuers parent.targets g) (t : Target) :
    t ∈ parent.targets ↔ ∃ c ∈ children H parent g, t ∈ c.targets := by
  constructor
  · intro ht
    obtain ⟨i, hi⟩ := Option.isSome_iff_exists.1 (hg.known t ht)
    refine ⟨_, mem_children.2 ⟨_, hg.mem_of_target ht hi, rfl⟩, ?_⟩
    exact List.mem_filter.2 ⟨ht, by simpa using hi⟩
  · rintro ⟨c, hc, ht⟩
    obtain ⟨⟨i, us⟩, he, rfl⟩ := mem_children.1 hc
    obtain ⟨rfl, -⟩ := hg.mem_iff.1 he
    exact (List.mem_filter.1 ht).1

/-- No document is in two children. -/
theorem disjoint_children {parent : Request} (hg : Grouped issuers parent.targets g) :
    (children H parent g).Pairwise fun c c' => ∀ t ∈ c.targets, ∀ t' ∈ c'.targets, t.documentId ≠ t'.documentId := by
  have hnd : ((PyList.sortedBy (·.1) g).map (·.1)).Nodup :=
    ((PyList.sortedBy_perm (·.1) g).map (·.1)).nodup_iff.2 hg.keys
  rw [children, List.pairwise_map]
  refine ((List.pairwise_map.1 hnd).imp_of_mem ?_)
  rintro ⟨i, us⟩ ⟨i', us'⟩ he he' hne t ht t' ht' hdoc
  obtain ⟨rfl, -⟩ := hg.mem_iff.1 (PyList.mem_sortedBy.1 he)
  obtain ⟨rfl, -⟩ := hg.mem_iff.1 (PyList.mem_sortedBy.1 he')
  have hi : issuerOf issuers t = some i := by simpa using (List.mem_filter.1 ht).2
  have hi' : issuerOf issuers t' = some i' := by simpa using (List.mem_filter.1 ht').2
  rw [issuerOf, hdoc, ← issuerOf, hi'] at hi
  exact hne (Option.some.inj hi).symm

end CardRag.Requests
