import CardRag.Structure.Lossless
import CardRag.Structure.Views

/-! # Spans and groups of views

What `_ordered_unique_spans` keeps (the source keys), what `_partition_spans` returns (groups that
together hold every unit, a single one exactly when every leading part fits), and what `append_view`
adds. -/

namespace CardRag

section
variable {spans : List NodeSpan} {s t : NodeSpan}

theorem mem_orderedUniqueSpans (h : s ∈ orderedUniqueSpans spans) : ∃ t ∈ spans, s.sourceKey = t.sourceKey := by
  obtain ⟨⟨t, i⟩, hti, rfl⟩ := List.mem_map.1 h
  have ht : t ∈ PyList.sortedBy (·.position) (PyList.values (PyList.dictOf (·.sourceKey) spans)) :=
    (List.mem_zipIdx' hti).2 ▸ List.getElem_mem _
  exact ⟨t, PyList.mem_values_dictOf (PyList.mem_sortedBy.1 ht), rfl⟩

theorem exists_orderedUniqueSpans (h : s ∈ spans) : ∃ t ∈ orderedUniqueSpans spans, t.sourceKey = s.sourceKey := by
  obtain ⟨t, ht, hk⟩ := @PyList.exists_mem_values_dictOf _ _ _ NodeSpan.sourceKey _ _ h
  have hts : t ∈ PyList.sortedBy (·.position) (PyList.values (PyList.dictOf (·.sourceKey) spans)) :=
    PyList.mem_sortedBy.2 ht
  obtain ⟨i, hi⟩ := List.getElem?_of_mem hts
  refine ⟨t.withOrdinal i none, List.mem_map.2 ⟨(t, i), List.mk_mem_zipIdx_iff_getElem?.2 hi, rfl⟩, hk⟩

theorem orderedUniqueSpans_eq_nil : orderedUniqueSpans spans = [] ↔ spans = [] := by
  constructor
  · intro h
    refine List.eq_nil_iff_forall_not_mem.2 fun s hs => ?_
    obtain ⟨t, ht, -⟩ := exists_orderedUniqueSpans hs
    rw [h] at ht
    cases ht
  · rintro rfl
    rfl

theorem Holds_of_sourceKey {page offset : Nat} (hk : s.sourceKey = t.sourceKey) (h : s.Holds page offset) :
    t.Holds page offset := by
  simp only [NodeSpan.sourceKey, Prod.mk.injEq] at hk
  obtain ⟨h1, h2, h3, -⟩ := hk
  exact ⟨h1 ▸ h.1, h2 ▸ h.2.1, h3 ▸ h.2.2⟩

theorem spanText_of_sourceKey (pages : List StructurePage) (hk : s.sourceKey = t.sourceKey) :
    spanText pages s = spanText pages t := by
  simp only [NodeSpan.sourceKey, Prod.mk.injEq] at hk
  obtain ⟨h1, h2, h3, -⟩ := hk
  simp only [spanText, h1, h2, h3]

end

namespace StructureArtifact
variable {H : Sha256} {a : StructureArtifact} {lim : ViewLimits}

/-- A span with text on the pages of the artifact. -/
def HasText (a : StructureArtifact) (s : NodeSpan) : Prop := spanText a.pages s ≠ []

theorem SpanOk.hasText {s : NodeSpan} {page : StructurePage} (h : SpanOk H a.pages s page) : a.HasText s := by
  intro hnil
  have hlen := PyStr.length_slice (a := s.sourceStart) h.end_le
  rw [spanText, h.page_eq] at hnil
  dsimp only at hnil
  have hlt := h.start_lt
  rw [hnil] at hlen
  simp only [List.length_nil] at hlen
  omega

theorem textOf_ne_nil {spans : List NodeSpan} (hne : spans ≠ []) (h : ∀ s ∈ spans, a.HasText s) :
    a.textOf (orderedUniqueSpans spans) ≠ [] := by
  obtain ⟨s, hs⟩ := List.exists_mem_of_ne_nil spans hne
  obtain ⟨t, ht, hk⟩ := exists_orderedUniqueSpans hs
  intro hnil
  have hempty : spanText a.pages t = [] := List.flatMap_eq_nil_iff.1 hnil t ht
  exact h s hs (by rw [← spanText_of_sourceKey a.pages hk, hempty])

theorem hasText_orderedUnique {spans : List NodeSpan} (h : ∀ s ∈ spans, a.HasText s) :
    ∀ s ∈ orderedUniqueSpans spans, a.HasText s := by
  intro s hs
  obtain ⟨t, ht, hk⟩ := mem_orderedUniqueSpans hs
  show spanText a.pages s ≠ []
  rw [spanText_of_sourceKey a.pages hk]
  exact h t ht

/-! ### Partitioning -/

/-- The text of leading units, as one detail of an item. -/
def detailInput (a : StructureArtifact) (context : List Str) (units : List (List NodeSpan)) : Str :=
  embeddingInput .detail (a.textOf (orderedUniqueSpans (units.flatMap orderedUniqueSpans))) context

section
variable {context : List Str} {p p' : Partition} {unit : List NodeSpan} {units done : List (List NodeSpan)}

/-- What one unit does to the open group. -/
theorem partitionStep_cases (h : a.partitionStep lim context p unit = .ok p') :
    (p'.groups = p.groups ∧ p'.pending = p.pending ++ orderedUniqueSpans unit ∧
      (p.pending = [] ∨ lim.within
        (embeddingInput .detail (a.textOf (orderedUniqueSpans (p.pending ++ orderedUniqueSpans unit))) context) =
          .ok true)) ∨
    (p'.groups = p.groups ++ [orderedUniqueSpans p.pending] ∧ p'.pending = orderedUniqueSpans unit ∧
      p.pending ≠ [] ∧ lim.within
        (embeddingInput .detail (a.textOf (orderedUniqueSpans (p.pending ++ orderedUniqueSpans unit))) context) =
          .ok false) := by
  simp only [partitionStep, Guard.bind_eq_ok, raiseIf_eq_ok, Guard.exists_unit] at h
  obtain ⟨fits, -, -, h⟩ := h
  split at h
  · rename_i hnil
    simp only [Guard.pure_eq_ok] at h
    subst h
    exact .inl ⟨rfl, rfl, .inl hnil⟩
  · rename_i hne
    simp only [Guard.bind_eq_ok] at h
    obtain ⟨joins, hj, h⟩ := h
    cases joins with
    | true =>
      simp only [if_true, Guard.pure_eq_ok] at h
      subst h
      exact .inl ⟨rfl, rfl, .inr hj⟩
    | false =>
      simp only [Bool.false_eq_true, if_false, Guard.pure_eq_ok] at h
      subst h
      exact .inr ⟨rfl, rfl, hne, hj⟩

/-- Every source key of the units is in a group, and every group holds text of the units. -/
structure PartitionOk (units : List (List NodeSpan)) (p : Partition) : Prop where
  cover : ∀ s ∈ units.flatten, (∃ g ∈ p.groups, ∃ t ∈ g, t.sourceKey = s.sourceKey) ∨
    ∃ t ∈ p.pending, t.sourceKey = s.sourceKey
  groups_ne : ∀ g ∈ p.groups, g ≠ []
  source : ∀ s, (s ∈ p.pending ∨ ∃ g ∈ p.groups, s ∈ g) → ∃ t ∈ units.flatten, s.sourceKey = t.sourceKey
  pending : units ≠ [] → p.pending ≠ []

theorem PartitionOk.step (hp : PartitionOk done p) (hu : unit ≠ [])
    (h : a.partitionStep lim context p unit = .ok p') : PartitionOk (done ++ [unit]) p' := by
  have hmem : ∀ s, s ∈ (done ++ [unit]).flatten ↔ s ∈ done.flatten ∨ s ∈ unit := by simp
  have hnorm : orderedUniqueSpans unit ≠ [] := fun hn => hu (orderedUniqueSpans_eq_nil.1 hn)
  rcases partitionStep_cases h with ⟨hg, hpd, -⟩ | ⟨hg, hpd, hne, -⟩
  · refine ⟨fun s hs => ?_, hg ▸ hp.groups_ne, fun s hs => ?_, fun _ => by simp [hpd, hnorm]⟩
    · rw [hg, hpd]
      rcases (hmem s).1 hs with hs | hs
      · rcases hp.cover s hs with hc | ⟨t, ht, hk⟩
        · exact .inl hc
        · exact .inr ⟨t, List.mem_append_left _ ht, hk⟩
      · obtain ⟨t, ht, hk⟩ := exists_orderedUniqueSpans hs
        exact .inr ⟨t, List.mem_append_right _ ht, hk⟩
    · rw [hg, hpd] at hs
      rcases hs with hs | hs
      · rcases List.mem_append.1 hs with hs | hs
        · obtain ⟨t, ht, hk⟩ := hp.source s (.inl hs)
          exact ⟨t, (hmem t).2 (.inl ht), hk⟩
        · obtain ⟨t, ht, hk⟩ := mem_orderedUniqueSpans hs
          exact ⟨t, (hmem t).2 (.inr ht), hk⟩
      · obtain ⟨t, ht, hk⟩ := hp.source s (.inr hs)
        exact ⟨t, (hmem t).2 (.inl ht), hk⟩
  · refine ⟨fun s hs => ?_, fun g hgm => ?_, fun s hs => ?_, fun _ => by simp [hpd, hnorm]⟩
    · rw [hg, hpd]
      rcases (hmem s).1 hs with hs | hs
      · rcases hp.cover s hs with ⟨g, hgm, hc⟩ | ⟨t, ht, hk⟩
        · exact .inl ⟨g, List.mem_append_left _ hgm, hc⟩
        · obtain ⟨u, hu', hk'⟩ := exists_orderedUniqueSpans ht
          exact .inl ⟨_, List.mem_append_right _ (List.mem_singleton_self _), u, hu', hk'.trans hk⟩
      · obtain ⟨t, ht, hk⟩ := exists_orderedUniqueSpans hs
        exact .inr ⟨t, ht, hk⟩
    · rw [hg] at hgm
      rcases List.mem_append.1 hgm with hgm | hgm
      · exact hp.groups_ne g hgm
      · rw [List.mem_singleton.1 hgm]
        exact fun hn => hne (orderedUniqueSpans_eq_nil.1 hn)
    · rw [hg, hpd] at hs
      rcases hs with hs | ⟨g, hgm, hs⟩
      · obtain ⟨t, ht, hk⟩ := mem_orderedUniqueSpans hs
        exact ⟨t, (hmem t).2 (.inr ht), hk⟩
      · rcases List.mem_append.1 hgm with hgm | hgm
        · obtain ⟨t, ht, hk⟩ := hp.source s (.inr ⟨g, hgm, hs⟩)
          exact ⟨t, (hmem t).2 (.inl ht), hk⟩
        · rw [List.mem_singleton.1 hgm] at hs
          obtain ⟨u, hu', hk'⟩ := mem_orderedUniqueSpans hs
          obtain ⟨t, ht, hk⟩ := hp.source u (.inl hu')
          exact ⟨t, (hmem t).2 (.inl ht), hk'.trans hk⟩

theorem PartitionOk.run (hp : PartitionOk done p) (hu : ∀ unit ∈ units, unit ≠ [])
    (h : units.foldlM (a.partitionStep lim context) p = .ok p') : PartitionOk (done ++ units) p' := by
  induction units generalizing p done with
  | nil =>
    simp only [List.foldlM_nil, Guard.pure_eq_ok] at h
    simpa [← h] using hp
  | cons unit units ih =>
    simp only [List.foldlM_cons, Guard.bind_eq_ok] at h
    obtain ⟨p1, h1, h2⟩ := h
    have := ih (hp.step (hu unit (by simp)) h1) (fun u hm => hu u (by simp [hm])) h2
    simpa using this

/-- Closed groups stay. -/
theorem partition_groups_ne (h : units.foldlM (a.partitionStep lim context) p = .ok p') (hg : p.groups ≠ []) :
    p'.groups ≠ [] :=
  Guard.foldlM_inv (fun q => q.groups ≠ []) (fun q u q' hq hne => by
    rcases partitionStep_cases hq with ⟨hg, -⟩ | ⟨hg, -⟩
    · rw [hg]; exact hne
    · rw [hg]; simp) h hg

/-- No group is closed exactly when every leading part of at least two units fits. -/
theorem partition_single (hu : ∀ unit ∈ units, unit ≠ []) (hd : ∀ unit ∈ done, unit ≠ [])
    (hpend : p.pending = done.flatMap orderedUniqueSpans) (hg : p.groups = [])
    (h : units.foldlM (a.partitionStep lim context) p = .ok p') :
    p'.groups = [] ↔ ∀ us, us <+: units → us ≠ [] → 2 ≤ (done ++ us).length →
      lim.within (a.detailInput context (done ++ us)) = .ok true := by
  induction units generalizing p done with
  | nil =>
    simp only [List.foldlM_nil, Guard.pure_eq_ok] at h
    subst h
    simp only [hg, true_iff]
    intro us hus hne
    exact absurd (List.prefix_nil.1 hus) hne
  | cons unit units ih =>
    simp only [List.foldlM_cons, Guard.bind_eq_ok] at h
    obtain ⟨p1, h1, h2⟩ := h
    have hcand : embeddingInput .detail (a.textOf (orderedUniqueSpans (p.pending ++ orderedUniqueSpans unit)))
        context = a.detailInput context (done ++ [unit]) := by
      simp [detailInput, hpend]
    have hempty : p.pending = [] ↔ done = [] := by
      rw [hpend]
      cases done with
      | nil => simp
      | cons u us =>
        have : orderedUniqueSpans u ≠ [] := fun hn => hd u (by simp) (orderedUniqueSpans_eq_nil.1 hn)
        simp [this]
    rcases partitionStep_cases h1 with ⟨hg1, hp1, hfit⟩ | ⟨hg1, hp1, hne, hfit⟩
    · have hd1 : ∀ u ∈ done ++ [unit], u ≠ [] := by
        intro u hm
        rcases List.mem_append.1 hm with hm | hm
        · exact hd u hm
        · rw [List.mem_singleton.1 hm]
          exact hu unit (by simp)
      have hrec := ih (fun u hm => hu u (by simp [hm])) hd1 (by rw [hp1, hpend]; simp) (by rw [hg1, hg]) h2
      rw [hrec]
      constructor
      · intro hall us hus hnil hlen
        obtain ⟨x, us', rfl⟩ := List.exists_cons_of_ne_nil hnil
        obtain ⟨rfl, hus'⟩ := List.cons_prefix_cons.1 hus
        rcases List.eq_nil_or_concat us' with rfl | _
        · rcases hfit with hfit | hfit
          · rw [hempty.1 hfit] at hlen
            simp at hlen
          · rw [← hcand]; exact hfit
        · have := hall us' hus' (by rintro rfl; simp_all) (by simpa using hlen)
          simpa using this
      · intro hall us hus hnil hlen
        have := hall (unit :: us) (List.cons_prefix_cons.2 ⟨rfl, hus⟩) (by simp) (by simpa using hlen)
        simpa using this
    · have hbad : p'.groups ≠ [] := partition_groups_ne h2 (by rw [hg1]; simp)
      refine ⟨fun h => absurd h hbad, fun hall => ?_⟩
      have hdone : done ≠ [] := fun hn => hne (hempty.2 hn)
      have hlen : 2 ≤ (done ++ [unit]).length := by
        have := List.length_pos_iff.2 hdone
        simp only [List.length_append, List.length_singleton]
        omega
      have := hall [unit] (by simp) (by simp) hlen
      rw [← hcand, hfit] at this
      cases this

end

end StructureArtifact

end CardRag
