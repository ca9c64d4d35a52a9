import CardRag.Structure.Bare

/-! # The groups of a partition (`_partition_spans`)

What `partitionSpans` makes of units in source order: consecutive units are joined as long as their text fits,
whatever the token counter says of other texts. -/

namespace CardRag

/-- The spans with the ordinals of their places. -/
def numbered (spans : List NodeSpan) : List NodeSpan := spans.zipIdx.map fun (s, ordinal) => s.withOrdinal ordinal none

theorem orderedUniqueSpans_eq {spans : List NodeSpan} (h : spans.Pairwise fun s t => s.position < t.position) :
    orderedUniqueSpans spans = numbered spans := by
  rw [orderedUniqueSpans, PyList.values_dictOf_of_nodup (sourceKeys_nodup h), PyList.sortedBy_eq_self (h.imp le_of_lt)]
  rfl

/-- Older ordinals do not matter. -/
theorem numbered_congr {spans spans' : List NodeSpan}
    (h : spans.map (·.withOrdinal 0 none) = spans'.map (·.withOrdinal 0 none)) : numbered spans = numbered spans' := by
  have hown (spans : List NodeSpan) : numbered spans = numbered (spans.map (·.withOrdinal 0 none)) := by
    rw [numbered, numbered, List.zipIdx_map, List.map_map]
    rfl
  rw [hown spans, h, ← hown]

theorem numbered_map (spans : List NodeSpan) :
    (numbered spans).map (·.withOrdinal 0 none) = spans.map (·.withOrdinal 0 none) := by
  have hfst : spans.map (·.withOrdinal 0 none) = (spans.zipIdx.map Prod.fst).map (·.withOrdinal 0 none) := by
    rw [List.zipIdx_map_fst]
  rw [hfst, numbered, List.map_map, List.map_map]
  rfl

theorem flatMap_numbered_map (units : List (List NodeSpan)) :
    (units.flatMap numbered).map (·.withOrdinal 0 none) = units.flatten.map (·.withOrdinal 0 none) := by
  induction units with
  | nil => rfl
  | cons unit units ih => rw [List.flatMap_cons, List.flatten_cons, List.map_append, List.map_append, numbered_map, ih]

theorem pairwise_position_congr {spans spans' : List NodeSpan}
    (h : spans.map (·.withOrdinal 0 none) = spans'.map (·.withOrdinal 0 none)) :
    (spans.Pairwise fun s t => s.position < t.position) ↔ spans'.Pairwise fun s t => s.position < t.position := by
  have hown (spans : List NodeSpan) : (spans.Pairwise fun s t => s.position < t.position) ↔
      (spans.map (·.withOrdinal 0 none)).Pairwise fun s t => s.position < t.position := by
    rw [List.pairwise_map]
    rfl
  rw [hown spans, h, ← hown]

theorem numbered_eq_nil {spans : List NodeSpan} : numbered spans = [] ↔ spans = [] := by simp [numbered]

namespace StructureArtifact

theorem textOf_numbered (a : StructureArtifact) (spans : List NodeSpan) : a.textOf (numbered spans) = a.textOf spans := by
  have hfst : a.textOf spans = (spans.zipIdx.map Prod.fst).flatMap (spanText a.pages) := by
    rw [List.zipIdx_map_fst]
    rfl
  rw [hfst, textOf, numbered, List.flatMap_map, List.flatMap_map]
  rfl

section
variable (a : StructureArtifact) (lim : ViewLimits) (context : List Str)

/-- Whether the text of the units is within the limits, as the embedding input of a detail. -/
def detailWithin (units : List (List NodeSpan)) : Except Raised Bool :=
  lim.within (embeddingInput .detail (a.textOf units.flatten) context)

/-- The groups are the spans of segments of the units. Each segment is within the limits and would not have been
with the next unit. -/
structure Grouped (units groups : List (List NodeSpan)) (segments : List (List (List NodeSpan))) : Prop where
  units : segments.flatten = units
  groups : groups = segments.map fun segment => numbered segment.flatten
  ne_nil : ∀ segment ∈ segments, segment ≠ []
  within : ∀ segment ∈ segments, a.detailWithin lim context segment = .ok true
  greedy : segments.IsChain fun segment next => ∀ unit ∈ next.head?, a.detailWithin lim context (segment ++ [unit]) = .ok false

def leafExceeds : Raised := structureError "one structural leaf exceeds the view limit; automatic truncation is forbidden"

/-- A unit alone exceeds a limit, or a limit check of consecutive units raises. -/
def Refused (units : List (List NodeSpan)) (e : Raised) : Prop :=
  (e = leafExceeds ∧ ∃ unit ∈ units, a.detailWithin lim context [unit] = .ok false) ∨
    ∃ part, part ≠ [] ∧ part <:+: units ∧ a.detailWithin lim context part = .error e

/-- Units of leaves in source order. -/
structure InOrder (units : List (List NodeSpan)) : Prop where
  ne_nil : ∀ unit ∈ units, unit ≠ []
  increasing : units.flatten.Pairwise fun s t => s.position < t.position

/-- The open segment and the closed ones, after the units that are done. -/
structure Open (p : Partition) (done : List (List NodeSpan)) (closed : List (List (List NodeSpan)))
    (segment : List (List NodeSpan)) : Prop where
  units : closed.flatten ++ segment = done
  groups : p.groups = closed.map fun segment => numbered segment.flatten
  pending : p.pending = segment.flatMap numbered
  ne_nil : ∀ segment ∈ closed, segment ≠ []
  started : segment = [] → closed = []
  within : ∀ segment' ∈ closed ++ [segment], segment' ≠ [] → a.detailWithin lim context segment' = .ok true
  greedy : (closed ++ [segment]).IsChain fun segment next =>
    ∀ unit ∈ next.head?, a.detailWithin lim context (segment ++ [unit]) = .ok false
  alone : ∀ unit ∈ done, a.detailWithin lim context [unit] = .ok true

end

section
variable {a : StructureArtifact} {lim : ViewLimits} {context : List Str} {p p' : Partition} {unit : List NodeSpan}
  {units done : List (List NodeSpan)} {closed : List (List (List NodeSpan))} {segment : List (List NodeSpan)}

theorem InOrder.sublist {units' : List (List NodeSpan)} (h : InOrder units) (hsub : units'.Sublist units) : InOrder units' :=
  ⟨fun unit hu => h.ne_nil unit (hsub.subset hu), h.increasing.sublist hsub.flatten⟩

theorem orderedUniqueSpans_flatMap (h : InOrder units) :
    orderedUniqueSpans (units.flatMap numbered) = numbered units.flatten := by
  rw [orderedUniqueSpans_eq ((pairwise_position_congr (flatMap_numbered_map units)).2 h.increasing)]
  exact numbered_congr (flatMap_numbered_map units)

theorem Open.pending_eq_nil (h : Open a lim context p done closed segment) (ho : InOrder segment) :
    p.pending = [] ↔ segment = [] := by
  rw [h.pending, List.flatMap_eq_nil_iff]
  refine ⟨fun hall => List.eq_nil_iff_forall_not_mem.2 fun u hu => ?_, fun hs => by simp [hs]⟩
  exact ho.ne_nil u hu (numbered_eq_nil.1 (hall u hu))

/-- The step, in terms of the open segment. -/
theorem partitionStep_eq (h : Open a lim context p done closed segment) (ho : InOrder (segment ++ [unit])) :
    a.partitionStep lim context p unit = (do
      let fits ← a.detailWithin lim context [unit]
      raiseIf (fits = false) leafExceeds
      if segment = [] then pure ⟨p.groups, [unit].flatMap numbered⟩
      else do
        let joins ← a.detailWithin lim context (segment ++ [unit])
        if joins then pure ⟨p.groups, (segment ++ [unit]).flatMap numbered⟩
        else pure ⟨p.groups ++ [numbered segment.flatten], [unit].flatMap numbered⟩) := by
  have hunit : orderedUniqueSpans unit = numbered unit := by
    have hlast := ho.increasing.sublist (List.sublist_append_right segment [unit]).flatten
    rw [List.flatten_singleton] at hlast
    exact orderedUniqueSpans_eq hlast
  have hsegment : orderedUniqueSpans p.pending = numbered segment.flatten := by
    rw [h.pending, orderedUniqueSpans_flatMap (ho.sublist (List.sublist_append_left ..))]
  have hjoin : p.pending ++ numbered unit = (segment ++ [unit]).flatMap numbered := by
    rw [h.pending, List.flatMap_append, List.flatMap_singleton]
  have hnil := h.pending_eq_nil (ho.sublist (List.sublist_append_left ..))
  have htext : a.textOf (numbered unit) = a.textOf [unit].flatten := by
    rw [textOf_numbered, List.flatten_singleton]
  unfold partitionStep detailWithin
  simp only [hunit, hsegment, hjoin, hnil, htext, orderedUniqueSpans_flatMap ho, textOf_numbered]
  rw [List.flatMap_singleton]
  by_cases hs : segment = []
  · have hpend : p.pending = [] := hnil.2 hs
    simp only [hs, if_true, List.nil_append, List.flatMap_singleton]
    rfl
  · simp only [hs, if_false]
    rfl

/-- The first unit of a segment. -/
theorem Open.start (h : Open a lim context p done closed []) (hunit : a.detailWithin lim context [unit] = .ok true) :
    Open a lim context ⟨p.groups, [unit].flatMap numbered⟩ (done ++ [unit]) [] [unit] := by
  have hclosed := h.started rfl
  have hdone : done = [] := by rw [← h.units, hclosed]; rfl
  subst hclosed hdone
  refine ⟨rfl, h.groups, rfl, nofun, nofun, ?_, List.isChain_singleton _, ?_⟩
  · intro segment hs _
    rw [List.nil_append, List.mem_singleton] at hs
    rw [hs]
    exact hunit
  · intro u hu
    rw [List.nil_append, List.mem_singleton] at hu
    rw [hu]
    exact hunit

theorem Open.alone_snoc (h : Open a lim context p done closed segment) (hunit : a.detailWithin lim context [unit] = .ok true) :
    ∀ u ∈ done ++ [unit], a.detailWithin lim context [u] = .ok true := by
  intro u hu
  rcases List.mem_append.1 hu with hu | hu
  · exact h.alone u hu
  · rw [List.mem_singleton.1 hu]
    exact hunit

theorem Open.join (h : Open a lim context p done closed segment) (hne : segment ≠ [])
    (hunit : a.detailWithin lim context [unit] = .ok true) (hjoin : a.detailWithin lim context (segment ++ [unit]) = .ok true) :
    Open a lim context ⟨p.groups, (segment ++ [unit]).flatMap numbered⟩ (done ++ [unit]) closed (segment ++ [unit]) := by
  refine ⟨?_, h.groups, rfl, h.ne_nil, fun hs => ?_, ?_, ?_, h.alone_snoc hunit⟩
  · rw [← h.units, List.append_assoc]
  · simp at hs
  · intro segment' hs hs'
    rcases List.mem_append.1 hs with hs | hs
    · exact h.within segment' (List.mem_append_left _ hs) hs'
    · rw [List.mem_singleton.1 hs]
      exact hjoin
  · have hhead : (segment ++ [unit]).head? = segment.head? := by
      cases segment with
      | nil => exact absurd rfl hne
      | cons u us => rfl
    have hgreedy := h.greedy
    rw [List.isChain_append] at hgreedy ⊢
    refine ⟨hgreedy.1, List.isChain_singleton _, fun x hx y hy => ?_⟩
    rw [List.head?_cons, Option.mem_some_iff] at hy
    subst hy
    rw [hhead]
    exact hgreedy.2.2 x hx segment (by simp)

theorem Open.close (h : Open a lim context p done closed segment) (hne : segment ≠ [])
    (hunit : a.detailWithin lim context [unit] = .ok true) (hjoin : a.detailWithin lim context (segment ++ [unit]) = .ok false) :
    Open a lim context ⟨p.groups ++ [numbered segment.flatten], [unit].flatMap numbered⟩ (done ++ [unit])
      (closed ++ [segment]) [unit] := by
  refine ⟨?_, ?_, rfl, ?_, nofun, ?_, ?_, h.alone_snoc hunit⟩
  · rw [List.flatten_append, List.flatten_singleton, h.units]
  · rw [h.groups, List.map_append, List.map_singleton]
  · intro segment' hs
    rcases List.mem_append.1 hs with hs | hs
    · exact h.ne_nil segment' hs
    · rw [List.mem_singleton.1 hs]
      exact hne
  · intro segment' hs hs'
    rcases List.mem_append.1 hs with hs | hs
    · exact h.within segment' hs hs'
    · rw [List.mem_singleton.1 hs]
      exact hunit
  · rw [List.append_assoc, List.singleton_append, List.isChain_append_cons_cons]
    refine ⟨h.greedy, ?_, List.isChain_singleton _⟩
    intro u hu
    rw [List.head?_cons, Option.mem_some_iff] at hu
    rw [← hu]
    exact hjoin

/-- One unit: it is joined, or starts a segment, or the step raises for a reason. -/
theorem Open.step (h : Open a lim context p done closed segment) (ho : InOrder (segment ++ [unit])) :
    (∃ p' closed' segment', a.partitionStep lim context p unit = .ok p' ∧
      Open a lim context p' (done ++ [unit]) closed' segment') ∨
    ∃ e, a.partitionStep lim context p unit = .error e ∧ Refused a lim context (segment ++ [unit]) e := by
  rw [partitionStep_eq h ho]
  have hinfix : [unit] <:+: segment ++ [unit] := (List.suffix_append _ _).isInfix
  cases hunit : a.detailWithin lim context [unit] with
  | error e => exact .inr ⟨e, rfl, .inr ⟨[unit], by simp, hinfix, hunit⟩⟩
  | ok fits =>
    cases fits with
    | false => exact .inr ⟨leafExceeds, rfl, .inl ⟨rfl, unit, by simp, hunit⟩⟩
    | true =>
      by_cases hs : segment = []
      · subst hs
        exact .inl ⟨_, _, _, rfl, h.start hunit⟩
      · cases hjoin : a.detailWithin lim context (segment ++ [unit]) with
        | error e =>
          refine .inr ⟨e, ?_, .inr ⟨segment ++ [unit], by simp, List.infix_rfl, hjoin⟩⟩
          simp only [Guard.ok_bind, hs, if_false, Bool.true_eq_false, raiseIf]
          rfl
        | ok joins =>
          refine .inl ?_
          cases joins with
          | true =>
            refine ⟨_, _, _, ?_, h.join hs hunit hjoin⟩
            simp only [Guard.ok_bind, hs, if_false, if_true, Bool.true_eq_false, raiseIf]
            rfl
          | false =>
            refine ⟨_, _, _, ?_, h.close hs hunit hjoin⟩
            simp only [Guard.ok_bind, hs, if_false, Bool.true_eq_false, Bool.false_eq_true, raiseIf]
            rfl

theorem Refused.mono {units' : List (List NodeSpan)} {e : Raised} (h : Refused a lim context units e)
    (hsub : units <:+: units') : Refused a lim context units' e := by
  rcases h with ⟨he, unit, hu, hfail⟩ | ⟨part, hne, hpart, hfail⟩
  · exact .inl ⟨he, unit, hsub.subset hu, hfail⟩
  · exact .inr ⟨part, hne, hpart.trans hsub, hfail⟩

/-- The whole loop. -/
theorem Open.run (h : Open a lim context p done closed segment) (ho : InOrder (done ++ units)) :
    (∃ p' closed' segment', units.foldlM (a.partitionStep lim context) p = .ok p' ∧
      Open a lim context p' (done ++ units) closed' segment') ∨
    ∃ e, units.foldlM (a.partitionStep lim context) p = .error e ∧ Refused a lim context (done ++ units) e := by
  induction units generalizing p done closed segment with
  | nil => exact .inl ⟨p, closed, segment, rfl, by rwa [List.append_nil]⟩
  | cons unit units ih =>
    have hinfix : segment ++ [unit] <:+: done ++ unit :: units := by
      refine ⟨closed.flatten, units, ?_⟩
      rw [← h.units]
      simp
    rw [List.foldlM_cons]
    rcases h.step (ho.sublist hinfix.sublist) with ⟨p', closed', segment', hstep, hopen⟩ | ⟨e, hstep, hrefused⟩
    · rw [hstep, Guard.ok_bind, show done ++ unit :: units = (done ++ [unit]) ++ units by simp]
      exact ih hopen (by simpa using ho)
    · exact .inr ⟨e, by rw [hstep, Guard.bind_error rfl], hrefused.mono hinfix⟩

theorem open_nil : Open a lim context {} [] [] [] :=
  ⟨rfl, rfl, rfl, nofun, fun _ => rfl, by simp, List.isChain_singleton _, nofun⟩

/-- The last segment is closed at the end. -/
theorem Open.grouped (h : Open a lim context p units closed segment) (ho : InOrder units) : ∃ segments,
    Grouped a lim context units (if p.pending = [] then p.groups else p.groups ++ [orderedUniqueSpans p.pending])
      segments := by
  have hlast : InOrder segment := ho.sublist (h.units ▸ List.sublist_append_right ..)
  by_cases hs : segment = []
  · have hclosed := h.started hs
    have hunits := h.units
    have hgroups := h.groups
    rw [hs, hclosed] at hunits
    rw [hclosed] at hgroups
    rw [if_pos ((h.pending_eq_nil hlast).2 hs)]
    exact ⟨[], hunits, hgroups, nofun, nofun, List.isChain_nil⟩
  · rw [if_neg (fun hp => hs ((h.pending_eq_nil hlast).1 hp)), h.pending, orderedUniqueSpans_flatMap hlast]
    have hne : ∀ segment' ∈ closed ++ [segment], segment' ≠ [] := by
      intro segment' hs'
      rcases List.mem_append.1 hs' with hs' | hs'
      · exact h.ne_nil segment' hs'
      · rw [List.mem_singleton.1 hs']
        exact hs
    refine ⟨closed ++ [segment], ?_, ?_, hne, fun segment' hs' => h.within segment' hs' (hne segment' hs'), h.greedy⟩
    · rw [List.flatten_append, List.flatten_singleton, h.units]
    · rw [h.groups, List.map_append, List.map_singleton]

end

/-- Units in source order are split without loss: either every unit alone fits, and the groups are segments of them
that fit and are as long as they can be, or a unit alone exceeds a limit or a limit check raises. Where the limit
checks return, a unit that exceeds a limit is the only reason. -/
theorem partitionSpans_grouped (a : StructureArtifact) (lim : ViewLimits) (context : List Str)
    (units : List (List NodeSpan)) (ho : InOrder units) :
    (∀ groups, a.partitionSpans lim units context = .ok groups →
      (∀ unit ∈ units, a.detailWithin lim context [unit] = .ok true) ∧ ∃ segments, Grouped a lim context units groups segments) ∧
    (∀ e, a.partitionSpans lim units context = .error e → Refused a lim context units e) ∧
    ((∀ part, part ≠ [] → part <:+: units → ∃ b, a.detailWithin lim context part = .ok b) →
      ((∃ e, a.partitionSpans lim units context = .error e) ↔
        ∃ unit ∈ units, a.detailWithin lim context [unit] = .ok false)) := by
  unfold partitionSpans
  rcases @Open.run a lim context {} units [] [] [] open_nil ho with
    ⟨p, closed, segment, hrun, hopen⟩ | ⟨e, hrun, hrefused⟩
  · rw [hrun, Guard.ok_bind]
    refine ⟨fun groups hok => ?_, fun e herr => ?_, fun _ => ⟨fun ⟨e, herr⟩ => ?_, fun ⟨unit, hu, hfail⟩ => ?_⟩⟩
    · cases hok
      exact ⟨hopen.alone, hopen.grouped ho⟩
    · cases herr
    · cases herr
    · rw [hopen.alone unit hu] at hfail
      cases hfail
  · rw [hrun, Guard.bind_error rfl]
    refine ⟨fun groups hok => ?_, fun e' herr => ?_, fun hchecks => ⟨fun _ => ?_, fun _ => ⟨e, rfl⟩⟩⟩
    · cases hok
    · cases herr
      exact hrefused
    · rcases hrefused with ⟨-, hunit⟩ | ⟨part, hne, hpart, hfail⟩
      · exact hunit
      · obtain ⟨b, hb⟩ := hchecks part hne hpart
        rw [hb] at hfail
        cases hfail

/-- Two leaves of one character each. -/
def twoLeaves : StructureArtifact :=
  (sampleInput [⟨['d'], 1, ['a', 'b']⟩]).artifact .standard ⟨[], [], [], [], [], [], [], 2⟩ [] [] [] []

def twoUnits : List (List NodeSpan) := [[⟨1, 0, 1, ['a'], 0, true⟩], [⟨1, 1, 2, ['b'], 0, true⟩]]

theorem partitionSpans_grouped_two : InOrder twoUnits ∧
    ∃ segments, Grouped twoLeaves ⟨1, none, none⟩ [] twoUnits
      [[⟨1, 0, 1, ['a'], 0, true⟩], [⟨1, 1, 2, ['b'], 0, true⟩]] segments := by
  have ho : InOrder twoUnits := ⟨by decide, by decide⟩
  exact ⟨ho, ((partitionSpans_grouped twoLeaves ⟨1, none, none⟩ [] twoUnits ho).1 _ rfl).2⟩

/-- A counter that is below zero is refused, and no unit exceeds a limit. -/
theorem negative_count_raises :
    twoLeaves.partitionSpans ⟨2, some 2, some fun _ => .ok (-1)⟩ twoUnits [] =
      .error (valueError "token_counter returned a negative count") ∧
    (∀ unit ∈ twoUnits, (twoLeaves.textOf unit).length ≤ 2) ∧ InOrder twoUnits := by
  refine ⟨rfl, ?_, ⟨by decide, by decide⟩⟩
  intro unit hu
  rcases List.mem_cons.1 hu with rfl | hu
  · exact Nat.le_of_ble_eq_true rfl
  · obtain rfl := List.mem_singleton.1 hu
    exact Nat.le_of_ble_eq_true rfl

end StructureArtifact

end CardRag
