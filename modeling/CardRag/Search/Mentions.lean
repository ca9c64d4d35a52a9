import CardRag.Search.Catalog

/-! # Product names in a query (`_name_is_only_nested`)

The loops of `str.find` visit every occurrence of a name, overlapping ones too. A product is left when one
mention of its name stands outside all mentions of longer names; a longest name always does, so a query that
names products keeps one of them (`resolveCatalog_maximal`). -/

namespace CardRag.Search

/-! ### The loops -/

/-- A text stands at a place of another. -/
def OccursAt (sub text : Str) (i : Nat) : Prop := sub.isPrefixOf (text.drop i) = true

/-- `text.find(sub, offset)`, with the places left. -/
def findFrom (text sub : Str) : Nat → Nat → Option Nat
  | 0, _ => none
  | places + 1, offset => if sub.isPrefixOf (text.drop offset) then some offset else findFrom text sub places (offset + 1)

def find (text sub : Str) (offset : Nat) : Option Nat := findFrom text sub (text.length + 1 - offset) offset

theorem findFrom_eq_some {text sub : Str} {places offset i : Nat} (h : findFrom text sub places offset = some i) :
    offset ≤ i ∧ i < offset + places ∧ OccursAt sub text i ∧ ∀ j, offset ≤ j → j < i → ¬ OccursAt sub text j := by
  induction places generalizing offset with
  | zero => cases h
  | succ places ih =>
    unfold findFrom at h
    split at h
    · rename_i hocc
      obtain rfl := Option.some.inj h
      exact ⟨le_rfl, by omega, hocc, fun j hj hlt => by omega⟩
    · rename_i hocc
      obtain ⟨hle, hlt, hi, hfirst⟩ := ih h
      refine ⟨by omega, by omega, hi, fun j hj hji => ?_⟩
      rcases Nat.eq_or_lt_of_le hj with rfl | hj
      · exact hocc
      · exact hfirst j hj hji

theorem findFrom_eq_none {text sub : Str} {places offset j : Nat} (h : findFrom text sub places offset = none)
    (hle : offset ≤ j) (hlt : j < offset + places) : ¬ OccursAt sub text j := by
  induction places generalizing offset with
  | zero => omega
  | succ places ih =>
    unfold findFrom at h
    split at h
    · cases h
    · rename_i hocc
      rcases Nat.eq_or_lt_of_le hle with rfl | hle
      · exact hocc
      · exact ih h hle (by omega)

theorem find_eq_some {text sub : Str} {offset i : Nat} (h : find text sub offset = some i) :
    offset ≤ i ∧ i ≤ text.length ∧ OccursAt sub text i ∧ ∀ j, offset ≤ j → j < i → ¬ OccursAt sub text j := by
  obtain ⟨hle, hlt, hrest⟩ := findFrom_eq_some h
  exact ⟨hle, by omega, hrest⟩

theorem find_eq_none {text sub : Str} {offset j : Nat} (h : find text sub offset = none) (hle : offset ≤ j)
    (hj : j ≤ text.length) : ¬ OccursAt sub text j :=
  findFrom_eq_none h hle (by omega)

/-- The inner loop: a mention of a longer name around the place, from `offset` on. -/
def coveredFrom (query longer : Str) (position stop offset : Nat) : Bool :=
  match _h : find query longer offset with
  | none => false
  | some longerPosition =>
    if longerPosition ≤ position ∧ stop ≤ longerPosition + longer.length then true
    else coveredFrom query longer position stop (longerPosition + 1)
termination_by query.length + 1 - offset
decreasing_by
  have := find_eq_some _h
  omega

/-- The outer loop, from `offset` on. -/
def onlyNestedFrom (query name : Str) (longerNames : List Str) (offset : Nat) : Bool :=
  match _h : find query name offset with
  | none => true
  | some position =>
    if longerNames.any fun longer => coveredFrom query longer position (position + name.length) 0 then
      onlyNestedFrom query name longerNames (position + 1)
    else false
termination_by query.length + 1 - offset
decreasing_by
  have := find_eq_some _h
  omega

section
variable {query name longer text sub : Str} {longerNames : List Str} {position stop offset i : Nat}

theorem coveredFrom_iff : coveredFrom query longer position stop offset = true ↔
    ∃ j, offset ≤ j ∧ j ≤ query.length ∧ OccursAt longer query j ∧ j ≤ position ∧ stop ≤ j + longer.length := by
  induction hn : query.length + 1 - offset using Nat.strong_induction_on generalizing offset with
  | _ n ih =>
    rw [coveredFrom]
    split
    · rename_i hfind
      refine ⟨nofun, ?_⟩
      rintro ⟨j, hle, hj, hocc, -⟩
      exact absurd hocc (find_eq_none hfind hle hj)
    · rename_i j hfind
      obtain ⟨hle, hj, hocc, hfirst⟩ := find_eq_some hfind
      split
      · rename_i hin
        exact ⟨fun _ => ⟨j, hle, hj, hocc, hin⟩, fun _ => rfl⟩
      · rename_i hout
        rw [ih _ (by omega) rfl]
        constructor
        · rintro ⟨k, hk, hrest⟩
          exact ⟨k, by omega, hrest⟩
        · rintro ⟨k, hk, hkl, hkocc, hin⟩
          have hjk : j ≤ k := by
            by_contra hlt
            exact hfirst k hk (by omega) hkocc
          rcases Nat.eq_or_lt_of_le hjk with rfl | hjk
          · exact absurd hin hout
          · exact ⟨k, hjk, hkl, hkocc, hin⟩

/-- A mention of the name lies outside all mentions of the longer names. -/
def Separate (query name : Str) (longerNames : List Str) (i : Nat) : Prop :=
  i ≤ query.length ∧ OccursAt name query i ∧ ∀ longer ∈ longerNames, ∀ j ≤ query.length, OccursAt longer query j →
    ¬ (j ≤ i ∧ i + name.length ≤ j + longer.length)

theorem onlyNestedFrom_eq_false : onlyNestedFrom query name longerNames offset = false ↔
    ∃ i, offset ≤ i ∧ Separate query name longerNames i := by
  induction hn : query.length + 1 - offset using Nat.strong_induction_on generalizing offset with
  | _ n ih =>
    rw [onlyNestedFrom]
    split
    · rename_i hfind
      refine ⟨nofun, ?_⟩
      rintro ⟨i, hle, hi, hocc, -⟩
      exact absurd hocc (find_eq_none hfind hle hi)
    · rename_i i hfind
      obtain ⟨hle, hi, hocc, hfirst⟩ := find_eq_some hfind
      have hcovered : (longerNames.any fun longer => coveredFrom query longer i (i + name.length) 0) = true ↔
          ∃ longer ∈ longerNames, ∃ j, j ≤ query.length ∧ OccursAt longer query j ∧ j ≤ i ∧
            i + name.length ≤ j + longer.length := by
        simp only [List.any_eq_true, coveredFrom_iff, Nat.zero_le, true_and]
      split
      · rename_i hin
        obtain ⟨longer, hl, j, hj, hjocc, hji, hend⟩ := hcovered.1 hin
        rw [ih _ (by omega) rfl]
        constructor
        · rintro ⟨k, hk, hsep⟩
          exact ⟨k, by omega, hsep⟩
        · rintro ⟨k, hk, hsep⟩
          have hik : i ≤ k := by
            by_contra hlt
            exact hfirst k hk (by omega) hsep.2.1
          rcases Nat.eq_or_lt_of_le hik with rfl | hik
          · exact absurd ⟨hji, hend⟩ (hsep.2.2 longer hl j hj hjocc)
          · exact ⟨k, hik, hsep⟩
      · rename_i hout
        refine ⟨fun _ => ⟨i, hle, hi, hocc, fun longer hl j hj hjocc hin => ?_⟩, fun _ => rfl⟩
        exact hout (hcovered.2 ⟨longer, hl, j, hj, hjocc, hin⟩)

theorem mem_occurrences : i ∈ occurrences sub text ↔ i ≤ text.length ∧ OccursAt sub text i := by
  rw [occurrences, List.mem_filter, List.mem_range, Nat.lt_succ_iff, OccursAt]

/-- The loops look at the occurrences of the names. -/
theorem onlyNestedFrom_eq : onlyNestedFrom query name longerNames 0 = nameIsOnlyNested query name longerNames := by
  rw [Bool.eq_iff_iff, ← not_iff_not, Bool.not_eq_true, Bool.not_eq_true, onlyNestedFrom_eq_false]
  simp only [nameIsOnlyNested, List.all_eq_false, List.any_eq_true, mem_occurrences, decide_eq_true_eq, Separate]
  constructor
  · rintro ⟨i, -, hi, hocc, hno⟩
    exact ⟨i, ⟨hi, hocc⟩, fun ⟨longer, hl, j, ⟨hj, hjocc⟩, hin⟩ => hno longer hl j hj hjocc hin⟩
  · rintro ⟨i, ⟨hi, hocc⟩, hno⟩
    exact ⟨i, Nat.zero_le i, hi, hocc, fun longer hl j hj hjocc hin => hno ⟨longer, hl, j, ⟨hj, hjocc⟩, hin⟩⟩

theorem contains_iff : PyStr.contains sub text = true ↔ ∃ i ≤ text.length, OccursAt sub text i := by
  rw [PyStr.contains, List.any_eq_true]
  constructor
  · rintro ⟨t, ht, hpre⟩
    obtain ⟨a, rfl⟩ := (List.mem_tails _ _).1 ht
    exact ⟨a.length, by simp, by rwa [OccursAt, List.drop_left]⟩
  · rintro ⟨i, -, hpre⟩
    exact ⟨_, (List.mem_tails _ _).2 (List.drop_suffix i text), hpre⟩

/-- The loops do not see the order of the longer names. -/
theorem onlyNestedFrom_congr {longerNames' : List Str} (h : ∀ longer, longer ∈ longerNames ↔ longer ∈ longerNames') :
    onlyNestedFrom query name longerNames 0 = onlyNestedFrom query name longerNames' 0 := by
  rw [Bool.eq_iff_iff, ← not_iff_not, Bool.not_eq_true, Bool.not_eq_true, onlyNestedFrom_eq_false,
    onlyNestedFrom_eq_false]
  simp only [Separate, h]

end

/-! ### The products that are left -/

section
variable (U : Unicode) (nfkc : Str → Str)

/-- The rows of the `SELECT`. -/
def Catalog.scope (K : Catalog) (req : ContractSearchRequest) : List ProductLineageRow :=
  PyList.sortedBy (·.productLineageId) (K.lineages.filter fun l => req.issuer.all (l.issuer = ·))

def candidate (l : ProductLineageRow) : Str × Str × Nat :=
  (l.productLineageId, l.name, (canonicalCatalogText U nfkc l.name).length)

/-- The name of the product occurs in the query. -/
def Mentioned (query : Str) (l : ProductLineageRow) : Prop :=
  canonicalCatalogText U nfkc l.name ≠ [] ∧
    PyStr.contains (canonicalCatalogText U nfkc l.name) (canonicalCatalogText U nfkc query) = true

instance (query : Str) (l : ProductLineageRow) : Decidable (Mentioned U nfkc query l) :=
  inferInstanceAs (Decidable (_ ∧ _))

def candidatesOf (query : Str) (rows : List ProductLineageRow) : List (Str × Str × Nat) :=
  (rows.filter (Mentioned U nfkc query)).map (candidate U nfkc)

def longestCandidates (query : Str) (candidates : List (Str × Str × Nat)) : List (Str × Str × Nat) :=
  candidates.filter fun c => !onlyNestedFrom (canonicalCatalogText U nfkc query) (canonicalCatalogText U nfkc c.2.1)
    ((candidates.filter (c.2.2 < ·.2.2)).map fun other => canonicalCatalogText U nfkc other.2.1) 0

/-- What `_resolve_catalog` makes of the rows. -/
def resolveRows (query : Str) (rows : List ProductLineageRow) : CatalogResolution :=
  let candidates := candidatesOf U nfkc query rows
  if candidates = [] then ⟨.unresolved, 0, none, none⟩
  else match longestCandidates U nfkc query candidates with
    | [c] => ⟨.resolved, 1, some c.1, some c.2.1⟩
    | longest => ⟨.ambiguous, longest.length, none, none⟩

/-- One mention of the product stands outside all mentions of products with longer names. -/
def Survives (query : Str) (rows : List ProductLineageRow) (l : ProductLineageRow) : Prop :=
  let text := canonicalCatalogText U nfkc query
  let name := canonicalCatalogText U nfkc l.name
  ∃ i ≤ text.length, OccursAt name text i ∧ ∀ l' ∈ rows, Mentioned U nfkc query l' →
    name.length < (canonicalCatalogText U nfkc l'.name).length →
    ∀ j ≤ text.length, OccursAt (canonicalCatalogText U nfkc l'.name) text j →
      ¬ (j ≤ i ∧ i + name.length ≤ j + (canonicalCatalogText U nfkc l'.name).length)

end

section
variable {U : Unicode} {nfkc : Str → Str} {query : Str} {rows rows' : List ProductLineageRow} {l : ProductLineageRow}

theorem resolveByName_eq (K : Catalog) (req : ContractSearchRequest) :
    resolveByName U nfkc K req = resolveRows U nfkc req.query (K.scope req) := by
  have hcandidates : catalogCandidates U nfkc K req = candidatesOf U nfkc req.query (K.scope req) := rfl
  unfold resolveByName resolveRows
  simp only [hcandidates, longestCandidates, onlyNestedFrom_eq]
  split
  · rfl
  · generalize List.filter _ _ = longest
    cases longest with
    | nil => rfl
    | cons first rest =>
      cases rest with
      | nil => rfl
      | cons second rest => rfl

theorem mem_candidatesOf {c : Str × Str × Nat} : c ∈ candidatesOf U nfkc query rows ↔
    ∃ l ∈ rows, Mentioned U nfkc query l ∧ candidate U nfkc l = c := by
  simp only [candidatesOf, List.mem_map, List.mem_filter, decide_eq_true_eq, and_assoc]

theorem mem_longestCandidates (hl : l ∈ rows) (hm : Mentioned U nfkc query l) :
    candidate U nfkc l ∈ longestCandidates U nfkc query (candidatesOf U nfkc query rows) ↔
      Survives U nfkc query rows l := by
  rw [longestCandidates, List.mem_filter, Bool.not_eq_true', onlyNestedFrom_eq_false]
  have hmem : candidate U nfkc l ∈ candidatesOf U nfkc query rows := mem_candidatesOf.2 ⟨l, hl, hm, rfl⟩
  constructor
  · rintro ⟨-, i, -, hi, hocc, hno⟩
    refine ⟨i, hi, hocc, fun l' hl' hm' hlen j hj hjocc hin => ?_⟩
    refine hno (canonicalCatalogText U nfkc l'.name) (List.mem_map.2 ⟨candidate U nfkc l', ?_, rfl⟩) j hj hjocc hin
    exact List.mem_filter.2 ⟨mem_candidatesOf.2 ⟨l', hl', hm', rfl⟩, decide_eq_true hlen⟩
  · rintro ⟨i, hi, hocc, hno⟩
    refine ⟨hmem, i, Nat.zero_le i, hi, hocc, fun longer hlonger j hj hjocc hin => ?_⟩
    obtain ⟨c, hc, rfl⟩ := List.mem_map.1 hlonger
    obtain ⟨hc, hlen⟩ := List.mem_filter.1 hc
    obtain ⟨l', hl', hm', rfl⟩ := mem_candidatesOf.1 hc
    exact hno l' hl' hm' (of_decide_eq_true hlen) j hj hjocc hin

/-- A longest of the names is inside none that is longer. -/
theorem longestCandidates_ne_nil (hl : l ∈ rows) (hm : Mentioned U nfkc query l) :
    longestCandidates U nfkc query (candidatesOf U nfkc query rows) ≠ [] := by
  have hne : ((rows.filter (Mentioned U nfkc query)).toFinset).Nonempty :=
    ⟨l, List.mem_toFinset.2 (List.mem_filter.2 ⟨hl, decide_eq_true hm⟩)⟩
  obtain ⟨top, htop, hmax⟩ := Finset.exists_max_image _ (fun l => (canonicalCatalogText U nfkc l.name).length) hne
  obtain ⟨htop, hmtop⟩ := List.mem_filter.1 (List.mem_toFinset.1 htop)
  obtain ⟨i, hi, hocc⟩ := contains_iff.1 (of_decide_eq_true hmtop).2
  refine List.ne_nil_of_mem ((mem_longestCandidates htop (of_decide_eq_true hmtop)).2 ⟨i, hi, hocc, ?_⟩)
  intro l' hl' hm' hlen
  have hle := hmax l' (List.mem_toFinset.2 (List.mem_filter.2 ⟨hl', decide_eq_true hm'⟩))
  exact absurd hlen (not_lt.2 hle)

theorem longestCandidates_perm (h : rows'.Perm rows) :
    (longestCandidates U nfkc query (candidatesOf U nfkc query rows')).Perm
      (longestCandidates U nfkc query (candidatesOf U nfkc query rows)) := by
  have hcandidates : (candidatesOf U nfkc query rows').Perm (candidatesOf U nfkc query rows) := (h.filter _).map _
  unfold longestCandidates
  have hsame : ∀ c : Str × Str × Nat,
      onlyNestedFrom (canonicalCatalogText U nfkc query) (canonicalCatalogText U nfkc c.2.1)
        (((candidatesOf U nfkc query rows').filter (c.2.2 < ·.2.2)).map fun other =>
          canonicalCatalogText U nfkc other.2.1) 0 =
      onlyNestedFrom (canonicalCatalogText U nfkc query) (canonicalCatalogText U nfkc c.2.1)
        (((candidatesOf U nfkc query rows).filter (c.2.2 < ·.2.2)).map fun other =>
          canonicalCatalogText U nfkc other.2.1) 0 :=
    fun c => onlyNestedFrom_congr fun longer => ((hcandidates.filter _).map _).mem_iff
  simp only [hsame]
  exact hcandidates.filter _

theorem resolveRows_perm (h : rows'.Perm rows) : resolveRows U nfkc query rows' = resolveRows U nfkc query rows := by
  have hcandidates : (candidatesOf U nfkc query rows').Perm (candidatesOf U nfkc query rows) := (h.filter _).map _
  have hlongest : (longestCandidates U nfkc query (candidatesOf U nfkc query rows')).Perm
      (longestCandidates U nfkc query (candidatesOf U nfkc query rows)) := longestCandidates_perm h
  unfold resolveRows
  dsimp only
  by_cases hnil : candidatesOf U nfkc query rows = []
  · rw [if_pos hnil, if_pos (List.perm_nil.1 (hnil ▸ hcandidates))]
  · rw [if_neg hnil, if_neg fun hn => hnil (by rw [hn] at hcandidates; exact List.nil_perm.1 hcandidates)]
    generalize longestCandidates U nfkc query (candidatesOf U nfkc query rows') = longest' at hlongest ⊢
    generalize longestCandidates U nfkc query (candidatesOf U nfkc query rows) = longest at hlongest ⊢
    have hlength := hlongest.length_eq
    match longest, longest' with
    | [], [] => rfl
    | [c], [c'] => rw [List.singleton_perm_singleton.1 hlongest]
    | _ :: _ :: _, _ :: _ :: _ => exact congrArg (fun n => CatalogResolution.mk .ambiguous n none none) hlength
    | [], _ :: _ => cases hlength
    | _ :: _, [] => cases hlength
    | [_], _ :: _ :: _ => cases hlength
    | _ :: _ :: _, [_] => cases hlength

theorem resolved_iff : (resolveRows U nfkc query rows).status = .resolved ↔
    ∃ c, longestCandidates U nfkc query (candidatesOf U nfkc query rows) = [c] := by
  unfold resolveRows
  dsimp only
  split
  · rename_i hnil
    simp [hnil, longestCandidates]
  · split
    · rename_i c hc
      exact ⟨fun _ => ⟨c, hc⟩, fun _ => rfl⟩
    · rename_i hno
      refine ⟨nofun, fun ⟨c, hc⟩ => absurd hc (hno c)⟩

/-- The products that are left are those with a mention outside all longer mentions; there is one where any
is mentioned, and the order of the rows does not matter. -/
theorem resolveCatalog_maximal (U : Unicode) (nfkc : Str → Str) (K : Catalog) (req : ContractSearchRequest) :
    (∀ l ∈ K.scope req, Mentioned U nfkc req.query l →
      (candidate U nfkc l ∈ longestCandidates U nfkc req.query (candidatesOf U nfkc req.query (K.scope req)) ↔
        Survives U nfkc req.query (K.scope req) l)) ∧
    ((∃ l ∈ K.scope req, Mentioned U nfkc req.query l) →
      longestCandidates U nfkc req.query (candidatesOf U nfkc req.query (K.scope req)) ≠ []) ∧
    ∃ r, resolveCatalog U nfkc K { req with productLineageId := none, productLineageIds := none } = .ok r ∧
      (r.status = .resolved ↔
        ∃ c, longestCandidates U nfkc req.query (candidatesOf U nfkc req.query (K.scope req)) = [c]) ∧
      ∀ rows, rows.Perm (K.scope req) → resolveRows U nfkc req.query rows = r := by
  refine ⟨fun l hl hm => mem_longestCandidates hl hm, fun ⟨l, hl, hm⟩ => longestCandidates_ne_nil hl hm, ?_⟩
  exact ⟨_, congrArg Except.ok (resolveByName_eq K _), resolved_iff, fun rows h => resolveRows_perm h⟩

end

end CardRag.Search
