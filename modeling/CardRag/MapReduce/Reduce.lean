import CardRag.Lib.Json
import CardRag.MapReduce.Ledger

/-! # The reduction ends (`experimental_map_reduce.py`)

Spans that passed `_span_fits_hierarchical_reduce` come two at least to a batch, but for the last one,
and a batch that is not the final one gives back at most half of its spans. So a frontier of `n` spans
is followed by one of at most `(n + 1) / 2`, and `_reduction_state` never runs out of rounds. -/

namespace CardRag.MapReduce

variable {σ : Type} {P : Plan σ}

/-! ### Frontiers -/

/-- `_span_fits_hierarchical_reduce` -/
def Fits (P : Plan σ) (span : σ) : Prop := P.spanCharacters span * 2 + 1 ≤ P.available

instance (span : σ) : Decidable (Fits P span) := inferInstanceAs (Decidable (_ ≤ _))

/-- The characters of a batch in a prompt, with the commas between its spans. -/
def batchCharacters (P : Plan σ) (batch : List σ) : Nat := (batch.map P.spanCharacters).sum + (batch.length - 1)

/-- How a frontier is cut into batches. -/
structure Batches (P : Plan σ) (frontier : List σ) (batches : List (List σ)) : Prop where
  flatten : batches.flatten = frontier
  ne : ∀ b ∈ batches, b ≠ []
  fits : ∀ b ∈ batches, batchCharacters P b ≤ P.available
  two : ∀ b ∈ batches.dropLast, 2 ≤ b.length

/-- What holds of the batches, the pending batch and its size between two spans. -/
structure Packing (P : Plan σ) (done : List σ) (batches : List (List σ)) (pending : List σ) (size : Nat) : Prop where
  flatten : batches.flatten ++ pending = done
  full : ∀ b ∈ batches, 2 ≤ b.length ∧ batchCharacters P b ≤ P.available
  within : pending ≠ [] → size = batchCharacters P pending ∧ size ≤ P.available
  start : pending = [] → batches = [] ∧ size = 0
  spans : ∀ s ∈ pending, Fits P s

theorem batchCharacters_concat {pending : List σ} (h : pending ≠ []) (span : σ) :
    batchCharacters P (pending ++ [span]) = batchCharacters P pending + P.spanCharacters span + 1 := by
  have := List.length_pos_of_ne_nil h
  simp only [batchCharacters, List.map_append, List.sum_append, List.map_cons, List.map_nil, List.sum_cons,
    List.sum_nil, List.length_append, List.length_cons, List.length_nil]
  omega

theorem batchCharacters_singleton (span : σ) : batchCharacters P [span] = P.spanCharacters span := by
  simp [batchCharacters]

/-- One span of the partition. -/
def packSpan (P : Plan σ) (acc : List (List σ) × List σ × Nat) (span : σ) :
    Except String (List (List σ) × List σ × Nat) :=
  let (batches, pending, pendingSize) := acc
  let size := P.spanCharacters span
  let combined := pendingSize + size + (if pending = [] then 0 else 1)
  if size * 2 + 1 > P.available then .error "validated span cannot enter bounded hierarchical reduce"
  else if pending ≠ [] ∧ combined > P.available then .ok (batches ++ [pending], [span], size)
  else .ok (batches, pending ++ [span], combined)

theorem partition_eq (frontier : List σ) : partitionReduceSpans P frontier =
    (frontier.foldlM (packSpan P) ([], [], 0) >>= fun acc =>
      pure (if acc.2.1 = [] then acc.1 else acc.1 ++ [acc.2.1])) := rfl

theorem Packing.span {done : List σ} {batches : List (List σ)} {pending : List σ} {size : Nat}
    (h : Packing P done batches pending size) {span : σ} (hfit : Fits P span) :
    ∃ batches' pending' size', packSpan P (batches, pending, size) span = .ok (batches', pending', size') ∧
      Packing P (done ++ [span]) batches' pending' size' ∧ pending' ≠ [] := by
  have hle : ¬ P.spanCharacters span * 2 + 1 > P.available := Nat.not_lt.2 hfit
  unfold packSpan
  dsimp only
  rw [if_neg hle]
  by_cases hp : pending = []
  · -- the first span of all
    obtain ⟨rfl, rfl⟩ := h.start hp
    subst hp
    rw [if_neg (by simp)]
    refine ⟨_, _, _, rfl, ⟨by simp [← h.flatten], by simp, fun _ => ?_, by simp, by simpa using hfit⟩, by simp⟩
    rw [List.nil_append, batchCharacters_singleton]
    simp only [Fits] at hfit
    simp only [if_true]
    omega
  · obtain ⟨hsize, hav⟩ := h.within hp
    rw [if_neg hp]
    by_cases hover : size + P.spanCharacters span + 1 > P.available
    · rw [if_pos ⟨hp, hover⟩]
      refine ⟨_, _, _, rfl, ⟨by simp [← h.flatten], fun b hb => ?_, fun _ => ?_, by simp, by simpa using hfit⟩,
        by simp⟩
      · rcases List.mem_append.1 hb with hb | hb
        · exact h.full b hb
        · obtain rfl := List.mem_singleton.1 hb
          refine ⟨?_, hsize ▸ hav⟩
          -- two spans that fit have room in a batch
          by_contra hshort
          obtain ⟨a, rfl⟩ : ∃ a, b = [a] := List.length_eq_one_iff.1 (by
            have := List.length_pos_of_ne_nil hp
            omega)
          have ha := h.spans a List.mem_cons_self
          rw [batchCharacters_singleton] at hsize
          simp only [Fits] at ha hfit
          omega
      · rw [batchCharacters_singleton]
        simp only [Fits] at hfit
        omega
    · rw [if_neg fun hc => hover hc.2]
      refine ⟨_, _, _, rfl, ⟨by simp [← h.flatten], h.full, fun _ => ?_, by simp, ?_⟩, by simp⟩
      · rw [batchCharacters_concat hp, ← hsize]
        omega
      · intro s hs
        rcases List.mem_append.1 hs with hs | hs
        · exact h.spans s hs
        · rwa [List.mem_singleton.1 hs]

/-- Spans that fit are cut into batches that fit, of two spans at least but for the last. -/
theorem partition_batches {frontier : List σ} (hfit : ∀ s ∈ frontier, Fits P s) :
    ∃ batches, partitionReduceSpans P frontier = .ok batches ∧ Batches P frontier batches := by
  have hrun : ∃ batches pending size, frontier.foldlM (packSpan P) ([], [], 0) = .ok (batches, pending, size) ∧
      Packing P frontier batches pending size ∧ (frontier ≠ [] → pending ≠ []) := by
    induction frontier using List.reverseRecOn with
    | nil => exact ⟨[], [], 0, rfl, ⟨rfl, by simp, by simp, by simp, by simp⟩, fun h => absurd rfl h⟩
    | append_singleton frontier span ih =>
      obtain ⟨batches, pending, size, hrun, hpack, -⟩ := ih fun s hs => hfit s (List.mem_append_left _ hs)
      obtain ⟨batches', pending', size', hspan, hpack', hne⟩ := hpack.span (hfit span (by simp))
      refine ⟨batches', pending', size', ?_, hpack', fun _ => hne⟩
      rw [List.foldlM_append, hrun, Guard.ok_bind, List.foldlM_cons, hspan, Guard.ok_bind, List.foldlM_nil,
        Guard.pure_eq_ok]
  obtain ⟨batches, pending, size, hrun, hpack, hne⟩ := hrun
  rw [partition_eq, hrun]
  refine ⟨_, rfl, ?_⟩
  dsimp only
  by_cases hp : pending = []
  · have hnil : frontier = [] := by
      by_contra h
      exact hne h hp
    rw [if_pos hp, (hpack.start hp).1, hnil]
    exact ⟨rfl, by simp, by simp, by simp⟩
  · rw [if_neg hp]
    obtain ⟨hsize, hav⟩ := hpack.within hp
    refine ⟨by rw [List.flatten_concat]; exact hpack.flatten, fun b hb => ?_, fun b hb => ?_, fun b hb => ?_⟩
    · rcases List.mem_append.1 hb with hb | hb
      · exact List.ne_nil_of_length_pos (by have := (hpack.full b hb).1; omega)
      · rwa [List.mem_singleton.1 hb]
    · rcases List.mem_append.1 hb with hb | hb
      · exact (hpack.full b hb).2
      · rw [List.mem_singleton.1 hb, ← hsize]
        exact hav
    · rw [List.dropLast_concat] at hb
      exact (hpack.full b hb).1

/-! ### Shrinking -/

/-- What the batches of a round that is not final may give back. -/
def shrunk (batches : List (List σ)) : Nat := (batches.map fun b => max 1 (b.length / 2)).sum

theorem shrunk_le {batches : List (List σ)} (htwo : ∀ b ∈ batches.dropLast, 2 ≤ b.length)
    (hne : ∀ b ∈ batches, b ≠ []) : shrunk batches * 2 ≤ batches.flatten.length + 1 := by
  induction batches with
  | nil => simp [shrunk]
  | cons b batches ih =>
    have hb := List.length_pos_of_ne_nil (hne b List.mem_cons_self)
    cases batches with
    | nil =>
      simp only [shrunk, List.map_cons, List.map_nil, List.sum_cons, List.sum_nil, List.flatten_cons, List.flatten_nil,
        List.append_nil]
      omega
    | cons c batches =>
      have h2 := htwo b (by simp)
      have hrest := ih (fun x hx => htwo x (by rw [List.dropLast_cons_cons]; exact List.mem_cons_of_mem _ hx))
        fun x hx => hne x (List.mem_cons_of_mem _ hx)
      simp only [shrunk, List.map_cons, List.sum_cons, List.flatten_cons, List.length_append] at hrest ⊢
      omega

theorem dedup_spec (P : Plan σ) (spans : List σ) : (deduplicatedSpans P spans).length ≤ spans.length ∧
    ∀ s ∈ deduplicatedSpans P spans, s ∈ spans := by
  have hrun : ∀ d : List (Str × σ), (PyList.values (spans.foldl (fun d s =>
      if (PyList.get? d (P.spanKey s)).isSome then d else PyList.insert (P.spanKey s) s d) d)).length ≤
        d.length + spans.length ∧
      ∀ s ∈ PyList.values (spans.foldl (fun d s =>
        if (PyList.get? d (P.spanKey s)).isSome then d else PyList.insert (P.spanKey s) s d) d),
          s ∈ PyList.values d ∨ s ∈ spans := by
    induction spans with
    | nil => exact fun d => ⟨by simp [PyList.values], fun s hs => .inl hs⟩
    | cons x spans ih =>
      intro d
      rw [List.foldl_cons]
      split
      · exact ⟨(ih d).1.trans (by simp), fun s hs => ((ih d).2 s hs).imp_right (List.mem_cons_of_mem _)⟩
      · obtain ⟨hlength, hmem⟩ := ih (PyList.insert (P.spanKey x) x d)
        have hinsert : (PyList.insert (P.spanKey x) x d).length ≤ d.length + 1 := by
          have := congrArg List.length (PyList.keys_insert (P.spanKey x) x d)
          rw [List.length_map] at this
          rw [this]
          split <;> simp
        refine ⟨hlength.trans (by simp only [List.length_cons]; omega), fun s hs => ?_⟩
        rcases hmem s hs with h | h
        · obtain ⟨e, he, rfl⟩ := List.mem_map.1 h
          rcases PyList.mem_insert he with rfl | he
          · exact .inr List.mem_cons_self
          · exact .inl (List.mem_map_of_mem he)
        · exact .inr (List.mem_cons_of_mem _ h)
  obtain ⟨hlength, hmem⟩ := hrun []
  exact ⟨hlength.trans (Nat.zero_add _).le, fun s hs => (hmem s hs).resolve_left (by simp [PyList.values])⟩

/-! ### Results -/

/-- What `_reduce_result_from_receipt` guarantees of a result for a pending batch. -/
structure Answers (P : Plan σ) (p : PendingReduction σ) (result : ReduceBatchResult σ) : Prop where
  round : result.roundIndex = p.roundIndex
  batch : result.batchIndex = p.batchIndex
  count : result.inputSpanCount = p.spans.length
  digest : result.inputSpanSha256 = P.inputSha256 p.spans
  subset : ∀ s ∈ result.spans, s ∈ p.spans
  bound : result.spans.length ≤ p.maximumOutputs

theorem Answers.length_le {p : PendingReduction σ} {result : ReduceBatchResult σ} (h : Answers P p result)
    (hfinal : p.finalBatch = false) : result.spans.length ≤ max 1 (p.spans.length / 2) := by
  have := h.bound
  rw [PendingReduction.maximumOutputs, hfinal, if_neg Bool.false_ne_true] at this
  exact this.trans (min_le_right _ _)

section
variable {roundIndex batchIndex : Nat} {final : Bool} {batches : List (List σ)}
  {results rest : List (ReduceBatchResult σ)} {next next' : List σ} {p : PendingReduction σ} {x : ReduceBatchResult σ}

/-- The step of `reduceBatches` over a result that passes its checks. -/
theorem reduceBatches_cons {batch : List σ} {result : ReduceBatchResult σ} {out}
    (h : reduceBatches P roundIndex final batchIndex (batch :: batches) (result :: results) next = .ok out) :
    (∀ s ∈ result.spans, P.spanKey s ∈ batch.map P.spanKey) ∧
    (final = false → result.spans.length ≤ max 1 (batch.length / 2)) ∧
    (∀ results', reduceBatches P roundIndex final batchIndex (batch :: batches) (result :: results') next =
      reduceBatches P roundIndex final (batchIndex + 1) batches results' (next ++ result.spans)) := by
  by_cases hid : result.roundIndex ≠ roundIndex ∨ result.batchIndex ≠ batchIndex ∨
      result.inputSpanCount ≠ batch.length ∨ result.inputSpanSha256 ≠ P.inputSha256 batch
  · rw [reduceBatches, if_pos hid] at h
    cases h
  · by_cases hnew : ∃ s ∈ result.spans, P.spanKey s ∉ batch.map P.spanKey
    · rw [reduceBatches, if_neg hid, if_pos hnew] at h
      cases h
    · by_cases hbound : ¬ final = true ∧ result.spans.length > max 1 (batch.length / 2)
      · rw [reduceBatches, if_neg hid, if_neg hnew, if_pos hbound] at h
        cases h
      · refine ⟨fun s hs => ?_, fun hf => ?_, fun results' => ?_⟩
        · by_contra hk
          exact hnew ⟨s, hs, hk⟩
        · by_contra hlt
          exact hbound ⟨by simp [hf], Nat.not_le.1 hlt⟩
        · rw [reduceBatches, if_neg hid, if_neg hnew, if_neg hbound]

theorem reduceBatches_answer {batch : List σ} (h : Answers P ⟨roundIndex, batchIndex, batch, final⟩ x)
    (results' : List (ReduceBatchResult σ)) (next : List σ) :
    reduceBatches P roundIndex final batchIndex (batch :: batches) (x :: results') next =
      reduceBatches P roundIndex final (batchIndex + 1) batches results' (next ++ x.spans) := by
  have hid : ¬ (x.roundIndex ≠ roundIndex ∨ x.batchIndex ≠ batchIndex ∨ x.inputSpanCount ≠ batch.length ∨
      x.inputSpanSha256 ≠ P.inputSha256 batch) := by
    rintro (hne | hne | hne | hne)
    · exact hne h.round
    · exact hne h.batch
    · exact hne h.count
    · exact hne h.digest
  have hnew : ¬ ∃ s ∈ x.spans, P.spanKey s ∉ batch.map P.spanKey := by
    rintro ⟨s, hs, hk⟩
    exact hk (List.mem_map_of_mem (h.subset s hs))
  have hbound : ¬ (¬ final = true ∧ x.spans.length > max 1 (batch.length / 2)) := by
    rintro ⟨hf, hlt⟩
    exact absurd (h.length_le (Bool.eq_false_iff.2 hf)) (Nat.not_le.2 hlt)
  rw [reduceBatches, if_neg hid, if_neg hnew, if_neg hbound]

/-- A round that is over: its results, and what its next frontier can hold. -/
theorem reduceBatches_over
    (h : reduceBatches P roundIndex final batchIndex batches results next = .ok (.inr (rest, next'))) :
    results.length = batches.length + rest.length ∧
    (final = false → next'.length ≤ next.length + shrunk batches) ∧
    (∀ s ∈ next', s ∈ next ∨ P.spanKey s ∈ batches.flatten.map P.spanKey) ∧
    ∀ x, reduceBatches P roundIndex final batchIndex batches (results ++ [x]) next =
      .ok (.inr (rest ++ [x], next')) := by
  induction batches generalizing batchIndex results next with
  | nil =>
    obtain ⟨rfl, rfl⟩ := Prod.mk.inj (Sum.inr.inj (Except.ok.inj h))
    exact ⟨by simp, fun _ => by simp [shrunk], fun s hs => .inl hs, fun x => rfl⟩
  | cons batch batches ih =>
    cases results with
    | nil => cases h
    | cons result results =>
      obtain ⟨hkeys, hbound, hstep⟩ := reduceBatches_cons h
      rw [hstep] at h
      obtain ⟨hlength, hshrunk, hmem, hmore⟩ := ih h
      refine ⟨by simp only [List.length_cons]; omega, fun hf => ?_, fun s hs => ?_, fun x => ?_⟩
      · have h1 := hshrunk hf
        have h2 := hbound hf
        simp only [shrunk, List.map_cons, List.sum_cons, List.length_append] at h1 ⊢
        omega
      · rw [List.flatten_cons, List.map_append, List.mem_append]
        rcases hmem s hs with hs | hs
        · exact (List.mem_append.1 hs).imp_right fun hs => .inl (hkeys s hs)
        · exact .inr (.inr hs)
      · rw [List.cons_append, hstep]
        exact hmore x

/-- A batch without a result, and what its result leads to. -/
theorem reduceBatches_wait (h : reduceBatches P roundIndex final batchIndex batches results next = .ok (.inl p)) :
    p.roundIndex = roundIndex ∧ p.finalBatch = final ∧ p.spans ∈ batches ∧ results.length < batches.length ∧
    ∀ x, Answers P p x →
      (∃ q, reduceBatches P roundIndex final batchIndex batches (results ++ [x]) next = .ok (.inl q)) ∨
      ∃ next', reduceBatches P roundIndex final batchIndex batches (results ++ [x]) next = .ok (.inr ([], next')) := by
  induction batches generalizing batchIndex results next with
  | nil => cases h
  | cons batch batches ih =>
    cases results with
    | nil =>
      obtain rfl := Sum.inl.inj (Except.ok.inj h)
      refine ⟨rfl, rfl, List.mem_cons_self, by simp, fun x hx => ?_⟩
      rw [List.nil_append, reduceBatches_answer hx]
      cases batches with
      | nil => exact .inr ⟨_, rfl⟩
      | cons batch' batches => exact .inl ⟨_, rfl⟩
    | cons result results =>
      obtain ⟨-, -, hstep⟩ := reduceBatches_cons h
      rw [hstep] at h
      obtain ⟨hround, hfinal, hmem, hlength, hx⟩ := ih h
      refine ⟨hround, hfinal, List.mem_cons_of_mem _ hmem, by simp only [List.length_cons]; omega, fun x hans => ?_⟩
      rw [List.cons_append, hstep]
      exact hx x hans

end

/-! ### Rounds -/

/-- A frontier that can be cut into batches. -/
structure Frontier (P : Plan σ) (frontier : List σ) : Prop where
  fits : ∀ s ∈ frontier, Fits P s
  ne : frontier ≠ []

/-- Spans are told apart by their keys. -/
abbrev Plan.Keyed (P : Plan σ) : Prop := Function.Injective P.spanKey

section
variable {left roundIndex k : Nat} {frontier : List σ} {batches : List (List σ)}
  {results rest : List (ReduceBatchResult σ)} {next : List σ} {p : PendingReduction σ} {x : ReduceBatchResult σ}

theorem Batches.length_pos (hb : Batches P frontier batches) (hne : frontier ≠ []) : 0 < batches.length := by
  refine List.length_pos_of_ne_nil fun h => hne ?_
  rw [← hb.flatten, h]
  rfl

/-- Two batches hold three spans. -/
theorem Batches.three (hb : Batches P frontier batches) (hne : frontier ≠ []) (h : batches.length ≠ 1) :
    3 ≤ frontier.length := by
  match batches, hb, h with
  | [], hb, _ => exact absurd (hb.length_pos hne) (by simp)
  | [_], _, h => exact absurd rfl h
  | b :: c :: batches, hb, _ =>
    have h2 := hb.two b (by simp)
    have h1 := List.length_pos_of_ne_nil (hb.ne c (by simp))
    have hlength := congrArg List.length hb.flatten
    simp only [List.flatten_cons, List.length_append] at hlength
    omega

/-- The frontier after a round that is not final. -/
theorem Batches.shrinks (hb : Batches P frontier batches) (hf : ∀ s ∈ frontier, Fits P s) (hkey : P.Keyed)
    (hone : batches.length ≠ 1)
    (hover : reduceBatches P roundIndex (batches.length = 1) 0 batches results [] = .ok (.inr (rest, next))) :
    (∀ s ∈ deduplicatedSpans P next, Fits P s) ∧ (deduplicatedSpans P next).length * 2 ≤ frontier.length + 1 := by
  obtain ⟨-, hshrunk, hmem, -⟩ := reduceBatches_over hover
  obtain ⟨hlength, hsub⟩ := dedup_spec P next
  refine ⟨fun s hs => ?_, ?_⟩
  · have hs := (hmem s (hsub s hs)).resolve_left List.not_mem_nil
    rw [hb.flatten] at hs
    obtain ⟨t, ht, heq⟩ := List.mem_map.1 hs
    exact hkey heq ▸ hf t ht
  · have h1 := hshrunk (decide_eq_false hone)
    have h2 := shrunk_le hb.two hb.ne
    rw [hb.flatten] at h2
    simp only [List.length_nil] at h1
    omega

theorem reduceRounds_start (left roundIndex : Nat) (hf : Frontier P frontier) :
    ∃ p, reduceRounds P (left + 1) roundIndex frontier [] = .ok (.pending p) := by
  obtain ⟨batches, hpart, hb⟩ := partition_batches hf.fits
  rw [reduceRounds, hpart]
  match batches, hb.length_pos hf.ne with
  | b :: batches, _ => exact ⟨_, rfl⟩

theorem reduceRounds_of_wait (hpart : partitionReduceSpans P frontier = .ok batches)
    (h : reduceBatches P roundIndex (batches.length = 1) 0 batches results [] = .ok (.inl p)) :
    reduceRounds P (left + 1) roundIndex frontier results = .ok (.pending p) := by
  rw [reduceRounds, hpart]
  dsimp only
  rw [h]

theorem reduceRounds_of_final (hpart : partitionReduceSpans P frontier = .ok batches) (hone : batches.length = 1)
    (h : reduceBatches P roundIndex (batches.length = 1) 0 batches results [] = .ok (.inr ([], next))) :
    reduceRounds P (left + 1) roundIndex frontier results = .ok (.terminal next) := by
  rw [reduceRounds, hpart]
  dsimp only
  rw [h]
  dsimp only
  rw [if_pos hone, if_neg (not_not.2 rfl)]

theorem reduceRounds_of_over (hpart : partitionReduceSpans P frontier = .ok batches) (hone : batches.length ≠ 1)
    (h : reduceBatches P roundIndex (batches.length = 1) 0 batches results [] = .ok (.inr (rest, next)))
    (hshrink : (deduplicatedSpans P next).length < frontier.length) :
    reduceRounds P (left + 1) roundIndex frontier results =
      if deduplicatedSpans P next = [] then
        if rest ≠ [] then .error "reduce ledger continued after an empty frontier" else .ok (.terminal [])
      else reduceRounds P left (roundIndex + 1) (deduplicatedSpans P next) rest := by
  rw [reduceRounds, hpart]
  dsimp only
  rw [h]
  dsimp only
  rw [if_neg hone, if_neg (Nat.not_le.2 hshrink)]

/-- A call is pending in the round or in a later one. -/
theorem reduceRounds_cases (hf : ∀ s ∈ frontier, Fits P s)
    (h : reduceRounds P (left + 1) roundIndex frontier results = .ok (.pending p)) :
    ∃ batches, partitionReduceSpans P frontier = .ok batches ∧ Batches P frontier batches ∧
      (reduceBatches P roundIndex (batches.length = 1) 0 batches results [] = .ok (.inl p) ∨
        ∃ rest next, reduceBatches P roundIndex (batches.length = 1) 0 batches results [] = .ok (.inr (rest, next)) ∧
          batches.length ≠ 1 ∧ (deduplicatedSpans P next).length < frontier.length ∧ deduplicatedSpans P next ≠ [] ∧
          reduceRounds P left (roundIndex + 1) (deduplicatedSpans P next) rest = .ok (.pending p)) := by
  obtain ⟨batches, hpart, hb⟩ := partition_batches hf
  refine ⟨batches, hpart, hb, ?_⟩
  rw [reduceRounds, hpart] at h
  dsimp only at h
  split at h
  · cases h
  · rename_i q hq
    obtain rfl := Reduction.pending.inj (Except.ok.inj h)
    exact .inl hq
  · rename_i rest next hover
    right
    split at h
    · split at h <;> cases h
    · rename_i hone
      split at h
      · cases h
      · rename_i hshrink
        split at h
        · split at h <;> cases h
        · rename_i hne
          exact ⟨rest, next, hover, hone, Nat.not_le.1 hshrink, hne, h⟩

/-- The results of a pending state lead to a state again. -/
theorem reduceRounds_extend (hkey : P.Keyed) (hf : Frontier P frontier) (hn : frontier.length ≤ 2 ^ left + 1)
    (h : reduceRounds P (left + 1) roundIndex frontier results = .ok (.pending p)) (hx : Answers P p x) :
    ∃ state, reduceRounds P (left + 1) roundIndex frontier (results ++ [x]) = .ok state := by
  induction left generalizing roundIndex frontier results with
  | zero =>
    obtain ⟨batches, hpart, hb, hcases⟩ := reduceRounds_cases hf.fits h
    have hone : batches.length = 1 := by
      by_contra hne
      have := hb.three hf.ne hne
      simp only [Nat.pow_zero] at hn
      omega
    rcases hcases with hwait | ⟨-, -, -, hne, -⟩
    · obtain ⟨-, -, -, -, hwait⟩ := reduceBatches_wait hwait
      rcases hwait x hx with ⟨q, hq⟩ | ⟨next, hnext⟩
      · exact ⟨_, reduceRounds_of_wait hpart hq⟩
      · exact ⟨_, reduceRounds_of_final hpart hone hnext⟩
    · exact absurd hone hne
  | succ left ih =>
    obtain ⟨batches, hpart, hb, hcases⟩ := reduceRounds_cases hf.fits h
    rcases hcases with hwait | ⟨rest, next, hover, hone, hshrink, hne, hlater⟩
    · obtain ⟨-, -, -, -, hwait⟩ := reduceBatches_wait hwait
      rcases hwait x hx with ⟨q, hq⟩ | ⟨next, hnext⟩
      · exact ⟨_, reduceRounds_of_wait hpart hq⟩
      · by_cases hone : batches.length = 1
        · exact ⟨_, reduceRounds_of_final hpart hone hnext⟩
        · -- the last result of a round: the next one starts
          obtain ⟨hfits, hhalf⟩ := hb.shrinks hf.fits hkey hone hnext
          have hthree := hb.three hf.ne hone
          rw [reduceRounds_of_over hpart hone hnext (by omega)]
          by_cases hempty : deduplicatedSpans P next = []
          · rw [if_pos hempty, if_neg (not_not.2 rfl)]
            exact ⟨_, rfl⟩
          · rw [if_neg hempty]
            obtain ⟨q, hq⟩ := reduceRounds_start left (roundIndex + 1) ⟨hfits, hempty⟩
            exact ⟨_, hq⟩
    · obtain ⟨hfits, hhalf⟩ := hb.shrinks hf.fits hkey hone hover
      obtain ⟨-, -, -, hmore⟩ := reduceBatches_over hover
      rw [reduceRounds_of_over hpart hone (hmore x) hshrink, if_neg hne]
      exact ih ⟨hfits, hne⟩ (by rw [Nat.pow_succ] at hn; omega) hlater

/-- Rounds are bounded by the logarithm of the frontier. -/
theorem reduceRounds_round_le (hkey : P.Keyed) (hf : Frontier P frontier) (hn : frontier.length ≤ 2 ^ k + 1)
    (h : reduceRounds P left roundIndex frontier results = .ok (.pending p)) : p.roundIndex ≤ roundIndex + k := by
  induction k generalizing left roundIndex frontier results with
  | zero =>
    cases left with
    | zero => cases h
    | succ left =>
      obtain ⟨batches, -, hb, hcases⟩ := reduceRounds_cases hf.fits h
      rcases hcases with hwait | ⟨-, -, -, hone, -⟩
      · exact (reduceBatches_wait hwait).1.le
      · have := hb.three hf.ne hone
        simp only [Nat.pow_zero] at hn
        omega
  | succ k ih =>
    cases left with
    | zero => cases h
    | succ left =>
      obtain ⟨batches, -, hb, hcases⟩ := reduceRounds_cases hf.fits h
      rcases hcases with hwait | ⟨rest, next, hover, hone, -, hne, hlater⟩
      · exact (reduceBatches_wait hwait).1.le.trans (Nat.le_add_right _ _)
      · obtain ⟨hfits, hhalf⟩ := hb.shrinks hf.fits hkey hone hover
        have := ih ⟨hfits, hne⟩ (by rw [Nat.pow_succ] at hn; omega) hlater
        omega

theorem Batches.length_le (hb : Batches P frontier batches) : batches.length ≤ frontier.length := by
  rw [← hb.flatten, List.length_flatten]
  have hpos : ∀ n ∈ batches.map List.length, 1 ≤ n := by
    intro n hn
    obtain ⟨b, hb', rfl⟩ := List.mem_map.1 hn
    exact List.length_pos_of_ne_nil (hb.ne b hb')
  simpa using List.card_nsmul_le_sum _ 1 hpos

/-- A state that waits for a result has few of them. -/
theorem reduceRounds_length_lt (hkey : P.Keyed) (hf : ∀ s ∈ frontier, Fits P s) {n : Nat} (hn : frontier.length ≤ n)
    (h : reduceRounds P left roundIndex frontier results = .ok (.pending p)) : results.length < left * n := by
  induction left generalizing roundIndex frontier results with
  | zero => cases h
  | succ left ih =>
    obtain ⟨batches, -, hb, hcases⟩ := reduceRounds_cases hf h
    have hle := hb.length_le
    rw [Nat.succ_mul]
    rcases hcases with hwait | ⟨rest, next, hover, hone, hshrink, -, hlater⟩
    · have := (reduceBatches_wait hwait).2.2.2.1
      omega
    · have := ih (hb.shrinks hf hkey hone hover).1 (by omega) hlater
      have := (reduceBatches_over hover).1
      omega

end

/-! ### Ledgers -/

section
variable {l : Ledger σ} {roundIndex : Nat} {frontier : List σ} {results : List (ReduceBatchResult σ)}

/-- `frontier` and the results left are those of a round that `_reduction_state` enters. -/
inductive InRound (P : Plan σ) (l : Ledger σ) : Nat → List σ → List (ReduceBatchResult σ) → Prop
  | first : deduplicatedSpans P (l.completedMaps.flatMap (·.spans)) ≠ [] →
      InRound P l 0 (deduplicatedSpans P (l.completedMaps.flatMap (·.spans))) l.completedReductions
  | next {roundIndex frontier results batches rest next} : InRound P l roundIndex frontier results →
      partitionReduceSpans P frontier = .ok batches → batches.length ≠ 1 →
      reduceBatches P roundIndex (batches.length = 1) 0 batches results [] = .ok (.inr (rest, next)) →
      deduplicatedSpans P next ≠ [] → InRound P l (roundIndex + 1) (deduplicatedSpans P next) rest

/-- The maps of a ledger: every unit is mapped, to few spans that fit. -/
structure Mapped (P : Plan σ) (l : Ledger σ) : Prop where
  units : l.completedMaps.length = P.units.length
  few : P.units.length ≤ 100000
  spans : ∀ m ∈ l.completedMaps, m.spans.length ≤ maximumProviderSpans ∧ ∀ s ∈ m.spans, Fits P s

theorem Mapped.length_le (h : Mapped P l) :
    (deduplicatedSpans P (l.completedMaps.flatMap (·.spans))).length ≤ 6400000 := by
  refine (dedup_spec P _).1.trans ?_
  rw [List.length_flatMap]
  have hsum := List.sum_le_card_nsmul (l.completedMaps.map fun m => m.spans.length) maximumProviderSpans (by
    intro n hn
    obtain ⟨m, hm, rfl⟩ := List.mem_map.1 hn
    exact (h.spans m hm).1)
  rw [List.length_map, h.units, smul_eq_mul, maximumProviderSpans] at hsum
  have := h.few
  omega

theorem Mapped.fits (h : Mapped P l) : ∀ s ∈ deduplicatedSpans P (l.completedMaps.flatMap (·.spans)), Fits P s := by
  intro s hs
  obtain ⟨m, hm, hs⟩ := List.mem_flatMap.1 ((dedup_spec P _).2 s hs)
  exact (h.spans m hm).2 s hs

/-- A round has a frontier that fits, half as large with every round. -/
theorem InRound.halved (h : InRound P l roundIndex frontier results) (hkey : P.Keyed) (hm : Mapped P l) :
    Frontier P frontier ∧ ∃ k, roundIndex + k = 23 ∧ frontier.length ≤ 2 ^ k + 1 := by
  induction h with
  | first hne => exact ⟨⟨hm.fits, hne⟩, 23, rfl, hm.length_le.trans (by norm_num)⟩
  | @next roundIndex frontier results batches rest next _ hpart hone hover hne ih =>
    obtain ⟨hf, k, hk, hn⟩ := ih
    obtain ⟨batches', hpart', hb⟩ := partition_batches hf.fits
    obtain rfl := Except.ok.inj (hpart.symm.trans hpart')
    obtain ⟨hfits, hhalf⟩ := hb.shrinks hf.fits hkey hone hover
    have hthree := hb.three hf.ne hone
    refine ⟨⟨hfits, hne⟩, ?_⟩
    cases k with
    | zero =>
      simp only [Nat.pow_zero] at hn
      omega
    | succ k => exact ⟨k, by omega, by rw [Nat.pow_succ] at hn; omega⟩

/-- A ledger with one more answer, if it waits for one. -/
def answer (P : Plan σ) (result : PendingReduction σ → ReduceBatchResult σ) (l : Ledger σ) :
    Except String (Ledger σ) := do
  match ← reductionState P l with
  | .terminal _ => pure l
  | .pending p => pure { l with completedReductions := l.completedReductions ++ [result p] }

theorem reductionState_eq (hm : Mapped P l) (hne : deduplicatedSpans P (l.completedMaps.flatMap (·.spans)) ≠ []) :
    reductionState P l = reduceRounds P 32 0 (deduplicatedSpans P (l.completedMaps.flatMap (·.spans)))
      l.completedReductions := by
  rw [reductionState, if_neg (not_not.2 hm.units)]
  dsimp only
  rw [if_neg hne]

theorem reductionState_ne (hm : Mapped P l) {p : PendingReduction σ} (h : reductionState P l = .ok (.pending p)) :
    deduplicatedSpans P (l.completedMaps.flatMap (·.spans)) ≠ [] := by
  intro hnil
  rw [reductionState, if_neg (not_not.2 hm.units)] at h
  dsimp only at h
  rw [if_pos hnil] at h
  split at h <;> cases h

/-- Every run of answers leads to a state, and one of them is the last. -/
theorem answers_lead (hkey : P.Keyed) (hm : Mapped P l) (hstart : l.completedReductions = [])
    {answers : List (PendingReduction σ → ReduceBatchResult σ)} (hx : ∀ a ∈ answers, ∀ p, Answers P p (a p)) :
    ∃ l', answers.foldlM (fun l a => answer P a l) l = .ok l' ∧ l'.completedMaps = l.completedMaps ∧
      ∃ state, reductionState P l' = .ok state ∧
        ((∃ spans, state = .terminal spans) ∨ l'.completedReductions.length = answers.length) := by
  induction answers using List.reverseRecOn with
  | nil =>
    refine ⟨l, rfl, rfl, ?_⟩
    by_cases hne : deduplicatedSpans P (l.completedMaps.flatMap (·.spans)) = []
    · refine ⟨.terminal [], ?_, .inl ⟨[], rfl⟩⟩
      rw [reductionState, if_neg (not_not.2 hm.units)]
      dsimp only
      rw [if_pos hne, if_neg (not_not.2 hstart)]
    · obtain ⟨p, hp⟩ := reduceRounds_start 31 0 ⟨hm.fits, hne⟩
      exact ⟨.pending p, by rw [reductionState_eq hm hne, hstart]; exact hp, .inr (by rw [hstart]; rfl)⟩
  | append_singleton answers a ih =>
    obtain ⟨l', hrun, hmaps, state, hstate, hcount⟩ := ih fun a ha => hx a (List.mem_append_left _ ha)
    have hm' : Mapped P l' := ⟨hmaps ▸ hm.units, hm.few, hmaps ▸ hm.spans⟩
    rw [List.foldlM_append, hrun, Guard.ok_bind, List.foldlM_cons, answer, hstate, Guard.ok_bind]
    cases state with
    | terminal spans => exact ⟨l', rfl, hmaps, .terminal spans, hstate, .inl ⟨spans, rfl⟩⟩
    | pending p =>
      have hlength := hcount.resolve_left fun ⟨_, h⟩ => by cases h
      have hne := reductionState_ne hm' hstate
      rw [reductionState_eq hm' hne] at hstate
      obtain ⟨state, hnext⟩ := reduceRounds_extend hkey ⟨hm'.fits, hne⟩ (hm'.length_le.trans (by norm_num)) hstate
        (hx a (by simp) p)
      refine ⟨{ l' with completedReductions := l'.completedReductions ++ [a p] }, rfl, hmaps, state, ?_, .inr ?_⟩
      · have hm'' : Mapped P { l' with completedReductions := l'.completedReductions ++ [a p] } :=
          ⟨hm'.units, hm'.few, hm'.spans⟩
        exact (reductionState_eq hm'' hne).trans hnext
      · rw [List.length_append, List.length_append, hlength]
        rfl

end

/-! ### Evidence spans and prompts -/

structure ExactEvidenceSpan where
  contractRevisionId : Str
  page : Nat
  sourceStart : Nat
  sourceEnd : Nat
  textSha256 : Str
  text : Str
deriving DecidableEq

/-- `span.model_dump(mode="json")`, with sorted keys. -/
def ExactEvidenceSpan.payload (span : ExactEvidenceSpan) : Json :=
  .obj [("contract_revision_id".toList, .str span.contractRevisionId), ("page".toList, .num span.page),
    ("source_end".toList, .num span.sourceEnd), ("source_start".toList, .num span.sourceStart),
    ("text".toList, .str span.text), ("text_sha256".toList, .str span.textSha256)]

/-- `MAX_QUERY_CHARACTERS` -/
def maximumQueryCharacters : Nat := 2000

def reduceSystemPrompt : Str :=
  "You are CardRAG's experimental evidence reducer.\n".toList ++
  "Return only JSON matching the supplied schema. Select only evidence spans that\n".toList ++
  "directly answer the query. You may only copy complete spans from the supplied\n".toList ++
  "validated map results with exactly identical page, offsets, and quote. Never\n".toList ++
  "change contract_revision_id or create, combine, rewrite, normalize, or infer a\n".toList ++
  "quote. Return at most 64 spans.".toList

def reduceUserPrompt (query : Str) (spans : List ExactEvidenceSpan) (maximumOutputSpans : Nat) : Str :=
  "QUERY:\n".toList ++ query ++ "\nMAXIMUM_OUTPUT_SPANS: ".toList ++ Json.decimal maximumOutputSpans ++
    "\nVALIDATED_MAP_SPANS:\n".toList ++ (Json.arr (spans.map (·.payload))).render

/-- `input_characters` of `_prepare_reduce_call` -/
def reduceInputCharacters (query : Str) (spans : List ExactEvidenceSpan) (maximumOutputSpans : Nat) : Nat :=
  reduceSystemPrompt.length + (reduceUserPrompt query spans maximumOutputSpans).length

def reduceFixedCharacters : Nat :=
  reduceSystemPrompt.length + "QUERY:\n".toList.length + maximumQueryCharacters +
    "\nMAXIMUM_OUTPUT_SPANS: ".toList.length + (Json.decimal maximumProviderSpans).length +
    "\nVALIDATED_MAP_SPANS:\n".toList.length + 2

/-- The plan of a job over such spans. Two spans have one `_span_key` when their records agree. -/
def evidencePlan (base : Plan ExactEvidenceSpan) (maximumInputCharacters : Nat) (query : Str) : Plan ExactEvidenceSpan :=
  { base with
    spanKey := fun span => span.payload.render
    spanCharacters := fun span => span.payload.render.length
    available := maximumInputCharacters - reduceFixedCharacters
    reduceRequest := fun spans maximumOutputSpans =>
      ((base.reduceRequest spans maximumOutputSpans).1, reduceInputCharacters query spans maximumOutputSpans) }

structure ProviderSpan where
  contractRevisionId : Str
  page : Nat
  sourceStart : Nat
  sourceEnd : Nat
  quote : Str

structure ProviderDecision where
  relevant : Bool
  spans : List ProviderSpan

/-- One proposed span of `_reduce_result_from_receipt`: the candidates with the span it names, if it
names a single new one and there is room. -/
def addCandidate (P : Plan ExactEvidenceSpan) (p : PendingReduction ExactEvidenceSpan)
    (candidates : List ExactEvidenceSpan) (proposed : ProviderSpan) : List ExactEvidenceSpan :=
  match p.spans.filter fun span => span.contractRevisionId = proposed.contractRevisionId ∧ span.page = proposed.page ∧
    span.sourceStart = proposed.sourceStart ∧ span.sourceEnd = proposed.sourceEnd ∧ span.text = proposed.quote with
  | [found] =>
    if P.spanKey found ∈ candidates.map P.spanKey then candidates
    else if candidates.length ≥ p.maximumOutputs then candidates
    else candidates ++ [found]
  | _ => candidates

def reduceResultFromReceipt (P : Plan ExactEvidenceSpan) (decision : ProviderDecision) (receiptSha256 : Str)
    (p : PendingReduction ExactEvidenceSpan) : ReduceBatchResult ExactEvidenceSpan :=
  ⟨p.roundIndex, p.batchIndex, P.inputSha256 p.spans, p.spans.length,
    if decision.relevant then decision.spans.foldl (addCandidate P p) [] else [], receiptSha256⟩

section
variable {base : Plan ExactEvidenceSpan} {maximumInputCharacters : Nat} {query : Str}

theorem answers_reduceResult (P : Plan ExactEvidenceSpan) (decision : ProviderDecision) (receiptSha256 : Str)
    (p : PendingReduction ExactEvidenceSpan) : Answers P p (reduceResultFromReceipt P decision receiptSha256 p) := by
  have hfold : ∀ proposals : List ProviderSpan, (∀ s ∈ proposals.foldl (addCandidate P p) [], s ∈ p.spans) ∧
      (proposals.foldl (addCandidate P p) []).length ≤ p.maximumOutputs := by
    intro proposals
    induction proposals using List.reverseRecOn with
    | nil => exact ⟨by simp, Nat.zero_le _⟩
    | append_singleton proposals proposed ih =>
      rw [List.foldl_append, List.foldl_cons, List.foldl_nil]
      generalize proposals.foldl (addCandidate P p) [] = candidates at ih
      unfold addCandidate
      split
      · rename_i found hfound
        split
        · exact ih
        · split
          · exact ih
          · rename_i hroom
            refine ⟨fun s hs => ?_, ?_⟩
            · rcases List.mem_append.1 hs with hs | hs
              · exact ih.1 s hs
              · rw [List.mem_singleton.1 hs]
                exact List.mem_of_mem_filter (hfound ▸ List.mem_singleton_self found)
            · rw [List.length_append, List.length_singleton]
              omega
      · exact ih
  refine ⟨rfl, rfl, rfl, rfl, ?_, ?_⟩
  · unfold reduceResultFromReceipt
    dsimp only
    split
    · exact (hfold _).1
    · exact nofun
  · unfold reduceResultFromReceipt
    dsimp only
    split
    · exact (hfold _).2
    · exact Nat.zero_le _

theorem evidencePlan_keyed : (evidencePlan base maximumInputCharacters query).Keyed := by
  intro s t h
  have := Json.render_injective h
  simp only [ExactEvidenceSpan.payload, Json.obj.injEq, List.cons.injEq, Prod.mk.injEq, Json.str.injEq, Json.num.injEq,
    true_and, and_true] at this
  obtain ⟨h1, h2, h3, h4, h5, h6⟩ := this
  cases s
  cases t
  simp_all

theorem length_render_payloads (base : Plan ExactEvidenceSpan) (maximumInputCharacters : Nat) (query : Str)
    (spans : List ExactEvidenceSpan) : (Json.arr (spans.map (·.payload))).render.length =
    batchCharacters (evidencePlan base maximumInputCharacters query) spans + 2 := by
  have hitems : ∀ xs : List ExactEvidenceSpan, (Json.renderItems (xs.map (·.payload))).length =
      (xs.map fun s => s.payload.render.length).sum + xs.length + 1 := by
    intro xs
    induction xs with
    | nil => rfl
    | cons x xs ih =>
      simp only [List.map_cons, Json.renderItems, List.length_append, List.length_cons, ih, List.sum_cons]
      omega
  cases spans with
  | nil => rfl
  | cons s spans =>
    simp only [List.map_cons, Json.render, List.length_append, List.length_cons, hitems, batchCharacters, List.sum_cons,
      evidencePlan]
    omega

theorem length_decimal_le {m : Nat} (hm : m ≤ maximumProviderSpans) :
    (Json.decimal m).length ≤ (Json.decimal maximumProviderSpans).length := by
  have h : (Json.decimal m).length ≤ 2 := Nat.length_toDigits_le_iff (by decide) (by decide) |>.2 (by
    rw [maximumProviderSpans] at hm
    omega)
  exact h

/-- What is reserved covers a prompt but for its spans. -/
theorem reduceInputCharacters_add (base : Plan ExactEvidenceSpan) (maximumInputCharacters : Nat)
    (hq : query.length ≤ maximumQueryCharacters) {m : Nat} (hm : m ≤ maximumProviderSpans)
    (batch : List ExactEvidenceSpan) : reduceInputCharacters query batch m ≤
      batchCharacters (evidencePlan base maximumInputCharacters query) batch + reduceFixedCharacters := by
  have hdigits := length_decimal_le hm
  have hrender := length_render_payloads base maximumInputCharacters query batch
  have hsum : ∀ system a b c n : Nat, system + (a + query.length + b + (Json.decimal m).length + c + (n + 2)) ≤
      n + (system + a + maximumQueryCharacters + b + (Json.decimal maximumProviderSpans).length + c + 2) := by
    intro system a b c n
    omega
  unfold reduceInputCharacters reduceUserPrompt reduceFixedCharacters
  simp only [List.length_append, hrender]
  exact hsum _ _ _ _ _

/-- A batch that fits makes a prompt that fits. -/
theorem reduceInputCharacters_le (hq : query.length ≤ maximumQueryCharacters) {batch : List ExactEvidenceSpan}
    (hpos : 0 < (evidencePlan base maximumInputCharacters query).available)
    (hb : batchCharacters (evidencePlan base maximumInputCharacters query) batch ≤
      (evidencePlan base maximumInputCharacters query).available)
    {m : Nat} (hm : m ≤ maximumProviderSpans) : reduceInputCharacters query batch m ≤ maximumInputCharacters := by
  have hadd := reduceInputCharacters_add base maximumInputCharacters hq hm batch
  have havailable : (evidencePlan base maximumInputCharacters query).available =
    maximumInputCharacters - reduceFixedCharacters := rfl
  generalize reduceFixedCharacters = fixed at *
  omega

/-- However the provider answers, the reduction of the maps of a ledger always has a state, and enough
answers bring the last one. Every round it enters is one of the first 24; its batches are prompts that
fit the profile, of two spans at least but for the last, and a round of several batches shrinks the
frontier. -/
theorem reduction_ends (base : Plan ExactEvidenceSpan) (maximumInputCharacters : Nat) (query : Str)
    (hq : query.length ≤ maximumQueryCharacters) {l : Ledger ExactEvidenceSpan}
    (hm : Mapped (evidencePlan base maximumInputCharacters query) l) (hstart : l.completedReductions = [])
    (answers : List (ProviderDecision × Str)) :
    ∃ l', answers.foldlM (fun l a => answer (evidencePlan base maximumInputCharacters query)
        (reduceResultFromReceipt (evidencePlan base maximumInputCharacters query) a.1 a.2) l) l = .ok l' ∧
      ∃ state, reductionState (evidencePlan base maximumInputCharacters query) l' = .ok state ∧
        (32 * 6400000 ≤ answers.length → ∃ spans, state = .terminal spans) ∧
        (∀ p, state = .pending p → p.roundIndex < 24) ∧
        ∀ roundIndex frontier results,
          InRound (evidencePlan base maximumInputCharacters query) l' roundIndex frontier results →
          roundIndex < 24 ∧ ∃ batches,
            partitionReduceSpans (evidencePlan base maximumInputCharacters query) frontier = .ok batches ∧
            batches.flatten = frontier ∧ (∀ b ∈ batches.dropLast, 2 ≤ b.length) ∧
            (∀ b ∈ batches, ∀ maximumOutputSpans, maximumOutputSpans ≤ maximumProviderSpans →
              reduceInputCharacters query b maximumOutputSpans ≤ maximumInputCharacters) ∧
            (batches.length ≠ 1 → ∀ rest next,
              reduceBatches (evidencePlan base maximumInputCharacters query) roundIndex (batches.length = 1) 0 batches
                results [] = .ok (.inr (rest, next)) →
              (deduplicatedSpans (evidencePlan base maximumInputCharacters query) next).length < frontier.length) := by
  have hkey : (evidencePlan base maximumInputCharacters query).Keyed := evidencePlan_keyed
  obtain ⟨l', hrun, hmaps, state, hstate, hcount⟩ := answers_lead hkey hm hstart
    (List.forall_mem_map.2 fun (a : ProviderDecision × Str) (_ : a ∈ answers) p =>
      answers_reduceResult (evidencePlan base maximumInputCharacters query) a.1 a.2 p)
  rw [List.foldlM_map] at hrun
  rw [List.length_map] at hcount
  have hm' : Mapped (evidencePlan base maximumInputCharacters query) l' :=
    ⟨hmaps ▸ hm.units, hm.few, hmaps ▸ hm.spans⟩
  -- what a pending state says about the rounds
  have hrounds : ∀ p, state = .pending p → p.roundIndex < 24 ∧ answers.length < 32 * 6400000 := by
    rintro p rfl
    have hlength := hcount.resolve_left fun ⟨_, h⟩ => by cases h
    have hne : deduplicatedSpans (evidencePlan base maximumInputCharacters query)
        (l'.completedMaps.flatMap (·.spans)) ≠ [] := reductionState_ne hm' hstate
    rw [reductionState_eq hm' hne] at hstate
    have hround := reduceRounds_round_le (k := 23) hkey ⟨hm'.fits, hne⟩ (hm'.length_le.trans (by norm_num)) hstate
    have hless := reduceRounds_length_lt hkey hm'.fits hm'.length_le hstate
    exact ⟨by omega, hlength ▸ hless⟩
  refine ⟨l', hrun, state, hstate, fun hmany => ?_, fun p hp => (hrounds p hp).1,
    fun roundIndex frontier results h => ?_⟩
  · cases state with
    | terminal spans => exact ⟨spans, rfl⟩
    | pending p => exact absurd (hrounds p rfl).2 (Nat.not_lt.2 hmany)
  · obtain ⟨hf, k, hk, -⟩ := h.halved hkey hm'
    obtain ⟨batches, hpart, hb⟩ := partition_batches hf.fits
    have hpos : 0 < (evidencePlan base maximumInputCharacters query).available := by
      obtain ⟨s, hs⟩ := List.exists_mem_of_ne_nil _ hf.ne
      exact (Nat.succ_pos _).trans_le (hf.fits s hs)
    refine ⟨by omega, batches, hpart, hb.flatten, hb.two,
      fun b hmem m hle => reduceInputCharacters_le hq hpos (hb.fits b hmem) hle, fun hone rest next hover => ?_⟩
    have hhalf := (hb.shrinks hf.fits hkey hone hover).2
    have hthree := hb.three hf.ne hone
    omega

end

/-! A job with two units, in which three long spans were found, of characters that JSON
escapes: no prompt holds all of them. -/

def longSpan (page : Nat) : ExactEvidenceSpan :=
  ⟨"c".toList, page, 0, 2400, List.replicate 64 'a', List.replicate 2400 '"'⟩

def longUnits : Plan ExactEvidenceSpan :=
  ⟨⟨16, 2, 32768, 32⟩, ["u".toList, "v".toList], fun _ => [], fun _ => 0, 0, fun _ => [], fun _ => ([], 0), fun _ _ => ([], 0),
    fun _ _ => [], fun _ _ _ => [], fun _ => []⟩

def longMapped : Ledger ExactEvidenceSpan :=
  { Ledger.empty with completedMaps := [⟨"u".toList, [1, 2].map longSpan, []⟩, ⟨"v".toList, [3].map longSpan, []⟩] }

theorem longMapped_mapped : Mapped (evidencePlan longUnits 16384 "q".toList) longMapped where
  units := rfl
  few := by decide
  spans := by decide +kernel

/-- The provider keeps the spans of these pages. -/
def keeping (pages : List Nat) : ProviderDecision × Str :=
  (⟨true, pages.map fun page => ⟨"c".toList, page, 0, 2400, List.replicate 2400 '"'⟩⟩, [])

def afterAnswers (answers : List (ProviderDecision × Str)) : Except String (Ledger ExactEvidenceSpan) :=
  answers.foldlM (fun l a => answer (evidencePlan longUnits 16384 "q".toList)
    (reduceResultFromReceipt (evidencePlan longUnits 16384 "q".toList) a.1 a.2) l) longMapped

/-- The round that waits for an answer. -/
def pendingRound : Except String (Reduction ExactEvidenceSpan) → Option Nat
  | .ok (.pending p) => some p.roundIndex
  | _ => none

theorem afterAnswers_round : (afterAnswers [keeping [1], keeping [3]]).toOption.bind (fun l =>
    pendingRound (reductionState (evidencePlan longUnits 16384 "q".toList) l)) = some 1 := by decide +kernel

/-- Two answers end the first round, and the second waits. -/
theorem reduction_ends_rounds : ∃ l' p, afterAnswers [keeping [1], keeping [3]] = .ok l' ∧
    reductionState (evidencePlan longUnits 16384 "q".toList) l' = .ok (.pending p) ∧ p.roundIndex = 1 ∧ p.roundIndex < 24 := by
  obtain ⟨l', hrun, state, hstate, -, hround, -⟩ := reduction_ends longUnits 16384 "q".toList (by decide) longMapped_mapped rfl
    [keeping [1], keeping [3]]
  have hpending := afterAnswers_round
  rw [show afterAnswers [keeping [1], keeping [3]] = .ok l' from hrun, Except.toOption, Option.bind_some, hstate] at hpending
  unfold pendingRound at hpending
  split at hpending
  · rename_i p heq
    cases heq
    exact ⟨l', p, hrun, hstate, Option.some.inj hpending, hround p rfl⟩
  · cases hpending

end CardRag.MapReduce
