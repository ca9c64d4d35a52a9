import CardRag.MapReduce.Lane

/-! # Calls are paid once

A reservation is the next call of its ledger, and the next call is none that the ledger has (`next_notMem`). A call
follows its own reservation in one request, so no coordinate is called twice (`Inv`). -/

namespace CardRag.MapReduce

open Program (Ends)

variable {σ : Type} {P : Plan σ} {l l' : Ledger σ} {j : Job σ} {p : PendingProviderCall}

/-! ### The next call -/

namespace Ledger

def done (l : Ledger σ) : List Coordinate :=
  l.completedMaps.map (fun r => .map r.unitId) ++ l.completedReductions.map fun r => .reduce r.roundIndex r.batchIndex

/-- The calls that are done or reserved. -/
def coordinates (l : Ledger σ) : List Coordinate := l.done ++ l.pendingCall.toList.map (·.coordinate)

theorem length_coordinates (h : l.Valid P) : l.coordinates.length = l.providerCallCount := by
  obtain ⟨-, -, -, hreceipts, hcount, -⟩ := h
  have hlen := congrArg List.length hreceipts
  rw [hcount, ← hlen, coordinates, done]
  cases l.pendingCall <;> simp [Nat.add_assoc]

end Ledger

def nextCoordinate (P : Plan σ) (l : Ledger σ) : Option Coordinate :=
  match P.units[l.completedMaps.length]? with
  | some unit => some (.map unit)
  | none =>
    match reductionState P l with
    | .ok (.pending p) => some (.reduce p.roundIndex p.batchIndex)
    | _ => none

theorem nextCall_coordinate (h : nextCall P l = .ok (some p)) : nextCoordinate P l = some p.coordinate := by
  cases hunit : P.units[l.completedMaps.length]? with
  | some unit =>
    simp only [nextCall, hunit, Except.ok.injEq, Option.some.injEq] at h
    subst h
    simp only [nextCoordinate, hunit]
  | none =>
    simp only [nextCall, hunit] at h
    simp only [nextCoordinate, hunit]
    cases hstate : reductionState P l with
    | error e => simp only [hstate] at h; cases h
    | ok r =>
      cases r with
      | terminal spans => simp only [hstate] at h; cases h
      | pending q =>
        simp only [hstate, Except.ok.injEq, Option.some.injEq] at h
        subst h
        rfl

/-- Before the batch of a round all results are of that round and of earlier batches. -/
theorem reduceBatches_pending {roundIndex batchIndex : Nat} {final : Bool} {batches : List (List σ)}
    {results : List (ReduceBatchResult σ)} {next : List σ} {q : PendingReduction σ}
    (h : reduceBatches P roundIndex final batchIndex batches results next = .ok (.inl q)) :
    q.roundIndex = roundIndex ∧ batchIndex ≤ q.batchIndex ∧
      ∀ r ∈ results, r.roundIndex = roundIndex ∧ r.batchIndex < q.batchIndex := by
  induction batches generalizing batchIndex results next with
  | nil => cases h
  | cons batch batches ih =>
    cases results with
    | nil =>
      obtain rfl := Sum.inl.inj (Except.ok.inj h)
      exact ⟨rfl, le_rfl, by simp⟩
    | cons r results =>
      unfold reduceBatches at h
      split at h
      · cases h
      · rename_i hsame
        simp only [not_or, not_not] at hsame
        split at h
        · cases h
        · split at h
          · cases h
          · obtain ⟨hround, hbatch, hrest⟩ := ih h
            refine ⟨hround, by omega, fun r' hr' => ?_⟩
            rcases List.mem_cons.1 hr' with rfl | hr'
            · exact ⟨hsame.1, by omega⟩
            · exact hrest r' hr'

/-- A finished round has results of its own. -/
theorem reduceBatches_done {roundIndex batchIndex : Nat} {final : Bool} {batches : List (List σ)}
    {results rest : List (ReduceBatchResult σ)} {next next' : List σ}
    (h : reduceBatches P roundIndex final batchIndex batches results next = .ok (.inr (rest, next'))) :
    ∀ r ∈ results, r.roundIndex = roundIndex ∨ r ∈ rest := by
  induction batches generalizing batchIndex results next with
  | nil =>
    obtain ⟨rfl, -⟩ := Prod.mk.inj (Sum.inr.inj (Except.ok.inj h))
    exact fun r hr => .inr hr
  | cons batch batches ih =>
    cases results with
    | nil => simp
    | cons r results =>
      unfold reduceBatches at h
      split at h
      · cases h
      · rename_i hsame
        simp only [not_or, not_not] at hsame
        split at h
        · cases h
        · split at h
          · cases h
          · intro r' hr'
            rcases List.mem_cons.1 hr' with rfl | hr'
            · exact .inl hsame.1
            · exact ih h r' hr'

theorem reduceRounds_pending {left roundIndex : Nat} {frontier : List σ} {results : List (ReduceBatchResult σ)}
    {q : PendingReduction σ} (h : reduceRounds P left roundIndex frontier results = .ok (.pending q)) :
    roundIndex ≤ q.roundIndex ∧
      ∀ r ∈ results, r.roundIndex < q.roundIndex ∨ r.roundIndex = q.roundIndex ∧ r.batchIndex < q.batchIndex := by
  induction left generalizing roundIndex frontier results with
  | zero => cases h
  | succ left ih =>
    unfold reduceRounds at h
    split at h
    · cases h
    · split at h
      · cases h
      · rename_i q' hbatches
        obtain rfl := Reduction.pending.inj (Except.ok.inj h)
        obtain ⟨hround, -, hresults⟩ := reduceBatches_pending hbatches
        exact ⟨hround.ge, fun r hr => .inr ⟨(hresults r hr).1.trans hround.symm, (hresults r hr).2⟩⟩
      · rename_i rest next hbatches
        split at h
        · split at h <;> cases h
        · split at h
          · cases h
          · split at h
            · split at h <;> cases h
            · obtain ⟨hround, hrest⟩ := ih h
              refine ⟨by omega, fun r hr => ?_⟩
              rcases reduceBatches_done hbatches r hr with hthis | hlater
              · exact .inl (by omega)
              · exact hrest r hlater

/-- The next call is new. -/
theorem next_notMem (h : l.Valid P) {c : Coordinate} (hc : nextCoordinate P l = some c) : c ∉ l.done := by
  obtain ⟨hnodup, hmaps, -⟩ := h
  unfold nextCoordinate at hc
  unfold Ledger.done
  rw [List.mem_append, not_or]
  split at hc
  · rename_i unit hunit
    obtain rfl := Option.some.inj hc
    refine ⟨fun hmem => ?_, by simp⟩
    obtain ⟨r, hr, hunitId⟩ := List.mem_map.1 hmem
    have hmem : unit ∈ P.units.take l.completedMaps.length := by
      rw [← hmaps, ← Coordinate.map.inj hunitId]
      exact List.mem_map_of_mem hr
    obtain ⟨i, hi, hget⟩ := List.mem_take_iff_getElem.1 hmem
    have hlt : i < P.units.length := by omega
    have hsame : P.units[i]? = P.units[l.completedMaps.length]? := by
      rw [hunit, List.getElem?_eq_getElem hlt, hget]
    have heq := (List.getElem?_inj hlt hnodup).1 hsame
    omega
  · split at hc
    · rename_i q hstate
      obtain rfl := Option.some.inj hc
      refine ⟨by simp, fun hmem => ?_⟩
      obtain ⟨r, hr, hcoordinate⟩ := List.mem_map.1 hmem
      obtain ⟨hround, hbatch⟩ := Coordinate.reduce.inj hcoordinate
      unfold reductionState at hstate
      split at hstate
      · cases hstate
      · dsimp only at hstate
        split at hstate
        · split at hstate <;> cases hstate
        · rcases (reduceRounds_pending hstate).2 r hr with hlt | ⟨-, hlt⟩ <;> omega
    · cases hc

/-! ### The invariant -/

variable (P) in
structure Inv (j : Job σ) : Prop where
  fresh : j.progress = none → j.calls = []
  valid : ∀ l, j.progress = some l → l.Valid P
  next : ∀ l p, j.progress = some l → l.pendingCall = some p → nextCoordinate P l = some p.coordinate
  reserved : ∀ l, j.progress = some l → ∀ c ∈ j.calls, c.1.coordinate ∈ l.coordinates
  once : (j.calls.map (·.1.coordinate)).Nodup
  live : ∀ c ∈ j.calls, c.2 = false

variable (P) in
/-- A request that holds the ledger of the job. -/
structure Holds (l : Ledger σ) (j : Job σ) : Prop where
  inv : Inv P j
  progress : j.progress = some l
  live : j.terminal = false

theorem Inv.empty : Inv P (Job.empty : Job σ) := ⟨fun _ => rfl, by simp [Job.empty], by simp [Job.empty],
  by simp [Job.empty], by simp [Job.empty], by simp [Job.empty]⟩

namespace Holds

theorem valid (h : Holds P l j) : l.Valid P := h.inv.valid l h.progress

/-- A new ledger that has the calls of the old one. -/
theorem write (h : Holds P l j) (hvalid : l'.Valid P) (hsub : ∀ c ∈ l.coordinates, c ∈ l'.coordinates)
    (hnext : ∀ p, l'.pendingCall = some p → nextCoordinate P l' = some p.coordinate) :
    Holds P l' { j with progress := some l' } := by
  refine ⟨⟨by simp, ?_, ?_, ?_, h.inv.once, h.inv.live⟩, rfl, h.live⟩
  · rintro l'' ⟨⟩
    exact hvalid
  · rintro l'' p ⟨⟩ hp
    exact hnext p hp
  · rintro l'' ⟨⟩ c hc
    exact hsub _ (h.inv.reserved l h.progress c hc)

theorem receipt (h : Holds P l j) (receipts : List (Nat × Receipt)) : Holds P l { j with receipts := receipts } :=
  ⟨⟨h.inv.fresh, h.inv.valid, h.inv.next, h.inv.reserved, h.inv.once, h.inv.live⟩, h.progress, h.live⟩

/-- The call of a reservation that was not called. -/
theorem call (h : Holds P l j) (hp : l.pendingCall = some p) (hnew : p.coordinate ∉ j.calls.map (·.1.coordinate)) :
    Holds P l { j with calls := j.calls ++ [(p, j.terminal)] } := by
  refine ⟨⟨?_, h.inv.valid, h.inv.next, ?_, ?_, ?_⟩, h.progress, h.live⟩
  · intro hnone
    cases h.progress.symm.trans hnone
  · intro l' hl' c hc
    obtain rfl : l = l' := Option.some.inj (h.progress.symm.trans hl')
    rcases List.mem_append.1 hc with hc | hc
    · exact h.inv.reserved l h.progress c hc
    · rw [List.mem_singleton.1 hc]
      simp [Ledger.coordinates, hp]
  · rw [List.map_append, List.nodup_append]
    refine ⟨h.inv.once, by simp, ?_⟩
    rintro a ha b hb rfl
    obtain rfl : a = p.coordinate := by simpa using hb
    exact hnew ha
  · intro c hc
    rcases List.mem_append.1 hc with hc | hc
    · exact h.inv.live c hc
    · rw [List.mem_singleton.1 hc]
      exact h.live

end Holds

theorem ends_validated (h : Inv P j) (l : Ledger σ) :
    Ends (Inv P) (validated P l) (fun l' j' => l' = l ∧ l.Valid P ∧ j' = j) j := by
  unfold validated
  split
  · rename_i hvalid
    exact Ends.pure h ⟨rfl, hvalid, rfl⟩
  · exact Ends.raise h

/-- A ledger that is validated and written. -/
theorem ends_write (h : Holds P l j) (hsub : ∀ c ∈ l.coordinates, c ∈ l'.coordinates)
    (hnext : ∀ p, l'.pendingCall = some p → nextCoordinate P l' = some p.coordinate) :
    Ends (Inv P) (validated P l' >>= fun next => writeProgress next >>= fun _ => pure next)
      (fun next j' => next = l' ∧ Holds P l' j' ∧ j'.calls = j.calls) j := by
  refine Ends.bind ((ends_validated h.inv l').mono fun next j' _ hQ => ?_)
  obtain ⟨rfl, hvalid, rfl⟩ := hQ
  have hwritten := h.write hvalid hsub hnext
  exact Ends.bind (Ends.emit h.inv hwritten.inv (Ends.pure hwritten.inv ⟨rfl, hwritten, rfl⟩))

theorem ends_begin (h : Inv P j) (hnone : j.progress = none) (hlive : j.terminal = false) :
    Ends (Inv P) (beginJob P) (fun l j' => Holds P l j') j := by
  unfold beginJob
  split
  · exact Ends.raise h
  · split
    · exact Ends.raise h
    · split
      · exact Ends.raise h
      · refine Ends.bind ((ends_validated h _).mono fun next j' _ hQ => ?_)
        obtain ⟨rfl, hvalid, rfl⟩ := hQ
        have hcalls := h.fresh hnone
        have hwritten : Holds P (Ledger.empty : Ledger σ) { j' with progress := some Ledger.empty } := by
          refine ⟨⟨by simp, ?_, ?_, ?_, h.once, h.live⟩, rfl, hlive⟩
          · rintro l ⟨⟩
            exact hvalid
          · rintro l p ⟨⟩ hp
            cases hp
          · rintro l ⟨⟩ c hc
            rw [hcalls] at hc
            cases hc
        exact Ends.bind (Ends.emit h hwritten.inv (Ends.pure hwritten.inv hwritten))

/-- A reservation is of the next call. -/
theorem ends_reserve (h : Holds P l j) (hnext : nextCoordinate P l = some p.coordinate) :
    Ends (Inv P) (reserveCall P l p) (fun l' j' => Holds P l' j' ∧ l'.pendingCall = some p ∧
      p.coordinate ∉ j'.calls.map (·.1.coordinate)) j := by
  unfold reserveCall
  split
  · exact Ends.raise h.inv
  · rename_i hopen
    have hpending : l.pendingCall = none := by simpa using (not_or.1 hopen).2
    split
    · exact Ends.raise h.inv
    · split
      · exact Ends.raise h.inv
      · split
        · exact Ends.raise h.inv
        · split
          · exact Ends.raise h.inv
          · refine (ends_write h ?_ ?_).mono fun next j' _ hQ => ?_
            · intro c hc
              simp only [Ledger.coordinates, hpending, Option.toList_none, List.map_nil, List.append_nil] at hc
              exact List.mem_append_left _ hc
            · rintro q ⟨⟩
              exact hnext
            · obtain ⟨rfl, hholds, hcalls⟩ := hQ
              refine ⟨hholds, rfl, fun hmem => ?_⟩
              obtain ⟨c, hc, hcoordinate⟩ := List.mem_map.1 hmem
              have hreserved := h.inv.reserved l h.progress c (hcalls ▸ hc)
              simp only [Ledger.coordinates, hpending, Option.toList_none, List.map_nil, List.append_nil] at hreserved
              exact next_notMem h.valid hnext (hcoordinate ▸ hreserved)

/-- A checkpoint has the coordinate of its reservation. -/
theorem Holds.checkpoint (h : Holds P l j) (hp : l.pendingCall = some p) (hvalid : l'.Valid P)
    (hnone : l'.pendingCall = none) (hsub : ∀ c ∈ l.done, c ∈ l'.done) (hmem : p.coordinate ∈ l'.done) :
    Holds P l' { j with progress := some l' } := by
  refine h.write hvalid ?_ ?_
  · intro c hc
    rw [Ledger.coordinates, hp] at hc
    refine List.mem_append_left _ ?_
    rcases List.mem_append.1 hc with hc | hc
    · exact hsub c hc
    · rw [show c = p.coordinate by simpa using hc]
      exact hmem
  · intro q hq
    cases hnone.symm.trans hq

theorem ends_commit (h : Holds P l j) (r : Receipt) :
    Ends (Inv P) (commitReceipt P l r) (fun l' j' => Holds P l' j') j := by
  unfold commitReceipt
  split
  · exact Ends.raise h.inv
  · rename_i p hp
    have hnext := h.inv.next l p h.progress hp
    unfold nextCoordinate at hnext
    split
    · split
      · exact Ends.raise h.inv
      · rename_i unit hunit
        rw [hunit] at hnext
        unfold checkpointMap
        split
        · exact Ends.raise h.inv
        · split
          · exact Ends.raise h.inv
          · refine Ends.bind ((ends_validated h.inv _).mono fun next j' _ hQ => ?_)
            obtain ⟨rfl, hvalid, rfl⟩ := hQ
            have hwritten := h.checkpoint hp hvalid rfl (fun c hc => ?_) ?_
            · exact Ends.bind (Ends.emit h.inv hwritten.inv (Ends.pure hwritten.inv hwritten))
            · simp only [Ledger.done, List.map_append, List.mem_append] at hc ⊢
              exact hc.imp_left .inl
            · rw [← Option.some.inj hnext]
              simp [Ledger.done]
    · rename_i roundIndex batchIndex hcoordinate
      split
      · exact Ends.raise h.inv
      · exact Ends.raise h.inv
      · rename_i q hstate
        rw [hstate, hcoordinate] at hnext
        have hpair : roundIndex = q.roundIndex ∧ batchIndex = q.batchIndex := by
          split at hnext
          · cases hnext
          · obtain ⟨hround, hbatch⟩ := Coordinate.reduce.inj (Option.some.inj hnext)
            exact ⟨hround.symm, hbatch.symm⟩
        unfold checkpointReduce
        rw [hstate]
        dsimp only
        split
        · exact Ends.raise h.inv
        · split
          · exact Ends.raise h.inv
          · refine Ends.bind ((ends_validated h.inv _).mono fun next j' _ hQ => ?_)
            obtain ⟨rfl, hvalid, rfl⟩ := hQ
            have hwritten := h.checkpoint hp hvalid rfl (fun c hc => ?_) ?_
            · refine Ends.bind (Ends.ask h.inv fun _ _ => ?_)
              exact Ends.bind (Ends.emit h.inv hwritten.inv (Ends.pure hwritten.inv hwritten))
            · simp only [Ledger.done, List.map_append, List.mem_append] at hc ⊢
              exact hc.imp_right .inl
            · rw [hcoordinate, hpair.1, hpair.2]
              simp [Ledger.done]

theorem ends_recover (h : Holds P l j) : Ends (Inv P) (recoverPendingReceipt P l) (fun l' j' => Holds P l' j') j := by
  refine Ends.bind (Ends.ask h.inv fun found _ => ?_)
  match found with
  | none => exact Ends.pure h.inv h
  | some r => exact ends_commit h r

/-! ### Requests -/

/-- A terminal marker changes none of the calls. -/
theorem ends_complete (h : Inv P j) (l : Ledger σ) : Ends (Inv P) (completeJob P l) (fun _ _ => True) j := by
  unfold completeJob
  split
  · exact Ends.raise h
  · exact Ends.raise h
  · refine Ends.bind ((ends_validated h _).mono fun next j' _ hQ => ?_)
    obtain ⟨-, -, rfl⟩ := hQ
    exact Ends.emit h ⟨h.fresh, h.valid, h.next, h.reserved, h.once, h.live⟩ trivial

theorem ends_cancel (h : Inv P j) (l : Ledger σ) : Ends (Inv P) (cancelJob P l) (fun _ _ => True) j := by
  refine Ends.bind ((ends_validated h _).mono fun next j' _ hQ => ?_)
  obtain ⟨-, -, rfl⟩ := hQ
  exact Ends.emit h ⟨h.fresh, h.valid, h.next, h.reserved, h.once, h.live⟩ trivial

theorem ends_finalize (h : Inv P j) (l : Ledger σ) : Ends (Inv P) (finalizeOrStatus P l) (fun _ _ => True) j := by
  unfold finalizeOrStatus
  split
  · split
    · exact Ends.raise h
    · exact ends_complete h l
    · exact Ends.pure h trivial
  · exact Ends.pure h trivial

theorem ends_publish (h : Holds P l j) (r : Receipt) :
    Ends (Inv P) (publishReceipt l r) (fun _ j' => Holds P l j') j := by
  unfold publishReceipt
  split
  · exact Ends.raise h.inv
  · refine Ends.bind (Ends.look h.inv ?_)
    cases PyList.get? j.receipts r.call.sequence with
    | none => exact Ends.emit h.inv (h.receipt _).inv (h.receipt _)
    | some r' =>
      show Ends _ (if r' = r then pure () else Program.raise _) _ j
      split
      · exact Ends.pure h.inv h
      · exact Ends.raise h.inv

theorem ends_advance (h : Holds P l j) (answer : PendingProviderCall → Option Receipt) :
    Ends (Inv P) (advance P answer l) (fun _ _ => True) j := by
  refine Ends.bind ((ends_recover h).mono fun recovered j' _ hrecovered => ?_)
  split
  · exact ends_finalize hrecovered.inv recovered
  · split
    · exact Ends.pure hrecovered.inv trivial
    · refine Ends.bind (Ends.ask hrecovered.inv fun found hfound => ?_)
      match found with
      | none => exact ends_complete hrecovered.inv recovered
      | some p =>
        refine Ends.bind ((ends_reserve hrecovered (nextCall_coordinate hfound)).mono fun reserved j'' _ hQ => ?_)
        obtain ⟨hreserved, hpending, hnew⟩ := hQ
        have hcalled := hreserved.call hpending hnew
        refine Ends.bind (Ends.emit hreserved.inv hcalled.inv ?_)
        cases answer p with
        | none => exact Ends.pure hcalled.inv trivial
        | some r =>
          refine Ends.bind ((ends_publish hcalled r).mono fun _ j' _ hpublished => ?_)
          exact Ends.bind ((ends_commit hpublished r).mono fun committed _ _ hcommitted =>
            ends_finalize hcommitted.inv committed)

theorem ends_serve (h : Inv P j) (q : Request) : Ends (Inv P) (serve P q) (fun _ _ => True) j := by
  refine Ends.bind (Ends.look h ?_)
  dsimp only [id]
  split
  · exact Ends.raise h
  · split
    · exact Ends.pure h trivial
    · rename_i hlive
      split
      · exact Ends.raise h
      · have hopen : Ends (Inv P) (openJob P j.progress) (fun l j' => Holds P l j') j := by
          cases hprogress : j.progress with
          | none => exact ends_begin h hprogress (by simpa using hlive)
          | some l => exact Ends.pure h ⟨h, hprogress, by simpa using hlive⟩
        refine Ends.bind (hopen.mono fun l j' _ hholds => ?_)
        split
        · exact Ends.bind ((ends_recover hholds).mono fun recovered _ _ hQ => ends_cancel hQ.inv recovered)
        · exact ends_advance hholds q.answer

theorem Inv.step (h : Inv P j) (q : Request) : Inv P (step P j q) := (ends_serve h q).cuts _

/-- In every run of requests, each stopped or not, no coordinate is called twice, there are no more calls than the
durable counter has, none is made on a job with a marker, and the durable ledger is within the sealed budgets. -/
theorem calls_paid_once (P : Plan σ) (requests : List Request) :
    let j := runFrom (step P) Job.empty requests
    (j.calls.map (·.1.coordinate)).Nodup ∧ j.calls.length ≤ j.providerCallCount ∧ (∀ c ∈ j.calls, c.2 = false) ∧
      ∀ l, j.progress = some l → l.providerCallCount ≤ P.profile.maximumJobProviderCalls ∧
        l.providerInputCharacters ≤ P.profile.maximumJobInputCharacters ∧
        l.accountedOutputTokens ≤ P.profile.maximumJobOutputTokens := by
  intro j
  have hinv : Inv P j :=
    (Along.of_step (I := Inv P) (P := fun _ _ _ => True) (fun _ q h => ⟨Inv.step h q, trivial⟩) Inv.empty requests).2
  refine ⟨hinv.once, ?_, hinv.live, fun l hl => ?_⟩
  · cases hprogress : j.progress with
    | none =>
      rw [hinv.fresh hprogress]
      exact Nat.zero_le _
    | some l =>
      have hsub : j.calls.map (·.1.coordinate) ⊆ l.coordinates := by
        intro c hc
        obtain ⟨call, hcall, rfl⟩ := List.mem_map.1 hc
        exact hinv.reserved l hprogress call hcall
      have hlen := (List.subperm_of_subset hinv.once hsub).length_le
      rw [List.length_map, Ledger.length_coordinates (hinv.valid l hprogress)] at hlen
      rw [Job.providerCallCount, hprogress]
      exact hlen
  · obtain ⟨-, -, -, -, -, hcalls, -, hinput, houtput, -⟩ := hinv.valid l hl
    exact ⟨hcalls, hinput, houtput⟩

end CardRag.MapReduce
