import CardRag.Requests.Delegation

/-! # Delegation is exact

What loading and completing keep, and from it what holds of every run of partitions, loads and completions
on queued requests. -/

namespace CardRag.Requests

open Program (Ends Idle)
open Directory (Extends)

variable {H : Sha256} {issuers : List (Str × Str)} {d d' d₀ : Directory} {f : File} {c : Content} {id : Str}

theorem ends_queue (requests : List { r : Request // r.Valid }) (h : Inv H issuers d) :
    Ends (Inv H issuers) (queue (requests.map (·.1))) (fun _ _ => True) d := by
  refine Ends.forM (fun _ _ => True) [] ?_ h trivial
  intro _ r s hr hs _
  obtain ⟨⟨r, hvalid⟩, -, rfl⟩ := List.mem_map.1 hr
  refine Ends.bind (Ends.look hs ?_)
  cases hread : s.read (.request r.requestId) with
  | some c => exact Ends.raise hs
  | none => exact Ends.emit hs (hs.write hread ⟨r, rfl, rfl, hvalid⟩) trivial

/-! ### Load and complete -/

variable (H issuers) in
/-- What a load or a completion may have done: no request and no delegation is touched. -/
structure Kept (d₀ d : Directory) : Prop where
  grown : Extends d₀ d
  inv : Inv H issuers d
  requests : ∀ id, d.read (.request id) = d₀.read (.request id)
  delegated : ∀ id, d.read (.delegated id) = d₀.read (.delegated id)

namespace Kept

theorem refl (h : Inv H issuers d) : Kept H issuers d d := ⟨Extends.refl d, h, fun _ => rfl, fun _ => rfl⟩

theorem write (h : Kept H issuers d₀ d) (habs : d.read f = none) (hgood : Good H issuers d f c)
    (hreq : ∀ id, f ≠ .request id) (hdel : ∀ id, f ≠ .delegated id) : Kept H issuers d₀ (d.write f c) := by
  refine ⟨h.grown.trans (Extends.write habs c), h.inv.write habs hgood, fun id => ?_, fun id => ?_⟩
  · rw [Directory.read_write_ne (hreq id), h.requests id]
  · rw [Directory.read_write_ne (hdel id), h.delegated id]

end Kept

theorem readCompletion_some {invalid : String} {proof : Completion} (h : readCompletion id invalid d = .ok (some proof)) :
    (d.read (.completed id)).isSome := by
  unfold readCompletion at h
  split at h
  · cases h
  · rename_i hread
    rw [hread]
    rfl
  · cases h

theorem readChild_proof {parent r : Request} {proof : Completion} (h : readChild parent d id = .ok (r, some proof)) :
    (d.read (.completed id)).isSome := by
  unfold readChild at h
  split at h
  · cases h
  · split at h
    · cases h
    · split at h
      · cases h
      · split at h
        · cases h
        · split at h
          · rename_i proof' hproof
            obtain rfl : proof' = some proof := congrArg Prod.snd (Except.ok.inj h)
            exact readCompletion_some hproof
          · cases h
    · cases h

theorem readDelegation_none {parent : Request} (h : readDelegation parent d = .ok none) :
    d.read (.delegated parent.requestId) = none := by
  unfold readDelegation at h
  split at h
  · rename_i hread
    exact hread
  · split at h
    · cases h
    · split at h
      · cases h
      · dsimp only at h
        split at h
        · cases h
        · split at h <;> cases h
  · cases h

/-- With as many proofs as children every child is completed. -/
theorem readDelegation_some {parent : Request} {proofs : List Completion} {count : Nat}
    (h : readDelegation parent d = .ok (some (proofs, count))) (hall : proofs.length = count) :
    ∃ p childIds, d.read (.delegated parent.requestId) = some (.delegation p childIds) ∧
      ∀ r ∈ childIds, (d.read (.completed r)).isSome := by
  unfold readDelegation at h
  split at h
  · cases h
  · rename_i p childIds hread
    refine ⟨p, childIds, hread, ?_⟩
    split at h
    · cases h
    · split at h
      · cases h
      · rename_i found hfound
        dsimp only at h
        split at h
        · cases h
        · split at h
          · cases h
          · obtain ⟨rfl, rfl⟩ := Prod.mk.inj (Option.some.inj (Except.ok.inj h))
            have hlen : found.length = childIds.length := (Guard.mapM_eq_ok.1 hfound).length_eq.symm
            have hsome : ∀ e ∈ found, e.2.isSome := by
              rw [← hlen] at hall
              exact List.filterMap_length_eq_length.1 hall
            intro r hr
            obtain ⟨⟨q, proof⟩, hmem, hok⟩ := Guard.mapM_ok_of_mem hfound hr
            obtain ⟨proof, rfl⟩ := Option.isSome_iff_exists.1 (hsome _ hmem)
            exact readChild_proof hok
  · cases h

theorem ends_delegatedRequest (h : Kept H issuers d₀ d) (parent : Request) : Ends (Kept H issuers d₀) (delegatedRequest parent)
    (fun b _ => b = false → d.read (.delegated parent.requestId) = none) d := by
  refine Ends.bind (Ends.ask h fun found hread => ?_)
  match found with
  | none => exact Ends.pure h fun _ => readDelegation_none hread
  | some (proofs, count) =>
    show Ends _ (if proofs.length = count then _ else pure true) _ d
    split
    · rename_i hall
      obtain ⟨p, childIds, hmap, hproofs⟩ := readDelegation_some hread hall
      have hgood : Good H issuers d (.delegatedCompleted parent.requestId) (.delegatedCompletion parent.requestId proofs) :=
        ⟨p, childIds, hmap, hproofs⟩
      refine Ends.bind (Ends.mono (ends_keep h fun habs => h.write habs hgood (by simp) (by simp)) ?_)
      exact fun _ s hs _ => Ends.pure hs (by simp)
    · exact Ends.pure h (by simp)

/-- What is returned is queued, and is not delegated. -/
def Returned (d₀ : Directory) : Option Request → Prop
  | none => True
  | some r => "ocr-".toList.isPrefixOf r.requestId = true ∧ d₀.read (.request r.requestId) = some (.request r) ∧
      d₀.read (.delegated r.requestId) = none

theorem ends_loadFrom {eligible : Option (List Str)} {ids : List Str}
    (hids : ∀ id ∈ ids, "ocr-".toList.isPrefixOf id = true) (h : Kept H issuers d₀ d) :
    Ends (Kept H issuers d₀) (loadFrom eligible ids) (fun found _ => Returned d₀ found) d := by
  induction ids generalizing d with
  | nil => exact Ends.pure h trivial
  | cons id ids ih =>
    have hrest := fun id' hid' => hids id' (List.mem_cons_of_mem id hid')
    refine Ends.bind (Ends.ask h fun request hread => ?_)
    obtain ⟨hrequest, hid, -⟩ := readRequest_ok hread
    refine Ends.bind ((ends_delegatedRequest h request).mono fun b s hs hb => ?_)
    cases b with
    | true => exact ih hrest hs
    | false =>
      refine Ends.bind (Ends.ask hs fun receipt _ => ?_)
      split
      · exact ih hrest hs
      · split
        · exact ih hrest hs
        · refine Ends.pure hs ⟨hid ▸ hids id (by simp), ?_, ?_⟩
          · rw [← h.requests, hid]
            exact hrequest
          · rw [← h.delegated]
            exact hb rfl

theorem ends_loadNext (h : Inv H issuers d) (eligible : Option (List Str)) :
    Ends (Kept H issuers d) (loadNext eligible) (fun found _ => Returned d found) d :=
  Ends.bind (Ends.look (Kept.refl h) (ends_loadFrom (fun _ hid => (Directory.mem_requestIds.1 hid).1) (Kept.refl h)))

theorem ends_complete (h : Inv H issuers d) (request : Request) (runId generationId : Str) :
    Ends (Kept H issuers d) (complete request runId generationId) (fun _ _ => True) d := by
  have hstart := Kept.refl h
  unfold complete
  split
  · exact Ends.raise hstart
  · split
    · exact Ends.raise hstart
    · have hgood (c : Content) : Good H issuers d (.completed request.requestId) c := trivial
      exact (ends_keep hstart fun habs => hstart.write habs (hgood _) (by simp) (by simp)).mono fun _ _ _ _ => trivial

/-! ### Runs -/

theorem Inv.step (h : Inv H issuers d) (call : Call) : Inv H issuers (step H issuers d call) := by
  cases call with
  | partition => exact (ends_partition h).stops.inv
  | load eligible => exact (ends_loadNext h eligible).stops.inv
  | complete request runId generationId => exact (ends_complete h request runId generationId).stops.inv

theorem Inv.run (h : Inv H issuers d) (calls : List Call) : Inv H issuers (runFrom (Requests.step H issuers) d calls) := by
  induction calls generalizing d with
  | nil => exact h
  | cons call calls ih => exact ih (h.step call)

variable (H issuers) in
/-- Since a partition returned with `d₀`. -/
structure After (d₀ d : Directory) : Prop where
  grown : Extends d₀ d
  inv : Inv H issuers d
  requests : ∀ id, d.read (.request id) = d₀.read (.request id)
  settled : AllSettled H issuers d

theorem Kept.after (h : After H issuers d₀ d) (hkept : Kept H issuers d d') : After H issuers d₀ d' := by
  refine ⟨h.grown.trans hkept.grown, hkept.inv, fun id => (hkept.requests id).trans (h.requests id), ?_⟩
  intro id r hpre hread
  rw [hkept.requests] at hread
  exact (h.settled id r hpre hread).mono hkept.grown

theorem After.step (h : After H issuers d₀ d) (call : Call) : After H issuers d₀ (step H issuers d call) := by
  cases call with
  | partition =>
    have hidle := idle_partition h.inv h.settled
    have hsame : Requests.step H issuers d .partition = d := by
      rw [Requests.step, Program.final, hidle]
      rfl
    rw [hsame]
    exact h
  | load eligible => exact (ends_loadNext h.inv eligible).stops.after h
  | complete request runId generationId => exact (ends_complete h.inv request runId generationId).stops.after h

theorem After.run (h : After H issuers d₀ d) (calls : List Call) :
    After H issuers d₀ (runFrom (Requests.step H issuers) d calls) := by
  induction calls generalizing d with
  | nil => exact h
  | cons call calls ih => exact ih (h.step call)

/-! ### The result -/

/-- The targets are of known issuers, and of two or more. -/
def Mixed (issuers : List (Str × Str)) (r : Request) : Prop :=
  (∀ t ∈ r.targets, (issuerOf issuers t).isSome) ∧
    ∃ t ∈ r.targets, ∃ t' ∈ r.targets, issuerOf issuers t ≠ issuerOf issuers t'

/-- The children of a delegation: disjoint, of one issuer each, with the targets of the parent. -/
structure ExactChildren (issuers : List (Str × Str)) (d : Directory) (parent : Request) (rs : List Request) : Prop where
  queued : ∀ r ∈ rs, d.read (.request r.requestId) = some (.request r)
  disjoint : rs.Pairwise fun r r' => ∀ t ∈ r.targets, ∀ t' ∈ r'.targets, t.documentId ≠ t'.documentId
  oneIssuer : ∀ r ∈ rs, ∃ i, ∀ t ∈ r.targets, issuerOf issuers t = some i
  cover : ∀ t, t ∈ parent.targets ↔ ∃ r ∈ rs, t ∈ r.targets

/-- Every delegation is exact, and a delegated completion has the completions of all children. -/
structure ExactDelegation (issuers : List (Str × Str)) (d : Directory) : Prop where
  delegated : ∀ id, (d.read (.delegated id)).isSome → ∃ parent rs, d.read (.request id) = some (.request parent) ∧
    d.read (.delegated id) = some (.delegation id (rs.map (·.requestId))) ∧ ExactChildren issuers d parent rs
  completed : ∀ id, (d.read (.delegatedCompleted id)).isSome → ∃ p childIds,
    d.read (.delegated id) = some (.delegation p childIds) ∧ ∀ r ∈ childIds, (d.read (.completed r)).isSome

theorem Inv.exact (h : Inv H issuers d) : ExactDelegation issuers d := by
  constructor
  · intro id hsome
    obtain ⟨c, hc⟩ := Option.isSome_iff_exists.1 hsome
    obtain ⟨parent, g, hparent, hg, rfl, hchildren⟩ := h _ _ hc
    exact ⟨parent, children H parent g, hparent, hc, hchildren, disjoint_children hg, fun r hr => issuer_child hg hr,
      cover_children hg⟩
  · intro id hsome
    obtain ⟨c, hc⟩ := Option.isSome_iff_exists.1 hsome
    exact h _ _ hc

theorem Settled.delegated (h : Settled H issuers d id) {r : Request} (hread : d.read (.request id) = some (.request r))
    (hopen : d.read (.completed id) = none) (hmixed : Mixed issuers r) : (d.read (.delegated id)).isSome := by
  obtain ⟨parent, hparent, hsettled⟩ := h
  obtain rfl := Content.request.inj (Option.some.inj (hread.symm.trans hparent))
  obtain ⟨g, hg⟩ := exists_groups hmixed.1
  obtain ⟨t, ht, t', ht', hne⟩ := hmixed.2
  rw [(hsettled hopen g hg ((groups_spec hg).two_le_length ht ht' hne)).2]
  rfl

/-- In every run on queued requests the delegations are exact. Once a partition has returned, no load returns a request
that was mixed and open then, or that is delegated, and another partition changes nothing. -/
theorem delegation_exact (H : Sha256) (issuers : List (Str × Str)) (requests : List { r : Request // r.Valid })
    (calls : List Call) :
    let d := runFrom (step H issuers) ((queue (requests.map (·.1))).final []) calls
    let d₀ := (partition H issuers).final d
    ExactDelegation issuers d ∧ ((partition H issuers d).2 = .ok () → ∀ later : List Call,
      let d' := runFrom (step H issuers) d₀ later
      Idle (partition H issuers) () d' ∧
      ∀ eligible r, (loadNext eligible d').2 = .ok (some r) →
        ¬ (Mixed issuers r ∧ d₀.read (.request r.requestId) = some (.request r) ∧
            d₀.read (.completed r.requestId) = none) ∧
        d'.read (.delegated r.requestId) = none) := by
  intro d d₀
  have hempty : Inv H issuers [] := fun f c hc => by cases hc
  have hinv : Inv H issuers d := (ends_queue requests hempty).stops.run calls
  refine ⟨hinv.exact, fun hret later => ?_⟩
  have hends := ends_partition hinv
  have hstart : After H issuers d₀ d₀ := ⟨Extends.refl d₀, hends.stops.inv, fun _ => rfl, hends.returns () hret⟩
  have hafter := hstart.run later
  refine ⟨idle_partition hafter.inv hafter.settled, fun eligible r hload => ?_⟩
  obtain ⟨hpre, hread, hopen⟩ := (ends_loadNext hafter.inv eligible).returns _ hload
  refine ⟨fun ⟨hmixed, hthen, huncompleted⟩ => ?_, hopen⟩
  have hdelegated := (hstart.settled _ r hpre hthen).delegated hthen huncompleted hmixed
  have hnow := hafter.grown.isSome hdelegated
  rw [hopen] at hnow
  cases hnow

def mixedRequest : Request where
  requestId := "ocr-1".toList
  sourceGenerationId := "gen-1".toList
  createdAt := 0
  targets := [⟨"a".toList, List.replicate 64 '0', 1, 1⟩, ⟨"b".toList, List.replicate 64 '1', 1, 1⟩]

def twoIssuers : List (Str × Str) := [("a".toList, "kb".toList), ("b".toList, "bc".toList)]

def mixedQueue : List { r : Request // r.Valid } := [⟨mixedRequest, by decide⟩]

theorem delegation_exact_mixed :
    let d := runFrom (step Sha256.standard twoIssuers) ((queue (mixedQueue.map (·.1))).final []) []
    let d₀ := (partition Sha256.standard twoIssuers).final d
    let d' := runFrom (step Sha256.standard twoIssuers) d₀ [.load none]
    (d₀.read (.delegated mixedRequest.requestId)).isSome ∧ Idle (partition Sha256.standard twoIssuers) () d' := by
  have hexact := delegation_exact Sha256.standard twoIssuers mixedQueue []
  have hret : (partition Sha256.standard twoIssuers (runFrom (step Sha256.standard twoIssuers)
    ((queue (mixedQueue.map (·.1))).final []) [])).2 = .ok () := by decide +kernel
  have hidle := (hexact.2 hret [.load none]).1
  exact ⟨by decide +kernel, hidle⟩

end CardRag.Requests
