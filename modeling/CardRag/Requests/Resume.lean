import CardRag.Requests.Replay

/-! # Every call resumes

A call from files between those before it and those it leaves ends with the same files and the same result. For a
load the two runs go side by side; a partition ends with what is to be delegated, from wherever it starts. -/

namespace CardRag.Requests

open Program (Ends Idle Runs after)
open Directory (Extends)

variable {H : Sha256} {issuers : List (Str × Str)} {d d' s D : Directory} {f : File} {c : Content} {id : Str} {es : List Write}

/-! ### Reading the same files -/

theorem readRequest_congr (h : s.read (.request id) = d.read (.request id)) : readRequest id s = readRequest id d := by
  unfold readRequest
  rw [h]

theorem readCompletion_congr (h : s.read (.completed id) = d.read (.completed id)) (invalid : String) :
    readCompletion id invalid s = readCompletion id invalid d := by
  unfold readCompletion
  rw [h]

/-- All but the delegated completions are the same. -/
def Alike (s d : Directory) : Prop :=
  ∀ f, (∀ id, f ≠ .delegatedCompleted id) → s.read f = d.read f

theorem readDelegation_congr (h : Alike s d) (parent : Request) : readDelegation parent s = readDelegation parent d := by
  have hchild : readChild parent s = readChild parent d := by
    funext childId
    unfold readChild
    rw [h (.request childId) (by simp), readCompletion_congr (h (.completed childId) (by simp))]
  unfold readDelegation
  rw [h (.delegated parent.requestId) (by simp), hchild]

theorem requestIds_congr (h : Alike s d) : s.requestIds = d.requestIds := by
  have hmem (id : Str) : id ∈ s.requestIds ↔ id ∈ d.requestIds := by
    rw [Directory.mem_requestIds, Directory.mem_requestIds, h (.request id) (by simp)]
  have hnodup (e : Directory) : e.requestIds.Nodup := by
    unfold Directory.requestIds
    exact (PyList.sortedBy_perm _ _).nodup_iff.2 (List.nodup_dedup _)
  refine List.Perm.eq_of_pairwise ?_ (PyList.sortedBy_pairwise _ _) (PyList.sortedBy_pairwise _ _)
    ((List.perm_ext_iff_of_nodup (hnodup s) (hnodup d)).2 hmem)
  intro a b _ _ hab hba
  exact List.append_cancel_right (le_antisymm hab hba)

/-! ### Completion -/

theorem adding_complete (request : Request) (runId generationId : Str) : Adding (complete request runId generationId) := by
  unfold complete
  split
  · exact Adding.raise _
  · split
    · exact Adding.raise _
    · exact adding_keep (by simp) (by simp)

theorem resumes_complete (request : Request) (runId generationId : Str) (d : Directory) :
    Resumes (complete request runId generationId) d := by
  refine Resumes.of_between (adding_complete request runId generationId) fun a s hret hlow hhigh => ?_
  unfold complete at hret hhigh ⊢
  split at hret
  · cases hret
  · rename_i hrun
    rw [if_neg hrun] at hhigh ⊢
    split at hret
    · cases hret
    · rename_i hgen
      rw [if_neg hgen] at hhigh ⊢
      obtain ⟨hfile, hothers⟩ := keep_ok hret
      refine (runs_keep hfile hhigh).mono fun _ s' hs' => ⟨rfl, fun f => read_eq hs'.2.1 ?_ f⟩
      intro f c hread
      by_cases hf : f = .completed request.requestId
      · subst hf
        rw [hs'.2.2.1, ← hfile, hread]
      · rw [hothers f hf] at hread
        exact hs'.1 f c (hlow f c hread)

/-! ### Loading -/

theorem adding_delegatedRequest (parent : Request) : Adding (delegatedRequest parent) := by
  refine Adding.bind (Adding.ask _) fun found => ?_
  match found with
  | none => exact Adding.pure _
  | some (proofs, count) =>
    show Adding (if proofs.length = count then _ else pure true)
    split
    · exact Adding.bind (adding_keep (by simp) (by simp)) fun _ => Adding.pure _
    · exact Adding.pure _

theorem adding_loadFrom (eligible : Option (List Str)) (ids : List Str) : Adding (loadFrom eligible ids) := by
  induction ids with
  | nil => exact Adding.pure _
  | cons id ids ih =>
    refine Adding.bind (Adding.ask _) fun request => Adding.bind (adding_delegatedRequest request) fun b => ?_
    cases b with
    | true => exact ih
    | false =>
      refine Adding.bind (Adding.ask _) fun receipt => ?_
      split
      · exact ih
      · split
        · exact ih
        · exact Adding.pure _

theorem adding_loadNext (eligible : Option (List Str)) : Adding (loadNext eligible) :=
  Adding.bind (Adding.look _) fun ids => adding_loadFrom eligible ids

/-- The load from `s` is where the load from `d` is, and has files of `D` besides. -/
structure Beside (d s D : Directory) : Prop where
  low : Extends d s
  high : Extends s D
  alike : Alike s d

theorem runs_delegatedRequest {parent : Request} {b : Bool} (h : Beside d s D)
    (hret : (delegatedRequest parent d).2 = .ok b) (hD : Extends ((delegatedRequest parent).final d) D) :
    Runs (delegatedRequest parent) (fun b' s' => b' = b ∧ Beside ((delegatedRequest parent).final d) s' D) s := by
  obtain ⟨found, hfound, hret, hfinal, -⟩ := Runs.of_bind hret
  have hread : readDelegation parent d = .ok found := hfound
  rw [show (delegatedRequest parent).final d = _ from hfinal] at hD ⊢
  refine Runs.bind (Runs.ask ((readDelegation_congr h.alike parent).trans hread) ?_)
  match found with
  | none =>
    obtain rfl := Except.ok.inj hret
    exact Runs.pure ⟨rfl, h⟩
  | some (proofs, count) =>
    by_cases hall : proofs.length = count
    · simp only [if_pos hall] at hret hD ⊢
      obtain ⟨u, hkeep, hret, hfinal', -⟩ := Runs.of_bind hret
      rw [hfinal'] at hD ⊢
      obtain rfl := Except.ok.inj hret
      obtain ⟨hfile, hothers⟩ := keep_ok hkeep
      refine Runs.bind ((runs_keep (hD _ _ hfile) h.high).mono fun _ s' hs' => Runs.pure ⟨rfl, ?_, hs'.2.1, ?_⟩)
      · intro f c hread
        by_cases hf : f = .delegatedCompleted parent.requestId
        · subst hf
          rw [hs'.2.2.1]
          exact hfile.symm.trans hread
        · exact hs'.1 f c (h.low f c ((hothers f hf).symm.trans hread))
      · intro f hf
        exact (hs'.2.2.2 f (hf _)).trans ((h.alike f hf).trans (hothers f (hf _)).symm)
    · simp only [if_neg hall] at hret hD ⊢
      obtain rfl := Except.ok.inj hret
      exact Runs.pure ⟨rfl, h⟩

theorem runs_loadFrom {eligible : Option (List Str)} {ids : List Str} {found : Option Request}
    (hret : (loadFrom eligible ids d).2 = .ok found) (h : Beside d s D) (hD : (loadFrom eligible ids).final d = D) :
    Runs (loadFrom eligible ids) (fun found' s' => found' = found ∧ ∀ f, s'.read f = D.read f) s := by
  induction ids generalizing d s with
  | nil =>
    obtain rfl : none = found := Except.ok.inj hret
    obtain rfl : d = D := hD
    exact Runs.pure ⟨rfl, read_eq h.high h.low⟩
  | cons id ids ih =>
    obtain ⟨request, hrequest, hret, hfinal, -⟩ := Runs.of_bind hret
    have hfinal : (loadFrom eligible (id :: ids)).final d = _ := hfinal
    have hread : readRequest id d = .ok request := hrequest
    rw [hfinal] at hD
    refine Runs.bind (Runs.ask ((readRequest_congr (h.alike _ (by simp))).trans hread) ?_)
    obtain ⟨b, hb, hret, hfinal, -⟩ := Runs.of_bind hret
    rw [hfinal] at hD
    have hgrown : Extends ((delegatedRequest request).final d) D := by
      rw [← hD]
      cases b with
      | true => exact (adding_loadFrom eligible ids _).grown
      | false =>
        refine Adds.grown (Adding.bind (Adding.ask _) (fun receipt => ?_) _)
        split
        · exact adding_loadFrom eligible ids
        · split
          · exact adding_loadFrom eligible ids
          · exact Adding.pure _
    refine Runs.bind ((runs_delegatedRequest h hb hgrown).mono fun b' s' hs' => ?_)
    obtain ⟨rfl, hs'⟩ := hs'
    cases b' with
    | true => exact ih hret hs' hD
    | false =>
      obtain ⟨receipt, hreceipt, hret, hfinal, -⟩ := Runs.of_bind hret
      replace hD := hfinal.symm.trans hD
      have hread : readCompletion request.requestId "OCR request completion receipt contract is invalid"
          ((delegatedRequest request).final d) = .ok receipt := hreceipt
      refine Runs.bind (Runs.ask ((readCompletion_congr (hs'.alike _ (by simp)) _).trans hread) ?_)
      split at hret
      · rename_i hsome
        rw [if_pos hsome] at hD ⊢
        exact ih hret hs' hD
      · rename_i hnone
        rw [if_neg hnone] at hD ⊢
        split at hret
        · rename_i hout
          rw [if_pos hout] at hD ⊢
          exact ih hret hs' hD
        · rename_i hin
          rw [if_neg hin] at hD ⊢
          obtain rfl := Except.ok.inj hret
          obtain rfl : (delegatedRequest request).final d = D := hD
          exact Runs.pure ⟨rfl, read_eq hs'.high hs'.low⟩

variable (d) in
/-- What a load leaves alone, and what it returns. -/
theorem ends_load {eligible : Option (List Str)} {ids : List Str} {e : Directory} (h : Alike e d) :
    Ends (fun e => Alike e d) (loadFrom eligible ids) (fun found _ => ∀ r, found = some r →
      r.Valid ∧ (eligible.any fun e => r.targets.any (·.documentId ∉ e)) = false) e := by
  induction ids generalizing e with
  | nil => exact Ends.pure h (by simp)
  | cons id ids ih =>
    refine Ends.bind (Ends.ask h fun request hread => ?_)
    have hdelegated : Ends (fun e => Alike e d) (delegatedRequest request) (fun _ _ => True) e := by
      refine Ends.bind (Ends.ask h fun found _ => ?_)
      match found with
      | none => exact Ends.pure h trivial
      | some (proofs, count) =>
        show Ends _ (if proofs.length = count then _ else pure true) _ e
        split
        · have hnew (c : Content) : Alike (e.write (.delegatedCompleted request.requestId) c) d :=
            fun f hf => (Directory.read_write_ne (hf _).symm c).trans (h f hf)
          refine Ends.bind (Ends.mono (ends_keep (I := fun e => Alike e d) h fun _ => hnew _) ?_)
          exact fun _ s hs _ => Ends.pure hs trivial
        · exact Ends.pure h trivial
    refine Ends.bind (hdelegated.mono fun b s hs _ => ?_)
    cases b with
    | true => exact ih hs
    | false =>
      refine Ends.bind (Ends.ask hs fun receipt _ => ?_)
      split
      · exact ih hs
      · split
        · exact ih hs
        · rename_i hin
          refine Ends.pure hs fun r hr => ?_
          obtain rfl := Option.some.inj hr
          exact ⟨(readRequest_ok hread).2.2, by simpa using hin⟩

theorem resumes_loadNext (eligible : Option (List Str)) (d : Directory) : Resumes (loadNext eligible) d := by
  refine Resumes.of_between (adding_loadNext eligible) fun a s hret hlow hhigh => ?_
  have halike : Alike ((loadNext eligible).final d) d :=
    (Ends.bind (Ends.look (fun _ _ => rfl) (ends_load d (fun _ _ => rfl)))).stops
  have hs : Alike s d := by
    intro f hf
    cases hread : s.read f with
    | some c => exact ((halike f hf).symm.trans (hhigh f c hread)).symm
    | none =>
      cases hd : d.read f with
      | none => rfl
      | some c => cases hread.symm.trans (hlow f c hd)
  obtain ⟨ids, hids, hret, hfinal, -⟩ := Runs.of_bind hret
  obtain rfl := Except.ok.inj hids
  refine Runs.bind (Runs.look ?_)
  rw [requestIds_congr hs]
  exact runs_loadFrom hret ⟨hlow, hhigh, hs⟩ hfinal.symm

/-! ### Selecting -/

theorem create_eq (f : File) (c : Content) (d : Directory) : create f c d =
    match d.read f with
    | some _ => ([], .error "File exists")
    | none => ([⟨f, c⟩], .ok ()) := by
  refine (Program.bind_ask _ _ d).trans ?_
  dsimp only
  cases d.read f <;> rfl

theorem adding_create (hc : c ≠ .broken) (hf : ∀ id token, f ≠ .temporary id token) : Adding (create f c) := by
  intro d
  rw [create_eq]
  cases hread : d.read f with
  | none => exact ⟨hread, hc, hf, trivial⟩
  | some c' => exact trivial

theorem adding_selectRun (runId : Str) (eligible : Option (List Str)) : Adding (selectRun runId eligible) := by
  unfold selectRun
  split
  · exact Adding.raise _
  · refine Adding.bind (Adding.ask _) fun found => ?_
    match found with
    | some request => exact Adding.pure _
    | none =>
      refine Adding.bind (adding_loadNext eligible) fun request => ?_
      exact Adding.bind (adding_create (by simp) (by simp)) fun _ => Adding.pure _

/-- The selection that a load returned is read back. -/
theorem readSelection_some {runId : Str} {eligible : Option (List Str)} {request : Option Request}
    (h : d.read (.selection runId) = some (.selection request))
    (hrequest : ∀ r, request = some r → r.Valid ∧ (eligible.any fun e => r.targets.any (·.documentId ∉ e)) = false) :
    readSelection runId eligible d = .ok (some request) := by
  unfold readSelection
  rw [h]
  cases request with
  | none => rfl
  | some r =>
    obtain ⟨hvalid, hin⟩ := hrequest r rfl
    show (if ¬ r.Valid then _ else if _ then _ else _) = _
    rw [if_neg (not_not.2 hvalid), hin]
    rfl

theorem selectRun_eq {runId : Str} (hid : Gc.validIdentifier runId = true) (eligible : Option (List Str)) (d : Directory) :
    selectRun runId eligible d = match readSelection runId eligible d with
      | .ok (some request) => ([], .ok request)
      | .ok none => (loadNext eligible >>= fun request =>
          create (.selection runId) (.selection request) >>= fun _ => pure request) d
      | .error e => ([], .error e) := by
  unfold selectRun
  rw [if_neg (not_not.2 hid)]
  refine (Program.bind_ask _ _ d).trans ?_
  match readSelection runId eligible d with
  | .ok (some request) => rfl
  | .ok none => rfl
  | .error e => rfl

/-- A run without a selection loads one and puts it in place. -/
theorem selectRun_made {runId : Str} (hid : Gc.validIdentifier runId = true) {eligible : Option (List Str)}
    {request : Option Request} (hread : readSelection runId eligible d = .ok none)
    (hload : loadNext eligible d = (es, .ok request)) (habs : (after d es).read (.selection runId) = none) :
    selectRun runId eligible d = (es ++ [⟨.selection runId, .selection request⟩], .ok request) := by
  have hcreate : create (.selection runId) (.selection request) (after d es) =
      ([⟨.selection runId, .selection request⟩], .ok ()) := by rw [create_eq, habs]
  rw [selectRun_eq hid, hread]
  dsimp only
  rw [Program.bind_apply, hload]
  dsimp only
  rw [Program.bind_apply, hcreate]
  rfl

theorem resumes_selectRun (runId : Str) (eligible : Option (List Str)) (d : Directory) :
    Resumes (selectRun runId eligible) d := by
  intro a k hret
  have hid : Gc.validIdentifier runId = true := by
    by_contra hbad
    unfold selectRun at hret
    rw [if_pos hbad] at hret
    cases hret
  cases hread : readSelection runId eligible d with
  | error e =>
    rw [selectRun_eq hid, hread] at hret
    cases hret
  | ok found =>
    cases found with
    | some request =>
      -- a selection that is there is all there is
      have hrun : selectRun runId eligible d = ([], .ok request) := by rw [selectRun_eq hid, hread]
      rw [hrun] at hret
      obtain rfl := Except.ok.inj hret
      rw [show ((selectRun runId eligible d).1.take k) = [] by rw [hrun]; exact List.take_nil]
      exact ⟨request, by rw [show after d [] = d from rfl, hrun], rfl, fun _ => rfl⟩
    | none =>
      have hresumes : ∀ a k, (loadNext eligible d).2 = .ok a →
          Runs (loadNext eligible) (fun b s => b = a ∧ ∀ f, s.read f = (after d (loadNext eligible d).1).read f)
            (after d ((loadNext eligible d).1.take k)) := resumes_loadNext eligible d
      have hends : Ends (fun e => Alike e d) (loadNext eligible) (fun found _ => ∀ r, found = some r →
          r.Valid ∧ (eligible.any fun e => r.targets.any (·.documentId ∉ e)) = false) d :=
        Ends.bind (Ends.look (fun _ _ => rfl) (ends_load d (fun _ _ => rfl)))
      have hrun := selectRun_eq hid eligible d
      rw [hread] at hrun
      dsimp only at hrun
      rw [Program.bind_apply] at hrun
      have hvalid := hends.returns
      generalize hload : loadNext eligible d = r at hresumes hrun hvalid
      obtain ⟨es, r⟩ := r
      cases r with
      | error e =>
        rw [hrun] at hret
        cases hret
      | ok request =>
        have habs : (after d es).read (.selection runId) = none := by
          cases hsel : (after d es).read (.selection runId) with
          | none => rfl
          | some c =>
            have hcreate : create (.selection runId) (.selection request) (after d es) = ([], .error "File exists") := by
              rw [create_eq, hsel]
            dsimp only at hrun
            rw [Program.bind_apply, hcreate] at hrun
            rw [hrun] at hret
            cases hret
        have hmade := selectRun_made hid hread hload habs
        have hfinal : (selectRun runId eligible).final d = (after d es).write (.selection runId) (.selection request) := by
          rw [Program.final, hmade, Program.after_append]
          rfl
        rw [hfinal, hmade]
        rw [hmade] at hret
        obtain rfl := Except.ok.inj hret
        rcases Nat.lt_or_ge es.length k with hk | hk
        · -- everything is there, and the selection is read back
          rw [List.take_of_length_le (by simpa using hk), Program.after_append]
          set D := (after d es).write (.selection runId) (.selection request)
          have hrun : selectRun runId eligible D = ([], .ok request) := by
            rw [selectRun_eq hid, readSelection_some (Directory.read_write_self _ _) (hvalid request rfl)]
          refine ⟨request, ?_⟩
          rw [Program.final, show after (after d es) [⟨.selection runId, .selection request⟩] = D from rfl, hrun]
          exact ⟨rfl, rfl, fun _ => rfl⟩
        · -- the load first, then the selection
          rw [List.take_append_of_le_length hk]
          obtain ⟨b, hb, rfl, hsame⟩ := hresumes request k rfl
          set s := after d (es.take k)
          have hlow : Extends s (after d es) := by
            have hadds := adding_loadNext eligible d
            rw [hload] at hadds
            exact (hadds.take k).2
          have hopen : s.read (.selection runId) = none := by
            cases hsel : s.read (.selection runId) with
            | none => rfl
            | some c => cases habs.symm.trans (hlow _ _ hsel)
          have hnone : readSelection runId eligible s = .ok none := by
            unfold readSelection
            rw [hopen]
          have hrun : loadNext eligible s = ((loadNext eligible s).1, .ok b) := Prod.ext rfl hb
          have hmade := selectRun_made hid hnone hrun ((hsame _).trans habs)
          refine ⟨b, ?_⟩
          rw [Program.final, hmade, Program.after_append]
          refine ⟨rfl, rfl, fun f => ?_⟩
          show ((Program.final (loadNext eligible) s).write _ _).read f = _
          rw [Directory.read_write, Directory.read_write, hsame f]

end CardRag.Requests
