import CardRag.Requests.Resume

/-! # Interrupted bookkeeping

A partition puts in place what is `Required` by the requests it starts with, and nothing else; so it resumes as well.
A call recovers from exactly the cuts that leave no file half made. -/

namespace CardRag.Requests

open Program (Ends Idle Runs after)
open Directory (Extends)

variable {H : Sha256} {issuers : List (Str × Str)} {d d' s D : Directory} {f : File} {c : Content} {id : Str}

/-! ### Partition -/

theorem adding_partition : Adding (partition H issuers) := by
  refine Adding.bind (Adding.look _) fun ids => Adding.forM fun id _ => ?_
  refine Adding.bind (Adding.ask _) fun parent => Adding.bind (Adding.look _) fun receipt => ?_
  split
  · exact Adding.pure _
  · cases groups issuers parent.targets with
    | none => exact Adding.pure _
    | some g =>
      show Adding (if g.length < 2 then pure () else _)
      split
      · exact Adding.pure _
      · refine Adding.bind (Adding.forM fun r _ => adding_keep (by simp) (by simp)) fun _ => ?_
        exact adding_keep (by simp) (by simp)

variable (H issuers) in
/-- A child or a delegation of a request that is to be delegated. -/
def Required (d : Directory) (f : File) (c : Content) : Prop :=
  ∃ id ∈ d.requestIds, ∃ parent g, Split issuers d id parent g ∧
    ((∃ r ∈ children H parent g, f = .request r.requestId ∧ c = .request r) ∨
      f = .delegated id ∧ c = mapping H parent g)

variable (H issuers) in
/-- Only what is required is new. -/
structure Fill (d s : Directory) : Prop where
  grown : Extends d s
  new : ∀ f c, s.read f = some c → d.read f = some c ∨ Required H issuers d f c

namespace Fill

theorem write (h : Fill H issuers d s) (habs : s.read f = none) (hreq : Required H issuers d f c) :
    Fill H issuers d (s.write f c) := by
  refine ⟨h.grown.trans (Extends.write habs c), fun f' c' hread => ?_⟩
  rw [Directory.read_write] at hread
  split at hread
  · rename_i heq
    obtain rfl := Option.some.inj hread
    exact .inr (heq ▸ hreq)
  · exact h.new f' c' hread

theorem completed (h : Fill H issuers d s) (hopen : d.read (.completed id) = none) : s.read (.completed id) = none := by
  cases hread : s.read (.completed id) with
  | none => rfl
  | some c =>
    rcases h.new _ _ hread with hold | ⟨_, _, _, _, _, ⟨_, _, hf, _⟩ | ⟨hf, _⟩⟩
    · cases hopen.symm.trans hold
    · cases hf
    · cases hf

theorem readRequest (h : Extends d s) (hid : id ∈ d.requestIds) : readRequest id s = readRequest id d := by
  obtain ⟨c, hc⟩ := Option.isSome_iff_exists.1 (Directory.mem_requestIds.1 hid).2
  exact readRequest_congr ((h _ _ hc).trans hc.symm)

/-- A request that is to be delegated now was so before. -/
theorem split (h : Extends d s) (hid : id ∈ d.requestIds) {parent : Request} {g : List (Str × List Target)}
    (hsplit : Split issuers s id parent g) : Split issuers d id parent g := by
  refine ⟨(readRequest h hid).symm.trans hsplit.read, ?_, hsplit.groups, hsplit.two⟩
  cases hread : d.read (.completed id) with
  | none => rfl
  | some c => cases hsplit.opened.symm.trans (h _ _ hread)

end Fill

variable (H issuers) in
theorem ends_fill (d : Directory) : Ends (Fill H issuers d) (partition H issuers)
    (fun _ D => ∀ id ∈ d.requestIds, Settled H issuers D id ∧ ∃ parent, readRequest id d = .ok parent) d := by
  have hstart : Fill H issuers d d := ⟨Extends.refl d, fun _ _ h => .inl h⟩
  refine Ends.bind (Ends.look hstart ?_)
  have hloop : Ends (Fill H issuers d) (d.requestIds.forM (partitionRequest H issuers))
      (fun _ D => ∀ id ∈ [] ++ d.requestIds, Settled H issuers D id ∧ ∃ parent, readRequest id d = .ok parent) d := by
    refine Ends.forM (fun done D => ∀ id ∈ done, Settled H issuers D id ∧ ∃ parent, readRequest id d = .ok parent)
      [] ?_ hstart (by simp)
    intro done id s hid hs hJ
    have hturn : Ends (Fill H issuers d) (partitionRequest H issuers id)
        (fun _ s' => Extends s s' ∧ Settled H issuers s' id ∧ ∃ parent, readRequest id s = .ok parent) s := by
      refine ends_partitionRequest hs ?_ ?_
      · exact fun parent g e r hsplit he hr habs =>
          he.write habs ⟨id, hid, parent, g, Fill.split hs.grown hid hsplit, .inl ⟨r, hr, rfl, rfl⟩⟩
      · exact fun parent g e hsplit he _ _ habs =>
          he.write habs ⟨id, hid, parent, g, Fill.split hs.grown hid hsplit, .inr ⟨rfl, rfl⟩⟩
    refine hturn.mono fun _ s' _ hQ id' hid' => ?_
    rcases List.mem_append.1 hid' with hid' | hid'
    · exact ⟨(hJ id' hid').1.mono hQ.1, (hJ id' hid').2⟩
    · rw [List.mem_singleton.1 hid']
      obtain ⟨parent, hread⟩ := hQ.2.2
      exact ⟨hQ.2.1, parent, (Fill.readRequest hs.grown hid).symm.trans hread⟩
  simpa using hloop

/-- A turn of the partition on the way to `D`, where its request is as in `D`. -/
theorem runs_partitionRequest {parent : Request} (hs : Extends s D) (hread : readRequest id s = .ok parent)
    (hD : s.read (.completed id) = none → ∀ g, groups issuers parent.targets = some g → 2 ≤ g.length →
      (∀ r ∈ children H parent g, D.read (.request r.requestId) = some (.request r)) ∧
      D.read (.delegated id) = some (mapping H parent g)) :
    Runs (partitionRequest H issuers id)
      (fun _ s' => Extends s s' ∧ Extends s' D ∧ Settled H issuers s' id) s := by
  obtain ⟨hparent, -, -⟩ := readRequest_ok hread
  refine Runs.bind (Runs.ask hread (Runs.bind (Runs.look ?_)))
  split
  · rename_i hsome
    refine Runs.pure ⟨Extends.refl s, hs, parent, hparent, fun hnone => ?_⟩
    rw [hnone] at hsome
    cases hsome
  · rename_i hopen
    cases hg : groups issuers parent.targets with
    | none => exact Runs.pure ⟨Extends.refl s, hs, parent, hparent, fun _ g hg' => by cases hg.symm.trans hg'⟩
    | some g =>
      show Runs (if g.length < 2 then pure () else _) _ s
      split
      · rename_i hlt
        refine Runs.pure ⟨Extends.refl s, hs, parent, hparent, fun _ g' hg' htwo => ?_⟩
        obtain rfl := Option.some.inj (hg.symm.trans hg')
        omega
      · rename_i htwo
        obtain ⟨hchildren, hmap⟩ := hD (by simpa using hopen) g hg (by omega)
        have hloop : Runs ((children H parent g).forM fun r =>
            keep (.request r.requestId) (.request r) "OCR child identity conflict")
            (fun _ s' => Extends s s' ∧ Extends s' D ∧ ∀ r ∈ [] ++ children H parent g,
              s'.read (.request r.requestId) = some (.request r)) s := by
          refine Runs.forM (fun done s' => Extends s s' ∧ Extends s' D ∧ ∀ r ∈ done,
            s'.read (.request r.requestId) = some (.request r)) [] ?_ ⟨Extends.refl s, hs, by simp⟩
          intro done r s' hr hJ
          refine (runs_keep (hchildren r hr) hJ.2.1).mono fun _ s'' hkept => ?_
          refine ⟨hJ.1.trans hkept.1, hkept.2.1, fun r' hr' => ?_⟩
          rcases List.mem_append.1 hr' with hr' | hr'
          · exact hkept.1 _ _ (hJ.2.2 r' hr')
          · rw [List.mem_singleton.1 hr']
            exact hkept.2.2.1
        refine Runs.bind (hloop.mono fun _ s' hdone => ?_)
        refine (runs_keep hmap hdone.2.1).mono fun _ s'' hkept => ?_
        refine ⟨hdone.1.trans hkept.1, hkept.2.1, parent, hkept.1 _ _ (hdone.1 _ _ hparent), fun _ g' hg' _ => ?_⟩
        obtain rfl := Option.some.inj (hg.symm.trans hg')
        exact ⟨fun r hr => hkept.1 _ _ (hdone.2.2 r hr), hkept.2.2.1⟩

theorem resumes_partition (d : Directory) : Resumes (partition H issuers) d := by
  refine Resumes.of_between adding_partition fun a s hret hlow hhigh => ?_
  have hends := ends_fill H issuers d
  have hfill := hends.stops
  have hsettled := hends.returns a hret
  set D := (partition H issuers).final d
  refine Runs.bind (Runs.look ?_)
  have hloop : Runs (s.requestIds.forM (partitionRequest H issuers)) (fun _ s' => Extends s s' ∧ Extends s' D ∧
      ∀ id ∈ [] ++ s.requestIds, Settled H issuers s' id) s := by
    refine Runs.forM (fun done s' => Extends s s' ∧ Extends s' D ∧ ∀ id ∈ done, Settled H issuers s' id)
      [] ?_ ⟨Extends.refl s, hhigh, by simp⟩
    intro done id s' hid hJ
    have hturn : Runs (partitionRequest H issuers id)
        (fun _ s'' => Extends s' s'' ∧ Extends s'' D ∧ Settled H issuers s'' id) s' := by
      by_cases hold : id ∈ d.requestIds
      · -- a request that was there at the start
        obtain ⟨⟨parent', hparent', hdone⟩, parent, hread⟩ := hsettled id hold
        have hread' := (Fill.readRequest (hlow.trans hJ.1) hold).trans hread
        obtain rfl : parent' = parent := by
          have hparent := hfill.grown _ _ (readRequest_ok hread).1
          exact Content.request.inj (Option.some.inj (hparent'.symm.trans hparent))
        refine runs_partitionRequest hJ.2.1 hread' fun hopen => hdone (hfill.completed ?_)
        cases hcompleted : d.read (.completed id) with
        | none => rfl
        | some c => cases hopen.symm.trans ((hlow.trans hJ.1) _ _ hcompleted)
      · -- a child that the partition has made
        obtain ⟨hpre, hsome⟩ := Directory.mem_requestIds.1 hid
        obtain ⟨c, hc⟩ := Option.isSome_iff_exists.1 hsome
        rcases hfill.new _ _ (hhigh _ _ hc) with hd | ⟨id', hid', parent, g, hsplit, ⟨r, hr, hf, rfl⟩ | ⟨hf, -⟩⟩
        · exact absurd (Directory.mem_requestIds.2 ⟨hpre, by rw [hd]; rfl⟩) hold
        · have hgrouped := groups_spec hsplit.groups
          have hvalid := valid_child (readRequest_ok hsplit.read).2.2 hgrouped hr
          have hread : readRequest id s' = .ok r := by
            unfold readRequest
            rw [hJ.1 _ _ hc]
            simp [hvalid, File.request.inj hf]
          refine runs_partitionRequest hJ.2.1 hread fun _ g' hg' htwo => ?_
          have hone := length_groups_child hgrouped hr (groups_spec hg')
          omega
        · cases hf
    refine hturn.mono fun _ s'' hQ => ⟨hJ.1.trans hQ.1, hQ.2.1, fun id' hid' => ?_⟩
    rcases List.mem_append.1 hid' with hid' | hid'
    · exact (hJ.2.2 id' hid').mono hQ.1
    · rw [List.mem_singleton.1 hid']
      exact hQ.2.2
  refine hloop.mono fun _ s' hs' => ⟨rfl, fun f => read_eq hs'.2.1 ?_ f⟩
  intro f c hread
  rcases hfill.new f c hread with hd | ⟨id, hid, parent, g, hsplit, hrequired⟩
  · exact hs'.1 _ _ (hlow _ _ hd)
  · obtain ⟨hparent, -, -⟩ := readRequest_ok hsplit.read
    obtain ⟨hpre, -⟩ := Directory.mem_requestIds.1 hid
    have hmem : id ∈ s.requestIds := Directory.mem_requestIds.2 ⟨hpre, by rw [hlow _ _ hparent]; rfl⟩
    obtain ⟨parent', hparent', hdone⟩ := hs'.2.2 id (by simpa using hmem)
    obtain rfl : parent' = parent :=
      Content.request.inj (Option.some.inj (hparent'.symm.trans (hs'.1 _ _ (hlow _ _ hparent))))
    have hopen : s'.read (.completed id) = none := by
      cases hcompleted : s'.read (.completed id) with
      | none => rfl
      | some c => cases (hfill.completed hsplit.opened).symm.trans (hs'.2.1 _ _ hcompleted)
    obtain ⟨hchildren, hmap⟩ := hdone hopen g hsplit.groups hsplit.two
    rcases hrequired with ⟨r, hr, rfl, rfl⟩ | ⟨rfl, rfl⟩
    · exact hchildren r hr
    · exact hmap

/-! ### The result -/

/-- The four calls of the bookkeeping. -/
inductive Bookkeeping where
  | partition (issuerByDocument : List (Str × Str))
  | select (runId : Str) (eligible : Option (List Str))
  | complete (request : Request) (runId generationId : Str)
  | load (eligible : Option (List Str))

def Bookkeeping.run (H : Sha256) : Bookkeeping → Action (Option Request)
  | .partition issuers => Requests.partition H issuers >>= fun _ => pure none
  | .select runId eligible => selectRun runId eligible
  | .complete request runId generationId => Requests.complete request runId generationId >>= fun _ => pure none
  | .load eligible => loadNext eligible

theorem bind_none (x : Action Unit) (d : Directory) : (x >>= fun _ => (pure none : Action (Option Request))) d =
    ((x d).1, (x d).2.map fun _ => none) := by
  rw [Program.bind_apply]
  generalize x d = r
  obtain ⟨es, r⟩ := r
  cases r with
  | error e => rfl
  | ok u => exact Prod.ext (List.append_nil es) rfl

theorem Resumes.bind_none {x : Action Unit} (h : Resumes x d) :
    Resumes (x >>= fun _ => (pure none : Action (Option Request))) d := by
  intro a k hret
  have hrun := Requests.bind_none x
  have hx : (x d).2 = .ok () ∧ a = none := by
    rw [hrun] at hret
    cases hx : (x d).2 with
    | error e =>
      rw [hx] at hret
      cases hret
    | ok u =>
      rw [hx] at hret
      exact ⟨rfl, (Except.ok.inj hret).symm⟩
  obtain ⟨hx, rfl⟩ := hx
  obtain ⟨b, hb, -, hsame⟩ := h () k hx
  refine ⟨none, ?_, rfl, ?_⟩
  · rw [hrun d, hrun]
    show (x (after d ((x d).1.take k))).2.map _ = _
    rw [hb]
    rfl
  · intro f
    have hfinal (e : Directory) : (x >>= fun _ => (pure none : Action (Option Request))).final e = x.final e := by
      rw [Program.final, hrun]
      rfl
    rw [hfinal, hfinal, hrun d]
    exact hsame f

theorem adding_bookkeeping (call : Bookkeeping) : Adding (call.run H) := by
  cases call with
  | partition issuers => exact Adding.bind adding_partition fun _ => Adding.pure none
  | select runId eligible => exact adding_selectRun runId eligible
  | complete request runId generationId =>
    exact Adding.bind (adding_complete request runId generationId) fun _ => Adding.pure none
  | load eligible => exact adding_loadNext eligible

theorem resumes_bookkeeping (call : Bookkeeping) (d : Directory) : Resumes (call.run H) d := by
  cases call with
  | partition issuers => exact (resumes_partition d).bind_none
  | select runId eligible => exact resumes_selectRun runId eligible d
  | complete request runId generationId => exact (resumes_complete request runId generationId d).bind_none
  | load eligible => exact resumes_loadNext eligible d

/-- A call that is cut can be repeated exactly where it would have failed anyway, or the cut left no file incomplete
and no temporary file. The name of the temporary file is fresh. -/
theorem bookkeeping_recovers_iff (H : Sha256) (call : Bookkeeping) (cut : Cut) (d : Directory)
    (hfresh : ∀ id, d.read (.temporary id cut.token) = none) :
    Recovers (call.run H) cut d ↔ (∃ e, (call.run H d).2 = .error e) ∨ Clean (call.run H) cut d :=
  recovers_iff (adding_bookkeeping call) (resumes_bookkeeping call d) hfresh

theorem bookkeeping_recovers_mixed :
    let call := Bookkeeping.complete mixedRequest "run-1".toList "gen-2".toList
    Recovers (call.run Sha256.standard) ⟨0, .written, "t".toList⟩ [] := by
  intro call
  refine (bookkeeping_recovers_iff _ call ⟨0, .written, "t".toList⟩ [] fun _ => rfl).2 (.inr ?_)
  rintro w hw ⟨id, hid⟩
  obtain rfl : ⟨.completed mixedRequest.requestId, .completion ⟨mixedRequest.requestId, "run-1".toList, "gen-2".toList⟩⟩ = w :=
    Option.some.inj hw
  cases hid

/-- A completion that was opened and not written is a conflict for good. -/
theorem bookkeeping_not_recovered : ¬ ∀ (H : Sha256) (call : Bookkeeping) (cut : Cut) (d : Directory),
    (∀ id, d.read (.temporary id cut.token) = none) → Recovers (call.run H) cut d := by
  intro h
  have hrec := h Sha256.standard (.complete mixedRequest "run-1".toList "gen-2".toList) ⟨0, .opened, "t".toList⟩ []
    fun _ => rfl
  have hret := (hrec none rfl).1
  revert hret
  show ¬ (Except.error "OCR request completion receipt conflicts" = _)
  simp

end CardRag.Requests
