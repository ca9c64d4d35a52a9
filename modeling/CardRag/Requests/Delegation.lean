import CardRag.Lib.Runs
import CardRag.Requests.Groups

/-! # Delegation of mixed requests

Files are only added. A delegation is there once all its children are, and they are the groups of its parent;
a delegated completion is there once all completions of the children are. After a partition has returned every
mixed request is delegated or completed (`Settled`), and no later call adds a request. -/

namespace CardRag.Requests

open Program (Ends Idle)

variable {H : Sha256} {issuers : List (Str × Str)} {d d' d₀ : Directory} {f : File} {c : Content} {id : Str}

/-! ### Files -/

namespace Directory

theorem read_write (f f' : File) (c : Content) : (d.write f c).read f' = if f = f' then some c else d.read f' :=
  PyList.get?_insert ..

theorem read_write_self (f : File) (c : Content) : (d.write f c).read f = some c := by rw [read_write, if_pos rfl]

theorem read_write_ne {f' : File} (h : f ≠ f') (c : Content) : (d.write f c).read f' = d.read f' := by
  rw [read_write, if_neg h]

theorem isSome_read : (d.read f).isSome ↔ ∃ e ∈ d, e.1 = f := by
  rw [read, PyList.get?, Option.isSome_map, List.find?_isSome]
  simp

theorem mem_requestIds : id ∈ d.requestIds ↔ "ocr-".toList.isPrefixOf id = true ∧ (d.read (.request id)).isSome := by
  rw [requestIds, PyList.mem_sortedBy, List.mem_dedup, List.mem_filterMap, isSome_read]
  constructor
  · rintro ⟨⟨f, c⟩, he, hname⟩
    cases f with
    | request id' =>
      obtain ⟨hpre, heq⟩ := Option.ite_none_right_eq_some.1 hname
      obtain rfl := Option.some.inj heq
      exact ⟨hpre, _, he, rfl⟩
    | _ => cases hname
  · rintro ⟨hpre, e, he, hf⟩
    exact ⟨e, he, by rw [hf]; exact if_pos hpre⟩

/-- The files of `d` are in `d'`, as they were. -/
def Extends (d d' : Directory) : Prop := ∀ f c, d.read f = some c → d'.read f = some c

namespace Extends

theorem refl (d : Directory) : Extends d d := fun _ _ h => h

theorem trans {d'' : Directory} (h : Extends d d') (h' : Extends d' d'') : Extends d d'' :=
  fun f c hc => h' f c (h f c hc)

theorem write (habs : d.read f = none) (c : Content) : Extends d (d.write f c) := by
  intro f' c' h
  rw [read_write_ne]
  · exact h
  · rintro rfl
    cases habs.symm.trans h

theorem isSome (h : Extends d d') (hf : (d.read f).isSome) : (d'.read f).isSome := by
  obtain ⟨c, hc⟩ := Option.isSome_iff_exists.1 hf
  rw [h f c hc]
  rfl

end Extends

end Directory

open Directory (Extends)

/-! ### The invariant -/

variable (H issuers) in
/-- What a file may hold, given the other files. -/
def Good (d : Directory) : File → Content → Prop
  | .request id, c => ∃ r, c = .request r ∧ r.requestId = id ∧ r.Valid
  | .completed _, _ => True
  | .delegated id, c => ∃ parent g, d.read (.request id) = some (.request parent) ∧ Grouped issuers parent.targets g ∧
      c = .delegation id ((children H parent g).map (·.requestId)) ∧
      ∀ r ∈ children H parent g, d.read (.request r.requestId) = some (.request r)
  | .delegatedCompleted id, _ => ∃ p childIds, d.read (.delegated id) = some (.delegation p childIds) ∧
      ∀ r ∈ childIds, (d.read (.completed r)).isSome
  | .selection _, _ => True
  | .temporary _ _, _ => True

variable (H issuers) in
def Inv (d : Directory) : Prop := ∀ f c, d.read f = some c → Good H issuers d f c

theorem Good.mono (h : Good H issuers d f c) (hext : Extends d d') : Good H issuers d' f c := by
  cases f with
  | request id => exact h
  | completed id => exact trivial
  | delegated id =>
    obtain ⟨parent, g, hparent, hg, hc, hchildren⟩ := h
    exact ⟨parent, g, hext _ _ hparent, hg, hc, fun r hr => hext _ _ (hchildren r hr)⟩
  | delegatedCompleted id =>
    obtain ⟨p, childIds, hmap, hproofs⟩ := h
    exact ⟨p, childIds, hext _ _ hmap, fun r hr => hext.isSome (hproofs r hr)⟩
  | selection runId => exact trivial
  | temporary id token => exact trivial

namespace Inv

theorem write (h : Inv H issuers d) (habs : d.read f = none) (hgood : Good H issuers d f c) :
    Inv H issuers (d.write f c) := by
  have hext := Extends.write habs c
  intro f' c' hc'
  rw [Directory.read_write] at hc'
  split at hc'
  · rename_i heq
    obtain rfl := Option.some.inj hc'
    exact heq ▸ hgood.mono hext
  · exact (h f' c' hc').mono hext

theorem request (h : Inv H issuers d) {c : Content} (hc : d.read (.request id) = some c) :
    ∃ r, c = .request r ∧ r.requestId = id ∧ r.Valid := h _ _ hc

end Inv

/-! ### Keeping a file -/

theorem ends_keep {I : Directory → Prop} {conflict : String} (hI : I d) (hnew : d.read f = none → I (d.write f c)) :
    Ends I (keep f c conflict) (fun _ d' => d'.read f = some c ∧ Extends d d') d := by
  refine Ends.bind (Ends.look hI ?_)
  cases hread : d.read f with
  | none => exact Ends.emit hI (hnew hread) ⟨Directory.read_write_self f c, Extends.write hread c⟩
  | some c' =>
    show Ends I (if c' = c then pure () else Program.raise conflict) _ d
    split
    · rename_i heq
      exact Ends.pure hI ⟨heq ▸ hread, Extends.refl d⟩
    · exact Ends.raise hI

theorem idle_keep {conflict : String} (hread : d.read f = some c) : Idle (keep f c conflict) () d := by
  refine (Idle.look _ d).bind ?_
  rw [hread]
  show Idle (if c = c then pure () else Program.raise conflict) () d
  rw [if_pos rfl]
  exact Idle.pure () d

theorem readRequest_ok {parent : Request} (h : readRequest id d = .ok parent) :
    d.read (.request id) = some (.request parent) ∧ parent.requestId = id ∧ parent.Valid := by
  unfold readRequest at h
  split at h
  · rename_i r hread
    split at h
    · cases h
    · rename_i hvalid
      split at h
      · cases h
      · rename_i hid
        obtain rfl := Except.ok.inj h
        exact ⟨hread, not_not.1 hid, not_not.1 hvalid⟩
  · cases h

theorem Inv.readRequest (h : Inv H issuers d) (hsome : (d.read (.request id)).isSome) :
    ∃ parent, readRequest id d = .ok parent := by
  obtain ⟨c, hc⟩ := Option.isSome_iff_exists.1 hsome
  obtain ⟨r, rfl, hid, hvalid⟩ := h.request hc
  refine ⟨r, ?_⟩
  unfold Requests.readRequest
  rw [hc]
  simp [hid, hvalid]

/-! ### Partition -/

variable (H issuers) in
/-- The request is completed, is no mixed one, or is delegated to children that are there. -/
def Settled (d : Directory) (id : Str) : Prop :=
  ∃ parent, d.read (.request id) = some (.request parent) ∧ (d.read (.completed id) = none →
    ∀ g, groups issuers parent.targets = some g → 2 ≤ g.length →
      (∀ r ∈ children H parent g, d.read (.request r.requestId) = some (.request r)) ∧
      d.read (.delegated id) = some (.delegation parent.requestId ((children H parent g).map (·.requestId))))

theorem Settled.mono (h : Settled H issuers d id) (hext : Extends d d') : Settled H issuers d' id := by
  obtain ⟨parent, hparent, hsettled⟩ := h
  refine ⟨parent, hext _ _ hparent, fun hnone g hg htwo => ?_⟩
  have hopen : d.read (.completed id) = none := by
    cases hread : d.read (.completed id) with
    | none => rfl
    | some c => cases hnone.symm.trans (hext _ _ hread)
  obtain ⟨hchildren, hmap⟩ := hsettled hopen g hg htwo
  exact ⟨fun r hr => hext _ _ (hchildren r hr), hext _ _ hmap⟩

variable (H issuers) in
/-- What a partition may have done. -/
structure Passed (d₀ d : Directory) : Prop where
  grown : Extends d₀ d
  inv : Inv H issuers d
  requests : ∀ id r, d.read (.request id) = some (.request r) → d₀.read (.request id) = some (.request r) ∨
    ∃ parent g, Grouped issuers parent.targets g ∧ r ∈ children H parent g

namespace Passed

theorem child (h : Passed H issuers d₀ d) {parent r : Request} {g : List (Str × List Target)} (hvalid : parent.Valid)
    (hg : Grouped issuers parent.targets g) (hr : r ∈ children H parent g) (habs : d.read (.request r.requestId) = none) :
    Passed H issuers d₀ (d.write (.request r.requestId) (.request r)) := by
  refine ⟨h.grown.trans (Extends.write habs _), h.inv.write habs ⟨r, rfl, rfl, valid_child hvalid hg hr⟩, ?_⟩
  intro id' r' hread
  rw [Directory.read_write] at hread
  split at hread
  · obtain rfl := Content.request.inj (Option.some.inj hread)
    exact .inr ⟨parent, g, hg, hr⟩
  · exact h.requests id' r' hread

theorem mapping (h : Passed H issuers d₀ d) {parent : Request} {g : List (Str × List Target)} (hid : parent.requestId = id)
    (hparent : d.read (.request id) = some (.request parent)) (hg : Grouped issuers parent.targets g)
    (hchildren : ∀ r ∈ children H parent g, d.read (.request r.requestId) = some (.request r))
    (habs : d.read (.delegated id) = none) :
    Passed H issuers d₀ (d.write (.delegated id)
      (.delegation parent.requestId ((children H parent g).map (·.requestId)))) := by
  refine ⟨h.grown.trans (Extends.write habs _), ?_, ?_⟩
  · exact h.inv.write habs ⟨parent, g, hparent, hg, by rw [hid], hchildren⟩
  · intro id' r' hread
    rw [Directory.read_write_ne (by simp)] at hread
    exact h.requests id' r' hread

end Passed

variable (issuers) in
/-- The request is to be delegated to these groups. -/
structure Split (d : Directory) (id : Str) (parent : Request) (g : List (Str × List Target)) : Prop where
  read : readRequest id d = .ok parent
  opened : d.read (.completed id) = none
  groups : groups issuers parent.targets = some g
  two : 2 ≤ g.length

variable (H) in
/-- The delegation of a request. -/
def mapping (parent : Request) (g : List (Str × List Target)) : Content :=
  .delegation parent.requestId ((children H parent g).map (·.requestId))

/-- A turn of the partition, for what its writes keep. -/
theorem ends_partitionRequest {I : Directory → Prop} (h : I d)
    (hchild : ∀ parent g s r, Split issuers d id parent g → I s → r ∈ children H parent g →
      s.read (.request r.requestId) = none → I (s.write (.request r.requestId) (.request r)))
    (hmap : ∀ parent g s, Split issuers d id parent g → I s → Extends d s →
      (∀ r ∈ children H parent g, s.read (.request r.requestId) = some (.request r)) →
      s.read (.delegated id) = none → I (s.write (.delegated id) (mapping H parent g))) :
    Ends I (partitionRequest H issuers id)
      (fun _ s => Extends d s ∧ Settled H issuers s id ∧ ∃ parent, readRequest id d = .ok parent) d := by
  refine Ends.bind (Ends.ask h fun parent hread => ?_)
  obtain ⟨hparent, hid, hvalid⟩ := readRequest_ok hread
  refine Ends.bind (Ends.look h ?_)
  split
  · rename_i hsome
    refine Ends.pure h ⟨Extends.refl d, ⟨parent, hparent, fun hnone => ?_⟩, parent, hread⟩
    rw [hnone] at hsome
    cases hsome
  · rename_i hopen
    cases hg : groups issuers parent.targets with
    | none =>
      exact Ends.pure h ⟨Extends.refl d, ⟨parent, hparent, fun _ g hg' => by cases hg.symm.trans hg'⟩, parent, hread⟩
    | some g =>
      show Ends _ (if g.length < 2 then pure () else _) _ d
      split
      · rename_i hlt
        refine Ends.pure h ⟨Extends.refl d, ⟨parent, hparent, fun _ g' hg' htwo => ?_⟩, parent, hread⟩
        obtain rfl := Option.some.inj (hg.symm.trans hg')
        omega
      · rename_i htwo
        have hsplit : Split issuers d id parent g := ⟨hread, by simpa using hopen, hg, by omega⟩
        -- the children first, in any state that the loop has reached
        have hloop : Ends I ((children H parent g).forM fun r =>
            keep (.request r.requestId) (.request r) "OCR child identity conflict")
            (fun _ s => Extends d s ∧ ∀ r ∈ children H parent g, s.read (.request r.requestId) = some (.request r)) d := by
          refine Ends.forM (fun done s => Extends d s ∧ ∀ r ∈ done, s.read (.request r.requestId) = some (.request r))
            [] ?_ h ⟨Extends.refl d, by simp⟩
          intro done r s hr hs hJ
          refine (ends_keep hs (hchild parent g s r hsplit hs hr)).mono fun _ s' _ hkept => ?_
          refine ⟨hJ.1.trans hkept.2, fun r' hr' => ?_⟩
          rcases List.mem_append.1 hr' with hr' | hr'
          · exact hkept.2 _ _ (hJ.2 r' hr')
          · rw [List.mem_singleton.1 hr']
            exact hkept.1
        refine Ends.bind (hloop.mono fun _ s hs hdone => ?_)
        refine (ends_keep hs (hmap parent g s hsplit hs hdone.1 hdone.2)).mono fun _ s' _ hkept => ?_
        refine ⟨hdone.1.trans hkept.2, ⟨parent, hkept.2 _ _ (hdone.1 _ _ hparent), fun _ g' hg' _ => ?_⟩, parent, hread⟩
        obtain rfl := Option.some.inj (hg.symm.trans hg')
        exact ⟨fun r hr => hkept.2 _ _ (hdone.2 r hr), hkept.1⟩

theorem Passed.partitionRequest (h : Passed H issuers d₀ d) : Ends (Passed H issuers d₀) (partitionRequest H issuers id)
    (fun _ d' => Extends d d' ∧ Settled H issuers d' id) d := by
  have hturn : Ends (Passed H issuers d₀) (Requests.partitionRequest H issuers id)
      (fun _ s => Extends d s ∧ Settled H issuers s id ∧ ∃ parent, Requests.readRequest id d = .ok parent) d := by
    refine ends_partitionRequest h ?_ ?_
    · intro parent g s r hsplit hs hr habs
      obtain ⟨-, -, hvalid⟩ := readRequest_ok hsplit.read
      exact hs.child hvalid (groups_spec hsplit.groups) hr habs
    · intro parent g s hsplit hs hgrown hchildren habs
      obtain ⟨hparent, hid, -⟩ := readRequest_ok hsplit.read
      exact hs.mapping hid (hgrown _ _ hparent) (groups_spec hsplit.groups) hchildren habs
  exact hturn.mono fun _ _ _ hQ => ⟨hQ.1, hQ.2.1⟩

variable (H issuers) in
def AllSettled (d : Directory) : Prop :=
  ∀ id r, "ocr-".toList.isPrefixOf id = true → d.read (.request id) = some (.request r) → Settled H issuers d id

theorem ends_partition (h : Inv H issuers d) :
    Ends (Passed H issuers d) (partition H issuers) (fun _ d' => AllSettled H issuers d') d := by
  have hstart : Passed H issuers d d := ⟨Extends.refl d, h, fun _ _ hread => .inl hread⟩
  refine Ends.bind (Ends.look hstart ?_)
  have hloop : Ends (Passed H issuers d) (d.requestIds.forM (partitionRequest H issuers))
      (fun _ d' => ∀ id ∈ [] ++ d.requestIds, Settled H issuers d' id) d := by
    refine Ends.forM (fun done d' => ∀ id ∈ done, Settled H issuers d' id) [] ?_ hstart (by simp)
    intro done id s _ hs hJ
    refine hs.partitionRequest.mono fun _ s' _ hdone id' hid' => ?_
    rcases List.mem_append.1 hid' with hid' | hid'
    · exact (hJ id' hid').mono hdone.1
    · rw [List.mem_singleton.1 hid']
      exact hdone.2
  refine hloop.mono fun _ d' hP hdone id r hpre hread => ?_
  rcases hP.requests id r hread with hold | ⟨parent, g, hg, hr⟩
  · exact hdone id (Directory.mem_requestIds.2 ⟨hpre, by rw [hold]; rfl⟩)
  · refine ⟨r, hread, fun _ g' hg' htwo => ?_⟩
    have := length_groups_child hg hr (groups_spec hg')
    omega

/-- A partition of what is settled changes nothing. -/
theorem idle_partition (h : Inv H issuers d) (hall : AllSettled H issuers d) : Idle (partition H issuers) () d := by
  refine (Idle.look _ d).bind (Idle.forM fun id hid => ?_)
  obtain ⟨hpre, hsome⟩ := Directory.mem_requestIds.1 hid
  obtain ⟨parent, hok⟩ := h.readRequest hsome
  obtain ⟨hparent, -, -⟩ := readRequest_ok hok
  refine (Idle.ask hok).bind ((Idle.look _ d).bind ?_)
  split
  · exact Idle.pure () d
  · rename_i hopen
    cases hg : groups issuers parent.targets with
    | none => exact Idle.pure () d
    | some g =>
      show Idle (if g.length < 2 then pure () else _) () d
      split
      · exact Idle.pure () d
      · rename_i htwo
        obtain ⟨parent', hparent', hsettled⟩ := hall id parent hpre hparent
        obtain rfl := Content.request.inj (Option.some.inj (hparent.symm.trans hparent'))
        obtain ⟨hchildren, hmap⟩ := hsettled (by simpa using hopen) g hg (by omega)
        exact (Idle.forM fun r hr => idle_keep (hchildren r hr)).bind (idle_keep hmap)

end CardRag.Requests
