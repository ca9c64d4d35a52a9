import CardRag.Publish.Webdav

/-! # Destinations are written once

However the calls of `_publish` interleave, a call only moves an object to its destination after it has
read back, at a name that no other call uses, the bytes it asks for. So a destination never changes,
and a call that returns has read its own bytes there (`immutable_publication`). -/

namespace CardRag.Publish

open Interleave

variable {ι : Type} (sha256 : Bytes → Str) (requests : ι → Publication)

/-- Call `i` read back bytes it accepts at `t`. -/
def ReadBack (i : ι) (t : Path) (content : Bytes) (trace : List (ι × Op × Reply)) : Prop :=
  (i, .get t, .body content) ∈ trace ∧ (requests i).Accepts sha256 content

/-- Names drawn by different calls differ, and none is a destination. -/
structure Apart (w : World ι) : Prop where
  nodup : (w.temporaries.map (·.2)).Nodup
  destination : ∀ x ∈ w.temporaries, ∀ j, (requests j).destination ≠ x.2

/-- Call `i` published `content` at `p`: it read it back and then moved it there. -/
def Published (i : ι) (p : Path) (content : Bytes) (trace : List (ι × Op × Reply)) : Prop :=
  ∃ t r before after, trace = after ++ (i, .move t p, r) :: before ∧ ReadBack sha256 requests i t content before

/-- What call `i` does to the world: it changes its own temporary objects, and gives its destination,
while it has no object, bytes it has read back. -/
structure Guarantee (i : ι) (w w' : World ι) : Prop where
  apart : Apart requests w → Apart requests w'
  temporaries : ∀ x ∈ w.temporaries, x ∈ w'.temporaries
  trace : ∃ new, w'.trace = new ++ w.trace
  objects : ∀ p, w'.objects p = w.objects p ∨ (i, p) ∈ w.temporaries ∨
    (p = (requests i).destination ∧ w.objects p = none ∧
      ∃ content, w'.objects p = some content ∧ Published sha256 requests i p content w'.trace)

namespace Guarantee
variable {sha256 requests} {i : ι} {w w' : World ι}

theorem destination_kept (h : Guarantee sha256 requests i w w') (ha : Apart requests w) {j : ι} {content : Bytes}
    (hd : w.objects (requests j).destination = some content) : w'.objects (requests j).destination = some content := by
  rcases h.objects (requests j).destination with heq | hown | ⟨-, hnone, -⟩
  · rw [heq, hd]
  · exact absurd rfl (ha.destination _ hown j)
  · rw [hd] at hnone
    cases hnone

theorem temporary_kept (h : Guarantee sha256 requests i w w') (ha : Apart requests w) {j : ι} (hj : i ≠ j) {t : Path}
    (ht : (j, t) ∈ w.temporaries) : w'.objects t = w.objects t := by
  rcases h.objects t with heq | hown | ⟨hd, -⟩
  · exact heq
  · exact absurd (congrArg Prod.fst (List.inj_on_of_nodup_map ha.nodup hown ht rfl)) hj
  · exact absurd hd.symm (ha.destination _ ht i)

end Guarantee

/-! ### What call `i` knows -/

section
variable (i : ι)

/-- Before it draws a name. -/
def Idle (w : World ι) : Prop := Apart requests w

/-- It uses the name `t`. -/
def Owns (t : Path) (w : World ι) : Prop := Apart requests w ∧ (i, t) ∈ w.temporaries

/-- The bytes at `t` are the ones it asks for, and it has read them. -/
def Verified (t : Path) (w : World ι) : Prop :=
  Owns requests i t w ∧ ∃ content, w.objects t = some content ∧ ReadBack sha256 requests i t content w.trace

/-- Its destination holds the bytes it asks for. -/
def Stands (w : World ι) : Prop :=
  Apart requests w ∧ ∃ content, w.objects (requests i).destination = some content ∧ (requests i).Accepts sha256 content

end

section
variable {sha256 requests} {i : ι}

theorem stable_idle : Stable (Guarantee sha256 requests) i (Idle requests) :=
  .of_step fun _ _ _ _ hG h => hG.apart h

theorem stable_owns (t : Path) : Stable (Guarantee sha256 requests) i (Owns requests i t) :=
  .of_step fun _ _ _ _ hG h => ⟨hG.apart h.1, hG.temporaries _ h.2⟩

theorem stable_verified (t : Path) : Stable (Guarantee sha256 requests) i (Verified sha256 requests i t) := by
  refine .of_step fun j w w' hj hG h => ?_
  obtain ⟨⟨ha, ht⟩, content, hc, hread, hacc⟩ := h
  obtain ⟨new, htrace⟩ := hG.trace
  refine ⟨⟨hG.apart ha, hG.temporaries _ ht⟩, content, ?_, ?_, hacc⟩
  · rw [hG.temporary_kept ha hj ht, hc]
  · rw [htrace]
    exact List.mem_append_right _ hread

theorem stable_stands : Stable (Guarantee sha256 requests) i (Stands sha256 requests i) := by
  refine .of_step fun j w w' _ hG h => ?_
  obtain ⟨ha, content, hc, hacc⟩ := h
  exact ⟨hG.apart ha, content, hG.destination_kept ha hc, hacc⟩

end

/-! ### One request -/

/-- A request that changes no object. -/
def Op.Quiet : Op → Prop
  | .head _ | .mkcol _ | .get _ | .preCommit => True
  | .put _ _ _ | .move _ _ | .delete _ | .uuid4 => False

/-- The world with one more exchange on record. -/
def World.noting (w : World ι) (x : ι × Op × Reply) : World ι := { w with trace := x :: w.trace }

/-- `A` does not fail because something was read. -/
def ReadOnly (A : World ι → Prop) : Prop := ∀ w x, A w → A (w.noting x)

section
variable {sha256 requests} {i : ι} {w w' : World ι} {op : Op} {r : Reply}

theorem serve_quiet (h : Serve requests i w op r w') (hop : op.Quiet) : w' = w.noting (i, op, r) := by
  cases h with
  | uuid4 => exact hop.elim
  | remote hs =>
    cases hs with
    | idle | get => rfl
    | put | move | delete => exact hop.elim

theorem serve_get {p : Path} {content : Bytes} (h : Serve requests i w (.get p) (.body content) w') :
    w.objects p = some content := by
  cases h with
  | remote hs =>
    cases hs with
    | idle _ _ hne => exact absurd rfl (hne content)
    | get h => exact h

theorem guarantee_noting (w : World ι) (x : ι × Op × Reply) : Guarantee sha256 requests i w (w.noting x) where
  apart h := ⟨h.nodup, h.destination⟩
  temporaries _ h := h
  trace := ⟨[x], rfl⟩
  objects _ := .inl rfl

theorem readOnly_idle : ReadOnly (Idle requests) := fun _ _ h => ⟨h.nodup, h.destination⟩

theorem readOnly_owns (t : Path) : ReadOnly (Owns requests i t) := fun _ _ h => ⟨⟨h.1.nodup, h.1.destination⟩, h.2⟩

theorem readOnly_stands : ReadOnly (Stands sha256 requests i) := fun _ _ h => ⟨⟨h.1.nodup, h.1.destination⟩, h.2⟩

theorem readOnly_verified (t : Path) : ReadOnly (Verified sha256 requests i t) := by
  rintro w x ⟨⟨ha, ht⟩, content, hc, hread, hacc⟩
  exact ⟨⟨⟨ha.nodup, ha.destination⟩, ht⟩, content, hc, List.mem_cons_of_mem _ hread, hacc⟩

/-- A write to an own temporary object. -/
theorem guarantee_own {p : Path} {value : Option Bytes} (x : ι × Op × Reply) (hp : (i, p) ∈ w.temporaries) :
    Guarantee sha256 requests i w ⟨Function.update w.objects p value, w.temporaries, x :: w.trace⟩ where
  apart h := ⟨h.nodup, h.destination⟩
  temporaries _ h := h
  trace := ⟨[x], rfl⟩
  objects q := by
    by_cases hq : q = p
    · exact .inr (.inl (hq ▸ hp))
    · exact .inl (Function.update_of_ne hq _ _)

end

/-! ### The steps of a publication -/

section
variable {sha256 requests} {i : ι}

theorem ends_ask {op : Op} {P E : World ι → Prop} {Q : Reply → World ι → Prop}
    (hP : Stable (Guarantee sha256 requests) i P)
    (h : ∀ w r w', P w → Serve requests i w op r w' → Guarantee sha256 requests i w w' ∧ Q r w')
    (hQ : ∀ r, Stable (Guarantee sha256 requests) i (Q r)) (hE : Stable (Guarantee sha256 requests) i E)
    (hQE : ∀ r w, Q r w → E w) :
    Ends (Serve requests) (Guarantee sha256 requests) i P (ask op) Q (fun _ => E) := by
  refine Ends.bind (Ends.ask hP h hQ) (fun r => ?_) fun _ => hE
  cases r with
  | interrupted => exact .throw (hQE _) hE
  | status | body | hex | returned | failed => exact .pure (fun _ h => h) (hQ _)

/-- A request whose reply tells nothing. -/
theorem ends_request {op : Op} {P Q : World ι → Prop} (expected : List Nat)
    (hP : Stable (Guarantee sha256 requests) i P)
    (h : ∀ w r w', P w → Serve requests i w op r w' → Guarantee sha256 requests i w w' ∧ Q w')
    (hQ : Stable (Guarantee sha256 requests) i Q) :
    Ends (Serve requests) (Guarantee sha256 requests) i P (request op expected) (fun _ => Q) (fun _ => Q) := by
  refine Ends.bind (ends_ask (Q := fun _ => Q) hP h (fun _ => hQ) hQ fun _ _ h => h) (fun r => ?_) fun _ => hQ
  cases r with
  | status code =>
    dsimp only
    split
    · exact .pure (fun _ h => h) hQ
    · exact .throw (fun _ h => h) hQ
  | body | hex | returned | failed | interrupted => exact .throw (fun _ h => h) hQ

section
variable {A : World ι → Prop} (hA : Stable (Guarantee sha256 requests) i A) (hr : ReadOnly A)
include hA hr

theorem ends_quiet (op : Op) (hop : op.Quiet) (expected : List Nat) :
    Ends (Serve requests) (Guarantee sha256 requests) i A (request op expected) (fun _ => A) (fun _ => A) := by
  refine ends_request expected hA (fun w r w' hw hserve => ?_) hA
  rw [serve_quiet hserve hop]
  exact ⟨guarantee_noting w _, hr w _ hw⟩

theorem ends_existsAt (p : Path) :
    Ends (Serve requests) (Guarantee sha256 requests) i A (existsAt p) (fun _ => A) (fun _ => A) := by
  refine Ends.tryCatch (Q := fun _ => A) (F := fun _ => A) ?_ (fun e => ?_) fun _ => hA
  · exact Ends.bind (ends_quiet hA hr (.head p) trivial _) (fun _ => .pure (fun _ h => h) hA) fun _ => hA
  · split
    · exact .pure (fun _ h => h) hA
    · exact .throw (fun _ h => h) hA

theorem ends_ensureCollection (p : Path) :
    Ends (Serve requests) (Guarantee sha256 requests) i A (ensureCollection p) (fun _ => A) (fun _ => A) := by
  unfold ensureCollection
  split
  · exact .throw (fun _ h => h) hA
  · induction p.inits.drop 1 with
    | nil => exact .pure (fun _ h => h) hA
    | cons q qs ih => exact Ends.bind (ends_quiet hA hr (.mkcol q) trivial _) (fun _ => ih) fun _ => hA

theorem ends_runPreCommit (r : Publication) :
    Ends (Serve requests) (Guarantee sha256 requests) i A (runPreCommit r) (fun _ => A) (fun _ => A) := by
  unfold runPreCommit
  split
  · refine Ends.bind (Q := fun _ => A) (ends_ask hA (fun w r w' hw hserve => ?_) (fun _ => hA) hA fun _ _ h => h)
      (fun r => ?_) fun _ => hA
    · rw [serve_quiet hserve trivial]
      exact ⟨guarantee_noting w _, hr w _ hw⟩
    · cases r with
      | returned => exact .pure (fun _ h => h) hA
      | status | body | hex | failed | interrupted => exact .throw (fun _ h => h) hA
  · exact .pure (fun _ h => h) hA

/-- A readback that returns has read bytes the call accepts. -/
theorem ends_verifyRemote {B : World ι → Prop} (p : Path) (hB : Stable (Guarantee sha256 requests) i B)
    (h : ∀ w content, A w → w.objects p = some content → (requests i).Accepts sha256 content →
      B (w.noting (i, .get p, .body content))) :
    Ends (Serve requests) (Guarantee sha256 requests) i A (verifyRemote sha256 (requests i) p) (fun _ => B)
      (fun _ => A) := by
  have hread : Ends (Serve requests) (Guarantee sha256 requests) i A (ask (.get p))
      (fun r w => A w ∧ ∀ content, r = .body content → (requests i).Accepts sha256 content → B w) (fun _ => A) := by
    refine ends_ask hA (fun w r w' hw hserve => ?_) (fun r => ?_) hA fun _ _ h => h.1
    · obtain rfl := serve_quiet hserve trivial
      refine ⟨guarantee_noting w _, hr w _ hw, ?_⟩
      rintro content rfl hacc
      exact h w content hw (serve_get hserve) hacc
    · exact hA.and fun w w' hw hrely content heq hacc => hB w w' (hw content heq hacc) hrely
  unfold verifyRemote
  split
  · exact Ends.bind (Q := fun _ _ => False) (.throw (fun _ h => h) hA) (fun _ _ h => h.elim) fun _ => hA
  refine Ends.bind hread (fun r => ?_) fun _ => hA
  cases r with
  | body content =>
    dsimp only
    split
    · exact .throw (fun _ h => h.1) hA
    · split
      · exact .throw (fun _ h => h.1) hA
      · exact .pure (fun _ hw => hw.2 content rfl ⟨not_not.1 ‹_›, not_not.1 ‹_›⟩) hB
  | status | hex | returned | failed | interrupted => exact .throw (fun _ h => h.1) hA

end

/-- The name is the call's own. -/
theorem ends_newTemporary :
    Ends (Serve requests) (Guarantee sha256 requests) i (Idle requests) newTemporary (fun t => Owns requests i t)
      (fun _ => Idle requests) := by
  have hask : Ends (Serve requests) (Guarantee sha256 requests) i (Idle requests) (ask .uuid4)
      (fun r w => Idle requests w ∧ ∀ uuid, r = .hex uuid → Owns requests i (temporaryPath uuid) w)
      (fun _ => Idle requests) := by
    refine ends_ask stable_idle (fun w r w' hw hserve => ?_) (fun r => ?_) stable_idle fun _ _ h => h.1
    · cases hserve with
      | remote _ hop => exact absurd rfl hop
      | @uuid4 uuid hfresh =>
        have happart : Apart requests (⟨w.objects, (i, temporaryPath uuid) :: w.temporaries,
            (i, .uuid4, .hex uuid) :: w.trace⟩ : World ι) := by
          refine ⟨List.nodup_cons.2 ⟨fun hmem => ?_, hw.nodup⟩, fun x hx j => ?_⟩
          · obtain ⟨x, hx, hxt⟩ := List.mem_map.1 hmem
            exact hfresh.1 x hx hxt
          · rcases List.mem_cons.1 hx with rfl | hx
            · exact hfresh.2 j
            · exact hw.destination x hx j
        refine ⟨⟨fun _ => happart, fun x hx => List.mem_cons_of_mem _ hx, ⟨[_], rfl⟩, fun _ => .inl rfl⟩, happart, ?_⟩
        intro uuid' heq
        cases heq
        exact ⟨happart, List.mem_cons_self⟩
    · exact stable_idle.and fun w w' hw hrely uuid heq => stable_owns _ w w' (hw uuid heq) hrely
  refine Ends.bind hask (fun r => ?_) fun _ => stable_idle
  cases r with
  | hex uuid => exact .pure (fun _ hw => hw.2 uuid rfl) (stable_owns _)
  | status | body | returned | failed | interrupted => exact .throw (fun _ h => h.1) stable_idle

section
variable {t : Path}

theorem ends_put (content : Bytes) (contentType : Str) :
    Ends (Serve requests) (Guarantee sha256 requests) i (Owns requests i t) (put t content contentType)
      (fun _ => Owns requests i t) (fun _ => Owns requests i t) := by
  refine ends_request _ (stable_owns t) (fun w r w' hw hserve => ?_) (stable_owns t)
  cases hserve with
  | remote hs =>
    cases hs with
    | idle => exact ⟨guarantee_noting w _, readOnly_owns t w _ hw⟩
    | put => exact ⟨guarantee_own _ hw.2, ⟨hw.1.nodup, hw.1.destination⟩, hw.2⟩

theorem ends_move :
    Ends (Serve requests) (Guarantee sha256 requests) i (Verified sha256 requests i t)
      (move t (requests i).destination) (fun _ => Owns requests i t) (fun _ => Owns requests i t) := by
  refine ends_request _ (stable_verified t) (fun w r w' hw hserve => ?_) (stable_owns t)
  cases hserve with
  | remote hs =>
    cases hs with
    | idle => exact ⟨guarantee_noting w _, readOnly_owns t w _ hw.1⟩
    | @move _ _ content hsource hnone =>
      obtain ⟨⟨ha, ht⟩, content', hc, hread⟩ := hw
      obtain rfl : content = content' := Option.some.inj (hsource.symm.trans hc)
      refine ⟨⟨fun h => ⟨h.nodup, h.destination⟩, fun _ h => h, ⟨[_], rfl⟩, fun q => ?_⟩,
        ⟨ha.nodup, ha.destination⟩, ht⟩
      by_cases hq : q = (requests i).destination
      · subst hq
        refine .inr (.inr ⟨rfl, hnone, content, Function.update_self _ _ _, t, _, w.trace, [], rfl, hread⟩)
      · by_cases hqt : q = t
        · exact .inr (.inl (hqt ▸ ht))
        · refine .inl ?_
          show Function.update (Function.update w.objects t none) _ _ q = w.objects q
          rw [Function.update_of_ne hq, Function.update_of_ne hqt]

theorem ends_moveOrCollide :
    Ends (Serve requests) (Guarantee sha256 requests) i (Verified sha256 requests i t)
      (moveOrCollide t (requests i).destination) (fun _ => Owns requests i t) (fun _ => Owns requests i t) := by
  refine Ends.tryCatch (F := fun _ => Owns requests i t) ends_move (fun e => ?_) fun _ => stable_owns t
  split
  · refine Ends.bind (ends_existsAt (stable_owns t) (readOnly_owns t) _) (fun found => ?_) fun _ => stable_owns t
    cases found with
    | true => exact .pure (fun _ h => h) (stable_owns t)
    | false => exact .throw (fun _ h => h) (stable_owns t)
  · exact .throw (fun _ h => h) (stable_owns t)

/-- Both at once: the name is still the call's own and the destination holds its bytes. -/
def Settled (sha256 : Bytes → Str) (requests : ι → Publication) (i : ι) (t : Path) (w : World ι) : Prop :=
  Owns requests i t w ∧ Stands sha256 requests i w

theorem stable_settled : Stable (Guarantee sha256 requests) i (Settled sha256 requests i t) :=
  (stable_owns t).and stable_stands

theorem ends_commit :
    Ends (Serve requests) (Guarantee sha256 requests) i (Owns requests i t) (commit sha256 (requests i) t)
      (fun _ => Settled sha256 requests i t) (fun _ => Owns requests i t) := by
  have howns : Stable (Guarantee sha256 requests) i (Owns requests i t) := stable_owns t
  have hverified : Stable (Guarantee sha256 requests) i (Verified sha256 requests i t) := stable_verified t
  refine Ends.bind (ends_put _ _) (fun _ => ?_) fun _ => howns
  refine Ends.bind (Q := fun _ => Verified sha256 requests i t) ?_ (fun _ => ?_) fun _ => howns
  · refine ends_verifyRemote howns (readOnly_owns t) t hverified fun w content hw hc hacc => ?_
    exact ⟨readOnly_owns t w _ hw, content, hc, List.mem_cons_self, hacc⟩
  refine Ends.bind (Q := fun _ => Verified sha256 requests i t) ?_ (fun _ => ?_) fun _ => howns
  · refine (ends_runPreCommit hverified (readOnly_verified t) _).conseq (fun _ h => h) (fun _ _ h => h) ?_
    exact fun _ _ h => h.1
  refine Ends.bind ends_moveOrCollide (fun _ => ?_) fun _ => howns
  refine ends_verifyRemote howns (readOnly_owns t) _ stable_settled fun w content hw hc hacc => ?_
  exact ⟨readOnly_owns t w _ hw, ⟨hw.1.nodup, hw.1.destination⟩, content, hc, hacc⟩

/-- Deleting its temporary object changes nothing else. -/
theorem ends_cleanUp {A : World ι → Prop} (hA : Stable (Guarantee sha256 requests) i A) (hr : ReadOnly A)
    (howns : ∀ w, A w → Owns requests i t w)
    (hdelete : ∀ w x, A w → A ⟨Function.update w.objects t none, w.temporaries, x :: w.trace⟩) :
    Ends (Serve requests) (Guarantee sha256 requests) i A (cleanUp t) (fun _ => A) (fun _ => A) := by
  refine Ends.tryCatch (F := fun _ => A) (ends_request _ hA (fun w r w' hw hserve => ?_) hA) (fun e => ?_) fun _ => hA
  · cases hserve with
    | remote hs =>
      cases hs with
      | idle => exact ⟨guarantee_noting w _, hr w _ hw⟩
      | delete => exact ⟨guarantee_own _ (howns w hw).2, hdelete w _ hw⟩
  · split
    · exact .throw (fun _ h => h) hA
    · exact .pure (fun _ h => h) hA

theorem owns_delete (w : World ι) (x : ι × Op × Reply) (h : Owns requests i t w) :
    Owns requests i t ⟨Function.update w.objects t none, w.temporaries, x :: w.trace⟩ :=
  ⟨⟨h.1.nodup, h.1.destination⟩, h.2⟩

theorem settled_delete (w : World ι) (x : ι × Op × Reply) (h : Settled sha256 requests i t w) :
    Settled sha256 requests i t ⟨Function.update w.objects t none, w.temporaries, x :: w.trace⟩ := by
  obtain ⟨howns, -, content, hc, hacc⟩ := h
  refine ⟨owns_delete w x howns, ⟨howns.1.nodup, howns.1.destination⟩, content, ?_, hacc⟩
  exact (Function.update_of_ne (howns.1.destination _ howns.2 i) _ _).trans hc

end

/-- A call returns with its own bytes at its destination. -/
theorem ends_publish (i : ι) :
    Ends (Serve requests) (Guarantee sha256 requests) i (Idle requests) (publish sha256 (requests i))
      (fun _ => Stands sha256 requests i) (fun _ => Idle requests) := by
  have hidle : Stable (Guarantee sha256 requests) i (Idle requests) := stable_idle
  have hstands : Stable (Guarantee sha256 requests) i (Stands sha256 requests i) := stable_stands
  unfold publish
  split
  · exact Ends.bind (Q := fun _ _ => False) (.throw (fun _ h => h) hidle) (fun _ _ h => h.elim) fun _ => hidle
  refine Ends.bind (ends_existsAt hidle readOnly_idle _) (fun found => ?_) fun _ => hidle
  cases found with
  | true =>
    refine Ends.bind (Q := fun _ => Stands sha256 requests i) ?_ (fun _ => .pure (fun _ h => h) hstands) fun _ => hidle
    refine ends_verifyRemote hidle readOnly_idle _ hstands fun w content hw hc hacc => ?_
    exact ⟨⟨hw.nodup, hw.destination⟩, content, hc, hacc⟩
  | false =>
    refine Ends.bind (ends_ensureCollection hidle readOnly_idle _) (fun _ => ?_) fun _ => hidle
    refine Ends.bind ends_newTemporary (fun t => ?_) fun _ => hidle
    have howns : Stable (Guarantee sha256 requests) i (Owns requests i t) := stable_owns t
    refine Ends.bind (Q := fun _ => Owns requests i t) ?_ (fun _ => ?_) fun _ => hidle
    · refine (ends_ensureCollection howns (readOnly_owns t) _).conseq (fun _ h => h) (fun _ _ h => h) ?_
      exact fun _ _ h => h.1
    refine Ends.bind (Q := fun _ => Settled sha256 requests i t) ?_ (fun _ => ?_) fun _ => hidle
    · refine Ends.tryCatch ends_commit (fun e => ?_) fun _ => stable_settled
      refine Ends.bind (Q := fun _ => Owns requests i t) ?_ (fun _ => .throw (fun _ h => h.1) hidle) fun _ => hidle
      refine (ends_cleanUp howns (readOnly_owns t) (fun _ h => h) owns_delete).conseq (fun _ h => h) (fun _ _ h => h) ?_
      exact fun _ _ h => h.1
    · refine Ends.bind (Q := fun _ => Settled sha256 requests i t) ?_ (fun _ => .pure (fun _ h => h.2) hstands)
        fun _ => hidle
      refine (ends_cleanUp stable_settled ?_ (fun _ h => h.1) settled_delete).conseq (fun _ h => h) (fun _ _ h => h) ?_
      · exact fun w x h => ⟨readOnly_owns t w x h.1, readOnly_stands w x h.2⟩
      · exact fun _ _ h => h.1.1

end

/-! ### Any interleaving -/

/-- The calls before they start, on a server with the given objects. -/
def start (objects : Path → Option Bytes) : Config Op Reply (Except Failure ArtifactRef) (World ι) ι :=
  ⟨⟨objects, [], []⟩, fun i => (publish sha256 (requests i)).run⟩

theorem apart_start (objects : Path → Option Bytes) : Apart requests (start sha256 requests objects).world :=
  ⟨List.nodup_nil, fun _ h => absurd h List.not_mem_nil⟩

theorem wp_start (objects : Path → Option Bytes) (i : ι) :
    Wp (Serve requests) (Guarantee sha256 requests) i ((start sha256 requests objects).progs i)
      (fun r w => match r with | .ok _ => Stands sha256 requests i w | .error _ => Idle requests w)
      (start sha256 requests objects).world :=
  (ends_publish i _ (apart_start sha256 requests objects)).mono fun r w h => by
    cases r <;> exact h

theorem apart_of_run {w w' : World ι}
    (hrun : Relation.ReflTransGen (fun a b => ∃ j, Guarantee sha256 requests j a b) w w') (ha : Apart requests w) :
    Apart requests w' := by
  induction hrun with
  | refl => exact ha
  | tail _ hstep ih =>
    obtain ⟨i, hG⟩ := hstep
    exact hG.apart ih

/-- Along a run, a destination keeps its bytes. -/
theorem destination_kept_of_run {w w' : World ι}
    (hrun : Relation.ReflTransGen (fun a b => ∃ j, Guarantee sha256 requests j a b) w w') (ha : Apart requests w)
    {j : ι} {content : Bytes} (hd : w.objects (requests j).destination = some content) :
    w'.objects (requests j).destination = some content := by
  induction hrun with
  | refl => exact hd
  | tail hrun hstep ih =>
    obtain ⟨i, hG⟩ := hstep
    exact hG.destination_kept (apart_of_run sha256 requests hrun ha) ih

theorem published_mono {i : ι} {p : Path} {content : Bytes} {trace : List (ι × Op × Reply)}
    (h : Published sha256 requests i p content trace) (new : List (ι × Op × Reply)) :
    Published sha256 requests i p content (new ++ trace) := by
  obtain ⟨t, r, before, after, htrace, hread⟩ := h
  exact ⟨t, r, before, new ++ after, by rw [htrace, List.append_assoc], hread⟩

/-- Along a run, what is new at a destination was published there. -/
theorem published_of_run {w w' : World ι}
    (hrun : Relation.ReflTransGen (fun a b => ∃ j, Guarantee sha256 requests j a b) w w') (ha : Apart requests w)
    {j : ι} {content : Bytes} (hd : w'.objects (requests j).destination = some content) :
    w.objects (requests j).destination = some content ∨
      ∃ i, Published sha256 requests i (requests j).destination content w'.trace := by
  induction hrun with
  | refl => exact .inl hd
  | tail hrun hstep ih =>
    obtain ⟨i, hG⟩ := hstep
    rcases hG.objects (requests j).destination with heq | hown | ⟨-, -, content', hc, hpub⟩
    · rcases ih (heq ▸ hd) with hfirst | ⟨i', hpub⟩
      · exact .inl hfirst
      · obtain ⟨new, htrace⟩ := hG.trace
        exact .inr ⟨i', htrace ▸ published_mono sha256 requests hpub new⟩
    · exact absurd rfl ((apart_of_run sha256 requests hrun ha).destination _ hown j)
    · obtain rfl := Option.some.inj (hd.symm.trans hc)
      exact .inr ⟨i, hpub⟩

/-- In every interleaving of any calls of `_publish`, on a server that may store anything on `PUT` but
moves whole objects: a destination that has bytes keeps them; they were there before the calls, or a
call read them back with the digest and size it asks for and then moved them there; a call that
returned has its own digest and size at its destination; and bytes that a call which raised has read
and not accepted are at no destination, unless they were there before or another call published
them. -/
theorem immutable_publication [DecidableEq ι] (objects : Path → Option Bytes)
    {c : Config Op Reply (Except Failure ArtifactRef) (World ι) ι}
    (hc : Reaches (Serve requests) (start sha256 requests objects) c) :
    (∀ c', Reaches (Serve requests) c c' → ∀ j content, c.world.objects (requests j).destination = some content →
        c'.world.objects (requests j).destination = some content) ∧
      (∀ j content, c.world.objects (requests j).destination = some content →
        objects (requests j).destination = some content ∨
          ∃ i, Published sha256 requests i (requests j).destination content c.world.trace) ∧
      (∀ i ref, c.progs i = .done (.ok ref) → ∃ content, c.world.objects (requests i).destination = some content ∧
        (requests i).Accepts sha256 content) ∧
      (∀ i e, c.progs i = .done (.error e) → ∀ t content, (i, .get t, .body content) ∈ c.world.trace →
        ¬ (requests i).Accepts sha256 content → ∀ j, c.world.objects (requests j).destination = some content →
          objects (requests j).destination = some content ∨
            ∃ k, k ≠ i ∧ Published sha256 requests k (requests j).destination content c.world.trace) := by
  have hstart := apart_start sha256 requests objects
  obtain ⟨hwp, hrun⟩ := Wp.reachable (wp_start sha256 requests objects) hc
  have hapart := apart_of_run sha256 requests hrun hstart
  refine ⟨fun c' hc' j content hd => ?_, fun j content hd => ?_, fun i ref hi => ?_, fun i e _ t content _ hno j hd => ?_⟩
  · exact destination_kept_of_run sha256 requests (Wp.reachable hwp hc').2 hapart hd
  · exact published_of_run sha256 requests hrun hstart hd
  · have hdone := hwp i
    rw [hi] at hdone
    exact hdone.result.2
  · rcases published_of_run sha256 requests hrun hstart hd with hfirst | ⟨k, hpub⟩
    · exact .inl hfirst
    · refine .inr ⟨k, ?_, hpub⟩
      rintro rfl
      obtain ⟨_, _, _, _, -, hread⟩ := hpub
      exact hno hread.2

/-! ### One call on an empty server -/

/-! ### Two calls at once -/

/-- The SHA-256 of bytes that are ASCII. -/
def asciiSha (content : Bytes) : Str := Sha256.standard.hexdigest (content.map fun b => Char.ofNat b.toNat)

/-- Two calls publish the same bytes, `ab`. -/
def racing : Bool → Publication := fun _ =>
  ⟨["v1".toList, "object".toList], "fb8e20fc2e4c3f248c60c39bd652f3c1347298bb977b8b4d5903b85055620603".toList, 2,
    "text/plain".toList, [97, 98], false⟩

/-- A name longer than those in use. -/
def longerName (w : World Bool) : Str := List.replicate ((w.temporaries.map (·.2.flatten.length)).sum + 1) '0'

/-- A server that does what it is asked, and moves nothing onto an object. -/
def answerRemote (i : Bool) (w : World Bool) (op : Op) : Reply × World Bool :=
  let reply (r : Reply) (objects : Path → Option Bytes) : Reply × World Bool :=
    (r, ⟨objects, w.temporaries, (i, op, r) :: w.trace⟩)
  match op with
  | .head p => reply (.status (if (w.objects p).isSome then 200 else 404)) w.objects
  | .mkcol _ => reply (.status 405) w.objects
  | .put p content _ => reply (.status 201) (Function.update w.objects p (some content))
  | .get p => match w.objects p with
    | some content => reply (.body content) w.objects
    | none => reply (.status 404) w.objects
  | .move source destination => match w.objects source, w.objects destination with
    | some content, none => reply (.status 201)
        (Function.update (Function.update w.objects source none) destination (some content))
    | _, _ => reply (.status 412) w.objects
  | .delete p => reply (.status 204) (Function.update w.objects p none)
  | .preCommit => reply .returned w.objects
  | .uuid4 => (.hex (longerName w), ⟨w.objects, (i, temporaryPath (longerName w)) :: w.temporaries,
      (i, .uuid4, .hex (longerName w)) :: w.trace⟩)

theorem fresh_longerName (w : World Bool) : Fresh racing w (temporaryPath (longerName w)) := by
  refine ⟨fun x hx hsame => ?_, fun j hsame => absurd (congrArg List.length hsame) (by simp [racing, temporaryPath])⟩
  have hle : x.2.flatten.length ≤ (w.temporaries.map (·.2.flatten.length)).sum :=
    List.single_le_sum (fun _ _ => Nat.zero_le _) _ (List.mem_map_of_mem (f := (·.2.flatten.length)) hx)
  rw [hsame] at hle
  simp [temporaryPath, longerName] at hle
  omega

theorem serve_answerRemote (i : Bool) (w : World Bool) (op : Op) :
    Serve racing i w op (answerRemote i w op).1 (answerRemote i w op).2 := by
  cases op with
  | uuid4 => exact .uuid4 (fresh_longerName w)
  | get p =>
    unfold answerRemote
    dsimp only
    split
    · rename_i content hp
      exact .remote (.get hp) nofun
    · exact .remote (.idle _ _ nofun) nofun
  | move source destination =>
    unfold answerRemote
    dsimp only
    split
    · rename_i content hs hd
      exact .remote (.move hs hd _ nofun) nofun
    · exact .remote (.idle _ _ nofun) nofun
  | put p content contentType => exact .remote (.put _ _ _ _ _ nofun) nofun
  | delete p => exact .remote (.delete _ _ nofun) nofun
  | head | mkcol | preCommit => exact .remote (.idle _ _ nofun) nofun

/-- The calls take turns, to the end of both. -/
def raced : Config Op Reply (Except Failure ArtifactRef) (World Bool) Bool :=
  (start asciiSha racing fun _ => none).turns answerRemote (List.replicate 14 [false, true]).flatten

/-- The call has returned. -/
def returned : Prog Op Reply (Except Failure ArtifactRef) → Bool
  | .done (.ok _) => true
  | _ => false

theorem exists_of_returned {p : Prog Op Reply (Except Failure ArtifactRef)} (h : returned p = true) :
    ∃ ref, p = .done (.ok ref) := by
  unfold returned at h
  split at h
  · exact ⟨_, rfl⟩
  · cases h

theorem raced_returned : ∀ i, returned (raced.progs i) = true := by decide +kernel

/-- Both find no object and upload; one moves its bytes there, the other meets them, and both return. -/
theorem immutable_publication_race : (∀ i, ∃ ref, raced.progs i = .done (.ok ref)) ∧
    ∃ content, raced.world.objects (racing true).destination = some content ∧ content.length = 2 := by
  have hends : ∀ i, ∃ ref, raced.progs i = .done (.ok ref) := fun i => exists_of_returned (raced_returned i)
  have hreach : Reaches (Serve racing) (start asciiSha racing fun _ => none) raced := reaches_turns serve_answerRemote _ _
  obtain ⟨ref, href⟩ := hends true
  obtain ⟨content, hcontent, hlength, -⟩ := (immutable_publication asciiSha racing _ hreach).2.2.1 true ref href
  exact ⟨hends, content, hcontent, hlength⟩

end CardRag.Publish
