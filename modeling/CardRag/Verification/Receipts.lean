import CardRag.Lib.Runs
import CardRag.Verification.Policy

/-! # What stands for bytes that are not read

`Entry` is what the server and the worker did, as a log with the newest entry first. Each memo entry and
each receipt has its read in the log, and nothing that was logged after it dropped the path. -/

namespace CardRag.Verification

open Publish (Path)

inductive Entry where
  /-- A policy begins, with an empty memo. -/
  | began
  /-- A read in full that matched. -/
  | read (scope : Scope) (path : Path) (digest : Str) (size : Nat) (etag : Option Str) (readAt : Int)
  | head (path : Path) (size : Option Nat) (etag : Option Str) (headAt : Int)
  | invalidated (scope : Scope) (path : Path) (recursive : Bool)
deriving DecidableEq

/-- The entry drops what the scope knows of the path. -/
def Entry.Drops (scope : Scope) (path : Path) : Entry → Prop
  | .invalidated scope' path' recursive => scope' = scope ∧ State.covers path' recursive path = true
  | _ => False

/-- The evidence of a receipt. -/
def ReadInScope (scope : Scope) (path : Path) (digest : Str) (size : Nat) (etag : Option Str) (readAt : Int) :
    List Entry → Prop :=
  Since (· = .read scope path digest size etag readAt) (Entry.Drops scope path)

/-- The evidence of a full memo entry. -/
def ReadInRun (scope : Scope) (path : Path) (digest : Str) (size : Nat) : List Entry → Prop :=
  Since (fun e => ∃ etag readAt, e = .read scope path digest size etag readAt) fun e => e = .began ∨ e.Drops scope path

/-- The evidence of a memo entry that a `HEAD` made: a read that was recent, and the same size and ETag in
this run. -/
def HeadInRun (scope : Scope) (days : Nat) (path : Path) (digest : Str) (size : Nat) (log : List Entry) : Prop :=
  ∃ etag seen readAt headAt, ReadInScope scope path digest size etag readAt log ∧
    Since (· = .head path (some size) seen headAt) (fun e => e = .began ∨ e.Drops scope path) log ∧
    (∀ tag, seen = some tag → etag = some tag) ∧ readAt ≤ headAt ∧ headAt - readAt < microseconds days

/-- What `verify_sync` relies on where it reads nothing. -/
def Evidence (s : State) (c : VerifyCall) (log : List Entry) : Prop :=
  ReadInRun s.policy.scope c.path c.digest c.size log ∨
    c.force = false ∧ HeadInRun s.policy.scope s.policy.settings.maxAgeDays c.path c.digest c.size log

/-! ### The log -/

namespace State

variable (s : State)

def readEntries (c : VerifyCall) : List Entry :=
  match c.read with
  | none => [.invalidated s.policy.scope c.path false]
  | some etag => [.read s.policy.scope c.path c.digest c.size etag c.readAt, .invalidated s.policy.scope c.path false]

def verifyEntries (c : VerifyCall) : List Entry :=
  match s.lookup c.path c.digest c.size c.force c.now with
  | .skip => []
  | .nothing => s.readEntries c
  | .receipt r =>
    match c.head with
    | none => [.invalidated s.policy.scope c.path false]
    | some (size, etag) =>
      if size = some c.size ∧ etag = r.etag then [.head c.path size etag c.now]
      else s.readEntries c ++ [.head c.path size etag c.now]

/-- What an event adds to the log. -/
def entries : Event → List Entry
  | .begin _ => [.began]
  | .verify c => s.verifyEntries c
  | .upload path => [.invalidated s.policy.scope path false]
  | .delete path => [.invalidated s.policy.scope path (recursive path)]
  | .invalidate path => [.invalidated s.policy.scope path false]
  | _ => []

end State

structure World where
  state : State
  log : List Entry

def World.step (w : World) (e : Event) : World := ⟨w.state.step e, w.state.entries e ++ w.log⟩

def World.start (b : Begin) : World := ⟨State.start b, [.began]⟩

/-! ### The invariant -/

structure Sound (s : State) (log : List Entry) : Prop where
  receipt : ∀ scope path r, PyList.get? s.store.objects (scope, path) = some r →
    ReadInScope scope path r.sha256 r.size r.etag r.verifiedAt log
  full : ∀ path digest size, PyList.get? s.policy.memo path = some (digest, size, true) →
    ReadInRun s.policy.scope path digest size log
  head : ∀ path digest size, PyList.get? s.policy.memo path = some (digest, size, false) →
    HeadInRun s.policy.scope s.policy.settings.maxAgeDays path digest size log

namespace State

variable {s : State}

theorem lookup_skip {path : Path} {digest : Str} {size : Nat} {force : Bool} {now : Int}
    (h : s.lookup path digest size force now = .skip) :
    ∃ full, PyList.get? s.policy.memo path = some (digest, size, full) ∧ (full = false → force = false) := by
  simp only [lookup] at h
  split at h
  · rename_i hmemo
    obtain ⟨⟨d, n, full⟩, hm, hd⟩ := (Option.any_eq_true _ _).1 hmemo
    simp only [Bool.and_eq_true, decide_eq_true_eq, Bool.or_eq_true, Bool.not_eq_true'] at hd
    obtain ⟨⟨rfl, rfl⟩, hfull⟩ := hd
    exact ⟨full, hm, fun hf => hfull.resolve_left (by simp [hf])⟩
  · split at h
    · cases h
    · split at h
      · split at h <;> cases h
      · cases h

theorem lookup_receipt {path : Path} {digest : Str} {size : Nat} {force : Bool} {now : Int} {r : Receipt}
    (h : s.lookup path digest size force now = .receipt r) :
    force = false ∧ PyList.get? s.store.objects (s.policy.scope, path) = some r ∧
      s.usable r digest size now = true := by
  simp only [lookup] at h
  split at h
  · cases h
  · split at h
    · cases h
    · rename_i hforce
      simp only [Bool.or_eq_true, not_or, Bool.not_eq_true] at hforce
      split at h
      · rename_i r' hr
        split at h
        · rename_i hu
          obtain rfl := Found.receipt.inj h
          exact ⟨hforce.1, hr, hu⟩
        · cases h
      · cases h

theorem usable_iff {r : Receipt} {digest : Str} {size : Nat} {now : Int} : s.usable r digest size now = true ↔
    r.sha256 = digest ∧ r.size = size ∧ 0 ≤ r.verifiedAt ∧ r.verifiedAt ≤ now ∧
      now - r.verifiedAt < microseconds s.policy.settings.maxAgeDays := by
  simp only [usable, Bool.and_eq_true, decide_eq_true_eq, and_assoc]

theorem get?_invalidate_objects {path : Path} {recursive : Bool} {k : Scope × Path} :
    PyList.get? (s.invalidate path recursive).store.objects k =
      if k.1 = s.policy.scope ∧ covers path recursive k.2 then none else PyList.get? s.store.objects k := by
  have h := PyList.get?_filter (fun k : Scope × Path => !(k.1 = s.policy.scope && covers path recursive k.2))
    s.store.objects k
  refine h.trans ?_
  by_cases hk : k.1 = s.policy.scope <;> by_cases hc : covers path recursive k.2 <;> simp [hk, hc]

theorem get?_invalidate_memo {path p : Path} {recursive : Bool} :
    PyList.get? (s.invalidate path recursive).policy.memo p =
      if covers path recursive p then none else PyList.get? s.policy.memo p := by
  have h := PyList.get?_filter (fun p : Path => !covers path recursive p) s.policy.memo p
  refine h.trans ?_
  by_cases hc : covers path recursive p <;> simp [hc]

theorem countUpload_objects (path : Path) (size : Nat) : (s.countUpload path size).store.objects = s.store.objects := by
  unfold countUpload
  split <;> rfl

theorem countUpload_memo (path : Path) (size : Nat) : (s.countUpload path size).policy.memo = s.policy.memo := by
  unfold countUpload
  split <;> rfl

theorem countUpload_scope (path : Path) (size : Nat) : (s.countUpload path size).policy.scope = s.policy.scope := by
  unfold countUpload
  split <;> rfl

theorem countUpload_settings (path : Path) (size : Nat) :
    (s.countUpload path size).policy.settings = s.policy.settings := by
  unfold countUpload
  split <;> rfl

end State

namespace Sound

variable {s s' : State} {log : List Entry} {c : VerifyCall}

theorem congr (ho : s'.store.objects = s.store.objects) (hm : s'.policy.memo = s.policy.memo)
    (hs : s'.policy.scope = s.policy.scope) (hset : s'.policy.settings = s.policy.settings) (h : Sound s log) :
    Sound s' log := by
  refine ⟨?_, ?_, ?_⟩
  · rw [ho]
    exact h.receipt
  · rw [hm, hs]
    exact h.full
  · rw [hm, hs, hset]
    exact h.head

/-- Entries other than a beginning take nothing away from what is kept of the paths they do not drop. -/
theorem cons {e : Entry} (hb : e ≠ .began)
    (hr : ∀ scope path r, PyList.get? s'.store.objects (scope, path) = some r →
      PyList.get? s.store.objects (scope, path) = some r ∧ ¬ e.Drops scope path)
    (hm : ∀ path m, PyList.get? s'.policy.memo path = some m →
      PyList.get? s.policy.memo path = some m ∧ ¬ e.Drops s.policy.scope path)
    (hs : s'.policy.scope = s.policy.scope) (hset : s'.policy.settings = s.policy.settings) (h : Sound s log) :
    Sound s' (e :: log) := by
  refine ⟨fun scope path r hget => ?_, fun path digest size hget => ?_, fun path digest size hget => ?_⟩
  · obtain ⟨hget, hdrop⟩ := hr scope path r hget
    exact (h.receipt scope path r hget).cons hdrop
  · obtain ⟨hget, hdrop⟩ := hm path _ hget
    rw [hs]
    exact (h.full path digest size hget).cons fun h => h.elim hb hdrop
  · obtain ⟨hget, hdrop⟩ := hm path _ hget
    obtain ⟨etag, seen, at', headAt, hread, hhead, hrest⟩ := h.head path digest size hget
    rw [hs, hset]
    exact ⟨etag, seen, at', headAt, hread.cons hdrop, hhead.cons fun h => h.elim hb hdrop, hrest⟩

theorem invalidate (h : Sound s log) (path : Path) (recursive : Bool) :
    Sound (s.invalidate path recursive) (.invalidated s.policy.scope path recursive :: log) := by
  refine Sound.cons (s := s) (by simp) (fun scope p r hget => ?_) (fun p m hget => ?_) rfl rfl h
  · rw [State.get?_invalidate_objects] at hget
    split at hget
    · cases hget
    · rename_i hk
      exact ⟨hget, fun hd => hk ⟨hd.1.symm, hd.2⟩⟩
  · rw [State.get?_invalidate_memo] at hget
    split at hget
    · cases hget
    · rename_i hc
      exact ⟨hget, fun hd => hc hd.2⟩

theorem rememberHead {path : Path} {digest : Str} {size : Nat} {e : Entry} (h : Sound s log) (hb : e ≠ .began)
    (he : ∀ scope p, ¬ e.Drops scope p)
    (hev : HeadInRun s.policy.scope s.policy.settings.maxAgeDays path digest size (e :: log)) :
    Sound (s.rememberHead path digest size) (e :: log) := by
  have h' : Sound s (e :: log) := h.cons hb (fun _ _ _ hg => ⟨hg, he _ _⟩) (fun _ _ hg => ⟨hg, he _ _⟩) rfl rfl
  refine ⟨h'.receipt, fun p d n hget => ?_, fun p d n hget => ?_⟩
  all_goals simp only [State.rememberHead, PyList.get?_insert] at hget
  all_goals split at hget
  · simp at hget
  · exact h'.full p d n hget
  · rename_i hp
    simp only [Option.some.injEq, Prod.mk.injEq, and_true] at hget
    obtain ⟨rfl, rfl⟩ := hget
    exact hp ▸ hev
  · exact h'.head p d n hget

theorem rememberRead {path : Path} {digest : Str} {size : Nat} {etag : Option Str} {now : Int} (h : Sound s log) :
    Sound (s.rememberRead path digest size etag now) (.read s.policy.scope path digest size etag now :: log) := by
  have h' : Sound s (.read s.policy.scope path digest size etag now :: log) :=
    h.cons (by simp) (fun _ _ _ hg => ⟨hg, id⟩) (fun _ _ hg => ⟨hg, id⟩) rfl rfl
  refine Sound.congr (State.countUpload_objects _ _) (State.countUpload_memo _ _) (State.countUpload_scope _ _)
    (State.countUpload_settings _ _) ⟨fun scope p r hget => ?_, fun p d n hget => ?_, fun p d n hget => ?_⟩
  all_goals simp only [PyList.get?_insert] at hget
  all_goals split at hget
  · rename_i hk
    obtain ⟨rfl, rfl⟩ := Prod.mk.inj hk
    obtain rfl := Option.some.inj hget
    exact .now rfl
  · exact h'.receipt scope p r hget
  · rename_i hp
    simp only [Option.some.injEq, Prod.mk.injEq, and_true] at hget
    obtain ⟨rfl, rfl⟩ := hget
    exact .now ⟨etag, now, hp ▸ rfl⟩
  · exact h'.full p d n hget
  · simp at hget
  · exact h'.head p d n hget

theorem readBytes (h : Sound s log) (c : VerifyCall) : Sound (s.readBytes c).1 (s.readEntries c ++ log) := by
  have hinv := h.invalidate c.path false
  unfold State.readBytes State.readEntries
  cases c.read with
  | none => exact hinv
  | some etag =>
    dsimp only [List.cons_append, List.nil_append]
    split
    · exact hinv.cons (by simp) (fun _ _ _ hg => ⟨hg, id⟩) (fun _ _ hg => ⟨hg, id⟩) rfl rfl
    · exact hinv.rememberRead

theorem verify (h : Sound s log) (c : VerifyCall) : Sound (s.verifySync c).1 (s.verifyEntries c ++ log) := by
  unfold State.verifySync State.verifyEntries
  cases hl : s.lookup c.path c.digest c.size c.force c.now with
  | skip => exact h
  | nothing => exact h.readBytes c
  | receipt r =>
    obtain ⟨-, hr, hu⟩ := State.lookup_receipt hl
    obtain ⟨hd, hn, -, hle, hlt⟩ := State.usable_iff.1 hu
    cases c.head with
    | none => exact h.invalidate c.path false
    | some answer =>
      obtain ⟨size, etag⟩ := answer
      dsimp only
      split
      · rename_i hmatch
        obtain ⟨rfl, rfl⟩ := hmatch
        refine h.rememberHead (by simp) (fun _ _ => id) ⟨r.etag, r.etag, r.verifiedAt, c.now, ?_, .now rfl,
          fun _ => id, hle, hlt⟩
        exact hd ▸ hn ▸ (h.receipt _ _ r hr).cons id
      · rw [List.append_assoc]
        exact Sound.readBytes (h.cons (by simp) (fun _ _ _ hg => ⟨hg, id⟩) (fun _ _ hg => ⟨hg, id⟩) rfl rfl) c

theorem begin (h : Sound s log) (b : Begin) : Sound (s.step (.begin b)) (.began :: log) := by
  have ho : (s.step (.begin b)).store.objects = s.store.objects := by
    simp only [State.step, State.begin]
    split <;> rfl
  have hm : (s.step (.begin b)).policy.memo = [] := by
    simp only [State.step, State.begin]
    split <;> rfl
  refine ⟨fun scope path r hget => ?_, fun path digest size hget => ?_, fun path digest size hget => ?_⟩
  · rw [ho] at hget
    exact (h.receipt scope path r hget).cons id
  · simp [hm, PyList.get?] at hget
  · simp [hm, PyList.get?] at hget

theorem step (h : Sound s log) (e : Event) : Sound (s.step e) (s.entries e ++ log) := by
  cases e with
  | begin b => exact h.begin b
  | verify c => exact h.verify c
  | upload path =>
    refine Sound.congr ?_ ?_ ?_ ?_ (h.invalidate path false)
    all_goals
      simp only [State.step, State.uploadIntent]
      split_ifs <;> rfl
  | delete path => exact h.invalidate path _
  | invalidate path => exact h.invalidate path false
  | clearMemo =>
    refine ⟨h.receipt, fun path digest size hget => ?_, fun path digest size hget => ?_⟩
    all_goals simp [State.step, PyList.get?] at hget
  | moved path statusCode =>
    refine Sound.congr ?_ ?_ ?_ ?_ h
    all_goals
      simp only [State.step, State.moved]
      split <;> rfl
  | finish =>
    refine Sound.congr ?_ ?_ ?_ ?_ h
    all_goals
      simp only [State.step, State.finishRun]
      split
      · split <;> rfl
      · rfl
  | bind _ _ | startAudit | completeAudit _ _ | status _ _ => exact Sound.congr (s := s) rfl rfl rfl rfl h

end Sound

/-! ### Unread bytes -/

/-- Where `verify_sync` reads nothing, the log has the evidence. -/
def Justified (w : World) : Event → World → Prop
  | .verify c, w' => (w.state.verifySync c).2 = .reused ∨ (w.state.verifySync c).2 = .confirmed →
      Evidence w.state c w'.log
  | _, _ => True

theorem State.readBytes_outcome (s : State) (c : VerifyCall) :
    (s.readBytes c).2 = .raised ∨ (s.readBytes c).2 = .read := by
  unfold State.readBytes
  cases c.read with
  | none => exact .inl rfl
  | some etag => exact .inr rfl

theorem Sound.justified {w : World} (h : Sound w.state w.log) (e : Event) : Justified w e (w.step e) := by
  cases e with
  | verify c =>
    intro hout
    show Evidence w.state c (w.state.verifyEntries c ++ w.log)
    unfold State.verifySync at hout
    unfold State.verifyEntries
    cases hl : w.state.lookup c.path c.digest c.size c.force c.now with
    | skip =>
      obtain ⟨full, hm, hforce⟩ := State.lookup_skip hl
      cases full with
      | true => exact .inl (h.full _ _ _ hm)
      | false => exact .inr ⟨hforce rfl, h.head _ _ _ hm⟩
    | nothing =>
      rw [hl] at hout
      rcases w.state.readBytes_outcome c with hr | hr <;> simp [hr] at hout
    | receipt r =>
      obtain ⟨hforce, hr, hu⟩ := State.lookup_receipt hl
      obtain ⟨hd, hn, -, hle, hlt⟩ := State.usable_iff.1 hu
      rw [hl] at hout
      cases hhead : c.head with
      | none => simp [hhead] at hout
      | some answer =>
        obtain ⟨size, etag⟩ := answer
        simp only [hhead] at hout
        by_cases hmatch : size = some c.size ∧ etag = r.etag
        · obtain ⟨rfl, rfl⟩ := hmatch
          refine .inr ⟨hforce, r.etag, r.etag, r.verifiedAt, c.now, ?_, ?_, fun _ => id, hle, hlt⟩
          · simp only [true_and, if_true]
            exact hd ▸ hn ▸ (h.receipt _ _ r hr).cons id
          · simp only [true_and, if_true]
            exact .now rfl
        · rw [if_neg hmatch] at hout
          rcases w.state.readBytes_outcome c with hr | hr <;> simp [hr] at hout
  | _ => trivial

/-- Over every sequence of runs on one state, `verify_sync` leaves bytes unread only with evidence of them. -/
theorem unread_bytes_have_evidence (b : Begin) (events : List Event) :
    Along World.step Justified (World.start b) events := by
  have hempty : Sound ⟨{}, ⟨b.scope, b.settings, b.channel, b.runId, ⟨b.uuid, none, 0, 0, false⟩, [], false, none, none⟩⟩ [] :=
    ⟨by simp [PyList.get?], by simp [PyList.get?], by simp [PyList.get?]⟩
  have hstart : Sound (World.start b).state (World.start b).log := hempty.begin b
  exact (Along.of_step (I := fun w => Sound w.state w.log) (fun _ e h => ⟨h.step e, h.justified e⟩) hstart events).1

/-- The narrow sense of evidence: the read is recent when it is relied on, no run has dropped the path since,
and in this run a `HEAD` has shown the ETag of that read. -/
def NarrowEvidence (s : State) (c : VerifyCall) (log : List Entry) : Prop :=
  ReadInRun s.policy.scope c.path c.digest c.size log ∨
    c.force = false ∧ ∃ scope tag readAt headAt,
      Since (· = .read scope c.path c.digest c.size (some tag) readAt) (fun e => ∃ scope, e.Drops scope c.path) log ∧
        Since (· = .head c.path (some c.size) (some tag) headAt) (· = .began) log ∧
        c.now - readAt ≤ microseconds s.policy.settings.maxAgeDays

def NarrowlyJustified (w : World) : Event → World → Prop
  | .verify c, w' => (w.state.verifySync c).2 = .reused ∨ (w.state.verifySync c).2 = .confirmed →
      NarrowEvidence w.state c w'.log
  | _, _ => True

def daily (everyRuns : Nat) (runId : Str) : Begin :=
  ⟨⟨everyRuns, 1, 1, false, false⟩, "https".toList, "w".toList, "stable".toList, runId, "e".toList⟩

def objectPath : Path := ["v1".toList, "o".toList]

def callAt (now : Int) (etag : Option Str) : VerifyCall :=
  ⟨objectPath, "d".toList, 5, false, now, some (some 5, etag), some etag, now⟩

def World.after (events : List Event) : World := runFrom World.step (World.start (daily 10 "a".toList)) events

/-- The server has no ETags. -/
def withoutTags : List Event := [.verify (callAt 0 none), .begin (daily 10 "b".toList)]

/-- A worker with other settings deletes the object. -/
def otherSettings : List Event :=
  [.verify (callAt 0 (some "t".toList)), .begin (daily 20 "b".toList), .delete objectPath, .begin (daily 10 "c".toList)]

/-- The second run goes on for two days. -/
def longRun : List Event :=
  [.verify (callAt 0 (some "t".toList)), .begin (daily 10 "b".toList), .verify (callAt 0 (some "t".toList))]

theorem narrow_evidence_missing :
    ¬ Along World.step NarrowlyJustified (World.start (daily 10 "a".toList))
      (withoutTags ++ [.verify (callAt 0 none)]) ∧
    ¬ Along World.step NarrowlyJustified (World.start (daily 10 "a".toList))
      (otherSettings ++ [.verify (callAt 0 (some "t".toList))]) ∧
    ¬ Along World.step NarrowlyJustified (World.start (daily 10 "a".toList))
      (longRun ++ [.verify (callAt (microseconds 2) (some "t".toList))]) := by
  have hlog₁ : (World.after (withoutTags ++ [.verify (callAt 0 none)])).log =
      [.head objectPath (some 5) none 0, .began, .read (daily 10 []).scope objectPath "d".toList 5 none 0,
        .invalidated (daily 10 []).scope objectPath false, .began] := by decide +kernel
  have hlog₂ : (World.after (otherSettings ++ [.verify (callAt 0 (some "t".toList))])).log =
      [.head objectPath (some 5) (some "t".toList) 0, .began, .invalidated (daily 20 []).scope objectPath false, .began,
        .read (daily 10 []).scope objectPath "d".toList 5 (some "t".toList) 0,
        .invalidated (daily 10 []).scope objectPath false, .began] := by decide +kernel
  have hlog₃ : (World.after (longRun ++ [.verify (callAt (microseconds 2) (some "t".toList))])).log =
      [.head objectPath (some 5) (some "t".toList) 0, .began,
        .read (daily 10 []).scope objectPath "d".toList 5 (some "t".toList) 0,
        .invalidated (daily 10 []).scope objectPath false, .began] := by decide +kernel
  refine ⟨fun h => ?_, fun h => ?_, fun h => ?_⟩
  · have hev : NarrowEvidence _ _ (World.after _).log := h.last (.inr (by decide +kernel))
    rw [hlog₁] at hev
    rcases hev with hread | ⟨-, scope, tag, readAt, headAt, hread, -⟩
    · simp [ReadInRun, Since] at hread
    · simp [Since] at hread
  · have hev : NarrowEvidence _ _ (World.after _).log := h.last (.inr (by decide +kernel))
    rw [hlog₂] at hev
    rcases hev with hread | ⟨-, scope, tag, readAt, headAt, hread, -⟩
    · simp [ReadInRun, Since] at hread
    · simp [Since, Entry.Drops, State.covers, callAt] at hread
  · have hev : NarrowEvidence _ _ (World.after _).log := h.last (.inl (by decide +kernel))
    rw [hlog₃] at hev
    rcases hev with hread | ⟨-, scope, tag, readAt, headAt, hread, -, hage⟩
    · simp [ReadInRun, Since] at hread
    · obtain ⟨e, hmem, rfl⟩ := hread.exists_mem
      simp at hmem
      obtain ⟨-, -, -, -, -, rfl⟩ := hmem
      revert hage
      decide +kernel

end CardRag.Verification
