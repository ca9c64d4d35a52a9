import CardRag.Core
import CardRag.Lib.Paced
import CardRag.Lib.Runs

/-! # Request pacing (`rate_limit.py`)

Requests to an issuer pass one limiter, and requests to a host share its slots. However the requests of all issuers
interleave, are cancelled or fail, those of one issuer are let through at least `interval_seconds` apart, a host has at
most `concurrency` of them, and what a request held is given back when it is over (`requests_paced`, `requests_drained`). -/

namespace CardRag.RateLimit

/-- The constructors' arguments, of which they check the signs. -/
structure Limits where
  /-- `minimum_interval_seconds` of the issuer. -/
  interval : Str → ℚ
  interval_nonneg : ∀ issuer, 0 ≤ interval issuer
  concurrency : Nat
  concurrency_pos : 0 < concurrency

inductive Phase where
  /-- Before a slot of its host. -/
  | queued
  /-- Before the lock of its issuer. -/
  | slotted
  /-- In `wait`, with the lock. -/
  | sleeping (wake : ℚ)
  | requesting
  | over
deriving DecidableEq

def Phase.inside : Phase → Bool
  | .queued => false
  | .slotted => true
  | .sleeping _ => true
  | .requesting => true
  | .over => false

/-- `host` is `none` for a client without a host limiter. -/
structure Request where
  issuer : Str
  host : Option Str
  phase : Phase

def Request.holds (r : Request) (host : Str) : Bool := r.host = some host && r.phase.inside

structure World where
  clock : ℚ
  lastRequest : Str → Option ℚ
  /-- The request that holds the lock of an issuer. -/
  lock : Str → Option Nat
  /-- The values of the semaphores that exist. -/
  semaphores : Str → Option Nat
  requests : List Request
  /-- What came through `wait`, and when. -/
  log : List (Str × ℚ)

/-- Before any request. -/
def World.start (clock : ℚ) : World := ⟨clock, fun _ => none, fun _ => none, fun _ => none, [], []⟩

inductive Action where
  | arrive (issuer : Str) (host : Option Str)
  | enter (index : Nat)
  | lock (index : Nat)
  | wake (index : Nat)
  /-- The response is read, or the request fails or is cancelled, wherever it is. -/
  | leave (index : Nat)
  | elapse (seconds : ℚ)

section
variable (l : Limits) (w : World) (i : Nat) (r : Request)

/-- `setdefault(host, asyncio.Semaphore(self.concurrency))`. -/
def World.free (host : Str) : Nat := (w.semaphores host).getD l.concurrency

def World.setPhase (phase : Phase) : World := { w with requests := w.requests.set i { r with phase := phase } }

def World.acquire (host : Option Str) : Option World :=
  match host with
  | none => some w
  | some h =>
    if w.free l h = 0 then none
    else some { w with semaphores := Function.update w.semaphores h (some (w.free l h - 1)) }

def World.release (host : Option Str) : World :=
  match host with
  | none => w
  | some h => { w with semaphores := Function.update w.semaphores h (some (w.free l h + 1)) }

/-- The end of `wait`, which gives the lock back. -/
def World.pass : World :=
  { w.setPhase i r .requesting with
    lastRequest := Function.update w.lastRequest r.issuer (some w.clock)
    lock := Function.update w.lock r.issuer none
    log := w.log ++ [(r.issuer, w.clock)] }

/-- `wait`, once it has the lock. -/
def World.wait : World :=
  match w.lastRequest r.issuer with
  | none => w.pass i r
  | some last =>
    let delay := l.interval r.issuer - (w.clock - last)
    if 0 < delay then
      { w.setPhase i r (.sleeping (w.clock + delay)) with lock := Function.update w.lock r.issuer (some i) }
    else w.pass i r

def World.leave : World :=
  match r.phase with
  | .queued => w.setPhase i r .over
  | .slotted => (w.release l r.host).setPhase i r .over
  | .sleeping _ => { (w.release l r.host).setPhase i r .over with lock := Function.update w.lock r.issuer none }
  | .requesting => (w.release l r.host).setPhase i r .over
  | .over => w

end

/-- What a request does next; an action it cannot take changes nothing. -/
def World.step (l : Limits) (w : World) : Action → World
  | .arrive issuer host => { w with requests := w.requests ++ [⟨issuer, host, .queued⟩] }
  | .enter i =>
    match w.requests[i]? with
    | none => w
    | some r => if r.phase = .queued then ((w.acquire l r.host).map (·.setPhase i r .slotted)).getD w else w
  | .lock i =>
    match w.requests[i]? with
    | none => w
    | some r => if r.phase = .slotted ∧ w.lock r.issuer = none then w.wait l i r else w
  | .wake i =>
    match w.requests[i]? with
    | none => w
    | some r =>
      match r.phase with
      | .sleeping wake => if wake ≤ w.clock then w.pass i r else w
      | _ => w
  | .leave i =>
    match w.requests[i]? with
    | none => w
    | some r => w.leave l i r
  | .elapse seconds => if 0 ≤ seconds then { w with clock := w.clock + seconds } else w

/-- The requests that hold a slot of the host. -/
def World.inFlight (w : World) (host : Str) : Nat := w.requests.countP (·.holds host)

/-- When the requests of an issuer came through. -/
def World.stamps (w : World) (issuer : Str) : List ℚ := (w.log.filter (·.1 = issuer)).map (·.2)

structure Inv (l : Limits) (w : World) : Prop where
  slots : ∀ host, w.inFlight host + w.free l host = l.concurrency
  held : ∀ issuer i, w.lock issuer = some i →
    ∃ r wake, w.requests[i]? = some r ∧ r.issuer = issuer ∧ r.phase = .sleeping wake
  sleeper : ∀ i r wake, w.requests[i]? = some r → r.phase = .sleeping wake →
    w.lock r.issuer = some i ∧ ∃ last, w.lastRequest r.issuer = some last ∧ wake = last + l.interval r.issuer
  last : ∀ issuer, w.lastRequest issuer = (w.stamps issuer).getLast?
  past : ∀ issuer t, w.lastRequest issuer = some t → t ≤ w.clock
  spaced : ∀ issuer, Spaced (l.interval issuer) (w.stamps issuer)

section
variable {l : Limits} {w : World} {i j : Nat} {r : Request} {phase : Phase}

theorem getElem?_set_of_ne {r' s : Request} (hne : i ≠ j) : (w.requests.set i r')[j]? = some s ↔ w.requests[j]? = some s := by
  rw [List.getElem?_set_ne hne]

theorem getElem?_set_cases {r' s : Request} (h : (w.requests.set i r')[j]? = some s) :
    i = j ∧ s = r' ∨ i ≠ j ∧ w.requests[j]? = some s := by
  by_cases hij : i = j
  · subst hij
    rw [List.getElem?_set_self'] at h
    obtain ⟨_, -, rfl⟩ := Option.map_eq_some_iff.1 h
    exact .inl ⟨rfl, rfl⟩
  · exact .inr ⟨hij, (getElem?_set_of_ne hij).1 h⟩

/-- Slots are counted by the requests inside. -/
theorem Inv.slots_set (phase : Phase) (h : Inv l w) (hr : w.requests[i]? = some r) {w' : World}
    (hset : w'.requests = w.requests.set i { r with phase := phase })
    (hfree : ∀ host, w'.free l host + (Request.holds { r with phase := phase } host).toNat =
      w.free l host + (r.holds host).toNat) (host : Str) : w'.inFlight host + w'.free l host = l.concurrency := by
  have hcount := countP_set_eq (·.holds host) hr { r with phase := phase }
  have hold := h.slots host
  have hnew := hfree host
  unfold World.inFlight at hold ⊢
  rw [hset]
  omega

theorem holds_of_inside (phase : Phase) (h : phase.inside = r.phase.inside) (host : Str) :
    Request.holds { r with phase := phase } host = r.holds host := by
  simp [Request.holds, h]

/-- A request that does not sleep has no lock, and its phase is nobody's business but its own. -/
theorem Inv.held_set (h : Inv l w) (hr : w.requests[i]? = some r) (hawake : ∀ wake, r.phase ≠ .sleeping wake) (issuer : Str)
    (j : Nat) (hlock : w.lock issuer = some j) : ∃ s wake,
      (w.requests.set i { r with phase := phase })[j]? = some s ∧ s.issuer = issuer ∧ s.phase = .sleeping wake := by
  obtain ⟨s, wake, hs, hissuer, hphase⟩ := h.held issuer j hlock
  have hne : i ≠ j := by
    rintro rfl
    cases hr.symm.trans hs
    exact hawake wake hphase
  exact ⟨s, wake, (getElem?_set_of_ne hne).2 hs, hissuer, hphase⟩

theorem Inv.held_free (h : Inv l w) (hr : w.requests[i]? = some r) (issuer : Str) (j : Nat)
    (hlock : Function.update w.lock r.issuer none issuer = some j) : ∃ s wake,
      (w.requests.set i { r with phase := phase })[j]? = some s ∧ s.issuer = issuer ∧ s.phase = .sleeping wake := by
  by_cases hissuer : issuer = r.issuer
  · rw [hissuer, Function.update_self] at hlock
    cases hlock
  · rw [Function.update_of_ne hissuer] at hlock
    obtain ⟨s, wake, hs, hown, hphase⟩ := h.held issuer j hlock
    have hne : i ≠ j := by
      rintro rfl
      cases hr.symm.trans hs
      exact hissuer hown.symm
    exact ⟨s, wake, (getElem?_set_of_ne hne).2 hs, hown, hphase⟩

/-- The other sleepers of a lock that is free, or held by the request itself, are of other issuers. -/
theorem Inv.sleeper_ne (h : Inv l w) (hfree : w.lock r.issuer = none ∨ w.lock r.issuer = some i) {s : Request} {wake : ℚ}
    (hs : w.requests[j]? = some s) (hne : i ≠ j) (hphase : s.phase = .sleeping wake) : s.issuer ≠ r.issuer := by
  intro heq
  have hlock := (h.sleeper j s wake hs hphase).1
  rw [heq] at hlock
  obtain hfree | hfree := hfree
  · cases hfree.symm.trans hlock
  · cases hfree.symm.trans hlock
    exact hne rfl

theorem Inv.pass (h : Inv l w) (hr : w.requests[i]? = some r) (hfree : w.lock r.issuer = none ∨ w.lock r.issuer = some i)
    (hinside : r.phase.inside = true) (hdue : ∀ last, w.lastRequest r.issuer = some last → last + l.interval r.issuer ≤ w.clock) :
    Inv l (w.pass i r) where
  slots := h.slots_set .requesting hr rfl fun host => by rw [holds_of_inside .requesting hinside.symm]; rfl
  held := h.held_free hr
  sleeper := by
    intro j s wake hs hphase
    obtain ⟨-, rfl⟩ | ⟨hne, hs⟩ := getElem?_set_cases hs
    · cases hphase
    · have hissuer := h.sleeper_ne hfree hs hne hphase
      obtain ⟨hlock, hlast⟩ := h.sleeper j s wake hs hphase
      exact ⟨(Function.update_of_ne hissuer ..).trans hlock, by simpa [World.pass, Function.update_of_ne hissuer] using hlast⟩
  last := by
    intro issuer
    have hlast := h.last issuer
    by_cases hissuer : issuer = r.issuer
    · subst hissuer
      simp [World.pass, World.stamps]
    · simpa [World.pass, World.stamps, List.filter_append, Ne.symm hissuer, Function.update_of_ne hissuer] using hlast
  past := by
    intro issuer t ht
    by_cases hissuer : issuer = r.issuer
    · subst hissuer
      simp only [World.pass, Function.update_self, Option.some.injEq] at ht
      exact ht.ge
    · simp only [World.pass, Function.update_of_ne hissuer] at ht
      exact h.past issuer t ht
  spaced := by
    intro issuer
    by_cases hissuer : issuer = r.issuer
    · subst hissuer
      have hstamps : (w.pass i r).stamps r.issuer = w.stamps r.issuer ++ [w.clock] := by
        simp [World.pass, World.stamps]
      rw [hstamps]
      exact (h.spaced _).snoc (l.interval_nonneg _) fun last hlast => hdue last ((h.last _).trans hlast)
    · have hstamps : (w.pass i r).stamps issuer = w.stamps issuer := by
        simp [World.pass, World.stamps, Ne.symm hissuer]
      rw [hstamps]
      exact h.spaced issuer

theorem Inv.wait (h : Inv l w) (hr : w.requests[i]? = some r) (hphase : r.phase = .slotted) (hlock : w.lock r.issuer = none) :
    Inv l (w.wait l i r) := by
  have hinside : r.phase.inside = true := by rw [hphase]; rfl
  unfold World.wait
  split
  · rename_i hlast
    exact h.pass hr (.inl hlock) hinside fun last h => by cases hlast.symm.trans h
  · rename_i last hlast
    dsimp only
    split
    · refine ⟨h.slots_set _ hr rfl fun host => by rw [holds_of_inside (.sleeping _) hinside.symm]; rfl, ?_, ?_, h.last, h.past, h.spaced⟩
      · intro issuer j hj
        dsimp only at hj ⊢
        by_cases hissuer : issuer = r.issuer
        · subst hissuer
          rw [Function.update_self] at hj
          cases hj
          exact ⟨_, _, List.getElem?_set_self (List.getElem?_eq_some_iff.1 hr).1, rfl, rfl⟩
        · rw [Function.update_of_ne hissuer] at hj
          exact h.held_set hr (fun wake => by rw [hphase]; exact Phase.noConfusion) issuer j hj
      · intro j s wake hs hsleep
        obtain ⟨rfl, rfl⟩ | ⟨hne, hs⟩ := getElem?_set_cases hs
        · cases hsleep
          exact ⟨Function.update_self .., last, hlast, by ring⟩
        · have hissuer := h.sleeper_ne (.inl hlock) hs hne hsleep
          obtain ⟨hown, hwake⟩ := h.sleeper j s wake hs hsleep
          exact ⟨(Function.update_of_ne hissuer ..).trans hown, hwake⟩
    · rename_i hdue
      refine h.pass hr (.inl hlock) hinside fun last' h => ?_
      cases hlast.symm.trans h
      linarith

theorem free_release (host : Option Str) (other : Str) :
    (w.release l host).free l other = w.free l other + (decide (host = some other)).toNat := by
  cases host with
  | none => rfl
  | some h =>
    by_cases hother : other = h
    · subst hother
      simp [World.release, World.free]
    · simp [World.release, World.free, Function.update_of_ne hother, Ne.symm hother]

@[simp] theorem release_requests (host : Option Str) : (w.release l host).requests = w.requests := by cases host <;> rfl

@[simp] theorem release_lock (host : Option Str) : (w.release l host).lock = w.lock := by cases host <;> rfl

@[simp] theorem release_lastRequest (host : Option Str) : (w.release l host).lastRequest = w.lastRequest := by cases host <;> rfl

@[simp] theorem release_clock (host : Option Str) : (w.release l host).clock = w.clock := by cases host <;> rfl

@[simp] theorem release_log (host : Option Str) : (w.release l host).log = w.log := by cases host <;> rfl

/-- A request that is inside gives its slot back. -/
theorem Inv.slots_leave (h : Inv l w) (hr : w.requests[i]? = some r) (hinside : r.phase.inside = true) {w' : World}
    (hset : w'.requests = w.requests.set i { r with phase := .over })
    (hsem : w'.semaphores = (w.release l r.host).semaphores) (host : Str) :
    w'.inFlight host + w'.free l host = l.concurrency := by
  refine h.slots_set .over hr hset (fun other => ?_) host
  have hfree : w'.free l other = (w.release l r.host).free l other := by rw [World.free, hsem]; rfl
  rw [hfree, free_release]
  have hover : Phase.over.inside = false := rfl
  simp [Request.holds, hinside, hover]

theorem Inv.over (h : Inv l w) (hr : w.requests[i]? = some r) (hinside : r.phase.inside = true)
    (hawake : ∀ wake, r.phase ≠ .sleeping wake) : Inv l ((w.release l r.host).setPhase i r .over) where
  slots := h.slots_leave hr hinside (by simp [World.setPhase]) rfl
  held issuer j hlock := by
    simp only [World.setPhase, release_lock, release_requests] at hlock ⊢
    exact h.held_set hr hawake issuer j hlock
  sleeper j s wake hs hphase := by
    simp only [World.setPhase, release_lock, release_requests, release_lastRequest] at hs ⊢
    obtain ⟨-, rfl⟩ | ⟨-, hs⟩ := getElem?_set_cases hs
    · cases hphase
    · exact h.sleeper j s wake hs hphase
  last issuer := by simpa [World.setPhase, World.stamps] using h.last issuer
  past issuer t ht := by
    simp only [World.setPhase, release_lastRequest, release_clock] at ht ⊢
    exact h.past issuer t ht
  spaced issuer := by simpa [World.setPhase, World.stamps] using h.spaced issuer

theorem Inv.leave (h : Inv l w) (hr : w.requests[i]? = some r) : Inv l (w.leave l i r) := by
  unfold World.leave
  split
  · rename_i hphase
    refine ⟨h.slots_set .over hr rfl fun host => ?_, ?_, ?_, h.last, h.past, h.spaced⟩
    · rw [holds_of_inside .over (by rw [hphase]; rfl)]
      rfl
    · exact h.held_set hr fun wake => by rw [hphase]; exact Phase.noConfusion
    · intro j s wake hs hsleep
      obtain ⟨-, rfl⟩ | ⟨-, hs⟩ := getElem?_set_cases hs
      · cases hsleep
      · exact h.sleeper j s wake hs hsleep
  · rename_i hphase
    exact h.over hr (by rw [hphase]; rfl) fun wake => by rw [hphase]; exact Phase.noConfusion
  · rename_i wake hphase
    have hlock := (h.sleeper i r wake hr hphase).1
    refine ⟨h.slots_leave hr (by rw [hphase]; rfl) (by simp [World.setPhase]) rfl, ?_, ?_, ?_, ?_, ?_⟩
    · intro issuer j hj
      simp only [World.setPhase, release_requests] at hj ⊢
      exact h.held_free hr issuer j hj
    · intro j s wake hs hsleep
      simp only [World.setPhase, release_requests, release_lastRequest] at hs ⊢
      obtain ⟨-, rfl⟩ | ⟨hne, hs⟩ := getElem?_set_cases hs
      · cases hsleep
      · have hissuer := h.sleeper_ne (.inr hlock) hs hne hsleep
        obtain ⟨hown, hwake⟩ := h.sleeper j s wake hs hsleep
        exact ⟨(Function.update_of_ne hissuer ..).trans hown, hwake⟩
    · intro issuer
      simpa [World.setPhase, World.stamps] using h.last issuer
    · intro issuer t ht
      simp only [World.setPhase, release_lastRequest, release_clock] at ht ⊢
      exact h.past issuer t ht
    · intro issuer
      simpa [World.setPhase, World.stamps] using h.spaced issuer
  · rename_i hphase
    exact h.over hr (by rw [hphase]; rfl) fun wake => by rw [hphase]; exact Phase.noConfusion
  · exact h

theorem Inv.enter (h : Inv l w) (hr : w.requests[i]? = some r) (hphase : r.phase = .queued) {w' : World}
    (hacq : w.acquire l r.host = some w') : Inv l (w'.setPhase i r .slotted) := by
  have hawake : ∀ wake, r.phase ≠ .sleeping wake := fun wake => by rw [hphase]; exact Phase.noConfusion
  have hsame : w'.requests = w.requests ∧ w'.lock = w.lock ∧ w'.lastRequest = w.lastRequest ∧ w'.clock = w.clock ∧
      w'.log = w.log ∧ ∀ other, w'.free l other + (decide (r.host = some other)).toNat = w.free l other := by
    unfold World.acquire at hacq
    split at hacq
    · rename_i hhost
      cases hacq
      exact ⟨rfl, rfl, rfl, rfl, rfl, fun other => by simp [hhost]⟩
    · rename_i host hhost
      split at hacq
      · cases hacq
      · rename_i hpos
        cases hacq
        refine ⟨rfl, rfl, rfl, rfl, rfl, fun other => ?_⟩
        by_cases hother : other = host
        · subst hother
          simp only [World.free, Function.update_self, Option.getD_some, hhost, decide_true, Bool.toNat_true]
          exact Nat.succ_pred_eq_of_ne_zero hpos
        · simp [World.free, Function.update_of_ne hother, hhost, Ne.symm hother]
  obtain ⟨hreq, hlock, hlast, hclock, hlog, hfree⟩ := hsame
  refine ⟨h.slots_set .slotted hr (by simp [World.setPhase, hreq]) fun other => ?_, ?_, ?_, ?_, ?_, ?_⟩
  · have hother := hfree other
    simp only [Request.holds, Phase.inside, hphase, Bool.and_true, Bool.and_false, Bool.toNat_false, Nat.add_zero]
    exact hother
  · simp only [World.setPhase, hreq, hlock]
    exact h.held_set hr hawake
  · intro j s wake hs hsleep
    simp only [World.setPhase, hreq, hlock, hlast] at hs ⊢
    obtain ⟨-, rfl⟩ | ⟨-, hs⟩ := getElem?_set_cases hs
    · cases hsleep
    · exact h.sleeper j s wake hs hsleep
  · intro issuer
    simpa [World.setPhase, World.stamps, hlast, hlog] using h.last issuer
  · intro issuer t ht
    simp only [World.setPhase, hlast, hclock] at ht ⊢
    exact h.past issuer t ht
  · intro issuer
    simpa [World.setPhase, World.stamps, hlog] using h.spaced issuer

theorem inv_start (l : Limits) (clock : ℚ) : Inv l (.start clock) where
  slots host := Nat.zero_add _
  held issuer i h := by cases h
  sleeper i r wake h := by cases h
  last issuer := rfl
  past issuer t h := by cases h
  spaced issuer := List.Pairwise.nil

theorem Inv.step (h : Inv l w) (a : Action) : Inv l (w.step l a) := by
  cases a with
  | arrive issuer host =>
    refine ⟨fun other => ?_, fun issuer' i hi => ?_, fun i r wake hr hphase => ?_, h.last, h.past, h.spaced⟩
    · have hslots := h.slots other
      simpa [World.step, World.inFlight, World.free, List.countP_append, Request.holds, Phase.inside] using hslots
    · obtain ⟨r, wake, hr, hown, hphase⟩ := h.held issuer' i hi
      exact ⟨r, wake, (List.getElem?_append_left (List.getElem?_eq_some_iff.1 hr).1).trans hr, hown, hphase⟩
    · simp only [World.step, List.getElem?_append] at hr
      split at hr
      · exact h.sleeper i r wake hr hphase
      · have hmem := List.mem_singleton.1 (List.mem_of_getElem? hr)
        subst hmem
        cases hphase
  | enter i =>
    simp only [World.step]
    split
    · exact h
    · rename_i r hr
      split
      · rename_i hphase
        cases hacq : w.acquire l r.host with
        | none => exact h
        | some w' => exact h.enter hr hphase hacq
      · exact h
  | lock i =>
    simp only [World.step]
    split
    · exact h
    · rename_i r hr
      split
      · rename_i hready
        exact h.wait hr hready.1 hready.2
      · exact h
  | wake i =>
    simp only [World.step]
    split
    · exact h
    · rename_i r hr
      split
      · rename_i wake hphase
        split
        · rename_i hawake
          obtain ⟨hlock, last, hlast, hwake⟩ := h.sleeper i r wake hr hphase
          refine h.pass hr (.inr hlock) (by rw [hphase]; rfl) fun last' h => ?_
          cases hlast.symm.trans h
          exact hwake ▸ hawake
        · exact h
      · exact h
  | leave i =>
    simp only [World.step]
    split
    · exact h
    · rename_i r hr
      exact h.leave hr
  | elapse seconds =>
    simp only [World.step]
    split
    · rename_i hpos
      exact ⟨h.slots, h.held, h.sleeper, h.last, fun issuer t ht => (h.past issuer t ht).trans (le_add_of_nonneg_right hpos),
        h.spaced⟩
    · exact h

theorem inv_run (l : Limits) (clock : ℚ) (actions : List Action) : Inv l (runFrom (World.step l) (.start clock) actions) :=
  (Along.of_step (P := fun _ _ _ => True) (fun _ a h => ⟨h.step a, trivial⟩) (inv_start l clock) actions).2

end

/-- In any window of `k` intervals an issuer gets at most `k` requests, and a host never more than its slots at once. -/
theorem requests_paced (l : Limits) (clock : ℚ) (actions : List Action) :
    (∀ issuer from_ k, ((runFrom (World.step l) (.start clock) actions).stamps issuer).countP
      (fun t => from_ ≤ t ∧ t < from_ + k • l.interval issuer) ≤ k) ∧
    ∀ host, (runFrom (World.step l) (.start clock) actions).inFlight host ≤ l.concurrency := by
  have h := inv_run l clock actions
  refine ⟨fun issuer from_ k => (h.spaced issuer).window (l.interval_nonneg issuer) from_ k, fun host => ?_⟩
  exact (Nat.le_add_right _ _).trans_eq (h.slots host)

/-- Who holds a lock will wake within an interval; and once all requests are over, every slot and lock is free. -/
theorem requests_drained (l : Limits) (clock : ℚ) (actions : List Action) :
    let w := runFrom (World.step l) (.start clock) actions
    (∀ issuer i, w.lock issuer = some i → ∃ r wake, w.requests[i]? = some r ∧ r.phase = .sleeping wake ∧
      wake ≤ w.clock + l.interval issuer) ∧
    ((∀ r ∈ w.requests, r.phase = .over) → (∀ host, w.free l host = l.concurrency) ∧ ∀ issuer, w.lock issuer = none) := by
  intro w
  have h : Inv l w := inv_run l clock actions
  refine ⟨fun issuer i hi => ?_, fun hover => ⟨fun host => ?_, fun issuer => ?_⟩⟩
  · obtain ⟨r, wake, hr, rfl, hphase⟩ := h.held issuer i hi
    obtain ⟨-, last, hlast, rfl⟩ := h.sleeper i r wake hr hphase
    exact ⟨r, _, hr, hphase, by have := h.past _ _ hlast; linarith⟩
  · have hnone : w.inFlight host = 0 := by
      refine List.countP_eq_zero.2 fun r hr => ?_
      simp [Request.holds, hover r hr, Phase.inside]
    have hslots := h.slots host
    rwa [hnone, Nat.zero_add] at hslots
  · cases hlock : w.lock issuer with
    | none => rfl
    | some i =>
      obtain ⟨r, wake, hr, -, hphase⟩ := h.held issuer i hlock
      cases (hover r (List.mem_of_getElem? hr)).symm.trans hphase

end CardRag.RateLimit
