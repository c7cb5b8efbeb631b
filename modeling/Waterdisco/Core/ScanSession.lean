import Mathlib.Logic.Function.Basic
import Waterdisco.Lib.Runs

/-!
# Scan sessions

A session is live under its id until `Stop` or, idle and without a handle, until it is pruned;
`Stop` leaves a tombstone that refuses the id for `sessionIdleTTL`.  A handle is released
outside the lock, by a touch and a decrement.

    no id is live and stopped; a handle in use has its session, live or stopped   (Inv.step)
    only `Stop` drops a session in use, and its tombstone stays until it is old   (step_leaves)
-/

namespace Waterdisco.ScanSession

open Function Option List

/-- In nanoseconds. -/
def sessionIdleTTL : Int := 600000000000
def pruneInterval : Int := 60000000000

structure Tombstone where
  session : Option Nat
  at_ : Int

/-- What `Acquire` gave out; the release function touches the session and then lets it go. -/
inductive Phase where
  | held
  | touched
  | released
deriving DecidableEq

structure Handle where
  session : Nat
  phase : Phase := .held

/-- Sessions are numbered as they are made; `owner` is the id that one was made for. -/
structure Registry where
  sessions : String → Option Nat := fun _ => none
  stopped : String → Option Tombstone := fun _ => none
  lastPrune : Option Int := none
  made : Nat := 0
  owner : Nat → String := fun _ => ""
  cancelled : Nat → Bool := fun _ => false
  inflight : Nat → Int := fun _ => 0
  lastUsed : Nat → Int := fun _ => 0
  handles : List Handle := []

def touch (r : Registry) (s : Nat) (now : Int) : Registry := { r with lastUsed := update r.lastUsed s now }

/-- Nobody holds the session and it was not used for long. -/
def idle (r : Registry) (now : Int) (s : Nat) : Bool := r.inflight s == 0 && decide (sessionIdleTTL < now - r.lastUsed s)

def pruneLocked (r : Registry) (now : Int) : Registry :=
  if r.lastPrune.any (fun last => decide (now - last < pruneInterval)) then r
  else
    { r with
      lastPrune := some now
      sessions := fun id => (r.sessions id).filter (fun s => !idle r now s)
      cancelled := fun s => r.cancelled s || idle r now s && r.sessions (r.owner s) == some s
      stopped := fun id => (r.stopped id).filter (fun stone => decide (now - stone.at_ ≤ sessionIdleTTL)) }

/-- The live session of an id, made where there is none. -/
def ensure (r : Registry) (id : String) (now : Int) : Registry × Nat :=
  match r.sessions id with
  | some s => (r, s)
  | none =>
    ({ r with
      sessions := update r.sessions id (some r.made)
      owner := update r.owner r.made id
      made := r.made + 1
      lastUsed := update r.lastUsed r.made now }, r.made)

/-- The session, or nothing where the id is stopped (or empty). -/
def acquire (r : Registry) (id : String) (now : Int) : Registry × Option Nat :=
  if id.isEmpty then (r, none)
  else
    let r := pruneLocked r now
    if (r.stopped id).isSome then (r, none)
    else
      let (r, s) := ensure r id now
      (touch { r with inflight := update r.inflight s (r.inflight s + 1), handles := r.handles ++ [⟨s, .held⟩] } s now, some s)

def lookup (r : Registry) (id : String) (now : Int) : Registry × Option Nat :=
  if id.isEmpty then (r, none)
  else
    let r := pruneLocked r now
    match r.stopped id with
    | some stone => (r, stone.session)
    | none =>
      let (r, s) := ensure r id now
      (touch r s now, some s)

/-- The session that a `Stop` of the id leaves behind. -/
def finalSession (r : Registry) (id : String) : Option Nat :=
  match r.sessions id with
  | some s => some s
  | none => (r.stopped id).bind (·.session)

def stop (r : Registry) (id : String) (now : Int) : Registry :=
  if id.isEmpty then r
  else
    let r := pruneLocked r now
    { r with
      sessions := update r.sessions id none
      cancelled := fun s => r.cancelled s || r.sessions id == some s
      stopped := update r.stopped id (some ⟨finalSession r id, now⟩) }

inductive Event where
  | acquire (id : String) (now : Int)
  | lookup (id : String) (now : Int)
  | stop (id : String) (now : Int)
  /-- the two halves of a release -/
  | touch (handle : Nat) (now : Int)
  | drop (handle : Nat)

def step (r : Registry) : Event → Registry
  | .acquire id now => (acquire r id now).1
  | .lookup id now => (lookup r id now).1
  | .stop id now => stop r id now
  | .touch i now =>
    match r.handles[i]? with
    | some ⟨s, .held⟩ => { touch r s now with handles := r.handles.set i ⟨s, .touched⟩ }
    | _ => r
  | .drop i =>
    match r.handles[i]? with
    | some ⟨s, .touched⟩ => { r with inflight := update r.inflight s (r.inflight s - 1), handles := r.handles.set i ⟨s, .released⟩ }
    | _ => r

def run (events : List Event) : Registry := events.foldl step {}

/-- The clock as the registry reads it. -/
def Event.clock : Event → Option Int
  | .acquire _ now | .lookup _ now | .stop _ now => some now
  | _ => none

def Event.Stops (e : Event) (id : String) : Prop := ∃ now, e = .stop id now

/-! ## The registry -/

def inUse (s : Nat) (h : Handle) : Bool := h.session == s && h.phase != .released

structure Inv (r : Registry) : Prop where
  apart : ∀ id s, r.sessions id = some s → r.stopped id = none
  alive : ∀ id s, r.sessions id = some s → s < r.made ∧ r.owner s = id ∧ r.cancelled s = false
  fresh : ∀ s, r.cancelled s = true → s < r.made
  inflight : ∀ s, r.inflight s = (r.handles.countP (inUse s) : Int)
  held : ∀ h ∈ r.handles, h.phase ≠ .released →
    h.session < r.made ∧ (r.sessions (r.owner h.session) = some h.session ∨ r.cancelled h.session = true)

section
variable {r : Registry} {id : String} {s : Nat}

theorem inflight_pos (h : Inv r) {x : Handle} (hx : x ∈ r.handles) (hphase : x.phase ≠ .released) :
    r.inflight x.session ≠ 0 := by
  have hpos := countP_pos_iff.mpr ⟨x, hx, show inUse x.session x = true by simp [inUse, hphase]⟩
  rw [h.inflight]
  omega

/-! ## One call -/

variable (h : Inv r)

include h

theorem Inv.prune (now : Int) : Inv (pruneLocked r now) := by
  unfold pruneLocked
  split
  · exact h
  refine ⟨fun id s hlive => ?_, fun id s hlive => ?_, fun s hgone => ?_, h.inflight, fun x hx hphase => ?_⟩
  · show (r.stopped id).filter _ = none
    rw [h.apart id s (filter_eq_some_iff.mp hlive).1]
    rfl
  · obtain ⟨hlive, hkept⟩ := filter_eq_some_iff.mp hlive
    obtain ⟨hmade, howner, halive⟩ := h.alive id s hlive
    exact ⟨hmade, howner, by simp_all⟩
  · rcases Bool.or_eq_true_iff.mp hgone with hgone | hgone
    · exact h.fresh s hgone
    · exact (h.alive (r.owner s) s (eq_of_beq (Bool.and_eq_true_iff.mp hgone).2)).1
  have hkept : idle r now x.session = false := by simp [idle, inflight_pos h hx hphase]
  refine (h.held x hx hphase).imp_right (Or.imp (fun hlive => ?_) (fun hgone => ?_))
  · exact filter_eq_some_iff.mpr ⟨hlive, by rw [hkept]; rfl⟩
  · exact Bool.or_eq_true_iff.mpr (.inl hgone)

theorem Inv.ensure (hstone : r.stopped id = none) (now : Int) :
    Inv (ensure r id now).1 ∧ (ensure r id now).2 < (ensure r id now).1.made ∧
      (ensure r id now).1.sessions ((ensure r id now).1.owner (ensure r id now).2) = some (ensure r id now).2 := by
  unfold ScanSession.ensure
  split
  · next s hlive => exact ⟨h, (h.alive id s hlive).1, by rw [(h.alive id s hlive).2.1, hlive]⟩
  next hnone =>
  have hnew : r.cancelled r.made = false := by
    have := h.fresh r.made
    grind
  refine ⟨⟨fun x s hlive => ?_, fun x s hlive => ?_, fun s hgone => Nat.lt_succ_of_lt (h.fresh s hgone), h.inflight,
    fun x hx hphase => ?_⟩, Nat.lt_succ_self _, by simp⟩
  · have := h.apart x s
    grind
  · have := h.alive x s
    grind
  · have := h.held x hx hphase
    grind

theorem Inv.take (hmade : s < r.made) (hlive : r.sessions (r.owner s) = some s) :
    Inv { r with inflight := update r.inflight s (r.inflight s + 1), handles := r.handles ++ [⟨s, .held⟩] } := by
  refine ⟨h.apart, h.alive, h.fresh, fun x => ?_, fun x hx hphase => ?_⟩
  · have := h.inflight x
    by_cases hxs : x = s
    · simp_all [inUse]
    · simp_all [inUse, Ne.symm hxs]
  · rcases mem_append.mp hx with hx | hx
    · exact h.held x hx hphase
    · rw [mem_singleton.mp hx]
      exact ⟨hmade, .inl hlive⟩

theorem Inv.stop (id : String) (now : Int) : Inv (stop r id now) := by
  unfold ScanSession.stop
  split
  · exact h
  have hp := h.prune now
  generalize pruneLocked r now = r at hp
  refine ⟨fun x s hlive => ?_, fun x s hlive => ?_, fun s hgone => ?_, hp.inflight, fun x hx hphase => ?_⟩
  · have := hp.apart x s
    grind
  · have := hp.alive x s
    have := hp.alive id s
    grind
  · have := hp.fresh s
    have := hp.alive id s
    grind
  · have := hp.held x hx hphase
    grind

/-- A handle goes from one phase to the next; the count of its session goes with the last one. -/
theorem Inv.handle {i : Nat} {old : Phase} (new : Phase) (hi : r.handles[i]? = some ⟨s, old⟩) (hold : old ≠ .released)
    (n : Int) (hn : n = r.inflight s - if new = .released then 1 else 0) :
    Inv { r with inflight := update r.inflight s n, handles := r.handles.set i ⟨s, new⟩ } := by
  refine ⟨h.apart, h.alive, h.fresh, fun x => ?_, fun x hx hphase => ?_⟩
  · have hcount := countP_set_of_getElem? (inUse x) r.handles i ⟨s, old⟩ ⟨s, new⟩ hi
    have := h.inflight x
    by_cases hxs : x = s
    · subst hxs
      cases new <;> simp_all [inUse] <;> omega
    · simp_all [inUse, Ne.symm hxs]
  · rcases mem_or_eq_of_mem_set hx with hx | rfl
    · exact h.held x hx hphase
    · exact h.held ⟨s, old⟩ (mem_of_getElem? hi) hold

theorem Inv.touch (s : Nat) (now : Int) : Inv (touch r s now) := ⟨h.apart, h.alive, h.fresh, h.inflight, h.held⟩

theorem Inv.step (e : Event) : Inv (step r e) := by
  cases e with
  | acquire id now =>
    simp only [ScanSession.step, acquire]
    split
    · exact h
    split
    · exact h.prune now
    next hstone =>
    obtain ⟨hinv, hmade, hlive⟩ := (h.prune now).ensure (by simpa using hstone) now
    exact (hinv.take hmade hlive).touch _ _
  | lookup id now =>
    simp only [ScanSession.step, lookup]
    split
    · exact h
    split
    · exact h.prune now
    · next hstone => exact ((h.prune now).ensure hstone now).1.touch _ _
  | stop id now => exact h.stop id now
  | touch i now =>
    simp only [ScanSession.step]
    split
    · next s hi =>
      have hinv := (h.handle .touched hi nofun (r.inflight s) (by simp)).touch s now
      rwa [update_eq_self] at hinv
    · exact h
  | drop i =>
    simp only [ScanSession.step]
    split
    · next s hi => exact h.handle .released hi nofun _ rfl
    · exact h

omit h

/-- What calls that do not stop an id leave of it up to a time: its session in use, or its tombstone. -/
structure Leaves (id : String) (now : Int) (r r' : Registry) : Prop where
  session : ∀ s, r.sessions id = some s → r.inflight s ≠ 0 → r'.sessions id = some s
  stone : ∀ stone, r.stopped id = some stone → now ≤ stone.at_ + sessionIdleTTL → r'.stopped id = some stone

variable {now : Int}

theorem Leaves.refl : Leaves id now r r := ⟨fun _ hs _ => hs, fun _ hs _ => hs⟩

theorem prune_leaves {t : Int} (ht : t ≤ now) : Leaves id now r (pruneLocked r t) := by
  unfold pruneLocked
  split
  · exact .refl
  · exact ⟨fun s hlive hheld => filter_eq_some_iff.mpr ⟨hlive, by simp [idle, hheld]⟩,
      fun stone hstone hnow => filter_eq_some_iff.mpr ⟨hstone, decide_eq_true (by omega)⟩⟩

theorem ensure_leaves {t : Int} (ht : t ≤ now) (x : String) : Leaves id now r (ensure (pruneLocked r t) x t).1 := by
  obtain ⟨hsession, hstone⟩ := @prune_leaves r id now t ht
  unfold ensure
  split
  · exact ⟨hsession, hstone⟩
  · exact ⟨fun s hlive hheld => by grind, hstone⟩

theorem step_leaves {e : Event} (hstop : ¬ e.Stops id) (hclock : ∀ t ∈ e.clock, t ≤ now) :
    Leaves id now r (step r e) := by
  cases e with
  | acquire x t =>
    simp only [step, acquire]
    split
    · exact .refl
    split
    · exact prune_leaves (hclock t rfl)
    · obtain ⟨hsession, hstone⟩ := @ensure_leaves r id now t (hclock t rfl) x
      exact ⟨hsession, hstone⟩
  | lookup x t =>
    simp only [step, lookup]
    split
    · exact .refl
    split
    · exact prune_leaves (hclock t rfl)
    · obtain ⟨hsession, hstone⟩ := @ensure_leaves r id now t (hclock t rfl) x
      exact ⟨hsession, hstone⟩
  | stop x t =>
    obtain ⟨hsession, hstone⟩ := @prune_leaves r id now t (hclock t rfl)
    have hother : id ≠ x := fun heq => hstop ⟨t, by rw [heq]⟩
    simp only [step, stop]
    split
    · exact .refl
    · exact ⟨fun s hs hheld => (update_of_ne hother _ _).trans (hsession s hs hheld),
        fun s hs hnow => (update_of_ne hother _ _).trans (hstone s hs hnow)⟩
  | touch i t | drop i =>
    simp only [step]
    split <;> exact ⟨fun _ hs _ => hs, fun _ hs _ => hs⟩

end

/-- **Scan sessions.** In every state that calls reach: no id is live and stopped; a handle in use whose session no `Stop` cancelled
has the live session of the id, which only a `Stop` of it cancels and drops; and after a `Stop`, as long as the clock is within the
idle time of it and the id is not stopped again, the id is refused and `Lookup` gives what the `Stop` left. -/
theorem sessions_contract (events : List Event) :
    (∀ id, (run events).sessions id = none ∨ (run events).stopped id = none) ∧
      (∀ h ∈ (run events).handles, h.phase ≠ .released → (run events).cancelled h.session = false →
        (run events).sessions ((run events).owner h.session) = some h.session ∧
          ∀ e : Event, ¬ e.Stops ((run events).owner h.session) →
            (step (run events) e).sessions ((run events).owner h.session) = some h.session ∧
              (step (run events) e).cancelled h.session = false) ∧
      ∀ (id : String) (at_ : Int) (later : List Event) (now : Int), id.isEmpty = false →
        (∀ e ∈ later, ¬ e.Stops id ∧ ∀ t ∈ e.clock, t ≤ now) → now ≤ at_ + sessionIdleTTL →
        let r := later.foldl step (stop (run events) id at_)
        (acquire r id now).2 = none ∧ lookup r id now =
          (pruneLocked r now, finalSession (pruneLocked (run events) at_) id) := by
  have hinv : Inv (run events) :=
    foldl_keeps _ Inv (fun _ e h => h.step e) events {} ⟨nofun, nofun, nofun, fun _ => rfl, nofun⟩
  refine ⟨fun id => ?_, fun h hh hphase halive => ?_, fun id at_ later now hid hlater hnow => ?_⟩
  · cases hlive : (run events).sessions id with
    | none => exact .inl rfl
    | some s => exact .inr (hinv.apart id s hlive)
  · have hlive := (hinv.held h hh hphase).2.resolve_right (by simp [halive])
    refine ⟨hlive, fun e hstop => ?_⟩
    have hkept := (@step_leaves _ _ (e.clock.getD 0) e hstop (fun t ht =>
      by rw [ht]; exact Int.le_refl t)).session _ hlive
      (inflight_pos hinv hh hphase)
    exact ⟨hkept, ((hinv.step e).alive _ _ hkept).2.2⟩
  · have hstone : (later.foldl step (stop (run events) id at_)).stopped id =
        some ⟨finalSession (pruneLocked (run events) at_) id, at_⟩ := by
      refine (@allMeet_of_forall _ _ step _ _ hlater _).keeps
        (P := fun r => r.stopped id = some ⟨finalSession (pruneLocked (run events) at_) id, at_⟩)
        (fun r e he h => (step_leaves he.1 he.2).stone _ h hnow) ?_
      simp [stop, hid]
    have hprune := (prune_leaves (Int.le_refl now)).stone _ hstone hnow
    simp [acquire, lookup, hid, hprune]

/-- A handle that outlives the tombstone of its id, which is acquired again. -/
def outlived : List Event :=
  [.acquire "scan" 0, .stop "scan" 1, .acquire "scan" (2 * sessionIdleTTL)]

theorem outlived_handles :
    (run outlived).sessions "scan" = some 1 ∧
      (run outlived).handles.map (fun h => (h.session, (run outlived).owner h.session, h.phase)) =
        [(0, "scan", .held), (1, "scan", .held)] := by
  decide

end Waterdisco.ScanSession
