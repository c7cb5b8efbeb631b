import Mathlib.Tactic.Basic
import Waterdisco.Lib.Runs

/-!
# The gate in front of an on-demand instance

A `Gate` starts an Xray instance for the first connection, relays connections to
it, and takes it down again in `Recycle`, `Close` and `sweep`.  Every section
under `mu` or `connsMu` and every access of an atomic outside of them is one
step here, and a run is any list of steps of any number of these calls.

What a step of `handle` and what a step of the other calls can do to the gate is
said once, in `HandleStep` and `CallStep` (`handle_spec`, `proceed_spec`).  The
counter of generations is a `Nat`: it grows by one with each retired instance.
-/

namespace Waterdisco.Xray

open Option List

/-- The two connections of the `handle` call number `k`. -/
inductive Conn where
  | client (k : Nat)
  | upstream (k : Nat)
deriving DecidableEq

/-- `Gate`.  Instances are numbered as they are started and carry their `targets`;
`started` and `closes` (the calls of `instance.Close`) are kept for the statements. -/
structure Gate where
  idle : Int
  instance? : Option Nat := none
  closed : Bool := false
  failedAt : Option Int := none
  generation : Nat := 1
  conns : Option (List (Conn × Nat)) := some []
  active : Int := 0
  lastUse : Int
  started : Nat := 0
  closes : List Nat := []
deriving DecidableEq

def gateStartAttempts : Nat := 3

/-- A second, in nanoseconds. -/
def gateStartCooldown : Int := 1000000000

/-- How one `startInstance` ends; a failed one has closed what it created. -/
inductive StartResult where
  | ok
  | addrInUse
  | failed

/-- The loop over the attempts from `attempt` on, `left` of them. -/
def startLoop (starts : Nat → StartResult) (attempt : Nat) : Nat → Bool
  | 0 => false
  | left + 1 =>
    match starts attempt with
    | .ok => true
    | .addrInUse => startLoop starts (attempt + 1) left
    | .failed => false

/-- `ensure`: the instance whose targets are handed out, and the generation. -/
def ensure (g : Gate) (now : Int) (starts : Nat → StartResult) : Gate × Option (Nat × Nat) :=
  if g.closed then (g, none)
  else match g.instance? with
  | some i => (g, some (i, g.generation))
  | none =>
    if g.failedAt.any (fun failedAt => now - failedAt < gateStartCooldown) then (g, none)
    else if startLoop starts 1 gateStartAttempts then
      ({ g with instance? := some g.started, failedAt := none, started := g.started + 1 },
        some (g.started, g.generation))
    else ({ g with failedAt := some now }, none)

def touch (g : Gate) (now : Int) : Gate := { g with lastUse := now }

def idleNow (g : Gate) (now : Int) : Bool :=
  decide (0 < g.idle) && decide (g.active = 0) && decide (g.idle ≤ now - g.lastUse)

def track (g : Gate) (conn : Conn) (generation : Nat) : Gate × Bool :=
  match g.conns with
  | none => (g, false)
  | some conns =>
    if generation ≠ 0 ∧ generation ≠ g.generation then (g, false)
    else ({ g with conns := some ((conn, generation) :: conns.filter (fun e => e.1 ≠ conn)) }, true)

def forget (g : Gate) (conn : Conn) : Gate :=
  { g with conns := g.conns.map (fun conns => conns.filter (fun e => e.1 ≠ conn)) }

def closeInstance (g : Gate) (i : Nat) : Gate := { g with closes := i :: g.closes }

/-! ## The calls -/

/-- Where a `handle` stands, named by what it has behind it; `i` is the instance it
was handed and `n` the generation. -/
inductive Handler where
  | accepted
  | tracked
  | counted
  | touched
  | handed (i n : Nat)
  | bound (i n : Nat)
  | dialed (i n : Nat)
  | relaying (i n : Nat)
  | leaving
  | uncounted
  | retouched
  | done
deriving DecidableEq

/-- What the steps of a call read from outside: the clock, how the starts go, and
whether the dial succeeds. -/
structure Input where
  now : Int
  starts : Nat → StartResult
  dial : Bool

/-- One step of the `handle` call number `k`. -/
def handle (g : Gate) (k : Nat) (input : Input) : Handler → Gate × Handler
  | .accepted =>
    match track g (.client k) 0 with
    | (g, true) => (g, .tracked)
    | (g, false) => (g, .done)
  | .tracked => ({ g with active := g.active + 1 }, .counted)
  | .counted => (touch g input.now, .touched)
  | .touched =>
    match ensure g input.now input.starts with
    | (g, some (i, n)) => (g, .handed i n)
    | (g, none) => (g, .leaving)
  | .handed i n =>
    match track g (.client k) n with
    | (g, true) => (g, .bound i n)
    | (g, false) => (g, .leaving)
  | .bound i n => (g, if input.dial then .dialed i n else .leaving)
  | .dialed i n =>
    match track g (.upstream k) n with
    | (g, true) => (g, .relaying i n)
    | (g, false) => (g, .leaving)
  -- both relays are over: the deferred calls follow, the last one first
  | .relaying _ _ => (forget g (.upstream k), .leaving)
  | .leaving => ({ g with active := g.active - 1 }, .uncounted)
  | .uncounted => (touch g input.now, .retouched)
  | .retouched => (forget g (.client k), .done)
  | .done => (g, .done)

/-- A `Recycle`: before its section under `mu`, before its section under `connsMu`
and so on; `cold` is the call that found no instance. -/
inductive Recycle where
  | retire
  | collect (i retired : Nat)
  | shut (i retired : Nat) (stale : List Conn)
  | closed (i retired : Nat) (stale : List Conn)
  | cold
deriving DecidableEq

/-- A `Close`; `refused` is the call that found the gate closed. -/
inductive Close where
  | start
  | conns (instance? : Option Nat)
  | shut (instance? : Option Nat)
  | closed (instance? : Option Nat)
  | refused
deriving DecidableEq

/-- One tick of `sweep`.  The check outside of `mu` loads the two atomics one after the other. -/
inductive Sweep where
  | active
  | lastUse
  | take
  | shut (i : Nat)
  | closed (i : Nat)
  | skipped
deriving DecidableEq

inductive Call where
  | recycle (r : Recycle)
  | close (c : Close)
  | sweep (s : Sweep)
deriving DecidableEq

/-- The connections of a generation. -/
def staleOf (g : Gate) (retired : Nat) : List Conn :=
  ((g.conns.getD []).filter (fun e => e.2 = retired)).map Prod.fst

/-- One step of `Recycle`. -/
def recycle (g : Gate) : Recycle → Gate × Recycle
  | .retire =>
    match g.instance? with
    | none => (g, .cold)
    | some i => ({ g with instance? := none, generation := g.generation + 1 }, .collect i g.generation)
  | .collect i retired => (g, .shut i retired (staleOf g retired))
  | .shut i retired stale => (closeInstance g i, .closed i retired stale)
  | .closed i retired stale => (g, .closed i retired stale)
  | .cold => (g, .cold)

/-- One step of `Close`. -/
def close (g : Gate) : Close → Gate × Close
  | .start =>
    if g.closed then (g, .refused)
    else ({ g with closed := true, instance? := none }, .conns g.instance?)
  | .conns instance? => ({ g with conns := none }, .shut instance?)
  | .shut instance? =>
    match instance? with
    | none => (g, .closed none)
    | some i => (closeInstance g i, .closed (some i))
  | .closed instance? => (g, .closed instance?)
  | .refused => (g, .refused)

/-- One step of a tick of `sweep`. -/
def sweep (g : Gate) (now : Int) : Sweep → Gate × Sweep
  | .active => (g, if 0 < g.idle ∧ g.active = 0 then .lastUse else .skipped)
  | .lastUse => (g, if g.idle ≤ now - g.lastUse then .take else .skipped)
  | .take =>
    if idleNow g now then
      match g.instance? with
      | none => (g, .skipped)
      | some i => ({ g with instance? := none }, .shut i)
    else (g, .skipped)
  | .shut i => (closeInstance g i, .closed i)
  | .closed i => (g, .closed i)
  | .skipped => (g, .skipped)

/-- One step of a call that is not a `handle`. -/
def proceed (g : Gate) (now : Int) : Call → Gate × Call
  | .recycle r => ((recycle g r).1, .recycle (recycle g r).2)
  | .close c => ((close g c).1, .close (close g c).2)
  | .sweep s => ((sweep g now s).1, .sweep (sweep g now s).2)

/-- The gate with every call made on it. -/
structure World where
  gate : Gate
  handlers : List Handler := []
  calls : List Call := []

inductive Event where
  | accept
  | Recycle
  | Close
  | tick
  /-- The `handle` call number `k` makes its next step. -/
  | handle (k : Nat) (input : Input)
  /-- The call number `k` of the others makes its next step. -/
  | proceed (k : Nat) (now : Int)

def step (w : World) : Event → World
  | .accept => { w with handlers := w.handlers ++ [.accepted] }
  | .Recycle => { w with calls := w.calls ++ [.recycle .retire] }
  | .Close => { w with calls := w.calls ++ [.close .start] }
  | .tick => { w with calls := w.calls ++ [.sweep .active] }
  | .handle k input =>
    match w.handlers[k]? with
    | none => w
    | some h =>
      { w with gate := (handle w.gate k input h).1, handlers := w.handlers.set k (handle w.gate k input h).2 }
  | .proceed k now =>
    match w.calls[k]? with
    | none => w
    | some c => { w with gate := (proceed w.gate now c).1, calls := w.calls.set k (proceed w.gate now c).2 }

/-- `StartGate` at the time `now`, and what follows. -/
def run (idle now : Int) (events : List Event) : World :=
  events.foldl step { gate := { idle := idle, lastUse := now } }

/-! ## What the calls hold -/

/-- The instance a handler was handed and still uses. -/
def Handler.instance? : Handler → Option Nat
  | .handed i _ | .bound i _ | .dialed i _ | .relaying i _ => some i
  | _ => none

/-- Between `active.Add(1)` and `active.Add(-1)`. -/
def Handler.isCounted : Handler → Bool
  | .counted | .touched | .handed _ _ | .bound _ _ | .dialed _ _ | .relaying _ _ | .leaving => true
  | _ => false

open Handler (instance? isCounted)

/-- The instance a call has taken away from the gate. -/
def Call.took : Call → Option Nat
  | .recycle (.collect i _) | .recycle (.shut i _ _) | .recycle (.closed i _ _) => some i
  | .close (.conns i) | .close (.shut i) | .close (.closed i) => i
  | .sweep (.shut i) | .sweep (.closed i) => some i
  | _ => none

/-- The instance a call has closed. -/
def Call.shut : Call → Option Nat
  | .recycle (.closed i _ _) => some i
  | .close (.closed i) => i
  | .sweep (.closed i) => some i
  | _ => none

/-- The instance a tick of `sweep` has taken. -/
def Call.swept : Call → Option Nat
  | .sweep (.shut i) | .sweep (.closed i) => some i
  | _ => none

/-- The generation a `Recycle` has retired. -/
def Call.retired : Call → Option Nat
  | .recycle (.collect _ r) | .recycle (.shut _ r _) | .recycle (.closed _ r _) => some r
  | _ => none

/-- The generation and the stale set of a `Recycle` that has taken it. -/
def Call.stale : Call → Option (Nat × List Conn)
  | .recycle (.shut _ r stale) | .recycle (.closed _ r stale) => some (r, stale)
  | _ => none

/-- A `Close` between its two sections. -/
def Call.isClosing : Call → Bool
  | .close (.conns _) => true
  | _ => false

/-- A `Close` that has been through its section under `connsMu`. -/
def Call.hasCleared : Call → Bool
  | .close (.shut _) | .close (.closed _) => true
  | _ => false

open Call (hasCleared isClosing stale swept took)

/-- The tracked connections with their generations. -/
def tracked (g : Gate) : List (Conn × Nat) := g.conns.getD []

/-- One when the optional value is `i`. -/
def isOne (o : Option Nat) (i : Nat) : Nat := if o = some i then 1 else 0

/-! ## What one step does -/

structure HandleStep (g g' : Gate) (h h' : Handler) : Prop where
  generation : g'.generation = g.generation
  closed : g'.closed = g.closed
  closes : g'.closes = g.closes
  active : g'.active + (if h.isCounted then 1 else 0) = g.active + (if h'.isCounted then 1 else 0)
  owner : (g'.instance? = g.instance? ∧ g'.started = g.started) ∨
    (g.instance? = none ∧ g'.instance? = some g.started ∧ g'.started = g.started + 1)
  handed : ∀ i, h'.instance? = some i → h.instance? = some i ∨ g'.instance? = some i
  tracks : ∀ e ∈ tracked g', e ∈ tracked g ∨ e.2 = 0 ∨ e.2 = g.generation
  conns : g.conns = none → g'.conns = none

variable (g : Gate) (now : Int) (conn : Conn) (c : Call) (n : Nat)

theorem tracked_track :
    ∀ e ∈ tracked (track g conn n).1, e ∈ tracked g ∨ e.2 = 0 ∨ e.2 = g.generation := by
  intro e he
  unfold track at he
  split at he
  · exact .inl he
  rename_i conns hconns
  split at he
  · exact .inl he
  simp only [tracked, getD_some, mem_cons, mem_filter] at he
  rcases he with rfl | ⟨he, -⟩
  · right
    omega
  · left
    simpa [tracked, hconns] using he

theorem track_eq :
    (track g conn n).1 = { g with conns := (track g conn n).1.conns } ∧
      (g.conns = none → (track g conn n).1.conns = none) := by
  unfold track
  split
  · exact ⟨rfl, id⟩
  rename_i conns hconns
  refine ⟨?_, fun h => absurd h (by simp [hconns])⟩
  split <;> rfl

theorem mem_tracked_forget : ∀ e ∈ tracked (forget g conn), e ∈ tracked g := by
  intro e he
  unfold tracked forget at *
  cases hconns : g.conns with
  | none => simp [hconns] at he
  | some conns =>
    simp only [hconns, map_some, getD_some, mem_filter] at he
    exact he.1

/-- A step that only writes to `conns` through `track`, and keeps the handler counted as it was. -/
theorem handleStep_track (h h' : Handler) (hc : h'.isCounted = h.isCounted)
    (hi : ∀ i, h'.instance? = some i → h.instance? = some i) : HandleStep g (track g conn n).1 h h' := by
  obtain ⟨heq, hnone⟩ := track_eq g conn n
  have htracks := tracked_track g conn n
  rw [heq] at htracks ⊢
  exact
    { generation := rfl
      closed := rfl
      closes := rfl
      active := by rw [hc]
      owner := .inl ⟨rfl, rfl⟩
      handed := fun i h => .inl (hi i h)
      tracks := htracks
      conns := hnone }

theorem handleStep_forget (h h' : Handler) (hc : h'.isCounted = h.isCounted)
    (hi : h'.instance? = none) : HandleStep g (forget g conn) h h' :=
  { generation := rfl
    closed := rfl
    closes := rfl
    active := by rw [hc]; rfl
    owner := .inl ⟨rfl, rfl⟩
    handed := by simp [hi]
    tracks := fun e he => .inl (mem_tracked_forget g conn e he)
    conns := by intro h; simp [forget, h] }

/-- A step that writes to neither the instance nor `conns`. -/
theorem handleStep_atomic (active lastUse : Int) (h h' : Handler)
    (hc : active + (if h.isCounted then 1 else 0) = g.active + (if h'.isCounted then 1 else 0))
    (hi : ∀ i, h'.instance? = some i → h.instance? = some i) :
    HandleStep g { g with active := active, lastUse := lastUse } h h' :=
  { generation := rfl
    closed := rfl
    closes := rfl
    active := hc
    owner := .inl ⟨rfl, rfl⟩
    handed := fun i h => .inl (hi i h)
    tracks := fun _ he => .inl he
    conns := id }

/-- `ensure` hands out the instance it leaves behind, a started one or a new one. -/
theorem ensure_spec (starts : Nat → StartResult) :
    (∃ failedAt, ensure g now starts = ({ g with failedAt := failedAt }, none)) ∨
    (∃ i, g.instance? = some i ∧ ensure g now starts = (g, some (i, g.generation))) ∨
    (g.instance? = none ∧ ensure g now starts =
      ({ g with instance? := some g.started, failedAt := none, started := g.started + 1 },
        some (g.started, g.generation))) := by
  unfold ensure
  split
  · exact .inl ⟨g.failedAt, rfl⟩
  split
  · rename_i i hi
    exact .inr (.inl ⟨i, hi, rfl⟩)
  rename_i hi
  split
  · exact .inl ⟨g.failedAt, rfl⟩
  split
  · exact .inr (.inr ⟨hi, rfl⟩)
  · exact .inl ⟨some now, rfl⟩

theorem handle_spec (k : Nat) (input : Input) (h : Handler) :
    HandleStep g (handle g k input h).1 h (handle g k input h).2 := by
  cases h with
  | accepted =>
    simp only [handle]
    have ht := fun h' => handleStep_track g (.client k) 0 .accepted h'
    rcases hr : track g (.client k) 0 with ⟨g', ok⟩
    rw [hr] at ht
    cases ok with
    | false => exact ht .done rfl (by simp [instance?])
    | true => exact ht .tracked rfl (by simp [instance?])
  | tracked =>
    exact handleStep_atomic g (g.active + 1) g.lastUse .tracked .counted (by simp [isCounted])
      (by simp [instance?])
  | counted =>
    exact handleStep_atomic g g.active input.now .counted .touched rfl (by simp [instance?])
  | touched =>
    simp only [handle]
    rcases ensure_spec g input.now input.starts with ⟨failedAt, he⟩ | ⟨i, hi, he⟩ | ⟨hi, he⟩
    · rw [he]
      exact ⟨rfl, rfl, rfl, rfl, .inl ⟨rfl, rfl⟩, by simp [instance?], fun _ he => .inl he, id⟩
    · rw [he]
      refine ⟨rfl, rfl, rfl, rfl, .inl ⟨rfl, rfl⟩, ?_, fun _ he => .inl he, id⟩
      intro j hj
      simpa [instance?, hi] using hj
    · rw [he]
      exact ⟨rfl, rfl, rfl, rfl, .inr ⟨hi, rfl, rfl⟩, fun _ hj => .inr hj, fun _ he => .inl he, id⟩
  | handed i n =>
    simp only [handle]
    have ht := fun h' => handleStep_track g (.client k) n (.handed i n) h'
    rcases hr : track g (.client k) n with ⟨g', ok⟩
    rw [hr] at ht
    cases ok with
    | false => exact ht .leaving rfl (by simp [instance?])
    | true => exact ht (.bound i n) rfl (by simp [instance?])
  | bound i n =>
    simp only [handle]
    cases input.dial with
    | false => exact handleStep_atomic g g.active g.lastUse (.bound i n) .leaving rfl (by simp [instance?])
    | true =>
      exact handleStep_atomic g g.active g.lastUse (.bound i n) (.dialed i n) rfl (by simp [instance?])
  | dialed i n =>
    simp only [handle]
    have ht := fun h' => handleStep_track g (.upstream k) n (.dialed i n) h'
    rcases hr : track g (.upstream k) n with ⟨g', ok⟩
    rw [hr] at ht
    cases ok with
    | false => exact ht .leaving rfl (by simp [instance?])
    | true => exact ht (.relaying i n) rfl (by simp [instance?])
  | relaying i n => exact handleStep_forget g (.upstream k) (.relaying i n) .leaving rfl rfl
  | leaving =>
    exact handleStep_atomic g (g.active - 1) g.lastUse .leaving .uncounted (by simp [isCounted])
      (by simp [instance?])
  | uncounted =>
    exact handleStep_atomic g g.active input.now .uncounted .retouched rfl (by simp [instance?])
  | retouched => exact handleStep_forget g (.client k) .retouched .done rfl rfl
  | done => exact handleStep_atomic g g.active g.lastUse .done .done rfl (fun _ h => h)

/-- What a step of one of the other calls may do. -/
structure CallStep (g g' : Gate) (c c' : Call) : Prop where
  active : g'.active = g.active
  started : g'.started = g.started
  /-- The instance moves from the gate to the call. -/
  owner : ∀ i, isOne g'.instance? i + isOne c'.took i = isOne g.instance? i + isOne c.took i
  closes : ∀ i, g'.closes.count i + isOne c.shut i = g.closes.count i + isOne c'.shut i
  retired : (g'.generation = g.generation ∧ c'.retired = c.retired) ∨
    (g'.generation = g.generation + 1 ∧ c.retired = none ∧ c'.retired = some g.generation)
  tracks : ∀ e ∈ tracked g', e ∈ tracked g
  stale : ∀ r S, c'.stale = some (r, S) → c.stale = some (r, S) ∨ (c.retired = some r ∧ S = staleOf g r)
  swept : ∀ i, c'.swept = some i → c.swept = some i ∨ g.active = 0
  conns : g.conns = none → g'.conns = none
  cleared : c'.hasCleared = true → c.hasCleared = true ∨ g'.conns = none
  closed : g'.closed = true → g.closed = true ∨ c'.isClosing = true
  closing : c.isClosing = true → c'.isClosing = true ∨ g'.conns = none

theorem callStep_none (c' : Call) (htook : c'.took = c.took) (hshut : c'.shut = c.shut)
    (hret : c'.retired = c.retired) (hstale : c'.stale = c.stale) (hswept : c'.swept = c.swept)
    (hcl : c'.hasCleared = c.hasCleared) (hcg : c'.isClosing = c.isClosing) : CallStep g g c c' :=
  { active := rfl
    started := rfl
    owner := by intro i; rw [htook]
    closes := by intro i; rw [hshut]
    retired := .inl ⟨rfl, hret⟩
    tracks := fun _ he => he
    stale := by intro r S h; exact .inl (hstale ▸ h)
    swept := by intro j h; exact .inl (hswept ▸ h)
    conns := id
    cleared := by intro h; exact .inl (hcl ▸ h)
    closed := .inl
    closing := by intro h; exact .inl (hcg ▸ h) }

theorem callStep_refl : CallStep g g c c :=
  callStep_none g c c rfl rfl rfl rfl rfl rfl rfl

theorem callStep_close (i : Nat) (c c' : Call) (htook : c'.took = c.took) (hshut : c.shut = none)
    (hshut' : c'.shut = some i) (hret : c'.retired = c.retired) (hstale : c'.stale = c.stale)
    (hswept : c'.swept = c.swept) (hcl : c'.hasCleared = c.hasCleared) (hcg : c.isClosing = false) :
    CallStep g (closeInstance g i) c c' :=
  { active := rfl
    started := rfl
    owner := by intro j; rw [htook]; rfl
    closes := by
      rw [hshut, hshut']
      simp only [closeInstance, isOne, count_cons, beq_iff_eq, reduceCtorEq, if_false, some.injEq]
      omega
    retired := .inl ⟨rfl, hret⟩
    tracks := fun _ he => he
    stale := by intro r S h; exact .inl (hstale ▸ h)
    swept := by intro j h; exact .inl (hswept ▸ h)
    conns := id
    cleared := by intro h; exact .inl (hcl ▸ h)
    closed := .inl
    closing := by simp [hcg] }

theorem isOne_none (i : Nat) : isOne none i = 0 := rfl

theorem recycle_spec (r : Recycle) :
    CallStep g (recycle g r).1 (.recycle r) (.recycle (recycle g r).2) := by
  cases r with
  | retire =>
    simp only [recycle]
    cases hi : g.instance? with
    | none => exact callStep_none g _ _ rfl rfl rfl rfl rfl rfl rfl
    | some i =>
      exact
        { active := rfl
          started := rfl
          owner := by intro j; simp only [hi, took, isOne_none]; omega
          closes := fun _ => rfl
          retired := .inr ⟨rfl, rfl, rfl⟩
          tracks := fun _ he => he
          stale := by simp [stale]
          swept := by simp [swept]
          conns := id
          cleared := by simp [hasCleared]
          closed := .inl
          closing := by simp [isClosing] }
  | collect i retired =>
    exact
      { callStep_refl g (.recycle (.collect i retired)) with
        stale := by
          intro r S h
          obtain ⟨rfl, rfl⟩ := h
          exact .inr ⟨rfl, rfl⟩
        closing := by simp [isClosing] }
  | shut i retired stale => exact callStep_close g i _ _ rfl rfl rfl rfl rfl rfl rfl rfl
  | closed i retired stale => exact callStep_refl g _
  | cold => exact callStep_refl g _

theorem close_spec (c : Close) : CallStep g (close g c).1 (.close c) (.close (close g c).2) := by
  cases c with
  | start =>
    simp only [close]
    split
    · exact callStep_none g _ _ rfl rfl rfl rfl rfl rfl rfl
    exact
      { active := rfl
        started := rfl
        owner := by intro j; simp only [took, isOne_none]; omega
        closes := fun _ => rfl
        retired := .inl ⟨rfl, rfl⟩
        tracks := fun _ he => he
        stale := by simp [stale]
        swept := by simp [swept]
        conns := id
        cleared := by simp [hasCleared]
        closed := fun _ => .inr rfl
        closing := by simp [isClosing] }
  | conns i =>
    exact
      { active := rfl
        started := rfl
        owner := fun _ => rfl
        closes := fun _ => rfl
        retired := .inl ⟨rfl, rfl⟩
        tracks := by simp [close, tracked]
        stale := by simp [stale]
        swept := by simp [swept]
        conns := fun _ => rfl
        cleared := fun _ => .inr rfl
        closed := .inl
        closing := fun _ => .inr rfl }
  | shut i =>
    cases i with
    | none => exact callStep_none g _ _ rfl rfl rfl rfl rfl rfl rfl
    | some i => exact callStep_close g i _ _ rfl rfl rfl rfl rfl rfl rfl rfl
  | closed i => exact callStep_refl g _
  | refused => exact callStep_refl g _

theorem sweep_spec (s : Sweep) :
    CallStep g (sweep g now s).1 (.sweep s) (.sweep (sweep g now s).2) := by
  cases s with
  | active =>
    simp only [sweep]
    split <;> exact callStep_none g _ _ rfl rfl rfl rfl rfl rfl rfl
  | lastUse =>
    simp only [sweep]
    split <;> exact callStep_none g _ _ rfl rfl rfl rfl rfl rfl rfl
  | take =>
    simp only [sweep]
    split
    · rename_i hidle
      cases hi : g.instance? with
      | none => exact callStep_none g _ _ rfl rfl rfl rfl rfl rfl rfl
      | some i =>
        have hactive : g.active = 0 := by
          simp only [idleNow, Bool.and_eq_true, decide_eq_true_eq] at hidle
          exact hidle.1.2
        exact
          { active := rfl
            started := rfl
            owner := by intro j; simp only [hi, took, isOne_none]; omega
            closes := fun _ => rfl
            retired := .inl ⟨rfl, rfl⟩
            tracks := fun _ he => he
            stale := by simp [stale]
            swept := fun _ _ => .inr hactive
            conns := id
            cleared := by simp [hasCleared]
            closed := .inl
            closing := by simp [isClosing] }
    · exact callStep_none g _ _ rfl rfl rfl rfl rfl rfl rfl
  | shut i => exact callStep_close g i _ _ rfl rfl rfl rfl rfl rfl rfl rfl
  | closed i => exact callStep_refl g _
  | skipped => exact callStep_refl g _

theorem proceed_spec : CallStep g (proceed g now c).1 c (proceed g now c).2 := by
  cases c with
  | recycle r => exact recycle_spec g r
  | close c => exact close_spec g c
  | sweep s => exact sweep_spec g now s

end Waterdisco.Xray
