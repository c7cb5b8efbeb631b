import Mathlib.Algebra.Ring.Int.Defs
import Mathlib.Algebra.Ring.Nat
import Mathlib.Data.List.Count
import Mathlib.Data.List.Infix
import Mathlib.Data.List.Nodup
import Mathlib.Data.List.Perm.Basic
import Waterdisco.Sys.KillSwitch

/-!
# Start requests

`ConnectionManager::start` answers a request with `startFinished` at once, or parks it:
in `m_killSwitchDeferredStart` while the kill switch arms, in `m_coreStartRequest` until
a core is up, behind a ranking of the auto selector, or in a start worker.  What moves a
request on is a handler of the main thread, and a handler is one step here; where
`onCoreStarted` calls into the kill switch and `setTun` it is cut in two.

What the manager only reads (settings, repositories, the supervisor, the kill switch)
is a `World`, and may be another one in every step.  A run numbers the requests that its
events pass to `start`, and keeps the list of them.

    the request number n → answered once, or held in one place      (run_accounts)
-/

namespace Waterdisco.Engine

open List

inductive StartOutcome where
  | started
  | exiting
  | notFound
  | groupUnavailable
  | killSwitchInactive
  | superseded
  | coreUnavailable
  | buildFailed
  | busy
  | extraCoreBlocked
  | geoAssetsMissing
  | strictRouteUnavailable
  | tunFailed
  | startFailed
deriving DecidableEq

structure StartRequest where
  profileId : Int := -1
  interactive : Bool := true
  serial : Nat := 0
  number : Option Nat := none
deriving DecidableEq

/-- One `startFinished`, which names the serial and the profile of the request. -/
structure Answer where
  request : StartRequest
  outcome : StartOutcome
  error : String
deriving DecidableEq

structure Profile where
  gid : Int
  autoSelector : Bool

/-- What the manager reads.  `group` is the `archive` flag of a group, `needsRanking` what
`PlanAutoSelector` says of a profile and `buildError` what `BuildSingBoxConfig` says. -/
structure World where
  prepareExit : Bool
  profile : Int → Option Profile
  disabled : Int → Bool
  group : Int → Option Bool
  killSwitch : Sys.State
  failureText : String
  guardExpired : Bool
  runningWithoutGuardIdentity : Bool
  haveCore : Bool
  awaitingCoreStarted : Bool
  canStartCore : Bool
  lastFailure : String
  coreRunning : Bool
  startedId : Int
  needsRanking : Int → Bool
  buildError : Int → String
  stopping : Bool

/-- `ConnectionManager`, with `startWhenUp` of the supervisor and the ranking of the auto
selector.  `killSwitchWaiters` counts the waiters it has registered, `coreStartedCalls`
are the calls of `onCoreStarted` that are under way, and `starting` is `mu_starting`. -/
structure Manager where
  killSwitchDeferredStart : StartRequest := {}
  killSwitchWaiters : Nat := 0
  coreStartRequest : StartRequest := {}
  guardCoreRestart : Bool := false
  bootSerial : Nat := 0
  killSwitchWasFailed : Bool := false
  killSwitchWasArmed : Bool := false
  lastProfileId : Int := -1
  startWhenUp : Int := -1
  coreStartedCalls : List Int := []
  rankedFor : Int := -1
  rankingInFlight : Int := 0
  rankings : List StartRequest := []
  starting : Bool := false
  workers : List StartRequest := []
  answers : List Answer := []

/-! ## The manager -/

def startFinished (m : Manager) (request : StartRequest) (outcome : StartOutcome) (error : String) : Manager :=
  { m with answers := m.answers ++ [{ request, outcome, error }] }

def guardRestartPending (m : Manager) (w : World) : Bool := m.guardCoreRestart && !w.guardExpired

def deferStartToCore (m : Manager) (request : StartRequest) : Manager :=
  let m := if 0 ≤ m.coreStartRequest.profileId then startFinished m m.coreStartRequest .superseded "" else m
  { m with coreStartRequest := request }

def setStartWhenUp (m : Manager) (w : World) (profileId : Int) : Manager :=
  if w.haveCore then { m with startWhenUp := profileId } else m

def restartCoreForGuard (m : Manager) (w : World) (request : StartRequest) : Manager :=
  let m := setStartWhenUp m w request.profileId
  if w.haveCore = false then startFinished m request .coreUnavailable ""
  else
    let m := deferStartToCore m request
    if guardRestartPending m w then m else { m with guardCoreRestart := true }

/-- Only the latest request survives while the kill switch arms. -/
def deferToKillSwitch (m : Manager) (request : StartRequest) : Manager :=
  if 0 ≤ m.killSwitchDeferredStart.profileId then
    { startFinished m m.killSwitchDeferredStart .superseded "" with killSwitchDeferredStart := request }
  else { m with killSwitchDeferredStart := request, killSwitchWaiters := m.killSwitchWaiters + 1 }

/-- `start`, once no ranking is needed. -/
def launch (m : Manager) (w : World) (request : StartRequest) : Manager :=
  let error := w.buildError request.profileId
  if error ≠ "" then startFinished m request .buildFailed error
  else if m.starting then startFinished m request .busy "Another profile is starting..."
  else if w.stopping then startFinished m request .busy "Another profile is stopping..."
  else if w.awaitingCoreStarted then setStartWhenUp (deferStartToCore m request) w request.profileId
  else if w.coreRunning = false then
    if w.canStartCore = false then startFinished m request .coreUnavailable w.lastFailure
    else { deferStartToCore m request with startWhenUp := request.profileId }
  else { m with starting := true, workers := m.workers ++ [request] }

/-- `rankBeforeStart`, and what `start` does when it returns false. -/
def rankOrLaunch (m : Manager) (w : World) (ent : Profile) (request : StartRequest) : Manager :=
  let justRanked := decide (m.rankedFor = request.profileId)
  let m := { m with rankedFor := -1 }
  if ent.autoSelector = false ∨ 0 < m.rankingInFlight ∨ justRanked ∨ w.needsRanking request.profileId = false then
    launch m w request
  else { m with rankingInFlight := m.rankingInFlight + 1, rankings := m.rankings ++ [request] }

def start (m : Manager) (w : World) (request : StartRequest) : Manager :=
  if w.prepareExit then startFinished m request .exiting ""
  else match if 0 ≤ request.profileId then w.profile request.profileId else none with
  | none => startFinished m request .notFound ""
  | some ent =>
    if w.disabled request.profileId then startFinished m request .notFound "Profile is disabled"
    else
      let m := { m with lastProfileId := request.profileId }
      if w.group ent.gid ≠ some false then startFinished m request .groupUnavailable ""
      else if w.killSwitch = .arming then deferToKillSwitch m request
      else if w.killSwitch ≠ .disabled ∧ w.killSwitch ≠ .armed then
        startFinished m request .killSwitchInactive w.failureText
      else if guardRestartPending m w ∨ w.killSwitch = .armed ∧ w.runningWithoutGuardIdentity then
        restartCoreForGuard m w request
      else rankOrLaunch m w ent request

/-- The callback of `whenSettled`. -/
def onKillSwitchSettled (m : Manager) (w : World) : Manager :=
  if m.killSwitchWaiters = 0 then m
  else
    let next := m.killSwitchDeferredStart
    let m := { m with killSwitchWaiters := m.killSwitchWaiters - 1, killSwitchDeferredStart := {} }
    if 0 ≤ next.profileId then start m w next else m

def onKillSwitchStateChanged (m : Manager) (w : World) : Manager :=
  let enteredArmed := decide (w.killSwitch = .armed) && !m.killSwitchWasArmed
  let m := { m with killSwitchWasFailed := w.killSwitch = .failed, killSwitchWasArmed := w.killSwitch = .armed }
  if enteredArmed && !guardRestartPending m w && w.runningWithoutGuardIdentity then
    if w.awaitingCoreStarted ∧ 0 ≤ m.startWhenUp then
      -- the start waiting for the probing core has not run yet; the guard restart carries it over
      if 0 ≤ m.coreStartRequest.profileId then
        restartCoreForGuard { m with coreStartRequest := {} } w m.coreStartRequest
      else restartCoreForGuard m w { profileId := m.startWhenUp }
    else restartCoreForGuard m w { profileId := w.startedId }
  else m

def setBootStart (m : Manager) (request : StartRequest) : Manager :=
  deferStartToCore { m with bootSerial := request.serial } request

/-- `onCoreStarted`, up to where it calls out: `coreStarted` has taken `m_startWhenUp`. -/
def onCoreStartedCalled (m : Manager) : Manager :=
  { m with startWhenUp := -1, coreStartedCalls := m.startWhenUp :: m.coreStartedCalls, guardCoreRestart := false }

/-- What `onCoreStarted` passes to `start`. -/
def nextRequest (m : Manager) (id : Int) : StartRequest :=
  if m.coreStartRequest.profileId = id then m.coreStartRequest else { profileId := id }

def nextNumbered (m : Manager) (id : Int) (number : Nat) : StartRequest :=
  { nextRequest m id with number := some ((nextRequest m id).number.getD number) }

/-- The rest of `onCoreStarted`; `tunHeld` is `m_tunRestoreHeld` and `why` its reason.  A
request without a number gets `number`. -/
def onCoreStarted (m : Manager) (w : World) (tunHeld : Bool) (why : String) (number : Nat) : Manager :=
  match m.coreStartedCalls with
  | [] => m
  | id :: calls =>
    let request := m.coreStartRequest
    let next := nextNumbered m id number
    let bootSerial := m.bootSerial
    let m := { m with coreStartedCalls := calls, coreStartRequest := {}, bootSerial := 0 }
    let m := if 0 ≤ request.profileId ∧ request.profileId ≠ id then startFinished m request .superseded "" else m
    if 0 ≤ id then
      if tunHeld ∧ next.serial ≠ 0 ∧ next.serial = bootSerial then
        startFinished m next .tunFailed
          ("Tun could not be restored (" ++ why ++ "); the profile was not started without it.")
      else start m w next
    else m

def onCoreGaveUp (m : Manager) (reason : String) : Manager :=
  let request := m.coreStartRequest
  let m := { m with guardCoreRestart := false, coreStartRequest := {} }
  if 0 ≤ request.profileId then startFinished m request .coreUnavailable reason else m

/-! ## Rankings and workers -/

def startRanked (m : Manager) (w : World) (request : StartRequest) : Manager :=
  { start { m with rankedFor := request.profileId } w request with rankedFor := -1 }

/-- The resume of the ranking number `k`: early, while its sweep goes on, or after it. -/
def onRanked (m : Manager) (w : World) (k : Nat) (early : Bool) : Manager :=
  match m.rankings[k]? with
  | none => m
  | some request =>
    let m := { m with rankings := m.rankings.eraseIdx k
                      rankingInFlight := if early then m.rankingInFlight else m.rankingInFlight - 1 }
    startRanked m w request

/-- What a start worker comes back with. -/
structure WorkerResult where
  extraCorePath : String
  extraCorePermitted : Bool
  rpcOk : Bool
  error : String
  geoError : Bool

def errorHas (error pattern : String) : Bool := decide (pattern.toList <:+: error.toList)

def workerOutcome (r : WorkerResult) : StartOutcome × String :=
  if r.extraCorePath ≠ "" ∧ r.extraCorePermitted = false then (.extraCoreBlocked, "")
  else if r.rpcOk = false then (.coreUnavailable, "")
  else if r.error = "" then (.started, "")
  else if r.geoError then (.geoAssetsMissing, r.error)
  else if errorHas r.error.toLower "fwpm" then (.strictRouteUnavailable, r.error)
  else if errorHas r.error "configure tun interface" then (.tunFailed, r.error)
  else (.startFailed, r.error)

def onWorkerFinished (m : Manager) (k : Nat) (r : WorkerResult) : Manager :=
  match m.workers[k]? with
  | none => m
  | some request =>
    startFinished { m with workers := m.workers.eraseIdx k } request (workerOutcome r).1 (workerOutcome r).2

/-! ## Runs -/

/-- What the main thread may dispatch next. -/
inductive Event where
  | start (w : World) (request : StartRequest)
  | bootStart (request : StartRequest)
  | killSwitchStateChanged (w : World)
  | killSwitchSettled (w : World)
  | coreStartedCalled
  | coreStarted (w : World) (tunHeld : Bool) (why : String)
  | coreGaveUp (reason : String)
  | cancelResume
  | resumeAfterExit (profileId : Int)
  | ranked (w : World) (k : Nat) (early : Bool)
  | sweepFinished
  | poolExhausted
  | startRanked (w : World) (request : StartRequest)
  | workerUnlocked
  | workerFinished (k : Nat) (r : WorkerResult)

def numbered (number : Nat) (request : StartRequest) : StartRequest := { request with number := some number }

/-- `number` is for the request that the event brings. -/
def step (m : Manager) (number : Nat) : Event → Manager
  | .start w request => start m w (numbered number request)
  | .bootStart request => if 0 ≤ request.profileId then setBootStart m (numbered number request) else m
  | .killSwitchStateChanged w => onKillSwitchStateChanged m w
  | .killSwitchSettled w => onKillSwitchSettled m w
  | .coreStartedCalled => onCoreStartedCalled m
  | .coreStarted w tunHeld why => onCoreStarted m w tunHeld why number
  | .coreGaveUp reason => onCoreGaveUp m reason
  | .cancelResume => { m with startWhenUp := -1 }
  | .resumeAfterExit profileId => { m with startWhenUp := profileId }
  | .ranked w k early => onRanked m w k early
  | .sweepFinished => { m with rankingInFlight := m.rankingInFlight - 1 }
  | .poolExhausted => { m with rankingInFlight := m.rankingInFlight + 1 }
  | .startRanked w request => startRanked m w (numbered number request)
  | .workerUnlocked => { m with starting := false }
  | .workerFinished k r => onWorkerFinished m k r

/-- The request that an event brings: that of a call from outside, and what `onCoreStarted`
passes to `start` for a core that nobody has asked for, or that a guard restart has. -/
def Event.request (m : Manager) : Event → List StartRequest
  | start _ request | startRanked _ request => [request]
  | bootStart request => if 0 ≤ request.profileId then [request] else []
  | coreStarted _ _ _ =>
    match m.coreStartedCalls with
    | [] => []
    | id :: _ => if 0 ≤ id ∧ (nextRequest m id).number = none then [nextRequest m id] else []
  | _ => []

structure Run where
  manager : Manager := {}
  requests : List StartRequest := []

/-- The requests are numbered in the order in which the events bring them. -/
def dispatch (r : Run) (e : Event) : Run where
  manager := step r.manager r.requests.length e
  requests := r.requests ++ (e.request r.manager).map (numbered r.requests.length)

def run (events : List Event) : Run := events.foldl dispatch {}

/-! ## Where a request is -/

/-- A slot is empty while its profile is negative. -/
def slot (request : StartRequest) : List StartRequest := if 0 ≤ request.profileId then [request] else []

/-- The requests that are parked. -/
def held (m : Manager) : List StartRequest :=
  slot m.killSwitchDeferredStart ++ (slot m.coreStartRequest ++ (m.rankings ++ m.workers))

/-- How often the request `r` was answered, and how often it is held. -/
def account (m : Manager) (r : StartRequest) : Nat := (m.answers.map (·.request)).count r + (held m).count r

def weight (request r : StartRequest) : Nat := if request = r then 1 else 0

/-- The waiter is registered as long as the slot is taken. -/
def WaiterOk (m : Manager) : Prop := m.killSwitchWaiters = if 0 ≤ m.killSwitchDeferredStart.profileId then 1 else 0

/-- `m'` is `m` after the request was answered or parked. -/
structure Passed (m m' : Manager) (request : StartRequest) : Prop where
  accounts : ∀ r, r.number ≠ none → account m' r = account m r + weight request r
  waiter : WaiterOk m → WaiterOk m'

theorem count_slot (request r : StartRequest) :
    (slot request).count r = if 0 ≤ request.profileId then weight request r else 0 := by
  unfold slot weight
  split
  · simp [count_singleton]
  · simp

theorem slot_empty (r : StartRequest) : (slot {}).count r = 0 := by simp [slot]

theorem passed_startFinished (m : Manager) (request : StartRequest) (outcome : StartOutcome) (error : String) :
    Passed m (startFinished m request outcome error) request where
  accounts r _ := by
    simp only [account, startFinished, held, weight, map_append, map_cons, map_nil, count_append,
      count_singleton, beq_iff_eq]
    omega
  waiter h := h

theorem account_deferStartToCore (m : Manager) (request : StartRequest) {r : StartRequest} (hr : r.number ≠ none) :
    account (deferStartToCore m request) r = account m r + (slot request).count r := by
  have hslot := count_slot m.coreStartRequest r
  dsimp only [deferStartToCore]
  split
  · rename_i htaken
    rw [if_pos htaken] at hslot
    have hanswer := (passed_startFinished m m.coreStartRequest .superseded "").accounts r hr
    simp only [account, held, count_append] at hanswer ⊢
    have hrest : (startFinished m m.coreStartRequest .superseded "").coreStartRequest = m.coreStartRequest := rfl
    rw [hrest] at hanswer
    omega
  · rename_i hfree
    rw [if_neg hfree] at hslot
    simp only [account, held, count_append]
    omega

/-- A request that has a profile, or no number, is not lost in a slot. -/
def Parkable (request : StartRequest) : Prop := 0 ≤ request.profileId ∨ request.number = none

variable {request r : StartRequest} {m : Manager} {requests : List StartRequest}

theorem weight_unnumbered (h : request.number = none) (hr : r.number ≠ none) : weight request r = 0 :=
  if_neg fun heq : request = r => hr (heq ▸ h)

theorem Parkable.count_slot (h : Parkable request) (hr : r.number ≠ none) :
    (slot request).count r = weight request r := by
  rw [Engine.count_slot]
  split
  · rfl
  rename_i hneg
  rcases h with h | h
  · exact absurd h hneg
  · exact (weight_unnumbered h hr).symm

theorem passed_deferStartToCore (m : Manager) (h : Parkable request) :
    Passed m (deferStartToCore m request) request where
  accounts r hr := by rw [account_deferStartToCore m request hr, h.count_slot hr]
  waiter hm := by
    dsimp only [deferStartToCore]
    split <;> exact hm

/-- The two hold the same requests. -/
structure SameRequests (m m' : Manager) : Prop where
  accounts : ∀ r, account m' r = account m r
  waiter : WaiterOk m → WaiterOk m'

theorem Passed.after {m₁ m' : Manager} (h : Passed m₁ m' request) (h₁ : SameRequests m m₁) :
    Passed m m' request where
  accounts r hr := by rw [h.accounts r hr, h₁.accounts r]
  waiter hm := h.waiter (h₁.waiter hm)

theorem Passed.before {m₁ m' : Manager} (h : Passed m m₁ request) (h₁ : SameRequests m₁ m') :
    Passed m m' request where
  accounts r hr := by rw [h₁.accounts r, h.accounts r hr]
  waiter hm := h₁.waiter (h.waiter hm)

theorem passed_restartCoreForGuard (m : Manager) (w : World) (h : Parkable request) :
    Passed m (restartCoreForGuard m w request) request := by
  dsimp only [restartCoreForGuard, setStartWhenUp]
  split
  · rename_i hcore
    rw [hcore]
    exact passed_startFinished m request .coreUnavailable ""
  rename_i hcore
  have hcore : w.haveCore = true := by simpa using hcore
  rw [if_pos hcore]
  have hd : Passed m (deferStartToCore { m with startWhenUp := request.profileId } request) request :=
    (passed_deferStartToCore _ h).after ⟨fun _ => rfl, id⟩
  split
  · exact hd
  · exact hd.before ⟨fun _ => rfl, id⟩

theorem passed_deferToKillSwitch (m : Manager) (h : 0 ≤ request.profileId) :
    Passed m (deferToKillSwitch m request) request := by
  have hslot := count_slot m.killSwitchDeferredStart
  have hnew : ∀ r, (slot request).count r = weight request r := fun r => by rw [Engine.count_slot, if_pos h]
  unfold deferToKillSwitch
  split
  · rename_i htaken
    refine ⟨fun r hr => ?_, fun hm => ?_⟩
    · have hn := hslot r
      rw [if_pos htaken] at hn
      have hanswer := (passed_startFinished m m.killSwitchDeferredStart .superseded "").accounts r hr
      have hrest : (startFinished m m.killSwitchDeferredStart .superseded "").killSwitchDeferredStart =
        m.killSwitchDeferredStart := rfl
      simp only [account, held, count_append] at hanswer ⊢
      rw [hrest] at hanswer
      have := hnew r
      omega
    · unfold WaiterOk at hm ⊢
      rw [if_pos htaken] at hm
      rw [if_pos h]
      exact hm
  rename_i hfree
  refine ⟨fun r _ => ?_, fun hm => ?_⟩
  · have hn := hslot r
    rw [if_neg hfree] at hn
    simp only [account, held, count_append]
    have := hnew r
    omega
  · unfold WaiterOk at hm ⊢
    rw [if_neg hfree] at hm
    rw [if_pos h]
    show m.killSwitchWaiters + 1 = 1
    omega

theorem passed_launch (m : Manager) (w : World) (h : 0 ≤ request.profileId) :
    Passed m (launch m w request) request := by
  have hd : Passed m (deferStartToCore m request) request := passed_deferStartToCore m (.inl h)
  dsimp only [launch]
  split
  · exact passed_startFinished m request _ _
  split
  · exact passed_startFinished m request _ _
  split
  · exact passed_startFinished m request _ _
  split
  · unfold setStartWhenUp
    split
    · exact hd.before ⟨fun _ => rfl, id⟩
    · exact hd
  split
  · split
    · exact passed_startFinished m request _ _
    · exact hd.before ⟨fun _ => rfl, id⟩
  refine ⟨fun r _ => ?_, id⟩
  simp only [account, held, weight, count_append, count_singleton, beq_iff_eq]
  omega

theorem passed_rankOrLaunch (m : Manager) (w : World) (ent : Profile)
    (h : 0 ≤ request.profileId) : Passed m (rankOrLaunch m w ent request) request := by
  dsimp only [rankOrLaunch]
  split
  · exact (passed_launch _ w h).after ⟨fun _ => rfl, id⟩
  refine ⟨fun r _ => ?_, id⟩
  simp only [account, held, weight, count_append, count_singleton, beq_iff_eq]
  omega

/-- A call of `start` answers the request or parks it. -/
theorem passed_start (m : Manager) (w : World) (request : StartRequest) : Passed m (start m w request) request := by
  unfold start
  split
  · exact passed_startFinished m request _ _
  split
  · exact passed_startFinished m request _ _
  rename_i hent
  have h : 0 ≤ request.profileId := by
    by_contra hneg
    rw [if_neg hneg] at hent
    cases hent
  split
  · exact passed_startFinished m request _ _
  have hsame : SameRequests m { m with lastProfileId := request.profileId } := ⟨fun _ => rfl, id⟩
  dsimp only
  split
  · exact (passed_startFinished _ request _ _).after hsame
  split
  · exact (passed_deferToKillSwitch _ h).after hsame
  split
  · exact (passed_startFinished _ request _ _).after hsame
  split
  · exact (passed_restartCoreForGuard _ w (.inl h)).after hsame
  · exact (passed_rankOrLaunch _ w _ h).after hsame

/-! ## Every step keeps the account -/

/-- Every one of the requests was answered once or is held in one place, but for `request`. -/
structure Out (m : Manager) (requests : List StartRequest) (request : StartRequest) : Prop where
  accounts : ∀ r, r.number ≠ none → account m r + weight request r = requests.count r
  waiter : WaiterOk m

structure Ok (m : Manager) (requests : List StartRequest) : Prop where
  accounts : ∀ r, r.number ≠ none → account m r = requests.count r
  waiter : WaiterOk m

/-- A request that comes in. -/
theorem Ok.out (h : Ok m requests) (request : StartRequest) : Out m (requests ++ [request]) request where
  accounts r hr := by
    rw [h.accounts r hr, count_append, count_singleton]
    simp only [weight, beq_iff_eq]
  waiter := h.waiter

theorem Ok.keeps (h : Ok m requests) : Ok m (requests ++ [].map (numbered requests.length)) := by
  rwa [map_nil, append_nil]

theorem Ok.unnumbered (h : Ok m requests) (hr : request.number = none) : Out m requests request where
  accounts r hn := by rw [h.accounts r hn, weight_unnumbered hr hn, Nat.add_zero]
  waiter := h.waiter

theorem Passed.ok {m' : Manager} (h : Passed m m' request) (hm : Out m requests request) : Ok m' requests where
  accounts r hr := by rw [h.accounts r hr, hm.accounts r hr]
  waiter := h.waiter hm.waiter

theorem Out.startRanked (h : Out m requests request) (w : World) : Ok (startRanked m w request) requests := by
  have hout : Out { m with rankedFor := request.profileId } requests request := ⟨h.accounts, h.waiter⟩
  have hok := (passed_start _ w _).ok hout
  exact ⟨hok.accounts, hok.waiter⟩

variable (h : Ok m requests)

include h

theorem Ok.killSwitchSettled (w : World) : Ok (onKillSwitchSettled m w) requests := by
  have hwaiter := h.waiter
  unfold WaiterOk at hwaiter
  dsimp only [onKillSwitchSettled]
  split
  · exact h
  rename_i hone
  have htaken : 0 ≤ m.killSwitchDeferredStart.profileId := by
    by_contra hfree
    rw [if_neg hfree] at hwaiter
    exact hone hwaiter
  rw [if_pos htaken] at hwaiter ⊢
  refine (passed_start _ w _).ok ⟨fun r hr => ?_, ?_⟩
  · have hn := h.accounts r hr
    have hslot := count_slot m.killSwitchDeferredStart r
    rw [if_pos htaken] at hslot
    have hempty := slot_empty r
    simp only [account, held, count_append] at hn ⊢
    omega
  · show m.killSwitchWaiters - 1 = _
    rw [hwaiter]
    rfl

theorem Ok.takeCore (r : StartRequest) (hr : r.number ≠ none) :
    account { m with coreStartRequest := {} } r +
      (if 0 ≤ m.coreStartRequest.profileId then weight m.coreStartRequest r else 0) = requests.count r := by
  have hn := h.accounts r hr
  have hslot := count_slot m.coreStartRequest r
  have hempty := slot_empty r
  simp only [account, held, count_append] at hn ⊢
  omega

theorem Ok.killSwitchStateChanged (w : World) : Ok (onKillSwitchStateChanged m w) requests := by
  dsimp only [onKillSwitchStateChanged]
  have hm : Ok { m with killSwitchWasFailed := decide (w.killSwitch = .failed)
                        killSwitchWasArmed := decide (w.killSwitch = .armed) } requests := ⟨h.accounts, h.waiter⟩
  split
  · split
    · split
      · rename_i htaken
        refine (passed_restartCoreForGuard _ w (.inl htaken)).ok ⟨fun r hr => ?_, hm.waiter⟩
        have hn := hm.takeCore r hr
        rwa [if_pos htaken] at hn
      · exact (passed_restartCoreForGuard _ w (.inr rfl)).ok (hm.unnumbered rfl)
    · exact (passed_restartCoreForGuard _ w (.inr rfl)).ok (hm.unnumbered rfl)
  · exact hm

theorem Ok.coreGaveUp (reason : String) : Ok (onCoreGaveUp m reason) requests := by
  dsimp only [onCoreGaveUp]
  have hn := h.takeCore
  split
  · rename_i htaken
    simp only [if_pos htaken] at hn
    exact (passed_startFinished _ _ _ _).ok ⟨hn, h.waiter⟩
  rename_i hfree
  simp only [if_neg hfree, Nat.add_zero] at hn
  exact ⟨hn, h.waiter⟩

omit h

/-- `onCoreStarted` numbers what it passes on, where it has no number. -/
theorem Out.numbered (h : Out m requests request) (n : Nat) :
    Out m (requests ++ (if request.number = none then [request] else []).map (numbered n))
      { request with number := some (request.number.getD n) } := by
  cases hnumber : request.number with
  | none =>
    have hok : Ok m requests := by
      refine ⟨fun r hr => ?_, h.waiter⟩
      rw [← h.accounts r hr, weight_unnumbered hnumber hr, Nat.add_zero]
    exact hok.out (Engine.numbered n request)
  | some k =>
    rw [if_neg (by simp), map_nil, append_nil, Option.getD_some, ← hnumber]
    exact h

theorem Ok.coreStarted (h : Ok m requests) (w : World) (tunHeld : Bool) (why : String) :
    Ok (onCoreStarted m w tunHeld why requests.length)
      (requests ++ ((Event.coreStarted w tunHeld why).request m).map (numbered requests.length)) := by
  dsimp only [onCoreStarted, Event.request]
  split
  · exact h.keeps
  rename_i id calls _
  have hn := h.takeCore
  have hpassed : ∀ {m' : Manager}, Out m' requests (nextRequest m id) → ∀ refused : Prop, ∀ [Decidable refused] error,
      Ok (if refused then startFinished m' (nextNumbered m id requests.length) .tunFailed error
          else start m' w (nextNumbered m id requests.length))
        (requests ++ (if (nextRequest m id).number = none then [nextRequest m id] else []).map (numbered requests.length)) := by
    intro m' hout refused _ error
    split
    · exact (passed_startFinished _ _ _ _).ok (hout.numbered _)
    · exact (passed_start _ w _).ok (hout.numbered _)
  by_cases hsame : m.coreStartRequest.profileId = id
  · rw [if_neg fun hother : 0 ≤ m.coreStartRequest.profileId ∧ m.coreStartRequest.profileId ≠ id => hother.2 hsame]
    by_cases hid : 0 ≤ id
    · simp only [hid, true_and, if_true]
      refine hpassed ?_ _ _
      rw [nextRequest, if_pos hsame]
      simp only [hsame, if_pos hid] at hn
      exact ⟨hn, h.waiter⟩
    · simp only [hid, false_and, if_false, map_nil, append_nil]
      simp only [hsame, if_neg hid, Nat.add_zero] at hn
      exact ⟨hn, h.waiter⟩
  have hok : Ok (if 0 ≤ m.coreStartRequest.profileId ∧ m.coreStartRequest.profileId ≠ id then
      startFinished { m with coreStartedCalls := calls, coreStartRequest := {}, bootSerial := 0 } m.coreStartRequest .superseded ""
      else { m with coreStartedCalls := calls, coreStartRequest := {}, bootSerial := 0 }) requests := by
    by_cases htaken : 0 ≤ m.coreStartRequest.profileId
    · rw [if_pos ⟨htaken, hsame⟩]
      simp only [if_pos htaken] at hn
      exact (passed_startFinished _ _ _ _).ok ⟨hn, h.waiter⟩
    · rw [if_neg fun hother : _ ∧ _ => htaken hother.1]
      simp only [if_neg htaken, Nat.add_zero] at hn
      exact ⟨hn, h.waiter⟩
  by_cases hid : 0 ≤ id
  · simp only [hid, true_and, if_true]
    refine hpassed (hok.unnumbered ?_) _ _
    rw [nextRequest, if_neg hsame]
  · simpa only [hid, false_and, if_false, map_nil, append_nil] using hok

theorem count_eraseIdx {l : List StartRequest} {k : Nat} (h : l[k]? = some request) (r : StartRequest) :
    (l.eraseIdx k).count r + weight request r = l.count r := by
  obtain ⟨hk, hget⟩ := List.getElem?_eq_some_iff.1 h
  have hcount := (getElem_cons_eraseIdx_perm hk).count_eq r
  rw [count_cons, hget] at hcount
  simpa [weight] using hcount

theorem Ok.ranked (h : Ok m requests) (w : World) (k : Nat) (early : Bool) : Ok (onRanked m w k early) requests := by
  dsimp only [onRanked]
  split
  · exact h
  rename_i request hget
  have hout : Out { m with rankings := m.rankings.eraseIdx k
                           rankingInFlight := if early then m.rankingInFlight else m.rankingInFlight - 1 }
      requests request := by
    refine ⟨fun r hr => ?_, h.waiter⟩
    have hn := h.accounts r hr
    have herase := count_eraseIdx hget r
    simp only [account, held, count_append] at hn ⊢
    omega
  exact hout.startRanked w

theorem Ok.workerFinished (h : Ok m requests) (k : Nat) (r : WorkerResult) : Ok (onWorkerFinished m k r) requests := by
  dsimp only [onWorkerFinished]
  split
  · exact h
  rename_i request hget
  refine (passed_startFinished _ request _ _).ok ⟨fun r hr => ?_, h.waiter⟩
  have hn := h.accounts r hr
  have herase := count_eraseIdx hget r
  simp only [account, held, count_append] at hn ⊢
  omega

theorem Ok.step (h : Ok m requests) (e : Event) :
    Ok (step m requests.length e) (requests ++ (e.request m).map (numbered requests.length)) := by
  cases e with
  | start w request => exact (passed_start m w _).ok (h.out (numbered requests.length request))
  | bootStart request =>
    dsimp only [Engine.step, Event.request]
    split
    · rename_i hid
      have hpark : Parkable (numbered requests.length request) := .inl hid
      have hout := h.out (numbered requests.length request)
      exact (passed_deferStartToCore _ hpark).ok ⟨hout.accounts, hout.waiter⟩
    · exact h.keeps
  | coreStarted w tunHeld why => exact h.coreStarted w tunHeld why
  | startRanked w request => exact (h.out (numbered requests.length request)).startRanked w
  | killSwitchStateChanged w => exact (h.killSwitchStateChanged w).keeps
  | killSwitchSettled w => exact (h.killSwitchSettled w).keeps
  | coreGaveUp reason => exact (h.coreGaveUp reason).keeps
  | ranked w k early => exact (h.ranked w k early).keeps
  | workerFinished k r => exact (h.workerFinished k r).keeps
  | coreStartedCalled | cancelResume | resumeAfterExit profileId | sweepFinished | poolExhausted | workerUnlocked =>
    exact Ok.keeps ⟨h.accounts, h.waiter⟩

/-! ## The promise -/

/-- How often the request `r` is held in the slot of the kill switch, in the slot of the core,
behind a ranking, and in a worker. -/
def places (m : Manager) (r : StartRequest) : List Nat :=
  [(slot m.killSwitchDeferredStart).count r, (slot m.coreStartRequest).count r, m.rankings.count r, m.workers.count r]

/-- The request `r` was answered once and is held nowhere, or is not answered yet and held in
exactly one place; if that is the slot of the kill switch, a waiter is registered. -/
structure Accounted (m : Manager) (r : StartRequest) : Prop where
  once : (m.answers.map (·.request.number)).count r.number ≤ 1
  held : (m.answers.map (·.request)).count r + (places m r).sum = 1
  waiter : (slot m.killSwitchDeferredStart).count r = 1 → m.killSwitchWaiters = 1

theorem request_one (e : Event) (m : Manager) : e.request m = [] ∨ ∃ request, e.request m = [request] := by
  cases e with
  | start _ request | startRanked _ request => exact .inr ⟨request, rfl⟩
  | bootStart request =>
    dsimp only [Event.request]
    split
    · exact .inr ⟨request, rfl⟩
    · exact .inl rfl
  | coreStarted _ _ _ =>
    dsimp only [Event.request]
    split
    · exact .inl rfl
    split
    · exact .inr ⟨_, rfl⟩
    · exact .inl rfl
  | _ => exact .inl rfl

/-- The requests of a run have the numbers from 0 on. -/
theorem numbers_run (events : List Event) :
    (run events).requests.map (·.number) = (range (run events).requests.length).map some := by
  refine foldl_keeps dispatch (fun r => r.requests.map (·.number) = (range r.requests.length).map some) (fun r e h => ?_)
    events {} rfl
  dsimp only [dispatch]
  rcases request_one e r.manager with hnone | ⟨request, hone⟩
  · rw [hnone, map_nil, append_nil, h]
  · rw [hone, map_append, h, length_append, length_map, length_singleton, range_succ, map_append]
    rfl

theorem count_number_le {l l' : List StartRequest} (h : ∀ r, r.number ≠ none → l.count r ≤ l'.count r) (n : Nat) :
    (l.map (·.number)).count (some n) ≤ (l'.map (·.number)).count (some n) := by
  have hlength : ∀ l : List StartRequest, (l.map (·.number)).count (some n) =
    (l.filter (·.number == some n)).length := by
    intro l
    rw [count, countP_map, countP_eq_length_filter]
    rfl
  rw [hlength, hlength]
  refine (subperm_ext_iff.mpr fun r hr => ?_).length_le
  have hnumber := (mem_filter.mp hr).2
  have hcount : ∀ l : List StartRequest, (l.filter (·.number == some n)).count r = l.count r :=
    fun l => count_filter hnumber
  rw [hcount, hcount]
  exact h r (by simp [beq_iff_eq.mp hnumber])

/-- **No start request is lost, and none is answered twice**: whatever the order of the
calls, signals, rankings and workers. -/
theorem run_accounts (events : List Event) (n : Fin (run events).requests.length) :
    Accounted (run events).manager (run events).requests[n] := by
  have hrun : Ok (run events).manager (run events).requests :=
    foldl_keeps dispatch (fun r => Ok r.manager r.requests) (fun r e h => h.step e) events {}
      ⟨fun r _ => by simp [account, held, slot], rfl⟩
  have hnumbers := numbers_run events
  have hnodup : ((run events).requests.map (·.number)).Nodup := by
    rw [hnumbers]
    exact nodup_range.map fun _ _ => Option.some.inj
  have hnumber : (run events).requests[n].number = some n.val := by
    have hget := congrArg (·[n.val]?) hnumbers
    simpa using hget
  have hn := hrun.accounts (run events).requests[n] (by rw [hnumber]; exact Option.some_ne_none _)
  have hmem : (run events).requests[n] ∈ (run events).requests := getElem_mem n.isLt
  rw [count_eq_one_of_mem hnodup.of_map hmem] at hn
  simp only [account, Engine.held, count_append] at hn
  refine ⟨?_, ?_, ?_⟩
  · have hle := count_number_le (fun r hr => (Nat.le_add_right _ _).trans_eq (hrun.accounts r hr)) n
    rw [map_map] at hle
    rw [hnumber]
    exact le_trans hle (nodup_iff_count_le_one.mp hnodup (some n))
  · simp only [places, sum_cons, sum_nil]
    omega
  intro hslot
  have hwaiter := hrun.waiter
  rw [count_slot] at hslot
  unfold WaiterOk at hwaiter
  split at hslot
  · rename_i htaken
    rwa [if_pos htaken] at hwaiter
  · cases hslot

/-- Every profile may start, once the kill switch is settled. -/
def settling (killSwitch : Sys.State) : World where
  prepareExit := false
  profile _ := some { gid := 0, autoSelector := false }
  disabled _ := false
  group _ := some false
  killSwitch := killSwitch
  failureText := ""
  guardExpired := true
  runningWithoutGuardIdentity := false
  haveCore := true
  awaitingCoreStarted := false
  canStartCore := true
  lastFailure := ""
  coreRunning := true
  startedId := -1
  needsRanking _ := false
  buildError _ := ""
  stopping := false

/-- Two starts while the kill switch arms, and a worker that comes back. -/
def armingStarts : List Event :=
  [.start (settling .arming) { profileId := 3 }, .start (settling .arming) { profileId := 5 },
    .killSwitchSettled (settling .disabled),
    .workerFinished 0 { extraCorePath := "", extraCorePermitted := false, rpcOk := true, error := "", geoError := false }]

/-- The first request is superseded, the second one starts. -/
theorem run_accounts_arming :
    (run armingStarts).manager.answers.map (fun answer => (answer.request.profileId, answer.outcome)) =
        [(3, .superseded), (5, .started)] ∧
      Accounted (run armingStarts).manager { profileId := 3, number := some 0 } ∧
      Accounted (run armingStarts).manager { profileId := 5, number := some 1 } :=
  ⟨by decide, run_accounts armingStarts ⟨0, by decide⟩, run_accounts armingStarts ⟨1, by decide⟩⟩

end Waterdisco.Engine
