import Mathlib.Data.List.Basic
import Waterdisco.Lib.Runs

/-!
# The kill switch

`KillSwitch` keeps a guard process in front of the system's traffic: `active_` is the
guard that reported READY, `pending_` the one that is to replace it.  Its handlers
run on one thread, but not one after the other: `stateChanged` and the callbacks of
`whenSettled` and `whenIdle` are called from inside of them and may call back.  So a
handler is cut where it calls out.  What is left of it is a `Frame` on the stack of
the machine, any event may come while frames are left, and `resume` runs the top one.

Guards are numbered as they are created, and so are the waiters; `called` and
`dropped` keep the callbacks made and those whose context was gone.
-/

namespace Waterdisco.Sys

inductive State where
  | disabled
  | arming
  | armed
  | failed
deriving DecidableEq

inductive Platform where
  | linux
  | windows
  | macos
deriving DecidableEq

/-- The settings that the kill switch reads, and the port of `SetApiPort`. -/
structure Settings where
  killSwitch : Bool
  disablePrivateRangeBypass : Bool := false
  vpnTunIpv4Cidr : String := ""
  vpnTunIpv6Cidr : String := ""
  extraCorePaths : List String := []
  vpnL3Bridge : Bool := false
  apiPort : Nat := 0
deriving DecidableEq

/-- The keys of the guard's JSON. -/
structure GuardConfig where
  allowLan : Bool
  tunName : String
  tunCidrs : List String
  extraPaths : List String
  bridgeName : String
  apiPort : Nat
deriving DecidableEq

/-- The system under the switch: how it spells a path, and which paths it takes for
the same (`Qt::CaseInsensitive`). -/
structure Host where
  platform : Platform
  nativePath : String → String
  samePath : String → String → Bool

def tunName (host : Host) : String :=
  if host.platform = .macos then "" else "throne-tun"

def bridgeName (host : Host) (settings : Settings) : String :=
  if host.platform = .linux ∧ settings.vpnL3Bridge then "throne-br" else ""

def addExtraPath (host : Host) (paths : List String) (path : String) : List String :=
  let native := host.nativePath path
  if native ≠ "" ∧ paths.any (host.samePath native) = false then paths ++ [native] else paths

def buildConfig (host : Host) (settings : Settings) : GuardConfig :=
  { allowLan := !settings.disablePrivateRangeBypass
    tunName := tunName host
    tunCidrs := [settings.vpnTunIpv4Cidr, settings.vpnTunIpv6Cidr]
    extraPaths := if host.platform = .windows then settings.extraCorePaths.foldl (addExtraPath host) [] else []
    bridgeName := bridgeName host settings
    apiPort := settings.apiPort }

/-- `QProcess::state()`, where `started` stays after the exit. -/
inductive Process where
  | notStarted
  | starting
  | started
deriving DecidableEq

/-- `GuardProcess`; `keepStates` is what `launch` has more than `config`. -/
structure Guard where
  config : GuardConfig
  keepStates : Bool
  ready : Bool := false
  closing : Bool := false
  process : Process := .notStarted

structure Waiter where
  id : Nat
  bound : Bool
  idle : Bool
deriving DecidableEq

structure Switch where
  host : Host
  settings : Settings := { killSwitch := false }
  state : State := .disabled
  identityUnsupported : Bool := false
  identityDetail : String := ""
  overridden : Bool := false
  guards : List Guard := []
  active : Option Nat := none
  pending : Option Nat := none
  failureCode : String := ""
  failureMessage : String := ""
  waiters : List Waiter := []
  nextWaiter : Nat := 0
  called : List (Nat × Bool) := []
  dropped : List Nat := []

/-- What is left of a call that has called out. -/
inductive Frame where
  | settle
  | settleLoop (waiting : List Waiter)
  | applyRest
  | start (g : Nat)

def kPrivilege : String := "privilege"
def kUnsupported : String := "unsupported"
def kConfig : String := "config"
def kInternal : String := "internal"
def kCrash : String := "crash"
def kTimeout : String := "timeout"
def kOverridden : String := "overridden"

def kReadyTimeoutMs : Nat := 15000

/-! ## The switch -/

def allowsStart (s : Switch) : Bool := s.state = .disabled || s.state = .armed

def setGuard (s : Switch) (g : Nat) (f : Guard → Guard) : Switch := { s with guards := s.guards.modify g f }

def closeGuard (s : Switch) : Option Nat → Switch
  | none => s
  | some g => setGuard s g (fun guard => { guard with closing := true })

/-- `closeGuard(std::exchange(pending_, nullptr))` -/
def closePending (s : Switch) : Switch := closeGuard { s with pending := none } s.pending

/-- `closeGuard(std::exchange(active_, nullptr))` -/
def closeActive (s : Switch) : Switch := closeGuard { s with active := none } s.active

def setState (s : Switch) (state : State) : Switch :=
  if state = .failed then { s with state := state }
  else { s with state := state, failureCode := "", failureMessage := "" }

def fail (s : Switch) (code message : String) : Switch × List Frame :=
  (setState { s with failureCode := code, failureMessage := message } .failed, [.settle])

def killSwitchIdentityMessage (detail : String) : String :=
  let message := "the core cannot adopt the kill-switch group 1950896719 here (it needs CAP_SETGID and that GID " ++
    "mapped in this user namespace); the kill switch keeps blocking traffic, and profiles stay " ++
    "refused until kill_switch is turned off"
  if detail = "" then message else message ++ "; the core reported: " ++ detail

def failIdentity (s : Switch) : Switch × List Frame :=
  let message := killSwitchIdentityMessage s.identityDetail
  if s.state ≠ .failed ∨ s.failureCode ≠ kUnsupported ∨ s.failureMessage ≠ message then
    (setState { s with failureCode := kUnsupported, failureMessage := message } .failed, [.settle])
  else (s, [.settle])

def spawn (s : Switch) (config : GuardConfig) : Switch × List Frame :=
  let s := closePending s
  let g := s.guards.length
  let guard : Guard := { config := config, keepStates := s.active.isSome }
  let s := { s with guards := s.guards ++ [guard], pending := some g }
  (if s.active = none ∧ s.identityUnsupported = false then setState s .arming else s, [.start g])

def hasConfig (s : Switch) (guard : Option Nat) (config : GuardConfig) : Bool :=
  guard.any (fun g => s.guards[g]?.any (fun x => decide (x.config = config)))

/-- `apply`, after the settings and the identity have been looked at. -/
def applyRest (s : Switch) : Switch × List Frame :=
  let config := buildConfig s.host s.settings
  if hasConfig s s.pending config then (s, [])
  else if hasConfig s s.active config then
    if s.pending.isSome then (closePending s, [.settle]) else (s, [])
  else spawn s config

def overriddenMessage : String :=
  "turned off for this run by --no-kill-switch (THRONE_KILL_SWITCH); profiles stay refused " ++
    "until kill_switch is turned off"

def apply (s : Switch) : Switch × List Frame :=
  if s.settings.killSwitch = false then
    let s := closeActive (closePending { s with identityUnsupported := false, identityDetail := "" })
    (setState s .disabled, [.settle])
  else if s.overridden then
    let s := closeActive (closePending s)
    if s.state = .failed ∧ s.failureCode = kOverridden ∧ s.failureMessage = overriddenMessage then (s, [.settle])
    else fail s kOverridden overriddenMessage
  else if s.identityUnsupported ∧ s.state = .armed then
    let (s, frames) := failIdentity s
    (s, frames ++ [.applyRest])
  else applyRest s

def noteIdentityUnsupported (s : Switch) (detail : String) : Switch × List Frame :=
  apply { s with identityDetail := detail, identityUnsupported := true }

/-! ## The guards' events -/

/-- `singleShot(kRespawnIntervalMs, …)` is the event `retry`. -/
def armFailed (s : Switch) (code message : String) : Switch × List Frame :=
  if s.active.isSome then (s, [.settle]) else fail s code message

def recoverable (code : String) : Bool := code ≠ kPrivilege && code ≠ kUnsupported && code ≠ kConfig

/-- `respawnDue` is what `lastRespawn_` says. -/
def protectionLost (s : Switch) (code message : String) (respawnDue : Bool) : Switch × List Frame :=
  if s.settings.killSwitch = false then apply s
  else if s.pending.isSome then
    (if s.identityUnsupported = false then setState s .arming else s, [.settle])
  else if recoverable code && respawnDue then spawn s (buildConfig s.host s.settings)
  else fail s code message

def isReady (s : Switch) (g : Nat) : Bool := s.guards[g]?.any (fun guard => guard.ready)

def isClosing (s : Switch) (g : Nat) : Bool := s.guards[g]?.any (fun guard => guard.closing)

def onReady (s : Switch) (g : Nat) : Switch × List Frame :=
  if s.pending ≠ some g ∨ isReady s g then (s, [])
  else
    let s := setGuard s g (fun guard => { guard with ready := true })
    let s := closeGuard { s with active := some g, pending := none } s.active
    if s.identityUnsupported then failIdentity s else (setState s .armed, [.settle])

def onReadyTimeout (s : Switch) (g : Nat) : Switch × List Frame :=
  if s.pending ≠ some g ∨ isReady s g then (s, [])
  else
    armFailed (closeGuard { s with pending := none } (some g)) kTimeout
      ("the kill switch did not respond within " ++ toString (kReadyTimeoutMs / 1000) ++ " seconds")

/-- The guard is neither active nor pending any more, and closing. -/
def dropGuard (s : Switch) (g : Nat) : Switch :=
  closeGuard { s with active := if s.active = some g then none else s.active
                      pending := if s.pending = some g then none else s.pending } (some g)

/-- What the end of an open guard means: of the active one, of the pending one, of
another. -/
def guardFailed (s : Switch) (g : Nat) (code lost unarmed : String) (respawnDue : Bool) : Switch × List Frame :=
  if s.active = some g then protectionLost (dropGuard s g) code lost respawnDue
  else if s.pending = some g then armFailed (dropGuard s g) code unarmed
  else (dropGuard s g, [])

/-- `line.section(' ', 0, 0)` -/
def verb (line : String) : String := String.ofList (line.toList.takeWhile (· ≠ ' '))

/-- `line.section(' ', 1)` -/
def rest (line : String) : String := String.ofList ((line.toList.dropWhile (· ≠ ' ')).drop 1)

def handleLine (s : Switch) (g : Nat) (line : String) (respawnDue : Bool) : Switch × List Frame :=
  if verb line = "WARN" then (s, [])
  else if verb line = "READY" then onReady s g
  else if verb line ≠ "ERROR" ∧ verb line ≠ "FAIL" then (s, [])
  else if isClosing s g then (s, [])
  else guardFailed s g (verb (rest line)) (rest (rest line)) (rest (rest line)) respawnDue

def onStartFailed (s : Switch) (g : Nat) (program errorString : String) : Switch × List Frame :=
  let message := "could not start " ++ program ++ ": " ++ errorString
  if isClosing s g = false ∧ s.pending = some g then
    armFailed (closeGuard { s with pending := none } (some g)) kInternal message
  else (closeGuard s (some g), [])

/-- `onFinished`; the output that is left is read first, as lines of their own. -/
def onFinished (s : Switch) (g : Nat) (exitCode : Int) (crashed respawnDue : Bool) : Switch × List Frame :=
  if isClosing s g then (s, [])
  else
    let text := if crashed then "the kill switch process crashed"
      else "the kill switch process exited with code " ++ toString exitCode
    guardFailed s g kCrash text (text ++ " before it was ready") respawnDue

/-! ## The waiters -/

/-- The condition a waiter waits under. -/
def waits (s : Switch) (w : Waiter) : Bool := if w.idle then s.pending.isSome else decide (s.state = .arming)

def callBack (s : Switch) (id : Nat) : Switch :=
  { s with called := s.called ++ [(id, decide (s.state = .armed))] }

/-- `whenSettled`, or `whenIdle` for an idle waiter: it waits, or is called at once. -/
def enqueue (s : Switch) (bound idle : Bool) : Switch :=
  let waiter : Waiter := { id := s.nextWaiter, bound := bound, idle := idle }
  let s' := { s with nextWaiter := s.nextWaiter + 1 }
  if waits s waiter then { s' with waiters := s.waiters ++ [waiter] } else callBack s' waiter.id

def whenSettled (s : Switch) (bound : Bool) : Switch := enqueue s bound false

def whenIdle (s : Switch) : Switch := enqueue s true true

/-- One waiter of the loop of `settle`; `alive` says whether its context is left. -/
def settleOne (s : Switch) (w : Waiter) (alive : Bool) : Switch :=
  if waits s w then { s with waiters := s.waiters ++ [w] }
  else if w.bound && !alive then { s with dropped := s.dropped ++ [w.id] }
  else callBack s w.id

/-- Runs a frame up to the next call out. -/
def runFrame (s : Switch) (alive : Bool) : Frame → Switch × List Frame
  | .settle => ({ s with waiters := [] }, [.settleLoop s.waiters])
  | .settleLoop [] => (s, [])
  | .settleLoop (w :: waiting) => (settleOne s w alive, [.settleLoop waiting])
  | .applyRest => applyRest s
  | .start g => (setGuard s g (fun guard =>
      if guard.process = .notStarted then { guard with process := .starting } else guard), [])

/-! ## The machine -/

structure Machine where
  switch : Switch
  stack : List Frame := []

/-- What can come next.  `apply` comes with the settings and the override it finds, and
`reconfigure` changes the other settings before anyone calls `apply`. -/
inductive Event where
  | apply (settings : Settings) (overridden : Bool)
  | reconfigure (settings : Settings)
  | noteIdentityUnsupported (detail : String)
  | whenSettled (bound : Bool)
  | whenIdle
  | started (g : Nat)
  | line (g : Nat) (line : String) (respawnDue : Bool)
  | finished (g : Nat) (exitCode : Int) (crashed respawnDue : Bool)
  | startFailed (g : Nat) (program errorString : String)
  | timeout (g : Nat)
  | retry (prepareExit : Bool)
  | resume (alive : Bool)

def processIs (s : Switch) (g : Nat) (process : Process) : Bool :=
  s.guards[g]?.any (fun guard => decide (guard.process = process))

/-- The handler of an event.  A process that has not started has neither output nor an
exit, and `FailedToStart` is an error of a process that is starting. -/
def handler (s : Switch) : Event → Switch × List Frame
  | .apply settings overridden => apply { s with settings := settings, overridden := overridden }
  | .reconfigure settings => ({ s with settings := { settings with killSwitch := s.settings.killSwitch } }, [])
  | .noteIdentityUnsupported detail => noteIdentityUnsupported s detail
  | .whenSettled bound => (whenSettled s bound, [])
  | .whenIdle => (whenIdle s, [])
  | .started g =>
    (setGuard s g (fun guard => if guard.process = .starting then { guard with process := .started } else guard), [])
  | .line g line respawnDue => if processIs s g .started then handleLine s g line respawnDue else (s, [])
  | .finished g exitCode crashed respawnDue =>
    if processIs s g .started then onFinished s g exitCode crashed respawnDue else (s, [])
  | .startFailed g program errorString =>
    if processIs s g .starting then onStartFailed s g program errorString else (s, [])
  | .timeout g => onReadyTimeout s g
  | .retry prepareExit => if s.pending.isSome ∨ s.active = none ∨ prepareExit then (s, []) else apply s
  | .resume _ => (s, [])

def step (m : Machine) : Event → Machine
  | .resume alive =>
    match m.stack with
    | [] => m
    | frame :: stack =>
      let (s, frames) := runFrame m.switch alive frame
      { switch := s, stack := frames ++ stack }
  | event =>
    let (s, frames) := handler m.switch event
    { switch := s, stack := frames ++ m.stack }

end Waterdisco.Sys
