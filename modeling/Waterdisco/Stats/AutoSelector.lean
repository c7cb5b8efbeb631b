import Waterdisco.Lib.Runs
import Mathlib.Logic.Function.Basic

/-!
# The auto selector monitor

`AutoSelectorMonitor` polls the core for the state of the selector that runs, translates the
positional tags of its members into profiles, keeps their latencies and asks for a new pool
once every member has failed for a while.  A poll is a query and three locked sections, between
which a rebuild may come.

    setBuild now infos m         the build that was started
    wantedTag m                  the first section of a poll
    translate m status next      the second one: the view and the number of usable members
    publish now usable next m    the third one: the monitor and whether a new pool is asked for
-/

namespace Waterdisco.Stats.AutoSelector

/-! ## Data -/

/-- A member is null when its profile is gone. -/
structure BuildInfo where
  groupTag : String
  profile : Option Int
  members : List (String × Option Int)
deriving DecidableEq

/-- What the core says of a member. -/
structure MemberStatus where
  tag : String
  state : String
  averageMs : Int
  probes : Int
deriving DecidableEq

structure Status where
  tag : String
  phase : String
  suspended : Bool
  membersProbed : Int
  members : List MemberStatus
deriving DecidableEq

structure MemberView where
  tag : String
  profileID : Int
  state : String
  averageMs : Int
  probes : Int
deriving DecidableEq

structure View where
  valid : Bool := false
  groupTag : String := ""
  profileID : Int := -1
  phase : String := ""
  suspended : Bool := false
  membersProbed : Int := 0
  exhaustedSinceMs : Nat := 0
  members : List MemberView := []

structure Monitor where
  view : View := {}
  tagToProfile : String → Option Int := fun _ => none
  groupTag : String := ""
  profileID : Int := -1
  active : Bool := false
  exhaustedSince : Nat := 0
  lastRebuildRequest : Nat := 0
  rebuildBackoffSecs : Nat := 0
  lastHealthPersist : Nat := 0

def kPoolExhaustedGraceSecs : Nat := 20

def kRebuildBackoffMinSecs : Nat := 60

def kRebuildBackoffMaxSecs : Nat := 600

def kHealthPersistSecs : Nat := 60

namespace MemberView

def isDead (e : MemberView) : Bool := e.state == "dead"

def isUsable (e : MemberView) : Bool := e.state == "ok" || e.state == "degraded"

/-- An untested member has not failed, only not been reached. -/
def countsAsUsable (e : MemberView) : Bool := e.isUsable || e.state == "untested"

/-- The latency that is kept of a member, -1 for one whose samples all failed. -/
def healthLatency (e : MemberView) : Option Int :=
  if e.profileID < 0 ∨ e.probes = 0 then none
  else if e.isUsable && decide (0 < e.averageMs) then some e.averageMs
  else if e.isDead then some (-1)
  else none

end MemberView

/-! ## Builds -/

def tagMap (members : List (String × Option Int)) : String → Option Int :=
  members.foldl
    (fun map member =>
      match member.2 with
      | some id => Function.update map member.1 (some id)
      | none => map)
    (fun _ => none)

/-- What the tags of a build stand for; there is one selector in a build. -/
def tagsOf : List BuildInfo → String → Option Int
  | [] => fun _ => none
  | info :: _ => tagMap info.members

/-- The view of a status, before its members are translated. -/
def nextView (wantedTag : String) (status : Status) : View :=
  { valid := true, groupTag := wantedTag, phase := status.phase, suspended := status.suspended
    membersProbed := status.membersProbed }

/-- A suspended core never counts as an exhausted pool. -/
def everythingDead (usable : Nat) (next : View) : Bool :=
  usable == 0 && decide (0 < next.membersProbed) && !next.suspended && next.phase != "starting"

def nextBackoff (secs : Nat) : Nat :=
  if secs = 0 then kRebuildBackoffMinSecs else min (secs * 2) kRebuildBackoffMaxSecs

namespace Monitor

def clear (m : Monitor) : Monitor :=
  { m with active := false, view := {}, tagToProfile := fun _ => none, exhaustedSince := 0, groupTag := "", profileID := -1 }

/-- An ordinary profile has no infos. -/
def setBuild (now : Nat) (infos : List BuildInfo) (m : Monitor) : Monitor :=
  match infos with
  | [] => m.clear
  | info :: _ =>
    { m.clear with
      groupTag := info.groupTag
      profileID := info.profile.getD (-1)
      tagToProfile := tagsOf infos
      view := { valid := true, groupTag := info.groupTag, profileID := info.profile.getD (-1), phase := "starting" }
      lastHealthPersist := now
      active := true }

/-! ## Polls -/

def wantedTag (m : Monitor) : Option String := if m.active then some m.groupTag else none

def memberView (m : Monitor) (member : MemberStatus) : MemberView :=
  { tag := member.tag, profileID := (m.tagToProfile member.tag).getD (-1), state := member.state
    averageMs := member.averageMs, probes := member.probes }

def translate (m : Monitor) (status : Status) (next : View) : View × Nat :=
  let members := status.members.map m.memberView
  ({ next with profileID := m.profileID, members }, members.countP MemberView.countsAsUsable)

/-- When the pool became exhausted, 0 for not. -/
def exhaustedFrom (now usable : Nat) (next : View) (m : Monitor) : Nat :=
  if !everythingDead usable next then 0 else if m.exhaustedSince = 0 then now else m.exhaustedSince

/-- The grace has passed, and the back-off since the last request. -/
def fires (now usable : Nat) (next : View) (m : Monitor) : Bool :=
  let since := exhaustedFrom now usable next m
  since != 0 && decide (kPoolExhaustedGraceSecs * 1000 ≤ now - since) &&
    (m.lastRebuildRequest == 0 || decide (m.rebuildBackoffSecs * 1000 ≤ now - m.lastRebuildRequest))

def publish (now usable : Nat) (next : View) (m : Monitor) : Option (Monitor × Bool) :=
  if !m.active then none
  else
    let since := exhaustedFrom now usable next m
    let fire := fires now usable next m
    let backoff := if fire then nextBackoff m.rebuildBackoffSecs else m.rebuildBackoffSecs
    some
      ({ m with
          exhaustedSince := if fire then 0 else since
          lastRebuildRequest := if fire then now else m.lastRebuildRequest
          rebuildBackoffSecs := if 0 < usable then 0 else backoff
          view := { next with exhaustedSinceMs := since } }, fire)

/-- The locked part of `PersistHealth`: the members to store. -/
def persistHealth (now : Nat) (m : Monitor) : Option (Monitor × List MemberView) :=
  if !m.active || !m.view.valid || m.view.suspended then none
  else some ({ m with lastHealthPersist := now }, m.view.members)

end Monitor

end Waterdisco.Stats.AutoSelector
