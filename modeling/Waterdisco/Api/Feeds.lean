import Mathlib.Logic.Function.Basic

/-!
# The change feed of the remote API

`GET /v1/events` tells clients which topics changed since the cursor of their last answer.
A topic's number is the one of its last change; changes are announced, or found by a tick
that compares revisions and hashes with those of the tick before.  Ticks run while a
request is held.  The contents of topics are of any types, and so are the hashes.
-/

namespace Waterdisco.Feeds

/-! ## Topics and contents -/

inductive Topic where
  | Status
  | Groups
  | Profiles
  | Tests
  | Settings
deriving DecidableEq

/-- `kTopics`, in the order of an answer. -/
def topics : List Topic := [.Status, .Groups, .Profiles, .Tests, .Settings]

inductive Repo where
  | groups
  | profiles
  | routes
  | settings
deriving DecidableEq

/-- What the API shows: the status without the traffic counters, the groups with their profiles' ids, the profiles
themselves, and the settings. -/
structure Views (α β ρ τ : Type) where
  status : α
  groups : β
  rows : ρ
  settings : τ

structure Hashes (α β τ η : Type) where
  status : α → η
  groups : β → η
  settings : τ → η

abbrev Revisions := Repo → Nat

/-! ## The router -/

/-- An answer, with what was shown when it was produced. -/
structure Answer (α β ρ τ : Type) where
  cursor : Nat
  changes : List Topic
  views : Views α β ρ τ

structure Waiter where
  client : Nat
  after : Nat
  done : Bool := false

/-- `repoRevisions_` with the hashes that are taken along with it. -/
structure RepoBaseline (η : Type) where
  revisions : Revisions
  groupsHash : η
  settingsHash : η

/-- The router's feed, what the API shows, and each client's last answer. -/
structure Feed (α β ρ τ η : Type) where
  views : Views α β ρ τ
  revisions : Revisions
  changeSeq : Nat := 0
  topicSeqs : Topic → Nat := fun _ => 0
  eventWaiters : List Waiter := []
  eventSettle : Bool := false
  statusPoll : Bool := false
  statusHash : Option η := none
  repoRevisions : Option (RepoBaseline η) := none
  last : Nat → Option (Answer α β ρ τ) := fun _ => none
  /-- What was shown at the last tick that looked; the code does not keep it. -/
  seen : Option (Views α β ρ τ) := none

variable {α β ρ τ η : Type}

namespace Feed

def withWaiters (waiters : List Waiter) (s : Feed α β ρ τ η) : Feed α β ρ τ η := { s with eventWaiters := waiters }
def withPoll (on : Bool) (s : Feed α β ρ τ η) : Feed α β ρ τ η := { s with statusPoll := on }
def withSettle (on : Bool) (s : Feed α β ρ τ η) : Feed α β ρ τ η := { s with eventSettle := on }
def withStatusHash (hash : η) (s : Feed α β ρ τ η) : Feed α β ρ τ η := { s with statusHash := some hash }
def withRepos (repos : RepoBaseline η) (s : Feed α β ρ τ η) : Feed α β ρ τ η := { s with repoRevisions := some repos }
def withSeen (views : Views α β ρ τ) (s : Feed α β ρ τ η) : Feed α β ρ τ η := { s with seen := some views }

end Feed

def noteChanged (changed : List Topic) (s : Feed α β ρ τ η) : Feed α β ρ τ η :=
  if changed.isEmpty then s
  else
    { s with
      changeSeq := s.changeSeq + 1
      topicSeqs := fun t => if t ∈ changed then s.changeSeq + 1 else s.topicSeqs t
      eventSettle := s.eventSettle || !s.eventWaiters.isEmpty }

def changedAfter (after : Nat) (s : Feed α β ρ τ η) : Bool := topics.any fun t => decide (after < s.topicSeqs t)

/-- Answers a client; `everything` names every topic. -/
def eventsResponse (client after : Nat) (everything : Bool) (s : Feed α β ρ τ η) : Feed α β ρ τ η :=
  { s with
    last := Function.update s.last client
      (some ⟨s.changeSeq, topics.filter fun t => everything || decide (after < s.topicSeqs t), s.views⟩) }

/-- Answers what is held of changes that came. -/
def settleEvents (s : Feed α β ρ τ η) : Feed α β ρ τ η :=
  let ready := fun w : Waiter => !w.done && changedAfter w.after s
  let answered := (s.eventWaiters.filter ready).foldl (fun s w => eventsResponse w.client w.after false s) s
  (answered.withWaiters (s.eventWaiters.filter fun w => !w.done && !ready w)).withSettle false

section

variable [DecidableEq η] (h : Hashes α β τ η)

def RepoBaseline.of (s : Feed α β ρ τ η) : RepoBaseline η :=
    ⟨s.revisions, h.groups s.views.groups, h.settings s.views.settings⟩

/-- The topics of the repositories that moved; groups and settings count only when what is shown of them changed. -/
def repoTopics (s : Feed α β ρ τ η) (old : RepoBaseline η) : List Topic :=
  (if s.revisions .groups ≠ old.revisions .groups ∧
    h.groups s.views.groups ≠ old.groupsHash then [.Groups, .Profiles] else []) ++
  (if s.revisions .profiles ≠ old.revisions .profiles then [.Profiles] else []) ++
  (if s.revisions .routes ≠ old.revisions .routes then [.Status] else []) ++
  (if s.revisions .settings ≠ old.revisions .settings ∧
    h.settings s.views.settings ≠ old.settingsHash then [.Settings, .Status] else [])

/-- A hash is taken anew where the revision moved. -/
def RepoBaseline.renew (s : Feed α β ρ τ η) (old : RepoBaseline η) : RepoBaseline η where
  revisions := s.revisions
  groupsHash := if s.revisions .groups ≠ old.revisions .groups then h.groups s.views.groups else old.groupsHash
  settingsHash := if s.revisions .settings ≠ old.revisions .settings then h.settings s.views.settings else old.settingsHash

def pollRepos (s : Feed α β ρ τ η) : Feed α β ρ τ η :=
  match s.repoRevisions with
  | none => s.withRepos (RepoBaseline.of h s)
  | some old => noteChanged (repoTopics h s old) (s.withRepos (old.renew h s))

/-- The status has another hash than at the last tick. -/
def statusTopics (s : Feed α β ρ τ η) : List Topic :=
  match s.statusHash with
  | none => []
  | some old => if old ≠ h.status s.views.status then [.Status] else []

/-- What a tick does when requests are held. -/
def look (s : Feed α β ρ τ η) : Feed α β ρ τ η :=
  (pollRepos h ((noteChanged (statusTopics h s) s).withStatusHash (h.status s.views.status))).withSeen s.views

def held (s : Feed α β ρ τ η) : List Waiter := s.eventWaiters.filter fun w => !w.done

def pollStatus (s : Feed α β ρ τ η) : Feed α β ρ τ η :=
  if (held s).isEmpty then (s.withWaiters []).withPoll false else look h (s.withWaiters (held s))

/-- A request with the cursor and the instance of the client's last answer; without an answer, or `fresh`, it has neither. -/
def getEvents (client : Nat) (fresh : Bool) (timeout : Nat) (s : Feed α β ρ τ η) : Feed α β ρ τ η :=
  match if fresh then none else s.last client with
  | none => eventsResponse client 0 true s
  | some answer =>
    if timeout = 0 || changedAfter answer.cursor s then eventsResponse client answer.cursor false s
    else
      let waiting := s.withWaiters (s.eventWaiters ++ [⟨client, answer.cursor, false⟩])
      if s.statusPoll then waiting else pollStatus h (waiting.withPoll true)

/-! ## Events -/

/-- A change of what is shown, the repositories it goes through, and the topics it is announced under. -/
structure Change (α β ρ τ : Type) where
  views : Views α β ρ τ
  through : Repo → Bool
  announced : List Topic

inductive Event (α β ρ τ : Type) where
  | change (c : Change α β ρ τ)
  | getEvents (client : Nat) (fresh : Bool) (timeout : Nat)
  | pollStatus
  | settleEvents
  /-- the deadline of a held request -/
  | deadline (i : Nat)

/-- The shown groups and settings change only through their repositories.  What is shown of profiles may change through any,
as an address does when the endpoint of its group is edited. -/
def Change.Proper (c : Change α β ρ τ) (s : Feed α β ρ τ η) : Prop :=
  (c.views.groups ≠ s.views.groups → c.through .groups = true) ∧
  (c.views.settings ≠ s.views.settings → c.through .settings = true)

/-- What is shown and the revisions after a change. -/
def Change.made (c : Change α β ρ τ) (s : Feed α β ρ τ η) : Feed α β ρ τ η :=
  { s with views := c.views, revisions := fun r => if c.through r then s.revisions r + 1 else s.revisions r }

def change (c : Change α β ρ τ) (s : Feed α β ρ τ η) : Feed α β ρ τ η := noteChanged c.announced (c.made s)

def deadline (i : Nat) (s : Feed α β ρ τ η) : Feed α β ρ τ η :=
  match s.eventWaiters[i]? with
  | none => s
  | some w =>
    if w.done then s else (eventsResponse w.client w.after false s).withWaiters (s.eventWaiters.set i { w with done := true })

/-- Timers tick only while they run. -/
def Allowed (s : Feed α β ρ τ η) : Event α β ρ τ → Prop
  | .change c => c.Proper s
  | .pollStatus => s.statusPoll = true
  | .settleEvents => s.eventSettle = true
  | _ => True

def step (s : Feed α β ρ τ η) : Event α β ρ τ → Feed α β ρ τ η
  | .change c => change c s
  | .getEvents client fresh timeout => getEvents h client fresh timeout s
  | .pollStatus => pollStatus h s
  | .settleEvents => settleEvents s
  | .deadline i => deadline i s

/-- The states of a run that starts with nothing held and no one answered. -/
inductive Reachable : Feed α β ρ τ η → Prop
  | start (views : Views α β ρ τ) (revisions : Revisions) : Reachable { views := views, revisions := revisions }
  | step {s : Feed α β ρ τ η} (e : Event α β ρ τ) : Reachable s → Allowed s e → Reachable (step h s e)

/-- The event is a tick with requests held, or a request that starts the timer. -/
def Looks (s : Feed α β ρ τ η) : Event α β ρ τ → Prop
  | .pollStatus => held s ≠ []
  | .getEvents client fresh timeout =>
    fresh = false ∧ timeout ≠ 0 ∧ s.statusPoll = false ∧ ∃ answer, s.last client = some answer ∧
      changedAfter answer.cursor s = false
  | _ => False

end

end Waterdisco.Feeds
