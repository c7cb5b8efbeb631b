import Mathlib.Data.List.Count
import Mathlib.Data.List.Nodup
import Waterdisco.Lib.Runs

/-!
# The supervisor of the core

`CoreSupervisor` restarts the core.  Its handlers run on the main thread, one step each;
what it does to the process runs on the process thread, as `tasks` in the order they were
posted.  Each start of the process is a `generation`.  Reports of the process carry the
generation they are about and may come at any time, late and more than once.

Next to the supervisor's own fields stand the exits that were acted on (`acted`), the
generation that was current when each restart was posted (`posted`), the generations of
the accepted connections (`accepts`) and of the `coreStarted` signals (`coreStarts`), the
unexpected exits since the last requested restart (`unexpected`), and the restarts that
the process thread has run (`restarts`).

    Supervised (run …)      (run_supervised)
-/

namespace Waterdisco.Core

open List Nat

inductive CoreState where
  | notStarted
  | starting
  | connected
  | backoff
  | gaveUp
  | listenFailed
  | shuttingDown
deriving DecidableEq

/-- The tasks of the process thread. -/
inductive Task where
  | start
  | restart
  | killExpected (reset : Bool)
  | killGeneration (gen : Nat)
  | kill
deriving DecidableEq

def Task.starts : Task → Bool
  | .start | .restart => true
  | _ => false

def noProfileId : Int := -1919

structure Supervisor where
  windows : Bool
  state : CoreState := .notStarted
  process : Bool := false
  generation : Nat := 0
  tasks : List Task := []
  expectedExitGen : Nat := 0
  startWhenUp : Int := -1
  startedId : Int := noProfileId
  probing : Bool := false
  failures : Nat := 0
  startFailures : Nat := 0
  handledExitGen : Nat := 0
  acceptedGen : Nat := 0
  connectGen : Nat := 0
  timedOutGen : Nat := 0
  restartTimer : Bool := false
  connectTimer : Bool := false
  profileCrashTimer : Bool := false
  coreRunning : Bool := false
  prepareExit : Bool := false
  restartCount : Nat := 0
  acted : List Nat := []
  posted : List Nat := []
  accepts : List Nat := []
  coreStarts : List Nat := []
  unexpected : Nat := 0
  restarts : Nat := 0

def kGiveUpAfter : Nat := 5

def kCoreIdentityExitCode : Int := 86

/-! ## Restarts -/

def exiting (s : Supervisor) : Bool := s.state = .shuttingDown || s.prepareExit

def canStartCore (s : Supervisor) : Bool := s.state ≠ .listenFailed && s.state ≠ .shuttingDown

def currentGeneration (s : Supervisor) : Nat := if s.process then s.generation else 0

def post (s : Supervisor) (task : Task) : Supervisor := { s with tasks := s.tasks ++ [task] }

def beginRestart (s : Supervisor) : Supervisor :=
  { s with probing := false, restartTimer := false, connectTimer := false, failures := 0, startFailures := 0
           unexpected := 0, state := .starting }

def postProcessRestart (s : Supervisor) : Supervisor :=
  post { s with handledExitGen := max s.handledExitGen (currentGeneration s), restartCount := s.restartCount + 1
                posted := s.posted ++ [currentGeneration s] } .restart

def scheduleRestart (s : Supervisor) : Supervisor := { s with state := .backoff, restartTimer := true }

/-- `start`, after `listen`. -/
def start (s : Supervisor) (startWhenUpProfileId : Int) : Supervisor :=
  if s.state ≠ .notStarted then s
  else
    let s := if 0 ≤ startWhenUpProfileId then { s with startWhenUp := startWhenUpProfileId } else s
    post { s with state := .starting } .start

def shutdown (s : Supervisor) : Supervisor :=
  post { s with state := .shuttingDown, probing := false, restartTimer := false, connectTimer := false } .kill

def killForExit (s : Supervisor) : Supervisor := shutdown s

def resetCore (s : Supervisor) : Supervisor :=
  if canStartCore s = false ∨ exiting s then s
  else if s.state = .backoff ∨ s.state = .gaveUp then
    postProcessRestart { beginRestart s with startWhenUp := -1, startedId := noProfileId }
  else post (beginRestart s) (.killExpected true)

def restartNotListening (s : Supervisor) (profileId : Int) : Supervisor :=
  if canStartCore s = false ∨ exiting s then s
  else postProcessRestart { beginRestart s with startWhenUp := profileId }

def restartForGuard (s : Supervisor) : Supervisor :=
  if canStartCore s = false ∨ exiting s then s else postProcessRestart (beginRestart s)

def restartDeadCore (s : Supervisor) (startWhenUpProfileId : Int) : Supervisor :=
  if s.state ≠ .backoff ∧ s.state ≠ .gaveUp ∨ exiting s then s
  else postProcessRestart { beginRestart s with startWhenUp := startWhenUpProfileId }

/-- In `Backoff` and `GaveUp` it queues a `restartDeadCore`, an event of its own. -/
def killForPrivilegeChange (s : Supervisor) : Supervisor :=
  if s.state = .listenFailed ∨ s.state = .shuttingDown ∨ s.state = .backoff ∨ s.state = .gaveUp then s
  else post s (.killExpected false)

def postRestart (s : Supervisor) : Supervisor :=
  if s.state ≠ .backoff ∨ exiting s then s else postProcessRestart { s with state := .starting }

/-! ## Connections -/

def emitCoreStarted (s : Supervisor) : Supervisor :=
  { s with startFailures := 0, startWhenUp := -1, coreStarts := s.coreStarts ++ [s.acceptedGen] }

/-- `onNewConnection`; `verified` is what `verifyCorePid` says of the socket. -/
def onNewConnection (s : Supervisor) (verified : Bool) : Supervisor :=
  let gen := currentGeneration s
  if s.process = false ∨ verified = false then s
  else if gen ≤ s.handledExitGen ∨ gen ≤ s.timedOutGen then s
  else
    let s := { s with coreRunning := true }
    if exiting s then s
    else
      let s := { s with acceptedGen := max s.acceptedGen gen, connectTimer := false, state := .connected
                        accepts := s.accepts ++ [gen] }
      if s.windows then emitCoreStarted s else { s with probing := true }

/-- `onPrivilegeProbed`; `alive` is `IsConnected`. -/
def onPrivilegeProbed (s : Supervisor) (gen : Nat) (ok alive : Bool) (attempt : Nat) : Supervisor :=
  if (attempt = 0 ∧ s.probing = false) ∨ gen ≠ s.acceptedGen ∨ s.state ≠ .connected ∨ exiting s then s
  else if ok = false ∧ alive = false then s
  else if 0 < attempt then s
  else emitCoreStarted { s with probing := false }

def onCoreSpawned (s : Supervisor) (gen : Nat) : Supervisor :=
  if s.state ≠ .starting ∨ gen ≤ s.acceptedGen ∨ exiting s then s
  else { s with connectGen := gen, connectTimer := true }

def onConnectTimeout (s : Supervisor) : Supervisor :=
  if s.state ≠ .starting ∨ exiting s then s
  else if s.connectGen ≤ s.acceptedGen ∨ s.connectGen ≠ currentGeneration s then s
  else post { s with timedOutGen := s.connectGen } (.killGeneration s.connectGen)

/-! ## Exits -/

/-- What an exit report and the clocks say: `stable` is `m_connectedAt` past `kStableMs`,
`crashedLately` `m_profileCrashTimer` within its window. -/
structure Exit where
  gen : Nat
  failedToStart : Bool
  exitCode : Int
  identityUnsupported : Bool
  stable : Bool
  crashedLately : Bool
deriving DecidableEq

/-- An exit that counts: `m_failures`, `m_startFailures` and the profile that is resumed. -/
def countExit (s : Supervisor) (e : Exit) (wasConnected : Bool) : Supervisor :=
  let tooFrequent := wasConnected && s.profileCrashTimer && e.crashedLately
  let resumes := wasConnected || decide (s.startWhenUp < 0)
  let declined := tooFrequent && decide (0 ≤ s.startedId)
  { s with failures := (if wasConnected && e.stable then 0 else s.failures) + 1
           startFailures := if wasConnected then s.startFailures else s.startFailures + 1
           unexpected := s.unexpected + 1
           profileCrashTimer := if wasConnected then !tooFrequent else s.profileCrashTimer
           startWhenUp := if resumes then (if declined then -1 else s.startedId) else s.startWhenUp
           startedId := if resumes && declined then noProfileId else s.startedId }

def onCoreExited (s : Supervisor) (e : Exit) : Supervisor :=
  if e.gen ≤ s.handledExitGen then s
  else
    let wasProbing := s.probing && decide (e.gen = s.acceptedGen)
    let s := { s with handledExitGen := e.gen, probing := s.probing && !wasProbing }
    if exiting s then s
    else
      let s := { s with connectTimer := false, acted := s.acted ++ [e.gen] }
      if s.expectedExitGen = e.gen then
        scheduleRestart { s with failures := 0, startFailures := 0
                                 startWhenUp := if wasProbing = false ∨ s.startWhenUp < 0 then s.startedId
                                   else s.startWhenUp }
      else
        let wasConnected := !e.failedToStart && decide (e.gen = s.acceptedGen) && !wasProbing
        if wasConnected = false ∧ e.exitCode = kCoreIdentityExitCode ∧ e.identityUnsupported = false then
          scheduleRestart s
        else
          let s := countExit s e wasConnected
          if (kGiveUpAfter ≤ s.failures ∧ s.startWhenUp < 0) ∨
              (wasConnected = false ∧ kGiveUpAfter ≤ s.startFailures) then
            { s with startWhenUp := -1, startedId := noProfileId, state := .gaveUp }
          else scheduleRestart s

/-! ## The process thread -/

def runTask (s : Supervisor) : Task → Supervisor
  | .start => { s with process := true, generation := s.generation + 1 }
  | .restart =>
    if s.process = false ∨ s.prepareExit then s
    else { s with generation := s.generation + 1, restarts := s.restarts + 1 }
  | .killExpected reset =>
    if s.process = false then s
    else { s with expectedExitGen := s.generation, startedId := if reset then noProfileId else s.startedId }
  | .killGeneration _ => s
  | .kill => s

/-! ## Runs -/

/-- What can come next.  `prepareExit` is set before the supervisor is told to shut down. -/
inductive Incident where
  | runTask
  | spawned (gen : Nat)
  | newConnection (verified : Bool)
  | privilegeProbed (gen : Nat) (ok alive : Bool) (attempt : Nat)
  | exited (e : Exit)
  | connectTimeout
  | restartTimeout
  | resetCore
  | restartNotListening (profileId : Int)
  | restartForGuard
  | restartDeadCore (profileId : Int)
  | killForPrivilegeChange
  | setStartWhenUp (profileId : Int)
  | setStartedId (profileId : Int)
  | cancelResume
  | prepareExit
  | shutdown
  | killForExit

def handle (s : Supervisor) : Incident → Supervisor
  | .runTask =>
    match s.tasks with
    | [] => s
    | task :: tasks => runTask { s with tasks := tasks } task
  | .spawned gen => if gen ≤ s.generation then onCoreSpawned s gen else s
  | .newConnection verified => onNewConnection s verified
  | .privilegeProbed gen ok alive attempt => onPrivilegeProbed s gen ok alive attempt
  | .exited e => if e.gen ≤ s.generation then onCoreExited s e else s
  | .connectTimeout => if s.connectTimer then onConnectTimeout { s with connectTimer := false } else s
  | .restartTimeout => if s.restartTimer then postRestart { s with restartTimer := false } else s
  | .resetCore => resetCore s
  | .restartNotListening profileId => restartNotListening s profileId
  | .restartForGuard => restartForGuard s
  | .restartDeadCore profileId => restartDeadCore s profileId
  | .killForPrivilegeChange => killForPrivilegeChange s
  | .setStartWhenUp profileId => if s.process then { s with startWhenUp := profileId } else s
  | .setStartedId profileId => { s with startedId := profileId }
  | .cancelResume => { s with startWhenUp := -1, startedId := noProfileId }
  | .prepareExit => { s with prepareExit := true }
  | .shutdown => if s.prepareExit then shutdown s else s
  | .killForExit => if s.prepareExit then killForExit s else s

/-- The supervisor after `listen` and `start`. -/
def booted (windows listening : Bool) (startWhenUpProfileId : Int) : Supervisor :=
  start { windows := windows, state := if listening then .notStarted else .listenFailed } startWhenUpProfileId

def runFrom (s : Supervisor) (incidents : List Incident) : Supervisor := incidents.foldl handle s

/-! ## The invariant -/

/-- A task that starts a newer generation is queued. -/
def startQueued (s : Supervisor) : Bool := s.tasks.any Task.starts

/-- The watermarks and counters. -/
structure Counts (s : Supervisor) : Prop where
  handled : s.handledExitGen ≤ s.generation
  accepted : s.acceptedGen ≤ s.generation
  /-- The process is there, or its start comes before every other task. -/
  process : s.process = true ∨ (s.generation = 0 ∧
    (s.tasks.head? = some .start ∨ s.state = .listenFailed ∨ s.state = .shuttingDown))
  failures : s.failures ≤ s.unexpected
  startFailures : s.startFailures ≤ s.unexpected
  acted : ∀ g ∈ s.acted, g ≤ s.handledExitGen
  actedOnce : s.acted.Nodup
  posted : ∀ g ∈ s.posted, g ≤ s.handledExitGen
  probing : s.probing = true → s.acceptedGen ∉ s.acted
  coreStarts : ∀ g, s.coreStarts.count g + (if s.probing = true ∧ s.acceptedGen = g then 1 else 0) ≤ s.accepts.count g
  windows : s.windows = true → s.probing = false

/-- What the state stands for. -/
structure States (s : Supervisor) : Prop where
  alive : s.state = .starting ∨ s.state = .connected → s.prepareExit = false →
    s.handledExitGen < s.generation ∨ startQueued s = true
  timer : s.state = .backoff → s.restartTimer = true ∨ s.prepareExit = true
  shut : s.state = .shuttingDown → s.prepareExit = true
  notStarted : s.state ≠ .notStarted

structure Inv (s : Supervisor) : Prop where
  counts : Counts s
  states : States s

variable {s : Supervisor}

theorem Counts.current (h : Counts s) : currentGeneration s = s.generation := by
  unfold currentGeneration
  rcases h.process with hp | ⟨hzero, _⟩
  · rw [if_pos hp]
  split
  · rfl
  · exact hzero.symm

theorem head?_append_single {l : List Task} {t u : Task} (h : l.head? = some t) : (l ++ [u]).head? = some t := by
  cases l with
  | nil => cases h
  | cons a l => exact h

theorem Counts.post (h : Counts s) (task : Task) : Counts (post s task) :=
  { h with process := h.process.imp id (fun ⟨hzero, hp⟩ => ⟨hzero, hp.imp head?_append_single id⟩) }

theorem startQueued_post (s : Supervisor) (task : Task) :
    startQueued (post s task) = (startQueued s || task.starts) := by
  simp [startQueued, post]

theorem Inv.post (h : Inv s) (task : Task) : Inv (post s task) where
  counts := h.counts.post task
  states :=
    { alive := fun hs hp => (h.states.alive hs hp).imp id (fun hq => by rw [startQueued_post, hq, Bool.true_or])
      timer := h.states.timer
      shut := h.states.shut
      notStarted := h.states.notStarted }

/-- A restart that is posted from `Starting`. -/
theorem Counts.postProcessRestart (h : Counts s) (hs : s.state = .starting) :
    Inv (postProcessRestart s) := by
  have hmax : max s.handledExitGen (currentGeneration s) = s.generation := by
    rw [h.current]
    exact Nat.max_eq_right h.handled
  have hcounts : Counts { s with handledExitGen := max s.handledExitGen (currentGeneration s)
                                 restartCount := s.restartCount + 1
                                 posted := s.posted ++ [currentGeneration s] } := by
    rw [hmax, h.current]
    refine { h with handled := .refl, acted := fun g hg => Nat.le_trans (h.acted g hg) h.handled, posted := ?_ }
    intro g hg
    rcases mem_append.1 hg with hg | hg
    · exact Nat.le_trans (h.posted g hg) h.handled
    · exact Nat.le_of_eq (mem_singleton.1 hg)
  refine ⟨hcounts.post .restart, ?_, ?_, ?_, ?_⟩
  · intro _ _
    right
    unfold Core.postProcessRestart
    rw [startQueued_post]
    simp [Task.starts]
  all_goals
    show s.state = _ → _
    rw [hs]
    simp

theorem Counts.beginRestart (h : Counts s) (hs : canStartCore s = true) (startWhenUp startedId : Int) :
    Counts { beginRestart s with startWhenUp := startWhenUp, startedId := startedId } where
  handled := h.handled
  accepted := h.accepted
  process := by
    refine h.process.imp id (fun ⟨hzero, hp⟩ => ⟨hzero, ?_⟩)
    rcases hp with hp | hp | hp
    · exact .inl hp
    · simp [canStartCore, hp] at hs
    · simp [canStartCore, hp] at hs
  failures := zero_le _
  startFailures := zero_le _
  acted := h.acted
  actedOnce := h.actedOnce
  posted := h.posted
  probing hp := absurd hp (by simp [Core.beginRestart])
  coreStarts g := by
    have := h.coreStarts g
    show s.coreStarts.count g + (if false = true ∧ s.acceptedGen = g then 1 else 0) ≤ s.accepts.count g
    simp only [Bool.false_eq_true, false_and, if_false]
    omega
  windows _ := rfl

/-! ## Requested restarts -/

section
variable {c : Prop} [Decidable c] {t : Supervisor}

theorem Inv.unless (h : Inv s) (ht : ¬ c → Inv t) : Inv (if c then s else t) := by
  split
  · exact h
  · rename_i hc
    exact ht hc

theorem Inv.when (h : Inv s) (ht : c → Inv t) : Inv (if c then t else s) := by
  split
  · rename_i hc
    exact ht hc
  · exact h

end

theorem not_refused (h : ¬ (canStartCore s = false ∨ exiting s = true)) : canStartCore s = true := by
  simpa using fun e => h (.inl e)

theorem Inv.resetCore (h : Inv s) : Inv (resetCore s) := by
  refine h.unless fun hok => ?_
  have hcan := not_refused hok
  split
  · exact (h.counts.beginRestart hcan _ _).postProcessRestart rfl
  rename_i hrunning
  simp only [not_or] at hrunning
  -- the core that is to be killed is the one whose exit counts, or a newer one is on its way
  refine Inv.post ⟨h.counts.beginRestart hcan s.startWhenUp s.startedId, ?_, ?_, ?_, ?_⟩ _
  · intro _ hprepare
    refine h.states.alive ?_ hprepare
    have hnot := h.states.notStarted
    simp only [canStartCore, Bool.and_eq_true, decide_eq_true_eq] at hcan
    cases hstate : s.state with
    | starting => exact .inl rfl
    | connected => exact .inr rfl
    | notStarted => exact absurd hstate hnot
    | backoff => exact absurd hstate hrunning.1
    | gaveUp => exact absurd hstate hrunning.2
    | listenFailed => exact absurd hstate hcan.1
    | shuttingDown => exact absurd hstate hcan.2
  all_goals simp [Core.beginRestart]

theorem Inv.restartNotListening (h : Inv s) (profileId : Int) : Inv (restartNotListening s profileId) := by
  refine h.unless fun hok => ?_
  exact (h.counts.beginRestart (not_refused hok) _ _).postProcessRestart rfl

theorem Inv.restartForGuard (h : Inv s) : Inv (restartForGuard s) := by
  refine h.unless fun hok => ?_
  exact (h.counts.beginRestart (not_refused hok) s.startWhenUp s.startedId).postProcessRestart rfl

theorem Inv.restartDeadCore (h : Inv s) (profileId : Int) : Inv (restartDeadCore s profileId) := by
  refine h.unless fun hdead => ?_
  have hcan : canStartCore s = true := by
    simp only [not_or, not_and, not_not] at hdead
    unfold canStartCore
    by_cases hb : s.state = .backoff
    · simp [hb]
    · simp [hdead.1 hb]
  exact (h.counts.beginRestart hcan _ _).postProcessRestart rfl

theorem Inv.postRestart (h : Counts s) (ht : States { s with restartTimer := true }) :
    Inv (postRestart s) := by
  unfold Core.postRestart
  split
  · rename_i hskip
    refine ⟨h, ht.alive, ?_, ht.shut, ht.notStarted⟩
    intro hb
    have hexit : exiting s = true := hskip.resolve_left (by simp [hb])
    right
    simpa [exiting, hb] using hexit
  rename_i hok
  simp only [not_or, not_not] at hok
  refine Counts.postProcessRestart { h with process := ?_ } rfl
  refine h.process.imp id (fun ⟨hzero, hp⟩ => ⟨hzero, ?_⟩)
  rcases hp with hp | hp | hp
  · exact .inl hp
  · rw [hok.1] at hp
    cases hp
  · rw [hok.1] at hp
    cases hp

theorem Inv.killForPrivilegeChange (h : Inv s) : Inv (killForPrivilegeChange s) :=
  h.unless fun _ => h.post _

theorem Inv.shutdown (h : Inv s) (hp : s.prepareExit = true) : Inv (shutdown s) := by
  have hcounts : Counts { s with state := .shuttingDown, probing := false, restartTimer := false
                                 connectTimer := false } := by
    refine { h.counts with process := ?_, probing := by simp, coreStarts := fun g => ?_, windows := fun _ => rfl }
    · exact h.counts.process.imp id (fun ⟨hzero, _⟩ => ⟨hzero, .inr (.inr rfl)⟩)
    · have := h.counts.coreStarts g
      simp only [Bool.false_eq_true, false_and, if_false]
      omega
  exact Inv.post ⟨hcounts, by simp, by simp, fun _ => hp, by simp⟩ _

/-! ## Connections and exits -/

theorem Inv.onNewConnection (h : Inv s) (verified : Bool) : Inv (onNewConnection s verified) := by
  dsimp only [Core.onNewConnection]
  rw [h.counts.current]
  split
  · exact h
  split
  · exact h
  rename_i hprocess hnew
  split
  · exact ⟨{ h.counts with }, ⟨h.states.1, h.states.2, h.states.3, h.states.4⟩⟩
  have hprocess : s.process = true := by
    simp only [not_or] at hprocess
    simpa using hprocess.1
  have hnew : s.handledExitGen < s.generation := by omega
  have hmax : max s.acceptedGen s.generation = s.generation := Nat.max_eq_right h.counts.accepted
  have hstates : ∀ s' : Supervisor, s'.state = .connected → s'.handledExitGen = s.handledExitGen →
      s'.generation = s.generation → States s' := by
    intro s' hs hh hg
    refine ⟨fun _ _ => .inl (by rw [hh, hg]; exact hnew), ?_, ?_, ?_⟩
    all_goals simp [hs]
  have hnot : s.generation ∉ s.acted := by
    intro hmem
    have := h.counts.acted _ hmem
    omega
  have hcount : ∀ g, s.coreStarts.count g + (if s.generation = g then 1 else 0) ≤
      (s.accepts ++ [s.generation]).count g := by
    intro g
    have := h.counts.coreStarts g
    rw [count_append, count_singleton]
    simp only [beq_iff_eq]
    omega
  rw [hmax]
  split
  · rename_i hwindows
    have hquiet := h.counts.windows hwindows
    refine ⟨{ h.counts with accepted := .refl, process := .inl hprocess, startFailures := zero_le _
                            probing := fun _ => hnot, coreStarts := fun g => ?_ }, hstates _ rfl rfl rfl⟩
    have := hcount g
    simp only [emitCoreStarted, hquiet, Bool.false_eq_true, false_and, if_false, count_append,
      count_singleton, beq_iff_eq] at this ⊢
    omega
  · rename_i hunix
    refine ⟨{ h.counts with accepted := .refl, process := .inl hprocess, probing := fun _ => hnot
                            coreStarts := fun g => ?_, windows := fun hw => absurd hw hunix }, hstates _ rfl rfl rfl⟩
    simpa using hcount g

theorem Inv.onPrivilegeProbed (h : Inv s) (gen : Nat) (ok alive : Bool) (attempt : Nat) :
    Inv (onPrivilegeProbed s gen ok alive attempt) := by
  refine h.unless fun hguard => h.unless fun _ => h.unless fun hzero => ?_
  have hattempt : attempt = 0 := by omega
  simp only [not_or, not_and, Bool.not_eq_false] at hguard
  have hprobing : s.probing = true := hguard.1 hattempt
  refine ⟨{ h.counts with startFailures := zero_le _, probing := by simp [emitCoreStarted]
                          coreStarts := fun g => ?_, windows := fun _ => rfl },
    ⟨h.states.1, h.states.2, h.states.3, h.states.4⟩⟩
  have := h.counts.coreStarts g
  simp only [emitCoreStarted, hprobing, true_and, Bool.false_eq_true, false_and, if_false, count_append,
    count_singleton, beq_iff_eq] at this ⊢
  omega

theorem Inv.onCoreSpawned (h : Inv s) (gen : Nat) : Inv (onCoreSpawned s gen) :=
  h.unless fun _ => ⟨{ h.counts with }, ⟨h.states.1, h.states.2, h.states.3, h.states.4⟩⟩

theorem Inv.onConnectTimeout (h : Inv s) : Inv (onConnectTimeout s) := by
  refine h.unless fun _ => h.unless fun _ => ?_
  have hinv : Inv { s with timedOutGen := s.connectGen } :=
    ⟨{ h.counts with }, ⟨h.states.1, h.states.2, h.states.3, h.states.4⟩⟩
  exact hinv.post _

/-- The exit of generation `gen` is noted. -/
theorem Counts.noteExit (h : Counts s) {gen : Nat} (hgen : gen ≤ s.generation)
    (hnew : s.handledExitGen < gen) :
    Counts { s with handledExitGen := gen, probing := s.probing && !(s.probing && decide (gen = s.acceptedGen)) } where
  handled := hgen
  accepted := h.accepted
  process := h.process
  failures := h.failures
  startFailures := h.startFailures
  acted g hg := Nat.le_trans (h.acted g hg) (Nat.le_of_lt hnew)
  actedOnce := h.actedOnce
  posted g hg := Nat.le_trans (h.posted g hg) (Nat.le_of_lt hnew)
  probing hp := h.probing (by simp only [Bool.and_eq_true] at hp; exact hp.1)
  coreStarts g := by
    have := h.coreStarts g
    cases hp : s.probing with
    | false => simpa [hp] using this
    | true =>
      simp only [hp, true_and] at this
      refine Nat.le_trans (Nat.add_le_add_left ?_ _) this
      split
      · rename_i hc
        exact Nat.le_of_eq (if_pos hc.2).symm
      · exact Nat.zero_le _
  windows hw := by simp [h.windows hw]

/-- The exit of generation `gen` is acted on. -/
theorem Counts.actOn (h : Counts s) {gen : Nat} (hgen : gen ≤ s.generation)
    (hnew : s.handledExitGen < gen) :
    Counts { s with handledExitGen := gen, probing := s.probing && !(s.probing && decide (gen = s.acceptedGen))
                    connectTimer := false, acted := s.acted ++ [gen] } := by
  have hn := h.noteExit hgen hnew
  have hnot : gen ∉ s.acted := by
    intro hmem
    have := h.acted gen hmem
    omega
  refine { hn with acted := ?_, actedOnce := ?_, probing := ?_ }
  · intro g hg
    rcases mem_append.1 hg with hg | hg
    · exact hn.acted g hg
    · exact Nat.le_of_eq (mem_singleton.1 hg)
  · rw [nodup_append]
    refine ⟨h.actedOnce, by simp, ?_⟩
    intro a ha b hb
    rw [mem_singleton.1 hb]
    rintro rfl
    exact hnot ha
  · intro hp hmem
    simp only [Bool.and_eq_true, Bool.not_eq_true', Bool.and_eq_false_iff, decide_eq_false_iff_not] at hp
    rcases mem_append.1 hmem with hmem | hmem
    · exact h.probing hp.1 hmem
    rcases hp.2 with hno | hne
    · rw [hp.1] at hno
      cases hno
    · exact hne (mem_singleton.1 hmem).symm

theorem countExit_le (hf : s.failures ≤ s.unexpected) (hn : s.startFailures ≤ s.unexpected) (e : Exit)
    (wasConnected : Bool) :
    (countExit s e wasConnected).failures ≤ (countExit s e wasConnected).unexpected ∧
      (countExit s e wasConnected).startFailures ≤ (countExit s e wasConnected).unexpected := by
  constructor
  · show (if (wasConnected && e.stable) = true then 0 else s.failures) + 1 ≤ s.unexpected + 1
    split <;> omega
  · show (if wasConnected = true then s.startFailures else s.startFailures + 1) ≤ s.unexpected + 1
    split <;> omega

theorem Counts.countExit (h : Counts s) (e : Exit) (wasConnected : Bool) :
    Counts (countExit s e wasConnected) :=
  { h with failures := (countExit_le h.failures h.startFailures e wasConnected).1
           startFailures := (countExit_le h.failures h.startFailures e wasConnected).2 }

theorem Counts.scheduleRestart (h : Counts s) (hprocess : s.process = true) :
    Inv (scheduleRestart s) :=
  ⟨{ h with process := .inl hprocess }, ⟨by simp [Core.scheduleRestart], fun _ => .inl rfl,
    by simp [Core.scheduleRestart], by simp [Core.scheduleRestart]⟩⟩

theorem Inv.onCoreExited (h : Inv s) (e : Exit) (hgen : e.gen ≤ s.generation) :
    Inv (onCoreExited s e) := by
  dsimp only [Core.onCoreExited]
  split
  · exact h
  rename_i hnew
  have hnew : s.handledExitGen < e.gen := by omega
  have hprocess : s.process = true := h.counts.process.resolve_right (fun hp => by omega)
  split
  · rename_i hexit
    refine ⟨h.counts.noteExit hgen hnew, ?_, h.states.timer, h.states.shut, h.states.notStarted⟩
    intro hs hprepare
    -- the exit is prepared, so nothing is promised
    have hprepare : s.prepareExit = false := hprepare
    have hstate : s.state = .starting ∨ s.state = .connected := hs
    have hexit : exiting s = true := hexit
    rcases hstate with hstate | hstate
    · simp [exiting, hprepare, hstate] at hexit
    · simp [exiting, hprepare, hstate] at hexit
  · have hact := h.counts.actOn hgen hnew
    split
    · refine Counts.scheduleRestart ?_ hprocess
      exact { hact with failures := zero_le _, startFailures := zero_le _ }
    split
    · exact hact.scheduleRestart hprocess
    have hcount := hact.countExit e (!e.failedToStart && decide (e.gen = s.acceptedGen) &&
      !(s.probing && decide (e.gen = s.acceptedGen)))
    split
    · exact ⟨{ hcount with process := .inl hprocess }, by simp, by simp, by simp, by simp⟩
    · exact hcount.scheduleRestart hprocess

theorem Inv.runTask (h : Inv s) {task : Task} {tasks : List Task} (htasks : s.tasks = task :: tasks) :
    Inv (runTask { s with tasks := tasks } task) := by
  have hqueue : startQueued s = (task.starts || tasks.any Task.starts) := by
    simp [startQueued, htasks]
  have hstates : ∀ s' : Supervisor, s'.state = s.state → s'.prepareExit = s.prepareExit →
      s'.restartTimer = s.restartTimer → s'.handledExitGen = s.handledExitGen →
      (s'.handledExitGen < s'.generation ∨ s'.generation = s.generation ∧
        (s.state = .starting ∨ s.state = .connected → s.prepareExit = false → startQueued s = true →
          startQueued s' = true)) → States s' := by
    intro s' e₁ e₂ e₃ e₄ hgen
    refine ⟨?_, ?_, ?_, ?_⟩
    · rw [e₁, e₂]
      intro hs hp
      rcases hgen with hgen | ⟨hgen, hq⟩
      · exact .inl hgen
      · rw [e₄, hgen]
        exact (h.states.alive hs hp).imp id (hq hs hp)
    · rw [e₁, e₂, e₃]
      exact h.states.timer
    · rw [e₁, e₂]
      exact h.states.shut
    · rw [e₁]
      exact h.states.notStarted
  have hgrown : s.handledExitGen ≤ s.generation + 1 ∧ s.acceptedGen ≤ s.generation + 1 :=
    ⟨le_succ_of_le h.counts.handled, le_succ_of_le h.counts.accepted⟩
  -- a task that starts nothing is not the start of the process, and leaves what is queued
  have hother : task.starts = false → s.process = true ∨ (s.generation = 0 ∧
      (tasks.head? = some .start ∨ s.state = .listenFailed ∨ s.state = .shuttingDown)) := by
    intro hstarts
    refine h.counts.process.imp id (fun ⟨hzero, hp⟩ => ⟨hzero, ?_⟩)
    rcases hp with hp | hp
    · rw [htasks, head?_cons, Option.some.injEq] at hp
      rw [hp] at hstarts
      cases hstarts
    · exact .inr hp
  have hrest : task.starts = false → startQueued s = true → tasks.any Task.starts = true := by
    intro hstarts hq
    rwa [hqueue, hstarts, Bool.false_or] at hq
  cases task with
  | start =>
    exact ⟨{ h.counts with handled := hgrown.1, accepted := hgrown.2, process := .inl rfl },
      hstates _ rfl rfl rfl rfl (.inl (lt_succ_of_le h.counts.handled))⟩
  | restart =>
    have hprocess : s.process = true ∨ (s.generation = 0 ∧ (s.state = .listenFailed ∨ s.state = .shuttingDown)) := by
      refine h.counts.process.imp id (fun ⟨hzero, hp⟩ => ⟨hzero, ?_⟩)
      rcases hp with hp | hp
      · rw [htasks] at hp
        cases hp
      · exact hp
    dsimp only [Core.runTask]
    split
    · rename_i hskip
      refine ⟨{ h.counts with process := ?_ }, hstates _ rfl rfl rfl rfl (.inr ⟨rfl, fun hs hp => ?_⟩)⟩
      · exact hprocess.imp id (fun ⟨hzero, hp⟩ => ⟨hzero, .inr hp⟩)
      have hgone : s.process = false := hskip.resolve_right (by simp [hp])
      rcases hprocess with hprocess | ⟨_, hstate⟩
      · rw [hgone] at hprocess
        cases hprocess
      rcases hs with hs | hs
      · simp [hs] at hstate
      · simp [hs] at hstate
    · rename_i hgo
      have hthere : s.process = true := by
        simp only [not_or] at hgo
        simpa using hgo.1
      exact ⟨{ h.counts with handled := hgrown.1, accepted := hgrown.2, process := .inl hthere },
        hstates _ rfl rfl rfl rfl (.inl (lt_succ_of_le h.counts.handled))⟩
  | killExpected reset =>
    dsimp only [Core.runTask]
    split
    · exact ⟨{ h.counts with process := hother rfl }, hstates _ rfl rfl rfl rfl (.inr ⟨rfl, fun _ _ hq => hrest rfl hq⟩)⟩
    · exact ⟨{ h.counts with process := hother rfl }, hstates _ rfl rfl rfl rfl (.inr ⟨rfl, fun _ _ hq => hrest rfl hq⟩)⟩
  | killGeneration gen =>
    exact ⟨{ h.counts with process := hother rfl }, hstates _ rfl rfl rfl rfl (.inr ⟨rfl, fun _ _ hq => hrest rfl hq⟩)⟩
  | kill =>
    exact ⟨{ h.counts with process := hother rfl }, hstates _ rfl rfl rfl rfl (.inr ⟨rfl, fun _ _ hq => hrest rfl hq⟩)⟩

theorem Inv.handle (h : Inv s) (i : Incident) : Inv (handle s i) := by
  cases i with
  | runTask =>
    dsimp only [Core.handle]
    split
    · exact h
    · rename_i task tasks htasks
      exact h.runTask htasks
  | spawned gen => exact h.when fun _ => h.onCoreSpawned gen
  | newConnection verified => exact h.onNewConnection verified
  | privilegeProbed gen ok alive attempt => exact h.onPrivilegeProbed gen ok alive attempt
  | exited e => exact h.when fun hgen => h.onCoreExited e hgen
  | connectTimeout =>
    have hinv : Inv { s with connectTimer := false } :=
      ⟨{ h.counts with }, ⟨h.states.1, h.states.2, h.states.3, h.states.4⟩⟩
    exact h.when fun _ => hinv.onConnectTimeout
  | restartTimeout =>
    exact h.when fun _ => .postRestart { h.counts with } ⟨h.states.1, fun _ => .inl rfl, h.states.3, h.states.4⟩
  | resetCore => exact h.resetCore
  | restartNotListening profileId => exact h.restartNotListening profileId
  | restartForGuard => exact h.restartForGuard
  | restartDeadCore profileId => exact h.restartDeadCore profileId
  | killForPrivilegeChange => exact h.killForPrivilegeChange
  | setStartWhenUp profileId =>
    exact h.when fun _ => ⟨{ h.counts with }, ⟨h.states.1, h.states.2, h.states.3, h.states.4⟩⟩
  | setStartedId profileId => exact ⟨{ h.counts with }, ⟨h.states.1, h.states.2, h.states.3, h.states.4⟩⟩
  | cancelResume => exact ⟨{ h.counts with }, ⟨h.states.1, h.states.2, h.states.3, h.states.4⟩⟩
  | prepareExit =>
    exact ⟨{ h.counts with }, ⟨fun _ hp => absurd hp (by simp [Core.handle]), fun _ => .inr rfl,
      fun _ => rfl, h.states.4⟩⟩
  | shutdown => exact h.when h.shutdown
  | killForExit => exact h.when h.shutdown

/-! ## What one step does -/

/-- No exit is acted on, no `coreStarted` is emitted, and the core is not given up. -/
structure Plain (s s' : Supervisor) : Prop where
  acted : s'.acted = s.acted
  coreStarts : s'.coreStarts = s.coreStarts
  gaveUp : s'.state = .gaveUp → s.state = .gaveUp

/-- A step that may be refused. -/
theorem Plain.unless {c : Prop} [Decidable c] {t : Supervisor} (h : Plain s t) : Plain s (if c then s else t) := by
  split
  · exact ⟨rfl, rfl, id⟩
  · exact h

theorem Plain.when {c : Prop} [Decidable c] {t : Supervisor} (h : Plain s t) : Plain s (if c then t else s) := by
  split
  · exact h
  · exact ⟨rfl, rfl, id⟩

theorem plain_restarted (s : Supervisor) (w i : Int) :
    Plain s (postProcessRestart { beginRestart s with startWhenUp := w, startedId := i }) :=
  ⟨rfl, rfl, fun h => absurd h (by simp [postProcessRestart, post, beginRestart])⟩

theorem plain_resetCore (s : Supervisor) : Plain s (resetCore s) := by
  refine .unless ?_
  split
  · exact plain_restarted s _ _
  · exact ⟨rfl, rfl, fun h => absurd h (by simp [post, beginRestart])⟩

theorem plain_postRestart (s : Supervisor) : Plain s (postRestart s) :=
  .unless ⟨rfl, rfl, fun h => absurd h (by simp [postProcessRestart, post])⟩

theorem plain_shutdown (s : Supervisor) : Plain s (shutdown s) :=
  ⟨rfl, rfl, fun h => absurd h (by simp [shutdown, post])⟩

theorem plain_runTask (s : Supervisor) (task : Task) : Plain s (runTask s task) := by
  cases task with
  | restart => exact .unless ⟨rfl, rfl, id⟩
  | killExpected reset => exact .unless ⟨rfl, rfl, id⟩
  | _ => exact ⟨rfl, rfl, id⟩

/-- A step that is neither a connection, nor a probe, nor an exit. -/
def Incident.plain : Incident → Bool
  | .newConnection _ | .privilegeProbed _ _ _ _ | .exited _ => false
  | _ => true

theorem plain_handle (s : Supervisor) {i : Incident} (hi : i.plain = true) : Plain s (handle s i) := by
  cases i with
  | newConnection verified => cases hi
  | privilegeProbed gen ok alive attempt => cases hi
  | exited e => cases hi
  | runTask =>
    dsimp only [handle]
    split
    · exact ⟨rfl, rfl, id⟩
    rename_i task tasks _
    have hplain := plain_runTask { s with tasks := tasks } task
    exact ⟨hplain.acted, hplain.coreStarts, hplain.gaveUp⟩
  | spawned gen => exact .when (.unless ⟨rfl, rfl, id⟩)
  | connectTimeout =>
    refine .when ?_
    unfold onConnectTimeout
    split
    · exact ⟨rfl, rfl, id⟩
    split
    · exact ⟨rfl, rfl, id⟩
    · exact ⟨rfl, rfl, id⟩
  | restartTimeout =>
    have hplain := plain_postRestart { s with restartTimer := false }
    exact .when ⟨hplain.acted, hplain.coreStarts, hplain.gaveUp⟩
  | resetCore => exact plain_resetCore s
  | restartNotListening profileId => exact .unless (plain_restarted s _ _)
  | restartForGuard => exact .unless (plain_restarted s s.startWhenUp s.startedId)
  | restartDeadCore profileId => exact .unless (plain_restarted s _ _)
  | killForPrivilegeChange => exact .unless ⟨rfl, rfl, id⟩
  | setStartWhenUp profileId => exact .when ⟨rfl, rfl, id⟩
  | setStartedId profileId => exact ⟨rfl, rfl, id⟩
  | cancelResume => exact ⟨rfl, rfl, id⟩
  | prepareExit => exact ⟨rfl, rfl, id⟩
  | shutdown => exact .when (plain_shutdown s)
  | killForExit => exact .when (plain_shutdown s)

theorem onNewConnection_spec (h : Inv s) (verified : Bool) :
    (onNewConnection s verified).acted = s.acted ∧
      ((onNewConnection s verified).state = .gaveUp → s.state = .gaveUp) ∧
      ((onNewConnection s verified).coreStarts = s.coreStarts ∨
        (onNewConnection s verified).coreStarts = s.coreStarts ++ [s.generation] ∧ s.handledExitGen < s.generation) := by
  dsimp only [onNewConnection]
  rw [h.counts.current]
  split
  · exact ⟨rfl, id, .inl rfl⟩
  split
  · exact ⟨rfl, id, .inl rfl⟩
  split
  · exact ⟨rfl, id, .inl rfl⟩
  rw [Nat.max_eq_right h.counts.accepted]
  split
  · exact ⟨rfl, fun e => absurd e (by simp [emitCoreStarted]), .inr ⟨rfl, by omega⟩⟩
  · exact ⟨rfl, by simp, .inl rfl⟩

theorem onPrivilegeProbed_spec (s : Supervisor) (gen : Nat) (ok alive : Bool) (attempt : Nat) :
    (onPrivilegeProbed s gen ok alive attempt).acted = s.acted ∧
      (onPrivilegeProbed s gen ok alive attempt).state = s.state ∧
      ((onPrivilegeProbed s gen ok alive attempt).coreStarts = s.coreStarts ∨
        (onPrivilegeProbed s gen ok alive attempt).coreStarts = s.coreStarts ++ [s.acceptedGen] ∧ s.probing = true) := by
  unfold onPrivilegeProbed
  split
  · exact ⟨rfl, rfl, .inl rfl⟩
  split
  · exact ⟨rfl, rfl, .inl rfl⟩
  split
  · exact ⟨rfl, rfl, .inl rfl⟩
  rename_i hguard _ hzero
  simp only [not_or, not_and, Bool.not_eq_false] at hguard
  exact ⟨rfl, rfl, .inr ⟨rfl, hguard.1 (by omega)⟩⟩

theorem onCoreExited_spec (h : Inv s) (e : Exit) :
    (onCoreExited s e).coreStarts = s.coreStarts ∧
      ((onCoreExited s e).acted = s.acted ∨
        (onCoreExited s e).acted = s.acted ++ [e.gen] ∧ s.handledExitGen < e.gen) ∧
      ((onCoreExited s e).state = .gaveUp → s.state = .gaveUp ∨ kGiveUpAfter ≤ (onCoreExited s e).unexpected) := by
  dsimp only [onCoreExited]
  split
  · exact ⟨rfl, .inl rfl, .inl⟩
  have hnew : s.handledExitGen < e.gen := by omega
  split
  · exact ⟨rfl, .inl rfl, .inl⟩
  split
  · exact ⟨rfl, .inr ⟨rfl, hnew⟩, fun hs => absurd hs (by simp [scheduleRestart])⟩
  split
  · exact ⟨rfl, .inr ⟨rfl, hnew⟩, fun hs => absurd hs (by simp [scheduleRestart])⟩
  split
  · rename_i hgive
    refine ⟨rfl, .inr ⟨rfl, hnew⟩, fun _ => .inr ?_⟩
    have hle : ∀ (s' : Supervisor) (c : Bool), s'.failures = s.failures → s'.startFailures = s.startFailures →
        s'.unexpected = s.unexpected → (countExit s' e c).failures ≤ (countExit s' e c).unexpected ∧
          (countExit s' e c).startFailures ≤ (countExit s' e c).unexpected := by
      intro s' c e₁ e₂ e₃
      exact countExit_le (by rw [e₁, e₃]; exact h.counts.failures) (by rw [e₂, e₃]; exact h.counts.startFailures) e c
    rcases hgive with ⟨hfail, _⟩ | ⟨_, hfail⟩
    · exact Nat.le_trans hfail (hle _ _ rfl rfl rfl).1
    · exact Nat.le_trans hfail (hle _ _ rfl rfl rfl).2
  · exact ⟨rfl, .inr ⟨rfl, hnew⟩, fun hs => absurd hs (by simp [scheduleRestart])⟩

theorem handle_acted (h : Inv s) (i : Incident) :
    (handle s i).acted = s.acted ∨ ∃ g, (handle s i).acted = s.acted ++ [g] ∧ s.handledExitGen < g := by
  by_cases hi : i.plain = true
  · exact .inl (plain_handle s hi).acted
  cases i with
  | newConnection verified => exact .inl (onNewConnection_spec h verified).1
  | privilegeProbed gen ok alive attempt => exact .inl (onPrivilegeProbed_spec s gen ok alive attempt).1
  | exited e =>
    dsimp only [handle]
    split
    · exact (onCoreExited_spec h e).2.1.imp id (fun he => ⟨e.gen, he⟩)
    · exact .inl rfl
  | _ => exact absurd rfl hi

theorem handle_coreStarts (h : Inv s) (i : Incident) :
    (handle s i).coreStarts = s.coreStarts ∨
      ∃ g, (handle s i).coreStarts = s.coreStarts ++ [g] ∧ g ∉ s.acted := by
  by_cases hi : i.plain = true
  · exact .inl (plain_handle s hi).coreStarts
  cases i with
  | newConnection verified =>
    refine (onNewConnection_spec h verified).2.2.imp id (fun ⟨he, hnew⟩ => ⟨s.generation, he, fun hmem => ?_⟩)
    have := h.counts.acted _ hmem
    omega
  | privilegeProbed gen ok alive attempt =>
    refine (onPrivilegeProbed_spec s gen ok alive attempt).2.2.imp id (fun ⟨he, hp⟩ => ⟨s.acceptedGen, he, ?_⟩)
    exact h.counts.probing hp
  | exited e =>
    dsimp only [handle]
    split
    · exact .inl (onCoreExited_spec h e).1
    · exact .inl rfl
  | _ => exact absurd rfl hi

theorem handle_gaveUp (h : Inv s) (i : Incident) (hs : (handle s i).state = .gaveUp) :
    s.state = .gaveUp ∨ kGiveUpAfter ≤ (handle s i).unexpected := by
  by_cases hi : i.plain = true
  · exact .inl ((plain_handle s hi).gaveUp hs)
  cases i with
  | newConnection verified => exact .inl ((onNewConnection_spec h verified).2.1 hs)
  | privilegeProbed gen ok alive attempt =>
    left
    rw [← (onPrivilegeProbed_spec s gen ok alive attempt).2.1]
    exact hs
  | exited e =>
    dsimp only [handle] at hs ⊢
    split at hs
    · rename_i hgen
      rw [if_pos hgen]
      exact (onCoreExited_spec h e).2.2 hs
    · exact .inl hs
  | _ => exact absurd rfl hi

/-- After `shutdown` nothing changes the state or restarts the core. -/
theorem handle_shut (h : Inv s) (i : Incident) (hs : s.state = .shuttingDown) :
    (handle s i).state = .shuttingDown ∧ (handle s i).restarts = s.restarts ∧
      (handle s i).restartCount = s.restartCount := by
  have hprepare := h.states.shut hs
  have hexit : exiting s = true := by simp [exiting, hs]
  have hcan : canStartCore s = false := by simp [canStartCore, hs]
  cases i with
  | runTask =>
    dsimp only [handle]
    split
    · exact ⟨hs, rfl, rfl⟩
    rename_i task tasks _
    cases task with
    | restart => simp [runTask, hprepare, hs]
    | killExpected reset =>
      dsimp only [runTask]
      split
      · exact ⟨hs, rfl, rfl⟩
      · exact ⟨hs, rfl, rfl⟩
    | _ => exact ⟨hs, rfl, rfl⟩
  | spawned gen => simp [handle, onCoreSpawned, hs]
  | newConnection verified =>
    dsimp only [handle, onNewConnection]
    split
    · exact ⟨hs, rfl, rfl⟩
    split
    · exact ⟨hs, rfl, rfl⟩
    · simp [exiting, hs]
  | privilegeProbed gen ok alive attempt => simp [handle, onPrivilegeProbed, hs]
  | exited e =>
    dsimp only [handle]
    split
    · dsimp only [onCoreExited]
      split
      · exact ⟨hs, rfl, rfl⟩
      · simp [exiting, hs]
    · exact ⟨hs, rfl, rfl⟩
  | connectTimeout =>
    dsimp only [handle]
    split
    · simp [onConnectTimeout, hs]
    · exact ⟨hs, rfl, rfl⟩
  | restartTimeout =>
    dsimp only [handle]
    split
    · simp [postRestart, hs]
    · exact ⟨hs, rfl, rfl⟩
  | resetCore => simp [handle, resetCore, hcan, hs]
  | restartNotListening profileId => simp [handle, restartNotListening, hcan, hs]
  | restartForGuard => simp [handle, restartForGuard, hcan, hs]
  | restartDeadCore profileId => simp [handle, restartDeadCore, hexit, hs]
  | killForPrivilegeChange => simp [handle, killForPrivilegeChange, hs]
  | setStartWhenUp profileId =>
    dsimp only [handle]
    split
    · exact ⟨hs, rfl, rfl⟩
    · exact ⟨hs, rfl, rfl⟩
  | setStartedId profileId => exact ⟨hs, rfl, rfl⟩
  | cancelResume => exact ⟨hs, rfl, rfl⟩
  | prepareExit => exact ⟨hs, rfl, rfl⟩
  | shutdown => simp [handle, hprepare, shutdown, post]
  | killForExit => simp [handle, hprepare, killForExit, shutdown, post]

/-- The supervisor once the process thread has run the tasks that are queued. -/
def drained (s : Supervisor) : Supervisor := s.tasks.foldl runTask s

theorem runTask_generation (s : Supervisor) (task : Task) :
    s.generation ≤ (runTask s task).generation ∧ (runTask s task).prepareExit = s.prepareExit ∧
      (s.process = true → (runTask s task).process = true) := by
  cases task with
  | restart =>
    dsimp only [runTask]
    split
    · exact ⟨.refl, rfl, id⟩
    · exact ⟨le_succ _, rfl, id⟩
  | start => exact ⟨le_succ _, rfl, fun _ => rfl⟩
  | killExpected reset =>
    dsimp only [runTask]
    split
    · exact ⟨.refl, rfl, id⟩
    · exact ⟨.refl, rfl, id⟩
  | killGeneration gen => exact ⟨.refl, rfl, id⟩
  | kill => exact ⟨.refl, rfl, id⟩

theorem generation_le_foldl (tasks : List Task) (s : Supervisor) :
    s.generation ≤ (tasks.foldl runTask s).generation := by
  induction tasks generalizing s with
  | nil => exact .refl
  | cons task tasks ih => exact Nat.le_trans (runTask_generation s task).1 (ih (runTask s task))

theorem generation_lt_foldl (tasks : List Task) (s : Supervisor) (hp : s.prepareExit = false)
    (hprocess : s.process = true ∨ tasks.head? = some .start) (hq : tasks.any Task.starts = true) :
    s.generation < (tasks.foldl runTask s).generation := by
  induction tasks generalizing s with
  | nil => cases hq
  | cons task tasks ih =>
    have hspec := runTask_generation s task
    by_cases hstarts : task.starts = true
    · refine Nat.lt_of_lt_of_le ?_ (generation_le_foldl tasks (runTask s task))
      cases task with
      | start => exact Nat.lt_succ_self _
      | restart =>
        have hthere : s.process = true := hprocess.resolve_right (by simp)
        simp [runTask, hthere, hp]
      | killExpected reset => exact absurd hstarts (by simp [Task.starts])
      | killGeneration gen => exact absurd hstarts (by simp [Task.starts])
      | kill => exact absurd hstarts (by simp [Task.starts])
    · have hthere : s.process = true := by
        refine hprocess.resolve_right (fun hhead => hstarts ?_)
        rw [head?_cons, Option.some.injEq] at hhead
        rw [hhead]
        rfl
      rw [any_cons, Bool.or_eq_true] at hq
      refine Nat.lt_of_le_of_lt hspec.1 (ih _ (by rw [hspec.2.1,
        hp]) (.inl (hspec.2.2 hthere)) (hq.resolve_left hstarts))

/-! ## The promise -/

/-- What the supervisor promises of a state it is in, and of the next incident. -/
structure Supervised (s : Supervisor) : Prop where
  /-- The exit of a generation is acted on once, and not after a restart was posted while
  that generation, or a later one, was the current one. -/
  exitOnce : s.acted.Nodup
  exitCurrent : ∀ i g, (handle s i).acted = s.acted ++ [g] → g ∉ s.acted ∧ ∀ p ∈ s.posted, p < g
  /-- `coreStarted` is emitted at most once for a connection, and not for a generation whose
  exit was acted on. -/
  startedOnce : ∀ g, s.coreStarts.count g ≤ s.accepts.count g
  startedAlive : ∀ i g, (handle s i).coreStarts = s.coreStarts ++ [g] → g ∉ s.acted
  /-- Unless an exit is prepared, the exit of the current core counts or a newer one is queued. -/
  watched : s.state = .starting ∨ s.state = .connected → s.prepareExit = false →
    s.handledExitGen < currentGeneration s ∨ s.generation < (drained s).generation
  backoff : s.state = .backoff → s.restartTimer = true ∨ s.prepareExit = true
  gaveUp : ∀ i, s.state ≠ .gaveUp → (handle s i).state = .gaveUp → kGiveUpAfter ≤ (handle s i).unexpected
  shut : ∀ i, s.state = .shuttingDown → (handle s i).state = .shuttingDown ∧ (handle s i).restarts = s.restarts ∧
    (handle s i).restartCount = s.restartCount

theorem Inv.supervised (h : Inv s) : Supervised s where
  exitOnce := h.counts.actedOnce
  exitCurrent i g hg := by
    rcases handle_acted h i with hsame | ⟨k, hk, hnew⟩
    · rw [hsame] at hg
      simp at hg
    rw [hk] at hg
    have hgk : k = g := by simpa using hg
    refine ⟨fun hmem => ?_, fun p hp => ?_⟩
    · have := h.counts.acted _ hmem
      omega
    · have := h.counts.posted p hp
      omega
  startedOnce g := by
    have := h.counts.coreStarts g
    omega
  startedAlive i g hg := by
    rcases handle_coreStarts h i with hsame | ⟨k, hk, hnot⟩
    · rw [hsame] at hg
      simp at hg
    rw [hk] at hg
    have hgk : k = g := by simpa using hg
    subst hgk
    exact hnot
  watched hs hp := by
    rw [h.counts.current]
    refine (h.states.alive hs hp).imp id (fun hq => ?_)
    refine generation_lt_foldl s.tasks s hp (h.counts.process.imp id ?_) hq
    rintro ⟨_, hhead | hstate | hstate⟩
    · exact hhead
    · rcases hs with hs | hs
      · simp [hs] at hstate
      · simp [hs] at hstate
    · rcases hs with hs | hs
      · simp [hs] at hstate
      · simp [hs] at hstate
  backoff := h.states.timer
  gaveUp i hnot hs := (handle_gaveUp h i hs).resolve_left hnot
  shut i hs := handle_shut h i hs

theorem inv_booted (windows listening : Bool) (startWhenUpProfileId : Int) :
    Inv (booted windows listening startWhenUpProfileId) := by
  have hfirst : ∀ (state : CoreState) (tasks : List Task) (w : Int),
      (state = .starting ∧ tasks = [.start]) ∨ (state = .listenFailed ∧ tasks = []) →
      Inv { windows := windows, state := state, tasks := tasks, startWhenUp := w } := by
    rintro state tasks w (⟨rfl, rfl⟩ | ⟨rfl, rfl⟩)
    · exact ⟨⟨by simp, by simp, by simp, by simp, by simp, by simp, by simp, by simp, by simp, by simp, by simp⟩,
        ⟨fun _ _ => .inr rfl, by simp, by simp, by simp⟩⟩
    · exact ⟨⟨by simp, by simp, by simp, by simp, by simp, by simp, by simp, by simp, by simp, by simp, by simp⟩,
        ⟨by simp, by simp, by simp, by simp⟩⟩
  cases listening with
  | false => exact hfirst .listenFailed [] (-1) (.inr ⟨rfl, rfl⟩)
  | true =>
    by_cases hid : 0 ≤ startWhenUpProfileId
    · have heq : booted windows true startWhenUpProfileId =
          { windows := windows, state := .starting, tasks := [.start], startWhenUp := startWhenUpProfileId } := by
        simp [booted, start, hid, post]
      rw [heq]
      exact hfirst _ _ _ (.inl ⟨rfl, rfl⟩)
    · have heq : booted windows true startWhenUpProfileId =
          { windows := windows, state := .starting, tasks := [.start] } := by
        simp [booted, start, hid, post]
      rw [heq]
      exact hfirst _ _ _ (.inl ⟨rfl, rfl⟩)

/-- **The core is supervised**, whatever the order of the incidents. -/
theorem run_supervised (windows listening : Bool) (startWhenUpProfileId : Int) (incidents : List Incident) :
    Supervised (runFrom (booted windows listening startWhenUpProfileId) incidents) := by
  have hrun : Inv (runFrom (booted windows listening startWhenUpProfileId) incidents) :=
    foldl_keeps handle Inv (fun s i h => h.handle i) incidents _ (inv_booted _ _ _)
  exact hrun.supervised

/-- A core that connects, and dies while an exit is prepared. -/
def exitPrepared : Supervisor :=
  runFrom (booted false true (-1))
    [.runTask, .spawned 1, .newConnection true, .prepareExit, .exited ⟨1, false, 1, false, false, false⟩]

/-- Two restarts are queued at once, and what the first one starts fails. -/
def twoRestarts : Supervisor :=
  runFrom (booted false true (-1))
    [.runTask, .restartNotListening 3, .restartNotListening 4, .runTask, .exited ⟨2, true, -1, false, false, false⟩]

/-- The state stays when the core dies while an exit is prepared, and its exit is taken as
handled with nothing queued.  And of two restarts that are queued at once, the second does
not keep the exit of the generation between them from being acted on. -/
theorem exit_prepared_unwatched :
    (exitPrepared.state = .connected ∧ ¬ exitPrepared.handledExitGen < currentGeneration exitPrepared ∧
      ¬ exitPrepared.generation < (drained exitPrepared).generation) ∧
    twoRestarts.acted = [2] ∧ twoRestarts.tasks = [.restart] := by
  decide

end Waterdisco.Core
