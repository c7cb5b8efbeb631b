import Waterdisco.Stats.AutoSelector
import Mathlib.Algebra.Order.Ring.Nat
import Mathlib.Data.List.Induction

/-!
# Requests for a new pool

A run is polls and rebuilds under one clock.  A request is sent when every member has failed for
the grace period, and the back-off doubles from one request to the next as long as it is not
cleared.

    run events               the monitor, the requests and since when all members fail
    WellSpaced times         the k-th gap is at least the k-th back-off
-/

namespace Waterdisco.Stats.AutoSelector

open Option Prod List Monitor Nat MemberView

/-! ## Whole polls -/

/-- What the core answers: its selectors, unless the call fails, and then the name of the default interface. -/
structure Answer where
  groups : Option (List Status)
  interface : Option String
deriving DecidableEq

namespace Monitor

def readStatus (m : Monitor) (answer : Answer) : Option Status :=
  answer.groups.bind fun groups => m.wantedTag.bind fun tag => groups.find? (fun group => group.tag == tag)

/-- The view of a status and its usable members. -/
def read (m : Monitor) (status : Status) : View × Nat := m.translate status (nextView m.groupTag status)

/-- `PersistHealth` once its time has come. -/
def persistAfter (now : Nat) (m : Monitor) : Monitor :=
  if kHealthPersistSecs * 1000 ≤ now - m.lastHealthPersist then ((m.persistHealth now).map fst).getD m else m

/-- The monitor afterwards, and the profile of `poolExhausted`; without a default interface there is no request. -/
def poll (now : Nat) (answer : Answer) (m : Monitor) : Monitor × Option Int :=
  match m.readStatus answer with
  | none => (m, none)
  | some status =>
    match m.publish now (m.read status).2 (m.read status).1 with
    | none => (m, none)
    | some (polled, fire) =>
      (polled.persistAfter now, if fire && answer.interface != some "" then some (m.read status).1.profileID else none)

end Monitor

/-! ## Runs -/

inductive Event
  | poll (now : Nat) (answer : Answer)
  | setBuild (now : Nat) (infos : List BuildInfo)
  | clear (now : Nat)

def Event.time : Event → Nat
  | poll now _ => now
  | setBuild now _ => now
  | clear now => now

/-- No member is reported as working. -/
def Event.failing : Event → Prop
  | poll _ answer => ∀ groups, answer.groups = some groups →
      ∀ status ∈ groups, ∀ member ∈ status.members, member.state ≠ "ok" ∧ member.state ≠ "degraded"
  | _ => True

structure Request where
  time : Nat
  /-- The first of the polls of the running pool in which all members failed, with none in which one did not. -/
  failingSince : Option Nat

structure Run where
  monitor : Monitor := {}
  failingSince : Option Nat := none
  requests : List Request := []

/-- Every member is unusable, one that was not reached yet being usable, and the core is not suspended. -/
def Status.allFail (status : Status) : Bool :=
  !status.suspended && status.members.all (fun member => decide (member.state ∉ ["ok", "degraded", "untested"]))

def failingAfter (now : Nat) (status : Option Status) (since : Option Nat) : Option Nat :=
  match status with
  | none => since
  | some status => if status.allFail then since.or (some now) else none

def step (r : Run) : Event → Run
  | .poll now answer =>
    let since := failingAfter now (r.monitor.readStatus answer) r.failingSince
    let polled := r.monitor.poll now answer
    { monitor := polled.1
      failingSince := since
      requests := if polled.2.isSome then r.requests ++ [{ time := now, failingSince := since }] else r.requests }
  | .setBuild now infos => { r with monitor := r.monitor.setBuild now infos, failingSince := none }
  | .clear now => { r with monitor := (((r.monitor.persistHealth now).map fst).getD r.monitor).clear, failingSince := none }

def run (events : List Event) : Run := events.foldl step {}

/-- After the `k`-th request, counted from 0. -/
def backoffSecs (k : Nat) : Nat := min (kRebuildBackoffMinSecs * 2 ^ k) kRebuildBackoffMaxSecs

def WellSpaced (times : List Nat) : Prop :=
  ∀ k a b, times[k]? = some a → times[k + 1]? = some b → a + backoffSecs k * 1000 ≤ b

/-- A request comes after the grace, and the gaps grow. -/
structure Patient (r : Run) : Prop where
  grace : ∀ request ∈ r.requests, ∃ since, request.failingSince = some since ∧
    since + kPoolExhaustedGraceSecs * 1000 ≤ request.time
  gaps : WellSpaced (r.requests.map Request.time)

/-- No poll finds an untested member while a back-off is set. -/
def NoneUntested (r : Run) : Event → Prop
  | .poll _ answer => r.monitor.rebuildBackoffSecs ≠ 0 →
      ∀ status, r.monitor.readStatus answer = some status → ∀ member ∈ status.members, member.state ≠ "untested"
  | _ => True

/-! ## The back-off -/

theorem backoffSecs_zero : backoffSecs 0 = kRebuildBackoffMinSecs := by decide

theorem backoffSecs_pos (k : Nat) : 0 < backoffSecs k := by
  have hpow : 0 < 2 ^ k := Nat.two_pow_pos k
  simp only [backoffSecs, kRebuildBackoffMinSecs, kRebuildBackoffMaxSecs]
  omega

variable {secs now : Nat} {events : List Event} {r : Run} {e : Event} {m : Monitor} {status : Status}

theorem min_le_nextBackoff (h : secs = 0 ∨ kRebuildBackoffMinSecs ≤ secs) :
    kRebuildBackoffMinSecs ≤ nextBackoff secs := by
  simp only [nextBackoff, kRebuildBackoffMinSecs, kRebuildBackoffMaxSecs] at h ⊢
  split
  · exact le_refl 60
  · omega

/-- A back-off that is long enough for a request is doubled to one for the next. -/
theorem backoffSecs_succ_le {k : Nat} (h : backoffSecs k ≤ secs) : backoffSecs (k + 1) ≤ nextBackoff secs := by
  have hpos := backoffSecs_pos k
  have hpow : 2 ^ (k + 1) = 2 ^ k * 2 := pow_succ 2 k
  rw [nextBackoff, if_neg (by omega)]
  simp only [backoffSecs, kRebuildBackoffMinSecs, kRebuildBackoffMaxSecs] at h ⊢
  omega

theorem backoffSecs_le_next {k : Nat} (h : backoffSecs k ≤ secs) : backoffSecs k ≤ nextBackoff secs := by
  have hpos := backoffSecs_pos k
  rw [nextBackoff, if_neg (by omega)]
  simp only [backoffSecs, kRebuildBackoffMinSecs, kRebuildBackoffMaxSecs] at h ⊢
  omega

theorem WellSpaced.concat {times : List Nat} (h : WellSpaced times)
    (hnow : ∀ last, times.getLast? = some last → last + backoffSecs (times.length - 1) * 1000 ≤ now) :
    WellSpaced (times ++ [now]) := by
  intro k a b ha hb
  rcases lt_trichotomy (k + 1) times.length with hk | hk | hk
  · rw [getElem?_append_left (by omega)] at ha hb
    exact h k a b ha hb
  · rw [getElem?_append_left (by omega)] at ha
    have hlast : times.getLast? = some a := by
      rw [getLast?_eq_getElem?, ← ha, ← hk, Nat.add_sub_cancel]
    have hnow' := hnow a hlast
    rw [← hk, Nat.add_sub_cancel] at hnow'
    rw [hk] at hb
    simp only [getElem?_concat_length, some.injEq] at hb
    omega
  · rw [getElem?_eq_none (by simp; omega)] at hb
    cases hb

/-! ## One poll -/

namespace Monitor

variable {answer : Answer} (now : Nat) (m : Monitor)

theorem persistAfter_eq :
    ∃ lastHealthPersist, m.persistAfter now = { m with lastHealthPersist } := by
  unfold persistAfter persistHealth
  split
  · split
    · exact ⟨_, rfl⟩
    · exact ⟨now, rfl⟩
  · exact ⟨_, rfl⟩

@[simp] theorem persistAfter_exhaustedSince : (m.persistAfter now).exhaustedSince = m.exhaustedSince := by
  obtain ⟨last, h⟩ := m.persistAfter_eq now
  rw [h]

@[simp] theorem persistAfter_lastRebuildRequest :
    (m.persistAfter now).lastRebuildRequest = m.lastRebuildRequest := by
  obtain ⟨last, h⟩ := m.persistAfter_eq now
  rw [h]

@[simp] theorem persistAfter_rebuildBackoffSecs :
    (m.persistAfter now).rebuildBackoffSecs = m.rebuildBackoffSecs := by
  obtain ⟨last, h⟩ := m.persistAfter_eq now
  rw [h]

theorem active_of_readStatus {m : Monitor} {status : Status} (h : m.readStatus answer = some status) :
    m.active = true := by
  obtain ⟨groups, -, h⟩ := bind_eq_some_iff.mp h
  obtain ⟨tag, htag, -⟩ := bind_eq_some_iff.mp h
  rw [wantedTag] at htag
  by_contra hactive
  rw [if_neg hactive] at htag
  cases htag

/-- What a poll does to the request state. -/
structure Polled (now usable : Nat) (next : View) (m m' : Monitor) (emitted : Option Int) : Prop where
  exhaustedSince : m'.exhaustedSince = if m.fires now usable next then 0 else m.exhaustedFrom now usable next
  lastRebuildRequest : m'.lastRebuildRequest = if m.fires now usable next then now else m.lastRebuildRequest
  rebuildBackoffSecs : m'.rebuildBackoffSecs =
    if 0 < usable then 0 else if m.fires now usable next then nextBackoff m.rebuildBackoffSecs else m.rebuildBackoffSecs
  emitted : emitted.isSome = true → m.fires now usable next = true

theorem poll_none {m : Monitor} (h : m.readStatus answer = none) (now : Nat) : m.poll now answer = (m, none) := by
  rw [poll, h]

theorem poll_some {m : Monitor} {status : Status} (h : m.readStatus answer = some status) (now : Nat) :
    Polled now (m.read status).2 (m.read status).1 m
      (m.poll now answer).1 (m.poll now answer).2 := by
  have hactive := active_of_readStatus h
  rw [poll, h]
  simp only [publish, hactive, Bool.not_true, Bool.false_eq_true, if_false]
  constructor
  · simp only [persistAfter_exhaustedSince]
  · simp only [persistAfter_lastRebuildRequest]
  · simp only [persistAfter_rebuildBackoffSecs]
  · intro hemitted
    by_contra hfire
    simp [hfire] at hemitted

end Monitor

/-! ## Runs without a cleared back-off -/

/-- After the events so far. -/
structure Inv (events : List Event) (r : Run) : Prop where
  rebuildBefore : ∀ t, (∀ e ∈ events, e.time ≤ t) → r.monitor.lastRebuildRequest ≤ t
  failingBefore : ∀ t, (∀ e ∈ events, e.time ≤ t) → ∀ since, r.failingSince = some since → since ≤ t
  exhausted : r.monitor.exhaustedSince ≠ 0 → ∃ since, r.failingSince = some since ∧ since ≤ r.monitor.exhaustedSince
  backoff : r.monitor.rebuildBackoffSecs = 0 ∨ kRebuildBackoffMinSecs ≤ r.monitor.rebuildBackoffSecs
  /-- The last request was answered by a back-off of at least its length. -/
  last : ∀ request, r.requests.getLast? = some request →
    request.time ≤ r.monitor.lastRebuildRequest ∧ 0 < r.monitor.lastRebuildRequest ∧
      backoffSecs (r.requests.length - 1) ≤ r.monitor.rebuildBackoffSecs
  patient : Patient r

theorem inv_empty : Inv [] {} where
  rebuildBefore _ _ := zero_le _
  failingBefore _ _ since h := by cases h
  exhausted h := absurd rfl h
  backoff := .inl rfl
  last request h := by cases h
  patient := ⟨fun _ h => absurd h not_mem_nil, fun k a b ha => by simp at ha⟩

/-- A build or a stop leaves the requests and the back-off as they are. -/
theorem Inv.reset (h : Inv events r) (e : Event) (hexhausted : m.exhaustedSince = 0)
    (hlast : m.lastRebuildRequest = r.monitor.lastRebuildRequest)
    (hbackoff : m.rebuildBackoffSecs = r.monitor.rebuildBackoffSecs) :
    Inv (events ++ [e]) { r with monitor := m, failingSince := none } where
  rebuildBefore t ht := by
    show m.lastRebuildRequest ≤ t
    rw [hlast]
    exact h.rebuildBefore t (fun a ha => ht a (mem_append_left _ ha))
  failingBefore t ht since hsince := by cases hsince
  exhausted hne := absurd hexhausted hne
  backoff := by
    show m.rebuildBackoffSecs = 0 ∨ _ ≤ m.rebuildBackoffSecs
    rw [hbackoff]
    exact h.backoff
  last request hrequest := by
    show request.time ≤ m.lastRebuildRequest ∧ 0 < m.lastRebuildRequest ∧ _ ≤ m.rebuildBackoffSecs
    rw [hlast, hbackoff]
    exact h.last request hrequest
  patient := ⟨h.patient.grace, h.patient.gaps⟩

/-! ### A poll that reads a status -/

theorem everythingDead_allFail
    (h : everythingDead (m.read status).2 (m.read status).1 = true) :
    status.allFail = true := by
  simp only [everythingDead, Monitor.read, Monitor.translate, nextView, Bool.and_eq_true,
    beq_iff_eq, List.countP_eq_zero] at h
  obtain ⟨⟨⟨hnone, -⟩, hsuspended⟩, -⟩ := h
  rw [Status.allFail, Bool.and_eq_true, List.all_eq_true]
  refine ⟨hsuspended, fun member hmember => ?_⟩
  have hview := hnone (m.memberView member) (List.mem_map_of_mem hmember)
  simpa [countsAsUsable, isUsable, Monitor.memberView, and_assoc] using hview

theorem untested_of_usable
    (hfailing : ∀ member ∈ status.members, member.state ≠ "ok" ∧ member.state ≠ "degraded")
    (h : 0 < (m.read status).2) : ∃ member ∈ status.members, member.state = "untested" := by
  obtain ⟨e, he, hcounts⟩ := countP_pos_iff.mp h
  obtain ⟨member, hmember, rfl⟩ := mem_map.mp he
  refine ⟨member, hmember, ?_⟩
  simpa [countsAsUsable, isUsable, memberView, hfailing member hmember] using hcounts

theorem exhaustedFrom_failing (h : Inv events r) (hnow : ∀ e ∈ events, e.time ≤ now)
    (hne : r.monitor.exhaustedFrom now (r.monitor.read status).2
      (r.monitor.read status).1 ≠ 0) :
    ∃ since, failingAfter now (some status) r.failingSince = some since ∧
      since ≤ r.monitor.exhaustedFrom now (r.monitor.read status).2
        (r.monitor.read status).1 := by
  rw [exhaustedFrom] at hne ⊢
  cases hdead : everythingDead (r.monitor.read status).2
      (r.monitor.read status).1 with
  | false => simp [hdead] at hne
  | true =>
    rw [Bool.not_true, if_neg Bool.false_ne_true, failingAfter, everythingDead_allFail hdead]
    by_cases hold : r.monitor.exhaustedSince = 0
    · rw [if_pos hold]
      cases hsince : r.failingSince with
      | none => exact ⟨now, rfl, le_refl now⟩
      | some since => exact ⟨since, rfl, h.failingBefore now hnow since hsince⟩
    · rw [if_neg hold]
      obtain ⟨since, hsince, hle⟩ := h.exhausted hold
      exact ⟨since, by rw [hsince]; rfl, hle⟩

theorem due_of_fires {usable : Nat} {next : View} (h : m.fires now usable next = true) :
    m.exhaustedFrom now usable next ≠ 0 ∧ m.exhaustedFrom now usable next + kPoolExhaustedGraceSecs * 1000 ≤ now ∧
      usable = 0 ∧ (m.lastRebuildRequest = 0 ∨ m.rebuildBackoffSecs * 1000 ≤ now - m.lastRebuildRequest) := by
  simp only [fires, Bool.and_eq_true, Bool.or_eq_true, bne_iff_ne, ne_eq, decide_eq_true_eq, beq_iff_eq] at h
  obtain ⟨⟨hsince, hgrace⟩, hbackoff⟩ := h
  refine ⟨hsince, ?_, ?_, hbackoff⟩
  · simp only [kPoolExhaustedGraceSecs] at hgrace ⊢
    omega
  · rw [exhaustedFrom] at hsince
    by_contra husable
    simp [everythingDead, husable] at hsince

theorem passed_of_sub {time rebuild needed : Nat} (htime : time ≤ rebuild) (hpos : 0 < needed) (hlong : needed ≤ secs)
    (h : secs * 1000 ≤ now - rebuild) : time + needed * 1000 ≤ now := by
  omega

/-- What a poll that reads a status does to a run. -/
structure Stepped (now : Nat) (status : Status) (r r' : Run) : Prop where
  exhaustedSince : r'.monitor.exhaustedSince =
    if r.monitor.fires now (r.monitor.read status).2 (r.monitor.read status).1 then 0
    else r.monitor.exhaustedFrom now (r.monitor.read status).2 (r.monitor.read status).1
  lastRebuildRequest : r'.monitor.lastRebuildRequest =
    if r.monitor.fires now (r.monitor.read status).2 (r.monitor.read status).1 then now else r.monitor.lastRebuildRequest
  rebuildBackoffSecs : r'.monitor.rebuildBackoffSecs =
    if r.monitor.fires now (r.monitor.read status).2 (r.monitor.read status).1 then nextBackoff r.monitor.rebuildBackoffSecs
    else r.monitor.rebuildBackoffSecs
  failingSince : r'.failingSince = failingAfter now (some status) r.failingSince
  requests : r'.requests = r.requests ∨
    r.monitor.fires now (r.monitor.read status).2 (r.monitor.read status).1 = true ∧
      r'.requests = r.requests ++ [{ time := now, failingSince := failingAfter now (some status) r.failingSince }]

/-- A member that counts as usable is untested, and then there is no back-off to clear. -/
theorem stepped_poll {answer : Answer} (hstatus : r.monitor.readStatus answer = some status)
    (hfailing : (Event.poll now answer).failing) (hcond : NoneUntested r (.poll now answer)) :
    Stepped now status r (step r (.poll now answer)) := by
  obtain ⟨hexhausted, hlast, hbackoff, hemitted⟩ := poll_some hstatus now
  refine ⟨hexhausted, hlast, ?_, by simp only [step, hstatus], ?_⟩
  · refine hbackoff.trans ?_
    by_cases husable : 0 < (r.monitor.read status).2
    · have hfire : ¬r.monitor.fires now (r.monitor.read status).2 (r.monitor.read status).1 = true := by
        intro hfire
        have hzero := (due_of_fires hfire).2.2.1
        omega
      rw [if_pos husable, if_neg hfire]
      by_contra hne
      obtain ⟨groups, hgroups, hfound⟩ := bind_eq_some_iff.mp hstatus
      obtain ⟨tag, -, hfound⟩ := bind_eq_some_iff.mp hfound
      obtain ⟨member, hmember, huntested⟩ :=
        untested_of_usable (hfailing groups hgroups status (mem_of_find?_eq_some hfound)) husable
      exact hcond (Ne.symm hne) status hstatus member hmember huntested
    · rw [if_neg husable]
  · by_cases hsent : (r.monitor.poll now answer).2.isSome = true
    · exact .inr ⟨hemitted hsent, by simp only [step, hstatus, hsent, if_true]⟩
    · exact .inl (by simp only [step, hsent, Bool.false_eq_true, if_false])

theorem Inv.failing_le (h : Inv events r) (hnow : ∀ e ∈ events, e.time ≤ now)
    (status : Status) {since : Nat} (hsince : failingAfter now (some status) r.failingSince = some since) : since ≤ now := by
  rw [failingAfter] at hsince
  split at hsince
  · cases hold : r.failingSince with
    | none =>
      rw [hold] at hsince
      exact (some.inj hsince).symm.le
    | some old =>
      rw [hold] at hsince
      exact h.failingBefore now hnow since (hold.trans hsince)
  · cases hsince

theorem time_le_of_concat {t : Nat} (h : ∀ a ∈ events ++ [e], a.time ≤ t) :
    e.time ≤ t ∧ ∀ a ∈ events, a.time ≤ t :=
  ⟨h e (by simp), fun a ha => h a (mem_append_left _ ha)⟩

theorem Inv.poll_quiet {r' : Run} (h : Inv events r) (hnow : ∀ a ∈ events, a.time ≤ e.time)
    (hstep : Stepped e.time status r r')
    (hfire : r.monitor.fires e.time (r.monitor.read status).2 (r.monitor.read status).1 = false) :
    Inv (events ++ [e]) r' := by
  obtain ⟨hexhausted, hlast, hbackoff, hsince, hrequests⟩ := hstep
  rw [hfire] at hexhausted hlast hbackoff hrequests
  rw [if_neg Bool.false_ne_true] at hexhausted hlast hbackoff
  have hquiet : r'.requests = r.requests := hrequests.resolve_right fun hsent => Bool.false_ne_true hsent.1
  refine ⟨?_, ?_, ?_, hbackoff ▸ h.backoff, ?_, ?_⟩
  · intro t ht
    exact hlast.le.trans (h.rebuildBefore t (time_le_of_concat ht).2)
  · intro t ht since hsome
    exact le_trans (h.failing_le hnow status (hsince.symm.trans hsome)) (time_le_of_concat ht).1
  · intro hne
    rw [hexhausted] at hne ⊢
    rw [hsince]
    exact exhaustedFrom_failing h hnow hne
  · intro request hrequest
    rw [hquiet] at hrequest ⊢
    rw [hlast, hbackoff]
    exact h.last request hrequest
  · constructor
    · rw [hquiet]
      exact h.patient.grace
    · rw [hquiet]
      exact h.patient.gaps

/-- A poll at which a request is due; it is not sent without a default interface. -/
theorem Inv.poll_fires {r' : Run} (h : Inv events r) (hnow : ∀ a ∈ events, a.time ≤ e.time)
    (hstep : Stepped e.time status r r')
    (hfire : r.monitor.fires e.time (r.monitor.read status).2 (r.monitor.read status).1 = true) :
    Inv (events ++ [e]) r' := by
  obtain ⟨hne, hgrace, -, hdue⟩ := due_of_fires hfire
  obtain ⟨since, hsome, hle⟩ := exhaustedFrom_failing h hnow hne
  obtain ⟨hexhausted, hlast, hbackoff, hsince, hrequests⟩ := hstep
  rw [hfire, if_pos rfl] at hexhausted hlast hbackoff
  have hpos : 0 < e.time := by
    simp only [kPoolExhaustedGraceSecs] at hgrace
    omega
  have hspaced : ∀ last, (r.requests.map Request.time).getLast? = some last →
      last + backoffSecs ((r.requests.map Request.time).length - 1) * 1000 ≤ e.time := by
    intro last hrequest
    rw [getLast?_map, map_eq_some_iff] at hrequest
    obtain ⟨request, hrequest, rfl⟩ := hrequest
    rw [length_map]
    obtain ⟨htime, hlastPos, hlong⟩ := h.last request hrequest
    exact passed_of_sub htime (backoffSecs_pos _) hlong (hdue.resolve_left (ne_of_gt hlastPos))
  refine ⟨?_, ?_, fun hne => absurd hexhausted hne, .inr (hbackoff ▸ min_le_nextBackoff h.backoff), ?_, ?_⟩
  · intro t ht
    exact hlast.le.trans (time_le_of_concat ht).1
  · intro t ht since hsome
    exact le_trans (h.failing_le hnow status (hsince.symm.trans hsome)) (time_le_of_concat ht).1
  · intro request hrequest
    rw [hlast, hbackoff]
    rcases hrequests with hkept | ⟨-, hsent⟩
    · rw [hkept] at hrequest ⊢
      obtain ⟨htime, -, hlong⟩ := h.last request hrequest
      exact ⟨le_trans htime (h.rebuildBefore _ hnow), hpos, backoffSecs_le_next hlong⟩
    rw [hsent] at hrequest ⊢
    rw [getLast?_concat, some.injEq] at hrequest
    rw [length_append, length_singleton, Nat.add_sub_cancel, ← hrequest]
    refine ⟨.refl, hpos, ?_⟩
    cases hcases : r.requests.getLast? with
    | none =>
      rw [getLast?_eq_none_iff.mp hcases, length_nil, backoffSecs_zero]
      exact min_le_nextBackoff h.backoff
    | some last =>
      have hlong := (h.last last hcases).2.2
      have hlength : 0 < r.requests.length := length_pos_of_mem (mem_of_getLast? hcases)
      rw [← Nat.sub_add_cancel hlength]
      exact backoffSecs_succ_le hlong
  · rcases hrequests with hkept | ⟨-, hsent⟩
    · exact ⟨hkept ▸ h.patient.grace, hkept ▸ h.patient.gaps⟩
    constructor
    · intro request hrequest
      rw [hsent] at hrequest
      rcases mem_append.mp hrequest with hold | hnew
      · exact h.patient.grace request hold
      · rw [mem_singleton.mp hnew]
        exact ⟨since, hsome, le_trans (Nat.add_le_add_right hle _) hgrace⟩
    · rw [hsent, map_append]
      exact h.patient.gaps.concat hspaced

/-- **A poll that clears no back-off keeps the invariant.** -/
theorem Inv.poll (h : Inv events r) {answer : Answer}
    (hnow : ∀ e ∈ events, e.time ≤ now) (hfailing : (Event.poll now answer).failing)
    (hcond : NoneUntested r (.poll now answer)) : Inv (events ++ [.poll now answer]) (step r (.poll now answer)) := by
  cases hstatus : r.monitor.readStatus answer with
  | none =>
    have hstep : step r (.poll now answer) = r := by
      simp only [step, hstatus, poll_none hstatus, failingAfter, isSome_none, Bool.false_eq_true, if_false]
    rw [hstep]
    exact ⟨fun t ht => h.rebuildBefore t (time_le_of_concat ht).2,
      fun t ht => h.failingBefore t (time_le_of_concat ht).2,
      h.exhausted, h.backoff, h.last, h.patient⟩
  | some status =>
    have hstep := stepped_poll hstatus hfailing hcond
    cases hfire : r.monitor.fires now (r.monitor.read status).2 (r.monitor.read status).1 with
    | false => exact h.poll_quiet (e := .poll now answer) hnow hstep hfire
    | true => exact h.poll_fires (e := .poll now answer) hnow hstep hfire

theorem persistHealth_cleared (now : Nat) (m : Monitor) :
    (((m.persistHealth now).map fst).getD m).clear.exhaustedSince = 0 ∧
      (((m.persistHealth now).map fst).getD m).clear.lastRebuildRequest = m.lastRebuildRequest ∧
      (((m.persistHealth now).map fst).getD m).clear.rebuildBackoffSecs = m.rebuildBackoffSecs := by
  rw [persistHealth]
  split <;> exact ⟨rfl, rfl, rfl⟩

theorem setBuild_requests (now : Nat) (infos : List BuildInfo) (m : Monitor) :
    (m.setBuild now infos).exhaustedSince = 0 ∧ (m.setBuild now infos).lastRebuildRequest = m.lastRebuildRequest ∧
      (m.setBuild now infos).rebuildBackoffSecs = m.rebuildBackoffSecs := by
  cases infos with
  | nil => exact ⟨rfl, rfl, rfl⟩
  | cons info rest => exact ⟨rfl, rfl, rfl⟩

theorem inv_run (hclock : (events.map Event.time).Pairwise (· ≤ ·)) (hfailing : ∀ e ∈ events, e.failing)
    (hcond : AllMeet step NoneUntested {} events) : Inv events (run events) := by
  induction events using reverseRecOn with
  | nil => exact inv_empty
  | append_singleton events e ih =>
    rw [map_append, pairwise_append] at hclock
    obtain ⟨hbefore, hmeets⟩ := AllMeet.append hcond
    have hnow : ∀ a ∈ events, a.time ≤ e.time :=
      fun a ha => hclock.2.2 _ (mem_map_of_mem ha) _ (by simp)
    have hinv := ih hclock.1 (fun a ha => hfailing a (mem_append_left _ ha)) hbefore
    rw [run, foldl_append, foldl_cons, foldl_nil]
    cases e with
    | poll now answer => exact hinv.poll hnow (hfailing _ (by simp)) hmeets.1
    | setBuild now infos =>
      obtain ⟨hexhausted, hlast, hbackoff⟩ := setBuild_requests now infos (run events).monitor
      exact hinv.reset _ hexhausted hlast hbackoff
    | clear now =>
      obtain ⟨hexhausted, hlast, hbackoff⟩ := persistHealth_cleared now (run events).monitor
      exact hinv.reset _ hexhausted hlast hbackoff

/-- **Requests come after the grace and ever further apart**, as long as no back-off is cleared. -/
theorem patient_of_noneUntested (events : List Event) (hclock : (events.map Event.time).Pairwise (· ≤ ·))
    (hfailing : ∀ e ∈ events, e.failing) (hcond : AllMeet step NoneUntested {} events) (front back : List Event)
    (hrun : events = front ++ back) : Patient (run front) := by
  subst hrun
  rw [map_append, pairwise_append] at hclock
  exact (inv_run hclock.1 (fun e he => hfailing e (mem_append_left _ he)) (AllMeet.append hcond).1).patient

def oneMember (state : String) : Answer :=
  { groups := some [{ tag := "auto", phase := "ready", suspended := false, membersProbed := 1
                      members := [{ tag := "auto-0", state, averageMs := 0, probes := 1 }] }]
    interface := some "eth0" }

def oneBuild : List BuildInfo := [{ groupTag := "auto", profile := some 1, members := [("auto-0", some 2)] }]

theorem noneUntested_dead (r : Run) (now : Nat) : NoneUntested r (.poll now (oneMember "dead")) := by
  intro _ status hstatus member hmember
  obtain ⟨groups, hgroups, hfound⟩ := bind_eq_some_iff.mp hstatus
  obtain ⟨tag, -, hfound⟩ := bind_eq_some_iff.mp hfound
  have hmem := mem_of_find?_eq_some hfound
  rw [← some.inj hgroups, mem_singleton] at hmem
  rw [hmem, mem_singleton] at hmember
  rw [hmember]
  decide

/-- A pool that fails, and a rebuilt one that fails too, whose member has the given state at first. -/
def twoPools (state : String) (first second : Nat) : List Event :=
  [.setBuild 1000 oneBuild, .poll 1000 (oneMember "dead"), .poll 21000 (oneMember "dead"), .setBuild 22000 oneBuild,
    .poll 23000 (oneMember state), .poll first (oneMember "dead"), .poll second (oneMember "dead")]

/-- The member of the rebuilt pool is dead at once: 60 s between the requests. -/
theorem patient_of_dead_pools :
    (run (twoPools "dead" 24000 81000)).requests.map Request.time = [21000, 81000] ∧
      Patient (run (twoPools "dead" 24000 81000)) :=
  ⟨by decide +kernel,
    patient_of_noneUntested (twoPools "dead" 24000 81000) (by decide) (by simp [twoPools, Event.failing, oneMember])
      ⟨trivial, noneUntested_dead _ _, noneUntested_dead _ _, trivial, noneUntested_dead _ _, noneUntested_dead _ _,
        noneUntested_dead _ _, trivial⟩
      (twoPools "dead" 24000 81000) [] (append_nil _).symm⟩

/-- The member of the rebuilt pool is untested at first: 23 s between the requests. -/
theorem not_patient_untested :
    ((twoPools "untested" 24000 44000).map Event.time).Pairwise (· ≤ ·) ∧
      (∀ e ∈ twoPools "untested" 24000 44000, e.failing) ∧
      ¬Patient (run (twoPools "untested" 24000 44000)) := by
  refine ⟨by decide, by simp [twoPools, Event.failing, oneMember], fun h => ?_⟩
  have hgap := h.gaps 0 21000 44000 (by decide +kernel) (by decide +kernel)
  exact absurd hgap (by decide)

end Waterdisco.Stats.AutoSelector
