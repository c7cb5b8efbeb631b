import Waterdisco.Stats.AutoSelector

/-!
# Latencies of the selector's members

The steps of a poll, of `PersistHealth`, `SetBuild` and `Clear` in any order, with starts and
stops of the core between them.  A poll translates the tags of a status under the build that
the monitor has by then.

    Honest answers e         the view `e` of a member is that of an answer, whose build had the
                             tag stand for the profile
    TranslatesOwn w          a translation is made under the build of its answer
-/

namespace Waterdisco.Stats.AutoSelector

open List Option

/-! ## Steps -/

/-- What the core said, and the build that it was running then. -/
structure Answered where
  infos : List BuildInfo
  groups : List Status
deriving DecidableEq

/-- Where the poll is: after the query, after its first section, after its second. -/
inductive Pc
  | idle
  | queried (answer : Answered)
  | tagged (tag : String) (answer : Answered)
  | translated (next : View) (usable : Nat)

structure Stored where
  profileID : Int
  latency : Int
deriving DecidableEq

structure World where
  /-- The build that the core runs. -/
  running : Option (List BuildInfo) := none
  monitor : Monitor := {}
  pc : Pc := .idle
  /-- The members that the calls of `PersistHealth` have still to store. -/
  persisting : List (List MemberView) := []
  /-- The profiles' latencies; none for a profile that is gone. -/
  latency : Int → Option Int
  answers : List Answered := []
  stored : List Stored := []

inductive Act
  | start (infos : List BuildInfo)
  | stop
  /-- The query of a poll, answered by the running build. -/
  | query (groups : List Status)
  /-- A failed one. -/
  | queryFailed
  | readTag
  | translate
  | publish (now : Nat)
  | setBuild (now : Nat)
  | clear
  /-- The locked part of `PersistHealth`, and one member of the `i`-th call under way. -/
  | persist (now : Nat)
  | store (i : Nat)

/-- `SetLatency` for one member. -/
def storeMember (e : MemberView) (w : World) : World :=
  match e.healthLatency with
  | none => w
  | some latency =>
    match w.latency e.profileID with
    | none => w
    | some old =>
      if old = latency then w
      else
        { w with
          latency := Function.update w.latency e.profileID (some latency)
          stored := w.stored ++ [{ profileID := e.profileID, latency }] }

/-- A step that is not possible changes nothing. -/
def act (w : World) : Act → World
  | .start infos => { w with running := some infos }
  | .stop => { w with running := none }
  | .query groups =>
    match w.pc with
    | .idle =>
      -- without a running build the core has no selectors
      let answer : Answered :=
        match w.running with
        | some infos => { infos, groups }
        | none => { infos := [], groups := [] }
      { w with pc := .queried answer, answers := w.answers ++ [answer] }
    | _ => w
  | .queryFailed => w
  | .readTag =>
    match w.pc with
    | .queried answer =>
      match w.monitor.wantedTag with
      | some tag => { w with pc := .tagged tag answer }
      | none => { w with pc := .idle }
    | _ => w
  | .translate =>
    match w.pc with
    | .tagged tag answer =>
      match answer.groups.find? (fun group => group.tag == tag) with
      | some status =>
        { w with
          pc := .translated (w.monitor.translate status (nextView tag status)).1
            (w.monitor.translate status (nextView tag status)).2 }
      | none => { w with pc := .idle }
    | _ => w
  | .publish now =>
    match w.pc with
    | .translated next usable =>
      match w.monitor.publish now usable next with
      | some (monitor, _) => { w with monitor, pc := .idle }
      | none => { w with pc := .idle }
    | _ => w
  | .setBuild now =>
    -- with the build just started
    match w.running with
    | some infos => { w with monitor := w.monitor.setBuild now infos }
    | none => w
  | .clear => { w with monitor := w.monitor.clear }
  | .persist now =>
    match w.monitor.persistHealth now with
    | some (monitor, members) => { w with monitor, persisting := w.persisting ++ [members] }
    | none => w
  | .store i =>
    match w.persisting[i]? with
    | some (e :: rest) => { storeMember e w with persisting := w.persisting.set i rest }
    | _ => w

def acts (latency : Int → Option Int) (steps : List Act) : World := steps.foldl act { latency }

/-! ## What is stored -/

def Reports (member : MemberStatus) (latency : Int) : Prop :=
  (latency = member.averageMs ∧ (member.state = "ok" ∨ member.state = "degraded")) ∨
    (latency = -1 ∧ member.state = "dead")

/-- It was reported for a tag that stood for the profile in the build that the answer describes. -/
def Stored.Right (answers : List Answered) (s : Stored) : Prop :=
  ∃ answer ∈ answers, ∃ status ∈ answer.groups, ∃ member ∈ status.members,
    tagsOf answer.infos member.tag = some s.profileID ∧ Reports member s.latency

/-- A translation takes each tag as the build of its answer does. -/
def TranslatesOwn (w : World) : Act → Prop
  | .translate =>
    match w.pc with
    | .tagged tag answer =>
      ∀ status, answer.groups.find? (fun group => group.tag == tag) = some status →
        ∀ member ∈ status.members, ∀ id, 0 ≤ id → w.monitor.tagToProfile member.tag = some id →
          tagsOf answer.infos member.tag = some id
    | _ => True
  | _ => True

/-! ## Invariant -/

/-- The view of a member with a profile comes from an answer whose build had its tag stand for the profile. -/
def Honest (answers : List Answered) (e : MemberView) : Prop :=
  0 ≤ e.profileID → ∃ answer ∈ answers, ∃ status ∈ answer.groups, ∃ member ∈ status.members,
    tagsOf answer.infos member.tag = some e.profileID ∧ member.state = e.state ∧ member.averageMs = e.averageMs

structure World.Ok (w : World) : Prop where
  pending : ∀ answer, (w.pc = .queried answer ∨ ∃ tag, w.pc = .tagged tag answer) → answer ∈ w.answers
  next : ∀ view usable, w.pc = .translated view usable → ∀ e ∈ view.members, Honest w.answers e
  view : ∀ e ∈ w.monitor.view.members, Honest w.answers e
  persisting : ∀ members ∈ w.persisting, ∀ e ∈ members, Honest w.answers e
  stored : ∀ s ∈ w.stored, s.Right w.answers

variable {answers : List Answered} {w : World}

theorem Honest.mono {e : MemberView} (h : Honest answers e) (more : List Answered) :
    Honest (answers ++ more) e := by
  intro hid
  obtain ⟨answer, hanswer, hrest⟩ := h hid
  exact ⟨answer, mem_append_left _ hanswer, hrest⟩

theorem Stored.Right.mono {s : Stored} (h : s.Right answers) (more : List Answered) :
    s.Right (answers ++ more) := by
  obtain ⟨answer, hanswer, hrest⟩ := h
  exact ⟨answer, mem_append_left _ hanswer, hrest⟩

theorem Honest.right {e : MemberView} (h : Honest answers e) {latency : Int}
    (hlatency : e.healthLatency = some latency) : Stored.Right answers { profileID := e.profileID, latency } := by
  rw [MemberView.healthLatency] at hlatency
  split at hlatency
  · cases hlatency
  next hid =>
  obtain ⟨answer, hanswer, status, hstatus, member, hmember, htag, hstate, haverage⟩ := h (by omega)
  refine ⟨answer, hanswer, status, hstatus, member, hmember, htag, ?_⟩
  split at hlatency
  · next husable =>
    left
    simp only [MemberView.isUsable, Bool.and_eq_true, Bool.or_eq_true, beq_iff_eq] at husable
    exact ⟨(some.inj hlatency).symm.trans haverage.symm, hstate ▸ husable.1⟩
  · split at hlatency
    · next hdead =>
      right
      exact ⟨(some.inj hlatency).symm, hstate.trans (beq_iff_eq.mp hdead)⟩
    · cases hlatency

/-! ## Steps keep it -/

theorem ok_initial (latency : Int → Option Int) : World.Ok { latency } where
  pending answer h := by
    rcases h with h | ⟨tag, h⟩ <;> cases h
  next view usable h := by cases h
  view e he := by cases he
  persisting members hm := by cases hm
  stored s hs := by cases hs

theorem World.Ok.frame {w' : World} (h : w.Ok) (hpc : w'.pc = w.pc) (hanswers : w'.answers = w.answers)
    (hstored : w'.stored = w.stored) (hview : ∀ e ∈ w'.monitor.view.members, Honest w.answers e)
    (hpersisting : ∀ members ∈ w'.persisting, ∀ e ∈ members, Honest w.answers e) : w'.Ok := by
  refine ⟨?_, ?_, ?_, ?_, ?_⟩
  · rw [hpc, hanswers]
    exact h.pending
  · rw [hpc, hanswers]
    exact h.next
  · rw [hanswers]
    exact hview
  · rw [hanswers]
    exact hpersisting
  · rw [hanswers, hstored]
    exact h.stored

/-- The end of a poll, or of a section of it. -/
theorem World.Ok.move (h : w.Ok) {pc : Pc}
    (hpending : ∀ answer, (pc = .queried answer ∨ ∃ tag, pc = .tagged tag answer) → answer ∈ w.answers)
    (hnext : ∀ view usable, pc = .translated view usable → ∀ e ∈ view.members, Honest w.answers e) : { w with pc }.Ok :=
  ⟨hpending, hnext, h.view, h.persisting, h.stored⟩

theorem World.Ok.toIdle (h : w.Ok) : { w with pc := .idle }.Ok :=
  h.move (fun _ hpc => by rcases hpc with hpc | ⟨_, hpc⟩ <;> cases hpc) (fun _ _ hpc => by cases hpc)

theorem World.Ok.query (h : w.Ok) (groups : List Status) : (act w (.query groups)).Ok := by
  simp only [act]
  split
  · refine ⟨?_, ?_, fun e he => (h.view e he).mono _, fun members hm e he => (h.persisting members hm e he).mono _,
      fun s hs => (h.stored s hs).mono _⟩
    · intro answer hpc
      rcases hpc with hpc | ⟨tag, hpc⟩
      · rw [Pc.queried.injEq] at hpc
        rw [hpc]
        simp
      · cases hpc
    · intro view usable hpc
      cases hpc
  · exact h

/-- **A translation under the build of the answer is honest.** -/
theorem honest_translate {tag : String} {answer : Answered} {status : Status} (hanswer : answer ∈ w.answers)
    (hstatus : answer.groups.find? (fun group => group.tag == tag) = some status)
    (hown : ∀ member ∈ status.members, ∀ id, 0 ≤ id → w.monitor.tagToProfile member.tag = some id →
      tagsOf answer.infos member.tag = some id) :
    ∀ e ∈ (w.monitor.translate status (nextView tag status)).1.members, Honest w.answers e := by
  intro e he hid
  obtain ⟨member, hmember, rfl⟩ := mem_map.mp he
  refine ⟨answer, hanswer, status, mem_of_find?_eq_some hstatus, member, hmember, ?_, rfl, rfl⟩
  cases htag : w.monitor.tagToProfile member.tag with
  | none =>
    simp only [Monitor.memberView, htag, getD_none] at hid
    omega
  | some id =>
    simp only [Monitor.memberView, htag, getD_some] at hid ⊢
    exact hown member hmember id hid htag

theorem World.Ok.translate (h : w.Ok) (hown : TranslatesOwn w .translate) : (act w .translate).Ok := by
  simp only [act]
  split
  · next tag answer hpc =>
    split
    · next status hstatus =>
      refine h.move (fun _ hpc => by rcases hpc with hpc | ⟨_, hpc⟩ <;> cases hpc) fun view usable htranslated => ?_
      rw [Pc.translated.injEq] at htranslated
      rw [← htranslated.1]
      simp only [TranslatesOwn, hpc] at hown
      exact honest_translate (h.pending answer (.inr ⟨tag, hpc⟩)) hstatus (hown status hstatus)
    · exact h.toIdle
  · exact h

theorem World.Ok.publish (h : w.Ok) (now : Nat) : (act w (.publish now)).Ok := by
  simp only [act]
  split
  · next view usable hpc =>
    split
    · next monitor fire hpublish =>
      have hmembers : monitor.view.members = view.members := by
        simp only [Monitor.publish] at hpublish
        split at hpublish
        · cases hpublish
        · rw [some.injEq, Prod.mk.injEq] at hpublish
          rw [← hpublish.1]
      refine World.Ok.frame h.toIdle rfl rfl rfl ?_ h.persisting
      rw [hmembers]
      exact h.next view usable hpc
    · exact h.toIdle
  · exact h

theorem World.Ok.persist (h : w.Ok) (now : Nat) : (act w (.persist now)).Ok := by
  simp only [act]
  split
  · next monitor members hpersist =>
    simp only [Monitor.persistHealth] at hpersist
    split at hpersist
    · cases hpersist
    rw [some.injEq, Prod.mk.injEq] at hpersist
    obtain ⟨rfl, rfl⟩ := hpersist
    refine h.frame rfl rfl rfl h.view fun members hm => ?_
    rcases mem_append.mp hm with hold | hnew
    · exact h.persisting members hold
    · rw [mem_singleton.mp hnew]
      exact h.view
  · exact h

theorem World.Ok.store (h : w.Ok) (i : Nat) : (act w (.store i)).Ok := by
  simp only [act]
  split
  · next e rest hi =>
    have hmembers := h.persisting _ (mem_of_getElem? hi)
    have hpersisting : ∀ members ∈ w.persisting.set i rest, ∀ a ∈ members, Honest w.answers a :=
      forall_mem_set h.persisting (fun a ha => hmembers a (.tail _ ha))
    simp only [storeMember]
    split
    · exact h.frame rfl rfl rfl h.view hpersisting
    next latency hlatency =>
    split
    · exact h.frame rfl rfl rfl h.view hpersisting
    split
    · exact h.frame rfl rfl rfl h.view hpersisting
    refine ⟨h.pending, h.next, h.view, hpersisting, fun s hs => ?_⟩
    rcases mem_append.mp hs with hold | hnew
    · exact h.stored s hold
    · rw [mem_singleton.mp hnew]
      exact (hmembers e (.head _)).right hlatency
  · exact h

theorem World.Ok.act (h : w.Ok) (a : Act) (hown : TranslatesOwn w a) : (act w a).Ok := by
  cases a with
  | start infos => exact h.frame rfl rfl rfl h.view h.persisting
  | stop => exact h.frame rfl rfl rfl h.view h.persisting
  | query groups => exact h.query groups
  | queryFailed => exact h
  | readTag =>
    simp only [AutoSelector.act]
    split
    · next answer hpc =>
      split
      · refine h.move (fun other hother => ?_) (fun _ _ hpc => by cases hpc)
        rcases hother with hother | ⟨_, hother⟩
        · cases hother
        rw [Pc.tagged.injEq] at hother
        rw [← hother.2]
        exact h.pending answer (.inl hpc)
      · exact h.toIdle
    · exact h
  | translate => exact h.translate hown
  | publish now => exact h.publish now
  | setBuild now =>
    simp only [AutoSelector.act]
    split
    · next infos _ =>
      cases infos with
      | nil => exact h.frame rfl rfl rfl (fun e he => by cases he) h.persisting
      | cons info rest => exact h.frame rfl rfl rfl (fun e he => by cases he) h.persisting
    · exact h
  | clear => exact h.frame rfl rfl rfl (fun e he => by cases he) h.persisting
  | persist now => exact h.persist now
  | store i => exact h.store i

/-- **Every latency is stored for the profile it was measured of**, in a run whose translations are all made under the build of
the answer. -/
theorem stored_right (latency : Int → Option Int) (steps : List Act) (h : AllMeet act TranslatesOwn { latency } steps)
    (front back : List Act) (hrun : steps = front ++ back) : ∀ s ∈ (acts latency front).stored,
    s.Right (acts latency front).answers := by
  subst hrun
  exact (AllMeet.keeps (fun w a hown hok => hok.act a hown) (AllMeet.append h).1 (ok_initial latency)).stored

def memberOk : Status :=
  { tag := "auto", phase := "ready", suspended := false, membersProbed := 1
    members := [{ tag := "auto-0", state := "ok", averageMs := 50, probes := 1 }] }

def buildOf (profile : Int) : List BuildInfo :=
    [{ groupTag := "auto", profile := some 1, members := [("auto-0", some profile)] }]

/-- A poll of a build whose member stands for profile 2. -/
def polled : List Act :=
  [.start (buildOf 2), .setBuild 0, .query [memberOk], .readTag, .translate, .publish 1000, .persist 60000, .store 0]

theorem stored_right_polled :
    (acts (fun _ => some 0) polled).stored = [{ profileID := 2, latency := 50 }] ∧
      ∀ s ∈ (acts (fun _ => some 0) polled).stored, s.Right (acts (fun _ => some 0) polled).answers := by
  refine ⟨by decide +kernel, stored_right (fun _ => some 0) polled
    ⟨trivial, trivial, trivial, trivial, ?_, trivial, trivial, trivial, trivial⟩ polled [] (append_nil _).symm⟩
  intro status hstatus member _ id _ htag
  exact htag

/-- The same with a rebuild, to profile 3, between the query and the translation. -/
def rebuilt : List Act :=
  [.start (buildOf 2), .setBuild 0, .query [memberOk], .clear, .stop, .start (buildOf 3),
   .setBuild 1000, .readTag, .translate,
    .publish 1001, .persist 1002, .store 0]

/-- The latency of profile 2 is stored for profile 3. -/
theorem not_stored_right_rebuilt :
    ¬∀ s ∈ (acts (fun _ => some 0) rebuilt).stored, s.Right (acts (fun _ => some 0) rebuilt).answers := by
  intro h
  have hstored : (acts (fun _ => some 0) rebuilt).stored = [{ profileID := 3, latency := 50 }] := by decide +kernel
  have hanswers : (acts (fun _ => some 0) rebuilt).answers =
    [{ infos := buildOf 2, groups := [memberOk] }] := by decide +kernel
  obtain ⟨answer, hanswer, status, hstatus, member, hmember, htag, -⟩ :=
    h { profileID := 3, latency := 50 } (by simp [hstored])
  rw [hanswers, mem_singleton] at hanswer
  subst hanswer
  rw [mem_singleton] at hstatus
  subst hstatus
  rw [mem_singleton.mp hmember] at htag
  cases htag

end Waterdisco.Stats.AutoSelector
