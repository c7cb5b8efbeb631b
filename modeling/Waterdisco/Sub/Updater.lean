import Mathlib.Data.Finset.Insert
import Mathlib.Data.Finset.Erase
import Waterdisco.Lib.Runs

/-!
# The queue of subscription jobs

`GroupUpdater` appends its jobs to a queue that one thread drains.  Everything it shares
is changed under one mutex; a job runs, its `finish` is called and its waiters are served
outside of it.  Every step here is one locked section, or one call between two of them.

    at most one job of a group is queued or running, and its group is pending
    pendingBatch counts the batch jobs
    a queue that is not empty is being drained                     (Sound)
-/

namespace Waterdisco.Updater

open List

/-- A refresh has the id of its group, any other job a negative one.  The outcome is that of an update that did not end
until the job has run. -/
structure Job (ο φ : Type) where
  /-- tells the jobs of a run apart -/
  serial : Nat
  gid : Int := -1
  batch : Bool := false
  finish : Option φ := none
  outcome : Option ο := none
deriving DecidableEq

/-- Where a thread in `drain` is. -/
inductive Phase (ο φ : Type) where
  | looking
  | took (job : Job ο φ)
  | ran (job : Job ο φ)
  | finished (job : Job ο φ)
  | calling (job : Job ο φ) (waiting : List Nat)

def Phase.job {ο φ : Type} : Phase ο φ → Option (Job ο φ)
  | .took job | .ran job | .finished job => some job
  | .looking | .calling .. => none

def Phase.waiting {ο φ : Type} : Phase ο φ → List Nat
  | .calling _ waiting => waiting
  | _ => []

/-- `GroupUpdater`, with the threads in `drain` and, from `serials` on, what has happened so far.  A callback of a waiter
is the number of its registration. -/
structure State (ο φ : Type) where
  queue : List (Job ο φ) := []
  pending : Finset Int := ∅
  waiters : Int → List Nat := fun _ => []
  pendingBatch : Int := 0
  running : Bool := false
  drains : List (Phase ο φ) := []
  serials : Nat := 0
  registered : Nat := 0
  finishes : List φ := []
  calls : List (Nat × Option ο) := []
  ended : List (Job ο φ) := []

inductive Event (ο φ : Type) where
  | refreshGroup (gid : Int) (finish : Option φ)
  | refreshWithOutcome (gid : Int) (done : Bool)
  /-- the groups of the tab order that are not left out -/
  | refreshAll (gids : List Int)
  /-- an import or another job of no group -/
  | enqueue (finish : Option φ)
  /-- the next step of a drain; `none` for a `run` that throws before it has an outcome -/
  | drain (k : Nat) (outcome : Option ο)
  | isIdle

section

variable {ο φ : Type} (unfinished missingGroup : Int → ο)

def refreshJob (s : State ο φ) (gid : Int) (batch : Bool) (finish : Option φ) : Job ο φ :=
  ⟨s.serials, gid, batch, finish, some (unfinished gid)⟩

def enqueueLocked (s : State ο φ) (job : Job ο φ) : State ο φ :=
  { s with
    queue := s.queue ++ [job]
    running := true
    drains := if s.running then s.drains else s.drains ++ [.looking]
    serials := s.serials + 1 }

def refreshGroup (s : State ο φ) (gid : Int) (finish : Option φ) : State ο φ :=
  if gid ∈ s.pending then { s with finishes := s.finishes ++ finish.toList }
  else enqueueLocked { s with pending := insert gid s.pending } (refreshJob unfinished s gid false finish)

def register (s : State ο φ) (gid : Int) (done : Bool) : State ο φ :=
  if done then
    { s with
      waiters := Function.update s.waiters gid (s.waiters gid ++ [s.registered])
      registered := s.registered + 1 }
  else s

def refreshWithOutcome (s : State ο φ) (gid : Int) (done : Bool) : State ο φ :=
  if gid < 0 then
    if done then
      { s with
        registered := s.registered + 1
        calls := s.calls ++ [(s.registered, some (missingGroup gid))] }
    else s
  else
    let s := register s gid done
    if gid ∈ s.pending then s
    else enqueueLocked { s with pending := insert gid s.pending } (refreshJob unfinished s gid false none)

def refreshAllOne (s : State ο φ) (gid : Int) : State ο φ :=
  if gid ∈ s.pending then s
  else
    enqueueLocked { s with pending := insert gid s.pending, pendingBatch := s.pendingBatch + 1 }
      (refreshJob unfinished s gid true none)

def refreshAll (s : State ο φ) (gids : List Int) : State ο φ :=
  if s.pendingBatch > 0 then s else gids.foldl (refreshAllOne unfinished) s

def enqueue (s : State ο φ) (finish : Option φ) : State ο φ :=
  enqueueLocked s { serial := s.serials, finish := finish }

/-- The second locked section of `drain`. -/
def finishJob (s : State ο φ) (k : Nat) (job : Job ο φ) : State ο φ :=
  { s with
    pending := if job.gid ≥ 0 then s.pending.erase job.gid else s.pending
    waiters := if job.gid ≥ 0 then Function.update s.waiters job.gid [] else s.waiters
    pendingBatch := if job.batch then s.pendingBatch - 1 else s.pendingBatch
    drains := s.drains.set k (.calling job (if job.gid ≥ 0 then s.waiters job.gid else []))
    ended := s.ended ++ [job] }

def drain (s : State ο φ) (k : Nat) (outcome : Option ο) : Option (State ο φ) :=
  match s.drains[k]? with
  | none => none
  | some .looking =>
    match s.queue with
    | [] => some { s with running := false, drains := s.drains.eraseIdx k }
    | job :: rest => some { s with queue := rest, drains := s.drains.set k (.took job) }
  | some (.took job) =>
    some { s with drains := s.drains.set k (.ran { job with outcome := job.outcome.map outcome.getD }) }
  | some (.ran job) =>
    some { s with finishes := s.finishes ++ job.finish.toList, drains := s.drains.set k (.finished job) }
  | some (.finished job) => some (finishJob s k job)
  | some (.calling _ []) => some { s with drains := s.drains.set k .looking }
  | some (.calling job (done :: rest)) =>
    some { s with calls := s.calls ++ [(done, job.outcome)], drains := s.drains.set k (.calling job rest) }

def step (s : State ο φ) : Event ο φ → Option (State ο φ)
  | .refreshGroup gid finish => some (refreshGroup unfinished s gid finish)
  | .refreshWithOutcome gid done => some (refreshWithOutcome unfinished missingGroup s gid done)
  | .refreshAll gids => some (refreshAll unfinished s gids)
  | .enqueue finish => some (enqueue s finish)
  | .drain k outcome => drain s k outcome
  | .isIdle => some s

/-- The ids of the groups are not negative. -/
def Event.Valid : Event ο φ → Prop
  | .refreshGroup gid _ => 0 ≤ gid
  | .refreshWithOutcome gid _ => 0 ≤ gid
  | .refreshAll gids => ∀ gid ∈ gids, 0 ≤ gid
  | _ => True

/-- The jobs that are queued or running. -/
def State.alive (s : State ο φ) : List (Job ο φ) := s.drains.filterMap Phase.job ++ s.queue

end

/-! ## The invariant -/

section

variable {ο φ : Type} {unfinished missingGroup : Int → ο}

/-- At most one thread drains, and what is pending is alive. -/
structure Sound (s : State ο φ) : Prop where
  drains : if s.running then s.drains.length = 1 else s.drains = [] ∧ s.queue = []
  pending : ∀ gid, gid ∈ s.pending ↔ 0 ≤ gid ∧ ∃ job ∈ s.alive, job.gid = gid
  unique : ∀ gid, 0 ≤ gid → s.alive.countP (fun job => job.gid = gid) ≤ 1
  batch : s.pendingBatch = s.alive.countP (·.batch)
  outcome : ∀ job ∈ s.alive, 0 ≤ job.gid → job.outcome.isSome = true
  serials : ((s.ended ++ s.alive).map (·.serial)).Nodup
  serials_lt : ∀ job ∈ s.ended ++ s.alive, job.serial < s.serials

theorem sound_initial : Sound ({} : State ο φ) := by
  refine ⟨⟨rfl, rfl⟩, fun gid => ?_, fun _ _ => Nat.zero_le 1, rfl, ?_, nodup_nil, ?_⟩
  · simp [State.alive]
  · simp [State.alive]
  · simp [State.alive]

variable {s s' : State ο φ} {k : Nat} {p : Phase ο φ} {job : Job ο φ} {gid : Int}

theorem Sound.one (h : Sound s) (hp : s.drains[k]? = some p) :
    s.running = true ∧ k = 0 ∧ s.drains = [p] := by
  have hd := h.drains
  cases hr : s.running with
  | false =>
    rw [hr, if_neg Bool.false_ne_true] at hd
    rw [hd.1] at hp
    cases hp
  | true =>
    rw [hr, if_pos rfl] at hd
    obtain ⟨q, hq⟩ := length_eq_one_iff.mp hd
    rw [hq] at hp
    obtain ⟨hk, hget⟩ := List.getElem?_eq_some_iff.mp hp
    obtain rfl : k = 0 := by simpa using hk
    refine ⟨rfl, rfl, ?_⟩
    rw [hq, ← hget]
    rfl

theorem alive_enqueueLocked (s : State ο φ) (job : Job ο φ) : (enqueueLocked s job).alive = s.alive ++ [job] := by
  unfold State.alive enqueueLocked
  cases s.running <;> simp [Phase.job]

variable (h : Sound s)

include h

theorem Sound.add (pending : Finset Int) (batch : Int) (hserial : job.serial = s.serials)
    (hnew : 0 ≤ job.gid → job.gid ∉ s.pending ∧ job.outcome.isSome = true)
    (hpending : pending = if 0 ≤ job.gid then insert job.gid s.pending else s.pending)
    (hbatch : batch = s.pendingBatch + if job.batch then 1 else 0) :
    Sound (enqueueLocked { s with pending := pending, pendingBatch := batch } job) := by
  have halive : (enqueueLocked { s with pending := pending, pendingBatch := batch } job).alive = s.alive ++ [job] :=
    alive_enqueueLocked _ job
  constructor
  · have hd := h.drains
    unfold enqueueLocked
    rw [if_pos rfl]
    cases hr : s.running with
    | false =>
      rw [hr, if_neg Bool.false_ne_true] at hd
      rw [if_neg Bool.false_ne_true, hd.1]
      rfl
    | true =>
      rw [hr, if_pos rfl] at hd
      rw [if_pos rfl, hd]
  · intro gid
    rw [halive]
    show gid ∈ pending ↔ _
    have hold := h.pending gid
    rw [hpending]
    by_cases hg : 0 ≤ job.gid
    · rw [if_pos hg, Finset.mem_insert, hold]
      simp only [mem_append, mem_singleton, or_and_right, exists_or, exists_eq_left]
      constructor
      · rintro (rfl | ⟨hpos, hjob⟩)
        · exact ⟨hg, .inr rfl⟩
        · exact ⟨hpos, .inl hjob⟩
      · rintro ⟨hpos, hjob | heq⟩
        · exact .inr ⟨hpos, hjob⟩
        · exact .inl heq.symm
    · rw [if_neg hg, hold]
      simp only [mem_append, mem_singleton, or_and_right, exists_or, exists_eq_left]
      constructor
      · rintro ⟨hpos, hjob⟩
        exact ⟨hpos, .inl hjob⟩
      · rintro ⟨hpos, hjob | heq⟩
        · exact ⟨hpos, hjob⟩
        · exact absurd (heq.symm ▸ hpos) hg
  · intro gid hgid
    rw [halive, countP_append]
    have hold := h.unique gid hgid
    by_cases heq : job.gid = gid
    · subst heq
      have hnone : s.alive.countP (fun other => other.gid = job.gid) = 0 := by
        rw [countP_eq_zero]
        intro other hother hsame
        exact (hnew hgid).1 ((h.pending _).mpr ⟨hgid, other, hother, of_decide_eq_true hsame⟩)
      rw [hnone]
      simp
    · simpa [heq] using hold
  · rw [halive, countP_append]
    show batch = _
    rw [hbatch, h.batch]
    cases hb : job.batch <;> simp [hb]
  · intro other hother hgid
    rw [halive] at hother
    obtain hother | hother := mem_append.mp hother
    · exact h.outcome other hother hgid
    · obtain rfl := mem_singleton.mp hother
      exact (hnew hgid).2
  · rw [halive]
    rw [← append_assoc, map_append, map_singleton, nodup_append]
    refine ⟨h.serials, nodup_singleton _, ?_⟩
    rintro n hn m hm rfl
    obtain ⟨other, hother, rfl⟩ := mem_map.mp hn
    have hlt := h.serials_lt other hother
    rw [mem_singleton.mp hm, hserial] at hlt
    exact lt_irrefl _ hlt
  · rw [halive]
    rw [← append_assoc]
    intro other hother
    obtain hother | hother := mem_append.mp hother
    · exact Nat.lt_succ_of_lt (h.serials_lt other hother)
    · rw [mem_singleton.mp hother, hserial]
      exact Nat.lt_succ_self _

theorem Sound.refreshGroup (hgid : 0 ≤ gid) (finish : Option φ) :
    Sound (refreshGroup unfinished s gid finish) := by
  unfold Updater.refreshGroup
  split
  · exact ⟨h.drains, h.pending, h.unique, h.batch, h.outcome, h.serials, h.serials_lt⟩
  · next hnew => exact h.add _ s.pendingBatch rfl (fun _ => ⟨hnew, rfl⟩) (if_pos hgid).symm (Int.add_zero _).symm

theorem Sound.register (gid : Int) (done : Bool) : Sound (register s gid done) := by
  unfold Updater.register
  split
  · exact ⟨h.drains, h.pending, h.unique, h.batch, h.outcome, h.serials, h.serials_lt⟩
  · exact h

theorem Sound.refreshWithOutcome (hgid : 0 ≤ gid) (done : Bool) :
    Sound (refreshWithOutcome unfinished missingGroup s gid done) := by
  unfold Updater.refreshWithOutcome
  rw [if_neg (by omega)]
  dsimp only
  have hr := h.register gid done
  split
  · exact hr
  · next hnew =>
    exact hr.add _ (Updater.register s gid done).pendingBatch rfl (fun _ => ⟨hnew,
      rfl⟩) (if_pos hgid).symm (Int.add_zero _).symm

theorem Sound.refreshAllOne (hgid : 0 ≤ gid) : Sound (refreshAllOne unfinished s gid) := by
  unfold Updater.refreshAllOne
  split
  · exact h
  · next hnew => exact h.add _ _ rfl (fun _ => ⟨hnew, rfl⟩) (if_pos hgid).symm rfl

omit h

theorem Sound.refreshAllFold {gids : List Int} (hgids : ∀ gid ∈ gids, 0 ≤ gid) (h : Sound s) :
    Sound (gids.foldl (Updater.refreshAllOne unfinished) s) := by
  induction gids generalizing s with
  | nil => exact h
  | cons gid rest ih =>
    exact ih (fun g hg => hgids g (.tail _ hg)) (h.refreshAllOne (hgids gid (.head _)))

theorem Sound.refreshAll (h : Sound s) {gids : List Int} (hgids : ∀ gid ∈ gids, 0 ≤ gid) :
    Sound (refreshAll unfinished s gids) := by
  unfold Updater.refreshAll
  split
  · exact h
  · exact Sound.refreshAllFold hgids h

theorem Sound.enqueue (h : Sound s) (finish : Option φ) : Sound (enqueue s finish) := by
  have hnone : ¬ (0 : Int) ≤ -1 := by decide
  exact h.add s.pending s.pendingBatch rfl (fun hneg => absurd hneg hnone) (if_neg hnone).symm
    (Int.add_zero _).symm

/-! ## The draining thread -/

/-- What a step of the thread can do. -/
inductive Drained (s : State ο φ) (outcome : Option ο) : State ο φ → Prop where
  | stop (hd : s.drains = [.looking]) (hq : s.queue = []) : Drained s outcome { s with running := false, drains := [] }
  | take {job : Job ο φ} {rest : List (Job ο φ)} (hd : s.drains = [.looking]) (hq : s.queue = job :: rest) :
      Drained s outcome { s with queue := rest, drains := [.took job] }
  | run {job : Job ο φ} (hd : s.drains = [.took job]) :
      Drained s outcome { s with drains := [.ran { job with outcome := job.outcome.map outcome.getD }] }
  | finish {job : Job ο φ} (hd : s.drains = [.ran job]) :
      Drained s outcome { s with finishes := s.finishes ++ job.finish.toList, drains := [.finished job] }
  | mark {job : Job ο φ} (hd : s.drains = [.finished job]) : Drained s outcome (finishJob s 0 job)
  | served {job : Job ο φ} (hd : s.drains = [.calling job []]) : Drained s outcome { s with drains := [.looking] }
  | call {job : Job ο φ} {done : Nat} {rest : List Nat} (hd : s.drains = [.calling job (done :: rest)]) :
      Drained s outcome { s with calls := s.calls ++ [(done, job.outcome)], drains := [.calling job rest] }

theorem Sound.drained (h : Sound s) {outcome : Option ο} (hs : drain s k outcome = some s') :
    s.running = true ∧ Drained s outcome s' := by
  cases hp : s.drains[k]? with
  | none =>
    rw [drain, hp] at hs
    cases hs
  | some p =>
    obtain ⟨hr, rfl, hd⟩ := h.one hp
    refine ⟨hr, ?_⟩
    rw [drain, hp] at hs
    have hset : ∀ q, s.drains.set 0 q = [q] := fun q => by rw [hd]; rfl
    have herase : s.drains.eraseIdx 0 = [] := by rw [hd]; rfl
    cases p with
    | looking =>
      dsimp only at hs
      split at hs
      · next hq =>
        rw [herase] at hs
        cases hs
        exact .stop hd hq
      · next job rest hq =>
        rw [hset] at hs
        cases hs
        exact .take hd hq
    | took job =>
      dsimp only at hs
      rw [hset] at hs
      cases hs
      exact .run hd
    | ran job =>
      dsimp only at hs
      rw [hset] at hs
      cases hs
      exact .finish hd
    | finished job =>
      cases hs
      exact .mark hd
    | calling job waiting =>
      cases waiting with
      | nil =>
        rw [hset] at hs
        cases hs
        exact .served hd
      | cons done rest =>
        dsimp only at hs
        rw [hset] at hs
        cases hs
        exact .call hd

theorem alive_of_drains (hd : s.drains = [p]) : s.alive = p.job.toList ++ s.queue := by
  rw [State.alive, hd]
  cases hp : p.job <;> simp [hp]

variable (h : Sound s)

include h

theorem Sound.ran (hd : s.drains = [.took job]) (outcome : Option ο) :
    Sound { s with drains := [.ran { job with outcome := job.outcome.map outcome.getD }] } := by
  have halive : s.alive = job :: s.queue := alive_of_drains hd
  have hrunning : s.running = true := (h.one (k := 0) (by rw [hd]; rfl)).1
  have hnew : ({ s with drains := [.ran { job with outcome := job.outcome.map outcome.getD }] } : State ο φ).alive =
      { job with outcome := job.outcome.map outcome.getD } :: s.queue := rfl
  constructor
  · rw [if_pos hrunning]
    rfl
  · intro gid
    rw [hnew]
    rw [h.pending, halive]
    simp
  · intro gid hgid
    have hold := h.unique gid hgid
    rw [halive] at hold
    exact hold
  · rw [hnew]
    rw [h.batch, halive]
    rfl
  · intro other hother hgid
    obtain rfl | hother := mem_cons.mp hother
    · have hold := h.outcome job (by rw [halive]; exact (.head _)) hgid
      rwa [Option.isSome_map]
    · exact h.outcome other (by rw [halive]; exact .tail _ hother) hgid
  · have hold := h.serials
    rw [halive] at hold
    rw [hnew]
    simpa using hold
  · have hold := h.serials_lt
    rw [halive] at hold
    rw [hnew]
    intro other hother
    obtain hother | hother := mem_append.mp hother
    · exact hold other (mem_append_left _ hother)
    obtain rfl | hother := mem_cons.mp hother
    · exact hold job (by simp)
    · exact hold other (by simp [hother])

theorem Sound.mark (hd : s.drains = [.finished job]) : Sound (finishJob s 0 job) := by
  have halive : s.alive = job :: s.queue := alive_of_drains hd
  have hrunning : s.running = true := (h.one (k := 0) (by rw [hd]; rfl)).1
  have hnew : (finishJob s 0 job).alive = s.queue := by
    rw [State.alive, finishJob, hd]
    rfl
  constructor
  · show if s.running = true then (s.drains.set 0 _).length = 1 else _
    rw [if_pos hrunning, hd]
    rfl
  · intro gid
    rw [hnew]
    show gid ∈ (if job.gid ≥ 0 then s.pending.erase job.gid else s.pending) ↔ _
    have hold := h.pending gid
    rw [halive] at hold
    simp only [mem_cons, or_and_right, exists_or, exists_eq_left] at hold
    by_cases hjob : job.gid ≥ 0
    · rw [if_pos hjob, Finset.mem_erase, hold]
      have hunique := h.unique job.gid hjob
      rw [halive, countP_cons_of_pos (by simp)] at hunique
      have hother : ∀ other ∈ s.queue, other.gid ≠ job.gid := by
        have hzero := countP_eq_zero.mp (Nat.le_zero.mp (Nat.le_of_succ_le_succ hunique))
        intro other hmem heq
        exact hzero other hmem (by simpa using heq)
      constructor
      · rintro ⟨hne, hpos, heq | hqueue⟩
        · exact absurd heq.symm hne
        · exact ⟨hpos, hqueue⟩
      · rintro ⟨hpos, other, hmem, rfl⟩
        exact ⟨hother other hmem, hpos, .inr ⟨other, hmem, rfl⟩⟩
    · rw [if_neg hjob, hold]
      constructor
      · rintro ⟨hpos, rfl | hqueue⟩
        · exact absurd hpos hjob
        · exact ⟨hpos, hqueue⟩
      · rintro ⟨hpos, hqueue⟩
        exact ⟨hpos, .inr hqueue⟩
  · intro gid hgid
    have hold := h.unique gid hgid
    rw [halive, countP_cons] at hold
    rw [hnew]
    omega
  · rw [hnew]
    show (if job.batch then s.pendingBatch - 1 else s.pendingBatch) = _
    rw [h.batch, halive, countP_cons]
    cases job.batch <;> simp
  · intro other hother hgid
    rw [hnew] at hother
    exact h.outcome other (by rw [halive]; exact .tail _ hother) hgid
  · rw [hnew]
    show ((s.ended ++ [job] ++ s.queue).map (·.serial)).Nodup
    rw [append_assoc, singleton_append, ← halive]
    exact h.serials
  · rw [hnew]
    show ∀ other ∈ s.ended ++ [job] ++ s.queue, other.serial < s.serials
    rw [append_assoc, singleton_append, ← halive]
    exact h.serials_lt

/-- The jobs that are alive stay the same in the other steps. -/
theorem Sound.moved {q : Phase ο φ} {queue : List (Job ο φ)} (hd : s.drains = [p])
    (hsame : q.job.toList ++ queue = p.job.toList ++ s.queue) (finishes : List φ) (calls : List (Nat × Option ο)) :
    Sound { s with queue := queue, drains := [q], finishes := finishes, calls := calls } := by
  have hrunning : s.running = true := (h.one (k := 0) (by rw [hd]; rfl)).1
  have halive : ({ s with queue := queue, drains := [q], finishes := finishes, calls := calls } : State ο φ).alive = s.alive := by
    rw [alive_of_drains (p := q) rfl, alive_of_drains hd]
    exact hsame
  constructor
  · rw [if_pos hrunning]
    rfl
  · rw [halive]
    exact h.pending
  · rw [halive]
    exact h.unique
  · rw [halive]
    exact h.batch
  · rw [halive]
    exact h.outcome
  · rw [halive]
    exact h.serials
  · rw [halive]
    exact h.serials_lt

theorem Sound.drain {outcome : Option ο} (hs : drain s k outcome = some s') : Sound s' := by
  obtain ⟨hr, hcase⟩ := h.drained hs
  cases hcase with
  | stop hd hq =>
    have halive : s.alive = [] := (alive_of_drains hd).trans hq
    have hnew : ({ s with running := false, drains := [] } : State ο φ).alive = s.alive := by rw [halive]; exact hq
    refine ⟨⟨rfl, hq⟩, ?_, ?_, ?_, ?_, ?_, ?_⟩
    · rw [hnew]
      exact h.pending
    · rw [hnew]
      exact h.unique
    · rw [hnew]
      exact h.batch
    · rw [hnew]
      exact h.outcome
    · rw [hnew]
      exact h.serials
    · rw [hnew]
      exact h.serials_lt
  | take hd hq => exact h.moved hd (by rw [hq]; rfl) s.finishes s.calls
  | run hd => exact h.ran hd outcome
  | finish hd => exact h.moved hd (by rfl) _ s.calls
  | mark hd => exact h.mark hd
  | served hd => exact h.moved hd (by rfl) s.finishes s.calls
  | call hd => exact h.moved hd (by rfl) s.finishes _

theorem Sound.step {e : Event ο φ} (he : e.Valid)
    (hs : step unfinished missingGroup s e = some s') : Sound s' := by
  cases e with
  | refreshGroup gid finish =>
    cases hs
    exact h.refreshGroup he finish
  | refreshWithOutcome gid done =>
    cases hs
    exact h.refreshWithOutcome he done
  | refreshAll gids =>
    cases hs
    exact h.refreshAll he
  | enqueue finish =>
    cases hs
    exact h.enqueue finish
  | drain k outcome => exact h.drain hs
  | isIdle =>
    cases hs
    exact h

end

end Waterdisco.Updater
