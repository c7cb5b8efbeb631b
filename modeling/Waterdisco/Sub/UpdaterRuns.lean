import Waterdisco.Lib.Fair
import Waterdisco.Sub.Updater
import Mathlib.Tactic.IntervalCases

/-!
# The callbacks of the waiters

A callback that is registered waits for one job of its group, which is not finished at that
time.  It stays with that job: in `waiters`, then with the thread that has finished the job,
and last among the calls (`Held`).

    calls of a callback ≤ 1, with the outcome of its job
    its place in the queue only moves up, so that it is called where the thread goes on  (Held.called)
-/

namespace Waterdisco.Updater

open List Function Prod State Phase

variable {ο φ : Type} {unfinished missingGroup : Int → ο}

/-- The times a callback ran. -/
def State.callsOf (s : State ο φ) (c : Nat) : List (Nat × Option ο) := s.calls.filter (fun call => call.1 == c)

/-- The callbacks that the threads have taken. -/
def State.taken (s : State ο φ) : List Nat := s.drains.flatMap Phase.waiting

/-! ## Arrivals -/

/-- What the events beside the thread change. -/
structure Arrived (s s' : State ο φ) : Prop where
  waiters : ∀ g, ∃ more, s'.waiters g = s.waiters g ++ more ∧ ∀ c ∈ more, s.registered ≤ c ∧ c < s'.registered
  calls : s'.calls = s.calls
  ended : s'.ended = s.ended
  drains : s'.drains = s.drains ∨ s.drains = [] ∧ s'.drains = [.looking]
  alive : ∃ more, s'.alive = s.alive ++ more
  registered : s.registered ≤ s'.registered

theorem Arrived.refl (s : State ο φ) : Arrived s s :=
  ⟨fun g => ⟨[], (append_nil _).symm, by simp⟩, rfl, rfl, .inl rfl, ⟨[], (append_nil _).symm⟩, .refl⟩

theorem Arrived.trans {a b c : State ο φ} (hab : Arrived a b) (hbc : Arrived b c) : Arrived a c := by
  refine ⟨fun g => ?_, hbc.calls.trans hab.calls, hbc.ended.trans hab.ended, ?_, ?_,
    le_trans hab.registered hbc.registered⟩
  · obtain ⟨l, hl, hlt⟩ := hab.waiters g
    obtain ⟨l', hl', hlt'⟩ := hbc.waiters g
    refine ⟨l ++ l', by rw [hl', hl, append_assoc], fun x hx => ?_⟩
    obtain hx | hx := mem_append.mp hx
    · exact ⟨(hlt x hx).1, lt_of_lt_of_le (hlt x hx).2 hbc.registered⟩
    · exact ⟨le_trans hab.registered (hlt' x hx).1, (hlt' x hx).2⟩
  · obtain hsame | ⟨hnil, hnew⟩ := hbc.drains
    · rw [hsame]
      exact hab.drains
    obtain hsame | ⟨-, hlooking⟩ := hab.drains
    · exact .inr ⟨hsame.symm.trans hnil, hnew⟩
    · rw [hlooking] at hnil
      cases hnil
  · obtain ⟨l, hl⟩ := hab.alive
    obtain ⟨l', hl'⟩ := hbc.alive
    exact ⟨l ++ l', by rw [hl', hl, append_assoc]⟩

variable {s s' : State ο φ} {job : Job ο φ} {e : Event ο φ} {outcome : Option ο}

theorem Arrived.enqueueLocked (h : Sound s) (job : Job ο φ) (pending : Finset Int) (batch : Int) :
    Arrived s (enqueueLocked { s with pending := pending, pendingBatch := batch } job) := by
  refine ⟨fun g => ⟨[], (append_nil _).symm, by simp⟩, rfl, rfl, ?_, ⟨[job], alive_enqueueLocked _ job⟩, .refl⟩
  have hd := h.drains
  cases hr : s.running with
  | true => exact .inl (by simp [Updater.enqueueLocked])
  | false =>
    rw [hr, if_neg Bool.false_ne_true] at hd
    exact .inr ⟨hd.1, by simp [Updater.enqueueLocked, hd.1]⟩

open Arrived (enqueueLocked refl)

theorem Arrived.register (s : State ο φ) (gid : Int) (done : Bool) : Arrived s (register s gid done) := by
  cases done with
  | false => exact refl s
  | true =>
    refine ⟨fun g => ?_, rfl, rfl, .inl rfl, ⟨[], (append_nil _).symm⟩, Nat.le_succ _⟩
    by_cases hg : g = gid
    · subst hg
      exact ⟨[s.registered], by simp [Updater.register], by simp [Updater.register]⟩
    · exact ⟨[], by simp [Updater.register, hg], by simp⟩

/-- The events beside the thread. -/
def Event.Arrives (e : Event ο φ) : Prop := ∀ k outcome, e ≠ .drain k outcome

theorem Arrived.refreshAll {gids : List Int} (hgids : ∀ gid ∈ gids, 0 ≤ gid) (h : Sound s) :
    Arrived s (gids.foldl (refreshAllOne unfinished) s) := by
  induction gids generalizing s with
  | nil => exact refl s
  | cons gid rest ih =>
    have hone : Arrived s (refreshAllOne unfinished s gid) := by
      unfold refreshAllOne
      split
      · exact refl s
      · exact enqueueLocked h _ _ _
    exact hone.trans (ih (fun g hg => hgids g (.tail _ hg)) (h.refreshAllOne (hgids gid (.head _))))

theorem Arrived.step (h : Sound s) (he : e.Valid) (harrives : e.Arrives)
    (hs : step unfinished missingGroup s e = some s') : Arrived s s' := by
  cases e with
  | refreshGroup gid finish =>
    cases hs
    unfold refreshGroup
    split
    · have hr := refl s
      exact ⟨hr.waiters, hr.calls, hr.ended, hr.drains, hr.alive, hr.registered⟩
    · exact enqueueLocked h _ _ s.pendingBatch
  | refreshWithOutcome gid done =>
    cases hs
    have hgid : 0 ≤ gid := he
    unfold refreshWithOutcome
    rw [if_neg (by omega)]
    dsimp only
    have hr := Arrived.register s gid done
    split
    · exact hr
    · exact hr.trans (enqueueLocked (h.register gid done) _ _ (Updater.register s gid done).pendingBatch)
  | refreshAll gids =>
    cases hs
    unfold Updater.refreshAll
    split
    · exact refl s
    · exact Arrived.refreshAll he h
  | enqueue finish =>
    cases hs
    exact enqueueLocked h _ s.pending s.pendingBatch
  | drain k outcome => exact absurd rfl (harrives k outcome)
  | isIdle =>
    cases hs
    exact refl s

/-! ## Numbers -/

/-- The callbacks have the numbers given so far. -/
structure Numbered (s : State ο φ) : Prop where
  waiters : ∀ g, ∀ c ∈ s.waiters g, c < s.registered
  taken : ∀ c ∈ s.taken, c < s.registered
  calls : ∀ call ∈ s.calls, call.1 < s.registered

theorem taken_of_drains {p : Phase ο φ} (hd : s.drains = [p]) :
    s.taken = p.waiting := by
  rw [taken, hd, flatMap_singleton]

theorem Arrived.taken (h : Arrived s s') : s'.taken = s.taken := by
  obtain hsame | ⟨hnil, hnew⟩ := h.drains
  · rw [State.taken, hsame]
    rfl
  · rw [State.taken, State.taken, hnil, hnew]
    rfl

theorem Numbered.arrived (h : Numbered s) (ha : Arrived s s') : Numbered s' := by
  refine ⟨fun g c hc => ?_, fun c hc => ?_, fun call hcall => ?_⟩
  · obtain ⟨more, hmore, hlt⟩ := ha.waiters g
    rw [hmore] at hc
    obtain hc | hc := mem_append.mp hc
    · exact lt_of_lt_of_le (h.waiters g c hc) ha.registered
    · exact (hlt c hc).2
  · rw [ha.taken] at hc
    exact lt_of_lt_of_le (h.taken c hc) ha.registered
  · rw [ha.calls] at hcall
    exact lt_of_lt_of_le (h.calls call hcall) ha.registered

theorem Numbered.drained (h : Numbered s) (hd : Drained s outcome s') : Numbered s' := by
  cases hd with
  | stop hd hq => exact ⟨h.waiters, by simp [State.taken], h.calls⟩
  | take hd hq => exact ⟨h.waiters, by simp [State.taken, waiting], h.calls⟩
  | run hd => exact ⟨h.waiters, by simp [State.taken, waiting], h.calls⟩
  | finish hd => exact ⟨h.waiters, by simp [State.taken, waiting], h.calls⟩
  | served hd => exact ⟨h.waiters, by simp [State.taken, waiting], h.calls⟩
  | @mark job hd =>
    refine ⟨fun g c hc => ?_, fun c hc => ?_, h.calls⟩
    · have hold : c ∈ s.waiters g := by
        unfold finishJob at hc
        split at hc
        · by_cases hg : g = job.gid
          · subst hg
            simp at hc
          · simpa [hg] using hc
        · exact hc
      exact h.waiters g c hold
    · have hold : c ∈ s.waiters job.gid := by
        simp only [State.taken, finishJob, hd, set_cons_zero, flatMap_cons, flatMap_nil, append_nil,
          waiting] at hc
        split at hc
        · exact hc
        · cases hc
      exact h.waiters _ c hold
  | @call job done rest hd =>
    have htaken := taken_of_drains hd
    refine ⟨h.waiters, fun c hc => ?_, fun call hcall => ?_⟩
    · have hrest : c ∈ rest := by simpa [State.taken, waiting] using hc
      exact h.taken c (by rw [htaken]; exact .tail _ hrest)
    obtain hcall | hcall := mem_append.mp hcall
    · exact h.calls call hcall
    · rw [mem_singleton.mp hcall]
      exact h.taken done (by rw [htaken]; exact (.head _))

/-! ## The way of a callback -/

/-- Where callback `c` is, which waits for the job of the number `n`. -/
inductive Held (c : Nat) (gid : Int) (n : Nat) (s : State ο φ) : Prop where
  | waiting {job : Job ο φ} (hcount : (s.waiters gid).count c = 1) (hother : ∀ g, g ≠ gid →
      c ∉ s.waiters g) (htaken : c ∉ s.taken)
      (hcalls : s.callsOf c = []) (hjob : job ∈ s.alive) (hserial : job.serial = n) (hgid : job.gid = gid)
  | taken {job : Job ο φ} {l : List Nat} (hwaiters : ∀ g,
      c ∉ s.waiters g) (hd : s.drains = [.calling job l]) (hcount : l.count c = 1)
      (hcalls : s.callsOf c = []) (hended : job ∈ s.ended) (hserial : job.serial = n) (hgid : job.gid = gid)
      (houtcome : job.outcome.isSome = true)
  | called {job : Job ο φ} (hwaiters : ∀ g, c ∉ s.waiters g) (htaken : c ∉ s.taken) (hcalls : s.callsOf c = [(c, job.outcome)])
      (hended : job ∈ s.ended) (hserial : job.serial = n) (hgid : job.gid = gid) (houtcome : job.outcome.isSome = true)

variable {c n : Nat} {gid : Int}

theorem callsOf_append (s : State ο φ) (c done : Nat) (o : Option ο) (drains : List (Phase ο φ)) :
    ({ s with calls := s.calls ++ [(done, o)], drains := drains } : State ο φ).callsOf c =
      s.callsOf c ++ if done = c then [(done, o)] else [] := by
  unfold callsOf
  by_cases h : done = c <;> simp [h]

variable (h : Held c gid n s)

include h in
theorem Held.arrived (ha : Arrived s s') (hc : c < s.registered) : Held c gid n s' := by
  have hnew : ∀ g, ∃ more, s'.waiters g = s.waiters g ++ more ∧ c ∉ more := by
    intro g
    obtain ⟨more, hmore, hlt⟩ := ha.waiters g
    exact ⟨more, hmore, fun hmem => not_lt.mpr (hlt c hmem).1 hc⟩
  have hout : ∀ g, c ∉ s.waiters g → c ∉ s'.waiters g := by
    intro g hg
    obtain ⟨more, hmore, hnot⟩ := hnew g
    rw [hmore]
    simp [hg, hnot]
  have hcallsOf : s'.callsOf c = s.callsOf c := by rw [callsOf, ha.calls]; rfl
  cases h with
  | waiting hcount hother htaken hcalls hjob hserial hgid =>
    obtain ⟨more, hmore, hnot⟩ := hnew gid
    obtain ⟨added, hadded⟩ := ha.alive
    refine .waiting ?_ (fun g hg => hout g (hother g hg)) (ha.taken ▸ htaken) (hcallsOf.trans hcalls)
      (by rw [hadded]; exact mem_append_left _ hjob) hserial hgid
    rw [hmore, count_append, hcount, count_eq_zero_of_not_mem hnot]
  | taken hwaiters hd hcount hcalls hended hserial hgid houtcome =>
    obtain hsame | ⟨hnil, -⟩ := ha.drains
    · exact .taken (fun g => hout g (hwaiters g)) (hsame.trans hd) hcount (hcallsOf.trans hcalls) (ha.ended ▸ hended) hserial hgid houtcome
    · rw [hd] at hnil
      cases hnil
  | called hwaiters htaken hcalls hended hserial hgid houtcome =>
    exact .called (fun g => hout g (hwaiters g)) (ha.taken ▸ htaken) (hcallsOf.trans hcalls) (ha.ended ▸ hended) hserial hgid houtcome

theorem finishJob_waiters (s : State ο φ) (job : Job ο φ) (g : Int) :
    (finishJob s 0 job).waiters g = if 0 ≤ job.gid ∧ g = job.gid then [] else s.waiters g := by
  unfold finishJob
  by_cases hjob : 0 ≤ job.gid <;> by_cases hg : g = job.gid <;> simp [hjob, hg]

theorem finishJob_drains (hd : s.drains = [.finished job]) :
    (finishJob s 0 job).drains = [.calling job (if 0 ≤ job.gid then s.waiters job.gid else [])] := by
  show s.drains.set 0 _ = _
  rw [hd]
  rfl

theorem finishJob_taken (hd : s.drains = [.finished job]) :
    (finishJob s 0 job).taken = if 0 ≤ job.gid then s.waiters job.gid else [] := taken_of_drains (finishJob_drains hd)

include h

theorem Held.mark (hs : Sound s) (hpos : 0 ≤ gid) (hd : s.drains = [.finished job]) :
    Held c gid n (finishJob s 0 job) := by
  have halive : s.alive = job :: s.queue := alive_of_drains hd
  have hkeep : ∀ g, c ∉ s.waiters g → c ∉ (finishJob s 0 job).waiters g := by
    intro g hg
    rw [finishJob_waiters]
    split
    · simp
    · exact hg
  cases h with
  | @waiting mine hcount hother htaken hcalls hjob hserial hgid =>
    rw [halive] at hjob
    obtain rfl | hqueue := mem_cons.mp hjob
    · have hmem : mine ∈ s.ended ++ [mine] := mem_append_right _ mem_cons_self
      have houtcome := hs.outcome mine (by rw [halive]; exact (.head _)) (hgid ▸ hpos)
      refine .taken (l := s.waiters mine.gid) (fun g => ?_) ?_ (hgid ▸ hcount) hcalls hmem hserial hgid houtcome
      · rw [finishJob_waiters]
        by_cases hg : g = mine.gid
        · rw [if_pos ⟨hgid ▸ hpos, hg⟩]
          simp
        · rw [if_neg (fun hboth => hg hboth.2)]
          exact hother g (hgid ▸ hg)
      · rw [finishJob_drains hd, if_pos (hgid ▸ hpos)]
    have hne : job.gid ≠ gid := by
      intro heq
      have hunique := hs.unique gid hpos
      rw [halive, countP_cons_of_pos (by simpa using heq)] at hunique
      have hzero := countP_eq_zero.mp (Nat.le_zero.mp (Nat.le_of_succ_le_succ hunique))
      exact hzero mine hqueue (by simpa using hgid)
    have hnew : (finishJob s 0 job).alive = s.queue := by
      rw [alive, finishJob, hd]
      rfl
    refine .waiting ?_ (fun g hg => hkeep g (hother g hg)) ?_ hcalls (hnew ▸ hqueue) hserial hgid
    · rw [finishJob_waiters, if_neg (fun hboth => hne hboth.2.symm)]
      exact hcount
    rw [finishJob_taken hd]
    split
    · exact hother job.gid hne
    · simp
  | taken hwaiters hd' =>
    rw [hd] at hd'
    cases hd'
  | called hwaiters htaken hcalls hended hserial hgid houtcome =>
    refine .called (fun g => hkeep g (hwaiters g)) ?_ hcalls (mem_append_left _ hended) hserial hgid houtcome
    rw [finishJob_taken hd]
    split
    · exact hwaiters job.gid
    · simp

theorem Held.call {done : Nat} {rest : List Nat}
    (hd : s.drains = [.calling job (done :: rest)]) :
    Held c gid n { s with calls := s.calls ++ [(done, job.outcome)], drains := [.calling job rest] } := by
  have htakenOf : s.taken = done :: rest := taken_of_drains hd
  have hnew := callsOf_append s c done job.outcome [.calling job rest]
  have hstill : c ∉ s.taken → done ≠ c ∧ c ∉ rest := by
    intro hnot
    rw [htakenOf] at hnot
    exact ⟨fun heq => hnot (heq ▸ (.head _)), fun hmem => hnot (.tail _ hmem)⟩
  cases h with
  | waiting hcount hother htaken hcalls hjob hserial hgid =>
    obtain ⟨hne, hrest⟩ := hstill htaken
    rw [if_neg hne, append_nil] at hnew
    have halive : s.alive = s.queue := alive_of_drains hd
    exact .waiting hcount hother (by simpa [State.taken, Phase.waiting] using hrest) (hnew.trans hcalls)
      (show _ ∈ s.queue from halive ▸ hjob) hserial hgid
  | taken hwaiters hd' hcount hcalls hended hserial hgid houtcome =>
    rw [hd] at hd'
    cases hd'
    rw [count_cons] at hcount
    by_cases hdone : done = c
    · subst hdone
      rw [if_pos rfl, hcalls, nil_append] at hnew
      have hrest : done ∉ rest := by
        rw [← count_eq_zero]
        simpa using hcount
      exact .called hwaiters (by simpa [State.taken, Phase.waiting] using hrest) hnew hended hserial hgid houtcome
    · rw [if_neg hdone, append_nil] at hnew
      exact .taken hwaiters rfl (by simpa [hdone] using hcount) (hnew.trans hcalls) hended hserial hgid houtcome
  | called hwaiters htaken hcalls hended hserial hgid houtcome =>
    obtain ⟨hne, hrest⟩ := hstill htaken
    rw [if_neg hne, append_nil] at hnew
    exact .called hwaiters (by simpa [State.taken,
      Phase.waiting] using hrest) (hnew.trans hcalls) hended hserial hgid houtcome

/-- The steps in which no callback moves. -/
theorem Held.quiet (hwaiters : s'.waiters = s.waiters) (hcalls : s'.calls = s.calls)
    (hended : s'.ended = s.ended) (hnone : s'.taken = []) (hidle : s.taken = [])
    (halive : ∀ job ∈ s.alive, ∃ other ∈ s'.alive, other.serial = job.serial ∧
      other.gid = job.gid) : Held c gid n s' := by
  have hcallsOf : s'.callsOf c = s.callsOf c := by rw [callsOf, hcalls]; rfl
  have htaken : c ∉ s'.taken := by simp [hnone]
  cases h with
  | waiting hcount hother _ hnocall hjob hserial hgid =>
    obtain ⟨other, hmem, hsame, hgroup⟩ := halive _ hjob
    exact .waiting (hwaiters ▸ hcount) (hwaiters ▸ hother) htaken (hcallsOf.trans hnocall) hmem (hsame.trans hserial) (hgroup.trans hgid)
  | taken _ hd hcount =>
    rw [taken_of_drains hd, Phase.waiting] at hidle
    rw [hidle] at hcount
    cases hcount
  | called hout _ hone hin hserial hgid houtcome =>
    exact .called (hwaiters ▸ hout) htaken (hcallsOf.trans hone) (hended ▸ hin) hserial hgid houtcome

theorem Held.drained (hs : Sound s) (hpos : 0 ≤ gid)
    (hd : Drained s outcome s') : Held c gid n s' := by
  have hsame : ∀ {p : Phase ο φ} {t : State ο φ}, s.drains = [p] → t.alive = p.job.toList ++ s.queue →
      ∀ job ∈ s.alive, ∃ other ∈ t.alive, other.serial = job.serial ∧ other.gid = job.gid := by
    intro p t hp ht job hjob
    exact ⟨job, by rw [ht, ← alive_of_drains hp]; exact hjob, rfl, rfl⟩
  cases hd with
  | stop hd hq => exact h.quiet rfl rfl rfl rfl (taken_of_drains hd) (hsame hd (by simp [alive, hq, job]))
  | take hd hq => exact h.quiet rfl rfl rfl rfl (taken_of_drains hd) (hsame hd (by simp [alive, hq, job]))
  | @run job hd =>
    refine h.quiet rfl rfl rfl rfl (taken_of_drains hd) (fun other hother => ?_)
    have halive : s.alive = job :: s.queue := alive_of_drains hd
    rw [halive] at hother
    obtain rfl | hother := mem_cons.mp hother
    · exact ⟨_, .head _, rfl, rfl⟩
    · exact ⟨other, mem_cons_of_mem _ hother, rfl, rfl⟩
  | finish hd => exact h.quiet rfl rfl rfl rfl (taken_of_drains hd) (hsame hd rfl)
  | mark hd => exact h.mark hs hpos hd
  | served hd => exact h.quiet rfl rfl rfl rfl (taken_of_drains hd) (hsame hd rfl)
  | call hd => exact h.call hd

omit h

/-! ## Progress -/

/-- The jobs up to the one of the number `n`, itself included. -/
def State.ahead (s : State ο φ) (n : Nat) : Nat :=
  if n ∈ s.alive.map (·.serial) then (s.alive.map (·.serial)).idxOf n + 1 else 0

/-- The steps of a thread up to the end of its next job. -/
def Phase.left : Phase ο φ → Nat
  | .calling _ waiting => 4 + waiting.length
  | .looking => 3
  | .took _ => 2
  | .ran _ => 1
  | .finished _ => 0

def State.rank (n : Nat) (s : State ο φ) : Nat × Nat := (s.ahead n, (s.drains.map Phase.left).sum)

/-- The order of the ranks. -/
def Nearer : Nat × Nat → Nat × Nat → Prop := Prod.Lex (· < ·) (· < ·)

theorem nearer_wf : WellFounded Nearer := WellFounded.prod_lex Nat.lt_wfRel.wf Nat.lt_wfRel.wf

theorem left_of_drains {p : Phase ο φ} (hd : s.drains = [p]) : (s.drains.map Phase.left).sum = p.left := by
  rw [hd]
  simp

theorem ahead_congr (h : s'.alive.map (·.serial) = s.alive.map (·.serial)) : s'.ahead n = s.ahead n := by
  rw [ahead, ahead, h]

theorem Sound.ended_not_alive (h : Sound s) (hended : job ∈ s.ended) :
    job.serial ∉ s.alive.map (·.serial) := by
  have hnodup := h.serials
  rw [map_append, nodup_append] at hnodup
  intro hmem
  exact hnodup.2.2 _ (mem_map_of_mem hended) _ hmem rfl

include h

/-- A step of the thread brings a callback that is not called closer to its call. -/
theorem Held.nearer (hs : Sound s) (hnone : s.callsOf c = [])
    (hd : Drained s outcome s') : Nearer (s'.rank n) (s.rank n) := by
  -- the rest of the round gets shorter while the jobs stay
  have hround : ∀ {p q : Phase ο φ}, s.drains = [p] → s'.drains = [q] →
    s'.alive.map (·.serial) = s.alive.map (·.serial) →
      q.left < p.left → Nearer (s'.rank n) (s.rank n) := by
    intro p q hp hq halive hlt
    unfold rank
    rw [ahead_congr halive, left_of_drains hp, left_of_drains hq]
    exact Lex.right _ hlt
  have hmember : ∀ {p : Phase ο φ}, s.drains = [p] → p.waiting = [] → ∃ job ∈ s.alive, job.serial = n := by
    intro p hp hempty
    cases h with
    | waiting _ _ _ _ hjob hserial _ => exact ⟨_, hjob, hserial⟩
    | taken _ hd' hcount =>
      rw [hp] at hd'
      cases hd'
      rw [Phase.waiting] at hempty
      rw [hempty] at hcount
      cases hcount
    | called _ _ hcalls =>
      rw [hnone] at hcalls
      cases hcalls
  cases hd with
  | stop hd hq =>
    obtain ⟨job, hjob, -⟩ := hmember hd rfl
    rw [alive_of_drains hd, hq] at hjob
    cases hjob
  | take hd hq =>
    refine hround hd rfl ?_ (by simp [left])
    rw [alive_of_drains hd, hq]
    rfl
  | run hd =>
    refine hround hd rfl ?_ (by simp [left])
    rw [alive_of_drains hd]
    rfl
  | finish hd =>
    refine hround hd rfl ?_ (by simp [left])
    rw [alive_of_drains hd]
    rfl
  | served hd =>
    refine hround hd rfl ?_ (by simp [left])
    rw [alive_of_drains hd]
    rfl
  | @call job done rest hd =>
    refine hround hd rfl ?_ ?_
    · rw [alive_of_drains hd]
      rfl
    · simp only [left, length_cons]
      omega
  | @mark job hd =>
    obtain ⟨mine, hmine, hserial⟩ := hmember hd rfl
    have halive : s.alive = job :: s.queue := alive_of_drains hd
    have hnew : (finishJob s 0 job).alive = s.queue := alive_of_drains (finishJob_drains hd)
    have hnodup := hs.serials
    rw [map_append, nodup_append, halive, map_cons, nodup_cons] at hnodup
    refine Lex.left _ _ ?_
    have hmem : n ∈ s.alive.map (·.serial) := hserial ▸ mem_map_of_mem hmine
    rw [ahead, ahead, if_pos hmem, hnew, halive, map_cons]
    by_cases hn : n = job.serial
    · rw [if_neg (hn ▸ hnodup.2.1.1)]
      omega
    · rw [idxOf_cons_ne _ (Ne.symm hn)]
      split <;> omega

theorem Held.drains_ne (hs : Sound s) (hnone : s.callsOf c = []) : s.drains ≠ [] := by
  intro hnil
  have hd := hs.drains
  cases h with
  | waiting _ _ _ _ hjob _ _ =>
    rw [hnil] at hd
    cases hr : s.running with
    | true =>
      rw [hr, if_pos rfl] at hd
      cases hd
    | false =>
      rw [hr, if_neg Bool.false_ne_true] at hd
      rw [alive, hnil, hd.2] at hjob
      cases hjob
  | taken _ hcalling =>
    rw [hnil] at hcalling
    cases hcalling
  | called _ _ hcalls =>
    rw [hnone] at hcalls
    cases hcalls

theorem Held.rank_arrived (hs : Sound s) (hs' : Sound s') (hnone : s.callsOf c = [])
    (ha : Arrived s s') : s'.rank n = s.rank n := by
  have hdrains : s'.drains = s.drains := ha.drains.resolve_right (fun hnew => h.drains_ne hs hnone hnew.1)
  cases h with
  | @waiting job _ _ _ _ hjob hserial _ =>
    obtain ⟨more, hmore⟩ := ha.alive
    have hmem : n ∈ s.alive.map (·.serial) := hserial ▸ mem_map_of_mem hjob
    have hahead : s'.ahead n = s.ahead n := by
      rw [ahead, ahead, hmore, map_append, if_pos (mem_append_left _ hmem), if_pos hmem,
        idxOf_append_of_mem hmem]
    rw [rank, rank, hahead, hdrains]
  | taken _ _ _ _ hended hserial _ _ =>
    have hzero : s.ahead n = 0 := if_neg (hserial ▸ hs.ended_not_alive hended)
    have hzero' : s'.ahead n = 0 := if_neg (hserial ▸ hs'.ended_not_alive (ha.ended ▸ hended))
    rw [rank, rank, hzero, hzero', hdrains]
  | called _ _ hcalls =>
    rw [hnone] at hcalls
    cases hcalls

omit h

/-! ## Runs -/

/-- A callback starts to wait for a job that is not finished. -/
theorem register_held (hs : Sound s) (hn : Numbered s) (hpos : 0 ≤ gid) :
    ∃ job ∈ (refreshWithOutcome unfinished missingGroup s gid true).alive,
      Held s.registered gid job.serial (refreshWithOutcome unfinished missingGroup s gid true) := by
  have hfresh : ∀ g, s.registered ∉ s.waiters g := fun g hmem => lt_irrefl _ (hn.waiters g _ hmem)
  have hnone : s.callsOf s.registered = [] := by
    rw [callsOf, filter_eq_nil_iff]
    intro call hcall heq
    exact lt_irrefl _ (beq_iff_eq.mp heq ▸ hn.calls call hcall)
  have harrived : Arrived s (refreshWithOutcome unfinished missingGroup s gid true) :=
    Arrived.step (e := .refreshWithOutcome gid true) hs hpos (fun _ _ => by simp) rfl
  have hsound : Sound (refreshWithOutcome unfinished missingGroup s gid true) := hs.refreshWithOutcome hpos true
  have hwaiters : (refreshWithOutcome unfinished missingGroup s gid true).waiters =
      update s.waiters gid (s.waiters gid ++ [s.registered]) := by
    unfold refreshWithOutcome
    rw [if_neg (by omega)]
    dsimp only
    split <;> rfl
  have hpending : gid ∈ (refreshWithOutcome unfinished missingGroup s gid true).pending := by
    unfold refreshWithOutcome
    rw [if_neg (by omega)]
    dsimp only
    split
    · next hmem => exact hmem
    · exact Finset.mem_insert_self _ _
  obtain ⟨-, job, hjob, hgid⟩ := (hsound.pending gid).mp hpending
  refine ⟨job, hjob, .waiting ?_ (fun g hg => ?_) ?_ ?_ hjob rfl hgid⟩
  · rw [hwaiters, update_self, count_append, count_eq_zero_of_not_mem (hfresh gid)]
    simp
  · rw [hwaiters, update_of_ne hg]
    exact hfresh g
  · rw [harrived.taken]
    exact fun hmem => lt_irrefl _ (hn.taken _ hmem)
  · rw [callsOf, harrived.calls]
    exact hnone

include h in
theorem Held.calls :
    s.callsOf c = [] ∨ ∃ job ∈ s.ended, job.serial = n ∧ job.gid = gid ∧ job.outcome.isSome = true ∧
      s.callsOf c = [(c, job.outcome)] := by
  cases h with
  | waiting _ _ _ hcalls => exact .inl hcalls
  | taken _ _ _ hcalls => exact .inl hcalls
  | called _ _ hcalls hended hserial hgid houtcome => exact .inr ⟨_, hended, hserial, hgid, houtcome, hcalls⟩

/-- Everything about one callback at one time. -/
structure Followed (c : Nat) (gid : Int) (n : Nat) (s : State ο φ) : Prop where
  sound : Sound s
  numbered : Numbered s
  given : c < s.registered
  held : Held c gid n s

theorem arrives_or_drain (e : Event ο φ) : e.Arrives ∨ ∃ k outcome, e = .drain k outcome := by
  cases e with
  | drain k outcome => exact .inr ⟨k, outcome, rfl⟩
  | _ => exact .inl (fun _ _ => by simp)

theorem Numbered.step (hn : Numbered s) (hs : Sound s) (he : e.Valid)
    (hstep : step unfinished missingGroup s e = some s') : Numbered s' := by
  obtain harrives | ⟨k, outcome, rfl⟩ := arrives_or_drain e
  · exact hn.arrived (Arrived.step hs he harrives hstep)
  · exact hn.drained (hs.drained hstep).2

theorem drained_registered (h : Drained s outcome s') : s'.registered = s.registered := by
  cases h <;> rfl

theorem Followed.step (h : Followed c gid n s) (hpos : 0 ≤ gid) (he : e.Valid)
    (hstep : step unfinished missingGroup s e = some s') : Followed c gid n s' := by
  have hsound := h.sound.step he hstep
  have hnumbered := h.numbered.step h.sound he hstep
  obtain harrives | ⟨k, outcome, rfl⟩ := arrives_or_drain e
  · have ha := Arrived.step h.sound he harrives hstep
    exact ⟨hsound, hnumbered, lt_of_lt_of_le h.given ha.registered, h.held.arrived ha h.given⟩
  · have hd := (h.sound.drained hstep).2
    exact ⟨hsound, hnumbered, (drained_registered hd).symm ▸ h.given, h.held.drained h.sound hpos hd⟩

theorem calls_grow (hs : Sound s) (he : e.Valid)
    (hstep : step unfinished missingGroup s e = some s') : s.registered ≤ s'.registered ∧
    ∀ call ∈ s.calls, call ∈ s'.calls := by
  obtain harrives | ⟨k, outcome, rfl⟩ := arrives_or_drain e
  · have ha := Arrived.step hs he harrives hstep
    exact ⟨ha.registered, fun call hcall => ha.calls ▸ hcall⟩
  have hd := (hs.drained hstep).2
  refine ⟨le_of_eq (drained_registered hd).symm, fun call hcall => ?_⟩
  cases hd with
  | call hd => exact mem_append_left _ hcall
  | _ => exact hcall

theorem mem_callsOf {o : Option ο} : (c, o) ∈ s.callsOf c ↔ (c, o) ∈ s.calls := by
  simp [callsOf]

/-- The thread goes on while there is one: its jobs and callbacks end. -/
def Goes (r : Schedule (step unfinished missingGroup) ({} : State ο φ)) : Prop :=
  ∀ n, ∃ m, n ≤ m ∧ ((r.state m).drains = [] ∨ ∃ k outcome, r.event m = .drain k outcome)

theorem Followed.called {r : Schedule (Updater.step unfinished missingGroup) ({} : State ο φ)}
    (hvalid : ∀ n, (r.event n).Valid) (hgoes : Goes r)
    (hpos : 0 ≤ gid) {t : Nat} (h : Followed c gid n (r.state t)) : ∃ m, t ≤ m ∧ (r.state m).callsOf c ≠ [] := by
  refine r.eventually (P := Followed c gid n) nearer_wf (rank n) (fun e => ∃ k outcome, e = .drain k outcome)
    (fun s => s.callsOf c ≠ []) ?_ ?_ ?_ ?_ h
  · rintro i hi hgoal ⟨k, outcome, he⟩
    have hnext := r.next i
    rw [he] at hnext
    exact .inr (hi.held.nearer hi.sound (not_not.mp hgoal) (hi.sound.drained hnext).2)
  · intro i hi hgoal hother
    have hnext := r.next i
    have harrives := (arrives_or_drain (r.event i)).resolve_right hother
    have ha := Arrived.step hi.sound (hvalid i) harrives hnext
    exact .inr (hi.held.rank_arrived hi.sound (hi.sound.step (hvalid i) hnext) (not_not.mp hgoal) ha)
  · intro i hi
    exact hi.step hpos (hvalid i) (r.next i)
  · intro i hi
    obtain ⟨m, him, hm⟩ := hgoes i
    have hfollowed : Followed c gid n (r.state m) :=
      r.keeps_from (P := Followed c gid n) (fun j hj => hj.step hpos (hvalid j) (r.next j)) him hi
    refine ⟨m, him, ?_⟩
    obtain hnil | hdrain := hm
    · refine .inl (fun hnone => ?_)
      exact hfollowed.held.drains_ne hfollowed.sound hnone hnil
    · exact .inr hdrain

/-- **The queue of jobs.** In every run over groups that are not negative: at most one job of a group is queued or running,
its group is pending exactly then, the batch jobs are counted, and a queue that is not empty is drained by one thread.  A
callback is called at most once, and with the outcome of a job of its group that was queued or running, not finished, when
it was registered; where the thread goes on it is called. -/
theorem updater_contract (r : Schedule (step unfinished missingGroup) ({} : State ο φ))
    (hvalid : ∀ n, (r.event n).Valid) :
    (∀ n, (∀ gid, 0 ≤ gid → (r.state n).alive.countP (fun job => job.gid = gid) ≤ 1) ∧
      (∀ gid, gid ∈ (r.state n).pending ↔ 0 ≤ gid ∧ ∃ job ∈ (r.state n).alive, job.gid = gid) ∧
      (r.state n).pendingBatch = (r.state n).alive.countP (·.batch) ∧
      ((r.state n).queue ≠ [] → (r.state n).running = true ∧ (r.state n).drains.length = 1)) ∧
    ∀ n gid, r.event n = .refreshWithOutcome gid true →
      (∀ m, ((r.state m).callsOf (r.state n).registered).length ≤ 1) ∧
      (∀ m o, ((r.state n).registered, o) ∈ (r.state m).calls →
        ∃ job ∈ (r.state m).ended, job.gid = gid ∧ o = job.outcome ∧ o.isSome = true ∧
          (∃ waited ∈ (r.state (n + 1)).alive, waited.serial = job.serial) ∧
          job.serial ∉ (r.state n).ended.map (·.serial)) ∧
      (Goes r → ∃ m, ∀ k, m ≤ k → ((r.state k).callsOf (r.state n).registered).length = 1) := by
  have hsound : ∀ n, Sound (r.state n) :=
    r.keeps sound_initial (fun n hn => hn.step (hvalid n) (r.next n))
  have hboth : ∀ n, Sound (r.state n) ∧ Numbered (r.state n) := by
    refine r.keeps (P := fun s => Sound s ∧ Numbered s) ⟨sound_initial,
      ⟨by simp, by simp [taken], by simp⟩⟩ (fun n hn => ?_)
    exact ⟨hn.1.step (hvalid n) (r.next n), hn.2.step hn.1 (hvalid n) (r.next n)⟩
  refine ⟨fun n => ⟨(hsound n).unique, (hsound n).pending, (hsound n).batch, fun hqueue => ?_⟩, fun n gid he => ?_⟩
  · have hd := (hsound n).drains
    cases hr : (r.state n).running with
    | true =>
      rw [hr, if_pos rfl] at hd
      exact ⟨rfl, hd⟩
    | false =>
      rw [hr, if_neg Bool.false_ne_true] at hd
      exact absurd hd.2 hqueue
  · have hpos : 0 ≤ gid := by
      have hv := hvalid n
      rwa [he] at hv
    have hnext := r.next n
    rw [he] at hnext
    have hstate : refreshWithOutcome unfinished missingGroup (r.state n) gid true =
      r.state (n + 1) := Option.some.inj hnext
    obtain ⟨job, hjob, hheld⟩ : ∃ job ∈ (refreshWithOutcome unfinished missingGroup (r.state n) gid true).alive,
        Held (r.state n).registered gid job.serial (refreshWithOutcome unfinished missingGroup (r.state n) gid true) :=
      register_held (hboth n).1 (hboth n).2 hpos
    rw [hstate] at hjob hheld
    have hended : (r.state (n + 1)).ended = (r.state n).ended := by
      have ha : Arrived (r.state n) (r.state (n + 1)) :=
        Arrived.step (e := .refreshWithOutcome gid true) (hsound n) hpos (fun _ _ => by simp) hnext
      exact ha.ended
    have hgiven : (r.state n).registered < (r.state (n + 1)).registered := by
      rw [← hstate]
      unfold refreshWithOutcome
      rw [if_neg (by omega)]
      dsimp only
      split <;> exact Nat.lt_succ_self _
    have hfollowed : ∀ m, n + 1 ≤ m → Followed (r.state n).registered gid job.serial (r.state m) := fun m hm =>
      r.keeps_from (P := Followed (r.state n).registered gid job.serial) (n := n + 1) (fun j hj =>
        hj.step hpos (hvalid j) (r.next j)) hm
        ⟨(hboth _).1, (hboth _).2, hgiven, hheld⟩
    have hbefore : ∀ m, m ≤ n → (r.state m).callsOf (r.state n).registered = [] := by
      intro m hm
      have hle : (r.state m).registered ≤ (r.state n).registered :=
        r.keeps_from (P := fun s => (r.state m).registered ≤ s.registered)
          (fun j hj => le_trans hj (calls_grow (hsound j) (hvalid j) (r.next j)).1) hm (le_refl _)
      rw [callsOf, filter_eq_nil_iff]
      intro call hcall heq
      have hlt := (hboth m).2.calls call hcall
      rw [beq_iff_eq.mp heq] at hlt
      omega
    have hcalls : ∀ m, (r.state m).callsOf (r.state n).registered = [] ∨
        ∃ other ∈ (r.state m).ended, other.serial = job.serial ∧ other.gid = gid ∧ other.outcome.isSome = true ∧
          (r.state m).callsOf (r.state n).registered = [((r.state n).registered, other.outcome)] := by
      intro m
      by_cases hm : m ≤ n
      · exact .inl (hbefore m hm)
      · exact (hfollowed m (by omega)).held.calls
    refine ⟨fun m => ?_, fun m o hcall => ?_, fun hgoes => ?_⟩
    · obtain hnone | ⟨other, -, -, -, -, hone⟩ := hcalls m
      · rw [hnone]
        exact Nat.zero_le 1
      · rw [hone]
        exact le_refl 1
    · have hmem := mem_callsOf.mpr hcall
      obtain hnone | ⟨other, hother, hserial, hgid, houtcome, hone⟩ := hcalls m
      · rw [hnone] at hmem
        cases hmem
      rw [hone] at hmem
      obtain rfl : o = other.outcome := (mk.inj (mem_singleton.mp hmem)).2
      refine ⟨other, hother, hgid, rfl, houtcome, ⟨job, hjob, hserial.symm⟩, fun hin => ?_⟩
      rw [hserial, ← hended] at hin
      obtain ⟨old, hold, heq⟩ := mem_map.mp hin
      exact (hsound (n + 1)).ended_not_alive hold (heq ▸ mem_map_of_mem hjob)
    · obtain ⟨m, -, hcalled⟩ := (hfollowed (n + 1) (.refl)).called hvalid hgoes hpos
      refine ⟨m, fun k hk => ?_⟩
      obtain ⟨call, hcall⟩ := exists_mem_of_ne_nil _ hcalled
      have hstill : call ∈ (r.state k).calls :=
        r.keeps_from (P := fun s => call ∈ s.calls) (fun j hj =>
          (calls_grow (hsound j) (hvalid j) (r.next j)).2 call hj) hk
          (mem_filter.mp hcall).1
      obtain hnone | ⟨other, -, -, -, -, hone⟩ := hcalls k
      · have hin : call ∈ (r.state k).callsOf (r.state n).registered :=
          mem_filter.mpr ⟨hstill, (mem_filter.mp hcall).2⟩
        rw [hnone] at hin
        cases hin
      · rw [hone]
        rfl

/-- One refresh of group 3, which another caller joins, up to its end. -/
def joined : List (Event Nat Unit) :=
  [.refreshGroup 3 none, .drain 0 none, .refreshWithOutcome 3 true, .drain 0 (some 7), .drain 0 none, .drain 0 none,
    .drain 0 none, .drain 0 none, .drain 0 none]

def joinedState (n : Nat) : State Nat Unit :=
  (joined.take n).foldl (fun s e => (step (fun _ => 0) (fun _ => 1) s e).getD s) {}

/-- The refresh and then nothing more. -/
def joinedRun : Schedule (step (fun _ => 0) (fun _ => 1)) ({} : State Nat Unit) where
  state := joinedState
  event := fun n => joined[n]?.getD .isIdle
  start := rfl
  next := by
    intro n
    by_cases hn : n < 9
    · interval_cases n <;> rfl
    have hlength : joined.length = 9 := rfl
    have hidle : joined[n]? = none := by rw [getElem?_eq_none_iff]; omega
    have hsame : joinedState (n + 1) = joinedState n := by
      rw [joinedState, joinedState, take_of_length_le (by omega), take_of_length_le (by omega)]
    rw [hidle, hsame]
    rfl

theorem joinedRun_valid (n : Nat) : (joinedRun.event n).Valid := by
  by_cases hn : n < 9
  · interval_cases n <;> first | trivial | (show (0 : Int) ≤ 3; decide)
  have hlength : joined.length = 9 := rfl
  have hidle : joined[n]? = none := by rw [getElem?_eq_none_iff]; omega
  show (joined[n]?.getD .isIdle).Valid
  rw [hidle]
  trivial

theorem joinedRun_goes : Goes joinedRun := by
  intro n
  refine ⟨n + 9, Nat.le_add_right n 9, .inl ?_⟩
  have hlength : joined.length = 9 := rfl
  show (joinedState (n + 9)).drains = []
  rw [joinedState, take_of_length_le (by omega)]
  rfl

/-- The caller that joins is called with the outcome of the run. -/
theorem updater_contract_joined :
    (∀ m, ((joinedState m).callsOf 0).length ≤ 1) ∧ (∃ m, ∀ k, m ≤ k → ((joinedState k).callsOf 0).length = 1) ∧
      (joinedState 9).calls = [(0, some 7)] := by
  have h := (updater_contract joinedRun joinedRun_valid).2 2 3 rfl
  exact ⟨h.1, h.2.2 joinedRun_goes, rfl⟩

end Waterdisco.Updater
