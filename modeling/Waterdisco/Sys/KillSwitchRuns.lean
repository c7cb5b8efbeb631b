import Mathlib.Data.List.Count
import Mathlib.Data.List.Nodup
import Waterdisco.Sys.KillSwitch

/-!
# Runs of the kill switch

What a call leaves is said once, in `Done`: the guards behind `active` and `pending`
are as they should be (`GuardsOk`), the state says which of them there are
(`StateOk`), the waiters are as before, and if one of them has nothing to wait for
any more then a `settle` is left on the stack.  `Done` is shown of each function of
the switch (`done_apply`, `done_protectionLost`, …), and of a run by induction.

    Safe (run host settings overridden events)      (run_kept_safe)
-/

namespace Waterdisco.Sys

open List Option Frame

/-! ## The guards -/

/-- A guard that is to become the active one. -/
def Waiting (guards : List Guard) (g : Nat) : Prop :=
  ∃ guard, guards[g]? = some guard ∧ guard.closing = false ∧ guard.ready = false

/-- A guard that reported READY and was not closed. -/
def Blocking (guards : List Guard) (g : Nat) : Prop :=
  ∃ guard, guards[g]? = some guard ∧ guard.closing = false ∧ guard.ready = true ∧ guard.process = .started

def Closed (guards : List Guard) (g : Nat) : Prop := ∃ guard, guards[g]? = some guard ∧ guard.closing = true

structure GuardsOk (s : Switch) : Prop where
  pending : ∀ g, s.pending = some g → Waiting s.guards g
  active : ∀ g, s.active = some g → Blocking s.guards g

variable {s : Switch} {g : Nat} {guards : List Guard} {P : Nat → Prop} {r : Switch × List Frame} {stack : List Frame}
  {m : Machine}

variable (h : GuardsOk s)

include h in
theorem GuardsOk.ne {k : Nat} (hp : s.pending = some g) (ha : s.active = some k) :
    g ≠ k := by
  rintro rfl
  obtain ⟨x, hx, _, hready⟩ := h.pending g hp
  obtain ⟨y, hy, _, hblock, _⟩ := h.active g ha
  rw [hx, some.injEq] at hy
  subst hy
  rw [hready] at hblock
  cases hblock

theorem Blocking.not_closed (h : Blocking guards g) : ¬ Closed guards g := by
  rintro ⟨x, hx, hclosing⟩
  obtain ⟨y, hy, hopen, _⟩ := h
  rw [hx, some.injEq] at hy
  subst hy
  rw [hclosing] at hopen
  cases hopen

theorem getElem?_setGuard (s : Switch) (g k : Nat) (f : Guard → Guard) :
    (setGuard s g f).guards[k]? = if g = k then s.guards[k]?.map f else s.guards[k]? := by
  show (s.guards.modify g f)[k]? = _
  rw [getElem?_modify]
  split
  · rfl
  · simp

theorem getElem?_setGuard_of_ne {k : Nat} {f : Guard → Guard} (h : g ≠ k) :
    (setGuard s g f).guards[k]? = s.guards[k]? := by
  rw [getElem?_setGuard, if_neg h]

/-- Closing touches neither another guard nor anything else. -/
theorem closeGuard_eq (s : Switch) (guard : Option Nat) :
    ∃ guards, closeGuard s guard = { s with guards := guards } ∧ guards.length = s.guards.length ∧
      ∀ k, guard ≠ some k → guards[k]? = s.guards[k]? := by
  cases guard with
  | none => exact ⟨s.guards, rfl, rfl, fun _ _ => rfl⟩
  | some g =>
    refine ⟨_, rfl, by simp, fun k hk => ?_⟩
    exact getElem?_setGuard_of_ne (s := s) (fun e => hk (by rw [e]))

include h

/-- Guards that are left, and left alone, stay as they should be. -/
theorem GuardsOk.kept {s' : Switch}
    (hp : ∀ g, s'.pending = some g → s.pending = some g ∧ s'.guards[g]? = s.guards[g]?)
    (ha : ∀ g, s'.active = some g → s.active = some g ∧ s'.guards[g]? = s.guards[g]?) : GuardsOk s' := by
  constructor
  · intro g hg
    obtain ⟨x, hx⟩ := h.pending g (hp g hg).1
    exact ⟨x, by rw [(hp g hg).2, hx.1], hx.2⟩
  · intro g hg
    obtain ⟨x, hx⟩ := h.active g (ha g hg).1
    exact ⟨x, by rw [(ha g hg).2, hx.1], hx.2⟩

theorem not_closed_of_kept (hg : s.active = some g)
    (hkept : guards[g]? = s.guards[g]?) : ¬ Closed guards g := by
  rintro ⟨x, hx, hclosing⟩
  exact (h.active g hg).not_closed ⟨x, by rw [← hkept, hx], hclosing⟩

theorem closePending_eq :
    ∃ guards, closePending s = { s with pending := none, guards := guards } ∧
      GuardsOk { s with pending := none, guards := guards } ∧
      ∀ g, s.active = some g → guards[g]? = s.guards[g]? := by
  obtain ⟨guards, heq, _, hkept⟩ := closeGuard_eq { s with pending := none } s.pending
  have hactive : ∀ g, s.active = some g → guards[g]? = s.guards[g]? :=
    fun g hg => hkept g (fun e => h.ne e hg rfl)
  exact ⟨guards, heq, h.kept (by simp) (fun g hg => ⟨hg, hactive g hg⟩), hactive⟩

omit h

theorem setState_eq (s : Switch) (state : State) :
    ∃ code message, setState s state = { s with state := state, failureCode := code, failureMessage := message } := by
  unfold setState
  split
  · exact ⟨s.failureCode, s.failureMessage, rfl⟩
  · exact ⟨"", "", rfl⟩

/-! ## What a call leaves -/

/-- The state says which guards there are. -/
structure StateOk (s : Switch) : Prop where
  armed : s.state = .armed → s.active ≠ none ∧ s.identityUnsupported = false
  arming : s.state = .arming → s.active = none ∧ s.pending ≠ none
  disabled : s.state = .disabled → s.active = none ∧ s.pending = none ∧ s.identityUnsupported = false

/-- As much of it as is left when a guard has just been dropped. -/
structure Shape (s : Switch) : Prop where
  armed : s.state = .armed → s.identityUnsupported = false
  arming : s.state = .arming → s.active = none
  disabled : s.state = .disabled → s.active = none ∧ s.identityUnsupported = false

theorem StateOk.shape (h : StateOk s) : Shape s where
  armed e := (h.armed e).2
  arming e := (h.arming e).1
  disabled e := ⟨(h.disabled e).1, (h.disabled e).2.2⟩

/-- The waiters and what became of them are the same. -/
structure Same (s s' : Switch) : Prop where
  waiters : s'.waiters = s.waiters
  nextWaiter : s'.nextWaiter = s.nextWaiter
  called : s'.called = s.called
  dropped : s'.dropped = s.dropped

/-- What holds after a call from `s`, where `P` are the guards it may have closed. -/
structure Done (s : Switch) (P : Nat → Prop) (r : Switch × List Frame) : Prop where
  guards : GuardsOk r.1
  states : StateOk r.1
  on : r.1.settings.killSwitch = true → r.1.state ≠ .disabled
  same : Same s r.1
  loops : ∀ waiting, settleLoop waiting ∉ r.2
  quiet : .settle ∈ r.2 ∨ ∀ w, waits s w = true → waits r.1 w = true
  closed : ∀ g, s.active = some g → Closed r.1.guards g → P g

theorem Done.mono {Q : Nat → Prop} (h : Done s P r) (hpq : ∀ g, P g → Q g) :
    Done s Q r :=
  { h with closed := fun g hg hcl => hpq g (h.closed g hg hcl) }

/-- The switch between the calls. -/
structure Inv (s : Switch) : Prop where
  guards : GuardsOk s
  states : StateOk s
  on : s.settings.killSwitch = true → s.state ≠ .disabled

/-- A call that touches only the guards, and leaves the ones in use as they should be. -/
theorem Inv.done_guards (h : Inv s) (hguards : GuardsOk { s with guards := guards }) :
    Done s (fun _ => False) ({ s with guards := guards }, []) where
  guards := hguards
  states := ⟨h.states.armed, h.states.arming, h.states.disabled⟩
  on := h.on
  same := ⟨rfl, rfl, rfl, rfl⟩
  loops := by simp
  quiet := .inr (fun _ hw => hw)
  closed g hg := (hguards.active g hg).not_closed

/-- A call that does nothing. -/
theorem Inv.done (h : Inv s) : Done s (fun _ => False) (s, []) := h.done_guards h.guards

/-- A call from `s₁` ends a call from `s`. -/
theorem Done.after {s₁ : Switch} {P₁ : Nat → Prop} (h : Done s₁ P₁ r)
    (hsame : Same s s₁) (hwaits : .settle ∈ r.2 ∨ ∀ w, waits s w = true → waits s₁ w = true)
    (hclosed : ∀ g, s.active = some g → Closed r.1.guards g → P g) : Done s P r where
  guards := h.guards
  states := h.states
  on := h.on
  same := ⟨h.same.1.trans hsame.1, h.same.2.trans hsame.2, h.same.3.trans hsame.3, h.same.4.trans hsame.4⟩
  loops := h.loops
  quiet := by
    rcases hwaits with hwaits | hwaits
    · exact .inl hwaits
    · exact h.quiet.imp id (fun hq w hw => hq w (hwaits w hw))
  closed := hclosed

/-- A switch whose state is `failed` is as it should be. -/
theorem stateOk_of_failed (h : s.state = .failed) : StateOk s where
  armed e := by rw [h] at e; cases e
  arming e := by rw [h] at e; cases e
  disabled e := by rw [h] at e; cases e

include h

/-- A call that only moves to `failed`. -/
theorem done_failed (hstate : r.1.state = .failed)
    (hframes : r.2 = [.settle]) (hsame : Same s r.1) (hguards : r.1.guards = s.guards)
    (hactive : r.1.active = s.active) (hpending : r.1.pending = s.pending) : Done s (fun _ => False) r where
  guards := by
    constructor
    · rw [hpending, hguards]
      exact h.pending
    · rw [hactive, hguards]
      exact h.active
  states := stateOk_of_failed hstate
  on _ := by
    rw [hstate]
    decide
  same := hsame
  loops := by simp [hframes]
  quiet := by simp [hframes]
  closed := by
    rw [hguards]
    exact fun g hg => (h.active g hg).not_closed

theorem done_fail (code message : String) :
    Done s (fun _ => False) (fail s code message) :=
  done_failed h rfl rfl ⟨rfl, rfl, rfl, rfl⟩ rfl rfl rfl

theorem done_failIdentity : Done s (fun _ => False) (failIdentity s) := by
  dsimp only [failIdentity]
  split
  · exact done_failed h rfl rfl ⟨rfl, rfl, rfl, rfl⟩ rfl rfl rfl
  rename_i hsame
  simp only [not_or, not_not] at hsame
  exact done_failed h hsame.1 rfl ⟨rfl, rfl, rfl, rfl⟩ rfl rfl rfl

/-- `spawn`, from a switch that has just lost a guard or not. -/
theorem done_spawn (hs : Shape s) (config : GuardConfig) :
    Done s (fun _ => False) (spawn s config) := by
  obtain ⟨guards, heq, hguards, hactive⟩ := closePending_eq h
  have hold : ∀ (x : Guard) (g : Nat), s.active = some g → (guards ++ [x])[g]? = guards[g]? := by
    intro x g hg
    obtain ⟨y, hy, _⟩ := hguards.active g hg
    exact List.getElem?_append_left (List.getElem?_eq_some_iff.1 hy).1
  dsimp only [spawn]
  rw [heq]
  dsimp only
  generalize hx : ({ config := config, keepStates := s.active.isSome } : Guard) = x
  have hnew : GuardsOk { s with pending := some guards.length, guards := guards ++ [x] } := by
    constructor
    · rintro g ⟨⟩
      exact ⟨x, by simp, by subst hx; rfl, by subst hx; rfl⟩
    · intro g hg
      obtain ⟨y, hy⟩ := hguards.active g hg
      exact ⟨y, by rw [hold x g hg, hy.1], hy.2⟩
  have hopen : ∀ g, s.active = some g → ¬ Closed (guards ++ [x]) g :=
    fun g hg => not_closed_of_kept h hg (by rw [hold x g hg, hactive g hg])
  by_cases hc : s.active = none ∧ s.identityUnsupported = false
  · rw [if_pos hc]
    obtain ⟨code, message, hset⟩ :=
      setState_eq { s with pending := some guards.length, guards := guards ++ [x] } .arming
    rw [hset]
    refine ⟨⟨hnew.1, hnew.2⟩, ?_, by simp, ⟨rfl, rfl, rfl, rfl⟩, by simp, .inr ?_, hopen⟩
    · exact ⟨by simp, fun _ => ⟨hc.1, by simp⟩, by simp⟩
    · intro w hw
      unfold waits at hw ⊢
      split <;> simp
  rw [if_neg hc]
  -- the state stays, so it is neither disabled nor armed without a guard
  have hdisabled : s.state ≠ .disabled := fun e => hc (hs.disabled e)
  refine ⟨hnew, ?_, fun _ => hdisabled, ⟨rfl, rfl, rfl, rfl⟩, by simp, .inr ?_, hopen⟩
  · refine ⟨fun e => ⟨fun hn => hc ⟨hn, hs.armed e⟩, hs.armed e⟩, fun e => ⟨hs.arming e, by simp⟩, ?_⟩
    exact fun e => absurd e hdisabled
  intro w hw
  unfold waits at hw ⊢
  split
  · rfl
  rename_i hidle
  rwa [if_neg hidle] at hw

omit h

theorem isSome_of_hasConfig {guard : Option Nat} {config : GuardConfig}
    (h : hasConfig s guard config = true) : guard ≠ none := by
  rintro rfl
  simp [hasConfig] at h

include h

theorem done_applyRest (hs : StateOk s) : Done s (fun _ => False) (applyRest s) := by
  have hnone : ∀ g, s.active = some g → Closed s.guards g → False := fun g hg => (h.active g hg).not_closed
  dsimp only [applyRest]
  split
  · rename_i hp
    have hdisabled : s.state ≠ .disabled := fun e => isSome_of_hasConfig hp (hs.disabled e).2.1
    exact ⟨h, hs, fun _ => hdisabled, ⟨rfl, rfl, rfl, rfl⟩, by simp, .inr (fun _ hw => hw), hnone⟩
  split
  · rename_i ha
    have hactive : s.active ≠ none := isSome_of_hasConfig ha
    have hdisabled : s.state ≠ .disabled := fun e => hactive (hs.disabled e).1
    split
    · obtain ⟨guards, heq, hguards, hkept⟩ := closePending_eq h
      rw [heq]
      refine ⟨hguards, ?_, fun _ => hdisabled, ⟨rfl, rfl, rfl, rfl⟩, by simp, by simp, ?_⟩
      · exact ⟨hs.armed, fun e => absurd (hs.arming e).1 hactive, fun e => absurd e hdisabled⟩
      · exact fun g hg => not_closed_of_kept h hg (hkept g hg)
    · exact ⟨h, hs, fun _ => hdisabled, ⟨rfl, rfl, rfl, rfl⟩, by simp, .inr (fun _ hw => hw), hnone⟩
  · exact done_spawn h hs.shape _

theorem closeBoth_eq :
    ∃ guards, closeActive (closePending s) = { s with pending := none, active := none, guards := guards } := by
  obtain ⟨guards, heq, _⟩ := closePending_eq h
  obtain ⟨guards', heq', _⟩ := closeGuard_eq { s with pending := none, active := none, guards := guards } s.active
  refine ⟨guards', ?_⟩
  unfold closeActive
  rw [heq]
  exact heq'

theorem done_apply_off (hoff : s.settings.killSwitch = false) :
    Done s (fun _ => True) (apply s) := by
  unfold apply
  rw [if_pos hoff]
  obtain ⟨guards, heq⟩ := closeBoth_eq (s := { s with identityUnsupported := false, identityDetail := "" }) ⟨h.1, h.2⟩
  dsimp only
  rw [heq]
  obtain ⟨code, message, hset⟩ :=
    setState_eq { s with identityUnsupported := false, identityDetail := "", pending := none, active := none,
                         guards := guards } .disabled
  rw [hset]
  refine ⟨⟨by simp, by simp⟩, ⟨by simp, by simp, by simp⟩, ?_, ⟨rfl, rfl, rfl, rfl⟩, by simp,
    by simp, fun _ _ _ => trivial⟩
  intro hon
  exact absurd hon (by simp [hoff])

omit h

/-- What `apply` needs: the identity may have just been noted, and the settings may be new. -/
structure Before (s : Switch) : Prop where
  guards : GuardsOk s
  armed : s.state = .armed → s.active ≠ none
  arming : s.state = .arming → s.active = none ∧ s.pending ≠ none
  disabled : s.state = .disabled → s.active = none ∧ s.pending = none
  identity : s.settings.killSwitch = true → s.state = .disabled → s.identityUnsupported = false

theorem done_apply (h : Before s) :
    Done s (fun _ => s.settings.killSwitch = false ∨ s.overridden = true) (apply s) := by
  by_cases hoff : s.settings.killSwitch = false
  · exact (done_apply_off h.guards hoff).after ⟨rfl, rfl, rfl, rfl⟩ (.inr (fun _ hw => hw)) (fun _ _ _ => .inl hoff)
  have hon : s.settings.killSwitch = true := by simpa using hoff
  unfold apply
  rw [if_neg hoff]
  by_cases hover : s.overridden = true
  · rw [if_pos hover]
    obtain ⟨guards, heq⟩ := closeBoth_eq h.guards
    dsimp only
    rw [heq]
    have hok : GuardsOk { s with pending := none, active := none, guards := guards } := ⟨by simp, by simp⟩
    split
    · rename_i hc
      exact (done_failed hok hc.1 rfl ⟨rfl, rfl, rfl, rfl⟩ rfl rfl rfl).after ⟨rfl, rfl, rfl, rfl⟩ (by simp)
        (fun _ _ _ => .inr hover)
    · exact (done_fail hok _ _).after ⟨rfl, rfl, rfl, rfl⟩ (by simp [fail]) (fun _ _ _ => .inr hover)
  rw [if_neg hover]
  by_cases hid : s.identityUnsupported = true ∧ s.state = .armed
  · rw [if_pos hid]
    have hd := done_failIdentity h.guards
    refine ⟨hd.guards, hd.states, hd.on, hd.same, ?_, ?_, fun g hg hcl => (hd.closed g hg hcl).elim⟩
    · intro waiting hmem
      rcases mem_append.1 hmem with hmem | hmem
      · exact hd.loops waiting hmem
      · simp at hmem
    · exact hd.quiet.imp (fun hq => mem_append_left _ hq) id
  · rw [if_neg hid]
    have hs : StateOk s := by
      refine ⟨fun e => ⟨h.armed e, ?_⟩, h.arming, fun e => ⟨(h.disabled e).1, (h.disabled e).2, h.identity hon e⟩⟩
      simpa [e] using hid
    exact (done_applyRest h.guards hs).after ⟨rfl, rfl, rfl, rfl⟩ (.inr (fun _ hw => hw))
      (fun g hg hcl => ((done_applyRest h.guards hs).closed g hg hcl).elim)

/-! ## The guards' events -/

theorem armFailed_spec (s : Switch) (code message : String) :
    (armFailed s code message).2 = [.settle] ∧ (armFailed s code message).1.guards = s.guards := by
  unfold armFailed
  split
  · exact ⟨rfl, rfl⟩
  · exact ⟨rfl, rfl⟩

include h in
theorem done_armFailed (hs : Shape s) (code message : String) :
    Done s (fun _ => False) (armFailed s code message) := by
  unfold armFailed
  split
  · rename_i hactive
    have hactive : s.active ≠ none := by
      rintro e
      simp [e] at hactive
    have hdisabled : s.state ≠ .disabled := fun e => hactive (hs.disabled e).1
    refine ⟨h, ?_, fun _ => hdisabled, ⟨rfl, rfl, rfl, rfl⟩, by simp, by simp, ?_⟩
    · exact ⟨fun e => ⟨hactive, hs.armed e⟩, fun e => absurd (hs.arming e) hactive, fun e => absurd e hdisabled⟩
    · exact fun g hg => (h.active g hg).not_closed
  · exact done_fail h code message

include h in
theorem done_protectionLost (hs : Shape s) (hactive : s.active = none)
    (code message : String) (respawnDue : Bool) :
    Done s (fun _ => False) (protectionLost s code message respawnDue) := by
  have hnone : ∀ {guards : List Guard} (g : Nat), s.active = some g → Closed guards g → False := by
    intro guards g hg
    rw [hactive] at hg
    cases hg
  unfold protectionLost
  split
  · rename_i hoff
    exact (done_apply_off h hoff).after ⟨rfl, rfl, rfl, rfl⟩ (.inr (fun _ hw => hw)) hnone
  split
  · rename_i hpending
    have hpending : s.pending ≠ none := by
      rintro e
      simp [e] at hpending
    split
    · obtain ⟨code, message, hset⟩ := setState_eq s .arming
      rw [hset]
      refine ⟨⟨h.1, h.2⟩, ⟨by simp, fun _ => ⟨hactive, hpending⟩, by simp⟩, by simp, ⟨rfl, rfl, rfl, rfl⟩, by simp,
        by simp, hnone⟩
    · rename_i hid
      have hdisabled : s.state ≠ .disabled := fun e => hid (hs.disabled e).2
      refine ⟨h, ?_, fun _ => hdisabled, ⟨rfl, rfl, rfl, rfl⟩, by simp, by simp, hnone⟩
      exact ⟨fun e => absurd (hs.armed e) hid, fun _ => ⟨hactive, hpending⟩, fun e => absurd e hdisabled⟩
  · split
    · exact done_spawn h hs _
    · exact done_fail h code message

theorem dropGuard_eq (s : Switch) (g : Nat) :
    ∃ guards, dropGuard s g = { s with active := if s.active = some g then none else s.active
                                       pending := if s.pending = some g then none else s.pending
                                       guards := guards } ∧
      ∀ k, g ≠ k → guards[k]? = s.guards[k]? := by
  obtain ⟨guards, heq, _, hkept⟩ := closeGuard_eq
    { s with active := if s.active = some g then none else s.active
             pending := if s.pending = some g then none else s.pending } (some g)
  exact ⟨guards, heq, fun k hk => hkept k (fun e => hk (by simpa using e))⟩

include h in
theorem dropped (hs : StateOk s) (g : Nat) :
    GuardsOk (dropGuard s g) ∧ Shape (dropGuard s g) ∧ Same s (dropGuard s g) ∧
      ∀ k, s.active = some k → k ≠ g → (dropGuard s g).guards[k]? = s.guards[k]? := by
  obtain ⟨guards, heq, hkept⟩ := dropGuard_eq s g
  rw [heq]
  refine ⟨h.kept ?_ ?_, ⟨fun e => (hs.armed e).2, ?_, ?_⟩, ⟨rfl, rfl, rfl, rfl⟩, fun k _ hk => hkept k (Ne.symm hk)⟩
  · intro k hk
    dsimp only at hk
    split at hk
    · cases hk
    · rename_i hne
      exact ⟨hk, hkept k (fun e => hne (by rw [hk, e]))⟩
  · intro k hk
    dsimp only at hk
    split at hk
    · cases hk
    · rename_i hne
      exact ⟨hk, hkept k (fun e => hne (by rw [hk, e]))⟩
  · intro e
    simp [(hs.arming e).1]
  · intro e
    exact ⟨by simp [(hs.disabled e).1], (hs.disabled e).2.2⟩

theorem done_guardFailed (h : Inv s) (g : Nat) (code lost unarmed : String) (respawnDue : Bool) :
    Done s (fun k => k = g) (guardFailed s g code lost unarmed respawnDue) := by
  obtain ⟨hguards, hshape, hsame, hkept⟩ := dropped h.guards h.states g
  obtain ⟨guards, heq, _⟩ := dropGuard_eq s g
  unfold guardFailed
  split
  · rename_i hactive
    have hpending : s.pending ≠ some g := fun e => h.guards.ne e hactive rfl
    refine (done_protectionLost hguards hshape ?_ code lost respawnDue).after hsame (.inr ?_) ?_
    · rw [heq]
      simp [hactive]
    · intro w hw
      rw [heq]
      simpa [waits, hpending] using hw
    · intro k hk _
      rw [hactive, some.injEq] at hk
      exact hk.symm
  rename_i hactive
  have hne : ∀ k, s.active = some k → k ≠ g := fun k hk e => hactive (by rw [hk, e])
  split
  · refine (done_armFailed hguards hshape code unarmed).after hsame (.inl ?_) ?_
    · rw [(armFailed_spec _ _ _).1]
      simp
    · intro k hk hcl
      rw [(armFailed_spec _ _ _).2] at hcl
      exact absurd hcl (not_closed_of_kept h.guards hk (hkept k hk (hne k hk)))
  · rename_i hpending
    rw [if_neg hactive, if_neg hpending] at heq
    rw [heq] at hguards ⊢
    exact (h.done_guards hguards).mono (fun _ hf => hf.elim)

theorem isClosing_of_waiting (h : Waiting s.guards g) : isClosing s g = false := by
  obtain ⟨x, hx, hopen, _⟩ := h
  simp [isClosing, hx, hopen]

theorem processIs_blocking {process : Process} (h : Blocking s.guards g)
    (hp : processIs s g process = true) : process = .started := by
  obtain ⟨x, hx, _, _, hstarted⟩ := h
  rw [processIs, hx, any_some, decide_eq_true_eq, hstarted] at hp
  exact hp.symm

include h in
theorem readied (hpending : s.pending = some g)
    (hstarted : processIs s g .started = true) :
    ∃ guards, closeGuard { setGuard s g (fun guard => { guard with ready := true }) with
          active := some g, pending := none } (setGuard s g (fun guard => { guard with ready := true })).active =
        { s with active := some g, pending := none, guards := guards } ∧
      GuardsOk { s with active := some g, pending := none, guards := guards } := by
  obtain ⟨x, hx, hopen, _⟩ := h.pending g hpending
  have hprocess : x.process = .started := by simpa [processIs, hx] using hstarted
  obtain ⟨guards, heq, _, hkept⟩ := closeGuard_eq
    { setGuard s g (fun guard => { guard with ready := true }) with active := some g, pending := none }
    (setGuard s g (fun guard => { guard with ready := true })).active
  refine ⟨guards, heq, by simp, ?_⟩
  rintro k ⟨⟩
  refine ⟨{ x with ready := true }, ?_, hopen, rfl, hprocess⟩
  rw [hkept g (fun e => h.ne hpending e rfl)]
  show (setGuard s g _).guards[g]? = _
  rw [getElem?_setGuard, if_pos rfl, hx]
  rfl

theorem failIdentity_active (s : Switch) : (failIdentity s).1.active = s.active := by
  dsimp only [failIdentity]
  split
  · rfl
  · rfl

theorem done_onReady (h : Inv s) (hstarted : processIs s g .started = true) :
    Done s (fun k => k ≠ g ∧ (onReady s g).1.active = some g) (onReady s g) := by
  dsimp only [onReady]
  split
  · exact h.done.mono (fun _ hf => hf.elim)
  rename_i hc
  simp only [not_or, not_not] at hc
  obtain ⟨guards, heq, hguards⟩ := readied h.guards hc.1 hstarted
  have hother : ∀ k, s.active = some k → k ≠ g := fun k hk e => h.guards.ne hc.1 hk e.symm
  rw [heq]
  split
  · have hd := done_failIdentity hguards
    refine hd.after ⟨rfl, rfl, rfl, rfl⟩ (.inl ?_) (fun k hk _ => ⟨hother k hk, failIdentity_active _⟩)
    dsimp only [failIdentity]
    split <;> simp
  · rename_i hid
    obtain ⟨code, message, hset⟩ :=
      setState_eq { s with active := some g, pending := none, guards := guards } .armed
    rw [hset]
    refine ⟨⟨hguards.1, hguards.2⟩, ⟨fun _ => ⟨by simp, by simpa using hid⟩, by simp, by simp⟩, by simp,
      ⟨rfl, rfl, rfl, rfl⟩, by simp, by simp, fun k hk _ => ⟨hother k hk, rfl⟩⟩

theorem done_giveUp (h : Inv s) (hpending : s.pending = some g) (code message : String) :
    Done s (fun _ => False) (armFailed (closeGuard { s with pending := none } (some g)) code message) := by
  obtain ⟨guards, heq, hguards, hkept⟩ := closePending_eq h.guards
  unfold closePending at heq
  rw [hpending] at heq
  rw [heq]
  have hshape : Shape { s with pending := none, guards := guards } :=
    ⟨h.states.shape.armed, h.states.shape.arming, h.states.shape.disabled⟩
  refine (done_armFailed hguards hshape code message).after ⟨rfl, rfl, rfl, rfl⟩ (.inl ?_) ?_
  · rw [(armFailed_spec _ _ _).1]
    simp
  · intro k hk hcl
    rw [(armFailed_spec _ _ _).2] at hcl
    exact not_closed_of_kept h.guards hk (hkept k hk) hcl

theorem done_onReadyTimeout (h : Inv s) (g : Nat) : Done s (fun _ => False) (onReadyTimeout s g) := by
  unfold onReadyTimeout
  split
  · exact h.done
  rename_i hc
  simp only [not_or, not_not] at hc
  exact done_giveUp h hc.1 _ _

theorem done_onStartFailed (h : Inv s) (hstarting : processIs s g .starting = true)
    (program errorString : String) : Done s (fun _ => False) (onStartFailed s g program errorString) := by
  dsimp only [onStartFailed]
  split
  · rename_i hc
    exact done_giveUp h hc.2 _ _
  rename_i hc
  have hpending : s.pending ≠ some g :=
    fun e => hc ⟨isClosing_of_waiting (h.guards.pending g e), e⟩
  have hactive : s.active ≠ some g :=
    fun e => absurd (processIs_blocking (h.guards.active g e) hstarting) (by decide)
  obtain ⟨guards, heq, _, hkept⟩ := closeGuard_eq s (some g)
  rw [heq]
  refine h.done_guards (h.guards.kept ?_ ?_)
  · exact fun k hk => ⟨hk, hkept k (fun e => hpending (by rw [e]; exact hk))⟩
  · exact fun k hk => ⟨hk, hkept k (fun e => hactive (by rw [e]; exact hk))⟩

/-- What may close the active guard `k` in the step from `s` to `s'`: another guard that
has become READY, its own failure, or a switch that is off or overridden. -/
def ClosedBy (s s' : Switch) (k : Nat) : Event → Prop
  | .line g line _ =>
    (verb line = "READY" ∧ k ≠ g ∧ s'.active = some g) ∨ ((verb line = "ERROR" ∨ verb line = "FAIL") ∧ k = g)
  | .finished g _ _ _ => k = g
  | .apply settings overridden => settings.killSwitch = false ∨ overridden = true
  | .noteIdentityUnsupported _ | .retry _ => s.settings.killSwitch = false ∨ s.overridden = true
  | _ => False

theorem done_handleLine (h : Inv s) (hstarted : processIs s g .started = true) (line : String)
    (respawnDue : Bool) :
    Done s (fun k => ClosedBy s (handleLine s g line respawnDue).1 k (.line g line respawnDue))
      (handleLine s g line respawnDue) := by
  have hdone := h.done
  unfold handleLine
  split
  · exact hdone.mono (fun _ hf => hf.elim)
  split
  · rename_i hready
    exact (done_onReady h hstarted).mono (fun _ hk => .inl ⟨hready, hk⟩)
  split
  · exact hdone.mono (fun _ hf => hf.elim)
  rename_i herror
  split
  · exact hdone.mono (fun _ hf => hf.elim)
  refine (done_guardFailed h g _ _ _ respawnDue).mono (fun _ hk => .inr ⟨?_, hk⟩)
  rwa [not_and_or, not_not, not_not] at herror

theorem done_onFinished (h : Inv s) (g : Nat) (exitCode : Int) (crashed respawnDue : Bool) :
    Done s (fun k => k = g) (onFinished s g exitCode crashed respawnDue) := by
  dsimp only [onFinished]
  split
  · exact h.done.mono (fun _ hf => hf.elim)
  · exact done_guardFailed h g _ _ _ respawnDue

/-! ## The handlers -/

theorem Inv.before (h : Inv s) : Before s where
  guards := h.guards
  armed e := (h.states.armed e).1
  arming := h.states.arming
  disabled e := ⟨(h.states.disabled e).1, (h.states.disabled e).2.1⟩
  identity _ e := (h.states.disabled e).2.2

theorem Inv.done_process (h : Inv s) (g : Nat) (f : Guard → Guard)
    (hf : ∀ x, (f x).closing = x.closing ∧ (f x).ready = x.ready ∧ (x.process = .started → (f x).process = .started)) :
    Done s (fun _ => False) (setGuard s g f, []) := by
  refine h.done_guards ⟨?_, ?_⟩
  · intro k hk
    obtain ⟨x, hx, hopen, hready⟩ := h.guards.pending k hk
    by_cases hgk : g = k
    · exact ⟨f x, by simp [hgk, hx], (hf x).1.trans hopen, (hf x).2.1.trans hready⟩
    · exact ⟨x, by simp [hgk, hx], hopen, hready⟩
  · intro k hk
    obtain ⟨x, hx, hopen, hready, hstarted⟩ := h.guards.active k hk
    by_cases hgk : g = k
    · exact ⟨f x, by simp [hgk, hx], (hf x).1.trans hopen, (hf x).2.1.trans hready,
        (hf x).2.2 hstarted⟩
    · exact ⟨x, by simp [hgk, hx], hopen, hready, hstarted⟩

theorem Inv.done_start (h : Inv s) (g : Nat) :
    Done s (fun _ => False) (setGuard s g (fun guard =>
      if guard.process = .notStarted then { guard with process := .starting } else guard), []) := by
  refine h.done_process g _ (fun x => ⟨?_, ?_, ?_⟩)
  · split <;> rfl
  · split <;> rfl
  · intro hx
    simp [hx]

/-- An event that is neither about a waiter nor the rest of a call. -/
def Event.ofSwitch : Event → Bool
  | .whenSettled _ | .whenIdle | .resume _ => false
  | _ => true

theorem Inv.done_handler (h : Inv s) (e : Event) (he : e.ofSwitch = true) :
    Done s (fun k => ClosedBy s (handler s e).1 k e) (handler s e) := by
  cases e with
  | apply settings overridden =>
    have hb : Before { s with settings := settings, overridden := overridden } :=
      ⟨⟨h.guards.1, h.guards.2⟩, h.before.armed, h.before.arming, h.before.disabled,
        fun _ e => (h.states.disabled e).2.2⟩
    exact (done_apply hb).after ⟨rfl, rfl, rfl, rfl⟩ (.inr (fun _ hw => hw)) (done_apply hb).closed
  | reconfigure settings =>
    exact ⟨⟨h.guards.1, h.guards.2⟩, ⟨h.states.armed, h.states.arming, h.states.disabled⟩, h.on, ⟨rfl, rfl, rfl, rfl⟩,
      by simp [handler], .inr (fun _ hw => hw), fun g hg => (h.guards.active g hg).not_closed⟩
  | noteIdentityUnsupported detail =>
    have hb : Before { s with identityDetail := detail, identityUnsupported := true } :=
      ⟨⟨h.guards.1, h.guards.2⟩, h.before.armed, h.before.arming, h.before.disabled, fun hon e => absurd e (h.on hon)⟩
    exact (done_apply hb).after ⟨rfl, rfl, rfl, rfl⟩ (.inr (fun _ hw => hw)) (done_apply hb).closed
  | whenSettled bound => exact absurd he (by simp [Event.ofSwitch])
  | whenIdle => exact absurd he (by simp [Event.ofSwitch])
  | started g =>
    refine h.done_process g _ (fun x => ⟨?_, ?_, ?_⟩)
    · split <;> rfl
    · split <;> rfl
    · intro hx
      simp [hx]
  | line g line respawnDue =>
    dsimp only [handler]
    split
    · rename_i hstarted
      exact done_handleLine h hstarted line respawnDue
    · exact h.done.mono (fun _ hf => hf.elim)
  | finished g exitCode crashed respawnDue =>
    dsimp only [handler]
    split
    · exact done_onFinished h g exitCode crashed respawnDue
    · exact h.done.mono (fun _ hf => hf.elim)
  | startFailed g program errorString =>
    dsimp only [handler]
    split
    · rename_i hstarting
      exact done_onStartFailed h hstarting program errorString
    · exact h.done
  | timeout g => exact done_onReadyTimeout h g
  | retry prepareExit =>
    dsimp only [handler]
    split
    · exact h.done.mono (fun _ hf => hf.elim)
    · exact done_apply h.before
  | resume alive => exact absurd he (by simp [Event.ofSwitch])

/-! ## Runs -/

/-- The waiters that the loops of `settle` still have to look at. -/
def inLoops : List Frame → List Nat
  | [] => []
  | .settleLoop waiting :: stack => waiting.map (·.id) ++ inLoops stack
  | _ :: stack => inLoops stack

/-- The numbers of all waiters, wherever they are. -/
def allWaiters (m : Machine) : List Nat :=
  m.switch.called.map (·.1) ++ (m.switch.dropped ++ (m.switch.waiters.map (·.id) ++ inLoops m.stack))

structure Running (m : Machine) : Prop where
  inv : Inv m.switch
  quiet : .settle ∈ m.stack ∨ ∀ w ∈ m.switch.waiters, waits m.switch w = true
  ids : ∀ i, (allWaiters m).count i = if i < m.switch.nextWaiter then 1 else 0

theorem inLoops_append {frames : List Frame} (h : ∀ waiting, settleLoop waiting ∉ frames) :
    inLoops (frames ++ stack) = inLoops stack := by
  induction frames with
  | nil => rfl
  | cons f frames ih =>
    have ih := ih (fun waiting hw => h waiting (by simp [hw]))
    cases f with
    | settleLoop waiting => exact absurd (.head _) (h waiting)
    | settle => exact ih
    | applyRest => exact ih
    | start g => exact ih

/-- A call that is `Done` keeps the run going, on top of what is left of the stack. -/
theorem Running.call (h : Running m)
    (hd : Done m.switch P r) (hsettle : .settle ∈ m.stack → .settle ∈ stack)
    (hloops : inLoops stack = inLoops m.stack) : Running { switch := r.1, stack := r.2 ++ stack } where
  inv := ⟨hd.guards, hd.states, hd.on⟩
  quiet := by
    rcases hd.quiet with hq | hq
    · exact .inl (mem_append_left _ hq)
    rcases h.quiet with hold | hold
    · exact .inl (mem_append_right _ (hsettle hold))
    refine .inr (fun w hw => ?_)
    rw [hd.same.waiters] at hw
    exact hq w (hold w hw)
  ids i := by
    have hids := h.ids i
    unfold allWaiters at hids ⊢
    rw [inLoops_append hd.loops, hloops, hd.same.called, hd.same.dropped, hd.same.waiters, hd.same.nextWaiter]
    exact hids

theorem Inv.called (h : Inv s) (called : List (Nat × Bool)) (dropped : List Nat) (waiters : List Waiter)
    (n : Nat) : Inv { s with called := called, dropped := dropped, waiters := waiters, nextWaiter := n } :=
  ⟨⟨h.guards.1, h.guards.2⟩, ⟨h.states.armed, h.states.arming, h.states.disabled⟩, h.on⟩

theorem one_more (i n : Nat) :
    (if i < n + 1 then 1 else 0) = (if i < n then 1 else 0) + (if n = i then 1 else 0) := by
  split_ifs <;> omega

theorem Running.enqueue (h : Running m) (bound idle : Bool) :
    Running { m with switch := enqueue m.switch bound idle } := by
  dsimp only [Sys.enqueue]
  split
  · rename_i hwaits
    refine ⟨h.inv.called _ _ _ _, h.quiet.imp id ?_, ?_⟩
    · intro hq w hw
      rcases mem_append.1 hw with hw | hw
      · exact hq w hw
      · rw [mem_singleton.1 hw]
        exact hwaits
    · intro i
      have hids := h.ids i
      simp only [allWaiters, count_append, map_append, map_cons, map_nil, count_singleton,
        beq_iff_eq, one_more] at hids ⊢
      omega
  · dsimp only [callBack]
    refine ⟨h.inv.called _ _ _ _, h.quiet, ?_⟩
    intro i
    have hids := h.ids i
    simp only [allWaiters, count_append, map_append, map_cons, map_nil,
      count_singleton, beq_iff_eq, one_more] at hids ⊢
    omega

/-- The loop of `settle` starts: the queue is its own now. -/
theorem Running.settle (h : Running m) (hm : m.stack = .settle :: stack) :
    Running { switch := { m.switch with waiters := [] }, stack := .settleLoop m.switch.waiters :: stack } := by
  refine ⟨h.inv.called _ _ _ _, .inr (by simp), ?_⟩
  intro i
  have hids := h.ids i
  simp only [allWaiters, hm, inLoops, map_nil, nil_append] at hids ⊢
  exact hids

/-- One round of the loop: the waiter is queued again, dropped or called. -/
theorem Running.settleOne (h : Running m) {w : Waiter} {waiting : List Waiter}
    (hm : m.stack = .settleLoop (w :: waiting) :: stack) (alive : Bool) :
    Running { switch := settleOne m.switch w alive, stack := .settleLoop waiting :: stack } := by
  have hquiet : Frame.settle ∈ Frame.settleLoop waiting :: stack ∨ ∀ w ∈ m.switch.waiters, waits m.switch w = true := by
    simpa [hm] using h.quiet
  have hids := h.ids
  simp only [allWaiters, hm, inLoops, map_cons, cons_append, count_append, count_cons,
    beq_iff_eq] at hids
  unfold Sys.settleOne
  split
  · rename_i hwaits
    refine ⟨h.inv.called _ _ _ _, hquiet.imp id ?_, ?_⟩
    · intro hq x hx
      rcases mem_append.1 hx with hx | hx
      · exact hq x hx
      · rw [mem_singleton.1 hx]
        exact hwaits
    · intro i
      have := hids i
      simp only [allWaiters, inLoops, count_append, map_append, map_cons, map_nil,
        count_singleton, beq_iff_eq]
      omega
  split
  · refine ⟨h.inv.called _ _ _ _, hquiet, ?_⟩
    intro i
    have := hids i
    simp only [allWaiters, inLoops, count_append, count_singleton, beq_iff_eq]
    omega
  · dsimp only [callBack]
    refine ⟨h.inv.called _ _ _ _, hquiet, ?_⟩
    intro i
    have := hids i
    simp only [allWaiters, inLoops, count_append, map_append, map_cons, map_nil,
      count_singleton, beq_iff_eq]
    omega

theorem Running.resume (h : Running m) {frame : Frame}
    (hm : m.stack = frame :: stack) (alive : Bool) :
    Running { switch := (runFrame m.switch alive frame).1, stack := (runFrame m.switch alive frame).2 ++ stack } := by
  have hmem : frame ≠ .settle → Frame.settle ∈ m.stack → Frame.settle ∈ stack := by
    intro hne hin
    rw [hm] at hin
    exact (mem_cons.1 hin).resolve_left (Ne.symm hne)
  match frame with
  | .settle => exact h.settle hm
  | .settleLoop [] =>
    exact h.call h.inv.done (hmem (by simp)) (by rw [hm]; rfl)
  | .settleLoop (w :: waiting) => exact h.settleOne hm alive
  | .applyRest =>
    exact h.call (done_applyRest h.inv.guards h.inv.states) (hmem (by simp)) (by rw [hm]; rfl)
  | .start g =>
    exact h.call (h.inv.done_start g) (hmem (by simp)) (by rw [hm]; rfl)

theorem step_handler (m : Machine) {e : Event} (he : e.ofSwitch = true) :
    step m e = { switch := (handler m.switch e).1, stack := (handler m.switch e).2 ++ m.stack } := by
  cases e with
  | whenSettled bound => exact absurd he (by simp [Event.ofSwitch])
  | whenIdle => exact absurd he (by simp [Event.ofSwitch])
  | resume alive => exact absurd he (by simp [Event.ofSwitch])
  | _ => rfl

theorem Running.step (h : Running m) (e : Event) : Running (step m e) := by
  by_cases he : e.ofSwitch = true
  · rw [step_handler m he]
    exact h.call (h.inv.done_handler e he) id rfl
  cases e with
  | whenSettled bound => exact h.enqueue bound false
  | whenIdle => exact h.enqueue true true
  | resume alive =>
    dsimp only [Sys.step]
    split
    · exact h
    · rename_i frame stack hm
      exact h.resume hm alive
  | _ => exact absurd rfl he

/-! ## The calls return -/

/-- `n` times `resume`, with the contexts that are alive then. -/
def resumes (alive : Nat → Bool) (m : Machine) : Nat → Machine
  | 0 => m
  | n + 1 => step (resumes alive m n) (.resume (alive n))

theorem resumes_add (alive : Nat → Bool) (m : Machine) (n k : Nat) :
    resumes alive m (n + k) = resumes (fun i => alive (n + i)) (resumes alive m n) k := by
  induction k with
  | zero => rfl
  | succ k ih =>
    show step (resumes alive m (n + k)) (.resume (alive (n + k))) = step _ (.resume (alive (n + k)))
    rw [ih]

/-- A frame that calls nobody back comes to its end. -/
def Returns (frame : Frame) : Prop :=
  ∀ alive s stack, ∃ n s', resumes alive { switch := s, stack := frame :: stack } n = { switch := s', stack := stack }

theorem returns_settleLoop (waiting : List Waiter) : Returns (.settleLoop waiting) := by
  induction waiting with
  | nil => exact fun alive s stack => ⟨1, s, rfl⟩
  | cons w waiting ih =>
    intro alive s stack
    obtain ⟨n, s', hn⟩ := ih (fun i => alive (1 + i)) (settleOne s w (alive 0)) stack
    refine ⟨1 + n, s', ?_⟩
    rw [resumes_add]
    exact hn

theorem returns_settle : Returns .settle := by
  intro alive s stack
  obtain ⟨n, s', hn⟩ := returns_settleLoop s.waiters (fun i => alive (1 + i)) { s with waiters := [] } stack
  refine ⟨1 + n, s', ?_⟩
  rw [resumes_add]
  exact hn

theorem returns_start (g : Nat) : Returns (.start g) := fun _ _ _ => ⟨1, _, rfl⟩

theorem returns_applyRest : Returns .applyRest := by
  intro alive s stack
  have hone : resumes alive { switch := s, stack := .applyRest :: stack } 1 =
      { switch := (applyRest s).1, stack := (applyRest s).2 ++ stack } := rfl
  have hframes : (applyRest s).2 = [] ∨ ∃ frame, (applyRest s).2 = [frame] ∧ Returns frame := by
    dsimp only [applyRest]
    split
    · exact .inl rfl
    split
    · split
      · exact .inr ⟨_, rfl, returns_settle⟩
      · exact .inl rfl
    · exact .inr ⟨_, rfl, returns_start _⟩
  rcases hframes with hframes | ⟨frame, hframes, hreturns⟩
  · refine ⟨1, (applyRest s).1, ?_⟩
    rw [hone, hframes]
    rfl
  obtain ⟨n, s', hn⟩ := hreturns (fun i => alive (1 + i)) (applyRest s).1 stack
  refine ⟨1 + n, s', ?_⟩
  rw [resumes_add, hone, hframes]
  exact hn

theorem frame_returns (frame : Frame) : Returns frame := by
  cases frame with
  | settle => exact returns_settle
  | settleLoop waiting => exact returns_settleLoop waiting
  | applyRest => exact returns_applyRest
  | start g => exact returns_start g

theorem stack_returns (alive : Nat → Bool) (m : Machine) : ∃ n, (resumes alive m n).stack = [] := by
  obtain ⟨s, stack⟩ := m
  induction stack generalizing alive s with
  | nil => exact ⟨0, rfl⟩
  | cons frame stack ih =>
    obtain ⟨n, s', hn⟩ := frame_returns frame alive s stack
    obtain ⟨k, hk⟩ := ih (fun i => alive (n + i)) s'
    refine ⟨n + k, ?_⟩
    rw [resumes_add, hn]
    exact hk

/-! ## The promise -/

/-- What the kill switch promises of a state it is in, and of the next event. -/
structure Safe (m : Machine) : Prop where
  /-- A start is allowed behind a guard that reported READY and was not closed. -/
  allowed : m.switch.settings.killSwitch = true → allowsStart m.switch = true →
    ∃ g, m.switch.active = some g ∧ Blocking m.switch.guards g
  arming : m.switch.state = .arming → m.switch.active = none ∧
    ∃ g, m.switch.pending = some g ∧ ¬ Closed m.switch.guards g
  closed : ∀ e g, m.switch.active = some g → Closed (step m e).switch.guards g →
    ClosedBy m.switch (step m e).switch g e
  once : (m.switch.called.map (·.1)).Nodup
  /-- A waiter that has nothing to wait for any more is one that a `settle` still comes
  for; once the calls have returned, there is none. -/
  quiet : ∀ w ∈ m.switch.waiters, waits m.switch w = false → .settle ∈ m.stack
  returns : ∀ alive, ∃ n, (resumes alive m n).stack = []

theorem Waiting.not_closed (h : Waiting guards g) : ¬ Closed guards g := by
  rintro ⟨x, hx, hclosing⟩
  obtain ⟨y, hy, hopen, _⟩ := h
  rw [hx, some.injEq] at hy
  subst hy
  rw [hclosing] at hopen
  cases hopen

theorem enqueue_closes (h : Inv s) (bound idle : Bool) (hg : s.active = some g) :
    ¬ Closed (enqueue s bound idle).guards g := by
  have hopen := (h.guards.active g hg).not_closed
  dsimp only [enqueue]
  split
  · exact hopen
  · exact hopen

theorem settleOne_closes (h : Inv s) (w : Waiter) (alive : Bool) (hg : s.active = some g) :
    ¬ Closed (settleOne s w alive).guards g := by
  have hopen := (h.guards.active g hg).not_closed
  unfold settleOne
  split
  · exact hopen
  split
  · exact hopen
  · exact hopen

theorem runFrame_closes (h : Inv s) (alive : Bool) (frame : Frame) (hg : s.active = some g) :
    ¬ Closed (runFrame s alive frame).1.guards g := by
  have hopen := (h.guards.active g hg).not_closed
  match frame with
  | .settle => exact hopen
  | .settleLoop [] => exact hopen
  | .settleLoop (w :: waiting) => exact settleOne_closes h w alive hg
  | .applyRest => exact (done_applyRest h.guards h.states).closed g hg
  | .start k => exact (h.done_start k).closed g hg

theorem Running.safe (h : Running m) : Safe m where
  allowed hon hallows := by
    have harmed : m.switch.state = .armed := by
      simpa [allowsStart, h.inv.on hon] using hallows
    obtain ⟨g, hg⟩ := ne_none_iff_exists'.1 (h.inv.states.armed harmed).1
    exact ⟨g, hg, h.inv.guards.active g hg⟩
  arming harming := by
    obtain ⟨hactive, hpending⟩ := h.inv.states.arming harming
    obtain ⟨g, hg⟩ := ne_none_iff_exists'.1 hpending
    exact ⟨hactive, g, hg, (h.inv.guards.pending g hg).not_closed⟩
  closed e g hg hclosed := by
    have hopen := (h.inv.guards.active g hg).not_closed
    by_cases he : e.ofSwitch = true
    · rw [step_handler m he] at hclosed ⊢
      exact (h.inv.done_handler e he).closed g hg hclosed
    cases e with
    | whenSettled bound => exact absurd hclosed (enqueue_closes h.inv bound false hg)
    | whenIdle => exact absurd hclosed (enqueue_closes h.inv true true hg)
    | resume alive =>
      dsimp only [Sys.step] at hclosed
      split at hclosed
      · exact hopen hclosed
      · exact absurd hclosed (runFrame_closes h.inv alive _ hg)
    | _ => exact absurd rfl he
  once := by
    rw [nodup_iff_count_le_one]
    intro i
    have hids := h.ids i
    rw [allWaiters, count_append] at hids
    split at hids <;> omega
  quiet w hw hstale := by
    rcases h.quiet with hq | hq
    · exact hq
    · rw [hq w hw] at hstale
      cases hstale
  returns alive := stack_returns alive m

/-- The switch after the first `apply` and then `events`. -/
def run (host : Host) (settings : Settings) (overridden : Bool) (events : List Event) : Machine :=
  events.foldl step (step { switch := { host := host } } (.apply settings overridden))

theorem running_start (host : Host) : Running { switch := { host := host } } where
  inv := ⟨⟨by simp, by simp⟩, ⟨by simp, by simp, by simp⟩, by simp⟩
  quiet := .inr (by simp)
  ids i := by simp [allWaiters, inLoops]

/-- **The kill switch holds what it promises**, in every state that calls of it and events
of its guards reach, in any order and from inside of its callbacks. -/
theorem run_kept_safe (host : Host) (settings : Settings) (overridden : Bool) (events : List Event) :
    Safe (run host settings overridden events) := by
  have hrun : Running (run host settings overridden events) :=
    foldl_keeps step Running (fun m e h => h.step e) events _ ((running_start host).step _)
  exact hrun.safe

/-- A guard is started, reports READY, and a profile may start. -/
example : (run { platform := .linux, nativePath := id, samePath := fun a b => a = b } { killSwitch := true } false
      [.whenSettled true, .resume true, .started 0, .line 0 "READY" false, .resume true, .resume true]).switch.called =
    [(0, true)] := by
  decide +kernel

end Waterdisco.Sys
