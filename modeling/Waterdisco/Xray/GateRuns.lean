import Mathlib.Tactic.ByContra
import Waterdisco.Xray.Gate

/-!
# The gate over whole runs

For every run of any number of calls (`run_safe`):

    a Recycle that has taken its stale set has in it every connection bound to
    the generation it retired that is tracked then or later
    the sweeper never took an instance that a handler uses
    every started instance is the current one or was taken by exactly one call,
    and is closed at most once
    after Close nothing is tracked

Two Recycles may overlap: between the sections of one, another can retire the
next generation and take its stale set first (`overlap_stale_missed`).
-/

namespace Waterdisco.Xray

open List Call Handler

/-- Generation `r` is retired, and what is tracked of it is in `S`. -/
structure Cut (r : Nat) (S : List Conn) (g : Gate) : Prop where
  retired : r < g.generation
  pos : 0 < r
  stale : ∀ e ∈ tracked g, e.2 = r → e.1 ∈ S

/-- What every step of the gate keeps. -/
structure Inv (w : World) : Prop where
  generation : 0 < w.gate.generation
  active : w.gate.active = w.handlers.countP Handler.isCounted
  retired : ∀ r, w.calls.countP (fun c => c.retired = some r) = if 0 < r ∧ r < w.gate.generation then 1 else 0
  stale : ∀ c ∈ w.calls, ∀ r S, c.stale = some (r, S) → Cut r S w.gate
  owner : ∀ i, isOne w.gate.instance? i + w.calls.countP (fun c => c.took = some i) =
    if i < w.gate.started then 1 else 0
  closes : ∀ i, w.gate.closes.count i = w.calls.countP (fun c => c.shut = some i)
  swept : ∀ c ∈ w.calls, ∀ i, c.swept = some i → ∀ h ∈ w.handlers, h.instance? ≠ some i
  cleared : ∀ c ∈ w.calls, c.hasCleared = true → w.gate.conns = none
  closing : w.gate.closed = true → w.gate.conns = none ∨ ∃ c ∈ w.calls, c.isClosing = true

theorem inv_start (idle now : Int) : Inv { gate := { idle := idle, lastUse := now } } :=
  { generation := by show 0 < 1; omega
    active := rfl
    retired := by
      intro r
      show 0 = if 0 < r ∧ r < 1 then 1 else 0
      rw [if_neg (by omega)]
    stale := by simp
    owner := fun _ => rfl
    closes := fun _ => rfl
    swept := by simp
    cleared := by simp
    closing := by simp }

/-! ## Retired generations -/

variable {r : Nat} {c : Call} {w : World}

theorem HandleStep.cut {g g' : Gate} {h h' : Handler} (hs : HandleStep g g' h h') {S : List Conn}
    (hc : Cut r S g) : Cut r S g' := by
  refine ⟨hs.generation ▸ hc.retired, hc.pos, ?_⟩
  intro e he hr
  have h1 := hc.retired
  have h2 := hc.pos
  rcases hs.tracks e he with ht | ht | ht
  · exact hc.stale e ht hr
  · omega
  · omega

theorem CallStep.cut {g g' : Gate} {c' : Call} (hs : CallStep g g' c c') {S : List Conn}
    (hc : Cut r S g) : Cut r S g' := by
  refine ⟨?_, hc.pos, fun e he hr => hc.stale e (hs.tracks e he) hr⟩
  have h1 := hc.retired
  rcases hs.retired with ⟨h, -⟩ | ⟨h, -⟩ <;> omega

theorem cut_step (r : Nat) (S : List Conn) (w : World) (e : Event) (hc : Cut r S w.gate) : Cut r S (step w e).gate := by
  cases e with
  | accept => exact hc
  | Recycle => exact hc
  | Close => exact hc
  | tick => exact hc
  | handle k input =>
    simp only [step]
    split
    · exact hc
    · rename_i h hk
      exact (handle_spec w.gate k input h).cut hc
  | proceed k now =>
    simp only [step]
    split
    · exact hc
    · rename_i c hk
      exact (proceed_spec w.gate now c).cut hc

theorem conns_none_step (w : World) (e : Event) (hc : w.gate.conns = none) : (step w e).gate.conns = none := by
  cases e with
  | accept => exact hc
  | Recycle => exact hc
  | Close => exact hc
  | tick => exact hc
  | handle k input =>
    simp only [step]
    split
    · exact hc
    · rename_i h hk
      exact (handle_spec w.gate k input h).conns hc
  | proceed k now =>
    simp only [step]
    split
    · exact hc
    · rename_i c hk
      exact (proceed_spec w.gate now c).conns hc

/-! ## The invariant -/

theorem Inv.mem_retired (hw : Inv w) (hc : c ∈ w.calls) (hr : c.retired = some r) :
    0 < r ∧ r < w.gate.generation := by
  have hpos : 0 < w.calls.countP (fun c => c.retired = some r) := by
    rw [countP_pos_iff]
    exact ⟨c, hc, by simp [hr]⟩
  rw [hw.retired r] at hpos
  by_contra hn
  rw [if_neg hn] at hpos
  omega

theorem Inv.swept_ne_instance (hw : Inv w) (hc : c ∈ w.calls) {i : Nat}
    (hi : c.swept = some i) : w.gate.instance? ≠ some i ∧ i < w.gate.started := by
  have htook : c.took = some i := by
    cases c with
    | recycle r => simp [Call.swept] at hi
    | close c => simp [Call.swept] at hi
    | sweep s => cases s <;> simp_all [Call.swept, Call.took]
  have hpos : 0 < w.calls.countP (fun c => c.took = some i) := by
    rw [countP_pos_iff]
    exact ⟨c, hc, by simp [htook]⟩
  have howner := hw.owner i
  unfold isOne at howner
  constructor
  · intro h
    rw [if_pos h] at howner
    split at howner <;> omega
  · by_contra hn
    rw [if_neg hn] at howner
    omega

theorem inv_handle (w : World) (k : Nat) (input : Input) (h : Handler) (hk : w.handlers[k]? = some h) (hw : Inv w) :
    Inv { w with gate := (handle w.gate k input h).1, handlers := w.handlers.set k (handle w.gate k input h).2 } := by
  have hs := handle_spec w.gate k input h
  generalize (handle w.gate k input h).1 = g' at hs ⊢
  generalize (handle w.gate k input h).2 = h' at hs ⊢
  refine ⟨?_, ?_, ?_, ?_, ?_, ?_, ?_, ?_, ?_⟩
  · show 0 < g'.generation
    rw [hs.generation]
    exact hw.generation
  · show g'.active = ((w.handlers.set k h').countP isCounted : Nat)
    have hcount := countP_set_of_getElem? isCounted w.handlers k h h' hk
    have hactive := hs.active
    rw [hw.active] at hactive
    split at hactive <;> split at hactive <;> simp_all <;> omega
  · intro r
    rw [hs.generation]
    exact hw.retired r
  · intro c hc r S hS
    exact hs.cut (hw.stale c hc r S hS)
  · intro i
    have howner := hw.owner i
    show isOne g'.instance? i + w.calls.countP (fun c => c.took = some i) = if i < g'.started then 1 else 0
    rcases hs.owner with ⟨hi, hst⟩ | ⟨hi, hi', hst⟩
    · rw [hi, hst]
      exact howner
    -- a new instance: it has the next number, so nobody has taken it yet
    rw [hi, isOne_none] at howner
    rw [hi', hst]
    unfold isOne
    by_cases hlt : i < w.gate.started
    · rw [if_pos hlt] at howner
      rw [if_neg (by simp; omega), if_pos (by omega)]
      exact howner
    rw [if_neg hlt] at howner
    by_cases heq : w.gate.started = i
    · rw [if_pos (by rw [heq]), if_pos (by omega)]
      omega
    · rw [if_neg (by simpa using heq), if_neg (by omega)]
      exact howner
  · intro i
    rw [hs.closes]
    exact hw.closes i
  · intro c hc i hi
    obtain ⟨hne, hlt⟩ := hw.swept_ne_instance hc hi
    refine forall_mem_set (hw.swept c hc i hi) ?_
    intro hi'
    rcases hs.handed i hi' with hold | hnew
    · exact hw.swept c hc i hi h (mem_of_getElem? hk) hold
    rcases hs.owner with ⟨heq, -⟩ | ⟨-, heq, -⟩
    · exact hne (heq ▸ hnew)
    rw [heq] at hnew
    simp only [Option.some.injEq] at hnew
    omega
  · intro c hc hcl
    exact hs.conns (hw.cleared c hc hcl)
  · intro hcl
    rw [hs.closed] at hcl
    rcases hw.closing hcl with hn | hex
    · exact .inl (hs.conns hn)
    · exact .inr hex

/-- How many calls are in a situation, after one of them moved, in terms of the
value that tells. -/
theorem countP_isOne (f : Call → Option Nat) (l : List Call) (k : Nat) (c c' : Call) (hk : l[k]? = some c) (i : Nat) :
    (l.set k c').countP (fun c => f c = some i) + isOne (f c) i =
      l.countP (fun c => f c = some i) + isOne (f c') i := by
  have := countP_set_of_getElem? (fun c => decide (f c = some i)) l k c c' hk
  simpa only [isOne, decide_eq_true_eq] using this

theorem retired_succ (r generation : Nat) (h : 0 < generation) :
    (if 0 < r ∧ r < generation then 1 else 0) + isOne (some generation) r =
      if 0 < r ∧ r < generation + 1 then 1 else 0 := by
  unfold isOne
  simp only [Option.some.injEq]
  split <;> split <;> split <;> omega

theorem inv_proceed (w : World) (k : Nat) (now : Int) (c : Call) (hk : w.calls[k]? = some c) (hw : Inv w) :
    Inv { w with gate := (proceed w.gate now c).1, calls := w.calls.set k (proceed w.gate now c).2 } := by
  have hs := proceed_spec w.gate now c
  have hmem : c ∈ w.calls := mem_of_getElem? hk
  generalize (proceed w.gate now c).1 = g' at hs ⊢
  generalize (proceed w.gate now c).2 = c' at hs ⊢
  refine ⟨?_, ?_, ?_, ?_, ?_, ?_, ?_, ?_, ?_⟩
  · have hpos := hw.generation
    show 0 < g'.generation
    rcases hs.retired with ⟨h, -⟩ | ⟨h, -⟩ <;> omega
  · show g'.active = _
    rw [hs.active]
    exact hw.active
  · intro r
    have hcount := countP_isOne retired w.calls k c c' hk r
    rw [hw.retired r] at hcount
    show (w.calls.set k c').countP (fun c => c.retired = some r) = if 0 < r ∧ r < g'.generation then 1 else 0
    rcases hs.retired with ⟨h, heq⟩ | ⟨h, hc, hc'⟩
    · rw [h]
      rw [heq] at hcount
      omega
    rw [hc, hc', isOne_none, Nat.add_zero, retired_succ r _ hw.generation] at hcount
    rw [h]
    exact hcount
  · refine forall_mem_set (fun d hd r S hS => hs.cut (hw.stale d hd r S hS)) ?_
    intro r S hS
    rcases hs.stale r S hS with hold | ⟨hr, rfl⟩
    · exact hs.cut (hw.stale c hmem r S hold)
    obtain ⟨hpos, hlt⟩ := hw.mem_retired hmem hr
    refine hs.cut ⟨hlt, hpos, ?_⟩
    intro e he her
    unfold staleOf
    rw [mem_map]
    exact ⟨e, by simpa [her, tracked] using he, rfl⟩
  · intro i
    have hcount := countP_isOne took w.calls k c c' hk i
    have howner := hs.owner i
    have hold := hw.owner i
    show isOne g'.instance? i + (w.calls.set k c').countP (fun c => c.took = some i) = if i < g'.started then 1 else 0
    rw [hs.started]
    omega
  · intro i
    have hcount := countP_isOne shut w.calls k c c' hk i
    have hcloses := hs.closes i
    have hold := hw.closes i
    show g'.closes.count i = (w.calls.set k c').countP (fun c => c.shut = some i)
    omega
  · refine forall_mem_set hw.swept ?_
    intro i hi h hh heq
    rcases hs.swept i hi with hold | hidle
    · exact hw.swept c hmem i hold h hh heq
    -- nobody is counted, so nobody uses an instance
    have hactive := hw.active
    have hzero : w.handlers.countP isCounted = 0 := by omega
    rw [countP_eq_zero] at hzero
    have hnot := hzero h hh
    cases h <;> simp_all [isCounted, instance?]
  · refine forall_mem_set (fun d hd hcl => hs.conns (hw.cleared d hd hcl)) ?_
    intro hcl
    rcases hs.cleared hcl with hold | hn
    · exact hs.conns (hw.cleared c hmem hold)
    · exact hn
  · have hlt : k < w.calls.length := (List.getElem?_eq_some_iff.mp hk).1
    intro hcl
    rcases hs.closed hcl with hold | hnew
    · rcases hw.closing hold with hn | ⟨d, hd, hdc⟩
      · exact .inl (hs.conns hn)
      -- the closing call is another one, or the one that moved
      obtain ⟨j, hj⟩ := getElem?_of_mem hd
      by_cases hjk : j = k
      · subst hjk
        have hcd : c = d := by simpa [hk] using hj
        subst hcd
        rcases hs.closing hdc with hstill | hn
        · exact .inr ⟨c', mem_set hlt c', hstill⟩
        · exact .inl hn
      · refine .inr ⟨d, mem_of_getElem? (i := j) ?_, hdc⟩
        rw [getElem?_set_ne (Ne.symm hjk)]
        exact hj
    · exact .inr ⟨c', mem_set hlt c', hnew⟩

/-- A new call holds nothing yet. -/
theorem inv_call (w : World) (c : Call) (htook : c.took = none) (hshut : c.shut = none) (hret : c.retired = none)
    (hstale : c.stale = none) (hswept : c.swept = none) (hcl : c.hasCleared = false) (hw : Inv w) :
    Inv { w with calls := w.calls ++ [c] } := by
  refine ⟨hw.generation, hw.active, ?_, ?_, ?_, ?_, ?_, ?_, ?_⟩
  · intro r
    simpa [hret] using hw.retired r
  · intro d hd
    rcases mem_append.mp hd with hd | hd
    · exact hw.stale d hd
    · rw [mem_singleton.mp hd]
      simp [hstale]
  · intro i
    simpa [htook] using hw.owner i
  · intro i
    simpa [hshut] using hw.closes i
  · intro d hd
    rcases mem_append.mp hd with hd | hd
    · exact hw.swept d hd
    · rw [mem_singleton.mp hd]
      simp [hswept]
  · intro d hd
    rcases mem_append.mp hd with hd | hd
    · exact hw.cleared d hd
    · rw [mem_singleton.mp hd]
      simp [hcl]
  · intro hc
    rcases hw.closing hc with hn | ⟨d, hd, hdc⟩
    · exact .inl hn
    · exact .inr ⟨d, mem_append_left _ hd, hdc⟩

/-- A new connection uses nothing yet. -/
theorem inv_accept (w : World) (hw : Inv w) : Inv { w with handlers := w.handlers ++ [.accepted] } := by
  refine { hw with active := ?_, swept := ?_ }
  · simpa [isCounted] using hw.active
  intro c hc i hi h hh
  rcases mem_append.mp hh with hh | hh
  · exact hw.swept c hc i hi h hh
  · rw [mem_singleton.mp hh]
    simp [instance?]

theorem inv_step (w : World) (e : Event) (hw : Inv w) : Inv (step w e) := by
  cases e with
  | accept => exact inv_accept w hw
  | Recycle => exact inv_call w _ rfl rfl rfl rfl rfl rfl hw
  | Close => exact inv_call w _ rfl rfl rfl rfl rfl rfl hw
  | tick => exact inv_call w _ rfl rfl rfl rfl rfl rfl hw
  | handle k input =>
    simp only [step]
    split
    · exact hw
    · rename_i h hk
      exact inv_handle w k input h hk hw
  | proceed k now =>
    simp only [step]
    split
    · exact hw
    · rename_i c hk
      exact inv_proceed w k now c hk hw

theorem inv_run (idle now : Int) (events : List Event) : Inv (run idle now events) :=
  foldl_keeps step Inv inv_step events _ (inv_start idle now)

/-! ## Every run -/

/-- What a gate promises about its connections and instances. -/
structure Safe (w : World) : Prop where
  /-- Once a `Recycle` has taken its stale set, no connection bound to the generation it
  retired is or becomes tracked that is not in it. -/
  stale : ∀ c ∈ w.calls, ∀ r S, c.stale = some (r, S) →
    ∀ (later : List Event) (conn : Conn), (conn, r) ∈ tracked (later.foldl step w).gate → conn ∈ S
  /-- A tracked connection of a retired generation belongs to the one `Recycle` that
  retired it, which has it in its stale set or has yet to take it. -/
  retired : ∀ conn r, (conn, r) ∈ tracked w.gate → 0 < r → r < w.gate.generation →
    w.calls.countP (fun c => c.retired = some r) = 1 ∧
      ∃ c ∈ w.calls, c.retired = some r ∧ ∀ S, c.stale = some (r, S) → conn ∈ S
  /-- What the sweeper has taken is used by no handler, at that moment or later. -/
  swept : ∀ c ∈ w.calls, ∀ i, c.swept = some i → ∀ h ∈ w.handlers, h.instance? ≠ some i
  owned : ∀ i < w.gate.started,
    (w.gate.instance? = some i ∧ w.calls.countP (fun c => c.took = some i) = 0) ∨
      (w.gate.instance? ≠ some i ∧ w.calls.countP (fun c => c.took = some i) = 1)
  /-- An instance is closed at most once, by a call that has taken it. -/
  closed : ∀ i, w.gate.closes.count i ≤ 1 ∧ (i ∈ w.gate.closes → ∃ c ∈ w.calls, c.took = some i ∧ c.shut = some i)
  /-- After `Close` nothing is or becomes tracked. -/
  cleared : ∀ c ∈ w.calls, c.hasCleared = true → ∀ later : List Event, tracked (later.foldl step w).gate = []
  /-- A closed gate tracks something only while the `Close` that closed it is at work. -/
  closing : w.gate.closed = true → tracked w.gate = [] ∨ ∃ c ∈ w.calls, c.isClosing = true

theorem Call.took_of_shut (c : Call) (i : Nat) (h : c.shut = some i) : c.took = some i := by
  cases c with
  | recycle r => cases r <;> simp_all [shut, took]
  | close c => cases c <;> simp_all [shut, took]
  | sweep s => cases s <;> simp_all [shut, took]

theorem Inv.owned (hw : Inv w) {i : Nat} (hi : i < w.gate.started) :
    (w.gate.instance? = some i ∧ w.calls.countP (fun c => c.took = some i) = 0) ∨
      (w.gate.instance? ≠ some i ∧ w.calls.countP (fun c => c.took = some i) = 1) := by
  have howner := hw.owner i
  rw [if_pos hi] at howner
  unfold isOne at howner
  by_cases hc : w.gate.instance? = some i
  · rw [if_pos hc] at howner
    exact .inl ⟨hc, by omega⟩
  · rw [if_neg hc] at howner
    exact .inr ⟨hc, by omega⟩

theorem Inv.count_closes_le (hw : Inv w) (i : Nat) : w.gate.closes.count i ≤ 1 := by
  have howner := hw.owner i
  have hle : w.calls.countP (fun c => c.shut = some i) ≤ w.calls.countP (fun c => c.took = some i) := by
    apply countP_mono_left
    intro c hc h
    simp only [decide_eq_true_eq] at h ⊢
    exact took_of_shut c i h
  rw [hw.closes i]
  split at howner <;> omega

theorem Inv.retired_of_tracked (hw : Inv w) {conn : Conn} (ht : (conn, r) ∈ tracked w.gate)
    (hpos : 0 < r) (hlt : r < w.gate.generation) :
    w.calls.countP (fun c => c.retired = some r) = 1 ∧
      ∃ c ∈ w.calls, c.retired = some r ∧ ∀ S, c.stale = some (r, S) → conn ∈ S := by
  have hone := hw.retired r
  rw [if_pos ⟨hpos, hlt⟩] at hone
  refine ⟨hone, ?_⟩
  have hex : 0 < w.calls.countP (fun c => c.retired = some r) := by omega
  rw [countP_pos_iff] at hex
  obtain ⟨c, hc, hr⟩ := hex
  exact ⟨c, hc, by simpa using hr, fun S hS => (hw.stale c hc r S hS).stale _ ht rfl⟩

/-- **Every run of the gate is safe.** -/
theorem run_safe (idle now : Int) (events : List Event) : Safe (run idle now events) := by
  have hw := inv_run idle now events
  refine
    { stale := ?_
      retired := fun conn r ht hpos hlt => hw.retired_of_tracked ht hpos hlt
      swept := hw.swept
      owned := fun i hi => hw.owned hi
      closed := fun i => ⟨hw.count_closes_le i, ?_⟩
      cleared := ?_
      closing := ?_ }
  · intro c hc r S hS later conn ht
    have hcut : Cut r S (later.foldl step (run idle now events)).gate :=
      foldl_keeps step (fun w => Cut r S w.gate) (cut_step r S) later _ (hw.stale c hc r S hS)
    exact hcut.stale _ ht rfl
  · intro hi
    have hcount := hw.closes i
    have hpos : 0 < (run idle now events).gate.closes.count i := count_pos_iff.mpr hi
    rw [hcount, countP_pos_iff] at hpos
    obtain ⟨c, hc, hshut⟩ := hpos
    simp only [decide_eq_true_eq] at hshut
    exact ⟨c, hc, took_of_shut c i hshut, hshut⟩
  · intro c hc hcl later
    have hnone : (later.foldl step (run idle now events)).gate.conns = none :=
      foldl_keeps step (fun w => w.gate.conns = none) conns_none_step later _ (hw.cleared c hc hcl)
    simp [tracked, hnone]
  · intro hcl
    rcases hw.closing hcl with hn | hex
    · left
      simp [tracked, hn]
    · exact .inr hex

/-- Once some `Recycle` has taken its stale set, every tracked connection of any
retired generation is in a stale set taken by then. -/
def StaleComplete (w : World) : Prop :=
  (∃ c ∈ w.calls, c.stale.isSome = true) →
    ∀ e ∈ tracked w.gate, 0 < e.2 → e.2 < w.gate.generation →
      ∃ c ∈ w.calls, (c.stale.map Prod.snd).any (fun S => S.contains e.1) = true

instance (w : World) : Decidable (StaleComplete w) :=
  inferInstanceAs (Decidable (_ → _))

/-- Two Recycles: the first retires generation 1 with the first connection bound to
it; a second connection gets a new instance, and the second Recycle retires
generation 2 and takes its stale set before the first one does. -/
def overlap : List Event :=
  let input : Input := { now := 0, starts := fun _ => .ok, dial := true }
  [.accept, .handle 0 input, .handle 0 input, .handle 0 input, .handle 0 input, .handle 0 input,
   .Recycle, .proceed 0 0,
   .accept, .handle 1 input, .handle 1 input, .handle 1 input, .handle 1 input,
   .Recycle, .proceed 1 0, .proceed 1 0]

/-- The first connection is tracked under generation 1, which is retired, and is in
no stale set. -/
theorem overlap_stale_missed : ¬ StaleComplete (run 0 0 overlap) := by decide

end Waterdisco.Xray
