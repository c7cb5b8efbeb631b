import Waterdisco.Api.Channel

/-!
# Calls in every interleaving

The entries of `pending` belong to calls that are still to return (`Inv.pend`), and
what a call holds is nothing or the payload of a response with its id (`CallOk.data`).

    every event keeps this, where a long response has nothing behind it       (Inv.step)
    a call only goes forward, and can always go on to its return              (step_call, Inv.returns)
-/

namespace Waterdisco.Api

open Channel List Nat Option CallPhase Call

/-! ## Calls -/

/-- The phases in which a call has its entry, unless someone took it. -/
def CallPhase.inPending : CallPhase → Bool
  | .registered | .waiting | .timedOut => true
  | _ => false

/-- What a returned call handed back is nothing, or a response with its id. -/
def Call.ResultOk (responses : List Response) (call : Call) : Prop :=
  ∀ code data, call.phase = .returned code (some data) →
    code = 1 ∧ data = [] ∨
      ∃ r ∈ responses, r.id = call.reqId ∧ r.data = data ∧ code = if r.status = 0 then 0 else 1

/-- What a call holds is nothing, or a response with its id. -/
def Call.DataOk (responses : List Response) (call : Call) : Prop :=
  call.data = [] ∧ call.status = 1 ∨
    ∃ r ∈ responses, r.id = call.reqId ∧ r.data = call.data ∧ r.status = call.status

structure CallOk (responses : List Response) (nextId : Nat) (call : Call) : Prop where
  data : call.DataOk responses
  result : call.ResultOk responses
  fresh : call.done = false → call.data = [] ∧ call.status = 1
  checked : call.phase = .checked → call.number = none
  drawn : call.phase = .drawn → call.number.isSome = true ∧ call.done = false
  unnumbered : call.number = none → call.done = false
  id : ∀ n, call.number = some n → call.reqId = idOf n ∧ n < nextId

structure Inv (s : Channel) : Prop where
  pend : ∀ entry ∈ s.pending, ∃ call, s.calls entry.2 = some call ∧ call.reqId = entry.1 ∧
    call.phase.inPending = true ∧ call.done = false ∧ call.number.isSome = true
  hand : ∀ c r, s.io = .handing c r → (∀ entry ∈ s.pending, entry.2 ≠ c) ∧ r ∈ s.responses ∧
    ∃ call, s.calls c = some call ∧ call.reqId = r.id ∧ call.number.isSome = true ∧ call.phase ≠ .drawn
  call : ∀ c call, s.calls c = some call → CallOk s.responses s.nextId call
  inj : ∀ c c' call call' n, s.calls c = some call → s.calls c' = some call' → call.number = some n →
    call'.number = some n → c = c'

variable {call : Call}

theorem CallOk.mono {responses more : List Response} {n m : Nat} (h : CallOk responses n call) (hn : n ≤ m) :
    CallOk (responses ++ more) m call where
  data := by
    rcases h.data with hd | ⟨r, hr, hd⟩
    · exact .inl hd
    · exact .inr ⟨r, mem_append_left _ hr, hd⟩
  result code data hp := by
    rcases h.result code data hp with hd | ⟨r, hr, hd⟩
    · exact .inl hd
    · exact .inr ⟨r, mem_append_left _ hr, hd⟩
  fresh := h.fresh
  checked := h.checked
  drawn := h.drawn
  unnumbered := h.unnumbered
  id k hk := ⟨(h.id k hk).1, lt_of_lt_of_le (h.id k hk).2 hn⟩

theorem Inv.congr {s s' : Channel} (h : Inv s) (hcalls : s'.calls = s.calls) (hpending : s'.pending = s.pending)
    (hresponses : s'.responses = s.responses) (hnext : s'.nextId = s.nextId)
    (hio : s'.io = s.io ∨ ∀ c r, s'.io ≠ .handing c r) :
    Inv s' where
  pend := by rw [hcalls, hpending]; exact h.pend
  hand c r hr := by
    rcases hio with hio | hio
    · rw [hio] at hr
      rw [hcalls, hpending, hresponses]
      exact h.hand c r hr
    · exact absurd hr (hio c r)
  call := by rw [hcalls, hresponses, hnext]; exact h.call
  inj := by rw [hcalls]; exact h.inj

section
variable {s : Channel} {c : Nat} {call : Call}

@[simp] theorem setCall_self (s : Channel) (c : Nat) (call : Call) : (s.setCall c call).calls c = some call := by
  simp [setCall]

theorem setCall_ne (s : Channel) {c d : Nat} (call : Call) (h : d ≠ c) : (s.setCall c call).calls d = s.calls d := by
  simp [setCall, h]

theorem Inv.numbers_inj (h : Inv s) {calls : Nat → Option Call}
    (hsame : ∀ k x, calls k = some x → ∃ y, s.calls k = some y ∧ y.number = x.number) :
    ∀ c c' call call' n, calls c = some call → calls c' = some call' → call.number = some n →
      call'.number = some n → c = c' := by
  intro c c' call call' n hcall hcall' hn hn'
  obtain ⟨y, hy, hyn⟩ := hsame c call hcall
  obtain ⟨y', hy', hyn'⟩ := hsame c' call' hcall'
  exact h.inj c c' y y' n hy hy' (hyn.trans hn) (hyn'.trans hn')

theorem Inv.setCall_inj (h : Inv s) {new : Call} (hc : s.calls c = some call) (hnew : new.number = call.number) :
    ∀ d d' old old' n, (s.setCall c new).calls d = some old → (s.setCall c new).calls d' = some old' →
      old.number = some n → old'.number = some n → d = d' := by
  refine h.numbers_inj ?_
  intro k x hx
  by_cases heq : k = c
  · rw [heq, setCall_self] at hx
    cases hx
    exact ⟨call, by rw [heq]; exact hc, hnew.symm⟩
  · rw [setCall_ne s _ heq] at hx
    exact ⟨x, hx, rfl⟩

theorem Inv.move (h : Inv s) (hc : s.calls c = some call) (phase : CallPhase)
    (hpend : (∃ entry ∈ s.pending, entry.2 = c) → phase.inPending = true) (hchecked : phase ≠ .checked)
    (hdrawn : phase ≠ .drawn) (hresult : Call.ResultOk s.responses { call with phase := phase }) :
    Inv (s.setCall c { call with phase := phase }) where
  pend entry hentry := by
    obtain ⟨old, hold, hid, hin, hdone, hnum⟩ := h.pend entry hentry
    by_cases heq : entry.2 = c
    · rw [heq, hc] at hold
      cases hold
      exact ⟨{ call with phase := phase }, by rw [heq]; exact setCall_self s c _, hid, hpend ⟨entry, hentry, heq⟩, hdone,
        hnum⟩
    · exact ⟨old, by rw [setCall_ne s _ heq]; exact hold, hid, hin, hdone, hnum⟩
  hand d r hr := by
    obtain ⟨hno, hmem, old, hold, hid, hnum, hd⟩ := h.hand d r hr
    refine ⟨hno, hmem, ?_⟩
    by_cases heq : d = c
    · rw [heq, hc] at hold
      cases hold
      exact ⟨{ call with phase := phase }, by rw [heq]; exact setCall_self s c _, hid, hnum, hdrawn⟩
    · exact ⟨old, by rw [setCall_ne s _ heq]; exact hold, hid, hnum, hd⟩
  call d old hold := by
    by_cases heq : d = c
    · rw [heq, setCall_self] at hold
      cases hold
      have hok := h.call c call hc
      exact ⟨hok.data, hresult, hok.fresh, fun hp => absurd hp hchecked,
        fun hp => absurd hp hdrawn, hok.unnumbered, hok.id⟩
    · rw [setCall_ne s _ heq] at hold
      exact h.call d old hold
  inj := h.setCall_inj hc rfl

theorem resultOk_of_ne {responses : List Response} {phase : CallPhase} (h : ∀ code rsp, phase ≠ .returned code rsp) :
    Call.ResultOk responses { call with phase := phase } :=
  fun code data hp => absurd hp (h code (some data))

theorem Inv.not_pending (h : Inv s) (hc : s.calls c = some call) (hphase : call.phase.inPending = false)
    (hentry : ∃ entry ∈ s.pending, entry.2 = c) : False := by
  obtain ⟨entry, hmem, rfl⟩ := hentry
  obtain ⟨old, hold, _, hin, _⟩ := h.pend entry hmem
  rw [hc] at hold
  cases hold
  rw [hphase] at hin
  cases hin

theorem Inv.removePending (h : Inv s) (id : UInt32) : Inv (s.removePending id) where
  pend entry hentry := h.pend entry (mem_filter.mp hentry).1
  hand c r hr := by
    obtain ⟨hno, hrest⟩ := h.hand c r hr
    exact ⟨fun entry hentry => hno entry (mem_filter.mp hentry).1, hrest⟩
  call := h.call
  inj := h.inj

theorem Inv.failPending (h : Inv s) : Inv s.failPending where
  pend entry hentry := absurd hentry not_mem_nil
  hand c r hr := by
    obtain ⟨hno, hmem, call, hcall, hid, hnum, hd⟩ := h.hand c r hr
    have hany : s.pending.any (fun entry => entry.2 == c) = false := by
      rw [List.any_eq_false]
      intro entry hentry
      simpa using hno entry hentry
    refine ⟨fun entry hentry => absurd hentry not_mem_nil, hmem, call, ?_, hid, hnum, hd⟩
    show (if s.pending.any (fun entry => entry.2 == c) then (s.calls c).map fail else s.calls c) = some call
    rw [hany]
    exact hcall
  call c call hcall := by
    have hcase : (if s.pending.any (fun entry => entry.2 == c) then (s.calls c).map fail else s.calls c) = some call :=
      hcall
    split at hcase
    · rename_i hany
      obtain ⟨entry, hentry, heq⟩ := any_eq_true.mp hany
      rw [beq_iff_eq] at heq
      obtain ⟨old, hold, _, hin, hdone, hnum⟩ := h.pend entry hentry
      rw [heq] at hold
      rw [hold] at hcase
      cases hcase
      have hok := h.call c old hold
      refine ⟨.inl ⟨(hok.fresh hdone).1, rfl⟩, hok.result, ?_, hok.checked, ?_, ?_, hok.id⟩
      · intro hd
        cases hd
      · intro hp
        have : old.phase = .drawn := hp
        rw [this] at hin
        cases hin
      · intro hn
        have : old.number = none := hn
        rw [this] at hnum
        cases hnum
    · exact h.call c call hcase
  inj := by
    refine h.numbers_inj ?_
    intro k x hx
    have hcase : (if s.pending.any (fun entry => entry.2 == k) then (s.calls k).map fail else s.calls k) = some x := hx
    split at hcase
    · obtain ⟨y, hy, rfl⟩ := map_eq_some_iff.mp hcase
      exact ⟨y, hy, rfl⟩
    · exact ⟨x, hcase, rfl⟩

end

/-! ## One event -/

variable {c : Nat}

/-- A step that some state of the call has to meet. -/
theorem moveCall_keeps {P : Channel → Prop} {s : Channel} {phase : CallPhase} {move : Call → Channel} (h : P s)
    (hmove : ∀ call, s.calls c = some call → call.phase = phase → P (move call)) : P (s.moveCall c phase move) := by
  unfold moveCall
  split
  · exact h
  rename_i call hc
  split
  · rename_i hphase
    exact hmove call hc hphase
  · exact h

/-- A response of `2^31` bytes or more has nothing behind it in the buffer. -/
def ClearBehind (buf : Bytes) : Prop :=
  2 ^ 31 ≤ leNat ((buf.drop 5).take 4) → buf.length ≤ 9 + leNat ((buf.drop 5).take 4)

theorem nextFrame_eq_front {buf rest : Bytes} {r : Response} (h : nextFrame buf = some (r, rest))
    (hclear : ClearBehind buf) :
    r = frontResponse buf := by
  unfold nextFrame at h
  split at h
  · cases h
  dsimp only at h
  split at h
  · cases h
  simp only [some.injEq, Prod.mk.injEq] at h
  rw [← h.1, frontResponse]
  have hdata : mid buf 9 (toInt (leNat ((buf.drop 5).take 4))) = (buf.drop 9).take (leNat ((buf.drop 5).take 4)) := by
    unfold mid toInt
    have hlt := leNat_lt ((buf.drop 5).take 4)
    have hfour : ((buf.drop 5).take 4).length ≤ 4 := by rw [length_take]; omega
    have hpow : 256 ^ ((buf.drop 5).take 4).length ≤ 256 ^ 4 := Nat.pow_le_pow_right (by omega) hfour
    by_cases hsmall : leNat ((buf.drop 5).take 4) < 2 ^ 31
    · rw [if_pos hsmall, if_neg (by omega), Int.toNat_natCast]
    · have hend := hclear (by omega)
      rw [if_neg hsmall, if_pos (by omega), take_of_length_le (by rw [length_drop]; omega)]
  rw [hdata]

section
variable {s : Channel}

theorem Inv.setNew (h : Inv s) (hc : s.calls c = none) (hdata : call.data = [] ∧ call.status = 1)
    (hdone : call.done = false) (hnumber : call.number = none)
    (hdrawn : call.phase ≠ .drawn) (hresult : ∀ code data, call.phase ≠ .returned code (some data)) :
    Inv (s.setCall c call) where
  pend entry hentry := by
    obtain ⟨old, hold, hrest⟩ := h.pend entry hentry
    have hne : entry.2 ≠ c := by
      intro heq
      rw [heq, hc] at hold
      cases hold
    exact ⟨old, by rw [setCall_ne s _ hne]; exact hold, hrest⟩
  hand d r hr := by
    obtain ⟨hno, hmem, old, hold, hrest⟩ := h.hand d r hr
    have hne : d ≠ c := by
      intro heq
      rw [heq, hc] at hold
      cases hold
    exact ⟨hno, hmem, old, by rw [setCall_ne s _ hne]; exact hold, hrest⟩
  call d old hold := by
    by_cases heq : d = c
    · rw [heq, setCall_self] at hold
      cases hold
      exact ⟨.inl hdata, fun code data hp => absurd hp (hresult code data), fun _ => hdata, fun _ => hnumber,
        fun hp => absurd hp hdrawn, fun _ => hdone, fun n hn => by rw [hnumber] at hn; cases hn⟩
    · rw [setCall_ne s _ heq] at hold
      exact h.call d old hold
  inj d d' old old' n hold hold' hn hn' := by
    have hne (k : Nat) (x : Call) (hx : (s.setCall c call).calls k = some x) (hxn : x.number = some n) : s.calls k = some x := by
      by_cases heq : k = c
      · rw [heq, setCall_self] at hx
        cases hx
        rw [hnumber] at hxn
        cases hxn
      · rwa [setCall_ne s _ heq] at hx
    exact h.inj d d' old old' n (hne d old hold hn) (hne d' old' hold' hn') hn hn'

theorem Inv.draw (h : Inv s) (hc : s.calls c = some call) (hphase : call.phase = .checked) :
    Inv { s.setCall c { call with phase := .drawn, number := some s.nextId, reqId := idOf s.nextId } with
      nextId := s.nextId + 1 } := by
  have hok := h.call c call hc
  have hnumber := hok.checked hphase
  have hdone := hok.unnumbered hnumber
  refine ⟨?_, ?_, ?_, ?_⟩
  · intro entry hentry
    obtain ⟨old, hold, hid, hin, hd, hnum⟩ := h.pend entry hentry
    have hne : entry.2 ≠ c := by
      intro heq
      rw [heq, hc] at hold
      cases hold
      rw [hnumber] at hnum
      cases hnum
    exact ⟨old, by rw [← hold]; exact setCall_ne s _ hne, hid, hin, hd, hnum⟩
  · intro d r hr
    obtain ⟨hno, hmem, old, hold, hid, hnum, hdrawn⟩ := h.hand d r hr
    have hne : d ≠ c := by
      intro heq
      rw [heq, hc] at hold
      cases hold
      rw [hnumber] at hnum
      cases hnum
    exact ⟨hno, hmem, old, by rw [← hold]; exact setCall_ne s _ hne, hid, hnum, hdrawn⟩
  · intro d old hold
    by_cases heq : d = c
    · have hnew : some { call with phase := drawn, number := some s.nextId, reqId := idOf s.nextId } = some old := by
        rw [← hold, heq]
        exact (setCall_self s c _).symm
      cases hnew
      refine ⟨.inl (hok.fresh hdone), ?_, fun _ => hok.fresh hdone, ?_, fun _ => ⟨rfl, hdone⟩, ?_, ?_⟩
      · intro code data hp
        cases hp
      · intro hp
        cases hp
      · intro hn
        cases hn
      · intro n hn
        cases hn
        exact ⟨rfl, lt_succ_self _⟩
    · have hsame : s.calls d = some old := by
        rw [← hold]
        exact (setCall_ne s _ heq).symm
      have hmore : CallOk (s.responses ++ []) (s.nextId + 1) old := (h.call d old hsame).mono (le_succ _)
      rwa [append_nil] at hmore
  · -- the number is one that no call had before
    intro d d' old old' n hold hold' hn hn'
    have hcase (k : Nat) (x : Call)
        (hx : (s.setCall c { call with phase := .drawn, number := some s.nextId, reqId := idOf s.nextId }).calls k = some x)
        (hxn : x.number = some n) : (k = c ∧ n = s.nextId) ∨ (s.calls k = some x ∧ n < s.nextId) := by
      by_cases heq : k = c
      · rw [heq, setCall_self] at hx
        cases hx
        cases hxn
        exact .inl ⟨heq, rfl⟩
      · rw [setCall_ne s _ heq] at hx
        exact .inr ⟨hx, ((h.call k x hx).id n hxn).2⟩
    rcases hcase d old hold hn with ⟨hd, hnd⟩ | ⟨hd,
      hnd⟩ <;> rcases hcase d' old' hold' hn' with ⟨hd', hnd'⟩ | ⟨hd', hnd'⟩
    · rw [hd, hd']
    · omega
    · omega
    · exact h.inj d d' old old' n hd hd' hn hn'

/-- A call that puts its entry into `pending`. -/
theorem Inv.register (h : Inv s) (hc : s.calls c = some call) (hphase : call.phase = .drawn) :
    Inv { (s.removePending call.reqId).setCall c { call with phase := .registered } with
      pending := (call.reqId, c) :: (s.removePending call.reqId).pending } := by
  have hremoved := h.removePending call.reqId
  obtain ⟨hnumber, hdone⟩ := (h.call c call hc).drawn hphase
  have hmoved : Inv ((s.removePending call.reqId).setCall c { call with phase := .registered }) :=
    hremoved.move hc .registered (fun _ => rfl) (by simp) (by simp) (resultOk_of_ne (by simp))
  refine ⟨?_, ?_, hmoved.call, hmoved.inj⟩
  · intro entry hentry
    rcases mem_cons.mp hentry with rfl | hentry
    · exact ⟨_, setCall_self _ c _, rfl, rfl, hdone, hnumber⟩
    · exact hmoved.pend entry hentry
  · intro d r hr
    obtain ⟨hno, hrest⟩ := hmoved.hand d r hr
    refine ⟨?_, hrest⟩
    intro entry hentry
    rcases mem_cons.mp hentry with rfl | hentry
    · -- the call that is being handed a response is past this phase
      rintro rfl
      obtain ⟨_, _, old, hold, _, _, hdrawn⟩ := h.hand c r hr
      rw [hc] at hold
      cases hold
      exact hdrawn hphase
    · exact hno entry hentry

theorem Inv.answer (h : Inv s) {r : Response} (hio : s.io = .handing c r)
    (hc : s.calls c = some call) : Inv { s.setCall c (call.answer r) with io := .reading } := by
  obtain ⟨hno, hmem, old, hold, hid, hnum, hdrawn⟩ := h.hand c r hio
  rw [hc] at hold
  cases hold
  have hok := h.call c call hc
  refine ⟨?_, ?_, ?_, ?_⟩
  · intro entry hentry
    obtain ⟨old, hold, hrest⟩ := h.pend entry hentry
    exact ⟨old, by rw [← hold]; exact setCall_ne s _ (hno entry hentry), hrest⟩
  · intro d r' hr
    cases hr
  · intro d old hold
    by_cases heq : d = c
    · have hnew : some (call.answer r) = some old := by
        rw [← hold, heq]
        exact (setCall_self s c _).symm
      cases hnew
      refine ⟨.inr ⟨r, hmem, hid.symm, rfl, rfl⟩, hok.result, ?_, hok.checked, fun hp => absurd hp hdrawn, ?_, hok.id⟩
      · intro hd
        cases hd
      intro hn
      have : call.number = none := hn
      rw [this] at hnum
      cases hnum
    · refine h.call d old ?_
      rw [← hold]
      exact (setCall_ne s _ heq).symm
  · exact h.setCall_inj hc rfl

theorem Inv.entry_id (h : Inv s) (hc : s.calls c = some call) {entry : UInt32 × Nat}
    (hentry : entry ∈ s.pending) (heq : entry.2 = c) : entry.1 = call.reqId := by
  obtain ⟨old, hold, hid, _⟩ := h.pend entry hentry
  rw [heq, hc] at hold
  cases hold
  exact hid.symm

theorem mem_of_lookup {pending : List (UInt32 × Nat)} {id : UInt32} (h : pending.lookup id = some c) :
    (id, c) ∈ pending := by
  obtain ⟨before, after, rfl, -⟩ := lookup_eq_some_iff.mp h
  exact mem_append_right _ (.head _)

variable (h : Inv s)

include h

theorem Inv.grow (hio : s.io = .reading) (rest : Bytes) (r : Response) :
    Inv { s with readBuf := rest, responses := s.responses ++ [r] } where
  pend := h.pend
  hand c r hr := by
    have : s.io = .handing c r := hr
    rw [hio] at this
    cases this
  call c call hc := (h.call c call hc).mono (.refl)
  inj := h.inj

/-- The call that a response finds has no entry left. -/
theorem Inv.found {r : Response} (hfound : s.pending.lookup r.id = some c) (hr : r ∈ s.responses) :
    Inv { s.removePending r.id with io := .handing c r } := by
  have hremoved := h.removePending r.id
  obtain ⟨call, hc, hid, hin, _, hnum⟩ := h.pend _ (mem_of_lookup hfound)
  refine ⟨hremoved.pend, ?_, hremoved.call, hremoved.inj⟩
  intro d r' hr'
  cases hr'
  refine ⟨?_, hr, call, hc, hid, hnum, ?_⟩
  · intro entry hentry heq
    obtain ⟨hmem, hne⟩ := mem_filter.mp hentry
    rw [h.entry_id hc hmem heq, hid] at hne
    simp at hne
  · intro hdrawn
    rw [hdrawn] at hin
    cases hin

theorem Inv.readRound (hio : s.io = .reading) (hclear : ClearBehind s.readBuf) : Inv s.readRound := by
  unfold Channel.readRound
  split
  · exact h.congr rfl rfl rfl rfl (.inr (by simp))
  rename_i r rest hframe
  have hfront := nextFrame_eq_front hframe hclear
  have hgrown := h.grow hio rest (frontResponse s.readBuf)
  split
  · exact hgrown
  · rename_i c hfound
    exact hgrown.found hfound (by rw [hfront]; simp)

theorem Inv.ioStep (hclear : s.io = .reading → ClearBehind s.readBuf) : Inv s.ioStep := by
  unfold Channel.ioStep
  split
  · exact h
  · rename_i hio
    exact h.readRound hio (hclear hio)
  · rename_i c r hio
    split
    · exact h.congr rfl rfl rfl rfl (.inr (by simp))
    · rename_i call hc
      exact h.answer hio hc
  · exact h.failPending.congr rfl rfl rfl rfl (.inr (by simp))

theorem Inv.wake (c : Nat) : Inv (s.wake c) := by
  unfold Channel.wake
  split
  · exact h
  rename_i call hc
  split
  · rename_i hdone
    refine h.move hc (.ended true) ?_ (by simp) (by simp) (resultOk_of_ne (by simp))
    rintro ⟨entry, hentry, heq⟩
    obtain ⟨old, hold, _, _, hnot, _⟩ := h.pend entry hentry
    rw [heq, hc] at hold
    cases hold
    rw [hdone.1] at hnot
    cases hnot
  · exact h

theorem Inv.timeOut (c : Nat) : Inv (s.timeOut c) := by
  unfold Channel.timeOut
  split
  · exact h
  rename_i call hc
  split
  · exact h
  split
  · exact h.move hc .timedOut (fun _ => rfl) (by simp) (by simp) (resultOk_of_ne (by simp))
  split
  · rename_i hphase
    refine h.move hc (.ended false) ?_ (by simp) (by simp) (resultOk_of_ne (by simp))
    intro hentry
    exact (h.not_pending hc (by rw [hphase]; rfl) hentry).elim
  · exact h

theorem Inv.reclaim (hc : s.calls c = some call) :
    Inv (if (s.pending.lookup call.reqId).isSome then (s.removePending call.reqId).setCall c { call with phase := .ended false }
      else s.setCall c { call with phase := .claimed }) := by
  split
  · refine (h.removePending call.reqId).move hc (.ended false) ?_ (by simp) (by simp) (resultOk_of_ne (by simp))
    rintro ⟨entry, hentry, heq⟩
    obtain ⟨hmem, hne⟩ := mem_filter.mp hentry
    rw [h.entry_id hc hmem heq] at hne
    simp at hne
  · rename_i hnone
    refine h.move hc .claimed ?_ (by simp) (by simp) (resultOk_of_ne (by simp))
    rintro ⟨entry, hentry, heq⟩
    refine absurd (lookup_isSome_iff.mpr ⟨entry, hentry, beq_self_eq_true _⟩) ?_
    rw [h.entry_id hc hentry heq]
    exact hnone

omit h

theorem Call.outcome_ok {responses : List Response} (h : call.DataOk responses) (ok : Bool) :
    Call.ResultOk responses { call with phase := call.outcome ok } := by
  intro code data hp
  unfold outcome at hp
  split at hp
  · rcases h with ⟨hdata, hstatus⟩ | ⟨r, hr, hid, hdata, hstatus⟩
    · rw [hstatus, if_neg (by decide)] at hp
      cases hp
      exact .inl ⟨rfl, hdata⟩
    refine .inr ⟨r, hr, hid, ?_⟩
    rw [hstatus]
    split at hp
    · rename_i hzero
      cases hp
      exact ⟨hdata, (if_pos hzero).symm⟩
    rename_i hzero
    cases hp
    exact ⟨hdata, (if_neg hzero).symm⟩
  · cases hp

theorem Inv.finish (h : Inv s) (hc : s.calls c = some call) {ok : Bool}
    (hphase : call.phase = .ended ok) : Inv (s.setCall c { call with phase := call.outcome ok }) := by
  have hout : ∃ code rsp, call.outcome ok = .returned code rsp := by
    unfold outcome
    split
    · split
      · exact ⟨_, _, rfl⟩
      · exact ⟨_, _, rfl⟩
    · exact ⟨_, _, rfl⟩
  obtain ⟨code, rsp, hout⟩ := hout
  refine h.move hc _ ?_ (by rw [hout]; simp) (by rw [hout]; simp) (outcome_ok (h.call c call hc).data ok)
  intro hentry
  exact (h.not_pending hc (by rw [hphase]; rfl) hentry).elim

/-- What the io thread meets in the buffer is a response with nothing behind it, where it is a long one. -/
def ReadsClear (s : Channel) (e : Event) : Prop := e = .io → s.io = .reading → ClearBehind s.readBuf

theorem Inv.step (h : Inv s) (e : Event) (hclear : ReadsClear s e) : Inv (s.step e) := by
  cases e with
  | reconnect socket | reconnectPost socket | reconnectStore socket =>
    simp only [Channel.step, Channel.moveReconnect]
    split
    · exact h.congr rfl rfl rfl rfl (.inl rfl)
    · exact h
  | reconnectFail socket =>
    simp only [Channel.step, Channel.moveReconnect]
    split
    · exact Inv.failPending (h.congr rfl rfl rfl rfl (.inl rfl))
    · exact h
  | failPending => exact h.failPending
  | call c method payload =>
    simp only [Channel.step]
    split
    · exact h
    rename_i hnew
    have hc : s.calls c = none := by simpa using hnew
    split
    · exact h.setNew hc ⟨rfl, rfl⟩ rfl rfl (by simp) (by simp)
    · exact h.setNew hc ⟨rfl, rfl⟩ rfl rfl (by simp) (by simp)
  | draw c => exact moveCall_keeps h fun _ hc hphase => h.draw hc hphase
  | register c => exact moveCall_keeps h fun _ hc hphase => h.register hc hphase
  | post c =>
    refine moveCall_keeps h fun _ hc _ => ?_
    refine (h.move hc .waiting (fun _ => rfl) (by simp) (by simp) (resultOk_of_ne (by simp))).congr rfl rfl rfl rfl ?_
    exact .inl rfl
  | wake c => exact h.wake c
  | timeOut c => exact h.timeOut c
  | reclaim c => exact moveCall_keeps h fun _ hc _ => h.reclaim hc
  | finish c =>
    simp only [Channel.step]
    split
    · exact h
    rename_i call hc
    split
    · rename_i ok hphase
      exact h.finish hc hphase
    · exact h
  | task available =>
    simp only [Channel.step]
    split
    · rename_i hidle
      unfold runTask
      split
      · exact h
      · exact h.congr rfl rfl rfl rfl (.inl rfl)
      refine h.congr rfl rfl rfl rfl (.inr ?_)
      split
      · simp
      · simp
    · exact h
  | readyRead bytes =>
    simp only [Channel.step]
    split
    · exact h.congr rfl rfl rfl rfl (.inr (by simp))
    · exact h
  | io => exact h.ioStep (hclear rfl)
  | disconnected socket =>
    simp only [Channel.step, Channel.disconnect]
    split
    · exact h
    split
    · split
      · exact h.congr rfl rfl rfl rfl (.inr (by simp))
      · exact h
    · exact h.congr rfl rfl rfl rfl (.inl rfl)

end

/-! ## Returning -/

/-- How far a call is from its return. -/
def CallPhase.rank : CallPhase → Nat
  | .checked => 7
  | .drawn => 6
  | .registered => 5
  | .waiting => 4
  | .timedOut => 3
  | .claimed => 2
  | .ended _ => 1
  | .returned _ _ => 0

/-- The call whose own thread the event is a step of. -/
def Event.caller : Event → Option Nat
  | .draw c | .register c | .post c | .wake c | .timeOut c | .reclaim c | .finish c => some c
  | _ => none

/-- A call is where it was, or nearer to its return. -/
def Forward (s s' : Channel) : Prop :=
  ∀ c call, s.calls c = some call →
    ∃ call', s'.calls c = some call' ∧ (call'.phase = call.phase ∨ call'.phase.rank < call.phase.rank)

section
variable {s : Channel}

theorem Forward.of_calls {s' : Channel} (h : s'.calls = s.calls) : Forward s s' := by
  intro c call hc
  exact ⟨call, by rw [h]; exact hc, .inl rfl⟩

theorem Forward.setCall {d : Nat} {old new : Call} (hd : s.calls d = some old)
    (hphase : new.phase = old.phase ∨ new.phase.rank < old.phase.rank) {s' : Channel}
    (hs : s'.calls = (s.setCall d new).calls) : Forward s s' := by
  intro c call hc
  rw [hs]
  by_cases heq : c = d
  · rw [heq] at hc ⊢
    rw [hd] at hc
    cases hc
    exact ⟨new, setCall_self s d new, hphase⟩
  · exact ⟨call, by rw [setCall_ne s new heq]; exact hc, .inl rfl⟩

theorem Forward.setNew {d : Nat} (hd : s.calls d = none) (new : Call) : Forward s (s.setCall d new) := by
  intro c call hc
  have hne : c ≠ d := by
    intro heq
    rw [heq, hd] at hc
    cases hc
  exact ⟨call, by rw [setCall_ne s new hne]; exact hc, .inl rfl⟩

theorem Forward.failPending (s : Channel) : Forward s s.failPending := by
  intro c call hc
  by_cases hany : s.pending.any (fun entry => entry.2 == c) = true
  · refine ⟨call.fail, ?_, .inl rfl⟩
    simp only [Channel.failPending, hany, if_true, hc, map_some]
  · refine ⟨call, ?_, .inl rfl⟩
    simp only [Channel.failPending, hany, if_false, hc, Bool.false_eq_true]

theorem Forward.ioStep (s : Channel) : Forward s s.ioStep := by
  unfold Channel.ioStep
  split
  · exact .of_calls rfl
  · unfold readRound
    split
    · exact .of_calls rfl
    split
    · exact .of_calls rfl
    · exact .of_calls rfl
  · split
    · exact .of_calls rfl
    rename_i c r _ _ call hc
    have hphase : (call.answer r).phase = call.phase := rfl
    exact .setCall hc (.inl hphase) rfl
  · exact Forward.failPending s

theorem Call.outcome_rank (call : Call) (ok : Bool) : (call.outcome ok).rank = 0 := by
  unfold outcome
  split
  · split
    · rfl
    · rfl
  · rfl

theorem step_call (s : Channel) (e : Event) : Forward s (s.step e) := by
  cases e with
  | reconnect socket | reconnectPost socket | reconnectStore socket =>
    simp only [step, moveReconnect]
    split
    · exact .of_calls rfl
    · exact .of_calls rfl
  | reconnectFail socket =>
    simp only [step, moveReconnect]
    split
    · exact Forward.failPending { s with reconnects := _ }
    · exact .of_calls rfl
  | failPending => exact Forward.failPending s
  | call c method payload =>
    simp only [step]
    split
    · exact .of_calls rfl
    rename_i hnew
    have hc : s.calls c = none := by simpa using hnew
    split
    · exact .setNew hc _
    · exact .setNew hc _
  | draw c | register c | post c =>
    refine moveCall_keeps (P := Forward s) (.of_calls rfl) fun _ hc hphase => ?_
    exact .setCall hc (.inr (by simp [hphase, rank])) rfl
  | wake c =>
    simp only [step, wake]
    split
    · exact .of_calls rfl
    rename_i call hc
    split
    · rename_i hphase
      refine .setCall hc (.inr ?_) rfl
      rcases hphase.2 with hp | hp
      · simp [hp, rank]
      · simp [hp, rank]
    · exact .of_calls rfl
  | timeOut c =>
    simp only [step, timeOut]
    split
    · exact .of_calls rfl
    rename_i call hc
    split
    · exact .of_calls rfl
    split
    · rename_i hphase
      exact .setCall hc (.inr (by simp [hphase, rank])) rfl
    split
    · rename_i hphase
      exact .setCall hc (.inr (by simp [hphase, rank])) rfl
    · exact .of_calls rfl
  | reclaim c =>
    refine moveCall_keeps (P := Forward s) (.of_calls rfl) fun _ hc hphase => ?_
    split
    · exact .setCall hc (.inr (by simp [hphase, rank])) rfl
    · exact .setCall hc (.inr (by simp [hphase, rank])) rfl
  | finish c =>
    simp only [step]
    split
    · exact .of_calls rfl
    rename_i call hc
    split
    · rename_i ok hphase
      refine .setCall hc (.inr ?_) rfl
      rw [hphase]
      show (call.outcome ok).rank < 1
      rw [outcome_rank]
      decide
    · exact .of_calls rfl
  | task available =>
    simp only [step, runTask]
    split
    · split
      · exact .of_calls rfl
      · exact .of_calls rfl
      · exact .of_calls rfl
    · exact .of_calls rfl
  | readyRead bytes =>
    simp only [step]
    split
    · exact .of_calls rfl
    · exact .of_calls rfl
  | io => exact Forward.ioStep s
  | disconnected socket =>
    simp only [step, disconnect]
    split
    · exact .of_calls rfl
    split
    · split
      · exact .of_calls rfl
      · exact .of_calls rfl
    · exact .of_calls rfl

/-- **Once.**  What a call returned, no later event changes. -/
theorem returned_stays (hc : s.calls c = some call) {code : Int} {rsp : Option Bytes}
    (hphase : call.phase = .returned code rsp) (events : List Event) :
    ∃ call', (events.foldl step s).calls c = some call' ∧ call'.phase = .returned code rsp := by
  induction events generalizing s call with
  | nil => exact ⟨call, hc, hphase⟩
  | cons e events ih =>
    obtain ⟨call', hc', hp⟩ := step_call s e c call hc
    refine ih hc' ?_
    rcases hp with hp | hp
    · rw [hp, hphase]
    · rw [hphase] at hp
      exact absurd hp (not_lt_zero _)

theorem own_step (hc : s.calls c = some call) (hrank : 0 < call.phase.rank) :
    ∃ e : Event, e.caller = some c ∧
      ∃ call', (s.step e).calls c = some call' ∧ call'.phase.rank < call.phase.rank := by
  cases hphase : call.phase with
  | checked => exact ⟨.draw c, rfl, { call with phase := .drawn, number := some s.nextId, reqId := idOf s.nextId },
      by simp [step, moveCall, setCall, hc, hphase], by simp [rank]⟩
  | drawn => exact ⟨.register c, rfl, { call with phase := .registered },
      by simp [step, moveCall, setCall, hc, hphase], by simp [rank]⟩
  | registered => exact ⟨.post c, rfl, { call with phase := .waiting },
      by simp [step, moveCall, setCall, hc, hphase], by simp [rank]⟩
  | waiting =>
    cases hdone : call.done with
    | true => exact ⟨.wake c, rfl, { call with phase := .ended true },
      by simp [step, wake, hc, hphase, hdone], by simp [rank]⟩
    | false => exact ⟨.timeOut c, rfl, { call with phase := .timedOut },
      by simp [step, timeOut, hc, hphase, hdone], by simp [rank]⟩
  | timedOut =>
    cases hfound : (s.pending.lookup call.reqId).isSome with
    | true => exact ⟨.reclaim c, rfl, { call with phase := .ended false },
      by simp [step, moveCall, hc, hphase, hfound], by simp [rank]⟩
    | false => exact ⟨.reclaim c, rfl, { call with phase := .claimed },
      by simp [step, moveCall, hc, hphase, hfound], by simp [rank]⟩
  | claimed =>
    cases hdone : call.done with
    | true => exact ⟨.wake c, rfl, { call with phase := .ended true },
      by simp [step, wake, hc, hphase, hdone], by simp [rank]⟩
    | false => exact ⟨.timeOut c, rfl, { call with phase := .ended false },
      by simp [step, timeOut, hc, hphase, hdone], by simp [rank]⟩
  | ended ok =>
    refine ⟨.finish c, rfl, { call with phase := call.outcome ok }, by simp [step, hc, hphase], ?_⟩
    show (call.outcome ok).rank < 1
    rw [outcome_rank]
    decide
  | returned code rsp =>
    rw [hphase] at hrank
    exact absurd hrank (not_lt_zero _)

/-- **Returns.**  The steps of its own thread, time-outs among them, bring every call to its return. -/
theorem returns (hc : s.calls c = some call) :
    ∃ own : List Event, (∀ e ∈ own, e.caller = some c) ∧
      ∃ call' code rsp, (own.foldl step s).calls c = some call' ∧ call'.phase = .returned code rsp := by
  induction hrank : call.phase.rank using Nat.strong_induction_on generalizing s call with
  | _ n ih =>
    by_cases hzero : 0 < call.phase.rank
    · obtain ⟨e, he, call', hc', hlt⟩ := own_step hc hzero
      obtain ⟨own, hown, hend⟩ := ih call'.phase.rank (hrank ▸ hlt) hc' rfl
      refine ⟨e :: own, ?_, hend⟩
      intro e' he'
      rcases mem_cons.mp he' with rfl | he'
      · exact he
      · exact hown e' he'
    · cases hphase : call.phase with
      | returned code rsp => exact ⟨[], by simp, call, code, rsp, hc, hphase⟩
      | _ =>
        rw [hphase] at hzero
        exact absurd (by simp [rank]) hzero

end

end Waterdisco.Api
