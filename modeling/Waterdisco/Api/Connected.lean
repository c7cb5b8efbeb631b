import Waterdisco.Api.ChannelRuns

/-!
# The flag and the socket

`connected` follows the socket given last (`Follows`), where every step meets `Meets`:
`Reconnect` calls come one after the other, with a socket that lives until it is
installed; the installed one does not disconnect while a newer one waits; and the io
thread does not run out of tasks before `Reconnect` has set the flag.

    a run of such steps keeps both invariants                          (Follows.step, run_sound)
    the old socket's disconnect after `Reconnect` leaves the flag down (late_disconnect)
-/

namespace Waterdisco.Api

open Channel List
open Function (update update_of_ne update_self)

def Reconnecting.underWay : Reconnecting → Bool
  | .failing | .posting | .storing => true
  | _ => false

def Task.socket : Task → Option Nat
  | .swap k => some k
  | .write _ => none

/-- The sockets that wait to be installed. -/
def Channel.swaps (s : Channel) : List Nat := s.queue.filterMap Task.socket

/-- The socket that is installed once the tasks have run. -/
def Channel.upcoming (s : Channel) : Option Nat := s.swaps.getLast?.or s.sock

def Channel.Quiet (s : Channel) : Prop := ∀ k, (s.reconnects k).underWay = false

structure Follows (s : Channel) : Prop where
  posted : ∀ k, k ∈ s.swaps ∨ s.sock = some k → s.reconnects k = .storing ∨ s.reconnects k = .over
  upcoming : (∀ k, s.reconnects k ≠ .failing ∧ s.reconnects k ≠ .posting) → s.upcoming = s.last
  mine : ∀ k, (s.reconnects k).underWay = true → s.last = some k ∧ s.connected = false
  quiet : s.Quiet → (s.connected = true ↔ ∃ k, s.last = some k ∧ s.dead k = false)
  lagging : ∀ k, s.reconnects k = .storing → s.queue = [] → s.dead k = true

/-- The flag says whether the socket given last is installed and lives. -/
def Channel.FlagOk (s : Channel) : Prop :=
  s.connected = true ↔ ∃ k, s.last = some k ∧ s.sock = some k ∧ s.dead k = false

/-- The orders in which the flag keeps up with the sockets, and the buffers whose responses are read right. -/
def Meets (s : Channel) : Event → Prop
  | .reconnect k => s.reconnects k = .notGiven → s.Quiet ∧ s.dead k = false
  | .reconnectStore k => s.reconnects k = .storing → s.dead k = false
  | .task _ => s.queue.length = 1 → ∀ k, s.reconnects k = .storing → s.dead k = true
  | .disconnected k => s.Quiet → s.swaps ≠ [] → s.sock ≠ some k ∧ s.last ≠ some k
  | .io => s.io = .reading → ClearBehind s.readBuf
  | _ => True

section
variable {s : Channel}

theorem Follows.sock_eq_last (h : Follows s) (hquiet : s.Quiet) (hswaps : s.swaps = []) : s.sock = s.last := by
  rw [← h.upcoming, Channel.upcoming, hswaps]
  · rfl
  · intro k
    have hk := hquiet k
    refine ⟨?_, ?_⟩ <;> intro heq <;> rw [heq] at hk <;> cases hk

/-- **The flag.**  With no task left it says what it should. -/
theorem Follows.flagOk (h : Follows s) (hqueue : s.queue = []) : s.FlagOk := by
  have hswaps : s.swaps = [] := by rw [swaps, hqueue]; rfl
  by_cases hquiet : s.Quiet
  · have hsock := h.sock_eq_last hquiet hswaps
    unfold FlagOk
    rw [h.quiet hquiet]
    constructor
    · rintro ⟨k, hlast, hdead⟩
      exact ⟨k, hlast, hsock.trans hlast, hdead⟩
    · rintro ⟨k, hlast, -, hdead⟩
      exact ⟨k, hlast, hdead⟩
  obtain ⟨k, hk⟩ := not_forall.mp hquiet
  have hk : (s.reconnects k).underWay = true := by simpa using hk
  obtain ⟨hlast, hconn⟩ := h.mine k hk
  unfold FlagOk
  rw [hconn]
  constructor
  · intro hfalse
    cases hfalse
  -- its socket is not installed yet, or it has died by now
  rintro ⟨l, hl, hsock, hdead⟩
  rw [hlast] at hl
  cases hl
  rcases h.posted k (.inr hsock) with hp | hp
  · rw [h.lagging k hp hqueue] at hdead
    cases hdead
  · rw [hp] at hk
    cases hk

/-- The parts of the state that the flag is about. -/
theorem Follows.congr {s' : Channel} (h : Follows s) (hqueue : s'.queue = s.queue := by rfl)
    (hsock : s'.sock = s.sock := by rfl)
    (hreconnects : s'.reconnects = s.reconnects := by rfl) (hlast : s'.last = s.last := by rfl)
    (hdead : s'.dead = s.dead := by rfl)
    (hconn : s'.connected = s.connected := by rfl) : Follows s' where
  posted := by rw [swaps, hqueue, hsock, hreconnects]; exact h.posted
  upcoming := by rw [Channel.upcoming, Channel.swaps, hqueue, hsock, hreconnects, hlast]; exact h.upcoming
  mine := by rw [hreconnects, hlast, hconn]; exact h.mine
  quiet := by rw [Quiet, hreconnects, hlast, hdead, hconn]; exact h.quiet
  lagging := by rw [hreconnects, hqueue, hdead]; exact h.lagging

theorem follows_init : Follows {} where
  posted k hk := by simp [swaps] at hk
  upcoming _ := rfl
  mine k hk := by cases hk
  quiet _ := by simp
  lagging k hk := by cases hk

end

/-! ## One event -/

section
variable {s : Channel} {k : Nat}

theorem not_quiet (h : (s.reconnects k).underWay = true) : ¬ s.Quiet := by
  intro hquiet
  rw [hquiet k] at h
  cases h

/-- A socket whose `Reconnect` has not posted it waits nowhere. -/
theorem Follows.ne_of_posted (h : Follows s) (hk : s.reconnects k ≠ .storing ∧ s.reconnects k ≠ .over) {j : Nat}
    (hj : j ∈ s.swaps ∨ s.sock = some j) : j ≠ k := by
  rintro rfl
  rcases h.posted j hj with hp | hp
  · exact hk.1 hp
  · exact hk.2 hp

theorem Follows.reconnect (h : Follows s) (hk : s.reconnects k = .notGiven) (hquiet : s.Quiet) :
    Follows { s with reconnects := update s.reconnects k .failing, connected := false, last := some k } where
  posted j hj := by
    have hne : j ≠ k := h.ne_of_posted (by rw [hk]; simp) hj
    dsimp only
    rw [update_of_ne hne]
    exact h.posted j hj
  upcoming hnone := absurd (update_self k _ s.reconnects) (hnone k).1
  mine j hj := by
    dsimp only at hj ⊢
    by_cases heq : j = k
    · exact ⟨by rw [heq], rfl⟩
    · rw [update_of_ne heq] at hj
      exact absurd hquiet (not_quiet hj)
  quiet hq := by
    have hfail : (update s.reconnects k .failing k).underWay = false := hq k
    rw [update_self] at hfail
    cases hfail
  lagging j hj := by
    dsimp only at hj ⊢
    by_cases heq : j = k
    · rw [heq, update_self] at hj
      cases hj
    · rw [update_of_ne heq] at hj
      exact h.lagging j hj

theorem Follows.reconnectFail (h : Follows s) (hk : s.reconnects k = .failing) :
    Follows (failPending { s with reconnects := update s.reconnects k .posting }) where
  posted j hj := by
    have hne : j ≠ k := h.ne_of_posted (by rw [hk]; simp) hj
    show update s.reconnects k .posting j = _ ∨ update s.reconnects k .posting j = _
    rw [update_of_ne hne]
    exact h.posted j hj
  upcoming hnone := absurd (update_self k _ s.reconnects) (hnone k).2
  mine j hj := by
    have hj : (update s.reconnects k .posting j).underWay = true := hj
    by_cases heq : j = k
    · exact h.mine j (by rw [heq, hk]; rfl)
    · rw [update_of_ne heq] at hj
      exact h.mine j hj
  quiet hq := by
    have hpost : (update s.reconnects k .posting k).underWay = false := hq k
    rw [update_self] at hpost
    cases hpost
  lagging j hj := by
    have hj : update s.reconnects k .posting j = .storing := hj
    by_cases heq : j = k
    · rw [heq, update_self] at hj
      cases hj
    · rw [update_of_ne heq] at hj
      exact h.lagging j hj

theorem swaps_append_swap (s : Channel) (k : Nat) :
    swaps { s with queue := s.queue ++ [.swap k] } = s.swaps ++ [k] := by
  simp only [swaps, filterMap_append]
  rfl

variable (h : Follows s)

include h

theorem Follows.reconnectPost (hk : s.reconnects k = .posting) :
    Follows { s with reconnects := update s.reconnects k .storing, queue := s.queue ++ [.swap k] } where
  posted j hj := by
    dsimp only
    by_cases heq : j = k
    · left
      rw [heq, update_self]
    rw [update_of_ne heq]
    refine h.posted j (hj.imp_left ?_)
    intro hj
    rcases mem_append.mp ((swaps_append_swap s k) ▸ hj) with hj | hj
    · exact hj
    · exact absurd (mem_singleton.mp hj) heq
  upcoming _ := by
    have hswaps := swaps_append_swap s k
    show (swaps { s with queue := s.queue ++ [.swap k] }).getLast?.or s.sock = s.last
    rw [hswaps, getLast?_concat, (h.mine k (by rw [hk]; rfl)).1]
    rfl
  mine j hj := by
    dsimp only at hj ⊢
    by_cases heq : j = k
    · exact h.mine j (by rw [heq, hk]; rfl)
    · rw [update_of_ne heq] at hj
      exact h.mine j hj
  quiet hq := by
    have hstore : (update s.reconnects k .storing k).underWay = false := hq k
    rw [update_self] at hstore
    cases hstore
  lagging j hj hqueue := by simp at hqueue

theorem Follows.reconnectStore (hk : s.reconnects k = .storing) (hdead : s.dead k = false) :
    Follows { s with reconnects := update s.reconnects k .over, connected := true } := by
  have hmine := h.mine k (by rw [hk]; rfl)
  have hother (j : Nat) (hj : (update s.reconnects k .over j).underWay = true) : False := by
    by_cases heq : j = k
    · rw [heq, update_self] at hj
      cases hj
    rw [update_of_ne heq] at hj
    have hlast := (h.mine j hj).1
    rw [hmine.1] at hlast
    cases hlast
    exact heq rfl
  refine ⟨?_, ?_, fun j hj => (hother j hj).elim, ?_, fun j hj => ?_⟩
  · intro j hj
    dsimp only
    by_cases heq : j = k
    · right
      rw [heq, update_self]
    · rw [update_of_ne heq]
      exact h.posted j hj
  · intro hnone
    refine h.upcoming ?_
    intro j
    by_cases heq : j = k
    · rw [heq, hk]
      simp
    · have hj : update s.reconnects k .over j ≠ .failing ∧ update s.reconnects k .over j ≠ .posting := hnone j
      rwa [update_of_ne heq] at hj
  · intro _
    refine iff_of_true rfl ⟨k, hmine.1, hdead⟩
  · have hj : update s.reconnects k .over j = .storing := hj
    exact (hother j (by rw [hj]; rfl)).elim

theorem Follows.runTask (available : Bytes)
    (hlast : s.queue.length = 1 → ∀ k, s.reconnects k = .storing → s.dead k = true) : Follows (s.runTask available) := by
  unfold Channel.runTask
  split
  · exact h
  · rename_i frame rest hqueue
    have hswaps : s.swaps = rest.filterMap Task.socket := by
      rw [swaps, hqueue, filterMap_cons]
      rfl
    refine ⟨?_, ?_, h.mine, h.quiet, ?_⟩
    · intro j hj
      exact h.posted j (by rw [hswaps]; exact hj)
    · intro hnone
      rw [← h.upcoming hnone, Channel.upcoming, Channel.upcoming, hswaps]
      rfl
    · intro j hj hrest
      have hrest : rest = [] := hrest
      exact hlast (by rw [hqueue, hrest]; rfl) j hj
  rename_i k rest hqueue
  have hswaps : s.swaps = k :: rest.filterMap Task.socket := by
    rw [swaps, hqueue, filterMap_cons]
    rfl
  refine ⟨?_, ?_, h.mine, h.quiet, ?_⟩
  · intro j hj
    refine h.posted j (.inl ?_)
    rw [hswaps]
    rcases hj with hj | hj
    · exact .tail _ hj
    · cases hj
      exact .head _
  · intro hnone
    rw [← h.upcoming hnone, Channel.upcoming, Channel.upcoming, hswaps, getLast?_cons]
    show (rest.filterMap Task.socket).getLast?.or (some k) = _
    cases (rest.filterMap Task.socket).getLast? with
    | none => rfl
    | some j => rfl
  · intro j hj hrest
    have hrest : rest = [] := hrest
    exact hlast (by rw [hqueue, hrest]; rfl) j hj

theorem Follows.disconnect (hmeets : s.Quiet → s.swaps ≠ [] → s.sock ≠ some k ∧ s.last ≠ some k) :
    Follows (s.disconnect k) := by
  have hlagging (j : Nat) (hj : s.reconnects j = .storing) (hqueue : s.queue = []) :
      update s.dead k true j = true := by
    by_cases heq : j = k
    · rw [heq, update_self]
    · rw [update_of_ne heq]
      exact h.lagging j hj hqueue
  unfold Channel.disconnect
  split
  · exact h
  dsimp only
  split
  · rename_i hsock
    split
    · refine ⟨h.posted, h.upcoming, fun j hj => ⟨(h.mine j hj).1, rfl⟩, ?_, hlagging⟩
      intro hquiet
      have hswaps : s.swaps = [] := by
        by_contra hne
        exact (hmeets hquiet hne).1 hsock
      have hlast : s.last = some k := by rw [← h.sock_eq_last hquiet hswaps, hsock]
      refine iff_of_false (by simp) ?_
      rintro ⟨l, hl, hdead⟩
      rw [show s.last = some l from hl] at hlast
      cases hlast
      dsimp only at hdead
      rw [update_self] at hdead
      cases hdead
    · exact h
  rename_i hsock
  refine ⟨h.posted, h.upcoming, h.mine, ?_, hlagging⟩
  intro hquiet
  have hlast : s.last ≠ some k := by
    by_cases hswaps : s.swaps = []
    · rw [← h.sock_eq_last hquiet hswaps]
      exact hsock
    · exact (hmeets hquiet hswaps).2
  show s.connected = true ↔ _
  rw [h.quiet hquiet]
  refine exists_congr fun l => and_congr_right fun hl => ?_
  have hne : l ≠ k := by
    rintro rfl
    exact hlast hl
  dsimp only
  rw [update_of_ne hne]

theorem Follows.post (frame : Bytes) : Follows { s with queue := s.queue ++ [.write frame] } := by
  have hswaps : swaps { s with queue := s.queue ++ [.write frame] } = s.swaps := by
    simp only [swaps, filterMap_append]
    exact append_nil _
  refine ⟨?_, ?_, h.mine, h.quiet, ?_⟩
  · rw [hswaps]
    exact h.posted
  · rw [Channel.upcoming, hswaps]
    exact h.upcoming
  · intro j _ hqueue
    simp at hqueue

theorem Follows.ioStep : Follows s.ioStep := by
  unfold Channel.ioStep
  split
  · exact h
  · unfold readRound
    split
    · exact h.congr
    dsimp only
    split
    · exact h.congr
    · exact h.congr
  · split
    · exact h.congr
    · exact h.congr
  · exact h.congr

theorem Follows.step (e : Event) (hmeets : Meets s e) : Follows (s.step e) := by
  cases e with
  | reconnect k =>
    simp only [Channel.step, Channel.moveReconnect]
    split
    · rename_i hk
      exact h.reconnect hk (hmeets hk).1
    · exact h
  | reconnectFail k =>
    simp only [Channel.step, Channel.moveReconnect]
    split
    · rename_i hk
      exact h.reconnectFail hk
    · exact h
  | reconnectPost k =>
    simp only [Channel.step, Channel.moveReconnect]
    split
    · rename_i hk
      exact h.reconnectPost hk
    · exact h
  | reconnectStore k =>
    simp only [Channel.step, Channel.moveReconnect]
    split
    · rename_i hk
      exact h.reconnectStore hk (hmeets hk)
    · exact h
  | failPending => exact h.congr
  | call c method payload =>
    simp only [Channel.step]
    split
    · exact h
    split
    · exact h.congr
    · exact h.congr
  | draw c | register c => exact moveCall_keeps h fun _ _ _ => h.congr
  | post c =>
    exact moveCall_keeps h fun call _ _ => (h.post (Request.frame ⟨call.reqId, call.method, call.payload⟩)).congr
  | wake c =>
    simp only [Channel.step, Channel.wake]
    split
    · exact h
    split
    · exact h.congr
    · exact h
  | timeOut c =>
    simp only [Channel.step, Channel.timeOut]
    split
    · exact h
    split
    · exact h
    split
    · exact h.congr
    split
    · exact h.congr
    · exact h
  | reclaim c =>
    refine moveCall_keeps h fun _ _ _ => ?_
    split
    · exact h.congr
    · exact h.congr
  | finish c =>
    simp only [Channel.step]
    split
    · exact h
    split
    · exact h.congr
    · exact h
  | task available =>
    simp only [Channel.step]
    split
    · exact h.runTask available hmeets
    · exact h
  | readyRead bytes =>
    simp only [Channel.step]
    split
    · exact h.congr
    · exact h
  | io => exact h.ioStep
  | disconnected k => exact h.disconnect hmeets

end

/-! ## Runs -/

theorem inv_init : Inv {} where
  pend entry hentry := by cases hentry
  hand c r hr := by cases hr
  call c call hc := by cases hc
  inj c c' call call' n hc := by cases hc

/-- What a state of the channel owes its callers. -/
structure Sound (s : Channel) : Prop where
  /-- What is returned is nothing, or the payload of a response with the id of the call. -/
  data : ∀ c call code data, s.calls c = some call → call.phase = .returned code (some data) →
    code = 1 ∧ data = [] ∨ ∃ r ∈ s.responses, r.id = call.reqId ∧ r.data = data ∧ code = if r.status = 0 then 0 else 1
  /-- The ids of calls differ. -/
  ids : s.nextId < 2 ^ 32 → ∀ c c' call call', s.calls c = some call → s.calls c' = some call' →
    call.number.isSome = true → call'.number.isSome = true → call.reqId = call'.reqId → c = c'
  /-- A call that has returned has no entry. -/
  left : ∀ c call code rsp, s.calls c = some call → call.phase = .returned code rsp → ∀ entry ∈ s.pending, entry.2 ≠ c
  /-- It has returned for good. -/
  once : ∀ c call code rsp, s.calls c = some call → call.phase = .returned code rsp → ∀ more : List Event,
    ∃ call', (more.foldl step s).calls c = some call' ∧ call'.phase = .returned code rsp
  /-- Every other call is brought to its return by its own thread. -/
  returns : ∀ c call, s.calls c = some call → ∃ own : List Event, (∀ e ∈ own, e.caller = some c) ∧
    ∃ call' code rsp, (own.foldl step s).calls c = some call' ∧ call'.phase = .returned code rsp
  flag : s.queue = [] → s.FlagOk

theorem idOf_inj {n m : Nat} (hn : n < 2 ^ 32 - 1) (hm : m < 2 ^ 32 - 1) (h : idOf n = idOf m) : n = m := by
  have hnat := congrArg UInt32.toNat h
  rw [idOf, idOf, UInt32.toNat_ofNat', UInt32.toNat_ofNat', Nat.mod_eq_of_lt (by omega),
    Nat.mod_eq_of_lt (by omega)] at hnat
  omega

theorem sound_of {s : Channel} (hinv : Inv s) (hfollows : Follows s) : Sound s where
  data c call code data hc hp := (hinv.call c call hc).result code data hp
  ids hnext c c' call call' hc hc' hnum hnum' hid := by
    obtain ⟨n, hn⟩ := Option.isSome_iff_exists.mp hnum
    obtain ⟨n', hn'⟩ := Option.isSome_iff_exists.mp hnum'
    have h := (hinv.call c call hc).id n hn
    have h' := (hinv.call c' call' hc').id n' hn'
    rw [h.1, h'.1] at hid
    have heq : n = n' := idOf_inj (by omega) (by omega) hid
    exact hinv.inj c c' call call' n hc hc' hn (by rw [heq]; exact hn')
  left c call code rsp hc hp entry hentry heq := hinv.not_pending hc (by rw [hp]; rfl) ⟨entry, hentry, heq⟩
  once c call code rsp hc hp more := returned_stays hc hp more
  returns c call hc := returns hc
  flag hqueue := hfollows.flagOk hqueue

/-- **Runs.**  Where every step meets `Meets`, every state is sound. -/
theorem run_sound (events : List Event) (h : AllMeet step Meets {} events) : Sound (Channel.run events) := by
  have hboth : Inv (Channel.run events) ∧ Follows (Channel.run events) := by
    have hstep (s : Channel) (e : Event) (hm : Meets s e) (hs : Inv s ∧ Follows s) :
      Inv (s.step e) ∧ Follows (s.step e) := by
      refine ⟨hs.1.step e ?_, hs.2.step e hm⟩
      intro he
      rwa [he] at hm
    exact AllMeet.keeps hstep h ⟨inv_init, follows_init⟩
  exact sound_of hboth.1 hboth.2

/-- One socket, and a call that gets its response. -/
def answeredCall : List Event :=
  [.reconnect 0, .reconnectFail 0, .reconnectPost 0, .reconnectStore 0, .task [], .call 7 [83] [1, 2], .draw 7,
    .register 7, .post 7, .task [], .readyRead [1, 0, 0, 0, 0, 1, 0, 0, 0, 42], .io, .io, .io, .wake 7, .finish 7]

theorem answeredCall_sound :
    ((Channel.run answeredCall).calls 7).map Call.phase = some (.returned 0 (some [42])) ∧
      Sound (Channel.run answeredCall) := by
  refine ⟨rfl, run_sound answeredCall ?_⟩
  refine ⟨fun _ => ⟨fun _ => rfl, rfl⟩, trivial, trivial, fun _ => rfl, fun _ k hk => ?_, trivial,
    trivial, trivial, trivial,
    fun _ k hk => ?_, trivial, fun _ hlong => ?_, (fun hio => by cases hio), fun _ hlong => ?_,
      trivial, trivial, trivial⟩
  · cases k with
    | zero => cases hk
    | succ k => cases hk
  · cases k with
    | zero => cases hk
    | succ k => cases hk
  · exact absurd hlong (by decide)
  · cases hlong

/-- The old socket disconnects after `Reconnect` has set the flag and before the new one is installed. -/
def lateDisconnect : List Event :=
  [.reconnect 0, .reconnectFail 0, .reconnectPost 0, .reconnectStore 0, .task [],
    .reconnect 1, .reconnectFail 1, .reconnectPost 1, .reconnectStore 1, .disconnected 0, .io, .task []]

theorem late_disconnect : (Channel.run lateDisconnect).queue = [] ∧ (Channel.run lateDisconnect).io = .idle ∧
    ¬ (Channel.run lateDisconnect).FlagOk := by
  refine ⟨rfl, rfl, ?_⟩
  intro hflag
  have hup : (Channel.run lateDisconnect).connected = true := hflag.mpr ⟨1, rfl, rfl, rfl⟩
  cases hup

end Waterdisco.Api
