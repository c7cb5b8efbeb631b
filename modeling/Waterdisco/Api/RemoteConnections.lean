import Mathlib.Data.List.Nodup
import Waterdisco.Api.Remote

/-!
# Connections of the remote API

What the worker does to a connection is a `Put`: the connection at one place is
exchanged for another, with at most one new exchange.  The invariants of a connection say
with what the cipher was called and whose answers were sent (`ConnOk`), and what became of
the bytes that came in (`Framed`).

    one round of `processInput` moves its connection, if any       (round_moves)
    a move keeps the invariant of the worker                       (Moves.inv)
-/

namespace Waterdisco.Remote

open List Function Bool Nat Worker

variable {Addr Body : Type}

abbrev Connection.shut (c : Connection Addr) : Connection Addr := { c with closed := true, timer := false }

/-! ## Invariant -/

section
variable (env : Env Addr Body)

/-- A frame that holds a request. -/
def parses (plaintext : Bytes) : Bool :=
  match env.parseRequest plaintext with
  | .ok _ => true
  | .error _ => false

/-- The frames that authenticated. -/
def Connection.opened (c : Connection Addr) : List Bytes := c.opens.filterMap (·.plaintext env)

/-- The exchange of the `j`-th frame. -/
def numberAt (opened : List Bytes) (j : Nat) : Nat := (opened.take (j + 1)).countP (parses env)

/-- `sent` answers the request `plaintext`, which was exchange `n` of the connection. -/
def Answers (given : List (Answer Body)) (i n : Nat) (plaintext sent : Bytes) : Prop :=
  match env.parseRequest plaintext with
  | .error error => sent = env.fit (.error 400 "bad_request" error)
  | .ok _ => ∃ response, ⟨i, n, response⟩ ∈ given ∧ sent = env.fit response

structure ConnOk (given : List (Answer Body)) (i : Nat) (c : Connection Addr) : Prop where
  peer : c.peer = env.text c.address
  seals : c.seals.map (·.counter) = range c.sent
  opens : c.opens.map (·.counter) = range c.opens.length
  attempts : c.opens.length = c.received ∨ (c.closed = true ∧ c.opens.length = c.received + 1)
  opened : (c.opened env).length = c.received
  authentic : ∀ call ∈ c.opens.take c.received, call.plaintext env ≠ none
  bound : c.opens.length ≤ kMaxCounter ∧ c.sent ≤ kMaxCounter
  exchanges : c.exchanges = (c.opened env).countP (parses env)
  order : c.sent ≤ c.received ∧ c.received ≤ c.sent + 1
  pending : c.phase = .pending → c.received = c.sent + 1
  free : c.phase ≠ .pending → c.closed = false → c.received = c.sent
  answers : ∀ j call, c.seals[j]? = some call →
    ∃ plaintext, (c.opened env)[j]? = some plaintext ∧
      Answers env given i (numberAt env (c.opened env) j) plaintext call.plaintext
  output : c.output = c.serverRandom ++ c.seals.flatMap (·.frame env)

/-- The header of a frame that may be read. -/
def ValidHeader (header : Bytes) : Prop :=
  header.length = kFrameHeaderSize ∧ kTagSize ≤ beNat header ∧ beNat header ≤ kMaxClientFrame

/-- What has come in is a hello, one whole frame for each call, what was read of the next one, and the rest. -/
structure Framed (c : Connection Addr) : Prop where
  arrived : ∃ hello, c.arrived = hello ++ (c.opens.flatMap (fun call => call.header ++
    call.sealed) ++ (c.header ++ (c.body ++ c.input))) ∧
    if c.phase = .hello then hello = [] ∧ c.opens = [] ∧ c.header = []
    else hello.length = kClientHelloSize ∧ hello.head? = some kProtocolVersion
  frames : ∀ call ∈ c.opens, ValidHeader call.header ∧ call.sealed.length = beNat call.header
  next : if c.header = [] then c.body = []
    else ValidHeader c.header ∧ c.length = beNat c.header ∧ c.body.length ≤ c.length

/-- A connection that waits for an answer has a request for it. -/
def LastParses (c : Connection Addr) : Prop :=
  c.phase = .pending → ∃ plaintext, (c.opened env)[c.sent]? = some plaintext ∧ parses env plaintext = true

/-- An exchange holds the request of the frame that has its number. -/
def Handed (x : Exchange Body) (c : Connection Addr) : Prop :=
  x.number ≤ c.exchanges ∧ ∃ j plaintext request, (c.opened env)[j]? = some plaintext ∧
    env.parseRequest plaintext = .ok request ∧ numberAt env (c.opened env) j = x.number ∧
    x.request = { request with peer := c.peer, admin := x.request.admin }

abbrev Worker.Each (w : Worker Addr Body) (p : Nat → Connection Addr → Prop) : Prop :=
  ∀ i c, w.connections[i]? = some c → p i c

variable [DecidableEq Addr]

structure Core (w : Worker Addr Body) : Prop where
  conn : w.Each fun i c => ConnOk env w.given i c ∧ LastParses env c ∧ (c.closed = false → Framed c)
  perPeer : ∀ p, w.perPeer p = w.connections.countP (fun c => !c.closed && c.peer == p)
  mail : ∀ a ∈ w.mailbox, a ∈ w.given
  given : (w.given.map (fun a => (a.connection, a.number))).Nodup
  answered : ∀ a ∈ w.given, ∃ x ∈ w.exchanges, x.connection = a.connection ∧ x.number = a.number ∧ x.answered = true
  exchanges : (w.exchanges.map (fun x => (x.connection, x.number))).Nodup
  handed : ∀ x ∈ w.exchanges, ∃ c, w.connections[x.connection]? = some c ∧ Handed env x c

def Allowed (w : Worker Addr Body) : Prop :=
  w.Each fun _ c => c.closed = false → w.isAllowed env c.address = true

structure Inv (w : Worker Addr Body) : Prop where
  core : Core env w
  allowed : Allowed env w

end

/-- Closed connections are as they were. -/
def ClosedStay (w w' : Worker Addr Body) : Prop :=
  w.Each fun i c => c.closed = true → w'.connections[i]? = some c

abbrev Goes [DecidableEq Addr] (env : Env Addr Body) (w w' : Worker Addr Body) : Prop := Inv env w' ∧ ClosedStay w w'

theorem ClosedStay.refl (w : Worker Addr Body) : ClosedStay w w := fun _ _ hc _ => hc

theorem ClosedStay.trans {w w' w'' : Worker Addr Body} (h : ClosedStay w w')
    (h' : ClosedStay w' w'') : ClosedStay w w'' :=
  fun i c hc hclosed => h' i c (h i c hc hclosed) hclosed

/-! ## One connection is exchanged for another -/

/-- The connection at `i` becomes `c'`; `handed` are the exchanges that come with it. -/
structure Put (w w' : Worker Addr Body) (i : Nat) (c c' : Connection Addr) (handed : List (Exchange Body)) : Prop where
  connections : w'.connections = w.connections.set i c'
  perPeer : w'.perPeer = if c'.closed then update w.perPeer c.peer (w.perPeer c.peer - 1) else w.perPeer
  config : w'.config = w.config
  localAddress : w'.localAddress = w.localAddress
  exchanges : w'.exchanges = w.exchanges ++ handed
  mailbox : w'.mailbox = w.mailbox
  given : w'.given = w.given
  peer : c'.peer = c.peer
  address : c'.address = c.address

section
variable {w w' : Worker Addr Body} {i : Nat} {c c' : Connection Addr} {handed : List (Exchange Body)}

theorem Put.closedStay (h : Put w w' i c c' handed) (hc : w.connections[i]? = some c) (hopen : c.closed = false) :
    ClosedStay w w' := by
  intro j d hd hclosed
  have hne : i ≠ j := by
    rintro rfl
    rw [hc] at hd
    cases hd
    rw [hopen] at hclosed
    cases hclosed
  rw [h.connections, getElem?_set_ne hne]
  exact hd

theorem Put.getElem? (h : Put w w' i c c' handed) (hc : w.connections[i]? = some c) : w'.connections[i]? = some c' := by
  rw [h.connections, getElem?_set_self]
  exact (List.getElem?_eq_some_iff.mp hc).1

theorem Put.trans {w'' : Worker Addr Body} {c'' : Connection Addr} (h : Put w w' i c c' []) (hopen : c'.closed = false)
    (h' : Put w' w'' i c' c'' handed) : Put w w'' i c c'' handed where
  connections := by rw [h'.connections, h.connections, set_set]
  perPeer := by
    rw [h'.perPeer, h.perPeer, hopen, h.peer]
    simp
  config := h'.config.trans h.config
  localAddress := h'.localAddress.trans h.localAddress
  exchanges := by rw [h'.exchanges, h.exchanges, append_nil]
  mailbox := h'.mailbox.trans h.mailbox
  given := h'.given.trans h.given
  peer := h'.peer.trans h.peer
  address := h'.address.trans h.address

theorem put_set (w : Worker Addr Body) (i : Nat) (hpeer : c'.peer = c.peer) (haddress : c'.address = c.address)
    (hopen : c'.closed = false) : Put w (w.setConnection i c') i c c' [] where
  connections := rfl
  perPeer := by
    rw [hopen]
    rfl
  config := rfl
  localAddress := rfl
  exchanges := (append_nil _).symm
  mailbox := rfl
  given := rfl
  peer := hpeer
  address := haddress

theorem put_close (hc : w.connections[i]? = some c) (hopen : c.closed = false) :
    Put w (w.closeConnection i) i c c.shut [] := by
  have heq : w.closeConnection i = { w.setConnection i c.shut with
      perPeer := update w.perPeer c.peer (w.perPeer c.peer - 1) } := by
    simp [closeConnection, hc, hopen]
  rw [heq]
  exact ⟨rfl, rfl, rfl, rfl, (append_nil _).symm, rfl, rfl, rfl, rfl⟩

variable (env : Env Addr Body)

def Connection.afterSend (c : Connection Addr) (response : Response Body) : Connection Addr :=
  { c with
    unwritten := c.unwritten + (SealCall.frame env ⟨c.s2c, c.sent, env.fit response⟩).length
    output := c.output ++ SealCall.frame env ⟨c.s2c, c.sent, env.fit response⟩
    sent := c.sent + 1
    seals := c.seals ++ [⟨c.s2c, c.sent, env.fit response⟩]
    phase := .ready
    timer := true }

theorem put_send (hc : w.connections[i]? = some c) (hopen : c.closed = false) (response : Response Body) :
    Put w (w.sendResponse env i response) i c
      (if c.sent = kMaxCounter then c.shut else c.afterSend env response) [] := by
  simp only [sendResponse, hc]
  split
  · exact put_close hc hopen
  · exact put_set w i rfl rfl hopen

theorem put_hand (w : Worker Addr Body) (i : Nat) (hopen : c.closed = false) (request : Request Body) :
    Put w { w.setConnection i { c with phase := .pending, timer := false, exchanges := c.exchanges + 1 } with
      exchanges := w.exchanges ++ [⟨i, c.exchanges + 1, request, false⟩] } i c
      { c with phase := .pending, timer := false, exchanges := c.exchanges + 1 } [⟨i,
        c.exchanges + 1, request, false⟩] where
  connections := rfl
  perPeer := by
    rw [hopen]
    rfl
  config := rfl
  localAddress := rfl
  exchanges := rfl
  mailbox := rfl
  given := rfl
  peer := rfl
  address := rfl

variable [DecidableEq Addr]

theorem put_fail (hc : w.connections[i]? = some c) (hopen : c.closed = false) :
    Put w (w.fail env i) i c c.shut [] := by
  simp only [fail, hc]
  split
  · exact put_close hc hopen
  · have hput := put_close (w := w.noteFailure c.peer) hc hopen
    exact ⟨hput.connections, hput.perPeer, hput.config, hput.localAddress, hput.exchanges,
      hput.mailbox, hput.given, rfl, rfl⟩

end

/-! ## What is kept -/

section
variable {env : Env Addr Body} {given : List (Answer Body)} {i : Nat} {c : Connection Addr}

variable {plaintext : Bytes}

theorem Answers.mono {n : Nat} {sent : Bytes} (h : Answers env given i n plaintext sent) (more : List (Answer Body)) :
    Answers env (given ++ more) i n plaintext sent := by
  unfold Answers at h ⊢
  split
  · rename_i error herror
    rwa [herror] at h
  rename_i request hok
  rw [hok] at h
  obtain ⟨response, hmem, hsent⟩ := h
  exact ⟨response, mem_append_left _ hmem, hsent⟩

variable (h : ConnOk env given i c)

include h

theorem ConnOk.mono (more : List (Answer Body)) : ConnOk env (given ++ more) i c :=
  { h with
    answers := by
      intro j frame hframe
      obtain ⟨plaintext, hp, hans⟩ := h.answers j frame hframe
      exact ⟨plaintext, hp, hans.mono more⟩ }

theorem ConnOk.close : ConnOk env given i c.shut where
  peer := h.peer
  seals := h.seals
  opens := h.opens
  attempts := h.attempts.imp_right (fun ha => ⟨rfl, ha.2⟩)
  opened := h.opened
  authentic := h.authentic
  bound := h.bound
  exchanges := h.exchanges
  order := h.order
  pending := h.pending
  free _ hopen := by cases hopen
  answers := h.answers
  output := h.output

/-- What is read off the socket, or comes in on it. -/
theorem ConnOk.reading (header body input arrived : Bytes) (length unwritten : Nat) :
    ConnOk env given i { c with
      header := header, body := body, input := input, arrived := arrived, length := length, unwritten := unwritten } :=
  ⟨h.peer, h.seals, h.opens, h.attempts, h.opened, h.authentic, h.bound, h.exchanges, h.order,
   h.pending, h.free, h.answers,
    h.output⟩

omit h

/-- One more answer: the frames before it keep theirs. -/
theorem numberAt_append (opened more : List Bytes) {j : Nat} (hj : j < opened.length) :
    numberAt env (opened ++ more) j = numberAt env opened j := by
  rw [numberAt, take_append_of_le_length (by omega), numberAt]

theorem numberAt_last {opened : List Bytes} {j : Nat} (hj : opened.length = j + 1) :
    numberAt env opened j = opened.countP (parses env) := by
  rw [numberAt, take_of_length_le (by omega)]

/-- A request that is answered. -/
theorem ConnOk.send (h : ConnOk env given i c.shut) (hattempts : c.opens.length = c.received)
    (hroom : c.sent ≠ kMaxCounter) (hwait : c.received = c.sent + 1)
    (hlast : (c.opened env)[c.sent]? = some plaintext) {response : Response Body}
    (hanswer : Answers env given i c.exchanges plaintext (env.fit response)) :
    ConnOk env given i (c.afterSend env response) where
  peer := h.peer
  seals := by
    show (c.seals ++ [(⟨c.s2c, c.sent, env.fit response⟩ : SealCall)]).map (·.counter) = range (c.sent + 1)
    rw [map_append, h.seals, range_succ]
    rfl
  opens := h.opens
  attempts := .inl hattempts
  opened := h.opened
  authentic := h.authentic
  bound := ⟨h.bound.1, by show c.sent + 1 ≤ kMaxCounter; have : c.sent ≤ kMaxCounter := h.bound.2; omega⟩
  exchanges := h.exchanges
  order := by
    show c.sent + 1 ≤ c.received ∧ c.received ≤ c.sent + 1 + 1
    omega
  pending hp := by cases hp
  free _ _ := hwait
  answers := by
    intro j call hcall
    have hlen : c.seals.length = c.sent := by
      have := congrArg length h.seals
      rwa [length_map, length_range] at this
    have hcall : (c.seals ++ [⟨c.s2c, c.sent, env.fit response⟩])[j]? = some call := hcall
    by_cases hj : j < c.seals.length
    · rw [getElem?_append_left hj] at hcall
      exact h.answers j call hcall
    rw [getElem?_append_right (by omega)] at hcall
    have hjs : j = c.sent := by
      have := (List.getElem?_eq_some_iff.mp hcall).1
      simp only [length_singleton] at this
      omega
    subst hjs
    rw [hlen, Nat.sub_self] at hcall
    cases hcall
    refine ⟨plaintext, hlast, ?_⟩
    have hopened : (c.opened env).length = c.sent + 1 := by
      rw [← hwait]
      exact h.opened
    have hexchanges : c.exchanges = (c.opened env).countP (parses env) := h.exchanges
    show Answers env given i (numberAt env (c.opened env) c.sent) plaintext (env.fit response)
    rw [numberAt_last hopened, ← hexchanges]
    exact hanswer
  output := by
    show c.output ++ _ = c.serverRandom ++ (c.seals ++ [(⟨c.s2c, c.sent, env.fit response⟩ : SealCall)]).flatMap _
    rw [h.output, flatMap_append, append_assoc, flatMap_singleton]

theorem ConnOk.sealed (hok : ConnOk env given i c) : c.seals.length = c.sent := by
  have := congrArg length hok.seals
  rwa [length_map, length_range] at this

theorem ConnOk.failed (hok : ConnOk env given i c) {k : Nat} {call : OpenCall} (hcall : c.opens[k]? = some call)
    (hnone : call.plaintext env = none) : c.closed = true ∧ k + 1 = c.opens.length := by
  have hlt := (List.getElem?_eq_some_iff.mp hcall).1
  have hlast : c.received ≤ k := by
    by_contra hbefore
    have htaken : (c.opens.take c.received)[k]? = some call := by rwa [getElem?_take_of_lt (by omega)]
    exact hok.authentic call (mem_of_getElem? htaken) hnone
  rcases hok.attempts with hall | ⟨hclosed, hone⟩
  · omega
  · exact ⟨hclosed, by omega⟩

/-- A connection that may open its next frame. -/
structure Ready (env : Env Addr Body) (given : List (Answer Body)) (i : Nat) (c : Connection Addr) : Prop where
  ok : ConnOk env given i c
  attempts : c.opens.length = c.received
  free : c.received = c.sent
  phase : c.phase ≠ .pending
  room : c.received ≠ kMaxCounter

theorem ConnOk.ready (h : ConnOk env given i c) (hopen : c.closed = false) (hphase : c.phase ≠ .pending)
    (hroom : c.received ≠ kMaxCounter) : Ready env given i c := by
  refine ⟨h, ?_, h.free hphase hopen, hphase, hroom⟩
  rcases h.attempts with ha | ⟨hc, _⟩
  · exact ha
  · rw [hopen] at hc
    cases hc

variable {call : OpenCall}

theorem Ready.opens (h : Ready env given i c) (hcounter : call.counter = c.received) :
    (c.opens ++ [call]).length = c.received + 1 ∧ (c.opens ++ [call]).length ≤ kMaxCounter ∧
      (c.opens ++ [call]).map (·.counter) = range (c.opens ++ [call]).length := by
  have hlen : (c.opens ++ [call]).length = c.received + 1 := by
    rw [length_append, h.attempts]
    rfl
  have hbound := h.ok.bound.1
  have hattempts := h.attempts
  have hroom := h.room
  refine ⟨hlen, by omega, ?_⟩
  rw [hlen, range_succ, map_append, h.ok.opens, h.attempts, map_singleton, hcounter]

theorem opened_failed (hnone : call.plaintext env = none) :
    Connection.opened env { c with opens := c.opens ++ [call] } = c.opened env := by
  show (c.opens ++ [call]).filterMap _ = c.opens.filterMap _
  rw [filterMap_append, filterMap_cons, hnone]
  exact append_nil _

/-- The next frame does not authenticate. -/
theorem Ready.failed (h : Ready env given i c) (hcounter : call.counter = c.received)
    (hnone : call.plaintext env = none) :
    ConnOk env given i (Connection.shut { c with opens := c.opens ++ [call] }) := by
  have hopened : Connection.opened env (Connection.shut { c with opens := c.opens ++ [call] }) = c.opened env :=
    opened_failed hnone
  obtain ⟨hlen, hbound, hcounters⟩ := h.opens hcounter
  refine ⟨h.ok.peer, h.ok.seals, hcounters, .inr ⟨rfl, hlen⟩, ?_, ?_, ⟨hbound, h.ok.bound.2⟩, ?_,
    h.ok.order, h.ok.pending,
    (fun _ hc => by cases hc), ?_, h.ok.output⟩
  · rw [hopened]
    exact h.ok.opened
  · show ∀ call' ∈ (c.opens ++ [call]).take c.received, call'.plaintext env ≠ none
    rw [take_append_of_le_length h.attempts.ge]
    exact h.ok.authentic
  · rw [hopened]
    exact h.ok.exchanges
  · rw [hopened]
    exact h.ok.answers

/-- A frame that was opened, before its request is handled. -/
def Connection.afterOpen (c : Connection Addr) (call : OpenCall) : Connection Addr :=
  { c with opens := c.opens ++ [call], received := c.received + 1 }

theorem opened_afterOpen (hopened : call.plaintext env = some plaintext) :
    (c.afterOpen call).opened env = c.opened env ++ [plaintext] := by
  show (c.opens ++ [call]).filterMap _ = c.opens.filterMap _ ++ _
  rw [filterMap_append, filterMap_cons, hopened]
  rfl

/-- The request of a frame that was opened is pending, or the connection is closed. -/
theorem Ready.opened (h : Ready env given i c) (hcounter : call.counter = c.received)
    (hopened : call.plaintext env = some plaintext) {exchanges : Nat} {closed : Bool} {phase : Phase}
    (hexchanges : exchanges = c.exchanges + [plaintext].countP (parses env)) (hnext : phase = .pending ∨ closed = true) :
    ConnOk env given i
      { c.afterOpen call with exchanges := exchanges, closed := closed, phase := phase, timer := false } where
  peer := h.ok.peer
  seals := h.ok.seals
  opens := (h.opens hcounter).2.2
  attempts := .inl (h.opens hcounter).1
  opened := by
    show ((c.afterOpen call).opened env).length = c.received + 1
    rw [opened_afterOpen hopened, length_append, h.ok.opened]
    rfl
  authentic := by
    show ∀ call' ∈ (c.opens ++ [call]).take (c.received + 1), call'.plaintext env ≠ none
    rw [take_of_length_le (h.opens hcounter).1.le]
    intro call' hcall
    rcases mem_append.mp hcall with hold | hnew
    · refine h.ok.authentic call' ?_
      rwa [take_of_length_le h.attempts.le]
    · rw [mem_singleton.mp hnew, hopened]
      exact Option.some_ne_none _
  bound := ⟨(h.opens hcounter).2.1, h.ok.bound.2⟩
  exchanges := by
    show exchanges = ((c.afterOpen call).opened env).countP (parses env)
    rw [opened_afterOpen hopened, countP_append, hexchanges, h.ok.exchanges]
  order := by
    have hfree := h.free
    show c.sent ≤ c.received + 1 ∧ c.received + 1 ≤ c.sent + 1
    omega
  pending _ := by
    show c.received + 1 = c.sent + 1
    rw [h.free]
  free hp hopen := by
    rcases hnext with hpending | hclosed
    · exact absurd hpending hp
    · exact absurd (hclosed.symm.trans hopen) (by simp)
  answers := by
    intro j sent hsent
    obtain ⟨p, hp, hans⟩ := h.ok.answers j sent hsent
    have hj := (List.getElem?_eq_some_iff.mp hp).1
    show ∃ p, ((c.afterOpen call).opened env)[j]? = some p ∧
      Answers env given i (numberAt env ((c.afterOpen call).opened env) j) p _
    rw [opened_afterOpen hopened, numberAt_append _ [plaintext] hj, List.getElem?_append_left hj]
    exact ⟨p, hp, hans⟩
  output := h.ok.output

theorem Ready.handed (h : Ready env given i c) (hcounter : call.counter = c.received)
    (hopened : call.plaintext env = some plaintext) (hparses : parses env plaintext = true) :
    ConnOk env given i { c.afterOpen call with phase := .pending, timer := false, exchanges := c.exchanges + 1 } :=
  h.opened hcounter hopened (by rw [countP_singleton, if_pos hparses]) (.inl rfl)

/-- A frame that holds no request. -/
theorem Ready.refused (h : Ready env given i c) (hcounter : call.counter = c.received)
    (hopened : call.plaintext env = some plaintext) (hparses : parses env plaintext = false) :
    ConnOk env given i (c.afterOpen call).shut :=
  h.opened hcounter hopened (by rw [countP_singleton, hparses]; rfl) (.inr rfl)

/-! ### The bytes that came in -/

theorem Framed.arrives (h : Framed c) (chunk : Bytes) (unwritten : Nat) :
    Framed { c with input := c.input ++ chunk, arrived := c.arrived ++ chunk, unwritten := unwritten } where
  arrived := by
    obtain ⟨hello, harrived, hphase⟩ := h.arrived
    exact ⟨hello, by simp only [harrived, append_assoc], hphase⟩
  frames := h.frames
  next := h.next

theorem Framed.same {c' : Connection Addr} (h : Framed c) (hphase : c.phase ≠ .hello) (hphase' : c'.phase ≠ .hello)
    (heq : (c'.arrived, c'.opens, c'.header, c'.body, c'.input, c'.length) =
      (c.arrived, c.opens, c.header, c.body, c.input, c.length)) : Framed c' := by
  simp only [Prod.mk.injEq] at heq
  obtain ⟨harrived, hopens, hheader, hbody, hinput, hlength⟩ := heq
  obtain ⟨hello, hall, hhello⟩ := h.arrived
  rw [if_neg hphase] at hhello
  refine ⟨⟨hello, ?_, ?_⟩, ?_, ?_⟩
  · rw [harrived, hopens, hheader, hbody, hinput, hall]
  · rw [if_neg hphase']
    exact hhello
  · rw [hopens]
    exact h.frames
  · rw [hheader, hbody, hlength]
    exact h.next

theorem Framed.hello (h : Framed c) (hphase : c.phase = .hello) (hlong : kClientHelloSize ≤ c.input.length)
    (hversion : (c.input.take kClientHelloSize).head? = some kProtocolVersion) (c2s s2c : Bytes) (timer : Bool) :
    Framed { c with input := c.input.drop kClientHelloSize, c2s := c2s, s2c := s2c, phase := .ready, timer := timer } := by
  obtain ⟨hello, hall, hhello⟩ := h.arrived
  have hnext := h.next
  rw [if_pos hphase] at hhello
  obtain ⟨rfl, hopens, hheader⟩ := hhello
  rw [if_pos hheader] at hnext
  refine ⟨⟨c.input.take kClientHelloSize, ?_, ?_⟩, h.frames, h.next⟩
  · simp only [hall, hopens, hheader, hnext, flatMap_nil, nil_append, take_append_drop]
  · rw [if_neg (by simp)]
    exact ⟨length_take_of_le hlong, hversion⟩

theorem header_ne {input : Bytes} (hlong : kFrameHeaderSize ≤ input.length) : input.take kFrameHeaderSize ≠ [] := by
  intro hnil
  have hsize := length_take_of_le hlong
  rw [hnil] at hsize
  cases hsize

theorem Framed.header (h : Framed c) (hnone : c.header = []) (hlong : kFrameHeaderSize ≤ c.input.length)
    (hlength : kTagSize ≤ beNat (c.input.take kFrameHeaderSize) ∧
      beNat (c.input.take kFrameHeaderSize) ≤ kMaxClientFrame)
    (hphase : c.phase ≠ .hello) :
    Framed { c with header := c.input.take kFrameHeaderSize, length := beNat (c.input.take kFrameHeaderSize),
                    input := c.input.drop kFrameHeaderSize } := by
  obtain ⟨hello, hall, hhello⟩ := h.arrived
  have hnext := h.next
  rw [if_pos hnone] at hnext
  rw [if_neg hphase] at hhello
  have hsize : (c.input.take kFrameHeaderSize).length = kFrameHeaderSize := length_take_of_le hlong
  refine ⟨⟨hello, ?_, ?_⟩, h.frames, ?_⟩
  · simp only [hall, hnone, hnext, nil_append, take_append_drop]
  · rw [if_neg hphase]
    exact hhello
  · rw [if_neg (header_ne hlong)]
    exact ⟨⟨hsize, hlength⟩, rfl, by rw [hnext]; exact zero_le _⟩

theorem Framed.body (h : Framed c) (hheader : c.header ≠ []) :
    Framed { c with body := c.body ++ c.input.take (c.length - c.body.length), input := c.input.drop (c.length - c.body.length) } := by
  obtain ⟨hello, hall, hhello⟩ := h.arrived
  have hnext := h.next
  rw [if_neg hheader] at hnext
  refine ⟨⟨hello, ?_, hhello⟩, h.frames, ?_⟩
  · simp only [hall, append_assoc, take_append_drop]
  · rw [if_neg hheader]
    refine ⟨hnext.1, hnext.2.1, ?_⟩
    simp only [length_append, length_take]
    omega

theorem Framed.opened (h : Framed c) (hheader : c.header ≠ []) (hphase : c.phase ≠ .hello)
    (hwhole : ¬c.body.length < c.length) (key : Bytes) (counter received : Nat) :
    Framed { c with header := [], body := [], opens := c.opens ++ [⟨key, counter, c.header, c.body⟩], received := received } := by
  obtain ⟨hello, hall, hhello⟩ := h.arrived
  have hnext := h.next
  rw [if_neg hheader] at hnext
  rw [if_neg hphase] at hhello
  refine ⟨⟨hello, ?_, ?_⟩, ?_, ?_⟩
  · simp only [hall, flatMap_append, flatMap_singleton, append_assoc, nil_append]
  · rw [if_neg hphase]
    exact hhello
  · intro call hcall
    rcases mem_append.mp hcall with hold | hnew
    · exact h.frames call hold
    · rw [mem_singleton.mp hnew]
      exact ⟨hnext.1, by rw [← hnext.2.1]; exact le_antisymm hnext.2.2 (Nat.not_lt.mp hwhole)⟩
  · rw [if_pos rfl]

end


/-! ## One connection moves -/

section
variable {env : Env Addr Body} {w w' : Worker Addr Body} {i : Nat} {c c' : Connection Addr}
  {handed : List (Exchange Body)}

/-- A move of one connection that keeps the invariant. -/
structure Moves (env : Env Addr Body) (w w' : Worker Addr Body) (i : Nat) (c c' : Connection Addr)
    (handed : List (Exchange Body)) : Prop where
  put : Put w w' i c c' handed
  ok : ConnOk env w.given i c'
  last : LastParses env c'
  framed : c'.closed = false → Framed c'
  grows : ∃ more, c'.opened env = c.opened env ++ more
  handed : (handed = [] ∧ c'.exchanges = c.exchanges) ∨
    ∃ request, handed = [⟨i, c.exchanges + 1, request, false⟩] ∧ c'.exchanges = c.exchanges + 1 ∧
      Handed env ⟨i, c.exchanges + 1, request, false⟩ c'

variable (h : Moves env w w' i c c' handed)

include h

theorem Moves.perPeer (hc : w.connections[i]? = some c) (hopen : c.closed = false)
    (hcount : ∀ p, w.perPeer p = w.connections.countP (fun c => !c.closed && c.peer == p)) (p : String) :
    w'.perPeer p = w'.connections.countP (fun c => !c.closed && c.peer == p) := by
  have hset := countP_set_of_getElem? (fun c : Connection Addr => !c.closed && c.peer == p) w.connections i c c' hc
  have hold : (!c.closed && c.peer == p) = (c.peer == p) := by rw [hopen]; rfl
  have hnew : (!c'.closed && c'.peer == p) = (!c'.closed && c.peer == p) := by rw [h.put.peer]
  rw [h.put.connections, h.put.perPeer]
  rw [hold, hnew, ← hcount p] at hset
  cases hclosed : c'.closed with
  | false =>
    rw [hclosed, Bool.not_false, Bool.true_and] at hset
    show w.perPeer p = _
    omega
  | true =>
    rw [hclosed, Bool.not_true, Bool.false_and] at hset
    show update w.perPeer c.peer (w.perPeer c.peer - 1) p = _
    by_cases hp : c.peer = p
    · rw [hp, update_self]
      rw [if_pos (by simpa using hp)] at hset
      simp only [false_eq_true, if_false] at hset
      omega
    · rw [update_of_ne (fun heq => hp heq.symm)]
      rw [if_neg (by simpa using hp)] at hset
      simp only [false_eq_true, if_false] at hset
      omega

theorem Moves.keeps_handed {x : Exchange Body} (hx : Handed env x c) : Handed env x c' := by
  obtain ⟨hle, j, plaintext, request, hj, hparse, hnumber, hrequest⟩ := hx
  obtain ⟨more, hmore⟩ := h.grows
  have hlt := (List.getElem?_eq_some_iff.mp hj).1
  refine ⟨?_, j, plaintext, request, ?_, hparse, ?_, ?_⟩
  · rcases h.handed with ⟨_, he⟩ | ⟨_, _, he, _⟩
    · omega
    · omega
  · rw [hmore, List.getElem?_append_left hlt]
    exact hj
  · rw [hmore, numberAt_append _ more hlt]
    exact hnumber
  · rw [h.put.peer]
    exact hrequest

theorem Moves.core (hcore : Core env w) (hc : w.connections[i]? = some c)
    (hopen : c.closed = false) : Core env w' where
  conn := by
    intro j d hd
    rw [h.put.given]
    by_cases heq : j = i
    · subst heq
      rw [h.put.getElem? hc] at hd
      cases hd
      exact ⟨h.ok, h.last, h.framed⟩
    · rw [h.put.connections, getElem?_set_ne (fun h' => heq h'.symm)] at hd
      exact hcore.conn j d hd
  perPeer := h.perPeer hc hopen hcore.perPeer
  mail := by rw [h.put.mailbox, h.put.given]; exact hcore.mail
  given := by rw [h.put.given]; exact hcore.given
  answered := by
    intro a ha
    rw [h.put.given] at ha
    obtain ⟨x, hx, hrest⟩ := hcore.answered a ha
    exact ⟨x, by rw [h.put.exchanges]; exact mem_append_left _ hx, hrest⟩
  exchanges := by
    rw [h.put.exchanges]
    rcases h.handed with ⟨hnil, _⟩ | ⟨request, hone, _, _⟩
    · rw [hnil, append_nil]
      exact hcore.exchanges
    -- the number is one that this connection has not given out
    rw [hone, map_append, nodup_append]
    refine ⟨hcore.exchanges, by simp, ?_⟩
    intro key hkey key' hkey' heq
    obtain ⟨x, hx, rfl⟩ := mem_map.mp hkey
    rw [map_singleton, mem_singleton] at hkey'
    rw [hkey', Prod.mk.injEq] at heq
    dsimp only at heq
    obtain ⟨d, hd, hle, _⟩ := hcore.handed x hx
    rw [heq.1, hc] at hd
    cases hd
    omega
  handed := by
    intro x hx
    rw [h.put.exchanges] at hx
    rcases mem_append.mp hx with hx | hx
    · obtain ⟨d, hd, hhanded⟩ := hcore.handed x hx
      by_cases heq : x.connection = i
      · rw [heq, hc] at hd
        cases hd
        exact ⟨c', by rw [heq]; exact h.put.getElem? hc, h.keeps_handed hhanded⟩
      · exact ⟨d, by rw [h.put.connections, getElem?_set_ne (fun h' => heq h'.symm)]; exact hd, hhanded⟩
    · rcases h.handed with ⟨hnil, _⟩ | ⟨request, hone, _, hhanded⟩
      · rw [hnil] at hx
        cases hx
      rw [hone, mem_singleton] at hx
      subst hx
      exact ⟨c', h.put.getElem? hc, hhanded⟩

omit h

/-! ## What the worker does with a connection -/

theorem moves_close (hinv : Core env w) (hc : w.connections[i]? = some c) (hopen : c.closed = false) :
    Moves env w (w.closeConnection i) i c c.shut [] :=
  ⟨put_close hc hopen, (hinv.conn i c hc).1.close, (hinv.conn i c hc).2.1, (fun h => by cases h),
    ⟨[], (append_nil _).symm⟩, .inl ⟨rfl, rfl⟩⟩

theorem close_cases (hcore : Core env w) (i : Nat) :
    (w.closeConnection i = w ∧ ∀ c, w.connections[i]? = some c → c.closed = true) ∨ ∃ c,
      w.connections[i]? = some c ∧ c.closed = false ∧
      Moves env w (w.closeConnection i) i c c.shut [] := by
  cases hc : w.connections[i]? with
  | none => exact .inl ⟨by rw [closeConnection, hc], by simp⟩
  | some c =>
    cases hopen : c.closed with
    | true => exact .inl ⟨by simp only [closeConnection, hc, hopen, if_true], by simp [hopen]⟩
    | false => exact .inr ⟨c, rfl, hopen, moves_close hcore hc hopen⟩

theorem moves_send (hinv : Core env w) (hc : w.connections[i]? = some c) (hopen : c.closed = false)
    (hphase : c.phase = .pending) {response : Response Body} (hgiven : ⟨i, c.exchanges, response⟩ ∈ w.given) :
    ∃ c', Moves env w (w.sendResponse env i response) i c c' [] := by
  obtain ⟨hok, hlast, hframed⟩ := hinv.conn i c hc
  have hput := put_send env hc hopen response
  refine ⟨_, hput, ?_, ?_, ?_, ⟨[], ?_⟩, .inl ⟨rfl, ?_⟩⟩
  · split
    · exact hok.close
    rename_i hroom
    obtain ⟨plaintext, hp, hparses⟩ := hlast hphase
    have hattempts : c.opens.length = c.received := by
      rcases hok.attempts with ha | ⟨hclosed, _⟩
      · exact ha
      · rw [hopen] at hclosed
        cases hclosed
    refine hok.close.send hattempts hroom (hok.pending hphase) hp ?_
    unfold Answers
    unfold parses at hparses
    cases hparse : env.parseRequest plaintext with
    | error error =>
      rw [hparse] at hparses
      cases hparses
    | ok request => exact ⟨response, hgiven, rfl⟩
  · split
    · exact hlast
    · intro hp
      cases hp
  · split
    · intro hclosed
      cases hclosed
    · exact fun _ => (hframed hopen).same (by simp [hphase]) (by simp [Connection.afterSend]) rfl
  · split
    · exact (append_nil _).symm
    · exact (append_nil _).symm
  · split
    · rfl
    · rfl

/-- A connection that has just been admitted. -/
theorem connOk_new (given : List (Answer Body)) (i : Nat) (address : Addr) (random : Bytes) :
    ConnOk env given i
      { address, peer := env.text address, serverRandom := random, unwritten := random.length, output := random } where
  peer := rfl
  seals := rfl
  opens := rfl
  attempts := .inl rfl
  opened := rfl
  authentic call hcall := by cases hcall
  bound := ⟨zero_le _, zero_le _⟩
  exchanges := rfl
  order := ⟨.refl, zero_le _⟩
  pending hp := by cases hp
  free _ _ := rfl
  answers j call hcall := by
    cases hcall
  output := (append_nil _).symm

theorem framed_new (address : Addr) (peer : String) (random : Bytes) (unwritten : Nat) :
    Framed { address, peer, serverRandom := random, unwritten, output := random } :=
  ⟨⟨[], rfl, rfl, rfl, rfl⟩, by simp, rfl⟩

/-! ## Input -/

variable [DecidableEq Addr]

theorem moves_fail (hc : w.connections[i]? = some c) (hpeer : c'.peer = c.peer) (haddress : c'.address = c.address)
    (hopen : c'.closed = false) (hexchanges : c'.exchanges = c.exchanges) (hopened : c'.opened env = c.opened env)
    (hok : ConnOk env w.given i c'.shut) (hlast : LastParses env c') :
    Moves env w ((w.setConnection i c').fail env i) i c c'.shut [] := by
  have hset := put_set w i hpeer haddress hopen
  exact ⟨hset.trans hopen (put_fail env (hset.getElem? hc) hopen), hok, hlast, (fun h => by cases h),
    ⟨[], hopened.trans (append_nil _).symm⟩, .inl ⟨rfl, hexchanges⟩⟩

theorem hello_moves (hcore : Core env w) (hc : w.connections[i]? = some c) (hopen : c.closed = false)
    (hphase : c.phase = .hello) :
    (w.readHello env i c).1 = w ∨ ∃ c' handed, Moves env w (w.readHello env i c).1 i c c' handed := by
  obtain ⟨hok, hlast, hframed⟩ := hcore.conn i c hc
  unfold readHello
  split
  · exact .inl rfl
  right
  dsimp only
  split
  · have hread := hok.reading c.header c.body (c.input.drop kClientHelloSize) c.arrived c.length c.unwritten
    exact ⟨_, [], moves_fail hc rfl rfl hopen rfl rfl hread.close hlast⟩
  rename_i hversion
  refine ⟨_, [], put_set w i rfl rfl hopen, ?_, (fun hp => by cases hp),
    fun _ => (hframed hopen).hello hphase (by omega) (not_not.mp hversion) _ _ _,
      ⟨[], (append_nil _).symm⟩, .inl ⟨rfl, rfl⟩⟩
  exact ⟨hok.peer, hok.seals, hok.opens, hok.attempts, hok.opened, hok.authentic, hok.bound, hok.exchanges, hok.order,
    (fun hp => by cases hp), fun _ => hok.free (by simp [hphase]), hok.answers, hok.output⟩

theorem handle_moves {c₁ : Connection Addr} {call : OpenCall} {plaintext : Bytes} (hready : Ready env w.given i c₁)
    (hcounter : call.counter = c₁.received) (hplain : call.plaintext env = some plaintext) (hopen : c₁.closed = false)
    (hphase : c₁.phase ≠ .hello) (hframed : Framed (c₁.afterOpen call))
    (hc : w.connections[i]? = some c) (hexchanges : c₁.exchanges = c.exchanges) (hopened : c₁.opened env = c.opened env)
    {w₁ : Worker Addr Body} (hput : Put w w₁ i c (c₁.afterOpen call) []) :
    ∃ c' handed, Moves env w (w₁.handleRequest env i plaintext) i c c' handed := by
  have hget := hput.getElem? hc
  have hafter : (c₁.afterOpen call).opened env = c₁.opened env ++ [plaintext] := opened_afterOpen hplain
  have hlen : (c₁.opened env).length = c₁.sent := by
    rw [← hready.free]
    exact hready.ok.opened
  have hlast : ((c₁.afterOpen call).opened env)[(c₁.afterOpen call).sent]? = some plaintext := by
    show ((c₁.afterOpen call).opened env)[c₁.sent]? = some plaintext
    rw [hafter, ← hlen, List.getElem?_append_right .refl, Nat.sub_self]
    rfl
  have hgrows : (c₁.afterOpen call).opened env = c.opened env ++ [plaintext] := by rw [hafter, hopened]
  unfold handleRequest
  cases hparse : env.parseRequest plaintext with
  | error error =>
    have hparses : parses env plaintext = false := by simp [parses, hparse]
    have hrefused := hready.refused hcounter hplain hparses
    refine ⟨_, [], hput.trans hopen (put_send env hget hopen _), ?_, ?_, ?_, ⟨[plaintext], ?_⟩, .inl ⟨rfl, ?_⟩⟩
    · split
      · exact hrefused
      rename_i hroom
      refine hrefused.send (hready.opens hcounter).1 hroom ?_ hlast ?_
      · show c₁.received + 1 = c₁.sent + 1
        rw [hready.free]
      · unfold Answers
        rw [hparse]
    · split
      · exact fun hp => absurd hp hready.phase
      · exact fun hp => by cases hp
    · split
      · intro hclosed
        cases hclosed
      · exact fun _ => hframed.same hphase (by simp [Connection.afterSend]) rfl
    · split
      · exact hgrows
      · exact hgrows
    · split
      · exact hexchanges
      · exact hexchanges
  | ok request =>
    have hparses : parses env plaintext = true := by simp [parses, hparse]
    simp only [hget]
    have hcount : ((c₁.afterOpen call).opened env).countP (parses env) = c.exchanges + 1 := by
      rw [hafter, countP_append, countP_singleton, if_pos hparses, ← hready.ok.exchanges, hexchanges]
    refine ⟨_, _, hput.trans hopen (put_hand (c := c₁.afterOpen call) w₁ i hopen _),
      hready.handed hcounter hplain hparses,
      fun _ => ⟨plaintext, hlast, hparses⟩, fun _ => hframed.same hphase (by simp) rfl, ⟨[plaintext], hgrows⟩,
      .inr ⟨_, by rw [← hexchanges]; rfl, by rw [← hexchanges]; rfl, ?_⟩⟩
    refine ⟨le_of_eq ?_, c₁.sent, plaintext, request, hlast, hparse, ?_, rfl⟩
    · show c.exchanges + 1 = c₁.exchanges + 1
      rw [hexchanges]
    · show numberAt env ((c₁.afterOpen call).opened env) c₁.sent = c.exchanges + 1
      rw [numberAt_last (by rw [hafter, length_append, hlen]; rfl), hcount]

theorem body_moves (hcore : Core env w) (hc : w.connections[i]? = some c) (hopen : c.closed = false)
    (hphase : c.phase = .ready) (header input : Bytes) (length : Nat) (hheader : header ≠ [])
    (hframed : Framed { c with header := header, length := length, input := input }) :
    ∃ c' handed, Moves env w (w.readBody env i { c with header := header, length := length, input := input }).1 i c c' handed := by
  obtain ⟨hok, hlast, -⟩ := hcore.conn i c hc
  have hnot : c.phase ≠ .pending := by simp [hphase]
  have hhello : c.phase ≠ .hello := by simp [hphase]
  have hlast' : ∀ c' : Connection Addr, c'.phase = c.phase → LastParses env c' :=
    fun c' heq hp => absurd (heq.symm.trans hp) hnot
  have hbody := hframed.body hheader
  unfold readBody
  dsimp only
  split
  · exact ⟨_, [], put_set w i rfl rfl hopen, hok.reading header _ _ c.arrived length c.unwritten,
      hlast' _ rfl, fun _ => hbody,
      ⟨[], (append_nil _).symm⟩, .inl ⟨rfl, rfl⟩⟩
  rename_i hwhole
  split
  · have hset : Put w (w.setConnection i { c with
        header := header, length := length, body := c.body ++ input.take (length - c.body.length),
        input := input.drop (length - c.body.length) }) i c _ [] := put_set w i rfl rfl hopen
    exact ⟨_, [], hset.trans hopen (put_close (hset.getElem? hc) hopen),
      (hok.reading header _ _ c.arrived length c.unwritten).close,
      hlast' _ rfl, (fun h => by cases h), ⟨[], (append_nil _).symm⟩, .inl ⟨rfl, rfl⟩⟩
  rename_i hroom
  have hready := (hok.reading [] [] (input.drop (length - c.body.length)) c.arrived length c.unwritten).ready hopen hnot hroom
  split
  · rename_i hnone
    exact ⟨_, [], moves_fail hc rfl rfl hopen rfl (opened_failed hnone) (hready.failed rfl hnone) (hlast' _ rfl)⟩
  rename_i plaintext hplain
  have hset : Put w _ i c (Connection.afterOpen { c with
      header := [], body := [], input := input.drop (length - c.body.length), length := length }
    ⟨c.c2s, c.received, header, c.body ++ input.take (length - c.body.length)⟩) [] := put_set w i rfl rfl hopen
  refine handle_moves hready rfl hplain hopen hhello (hbody.opened hheader hhello hwhole _ _ _) hc rfl rfl ?_
  split
  · exact hset
  · exact ⟨hset.connections, hset.perPeer, hset.config, hset.localAddress, hset.exchanges, hset.mailbox, hset.given, rfl,
      rfl⟩

/-- **One round.** -/
theorem round_moves (hcore : Core env w) (hc : w.connections[i]? = some c) :
    (w.inputRound env i c).1 = w ∨
      c.closed = false ∧ ∃ c' handed, Moves env w (w.inputRound env i c).1 i c c' handed := by
  unfold inputRound
  split
  · exact .inl rfl
  rename_i hopen
  have hopen : c.closed = false := by simpa using hopen
  split
  · rename_i hphase
    exact (hello_moves hcore hc hopen hphase).imp_right (fun h => ⟨hopen, h⟩)
  split
  · exact .inl rfl
  rename_i hready
  have hphase : c.phase = .ready := by
    by_contra hne
    exact hready (.inl hne)
  obtain ⟨hok, hlast, hframed⟩ := hcore.conn i c hc
  split
  · rename_i hheader
    split
    · exact .inl rfl
    right
    refine ⟨hopen, ?_⟩
    dsimp only
    split
    · have hread := hok.reading (c.input.take kFrameHeaderSize) c.body (c.input.drop kFrameHeaderSize) c.arrived
        (beNat (c.input.take kFrameHeaderSize)) c.unwritten
      exact ⟨_, [], moves_fail hc rfl rfl hopen rfl rfl hread.close hlast⟩
    · rename_i hlength
      have hlong : kFrameHeaderSize ≤ c.input.length := by omega
      exact body_moves hcore hc hopen hphase _ _ _ (header_ne hlong)
        ((hframed hopen).header hheader hlong ⟨by omega, by omega⟩ (by simp [hphase]))
  · rename_i hheader
    exact .inr ⟨hopen, body_moves hcore hc hopen hphase c.header c.input c.length hheader (hframed hopen)⟩

/-! ## Addresses -/

theorem isAllowed_congr (hconfig : w'.config = w.config) (hlocal : w'.localAddress = w.localAddress) (address : Addr) :
    w'.isAllowed env address = w.isAllowed env address := by
  unfold isAllowed isLocal
  rw [hconfig, hlocal]

theorem Moves.inv (h : Moves env w w' i c c' handed) (hinv : Inv env w) (hc : w.connections[i]? = some c)
    (hopen : c.closed = false) : Goes env w w' := by
  refine ⟨⟨h.core hinv.core hc hopen, ?_⟩, h.put.closedStay hc hopen⟩
  intro j d hd hdopen
  rw [isAllowed_congr h.put.config h.put.localAddress]
  by_cases heq : j = i
  · subst heq
    rw [h.put.getElem? hc] at hd
    cases hd
    rw [h.put.address]
    exact hinv.allowed j c hc hopen
  · rw [h.put.connections, getElem?_set_ne (fun h' => heq h'.symm)] at hd
    exact hinv.allowed j d hd hdopen

end

end Waterdisco.Remote
