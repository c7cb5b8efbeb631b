import Waterdisco.Api.Wire
import Waterdisco.Lib.Runs

/-!
# The channel to the core

`Call` may run on any thread: it draws an id, registers itself in `pending`, posts its
frame to the io thread and waits.  The io thread owns the socket; `Reconnect` posts the
new socket to it and says at once that the channel is connected.

Each section under a lock, each access to an atomic and each task of the io thread is
one event.  An event that cannot happen in a state leaves it as it is.

`connected` is written by `Reconnect` when it is called and by the io thread when the
installed socket disconnects, while the sockets are exchanged in between.
-/

namespace Waterdisco.Api

open Function

/-! ## State -/

/-- How far a `Call` has come. -/
inductive CallPhase where
  | checked
  | drawn
  | registered
  | waiting
  | timedOut
  /-- Someone else took the entry: it waits once more. -/
  | claimed
  | ended (ok : Bool)
  /-- What it returned, and `rsp` if it was assigned. -/
  | returned (code : Int) (rsp : Option Bytes)
deriving DecidableEq

structure Call where
  phase : CallPhase := .checked
  method : Bytes := []
  payload : Bytes := []
  /-- Which draw of `next_id` it got. -/
  number : Option Nat := none
  reqId : UInt32 := 0
  done : Bool := false
  status : UInt8 := 1
  data : Bytes := []

def callNotConnected : Int := -1919

/-- How far the `Reconnect` of a socket has come. -/
inductive Reconnecting where
  | notGiven
  | failing
  | posting
  | storing
  | over
deriving DecidableEq

inductive Task where
  | swap (socket : Nat)
  | write (frame : Bytes)

/-- What the io thread is in the middle of. -/
inductive Io where
  | idle
  | reading
  | handing (call : Nat) (response : Response)
  | failing
deriving DecidableEq

structure Channel where
  calls : Nat → Option Call := fun _ => none
  nextId : Nat := 0
  pending : List (UInt32 × Nat) := []
  connected : Bool := false
  queue : List Task := []
  sock : Option Nat := none
  readBuf : Bytes := []
  io : Io := .idle
  reconnects : Nat → Reconnecting := fun _ => .notGiven
  /-- The socket that was given last. -/
  last : Option Nat := none
  /-- The sockets that have disconnected. -/
  dead : Nat → Bool := fun _ => false
  /-- Every response that was cut off the buffer. -/
  responses : List Response := []
  written : List (Nat × Bytes) := []

/-! ## Events -/

inductive Event where
  | reconnect (socket : Nat)
  | reconnectFail (socket : Nat)
  | reconnectPost (socket : Nat)
  | reconnectStore (socket : Nat)
  | failPending
  | call (c : Nat) (method payload : Bytes)
  | draw (c : Nat)
  | register (c : Nat)
  | post (c : Nat)
  | wake (c : Nat)
  | timeOut (c : Nat)
  | reclaim (c : Nat)
  | finish (c : Nat)
  /-- The io thread runs the next task; `available` is what a new socket brings along. -/
  | task (available : Bytes)
  | readyRead (bytes : Bytes)
  | io
  | disconnected (socket : Nat)

def Call.fail (call : Call) : Call := { call with done := true, status := 1 }

def Call.answer (call : Call) (r : Response) : Call := { call with done := true, status := r.status, data := r.data }

/-- The id of a draw: `next_id` starts at 1 and is cast to 32 bits. -/
def idOf (number : Nat) : UInt32 := UInt32.ofNat (1 + number)

/-- What a `Call` returns after its wait. -/
def Call.outcome (call : Call) (ok : Bool) : CallPhase :=
  if ok then (if call.status = 0 then .returned 0 (some call.data) else .returned 1 (some call.data))
  else .returned 1 none

def frontResponse (buf : Bytes) : Response :=
  ⟨UInt32.ofNat (leNat (buf.take 4)), buf.getD 4 0, (buf.drop 9).take (leNat ((buf.drop 5).take 4))⟩

namespace Channel

def setCall (s : Channel) (c : Nat) (call : Call) : Channel :=
  { s with calls := update s.calls c (some call) }

def moveCall (s : Channel) (c : Nat) (phase : CallPhase) (move : Call → Channel) : Channel :=
  match s.calls c with
  | none => s
  | some call => if call.phase = phase then move call else s

def moveReconnect (s : Channel) (socket : Nat) (phase next : Reconnecting) (move : Channel → Channel) : Channel :=
  if s.reconnects socket = phase then move { s with reconnects := update s.reconnects socket next } else s

def failPending (s : Channel) : Channel :=
  { s with
    calls := fun c => if s.pending.any (fun entry => entry.2 == c) then (s.calls c).map Call.fail else s.calls c
    pending := [] }

def removePending (s : Channel) (id : UInt32) : Channel :=
  { s with pending := s.pending.filter (fun entry => entry.1 != id) }

def runTask (s : Channel) (available : Bytes) : Channel :=
  match s.queue with
  | [] => s
  | .write frame :: rest =>
    { s with queue := rest, written := s.written ++ s.sock.toList.map (fun socket => (socket, frame)) }
  | .swap socket :: rest =>
    { s with
      queue := rest
      sock := some socket
      readBuf := available
      io := if available = [] then .idle else .reading }

/-- One round of `processBuffer` up to the call it finds. -/
def readRound (s : Channel) : Channel :=
  match nextFrame s.readBuf with
  | none => { s with io := .idle }
  | some (r, rest) =>
    let s' := { s with readBuf := rest, responses := s.responses ++ [frontResponse s.readBuf] }
    match s.pending.lookup r.id with
    | none => s'
    | some c => { s'.removePending r.id with io := .handing c r }

def ioStep (s : Channel) : Channel :=
  match s.io with
  | .idle => s
  | .reading => s.readRound
  | .handing c r =>
    match s.calls c with
    | none => { s with io := .reading }
    | some call => { s.setCall c (call.answer r) with io := .reading }
  | .failing => { s.failPending with io := .idle }

def wake (s : Channel) (c : Nat) : Channel :=
  match s.calls c with
  | none => s
  | some call =>
    if call.done = true ∧ (call.phase = .waiting ∨
      call.phase = .claimed) then s.setCall c { call with phase := .ended true }
    else s

def timeOut (s : Channel) (c : Nat) : Channel :=
  match s.calls c with
  | none => s
  | some call =>
    if call.done = true then s
    else if call.phase = .waiting then s.setCall c { call with phase := .timedOut }
    else if call.phase = .claimed then s.setCall c { call with phase := .ended false }
    else s

/-- `disconnected` reaches the channel from the installed socket only. -/
def disconnect (s : Channel) (socket : Nat) : Channel :=
  if s.dead socket then s
  else
    let s' := { s with dead := update s.dead socket true }
    if s.sock = some socket then (if s.io = .idle then { s' with connected := false, io := .failing } else s) else s'

def step (s : Channel) : Event → Channel
  | .reconnect socket => s.moveReconnect socket .notGiven .failing (fun s =>
      { s with connected := false, last := some socket })
  | .reconnectFail socket => s.moveReconnect socket .failing .posting failPending
  | .reconnectPost socket =>
    s.moveReconnect socket .posting .storing (fun s => { s with queue := s.queue ++ [.swap socket] })
  | .reconnectStore socket => s.moveReconnect socket .storing .over (fun s => { s with connected := true })
  | .failPending => s.failPending
  | .call c method payload =>
    if (s.calls c).isSome then s
    else if s.connected then s.setCall c { method := method, payload := payload }
    else s.setCall c { method := method, payload := payload, phase := .returned callNotConnected none }
  | .draw c =>
    s.moveCall c .checked (fun call =>
      { s.setCall c { call with phase := .drawn, number := some s.nextId, reqId := idOf s.nextId } with nextId := s.nextId + 1 })
  | .register c =>
    s.moveCall c .drawn (fun call =>
      { (s.removePending call.reqId).setCall c { call with phase := .registered } with
        pending := (call.reqId, c) :: (s.removePending call.reqId).pending })
  | .post c =>
    s.moveCall c .registered (fun call =>
      { s.setCall c { call with phase := .waiting } with
        queue := s.queue ++ [.write (Request.frame ⟨call.reqId, call.method, call.payload⟩)] })
  | .wake c => s.wake c
  | .timeOut c => s.timeOut c
  | .reclaim c =>
    s.moveCall c .timedOut (fun call =>
      if (s.pending.lookup call.reqId).isSome then (s.removePending call.reqId).setCall c { call with phase := .ended false }
      else s.setCall c { call with phase := .claimed })
  | .finish c =>
    match s.calls c with
    | none => s
    | some call =>
      match call.phase with
      | .ended ok => s.setCall c { call with phase := call.outcome ok }
      | _ => s
  | .task available => if s.io = .idle then s.runTask available else s
  | .readyRead bytes =>
    if s.io = .idle ∧ s.sock.isSome = true then { s with readBuf := s.readBuf ++ bytes, io := .reading } else s
  | .io => s.ioStep
  | .disconnected socket => s.disconnect socket

def run (events : List Event) : Channel := events.foldl step {}

end Channel

end Waterdisco.Api
