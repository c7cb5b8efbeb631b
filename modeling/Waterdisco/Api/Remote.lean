import Waterdisco.Lib.Runs
import Waterdisco.Lib.Words

/-!
# The remote API's worker

One thread owns the listener and the connections.  A connection says hello, and is then
ready for one request at a time; a request that was handed out is answered through a
mailbox, from any thread, late, more than once or not at all.

Connections are numbered in the order in which they were admitted, and keep their place
after they are closed.  The cipher, the hash, addresses and the JSON of requests and
responses are parameters (`Env`).
-/

namespace Waterdisco.Remote

abbrev Bytes := List UInt8

/-! ## Protocol -/

def kProtocolVersion : UInt8 := 1

def kRandomSize : Nat := 16

def kClientHelloSize : Nat := 1 + kRandomSize

def kKeySize : Nat := 32

def kTagSize : Nat := 16

def kFrameHeaderSize : Nat := 4

def kMaxClientFrame : Nat := 2 ^ 20

def kMaxServerFrame : Nat := 64 * 2 ^ 20

/-- The largest frame counter. -/
def kMaxCounter : Nat := 2 ^ 64 - 1

def kMaxConnections : Nat := 32

def kMaxConnectionsPerPeer : Nat := 8

def kFailureLimit : Nat := 5

def kFailureWindowMs : Nat := 60 * 1000

def kRefusalMs : Nat := 60 * 1000

def kAuthExemptMs : Nat := 10 * 60 * 1000

def kMaxTrackedPeers : Nat := 1024

structure Response (Body : Type) where
  status : Nat := 200
  body : Option Body := none
  errorCode : String := ""
  errorMessage : String := ""

def Response.error {Body : Type} (status : Nat) (code message : String) : Response Body :=
  { status := status, errorCode := code, errorMessage := message }

structure Request (Body : Type) where
  method : String
  path : String
  query : List (String × String)
  body : Option Body
  peer : String := ""
  admin : Bool := false

structure Config (Addr : Type) where
  enabled : Bool := false
  lan : Bool := false
  port : Nat := 9095
  key : Bytes := []
  allow : List (Addr × Int) := []
  adminLan : Bool := false
  address : Option Addr := none

/-- What is used of other libraries. -/
structure Env (Addr Body : Type) where
  /-- Ciphertext and tag, from key, nonce, header and plaintext. -/
  aeadWrite : Bytes → Bytes → Bytes → Bytes → Bytes
  aeadRead : Bytes → Bytes → Bytes → Bytes → Option Bytes
  /-- HMAC of a message under a key. -/
  hmac : Bytes → Bytes → Bytes
  parseRequest : Bytes → Except String (Request Body)
  serializeResponse : Response Body → Bytes
  normalizedPeer : Addr → Addr
  text : Addr → String
  isLoopback : Addr → Bool
  /-- One of the addresses that stand for every address. -/
  isEvery : Addr → Bool
  isInSubnet : Addr → Addr × Int → Bool

def beBytes (k n : Nat) : Bytes := (leBytes k n).reverse

def beNat (bytes : Bytes) : Nat := leNat bytes.reverse

def textBytes (s : String) : Bytes := s.toUTF8.toList

/-- The nonce of a frame: four zero bytes, then its counter. -/
def nonce (counter : Nat) : Bytes := List.replicate 4 0 ++ beBytes 8 counter

variable {Addr Body : Type}

namespace Env

variable (env : Env Addr Body)

def deriveKeys (key serverRandom clientRandom : Bytes) : Bytes × Bytes :=
  let randoms := serverRandom ++ clientRandom
  (env.hmac (textBytes "throne-api/1 c2s" ++ randoms) key, env.hmac (textBytes "throne-api/1 s2c" ++ randoms) key)

def sealFrame (key : Bytes) (counter : Nat) (plaintext : Bytes) : Bytes :=
  if key.length ≠ kKeySize then []
  else
    let header := beBytes 4 (plaintext.length + kTagSize)
    header ++ env.aeadWrite key (nonce counter) header plaintext

def openFrame (key : Bytes) (counter : Nat) (header sealed : Bytes) : Option Bytes :=
  if key.length ≠ kKeySize ∨ header.length ≠ kFrameHeaderSize ∨ sealed.length < kTagSize then none
  else if beNat header ≠ sealed.length then none
  else env.aeadRead key (nonce counter) header sealed

/-- What is sent for a response: a note that it is too large, where it is. -/
def fit (response : Response Body) : Bytes :=
  let plaintext := env.serializeResponse response
  if kMaxServerFrame - kTagSize < plaintext.length then
    env.serializeResponse (.error 500 "internal" "The response is too large")
  else plaintext

end Env

/-- The arguments of a call of `OpenFrame`. -/
structure OpenCall where
  key : Bytes
  counter : Nat
  header : Bytes
  sealed : Bytes

def OpenCall.plaintext (env : Env Addr Body) (call : OpenCall) : Option Bytes :=
  env.openFrame call.key call.counter call.header call.sealed

/-- The arguments of a call of `SealFrame`. -/
structure SealCall where
  key : Bytes
  counter : Nat
  plaintext : Bytes

def SealCall.frame (env : Env Addr Body) (call : SealCall) : Bytes := env.sealFrame call.key call.counter call.plaintext

/-! ## State -/

inductive Phase where
  | hello
  | ready
  | pending
deriving DecidableEq

structure Connection (Addr : Type) where
  address : Addr
  peer : String
  phase : Phase := .hello
  closed : Bool := false
  serverRandom : Bytes
  c2s : Bytes := []
  s2c : Bytes := []
  received : Nat := 0
  sent : Nat := 0
  exchanges : Nat := 0
  header : Bytes := []
  length : Nat := 0
  body : Bytes := []
  /-- What the socket holds unread. -/
  input : Bytes := []
  /-- How much it holds unwritten. -/
  unwritten : Nat := 0
  timer : Bool := true
  /-- All that has come in on the socket, and all that was written to it. -/
  arrived : Bytes := []
  output : Bytes := []
  /-- The calls of the cipher, in order. -/
  opens : List OpenCall := []
  seals : List SealCall := []

/-- A request that was handed out. -/
structure Exchange (Body : Type) where
  connection : Nat
  number : Nat
  request : Request Body
  answered : Bool := false

/-- An answer on its way to the worker. -/
structure Answer (Body : Type) where
  connection : Nat
  number : Nat
  response : Response Body

structure FailureRecord where
  recent : List Nat := []
  refusedUntil : Nat := 0

inductive State where
  | off
  | listening
  | keyInvalid
  | bindFailed

structure Worker (Addr Body : Type) where
  config : Config Addr := {}
  result : State := .off
  localAddress : Option Addr := none
  listening : Bool := false
  connections : List (Connection Addr) := []
  /-- 0 for a peer without an entry. -/
  perPeer : String → Nat := fun _ => 0
  failures : List (String × FailureRecord) := []
  authenticated : List (String × Nat) := []
  clock : Nat := 0
  exchanges : List (Exchange Body) := []
  mailbox : List (Answer Body) := []
  /-- Every answer that was ever posted. -/
  given : List (Answer Body) := []

/-! ## The worker -/

namespace Worker

variable [DecidableEq Addr] (env : Env Addr Body)

def setConnection (w : Worker Addr Body) (i : Nat) (c : Connection Addr) : Worker Addr Body :=
  { w with connections := w.connections.set i c }

/-- `connections_`: those that are not closed. -/
def connectionCount (w : Worker Addr Body) : Nat := w.connections.countP (fun c => !c.closed)

def isLocal (w : Worker Addr Body) (address : Addr) : Bool := env.isLoopback address || w.localAddress == some address

def isAllowed (w : Worker Addr Body) (address : Addr) : Bool :=
  if w.isLocal env address then true
  else if !w.config.lan then false
  else if w.config.allow.isEmpty then true
  else w.config.allow.any (env.isInSubnet address)

def isRefused (w : Worker Addr Body) (peer : String) : Bool :=
  match w.failures.lookup peer with
  | some record => w.clock < record.refusedUntil
  | none => false

def closeConnection (w : Worker Addr Body) (i : Nat) : Worker Addr Body :=
  match w.connections[i]? with
  | none => w
  | some c =>
    if c.closed then w
    else
      { w.setConnection i { c with closed := true, timer := false } with
        perPeer := Function.update w.perPeer c.peer (w.perPeer c.peer - 1) }

def failureRecord (w : Worker Addr Body) (peer : String) (record : FailureRecord) : FailureRecord :=
  let recent := record.recent.filter (fun at' => w.clock - at' < kFailureWindowMs) ++ [w.clock]
  if recent.length < kFailureLimit then { record with recent := recent }
  else
    match w.authenticated.lookup peer with
    | some proven =>
      if w.clock - proven < kAuthExemptMs then { record with recent := [] }
      else { recent := [], refusedUntil := w.clock + kRefusalMs }
    | none => { recent := [], refusedUntil := w.clock + kRefusalMs }

def noteFailure (w : Worker Addr Body) (peer : String) : Worker Addr Body :=
  let failures :=
    if w.failures.length < kMaxTrackedPeers then w.failures
    else w.failures.filter (fun entry => w.clock < entry.2.refusedUntil ||
      entry.2.recent.getLast?.any (fun at' => w.clock - at' < kFailureWindowMs))
  let record := (failures.lookup peer).getD {}
  { w with failures := (peer, w.failureRecord peer record) :: failures.filter (fun entry => entry.1 != peer) }

def fail (w : Worker Addr Body) (i : Nat) : Worker Addr Body :=
  match w.connections[i]? with
  | none => w
  | some c => closeConnection (if w.isLocal env c.address then w else w.noteFailure c.peer) i

def noteAuthenticated (w : Worker Addr Body) (peer : String) : Worker Addr Body :=
  let authenticated :=
    if w.authenticated.length < kMaxTrackedPeers then w.authenticated
    else w.authenticated.filter (fun entry => w.clock - entry.2 < kAuthExemptMs)
  { w with authenticated := (peer, w.clock) :: authenticated.filter (fun entry => entry.1 != peer) }

def sendResponse (w : Worker Addr Body) (i : Nat) (response : Response Body) : Worker Addr Body :=
  match w.connections[i]? with
  | none => w
  | some c =>
    let plaintext := env.fit response
    if c.sent = kMaxCounter then w.closeConnection i
    else
      let call : SealCall := ⟨c.s2c, c.sent, plaintext⟩
      w.setConnection i { c with
        unwritten := c.unwritten + (call.frame env).length
        output := c.output ++ call.frame env
        sent := c.sent + 1
        seals := c.seals ++ [call]
        phase := .ready
        timer := true }

def handleRequest (w : Worker Addr Body) (i : Nat) (plaintext : Bytes) : Worker Addr Body :=
  match env.parseRequest plaintext with
  | .error error => w.sendResponse env i (.error 400 "bad_request" error)
  | .ok request =>
    match w.connections[i]? with
    | none => w
    | some c =>
      let request := { request with peer := c.peer, admin := w.isLocal env c.address || w.config.adminLan }
      { w.setConnection i { c with phase := .pending, timer := false, exchanges := c.exchanges + 1 } with
        exchanges := w.exchanges ++ [⟨i, c.exchanges + 1, request, false⟩] }

def readHello (w : Worker Addr Body) (i : Nat) (c : Connection Addr) : Worker Addr Body × Bool :=
  if c.input.length < kClientHelloSize then (w, false)
  else
    let hello := c.input.take kClientHelloSize
    let c' := { c with input := c.input.drop kClientHelloSize }
    if hello.head? ≠ some kProtocolVersion then ((w.setConnection i c').fail env i, false)
    else
      let keys := env.deriveKeys w.config.key c.serverRandom hello.tail
      (w.setConnection i { c' with c2s := keys.1, s2c := keys.2, phase := .ready, timer := true }, true)

/-- A frame whose header is there. -/
def readBody (w : Worker Addr Body) (i : Nat) (c : Connection Addr) : Worker Addr Body × Bool :=
  let missing := c.length - c.body.length
  let c := { c with body := c.body ++ c.input.take missing, input := c.input.drop missing }
  if c.body.length < c.length then (w.setConnection i c, false)
  else if c.received = kMaxCounter then ((w.setConnection i c).closeConnection i, false)
  else
    let call : OpenCall := ⟨c.c2s, c.received, c.header, c.body⟩
    let c := { c with header := [], body := [], opens := c.opens ++ [call] }
    match call.plaintext env with
    | none => ((w.setConnection i c).fail env i, false)
    | some plaintext =>
      let w := w.setConnection i { c with received := c.received + 1 }
      let w := if w.isLocal env c.address then w else w.noteAuthenticated c.peer
      (w.handleRequest env i plaintext, true)

/-- One round of the loop of `processInput`, and whether there is another. -/
def inputRound (w : Worker Addr Body) (i : Nat) (c : Connection Addr) : Worker Addr Body × Bool :=
  if c.closed then (w, false)
  else if c.phase = .hello then w.readHello env i c
  else if c.phase ≠ .ready ∨ 0 < c.unwritten then (w, false)
  else if c.header = [] then
    if c.input.length < kFrameHeaderSize then (w, false)
    else
      let header := c.input.take kFrameHeaderSize
      let c := { c with header := header, length := beNat header, input := c.input.drop kFrameHeaderSize }
      if c.length < kTagSize ∨ kMaxClientFrame < c.length then ((w.setConnection i c).fail env i, false)
      else w.readBody env i c
  else w.readBody env i c

/-- The loop of `processInput`, `none` where it goes on after so many rounds. -/
def processRounds : Nat → Worker Addr Body → Nat → Option (Worker Addr Body)
  | 0, _, _ => none
  | rounds + 1, w, i =>
    match w.connections[i]? with
    | none => some w
    | some c =>
      match w.inputRound env i c with
      | (w', true) => processRounds rounds w' i
      | (w', false) => some w'

/-- There are never more rounds: each takes something from the input, or ends a frame. -/
def processInput (w : Worker Addr Body) (i : Nat) : Worker Addr Body :=
  match w.connections[i]? with
  | none => w
  | some c => (processRounds env (2 * c.input.length + 2) w i).getD w

def admitSocket (w : Worker Addr Body) (socketPeer : Addr) (random : Bytes) : Worker Addr Body :=
  let address := env.normalizedPeer socketPeer
  let peer := env.text address
  let isLocal := w.isLocal env address
  if !isLocal && w.isRefused peer then w
  else if !w.isAllowed env address then w
  else if decide (kMaxConnections ≤ w.connectionCount) ||
    (!isLocal && decide (kMaxConnectionsPerPeer ≤ w.perPeer peer)) then w
  else
    let c : Connection Addr :=
      { address := address, peer := peer, serverRandom := random, unwritten := random.length, output := random }
    processInput env
      { w with
        connections := w.connections ++ [c]
        perPeer := Function.update w.perPeer peer (w.perPeer peer + 1) }
      w.connections.length

def deliver (w : Worker Addr Body) (answer : Answer Body) : Worker Addr Body :=
  match w.connections[answer.connection]? with
  | none => w
  | some c =>
    if c.closed ∨ c.phase ≠ .pending ∨ c.exchanges ≠ answer.number then w
    else (w.sendResponse env answer.connection answer.response).processInput env answer.connection

def closeEach (p : Connection Addr → Bool) (w : Worker Addr Body) : Worker Addr Body :=
  (List.range w.connections.length).foldl
    (fun w i =>
      match w.connections[i]? with
      | some c => if p c then w.closeConnection i else w
      | none => w) w

def closeAll (w : Worker Addr Body) : Worker Addr Body := closeEach (fun _ => true) w

def stopListening (w : Worker Addr Body) : Worker Addr Body :=
  if w.listening then { w with listening := false, localAddress := none } else w

/-- `bound` says whether the listener could be bound. -/
def apply (w : Worker Addr Body) (config : Config Addr) (bound : Bool) : Worker Addr Body :=
  let keyValid := decide (config.key.length = kKeySize)
  let sameListener := w.listening && config.enabled && keyValid && decide (config.port = w.config.port) &&
    decide (config.lan = w.config.lan) && decide (config.address = w.config.address) &&
      decide (config.key = w.config.key)
  let allowChanged := decide (config.allow ≠ w.config.allow)
  let w := { w with config := config }
  if sameListener then (if allowChanged then w.closeEach (fun c => !w.isAllowed env c.address) else w)
  else
    let w := w.closeAll.stopListening
    if !config.enabled then { w with result := .off }
    else if !keyValid then { w with result := .keyInvalid }
    else if !bound then { w with result := .bindFailed }
    else
      { w with
        listening := true
        result := .listening
        localAddress := match config.address with
          | some address => if env.isEvery address then w.localAddress else some (env.normalizedPeer address)
          | none => w.localAddress }

end Worker

/-! ## Events -/

inductive Event (Addr Body : Type) where
  | admitSocket (socketPeer : Addr) (random : Bytes)
  | input (i : Nat) (chunk : Bytes)
  | written (i : Nat) (bytes : Nat)
  /-- A responder is called, on some thread. -/
  | answer (exchange : Nat) (response : Response Body)
  /-- The last copy of a responder goes. -/
  | dropped (exchange : Nat)
  /-- The worker takes an answer from its queue. -/
  | deliver (k : Nat)
  | timeout (i : Nat)
  | disconnected (i : Nat)
  | apply (config : Config Addr) (bound : Bool)
  | drain
  | tick (ms : Nat)

namespace Worker

variable [DecidableEq Addr] (env : Env Addr Body)

def answer (w : Worker Addr Body) (k : Nat) (response : Response Body) : Worker Addr Body :=
  match w.exchanges[k]? with
  | none => w
  | some x =>
    if x.answered then w
    else
      let posted : Answer Body := ⟨x.connection, x.number, response⟩
      { w with
        exchanges := w.exchanges.set k { x with answered := true }
        mailbox := w.mailbox ++ [posted]
        given := w.given ++ [posted] }

def step (w : Worker Addr Body) : Event Addr Body → Worker Addr Body
  | .admitSocket socketPeer random => if w.listening then w.admitSocket env socketPeer random else w
  | .input i chunk =>
    match w.connections[i]? with
    | none => w
    | some c =>
      if c.closed then w
      else
        (w.setConnection i { c with input := c.input ++ chunk, arrived := c.arrived ++ chunk }).processInput env i
  | .written i bytes =>
    match w.connections[i]? with
    | none => w
    | some c =>
      if c.closed then w
      else
        let w := w.setConnection i { c with unwritten := c.unwritten - bytes }
        if c.unwritten ≤ bytes then w.processInput env i else w
  | .answer k response => w.answer k response
  | .dropped k => w.answer k (.error 500 "internal" "The request was dropped without an answer")
  | .deliver k =>
    match w.mailbox[k]? with
    | none => w
    | some answer => { w with mailbox := w.mailbox.eraseIdx k }.deliver env answer
  | .timeout i =>
    match w.connections[i]? with
    | none => w
    | some c => if c.timer then w.closeConnection i else w
  | .disconnected i => w.closeConnection i
  | .apply config bound => w.apply env config bound
  | .drain => w.stopListening.closeAll
  | .tick ms => { w with clock := w.clock + ms }

def run (events : List (Event Addr Body)) : Worker Addr Body := events.foldl (step env) {}

end Worker

end Waterdisco.Remote
