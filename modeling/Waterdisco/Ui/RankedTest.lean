import Mathlib.Data.List.Infix
import Mathlib.Algebra.Order.Ring.Rat
import Waterdisco.Lib.Runs

/-!
# A ranked speed test

`TestRunner` applies the results of a test from the thread of the batch and from pollers that
nobody joins.  What a result does is one locked section; what the batch thread does to the
profiles that got no result is not locked, and every read and write of a field is a step of
its own.

    connection test (leftovers per slice) → the best is taken over → download targets, each
    waiting → its final results → its leftovers → returned
-/

namespace Waterdisco.RankedTest

inductive Status
  | untested
  | success
  | skipped
  | error
deriving DecidableEq

/-- The fields that the tests read, or that are shown as the speed. -/
structure Profile where
  connectTimeMs : Int := 0
  rxSpeedMbps : Rat := 0
  status : Status := .untested
  dlSpeed : String := ""
deriving DecidableEq

structure URLTestResp where
  latencyMs : Int
  error : String
deriving DecidableEq

structure SpeedTestResult where
  latency : Int
  elapsedMs : Int
  dlSpeed : String
  error : String
  cancelled : Bool
deriving DecidableEq

def contains (text mark : String) : Bool := decide (mark.toList <:+: text.toList)

def containsNoCase (text mark : String) : Bool := decide (mark.toList.map Char.toLower <:+: text.toList.map Char.toLower)

def isTestAborted (error : String) : Bool := contains error "test aborted"

def isCanceledProbeError (error : String) : Bool :=
  containsNoCase error "context canceled" || containsNoCase error "context deadline exceeded" ||
    containsNoCase error "Client.Timeout" || containsNoCase error "i/o timeout"

def usedFallShortLimit (fallShort : Bool) (limitMs defaultLimitMs : Int) : Bool :=
  fallShort && decide (0 < limitMs) && decide (limitMs < defaultLimitMs)

namespace Profile

def connectionProbeAlreadyResolved (ent : Profile) : Bool :=
  decide (0 < ent.connectTimeMs) || ent.status == .skipped || ent.status == .error || ent.status == .success

def downloadAlreadyResolved (ent : Profile) : Bool :=
    ent.status == .success || ent.status == .skipped || ent.status == .error

def markPerformanceSkipped (ent : Profile) : Profile :=
    { ent with rxSpeedMbps := 0, status := .skipped, dlSpeed := "Skipped" }

def markPerformanceError (ent : Profile) : Profile :=
  { ent with
    connectTimeMs := if ent.connectTimeMs < 0 then 0 else ent.connectTimeMs
    rxSpeedMbps := 0
    status := .error
    dlSpeed := "Error" }

/-- `displaySpeed` is not empty: it was read as a speed. -/
def setPerformanceResult (ent : Profile) (connectionTimeMs : Int) (rxMbps : Rat) (displaySpeed : String) : Profile :=
  { ent with connectTimeMs := max 0 connectionTimeMs, rxSpeedMbps := max 0 rxMbps, status := .success, dlSpeed := displaySpeed }

end Profile

def noteFasterMs (best observed : Int) : Int :=
  if observed ≤ 0 then best else if best ≤ 0 ∨ observed < best then observed else best

/-! ## One result -/

/-- The profile afterwards and the time that is noted. -/
def applyConnectionResult (fallShort : Bool) (limitMs defaultTimeoutMs : Int) (ent : Profile)
    (res : URLTestResp) : Profile × Option Int :=
  if isTestAborted res.error then (ent, none)
  else if 0 < ent.connectTimeMs then
    if res.error = "" ∧ 0 < res.latencyMs ∧ res.latencyMs < ent.connectTimeMs then
      ({ ent with connectTimeMs := res.latencyMs }, some res.latencyMs)
    else (ent, none)
  else if ent.connectionProbeAlreadyResolved then (ent, none)
  else if res.error = "" ∧ 0 < res.latencyMs then ({ ent with connectTimeMs := res.latencyMs }, some res.latencyMs)
  else if res.error ≠ "" ∧ isCanceledProbeError res.error = false then (ent.markPerformanceError, none)
  else if fallShort && (isCanceledProbeError res.error || usedFallShortLimit fallShort limitMs defaultTimeoutMs) then
    (ent.markPerformanceSkipped, none)
  else (ent.markPerformanceError, none)

inductive Counted
  | tested
  | skipped
deriving DecidableEq

/-- What a download result does: the times that it notes, and what the profile counts as. -/
structure Applied where
  profile : Profile
  connection : List Int := []
  download : List Int := []
  counted : Option Counted := none

def applyDownloadResult (parseSpeedMbps : String → Rat) (fallShort : Bool)
    (limitMs defaultTimeoutMs : Int) (profile : Profile)
    (res : SpeedTestResult) : Applied :=
  let elapsedMs := if 0 < res.elapsedMs then res.elapsedMs else -1
  let latencyMs := res.latency
  let noted := if 0 < latencyMs then [latencyMs] else []
  if profile.downloadAlreadyResolved then
    { profile := profile, connection := noted, download := if res.error = "" ∧ 0 < elapsedMs then [elapsedMs] else [] }
  else if isTestAborted res.error then { profile := profile, connection := noted }
  else
    let canceled := res.cancelled || isCanceledProbeError res.error
    if res.error ≠ "" ∨ res.cancelled then
      if fallShort && (canceled || usedFallShortLimit fallShort limitMs defaultTimeoutMs) then
        { profile := profile.markPerformanceSkipped, connection := noted, counted := some .skipped }
      else { profile := profile.markPerformanceError, connection := noted, counted := some .skipped }
    else
      let rxMbps := parseSpeedMbps res.dlSpeed
      let connectionTime := if 0 < latencyMs then latencyMs else profile.connectTimeMs
      if rxMbps ≤ 0 ∨ connectionTime ≤ 0 then
        { profile := profile.markPerformanceError, connection := noted, counted := some .skipped }
      else
        { profile := profile.setPerformanceResult connectionTime rxMbps res.dlSpeed
          connection := noted ++ [connectionTime]
          download := [elapsedMs]
          counted := some .tested }

/-! ## The test -/

/-- Where the batch thread is with one profile that may have got no result. -/
inductive Pc
  /-- the pass after the connection test: the connect time, then the status -/
  | readConnect
  | readError
  | readSkipped
  | readSuccess
  /-- `downloadAlreadyResolved`, asked by the loop and once more by `markUnresolved` -/
  | checkSuccess (last : Bool)
  | checkSkipped (last : Bool)
  | checkError (last : Bool)
  /-- the marks: a negative connect time, the speed, the status, the text -/
  | readNegative
  | writeConnect
  | writeRx
  | writeStatus
  | writeSpeed
  | readCount
  | writeCount (seen : Int)
deriving DecidableEq

/-- A pass over the leftovers of a slice or a target. -/
structure Pass where
  connection : Bool
  answered : Bool
  /-- leftovers are skipped rather than failed -/
  skip : Bool
  target : List Int
  rest : List Int
deriving DecidableEq

inductive Batch
  | free
  | waiting (target : List Int) (timeoutMs defaultTimeoutMs : Int)
  | results (target : List Int) (timeoutMs defaultTimeoutMs : Int) (skip : Bool)
  | pass (p : Pass) (id : Int) (pc : Pc)
deriving DecidableEq

structure Test where
  profiles : Int → Profile
  tested : Int := 0
  skipped : Int := 0
  /-- the profiles that added one to a counter -/
  counted : List Int := []
  bestConnectionMs : Int
  bestDownloadMs : Int := 0
  /-- the times that were accepted so far -/
  connections : List Int
  downloads : List Int := []
  /-- the connection test goes on, with these profiles to come -/
  pretesting : Bool
  order : List Int
  batch : Batch := .free
  /-- the targets that `runRankedDownloadTarget` returned true for -/
  returned : List (List Int) := []

inductive Event
  | connection (id : Int) (limitMs defaultTimeoutMs : Int) (res : URLTestResp)
  | download (id : Int) (limitMs defaultTimeoutMs : Int) (res : SpeedTestResult)
  /-- the next slice has had its probes -/
  | leftovers (chunk : Nat)
  | pretestReturns
  /-- a connect time is read for the order of the downloads -/
  | survivor (id : Int)
  | runDownload (target : List Int) (timeoutMs defaultTimeoutMs : Int)
  | answer (rpcOK : Bool) (coreError : String)
  | final (id : Int) (res : SpeedTestResult)
  | resultsDone
  /-- the batch thread reads or writes one field -/
  | batch

namespace Test

variable (parseSpeedMbps : String → Rat) (fallShort : Bool)

def setProfile (s : Test) (id : Int) (ent : Profile) : Test := { s with profiles := Function.update s.profiles id ent }

/-- After the connection test its best is gone; a late tick notes its time nowhere. -/
def connection (s : Test) (id : Int) (limitMs defaultTimeoutMs : Int) (res : URLTestResp) : Test :=
  let applied := applyConnectionResult fallShort limitMs defaultTimeoutMs (s.profiles id) res
  { s.setProfile id applied.1 with
    bestConnectionMs := if s.pretesting then applied.2.toList.foldl noteFasterMs s.bestConnectionMs else s.bestConnectionMs
    connections := s.connections ++ applied.2.toList }

def download (s : Test) (id : Int) (limitMs defaultTimeoutMs : Int) (res : SpeedTestResult) : Test :=
  let applied := applyDownloadResult parseSpeedMbps fallShort limitMs defaultTimeoutMs (s.profiles id) res
  { s.setProfile id applied.profile with
    bestConnectionMs := applied.connection.foldl noteFasterMs s.bestConnectionMs
    bestDownloadMs := applied.download.foldl noteFasterMs s.bestDownloadMs
    connections := s.connections ++ applied.connection
    downloads := s.downloads ++ applied.download.filter (fun ms => decide (0 < ms))
    tested := if applied.counted = some .tested then s.tested + 1 else s.tested
    skipped := if applied.counted = some .skipped then s.skipped + 1 else s.skipped
    counted := if applied.counted.isSome then s.counted ++ [id] else s.counted }

def next (s : Test) (p : Pass) : Test :=
  match p.rest with
  | [] => { s with batch := .free, returned := if p.connection then s.returned else p.target :: s.returned }
  | id :: rest =>
    { s with batch := .pass { p with rest := rest } id (if p.connection then .readConnect else .checkSuccess (!p.answered)) }

def goes (s : Test) (p : Pass) (id : Int) (pc : Pc) : Test := { s with batch := .pass p id pc }

def passStep (s : Test) (p : Pass) (id : Int) : Pc → Test
  | .readConnect => if 0 < (s.profiles id).connectTimeMs then s.next p else s.goes p id .readError
  | .readError => if (s.profiles id).status = .error then s.next p else s.goes p id .readSkipped
  | .readSkipped => if (s.profiles id).status = .skipped then s.goes p id .readCount else s.goes p id .readSuccess
  | .readSuccess =>
    if (s.profiles id).status = .success then s.next p else s.goes p id (if p.skip then .writeRx else .readNegative)
  | .checkSuccess last => if (s.profiles id).status = .success then s.next p else s.goes p id (.checkSkipped last)
  | .checkSkipped last => if (s.profiles id).status = .skipped then s.next p else s.goes p id (.checkError last)
  | .checkError last =>
    if (s.profiles id).status = .error then s.next p
    else if last then s.goes p id (if p.skip then .writeRx else .readNegative)
    else s.goes p id (.checkSuccess true)
  | .readNegative => s.goes p id (if (s.profiles id).connectTimeMs < 0 then .writeConnect else .writeRx)
  | .writeConnect => (s.setProfile id { s.profiles id with connectTimeMs := 0 }).goes p id .writeRx
  | .writeRx => (s.setProfile id { s.profiles id with rxSpeedMbps := 0 }).goes p id .writeStatus
  | .writeStatus => (s.setProfile id { s.profiles id with status := if p.skip then .skipped else .error }).goes p id .writeSpeed
  | .writeSpeed => (s.setProfile id { s.profiles id with dlSpeed := if p.skip then "Skipped" else "Error" }).goes p id .readCount
  | .readCount => s.goes p id (.writeCount s.skipped)
  | .writeCount seen => next { s with skipped := seen + 1, counted := s.counted ++ [id] } p

/-- A result that the core has given up ends the target: `runRankedDownloadTarget` returns false. -/
def final (s : Test) (id : Int) (res : SpeedTestResult) : Test :=
  match s.batch with
  | .results _ timeoutMs defaultTimeoutMs _ =>
    let s := s.download parseSpeedMbps fallShort id timeoutMs defaultTimeoutMs res
    if isTestAborted res.error then { s with batch := .free } else s
  | _ => s

def answer (s : Test) (rpcOK : Bool) (coreError : String) : Test :=
  match s.batch with
  | .waiting target timeoutMs defaultTimeoutMs =>
    let skip := fallShort && (isCanceledProbeError coreError || usedFallShortLimit fallShort timeoutMs defaultTimeoutMs)
    if rpcOK then { s with batch := .results target timeoutMs defaultTimeoutMs skip }
    else s.next ⟨false, false, skip, target, target⟩
  | _ => s

def step (s : Test) : Event → Test
  | .connection id limitMs defaultTimeoutMs res => s.connection fallShort id limitMs defaultTimeoutMs res
  | .download id limitMs defaultTimeoutMs res =>
    if s.pretesting then s else s.download parseSpeedMbps fallShort id limitMs defaultTimeoutMs res
  | .leftovers chunk =>
    if s.pretesting ∧ s.batch = .free then
      next { s with order := s.order.drop chunk } ⟨true, true, fallShort, s.order.take chunk, s.order.take chunk⟩
    else s
  | .pretestReturns => if s.pretesting ∧ s.batch = .free ∧ s.order = [] then { s with pretesting := false } else s
  | .survivor id =>
    if s.pretesting then s else { s with bestConnectionMs := noteFasterMs s.bestConnectionMs (s.profiles id).connectTimeMs }
  | .runDownload target timeoutMs defaultTimeoutMs =>
    if !s.pretesting ∧ s.batch = .free then { s with batch := .waiting target timeoutMs defaultTimeoutMs } else s
  | .answer rpcOK coreError => s.answer fallShort rpcOK coreError
  | .final id res => s.final parseSpeedMbps fallShort id res
  | .resultsDone =>
    match s.batch with
    | .results target _ _ skip => s.next ⟨false, true, skip, target, target⟩
    | _ => s
  | .batch =>
    match s.batch with
    | .pass p id pc => s.passStep p id pc
    | _ => s

/-- After the results of the last run were cleared; `best` is the fastest of them, or not positive. -/
def start (order : List Int) (pretesting : Bool) (best : Int) : Test where
  profiles := fun _ => {}
  bestConnectionMs := best
  connections := if 0 < best then [best] else []
  pretesting := pretesting
  order := order

end Test

end Waterdisco.RankedTest
