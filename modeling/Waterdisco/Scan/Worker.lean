import Waterdisco.Lib.Batches
import Waterdisco.Scan.ListStore
import Waterdisco.Scan.Probe

/-!
# One chunk of a scan

`runChunk` probes a chunk of the targets and, with a config phase, tests what passed
through the config; `confirmFailures` tries the failures of a rescan again.  What the
core, the config tests and the network answer, and when a stop request lands, is the
environment; the stop flag is never taken back.
-/

namespace Waterdisco.Scan

/-! ## The scan -/

inductive ScanKind where
  | generic
  | warp
deriving DecidableEq

inductive ScanStatus where
  | idle
  | running
  | paused
  | completed
  | failed
deriving DecidableEq

inductive ScanMode where
  | initial
  | rescanResult
deriving DecidableEq

inductive ConfigPortMode where
  | ignore
  | merge
  | list
deriving DecidableEq

def portModeKey : ConfigPortMode → PortMode
  | .ignore => .ignore
  | .list => .list
  | .merge => .merge

/-- `ScanConfig`, with the switch of each phase. -/
structure ScanConfig where
  ports : List Int := []
  portMode : ConfigPortMode := .merge
  shuffle : Bool := true
  scanIPv6 : Bool := false
  stopAfter : Int := 0
  concurrency : Int := 64
  icmp : Bool := false
  tcp : Bool := true
  http : Bool := false
  configTest : Bool := false

structure IpScan where
  id : Int := -1
  kind : ScanKind := .generic
  baseListId : Int := -1
  resultListId : Int := -1
  config : ScanConfig := {}
  status : ScanStatus := .idle
  mode : ScanMode := .initial
  snapshotListId : Int := -1
  seed : UInt64 := 0
  cursor : Nat := 0
  total : Nat := 0
  rescanSnapshotListId : Int := -1
  rescanCursor : Nat := 0
  rescanTotal : Nat := 0
  found : Nat := 0
  removed : Nat := 0
  lastError : String := ""

/-- `rescanPass`. -/
def IpScan.rescan (scan : IpScan) : Bool := scan.mode == .rescanResult

def IpScan.canResumeInitial (scan : IpScan) : Bool :=
  decide (0 ≤ scan.snapshotListId ∧ 0 < scan.total ∧ scan.cursor < scan.total)

def IpScan.rescanResumable (scan : IpScan) : Bool :=
  decide (scan.rescan = true ∧ 0 ≤ scan.rescanSnapshotListId ∧ scan.rescanCursor < scan.rescanTotal)

def IpScan.activeCursor (scan : IpScan) : Nat := if scan.rescan then scan.rescanCursor else scan.cursor
def IpScan.activeTotal (scan : IpScan) : Nat := if scan.rescan then scan.rescanTotal else scan.total

def IpScan.setCursor (scan : IpScan) (cursor : Nat) : IpScan :=
  if scan.rescan then { scan with rescanCursor := cursor } else { scan with cursor := cursor }

/-- The config the worker runs with: a WARP scan has no TCP and HTTP phase. -/
def IpScan.workerConfig (scan : IpScan) : ScanConfig :=
  if scan.kind = .warp then { scan.config with tcp := false, http := false } else scan.config

def IpScan.configPhase (scan : IpScan) : Bool := scan.kind == .warp || scan.config.configTest

def IpScan.probePhaseEnabled (scan : IpScan) : Bool :=
  scan.workerConfig.icmp || scan.workerConfig.tcp || scan.workerConfig.http

def clamp (value low high : Int) : Nat := (max low (min value high)).toNat

/-- `scanWorkerConfigTest`. -/
def IpScan.subBatch (scan : IpScan) : Nat :=
  clamp (max 1 scan.config.concurrency * 4) 8 (if scan.kind = .warp then 32 else 100)

def IpScan.chunkSize (scan : IpScan) : Nat :=
  if scan.probePhaseEnabled then clamp (scan.config.concurrency * 4) 32 2048 else scan.subBatch

/-! ## Entries -/

def scanWorkerIsIpv6 (entry : Lists.Entry) : Bool := decide (':' ∈ entry.cidr.toList)

def scanWorkerHasFamily (entries : List Lists.Entry) (ipv6 : Bool) : Bool :=
  entries.any (fun entry => scanWorkerIsIpv6 entry == ipv6)

def scanWorkerFamilyFilter (entries : List Lists.Entry) (ipv6 : Bool) : List Lists.Entry :=
  if ipv6 then entries else entries.filter (fun entry => !scanWorkerIsIpv6 entry)

def scanWorkerBuildSpec (entries : List Lists.Entry) (ports : List Int) (portMode : PortMode) (shuffle : Bool)
    (seed : UInt64) : Spec where
  entries := entries.map (fun entry => { cidr := entry.cidr, port := entry.port })
  defaultPorts := ports
  portMode := portMode
  shuffle := shuffle
  seed := seed

def scanWorkerEntry (address : String) (port latencyMs : Int) : Lists.Entry where
  cidr := if normalizeCidr address = "" then address else normalizeCidr address
  port := port
  latencyMs := latencyMs

/-! ## Texts of errors -/

def containsText (text pattern : String) : Bool := decide (pattern.toList <:+: text.toList)

def scanWorkerIsAborted (error : String) : Bool :=
  containsText error "test aborted" || containsText error "context canceled"

def scanWorkerIsStopped (error : String) : Bool := containsText error "scan stopped"

/-! ## Results of a chunk -/

structure ProbeOutcome where
  address : String
  port : Int := 0
  probePort : Int := 0
  latencyMs : Int := 0

structure ChunkResult where
  hits : List Lists.Entry := []
  failures : List Lists.Entry := []
  localFailures : List Lists.Entry := []
  replaced : List Lists.Entry := []
  aborted : Bool := false
  error : String := ""

def scanWorkerProbeLatency (outcome : Outcome) (config : ScanConfig) : Int :=
  if config.http ∧ 0 < outcome.httpMs then outcome.httpMs
  else if config.http ∧ 0 < outcome.tlsMs then outcome.tlsMs
  else if config.tcp ∧ 0 < outcome.tcpMs then outcome.tcpMs
  else if config.icmp then outcome.icmpMs
  else 0

/-- A hit under another port replaces the row of a rescan. -/
def addHit (rescan : Bool) (result : ChunkResult) (candidate : ProbeOutcome) (port latencyMs : Int) : ChunkResult :=
  { result with
    hits := result.hits ++ [scanWorkerEntry candidate.address port latencyMs]
    replaced := if rescan = true ∧ port ≠ candidate.port then
        result.replaced ++ [scanWorkerEntry candidate.address candidate.port 0]
      else result.replaced }

def addFailure (result : ChunkResult) (candidate : ProbeOutcome) : ChunkResult :=
  { result with failures := result.failures ++ [scanWorkerEntry candidate.address candidate.port 0] }

/-! ## The config test -/

/-- One result of `ScanURLTest`. -/
structure TestResult where
  outboundTag : String
  error : String := ""
  latencyMs : Int := 0
deriving DecidableEq

/-- What one batch meets: `BuildScanTestConfig`, `ScanURLTest`, and whether a stop
request landed before the batch or before the check of a failed call. -/
structure BatchEnv where
  stop : Bool := false
  buildError : String := ""
  unsupported : List Int := []
  /-- Empty when nothing was built. -/
  outboundTags : List String := []
  tag2target : List (String × Int) := []
  ok : Bool := true
  coreError : String := ""
  stopFailed : Bool := false
  tunnelsUp : List String := []
  results : List TestResult := []

structure TestRun where
  result : ChunkResult
  stop : Bool
  /-- The error `testConfigs` returned, once it did. -/
  returned : Option String := none

def batchAt (batch : List ProbeOutcome) (index : Int) : Option ProbeOutcome :=
  if index < 0 then none else batch[index.toNat]?

/-- One result of a batch; the indices reported so far come along. -/
def reportResult (rescan : Bool) (basePort : Int) (batch : List ProbeOutcome) (env : BatchEnv)
    (s : ChunkResult × List Int) (item : TestResult) : ChunkResult × List Int :=
  let index := (env.tag2target.lookup item.outboundTag).getD (-1)
  match batchAt batch index with
  | none => s
  | some candidate =>
    if index ∈ s.2 then s
    else
      let configPort := if 0 < candidate.port then candidate.port else basePort
      (if item.error = "" then addHit rescan s.1 candidate configPort item.latencyMs
        else if scanWorkerIsAborted item.error then { s.1 with aborted := true }
        -- the tunnel came up, only the URL behind it failed
        else if item.outboundTag ∈ env.tunnelsUp then addHit rescan s.1 candidate configPort 0
        else addFailure s.1 candidate, index :: s.2)

def addUnsupported (batch : List ProbeOutcome) (result : ChunkResult) (index : Int) : ChunkResult :=
  match batchAt batch index with
  | none => result
  | some candidate => addFailure result candidate

def testBatch (rescan : Bool) (basePort : Int) (batch : List ProbeOutcome) (env : BatchEnv) (run : TestRun) : TestRun :=
  let stop := run.stop || env.stop
  if stop then { result := { run.result with aborted := true }, stop := stop, returned := some "" }
  else if env.buildError ≠ "" then { run with stop := stop, returned := some env.buildError }
  else
    let result := env.unsupported.foldl (addUnsupported batch) run.result
    if env.outboundTags = [] then { run with result := result, stop := stop }
    else if env.ok = false then
      let stop := stop || env.stopFailed || scanWorkerIsStopped env.coreError
      if stop then { result := { result with aborted := true }, stop := stop, returned := some "" }
      else
        { result := result, stop := stop
          returned := some (if env.coreError = "" then "The core did not answer the config test" else env.coreError) }
    else
      let (result, reported) := env.results.foldl (reportResult rescan basePort batch env) (result, [])
      let missing := env.tag2target.any (fun p => !reported.contains p.2)
      { run with result := { result with aborted := result.aborted || missing }, stop := stop }

/-- The batches from number `k` on. -/
def testBatches (rescan : Bool) (basePort : Int) (envs : Nat → BatchEnv) :
    List (List ProbeOutcome) → Nat → TestRun → TestRun
  | [], _, run => run
  | batch :: rest, k, run =>
    let run := testBatch rescan basePort batch (envs k) run
    if run.returned.isSome then run else testBatches rescan basePort envs rest (k + 1) run

def testConfigs (scan : IpScan) (basePort : Int) (envs : Nat → BatchEnv) (candidates : List ProbeOutcome)
    (result : ChunkResult) (stop : Bool) : TestRun :=
  testBatches scan.rescan basePort envs (batches scan.subBatch candidates) 0 { result := result, stop := stop }

/-! ## A chunk -/

/-- What a chunk meets: the probe call, the config tests, and whether a stop request
landed before the check of a failed call or before the config tests. -/
structure RunChunkEnv where
  call : CallEnv := {}
  stopFailed : Bool := false
  stopTest : Bool := false
  batches : Nat → BatchEnv := fun _ => {}

structure ChunkRun where
  result : ChunkResult
  next : Nat
  stop : Bool

def probeRequest (scan : IpScan) (spec : Spec) (chunkStart maxTargets : Nat) : ProbeRequest where
  spec := spec
  cursor := chunkStart
  maxTargets := maxTargets
  icmp := scan.workerConfig.icmp
  tcp := scan.workerConfig.tcp
  http := scan.workerConfig.http

section
variable (netip : Netip)

def probeOutcome (scan : IpScan) (r : Result) : ProbeOutcome where
  address := netip.string r.target.addr
  port := r.target.port
  probePort := r.outcome.probePort
  latencyMs := scanWorkerProbeLatency r.outcome scan.workerConfig

/-- The results that passed. -/
def candidatesOf (scan : IpScan) (results : List (Nat × Result)) : List ProbeOutcome :=
  (results.filter (fun p => p.2.outcome.passed)).map (fun p => probeOutcome netip scan p.2)

/-- The entries of the results that failed, here or beyond this machine. -/
def failuresOf (results : List (Nat × Result)) (localFailure : Bool) : List Lists.Entry :=
  (results.filter (fun p => !p.2.outcome.passed && p.2.outcome.localFailure == localFailure)).map
    (fun p => scanWorkerEntry (netip.string p.2.target.addr) p.2.target.port 0)

def addProbeHits (rescan : Bool) (candidates : List ProbeOutcome) (result : ChunkResult) : ChunkResult :=
  candidates.foldl (fun result candidate =>
    addHit rescan result candidate (if 0 < candidate.probePort then candidate.probePort else candidate.port)
      candidate.latencyMs) result

/-- The error of a call that failed. -/
def ProbeAnswer.failure (answer : ProbeAnswer) : String := if answer.ok then answer.error else answer.coreError

/-- What is left of a call that failed: its positions stay unfinished, so its failures
prove nothing. -/
def cutShort (scan : IpScan) (candidates : List ProbeOutcome) : ChunkResult :=
  if scan.configPhase then {} else addProbeHits scan.rescan candidates {}

def runChunk (scan : IpScan) (basePort : Int) (spec : Spec) (chunkStart maxTargets : Nat) (stop : Bool)
    (env : RunChunkEnv) : ChunkRun :=
  let answer := scanProbe netip (probeRequest scan spec chunkStart maxTargets) env.call
  let results := answer.response.results
  let candidates := candidatesOf netip scan results
  if answer.ok = false ∨ answer.error ≠ "" then
    let result := cutShort scan candidates
    let stop := stop || env.stopFailed || scanWorkerIsStopped answer.failure
    if stop then { result := { result with aborted := true }, next := chunkStart, stop := stop }
    else
      let error := if answer.failure = "" then "The core did not answer the probe request" else answer.failure
      { result := { result with error := error }, next := chunkStart, stop := stop }
  else
    let next := max chunkStart answer.response.nextCursor
    let result : ChunkResult :=
      { failures := failuresOf netip results false, localFailures := failuresOf netip results true
        aborted := answer.response.aborted }
    if scan.configPhase = false then { result := addProbeHits scan.rescan candidates result, next := next, stop := stop }
    else if candidates = [] then { result := result, next := next, stop := stop }
    else
      let stop := stop || env.stopTest
      if result.aborted = true ∨ stop = true then
        { result := { result with aborted := true }, next := next, stop := stop }
      else
        let test := testConfigs scan basePort env.batches candidates result stop
        { result := { test.result with error := test.returned.getD "" }, next := next, stop := test.stop }

/-! ## Retries -/

/-- `kScanWorkerRescanRetries`. -/
def rescanRetries : Nat := 5

/-- What a retry meets, and whether a stop request landed while it waited or after it. -/
structure RoundEnv where
  stopWait : Bool := false
  chunk : RunChunkEnv := {}
  stopAfter : Bool := false

/-- A chunk with the retries that were made of its failures. -/
structure Confirmed where
  result : ChunkResult
  next : Nat
  stop : Bool
  rounds : List ChunkResult := []

/-- At most `n` rounds, from round `k` on. -/
def confirmRounds (scan : IpScan) (basePort : Int) (chunkStart : Nat) (envs : Nat → RoundEnv) :
    Nat → Nat → Confirmed → Confirmed
  | 0, _, c => c
  | n + 1, k, c =>
    if c.result.failures = [] then c
    else
      let stop := c.stop || (envs k).stopWait
      if stop then
        { c with result := { c.result with failures := [], aborted := true }, next := chunkStart, stop := stop }
      else
        let spec := scanWorkerBuildSpec c.result.failures [] .list false 0
        let retry := runChunk netip scan basePort spec 0 c.result.failures.length stop (envs k).chunk
        let rounds := c.rounds ++ [retry.result]
        if retry.result.error ≠ "" ∨ retry.result.aborted = true then
          let stop := retry.stop || (envs k).stopAfter
          -- unconfirmed, so nothing is removed; a pause runs the whole chunk again
          if stop then
            { result := { c.result with failures := [], aborted := true }, next := chunkStart, stop := stop
              rounds := rounds }
          else { c with result := { c.result with failures := [] }, stop := stop, rounds := rounds }
        else
          let result := { c.result with
            hits := c.result.hits ++ retry.result.hits
            replaced := c.result.replaced ++ retry.result.replaced
            localFailures := c.result.localFailures ++ retry.result.localFailures
            failures := retry.result.failures }
          confirmRounds scan basePort chunkStart envs n (k + 1)
            { c with result := result, stop := retry.stop, rounds := rounds }

def confirmFailures (scan : IpScan) (basePort : Int) (chunkStart : Nat) (envs : Nat → RoundEnv) (first : ChunkRun) :
    Confirmed :=
  confirmRounds netip scan basePort chunkStart envs rescanRetries 0
    { result := first.result, next := first.next, stop := first.stop }

end

end Waterdisco.Scan
