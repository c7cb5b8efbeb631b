import Waterdisco.Scan.Worker

/-!
# A scan, pass after pass

A start prepares a pass, or takes up a paused one, and leaves the worker before its
first chunk; each chunk is one turn of the loop of `runChunks`, which goes on or
returns.  A stop request lands between two chunks, or within one where the
environment says so.  The database carries out what the worker asks for; where the
source looks at the answer of a call, the environment gives it.
-/

namespace Waterdisco.Scan

/-! ## The network check -/

structure Verdict where
  guarded : Bool := false
  unverified : Bool := false
  ipv4Up : Bool := false
  ipv6Up : Bool := false
  networkError : String := ""

/-- A hit only proves its own family reachable. -/
def familyUnproven (result : ChunkResult) : Bool :=
  (scanWorkerHasFamily result.failures false && !scanWorkerHasFamily result.hits false) ||
    (scanWorkerHasFamily result.failures true && !scanWorkerHasFamily result.hits true)

def isGuarded (rescan : Bool) (result : ChunkResult) : Bool :=
  decide (result.error = "") && (!result.failures.isEmpty || !result.localFailures.isEmpty) &&
    (rescan || result.hits.isEmpty || familyUnproven result)

/-- The checks of a guarded chunk; `up4` and `up6` are what they answer if they are made. -/
def checkNetwork (rescan : Bool) (result : ChunkResult) (up4 up6 : Bool) : Verdict :=
  let ipv4Failed := scanWorkerHasFamily result.failures false
  let ipv6Failed := scanWorkerHasFamily result.failures true
  let ipv6Any := ipv6Failed || scanWorkerHasFamily result.localFailures true
  let ipv6Unproven := ipv6Failed && !scanWorkerHasFamily result.hits true
  let ipv4Up := up4
  -- an initial pass cannot set a failure aside: one whose family is down rewinds the chunk
  let ipv4Blocks := !rescan && !ipv4Up && ipv4Failed
  let check6 := !ipv4Blocks && ((rescan && ipv6Failed) || (!rescan && ipv6Unproven) || (!ipv4Up && ipv6Any))
  let ipv6Up := check6 && up6
  let ipv6Blocks := !rescan && !ipv6Up && ipv6Unproven
  if (!ipv4Up && !ipv6Up) || ipv4Blocks || ipv6Blocks then
    { guarded := true, unverified := true, ipv4Up := ipv4Up, ipv6Up := ipv6Up
      networkError := if ipv4Up && ipv6Blocks then
          "IPv6 is unreachable from this network; scan paused (turn off IPv6 scanning to go on)"
        else "Network appears to be down; scan paused" }
  else { guarded := true, ipv4Up := ipv4Up, ipv6Up := ipv6Up }

def verify (rescan : Bool) (result : ChunkResult) (stop up4 up6 : Bool) : Verdict :=
  if isGuarded rescan result = false then {}
  else if stop then { guarded := true, unverified := true }
  else checkNetwork rescan result up4 up6

/-! ## One turn of the loop -/

/-- What the run works on. -/
structure Run where
  scan : IpScan
  lists : Store
  spec : Spec
  stop : Bool := false
  basePort : Int := 0

/-- What one turn meets: the chunk, its retries, the network checks, and whether a stop
request landed at the top, before the checks or at the end. -/
structure ChunkEnv where
  stopTop : Bool := false
  first : RunChunkEnv := {}
  rounds : Nat → RoundEnv := fun _ => {}
  stopGuard : Bool := false
  ipv4Up : Bool := true
  ipv6Up : Bool := true
  stopEnd : Bool := false

/-- The loop goes on, or `runChunks` returns. -/
inductive Loop where
  | again
  | returned (completed : Bool) (error : String)

/-- The initial pass has found as many results as it is asked for. -/
def IpScan.limitReached (scan : IpScan) : Bool :=
  decide (scan.rescan = false ∧ 0 < scan.config.stopAfter ∧ scan.config.stopAfter ≤ scan.found)

/-- The entries a rescan removes: those whose family was found up. -/
def deadEntries (rescan : Bool) (result : ChunkResult) (verdict : Verdict) : List Lists.Entry :=
  if rescan = true ∧ verdict.guarded = true ∧ verdict.unverified = false then
    result.failures.filter (fun entry => if scanWorkerIsIpv6 entry then verdict.ipv6Up else verdict.ipv4Up)
  else []

/-- The hits go in, and the rows they replace go. -/
def storeHits (rescan : Bool) (lists : Store) (resultId : Int) (result : ChunkResult) : Store :=
  if result.hits = [] then lists
  else
    let lists := lists.upsertEntries resultId result.hits
    if rescan = true ∧ result.replaced ≠ [] then lists.removeEntries resultId result.replaced else lists

def removeDead (lists : Store) (resultId : Int) (dead : List Lists.Entry) : Store :=
  if dead = [] then lists else lists.removeEntries resultId dead

def IpScan.counted (scan : IpScan) (removed found : Nat) : IpScan := { scan with removed := removed, found := found }

/-- What a chunk leaves of the scan and its lists, but for the cursor. -/
def storeChunk (run : Run) (result : ChunkResult) (verdict : Verdict) : Run :=
  if run.scan.resultListId < 0 then run
  else
    let stored := storeHits run.scan.rescan run.lists run.scan.resultListId result
    let lists := removeDead stored run.scan.resultListId (deadEntries run.scan.rescan result verdict)
    { run with
      lists := lists
      scan := run.scan.counted
        (run.scan.removed + (stored.entryCount run.scan.resultListId - lists.entryCount run.scan.resultListId))
        (lists.entryCount run.scan.resultListId) }

def nextCursor (configPhase : Bool) (result : ChunkResult) (unverified : Bool) (chunkStart next total : Nat) : Nat :=
  min (if result.error ≠ "" ∨ unverified = true then chunkStart
    else if result.aborted then (if configPhase then chunkStart else next)
    else next) total

section
variable (netip : Netip)

def firstChunk (run : Run) (stop : Bool) (env : ChunkEnv) : ChunkRun :=
  runChunk netip run.scan run.basePort run.spec run.scan.activeCursor run.scan.chunkSize stop env.first

def confirmChunk (run : Run) (stop : Bool) (env : ChunkEnv) : Confirmed :=
  let first := firstChunk netip run stop env
  if run.scan.rescan = true ∧ first.result.error = "" ∧ first.result.aborted = false ∧ first.result.failures ≠ [] then
    confirmFailures netip run.scan run.basePort run.scan.activeCursor env.rounds first
  else { result := first.result, next := first.next, stop := first.stop }

def chunkVerdict (run : Run) (stop : Bool) (env : ChunkEnv) : Verdict :=
  let confirmed := confirmChunk netip run stop env
  verify run.scan.rescan confirmed.result (confirmed.stop || env.stopGuard) env.ipv4Up env.ipv6Up

def chunkCursor (run : Run) (env : ChunkEnv) : Nat :=
  let confirmed := confirmChunk netip run run.stop env
  nextCursor run.scan.configPhase confirmed.result (chunkVerdict netip run run.stop env).unverified
    run.scan.activeCursor confirmed.next run.scan.activeTotal

/-- The turn after the checks at the top. -/
def chunkBody (run : Run) (env : ChunkEnv) : Run × Loop :=
  let confirmed := confirmChunk netip run run.stop env
  let verdict := chunkVerdict netip run run.stop env
  let stored := storeChunk run confirmed.result verdict
  let cursor := chunkCursor netip run env
  let stop := confirmed.stop || env.stopGuard || env.stopEnd
  let after := { stored with scan := stored.scan.setCursor cursor, stop := stop }
  (after,
    if confirmed.result.error ≠ "" then .returned false confirmed.result.error
    else if verdict.networkError ≠ "" then .returned false verdict.networkError
    else if verdict.unverified then .returned false ""
    else if run.scan.activeTotal ≤ cursor ∨ after.scan.limitReached = true then .again
    else if stop then .returned false ""
    else if confirmed.result.aborted then .returned false "The core ended the scan session early"
    else if cursor = run.scan.activeCursor then .returned false "The core made no progress on the scan"
    else .again)

def chunk (run : Run) (env : ChunkEnv) : Run × Loop :=
  if run.scan.limitReached then (run, .returned true "")
  else if run.scan.activeTotal ≤ run.scan.activeCursor then (run, .returned true "")
  else if run.stop || env.stopTop then ({ run with stop := true }, .returned false "")
  else chunkBody netip run env

/-! ## Preparing a pass -/

inductive StartMode where
  | resume
  | fromInitial
  | rescanResults

/-- What a start meets: the check of the base profile, its port, whether the reads and
the inserts of the lists succeed, the seed, the count, and where a stop request landed. -/
structure PrepareEnv where
  baseError : String := ""
  basePort : Int := 0
  stopFirst : Bool := false
  stopPrepare : Bool := false
  baseRead : Bool := true
  headersRead : Bool := true
  resultAdded : Bool := true
  resultRead : Bool := true
  snapshotAdded : Bool := true
  seed : UInt64 := 0
  count : CallEnv := {}
  stopCount : Bool := false
  stopLoad : Bool := false
  specRead : Bool := true
  stopFinish : Bool := false

/-- The scan, the lists and the spec while a pass is prepared, and the error it ends in. -/
structure Prepared where
  scan : IpScan
  lists : Store
  spec : Spec := {}
  stop : Bool := false
  error : String := ""

/-- The result list of a scan, if its header is found. -/
def knownResultList (scan : IpScan) (lists : Store) (env : PrepareEnv) : Option StoredList :=
  if 0 ≤ scan.resultListId ∧ env.headersRead = true then
    (lists.get? scan.resultListId).filter (fun l => l.role == .scanResult && l.relatedTestId == scan.id)
  else none

def ensureScanResultList (scan : IpScan) (lists : Store) (env : PrepareEnv) : Option (IpScan × Store) :=
  if (knownResultList scan lists env).isSome then some (scan, lists)
  else if env.resultAdded then
    (lists.addIpList .scanResult scan.id []).map (fun p => ({ scan with resultListId := p.2 }, p.1))
  else none

/-- `GetEntries`: nothing when the read fails. -/
def readEntries (ok : Bool) (lists : Store) (id : Int) : List Lists.Entry := if ok then lists.entries id else []

def deleteList (lists : Store) (id : Int) : Store := if id < 0 then lists else lists.deleteIpList id

/-- The total, or the stop flag and the error of a count that failed. -/
def countTargets (scan : IpScan) (spec : Spec) (stop : Bool) (env : PrepareEnv) : Except (Bool × String) Nat :=
  let answer := scanProbe netip (probeRequest scan spec 0 0) env.count
  if answer.ok = false ∨ answer.failure ≠ "" then
    let stop := stop || env.stopCount || scanWorkerIsStopped answer.failure
    .error (stop, if stop then ""
      else if answer.failure = "" then "The core did not answer the probe request" else answer.failure)
  else .ok answer.response.total

/-- The spec of the initial pass over the copied entries. -/
def initialSpec (scan : IpScan) (entries : List Lists.Entry) : Spec :=
  scanWorkerBuildSpec entries scan.config.ports (portModeKey scan.config.portMode) scan.config.shuffle scan.seed

/-- The spec of a rescan over the copied results. -/
def rescanSpec (entries : List Lists.Entry) : Spec := scanWorkerBuildSpec entries [] .list false 0

/-- The targets of a copy are counted; none at all is an error. -/
def countCopy (p : Prepared) (setTotal : IpScan → Nat → IpScan) (noTarget : String) (env : PrepareEnv) : Prepared :=
  match countTargets netip p.scan p.spec p.stop env with
  | .error (stop, error) => { p with stop := stop, error := error }
  | .ok total => { p with scan := setTotal p.scan total, error := if total = 0 then noTarget else "" }

def IpScan.resetInitial (scan : IpScan) : IpScan :=
  { scan with
    snapshotListId := -1, rescanSnapshotListId := -1, rescanCursor := 0, rescanTotal := 0, mode := .initial
    cursor := 0, total := 0, found := 0, removed := 0, lastError := "" }

def copyBase (p : Prepared) (entries : List Lists.Entry) (env : PrepareEnv) : Prepared :=
  match if env.snapshotAdded then p.lists.addIpList .scanSnapshot p.scan.id entries else none with
  | none => { p with error := "The base IP list could not be copied" }
  | some (lists, id) =>
    let scan := { p.scan with snapshotListId := id, seed := env.seed }
    countCopy netip { p with scan := scan, lists := lists, spec := initialSpec scan entries }
      (fun scan total => { scan with total := total }) "The base IP list holds no valid target" env

def prepareInitial (p : Prepared) (env : PrepareEnv) : Prepared :=
  match if env.baseRead then p.lists.get? p.scan.baseListId else none with
  | none => { p with error := "The base IP list no longer exists" }
  | some base =>
    if base.entries = [] then { p with error := "The base IP list is empty" }
    else
      let baseEntries := scanWorkerFamilyFilter base.entries p.scan.config.scanIPv6
      if baseEntries = [] then { p with error := "The base IP list holds only IPv6 ranges; enable IPv6 scanning" }
      else if p.stop || env.stopPrepare then { p with stop := true }
      else match ensureScanResultList p.scan p.lists env with
      | none => { p with error := "The result list could not be created" }
      | some (scan, lists) =>
        let lists := lists.clearEntries scan.resultListId
        let lists := deleteList (deleteList lists scan.snapshotListId) scan.rescanSnapshotListId
        copyBase netip { p with scan := scan.resetInitial, lists := lists } baseEntries env

def copyResults (p : Prepared) (entries : List Lists.Entry) (env : PrepareEnv) : Prepared :=
  match if env.snapshotAdded then p.lists.addIpList .scanSnapshot p.scan.id entries else none with
  | none => { p with error := "The result list could not be copied" }
  | some (lists, id) =>
    let scan := { p.scan with rescanSnapshotListId := id, mode := .rescanResult, removed := 0, lastError := "" }
    countCopy netip { p with scan := scan, lists := lists, spec := rescanSpec entries }
      (fun scan total => { scan with rescanTotal := total }) "The result list holds no valid target" env

def prepareRescan (p : Prepared) (env : PrepareEnv) : Prepared :=
  if p.stop || env.stopPrepare then { p with stop := true }
  else
    let lists := deleteList p.lists p.scan.rescanSnapshotListId
    let scan := { p.scan with rescanSnapshotListId := -1, rescanCursor := 0, rescanTotal := 0 }
    match ensureScanResultList scan lists env with
    | none => { p with scan := scan, lists := lists, error := "The result list could not be created" }
    | some (scan, lists) =>
      let p := { p with scan := scan, lists := lists }
      let allEntries := readEntries env.resultRead lists scan.resultListId
      let entries := scanWorkerFamilyFilter allEntries scan.config.scanIPv6
      if allEntries = [] then { p with error := "The result list is empty" }
      -- left out of the snapshot, IPv6 results are neither tested nor removed
      else if entries = [] then
        { p with error := "The result list holds only IPv6 entries; enable IPv6 scanning" }
      else copyResults netip p entries env

/-- A paused pass is taken up; the result list may be gone meanwhile. -/
def prepareResume (p : Prepared) (env : PrepareEnv) : Prepared :=
  let scan := if p.scan.rescanResumable then p.scan else { p.scan with mode := .initial }
  if p.stop || env.stopPrepare then { p with scan := scan, stop := true }
  else match ensureScanResultList scan p.lists env with
  | none => { p with scan := scan, error := "The result list could not be created" }
  | some (scan, lists) => { p with scan := scan, lists := lists }

def preparePass (mode : StartMode) (p : Prepared) (env : PrepareEnv) : Prepared :=
  match mode with
  | .fromInitial => prepareInitial netip p env
  | .rescanResults => prepareRescan netip p env
  | .resume =>
    if p.scan.rescanResumable = false ∧ p.scan.canResumeInitial = false then prepareInitial netip p env
    else prepareResume p env

def loadSpec (p : Prepared) (env : PrepareEnv) : Prepared :=
  if p.spec.entries ≠ [] then p
  else if p.scan.rescan then
    let entries := readEntries env.specRead p.lists p.scan.rescanSnapshotListId
    if entries = [] then
      { p with
        scan := { p.scan with rescanSnapshotListId := -1 }
        error := "The copy of the result list is gone; rescan the results again" }
    else { p with spec := rescanSpec entries }
  else
    let entries := readEntries env.specRead p.lists p.scan.snapshotListId
    if entries = [] then
      { p with
        scan := { p.scan with snapshotListId := -1 }
        error := "The copy of the base IP list is gone; restart the scan" }
    else { p with spec := initialSpec p.scan entries }

/-! ## Finishing a pass -/

def finishCompleted (scan : IpScan) (lists : Store) : IpScan × Store :=
  if scan.rescan then
    let scan' := { scan with rescanSnapshotListId := -1, lastError := "" }
    (if scan'.canResumeInitial then { scan' with mode := .initial, status := .paused }
      else { scan' with status := .completed }, deleteList lists scan.rescanSnapshotListId)
  else
    ({ scan with snapshotListId := -1, lastError := "", status := .completed }, deleteList lists scan.snapshotListId)

def finishStopped (initialStatus : ScanStatus) (scan : IpScan) (error : String) : IpScan :=
  let mode := if scan.rescan = true ∧ scan.rescanResumable = false ∧ scan.canResumeInitial = true then .initial
    else scan.mode
  { scan with
    mode := mode
    lastError := error
    status := if scan.rescanResumable = true ∨ scan.canResumeInitial = true then .paused
      else if error ≠ "" then .failed
      else if initialStatus = .completed then .completed else .idle }

/-! ## Runs -/

/-- The worker of a scan between two chunks. -/
structure Running where
  spec : Spec
  stop : Bool
  basePort : Int
  initialStatus : ScanStatus

structure World where
  scan : IpScan
  lists : Store
  running : Option Running := none

inductive Event where
  | start (mode : StartMode) (env : PrepareEnv)
  | chunk (env : ChunkEnv) (stopFinish : Bool)
  | pause
  /-- Another part of the program replaces the entries of a list that is not a copy. -/
  | edit (listId : Int) (entries : List Lists.Entry)

/-- `run` after `execute`; a pause cuts calls short, so their errors are artifacts. -/
def finishPass (initialStatus : ScanStatus) (scan : IpScan) (lists : Store) (stop completed : Bool) (error : String) :
    World :=
  if completed then
    let finished := finishCompleted scan lists
    { scan := finished.1, lists := finished.2 }
  else { scan := finishStopped initialStatus scan (if stop then "" else error), lists := lists }

def prepareStart (w : World) (mode : StartMode) (env : PrepareEnv) : Prepared :=
  let p : Prepared := { scan := { w.scan with status := .running, lastError := "" }, lists := w.lists }
  if w.scan.configPhase = true ∧ env.baseError ≠ "" then { p with error := env.baseError }
  else if env.stopFirst then { p with stop := true }
  else preparePass netip mode p env

/-- The preparation up to the first chunk. -/
def loadStart (w : World) (mode : StartMode) (env : PrepareEnv) : Prepared :=
  let p := prepareStart netip w mode env
  if p.error ≠ "" then p
  else if p.stop || env.stopLoad then { p with stop := true }
  else loadSpec p env

def startRun (w : World) (mode : StartMode) (env : PrepareEnv) : World :=
  let p := loadStart netip w mode env
  if p.error ≠ "" ∨ p.stop = true then
    finishPass w.scan.status p.scan p.lists (p.stop || env.stopFinish) false p.error
  else
    let scan := if p.scan.resultListId < 0 then p.scan
      else { p.scan with found := p.lists.entryCount p.scan.resultListId }
    { scan := scan, lists := p.lists
      running := some { spec := p.spec, stop := false, basePort := env.basePort, initialStatus := w.scan.status } }

def Running.run (r : Running) (w : World) : Run where
  scan := w.scan
  lists := w.lists
  spec := r.spec
  stop := r.stop
  basePort := r.basePort

def stepChunk (w : World) (r : Running) (env : ChunkEnv) (stopFinish : Bool) : World :=
  match chunk netip (r.run w) env with
  | (run, .again) => { scan := run.scan, lists := run.lists, running := some { r with stop := run.stop } }
  | (run, .returned completed error) =>
    finishPass r.initialStatus run.scan run.lists (run.stop || stopFinish) completed error

def editList (lists : Store) (listId : Int) (entries : List Lists.Entry) : Store :=
  if (lists.get? listId).any (fun l => l.role != .scanSnapshot) then lists.replaceEntries listId entries else lists

def step (w : World) : Event → World
  | .start mode env => if w.running.isSome then w else startRun netip w mode env
  | .chunk env stopFinish =>
    match w.running with
    | none => w
    | some r => stepChunk netip w r env stopFinish
  | .pause => { w with running := w.running.map (fun r => { r with stop := true }) }
  | .edit listId entries => { w with lists := editList w.lists listId entries }

end

end Waterdisco.Scan
