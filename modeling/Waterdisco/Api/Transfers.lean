import Mathlib.Algebra.Ring.Int.Defs
import Mathlib.Algebra.Ring.Nat
import Waterdisco.Lib.Json

/-!
# Backups and restores of the remote API

A client builds backups and fetches them in slices; it uploads an archive in chunks, has
it inspected and applies it.  Every transfer has a file in the temporary directory.

    upload      chunks until received = size, SHA-256, Inspect on a worker
    apply       CheckUntrusted on a worker, the running profile stops, Apply

The handlers, the workers' reports, the deadlines of held requests and the expiry sweep
run on one thread, in any order.  A worker opens its file, closes it, and reports later.
What the rest of the program answers meanwhile comes with the event that asks.
-/

namespace Waterdisco.Transfers

open Function

abbrev Bytes := List UInt8

/-! ## Answers -/

structure Response where
  status : Nat := 200
  body : Json := .null
  errorCode : String := ""
  errorMessage : String := ""

def Response.Ok (body : Json) (status : Nat := 200) : Response := { status := status, body := body }

def Response.Error (status : Nat) (code message : String) : Response :=
  { status := status, errorCode := code, errorMessage := message }

def badRequest (message : String) : Response := .Error 400 "bad_request" message

def notFound (message : String) : Response := .Error 404 "not_found" message

def busy (message : String) : Response := .Error 409 "busy" message

def internal (message : String) : Response := .Error 500 "internal" message

def invalidArchive (message : String) : Response := .Error 422 "invalid_archive" message

def exiting : Response := .Error 503 "exiting" "Throne is shutting down"

def busyConnection : Response := .Error 409 "busy" "A profile is starting or stopping"

def inProgress (id : Nat) (state : String) : Response := .Ok (.obj [("id", .num id), ("state", .str state)]) 202

/-! ## Held requests -/

structure WaitOptions where
  wait : Bool := true
  timeoutMs : Nat := 30000

/-- The request that waits, by its number; `deadline` is the armed timer. -/
structure Waiter where
  onDeadline : Response
  timeoutMs : Nat
  deadline : Bool := true
  done : Bool := false

/-- The requests so far, and what was sent to each of them. -/
structure Desk where
  requests : Nat := 0
  waiters : Nat → Option Waiter := fun _ => none
  answers : List (Nat × Response) := []

namespace Desk

def respond (d : Desk) (request : Nat) (r : Response) : Desk := { d with answers := d.answers ++ [(request, r)] }

def makeWaiter (d : Desk) (request timeoutMs : Nat) (onDeadline : Response) : Desk :=
  { d with waiters := update d.waiters request (some { onDeadline := onDeadline, timeoutMs := timeoutMs }) }

def answer (d : Desk) (request : Nat) (r : Response) : Desk :=
  match d.waiters request with
  | none => d
  | some waiter =>
    if waiter.done then d
    else
      { d with
        waiters := update d.waiters request (some { waiter with done := true, deadline := false })
        answers := d.answers ++ [(request, r)] }

/-- Without an open waiter the error only reaches the log. -/
def fail (d : Desk) (waiter : Option Nat) (error : Response) : Desk :=
  match waiter with
  | none => d
  | some request => d.answer request error

/-- `waiter != nullptr && !waiter->done`. -/
def waits (d : Desk) (waiter : Option Nat) : Bool :=
  match waiter with
  | none => false
  | some request =>
    match d.waiters request with
    | none => false
    | some w => !w.done

/-- The timer of a held request fires. -/
def onTimeout (d : Desk) (request : Nat) : Desk :=
  match d.waiters request with
  | none => d
  | some waiter => if waiter.deadline then d.answer request waiter.onDeadline else d

/-- Holds the request, or answers that the work is in progress. -/
def hold (d : Desk) (request : Nat) (options : WaitOptions) (r : Response) : Desk :=
  if options.wait then d.makeWaiter request options.timeoutMs r else d.respond request r

end Desk

/-- The waiter that `hold` makes. -/
def WaitOptions.waiter (options : WaitOptions) (request : Nat) : Option Nat :=
    if options.wait then some request else none

/-! ## The parts of an archive -/

structure Parts where
  profiles : Bool := false
  routes : Bool := false
  settings : Bool := false
  otp : Bool := false
  ipLists : Bool := false
  icons : Bool := false
deriving DecidableEq

def Parts.anyDb (p : Parts) : Bool := p.profiles || p.routes || p.settings || p.otp || p.ipLists

def Parts.any (p : Parts) : Bool := p.anyDb || p.icons

def everyPart : Parts := { profiles := true, routes := true, settings := true, otp := true, ipLists := true, icons := true }

def PartNames (p : Parts) : List String :=
  (if p.profiles then ["profiles"] else []) ++ (if p.routes then ["routes"] else []) ++
    (if p.settings then ["settings"] else []) ++ (if p.otp then ["otp"] else []) ++
    (if p.ipLists then ["ip_lists"] else []) ++ (if p.icons then ["icons"] else [])

/-- An unknown name is the error. -/
def PartsFromNames (names : List String) : Except String Parts :=
  names.foldlM
    (fun chosen name =>
      if name = "profiles" then .ok { chosen with profiles := true }
      else if name = "routes" then .ok { chosen with routes := true }
      else if name = "settings" then .ok { chosen with settings := true }
      else if name = "otp" then .ok { chosen with otp := true }
      else if name = "ip_lists" then .ok { chosen with ipLists := true }
      else if name = "icons" then .ok { chosen with icons := true }
      else .error name)
    {}

def isText : Json → Bool
  | .str _ => true
  | _ => false

/-- The names and the parts of `"parts"`, none where the request has none. -/
def readParts (value : Json) : Except String (Option (List String × Parts)) :=
  match value with
  | .null => .ok none
  | .arr items =>
    if !items.all isText then .error "\"parts\" must be an array of part names"
    else
      let list := (items.map Json.toStr).eraseDups
      if list.isEmpty then .error "\"parts\" names no part"
      else
        match PartsFromNames list with
        | .error unknown =>
          .error ("Unknown part \"" ++ unknown ++
            "\"; the parts are profiles, routes, settings, otp, ip_lists and icons")
        | .ok chosen => .ok (some (list, chosen))
  | _ => .error "\"parts\" must be an array of part names"

structure Info where
  createdAt : String := ""
  platform : String := ""
  available : Parts := {}

def Info.archive (info : Info) : Json :=
  .obj [("created_at", .str info.createdAt), ("platform", .str info.platform),
    ("parts", .arr ((PartNames info.available).map .str))]

/-! ## Transfers, workers, files -/

inductive Kind where
  | backups
  | restores
deriving DecidableEq

/-- A path of `TempPath`: no UUID is drawn twice. -/
structure Path where
  label : String
  uuid : Nat
deriving DecidableEq

structure Transfer where
  id : Nat
  upload : Bool := false
  path : Path
  size : Nat := 0
  received : Nat := 0
  sha256 : String := ""
  /-- The bytes fed to the digest so far. -/
  hash : Option Bytes := none
  working : Bool := false
  complete : Bool := false
  failure : String := ""
  parts : List String := []
  archive : Json := .null
  touchedAt : Int := 0
  waiter : Option Nat := none

/-- What `apply` captured. -/
structure Applying where
  id : Nat
  parts : Parts
  waiter : Option Nat

inductive Job where
  | build (parts : Parts)
  | inspect
  | check (apply : Applying)

def Job.kind : Job → Kind
  | .build _ => .backups
  | .inspect => .restores
  | .check _ => .restores

inductive Outcome where
  | built (failure : String) (size : Nat) (sha256 : String) (written : Parts)
  | inspected (failure : String) (info : Info)
  | checked (problem : String) (refused : Bool)

/-- Where a worker is; `reading` has the file open, and a `closed` one has its report queued. -/
inductive Stage where
  | ready
  | written (held : Parts)
  | reading (bytes : Bytes) (held : Parts)
  | closed (o : Outcome)

structure Worker where
  id : Nat
  path : Path
  job : Job
  stage : Stage := .ready

def Worker.reads (w : Worker) : Bool :=
  match w.stage with
  | .reading _ _ => true
  | _ => false

def Worker.checks (w : Worker) : Bool :=
  match w.job with
  | .check _ => true
  | _ => false

/-- What happened, newest first. -/
inductive Did where
  | announced (id size : Nat) (sha256 : String)
  | chunk (id : Nat) (bytes : Bytes)
  | inspected (id : Nat) (bytes : Bytes)
  | checked (id : Nat) (parts : Parts) (bytes : Option Bytes)
  | deleted (id : Nat)
  | applied (id : Nat) (parts : Parts) (bytes : Option Bytes)

structure Shelf where
  transfers : Kind → List Transfer := fun _ => []
  lastTransferId : Nat := 0
  files : Path → Option Bytes := fun _ => none
  drawn : Nat := 0
  workers : List Worker := []
  stops : List Applying := []
  transferSweep : Bool := false
  restarting : Bool := false
  log : List Did := []

/-- The digest as lower-case hexadecimal digits, and the base64 of a request. -/
structure Env where
  sha256 : Bytes → String
  fromBase64 : String → Option Bytes
  toBase64 : Bytes → String

def kKeptBackups : Nat := 2
def kOpenUploads : Nat := 2
def kIdleMs : Int := 10 * 60 * 1000
def kDefaultSlice : Int := 4 * 1024 * 1024
def kMaxSlice : Int := 16 * 1024 * 1024
def kChunkLimit : Nat := 512 * 1024
def kMaxUpload : Int := 2 ^ 30

namespace Shelf

def find (s : Shelf) (k : Kind) (id : Nat) : Option Transfer := (s.transfers k).find? fun t => t.id == id

def setList (s : Shelf) (k : Kind) (l : List Transfer) : Shelf := { s with transfers := update s.transfers k l }

/-- A transfer is shared: a write to it is seen in its list. -/
def modify (s : Shelf) (k : Kind) (id : Nat) (f : Transfer → Transfer) : Shelf :=
  s.setList k ((s.transfers k).map fun t => if t.id = id then f t else t)

def touch (s : Shelf) (k : Kind) (id : Nat) (now : Int) : Shelf := s.modify k id fun t => { t with touchedAt := now }

def write (s : Shelf) (path : Path) (bytes : Bytes) : Shelf :=
  { s with files := update s.files path (some bytes) }

def heldOpen (s : Shelf) (path : Path) : Bool := s.workers.any fun w => decide (w.path = path) && w.reads

/-- `QFile::remove`, which fails while a worker has the file open. -/
def remove (s : Shelf) (path : Path) : Shelf :=
  if s.heldOpen path then s else { s with files := update s.files path none }

def note (s : Shelf) (d : Did) : Shelf := { s with log := d :: s.log }

def drop (s : Shelf) (k : Kind) (t : Transfer) : Shelf :=
  ((s.setList k ((s.transfers k).filter fun u => u.id != t.id)).note (.deleted t.id)).remove t.path

def keep (s : Shelf) (k : Kind) (t : Transfer) (now : Int) : Shelf :=
  { s.setList k (s.transfers k ++ [{ t with touchedAt := now }]) with transferSweep := true }

/-- `++lastTransferId_`, for the transfer that the caller makes. -/
def nextTransfer (s : Shelf) : Shelf := { s with lastTransferId := s.lastTransferId + 1 }

def drawPath (s : Shelf) : Shelf := { s with drawn := s.drawn + 1 }

def TempPath (s : Shelf) (label : String) : Path := ⟨label, s.drawn⟩

def runOnNewThread (s : Shelf) (w : Worker) : Shelf := { s with workers := s.workers ++ [w] }

/-- The expiry sweep, which stops once no transfer is left. -/
def sweep (s : Shelf) (now : Int) : Shelf :=
  let expired (t : Transfer) : Bool := !t.working && decide (kIdleMs ≤ now - t.touchedAt)
  let s := ((s.transfers .backups).filter expired).foldl (fun s t => s.drop .backups t) s
  let s := ((s.transfers .restores).filter expired).foldl (fun s t => s.drop .restores t) s
  if (s.transfers .backups).isEmpty && (s.transfers .restores).isEmpty then { s with transferSweep := false } else s

end Shelf

/-! ## Requests -/

structure Router where
  desk : Desk := {}
  shelf : Shelf := {}

def Router.respond (s : Router) (request : Nat) (r : Response) : Router := { s with desk := s.desk.respond request r }

def Router.fail (s : Router) (waiter : Option Nat) (error : Response) : Router :=
    { s with desk := s.desk.fail waiter error }

structure ApplyResult where
  restored : Parts := {}
  skippedRules : Int := 0
  refused : Bool := false

/-- What the rest of the program answers during one event. -/
structure Moment where
  now : Int := 0
  connectionBusy : Bool := false
  running : Bool := false
  /-- `prepare_exit` -/
  exiting : Bool := false
  quiet : Option Response := none
  /-- The error text of `Apply`, empty on success. -/
  applyFailure : String := ""
  applyResult : ApplyResult := {}

/-- A body that was read, or the error that its fields give. -/
abbrev Body (α : Type) := Except Response α

structure BackupBody where
  parts : Json := .null
  options : WaitOptions := {}

section
variable (env : Env) (m : Moment)

def Router.postBackup (s : Router) (request : Nat) (body : Body BackupBody) : Router :=
  match body with
  | .error error => s.respond request error
  | .ok body =>
    match readParts body.parts with
    | .error problem => s.respond request (badRequest problem)
    | .ok chosen =>
      if kKeptBackups ≤ (s.shelf.transfers .backups).length then
        s.respond request (busy ("Throne keeps " ++ toString kKeptBackups ++ " backups at most; delete one first"))
      else
        let parts := (chosen.map Prod.snd).getD everyPart
        let id := s.shelf.lastTransferId + 1
        let path := s.shelf.TempPath "api-backup"
        let transfer : Transfer := { id := id, path := path, working := true, waiter := body.options.waiter request }
        { desk := s.desk.hold request body.options (inProgress id "building")
          shelf := ((s.shelf.nextTransfer.drawPath).keep .backups transfer m.now).runOnNewThread
            { id := id, path := path, job := .build parts } }

inductive Query where
  | absent
  | malformed
  | number (n : Int)

def queryInteger (fallback : Int) : Query → Option Int
  | .absent => some fallback
  | .malformed => none
  | .number n => some n

/-- Reading the slice fails with a text, or reads what the file has. -/
def Router.getBackup (s : Router) (request : Nat) (id : Nat) (offset length : Query) (read : Option String) : Router :=
  match queryInteger 0 offset, queryInteger kDefaultSlice length with
  | some offset, some length =>
    if offset < 0 ∨ length < 1 ∨ kMaxSlice < length then
      s.respond request
        (badRequest ("\"offset\" must not be negative and \"length\" must be from 1 to " ++ toString kMaxSlice))
    else
      match s.shelf.find .backups id with
      | none => s.respond request (notFound ("Unknown backup " ++ toString id))
      | some transfer =>
        let s : Router := { s with shelf := s.shelf.touch .backups id m.now }
        if transfer.working then s.respond request (busy "The backup is still being built")
        else if transfer.size < offset then
          s.respond request (badRequest ("\"offset\" is past the end of the " ++
            toString transfer.size ++ "-byte backup"))
        else
          let count := (min length (transfer.size - offset)).toNat
          let slice := if read.isSome then [] else (((s.shelf.files transfer.path).getD []).drop offset.toNat).take count
          if slice.length ≠ count then s.respond request (internal ("Could not read the backup: " ++ read.getD ""))
          else
            s.respond request (.Ok (.obj [("id", .num id), ("size", .num transfer.size),
              ("sha256", .str transfer.sha256),
              ("parts", .arr (transfer.parts.map .str)), ("offset", .num offset), ("data", .str (env.toBase64 slice)),
              ("eof", .bool (decide (transfer.size ≤ offset + count)))]))
  | _, _ => s.respond request (badRequest "\"offset\" and \"length\" must be integers")

def Router.answerWaiter (s : Router) (waiter : Option Nat) (r : Response) : Router :=
  match waiter with
  | none => s
  | some waiting => { s with desk := s.desk.answer waiting r }

def Router.drop (s : Router) (k : Kind) (t : Transfer) : Router := { s with shelf := s.shelf.drop k t }

def Router.deleteBackup (s : Router) (request : Nat) (id : Nat) : Router :=
  match s.shelf.find .backups id with
  | none => s.respond request (notFound ("Unknown backup " ++ toString id))
  | some transfer =>
    ((s.answerWaiter transfer.waiter (notFound ("Backup " ++ toString id ++ " was deleted before it was built"))).drop
      .backups transfer).respond request (.Ok (.obj [("deleted", .num id)]))

structure RestoreBody where
  size : Option Int := none
  sha256 : Option String := none

def isHexDigit (c : Char) : Bool := ('0' ≤ c && c ≤ '9') || ('a' ≤ c && c ≤ 'f') || ('A' ≤ c && c ≤ 'F')

def isSha256Hex (text : String) : Bool := text.length == 64 && text.toList.all isHexDigit

/-- Creating the file fails with a text, or makes it empty. -/
def Router.postRestore (s : Router) (request : Nat) (body : Body RestoreBody) (created : Option String) : Router :=
  match body with
  | .error error => s.respond request error
  | .ok body =>
    match body.size, body.sha256 with
    | some size, some sha256 =>
      if kMaxUpload < size then s.respond request (.Error 413 "too_large" "An archive may be 1 GiB at most")
      else if size < 1 then s.respond request (badRequest "\"size\" must be at least 1")
      else if !isSha256Hex sha256 then s.respond request (badRequest "\"sha256\" must be 64 hexadecimal digits")
      else if kOpenUploads ≤ (s.shelf.transfers .restores).length then
        s.respond request (busy (toString kOpenUploads ++ " uploads are already open; finish or delete one first"))
      else
        let path := s.shelf.TempPath "api-restore"
        match created with
        | some reason =>
          { s with shelf := s.shelf.drawPath }.respond request (internal ("Could not create the upload: " ++ reason))
        | none =>
          let id := s.shelf.lastTransferId + 1
          let transfer : Transfer :=
            { id := id, upload := true, path := path, size := size.toNat, sha256 := sha256.toLower, hash := some [] }
          { s with
            shelf := ((s.shelf.drawPath.nextTransfer.write path []).note (.announced id size.toNat sha256)).keep
              .restores transfer m.now }.respond request
            (.Ok (.obj [("id", .num id), ("chunk_limit", .num kChunkLimit)]))
    | _, _ => s.respond request (badRequest "\"size\" and \"sha256\" are required")

structure ChunkBody where
  offset : Option Int := none
  data : Option String := none
  options : WaitOptions := {}

/-- How writing a chunk goes: the file opens or not, a part of the bytes reaches it, the flush succeeds or not. -/
structure Writing where
  opened : Bool := true
  written : Nat
  flushed : Bool := true
  reason : String := ""

def Writing.whole (w : Writing) (chunk : Bytes) : Bool := w.opened && decide (chunk.length ≤ w.written) && w.flushed

/-- `QFile::resize` on a closed file. -/
def resized (bytes : Bytes) (size : Nat) : Bytes := bytes.take size ++ List.replicate (size - bytes.length) 0

/-- What the file holds after the write, and after the `resize` that follows a failure. -/
def Shelf.append (s : Shelf) (path : Path) (received : Nat) (chunk : Bytes) (w : Writing) : Shelf :=
  let before := (s.files path).getD []
  if w.whole chunk then s.write path (before ++ chunk)
  else if w.opened then s.write path (resized (before ++ chunk.take w.written) received)
  else
    match s.files path with
    | none => s
    | some bytes => s.write path (resized bytes received)

/-- The chunk is in the file: it counts, and is fed to the digest. -/
def Shelf.accept (s : Shelf) (id : Nat) (chunk : Bytes) : Shelf :=
  (s.modify .restores id fun t => { t with hash := t.hash.map (· ++ chunk), received := t.received + chunk.length }).note
    (.chunk id chunk)

/-- The transfer whose chunk completed the upload. -/
def Router.finishUpload (s : Router) (request : Nat) (transfer : Transfer) (chunk : Bytes)
    (options : WaitOptions) : Router :=
  let digest := env.sha256 ((transfer.hash.getD []) ++ chunk)
  if digest ≠ transfer.sha256 then
    (s.drop .restores transfer).respond request
      (.Error 422 "checksum_mismatch"
        ("The upload's SHA-256 is " ++ digest ++ ", not the announced " ++ transfer.sha256 ++ "; it was discarded"))
  else
    { desk := s.desk.hold request options (inProgress transfer.id "inspecting")
      shelf := (s.shelf.modify .restores transfer.id fun t =>
          { t with hash := none, working := true, waiter := options.waiter request }).runOnNewThread
        { id := transfer.id, path := transfer.path, job := .inspect } }

def Router.putChunk (s : Router) (request : Nat) (transfer : Transfer) (chunk : Bytes)
    (options : WaitOptions) (w : Writing) :
    Router :=
  let s : Router := { s with shelf := s.shelf.append transfer.path transfer.received chunk w }
  if !w.whole chunk then s.respond request (internal ("Could not write the upload: " ++ w.reason))
  else
    let s : Router := { s with shelf := s.shelf.accept transfer.id chunk }
    if transfer.received + chunk.length < transfer.size then
      s.respond request (.Ok (.obj [("id", .num transfer.id), ("size", .num transfer.size),
        ("received", .num (transfer.received + chunk.length : Nat))]))
    else s.finishUpload env request transfer chunk options

def Router.putRestore (s : Router) (request : Nat) (id : Nat) (body : Body ChunkBody) (w : Writing) : Router :=
  match body with
  | .error error => s.respond request error
  | .ok body =>
    match body.offset, body.data with
    | some offset, some data =>
      match s.shelf.find .restores id with
      | none => s.respond request (notFound ("Unknown restore " ++ toString id))
      | some transfer =>
        let s : Router := { s with shelf := s.shelf.touch .restores id m.now }
        if transfer.failure ≠ "" then s.respond request (invalidArchive transfer.failure)
        else if transfer.working then s.respond request (busy "The archive is being checked")
        else if transfer.complete then s.respond request (badRequest "The upload is already complete")
        else if offset ≠ transfer.received then
          s.respond request (.Error 409 "bad_offset" ("Expected offset " ++ toString transfer.received))
        else
          match env.fromBase64 data with
          | none => s.respond request (badRequest "\"data\" is not valid base64")
          | some chunk =>
            if chunk = [] ∨ kChunkLimit < chunk.length then
              s.respond request (badRequest ("\"data\" must decode to 1 to " ++ toString kChunkLimit ++ " bytes"))
            else if transfer.size < transfer.received + chunk.length then
              s.respond request
                (badRequest ("The chunk ends past the announced size of " ++ toString transfer.size ++ " bytes"))
            else s.putChunk env request transfer chunk body.options w
    | _, _ => s.respond request (badRequest "\"offset\" and \"data\" are required")

structure ApplyBody where
  parts : Json := .null
  options : WaitOptions := {}

/-- The parts to apply: those named, all of them in the archive; or all it has but settings and icons. -/
def chosenParts (transfer : Transfer) (value : Json) : Except Response Parts :=
  match readParts value with
  | .error problem => .error (badRequest problem)
  | .ok chosen =>
    let parts : Except Response Parts :=
      match chosen with
      | some (names, parts) =>
        match names.find? fun name => !transfer.parts.contains name with
        | some name => .error (badRequest ("The archive has no \"" ++ name ++ "\""))
        | none => .ok parts
      | none =>
        match PartsFromNames (transfer.parts.filter fun name => name ≠ "settings" && name ≠ "icons") with
        | .ok parts => .ok parts
        | .error _ => .ok {}
    match parts with
    | .error error => .error error
    | .ok parts =>
      if parts.any then .ok parts
      else .error (badRequest "The archive holds only settings or icons; name them in \"parts\" to restore them")

def Router.postRestoreApply (s : Router) (request : Nat) (id : Nat) (body : Body ApplyBody) : Router :=
  match body with
  | .error error => s.respond request error
  | .ok body =>
    match s.shelf.find .restores id with
    | none => s.respond request (notFound ("Unknown restore " ++ toString id))
    | some transfer =>
      let s : Router := { s with shelf := s.shelf.touch .restores id m.now }
      if transfer.failure ≠ "" then s.respond request (invalidArchive transfer.failure)
      else if transfer.working then s.respond request (busy "The archive is still being checked")
      else if !transfer.complete then s.respond request (.Error 409 "incomplete" "The upload is not complete")
      else
        match chosenParts transfer body.parts with
        | .error error => s.respond request error
        | .ok parts =>
          if m.connectionBusy then s.respond request busyConnection
          else
            match m.quiet with
            | some refused => s.respond request refused
            | none =>
              let waiter := body.options.waiter request
              { desk := s.desk.hold request body.options (inProgress id "applying")
                shelf := (s.shelf.modify .restores id fun t =>
                  { t with working := true, waiter := waiter }).runOnNewThread
                  { id := id, path := transfer.path, job := .check { id := id, parts := parts, waiter := waiter } } }

def Router.getRestore (s : Router) (request : Nat) (id : Nat) : Router :=
  match s.shelf.find .restores id with
  | none => s.respond request (notFound ("Unknown restore " ++ toString id))
  | some transfer =>
    let state :=
      if transfer.failure ≠ "" then "failed"
      else if transfer.working then "inspecting"
      else if transfer.complete then "complete"
      else "uploading"
    let members : List (String × Json) :=
      [("id", .num id), ("size", .num transfer.size), ("received", .num transfer.received), ("state", .str state)]
    let archive := if transfer.complete then [("archive", transfer.archive)] else []
    let error := if transfer.failure ≠ "" then [("error", Json.str transfer.failure)] else []
    { s with shelf := s.shelf.touch .restores id m.now }.respond request (.Ok (.obj (members ++ archive ++ error)))

def Router.deleteRestore (s : Router) (request : Nat) (id : Nat) : Router :=
  match s.shelf.find .restores id with
  | none => s.respond request (notFound ("Unknown restore " ++ toString id))
  | some transfer =>
    ((s.answerWaiter transfer.waiter
      (notFound ("Restore " ++ toString id ++ " was deleted before its archive was checked"))).drop
      .restores transfer).respond request (.Ok (.obj [("deleted", .num id)]))

/-! ## Workers -/

/-- What a worker may end with: it accepts nothing that it did not read, a check without profiles and routes apart. -/
def Worker.ends (w : Worker) : Outcome → Bool
  | .built failure size sha256 written =>
    match w.job, w.stage with
    | .build _, .reading bytes held =>
      decide (failure ≠ "") || (decide (size = bytes.length) &&
        decide (sha256 = env.sha256 bytes) && decide (written = held))
    | .build _, .ready => decide (failure ≠ "")
    | .build _, .written _ => decide (failure ≠ "")
    | _, _ => false
  | .inspected failure _ =>
    match w.job, w.stage with
    | .inspect, .reading _ _ => true
    | .inspect, .ready => decide (failure ≠ "")
    | _, _ => false
  | .checked problem _ =>
    match w.job, w.stage with
    | .check _, .reading _ _ => true
    | .check apply, .ready => decide (problem ≠ "") || (!apply.parts.profiles && !apply.parts.routes)
    | _, _ => false

def Worker.read (w : Worker) : Option Bytes :=
  match w.stage with
  | .reading bytes _ => some bytes
  | _ => none

/-- The failure of an inspection, which also refuses an archive of nothing. -/
def inspectFailure (failure : String) (info : Info) : String :=
  if failure = "" ∧ info.available.any = false then "The archive holds nothing Throne can restore" else failure

/-- The verdict that a worker ends with, when it accepts the file. -/
def Worker.verdict (w : Worker) (o : Outcome) : List Did :=
  match w.job, o with
  | .inspect, .inspected failure info => if inspectFailure failure info = "" then [.inspected w.id (w.read.getD [])] else []
  | .check apply, .checked problem _ => if problem = "" then [.checked w.id apply.parts w.read] else []
  | _, _ => []

namespace Shelf

def setStage (s : Shelf) (k : Nat) (w : Worker) (stage : Stage) : Shelf :=
  { s with workers := s.workers.set k { w with stage := stage } }

/-- `Build` commits the archive: the file appears whole. -/
def commit (s : Shelf) (k : Nat) (bytes : Bytes) (held : Parts) : Shelf :=
  match s.workers[k]? with
  | none => s
  | some w =>
    match w.job, w.stage with
    | .build _, .ready => (s.write w.path bytes).setStage k w (.written held)
    | _, _ => s

/-- What the worker is about to open, with what it wrote there. -/
def opens (w : Worker) : Option Parts :=
  match w.job, w.stage with
  | .build _, .written held => some held
  | .inspect, .ready => some {}
  | .check apply, .ready => if apply.parts.profiles || apply.parts.routes then some {} else none
  | _, _ => none

def openFile (s : Shelf) (k : Nat) : Shelf :=
  match s.workers[k]? with
  | none => s
  | some w =>
    match opens w, s.files w.path with
    | some held, some bytes => s.setStage k w (.reading bytes held)
    | _, _ => s

def finish (s : Shelf) (k : Nat) (o : Outcome) : Shelf :=
  match s.workers[k]? with
  | none => s
  | some w => if w.ends env o then { s.setStage k w (.closed o) with log := w.verdict o ++ s.log } else s

/-- The worker's report leaves the queue. -/
def retire (s : Shelf) (k : Nat) : Shelf := { s with workers := s.workers.eraseIdx k }

/-- What a report writes to its transfer before it looks at the result. -/
def settle (s : Shelf) (k : Kind) (id : Nat) (now : Int) : Shelf :=
  s.modify k id fun t => { t with working := false, waiter := none, touchedAt := now }

end Shelf

/-! ## Reports -/

def Router.buildReport (s : Router) (w : Worker) (failure : String) (size : Nat) (sha256 : String)
    (written : Parts) : Router :=
  match s.shelf.find .backups w.id with
  | none => { s with shelf := s.shelf.remove w.path }
  | some entry =>
    let waiter := entry.waiter
    let s : Router := { s with shelf := s.shelf.settle .backups w.id m.now }
    if failure ≠ "" then (s.drop .backups entry).fail waiter (internal failure)
    else
      let s : Router :=
        { s with
          shelf := s.shelf.modify .backups w.id fun t =>
            { t with size := size, sha256 := sha256, parts := PartNames written, complete := true } }
      s.answerWaiter waiter (.Ok (.obj [("id", .num w.id), ("size", .num size), ("sha256", .str sha256),
        ("parts", .arr ((PartNames written).map .str))]))

def Router.inspectReport (s : Router) (w : Worker) (failure : String) (info : Info) : Router :=
  match s.shelf.find .restores w.id with
  | none => { s with shelf := s.shelf.remove w.path }
  | some entry =>
    let waiter := entry.waiter
    let s : Router := { s with shelf := s.shelf.settle .restores w.id m.now }
    let failure := inspectFailure failure info
    if failure ≠ "" then
      if s.desk.waits waiter then (s.drop .restores entry).answerWaiter waiter (invalidArchive failure)
      else { s with shelf := s.shelf.modify .restores w.id fun t => { t with failure := failure } }
    else
      let s : Router :=
        { s with
          shelf := s.shelf.modify .restores w.id fun t =>
            { t with complete := true, parts := PartNames info.available, archive := info.archive } }
      s.answerWaiter waiter (.Ok (.obj [("id", .num w.id), ("size", .num entry.size), ("received", .num entry.received),
        ("archive", info.archive)]))

/-- The transfer is looked up again: it may be gone by now. -/
def Router.apply (s : Router) (a : Applying) : Router :=
  match s.shelf.find .restores a.id with
  | none => s.fail a.waiter (notFound ("Restore " ++ toString a.id ++ " was deleted before it was applied"))
  | some entry =>
    if m.exiting then s.fail a.waiter exiting
    else
      match m.quiet with
      | some busyNow => s.fail a.waiter busyNow
      | none =>
        let s : Router := { s with shelf := s.shelf.note (.applied a.id a.parts (s.shelf.files entry.path)) }
        if m.applyResult.refused then s.fail a.waiter (invalidArchive m.applyFailure)
        else if m.applyFailure ≠ "" then s.fail a.waiter (internal m.applyFailure)
        else
          let s := s.drop .restores entry
          let s : Router := { s with shelf := { s.shelf with restarting := true } }
          s.answerWaiter a.waiter (.Ok (.obj [("restored", .arr ((PartNames m.applyResult.restored).map .str)),
            ("skipped_rules", .num m.applyResult.skippedRules), ("restarting", .bool true)]))

def Router.afterStop (s : Router) (a : Applying) : Router :=
  if m.connectionBusy then s.fail a.waiter busyConnection
  else if m.running then { s with shelf := { s.shelf with stops := s.shelf.stops ++ [a] } }
  else s.apply m a

def Router.checkReport (s : Router) (w : Worker) (a : Applying) (problem : String) (refused : Bool) : Router :=
  match s.shelf.find .restores w.id with
  | none => s
  | some _ =>
    let s : Router := { s with shelf := s.shelf.settle .restores w.id m.now }
    if problem ≠ "" then s.fail a.waiter (if refused then invalidArchive problem else internal problem)
    else s.afterStop m a

def Router.report (s : Router) (k : Nat) : Router :=
  match s.shelf.workers[k]? with
  | none => s
  | some w =>
    let s' : Router := { s with shelf := s.shelf.retire k }
    match w.job, w.stage with
    | .build _, .closed (.built failure size sha256 written) => s'.buildReport m w failure size sha256 written
    | .inspect, .closed (.inspected failure info) => s'.inspectReport m w failure info
    | .check a, .closed (.checked problem refused) => s'.checkReport m w a problem refused
    | _, _ => s

/-- The running profile has stopped: the next of the callbacks that wait for it runs. -/
def Router.stopFinished (s : Router) : Router :=
  match s.shelf.stops with
  | [] => s
  | a :: stops => { s with shelf := { s.shelf with stops := stops } }.apply m a

/-! ## Runs -/

inductive Request where
  | postBackup (body : Body BackupBody)
  | getBackup (id : Nat) (offset length : Query) (read : Option String)
  | deleteBackup (id : Nat)
  | postRestore (body : Body RestoreBody) (created : Option String)
  | putRestore (id : Nat) (body : Body ChunkBody) (w : Writing)
  | postRestoreApply (id : Nat) (body : Body ApplyBody)
  | getRestore (id : Nat)
  | deleteRestore (id : Nat)

def Router.handle (s : Router) (request : Nat) : Request → Router
  | .postBackup body => s.postBackup m request body
  | .getBackup id offset length read => s.getBackup env m request id offset length read
  | .deleteBackup id => s.deleteBackup request id
  | .postRestore body created => s.postRestore m request body created
  | .putRestore id body w => s.putRestore env m request id body w
  | .postRestoreApply id body => s.postRestoreApply m request id body
  | .getRestore id => s.getRestore m request id
  | .deleteRestore id => s.deleteRestore request id

/-- `refused` is what the dispatcher answers before any handler. -/
inductive Act where
  | request (refused : Option Response) (r : Request)
  | deadline (request : Nat)
  | sweep
  | commit (k : Nat) (bytes : Bytes) (held : Parts)
  | openFile (k : Nat)
  | finish (k : Nat) (o : Outcome)
  | report (k : Nat)
  | stopFinished

def Router.dispatch (s : Router) (refused : Option Response) (r : Request) : Router :=
  let request := s.desk.requests
  let s : Router := { s with desk := { s.desk with requests := request + 1 } }
  if s.shelf.restarting then s.respond request (.Error 503 "restarting" "Throne is restarting")
  else
    match refused with
    | some error => s.respond request error
    | none => s.handle env m request r

def Router.act (s : Router) : Act → Router
  | .request refused r => s.dispatch env m refused r
  | .deadline request => { s with desk := s.desk.onTimeout request }
  | .sweep => if s.shelf.transferSweep then { s with shelf := s.shelf.sweep m.now } else s
  | .commit k bytes held => { s with shelf := s.shelf.commit k bytes held }
  | .openFile k => { s with shelf := s.shelf.openFile k }
  | .finish k o => { s with shelf := s.shelf.finish env k o }
  | .report k => s.report m k
  | .stopFinished => s.stopFinished m

end

/-- One event, with what the rest of the program answers meanwhile. -/
def Router.step (env : Env) (s : Router) (e : Act × Moment) : Router := s.act env e.2 e.1

def run (env : Env) (es : List (Act × Moment)) : Router := es.foldl (Router.step env) {}

end Waterdisco.Transfers
