import Mathlib.Data.List.AList
import Waterdisco.Lib.Interrupted

/-!
# The system DNS of macOS

While a Tun runs, the network service of the default interface resolves through `Address`,
an alias of the loopback interface.  What a service had before is written to a record file
first, so that the next core can put it back:

    point     read the servers, record them, set [Address]
    restore   set the recorded servers, forget them, write the record
    stale     a record of a process that is gone is replayed; what failed is kept in it

The functions are programs over the calls that leave the process; it may be killed between
any two of them.  Locks are held by one process at a time, so they are left out.
-/

namespace Waterdisco.SysDns

def Address : String := "127.0.0.53"

abbrev Services := AList fun _ : String => List String

structure Record where
  pid : Nat := 0
  hasAlias : Bool := false
  services : Services := ∅

/-! ## Calls that leave the process -/

inductive Op where
  | loadRecord
  | writeRecord (r : Record)
  | removeRecord
  | dnsServers (service : String)
  | setDNSServers (service : String) (servers : List String)
  | aliasPresent
  | addAlias
  | removeAlias
  | defaultInterface
  | serviceForDevice (device : String)
  | rangeOver (keys : List String)
  | probe

/-- A failed call answers `none` or `false`. -/
abbrev Res : Op → Type
  | .loadRecord => Option Record
  | .writeRecord _ => Unit
  | .removeRecord => Unit
  | .dnsServers _ => Option (List String)
  | .setDNSServers _ _ => Bool
  | .aliasPresent => Bool
  | .addAlias => Bool
  | .removeAlias => Bool
  | .defaultInterface => Option String
  | .serviceForDevice _ => Option String
  | .rangeOver _ => List String
  | .probe => Bool

/-- The machine: `ours` says that a core added the alias.  `failures` counts the failed calls of the network tools, and
`stuck` says that a removal of the alias was one of them. -/
structure World where
  servers : String → List String
  file : Option Record := none
  hasAlias : Bool := false
  ours : Bool := false
  failures : Nat := 0
  stuck : Bool := false

def World.failed (w : World) : World := { w with failures := w.failures + 1 }

def World.set (w : World) (service : String) (servers : List String) : World :=
  { w with servers := Function.update w.servers service servers }

/-- What a call may answer, and what it does.  Writing the record is atomic and succeeds; a map is ranged over in any order;
the pattern that finds a service matches no empty name. -/
def Step (w : World) : (o : Op) → Res o → World → Prop
  | .loadRecord, r, w' => r = w.file ∧ w' = w
  | .writeRecord record, _, w' => w' = { w with file := some record }
  | .removeRecord, _, w' => w' = { w with file := none }
  | .dnsServers service, r, w' => (r = none ∧ w' = w.failed) ∨ (r = some (w.servers service) ∧ w' = w)
  | .setDNSServers service servers, ok, w' => (ok = false ∧ w' = w.failed) ∨ (ok = true ∧ w' = w.set service servers)
  | .aliasPresent, present, w' => present = w.hasAlias ∧ w' = w
  | .addAlias, ok, w' => (ok = false ∧ w' = w.failed) ∨ (ok = true ∧
      w' = { w with hasAlias := true, ours := w.ours || !w.hasAlias })
  | .removeAlias, ok, w' =>
    (ok = false ∧ w' = { w.failed with stuck := true }) ∨ (ok = true ∧ w' = { w with hasAlias := false, ours := false })
  | .defaultInterface, _, w' => w' = w
  | .serviceForDevice _, r, w' => (r = none ∧ w' = w.failed) ∨ (r ≠ none ∧ r ≠ some "" ∧ w' = w)
  | .rangeOver keys, order, w' => order.Perm keys ∧ w' = w
  | .probe, _, w' => w' = w

abbrev P (α : Type) := Prog Op Res α

def ask (o : Op) : P (Res o) := Prog.ask o

/-! ## A core -/

/-- The variables of a process.  `monitor` says that an interface monitor is followed. -/
structure Core where
  pid : Nat
  root : Bool := true
  owned : Record := {}
  current : String := ""
  monitor : Bool := false
  followGen : Nat := 0

def Core.withServices (c : Core) (services : Services) : Core := { c with owned := { c.owned with services := services } }

def Core.delete (c : Core) (service : String) : Core := c.withServices (c.owned.services.erase service)

/-- At most one core is alive, so a process of this program with another pid is not. -/
def alive (self pid : Nat) : Bool := decide (0 < pid) && decide (pid = self)

def saveLocked (c : Core) : P Unit := ask (.writeRecord c.owned)

def removeAlias : P Unit := do
  let present ← (ask .aliasPresent : P Bool)
  if present then
    let _ ← (ask .removeAlias : P Bool)
    pure ()
  else pure ()

def restoreLocked (service : String) (c : Core) : P Core := do
  let ok ← (ask (.setDNSServers service ((c.owned.services.lookup service).getD [])) : P Bool)
  if ok then
    saveLocked (c.delete service)
    pure (c.delete service)
  else pure c

/-- One service of a dead core's record. -/
def replay (stored : Record) (services : Services) (service : String) : P Services := do
  let ok ← (ask (.setDNSServers service ((stored.services.lookup service).getD [])) : P Bool)
  pure (if ok then services.erase service else services)

def replayAlias (stored : Record) : P Unit := if stored.hasAlias then removeAlias else pure ()

/-- The replay itself; what could not be put back is the result. -/
def replayRecord (stored : Record) : P Services := do
  let order ← (ask (.rangeOver stored.services.keys) : P (List String))
  let services ← Prog.foldlM (replay stored) stored.services order
  replayAlias stored
  if services.keys.isEmpty then
    (ask .removeRecord : P Unit)
    pure ∅
  else
    (ask (.writeRecord { stored with hasAlias := false, services := services }) : P Unit)
    pure services

def restoreStaleLocked (c : Core) : P Services := do
  let stored ← (ask .loadRecord : P (Option Record))
  match stored with
  | none => pure ∅
  | some stored => if stored.pid = c.pid ∨ alive c.pid stored.pid then pure ∅ else replayRecord stored

def removeRecordLocked (c : Core) : P Unit := do
  let stored ← (ask .loadRecord : P (Option Record))
  match stored with
  | none => pure ()
  | some stored => if stored.pid ≠ c.pid then pure () else (ask .removeRecord : P Unit)

def RestoreStale (c : Core) : P Core :=
  if !c.root then pure c
  else do
    let _ ← restoreStaleLocked c
    pure c

/-- `owned.Alias || !aliasPresent()` -/
def wantsAlias (c : Core) : P Bool :=
  if c.owned.hasAlias then pure true
  else do
    let present ← (ask .aliasPresent : P Bool)
    pure !present

/-- The alias is added where it is missing; false for an error. -/
def addMissingAlias (c : Core) : P Bool :=
  if c.owned.hasAlias then do
    let present ← (ask .aliasPresent : P Bool)
    if present then pure true else (ask .addAlias : P Bool)
  else pure true

/-- The result says whether there was no error. -/
def Prepare (c : Core) : P (Core × Bool) :=
  if !c.root then pure (c, false)
  else do
    let leftovers ← restoreStaleLocked c
    let wanted ← wantsAlias c
    let c := { c with owned := { pid := c.pid, hasAlias := wanted, services := leftovers ∪ c.owned.services } }
    saveLocked c
    let added ← addMissingAlias c
    if !added then pure (c, false)
    else do
      let bound ← (ask .probe : P Bool)
      pure (c, bound)

def pointRecorded (service : String) (c : Core) : P (Core × Bool) := do
  let ok ← (ask (.setDNSServers service [Address]) : P Bool)
  pure (c, ok)

def pointLocked (service : String) (c : Core) : P (Core × Bool) :=
  if service ∈ c.owned.services then pointRecorded service c
  else do
    let previous ← (ask (.dnsServers service) : P (Option (List String)))
    match previous with
    | none => pure (c, false)
    | some previous =>
      -- Only a dead core leaves exactly this behind, and its record has already been replayed.
      let previous := if previous = [Address] then [] else previous
      let c := c.withServices (c.owned.services.insert service previous)
      saveLocked c
      pointRecorded service c

/-- The service that was pointed at before is restored. -/
def leavePrevious (service : String) (c : Core) : P (Core × Bool) :=
  if c.current = "" then pure ({ c with current := service }, true)
  else do
    let c ← restoreLocked c.current c
    pure ({ c with current := service }, true)

def followLocked (c : Core) : P (Core × Bool) := do
  let device ← (ask .defaultInterface : P (Option String))
  match device with
  | none => pure (c, true)
  | some device =>
    let service ← (ask (.serviceForDevice device) : P (Option String))
    match service with
    | none => pure (c, false)
    | some service =>
      if service = c.current then pure (c, true)
      else
        let pointed ← pointLocked service c
        if pointed.2 then leavePrevious service pointed.1 else pure pointed

def Apply (c : Core) : P (Core × Bool) :=
  if c.owned.pid = 0 then pure (c, false) else followLocked { c with monitor := true, followGen := c.followGen + 1 }

/-- An interface change that was announced to the generation `gen`. -/
def follow (gen : Nat) (c : Core) : P Core :=
  if gen ≠ c.followGen ∨ c.monitor = false then pure c
  else do
    let followed ← followLocked c
    pure followed.1

def removeOwnedAlias (c : Core) : P Core :=
  if c.owned.hasAlias then do
    removeAlias
    pure { c with owned := { c.owned with hasAlias := false } }
  else pure c

def Release (c : Core) : P Core :=
  let c := { c with followGen := c.followGen + 1, monitor := false, current := "" }
  if c.owned.pid = 0 then pure c
  else do
    let order ← (ask (.rangeOver c.owned.services.keys) : P (List String))
    let c ← Prog.foldlM (fun c service => restoreLocked service c) c order
    let c ← removeOwnedAlias c
    if !c.owned.services.keys.isEmpty then do
      saveLocked c
      pure c
    else do
      removeRecordLocked c
      pure { c with owned := {} }

end Waterdisco.SysDns
