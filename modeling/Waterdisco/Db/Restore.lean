import Mathlib.Data.List.DropRight
import Mathlib.Data.List.MinMax
import Waterdisco.Lib.Digits
import Waterdisco.Lib.Statements

/-!
# Restoring parts of a backup

`Database::restoreSelective` of Database.cpp: the tables of the chosen parts are wiped and
filled from the backup, in one transaction; then the ids that cross the parts are repaired.
A reference is an id in one table that names a row of another.  Every row carries where it
was before the call (`Origin`), which no statement reads.

Columns that hold no reference and that no statement reads are left out.
-/

namespace Waterdisco.Restore

/-! ## Rows -/

/-- Where a row was before the call; `call` for a setting that the call has written. -/
inductive Origin
  | host
  | backup
  | call
deriving DecidableEq

structure ProfileRow where
  id : Int
  origin : Origin
deriving DecidableEq

structure GroupRow where
  id : Int
  routeId : Int
  origin : Origin
deriving DecidableEq

structure GroupOrderRow where
  groupId : Int
  displayOrder : Int
deriving DecidableEq

/-- `filled` are the columns that hold neither NULL nor `''`, `'[]'` or 0. -/
structure RuleRow where
  routeProfileId : Int
  ruleOrder : Int
  outboundId : Int
  filled : List String
  origin : Origin
deriving DecidableEq

structure RouteProfileRow where
  id : Int
  defaultOutboundId : Int
  endpointProfileIds : List Int
  innerHopEndpointIds : List Int
  sourceGid : Int
  origin : Origin
deriving DecidableEq

structure SettingRow where
  key : String
  value : List Char
  origin : Origin
deriving DecidableEq

structure MarkerRow where
  key : String
deriving DecidableEq

structure OtpProfileRow where
  id : Int
deriving DecidableEq

structure IpListEntryRow where
  ipListId : Int
deriving DecidableEq

structure IpScanRow where
  id : Int
deriving DecidableEq

structure IpListRow where
  id : Int
deriving DecidableEq

/-- The last id given out for each kind. -/
structure EntityIds where
  profileLastId : Int
  groupLastId : Int
  routeProfileLastId : Int
  otpProfileLastId : Int
  ipListLastId : Int
  ipScanLastId : Int
deriving DecidableEq

structure Db where
  profiles : Table ProfileRow
  groupsOrder : Table GroupOrderRow
  groups : Table GroupRow
  routeRules : Table RuleRow
  routeProfiles : Table RouteProfileRow
  settings : Table SettingRow
  markers : Table MarkerRow
  otpProfiles : Table OtpProfileRow
  ipListEntries : Table IpListEntryRow
  ipScans : Table IpScanRow
  ipLists : Table IpListRow
  entityIds : Table EntityIds

structure BackupParts where
  profiles : Bool := false
  routes : Bool := false
  settings : Bool := false
  otp : Bool := false
  ipLists : Bool := false

def BackupParts.anyDb (parts : BackupParts) : Bool :=
  parts.profiles || parts.routes || parts.settings || parts.otp || parts.ipLists

/-! ## Settings -/

def noProfileId : Int := -1919

def IsInt (n : Int) : Prop := -2 ^ 31 ≤ n ∧ n < 2 ^ 31

instance (n : Int) : Decidable (IsInt n) := inferInstanceAs (Decidable (_ ∧ _))

/-- A decimal number, with a sign or not. -/
def signed (text : List Char) : Option Int :=
  match text with
  | '-' :: rest => if rest.isEmpty then none else (readDigits 10 decimalDigit rest).map fun n => -(n : Int)
  | '+' :: rest => if rest.isEmpty then none else (readDigits 10 decimalDigit rest).map fun n => (n : Int)
  | rest => if rest.isEmpty then none else (readDigits 10 decimalDigit rest).map fun n => (n : Int)

/-- `QString::toInt`: 0 for what is no number, or none of 32 bits. -/
def toInt (text : List Char) : Int :=
  match signed ((text.dropWhile isSpace).rdropWhile isSpace) with
  | some n => if IsInt n then n else 0
  | none => 0

/-- `std::to_string`. -/
def toText (n : Int) : List Char := if n < 0 then '-' :: Nat.toDigits 10 n.natAbs else Nat.toDigits 10 n.natAbs

def settingRow (d : Db) (key : String) : Option SettingRow := d.settings.rows.find? fun r => r.key == key

def databaseSettingId (d : Db) (key : String) : Option Int := (settingRow d key).map fun r => toInt r.value

def databaseSetSettingId (key : String) (id : Int) (d : Db) : Db :=
  { d with settings := { d.settings with rows := d.settings.rows.filter (fun r => r.key != key) ++ [⟨key, toText id, .call⟩] } }

/-! ## Copying -/

def GroupRow.copied (has : String → Bool) (r : GroupRow) : GroupRow :=
  { r with routeId := if has "route_id" then r.routeId else -1 }

def RuleRow.copied (has : String → Bool) (r : RuleRow) : RuleRow :=
  { r with
    outboundId := if has "outbound_id" then r.outboundId else -2
    filled := r.filled.filter has }

def RouteProfileRow.copied (has : String → Bool) (r : RouteProfileRow) : RouteProfileRow :=
  { r with
    defaultOutboundId := if has "default_outbound_id" then r.defaultOutboundId else -1
    endpointProfileIds := if has "endpoint_profile_ids" then r.endpointProfileIds else []
    innerHopEndpointIds := if has "inner_hop_endpoint_ids" then r.innerHopEndpointIds else []
    sourceGid := if has "source_gid" then r.sourceGid else -1 }

/-- A table that is replaced whole. -/
def copyTable {Row : Type*} (copied : (String → Bool) → Row → Row) (main bak : Table Row) : Table Row :=
  main.replace bak copied (fun _ => false) (fun _ => true)

/-- No column that this schema lacks holds anything: copied without it, the rule would match more. -/
def keepRow (main bak : Table RuleRow) (r : RuleRow) : Bool :=
  bak.columns.all fun column => main.hasColumn column || !r.filled.contains column

/-- Rules that are not copied. -/
def skippedRules (main bak : Table RuleRow) : Nat :=
  if !main.isPresent || !bak.isPresent || !main.columns.any bak.hasColumn then 0
  else (bak.rows.filter fun r => !keepRow main bak r).length

/-- The rules of a profile are numbered anew where some are left out. -/
def copyRules (main bak : Table RuleRow) : Table RuleRow :=
  let kept := bak.rows.filter (keepRow main bak)
  let place := fun r : RuleRow =>
    (kept.filter fun s => s.routeProfileId == r.routeProfileId && decide (s.ruleOrder < r.ruleOrder)).length
  let renumbered := fun r : RuleRow => if 0 < skippedRules main bak then { r with ruleOrder := place r } else r
  main.replace { bak with rows := kept.map renumbered } RuleRow.copied (fun _ => false) (fun _ => true)

/-- Rows whose key is kept stay those of `main`. -/
def copySettings (keepKeys : List String) (main bak : Table SettingRow) : Table SettingRow :=
  main.replace bak (fun _ r => r) (fun r => keepKeys.contains r.key) (fun r => !keepKeys.contains r.key)

/-! ## The transaction -/

inductive Outcome
  | returned (skippedRules : Nat)
  | threw
deriving DecidableEq

/-- `throws` tells which statement throws.  Statement 0 is `ATTACH`, 1 turns foreign keys off and 2 is `BEGIN`;
after the body come `COMMIT` and two statements outside the transaction.  Up to `COMMIT` a throw
leaves the rows as they were at `BEGIN`. -/
def transaction {D : Type} (parts : BackupParts) (statements : List (D → D)) (skippedRules : Nat) (throws : Nat → Bool)
    (host : D) : Outcome × D :=
  if !parts.anyDb then (.returned 0, host)
  else
    let begun := runStatements throws 0 [id, id, id] host
    if !begun.1 then (.threw, host)
    else
      let filled := runStatements throws 3 statements host
      let committed := filled.1 && !throws (3 + statements.length)
      if !committed then (.threw, host)
      else if throws (4 + statements.length) || throws (5 + statements.length) then (.threw, filled.2)
      else (.returned (if parts.routes then skippedRules else 0), filled.2)

def keepHostId (tableReplaced : Bool) (key : String) (keys : List String) : List String :=
  if !tableReplaced && !keys.contains key then keys ++ [key] else keys

/-- An id whose table stays this host's keeps this host's value. -/
def keptIds (routes groups profiles : Bool) (keys : List String) : List String :=
  keepHostId routes "current_route_id" (keepHostId groups "current_group" (keepHostId profiles "remember_id" keys))

/-- A missing id is written too: the default need not resolve. -/
def repairId {D : Type} (write : Int → D → D) (current : Option Int) (stale : Bool) (ids : List Int)
    (fallback : Option Int)
    (d : D) : D :=
  if current = none ∨ stale = true ∨ current.any (fun id => decide (id ∉ ids)) = true then
    match fallback with
    | some id => if fallback = current then d else write id d
    | none => d
  else d

section

variable (parts : BackupParts) (preservedSettingKeys : List String) (host bak : Db)

def profilesReplaced : Bool := parts.profiles && host.profiles.isPresent && bak.profiles.isPresent

def groupsReplaced : Bool := parts.profiles && host.groups.isPresent && bak.groups.isPresent

def routesReplaced : Bool := parts.routes && host.routeProfiles.isPresent && bak.routeProfiles.isPresent

def settingsReplaced : Bool := parts.settings && host.settings.isPresent && bak.settings.isPresent

def settingKeepKeys : List String :=
  keptIds (routesReplaced parts host bak) (groupsReplaced parts host bak) (profilesReplaced parts host bak) preservedSettingKeys

def copyProfileTables : List (Db → Db) :=
  [fun d => { d with profiles := copyTable (fun _ r => r) d.profiles bak.profiles },
   fun d => { d with groupsOrder := copyTable (fun _ r => r) d.groupsOrder bak.groupsOrder },
   fun d => { d with groups := copyTable GroupRow.copied d.groups bak.groups }]

def copyRouteTables : List (Db → Db) :=
  [fun d => { d with routeRules := copyRules d.routeRules bak.routeRules },
   fun d => { d with routeProfiles := copyTable RouteProfileRow.copied d.routeProfiles bak.routeProfiles }]

/-- Settings saved before there were markers have been through no migration yet. -/
def copySettingTables : List (Db → Db) :=
  [fun d => { d with settings := copySettings (settingKeepKeys parts preservedSettingKeys host bak) d.settings bak.settings },
   fun d => { d with markers := copyTable (fun _ r => r) d.markers bak.markers },
   fun d => if !bak.markers.isPresent && d.markers.isPresent then { d with markers := { d.markers with rows := [] } } else d]

def copyOtpTables : List (Db → Db) :=
  [fun d => { d with otpProfiles := copyTable (fun _ r => r) d.otpProfiles bak.otpProfiles }]

def copyIpListTables : List (Db → Db) :=
  [fun d => { d with ipListEntries := copyTable (fun _ r => r) d.ipListEntries bak.ipListEntries },
   fun d => { d with ipScans := copyTable (fun _ r => r) d.ipScans bak.ipScans },
   fun d => { d with ipLists := copyTable (fun _ r => r) d.ipLists bak.ipLists }]

def copies : List (Db → Db) :=
  (if parts.profiles then copyProfileTables bak else []) ++ (if parts.routes then copyRouteTables bak else []) ++
    (if parts.settings then copySettingTables parts preservedSettingKeys host bak else []) ++
    (if parts.otp then copyOtpTables bak else []) ++ (if parts.ipLists then copyIpListTables bak else [])

/-! ### Ids in the settings -/

def keptHere (key : String) : Bool :=
  !settingsReplaced parts host bak || (settingKeepKeys parts preservedSettingKeys host bak).contains key

def repairRememberId (d : Db) : Db :=
  match databaseSettingId d "remember_id" with
  | some id =>
    if 0 ≤ id ∧ ((profilesReplaced parts host bak && keptHere parts preservedSettingKeys host bak "remember_id") = true ∨
        id ∉ d.profiles.rows.map ProfileRow.id) then
      databaseSetSettingId "remember_id" noProfileId d
    else d
  | none => d

/-- The first listed group that exists, else the one of the lowest id. -/
def firstGroup (d : Db) : Option Int :=
  let listed := d.groupsOrder.rows.filter fun o => decide (o.groupId ∈ d.groups.rows.map GroupRow.id)
  match listed.minOn? GroupOrderRow.displayOrder with
  | some o => some o.groupId
  | none => (d.groups.rows.map GroupRow.id).min?

def lowestRoute (d : Db) : Option Int := (d.routeProfiles.rows.map RouteProfileRow.id).min?

def repairSettingId (key : String) (stale : Bool) (ids : List Int) (fallback : Option Int) (d : Db) : Db :=
  repairId (databaseSetSettingId key) (databaseSettingId d key) stale ids fallback d

def repairCurrentGroup (d : Db) : Db :=
  repairSettingId "current_group" (groupsReplaced parts host bak &&
    keptHere parts preservedSettingKeys host bak "current_group")
    (d.groups.rows.map GroupRow.id) (firstGroup d) d

def repairCurrentRoute (d : Db) : Db :=
  repairSettingId "current_route_id"
    (routesReplaced parts host bak && keptHere parts preservedSettingKeys host bak "current_route_id")
    (d.routeProfiles.rows.map RouteProfileRow.id) (lowestRoute d) d

def repairs : List (Db → Db) :=
  if host.settings.isPresent then
    [repairRememberId parts preservedSettingKeys host bak, repairCurrentGroup parts preservedSettingKeys host bak,
     repairCurrentRoute parts preservedSettingKeys host bak]
  else []

/-! ### Ids across the two parts -/

/-- Restored apart, the ids would name unrelated rows. -/
def resets : List (Db → Db) :=
  if groupsReplaced parts host bak != routesReplaced parts host bak then
    [fun d => if d.groups.hasColumn "route_id" then { d with groups := d.groups.update fun r => { r with routeId := -1 } } else d,
     fun d =>
       if d.routeProfiles.hasColumn "source_gid" then
         { d with routeProfiles := d.routeProfiles.update fun r => { r with sourceGid := -1 } }
       else d]
  else []

/-! ### Id counters -/

/-- `COALESCE(MAX(id), 0)`. -/
def maxOr0 (ids : List Int) : Int := ids.max?.getD 0

/-- A counter is moved past the ids of its table and past the backup's counter, where it has one. -/
def raised (bakHas : Bool) (bakCounters : List Int) (ids : List Int) (counter : Int) : Int :=
  let moved := max counter (maxOr0 ids)
  if bakHas then max moved (maxOr0 bakCounters) else moved

open EntityIds

def counters : List (Db → Db) :=
  let moved := fun (has : Bool) (counter : EntityIds → Int) (ids : List Int) (e : EntityIds) =>
    raised has (bak.entityIds.rows.map counter) ids (counter e)
  let entity := bak.entityIds.isPresent
  (if parts.profiles || parts.routes then
    [fun d => { d with entityIds := d.entityIds.update fun e => { e with
      profileLastId := moved entity profileLastId (d.profiles.rows.map ProfileRow.id) e
      groupLastId := moved entity groupLastId (d.groups.rows.map GroupRow.id) e
      routeProfileLastId := moved entity routeProfileLastId (d.routeProfiles.rows.map RouteProfileRow.id) e } }]
   else []) ++
  (if parts.otp then
    [fun d => { d with entityIds := d.entityIds.update fun e => { e with
      otpProfileLastId :=
        moved (bak.entityIds.hasColumn "otp_profile_last_id") otpProfileLastId (d.otpProfiles.rows.map OtpProfileRow.id) e } }]
   else []) ++
  (if parts.ipLists then
    [fun d => { d with entityIds := d.entityIds.update fun e => { e with
      ipListLastId := moved (bak.entityIds.hasColumn "ip_list_last_id") ipListLastId (d.ipLists.rows.map IpListRow.id) e } },
     fun d => { d with entityIds := d.entityIds.update fun e => { e with
      ipScanLastId := moved (bak.entityIds.hasColumn "ip_scan_last_id") ipScanLastId (d.ipScans.rows.map IpScanRow.id) e } }]
   else [])

/-- What runs between `BEGIN` and `COMMIT`. -/
def body : List (Db → Db) :=
  copies parts preservedSettingKeys host bak ++ repairs parts preservedSettingKeys host bak ++ resets parts host bak ++
    counters parts bak

def restoreSelective (throws : Nat → Bool) : Outcome × Db :=
  transaction parts (body parts preservedSettingKeys host bak) (skippedRules host.routeRules bak.routeRules) throws host

end

end Waterdisco.Restore
