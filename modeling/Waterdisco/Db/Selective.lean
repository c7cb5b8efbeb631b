import Waterdisco.Db.Restore
import Waterdisco.Lib.SqlTable

/-!
# Backups of some parts

`Database::backupSelective` and `restoreSelective` with whole rows: every table of a part is
copied by the columns that both sides have.  `Restore` has the same transaction for the
columns that hold references, with where each row was before.

A statement on a table that is not there throws; here it does nothing, and `throws` says
which statements throw.
-/

namespace Waterdisco.Selective

open Restore (BackupParts Outcome noProfileId toInt toText raised keptIds repairId transaction)
open Sql

abbrev Db := String → Option CellTable

def kProfileTables : List String := ["profiles", "groups_order", "groups"]

def kRouteTables : List String := ["route_rules", "route_profiles"]

def kSettingsTables : List String := ["settings", "markers"]

def kOtpTables : List String := ["otp_profiles"]

def kIpListTables : List String := ["ip_list_entries", "ip_scans", "ip_lists"]

def tableExists (d : Db) (table : String) : Bool := (d table).isSome

def columnExists (d : Db) (table column : String) : Bool := (d table).any (fun t => decide (column ∈ t.columns))

def rowsOf (d : Db) (table : String) : List Row := ((d table).map CellTable.rows).getD []

/-- A statement on one table. -/
def on (table : String) (f : CellTable → CellTable) (d : Db) : Db := Function.update d table ((d table).map f)

/-- `DELETE` without a condition. -/
def clear (t : CellTable) : CellTable := t.delete (fun _ => true)

/-! ## The snapshot -/

def wipe (tables : List String) (dest : Db) : Db := tables.foldl (fun d table => on table clear d) dest

def keyIn (keys : List String) (r : Row) : Bool := keys.any (fun key => r "key" == .text key)

/-- A copy of the database without the parts that are not selected. -/
def keepParts (parts : BackupParts) (source : Db) : Db :=
  let dest := if parts.profiles then source else wipe kProfileTables source
  let dest := if parts.routes then dest else wipe kRouteTables dest
  let dest := if parts.settings then dest else wipe kSettingsTables dest
  let dest := if parts.otp then dest else wipe kOtpTables dest
  if parts.ipLists then dest else wipe kIpListTables dest

def backupSelective (parts : BackupParts) (excludedSettingKeys : List String) (source : Db) : Db :=
  let dest := keepParts parts source
  if parts.settings && !excludedSettingKeys.isEmpty then on "settings" (fun t =>
    t.delete (keyIn excludedSettingKeys)) dest else dest

/-! ## Copying -/

/-- NULL or one of `''`, `'[]'`, 0 and `'0'`. -/
def blank (v : Value) : Bool := v == .null || v == .text "" || v == .text "[]" || v == .integer 0 ||
    v == .real 0 || v == .text "0"

/-- No column that this schema lacks holds a value. -/
def keepRow (table : String) (main bak : CellTable) (r : Row) : Bool :=
  if table = "route_rules" then (bak.columns.filter (fun c =>
    decide (c ∉ main.columns))).all (fun c => blank (r c)) else true

def skippedRows (table : String) (main bak : CellTable) : Nat :=
    (bak.rows.filter (fun r => !keepRow table main bak r)).length

def common (main bak : CellTable) : List String := main.columns.filter (fun c => decide (c ∈ bak.columns))

/-- `"key" NOT IN (...)`, where there are keys to keep. -/
def replacedKey (keepKeys : List String) (r : Row) : Bool := keepKeys.isEmpty || (r "key" != .null && !keyIn keepKeys r)

def copyTable (table : String) (keepKeys : List String) (main bak : CellTable) : CellTable :=
  if (common main bak).isEmpty then main
  else
    let kept := bak.rows.filter (fun r => keepRow table main bak r && replacedKey keepKeys r)
    -- RoutesRepo numbers each profile's rules 0..n-1; close the gaps the skipped rows leave.
    let selected := if 0 < skippedRows table main bak then numbered "route_profile_id" "rule_order" "rule_order" kept else kept
    (main.delete (replacedKey keepKeys)).insert (fun c => decide (c ∈ bak.columns)) selected

def copySkipped (table : String) (host bak : Db) : Nat :=
  match host table, bak table with
  | some main, some b => if (common main b).isEmpty then 0 else skippedRows table main b
  | _, _ => 0

def copied (bak : Db) (table : String) (keepKeys : List String) (d : Db) : Db :=
  match bak table with
  | some b => on table (fun main => copyTable table keepKeys main b) d
  | none => d

/-! ## The transaction -/

section

variable (getText : Value → List Char) (parts : BackupParts) (preservedSettingKeys : List String) (host bak : Db)

def replaces (part : Bool) (table : String) : Bool := part && tableExists host table && tableExists bak table

def profilesReplaced : Bool := replaces host bak parts.profiles "profiles"

def groupsReplaced : Bool := replaces host bak parts.profiles "groups"

def routesReplaced : Bool := replaces host bak parts.routes "route_profiles"

def settingsReplaced : Bool := replaces host bak parts.settings "settings"

def settingKeepKeys : List String :=
  keptIds (routesReplaced parts host bak) (groupsReplaced parts host bak) (profilesReplaced parts host bak) preservedSettingKeys

def copyTables (tables : List String) : List (Db → Db) :=
  tables.map (fun t => copied bak t (if t = "settings" then settingKeepKeys parts preservedSettingKeys host bak else []))

/-- Settings saved before there were markers have been through no migration yet. -/
def clearMarkers : List (Db → Db) := if tableExists bak "markers" then [] else [on "markers" clear]

def copies : List (Db → Db) :=
  (if parts.profiles then copyTables parts preservedSettingKeys host bak kProfileTables else []) ++
    (if parts.routes then copyTables parts preservedSettingKeys host bak kRouteTables else []) ++
    (if parts.settings then copyTables parts preservedSettingKeys host bak kSettingsTables ++
      clearMarkers bak else []) ++
    (if parts.otp then copyTables parts preservedSettingKeys host bak kOtpTables else []) ++
    (if parts.ipLists then copyTables parts preservedSettingKeys host bak kIpListTables else [])

/-! ### Ids in the settings -/

def databaseSettingId (d : Db) (key : String) : Option Int :=
  ((rowsOf d "settings").find? (fun r => r "key" == .text key)).map (fun r => toInt (getText (r "value")))

def settingCells (key : String) (id : Int) : Row :=
    fun c => if c = "key" then .text key else .text (String.ofList (toText id))

def databaseSetSettingId (key : String) (id : Int) : Db → Db :=
  on "settings" (fun t =>
    (t.delete (fun r => r "key" == .text key)).insert (fun c => c == "key" || c == "value") [settingCells key id])

def idsOf (d : Db) (table : String) : List Int := (rowsOf d table).map (fun r => (r "id").toInt)

def keptHere (key : String) : Bool :=
  !settingsReplaced parts host bak || (settingKeepKeys parts preservedSettingKeys host bak).contains key

def repairRememberId (d : Db) : Db :=
  match databaseSettingId getText d "remember_id" with
  | some id =>
    if 0 ≤ id ∧ ((profilesReplaced parts host bak && keptHere parts preservedSettingKeys host bak "remember_id") = true ∨
        id ∉ idsOf d "profiles") then
      databaseSetSettingId "remember_id" noProfileId d
    else d
  | none => d

/-- The first listed group that exists, else the one of the lowest id. -/
def firstGroup (d : Db) : Option Int :=
  let listed := (rowsOf d "groups_order").filter (fun o => decide ((o "group_id").toInt ∈ idsOf d "groups"))
  match (listed.insertionSort (fun o p => (o "display_order").le (p "display_order"))).head? with
  | some o => some (o "group_id").toInt
  | none => (idsOf d "groups").min?

def repairSettingId (key : String) (stale : Bool) (ids : List Int) (fallback : Option Int) (d : Db) : Db :=
  repairId (databaseSetSettingId key) (databaseSettingId getText d key) stale ids fallback d

def repairCurrentGroup (d : Db) : Db :=
  repairSettingId getText "current_group"
    (groupsReplaced parts host bak && keptHere parts preservedSettingKeys host bak "current_group") (idsOf d "groups") (firstGroup d) d

def repairCurrentRoute (d : Db) : Db :=
  repairSettingId getText "current_route_id"
    (routesReplaced parts host bak && keptHere parts preservedSettingKeys host bak "current_route_id") (idsOf d "route_profiles")
    (idsOf d "route_profiles").min? d

def repairs : List (Db → Db) :=
  if tableExists host "settings" then
    [repairRememberId getText parts preservedSettingKeys host bak,
     repairCurrentGroup getText parts preservedSettingKeys host bak,
     repairCurrentRoute getText parts preservedSettingKeys host bak]
  else []

/-! ### Ids across the two parts -/

/-- Restored apart, the ids would name unrelated rows. -/
def resets : List (Db → Db) :=
  if groupsReplaced parts host bak != routesReplaced parts host bak then
    [on "groups" (fun t => t.set "route_id" (fun _ => .integer (-1))),
     on "route_profiles" (fun t => t.set "source_gid" (fun _ => .integer (-1)))]
  else []

/-! ### Id counters -/

/-- A counter is moved past the ids of its table and past the backup's counter, where it has one. -/
def raise (bakHas : Bool) (column table : String) (d : Db) : Db :=
  on "entity_ids" (fun t => t.set column (fun r =>
    .integer (raised bakHas ((rowsOf bak "entity_ids").map (fun e => (e column).toInt)) (idsOf d table) (r column).toInt))) d

def counters : List (Db → Db) :=
  (if parts.profiles || parts.routes then
    [fun d => raise bak (tableExists bak "entity_ids") "route_profile_last_id" "route_profiles"
      (raise bak (tableExists bak "entity_ids") "group_last_id" "groups"
        (raise bak (tableExists bak "entity_ids") "profile_last_id" "profiles" d))]
   else []) ++
  (if parts.otp then [raise bak (columnExists bak "entity_ids" "otp_profile_last_id") "otp_profile_last_id" "otp_profiles"] else []) ++
  (if parts.ipLists then
    [raise bak (columnExists bak "entity_ids" "ip_list_last_id") "ip_list_last_id" "ip_lists",
     raise bak (columnExists bak "entity_ids" "ip_scan_last_id") "ip_scan_last_id" "ip_scans"]
   else [])

/-- What runs between `BEGIN` and `COMMIT`. -/
def body : List (Db → Db) :=
  copies parts preservedSettingKeys host bak ++
    repairs getText parts preservedSettingKeys host bak ++ resets parts host bak ++
    counters parts bak

def restoreSelective (throws : Nat → Bool) : Outcome × Db :=
  transaction parts (body getText parts preservedSettingKeys host bak) (kRouteTables.map (fun t => copySkipped t host bak)).sum throws
    host

end

end Waterdisco.Selective
