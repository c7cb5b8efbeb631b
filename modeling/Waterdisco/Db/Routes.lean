import Mathlib.Data.Prod.Lex
import Waterdisco.Lib.Batches
import Waterdisco.Lib.Keyed
import Waterdisco.Route.Entities

/-!
# The tables of routing profiles

`RoutesRepo` writes a profile as one row of `route_profiles` and its rules as rows of
`route_rules`, numbered in order.  Values are bound by position to the columns that the
INSERT names, and read by position from the columns that a SELECT names.  The batch path
reads the rules of a chunk of profiles at once; its rows start with the profile's id.
-/

namespace Waterdisco.RoutesRepo

open Routing Function
open Route (trimmed)

/-! ## Cells and columns -/

inductive Cell where
  | null
  | integer (value : Int)
  | text (value : String)
deriving DecidableEq

/-- A column holds what was bound to it, so an integer is never read where a text is. -/
def Cell.getInt64 : Cell → Int
  | .integer n => n
  | _ => 0

def Cell.getInt (cell : Cell) : Int32 := Int32.ofInt cell.getInt64

/-- `std::string` of `getText`, which ends at the first NUL. -/
def Cell.getText : Cell → String
  | .text s => String.ofList (s.toList.takeWhile (· ≠ Char.ofNat 0))
  | _ => ""

/-- Decoding UTF-8 skips a byte order mark at the start. -/
def fromStdString (text : String) : String :=
  match text.toList with
  | [] => ""
  | c :: rest => if c = '\ufeff' then String.ofList rest else text

inductive ProfileColumn where
  | id
  | name
  | default_outbound_id
  | is_raw
  | raw_route
  | prevent_modifications
  | is_remote
  | remote_url
  | auto_update
  | remote_last_update
  | endpoint_profile_ids
  | inner_hop_endpoint_ids
  | dns_json
  | custom_dns
  | source_gid
deriving DecidableEq

inductive RuleColumn where
  | route_profile_id
  | rule_order
  | name
  | type
  | ip_version
  | network
  | protocol
  | inbound_json
  | domain_json
  | domain_suffix_json
  | domain_keyword_json
  | domain_regex_json
  | source_ip_cidr_json
  | source_ip_is_private
  | ip_cidr_json
  | ip_is_private
  | source_port_json
  | source_port_range_json
  | port_json
  | port_range_json
  | process_name_json
  | process_path_json
  | process_path_regex_json
  | rule_set_json
  | invert
  | outbound_id
  | action
  | reject_method
  | no_drop
  | override_address
  | override_port
  | sniffers_json
  | sniff_override_dest
  | strategy
  | wifi_ssid_json
  | wifi_bssid_json
  | tls_spoof
  | tls_spoof_method
  | package_name_json
  | tls_fragment
  | tls_fragment_fallback_delay
  | tls_record_fragment
  | disabled
deriving DecidableEq

abbrev ProfileRow := ProfileColumn → Cell
abbrev RuleRow := RuleColumn → Cell

/-- The row that an INSERT makes: each value goes to the column named at its place. -/
def rowOf {κ : Type} [DecidableEq κ] (columns : List κ) (values : List Cell) (column : κ) : Cell :=
  ((columns.zip values).find? fun bound => bound.1 = column).elim .null Prod.snd

structure Database where
  profiles : List ProfileRow := []
  rules : List RuleRow := []

/-! ## Documents -/

/-- Qt's JSON writer and reader. -/
structure JsonText where
  compact : Json → String
  parse : String → Option Json

def notBlank (item : String) : Bool := !(trimmed item).isEmpty

/-- `QListStr2QJsonArray`, which leaves blank items out. -/
def listToArray (list : List String) : Json := .arr ((list.filter notBlank).map .str)

def idsToArray (ids : List Int32) : Json := .arr (ids.map fun id => .num id.toInt)

def arrayToList (array : Json) : List String := array.toArray.map Json.toStr

/-- A number, as an `int`. -/
def idOf : Json → Option Int32
  | .num n => some (toIntOr 0 (.num n))
  | .double _ => some 0
  | _ => none

def arrayToIds (array : Json) : List Int32 := array.toArray.filterMap idOf

/-- The double nearest to an integer, with ties to even. -/
def nearestDouble (n : Int) : Int :=
  let unit := 2 ^ (n.natAbs.log2 - 52)
  let whole := n.natAbs / unit
  let rest := n.natAbs % unit
  n.sign * ((if 2 * rest < unit ∨ (2 * rest = unit ∧ whole % 2 = 0) then whole else whole + 1) * unit : Nat)

/-! ## Saving -/

def flag (b : Bool) : Cell := .integer (if b then 1 else 0)

/-- What a conflict on the id sets. -/
def profileUpdateColumns : List ProfileColumn :=
  [.name, .default_outbound_id, .is_raw, .raw_route, .prevent_modifications, .is_remote, .remote_url, .auto_update,
    .remote_last_update, .endpoint_profile_ids, .inner_hop_endpoint_ids, .dns_json, .custom_dns, .source_gid]

def profileInsertColumns : List ProfileColumn := .id :: profileUpdateColumns

def profileValues (u : JsonText) (p : RouteProfile) (id : Int32) : List Cell :=
  [.integer id.toInt, .text p.name, .integer p.defaultOutboundID.toInt, flag p.isRaw,
   .text p.rawRoute, flag p.preventModifications,
    flag p.isRemote, .text p.remoteURL, flag p.autoUpdate, .integer p.remoteLastUpdate.toInt,
    .text (u.compact (idsToArray p.endpointProfileIDs)), .text (u.compact (idsToArray p.innerHopEndpointIDs)),
    .text (p.dns.elim "" fun dns => u.compact dns.toJson), flag p.customDns, .integer p.sourceGid.toInt]

def ruleSelectColumns : List RuleColumn :=
  [.name, .type, .ip_version, .network, .protocol,
    .inbound_json, .domain_json, .domain_suffix_json, .domain_keyword_json, .domain_regex_json,
    .source_ip_cidr_json, .source_ip_is_private, .ip_cidr_json, .ip_is_private,
    .source_port_json, .source_port_range_json, .port_json, .port_range_json,
    .process_name_json, .process_path_json, .process_path_regex_json, .rule_set_json,
    .invert, .outbound_id, .action, .reject_method, .no_drop,
    .override_address, .override_port, .sniffers_json, .sniff_override_dest, .strategy,
    .wifi_ssid_json, .wifi_bssid_json, .tls_spoof, .tls_spoof_method, .package_name_json,
    .tls_fragment, .tls_fragment_fallback_delay, .tls_record_fragment, .disabled]

/-- The INSERT puts the profile and the place first. -/
def ruleInsertColumns : List RuleColumn := .route_profile_id :: .rule_order :: ruleSelectColumns

def ruleValues (u : JsonText) (id : Int32) (order : Nat) (rule : RouteRule) : List Cell :=
  let list := fun items => Cell.text (u.compact (listToArray items))
  [.integer id.toInt, .integer order, .text rule.name, .integer rule.type.toInt,
    .text rule.ipVersion, .text rule.network, .text rule.protocol, list rule.inbound,
    list rule.domain, list rule.domainSuffix, list rule.domainKeyword, list rule.domainRegex,
    list rule.sourceIpCidr, flag rule.sourceIpIsPrivate, list rule.ipCidr, flag rule.ipIsPrivate,
    list rule.sourcePort, list rule.sourcePortRange, list rule.port, list rule.portRange,
    list rule.processName, list rule.processPath, list rule.processPathRegex, list rule.ruleSet,
    flag rule.invert, .integer rule.outboundID.toInt, .text rule.action, .text rule.rejectMethod,
    flag rule.noDrop, .text rule.overrideAddress, .text rule.overridePort, list rule.sniffers,
    flag rule.sniffOverrideDest, .text rule.strategy, list rule.wifiSsid, list rule.wifiBssid,
    .text rule.tlsSpoof, .text rule.tlsSpoofMethod, list rule.packageName, flag rule.tlsFragment,
    .text rule.tlsFragmentFallbackDelay, flag rule.tlsRecordFragment, flag rule.disabled]

/-- INSERT with ON CONFLICT(id) DO UPDATE. -/
def upsertProfile (rows : List ProfileRow) (row : ProfileRow) : List ProfileRow :=
  if rows.any fun old => old .id = row .id then
    rows.map fun old => if old .id = row .id then fun column => if column ∈ profileUpdateColumns then row column else old column else old
  else rows ++ [row]

def saveToDatabase (u : JsonText) (db : Database) (p : RouteProfile) (id : Int32) : Database where
  profiles := upsertProfile db.profiles (rowOf profileInsertColumns (profileValues u p id))
  rules := db.rules.filter (fun row => row .route_profile_id ≠ .integer id.toInt) ++
    p.rules.mapIdx fun order rule => rowOf ruleInsertColumns (ruleValues u id order rule)

def deleteProfiles (db : Database) (ids : List Int32) : Database where
  profiles := db.profiles.filter fun row => row .id ∉ ids.map fun id => .integer id.toInt
  rules := db.rules.filter fun row => row .route_profile_id ∉ ids.map fun id => .integer id.toInt

/-! ## Loading -/

def getColumn (cells : List Cell) (i : Nat) : Cell := cells.getD i .null

def parseJsonArray (u : JsonText) (text : String) : Json :=
  match u.parse (fromStdString text) with
  | some (.arr items) => .arr items
  | _ => .arr []

def ruleJsonFromRow (u : JsonText) (stmt : List Cell) (baseCol : Nat) : Json :=
  let text := fun i => Json.str (fromStdString (getColumn stmt (baseCol + i)).getText)
  let list := fun i => parseJsonArray u (getColumn stmt (baseCol + i)).getText
  let number := fun i => Json.num (getColumn stmt (baseCol + i)).getInt.toInt
  let boolean := fun i => Json.bool ((getColumn stmt (baseCol + i)).getInt != 0)
  .obj [("name", text 0), ("type", number 1), ("ip_version", text 2), ("network", text 3), ("protocol", text 4),
    ("inbound", list 5), ("domain", list 6), ("domain_suffix", list 7), ("domain_keyword", list 8),
    ("domain_regex", list 9),
    ("source_ip_cidr", list 10), ("source_ip_is_private", boolean 11), ("ip_cidr", list 12),
    ("ip_is_private", boolean 13),
    ("source_port", list 14), ("source_port_range", list 15), ("port", list 16), ("port_range", list 17),
    ("process_name", list 18), ("process_path", list 19), ("process_path_regex", list 20), ("rule_set", list 21),
    ("invert", boolean 22), ("outboundID", number 23), ("action", text 24),
    ("rejectMethod", text 25), ("no_drop", boolean 26),
    ("override_address", text 27), ("override_port", text 28), ("sniffers", list 29), ("sniffOverrideDest", boolean 30),
    ("strategy", text 31), ("wifi_ssid", list 32), ("wifi_bssid", list 33), ("tls_spoof", text 34),
    ("tls_spoof_method", text 35),
    ("package_name", list 36), ("tls_fragment", boolean 37), ("tls_fragment_fallback_delay", text 38),
    ("tls_record_fragment", boolean 39), ("disabled", boolean 40)]

def routeRuleFromJson (json : Json) : RouteRule :=
  let text := fun key => (json.value key).toStr
  let flag := fun key => (json.value key).toBool
  let list := fun key => arrayToList (json.value key)
  { name := text "name"
    type := toIntOr 0 (json.value "type")
    disabled := flag "disabled"
    ipVersion := text "ip_version"
    network := text "network"
    protocol := text "protocol"
    inbound := list "inbound"
    domain := list "domain"
    domainSuffix := list "domain_suffix"
    domainKeyword := list "domain_keyword"
    domainRegex := list "domain_regex"
    sourceIpCidr := list "source_ip_cidr"
    sourceIpIsPrivate := flag "source_ip_is_private"
    ipCidr := list "ip_cidr"
    ipIsPrivate := flag "ip_is_private"
    sourcePort := list "source_port"
    sourcePortRange := list "source_port_range"
    port := list "port"
    portRange := list "port_range"
    processName := list "process_name"
    processPath := list "process_path"
    processPathRegex := list "process_path_regex"
    packageName := list "package_name"
    wifiSsid := list "wifi_ssid"
    wifiBssid := list "wifi_bssid"
    ruleSet := list "rule_set"
    invert := flag "invert"
    outboundID := toIntOr 0 (json.value "outboundID")
    action := text "action"
    rejectMethod := text "rejectMethod"
    noDrop := flag "no_drop"
    overrideAddress := text "override_address"
    overridePort := text "override_port"
    tlsFragment := flag "tls_fragment"
    tlsFragmentFallbackDelay := text "tls_fragment_fallback_delay"
    tlsRecordFragment := flag "tls_record_fragment"
    tlsSpoof := text "tls_spoof"
    tlsSpoofMethod := text "tls_spoof_method"
    sniffers := list "sniffers"
    sniffOverrideDest := flag "sniffOverrideDest"
    strategy := text "strategy" }

def toInteger : Json → Int
  | .num n => n
  | _ => 0

def routeProfileFromJson (json : Json) : RouteProfile :=
  let dns := if (json.value "dns").isObject then some (RouteDns.fromJson (json.value "dns")) else none
  { id := toIntOr 0 (json.value "id")
    name := (json.value "name").toStr
    defaultOutboundID := toIntOr 0 (json.value "defaultOutboundID")
    isRaw := (json.value "isRaw").toBool
    rawRoute := (json.value "rawRoute").toStr
    preventModifications := (json.value "preventModifications").toBool
    isRemote := (json.value "isRemote").toBool
    remoteURL := (json.value "remoteURL").toStr
    autoUpdate := (json.value "autoUpdate").toBool
    remoteLastUpdate := Int64.ofInt (toInteger (json.value "remoteLastUpdate"))
    sourceGid := toIntOr (-1) (json.value "sourceGid")
    endpointProfileIDs := arrayToIds (json.value "endpointProfileIDs")
    innerHopEndpointIDs := arrayToIds (json.value "innerHopEndpointIDs")
    dns := dns
    -- the flag says nothing without settings to use
    customDns := (json.value "customDns").toBool && dns.isSome
    rules := (json.value "rules").toArray.filterMap fun rule =>
      if rule.isObject then some (routeRuleFromJson rule) else none }

def routeProfileFromProfileRow (u : JsonText) (stmt : List Cell) : RouteProfile :=
  let text := fun i => Json.str (fromStdString (getColumn stmt i).getText)
  let number := fun i => Json.num (getColumn stmt i).getInt.toInt
  let boolean := fun i => Json.bool ((getColumn stmt i).getInt != 0)
  let dns :=
    match u.parse (fromStdString (getColumn stmt 12).getText) with
    | some (.obj members) => [("dns", Json.obj members)]
    | _ => []
  routeProfileFromJson (.obj
    ([("id", number 0), ("name", text 1), ("defaultOutboundID", number 2), ("isRaw", boolean 3), ("rawRoute", text 4),
      ("preventModifications", boolean 5), ("isRemote", boolean 6), ("remoteURL", text 7), ("autoUpdate", boolean 8),
      ("remoteLastUpdate", .num (nearestDouble (getColumn stmt 9).getInt64)),
      ("endpointProfileIDs", parseJsonArray u (getColumn stmt 10).getText),
      ("innerHopEndpointIDs", parseJsonArray u (getColumn stmt 11).getText)] ++ dns ++
      [("customDns", boolean 13), ("sourceGid", number 14), ("rules", .arr [])]))

def profileSelectColumns : List ProfileColumn := profileInsertColumns

/-- The batch query selects the profile's id first. -/
def chunkSelectColumns : List RuleColumn := .route_profile_id :: ruleSelectColumns

def orderKey (row : RuleRow) : Int := (row .rule_order).getInt64

def chunkKey (row : RuleRow) : Int ×ₗ Int := toLex ((row .route_profile_id).getInt64, orderKey row)

def loadFromDatabase (u : JsonText) (db : Database) (id : Int32) : Option RouteProfile :=
  (db.profiles.find? fun row => row .id = .integer id.toInt).map fun row =>
    let p := routeProfileFromProfileRow u (profileSelectColumns.map row)
    let rows := orderBy orderKey (db.rules.filter fun rule => rule .route_profile_id = .integer id.toInt)
    { p with rules := p.rules ++ rows.map fun rule => routeRuleFromJson (ruleJsonFromRow u (ruleSelectColumns.map rule) 0) }

/-- A map from ids to profiles. -/
abbrev ById := Int32 → Option RouteProfile

/-- A row of the batch query, put at the end of its profile. -/
def addRow (u : JsonText) (byId : ById) (row : RuleRow) : ById :=
  let stmt := chunkSelectColumns.map row
  let profileId := (getColumn stmt 0).getInt
  match byId profileId with
  | some p => update byId profileId (some { p with rules := p.rules ++ [routeRuleFromJson (ruleJsonFromRow u stmt 1)] })
  | none => byId

def loadRulesForProfileIdsChunk (u : JsonText) (db : Database) (profileIds : List Int32) (byId : ById) : ById :=
  if profileIds.isEmpty then byId
  else
    (orderBy chunkKey (db.rules.filter fun rule =>
      rule .route_profile_id ∈ profileIds.map fun id => .integer id.toInt)).foldl (addRow u) byId

def GetAllRouteProfileIds (db : Database) : List Int32 :=
  (orderBy (fun row : ProfileRow => (row .id).getInt64) db.profiles).map fun row => (row .id).getInt

/-- A profile that is in use somewhere is not read. -/
def addProfile (u : JsonText) (cached byId : ById) (row : ProfileRow) : ById :=
  match cached (row .id).getInt with
  | some shared => update byId (row .id).getInt (some shared)
  | none => update byId (row .id).getInt (some (routeProfileFromProfileRow u (profileSelectColumns.map row)))

/-- `cached` are the profiles that are in use somewhere; their rules are not read either. -/
def getAllInChunks (limit : Nat) (u : JsonText) (db : Database) (cached : ById) : List RouteProfile :=
  let rows := orderBy (fun row : ProfileRow => (row .id).getInt64) db.profiles
  let idsInOrder := rows.map fun row => (row .id).getInt
  let byId := rows.foldl (addProfile u cached) fun _ => none
  let loaded := (batches limit idsInOrder).foldl (fun byId chunk =>
    loadRulesForProfileIdsChunk u db (chunk.filter fun id => (cached id).isNone) byId) byId
  idsInOrder.filterMap loaded

end Waterdisco.RoutesRepo
