import Waterdisco.Config.Profiles
import Waterdisco.Lib.Json
import Waterdisco.Scan.IpListParse

/-!
# Routing profiles and their rules

A rule as it is stored (`RouteRule`) and as sing-box gets it (`RuleObject`, from
`getRuleJson`).  A routing profile is a list of rules, or a raw `route` object in which
profile ids stand where sing-box wants tags.

    usedOutbounds       the profiles that rules send to, one entry for each rule
    getRouteRules       the rule objects, with the tags the build gave out
-/

namespace Waterdisco.Route

open Config

def trimmed (text : String) : String := String.ofList (Scan.trimmed text.toList)

/-- Stored as a number: new types are appended. -/
inductive RuleType where
  | custom
  | simpleAddressProxy
  | simpleAddressBypass
  | simpleAddressBlock
  | simpleProcessNameProxy
  | simpleProcessNameBypass
  | simpleProcessNameBlock
  | simpleProcessPathProxy
  | simpleProcessPathBypass
  | simpleProcessPathBlock
  | simpleAddressWarpBypass
  | simpleProcessNameWarpBypass
  | simpleProcessPathWarpBypass
  | endpointPreferredBy
deriving DecidableEq

def RuleType.isSimpleAddress : RuleType → Bool
  | .simpleAddressProxy | .simpleAddressBypass | .simpleAddressBlock | .simpleAddressWarpBypass => true
  | _ => false

/-- What a rule asks of a connection. -/
structure RuleMatch where
  ipVersion : String := ""
  network : String := ""
  protocol : String := ""
  inbound : List String := []
  domain : List String := []
  domainSuffix : List String := []
  domainKeyword : List String := []
  domainRegex : List String := []
  sourceIpCidr : List String := []
  sourceIpIsPrivate : Bool := false
  ipCidr : List String := []
  ipIsPrivate : Bool := false
  sourcePort : List String := []
  sourcePortRange : List String := []
  port : List String := []
  portRange : List String := []
  processName : List String := []
  processPath : List String := []
  processPathRegex : List String := []
  packageName : List String := []
  wifiSsid : List String := []
  wifiBssid : List String := []
  ruleSet : List String := []
  invert : Bool := false
deriving DecidableEq

/-- Nothing in the lists of a simple rule. -/
def RuleMatch.noValues (rule : RuleMatch) (isSimpleAddress : Bool) : Bool :=
  if isSimpleAddress then
    rule.domain.isEmpty && rule.domainSuffix.isEmpty && rule.domainKeyword.isEmpty && rule.domainRegex.isEmpty &&
      rule.ruleSet.isEmpty && rule.ipCidr.isEmpty
  else rule.processName.isEmpty && rule.processPath.isEmpty

structure RouteRule extends RuleMatch where
  type : RuleType := .custom
  disabled : Bool := false
  outboundID : Int := directID
  action : String := "route"

/-- A rule of the `route` section; an absent key is an empty list, an empty text or `false`. -/
structure RuleObject extends RuleMatch where
  preferredBy : List Tag := []
  action : String := "route"
  outbound : Option Tag := none
deriving DecidableEq

/-! ## Rule objects -/

/-- `get_as_array`: the values without the blank ones, each trimmed. -/
def getAsArray (values : List String) : List String := (values.map trimmed).filter (fun value => !value.isEmpty)

/-- The action that is emitted: a route rule to block or dns_out is a reject or hijack-dns rule. -/
def RouteRule.effectiveAction (rule : RouteRule) : String :=
  if rule.action == "route" && rule.outboundID == blockID then "reject"
  else if rule.action == "route" && rule.outboundID == -4 then "hijack-dns"
  else rule.action

/-- A rule of this action emits its outbound. -/
def emitsOutbound (action : String) : Bool := action == "route" || action == "bypass"

/-- `get_rule_json`, for the core and not for the editor.  `ruleSetName` is the tag of a rule set. -/
def RouteRule.getRuleJson (ruleSetName : String → String) (rule : RouteRule) (outboundTag : Tag) : Option RuleObject :=
  if rule.type == .endpointPreferredBy then
    if outboundTag.isEmpty then none
    else some { preferredBy := [outboundTag], action := "route", outbound := some outboundTag }
  else some
    { ipVersion := trimmed rule.ipVersion
      network := trimmed rule.network
      protocol := trimmed rule.protocol
      inbound := getAsArray rule.inbound
      domain := getAsArray rule.domain
      domainSuffix := getAsArray rule.domainSuffix
      domainKeyword := getAsArray rule.domainKeyword
      domainRegex := getAsArray rule.domainRegex
      sourceIpCidr := getAsArray rule.sourceIpCidr
      sourceIpIsPrivate := rule.sourceIpIsPrivate
      ipCidr := getAsArray rule.ipCidr
      ipIsPrivate := rule.ipIsPrivate
      sourcePort := getAsArray rule.sourcePort
      sourcePortRange := getAsArray rule.sourcePortRange
      port := getAsArray rule.port
      portRange := getAsArray rule.portRange
      processName := getAsArray rule.processName
      processPath := getAsArray rule.processPath
      processPathRegex := getAsArray rule.processPathRegex
      packageName := getAsArray rule.packageName
      wifiSsid := getAsArray rule.wifiSsid
      wifiBssid := getAsArray rule.wifiBssid
      ruleSet := (getAsArray rule.ruleSet).map ruleSetName
      invert := rule.invert
      action := rule.effectiveAction
      -- a tag that is not there leaves the bare number in its place
      outbound := if emitsOutbound rule.effectiveAction then some (if outboundTag.isEmpty then toString rule.outboundID else outboundTag)
        else none }

/-- A rule of a simple list without its values; a custom rule is not asked. -/
def RouteRule.isEmpty (rule : RouteRule) : Bool :=
  if rule.type == .endpointPreferredBy then false else rule.noValues rule.type.isSimpleAddress

/-! ## Raw routes -/

/-- `QJsonValue::toInt`: 0 for a number that is no `int`. -/
def rawToInt : Json → Int
  | .num n => if -2 ^ 31 ≤ n ∧ n < 2 ^ 31 then n else 0
  | _ => 0

/-- A number under one of the keys that name an outbound. -/
def isRawOutbound (key : String) (value : Json) : Bool :=
  (key == "outbound" || key == "final") && match value with
    | .num _ | .double _ => true
    | _ => false

mutual

def collectRawOutboundIdsRec : Json → List Int → List Int
  | .obj members, out => collectRawMembers members out
  | .arr items, out => collectRawItems items out
  | _, out => out

def collectRawItems : List Json → List Int → List Int
  | [], out => out
  | item :: rest, out => collectRawItems rest (collectRawOutboundIdsRec item out)

def collectRawMembers : List (String × Json) → List Int → List Int
  | [], out => out
  | member :: rest, out => collectRawMembers rest (collectRawMember member out)

def collectRawMember : String × Json → List Int → List Int
  | (key, value), out =>
    if isRawOutbound key value then (if out.contains (rawToInt value) then out else out ++ [rawToInt value])
    else collectRawOutboundIdsRec value out

end

def collectRawOutboundIds (route : Json) : List Int := collectRawOutboundIdsRec route []

/-- `outboundMap`: the tag the build gave to an id; the newest entry is first. -/
abbrev OutboundMap := List (Int × Tag)

def OutboundMap.tag (map : OutboundMap) (id : Int) : Option Tag := (map.find? (fun entry => entry.1 == id)).map (·.2)

mutual

def translateRawOutboundsRec (map : OutboundMap) : Json → Json
  | .obj members => .obj (translateRawMembers map members)
  | .arr items => .arr (translateRawItems map items)
  | other => other

def translateRawItems (map : OutboundMap) : List Json → List Json
  | [] => []
  | item :: rest => translateRawOutboundsRec map item :: translateRawItems map rest

def translateRawMembers (map : OutboundMap) : List (String × Json) → List (String × Json)
  | [] => []
  | member :: rest => translateRawMember map member :: translateRawMembers map rest

def translateRawMember (map : OutboundMap) : String × Json → String × Json
  | (key, value) =>
    if isRawOutbound key value then (key, .str ((map.tag (rawToInt value)).getD Tags.proxy))
    else (key, translateRawOutboundsRec map value)

end

def translateRawOutbounds (route : Json) (map : OutboundMap) : Json := translateRawOutboundsRec map route

/-- A raw rule, by the keys the build relies on. -/
def rawRuleObject (rule : Json) : RuleObject where
  inbound := (rule.value "inbound").toTexts
  preferredBy := (rule.value "preferred_by").toTexts
  action := if rule.contains "action" then (rule.value "action").toStr else "route"
  outbound := if rule.contains "outbound" then some (rule.value "outbound").toStr else none

/-! ## Profiles -/

/-- The DNS settings a routing profile can take over. -/
structure RouteDns where
  remoteDns : String := "https://8.8.8.8/dns-query"
  remoteDnsDisableIpv6 : Bool := false
  directDns : String := "localhost"
  directDnsDisableIpv6 : Bool := false
  dnsFinalOut : String := "remote"
  enableDnsRouting : Bool := true
  fakeDns : Bool := false
  fakeipDisableIpv6 : Bool := false
deriving DecidableEq

structure RouteProfile where
  rules : List RouteRule := []
  defaultOutboundID : Int := proxyID
  isRaw : Bool := false
  rawRoute : Json := .null
  preventModifications : Bool := false
  endpointProfileIDs : List Int := []
  innerHopEndpointIDs : List Int := []
  customDns : Bool := false
  dns : Option RouteDns := none

/-- The raw object is used as it is. -/
def RouteProfile.verbatim (profile : RouteProfile) : Bool := profile.isRaw && profile.preventModifications

def RouteProfile.getUsedOutbounds (profile : RouteProfile) : List Int :=
  if profile.isRaw then collectRawOutboundIds profile.rawRoute
  else
    (profile.rules.filter (fun rule => !(rule.disabled || rule.type == .endpointPreferredBy) &&
      emitsOutbound rule.effectiveAction)).map
      (·.outboundID)

def adblockRule : RuleObject where
  action := "reject"
  ruleSet := ["throne-adblocksingbox"]

/-- `get_route_rules`: the objects in order, the ad-block rule before the first that routes. -/
def getRouteRulesLoop (ruleSetName : String → String) (adblock : Bool) (map : OutboundMap) :
    List RouteRule → Bool → Option (List RuleObject)
  | [], added => some (if !added && adblock then [adblockRule] else [])
  | rule :: rest, added =>
    if rule.disabled || (rule.type != .custom && rule.isEmpty) then getRouteRulesLoop ruleSetName adblock map rest added
    else
      let outboundTag := (map.tag rule.outboundID).getD ""
      -- an endpoint that left the list has no tag to gate on
      if rule.type == .endpointPreferredBy && outboundTag.isEmpty then
        getRouteRulesLoop ruleSetName adblock map rest added
      else
        match rule.getRuleJson ruleSetName outboundTag with
        | none => none
        | some object =>
          if !added && adblock && object.action == "route" then
            (getRouteRulesLoop ruleSetName adblock map rest true).map (fun rules => adblockRule :: object :: rules)
          else (getRouteRulesLoop ruleSetName adblock map rest added).map (object :: ·)

def RouteProfile.getRouteRules (profile : RouteProfile) (ruleSetName : String → String) (adblock : Bool)
    (map : OutboundMap) : List RuleObject :=
  (getRouteRulesLoop ruleSetName adblock map profile.rules false).getD []

end Waterdisco.Route
