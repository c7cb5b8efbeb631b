import Waterdisco.Route.RuleChecks

/-!
# Rules as JSON objects

`getRuleJson` writes the object of the core, or with `forView` the one that is shown and
shared: there an outbound is a word or the name of a profile, and a rule set has the name it
was given.  An object is the list of its members.

    length (getRuleJson …) ≤ 1 ↔ nothing but the action is written      (members_length)
-/

namespace Waterdisco.Routing

open Route (trimmed getAsArray emitsOutbound)

/-! ## Values -/

def textJson (text : String) : Option Json :=
  if (trimmed text).isEmpty then none else some (.str (trimmed text))

def listJson (arr : List String) (f : String → Json) : Option Json :=
  if isValidStrArray arr then some (.arr ((getAsArray arr).map f)) else none

def flagJson (flag : Bool) : Option Json := if flag then some (.bool true) else none

def rejectMethods : List String := ["default", "drop", "reply"]

section

variable (w : World)

/-- The outbound as a word or a name; a profile that is gone has none. -/
def viewOutbound (id : Int32) : Option String :=
  if id == proxyID then some "proxy"
  else if id == directID then some "direct"
  else if id == warpBypassID then some "warp-bypass"
  else ((w.getProfile id).bind (·.outbound)).map Outbound.displayName

namespace RouteRule

def outboundJson (rule : RouteRule) (forView : Bool) (outboundTag : String) : Option Json :=
  if forView then (viewOutbound w rule.outboundID).map .str
  else some (if outboundTag.isEmpty then .num rule.outboundID.toInt else .str outboundTag)

/-- What is written under the key of an attribute. -/
def emitted (rule : RouteRule) (forView : Bool) (outboundTag : String) (a : Attr) : Option Json :=
  let act := rule.effectiveAction
  let routeLike : Bool := act == "route" || act == "route-options" || act == "bypass"
  match a with
  | .ipVersion => if (trimmed rule.ipVersion).isEmpty then none else some (.num (toInt (trimmed rule.ipVersion)))
  | .network => textJson rule.network
  | .protocol => textJson rule.protocol
  | .inbound => listJson rule.inbound .str
  | .domain => listJson rule.domain .str
  | .domainSuffix => listJson rule.domainSuffix .str
  | .domainKeyword => listJson rule.domainKeyword .str
  | .domainRegex => listJson rule.domainRegex .str
  | .sourceIpCidr => listJson rule.sourceIpCidr .str
  | .sourceIpIsPrivate => flagJson rule.sourceIpIsPrivate
  | .ipCidr => listJson rule.ipCidr .str
  | .ipIsPrivate => flagJson rule.ipIsPrivate
  | .sourcePort => listJson rule.sourcePort (fun item => .num (toInt item))
  | .sourcePortRange => listJson rule.sourcePortRange .str
  | .port => listJson rule.port (fun item => .num (toInt item))
  | .portRange => listJson rule.portRange .str
  | .processName => listJson rule.processName .str
  | .processPath => listJson rule.processPath .str
  | .processPathRegex => listJson rule.processPathRegex .str
  | .packageName => listJson rule.packageName .str
  | .wifiSsid => listJson rule.wifiSsid .str
  | .wifiBssid => listJson rule.wifiBssid .str
  | .ruleSet => listJson rule.ruleSet (fun item => .str (if forView then item else w.ruleSetName item))
  | .invert => flagJson rule.invert
  | .action => some (.str act)
  | .method =>
    let method := w.toLower (trimmed rule.rejectMethod)
    if act == "reject" && rejectMethods.contains method then some (.str method) else none
  | .noDrop =>
    -- the core fails on no_drop alongside drop
    if act == "reject" then flagJson (rule.noDrop && w.toLower (trimmed rule.rejectMethod) != "drop") else none
  | .overrideAddress => if routeLike then textJson rule.overrideAddress else none
  | .overridePort =>
    if routeLike && decide (toInt (trimmed rule.overridePort) > 0) then some (.num (toInt (trimmed rule.overridePort)))
    else none
  | .tlsFragment => if routeLike then flagJson rule.tlsFragment else none
  | .tlsFragmentFallbackDelay =>
    -- the core reads the delay only alongside tls_fragment
    if routeLike && rule.tlsFragment then textJson rule.tlsFragmentFallbackDelay else none
  | .tlsRecordFragment => if routeLike then flagJson rule.tlsRecordFragment else none
  | .tlsSpoof => if routeLike then textJson rule.tlsSpoof else none
  | .tlsSpoofMethod =>
    -- the method only qualifies a spoof
    if routeLike && !(trimmed rule.tlsSpoof).isEmpty then textJson rule.tlsSpoofMethod else none
  | .outbound => if emitsOutbound rule.effectiveAction then rule.outboundJson w forView outboundTag else none
  | .overrideDestination => if act == "sniff" then flagJson rule.sniffOverrideDest else none
  | .strategy => if act == "resolve" then textJson rule.strategy else none
  | .sniffers => none

def members (rule : RouteRule) (forView : Bool) (outboundTag : String) : List (String × Json) :=
  Attr.edited.filterMap (fun a => (rule.emitted w forView outboundTag a).map (fun value => (a.key, value)))

/-- `get_rule_json`.  It also leaves the effective action in the rule, which changes nothing that is
emitted later. -/
def getRuleJson (rule : RouteRule) (forView : Bool) (outboundTag : String) : List (String × Json) :=
  if rule.type == endpointPreferredBy then
    let tag :=
      if forView then (((w.getProfile rule.outboundID).bind (·.outbound)).map Outbound.displayName).getD "" else outboundTag
    if tag.isEmpty then []
    else [("preferred_by", .arr [.str tag]), ("action", .str "route"), ("outbound", .str tag)]
  -- the profile is gone
  else if forView && emitsOutbound rule.effectiveAction && (viewOutbound w rule.outboundID).isNone then []
  else rule.members w forView outboundTag

/-- Only a custom rule is asked by what it writes; `get_rule_json` has left its effective action. -/
def isEmpty (rule : RouteRule) : Bool :=
  if rule.type != custom then
    if rule.type == endpointPreferredBy then false else rule.noValues (isSimpleAddress rule.type)
  else
    let keys := (rule.getRuleJson w false "").length
    let act := rule.effectiveAction
    if act == "route" || act == "route-options" || act == "hijack-dns" then decide (keys ≤ 1)
    else if act == "sniff" || act == "resolve" || act == "reject" || act == "bypass" then decide (keys < 1)
    else false

end RouteRule

end

/-! ## Tokens -/

def ruleTypeToToken (type : Int32) : String :=
  if type == simpleAddressProxy then "simple_address_proxy"
  else if type == simpleAddressBypass then "simple_address_bypass"
  else if type == simpleAddressBlock then "simple_address_block"
  else if type == simpleProcessNameProxy then "simple_process_name_proxy"
  else if type == simpleProcessNameBypass then "simple_process_name_bypass"
  else if type == simpleProcessNameBlock then "simple_process_name_block"
  else if type == simpleProcessPathProxy then "simple_process_path_proxy"
  else if type == simpleProcessPathBypass then "simple_process_path_bypass"
  else if type == simpleProcessPathBlock then "simple_process_path_block"
  else if type == simpleAddressWarpBypass then "simple_address_warp_bypass"
  else if type == simpleProcessNameWarpBypass then "simple_process_name_warp_bypass"
  else if type == simpleProcessPathWarpBypass then "simple_process_path_warp_bypass"
  else if type == endpointPreferredBy then "endpoint_preferred_by"
  else "custom"

def tokenToRuleType (token : String) : Int32 :=
  if token == "simple_address_proxy" then simpleAddressProxy
  else if token == "simple_address_bypass" then simpleAddressBypass
  else if token == "simple_address_block" then simpleAddressBlock
  else if token == "simple_process_name_proxy" then simpleProcessNameProxy
  else if token == "simple_process_name_bypass" then simpleProcessNameBypass
  else if token == "simple_process_name_block" then simpleProcessNameBlock
  else if token == "simple_process_path_proxy" then simpleProcessPathProxy
  else if token == "simple_process_path_bypass" then simpleProcessPathBypass
  else if token == "simple_process_path_block" then simpleProcessPathBlock
  else if token == "simple_address_warp_bypass" then simpleAddressWarpBypass
  else if token == "simple_process_name_warp_bypass" then simpleProcessNameWarpBypass
  else if token == "simple_process_path_warp_bypass" then simpleProcessPathWarpBypass
  else if token == "endpoint_preferred_by" then endpointPreferredBy
  else custom

def RouteRule.toShareJson (w : World) (rule : RouteRule) : List (String × Json) :=
  if rule.type == endpointPreferredBy then
    [("name", .str rule.name), ("type", .str (ruleTypeToToken rule.type)), ("outbound", .num rule.outboundID.toInt)]
  else
    let obj := rule.getRuleJson w true ""
    if obj.isEmpty then []
    else
      obj ++ [("name", .str rule.name), ("type", .str (ruleTypeToToken rule.type))] ++
        (if rule.disabled then [("disabled", .bool true)] else [])

end Waterdisco.Routing
