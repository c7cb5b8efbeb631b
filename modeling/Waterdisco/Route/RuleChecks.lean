import Mathlib.Data.List.Infix
import Waterdisco.Route.RuleFields

/-!
# The checks of a rule

`checkValue` is about one item of an attribute on its own, `validate` about a whole rule:
its items, its outbound and the options that its action takes together.  An error is what
the core would refuse at start; a warning is about a rule that does not do what it says.

    validate has no error → every item of an attribute that applies passes   (passes_of_valid)
-/

namespace Waterdisco.Routing

open Route (trimmed emitsOutbound)

inductive Severity where
  | error
  | warning
deriving DecidableEq

structure RuleIssue where
  severity : Severity := .error
  attr : Attr
  message : String
  /-- The list item; empty when the message is about the attribute as a whole. -/
  value : String := ""
  /-- The other attribute of a problem between two. -/
  related : Option Attr := none

/-! ## Rule types -/

def custom : Int32 := 0
def simpleAddressProxy : Int32 := 1
def simpleAddressBypass : Int32 := 2
def simpleAddressBlock : Int32 := 3
def simpleProcessNameProxy : Int32 := 4
def simpleProcessNameBypass : Int32 := 5
def simpleProcessNameBlock : Int32 := 6
def simpleProcessPathProxy : Int32 := 7
def simpleProcessPathBypass : Int32 := 8
def simpleProcessPathBlock : Int32 := 9
def simpleAddressWarpBypass : Int32 := 10
def simpleProcessNameWarpBypass : Int32 := 11
def simpleProcessPathWarpBypass : Int32 := 12
def endpointPreferredBy : Int32 := 13

def isSimpleAddress (type : Int32) : Bool :=
  type == simpleAddressProxy || type == simpleAddressBypass || type == simpleAddressBlock ||
    type == simpleAddressWarpBypass

/-! ## Outbounds -/

def proxyID : Int32 := -1
def directID : Int32 := -2
def blockID : Int32 := -3
def dnsOutID : Int32 := -4
def warpBypassID : Int32 := -5
def INVALID_ID : Int32 := -99999

structure Outbound where
  name : String
  displayAddress : String
  isExtraCore : Bool := false
  isXrayFullConfig : Bool := false

/-- An unnamed outbound is shown by its address. -/
def Outbound.displayName (outbound : Outbound) : String :=
  if outbound.name.isEmpty then outbound.displayAddress else outbound.name

structure Profile where
  type : String
  outbound : Option Outbound
  /-- A custom profile that is a whole config. -/
  customFullConfig : Bool := false
  /-- The hops of a chain. -/
  chain : Option (List Int32) := none

/-- What a rule is read and checked against: the profiles, in the order of their table, and
the checks of texts, which give a message where a text is not accepted. -/
structure World where
  darwin : Bool := false
  profiles : List (Int32 × Profile)
  goRegex : String → String
  cidr : String → String
  portRange : String → String
  portRangeOrder : String → String
  duration : String → String
  ip : String → String
  host : String → String
  /-- `validationShort`. -/
  short : String → String
  /-- A name of the built-in rule sets. -/
  knownRuleSet : String → Bool
  /-- An http(s) URL whose file is a `.srs`. -/
  ruleSetUrl : String → Bool
  /-- `get_rule_set_name`. -/
  ruleSetName : String → String
  toLower : String → String
  isLetter : Char → Bool
  /-- `QString::number` of a double. -/
  doubleText : UInt64 → String

variable (w : World)

def World.getProfile (id : Int32) : Option Profile := (w.profiles.find? (fun row => row.1 == id)).map (·.2)

def Profile.name (profile : Profile) : String :=
  match profile.outbound with
  | some outbound => outbound.name
  | none => ""

/-- The id of the first row of the name. -/
def World.getProfileByName (name : String) : Option Int32 :=
  (w.profiles.find? (fun row => row.2.name == name)).map (·.1)

def routeRuleUnroutable (ent : Profile) : Bool :=
  match ent.outbound with
  | none => true
  | some outbound => outbound.isExtraCore || outbound.isXrayFullConfig || (ent.type == "custom" && ent.customFullConfig)

def routeRuleOutboundProblem (id : Int32) : String :=
  if id == proxyID || id == directID || id == warpBypassID then ""
  else if id < 0 then "Not a valid outbound; pick another one."
  else
    match w.getProfile id with
    | none => "The outbound profile no longer exists; pick another one."
    | some ent =>
      match ent.outbound with
      | none => "The outbound profile no longer exists; pick another one."
      | some outbound =>
        let name := outbound.displayName
        if routeRuleUnroutable ent then
          "Routing rules cannot use \"" ++ name ++
            "\": extra core profiles and full configs are not supported. Pick another outbound."
        else if ent.type != "chain" then ""
        else
          match ent.chain with
          | none | some [] => "The chain \"" ++ name ++ "\" has no hops; pick another outbound."
          | some hops =>
            if hops.any (fun hopID =>
                match w.getProfile hopID with
                | none => true
                | some hop => hop.type == "chain" || routeRuleUnroutable hop) then
              "Routing rules cannot use the chain \"" ++ name ++
                "\": a hop of it is missing, another chain, an extra core profile or a full config. Pick another outbound."
            else ""

/-! ## Texts -/

/-- `Validation::ToInt` of a trimmed text. -/
def parseInt : List Char → Option Int
  | '-' :: digits => (number digits).bind (fun n => if n ≤ 2 ^ 63 then some (-(n : Int)) else none)
  | digits => (number digits).bind (fun n => if n < 2 ^ 63 then some (n : Int) else none)

def portMessage : String := "Must be a port number from 1 to 65535."

def portProblem (text : String) : String :=
  if (trimmed text).isEmpty then "This field is required."
  else
    match parseInt (trimmed text).toList with
    | some v => if v < 1 ∨ 65535 < v then portMessage else ""
    | none => portMessage

/-- `Validation::OneOf`; no list of a rule is longer than the twelve values that are shown. -/
def oneOf (text : String) (allowed : List String) : String :=
  if (trimmed text).isEmpty || allowed.contains (trimmed text) then ""
  else "Unknown value \"" ++ w.short (trimmed text) ++ "\". Use one of: " ++ ", ".intercalate allowed ++ "."

def hasPart (text part : String) : Bool := decide (part.toList <:+: text.toList)

def routeRuleDigits (text : List Char) : Bool := !text.isEmpty && text.all (fun c => '0' ≤ c && c ≤ '9')

/-- "host:1234", not an IPv6 address. -/
def routeRuleHasPortSuffix (text : String) : Bool :=
  match cut ':' text.toList with
  | some (host, port) => !host.isEmpty && !port.contains ':' && routeRuleDigits port
  | none => false

def routeRuleAbsolutePath (text : String) : Bool :=
  match text.toList with
  | '/' :: _ | '\\' :: _ => true
  | drive :: ':' :: sep :: _ => w.isLetter drive && (sep == '\\' || sep == '/')
  | _ => false

/-- The text between brackets around the whole of it. -/
def bracketed (text : String) : Option String :=
  match text.toList with
  | '[' :: rest => if rest.getLast? = some ']' then some (String.ofList rest.dropLast) else none
  | _ => none

def routeRuleDomainProblem (value : String) : String :=
  if hasPart value "://" then
    "Write only the domain, without a scheme such as https://; as written, this never matches."
  else if value.toList.any Scan.isSpace then "A domain has no spaces in it, so this never matches."
  else if value.toList.contains '/' then "Write only the domain, without a path; as written, this never matches."
  else if value.toList.contains ':' then
    "A domain has no port or ':' in it, so this never matches; match ports and IP addresses with conditions of their own."
  else if value != w.toLower value then
    "The core compares lowercase host names, so this never matches; write it in lowercase."
  else ""

def routeRuleOverrideAddressProblem (value : String) : String :=
  if value.toList.head? = some '[' then
    match bracketed value with
    | some inner =>
      if inner.isEmpty then "Write an IPv6 address as 2001:db8::1 or [2001:db8::1]; a port goes in override_port."
      else w.ip inner
    | none => "Write an IPv6 address as 2001:db8::1 or [2001:db8::1]; a port goes in override_port."
  else if (w.ip value).isEmpty then ""
  else if routeRuleHasPortSuffix value then
    "Put the port in override_port and only the address here, such as 1.2.3.4 or example.com."
  else w.host value

def routeRuleSpoofProblem (value : String) : String × Severity :=
  if (w.ip ((bracketed value).getD value)).isEmpty then
    ("An IP address sends no server name; use a host name such as www.example.com.", .warning)
  else if !hasPart value "://" && routeRuleHasPortSuffix value then ("Write only the host name, without a port.", .error)
  else (w.host value, .error)

/-! ## Items -/

/-- The message about a trimmed text that is not empty. -/
def checkMessage (a : Attr) (value : String) : String × Severity :=
  match a with
  | .domain | .domainSuffix | .domainKeyword => (routeRuleDomainProblem w value, .warning)
  | .domainRegex | .processPathRegex => (w.goRegex value, .warning)
  | .ipCidr | .sourceIpCidr => (w.cidr value, .error)
  | .port | .sourcePort =>
    if value.toList.contains ':' || value.toList.contains '-' then
      (if a == .port then "A range goes in port_range, written like 1000:2000."
        else "A range goes in source_port_range, written like 1000:2000.", .error)
    else if value != "0" then (portProblem value, .error)
    else ("", .error)
  | .portRange | .sourcePortRange =>
    if (w.portRange value).isEmpty then (w.portRangeOrder value, .warning) else (w.portRange value, .error)
  | .processName =>
    if value.toList.contains '/' || value.toList.contains '\\' then
      ("Write only the program's file name, such as chrome.exe; a name with a path never matches. Match a full path with a process path condition instead.",
        .warning)
    else ("", .error)
  | .processPath =>
    if routeRuleAbsolutePath w value then ("", .error)
    else ("Write the full path, such as C:\\Program Files\\App\\app.exe or /usr/bin/app.", .warning)
  | .ruleSet =>
    if w.knownRuleSet value || w.ruleSetUrl value then ("", .error)
    else ("Unknown rule-set. Use a built-in name such as geosite-google, or an http(s) URL of a binary .srs file.", .error)
  | .overrideAddress => (routeRuleOverrideAddressProblem w value, .error)
  | .overridePort => if value != "0" then (portProblem value, .error) else ("", .error)
  | .tlsFragmentFallbackDelay => (w.duration value, .error)
  | .tlsSpoof => routeRuleSpoofProblem w value
  | .ipVersion => (oneOf w value ["4", "6"], .error)
  | .network => (oneOf w value ["tcp", "udp", "icmp"], .error)
  | .protocol =>
    (oneOf w value ["tls", "http", "quic", "dns", "stun", "bittorrent", "dtls", "ssh", "rdp", "ntp"], .error)
  | .action =>
    (oneOf w value ["route", "route-options", "direct", "bypass", "reject", "hijack-dns", "sniff", "resolve"], .error)
  | .method => (oneOf w (w.toLower value) ["default", "drop", "reply"], .error)
  | .strategy => (oneOf w value ["as_is", "prefer_ipv4", "prefer_ipv6", "ipv4_only", "ipv6_only"], .error)
  | .tlsSpoofMethod =>
    (oneOf w value ["wrong-sequence", "wrong-checksum", "wrong-ack", "wrong-md5", "wrong-timestamp"], .error)
  | _ => ("", .error)

def checkValue (a : Attr) (raw : String) : Option RuleIssue :=
  let value := trimmed raw
  if value.isEmpty then none
  else
    let (message, severity) := checkMessage w a value
    if message.isEmpty then none
    else some { severity, attr := a, message, value := if a.isListAttribute then value else "" }

/-- The item is one the core would refuse. -/
def bad (a : Attr) (item : String) : Bool :=
  match checkValue w a item with
  | some issue => issue.severity == .error
  | none => false

/-! ## Rules -/

def isValidStrArray (arr : List String) : Bool := arr.any (fun item => !(trimmed item).isEmpty)

namespace RouteRule

/-- A route rule to block or dns_out is a reject or hijack-dns rule. -/
def effectiveAction (rule : RouteRule) : String :=
  if rule.action == "route" && rule.outboundID == blockID then "reject"
  else if rule.action == "route" && rule.outboundID == dnsOutID then "hijack-dns"
  else rule.action

def hasMatchConditions (rule : RouteRule) : Bool :=
  rule.sourceIpIsPrivate || rule.ipIsPrivate ||
    (Attr.getAttributes w.darwin).any (fun a =>
      a.isMatchAttribute && a.getInputType != .trufalse && isValidStrArray (rule.getCurrentValueString a))

def isAttributeAtDefault (rule : RouteRule) (a : Attr) : Bool :=
  if a == .action then true
  else
    match a.getInputType with
    | .trufalse => !rule.getCurrentValueBool a
    | .select =>
      if a == .outbound then rule.outboundID == directID
      else
        match rule.getCurrentValueString a with
        | [] => true
        | first :: _ => first.isEmpty
    | .text =>
      if a == .overrideAddress then rule.overrideAddress.isEmpty
      else if a == .overridePort then (trimmed rule.overridePort).isEmpty || trimmed rule.overridePort == "0"
      else if a == .tlsSpoof then rule.tlsSpoof.isEmpty
      else !isValidStrArray (rule.getCurrentValueString a)

end RouteRule

/-- The attribute is emitted by a rule of the action. -/
def Attr.applies (a : Attr) (act : String) : Bool :=
  match a.actionScopes with
  | none => true
  | some actions => actions.contains act

/-- The attribute has items that `validate` checks one by one. -/
def Attr.itemized (a : Attr) (act : String) : Bool :=
  a != .outbound && a.getInputType != .trufalse && a.applies act

namespace RouteRule

def itemIssues (rule : RouteRule) : List RuleIssue :=
  (Attr.getAttributes w.darwin).flatMap (fun a =>
    if a.itemized rule.effectiveAction then (rule.getCurrentValueString a).filterMap (checkValue w a) else [])

def outboundIssues (rule : RouteRule) : List RuleIssue :=
  if emitsOutbound rule.effectiveAction &&
      !(routeRuleOutboundProblem w rule.outboundID).isEmpty then
    [{ attr := .outbound, message := routeRuleOutboundProblem w rule.outboundID }]
  else []

def anyOption (rule : RouteRule) : Bool :=
  !(trimmed rule.overrideAddress).isEmpty || decide (toInt (trimmed rule.overridePort) > 0) || rule.tlsFragment ||
    rule.tlsRecordFragment || !(trimmed rule.tlsSpoof).isEmpty

def fragmentIssues (rule : RouteRule) : List RuleIssue :=
  if rule.effectiveAction == "route-options" && (rule.tlsFragment && rule.tlsRecordFragment) then
    [{ attr := .tlsRecordFragment
       message := "A route-options rule cannot turn on both tls_fragment and tls_record_fragment; keep one, or use a route rule, which accepts both."
       related := some .tlsFragment }]
  else []

def optionIssues (rule : RouteRule) : List RuleIssue :=
  if rule.effectiveAction == "route-options" && (!rule.anyOption && rule.hasMatchConditions w) then
    [{ attr := .action
       message := "A route-options rule must set at least one option: override_address, override_port, tls_fragment, tls_record_fragment or tls_spoof." }]
  else []

def effectWarnings (rule : RouteRule) : List RuleIssue :=
  (if Attr.tlsFragment.applies rule.effectiveAction then
    (if !(trimmed rule.tlsFragmentFallbackDelay).isEmpty && !rule.tlsFragment then
      [{ severity := .warning, attr := .tlsFragmentFallbackDelay, message := "Has no effect unless tls_fragment is on.",
         related := some .tlsFragment }] else []) ++
    (if !(trimmed rule.tlsSpoofMethod).isEmpty && (trimmed rule.tlsSpoof).isEmpty then
      [{ severity := .warning, attr := .tlsSpoofMethod, message := "Has no effect without a tls_spoof host name.",
         related := some .tlsSpoof }] else [])
  else []) ++
  (if rule.effectiveAction == "reject" && rule.noDrop && w.toLower (trimmed rule.rejectMethod) == "drop" then
    [{ severity := .warning, attr := .noDrop, message := "Has no effect with the drop method.", related := some .method }]
  else [])

def ignoredWarnings (rule : RouteRule) : List RuleIssue :=
  (Attr.getAttributes w.darwin).filterMap (fun a =>
    match a.actionScopes with
    | none => none
    | some actions =>
      if actions.contains rule.effectiveAction || rule.isAttributeAtDefault a then none
      -- the block or dns_out outbound is what makes a route rule a reject or hijack-dns one
      else if a == .outbound && rule.action == "route" then none
      else some
        { severity := .warning, attr := a, related := some .action
          message := "A " ++ rule.effectiveAction ++ " rule ignores it; it applies only to these actions: " ++
            ", ".intercalate actions ++ "." })

def everythingWarnings (rule : RouteRule) : List RuleIssue :=
  if rule.type == custom &&
      (rule.effectiveAction == "route" || rule.effectiveAction == "bypass" || rule.effectiveAction == "reject") &&
      !rule.hasMatchConditions w then
    [{ severity := .warning, attr := .action
       message := "This rule has no match conditions, so it matches all traffic." }]
  else []

def validate (rule : RouteRule) : List RuleIssue :=
  if rule.type == endpointPreferredBy then []
  else
    rule.itemIssues w ++ rule.outboundIssues w ++ rule.fragmentIssues ++ rule.optionIssues w ++ rule.effectWarnings w ++
      rule.ignoredWarnings w ++ rule.everythingWarnings w

def firstError (rule : RouteRule) : Option RuleIssue :=
  (rule.validate w).find? (fun issue => issue.severity == .error)

end RouteRule

end Waterdisco.Routing
