import Waterdisco.Route.Rules

/-!
# Routing profiles as they are stored

`RouteRule`, `RouteDns` and `RouteProfile` with every field that a profile keeps; what the
editor shows of a rule is not kept.  `Route.RouteRule` is the part that a start reads; what
a rule asks of a connection (`RuleMatch`) is the same in both.
-/

namespace Waterdisco.Routing

open Route (trimmed RuleMatch)

structure RouteRule extends RuleMatch where
  name : String := ""
  type : Int32 := 0
  disabled : Bool := false
  outboundID : Int32 := -2
  action : String := "route"
  rejectMethod : String := ""
  noDrop : Bool := false
  overrideAddress : String := ""
  overridePort : String := ""
  tlsFragment : Bool := false
  tlsFragmentFallbackDelay : String := ""
  tlsRecordFragment : Bool := false
  tlsSpoof : String := ""
  tlsSpoofMethod : String := ""
  sniffers : List String := []
  sniffOverrideDest : Bool := false
  strategy : String := ""
deriving DecidableEq

/-- The DNS settings that a routing profile can take over. -/
structure RouteDns where
  remoteDns : String := "https://8.8.8.8/dns-query"
  remoteDnsDisableIpv6 : Bool := false
  directDns : String := "localhost"
  directDnsDisableIpv6 : Bool := false
  dnsFinalOut : String := "remote"
  enableDnsRouting : Bool := true
  fakeDns : Bool := false
  fakeipDisableIpv6 : Bool := false
deriving DecidableEq

structure RouteProfile where
  id : Int32 := -1
  name : String := ""
  rules : List RouteRule := []
  defaultOutboundID : Int32 := -1
  isRaw : Bool := false
  rawRoute : String := ""
  preventModifications : Bool := false
  isRemote : Bool := false
  remoteURL : String := ""
  autoUpdate : Bool := false
  remoteLastUpdate : Int64 := 0
  sourceGid : Int32 := -1
  endpointProfileIDs : List Int32 := []
  innerHopEndpointIDs : List Int32 := []
  customDns : Bool := false
  dns : Option RouteDns := none

/-! ## JSON values with defaults -/

def toStringOr (default : String) : Json → String
  | .str s => s
  | _ => default

def toBoolOr (default : Bool) : Json → Bool
  | .bool b => b
  | _ => default

/-- A number that is an `int`. -/
def toIntOr (default : Int32) : Json → Int32
  | .num n => if (Int32.ofInt n).toInt = n then Int32.ofInt n else default
  | _ => default

theorem toIntOr_num (default n : Int32) : toIntOr default (.num n.toInt) = n := by
  rw [toIntOr, Int32.ofInt_toInt, if_pos rfl]

/-! ## DNS -/

def RouteDns.toJson (dns : RouteDns) : Json :=
  .obj [("remote_dns", .str dns.remoteDns),
    ("remote_dns_disable_ipv6", .bool dns.remoteDnsDisableIpv6),
    ("direct_dns", .str dns.directDns),
    ("direct_dns_disable_ipv6", .bool dns.directDnsDisableIpv6),
    ("dns_final_out", .str dns.dnsFinalOut),
    ("enable_dns_routing", .bool dns.enableDnsRouting),
    ("fake_dns", .bool dns.fakeDns),
    ("fakeip_disable_ipv6", .bool dns.fakeipDisableIpv6)]

/-- Absent keys keep their defaults. -/
def RouteDns.fromJson (obj : Json) : RouteDns :=
  let res : RouteDns := {}
  { remoteDns := trimmed (toStringOr res.remoteDns (obj.value "remote_dns"))
    remoteDnsDisableIpv6 := toBoolOr res.remoteDnsDisableIpv6 (obj.value "remote_dns_disable_ipv6")
    directDns := trimmed (toStringOr res.directDns (obj.value "direct_dns"))
    directDnsDisableIpv6 := toBoolOr res.directDnsDisableIpv6 (obj.value "direct_dns_disable_ipv6")
    dnsFinalOut := toStringOr res.dnsFinalOut (obj.value "dns_final_out")
    enableDnsRouting := toBoolOr res.enableDnsRouting (obj.value "enable_dns_routing")
    fakeDns := toBoolOr res.fakeDns (obj.value "fake_dns")
    fakeipDisableIpv6 := toBoolOr res.fakeipDisableIpv6 (obj.value "fakeip_disable_ipv6") }

/-- The addresses come back trimmed. -/
theorem RouteDns.fromJson_toJson (dns : RouteDns) :
    RouteDns.fromJson dns.toJson = { dns with remoteDns := trimmed dns.remoteDns, directDns := trimmed dns.directDns } := by
  simp only [RouteDns.fromJson, RouteDns.toJson, Json.value, List.find?_cons, String.reduceBEq, toStringOr, toBoolOr]

end Waterdisco.Routing
