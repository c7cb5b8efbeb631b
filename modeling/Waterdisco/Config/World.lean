import Mathlib.Data.List.Sort
import Waterdisco.Route.Rules

/-!
# The surroundings of one build

`World` holds what a build reads but does not change: the repositories, the settings,
the platform, the auto selector's plan, the core's verdict on a profile, and what the
system hands out: the n-th local port probed and the n-th random text drawn.

`BuildContext` is what the sections add to.  An error stays in it and the caller looks
at it after each section.
-/

namespace Waterdisco.Config

open Route

structure Settings where
  enableWarp : Bool := false
  warp : WarpSettings := {}
  spmodeVpn : Bool := false
  vpnL3Bridge : Bool := false
  resolveDomainStrategy : String := ""
  enableNtp : Bool := false
  ntpOutbound : String := ""
  adblockEnable : Bool := false
  useDnsObject : Bool := false
  dnsUseHosts : Bool := false
  /-- The global DNS settings. -/
  dns : RouteDns := {}

structure World where
  profile : Int → Option Profile
  group : Int → Option Group
  groupIds : List Int := []
  route : Int → Option RouteProfile
  settings : Settings := {}
  isDarwin : Bool := false
  /-- The platform has a bridge backend. -/
  hasBridge : Bool := true
  plan : Profile → AutoSelectorPlan := fun _ => {}
  isValid : Int → Bool := fun _ => true
  ruleSetName : String → String := id
  /-- The n-th port that was free when probed; not positive when the probe failed. -/
  port : Nat → Int
  randomString : Nat → String

/-- What an outbound was built from. -/
inductive Source where
  | hop (profile : Profile)
  | bridge (bridge : Bridge)
  | selector (members : List Tag)
  | direct
  | l3Bridge
deriving DecidableEq

/-- A profile in the role of a hop, or the socks profile made up for a bridge. -/
inductive Ent where
  | profile (profile : Profile)
  | bridge (bridge : Bridge)

namespace Ent

def source : Ent → Source
  | .profile p => .hop p
  | .bridge b => .bridge b

def isEndpoint : Ent → Bool
  | .profile p => p.isEndpoint
  | .bridge _ => false

def buildError : Ent → String
  | .profile p => p.buildError
  | .bridge _ => ""

end Ent

/-- A sing-box outbound or endpoint. -/
structure Outbound where
  tag : Tag
  source : Source
  detour : Option Tag := none
  domainResolver : Option Tag := none
deriving DecidableEq

def Source.isEndpoint : Source → Bool
  | .hop p => p.isEndpoint
  | _ => false

structure XrayOutbound where
  tag : Tag
  source : Source
  dialerProxy : Option Tag := none
deriving DecidableEq

/-- A custom Xray full config with the bridge inbound put in front of its own. -/
structure FullXrayConfig where
  profile : Profile
  bridge : Bridge
  /-- The inbounds of the user are kept behind it. -/
  keepsInbounds : Bool
deriving DecidableEq

structure BuildContext where
  ent : Profile
  forTest : Bool := false
  error : String := ""
  outbounds : List Outbound := []
  endpoints : List Outbound := []
  xrayOutbounds : List XrayOutbound := []
  /-- Tag and type of the VPN endpoints that answer DNS, by tag. -/
  vpnEndpointTags : List (Tag × ProfileType) := []
  vpnGateTags : List Tag := []
  vpnAuxTags : List Tag := []
  vpnStrictTag : Tag := ""
  echQueryNames : List String := []
  echResolvers : List (String × String) := []
  xrayIngressTags : List Tag := []
  singIngressTags : List Tag := []
  singToXrayBridges : List Bridge := []
  xrayToSingBridges : List Bridge := []
  /-- The one slot for an Xray configuration. -/
  xrayConfig : Option FullXrayConfig := none
  xrayFullConfigs : List FullXrayConfig := []
  isXrayNeeded : Bool := false
  drawnPorts : Nat := 0
  drawnStrings : Nat := 0
deriving DecidableEq

/-- `QMap::insert`: the entries stay in the order of their keys. -/
def mapInsert {α : Type} (map : List (String × α)) (key : String) (value : α) : List (String × α) :=
  (map.filter (fun entry => entry.1 ≠ key)).orderedInsert (fun a b => ¬ b.1 < a.1) (key, value)

/-- The object goes to the endpoints or to the outbounds. -/
def BuildContext.addOutbound (ctx : BuildContext) (outbound : Outbound) : BuildContext :=
  if outbound.source.isEndpoint then { ctx with endpoints := ctx.endpoints ++ [outbound] }
  else { ctx with outbounds := ctx.outbounds ++ [outbound] }

end Waterdisco.Config
