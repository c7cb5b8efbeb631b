import Waterdisco.Config.Tags

/-!
# What a build reads

Profiles, groups and settings as the config builder sees them.  The classes behind a
profile (`vless`, `wireguard`, `custom`, ...) answer a few questions each (`IsXray`,
`IsEndpoint`, ...) and build one JSON object; a profile here carries the answers, the
error its object builds with and the keys of the object that name something else.

`World` is one build's surroundings: the repositories, the settings, the local ports
the system hands out and the random texts drawn for the bridges' passwords.
-/

namespace Waterdisco.Config

def proxyID : Int := -1
def directID : Int := -2
def blockID : Int := -3
def warpBypassID : Int := -5
def warpProfileID : Int := -2408

inductive ProfileType where
  | chain
  | autoselector
  | custom
  | openvpn
  | openconnect
  | tailscale
  | other (name : String)
deriving DecidableEq

def ProfileType.isVpn : ProfileType → Bool
  | .openvpn | .openconnect => true
  | _ => false

inductive TunnelDns where
  | none
  | prefer
  | strict
deriving DecidableEq

/-- The name whose HTTPS record a hop's ECH needs, and the resolver to ask if it has a usable one. -/
structure EchQuery where
  name : String
  resolver : Option String := none
deriving DecidableEq

structure Profile where
  id : Int
  gid : Int := 0
  type : ProfileType := .other "socks"
  name : String := ""
  displayTypeAndName : String := ""
  /-- `Chain()->list`, in the order of the chain editor; `none` when the cast fails. -/
  chain : Option (List Int) := none
  isXray : Bool := false
  isXrayFullConfig : Bool := false
  isExtraCore : Bool := false
  isEndpoint : Bool := false
  isCustomFullConfig : Bool := false
  /-- What `Build()` and `BuildXray()` report; empty when they succeed. -/
  buildError : String := ""
  buildXrayError : String := ""
  /-- Keys of the built object that name something else; only custom JSON brings them. -/
  detour : Option Tag := none
  dialerProxy : Option Tag := none
  domainResolver : Option Tag := none
  /-- A custom Xray full config whose text is no JSON object. -/
  configIsEmpty : Bool := false
  /-- A transport that only Xray carries, without TLS; the core does not run it. -/
  unsupportedTransport : Bool := false
  realmActive : Bool := false
  /-- A SOCKS4 outbound without 4a. -/
  socks4 : Bool := false
  onlyAdvertisedRoutes : Bool := false
  tunnelDns : TunnelDns := .prefer
  globalDNS : Bool := false
  ech : Option EchQuery := none
  /-- The canonical path of an extra core's program; empty when there is none. -/
  extraCorePath : String := ""
deriving DecidableEq

structure Group where
  id : Int
  name : String := ""
  landingProxyId : Int := -1
  frontProxyId : Int := -1

structure WarpSettings where
  mode : String := ""
  masquePrivateKey : String := ""
  masquePeerPublicKey : String := ""
  masqueEp : String := ""
  masqueIfcAddrs : List String := []
  privateKey : String := ""
  publicKey : String := ""
  ep : String := ""
  ifcAddrs : List String := []
  amneziaPackets : List String := []
  /-- What building the WARP outbound reports. -/
  buildError : String := ""
deriving DecidableEq

def WarpSettings.missing (s : WarpSettings) : Bool :=
  if s.mode == "masque" then
    s.masquePrivateKey.isEmpty || s.masquePeerPublicKey.isEmpty || s.masqueEp.isEmpty || s.masqueIfcAddrs.isEmpty
  else
    s.privateKey.isEmpty || s.publicKey.isEmpty || s.ep.isEmpty || s.ifcAddrs.isEmpty ||
      (s.mode == "amnezia" && s.amneziaPackets.isEmpty)

/-- `getWarpProfile`: WARP runs as a WireGuard or MASQUE endpoint. -/
def WarpSettings.profile (s : WarpSettings) : Profile where
  id := warpProfileID
  name := "warp"
  type := .other (if s.mode == "masque" then "masque" else "wireguard")
  isEndpoint := true
  buildError := s.buildError

/-- A socks server on the loopback that carries traffic from one core to the other. -/
structure Bridge where
  port : Int
  auth : String
deriving DecidableEq

structure AutoSelectorPlan where
  error : String := ""
  build : List Int := []

end Waterdisco.Config
