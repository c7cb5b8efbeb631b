import Waterdisco.Config.Outbounds
import Waterdisco.Config.Path
import Waterdisco.Route.Selectors

/-!
# The sections of a configuration

The DNS and `route` sections name the outbounds, endpoints and DNS servers that other
sections define.  `BuildSingBoxConfig` puts the sections together: the outbounds before
the DNS section, which needs the tags the VPN endpoints landed on.
-/

namespace Waterdisco.Config

open Route Tags

/-! ## DNS -/

structure DnsServer where
  tag : Tag
  domainResolver : Option Tag := none
  detour : Option Tag := none
  /-- A server that asks an endpoint: the type of the server and the endpoint's tag. -/
  endpoint : Option (ProfileType × Tag) := none
deriving DecidableEq

structure DnsRule where
  selectors : DomainSelectors := {}
  preferredBy : List Tag := []
  action : String := "route"
  server : Option Tag := none
deriving DecidableEq

structure DnsSection where
  servers : List DnsServer
  rules : List DnsRule

/-- A guard answers empty instead of falling through to another server. -/
def dnsRoute (selectors : DomainSelectors) (server : Tag) (disableIPv6 : Bool) : List DnsRule :=
  (if disableIPv6 then [{ selectors := selectors, action := "predefined" }] else []) ++
    [{ selectors := selectors, server := some server }]

def dnsRoutingRules (selectors : DomainSelectors) (server : Tag) (disableIPv6 : Bool) : List DnsRule :=
  (if selectors.ruleSets.isEmpty then [] else dnsRoute { ruleSets := selectors.ruleSets } server disableIPv6) ++
    (if selectors.hasInlineConditions then dnsRoute { selectors with ruleSets := [] } server disableIPv6 else [])

def vpnDnsTag (tag : Tag) : Tag := dnsVpnPrefix ++ "-" ++ tag

/-- Strict tunnel DNS takes every query that would otherwise go to `dns-remote`. -/
def remoteDnsTag (ctx : BuildContext) : Tag :=
  if ctx.vpnEndpointTags.any (fun entry => entry.1 == ctx.vpnStrictTag) then vpnDnsTag ctx.vpnStrictTag
  else dnsRemote

/-- The program of an extra core that the started profile runs, itself or as the first of a chain's list. -/
def extraCorePath (w : World) (ent : Profile) : String :=
  if ent.isExtraCore then ent.extraCorePath
  else if ent.type ≠ .chain then ""
  else
    match (ent.chain.getD []).head?.bind w.profile with
    | some first => if first.isExtraCore then first.extraCorePath else ""
    | none => ""

/-- `buildDNSSection`; `none` is the DNS object of the user. -/
def buildDNSSection (w : World) (ctx : BuildContext) (profile : RouteProfile) (dns : RouteDns) (ownsDns : Bool) :
    Option DnsSection :=
  if !ownsDns && w.settings.useDnsObject then none
  else
    let isTailscale := ctx.ent.type == .tailscale
    let remote := remoteDnsTag ctx
    let directSites := if dns.enableDnsRouting then profile.getDirectSites else []
    let proxySites := if dns.enableDnsRouting then profile.getProxySites else []
    let directFinal := dns.dnsFinalOut == direct
    let vpnServers := ctx.vpnEndpointTags.map (fun entry =>
      { tag := vpnDnsTag entry.1, endpoint := some (entry.2, entry.1) : DnsServer })
    let echServers := ctx.echResolvers.mapIdx (fun i _ =>
      { tag := hopTag dnsEchPrefix i, domainResolver := some dnsLocal : DnsServer })
    some
      { servers :=
          [{ tag := dnsRemote, domainResolver := some dnsLocal, detour := some proxy }] ++
          (if isTailscale then [{ tag := dnsTailscale, endpoint := some (.tailscale, proxy) }] else []) ++
          [{ tag := dnsDirect, domainResolver := some dnsLocal }] ++
          (if w.settings.dnsUseHosts then [{ tag := dnsHosts }] else []) ++
          vpnServers ++
          (if dns.fakeDns then [{ tag := dnsFake }] else []) ++
          [{ tag := dnsLocal }] ++
          echServers
        rules :=
          (ctx.echResolvers.mapIdx (fun i _ => { server := some (hopTag dnsEchPrefix i) : DnsRule })).reverse ++
          (if w.settings.dnsUseHosts then [{ preferredBy := [dnsHosts], server := some dnsHosts }] else []) ++
          (if ctx.echQueryNames.isEmpty then [] else [{ server := some dnsDirect }]) ++
          ctx.vpnEndpointTags.map (fun entry =>
            { preferredBy := [vpnDnsTag entry.1], server := some (vpnDnsTag entry.1) : DnsRule }) ++
          (if isTailscale then [{ server := some dnsDirect }, { server := some dnsTailscale }] else []) ++
          (if (extraCorePath w ctx.ent).isEmpty then [] else dnsRoute {} dnsDirect dns.directDnsDisableIpv6) ++
          (if dns.fakeDns then [{ server := some dnsFake }] else []) ++
          (if directSites.isEmpty then []
            else dnsRoutingRules (parseDomainSelectors directSites) dnsDirect dns.directDnsDisableIpv6) ++
          (if proxySites.isEmpty || !directFinal then []
            else dnsRoutingRules (parseDomainSelectors proxySites) remote dns.remoteDnsDisableIpv6) ++
          dnsRoute {} (if directFinal then dnsDirect else remote)
            (if directFinal then dns.directDnsDisableIpv6 else dns.remoteDnsDisableIpv6) }

/-! ## Routes -/

/-- `preferred_by` matches only during pre-match, so the copy does nothing later on. -/
def l3BridgeTwin (rule : RuleObject) : RuleObject :=
  { rule with preferredBy := [l3Direct], action := "route", outbound := some l3Direct }

def withL3BridgeTwins (rules : List RuleObject) : List RuleObject :=
  rules.flatMap (fun rule =>
    if (rule.action.isEmpty || rule.action == "route") && rule.preferredBy.isEmpty &&
        rule.outbound == some direct then [l3BridgeTwin rule, rule]
    else [rule])

/-- The gate of a tag: what it advertises goes to it. -/
def gateRule (tag : Tag) : RuleObject where
  preferredBy := [tag]
  outbound := some tag

/-- The rules that bring the traffic of a bridge to the hops behind Xray. -/
def bridgeRules (ctx : BuildContext) : List RuleObject :=
  ((ctx.singIngressTags.zip ctx.xrayToSingBridges).map (fun pair => pair.1)).map (fun tag =>
    { inbound := [bridgeTagFor tag], outbound := some tag })

def carriesGate (rules : List RuleObject) (tag : Tag) : Bool := rules.any (fun rule => rule.preferredBy.contains tag)

def outboundIDToString (id : Int) : Tag :=
  if id = proxyID then "proxy"
  else if id = directID then "direct"
  else if id = blockID then "block"
  else if id = warpBypassID then "warp-bypass"
  else "unknown"

/-- Where the traffic goes that no rule of a routing profile takes. -/
def finalTag (w : World) (profile : RouteProfile) (raw : Json) : Tag :=
  if profile.isRaw then (if raw.contains "final" then (raw.value "final").toStr else proxy)
  else if profile.defaultOutboundID = blockID then direct
  else if profile.defaultOutboundID = warpBypassID then (if w.settings.enableWarp then warpBypass else proxy)
  else outboundIDToString profile.defaultOutboundID

structure RouteSection where
  rules : List RuleObject
  final : Option Tag
  defaultDomainResolver : Option Tag

/-- The rules put in front of those of the profile, the ones of the bridges first of all. -/
def leadingRules (w : World) (ctx : BuildContext) (profile : RouteProfile) : List RuleObject :=
  bridgeRules ctx ++
    (if (extraCorePath w ctx.ent).isEmpty then []
      else [{ processPath := [extraCorePath w ctx.ent], outbound := some direct }]) ++
    (if w.isDarwin && w.settings.spmodeVpn then [{ inbound := ["dns-system"], action := "hijack-dns" }] else []) ++
    (if profile.isRaw then []
      else
        [{ action := "sniff" }] ++
        (if w.settings.resolveDomainStrategy.isEmpty then []
          else [{ inbound := ["mixed-in", "tun-in"], action := "resolve" }]) ++
        [{ protocol := "dns", action := "hijack-dns" }]) ++
    [{ inbound := ["dns-in"], action := "reject" }]

/-- The rules put behind those of the profile. -/
def trailingRules (ctx : BuildContext) (profile : RouteProfile) (profileRules : List RuleObject) (l3Bridge : Bool)
    (final : Tag) : List RuleObject :=
  ((ctx.vpnAuxTags.filter (fun tag => profile.isRaw || !carriesGate profileRules tag)).map gateRule) ++
    (if l3Bridge && final == direct && (profile.isRaw || profile.defaultOutboundID == directID) then
      [gateRule l3Direct] else []) ++
    -- `final` still names the tunnel, but nothing may reach it unmatched
    (if ctx.vpnGateTags.contains final then [{ action := "resolve" }, gateRule final, { action := "reject" }] else []) ++
    (if !profile.isRaw && profile.defaultOutboundID == blockID then [{ action := "reject" }] else [])

def buildRouteSection (w : World) (ctx : BuildContext) (profile : RouteProfile) (deps : RoutingDeps) (l3Bridge : Bool) :
    Except String RouteSection :=
  if profile.isRaw && profile.rawRoute.isEmptyObject then .error "Raw routing profile is not a valid JSON object"
  else
    let raw := translateRawOutbounds profile.rawRoute deps.outboundMap
    let rawRules := (raw.value "rules").toArray.map rawRuleObject
    if profile.verbatim then
      .ok
        { rules := rawRules ++ ctx.vpnAuxTags.map gateRule
          final := if raw.contains "final" then some (raw.value "final").toStr else none
          defaultDomainResolver := none }
    else if bridgeIngressMismatch ctx then .error "xray to sing-box bridges count does not match ingress tags count"
    else
      let own :=
        if profile.isRaw then rawRules
        else profile.getRouteRules w.ruleSetName w.settings.adblockEnable deps.outboundMap
      let profileRules := if l3Bridge then withL3BridgeTwins own else own
      let final := finalTag w profile raw
      .ok
        { rules := leadingRules w ctx profile ++ profileRules ++ trailingRules ctx profile profileRules l3Bridge final
          final := some final
          defaultDomainResolver :=
            if profile.isRaw && raw.contains "default_domain_resolver" then none else some dnsDirect }

/-! ## Xray -/

def xrayInbounds (ctx : BuildContext) : List (Tag × Bridge) :=
  (ctx.xrayIngressTags.zip ctx.singToXrayBridges).map (fun pair => (xrayInboundTag pair.1, pair.2))

def xrayRules (ctx : BuildContext) : List (Tag × Tag) := ctx.xrayIngressTags.map (fun tag => (xrayInboundTag tag, tag))

/-- The inbounds of sing-box that take traffic from Xray. -/
def bridgeInbounds (ctx : BuildContext) : List (Tag × Bridge) :=
  (ctx.singIngressTags.zip ctx.xrayToSingBridges).map (fun pair => (bridgeTagFor pair.1, pair.2))

/-! ## The configuration -/

structure BuildResult where
  cores : CoreConfigs
  /-- The tags of the routing outbounds and endpoints. -/
  outboundMap : OutboundMap
  route : RouteSection
  dns : Option DnsSection
  ntpDetour : Option Tag
  /-- Xray runs the configuration of the user. -/
  xrayConfig : Option FullXrayConfig
  drawnPorts : Nat

/-- A custom full config is handed to the core as it is. -/
inductive Built where
  | custom (profile : Profile)
  | built (result : BuildResult)

def l3BridgeEnabled (w : World) (profile : RouteProfile) : Bool :=
  w.hasBridge && w.settings.spmodeVpn && w.settings.vpnL3Bridge && !profile.verbatim

/-- Both cores, once the outbounds are built. -/
def coreConfigs (ctx : BuildContext) (route : RouteSection) : CoreConfigs where
  outbounds := ctx.outbounds
  endpoints := ctx.endpoints
  bridgeInbounds := bridgeInbounds ctx
  rules := route.rules
  fallback := route.final.or (ctx.outbounds.head?.map Outbound.tag)
  xrayOutbounds := ctx.xrayOutbounds
  xrayInbounds := if ctx.xrayOutbounds = [] then [] else xrayInbounds ctx
  xrayRules := if ctx.xrayOutbounds = [] then [] else xrayRules ctx

def buildSingBoxConfig (w : World) (ent : Profile) (routeId : Int) : Except String Built :=
  if ent.type = .custom ∧ ent.isCustomFullConfig = true then .ok (.custom ent)
  else
    match calculatePrerequisites w ent routeId with
    | .error error => .error error
    | .ok (profile, deps) =>
      let l3Bridge := l3BridgeEnabled w profile
      let ctx := buildOutboundsSection w deps l3Bridge { ent := ent }
      if ctx.error ≠ "" then .error ctx.error
      else
        let ownDns := if profile.customDns then profile.dns else none
        match buildRouteSection w ctx profile deps l3Bridge with
        | .error error => .error error
        | .ok route =>
          if ctx.xrayOutbounds ≠ [] ∧ ctx.xrayIngressTags.length ≠ ctx.singToXrayBridges.length then
            .error "xray ingress tags size does not match bridge count!"
          else
            .ok (.built
              { cores := coreConfigs ctx route
                outboundMap := deps.outboundMap
                route := route
                dns := buildDNSSection w ctx profile (ownDns.getD w.settings.dns) ownDns.isSome
                ntpDetour :=
                  if w.settings.enableNtp then
                    some (if w.settings.ntpOutbound == proxy then proxy else direct)
                  else none
                xrayConfig := if ctx.xrayOutbounds = [] then ctx.xrayConfig else none
                drawnPorts := ctx.drawnPorts })

end Waterdisco.Config
