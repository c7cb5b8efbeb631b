import Waterdisco.Config.ChainBuilt

/-!
# The outbounds of a started profile

`calculatePrerequisites` hands out the tags: `outboundMap` gives each profile that
rules send to, and each endpoint, the tag of its first hop.  `buildOutboundsSection`
builds the chains under those tags: the started profile behind WARP and its group's
landing proxy and in front of the front proxy, then the chains of the rules
(`route-*`), then the endpoints (`aux-*`).  The two count hops on their own.
-/

namespace Waterdisco.Config

open Route Tags

/-! ## Prerequisites -/

structure AuxEndpointGroup where
  hopIDs : List Int
  innerHopIndexes : List Nat := []
deriving DecidableEq

structure RoutingDeps where
  outboundMap : OutboundMap := []
  routeOutboundGroups : List (List Int) := []
  auxEndpointGroups : List AuxEndpointGroup := []

/-- A profile that cannot stand in a routing profile. -/
def unroutable (p : Profile) : Bool := p.isExtraCore || p.isCustomFullConfig || p.isXrayFullConfig

def groupProxyIDs (w : World) (gid : Int) : List Int :=
  match w.group gid with
  | none => []
  | some group =>
    (if 0 ≤ group.frontProxyId then [group.frontProxyId] else []) ++
      (if 0 ≤ group.landingProxyId then [group.landingProxyId] else [])

/-- The proxies of the groups of a selector's members, each group and each proxy once. -/
def memberGroupProxyIDs (w : World) (memberIDs : List Int) : List Int :=
  ((((memberIDs.filterMap w.profile).map (·.gid)).eraseDups).flatMap (groupProxyIDs w)).eraseDups

/-- What is wrong with a hop of a chain that rules send to; empty when nothing is. -/
def routeHopError (w : World) (hopID : Int) : String :=
  match w.profile hopID with
  | none => "Chain outbound in routing profile contains a missing profile"
  | some hop =>
    if unroutable hop || hop.type == .chain then
      "Chain hops in routing profile cannot use an extra core, a custom full config, or be of type chain"
    else ""

/-- The tag of one outbound of the rules: `suffix` hops were handed out before it. -/
def addRouteOutbound (w : World) (item : Int) (suffix : Nat) (deps : RoutingDeps) : Except String (Nat × RoutingDeps) :=
  match w.profile item with
  | none =>
    .error "The routing profile is referencing outbounds that no longer exist, consider revising your settings"
  | some ent =>
    if unroutable ent then
      .error "Outbounds used in routing profile cannot use an extra core or be a custom full config"
    else
      let tagged (hopIDs : List Int) : Nat × RoutingDeps :=
        (suffix + hopIDs.length,
          { deps with
            outboundMap := (item, hopTag routeChainPrefix suffix) :: deps.outboundMap
            routeOutboundGroups := deps.routeOutboundGroups ++ [hopIDs] })
      if ent.type = .chain then
        let list := ent.chain.getD []
        if list = [] then .error "Chain outbound in routing profile is empty or corrupted"
        else
          match (list.map (routeHopError w)).find? (fun error => !error.isEmpty) with
          | some error => .error error
          -- the hop that is dialed last comes first, as in the main chain
          | none => .ok (tagged list.reverse)
      else .ok (tagged [item])

def addRouteOutbounds (w : World) : List Int → Nat → RoutingDeps → Except String RoutingDeps
  | [], _, deps => .ok deps
  | item :: rest, suffix, deps =>
    if item < 0 then addRouteOutbounds w rest suffix deps
    else
      match addRouteOutbound w item suffix deps with
      | .error error => .error error
      | .ok (suffix, deps) => addRouteOutbounds w rest suffix deps

/-- What is wrong with a hop of an endpoint; empty when nothing is. -/
def endpointHopError (w : World) (used : List Int) (name : String) (hopID : Int) : String :=
  match w.profile hopID with
  | none => name ++ " is listed as a routing profile endpoint but a hop of it no longer exists"
  | some hop =>
    if unroutable hop || hop.type == .chain then
      "Hops of the routing profile endpoint " ++ name ++ " cannot use an extra core, a full config, or be a chain"
    else if hop.isXray then "Hops of the routing profile endpoint " ++ name ++ " cannot run on the Xray core"
    else if used.contains hopID then
      hop.displayTypeAndName ++ " is used as an endpoint of the routing profile and by the started profile at the same time, remove it from one of them"
    else ""

/-- The inner hops of an endpoint that rules may name. -/
def innerHops (w : World) (hopIDs : List Int) : List Nat :=
  (List.range hopIDs.length).filter (fun i =>
    decide (1 ≤ i) && ((hopIDs[i]?.bind w.profile).map (·.type.isVpn)).getD false)

structure AuxState where
  used : List Int
  suffix : Nat := 0
  deps : RoutingDeps

def addEndpoint (w : World) (inner : List Int) (endpointID : Int) (s : AuxState) : Except String AuxState :=
  match w.profile endpointID with
  | none =>
    .error ("The routing profile lists an endpoint profile (id " ++ toString endpointID ++ ") that no longer exists")
  | some ent =>
    let name := ent.displayTypeAndName
    let hopIDs := unwrapChain w endpointID
    match hopIDs with
    | [] => .error (name ++ " is listed as a routing profile endpoint but is empty or corrupted")
    | exit :: _ =>
      match w.profile exit with
      | none => .error (name ++ " is listed as a routing profile endpoint but a hop of it no longer exists")
      | some exitEnt =>
        if !exitEnt.type.isVpn then
          .error (name ++ " is listed as a routing profile endpoint, so its last hop must be an OpenVPN or OpenConnect profile")
        else
          match (hopIDs.map (endpointHopError w s.used name)).find? (fun error => !error.isEmpty) with
          | some error => .error error
          | none =>
            if s.used.contains endpointID then
              .error (name ++ " is listed twice in the endpoints of the routing profile")
            else
              let indexes := if inner.contains endpointID then innerHops w hopIDs else []
              let innerMap := indexes.filterMap (fun i =>
                hopIDs[i]?.map (fun id => (id, hopTag auxEndpointPrefix (s.suffix + i : Nat))))
              .ok
                { used := s.used ++ endpointID :: hopIDs
                  suffix := s.suffix + hopIDs.length
                  deps :=
                    { s.deps with
                      outboundMap :=
                        (endpointID, hopTag auxEndpointPrefix s.suffix) :: (innerMap.reverse ++ s.deps.outboundMap)
                      auxEndpointGroups := s.deps.auxEndpointGroups ++ [⟨hopIDs, indexes⟩] } }

def addEndpoints (w : World) (ent : Profile) (profile : RouteProfile) (deps : RoutingDeps) : Except String RoutingDeps :=
  let proxies := if ent.type = .autoselector then memberGroupProxyIDs w (w.plan ent).build else groupProxyIDs w ent.gid
  let used := deps.routeOutboundGroups.flatten ++ unwrapChain w ent.id ++ proxies
  match profile.endpointProfileIDs.foldlM (fun s id => addEndpoint w profile.innerHopEndpointIDs id s)
    { used := used, deps := deps } with
  | .error error => .error error
  | .ok s => .ok s.deps

/-- The tags that rules can name without a profile. -/
def predefinedMap (w : World) : OutboundMap :=
  [(warpBypassID, if w.settings.enableWarp then warpBypass else proxy), (directID, direct),
    (proxyID, proxy)]

def calculatePrerequisites (w : World) (ent : Profile) (routeId : Int) : Except String (RouteProfile × RoutingDeps) :=
  match w.route routeId with
  | none =>
    .error "Routing profile does not exist, try resetting the route profile in Routing Settings"
  | some profile =>
    if w.settings.enableWarp && w.settings.warp.missing then
      .error "Warp is enabled but its config has not been generated. Please generate the Warp config first in Routing Settings."
    else
      match addRouteOutbounds w profile.getUsedOutbounds 0 { outboundMap := predefinedMap w } with
      | .error error => .error error
      | .ok deps =>
        match addEndpoints w ent profile deps with
        | .error error => .error error
        | .ok deps => .ok (profile, deps)

/-! ## Auto selectors -/

structure MemberBridges where
  singToXray : Bool := false
  xrayToSing : Bool := false
  xrayFullConfig : Bool := false
  inXray : Bool := false

def MemberBridges.count (b : MemberBridges) : Nat := b.singToXray.toNat + b.xrayToSing.toNat + b.xrayFullConfig.toNat

/-- Counted the way `entIDListtoEntList` counts. -/
def bridgesFor (w : World) (hopIDs : List Int) : MemberBridges :=
  hopIDs.foldl
    (fun needed id =>
      match w.profile id with
      | none => needed
      | some hop =>
        { singToXray := needed.singToXray || (hop.isXray && !needed.inXray)
          xrayToSing := needed.xrayToSing || (!hop.isXray && needed.inXray)
          xrayFullConfig := needed.xrayFullConfig || hop.isXrayFullConfig
          inXray := hop.isXray })
    {}

/-- A member's own group wraps it. -/
def memberHops (w : World) (id : Int) (member : Profile) : List Int :=
  match w.group member.gid with
  | none => [id]
  | some group =>
    (if 0 ≤ group.landingProxyId then [group.landingProxyId] else []) ++ id ::
      (if 0 ≤ group.frontProxyId then [group.frontProxyId] else [])

def plannedMembers (w : World) (build : List Int) : List (List Int) :=
  (build.filter w.isValid).filterMap (fun id => (w.profile id).map (memberHops w id))

/-- The next port that was probed for the members, or none to give. -/
def takeMemberPort (needed : Bool) (ports : List Int) : Int × List Int :=
  if needed then (ports.headD 0, ports.tail) else (-1, ports)

def buildMembers (w : World) : List (List Int) → Nat → List Int → List Tag → BuildContext → List Tag × BuildContext
  | [], _, _, tags, ctx => (tags, ctx)
  | hopIDs :: rest, idx, ports, tags, ctx =>
    let bridges := bridgesFor w hopIDs
    let (singToXrayPort, ports) := takeMemberPort bridges.singToXray ports
    let (xrayToSingPort, ports) := takeMemberPort bridges.xrayToSing ports
    let (xrayFullConfigPort, ports) := takeMemberPort bridges.xrayFullConfig ports
    let req : ChainBuildRequest :=
      { hopIDs := hopIDs
        chain := hopTag poolChainPrefix idx
        singToXrayPort := singToXrayPort
        xrayToSingPort := xrayToSingPort
        xrayFullConfigPort := xrayFullConfigPort
        soleXrayInbound := bridges.xrayFullConfig }
    let ctx := buildOutboundChain w req ctx
    if ctx.error ≠ "" then (tags, ctx)
    else if bridges.xrayFullConfig && ctx.xrayConfig.isNone then
      (tags, { ctx with error := "Custom Xray full config member produced no Xray config" })
    else
      -- the slot holds one configuration; it is drained for each member
      let ctx :=
        if bridges.xrayFullConfig then
          { ctx with
            xrayFullConfigs := ctx.xrayFullConfigs ++ ctx.xrayConfig.toList
            xrayConfig := none
            isXrayNeeded := false }
        else ctx
      buildMembers w rest (idx + 1) ports (tags ++ [req.ingressTag]) ctx

def buildAutoSelectorGroup (w : World) (warpWrap : Bool) (ctx : BuildContext) : BuildContext :=
  let plan := w.plan ctx.ent
  if plan.error ≠ "" then { ctx with error := plan.error }
  else
    let planned := plannedMembers w plan.build
    let bridgeCount := (planned.map (fun hopIDs => (bridgesFor w hopIDs).count)).sum
    let ports := (List.range bridgeCount).map (fun i => w.port (ctx.drawnPorts + i))
    let (tags, ctx) := buildMembers w planned 0 ports [] { ctx with drawnPorts := ctx.drawnPorts + bridgeCount }
    if ctx.error ≠ "" then ctx
    else if tags = [] then { ctx with error := "Auto selector produced no usable members" }
    else
      ctx.addOutbound { tag := if warpWrap then warpBypass else proxy, source := .selector tags }

/-- The group already holds `warp-bypass`, so WARP itself comes under `proxy` and points at it. -/
def buildWarpInFrontOfSelector (w : World) (ctx : BuildContext) : BuildContext :=
  let warp := w.settings.warp.profile
  if warp.buildError ≠ "" then { ctx with error := ctx.error ++ warp.buildError }
  else ctx.addOutbound { tag := proxy, source := .hop warp, detour := some warpBypass }

/-! ## The section -/

/-- The hops of a started profile that is no auto selector: WARP, landing, the profile, front. -/
def startHops (w : World) (ent : Profile) (group : Group) : List Int :=
  (if w.settings.enableWarp then [warpProfileID] else []) ++
    ((if 0 ≤ group.landingProxyId then [group.landingProxyId] else []) ++
      (if ent.type = .chain then (ent.chain.getD []).reverse else [ent.id]) ++
      (if 0 ≤ group.frontProxyId then [group.frontProxyId] else []))

def mainRequest (w : World) (ent : Profile) (group : Group) : ChainBuildRequest where
  hopIDs := startHops w ent group
  chain := mainChainPrefix
  includeProxy := true
  warpWrap := w.settings.enableWarp

def routeRequest (hopIDs : List Int) (suffix : Nat) : ChainBuildRequest where
  hopIDs := hopIDs
  chain := routeChainPrefix
  link := decide (1 < hopIDs.length)
  startSuffix := suffix

/-- An error of one chain does not keep the others from being tried. -/
def buildRouteGroups (w : World) : List (List Int) → Nat → BuildContext → BuildContext
  | [], _, ctx => ctx
  | hopIDs :: rest, suffix, ctx =>
    buildRouteGroups w rest (suffix + hopIDs.length) (buildOutboundChain w (routeRequest hopIDs suffix) ctx)

def auxInnerTags (group : AuxEndpointGroup) (suffix : Nat) : List Tag :=
  group.innerHopIndexes.map (fun i => hopTag auxEndpointPrefix (suffix + i : Nat))

def auxRequest (group : AuxEndpointGroup) (suffix : Nat) : ChainBuildRequest where
  hopIDs := group.hopIDs
  chain := auxEndpointPrefix
  link := decide (1 < group.hopIDs.length)
  startSuffix := suffix
  auxiliary := true
  addressableTags := auxInnerTags group suffix

def buildAuxGroups (w : World) : List AuxEndpointGroup → Nat → BuildContext → BuildContext
  | [], _, ctx => ctx
  | group :: rest, suffix, ctx =>
    let req := auxRequest group suffix
    let ctx := buildOutboundChain w req ctx
    if ctx.error ≠ "" then ctx
    else
      buildAuxGroups w rest (suffix + group.hopIDs.length)
        { ctx with vpnAuxTags := ctx.vpnAuxTags ++ req.ingressTag :: auxInnerTags group suffix }

def bridgeIngressMismatch (ctx : BuildContext) : Bool :=
  ctx.xrayToSingBridges.length != ctx.singIngressTags.length

/-- The started profile's own chain, or the selector with its members. -/
def buildMain (w : World) (group : Group) (ctx : BuildContext) : BuildContext :=
  if ctx.ent.type = .autoselector then
    let ctx := buildAutoSelectorGroup w w.settings.enableWarp ctx
    if ctx.error ≠ "" then ctx
    else if w.settings.enableWarp then buildWarpInFrontOfSelector w ctx
    else ctx
  else if ctx.ent.type = .chain ∧ ctx.ent.chain = none then
    { ctx with error := "Ent is nullptr after cast to chain, data is corrupted" }
  else buildOutboundChain w (mainRequest w ctx.ent group) ctx

def buildOutboundsSection (w : World) (deps : RoutingDeps) (l3Bridge : Bool) (ctx : BuildContext) : BuildContext :=
  match w.group ctx.ent.gid with
  | none => { ctx with error := "No group found for ent, data is corrupted" }
  | some group =>
    let stops := ctx.ent.type = .autoselector ∨ ctx.ent.type = .chain ∧ ctx.ent.chain = none
    let ctx := buildMain w group ctx
    -- a selector that fails and a chain without a list end the section at once, a hop that fails does not
    if stops ∧ ctx.error ≠ "" then ctx
    else
      let ctx := buildRouteGroups w deps.routeOutboundGroups 0 ctx
      let ctx := buildAuxGroups w deps.auxEndpointGroups 0 ctx
      if deps.auxEndpointGroups ≠ [] ∧ ctx.error ≠ "" then ctx
      else if bridgeIngressMismatch ctx then
        { ctx with error := "xray to sing-box bridges count does not match ingress tags count" }
      else
        let ctx := ctx.addOutbound { tag := direct, source := .direct }
        if l3Bridge then ctx.addOutbound { tag := l3Direct, source := .l3Bridge } else ctx

end Waterdisco.Config
