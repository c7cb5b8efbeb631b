import Waterdisco.Config.World

/-!
# Chains of hops

`buildOutboundChain` turns a list of profile ids into outbounds that hand the traffic
on from hop to hop.  Hops of one core are linked by tags (`detour`, `dialerProxy`);
between the cores the traffic goes through a socks server on the loopback.  The hops
of a chain may change from sing-box to Xray and back once.

    sing-box hops, bridge → Xray hops, bridge → sing-box hops
-/

namespace Waterdisco.Config

open Route

/-! ## The hops -/

structure ChainScan where
  ents : List Profile := []
  inXray : Bool := false
  singToXrayTransitioned : Bool := false
  xrayToSingTransitioned : Bool := false
  extraCoreCount : Nat := 0
  extraCoreIdx : Int := -1
  xrayFullConfigCount : Nat := 0
  xrayFullConfigIdx : Int := -1
  xrayHopCount : Nat := 0
  hasCustomFullConfig : Bool := false
  coreTransitions : Nat := 0

def chainScanError (scan : ChainScan) : String :=
  if scan.hasCustomFullConfig then
    "Custom full config profiles cannot be used in a chain; only custom outbound profiles are chainable"
  else if 1 < scan.extraCoreCount then "Only one extra-core profile is allowed in a chain"
  else if 1 < scan.xrayFullConfigCount then "Only one custom Xray full config profile is allowed in a chain"
  else if 0 < scan.extraCoreCount ∧ 0 < scan.xrayFullConfigCount then
    "Extra-core and custom Xray full config profiles cannot be combined in a chain"
  else if 0 < scan.xrayFullConfigCount ∧ 0 < scan.xrayHopCount then
    "Custom Xray full config cannot be combined with other Xray hops in a chain (only one Xray instance is supported at a time)"
  else if scan.extraCoreCount = 1 ∧ 1 < scan.ents.length ∧ scan.extraCoreIdx ≠ scan.ents.length - 1 then
    "Extra-core profiles can only be the final hop in a chain (top of the chain editor)"
  else if scan.xrayFullConfigCount = 1 ∧ 1 < scan.ents.length ∧ scan.xrayFullConfigIdx ≠ scan.ents.length - 1 then
    "Custom Xray full config can only be the final hop in a chain (top of the chain editor)"
  else if 2 < scan.coreTransitions then
    "Too many core transitions, the valid sequence is: (optional sing-box chain)->(optional xray chain)->(optional sing-box chain)"
  else ""

/-- Names the setting that still points at a deleted profile. -/
def missingHopError (w : World) (ent : Profile) (id : Int) : String :=
  if ent.type = .chain ∧ id ∈ ent.chain.getD [] then
    "Chain \"" ++ ent.name ++ "\" has a hop (profile id " ++ toString id ++
      ") that no longer exists, edit the chain to remove it"
  else
    let holds (group : Group) := group.frontProxyId == id || group.landingProxyId == id
    match ((ent.gid :: w.groupIds).filterMap w.group).find? holds with
    | some group =>
      if group.frontProxyId = id then "Group \"" ++ group.name ++ "\" has a front proxy that has been deleted."
      else "Group \"" ++ group.name ++ "\" has a landing proxy that has been deleted."
    | none => "A proxy in the chain can no longer be found."

/-- A change of core between one hop and the next is counted. -/
def ChainScan.cross (scan : ChainScan) (toXray : Bool) : ChainScan :=
  if !scan.inXray && toXray then
    { scan with inXray := true, singToXrayTransitioned := true, coreTransitions := scan.coreTransitions + 1 }
  else if scan.inXray && !toXray then
    { scan with inXray := false, xrayToSingTransitioned := true, coreTransitions := scan.coreTransitions + 1 }
  else { scan with inXray := toXray }

def ChainScan.append (scan : ChainScan) (hop : Profile) : ChainScan :=
  let idx : Int := scan.ents.length
  { scan with
    extraCoreCount := if hop.isExtraCore then scan.extraCoreCount + 1 else scan.extraCoreCount
    extraCoreIdx := if hop.isExtraCore then idx else scan.extraCoreIdx
    xrayFullConfigCount := if hop.isXrayFullConfig then scan.xrayFullConfigCount + 1 else scan.xrayFullConfigCount
    xrayFullConfigIdx := if hop.isXrayFullConfig then idx else scan.xrayFullConfigIdx
    xrayHopCount := if hop.isXray then scan.xrayHopCount + 1 else scan.xrayHopCount
    hasCustomFullConfig := scan.hasCustomFullConfig || hop.isCustomFullConfig
    ents := scan.ents ++ [hop] }

def scanHop (w : World) (ent : Profile) (scan : ChainScan) (id : Int) : Except String ChainScan :=
  if id = warpProfileID then
    let scan := scan.cross false
    .ok { scan with ents := scan.ents ++ [w.settings.warp.profile] }
  else
    match w.profile id with
    | none => .error (missingHopError w ent id)
    | some hop =>
      if hop.type = .chain then .error "Chain in Chain is not allowed"
      else if hop.type = .autoselector then
        .error "An auto selector cannot be used as a hop; it is not a fixed server"
      else .ok ((scan.cross hop.isXray).append hop)

def entIDListtoEntList (w : World) (ent : Profile) (entIDs : List Int) : Except String ChainScan :=
  match entIDs.foldlM (scanHop w ent) {} with
  | .error error => .error error
  | .ok scan => if chainScanError scan = "" then .ok scan else .error (chainScanError scan)

def unwrapChain (w : World) (entID : Int) : List Int :=
  match w.profile entID with
  | none => []
  | some ent => if ent.type = .chain then (ent.chain.getD []).reverse else [entID]

/-! ## Hops of sing-box -/

structure HopChainOptions where
  chain : Tag
  includeProxy : Bool := false
  link : Bool := true
  startSuffix : Nat := 0
  markIngress : Bool := false
  warpWrap : Bool := false
  auxiliary : Bool := false
  addressableTags : List Tag := []

/-- With WARP in front hop 0 is WARP under the tag `proxy`, so hop 1 takes `warp-bypass`. -/
def HopChainOptions.singTag (opts : HopChainOptions) (idx : Nat) : Tag :=
  if opts.warpWrap && idx == 1 then Tags.warpBypass
  else if opts.includeProxy && idx == 0 then Tags.proxy
  else hopTag opts.chain (opts.startSuffix + idx : Nat)

def resolvesHostnamesViaDnsRules : Ent → Bool
  | .profile p => p.isEndpoint || p.socks4
  | .bridge _ => false

def HopChainOptions.singDetour (opts : HopChainOptions) (idx : Nat) (ent : Ent) (next : Option Ent) : Option Tag :=
  if opts.warpWrap && idx == 0 then some Tags.warpBypass
  else if next.isSome && opts.link then some (hopTag opts.chain (opts.startSuffix + idx + 1 : Nat))
  else
    match ent with
    | .profile p => p.detour
    | .bridge _ => none

def HopChainOptions.singResolver (opts : HopChainOptions) (ent : Ent) (next : Option Ent) : Option Tag :=
  let own :=
    match ent with
    | .profile p => if p.realmActive then some Tags.dnsDirect else p.domainResolver
    | .bridge _ => none
  match next with
  | some next =>
    if opts.link && !ent.isEndpoint && own.isNone && resolvesHostnamesViaDnsRules next then some Tags.dnsDirect else own
  | none => own

def HopChainOptions.singOutbound (opts : HopChainOptions) (idx : Nat) (ent : Ent) (next : Option Ent) : Outbound where
  tag := opts.singTag idx
  source := ent.source
  detour := opts.singDetour idx ent next
  domainResolver := opts.singResolver ent next

/-- Without a static config the core fetches the ECH list over DNS first. -/
def BuildContext.collectEchQueryName (ctx : BuildContext) (ent : Ent) : BuildContext :=
  match ent with
  | .bridge _ => ctx
  | .profile p =>
    match p.ech with
    | none => ctx
    | some ⟨name, some resolver⟩ =>
      if ctx.echResolvers.any (fun entry => entry.1 == name) then ctx
      else { ctx with echResolvers := mapInsert ctx.echResolvers name resolver }
    | some ⟨name, none⟩ =>
      if ctx.echQueryNames.contains name then ctx else { ctx with echQueryNames := ctx.echQueryNames ++ [name] }

/-- Only the head hop, WARP's wrapped outbound and the hops asked for get a tag that rules can name. -/
def HopChainOptions.addressable (opts : HopChainOptions) (idx : Nat) : Bool :=
  idx == 0 || (opts.warpWrap && idx == 1) || opts.addressableTags.contains (opts.singTag idx)

def BuildContext.noteVpn (ctx : BuildContext) (opts : HopChainOptions) (idx : Nat) (ent : Ent) : BuildContext :=
  match ent with
  | .bridge _ => ctx
  | .profile p =>
    if opts.addressable idx && p.type.isVpn then
      let tag := opts.singTag idx
      { ctx with
        vpnEndpointTags := if p.tunnelDns = .none then ctx.vpnEndpointTags else mapInsert ctx.vpnEndpointTags tag p.type
        vpnStrictTag :=
          if p.tunnelDns = .strict ∧ (tag = Tags.proxy ∨ tag = Tags.warpBypass) then tag else ctx.vpnStrictTag
        vpnGateTags := if !opts.auxiliary && p.onlyAdvertisedRoutes then ctx.vpnGateTags ++ [tag] else ctx.vpnGateTags }
    else ctx

def BuildContext.noteIngress (ctx : BuildContext) (opts : HopChainOptions) (idx : Nat) : BuildContext :=
  if opts.markIngress && idx == 0 then { ctx with singIngressTags := ctx.singIngressTags ++ [opts.singTag idx] } else ctx

/-- The hops from number `idx` on; the first object that does not build ends the chain. -/
def buildSingboxChain (opts : HopChainOptions) (idx : Nat) (ents : List Ent) (ctx : BuildContext) : BuildContext :=
  match ents with
  | [] => ctx
  | ent :: rest =>
    let ctx := (ctx.noteIngress opts idx).noteVpn opts idx ent
    if ent.buildError = "" then
      buildSingboxChain opts (idx + 1) rest
        ((ctx.collectEchQueryName ent).addOutbound (opts.singOutbound idx ent rest.head?))
    else { ctx with error := ctx.error ++ ent.buildError }

/-! ## Hops of Xray -/

def HopChainOptions.xrayTag (opts : HopChainOptions) (idx : Nat) : Tag :=
  if opts.includeProxy && idx == 0 then Tags.proxy else hopTag opts.chain (opts.startSuffix + idx : Nat)

/-- `more`: another Xray hop or the bridge back to sing-box comes after this one. -/
def HopChainOptions.xrayDialer (opts : HopChainOptions) (idx : Nat) (hop : Profile) (more bridged : Bool) : Option Tag :=
  if more && (opts.link || bridged) then some (hopTag opts.chain (opts.startSuffix + idx + 1 : Nat)) else hop.dialerProxy

def HopChainOptions.xrayOutbound (opts : HopChainOptions) (bridge : Option Bridge) (idx : Nat) (hop : Profile)
    (last : Bool) : XrayOutbound where
  tag := opts.xrayTag idx
  source := .hop hop
  dialerProxy := opts.xrayDialer idx hop (!last || bridge.isSome) bridge.isSome

def BuildContext.noteXrayIngress (ctx : BuildContext) (opts : HopChainOptions) (idx : Nat) : BuildContext :=
  if idx == 0 then { ctx with xrayIngressTags := ctx.xrayIngressTags ++ [opts.xrayTag idx] } else ctx

/-- The hops from number `idx` on and the bridge back to sing-box behind the last. -/
def buildXrayChain (opts : HopChainOptions) (bridge : Option Bridge) (idx : Nat) (hops : List Profile)
    (ctx : BuildContext) : BuildContext :=
  match hops with
  | [] =>
    match bridge with
    | none => ctx
    | some b =>
      { ctx with
        xrayOutbounds :=
          ctx.xrayOutbounds ++ [{ tag := hopTag opts.chain (opts.startSuffix + idx : Nat), source := .bridge b }] }
  | hop :: rest =>
    let ctx := ctx.noteXrayIngress opts idx
    if hop.buildXrayError = "" then
      buildXrayChain opts bridge (idx + 1) rest
        { ctx with xrayOutbounds := ctx.xrayOutbounds ++ [opts.xrayOutbound bridge idx hop rest.isEmpty] }
    else { ctx with error := ctx.error ++ hop.buildXrayError }

/-! ## A chain -/

structure ChainBuildRequest where
  hopIDs : List Int
  chain : Tag
  includeProxy : Bool := false
  link : Bool := true
  startSuffix : Nat := 0
  /-- Ports probed beforehand; -1 lets the chain probe its own. -/
  singToXrayPort : Int := -1
  xrayToSingPort : Int := -1
  xrayFullConfigPort : Int := -1
  soleXrayInbound : Bool := false
  warpWrap : Bool := false
  auxiliary : Bool := false
  addressableTags : List Tag := []

namespace ChainBuildRequest

/-- What `buildOutboundChain` returns. -/
def ingressTag (req : ChainBuildRequest) : Tag :=
  if req.includeProxy then Tags.proxy else hopTag req.chain req.startSuffix

def leadingOpts (req : ChainBuildRequest) : HopChainOptions where
  chain := req.chain
  includeProxy := req.includeProxy
  link := req.link
  startSuffix := req.startSuffix
  warpWrap := req.warpWrap
  auxiliary := req.auxiliary
  addressableTags := req.addressableTags

/-- The sing-box hops behind Xray start where the `leading` ones end. -/
def tailingOpts (req : ChainBuildRequest) (leading : Nat) : HopChainOptions where
  chain := req.chain
  link := req.link
  startSuffix := req.startSuffix + leading
  markIngress := true

end ChainBuildRequest

/-- The hops in front of the first Xray hop, the Xray hops, and the others. -/
structure SplitHops where
  leading : List Profile := []
  xray : List Profile := []
  tailing : List Profile := []

def SplitHops.add (split : SplitHops) (ent : Profile) : SplitHops :=
  if ent.isXray then { split with xray := split.xray ++ [ent] }
  else if split.xray = [] then { split with leading := split.leading ++ [ent] }
  else { split with tailing := split.tailing ++ [ent] }

def splitHops (ents : List Profile) : SplitHops := ents.foldl SplitHops.add {}

/-- A port given beforehand, or the next of two that are probed together.  A given 0 is a
failed probe and is probed again. -/
def bridgePort (w : World) (given : Int) (ports : List Int) (ctx : BuildContext) : Int × List Int × BuildContext :=
  if 0 < given then (given, ports, ctx)
  else
    match ports with
    | port :: rest => (port, rest, ctx)
    | [] => (w.port ctx.drawnPorts, [w.port (ctx.drawnPorts + 1)], { ctx with drawnPorts := ctx.drawnPorts + 2 })

def openBridge (w : World) (given : Int) (failure : String) (ports : List Int) (ctx : BuildContext) :
    Option Bridge × List Int × BuildContext :=
  let (port, ports, ctx) := bridgePort w given ports ctx
  if port ≤ 0 then (none, ports, { ctx with error := failure })
  else (some ⟨port, w.randomString ctx.drawnStrings⟩, ports, { ctx with drawnStrings := ctx.drawnStrings + 1 })

def openSingToXray (w : World) (req : ChainBuildRequest) (needed : Bool) (ctx : BuildContext) :
    Option Bridge × List Int × BuildContext :=
  if !needed then (none, [], ctx)
  else
    match openBridge w req.singToXrayPort "Could not reserve a local port for the sing-box -> Xray bridge" [] ctx with
    | (some bridge, ports, ctx) =>
      (some bridge, ports, { ctx with singToXrayBridges := ctx.singToXrayBridges ++ [bridge] })
    | failed => failed

def openXrayToSing (w : World) (req : ChainBuildRequest) (needed : Bool) (ports : List Int) (ctx : BuildContext) :
    Option Bridge × BuildContext :=
  if !needed then (none, ctx)
  else
    match openBridge w req.xrayToSingPort "Could not reserve a local port for the Xray -> sing-box bridge" ports ctx with
    | (some bridge, _, ctx) => (some bridge, { ctx with xrayToSingBridges := ctx.xrayToSingBridges ++ [bridge] })
    | (none, _, ctx) => (none, ctx)

/-- The port for a whole Xray configuration: given, or one that is probed for it. -/
def fullConfigPort (w : World) (given : Int) (ctx : BuildContext) : Int × BuildContext :=
  if given ≤ 0 then (w.port ctx.drawnPorts, { ctx with drawnPorts := ctx.drawnPorts + 1 }) else (given, ctx)

/-- A last hop that is a whole Xray configuration goes into the slot with a bridge inbound in front. -/
def takeFullConfig (w : World) (req : ChainBuildRequest) (ents : List Profile) (ctx : BuildContext) : BuildContext :=
  match ents.getLast? with
  | none => ctx
  | some last =>
    if !last.isXrayFullConfig then ctx
    else if last.configIsEmpty then { ctx with error := "Custom Xray full config is not valid JSON" }
    else
      let (port, ctx) := fullConfigPort w req.xrayFullConfigPort ctx
      if port ≤ 0 then
        { ctx with error := "Could not reserve a local port for the custom Xray full config bridge" }
      else
        { ctx with
          xrayConfig := some ⟨last, ⟨port, w.randomString ctx.drawnStrings⟩, !(ctx.forTest || req.soleXrayInbound)⟩
          drawnStrings := ctx.drawnStrings + 1
          isXrayNeeded := true }

/-- The three parts, once the bridges are open. -/
def buildHops (req : ChainBuildRequest) (split : SplitHops) (toXray toSing : Option Bridge) (ctx : BuildContext) :
    BuildContext :=
  let initial := split.leading.map Ent.profile ++ toXray.toList.map Ent.bridge
  let ctx := buildSingboxChain req.leadingOpts 0 initial ctx
  let ctx := if split.xray = [] then ctx else buildXrayChain req.leadingOpts toSing 0 split.xray ctx
  buildSingboxChain (req.tailingOpts initial.length) 0 (split.tailing.map Ent.profile) ctx

def buildScanned (w : World) (req : ChainBuildRequest) (scan : ChainScan) (ctx : BuildContext) : BuildContext :=
  let ctx := takeFullConfig w req scan.ents ctx
  if ctx.error ≠ "" then ctx
  else
    let (toXray, ports, ctx) := openSingToXray w req scan.singToXrayTransitioned ctx
    if ctx.error ≠ "" then ctx
    else
      let (toSing, ctx) := openXrayToSing w req scan.xrayToSingTransitioned ports ctx
      if ctx.error ≠ "" then ctx else buildHops req (splitHops scan.ents) toXray toSing ctx

def buildOutboundChain (w : World) (req : ChainBuildRequest) (ctx : BuildContext) : BuildContext :=
  match entIDListtoEntList w ctx.ent req.hopIDs with
  | .error error => { ctx with error := error }
  | .ok scan => if ctx.error ≠ "" then ctx else buildScanned w req scan ctx

end Waterdisco.Config
