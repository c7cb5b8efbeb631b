import Waterdisco.Config.Sections

/-!
# The configuration of a test

`buildTestConfigImpl` builds one sing-box for a whole batch of profiles, each under a
tag of its own, and one Xray for all their Xray hops.  A profile whose chain fails
halfway is dropped again: `ChainBuildMark` remembers how long the lists were.

No route rules are written, so what comes in through a bridge goes where sing-box
sends traffic without a rule: to the first outbound.
-/

namespace Waterdisco.Config

open Route

/-! ## What is tested -/

structure TestBuildOptions where
  chainPrefix : Tag := Tags.testChainPrefix
  validate : Bool := true
  groupHops : Bool := true

inductive TestCandidate where
  | build
  | xrayFullConfig
  | skip

/-- A hop that nothing can come behind. -/
def isTerminalHop (w : World) (id : Int) : Bool :=
  match w.profile id with
  | none => false
  | some hop => hop.isExtraCore || hop.isXrayFullConfig

def classifyTestCandidate (w : World) (p : Profile) : TestCandidate :=
  if p.isExtraCore then .skip
  else if p.isXrayFullConfig then .xrayFullConfig
  else if p.type = .chain then (if (p.chain.getD []).any (isTerminalHop w) then .skip else .build)
  else if p.type = .tailscale ∨ p.type = .autoselector ∨ p.unsupportedTransport = true then .skip
  else .build

/-- The hops of a profile in a test: its own, wrapped by its group's proxies. -/
def testHopIDs (w : World) (options : TestBuildOptions) (item : Profile) : Option (List Int) :=
  if options.groupHops then
    (w.group item.gid).map (fun group =>
      (if 0 ≤ group.landingProxyId then [group.landingProxyId] else []) ++ unwrapChain w item.id ++
        (if 0 ≤ group.frontProxyId then [group.frontProxyId] else []))
  else some (unwrapChain w item.id)

/-! ## Marks -/

structure ChainBuildMark where
  outbounds : Nat
  endpoints : Nat
  xrayOutbounds : Nat
  xrayIngressTags : Nat
  singIngressTags : Nat
  singToXrayBridges : Nat
  xrayToSingBridges : Nat
  xrayConfig : Option FullXrayConfig
  isXrayNeeded : Bool

def BuildContext.mark (ctx : BuildContext) : ChainBuildMark where
  outbounds := ctx.outbounds.length
  endpoints := ctx.endpoints.length
  xrayOutbounds := ctx.xrayOutbounds.length
  xrayIngressTags := ctx.xrayIngressTags.length
  singIngressTags := ctx.singIngressTags.length
  singToXrayBridges := ctx.singToXrayBridges.length
  xrayToSingBridges := ctx.xrayToSingBridges.length
  xrayConfig := ctx.xrayConfig
  isXrayNeeded := ctx.isXrayNeeded

def ChainBuildMark.rollback (mark : ChainBuildMark) (ctx : BuildContext) : BuildContext :=
  { ctx with
    outbounds := ctx.outbounds.take mark.outbounds
    endpoints := ctx.endpoints.take mark.endpoints
    xrayOutbounds := ctx.xrayOutbounds.take mark.xrayOutbounds
    xrayIngressTags := ctx.xrayIngressTags.take mark.xrayIngressTags
    singIngressTags := ctx.singIngressTags.take mark.singIngressTags
    singToXrayBridges := ctx.singToXrayBridges.take mark.singToXrayBridges
    xrayToSingBridges := ctx.xrayToSingBridges.take mark.xrayToSingBridges
    xrayConfig := mark.xrayConfig
    isXrayNeeded := mark.isXrayNeeded
    error := "" }

/-! ## The batch -/

structure TestBox where
  ctx : BuildContext
  /-- The ports probed for the batch that are still to be given out. -/
  ports : List Int := []
  outboundTags : List Tag := []
  tag2entID : List (Tag × Int) := []
  /-- Custom full configs are tested by themselves. -/
  fullConfigs : List (Int × Profile) := []
  xrayFullConfigs : List FullXrayConfig := []
  /-- The profiles whose latency is set to -1. -/
  failed : List Int := []

namespace TestBox

def fail (box : TestBox) (item : Profile) : TestBox := { box with failed := box.failed ++ [item.id] }

def name (box : TestBox) (tag : Tag) (item : Profile) : TestBox :=
  { box with outboundTags := box.outboundTags ++ [tag], tag2entID := mapInsert box.tag2entID tag item.id }

end TestBox

/-- A validated batch drops a profile that fails to build; else the error ends the build. -/
def skipFailedBuild (options : TestBuildOptions) (box : TestBox) (item : Profile) (ctx : BuildContext) :
    Except String TestBox :=
  if options.validate then .ok ({ box with ctx := box.ctx.mark.rollback ctx }.fail item) else .error ctx.error

def fullConfigRequest (item : Profile) : ChainBuildRequest where
  hopIDs := [item.id]
  chain := hopTag Tags.testXrayFullPrefix item.id

/-- A custom Xray full config gets an Xray of its own and shares the sing-box. -/
def testXrayFullConfig (w : World) (options : TestBuildOptions) (box : TestBox) (item : Profile) :
    Except String TestBox :=
  if options.validate && !w.isValid item.id then .ok (box.fail item)
  else
    let ctx := buildOutboundChain w (fullConfigRequest item) box.ctx
    if ctx.error ≠ "" then skipFailedBuild options box item ctx
    else
      match ctx.isXrayNeeded, ctx.xrayConfig with
      | true, some config =>
        .ok
          ({ box with
              ctx := { ctx with xrayConfig := none, isXrayNeeded := false }
              xrayFullConfigs := box.xrayFullConfigs ++ [config] }.name (fullConfigRequest item).ingressTag item)
      | _, _ => .ok ({ box with ctx := ctx }.fail item)

def testRequest (options : TestBuildOptions) (item : Profile) (hopIDs : List Int) (singToXrayPort xrayToSingPort : Int) :
    ChainBuildRequest where
  hopIDs := hopIDs
  chain := hopTag options.chainPrefix item.id
  singToXrayPort := singToXrayPort
  xrayToSingPort := xrayToSingPort

/-- A chain takes two of the batch's ports, an Xray profile one. -/
def takeTestPorts (item : Profile) (ports : List Int) : Int × Int × List Int :=
  let isChain := decide (item.type = .chain)
  let (own, ports) := takeMemberPort item.isXray ports
  let (singToXrayPort, ports) := takeMemberPort isChain ports
  let (xrayToSingPort, ports) := takeMemberPort isChain ports
  (if isChain then singToXrayPort else own, xrayToSingPort, ports)

def testProfile (w : World) (options : TestBuildOptions) (box : TestBox) (item : Profile) : Except String TestBox :=
  if options.validate && !w.isValid item.id then .ok (box.fail item)
  else if item.type = .custom ∧ item.isCustomFullConfig = true then
    .ok { box with fullConfigs := box.fullConfigs.filter (fun entry => entry.1 ≠ item.id) ++ [(item.id, item)] }
  else
    match testHopIDs w options item with
    | none => .error "Null group on profile, data is corrupted"
    | some hopIDs =>
      let (singToXrayPort, xrayToSingPort, ports) := takeTestPorts item box.ports
      let req := testRequest options item hopIDs singToXrayPort xrayToSingPort
      let ctx := buildOutboundChain w req box.ctx
      let box := { box with ports := ports }
      if ctx.error ≠ "" then skipFailedBuild options box item ctx
      else .ok ({ box with ctx := ctx }.name req.ingressTag item)

def testItem (w : World) (options : TestBuildOptions) (box : TestBox) (item : Profile) : Except String TestBox :=
  match classifyTestCandidate w item with
  | .skip => .ok box
  | .xrayFullConfig => testXrayFullConfig w options box item
  | .build => testProfile w options box item

/-! ## The result -/

structure TestResult where
  cores : CoreConfigs
  outboundTags : List Tag
  tag2entID : List (Tag × Int)
  fullConfigs : List (Int × Profile)
  xrayFullConfigs : List FullXrayConfig
  isXrayNeeded : Bool
  /-- The configuration left in the slot for Xray. -/
  xrayConfig : Option FullXrayConfig
  failed : List Int

/-- A test has no started profile. -/
def noEnt : Profile := { id := -1, gid := -1 }

/-- All chains are taken to change core twice. -/
def testPortCount (items : List Profile) : Nat :=
  items.countP (fun item => item.isXray) + 2 * items.countP (fun item => decide (item.type = .chain))

def startBox (w : World) (items : List Profile) : TestBox where
  ctx := { ent := noEnt, forTest := true, drawnPorts := testPortCount items }
  ports := (List.range (testPortCount items)).map w.port

def testOutbounds (ctx : BuildContext) : List Outbound := ctx.outbounds ++ [{ tag := Tags.direct, source := .direct }]

/-- Both cores of a test.  No route has a rule or a `final`. -/
def testCores (ctx : BuildContext) : CoreConfigs where
  outbounds := testOutbounds ctx
  endpoints := ctx.endpoints
  bridgeInbounds := ctx.xrayToSingBridges.map (fun bridge => (hopTag Tags.bridgePrefix bridge.port, bridge))
  fallback := (testOutbounds ctx).head?.map Outbound.tag
  xrayOutbounds := ctx.xrayOutbounds
  xrayInbounds := if ctx.xrayOutbounds = [] then [] else xrayInbounds ctx
  xrayRules := if ctx.xrayOutbounds = [] then [] else xrayRules ctx

def buildTestConfigImpl (w : World) (items : List Profile) (options : TestBuildOptions) : Except String TestResult :=
  match items.foldlM (testItem w options) (startBox w items) with
  | .error error => .error error
  | .ok box =>
    if box.ctx.xrayOutbounds ≠ [] ∧ box.ctx.xrayIngressTags.length ≠ box.ctx.singToXrayBridges.length then
      .error "xray ingress tags size does not match bridge count!"
    else
      .ok
        { cores := testCores box.ctx
          outboundTags := box.outboundTags
          tag2entID := box.tag2entID
          fullConfigs := box.fullConfigs
          xrayFullConfigs := box.xrayFullConfigs
          isXrayNeeded := box.ctx.isXrayNeeded || decide (box.ctx.xrayOutbounds ≠ [])
          xrayConfig := if box.ctx.xrayOutbounds = [] then box.ctx.xrayConfig else none
          failed := box.failed }

def buildTestConfig (w : World) (items : List Profile) : Except String TestResult := buildTestConfigImpl w items {}

end Waterdisco.Config
