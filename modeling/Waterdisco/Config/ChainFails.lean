import Waterdisco.Config.ChainBuilt

/-!
# A chain that does not build

A chain that fails has already added to the lists of the context when it stops.  It only
ever appends (`buildOutboundChain_extends`), whatever the outcome.

Whether it fails does not depend on the lists.  `chainFails` says it of the hops and of
the ports alone: a hop is missing or the hops do not go together, a hop does not build,
a whole Xray configuration is empty, or no port was free for a bridge
(`buildOutboundChain_error`).
-/

namespace Waterdisco.Config

open Route List Int

/-! ## Only ever appending -/

/-- Every list of the second context begins with that of the first. -/
structure Extends (ctx ctx' : BuildContext) : Prop where
  ent : ctx'.ent = ctx.ent
  forTest : ctx'.forTest = ctx.forTest
  outbounds : ctx.outbounds <+: ctx'.outbounds
  endpoints : ctx.endpoints <+: ctx'.endpoints
  xrayOutbounds : ctx.xrayOutbounds <+: ctx'.xrayOutbounds
  xrayIngressTags : ctx.xrayIngressTags <+: ctx'.xrayIngressTags
  singIngressTags : ctx.singIngressTags <+: ctx'.singIngressTags
  singToXrayBridges : ctx.singToXrayBridges <+: ctx'.singToXrayBridges
  xrayToSingBridges : ctx.xrayToSingBridges <+: ctx'.xrayToSingBridges

theorem Extends.refl (ctx : BuildContext) : Extends ctx ctx where
  ent := rfl
  forTest := rfl
  outbounds := prefix_rfl
  endpoints := prefix_rfl
  xrayOutbounds := prefix_rfl
  xrayIngressTags := prefix_rfl
  singIngressTags := prefix_rfl
  singToXrayBridges := prefix_rfl
  xrayToSingBridges := prefix_rfl

theorem Extends.trans {a b c : BuildContext} (hab : Extends a b) (hbc : Extends b c) : Extends a c where
  ent := hbc.ent.trans hab.ent
  forTest := hbc.forTest.trans hab.forTest
  outbounds := hab.outbounds.trans hbc.outbounds
  endpoints := hab.endpoints.trans hbc.endpoints
  xrayOutbounds := hab.xrayOutbounds.trans hbc.xrayOutbounds
  xrayIngressTags := hab.xrayIngressTags.trans hbc.xrayIngressTags
  singIngressTags := hab.singIngressTags.trans hbc.singIngressTags
  singToXrayBridges := hab.singToXrayBridges.trans hbc.singToXrayBridges
  xrayToSingBridges := hab.xrayToSingBridges.trans hbc.xrayToSingBridges

/-- Nothing but the last hop touches the slot for an Xray configuration. -/
structure Grows (ctx ctx' : BuildContext) : Prop extends Extends ctx ctx' where
  xrayConfig : ctx'.xrayConfig = ctx.xrayConfig
  isXrayNeeded : ctx'.isXrayNeeded = ctx.isXrayNeeded

theorem Grows.refl (ctx : BuildContext) : Grows ctx ctx where
  toExtends := Extends.refl ctx
  xrayConfig := rfl
  isXrayNeeded := rfl

open Grows (refl)

theorem Grows.trans {a b c : BuildContext} (hab : Grows a b) (hbc : Grows b c) : Grows a c where
  toExtends := hab.toExtends.trans hbc.toExtends
  xrayConfig := hbc.xrayConfig.trans hab.xrayConfig
  isXrayNeeded := hbc.isXrayNeeded.trans hab.isXrayNeeded

theorem noteHop_grows (ctx : BuildContext) (opts : HopChainOptions) (idx : Nat) (ent : Ent) :
    Grows ctx ((ctx.noteIngress opts idx).noteVpn opts idx ent) := by
  obtain ⟨tags, strict, gates, hvpn, -⟩ := noteVpn_spec (ctx.noteIngress opts idx) opts idx ent
  rw [hvpn, noteIngress_spec]
  exact { refl ctx with singIngressTags := prefix_append _ _ }

theorem addHop_grows (ctx : BuildContext) (ent : Ent) (o : Outbound) :
    Grows ctx ((ctx.collectEchQueryName ent).addOutbound o) := by
  obtain ⟨names, resolvers, hech⟩ := collectEchQueryName_spec ctx ent
  rw [hech, addOutbound_spec]
  exact { refl ctx with
    outbounds := prefix_append _ _
    endpoints := prefix_append _ _ }

variable {ctx : BuildContext} {ents : List Profile} (opts : HopChainOptions)

theorem buildSingboxChain_grows (ents : List Ent) (idx : Nat) (ctx : BuildContext) :
    Grows ctx (buildSingboxChain opts idx ents ctx) := by
  induction ents generalizing idx ctx with
  | nil => exact refl ctx
  | cons ent rest ih =>
    have hnote := noteHop_grows ctx opts idx ent
    rw [buildSingboxChain]
    split
    · exact (hnote.trans (addHop_grows _ ent _)).trans (ih _ _)
    · exact hnote.trans { refl _ with }

theorem buildXrayChain_grows (bridge : Option Bridge) (hops : List Profile) (idx : Nat)
    (ctx : BuildContext) : Grows ctx (buildXrayChain opts bridge idx hops ctx) := by
  induction hops generalizing idx ctx with
  | nil =>
    cases bridge with
    | none => exact refl ctx
    | some b => exact { refl ctx with xrayOutbounds := prefix_append _ _ }
  | cons hop rest ih =>
    have hnote : Grows ctx (ctx.noteXrayIngress opts idx) := by
      rw [noteXrayIngress_spec]
      exact { refl ctx with xrayIngressTags := prefix_append _ _ }
    rw [buildXrayChain]
    split
    · refine (hnote.trans ?_).trans (ih _ _)
      exact { refl _ with xrayOutbounds := prefix_append _ _ }
    · exact hnote.trans { refl _ with }

theorem buildHops_grows (req : ChainBuildRequest) (split : SplitHops) (toXray toSing : Option Bridge)
    (ctx : BuildContext) : Grows ctx (buildHops req split toXray toSing ctx) := by
  unfold buildHops
  dsimp only
  refine Grows.trans ?_ (buildSingboxChain_grows _ _ _ _)
  have hlead := buildSingboxChain_grows req.leadingOpts
    (split.leading.map Ent.profile ++ toXray.toList.map Ent.bridge) 0 ctx
  split
  · exact hlead
  · exact hlead.trans (buildXrayChain_grows _ _ _ _ _)

theorem openBridge_grows (w : World) (given : Int) (failure : String) (ports : List Int) (ctx : BuildContext) :
    Grows ctx (openBridge w given failure ports ctx).2.2 := by
  obtain ⟨n, hn⟩ := bridgePort_spec w given ports ctx
  unfold openBridge
  dsimp only
  rw [hn]
  split
  · exact { refl ctx with }
  · exact { refl ctx with }

theorem openSingToXray_grows (w : World) (req : ChainBuildRequest) (needed : Bool) (ctx : BuildContext) :
    Grows ctx (openSingToXray w req needed ctx).2.2 := by
  have hopen := openBridge_grows w req.singToXrayPort
    "Could not reserve a local port for the sing-box -> Xray bridge" [] ctx
  unfold openSingToXray
  split
  · exact refl ctx
  split
  · rename_i bridge ports ctx' h
    rw [h] at hopen
    exact hopen.trans { refl ctx' with singToXrayBridges := prefix_append _ _ }
  · exact hopen

theorem openXrayToSing_grows (w : World) (req : ChainBuildRequest) (needed : Bool)
    (ports : List Int) (ctx : BuildContext) :
    Grows ctx (openXrayToSing w req needed ports ctx).2 := by
  have hopen := openBridge_grows w req.xrayToSingPort
    "Could not reserve a local port for the Xray -> sing-box bridge" ports ctx
  unfold openXrayToSing
  split
  · exact refl ctx
  split
  · rename_i bridge rest ctx' h
    rw [h] at hopen
    exact hopen.trans { refl ctx' with xrayToSingBridges := prefix_append _ _ }
  rename_i rest ctx' h
  rwa [h] at hopen

theorem fullConfigPort_spec (w : World) (given : Int) (ctx : BuildContext) :
    ∃ n, (fullConfigPort w given ctx).2 = { ctx with drawnPorts := n } := by
  unfold fullConfigPort
  split <;> exact ⟨_, rfl⟩

theorem takeFullConfig_extends (w : World) (req : ChainBuildRequest) (ents : List Profile) (ctx : BuildContext) :
    Extends ctx (takeFullConfig w req ents ctx) := by
  obtain ⟨n, hn⟩ := fullConfigPort_spec w req.xrayFullConfigPort ctx
  unfold takeFullConfig
  split
  · exact Extends.refl ctx
  split
  · exact Extends.refl ctx
  split
  · exact { Extends.refl ctx with }
  dsimp only
  rw [hn]
  split
  · exact { Extends.refl ctx with }
  · exact { Extends.refl ctx with }

theorem buildScanned_grows (w : World) (req : ChainBuildRequest) (scan : ChainScan) (ctx : BuildContext) :
    Grows (takeFullConfig w req scan.ents ctx) (buildScanned w req scan ctx) := by
  unfold buildScanned
  dsimp only
  split
  · exact refl _
  have hto := openSingToXray_grows w req scan.singToXrayTransitioned (takeFullConfig w req scan.ents ctx)
  split
  · exact hto
  have hback := hto.trans (openXrayToSing_grows w req scan.xrayToSingTransitioned
    (openSingToXray w req scan.singToXrayTransitioned (takeFullConfig w req scan.ents ctx)).2.1 _)
  split
  · exact hback
  · exact hback.trans (buildHops_grows _ _ _ _ _)

/-- **A chain only appends**, also when it fails. -/
theorem buildOutboundChain_extends (w : World) (req : ChainBuildRequest) (ctx : BuildContext) :
    Extends ctx (buildOutboundChain w req ctx) := by
  unfold buildOutboundChain
  split
  · exact { Extends.refl ctx with }
  split
  · exact Extends.refl ctx
  · exact (takeFullConfig_extends w req _ ctx).trans (buildScanned_grows w req _ ctx).toExtends

/-! ## The ports of a chain -/

/-- The last hop of a chain, if it is a whole Xray configuration. -/
def fullConfigHop (ents : List Profile) : Option Profile := ents.getLast?.filter Profile.isXrayFullConfig

/-- A port is taken as given, or it is the n-th one that is probed. -/
def World.portOr (w : World) (given : Int) (n : Nat) : Int := if 0 < given then given else w.port n

/-- How many ports a slot probes for itself. -/
def probes (needed : Bool) (given : Int) (count : Nat) : Nat := if needed = true ∧ given ≤ 0 then count else 0

namespace ChainBuildRequest
variable (w : World) (req : ChainBuildRequest) (scan : ChainScan) (n : Nat)

/-- The ports probed before the bridges, of `n` so far. -/
def probedForFull : Nat := n + probes (fullConfigHop scan.ents).isSome req.xrayFullConfigPort 1

/-- The port of each bridge of a chain when `n` have been probed before. -/
def takenPorts : List Int :=
  let m := req.probedForFull scan n
  (if (fullConfigHop scan.ents).isSome then [w.portOr req.xrayFullConfigPort n] else []) ++
    (if scan.singToXrayTransitioned then [w.portOr req.singToXrayPort m] else []) ++
    (if scan.xrayToSingTransitioned then
      [w.portOr req.xrayToSingPort (m + probes scan.singToXrayTransitioned req.singToXrayPort 1)] else [])

end ChainBuildRequest

/-- The core a hop is built for refuses it. -/
def hopFails (hop : Profile) : Bool :=
  if hop.isXray then decide (hop.buildXrayError ≠ "") else decide (hop.buildError ≠ "")

/-- A chain does not build, when `n` ports have been probed before. -/
def chainFails (w : World) (ent : Profile) (req : ChainBuildRequest) (n : Nat) : Bool :=
  match entIDListtoEntList w ent req.hopIDs with
  | .error _ => true
  | .ok scan =>
    (fullConfigHop scan.ents).any Profile.configIsEmpty ||
      (req.takenPorts w scan n).any (fun port => decide (port ≤ 0)) ||
      scan.ents.any hopFails

/-! ## Where a chain stops -/

theorem fullConfigPort_eq (w : World) (given : Int) (ctx : BuildContext) :
    fullConfigPort w given ctx =
      (w.portOr given ctx.drawnPorts, { ctx with drawnPorts := ctx.drawnPorts + probes true given 1 }) := by
  unfold fullConfigPort World.portOr probes
  by_cases h : given ≤ 0
  · simp [h, not_lt.mpr h]
  · simp [h, not_le.mp h]

variable {req : ChainBuildRequest}

theorem takeFullConfig_none {w : World}
    (h : fullConfigHop ents = none) : takeFullConfig w req ents ctx = ctx := by
  unfold takeFullConfig
  split
  · rfl
  rename_i last hlast
  rw [fullConfigHop, hlast, Option.filter_some, ite_eq_right_iff] at h
  have hfull : last.isXrayFullConfig = false := by
    cases hlastFull : last.isXrayFullConfig with
    | false => rfl
    | true => exact absurd (h hlastFull) (by simp)
  simp [hfull]

/-- A whole Xray configuration that is taken sits in the slot, behind its own bridge. -/
theorem takeFullConfig_some {w : World}
    {last : Profile} (h : fullConfigHop ents = some last) :
    takeFullConfig w req ents ctx =
      if last.configIsEmpty then { ctx with error := "Custom Xray full config is not valid JSON" }
      else if w.portOr req.xrayFullConfigPort ctx.drawnPorts ≤ 0 then
        { ctx with
          drawnPorts := ctx.drawnPorts + probes true req.xrayFullConfigPort 1
          error := "Could not reserve a local port for the custom Xray full config bridge" }
      else
        { ctx with
          drawnPorts := ctx.drawnPorts + probes true req.xrayFullConfigPort 1
          xrayConfig := some
            ⟨last, ⟨w.portOr req.xrayFullConfigPort ctx.drawnPorts, w.randomString ctx.drawnStrings⟩,
              !(ctx.forTest || req.soleXrayInbound)⟩
          drawnStrings := ctx.drawnStrings + 1
          isXrayNeeded := true } := by
  obtain ⟨hlast, hfull⟩ : ents.getLast? = some last ∧ last.isXrayFullConfig = true := by
    simpa [fullConfigHop, Option.filter_eq_some_iff] using h
  unfold takeFullConfig
  rw [hlast]
  dsimp only
  rw [fullConfigPort_eq]
  simp [hfull]

/-- What a chain needs from its last hop. -/
def fullConfigReady (w : World) (req : ChainBuildRequest) (ents : List Profile) (n : Nat) : Prop :=
  ∀ last, fullConfigHop ents = some last → last.configIsEmpty = false ∧ 0 < w.portOr req.xrayFullConfigPort n

theorem takeFullConfig_error (w : World) (req : ChainBuildRequest) (ents : List Profile)
    (hctx : ctx.error = "") :
    (takeFullConfig w req ents ctx).error = "" ↔ fullConfigReady w req ents ctx.drawnPorts := by
  unfold fullConfigReady
  cases h : fullConfigHop ents with
  | none => simp [takeFullConfig_none h, hctx]
  | some last =>
    rw [takeFullConfig_some h]
    by_cases hempty : last.configIsEmpty = true
    · simp [hempty]
    by_cases hport : w.portOr req.xrayFullConfigPort ctx.drawnPorts ≤ 0
    · simp [hempty, hport, not_lt.mpr hport]
    · simp [hempty, hport, hctx, not_le.mp hport]

theorem takeFullConfig_drawnPorts {w : World}
    (hready : fullConfigReady w req ents ctx.drawnPorts) :
    (takeFullConfig w req ents ctx).drawnPorts =
      ctx.drawnPorts + probes (fullConfigHop ents).isSome req.xrayFullConfigPort 1 := by
  cases h : fullConfigHop ents with
  | none => simp [takeFullConfig_none h, probes]
  | some last =>
    obtain ⟨hempty, hport⟩ := hready last h
    rw [takeFullConfig_some h]
    simp [hempty, not_le.mpr hport]

/-- The port that the next bridge of a chain would take for itself. -/
def nextPort (w : World) (ports : List Int) (ctx : BuildContext) : Int := ports.headD (w.port ctx.drawnPorts)

theorem bridgePort_port (w : World) (given : Int) (ports : List Int) (ctx : BuildContext) :
    (bridgePort w given ports ctx).1 = if 0 < given then given else nextPort w ports ctx := by
  unfold bridgePort nextPort
  split
  · rfl
  · cases ports <;> rfl

theorem openBridge_error (w : World) (given : Int) {failure : String} (hfailure : failure ≠ "") (ports : List Int)
    (hctx : ctx.error = "") :
    (openBridge w given failure ports ctx).2.2.error = "" ↔
      0 < if 0 < given then given else nextPort w ports ctx := by
  obtain ⟨n, hn⟩ := bridgePort_spec w given ports ctx
  unfold openBridge
  dsimp only
  rw [hn, bridgePort_port]
  generalize (if 0 < given then given else nextPort w ports ctx) = port
  by_cases hport : port ≤ 0
  · simp [hport, hfailure, not_lt.mpr hport]
  · simp [hport, hctx, not_le.mp hport]

theorem openSingToXray_error (w : World) (req : ChainBuildRequest) (needed : Bool)
    (hctx : ctx.error = "") :
    (openSingToXray w req needed ctx).2.2.error = "" ↔
      (needed = true → 0 < w.portOr req.singToXrayPort ctx.drawnPorts) := by
  have hfailure : "Could not reserve a local port for the sing-box -> Xray bridge" ≠ "" := by decide
  have hopen := openBridge_error w req.singToXrayPort hfailure [] hctx
  unfold openSingToXray
  cases needed with
  | false => simp [hctx]
  | true =>
    simp only [Bool.not_true, Bool.false_eq_true, if_false, forall_const]
    refine Iff.trans ?_ hopen
    split
    · rename_i h
      rw [h]
    · exact Iff.rfl

theorem openXrayToSing_error (w : World) (req : ChainBuildRequest) (needed : Bool) (ports : List Int)
    (hctx : ctx.error = "") :
    (openXrayToSing w req needed ports ctx).2.error = "" ↔
      (needed = true → 0 < if 0 < req.xrayToSingPort then req.xrayToSingPort else nextPort w ports ctx) := by
  have hfailure : "Could not reserve a local port for the Xray -> sing-box bridge" ≠ "" := by decide
  have hopen := openBridge_error w req.xrayToSingPort hfailure ports hctx
  unfold openXrayToSing
  cases needed with
  | false => simp [hctx]
  | true =>
    simp only [Bool.not_true, Bool.false_eq_true, if_false, forall_const]
    refine Iff.trans ?_ hopen
    split
    · rename_i h
      rw [h]
    · rename_i h
      rw [h]

/-- Two ports are probed together, so the second bridge has the port behind the one the first took. -/
theorem openSingToXray_next (w : World) (req : ChainBuildRequest) (needed : Bool)
    (h : needed = true → 0 < w.portOr req.singToXrayPort ctx.drawnPorts) :
    nextPort w (openSingToXray w req needed ctx).2.1 (openSingToXray w req needed ctx).2.2 =
      w.port (ctx.drawnPorts + probes needed req.singToXrayPort 1) := by
  cases needed with
  | false => rfl
  | true =>
    have hport := h rfl
    by_cases hgiven : 0 < req.singToXrayPort
    · simp [openSingToXray, openBridge, bridgePort, nextPort, probes, hgiven, not_le.mpr hgiven]
    · rw [World.portOr, if_neg hgiven] at hport
      simp [openSingToXray, openBridge, bridgePort, nextPort, probes, hgiven, not_le.mpr hport, not_lt.mp hgiven]

theorem noteHop_error (ctx : BuildContext) (opts : HopChainOptions) (idx : Nat) (ent : Ent) :
    ((ctx.noteIngress opts idx).noteVpn opts idx ent).error = ctx.error := by
  obtain ⟨tags, strict, gates, hvpn, -⟩ := noteVpn_spec (ctx.noteIngress opts idx) opts idx ent
  rw [hvpn, noteIngress_spec]

theorem addHop_error (ctx : BuildContext) (ent : Ent) (o : Outbound) :
    ((ctx.collectEchQueryName ent).addOutbound o).error = ctx.error := by
  obtain ⟨names, resolvers, hech⟩ := collectEchQueryName_spec ctx ent
  rw [hech, addOutbound_spec]

theorem buildSingboxChain_error (ents : List Ent) (idx : Nat) (ctx : BuildContext) :
    (buildSingboxChain opts idx ents ctx).error = "" ↔ ctx.error = "" ∧ ∀ ent ∈ ents, ent.buildError = "" := by
  induction ents generalizing idx ctx with
  | nil => simp [buildSingboxChain]
  | cons ent rest ih =>
    rw [buildSingboxChain, forall_mem_cons]
    split
    · rename_i hbuild
      rw [ih, addHop_error, noteHop_error]
      simp [hbuild]
    · rename_i hbuild
      simp [hbuild]

theorem buildXrayChain_error (bridge : Option Bridge) (hops : List Profile) (idx : Nat)
    (ctx : BuildContext) :
    (buildXrayChain opts bridge idx hops ctx).error = "" ↔ ctx.error = "" ∧ ∀ hop ∈ hops, hop.buildXrayError = "" := by
  induction hops generalizing idx ctx with
  | nil => cases bridge <;> simp [buildXrayChain]
  | cons hop rest ih =>
    rw [buildXrayChain, noteXrayIngress_spec, forall_mem_cons]
    split
    · rename_i hbuild
      rw [ih]
      simp [hbuild]
    · rename_i hbuild
      simp [hbuild]

theorem mem_splitHops (ents : List Profile) (hop : Profile) :
    (hop ∈ (splitHops ents).leading ∨ hop ∈ (splitHops ents).tailing ↔ hop ∈ ents ∧ hop.isXray = false) ∧
      (hop ∈ (splitHops ents).xray ↔ hop ∈ ents ∧ hop.isXray = true) := by
  induction ents using reverseRecOn with
  | nil => simp [splitHops]
  | append_singleton ents ent ih =>
    rw [splitHops_concat, SplitHops.add]
    split
    · rename_i hxray
      constructor
      · rw [ih.1]
        simp only [mem_append, mem_singleton]
        constructor
        · rintro ⟨hmem, hsing⟩
          exact ⟨.inl hmem, hsing⟩
        · rintro ⟨hmem | rfl, hsing⟩
          · exact ⟨hmem, hsing⟩
          · exact absurd hxray (by simp [hsing])
      · simp only [mem_append, mem_singleton, ih.2]
        constructor
        · rintro (⟨hmem, hx⟩ | rfl)
          · exact ⟨.inl hmem, hx⟩
          · exact ⟨.inr rfl, hxray⟩
        · rintro ⟨hmem | rfl, hx⟩
          · exact .inl ⟨hmem, hx⟩
          · exact .inr rfl
    rename_i hsing
    have hxrays : hop ∈ (splitHops ents).xray ↔ hop ∈ ents ++ [ent] ∧ hop.isXray = true := by
      rw [ih.2, mem_append, mem_singleton]
      constructor
      · rintro ⟨hmem, hx⟩
        exact ⟨.inl hmem, hx⟩
      · rintro ⟨hmem | rfl, hx⟩
        · exact ⟨hmem, hx⟩
        · exact absurd hx hsing
    have hsings : (hop ∈ (splitHops ents).leading ∨ hop ∈ (splitHops ents).tailing) ∨ hop = ent ↔
        hop ∈ ents ++ [ent] ∧ hop.isXray = false := by
      rw [ih.1, mem_append, mem_singleton]
      constructor
      · rintro (⟨hmem, hs⟩ | rfl)
        · exact ⟨.inl hmem, hs⟩
        · exact ⟨.inr rfl, by simpa using hsing⟩
      · rintro ⟨hmem | rfl, hs⟩
        · exact .inl ⟨hmem, hs⟩
        · exact .inr rfl
    split
    · refine ⟨Iff.trans ?_ hsings, hxrays⟩
      rw [mem_append, mem_singleton]
      exact or_right_comm
    refine ⟨Iff.trans ?_ hsings, hxrays⟩
    rw [mem_append, mem_singleton]
    exact or_assoc.symm

theorem hopFails_eq_false (hop : Profile) :
    hopFails hop = false ↔ (hop.isXray = true → hop.buildXrayError = "") ∧
      (hop.isXray = false → hop.buildError = "") := by
  unfold hopFails
  cases hop.isXray <;> simp

theorem buildHops_error (req : ChainBuildRequest) (ents : List Profile) (toXray toSing : Option Bridge)
    (hctx : ctx.error = "") :
    (buildHops req (splitHops ents) toXray toSing ctx).error = "" ↔ ents.any hopFails = false := by
  have hents : ents.any hopFails = false ↔
      ((∀ hop ∈ (splitHops ents).leading, hop.buildError = "") ∧ ∀ hop ∈ (splitHops ents).xray,
        hop.buildXrayError = "") ∧
        ∀ hop ∈ (splitHops ents).tailing, hop.buildError = "" := by
    rw [any_eq_false]
    constructor
    · intro h
      have hsing (hop : Profile) (hmem : hop ∈ (splitHops ents).leading ∨ hop ∈ (splitHops ents).tailing) :
          hop.buildError = "" := by
        obtain ⟨hmem, hs⟩ := (mem_splitHops ents hop).1.mp hmem
        exact ((hopFails_eq_false hop).mp (by simpa using h hop hmem)).2 hs
      refine ⟨⟨fun hop hmem => hsing hop (.inl hmem), fun hop hmem => ?_⟩, fun hop hmem => hsing hop (.inr hmem)⟩
      obtain ⟨hmem, hx⟩ := (mem_splitHops ents hop).2.mp hmem
      exact ((hopFails_eq_false hop).mp (by simpa using h hop hmem)).1 hx
    · rintro ⟨⟨hlead, hxray⟩, htail⟩ hop hmem
      have hok : hopFails hop = false := by
        refine (hopFails_eq_false hop).mpr ⟨fun hx => ?_, fun hs => ?_⟩
        · exact hxray hop ((mem_splitHops ents hop).2.mpr ⟨hmem, hx⟩)
        · rcases (mem_splitHops ents hop).1.mpr ⟨hmem, hs⟩ with h | h
          · exact hlead hop h
          · exact htail hop h
      simp [hok]
  have hinitial : (∀ ent ∈ (splitHops ents).leading.map Ent.profile ++ toXray.toList.map Ent.bridge,
    ent.buildError = "") ↔
      ∀ hop ∈ (splitHops ents).leading, hop.buildError = "" := by
    rw [forall_mem_append, forall_mem_map, forall_mem_map]
    simp [Ent.buildError]
  have htailing : (∀ ent ∈ (splitHops ents).tailing.map Ent.profile, ent.buildError = "") ↔
      ∀ hop ∈ (splitHops ents).tailing, hop.buildError = "" := by
    rw [forall_mem_map]
    exact Iff.rfl
  unfold buildHops
  dsimp only
  rw [hents, buildSingboxChain_error, htailing]
  refine and_congr_left fun _ => ?_
  split
  · rename_i hx
    rw [buildSingboxChain_error, hinitial, hx]
    simp [hctx]
  · rw [buildXrayChain_error, buildSingboxChain_error, hinitial]
    simp [hctx]

theorem takenPorts_free (w : World) (req : ChainBuildRequest) (scan : ChainScan) (n : Nat) :
    (req.takenPorts w scan n).any (fun port => decide (port ≤ 0)) = false ↔
      ((fullConfigHop scan.ents).isSome = true → 0 < w.portOr req.xrayFullConfigPort n) ∧
        (scan.singToXrayTransitioned = true → 0 < w.portOr req.singToXrayPort (req.probedForFull scan n)) ∧
          (scan.xrayToSingTransitioned = true →
            0 < w.portOr req.xrayToSingPort
              (req.probedForFull scan n + probes scan.singToXrayTransitioned req.singToXrayPort 1)) := by
  have hopt (needed : Bool) (port : Int) :
      (if needed then [port] else []).any (fun port => decide (port ≤ 0)) = false ↔ (needed = true → 0 < port) := by
    cases needed <;> simp
  unfold ChainBuildRequest.takenPorts
  dsimp only
  rw [any_append, any_append, Bool.or_eq_false_iff, Bool.or_eq_false_iff, hopt, hopt, hopt, and_assoc]

theorem buildScanned_error (w : World) (req : ChainBuildRequest) (scan : ChainScan)
    (hctx : ctx.error = "") :
    (buildScanned w req scan ctx).error = "" ↔
      ((fullConfigHop scan.ents).any Profile.configIsEmpty ||
        (req.takenPorts w scan ctx.drawnPorts).any (fun port => decide (port ≤ 0)) ||
          scan.ents.any hopFails) = false := by
  rw [Bool.or_eq_false_iff, Bool.or_eq_false_iff, takenPorts_free]
  have hready : (fullConfigHop scan.ents).any Profile.configIsEmpty = false ∧
      ((fullConfigHop scan.ents).isSome = true → 0 < w.portOr req.xrayFullConfigPort ctx.drawnPorts) ↔
      fullConfigReady w req scan.ents ctx.drawnPorts := by
    unfold fullConfigReady
    cases fullConfigHop scan.ents <;> simp
  have hfull := takeFullConfig_error w req scan.ents hctx
  unfold buildScanned
  dsimp only
  split
  · rename_i hne
    refine iff_of_false hne fun h => ?_
    exact hne (hfull.mpr (hready.mp ⟨h.1.1, h.1.2.1⟩))
  rename_i hok
  have hok := not_not.mp hok
  have hisReady := hfull.mp hok
  have hdrawn := takeFullConfig_drawnPorts hisReady
  have hto := openSingToXray_error w req scan.singToXrayTransitioned hok
  rw [hdrawn] at hto
  split
  · rename_i hne
    refine iff_of_false hne fun h => ?_
    exact hne (hto.mpr h.1.2.2.1)
  rename_i hopen
  have hopen := not_not.mp hopen
  have hnext := openSingToXray_next w req scan.singToXrayTransitioned
    (hdrawn ▸ hto.mp hopen : scan.singToXrayTransitioned = true → 0 < w.portOr req.singToXrayPort
      (takeFullConfig w req scan.ents ctx).drawnPorts)
  rw [hdrawn] at hnext
  have hback := openXrayToSing_error w req scan.xrayToSingTransitioned
    (openSingToXray w req scan.singToXrayTransitioned (takeFullConfig w req scan.ents ctx)).2.1 hopen
  rw [hnext] at hback
  split
  · rename_i hne
    refine iff_of_false hne fun h => ?_
    exact hne (hback.mpr h.1.2.2.2)
  rename_i hopened
  have hopened := not_not.mp hopened
  rw [buildHops_error req scan.ents _ _ hopened]
  obtain ⟨hempty, hport⟩ := hready.mpr hisReady
  exact ⟨fun h => ⟨⟨hempty, hport, hto.mp hopen, hback.mp hopened⟩, h⟩, fun h => h.2⟩

/-- **Which chains fail**: nothing but the hops, their own errors and the ports decides it. -/
theorem buildOutboundChain_error (w : World) (req : ChainBuildRequest) (hctx : ctx.error = "") :
    (buildOutboundChain w req ctx).error = "" ↔ chainFails w ctx.ent req ctx.drawnPorts = false := by
  unfold buildOutboundChain chainFails
  cases hscan : entIDListtoEntList w ctx.ent req.hopIDs with
  | error error => simp [entIDListtoEntList_error hscan]
  | ok scan =>
    dsimp only
    rw [if_neg (by simp [hctx]), buildScanned_error w req scan hctx]

/-! ## What a chain that builds leaves in the slot -/

theorem buildOutboundChain_scanned {w : World} {scan : ChainScan}
    (hctx : ctx.error = "") (hscan : entIDListtoEntList w ctx.ent req.hopIDs = .ok scan) :
    buildOutboundChain w req ctx = buildScanned w req scan ctx := by
  unfold buildOutboundChain
  rw [hscan]
  exact if_neg (by simp [hctx])

theorem buildOutboundChain_slot (w : World) (req : ChainBuildRequest) {scan : ChainScan}
    (hctx : ctx.error = "") (hscan : entIDListtoEntList w ctx.ent req.hopIDs = .ok scan)
    (h : (buildOutboundChain w req ctx).error = "") :
    (fullConfigHop scan.ents = none ∧ (buildOutboundChain w req ctx).xrayConfig = ctx.xrayConfig ∧
        (buildOutboundChain w req ctx).isXrayNeeded = ctx.isXrayNeeded) ∨
      ∃ last bridge, fullConfigHop scan.ents = some last ∧
        (buildOutboundChain w req ctx).xrayConfig = some ⟨last, bridge, !(ctx.forTest || req.soleXrayInbound)⟩ ∧
        (buildOutboundChain w req ctx).isXrayNeeded = true := by
  rw [buildOutboundChain_scanned hctx hscan] at h ⊢
  have hgrows := buildScanned_grows w req scan ctx
  rw [hgrows.xrayConfig, hgrows.isXrayNeeded]
  have hready : fullConfigReady w req scan.ents ctx.drawnPorts := by
    refine (takeFullConfig_error w req scan.ents hctx).mp (Decidable.byContradiction fun hne => hne ?_)
    unfold buildScanned at h
    dsimp only at h
    rwa [if_pos hne] at h
  cases hlast : fullConfigHop scan.ents with
  | none => exact .inl ⟨rfl, by rw [takeFullConfig_none hlast], by rw [takeFullConfig_none hlast]⟩
  | some last =>
    obtain ⟨hempty, hport⟩ := hready last hlast
    rw [takeFullConfig_some hlast, if_neg (by simp [hempty]), if_neg (not_le.mpr hport)]
    exact .inr ⟨last, _, rfl, rfl, rfl⟩

end Waterdisco.Config
