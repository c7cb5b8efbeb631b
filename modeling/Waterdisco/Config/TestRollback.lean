import Waterdisco.Config.ChainFails
import Waterdisco.Config.TestConfig

/-!
# Rolling a test back

A batch goes on without the profiles that do not build.  What later profiles and the
final assembly read of the context is `BuildContext.output`; after a failed chain the
mark brings it back (`rollback_output`).  What is not brought back (the VPN endpoints
that were noted, the ECH names, the ports and texts that were drawn) only changes which
ports and texts the others get.

    output (rollback (mark ctx) (chain ctx)) = output ctx

So a batch gives what it gives without the profiles that fail (`buildTestConfig_kept`).
The ports and the credentials of the bridges may differ, and `Alike` says that nothing
else does: the bridges of both are paired in their order, and where the one has a bridge
the other has the bridge it is paired with.
-/

namespace Waterdisco.Config

open Route List Option Prod Forall₂ HopChainOptions ChainBuildRequest Outbound

/-! ## What is brought back -/

/-- What is read of a context when the next profile is built and when the batch is put together. -/
structure BuildOutput where
  ent : Profile
  forTest : Bool
  error : String
  outbounds : List Outbound
  endpoints : List Outbound
  xrayOutbounds : List XrayOutbound
  xrayIngressTags : List Tag
  singIngressTags : List Tag
  singToXrayBridges : List Bridge
  xrayToSingBridges : List Bridge
  xrayConfig : Option FullXrayConfig
  isXrayNeeded : Bool

def BuildContext.output (ctx : BuildContext) : BuildOutput where
  ent := ctx.ent
  forTest := ctx.forTest
  error := ctx.error
  outbounds := ctx.outbounds
  endpoints := ctx.endpoints
  xrayOutbounds := ctx.xrayOutbounds
  xrayIngressTags := ctx.xrayIngressTags
  singIngressTags := ctx.singIngressTags
  singToXrayBridges := ctx.singToXrayBridges
  xrayToSingBridges := ctx.xrayToSingBridges
  xrayConfig := ctx.xrayConfig
  isXrayNeeded := ctx.isXrayNeeded

open BuildContext (output)

variable {ctx ctx' : BuildContext} {req : ChainBuildRequest} {toXray bridge bridge' : Option Bridge}

/-- Wherever a chain stopped, the mark brings everything back that is read later. -/
theorem rollback_output (h : Extends ctx ctx') (hctx : ctx.error = "") :
    (ctx.mark.rollback ctx').output = ctx.output := by
  simp only [output, ChainBuildMark.rollback, BuildContext.mark, BuildOutput.mk.injEq]
  refine ⟨h.ent, h.forTest, hctx.symm, ?_, ?_, ?_, ?_, ?_, ?_, ?_, trivial, trivial⟩
  · exact (prefix_iff_eq_take.mp h.outbounds).symm
  · exact (prefix_iff_eq_take.mp h.endpoints).symm
  · exact (prefix_iff_eq_take.mp h.xrayOutbounds).symm
  · exact (prefix_iff_eq_take.mp h.xrayIngressTags).symm
  · exact (prefix_iff_eq_take.mp h.singIngressTags).symm
  · exact (prefix_iff_eq_take.mp h.singToXrayBridges).symm
  · exact (prefix_iff_eq_take.mp h.xrayToSingBridges).symm

/-! ## Alike but for the bridges -/

section
variable (R : Bridge → Bridge → Prop)

def Ent.Alike : Ent → Ent → Prop
  | .bridge b, .bridge b' => R b b'
  | ent, ent' => ent = ent'

def Source.Alike : Source → Source → Prop
  | .bridge b, .bridge b' => R b b'
  | source, source' => source = source'

structure Outbound.Alike (o o' : Outbound) : Prop where
  tag : o.tag = o'.tag
  source : o.source.Alike R o'.source
  detour : o.detour = o'.detour
  domainResolver : o.domainResolver = o'.domainResolver

structure XrayOutbound.Alike (o o' : XrayOutbound) : Prop where
  tag : o.tag = o'.tag
  source : o.source.Alike R o'.source
  dialerProxy : o.dialerProxy = o'.dialerProxy

end

/-- The bridge in front of a whole Xray configuration is its own. -/
structure FullXrayConfig.Alike (config config' : FullXrayConfig) : Prop where
  profile : config.profile = config'.profile
  keepsInbounds : config.keepsInbounds = config'.keepsInbounds

section
variable {R S : Bridge → Bridge → Prop}

variable (hRS : ∀ b b', R b b' → S b b')

include hRS

theorem Source.Alike.imp {s s' : Source} (h : s.Alike R s') : s.Alike S s' := by
  cases s <;> cases s' <;> first | exact hRS _ _ h | exact h

theorem Outbound.Alike.imp {o o' : Outbound} (h : o.Alike R o') : o.Alike S o' :=
  { h with source := h.source.imp hRS }

theorem XrayOutbound.Alike.imp {o o' : XrayOutbound} (h : o.Alike R o') :
    o.Alike S o' :=
  { h with source := h.source.imp hRS }

omit hRS

theorem Source.Alike.isEndpoint {s s' : Source} (h : s.Alike R s') : s.isEndpoint = s'.isEndpoint := by
  cases s <;> cases s' <;> first | rfl | (cases h <;> rfl)

theorem Ent.Alike.source {ent ent' : Ent} (h : ent.Alike R ent') : ent.source.Alike R ent'.source := by
  cases ent <;> cases ent' <;> first | exact h | (cases h <;> rfl)

theorem Ent.Alike.resolves {ent ent' : Ent} (h : ent.Alike R ent') :
    resolvesHostnamesViaDnsRules ent = resolvesHostnamesViaDnsRules ent' := by
  cases ent <;> cases ent' <;> first | rfl | (cases h <;> rfl)

theorem Ent.Alike.singOutbound {ent ent' : Ent} (h : ent.Alike R ent') {next next' : Option Ent}
    (hnext : Rel (Ent.Alike R) next next') (opts : HopChainOptions) (idx : Nat) :
    (opts.singOutbound idx ent next).Alike R (opts.singOutbound idx ent' next') := by
  have hsome : next.isSome = next'.isSome := by cases hnext <;> rfl
  refine ⟨rfl, h.source, ?_, ?_⟩
  · simp only [HopChainOptions.singOutbound, HopChainOptions.singDetour, hsome]
    cases ent <;> cases ent' <;> first | rfl | (cases h <;> rfl)
  simp only [HopChainOptions.singOutbound, HopChainOptions.singResolver]
  cases hnext with
  | none => cases ent <;> cases ent' <;> first | rfl | (cases h <;> rfl)
  | some hn =>
    simp only [hn.resolves]
    cases ent <;> cases ent' <;> first | rfl | (cases h <;> rfl)

theorem filter_alike {p : Outbound → Bool} (hp : ∀ o o', o.Alike R o' → p o = p o') {os os' : List Outbound}
    (h : Forall₂ (Alike R) os os') : Forall₂ (Alike R) (os.filter p) (os'.filter p) := by
  induction h with
  | nil => exact nil
  | @cons o o' _ _ ho _ ih =>
    rw [filter_cons, filter_cons, hp o o' ho]
    split
    · exact cons ho ih
    · exact ih

theorem profiles_alike (hops : List Profile) :
    Forall₂ (Ent.Alike R) (hops.map Ent.profile) (hops.map Ent.profile) := by
  induction hops with
  | nil => exact nil
  | cons hop rest ih => exact cons rfl ih

theorem singOutbounds_alike {ents ents' : List Ent} (h : Forall₂ (Ent.Alike R) ents ents') (opts : HopChainOptions)
    (idx : Nat) : Forall₂ (Alike R) (opts.singOutbounds idx ents) (opts.singOutbounds idx ents') := by
  induction h generalizing idx with
  | nil => exact nil
  | cons hent hrest ih =>
    refine cons (hent.singOutbound ?_ opts idx) (ih (idx + 1))
    cases hrest with
    | nil => exact Rel.none
    | cons hnext _ => exact Rel.some hnext

theorem xrayOutbounds_alike {bridge bridge' : Option Bridge} (h : Rel R bridge bridge') (opts : HopChainOptions)
    (hops : List Profile) (idx : Nat) :
    Forall₂ (XrayOutbound.Alike R) (opts.xrayOutbounds bridge idx hops) (opts.xrayOutbounds bridge' idx hops) := by
  have hsome : bridge.isSome = bridge'.isSome := by cases h <;> rfl
  induction hops generalizing idx with
  | nil =>
    cases h with
    | none => exact nil
    | some hb => exact cons ⟨rfl, hb, rfl⟩ nil
  | cons hop rest ih =>
    refine cons ⟨rfl, rfl, ?_⟩ (ih (idx + 1))
    simp only [xrayOutbound, hsome]

end

/-! ## Chains that build in both batches -/

/-- The bridges of two builds in their order: those to Xray and those back to sing-box. -/
def BuildOutput.Paired (o o' : BuildOutput) (b b' : Bridge) : Prop :=
  (b, b') ∈ o.singToXrayBridges.zip o'.singToXrayBridges ∨ (b, b') ∈ o.xrayToSingBridges.zip o'.xrayToSingBridges

structure BuildOutput.Alike (o o' : BuildOutput) : Prop where
  ent : o.ent = o'.ent
  forTest : o.forTest = o'.forTest
  error : o.error = o'.error
  outbounds : Forall₂ (Outbound.Alike (o.Paired o')) o.outbounds o'.outbounds
  endpoints : Forall₂ (Outbound.Alike (o.Paired o')) o.endpoints o'.endpoints
  xrayOutbounds : Forall₂ (XrayOutbound.Alike (o.Paired o')) o.xrayOutbounds o'.xrayOutbounds
  xrayIngressTags : o.xrayIngressTags = o'.xrayIngressTags
  singIngressTags : o.singIngressTags = o'.singIngressTags
  singToXrayBridges : o.singToXrayBridges.length = o'.singToXrayBridges.length
  xrayToSingBridges : o.xrayToSingBridges.length = o'.xrayToSingBridges.length
  xrayConfig : Rel FullXrayConfig.Alike o.xrayConfig o'.xrayConfig
  isXrayNeeded : o.isXrayNeeded = o'.isXrayNeeded

/-- A later build of the same surroundings: other ports are free and other texts are drawn. -/
def World.redrawn (w : World) (port : Nat → Int) (randomString : Nat → String) : World :=
  { w with port := port, randomString := randomString }

def ChainBuildRequest.withPorts (req : ChainBuildRequest) (singToXrayPort xrayToSingPort : Int) : ChainBuildRequest :=
  { req with singToXrayPort := singToXrayPort, xrayToSingPort := xrayToSingPort }

theorem entIDListtoEntList_redrawn (w : World) (port : Nat → Int) (randomString : Nat → String) (ent : Profile)
    (ids : List Int) : entIDListtoEntList (w.redrawn port randomString) ent ids = entIDListtoEntList w ent ids := rfl

variable {w : World}

theorem portOr_pos (hports : ∀ n, 0 < w.port n) (given : Int) (n : Nat) : 0 < w.portOr given n := by
  unfold World.portOr
  split
  · assumption
  · exact hports n

theorem chainFails_redrawn {ent : Profile} {n : Nat}
    (h : chainFails w ent req n = false) {port : Nat → Int} (hports : ∀ n, 0 < port n) (randomString : Nat → String)
    (singToXrayPort xrayToSingPort : Int) (n' : Nat) :
    chainFails (w.redrawn port randomString) ent (req.withPorts singToXrayPort xrayToSingPort) n' = false := by
  have hpos := @portOr_pos (w.redrawn port randomString) hports
  unfold chainFails at h ⊢
  rw [entIDListtoEntList_redrawn]
  dsimp only [withPorts]
  cases hscan : entIDListtoEntList w ent req.hopIDs with
  | error error =>
    rw [hscan] at h
    cases h
  | ok scan =>
    rw [hscan] at h
    rw [Bool.or_eq_false_iff, Bool.or_eq_false_iff] at h ⊢
    refine ⟨⟨h.1.1, ?_⟩, h.2⟩
    rw [takenPorts_free]
    exact ⟨fun _ => hpos _ _, fun _ => hpos _ _, fun _ => hpos _ _⟩

variable {R : Bridge → Bridge → Prop}

theorem initialEnts_alike {toXray' : Option Bridge} (h : Rel R toXray toXray')
    (split : SplitHops) : Forall₂ (Ent.Alike R) (initialEnts split toXray) (initialEnts split toXray') := by
  refine rel_append (profiles_alike split.leading) ?_
  cases h with
  | none => exact nil
  | some hb => exact cons hb nil

theorem toList_alike (h : Rel R bridge bridge') :
    Forall₂ R bridge.toList bridge'.toList := by
  cases h with
  | none => exact nil
  | some hb => exact cons hb nil

/-- What a chain adds, with other bridges in the places of the bridges. -/
structure Part.Alike (R : Bridge → Bridge → Prop) (p p' : Part) : Prop where
  sing : Forall₂ (Outbound.Alike R) p.sing p'.sing
  xray : Forall₂ (XrayOutbound.Alike R) p.xray p'.xray
  xrayIngress : p.xrayIngress = p'.xrayIngress
  singIngress : p.singIngress = p'.singIngress
  toXray : Forall₂ R p.toXray p'.toXray
  toSing : Forall₂ R p.toSing p'.toSing

theorem Part.Alike.append {p p' q q' : Part} (hp : p.Alike R p') (hq : q.Alike R q') :
    (p ++ q).Alike R (p' ++ q') where
  sing := rel_append hp.sing hq.sing
  xray := rel_append hp.xray hq.xray
  xrayIngress := congrArg₂ (· ++ ·) hp.xrayIngress hq.xrayIngress
  singIngress := congrArg₂ (· ++ ·) hp.singIngress hq.singIngress
  toXray := rel_append hp.toXray hq.toXray
  toSing := rel_append hp.toSing hq.toSing

theorem singPart_alike {ents ents' : List Ent} (h : Forall₂ (Ent.Alike R) ents ents')
    (opts : HopChainOptions) : (opts.singPart 0 ents).Alike R (opts.singPart 0 ents') where
  sing := singOutbounds_alike h opts 0
  xray := nil
  xrayIngress := rfl
  singIngress := by cases h <;> rfl
  toXray := nil
  toSing := nil

theorem part_toXray (req : ChainBuildRequest) (split : SplitHops) (toXray toSing : Option Bridge) :
    (req.part split toXray toSing).toXray = toXray.toList := by
  simp only [part, Part.toXray_append, singPart]
  split <;> simp [xrayPart]

theorem part_toSing (req : ChainBuildRequest) (split : SplitHops) (toXray toSing : Option Bridge) :
    (req.part split toXray toSing).toSing = toSing.toList := by
  simp only [part, Part.toSing_append, singPart]
  split <;> simp [xrayPart]

theorem part_alike {toXray' toSing toSing' : Option Bridge}
    (hto : Rel R toXray toXray') (hback : Rel R toSing toSing') (req : ChainBuildRequest)
    (split : SplitHops) : (req.part split toXray toSing).Alike R (req.part split toXray' toSing') := by
  have hinitial := initialEnts_alike hto split
  have hbridges : Part.Alike R { toXray := toXray.toList, toSing := toSing.toList, given := req.given }
      { toXray := toXray'.toList, toSing := toSing'.toList, given := req.given } :=
    { sing := nil
      xray := nil
      xrayIngress := rfl
      singIngress := rfl
      toXray := toList_alike hto
      toSing := toList_alike hback }
  have hxray : Part.Alike R (if split.xray = [] then {} else req.leadingOpts.xrayPart toSing 0 split.xray)
      (if split.xray = [] then {} else req.leadingOpts.xrayPart toSing' 0 split.xray) := by
    split
    · exact ⟨nil, nil, rfl, rfl, nil, nil⟩
    · exact ⟨nil, xrayOutbounds_alike hback _ _ 0, rfl, rfl, nil, nil⟩
  unfold part
  rw [hinitial.length_eq]
  exact hbridges.append ((singPart_alike hinitial _).append (hxray.append (singPart_alike (profiles_alike _) _)))

theorem zip_append_mem {bridges bridges' more more' : List Bridge}
    (h : bridges.length = bridges'.length) (b b' : Bridge) :
    (b, b') ∈ (bridges ++ more).zip (bridges' ++ more') ↔
      (b, b') ∈ bridges.zip bridges' ∨ (b, b') ∈ more.zip more' := by
  rw [zip_append h, mem_append]

theorem rel_of_isSome (h : bridge.isSome = bridge'.isSome) :
    Rel (fun b b' => (b, b') ∈ bridge.toList.zip bridge'.toList) bridge bridge' := by
  cases bridge with
  | none =>
    cases bridge' with
    | none => exact Rel.none
    | some b' => cases h
  | some b =>
    cases bridge' with
    | none => cases h
    | some b' => exact Rel.some (by simp)

theorem optionRel_imp {R S : Bridge → Bridge → Prop} (hRS : ∀ b b', R b b' → S b b')
    (h : Rel R bridge bridge') : Rel S bridge bridge' := by
  cases h with
  | none => exact Rel.none
  | some hb => exact Rel.some (hRS _ _ hb)

theorem entIDListtoEntList_of_builds (hctx : ctx.error = "")
    (hok : (buildOutboundChain w req ctx).error = "") : ∃ scan, entIDListtoEntList w ctx.ent req.hopIDs = .ok scan := by
  have hfails := (buildOutboundChain_error w req hctx).mp hok
  unfold chainFails at hfails
  cases hscan : entIDListtoEntList w ctx.ent req.hopIDs with
  | error error =>
    rw [hscan] at hfails
    cases hfails
  | ok scan => exact ⟨scan, rfl⟩

theorem BuildOutput.Alike.chain
    (h : ctx.output.Alike ctx'.output) (hctx : ctx.error = "") (port : Nat → Int) (randomString : Nat → String)
    (singToXrayPort xrayToSingPort : Int) (hok : (buildOutboundChain w req ctx).error = "")
    (hok' : (buildOutboundChain (w.redrawn port randomString) (req.withPorts singToXrayPort xrayToSingPort) ctx').error = "") :
    (buildOutboundChain w req ctx).output.Alike
      (buildOutboundChain (w.redrawn port randomString) (req.withPorts singToXrayPort xrayToSingPort) ctx').output := by
  obtain ⟨scan, hscan⟩ := entIDListtoEntList_of_builds hctx hok
  have hctx' : ctx'.error = "" := h.error.symm.trans hctx
  have hent : ctx'.ent = ctx.ent := h.ent.symm
  have hscan' : entIDListtoEntList (w.redrawn port randomString) ctx'.ent
      (req.withPorts singToXrayPort xrayToSingPort).hopIDs = .ok scan := by
    rw [entIDListtoEntList_redrawn, hent]
    exact hscan
  have hslot := buildOutboundChain_slot w req hctx hscan hok
  have hslot' := buildOutboundChain_slot _ _ hctx' hscan' hok'
  have hext := buildOutboundChain_extends w req ctx
  have hext' := buildOutboundChain_extends (w.redrawn port randomString) (req.withPorts singToXrayPort xrayToSingPort) ctx'
  rw [buildOutboundChain_scanned hctx hscan] at hok hslot hext ⊢
  rw [buildOutboundChain_scanned hctx' hscan'] at hok' hslot' hext' ⊢
  obtain ⟨toXray, toSing, hto, hback, hadds⟩ := buildScanned_ok w req scan ctx hok
  obtain ⟨toXray', toSing', hto', hback', hadds'⟩ := buildScanned_ok _ _ scan ctx' hok'
  generalize buildScanned w req scan ctx = out at *
  generalize buildScanned (w.redrawn port randomString) (req.withPorts singToXrayPort xrayToSingPort) scan ctx' = out' at *
  have htoXray : out.singToXrayBridges = ctx.singToXrayBridges ++ toXray.toList := by
    rw [hadds.singToXrayBridges, part_toXray]
  have htoXray' : out'.singToXrayBridges = ctx'.singToXrayBridges ++ toXray'.toList := by
    rw [hadds'.singToXrayBridges, part_toXray]
  have htoSing : out.xrayToSingBridges = ctx.xrayToSingBridges ++ toSing.toList := by
    rw [hadds.xrayToSingBridges, part_toSing]
  have htoSing' : out'.xrayToSingBridges = ctx'.xrayToSingBridges ++ toSing'.toList := by
    rw [hadds'.xrayToSingBridges, part_toSing]
  have hpaired (b b' : Bridge) : out.output.Paired out'.output b b' ↔
      ((b, b') ∈ ctx.singToXrayBridges.zip ctx'.singToXrayBridges ∨ (b, b') ∈ toXray.toList.zip toXray'.toList) ∨
        ((b, b') ∈ ctx.xrayToSingBridges.zip ctx'.xrayToSingBridges ∨ (b, b') ∈ toSing.toList.zip toSing'.toList) := by
    simp only [BuildOutput.Paired, output, htoXray, htoXray', htoSing, htoSing']
    exact or_congr (zip_append_mem h.singToXrayBridges b b') (zip_append_mem h.xrayToSingBridges b b')
  have hold (b b' : Bridge) (hb : ctx.output.Paired ctx'.output b b') : out.output.Paired out'.output b b' :=
    (hpaired b b').mpr (hb.imp .inl .inl)
  have hpart := part_alike
    (optionRel_imp (fun b b' hb => (hpaired b b').mpr (.inl (.inr hb))) (rel_of_isSome (hto.trans hto'.symm)))
    (optionRel_imp (fun b b' hb => (hpaired b b').mpr (.inr (.inr hb))) (rel_of_isSome (hback.trans hback'.symm)))
    req (splitHops scan.ents)
  have hconfig : Rel FullXrayConfig.Alike out.xrayConfig out'.xrayConfig ∧ out.isXrayNeeded = out'.isXrayNeeded := by
    rcases hslot with ⟨hnone, hkept, hneeded⟩ | ⟨last, bridge, hlast, htaken, hneeded⟩
    · rcases hslot' with ⟨-, hkept', hneeded'⟩ | ⟨last, bridge, hlast, -, -⟩
      · rw [hkept, hkept', hneeded, hneeded']
        exact ⟨h.xrayConfig, h.isXrayNeeded⟩
      · simp [hnone] at hlast
    · rcases hslot' with ⟨hnone, -, -⟩ | ⟨last', bridge', hlast', htaken', hneeded'⟩
      · simp [hnone] at hlast
      obtain rfl : last = last' := by simpa [hlast] using hlast'
      rw [htaken, htaken', hneeded, hneeded']
      refine ⟨Rel.some ⟨rfl, ?_⟩, rfl⟩
      exact congrArg (fun forTest => !(forTest || req.soleXrayInbound)) h.forTest
  have hendpoint (o o' : Outbound) (ho : o.Alike (out.output.Paired out'.output) o') :
      o.source.isEndpoint = o'.source.isEndpoint := ho.source.isEndpoint
  exact {
    ent := hext.ent.trans (h.ent.trans hext'.ent.symm)
    forTest := hext.forTest.trans (h.forTest.trans hext'.forTest.symm)
    error := hok.trans hok'.symm
    outbounds := by
      simp only [output, hadds.outbounds, hadds'.outbounds]
      exact rel_append (h.outbounds.imp fun _ _ ho => ho.imp hold)
        (filter_alike (fun o o' ho => congrArg not (hendpoint o o' ho)) hpart.sing)
    endpoints := by
      simp only [output, hadds.endpoints, hadds'.endpoints]
      exact rel_append (h.endpoints.imp fun _ _ ho => ho.imp hold) (filter_alike hendpoint hpart.sing)
    xrayOutbounds := by
      simp only [output, hadds.xrayOutbounds, hadds'.xrayOutbounds]
      exact rel_append (h.xrayOutbounds.imp fun _ _ ho => ho.imp hold) hpart.xray
    xrayIngressTags := by
      simp only [output, hadds.xrayIngressTags, hadds'.xrayIngressTags]
      exact congrArg₂ (· ++ ·) h.xrayIngressTags hpart.xrayIngress
    singIngressTags := by
      simp only [output, hadds.singIngressTags, hadds'.singIngressTags]
      exact congrArg₂ (· ++ ·) h.singIngressTags hpart.singIngress
    singToXrayBridges := by
      simp only [output, hadds.singToXrayBridges, hadds'.singToXrayBridges, length_append]
      exact congrArg₂ (· + ·) h.singToXrayBridges hpart.toXray.length_eq
    xrayToSingBridges := by
      simp only [output, hadds.xrayToSingBridges, hadds'.xrayToSingBridges, length_append]
      exact congrArg₂ (· + ·) h.xrayToSingBridges hpart.toSing.length_eq
    xrayConfig := hconfig.1
    isXrayNeeded := hconfig.2 }

/-! ## One profile of the batch -/

theorem part_bridged {scan : ChainScan} (hshaped : Shaped scan)
    (hto : toXray.isSome = scan.singToXrayTransitioned) (req : ChainBuildRequest) (toSing : Option Bridge) :
    let p := req.part (splitHops scan.ents) toXray toSing
    p.xrayIngress.length = p.toXray.length ∧ (p.xray = [] → p.toXray = []) := by
  rw [hshaped.toXray] at hto
  cases hxray : (splitHops scan.ents).xray with
  | nil =>
    rw [hshaped.xray.mp hxray] at hto
    obtain rfl : toXray = none := by simpa using hto
    simp [part, hxray, singPart]
  | cons hop rest =>
    have hpos : 0 < scan.coreTransitions := by
      refine Nat.pos_of_ne_zero fun hzero => ?_
      rw [hshaped.xray.mpr hzero] at hxray
      cases hxray
    obtain ⟨bridge, rfl⟩ := isSome_iff_exists.mp (hto.trans (decide_eq_true hpos))
    simp [part, hxray, singPart, xrayPart, xrayOutbounds]

/-- A bridge to Xray has Xray hops behind it, and one of them takes its traffic. -/
structure BuildOutput.Bridged (o : BuildOutput) : Prop where
  ingress : o.xrayIngressTags.length = o.singToXrayBridges.length
  hops : o.xrayOutbounds = [] → o.singToXrayBridges = []

theorem buildOutboundChain_bridged (h : ctx.output.Bridged)
    (hok : (buildOutboundChain w req ctx).error = "") : (buildOutboundChain w req ctx).output.Bridged := by
  obtain ⟨scan, toXray, toSing, -, hshaped, hto, -, hadds⟩ := buildOutboundChain_ok w req ctx hok
  obtain ⟨hlen, hnone⟩ := part_bridged hshaped hto req toSing
  have hold : ctx.xrayIngressTags.length = ctx.singToXrayBridges.length := h.ingress
  constructor
  · simp only [output, hadds.xrayIngressTags, hadds.singToXrayBridges, length_append, hold, hlen]
  · simp only [output, hadds.xrayOutbounds, hadds.singToXrayBridges, append_eq_nil_iff]
    exact fun ⟨hctx, hpart⟩ => ⟨h.hops hctx, hnone hpart⟩

namespace TestBox

/-- The batch drops a profile: it is not valid or its chain does not build. -/
def fails (w : World) (options : TestBuildOptions) (box : TestBox) (item : Profile) : Bool :=
  match classifyTestCandidate w item with
  | .skip => false
  | .xrayFullConfig =>
    !w.isValid item.id || chainFails w box.ctx.ent (fullConfigRequest item) box.ctx.drawnPorts
  | .build =>
    if w.isValid item.id = false then true
    else if item.type = .custom ∧ item.isCustomFullConfig = true then false
    else
      match testHopIDs w options item with
      | none => false
      | some hopIDs =>
        let (singToXrayPort, xrayToSingPort, _) := takeTestPorts item box.ports
        chainFails w box.ctx.ent (testRequest options item hopIDs singToXrayPort xrayToSingPort) box.ctx.drawnPorts

/-- The batch is as it was before the profile, but for the profile's latency. -/
structure Dropped (box next : TestBox) (item : Profile) : Prop where
  ctx : next.ctx.output = box.ctx.output
  outboundTags : next.outboundTags = box.outboundTags
  tag2entID : next.tag2entID = box.tag2entID
  fullConfigs : next.fullConfigs = box.fullConfigs
  xrayFullConfigs : next.xrayFullConfigs = box.xrayFullConfigs
  failed : next.failed = box.failed ++ [item.id]

theorem dropped_invalid (box : TestBox) (item : Profile) : Dropped box (box.fail item) item :=
  ⟨rfl, rfl, rfl, rfl, rfl, rfl⟩

theorem dropped_failed {options : TestBuildOptions} (hvalidate : options.validate = true)
    {box : TestBox} {item : Profile}
    {ctx : BuildContext} (hext : Extends box.ctx ctx) (hctx : box.ctx.error = "") :
    ∃ next, skipFailedBuild options box item ctx = .ok next ∧ Dropped box next item := by
  unfold skipFailedBuild
  rw [if_pos hvalidate]
  exact ⟨_, rfl, rollback_output hext hctx, rfl, rfl, rfl, rfl, rfl⟩

theorem testItem_fails {options : TestBuildOptions} (hvalidate : options.validate = true) {box : TestBox}
    {item : Profile} (hctx : box.ctx.error = "") (h : box.fails w options item = true) :
    ∃ next, testItem w options box item = .ok next ∧ Dropped box next item := by
  unfold fails at h
  unfold testItem
  cases hkind : classifyTestCandidate w item with
  | skip =>
    rw [hkind] at h
    cases h
  | xrayFullConfig =>
    rw [hkind] at h
    unfold testXrayFullConfig
    cases hvalid : w.isValid item.id with
    | false =>
      rw [if_pos (by simp [hvalidate])]
      exact ⟨_, rfl, dropped_invalid box item⟩
    | true =>
      rw [if_neg (by simp)]
      have hne : (buildOutboundChain w (fullConfigRequest item) box.ctx).error ≠ "" := by
        intro hok
        rw [(buildOutboundChain_error w _ hctx).mp hok, hvalid] at h
        cases h
      rw [if_pos hne]
      exact dropped_failed hvalidate (buildOutboundChain_extends w _ _) hctx
  | build =>
    rw [hkind] at h
    dsimp only at h ⊢
    unfold testProfile
    cases hvalid : w.isValid item.id with
    | false =>
      rw [if_pos (by simp [hvalidate])]
      exact ⟨_, rfl, dropped_invalid box item⟩
    | true =>
      rw [if_neg (by simp [hvalid])] at h
      rw [if_neg (by simp)]
      split at h
      · cases h
      rename_i hcustom
      rw [if_neg hcustom]
      cases hids : testHopIDs w options item with
      | none =>
        rw [hids] at h
        cases h
      | some hopIDs =>
        rw [hids] at h
        dsimp only at h ⊢
        have hne : (buildOutboundChain w (testRequest options item hopIDs (takeTestPorts item box.ports).1
            (takeTestPorts item box.ports).2.1) box.ctx).error ≠ "" := by
          intro hok
          rw [(buildOutboundChain_error w _ hctx).mp hok] at h
          cases h
        rw [if_pos hne]
        obtain ⟨next, hnext, hdropped⟩ := @dropped_failed options hvalidate
          { box with ports := (takeTestPorts item box.ports).2.2 } item _ (buildOutboundChain_extends w _ box.ctx) hctx
        exact ⟨next, hnext, { hdropped with }⟩

end TestBox

/-! ## Both batches, profile by profile -/

/-- Two batches are at the same point, but for the ports and texts they have drawn. -/
structure TestBox.Alike (box box' : TestBox) : Prop where
  ctx : box.ctx.output.Alike box'.ctx.output
  bridged : box.ctx.output.Bridged
  error : box.ctx.output.error = ""
  outboundTags : box.outboundTags = box'.outboundTags
  tag2entID : box.tag2entID = box'.tag2entID
  fullConfigs : box.fullConfigs = box'.fullConfigs
  xrayFullConfigs : Forall₂ FullXrayConfig.Alike box.xrayFullConfigs box'.xrayFullConfigs

variable {item : Profile}

theorem TestBox.Alike.dropped {box box' next : TestBox} (h : box.Alike box') (hd : box.Dropped next item) :
    next.Alike box' where
  ctx := hd.ctx ▸ h.ctx
  bridged := hd.ctx ▸ h.bridged
  error := hd.ctx ▸ h.error
  outboundTags := hd.outboundTags.trans h.outboundTags
  tag2entID := hd.tag2entID.trans h.tag2entID
  fullConfigs := hd.fullConfigs.trans h.fullConfigs
  xrayFullConfigs := hd.xrayFullConfigs ▸ h.xrayFullConfigs

/-- The full configs of a batch are what their ids stand for. -/
def OwnFullConfigs (w : World) (items : List Profile) : Prop :=
  ∀ item ∈ items, item.isXrayFullConfig = true → ∀ hop, w.hop item.id = some hop → hop.isXrayFullConfig = true

theorem fullConfig_taken
    (hown : ∀ hop, w.hop item.id = some hop → hop.isXrayFullConfig = true) (hctx : ctx.error = "")
    (hok : (buildOutboundChain w (fullConfigRequest item) ctx).error = "") :
    ∃ config, (buildOutboundChain w (fullConfigRequest item) ctx).xrayConfig = some config ∧
      (buildOutboundChain w (fullConfigRequest item) ctx).isXrayNeeded = true := by
  obtain ⟨scan, hscan⟩ := entIDListtoEntList_of_builds hctx hok
  have hhops : scan.ents.map some = [w.hop item.id] := (entIDListtoEntList_ok hscan).1.hops
  obtain ⟨hop, hents, hhop⟩ := map_eq_singleton_iff.mp hhops
  have hlast : fullConfigHop scan.ents = some hop := by
    simp [fullConfigHop, hents, hown hop hhop.symm]
  rcases buildOutboundChain_slot w _ hctx hscan hok with ⟨hnone, -, -⟩ | ⟨last, bridge, -, htaken, hneeded⟩
  · simp [hlast] at hnone
  · exact ⟨_, htaken, hneeded⟩

theorem xrayFullConfig_of_candidate (h : classifyTestCandidate w item = .xrayFullConfig) :
    item.isXrayFullConfig = true := by
  unfold classifyTestCandidate at h
  split at h
  · cases h
  split at h
  · assumption
  split at h
  · split at h <;> cases h
  · split at h <;> cases h

section
variable {w : World} {port : Nat → Int} (hports : ∀ n, 0 < port n) (randomString : Nat → String)
  {options : TestBuildOptions} {box box' : TestBox} {item : Profile}
include hports

/-- A profile that is to be built is in no group, which ends the build of the whole batch. -/
def Groupless (w : World) (item : Profile) : Prop :=
  classifyTestCandidate w item = .build ∧ w.isValid item.id = true ∧
    ¬(item.type = .custom ∧ item.isCustomFullConfig = true) ∧ w.group item.gid = none

def nullGroup {α : Type} : Except String α := .error "Null group on profile, data is corrupted"

/-- Both batches go on, or both end at a profile without group. -/
def BothGoOn (w : World) (item : Profile) (box box' : TestBox) (next next' : Except String TestBox) : Prop :=
  (Groupless w item ∧ next = nullGroup ∧ next' = nullGroup) ∨
    ∃ after after', next = .ok after ∧ next' = .ok after' ∧ after.Alike after' ∧
      after.failed = box.failed ∧ after'.failed = box'.failed

variable (h : box.Alike box')

include h

theorem TestBox.Alike.chain {req : ChainBuildRequest} (singToXrayPort xrayToSingPort : Int)
    (hok : chainFails w box.ctx.ent req box.ctx.drawnPorts = false) :
    let out := buildOutboundChain w req box.ctx
    let out' := buildOutboundChain (w.redrawn port randomString) (req.withPorts singToXrayPort xrayToSingPort) box'.ctx
    out.error = "" ∧ out'.error = "" ∧ out.output.Alike out'.output ∧ out.output.Bridged := by
  have hctx : box.ctx.error = "" := h.error
  have hctx' : box'.ctx.error = "" := h.ctx.error.symm.trans hctx
  have hent : box'.ctx.ent = box.ctx.ent := h.ctx.ent.symm
  have herror := (buildOutboundChain_error w req hctx).mpr hok
  have herror' := (buildOutboundChain_error (w.redrawn port randomString)
    (req.withPorts singToXrayPort xrayToSingPort) hctx').mpr (by
      rw [hent]
      exact chainFails_redrawn hok hports randomString _ _ _)
  exact ⟨herror, herror', h.ctx.chain hctx port randomString _ _ herror herror',
    buildOutboundChain_bridged h.bridged herror⟩

theorem testXrayFullConfig_kept
    (hown : ∀ hop, w.hop item.id = some hop → hop.isXrayFullConfig = true) (hvalid : w.isValid item.id = true)
    (hok : chainFails w box.ctx.ent (fullConfigRequest item) box.ctx.drawnPorts = false) :
    BothGoOn w item box box' (testXrayFullConfig w options box item)
      (testXrayFullConfig (w.redrawn port randomString) options box' item) := by
  obtain ⟨herror, herror', halike, hbridged⟩ := h.chain hports randomString (-1) (-1) hok
  have hvalid' : (w.redrawn port randomString).isValid item.id = true := hvalid
  have hreq : (fullConfigRequest item).withPorts (-1) (-1) = fullConfigRequest item := rfl
  rw [hreq] at herror' halike
  obtain ⟨config, hconfig, hneeded⟩ := fullConfig_taken hown h.error herror
  unfold testXrayFullConfig
  rw [if_neg (by simp [hvalid]), if_neg (by simp [herror]), if_neg (by simp [hvalid']), if_neg (by simp [herror'])]
  generalize buildOutboundChain w (fullConfigRequest item) box.ctx = out at *
  generalize buildOutboundChain (w.redrawn port randomString) (fullConfigRequest item) box'.ctx = out' at *
  have hneeded' : out'.isXrayNeeded = true := halike.isXrayNeeded.symm.trans hneeded
  obtain ⟨config', hconfig', hconfigs⟩ : ∃ config', out'.xrayConfig = some config' ∧ config.Alike config' := by
    have hrel : Rel FullXrayConfig.Alike out.xrayConfig out'.xrayConfig := halike.xrayConfig
    rw [hconfig] at hrel
    generalize out'.xrayConfig = slot at hrel
    cases hrel with
    | some hc => exact ⟨_, rfl, hc⟩
  rw [hconfig, hneeded, hconfig', hneeded']
  refine .inr ⟨_, _, rfl, rfl, ?_, rfl, rfl⟩
  exact {
    ctx := { halike with
      xrayConfig := Rel.none
      isXrayNeeded := rfl }
    bridged := ⟨hbridged.ingress, hbridged.hops⟩
    error := herror
    outboundTags := congrArg (· ++ _) h.outboundTags
    tag2entID := congrArg (mapInsert · _ _) h.tag2entID
    fullConfigs := h.fullConfigs
    xrayFullConfigs := rel_append h.xrayFullConfigs (cons hconfigs nil) }

theorem testProfile_kept (hkind : classifyTestCandidate w item = .build)
    (hvalid : w.isValid item.id = true)
    (hok : ∀ hopIDs, ¬(item.type = .custom ∧ item.isCustomFullConfig = true) → testHopIDs w options item = some hopIDs →
      chainFails w box.ctx.ent (testRequest options item hopIDs (takeTestPorts item box.ports).1
        (takeTestPorts item box.ports).2.1) box.ctx.drawnPorts = false) :
    BothGoOn w item box box' (testProfile w options box item)
      (testProfile (w.redrawn port randomString) options box' item) := by
  have hvalid' : (w.redrawn port randomString).isValid item.id = true := hvalid
  unfold testProfile
  by_cases hcustom : item.type = .custom ∧ item.isCustomFullConfig = true
  · rw [if_neg (by simp [hvalid]), if_pos hcustom, if_neg (by simp [hvalid']), if_pos hcustom]
    refine .inr ⟨_, _, rfl, rfl, ?_, rfl, rfl⟩
    exact { h with fullConfigs := by simp only [h.fullConfigs] }
  rw [if_neg (by simp [hvalid]), if_neg hcustom, if_neg (by simp [hvalid']), if_neg hcustom]
  have hids' : testHopIDs (w.redrawn port randomString) options item = testHopIDs w options item := rfl
  rw [hids']
  cases hids : testHopIDs w options item with
  | none =>
    have hgroup : w.group item.gid = none := by
      unfold testHopIDs at hids
      split at hids
      · exact map_eq_none_iff.mp hids
      · cases hids
    exact .inl ⟨⟨hkind, hvalid, hcustom, hgroup⟩, rfl, rfl⟩
  | some hopIDs =>
    obtain ⟨herror, herror', halike, hbridged⟩ := h.chain hports randomString
      (takeTestPorts item box'.ports).1 (takeTestPorts item box'.ports).2.1 (hok hopIDs hcustom hids)
    have hreq (a b a' b' : Int) :
        (testRequest options item hopIDs a b).withPorts a' b' = testRequest options item hopIDs a' b' := rfl
    rw [hreq] at herror' halike
    dsimp only
    rw [if_neg (by simp [herror]), if_neg (by simp [herror'])]
    refine .inr ⟨_, _, rfl, rfl, ?_, rfl, rfl⟩
    exact {
      ctx := halike
      bridged := hbridged
      error := herror
      outboundTags := congrArg (· ++ _) h.outboundTags
      tag2entID := congrArg (mapInsert · _ _) h.tag2entID
      fullConfigs := h.fullConfigs
      xrayFullConfigs := h.xrayFullConfigs }

theorem testItem_kept (hown : OwnFullConfigs w [item])
    (hkept : box.fails w options item = false) :
    BothGoOn w item box box' (testItem w options box item)
      (testItem (w.redrawn port randomString) options box' item) := by
  have hkind' : classifyTestCandidate (w.redrawn port randomString) item = classifyTestCandidate w item := rfl
  unfold TestBox.fails at hkept
  unfold testItem
  rw [hkind']
  cases hkind : classifyTestCandidate w item with
  | skip => exact .inr ⟨_, _, rfl, rfl, h, rfl, rfl⟩
  | xrayFullConfig =>
    rw [hkind] at hkept
    obtain ⟨hvalid, hok⟩ := Bool.or_eq_false_iff.mp hkept
    refine testXrayFullConfig_kept hports randomString h ?_ (by simpa using hvalid) hok
    exact hown item (mem_singleton_self item) (xrayFullConfig_of_candidate hkind)
  | build =>
    rw [hkind] at hkept
    dsimp only at hkept
    split at hkept
    · cases hkept
    rename_i hvalid
    refine testProfile_kept hports randomString h hkind (by simpa using hvalid) fun hopIDs hcustom hids => ?_
    rwa [if_neg hcustom, hids] at hkept

end

/-! ## The whole batch -/

def verdicts (w : World) (options : TestBuildOptions) : TestBox → List Profile → List (Profile × Bool)
  | _, [] => []
  | box, item :: rest =>
    (item, box.fails w options item) ::
      match testItem w options box item with
      | .ok next => verdicts w options next rest
      | .error _ => rest.map (fun item => (item, false))

/-- The profiles that a validated batch drops. -/
def failing (w : World) (items : List Profile) : List Profile :=
  ((verdicts w {} (startBox w items) items).filter (fun entry => entry.2)).map fst

/-- The batch with the failing profiles removed. -/
def kept (w : World) (items : List Profile) : List Profile :=
  ((verdicts w {} (startBox w items) items).filter (fun entry => !entry.2)).map fst

section
variable {w : World} {port : Nat → Int} (hports : ∀ n, 0 < port n) (randomString : Nat → String)
include hports

/-- The whole batch and the batch without the failing profiles, from two points that are alike. -/
theorem foldlM_kept {options : TestBuildOptions} (hvalidate : options.validate = true) {items : List Profile}
    {box box' : TestBox} (h : box.Alike box') (hown : OwnFullConfigs w items) :
    let entries := verdicts w options box items
    let next := items.foldlM (testItem w options) box
    let next' := ((entries.filter (fun entry => !entry.2)).map fst).foldlM
      (testItem (w.redrawn port randomString) options) box'
    ((∃ item ∈ items, Groupless w item) ∧ next = nullGroup ∧ next' = nullGroup) ∨
      ∃ after after', next = .ok after ∧ next' = .ok after' ∧ after.Alike after' ∧ after'.failed = box'.failed ∧
        after.failed = box.failed ++ ((entries.filter (fun entry => entry.2)).map fst).map Profile.id := by
  induction items generalizing box box' with
  | nil => exact .inr ⟨box, box', rfl, rfl, h, rfl, by simp [verdicts]⟩
  | cons item rest ih =>
    have hrest : OwnFullConfigs w rest := fun other hmem => hown other (.tail _ hmem)
    have hitem : OwnFullConfigs w [item] := by
      intro other hmem
      rw [mem_singleton.mp hmem]
      exact hown item mem_cons_self
    rw [verdicts, foldlM_cons]
    cases hfails : box.fails w options item with
    | true =>
      obtain ⟨next, hnext, hdropped⟩ := TestBox.testItem_fails hvalidate h.error hfails
      rw [hnext]
      rcases ih (h.dropped hdropped) hrest with
        ⟨⟨other, hmem, hless⟩, herror, herror'⟩ | ⟨after, after', hafter, hafter', halike, hf', hf⟩
      · exact .inl ⟨⟨other, .tail _ hmem, hless⟩, herror, herror'⟩
      refine .inr ⟨after, after', hafter, hafter', halike, hf', ?_⟩
      rw [hf, hdropped.failed]
      simp
    | false =>
      rcases testItem_kept hports randomString h hitem hfails with
        ⟨hless, herror, herror'⟩ | ⟨next, next', hnext, hnext', halike, hf, hf'⟩
      · refine .inl ⟨⟨item, mem_cons_self, hless⟩, ?_, ?_⟩
        · rw [herror]
          rfl
        · rw [herror, filter_cons]
          simp [foldlM_cons, herror']
          rfl
      · rw [hnext]
        rcases ih halike hrest with
          ⟨⟨other, hmem, hless⟩, herror, herror'⟩ | ⟨after, after', hafter, hafter', halike', hg', hg⟩
        · refine .inl ⟨⟨other, .tail _ hmem, hless⟩, herror, ?_⟩
          rw [filter_cons]
          simp [foldlM_cons, hnext']
          exact herror'
        · refine .inr ⟨after, after', hafter, ?_, halike', hg'.trans hf', ?_⟩
          · rw [filter_cons]
            simp [foldlM_cons, hnext']
            exact hafter'
          · rw [hg, hf]
            simp

end

/-! ## The result -/

/-- The bridges of two results in their order: the inbounds of Xray and those of sing-box. -/
def TestResult.Paired (r r' : TestResult) (b b' : Bridge) : Prop :=
  (b, b') ∈ (r.cores.xrayInbounds.map snd).zip (r'.cores.xrayInbounds.map snd) ∨
    (b, b') ∈ (r.cores.bridgeInbounds.map snd).zip (r'.cores.bridgeInbounds.map snd)

/-- Two results are the same up to the ports and credentials of their bridges. -/
structure TestResult.Alike (r r' : TestResult) : Prop where
  outbounds : Forall₂ (Outbound.Alike (r.Paired r')) r.cores.outbounds r'.cores.outbounds
  endpoints : Forall₂ (Outbound.Alike (r.Paired r')) r.cores.endpoints r'.cores.endpoints
  xrayOutbounds : Forall₂ (XrayOutbound.Alike (r.Paired r')) r.cores.xrayOutbounds r'.cores.xrayOutbounds
  fallback : r.cores.fallback = r'.cores.fallback
  xrayInbounds : r.cores.xrayInbounds.map fst = r'.cores.xrayInbounds.map fst
  bridgeInbounds : r.cores.bridgeInbounds.length = r'.cores.bridgeInbounds.length
  /-- The inbound of a bridge is named after its own port. -/
  bridgeTags : ∀ inbound ∈ r.cores.bridgeInbounds ++ r'.cores.bridgeInbounds,
    inbound.1 = hopTag Tags.bridgePrefix inbound.2.port
  rules : r.cores.rules = r'.cores.rules
  xrayRules : r.cores.xrayRules = r'.cores.xrayRules
  outboundTags : r.outboundTags = r'.outboundTags
  tag2entID : r.tag2entID = r'.tag2entID
  fullConfigs : r.fullConfigs = r'.fullConfigs
  xrayFullConfigs : Forall₂ FullXrayConfig.Alike r.xrayFullConfigs r'.xrayFullConfigs
  isXrayNeeded : r.isXrayNeeded = r'.isXrayNeeded
  xrayConfig : Rel FullXrayConfig.Alike r.xrayConfig r'.xrayConfig

theorem xrayInbounds_bridges (h : ctx.xrayIngressTags.length = ctx.singToXrayBridges.length) :
    (xrayInbounds ctx).map Prod.snd = ctx.singToXrayBridges := by
  unfold xrayInbounds
  rw [List.map_map]
  exact map_snd_zip h.ge

theorem map_fst_zip_take (tags : List Tag) (bridges : List Bridge) :
    (tags.zip bridges).map fst = tags.take bridges.length := by
  induction tags generalizing bridges with
  | nil => simp
  | cons tag rest ih =>
    cases bridges with
    | nil => rfl
    | cons b bs => simp [ih bs]

theorem xrayInbounds_tags (ctx : BuildContext) :
    (xrayInbounds ctx).map Prod.fst = (ctx.xrayIngressTags.take ctx.singToXrayBridges.length).map xrayInboundTag := by
  unfold xrayInbounds
  rw [← map_fst_zip_take, List.map_map, List.map_map]
  rfl

theorem testCores_bridges (h : ctx.output.Bridged) :
    (testCores ctx).xrayInbounds.map snd = ctx.singToXrayBridges ∧
      (testCores ctx).bridgeInbounds.map snd = ctx.xrayToSingBridges := by
  refine ⟨?_, by simp [testCores, Function.comp_def]⟩
  by_cases hx : ctx.xrayOutbounds = []
  · have hnone : ctx.singToXrayBridges = [] := h.hops hx
    simp [testCores, hx, hnone]
  simp only [testCores, if_neg hx]
  exact xrayInbounds_bridges h.ingress

theorem testOutbounds_alike (h : ctx.output.Alike ctx'.output)
    (hR : ∀ b b', ctx.output.Paired ctx'.output b b' → R b b') :
    Forall₂ (Outbound.Alike R) (testOutbounds ctx) (testOutbounds ctx') := by
  have hdirect : Outbound.Alike R { tag := Tags.direct, source := .direct } { tag := Tags.direct, source := .direct } :=
    { tag := rfl
      source := by rfl
      detour := rfl
      domainResolver := rfl }
  exact rel_append (h.outbounds.imp fun _ _ ho => ho.imp hR) (cons hdirect nil)

theorem head_alike {os os' : List Outbound} (h : Forall₂ (Alike R) os os') :
    os.head?.map tag = os'.head?.map tag := by
  cases h with
  | nil => rfl
  | cons ho _ => exact congrArg some ho.tag

theorem testCores_tags (h : ctx.output.Alike ctx'.output)
    (hx : ctx.xrayOutbounds = [] ↔ ctx'.xrayOutbounds = []) :
    (testCores ctx).xrayInbounds.map fst = (testCores ctx').xrayInbounds.map fst ∧
      (testCores ctx).xrayRules = (testCores ctx').xrayRules := by
  have htags : ctx.xrayIngressTags = ctx'.xrayIngressTags := h.xrayIngressTags
  have hlen : ctx.singToXrayBridges.length = ctx'.singToXrayBridges.length := h.singToXrayBridges
  have hzip : (xrayInbounds ctx).map fst = (xrayInbounds ctx').map fst := by
    rw [xrayInbounds_tags, xrayInbounds_tags, htags, hlen]
  have hrules : xrayRules ctx = xrayRules ctx' := by
    unfold xrayRules
    rw [htags]
  by_cases hnil : ctx.xrayOutbounds = []
  · simp [testCores, hnil, hx.mp hnil]
  · simp only [testCores, if_neg hnil, if_neg (mt hx.mpr hnil)]
    exact ⟨hzip, hrules⟩

theorem buildTestConfig_finish {w w' : World} {items items' : List Profile}
    {options : TestBuildOptions} {box box' : TestBox}
    (h : box.Alike box') (hbox : items.foldlM (testItem w options) (startBox w items) = .ok box)
    (hbox' : items'.foldlM (testItem w' options) (startBox w' items') = .ok box') :
    ∃ r r', buildTestConfigImpl w items options = .ok r ∧ buildTestConfigImpl w' items' options = .ok r' ∧
      r.Alike r' ∧ r.failed = box.failed ∧ r'.failed = box'.failed := by
  have hx : box.ctx.xrayOutbounds = [] ↔ box'.ctx.xrayOutbounds = [] := by
    rw [← length_eq_zero_iff, ← length_eq_zero_iff]
    exact iff_of_eq (congrArg (· = 0) h.ctx.xrayOutbounds.length_eq)
  have hlen : box.ctx.xrayIngressTags.length = box'.ctx.xrayIngressTags.length := congrArg length h.ctx.xrayIngressTags
  have hbridges : box.ctx.singToXrayBridges.length = box'.ctx.singToXrayBridges.length := h.ctx.singToXrayBridges
  have hsize : box.ctx.xrayIngressTags.length = box.ctx.singToXrayBridges.length := h.bridged.ingress
  have hsize' : box'.ctx.xrayIngressTags.length = box'.ctx.singToXrayBridges.length :=
    hlen.symm.trans (hsize.trans hbridges)
  have hbridged' : box'.ctx.output.Bridged := by
    refine ⟨hsize', fun hnil => ?_⟩
    have hnone : box.ctx.singToXrayBridges = [] := h.bridged.hops (hx.mpr hnil)
    rw [hnone] at hbridges
    exact length_eq_zero_iff.mp hbridges.symm
  unfold buildTestConfigImpl
  rw [hbox, hbox']
  dsimp only
  rw [if_neg (mt And.right (not_not.mpr hsize)), if_neg (mt And.right (not_not.mpr hsize'))]
  obtain ⟨hto, hback⟩ := testCores_bridges h.bridged
  obtain ⟨hto', hback'⟩ := testCores_bridges hbridged'
  have hpaired (b b' : Bridge) (hb : box.ctx.output.Paired box'.ctx.output b b') :
      (b, b') ∈ ((testCores box.ctx).xrayInbounds.map snd).zip ((testCores box'.ctx).xrayInbounds.map snd) ∨
        (b, b') ∈ ((testCores box.ctx).bridgeInbounds.map snd).zip
          ((testCores box'.ctx).bridgeInbounds.map snd) := by
    rw [hto, hto', hback, hback']
    exact hb
  obtain ⟨hinbounds, hrules⟩ := testCores_tags h.ctx hx
  refine ⟨_, _, rfl, rfl, ?_, rfl, rfl⟩
  exact {
    outbounds := testOutbounds_alike h.ctx hpaired
    endpoints := h.ctx.endpoints.imp fun _ _ ho => ho.imp hpaired
    xrayOutbounds := h.ctx.xrayOutbounds.imp fun _ _ ho => ho.imp hpaired
    fallback := head_alike (testOutbounds_alike h.ctx hpaired)
    xrayInbounds := hinbounds
    bridgeInbounds := by
      have hlength : box.ctx.xrayToSingBridges.length = box'.ctx.xrayToSingBridges.length := h.ctx.xrayToSingBridges
      simpa [testCores] using hlength
    bridgeTags := by
      intro inbound hmem
      rcases mem_append.mp hmem with hmem | hmem
      · obtain ⟨bridge, -, rfl⟩ := mem_map.mp hmem
        rfl
      · obtain ⟨bridge, -, rfl⟩ := mem_map.mp hmem
        rfl
    rules := rfl
    xrayRules := hrules
    outboundTags := h.outboundTags
    tag2entID := h.tag2entID
    fullConfigs := h.fullConfigs
    xrayFullConfigs := h.xrayFullConfigs
    isXrayNeeded := by
      have hneeded : box.ctx.isXrayNeeded = box'.ctx.isXrayNeeded := h.ctx.isXrayNeeded
      simp only [hneeded, ne_eq, hx]
    xrayConfig := by
      by_cases hnil : box.ctx.xrayOutbounds = []
      · simp only [if_pos hnil, if_pos (hx.mp hnil)]
        exact h.ctx.xrayConfig
      · simp only [if_neg hnil, if_neg (mt hx.mpr hnil)]
        exact Rel.none }

/-- **A failing profile leaves nothing behind**: the batch gives what it gives without the profiles that fail, up
to the ports and the credentials of the bridges, and marks just these profiles.  Only a profile without group, a sign
of corrupted data, ends the build of both. -/
theorem buildTestConfig_kept (w : World) (items : List Profile) (port : Nat → Int) (randomString : Nat → String)
    (hports : ∀ n, 0 < port n) (hown : OwnFullConfigs w items) :
    ((∃ item ∈ items, Groupless w item) ∧ buildTestConfig w items = nullGroup ∧
        buildTestConfig (w.redrawn port randomString) (kept w items) = nullGroup) ∨
      ∃ r r', buildTestConfig w items = .ok r ∧ buildTestConfig (w.redrawn port randomString) (kept w items) = .ok r' ∧
        r.Alike r' ∧ r.failed = (failing w items).map Profile.id ∧ r'.failed = [] := by
  have hstart : (startBox w items).Alike (startBox (w.redrawn port randomString) (kept w items)) :=
    { ctx := ⟨rfl, rfl, rfl, nil, nil, nil, rfl, rfl, rfl, rfl, Rel.none, rfl⟩
      bridged := ⟨rfl, fun _ => rfl⟩
      error := rfl
      outboundTags := rfl
      tag2entID := rfl
      fullConfigs := rfl
      xrayFullConfigs := nil }
  have hvalidate : ({} : TestBuildOptions).validate = true := rfl
  rcases foldlM_kept hports randomString hvalidate hstart hown with
    ⟨hless, herror, herror'⟩ | ⟨box, box', hbox, hbox', halike, hfailed', hfailed⟩
  · refine .inl ⟨hless, ?_, ?_⟩
    · unfold buildTestConfig buildTestConfigImpl
      rw [herror]
      rfl
    · unfold buildTestConfig buildTestConfigImpl
      rw [show (kept w items).foldlM _ _ = _ from herror']
      rfl
  · obtain ⟨r, r', hr, hr', hsame, hf, hf'⟩ := buildTestConfig_finish halike hbox hbox'
    exact .inr ⟨r, r', hr, hr', hsame, hf.trans hfailed, hf'.trans hfailed'⟩

/-! A chain with a hop that Xray refuses, and an Xray profile whose port was not free. -/

def refusedHop : Profile := { id := 3, isXray := true, buildXrayError := "unsupported flow" }
def halfChain : Profile := { id := 2, type := .chain, chain := some [3, 4] }
def bridged : Profile := { id := 1, isXray := true }
def portless : Profile := { id := 5, isXray := true }
def plain : Profile := { id := 6 }
def batch : List Profile := [halfChain, bridged, portless, plain]

def batchWorld : World where
  profile id := (refusedHop :: { id := 4 } :: batch).find? (fun hop => hop.id == id)
  group _ := some { id := 0 }
  route _ := none
  port n := if n < 3 then 20000 + n else 0
  randomString n := toString n

/-- The profiles of a result and the ports of its bridges to Xray. -/
def TestResult.served (r : TestResult) : List Int × List Int :=
  (r.tag2entID.map snd, r.cores.xrayInbounds.map (fun inbound => inbound.2.port))

theorem buildTestConfig_kept_batch :
    failing batchWorld batch = [halfChain, portless] ∧ kept batchWorld batch = [bridged, plain] ∧
      ∃ r r', buildTestConfig batchWorld batch = .ok r ∧
        buildTestConfig (batchWorld.redrawn (fun n => 30000 + n) toString) [bridged, plain] = .ok r' ∧
        r.Alike r' ∧ r.served = ([1, 6], [20002]) ∧ r'.served = ([1, 6], [30000]) ∧ r.failed = [2, 5] ∧
        r'.failed = [] := by
  have hfailing : failing batchWorld batch = [halfChain, portless] := by decide +kernel
  have hkept : kept batchWorld batch = [bridged, plain] := by decide +kernel
  refine ⟨hfailing, hkept, ?_⟩
  have hown : OwnFullConfigs batchWorld batch := by
    intro item hmem hfull
    simp [batch, halfChain, bridged, portless, plain] at hmem
    rcases hmem with rfl | rfl | rfl | rfl <;> cases hfull
  rcases buildTestConfig_kept batchWorld batch (fun n => 30000 + n) toString (fun n => by omega) hown with
    ⟨⟨item, -, -, -, -, hgroup⟩, -⟩ | ⟨r, r', hr, hr', halike, hfailed, hnone⟩
  · cases hgroup
  rw [hkept] at hr'
  rw [hfailing] at hfailed
  have hserved : (buildTestConfig batchWorld batch).toOption.map TestResult.served = some ([1, 6], [20002]) := by
    decide +kernel
  have hserved' : (buildTestConfig (batchWorld.redrawn (fun n => 30000 + n) toString) [bridged, plain]).toOption.map
      TestResult.served = some ([1, 6], [30000]) := by decide +kernel
  rw [hr] at hserved
  rw [hr'] at hserved'
  exact ⟨r, r', hr, hr', halike, some_inj.mp hserved, some_inj.mp hserved', hfailed, hnone⟩

end Waterdisco.Config
