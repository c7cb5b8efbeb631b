import Waterdisco.Config.Chain
import Waterdisco.Lib.Keyed
import Waterdisco.Lib.Numbered

/-!
# What a chain adds

`Part` is what a step of the build adds to the lists of the context and `Adds` says
that it adds just that.  A chain that builds without an error adds the outbounds of its
hops, in order, and a bridge at each change of core (`buildOutboundChain_ok`).

    Adds w a b p → Adds w b c q → Adds w a c (p ++ q)         (Adds.trans)
    ents = leading ++ xray ++ tailing                          (splitHops_join)
-/

namespace Waterdisco.Config

open Route List Prod Except Bool String Nat HopChainOptions ChainScan

/-! ## Parts -/

@[ext]
structure Part where
  sing : List Outbound := []
  xray : List XrayOutbound := []
  xrayIngress : List Tag := []
  singIngress : List Tag := []
  toXray : List Bridge := []
  toSing : List Bridge := []
  aux : List Tag := []
  /-- The port of a bridge was given beforehand. -/
  given : Bool := false

instance : Append Part where
  append p q :=
    { sing := p.sing ++ q.sing
      xray := p.xray ++ q.xray
      xrayIngress := p.xrayIngress ++ q.xrayIngress
      singIngress := p.singIngress ++ q.singIngress
      toXray := p.toXray ++ q.toXray
      toSing := p.toSing ++ q.toSing
      aux := p.aux ++ q.aux
      given := p.given || q.given }

section
variable (p q r : Part)

@[simp] theorem Part.sing_append : (p ++ q).sing = p.sing ++ q.sing := rfl
@[simp] theorem Part.xray_append : (p ++ q).xray = p.xray ++ q.xray := rfl
@[simp] theorem Part.xrayIngress_append : (p ++ q).xrayIngress = p.xrayIngress ++ q.xrayIngress := rfl
@[simp] theorem Part.singIngress_append : (p ++ q).singIngress = p.singIngress ++ q.singIngress := rfl
@[simp] theorem Part.toXray_append : (p ++ q).toXray = p.toXray ++ q.toXray := rfl
@[simp] theorem Part.toSing_append : (p ++ q).toSing = p.toSing ++ q.toSing := rfl
@[simp] theorem Part.aux_append : (p ++ q).aux = p.aux ++ q.aux := rfl
@[simp] theorem Part.given_append : (p ++ q).given = (p.given || q.given) := rfl

theorem Part.append_assoc : p ++ q ++ r = p ++ (q ++ r) := by
  ext1 <;> simp [Bool.or_assoc]

end

/-- The bridges have ports that were probed, each its own, from number `lo` up to `hi`. -/
def Drawn (w : World) (lo hi : Nat) (bridges : List Bridge) : Prop :=
  (∀ b ∈ bridges, 0 < b.port) ∧ ∃ ports, Numbered w.port lo hi ports ∧ (bridges.map Bridge.port).Perm ports

variable {ent : Profile} {scan scan' : ChainScan} {ids : List Int} (w : World) (req : ChainBuildRequest)
  (opts : HopChainOptions) (ctx : BuildContext)

theorem Drawn.nil (lo hi : Nat) : Drawn w lo hi [] := ⟨by simp, [], Numbered.nil _ lo hi, .nil⟩

open Drawn (nil)

theorem Drawn.append {w : World} {lo mid hi : Nat} {a a' b b' : List Bridge} (ha : Drawn w lo mid (a ++ a'))
    (hb : Drawn w mid hi (b ++ b')) (hlo : lo ≤ mid) (hhi : mid ≤ hi) : Drawn w lo hi ((a ++ b) ++ (a' ++ b')) := by
  obtain ⟨hpos, ports, hports, hperm⟩ := ha
  obtain ⟨hpos', ports', hports', hperm'⟩ := hb
  have hshuffle : ((a ++ b) ++ (a' ++ b')).Perm ((a ++ a') ++ (b ++ b')) := by
    rw [perm_iff_count]
    simp only [count_append]
    omega
  refine ⟨fun x hx => ?_, ports ++ ports', hports.append hports' hlo hhi, ?_⟩
  · exact (mem_append.mp (hshuffle.subset hx)).elim (hpos x) (hpos' x)
  · refine (hshuffle.map Bridge.port).trans ?_
    rw [map_append]
    exact hperm.append hperm'

/-- No port is probed twice by a build that probes `n`; a probe that fails gives 0. -/
def FreshPorts (w : World) (n : Nat) : Prop :=
  ∀ i j, i < j → j < n → 0 < w.port i → w.port i ≠ w.port j

theorem Drawn.nodup {w : World} {lo hi n : Nat} {bridges : List Bridge} (h : Drawn w lo hi bridges) (hn : hi ≤ n)
    (hfresh : FreshPorts w n) : (bridges.map Bridge.port).Nodup := by
  obtain ⟨hpos, ports, hports, hperm⟩ := h
  rw [hperm.nodup_iff]
  refine hports.nodup hn fun i j hij hj hi => hfresh i j hij hj ?_
  obtain ⟨b, hb, hport⟩ := mem_map.mp (hperm.symm.subset hi)
  exact hport ▸ hpos b hb

structure Adds (w : World) (ctx ctx' : BuildContext) (p : Part) : Prop where
  error : ctx'.error = ctx.error
  ent : ctx'.ent = ctx.ent
  outbounds : ctx'.outbounds = ctx.outbounds ++ p.sing.filter (fun o => !o.source.isEndpoint)
  endpoints : ctx'.endpoints = ctx.endpoints ++ p.sing.filter (fun o => o.source.isEndpoint)
  xrayOutbounds : ctx'.xrayOutbounds = ctx.xrayOutbounds ++ p.xray
  xrayIngressTags : ctx'.xrayIngressTags = ctx.xrayIngressTags ++ p.xrayIngress
  singIngressTags : ctx'.singIngressTags = ctx.singIngressTags ++ p.singIngress
  singToXrayBridges : ctx'.singToXrayBridges = ctx.singToXrayBridges ++ p.toXray
  xrayToSingBridges : ctx'.xrayToSingBridges = ctx.xrayToSingBridges ++ p.toSing
  draws : ctx.drawnPorts ≤ ctx'.drawnPorts
  drawn : p.given = false → Drawn w ctx.drawnPorts ctx'.drawnPorts (p.toXray ++ p.toSing)
  /-- A VPN endpoint that is noted is one that was added, under its tag and of its type. -/
  vpnEndpointTags : ∀ entry ∈ ctx'.vpnEndpointTags, entry ∈ ctx.vpnEndpointTags ∨
    ∃ o ∈ p.sing, o.tag = entry.1 ∧ ∃ hop : Profile, o.source = .hop hop ∧ hop.type = entry.2 ∧ hop.type.isVpn = true
  vpnGateTags : ∀ tag ∈ ctx'.vpnGateTags, tag ∈ ctx.vpnGateTags ∨ ∃ o ∈ p.sing, o.tag = tag
  vpnAuxTags : ctx'.vpnAuxTags = ctx.vpnAuxTags ++ p.aux
  vpnKeys : (ctx.vpnEndpointTags.map fst).Nodup → (ctx'.vpnEndpointTags.map fst).Nodup

theorem Adds.trans {w : World} {a b c : BuildContext} {p q : Part} (hp : Adds w a b p) (hq : Adds w b c q) :
    Adds w a c (p ++ q) where
  error := hq.error.trans hp.error
  ent := hq.ent.trans hp.ent
  outbounds := by rw [hq.outbounds, hp.outbounds, Part.sing_append, List.filter_append, List.append_assoc]
  endpoints := by rw [hq.endpoints, hp.endpoints, Part.sing_append, List.filter_append, List.append_assoc]
  xrayOutbounds := by rw [hq.xrayOutbounds, hp.xrayOutbounds, Part.xray_append, List.append_assoc]
  xrayIngressTags := by rw [hq.xrayIngressTags, hp.xrayIngressTags, Part.xrayIngress_append, List.append_assoc]
  singIngressTags := by rw [hq.singIngressTags, hp.singIngressTags, Part.singIngress_append, List.append_assoc]
  singToXrayBridges := by rw [hq.singToXrayBridges, hp.singToXrayBridges, Part.toXray_append, List.append_assoc]
  xrayToSingBridges := by rw [hq.xrayToSingBridges, hp.xrayToSingBridges, Part.toSing_append, List.append_assoc]
  draws := le_trans hp.draws hq.draws
  drawn hgiven := by
    obtain ⟨hp', hq'⟩ := Bool.or_eq_false_iff.mp hgiven
    exact (hp.drawn hp').append (hq.drawn hq') hp.draws hq.draws
  vpnEndpointTags := by
    intro entry h
    rcases hq.vpnEndpointTags entry h with h | ⟨o, ho, h⟩
    · rcases hp.vpnEndpointTags entry h with h | ⟨o, ho, h⟩
      · exact .inl h
      · exact .inr ⟨o, mem_append_left _ ho, h⟩
    · exact .inr ⟨o, mem_append_right _ ho, h⟩
  vpnGateTags := by
    intro tag h
    rcases hq.vpnGateTags tag h with h | ⟨o, ho, h⟩
    · rcases hp.vpnGateTags tag h with h | ⟨o, ho, h⟩
      · exact .inl h
      · exact .inr ⟨o, mem_append_left _ ho, h⟩
    · exact .inr ⟨o, mem_append_right _ ho, h⟩
  vpnAuxTags := by rw [hq.vpnAuxTags, hp.vpnAuxTags, Part.aux_append, List.append_assoc]
  vpnKeys h := hq.vpnKeys (hp.vpnKeys h)

/-! ## Keys of a map -/

section
variable {α : Type} (map : List (String × α)) (key : String) (value : α)

theorem mapInsert_perm : (mapInsert map key value).Perm ((key, value) :: map.filter (fun entry => entry.1 ≠ key)) :=
  perm_orderedInsert _ _ _

theorem mem_mapInsert {entry : String × α} (h : entry ∈ mapInsert map key value) :
    entry ∈ map ∨ entry = (key, value) := by
  rcases mem_cons.mp ((mapInsert_perm map key value).mem_iff.mp h) with h | h
  · exact .inr h
  · exact .inl (mem_of_mem_filter h)

theorem mapInsert_keys (h : (map.map fst).Nodup) : ((mapInsert map key value).map fst).Nodup := by
  rw [((mapInsert_perm map key value).map fst).nodup_iff, map_cons, nodup_cons]
  constructor
  · intro hm
    obtain ⟨entry, hentry, hkey⟩ := mem_map.mp hm
    have := (mem_filter.mp hentry).2
    simp [hkey] at this
  · exact h.sublist (filter_sublist.map fst)

end

/-! ## The outbounds of a chain -/

def HopChainOptions.singOutbounds (opts : HopChainOptions) (idx : Nat) : List Ent → List Outbound
  | [] => []
  | ent :: rest => opts.singOutbound idx ent rest.head? :: opts.singOutbounds (idx + 1) rest

/-- The objects of Xray hops, from number `idx` on, and the bridge behind them. -/
def HopChainOptions.xrayOutbounds (opts : HopChainOptions) (bridge : Option Bridge) (idx : Nat) :
    List Profile → List XrayOutbound
  | [] => bridge.toList.map (fun b => { tag := hopTag opts.chain (opts.startSuffix + idx : Nat), source := .bridge b })
  | hop :: rest => opts.xrayOutbound bridge idx hop rest.isEmpty :: opts.xrayOutbounds bridge (idx + 1) rest

theorem Adds.refl : Adds w ctx ctx {} where
  error := rfl
  ent := rfl
  outbounds := by simp
  endpoints := by simp
  xrayOutbounds := by simp
  xrayIngressTags := by simp
  singIngressTags := by simp
  singToXrayBridges := by simp
  xrayToSingBridges := by simp
  draws := .refl
  drawn _ := nil w _ _
  vpnEndpointTags _ h := .inl h
  vpnGateTags _ h := .inl h
  vpnAuxTags := by simp
  vpnKeys h := h

open Adds (refl)

theorem noteVpn_spec (opts : HopChainOptions) (idx : Nat) (ent : Ent) :
    ∃ tags strict gates,
      ctx.noteVpn opts idx ent = { ctx with vpnEndpointTags := tags, vpnStrictTag := strict, vpnGateTags := gates } ∧
      (∀ entry ∈ tags, entry ∈ ctx.vpnEndpointTags ∨
        ∃ hop : Profile, ent = .profile hop ∧ entry = (opts.singTag idx, hop.type) ∧ hop.type.isVpn = true) ∧
      (∀ tag ∈ gates, tag ∈ ctx.vpnGateTags ∨ tag = opts.singTag idx) ∧
      ((ctx.vpnEndpointTags.map fst).Nodup → (tags.map fst).Nodup) := by
  cases ent with
  | bridge b => exact ⟨_, _, _, rfl, fun _ h => .inl h, fun _ h => .inl h, id⟩
  | profile hop =>
    dsimp only [BuildContext.noteVpn]
    split
    · rename_i hvpn
      rw [and_eq_true] at hvpn
      refine ⟨_, _, _, rfl, ?_, ?_, ?_⟩
      · intro entry h
        split at h
        · exact .inl h
        rcases mem_mapInsert _ _ _ h with h | h
        · exact .inl h
        · exact .inr ⟨hop, rfl, h, hvpn.2⟩
      · intro tag h
        split at h
        · rcases mem_append.mp h with h | h
          · exact .inl h
          · exact .inr (mem_singleton.mp h)
        · exact .inl h
      · intro h
        split
        · exact h
        · exact mapInsert_keys _ _ _ h
    · exact ⟨_, _, _, rfl, fun _ h => .inl h, fun _ h => .inl h, id⟩

theorem collectEchQueryName_spec (ent : Ent) :
    ∃ names resolvers,
      ctx.collectEchQueryName ent = { ctx with echQueryNames := names, echResolvers := resolvers } := by
  unfold BuildContext.collectEchQueryName
  split
  · exact ⟨_, _, rfl⟩
  split
  · exact ⟨_, _, rfl⟩
  · split <;> exact ⟨_, _, rfl⟩
  · split <;> exact ⟨_, _, rfl⟩

theorem noteIngress_spec (opts : HopChainOptions) (idx : Nat) :
    ctx.noteIngress opts idx =
      { ctx with
        singIngressTags := ctx.singIngressTags ++ if opts.markIngress && idx == 0 then [opts.singTag idx] else [] } := by
  unfold BuildContext.noteIngress
  split <;> simp

theorem addOutbound_spec (o : Outbound) :
    ctx.addOutbound o =
      { ctx with
        outbounds := ctx.outbounds ++ [o].filter (fun o => !o.source.isEndpoint)
        endpoints := ctx.endpoints ++ [o].filter (fun o => o.source.isEndpoint) } := by
  unfold BuildContext.addOutbound
  split
  · rename_i h
    simp [h]
  · rename_i h
    simp [h]

/-- One hop of sing-box: its object, and its tag where it takes the traffic from Xray. -/
theorem adds_singHop (idx : Nat) (ent : Ent) (next : Option Ent)
    (ctx : BuildContext) :
    Adds w ctx
      ((((ctx.noteIngress opts idx).noteVpn opts idx ent).collectEchQueryName ent).addOutbound
        (opts.singOutbound idx ent next))
      { sing := [opts.singOutbound idx ent next]
        singIngress := if opts.markIngress && idx == 0 then [opts.singTag idx] else [] } := by
  obtain ⟨tags, strict, gates, hvpn, htags, hgates, hkeys⟩ := noteVpn_spec (ctx.noteIngress opts idx) opts idx ent
  rw [hvpn]
  obtain ⟨names, resolvers, hech⟩ := collectEchQueryName_spec
    { ctx.noteIngress opts idx with vpnEndpointTags := tags, vpnStrictTag := strict, vpnGateTags := gates } ent
  rw [hech]
  rw [noteIngress_spec] at htags hgates hkeys ⊢
  have hvpnTags : ∀ entry ∈ tags, entry ∈ ctx.vpnEndpointTags ∨
      ∃ o ∈ [opts.singOutbound idx ent next], o.tag = entry.1 ∧
        ∃ hop : Profile, o.source = .hop hop ∧ hop.type = entry.2 ∧ hop.type.isVpn = true := by
    intro entry h
    rcases htags entry h with h | ⟨hop, rfl, rfl, hvpn⟩
    · exact .inl h
    · exact .inr ⟨_, mem_singleton_self _, rfl, hop, rfl, rfl, hvpn⟩
  have hgateTags : ∀ tag ∈ gates, tag ∈ ctx.vpnGateTags ∨ ∃ o ∈ [opts.singOutbound idx ent next], o.tag = tag := by
    intro tag h
    rcases hgates tag h with h | rfl
    · exact .inl h
    · exact .inr ⟨_, mem_singleton_self _, rfl⟩
  rw [addOutbound_spec]
  exact {
    error := rfl
    ent := rfl
    outbounds := rfl
    endpoints := rfl
    xrayOutbounds := by simp
    xrayIngressTags := by simp
    singIngressTags := rfl
    singToXrayBridges := by simp
    xrayToSingBridges := by simp
    draws := .refl
    drawn := fun _ => nil w _ _
    vpnEndpointTags := hvpnTags
    vpnGateTags := hgateTags
    vpnAuxTags := by simp
    vpnKeys := hkeys }

/-- The part of sing-box hops from number `idx` on. -/
def HopChainOptions.singPart (opts : HopChainOptions) (idx : Nat) (ents : List Ent) : Part where
  sing := opts.singOutbounds idx ents
  singIngress := if opts.markIngress && idx == 0 && !ents.isEmpty then [opts.singTag idx] else []

theorem buildSingboxChain_ok (ents : List Ent) (idx : Nat) (ctx : BuildContext)
    (h : (buildSingboxChain opts idx ents ctx).error = "") :
    Adds w ctx (buildSingboxChain opts idx ents ctx) (opts.singPart idx ents) := by
  induction ents generalizing idx ctx with
  | nil =>
    have : opts.singPart idx [] = {} := by simp [singPart, singOutbounds]
    rw [this]
    exact refl w ctx
  | cons ent rest ih =>
    rw [buildSingboxChain] at h ⊢
    split at h
    · rename_i hbuild
      rw [if_pos hbuild]
      have hall := (adds_singHop w opts idx ent rest.head? ctx).trans (ih _ _ h)
      have hpart : opts.singPart idx (ent :: rest) =
          { sing := [opts.singOutbound idx ent rest.head?]
            singIngress := if opts.markIngress && idx == 0 then [opts.singTag idx] else [] } ++
          opts.singPart (idx + 1) rest := by
        ext1 <;> simp [singPart, singOutbounds]
      rw [hpart]
      exact hall
    · rename_i hbuild
      exact absurd (String.append_eq_empty_iff.mp h).2 hbuild

def HopChainOptions.xrayPart (opts : HopChainOptions) (bridge : Option Bridge) (idx : Nat) (hops : List Profile) :
    Part where
  xray := opts.xrayOutbounds bridge idx hops
  xrayIngress := if idx == 0 && !hops.isEmpty then [opts.xrayTag idx] else []

theorem adds_xray (ingress : List Tag) (outbounds : List XrayOutbound) :
    Adds w ctx
      { ctx with
        xrayIngressTags := ctx.xrayIngressTags ++ ingress
        xrayOutbounds := ctx.xrayOutbounds ++ outbounds }
      { xray := outbounds, xrayIngress := ingress } :=
  { refl w ctx with
    xrayOutbounds := rfl
    xrayIngressTags := rfl }

theorem noteXrayIngress_spec (opts : HopChainOptions) (idx : Nat) :
    ctx.noteXrayIngress opts idx =
      { ctx with xrayIngressTags := ctx.xrayIngressTags ++ if idx == 0 then [opts.xrayTag idx] else [] } := by
  unfold BuildContext.noteXrayIngress
  split <;> simp

theorem buildXrayChain_ok (bridge : Option Bridge) (hops : List Profile) (idx : Nat)
    (ctx : BuildContext) (h : (buildXrayChain opts bridge idx hops ctx).error = "") :
    Adds w ctx (buildXrayChain opts bridge idx hops ctx) (opts.xrayPart bridge idx hops) := by
  induction hops generalizing idx ctx with
  | nil =>
    cases bridge with
    | none =>
      have : opts.xrayPart none idx [] = {} := by simp [xrayPart, xrayOutbounds]
      rw [this]
      exact refl w ctx
    | some b =>
      have := adds_xray w ctx [] [{ tag := hopTag opts.chain (opts.startSuffix + idx : Nat), source := .bridge b }]
      simpa [xrayPart, xrayOutbounds, buildXrayChain] using this
  | cons hop rest ih =>
    rw [buildXrayChain] at h ⊢
    split at h
    · rename_i hbuild
      rw [if_pos hbuild]
      rw [noteXrayIngress_spec] at h ⊢
      have hall := (adds_xray w ctx (if idx == 0 then [opts.xrayTag idx] else [])
        [opts.xrayOutbound bridge idx hop rest.isEmpty]).trans (ih _ _ h)
      have hpart : opts.xrayPart bridge idx (hop :: rest) =
          { xray := [opts.xrayOutbound bridge idx hop rest.isEmpty]
            xrayIngress := if idx == 0 then [opts.xrayTag idx] else [] } ++
          opts.xrayPart bridge (idx + 1) rest := by
        ext1 <;> simp [xrayPart, xrayOutbounds]
      rw [hpart]
      exact hall
    · rename_i hbuild
      exact absurd (String.append_eq_empty_iff.mp h).2 hbuild

/-! ## The hops of an accepted chain -/

def World.hop (w : World) (id : Int) : Option Profile :=
  if id = warpProfileID then some w.settings.warp.profile else w.profile id

/-- While there are at most two changes of core, the split has the hops in their order. -/
structure Shaped (scan : ChainScan) : Prop where
  join : scan.ents = (splitHops scan.ents).leading ++ (splitHops scan.ents).xray ++ (splitHops scan.ents).tailing
  inXray : scan.inXray = decide (scan.coreTransitions = 1)
  xray : (splitHops scan.ents).xray = [] ↔ scan.coreTransitions = 0
  tailing : (splitHops scan.ents).tailing = [] ↔ scan.coreTransitions ≤ 1
  toXray : scan.singToXrayTransitioned = decide (0 < scan.coreTransitions)
  toSing : scan.xrayToSingTransitioned = decide (1 < scan.coreTransitions)

theorem splitHops_concat (ents : List Profile) (ent : Profile) :
    splitHops (ents ++ [ent]) = (splitHops ents).add ent := by
  simp [splitHops]

/-- The scan has one more hop, whatever else it counts. -/
structure Follows (scan scan' : ChainScan) (ent : Profile) : Prop where
  ents : scan'.ents = scan.ents ++ [ent]
  inXray : scan'.inXray = (scan.cross ent.isXray).inXray
  toXray : scan'.singToXrayTransitioned = (scan.cross ent.isXray).singToXrayTransitioned
  toSing : scan'.xrayToSingTransitioned = (scan.cross ent.isXray).xrayToSingTransitioned
  count : scan'.coreTransitions = (scan.cross ent.isXray).coreTransitions

theorem Follows.split (h : Follows scan scan' ent) :
    splitHops scan'.ents = (splitHops scan.ents).add ent := by
  rw [h.ents, splitHops_concat]

theorem Follows.count_le (h : Follows scan scan' ent) :
    scan.coreTransitions ≤ scan'.coreTransitions := by
  rw [h.count]
  unfold cross
  split
  · exact le_succ _
  split
  · exact le_succ _
  · exact .refl

/-- The flags and the count of a scan that goes on to a hop of either core. -/
theorem Shaped.cross (hs : Shaped scan) (toXray : Bool) (hle : (scan.cross toXray).coreTransitions ≤ 2) :
    (scan.cross toXray).coreTransitions = (if toXray then 1 else if scan.coreTransitions = 0 then 0 else 2) ∧
      (toXray = true → scan.coreTransitions ≤ 1) ∧
      (scan.cross toXray).inXray = decide ((scan.cross toXray).coreTransitions = 1) ∧
      (scan.cross toXray).singToXrayTransitioned = decide (0 < (scan.cross toXray).coreTransitions) ∧
      (scan.cross toXray).xrayToSingTransitioned = decide (1 < (scan.cross toXray).coreTransitions) := by
  have hin : scan.inXray = true ↔ scan.coreTransitions = 1 := by simp [hs.inXray]
  cases hI : scan.inXray <;> cases toXray <;> simp_all [ChainScan.cross, hs.toXray, hs.toSing]
  all_goals grind

theorem Shaped.xrayHop (hs : Shaped scan) (h : Follows scan scan' ent)
    (hX : ent.isXray = true) (hle : scan'.coreTransitions ≤ 2) : Shaped scan' := by
  have hsplit := h.split
  obtain ⟨hcount, hbefore, hin, hto, hback⟩ := hs.cross ent.isXray (h.count ▸ hle)
  rw [← h.count] at hcount hin hto hback
  rw [hX, if_pos rfl] at hcount
  have htail : (splitHops scan.ents).tailing = [] := hs.tailing.mpr (hbefore hX)
  have hadd : (splitHops scan.ents).add ent =
      { splitHops scan.ents with xray := (splitHops scan.ents).xray ++ [ent] } := by simp [SplitHops.add, hX]
  rw [hadd] at hsplit
  refine ⟨?_, h.inXray.trans hin, ?_, ?_, h.toXray.trans hto, h.toSing.trans hback⟩
  · have hjoin := hs.join
    rw [htail, append_nil] at hjoin
    rw [hsplit, h.ents]
    simp only [htail, append_nil]
    rw [← List.append_assoc, ← hjoin]
  · rw [hsplit]
    simp [hcount]
  · rw [hsplit]
    simp [htail, hcount]

theorem Shaped.singHop (hs : Shaped scan) (h : Follows scan scan' ent)
    (hX : ent.isXray = false) (hle : scan'.coreTransitions ≤ 2) : Shaped scan' := by
  have hsplit := h.split
  obtain ⟨hcount, -, hin, hto, hback⟩ := hs.cross ent.isXray (h.count ▸ hle)
  rw [← h.count] at hcount hin hto hback
  rw [hX, if_neg Bool.false_ne_true] at hcount
  by_cases hzero : scan.coreTransitions = 0
  · -- still in front of Xray
    have hempty : (splitHops scan.ents).xray = [] := hs.xray.mpr hzero
    have htail : (splitHops scan.ents).tailing = [] := hs.tailing.mpr (by omega)
    have hadd : (splitHops scan.ents).add ent =
        { splitHops scan.ents with leading := (splitHops scan.ents).leading ++ [ent] } := by
      simp [SplitHops.add, hX, hempty]
    rw [hadd] at hsplit
    refine ⟨?_, h.inXray.trans hin, ?_, ?_, h.toXray.trans hto, h.toSing.trans hback⟩
    · have hjoin := hs.join
      rw [hempty, htail, List.append_nil, List.append_nil] at hjoin
      rw [hsplit, h.ents]
      simp only [hempty, htail, List.append_nil]
      rw [← hjoin]
    · rw [hsplit]
      simp [hempty, hcount, hzero]
    · rw [hsplit]
      simp [htail, hcount, hzero]
  -- behind Xray
  have hne : (splitHops scan.ents).xray ≠ [] := fun h => hzero (hs.xray.mp h)
  have hadd : (splitHops scan.ents).add ent =
      { splitHops scan.ents with tailing := (splitHops scan.ents).tailing ++ [ent] } := by
    simp [SplitHops.add, hX, hne]
  rw [hadd] at hsplit
  refine ⟨?_, h.inXray.trans hin, ?_, ?_, h.toXray.trans hto, h.toSing.trans hback⟩
  · rw [hsplit, h.ents]
    rw [← List.append_assoc, ← hs.join]
  · rw [hsplit]
    simp [hne, hcount, hzero]
  · rw [hsplit]
    simp [hcount, hzero]

theorem cross_ents (scan : ChainScan) (toXray : Bool) : (scan.cross toXray).ents = scan.ents := by
  unfold cross
  split
  · rfl
  · split <;> rfl

structure Scanned (w : World) (ids : List Int) (scan : ChainScan) : Prop where
  hops : scan.ents.map some = ids.map w.hop
  shaped : scan.coreTransitions ≤ 2 → Shaped scan
  plain : ∀ hop ∈ scan.ents, hop.type ≠ .chain ∧ hop.type ≠ .autoselector

theorem Scanned.step {w : World} {id : Int}
    (hs : Scanned w ids scan) (h : Follows scan scan' ent) (hhop : w.hop id = some ent)
    (hplain : ent.type ≠ .chain ∧ ent.type ≠ .autoselector) : Scanned w (ids ++ [id]) scan' where
  hops := by rw [h.ents, map_append, map_append, hs.hops, map_singleton, map_singleton, hhop]
  shaped hle := by
    have hle' := le_trans h.count_le hle
    cases hX : ent.isXray with
    | true => exact (hs.shaped hle').xrayHop h hX hle
    | false => exact (hs.shaped hle').singHop h hX hle
  plain := by
    rw [h.ents]
    intro hop hm
    rcases mem_append.mp hm with hm | hm
    · exact hs.plain hop hm
    · rw [mem_singleton.mp hm]
      exact hplain

theorem Scanned.scanHop {w : World} {id : Int}
    (hs : Scanned w ids scan) (h : scanHop w ent scan id = .ok scan') : Scanned w (ids ++ [id]) scan' := by
  unfold Config.scanHop at h
  split at h
  · rename_i hwarp
    simp only [ok.injEq] at h
    have hfollows : Follows scan scan' w.settings.warp.profile := by
      rw [← h]
      exact ⟨by simp [cross_ents], rfl, rfl, rfl, rfl⟩
    exact hs.step hfollows (by simp [World.hop, hwarp]) (by simp [WarpSettings.profile])
  rename_i hwarp
  split at h
  · cases h
  rename_i hop hhop
  split at h
  · cases h
  split at h
  · cases h
  rename_i hchain hselector
  simp only [ok.injEq] at h
  have hfollows : Follows scan scan' hop := by
    rw [← h]
    exact ⟨by simp [ChainScan.append, cross_ents], rfl, rfl, rfl, rfl⟩
  exact hs.step hfollows (by simp [World.hop, hwarp, hhop]) ⟨hchain, hselector⟩

theorem Scanned.foldlM {w : World} {before : List Int}
    (hs : Scanned w before scan) (h : ids.foldlM (Config.scanHop w ent) scan = .ok scan') :
    Scanned w (before ++ ids) scan' := by
  induction ids generalizing before scan with
  | nil =>
    simp only [List.foldlM_nil, pure, Except.pure, Except.ok.injEq] at h
    rw [List.append_nil, ← h]
    exact hs
  | cons id rest ih =>
    rw [List.foldlM_cons] at h
    cases hstep : Config.scanHop w ent scan id with
    | error e => rw [hstep] at h; cases h
    | ok next =>
      rw [hstep] at h
      have := ih (hs.scanHop hstep) h
      rwa [List.append_assoc] at this

theorem chainScanError_transitions (h : chainScanError scan = "") : scan.coreTransitions ≤ 2 := by
  unfold chainScanError at h
  repeat' split at h
  all_goals first | omega | simp at h

/-- The hops of an accepted list, in order: sing-box, Xray, sing-box. -/
theorem entIDListtoEntList_ok {w : World}
    (h : entIDListtoEntList w ent ids = .ok scan) : Scanned w ids scan ∧ Shaped scan := by
  unfold entIDListtoEntList at h
  split at h
  · cases h
  rename_i scan' hfold
  split at h
  · rename_i herror
    simp only [ok.injEq] at h
    subst h
    have hstart : Scanned w [] {} := by
      refine ⟨rfl, fun _ => ⟨?_, ?_, ?_, ?_, ?_, ?_⟩, by simp⟩ <;> simp [splitHops]
    have hs := hstart.foldlM hfold
    exact ⟨hs, hs.shaped (chainScanError_transitions herror)⟩
  · cases h

/-! ## The bridges -/

theorem adds_draws (ports strings : Nat) (hports : ctx.drawnPorts ≤ ports)
    (config : Option FullXrayConfig) (needed : Bool) :
    Adds w ctx
      { ctx with drawnPorts := ports, drawnStrings := strings, xrayConfig := config, isXrayNeeded := needed } {} :=
  { refl w ctx with
    draws := hports
    drawn := fun _ => nil w _ _ }

theorem takeFullConfig_ok (ents : List Profile) (ctx : BuildContext)
    (h : (takeFullConfig w req ents ctx).error = "") : Adds w ctx (takeFullConfig w req ents ctx) {} := by
  unfold takeFullConfig at h ⊢
  split at h
  · exact refl w ctx
  split at h
  · rename_i hfull
    simp only [hfull, if_true]
    exact refl w ctx
  rename_i hfull
  split at h
  · simp at h
  rename_i hempty
  rw [if_neg hfull, if_neg hempty]
  obtain ⟨n, hn, hle⟩ : ∃ n, (fullConfigPort w req.xrayFullConfigPort ctx).2 = { ctx with drawnPorts := n } ∧
      ctx.drawnPorts ≤ n := by
    unfold fullConfigPort
    split
    · exact ⟨_, rfl, le_succ _⟩
    · exact ⟨_, rfl, .refl⟩
  dsimp only at h ⊢
  rw [hn] at h ⊢
  split at h
  · simp at h
  rename_i hport
  rw [if_neg hport]
  exact adds_draws w ctx _ _ hle _ _

theorem bridgePort_spec (given : Int) (ports : List Int) (ctx : BuildContext) :
    ∃ n, (bridgePort w given ports ctx).2.2 = { ctx with drawnPorts := n } := by
  unfold bridgePort
  split
  · exact ⟨_, rfl⟩
  · split <;> exact ⟨_, rfl⟩

theorem bridgePort_draws (given : Int) (ports : List Int) (ctx : BuildContext) :
    ctx.drawnPorts ≤ (bridgePort w given ports ctx).2.2.drawnPorts := by
  unfold bridgePort
  split
  · exact .refl
  · split
    · exact .refl
    · exact Nat.le_add_right _ _

theorem openBridge_ok (given : Int) (failure : String) (ports : List Int) (ctx : BuildContext)
    (hfailure : failure ≠ "") (h : (openBridge w given failure ports ctx).2.2.error = "") :
    ∃ bridge, openBridge w given failure ports ctx =
        (some bridge, (bridgePort w given ports ctx).2.1, { ctx with
          drawnPorts := (bridgePort w given ports ctx).2.2.drawnPorts
          drawnStrings := ctx.drawnStrings + 1 }) ∧
      0 < bridge.port ∧ bridge.port = (bridgePort w given ports ctx).1 := by
  obtain ⟨n, hn⟩ := bridgePort_spec w given ports ctx
  unfold openBridge at h ⊢
  dsimp only at h ⊢
  rw [hn] at h ⊢
  split at h
  · exact absurd h hfailure
  rename_i hport
  rw [if_neg hport]
  exact ⟨_, rfl, not_le.mp hport, rfl⟩

theorem openSingToXray_ok (needed : Bool) (ctx : BuildContext)
    (h : (openSingToXray w req needed ctx).2.2.error = "") :
    ∃ bridge ports n strings, openSingToXray w req needed ctx =
        (bridge, ports, { ctx with
          singToXrayBridges := ctx.singToXrayBridges ++ bridge.toList
          drawnPorts := n
          drawnStrings := strings }) ∧
      bridge.isSome = needed ∧ ctx.drawnPorts ≤ n ∧
      (req.singToXrayPort ≤ 0 → bridge = none ∧ ports = [] ∧ n = ctx.drawnPorts ∨
        ∃ b, bridge = some b ∧ 0 < b.port ∧ b.port = w.port ctx.drawnPorts ∧ ports = [w.port (ctx.drawnPorts + 1)] ∧
          n = ctx.drawnPorts + 2) := by
  unfold openSingToXray at h ⊢
  cases needed with
  | false => exact ⟨none, _, _, _, by simp; rfl, rfl, .refl, fun _ => .inl ⟨rfl, rfl, rfl⟩⟩
  | true =>
    simp only [Bool.not_true, Bool.false_eq_true, if_false] at h ⊢
    have herror : (openBridge w req.singToXrayPort "Could not reserve a local port for the sing-box -> Xray bridge"
        [] ctx).2.2.error = "" := by
      split at h
      · rename_i hopen
        rw [hopen]
        exact h
      · exact h
    obtain ⟨bridge, hopen, hpos, hport⟩ := openBridge_ok w _ _ _ ctx (by decide) herror
    rw [hopen]
    refine ⟨some bridge, _, _, _, rfl, rfl, bridgePort_draws w _ _ ctx, fun hgiven => .inr ⟨bridge, rfl, hpos, ?_⟩⟩
    rw [hport, bridgePort, if_neg (not_lt.mpr hgiven)]
    exact ⟨rfl, rfl, rfl⟩

theorem openXrayToSing_ok (needed : Bool) (ports : List Int) (ctx : BuildContext)
    (h : (openXrayToSing w req needed ports ctx).2.error = "") :
    ∃ bridge n strings, openXrayToSing w req needed ports ctx =
        (bridge, { ctx with
          xrayToSingBridges := ctx.xrayToSingBridges ++ bridge.toList
          drawnPorts := n
          drawnStrings := strings }) ∧
      bridge.isSome = needed ∧ ctx.drawnPorts ≤ n ∧
      (req.xrayToSingPort ≤ 0 → bridge = none ∨
        ∃ b, bridge = some b ∧ 0 < b.port ∧ b.port = ports.headD (w.port ctx.drawnPorts) ∧
          (ports = [] → n = ctx.drawnPorts + 2)) := by
  unfold openXrayToSing at h ⊢
  cases needed with
  | false => exact ⟨none, _, _, by simp; rfl, rfl, .refl, fun _ => .inl rfl⟩
  | true =>
    simp only [Bool.not_true, Bool.false_eq_true, if_false] at h ⊢
    have herror : (openBridge w req.xrayToSingPort "Could not reserve a local port for the Xray -> sing-box bridge"
        ports ctx).2.2.error = "" := by
      split at h
      · rename_i hopen
        rw [hopen]
        exact h
      rename_i hopen
      rw [hopen]
      exact h
    obtain ⟨bridge, hopen, hpos, hport⟩ := openBridge_ok w _ _ _ ctx (by decide) herror
    rw [hopen]
    refine ⟨some bridge, _, _, rfl, rfl, bridgePort_draws w _ _ ctx, fun hgiven => .inr ⟨bridge, rfl, hpos, ?_⟩⟩
    cases ports <;> simp [hport, bridgePort, not_lt.mpr hgiven]

/-- A port was given beforehand. -/
def ChainBuildRequest.given (req : ChainBuildRequest) : Bool :=
  decide (0 < req.singToXrayPort) || decide (0 < req.xrayToSingPort)

/-- Bridges that have the next ports, in order. -/
theorem drawn_next {n hi : Nat} {bridges : List Bridge} (hpos : ∀ b ∈ bridges, 0 < b.port)
    (hports : bridges.map Bridge.port = (range bridges.length).map (fun i => w.port (n + i)))
    (hle : n + bridges.length ≤ hi) : Drawn w n hi bridges :=
  ⟨hpos, _, Numbered.range w.port hle, .of_eq hports⟩

/-- Both bridges of a chain.  Two ports are probed together, and the second bridge takes what the first leaves. -/
theorem openBridges_ok (needed needed' : Bool) {ctx ctx₁ ctx₂ : BuildContext} {toXray toSing : Option Bridge}
    {ports : List Int} (h : openSingToXray w req needed ctx = (toXray, ports, ctx₁)) (herror : ctx₁.error = "")
    (h' : openXrayToSing w req needed' ports ctx₁ = (toSing, ctx₂)) (herror' : ctx₂.error = "") :
    toXray.isSome = needed ∧ toSing.isSome = needed' ∧
      Adds w ctx ctx₂ { toXray := toXray.toList, toSing := toSing.toList, given := req.given } := by
  obtain ⟨bridge, ports', n, strings, hopen, hsome, hle, hdrawn⟩ := openSingToXray_ok w req needed ctx (by rwa [h])
  obtain ⟨rfl, rfl, rfl⟩ : bridge = toXray ∧ ports' = ports ∧ _ = ctx₁ := by simpa using hopen.symm.trans h
  obtain ⟨bridge', n', strings', hopen', hsome', hle', hdrawn'⟩ := openXrayToSing_ok w req needed' ports' _ (by rwa [h'])
  obtain ⟨rfl, rfl⟩ : bridge' = toSing ∧ _ = ctx₂ := by simpa using hopen'.symm.trans h'
  refine ⟨hsome, hsome', { refl w ctx with
    singToXrayBridges := rfl
    xrayToSingBridges := rfl
    draws := hle.trans hle'
    drawn := fun hgiven => ?_ }⟩
  simp only [ChainBuildRequest.given, or_eq_false_iff, decide_eq_false_iff_not, not_lt] at hgiven
  rcases hdrawn hgiven.1 with ⟨rfl, rfl, rfl⟩ | ⟨b, rfl, hpos, hport, rfl, rfl⟩ <;>
    rcases hdrawn' hgiven.2 with rfl | ⟨b', rfl, hpos', hport', hnext⟩
  · exact drawn_next w (by simp) rfl hle'
  · exact drawn_next w (by simpa using hpos') (by simpa [range_succ] using hport') (by have := hnext rfl; simp at this ⊢; omega)
  · exact drawn_next w (by simpa using hpos) (by simpa [range_succ] using hport) (by simp at hle' ⊢; omega)
  · refine drawn_next w (by simpa using ⟨hpos, hpos'⟩) ?_ (by simpa using hle')
    simpa [range_succ] using ⟨hport, hport'⟩

/-! ## A whole chain -/

/-- The sing-box hops in front, with the bridge to Xray behind them. -/
def initialEnts (split : SplitHops) (toXray : Option Bridge) : List Ent :=
  split.leading.map Ent.profile ++ toXray.toList.map Ent.bridge

def ChainBuildRequest.part (req : ChainBuildRequest) (split : SplitHops) (toXray toSing : Option Bridge) : Part :=
  { toXray := toXray.toList, toSing := toSing.toList, given := req.given } ++
    (req.leadingOpts.singPart 0 (initialEnts split toXray) ++
      ((if split.xray = [] then {} else req.leadingOpts.xrayPart toSing 0 split.xray) ++
        (req.tailingOpts (initialEnts split toXray).length).singPart 0 (split.tailing.map Ent.profile)))

theorem buildHops_ok (split : SplitHops) (toXray toSing : Option Bridge)
    (ctx : BuildContext) (h : (buildHops req split toXray toSing ctx).error = "") :
    Adds w ctx (buildHops req split toXray toSing ctx)
      (req.leadingOpts.singPart 0 (initialEnts split toXray) ++
        ((if split.xray = [] then {} else req.leadingOpts.xrayPart toSing 0 split.xray) ++
          (req.tailingOpts (initialEnts split toXray).length).singPart 0 (split.tailing.map Ent.profile))) := by
  unfold buildHops at h ⊢
  have htail := buildSingboxChain_ok w _ _ _ _ h
  have h₂ := htail.error.symm.trans h
  by_cases hx : split.xray = []
  · simp only [hx, if_true] at htail h₂ ⊢
    have hlead := buildSingboxChain_ok w _ _ _ _ h₂
    exact hlead.trans ((refl w _).trans htail)
  simp only [hx, if_false] at htail h₂ ⊢
  have hxray := buildXrayChain_ok w _ _ _ _ _ h₂
  have hlead := buildSingboxChain_ok w _ _ _ _ (hxray.error.symm.trans h₂)
  exact hlead.trans (hxray.trans htail)

theorem missingHopError_ne (ent : Profile) (id : Int) : missingHopError w ent id ≠ "" := by
  intro h
  dsimp only [missingHopError] at h
  split at h
  · simp [String.append_eq_empty_iff] at h
  split at h
  · split at h
    · simp [String.append_eq_empty_iff] at h
    · simp [String.append_eq_empty_iff] at h
  · simp at h

theorem scanHop_error {w : World} {id : Int} {error : String}
    (h : scanHop w ent scan id = .error error) : error ≠ "" := by
  unfold scanHop at h
  split at h
  · cases h
  split at h
  · cases h
    exact missingHopError_ne w ent id
  split at h
  · cases h
    decide
  split at h
  · cases h
    decide
  · cases h

theorem entIDListtoEntList_error {w : World} {error : String}
    (h : entIDListtoEntList w ent ids = .error error) : error ≠ "" := by
  have hfold (ids : List Int) (scan : ChainScan) (h : ids.foldlM (scanHop w ent) scan = .error error) : error ≠ "" := by
    induction ids generalizing scan with
    | nil => cases h
    | cons id rest ih =>
      rw [foldlM_cons] at h
      cases hstep : scanHop w ent scan id with
      | error e =>
        rw [hstep] at h
        cases h
        exact scanHop_error hstep
      | ok next =>
        rw [hstep] at h
        exact ih next h
  unfold entIDListtoEntList at h
  split at h
  · rename_i e he
    cases h
    exact hfold ids _ he
  split at h
  · cases h
  rename_i hne
  cases h
  exact hne

theorem buildScanned_ok (scan : ChainScan) (ctx : BuildContext)
    (h : (buildScanned w req scan ctx).error = "") :
    ∃ toXray toSing, toXray.isSome = scan.singToXrayTransitioned ∧ toSing.isSome = scan.xrayToSingTransitioned ∧
      Adds w ctx (buildScanned w req scan ctx) (req.part (splitHops scan.ents) toXray toSing) := by
  unfold buildScanned at h ⊢
  dsimp only at h ⊢
  split at h
  · rename_i hne
    exact absurd h hne
  rename_i hfull
  rw [if_neg hfull]
  have hfull' := takeFullConfig_ok w req scan.ents ctx (not_not.mp hfull)
  split at h
  · rename_i hne
    exact absurd h hne
  rename_i hto
  rw [if_neg hto]
  split at h
  · rename_i hne
    exact absurd h hne
  rename_i hback
  rw [if_neg hback]
  obtain ⟨hsome, hsome', hadds⟩ := openBridges_ok w req _ _ rfl (not_not.mp hto) rfl (not_not.mp hback)
  exact ⟨_, _, hsome, hsome', hfull'.trans (hadds.trans (buildHops_ok w req _ _ _ _ h))⟩

/-- **What a chain that builds adds**: the hops its ids stand for, with a bridge at each change of core. -/
theorem buildOutboundChain_ok
    (h : (buildOutboundChain w req ctx).error = "") :
    ∃ scan toXray toSing, Scanned w req.hopIDs scan ∧ Shaped scan ∧
      toXray.isSome = scan.singToXrayTransitioned ∧ toSing.isSome = scan.xrayToSingTransitioned ∧
      Adds w ctx (buildOutboundChain w req ctx) (req.part (splitHops scan.ents) toXray toSing) := by
  unfold buildOutboundChain at h ⊢
  split at h
  · rename_i error herror
    exact absurd h (entIDListtoEntList_error herror)
  rename_i scan hscan
  split at h
  · rename_i hne
    exact absurd h hne
  rename_i hne
  rw [if_neg hne]
  obtain ⟨hscanned, hshaped⟩ := entIDListtoEntList_ok hscan
  obtain ⟨toXray, toSing, hto, hback, hadds⟩ := buildScanned_ok w req scan ctx h
  exact ⟨scan, toXray, toSing, hscanned, hshaped, hto, hback, hadds⟩

end Waterdisco.Config
