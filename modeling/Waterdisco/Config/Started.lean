import Mathlib.Data.List.Flatten
import Waterdisco.Config.Chains
import Waterdisco.Config.Prerequisites
import Waterdisco.Config.Sections

/-!
# The way of a started profile

The outbounds section is one chain for the started profile, one for each outbound of
the rules and one for each endpoint; the chains share no tag and no port.  So the
tags `calculatePrerequisites` handed out lead through the hops they stand for.

    the section's chains                                    (buildOutboundsSection_ok)
    no tag twice                                            (Sectioned.singTags_nodup)
    no port of a bridge twice                               (Assembled.ports_nodup)
    from a chain's first tag through its hops to the end    (Assembled.visits)
-/

namespace Waterdisco.Config

open Route CoreConfigs List Nat Prod Option BuiltChain Tags XrayOutbound

/-! ## The chains that are asked for -/

def routeRequests : List (List Int) → Nat → List ChainBuildRequest
  | [], _ => []
  | hopIDs :: rest, suffix => routeRequest hopIDs suffix :: routeRequests rest (suffix + hopIDs.length)

def auxRequests : List AuxEndpointGroup → Nat → List ChainBuildRequest
  | [], _ => []
  | group :: rest, suffix => auxRequest group suffix :: auxRequests rest (suffix + group.hopIDs.length)

/-- The tags of the endpoints that rules can name. -/
def auxTags : List AuxEndpointGroup → Nat → List Tag
  | [], _ => []
  | group :: rest, suffix =>
    hopTag auxEndpointPrefix suffix :: auxInnerTags group suffix ++ auxTags rest (suffix + group.hopIDs.length)

theorem routeRequests_append (a b : List (List Int)) (suffix : Nat) :
    routeRequests (a ++ b) suffix = routeRequests a suffix ++ routeRequests b (suffix + hopSum a) := by
  induction a generalizing suffix with
  | nil => simp [routeRequests]
  | cons hopIDs a ih =>
    rw [cons_append, routeRequests, routeRequests, ih, hopSum_cons, cons_append, add_assoc]

theorem auxRequests_append (a b : List AuxEndpointGroup) (suffix : Nat) :
    auxRequests (a ++ b) suffix =
      auxRequests a suffix ++ auxRequests b (suffix + hopSum (a.map AuxEndpointGroup.hopIDs)) := by
  induction a generalizing suffix with
  | nil => simp [auxRequests]
  | cons group a ih =>
    rw [cons_append, auxRequests, auxRequests, ih, map_cons, hopSum_cons, cons_append, add_assoc]

theorem row_of_routeRequests {chains : List BuiltChain} {groups : List (List Int)} {n : Nat}
    (h : chains.map req = routeRequests groups n) : Row routeChainPrefix n chains := by
  induction groups generalizing chains n with
  | nil =>
    rw [map_eq_nil_iff.mp h]
    trivial
  | cons hopIDs groups ih =>
    obtain ⟨c, rest, rfl, hc, hrest⟩ := map_eq_cons_iff.mp h
    refine ⟨by rw [hc]; exact ⟨rfl, rfl, rfl, rfl, rfl⟩, ?_⟩
    rw [hc]
    exact ih hrest

theorem row_of_auxRequests {chains : List BuiltChain} {groups : List AuxEndpointGroup} {n : Nat}
    (h : chains.map req = auxRequests groups n) : Row auxEndpointPrefix n chains := by
  induction groups generalizing chains n with
  | nil =>
    rw [map_eq_nil_iff.mp h]
    trivial
  | cons group groups ih =>
    obtain ⟨c, rest, rfl, hc, hrest⟩ := map_eq_cons_iff.mp h
    refine ⟨by rw [hc]; exact ⟨rfl, rfl, rfl, rfl, rfl⟩, ?_⟩
    rw [hc]
    exact ih hrest

/-! ## What the section adds -/

theorem built_chain (w : World) (req : ChainBuildRequest) (ctx : BuildContext)
    (h : (buildOutboundChain w req ctx).error = "") :
    ∃ c : BuiltChain, c.req = req ∧ c.Ok w ∧ Adds w ctx (buildOutboundChain w req ctx) c.part := by
  obtain ⟨scan, toXray, toSing, hscanned, hshaped, hto, hback, hadds⟩ := buildOutboundChain_ok w req ctx h
  exact ⟨⟨req, scan, toXray, toSing⟩, rfl, ⟨hscanned, hshaped, hto, hback⟩, hadds⟩

theorem buildRouteGroups_ok (w : World) (groups : List (List Int)) (suffix : Nat) (ctx : BuildContext)
    (h : (buildRouteGroups w groups suffix ctx).error = "") :
    ∃ chains : List BuiltChain, chains.map req = routeRequests groups suffix ∧ (∀ c ∈ chains, c.Ok w) ∧
      Adds w ctx (buildRouteGroups w groups suffix ctx) (partsOf chains) := by
  induction groups generalizing suffix ctx with
  | nil => exact ⟨[], rfl, by simp, Adds.refl w ctx⟩
  | cons hopIDs groups ih =>
    obtain ⟨chains, hreq, hok, hadds⟩ := ih _ _ h
    obtain ⟨c, hc, hcok, hcadds⟩ := built_chain w _ _ (hadds.error.symm.trans h)
    refine ⟨c :: chains, by rw [map_cons, hc, hreq]; rfl, ?_, hcadds.trans hadds⟩
    intro d hd
    rcases mem_cons.mp hd with rfl | hd
    · exact hcok
    · exact hok d hd

theorem adds_auxTags (w : World) (ctx : BuildContext) (tags : List Tag) :
    Adds w ctx { ctx with vpnAuxTags := ctx.vpnAuxTags ++ tags } { aux := tags } :=
  { Adds.refl w ctx with vpnAuxTags := rfl }

theorem buildAuxGroups_ok (w : World) (groups : List AuxEndpointGroup) (suffix : Nat) (ctx : BuildContext)
    (h : (buildAuxGroups w groups suffix ctx).error = "") :
    ∃ chains : List BuiltChain, chains.map req = auxRequests groups suffix ∧ (∀ c ∈ chains, c.Ok w) ∧
      Adds w ctx (buildAuxGroups w groups suffix ctx) (partsOf chains ++ { aux := auxTags groups suffix }) := by
  induction groups generalizing suffix ctx with
  | nil => exact ⟨[], rfl, by simp, Adds.refl w ctx⟩
  | cons group groups ih =>
    rw [buildAuxGroups] at h ⊢
    split at h
    · rename_i hne
      exact absurd h hne
    rename_i hne
    rw [if_neg hne]
    rw [ne_eq, not_not] at hne
    obtain ⟨chains, hreq, hok, hadds⟩ := ih _ _ h
    obtain ⟨c, hc, hcok, hcadds⟩ := built_chain w _ _ hne
    refine ⟨c :: chains, by rw [map_cons, hc, hreq]; rfl, ?_, ?_⟩
    · intro d hd
      rcases mem_cons.mp hd with rfl | hd
      · exact hcok
      · exact hok d hd
    · have hall := hcadds.trans ((adds_auxTags w _ _).trans hadds)
      have hpart : partsOf (c :: chains) ++ { aux := auxTags (group :: groups) suffix } =
          c.part ++ (({ aux := (auxRequest group suffix).ingressTag :: auxInnerTags group suffix } : Part) ++
            (partsOf chains ++ { aux := auxTags groups (suffix + group.hopIDs.length) })) := by
        have haux : (partsOf chains).aux = [] := by
          rw [partsOf_field Part.aux rfl Part.aux_append]
          simp [part_aux]
        ext1 <;> simp [auxTags, part_aux, haux, auxRequest, ChainBuildRequest.ingressTag]
      rw [hpart]
      exact hall

def directOutbounds (l3Bridge : Bool) : List Outbound :=
  { tag := direct, source := .direct } :: if l3Bridge then [{ tag := l3Direct, source := .l3Bridge }] else []

/-- One object that no hop stands behind. -/
theorem adds_outbound (w : World) (ctx : BuildContext) (o : Outbound) :
    Adds w ctx (ctx.addOutbound o) { sing := [o] } := by
  rw [addOutbound_spec]
  exact {
    error := rfl
    ent := rfl
    outbounds := rfl
    endpoints := rfl
    xrayOutbounds := by simp
    xrayIngressTags := by simp
    singIngressTags := by simp
    singToXrayBridges := by simp
    xrayToSingBridges := by simp
    draws := .refl
    drawn := fun _ => Drawn.nil w _ _
    vpnEndpointTags := fun _ h => .inl h
    vpnGateTags := fun _ h => .inl h
    vpnAuxTags := by simp
    vpnKeys := fun h => h }

theorem adds_direct (w : World) (l3Bridge : Bool) (ctx : BuildContext) :
    Adds w ctx
      (if l3Bridge then
        (ctx.addOutbound { tag := direct, source := .direct }).addOutbound { tag := l3Direct, source := .l3Bridge }
      else ctx.addOutbound { tag := direct, source := .direct })
      { sing := directOutbounds l3Bridge } := by
  cases l3Bridge with
  | false =>
    rw [if_neg (by simp)]
    exact adds_outbound w ctx _
  | true =>
    rw [if_pos rfl]
    exact (adds_outbound w ctx _).trans (adds_outbound w _ _)

/-- The section of a started profile: its chain, those of the rules and those of the endpoints. -/
structure Sectioned (w : World) (deps : RoutingDeps) (main : BuiltChain) (routes auxes : List BuiltChain) : Prop where
  first : main.req.chain = mainChainPrefix ∧ main.req.warpWrap = w.settings.enableWarp ∧
    main.req.includeProxy = true ∧ main.req.startSuffix = 0 ∧ main.req.link = true ∧ main.req.given = false
  routeReqs : routes.map req = routeRequests deps.routeOutboundGroups 0
  auxReqs : auxes.map req = auxRequests deps.auxEndpointGroups 0
  ok : ∀ c ∈ main :: (routes ++ auxes), c.Ok w

theorem buildMain_ok {w : World} {group : Group} {ctx : BuildContext} (hsel : ctx.ent.type ≠ .autoselector)
    (h : (buildMain w group ctx).error = "") :
    ∃ c : BuiltChain, c.req = mainRequest w ctx.ent group ∧ c.Ok w ∧ Adds w ctx (buildMain w group ctx) c.part := by
  unfold buildMain at h ⊢
  rw [if_neg hsel] at h ⊢
  split at h
  · simp at h
  rename_i hcast
  rw [if_neg hcast]
  exact built_chain w _ _ h

/-- **What the section adds** for a profile that is no auto selector. -/
theorem buildOutboundsSection_ok {w : World} {deps : RoutingDeps} {l3Bridge : Bool} {ctx : BuildContext}
    (hsel : ctx.ent.type ≠ .autoselector) (h : (buildOutboundsSection w deps l3Bridge ctx).error = "") :
    ∃ group main routes auxes, w.group ctx.ent.gid = some group ∧ main.req = mainRequest w ctx.ent group ∧
      Sectioned w deps main routes auxes ∧
      Adds w ctx (buildOutboundsSection w deps l3Bridge ctx)
        (partsOf (main :: (routes ++ auxes)) ++
          { sing := directOutbounds l3Bridge, aux := auxTags deps.auxEndpointGroups 0 }) := by
  unfold buildOutboundsSection at h ⊢
  split at h
  · simp at h
  rename_i group hgroup
  rw [hgroup]
  dsimp only at h ⊢
  split at h
  · rename_i hstop
    exact absurd h hstop.2
  rename_i hstop
  rw [if_neg hstop]
  split at h
  · rename_i haux
    exact absurd h haux.2
  rename_i haux
  rw [if_neg haux]
  split at h
  · simp at h
  rename_i hmismatch
  rw [if_neg hmismatch]
  have hdirect := adds_direct w l3Bridge
    (buildAuxGroups w deps.auxEndpointGroups 0 (buildRouteGroups w deps.routeOutboundGroups 0 (buildMain w group ctx)))
  obtain ⟨auxes, hauxes, hauxok, hauxadds⟩ := buildAuxGroups_ok w _ _ _ (hdirect.error.symm.trans h)
  obtain ⟨routes, hroutes, hrouteok, hrouteadds⟩ :=
    buildRouteGroups_ok w _ _ _ (hauxadds.error.symm.trans (hdirect.error.symm.trans h))
  obtain ⟨main, hmain, hmainok, hmainadds⟩ :=
    buildMain_ok hsel (hrouteadds.error.symm.trans (hauxadds.error.symm.trans (hdirect.error.symm.trans h)))
  refine ⟨group, main, routes, auxes, rfl, hmain, ⟨?_, hroutes, hauxes, ?_⟩, ?_⟩
  · rw [hmain]
    exact ⟨rfl, rfl, rfl, rfl, rfl, rfl⟩
  · intro c hc
    rcases mem_cons.mp hc with rfl | hc
    · exact hmainok
    rcases mem_append.mp hc with hc | hc
    · exact hrouteok c hc
    · exact hauxok c hc
  · have hall := hmainadds.trans (hrouteadds.trans (hauxadds.trans hdirect))
    have hpart : partsOf (main :: (routes ++ auxes)) ++
        { sing := directOutbounds l3Bridge, aux := auxTags deps.auxEndpointGroups 0 } =
        main.part ++ (partsOf routes ++ ((partsOf auxes ++ { aux := auxTags deps.auxEndpointGroups 0 }) ++
          { sing := directOutbounds l3Bridge })) := by
      ext1 <;> simp [partsOf_append]
    rw [hpart]
    exact hall

/-! ## No tag twice -/

section
variable {w : World} {deps : RoutingDeps} {main : BuiltChain} {routes auxes : List BuiltChain}

theorem main_leading {ent : Profile} {group : Group} (hmain : main.req = mainRequest w ent group) (hok : main.Ok w)
    (hwarp : main.req.warpWrap = true) : main.split.leading ≠ [] := by
  rw [hmain] at hwarp
  have hids : ∃ rest, main.req.hopIDs = warpProfileID :: rest := by
    rw [hmain]
    have hon : w.settings.enableWarp = true := hwarp
    exact ⟨_, by simp [mainRequest, startHops, hon]; rfl⟩
  obtain ⟨rest, hids⟩ := hids
  have hscan := hok.scanned.hops
  rw [hids, map_cons] at hscan
  obtain ⟨first, ents, hents, hfirst, _⟩ := map_eq_cons_iff.mp hscan
  have hhop : w.hop warpProfileID = some w.settings.warp.profile := by simp [World.hop]
  rw [hhop, some.injEq] at hfirst
  refine hok.leading_ne (show main.scan.ents.head? = some first by rw [hents]; rfl) ?_
  rw [hfirst]
  rfl

variable (h : Sectioned w deps main routes auxes)

include h in
theorem Sectioned.main_singTag
    (hwarp : main.req.warpWrap = true → main.split.leading ≠ []) {tag : Tag}
    (ht : tag ∈ main.part.sing.map Outbound.tag) :
    tag = proxy ∨ tag = warpBypass ∨ ∃ i : Nat, tag = hopTag mainChainPrefix i := by
  rw [(h.ok main (.head _)).singTags hwarp] at ht
  obtain ⟨i, _, rfl⟩ := mem_map.mp ht
  rcases singTag_cases main.req.leadingOpts i with ⟨_, _, hi⟩ | ⟨_, _, hi⟩ | hi
  · exact .inr (.inl hi)
  · exact .inl hi
  refine .inr (.inr ⟨main.req.leadingOpts.startSuffix + i, ?_⟩)
  rw [hi]
  exact congrArg (fun chain => hopTag chain _) h.first.1

include h in
theorem Sectioned.main_xrayTag {tag : Tag}
    (ht : tag ∈ main.part.xray.map XrayOutbound.tag) :
    tag = proxy ∨ ∃ i : Nat, tag = hopTag mainChainPrefix i := by
  rw [main.xrayTags] at ht
  obtain ⟨i, _, rfl⟩ := mem_map.mp ht
  unfold HopChainOptions.xrayTag
  split
  · exact .inl rfl
  · exact .inr ⟨_, congrArg (fun chain => hopTag chain _) h.first.1⟩

theorem hopTag_ne_of_chain {p q : Tag} (hpq : p ≠ q) (i j : Nat) : hopTag p i ≠ hopTag q j :=
  fun h => hpq (hopTag_inj.mp h).1

include h

theorem Sectioned.ok_routes : ∀ c ∈ routes, c.Ok w :=
  fun c hc => h.ok c (.tail _ (mem_append_left _ hc))

theorem Sectioned.ok_auxes : ∀ c ∈ auxes, c.Ok w :=
  fun c hc => h.ok c (.tail _ (mem_append_right _ hc))

theorem Sectioned.rows :
    (∃ hi, Numbered (fun i => hopTag routeChainPrefix (i : Nat)) 0 hi ((partsOf routes).sing.map Outbound.tag) ∧
      Numbered (fun i => hopTag routeChainPrefix (i : Nat)) 0 hi ((partsOf routes).xray.map tag)) ∧
    ∃ hi, Numbered (fun i => hopTag auxEndpointPrefix (i : Nat)) 0 hi ((partsOf auxes).sing.map Outbound.tag) ∧
      Numbered (fun i => hopTag auxEndpointPrefix (i : Nat)) 0 hi ((partsOf auxes).xray.map tag) := by
  obtain ⟨hi, _, hroutes⟩ := (row_of_routeRequests h.routeReqs).numbered h.ok_routes
  obtain ⟨hi', _, hauxes⟩ := (row_of_auxRequests h.auxReqs).numbered h.ok_auxes
  exact ⟨⟨hi, hroutes⟩, hi', hauxes⟩

omit h

omit h in
/-- The hops of the rules and of the endpoints stay apart, and off the chain of the profile. -/
theorem hopRows_nodup {rows rows' : List Tag} {hi hi' : Nat}
    (hroutes : Numbered (fun i => hopTag routeChainPrefix (i : Nat)) 0 hi rows)
    (hauxes : Numbered (fun i => hopTag auxEndpointPrefix (i : Nat)) 0 hi' rows') :
    (rows ++ rows').Nodup ∧ ∀ t ∈ rows ++ rows', ∃ (chain : Tag) (i : Nat),
      chain ≠ mainChainPrefix ∧ t = hopTag chain i := by
  refine ⟨nodup_append.mpr ⟨hopTags_nodup hroutes, hopTags_nodup hauxes, ?_⟩, fun t ht => ?_⟩
  · rintro s hs t ht rfl
    obtain ⟨i, hi⟩ := hroutes.mem hs
    obtain ⟨j, hj⟩ := hauxes.mem ht
    exact hopTag_ne_of_chain (by decide) i j (hi.symm.trans hj)
  · rcases mem_append.mp ht with ht | ht
    · obtain ⟨i, hi⟩ := hroutes.mem ht
      exact ⟨_, i, by decide, hi⟩
    · obtain ⟨i, hi⟩ := hauxes.mem ht
      exact ⟨_, i, by decide, hi⟩

include h

/-- **No tag of sing-box is defined twice.** -/
theorem Sectioned.singTags_nodup
    (hwarp : main.req.warpWrap = true → main.split.leading ≠ []) (l3Bridge : Bool) :
    (((partsOf (main :: (routes ++ auxes))).sing ++ directOutbounds l3Bridge).map Outbound.tag).Nodup := by
  obtain ⟨⟨_, hroutes, _⟩, _, hauxes, _⟩ := h.rows
  have hmain := (h.ok main (.head _)).singTags_nodup hwarp
  have hdirect : ((directOutbounds l3Bridge).map Outbound.tag).Nodup := by cases l3Bridge <;> decide
  have hfixed {tag : Tag} (ht : tag ∈ (directOutbounds l3Bridge).map Outbound.tag) :
      tag = direct ∨ tag = l3Direct := by
    cases l3Bridge <;> simp [directOutbounds] at ht
    · exact .inl ht
    · exact ht
  rw [partsOf_cons, partsOf_append, Part.sing_append, Part.sing_append]
  simp only [map_append]
  obtain ⟨hnodup, hrow⟩ := hopRows_nodup hroutes hauxes
  rw [nodup_append, nodup_append]
  refine ⟨⟨hmain, hnodup, ?_⟩, hdirect, ?_⟩
  · rintro s hs t ht rfl
    obtain ⟨chain, i, hchain, rfl⟩ := hrow s ht
    rcases h.main_singTag hwarp hs with hs | hs | ⟨j, hs⟩
    · exact hopTag_ne_proxy chain i hs
    · exact hopTag_ne_warpBypass chain i hs
    · exact hopTag_ne_of_chain hchain i j hs
  · rintro s hs t ht rfl
    have hhop : s = proxy ∨ s = warpBypass ∨ ∃ (chain : Tag) (i : Nat), s = hopTag chain i := by
      rcases mem_append.mp hs with hs | hs
      · rcases h.main_singTag hwarp hs with hs | hs | ⟨j, hs⟩
        · exact .inl hs
        · exact .inr (.inl hs)
        · exact .inr (.inr ⟨_, j, hs⟩)
      obtain ⟨chain, i, _, hs⟩ := hrow s hs
      exact .inr (.inr ⟨chain, i, hs⟩)
    rcases hfixed ht with hd | hd <;> rcases hhop with hs | hs | ⟨chain, i, hs⟩ <;> rw [hd] at hs
    · exact absurd hs (by decide)
    · exact absurd hs (by decide)
    · exact hopTag_ne_direct chain i hs.symm
    · exact absurd hs (by decide)
    · exact absurd hs (by decide)
    · exact hopTag_ne_l3Direct chain i hs.symm

/-- **No tag of Xray is defined twice.** -/
theorem Sectioned.xrayTags_nodup :
    ((partsOf (main :: (routes ++ auxes))).xray.map tag).Nodup := by
  obtain ⟨⟨_, _, hroutes⟩, _, _, hauxes⟩ := h.rows
  rw [partsOf_cons, partsOf_append, Part.xray_append, Part.xray_append]
  simp only [map_append]
  obtain ⟨hnodup, hrow⟩ := hopRows_nodup hroutes hauxes
  rw [nodup_append]
  refine ⟨main.xrayTags_nodup, hnodup, ?_⟩
  · rintro s hs t ht rfl
    obtain ⟨chain, i, hchain, rfl⟩ := hrow s ht
    rcases h.main_xrayTag hs with hs | ⟨j, hs⟩
    · exact hopTag_ne_proxy chain i hs
    · exact hopTag_ne_of_chain hchain i j hs

end

/-! ## Following the section -/

/-- Custom JSON brings no link of its own. -/
def World.PlainLinks (w : World) : Prop := ∀ id p, w.profile id = some p → p.detour = none ∧ p.dialerProxy = none

/-- No sing-box hop behind an Xray hop. -/
def StaysInXray (hops : List Profile) : Prop := hops.Pairwise (fun a b => a.isXray = true → b.isXray = true)

instance (hops : List Profile) : Decidable (StaysInXray hops) := by
  unfold StaysInXray
  infer_instance

section
variable {w : World} {deps : RoutingDeps} {main : BuiltChain} {routes auxes : List BuiltChain}

variable {c : BuiltChain}

theorem BuiltChain.Ok.shape (h : c.Ok w) (hjson : w.PlainLinks)
    (hlink : c.req.link = true ∨ c.req.hopIDs.length ≤ 1) : ChainShape c.req c.split c.toXray c.toSing where
  toXray := h.toXray_iff
  toSing := h.toSing_iff
  tailing := h.xray_of_tailing
  link := by rwa [h.length]
  own p hp := by
    have hmem : some p ∈ c.req.hopIDs.map w.hop := by
      rw [← h.hops_some]
      exact mem_map_of_mem hp
    obtain ⟨id, _, hid⟩ := mem_map.mp hmem
    unfold World.hop at hid
    split at hid
    · cases hid
      exact ⟨rfl, rfl⟩
    · exact hjson id p hid

theorem BuiltChain.Ok.tailing_eq_nil (h : c.Ok w) (hstays : StaysInXray c.split.all) :
    c.split.tailing = [] := by
  by_contra ht
  obtain ⟨p, hp⟩ := exists_mem_of_ne_nil _ ht
  obtain ⟨x, hx⟩ := exists_mem_of_ne_nil _ (h.xray_of_tailing ht)
  obtain ⟨_, hxray, htail⟩ := splitHops_isXray c.scan.ents
  have := (pairwise_append.mp hstays).2.2 x (mem_append_right _ hx) p hp (hxray x hx)
  rw [htail p hp] at this
  cases this

/-- Each chain of the rules and of the endpoints is linked where it has more than one hop. -/
theorem Sectioned.linked (h : Sectioned w deps main routes auxes)
    (hc : c ∈ main :: (routes ++ auxes)) : c.req.link = true ∨ c.req.hopIDs.length ≤ 1 := by
  have hroute (groups : List (List Int)) (n : Nat) (req : ChainBuildRequest) (hreq : req ∈ routeRequests groups n) :
      req.link = true ∨ req.hopIDs.length ≤ 1 := by
    induction groups generalizing n with
    | nil => cases hreq
    | cons hopIDs groups ih =>
      rcases mem_cons.mp hreq with rfl | hreq
      · by_cases hlen : 1 < hopIDs.length
        · exact .inl (decide_eq_true hlen)
        · exact .inr (Nat.le_of_not_lt hlen)
      · exact ih _ hreq
  have haux (groups : List AuxEndpointGroup) (n : Nat) (req : ChainBuildRequest) (hreq : req ∈ auxRequests groups n) :
      req.link = true ∨ req.hopIDs.length ≤ 1 := by
    induction groups generalizing n with
    | nil => cases hreq
    | cons group groups ih =>
      rcases mem_cons.mp hreq with rfl | hreq
      · by_cases hlen : 1 < group.hopIDs.length
        · exact .inl (decide_eq_true hlen)
        · exact .inr (Nat.le_of_not_lt hlen)
      · exact ih _ hreq
  rcases mem_cons.mp hc with rfl | hc
  · exact .inl h.first.2.2.2.2.1
  rcases mem_append.mp hc with hc | hc
  · exact hroute _ _ _ (h.routeReqs ▸ mem_map_of_mem hc)
  · exact haux _ _ _ (h.auxReqs ▸ mem_map_of_mem hc)

theorem Sectioned.plain (h : Sectioned w deps main routes auxes) (hc : c ∈ routes ++ auxes) :
    c.req.warpWrap = false ∧ c.req.given = false := by
  have hrow {chain : Tag} {n : Nat} {chains : List BuiltChain} (hr : Row chain n chains) (hmem : c ∈ chains) :
      c.req.warpWrap = false ∧ c.req.given = false := by
    induction chains generalizing n with
    | nil => cases hmem
    | cons d rest ih =>
      rcases mem_cons.mp hmem with rfl | hmem
      · exact ⟨hr.1.2.2.1, hr.1.2.2.2.2⟩
      · exact ih hr.2 hmem
  rcases mem_append.mp hc with hc | hc
  · exact hrow (row_of_routeRequests h.routeReqs) hc
  · exact hrow (row_of_auxRequests h.auxReqs) hc

end

/-- What is known of a configuration that was built. -/
structure Assembled (w : World) (ent : Profile) (routeId : Int) (r : BuildResult) (profile : RouteProfile)
    (deps : RoutingDeps) (group : Group) (main : BuiltChain) (routes auxes : List BuiltChain) (ctx : BuildContext) :
    Prop where
  route : w.route routeId = some profile
  prepared : Prepared w profile deps
  inGroup : w.group ent.gid = some group
  first : main.req = mainRequest w ent group
  chains : Sectioned w deps main routes auxes
  adds : Adds w { ent := ent } ctx (partsOf (main :: (routes ++ auxes)) ++
    { sing := directOutbounds (l3BridgeEnabled w profile), aux := auxTags deps.auxEndpointGroups 0 })
  routed : buildRouteSection w ctx profile deps (l3BridgeEnabled w profile) = .ok r.route
  cores : r.cores = coreConfigs ctx r.route
  outboundMap : r.outboundMap = deps.outboundMap
  drawn : r.drawnPorts = ctx.drawnPorts
  dns : r.dns = buildDNSSection w ctx profile ((if profile.customDns then profile.dns else none).getD w.settings.dns)
    (if profile.customDns then profile.dns else none).isSome

theorem buildSingBoxConfig_ok {w : World} {ent : Profile} {routeId : Int} {r : BuildResult}
    (hsel : ent.type ≠ .autoselector) (h : buildSingBoxConfig w ent routeId = .ok (.built r)) :
    ∃ profile deps group main routes auxes ctx,
      Assembled w ent routeId r profile deps group main routes auxes ctx := by
  unfold buildSingBoxConfig at h
  split at h
  · cases h
  split at h
  · cases h
  rename_i profile deps hpre
  obtain ⟨hroute, hprepared⟩ := calculatePrerequisites_ok hpre
  dsimp only at h
  split at h
  · cases h
  rename_i herror
  rw [ne_eq, not_not] at herror
  split at h
  · cases h
  rename_i route hrouted
  split at h
  · cases h
  simp only [Except.ok.injEq, Built.built.injEq] at h
  obtain ⟨group, main, routes, auxes, hgroup, hmain, hchains, hadds⟩ := buildOutboundsSection_ok hsel herror
  subst h
  exact ⟨profile, deps, group, main, routes, auxes, _, hroute, hprepared, hgroup, hmain, hchains, hadds, hrouted, rfl,
    rfl, rfl, rfl⟩

section
variable {w : World} {ent : Profile} {routeId : Int} {r : BuildResult} {profile : RouteProfile} {deps : RoutingDeps}
  {group : Group} {main : BuiltChain} {routes auxes : List BuiltChain} {ctx : BuildContext}

namespace Assembled

variable (h : Assembled w ent routeId r profile deps group main routes auxes ctx)

include h

theorem leading
    (hwarp : main.req.warpWrap = true) : main.split.leading ≠ [] :=
  main_leading h.first (h.chains.ok main (.head _)) hwarp

variable {c : BuiltChain}

theorem warp
    (hc : c ∈ main :: (routes ++ auxes)) (hwarp : c.req.warpWrap = true) : c.split.leading ≠ [] := by
  rcases mem_cons.mp hc with rfl | hc
  · exact h.leading hwarp
  · rw [(h.chains.plain hc).1] at hwarp
    cases hwarp

/-- The ports of the bridges are all different. -/
theorem ports_nodup (hfresh : FreshPorts w r.drawnPorts) :
    (((partsOf (main :: (routes ++ auxes))).toXray ++ (partsOf (main :: (routes ++ auxes))).toSing).map
      Bridge.port).Nodup := by
  have hgiven : (partsOf (main :: (routes ++ auxes))).given = false := by
    refine partsOf_given fun c hc => ?_
    rcases mem_cons.mp hc with rfl | hc
    · exact h.chains.first.2.2.2.2.2
    · exact (h.chains.plain hc).2
  have hnodup := (h.adds.drawn (by rw [Part.given_append, hgiven]; rfl)).nodup (le_of_eq h.drawn.symm) hfresh
  simpa using hnodup

theorem outbounds_perm :
    (r.cores.outbounds ++ r.cores.endpoints).Perm
      ((partsOf (main :: (routes ++ auxes))).sing ++ directOutbounds (l3BridgeEnabled w profile)) := by
  rw [h.cores]
  show (ctx.outbounds ++ ctx.endpoints).Perm _
  rw [h.adds.outbounds, h.adds.endpoints, nil_append, nil_append]
  refine perm_append_comm.trans ?_
  exact filter_append_perm _ _

theorem carries :
    Carries r.cores (main :: (routes ++ auxes)) (directOutbounds (l3BridgeEnabled w profile)) := by
  have hxray : ctx.xrayOutbounds = (partsOf (main :: (routes ++ auxes))).xray := by
    rw [h.adds.xrayOutbounds]
    simp
  have hingress : ctx.xrayIngressTags = (partsOf (main :: (routes ++ auxes))).xrayIngress := by
    rw [h.adds.xrayIngressTags]
    simp
  have hbridges : ctx.singToXrayBridges = (partsOf (main :: (routes ++ auxes))).toXray := by
    rw [h.adds.singToXrayBridges]
    simp
  have hnone (hnil : ctx.xrayOutbounds = []) : (partsOf (main :: (routes ++ auxes))).xrayIngress = [] :=
    partsOf_xrayIngress_nil (hxray ▸ hnil)
  refine ⟨h.outbounds_perm, ?_, ?_, ?_, ?_⟩
  · rw [h.cores, ← hxray]
    rfl
  · rw [h.cores, ← hbridges]
    by_cases hnil : ctx.xrayOutbounds = []
    · rw [hnone hnil]
      exact if_pos hnil
    · rw [← hingress]
      exact if_neg hnil
  · rw [h.cores]
    by_cases hnil : ctx.xrayOutbounds = []
    · rw [hnone hnil]
      exact if_pos hnil
    · rw [← hingress]
      exact if_neg hnil
  · rw [h.cores]
    show Config.bridgeInbounds ctx = _
    rw [Config.bridgeInbounds, h.adds.singIngressTags, h.adds.xrayToSingBridges]
    simp

theorem rules
    (hverbatim : profile.verbatim = false) :
    ∃ more, r.cores.rules = (partsOf (main :: (routes ++ auxes))).singIngress.map bridgeRule ++ more := by
  have hbridge : bridgeRules ctx = (partsOf (main :: (routes ++ auxes))).singIngress.map bridgeRule := by
    have hingress : ctx.singIngressTags = (partsOf (main :: (routes ++ auxes))).singIngress := by
      rw [h.adds.singIngressTags]
      simp
    have hbridges : ctx.xrayToSingBridges = (partsOf (main :: (routes ++ auxes))).toSing := by
      rw [h.adds.xrayToSingBridges]
      simp
    rw [bridgeRules, hingress, hbridges, map_fst_zip (partsOf_singIngress_length h.chains.ok).le]
    rfl
  have hrouted := h.routed
  unfold buildRouteSection at hrouted
  split at hrouted
  · cases hrouted
  rw [hverbatim] at hrouted
  simp only [Bool.false_eq_true, if_false] at hrouted
  split at hrouted
  · cases hrouted
  simp only [Except.ok.injEq] at hrouted
  rw [h.cores]
  show ∃ more, r.route.rules = _ ++ more
  rw [← hrouted]
  simp only [leadingRules, hbridge, append_assoc]
  exact ⟨_, rfl⟩

theorem own {before after : List BuiltChain} (hc : main :: (routes ++ auxes) = before ++ c :: after) :
    Own (before ++ after) (directOutbounds (l3BridgeEnabled w profile)) c := by
  have hsing := h.chains.singTags_nodup h.leading (l3BridgeEnabled w profile)
  have hxray := h.chains.xrayTags_nodup
  have hmem : c ∈ main :: (routes ++ auxes) := by
    rw [hc]
    simp
  rw [hc] at hsing hxray
  exact Own.of_nodup (h.warp hmem) hsing hxray

/-- **Each chain of the section is followed from its first tag through its hops to the end.** -/
theorem visits (hjson : w.PlainLinks)
    (hfresh : FreshPorts w r.drawnPorts) (hc : c ∈ main :: (routes ++ auxes))
    (hne : c.req.hopIDs ≠ []) (hwarp : c.req.warpWrap = true → 2 ≤ c.req.hopIDs.length)
    (hverbatim : profile.verbatim = true → StaysInXray c.split.all) :
    Visits r.cores (.sing c.req.ingressTag) c.split.all := by
  have hcok := h.chains.ok c hc
  have hfound : ChainFound r.cores c.req c.split c.toXray c.toSing := by
    obtain ⟨before, after, hsplit⟩ := append_of_mem hc
    have hok := h.chains.ok
    have hcarries := h.carries
    have hports := h.ports_nodup hfresh
    rw [hsplit] at hok hcarries hports
    exact (h.own hsplit).found hok hcarries hports
  refine hfound.visits (hcok.shape hjson (h.chains.linked hc)) ?_ (by rwa [hcok.length]) ?_
  · intro hnil
    have := hcok.length
    rw [hnil] at this
    exact hne (length_eq_zero_iff.mp this.symm)
  · intro b hb
    by_cases hv : profile.verbatim = true
    · have := hcok.toSing_iff.mp (by rw [hb]; rfl)
      exact absurd (hcok.tailing_eq_nil (hverbatim hv)) this
    obtain ⟨more, hmore⟩ := h.rules (by simpa using hv)
    rw [via_toSing h.chains.ok h.carries (h.ports_nodup hfresh) hc hb]
    exact intoSing_tail h.chains.ok hmore hc hb

end Assembled

/-! ## A started profile -/

/-- From a tag the way goes through the hops of these ids and ends.  A verbatim routing profile has no rules for the
bridges, so there the hops must not come back from Xray. -/
def Serves (w : World) (r : BuildResult) (profile : RouteProfile) (tag : Tag) (ids : List Int) : Prop :=
  ∃ hops : List Profile, hops.map some = ids.map w.hop ∧
    ((profile.verbatim = true → StaysInXray hops) → Visits r.cores (.sing tag) hops)

theorem singIngress_sublist (c : BuiltChain) : c.part.singIngress.Sublist (c.part.sing.map Outbound.tag) := by
  have hmem {tag : Tag} (ht : tag ∈ c.part.singIngress) := singIngress_mem ht
  rw [c.part_singIngress] at hmem ⊢
  split
  · exact nil_sublist _
  rename_i hne
  rw [if_neg hne] at hmem
  exact singleton_sublist.mpr (hmem (mem_singleton_self _))

theorem xrayIngress_sublist (c : BuiltChain) : c.part.xrayIngress.Sublist (c.part.xray.map tag) := by
  have hmem {tag : Tag} (ht : tag ∈ c.part.xrayIngress) := xrayIngress_mem ht
  rw [c.part_xrayIngress] at hmem ⊢
  split
  · exact nil_sublist _
  rename_i hne
  rw [if_neg hne] at hmem
  exact singleton_sublist.mpr (hmem (mem_singleton_self _))

variable (h : Assembled w ent routeId r profile deps group main routes auxes ctx)

namespace Assembled

include h

variable (hjson : w.PlainLinks)

include hjson

variable (hfresh : FreshPorts w r.drawnPorts)

include hfresh

theorem serves {c : BuiltChain} (hc : c ∈ main :: (routes ++ auxes))
    (hne : c.req.hopIDs ≠ []) (hwarp : c.req.warpWrap = true → 2 ≤ c.req.hopIDs.length) :
    Serves w r profile c.req.ingressTag c.req.hopIDs :=
  ⟨c.split.all, (h.chains.ok c hc).hops_some, h.visits hjson hfresh hc hne hwarp⟩

theorem serves_route {id : Int} (hid : id ∈ profile.getUsedOutbounds) (hpos : 0 ≤ id) :
    ∃ tag, r.outboundMap.tag id = some tag ∧ Serves w r profile tag (unwrapChain w id) := by
  obtain ⟨before, after, hgroups, hne, htag⟩ := h.prepared.routes id hid hpos
  have hreqs := h.chains.routeReqs
  rw [hgroups, routeRequests_append, routeRequests, zero_add] at hreqs
  have hmem : routeRequest (unwrapChain w id) (hopSum before) ∈ routes.map req := by
    rw [hreqs]
    simp
  obtain ⟨c, hc, hreq⟩ := mem_map.mp hmem
  have hserves := h.serves hjson hfresh (c := c) (.tail _ (mem_append_left _ hc))
    (by rw [hreq]; exact hne) (by rw [hreq]; intro hw; cases hw)
  rw [hreq] at hserves
  exact ⟨_, by rw [h.outboundMap, htag]; rfl, hserves⟩

theorem serves_endpoint {id : Int} (hid : id ∈ profile.endpointProfileIDs) :
    ∃ tag, r.outboundMap.tag id = some tag ∧ Serves w r profile tag (unwrapChain w id) := by
  obtain ⟨before, after, hgroups, hne, htag⟩ := h.prepared.endpoints id hid
  obtain ⟨gs, gs', hsplit, hgs, hgs'⟩ := map_eq_append_iff.mp hgroups
  obtain ⟨g, rest, rfl, hg, _⟩ := map_eq_cons_iff.mp hgs'
  have hreqs := h.chains.auxReqs
  rw [hsplit, auxRequests_append, auxRequests, zero_add, hgs] at hreqs
  have hmem : auxRequest g (hopSum before) ∈ auxes.map req := by
    rw [hreqs]
    simp
  obtain ⟨c, hc, hreq⟩ := mem_map.mp hmem
  have hids : c.req.hopIDs = unwrapChain w id := by
    rw [hreq, ← hg]
    rfl
  have hserves := h.serves hjson hfresh (c := c) (.tail _ (mem_append_right _ hc))
    (by rw [hids]; exact hne) (by rw [hreq]; intro hw; cases hw)
  rw [hids, hreq] at hserves
  exact ⟨_, by rw [h.outboundMap, htag]; rfl, hserves⟩

/-- The tag `proxy` leads through the hops of the started profile, where WARP is not the only one. -/
theorem serves_proxy
    (hne : (if w.settings.enableWarp then 1 else 0) < (startHops w ent group).length) :
    Serves w r profile proxy (startHops w ent group) := by
  have hids : main.req.hopIDs = startHops w ent group := by rw [h.first]; rfl
  have hingress : main.req.ingressTag = proxy := by rw [h.first]; rfl
  have hserves := h.serves hjson hfresh (c := main) (.head _) ?_ ?_
  · rwa [hids, hingress] at hserves
  · intro hnil
    rw [← hids, hnil] at hne
    simp at hne
  intro hw
  rw [h.chains.first.2.1] at hw
  rw [hw] at hne
  rw [hids]
  exact hne

omit hfresh

omit hjson

theorem tags_nodup :
    ((r.cores.outbounds ++ r.cores.endpoints).map Outbound.tag).Nodup ∧
      (r.cores.xrayOutbounds.map tag).Nodup := by
  constructor
  · rw [(h.outbounds_perm.map Outbound.tag).nodup_iff]
    exact h.chains.singTags_nodup h.leading _
  · rw [h.carries.xray]
    exact h.chains.xrayTags_nodup

theorem inbounds_nodup :
    (r.cores.bridgeInbounds.map fst).Nodup ∧ (r.cores.xrayInbounds.map fst).Nodup := by
  constructor
  · have hsing := h.chains.singTags_nodup h.leading (l3BridgeEnabled w profile)
    rw [map_append, partsOf_sing, map_flatMap] at hsing
    have hingress : (partsOf (main :: (routes ++ auxes))).singIngress.Nodup := by
      rw [partsOf_singIngress]
      exact (nodup_append.mp hsing).1.sublist (Sublist.flatMap_right _ (fun c _ => singIngress_sublist c))
    rw [h.carries.bridgeInbounds, List.map_map]
    have hfst : (fst ∘ fun pair : Tag × Bridge => (bridgeTagFor pair.1, pair.2)) = bridgeTagFor ∘ fst := rfl
    rw [hfst, ← List.map_map, List.map_fst_zip (partsOf_singIngress_length h.chains.ok).le]
    exact hingress.map (fun _ _ heq => bridgeTagFor_inj.mp heq)
  · have hxray := h.chains.xrayTags_nodup
    rw [partsOf_xray, map_flatMap] at hxray
    have hingress : (partsOf (main :: (routes ++ auxes))).xrayIngress.Nodup := by
      rw [partsOf_xrayIngress]
      exact hxray.sublist (Sublist.flatMap_right _ (fun c _ => xrayIngress_sublist c))
    rw [h.carries.xrayInbounds, List.map_map]
    have hfst : (fst ∘ fun pair : Tag × Bridge => (xrayInboundTag pair.1, pair.2)) = xrayInboundTag ∘ fst :=
      rfl
    rw [hfst, ← List.map_map, List.map_fst_zip (partsOf_xrayIngress_length h.chains.ok).le]
    exact hingress.map (fun _ _ heq => xrayInboundTag_inj.mp heq)

end Assembled

end

/-- **The tags of a configuration lead through the hops they stand for.**  `proxy` leads through WARP, the landing
proxy, the profile's hops and the front proxy, and the tag of each outbound of the rules and of each endpoint through
its own hops; no tag is defined twice. -/
theorem buildSingBoxConfig_serves {w : World} {ent : Profile} {routeId : Int} {r : BuildResult} {profile : RouteProfile}
    {group : Group} (h : buildSingBoxConfig w ent routeId = .ok (.built r)) (hsel : ent.type ≠ .autoselector)
    (hroute : w.route routeId = some profile) (hgroup : w.group ent.gid = some group) (hjson : w.PlainLinks)
    (hfresh : FreshPorts w r.drawnPorts) :
    ((if w.settings.enableWarp then 1 else 0) < (startHops w ent group).length →
        Serves w r profile proxy (startHops w ent group)) ∧
      (∀ id, id ∈ profile.getUsedOutbounds ∧ 0 ≤ id ∨ id ∈ profile.endpointProfileIDs →
        ∃ tag, r.outboundMap.tag id = some tag ∧ Serves w r profile tag (unwrapChain w id)) ∧
      (((r.cores.outbounds ++ r.cores.endpoints).map Outbound.tag).Nodup ∧
        (r.cores.xrayOutbounds.map tag).Nodup) ∧
      (r.cores.bridgeInbounds.map fst).Nodup ∧ (r.cores.xrayInbounds.map fst).Nodup := by
  obtain ⟨profile', deps, group', main, routes, auxes, ctx, hbuilt⟩ := buildSingBoxConfig_ok hsel h
  have hprofile : profile' = profile := some.inj (hbuilt.route.symm.trans hroute)
  have hgroup' : group' = group := some.inj (hbuilt.inGroup.symm.trans hgroup)
  subst hprofile hgroup'
  refine ⟨fun hne => hbuilt.serves_proxy hjson hfresh hne, ?_, hbuilt.tags_nodup, hbuilt.inbounds_nodup⟩
  rintro id (⟨hid, hpos⟩ | hid)
  · exact hbuilt.serves_route hjson hfresh hid hpos
  · exact hbuilt.serves_endpoint hjson hfresh hid

/-- A chain whose Xray hop has a sing-box hop behind it, and a raw routing profile. -/
def backWorld (preventModifications : Bool) : World where
  profile id :=
    if id = 1 then some { id := 1 }
    else if id = 2 then some { id := 2, isXray := true }
    else if id = 3 then some { id := 3, type := .chain, chain := some [1, 2] }
    else none
  group _ := some { id := 0 }
  route _ :=
    some
      { isRaw := true
        rawRoute := .obj [("final", .str "direct")]
        preventModifications := preventModifications }
  port n := 1000 + n
  randomString n := hopTag "secret" n

def backChain : Profile := { id := 3, type := .chain, chain := some [1, 2] }

theorem backWorld_fresh (b : Bool) (n : Nat) : FreshPorts (backWorld b) n := by
  intro i j hij _ _ heq
  have hport : (1000 : Int) + i = 1000 + j := heq
  omega

theorem backWorld_plainLinks (b : Bool) : (backWorld b).PlainLinks := by
  intro id p hp
  dsimp only [backWorld] at hp
  split at hp
  · cases hp
    exact ⟨rfl, rfl⟩
  split at hp
  · cases hp
    exact ⟨rfl, rfl⟩
  split at hp
  · cases hp
    exact ⟨rfl, rfl⟩
  · cases hp

theorem buildSingBoxConfig_serves_back :
    ∃ r, buildSingBoxConfig (backWorld false) backChain 0 = .ok (.built r) ∧
      ∃ hops, hops.map Profile.id = [2, 1] ∧ Visits r.cores (.sing proxy) hops := by
  obtain ⟨r, hr⟩ : ∃ r, buildSingBoxConfig (backWorld false) backChain 0 = .ok (.built r) := ⟨_, rfl⟩
  refine ⟨r, hr, ?_⟩
  have hserves := buildSingBoxConfig_serves hr (by decide) rfl rfl (backWorld_plainLinks false)
    (backWorld_fresh false r.drawnPorts)
  obtain ⟨hops, hids, hvisits⟩ := hserves.1 (by decide)
  have hhops : hops.map some = [some { id := 2, isXray := true }, some { id := 1 }] := hids
  have : hops = [{ id := 2, isXray := true }, { id := 1 }] := by
    have := congrArg (filterMap id) hhops
    simpa using this
  refine ⟨hops, by rw [this]; rfl, hvisits (by intro hv; cases hv)⟩

def Built.cores : Except String Built → Option CoreConfigs
  | .ok (.built r) => some r.cores
  | _ => none

/-- A verbatim routing profile sends the traffic of the bridge back to its own `final`: the way leaves the chain. -/
theorem verbatim_leaves_chain :
    ∃ r, buildSingBoxConfig (backWorld true) backChain 0 = .ok (.built r) ∧ (backWorld true).PlainLinks ∧
      FreshPorts (backWorld true) r.drawnPorts ∧
      ∀ hops, hops.map some = (startHops (backWorld true) backChain { id := 0 }).map (backWorld true).hop →
        ¬ Visits r.cores (.sing proxy) hops := by
  obtain ⟨r, hr⟩ : ∃ r, buildSingBoxConfig (backWorld true) backChain 0 = .ok (.built r) := ⟨_, rfl⟩
  refine ⟨r, hr, backWorld_plainLinks true, backWorld_fresh true _, ?_⟩
  have hat {α : Type} (f : CoreConfigs → α) {x : α}
      (h : (Built.cores (buildSingBoxConfig (backWorld true) backChain 0)).map f = some x) : f r.cores = x := by
    rw [hr] at h
    exact some.inj h
  have hin : r.cores.next (.sing "proxy") = .goes (.xray "proxy") := hat (·.next (.sing "proxy")) (by decide)
  have hback : r.cores.next (.xray "proxy") = .goes (.xray "config-1") := hat (·.next (.xray "proxy")) (by decide)
  have hout : r.cores.next (.xray "config-1") = .goes (.sing "direct") := hat (·.next (.xray "config-1")) (by decide)
  have hend : r.cores.next (.sing "direct") = .ends := hat (·.next (.sing "direct")) (by decide)
  have hshown : r.cores.shows (.sing "proxy") ++ (r.cores.shows (.xray "proxy") ++
      (r.cores.shows (.xray "config-1") ++ r.cores.shows (.sing "direct"))) = [{ id := 2, isXray := true }] :=
    hat (fun cfg => cfg.shows (.sing "proxy") ++ (cfg.shows (.xray "proxy") ++
      (cfg.shows (.xray "config-1") ++ cfg.shows (.sing "direct")))) (by decide)
  have hway : Visits r.cores (.sing proxy) [{ id := 2, isXray := true }] := by
    rw [← hshown]
    exact Walk.goes hin (Walk.goes hback (Walk.goes hout (Walk.ends hend)))
  intro hops hids hvisits
  have hlen := congrArg length hids
  rw [hway.unique hvisits |>.symm] at hlen
  cases hlen

end Waterdisco.Config
