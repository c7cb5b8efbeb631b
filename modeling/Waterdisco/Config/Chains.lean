import Waterdisco.Config.ChainTags

/-!
# Several chains in one configuration

The chains of a build stand in one configuration, and a tag or a bridge is looked up
among all of them.  A chain whose tags and bridges no other chain has (`Own`) is found
under its tags, and the inbound of its bridge leads to its own Xray hops.

    Carries cfg (before ++ c :: after) extra → Own … c → ChainFound cfg c     (Own.found)
    chains that are counted one after the other have ascending tags           (Row.numbered)
-/

namespace Waterdisco.Config

open Route CoreConfigs List Prod HopChainOptions ChainBuildRequest BuiltChain XrayOutbound

/-! ## What chains add -/

def partsOf (chains : List BuiltChain) : Part := chains.foldr (fun c rest => c.part ++ rest) {}

@[simp] theorem partsOf_nil : partsOf [] = {} := rfl

@[simp] theorem partsOf_cons (c : BuiltChain) (chains : List BuiltChain) :
    partsOf (c :: chains) = c.part ++ partsOf chains :=
  rfl

theorem partsOf_field {α : Type} (field : Part → List α) (hnil : field {} = [])
    (happend : ∀ p q, field (p ++ q) = field p ++ field q) (chains : List BuiltChain) :
    field (partsOf chains) = chains.flatMap (fun c => field c.part) := by
  induction chains with
  | nil => exact hnil
  | cons c chains ih => rw [partsOf_cons, happend, ih, flatMap_cons]

section
variable (chains : List BuiltChain)

theorem partsOf_sing : (partsOf chains).sing = chains.flatMap (fun c => c.part.sing) :=
  partsOf_field Part.sing rfl Part.sing_append chains

theorem partsOf_xray : (partsOf chains).xray = chains.flatMap (fun c => c.part.xray) :=
  partsOf_field Part.xray rfl Part.xray_append chains

theorem partsOf_xrayIngress : (partsOf chains).xrayIngress = chains.flatMap (fun c => c.part.xrayIngress) :=
  partsOf_field Part.xrayIngress rfl Part.xrayIngress_append chains

theorem partsOf_singIngress : (partsOf chains).singIngress = chains.flatMap (fun c => c.part.singIngress) :=
  partsOf_field Part.singIngress rfl Part.singIngress_append chains

theorem partsOf_toXray : (partsOf chains).toXray = chains.flatMap (fun c => c.part.toXray) :=
  partsOf_field Part.toXray rfl Part.toXray_append chains

theorem partsOf_toSing : (partsOf chains).toSing = chains.flatMap (fun c => c.part.toSing) :=
  partsOf_field Part.toSing rfl Part.toSing_append chains

end

/-! ## The lists of one chain -/

namespace BuiltChain

variable {w : World} (c : BuiltChain)

theorem part_sing : c.part.sing = c.req.leadingOpts.singOutbounds 0 (initialEnts c.split c.toXray) ++
    (c.req.tailingOpts (initialEnts c.split c.toXray).length).singOutbounds 0 (c.split.tailing.map Ent.profile) := by
  unfold part ChainBuildRequest.part
  by_cases hx : c.split.xray = [] <;> simp [hx, singPart, xrayPart]

theorem part_xrayIngress :
    c.part.xrayIngress = if c.split.xray = [] then [] else [c.req.leadingOpts.xrayTag 0] := by
  unfold part ChainBuildRequest.part
  by_cases hx : c.split.xray = [] <;> simp [hx, singPart, xrayPart]

theorem part_singIngress : c.part.singIngress =
    if c.split.tailing = [] then [] else [(c.req.tailingOpts (initialEnts c.split c.toXray).length).singTag 0] := by
  unfold part ChainBuildRequest.part
  by_cases hx : c.split.xray = [] <;> by_cases ht : c.split.tailing = [] <;>
    simp [hx, ht, singPart, xrayPart, leadingOpts,
      tailingOpts]

theorem part_toXray : c.part.toXray = c.toXray.toList := by
  unfold part ChainBuildRequest.part
  by_cases hx : c.split.xray = [] <;> simp [hx, singPart, xrayPart]

theorem part_toSing : c.part.toSing = c.toSing.toList := by
  unfold part ChainBuildRequest.part
  by_cases hx : c.split.xray = [] <;> simp [hx, singPart, xrayPart]

theorem part_aux : c.part.aux = [] := by
  unfold part ChainBuildRequest.part
  by_cases hx : c.split.xray = [] <;> simp [hx, singPart, xrayPart]

theorem part_given : c.part.given = c.req.given := by
  unfold part ChainBuildRequest.part
  by_cases hx : c.split.xray = [] <;> simp [hx, singPart, xrayPart]

variable {c}

/-- A chain with a bridge to Xray has one Xray hop that takes the traffic, and else none. -/
theorem Ok.xrayIngress (h : c.Ok w) :
    c.part.xrayIngress = c.part.toXray.map (fun _ => c.req.leadingOpts.xrayTag 0) := by
  rw [c.part_xrayIngress, c.part_toXray]
  cases hb : c.toXray with
  | none =>
    have : c.split.xray = [] := by
      by_contra hne
      have := h.toXray_iff.mpr hne
      rw [hb] at this
      cases this
    rw [if_pos this]
    rfl
  | some b =>
    have := h.toXray_iff.mp (by rw [hb]; rfl)
    rw [if_neg this]
    rfl

/-- A chain with a bridge back has one hop behind it that takes the traffic, and else none. -/
theorem Ok.singIngress (h : c.Ok w) : c.part.singIngress = c.part.toSing.map (fun _ => c.req.tailTag c.split) := by
  rw [c.part_singIngress, c.part_toSing]
  cases hb : c.toSing with
  | none =>
    have : c.split.tailing = [] := by
      by_contra hne
      have := h.toSing_iff.mpr hne
      rw [hb] at this
      cases this
    rw [if_pos this]
    rfl
  | some b =>
    have ht := h.toSing_iff.mp (by rw [hb]; rfl)
    obtain ⟨b', hb'⟩ := Option.isSome_iff_exists.mp (h.toXray_iff.mpr (h.xray_of_tailing ht))
    rw [if_neg ht]
    simp [hb', initialEnts, singTag, tailingOpts, tailTag]

theorem xrayIngress_mem {t : Tag} (ht : t ∈ c.part.xrayIngress) :
    t ∈ c.part.xray.map tag := by
  rw [c.part_xrayIngress] at ht
  split at ht
  · cases ht
  rename_i hx
  rw [mem_singleton] at ht
  have hpos : 0 < c.xrayCount := by
    unfold xrayCount
    rw [if_neg hx]
    have := length_pos_iff.mpr hx
    omega
  rw [c.xrayTags, ht]
  exact mem_map_of_mem (mem_range.mpr hpos)

theorem singIngress_mem {tag : Tag} (ht : tag ∈ c.part.singIngress) : tag ∈ c.part.sing.map Outbound.tag := by
  rw [c.part_singIngress] at ht
  split at ht
  · cases ht
  rename_i hne
  rw [mem_singleton] at ht
  rw [c.part_sing, map_append, singOutbounds_tags _ (c.split.tailing.map Ent.profile), ht]
  refine mem_append_right _ (mem_map_of_mem ?_)
  have := length_pos_iff.mpr hne
  simp [mem_range'_1, this]

end BuiltChain

variable {chains : List BuiltChain}

theorem partsOf_given (h : ∀ c ∈ chains, c.req.given = false) : (partsOf chains).given = false := by
  induction chains with
  | nil => rfl
  | cons c chains ih =>
    rw [partsOf_cons, Part.given_append, part_given, h c mem_cons_self, ih (fun d hd => h d (.tail _ hd))]
    rfl

/-! ## A chain among others -/

structure Carries (cfg : CoreConfigs) (chains : List BuiltChain) (extra : List Outbound) : Prop where
  sing : (cfg.outbounds ++ cfg.endpoints).Perm ((partsOf chains).sing ++ extra)
  xray : cfg.xrayOutbounds = (partsOf chains).xray
  xrayInbounds : cfg.xrayInbounds =
    ((partsOf chains).xrayIngress.zip (partsOf chains).toXray).map (fun pair => (xrayInboundTag pair.1, pair.2))
  xrayRules : cfg.xrayRules = (partsOf chains).xrayIngress.map (fun tag => (xrayInboundTag tag, tag))
  bridgeInbounds : cfg.bridgeInbounds =
    ((partsOf chains).singIngress.zip (partsOf chains).toSing).map (fun pair => (bridgeTagFor pair.1, pair.2))

/-- A chain whose tags none of the others has. -/
structure Own (others : List BuiltChain) (extra : List Outbound) (c : BuiltChain) : Prop where
  warp : c.req.warpWrap = true → c.split.leading ≠ []
  sing : ∀ d ∈ others, ∀ tag ∈ c.part.sing.map Outbound.tag, tag ∉ d.part.sing.map Outbound.tag
  extra : ∀ tag ∈ c.part.sing.map Outbound.tag, tag ∉ extra.map Outbound.tag
  xray : ∀ d ∈ others, ∀ tag ∈ c.part.xray.map XrayOutbound.tag, tag ∉ d.part.xray.map XrayOutbound.tag

theorem theRow_flatMap {α β κ : Type} [DecidableEq κ] (key : α → κ) (f : β → List α)
    {before after : List β} {c : β} {k : κ}
    (h : ∀ d ∈ before ++ after, k ∉ (f d).map key) :
    theRow key k ((before ++ c :: after).flatMap f) = theRow key k (f c) := by
  have hnone {l : List β} (hl : ∀ d ∈ l, d ∈ before ++ after) : k ∉ (l.flatMap f).map key := by
    intro hk
    obtain ⟨x, hx, rfl⟩ := mem_map.mp hk
    obtain ⟨d, hd, hx⟩ := mem_flatMap.mp hx
    exact h d (hl d hd) (mem_map_of_mem hx)
  rw [flatMap_append, flatMap_cons, ← append_assoc]
  exact theRow_append key (hnone (fun d hd => mem_append_left _ hd)) (hnone (fun d hd => mem_append_right _ hd))

theorem zip_flatMap {α β γ : Type} (f : γ → List α) (g : γ → List β) {l : List γ}
    (h : ∀ c ∈ l, (f c).length = (g c).length) :
    (l.flatMap f).zip (l.flatMap g) = l.flatMap (fun c => (f c).zip (g c)) := by
  induction l with
  | nil => rfl
  | cons c l ih =>
    rw [flatMap_cons, flatMap_cons, flatMap_cons, zip_append (h c (.head _)),
      ih (fun d hd => h d (.tail _ hd))]

theorem partsOf_xrayIngress_nil (h : (partsOf chains).xray = []) :
    (partsOf chains).xrayIngress = [] := by
  rw [partsOf_xray, flatMap_eq_nil_iff] at h
  rw [partsOf_xrayIngress, flatMap_eq_nil_iff]
  refine fun c hc => eq_nil_iff_forall_not_mem.mpr fun tag ht => ?_
  have hmem := xrayIngress_mem ht
  simp [h c hc] at hmem

section
variable {w : World} {chains : List BuiltChain} (hok : ∀ c ∈ chains, c.Ok w)
include hok

theorem xrayIngress_length : ∀ c ∈ chains, c.part.xrayIngress.length = c.part.toXray.length := by
  intro c hc
  rw [(hok c hc).xrayIngress, length_map]

theorem singIngress_length : ∀ c ∈ chains, c.part.singIngress.length = c.part.toSing.length := by
  intro c hc
  rw [(hok c hc).singIngress, length_map]

theorem partsOf_xrayIngress_length : (partsOf chains).xrayIngress.length = (partsOf chains).toXray.length := by
  rw [partsOf_xrayIngress, partsOf_toXray, length_flatMap, length_flatMap]
  exact congrArg sum (map_congr_left (xrayIngress_length hok))

theorem partsOf_singIngress_length : (partsOf chains).singIngress.length = (partsOf chains).toSing.length := by
  rw [partsOf_singIngress, partsOf_toSing, length_flatMap, length_flatMap]
  exact congrArg sum (map_congr_left (singIngress_length hok))

variable {cfg : CoreConfigs} {extra : List Outbound} (hcfg : Carries cfg chains extra)
  (hports : (((partsOf chains).toXray ++ (partsOf chains).toSing).map Bridge.port).Nodup)
  {c : BuiltChain} (hc : c ∈ chains) {b : Bridge}
include hcfg hports

theorem via_listener {inbound : Node} (hmem : (inbound, b) ∈ cfg.listeners) :
    theRow (fun listener => listener.2.port) b.port cfg.listeners = some (inbound, b) := by
  refine theRow_of_mem (fun listener : Node × Bridge => listener.2.port) (x := (inbound, b)) ?_ hmem
  have hto := map_snd_zip (partsOf_xrayIngress_length hok).ge
  have hback := map_snd_zip (partsOf_singIngress_length hok).ge
  have hmap (pairs : List (Tag × Bridge)) (name : Tag → Tag) (node : Tag → Node) :
      ((pairs.map (fun pair => (name pair.1, pair.2))).map (fun pair => (node pair.1, pair.2))).map
        (fun listener => listener.2.port) = (pairs.map snd).map Bridge.port := by
    simp [Function.comp_def]
  rwa [listeners, hcfg.xrayInbounds, hcfg.bridgeInbounds, map_append, hmap, hmap, hto, hback, ← map_append]

include hc

/-- A connection to the bridge of a chain comes to the inbound of its own Xray hops. -/
theorem via_toXray (hb : c.toXray = some b) :
    cfg.via b = cfg.intoXray (xrayInboundTag (c.req.leadingOpts.xrayTag 0)) := by
  have hpart : c.part.toXray = [b] := by rw [c.part_toXray, hb]; rfl
  have hmem : (c.req.leadingOpts.xrayTag 0, b) ∈ (partsOf chains).xrayIngress.zip (partsOf chains).toXray := by
    rw [partsOf_xrayIngress, partsOf_toXray, zip_flatMap _ _ (xrayIngress_length hok)]
    refine mem_flatMap.mpr ⟨c, hc, ?_⟩
    simp [(hok c hc).xrayIngress, hpart]
  have hlistens : (Node.xray (xrayInboundTag (c.req.leadingOpts.xrayTag 0)), b) ∈ cfg.listeners := by
    rw [listeners, hcfg.xrayInbounds]
    exact mem_append_left _ (mem_map_of_mem (mem_map_of_mem hmem))
  rw [via, via_listener hok hcfg hports hlistens]
  simp

/-- A connection to the bridge back comes to the inbound of the hops behind Xray. -/
theorem via_toSing (hb : c.toSing = some b) : cfg.via b = cfg.intoSing (bridgeTagFor (c.req.tailTag c.split)) := by
  have hpart : c.part.toSing = [b] := by rw [c.part_toSing, hb]; rfl
  have hmem : (c.req.tailTag c.split, b) ∈ (partsOf chains).singIngress.zip (partsOf chains).toSing := by
    rw [partsOf_singIngress, partsOf_toSing, zip_flatMap _ _ (singIngress_length hok)]
    refine mem_flatMap.mpr ⟨c, hc, ?_⟩
    simp [(hok c hc).singIngress, hpart]
  have hlistens : (Node.sing (bridgeTagFor (c.req.tailTag c.split)), b) ∈ cfg.listeners := by
    rw [listeners, hcfg.bridgeInbounds]
    exact mem_append_right _ (mem_map_of_mem (mem_map_of_mem hmem))
  rw [via, via_listener hok hcfg hports hlistens]
  simp

end

section
variable {w : World} {cfg : CoreConfigs} {before after : List BuiltChain} {c : BuiltChain} {extra : List Outbound}

variable (h : Own (before ++ after) extra c)

include h

theorem Own.singFound (hc : c.Ok w)
    (hcfg : Carries cfg (before ++ c :: after) extra) {o : Outbound} (ho : o ∈ c.part.sing) :
    cfg.singOutbound o.tag = some o := by
  have htag : o.tag ∈ c.part.sing.map Outbound.tag := mem_map_of_mem ho
  have hrow : theRow Outbound.tag o.tag ([] ++ (partsOf (before ++ c :: after)).sing ++ extra) = some o := by
    rw [theRow_append _ (by simp) (h.extra _ htag), partsOf_sing,
      theRow_flatMap Outbound.tag (fun c : BuiltChain => c.part.sing)]
    · exact theRow_of_mem _ (hc.singTags_nodup h.warp) ho
    · intro d hd
      exact h.sing d hd _ htag
  exact theRow_perm _ hcfg.sing hrow

theorem Own.xrayFound (hcfg : Carries cfg (before ++ c :: after) extra)
    {o : XrayOutbound} (ho : o ∈ c.part.xray) : cfg.xrayOutbound o.tag = some o := by
  unfold CoreConfigs.xrayOutbound
  rw [hcfg.xray, partsOf_xray, theRow_flatMap XrayOutbound.tag (fun c : BuiltChain => c.part.xray)]
  · exact theRow_of_mem _ c.xrayTags_nodup ho
  · intro d hd
    exact h.xray d hd _ (mem_map_of_mem ho)

theorem Own.intoXray (hok : ∀ d ∈ before ++ c :: after, d.Ok w)
    (hcfg : Carries cfg (before ++ c :: after) extra)
    (hports : (((partsOf (before ++ c :: after)).toXray ++
      (partsOf (before ++ c :: after)).toSing).map Bridge.port).Nodup)
    {b : Bridge} (hb : c.toXray = some b) : cfg.via b = .goes (.xray (c.req.leadingOpts.xrayTag 0)) := by
  have hmem : c ∈ before ++ c :: after := by simp
  have hpart : c.part.toXray = [b] := by rw [c.part_toXray, hb]; rfl
  have hingress : c.part.xrayIngress = [c.req.leadingOpts.xrayTag 0] := by rw [(hok c hmem).xrayIngress, hpart]; rfl
  have hrule : theRow Prod.fst (xrayInboundTag (c.req.leadingOpts.xrayTag 0)) cfg.xrayRules =
      some (xrayInboundTag (c.req.leadingOpts.xrayTag 0), c.req.leadingOpts.xrayTag 0) := by
    rw [hcfg.xrayRules, partsOf_xrayIngress, List.map_flatMap, theRow_flatMap Prod.fst]
    · rw [hingress]
      exact theRow_of_mem Prod.fst
        (x := (xrayInboundTag (c.req.leadingOpts.xrayTag 0), c.req.leadingOpts.xrayTag 0)) (by simp) (by simp)
    intro d hd hfst
    simp only [List.map_map, List.mem_map] at hfst
    obtain ⟨tag, htag, heq⟩ := hfst
    have htag' : tag = c.req.leadingOpts.xrayTag 0 := xrayInboundTag_inj.mp heq
    have hown := xrayIngress_mem (c := c) (t := tag) (by rw [hingress, htag']; exact List.mem_singleton_self _)
    exact h.xray d hd tag hown (xrayIngress_mem htag)
  rw [via_toXray hok hcfg hports hmem hb, CoreConfigs.intoXray, hrule]

/-- **A chain of its own is found** in the configuration of all the chains. -/
theorem Own.found (hok : ∀ d ∈ before ++ c :: after, d.Ok w)
    (hcfg : Carries cfg (before ++ c :: after) extra)
    (hports : (((partsOf (before ++ c :: after)).toXray ++
      (partsOf (before ++ c :: after)).toSing).map Bridge.port).Nodup) :
    ChainFound cfg c.req c.split c.toXray c.toSing where
  lead o ho := h.singFound (hok c (by simp)) hcfg (by rw [c.part_sing]; exact mem_append_left _ ho)
  xray hx o ho := h.xrayFound hcfg (by rw [c.xray_part, if_neg hx]; exact ho)
  tail o ho := h.singFound (hok c (by simp)) hcfg (by rw [c.part_sing]; exact mem_append_right _ ho)
  into _ hb := h.intoXray hok hcfg hports hb

omit h

theorem not_mem_of_nodup_flatMap {α β : Type} {f : β → List α} {before after : List β} {c : β}
    (h : ((before ++ c :: after).flatMap f).Nodup) : ∀ d ∈ before ++ after, ∀ x ∈ f c, x ∉ f d := by
  have hpairs := (nodup_flatMap.mp h).2
  rw [pairwise_append, pairwise_cons] at hpairs
  intro d hd x hc hx
  rcases mem_append.mp hd with hd | hd
  · exact hpairs.2.2 d hd c (.head _) hx hc
  · exact hpairs.2.1.1 d hd hc hx

/-- Where no tag is there twice, each chain has its own. -/
theorem Own.of_nodup (hwarp : c.req.warpWrap = true → c.split.leading ≠ [])
    (hsing : (((partsOf (before ++ c :: after)).sing ++ extra).map Outbound.tag).Nodup)
    (hxray : ((partsOf (before ++ c :: after)).xray.map XrayOutbound.tag).Nodup) : Own (before ++ after) extra c := by
  rw [map_append] at hsing
  have hparts := nodup_append.mp hsing
  rw [partsOf_sing, map_flatMap] at hparts
  rw [partsOf_xray, map_flatMap] at hxray
  refine ⟨hwarp, not_mem_of_nodup_flatMap hparts.1, ?_, not_mem_of_nodup_flatMap hxray⟩
  intro tag htag hextra
  exact hparts.2.2 tag (mem_flatMap.mpr ⟨c, by simp, htag⟩) tag hextra rfl

def bridgeRule (tag : Tag) : RuleObject where
  inbound := [bridgeTagFor tag]
  outbound := some tag

theorem find?_bridgeRule {tags : List Tag} {tag : Tag} (h : tag ∈ tags) (more : List RuleObject) :
    (tags.map bridgeRule ++ more).find? (fun rule => rule.inbound.contains (bridgeTagFor tag)) =
      some (bridgeRule tag) := by
  induction tags with
  | nil => cases h
  | cons t tags ih =>
    rw [map_cons, cons_append]
    by_cases ht : t = tag
    · subst ht
      exact find?_cons_of_pos (by simp [bridgeRule])
    have hne : bridgeTagFor tag ≠ bridgeTagFor t := fun heq => ht (bridgeTagFor_inj.mp heq).symm
    rw [find?_cons_of_neg (by simpa [bridgeRule] using hne)]
    exact ih ((mem_cons.mp h).resolve_left (fun heq => ht heq.symm))

end

/-- A bridge back leads to the first hop behind Xray where the rules of the bridges come first. -/
theorem intoSing_tail {w : World} {cfg : CoreConfigs} {c : BuiltChain} (hok : ∀ d ∈ chains, d.Ok w)
    {more : List RuleObject} (hrules : cfg.rules = (partsOf chains).singIngress.map bridgeRule ++ more) (hc : c ∈ chains)
    {b : Bridge} (hb : c.toSing = some b) :
    cfg.intoSing (bridgeTagFor (c.req.tailTag c.split)) = .goes (.sing (c.req.tailTag c.split)) := by
  have hpart : c.part.toSing = [b] := by rw [c.part_toSing, hb]; rfl
  have htag : c.req.tailTag c.split ∈ (partsOf chains).singIngress := by
    rw [partsOf_singIngress]
    exact mem_flatMap.mpr ⟨c, hc, by simp [(hok c hc).singIngress, hpart]⟩
  rw [intoSing, hrules, find?_bridgeRule htag]
  rfl

/-! ## Chains counted one after the other -/

theorem partsOf_append (a b : List BuiltChain) : partsOf (a ++ b) = partsOf a ++ partsOf b := by
  induction a with
  | nil => ext1 <;> simp
  | cons c a ih => rw [cons_append, partsOf_cons, partsOf_cons, ih, Part.append_assoc]

/-- The hops of each chain are numbered on from where those of the one before end. -/
def Row (chain : Tag) : Nat → List BuiltChain → Prop
  | _, [] => True
  | n, c :: rest =>
    (c.req.chain = chain ∧ c.req.includeProxy = false ∧ c.req.warpWrap = false ∧ c.req.startSuffix = n ∧
        c.req.given = false) ∧
      Row chain (n + c.req.hopIDs.length) rest

theorem singTag_plain {opts : HopChainOptions} (hproxy : opts.includeProxy = false) (hwarp : opts.warpWrap = false) :
    opts.singTag = fun i => hopTag opts.chain (opts.startSuffix + i : Nat) := by
  ext i
  simp [singTag, hproxy, hwarp]

theorem xrayTag_plain {opts : HopChainOptions} (hproxy : opts.includeProxy = false) :
    opts.xrayTag = fun i => hopTag opts.chain (opts.startSuffix + i : Nat) := by
  ext i
  simp [xrayTag, hproxy]

theorem Row.numbered {w : World} {chain : Tag} {n : Nat} (h : Row chain n chains)
    (hok : ∀ c ∈ chains, c.Ok w) :
    ∃ hi, n ≤ hi ∧ Numbered (fun i => hopTag chain (i : Nat)) n hi ((partsOf chains).sing.map Outbound.tag) ∧
      Numbered (fun i => hopTag chain (i : Nat)) n hi ((partsOf chains).xray.map tag) := by
  induction chains generalizing n with
  | nil => exact ⟨n, Nat.le_refl n, Numbered.nil _ _ _, Numbered.nil _ _ _⟩
  | cons c rest ih =>
    obtain ⟨⟨hchain, hproxy, hwarp, hstart, -⟩, hrest⟩ := h
    have hc := hok c mem_cons_self
    obtain ⟨hi, hle, hsing, hxray⟩ := ih hrest (fun d hd => hok d (.tail _ hd))
    have hsing' : Numbered (fun i => hopTag chain (i : Nat)) n (n + c.req.hopIDs.length) (c.part.sing.map Outbound.tag) := by
      rw [hc.singTags (by rw [hwarp]; simp), @singTag_plain c.req.leadingOpts hproxy hwarp]
      simp only [leadingOpts, hchain, hstart]
      exact Numbered.range (fun i => hopTag chain (i : Nat)) (by have := hc.singCount_le; omega)
    have hxray' : Numbered (fun i => hopTag chain (i : Nat)) n (n + c.req.hopIDs.length)
        (c.part.xray.map tag) := by
      rw [c.xrayTags, @xrayTag_plain c.req.leadingOpts hproxy]
      simp only [leadingOpts, hchain, hstart]
      exact Numbered.range (fun i => hopTag chain (i : Nat)) (by have := hc.xrayCount_le; omega)
    refine ⟨hi, by omega, ?_, ?_⟩
    · rw [partsOf_cons, Part.sing_append, map_append]
      exact hsing'.append hsing (by omega) hle
    · rw [partsOf_cons, Part.xray_append, map_append]
      exact hxray'.append hxray (by omega) hle

theorem hopTags_nodup {chain : Tag} {lo hi : Nat} {tags : List Tag}
    (h : Numbered (fun i => hopTag chain (i : Nat)) lo hi tags) : tags.Nodup := by
  refine h.nodup (Nat.le_refl hi) ?_
  intro i j hij _ _ heq
  have := (hopTag_inj.mp heq).2
  omega

end Waterdisco.Config
