import Waterdisco.Config.ChainBuilt
import Waterdisco.Lib.Walks

/-!
# The way traffic takes

`CoreConfigs` is what decides the way through both cores: the outbounds with the tags
they name, the inbounds of the bridges, and the rules that say where an inbound goes.
A bridge is followed by its port; behind it an inbound takes the bridge's own password only.

    sing-box `detour`   Xray `dialerProxy`   bridge → inbound → rule → outbound

For the hops of one chain, found in the configuration under their tags:

    Walk  ingress (leading ++ xray)           nothing behind Xray     (chain_walk)
    Leads ingress (leading ++ xray) (bridge)  else                    (chain_leads)
    Walk  tail ingress tailing                                        (tail_walk)
-/

namespace Waterdisco.Config

open Route List Option Nat HopChainOptions ChainBuildRequest

/-! ## Following -/

structure CoreConfigs where
  outbounds : List Outbound := []
  endpoints : List Outbound := []
  /-- The inbounds that take traffic from Xray. -/
  bridgeInbounds : List (Tag × Bridge) := []
  rules : List RuleObject := []
  /-- Where traffic goes that no rule takes: `final`, else the first outbound. -/
  fallback : Option Tag := none
  xrayOutbounds : List XrayOutbound := []
  xrayInbounds : List (Tag × Bridge) := []
  /-- Inbound and outbound of the rules of Xray. -/
  xrayRules : List (Tag × Tag) := []

/-- An outbound, or an inbound, of one of the two cores. -/
inductive Node where
  | sing (tag : Tag)
  | xray (tag : Tag)
deriving DecidableEq

namespace CoreConfigs

def singOutbound (cfg : CoreConfigs) (tag : Tag) : Option Outbound :=
  theRow Outbound.tag tag (cfg.outbounds ++ cfg.endpoints)

def xrayOutbound (cfg : CoreConfigs) (tag : Tag) : Option XrayOutbound :=
  theRow XrayOutbound.tag tag cfg.xrayOutbounds

/-- The outbound of Xray that the inbound's rule names. -/
def intoXray (cfg : CoreConfigs) (inbound : Tag) : Link Node :=
  match theRow Prod.fst inbound cfg.xrayRules with
  | none => .lost
  | some rule => .goes (.xray rule.2)

/-- The outbound of sing-box that the first rule for the inbound names. -/
def intoSing (cfg : CoreConfigs) (inbound : Tag) : Link Node :=
  match cfg.rules.find? (fun rule => rule.inbound.contains inbound) with
  | some rule =>
    match rule.outbound with
    | some tag => .goes (.sing tag)
    | none => .lost
  | none =>
    match cfg.fallback with
    | some tag => .goes (.sing tag)
    | none => .lost

/-- The inbounds of both cores, which listen on the same address. -/
def listeners (cfg : CoreConfigs) : List (Node × Bridge) :=
  cfg.xrayInbounds.map (fun inbound => (.xray inbound.1, inbound.2)) ++
    cfg.bridgeInbounds.map (fun inbound => (.sing inbound.1, inbound.2))

/-- The way over a bridge, through whatever listens on its port. -/
def via (cfg : CoreConfigs) (bridge : Bridge) : Link Node :=
  match theRow (fun listener => listener.2.port) bridge.port cfg.listeners with
  | none => .lost
  | some (inbound, own) =>
    if own ≠ bridge then .lost
    else
      match inbound with
      | .xray tag => cfg.intoXray tag
      | .sing tag => cfg.intoSing tag

def singNext (cfg : CoreConfigs) (o : Outbound) : Link Node :=
  match o.source with
  | .bridge b => cfg.via b
  | _ =>
    match o.detour with
    | none => .ends
    | some tag => .goes (.sing tag)

def xrayNext (cfg : CoreConfigs) (o : XrayOutbound) : Link Node :=
  match o.source with
  | .bridge b => cfg.via b
  | _ =>
    match o.dialerProxy with
    | none => .ends
    | some tag => .goes (.xray tag)

def next (cfg : CoreConfigs) : Node → Link Node
  | .sing tag =>
    match cfg.singOutbound tag with
    | none => .lost
    | some o => cfg.singNext o
  | .xray tag =>
    match cfg.xrayOutbound tag with
    | none => .lost
    | some o => cfg.xrayNext o

/-- The profile whose outbound this is; a bridge is nobody's. -/
def Source.hops : Source → List Profile
  | .hop p => [p]
  | _ => []

def shows (cfg : CoreConfigs) : Node → List Profile
  | .sing tag => ((cfg.singOutbound tag).map (fun o => Source.hops o.source)).getD []
  | .xray tag => ((cfg.xrayOutbound tag).map (fun o => Source.hops o.source)).getD []

/-- Following the configuration from an outbound visits these hops and then ends. -/
def Visits (cfg : CoreConfigs) (node : Node) (hops : List Profile) : Prop := Walk cfg.next cfg.shows node hops

/-- Following the configuration from an outbound visits these hops and then comes to another. -/
def Reaches (cfg : CoreConfigs) (node : Node) (hops : List Profile) (node' : Node) : Prop :=
  Leads cfg.next cfg.shows node hops node'

section
variable {cfg : CoreConfigs}

theorem next_sing {tag : Tag} {o : Outbound} (h : cfg.singOutbound tag = some o) :
    cfg.next (.sing tag) = cfg.singNext o := by
  rw [next, h]

theorem next_xray {tag : Tag} {o : XrayOutbound} (h : cfg.xrayOutbound tag = some o) :
    cfg.next (.xray tag) = cfg.xrayNext o := by
  rw [next, h]

theorem shows_sing {tag : Tag} {o : Outbound} (h : cfg.singOutbound tag = some o) :
    cfg.shows (.sing tag) = Source.hops o.source := by
  rw [shows, h]
  rfl

theorem shows_xray {tag : Tag} {o : XrayOutbound} (h : cfg.xrayOutbound tag = some o) :
    cfg.shows (.xray tag) = Source.hops o.source := by
  rw [shows, h]
  rfl

end

end CoreConfigs

open CoreConfigs

/-! ## The hops of sing-box -/

section
variable {cfg : CoreConfigs} {opts : HopChainOptions}

theorem singOutbounds_getElem (opts : HopChainOptions) (ents : List Ent) (idx i : Nat) (hi : i < ents.length) :
    opts.singOutbound (idx + i) ents[i] ents[i + 1]? ∈ opts.singOutbounds idx ents := by
  induction ents generalizing idx i with
  | nil => simp at hi
  | cons ent rest ih =>
    cases i with
    | zero =>
      rw [singOutbounds]
      have : (ent :: rest)[0 + 1]? = rest.head? := by simp [head?_eq_getElem?]
      rw [this]
      exact .head _
    | succ i =>
      have := ih (idx + 1) i (by simpa using hi)
      rw [show idx + 1 + i = idx + (i + 1) by omega] at this
      exact mem_cons_of_mem _ (by simpa using this)

def SingFound (cfg : CoreConfigs) (opts : HopChainOptions) (ents : List Ent) : Prop :=
  ∀ o ∈ opts.singOutbounds 0 ents, cfg.singOutbound o.tag = some o

variable {ents : List Ent} {i : Nat}

theorem SingFound.at (h : SingFound cfg opts ents) (i : Nat) (hi : i < ents.length) :
    cfg.singOutbound (opts.singTag i) = some (opts.singOutbound i ents[i] ents[i + 1]?) := by
  have := h _ (singOutbounds_getElem opts ents 0 i hi)
  rwa [zero_add] at this

theorem singDetour_next (i : Nat) (ent next : Ent) (hlink : opts.link = true) :
    opts.singDetour i ent (some next) = some (opts.singTag (i + 1)) := by
  unfold singDetour singTag
  cases i with
  | zero => cases opts.warpWrap <;> simp [hlink]
  | succ i => simp [hlink, add_assoc]

variable (h : SingFound cfg opts ents)

include h

theorem SingFound.next_profile {p : Profile}
    (hp : ents[i]? = some (.profile p)) (hmore : i + 1 < ents.length) (hlink : opts.link = true) :
    cfg.next (.sing (opts.singTag i)) = .goes (.sing (opts.singTag (i + 1))) ∧
      cfg.shows (.sing (opts.singTag i)) = [p] := by
  have hi : i < ents.length := by omega
  have hent : ents[i] = .profile p := by
    rw [getElem?_eq_getElem hi] at hp
    exact some.inj hp
  have hfound := h.at i hi
  rw [hent, getElem?_eq_getElem hmore] at hfound
  constructor
  · refine (next_sing hfound).trans ?_
    show (match opts.singDetour i (.profile p) (some ents[i + 1]) with
      | none => Link.ends
      | some tag => .goes (Node.sing tag)) = _
    rw [singDetour_next i _ _ hlink]
  · exact shows_sing hfound

theorem SingFound.last_profile {p : Profile}
    (hp : ents[i]? = some (.profile p)) (hlast : i + 1 = ents.length) (hwarp : opts.warpWrap = true → i ≠ 0)
    (hdetour : p.detour = none) :
    cfg.next (.sing (opts.singTag i)) = .ends ∧ cfg.shows (.sing (opts.singTag i)) = [p] := by
  have hi : i < ents.length := by omega
  have hent : ents[i] = .profile p := by
    rw [getElem?_eq_getElem hi] at hp
    exact some.inj hp
  have hfound := h.at i hi
  rw [hent, getElem?_eq_none (by omega)] at hfound
  constructor
  · refine (next_sing hfound).trans ?_
    have hnone : opts.singDetour i (.profile p) none = none := by
      unfold singDetour
      cases hw : opts.warpWrap with
      | false => simpa using hdetour
      | true => simpa [hwarp hw] using hdetour
    show (match opts.singDetour i (.profile p) none with
      | none => Link.ends
      | some tag => .goes (Node.sing tag)) = _
    rw [hnone]
  · exact shows_sing hfound

theorem SingFound.bridge {b : Bridge}
    (hb : ents[i]? = some (.bridge b)) :
    cfg.next (.sing (opts.singTag i)) = cfg.via b ∧ cfg.shows (.sing (opts.singTag i)) = [] := by
  obtain ⟨hi, hent⟩ := List.getElem?_eq_some_iff.mp hb
  have hfound := h.at i hi
  rw [hent] at hfound
  exact ⟨next_sing hfound, shows_sing hfound⟩

omit h

theorem SingFound.reaches {hops : List Profile} {after : List Ent}
    (h : SingFound cfg opts (hops.map Ent.profile ++ after))
    (hafter : after ≠ []) (hlink : opts.link = true ∨ hops = []) :
    Reaches cfg (.sing (opts.singTag 0)) hops (.sing (opts.singTag hops.length)) := by
  have hpos := length_pos_iff.mpr hafter
  have hstep (i : Nat) (hi : i < hops.length) :
      cfg.next (.sing (opts.singTag i)) = .goes (.sing (opts.singTag (i + 1))) ∧
        cfg.shows (.sing (opts.singTag i)) = [hops[i]] := by
    have hl : opts.link = true := by
      rcases hlink with hl | hl
      · exact hl
      · simp [hl] at hi
    refine h.next_profile ?_ (by simp; omega) hl
    rw [getElem?_append_left (by simpa using hi)]
    simp [hi]
  exact leads_row (fun i => Node.sing (opts.singTag i)) hops (fun i hi => (hstep i hi).1) (fun i hi => (hstep i hi).2)

theorem SingFound.visits {hops : List Profile} (h : SingFound cfg opts (hops.map Ent.profile)) (hne : hops ≠ [])
    (hlink : opts.link = true ∨ hops.length ≤ 1) (hwarp : opts.warpWrap = true → 2 ≤ hops.length)
    (hdetour : ∀ p ∈ hops, p.detour = none) : Visits cfg (.sing (opts.singTag 0)) hops := by
  have hat (i : Nat) (hi : i < hops.length) : (hops.map Ent.profile)[i]? = some (.profile hops[i]) := by simp [hi]
  have hmore (i : Nat) (hi : i + 1 < hops.length) :=
    h.next_profile (hat i (by omega)) (by simpa using hi) (hlink.resolve_right (by omega))
  have hlast (i : Nat) (hi : i + 1 = hops.length) :=
    h.last_profile (hat i (by omega)) (by simpa using hi) (fun hw => by have := hwarp hw; omega)
      (hdetour _ (getElem_mem (by omega)))
  refine walk_row (fun i => Node.sing (opts.singTag i)) hops hne (fun i hi => (hmore i hi).1)
    (fun i hi => (hlast i hi).1) ?_
  intro i hi
  by_cases hend : i + 1 = hops.length
  · exact (hlast i hend).2
  · exact (hmore i (by omega)).2

end

/-! ## The hops of Xray -/

section
variable {cfg : CoreConfigs} {opts : HopChainOptions} {bridge : Option Bridge}

theorem xrayOutbounds_getElem (opts : HopChainOptions) (bridge : Option Bridge) (hops : List Profile) (idx i : Nat)
    (hi : i < hops.length) :
    opts.xrayOutbound bridge (idx + i) hops[i] (decide (i + 1 = hops.length)) ∈ opts.xrayOutbounds bridge idx hops := by
  induction hops generalizing idx i with
  | nil => simp at hi
  | cons hop rest ih =>
    cases i with
    | zero =>
      rw [HopChainOptions.xrayOutbounds]
      have : decide (0 + 1 = (hop :: rest).length) = rest.isEmpty := by cases rest <;> simp
      rw [this]
      exact .head _
    | succ i =>
      have := ih (idx + 1) i (by simpa using hi)
      rw [show idx + 1 + i = idx + (i + 1) by omega] at this
      exact mem_cons_of_mem _ (by simpa using this)

theorem bridge_mem_xrayOutbounds (opts : HopChainOptions) (b : Bridge) (hops : List Profile) (idx : Nat) :
    { tag := hopTag opts.chain (opts.startSuffix + (idx + hops.length) : Nat), source := .bridge b } ∈
      opts.xrayOutbounds (some b) idx hops := by
  induction hops generalizing idx with
  | nil => simp [HopChainOptions.xrayOutbounds]
  | cons hop rest ih =>
    have := ih (idx + 1)
    rw [show idx + 1 + rest.length = idx + (hop :: rest).length by simp; omega] at this
    exact .tail _ this

def XrayFound (cfg : CoreConfigs) (opts : HopChainOptions) (bridge : Option Bridge) (hops : List Profile) : Prop :=
  ∀ o ∈ opts.xrayOutbounds bridge 0 hops, cfg.xrayOutbound o.tag = some o

variable {hops : List Profile}

theorem XrayFound.at (h : XrayFound cfg opts bridge hops) (i : Nat) (hi : i < hops.length) :
    cfg.xrayOutbound (opts.xrayTag i) = some (opts.xrayOutbound bridge i hops[i] (decide (i + 1 = hops.length))) := by
  have := h _ (xrayOutbounds_getElem opts bridge hops 0 i hi)
  rwa [zero_add] at this

theorem XrayFound.next_hop (h : XrayFound cfg opts bridge hops) (i : Nat) (hi : i < hops.length)
    (hmore : i + 1 < hops.length ∨ bridge.isSome = true) (hlink : opts.link = true ∨ bridge.isSome = true) :
    cfg.next (.xray (opts.xrayTag i)) = .goes (.xray (opts.xrayTag (i + 1))) ∧
      cfg.shows (.xray (opts.xrayTag i)) = [hops[i]] := by
  have hfound := h.at i hi
  constructor
  · refine (next_xray hfound).trans ?_
    have hdialer : opts.xrayDialer i hops[i] (!decide (i + 1 = hops.length) || bridge.isSome) bridge.isSome =
        some (opts.xrayTag (i + 1)) := by
      have hnot : (!decide (i + 1 = hops.length) || bridge.isSome) = true := by
        rcases hmore with hm | hm
        · have : i + 1 ≠ hops.length := by omega
          simp [this]
        · simp [hm]
      have hlink' : (opts.link || bridge.isSome) = true := by
        rcases hlink with hl | hl <;> simp [hl]
      unfold xrayDialer xrayTag
      rw [hnot, hlink']
      simp [add_assoc]
    show (match opts.xrayDialer i hops[i] (!decide (i + 1 = hops.length) || bridge.isSome) bridge.isSome with
      | none => Link.ends
      | some tag => .goes (Node.xray tag)) = _
    rw [hdialer]
  · exact shows_xray hfound

theorem XrayFound.last_hop (h : XrayFound cfg opts none hops) (i : Nat) (hi : i + 1 = hops.length)
    (hdialer : ∀ p ∈ hops, p.dialerProxy = none) :
    cfg.next (.xray (opts.xrayTag i)) = .ends ∧
      cfg.shows (.xray (opts.xrayTag i)) = [hops.get ⟨i, by omega⟩] := by
  have hlt : i < hops.length := by omega
  have hfound := h.at i hlt
  constructor
  · refine (next_xray hfound).trans ?_
    have hnone : opts.xrayDialer i hops[i] (!decide (i + 1 = hops.length) || (none : Option Bridge).isSome)
        (none : Option Bridge).isSome = none := by
      simp [xrayDialer, hi, hdialer _ (getElem_mem hlt)]
    show (match opts.xrayDialer i hops[i] (!decide (i + 1 = hops.length) || (none : Option Bridge).isSome)
        (none : Option Bridge).isSome with
      | none => Link.ends
      | some tag => .goes (Node.xray tag)) = _
    rw [hnone]
  · exact shows_xray hfound

theorem XrayFound.back {b : Bridge} (h : XrayFound cfg opts (some b) hops) (hne : hops ≠ []) :
    cfg.next (.xray (opts.xrayTag hops.length)) = cfg.via b ∧
      cfg.shows (.xray (opts.xrayTag hops.length)) = [] := by
  have hfound := h _ (bridge_mem_xrayOutbounds opts b hops 0)
  have htag : opts.xrayTag hops.length = hopTag opts.chain (opts.startSuffix + (0 + hops.length) : Nat) := by
    unfold xrayTag
    rw [if_neg (by simp [hne]), zero_add]
  rw [htag]
  exact ⟨next_xray hfound, shows_xray hfound⟩

theorem XrayFound.reaches {b : Bridge} (h : XrayFound cfg opts (some b) hops) :
    Reaches cfg (.xray (opts.xrayTag 0)) hops (.xray (opts.xrayTag hops.length)) :=
  leads_row (fun i => Node.xray (opts.xrayTag i)) hops
    (fun i hi => (h.next_hop i hi (.inr rfl) (.inr rfl)).1)
    (fun i hi => (h.next_hop i hi (.inr rfl) (.inr rfl)).2)

theorem XrayFound.visits (h : XrayFound cfg opts none hops) (hne : hops ≠ [])
    (hlink : opts.link = true ∨ hops.length ≤ 1) (hdialer : ∀ p ∈ hops, p.dialerProxy = none) :
    Visits cfg (.xray (opts.xrayTag 0)) hops := by
  have hmore (i : Nat) (hi : i + 1 < hops.length) :=
    h.next_hop i (by omega) (.inl hi) (.inl (hlink.resolve_right (by omega)))
  have hlast (i : Nat) (hi : i + 1 = hops.length) := h.last_hop i hi hdialer
  refine walk_row (fun i => Node.xray (opts.xrayTag i)) hops hne (fun i hi => (hmore i hi).1)
    (fun i hi => (hlast i hi).1) ?_
  intro i hi
  by_cases hend : i + 1 = hops.length
  · exact (hlast i hend).2
  · exact (hmore i (by omega)).2

end

/-! ## A whole chain -/

/-- The hops of a chain, in order. -/
def SplitHops.all (split : SplitHops) : List Profile := split.leading ++ split.xray ++ split.tailing

/-- The tag of the first sing-box hop behind Xray. -/
def ChainBuildRequest.tailTag (req : ChainBuildRequest) (split : SplitHops) : Tag :=
  hopTag req.chain (req.startSuffix + (split.leading.length + 1) : Nat)

/-- A chain with its bridges, as `buildOutboundChain` accepts it. -/
structure ChainShape (req : ChainBuildRequest) (split : SplitHops) (toXray toSing : Option Bridge) : Prop where
  toXray : toXray.isSome = true ↔ split.xray ≠ []
  toSing : toSing.isSome = true ↔ split.tailing ≠ []
  tailing : split.tailing ≠ [] → split.xray ≠ []
  link : req.link = true ∨ split.all.length ≤ 1
  /-- Custom JSON brings no link of its own. -/
  own : ∀ p ∈ split.all, p.detour = none ∧ p.dialerProxy = none

/-- The outbounds of a chain are found under their tags, and the bridge's rule finds its Xray hops. -/
structure ChainFound (cfg : CoreConfigs) (req : ChainBuildRequest) (split : SplitHops) (toXray toSing : Option Bridge) :
    Prop where
  lead : SingFound cfg req.leadingOpts (initialEnts split toXray)
  xray : split.xray ≠ [] → XrayFound cfg req.leadingOpts toSing split.xray
  tail : SingFound cfg (req.tailingOpts (initialEnts split toXray).length) (split.tailing.map Ent.profile)
  into : ∀ b, toXray = some b → cfg.via b = .goes (.xray (req.leadingOpts.xrayTag 0))

theorem ingressTag_eq (req : ChainBuildRequest) : req.ingressTag = req.leadingOpts.singTag 0 := by
  simp [ingressTag, singTag, leadingOpts]

section
variable {cfg : CoreConfigs} {req : ChainBuildRequest} {split : SplitHops} {toXray toSing : Option Bridge}

variable (hs : ChainShape req split toXray toSing)

include hs in
theorem ChainShape.link_or {l : List Profile} (hl : l.length ≤ split.all.length) :
    req.link = true ∨ l.length ≤ 1 := by
  rcases hs.link with h | h
  · exact .inl h
  · exact .inr (by omega)

variable (h : ChainFound cfg req split toXray toSing)

include h hs

/-- From the first hop through the sing-box hops in front, over the bridge, to the first Xray hop. -/
theorem ChainFound.reaches_xray
    (hx : split.xray ≠ []) :
    Reaches cfg (.sing req.ingressTag) split.leading (.xray (req.leadingOpts.xrayTag 0)) := by
  obtain ⟨b, hb⟩ := isSome_iff_exists.mp (hs.toXray.mpr hx)
  have hlead := h.lead
  rw [hb, initialEnts] at hlead
  have hlink : req.leadingOpts.link = true ∨ split.leading = [] := by
    rcases hs.link with hl | hl
    · exact .inl hl
    right
    have := length_pos_iff.mpr hx
    rw [SplitHops.all, length_append, length_append] at hl
    exact length_eq_zero_iff.mp (by omega)
  have hrow := hlead.reaches (by simp) hlink
  have hbridge := hlead.bridge (i := split.leading.length) (b := b) (by simp)
  rw [ingressTag_eq]
  have hover : Reaches cfg (.sing (req.leadingOpts.singTag split.leading.length)) []
      (.xray (req.leadingOpts.xrayTag 0)) := by
    rw [← hbridge.2]
    exact Leads.one (hbridge.1.trans (h.into b hb))
  have := hrow.trans hover
  rwa [append_nil] at this

/-- Without a sing-box hop behind Xray the way ends with the chain. -/
theorem ChainFound.visits_front
    (hne : split.all ≠ []) (hwarp : req.warpWrap = true → 2 ≤ split.all.length) (htail : split.tailing = []) :
    Visits cfg (.sing req.ingressTag) split.all := by
  have hall : split.all = split.leading ++ split.xray := by rw [SplitHops.all, htail, append_nil]
  by_cases hx : split.xray = []
  · have hto : toXray = none := by
      rw [← not_isSome_iff_eq_none, hs.toXray]
      exact fun h => h hx
    have hlead := h.lead
    rw [hto, initialEnts] at hlead
    simp only [toList_none, map_nil, append_nil] at hlead
    rw [hx, append_nil] at hall
    rw [hall] at hne hwarp ⊢
    rw [ingressTag_eq]
    exact hlead.visits hne (hs.link_or (by rw [hall])) hwarp (fun p hp => (hs.own p (hall ▸ hp)).1)
  · have hback : toSing = none := by
      rw [← not_isSome_iff_eq_none, hs.toSing]
      exact fun h => h htail
    have hxray := h.xray hx
    rw [hback] at hxray
    rw [hall]
    refine (h.reaches_xray hs hx).walk_iff.mpr ⟨split.xray, ?_, rfl⟩
    exact hxray.visits hx (hs.link_or (by simp [hall])) (fun p hp => (hs.own p (by simp [hall, hp])).2)

theorem ChainFound.reaches_back
    (htail : split.tailing ≠ []) :
    ∃ b, toSing = some b ∧ ∃ node, Reaches cfg (.sing req.ingressTag) (split.leading ++ split.xray) node ∧
      cfg.next node = cfg.via b ∧ cfg.shows node = [] := by
  obtain ⟨b, rfl⟩ := isSome_iff_exists.mp (hs.toSing.mpr htail)
  have hx := hs.tailing htail
  have hxray := h.xray hx
  exact ⟨b, rfl, _, (h.reaches_xray hs hx).trans hxray.reaches, hxray.back hx⟩

/-- The hops behind Xray, from the first of them. -/
theorem ChainFound.visits_tail
    (htail : split.tailing ≠ []) : Visits cfg (.sing (req.tailTag split)) split.tailing := by
  have hlen : (initialEnts split toXray).length = split.leading.length + 1 := by
    obtain ⟨b, rfl⟩ := isSome_iff_exists.mp (hs.toXray.mpr (hs.tailing htail))
    simp [initialEnts]
  have htag : req.tailTag split = (req.tailingOpts (initialEnts split toXray).length).singTag 0 := by
    rw [hlen]
    simp [tailTag, singTag, tailingOpts]
  rw [htag]
  refine h.tail.visits htail (hs.link_or (by simp [SplitHops.all]; omega)) (by simp [tailingOpts]) ?_
  intro p hp
  exact (hs.own p (by simp [SplitHops.all, hp])).1

/-- **A chain is followed hop by hop**, when the bridge back leads to the hops behind Xray. -/
theorem ChainFound.visits
    (hne : split.all ≠ []) (hwarp : req.warpWrap = true → 2 ≤ split.all.length)
    (hback : ∀ b, toSing = some b → cfg.via b = .goes (.sing (req.tailTag split))) :
    Visits cfg (.sing req.ingressTag) split.all := by
  by_cases htail : split.tailing = []
  · exact h.visits_front hs hne hwarp htail
  obtain ⟨b, hb, node, hreach, hnext, hshows⟩ := h.reaches_back hs htail
  refine hreach.walk_iff.mpr ⟨split.tailing, ?_, rfl⟩
  have := Walk.goes (hnext.trans (hback b hb)) (h.visits_tail hs htail)
  rwa [hshows] at this

end

end Waterdisco.Config
