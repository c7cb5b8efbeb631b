import Waterdisco.Config.Outbounds

/-!
# The tags that are handed out

`Placed` says that a profile's hops are one of the groups that will be built, and that
`outboundMap` names the first of them.  It holds of every profile that rules send to
(`calculatePrerequisites_routes`) and of every endpoint (`calculatePrerequisites_endpoints`): the
checks on endpoints keep an endpoint from taking over the entry of another profile.
-/

namespace Waterdisco.Config

open Route List Except

/-- How many hops these groups have. -/
def hopSum (groups : List (List Int)) : Nat := (groups.map length).sum

@[simp] theorem hopSum_nil : hopSum [] = 0 := rfl

@[simp] theorem hopSum_append (a b : List (List Int)) : hopSum (a ++ b) = hopSum a + hopSum b := by
  simp [hopSum]

@[simp] theorem hopSum_cons (a : List Int) (b : List (List Int)) : hopSum (a :: b) = a.length + hopSum b := by
  simp [hopSum]

/-- The hops of `id` are one of the groups, and the map has the tag of the first of them. -/
def Placed (w : World) (chain : Tag) (groups : List (List Int)) (map : OutboundMap) (id : Int) : Prop :=
  ∃ before after, groups = before ++ unwrapChain w id :: after ∧ unwrapChain w id ≠ [] ∧
    map.tag id = some (hopTag chain (hopSum before))

theorem tag_cons_self (map : OutboundMap) (id : Int) (tag : Tag) : OutboundMap.tag ((id, tag) :: map) id = some tag := by
  simp [OutboundMap.tag]

theorem tag_cons_ne (map : OutboundMap) {id other : Int} (tag : Tag) (h : other ≠ id) :
    OutboundMap.tag ((other, tag) :: map) id = map.tag id := by
  simp [OutboundMap.tag, h]

theorem tag_append (entries map : OutboundMap) {id : Int} (h : ∀ entry ∈ entries, entry.1 ≠ id) :
    OutboundMap.tag (entries ++ map) id = map.tag id := by
  induction entries with
  | nil => rfl
  | cons entry rest ih =>
    have hrest := ih (fun e he => h e (.tail _ he))
    rw [cons_append, ← hrest]
    exact tag_cons_ne _ _ (h entry (.head _))

section
variable {w : World} {chain : Tag} {groups : List (List Int)} {map : OutboundMap} {id : Int}

theorem Placed.more (h : Placed w chain groups map id) (more : List (List Int)) {map' : OutboundMap}
    (hmap : map'.tag id = map.tag id) : Placed w chain (groups ++ more) map' id := by
  obtain ⟨before, after, hgroups, hne, htag⟩ := h
  exact ⟨before, after ++ more, by rw [hgroups]; simp, hne, hmap.trans htag⟩

theorem Placed.last (hne : unwrapChain w id ≠ []) (hmap : map.tag id = some (hopTag chain (hopSum groups))) :
    Placed w chain (groups ++ [unwrapChain w id]) map id :=
  ⟨groups, [], rfl, hne, hmap⟩

end

/-! ## The profiles that rules send to -/

variable {suffix : Nat} {deps : RoutingDeps} {ids inner : List Int} {endpointID : Int} {s s' : AuxState}

variable {w : World}

theorem addRouteOutbound_ok {item : Int} {next : Nat × RoutingDeps}
    (h : addRouteOutbound w item suffix deps = .ok next) :
    unwrapChain w item ≠ [] ∧ next =
      (suffix + (unwrapChain w item).length,
        { deps with
          outboundMap := (item, hopTag Tags.routeChainPrefix suffix) :: deps.outboundMap
          routeOutboundGroups := deps.routeOutboundGroups ++ [unwrapChain w item] }) := by
  unfold addRouteOutbound at h
  split at h
  · cases h
  rename_i ent hent
  split at h
  · cases h
  dsimp only at h
  split at h
  · rename_i hchain
    have hhops : unwrapChain w item = (ent.chain.getD []).reverse := by simp [unwrapChain, hent, hchain]
    split at h
    · cases h
    rename_i hlist
    split at h
    · cases h
    rw [hhops]
    simp only [ok.injEq] at h
    exact ⟨by simpa using hlist, h.symm⟩
  · rename_i hchain
    have hhops : unwrapChain w item = [item] := by simp [unwrapChain, hent, hchain]
    rw [hhops]
    simp only [ok.injEq] at h
    exact ⟨by simp, h.symm⟩

/-- The groups built so far, and the ids that have their tag. -/
structure RoutePlaced (w : World) (ids : List Int) (suffix : Nat) (deps : RoutingDeps) : Prop where
  suffix : suffix = hopSum deps.routeOutboundGroups
  aux : deps.auxEndpointGroups = []
  placed : ∀ id ∈ ids, 0 ≤ id → Placed w Tags.routeChainPrefix deps.routeOutboundGroups deps.outboundMap id

theorem RoutePlaced.step {item : Int}
    {next : Nat × RoutingDeps} (hp : RoutePlaced w ids suffix deps)
    (h : addRouteOutbound w item suffix deps = .ok next) : RoutePlaced w (ids ++ [item]) next.1 next.2 := by
  obtain ⟨hne, rfl⟩ := addRouteOutbound_ok h
  refine ⟨by simp [hp.suffix], hp.aux, ?_⟩
  intro id hid hpos
  by_cases hitem : item = id
  · subst hitem
    refine Placed.last hne ?_
    rw [← hp.suffix]
    exact tag_cons_self _ _ _
  · have hmem : id ∈ ids := by
      rcases mem_append.mp hid with h | h
      · exact h
      · exact absurd (mem_singleton.mp h).symm hitem
    exact (hp.placed id hmem hpos).more _ (tag_cons_ne _ _ hitem)

theorem RoutePlaced.loop {items : List Int} {deps' : RoutingDeps}
    (hp : RoutePlaced w ids suffix deps) (h : addRouteOutbounds w items suffix deps = .ok deps') :
    ∃ suffix', RoutePlaced w (ids ++ items) suffix' deps' := by
  induction items generalizing ids suffix deps with
  | nil =>
    simp only [addRouteOutbounds, ok.injEq] at h
    rw [append_nil, ← h]
    exact ⟨suffix, hp⟩
  | cons item rest ih =>
    rw [addRouteOutbounds] at h
    split at h
    · rename_i hneg
      have hskip : RoutePlaced w (ids ++ [item]) suffix deps := by
        refine ⟨hp.suffix, hp.aux, fun id hid hpos => ?_⟩
        rcases mem_append.mp hid with hid | hid
        · exact hp.placed id hid hpos
        · rw [mem_singleton.mp hid] at hpos
          omega
      have := ih hskip h
      rwa [append_assoc] at this
    · split at h
      · cases h
      rename_i suffix' deps₁ hstep
      have := ih (hp.step hstep) h
      rwa [append_assoc] at this

/-! ## The endpoints -/

theorem find?_error_none {l : List String} (h : l.find? (fun error => !error.isEmpty) = none) : ∀ e ∈ l, e = "" := by
  intro e he
  have := find?_eq_none.mp h e he
  simpa using this

theorem endpointHop_ok {used : List Int} {name : String} {hopID : Int}
    (h : endpointHopError w used name hopID = "") :
    hopID ∉ used ∧ ∃ hop, w.profile hopID = some hop ∧ hop.type ≠ .chain ∧ hop.isXray = false := by
  unfold endpointHopError at h
  split at h
  · have := (String.append_eq_empty_iff.mp h).2
    simp at this
  rename_i hop hhop
  split at h
  · have := (String.append_eq_empty_iff.mp h).2
    simp at this
  rename_i hchain
  split at h
  · have := (String.append_eq_empty_iff.mp h).2
    simp at this
  rename_i hX
  split at h
  · have := (String.append_eq_empty_iff.mp h).2
    simp at this
  rename_i hused
  simp only [Bool.or_eq_true, beq_iff_eq, not_or] at hchain
  exact ⟨by simpa using hused, hop, hhop, hchain.2, by simpa using hX⟩

/-- The hops of an id are all in use. -/
def Held (w : World) (used : List Int) (id : Int) : Prop :=
  unwrapChain w id ≠ [] ∧ ∀ hop ∈ unwrapChain w id, hop ∈ used

theorem addEndpoint_ok
    (h : addEndpoint w inner endpointID s = .ok s') :
    unwrapChain w endpointID ≠ [] ∧
      (∀ hop ∈ unwrapChain w endpointID, hop ∉ s.used ∧ ∃ p, w.profile hop = some p ∧
        p.type ≠ .chain ∧ p.isXray = false) ∧
      ∃ indexes entries, (∀ i ∈ indexes, i < (unwrapChain w endpointID).length) ∧
        (∀ entry ∈ entries, entry.1 ∈ unwrapChain w endpointID) ∧
        s' =
          { used := s.used ++ endpointID :: unwrapChain w endpointID
            suffix := s.suffix + (unwrapChain w endpointID).length
            deps :=
              { s.deps with
                outboundMap :=
                  (endpointID, hopTag Tags.auxEndpointPrefix s.suffix) :: (entries ++ s.deps.outboundMap)
                auxEndpointGroups := s.deps.auxEndpointGroups ++ [⟨unwrapChain w endpointID, indexes⟩] } } := by
  unfold addEndpoint at h
  split at h
  · cases h
  dsimp only at h
  split at h
  · cases h
  rename_i exit rest hhops
  split at h
  · cases h
  split at h
  · cases h
  split at h
  · cases h
  rename_i hfind
  split at h
  · cases h
  simp only [ok.injEq] at h
  have hne : unwrapChain w endpointID ≠ [] := by
    rw [hhops]
    simp
  refine ⟨hne, ?_, _, _, ?_, ?_, h.symm⟩
  · intro hop hmem
    exact endpointHop_ok (find?_error_none hfind _ (mem_map_of_mem hmem))
  · intro i hi
    split at hi
    · exact mem_range.mp (mem_of_mem_filter hi)
    · cases hi
  · intro entry hentry
    rw [mem_reverse, mem_filterMap] at hentry
    obtain ⟨i, _, hi⟩ := hentry
    obtain ⟨id, hid, rfl⟩ := Option.map_eq_some_iff.mp hi
    exact mem_of_getElem? hid

/-- An id whose hops are in use keeps its entry. -/
theorem Held.kept {id : Int} (hheld : Held w s.used id)
    (h : addEndpoint w inner endpointID s = .ok s') : s'.deps.outboundMap.tag id = s.deps.outboundMap.tag id := by
  obtain ⟨hne, hhops, indexes, entries, _, hentries, rfl⟩ := addEndpoint_ok h
  have hid : endpointID ≠ id := by
    rintro rfl
    obtain ⟨hop, hmem⟩ := exists_mem_of_ne_nil _ hne
    exact (hhops hop hmem).1 (hheld.2 hop hmem)
  have hother : ∀ entry ∈ entries, entry.1 ≠ id := by
    rintro entry hentry rfl
    obtain ⟨hunused, p, hp, hchain, _⟩ := hhops _ (hentries entry hentry)
    have hself : unwrapChain w entry.1 = [entry.1] := by simp [unwrapChain, hp, hchain]
    exact hunused (hheld.2 _ (by rw [hself]; exact mem_singleton_self _))
  rw [tag_cons_ne _ _ hid, tag_append _ _ hother]

/-- The endpoints so far: each has its tag, and the tags of the others are as they were. -/
structure AuxPlaced (w : World) (start : RoutingDeps) (ids : List Int) (s : AuxState) : Prop where
  suffix : s.suffix = hopSum (s.deps.auxEndpointGroups.map AuxEndpointGroup.hopIDs)
  groups : s.deps.routeOutboundGroups = start.routeOutboundGroups
  routeHops : ∀ hop ∈ start.routeOutboundGroups.flatten, hop ∈ s.used
  kept : ∀ id, Held w start.routeOutboundGroups.flatten id → s.deps.outboundMap.tag id = start.outboundMap.tag id
  placed : ∀ id ∈ ids, Held w s.used id ∧
    Placed w Tags.auxEndpointPrefix (s.deps.auxEndpointGroups.map AuxEndpointGroup.hopIDs) s.deps.outboundMap id
  indexes : ∀ group ∈ s.deps.auxEndpointGroups, ∀ i ∈ group.innerHopIndexes, i < group.hopIDs.length
  sing : ∀ group ∈ s.deps.auxEndpointGroups, ∀ hop ∈ group.hopIDs, ∃ p, w.profile hop = some p ∧ p.isXray = false

theorem AuxPlaced.step {start : RoutingDeps}
    (hp : AuxPlaced w start ids s) (h : addEndpoint w inner endpointID s = .ok s') :
    AuxPlaced w start (ids ++ [endpointID]) s' := by
  have hkeep (id : Int) (hheld : Held w s.used id) := hheld.kept h
  obtain ⟨hne, hhops, indexes, entries, hindexes, _, rfl⟩ := addEndpoint_ok h
  refine ⟨?_, hp.groups, ?_, ?_, ?_, ?_, ?_⟩
  · simp [hp.suffix]
  · intro hop hmem
    exact mem_append_left _ (hp.routeHops hop hmem)
  · intro id hid
    rw [← hp.kept id hid]
    exact hkeep id ⟨hid.1, fun hop hmem => hp.routeHops hop (hid.2 hop hmem)⟩
  · intro id hid
    rw [map_append]
    rcases mem_append.mp hid with hid | hid
    · obtain ⟨hheld, hplaced⟩ := hp.placed id hid
      exact ⟨⟨hheld.1, fun hop hmem => mem_append_left _ (hheld.2 hop hmem)⟩, hplaced.more _ (hkeep id hheld)⟩
    rw [mem_singleton] at hid
    subst hid
    refine ⟨⟨hne, fun hop hmem => mem_append_right _ (.tail _ hmem)⟩, Placed.last hne ?_⟩
    rw [← hp.suffix]
    exact tag_cons_self _ _ _
  · intro group hgroup
    rcases mem_append.mp hgroup with hgroup | hgroup
    · exact hp.indexes group hgroup
    · rw [mem_singleton.mp hgroup]
      exact hindexes
  · intro group hgroup
    rcases mem_append.mp hgroup with hgroup | hgroup
    · exact hp.sing group hgroup
    rw [mem_singleton.mp hgroup]
    intro hop hmem
    obtain ⟨_, p, hprofile, _, hX⟩ := hhops hop hmem
    exact ⟨p, hprofile, hX⟩

theorem AuxPlaced.loop {start : RoutingDeps} {items : List Int}
    (hp : AuxPlaced w start ids s) (h : items.foldlM (fun s id => addEndpoint w inner id s) s = .ok s') :
    AuxPlaced w start (ids ++ items) s' := by
  induction items generalizing ids s with
  | nil =>
    simp only [List.foldlM_nil, pure, Except.pure, Except.ok.injEq] at h
    rw [List.append_nil, ← h]
    exact hp
  | cons item rest ih =>
    rw [List.foldlM_cons] at h
    cases hstep : addEndpoint w inner item s with
    | error e => rw [hstep] at h; cases h
    | ok next =>
      rw [hstep] at h
      have := ih (hp.step hstep) h
      rwa [List.append_assoc] at this

/-! ## Both -/

/-- What the prerequisites hand out. -/
structure Prepared (w : World) (profile : RouteProfile) (deps : RoutingDeps) : Prop where
  routes : ∀ id ∈ profile.getUsedOutbounds, 0 ≤ id →
    Placed w Tags.routeChainPrefix deps.routeOutboundGroups deps.outboundMap id
  endpoints : ∀ id ∈ profile.endpointProfileIDs,
    Placed w Tags.auxEndpointPrefix (deps.auxEndpointGroups.map AuxEndpointGroup.hopIDs) deps.outboundMap id
  indexes : ∀ group ∈ deps.auxEndpointGroups, ∀ i ∈ group.innerHopIndexes, i < group.hopIDs.length
  sing : ∀ group ∈ deps.auxEndpointGroups, ∀ hop ∈ group.hopIDs, ∃ p, w.profile hop = some p ∧ p.isXray = false

theorem calculatePrerequisites_ok {ent : Profile} {routeId : Int} {profile : RouteProfile}
    (h : calculatePrerequisites w ent routeId = .ok (profile, deps)) :
    w.route routeId = some profile ∧ Prepared w profile deps := by
  unfold calculatePrerequisites at h
  split at h
  · cases h
  rename_i profile' hroute
  split at h
  · cases h
  split at h
  · cases h
  rename_i deps₁ hroutes
  split at h
  · cases h
  rename_i deps₂ hendpoints
  obtain ⟨rfl, rfl⟩ := h
  refine ⟨hroute, ?_⟩
  have hstart : RoutePlaced w [] 0 { outboundMap := predefinedMap w } := ⟨rfl, rfl, by simp⟩
  obtain ⟨suffix, hrouted⟩ := hstart.loop hroutes
  unfold addEndpoints at hendpoints
  dsimp only at hendpoints
  split at hendpoints
  · cases hendpoints
  rename_i s hfold
  cases hendpoints
  have hinit : AuxPlaced w deps₁ []
      { used := deps₁.routeOutboundGroups.flatten ++ unwrapChain w ent.id ++
          (if ent.type = .autoselector then memberGroupProxyIDs w (w.plan ent).build else groupProxyIDs w ent.gid)
        deps := deps₁ } := by
    refine ⟨by simp [hrouted.aux], rfl, ?_, fun _ _ => rfl, by simp, by simp [hrouted.aux], by simp [hrouted.aux]⟩
    intro hop hmem
    exact mem_append_left _ (mem_append_left _ hmem)
  have haux := hinit.loop hfold
  refine ⟨?_, fun id hid => (haux.placed id hid).2, haux.indexes, haux.sing⟩
  intro id hid hpos
  have hplaced := hrouted.placed id hid hpos
  have hheld : Held w deps₁.routeOutboundGroups.flatten id := by
    obtain ⟨before, after, hgroups, hne, _⟩ := hplaced
    refine ⟨hne, fun hop hmem => ?_⟩
    rw [hgroups]
    exact mem_flatten.mpr ⟨_, by simp, hmem⟩
  have := hplaced.more [] (haux.kept id hheld)
  rwa [append_nil, ← haux.groups] at this

end Waterdisco.Config
