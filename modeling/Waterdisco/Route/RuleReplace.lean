import Mathlib.Data.List.Nodup
import Waterdisco.Lib.PutBack
import Waterdisco.Route.RuleImportSound

/-!
# The rules of a remote profile

`replaceRules` takes the rules of a fetched profile and keeps the endpoint rules of the
local one at their places; `SyncEndpointRules` leaves one of them for every target.

    one endpoint rule for every target, the others kept   (syncEndpointRules_contract)
    what replaceRules leaves in place                     (replaceRules_replaced)
    a second time with the same document nothing changes
      ↔ the document does not switch off one rule of a name and leave another on   (replaceRules_contract)
-/

namespace Waterdisco.Routing

open List

/-! ## Endpoint rules -/

section

variable (w : World) (innerHops : Int32 → List Int32)

def isEndpoint (rule : RouteRule) : Bool := rule.type == endpointPreferredBy

def makeEndpointRule (endpointProfileID : Int32) : RouteRule where
  type := endpointPreferredBy
  outboundID := endpointProfileID
  name :=
    match (w.getProfile endpointProfileID).bind (·.outbound) with
    | some outbound => outbound.displayName ++ " route prefer"
    | none => "Endpoint"

def addTarget (targets : List Int32) (id : Int32) : List Int32 :=
    if targets.contains id then targets else targets ++ [id]

/-- The endpoints and, where they are asked for, their inner hops; `innerHops` is `AuxEndpointInnerHops`. -/
def endpointRuleTargets (profile : RouteProfile) : List Int32 :=
  profile.endpointProfileIDs.foldl (fun targets id =>
    if targets.contains id then targets
    else if profile.innerHopEndpointIDs.contains id then (innerHops id).foldl addTarget (targets ++ [id])
    else targets ++ [id]) []

/-- The rules that are kept; the targets in `paired` have their rule. -/
def keepRules (targets : List Int32) : List Int32 → List RouteRule → List RouteRule × List Int32
  | paired, [] => ([], paired)
  | paired, rule :: rest =>
    if isEndpoint rule then
      if !targets.contains rule.outboundID || paired.contains rule.outboundID then keepRules targets paired rest
      else
        let (kept, paired) := keepRules targets (rule.outboundID :: paired) rest
        (rule :: kept, paired)
    else
      let (kept, paired) := keepRules targets paired rest
      (rule :: kept, paired)

def syncEndpointRules (profile : RouteProfile) : RouteProfile :=
  if profile.isRaw then profile
  else
    let targets := endpointRuleTargets innerHops profile
    let (kept, paired) := keepRules targets [] profile.rules
    { profile with rules := kept ++ (targets.filter (fun id => !paired.contains id)).map (makeEndpointRule w) }

/-! ## The update -/

/-- The names of the rules that are switched off locally. -/
def disabledNames (profile : RouteProfile) : List String :=
  (profile.rules.filter (fun rule => !isEndpoint rule && rule.disabled)).map (·.name)

def replaceRules (profile fetched : RouteProfile) : RouteProfile :=
  let rules := (fetched.rules.filter (fun rule => !isEndpoint rule)).map (fun rule =>
    if (disabledNames profile).contains rule.name then { rule with disabled := true } else rule)
  { syncEndpointRules w innerHops
      { profile with isRaw := false, rawRoute := "", rules := putBack rules (cutOut isEndpoint profile.rules) } with
    defaultOutboundID := fetched.defaultOutboundID }

/-- The value whose text is `routeFingerprint`. -/
def routeFingerprint (profile : RouteProfile) : Json :=
  .obj [("default", .num profile.defaultOutboundID.toInt), ("raw", .bool profile.isRaw),
    ("rawRoute", .str profile.rawRoute),
    ("rules", .arr (profile.rules.map (fun rule => .obj (rule.toShareJson w))))]

/-- An update of a subscription that reaches the running profile asks for a restart. -/
def Restarts (current updated : RouteProfile) (running : Int32) : Prop :=
  routeFingerprint w updated ≠ routeFingerprint w current ∧ updated.id = running

end

/-! ## Inner hops -/

section

variable (w : World)

def unwrapChain (entID : Int32) : List Int32 :=
  match w.getProfile entID with
  | none => []
  | some ent => if ent.type = "chain" then (ent.chain.getD []).reverse else [entID]

def canBeAuxEndpoint (entID : Int32) (ent : Profile) : Bool :=
  if ent.outbound.isNone then false
  else if ent.type = "openvpn" ∨ ent.type = "openconnect" then true
  else if ent.type ≠ "chain" then false
  else
    -- the stored list is reversed, so hop 0 is the exit
    match (unwrapChain w entID).head?.bind w.getProfile with
    | none => false
    | some exitEnt => exitEnt.type = "openvpn" ∨ exitEnt.type = "openconnect"

def auxEndpointInnerHops (endpointProfileID : Int32) : List Int32 :=
  match w.getProfile endpointProfileID with
  | none => []
  | some ent =>
    if ent.type ≠ "chain" ∨ canBeAuxEndpoint w endpointProfileID ent = false then []
    else
      (unwrapChain w endpointProfileID).tail.filter (fun hopID =>
        match w.getProfile hopID with
        | none => false
        | some hopEnt => hopEnt.outbound.isSome && (hopEnt.type == "openvpn" || hopEnt.type == "openconnect"))

end

/-! ## Targets -/

section

variable {w : World} {innerHops : Int32 → List Int32}

theorem nodup_addTarget {targets : List Int32} (h : targets.Nodup) (id : Int32) : (addTarget targets id).Nodup := by
  unfold addTarget
  split
  · exact h
  next hnew => exact nodup_append.mpr ⟨h, pairwise_singleton _ id, by
    rintro a ha b hb rfl
    rw [mem_singleton.mp hb] at ha
    exact hnew (contains_iff_mem.mpr ha)⟩

theorem mem_foldl_addTarget {ids targets : List Int32} {id : Int32} :
    id ∈ ids.foldl addTarget targets ↔ id ∈ targets ∨ id ∈ ids := by
  induction ids generalizing targets with
  | nil => simp
  | cons a rest ih =>
    have hadd : id ∈ addTarget targets a ↔ id ∈ targets ∨ id = a := by
      unfold addTarget
      split <;> grind
    rw [foldl_cons, ih, hadd, mem_cons, or_assoc]

theorem innerHops_flat {id hop : Int32} (h : hop ∈ auxEndpointInnerHops w id) : auxEndpointInnerHops w hop = [] := by
  unfold auxEndpointInnerHops at h
  split at h
  · cases h
  split at h
  · cases h
  have hkept := (mem_filter.mp h).2
  unfold auxEndpointInnerHops
  split
  · rfl
  next ent hent =>
  rw [hent] at hkept
  have hvpn : ent.type ≠ "chain" := by
    rintro hchain
    simp [hchain] at hkept
  rw [if_pos (.inl hvpn)]

/-- An endpoint, or an inner hop of one that is marked for it. -/
def IsTarget (w : World) (ids marked : List Int32) (id : Int32) : Prop :=
  id ∈ ids ∨ ∃ endpoint ∈ ids, endpoint ∈ marked ∧ id ∈ auxEndpointInnerHops w endpoint

theorem mem_targets_from {marked : List Int32} (ids : List Int32) {past targets : List Int32}
    (h : ∀ id, id ∈ targets ↔ IsTarget w past marked id) (id : Int32) :
    id ∈ ids.foldl (fun targets id =>
      if targets.contains id then targets
      else if marked.contains id then (auxEndpointInnerHops w id).foldl addTarget (targets ++ [id])
      else targets ++ [id]) targets ↔ IsTarget w (past ++ ids) marked id := by
  induction ids generalizing past targets with
  | nil => rw [append_nil, foldl_nil, h]
  | cons a rest ih =>
    rw [foldl_cons, append_cons past a rest]
    refine ih (fun x => ?_)
    have hx := h x
    unfold IsTarget at hx ⊢
    split
    · next hin =>
      have hpast := (h a).mp (contains_iff_mem.mp hin)
      have hnone : a ∈ past ∨ auxEndpointInnerHops w a = [] := hpast.imp_right (fun ⟨_, _, _, he⟩ => innerHops_flat he)
      grind
    · split
      · rw [mem_foldl_addTarget]
        grind
      · grind

theorem nodup_foldl {α : Type} {f : List Int32 → α → List Int32} (hf : ∀ l a, l.Nodup → (f l a).Nodup) (as : List α)
    {targets : List Int32} (h : targets.Nodup) : (as.foldl f targets).Nodup := by
  induction as generalizing targets with
  | nil => exact h
  | cons a rest ih => exact ih (hf targets a h)

variable (targets : List Int32) (profile : RouteProfile) (rule : RouteRule) (paired : List Int32) (fetched : RouteProfile)
  (rules : List RouteRule)

theorem nodup_targets : (endpointRuleTargets innerHops profile).Nodup := by
  refine nodup_foldl (fun targets id h => ?_) _ nodup_nil
  split
  · exact h
  next hnew =>
  have hadded : (targets ++ [id]).Nodup := by
    have hadd := nodup_addTarget h id
    rwa [addTarget, if_neg hnew] at hadd
  split
  · exact nodup_foldl (fun l a hl => nodup_addTarget hl a) _ hadded
  · exact hadded

/-! ## Rules that are kept -/

def endpointIDs (rules : List RouteRule) : List Int32 := (rules.filter isEndpoint).map (·.outboundID)

theorem endpointIDs_cons (rest : List RouteRule) :
    endpointIDs (rule :: rest) = (if isEndpoint rule then [rule.outboundID] else []) ++ endpointIDs rest := by
  unfold endpointIDs
  by_cases h : isEndpoint rule = true <;> simp [h]

theorem keepRules_others :
    (keepRules targets paired rules).1.filter (fun rule => !isEndpoint rule) =
      rules.filter (fun rule => !isEndpoint rule) := by
  induction rules generalizing paired with
  | nil => rfl
  | cons rule rest ih =>
    rw [keepRules]
    by_cases h : isEndpoint rule = true
    · rw [if_pos h, filter_cons_of_neg (by simp [h])]
      split
      · exact ih paired
      rw [filter_cons_of_neg (by simp [h])]
      exact ih _
    · rw [if_neg h, filter_cons_of_pos (by simp [h]), filter_cons_of_pos (by simp [h]), ih paired]

theorem keepRules_sublist : (keepRules targets paired rules).1.Sublist rules := by
  induction rules generalizing paired with
  | nil => exact Sublist.refl []
  | cons rule rest ih =>
    rw [keepRules]
    split
    · split
      · exact (ih paired).cons rule
      · exact (ih _).cons_cons rule
    · exact (ih paired).cons_cons rule

/-- One rule for every target that has one, and none besides. -/
theorem keepRules_ids :
    (endpointIDs (keepRules targets paired rules).1).Nodup ∧
      (∀ id, id ∈ endpointIDs (keepRules targets paired rules).1 ↔ id ∈ targets ∧ id ∈ endpointIDs rules ∧ id ∉ paired) ∧
      ∀ id, id ∈ (keepRules targets paired rules).2 ↔ id ∈ paired ∨ id ∈ targets ∧ id ∈ endpointIDs rules := by
  induction rules generalizing paired with
  | nil => exact ⟨nodup_nil, by simp [keepRules, endpointIDs], by simp [keepRules, endpointIDs]⟩
  | cons rule rest ih =>
    rw [keepRules]
    by_cases h : isEndpoint rule = true
    · rw [if_pos h]
      by_cases hdrop : (!targets.contains rule.outboundID || paired.contains rule.outboundID) = true
      · have hout : rule.outboundID ∉ targets ∨ rule.outboundID ∈ paired := by simpa using hdrop
        rw [if_pos hdrop, endpointIDs_cons, if_pos h]
        refine ⟨(ih paired).1, fun id => ?_, fun id => ?_⟩
        · rw [(ih paired).2.1]
          grind
        · rw [(ih paired).2.2]
          grind
      rw [if_neg hdrop]
      rw [endpointIDs_cons, endpointIDs_cons, if_pos h, singleton_append, singleton_append]
      obtain ⟨hnodup, hmem, hpaired⟩ := ih (rule.outboundID :: paired)
      refine ⟨nodup_cons.mpr ⟨?_, hnodup⟩, fun id => ?_, fun id => ?_⟩
      · rw [hmem]
        simp
      · rw [mem_cons, hmem]
        grind
      · rw [hpaired]
        grind
    · rw [if_neg h]
      rw [endpointIDs_cons, endpointIDs_cons, if_neg h, nil_append, nil_append]
      exact ih paired

theorem keepRules_all {targets paired : List Int32} {rules : List RouteRule} (hnodup : (endpointIDs rules).Nodup)
    (htargets : ∀ id ∈ endpointIDs rules, id ∈ targets ∧ id ∉ paired) : (keepRules targets paired rules).1 = rules := by
  induction rules generalizing paired with
  | nil => rfl
  | cons rule rest ih =>
    rw [endpointIDs_cons] at hnodup htargets
    rw [keepRules]
    by_cases h : isEndpoint rule = true
    · rw [if_pos h, singleton_append] at hnodup htargets
      obtain ⟨htarget, hfree⟩ := htargets rule.outboundID mem_cons_self
      obtain ⟨hnew, hrest⟩ := nodup_cons.mp hnodup
      rw [if_pos h, if_neg (by simp [htarget, hfree])]
      dsimp only
      rw [ih hrest (fun id hid => ⟨(htargets id (.tail _ hid)).1, ?_⟩)]
      intro hmem
      obtain rfl | hmem := mem_cons.mp hmem
      · exact hnew hid
      · exact (htargets id (.tail _ hid)).2 hmem
    · rw [if_neg h, nil_append] at hnodup htargets
      rw [if_neg h]
      dsimp only
      rw [ih hnodup htargets]

/-! ## The synchronised profile -/

theorem isEndpoint_make (id : Int32) : isEndpoint (makeEndpointRule w id) = true := rfl

theorem endpointIDs_append (l r : List RouteRule) : endpointIDs (l ++ r) = endpointIDs l ++ endpointIDs r := by
  rw [endpointIDs, filter_append, map_append]
  rfl

theorem endpointIDs_make (ids : List Int32) : endpointIDs (ids.map (makeEndpointRule w)) = ids := by
  have hall : (ids.map (makeEndpointRule w)).filter isEndpoint = ids.map (makeEndpointRule w) := by
    rw [filter_eq_self]
    intro rule hrule
    obtain ⟨id, -, rfl⟩ := mem_map.mp hrule
    exact isEndpoint_make id
  rw [endpointIDs, hall, map_map]
  exact map_id _

/-- The rules of a profile that is not raw. -/
def synced (w : World) (innerHops : Int32 → List Int32) (profile : RouteProfile) : List RouteRule :=
  (keepRules (endpointRuleTargets innerHops profile) [] profile.rules).1 ++
    ((endpointRuleTargets innerHops profile).filter
      (fun id => !(keepRules (endpointRuleTargets innerHops profile) [] profile.rules).2.contains id)).map (makeEndpointRule w)

theorem sync_eq {profile : RouteProfile} (hraw : profile.isRaw = false) :
    syncEndpointRules w innerHops profile = { profile with rules := synced w innerHops profile } := by
  rw [syncEndpointRules, hraw, if_neg Bool.false_ne_true]
  rfl

theorem synced_others :
    (synced w innerHops profile).filter (fun rule => !isEndpoint rule) =
      profile.rules.filter (fun rule => !isEndpoint rule) := by
  rw [synced, filter_append, keepRules_others]
  have hnone : ∀ ids : List Int32, (ids.map (makeEndpointRule w)).filter (fun rule => !isEndpoint rule) = [] := by
    intro ids
    rw [filter_eq_nil_iff]
    intro rule hrule
    obtain ⟨id, -, rfl⟩ := mem_map.mp hrule
    simp [isEndpoint_make]
  rw [hnone, append_nil]

theorem synced_ids :
    (endpointIDs (synced w innerHops profile)).Nodup ∧
      ∀ id, id ∈ endpointIDs (synced w innerHops profile) ↔ id ∈ endpointRuleTargets innerHops profile := by
  obtain ⟨hnodup, hmem, hpaired⟩ := keepRules_ids (endpointRuleTargets innerHops profile) [] profile.rules
  have htargets := @nodup_targets innerHops profile
  rw [synced, endpointIDs_append, endpointIDs_make]
  refine ⟨nodup_append.mpr ⟨hnodup, htargets.filter _, ?_⟩, fun id => ?_⟩
  · rintro a ha b hb rfl
    have hkept := (hmem a).mp ha
    have hfree := (mem_filter.mp hb).2
    have hin := (hpaired a).mpr (.inr ⟨hkept.1, hkept.2.1⟩)
    simp [hin] at hfree
  · rw [mem_append, hmem, mem_filter]
    have hin := hpaired id
    simp only [not_mem_nil, false_or, not_false_eq_true, and_true, Bool.not_eq_true', contains_eq_mem,
      decide_eq_false_iff_not] at hin ⊢
    tauto

theorem count_endpointIDs (id : Int32) :
    rules.countP (fun rule => isEndpoint rule && rule.outboundID == id) = (endpointIDs rules).count id := by
  rw [endpointIDs, count, countP_map, countP_filter]
  refine countP_congr (fun rule _ => ?_)
  simp [and_comm]

theorem synced_count (id : Int32) :
    (synced w innerHops profile).countP (fun rule => isEndpoint rule && rule.outboundID == id) =
      if id ∈ endpointRuleTargets innerHops profile then 1 else 0 := by
  obtain ⟨hnodup, hmem⟩ := @synced_ids w innerHops profile
  rw [count_endpointIDs]
  by_cases hid : id ∈ endpointRuleTargets innerHops profile
  · rw [if_pos hid]
    exact count_eq_one_of_mem hnodup ((hmem id).mpr hid)
  · rw [if_neg hid]
    exact count_eq_zero_of_not_mem (fun hin => hid ((hmem id).mp hin))

/-- The rules that are kept in their order, and new ones for targets without one. -/
theorem synced_parts :
    ∃ kept added, synced w innerHops profile = kept ++ added ∧ kept.Sublist profile.rules ∧
      ∀ rule ∈ added, isEndpoint rule = true ∧ rule.outboundID ∉ endpointIDs profile.rules := by
  refine ⟨_, _, rfl, keepRules_sublist _ _ _, fun rule hrule => ?_⟩
  obtain ⟨id, hid, rfl⟩ := mem_map.mp hrule
  obtain ⟨htarget, hfree⟩ := mem_filter.mp hid
  refine ⟨isEndpoint_make id, fun hold => ?_⟩
  have hin := ((keepRules_ids (endpointRuleTargets innerHops profile) [] profile.rules).2.2 id).mpr (.inr ⟨htarget, hold⟩)
  simp [hin] at hfree

theorem synced_again {profile : RouteProfile} (hnodup : (endpointIDs profile.rules).Nodup)
    (htargets : ∀ id, id ∈ endpointIDs profile.rules ↔ id ∈ endpointRuleTargets innerHops profile) :
    synced w innerHops profile = profile.rules := by
  have hpaired := (keepRules_ids (endpointRuleTargets innerHops profile) [] profile.rules).2.2
  have hnone : (endpointRuleTargets innerHops profile).filter
      (fun id => !(keepRules (endpointRuleTargets innerHops profile) [] profile.rules).2.contains id) = [] := by
    rw [filter_eq_nil_iff]
    intro id hid
    have hin := (hpaired id).mpr (.inr ⟨hid, (htargets id).mpr hid⟩)
    simp [hin]
  rw [synced, hnone, map_nil, append_nil]
  exact keepRules_all hnodup (fun id hid => ⟨(htargets id).mp hid, by simp⟩)

theorem mem_targets (id : Int32) :
    id ∈ endpointRuleTargets (auxEndpointInnerHops w) profile ↔
      IsTarget w profile.endpointProfileIDs profile.innerHopEndpointIDs id :=
  @mem_targets_from w _ profile.endpointProfileIDs [] [] (by simp [IsTarget]) id

/-- **Endpoint rules.** A profile that is not raw is left with one endpoint rule for each endpoint and each inner hop of those
marked for it and with none for other ids; every other rule is kept, the kept ones are in their order before the new ones,
and a second time nothing changes. -/
theorem syncEndpointRules_contract (w : World) (profile : RouteProfile) (hraw : profile.isRaw = false) :
    ∃ kept added, syncEndpointRules w (auxEndpointInnerHops w) profile = { profile with rules := kept ++ added } ∧
      (∀ id, (IsTarget w profile.endpointProfileIDs profile.innerHopEndpointIDs id →
          (kept ++ added).countP (fun rule => isEndpoint rule && rule.outboundID == id) = 1) ∧
        (¬ IsTarget w profile.endpointProfileIDs profile.innerHopEndpointIDs id →
          (kept ++ added).countP (fun rule => isEndpoint rule && rule.outboundID == id) = 0)) ∧
      kept.Sublist profile.rules ∧
      kept.filter (fun rule => !isEndpoint rule) = profile.rules.filter (fun rule => !isEndpoint rule) ∧
      (∀ rule ∈ added, isEndpoint rule = true) ∧
      syncEndpointRules w (auxEndpointInnerHops w) { profile with rules := kept ++ added } =
        { profile with rules := kept ++ added } := by
  obtain ⟨kept, added, hparts, hkept, hadded⟩ := @synced_parts w (auxEndpointInnerHops w) profile
  obtain ⟨hnodup, hmem⟩ := @synced_ids w (auxEndpointInnerHops w) profile
  have hcount := @synced_count w (auxEndpointInnerHops w) profile
  have hothers := @synced_others w (auxEndpointInnerHops w) profile
  have hnone : added.filter (fun rule => !isEndpoint rule) = [] := by
    rw [filter_eq_nil_iff]
    intro rule hrule
    simp [(hadded rule hrule).1]
  rw [hparts] at hcount hothers hnodup hmem
  rw [filter_append, hnone, append_nil] at hothers
  refine ⟨kept, added, by rw [sync_eq hraw, hparts], fun id => ⟨fun hid => ?_, fun hid => ?_⟩, hkept, hothers,
    fun rule hrule => (hadded rule hrule).1, ?_⟩
  · rw [hcount, if_pos ((mem_targets profile id).mpr hid)]
  · rw [hcount, if_neg (fun hin => hid ((mem_targets profile id).mp hin))]
  · have hagain := @synced_again w (auxEndpointInnerHops w) { profile with rules := kept ++ added } hnodup hmem
    exact (@sync_eq w _ { profile with rules := kept ++ added } hraw).trans (by rw [hagain])

/-- A chain whose exit is an OpenVPN server behind another one, marked for its inner hop, which is an endpoint of its own too. -/
def vpnWorld : World :=
  { plainWorld with
    profiles :=
      [(1, { type := "openvpn", outbound := some ⟨"exit", "", false, false⟩ }),
        (2, { type := "openvpn", outbound := some ⟨"entry", "", false, false⟩ }),
        (3, { type := "chain", outbound := some ⟨"both", "", false, false⟩, chain := some [2, 1] })] }

def vpnRoute : RouteProfile where
  endpointProfileIDs := [3, 2]
  innerHopEndpointIDs := [3]
  rules := [{ type := endpointPreferredBy, outboundID := 2 }, { type := endpointPreferredBy, outboundID := 7 }]

theorem vpnRoute_synced :
    (syncEndpointRules vpnWorld (auxEndpointInnerHops vpnWorld) vpnRoute).rules.map (·.outboundID) = [2, 3] ∧
      ∃ rules, syncEndpointRules vpnWorld (auxEndpointInnerHops vpnWorld) vpnRoute = { vpnRoute with rules := rules } ∧
        syncEndpointRules vpnWorld (auxEndpointInnerHops vpnWorld) { vpnRoute with rules := rules } = { vpnRoute with rules := rules } := by
  obtain ⟨kept, added, hsync, -, -, -, -, hagain⟩ := syncEndpointRules_contract vpnWorld vpnRoute rfl
  exact ⟨by decide +kernel, kept ++ added, hsync, hagain⟩

/-! ## The replaced rules -/

/-- A rule of the document, with what is switched off locally. -/
def switched (profile : RouteProfile) (rule : RouteRule) : RouteRule :=
  { rule with
    disabled := rule.disabled ||
      profile.rules.any (fun old => !isEndpoint old && old.disabled && old.name == rule.name) }

theorem switched_eq :
    (if (disabledNames profile).contains rule.name then { rule with disabled := true } else rule) =
      switched profile rule := by
  have hany : profile.rules.any (fun old => !isEndpoint old && old.disabled && old.name == rule.name) =
      (disabledNames profile).contains rule.name := by
    rw [Bool.eq_iff_iff, contains_iff_mem, disabledNames]
    simp [and_assoc]
  unfold switched
  rw [hany]
  cases (disabledNames profile).contains rule.name <;> simp

/-- The rules before they are synchronised. -/
def spliced (profile fetched : RouteProfile) : RouteProfile :=
  { profile with
    isRaw := false
    rawRoute := ""
    rules := putBack ((fetched.rules.filter (fun rule => !isEndpoint rule)).map (switched profile)) (cutOut isEndpoint profile.rules) }

theorem replaceRules_eq :
    replaceRules w innerHops profile fetched =
      { spliced profile fetched with
        rules := synced w innerHops (spliced profile fetched)
        defaultOutboundID := fetched.defaultOutboundID } := by
  have hmap : (fetched.rules.filter (fun rule => !isEndpoint rule)).map (fun rule =>
      if (disabledNames profile).contains rule.name then { rule with disabled := true } else rule) =
      (fetched.rules.filter (fun rule => !isEndpoint rule)).map (switched profile) :=
    map_congr_left (fun rule _ => switched_eq profile rule)
  rw [replaceRules, hmap]
  rfl

theorem switched_endpoint : isEndpoint (switched profile rule) = isEndpoint rule := rfl

theorem others_only {rule : RouteRule}
    (h : rule ∈ (fetched.rules.filter (fun rule => !isEndpoint rule)).map (switched profile)) :
    isEndpoint rule = false := by
  obtain ⟨old, hold, rfl⟩ := mem_map.mp h
  simpa [switched_endpoint] using (mem_filter.mp hold).2

theorem spliced_others :
    (spliced profile fetched).rules.filter (fun rule => !isEndpoint rule) =
      (fetched.rules.filter (fun rule => !isEndpoint rule)).map (switched profile) := by
  show (putBack _ _).filter _ = _
  rw [filter_putBack_not (fun x hx => by simp [mem_cutOut hx]), filter_eq_self]
  intro rule hrule
  simp [others_only profile fetched hrule]

theorem spliced_endpoints :
    (spliced profile fetched).rules.filter isEndpoint = profile.rules.filter isEndpoint := by
  show (putBack _ _).filter _ = _
  rw [filter_putBack (rising_cutOut _) (fun x hx => mem_cutOut hx) (fun rule hrule => others_only profile fetched hrule),
    cutOut_map_fst]

/-- What an update makes of the rules of a profile. -/
structure Replaced (w : World) (innerHops : Int32 → List Int32) (profile fetched updated : RouteProfile) : Prop where
  /-- the rules of the document, in its order -/
  others : updated.rules.filter (fun rule => !isEndpoint rule) =
    (fetched.rules.filter (fun rule => !isEndpoint rule)).map (switched profile)
  /-- one endpoint rule for every target -/
  targets : ∀ id, updated.rules.countP (fun rule => isEndpoint rule && rule.outboundID == id) =
    if id ∈ endpointRuleTargets innerHops updated then 1 else 0
  same : endpointRuleTargets innerHops updated = endpointRuleTargets innerHops profile
  /-- the local ones in their order, and new ones for targets without one -/
  order : ∃ kept added, updated.rules.filter isEndpoint = kept ++ added ∧
    kept.Sublist (profile.rules.filter isEndpoint) ∧
    ∀ rule ∈ added, rule.outboundID ∉ endpointIDs profile.rules
  fallback : updated.defaultOutboundID = fetched.defaultOutboundID

theorem replaceRules_replaced :
    Replaced w innerHops profile fetched (replaceRules w innerHops profile fetched) := by
  have hsame : endpointRuleTargets innerHops (replaceRules w innerHops profile fetched) =
    endpointRuleTargets innerHops profile := by
    rfl
  have hspliced : endpointRuleTargets innerHops (spliced profile fetched) = endpointRuleTargets innerHops profile := rfl
  refine ⟨?_, fun id => ?_, hsame, ?_, ?_⟩
  · rw [replaceRules_eq]
    exact (synced_others _).trans (spliced_others profile fetched)
  · rw [hsame, replaceRules_eq]
    exact synced_count (spliced profile fetched) id
  · rw [replaceRules_eq]
    obtain ⟨kept, added, hparts, hkept, hadded⟩ := @synced_parts w innerHops (spliced profile fetched)
    refine ⟨kept.filter isEndpoint, added, ?_, ?_, fun rule hrule hold => (hadded rule hrule).2 ?_⟩
    · show (synced w innerHops (spliced profile fetched)).filter isEndpoint = _
      rw [hparts, filter_append, filter_eq_self.mpr (fun rule hrule => (hadded rule hrule).1)]
    · rw [← spliced_endpoints profile fetched]
      exact hkept.filter _
    · rwa [endpointIDs, spliced_endpoints]
  · rw [replaceRules_eq]

/-! ## A second update -/

/-- A rule that the document leaves on is not switched off by another one of its name. -/
def OneSwitch (profile fetched : RouteProfile) : Prop :=
  ∀ rule ∈ fetched.rules, ∀ other ∈ fetched.rules, isEndpoint rule = false → isEndpoint other = false →
    rule.name = other.name → other.disabled = true → rule.disabled = true ∨ rule.name ∈ disabledNames profile

theorem switched_disabled :
    (switched profile rule).disabled = true ↔ rule.disabled = true ∨ rule.name ∈ disabledNames profile := by
  have hany : profile.rules.any (fun old => !isEndpoint old && old.disabled && old.name == rule.name) = true ↔
      rule.name ∈ disabledNames profile := by
    simp [disabledNames, and_assoc]
  rw [switched, Bool.or_eq_true, hany]

/-- What is switched off after an update. -/
theorem disabledNames_replaced (name : String) :
    name ∈ disabledNames (replaceRules w innerHops profile fetched) ↔
      ∃ rule ∈ fetched.rules, isEndpoint rule = false ∧ rule.name = name ∧
        (rule.disabled = true ∨ name ∈ disabledNames profile) := by
  have hfilter : (replaceRules w innerHops profile fetched).rules.filter (fun rule => !isEndpoint rule && rule.disabled) =
      ((fetched.rules.filter (fun rule => !isEndpoint rule)).map (switched profile)).filter (·.disabled) := by
    rw [← (@replaceRules_replaced w innerHops profile fetched).others, filter_filter]
    exact filter_congr (fun rule _ => Bool.and_comm _ _)
  rw [disabledNames, hfilter]
  simp only [mem_map, mem_filter, Bool.not_eq_true']
  constructor
  · rintro ⟨_, ⟨⟨rule, ⟨hrule, hkind⟩, rfl⟩, hdisabled⟩, rfl⟩
    exact ⟨rule, hrule, hkind, rfl, (switched_disabled profile rule).mp hdisabled⟩
  · rintro ⟨rule, hrule, hkind, rfl, hoff⟩
    exact ⟨switched profile rule, ⟨⟨rule, ⟨hrule, hkind⟩, rfl⟩, (switched_disabled profile rule).mpr hoff⟩, rfl⟩

theorem switched_congr {profile other : RouteProfile} {rule : RouteRule}
    (h : (switched profile rule).disabled = (switched other rule).disabled) :
    switched profile rule = switched other rule := by
  have hfields : ∀ a b : Bool, a = b → ({ rule with disabled := a } : RouteRule) = { rule with disabled := b } := by
    rintro a _ rfl
    rfl
  exact hfields _ _ h

/-- A second update with the same document. -/
theorem replaceRules_twice :
    replaceRules w innerHops (replaceRules w innerHops profile fetched) fetched =
      replaceRules w innerHops profile fetched ↔
      OneSwitch profile fetched := by
  set next := replaceRules w innerHops profile fetched with hnext
  have hfirst : Replaced w innerHops profile fetched next := replaceRules_replaced profile fetched
  have hsecond := @replaceRules_replaced w innerHops next fetched
  constructor
  · intro heq rule hrule other hother hkind hotherKind hname hoff
    have hmaps : (fetched.rules.filter (fun rule => !isEndpoint rule)).map (switched next) =
        (fetched.rules.filter (fun rule => !isEndpoint rule)).map (switched profile) := by
      rw [← hsecond.others, heq, hfirst.others]
    have hone := map_inj_left.mp hmaps rule (mem_filter.mpr ⟨hrule, by simp [hkind]⟩)
    have hname' : rule.name ∈ disabledNames next :=
      (disabledNames_replaced profile fetched rule.name).mpr ⟨other, hother, hotherKind, hname.symm, .inl hoff⟩
    have hdisabled := (switched_disabled next rule).mpr (.inr hname')
    rw [hone] at hdisabled
    exact (switched_disabled profile rule).mp hdisabled
  · intro hcond
    have hmaps : (fetched.rules.filter (fun rule => !isEndpoint rule)).map (switched next) =
        (fetched.rules.filter (fun rule => !isEndpoint rule)).map (switched profile) := by
      refine map_congr_left (fun rule hrule => switched_congr (Bool.eq_iff_iff.mpr ?_))
      obtain ⟨hrule, hkind⟩ := mem_filter.mp hrule
      have hkind : isEndpoint rule = false := by simpa using hkind
      rw [switched_disabled, switched_disabled, disabledNames_replaced]
      constructor
      · rintro (hoff | ⟨other, hother, hotherKind, hname, hoff | hlocal⟩)
        · exact .inl hoff
        · exact hcond rule hrule other hother hkind hotherKind hname.symm hoff
        · exact .inr hlocal
      · rintro (hoff | hlocal)
        · exact .inl hoff
        · exact .inr ⟨rule, hrule, hkind, rfl, .inr hlocal⟩
    have hrules : (spliced next fetched).rules = next.rules := by
      show putBack _ _ = _
      rw [hmaps, ← hfirst.others]
      exact putBack_cutOut _
    have hkeep : ∀ (q : RouteProfile) (rules : List RouteRule), q.isRaw = false → q.rawRoute = "" → rules = q.rules →
        ({ q with isRaw := false, rawRoute := "", rules := rules } : RouteProfile) = q := by
      rintro ⟨⟩ _ rfl rfl rfl
      rfl
    have hraw : next.isRaw = false ∧ next.rawRoute = "" := by
      exact ⟨rfl, rfl⟩
    have hspliced : spliced next fetched = next :=
      hkeep _ _ hraw.1 hraw.2 hrules
    obtain ⟨hnodup, hmem⟩ := @synced_ids w innerHops (spliced profile fetched)
    have hlocal : next.rules = synced w innerHops (spliced profile fetched) := by
      rw [hnext, replaceRules_eq]
    have hagain : synced w innerHops next = next.rules := by
      refine synced_again (hlocal ▸ hnodup) (fun id => ?_)
      rw [hlocal, hmem, hfirst.same]
      rfl
    have hlast : ∀ q : RouteProfile, q.defaultOutboundID = fetched.defaultOutboundID →
        ({ q with rules := q.rules, defaultOutboundID := fetched.defaultOutboundID } : RouteProfile) = q := by
      rintro ⟨⟩ rfl
      rfl
    rw [replaceRules_eq next, hspliced, hagain]
    exact hlast _ hfirst.fallback

/-- **Updates of a routing profile.** The rules of the document are there in their order, switched off where the document
or a rule of that name which they replace says so, with one endpoint rule for every target, the local ones in their order;
and a second update with the same document changes nothing and asks for no restart exactly when the document has no rule
switched off beside one of the same name that is on. -/
theorem replaceRules_contract (w : World) (innerHops : Int32 → List Int32) (profile fetched : RouteProfile) :
    (Replaced w innerHops profile fetched (replaceRules w innerHops profile fetched) ∧
      replaceRules w innerHops (replaceRules w innerHops profile fetched) fetched =
        replaceRules w innerHops profile fetched ∧
      ∀ running, ¬ Restarts w (replaceRules w innerHops profile fetched)
        (replaceRules w innerHops (replaceRules w innerHops profile fetched) fetched) running) ↔
          OneSwitch profile fetched := by
  rw [← @replaceRules_twice w innerHops]
  constructor
  · rintro ⟨-, htwice, -⟩
    exact htwice
  · intro htwice
    refine ⟨replaceRules_replaced profile fetched, htwice, fun running hrestarts => hrestarts.1 ?_⟩
    rw [htwice]

/-- A document with one rule twice, once switched off. -/
def twiceNamed : RouteProfile where
  rules := [{ name := "ads", action := "reject", domain := ["a.example"], disabled := true },
    { name := "ads", action := "reject", domain := ["b.example"] }]


def emptyRemote : RouteProfile where
  id := 3
  isRemote := true

def memberCounts (fingerprint : Json) : List Nat :=
    (fingerprint.value "rules").toArray.map (fun rule => rule.toObject.length)

/-- The first update leaves the second rule on; the next one, with the same document, switches it off and restarts. -/
theorem twice_named_restarts :
    (replaceRules plainWorld (fun _ => []) emptyRemote twiceNamed).rules.map (·.disabled) = [true, false] ∧
      (replaceRules plainWorld (fun _ => []) (replaceRules plainWorld (fun _ => []) emptyRemote twiceNamed) twiceNamed).rules.map (·.disabled) =
        [true, true] ∧
      Restarts plainWorld (replaceRules plainWorld (fun _ => []) emptyRemote twiceNamed)
        (replaceRules plainWorld (fun _ => []) (replaceRules plainWorld (fun _ => []) emptyRemote twiceNamed) twiceNamed) 3 := by
  refine ⟨by decide +kernel, by decide +kernel, fun heq => ?_, by decide +kernel⟩
  have hcounts := congrArg memberCounts heq
  revert hcounts
  decide +kernel

end

end Waterdisco.Routing
