import Waterdisco.Config.Path

/-!
# The tags of a chain

`BuiltChain` is a chain with what `buildOutboundChain` made of it.  Its sing-box
outbounds, bridge included, carry the tags of the places `0, 1, ...` of the chain, and
so do its Xray outbounds; no chain takes more places than it has hops.

    singTags = tags of 0 .. n-1,   n ≤ number of hops        (BuiltChain.Ok.singTags)
    the chains of a routing profile, one after the other, share no tag   (row_nodup)
-/

namespace Waterdisco.Config

open Route CoreConfigs List Nat HopChainOptions

structure BuiltChain where
  req : ChainBuildRequest
  scan : ChainScan
  toXray : Option Bridge
  toSing : Option Bridge

namespace BuiltChain

def split (c : BuiltChain) : SplitHops := splitHops c.scan.ents

def part (c : BuiltChain) : Part := c.req.part c.split c.toXray c.toSing

/-- The chain is one that `buildOutboundChain` accepts. -/
structure Ok (w : World) (c : BuiltChain) : Prop where
  scanned : Scanned w c.req.hopIDs c.scan
  shaped : Shaped c.scan
  toXray : c.toXray.isSome = c.scan.singToXrayTransitioned
  toSing : c.toSing.isSome = c.scan.xrayToSingTransitioned

end BuiltChain

/-! ## The parts of the split -/

theorem splitHops_isXray (ents : List Profile) :
    (∀ p ∈ (splitHops ents).leading, p.isXray = false) ∧ (∀ p ∈ (splitHops ents).xray, p.isXray = true) ∧
      ∀ p ∈ (splitHops ents).tailing, p.isXray = false := by
  induction ents using reverseRecOn with
  | nil => simp [splitHops]
  | append_singleton ents ent ih =>
    rw [splitHops_concat]
    have hconcat (l : List Profile) (x : Bool) (hl : ∀ p ∈ l, p.isXray = x) (he : ent.isXray = x) :
        ∀ p ∈ l ++ [ent], p.isXray = x := by
      intro p hp
      rcases mem_append.mp hp with hp | hp
      · exact hl p hp
      · rw [mem_singleton.mp hp, he]
    unfold SplitHops.add
    split
    · rename_i hX
      exact ⟨ih.1, hconcat _ true ih.2.1 hX, ih.2.2⟩
    rename_i hX
    rw [Bool.not_eq_true] at hX
    split
    · exact ⟨hconcat _ false ih.1 hX, ih.2⟩
    · exact ⟨ih.1, ih.2.1, hconcat _ false ih.2.2 hX⟩

section
variable {w : World} {c : BuiltChain}

namespace BuiltChain.Ok

variable (h : c.Ok w)

include h

theorem hops : c.split.all = c.scan.ents := h.shaped.join.symm

theorem hops_some : c.split.all.map some = c.req.hopIDs.map w.hop := by
  rw [h.hops, h.scanned.hops]

theorem length : c.split.all.length = c.req.hopIDs.length := by
  have := congrArg List.length h.hops_some
  simpa using this

theorem toXray_iff : c.toXray.isSome = true ↔ c.split.xray ≠ [] := by
  have hxray : c.split.xray = [] ↔ c.scan.coreTransitions = 0 := h.shaped.xray
  rw [h.toXray, h.shaped.toXray, decide_eq_true_iff, Ne, hxray]
  omega

theorem toSing_iff : c.toSing.isSome = true ↔ c.split.tailing ≠ [] := by
  have htailing : c.split.tailing = [] ↔ c.scan.coreTransitions ≤ 1 := h.shaped.tailing
  rw [h.toSing, h.shaped.toSing, decide_eq_true_iff, Ne, htailing]
  omega

theorem xray_of_tailing (ht : c.split.tailing ≠ []) : c.split.xray ≠ [] := by
  have hxray : c.split.xray = [] ↔ c.scan.coreTransitions = 0 := h.shaped.xray
  have htailing : c.split.tailing = [] ↔ c.scan.coreTransitions ≤ 1 := h.shaped.tailing
  rw [Ne, hxray]
  rw [Ne, htailing] at ht
  omega

/-- A chain that starts with a hop of sing-box has one in front of Xray. -/
theorem leading_ne {first : Profile} (hfirst : c.scan.ents.head? = some first)
    (hX : first.isXray = false) : c.split.leading ≠ [] := by
  intro hempty
  have hjoin := h.hops
  rw [SplitHops.all, hempty, nil_append] at hjoin
  by_cases hx : c.split.xray = []
  · have ht : c.split.tailing = [] := by
      by_contra hne
      exact h.xray_of_tailing hne hx
    rw [hx, ht] at hjoin
    rw [← hjoin] at hfirst
    cases hfirst
  obtain ⟨x, xs, hxs⟩ := exists_cons_of_ne_nil hx
  rw [hxs] at hjoin
  rw [← hjoin] at hfirst
  cases hfirst
  have hmem : first ∈ c.split.xray := by
    rw [hxs]
    exact .head _
  have := (splitHops_isXray c.scan.ents).2.1 first hmem
  rw [hX] at this
  cases this

end BuiltChain.Ok

/-! ## Tags of sing-box -/

def BuiltChain.singCount (c : BuiltChain) : Nat := (initialEnts c.split c.toXray).length + c.split.tailing.length

def BuiltChain.xrayCount (c : BuiltChain) : Nat :=
  if c.split.xray = [] then 0 else c.split.xray.length + c.toSing.toList.length

variable (opts : HopChainOptions)

theorem singOutbounds_tags (ents : List Ent) (idx : Nat) :
    (opts.singOutbounds idx ents).map Outbound.tag = (range' idx ents.length).map opts.singTag := by
  induction ents generalizing idx with
  | nil => rfl
  | cons ent rest ih =>
    rw [singOutbounds, map_cons, ih, length_cons, range'_succ, map_cons]
    rfl

theorem singTag_cases (i : Nat) :
    (i = 1 ∧ opts.warpWrap = true ∧ opts.singTag i = Tags.warpBypass) ∨
      (i = 0 ∧ opts.includeProxy = true ∧ opts.singTag i = Tags.proxy) ∨
      opts.singTag i = hopTag opts.chain (opts.startSuffix + i : Nat) := by
  unfold singTag
  split
  · rename_i h
    rw [Bool.and_eq_true, beq_iff_eq] at h
    exact .inl ⟨h.2, h.1, rfl⟩
  split
  · rename_i h
    rw [Bool.and_eq_true, beq_iff_eq] at h
    exact .inr (.inl ⟨h.2, h.1, rfl⟩)
  · exact .inr (.inr rfl)

theorem proxy_ne_warpBypass : Tags.proxy ≠ Tags.warpBypass := by decide

theorem singTag_injective : Function.Injective opts.singTag := by
  intro i j h
  rcases singTag_cases opts i with ⟨hi, _, hti⟩ | ⟨hi, _, hti⟩ | hti <;>
    rcases singTag_cases opts j with ⟨hj, _, htj⟩ | ⟨hj, _, htj⟩ | htj <;>
    rw [hti, htj] at h
  · omega
  · exact absurd h.symm proxy_ne_warpBypass
  · exact absurd h.symm (hopTag_ne_warpBypass _ _)
  · exact absurd h proxy_ne_warpBypass
  · omega
  · exact absurd h.symm (hopTag_ne_proxy _ _)
  · exact absurd h (hopTag_ne_warpBypass _ _)
  · exact absurd h (hopTag_ne_proxy _ _)
  · have := (hopTag_inj.mp h).2
    omega

theorem xrayTag_injective : Function.Injective opts.xrayTag :=
  singTag_injective { opts with warpWrap := false }

/-- The hops behind Xray take the places after those in front. -/
theorem tailingOpts_singTag (req : ChainBuildRequest) (leading i : Nat) (hproxy : leading + i ≠ 0)
    (hwarp : req.warpWrap = true → leading + i ≠ 1) :
    (req.tailingOpts leading).singTag i = req.leadingOpts.singTag (leading + i) := by
  have htail : (req.tailingOpts leading).singTag i = hopTag req.chain (req.startSuffix + leading + i : Nat) := by
    simp [singTag, ChainBuildRequest.tailingOpts]
  rcases singTag_cases req.leadingOpts (leading + i) with ⟨hi, hw, _⟩ | ⟨hi, _, _⟩ | ht
  · exact absurd hi (hwarp hw)
  · exact absurd hi hproxy
  · rw [htail, ht, add_assoc]
    rfl

open BuiltChain

/-- **The sing-box outbounds of a chain carry the tags of its first places.** -/
theorem BuiltChain.Ok.singTags (h : c.Ok w) (hwarp : c.req.warpWrap = true → c.split.leading ≠ []) :
    c.part.sing.map Outbound.tag = (range c.singCount).map c.req.leadingOpts.singTag := by
  have hpart : c.part.sing = c.req.leadingOpts.singOutbounds 0 (initialEnts c.split c.toXray) ++
      (c.req.tailingOpts (initialEnts c.split c.toXray).length).singOutbounds 0 (c.split.tailing.map Ent.profile) := by
    unfold part ChainBuildRequest.part
    by_cases hx : c.split.xray = [] <;> simp [hx, singPart, xrayPart]
  rw [hpart, map_append, singOutbounds_tags, singOutbounds_tags, singCount, length_map]
  rw [range_eq_range', ← range'_append_1, map_append]
  congr 1
  by_cases ht : c.split.tailing = []
  · simp [ht]
  have hbridge : c.toXray.isSome = true := h.toXray_iff.mpr (h.xray_of_tailing ht)
  obtain ⟨b, hb⟩ := Option.isSome_iff_exists.mp hbridge
  have hlen : (initialEnts c.split c.toXray).length = c.split.leading.length + 1 := by simp [initialEnts, hb]
  apply ext_getElem
  · simp
  intro i h₁ h₂
  simp only [getElem_map, getElem_range', zero_add, one_mul]
  refine tailingOpts_singTag c.req _ i (by omega) ?_
  intro hw
  have := length_pos_iff.mpr (hwarp hw)
  omega

theorem BuiltChain.Ok.singTags_nodup (h : c.Ok w) (hwarp : c.req.warpWrap = true → c.split.leading ≠ []) :
    (c.part.sing.map Outbound.tag).Nodup := by
  rw [h.singTags hwarp]
  exact (nodup_range).map (singTag_injective _)

/-- A chain has a bridge only where an Xray hop takes no place of its own. -/
theorem BuiltChain.Ok.singCount_le (h : c.Ok w) : c.singCount ≤ c.req.hopIDs.length := by
  rw [← h.length]
  unfold singCount initialEnts SplitHops.all
  cases hb : c.toXray with
  | none =>
    simp
  | some b =>
    have hx := length_pos_iff.mpr (h.toXray_iff.mp (by rw [hb]; rfl))
    simp
    omega

/-! ## Tags of Xray -/

theorem xrayOutbounds_tags (bridge : Option Bridge) (hops : List Profile) (idx : Nat)
    (hidx : idx + hops.length ≠ 0) :
    (opts.xrayOutbounds bridge idx hops).map XrayOutbound.tag =
      (range' idx (hops.length + bridge.toList.length)).map opts.xrayTag := by
  induction hops generalizing idx with
  | nil =>
    cases bridge with
    | none => rfl
    | some b =>
      have hne : idx ≠ 0 := by simpa using hidx
      simp [HopChainOptions.xrayOutbounds, HopChainOptions.xrayTag, hne]
  | cons hop rest ih =>
    rw [HopChainOptions.xrayOutbounds, map_cons, ih (idx + 1) (by omega), length_cons,
      add_right_comm, range'_succ, map_cons]
    rfl

theorem BuiltChain.xray_part (c : BuiltChain) :
    c.part.xray = if c.split.xray = [] then [] else c.req.leadingOpts.xrayOutbounds c.toSing 0 c.split.xray := by
  unfold part ChainBuildRequest.part
  by_cases hx : c.split.xray = [] <;> simp [hx, singPart, xrayPart]

theorem BuiltChain.xrayTags (c : BuiltChain) :
    c.part.xray.map XrayOutbound.tag = (range c.xrayCount).map c.req.leadingOpts.xrayTag := by
  rw [c.xray_part, xrayCount]
  split
  · rfl
  rename_i hx
  have := length_pos_iff.mpr hx
  rw [xrayOutbounds_tags _ _ _ _ (by omega), range_eq_range']

theorem BuiltChain.xrayTags_nodup (c : BuiltChain) : (c.part.xray.map XrayOutbound.tag).Nodup := by
  rw [c.xrayTags]
  exact (nodup_range).map (xrayTag_injective _)

theorem BuiltChain.Ok.xrayCount_le (h : c.Ok w) : c.xrayCount ≤ c.req.hopIDs.length := by
  rw [← h.length]
  unfold xrayCount SplitHops.all
  split
  · omega
  cases hb : c.toSing with
  | none =>
    simp
    omega
  | some b =>
    have ht := length_pos_iff.mpr (h.toSing_iff.mp (by rw [hb]; rfl))
    simp
    omega

end

end Waterdisco.Config
