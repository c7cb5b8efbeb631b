import Waterdisco.Route.RuleRepair

/-!
# What an imported rule matches

An imported rule has no error, and of the conditions of its object it keeps those that
`Meets` says (`imported_contract`).  Beside what it does with an item the core refuses, a
condition gets lost where a field of one value reads the first text of several only, and
where a rule of a simple list loses every item of a list.

    isEmpty ↔ emitsNothing of the values           (isEmpty_iff)
    takes ↔ nothing is lost by reading the items   (takes_iff)
-/

namespace Waterdisco.Routing

open List RouteRule Attr
open Route (trimmed getAsArray emitsOutbound RuleMatch.noValues)

/-- The attributes whose conditions are OR-ed. -/
def addressAttributes : List Attr := [.domain, .domainSuffix, .domainKeyword, .domainRegex, .ruleSet, .ipCidr]

/-- The values that the object asks of an attribute; a flag that is false asks nothing. -/
def Attr.asked (a : Attr) (items : List String) : List String :=
  (filterEmpty items).filter (fun item => !(a.getInputType == .trufalse && item == "false"))

/-- No condition of the object is lost: a condition is unchanged in an inverted rule and has a part of its items
left in any other, unless it is one of several addresses or the rule is empty. -/
def KeepsConditions (w : World) (obj : JsonObject) (rule : RouteRule) : Prop :=
  ∀ a : Attr, a.isMatchAttribute = true → a.asked (given w obj a) ≠ [] →
    (if rule.invert = true then rule.values a = a.asked (given w obj a)
      else rule.values a ≠ [] ∧ (rule.values a).Sublist (a.asked (given w obj a))) ∨
    (a ∈ addressAttributes ∧ ∃ b ∈ addressAttributes, b ≠ a ∧ rule.values b ≠ []) ∨
    rule.isEmpty w = true

/-! ## The condition -/

/-- A field of one value takes the first text: it is one that counts, and the only one if the rule is inverted. -/
def Attr.takes (a : Attr) (inverted : Bool) (items : List String) : Prop :=
  a.isListAttribute = true ∨
    ((if a.getInputType = .trufalse then scalar items = "true" else scalar items ≠ "") ∧
      (inverted = true → (a.asked items).length = 1))

/-- One of the options that a route-options rule needs. -/
def hasOption (held : Attr → List String) : Prop :=
  held .overrideAddress ≠ [] ∨ toInt ((held .overridePort).headD "") > 0 ∨ held .tlsFragment ≠ [] ∨
    held .tlsRecordFragment ≠ [] ∨ held .tlsSpoof ≠ []

/-- A rule with these values emits nothing. -/
def emitsNothing (type : Int32) (act : String) (held : Attr → List String) : Prop :=
  if type = custom then
    (act = "hijack-dns" ∨ (act = "route-options" ∧ ¬ hasOption held)) ∧ ∀ a : Attr,
      a.isMatchAttribute = true → held a = []
  else if type = endpointPreferredBy then False
  else if isSimpleAddress type = true then ∀ a ∈ addressAttributes, held a = []
  else held .processName = [] ∧ held .processPath = []

/-- The items of the object that the field takes and the checks pass. -/
def passing (w : World) (obj : JsonObject) (a : Attr) : List String := good w a (a.keeps (given w obj a))

def givenType (obj : JsonObject) : Int32 := tokenToRuleType (obj.text "type")

def givenAction (w : World) (obj : JsonObject) : String :=
  ({ action := actionText (given w obj .action), outboundID := givenOutbound w obj } : RouteRule).effectiveAction

/-- A rule of one of the simple lists. -/
def isSimple (type : Int32) : Bool := type != custom && type != endpointPreferredBy

/-- When no condition is lost. -/
def Meets (w : World) (obj : JsonObject) : Prop :=
  emitsNothing (givenType obj) (givenAction w obj) (passing w obj) ∨
  ∀ a : Attr, a.isMatchAttribute = true → a.asked (given w obj a) ≠ [] →
    (a.takes (scalar (given w obj .invert) == "true") (given w obj a) ∧
      (a.isListAttribute = true → isSimple (givenType obj) = true → passing w obj a ≠ [])) ∨
    (a ∈ addressAttributes ∧ ∃ b ∈ addressAttributes, b ≠ a ∧ passing w obj b ≠ [])

/-! ## Reading -/

theorem asked_list {a : Attr} (hlist : a.isListAttribute = true) (items : List String) :
    a.asked items = a.keeps items ∧ a.keeps items = filterEmpty items := by
  have hflag : a.getInputType ≠ .trufalse := by cases a <;> first | exact absurd hlist (by decide) | decide
  have hall : ∀ item ∈ filterEmpty items, (!(a.getInputType == .trufalse && item == "false")) = true := by
    simp [hflag]
  rw [asked, filter_eq_self.mpr hall, keeps, if_neg hflag, if_pos hlist]
  exact ⟨rfl, rfl⟩

/-- **Taken.** A field takes its items if nothing that the rule needs of them is lost. -/
theorem takes_iff {a : Attr} (haction : a ≠ .action) {inverted : Bool} {items : List String}
    (hasked : a.asked items ≠ []) :
    a.takes inverted items ↔
      if inverted = true then a.keeps items = a.asked items else a.keeps items ≠ [] ∧
        (a.keeps items).Sublist (a.asked items) := by
  by_cases hlist : a.isListAttribute = true
  · rw [← (asked_list hlist items).1]
    simp [takes, hlist, hasked]
  cases items with
  | nil => exact absurd rfl hasked
  | cons first rest =>
    have hkeeps : a.keeps (first :: rest) =
        if (if a.getInputType = .trufalse then trimmed first = "true" else trimmed first ≠ "") then [trimmed first] else [] := by
      by_cases hflag : a.getInputType = .trufalse
      · by_cases htrue : trimmed first = "true" <;> simp [keeps, hflag, scalar, htrue]
      · by_cases hblank : trimmed first = "" <;>
          simp [keeps, hflag, hlist, haction, scalar, filterEmpty_one, hblank]
    by_cases hcounts : (if a.getInputType = .trufalse then trimmed first = "true" else trimmed first ≠ "")
    · have hhead : a.asked (first :: rest) = trimmed first :: a.asked rest := by
        by_cases hflag : a.getInputType = .trufalse
        · rw [if_pos hflag] at hcounts
          simp [asked, filterEmpty_cons, hcounts]
        · rw [if_neg hflag] at hcounts
          simp [asked, filterEmpty_cons, hcounts, hflag]
      rw [hkeeps, if_pos hcounts, hhead]
      by_cases hinv : inverted = true <;> simp [takes, hlist, scalar, hcounts, hinv, hhead]
    · rw [hkeeps, if_neg hcounts]
      by_cases hinv : inverted = true <;> simp [takes, hlist, scalar, hcounts, hinv, hasked.symm]

/-! ## Rules that emit nothing -/

theorem textJson_eq_none {text : String} : textJson text = none ↔ filterEmpty [text] = [] := by
  by_cases h : trimmed text = "" <;> simp [textJson, filterEmpty_one, h]

theorem isValidStrArray_iff {arr : List String} : isValidStrArray arr = true ↔ filterEmpty arr ≠ [] := by
  simp [isValidStrArray, filterEmpty]

theorem listJson_eq_none {arr : List String} {f : String → Json} : listJson arr f = none ↔ filterEmpty arr = [] := by
  by_cases h : filterEmpty arr = []
  · simp [listJson, Bool.eq_false_iff.mpr (fun hvalid => isValidStrArray_iff.mp hvalid h), h]
  · simp [listJson, isValidStrArray_iff.mpr h, h]

theorem flagJson_eq_none {flag : Bool} : flagJson flag = none ↔ (if flag = true then ["true"] else []) = [] := by
  cases flag <;> simp [flagJson]

section

variable {w : World} {rule : RouteRule} {forView : Bool} {tag : String}

theorem emitted_match {a : Attr} (h : a.isMatchAttribute = true) :
    rule.emitted w forView tag a = none ↔ rule.values a = [] := by
  cases a with
  | network | protocol => exact textJson_eq_none
  | sourceIpIsPrivate | ipIsPrivate | invert => exact flagJson_eq_none
  | ipVersion =>
    by_cases hblank : trimmed rule.ipVersion = "" <;>
      simp [emitted, RouteRule.values, getInputType, getCurrentValueString, filterEmpty_one, hblank]
  | inbound | domain | domainSuffix | domainKeyword | domainRegex | sourceIpCidr | ipCidr | sourcePort | sourcePortRange
  | port | portRange | processName | processPath | processPathRegex | packageName | wifiSsid | wifiBssid | ruleSet =>
    exact listJson_eq_none
  | _ => cases h

/-- Of a list with one entry that counts, no more counts if the others do not. -/
theorem filterMap_length_le_one {α β : Type} {l : List α} {f : α → Option β} {x : α} (hnodup : l.Nodup) (hx : x ∈ l)
    (hsome : (f x).isSome = true) : (l.filterMap f).length ≤ 1 ↔ ∀ a ∈ l, a ≠ x → f a = none := by
  obtain ⟨y, hy⟩ := Option.isSome_iff_exists.mp hsome
  obtain ⟨before, after, rfl⟩ := append_of_mem hx
  have hsplit : ∀ a ∈ before ++ after, a ≠ x := by
    rintro a ha rfl
    obtain ⟨-, hafter, hdisjoint⟩ := nodup_append.mp hnodup
    obtain h | h := mem_append.mp ha
    · exact hdisjoint a h a (.head _) rfl
    · exact (nodup_cons.mp hafter).1 h
  rw [filterMap_append, filterMap_cons_some hy, length_append, length_cons]
  constructor
  · intro hle a ha hne
    have hbefore : before.filterMap f = [] := length_eq_zero_iff.mp (by omega)
    have hafter : after.filterMap f = [] := length_eq_zero_iff.mp (by omega)
    obtain h | h := mem_append.mp ha
    · exact filterMap_eq_nil_iff.mp hbefore a h
    · exact filterMap_eq_nil_iff.mp hafter a ((mem_cons.mp h).resolve_left hne)
  · intro hnone
    have hbefore : before.filterMap f = [] := filterMap_eq_nil_iff.mpr (fun a ha =>
      hnone a (mem_append_left _ ha) (hsplit a (mem_append_left _ ha)))
    have hafter : after.filterMap f = [] := filterMap_eq_nil_iff.mpr (fun a ha =>
      hnone a (mem_append_right _ (.tail _ ha)) (hsplit a (mem_append_right _ ha)))
    simp [hbefore, hafter]

theorem members_length :
    (rule.members w forView tag).length ≤ 1 ↔ ∀ a ∈ Attr.edited, a ≠ .action → rule.emitted w forView tag a = none := by
  have hlength := filterMap_length_le_one (l := edited) (x := .action)
    (f := fun a => (rule.emitted w forView tag a).map (fun value => (a.key, value))) (by decide) (by decide) rfl
  rw [members, hlength]
  simp only [Option.map_eq_none_iff]

theorem headD_one (text : String) : (filterEmpty [text]).headD "" = trimmed text := by
  by_cases h : trimmed text = "" <;> simp [filterEmpty_one, h]

theorem one_ne_nil {text : String} : filterEmpty [text] ≠ [] ↔ (!(trimmed text).isEmpty) = true := by
  by_cases h : trimmed text = "" <;> simp [filterEmpty_one, h]

theorem flag_ne_nil {flag : Bool} : (if flag = true then ["true"] else []) ≠ [] ↔ flag = true := by
  cases flag <;> simp

theorem anyOption_iff : rule.anyOption = true ↔ hasOption rule.values := by
  have haddress : rule.values .overrideAddress = filterEmpty [rule.overrideAddress] := by
    simp only [RouteRule.values, getInputType, reduceCtorEq, if_false, getCurrentValueString]
  have hport : rule.values .overridePort = filterEmpty [rule.overridePort] := by
    simp only [RouteRule.values, getInputType, reduceCtorEq, if_false, getCurrentValueString]
  have hspoof : rule.values .tlsSpoof = filterEmpty [rule.tlsSpoof] := by
    simp only [RouteRule.values, getInputType, reduceCtorEq, if_false, getCurrentValueString]
  have hfragment : rule.values .tlsFragment = if rule.tlsFragment = true then ["true"] else [] := rfl
  have hrecord : rule.values .tlsRecordFragment = if rule.tlsRecordFragment = true then ["true"] else [] := rfl
  rw [hasOption, haddress, hport, hspoof, hfragment, hrecord, one_ne_nil, one_ne_nil, flag_ne_nil,
    flag_ne_nil, headD_one]
  simp only [anyOption, Bool.or_eq_true, decide_eq_true_eq, or_assoc]

theorem emitted_hijack (hact : rule.effectiveAction = "hijack-dns") {a : Attr} (hmatch : a.isMatchAttribute = false)
    (ha : a ≠ .action) : rule.emitted w forView tag a = none := by
  cases a <;> first | exact absurd hmatch (by decide) | exact absurd rfl ha | simp [emitted, emitsOutbound, hact]

theorem emitted_options (w : World) (forView : Bool) (tag : String) (hact : rule.effectiveAction = "route-options") :
    (∀ a : Attr, a.isMatchAttribute = false → a ≠ .action → rule.emitted w forView tag a = none) ↔
      rule.anyOption = false := by
  constructor
  · intro hnone
    have haddress := hnone .overrideAddress rfl (by simp)
    have hport := hnone .overridePort rfl (by simp)
    have hfragment := hnone .tlsFragment rfl (by simp)
    have hrecord := hnone .tlsRecordFragment rfl (by simp)
    have hspoof := hnone .tlsSpoof rfl (by simp)
    simp only [emitted, hact] at haddress hport hfragment hrecord hspoof
    simp [textJson, flagJson] at haddress hport hfragment hrecord hspoof
    simp [anyOption, haddress, hport, hfragment, hrecord, hspoof]
  · intro hnone a hmatch ha
    simp only [anyOption, Bool.or_eq_false_iff, decide_eq_false_iff_not, Bool.not_eq_false'] at hnone
    obtain ⟨⟨⟨⟨haddress, hport⟩, hfragment⟩, hrecord⟩, hspoof⟩ := hnone
    cases a <;> first
      | exact absurd hmatch (by decide)
      | exact absurd rfl ha
      | simp [emitted, emitsOutbound, hact, textJson, flagJson, haddress, hport, hfragment, hrecord, hspoof]

theorem action_emitted : (rule.members w forView tag).length ≠ 0 := by
  intro hzero
  have hnil := filterMap_eq_nil_iff.mp (length_eq_zero_iff.mp hzero) .action (by decide)
  cases hnil

theorem isEmpty_custom (htype : rule.type = custom) :
    rule.isEmpty w = true ↔
      (rule.effectiveAction = "hijack-dns" ∨ (rule.effectiveAction = "route-options" ∧ ¬ hasOption rule.values)) ∧
        ∀ a : Attr, a.isMatchAttribute = true → rule.values a = [] := by
  have hmembers : rule.getRuleJson w false "" = rule.members w false "" := by
    rw [RouteRule.getRuleJson, if_neg (by simp [htype, custom, endpointPreferredBy]), if_neg (by simp)]
  have hedited : ∀ {a : Attr}, a.isMatchAttribute = true → a ∈ edited := by
    intro a ha
    cases a <;> first | exact absurd ha (by decide) | decide
  have hconditions : (∀ a : Attr, a.isMatchAttribute = true → rule.emitted w false "" a = none) ↔
      ∀ a : Attr, a.isMatchAttribute = true → rule.values a = [] :=
    forall_congr' (fun a => imp_congr_right (fun ha => emitted_match ha))
  rw [RouteRule.isEmpty, if_neg (by simp [htype]), hmembers]
  by_cases hhijack : rule.effectiveAction = "hijack-dns"
  · rw [if_pos (by simp [hhijack]), decide_eq_true_iff, members_length, ← hconditions]
    refine ⟨fun hnone => ⟨.inl hhijack, fun a ha => hnone a (hedited ha) (by rintro rfl; cases ha)⟩,
      fun hnone a _ hne => ?_⟩
    cases hmatch : a.isMatchAttribute with
    | true => exact hnone.2 a hmatch
    | false => exact emitted_hijack hhijack hmatch hne
  by_cases hoptions : rule.effectiveAction = "route-options"
  · rw [if_pos (by simp [hoptions]), decide_eq_true_iff, members_length, ← hconditions,
      ← anyOption_iff, Bool.not_eq_true,
      ← emitted_options w false "" hoptions]
    constructor
    · intro hnone
      refine ⟨.inr ⟨hoptions, fun a hmatch hne => ?_⟩, fun a ha => hnone a (hedited ha) (by rintro rfl; cases ha)⟩
      by_cases hsniffers : a = .sniffers
      · rw [hsniffers]; rfl
      · exact hnone a (by cases a <;> first | exact absurd rfl hsniffers | decide) hne
    · intro hnone a _ hne
      have hrest := (hnone.1.resolve_left hhijack).2
      cases hmatch : a.isMatchAttribute with
      | true => exact hnone.2 a hmatch
      | false => exact hrest a hmatch hne
  have hright : ¬ ((rule.effectiveAction = "hijack-dns" ∨
      (rule.effectiveAction = "route-options" ∧ ¬ hasOption rule.values)) ∧
      ∀ a : Attr, a.isMatchAttribute = true → rule.values a = []) := by
    rintro ⟨h | h, -⟩
    · exact hhijack h
    · exact hoptions h.1
  refine iff_of_false ?_ hright
  by_cases hroute : rule.effectiveAction = "route"
  · rw [if_pos (by simp [hroute]), decide_eq_true_iff, members_length]
    intro hnone
    have houtbound := hnone .outbound (by decide) (by simp)
    simp [RouteRule.emitted, emitsOutbound, RouteRule.outboundJson, hroute] at houtbound
  · rw [if_neg (by simp [hroute, hoptions, hhijack])]
    split
    · rw [decide_eq_true_iff]
      have hpos : (rule.members w false "").length ≠ 0 := action_emitted
      omega
    · simp

theorem isEmpty_iff (hclean : Clean rule) : rule.isEmpty w = true ↔
    emitsNothing rule.type rule.effectiveAction rule.values := by
  by_cases htype : rule.type = custom
  · rw [emitsNothing, if_pos htype, isEmpty_custom htype]
  rw [emitsNothing, if_neg htype, RouteRule.isEmpty, if_pos (by simpa using htype)]
  by_cases hendpoint : rule.type = endpointPreferredBy
  · rw [if_pos hendpoint, if_pos (by simpa using hendpoint)]
    simp
  rw [if_neg hendpoint, if_neg (by simpa using hendpoint), RuleMatch.noValues]
  have hlist : ∀ a : Attr, a.isListAttribute = true →
    ((rule.getCurrentValueString a).isEmpty = true ↔ rule.values a = []) := by
    intro a ha
    rw [hclean a ha, List.isEmpty_iff]
  by_cases haddress : isSimpleAddress rule.type = true
  · rw [if_pos haddress, if_pos haddress]
    simp only [addressAttributes, forall_mem_cons, not_mem_nil, false_implies, implies_true, and_true,
      ← hlist .domain rfl, ← hlist .domainSuffix rfl, ← hlist .domainKeyword rfl, ← hlist .domainRegex rfl,
      ← hlist .ruleSet rfl, ← hlist .ipCidr rfl, Bool.and_eq_true, and_assoc]
    rfl
  · rw [if_neg haddress, if_neg haddress, Bool.and_eq_true, ← hlist .processName rfl, ← hlist .processPath rfl]
    rfl

end

/-! ## Imported rules -/

section

variable {w : World} {obj : JsonObject} {rule start : RouteRule}

variable {type : Int32} {a : Attr}

variable (h : storeMembers w { type } obj.members = some start)

include h in
theorem clean_of_stored : Clean start := by
  intro a ha
  by_cases hsniffers : a = .sniffers
  · subst hsniffers
    rfl
  · have hflag : a.getInputType ≠ .trufalse := by cases a <;> first | exact absurd ha (by decide) | decide
    rw [RouteRule.values, if_neg hflag, stored_list ha hsniffers h, filterEmpty_filterEmpty]

theorem good_flag (hflag : a.getInputType = .trufalse) (items : List String) : good w a items = items := by
  refine filter_eq_self.mpr (fun item _ => ?_)
  have hnone : checkValue w a item = none := by
    cases a <;> first | exact absurd hflag (by decide) | simp [checkValue, checkMessage]
  rw [bad, hnone]
  rfl

theorem match_attr (h : a.isMatchAttribute = true) : a ≠ .outbound ∧ a ≠ .sniffers ∧ a ≠ .method ∧ a ≠ .action ∧
    a.actionScopes = none := by
  cases a <;> first | exact absurd h (by decide) | decide

theorem parseRuleObject_some (h : parseRuleObject w obj = some rule) :
    ∃ start, storeMembers w { type := givenType obj } obj.members = some start ∧
      ((givenType obj = endpointPreferredBy ∧ rule = start) ∨
        (givenType obj ≠ endpointPreferredBy ∧ rule.firstError w = none ∧ Repaired w start rule)) := by
  rw [parseRuleObject] at h
  split at h
  · cases h
  split at h
  · cases h
  next start hstart =>
  refine ⟨start, hstart, ?_⟩
  have htype : start.type = givenType obj := storeMembers_type w hstart
  split at h
  · next hendpoint => exact .inl ⟨htype ▸ beq_iff_eq.mp hendpoint, (Option.some.inj h).symm⟩
  next hendpoint =>
  refine .inr ⟨fun hne => hendpoint (by rw [htype, hne]; rfl), ?_⟩
  exact checkImportedRule_repaired (.refl (clean_of_stored hstart)) h

structure Imported (w : World) (obj : JsonObject) (rule : RouteRule) : Prop where
  clean : Clean rule
  invert : rule.invert = (scalar (given w obj .invert) == "true")
  type : rule.type = givenType obj
  act : rule.effectiveAction = givenAction w obj
  whole : ∀ a, a.isMatchAttribute = true → rule.invert = true ∨ a.isListAttribute = false →
    rule.values a = a.keeps (given w obj a)
  part : ∀ a, a.isMatchAttribute = true → (rule.values a).Sublist (a.keeps (given w obj a))
  kept : isSimple (givenType obj) = false → ∀ a, a.isMatchAttribute = true → rule.values a = [] →
    a.keeps (given w obj a) = []
  passed : givenType obj ≠ endpointPreferredBy → ∀ a, a.isMatchAttribute = true → rule.values a = passing w obj a
  option : givenType obj ≠ endpointPreferredBy → givenAction w obj = "route-options" →
    (hasOption rule.values ↔ hasOption (passing w obj))

include h in
theorem stored_act :
    start.effectiveAction = givenAction w obj := by
  rw [givenAction, effectiveAction, effectiveAction, stored_action h, stored_outboundID h]

include h in
theorem stored_match
    (ha : a.isMatchAttribute = true) : start.values a = a.keeps (given w obj a) :=
  stored_values (match_attr ha).1 (match_attr ha).2.1 (fun hmethod => absurd hmethod (match_attr ha).2.2.1) h

theorem invert_of_values (h : rule.values .invert = Attr.invert.keeps (given w obj .invert)) :
    rule.invert = (scalar (given w obj .invert) == "true") := by
  have hvalues : rule.values .invert = if rule.invert = true then ["true"] else [] := rfl
  have hkeeps : invert.keeps (given w obj .invert) =
    if scalar (given w obj .invert) = "true" then ["true"] else [] := rfl
  rw [hvalues, hkeeps] at h
  cases hinvert : rule.invert <;> by_cases htrue : scalar (given w obj .invert) = "true" <;> simp [hinvert, htrue] at h ⊢

theorem Repaired.passed (h : Repaired w start rule) (hvalid : rule.firstError w = none)
    (hstart : storeMembers w { type := givenType obj } obj.members = some start)
    (hendpoint : givenType obj ≠ endpointPreferredBy) (ha : a.isMatchAttribute = true) :
    rule.values a = passing w obj a := by
  obtain ⟨houtbound, -, -, -, hscopes⟩ := match_attr ha
  by_cases hflag : a.getInputType = .trufalse
  · have hlist : a.isListAttribute = false := by cases a <;> first | rfl | cases hflag
    rw [passing, good_flag hflag, h.whole a ha (.inr hlist), stored_match hstart ha]
  have hitemized : a.itemized start.effectiveAction = true := by simp [itemized, applies, houtbound, hflag, hscopes]
  have htype : start.type ≠ endpointPreferredBy := by rwa [storeMembers_type w hstart]
  rw [h.settled hvalid htype hitemized, passing, stored_match hstart ha]

/-- The options of a repaired rule are those that pass; of two fragment flags one is left. -/
theorem Repaired.option (h : Repaired w start rule) (hvalid : rule.firstError w = none)
    (hstart : storeMembers w { type := givenType obj } obj.members = some start)
    (hendpoint : givenType obj ≠ endpointPreferredBy) (hact : givenAction w obj = "route-options") :
    hasOption rule.values ↔ hasOption (passing w obj) := by
  have htype : start.type ≠ endpointPreferredBy := by rwa [storeMembers_type w hstart]
  have hsettled : ∀ a : Attr, a ≠ .outbound → a ≠ .sniffers → a ≠ .method → a.itemized "route-options" = true →
      rule.values a = passing w obj a := by
    intro a houtbound hsniffers hmethod ha
    rw [h.settled hvalid htype (by rwa [stored_act hstart, hact]), passing,
      stored_values houtbound hsniffers (fun hm => absurd hm hmethod) hstart]
  have hfragment : rule.values .tlsFragment = passing w obj .tlsFragment := by
    rw [passing, good_flag rfl, ← stored_values (by simp) (by simp) (by simp) hstart]
    show (if rule.tlsFragment = true then ["true"] else []) = if start.tlsFragment = true then ["true"] else []
    rw [h.tlsFragment]
  have hstored : start.values .tlsRecordFragment = passing w obj .tlsRecordFragment := by
    rw [passing, good_flag rfl, ← stored_values (by simp) (by simp) (by simp) hstart]
  rw [hasOption, hasOption, hsettled .overrideAddress (by simp) (by simp) (by simp) (by decide),
    hsettled .overridePort (by simp) (by simp) (by simp) (by decide),
    hsettled .tlsSpoof (by simp) (by simp) (by simp) (by decide), hfragment]
  obtain hrecord | hfirst := h.fragment
  · have hsame : rule.values .tlsRecordFragment = passing w obj .tlsRecordFragment := by
      rw [← hstored]
      show (if rule.tlsRecordFragment = true then ["true"] else []) = if start.tlsRecordFragment = true then ["true"] else []
      rw [hrecord]
    rw [hsame]
  · have hon : passing w obj .tlsFragment ≠ [] := by
      rw [← hfragment]
      exact flag_ne_nil.mpr (h.tlsFragment.trans hfirst)
    exact iff_of_true (.inr (.inr (.inl hon))) (.inr (.inr (.inl hon)))

theorem imported (h : parseRuleObject w obj = some rule) : Imported w obj rule := by
  obtain ⟨start, hstart, ⟨hendpoint, rfl⟩ | ⟨hendpoint, hvalid, hrepaired⟩⟩ := parseRuleObject_some h
  · have hvalues : ∀ a : Attr, a.isMatchAttribute = true → rule.values a = a.keeps (given w obj a) :=
      fun a ha => stored_match hstart ha
    exact {
      clean := clean_of_stored hstart
      invert := invert_of_values (hvalues .invert rfl)
      type := storeMembers_type w hstart
      act := stored_act hstart
      whole := fun a ha _ => hvalues a ha
      part := fun a ha => hvalues a ha ▸ Sublist.refl _
      kept := fun _ a ha hnil => hvalues a ha ▸ hnil
      passed := fun hne => absurd hendpoint hne
      option := fun hne => absurd hendpoint hne }
  have hpassed := fun a ha => hrepaired.passed hvalid hstart hendpoint (a := a) ha
  exact {
    clean := hrepaired.clean
    invert := invert_of_values ((hrepaired.whole .invert rfl (.inr rfl)).trans (stored_match hstart rfl))
    type := hrepaired.type.trans (storeMembers_type w hstart)
    act := hrepaired.act.trans (stored_act hstart)
    whole := fun a ha hwhole => by
      rw [hrepaired.whole a ha (hrepaired.invert ▸ hwhole), stored_match hstart ha]
    part := fun a ha => by
      rw [hpassed a ha]
      exact filter_sublist
    kept := fun hsimple a ha hnil => by
      have htype : start.type = custom := by
        rw [storeMembers_type w hstart]
        simpa [isSimple, hendpoint] using hsimple
      rw [← stored_match hstart ha]
      exact hrepaired.kept htype a ha hnil
    passed := fun _ => hpassed
    option := fun _ => hrepaired.option hvalid hstart hendpoint }

theorem addressAttributes_match (h : a ∈ addressAttributes) : a.isMatchAttribute = true ∧ a.isListAttribute = true := by
  cases a <;> first | exact absurd h (by decide) | decide

theorem Imported.empty (h : Imported w obj rule) :
    rule.isEmpty w = true ↔ emitsNothing (givenType obj) (givenAction w obj) (passing w obj) := by
  rw [isEmpty_iff h.clean, h.type, h.act]
  by_cases htype : givenType obj = custom
  · have hendpoint : givenType obj ≠ endpointPreferredBy := by rw [htype]; decide
    rw [emitsNothing, emitsNothing, if_pos htype, if_pos htype]
    refine and_congr (or_congr Iff.rfl (and_congr_right (fun hact => not_congr (h.option hendpoint hact)))) ?_
    exact forall_congr' (fun a => imp_congr_right (fun ha => by rw [h.passed hendpoint a ha]))
  rw [emitsNothing, emitsNothing, if_neg htype, if_neg htype]
  by_cases hendpoint : givenType obj = endpointPreferredBy
  · rw [if_pos hendpoint, if_pos hendpoint]
  rw [if_neg hendpoint, if_neg hendpoint, h.passed hendpoint .processName rfl, h.passed hendpoint .processPath rfl]
  by_cases haddress : isSimpleAddress (givenType obj) = true
  · rw [if_pos haddress, if_pos haddress]
    exact forall₂_congr (fun a ha => by rw [h.passed hendpoint a (addressAttributes_match ha).1])
  · rw [if_neg haddress, if_neg haddress]

/-- What is left of a condition is what the claimed part of it is. -/
theorem Imported.condition (h : Imported w obj rule) (ha : a.isMatchAttribute = true)
    (hasked : a.asked (given w obj a) ≠ []) :
    (if rule.invert = true then rule.values a = a.asked (given w obj a)
      else rule.values a ≠ [] ∧ (rule.values a).Sublist (a.asked (given w obj a))) ↔
    a.takes (scalar (given w obj .invert) == "true") (given w obj a) ∧
      (a.isListAttribute = true → isSimple (givenType obj) = true → passing w obj a ≠ []) := by
  rw [takes_iff (match_attr ha).2.2.2.1 hasked, ← h.invert]
  by_cases hlist : a.isListAttribute = true
  · have hkeeps : a.keeps (given w obj a) = a.asked (given w obj a) := (asked_list hlist _).1.symm
    have hne : a.keeps (given w obj a) ≠ [] := hkeeps ▸ hasked
    have hsimple : isSimple (givenType obj) = true → passing w obj a = rule.values a := by
      intro hsimple
      exact (h.passed (by simpa using (Bool.and_eq_true_iff.mp hsimple).2) a ha).symm
    rw [← hkeeps]
    by_cases hinvert : rule.invert = true
    · rw [if_pos hinvert, if_pos hinvert]
      have hwhole := h.whole a ha (.inl hinvert)
      exact iff_of_true hwhole ⟨rfl, fun _ hs => by rwa [hsimple hs, hwhole]⟩
    rw [if_neg hinvert, if_neg hinvert]
    constructor
    · rintro ⟨hvalues, -⟩
      exact ⟨⟨hne, .refl _⟩, fun _ hs => by rwa [hsimple hs]⟩
    rintro ⟨-, hpassing⟩
    refine ⟨?_, h.part a ha⟩
    cases hs : isSimple (givenType obj) with
    | true => exact hsimple hs ▸ hpassing hlist hs
    | false => exact fun hnil => hne (h.kept hs a ha hnil)
  · rw [h.whole a ha (.inr (by simpa using hlist))]
    simp [hlist]

theorem Imported.addresses (h : Imported w obj rule) (hendpoint : givenType obj ≠ endpointPreferredBy) :
    (a ∈ addressAttributes ∧ ∃ b ∈ addressAttributes, b ≠ a ∧ rule.values b ≠ []) ↔
      a ∈ addressAttributes ∧ ∃ b ∈ addressAttributes, b ≠ a ∧ passing w obj b ≠ [] := by
  refine and_congr_right (fun _ => exists_congr (fun b => and_congr_right (fun hb => ?_)))
  rw [h.passed hendpoint b (addressAttributes_match hb).1]

theorem endpoint_takes (hendpoint : givenType obj = endpointPreferredBy) (ha : a ∈ addressAttributes) :
    a.takes (scalar (given w obj .invert) == "true") (given w obj a) ∧
      (a.isListAttribute = true → isSimple (givenType obj) = true → passing w obj a ≠ []) :=
  ⟨.inl (addressAttributes_match ha).2, fun _ hs => absurd hs (by simp [isSimple, hendpoint])⟩

/-- **Imported.** A rule that is returned has no error, and it loses no condition of its object exactly if the
object meets the condition: a list of a rule of a simple list has an item that passes, and a field of one value is
given one that counts, and no other if the rule is inverted. -/
theorem imported_contract (h : parseRuleObject w obj = some rule) :
    (∀ issue ∈ rule.validate w, issue.severity ≠ .error) ∧ (KeepsConditions w obj rule ↔ Meets w obj) := by
  have himported := imported h
  constructor
  · intro issue hissue herror
    obtain ⟨start, -, ⟨hendpoint, rfl⟩ | ⟨-, hvalid, -⟩⟩ := parseRuleObject_some h
    · rw [validate, if_pos (by rw [himported.type, hendpoint]; rfl)] at hissue
      cases hissue
    · exact find?_eq_none.mp hvalid issue hissue (by simp [herror])
  · by_cases hempty : rule.isEmpty w = true
    · exact iff_of_true (fun _ _ _ => .inr (.inr hempty)) (.inl (himported.empty.mp hempty))
    rw [KeepsConditions, Meets, or_iff_right (fun hnothing => hempty (himported.empty.mpr hnothing))]
    refine forall_congr' (fun a => imp_congr_right (fun ha => imp_congr_right (fun hasked => ?_)))
    rw [or_iff_left hempty, himported.condition ha hasked]
    by_cases hendpoint : givenType obj = endpointPreferredBy
    · constructor
      · rintro (hkept | ⟨haddress, -⟩)
        · exact .inl hkept
        · exact .inl (endpoint_takes hendpoint haddress)
      · rintro (hkept | ⟨haddress, -⟩)
        · exact .inl hkept
        · exact .inl (endpoint_takes hendpoint haddress)
    · rw [himported.addresses hendpoint]

/-! ## Two objects -/

/-- No profiles, and checks that have nothing against a text. -/
def plainWorld : World where
  profiles := []
  goRegex _ := ""
  cidr _ := ""
  portRange _ := ""
  portRangeOrder _ := ""
  duration _ := ""
  ip _ := "Not an IP address."
  host _ := ""
  short text := text
  knownRuleSet name := name == "geosite-google"
  ruleSetUrl _ := false
  ruleSetName name := name
  toLower := String.toLower
  isLetter := Char.isAlpha
  doubleText _ := "0"

def customPorts : JsonObject where
  members := [("action", .str "route"), ("domain", .arr [.str "example.com"]), ("outbound", .str "direct"),
    ("port", .arr [.num 443, .num 99999])]
  distinct := by decide

def customPortsRule : RouteRule where
  domain := ["example.com"]
  port := ["443"]

theorem imported_contract_applied :
    (∀ issue ∈ customPortsRule.validate plainWorld, issue.severity ≠ .error) ∧
      (KeepsConditions plainWorld customPorts customPortsRule ↔ Meets plainWorld customPorts) :=
  imported_contract (by decide +kernel)

/-- The same of a bypass rule, and only the port that there is not. -/
def bypassPort : JsonObject where
  members := [("action", .str "route"), ("domain", .arr [.str "example.com"]), ("outbound", .str "direct"),
    ("port", .arr [.num 99999]), ("type", .str "simple_address_bypass")]
  distinct := by decide

def bypassPortRule : RouteRule where
  type := simpleAddressBypass
  domain := ["example.com"]

/-- The rule is returned without its port, so that it matches every port of the domain. -/
theorem bypass_loses_port :
    parseRuleObject plainWorld bypassPort = some bypassPortRule ∧
      ¬ KeepsConditions plainWorld bypassPort bypassPortRule := by
  refine ⟨by decide +kernel, fun hkeeps => ?_⟩
  have hport := hkeeps .port rfl (by decide +kernel)
  revert hport
  decide +kernel

end

end Waterdisco.Routing
