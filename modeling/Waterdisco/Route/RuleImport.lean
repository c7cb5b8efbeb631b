import Waterdisco.Route.RuleJson

/-!
# The import of a rule object

`parseRuleObject` stores every member of an object in its field and then repairs the rule:
of a list the items with an error are taken out, an option with an error is cleared, an
outbound with an error becomes the proxy, and any other error drops the rule.

    what a rule holds of an attribute = what its field keeps of the object's items    (storeMembers_values)
-/

namespace Waterdisco.Routing

open Option List Attr
open Route (trimmed)

/-- A JSON object, its members in the order of `keys()`. -/
structure JsonObject where
  members : List (String × Json)
  distinct : (members.map (·.1)).Nodup

def JsonObject.find (obj : JsonObject) (key : String) : Option Json :=
  (obj.members.find? (fun m => m.1 == key)).map (·.2)

def JsonObject.text (obj : JsonObject) (key : String) : String :=
  match obj.find key with
  | some value => value.toStr
  | none => ""

/-- `name`, `type` and `disabled`, and the keys that `setFieldValue` stores. -/
def isStorableRuleKey (key : String) : Bool :=
  key == "name" || key == "type" || key == "disabled" || (Attr.ofKey key).isSome

section

variable (w : World)

/-! ## Members -/

/-- Objects and null carry no value a rule field can hold. -/
def routeProfileScalarText : Json → Option String
  | .bool b => some (if b then "true" else "false")
  | .str s => some s
  | .num n => some (toString n)
  | .double bits => some (w.doubleText bits)
  | _ => none

def itemTexts : Json → Option (List String)
  | .arr items => items.mapM (routeProfileScalarText w)
  | value => (routeProfileScalarText w value).map (fun text => [text])

def isOutboundIDValid (id : Int32) : Bool := id == -1 || id == -2 || (w.getProfile id).isSome

def getOutboundID (name : String) : Int32 :=
  if name == "proxy" then -1
  else if name == "direct" then -2
  else if name == "block" then blockID
  else if name == "warp-bypass" then warpBypassID
  else
    match w.getProfileByName name with
    | some id => id
    | none => INVALID_ID

/-- An outbound that is not found is the proxy. -/
def importedOutbound : Json → Int32
  | .num n => if isOutboundIDValid w (toIntOr 0 (.num n)) then toIntOr 0 (.num n) else proxyID
  | .double bits => if isOutboundIDValid w (toIntOr 0 (.double bits)) then toIntOr 0 (.double bits) else proxyID
  | .str name => if getOutboundID w name != INVALID_ID then getOutboundID w name else proxyID
  | _ => proxyID

/-- One member of the object; `none` drops the rule, which without the condition would match more. -/
def storeMember (rule : RouteRule) (member : String × Json) : Option RouteRule :=
  if member.1 == "name" || member.1 == "type" then some rule
  else if member.1 == "disabled" then some { rule with disabled := member.2.toBool }
  else
    match Attr.ofKey member.1 with
    | none => some rule
    | some .outbound => some { rule with outboundID := importedOutbound w member.2 }
    | some a =>
      match itemTexts w member.2 with
      | none => if a.isMatchAttribute then none else some rule
      | some items => some (rule.setFieldValue a items)

def storeMembers (rule : RouteRule) (members : List (String × Json)) : Option RouteRule :=
  members.foldlM (storeMember w) rule

/-! ## Repairs -/

/-- One repair; `none` drops the rule. -/
def repair (rule : RouteRule) (error : RuleIssue) : Option RouteRule :=
  if !rule.invert && error.attr.isListAttribute && !error.value.isEmpty then
    let kept := (rule.getCurrentValueString error.attr).filter (fun item => !bad w error.attr item)
    -- a custom rule whose condition loses every item would match more
    if kept.isEmpty && rule.type == custom && error.attr.isMatchAttribute then none
    else some (rule.setFieldValue error.attr kept)
  else if error.attr == .action || error.attr.isMatchAttribute then none
  else if error.attr == .outbound then some { rule with outboundID := proxyID }
  else some (rule.clearAttributeValue error.attr)

/-- The passes that are left; a rule that still has an error after the last one is dropped. -/
def checkImportedRule : Nat → RouteRule → Option RouteRule
  | 0, _ => none
  | passes + 1, rule =>
    match rule.firstError w with
    | none => some rule
    | some error => (repair w rule error).bind (checkImportedRule passes)

def routeProfileCheckImportedRule (rule : RouteRule) : Option RouteRule := checkImportedRule w 64 rule

/-- `parse_rule_object`; the caller gives the rule its name. -/
def parseRuleObject (obj : JsonObject) : Option RouteRule :=
  if obj.members.any (fun m => !isStorableRuleKey m.1) then none
  else
    match storeMembers w { type := tokenToRuleType (obj.text "type") } obj.members with
    | none => none
    | some rule => if rule.type == endpointPreferredBy then some rule else routeProfileCheckImportedRule w rule

/-! ## What is stored -/

variable {rule rule' : RouteRule}

theorem storeMember_name {m : String × Json} (h : storeMember w rule m = some rule')
    (hkey : m.1 = "name" ∨ m.1 = "type") : rule' = rule := by
  rw [storeMember, if_pos (by simpa using hkey)] at h
  exact (some.inj h).symm

/-- One lemma for what a member does: nothing, or a change to the field of its key. -/
theorem storeMember_cases {m : String × Json} (h : storeMember w rule m = some rule') :
    ((m.1 = "name" ∨ m.1 = "type") ∧ rule' = rule) ∨
    (m.1 = "disabled" ∧ rule' = { rule with disabled := m.2.toBool }) ∨
    (m.1 = outbound.key ∧ rule' = { rule with outboundID := importedOutbound w m.2 }) ∨
    (∃ a, a ≠ .outbound ∧ ofKey m.1 = some a ∧ itemTexts w m.2 = none ∧ a.isMatchAttribute = false ∧ rule' = rule) ∨
    (∃ a items, a ≠ .outbound ∧ ofKey m.1 = some a ∧ itemTexts w m.2 = some items ∧
      rule' = rule.setFieldValue a items) ∨
    (ofKey m.1 = none ∧ rule' = rule) := by
  by_cases hname : m.1 = "name" ∨ m.1 = "type"
  · exact .inl ⟨hname, storeMember_name w h hname⟩
  rw [storeMember, if_neg (by simpa using hname)] at h
  by_cases hdisabled : m.1 = "disabled"
  · rw [if_pos (by simpa using hdisabled)] at h
    exact .inr (.inl ⟨hdisabled, (some.inj h).symm⟩)
  rw [if_neg (by simpa using hdisabled)] at h
  cases hattr : ofKey m.1 with
  | none =>
    rw [hattr] at h
    exact .inr (.inr (.inr (.inr (.inr ⟨rfl, (some.inj h).symm⟩))))
  | some a =>
    rw [hattr] at h
    by_cases houtbound : a = .outbound
    · subst houtbound
      have hkey := (key_of_ofKey hattr).resolve_right (by simp)
      exact .inr (.inr (.inl ⟨hkey, (some.inj h).symm⟩))
    cases htexts : itemTexts w m.2 with
    | none =>
      by_cases hmatch : a.isMatchAttribute
      · simp [htexts, hmatch] at h
      · refine .inr (.inr (.inr (.inl ⟨a, houtbound, rfl, rfl, by simpa using hmatch, ?_⟩)))
        simpa [htexts, hmatch] using h.symm
    | some items =>
      refine .inr (.inr (.inr (.inr (.inl ⟨a, items, houtbound, rfl, rfl, ?_⟩))))
      simpa [htexts] using h.symm

section

variable {α : Type} (f : RouteRule → α) (key : String) (put : Json → α → α)

theorem storeMembers_reads {members : List (String × Json)} (hdistinct : (members.map (·.1)).Nodup)
    (hother : ∀ m ∈ members, ∀ rule rule', storeMember w rule m = some rule' → m.1 ≠ key → f rule' = f rule)
    (hkey : ∀ m ∈ members, ∀ rule rule', storeMember w rule m = some rule' → m.1 = key → f rule' = put m.2 (f rule))
    (h : storeMembers w rule members = some rule') :
    f rule' =
      match members.find? (fun m => m.1 == key) with
      | some m => put m.2 (f rule)
      | none => f rule := by
  induction members generalizing rule with
  | nil =>
    obtain rfl : rule = rule' := by simpa [storeMembers] using h
    rfl
  | cons m rest ih =>
    rw [map_cons, nodup_cons] at hdistinct
    obtain ⟨next, hnext, hrest⟩ := bind_eq_some_iff.mp h
    have htail := ih hdistinct.2 (fun x hx => hother x (.tail _ hx))
      (fun x hx => hkey x (.tail _ hx)) hrest
    by_cases hm : m.1 = key
    · have hnone : rest.find? (fun x => x.1 == key) = none := by
        refine find?_eq_none.mpr (fun x hx hxkey => hdistinct.1 ?_)
        have hxm : x.1 = m.1 := by rw [hm]; simpa using hxkey
        exact mem_map.mpr ⟨x, hx, hxm⟩
      rw [hnone] at htail
      rw [find?_cons_of_pos (by simpa using hm), htail]
      exact hkey m (.head _) rule next hnext hm
    · rw [find?_cons_of_neg (by simpa using hm), htail, hother m (.head _) rule next hnext hm]

end

theorem storeMember_type {m : String × Json} (h : storeMember w rule m = some rule') :
    rule'.type = rule.type := by
  obtain ⟨-, rfl⟩ | ⟨-, rfl⟩ | ⟨-, rfl⟩ | ⟨a, -, -, -, -, rfl⟩ | ⟨a, items, -, -, -, rfl⟩ | ⟨-, rfl⟩ :=
    storeMember_cases w h
  case inr.inr.inr.inr.inl => exact rule.set_type a items
  all_goals rfl

theorem storeMembers_type {members : List (String × Json)}
    (h : storeMembers w rule members = some rule') : rule'.type = rule.type := by
  induction members generalizing rule with
  | nil => simp [storeMembers] at h; rw [h]
  | cons m rest ih =>
    obtain ⟨next, hnext, hrest⟩ := bind_eq_some_iff.mp h
    rw [ih hrest, storeMember_type w hnext]

end

/-! ## What the object gives -/

/-- The texts that the object gives an attribute. -/
def given (w : World) (obj : JsonObject) (a : Attr) : List String := ((obj.find a.key).bind (itemTexts w)).getD []

def givenOutbound (w : World) (obj : JsonObject) : Int32 :=
  match obj.find Attr.outbound.key with
  | some value => importedOutbound w value
  | none => directID

/-- The action that is stored; a blank one is read as route. -/
def actionText (items : List String) : String := if (scalar items).isEmpty then "route" else scalar items

theorem key_ne_name (a : Attr) : a.key ≠ "name" ∧ a.key ≠ "type" ∧ a.key ≠ "disabled" := by cases a <;> decide +kernel

section

variable {w : World} {a : Attr} {rule rule' : RouteRule} {m : String × Json}

theorem storeMember_other {α : Type} {f : RouteRule → α} (hdisabled : ∀ rule disabled, f { rule with disabled } = f rule)
    (houtbound : a ≠ .outbound → ∀ rule outboundID, f { rule with outboundID } = f rule)
    (hset : ∀ (rule : RouteRule) b items, b ≠ a → b ≠ .outbound → f (rule.setFieldValue b items) = f rule)
    (hmethod : a = .method → m.1 ≠ "reject_method") (h : storeMember w rule m = some rule') (hkey : m.1 ≠ a.key) :
    f rule' = f rule := by
  obtain ⟨-, rfl⟩ | ⟨-, rfl⟩ | ⟨hm, rfl⟩ | ⟨b, -, -, -, -, rfl⟩ | ⟨b, items, hb, hattr, -, rfl⟩ | ⟨-, rfl⟩ :=
    storeMember_cases w h
  · rfl
  · exact hdisabled rule _
  · exact houtbound (fun ha => hkey (ha ▸ hm)) rule _
  · rfl
  · refine hset rule b items ?_ hb
    rintro rfl
    obtain hm | ⟨hm, hreject⟩ := key_of_ofKey hattr
    · exact hkey hm
    · exact hmethod hm hreject
  · rfl

theorem storeMember_own (houtbound : a ≠ .outbound) (h : storeMember w rule m = some rule') (hkey : m.1 = a.key) :
    rule' = (itemTexts w m.2).elim rule (rule.setFieldValue a) := by
  have hattr : ofKey m.1 = some a := by rw [hkey, ofKey_key]
  obtain ⟨hm, -⟩ | ⟨hm, -⟩ | ⟨hm, -⟩ | ⟨b, -, -, htexts, -, rfl⟩ | ⟨b, items, -, hb, htexts, rfl⟩ | ⟨hm, -⟩ :=
    storeMember_cases w h
  · rw [hkey] at hm
    exact absurd hm (not_or.mpr ⟨(key_ne_name a).1, (key_ne_name a).2.1⟩)
  · exact absurd (hkey ▸ hm) (key_ne_name a).2.2
  · rw [hm, ofKey_key] at hattr
    exact absurd (some.inj hattr).symm houtbound
  · rw [htexts]; rfl
  · obtain rfl : b = a := some.inj (hb.symm.trans hattr)
    rw [htexts]; rfl
  · exact absurd (hm.symm.trans hattr) (by simp)

variable {obj : JsonObject}

variable {type : Int32}

/-- **Stored.** A part of the rule that is written with one attribute comes from the texts given to it. -/
theorem stored_reads {α : Type} {f : RouteRule → α} {put : List String → α}
    (hdisabled : ∀ rule disabled, f { rule with disabled } = f rule) (houtbound : a ≠ .outbound)
    (hid : ∀ rule outboundID, f { rule with outboundID } = f rule)
    (hset : ∀ (rule : RouteRule) b items, b ≠ a → b ≠ .outbound → f (rule.setFieldValue b items) = f rule)
    (hput : ∀ (rule : RouteRule) items, f (rule.setFieldValue a items) = put items) (hstart : f { type } = put [])
    (hmethod : a = .method → obj.find "reject_method" = none)
    (h : storeMembers w { type } obj.members = some rule) : f rule = put (given w obj a) := by
  have hreject : a = .method → ∀ m ∈ obj.members, m.1 ≠ "reject_method" := by
    intro ha m hm hkey
    have hnone := map_eq_none_iff.mp (hmethod ha)
    exact absurd hkey (by simpa using find?_eq_none.mp hnone m hm)
  have hreads := storeMembers_reads w f a.key (fun value old => (itemTexts w value).elim old put) obj.distinct
    (fun m hm rule rule' hstore hkey =>
      storeMember_other hdisabled (fun _ => hid) hset (fun ha => hreject ha m hm) hstore hkey)
    (fun m _ rule rule' hstore hkey => by
      rw [storeMember_own houtbound hstore hkey]
      cases itemTexts w m.2 with
      | none => rfl
      | some items => exact hput rule items) h
  rw [hreads, given, JsonObject.find]
  cases obj.members.find? (fun m => m.1 == a.key) with
  | none => exact hstart
  | some m =>
    show (itemTexts w m.2).elim (f { type }) put = put ((itemTexts w m.2).getD [])
    cases itemTexts w m.2 with
    | none => exact hstart
    | some items => rfl

theorem initial_values (type : Int32) (houtbound : a ≠ .outbound) (hsniffers : a ≠ .sniffers) :
    ({ type } : RouteRule).values a = a.keeps [] := by
  have hsame : ({ type } : RouteRule).setFieldValue a [] = { type } := by
    cases a <;> first | exact absurd rfl houtbound | rfl
  rw [← RouteRule.values_setFieldValue { type } [] houtbound hsniffers, hsame]

theorem stored_values (houtbound : a ≠ .outbound) (hsniffers : a ≠ .sniffers)
    (hmethod : a = .method → obj.find "reject_method" = none)
    (h : storeMembers w { type } obj.members = some rule) : rule.values a = a.keeps (given w obj a) :=
  stored_reads (f := fun rule => rule.values a) (fun rule disabled => rule.values_disabled disabled a) houtbound
    (fun rule id => rule.values_outboundID id houtbound) (fun rule _ items hb _ => rule.values_set_other hb items)
    (fun rule items => rule.values_setFieldValue items houtbound hsniffers)
    (initial_values type houtbound hsniffers) hmethod h

theorem stored_list (hlist : a.isListAttribute = true) (hsniffers : a ≠ .sniffers)
    (h : storeMembers w { type } obj.members = some rule) : rule.getCurrentValueString a = filterEmpty (given w obj a) :=
  stored_reads (f := fun rule => rule.getCurrentValueString a) (fun _ _ => by cases a <;> rfl)
    (by rintro rfl; exact absurd hlist (by decide))
    (fun _ _ => by cases a <;> first | rfl | exact absurd hlist (by decide))
    (fun rule _ items hb _ => rule.getCurrentValueString_set_other hb items)
    (fun rule items => rule.getCurrentValueString_set_list hlist hsniffers items)
    (by cases a <;> first | rfl | exact absurd hlist (by decide)) (by rintro rfl; exact absurd hlist (by decide)) h

variable (h : storeMembers w { type } obj.members = some rule)

include h

theorem stored_action :
    rule.action = actionText (given w obj .action) :=
  stored_reads (f := RouteRule.action) (fun _ _ => rfl) (by simp) (fun _ _ => rfl) (fun rule b items hb _ => rule.set_action hb items)
    (fun _ _ => rfl) rfl (by simp) h

theorem stored_outboundID :
    rule.outboundID = givenOutbound w obj := by
  have hreads := storeMembers_reads w RouteRule.outboundID outbound.key (fun value _ => importedOutbound w value)
    obj.distinct
    (fun m _ rule rule' hstore hkey =>
      storeMember_other (a := .outbound) (fun _ _ => rfl) (fun hne => absurd rfl hne)
        (fun rule b items hb _ => rule.set_outboundID hb items) (by simp) hstore hkey)
    (fun m _ rule rule' hstore hkey => by
      obtain ⟨hm, -⟩ | ⟨hm, -⟩ | ⟨-, rfl⟩ | ⟨b, hb, hattr, -⟩ | ⟨b, items, hb, hattr, -⟩ | ⟨hm, -⟩ :=
        storeMember_cases w hstore
      · rw [hkey] at hm
        exact absurd hm (not_or.mpr ⟨(key_ne_name _).1, (key_ne_name _).2.1⟩)
      · exact absurd (hkey ▸ hm) (key_ne_name _).2.2
      · rfl
      · rw [hkey, ofKey_key] at hattr
        exact absurd (some.inj hattr).symm hb
      · rw [hkey, ofKey_key] at hattr
        exact absurd (some.inj hattr).symm hb
      · rw [hkey, ofKey_key] at hm
        exact absurd hm (by simp)) h
  rw [hreads, givenOutbound, JsonObject.find]
  cases obj.members.find? (fun m => m.1 == outbound.key) <;> rfl

end

end Waterdisco.Routing
