import Mathlib.Data.List.DropRight
import Waterdisco.Route.Entities

/-!
# The attributes of a rule

Every attribute that a rule object can name, with the tables that say what kind of value it
takes, and the readers and writers of its field.

    a.keeps items = what setFieldValue stores of them       (values_setFieldValue)
-/

namespace Waterdisco.Routing

open List
open Route (trimmed)

inductive Attr where
  | ipVersion
  | network
  | protocol
  | inbound
  | domain
  | domainSuffix
  | domainKeyword
  | domainRegex
  | sourceIpCidr
  | sourceIpIsPrivate
  | ipCidr
  | ipIsPrivate
  | sourcePort
  | sourcePortRange
  | port
  | portRange
  | processName
  | processPath
  | processPathRegex
  | packageName
  | wifiSsid
  | wifiBssid
  | ruleSet
  | invert
  | action
  | outbound
  | overrideAddress
  | overridePort
  | tlsFragment
  | tlsFragmentFallbackDelay
  | tlsRecordFragment
  | tlsSpoof
  | tlsSpoofMethod
  | method
  | noDrop
  | overrideDestination
  | strategy
  | sniffers
deriving DecidableEq

inductive InputType where
  | trufalse
  | select
  | text
deriving DecidableEq

namespace Attr

def key : Attr → String
  | .ipVersion => "ip_version"
  | .network => "network"
  | .protocol => "protocol"
  | .inbound => "inbound"
  | .domain => "domain"
  | .domainSuffix => "domain_suffix"
  | .domainKeyword => "domain_keyword"
  | .domainRegex => "domain_regex"
  | .sourceIpCidr => "source_ip_cidr"
  | .sourceIpIsPrivate => "source_ip_is_private"
  | .ipCidr => "ip_cidr"
  | .ipIsPrivate => "ip_is_private"
  | .sourcePort => "source_port"
  | .sourcePortRange => "source_port_range"
  | .port => "port"
  | .portRange => "port_range"
  | .processName => "process_name"
  | .processPath => "process_path"
  | .processPathRegex => "process_path_regex"
  | .packageName => "package_name"
  | .wifiSsid => "wifi_ssid"
  | .wifiBssid => "wifi_bssid"
  | .ruleSet => "rule_set"
  | .invert => "invert"
  | .action => "action"
  | .outbound => "outbound"
  | .overrideAddress => "override_address"
  | .overridePort => "override_port"
  | .tlsFragment => "tls_fragment"
  | .tlsFragmentFallbackDelay => "tls_fragment_fallback_delay"
  | .tlsRecordFragment => "tls_record_fragment"
  | .tlsSpoof => "tls_spoof"
  | .tlsSpoofMethod => "tls_spoof_method"
  | .method => "method"
  | .noDrop => "no_drop"
  | .overrideDestination => "override_destination"
  | .strategy => "strategy"
  | .sniffers => "sniffers"

/-- `get_attributes` of a system with the Wi-Fi attributes; `sniffers` is stored but not edited. -/
def edited : List Attr :=
  [.ipVersion, .network, .protocol, .inbound, .domain, .domainSuffix, .domainKeyword, .domainRegex, .sourceIpCidr,
    .sourceIpIsPrivate, .ipCidr, .ipIsPrivate, .sourcePort, .sourcePortRange, .port, .portRange, .processName,
    .processPath, .processPathRegex, .packageName, .wifiSsid, .wifiBssid, .ruleSet, .invert, .action, .outbound,
    .overrideAddress, .overridePort, .tlsFragment, .tlsFragmentFallbackDelay, .tlsRecordFragment, .tlsSpoof,
    .tlsSpoofMethod, .method, .noDrop, .overrideDestination, .strategy]

def getAttributes (darwin : Bool) : List Attr :=
  if darwin then edited.filter (fun a => a != .wifiSsid && a != .wifiBssid) else edited

def getInputType : Attr → InputType
  | .invert | .sourceIpIsPrivate | .ipIsPrivate | .noDrop | .tlsFragment | .tlsRecordFragment | .overrideDestination =>
    .trufalse
  | .ipVersion | .network | .protocol | .action | .method | .strategy | .tlsSpoofMethod | .outbound => .select
  | _ => .text

def isListAttribute : Attr → Bool
  | .inbound | .domain | .domainSuffix | .domainKeyword | .domainRegex | .sourceIpCidr | .ipCidr | .sourcePort
  | .sourcePortRange | .port | .portRange | .processName | .processPath | .processPathRegex | .packageName
  | .wifiSsid | .wifiBssid | .ruleSet | .sniffers => true
  | _ => false

def isMatchAttribute : Attr → Bool
  | .ipVersion | .network | .protocol | .inbound | .domain | .domainSuffix | .domainKeyword | .domainRegex
  | .sourceIpCidr | .sourceIpIsPrivate | .ipCidr | .ipIsPrivate | .sourcePort | .sourcePortRange | .port | .portRange
  | .processName | .processPath | .processPathRegex | .packageName | .wifiSsid | .wifiBssid | .ruleSet | .invert =>
    true
  | _ => false

/-- `routeRuleActionScopes`: the actions an attribute is emitted for; of the others, every one. -/
def actionScopes : Attr → Option (List String)
  | .outbound => some ["route", "bypass"]
  | .overrideAddress | .overridePort | .tlsFragment | .tlsFragmentFallbackDelay | .tlsRecordFragment | .tlsSpoof
  | .tlsSpoofMethod => some ["route", "route-options", "bypass"]
  | .method | .noDrop => some ["reject"]
  | .overrideDestination => some ["sniff"]
  | .strategy => some ["resolve"]
  | _ => none

/-- The attribute a key of an object is stored in; older builds wrote `reject_method`. -/
def ofKey (key : String) : Option Attr :=
  if key == "reject_method" then some .method
  else (edited ++ [Attr.sniffers]).find? (fun a => a.key == key)

theorem ofKey_key (a : Attr) : ofKey a.key = some a := by cases a <;> decide +kernel

/-- Only `method` has a second key. -/
theorem key_of_ofKey {key : String} {a : Attr} (h : ofKey key = some a) : key = a.key ∨
    (a = .method ∧ key = "reject_method") := by
  rw [ofKey] at h
  split at h
  · next hkey => exact .inr ⟨(Option.some.inj h).symm, by simpa using hkey⟩
  · have hfound := find?_some h
    exact .inl (by simpa using (beq_iff_eq.mp hfound).symm)

end Attr

/-! ## Texts -/

def number (digits : List Char) : Option Nat :=
  if digits.isEmpty then none else readDigits 10 decimalDigit digits

/-- `QString::toInt`: 0 for a text that is no `int`. -/
def toInt (text : String) : Int :=
  let value : Option Int :=
    match (trimmed text).toList with
    | '-' :: digits => (number digits).map (fun n => -(n : Int))
    | '+' :: digits => (number digits).map (fun n => (n : Int))
    | digits => (number digits).map (fun n => (n : Int))
  match value with
  | some v => if -(2 : Int) ^ 31 ≤ v ∧ v < 2 ^ 31 then v else 0
  | none => 0

theorem head?_trimmed {text : List Char} {c : Char} (h : (Scan.trimmed text).head? = some c) :
    Scan.isSpace c = false := by
  have hprefix : Scan.trimmed text <+: text.dropWhile Scan.isSpace :=
    rdropWhile_prefix _ (text.dropWhile Scan.isSpace)
  obtain ⟨rest, hrest⟩ := hprefix
  have hfirst := head?_dropWhile_not Scan.isSpace text
  rwa [← hrest, head?_append, h] at hfirst

theorem trimmed_twice (text : List Char) : Scan.trimmed (Scan.trimmed text) = Scan.trimmed text := by
  have hfront : (Scan.trimmed text).dropWhile Scan.isSpace = Scan.trimmed text := by
    cases htext : Scan.trimmed text with
    | nil => rfl
    | cons c rest =>
      have hc := head?_trimmed (by rw [htext]; rfl)
      rw [dropWhile_cons_of_neg (by simp [hc])]
  have hback : (Scan.trimmed text).reverse.dropWhile Scan.isSpace = (Scan.trimmed text).reverse := by
    rw [Scan.trimmed, reverse_reverse]
    exact dropWhile_idempotent _ _
  nth_rewrite 1 [Scan.trimmed]
  rw [hfront, hback, reverse_reverse]

@[simp] theorem trimmed_trimmed (text : String) : trimmed (trimmed text) = trimmed text := by
  simp [trimmed, trimmed_twice]

def filterEmpty (base : List String) : List String := (base.map trimmed).filter (fun item => !item.isEmpty)

theorem filterEmpty_cons (item : String) (rest : List String) :
    filterEmpty (item :: rest) = if trimmed item = "" then filterEmpty rest else trimmed item :: filterEmpty rest := by
  by_cases h : trimmed item = "" <;> simp [filterEmpty, h]

theorem mem_filterEmpty {base : List String} {item : String} (h : item ∈ filterEmpty base) :
    trimmed item = item ∧ item ≠ "" := by
  obtain ⟨hmem, hne⟩ := mem_filter.mp h
  obtain ⟨raw, -, rfl⟩ := mem_map.mp hmem
  exact ⟨trimmed_trimmed raw, by simpa using hne⟩

theorem filterEmpty_of_clean {items : List String} (h : ∀ item ∈ items, trimmed item = item ∧ item ≠ "") :
    filterEmpty items = items := by
  have hmap : items.map trimmed = items := by
    conv_rhs => rw [← map_id items]
    exact map_congr_left (fun item hitem => (h item hitem).1)
  rw [filterEmpty, hmap]
  exact filter_eq_self.mpr (fun item hitem => by simpa using (h item hitem).2)

@[simp] theorem filterEmpty_filterEmpty (base : List String) : filterEmpty (filterEmpty base) = filterEmpty base :=
  filterEmpty_of_clean (fun _ => mem_filterEmpty)

theorem filterEmpty_one (text : String) : filterEmpty [text] = if trimmed text = "" then [] else [trimmed text] := by
  by_cases h : trimmed text = "" <;> simp [filterEmpty, h]

/-- The value of a field that takes one: an array can be empty. -/
def scalar : List String → String
  | [] => ""
  | first :: _ => trimmed first

@[simp] theorem trimmed_empty : trimmed "" = "" := by decide +kernel

@[simp] theorem trimmed_scalar (items : List String) : trimmed (scalar items) = scalar items := by
  cases items with
  | nil => decide +kernel
  | cons first _ => exact trimmed_trimmed first

/-! ## Fields -/

namespace RouteRule

/-- The values of the attributes other than flags. -/
def getCurrentValueString (rule : RouteRule) : Attr → List String
  | .ipVersion => [rule.ipVersion]
  | .network => [rule.network]
  | .protocol => [rule.protocol]
  | .action => [rule.action]
  | .method => [rule.rejectMethod]
  | .strategy => [rule.strategy]
  | .overrideAddress => [rule.overrideAddress]
  | .overridePort => [rule.overridePort]
  | .tlsFragmentFallbackDelay => [rule.tlsFragmentFallbackDelay]
  | .tlsSpoof => [rule.tlsSpoof]
  | .tlsSpoofMethod => [rule.tlsSpoofMethod]
  | .outbound => [toString rule.outboundID.toInt]
  | .inbound => rule.inbound
  | .domain => rule.domain
  | .domainSuffix => rule.domainSuffix
  | .domainKeyword => rule.domainKeyword
  | .domainRegex => rule.domainRegex
  | .sourceIpCidr => rule.sourceIpCidr
  | .ipCidr => rule.ipCidr
  | .sourcePort => rule.sourcePort
  | .sourcePortRange => rule.sourcePortRange
  | .port => rule.port
  | .portRange => rule.portRange
  | .processName => rule.processName
  | .processPath => rule.processPath
  | .processPathRegex => rule.processPathRegex
  | .packageName => rule.packageName
  | .wifiSsid => rule.wifiSsid
  | .wifiBssid => rule.wifiBssid
  | .ruleSet => rule.ruleSet
  | _ => []

def getCurrentValueBool (rule : RouteRule) : Attr → Bool
  | .sourceIpIsPrivate => rule.sourceIpIsPrivate
  | .ipIsPrivate => rule.ipIsPrivate
  | .invert => rule.invert
  | .noDrop => rule.noDrop
  | .tlsFragment => rule.tlsFragment
  | .tlsRecordFragment => rule.tlsRecordFragment
  | .overrideDestination => rule.sniffOverrideDest
  | _ => false

def setFieldValue (rule : RouteRule) (a : Attr) (value : List String) : RouteRule :=
  let text := scalar value
  let list := filterEmpty value
  let flag := text == "true"
  match a with
  | .ipVersion => { rule with ipVersion := text }
  | .network => { rule with network := text }
  | .protocol => { rule with protocol := text }
  | .inbound => { rule with inbound := list }
  | .domain => { rule with domain := list }
  | .domainSuffix => { rule with domainSuffix := list }
  | .domainKeyword => { rule with domainKeyword := list }
  | .domainRegex => { rule with domainRegex := list }
  | .sourceIpCidr => { rule with sourceIpCidr := list }
  | .sourceIpIsPrivate => { rule with sourceIpIsPrivate := flag }
  | .ipCidr => { rule with ipCidr := list }
  | .ipIsPrivate => { rule with ipIsPrivate := flag }
  | .sourcePort => { rule with sourcePort := list }
  | .sourcePortRange => { rule with sourcePortRange := list }
  | .port => { rule with port := list }
  | .portRange => { rule with portRange := list }
  | .processName => { rule with processName := list }
  | .processPath => { rule with processPath := list }
  | .processPathRegex => { rule with processPathRegex := list }
  | .packageName => { rule with packageName := list }
  | .wifiSsid => { rule with wifiSsid := list }
  | .wifiBssid => { rule with wifiBssid := list }
  | .ruleSet => { rule with ruleSet := list }
  | .sniffers => { rule with sniffers := list }
  | .invert => { rule with invert := flag }
  -- the core reads an empty action as route
  | .action => { rule with action := if text.isEmpty then "route" else text }
  | .method => { rule with rejectMethod := text }
  | .noDrop => { rule with noDrop := flag }
  | .overrideAddress => { rule with overrideAddress := text }
  | .overridePort => { rule with overridePort := text }
  | .tlsFragment => { rule with tlsFragment := flag }
  | .tlsFragmentFallbackDelay => { rule with tlsFragmentFallbackDelay := text }
  | .tlsRecordFragment => { rule with tlsRecordFragment := flag }
  | .tlsSpoof => { rule with tlsSpoof := text }
  | .tlsSpoofMethod => { rule with tlsSpoofMethod := text }
  | .overrideDestination => { rule with sniffOverrideDest := flag }
  | .strategy => { rule with strategy := text }
  | .outbound => { rule with outboundID := Int32.ofInt (toInt text) }

def clearAttributeValue (rule : RouteRule) : Attr → RouteRule
  | .ipVersion => { rule with ipVersion := "" }
  | .network => { rule with network := "" }
  | .protocol => { rule with protocol := "" }
  | .inbound => { rule with inbound := [] }
  | .domain => { rule with domain := [] }
  | .domainSuffix => { rule with domainSuffix := [] }
  | .domainKeyword => { rule with domainKeyword := [] }
  | .domainRegex => { rule with domainRegex := [] }
  | .sourceIpCidr => { rule with sourceIpCidr := [] }
  | .sourceIpIsPrivate => { rule with sourceIpIsPrivate := false }
  | .ipCidr => { rule with ipCidr := [] }
  | .ipIsPrivate => { rule with ipIsPrivate := false }
  | .sourcePort => { rule with sourcePort := [] }
  | .sourcePortRange => { rule with sourcePortRange := [] }
  | .port => { rule with port := [] }
  | .portRange => { rule with portRange := [] }
  | .processName => { rule with processName := [] }
  | .processPath => { rule with processPath := [] }
  | .processPathRegex => { rule with processPathRegex := [] }
  | .packageName => { rule with packageName := [] }
  | .wifiSsid => { rule with wifiSsid := [] }
  | .wifiBssid => { rule with wifiBssid := [] }
  | .ruleSet => { rule with ruleSet := [] }
  | .invert => { rule with invert := false }
  | .outbound => { rule with outboundID := -2 }
  | .method => { rule with rejectMethod := "" }
  | .noDrop => { rule with noDrop := false }
  | .overrideAddress => { rule with overrideAddress := "" }
  | .overridePort => { rule with overridePort := "" }
  | .tlsFragment => { rule with tlsFragment := false }
  | .tlsFragmentFallbackDelay => { rule with tlsFragmentFallbackDelay := "" }
  | .tlsRecordFragment => { rule with tlsRecordFragment := false }
  | .tlsSpoof => { rule with tlsSpoof := "" }
  | .tlsSpoofMethod => { rule with tlsSpoofMethod := "" }
  | .overrideDestination => { rule with sniffOverrideDest := false }
  | .strategy => { rule with strategy := "" }
  | .action | .sniffers => rule

/-- What a rule holds of an attribute; a flag holds its `true`. -/
def values (rule : RouteRule) (a : Attr) : List String :=
  if a.getInputType = .trufalse then (if rule.getCurrentValueBool a then ["true"] else [])
  else filterEmpty (rule.getCurrentValueString a)

end RouteRule

/-- What the field of an attribute takes of the items given to it. -/
def Attr.keeps (a : Attr) (items : List String) : List String :=
  if a.getInputType = .trufalse then (if scalar items = "true" then ["true"] else [])
  else if a.isListAttribute then filterEmpty items
  else if a = .action then [if (scalar items).isEmpty then "route" else scalar items]
  else filterEmpty [scalar items]

namespace RouteRule

variable {a b : Attr} (rule : RouteRule)

theorem getCurrentValueString_set_other (h : a ≠ b) (items : List String) :
    (rule.setFieldValue a items).getCurrentValueString b = rule.getCurrentValueString b := by
  cases b <;> cases a <;> first | exact absurd rfl h | dsimp only [setFieldValue, getCurrentValueString]

theorem getCurrentValueBool_set_other (h : a ≠ b) (items : List String) :
    (rule.setFieldValue a items).getCurrentValueBool b = rule.getCurrentValueBool b := by
  cases b with
  | invert | sourceIpIsPrivate | ipIsPrivate | noDrop | tlsFragment | tlsRecordFragment | overrideDestination =>
    cases a <;> first | exact absurd rfl h | dsimp only [setFieldValue, getCurrentValueBool]
  | _ => rfl

theorem values_set_other (h : a ≠ b) (items : List String) :
    (rule.setFieldValue a items).values b = rule.values b := by
  rw [values, values, getCurrentValueString_set_other rule h, getCurrentValueBool_set_other rule h]

theorem values_setFieldValue (items : List String) (houtbound : a ≠ .outbound)
    (hsniffers : a ≠ .sniffers) : (rule.setFieldValue a items).values a = a.keeps items := by
  cases a with
  | action =>
    by_cases h : scalar items = ""
    · have hroute : trimmed "route" = "route" := by decide +kernel
      simp [values, Attr.keeps, Attr.getInputType, Attr.isListAttribute, getCurrentValueString, setFieldValue, h,
        filterEmpty_one, hroute]
    · simp [values, Attr.keeps, Attr.getInputType, Attr.isListAttribute, getCurrentValueString, setFieldValue, h,
        filterEmpty_one, trimmed_scalar]
  | outbound => exact absurd rfl houtbound
  | sniffers => exact absurd rfl hsniffers
  | invert | sourceIpIsPrivate | ipIsPrivate | noDrop | tlsFragment | tlsRecordFragment | overrideDestination =>
    simp [values, Attr.keeps, Attr.getInputType, getCurrentValueBool, setFieldValue]
  | ipVersion | network | protocol | overrideAddress | overridePort | tlsFragmentFallbackDelay | tlsSpoof
  | tlsSpoofMethod | method | strategy =>
    simp [values, Attr.keeps, Attr.getInputType, Attr.isListAttribute, getCurrentValueString, setFieldValue]
  | _ => simp [values, Attr.keeps, Attr.getInputType, Attr.isListAttribute, getCurrentValueString, setFieldValue]

theorem getCurrentValueString_set_list (hlist : a.isListAttribute = true) (hsniffers : a ≠ .sniffers)
    (items : List String) : (rule.setFieldValue a items).getCurrentValueString a = filterEmpty items := by
  cases a <;> first | rfl | exact absurd rfl hsniffers | cases hlist

theorem getCurrentValueString_one (hlist : a.isListAttribute = false)
    (hflag : a.getInputType ≠ .trufalse) : ∃ text, rule.getCurrentValueString a = [text] := by
  cases a <;> first | exact ⟨_, rfl⟩ | exact absurd hlist (by decide) | exact absurd rfl hflag

theorem list_is_match (hlist : a.isListAttribute = true) (hsniffers : a ≠ .sniffers) : a.isMatchAttribute = true := by
  cases a <;> first | rfl | exact absurd rfl hsniffers | cases hlist

theorem clearAttributeValue_eq (haction : a ≠ .action) (houtbound : a ≠ .outbound)
    (hsniffers : a ≠ .sniffers) : rule.clearAttributeValue a = rule.setFieldValue a [] := by
  cases a with
  | action => exact absurd rfl haction
  | outbound => exact absurd rfl houtbound
  | sniffers => exact absurd rfl hsniffers
  | _ => rfl

theorem set_type (a : Attr) (items : List String) : (rule.setFieldValue a items).type = rule.type := by
  cases a <;> dsimp only [setFieldValue]

theorem set_action (h : a ≠ .action) (items : List String) :
    (rule.setFieldValue a items).action = rule.action := by
  cases a <;> first | exact absurd rfl h | dsimp only [setFieldValue]

theorem set_outboundID (h : a ≠ .outbound) (items : List String) :
    (rule.setFieldValue a items).outboundID = rule.outboundID := by
  cases a <;> first | exact absurd rfl h | dsimp only [setFieldValue]

theorem values_disabled (disabled : Bool) (a : Attr) :
    ({ rule with disabled } : RouteRule).values a = rule.values a := by cases a <;> rfl

theorem values_outboundID (id : Int32) (h : a ≠ .outbound) :
    ({ rule with outboundID := id } : RouteRule).values a = rule.values a := by
  cases a <;> first | exact absurd rfl h | rfl

theorem values_tlsRecordFragment (flag : Bool) (h : a ≠ .tlsRecordFragment) :
    ({ rule with tlsRecordFragment := flag } : RouteRule).values a = rule.values a := by
  cases a <;> first | exact absurd rfl h | rfl

end RouteRule

end Waterdisco.Routing
