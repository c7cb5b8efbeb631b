import Waterdisco.Route.Rules

/-!
# Lists taken from the rules

The DNS section takes lists of its own out of the routing rules: the names that rules
send to direct (`getDirectSites`) or to the proxy (`getProxySites`).  An entry is a kind
and a value, written `kind:value` in the source.
-/

namespace Waterdisco.Route

open Config

inductive SelectorKind where
  | ruleset
  | domain
  | suffix
  | keyword
  | regex
deriving DecidableEq

abbrev Selector := SelectorKind × String

/-- An enabled rule that routes to this outbound, by its own action and not by the one it emits. -/
def RouteRule.routesTo (rule : RouteRule) (outboundID : Int) : Bool :=
  !rule.disabled && rule.outboundID == outboundID && rule.action == "route"

open SelectorKind

def RouteRule.sites (rule : RouteRule) : List Selector :=
  (rule.ruleSet.filter (fun name => "geosite-".isPrefixOf name)).map (ruleset, ·) ++
    rule.domain.map (domain, ·) ++
    rule.domainSuffix.map (suffix, ·) ++
    rule.domainKeyword.map (keyword, ·) ++
    rule.domainRegex.map (regex, ·)

def RouteProfile.getDirectSites (profile : RouteProfile) : List Selector :=
  (profile.rules.filter (·.routesTo directID)).flatMap RouteRule.sites

def RouteProfile.getProxySites (profile : RouteProfile) : List Selector :=
  (profile.rules.filter (·.routesTo proxyID)).flatMap RouteRule.sites

/-- `parseSelectorList`: the values of one kind, trimmed, without the blank ones. -/
def selectorValues (kind : SelectorKind) (items : List Selector) : List String :=
  getAsArray ((items.filter (fun item => item.1 == kind)).map (·.2))

structure DomainSelectors where
  ruleSets : List String := []
  domains : List String := []
  suffixes : List String := []
  keywords : List String := []
  regexes : List String := []
deriving DecidableEq

def DomainSelectors.hasInlineConditions (s : DomainSelectors) : Bool :=
  !s.domains.isEmpty || !s.suffixes.isEmpty || !s.keywords.isEmpty || !s.regexes.isEmpty

def parseDomainSelectors (items : List Selector) : DomainSelectors where
  ruleSets := selectorValues .ruleset items
  domains := selectorValues .domain items
  suffixes := selectorValues .suffix items
  keywords := selectorValues .keyword items
  regexes := selectorValues .regex items

end Waterdisco.Route
