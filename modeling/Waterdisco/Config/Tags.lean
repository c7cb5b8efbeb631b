import Waterdisco.Lib.Digits

/-!
# Tags of the generated configuration

Outbounds, inbounds and DNS servers name each other by text.  A hop of a chain takes
the chain's own words and its place (`config-2`, `route-0`, `pool-3-1`); the places
that rules may name have fixed tags (`proxy`, `warp-bypass`).

    hopTag p i = hopTag q j ↔ p = q ∧ i = j        (hopTag_inj)
    a fixed tag is no hop's tag                     (hopTag_ne)
-/

namespace Waterdisco.Config

open String List Nat Option

/-- What the configuration calls an outbound, an inbound or a DNS server. -/
abbrev Tag := String

namespace Tags

/-- Where the started profile begins. -/
def proxy : Tag := "proxy"
def direct : Tag := "direct"
/-- The hop behind WARP, for rules to name. -/
def warpBypass : Tag := "warp-bypass"
/-- Not a bridge between the cores. -/
def l3Direct : Tag := "l3-direct"

def dnsRemote : Tag := "dns-remote"
def dnsDirect : Tag := "dns-direct"
def dnsLocal : Tag := "dns-local"
def dnsFake : Tag := "dns-fake"
def dnsTailscale : Tag := "dns-tailscale"
def dnsHosts : Tag := "dns-hosts"
def dnsVpnPrefix : Tag := "dns-vpn"
def dnsEchPrefix : Tag := "dns-ech"

/-- The words that hops begin with, by what the chain is for. -/
def mainChainPrefix : Tag := "config"
def routeChainPrefix : Tag := "route"
def auxEndpointPrefix : Tag := "aux"
def poolChainPrefix : Tag := "pool"
def testChainPrefix : Tag := "proxy"
def testXrayFullPrefix : Tag := "xrayfull"
/-- The socks bridges between the cores. -/
def bridgePrefix : Tag := "bridge"

end Tags

/-- The hop at this place of a chain. -/
def hopTag (chain : Tag) (index : Int) : Tag := chain ++ "-" ++ toString index

/-- The bridge that leads back to a sing-box ingress. -/
def bridgeTagFor (singIngressTag : Tag) : Tag := Tags.bridgePrefix ++ "-" ++ singIngressTag

/-- The listener in front of an Xray outbound. -/
def xrayInboundTag (outboundTag : Tag) : Tag := outboundTag ++ "-" ++ "inbound"

/-! ## Texts of numbers -/

theorem toList_hopTag (chain : Tag) (index : Int) :
    (hopTag chain index).toList = chain.toList ++ '-' :: (toString index).toList := by
  simp [hopTag]

theorem isDigit_of_mem_toString {n : Nat} {c : Char} (h : c ∈ (toString (n : Int)).toList) : c.isDigit = true := by
  have hn : (toString (n : Int)).toList = toDigits 10 n := by
    exact toList_repr
  rw [hn] at h
  exact isDigit_of_mem_toDigits (by omega) (by omega) h

variable {t : Tag} (p : Tag) (i : Int)

theorem getLast?_toString_isDigit : ∃ c, (toString i).toList.getLast? = some c ∧ c.isDigit = true := by
  have hdigits (n : Nat) : ∃ c, (Nat.repr n).toList.getLast? = some c ∧ c.isDigit = true := by
    rw [Nat.toList_repr]
    have hne : Nat.toDigits 10 n ≠ [] := Nat.toDigits_ne_nil
    exact ⟨_, List.getLast?_eq_some_getLast hne,
      Nat.isDigit_of_mem_toDigits (by omega) (by omega) (List.getLast_mem hne)⟩
  cases i with
  | ofNat n => exact hdigits n
  | negSucc n =>
    obtain ⟨c, hc, hd⟩ := hdigits (n + 1)
    refine ⟨c, ?_, hd⟩
    show ("-" ++ Nat.repr (n + 1)).toList.getLast? = some c
    rw [String.toList_append, List.getLast?_append, hc]
    rfl

/-! ## Different tags -/

/-- **The last dash tells the chain from the place in it.** -/
theorem hopTag_inj {p q : Tag} {i j : Nat} : hopTag p i = hopTag q j ↔ p = q ∧ i = j := by
  constructor
  · intro h
    have hlist := congrArg String.toList h
    rw [toList_hopTag, toList_hopTag] at hlist
    have hdash (n : Nat) : '-' ∉ (toString (n : Int)).toList.reverse := by
      rw [List.mem_reverse]
      intro hm
      exact absurd (isDigit_of_mem_toString hm) (by decide)
    have hcut := congrArg (fun l => cut '-' l.reverse) hlist
    simp only [List.reverse_append, List.reverse_cons, List.append_assoc, List.singleton_append] at hcut
    rw [cut_append (hdash i), cut_append (hdash j)] at hcut
    simp only [Option.some.injEq, Prod.mk.injEq, List.reverse_inj] at hcut
    refine ⟨String.toList_inj.mp hcut.2, ?_⟩
    exact toDigits_inj (Nat.toList_repr.symm.trans (hcut.1.trans Nat.toList_repr))
  · rintro ⟨rfl, rfl⟩
    rfl

theorem hopTag_ne {c : Char} (ht : t.toList.getLast? = some c) (hc : c.isDigit = false) (p : Tag) (i : Int) :
    hopTag p i ≠ t := by
  rintro rfl
  rw [toList_hopTag, getLast?_append, getLast?_cons] at ht
  obtain ⟨d, hd, hdigit⟩ := getLast?_toString_isDigit i
  rw [hd] at ht
  simp only [getD_some, some_or, some.injEq] at ht
  rw [ht, hc] at hdigit
  exact Bool.noConfusion hdigit

@[simp] theorem hopTag_ne_proxy : hopTag p i ≠ Tags.proxy :=
  hopTag_ne (c := 'y') (by decide) (by decide) p i

@[simp] theorem hopTag_ne_direct : hopTag p i ≠ Tags.direct :=
  hopTag_ne (c := 't') (by decide) (by decide) p i

@[simp] theorem hopTag_ne_warpBypass : hopTag p i ≠ Tags.warpBypass :=
  hopTag_ne (c := 's') (by decide) (by decide) p i

@[simp] theorem hopTag_ne_l3Direct : hopTag p i ≠ Tags.l3Direct :=
  hopTag_ne (c := 't') (by decide) (by decide) p i

/-- A bridge tells what it leads to. -/
theorem bridgeTagFor_inj {s : Tag} : bridgeTagFor s = bridgeTagFor t ↔ s = t := by
  constructor
  · intro h
    have hlist := congrArg String.toList h
    simp only [bridgeTagFor, toList_append, append_cancel_left_eq] at hlist
    exact toList_inj.mp hlist
  · rintro rfl
    rfl

theorem xrayInboundTag_inj {s : Tag} : xrayInboundTag s = xrayInboundTag t ↔ s = t := by
  constructor
  · intro h
    have hlist := congrArg String.toList h
    simp only [xrayInboundTag, toList_append, append_cancel_right_eq] at hlist
    exact toList_inj.mp hlist
  · rintro rfl
    rfl

end Waterdisco.Config
