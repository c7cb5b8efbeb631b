import Waterdisco.Outbound.Custom
import Waterdisco.Outbound.XrayDecoded
import Waterdisco.Route.Rules

/-!
# The security label of an Xray outbound

`xrayOutboundSecurity` of custom.cpp, on which the list of profiles shows how well a JSON
outbound is protected.  A label trusts only what all spellings of a key agree on
(`xrayAgreed`); the download leg is read the way the core reads it
(`xrayDownloadLegProtection`).
-/

namespace Waterdisco.XrayStream

open Bool
open Route (trimmed)
open Custom (customValueNamed)

/-! ## Agreement -/

mutual

/-- Equality of values. -/
def sameJson : Json → Json → Bool
  | .null, .null => true
  | .bool a, .bool b => a == b
  | .num a, .num b => a == b
  | .double a, .double b => a == b
  | .str a, .str b => a == b
  | .arr a, .arr b => sameItems a b
  | .obj a, .obj b => sameMembers a b
  | _, _ => false

def sameItems : List Json → List Json → Bool
  | [], [] => true
  | a :: as, b :: bs => sameJson a b && sameItems as bs
  | _, _ => false

def sameMembers : List (String × Json) → List (String × Json) → Bool
  | [], [] => true
  | a :: as, b :: bs => sameMember a b && sameMembers as bs
  | _, _ => false

def sameMember : String × Json → String × Json → Bool
  | (k, a), (l, b) => k == l && sameJson a b

end

mutual

theorem sameJson_eq : ∀ a b : Json, sameJson a b = true → a = b
  | .null, b, h => by
    cases b <;> simp only [sameJson, false_eq_true] at h
    rfl
  | .bool a, b, h => by
    cases b <;> simp only [sameJson, false_eq_true] at h
    rw [eq_of_beq h]
  | .num a, b, h => by
    cases b <;> simp only [sameJson, false_eq_true] at h
    rw [eq_of_beq h]
  | .double a, b, h => by
    cases b <;> simp only [sameJson, false_eq_true] at h
    rw [eq_of_beq h]
  | .str a, b, h => by
    cases b <;> simp only [sameJson, false_eq_true] at h
    rw [eq_of_beq h]
  | .arr as, b, h => by
    cases b <;> simp only [sameJson, false_eq_true] at h
    rw [sameItems_eq as _ h]
  | .obj as, b, h => by
    cases b <;> simp only [sameJson, false_eq_true] at h
    rw [sameMembers_eq as _ h]

theorem sameItems_eq : ∀ as bs : List Json, sameItems as bs = true → as = bs
  | [], [], _ => rfl
  | [], _ :: _, h | _ :: _, [], h => by simp [sameItems] at h
  | a :: as, b :: bs, h => by
    rw [sameItems, and_eq_true] at h
    rw [sameJson_eq a b h.1, sameItems_eq as bs h.2]

theorem sameMembers_eq : ∀ as bs : List (String × Json), sameMembers as bs = true → as = bs
  | [], [], _ => rfl
  | [], _ :: _, h | _ :: _, [], h => by simp [sameMembers] at h
  | a :: as, b :: bs, h => by
    rw [sameMembers, and_eq_true] at h
    rw [sameMember_eq a b h.1, sameMembers_eq as bs h.2]

theorem sameMember_eq : ∀ a b : String × Json, sameMember a b = true → a = b
  | (k, a), (l, b), h => by
    rw [sameMember, and_eq_true] at h
    rw [eq_of_beq h.1, sameJson_eq a b h.2]

end

/-- What every spelling agrees on, undefined when they differ. -/
def xrayAgreed (o : Object) (name : String) : Option Json :=
  match keysNamed o name with
  | [] => none
  | first :: rest =>
    let value := (valueAt o first).getD .null
    if rest.all fun key => sameJson ((valueAt o key).getD .null) value then some value else none

/-- For names Xray lower-cases; empty when there are none, `none` when they differ. -/
def xrayAgreedName : List String → Option String
  | [] => some ""
  | first :: rest => if rest.all (· == first) then some first else none

/-! ## The label -/

inductive SecurityLevel
  | unknown
  | none
  | weak
  | secure
deriving DecidableEq

/-- Ordered worst to best. -/
def SecurityLevel.rank : SecurityLevel → Nat
  | .unknown => 0
  | .none => 1
  | .weak => 2
  | .secure => 3

structure SecurityInfo where
  label : String := ""
  transport : String := ""
  level : SecurityLevel := .unknown
  caVerified : Bool := false
  publicLeg : Bool := false

def SecurityInfo.isDangerous (info : SecurityInfo) : Bool := info.level == .none || info.level == .weak

/-- What the label asks of Qt: the case of a text, and whether an address is a private one. -/
structure Env where
  toLower : String → String
  toUpper : String → String
  isPrivateHost : String → Bool

def displayTransportName (env : Env) (type : String) : String :=
  if type.isEmpty || type == "tcp" || type == "raw" then ""
  else if type == "ws" then "WebSocket"
  else if type == "grpc" then "gRPC"
  else if type == "http" then "HTTP"
  else if type == "httpupgrade" then "HTTPUpgrade"
  else if type == "xhttp" then "XHTTP"
  else if type == "quic" then "QUIC"
  else env.toUpper type

/-- `direct` and `block` are Xray's aliases of `freedom` and `blackhole`. -/
def isXrayInfra (p : String) : Bool :=
  p == "freedom" || p == "direct" || p == "blackhole" || p == "block" || p == "dns" || p == "loopback"

def isVlessEncrypted (encryption : String) : Bool := !encryption.isEmpty && encryption != "none"

def spelled (o : Object) (name : String) : List Json := (keysNamed o name).map fun key => (valueAt o key).getD .null

def xrayAgreedProtocol (env : Env) (o : Object) : Option String :=
  xrayAgreedName ((spelled o "protocol").map fun v => env.toLower v.toStr)

/-- Xray lets a top-level address that is not null replace the list of servers. -/
def xrayInlinePeer (settings : Object) : Option Bool :=
  let addresses := spelled settings "address"
  let set := addresses.any fun v => !v.isNull
  let unset := addresses.any fun v => v.isNull
  if set && unset then none else some set

def agreedObject (o : Object) (name : String) : Object := ((xrayAgreed o name).getD .null).toObject

def agreedText (o : Object) (name : String) : String := ((xrayAgreed o name).getD .null).toStr

/-- `toArray().at(0).toObject()`. -/
def agreedFirst (o : Object) (name : String) : Object := (((xrayAgreed o name).getD .null).toArray.headD .null).toObject

/-- Only VMess and VLESS read `vnext`. -/
def xrayPeer (settings : Object) (protocol : String) : Object :=
  match xrayInlinePeer settings with
  | none => []
  | some true => settings
  | some false => agreedFirst settings (if protocol == "vmess" || protocol == "vless" then "vnext" else "servers")

def xrayOutboundPeer (env : Env) (o : Object) : Object :=
  match xrayAgreedProtocol env o with
  | none => []
  | some protocol => if protocol.isEmpty then [] else xrayPeer (agreedObject o "settings") protocol

def xrayVlessEncryption (settings : Object) : String :=
  match xrayInlinePeer settings with
  | none => ""
  | some inlinePeer => agreedText (if inlinePeer then settings else agreedFirst (xrayPeer settings "vless") "users") "encryption"

def xrayOutboundAddress (env : Env) (o : Object) : String := agreedText (xrayOutboundPeer env o) "address"

/-! ## The download leg -/

/-- A set method outranks network; only the XHTTP dialer reads the settings of a download leg. -/
def xrayStreamDialsXHTTP (streams : List Object) : Bool :=
  let method := (xrayStreamLast streams "method" true).getD .null
  let transport := if method.isNull then (xrayStreamLast streams "network" true).getD .null else method
  let name := xrayLower transport.toStr
  name == "xhttp" || name == "splithttp"

/-- The objects that `xrayStreamFromHolders` gives its edit. -/
def legOfHolders (holders : List Object) : List Object :=
  match (placesNamed holders "extra").getLast? with
  | none => (xrayStreamEditLive holders "downloadSettings" false id).given.getD []
  | some place =>
    match valueIn holders place with
    | some (.obj extra) => (xrayStreamEditLive [extra] "downloadSettings" false id).given.getD []
    | _ => []

/-- The objects that `xrayStreamEditDownloadLeg` gives its edit. -/
def legOfStreams (streams : List Object) : List Object :=
  match (xrayStreamEditLive streams "xhttpSettings" false id).given with
  | some holders => legOfHolders holders
  | none =>
    match (xrayStreamEditLive streams "splithttpSettings" false id).given with
    | some holders => legOfHolders holders
    | none => []

def xrayDownloadLeg (outbound : Object) : List Object :=
  match (xrayStreamEditLive [outbound] "streamSettings" false id).given with
  | none => []
  | some streams => if xrayStreamDialsXHTTP streams then legOfStreams streams else []

inductive XrayLegProtection
  | verified
  | unverified
  | plain
deriving DecidableEq

/-- Texts between commas, of which one is not blank. -/
def namesSome (list : String) : Bool := (list.splitOn ",").any fun entry => !(trimmed entry).isEmpty

/-- Xray verifies against a pin or the names it is given, even with `allowInsecure`. -/
def pinnedTls (tls : List Object) : Bool :=
  ["pinnedPeerCertSha256", "verifyPeerCertByName"].any fun name => namesSome (lastText tls name)

def xrayDownloadLegProtection (leg : List Object) : XrayLegProtection × String :=
  let server := ((xrayStreamLast leg "address" true).getD .null).toStr
  let security := xrayLower (lastText leg "security")
  if security == "reality" then (.verified, server)
  else if security != "tls" then (.plain, server)
  else
    let given := (xrayStreamEditLive leg "tlsSettings" false id).given
    let insecure := given.any fun tls => ((xrayStreamLast tls "allowInsecure" false).getD .null).toBool
    let pinned := given.any pinnedTls
    (if insecure && !pinned then .unverified else .verified, server)

def withXrayDownloadLeg (env : Env) (info : SecurityInfo) (host : String) (leg : List Object) : SecurityInfo :=
  if leg.isEmpty || info.level == .unknown then info
  else
    let (protection, server) := xrayDownloadLegProtection leg
    if protection == .verified || env.isPrivateHost server then info
    else
      let level : SecurityLevel := if protection == .plain then .none else .weak
      -- a label that already counts gives way only to a weaker leg
      if info.isDangerous && !env.isPrivateHost host && decide (info.level.rank ≤ level.rank) then info
      else
        { info with
          label := if protection == .plain then "Raw download" else "Insecure TLS download"
          level := level
          caVerified := false
          publicLeg := true }

/-! ## An outbound -/

/-- The label of the main streams. -/
def streamSecurity (env : Env) (o : Object) : SecurityInfo :=
  let values := spelled o "streamSettings"
  let streamsKnown := values.all Json.isObject
  let streams := values.map Json.toObject
  let transport := displayTransportName env (env.toLower (customValueNamed (streams.headD []) "network").toStr)
  let securities := streams.flatMap fun stream => (spelled stream "security").map fun v => env.toLower v.toStr
  let security := if streamsKnown then (xrayAgreedName securities).getD "" else ""
  if security == "reality" then { label := "Reality", transport := transport, level := .secure }
  else if security == "tls" then
    let insecure := streams.any fun stream =>
      (spelled stream "tlsSettings").any fun tls => (spelled tls.toObject "allowInsecure").any Json.toBool
    { label := if insecure then "Insecure TLS" else "TLS"
      transport := transport
      level := if insecure then .weak else .secure }
  else { label := "Raw", transport := transport, level := .none }

/-- The protocol encrypts by itself, as far as the spellings agree. -/
def xrayEncrypts (env : Env) (o : Object) (protocol : String) : Bool :=
  let ssMethod := xrayLower (agreedText (xrayOutboundPeer env o) "method")
  (protocol == "shadowsocks" && !ssMethod.isEmpty && ssMethod != "none" && ssMethod != "plain") ||
    protocol == "wireguard" || (protocol == "vless" &&
      isVlessEncrypted (xrayVlessEncryption (agreedObject o "settings")))

def xrayOutboundSecurity (env : Env) (o : Object) : SecurityInfo :=
  let agreedProtocol := xrayAgreedProtocol env o
  if agreedProtocol.any fun p => p.isEmpty || isXrayInfra p then {}
  else
    -- Disagreeing spellings leave the protocol unknown, so only TLS or REALITY lift the label above Raw.
    let protocol := agreedProtocol.getD ""
    let encrypts := xrayEncrypts env o protocol
    let info := streamSecurity env o
    let info := if encrypts then info else withXrayDownloadLeg env info (xrayOutboundAddress env o) (xrayDownloadLeg o)
    if info.level != .none then info
    else if encrypts then { info with label := "Encrypted", level := .secure }
    else if protocol == "vmess" then { info with label := "Insecure", level := .weak }
    else info

end Waterdisco.XrayStream
