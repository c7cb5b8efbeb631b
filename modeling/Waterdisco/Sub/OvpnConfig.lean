import Waterdisco.Sub.VpnFile

/-!
# Reading an OpenVPN configuration

`ParseOvpnConfig` goes through the directives in the order of the text.  Each sets what
the endpoint has for it, or leaves a note that it is ignored; a few make the whole text
unusable.  What the core refuses together is only put right at the end, when everything
has been read: a lone certificate or key, a server beside a list of servers, a value
given inline and by path.

The directives that name servers and ports are read by `Parsing.directive` itself; all
others only reach the `Reading`.
-/

namespace Waterdisco.Ovpn

open String
open Routing (toInt parseInt portProblem)
open Route (trimmed)

/-! ## The outbound -/

structure ControlWrap where
  type : String := ""
  key : List String := []
  direction : String := ""
  keyPath : String := ""
deriving DecidableEq

structure Tls where
  certificate : List String := []
  clientCertificate : List String := []
  clientKey : List String := []
  controlWrap : ControlWrap := {}
  serverName : String := ""
  serverNameType : String := ""
  certificatePath : String := ""
  clientCertificatePath : String := ""
  clientKeyPath : String := ""
  peerFingerprint : List String := []
  crlPath : String := ""
  remoteCertificateKu : List String := []
  remoteCertificateEku : String := ""
  remoteCertificateTls : String := ""
  certificateProfile : String := ""
  nsCertificateType : String := ""
  versionMin : String := ""
  versionMax : String := ""
  cipher : String := ""
  groups : String := ""
deriving DecidableEq

structure PullFilter where
  action : String
  text : String
deriving DecidableEq

/-- What the directives set of an `openvpn` outbound. -/
structure Settings where
  name : String := ""
  network : String := ""
  username : String := ""
  password : String := ""
  staticChallenge : String := ""
  staticChallengeEcho : Bool := false
  mtu : Int := 0
  tls : Tls := {}
  onlyAdvertisedRoutes : Bool := true
  mode : String := ""
  remoteRandom : Bool := false
  address : List String := []
  peerAddress : String := ""
  peerAddressIpv6 : String := ""
  topology : String := ""
  authRetry : String := ""
  staticKey : List String := []
  staticKeyPath : String := ""
  keyDirection : String := ""
  cipher : String := ""
  dataCiphers : List String := []
  dataCiphersFallback : String := ""
  auth : String := ""
  mssFix : Int := 0
  mssFixDisabled : Bool := false
  mssFixMode : String := ""
  fragment : Int := 0
  replayWindow : Int := 0
  replayWindowTime : String := ""
  compression : String := ""
  compressionLzo : String := ""
  allowCompression : String := ""
  routeNoPull : Bool := false
  pullFilters : List PullFilter := []
  routes : List String := []
  routeGateway : String := ""
  routeMetric : Int := 0
  redirectGateway : Bool := false
  redirectGatewayFlags : List String := []
  redirectPrivate : Bool := false
  blockIpv6 : Bool := false
  pingInterval : String := ""
  pingRestart : String := ""
  pingRestartDisabled : Bool := false
  renegotiateInterval : String := ""
  renegotiateDisabled : Bool := false
  renegotiateBytes : Int := 0
  renegotiatePackets : Int := 0
  tlsTimeout : String := ""
  handshakeWindow : String := ""
  explicitExitNotify : Int := 0
deriving DecidableEq

/-- The servers are only known at the end of the text. -/
structure Outbound extends Settings where
  server : String := ""
  serverPort : Int := 0
  servers : List Remote := []
deriving DecidableEq

/-- The rules for single values, each with its message; empty for what is accepted. -/
structure Rules where
  toLower : String → String
  toUpper : String → String
  isValidDuration : String → Bool
  cipherName : String → String
  normalizeTlsCipher : String → String
  tlsCipher : String → String
  tlsGroups : String → String
  replayWindowTime : String → String
  normalizeFingerprint : String → String
  fingerprint : String → String
  ip : String → String
  ipOrEmpty : String → String
  /-- `QHostAddress::parseSubnet`: the address as text and the length. -/
  parseSubnet : String → Option (String × Int)

/-! ## Single values -/

def rangeMessage (min max : Int) : String := "Must be from " ++ toString min ++ " to " ++ toString max ++ "."

def signedDigits (text : List Char) : Bool := Routing.routeRuleDigits (if text.head? = some '-' then text.tail else text)

/-- `Validation::Int` of a value that may not be empty. -/
def intProblem (text : String) (min max : Int) : String :=
  let t := trimmed text
  if t.isEmpty then "This field is required."
  else
    match parseInt t.toList with
    | none => if signedDigits t.toList then rangeMessage min max else "Must be a whole number."
    | some v => if v < min ∨ max < v then rangeMessage min max else ""

def int32Max : Int := 2 ^ 31 - 1
def int64Max : Int := 2 ^ 63 - 1

def toLongLong (text : String) : Option Int :=
  let value : Option Int :=
    match (trimmed text).toList with
    | '-' :: digits => (Routing.number digits).map (fun n => -(n : Int))
    | '+' :: digits => (Routing.number digits).map (fun n => (n : Int))
    | digits => (Routing.number digits).map (fun n => (n : Int))
  value.filter (fun v => decide (-(2 : Int) ^ 63 ≤ v ∧ v < 2 ^ 63))

def fragmentProblem (text : String) : String :=
  if intProblem text 0 65535 ≠ "" then intProblem text 0 65535
  else
    let value := (parseInt (trimmed text).toList).getD 0
    if 0 < value ∧ value < 68 then "Must be 0 (off) or at least 68." else ""

def vpnfiPrefix (rules : Rules) (address mask : String) : String :=
  match rules.parseSubnet (address ++ "/" ++ mask) with
  | some (host, length) => host ++ "/" ++ toString length
  | none => ""

def vpnfiNormalizePrefix (rules : Rules) (text : String) : String :=
  match rules.parseSubnet text with
  | some (host, length) => host ++ "/" ++ toString length
  | none => ""

def vpnfiFingerprint (rules : Rules) (raw : String) : String :=
  let hex := rules.normalizeFingerprint raw
  if hex ≠ "" ∧ rules.fingerprint hex = "" then hex else ""

def vpnfiRouteKeyword (value : String) : Bool :=
  value ∈ ["vpn_gateway", "net_gateway", "remote_host", "default", "dhcp"]

/-- The direction of a key as OpenVPN numbers it. -/
def keyDirectionOf (value : String) : String := if value = "1" then "client" else if value = "0" then "server" else ""

def underscored (tag : String) : String := ofList (tag.toList.map (fun c => if c = '-' then '_' else c))

/-! ## What is read -/

/-- The settings and what only the end of the text decides. -/
structure Reading where
  out : Settings := {}
  keyDirection : String := ""
  legacyCipher : String := ""
  ifconfigLocal : String := ""
  ifconfigSecond : String := ""
  clientCertSwitch : String := ""
  friendlyName : String := ""
  notes : List String := []
deriving DecidableEq

namespace Reading

def note (r : Reading) (text : String) : Reading := { r with notes := r.notes ++ [text] }

def set (r : Reading) (f : Settings → Settings) : Reading := { r with out := f r.out }

def setTls (r : Reading) (f : Tls → Tls) : Reading := r.set fun out => { out with tls := f out.tls }

def setWrap (r : Reading) (f : ControlWrap → ControlWrap) : Reading :=
  r.setTls fun tls => { tls with controlWrap := f tls.controlWrap }

/-- A value is kept when the endpoint accepts it; otherwise the note says why it was dropped. -/
def accept (r : Reading) (key value message : String) (f : Settings → Settings) : Reading :=
  if message = "" then r.set f else r.note ("Ignored " ++ key ++ " " ++ value ++ ": " ++ message)

/-- Bare seconds get their unit. -/
def duration (rules : Rules) (r : Reading) (key value : String) : String × Reading :=
  let unreadable := r.note ("Ignored an unreadable value: " ++ key ++ " " ++ value)
  match toLongLong value with
  | some seconds =>
    if 0 < seconds then (toString seconds ++ "s", r) else if seconds = 0 then ("", r) else ("", unreadable)
  | none => if rules.isValidDuration value then (value, r) else ("", unreadable)

def setDuration (rules : Rules) (r : Reading) (key value : String) (f : String → Settings → Settings) : Reading :=
  let (text, r) := r.duration rules key value
  r.set (f text)

def fingerprint (rules : Rules) (r : Reading) (line : String) : Reading :=
  if vpnfiFingerprint rules line ≠ "" then
    r.setTls fun tls => { tls with peerFingerprint := tls.peerFingerprint ++ [vpnfiFingerprint rules line] }
  else r.note ("Ignored an unreadable peer fingerprint: " ++ line)

/-- Unsupported offers are dropped from the list. -/
def dataCiphers (rules : Rules) (r : Reading) (key value : String) : List String × Reading :=
  let names := ((value.toList.splitOn ':').filter (fun name => name ≠ [])).map ofList
  names.foldl
    (fun (ciphers, r) name =>
      let upper := rules.toUpper (trimmed name)
      let upper := if upper.toList.head? = some '?' then ofList upper.toList.tail else upper
      if rules.cipherName upper = "" then (ciphers ++ [upper], r)
      else (ciphers, r.note ("Ignored " ++ key ++ " " ++ name ++ ": " ++ rules.cipherName upper)))
    ([], r)

end Reading

/-! ## Directives that set something

Each family gives nothing for a directive that is not one of its own. -/

section
variable (rules : Rules) (r : Reading) (key : String) (args : List String)

/-- Interface addresses, login and names. -/
def sessionKey : Option Reading :=
  let value := args.getD 1 ""
  if key = "ifconfig" ∧ 2 < args.length then
    some { r with ifconfigLocal := value, ifconfigSecond := args.getD 2 "" }
  else if key = "ifconfig-ipv6" ∧ 1 < args.length then
    let r :=
      if vpnfiNormalizePrefix rules value ≠ "" then r.set fun out => { out with address := out.address ++ [value] }
      else r.note ("Ignored an unreadable IPv6 interface address: " ++ value)
    some (if 2 < args.length then r.set fun out => { out with peerAddressIpv6 := args.getD 2 "" } else r)
  else if key = "topology" then some (r.set fun out => { out with topology := value })
  else if key = "auth-retry" then some (r.set fun out => { out with authRetry := value })
  else if key = "auth-user-pass" then
    some (if value ≠ "" ∧ value ≠ "[inline]" then
      r.note ("Credentials live in " ++ value ++ "; enter them in the profile editor.") else r)
  else if key = "client-cert-not-required" then some { r with clientCertSwitch := key }
  else if key = "setenv" then
    let setting := args.getD 2 ""
    some (if value = "CLIENT_CERT" ∧ setting = "0" then { r with clientCertSwitch := "setenv CLIENT_CERT 0" }
      else if value = "FRIENDLY_NAME" ∧ setting ≠ "" then { r with friendlyName := setting }
      else r)
  else if key = "static-challenge" then
    some (r.set fun out =>
      { out with
        staticChallenge := value
        staticChallengeEcho := if 2 < args.length then args.getD 2 "" == "1" else out.staticChallengeEcho })
  else none

/-- Keys and certificates by path. -/
def keyMaterialKey : Option Reading :=
  let value := args.getD 1 ""
  let path := value ≠ "" ∧ value ≠ "[inline]"
  if key = "key-direction" then some { r with keyDirection := keyDirectionOf value }
  else if key = "secret" then
    let r := r.set fun out =>
      { out with mode := "static_key", staticKeyPath := if path then value else out.staticKeyPath }
    some (if 2 < args.length then { r with keyDirection := keyDirectionOf (args.getD 2 "") } else r)
  else if key = "ca" ∨ key = "cert" ∨ key = "key" ∨ key = "crl-verify" then
    if ¬path then some r
    else if key = "ca" then some (r.setTls fun tls => { tls with certificatePath := value })
    else if key = "cert" then some (r.setTls fun tls => { tls with clientCertificatePath := value })
    else if key = "key" then some (r.setTls fun tls => { tls with clientKeyPath := value })
    else
      let r := r.setTls fun tls => { tls with crlPath := value }
      some (if 2 < args.length ∧ args.getD 2 "" = "dir" then
        r.note "A hash-directory CRL is not supported; point `crl-verify` at a PEM or DER file." else r)
  else if key = "tls-auth" ∨ key = "tls-crypt" ∨ key = "tls-crypt-v2" then
    let r := r.setWrap fun wrap =>
      { wrap with type := underscored key, keyPath := if path then value else wrap.keyPath }
    some (if key = "tls-auth" ∧ 2 < args.length then { r with keyDirection := keyDirectionOf (args.getD 2 "") } else r)
  else none

/-- How the server is verified and what TLS may use. -/
def tlsKey : Option Reading :=
  let value := args.getD 1 ""
  if key = "peer-fingerprint" ∨ key = "verify-hash" then some (r.fingerprint rules value)
  else if key = "remote-cert-tls" then some (r.setTls fun tls => { tls with remoteCertificateTls := value })
  else if key = "remote-cert-ku" then
    some (r.setTls fun tls => { tls with remoteCertificateKu := tls.remoteCertificateKu ++ args.tail })
  else if key = "remote-cert-eku" then some (r.setTls fun tls => { tls with remoteCertificateEku := value })
  else if key = "ns-cert-type" then some (r.setTls fun tls => { tls with nsCertificateType := value })
  else if key = "verify-x509-name" then
    some (r.setTls fun tls =>
      { tls with serverName := value, serverNameType := if 2 < args.length then args.getD 2 "" else "subject" })
  else if key = "tls-version-min" then some (r.setTls fun tls => { tls with versionMin := value })
  else if key = "tls-version-max" then some (r.setTls fun tls => { tls with versionMax := value })
  else if key = "tls-cipher" then
    let suites := rules.normalizeTlsCipher value
    some (r.accept key value (rules.tlsCipher suites) fun out => { out with tls := { out.tls with cipher := suites } })
  else if key = "tls-groups" then
    let groups := rules.toUpper (trimmed value)
    some (r.accept key value (rules.tlsGroups groups) fun out => { out with tls := { out.tls with groups := groups } })
  else if key = "tls-cert-profile" then some (r.setTls fun tls => { tls with certificateProfile := value })
  else none

/-- Ciphers, fragments and compression of the data channel. -/
def dataKey : Option Reading :=
  let value := args.getD 1 ""
  if key = "cipher" then some { r with legacyCipher := rules.toUpper (trimmed value) }
  else if key = "data-ciphers" ∨ key = "ncp-ciphers" then
    let (ciphers, r) := r.dataCiphers rules key value
    some (r.set fun out => { out with dataCiphers := ciphers })
  else if key = "data-ciphers-fallback" then
    let cipher := rules.toUpper (trimmed value)
    some (r.accept key value (rules.cipherName cipher) fun out => { out with dataCiphersFallback := cipher })
  else if key = "auth" then some (r.set fun out => { out with auth := rules.toUpper (trimmed value) })
  else if key = "mssfix" then
    some (if value = "" then r
      else if value = "0" then r.set fun out => { out with mssFixDisabled := true }
      else r.accept key value (intProblem value 0 65535) fun out =>
        { out with
          mssFix := toInt value
          mssFixMode :=
            if 2 < args.length ∧ (args.getD 2 "" = "mtu" ∨ args.getD 2 "" = "fixed") then args.getD 2 ""
            else out.mssFixMode })
  else if key = "fragment" then
    some (r.accept key value (fragmentProblem value) fun out => { out with fragment := toInt value })
  else if key = "replay-window" then
    let r := r.accept key value (intProblem value 0 65536) fun out => { out with replayWindow := toInt value }
    some (if 2 < args.length then
        let (window, r) := r.duration rules key (args.getD 2 "")
        r.accept key (args.getD 2 "") (rules.replayWindowTime window) fun out => { out with replayWindowTime := window }
      else r)
  else if key = "compress" then
    let mode := rules.toLower value
    some (r.set fun out =>
      if mode = "lzo" then { out with compressionLzo := "yes" }
      else if mode = "" then { out with compression := "stub" }
      else if mode = "migrate" then { out with compression := "none" }
      else { out with compression := mode })
  else if key = "comp-lzo" then
    some (r.set fun out => { out with compressionLzo := if value = "" then "adaptive" else rules.toLower value })
  else if key = "allow-compression" then some (r.set fun out => { out with allowCompression := rules.toLower value })
  else none

/-- A target, then a gateway and a metric. -/
def route : Reading :=
  let value := args.getD 1 ""
  if vpnfiRouteKeyword value then r.note ("Ignored a symbolic route target: route " ++ value)
  else
    let masked := 2 < args.length ∧ vpnfiRouteKeyword (args.getD 2 "") = false ∧
      vpnfiPrefix rules value (args.getD 2 "") ≠ ""
    let target :=
      if value.toList.contains '/' then vpnfiNormalizePrefix rules value
      else if masked then vpnfiPrefix rules value (args.getD 2 "")
      else vpnfiPrefix rules value "255.255.255.255"
    let next := if value.toList.contains '/' = false ∧ masked then 3 else 2
    if target = "" then r.note ("Ignored an unreadable route: " ++ " ".intercalate args.tail)
    else
      let r := r.set fun out => { out with routes := if target ∈ out.routes then out.routes else out.routes ++ [target] }
      let gateway := args.getD next ""
      let r :=
        if next < args.length ∧ vpnfiRouteKeyword gateway = false ∧ r.out.routeGateway = "" then
          r.accept "route" gateway (rules.ip gateway) fun out => { out with routeGateway := gateway }
        else r
      let metric := args.getD (next + 1) ""
      if next + 1 < args.length ∧ r.out.routeMetric = 0 then
        r.accept "route" metric (intProblem metric 0 int32Max) fun out => { out with routeMetric := toInt metric }
      else r

def redirectFlag (r : Reading) (arg : String) : Reading :=
  let flag := rules.toLower arg
  if flag ∈ ["block-local", "bypass-dhcp", "bypass-dns"] then
    r.note ("redirect-gateway flag has no sing-box equivalent: " ++ flag)
  else r.set fun out =>
    { out with
      redirectGatewayFlags :=
        if flag ∈ out.redirectGatewayFlags then out.redirectGatewayFlags else out.redirectGatewayFlags ++ [flag] }

def routeKey : Option Reading :=
  let value := args.getD 1 ""
  if key = "route-nopull" then some (r.set fun out => { out with routeNoPull := true })
  else if key = "pull-filter" ∧ 2 < args.length then
    some (r.set fun out => { out with pullFilters := out.pullFilters ++ [⟨value, args.getD 2 ""⟩] })
  else if key = "route" ∧ 1 < args.length then some (route rules r args)
  else if key = "route-ipv6" ∧ 1 < args.length then
    let target := vpnfiNormalizePrefix rules value
    some (if target ≠ "" then
        r.set fun out => { out with routes := if target ∈ out.routes then out.routes else out.routes ++ [target] }
      else r.note ("Ignored an unreadable route: " ++ " ".intercalate args.tail))
  else if key = "route-gateway" then
    some (if vpnfiRouteKeyword value then r
      else r.accept key value (rules.ipOrEmpty value) fun out => { out with routeGateway := value })
  else if key = "route-metric" then
    some (r.accept key value (intProblem value 0 int32Max) fun out => { out with routeMetric := toInt value })
  else if key = "redirect-gateway" ∨ key = "redirect-private" then
    let r := r.set fun out =>
      if key = "redirect-gateway" then { out with redirectGateway := true } else { out with redirectPrivate := true }
    some (args.tail.foldl (redirectFlag rules) r)
  else if key = "block-ipv6" then some (r.set fun out => { out with blockIpv6 := true })
  else none

/-- Timers and limits. -/
def timerKey : Option Reading :=
  let value := args.getD 1 ""
  if key = "keepalive" ∧ 2 < args.length then
    let r := r.setDuration rules key value fun text out => { out with pingInterval := text }
    some (r.setDuration rules key (args.getD 2 "") fun text out => { out with pingRestart := text })
  else if key = "ping" then some (r.setDuration rules key value fun text out => { out with pingInterval := text })
  else if key = "ping-restart" then
    some (if value = "0" then r.set fun out => { out with pingRestartDisabled := true }
      else r.setDuration rules key value fun text out => { out with pingRestart := text })
  else if key = "reneg-sec" then
    some (if value = "0" then r.set fun out => { out with renegotiateDisabled := true }
      else r.setDuration rules key value fun text out => { out with renegotiateInterval := text })
  else if key = "reneg-bytes" then
    some (r.accept key value (intProblem value 0 int64Max) fun out =>
      { out with renegotiateBytes := (toLongLong value).getD 0 })
  else if key = "reneg-pkts" then
    some (r.accept key value (intProblem value 0 int64Max) fun out =>
      { out with renegotiatePackets := (toLongLong value).getD 0 })
  else if key = "tls-timeout" then some (r.setDuration rules key value fun text out => { out with tlsTimeout := text })
  else if key = "hand-window" then
    some (r.setDuration rules key value fun text out => { out with handshakeWindow := text })
  else if key = "explicit-exit-notify" then
    some (if value = "" then r.set fun out => { out with explicitExitNotify := 1 }
      else r.accept key value (intProblem value 0 int32Max) fun out => { out with explicitExitNotify := toInt value })
  else if key = "tun-mtu" then
    some (r.accept key value (intProblem value 0 65535) fun out => { out with mtu := toInt value })
  else none

/-- No endpoint equivalent, or the endpoint already behaves this way. -/
def vpnfiOvpnIgnored : List String :=
  ["allow-recursive-routing", "auth-nocache", "auth-token", "auth-token-user", "bind", "block-outside-dns",
    "client", "connect-retry", "connect-retry-max", "connect-timeout", "daemon", "dco", "dev-node", "dh",
    "dhcp-option", "dhcp-release", "dhcp-renew", "disable-dco", "down", "down-pre", "echo", "errors-to-stderr",
    "fast-io", "float", "group", "hash-size", "ifconfig-noexec", "ifconfig-nowarn", "ipchange", "key-method",
    "log", "log-append", "lport", "machine-readable-output", "max-routes", "mode", "mssfix-default", "mtu-disc",
    "mtu-test", "multihome", "mute", "mute-replay-warnings", "ncp-disable", "nice", "nobind", "opt-verify",
    "passtos", "persist-key", "persist-local-ip", "persist-remote-ip", "persist-tun", "ping-timer-rem", "pull",
    "push-peer-info", "rcvbuf", "register-dns", "remap-usr1", "remote-random-hostname", "resolv-retry",
    "route-delay", "route-method", "route-pre-down", "route-up", "script-security", "server-poll-timeout",
    "service", "setenv-safe", "single-session", "sndbuf", "socket-flags", "status", "suppress-timestamps",
    "syslog", "tls-client", "tls-exit", "tls-verify", "topology-subnet", "tran-window", "tun-mtu-extra",
    "txqueuelen", "up", "up-delay", "up-restart", "user", "verb", "windows-driver", "writepid"]

/-- Recognised, but nothing in the endpoint carries them. -/
def vpnfiOvpnUnsupported : List String :=
  ["askpass", "capath", "cryptoapicert", "engine", "extra-certs", "http-proxy", "http-proxy-option",
    "inactive", "link-mtu", "management", "management-hold", "management-query-passwords", "no-replay",
    "ping-exit", "pkcs11-id", "pkcs11-providers", "providers", "socks-proxy", "tls-ciphersuites",
    "tls-crypt-v2-verify", "tls-export-cert", "x509-track", "x509-username-field"]

def vpnfiOvpnServerOnly : List String :=
  ["client-config-dir", "ifconfig-pool", "push", "server", "server-bridge", "tls-server"]

def restKey : Reading :=
  if key ∈ vpnfiOvpnIgnored then r
  else if key ∈ vpnfiOvpnUnsupported then r.note ("Not supported by the OpenVPN endpoint, ignored: " ++ key)
  else r.note ("Unknown OpenVPN directive, ignored: " ++ key)

def otherKey : Reading :=
  (sessionKey rules r key args <|> keyMaterialKey r key args <|> tlsKey rules r key args <|>
    dataKey rules r key args <|> routeKey rules r key args <|> timerKey rules r key args).getD (restKey r key)

def inlineBlock (tag : String) (body : List String) : Reading :=
  if tag = "ca" then r.setTls fun tls => { tls with certificate := body }
  else if tag = "cert" then r.setTls fun tls => { tls with clientCertificate := body }
  else if tag = "key" then r.setTls fun tls => { tls with clientKey := body }
  else if tag = "tls-auth" ∨ tag = "tls-crypt" ∨ tag = "tls-crypt-v2" then
    r.setWrap fun wrap => { wrap with type := underscored tag, key := body }
  else if tag = "secret" then r.set fun out => { out with mode := "static_key", staticKey := body }
  else if tag = "auth-user-pass" then
    r.set fun out =>
      { out with
        username := if body = [] then out.username else body.getD 0 ""
        password := if 1 < body.length then body.getD 1 "" else out.password }
  else if tag = "peer-fingerprint" then body.foldl (Reading.fingerprint rules) r
  else r.note ("Ignored inline block: <" ++ tag ++ ">")

end

/-! ## The loop -/

/-- The state of the loop over the directives. -/
structure Parsing where
  remotes : List Remote := []
  defaultPort : Int := 0
  fatal : String := ""
  reading : Reading := {}

namespace Parsing

def fail (p : Parsing) (message : String) : Parsing := { p with fatal := message }

def note (p : Parsing) (text : String) : Parsing := { p with reading := p.reading.note text }

def set (p : Parsing) (f : Settings → Settings) : Parsing := { p with reading := p.reading.set f }

def pkcs12Message : String := "PKCS#12 bundles are not supported; export the CA, certificate and key as PEM."

def block (rules : Rules) (p : Parsing) (tag : String) (body : List String) : Parsing :=
  if tag = "connection" then
    let connection := readConnection rules.toLower body
    if connection.remote.host = "" then p.note "<connection> block without a remote, skipped."
    else { p with remotes := p.remotes ++ [connection.server] }
  else if tag = "pkcs12" then p.fail pkcs12Message
  else { p with reading := inlineBlock rules p.reading tag body }

def directive (rules : Rules) (p : Parsing) (key : String) (args : List String) : Parsing :=
  let value := args.getD 1 ""
  if key ∈ vpnfiOvpnServerOnly then
    p.fail ("This is an OpenVPN server configuration (" ++ key ++ "), not a client profile.")
  else if key = "pkcs12" then p.fail pkcs12Message
  else if key = "dev" ∨ key = "dev-type" then
    if "tap".toList <+: value.toList then
      p.fail "TAP (layer 2) tunnels are not supported; only `dev tun` profiles can be imported."
    else p
  else if key = "mode" then
    if value = "server" then
      p.fail "This is an OpenVPN server configuration (mode server), not a client profile."
    else p
  else if key = "remote" then
    let remote := vpnfiParseRemote rules.toLower args
    if remote.host = "" then p else { p with remotes := p.remotes ++ [remote] }
  else if key = "proto" then
    if vpnfiNetwork rules.toLower value ≠ "" then
      p.set fun out => { out with network := vpnfiNetwork rules.toLower value }
    else if "-server".toList <:+ value.toList then p.fail ("`proto " ++ value ++ "` is a server transport.")
    else p.note ("Unknown transport: proto " ++ value)
  else if key = "port" ∨ key = "rport" then
    if portProblem value = "" then { p with defaultPort := toInt value }
    else p.note ("Ignored " ++ key ++ " " ++ value ++ ": " ++ portProblem value)
  else if key = "remote-random" then p.set fun out => { out with remoteRandom := true }
  else { p with reading := otherKey rules p.reading key args }

/-- A directive without parameters has no first one to look at. -/
def step (rules : Rules) (p : Parsing) (item : Directive) : Option Parsing :=
  if item.inlineTag ≠ "" then some (p.block rules item.inlineTag item.inlineBody)
  else
    match item.args with
    | [] => none
    | key :: _ => some (p.directive rules key item.args)

def run (rules : Rules) : List Directive → Parsing → Option Parsing
  | [], p => some p
  | item :: rest, p => if p.fatal ≠ "" then some p else (p.step rules item).bind (run rules rest)

end Parsing

/-! ## The end of the text -/

namespace Tls

def hasClientCert (tls : Tls) : Bool := tls.clientCertificate ≠ [] || tls.clientCertificatePath ≠ ""

def hasClientKey (tls : Tls) : Bool := tls.clientKey ≠ [] || tls.clientKeyPath ≠ ""

def clearClientCert (tls : Tls) : Tls :=
  { tls with clientCertificate := [], clientCertificatePath := "", clientKey := [], clientKeyPath := "" }

/-- Every inline value conflicts with its own path in the core. -/
def dropPaths (tls : Tls) : Tls :=
  { tls with
    certificatePath := if tls.certificate = [] then tls.certificatePath else ""
    clientCertificatePath := if tls.clientCertificate = [] then tls.clientCertificatePath else ""
    clientKeyPath := if tls.clientKey = [] then tls.clientKeyPath else ""
    controlWrap :=
      { tls.controlWrap with keyPath := if tls.controlWrap.key = [] then tls.controlWrap.keyPath else "" } }

end Tls

namespace Reading
variable (rules : Rules) (r : Reading)

/-- OpenVPN 3 logs in without a certificate behind a switch. -/
def switchClientCert : Reading :=
  if r.clientCertSwitch = "" then r
  else
    let dropped := r.out.tls.hasClientCert || r.out.tls.hasClientKey
    let r := r.setTls Tls.clearClientCert
    if dropped then
      r.note ("`" ++ r.clientCertSwitch ++
        "` turns the client certificate off; it was dropped and the server has to accept password login.")
    else r

def clientPairMessage : String :=
  if r.out.tls.hasClientCert then
    "`cert` without a `key`: add the private key, or `client-cert-not-required` for password-only login."
  else "`key` without a `cert`: add the client certificate."

/-- A server by itself brings its transport. -/
def takeNetwork (first : Remote) (others : List Remote) : Reading :=
  r.set fun out => { out with network := if others = [] ∧ first.network ≠ "" then first.network else out.network }

def takeName (first : Remote) : Reading :=
  r.set fun out =>
    let name := if r.friendlyName = "" then out.name else r.friendlyName
    { out with name := if name = "" then first.host else name }

/-- Only the topology `subnet` makes the second argument a netmask. -/
def takeIfconfig : Reading :=
  if r.ifconfigLocal = "" ∨ r.ifconfigSecond = "" then r
  else
    let masked := r.out.topology = "subnet" ∨ "255.".toList <+: r.ifconfigSecond.toList
    let r :=
      match rules.parseSubnet (r.ifconfigLocal ++ "/" ++ if masked then r.ifconfigSecond else "32") with
      | some (_, length) =>
        r.set fun out => { out with address := out.address ++ [r.ifconfigLocal ++ "/" ++ toString length] }
      | none => r.note ("Ignored an unreadable interface address: " ++ r.ifconfigLocal)
    if masked then r else r.set fun out => { out with peerAddress := r.ifconfigSecond }

/-- The direction binds to the control channel's wrap, or to the secret. -/
def takeKeyDirection : Reading :=
  if r.keyDirection = "" then r
  else if r.out.tls.controlWrap.type = "tls_auth" then r.setWrap fun wrap => { wrap with direction := r.keyDirection }
  else if r.out.mode = "static_key" then r.set fun out => { out with keyDirection := r.keyDirection }
  else r

/-- Outside static-key mode `cipher` is the data cipher before the negotiation. -/
def takeLegacyCipher : Reading :=
  if r.legacyCipher = "" then r
  else if r.out.mode = "static_key" then r.set fun out => { out with cipher := r.legacyCipher }
  else if r.out.dataCiphersFallback = "" then
    r.accept "cipher" r.legacyCipher (rules.cipherName r.legacyCipher) fun out =>
      { out with dataCiphersFallback := r.legacyCipher }
  else r

def preferEku : Reading :=
  if r.out.tls.remoteCertificateEku ≠ "" ∧ r.out.tls.remoteCertificateTls ≠ "" then
    (r.note "`remote-cert-eku` replaces `remote-cert-tls`; the latter was dropped.").setTls fun tls =>
      { tls with remoteCertificateTls := "" }
  else r

/-- A config that redirects the gateway is a full tunnel. -/
def fullTunnel : Reading :=
  r.set fun out =>
    { out with
      onlyAdvertisedRoutes := if out.redirectGateway && !out.routeNoPull then false else out.onlyAdvertisedRoutes }

def dropPaths : Reading :=
  r.set fun out =>
    { out with
      tls := out.tls.dropPaths
      staticKeyPath := if out.staticKey = [] then out.staticKeyPath else "" }

end Reading

/-! ## The whole text -/

/-- Whether it succeeds, the outbound as it is left, and what is reported. -/
structure Parsed where
  ok : Bool
  out : Outbound
  problems : List String

/-- A text that cannot be used leaves the server as it was. -/
def Reading.failed (r : Reading) (out : Outbound) (message : String) : Parsed :=
  ⟨false, { out with toSettings := r.out, servers := [] }, (r.note message).notes⟩

def kOvpnDefaultPort : Int := 1194

def Remote.withPort (remote : Remote) (defaultPort : Int) : Remote :=
  { remote with
    port := if remote.port = 0 then (if 0 < defaultPort then defaultPort else kOvpnDefaultPort) else remote.port }

/-- `server` with its port and `servers` conflict in the core. -/
def Settings.withServers (settings : Settings) (first : Remote) (others : List Remote) : Outbound :=
  if others = [] then { settings with server := first.host, serverPort := first.port, servers := [] }
  else { settings with server := "", serverPort := 0, servers := first :: others }

def Reading.settle (rules : Rules) (r : Reading) (first : Remote) (others : List Remote) : Reading :=
  (((((((r.takeNetwork first others).takeName first).takeIfconfig rules).takeKeyDirection).takeLegacyCipher
    rules).preferEku).fullTunnel).dropPaths

def Parsing.finish (rules : Rules) (out : Outbound) (p : Parsing) : Parsed :=
  if p.fatal ≠ "" then p.reading.failed out p.fatal
  else
    let r := p.reading.switchClientCert
    if r.out.tls.hasClientCert ≠ r.out.tls.hasClientKey then r.failed out r.clientPairMessage
    else
      match p.remotes.map (fun remote => remote.withPort p.defaultPort) with
      | [] => r.failed out "No `remote` server in the OpenVPN configuration."
      | first :: others =>
        let r := r.settle rules first others
        ⟨true, r.out.withServers first others, r.notes⟩

/-- The lists are emptied before anything is read. -/
def Settings.cleared (settings : Settings) : Settings :=
  { settings with
    address := []
    routes := []
    dataCiphers := []
    pullFilters := []
    redirectGatewayFlags := []
    tls := { settings.tls with peerFingerprint := [], remoteCertificateKu := [] } }

/-- The name OpenVPN Connect keeps in a comment. -/
def friendlyNameOf (body : List Char) : String :=
  (splitLines body).foldl
    (fun name line =>
      match Scan.trimmed line with
      | '#' :: comment =>
        let comment := Scan.trimmed comment
        let mark := "OVPN_FRIENDLY_PROFILE_NAME=".toList
        if mark <+: comment then ofList (Scan.trimmed (comment.drop mark.length)) else name
      | _ => name)
    ""

/-- Nothing comes back where the code reads the first parameter of a directive that has none. -/
def ParseOvpnConfig (rules : Rules) (body : String) (out : Outbound) : Option Parsed :=
  match vpnfiReadOvpnDirectives body.toList with
  | [] => some ⟨false, out, ["Empty OpenVPN configuration."]⟩
  | directives =>
    (Parsing.run rules directives
      { reading := { out := out.toSettings.cleared, friendlyName := friendlyNameOf body.toList } }).map
      (Parsing.finish rules out)

end Waterdisco.Ovpn
