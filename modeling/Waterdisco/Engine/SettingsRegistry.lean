import Waterdisco.Lib.Holders
import Waterdisco.Scan.IpListParse

/-!
# The settings the remote API writes

`SettingsRegistry::Put` checks the entries of a JSON object against a table of keys,
gathers the member writes in a patch, checks ports and exposure over the pending values,
and only then writes.  A setting is a member of `SettingsRepo`; the settings are a
function of the member, as `settings.*member` reads them.  The checks of texts
(addresses, hosts, durations) are parameters.
-/

namespace Waterdisco.SettingsRegistry

open String

/-! ## Settings -/

inductive BoolMember where
  | remember_enable
  | disable_mixed_inbound
  | random_inbound_port
  | sub_respect_server_interval
  | kill_switch
  | vpn_strict_route
  | vpn_auto_redirect
  | vpn_ipv6
  | core_dns_in_lan
  | enable_ntp
  | prepare_exit
  | noSave
deriving DecidableEq

inductive IntMember where
  | inbound_socks_port
  | test_concurrent
  | url_test_timeout_ms
  | sub_auto_update
  | route_auto_update
  | vpn_mtu
  | core_dns_in_port
  | core_box_clash_api
  | core_box_api_port
deriving DecidableEq

inductive StringMember where
  | log_level
  | xray_log_level
  | inbound_address
  | test_latency_url
  | vpn_tun_ipv4_cidr
  | vpn_tun_ipv6_cidr
  | core_box_clash_listen_addr
  | core_box_clash_api_secret
  | remote_dns
  | direct_dns
  | ntp_server_address
  | ntp_interval
deriving DecidableEq

inductive Member where
  | bool (m : BoolMember)
  | int (m : IntMember)
  | string (m : StringMember)
deriving DecidableEq

abbrev Member.type : Member → Type
  | .bool _ => Bool
  | .int _ => Int
  | .string _ => String

instance (m : Member) : DecidableEq m.type :=
  match m with
  | .bool _ => inferInstanceAs (DecidableEq Bool)
  | .int _ => inferInstanceAs (DecidableEq Int)
  | .string _ => inferInstanceAs (DecidableEq String)

/-- The settings that the registry reads. -/
abbrev Settings := (m : Member) → m.type

/-! ## Patches -/

structure Write where
  key : String
  member : Member
  value : member.type

def lookup : List Write → (m : Member) → Option m.type
  | [], _ => none
  | w :: writes, m => if h : w.member = m then some (h ▸ w.value) else lookup writes m

/-- The member writes of one call, each under the key that made it. -/
structure Patch where
  settings : Settings
  writes : List Write := []
  keys : List String := []

namespace Patch

def set (p : Patch) (key : String) (m : Member) (value : m.type) : Patch :=
  { p with
    writes := p.writes.filter (fun w => decide (w.member ≠ m)) ++ [⟨key, m, value⟩]
    keys := if key ∈ p.keys then p.keys else p.keys ++ [key] }

def value (p : Patch) (m : Member) : m.type := (lookup p.writes m).getD (p.settings m)

def changes (p : Patch) (m : Member) : Bool := decide (p.value m ≠ p.settings m)

def touches (p : Patch) (key : String) : Bool := decide (key ∈ p.keys)

/-- The settings with the members that differ written, and the keys of these in the order they were set. -/
def commit (p : Patch) (settings : Settings) : Settings × List String :=
  let written := p.writes.foldl (fun (s : Settings × List String) w =>
    if s.1 w.member = w.value then s else (Function.update s.1 w.member w.value, w.key :: s.2)) (settings, [])
  (written.1, p.keys.filter fun key => decide (key ∈ written.2))

end Patch

/-! ## Keys -/

inductive Restart where
  | None
  | Profile
  | Tun
deriving DecidableEq

structure Effects where
  applyKillSwitch : Bool := false
  checkPeriodic : Bool := false

/-- `check` and `set` are called for a value that differs from `get`. -/
structure Key where
  name : String
  restart : Restart := .None
  effects : Effects := {}
  get : Settings → Json
  check : Json → Option String
  set : Json → Patch → Patch

def wholeNumber : Json → Option Int
  | .num n => if n.natAbs ≤ 2 ^ 53 then some n else none
  | _ => none

def integerProblem (name : String) (value : Json) (min max : Int) : Option String :=
  match wholeNumber value with
  | none => some ("\"" ++ name ++ "\" must be an integer")
  | some number =>
    if number < min ∨ max < number then
      some ("\"" ++ name ++ "\" must be from " ++ toString min ++ " to " ++ toString max)
    else none

/-- The number of a value that passed its check. -/
def toInt (value : Json) : Int := (wholeNumber value).getD 0

def boolKey (name : String) (m : BoolMember) (restart : Restart) (effects : Effects) (inverted : Bool) : Key where
  name := name
  restart := restart
  effects := effects
  get settings := .bool (if inverted then !settings (.bool m) else settings (.bool m))
  check value :=
    match value with
    | .bool _ => none
    | _ => some ("\"" ++ name ++ "\" must be true or false")
  set value patch := patch.set name (.bool m) (if inverted then !value.toBool else value.toBool)

def intKey (name : String) (m : IntMember) (min max : Int) (restart : Restart) (effects : Effects) : Key where
  name := name
  restart := restart
  effects := effects
  get settings := .num (settings (.int m))
  check value := integerProblem name value min max
  set value patch := patch.set name (.int m) (toInt value)

def trimmed (text : String) : String := ofList (Scan.trimmed text.toList)

/-- The rule completes the name of the key; stored trimmed, as the dialogs store them. -/
def stringKey (name : String) (m : StringMember) (restart : Restart) (effects : Effects)
    (valid : String → Bool) (rule : String) : Key where
  name := name
  restart := restart
  effects := effects
  get settings := .str (settings (.string m))
  check value :=
    match value with
    | .str text => if valid (trimmed text) then none else some ("\"" ++ name ++ "\" " ++ rule)
    | _ => some ("\"" ++ name ++ "\" must be a string")
  set value patch := patch.set name (.string m) (trimmed value.toStr)

def enumKey (name : String) (m : StringMember) (restart : Restart) (allowed : List String) : Key :=
  stringKey name m restart {} (fun text => decide (text ∈ allowed)) ("must be one of: " ++ intercalate ", " allowed)

def kMinAutoUpdate : Int := 30
def kMaxAutoUpdate : Int := 525600

/-- Stored negative is off and keeps the minutes; a magnitude below 30 counts as off. -/
def autoUpdateOff (stored fallbackMinutes : Int) : Int :=
  if kMinAutoUpdate ≤ stored then -stored
  else if stored ≤ -kMinAutoUpdate then stored
  else -fallbackMinutes

def autoUpdateKey (name : String) (m : IntMember) (fallbackMinutes : Int) : Key where
  name := name
  effects := { checkPeriodic := true }
  get settings := .num (if kMinAutoUpdate ≤ settings (.int m) then settings (.int m) else 0)
  check value :=
    match wholeNumber value with
    | none => some ("\"" ++ name ++ "\" must be an integer")
    | some minutes =>
      if minutes ≠ 0 ∧ (minutes < kMinAutoUpdate ∨ kMaxAutoUpdate < minutes) then
        some ("\"" ++ name ++ "\" must be 0 (off) or from " ++ toString kMinAutoUpdate ++ " to " ++
          toString kMaxAutoUpdate ++ " minutes")
      else none
  set value patch :=
    patch.set name (.int m) (if toInt value ≠ 0 then toInt value else autoUpdateOff (patch.value (.int m)) fallbackMinutes)

/-- Stored at most 0 is off; turning it off stores the port negated, to keep it for later. -/
def portOrOffKey (name : String) (m : IntMember) (restart : Restart) : Key where
  name := name
  restart := restart
  get settings := .num (if 0 < settings (.int m) then settings (.int m) else 0)
  check value :=
    match wholeNumber value with
    | none => some ("\"" ++ name ++ "\" must be an integer")
    | some port => if port < 0 ∨ 65535 < port then some ("\"" ++ name ++
        "\" must be 0 (off) or from 1 to 65535") else none
  set value patch :=
    let stored : Int := patch.value (.int m)
    patch.set name (.int m) (if toInt value ≠ 0 then toInt value else if 0 < stored then -stored else stored)

/-- A random port is picked anew at every launch, which would discard the one that is set. -/
def inboundPortKey : Key :=
  let port := intKey "inbound_port" .inbound_socks_port 1 65535 .Profile {}
  { port with set := fun value patch => (port.set value patch).set "inbound_port" (.bool .random_inbound_port) false }

/-- The platform, the checks of texts and the listener of the Throne API. -/
structure Env where
  linux : Bool
  ip : String → Bool
  url : String → Bool
  cidrV4 : String → Bool
  cidrV6 : String → Bool
  host : String → Bool
  dnsAddress : String → Bool
  duration : String → Bool
  isLoopback : String → Bool
  apiEnabled : Bool
  apiPort : Int

def dnsRule : String :=
  "must be a DNS address: local, dhcp://auto, dhcp://<interface>, udp|tcp|tls|quic://host[:port], https|h3://host[:port][/path] or host[:port]"

def keys (env : Env) : List Key :=
  [boolKey "remember_enable" .remember_enable .None {} false,
    enumKey "log_level" .log_level .Profile ["trace", "debug", "info", "warn", "error", "fatal", "panic"],
    enumKey "xray_log_level" .xray_log_level .Profile ["debug", "info", "warning", "error", "none"],
    boolKey "inbound_enabled" .disable_mixed_inbound .Profile {} true,
    stringKey "inbound_address" .inbound_address .Profile {} env.ip "must be an IPv4 or IPv6 address, such as 127.0.0.1 or ::",
    inboundPortKey,
    stringKey "test_url" .test_latency_url .None {} env.url "must be an http:// or https:// URL with a host",
    intKey "test_concurrency" .test_concurrent 1 499 .None {},
    intKey "test_timeout_ms" .url_test_timeout_ms 0 60000 .None {},
    autoUpdateKey "sub_auto_update" .sub_auto_update 30,
    boolKey "sub_respect_server_interval" .sub_respect_server_interval .None { checkPeriodic := true } false,
    autoUpdateKey "route_auto_update" .route_auto_update 1440,
    boolKey "kill_switch" .kill_switch .None { applyKillSwitch := true } false,
    boolKey "tun_strict_route" .vpn_strict_route .Tun { applyKillSwitch := true } false] ++
  (if env.linux then [boolKey "tun_auto_redirect" .vpn_auto_redirect .Tun { applyKillSwitch := true } false] else []) ++
  [intKey "tun_mtu" .vpn_mtu 1000 10000 .Tun { applyKillSwitch := true },
    boolKey "tun_ipv6" .vpn_ipv6 .Tun { applyKillSwitch := true } false,
    stringKey "tun_ipv4_cidr" .vpn_tun_ipv4_cidr .Tun { applyKillSwitch := true } env.cidrV4
      "must be an IPv4 address with a prefix length, such as 172.19.0.1/24",
    stringKey "tun_ipv6_cidr" .vpn_tun_ipv6_cidr .Tun { applyKillSwitch := true } env.cidrV6
      "must be an IPv6 address with a prefix length, such as fdfe:dcba:9876::1/96",
    intKey "dns_in_port" .core_dns_in_port 1 65535 .Profile {},
    boolKey "dns_in_lan" .core_dns_in_lan .Profile {} false,
    portOrOffKey "clash_api_port" .core_box_clash_api .Profile,
    stringKey "clash_listen_addr" .core_box_clash_listen_addr .Profile {} env.host
      "must be empty (127.0.0.1) or a host name or IP address, without a scheme, port or spaces",
    portOrOffKey "singbox_api_port" .core_box_api_port .Profile,
    stringKey "remote_dns" .remote_dns .Profile {} env.dnsAddress dnsRule,
    stringKey "direct_dns" .direct_dns .Profile {} env.dnsAddress dnsRule,
    boolKey "ntp_enabled" .enable_ntp .Profile {} false,
    stringKey "ntp_server" .ntp_server_address .Profile {} env.host
      "must be empty or a host name or IP address, without a scheme, port or spaces",
    stringKey "ntp_interval" .ntp_interval .Profile {} env.duration "must be a duration such as 30m or 1h (units ns, us, ms, s, m, h, d)"]

def findKey (env : Env) (name : String) : Option Key := (keys env).find? fun key => key.name == name

/-! ## Ports and exposure -/

structure PortUser where
  key : String
  member : IntMember
  label : String

def users : List PortUser :=
  [⟨"inbound_port", .inbound_socks_port, "the mixed inbound (inbound_port)"⟩,
    ⟨"dns_in_port", .core_dns_in_port, "the core's DNS server (dns_in_port)"⟩,
    ⟨"clash_api_port", .core_box_clash_api, "the Clash API (clash_api_port)"⟩,
    ⟨"singbox_api_port", .core_box_api_port, "the sing-box API (singbox_api_port)"⟩]

/-- The mixed inbound listens on a fixed port. -/
def mixedOn (s : Settings) : Bool := !s (.bool .disable_mixed_inbound) && !s (.bool .random_inbound_port)

def inUse (s : Settings) (user : PortUser) : Bool :=
  decide ((0 : Int) < s (.int user.member)) && (decide (user.member ≠ .inbound_socks_port) || mixedOn s)

/-- While the mixed inbound was off, other ports could take its stored port unchecked. -/
def reenabled (p : Patch) (user : PortUser) : Bool :=
  decide (user.member = .inbound_socks_port) && mixedOn p.value &&
    (p.changes (.bool .disable_mixed_inbound) || p.changes (.bool .random_inbound_port)) && !p.changes (.int user.member)

/-- What else holds the port of a user. -/
def holder (env : Env) (s : Settings) (user : PortUser) : Option String :=
  let port : Int := s (.int user.member)
  match users.find? fun other => decide (other.member ≠ user.member) && inUse s other &&
    decide ((s (.int other.member) : Int) = port) with
  | some other => some other.label
  | none => if env.apiEnabled && decide (port = env.apiPort) then some "the Throne API" else none

/-- The port rule, for each port that the call changes or brings back into use. -/
def portConflict (env : Env) (p : Patch) : Option String :=
  users.findSome? fun user =>
    if !p.changes (.int user.member) && !reenabled p user then none
    else
      let port : Int := p.value (.int user.member)
      if port ≤ 0 then none
      else
        (holder env p.value user).map fun other =>
          if reenabled p user then
            "\"inbound_enabled\" would turn the mixed inbound on at port " ++ toString port ++ ", which " ++ other ++
              " already uses; choose a different inbound_port"
          else
            "\"" ++ user.key ++ "\" " ++ toString port ++ " is already used by " ++ other ++ "; choose a different port"

/-- An address without its brackets. -/
def bareHost (host : String) : String :=
  if host.startsWith "[" && host.endsWith "]" then ofList (host.toList.tail.dropLast) else host

def staysLocal (env : Env) (address : String) : Bool :=
  let host := bareHost address
  host.isEmpty || sameName host "localhost" || env.isLoopback host

/-- The secret is set only in the GUI, so the API never opens the Clash API to other hosts without one. -/
def clashExposure (env : Env) (p : Patch) (settings : Settings) : Option String :=
  let address : String := p.value (.string .core_box_clash_listen_addr)
  let port : Int := p.value (.int .core_box_clash_api)
  let stored : Int := settings (.int .core_box_clash_api)
  let secret : String := settings (.string .core_box_clash_api_secret)
  if !p.touches "clash_api_port" && !p.touches "clash_listen_addr" then none
  else if port ≤ 0 ∨ secret ≠ "" then none
  -- already on at this address: moving its port opens nothing new
  else if 0 < stored ∧ p.changes (.string .core_box_clash_listen_addr) = false then none
  else if staysLocal env address then none
  else
    some ("\"clash_listen_addr\" " ++ bareHost address ++
      " would open the Clash API to other hosts without a secret; keep it on 127.0.0.1, " ++
      "or set the Clash API secret in Throne's settings first")

/-! ## Calls -/

structure ServiceError where
  status : Nat
  code : String
  message : String

structure Context where
  profileRunning : Bool := false
  tunOn : Bool := false
  systemProxyOn : Bool := false

/-- The object of a call; `editing` says that the settings window is open. -/
structure Call where
  patch : Members Json
  distinct : (keysOf patch).Nodup
  context : Context := {}
  editing : Bool := false

/-- What a call leaves and reports, and what it applies. -/
structure Result where
  settings : Settings
  error : Option ServiceError := none
  changed : List String := []
  restartNeeded : Bool := false
  saved : Bool := false
  effects : Effects := {}

/-- Equality of values of the kinds that `get` returns. -/
def sameValue : Json → Json → Bool
  | .bool a, .bool b => a == b
  | .num a, .num b => a == b
  | .str a, .str b => a == b
  | _, _ => false

def badRequest (message : String) : ServiceError := ⟨400, "bad_request", message⟩

def collect (env : Env) (settings : Settings) : Members Json → Patch → Except ServiceError Patch
  | [], pending => .ok pending
  | (name, value) :: entries, pending =>
    match findKey env name with
    | none => .error (badRequest ("Unknown setting \"" ++ name ++ "\""))
    | some key =>
      -- `Values` returns stored values even when they are invalid, so one sent back unchanged passes
      if value.isNull || sameValue value (key.get settings) then collect env settings entries pending
      else
        match key.check value with
        | some problem => .error (badRequest problem)
        | none => collect env settings entries (key.set value pending)

/-- The core refuses an empty NTP interval. -/
def fillNtpInterval (pending : Patch) : Patch :=
  let on : Bool := pending.value (.bool .enable_ntp)
  let interval : String := pending.value (.string .ntp_interval)
  if (pending.touches "ntp_enabled" || pending.touches "ntp_interval") && on && interval.isEmpty then
    pending.set "ntp_interval" (.string .ntp_interval) "30m"
  else pending

def Values (env : Env) (settings : Settings) : Members Json :=
  (keys env).foldl (fun values key => insertKey values key.name (key.get settings)) []

def Put (env : Env) (settings : Settings) (call : Call) : Result :=
  let refused := fun error => { settings := settings, error := some error : Result }
  if settings (.bool .prepare_exit) || settings (.bool .noSave) then refused ⟨503, "exiting", "Throne is shutting down"⟩
  else if call.editing then refused ⟨409, "editing", "Throne's settings window is open; close it and try again"⟩
  else
    match collect env settings call.patch { settings := settings } with
    | .error error => refused error
    | .ok pending =>
      match portConflict env pending with
      | some problem => refused (badRequest problem)
      | none =>
        match clashExposure env pending settings with
        | some problem => refused (badRequest problem)
        | none =>
          if call.context.systemProxyOn && pending.changes (.bool .disable_mixed_inbound) &&
            pending.value (.bool .disable_mixed_inbound) then
            refused ⟨409, "mixed_inbound_disabled",
              "The system proxy needs Throne's mixed inbound; turn the system proxy off first"⟩
          else
            let committed := (fillNtpInterval pending).commit settings
            if committed.2.isEmpty then { settings := committed.1 }
            else
              let changed := committed.2.mergeSort fun a b => !decide (utf16 b < utf16 a)
              let changedKeys := changed.filterMap (findKey env)
              { settings := committed.1
                changed := changed
                restartNeeded := changedKeys.any fun key =>
                  (key.restart == .Profile && call.context.profileRunning) ||
                    (key.restart == .Tun && call.context.profileRunning && call.context.tunOn)
                saved := true
                effects := ⟨changedKeys.any (·.effects.applyKillSwitch), changedKeys.any (·.effects.checkPeriodic)⟩ }

end Waterdisco.SettingsRegistry
