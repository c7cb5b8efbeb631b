import Waterdisco.Lib.Editing

/-!
# Custom profiles from a foreign text

A custom profile is a text that goes to the core as it is (`Custom` in custom.cpp).  One
that comes from a subscription is stripped first of what would start a program, open a
port or write a file (`StripForeignState`).  The core matches object keys without regard
to case, so every step walks over all spellings of a name.
-/

namespace Waterdisco.Custom

/-! ## Issues -/

inductive Severity where
  | error
  | warning
deriving DecidableEq

structure Issue where
  severity : Severity := .error
  field : String
  message : String
  value : String

/-! ## Reading objects -/

def textAt (o : Members Json) (key : String) : String := ((valueAt o key).map Json.toStr).getD ""

/-- The first spelling in the order of the keys. -/
def customValueNamed (o : Members Json) (name : String) : Json :=
  match keysNamed o name with
  | [] => .null
  | key :: _ => (valueAt o key).getD .null

def isBlank : Json → Bool
  | .null => true
  | .str s => s == ""
  | .arr items => items.isEmpty
  | .obj members => members.isEmpty
  | _ => false

/-- Some spelling of a name has a value that passes a test. -/
def someNamed (o : Members Json) (name : String) (test : Json → Bool) : Bool :=
  (keysNamed o name).any fun key => test ((valueAt o key).getD .null)

/-! ## Loops over the spellings -/

def stripThat (o : Members Json) (name at' message : String) (test : Json → Bool) (shown : Json → String) :
    Edited Json Issue :=
  forNamed o name fun key value =>
    if test value then (.drop, [{ severity := .warning, field := at' ++ key, message := message, value := shown value }])
    else (.keep, [])

def stripNamed (o : Members Json) (name at' message : String) (showValue : Bool) : Edited Json Issue :=
  stripThat o name at' message (fun value => !isBlank value) (fun value => if showValue then value.toStr else "")

/-- The loop over the objects of a name, with the key handed to the edit. -/
def editInner (o : Members Json) (name : String)
    (edit : Members Json → String → Edited Json Issue) : Edited Json Issue :=
  forNamed o name fun key value =>
    let inner := edit value.toObject key
    if inner.changed then (.put (.obj inner.members), inner.issues) else (.keep, inner.issues)

def editObjectNamed (o : Members Json) (name at' : String) (edit : Members Json → String → Edited Json Issue) :
    Edited Json Issue :=
  editInner o name fun inner key => edit inner (at' ++ key ++ ".")

/-- The items of a list from the given index on; an item that is no object is edited as an empty one. -/
def editItems (edit : Members Json → String → Edited Json Issue) (label : String) :
    Nat → List Json → List Json × Bool × List Issue
  | _, [] => ([], false, [])
  | i, x :: items =>
    let item := edit x.toObject (label ++ "[" ++ toString i ++ "].")
    let rest := editItems edit label (i + 1) items
    ((if item.changed then .obj item.members else x) :: rest.1, item.changed || rest.2.1, item.issues ++ rest.2.2)

def editListNamed (o : Members Json) (name at' : String) (edit : Members Json → String → Edited Json Issue) :
    Edited Json Issue :=
  forNamed o name fun key value =>
    let list := editItems edit (at' ++ key) 0 value.toArray
    if list.2.1 then (.put (.arr list.1), list.2.2) else (.keep, list.2.2)

/-! ## Messages -/

def opensPortMessage : String :=
  "Removed from the imported configuration: it would open a port on this computer that other devices could reach."

def writesFileMessage : String :=
  "Removed from the imported configuration: it would write a file on this computer at a path the sender chose."

def xrayReverseMessage : String :=
  "Removed the reverse proxy from the imported configuration: it would let the server reach this computer and its network."

def xrayInboundsMessage : String :=
  "Removed the inbounds from the imported configuration: Throne adds its own local inbound, and these " ++
    "could let other devices connect through this computer."

def environmentMessage : String :=
  "Removed the environment variables from the imported configuration: they would apply to Throne's " ++
    "core and to the programs it starts."

def geodataMessage : String :=
  "Removed the geodata updater from the imported configuration: it would download files from addresses " ++
    "the sender chose and replace files in Throne's folder."

def webhookMessage : String :=
  "Removed the webhook from this routing rule: it would send the details of every matching connection " ++
    "to an address the sender chose."

def torNameMessage : String :=
  "Removed a Tor option with an invalid name from the imported configuration: option names use only " ++
    "letters, digits and underscores, like UseBridges."

def torPathMessage : String :=
  "Removed the Tor executable path from the imported configuration; add it back only if you trust that program."

def torArgsMessage : String :=
  "Removed the Tor command-line arguments from the imported configuration: they can make Tor start other programs."

def torFolderMessage : String :=
  "Removed the Tor data directory from the imported configuration: Tor reads its torrc file from " ++
    "there, which can make it start other programs."

def sshServerMessage : String :=
  "Removed the Tailscale SSH server from the imported configuration: it would let devices on that " ++
    "tailnet open a shell on this computer."

def taildropMessage : String :=
  "Removed the Taildrop folder from the imported configuration: devices on that tailnet could place " ++
    "files there. Received files now go to the default folder."

def foreignInboundMessage : String :=
  "Removed this inbound from the imported configuration: it could let other devices connect through " ++
    "this computer. Only tun inbounds and local proxies that listen on 127.0.0.1 or ::1 are kept."

def clashApiMessage : String :=
  "Removed the Clash API from the imported configuration: web pages and programs on this computer " ++
    "could use it to control the core, and its external_ui setting downloads files."

def v2rayApiMessage : String :=
  "Removed the V2Ray API from the imported configuration: Throne's core is built without it and would " ++
    "not start, and it would open a statistics port on this computer."

def torPluginMessage (key : String) : String :=
  "Removed the Tor option " ++ key ++ " from the imported configuration: it makes Tor start a program on this computer."

def wrapperMessage (wrapper : String) : String :=
  "Removed the " ++ wrapper.toUpper ++
    " wrapper path from the imported configuration; add it back only if you trust that program."

/-! ## Xray -/

/-- A path of a file Xray would write; it reads `none` as no file. -/
def namesFile (value : Json) : Bool := !isBlank value && value.toStr != "none"

def stripXrayFilePath (o : Members Json) (name at' : String) : Edited Json Issue :=
  stripThat o name at' writesFileMessage namesFile Json.toStr

/-- The recursion goes down one download leg at a time, so the depth of the stream is enough fuel. -/
def stripXrayKeyLogUpTo : Nat → Members Json → String → Edited Json Issue
  | 0, stream, _ => { members := stream }
  | fuel + 1, stream, at' =>
    let stripDownload := fun o oAt => editObjectNamed o "downloadSettings" oAt (stripXrayKeyLogUpTo fuel)
    let stripSecurity := fun name o =>
      editObjectNamed o name at' fun security securityAt => stripXrayFilePath security "masterKeyLog" securityAt
    let stripTransport := fun name o =>
      editObjectNamed o name at' fun xhttp xhttpAt =>
        inTurn [fun o => stripDownload o xhttpAt, fun o => editObjectNamed o "extra" xhttpAt stripDownload] xhttp
    inTurn [stripSecurity "tlsSettings", stripSecurity "realitySettings", stripTransport "xhttpSettings",
      stripTransport "splithttpSettings"] stream

def stripXrayKeyLog (stream : Members Json) (at' : String) : Edited Json Issue :=
  stripXrayKeyLogUpTo (depthMembers stream) stream at'

def stripXrayOutbound (outbound : Members Json) (at' : String) : Edited Json Issue :=
  inTurn
    [fun o => editObjectNamed o "settings" at' fun settings settingsAt =>
      stripNamed settings "reverse" settingsAt xrayReverseMessage false,
     fun o => editObjectNamed o "streamSettings" at' stripXrayKeyLog] outbound

def stripXrayExposure (root : Members Json) : Edited Json Issue :=
  inTurn
    [fun o => stripNamed o "inbounds" "" xrayInboundsMessage false,
     fun o => stripNamed o "api" "" opensPortMessage false,
     fun o => stripNamed o "metrics" "" opensPortMessage false,
     fun o => stripNamed o "reverse" "" xrayReverseMessage false,
     fun o => stripNamed o "env" "" environmentMessage false,
     fun o => stripNamed o "geodata" "" geodataMessage false,
     fun o => editObjectNamed o "routing" "" fun routing at' =>
      editListNamed routing "rules" at' fun rule ruleAt =>
        stripNamed rule "webhook" ruleAt webhookMessage false,
     fun o => editObjectNamed o "log" "" fun log at' =>
      inTurn [fun o => stripXrayFilePath o "access" at', fun o => stripXrayFilePath o "error" at'] log,
     fun o => editListNamed o "outbounds" "" stripXrayOutbound] root

/-! ## sing-box: programs and shells -/

/-- torrc keys reach Tor's SETCONF unescaped. -/
def isTorOptionName (key : String) : Bool :=
  key != "" && key.toList.all fun c => c.isUpper || c.isLower || c.isDigit || c == '_'

/-- Tor also takes abbreviated option names. -/
def isTorPluginOption (key : String) : Bool :=
  decide (4 ≤ key.length) &&
    ((foldName key).isPrefixOf (foldName "ClientTransportPlugin") ||
     (foldName key).isPrefixOf (foldName "ServerTransportPlugin"))

def stripTorrc (torrc : Members Json) (at' torrcKey : String) : Edited Json Issue :=
  forKeys torrc fun key value =>
    if !isTorOptionName key then
      (.drop, [{ severity := .warning, field := at' ++ torrcKey, message := torNameMessage, value := key }])
    else if isTorPluginOption key then
      (.drop, [{ severity := .warning, field := at' ++ torrcKey ++ "." ++ key, message := torPluginMessage key, value := value.toStr }])
    else (.keep, [])

/-- The SSH server is on: as a flag, or through any spelling of `enabled`. -/
def sshEnabled (ssh : Json) : Bool := ssh.toBool || someNamed ssh.toObject "enabled" Json.toBool

/-- Removes what would make the core start a program or let tailnet peers reach this computer. -/
def stripLaunchers (o : Members Json) (at' : String) : Edited Json Issue :=
  let stripWrapper := fun (wrapper : String) o =>
    editObjectNamed o wrapper at' fun wrapped wrapperAt =>
      stripNamed wrapped "wrapper_path" wrapperAt (wrapperMessage wrapper) true
  if textAt o "type" == "tor" then
    inTurn
      [fun o => stripNamed o "executable_path" at' torPathMessage true,
       fun o => stripNamed o "extra_args" at' torArgsMessage false,
       fun o => stripNamed o "data_directory" at' torFolderMessage true,
       fun o => editInner o "torrc" fun torrc torrcKey => stripTorrc torrc at' torrcKey] o
  else if textAt o "type" == "openconnect" then
    inTurn [stripWrapper "csd", stripWrapper "hip", stripWrapper "tncc"] o
  else if textAt o "type" == "tailscale" then
    inTurn
      [fun o => stripThat o "ssh_server" at' sshServerMessage sshEnabled (fun _ => ""),
       fun o => stripNamed o "taildrop_directory" at' taildropMessage true] o
  else { members := o }

/-! ## sing-box: ports and files -/

def localTypes : List String := ["mixed", "socks", "http", "direct", "redirect", "tproxy"]

/-- Every spelling must agree: the core may read any of them. -/
def isLocalSingBoxInbound (isLoopback : String → Bool) (inbound : Members Json) : Bool :=
  let types := (keysNamed inbound "type").map (textAt inbound)
  if types.isEmpty then false
  else if types.all (· == "tun") then true
  else if !types.all (fun t => localTypes.contains t) then false
  -- TLS can carry ACME, which answers challenges on public ports
  else if someNamed inbound "tls" (fun tls => !isBlank tls) then false
  -- the core listens on 127.0.0.1 when no address is given
  else if someNamed inbound "listen" (fun listen => !isBlank listen && !isLoopback listen.toStr) then false
  else true

/-- The inbounds that are not local, with their index in the list. -/
def foreignInbounds (isLoopback : String → Bool) (key : String) : Nat → List Json → List Issue
  | _, [] => []
  | i, x :: items =>
    let rest := foreignInbounds isLoopback key (i + 1) items
    if isLocalSingBoxInbound isLoopback x.toObject then rest
    else { severity := .warning, field := key ++ "[" ++ toString i ++ "]", message := foreignInboundMessage, value := (customValueNamed x.toObject "type").toStr } :: rest

def stripInbounds (isLoopback : String → Bool) (root : Members Json) : Edited Json Issue :=
  forNamed root "inbounds" fun key value =>
    let items := value.toArray
    let kept := items.filter fun x => isLocalSingBoxInbound isLoopback x.toObject
    let issues := foreignInbounds isLoopback key 0 items
    if kept.length == items.length then (.keep, issues) else (.put (.arr kept), issues)

/-- The core builds the V2Ray API only when it listens. -/
def apiListens (api : Json) : Bool := someNamed api.toObject "listen" fun listen => !isBlank listen

def stripSingBoxExposure (isLoopback : String → Bool) (root : Members Json) : Edited Json Issue :=
  inTurn
    [stripInbounds isLoopback,
     fun o => stripNamed o "services" "" opensPortMessage false,
     fun o => stripNamed o "certificate_providers" "" opensPortMessage false,
     fun o => editObjectNamed o "log" "" fun log at' => stripNamed log "output" at' writesFileMessage true,
     fun o => editObjectNamed o "experimental" "" fun experimental at' =>
      inTurn
        [fun o => stripNamed o "clash_api" at' clashApiMessage false,
         fun o => stripThat o "v2ray_api" at' v2rayApiMessage apiListens (fun _ => ""),
         fun o => editObjectNamed o "debug" at' fun debug debugAt =>
           stripNamed debug "listen" debugAt opensPortMessage true,
         fun o => editObjectNamed o "cache_file" at' fun cache cacheAt =>
           stripNamed cache "path" cacheAt writesFileMessage true]
        experimental,
     fun o => editListNamed o "network_namespaces" "" fun ns at' =>
       stripNamed ns "pid_file" at' writesFileMessage true] root

/-! ## Profiles -/

inductive SubType where
  | outbound
  | fullConfig
  | xrayOutbound
  | xrayFullConfig
  | other (name : String)
deriving DecidableEq

/-- How a text holds an object: what is written is read back. -/
structure Codec (Text : Type*) where
  read : Text → JsonObject
  write : Members Json → Text
  read_write : ∀ o, proper (.obj o) = true → (read (write o)).members = o

structure Profile (Text : Type*) where
  type : SubType
  config : Text
  bridgePort : Int := 0
  bridgeAuth : String := ""
  bridgeHost : String := "127.0.0.1"

def stripRoot (isLoopback : String → Bool) : SubType → Members Json → Edited Json Issue
  | .xrayOutbound, root => stripXrayOutbound root ""
  | .xrayFullConfig, root => stripXrayExposure root
  | .fullConfig, root =>
    inTurn [stripSingBoxExposure isLoopback, fun o => editListNamed o "outbounds" "" stripLaunchers,
      fun o => editListNamed o "endpoints" "" stripLaunchers] root
  -- Build() hands every other subtype to the core as a sing-box outbound
  | _, root => stripLaunchers root ""

def stripForeignState {Text : Type*} (codec : Codec Text) (isLoopback : String → Bool) (custom : Profile Text)
    (issues : List Issue) : Profile Text × List Issue :=
  let root := stripRoot isLoopback custom.type (codec.read custom.config).members
  (if root.changed then { custom with config := codec.write root.members } else custom, issues ++ root.issues)

/-! ## What goes to sing-box -/

/-- `o[key].toObject()`. -/
def objectAt (o : Members Json) (key : String) : Members Json := ((valueAt o key).map Json.toObject).getD []

def boolAt (o : Members Json) (key : String) : Bool := ((valueAt o key).map Json.toBool).getD false

def singBoxTransportNeedsXray (type : String) : Bool := ["kcp"].contains type

/-- A sing-box outbound whose transport only Xray has; sing-box gets a placeholder for it. -/
def usesSingBoxViaXray (type : SubType) (root : Members Json) : Bool :=
  type == .outbound && singBoxTransportNeedsXray (textAt (objectAt root "transport") "type") &&
    (boolAt (objectAt root "tls") "enabled" || boolAt (objectAt (objectAt root "tls") "reality") "enabled")

def placeholder : Members Json := [("server", .str "127.0.0.1"), ("type", .str "socks")]

def build {Text : Type*} (codec : Codec Text) (custom : Profile Text) : Members Json :=
  let root := (codec.read custom.config).members
  if custom.type == .xrayFullConfig then
    [("password", .str custom.bridgeAuth), ("server", .str custom.bridgeHost), ("server_port", .num custom.bridgePort),
     ("type", .str "socks"), ("username", .str custom.bridgeAuth)]
  else if custom.type == .xrayOutbound then placeholder
  else if usesSingBoxViaXray custom.type root then placeholder
  else root

end Waterdisco.Custom
