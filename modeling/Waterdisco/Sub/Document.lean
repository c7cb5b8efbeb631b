import Mathlib.Data.List.DropRight
import Mathlib.Data.List.Infix
import Waterdisco.Lib.Digits

/-!
# Reading a subscription document

`ParseDocument` of SubscriptionParser.cpp over a text.  A document is decoded from base64,
read as JSON, or searched for the marks of a Clash, WireGuard, OpenVPN or OpenConnect
file; what is left is split into items, and each item is a document of its own or a share
link.  A `vpn://` link holds further documents.  How each format is read is a parameter
(`Formats`); what is modelled is which text is handed to which of them, and the order in
which profiles and reports are delivered.

Texts are lists of characters; a document that is nested deeper than `kMaxDepth` is skipped.
-/

namespace Waterdisco.Document

open String

abbrev Text := List Char

def kMaxDepth : Nat := 16

/-! ## Scanning -/

def isBase64Char (c : Char) : Bool := c.isAlphanum || c == '+' || c == '/' || c == '='

/-- Blanks and no-break spaces on both sides, byte order marks on the left. -/
def trim (s : Text) : Text :=
  let left := s.dropWhile fun c => isSpace c || c == '\u00a0' || c == '\ufeff'
  left.rdropWhile fun c => isSpace c || c == '\u00a0'

def startsWithNoCase (s lower : Text) : Bool := lower.isPrefixOf (s.map Char.toLower)

def finds (text : Text) (mark : String) : Bool := decide (mark.toList <:+: text)

/-- The place of the bracket that closes the first one, strings left aside. -/
def matchingCloseLoop : Nat → Bool → Bool → Nat → Text → Option Nat
  | _, _, _, _, [] => none
  | depth, inString, escaped, i, c :: rest =>
    if inString then
      if escaped then matchingCloseLoop depth true false (i + 1) rest
      else if c == '\\' then matchingCloseLoop depth true true (i + 1) rest
      else matchingCloseLoop depth (c != '"') false (i + 1) rest
    else if c == '"' then matchingCloseLoop depth true escaped (i + 1) rest
    else if c == '{' || c == '[' then matchingCloseLoop (depth + 1) false escaped (i + 1) rest
    else if c == '}' || c == ']' then
      if depth - 1 == 0 then some i else matchingCloseLoop (depth - 1) false escaped (i + 1) rest
    else matchingCloseLoop depth false escaped (i + 1) rest

def matchingClose (s : Text) : Option Nat := matchingCloseLoop 0 false false 0 s

def forEachLine (s : Text) : List Text := s.splitOn '\n'

/-- Each round takes at least one character, so the length of the text is enough fuel. -/
def itemsLoop : Nat → Text → List Text
  | 0, _ => []
  | _, [] => []
  | fuel + 1, c :: rest =>
    if c == '\n' then itemsLoop fuel rest
    else
      match if c == '{' || c == '[' then matchingClose (c :: rest) else none with
      | some last => (c :: rest).take (last + 1) :: itemsLoop fuel ((c :: rest).drop (last + 1))
      | none =>
        let line := (c :: rest).takeWhile (· != '\n')
        line :: itemsLoop fuel ((c :: rest).drop (line.length + 1))

/-- One item per line, except that a line opening a bracket yields the whole balanced block. -/
def forEachItem (s : Text) : List Text := itemsLoop s.length s

def looksLikeBase64 (s : Text) : Bool := !s.isEmpty && s.all isBase64Char

/-- The lines of a wrapped body: all of one width, the last one may be shorter. -/
def wrappedLoop : Nat → Nat → Bool → List Text → Option (Nat × Nat)
  | width, lines, _, [] => some (width, lines)
  | width, lines, sawShort, raw :: rest =>
    let line := raw.rdropWhile isSpace
    if line.isEmpty then wrappedLoop width lines sawShort rest
    else if !line.all isBase64Char then none
    else if width == 0 then wrappedLoop line.length (lines + 1) sawShort rest
    else if decide (width < line.length) || sawShort then none
    else wrappedLoop width (lines + 1) (decide (line.length < width)) rest

def looksLikeWrappedBase64 (s : Text) : Bool :=
  match wrappedLoop 0 0 false (forEachLine s) with
  | none => false
  | some (width, lines) => decide (2 ≤ lines) && width % 4 == 0

/-! ## Marks of whole files -/

def hasWireGuardSections (text : Text) : Bool := finds text "[Interface]" && finds text "[Peer]"

def startsWith (line : Text) (mark : String) : Bool := mark.toList.isPrefixOf line

def isOvpnRemote (line : Text) : Bool :=
  startsWith line "remote " ||
    ["<ca>", "<tls-auth>", "<tls-crypt>", "<tls-crypt-v2>", "<secret>"].any fun mark => line == mark.toList

def isOvpnClient (line : Text) : Bool :=
  line == "client".toList || line == "tls-client".toList || startsWith line "dev " || startsWith line "dev-type " ||
    startsWith line "proto "

/-- Both kinds of lines, in any order; comments are skipped. -/
def ovpnLoop : Bool → Bool → List Text → Bool
  | _, _, [] => false
  | hasRemote, hasClientMarker, raw :: rest =>
    let line := trim raw
    if line.isEmpty || startsWith line "#" || startsWith line ";" then ovpnLoop hasRemote hasClientMarker rest
    else
      let hasRemote := hasRemote || isOvpnRemote line
      let hasClientMarker := hasClientMarker || isOvpnClient line
      if hasRemote && hasClientMarker then true else ovpnLoop hasRemote hasClientMarker rest

def looksLikeOvpnConfig (text : Text) : Bool := ovpnLoop false false (forEachLine text)

def openConnectProtocols : List String := ["anyconnect", "nc", "gp", "pulse", "f5", "fortinet"]

def isWordChar (c : Char) : Bool := c.isAlphanum || c == '_'

/-- A protocol name that ends at a word boundary. -/
def protocolWord (s : Text) : Bool :=
  openConnectProtocols.any fun name =>
    startsWith s name && !((s.drop name.length).head?.any isWordChar)

def cliMatchAt (s : Text) : Bool :=
  startsWith s "--protocol" &&
    match s.drop "--protocol".length with
    | c :: rest => (c == '=' || c == ' ') && protocolWord rest
    | [] => false

/-- `(?:^|\s)--protocol[= ](?:anyconnect|nc|gp|pulse|f5|fortinet)\b`, from a place that may follow a blank. -/
def cliMatch : Bool → Text → Bool
  | _, [] => false
  | free, c :: rest => (free && cliMatchAt (c :: rest)) || cliMatch (isSpace c) rest

def dropBlanks (s : Text) : Text := s.dropWhile fun c => c == ' ' || c == '\t'

/-- `^[ \t]*protocol[ \t]*=[ \t]*(?:anyconnect|nc|gp|pulse|f5|fortinet)[ \t]*$` on one line. -/
def fileMatch (line : Text) : Bool :=
  let s := dropBlanks line
  startsWith s "protocol" &&
    match dropBlanks (s.drop "protocol".length) with
    | '=' :: rest => openConnectProtocols.any fun name =>
        startsWith (dropBlanks rest) name && (dropBlanks ((dropBlanks rest).drop name.length)).isEmpty
    | _ => false

/-- The first line that is neither empty nor a comment is a command line. -/
def commandLine : List Text → Bool
  | [] => false
  | raw :: rest =>
    let line := trim raw
    if line.isEmpty || startsWith line "#" then commandLine rest else startsWith line "openconnect "

def looksLikeOpenConnectProfile (text : Text) : Bool :=
  finds text "<AnyConnectProfile" || finds text "<ServerList" ||
    (forEachLine text).any (fun line => cliMatch true line || fileMatch line) || commandLine (forEachLine text)

/-- INI sections also open with a bracket; JSON arrays hold values, not bare words. -/
def looksLikeJson (text : Text) : Bool :=
  match text with
  | '{' :: _ => true
  | _ :: rest =>
    match trim rest with
    | c :: _ => c == '{' || c == '[' || c == '"' || c == ']' || c == '-' || c.isDigit
    | [] => false
  | [] => false

/-! ## Links -/

structure Protocol where
  type : String
  schemes : List String

def kProtocols : List Protocol :=
  [⟨"socks", ["socks5://", "socks4://", "socks4a://", "socks://"]⟩, ⟨"http", ["http://", "https://"]⟩,
   ⟨"shadowsocks", ["ss://"]⟩, ⟨"vmess", ["vmess://"]⟩, ⟨"vless", ["vless://"]⟩, ⟨"trojan", ["trojan://"]⟩,
   ⟨"anytls", ["anytls://"]⟩, ⟨"mieru", ["mierus://", "mieru://"]⟩, ⟨"snell", ["snell://"]⟩,
   ⟨"hysteria", ["hysteria://", "hysteria2://", "hy2://"]⟩, ⟨"tuic", ["tuic://"]⟩, ⟨"juicity", ["juicity://"]⟩,
   ⟨"trusttunnel", ["tt://"]⟩, ⟨"shadowtls", ["shadowtls://"]⟩, ⟨"wireguard", ["awg://", "wg://", "wireguard://"]⟩,
   ⟨"masque", []⟩, ⟨"ssh", ["ssh://"]⟩, ⟨"naive", ["naive+https://", "naive+quic://"]⟩]

def typeForScheme (link : Text) : Option String :=
  (kProtocols.find? fun p => p.schemes.any fun scheme => startsWith link scheme).map (·.type)

def isSchemeChar (c : Char) : Bool := c.isAlphanum || c == '+' || c == '.' || c == '-'

/-- The text before the first `://`, where it has the grammar of a scheme. -/
def schemeLoop : Text → Option Text
  | [] => none
  | c :: rest =>
    if startsWith (c :: rest) "://" then some []
    else if isSchemeChar c then (schemeLoop rest).map (c :: ·) else none

def linkScheme (line : Text) : Text :=
  match line with
  | c :: _ => if c.isAlpha then (schemeLoop line).getD [] else []
  | [] => []

def isRoutingLink (line : Text) : Bool :=
  !(linkScheme line).isEmpty && startsWithNoCase (line.drop (linkScheme line).length) "://routing/".toList

def schemeMessage (scheme : Text) : String :=
  let lower := ofList (scheme.map Char.toLower)
  if lower == "json" || (typeForScheme (lower ++ "://").toList).isSome then
    "Write the link type in lower case: \"" ++ lower ++ "://\", not \"" ++ ofList scheme ++ "://\"."
  else "Unsupported link type \"" ++ ofList scheme ++ "://\"."

/-! ## The parser -/

/-- How the single formats are read: what each delivers, in order. -/
structure Formats (Out : Type*) where
  decodeBase64 : Text → Text
  fromBase64 : Text → Text
  json : Text → Option (List Out)
  jsonSyntax : Text → Out
  clash : Text → List Out
  wireguardFile : Text → String → List Out
  openVpnFile : Text → List Out
  openConnectProfile : Text → List Out
  jsonLink : Text → Bool → List Out
  vpnDocuments : Text → Option (List (Text × String))
  vpnUndecoded : Text → Out
  vpnEmpty : Text → Out
  schemeReport : Text → String → Out
  parseLink : String → Text → String → List Out

/-- One call of `document`. -/
structure Call where
  text : Text
  allowBase64 : Bool
  needParse : Bool
  overrideName : String

section

variable {Out : Type*} (f : Formats Out) (document : Call → List Out)

def vpnLink (line : Text) : List Out :=
  match f.vpnDocuments line with
  | none => [f.vpnUndecoded line]
  | some documents =>
    let inner := documents.flatMap fun d => document ⟨d.1, false, true, d.2⟩
    if inner.isEmpty then [f.vpnEmpty line] else inner

def link (line : Text) (overrideName : String) : List Out :=
  if startsWith line "//" || startsWith line "#" || decide (line.length < 2) then []
  else if startsWith line "json://" then f.jsonLink line false
  else if startsWithNoCase line "throne://add/".toList then f.jsonLink line true
  else if startsWithNoCase line "vpn://".toList then vpnLink f document line
  else
    match typeForScheme line with
    | none =>
      if isRoutingLink line || (linkScheme line).isEmpty then []
      else [f.schemeReport line (schemeMessage (linkScheme line))]
    | some type => f.parseLink type line overrideName

def documentBody (text : Text) (needParse : Bool) (overrideName : String) : List Out :=
  if finds text "proxies:" then f.clash text
  else if hasWireGuardSections text then f.wireguardFile text overrideName
  else if looksLikeOvpnConfig text then f.openVpnFile text
  else if looksLikeOpenConnectProfile text then f.openConnectProfile text
  else if needParse && text.contains '\n' then
    (forEachItem text).flatMap fun item => document ⟨item, true, false, overrideName⟩
  else link f document text overrideName

def documentStep (c : Call) : List Out :=
  let text := trim c.text
  if text.isEmpty then []
  else if c.allowBase64 && looksLikeBase64 text && !(f.decodeBase64 text).isEmpty then
    document ⟨f.decodeBase64 text, false, true, c.overrideName⟩
  else if startsWith text "\x7b" || startsWith text "[" then
    match f.json text with
    | some delivered => delivered
    | none =>
      let body := documentBody f document text c.needParse c.overrideName
      if c.needParse && looksLikeJson text && body.isEmpty then [f.jsonSyntax text] else body
  else documentBody f document text c.needParse c.overrideName

end

section

variable {Out : Type*} (f : Formats Out)

/-- A document with so many levels left, its own among them. -/
def document : Nat → Call → List Out
  | 0, _ => []
  | levels + 1, c => documentStep f (document levels) c

def decoded (body : Text) : Text :=
  if looksLikeBase64 body then (if (f.decodeBase64 body).isEmpty then body else f.decodeBase64 body)
  else if looksLikeWrappedBase64 body then (if (f.fromBase64 body).isEmpty then body else f.fromBase64 body)
  else body

def parseDocument (body : Text) : List Out :=
  if (trim body).isEmpty then [] else document f (kMaxDepth + 1) ⟨decoded f (trim body), false, true, ""⟩

end

end Waterdisco.Document
