import Waterdisco.Lib.Dyadic
import Waterdisco.Lists.Repo
import Waterdisco.Scan.IpListParse

/-!
# Lists as texts

`parseIpListText` reads a list of networks from a text that a user pastes or a file
holds: single addresses, networks and ranges, with a port behind a colon, as the next
word or in a column that the first line names.  `formatEntry` writes one entry.

A text is what `QString::fromUtf8` makes of the bytes.
-/

namespace Waterdisco.Scan

/-! ## Ranges -/

def ipListParsePort (text : List Char) : Option Nat :=
  match ipListParseDecimal text 5 with
  | some value => if 65535 < value then none else some value
  | none => none

def ipListParseLess (a b : IpListParseAddr) : Bool :=
  if a.hi ≠ b.hi then decide (a.hi < b.hi) else decide (a.lo < b.lo)

def bitWidth (n : Nat) : Nat := if n = 0 then 0 else Nat.log2 n + 1

/-- The low zero bits of an address, all of them for zero. -/
def coverAlign (first : IpListParseAddr) : Nat :=
  min (if first.lo ≠ 0 then lowZeros 64 first.lo else if first.hi ≠ 0 then 64 + lowZeros 64 first.hi else 128)
    (ipListParseBits first)

/-- The bits of the largest block that fits before the end. -/
def coverFit (first last : IpListParseAddr) : Nat :=
  let diffLo := (last.lo + 2 ^ 64 - first.lo) % 2 ^ 64
  let diffHi := (last.hi + 2 ^ 64 - first.hi + (2 ^ 64 - if last.lo < first.lo then 1 else 0)) % 2 ^ 64
  let sizeLo := (diffLo + 1) % 2 ^ 64
  let sizeHi := (diffHi + if sizeLo = 0 then 1 else 0) % 2 ^ 64
  if sizeHi ≠ 0 then 64 + bitWidth sizeHi - 1 else bitWidth sizeLo - 1

/-- The last address of the block of `2 ^ k` addresses. -/
def coverEnd (first : IpListParseAddr) (k : Nat) : IpListParseAddr :=
  if 64 ≤ k then
    { first with lo := 2 ^ 64 - 1, hi := if 64 < k then first.hi ||| (2 ^ (k - 64) - 1) else first.hi }
  else if 0 < k then { first with lo := first.lo ||| (2 ^ k - 1) }
  else first

def coverNext (blockEnd : IpListParseAddr) : IpListParseAddr :=
  let lo := (blockEnd.lo + 1) % 2 ^ 64
  { blockEnd with lo := lo, hi := (blockEnd.hi + if lo = 0 then 1 else 0) % 2 ^ 64 }

/-- The address as one number. -/
def IpListParseAddr.value (addr : IpListParseAddr) : Nat := addr.hi * 2 ^ 64 + addr.lo

/-- The loop of `ipListParseCoverRange`; every block has an address, so `fuel` for each
address of the range is enough. -/
def coverBlocks (last : IpListParseAddr) : Nat → IpListParseAddr → List (IpListParseAddr × Nat)
  | 0, _ => []
  | fuel + 1, first =>
    let k := min (coverAlign first) (coverFit first last)
    let blockEnd := coverEnd first k
    (first, ipListParseBits first - k) ::
      if blockEnd.hi = last.hi ∧ blockEnd.lo = last.lo then [] else coverBlocks last fuel (coverNext blockEnd)

/-- The networks of a range; none when the cover would be the whole address space. -/
def ipListParseCoverRange (first last : IpListParseAddr) : Option (List (IpListParseAddr × Nat)) :=
  let topHi := if first.v6 then 2 ^ 64 - 1 else 0
  let topLo := if first.v6 then 2 ^ 64 - 1 else 0xffffffff
  if first.hi = 0 ∧ first.lo = 0 ∧ last.hi = topHi ∧ last.lo = topLo then none
  else some (coverBlocks last (last.value + 1 - first.value) first)

def ipListParseRangeEnd (text : List Char) : Option IpListParseAddr :=
  let text := if text.head? = some '[' ∧ text.getLast? = some ']' then (text.drop 1).take (text.length - 2) else text
  if '/' ∈ text then none
  else match ipListParseAddress text with
  | none => none
  | some addr => some (if ipListParseIsMapped addr then { v6 := false, hi := 0, lo := addr.lo % 2 ^ 32 } else addr)

/-- The upper end of a range as it is written, with the port behind it. -/
def rangeRight (right : List Char) : Option (List Char × Option Nat) :=
  if right.head? = some '[' then
    match cut ']' right with
    | none => none
    | some (inner, rest) =>
      if rest = [] then some (inner ++ [']'], none)
      else if rest.head? = some ':' then (ipListParsePort rest.tail).map (fun port => (inner ++ [']'], some port))
      else none
  else if right.count ':' = 1 then
    match cut ':' right with
    | none => none
    | some (address, port) => (ipListParsePort port).map (fun port => (address, some port))
  else some (right, none)

/-- The other end of a range; for IPv4 the last octet is enough. -/
def rangeLast (first : IpListParseAddr) (right : List Char) : Option IpListParseAddr :=
  match if first.v6 then none else ipListParseDecimal right 3 with
  | some octet =>
    if 255 < octet ∨ 1 < right.length ∧ right.head? = some '0' then none
    else some { first with lo := first.lo / 2 ^ 8 * 2 ^ 8 + octet }
  | none =>
    match ipListParseRangeEnd right with
    | none => none
    | some last => if last.v6 ≠ first.v6 then none else some last

def rangeEnds (token : List Char) : Option (IpListParseAddr × IpListParseAddr × Option Nat) :=
  match cut '-' token with
  | none => none
  | some (left, right) =>
    match rangeRight right with
    | none => none
    | some (right, port) =>
      match ipListParseRangeEnd left with
      | none => none
      | some first =>
        match rangeLast first right with
        | none => none
        | some last => some (if ipListParseLess last first then (last, first, port) else (first, last, port))

def ipListParseRangeToken (token : List Char) : Option (List (IpListParseAddr × Nat) × Option Nat) :=
  match rangeEnds token with
  | none => none
  | some (first, last, port) => (ipListParseCoverRange first last).map (fun blocks => (blocks, port))

/-! ## Tokens -/

/-- The network of a token and the port behind it. -/
def tokenParts (token : List Char) : Option (List Char × Option Nat) :=
  if token.head? = some '[' then
    match cut ']' token with
    | none => none
    | some (inner, rest) =>
      if rest.head? = some ':' then (ipListParsePort rest.tail).map (fun port => (inner ++ [']'], some port))
      else some (token, none)
  else if token.count ':' = 1 then
    match cut ':' token with
    | none => none
    | some (network, port) => (ipListParsePort port).map (fun port => (network, some port))
  else some (token, none)

/-- The networks a token stands for, and its port. -/
def ipListParseAddressToken (token : List Char) : Option (List (IpListParseAddr × Nat) × Option Nat) :=
  if token = [] then none
  else if '-' ∈ token then ipListParseRangeToken token
  else match tokenParts token with
  | none => none
  | some (network, port) => (ipListParseNetwork network).map (fun n => ([n], port))

/-- Whether the text is somewhere in it. -/
def holdsText (part text : List Char) : Bool := text.tails.any (fun t => part.isPrefixOf t)

/-- Tabular rows ignore unrelated columns, but a field shaped like an address that fails to
parse is reported. -/
def ipListParseLooksLikeAddress (token : List Char) : Bool :=
  match token with
  | [] => false
  | front :: _ =>
    if front = '[' ∨ holdsText [':', ':'] token = true ∨ 7 ≤ token.count ':' then true
    else if token.count '.' < 2 ∨ front < '0' ∨ '9' < front then false
    else token.all (fun c => decide ('0' ≤ c ∧ c ≤ '9') || c == '.' || c == '/' || c == ':' || c == '-')

/-- Case folding as far as ASCII letters can tell. -/
def foldCase (c : Char) : Char :=
  if 'A' ≤ c ∧ c ≤ 'Z' then Char.ofNat (c.toNat + 32)
  else if c = Char.ofNat 0x212A then 'k'
  else if c = Char.ofNat 0x017F then 's'
  else c

def columnNames : List String :=
  ["address", "host", "hostname", "cidr", "subnet", "network", "prefix", "range", "endpoint", "server", "target"]

/-- A header must name a column. -/
def ipListParseIsColumnName (token : List Char) : Bool :=
  let folded := token.map foldCase
  "ip".toList.isPrefixOf folded || "addr".toList.isPrefixOf folded || holdsText "port".toList folded ||
    columnNames.any (fun name => name.toList == folded)

/-! ## Lines -/

def ipListParseIsSeparator (c : Char) : Bool := c == ',' || c == ';' || c == '\t' || c == '|'

def ipListParseRangeChar (c : Char) : Bool :=
  (ipListParseHexDigit c).isSome || c == '.' || c == ':' || c == '[' || c == ']'

def isDash (c : Char) : Bool := c == '-' || c == Char.ofNat 0x2013

def trimEnd (text : List Char) : List Char := (text.reverse.dropWhile isSpace).reverse

/-- `skipping` while the blanks behind a dash are passed over. -/
def joinRanges : Bool → List Char → List Char → List Char
  | _, out, [] => out
  | skipping, out, c :: rest =>
    if skipping = true ∧ isSpace c = true then joinRanges true out rest
    else if isDash c = true ∧ (trimEnd out).getLast?.any ipListParseRangeChar = true ∧
        (rest.dropWhile isSpace).head?.any ipListParseRangeChar = true then
      joinRanges true (trimEnd out ++ ['-']) rest
    else joinRanges false (out ++ [c]) rest

/-- The blanks around the dash of a range go. -/
def ipListParseJoinRanges (line : List Char) : List Char := joinRanges false [] line

def isQuote (c : Char) : Bool := c == '"' || c == '\x27'

def ipListParseUnquote (text : List Char) : List Char :=
  trimmed (((trimmed text).dropWhile isQuote).reverse.dropWhile isQuote).reverse

/-- Separated fields keep their empty cells. -/
def ipListParseSplit (text : List Char) (bySeparator : Bool) : List (List Char) :=
  if bySeparator then text.splitOnP ipListParseIsSeparator
  else (text.splitOnP isSpace).filter (fun part => !part.isEmpty)

inductive IpListParseKind where
  | address
  | port
  | other
deriving DecidableEq

structure IpListParseToken where
  text : List Char
  field : Nat := 0
  kind : IpListParseKind := .other
  networks : List (IpListParseAddr × Nat) := []
  port : Option Nat := none

def readToken (field : Nat) (text : List Char) : IpListParseToken :=
  match ipListParseAddressToken text with
  | some (networks, port) => { text := text, field := field, kind := .address, networks := networks, port := port }
  | none =>
    match ipListParsePort text with
    | some port => { text := text, field := field, kind := .port, port := some port }
    | none => { text := text, field := field }

/-- The words of a field without their quotes; empty ones are passed over. -/
def fieldWords (field : List Char) : List (List Char) :=
  ((ipListParseSplit field false).map ipListParseUnquote).filter (fun word => !word.isEmpty)

/-- A line with its fields and tokens. -/
structure Line where
  text : List Char
  separated : Bool
  fields : List (List Char)

def Line.tokens (line : Line) : List IpListParseToken :=
  (line.fields.zipIdx).flatMap (fun p => (fieldWords p.1).map (readToken p.2))

/-- The text before a comment. -/
def withoutComment (line : List Char) : List Char :=
  let line := ((cut '#' line).map Prod.fst).getD line
  match line.tails.findIdx? (fun t => ['/', '/'].isPrefixOf t) with
  | some slashes => line.take slashes
  | none => line

/-- A line that is neither blank nor a comment. -/
def readLine (line : List Char) : Option Line :=
  let line := trimmed (withoutComment line)
  if line = [] ∨ line.head? = some ';' then none
  else
    let text := if line.any isDash then ipListParseJoinRanges line else line
    let separated := text.any ipListParseIsSeparator
    some { text := text, separated := separated, fields := (ipListParseSplit text separated).map ipListParseUnquote }

/-! ## The text -/

def kIpListParseMaxSamples : Nat := 5
def kIpListParseSampleChars : Nat := 64

/-- The first code units of a text; a pair that is cut leaves a replacement. -/
def takeUnits : Nat → List Char → List Char
  | _, [] => []
  | 0, _ => []
  | n + 1, c :: rest =>
    if c.toNat < 0x10000 then c :: takeUnits n rest
    else match n with
    | 0 => [Char.ofNat 0xFFFD]
    | n + 1 => c :: takeUnits n rest

structure ParseResult where
  entries : List Lists.Entry := []
  duplicates : Nat := 0
  rejected : Nat := 0
  samples : List (List Char) := []

/-- What is carried from line to line. -/
structure Parser where
  result : ParseResult := {}
  seen : List String := []
  firstContentLine : Bool := true
  tabularFile : Bool := false
  portColumn : Option Nat := none

def Parser.reject (p : Parser) (token : List Char) : Parser :=
  { p with result := { p.result with
      rejected := p.result.rejected + 1
      samples := if p.result.samples.length < kIpListParseMaxSamples then
          p.result.samples ++ [takeUnits kIpListParseSampleChars token]
        else p.result.samples } }

def Parser.addCidr (port : Int) (p : Parser) (cidr : List Char) : Parser :=
  let entry : Lists.Entry := { cidr := String.ofList cidr, port := port }
  let key := entry.cidr ++ " " ++ toString port
  if key ∈ p.seen then { p with result := { p.result with duplicates := p.result.duplicates + 1 } }
  else { p with seen := key :: p.seen, result := { p.result with entries := p.result.entries ++ [entry] } }

def portOr (defaultPort : Int) : Option Nat → Int
  | some (port + 1) => (port : Int) + 1
  | _ => defaultPort

def Parser.add (defaultPort : Int) (p : Parser) (networks : List (IpListParseAddr × Nat)) (port : Option Nat) : Parser :=
  (networks.map (fun n => ipListParseCidr n.1 n.2)).foldl (Parser.addCidr (portOr defaultPort port)) p

/-- The port in the column the header names. -/
def columnPort (portColumn : Option Nat) (line : Line) (field : Nat) : Option Nat :=
  match portColumn with
  | none => none
  | some column => if column = field then none else (line.fields[column]?).bind ipListParsePort

/-- The tokens of a line with an address; `consumed` when the one before took the port. -/
def addTokens (defaultPort : Int) (line : Line) : Bool → List IpListParseToken → Parser → Parser
  | _, [], p => p
  | consumed, token :: rest, p =>
    if consumed then addTokens defaultPort line false rest p
    else match token.kind with
    | .address =>
      match token.port with
      | some port => addTokens defaultPort line false rest (p.add defaultPort token.networks (some port))
      | none =>
        if p.tabularFile then
          addTokens defaultPort line false rest
            (p.add defaultPort token.networks (columnPort p.portColumn line token.field))
        else match rest.head?.filter (fun next => next.kind == .port) with
        | some next => addTokens defaultPort line true rest (p.add defaultPort token.networks next.port)
        | none => addTokens defaultPort line false rest (p.add defaultPort token.networks none)
    | .port =>
      addTokens defaultPort line false rest (if line.separated || p.tabularFile then p else p.reject token.text)
    | .other =>
      addTokens defaultPort line false rest
        (if !(line.separated || p.tabularFile) || ipListParseLooksLikeAddress token.text then p.reject token.text else p)

/-- A line without an address: the header, or one to report. -/
def rejectLine (line : Line) (p : Parser) : Parser :=
  let tokens := line.tokens
  let shaped := tokens.filter (fun token => ipListParseLooksLikeAddress token.text)
  if p.firstContentLine = true ∧ shaped = [] ∧ tokens.any (fun token => ipListParseIsColumnName token.text) = true then
    { p with
      firstContentLine := false, tabularFile := true
      portColumn := line.fields.findIdx? (fun field => holdsText "port".toList (field.map foldCase)) }
  else
    let p := { p with firstContentLine := false }
    if (line.separated || p.tabularFile) = false then tokens.foldl (fun p token => p.reject token.text) p
    else if shaped ≠ [] then shaped.foldl (fun p token => p.reject token.text) p
    else p.reject line.text

def parseLine (defaultPort : Int) (p : Parser) (line : Line) : Parser :=
  let tokens := line.tokens
  if tokens = [] then p
  else if tokens.all (fun token => token.kind != .address) then rejectLine line p
  else addTokens defaultPort line false tokens { p with firstContentLine := false }

/-- The lines of a text that are read. -/
def contentLines (content : List Char) : List Line :=
  let content := if content.head? = some (Char.ofNat 0xFEFF) then content.tail else content
  (content.splitOn '\n').filterMap readLine

def parseIpListText (content : List Char) (defaultPort : Int) : ParseResult :=
  let defaultPort := if defaultPort < 0 ∨ 65535 < defaultPort then 0 else defaultPort
  ((contentLines content).foldl (parseLine defaultPort) {}).result

/-! ## Writing -/

def formatTarget (address : List Char) (port : Int) : List Char :=
  if port ≤ 0 then address
  else if ':' ∈ address then '[' :: address ++ ']' :: ':' :: Nat.toDigits 10 port.toNat
  else address ++ ':' :: Nat.toDigits 10 port.toNat

def isHostCidr (cidr : List Char) : Bool :=
  if cidr = [] then false
  else match cut '/' cidr with
  | none => true
  | some (address, len) => len == (if ':' ∈ address then "128" else "32").toList

def formatEntry (entry : Lists.Entry) : List Char :=
  let cidr := entry.cidr.toList
  if isHostCidr cidr then formatTarget (((cut '/' cidr).map Prod.fst).getD cidr) entry.port
  else if entry.port ≤ 0 then cidr
  else cidr ++ ' ' :: Nat.toDigits 10 entry.port.toNat

end Waterdisco.Scan
