import Waterdisco.Lib.Digits

/-!
# Addresses as the lists spell them

`ipListParseNetwork` reads an address or a network; `ipListParseFormat` prints an
address in the form of RFC 5952, the first longest run of zero groups as `::`.
`NormalizeCidr` is the one after the other.  Texts are lists of characters.
-/

namespace Waterdisco.Scan

open List

/-- IPv4 lives in the low 32 bits of `lo`. -/
structure IpListParseAddr where
  v6 : Bool := false
  hi : Nat := 0
  lo : Nat := 0
deriving DecidableEq

def ipListParseBits (addr : IpListParseAddr) : Nat := if addr.v6 then 128 else 32

/-! ## Reading -/

def ipListParseDecimal (text : List Char) (maxDigits : Nat) : Option Nat :=
  if text = [] ∨ maxDigits < text.length then none else readDigits 10 decimalDigit text

def ipListParseHexDigit (c : Char) : Option Nat :=
  if '0' ≤ c ∧ c ≤ '9' then some (c.toNat - '0'.toNat)
  else if 'a' ≤ c ∧ c ≤ 'f' then some (c.toNat - 'a'.toNat + 10)
  else if 'A' ≤ c ∧ c ≤ 'F' then some (c.toNat - 'A'.toNat + 10)
  else none

/-- One part between the dots. -/
def ipListParseOctet (part : List Char) : Option Nat :=
  match ipListParseDecimal part 3 with
  | none => none
  | some octet =>
    if 255 < octet then none
    -- an octal form
    else if 1 < part.length ∧ part.head? = some '0' then none
    else some octet

def ipListParseV4 (text : List Char) : Option Nat :=
  match (text.splitOn '.').mapM ipListParseOctet with
  | some [a, b, c, d] => some (((a * 2 ^ 8 + b) * 2 ^ 8 + c) * 2 ^ 8 + d)
  | _ => none

/-- One group of hexadecimal digits. -/
def ipListParseGroup (group : List Char) : Option Nat :=
  if group = [] ∨ 4 < group.length then none else readDigits 16 ipListParseHexDigit group

/-- The groups from number `count` on; the last one may be an IPv4 address. -/
def ipListParseV6Groups (allowV4Tail : Bool) : List (List Char) → Nat → Option (List Nat)
  | [], _ => some []
  | group :: rest, count =>
    if rest = [] ∧ allowV4Tail = true ∧ '.' ∈ group then
      if 6 < count then none
      else (ipListParseV4 group).map (fun v4 => [v4 / 2 ^ 16, v4 % 2 ^ 16])
    else if 8 ≤ count then none
    else match ipListParseGroup group, ipListParseV6Groups allowV4Tail rest (count + 1) with
    | some value, some values => some (value :: values)
    | _, _ => none

def ipListParseV6Part (text : List Char) (allowV4Tail : Bool) : Option (List Nat) :=
  if text = [] then some [] else ipListParseV6Groups allowV4Tail (text.splitOn ':') 0

def groupsWords (groups : List Nat) : Nat × Nat :=
  ((groups.take 4).foldl (fun v g => v * 2 ^ 16 + g) 0, (groups.drop 4).foldl (fun v g => v * 2 ^ 16 + g) 0)

def ipListParseV6 (text : List Char) : Option (Nat × Nat) :=
  match splitGap text with
  | none =>
    match ipListParseV6Part text true with
    | some groups => if groups.length = 8 then some (groupsWords groups) else none
    | none => none
  | some (left, right) =>
    if (splitGap (':' :: right)).isSome then none
    else match ipListParseV6Part left false, ipListParseV6Part right true with
    | some head, some tail =>
      if 7 < head.length + tail.length then none
      else some (groupsWords (head ++ replicate (8 - head.length - tail.length) 0 ++ tail))
    | _, _ => none

def ipListParseAddress (text : List Char) : Option IpListParseAddr :=
  if ':' ∈ text then
    (ipListParseV6 (((cut '%' text).map Prod.fst).getD text)).map (fun w => { v6 := true, hi := w.1, lo := w.2 })
  else (ipListParseV4 text).map (fun v4 => { v6 := false, hi := 0, lo := v4 })

/-! ## Networks -/

def ipListParseIsMapped (addr : IpListParseAddr) : Bool :=
  addr.v6 && addr.hi == 0 && addr.lo / 2 ^ 32 == 0xffff

def ipListParseMask (addr : IpListParseAddr) (len : Nat) : IpListParseAddr :=
  if addr.v6 = false then { addr with lo := addr.lo &&& ((0xffffffff <<< (32 - len)) &&& 0xffffffff) }
  else if len < 64 then
    { addr with hi := if len = 0 then 0 else addr.hi &&& ((2 ^ 64 - 1) <<< (64 - len)) % 2 ^ 64, lo := 0 }
  else if len = 64 then { addr with lo := 0 }
  else if len < 128 then { addr with lo := addr.lo &&& ((2 ^ 64 - 1) <<< (128 - len)) % 2 ^ 64 }
  else addr

def isSpace (c : Char) : Bool :=
  let n := c.toNat
  n == 0x20 || (0x09 ≤ n && n ≤ 0x0d) || n == 0x85 || n == 0xa0 || n == 0x1680 || (0x2000 ≤ n && n ≤ 0x200a) ||
    n == 0x2028 || n == 0x2029 || n == 0x202f || n == 0x205f || n == 0x3000

def trimmed (text : List Char) : List Char := ((text.dropWhile isSpace).reverse.dropWhile isSpace).reverse

theorem trimmed_of_ends {text : List Char} (hhead : ∀ c, text.head? = some c → isSpace c = false)
    (hlast : ∀ c, text.getLast? = some c → isSpace c = false) : trimmed text = text := by
  have hdrop : ∀ l : List Char, (∀ c, l.head? = some c → isSpace c = false) → l.dropWhile isSpace = l := by
    intro l hl
    cases l with
    | nil => rfl
    | cons c l => simp [dropWhile, hl c rfl]
  unfold trimmed
  rw [hdrop text hhead, hdrop _ (by simpa using hlast), reverse_reverse]

theorem trimmed_of_no_space {text : List Char} (h : ∀ c ∈ text, isSpace c = false) : trimmed text = text :=
  trimmed_of_ends (fun c hc => h c (mem_of_head? hc)) fun c hc => h c (mem_of_getLast? hc)

/-- The address of a network without its brackets, and what follows the closing one. -/
def networkBody (text : List Char) : Option (List Char × List Char) :=
  match text with
  | '[' :: rest =>
    match cut ']' rest with
    | none => none
    | some (body, suffix) => if suffix = [] ∨ suffix.head? = some '/' then some (body, suffix) else none
  | _ => some (text, [])

/-- The address of a network and the text of its length, if it has one. -/
def networkParts (text : List Char) : Option (List Char × Option (List Char)) :=
  match networkBody text with
  | none => none
  | some (body, suffix) =>
    match cut '/' body with
    | some (address, len) => if suffix = [] then some (address, some len) else none
    | none => if suffix = [] then some (body, none) else some (body, some suffix.tail)

def networkLength (bits : Nat) (text : Option (List Char)) : Option Nat :=
  match text with
  | none => some bits
  | some digits =>
    match ipListParseDecimal digits 3 with
    | some value => if bits < value then none else some value
    | none => none

/-- The IPv4 network that a mapped one of length 96 or more stands for. -/
def unmapNetwork (addr : IpListParseAddr) (len : Nat) : IpListParseAddr × Nat :=
  if ipListParseIsMapped addr = true ∧ 96 ≤ len then ({ v6 := false, hi := 0, lo := addr.lo % 2 ^ 32 }, len - 96)
  else (addr, len)

def ipListParseNetwork (text : List Char) : Option (IpListParseAddr × Nat) :=
  match networkParts (trimmed text) with
  | none => none
  | some (body, lenText) =>
    match ipListParseAddress body with
    | none => none
    | some addr =>
      match networkLength (ipListParseBits addr) lenText with
      | none => none
      | some len =>
        let (addr, len) := unmapNetwork addr len
        if len = 0 then none else some (ipListParseMask addr len, len)

/-! ## Printing -/

def formatV4 (v : Nat) : List Char :=
  Nat.toDigits 10 (v / 2 ^ 24) ++ '.' :: Nat.toDigits 10 (v / 2 ^ 16 % 2 ^ 8) ++
    '.' :: Nat.toDigits 10 (v / 2 ^ 8 % 2 ^ 8) ++ '.' :: Nat.toDigits 10 (v % 2 ^ 8)

def addressGroups (hi lo : Nat) : List Nat :=
  [hi / 2 ^ 48 % 2 ^ 16, hi / 2 ^ 32 % 2 ^ 16, hi / 2 ^ 16 % 2 ^ 16, hi % 2 ^ 16,
    lo / 2 ^ 48 % 2 ^ 16, lo / 2 ^ 32 % 2 ^ 16, lo / 2 ^ 16 % 2 ^ 16, lo % 2 ^ 16]

/-- The first longest run of zeros from group `i` on, longer than the best so far;
`skip` groups belong to a run that was counted. -/
def bestRun : List Nat → Nat → Nat → Option Nat × Nat → Option Nat × Nat
  | [], _, _, best => best
  | g :: rest, i, skip, best =>
    if 0 < skip then bestRun rest (i + 1) (skip - 1) best
    else if g ≠ 0 then bestRun rest (i + 1) 0 best
    else
      let run := ((g :: rest).takeWhile (fun g => g == 0)).length
      bestRun rest (i + 1) (run - 1) (if best.2 < run then (some i, run) else best)

/-- The text so far, with a separator unless it is empty or ends in one. -/
def withSeparator (out : List Char) : List Char :=
  if out = [] ∨ out.getLast? = some ':' then out else out ++ [':']

def printGroups (bestStart : Option Nat) (bestLength : Nat) : List Nat → Nat → Nat → List Char → List Char
  | [], _, _, out => out
  | g :: rest, i, skip, out =>
    if 0 < skip then printGroups bestStart bestLength rest (i + 1) (skip - 1) out
    else if bestStart = some i then
      printGroups bestStart bestLength rest (i + 1) (bestLength - 1) (out ++ [':', ':'])
    else printGroups bestStart bestLength rest (i + 1) 0 (withSeparator out ++ Nat.toDigits 16 g)

def formatV6 (hi lo : Nat) : List Char :=
  let groups := addressGroups hi lo
  let best := bestRun groups 0 0 (none, 1)
  printGroups best.1 best.2 groups 0 0 []

def ipListParseFormat (addr : IpListParseAddr) : List Char :=
  if addr.v6 then formatV6 addr.hi addr.lo else formatV4 addr.lo

def ipListParseCidr (addr : IpListParseAddr) (len : Nat) : List Char :=
  if ipListParseBits addr ≤ len then ipListParseFormat addr
  else ipListParseFormat addr ++ '/' :: Nat.toDigits 10 len

/-- Empty when the text is no network. -/
def normalizeCidr (text : String) : String :=
  match ipListParseNetwork text.toList with
  | none => ""
  | some (addr, len) => String.ofList (ipListParseCidr addr len)

end Waterdisco.Scan
