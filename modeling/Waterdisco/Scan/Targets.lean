import Waterdisco.Lib.Shuffle

/-!
# The targets of a scan

`NewTargets` turns the entries of a spec into ranges of positions and `At` turns
a position back into an address and a port: a binary search for the range, the
host and port within it, and for a sampled range a keyed mixer over the host bits.

    the list At(0), …, At(Total - 1)
      unshuffled: one block per valid entry, in turn, each inside its masked
        prefix and ports, no pair twice, complete unless sampled or cut
      shuffled: a permutation of the unshuffled one          (newTargets_list)

Machine words are natural numbers; every operation that can wrap is reduced
modulo `2 ^ 64` (or `2 ^ 32`) as the word does.
-/

namespace Waterdisco.Scan

/-! ## Addresses -/

/-- A `netip.Addr` without a zone. -/
structure Addr where
  is4 : Bool
  value : Nat
  lt : value < 2 ^ (if is4 then 32 else 128)
deriving DecidableEq

def Addr.bitLen (a : Addr) : Nat := if a.is4 then 32 else 128

/-- A valid `netip.Prefix`. -/
structure Prefix where
  addr : Addr
  bits : Nat
  le : bits ≤ addr.bitLen

def Prefix.hostBits (p : Prefix) : Nat := p.addr.bitLen - p.bits

def Prefix.masked (p : Prefix) : Prefix where
  addr := { p.addr with
    value := p.addr.value / 2 ^ p.hostBits * 2 ^ p.hostBits
    lt := Nat.lt_of_le_of_lt (Nat.div_mul_le_self _ _) p.addr.lt }
  bits := p.bits
  le := p.le

/-- The address has the prefix's leading bits. -/
def Prefix.Contains (p : Prefix) (a : Addr) : Prop :=
  a.is4 = p.addr.is4 ∧ a.value / 2 ^ p.hostBits = p.addr.value / 2 ^ p.hostBits

instance (p : Prefix) (a : Addr) : Decidable (p.Contains a) := inferInstanceAs (Decidable (_ ∧ _))

def Addr.is4In6 (a : Addr) : Bool := !a.is4 && a.value / 2 ^ 32 == 0xffff

def Addr.unmap (a : Addr) : Addr where
  is4 := true
  value := a.value % 2 ^ 32
  lt := Nat.mod_lt _ (Nat.two_pow_pos 32)

section
-- `strings.TrimSpace`, `netip.ParsePrefix` and `netip.ParseAddr` with the zone dropped
variable (trimSpace : String → String) (parsePrefix : String → Option Prefix) (parseAddr : String → Option Addr)

/-- A prefix, or a single address as the prefix of all its bits. -/
def parsePrefixOrAddr (text : String) : Option Prefix :=
  match parsePrefix text with
  | some p => some p
  | none => (parseAddr text).map fun addr => ⟨addr, addr.bitLen, .refl⟩

/-- An IPv4-mapped prefix that keeps the mapping bits is an IPv4 one. -/
def Prefix.unmapped (p : Prefix) : Prefix :=
  if p.addr.is4In6 = true ∧ 96 ≤ p.bits then
    ⟨p.addr.unmap, p.bits - 96, by
      have h1 := p.le
      have h2 : p.addr.bitLen ≤ 128 := by unfold Addr.bitLen; split <;> omega
      have h3 : p.addr.unmap.bitLen = 32 := rfl
      omega⟩
  else p

def parseTargetPrefix (text : String) : Option Prefix :=
  (parsePrefixOrAddr parsePrefix parseAddr (trimSpace text)).map fun p => p.unmapped.masked

end

/-! ## Ports -/

inductive PortMode where
  | entry
  | ignore
  | merge
  | list

/-- Never empty: port 0 stands for "no port". -/
def entryPorts (mode : PortMode) (entryPort : Nat) (defaultPorts : List Nat) : List Nat :=
  let ports := match mode with
    | .ignore => defaultPorts
    | .list => if entryPort ≠ 0 then [entryPort] else []
    | .merge =>
      if entryPort = 0 then defaultPorts else entryPort :: defaultPorts.filter fun port => port ≠ entryPort
    | .entry => if entryPort ≠ 0 then [entryPort] else defaultPorts
  if ports.isEmpty then [0] else ports

def normalizePorts (ports : List Int) : List Nat :=
  ports.foldl (fun out port =>
    if port < 1 ∨ 0xffff < port ∨ port.toNat ∈ out then out else out ++ [port.toNat]) []

/-! ## Words -/

def maxTargetTotal : Nat := 2 ^ 62
def defaultSampleSize : Nat := 1024
def maxEnumeratedBits : Nat := 32
def mixerRounds : Nat := 4

/-- The product, held at the cap. -/
def saturatingMul (a b : Nat) : Nat :=
  if 2 ^ 64 ≤ a * b ∨ maxTargetTotal < a * b then maxTargetTotal else a * b

def bitMask (width : Nat) : Nat := if 64 ≤ width then 2 ^ 64 - 1 else 2 ^ width - 1

/-- The next state and the word it gives. -/
def splitmix64 (state : Nat) : Nat × Nat :=
  let state := (state + 0x9e3779b97f4a7c15) % 2 ^ 64
  let z := state
  let z := ((z ^^^ (z >>> 30)) * 0xbf58476d1ce4e5b9) % 2 ^ 64
  let z := ((z ^^^ (z >>> 27)) * 0x94d049bb133111eb) % 2 ^ 64
  (state, z ^^^ (z >>> 31))

/-- The high and the low word of an address as 16 bytes. -/
def Addr.as16 (a : Addr) : Nat × Nat :=
  if a.is4 then (0, 0xffff * 2 ^ 32 + a.value) else (a.value / 2 ^ 64, a.value % 2 ^ 64)

def prefixHash (p : Prefix) : Nat :=
  let (high, low) := p.addr.as16
  let h := (splitmix64 high).2
  let h := (splitmix64 (h ^^^ low)).2
  (splitmix64 (h ^^^ p.bits ^^^ (p.addr.bitLen <<< 8) % 2 ^ 64)).2

/-! ## The mixer -/

/-- A keyed permutation of `[0, 2 ^ width)`; a round adds, xors a right shift and
multiplies. -/
structure Mixer where
  mask : Nat := 0
  shift : Nat := 0
  rounds : List (Nat × Nat) := []
deriving DecidableEq

def mixerKeys (mask : Nat) : Nat → Nat → List (Nat × Nat)
  | 0, _ => []
  | n + 1, state =>
    let (state, add) := splitmix64 state
    let (state, mul) := splitmix64 state
    (add &&& mask, (mul ||| 1) &&& mask) :: mixerKeys mask n state

def newMixer (width key : Nat) : Mixer where
  mask := bitMask width
  shift := max 1 (width / 2)
  rounds := mixerKeys (bitMask width) mixerRounds key

def Mixer.round (m : Mixer) (x : Nat) (r : Nat × Nat) : Nat :=
  let x := (x + r.1) % 2 ^ 64 &&& m.mask
  let x := x ^^^ (x >>> m.shift)
  (x * r.2) % 2 ^ 64 &&& m.mask

def Mixer.mix (m : Mixer) (x : Nat) : Nat := m.rounds.foldl m.round x

/-! ## Ranges -/

structure Entry where
  cidr : String
  port : Int := 0

structure Spec where
  entries : List Entry := []
  defaultPorts : List Int := []
  portMode : PortMode := .entry
  maxHostsPerEntry : Int64 := 0
  shuffle : Bool := false
  seed : UInt64 := 0

structure Target where
  addr : Addr
  port : Nat
deriving DecidableEq

structure TargetRange where
  base : Addr
  hostBits : Nat
  sampled : Bool
  ports : List Nat
  start : Nat
  sampler : Mixer := {}
  highKey : Nat := 0
deriving DecidableEq

structure Targets where
  ranges : List TargetRange := []
  total : Nat := 0
  shuffle : Bool := false
  order : Mixer := {}
  sampledEntries : Nat := 0
  invalidEntries : Nat := 0

/-- The host limit of a spec; 0 is none. -/
def Spec.limit (spec : Spec) : Nat :=
  if 0 < spec.maxHostsPerEntry.toInt then spec.maxHostsPerEntry.toInt.toNat else 0

def entryLimit (limit hostBits : Nat) : Nat :=
  if limit = 0 ∧ maxEnumeratedBits < hostBits then defaultSampleSize else limit

/-- Whether an entry of `hostBits` host bits is sampled. -/
def isSampled (limit hostBits : Nat) : Bool :=
  decide (0 < entryLimit limit hostBits ∧ (64 ≤ hostBits ∨ entryLimit limit hostBits < 2 ^ hostBits))

def entryHosts (limit hostBits : Nat) : Nat :=
  if isSampled limit hostBits then entryLimit limit hostBits
  else if hostBits < 64 then 2 ^ hostBits else 0

/-- The range of an entry that begins at position `start`. -/
def newRange (limit seed start : Nat) (p : Prefix) (ports : List Nat) : TargetRange :=
  let sampled := isSampled limit p.hostBits
  let key := seed ^^^ prefixHash p
  { base := p.addr, hostBits := p.hostBits, sampled, ports, start
    sampler := if sampled then newMixer (min p.hostBits 64) key else {}
    highKey := if sampled then (splitmix64 key).2 else 0 }

/-- One valid entry: its masked prefix and its ports. -/
def addRange (limit seed : Nat) (t : Targets) (p : Prefix) (ports : List Nat) : Targets :=
  let count := min (saturatingMul (entryHosts limit p.hostBits) ports.length) (maxTargetTotal - t.total)
  if count = 0 then t
  else
    { t with
      ranges := t.ranges ++ [newRange limit seed t.total p ports]
      total := t.total + count
      sampledEntries := if isSampled limit p.hostBits then t.sampledEntries + 1 else t.sampledEntries }

/-- `bits.Len64` -/
def len64 (n : Nat) : Nat := if n = 0 then 0 else n.log2 + 1

section
variable (trimSpace : String → String) (parsePrefix : String → Option Prefix) (parseAddr : String → Option Addr)

/-- The masked prefix and the ports of an entry, if it is valid. -/
def validEntry (spec : Spec) (entry : Entry) : Option (Prefix × List Nat) :=
  match parseTargetPrefix trimSpace parsePrefix parseAddr entry.cidr with
  | none => none
  | some p =>
    if entry.port < 0 ∨ 0xffff < entry.port then none
    else some (p, entryPorts spec.portMode entry.port.toNat (normalizePorts spec.defaultPorts))

def addEntry (spec : Spec) (t : Targets) (entry : Entry) : Targets :=
  match validEntry trimSpace parsePrefix parseAddr spec entry with
  | none => { t with invalidEntries := t.invalidEntries + 1 }
  | some (p, ports) => addRange spec.limit spec.seed.toNat t p ports

def newTargets (spec : Spec) : Targets :=
  let t := spec.entries.foldl (addEntry trimSpace parsePrefix parseAddr spec) { shuffle := spec.shuffle }
  if 1 < t.total then { t with order := newMixer (len64 (t.total - 1)) spec.seed.toNat } else t

end

/-- The offset of a host within its range, as a high and a low word. -/
def TargetRange.offset (r : TargetRange) (hostIndex : Nat) : Nat × Nat :=
  if r.sampled then
    (if 64 < r.hostBits then (splitmix64 (hostIndex ^^^ r.highKey)).2 &&& bitMask (r.hostBits - 64) else 0,
      r.sampler.mix hostIndex)
  else (0, hostIndex)

def TargetRange.address (r : TargetRange) (hostIndex : Nat) : Addr :=
  let (high, low) := r.offset hostIndex
  if r.base.is4 then
    { is4 := true, value := (r.base.value + low % 2 ^ 32) % 2 ^ 32, lt := Nat.mod_lt _ (Nat.two_pow_pos 32) }
  else
    let (baseHigh, baseLow) := r.base.as16
    let sumLow := (baseLow + low) % 2 ^ 64
    let carry := (baseLow + low) / 2 ^ 64
    let sumHigh := (baseHigh + high + carry) % 2 ^ 64
    { is4 := false
      value := sumHigh * 2 ^ 64 + sumLow
      lt := by
        have h1 : (baseHigh + high + carry) % 2 ^ 64 < 2 ^ 64 := Nat.mod_lt _ (Nat.two_pow_pos 64)
        have h2 : (baseLow + low) % 2 ^ 64 < 2 ^ 64 := Nat.mod_lt _ (Nat.two_pow_pos 64)
        simp only [Bool.false_eq_true, if_false]
        omega }

/-- Cycle walking: the mixer permutes the enclosing power of two; `2 ^ 64` steps
bound the walk. -/
def Targets.permute (t : Targets) (position : Nat) : Nat :=
  if t.total ≤ 1 then 0
  else walk t.order.mix t.total (2 ^ 64) (t.order.mix position)

def Targets.rangeOf (t : Targets) (global : Nat) : Option TargetRange :=
  t.ranges[search t.ranges.length (fun i => decide (((t.ranges[i]?).map (·.start)).getD 0 > global)) - 1]?

def TargetRange.target (r : TargetRange) (position : Nat) : Target where
  addr := r.address (position / r.ports.length)
  port := (r.ports[position % r.ports.length]?).getD 0

/-- `At`: the target at a position below `Total`. -/
def Targets.atPosition (t : Targets) (position : Nat) : Option Target :=
  let global := if t.shuffle then t.permute position else position
  (t.rangeOf global).map fun r => r.target (global - r.start)

end Waterdisco.Scan
