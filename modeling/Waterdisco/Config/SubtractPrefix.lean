import Waterdisco.Lib.BitPrefix
import Waterdisco.Scan.IpListNetwork

/-!
# Ranges with a hole

`subtractPrefix` takes a prefix out of the ranges that the Tun leaves alone: a range around the
hole becomes the siblings on the way down to it.  `QHostAddress` is a parameter.

    addresses of the pieces = addresses of the ranges without those of the hole
                                                               (subtractPrefix_contract)
-/

namespace Waterdisco.Config

open String Nat Scan

/-! ## Prefixes -/

/-- A `QHostAddress` of IPv4, with the bytes of one of IPv6, or neither. -/
inductive HostAddress where
  | other
  | v4 (a : BitVec 32)
  | v6 (c : Vector (BitVec 8) 16)
deriving DecidableEq

open List

/-- `QHostAddress::parseSubnet`, a negative length where it fails, and `QHostAddress::toString`. -/
structure AddressText where
  parseSubnet : String → HostAddress × Int
  toText : HostAddress → String

structure RawPrefix where
  addr : List (BitVec 8) := []
  bits : Int := -1

def HostAddress.bytes : HostAddress → List (BitVec 8)
  | .other => []
  | .v4 a => (range 4).map fun i => (a >>> (24 - 8 * i)).setWidth 8
  | .v6 c => c.toList

/-- The address of four bytes, and of sixteen otherwise. -/
def prefixHost (addr : List (BitVec 8)) : HostAddress :=
  if addr.length = 4 then .v4 (addr.foldl (fun v4 b => v4 <<< 8 ||| b.setWidth 32) 0)
  else .v6 (Vector.ofFn fun i => addr.getD i 0)

def prefixContains (outer inner : RawPrefix) : Bool :=
  if outer.bits < 0 ∨ inner.bits < 0 then false
  else if outer.addr.length ≠ inner.addr.length ∨ inner.bits < outer.bits then false
  else
    let wholeBytes := outer.bits.toNat / 8
    if outer.addr.take wholeBytes ≠ inner.addr.take wholeBytes then false
    else
      let restBits := outer.bits.toNat % 8
      if restBits = 0 then true
      else outer.addr.getD wholeBytes 0 &&& 0xFF#8 <<< (8 - restBits) == inner.addr.getD wholeBytes 0 &&& 0xFF#8 <<< (8 - restBits)

/-- The prefix of a length that differs from the hole in its last bit, all after it cleared. -/
def sibling (cut : RawPrefix) (bits : Nat) : RawPrefix where
  addr := clearFrom (flipBit cut.addr (bits - 1)) bits
  bits := bits

section

variable (q : AddressText)

def parsePrefix (cidr : String) : RawPrefix :=
  let parsed := q.parseSubnet cidr
  if parsed.2 < 0 then {}
  else match parsed.1 with
    | .other => {}
    | host => { addr := host.bytes, bits := parsed.2 }

def prefixToString (p : RawPrefix) : String := q.toText (prefixHost p.addr) ++ "/" ++ toString p.bits

/-- What becomes of one range. -/
def cutEntry (cut : RawPrefix) (entry : String) : List String :=
  let range := parsePrefix q entry
  if prefixContains cut range then []
  else if !prefixContains range cut then [entry]
  else (range' (range.bits.toNat + 1) (cut.bits.toNat - range.bits.toNat)).map fun bits =>
    prefixToString q (sibling cut bits)

def subtractPrefix (ranges : List String) (hole : String) : List String :=
  let cut := parsePrefix q hole
  if cut.bits < 0 then ranges else ranges.flatMap (cutEntry q cut)

end

/-! ## Addresses -/

/-- The length fits the family, and all bits after it are cleared. -/
structure Masked (bytes : List (BitVec 8)) (bits : Nat) : Prop where
  le : bits ≤ 8 * bytes.length
  rest : ∀ i, bits ≤ i → bitAt bytes i = false

/-- The base of a subnet is masked, and its text is read back. -/
structure AddressText.Sound (q : AddressText) : Prop where
  masked : ∀ text, 0 ≤ (q.parseSubnet text).2 → (q.parseSubnet text).1 ≠ .other →
    Masked (q.parseSubnet text).1.bytes (q.parseSubnet text).2.toNat
  back : ∀ (host : HostAddress) (bits : Nat), host ≠ .other → Masked host.bytes bits →
    q.parseSubnet (q.toText host ++ "/" ++ toString (bits : Int)) = (host, (bits : Int))

structure RawPrefix.Holds (p : RawPrefix) (x : List (BitVec 8)) : Prop where
  known : 0 ≤ p.bits
  family : x.length = p.addr.length
  agree : Agree p.bits.toNat x p.addr

/-- A prefix that was read: of a family, and masked. -/
structure RawPrefix.Proper (p : RawPrefix) : Prop where
  family : p.addr.length = 4 ∨ p.addr.length = 16
  masked : Masked p.addr p.bits.toNat

theorem HostAddress.length_bytes {host : HostAddress} (h : host ≠ .other) : host.bytes.length = 4 ∨
    host.bytes.length = 16 := by
  cases host with
  | other => exact absurd rfl h
  | v4 a => exact .inl (by simp [bytes])
  | v6 c => exact .inr (by simp [bytes])

theorem bytes_four (a b c d : BitVec 8) : (prefixHost [a, b, c, d]).bytes = [a, b, c, d] := by
  have hbyte : ∀ x y : BitVec 8, (∀ i < 8, x.getLsbD i = y.getLsbD i) → x = y :=
    fun x y h => BitVec.eq_of_getLsbD_eq fun i hi => h i hi
  simp only [prefixHost, HostAddress.bytes, length_cons, length_nil, if_pos, range, range.loop, map_cons,
    map_nil, foldl_cons, foldl_nil, cons.injEq, and_true]
  refine ⟨hbyte _ _ fun i hi => ?_, hbyte _ _ fun i hi => ?_, hbyte _ _ fun i hi => ?_, hbyte _ _ fun i hi => ?_⟩
  all_goals interval_cases i <;> simp

/-- Four or sixteen bytes are those of their address. -/
theorem bytes_prefixHost {addr : List (BitVec 8)} (h : addr.length = 4 ∨ addr.length = 16) :
    prefixHost addr ≠ .other ∧ (prefixHost addr).bytes = addr := by
  rcases h with h | h
  · match addr, h with
    | [a, b, c, d], _ => exact ⟨by simp [prefixHost], bytes_four a b c d⟩
  rw [prefixHost, if_neg (by omega)]
  refine ⟨by simp, ext_getElem (by simp [HostAddress.bytes, h]) fun i _ hi => ?_⟩
  simp [HostAddress.bytes, getElem?_eq_getElem hi]

theorem parsePrefix_of {q : AddressText} {text : String} (hbits : 0 ≤ (q.parseSubnet text).2)
    (hother : (q.parseSubnet text).1 ≠ .other) :
    parsePrefix q text = { addr := (q.parseSubnet text).1.bytes, bits := (q.parseSubnet text).2 } := by
  rw [parsePrefix, if_neg (by omega)]
  split
  · next hc => exact absurd hc hother
  · rfl

section

variable {q : AddressText} (hq : q.Sound)
include hq

theorem parsePrefix_proper {text : String} (h : 0 ≤ (parsePrefix q text).bits) : (parsePrefix q text).Proper := by
  by_cases hread : 0 ≤ (q.parseSubnet text).2 ∧ (q.parseSubnet text).1 ≠ .other
  · rw [parsePrefix_of hread.1 hread.2]
    exact ⟨HostAddress.length_bytes hread.2, hq.masked text hread.1 hread.2⟩
  exfalso
  rw [parsePrefix] at h
  split at h
  · cases h
  split at h
  · cases h
  · next hother => exact hread ⟨by omega, fun hc => hother hc⟩

theorem parsePrefix_toString {p : RawPrefix} (h : p.Proper) (hbits : 0 ≤ p.bits) :
    parsePrefix q (prefixToString q p) = p := by
  obtain ⟨hother, hbytes⟩ := bytes_prefixHost h.family
  have hback := hq.back (prefixHost p.addr) p.bits.toNat hother (by rw [hbytes]; exact h.masked)
  rw [Int.toNat_of_nonneg hbits, ← prefixToString] at hback
  rw [parsePrefix_of (by rw [hback]; exact hbits) (by rw [hback]; exact hother), hback, hbytes]

end

theorem prefixContains_iff {outer inner : RawPrefix} (h : outer.bits.toNat ≤ 8 * outer.addr.length) :
    prefixContains outer inner = true ↔ 0 ≤ outer.bits ∧ outer.bits ≤ inner.bits ∧
      outer.addr.length = inner.addr.length ∧
      Agree outer.bits.toNat outer.addr inner.addr := by
  rw [prefixContains]
  by_cases hknown : outer.bits < 0 ∨ inner.bits < 0
  · rw [if_pos hknown]
    exact iff_of_false (by simp) fun h => by omega
  rw [if_neg hknown]
  by_cases hfamily : outer.addr.length ≠ inner.addr.length ∨ inner.bits < outer.bits
  · rw [if_pos hfamily]
    refine iff_of_false (by simp) ?_
    rintro ⟨-, hle, hlength, -⟩
    rcases hfamily with hne | hlt
    · exact hne hlength
    · omega
  rw [if_neg hfamily]
  have hlength : outer.addr.length = inner.addr.length := by_contra fun hne => hfamily (.inl hne)
  have hle : 0 ≤ outer.bits ∧ outer.bits ≤ inner.bits := by omega
  have hagree := agree_iff (w := outer.bits.toNat / 8) (r := outer.bits.toNat % 8) (by omega) hlength (by omega)
  rw [show 8 * (outer.bits.toNat / 8) + outer.bits.toNat % 8 = outer.bits.toNat by omega] at hagree
  simp only [hle, hlength, true_and, ← hagree]
  by_cases hwhole : outer.addr.take (outer.bits.toNat / 8) = inner.addr.take (outer.bits.toNat / 8)
  · rw [if_neg (not_not.mpr hwhole)]
    by_cases hrest : outer.bits.toNat % 8 = 0
    · simp [hrest, hwhole]
    · rw [if_neg hrest, beq_iff_eq]
      exact ⟨fun h => ⟨hwhole, h⟩, fun h => h.2⟩
  · rw [if_pos hwhole]
    exact iff_of_false (by simp) fun h => hwhole h.1

/-! ## What is cut out -/

theorem sibling_proper {cut : RawPrefix} (h : cut.Proper) {k : Nat} (hk : k < cut.bits.toNat) :
    (sibling cut (k + 1)).Proper := by
  have hlength : (sibling cut (k + 1)).addr.length = cut.addr.length := by
    rw [sibling, length_clearFrom, flipBit, length_modify]
  have hle := h.masked.le
  refine ⟨by rw [hlength]; exact h.family, ?_, fun i hi => ?_⟩
  · rw [hlength]
    show k + 1 ≤ _
    omega
  · have hi : k + 1 ≤ i := hi
    rw [sibling, bitAt_clearFrom, decide_eq_false (by omega), Bool.and_false]

/-- The addresses that first differ from the hole in the last bit of the sibling. -/
theorem holds_sibling {cut : RawPrefix} (h : cut.Proper) {k : Nat} (hk : k < cut.bits.toNat) (x : List (BitVec 8)) :
    (sibling cut (k + 1)).Holds x ↔ x.length = cut.addr.length ∧ Agree k x cut.addr ∧ bitAt x k ≠ bitAt cut.addr k := by
  have hle := h.masked.le
  have hbit : ∀ i < k + 1, bitAt (sibling cut (k + 1)).addr i =
    if i = k then !bitAt cut.addr i else bitAt cut.addr i := by
    intro i hi
    rw [sibling, bitAt_clearFrom, decide_eq_true hi, Bool.and_true, Nat.add_sub_cancel, bitAt_flipBit (by omega)]
  have hlength : (sibling cut (k + 1)).addr.length = cut.addr.length := by
    rw [sibling, length_clearFrom, flipBit, length_modify]
  constructor
  · rintro ⟨-, hfamily, hagree⟩
    refine ⟨hfamily.trans hlength, fun i hi => ?_, ?_⟩
    · have hsame := hagree i (show i < k + 1 by omega)
      rwa [hbit i (by omega), if_neg (by omega)] at hsame
    have hsame := hagree k (show k < k + 1 by omega)
    rw [hbit k (by omega), if_pos rfl] at hsame
    rw [hsame]
    exact Bool.not_ne_self _
  · rintro ⟨hfamily, hagree, hlast⟩
    refine ⟨Int.natCast_nonneg _, hfamily.trans hlength.symm, fun i hi => ?_⟩
    have hi : i < k + 1 := hi
    rw [hbit i hi]
    by_cases hik : i = k
    · rw [if_pos hik, hik]
      exact Bool.eq_not_of_ne hlast
    · rw [if_neg hik]
      exact hagree i (by omega)

/-- Two prefixes without a common address. -/
def Apart (p r : RawPrefix) : Prop := ∀ x, ¬(p.Holds x ∧ r.Holds x)

theorem contains_of_common {p r : RawPrefix} (hp : p.Proper) (hr : r.Proper) {x : List (BitVec 8)}
    (hpx : p.Holds x) (hrx : r.Holds x) :
    prefixContains p r = true ∨ prefixContains r p = true := by
  rw [prefixContains_iff hp.masked.le, prefixContains_iff hr.masked.le]
  have hknown := hpx.known
  have hknown' := hrx.known
  have hfamily := hpx.family.symm.trans hrx.family
  rcases le_total p.bits r.bits with hle | hle
  · exact .inl ⟨hknown, hle, hfamily, hpx.agree.symm.trans (hrx.agree.mono (by omega))⟩
  · exact .inr ⟨hknown', hle, hfamily.symm, hrx.agree.symm.trans (hpx.agree.mono (by omega))⟩

section

variable {q : AddressText} (hq : q.Sound) {cut : RawPrefix} (hcut : cut.Proper)
include hq hcut

theorem parsePrefix_sibling {k : Nat} (hk : k < cut.bits.toNat) :
    parsePrefix q (prefixToString q (sibling cut (k + 1))) = sibling cut (k + 1) :=
  parsePrefix_toString hq (sibling_proper hcut hk) (Int.natCast_nonneg _)

theorem piece_cases {entry piece : String} (h : piece ∈ cutEntry q cut entry) :
    piece = entry ∨ ∃ p : RawPrefix, p.Proper ∧ 0 ≤ p.bits ∧ piece = prefixToString q p ∧ parsePrefix q piece = p := by
  rw [cutEntry] at h
  split at h
  · cases h
  split at h
  · exact .inl (mem_singleton.mp h)
  obtain ⟨bits, hbits, rfl⟩ := mem_map.mp h
  rw [mem_range'_1] at hbits
  obtain ⟨k, rfl⟩ : ∃ k, bits = k + 1 := ⟨bits - 1, by omega⟩
  exact .inr ⟨_, sibling_proper hcut (by omega), Int.natCast_nonneg _, rfl, parsePrefix_sibling hq hcut (by omega)⟩

theorem unread_cutEntry (entry : String) :
    (cutEntry q cut entry).filter (fun t => (parsePrefix q t).bits < 0) =
      [entry].filter fun t => (parsePrefix q t).bits < 0 := by
  by_cases hentry : (parsePrefix q entry).bits < 0
  · have hout : prefixContains cut (parsePrefix q entry) = false ∧ prefixContains (parsePrefix q entry) cut = false := by
      rw [prefixContains, if_pos (.inr hentry), prefixContains, if_pos (.inl hentry)]
      exact ⟨rfl, rfl⟩
    rw [cutEntry, if_neg (by simp [hout.1]), if_pos (by simp [hout.2])]
  · rw [filter_cons_of_neg (by simpa using hentry), filter_nil, filter_eq_nil_iff]
    intro piece hpiece
    rw [decide_eq_true_eq]
    rcases piece_cases hq hcut hpiece with rfl | ⟨p, -, hbits, -, hread⟩
    · exact hentry
    · rw [hread]
      omega

theorem pieces_apart (entry : String) :
    (cutEntry q cut entry).Pairwise fun s t => Apart (parsePrefix q s) (parsePrefix q t) := by
  rw [cutEntry]
  split
  · exact Pairwise.nil
  split
  · exact pairwise_singleton _ _
  rw [pairwise_map]
  refine Pairwise.imp_of_mem (fun {a b} ha hb hlt => ?_) pairwise_lt_range'
  rw [mem_range'_1] at ha hb
  obtain ⟨j, rfl⟩ : ∃ j, a = j + 1 := ⟨a - 1, by omega⟩
  obtain ⟨k, rfl⟩ : ∃ k, b = k + 1 := ⟨b - 1, by omega⟩
  rw [parsePrefix_sibling hq hcut (by omega), parsePrefix_sibling hq hcut (by omega)]
  rintro x ⟨hfirst, hsecond⟩
  rw [holds_sibling hcut (by omega)] at hfirst hsecond
  exact hfirst.2.2 (hsecond.2.1 j (by omega))

variable (hknown : 0 ≤ cut.bits)
include hknown

/-- The pieces of a range have its addresses without those of the hole. -/
theorem holds_cutEntry (entry : String) (x : List (BitVec 8)) :
    (∃ t ∈ cutEntry q cut entry, (parsePrefix q t).Holds x) ↔ (parsePrefix q entry).Holds x ∧ ¬cut.Holds x := by
  have hproper : (parsePrefix q entry).Holds x → (parsePrefix q entry).Proper := fun h => parsePrefix_proper hq h.known
  rw [cutEntry]
  by_cases hinside : prefixContains cut (parsePrefix q entry) = true
  · obtain ⟨-, hle, hfamily, hagree⟩ := (prefixContains_iff hcut.masked.le).mp hinside
    rw [if_pos hinside]
    refine iff_of_false (by simp) fun ⟨hentry, hout⟩ => hout ⟨hknown, hentry.family.trans hfamily.symm, ?_⟩
    have hle' : cut.bits.toNat ≤ (parsePrefix q entry).bits.toNat := by omega
    exact (hentry.agree.mono hle').trans hagree.symm
  rw [if_neg hinside]
  by_cases haround : prefixContains (parsePrefix q entry) cut = true
  · have hentry : 0 ≤ (parsePrefix q entry).bits := by
      by_contra hneg
      rw [prefixContains, if_pos (.inl (by omega))] at haround
      cases haround
    have hrange := parsePrefix_proper hq hentry
    obtain ⟨-, hle, hfamily, hagree⟩ := (prefixContains_iff hrange.masked.le).mp haround
    rw [if_neg (by simp [haround])]
    have hhole : cut.Holds x ↔ x.length = cut.addr.length ∧ Agree cut.bits.toNat x cut.addr :=
      ⟨fun h => ⟨h.family, h.agree⟩, fun h => ⟨hknown, h.1, h.2⟩⟩
    have houter : (parsePrefix q entry).Holds x ↔
        x.length = cut.addr.length ∧ Agree (parsePrefix q entry).bits.toNat x cut.addr :=
      ⟨fun h => ⟨h.family.trans hfamily, h.agree.trans hagree⟩,
       fun h => ⟨hentry, h.1.trans hfamily.symm, h.2.trans hagree.symm⟩⟩
    rw [hhole, houter]
    constructor
    · rintro ⟨t, ht, hholds⟩
      obtain ⟨bits, hbits, rfl⟩ := mem_map.mp ht
      rw [mem_range'_1] at hbits
      obtain ⟨k, rfl⟩ : ∃ k, bits = k + 1 := ⟨bits - 1, by omega⟩
      rw [parsePrefix_sibling hq hcut (by omega), holds_sibling hcut (by omega)] at hholds
      obtain ⟨hlength, hsame, hlast⟩ := hholds
      exact ⟨⟨hlength, hsame.mono (by omega)⟩, fun h => hlast (h.2 k (by omega))⟩
    · rintro ⟨⟨hlength, hsame⟩, hout⟩
      obtain ⟨k, hfrom, hto, hfirst, hlast⟩ := (first_difference hsame).mp fun h => hout ⟨hlength, h⟩
      refine ⟨_, mem_map_of_mem (mem_range'_1.mpr (show _ ≤ k + 1 ∧ k + 1 < _ by omega)), ?_⟩
      rw [parsePrefix_sibling hq hcut hto, holds_sibling hcut hto]
      exact ⟨hlength, hfirst, hlast⟩
  · rw [if_pos (by simpa using haround)]
    simp only [mem_singleton, exists_eq_left]
    refine ⟨fun hentry => ⟨hentry, fun hhole => ?_⟩, fun h => h.1⟩
    rcases contains_of_common hcut (hproper hentry) hhole hentry with h | h
    · exact hinside h
    · exact haround h

end

/-- What is left of the ranges without the hole. -/
structure Subtracted (q : AddressText) (ranges : List String) (hole : String) : Prop where
  union : ∀ x, (∃ t ∈ subtractPrefix q ranges hole, (parsePrefix q t).Holds x) ↔
    (∃ t ∈ ranges, (parsePrefix q t).Holds x) ∧ ¬(parsePrefix q hole).Holds x
  unread : (subtractPrefix q ranges hole).filter (fun t => (parsePrefix q t).bits < 0) =
    ranges.filter fun t => (parsePrefix q t).bits < 0
  pieces : subtractPrefix q ranges hole = ranges.flatMap (cutEntry q (parsePrefix q hole))
  masked : ∀ entry, ∀ piece ∈ cutEntry q (parsePrefix q hole) entry,
    piece = entry ∨ ∃ p : RawPrefix, p.Proper ∧ 0 ≤ p.bits ∧ piece = prefixToString q p ∧ parsePrefix q piece = p
  disjoint : ∀ entry, (cutEntry q (parsePrefix q hole) entry).Pairwise fun s t =>
    Apart (parsePrefix q s) (parsePrefix q t)
  clear : ∀ t ∈ subtractPrefix q ranges hole, Apart (parsePrefix q t) (parsePrefix q hole)

/-- **A hole in a list of ranges**: the pieces have all addresses but those of the hole, each once for its range. -/
theorem subtractPrefix_contract (q : AddressText) (hq : q.Sound) (ranges : List String) (hole : String)
    (hhole : 0 ≤ (parsePrefix q hole).bits) : Subtracted q ranges hole := by
  have hcut := parsePrefix_proper hq hhole
  have hpieces : subtractPrefix q ranges hole = ranges.flatMap (cutEntry q (parsePrefix q hole)) := by
    rw [subtractPrefix, if_neg (by omega)]
  have hunion : ∀ x, (∃ t ∈ subtractPrefix q ranges hole, (parsePrefix q t).Holds x) ↔
      (∃ t ∈ ranges, (parsePrefix q t).Holds x) ∧ ¬(parsePrefix q hole).Holds x := by
    intro x
    have hentry := fun entry => holds_cutEntry hq hcut hhole entry x
    rw [hpieces]
    constructor
    · rintro ⟨t, ht, hholds⟩
      obtain ⟨entry, hmem, ht⟩ := mem_flatMap.mp ht
      obtain ⟨hin, hout⟩ := (hentry entry).mp ⟨t, ht, hholds⟩
      exact ⟨⟨entry, hmem, hin⟩, hout⟩
    · rintro ⟨⟨entry, hmem, hin⟩, hout⟩
      obtain ⟨t, ht, hholds⟩ := (hentry entry).mpr ⟨hin, hout⟩
      exact ⟨t, mem_flatMap.mpr ⟨entry, hmem, ht⟩, hholds⟩
  refine ⟨hunion, ?_, hpieces, fun entry piece h => piece_cases hq hcut h, pieces_apart hq hcut, ?_⟩
  · rw [hpieces, filter_flatMap]
    clear hunion hpieces
    induction ranges with
    | nil => rfl
    | cons entry ranges ih => rw [flatMap_cons, ih, unread_cutEntry hq hcut, ← filter_append, singleton_append]
  · exact fun t ht x ⟨hpiece, hx⟩ => ((hunion x).mp ⟨t, ht, hpiece⟩).2 hx

/-! ## A private network -/

/-- Bytes as one number. -/
def joined (bytes : List (BitVec 8)) : Nat := bytes.foldl (fun n b => n * 256 + b.toNat) 0

variable (bytes : List (BitVec 8))

theorem joined_concat (b : BitVec 8) : joined (bytes ++ [b]) = joined bytes * 256 + b.toNat := by
  rw [joined, foldl_append]
  rfl

theorem joined_lt : joined bytes < 256 ^ bytes.length := by
  induction bytes using reverseRecOn with
  | nil => decide
  | append_singleton bytes b ih =>
    rw [joined_concat, List.length_append, List.length_singleton, pow_succ]
    omega

theorem byte_joined {j : Nat} (hj : j < bytes.length) :
    BitVec.ofNat 8 (joined bytes / 256 ^ (bytes.length - 1 - j)) = bytes.getD j 0 := by
  induction bytes using reverseRecOn with
  | nil => cases hj
  | append_singleton bytes b ih =>
    rw [List.length_append, List.length_singleton] at hj
    rw [joined_concat, List.length_append, List.length_singleton]
    rcases lt_or_ge j bytes.length with hlt | hge
    · rw [getD_append _ _ _ _ hlt, ← ih hlt,
        show bytes.length + 1 - 1 - j = bytes.length - 1 - j + 1 by omega, pow_succ',
        ← Nat.div_div_eq_div_mul, show (joined bytes * 256 + b.toNat) / 256 = joined bytes by omega]
    obtain rfl : j = bytes.length := by omega
    rw [getD_append_right _ _ _ _ (.refl), show bytes.length + 1 - 1 - bytes.length = 0 by omega, pow_zero,
      Nat.div_one, Nat.sub_self]
    refine BitVec.eq_of_toNat_eq ?_
    simp only [BitVec.toNat_ofNat, getD_cons_zero]
    omega

def words : HostAddress → Scan.IpListParseAddr
  | .other => { v6 := false, hi := 0, lo := 0 }
  | .v4 a => { v6 := false, hi := 0, lo := a.toNat }
  | .v6 c => { v6 := true, hi := joined (c.toList.take 8), lo := joined (c.toList.drop 8) }

def hostOf (addr : Scan.IpListParseAddr) : HostAddress :=
  if addr.v6 then .v6 (Vector.ofFn fun i =>
    BitVec.ofNat 8 (if i.val < 8 then addr.hi / 256 ^ (7 - i.val) else addr.lo / 256 ^ (15 - i.val)))
  else .v4 (BitVec.ofNat 32 addr.lo)

theorem hostOf_words {host : HostAddress} (h : host ≠ .other) : hostOf (words host) = host := by
  cases host with
  | other => exact absurd rfl h
  | v4 a => simp [words, hostOf]
  | v6 bytes =>
    refine congrArg HostAddress.v6 (Vector.ext fun i hi => ?_)
    rw [Vector.getElem_ofFn]
    have hlist : bytes[i] = bytes.toList.getD i 0 := by
      rw [getD_eq_getElem _ _ (by simpa using hi), Vector.getElem_toList]
    dsimp only [words]
    split
    · next hlow =>
      have hbyte := byte_joined (bytes.toList.take 8) (j := i) (by simpa using hlow)
      rw [show (bytes.toList.take 8).length - 1 - i = 7 - i by simp] at hbyte
      rw [hbyte, hlist, getD_eq_getElem?_getD, getD_eq_getElem?_getD, getElem?_take_of_lt hlow]
    · next hhigh =>
      have hbyte := byte_joined (bytes.toList.drop 8) (j := i - 8) (by simp; omega)
      rw [show (bytes.toList.drop 8).length - 1 - (i - 8) = 15 - i by simp; omega] at hbyte
      rw [hbyte, hlist, getD_eq_getElem?_getD, getD_eq_getElem?_getD, getElem?_drop, show 8 + (i - 8) = i by omega]

theorem words_valid (host : HostAddress) : (words host).Valid := by
  cases host with
  | other => exact ⟨by decide, by decide, fun _ => by decide⟩
  | v4 a =>
    have hlt := a.isLt
    exact ⟨by simp [words], by simp only [words]; omega, fun _ => ⟨rfl, hlt⟩⟩
  | v6 c =>
    have hhi := joined_lt (c.toList.take 8)
    have hlo := joined_lt (c.toList.drop 8)
    rw [show (c.toList.take 8).length = 8 by simp] at hhi
    rw [show (c.toList.drop 8).length = 8 by simp] at hlo
    exact ⟨hhi, hlo, fun h => by cases h⟩

theorem prefixHost_bytes {host : HostAddress} (h : host ≠ .other) : prefixHost host.bytes = host := by
  cases host with
  | other => exact absurd rfl h
  | v4 a =>
    simp only [prefixHost, HostAddress.bytes, range, range.loop, map_cons, map_nil, length_cons,
      length_nil, if_pos, foldl_cons, foldl_nil, HostAddress.v4.injEq]
    refine BitVec.eq_of_getLsbD_eq fun i hi => ?_
    interval_cases i <;> simp
  | v6 c =>
    have hlength : c.toList.length ≠ 4 := by simp
    rw [prefixHost, HostAddress.bytes, if_neg hlength]
    simp

/-- Canonical texts, and addresses with what is after the length cleared. -/
def sampleText : AddressText where
  parseSubnet text :=
    match cut '/' text.toList with
    | none => (.other, -1)
    | some (address, digits) =>
      match Scan.ipListParseAddress address, Scan.ipListParseDecimal digits 3 with
      | some addr, some bits =>
        if bits ≤ 8 * (hostOf addr).bytes.length then (prefixHost (clearFrom (hostOf addr).bytes bits), bits) else (.other, -1)
      | _, _ => (.other, -1)
  toText host := ofList (Scan.ipListParseFormat (words host))

theorem hostOf_ne_other (addr : Scan.IpListParseAddr) : hostOf addr ≠ .other := by
  rw [hostOf]
  split <;> simp

theorem sampleText_sound : sampleText.Sound where
  masked text hbits hother := by
    revert hbits hother
    dsimp only [sampleText]
    split
    · exact by simp
    split
    · next addr bits _ _ =>
      split
      · next hle =>
        intro _ _
        have hlength := length_clearFrom (hostOf addr).bytes bits
        obtain ⟨-, hbytes⟩ := bytes_prefixHost (by rw [hlength]; exact HostAddress.length_bytes (hostOf_ne_other addr))
        rw [hbytes]
        refine ⟨by rw [hlength]; exact hle, fun i hi => ?_⟩
        rw [bitAt_clearFrom, decide_eq_false (by omega), Bool.and_false]
      · exact by simp
    · exact by simp
  back host bits hother hmasked := by
    have hlength := HostAddress.length_bytes hother
    have hcut : cut '/' (ofList (ipListParseFormat (words host)) ++ "/" ++ toString (bits : Int)).toList =
        some (ipListParseFormat (words host), toDigits 10 bits) := by
      have htext : (ofList (ipListParseFormat (words host)) ++ "/" ++ toString (bits : Int)).toList =
          ipListParseFormat (words host) ++ '/' :: toDigits 10 bits := by
        have hnumber : (toString (bits : Int)).toList = toDigits 10 bits := toList_ofList
        rw [toList_append, toList_append, toList_ofList, hnumber, List.append_assoc]
        rfl
      rw [htext, cut_append (slash_not_mem_format _)]
    have hdigits : ipListParseDecimal (toDigits 10 bits) 3 = some bits :=
      ipListParseDecimal_digits (by omega) (by have := hmasked.le; omega)
    have hsame : clearFrom host.bytes bits = host.bytes := by
      refine bytes_ext (length_clearFrom _ _) fun i => ?_
      rw [bitAt_clearFrom]
      by_cases hi : i < bits
      · rw [decide_eq_true hi, Bool.and_true]
      · rw [decide_eq_false hi, Bool.and_false, hmasked.rest i (by omega)]
    dsimp only [sampleText]
    rw [hcut]
    dsimp only
    rw [ipListParseAddress_format _ (words_valid host), hdigits]
    dsimp only
    rw [hostOf_words hother, if_pos hmasked.le, hsame, prefixHost_bytes hother]

theorem subtractPrefix_private : Subtracted sampleText ["10.0.0.0/8", "fc00::/7", "printer"] "10.128.0.0/10" :=
  subtractPrefix_contract sampleText sampleText_sound _ _ (by decide)

end Waterdisco.Config
