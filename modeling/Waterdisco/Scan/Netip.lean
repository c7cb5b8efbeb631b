import Waterdisco.Scan.IpListFormat
import Waterdisco.Scan.TargetsList

/-!
# Addresses as the core spells them

The text functions of `net/netip`, and the text a target comes back under: the
address the core prints, in the normal form of the lists.

    parseTargetPrefix (entryText a) is the one host a' with entryText a' = entryText a
                                                                (parseTargetPrefix_entryText)
-/

namespace Waterdisco.Scan

open Nat String Bool List Option Addr

/-- `strings.TrimSpace` and the text functions of `netip`, the zone dropped. -/
structure Netip where
  trimSpace : String → String
  parsePrefix : String → Option Prefix
  parseAddr : String → Option Addr
  string : Addr → String

def Netip.newTargets (netip : Netip) (spec : Spec) : Targets :=
  Scan.newTargets netip.trimSpace netip.parsePrefix netip.parseAddr spec

/-! ## `net/netip` -/

def addrFrom4 (v4 : Nat) : Addr where
  is4 := true
  value := v4 % 2 ^ 32
  lt := Nat.mod_lt _ (Nat.two_pow_pos 32)

def addrFrom16 (words : Nat × Nat) : Addr where
  is4 := false
  value := (words.1 * 2 ^ 64 + words.2) % 2 ^ 128
  lt := Nat.mod_lt _ (Nat.two_pow_pos 128)

/-- The address and whether it has a zone.  The forms of both families are those of
`ipListParseV4` and `ipListParseV6`. -/
def netipParseAddr (text : List Char) : Option (Addr × Bool) :=
  match text.find? (fun c => c == '.' || c == ':' || c == '%') with
  | some '.' => (ipListParseV4 text).map (fun v4 => (addrFrom4 v4, false))
  | some ':' =>
    match cut '%' text with
    | none => (ipListParseV6 text).map (fun words => (addrFrom16 words, false))
    | some (address, zone) =>
      if zone = [] then none else (ipListParseV6 address).map (fun words => (addrFrom16 words, true))
  | _ => none

/-- The bits after the slash: decimal, without a sign or a leading zero. -/
def netipParseBits (text : List Char) : Option Nat :=
  if text = [] ∨ 1 < text.length ∧ text.head? = some '0' then none else readDigits 10 decimalDigit text

def netipParsePrefix (text : List Char) : Option Prefix :=
  match cut '/' text.reverse with
  | none => none
  | some (bits, address) =>
    match netipParseAddr address.reverse, netipParseBits bits.reverse with
    | some (addr, false), some bits => if h : bits ≤ addr.bitLen then some ⟨addr, bits, h⟩ else none
    | _, _ => none

def Addr.words (a : Addr) : IpListParseAddr :=
  if a.is4 then { v6 := false, hi := 0, lo := a.value }
  else { v6 := true, hi := a.value / 2 ^ 64, lo := a.value % 2 ^ 64 }

def netipString (a : Addr) : List Char :=
  if a.is4In6 then formatMapped (a.value % 2 ^ 32) else ipListParseFormat a.words

/-- The functions of the Go library. -/
def goNetip : Netip where
  trimSpace text := ofList (trimmed text.toList)
  parsePrefix text := netipParsePrefix text.toList
  parseAddr text := (netipParseAddr text.toList).map Prod.fst
  string a := ofList (netipString a)

/-! ## The text of a target -/

/-- The address of `scanWorkerEntry`. -/
def entryText (netip : Netip) (a : Addr) : String :=
  if normalizeCidr (netip.string a) = "" then netip.string a else normalizeCidr (netip.string a)

/-- The IPv4 address a mapped one stands for, any other as it is. -/
def Addr.unmapped (a : Addr) : Addr := if a.is4In6 then a.unmap else a

variable (a : Addr) (addr : IpListParseAddr)

theorem Addr.words_valid : a.words.Valid := by
  have hlt := a.lt
  unfold words
  cases h4 : a.is4 with
  | true =>
    rw [h4] at hlt
    simp only [if_true] at hlt ⊢
    exact ⟨by simp, by simp only; omega, fun _ => ⟨rfl, hlt⟩⟩
  | false =>
    rw [h4] at hlt
    simp only [false_eq_true, if_false] at hlt ⊢
    exact ⟨by simp only; omega, by simp only; omega, by simp⟩

theorem Addr.words_mapped : ipListParseIsMapped a.words = a.is4In6 := by
  unfold ipListParseIsMapped words is4In6
  cases h4 : a.is4 with
  | true => simp
  | false =>
    simp only [Bool.false_eq_true, if_false, Bool.true_and, Bool.not_false]
    rw [Bool.eq_iff_iff]
    simp only [and_eq_true, beq_iff_eq]
    omega

theorem Addr.unmapped_not_mapped : a.unmapped.is4In6 = false := by
  unfold unmapped
  cases h : a.is4In6 with
  | true => simp [unmap, is4In6]
  | false => simpa using h

theorem Addr.unmapped_unmapped : a.unmapped.unmapped = a.unmapped := by
  rw [unmapped, if_neg (by simp [unmapped_not_mapped])]

theorem format_ne_nil : ipListParseFormat addr ≠ [] := by
  unfold ipListParseFormat
  split
  · exact ne_nil_of_mem (colon_mem_formatV6 _ _)
  · exact ne_nil_of_mem (dot_mem_formatV4 _)

/-- The normal form of what the core prints is the address without the mapping. -/
theorem normalizeCidr_string :
    normalizeCidr (goNetip.string a) = ofList (ipListParseFormat a.unmapped.words) := by
  show normalizeCidr (ofList (netipString a)) = _
  unfold netipString unmapped
  cases h : a.is4In6 with
  | true =>
    simp only [if_true]
    rw [normalizeCidr_mapped (Nat.mod_lt _ (Nat.two_pow_pos 32))]
    rfl
  | false =>
    exact normalizeCidr_format a.words_valid (by rw [words_mapped]; exact h)

theorem entryText_eq :
    entryText goNetip a = ofList (ipListParseFormat a.unmapped.words) := by
  unfold entryText
  rw [normalizeCidr_string, if_neg]
  intro h
  have := congrArg String.toList h
  rw [toList_ofList] at this
  exact format_ne_nil _ this

/-- The text of a target stays the same when the target is read from it. -/
theorem entryText_unmapped : entryText goNetip a.unmapped = entryText goNetip a := by
  rw [entryText_eq, entryText_eq, unmapped_unmapped]

/-! ## Reading it back -/

theorem find?_of_only {p : Char → Bool} {text : List Char} {x : Char} (hx : x ∈ text) (hp : p x = true)
    (honly : ∀ c ∈ text, p c = true → c = x) : text.find? p = some x := by
  cases h : text.find? p with
  | none => exact absurd hp (find?_eq_none.mp h x hx)
  | some c => rw [honly c (mem_of_find?_eq_some h) (find?_some h)]

theorem addrFrom4_value {a : Addr} (h4 : a.is4 = true) : addrFrom4 a.value = a := by
  have hlt := a.lt
  rw [h4] at hlt
  exact eq_of_value h4.symm (mod_eq_of_lt hlt)

theorem addrFrom16_words {a : Addr} (h4 : a.is4 = false) : addrFrom16 (a.value / 2 ^ 64, a.value % 2 ^ 64) = a := by
  have hlt := a.lt
  rw [h4] at hlt
  simp only [false_eq_true, if_false] at hlt
  refine eq_of_value h4.symm ?_
  show (a.value / 2 ^ 64 * 2 ^ 64 + a.value % 2 ^ 64) % 2 ^ 128 = a.value
  omega

/-- The core reads the address it would print, mapped or not. -/
theorem netipParseAddr_format : netipParseAddr (ipListParseFormat a.words) = some (a, false) := by
  have hdigits : ∀ c ∈ addressChars.take 16, (c == '.' || c == ':' || c == '%') = false :=
      all_iff_forall_prop.mp (by decide)
  have hlt := a.lt
  unfold netipParseAddr ipListParseFormat words
  cases h4 : a.is4 with
  | true =>
    rw [h4] at hlt
    simp only [if_true, false_eq_true, if_false] at hlt ⊢
    rw [find?_of_only (dot_mem_formatV4 a.value) (by decide)]
    · simp only [ipListParseV4_format hlt, map_some, addrFrom4_value h4]
    intro c hc hp
    rcases mem_formatV4 hc with hc | rfl
    · rw [hdigits c hc] at hp
      cases hp
    · rfl
  | false =>
    rw [h4] at hlt
    simp only [false_eq_true, if_false, if_true] at hlt ⊢
    rw [find?_of_only (colon_mem_formatV6 _ _) (by decide)]
    · simp only [cut_eq_none (formatV6_not_mem (show '%' ∉ addressChars.take 16 by decide) (by decide)),
        ipListParseV6_format (show a.value / 2 ^ 64 < 2 ^ 64 by omega) (show a.value % 2 ^ 64 < 2 ^ 64 by omega),
        map_some, addrFrom16_words h4]
    intro c hc hp
    rcases mem_formatV6 hc with hc | rfl
    · rw [hdigits c hc] at hp
      cases hp
    · rfl

theorem trimmed_format : trimmed (ipListParseFormat addr) = ipListParseFormat addr :=
  trimmed_of_address (fun _ hc => mem_ipListParseFormat hc)

theorem netipParsePrefix_format : netipParsePrefix (ipListParseFormat addr) = none := by
  have hslash : '/' ∉ (ipListParseFormat addr).reverse := by
    intro hc
    exact absurd (mem_ipListParseFormat (mem_reverse.mp hc)) (by decide)
  rw [netipParsePrefix, cut_eq_none hslash]

theorem Addr.allBits_le (a : Addr) : a.bitLen ≤ a.bitLen := .refl

def Addr.host (a : Addr) : Prefix := ⟨a, a.bitLen, a.allBits_le⟩

theorem host_masked : a.host.masked = a.host := by
  have hbits : a.host.hostBits = 0 := Nat.sub_self _
  unfold Prefix.masked
  simp only [hbits, Nat.pow_zero, Nat.div_one, Nat.mul_one]

theorem host_contains {a b : Addr} (h : a.host.Contains b) : b = a := by
  have hbits : a.host.hostBits = 0 := Nat.sub_self _
  obtain ⟨h4, hv⟩ := h
  rw [hbits, Nat.pow_zero, Nat.div_one, Nat.div_one] at hv
  exact eq_of_value h4 hv

/-- **The core reads the text of a target as one host.** -/
theorem parseTargetPrefix_entryText :
    parseTargetPrefix goNetip.trimSpace goNetip.parsePrefix goNetip.parseAddr (entryText goNetip a) =
      some a.unmapped.host := by
  have hunmapped : a.unmapped.host.unmapped = a.unmapped.host := by
    rw [Prefix.unmapped, if_neg]
    rintro ⟨h, -⟩
    have hnot : a.unmapped.host.addr.is4In6 = false := a.unmapped_not_mapped
    rw [hnot] at h
    cases h
  rw [entryText_eq]
  simp only [parseTargetPrefix, parsePrefixOrAddr, goNetip, toList_ofList, trimmed_format,
    netipParsePrefix_format, netipParseAddr_format, map_some]
  show some a.unmapped.host.unmapped.masked = some a.unmapped.host
  rw [hunmapped, host_masked]

end Waterdisco.Scan
