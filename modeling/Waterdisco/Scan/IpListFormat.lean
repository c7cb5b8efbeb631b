import Mathlib.Data.Bool.AllAny
import Mathlib.Data.List.TakeWhile
import Mathlib.Tactic.IntervalCases
import Waterdisco.Scan.IpListParse

/-!
# What is printed is read back

    ipListParseAddress (ipListParseFormat a) = some a          (ipListParseAddress_format)
    normalizeCidr of a printed address is that address         (normalizeCidr_format)
    normalizeCidr of a mapped address is the IPv4 one          (normalizeCidr_mapped)
-/

namespace Waterdisco.Scan

open List Option String Nat

/-- The words fit their type, and an IPv4 address its 32 bits. -/
structure IpListParseAddr.Valid (addr : IpListParseAddr) : Prop where
  hi : addr.hi < 2 ^ 64
  lo : addr.lo < 2 ^ 64
  v4 : addr.v6 = false → addr.hi = 0 ∧ addr.lo < 2 ^ 32

/-! ## Digits -/

/-- The characters of a printed address. -/
def addressChars : List Char :=
  ['0', '1', '2', '3', '4', '5', '6', '7', '8', '9', 'a', 'b', 'c', 'd', 'e', 'f', ':', '.']

theorem digitChar_mem {d : Nat} (h : d < 16) : digitChar d ∈ addressChars.take 16 := by
  interval_cases d <;> decide

variable {base n v lo : Nat} {c : Char} {addr : IpListParseAddr} (d : Nat) (gs : List Nat)

theorem hexDigit_digitChar (h : d < 16) : ipListParseHexDigit (digitChar d) = some d := by
  interval_cases d <;> rfl

theorem mem_digits (hb : 1 < base) (hle : base ≤ 16) (h : c ∈ toDigits base n) :
    c ∈ addressChars.take 16 := by
  obtain ⟨d, hd, rfl⟩ := mem_toDigits hb h
  exact digitChar_mem (by omega)

theorem dot_not_mem (hb : 1 < base) (hle : base ≤ 16) : '.' ∉ toDigits base n :=
  fun h => absurd (mem_digits hb hle h) (by decide)

theorem colon_not_mem (hb : 1 < base) (hle : base ≤ 16) : ':' ∉ toDigits base n :=
  fun h => absurd (mem_digits hb hle h) (by decide)

/-! ## IPv4 -/

theorem ipListParseDecimal_digits {maxDigits : Nat} (hpos : 0 < maxDigits) (h : n < 10 ^ maxDigits) :
    ipListParseDecimal (toDigits 10 n) maxDigits = some n := by
  have hlen : (toDigits 10 n).length ≤ maxDigits := (length_toDigits_le_iff (by omega) hpos).mpr h
  unfold ipListParseDecimal
  rw [if_neg (by simp; omega)]
  exact readDigits_toDigits (by omega) decimalDigit_digitChar n

theorem ipListParseOctet_digits (h : n < 2 ^ 8) : ipListParseOctet (toDigits 10 n) = some n := by
  unfold ipListParseOctet
  rw [ipListParseDecimal_digits (by omega) (by omega)]
  have hlead : ¬ (1 < (toDigits 10 n).length ∧ (toDigits 10 n).head? = some '0') := by
    rintro ⟨hlen, hhead⟩
    have hzero := head_toDigits (by omega) hhead
    subst hzero
    simp at hlen
  simp only [if_neg (show ¬ 255 < n by omega), if_neg hlead]

theorem formatV4_eq (v : Nat) :
    formatV4 v = ['.'].intercalate [toDigits 10 (v / 2 ^ 24), toDigits 10 (v / 2 ^ 16 % 2 ^ 8),
      toDigits 10 (v / 2 ^ 8 % 2 ^ 8), toDigits 10 (v % 2 ^ 8)] := by
  simp [formatV4, List.intercalate]

theorem ipListParseV4_format (h : v < 2 ^ 32) : ipListParseV4 (formatV4 v) = some v := by
  have hdot : ∀ l ∈ [toDigits 10 (v / 2 ^ 24), toDigits 10 (v / 2 ^ 16 % 2 ^ 8),
      toDigits 10 (v / 2 ^ 8 % 2 ^ 8), toDigits 10 (v % 2 ^ 8)], '.' ∉ l := by
    intro l hl
    simp only [mem_cons, not_mem_nil, or_false] at hl
    rcases hl with rfl | rfl | rfl | rfl <;> exact dot_not_mem (by omega) (by omega)
  unfold ipListParseV4
  rw [formatV4_eq, splitOn_intercalate '.' hdot (by simp)]
  simp only [mapM_cons, mapM_nil]
  rw [ipListParseOctet_digits (show v / 2 ^ 24 < 2 ^ 8 by omega),
    ipListParseOctet_digits (show v / 2 ^ 16 % 2 ^ 8 < 2 ^ 8 by omega),
    ipListParseOctet_digits (show v / 2 ^ 8 % 2 ^ 8 < 2 ^ 8 by omega),
    ipListParseOctet_digits (show v % 2 ^ 8 < 2 ^ 8 by omega)]
  show some (((v / 2 ^ 24 * 2 ^ 8 + v / 2 ^ 16 % 2 ^ 8) * 2 ^ 8 + v / 2 ^ 8 % 2 ^ 8) * 2 ^ 8 + v % 2 ^ 8) = some v
  congr 1
  omega

theorem mem_formatV4 (h : c ∈ formatV4 v) : c ∈ addressChars.take 16 ∨ c = '.' := by
  simp only [formatV4, mem_append, mem_cons] at h
  rcases h with ((h | h | h) | h | h) | h | h
  all_goals first
    | exact .inr h
    | exact .inl (mem_digits (by omega) (by omega) h)

theorem formatV4_not_mem (h : c ∉ addressChars.take 16) (hdot : c ≠ '.') : c ∉ formatV4 v := by
  intro hc
  rcases mem_formatV4 hc with hc | hc
  · exact h hc
  · exact hdot hc

/-! ## Groups -/

def groupTexts (gs : List Nat) : List (List Char) := gs.map (toDigits 16)

theorem groupTexts_ok : ∀ l ∈ groupTexts gs, l ≠ [] ∧ ':' ∉ l := by
  intro l hl
  obtain ⟨g, -, rfl⟩ := mem_map.mp hl
  exact ⟨toDigits_ne_nil, colon_not_mem (by omega) (by omega)⟩

theorem mem_joinGroups {gs : List Nat} (h : c ∈ joinGroups (groupTexts gs)) :
    c ∈ addressChars.take 16 ∨ c = ':' := by
  cases gs with
  | nil => simp [groupTexts, joinGroups] at h
  | cons g gs =>
    simp only [groupTexts, List.map_cons, joinGroups, List.mem_append, List.mem_flatMap, List.mem_map,
      mem_cons] at h
    rcases h with h | ⟨l, ⟨g', -, rfl⟩, h | h⟩
    · exact .inl (mem_digits (by omega) (by omega) h)
    · exact .inr h
    · exact .inl (mem_digits (by omega) (by omega) h)

theorem ipListParseGroup_digits {g : Nat} (h : g < 2 ^ 16) : ipListParseGroup (toDigits 16 g) = some g := by
  have hlen : (toDigits 16 g).length ≤ 4 := (length_toDigits_le_iff (by omega) (by omega)).mpr h
  unfold ipListParseGroup
  rw [if_neg (by simp; omega)]
  exact readDigits_toDigits (by omega) hexDigit_digitChar g

theorem ipListParseV6Groups_texts (allowV4Tail : Bool) (gs : List Nat) (count : Nat) (hlt : ∀ g ∈ gs, g < 2 ^ 16)
    (hcount : count + gs.length ≤ 8) : ipListParseV6Groups allowV4Tail (groupTexts gs) count = some gs := by
  induction gs generalizing count with
  | nil => rfl
  | cons g gs ih =>
    rw [length_cons] at hcount
    have hrest := ih (count + 1) (fun x hx => hlt x (.tail _ hx)) (by omega)
    have hdot : '.' ∉ toDigits 16 g := dot_not_mem (by omega) (by omega)
    show ipListParseV6Groups allowV4Tail (toDigits 16 g :: groupTexts gs) count = some (g :: gs)
    rw [ipListParseV6Groups, if_neg (by simp [hdot]), if_neg (by omega),
      ipListParseGroup_digits (hlt g (by simp)), hrest]

theorem joinGroups_ne_nil {gs : List Nat} (h : gs ≠ []) : joinGroups (groupTexts gs) ≠ [] := by
  cases gs with
  | nil => exact absurd rfl h
  | cons g gs => simp [groupTexts, joinGroups]

theorem ipListParseV6Part_texts (allowV4Tail : Bool) (gs : List Nat) (hlt : ∀ g ∈ gs, g < 2 ^ 16)
    (hlen : gs.length ≤ 8) : ipListParseV6Part (joinGroups (groupTexts gs)) allowV4Tail = some gs := by
  unfold ipListParseV6Part
  by_cases hnil : gs = []
  · subst hnil
    rfl
  rw [if_neg (joinGroups_ne_nil hnil), joinGroups_eq_intercalate,
    splitOn_intercalate ':' (fun l hl => (groupTexts_ok gs l hl).2) (by simpa [groupTexts] using hnil)]
  exact ipListParseV6Groups_texts allowV4Tail gs 0 hlt (by omega)

/-! ## The run of zeros -/

/-- A run that was found is of two zeros or more, where it says. -/
def RunOk (groups : List Nat) (best : Option Nat × Nat) : Prop :=
  1 ≤ best.2 ∧ ∀ start, best.1 = some start →
    2 ≤ best.2 ∧ ∃ l r, groups = l ++ replicate best.2 0 ++ r ∧ l.length = start

theorem takeWhile_zeros :
    gs.takeWhile (fun g => g == 0) = replicate (gs.takeWhile (fun g => g == 0)).length 0 := by
  rw [eq_replicate_iff]
  refine ⟨rfl, ?_⟩
  intro g hg
  simpa using mem_takeWhile_imp hg

theorem bestRun_ok (groups : List Nat) (rest : List Nat) (done : List Nat) (skip : Nat) (best : Option Nat × Nat)
    (hsplit : groups = done ++ rest) (h : RunOk groups best) :
    RunOk groups (bestRun rest done.length skip best) := by
  induction rest generalizing done skip best with
  | nil => exact h
  | cons g rest ih =>
    have hsplit' : groups = (done ++ [g]) ++ rest := by simp [hsplit]
    have hlen : (done ++ [g]).length = done.length + 1 := by simp
    rw [bestRun]
    by_cases hskip : 0 < skip
    · rw [if_pos hskip, ← hlen]
      exact ih _ _ _ hsplit' h
    by_cases hg : g ≠ 0
    · rw [if_neg hskip, if_pos hg, ← hlen]
      exact ih _ _ _ hsplit' h
    rw [if_neg hskip, if_neg hg, ← hlen]
    refine ih _ _ _ hsplit' ?_
    by_cases hbetter : best.2 < ((g :: rest).takeWhile (fun g => g == 0)).length
    · rw [if_pos hbetter]
      refine ⟨by show 1 ≤ _; have := h.1; omega, ?_⟩
      intro start hstart
      simp only [some.injEq] at hstart
      refine ⟨by show 2 ≤ _; have := h.1; omega, done, (g :: rest).dropWhile (fun g => g == 0), ?_, hstart⟩
      rw [hsplit, ← takeWhile_zeros, List.append_assoc, List.takeWhile_append_dropWhile]
    · rw [if_neg hbetter]
      exact h

/-! ## Printed groups -/

/-- The text after the groups were printed in turn. -/
def printed (out : List Char) (gs : List Nat) : List Char :=
  gs.foldl (fun out g => withSeparator out ++ toDigits 16 g) out

theorem printGroups_plain (bestStart : Option Nat) (bestLength : Nat) (gs rest : List Nat) (i : Nat) (out : List Char)
    (h : ∀ j, bestStart = some j → j < i ∨ i + gs.length ≤ j) :
    printGroups bestStart bestLength (gs ++ rest) i 0 out =
      printGroups bestStart bestLength rest (i + gs.length) 0 (printed out gs) := by
  induction gs generalizing i out with
  | nil => rfl
  | cons g gs ih =>
    have hne : bestStart ≠ some i := by
      intro hi
      have := h i hi
      simp at this
    have hrest : ∀ j, bestStart = some j → j < i + 1 ∨ i + 1 + gs.length ≤ j := by
      intro j hj
      have := h j hj
      rw [length_cons] at this
      omega
    rw [cons_append, printGroups, if_neg (by omega), if_neg hne, ih _ _ hrest, length_cons]
    congr 1
    omega

theorem printGroups_skip (bestStart : Option Nat) (bestLength : Nat) (zs rest : List Nat) (i : Nat) (out : List Char) :
    printGroups bestStart bestLength (zs ++ rest) i zs.length out =
      printGroups bestStart bestLength rest (i + zs.length) 0 out := by
  induction zs generalizing i with
  | nil => rfl
  | cons z zs ih =>
    rw [cons_append, printGroups, if_pos (by simp), length_cons, Nat.add_sub_cancel, ih]
    congr 1
    omega

theorem printed_closed (out : List Char) (hne : out ≠ []) (hlast : out.getLast? ≠ some ':') :
    printed out gs = out ++ (groupTexts gs).flatMap (fun l => ':' :: l) := by
  induction gs generalizing out with
  | nil => simp [printed, groupTexts]
  | cons g gs ih =>
    have hsep : withSeparator out = out ++ [':'] := by
      unfold withSeparator
      rw [if_neg (by simp [hne, hlast])]
    have hlast' : (out ++ [':'] ++ toDigits 16 g).getLast? ≠ some ':' := by
      rw [getLast?_append_of_ne_nil _ toDigits_ne_nil]
      intro hc
      exact colon_not_mem (by omega) (by omega) (mem_of_getLast? hc)
    show printed (withSeparator out ++ toDigits 16 g) gs = _
    rw [hsep, ih _ (by simp) hlast']
    simp [groupTexts]

theorem printed_open (out : List Char) (h : out = [] ∨ out.getLast? = some ':') :
    printed out gs = out ++ joinGroups (groupTexts gs) := by
  cases gs with
  | nil => simp [printed, groupTexts, joinGroups]
  | cons g gs =>
    have hsep : withSeparator out = out := by
      unfold withSeparator
      rw [if_pos h]
    have hlast : (out ++ toDigits 16 g).getLast? ≠ some ':' := by
      rw [getLast?_append_of_ne_nil _ toDigits_ne_nil]
      intro hc
      exact colon_not_mem (by omega) (by omega) (mem_of_getLast? hc)
    show printed (withSeparator out ++ toDigits 16 g) gs = _
    rw [hsep, printed_closed gs _ (by simp) hlast]
    simp [groupTexts, joinGroups]

/-- Without a run the groups stand in turn. -/
theorem printGroups_none (bestLength : Nat) (gs : List Nat) :
    printGroups none bestLength gs 0 0 [] = joinGroups (groupTexts gs) := by
  have := printGroups_plain none bestLength gs [] 0 [] (by simp)
  rw [append_nil, printed_open _ _ (.inl rfl)] at this
  simpa [printGroups] using this

/-- With one, it stands as `::` between the groups before and after it. -/
theorem printGroups_some (n : Nat) (l r : List Nat) :
    printGroups (some l.length) (n + 1) (l ++ replicate (n + 1) 0 ++ r) 0 0 [] =
      joinGroups (groupTexts l) ++ ':' :: ':' :: joinGroups (groupTexts r) := by
  have hl := printGroups_plain (some l.length) (n + 1) l (replicate (n + 1) 0 ++ r) 0 [] (by
    intro j hj
    simp only [Option.some.injEq] at hj
    omega)
  have hskip := printGroups_skip (some l.length) (n + 1) (replicate n 0) r (l.length + 1)
    (joinGroups (groupTexts l) ++ [':', ':'])
  have hr := printGroups_plain (some l.length) (n + 1) r [] (l.length + 1 + n)
    (joinGroups (groupTexts l) ++ [':', ':']) (by
      intro j hj
      simp only [Option.some.injEq] at hj
      omega)
  rw [List.length_replicate] at hskip
  rw [List.append_nil, printed_open _ _ (.inr (by simp))] at hr
  rw [List.append_assoc, hl, printed_open _ _ (.inl rfl), List.nil_append, zero_add, List.replicate_succ,
    List.cons_append, printGroups, if_neg (by omega), if_pos rfl, Nat.add_sub_cancel, hskip, hr]
  simp [printGroups]

/-! ## IPv6 -/

/-- A printed address: its groups, with a run of zeros left out or without one. -/
theorem formatV6_eq (hi lo : Nat) :
    (formatV6 hi lo = joinGroups (groupTexts (addressGroups hi lo))) ∨
      ∃ l r n, addressGroups hi lo = l ++ replicate (n + 1) 0 ++ r ∧ 1 ≤ n ∧
        formatV6 hi lo = joinGroups (groupTexts l) ++ ':' :: ':' :: joinGroups (groupTexts r) := by
  have hok := bestRun_ok (addressGroups hi lo) (addressGroups hi lo) [] 0 (none, 1) rfl ⟨by simp, by simp⟩
  unfold formatV6
  simp only
  generalize bestRun (addressGroups hi lo) 0 0 (none, 1) = best at hok
  obtain ⟨start, len⟩ := best
  cases start with
  | none =>
    left
    exact printGroups_none len _
  | some start =>
    right
    obtain ⟨htwo, l, r, heq, hl⟩ := hok.2 start rfl
    obtain ⟨n, rfl⟩ : ∃ n, len = n + 1 := ⟨len - 1, by omega⟩
    refine ⟨l, r, n, heq, by omega, ?_⟩
    rw [heq, ← hl]
    exact printGroups_some n l r

theorem addressGroups_lt (hi lo : Nat) : ∀ g ∈ addressGroups hi lo, g < 2 ^ 16 := by
  intro g hg
  simp only [addressGroups, mem_cons, not_mem_nil, or_false] at hg
  omega

theorem groupsWords_addressGroups {hi : Nat} (hhi : hi < 2 ^ 64) (hlo : lo < 2 ^ 64) :
    groupsWords (addressGroups hi lo) = (hi, lo) := by
  simp only [groupsWords, addressGroups, take_succ_cons, take_zero, drop_succ_cons, drop_zero,
    foldl_cons, foldl_nil, Prod.mk.injEq]
  constructor <;> omega

theorem ipListParseV6_format {hi : Nat} (hhi : hi < 2 ^ 64) (hlo : lo < 2 ^ 64) :
    ipListParseV6 (formatV6 hi lo) = some (hi, lo) := by
  have hlt := addressGroups_lt hi lo
  have hlen : (addressGroups hi lo).length = 8 := rfl
  rw [← groupsWords_addressGroups hhi hlo]
  unfold ipListParseV6
  rcases formatV6_eq hi lo with h | ⟨l, r, n, hsplit, hn, h⟩
  · rw [h, splitGap_eq_none (groupTexts_ok _)]
    rw [ipListParseV6Part_texts true _ hlt (by omega)]
    simp only [hlen, if_true]
  · rw [hsplit] at hlt hlen ⊢
    simp only [List.length_append, List.length_replicate] at hlen
    have hl := ipListParseV6Part_texts false l (fun g hg => hlt g (by simp [hg])) (by omega)
    have hr := ipListParseV6Part_texts true r (fun g hg => hlt g (by simp [hg])) (by omega)
    rw [h, splitGap_append (groupTexts_ok _)]
    simp only [splitGap_after (groupTexts_ok r), isSome_none, Bool.false_eq_true, if_false, hl, hr]
    rw [if_neg (by omega), show 8 - l.length - r.length = n + 1 by omega]

theorem mem_formatV6 {hi : Nat} (h : c ∈ formatV6 hi lo) : c ∈ addressChars.take 16 ∨ c = ':' := by
  rcases formatV6_eq hi lo with heq | ⟨l, r, n, -, -, heq⟩
  · rw [heq] at h
    exact mem_joinGroups h
  rw [heq] at h
  simp only [mem_append, mem_cons] at h
  rcases h with h | h | h | h
  · exact mem_joinGroups h
  · exact .inr h
  · exact .inr h
  · exact mem_joinGroups h

theorem colon_mem_formatV6 (hi lo : Nat) : ':' ∈ formatV6 hi lo := by
  rcases formatV6_eq hi lo with heq | ⟨l, r, n, -, -, heq⟩
  · rw [heq]
    simp [addressGroups, groupTexts, joinGroups]
  · rw [heq]
    simp

theorem formatV6_not_mem {hi : Nat} (h : c ∉ addressChars.take 16) (hcolon : c ≠ ':') :
    c ∉ formatV6 hi lo := by
  intro hc
  rcases mem_formatV6 hc with hc | hc
  · exact h hc
  · exact hcolon hc

/-- **What is printed is read back.** -/
theorem ipListParseAddress_format (addr : IpListParseAddr) (h : addr.Valid) :
    ipListParseAddress (ipListParseFormat addr) = some addr := by
  unfold ipListParseAddress ipListParseFormat
  obtain ⟨v6, hi, lo⟩ := addr
  cases v6 with
  | true =>
    simp only [if_true]
    rw [if_pos (colon_mem_formatV6 hi lo), cut_eq_none (formatV6_not_mem (by decide) (by decide))]
    simp only [map_none, getD_none, ipListParseV6_format h.hi h.lo, map_some]
  | false =>
    obtain ⟨hhi, hlo⟩ := h.v4 rfl
    subst hhi
    simp only [Bool.false_eq_true, if_false]
    rw [if_neg (formatV4_not_mem (by decide) (by decide)), ipListParseV4_format hlo]
    rfl

/-! ## Single addresses -/

theorem trimmed_of_address {text : List Char} (h : ∀ c ∈ text, c ∈ addressChars) : trimmed text = text := by
  have hchar : ∀ c ∈ addressChars, isSpace c = false := all_iff_forall_prop.mp (by decide)
  exact trimmed_of_no_space fun c hc => hchar c (h c hc)

theorem networkParts_trimmed {text : List Char} (h : ∀ c ∈ text, c ∈ addressChars) :
    networkParts (trimmed text) = some (text, none) := by
  have hchar : ∀ c ∈ addressChars, c ≠ '[' ∧ c ≠ '/' := all_iff_forall_prop.mp (by decide)
  have hbody : networkBody text = some (text, []) := by
    unfold networkBody
    split
    · rename_i rest
      exact absurd rfl (hchar '[' (h '[' (by simp))).1
    · rfl
  have hslash : '/' ∉ text := fun hc => (hchar '/' (h '/' hc)).2 rfl
  rw [trimmed_of_address h, networkParts, hbody]
  simp [cut_eq_none hslash]

theorem mem_ipListParseFormat (h : c ∈ ipListParseFormat addr) :
    c ∈ addressChars := by
  have htake : ∀ c ∈ addressChars.take 16, c ∈ addressChars := all_iff_forall_prop.mp (by decide)
  unfold ipListParseFormat at h
  split at h
  · rcases mem_formatV6 h with h | rfl
    · exact htake c h
    · decide
  rcases mem_formatV4 h with h | rfl
  · exact htake c h
  · decide

theorem ipListParseMask_bits (h : addr.Valid) :
    ipListParseMask addr (ipListParseBits addr) = addr := by
  obtain ⟨v6, hi, lo⟩ := addr
  cases v6 with
  | true => simp [ipListParseMask, ipListParseBits]
  | false =>
    have hlo := (h.v4 rfl).2
    simp only [ipListParseMask, ipListParseBits, Bool.false_eq_true, if_false, if_true, Nat.sub_self,
      Nat.shiftLeft_zero, Nat.and_self]
    congr 1
    rw [show 0xffffffff = 2 ^ 32 - 1 from rfl, Nat.and_two_pow_sub_one_eq_mod]
    exact Nat.mod_eq_of_lt hlo

theorem normalizeCidr_format (h : addr.Valid) (hmapped : ipListParseIsMapped addr = false) :
    normalizeCidr (ofList (ipListParseFormat addr)) = ofList (ipListParseFormat addr) := by
  have hbits : ipListParseBits addr ≠ 0 := by
    unfold ipListParseBits
    split <;> omega
  unfold normalizeCidr ipListParseNetwork
  rw [toList_ofList, networkParts_trimmed (fun c hc => mem_ipListParseFormat hc)]
  simp only [ipListParseAddress_format addr h, networkLength, unmapNetwork, hmapped, Bool.false_eq_true, false_and,
    if_false, hbits, ipListParseMask_bits h, ipListParseCidr, le_refl, if_true]

/-! ## Mapped addresses -/

/-- A mapped address as it is printed with the IPv4 one in it. -/
def formatMapped (v : Nat) : List Char := [':', ':', 'f', 'f', 'f', 'f', ':'] ++ formatV4 v

theorem mem_formatMapped (h : c ∈ formatMapped v) : c ∈ addressChars := by
  have htake : ∀ c ∈ addressChars.take 16, c ∈ addressChars := all_iff_forall_prop.mp (by decide)
  have hhead : ∀ c ∈ [':', ':', 'f', 'f', 'f', 'f', ':'], c ∈ addressChars := all_iff_forall_prop.mp (by decide)
  rcases mem_append.mp h with h | h
  · exact hhead c h
  rcases mem_formatV4 h with h | rfl
  · exact htake c h
  · decide

theorem dot_mem_formatV4 (v : Nat) : '.' ∈ formatV4 v := by simp [formatV4]

theorem ipListParseV6_mapped (h : v < 2 ^ 32) :
    ipListParseV6 (formatMapped v) = some (0, 0xffff * 2 ^ 32 + v) := by
  have hcolon : ':' ∉ formatV4 v := formatV4_not_mem (by decide) (by decide)
  have hne : formatV4 v ≠ [] := ne_nil_of_mem (dot_mem_formatV4 v)
  have hgap : splitGap (formatMapped v) = some ([], 'f' :: 'f' :: 'f' :: 'f' :: ':' :: formatV4 v) := by
    simp [formatMapped, splitGap]
  have hok : ∀ l ∈ [['f', 'f', 'f', 'f'], formatV4 v], l ≠ [] ∧ ':' ∉ l := by
    intro l hl
    simp only [mem_cons, not_mem_nil, or_false] at hl
    rcases hl with rfl | rfl
    · decide
    · exact ⟨hne, hcolon⟩
  have hjoin : 'f' :: 'f' :: 'f' :: 'f' :: ':' :: formatV4 v = joinGroups [['f', 'f', 'f', 'f'], formatV4 v] := by
    simp [joinGroups]
  have hpart : ipListParseV6Part ('f' :: 'f' :: 'f' :: 'f' :: ':' :: formatV4 v) true =
      some [0xffff, v / 2 ^ 16, v % 2 ^ 16] := by
    unfold ipListParseV6Part
    rw [if_neg (by simp), hjoin, joinGroups_eq_intercalate,
      splitOn_intercalate ':' (fun l hl => (hok l hl).2) (by simp)]
    simp only [ipListParseV6Groups, dot_mem_formatV4, ipListParseV4_format h]
    rfl
  unfold ipListParseV6
  rw [hgap]
  simp only
  rw [hjoin, splitGap_after hok, ← hjoin, hpart]
  simp only [ipListParseV6Part, isSome_none, Bool.false_eq_true, if_false, if_true, length_cons,
    length_nil]
  show some (groupsWords [0, 0, 0, 0, 0, 0xffff, v / 2 ^ 16, v % 2 ^ 16]) = _
  simp only [groupsWords, take_succ_cons, take_zero, drop_succ_cons, drop_zero, foldl_cons,
    foldl_nil, some.injEq, Prod.mk.injEq]
  exact ⟨by decide, by omega⟩

theorem normalizeCidr_mapped (h : v < 2 ^ 32) :
    normalizeCidr (ofList (formatMapped v)) = ofList (formatV4 v) := by
  have haddr : ipListParseAddress (formatMapped v) = some { v6 := true, hi := 0, lo := 0xffff * 2 ^ 32 + v } := by
    unfold ipListParseAddress
    have hzone : '%' ∉ formatMapped v := fun hc => absurd (mem_formatMapped hc) (by decide)
    rw [if_pos (by simp [formatMapped]), cut_eq_none hzone]
    simp [ipListParseV6_mapped h]
  have hmapped : ipListParseIsMapped { v6 := true, hi := 0, lo := 0xffff * 2 ^ 32 + v } = true := by
    simp only [ipListParseIsMapped, Bool.true_and, beq_self_eq_true, beq_iff_eq]
    omega
  have hvalid : IpListParseAddr.Valid { v6 := false, hi := 0, lo := v } := ⟨by simp, by simp; omega, by simpa using h⟩
  have hlow : (0xffff * 2 ^ 32 + v) % 2 ^ 32 = v := by omega
  unfold normalizeCidr ipListParseNetwork
  rw [toList_ofList, networkParts_trimmed (fun c hc => mem_formatMapped hc)]
  simp only [haddr, networkLength, ipListParseBits, if_true, unmapNetwork, hmapped, true_and,
    show 96 ≤ 128 by omega, hlow]
  have := ipListParseMask_bits hvalid
  simp only [ipListParseBits, Bool.false_eq_true, if_false] at this
  simp only [show 128 - 96 = 32 by omega, this]
  rfl

end Waterdisco.Scan
