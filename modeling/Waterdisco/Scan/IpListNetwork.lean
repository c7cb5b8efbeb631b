import Waterdisco.Scan.IpListText
import Waterdisco.Scan.Netip

/-!
# Networks as texts

A network that is read is masked, and its text is read back as it is, here and by the
core.

    ipListParseNetwork text = some n → IsNetwork n             (ipListParseNetwork_ok)
    IsNetwork n → ipListParseNetwork (cidr of n) = some n      (ipListParseNetwork_cidr)
    IsNetwork n → parseTargetPrefix (cidr of n) is n           (parseTargetPrefix_cidr)
    a normal form denotes the network of the text it is made from
                                                               (normalizeCidr_contract)
-/

namespace Waterdisco.Scan

open Option List String IpListParseAddr Nat

/-! ## Addresses that are read -/

theorem hexDigit_lt {c : Char} {d : Nat} (h : ipListParseHexDigit c = some d) : d < 16 := by
  unfold ipListParseHexDigit at h
  split at h
  · rename_i hc
    have h2 : c.toNat ≤ 57 := hc.2
    have hd : c.toNat - 48 = d := some.inj h
    omega
  split at h
  · rename_i hc
    have h2 : c.toNat ≤ 102 := hc.2
    have hd : c.toNat - 97 + 10 = d := some.inj h
    omega
  · split at h
    · rename_i hc
      have h2 : c.toNat ≤ 70 := hc.2
      have hd : c.toNat - 65 + 10 = d := some.inj h
      omega
    · cases h

theorem ipListParseOctet_lt {part : List Char} {octet : Nat}
    (h : ipListParseOctet part = some octet) : octet < 2 ^ 8 := by
  unfold ipListParseOctet at h
  split at h
  · cases h
  split at h
  · cases h
  split at h
  · cases h
  · have := some.inj h
    omega

theorem mapM_some {α β : Type} {f : α → Option β} {l : List α} {r : List β} (h : l.mapM f = some r) :
    ∀ b ∈ r, ∃ a ∈ l, f a = some b := by
  induction l generalizing r with
  | nil =>
    have hr : r = [] := by simpa using h.symm
    intro b hb
    rw [hr] at hb
    cases hb
  | cons a l ih =>
    rw [mapM_cons] at h
    obtain ⟨b, hb, h⟩ := bind_eq_some_iff.mp h
    obtain ⟨r', hr', h⟩ := bind_eq_some_iff.mp h
    have hr : r = b :: r' := (some.inj h).symm
    intro x hx
    rw [hr] at hx
    rcases mem_cons.mp hx with rfl | hx
    · exact ⟨a, by simp, hb⟩
    · obtain ⟨a', ha', heq⟩ := ih hr' x hx
      exact ⟨a', mem_cons_of_mem _ ha', heq⟩

variable {text : List Char} {gs : List Nat} {a : IpListParseAddr} {len : Nat} {n : IpListParseAddr × Nat}

theorem ipListParseV4_lt {v : Nat} (h : ipListParseV4 text = some v) : v < 2 ^ 32 := by
  unfold ipListParseV4 at h
  split at h
  · rename_i a b c d hm
    have hlt : ∀ x ∈ [a, b, c, d], x < 2 ^ 8 := by
      intro x hx
      obtain ⟨part, -, hpart⟩ := mapM_some hm x hx
      exact ipListParseOctet_lt hpart
    have ha := hlt a (by simp)
    have hb := hlt b (by simp)
    have hc := hlt c (by simp)
    have hd := hlt d (by simp)
    have hv := some.inj h
    omega
  · cases h

theorem ipListParseGroup_lt {group : List Char} {g : Nat} (h : ipListParseGroup group = some g) : g < 2 ^ 16 := by
  unfold ipListParseGroup at h
  split at h
  · cases h
  have hlt := readDigits_lt (fun c d => hexDigit_lt) h
  have hpow : 16 ^ group.length ≤ 16 ^ 4 := Nat.pow_le_pow_right (by omega) (by omega)
  omega

theorem ipListParseV6Groups_lt (allowV4Tail : Bool) (parts : List (List Char)) (count : Nat)
    (h : ipListParseV6Groups allowV4Tail parts count = some gs) : ∀ g ∈ gs, g < 2 ^ 16 := by
  induction parts generalizing count gs with
  | nil =>
    have hgs : gs = [] := by simpa [ipListParseV6Groups] using h.symm
    simp [hgs]
  | cons group rest ih =>
    rw [ipListParseV6Groups] at h
    split at h
    · split at h
      · cases h
      obtain ⟨v4, hv4, rfl⟩ := map_eq_some_iff.mp h
      have hlt := ipListParseV4_lt hv4
      intro g hg
      simp only [mem_cons, not_mem_nil, or_false] at hg
      omega
    split at h
    · cases h
    split at h
    · rename_i value values hvalue hvalues
      rw [← some.inj h]
      intro g hg
      rcases mem_cons.mp hg with rfl | hg
      · exact ipListParseGroup_lt hvalue
      · exact ih _ hvalues g hg
    · cases h

theorem ipListParseV6Part_lt {allowV4Tail : Bool}
    (h : ipListParseV6Part text allowV4Tail = some gs) : ∀ g ∈ gs, g < 2 ^ 16 := by
  unfold ipListParseV6Part at h
  split at h
  · rw [← some.inj h]
    simp
  · exact ipListParseV6Groups_lt _ _ _ h

theorem foldl_groups_lt (gs : List Nat) (hlt : ∀ g ∈ gs, g < 2 ^ 16) (v n : Nat) (hv : v < 2 ^ n) :
    gs.foldl (fun v g => v * 2 ^ 16 + g) v < 2 ^ (n + 16 * gs.length) := by
  induction gs generalizing v n with
  | nil => exact hv
  | cons g gs ih =>
    have hg := hlt g (by simp)
    have hnext : v * 2 ^ 16 + g < 2 ^ (n + 16) := by
      rw [pow_add]
      omega
    have := ih (fun x hx => hlt x (.tail _ hx)) _ (n + 16) hnext
    rw [foldl_cons, length_cons]
    rw [show n + 16 * (gs.length + 1) = n + 16 + 16 * gs.length by omega]
    exact this

theorem groupsWords_lt (hlt : ∀ g ∈ gs, g < 2 ^ 16) (hlen : gs.length = 8) :
    (groupsWords gs).1 < 2 ^ 64 ∧ (groupsWords gs).2 < 2 ^ 64 := by
  have htake := foldl_groups_lt (gs.take 4) (fun g hg => hlt g (mem_of_mem_take hg)) 0 0 (by omega)
  have hdrop := foldl_groups_lt (gs.drop 4) (fun g hg => hlt g (mem_of_mem_drop hg)) 0 0 (by omega)
  rw [length_take, hlen] at htake
  rw [length_drop, hlen] at hdrop
  exact ⟨htake, hdrop⟩

theorem ipListParseV6_lt {words : Nat × Nat} (h : ipListParseV6 text = some words) :
    words.1 < 2 ^ 64 ∧ words.2 < 2 ^ 64 := by
  unfold ipListParseV6 at h
  split at h
  · split at h
    · rename_i groups hgroups
      split at h
      · rename_i hlen
        rw [← some.inj h]
        exact groupsWords_lt (ipListParseV6Part_lt hgroups) hlen
      · cases h
    · cases h
  split at h
  · cases h
  split at h
  · rename_i head tail hhead htail
    split at h
    · cases h
    rw [← some.inj h]
    refine groupsWords_lt ?_ ?_
    · intro g hg
      simp only [mem_append, mem_replicate] at hg
      rcases hg with (hg | hg) | hg
      · exact ipListParseV6Part_lt hhead g hg
      · omega
      · exact ipListParseV6Part_lt htail g hg
    · simp only [List.length_append, List.length_replicate]
      omega
  · cases h

theorem ipListParseAddress_valid {addr : IpListParseAddr}
    (h : ipListParseAddress text = some addr) : addr.Valid := by
  unfold ipListParseAddress at h
  split at h
  · obtain ⟨words, hwords, rfl⟩ := map_eq_some_iff.mp h
    obtain ⟨hhi, hlo⟩ := ipListParseV6_lt hwords
    exact ⟨hhi, hlo, by simp⟩
  obtain ⟨v4, hv4, rfl⟩ := map_eq_some_iff.mp h
  have hlt := ipListParseV4_lt hv4
  exact ⟨by simp, by simp only; omega, fun _ => ⟨rfl, hlt⟩⟩

/-! ## Masked networks -/

theorem bits_cases (addr : IpListParseAddr) : addr.v6 = true ∧ ipListParseBits addr = 128 ∨
    addr.v6 = false ∧ ipListParseBits addr = 32 := by
  unfold ipListParseBits
  cases addr.v6 with
  | true => exact .inl ⟨rfl, rfl⟩
  | false => exact .inr ⟨rfl, rfl⟩

theorem IpListParseAddr.Valid.value_lt {addr : IpListParseAddr} (h : addr.Valid) :
    addr.value < 2 ^ ipListParseBits addr := by
  have hhi := h.hi
  have hlo := h.lo
  unfold value
  rcases bits_cases addr with ⟨-, hbits⟩ | ⟨h4, hbits⟩
  · rw [hbits]
    omega
  rw [hbits]
  have := h.v4 h4
  omega

theorem IpListParseAddr.Valid.eq_of_value {b : IpListParseAddr} (ha : a.Valid) (hb : b.Valid) (hv6 : a.v6 = b.v6)
    (hvalue : a.value = b.value) : a = b := by
  have h1 := ha.lo
  have h2 := hb.lo
  unfold value at hvalue
  obtain ⟨v6, hi, lo⟩ := a
  obtain ⟨v6', hi', lo'⟩ := b
  simp only at hv6 hvalue h1 h2
  have hhi : hi = hi' := by omega
  have hlo : lo = lo' := by omega
  rw [hv6, hhi, hlo]

theorem ipListParseMask_spec {addr : IpListParseAddr} (h : addr.Valid) (hpos : 1 ≤ len)
    (hle : len ≤ ipListParseBits addr) :
    (ipListParseMask addr len).v6 = addr.v6 ∧ (ipListParseMask addr len).Valid ∧
      (ipListParseMask addr len).value = blockStart addr.value (ipListParseBits addr - len) := by
  obtain ⟨v6, hi, lo⟩ := addr
  have hhi := h.hi
  have hlo := h.lo
  simp only at hhi hlo
  cases v6 with
  | false =>
    obtain ⟨hzero, hlt⟩ := h.v4 rfl
    simp only at hzero hlt
    subst hzero
    simp only [ipListParseBits, Bool.false_eq_true, if_false] at hle ⊢
    have hmask : ipListParseMask { v6 := false, hi := 0, lo := lo } len =
        { v6 := false, hi := 0, lo := blockStart lo (32 - len) } := by
      simp only [ipListParseMask, if_true]
      rw [show 0xffffffff = 2 ^ 32 - 1 from rfl, and_two_pow_sub_one_eq_mod, and_high 32 hlt]
    have hstart := blockStart_le lo (32 - len)
    rw [hmask]
    refine ⟨rfl, ⟨by simp, by simp only; omega, fun _ => ⟨rfl, by simp only; omega⟩⟩, ?_⟩
    simp [value]
  | true =>
    simp only [ipListParseBits, if_true] at hle ⊢
    simp only [ipListParseMask, Bool.true_eq_false, if_false, value]
    -- the start of the high word, or of the low one with the high word as it is
    by_cases h64 : len < 64
    · rw [if_pos h64, if_neg (by omega), and_high 64 hhi]
      have hstart := blockStart_le hi (64 - len)
      refine ⟨rfl, ⟨by simp only; omega, by simp, by simp⟩, ?_⟩
      simp only [add_zero]
      have hsplit : 128 - len = 64 - len + 64 := by omega
      unfold blockStart
      rw [hsplit, Nat.pow_add, Nat.mul_comm (2 ^ (64 - len)) (2 ^ 64), ← Nat.div_div_eq_div_mul,
        show (hi * 2 ^ 64 + lo) / 2 ^ 64 = hi by omega]
      rw [mul_comm (2 ^ 64), mul_assoc]
    by_cases heq : len = 64
    · rw [if_neg h64, if_pos heq]
      refine ⟨rfl, ⟨hhi, by simp, by simp⟩, ?_⟩
      subst heq
      unfold blockStart
      simp only [add_zero, show 128 - 64 = 64 by omega]
      rw [show (hi * 2 ^ 64 + lo) / 2 ^ 64 = hi by omega]
    by_cases hlt : len < 128
    · rw [if_neg h64, if_neg heq, if_pos hlt, and_high 64 hlo]
      have hstart := blockStart_le lo (128 - len)
      refine ⟨rfl, ⟨hhi, by simp only; omega, by simp⟩, ?_⟩
      have hpow : 2 ^ 64 = 2 ^ (len - 64) * 2 ^ (128 - len) := by
        rw [← pow_add, show len - 64 + (128 - len) = 64 by omega]
      simp only
      unfold blockStart
      rw [hpow, ← mul_assoc, add_comm (hi * 2 ^ (len - 64) * 2 ^ (128 - len)) lo,
        Nat.add_mul_div_right _ _ (Nat.two_pow_pos _), Nat.add_mul]
      omega
    · rw [if_neg h64, if_neg heq, if_neg hlt]
      refine ⟨rfl, ⟨hhi, hlo, by simp⟩, ?_⟩
      rw [show 128 - len = 0 by omega]
      simp [blockStart]

/-- A network that both sides take as it is: masked, not the whole address space, and not
an IPv4 one in disguise. -/
structure IsNetwork (n : IpListParseAddr × Nat) : Prop where
  valid : n.1.Valid
  pos : 1 ≤ n.2
  le : n.2 ≤ ipListParseBits n.1
  aligned : 2 ^ (ipListParseBits n.1 - n.2) ∣ n.1.value
  plain : ¬ (ipListParseIsMapped n.1 = true ∧ 96 ≤ n.2)

theorem isMapped_iff {addr : IpListParseAddr} :
    ipListParseIsMapped addr = true ↔ addr.v6 = true ∧ addr.value / 2 ^ 32 = 0xffff := by
  unfold ipListParseIsMapped value
  simp only [Bool.and_eq_true, beq_iff_eq]
  constructor
  · rintro ⟨⟨h6, hzero⟩, hmapped⟩
    refine ⟨h6, ?_⟩
    omega
  · rintro ⟨h6, hmapped⟩
    refine ⟨⟨h6, ?_⟩, ?_⟩
    · omega
    · omega

/-- A text is read as an address and a length. -/
def WrittenAs (text : List Char) (addr : IpListParseAddr) (len : Nat) : Prop :=
  ∃ body digits, networkParts (trimmed text) = some (body, digits) ∧ ipListParseAddress body = some addr ∧
    networkLength (ipListParseBits addr) digits = some len

theorem ipListParseNetwork_parts (h : ipListParseNetwork text = some n) :
    ∃ addr len, WrittenAs text addr len ∧ addr.Valid ∧ len ≤ ipListParseBits addr ∧ (unmapNetwork addr len).2 ≠ 0 ∧
      n = (ipListParseMask (unmapNetwork addr len).1 (unmapNetwork addr len).2, (unmapNetwork addr len).2) := by
  unfold ipListParseNetwork at h
  split at h
  · cases h
  next hparts =>
  split at h
  · cases h
  next addr haddr =>
  split at h
  · cases h
  next len hlen =>
  simp only at h
  split at h
  · cases h
  next hne =>
  refine ⟨addr, len, ⟨_, _, hparts, haddr, hlen⟩, ipListParseAddress_valid haddr, ?_, hne, (some.inj h).symm⟩
  unfold networkLength at hlen
  split at hlen
  · rw [← some.inj hlen]
  split at hlen
  · split at hlen
    · cases hlen
    · have := some.inj hlen
      omega
  · cases hlen

theorem unmapNetwork_spec {addr : IpListParseAddr} (hvalid : addr.Valid) (hle : len ≤ ipListParseBits addr) :
    (unmapNetwork addr len).1.Valid ∧ (unmapNetwork addr len).2 ≤ ipListParseBits (unmapNetwork addr len).1 ∧
      ¬ (ipListParseIsMapped (unmapNetwork addr len).1 = true ∧ 96 ≤ (unmapNetwork addr len).2) := by
  unfold unmapNetwork
  by_cases hm : ipListParseIsMapped addr = true ∧ 96 ≤ len
  · rw [if_pos hm]
    have h6 := (isMapped_iff.mp hm.1).1
    have hbits : ipListParseBits addr = 128 := by
      unfold ipListParseBits
      rw [h6, if_pos rfl]
    refine ⟨⟨by simp, by simp only; omega, fun _ => ⟨rfl, Nat.mod_lt _ (Nat.two_pow_pos 32)⟩⟩, ?_, ?_⟩
    · show len - 96 ≤ 32
      omega
    · rintro ⟨hc, -⟩
      exact absurd hc (by simp [ipListParseIsMapped])
  · rw [if_neg hm]
    exact ⟨hvalid, hle, hm⟩

/-- **What is read is a network.** -/
theorem ipListParseNetwork_ok
    (h : ipListParseNetwork text = some n) : IsNetwork n := by
  obtain ⟨addr, len, -, hvalid, hle, hne, rfl⟩ := ipListParseNetwork_parts h
  have hunmapped := unmapNetwork_spec hvalid hle
  generalize unmapNetwork addr len = m at hunmapped hne
  obtain ⟨hvalid, hle, hplain⟩ := hunmapped
  obtain ⟨hv6, hmvalid, hvalue⟩ := ipListParseMask_spec hvalid (by omega) hle
  have hbits : ipListParseBits (ipListParseMask m.1 m.2) = ipListParseBits m.1 := by
    unfold ipListParseBits
    rw [hv6]
  refine ⟨hmvalid, by simp only; omega, by simp only; rw [hbits]; exact hle, ?_, ?_⟩
  · simp only [hbits, hvalue]
    exact dvd_blockStart _ _
  -- the mapping bits are kept by a length of 96 or more
  rintro ⟨hm, h96⟩
  apply hplain
  refine ⟨isMapped_iff.mpr ?_, h96⟩
  obtain ⟨h6, hdiv⟩ := isMapped_iff.mp hm
  rw [hv6] at h6
  refine ⟨h6, ?_⟩
  have h128 : ipListParseBits m.1 = 128 := by
    unfold ipListParseBits
    rw [h6, if_pos rfl]
  rw [hvalue, h128] at hdiv
  have hsub := block_subset m.1.value (show 128 - m.2 ≤ 32 by omega)
  have hin : blockStart (blockStart m.1.value (128 - m.2)) 32 = blockStart m.1.value 32 := by
    have := Nat.two_pow_pos (128 - m.2)
    exact blockStart_of_mem (dvd_blockStart _ _) hsub.1 (by omega)
  have hpos : 0 < 2 ^ 32 := by omega
  have hquot := eq_of_mul_eq_mul_right hpos hin
  rw [← hquot]
  exact hdiv

/-! ## The text of a network -/

theorem slash_not_mem_format (addr : IpListParseAddr) : '/' ∉ ipListParseFormat addr :=
  fun hc => absurd (mem_ipListParseFormat hc) (by decide)

theorem slash_not_mem_digits (n : Nat) : '/' ∉ toDigits 10 n :=
  fun hc => absurd (mem_digits (by omega) (by omega) hc) (by decide)

/-- The characters of a network. -/
theorem mem_cidr {addr : IpListParseAddr} {c : Char} (h : c ∈ ipListParseCidr addr len) :
    c ∈ addressChars ∨ c = '/' := by
  have htake : ∀ c ∈ addressChars.take 16, c ∈ addressChars := all_iff_forall_prop.mp (by decide)
  unfold ipListParseCidr at h
  split at h
  · exact .inl (mem_ipListParseFormat h)
  rcases mem_append.mp h with h | h
  · exact .inl (mem_ipListParseFormat h)
  rcases mem_cons.mp h with h | h
  · exact .inr h
  · exact .inl (htake c (mem_digits (by omega) (by omega) h))

theorem cidr_no_space {addr : IpListParseAddr} : ∀ c ∈ ipListParseCidr addr len, isSpace c = false := by
  have hchar : ∀ c ∈ '/' :: addressChars, isSpace c = false := all_iff_forall_prop.mp (by decide)
  intro c hc
  refine hchar c ?_
  rcases mem_cidr hc with hc | rfl
  · exact .tail _ hc
  · exact .head _

theorem cut_cidr {addr : IpListParseAddr} (h : len < ipListParseBits addr) :
    cut '/' (ipListParseCidr addr len) = some (ipListParseFormat addr, toDigits 10 len) := by
  unfold ipListParseCidr
  rw [if_neg (by omega)]
  exact cut_append (slash_not_mem_format addr) _

theorem networkParts_cidr (addr : IpListParseAddr) (len : Nat) :
    networkParts (trimmed (ipListParseCidr addr len)) = some (ipListParseFormat addr,
      if ipListParseBits addr ≤ len then none else some (toDigits 10 len)) := by
  rw [trimmed_of_no_space cidr_no_space]
  have hbody : networkBody (ipListParseCidr addr len) = some (ipListParseCidr addr len, []) := by
    unfold networkBody
    split
    · rename_i rest heq
      have hmem : '[' ∈ ipListParseCidr addr len := by simp [heq]
      rcases mem_cidr hmem with hc | hc
      · exact absurd hc (by decide)
      · cases hc
    · rfl
  unfold networkParts
  rw [hbody]
  simp only
  by_cases hhost : ipListParseBits addr ≤ len
  · rw [if_pos hhost]
    have hcidr : ipListParseCidr addr len = ipListParseFormat addr := by
      unfold ipListParseCidr
      rw [if_pos hhost]
    rw [hcidr, cut_eq_none (slash_not_mem_format addr)]
    simp
  · rw [if_neg hhost, cut_cidr (by omega)]
    simp

theorem networkLength_digits {bits : Nat} (hle : len ≤ bits) (hbits : bits ≤ 128) :
    networkLength bits (if bits ≤ len then none else some (toDigits 10 len)) = some len := by
  unfold networkLength
  by_cases hhost : bits ≤ len
  · simp only [if_pos hhost]
    rw [le_antisymm hle hhost]
  simp only [if_neg hhost]
  rw [ipListParseDecimal_digits (by omega) (by omega)]
  simp only
  rw [if_neg (by omega)]

theorem mask_of_network (h : IsNetwork n) : ipListParseMask n.1 n.2 = n.1 := by
  obtain ⟨hv6, hvalid, hvalue⟩ := ipListParseMask_spec h.valid h.pos h.le
  refine hvalid.eq_of_value h.valid hv6 ?_
  rw [hvalue]
  exact blockStart_of_dvd h.aligned

/-- **The text of a network is read back.** -/
theorem ipListParseNetwork_cidr (h : IsNetwork n) :
    ipListParseNetwork (ipListParseCidr n.1 n.2) = some n := by
  have hbits : ipListParseBits n.1 ≤ 128 := by
    rcases bits_cases n.1 with hb | hb <;> omega
  have hpos := h.pos
  unfold ipListParseNetwork
  rw [networkParts_cidr]
  simp only [ipListParseAddress_format n.1 h.valid, networkLength_digits h.le hbits]
  unfold unmapNetwork
  rw [if_neg h.plain]
  rw [if_neg (by omega), mask_of_network h]

theorem normalizeCidr_cidr (h : IsNetwork n) :
    normalizeCidr (ofList (ipListParseCidr n.1 n.2)) = ofList (ipListParseCidr n.1 n.2) := by
  unfold normalizeCidr
  rw [toList_ofList, ipListParseNetwork_cidr h]

theorem cidr_ne_nil (addr : IpListParseAddr) (len : Nat) : ipListParseCidr addr len ≠ [] := by
  unfold ipListParseCidr
  split
  · exact format_ne_nil addr
  · simp

/-! ## What a text denotes -/

/-- The network of an address and a length, with all lower bits zero.  A mapped one of length 96 or more is that
of the IPv4 address. -/
structure NetworkOf (addr : IpListParseAddr) (len : Nat) (n : IpListParseAddr × Nat) : Prop where
  valid : n.1.Valid
  mapped : ipListParseIsMapped addr = true ∧ 96 ≤ len →
    n.1.v6 = false ∧ n.2 = len - 96 ∧ n.1.value = blockStart (addr.value % 2 ^ 32) (32 - n.2)
  plain : ¬(ipListParseIsMapped addr = true ∧ 96 ≤ len) →
    n.1.v6 = addr.v6 ∧ n.2 = len ∧ n.1.value = blockStart addr.value (ipListParseBits addr - n.2)

/-- The network that a text writes. -/
def Denotes (text : String) (n : IpListParseAddr × Nat) : Prop := ∃ addr len,
    WrittenAs text.toList addr len ∧ NetworkOf addr len n

theorem ipListParseNetwork_denotes {text : String} (h : ipListParseNetwork text.toList = some n) :
    Denotes text n := by
  obtain ⟨addr, len, hwritten, hvalid, hle, hne, rfl⟩ := ipListParseNetwork_parts h
  obtain ⟨huvalid, hule, -⟩ := unmapNetwork_spec hvalid hle
  obtain ⟨hv6, hmvalid, hvalue⟩ := ipListParseMask_spec huvalid (by omega) hule
  refine ⟨addr, len, hwritten, hmvalid, fun hmapped => ?_, fun hplain => ?_⟩
  · have hlow : addr.value % 2 ^ 32 = addr.lo % 2 ^ 32 := by
      unfold value
      omega
    rw [unmapNetwork, if_pos hmapped] at hv6 hvalue ⊢
    refine ⟨hv6, rfl, hvalue.trans ?_⟩
    rw [hlow]
    simp only [value, zero_mul, zero_add]
    rfl
  · rw [unmapNetwork, if_neg hplain] at hv6 hvalue ⊢
    exact ⟨hv6, rfl, hvalue⟩

/-- **Addresses and networks as texts**: a printed address is read back, and a normal form stays as it is and denotes
the network of the text it was made from. -/
theorem normalizeCidr_contract :
    (∀ addr : IpListParseAddr, addr.Valid → ipListParseAddress (ipListParseFormat addr) = some addr) ∧
      ∀ text, normalizeCidr text ≠ "" →
        normalizeCidr (normalizeCidr text) = normalizeCidr text ∧ ∃ n, Denotes text n ∧
          Denotes (normalizeCidr text) n := by
  refine ⟨ipListParseAddress_format, fun text haccepted => ?_⟩
  cases hread : ipListParseNetwork text.toList with
  | none =>
    rw [normalizeCidr, hread] at haccepted
    exact absurd rfl haccepted
  | some n =>
    have hnetwork := ipListParseNetwork_ok hread
    have hnormal : normalizeCidr text = ofList (ipListParseCidr n.1 n.2) := by rw [normalizeCidr, hread]
    rw [hnormal]
    refine ⟨normalizeCidr_cidr hnetwork, n, ipListParseNetwork_denotes hread, ipListParseNetwork_denotes ?_⟩
    rw [toList_ofList, ipListParseNetwork_cidr hnetwork]

theorem normalizeCidr_contract_mapped :
    normalizeCidr "::ffff:1.2.3.4/104" = "1.0.0.0/8" ∧ normalizeCidr "1.0.0.0/8" = "1.0.0.0/8" := by
  have h : normalizeCidr "::ffff:1.2.3.4/104" = "1.0.0.0/8" := by decide
  exact ⟨h, h ▸ (normalizeCidr_contract.2 "::ffff:1.2.3.4/104" (by rw [h]; decide)).1⟩

theorem network_of_fixed {cidr : String} (hfixed : normalizeCidr cidr = cidr) (hne : cidr ≠ "") :
    ∃ n, IsNetwork n ∧ cidr = ofList (ipListParseCidr n.1 n.2) := by
  unfold normalizeCidr at hfixed
  split at hfixed
  · exact absurd hfixed.symm hne
  · rename_i addr len hnetwork
    exact ⟨(addr, len), ipListParseNetwork_ok hnetwork, hfixed.symm⟩

/-! ## The core -/

/-- The address as the core has it. -/
def IpListParseAddr.Valid.addr {a : IpListParseAddr} (h : a.Valid) : Addr where
  is4 := !a.v6
  value := a.value
  lt := by
    have := h.value_lt
    unfold ipListParseBits at this
    cases hv6 : a.v6 <;> simpa [hv6] using this

theorem IpListParseAddr.Valid.addr_words (h : a.Valid) : h.addr.words = a := by
  obtain ⟨v6, hi, lo⟩ := a
  have hlo := h.lo
  simp only at hlo
  cases v6 with
  | true =>
    simp only [Addr.words, Valid.addr, Bool.not_true, Bool.false_eq_true, if_false,
      value, mk.injEq, true_and]
    constructor
    · omega
    · omega
  | false =>
    have hzero := (h.v4 rfl).1
    subst hzero
    simp [Addr.words, Valid.addr, value]

theorem netipParseBits_digits (n : Nat) : netipParseBits (toDigits 10 n) = some n := by
  unfold netipParseBits
  rw [if_neg]
  · exact readDigits_toDigits (by omega) decimalDigit_digitChar n
  rintro (hnil | ⟨hlen, hhead⟩)
  · exact toDigits_ne_nil hnil
  · have hzero := head_toDigits (by omega) hhead
    subst hzero
    simp at hlen

theorem bitLen_addr (h : a.Valid) : h.addr.bitLen = ipListParseBits a := by
  obtain ⟨v6, hi, lo⟩ := a
  cases v6 <;> rfl

/-- The network as the core has it. -/
def IsNetwork.range {n : IpListParseAddr × Nat} (h : IsNetwork n) : Prefix where
  addr := h.valid.addr
  bits := n.2
  le := by rw [bitLen_addr]; exact h.le

theorem parsePrefixOrAddr_cidr (h : IsNetwork n) :
    parsePrefixOrAddr goNetip.parsePrefix goNetip.parseAddr (ofList (ipListParseCidr n.1 n.2)) =
      some h.range := by
  have hwords := h.valid.addr_words
  have hparse := netipParseAddr_format h.valid.addr
  rw [hwords] at hparse
  unfold parsePrefixOrAddr
  by_cases hhost : ipListParseBits n.1 ≤ n.2
  · have hcidr : ipListParseCidr n.1 n.2 = ipListParseFormat n.1 := by
      unfold ipListParseCidr
      rw [if_pos hhost]
    have hlen : h.range = h.valid.addr.host := by
      have hbits : n.2 = h.valid.addr.bitLen := by
        rw [bitLen_addr]
        exact le_antisymm h.le hhost
      unfold IsNetwork.range Addr.host
      congr 1
    simp only [goNetip, toList_ofList, hcidr, netipParsePrefix_format, hparse, map_some, hlen]
    rfl
  have hcut : cut '/' (ipListParseCidr n.1 n.2).reverse =
      some ((toDigits 10 n.2).reverse, (ipListParseFormat n.1).reverse) := by
    unfold ipListParseCidr
    rw [if_neg hhost, List.reverse_append, List.reverse_cons, List.append_assoc]
    exact cut_append (by simpa using slash_not_mem_digits n.2) _
  have hprefix : netipParsePrefix (ipListParseCidr n.1 n.2) = some h.range := by
    unfold netipParsePrefix
    rw [hcut]
    simp only [reverse_reverse, hparse, netipParseBits_digits]
    rw [dif_pos (by rw [bitLen_addr]; exact h.le)]
    rfl
  simp only [goNetip, toList_ofList, hprefix]

/-- **The core takes the text as the same network.** -/
theorem parseTargetPrefix_cidr (h : IsNetwork n) :
    parseTargetPrefix goNetip.trimSpace goNetip.parsePrefix goNetip.parseAddr
      (ofList (ipListParseCidr n.1 n.2)) = some h.range := by
  have htrim : goNetip.trimSpace (ofList (ipListParseCidr n.1 n.2)) =
      ofList (ipListParseCidr n.1 n.2) := by
    show ofList (trimmed _) = _
    rw [toList_ofList, trimmed_of_no_space cidr_no_space]
  unfold parseTargetPrefix
  rw [htrim, parsePrefixOrAddr_cidr h, map_some]
  have hunmapped : h.range.unmapped = h.range := by
    unfold Prefix.unmapped
    rw [if_neg]
    rintro ⟨hm, h96⟩
    apply h.plain
    have hmapped := Addr.words_mapped h.valid.addr
    rw [h.valid.addr_words] at hmapped
    rw [hmapped]
    exact ⟨hm, h96⟩
  have hmasked : h.range.masked = h.range := by
    have hhost : h.range.hostBits = ipListParseBits n.1 - n.2 := by
      show h.valid.addr.bitLen - n.2 = _
      rw [bitLen_addr]
    have hstart : h.range.addr.value / 2 ^ h.range.hostBits * 2 ^ h.range.hostBits = h.range.addr.value := by
      rw [hhost]
      exact blockStart_of_dvd h.aligned
    unfold Prefix.masked
    simp only [hstart]
  rw [hunmapped, hmasked]

end Waterdisco.Scan
