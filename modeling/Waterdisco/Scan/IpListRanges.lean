import Waterdisco.Scan.IpListNetwork

/-!
# Ranges as networks

The words of `ipListParseCoverRange` carry out `cover` on the addresses as numbers.

    ipListParseCoverRange first last = some blocks →
      blocks are the cover of [first, last]                    (coverRange_eq)
    the loop ends, and no blocks with the same addresses are less
                                                               (coverRange_least)
    a range of addresses that are not mapped has a block of mapped ones just when it
      begins below them, less than 2 ^ 32 before, and ends above them
                                                               (coverRange_networks)
-/

namespace Waterdisco.Scan

open Nat List IpListParseAddr

/-! ## The words -/

theorem dvd_low_iff {hi lo k : Nat} (h : k ≤ 64) : 2 ^ k ∣ hi * 2 ^ 64 + lo ↔ 2 ^ k ∣ lo := by
  have hword : 2 ^ k ∣ hi * 2 ^ 64 := Nat.dvd_mul_left_of_dvd (Nat.pow_dvd_pow 2 h) hi
  exact Nat.dvd_add_right hword

variable {first : IpListParseAddr}

theorem le_coverAlign_iff (h : first.Valid) (k : Nat) :
    k ≤ coverAlign first ↔ k ≤ ipListParseBits first ∧ 2 ^ k ∣ first.value := by
  have hlt := h.lo
  have hbits : ipListParseBits first ≤ 128 := by
    rcases bits_cases first with hb | hb <;> omega
  unfold coverAlign value
  by_cases hlo : first.lo ≠ 0
  · rw [if_pos hlo, Nat.le_min, le_lowZeros_iff]
    constructor
    · rintro ⟨⟨hk, hdvd⟩, hb⟩
      exact ⟨hb, (dvd_low_iff hk).mpr hdvd⟩
    rintro ⟨hb, hdvd⟩
    rcases lt_or_ge 64 k with hbig | hk
    · -- a low word below `2 ^ 64` would be zero
      exfalso
      have h64 : 2 ^ 64 ∣ first.hi * 2 ^ 64 + first.lo := dvd_trans (pow_dvd_pow 2 (by omega)) hdvd
      have hdvd' := (dvd_low_iff (le_refl 64)).mp h64
      exact hlo (eq_zero_of_dvd_of_lt hdvd' hlt)
    · exact ⟨⟨hk, (dvd_low_iff hk).mp hdvd⟩, hb⟩
  rw [if_neg hlo]
  have hzero : first.lo = 0 := by omega
  rw [hzero, add_zero]
  by_cases hhi : first.hi ≠ 0
  · rw [if_pos hhi, Nat.le_min]
    rcases lt_or_ge k 64 with hk | hk
    · have hdvd : 2 ^ k ∣ first.hi * 2 ^ 64 := Nat.dvd_mul_left_of_dvd (Nat.pow_dvd_pow 2 (by omega)) _
      constructor
      · exact fun hle => ⟨hle.2, hdvd⟩
      · exact fun hle => ⟨by omega, hle.1⟩
    obtain ⟨d, rfl⟩ := Nat.exists_eq_add_of_le hk
    have hd : 64 + d ≤ 64 + lowZeros 64 first.hi ↔ d ≤ lowZeros 64 first.hi := by omega
    have hdvd : 2 ^ (64 + d) ∣ first.hi * 2 ^ 64 ↔ 2 ^ d ∣ first.hi := by
      rw [Nat.pow_add, Nat.mul_comm (2 ^ 64), Nat.mul_dvd_mul_iff_right (Nat.two_pow_pos 64)]
    rw [hd, le_lowZeros_iff, hdvd]
    constructor
    · rintro ⟨⟨-, hdvd⟩, hb⟩
      exact ⟨hb, hdvd⟩
    · rintro ⟨hb, hdvd⟩
      exact ⟨⟨by omega, hdvd⟩, hb⟩
  · rw [if_neg hhi]
    have hhi0 : first.hi = 0 := by omega
    rw [hhi0, Nat.le_min]
    constructor
    · exact fun hle => ⟨hle.2, by simp⟩
    · exact fun hle => ⟨by omega, hle.1⟩

theorem coverAlign_eq (h : first.Valid) :
    coverAlign first = lowZeros (ipListParseBits first) first.value := by
  apply le_antisymm
  · rw [le_lowZeros_iff]
    exact (le_coverAlign_iff h _).mp (.refl)
  · rw [le_coverAlign_iff h]
    exact (le_lowZeros_iff _ _ _).mp (.refl)

theorem log2_words {hi lo : Nat} (hhi : hi ≠ 0) (hlo : lo < 2 ^ 64) : log2 (hi * 2 ^ 64 + lo) = 64 + log2 hi := by
  have hne : hi * 2 ^ 64 + lo ≠ 0 := by omega
  rw [log2_eq_iff hne]
  have hself := (log2_eq_iff hhi).mp rfl
  have h1 : 2 ^ (64 + log2 hi) = 2 ^ log2 hi * 2 ^ 64 := by rw [pow_add, mul_comm]
  have h2 : 2 ^ (64 + log2 hi + 1) = 2 ^ (log2 hi + 1) * 2 ^ 64 := by
    rw [show 64 + log2 hi + 1 = 64 + (log2 hi + 1) by omega, pow_add, mul_comm]
  have hupper : (hi + 1) * 2 ^ 64 ≤ 2 ^ (log2 hi + 1) * 2 ^ 64 := mul_le_mul_right _ hself.2
  have hlower : 2 ^ log2 hi * 2 ^ 64 ≤ hi * 2 ^ 64 := mul_le_mul_right _ hself.1
  rw [h1, h2]
  omega

/-- The number of addresses of a range, in words. -/
theorem coverFit_eq {first last : IpListParseAddr} (hf : first.Valid) (hl : last.Valid) (hle : first.value ≤ last.value)
    (hsize : last.value + 1 - first.value < 2 ^ 128) :
    coverFit first last = log2 (last.value + 1 - first.value) := by
  have h1 := hf.hi
  have h2 := hf.lo
  have h3 := hl.hi
  have h4 := hl.lo
  unfold value at hle hsize ⊢
  unfold coverFit
  simp only
  generalize hsl : ((last.lo + 2 ^ 64 - first.lo) % 2 ^ 64 + 1) % 2 ^ 64 = sizeLo
  generalize hsh : ((last.hi + 2 ^ 64 - first.hi + (2 ^ 64 - if last.lo < first.lo then 1 else 0)) % 2 ^ 64 +
    if sizeLo = 0 then 1 else 0) % 2 ^ 64 = sizeHi
  have hwords : last.hi * 2 ^ 64 + last.lo + 1 - (first.hi * 2 ^ 64 + first.lo) = sizeHi * 2 ^ 64 + sizeLo := by
    by_cases hborrow : last.lo < first.lo
    · rw [if_pos hborrow] at hsh
      by_cases hzero : sizeLo = 0
      · rw [if_pos hzero] at hsh
        omega
      · rw [if_neg hzero] at hsh
        omega
    · rw [if_neg hborrow] at hsh
      by_cases hzero : sizeLo = 0
      · rw [if_pos hzero] at hsh
        omega
      · rw [if_neg hzero] at hsh
        omega
  have hlo : sizeLo < 2 ^ 64 := by
    rw [← hsl]
    exact Nat.mod_lt _ (Nat.two_pow_pos 64)
  rw [hwords]
  by_cases hhi : sizeHi ≠ 0
  · rw [if_pos hhi, log2_words hhi hlo]
    unfold bitWidth
    rw [if_neg hhi]
    omega
  rw [if_neg hhi]
  have hzero : sizeHi = 0 := by omega
  have hne : sizeLo ≠ 0 := by
    intro hc
    rw [hzero, hc] at hwords
    omega
  unfold bitWidth
  rw [if_neg hne, hzero]
  simp

theorem or_low {n k : Nat} (h : 2 ^ k ∣ n) : n ||| (2 ^ k - 1) = n + (2 ^ k - 1) := by
  obtain ⟨q, rfl⟩ := h
  have := Nat.two_pow_pos k
  exact (Nat.two_pow_add_eq_or_of_lt (show 2 ^ k - 1 < 2 ^ k by omega) q).symm

/-- The last address of an aligned block. -/
theorem coverEnd_spec (h : first.Valid) {k : Nat} (hdvd : 2 ^ k ∣ first.value)
    (hend : first.value + 2 ^ k ≤ 2 ^ ipListParseBits first) :
    (coverEnd first k).v6 = first.v6 ∧ (coverEnd first k).Valid ∧
      (coverEnd first k).value + 1 = first.value + 2 ^ k := by
  have hhi := h.hi
  have hlo := h.lo
  have hbits : ipListParseBits first ≤ 128 := by
    rcases bits_cases first with hb | hb <;> omega
  have hpow : 2 ^ ipListParseBits first ≤ 2 ^ 128 := Nat.pow_le_pow_right (by omega) hbits
  unfold coverEnd value at *
  by_cases h64 : 64 ≤ k
  · rw [if_pos h64]
    have hzero : first.lo = 0 := by
      have hd : 2 ^ 64 ∣ first.hi * 2 ^ 64 + first.lo := dvd_trans (pow_dvd_pow 2 h64) hdvd
      exact eq_zero_of_dvd_of_lt ((dvd_low_iff (le_refl 64)).mp hd) hlo
    obtain ⟨d, rfl⟩ := Nat.exists_eq_add_of_le h64
    have hsplit : 2 ^ (64 + d) = 2 ^ d * 2 ^ 64 := by rw [pow_add, mul_comm]
    rw [hsplit, hzero] at hend hdvd
    rw [Nat.add_zero, Nat.mul_dvd_mul_iff_right (Nat.two_pow_pos 64)] at hdvd
    have hdpos := Nat.two_pow_pos d
    have hmany : 2 ^ 64 ≤ 2 ^ d * 2 ^ 64 := Nat.le_mul_of_pos_left _ hdpos
    have h6 : first.v6 = true := by
      rcases bits_cases first with hb | hb
      · exact hb.1
      · rw [hb.2] at hend
        omega
    have hnew : (if 64 < 64 + d then first.hi ||| (2 ^ (64 + d - 64) - 1) else first.hi) = first.hi + (2 ^ d - 1) := by
      by_cases hd : 64 < 64 + d
      · rw [if_pos hd, show 64 + d - 64 = d by omega, or_low hdvd]
      · rw [if_neg hd, show d = 0 by omega]
        rfl
    simp only [hnew]
    rw [hsplit, hzero]
    generalize 2 ^ d = size at hend hdpos
    refine ⟨trivial, ⟨by simp only; omega, by simp, ?_⟩, by omega⟩
    intro hc
    simp only at hc
    rw [h6] at hc
    cases hc
  · rw [if_neg h64]
    have hdlo : 2 ^ k ∣ first.lo := (dvd_low_iff (by omega)).mp hdvd
    have hk := Nat.two_pow_pos k
    have hfits : first.lo + 2 ^ k ≤ 2 ^ 64 := block_fits hdlo hlo (by omega)
    have hor : (if 0 < k then { first with lo := first.lo ||| (2 ^ k - 1) } else first) =
        { first with lo := first.lo + (2 ^ k - 1) } := by
      by_cases hpos : 0 < k
      · rw [if_pos hpos, or_low hdlo]
      · rw [if_neg hpos, show k = 0 by omega]
        rfl
    rw [hor]
    refine ⟨rfl, ⟨hhi, by simp only; omega, ?_⟩, by simp only; omega⟩
    intro h4
    obtain ⟨hz, -⟩ := h.v4 h4
    refine ⟨hz, ?_⟩
    simp only at h4 ⊢
    have hb : ipListParseBits first = 32 := by
      unfold ipListParseBits
      rw [h4]
      rfl
    rw [hb, hz] at hend
    omega

theorem coverNext_spec {blockEnd : IpListParseAddr} (h : blockEnd.Valid)
    (hroom : blockEnd.value + 1 < 2 ^ ipListParseBits blockEnd) :
    (coverNext blockEnd).v6 = blockEnd.v6 ∧ (coverNext blockEnd).Valid ∧
      (coverNext blockEnd).value = blockEnd.value + 1 := by
  have hhi := h.hi
  have hlo := h.lo
  unfold coverNext value at *
  simp only
  rcases bits_cases blockEnd with ⟨h6, hb⟩ | ⟨h4, hb⟩
  · rw [hb] at hroom
    by_cases hcarry : (blockEnd.lo + 1) % 2 ^ 64 = 0
    · rw [if_pos hcarry]
      refine ⟨trivial, ⟨by simp only; omega, by simp only; omega, ?_⟩, by omega⟩
      intro hc
      simp only at hc
      rw [h6] at hc
      cases hc
    · rw [if_neg hcarry]
      refine ⟨trivial, ⟨by simp only; omega, by simp only; omega, ?_⟩, by omega⟩
      intro hc
      simp only at hc
      rw [h6] at hc
      cases hc
  · rw [hb] at hroom
    obtain ⟨hz, -⟩ := h.v4 h4
    rw [hz] at hroom ⊢
    have hcarry : ¬ (blockEnd.lo + 1) % 2 ^ 64 = 0 := by omega
    rw [if_neg hcarry]
    exact ⟨trivial, ⟨by simp, by simp only; omega, fun _ => ⟨by simp, by simp only; omega⟩⟩, by omega⟩

/-! ## The loop -/

theorem bits_of_v6 {a b : IpListParseAddr} (h : a.v6 = b.v6) : ipListParseBits a = ipListParseBits b := by
  unfold ipListParseBits
  rw [h]

/-- The address of a number. -/
def addrOf (v6 : Bool) (value : Nat) : IpListParseAddr := { v6 := v6, hi := value / 2 ^ 64, lo := value % 2 ^ 64 }

theorem addrOf_value {a : IpListParseAddr} (h : a.Valid) : addrOf a.v6 a.value = a := by
  have hlo := h.lo
  obtain ⟨v6, hi, lo⟩ := a
  simp only [addrOf, value, mk.injEq, true_and] at hlo ⊢
  omega

/-- **The words carry out the cover.** -/
theorem coverBlocks_eq {last : IpListParseAddr} (hl : last.Valid) (fuel : Nat)
    (first : IpListParseAddr) (hf : first.Valid)
    (hv6 : first.v6 = last.v6) (hle : first.value ≤ last.value)
    (hsize : last.value + 1 - first.value < 2 ^ ipListParseBits last) :
    coverBlocks last fuel first = (coverLoop (ipListParseBits last) last.value fuel first.value).map
      (fun b => (addrOf last.v6 b.1, ipListParseBits last - b.2)) := by
  induction fuel generalizing first with
  | zero => rfl
  | succ fuel ih =>
    have hbits := bits_of_v6 hv6
    have hlast := hl.value_lt
    have h128 : 2 ^ ipListParseBits last ≤ 2 ^ 128 := by
      refine Nat.pow_le_pow_right (by omega) ?_
      rcases bits_cases last with hb | hb <;> omega
    have hk : min (coverAlign first) (coverFit first last) =
      frontBits (ipListParseBits last) first.value last.value := by
      rw [coverAlign_eq hf, coverFit_eq hf hl hle (by omega), hbits]
      rfl
    obtain ⟨hdvd, hend⟩ := front_spec hlast hle
    obtain ⟨hev6, hevalid, hevalue⟩ := coverEnd_spec hf hdvd (by rw [hbits]; omega)
    rw [coverBlocks, coverLoop]
    simp only [hk, List.map_cons, hbits]
    generalize hblock : coverEnd first (frontBits (ipListParseBits last) first.value last.value) = blockEnd at *
    have hstop : (blockEnd.hi = last.hi ∧ blockEnd.lo = last.lo) ↔
        first.value + 2 ^ frontBits (ipListParseBits last) first.value last.value = last.value + 1 := by
      rw [← hevalue]
      constructor
      · rintro ⟨h1, h2⟩
        unfold value
        rw [h1, h2]
      intro heq
      have := hevalid.eq_of_value hl (hev6.trans hv6) (by omega)
      rw [this]
      exact ⟨rfl, rfl⟩
    have hself : first = addrOf last.v6 first.value := by
      rw [← hv6]
      exact (addrOf_value hf).symm
    by_cases hdone : blockEnd.hi = last.hi ∧ blockEnd.lo = last.lo
    · rw [if_pos hdone, if_pos (hstop.mp hdone), ← hself]
      rfl
    rw [if_neg hdone, if_neg (fun hc => hdone (hstop.mpr hc)), ← hself]
    have hmore : first.value + 2 ^ frontBits (ipListParseBits last) first.value last.value ≠ last.value + 1 :=
      fun hc => hdone (hstop.mpr hc)
    have hebits : ipListParseBits blockEnd = ipListParseBits last := bits_of_v6 (hev6.trans hv6)
    obtain ⟨hnv6, hnvalid, hnvalue⟩ := coverNext_spec hevalid (by rw [hebits]; omega)
    have hnext : (coverNext blockEnd).value =
        first.value + 2 ^ frontBits (ipListParseBits last) first.value last.value := by omega
    have hstep := ih (coverNext blockEnd) hnvalid (hnv6.trans (hev6.trans hv6)) (by omega) (by omega)
    rw [hstep, hnext]

theorem less_iff {a b : IpListParseAddr} (ha : a.Valid) (hb : b.Valid) :
    ipListParseLess a b = true ↔ a.value < b.value := by
  have h1 := ha.lo
  have h2 := hb.lo
  unfold ipListParseLess value
  by_cases hhi : a.hi ≠ b.hi
  · rw [if_pos hhi, decide_eq_true_eq]
    omega
  · rw [if_neg hhi, decide_eq_true_eq]
    omega

theorem coverRange_eq {first last : IpListParseAddr} (hf : first.Valid) (hl : last.Valid) (hv6 : first.v6 = last.v6)
    (hle : first.value ≤ last.value) {blocks : List (IpListParseAddr × Nat)}
    (h : ipListParseCoverRange first last = some blocks) :
    last.value + 1 - first.value < 2 ^ ipListParseBits last ∧
      blocks = (cover (ipListParseBits last) first.value last.value).map
        (fun b => (addrOf last.v6 b.1, ipListParseBits last - b.2)) := by
  unfold ipListParseCoverRange at h
  simp only at h
  by_cases hwhole : first.hi = 0 ∧ first.lo = 0 ∧ last.hi = (if first.v6 = true then 2 ^ 64 - 1 else 0) ∧
      last.lo = (if first.v6 = true then 2 ^ 64 - 1 else 0xffffffff)
  · rw [if_pos hwhole] at h
    cases h
  · rw [if_neg hwhole] at h
    have hlast := hl.value_lt
    have hsize : last.value + 1 - first.value < 2 ^ ipListParseBits last := by
      by_contra hbig
      apply hwhole
      have hfirst : first.value = 0 := by omega
      have htop : last.value + 1 = 2 ^ ipListParseBits last := by omega
      have h1 := hl.lo
      have h2 := hl.hi
      unfold value at hfirst htop
      rcases bits_cases last with ⟨h6, hb⟩ | ⟨h4, hb⟩
      · rw [hb] at htop
        rw [hv6, h6]
        simp only [if_true]
        omega
      · rw [hb] at htop
        have := hl.v4 h4
        rw [hv6, h4]
        simp only [Bool.false_eq_true, if_false]
        omega
    refine ⟨hsize, ?_⟩
    rw [← Option.some.inj h]
    exact coverBlocks_eq hl _ first hf hv6 hle hsize

theorem addrOf_valid {v6 : Bool} {value : Nat} (h : value < 2 ^ (if v6 then 128 else 32)) : (addrOf v6 value).Valid := by
  cases v6 with
  | true =>
    simp only [if_true] at h
    exact ⟨by simp only [addrOf]; omega, by simp only [addrOf]; omega, by simp [addrOf]⟩
  | false =>
    simp only [Bool.false_eq_true, if_false] at h
    exact ⟨by simp only [addrOf]; omega, by simp only [addrOf]; omega,
      fun _ => ⟨by simp only [addrOf]; omega, by simp only [addrOf]; omega⟩⟩

theorem value_addrOf (v6 : Bool) (value : Nat) : (addrOf v6 value).value = value := by
  simp only [IpListParseAddr.value, addrOf]
  omega

/-! ## The least cover -/

/-- A block of a family, its length and all lower bits of the address as they have to be. -/
structure IsBlock (v6 : Bool) (n : IpListParseAddr × Nat) : Prop where
  family : n.1.v6 = v6
  valid : n.1.Valid
  length : n.2 ≤ ipListParseBits n.1
  aligned : 2 ^ (ipListParseBits n.1 - n.2) ∣ n.1.value

/-- The addresses of a block. -/
structure Holds (n : IpListParseAddr × Nat) (addr : IpListParseAddr) : Prop where
  family : addr.v6 = n.1.v6
  above : n.1.value ≤ addr.value
  below : addr.value < n.1.value + 2 ^ (ipListParseBits n.1 - n.2)

/-- Blocks that hold just the addresses of the range. -/
structure RangeCover (first last : IpListParseAddr) (blocks : List (IpListParseAddr × Nat)) : Prop where
  each : ∀ n ∈ blocks, IsBlock first.v6 n
  union : ∀ addr, addr.Valid →
    ((∃ n ∈ blocks, Holds n addr) ↔ addr.v6 = first.v6 ∧ first.value ≤ addr.value ∧ addr.value ≤ last.value)

/-- All addresses of one block come before those of the other. -/
def Before (n m : IpListParseAddr × Nat) : Prop := n.1.value + 2 ^ (ipListParseBits n.1 - n.2) ≤ m.1.value

theorem holds_addrOf {n : IpListParseAddr × Nat} {v6 : Bool} (h : n.1.v6 = v6) (x : Nat) :
    Holds n (addrOf v6 x) ↔ n.1.value ≤ x ∧ x < n.1.value + 2 ^ (ipListParseBits n.1 - n.2) := by
  constructor
  · rintro ⟨-, hlow, hhigh⟩
    rw [value_addrOf] at hlow hhigh
    exact ⟨hlow, hhigh⟩
  · rintro ⟨hlow, hhigh⟩
    exact ⟨h.symm, by rwa [value_addrOf], by rwa [value_addrOf]⟩

section
variable {first last : IpListParseAddr}

theorem RangeCover.length_le {blocks : List (IpListParseAddr × Nat)} (h : RangeCover first last blocks)
    (hl : last.Valid) (hv6 : first.v6 = last.v6) (hle : first.value ≤ last.value) :
    (cover (ipListParseBits last) first.value last.value).length ≤ blocks.length := by
  have hbits : ∀ n ∈ blocks, ipListParseBits n.1 = ipListParseBits last :=
    fun n hn => bits_of_v6 ((h.each n hn).family.trans hv6)
  have hleast := @cover_least _ _ hl.value_lt _ hle (blocks.map fun n => (n.1.value, ipListParseBits n.1 - n.2))
    ?_ ?_ fun x hx => ?_
  · rwa [length_map] at hleast
  · intro b hb
    obtain ⟨n, hn, rfl⟩ := mem_map.mp hb
    exact (h.each n hn).aligned
  · intro b hb
    obtain ⟨n, hn, rfl⟩ := mem_map.mp hb
    have hlt := (h.each n hn).valid.value_lt
    rw [hbits n hn] at hlt
    exact block_fits (h.each n hn).aligned hlt (by rw [hbits n hn]; omega)
  · have hunion := h.union (addrOf first.v6 x) (addrOf_valid (by rw [hv6]; exact hx))
    rw [value_addrOf] at hunion
    constructor
    · rintro ⟨b, hb, hin⟩
      obtain ⟨n, hn, rfl⟩ := mem_map.mp hb
      exact (hunion.mp ⟨n, hn, (holds_addrOf (h.each n hn).family x).mpr hin⟩).2
    · intro hin
      obtain ⟨n, hn, hholds⟩ := hunion.mpr ⟨rfl, hin⟩
      exact ⟨_, mem_map_of_mem hn, (holds_addrOf (h.each n hn).family x).mp hholds⟩

/-- **The blocks of a range**: the loop ends by itself, the blocks ascend and have the addresses of the range,
and no other blocks with these addresses are less. -/
theorem coverRange_least (hf : first.Valid) (hl : last.Valid) (hv6 : first.v6 = last.v6) (hle : first.value ≤ last.value)
    (hpart : ¬(first.value = 0 ∧ last.value + 1 = 2 ^ ipListParseBits last)) :
    ∃ blocks, ipListParseCoverRange first last = some blocks ∧
      (∀ fuel, last.value + 1 - first.value ≤ fuel → coverBlocks last fuel first = blocks) ∧
      RangeCover first last blocks ∧ blocks.Pairwise Before ∧
      ∀ other, RangeCover first last other → blocks.length ≤ other.length := by
  have hlast := hl.value_lt
  have hsize : last.value + 1 - first.value < 2 ^ ipListParseBits last := by omega
  have hblocks : ∀ fuel, last.value + 1 - first.value ≤ fuel →
      coverBlocks last fuel first = (cover (ipListParseBits last) first.value last.value).map
        fun b => (addrOf last.v6 b.1, ipListParseBits last - b.2) := by
    intro fuel hfuel
    rw [coverBlocks_eq hl fuel first hf hv6 hle hsize, coverLoop_fuel hlast hle hfuel]
  have hnumber : ∀ b ∈ cover (ipListParseBits last) first.value last.value,
      2 ^ b.2 ∣ b.1 ∧ BlockIn first.value last.value b.1 b.2 ∧
        (addrOf last.v6 b.1).Valid ∧ ipListParseBits last - (ipListParseBits last - b.2) = b.2 := by
    intro b hb
    obtain ⟨hdvd, hin, -⟩ := (mem_cover_iff hlast hle b.1 b.2).mp hb
    have hlow := hin.1
    have hhigh := hin.2
    have hpos := Nat.two_pow_pos b.2
    have hlt : b.1 < 2 ^ ipListParseBits last := by omega
    have hpow : 2 ^ b.2 ≤ 2 ^ ipListParseBits last := by omega
    have hk : b.2 ≤ ipListParseBits last := (Nat.pow_le_pow_iff_right (by omega)).mp hpow
    exact ⟨hdvd, hin, addrOf_valid hlt, by omega⟩
  have hbits : ∀ a, ipListParseBits (addrOf last.v6 a) = ipListParseBits last := fun _ => rfl
  refine ⟨_, ?_, hblocks, ⟨?_, ?_⟩, ?_, ?_⟩
  · rw [ipListParseCoverRange]
    rw [if_neg, hblocks _ (.refl)]
    rintro ⟨hfhi, hflo, hlhi, hllo⟩
    apply hpart
    rw [value, value, hfhi, hflo, hlhi, hllo]
    rcases bits_cases last with ⟨h6, hb⟩ | ⟨h4, hb⟩
    · rw [hv6, h6, hb]
      decide
    · rw [hv6, h4, hb]
      decide
  · intro n hn
    obtain ⟨b, hb, rfl⟩ := mem_map.mp hn
    obtain ⟨hdvd, -, hvalid, hwidth⟩ := hnumber b hb
    refine ⟨hv6.symm, hvalid, sub_le _ _, ?_⟩
    rw [value_addrOf, hbits, hwidth]
    exact hdvd
  · intro addr haddr
    constructor
    · rintro ⟨n, hn, hholds⟩
      obtain ⟨b, hb, rfl⟩ := mem_map.mp hn
      obtain ⟨-, hin, -, hwidth⟩ := hnumber b hb
      obtain ⟨hfamily, hlow, hhigh⟩ := hholds
      dsimp only at hlow hhigh
      rw [value_addrOf] at hlow hhigh
      rw [hbits, hwidth] at hhigh
      have hstart := hin.1
      have hend := hin.2
      exact ⟨hfamily.trans hv6.symm, by omega, by omega⟩
    · rintro ⟨hfamily, hlow, hhigh⟩
      obtain ⟨a, k, hb, hstart, hend⟩ := coverLoop_covers _ hle (.refl) hlow hhigh
      obtain ⟨-, -, -, hwidth⟩ := hnumber (a, k) hb
      refine ⟨_, mem_map_of_mem hb, hfamily.trans hv6, ?_, ?_⟩
      · rwa [value_addrOf]
      · dsimp only at hwidth ⊢
        rwa [value_addrOf, hbits, hwidth]
  · rw [pairwise_map]
    refine (coverLoop_ascending hlast _ hle).imp_of_mem fun {b c} hb hc hbefore => ?_
    obtain ⟨-, -, -, hwidth⟩ := hnumber b hb
    rw [Before, value_addrOf, value_addrOf, hbits, hwidth]
    exact hbefore
  · intro other hother
    rw [length_map]
    exact hother.length_le hl hv6 hle

/-- Four addresses that no two blocks have. -/
theorem coverRange_least_unaligned :
    (ipListParseCoverRange (addrOf false 1) (addrOf false 4)).map length = some 3 ∧
      ∀ other, RangeCover (addrOf false 1) (addrOf false 4) other → 3 ≤ other.length := by
  obtain ⟨blocks, hblocks, -, -, -, hleast⟩ := @coverRange_least (addrOf false 1) (addrOf false 4)
    (addrOf_valid (by decide)) (addrOf_valid (by decide)) rfl (by decide) (by decide)
  have hlength : (ipListParseCoverRange (addrOf false 1) (addrOf false 4)).map length = some 3 := by decide
  rw [hblocks] at hlength ⊢
  have hthree := Option.some.inj hlength
  exact ⟨hlength, fun other hother => hthree ▸ hleast other hother⟩

end

/-! ## Mapped blocks -/

/-- The first IPv4-mapped address. -/
def mappedStart : Nat := 0xffff * 2 ^ 32

/-- A range that has the block of all mapped addresses for itself. -/
structure CrossesMapped (first last : IpListParseAddr) : Prop where
  v6 : last.v6 = true
  above : mappedStart < first.value + 2 ^ 32
  below : first.value < mappedStart
  beyond : mappedStart + 2 ^ 32 ≤ last.value

section
variable {first last : IpListParseAddr} (hf : first.Valid) (hl : last.Valid) (hv6 : first.v6 = last.v6)
  (hle : first.value ≤ last.value) (hfplain : ipListParseIsMapped first = false)
  (hlplain : ipListParseIsMapped last = false) {blocks : List (IpListParseAddr × Nat)}
  (h : ipListParseCoverRange first last = some blocks)
include hf hl hv6 hle h

theorem coverRange_block {n : IpListParseAddr × Nat} (hn : n ∈ blocks) :
    ∃ a k, (a, k) ∈ cover (ipListParseBits last) first.value last.value ∧ n.1.value = a ∧ n.1.v6 = last.v6 ∧
      n.2 = ipListParseBits last - k ∧ k < ipListParseBits last ∧
      (¬ (ipListParseIsMapped n.1 = true ∧ 96 ≤ n.2) → IsNetwork n) := by
  obtain ⟨hsize, hblocks⟩ := coverRange_eq hf hl hv6 hle h
  rw [hblocks] at hn
  obtain ⟨⟨a, k⟩, hmem, rfl⟩ := List.mem_map.mp hn
  obtain ⟨hdvd, hin, -⟩ := (mem_cover_iff hl.value_lt hle a k).mp hmem
  have hk : k < ipListParseBits last := by
    have hpow : 2 ^ k < 2 ^ ipListParseBits last := by
      have := hin.1
      have := hin.2
      omega
    exact (Nat.pow_lt_pow_iff_right (by omega)).mp hpow
  have hpos := Nat.two_pow_pos k
  have hlast := hl.value_lt
  have hbits : ipListParseBits (addrOf last.v6 a) = ipListParseBits last := rfl
  refine ⟨a, k, hmem, value_addrOf _ _, rfl, rfl, hk, fun hplain => ⟨?_, ?_, ?_, ?_, hplain⟩⟩
  · refine addrOf_valid ?_
    have := hin.2
    have ha : a < 2 ^ ipListParseBits last := by omega
    exact ha
  · simp only
    omega
  · simp only [hbits]
    omega
  · simp only [hbits, value_addrOf]
    rw [show ipListParseBits last - (ipListParseBits last - k) = k by omega]
    exact hdvd

include hfplain hlplain

/-- **The mapped block of a range.**  It is there when the range crosses the mapped
addresses; otherwise every block is a network. -/
theorem coverRange_networks :
    (CrossesMapped first last → (addrOf true mappedStart, 96) ∈ blocks) ∧
      (¬ CrossesMapped first last → ∀ n ∈ blocks, IsNetwork n) := by
  obtain ⟨-, hblocks⟩ := coverRange_eq hf hl hv6 hle h
  constructor
  · intro hcross
    have hb : ipListParseBits last = 128 := by
      unfold ipListParseBits
      rw [hcross.v6]
      rfl
    have hmem : (mappedStart, 32) ∈ cover (ipListParseBits last) first.value last.value := by
      rw [mem_cover_iff hl.value_lt hle]
      have h1 := hcross.above
      have h2 := hcross.below
      have h3 := hcross.beyond
      refine ⟨by decide, ⟨by omega, by omega⟩, ?_⟩
      rintro ⟨hge, -⟩
      have hparent : blockStart mappedStart (32 + 1) = mappedStart - 2 ^ 32 := by decide
      rw [hparent] at hge
      unfold mappedStart at *
      omega
    rw [hblocks]
    refine mem_map.mpr ⟨_, hmem, ?_⟩
    simp [hcross.v6, hb]
  · intro hcross n hn
    obtain ⟨a, k, hmem, hvalue, hnv6, hlen, hk, hnetwork⟩ := coverRange_block hf hl hv6 hle h hn
    refine hnetwork ?_
    rintro ⟨hm, h96⟩
    obtain ⟨hdvd, hin, hmax⟩ := (mem_cover_iff hl.value_lt hle a k).mp hmem
    have hpos := Nat.two_pow_pos k
    have h6 : last.v6 = true := by
      rw [← hnv6]
      simp only [ipListParseIsMapped, Bool.and_eq_true] at hm
      exact hm.1.1
    have hb : ipListParseBits last = 128 := by
      unfold ipListParseBits
      rw [h6]
      rfl
    have hnvalid : n.1.Valid := by
      rw [hblocks] at hn
      obtain ⟨b, hbmem, rfl⟩ := mem_map.mp hn
      obtain ⟨-, hbin, -⟩ := (mem_cover_iff hl.value_lt hle b.1 b.2).mp hbmem
      have hlast := hl.value_lt
      have := Nat.two_pow_pos b.2
      have := hbin.2
      refine addrOf_valid ?_
      have hlt : b.1 < 2 ^ ipListParseBits last := by omega
      exact hlt
    have hdiv := (isMapped_iff.mp hm).2
    rw [hvalue] at hdiv
    have hfirst : ¬ first.value / 2 ^ 32 = 0xffff := by
      intro hc
      have := isMapped_iff.mpr ⟨hv6.trans h6, hc⟩
      rw [hfplain] at this
      cases this
    have hlast : ¬ last.value / 2 ^ 32 = 0xffff := by
      intro hc
      have := isMapped_iff.mpr ⟨h6, hc⟩
      rw [hlplain] at this
      cases this
    have hin1 := hin.1
    have hin2 := hin.2
    have hstart : blockStart a 32 = mappedStart := by
      unfold blockStart
      rw [hdiv]
      rfl
    rw [hlen, hb] at h96
    rcases lt_or_ge k 32 with hsmall | hlarge
    · -- the parent of a smaller block is mapped as a whole
      apply hmax
      have hsub := block_subset a (show k + 1 ≤ 32 by omega)
      rw [hstart] at hsub
      unfold mappedStart at hsub
      exact ⟨by omega, by omega⟩
    have hk32 : k = 32 := by omega
    subst hk32
    have ha : a = mappedStart := by
      rw [← hstart]
      exact (blockStart_of_dvd hdvd).symm
    apply hcross
    refine ⟨h6, ?_, ?_, ?_⟩
    · by_contra habove
      apply hmax
      have hparent : blockStart mappedStart (32 + 1) = mappedStart - 2 ^ 32 := by decide
      rw [ha, hparent]
      unfold mappedStart at *
      exact ⟨by omega, by omega⟩
    · unfold mappedStart at *
      omega
    · unfold mappedStart at *
      omega

end

end Waterdisco.Scan
