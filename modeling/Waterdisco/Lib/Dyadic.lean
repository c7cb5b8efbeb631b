import Mathlib.Algebra.Ring.Int.Defs
import Mathlib.Algebra.Ring.Nat
import Mathlib.Data.List.Perm.Subperm
import Mathlib.Data.Nat.Log

/-!
# Aligned blocks of powers of two

`(a, k)` stands for the block of `2 ^ k` numbers from `a` on; it is aligned when
`2 ^ k` divides `a`.  `cover` takes, again and again, the largest aligned block at
the front of what is left of a range.

    the cover of [first, last] is the aligned blocks inside it whose parent is not
                                                               (mem_cover_iff)
    no list of aligned blocks with that union is shorter       (cover_least)
-/

namespace Waterdisco

open Nat List

/-! ## Low zeros -/

/-- The number of low zero bits of a word. -/
def lowZeros : Nat → Nat → Nat
  | 0, _ => 0
  | w + 1, n => if n % 2 = 1 then 0 else lowZeros w (n / 2) + 1

theorem le_lowZeros_iff (w n k : Nat) : k ≤ lowZeros w n ↔ k ≤ w ∧ 2 ^ k ∣ n := by
  induction w generalizing n k with
  | zero =>
    show k ≤ 0 ↔ _
    constructor
    · intro h
      have hk : k = 0 := by omega
      exact ⟨h, by rw [hk]; exact Nat.one_dvd n⟩
    · exact fun h => h.1
  | succ w ih =>
    rw [lowZeros]
    cases k with
    | zero => simp
    | succ k =>
      by_cases hodd : n % 2 = 1
      · rw [if_pos hodd]
        constructor
        · intro h
          omega
        · rintro ⟨-, hdvd⟩
          have htwo : 2 ∣ n := Nat.dvd_trans (Nat.dvd_mul_left 2 (2 ^ k)) hdvd
          omega
      rw [if_neg hodd]
      have hn : n = 2 * (n / 2) := by omega
      have hdvd : 2 ^ (k + 1) ∣ n ↔ 2 ^ k ∣ n / 2 := by
        rw [hn, Nat.pow_succ, Nat.mul_comm (2 ^ k) 2, Nat.mul_dvd_mul_iff_left (by omega)]
        simp
      have hle : k + 1 ≤ lowZeros w (n / 2) + 1 ↔ k ≤ lowZeros w (n / 2) := by omega
      rw [hle, ih, hdvd]
      omega

/-! ## Blocks -/

/-- The block of `2 ^ k` numbers that `x` is in begins here. -/
def blockStart (x k : Nat) : Nat := x / 2 ^ k * 2 ^ k

theorem blockStart_le (x k : Nat) : blockStart x k ≤ x := div_mul_le_self x (2 ^ k)

theorem lt_blockStart (x k : Nat) : x < blockStart x k + 2 ^ k := by
  have := Nat.div_add_mod x (2 ^ k)
  unfold blockStart
  rw [Nat.mul_comm]
  omega

theorem blockStart_of_dvd {a k : Nat} (h : 2 ^ k ∣ a) : blockStart a k = a := Nat.div_mul_cancel h

theorem dvd_blockStart (x k : Nat) : 2 ^ k ∣ blockStart x k := Nat.dvd_mul_left _ _

theorem blockStart_of_mem {a k x : Nat} (h : 2 ^ k ∣ a) (hle : a ≤ x) (hlt : x < a + 2 ^ k) : blockStart x k = a := by
  obtain ⟨q, rfl⟩ := h
  unfold blockStart
  have hdiv : x / 2 ^ k = q := by
    rw [Nat.div_eq_iff (Nat.two_pow_pos k)]
    rw [mul_comm] at hle hlt
    constructor
    · omega
    · omega
  rw [hdiv, mul_comm]

/-- An aligned block does not reach over the end of the words. -/
theorem block_fits {a k w : Nat} (hdvd : 2 ^ k ∣ a) (ha : a < 2 ^ w) (hk : k ≤ w) : a + 2 ^ k ≤ 2 ^ w := by
  obtain ⟨q, rfl⟩ := hdvd
  obtain ⟨r, hr⟩ := Nat.pow_dvd_pow 2 hk
  rw [hr] at ha ⊢
  have hqr : q < r := Nat.lt_of_mul_lt_mul_left ha
  calc 2 ^ k * q + 2 ^ k = 2 ^ k * (q + 1) := by rw [mul_add, mul_one]
    _ ≤ 2 ^ k * r := mul_le_mul_left _ hqr

/-- A smaller block lies inside the larger one of the same number. -/
theorem block_subset (x : Nat) {j k : Nat} (h : j ≤ k) :
    blockStart x k ≤ blockStart x j ∧ blockStart x j + 2 ^ j ≤ blockStart x k + 2 ^ k := by
  obtain ⟨d, rfl⟩ := Nat.exists_eq_add_of_le h
  have hpow : 2 ^ (j + d) = 2 ^ d * 2 ^ j := by rw [pow_add, mul_comm]
  have hdiv : x / 2 ^ (j + d) = x / 2 ^ j / 2 ^ d := by rw [Nat.pow_add, Nat.div_div_eq_div_mul]
  unfold blockStart
  rw [hpow, ← hpow, hdiv, hpow, ← mul_assoc, ← add_mul]
  have hlow := div_mul_le_self (x / 2 ^ j) (2 ^ d)
  have hhigh : x / 2 ^ j + 1 ≤ x / 2 ^ j / 2 ^ d * 2 ^ d + 2 ^ d := lt_blockStart (x / 2 ^ j) d
  constructor
  · exact mul_le_mul_right _ hlow
  · calc x / 2 ^ j * 2 ^ j + 2 ^ j = (x / 2 ^ j + 1) * 2 ^ j := by rw [add_mul, one_mul]
      _ ≤ (x / 2 ^ j / 2 ^ d * 2 ^ d + 2 ^ d) * 2 ^ j := mul_le_mul_right _ hhigh

theorem and_high (w : Nat) {n : Nat} (h : n < 2 ^ w) (k : Nat) :
    n &&& ((2 ^ w - 1) <<< k) % 2 ^ w = blockStart n k := by
  apply eq_of_testBit_eq
  intro i
  unfold blockStart
  rw [testBit_and, testBit_mod_two_pow, testBit_shiftLeft, testBit_two_pow_sub_one, mul_comm,
    testBit_two_pow_mul, testBit_div_two_pow]
  by_cases hk : k ≤ i
  · by_cases hw : i < w
    · simp [hk, hw, show i - k < w by omega]
    have hzero : n.testBit i = false :=
      Nat.testBit_lt_two_pow (Nat.lt_of_lt_of_le h (Nat.pow_le_pow_right (by omega) (by omega)))
    simp [hk, hzero]
  · simp [hk]

/-- The block lies inside the range. -/
def BlockIn (first last a k : Nat) : Prop := first ≤ a ∧ a + 2 ^ k ≤ last + 1

/-! ## The cover -/

/-- The largest aligned block at the front of a range. -/
def frontBits (w first last : Nat) : Nat := min (lowZeros w first) (log2 (last + 1 - first))

theorem le_frontBits_iff {w first last : Nat} (h : first ≤ last) (hlast : last < 2 ^ w) (k : Nat) :
    k ≤ frontBits w first last ↔ 2 ^ k ∣ first ∧ first + 2 ^ k ≤ last + 1 := by
  unfold frontBits
  rw [Nat.le_min, le_lowZeros_iff, Nat.le_log2 (by omega)]
  constructor
  · rintro ⟨⟨-, hdvd⟩, hsize⟩
    exact ⟨hdvd, by omega⟩
  rintro ⟨hdvd, hsize⟩
  refine ⟨⟨?_, hdvd⟩, by omega⟩
  have hpow : 2 ^ k ≤ 2 ^ w := by omega
  exact (Nat.pow_le_pow_iff_right (by omega)).mp hpow

/-- The blocks of a range of numbers of `w` bits; every block has a number, so that `fuel`
for each number of the range is enough. -/
def coverLoop (w last : Nat) : Nat → Nat → List (Nat × Nat)
  | 0, _ => []
  | fuel + 1, first =>
    let k := frontBits w first last
    (first, k) :: if first + 2 ^ k = last + 1 then [] else coverLoop w last fuel (first + 2 ^ k)

def cover (w first last : Nat) : List (Nat × Nat) := coverLoop w last (last + 1 - first) first

section
variable {w last : Nat} (hlast : last < 2 ^ w)
include hlast

variable {first : Nat} (fuel : Nat)

variable (h : first ≤ last)

include h

theorem front_spec :
    2 ^ frontBits w first last ∣ first ∧ first + 2 ^ frontBits w first last ≤ last + 1 :=
  (le_frontBits_iff h hlast _).mp (.refl)

theorem coverLoop_inside {a k : Nat}
    (hmem : (a, k) ∈ coverLoop w last fuel first) : 2 ^ k ∣ a ∧ BlockIn first last a k := by
  induction fuel generalizing first with
  | zero => cases hmem
  | succ fuel ih =>
    obtain ⟨hdvd, hsize⟩ := front_spec hlast h
    rcases mem_cons.mp hmem with heq | hmem
    · simp only [Prod.mk.injEq] at heq
      obtain ⟨rfl, rfl⟩ := heq
      exact ⟨hdvd, .refl, hsize⟩
    split at hmem
    · cases hmem
    obtain ⟨hd, hin⟩ := ih (by omega) hmem
    exact ⟨hd, by have := hin.1; omega, hin.2⟩

omit hlast in
/-- Every number of the range is in a block. -/
theorem coverLoop_covers (hfuel : last + 1 - first ≤ fuel) {x : Nat}
    (hx : first ≤ x) (hxl : x ≤ last) : ∃ a k, (a, k) ∈ coverLoop w last fuel first ∧ a ≤ x ∧ x < a + 2 ^ k := by
  induction fuel generalizing first with
  | zero => omega
  | succ fuel ih =>
    have hpos := Nat.two_pow_pos (frontBits w first last)
    rw [coverLoop]
    by_cases hfront : x < first + 2 ^ frontBits w first last
    · exact ⟨first, _, .head _, hx, hfront⟩
    rw [if_neg (by omega)]
    obtain ⟨a, k, hmem, hle, hlt⟩ := @ih (first + 2 ^ frontBits w first last) (by omega) (by omega) (by omega)
    exact ⟨a, k, mem_cons_of_mem _ hmem, hle, hlt⟩

theorem coverLoop_maximal {a k : Nat}
    (hmem : (a, k) ∈ coverLoop w last fuel first) : ¬ BlockIn first last (blockStart a (k + 1)) (k + 1) := by
  induction fuel generalizing first with
  | zero => cases hmem
  | succ fuel ih =>
    obtain ⟨hdvd, hsize⟩ := front_spec hlast h
    have hfront := le_frontBits_iff h hlast (k + 1)
    rintro ⟨hge, hend⟩
    rcases mem_cons.mp hmem with heq | hmem
    · simp only [Prod.mk.injEq] at heq
      obtain ⟨rfl, rfl⟩ := heq
      have hstart : blockStart a (frontBits w a last + 1) = a := le_antisymm (blockStart_le _ _) hge
      have hdvd' := dvd_blockStart a (frontBits w a last + 1)
      rw [hstart] at hdvd' hend
      omega
    split at hmem
    · cases hmem
    have hnext : first + 2 ^ frontBits w first last ≤ last := by omega
    have hin := (coverLoop_inside hlast fuel hnext hmem).2.1
    refine ih hnext hmem ⟨?_, hend⟩
    -- a parent that begins in the front block would lie in it, or be larger and begin with it
    by_contra hbefore
    have hmem1 : blockStart (blockStart a (k + 1)) (frontBits w first last) = first :=
      blockStart_of_mem hdvd hge (by omega)
    have hmem2 : blockStart (blockStart a (k + 1)) (k + 1) = blockStart a (k + 1) :=
      blockStart_of_dvd (dvd_blockStart _ _)
    rcases lt_or_ge (frontBits w first last) (k + 1) with hsmall | hlarge
    · have hsub := (block_subset (blockStart a (k + 1)) (le_of_lt hsmall)).1
      have hstart : blockStart a (k + 1) = first := by omega
      have := hfront.mpr ⟨by rw [← hstart]; exact dvd_blockStart _ _, by omega⟩
      omega
    · have hsub := (block_subset (blockStart a (k + 1)) hlarge).2
      have := lt_blockStart a (k + 1)
      omega

/-- **The cover is the largest aligned blocks inside the range.** -/
theorem mem_cover_iff (a k : Nat) :
    (a, k) ∈ cover w first last ↔
      2 ^ k ∣ a ∧ BlockIn first last a k ∧ ¬ BlockIn first last (blockStart a (k + 1)) (k + 1) := by
  constructor
  · intro hmem
    obtain ⟨hdvd, hin⟩ := coverLoop_inside hlast _ h hmem
    exact ⟨hdvd, hin, coverLoop_maximal hlast _ h hmem⟩
  rintro ⟨hdvd, hin, hparent⟩
  obtain ⟨b, j, hmem, hle, hlt⟩ := coverLoop_covers _ h (.refl) hin.1 (by have := hin.2; omega)
  obtain ⟨hbdvd, hbin⟩ := coverLoop_inside hlast _ h hmem
  have hb : blockStart a j = b := blockStart_of_mem hbdvd hle hlt
  have ha : blockStart a k = a := blockStart_of_dvd hdvd
  rcases Nat.lt_trichotomy j k with hlt' | rfl | hgt
  · -- the parent of the smaller block lies in the given one
    exfalso
    refine coverLoop_maximal hlast _ h hmem ?_
    have hsub := block_subset a (show j + 1 ≤ k by omega)
    rw [ha] at hsub
    have hparent : blockStart b (j + 1) = blockStart a (j + 1) := by
      have h1 := block_subset a (show j ≤ j + 1 by omega)
      rw [hb] at h1
      exact blockStart_of_mem (dvd_blockStart _ _) h1.1 (by omega)
    rw [hparent]
    exact ⟨Nat.le_trans hin.1 hsub.1, Nat.le_trans hsub.2 hin.2⟩
  · rw [← ha, hb]
    exact hmem
  · exfalso
    apply hparent
    have hsub := block_subset a (show k + 1 ≤ j by omega)
    rw [hb] at hsub
    exact ⟨Nat.le_trans hbin.1 hsub.1, Nat.le_trans hsub.2 hbin.2⟩

/-- The blocks ascend, and none reaches into the next one. -/
theorem coverLoop_ascending :
    (coverLoop w last fuel first).Pairwise fun b c => b.1 + 2 ^ b.2 ≤ c.1 := by
  induction fuel generalizing first with
  | zero => exact Pairwise.nil
  | succ fuel ih =>
    obtain ⟨-, hsize⟩ := front_spec hlast h
    rw [coverLoop]
    split
    · exact pairwise_singleton _ _
    · have hnext : first + 2 ^ frontBits w first last ≤ last := by omega
      exact pairwise_cons.mpr ⟨fun c hc => (coverLoop_inside hlast fuel hnext hc).2.1, ih hnext⟩

theorem coverLoop_fuel {fuel : Nat} (hfuel : last + 1 - first ≤ fuel) :
    coverLoop w last fuel first = cover w first last := by
  have hstep : ∀ n m first, first ≤ last → last + 1 - first ≤ n → last + 1 - first ≤ m →
      coverLoop w last n first = coverLoop w last m first := by
    intro n
    induction n with
    | zero => intros; omega
    | succ n ih =>
      intro m first h hn hm
      obtain ⟨m, rfl⟩ : ∃ m', m = m' + 1 := ⟨m - 1, by omega⟩
      obtain ⟨-, hsize⟩ := front_spec hlast h
      have hpos := Nat.two_pow_pos (frontBits w first last)
      rw [coverLoop, coverLoop]
      split
      · rfl
      · rw [ih m _ (by omega) (by omega) (by omega)]
  exact hstep _ _ _ h hfuel (.refl)

/-- **No cover has less blocks.**  Each block of the cover is charged to a block that has its first
number, and no two to the same one: it would have the parent of the first inside the range. -/
theorem cover_least {blocks : List (Nat × Nat)} (haligned : ∀ b ∈ blocks, 2 ^ b.2 ∣ b.1)
    (hfits : ∀ b ∈ blocks, b.1 + 2 ^ b.2 ≤ 2 ^ w)
    (hunion : ∀ x < 2 ^ w, (∃ b ∈ blocks, b.1 ≤ x ∧ x < b.1 + 2 ^ b.2) ↔ first ≤ x ∧ x ≤ last) :
    (cover w first last).length ≤ blocks.length := by
  have hinside : ∀ b ∈ blocks, BlockIn first last b.1 b.2 := by
    intro b hb
    have hpos := Nat.two_pow_pos b.2
    have hlast := hfits b hb
    have hlow := (hunion b.1 (by omega)).mp ⟨b, hb, .refl, by omega⟩
    have hhigh := (hunion (b.1 + 2 ^ b.2 - 1) (by omega)).mp ⟨b, hb, by omega, by omega⟩
    exact ⟨hlow.1, by omega⟩
  have hcharge : ∀ c ∈ cover w first last, ∃ b ∈ blocks, b.1 ≤ c.1 ∧ c.1 < b.1 + 2 ^ b.2 := by
    intro c hc
    obtain ⟨-, hin⟩ := coverLoop_inside hlast _ h hc
    have hpos := Nat.two_pow_pos c.2
    have hend := hin.2
    exact (hunion c.1 (by omega)).mpr ⟨hin.1, by omega⟩
  choose! charge hmem hfirst using hcharge
  have hsep : (cover w first last).Pairwise fun c d => charge c ≠ charge d := by
    refine (coverLoop_ascending hlast _ h).imp_of_mem fun {c d} hc hd hbefore heq => ?_
    obtain ⟨-, -, hmax⟩ := (mem_cover_iff hlast h c.1 c.2).mp hc
    obtain ⟨hlow, hhigh⟩ := hfirst c hc
    have hnext := hfirst d hd
    rw [← heq] at hnext
    have hin := hinside _ (hmem c hc)
    have hstart := blockStart_of_mem (haligned _ (hmem c hc)) hlow hhigh
    have hself : blockStart c.1 c.2 = c.1 := blockStart_of_dvd (coverLoop_inside hlast _ h hc).1
    rcases lt_or_ge c.2 (charge c).2 with hlarge | hsmall
    · have hsub := block_subset c.1 (succ_le_of_lt hlarge)
      rw [hstart] at hsub
      exact hmax ⟨le_trans hin.1 hsub.1, le_trans hsub.2 hin.2⟩
    -- a block no larger than `c` ends before `d`
    have hsub := (block_subset c.1 hsmall).2
    omega
  have hsubset : (cover w first last).map charge ⊆ blocks := by
    intro b hb
    obtain ⟨c, hc, rfl⟩ := mem_map.mp hb
    exact hmem c hc
  have hlength := (subperm_of_subset (pairwise_map.mpr hsep) hsubset).length_le
  rwa [length_map] at hlength

end

end Waterdisco
