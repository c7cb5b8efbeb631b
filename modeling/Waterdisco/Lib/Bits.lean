import Mathlib.Data.List.Basic
import Mathlib.Data.Nat.Bitwise

/-!
# Words as bits

The low bits of a word, highest first (`bits`).  What regroups words of one length into
words of another moves these bits through a buffer; the words that come out are found by
their bits (`flatMap_bits_inj`).

    bits (j + m) (b <<< m ||| v) = bits j b ++ bits m v              (bits_push)
    bits j b = bits n (b >>> (j - n)) ++ bits (j - n) b              (bits_pop)
-/

namespace Waterdisco

open Nat List Bool

/-- The `k` low bits of a word. -/
def bits : Nat → Nat → List Bool
  | 0, _ => []
  | k + 1, v => v.testBit k :: bits k v

@[simp] theorem length_bits (k v : Nat) : (bits k v).length = k := by
  induction k with
  | zero => rfl
  | succ k ih => rw [bits, length_cons, ih]

theorem bits_congr {k v w : Nat} (h : ∀ i < k, v.testBit i = w.testBit i) : bits k v = bits k w := by
  induction k with
  | zero => rfl
  | succ k ih => rw [bits, bits, h k (lt_succ_self k), ih fun i hi => h i (lt_succ_of_lt hi)]

theorem bits_inj {k v w : Nat} (h : bits k v = bits k w) (hv : v < 2 ^ k) (hw : w < 2 ^ k) : v = w := by
  have hsame : ∀ i < k, v.testBit i = w.testBit i := by
    clear hv hw
    induction k with
    | zero => exact fun i hi => absurd hi (not_lt_zero i)
    | succ k ih =>
      rw [bits, bits, cons.injEq] at h
      intro i hi
      rcases Nat.lt_succ_iff_lt_or_eq.mp hi with hi | rfl
      · exact ih h.2 i hi
      · exact h.1
  refine eq_of_testBit_eq fun i => ?_
  by_cases hi : i < k
  · exact hsame i hi
  · have hle : 2 ^ k ≤ 2 ^ i := Nat.pow_le_pow_right (by decide) (not_lt.mp hi)
    rw [testBit_lt_two_pow (lt_of_lt_of_le hv hle), testBit_lt_two_pow (lt_of_lt_of_le hw hle)]

/-- A buffer that is wide enough keeps its low bits. -/
theorem bits_mod {k n : Nat} (h : k ≤ n) (v : Nat) : bits k (v % 2 ^ n) = bits k v := by
  refine bits_congr fun i hi => ?_
  rw [Nat.testBit_mod_two_pow, decide_eq_true (lt_of_lt_of_le hi h), Bool.true_and]

theorem bits_mask (k v : Nat) : bits k (v &&& (2 ^ k - 1)) = bits k v := by
  rw [and_two_pow_sub_one_eq_mod]
  exact bits_mod (le_refl k) v

/-- A word that is shifted in. -/
theorem bits_push (j : Nat) {m v : Nat} (h : v < 2 ^ m) (b : Nat) :
    bits (j + m) (b <<< m ||| v) = bits j b ++ bits m v := by
  induction j with
  | zero =>
    rw [zero_add, bits, nil_append]
    refine bits_congr fun i hi => ?_
    rw [Nat.testBit_or, Nat.testBit_shiftLeft, decide_eq_false (not_le.mpr hi), Bool.false_and, Bool.false_or]
  | succ j ih =>
    have hlow : v.testBit (j + m) = false :=
      Nat.testBit_lt_two_pow (lt_of_lt_of_le h (Nat.pow_le_pow_right (by decide) (Nat.le_add_left m j)))
    rw [succ_add, bits, ih, bits, cons_append, testBit_or, testBit_shiftLeft, hlow,
      decide_eq_true (Nat.le_add_left m j), Bool.true_and, Bool.or_false, Nat.add_sub_cancel]

theorem bits_shiftLeft (j m b : Nat) : bits (j + m) (b <<< m) = bits j b ++ List.replicate m false := by
  have hzero : bits m 0 = replicate m false := by
    induction m with
    | zero => rfl
    | succ m ih => rw [bits, ih, zero_testBit, replicate_succ]
  have hpush := bits_push j (Nat.two_pow_pos m) b
  rw [or_zero] at hpush
  rw [hpush, hzero]

/-- A word that is shifted out. -/
theorem bits_pop {n j : Nat} (h : n ≤ j) (b : Nat) : bits j b = bits n (b >>> (j - n)) ++ bits (j - n) b := by
  obtain ⟨k, rfl⟩ := Nat.exists_eq_add_of_le h
  rw [Nat.add_sub_cancel_left]
  induction n with
  | zero =>
    rw [zero_add]
    rfl
  | succ n ih => rw [succ_add, bits, ih (le_add_right n k), bits, cons_append, testBit_shiftRight, add_comm k n]

/-- Words are found by their bits, whatever incomplete word follows. -/
theorem flatMap_bits_inj {n : Nat} {vs ws : List Nat} {r s : List Bool}
    (h : vs.flatMap (bits n) ++ r = ws.flatMap (bits n) ++ s)
    (hr : r.length < n) (hs : s.length < n) (hvs : ∀ v ∈ vs, v < 2 ^ n) (hws : ∀ w ∈ ws, w < 2 ^ n) : vs = ws := by
  induction vs generalizing ws with
  | nil =>
    cases ws with
    | nil => rfl
    | cons w ws =>
      have hlen := congrArg length h
      simp only [flatMap_nil, nil_append, flatMap_cons, length_append, length_bits] at hlen
      omega
  | cons v vs ih =>
    cases ws with
    | nil =>
      have hlen := congrArg length h
      simp only [flatMap_nil, nil_append, flatMap_cons, length_append, length_bits] at hlen
      omega
    | cons w ws =>
      rw [flatMap_cons, flatMap_cons, append_assoc, append_assoc] at h
      obtain ⟨hhead, htail⟩ := append_inj h (by rw [length_bits, length_bits])
      rw [bits_inj hhead (hvs v (.head _)) (hws w (.head _)),
        ih htail (fun v' hv' => hvs v' (.tail _ hv')) fun w' hw' => hws w' (.tail _ hw')]

end Waterdisco
