import Mathlib.Algebra.Ring.Nat
import Mathlib.Data.List.GetD
import Mathlib.Data.Nat.Find
import Mathlib.Tactic.Basic

/-!
# Bytes as a string of bits

`bitAt bytes i` is the bit at place `i`, counted from the highest bit of the first byte.  A prefix is
the first so many bits; two strings that differ in a prefix have a first difference.

    flipBit j, clearFrom n                                           (bitAt_flipBit, bitAt_clearFrom)
    equal whole bytes and equal masked rest ↔ equal prefix           (agree_iff)
    not equal for n bits ↔ a first difference at one k < n           (first_difference)
-/

namespace Waterdisco

open List Nat

def bitAt (bytes : List (BitVec 8)) (i : Nat) : Bool := (bytes.getD (i / 8) 0).getMsbD (i % 8)

variable {bytes a b : List (BitVec 8)} {i j m n : Nat}

theorem bitAt_of_length_le (h : 8 * bytes.length ≤ i) : bitAt bytes i = false := by
  rw [bitAt, getD_eq_default _ _ (by omega)]
  simp

theorem byte_eq_iff {x y : BitVec 8} : x = y ↔ ∀ m < 8, x.getMsbD m = y.getMsbD m :=
  ⟨fun h _ _ => by rw [h], fun h => BitVec.eq_of_getMsbD_eq fun m hm => h m hm⟩

theorem bitAt_byte (hm : m < 8) : bitAt bytes (8 * j + m) = (bytes.getD j 0).getMsbD m := by
  rw [bitAt, show (8 * j + m) / 8 = j by omega, show (8 * j + m) % 8 = m by omega]

theorem bytes_ext (hlength : a.length = b.length) (h : ∀ i, bitAt a i = bitAt b i) : a = b := by
  refine ext_getElem hlength fun j ha hb => ?_
  refine byte_eq_iff.mpr fun m hm => ?_
  have hbit := h (8 * j + m)
  rwa [bitAt_byte hm, bitAt_byte hm, getD_eq_getElem _ _ ha, getD_eq_getElem _ _ hb] at hbit

/-! ## One bit -/

/-- A byte with the one bit at a place. -/
def single (i : Nat) : BitVec 8 := 0x80#8 >>> (i % 8)

theorem getMsbD_single (hm : m < 8) : (single i).getMsbD m = decide (m = i % 8) := by
  have hall : ∀ m r : Fin 8, (0x80#8 >>> r.val).getMsbD m.val = decide (m.val = r.val) := by decide
  exact hall ⟨m, hm⟩ ⟨i % 8, mod_lt _ (by omega)⟩

def flipBit (bytes : List (BitVec 8)) (i : Nat) : List (BitVec 8) := bytes.modify (i / 8) (· ^^^ single i)

def clearBit (bytes : List (BitVec 8)) (i : Nat) : List (BitVec 8) := bytes.modify (i / 8) (· &&& ~~~single i)

theorem bitAt_modify {f : BitVec 8 → BitVec 8} (hj : j < 8 * bytes.length) :
    bitAt (bytes.modify (j / 8) f) i =
      if i / 8 = j / 8 then (f (bytes.getD (i / 8) 0)).getMsbD (i % 8) else bitAt bytes i := by
  by_cases hsame : i / 8 = j / 8
  · rw [if_pos hsame, bitAt, hsame]
    simp [getD_eq_getElem?_getD, getElem?_eq_getElem (show j / 8 < bytes.length by omega)]
  · rw [if_neg hsame, bitAt, bitAt]
    simp [getD_eq_getElem?_getD, Ne.symm hsame]

theorem place_iff (h : i / 8 = j / 8) : i % 8 = j % 8 ↔ i = j := by omega

theorem bitAt_flipBit (hj : j < 8 * bytes.length) :
    bitAt (flipBit bytes j) i = if i = j then !bitAt bytes i else bitAt bytes i := by
  rw [flipBit, bitAt_modify hj]
  by_cases hsame : i / 8 = j / 8
  · rw [if_pos hsame, BitVec.getMsbD_xor, getMsbD_single (mod_lt _ (by omega)), ← bitAt]
    by_cases hi : i = j
    · rw [if_pos hi, decide_eq_true ((place_iff hsame).mpr hi), Bool.xor_true]
    · rw [if_neg hi, decide_eq_false fun h => hi ((place_iff hsame).mp h), Bool.xor_false]
  · rw [if_neg hsame, if_neg fun h => hsame (by rw [h])]

theorem bitAt_clearBit (hj : j < 8 * bytes.length) :
    bitAt (clearBit bytes j) i = (bitAt bytes i && decide (i ≠ j)) := by
  rw [clearBit, bitAt_modify hj]
  by_cases hsame : i / 8 = j / 8
  · have hm : i % 8 < 8 := mod_lt _ (by omega)
    rw [if_pos hsame, BitVec.getMsbD_and, BitVec.getMsbD_not, getMsbD_single hm, ← bitAt,
      decide_eq_true hm, Bool.true_and,
      ← decide_not]
    simp only [place_iff hsame, ne_eq]
  · have hne : i ≠ j := fun h => hsame (by rw [h])
    rw [if_neg hsame, decide_eq_true hne, Bool.and_true]

/-- All bits from a place on cleared, one after the other. -/
def clearFrom (bytes : List (BitVec 8)) (n : Nat) : List (BitVec 8) :=
  (range' n (8 * bytes.length - n)).foldl clearBit bytes

theorem length_clearFrom (bytes : List (BitVec 8)) (n : Nat) : (clearFrom bytes n).length = bytes.length := by
  have hfold : ∀ (is : List Nat) (bytes : List (BitVec 8)), (is.foldl clearBit bytes).length = bytes.length := by
    intro is
    induction is with
    | nil => exact fun _ => rfl
    | cons i is ih =>
      intro bytes
      rw [foldl_cons, ih, clearBit, length_modify]
  exact hfold _ _

theorem bitAt_clearFrom (bytes : List (BitVec 8)) (n i : Nat) :
    bitAt (clearFrom bytes n) i = (bitAt bytes i && decide (i < n)) := by
  have hfold : ∀ (is : List Nat) (bytes : List (BitVec 8)), (∀ j ∈ is, j < 8 * bytes.length) →
      bitAt (is.foldl clearBit bytes) i = (bitAt bytes i && decide (i ∉ is)) := by
    intro is
    induction is with
    | nil => simp
    | cons j is ih =>
      intro bytes hin
      have hlength : (clearBit bytes j).length = bytes.length := by rw [clearBit, length_modify]
      rw [foldl_cons, ih _ fun j' hj' => hlength ▸ hin j' (.tail _ hj'),
        bitAt_clearBit (hin j (.head _)), Bool.and_assoc, ← Bool.decide_and]
      simp
  rw [clearFrom, hfold _ _ fun j hj => by rw [mem_range'_1] at hj; omega]
  by_cases hlong : 8 * bytes.length ≤ i
  · rw [bitAt_of_length_le hlong, Bool.false_and, Bool.false_and]
  congr 2
  rw [mem_range'_1, eq_iff_iff]
  omega

/-! ## Prefixes -/

/-- The first `n` bits are the same. -/
def Agree (n : Nat) (a b : List (BitVec 8)) : Prop := ∀ i < n, bitAt a i = bitAt b i

theorem Agree.symm (h : Agree n a b) : Agree n b a := fun i hi => (h i hi).symm

theorem Agree.trans {c : List (BitVec 8)} (h : Agree n a b) (h' : Agree n b c) : Agree n a c :=
  fun i hi => (h i hi).trans (h' i hi)

theorem Agree.mono (h : Agree n a b) (hle : m ≤ n) : Agree m a b :=
  fun i hi => h i (lt_of_lt_of_le hi hle)

theorem mask_eq_iff {r : Nat} (hr : r < 8) (x y : BitVec 8) :
    x &&& 0xFF#8 <<< (8 - r) = y &&& 0xFF#8 <<< (8 - r) ↔ ∀ m < r, x.getMsbD m = y.getMsbD m := by
  have hmask : ∀ m < 8, (0xFF#8 <<< (8 - r)).getMsbD m = decide (m < r) := by
    have hall : ∀ m r : Fin 8, (0xFF#8 <<< (8 - r.val)).getMsbD m.val = decide (m.val < r.val) := by decide
    exact fun m hm => hall ⟨m, hm⟩ ⟨r, hr⟩
  rw [byte_eq_iff]
  constructor
  · intro h m hm
    have hbit := h m (by omega)
    rwa [BitVec.getMsbD_and, BitVec.getMsbD_and, hmask m (by omega), decide_eq_true hm,
      Bool.and_true, Bool.and_true] at hbit
  intro h m hm
  rw [BitVec.getMsbD_and, BitVec.getMsbD_and, hmask m hm]
  by_cases hlt : m < r
  · rw [h m hlt]
  · rw [decide_eq_false hlt, Bool.and_false, Bool.and_false]

/-- Whole bytes and the masked rest of one more are compared. -/
theorem agree_iff {w r : Nat} (hr : r < 8) (hlength : a.length = b.length) (hw : w ≤ a.length) :
    a.take w = b.take w ∧ a.getD w 0 &&& 0xFF#8 <<< (8 - r) = b.getD w 0 &&& 0xFF#8 <<< (8 - r) ↔
      Agree (8 * w + r) a b := by
  have htake : a.take w = b.take w ↔ ∀ j < w, a.getD j 0 = b.getD j 0 := by
    constructor
    · intro h j hj
      have hget := congrArg (fun l => l.getD j 0) h
      simpa [getD_eq_getElem?_getD, getElem?_take, hj] using hget
    intro h
    refine ext_getElem (by simp [hlength]) fun j ha _ => ?_
    have hj : j < w := by
      rw [length_take] at ha
      omega
    have hget := h j hj
    rw [getD_eq_getElem _ _ (by omega), getD_eq_getElem _ _ (by omega)] at hget
    rw [getElem_take, getElem_take, hget]
  rw [htake, mask_eq_iff hr]
  constructor
  · rintro ⟨hwhole, hrest⟩ i hi
    rw [bitAt, bitAt]
    rcases lt_or_ge (i / 8) w with hlt | hge
    · rw [hwhole _ hlt]
    · rw [show i / 8 = w by omega]
      exact hrest _ (by omega)
  · intro h
    refine ⟨fun j hj => byte_eq_iff.mpr fun m hm => ?_, fun m hm => ?_⟩
    · rw [← bitAt_byte hm, ← bitAt_byte hm]
      exact h _ (by omega)
    · rw [← bitAt_byte (by omega), ← bitAt_byte (by omega)]
      exact h _ (by omega)

/-- Strings that share a prefix and not a longer one differ first at one place between the two lengths. -/
theorem first_difference (hm : Agree m a b) :
    ¬Agree n a b ↔ ∃ k, m ≤ k ∧ k < n ∧ Agree k a b ∧ bitAt a k ≠ bitAt b k := by
  constructor
  · intro hdiffer
    have hsome : ∃ k, k < n ∧ bitAt a k ≠ bitAt b k := by
      by_contra hnone
      exact hdiffer fun i hi => by_contra fun hne => hnone ⟨i, hi, hne⟩
    obtain ⟨hlt, hne⟩ := Nat.find_spec hsome
    refine ⟨Nat.find hsome, not_lt.mp fun hbefore => hne (hm _ hbefore), hlt, fun i hi => ?_, hne⟩
    exact by_contra fun hfirst => Nat.find_min hsome hi ⟨lt_trans hi hlt, hfirst⟩
  · rintro ⟨k, -, hlt, -, hne⟩ hall
    exact hne (hall k hlt)

end Waterdisco
