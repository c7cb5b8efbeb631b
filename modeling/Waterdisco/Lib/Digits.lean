import Mathlib.Algebra.Ring.Int.Defs
import Mathlib.Algebra.Ring.Nat
import Mathlib.Data.List.Basic
import Mathlib.Data.List.Induction

/-!
# Texts of numbers and of groups

`readDigits` reads a number in a base; it gives back the number whose digits it is
shown.  `decimalDigit` is the reader of the digits of base ten.  `cut` cuts a text at a
character and `splitGap` at its first `::`; a text of groups with a single separator
between them has none.

    readDigits base digit (toDigits base n) = some n           (readDigits_toDigits)
    splitGap (l ++ "::" ++ r) = some (l, r)                    (splitGap_append)
-/

namespace Waterdisco

open Nat List Option

/-! ## Digits -/

section
variable {base : Nat} {digit : Char → Option Nat}

def readDigits (base : Nat) (digit : Char → Option Nat) (text : List Char) : Option Nat :=
  text.foldlM (fun value c => (digit c).map (fun d => value * base + d)) 0

theorem readDigits_concat (text : List Char) (c : Char) :
    readDigits base digit (text ++ [c]) =
      (readDigits base digit text).bind (fun value => (digit c).map (fun d => value * base + d)) := by
  unfold readDigits
  rw [foldlM_append]
  cases foldlM (fun value c => (digit c).map (fun d => value * base + d)) 0 text with
  | none => rfl
  | some value => cases h : digit c <;> simp [h]

theorem readDigits_toDigits (hb : 1 < base) (hd : ∀ d, d < base → digit (digitChar d) = some d) (n : Nat) :
    readDigits base digit (toDigits base n) = some n := by
  induction n using Nat.strongRecOn with
  | ind n ih =>
    rw [toDigits_eq_if hb]
    by_cases hn : n < base
    · rw [if_pos hn]
      simp [readDigits, hd n hn]
    have hlt : n / base < n := div_lt_self (by omega) hb
    rw [if_neg hn, readDigits_concat, ih _ hlt, hd _ (mod_lt _ (by omega))]
    simp only [bind_some, map_some, some.injEq]
    rw [mul_comm]
    exact div_add_mod n base

theorem readDigits_lt (hd : ∀ c d, digit c = some d → d < base) {text : List Char} {n : Nat}
    (h : readDigits base digit text = some n) : n < base ^ text.length := by
  induction text using reverseRecOn generalizing n with
  | nil =>
    have hn : n = 0 := by simpa [readDigits] using h.symm
    simp [hn]
  | append_singleton text c ih =>
    rw [readDigits_concat] at h
    obtain ⟨value, hvalue, hc⟩ := bind_eq_some_iff.mp h
    obtain ⟨d, hdigit, rfl⟩ := map_eq_some_iff.mp hc
    have hlt := ih hvalue
    have hdlt := hd c d hdigit
    rw [length_append, length_singleton, pow_succ]
    calc value * base + d < value * base + base := by omega
      _ = (value + 1) * base := by rw [add_mul, one_mul]
      _ ≤ base ^ text.length * base := mul_le_mul_right _ hlt

theorem mem_toDigits (hb : 1 < base) {n : Nat} {c : Char} (h : c ∈ toDigits base n) :
    ∃ d, d < base ∧ c = digitChar d := by
  induction n using Nat.strongRecOn with
  | ind n ih =>
    rw [toDigits_eq_if hb] at h
    by_cases hn : n < base
    · rw [if_pos hn] at h
      exact ⟨n, hn, mem_singleton.mp h⟩
    rw [if_neg hn] at h
    rcases mem_append.mp h with h | h
    · exact ih _ (div_lt_self (by omega) hb) h
    · exact ⟨n % base, mod_lt _ (by omega), mem_singleton.mp h⟩

/-- Only the number 0 begins with a zero. -/
theorem head_toDigits (hb : 1 < base) {n : Nat} (h : (toDigits base n).head? = some '0') : n = 0 := by
  induction n using Nat.strongRecOn with
  | ind n ih =>
    rw [toDigits_eq_if hb] at h
    by_cases hn : n < base
    · rw [if_pos hn] at h
      simpa using h
    rw [if_neg hn, head?_append_of_ne_nil _ toDigits_ne_nil] at h
    have hzero := ih _ (div_lt_self (by omega) hb) h
    have hpos : 0 < n / base := div_pos (by omega) (by omega)
    omega

end

theorem toDigits_inj {m n : Nat} (h : toDigits 10 m = toDigits 10 n) : m = n := by
  rw [← ofDigitChars_ten_toDigits (n := m), h, ofDigitChars_ten_toDigits]

def decimalDigit (c : Char) : Option Nat := if '0' ≤ c ∧ c ≤ '9' then some (c.toNat - '0'.toNat) else none

theorem decimalDigit_digitChar (d : Nat) (h : d < 10) : decimalDigit (digitChar d) = some d := by
  revert d
  decide

/-- `isspace` of the C locale. -/
def isSpace (c : Char) : Bool := c == ' ' || c == '\t' || c == '\n' || c == '\r' || c == '\u000b' || c == '\u000c'

/-! ## Cuts -/

/-- The text before and after the first `c`. -/
def cut (c : Char) : List Char → Option (List Char × List Char)
  | [] => none
  | a :: rest => if a = c then some ([], rest) else (cut c rest).map (fun p => (a :: p.1, p.2))

variable {c : Char} {text l : List Char} {ls : List (List Char)}

theorem cut_eq_none (h : c ∉ text) : cut c text = none := by
  induction text with
  | nil => rfl
  | cons a rest ih =>
    have ha : a ≠ c := fun hc => h (by simp [hc])
    rw [cut, if_neg ha, ih (fun hc => h (.tail _ hc))]
    rfl

theorem mem_of_cut {parts : List Char × List Char} (h : cut c text = some parts) :
    c ∈ text := by
  by_contra hc
  rw [cut_eq_none hc] at h
  cases h

theorem cut_some {r : List Char} (h : cut c text = some (l, r)) : text = l ++ c :: r ∧ c ∉ l := by
  induction text generalizing l r with
  | nil => cases h
  | cons a rest ih =>
    rw [cut] at h
    split at h
    · next ha =>
      cases h
      exact ⟨by rw [ha]; rfl, by simp⟩
    next ha =>
    obtain ⟨⟨l', r'⟩, hcut, heq⟩ := map_eq_some_iff.mp h
    obtain ⟨rfl, rfl⟩ := Prod.mk.inj heq
    obtain ⟨rfl, hnot⟩ := ih hcut
    exact ⟨rfl, by simp [Ne.symm ha, hnot]⟩

theorem cut_append (h : c ∉ l) (r : List Char) : cut c (l ++ c :: r) = some (l, r) := by
  induction l with
  | nil => simp [cut]
  | cons a l ih =>
    have ha : a ≠ c := fun hc => h (by simp [hc])
    rw [cons_append, cut, if_neg ha, ih (fun hc => h (.tail _ hc))]
    rfl

/-! ## Gaps -/

/-- The text before and after the first `::`. -/
def splitGap : List Char → Option (List Char × List Char)
  | [] => none
  | [_] => none
  | a :: b :: rest =>
    if a = ':' ∧ b = ':' then some ([], rest)
    else (splitGap (b :: rest)).map (fun p => (a :: p.1, p.2))

theorem splitGap_cons_of_ne {a : Char} (ha : a ≠ ':') (l : List Char) :
    splitGap (a :: l) = (splitGap l).map (fun p => (a :: p.1, p.2)) := by
  cases l with
  | nil => rfl
  | cons b l => simp [splitGap, ha]

/-- A text without a separator does not begin a gap. -/
theorem splitGap_append_of_not_mem (h : ':' ∉ l) (r : List Char) :
    splitGap (l ++ r) = (splitGap r).map (fun p => (l ++ p.1, p.2)) := by
  induction l with
  | nil => simp
  | cons a l ih =>
    have ha : a ≠ ':' := fun hc => h (by simp [hc])
    rw [List.cons_append, splitGap_cons_of_ne ha, ih (fun hc => h (.tail _ hc)), Option.map_map]
    rfl

theorem splitGap_sep (hl : l ≠ []) (h : ':' ∉ l) (r : List Char) :
    splitGap (':' :: (l ++ r)) = (splitGap r).map (fun p => (':' :: (l ++ p.1), p.2)) := by
  cases l with
  | nil => exact absurd rfl hl
  | cons a l =>
    have ha : a ≠ ':' := fun hc => h (by simp [hc])
    have hrest := splitGap_append_of_not_mem h r
    rw [cons_append] at hrest ⊢
    show (if ':' = ':' ∧ a = ':' then _ else (splitGap (a :: (l ++ r))).map _) = _
    rw [if_neg (by simp [ha]), hrest, Option.map_map]
    rfl

variable (h : ∀ l ∈ ls, l ≠ [] ∧ ':' ∉ l)

include h in
/-- Groups with one separator before each are passed over. -/
theorem splitGap_flatMap (r : List Char) :
    splitGap (ls.flatMap (fun l => ':' :: l) ++ r) =
      (splitGap r).map (fun p => (ls.flatMap (fun l => ':' :: l) ++ p.1, p.2)) := by
  induction ls with
  | nil => simp
  | cons l ls ih =>
    obtain ⟨hl, hc⟩ := h l (by simp)
    have hrest := ih (fun m hm => h m (.tail _ hm))
    simp only [flatMap_cons, cons_append, append_assoc]
    rw [splitGap_sep hl hc, hrest, Option.map_map]
    rfl

/-- The groups with one separator between them. -/
def joinGroups : List (List Char) → List Char
  | [] => []
  | l :: ls => l ++ ls.flatMap (fun m => ':' :: m)

theorem joinGroups_eq_intercalate (ls : List (List Char)) : joinGroups ls = [':'].intercalate ls := by
  induction ls with
  | nil => rfl
  | cons l ls ih =>
    cases ls with
    | nil => simp [joinGroups]
    | cons m ls =>
      rw [intercalate_cons_cons, ← ih]
      simp [joinGroups]

include h

theorem splitGap_joinGroups (r : List Char) :
    splitGap (joinGroups ls ++ r) = (splitGap r).map (fun p => (joinGroups ls ++ p.1, p.2)) := by
  cases ls with
  | nil => simp [joinGroups]
  | cons l ls =>
    have hrest := splitGap_flatMap (fun m hm => h m (.tail _ hm)) r
    rw [joinGroups, List.append_assoc, splitGap_append_of_not_mem (h l (by simp)).2, hrest, Option.map_map]
    simp only [Function.comp_def, append_assoc]

theorem splitGap_eq_none :
    splitGap (joinGroups ls) = none := by
  have := splitGap_joinGroups h []
  simpa [splitGap] using this

theorem splitGap_append (r : List Char) :
    splitGap (joinGroups ls ++ ':' :: ':' :: r) = some (joinGroups ls, r) := by
  rw [splitGap_joinGroups h]
  simp [splitGap]

/-- After a gap, another one would begin with its second separator. -/
theorem splitGap_after :
    splitGap (':' :: joinGroups ls) = none := by
  cases ls with
  | nil => rfl
  | cons l ls =>
    have := splitGap_flatMap (fun m hm => h m hm) ([] : List Char)
    simpa [splitGap, joinGroups] using this

end Waterdisco
