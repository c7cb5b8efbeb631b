import Mathlib.Data.List.Basic
import Mathlib.Data.Nat.Bitwise

/-!
# Protobuf messages

The writer and the reader of OTP.cpp for messages in protobuf's wire format.  A reader
takes the bytes from its position on and gives back those it has not read; numbers of type
`quint64` are below `2 ^ 64`.

    pbReadVarint (pbWriteVarint v ++ rest) = (v, rest)               (pbReadVarint_write)
    pbReadFields (fields written) = fields                           (pbReadFields_written)
-/

namespace Waterdisco.OTP

open Nat List Bool Prod

/-! ## Writing -/

/-- The loop of `pbWriteVarint`; ten turns are enough for 64 bits. -/
def pbWriteVarintFrom : Nat → Nat → List UInt8
  | 0, _ => []
  | turns + 1, value =>
    if value >>> 7 = 0 then [UInt8.ofNat (value &&& 0x7f)]
    else UInt8.ofNat (value &&& 0x7f ||| 0x80) :: pbWriteVarintFrom turns (value >>> 7)

def pbWriteVarint (value : Nat) : List UInt8 := pbWriteVarintFrom 10 value

def pbWriteTag (field wireType : Nat) : List UInt8 := pbWriteVarint (field <<< 3 ||| wireType)

def pbWriteBytes (field : Nat) (value : List UInt8) : List UInt8 :=
  pbWriteTag field 2 ++ pbWriteVarint value.length ++ value

def pbWriteUint (field value : Nat) : List UInt8 := pbWriteTag field 0 ++ pbWriteVarint value

/-! ## Reading -/

def pbReadVarintFrom : Nat → Nat → List UInt8 → Option (Nat × List UInt8)
  | _, _, [] => none
  | shift, value, byte :: rest =>
    let value := value ||| ((byte.toNat &&& 0x7f) <<< shift) % 2 ^ 64
    if byte.toNat &&& 0x80 = 0 then some (value, rest)
    else if 63 < shift + 7 then none
    else pbReadVarintFrom (shift + 7) value rest

def pbReadVarint (input : List UInt8) : Option (Nat × List UInt8) := pbReadVarintFrom 0 0 input

structure PbField where
  field : Nat
  wireType : Nat
  varint : Nat
  bytes : List UInt8

/-- The number of the field is cut to an `int`. -/
def pbReadField (input : List UInt8) : Option (PbField × List UInt8) :=
  match pbReadVarint input with
  | none => none
  | some (tag, rest) =>
    let field := (tag >>> 3) % 2 ^ 32
    match tag &&& 0x07 with
    | 0 => (pbReadVarint rest).map fun r => (⟨field, 0, r.1, []⟩, r.2)
    | 1 => if rest.length < 8 then none else some (⟨field, 1, 0, []⟩, rest.drop 8)
    | 2 =>
      match pbReadVarint rest with
      | none => none
      | some (len, rest) => if rest.length < len then none else some (⟨field, 2, 0, rest.take len⟩, rest.drop len)
    | 5 => if rest.length < 4 then none else some (⟨field, 5, 0, []⟩, rest.drop 4)
    | _ => none

/-- All fields of a message, or none if one cannot be read.  Each takes a byte at least. -/
def pbReadFieldsFrom : Nat → List UInt8 → Option (List PbField)
  | _, [] => some []
  | 0, _ => none
  | turns + 1, input =>
    match pbReadField input with
    | none => none
    | some (f, rest) => (pbReadFieldsFrom turns rest).map (f :: ·)

def pbReadFields (input : List UInt8) : Option (List PbField) := pbReadFieldsFrom input.length input

/-! ## Varints -/

theorem and_127 (v : Nat) : v &&& 0x7f = v % 2 ^ 7 := and_two_pow_sub_one_eq_mod v 7

theorem byte_last {v : Nat} (h : v < 2 ^ 7) : (UInt8.ofNat v).toNat = v ∧ v &&& 0x80 = 0 := by
  refine ⟨?_, ?_⟩
  · rw [UInt8.toNat_ofNat']
    omega
  refine eq_of_testBit_eq fun i => ?_
  rw [testBit_and, zero_testBit, show (0x80 : Nat) = 2 ^ 7 from rfl, testBit_two_pow]
  by_cases hi : 7 = i
  · rw [← hi, Nat.testBit_lt_two_pow h, Bool.false_and]
  · rw [decide_eq_false hi, Bool.and_false]

theorem byte_more {v : Nat} (h : v < 2 ^ 7) :
    (UInt8.ofNat (v ||| 0x80)).toNat &&& 0x7f = v ∧ (UInt8.ofNat (v ||| 0x80)).toNat &&& 0x80 ≠ 0 := by
  have hlt : v ||| 0x80 < 2 ^ 8 := or_lt_two_pow (by omega) (by decide)
  have hbyte : (UInt8.ofNat (v ||| 0x80)).toNat = v ||| 0x80 := by
    exact mod_eq_of_lt hlt
  rw [hbyte]
  constructor
  · refine eq_of_testBit_eq fun i => ?_
    rw [testBit_and, testBit_or, show (0x80 : Nat) = 2 ^ 7 from rfl, testBit_two_pow,
      show (0x7f : Nat) = 2 ^ 7 - 1 from rfl, testBit_two_pow_sub_one]
    by_cases hi : i < 7
    · rw [decide_eq_true hi, Bool.and_true, decide_eq_false (by omega), Bool.or_false]
    · rw [decide_eq_false hi, Bool.and_false,
        Nat.testBit_lt_two_pow (lt_of_lt_of_le h (Nat.pow_le_pow_right (by decide) (not_lt.mp hi)))]
  · intro hzero
    have hbit := congrArg (testBit · 7) hzero
    rw [Nat.testBit_and, Nat.testBit_or, show Nat.testBit 0x80 7 = true by decide, Bool.or_true,
      Nat.zero_testBit] at hbit
    cases hbit

theorem pbReadVarintFrom_write (turns shift value acc : Nat) (rest : List UInt8) (hvalue : value < 2 ^ (64 - shift))
    (hshift : shift < 64) (hturns : 64 ≤ shift + 7 * turns) :
    pbReadVarintFrom shift acc (pbWriteVarintFrom turns value ++ rest) = some (acc ||| value <<< shift, rest) := by
  induction turns generalizing shift value acc with
  | zero => omega
  | succ turns ih =>
    have hlow : value % 2 ^ 7 < 2 ^ 7 := mod_lt _ (by decide)
    have hfits : ∀ v ≤ value, v <<< shift % 2 ^ 64 = v <<< shift := by
      intro v hv
      refine mod_eq_of_lt ?_
      rw [shiftLeft_eq]
      calc v * 2 ^ shift < 2 ^ (64 - shift) * 2 ^ shift :=
        Nat.mul_lt_mul_of_pos_right (lt_of_le_of_lt hv hvalue) (Nat.two_pow_pos shift)
        _ = 2 ^ 64 := by rw [← Nat.pow_add, Nat.sub_add_cancel (Nat.le_of_lt hshift)]
    rw [pbWriteVarintFrom, and_127]
    by_cases hlast : value >>> 7 = 0
    · have hsmall : value < 2 ^ 7 := by
        omega
      rw [if_pos hlast, singleton_append, pbReadVarintFrom, mod_eq_of_lt hsmall, (byte_last hsmall).1, and_127,
        mod_eq_of_lt hsmall, hfits value (le_refl value), if_pos (byte_last hsmall).2]
    have hbig : 2 ^ 7 ≤ value := by
      rw [shiftRight_eq_div_pow] at hlast
      by_contra hlt
      exact hlast (div_eq_of_lt (not_le.mp hlt))
    have hroom : 7 < 64 - shift := (Nat.pow_lt_pow_iff_right (by decide)).mp (lt_of_le_of_lt hbig hvalue)
    obtain ⟨hpayload, hmore⟩ := byte_more hlow
    have hrest : value >>> 7 < 2 ^ (64 - (shift + 7)) := by
      rw [shiftRight_eq_div_pow, div_lt_iff_lt_mul (by decide), ← pow_add]
      rwa [show 64 - (shift + 7) + 7 = 64 - shift by omega]
    have hjoin : (value % 2 ^ 7) <<< shift ||| (value >>> 7) <<< (shift + 7) = value <<< shift := by
      refine eq_of_testBit_eq fun i => ?_
      rw [testBit_or, testBit_shiftLeft, testBit_shiftLeft, testBit_shiftLeft, testBit_mod_two_pow,
        testBit_shiftRight]
      by_cases hi : shift ≤ i
      · by_cases hi' : shift + 7 ≤ i
        · have hge : ¬i - shift < 7 := by omega
          rw [decide_eq_true hi, decide_eq_true hi', decide_eq_false hge, Bool.false_and, Bool.and_false, Bool.false_or,
            show 7 + (i - (shift + 7)) = i - shift by omega]
        · have hlt : i - shift < 7 := by omega
          rw [decide_eq_true hi, decide_eq_false hi', decide_eq_true hlt, Bool.false_and, Bool.or_false, Bool.true_and]
      · have hi' : ¬shift + 7 ≤ i := by omega
        rw [decide_eq_false hi, decide_eq_false hi', Bool.false_and, Bool.false_and, Bool.false_or, Bool.false_and]
    rw [if_neg hlast, List.cons_append, pbReadVarintFrom, hpayload, hfits _ (Nat.mod_le _ _),
      if_neg hmore, if_neg (by omega), ih (shift + 7) (value >>> 7) _ hrest (by omega) (by omega),
      Nat.or_assoc, hjoin]

theorem pbReadVarint_write {value : Nat} (h : value < 2 ^ 64) (rest : List UInt8) :
    pbReadVarint (pbWriteVarint value ++ rest) = some (value, rest) := by
  have hread := pbReadVarintFrom_write 10 0 value 0 rest h (by decide) (by decide)
  rwa [zero_or, shiftLeft_zero] at hread

theorem pbWriteVarint_ne_nil (value : Nat) : pbWriteVarint value ≠ [] := by
  rw [pbWriteVarint, pbWriteVarintFrom]
  split
  · exact cons_ne_nil _ _
  · exact cons_ne_nil _ _

/-! ## Fields -/

theorem tag_parts {field wireType : Nat} (hfield : field < 2 ^ 29) (hwire : wireType < 2 ^ 3) :
    field <<< 3 ||| wireType < 2 ^ 64 ∧ (field <<< 3 ||| wireType) >>> 3 % 2 ^ 32 = field ∧
      (field <<< 3 ||| wireType) &&& 0x07 = wireType := by
  have hsum : field <<< 3 ||| wireType = field * 2 ^ 3 + wireType := by
    rw [← shiftLeft_add_eq_or_of_lt hwire, shiftLeft_eq]
  have hmask : (field * 2 ^ 3 + wireType) &&& 0x07 = (field * 2 ^ 3 + wireType) % 2 ^ 3 :=
    and_two_pow_sub_one_eq_mod _ 3
  rw [hsum, hmask, shiftRight_eq_div_pow]
  have hdiv : (field * 2 ^ 3 + wireType) / 2 ^ 3 = field := by omega
  omega

structure Written (bytes : List UInt8) (f : PbField) : Prop where
  filled : bytes ≠ []
  read : ∀ rest, pbReadField (bytes ++ rest) = some (f, rest)

theorem written_uint {field value : Nat} (hfield : field < 2 ^ 29) (hvalue : value < 2 ^ 64) :
    Written (pbWriteUint field value) ⟨field, 0, value, []⟩ := by
  obtain ⟨hlt, hnumber, hwire⟩ := tag_parts hfield (show 0 < 2 ^ 3 by decide)
  refine ⟨append_ne_nil_of_left_ne_nil (pbWriteVarint_ne_nil _) _, fun rest => ?_⟩
  rw [pbWriteUint, pbWriteTag, append_assoc, pbReadField, pbReadVarint_write hlt]
  dsimp only
  rw [hwire, hnumber, pbReadVarint_write hvalue]
  rfl

theorem written_bytes {field : Nat} {value : List UInt8} (hfield : field < 2 ^ 29) (hvalue : value.length < 2 ^ 64) :
    Written (pbWriteBytes field value) ⟨field, 2, 0, value⟩ := by
  obtain ⟨hlt, hnumber, hwire⟩ := tag_parts hfield (show 2 < 2 ^ 3 by decide)
  refine ⟨?_, fun rest => ?_⟩
  · rw [pbWriteBytes, append_assoc]
    exact append_ne_nil_of_left_ne_nil (pbWriteVarint_ne_nil _) _
  rw [pbWriteBytes, pbWriteTag, append_assoc, append_assoc, pbReadField, pbReadVarint_write hlt]
  dsimp only
  rw [hwire, hnumber, pbReadVarint_write hvalue]
  show (if (value ++ rest).length < value.length then none
    else some (PbField.mk field 2 0 ((value ++ rest).take value.length), (value ++ rest).drop value.length)) = _
  rw [if_neg (by simp), take_left, drop_left]

theorem pbReadFields_written {parts : List (List UInt8 × PbField)} (h : ∀ p ∈ parts, Written p.1 p.2) :
    pbReadFields (parts.flatMap fst) = some (parts.map snd) := by
  have hfrom : ∀ turns, parts.length ≤ turns → pbReadFieldsFrom turns (parts.flatMap fst) = some (parts.map snd) := by
    induction parts with
    | nil =>
      intro turns _
      cases turns <;> rfl
    | cons p parts ih =>
      intro turns hturns
      obtain ⟨turns, rfl⟩ := Nat.exists_eq_add_of_lt (lt_of_lt_of_le (Nat.succ_pos _) hturns)
      obtain ⟨hfilled, hread⟩ := h p mem_cons_self
      rw [length_cons] at hturns
      have hrest := ih (fun q hq => h q (.tail _ hq)) turns (by omega)
      rw [flatMap_cons, zero_add, pbReadFieldsFrom]
      · rw [hread]
        dsimp only
        rw [hrest]
        rfl
      · intro hnil
        exact hfilled (append_eq_nil_iff.mp hnil).1
  refine hfrom _ ?_
  clear hfrom
  induction parts with
  | nil => exact le_refl 0
  | cons p parts ih =>
    have hpos := length_pos_iff.mpr (h p (.head _)).filled
    have hrest := ih fun q hq => h q (.tail _ hq)
    rw [flatMap_cons, length_append, length_cons]
    omega

end Waterdisco.OTP
