import Mathlib.Data.List.TakeWhile
import Mathlib.Data.Nat.Digits.Lemmas
import Waterdisco.Lib.Bits
import Waterdisco.Scan.IpListParse

/-!
# One-time passwords

An entry, its check and its codes, from OTP.cpp.  The MAC of
`QMessageAuthenticationCode` is a parameter; numbers of fixed width are kept below
their bound.  Base32 moves bits through a buffer of 32 bits.

    Base32Decode (Base32Encode key) = key                            (base32Decode_encode)
    length of a code = digits of the entry                           (length_generateHOTP)
-/

namespace Waterdisco.OTP

open Nat List UInt8

inductive Algorithm where
  | SHA1
  | SHA256
  | SHA512
deriving DecidableEq

/-- Whether the code moves with time or with a counter. -/
inductive EntryType where
  | TOTP
  | HOTP
deriving DecidableEq

def DEFAULT_DIGITS : Int := 6
def DEFAULT_PERIOD : Int := 30
def MIN_DIGITS : Int := 4
def MAX_DIGITS : Int := 10
def MIN_PERIOD : Int := 1
def MAX_PERIOD : Int := 3600

structure Entry where
  name : String := ""
  issuer : String := ""
  secret : String := ""
  algorithm : Algorithm := .SHA1
  type : EntryType := .TOTP
  digits : Int := DEFAULT_DIGITS
  period : Int := DEFAULT_PERIOD
  counter : Int64 := 0
deriving DecidableEq

/-! ## Base32 -/

def base32Alphabet : List Char := "ABCDEFGHIJKLMNOPQRSTUVWXYZ234567".toList

def base32Char (value : Nat) : Char := base32Alphabet.getD value 'A'

def base32Separator (c : Char) : Bool :=
  c == ' ' || c == '-' || c == '_' || c == '\t' || c == '\r' || c == '\n' || c == '='

def base32Value (c : Char) : Option Nat :=
  if 'A' ≤ c ∧ c ≤ 'Z' then some (c.toNat - 'A'.toNat)
  else if 'a' ≤ c ∧ c ≤ 'z' then some (c.toNat - 'a'.toNat)
  else if '2' ≤ c ∧ c ≤ '7' then some (c.toNat - '2'.toNat + 26)
  else none

/-- The loop of `Base32Decode`; what is left of a byte at the end is dropped. -/
def base32DecodeFrom : Nat → Nat → List Char → Option (List UInt8)
  | _, _, [] => some []
  | buffer, bitsLeft, c :: rest =>
    if base32Separator c then base32DecodeFrom buffer bitsLeft rest
    else
      match base32Value c with
      | none => none
      | some value =>
        let buffer := (buffer <<< 5 ||| value) % 2 ^ 32
        if 8 ≤ bitsLeft + 5 then
          (base32DecodeFrom buffer (bitsLeft + 5 - 8) rest).map (UInt8.ofNat ((buffer >>> (bitsLeft + 5 - 8)) &&& 0xff) :: ·)
        else base32DecodeFrom buffer (bitsLeft + 5) rest

/-- `Base32Decode`, none where it is not ok. -/
def base32Decode (input : String) : Option (List UInt8) := base32DecodeFrom 0 0 input.toList

/-- The inner loop of `Base32Encode`, which leaves less than five bits. -/
def base32Emit (buffer : Nat) : Nat → Nat → List Char × Nat
  | 0, bitsLeft => ([], bitsLeft)
  | turns + 1, bitsLeft =>
    if 5 ≤ bitsLeft then
      let rest := base32Emit buffer turns (bitsLeft - 5)
      (base32Char ((buffer >>> (bitsLeft - 5)) &&& 0x1f) :: rest.1, rest.2)
    else ([], bitsLeft)

def base32EncodeFrom : Nat → Nat → List UInt8 → List Char
  | buffer, bitsLeft, [] => if 0 < bitsLeft then [base32Char ((buffer <<< (5 - bitsLeft)) % 2 ^ 32 &&& 0x1f)] else []
  | buffer, bitsLeft, c :: rest =>
    let buffer := (buffer <<< 8 ||| c.toNat) % 2 ^ 32
    let emitted := base32Emit buffer (bitsLeft + 8) (bitsLeft + 8)
    emitted.1 ++ base32EncodeFrom buffer emitted.2 rest

def base32Encode (input : List UInt8) : String := String.ofList (base32EncodeFrom 0 0 input)

/-! ## Codes -/

/-- The reason an entry is not usable, empty where it is. -/
def validate (entry : Entry) : String :=
  if (Scan.trimmed entry.secret.toList).isEmpty then "Secret is empty"
  else
    match base32Decode entry.secret with
    | none => "Secret is not valid base32"
    | some key =>
      if key.isEmpty then "Secret is too short"
      else if entry.digits < MIN_DIGITS ∨ MAX_DIGITS < entry.digits then
        "Digits must be between " ++ toString MIN_DIGITS ++ " and " ++ toString MAX_DIGITS
      else if entry.type = .TOTP ∧ (entry.period < MIN_PERIOD ∨ MAX_PERIOD < entry.period) then
        "Period must be between " ++ toString MIN_PERIOD ++ " and " ++ toString MAX_PERIOD ++ " seconds"
      else ""

/-- `QMessageAuthenticationCode::hash`: algorithm, key, message. -/
abbrev Mac := Algorithm → List UInt8 → List UInt8 → List UInt8

def counterMessage (counter : Nat) : List UInt8 :=
    (range 8).map fun i => UInt8.ofNat ((counter >>> (8 * (7 - i))) &&& 0xff)

def zeroPadded (width n : Nat) : String :=
  let digits := toDigits 10 n
  String.ofList (replicate (width - digits.length) '0' ++ digits)

def generateHOTP (hash : Mac) (key : List UInt8) (counter : Nat) (algorithm : Algorithm) (digits : Int) : String :=
  if key.isEmpty ∨ digits < MIN_DIGITS ∨ MAX_DIGITS < digits then ""
  else
    let mac := hash algorithm key (counterMessage counter)
    if mac.length < 20 then ""
    else
      let byte := fun i => (mac.getD i 0).toNat
      let offset := byte (mac.length - 1) &&& 0x0f
      let binary := (byte offset &&& 0x7f) <<< 24 ||| byte (offset + 1) <<< 16 ||| byte (offset + 2) <<< 8 ||| byte (offset + 3)
      zeroPadded digits.toNat (binary % 10 ^ digits.toNat)

/-- `now` is what the clock shows, for a time below zero. -/
def generateCode (hash : Mac) (now : Int) (entry : Entry) (unixTime : Int) : String :=
  if validate entry ≠ "" then ""
  else
    let key := (base32Decode entry.secret).getD []
    match entry.type with
    | .HOTP => generateHOTP hash key entry.counter.toUInt64.toNat entry.algorithm entry.digits
    | .TOTP =>
      let now := if unixTime < 0 then now else unixTime
      generateHOTP hash key (now.tdiv entry.period % 2 ^ 64).toNat entry.algorithm entry.digits

/-! ## Base32 there and back -/

theorem base32Char_spec (value : Nat) (h : value < 32) :
    base32Separator (base32Char value) = false ∧ base32Value (base32Char value) = some value := by
  have hall : ∀ v : Fin 32, base32Separator (base32Char v.val) = false ∧
    base32Value (base32Char v.val) = some v.val := by decide
  exact hall ⟨value, h⟩

theorem base32DecodeFrom_chars (words : List Nat) (h : ∀ w ∈ words, w < 2 ^ 5)
    (buffer bitsLeft : Nat) (hbits : bitsLeft < 8) :
    ∃ out rest, base32DecodeFrom buffer bitsLeft (words.map base32Char) = some out ∧ rest.length < 8 ∧
      bits bitsLeft buffer ++ words.flatMap (bits 5) = (out.map UInt8.toNat).flatMap (bits 8) ++ rest := by
  induction words generalizing buffer bitsLeft with
  | nil => exact ⟨[], bits bitsLeft buffer, rfl, by rwa [length_bits], by simp⟩
  | cons w words ih =>
    have hw := h w mem_cons_self
    obtain ⟨hseparator, hvalue⟩ := base32Char_spec w hw
    have hrest := ih fun w' hw' => h w' (.tail _ hw')
    have hpush : bits (bitsLeft + 5) ((buffer <<< 5 ||| w) % 2 ^ 32) = bits bitsLeft buffer ++ bits 5 w := by
      rw [bits_mod (by omega), bits_push bitsLeft hw]
    rw [map_cons, base32DecodeFrom, hseparator, hvalue, if_neg Bool.false_ne_true]
    dsimp only
    generalize (buffer <<< 5 ||| w) % 2 ^ 32 = buffer' at *
    by_cases hfull : 8 ≤ bitsLeft + 5
    · obtain ⟨out, rest, hout, hlen, hbits'⟩ := hrest buffer' (bitsLeft + 5 - 8) (by omega)
      refine ⟨ofNat (buffer' >>> (bitsLeft + 5 - 8) &&& 0xff) :: out, rest, ?_, hlen, ?_⟩
      · rw [if_pos hfull, hout]
        rfl
      have hbyte : bits 8 (ofNat (buffer' >>> (bitsLeft + 5 - 8) &&& 0xff)).toNat =
        bits 8 (buffer' >>> (bitsLeft + 5 - 8)) := by
        rw [toNat_ofNat', show (0xff : Nat) = 2 ^ 8 - 1 from rfl, bits_mod (le_refl 8), bits_mask]
      rw [flatMap_cons, ← append_assoc, ← hpush, bits_pop hfull, append_assoc, hbits', map_cons,
        flatMap_cons, hbyte, append_assoc]
    · obtain ⟨out, rest, hout, hlen, hbits'⟩ := hrest buffer' (bitsLeft + 5) (by omega)
      refine ⟨out, rest, ?_, hlen, ?_⟩
      · rw [if_neg hfull, hout]
      · rw [flatMap_cons, ← append_assoc, ← hpush, hbits']

theorem base32Emit_spec (buffer turns bitsLeft : Nat) (h : bitsLeft ≤ turns) :
    ∃ words : List Nat, (base32Emit buffer turns bitsLeft).1 = words.map base32Char ∧ (∀ w ∈ words, w < 2 ^ 5) ∧
      (base32Emit buffer turns bitsLeft).2 < 5 ∧
      bits bitsLeft buffer = words.flatMap (bits 5) ++ bits (base32Emit buffer turns bitsLeft).2 buffer := by
  induction turns generalizing bitsLeft with
  | zero =>
    obtain rfl := le_zero.mp h
    exact ⟨[], rfl, by simp, zero_lt_succ 4, rfl⟩
  | succ turns ih =>
    rw [base32Emit]
    by_cases hfull : 5 ≤ bitsLeft
    · obtain ⟨words, hwords, hlt, hleft, hbits⟩ := ih (bitsLeft - 5) (by omega)
      rw [if_pos hfull]
      dsimp only
      refine ⟨(buffer >>> (bitsLeft - 5) &&& 0x1f) :: words, by rw [hwords, map_cons], ?_, hleft, ?_⟩
      · intro w hw
        rcases mem_cons.mp hw with rfl | hw
        · exact and_lt_two_pow _ (by decide)
        · exact hlt w hw
      · rw [flatMap_cons, append_assoc, ← hbits, show (0x1f : Nat) = 2 ^ 5 - 1 from rfl, bits_mask, ← bits_pop hfull]
    · rw [if_neg hfull]
      exact ⟨[], rfl, by simp, not_le.mp hfull, rfl⟩

theorem base32EncodeFrom_spec (input : List UInt8) (buffer bitsLeft : Nat) (hbits : bitsLeft < 5) :
    ∃ (words : List Nat) (pad : Nat), base32EncodeFrom buffer bitsLeft input =
      words.map base32Char ∧ (∀ w ∈ words, w < 2 ^ 5) ∧ pad < 5 ∧
      bits bitsLeft buffer ++ (input.map UInt8.toNat).flatMap (bits 8) ++
        replicate pad false = words.flatMap (bits 5) := by
  induction input generalizing buffer bitsLeft with
  | nil =>
    rw [base32EncodeFrom]
    by_cases hleft : 0 < bitsLeft
    · rw [if_pos hleft]
      refine ⟨[buffer <<< (5 - bitsLeft) % 2 ^ 32 &&& 0x1f], 5 - bitsLeft, rfl, ?_, by omega, ?_⟩
      · intro w hw
        rw [mem_singleton.mp hw]
        exact and_lt_two_pow _ (by decide)
      have hshift := bits_shiftLeft bitsLeft (5 - bitsLeft) buffer
      rw [Nat.add_sub_cancel' (Nat.le_of_lt hbits)] at hshift
      simp only [map_nil, flatMap_nil, append_nil, flatMap_cons]
      rw [show (0x1f : Nat) = 2 ^ 5 - 1 from rfl, bits_mask, bits_mod (by decide), hshift]
    · obtain rfl : bitsLeft = 0 := by omega
      exact ⟨[], 0, rfl, by simp, by decide, rfl⟩
  | cons c input ih =>
    have hpush : bits (bitsLeft + 8) ((buffer <<< 8 ||| c.toNat) % 2 ^ 32) = bits bitsLeft buffer ++ bits 8 c.toNat := by
      rw [bits_mod (by omega), bits_push bitsLeft c.toNat_lt]
    rw [base32EncodeFrom]
    generalize (buffer <<< 8 ||| c.toNat) % 2 ^ 32 = buffer' at *
    obtain ⟨words, hwords, hlt, hleft, hemitted⟩ := base32Emit_spec buffer' (bitsLeft + 8) (bitsLeft + 8) (.refl)
    obtain ⟨words', pad, hwords', hlt', hpad, hrest⟩ := ih buffer' _ hleft
    refine ⟨words ++ words', pad, by rw [hwords, hwords', map_append], ?_, hpad, ?_⟩
    · intro w hw
      rcases mem_append.mp hw with hw | hw
      · exact hlt w hw
      · exact hlt' w hw
    · rw [map_cons, flatMap_cons, ← append_assoc, ← hpush, hemitted, append_assoc, append_assoc,
        ← append_assoc (bits _ buffer'), hrest, flatMap_append]

theorem base32Decode_encode (key : List UInt8) : base32Decode (base32Encode key) = some key := by
  obtain ⟨words, pad, hwords, hlt, hpad, hencoded⟩ := base32EncodeFrom_spec key 0 0 (by decide)
  obtain ⟨out, rest, hout, hrest, hdecoded⟩ := base32DecodeFrom_chars words hlt 0 0 (by decide)
  rw [base32Decode, base32Encode, String.toList_ofList, hwords, hout]
  have hbits : (out.map toNat).flatMap (bits 8) ++ rest = (key.map toNat).flatMap (bits 8) ++ replicate pad false := by
    rw [← hdecoded, ← hencoded]
    rfl
  have hbytes : ∀ l : List UInt8, ∀ v ∈ l.map toNat, v < 2 ^ 8 := by
    intro l v hv
    obtain ⟨b, -, rfl⟩ := mem_map.mp hv
    exact b.toNat_lt
  have hsame := flatMap_bits_inj hbits hrest (by rw [length_replicate]; omega) (hbytes out) (hbytes key)
  exact congrArg some (map_injective_iff.mpr (fun _ _ => UInt8.toNat_inj.mp) hsame)

/-! ## Usable entries -/

theorem trimmed_ne_nil {text : List Char} {c : Char} (hc : c ∈ text) (h : Scan.isSpace c = false) :
    Scan.trimmed text ≠ [] := by
  intro hnil
  rw [Scan.trimmed, reverse_eq_nil_iff, dropWhile_eq_nil_iff] at hnil
  cases hdrop : text.dropWhile Scan.isSpace with
  | nil =>
    rw [dropWhile_eq_nil_iff] at hdrop
    rw [hdrop c hc] at h
    cases h
  | cons d rest =>
    have hspace := hnil d (by rw [hdrop]; simp)
    have hhead := head_dropWhile_not Scan.isSpace (l := text) (by rw [hdrop]; exact cons_ne_nil _ _)
    simp only [hdrop, head_cons] at hhead
    rw [hspace] at hhead
    cases hhead

variable {key : List UInt8}

theorem base32Encode_ne_blank (h : key ≠ []) : Scan.trimmed (base32Encode key).toList ≠ [] := by
  obtain ⟨words, pad, hwords, hlt, -, hencoded⟩ := base32EncodeFrom_spec key 0 0 (by decide)
  rw [base32Encode, String.toList_ofList, hwords]
  cases words with
  | nil =>
    obtain ⟨c, rest, rfl⟩ := exists_cons_of_ne_nil h
    have hlen := congrArg length hencoded
    simp only [map_cons, flatMap_cons, length_append, length_bits, flatMap_nil, length_nil] at hlen
    omega
  | cons w words =>
    have hall : ∀ v : Fin 32, Scan.isSpace (base32Char v.val) = false := by decide
    exact trimmed_ne_nil (mem_map_of_mem mem_cons_self) (hall ⟨w, hlt w mem_cons_self⟩)

/-- What is asked of an entry. -/
structure Usable (entry : Entry) (key : List UInt8) : Prop where
  decoded : base32Decode entry.secret = some key
  filled : key ≠ []
  digits : MIN_DIGITS ≤ entry.digits ∧ entry.digits ≤ MAX_DIGITS
  period : entry.type = .TOTP → MIN_PERIOD ≤ entry.period ∧ entry.period ≤ MAX_PERIOD

theorem validate_iff (entry : Entry) :
    validate entry = "" ↔ Scan.trimmed entry.secret.toList ≠ [] ∧ ∃ key, Usable entry key := by
  have hdigits : "Digits must be between " ++ toString MIN_DIGITS ++ " and " ++ toString MAX_DIGITS ≠ "" := by
    simp [String.append_eq_empty_iff]
  have hperiod : "Period must be between " ++ toString MIN_PERIOD ++ " and " ++
    toString MAX_PERIOD ++ " seconds" ≠ "" := by
    simp [String.append_eq_empty_iff]
  rw [validate]
  cases hblank : (Scan.trimmed entry.secret.toList).isEmpty with
  | true =>
    rw [if_pos rfl]
    exact iff_of_false (by decide) fun h => h.1 (isEmpty_iff.mp hblank)
  | false =>
    have hne : Scan.trimmed entry.secret.toList ≠ [] := by simpa using hblank
    rw [if_neg Bool.false_ne_true]
    cases hkey : base32Decode entry.secret with
    | none =>
      refine iff_of_false (show "Secret is not valid base32" ≠ "" by decide) fun h => ?_
      obtain ⟨-, key, husable⟩ := h
      rw [husable.decoded] at hkey
      cases hkey
    | some key =>
      have hsame : ∀ key', Usable entry key' → key' = key := by
        intro key' h
        have hdecoded := h.decoded
        rw [hkey] at hdecoded
        exact (Option.some.inj hdecoded).symm
      dsimp only
      split_ifs with hempty hrange hstep
      · refine iff_of_false (by decide) fun h => ?_
        obtain ⟨-, key', husable⟩ := h
        exact husable.filled (hsame key' husable ▸ isEmpty_iff.mp hempty)
      · refine iff_of_false hdigits fun h => ?_
        obtain ⟨-, key', husable⟩ := h
        have hin := husable.digits
        omega
      · refine iff_of_false hperiod fun h => ?_
        obtain ⟨-, key', husable⟩ := h
        have hin := husable.period hstep.1
        omega
      · refine iff_of_true rfl ⟨hne, key, hkey, by simpa using hempty, by omega, fun htype => ?_⟩
        by_contra hnot
        exact hstep ⟨htype, by omega⟩

/-! ## The code of an entry -/

/-- The code of an entry that is usable. -/
def codeOf (hash : Mac) (now : Int) (key : List UInt8) (entry : Entry) (unixTime : Int) : String :=
  match entry.type with
  | .HOTP => generateHOTP hash key entry.counter.toUInt64.toNat entry.algorithm entry.digits
  | .TOTP =>
    generateHOTP hash key ((if unixTime < 0 then now else unixTime).tdiv entry.period % 2 ^ 64).toNat entry.algorithm entry.digits

theorem generateCode_eq {hash : Mac} {now : Int} {entry : Entry} (hvalid : validate entry = "")
    (h : base32Decode entry.secret = some key) (unixTime : Int) :
    generateCode hash now entry unixTime = codeOf hash now key entry unixTime := by
  rw [generateCode, if_neg (not_not_intro hvalid), h]
  rfl

theorem length_zeroPadded {width n : Nat} (hwidth : 0 < width) (h : n < 10 ^ width) :
    (zeroPadded width n).length = width := by
  have hle := toDigits_length 10 n width hwidth h
  rw [zeroPadded, String.length_ofList, length_append, length_replicate]
  omega

theorem length_generateHOTP {hash : Mac} (hhash : ∀ a k m, 20 ≤ (hash a k m).length) (hkey : key ≠ [])
    {digits : Int} (h : MIN_DIGITS ≤ digits ∧ digits ≤ MAX_DIGITS) (counter : Nat) (algorithm : Algorithm) :
    ((generateHOTP hash key counter algorithm digits).length : Int) = digits := by
  have hkey' : key.isEmpty = false := by simpa using hkey
  have hpos : 0 < digits.toNat := by
    have hmin : MIN_DIGITS = 4 := rfl
    omega
  have husable : ¬(key.isEmpty = true ∨ digits < MIN_DIGITS ∨ MAX_DIGITS < digits) := by
    rw [hkey']
    rintro (hbad | hbad | hbad)
    · cases hbad
    · omega
    · omega
  have hmac : ¬(hash algorithm key (counterMessage counter)).length < 20 := not_lt.mpr (hhash _ _ _)
  rw [generateHOTP, if_neg husable]
  rw [if_neg hmac, length_zeroPadded hpos (Nat.mod_lt _ (Nat.pow_pos (by decide)))]
  omega

theorem length_codeOf {hash : Mac} (hhash : ∀ a k m, 20 ≤ (hash a k m).length) {entry : Entry}
    (h : Usable entry key) (now unixTime : Int) :
    ((codeOf hash now key entry unixTime).length : Int) = entry.digits := by
  rw [codeOf]
  cases entry.type with
  | HOTP => exact length_generateHOTP hhash h.filled h.digits _ _
  | TOTP => exact length_generateHOTP hhash h.filled h.digits _ _

end Waterdisco.OTP
