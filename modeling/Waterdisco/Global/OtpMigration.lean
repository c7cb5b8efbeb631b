import Waterdisco.Global.Otp
import Waterdisco.Global.Wire
import Waterdisco.Lib.Reading

/-!
# Migration links

`ExportToMigrationLink` and `ParseFromMigrationLink`: entries as one protobuf message in
the query of a link.  The link itself (QUrl, base64) is a parameter.  The format has two
digit counts, and the reader drops a byte order mark at the start of a text.

    parse (export entries) = entries.map migrated                    (parse_export)
    migrated e has the codes of e ↔ six or eight digits              (migration_survives_iff)
-/

namespace Waterdisco.OTP

open Prod List Option

/-! ## Texts -/

def toUtf8 (text : String) : List UInt8 := text.toList.flatMap String.utf8EncodeChar

/-- `QString::fromUtf8`, which skips a byte order mark; `malformed` is what it makes of other bytes than UTF-8. -/
def fromUtf8 (malformed : List UInt8 → String) (bytes : List UInt8) : String :=
  let bytes := if [0xef, 0xbb, 0xbf].isPrefixOf bytes then bytes.drop 3 else bytes
  match bytes.toByteArray.utf8Decode? with
  | some chars => String.ofList chars.toList
  | none => malformed bytes

/-- A link as `QUrl` reads it: the scheme and the item `data` of the query. -/
structure Link where
  scheme : String
  data : String

/-- `QUrl`, base64 and the decoder's replacement of malformed bytes. -/
structure LinkCodec where
  toLink : String → String → String → String
  ofLink : String → Option Link
  toBase64 : List UInt8 → String
  fromBase64 : String → List UInt8
  malformed : List UInt8 → String

def otpEntryLabel (entry : Entry) : String :=
  if entry.name ≠ "" then entry.name
  else if entry.issuer ≠ "" then entry.issuer
  else "Unnamed entry"

def otpNoSecret (entry : Entry) : String := otpEntryLabel entry ++ ": there is no secret."

def otpBadAlgorithm (entry : Entry) (value : String) : String :=
  otpEntryLabel entry ++ ": algorithm \"" ++ value ++
    "\" is not supported (only SHA1, SHA256 and SHA512), so its codes would be wrong."

def otpBadDigitCode (entry : Entry) (value : String) : String :=
  otpEntryLabel entry ++ ": the digit count code " ++ value ++ " is not supported."

def otpBadType (entry : Entry) (value : String) : String :=
  otpEntryLabel entry ++ ": type \"" ++ value ++ "\" is not supported (only totp and hotp)."

/-! ## Export -/

def migrationAlgorithmValue : Algorithm → Nat
  | .SHA256 => 2
  | .SHA512 => 3
  | .SHA1 => 1

/-- The parameters of one entry; the digit count is eight or, whatever it is, six. -/
def migrationParameters (key : List UInt8) (entry : Entry) : List UInt8 :=
  pbWriteBytes 1 key ++ pbWriteBytes 2 (toUtf8 entry.name) ++
    (if entry.issuer ≠ "" then pbWriteBytes 3 (toUtf8 entry.issuer) else []) ++
    pbWriteUint 4 (migrationAlgorithmValue entry.algorithm) ++
    pbWriteUint 5 (if entry.digits = 8 then 2 else 1) ++
    pbWriteUint 6 (if entry.type = .HOTP then 1 else 2) ++
    (if entry.type = .HOTP then pbWriteUint 7 entry.counter.toUInt64.toNat else [])

def migrationEntry (entry : Entry) : List UInt8 :=
  match base32Decode entry.secret with
  | none => []
  | some key => if key.isEmpty then [] else pbWriteBytes 1 (migrationParameters key entry)

/-- The entries, then version, batch size and batch index. -/
def migrationPayload (entries : List Entry) : List UInt8 :=
  let payload := entries.flatMap migrationEntry
  if payload.isEmpty then [] else payload ++ pbWriteUint 2 1 ++ pbWriteUint 3 1 ++ pbWriteUint 4 0

def exportToMigrationLink (u : LinkCodec) (entries : List Entry) : String :=
  if (migrationPayload entries).isEmpty then ""
  else u.toLink "otpauth-migration" "offline" (u.toBase64 (migrationPayload entries))

/-! ## Import -/

/-- 0 unspecified, 1 SHA1, 2 SHA256, 3 SHA512, 4 MD5. -/
def migrationAlgorithm : Nat → Option Algorithm
  | 0 => some .SHA1
  | 1 => some .SHA1
  | 2 => some .SHA256
  | 3 => some .SHA512
  | _ => none

/-- An entry while its parameters are read. -/
structure Draft where
  entry : Entry := {}
  haveSecret : Bool := false
  badAlgorithm : Option Nat := none
  badDigits : Option Nat := none
  badType : Option Nat := none

def readParameter (u : LinkCodec) (d : Draft) (f : PbField) : Draft :=
  match f.field with
  | 1 => { d with entry := { d.entry with secret := base32Encode f.bytes }, haveSecret := !f.bytes.isEmpty }
  | 2 => { d with entry := { d.entry with name := fromUtf8 u.malformed f.bytes } }
  | 3 => { d with entry := { d.entry with issuer := fromUtf8 u.malformed f.bytes } }
  | 4 =>
    match migrationAlgorithm f.varint with
    | some algorithm => { d with entry := { d.entry with algorithm := algorithm } }
    | none => { d with badAlgorithm := some f.varint }
  | 5 =>
    if f.varint ≤ 2 then { d with entry := { d.entry with digits := if f.varint = 2 then 8 else DEFAULT_DIGITS } }
    else { d with badDigits := some f.varint }
  | 6 =>
    if f.varint ≤ 2 then { d with entry := { d.entry with type := if f.varint = 1 then .HOTP else .TOTP } }
    else { d with badType := some f.varint }
  | 7 => { d with entry := { d.entry with counter := (UInt64.ofNat f.varint).toInt64 } }
  | _ => d

/-- The entry, or why it is skipped. -/
def Draft.finish (d : Draft) : Except String Entry :=
  let entry := if d.entry.name = "" then { d.entry with name := d.entry.issuer } else d.entry
  if !d.haveSecret then .error (otpNoSecret entry)
  else
    match d.badAlgorithm, d.badDigits, d.badType with
    | some code, _, _ => .error (otpBadAlgorithm entry (if code = 4 then "MD5" else toString code))
    | none, some code, _ => .error (otpBadDigitCode entry (toString code))
    | none, none, some code => .error (otpBadType entry (toString code))
    | none, none, none => .ok entry

/-- The entries of a payload, none where a field cannot be read. -/
def readPayload (u : LinkCodec) (payload : List UInt8) : Option (List (Except String Entry)) := do
  let fields ← pbReadFields payload
  (fields.filter fun f => f.field = 1 ∧ f.wireType = 2).mapM fun f => do
    let parameters ← pbReadFields f.bytes
    return (parameters.foldl (readParameter u) {}).finish

/-- What is read of a link, and what is said of the entries that are skipped. -/
structure Migration where
  entries : Option (List Entry)
  problems : List String

def parseFromMigrationLink (u : LinkCodec) (link : String) : Migration :=
  match u.ofLink (String.ofList (Scan.trimmed link.toList)) with
  | none => ⟨none, []⟩
  | some url =>
    if sameName url.scheme "otpauth-migration" = false then ⟨none, []⟩
    else if url.data = "" then ⟨none, []⟩
    else if (u.fromBase64 url.data).isEmpty then ⟨none, []⟩
    else
      match readPayload u (u.fromBase64 url.data) with
      | none => ⟨none, []⟩
      | some results =>
        let entries := results.filterMap fun r => r.toOption
        let skipped := results.filterMap fun r =>
          match r with
          | .error problem => some problem
          | .ok _ => none
        ⟨if entries.isEmpty then none else some entries, skipped⟩

/-- What base64 and `QUrl` do with a payload: it reads back from its link. -/
structure Carries (u : LinkCodec) (payload : List UInt8) : Prop where
  fits : payload.length < 2 ^ 31
  filled : payload ≠ [] → u.toBase64 payload ≠ ""
  base64 : u.fromBase64 (u.toBase64 payload) = payload
  url : u.ofLink (String.ofList (Scan.trimmed (u.toLink "otpauth-migration" "offline" (u.toBase64 payload)).toList)) =
    some ⟨"otpauth-migration", u.toBase64 payload⟩
  empty : u.ofLink "" = none

/-! ## Texts there and back -/

def byteOrderMark : Char := '\ufeff'

/-- A text without a byte order mark at its start. -/
def withoutMark (text : String) : String :=
  match text.toList with
  | [] => ""
  | c :: rest => if c = byteOrderMark then String.ofList rest else text

theorem toByteArray_toUtf8 (chars : List Char) :
    (chars.flatMap String.utf8EncodeChar).toByteArray = chars.utf8Encode := rfl

theorem decode_toUtf8 (chars : List Char) :
    (chars.flatMap String.utf8EncodeChar).toByteArray.utf8Decode? = some chars.toArray := by
  rw [toByteArray_toUtf8, utf8Decode?_utf8Encode]

theorem mark_isPrefix {c : Char} {bytes rest : List UInt8}
    (h : String.utf8EncodeChar c ++ bytes = [0xef, 0xbb, 0xbf] ++ rest) :
    c = byteOrderMark := by
  have hmark : String.utf8EncodeChar byteOrderMark = [0xef, 0xbb, 0xbf] := by decide
  have hfirst : ∀ (d : Char) (l : List UInt8),
    (String.utf8EncodeChar d ++ l).toByteArray.utf8DecodeChar? 0 = some d := by
    intro d l
    rw [toByteArray_append, ByteArray.utf8DecodeChar?_utf8EncodeChar_append]
  have hc := hfirst c bytes
  rw [h, ← hmark, hfirst byteOrderMark rest] at hc
  exact (some.inj hc).symm

theorem fromUtf8_toUtf8 (malformed : List UInt8 → String) (text : String) :
    fromUtf8 malformed (toUtf8 text) = withoutMark text := by
  have hmark : String.utf8EncodeChar byteOrderMark = [0xef, 0xbb, 0xbf] := by decide
  rw [fromUtf8, toUtf8, withoutMark]
  cases htext : text.toList with
  | nil => rfl
  | cons c rest =>
    rw [flatMap_cons]
    dsimp only
    by_cases hc : c = byteOrderMark
    · rw [hc, hmark, if_pos rfl]
      have hdrop : [0xef, 0xbb, 0xbf] ++ rest.flatMap String.utf8EncodeChar =
          0xef :: 0xbb :: 0xbf :: rest.flatMap String.utf8EncodeChar := rfl
      have hmarked : [(0xef : UInt8), 0xbb, 0xbf].isPrefixOf ([0xef, 0xbb, 0xbf] ++
        rest.flatMap String.utf8EncodeChar) = true :=
        isPrefixOf_iff_prefix.mpr (prefix_append _ _)
      rw [hmarked, if_pos rfl, hdrop, drop_succ_cons, drop_succ_cons, drop_succ_cons, drop_zero, decode_toUtf8]
    have hmarked : [(0xef : UInt8), 0xbb, 0xbf].isPrefixOf (String.utf8EncodeChar c ++
      rest.flatMap String.utf8EncodeChar) = false := by
      rw [Bool.eq_false_iff]
      intro hin
      obtain ⟨after, hafter⟩ := isPrefixOf_iff_prefix.mp hin
      exact hc (mark_isPrefix hafter.symm)
    have hwhole : String.utf8EncodeChar c ++
      rest.flatMap String.utf8EncodeChar = (c :: rest).flatMap String.utf8EncodeChar :=
      flatMap_cons.symm
    rw [hmarked, if_neg Bool.false_ne_true, hwhole, decode_toUtf8, if_neg hc]
    dsimp only
    rw [← htext]
    exact String.ofList_toList

theorem withoutMark_eq_self {text : String} : withoutMark text = text ↔ text.toList.head? ≠ some byteOrderMark := by
  rw [withoutMark]
  cases htext : text.toList with
  | nil => exact iff_of_true (String.toList_eq_nil_iff.mp htext).symm (by simp)
  | cons c rest =>
    dsimp only
    rw [head?_cons, ne_eq, some.injEq]
    by_cases hc : c = byteOrderMark
    · rw [if_pos hc]
      refine iff_of_false (fun hsame => ?_) (not_not_intro hc)
      have hlen := congrArg (fun t => t.toList.length) hsame
      simp only [String.toList_ofList, htext, length_cons] at hlen
      omega
    · rw [if_neg hc]
      exact iff_of_true rfl hc

/-! ## Entries there and back -/

section

variable {u : LinkCodec} {key : List UInt8} {entry : Entry}

/-- A field of bytes, as it is written and as it is read. -/
abbrev bytesPart (field : Nat) (value : List UInt8) : List UInt8 × PbField :=
  (pbWriteBytes field value, ⟨field, 2, 0, value⟩)

abbrev uintPart (field value : Nat) : List UInt8 × PbField := (pbWriteUint field value, ⟨field, 0, value, []⟩)

/-- The parameters of an entry, as they are written and as they are read. -/
def parameterParts (key : List UInt8) (entry : Entry) : List (List UInt8 × PbField) :=
  [bytesPart 1 key, bytesPart 2 (toUtf8 entry.name)] ++
    (if entry.issuer ≠ "" then [bytesPart 3 (toUtf8 entry.issuer)] else []) ++
    [uintPart 4 (migrationAlgorithmValue entry.algorithm), uintPart 5 (if entry.digits = 8 then 2 else 1),
      uintPart 6 (if entry.type = .HOTP then 1 else 2)] ++
    (if entry.type = .HOTP then [uintPart 7 entry.counter.toUInt64.toNat] else [])

theorem parameterParts_bytes : (parameterParts key entry).flatMap fst = migrationParameters key entry := by
  rw [parameterParts, migrationParameters]
  by_cases hissuer : entry.issuer ≠ ""
  · by_cases htype : entry.type = .HOTP
    · simp [hissuer, htype]
    · simp [hissuer, htype]
  by_cases htype : entry.type = .HOTP
  · simp [hissuer, htype]
  · simp [hissuer, htype]

theorem length_le_pbWriteBytes (field : Nat) (value : List UInt8) :
    value.length ≤ (pbWriteBytes field value).length := by
  rw [pbWriteBytes, length_append]
  exact Nat.le_add_left _ _

theorem length_part_le {parts : List (List UInt8 × PbField)} {p : List UInt8 × PbField} (h : p ∈ parts) :
    p.1.length ≤ (parts.flatMap fst).length := (sublist_flatten_of_mem (mem_map_of_mem h)).length_le

theorem parameterParts_written (hfits : (migrationParameters key entry).length < 2 ^ 64) :
    ∀ p ∈ parameterParts key entry, Written p.1 p.2 := by
  have hbytes : ∀ (field : Nat) (value : List UInt8), field < 2 ^ 29 →
      bytesPart field value ∈ parameterParts key entry →
      Written (pbWriteBytes field value) ⟨field, 2, 0, value⟩ := by
    intro field value hfield hp
    refine written_bytes hfield (lt_of_le_of_lt ?_ hfits)
    rw [← parameterParts_bytes]
    exact (length_le_pbWriteBytes field value).trans (length_part_le hp)
  have halgorithm : migrationAlgorithmValue entry.algorithm < 2 ^ 64 := by
    cases entry.algorithm <;> decide
  have htwo : ∀ {P : Prop} [Decidable P] (a b : Nat), a < 2 ^ 64 → b < 2 ^ 64 → (if P then a else b) < 2 ^ 64 := by
    intro P _ a b ha hb
    split
    · exact ha
    · exact hb
  intro p hp
  have hp' := hp
  rw [parameterParts] at hp'
  simp only [mem_append, mem_cons, not_mem_nil, or_false, mem_ite_nil_right, ne_eq] at hp'
  rcases hp' with (((rfl | rfl) | ⟨-, rfl⟩) | rfl | rfl | rfl) | ⟨-, rfl⟩
  · exact hbytes 1 key (by decide) hp
  · exact hbytes 2 _ (by decide) hp
  · exact hbytes 3 _ (by decide) hp
  · exact written_uint (by decide) halgorithm
  · exact written_uint (by decide) (htwo 2 1 (by decide) (by decide))
  · exact written_uint (by decide) (htwo 1 2 (by decide) (by decide))
  · exact written_uint (by decide) (UInt64.toNat_lt _)

/-- The entry that comes out of a migration. -/
def migrated (key : List UInt8) (entry : Entry) : Entry where
  name := if withoutMark entry.name = "" then withoutMark entry.issuer else withoutMark entry.name
  issuer := withoutMark entry.issuer
  secret := base32Encode key
  algorithm := entry.algorithm
  type := entry.type
  digits := if entry.digits = 8 then 8 else DEFAULT_DIGITS
  counter := if entry.type = .HOTP then entry.counter else 0

theorem draft_finish (hkey : key ≠ []) :
    (((parameterParts key entry).map snd).foldl (readParameter u) {}).finish = .ok (migrated key entry) := by
  have hsecret : (!key.isEmpty) = true := by simpa using hkey
  have halgorithm : migrationAlgorithm (migrationAlgorithmValue entry.algorithm) = some entry.algorithm := by
    cases entry.algorithm <;> rfl
  have hdigits : ∀ d : Draft, readParameter u d ⟨5, 0, if entry.digits = 8 then 2 else 1, []⟩ =
      { d with entry := { d.entry with digits := if entry.digits = 8 then 8 else DEFAULT_DIGITS } } := by
    intro d
    by_cases h : entry.digits = 8
    · rw [if_pos h, if_pos h]
      rfl
    · rw [if_neg h, if_neg h]
      rfl
  have htype : ∀ d : Draft, readParameter u d ⟨6, 0, if entry.type = .HOTP then 1 else 2, []⟩ =
      { d with entry := { d.entry with type := entry.type } } := by
    intro d
    cases entry.type <;> rfl
  have hreads : ∀ (d : Draft), readParameter u d ⟨4, 0, migrationAlgorithmValue entry.algorithm, []⟩ =
      { d with entry := { d.entry with algorithm := entry.algorithm } } := by
    intro d
    show (match migrationAlgorithm (migrationAlgorithmValue entry.algorithm) with
      | some algorithm => { d with entry := { d.entry with algorithm := algorithm } }
      | none => { d with badAlgorithm := some (migrationAlgorithmValue entry.algorithm) }) = _
    rw [halgorithm]
  have hcounter : ∀ d : Draft, readParameter u d ⟨7, 0, entry.counter.toUInt64.toNat, []⟩ =
      { d with entry := { d.entry with counter := entry.counter } } := by
    intro d
    show { d with entry := { d.entry with counter := (UInt64.ofNat entry.counter.toUInt64.toNat).toInt64 } } = _
    rw [UInt64.ofNat_toNat]
    rfl
  have hname : ∀ d : Draft, readParameter u d ⟨2, 2, 0, toUtf8 entry.name⟩ =
      { d with entry := { d.entry with name := withoutMark entry.name } } := by
    intro d
    rw [← fromUtf8_toUtf8 u.malformed]
    rfl
  have hissuer : ∀ d : Draft, readParameter u d ⟨3, 2, 0, toUtf8 entry.issuer⟩ =
      { d with entry := { d.entry with issuer := withoutMark entry.issuer } } := by
    intro d
    rw [← fromUtf8_toUtf8 u.malformed]
    rfl
  have hfirst : readParameter u {} ⟨1, 2, 0, key⟩ = { entry := { secret := base32Encode key }, haveSecret := true } := by
    rw [← hsecret]
    rfl
  have hdraft : ((parameterParts key entry).map snd).foldl (readParameter u) {} =
      { entry := { migrated key entry with name := withoutMark entry.name }, haveSecret := true } := by
    have hcounterPart : ∀ d : Draft, d.entry.counter = 0 →
        ((if entry.type = .HOTP then [uintPart 7 entry.counter.toUInt64.toNat] else []).map snd).foldl
            (readParameter u) d =
          { d with entry := { d.entry with counter := if entry.type = .HOTP then entry.counter else 0 } } := by
      intro d hd
      by_cases h : entry.type = .HOTP
      · rw [if_pos h, if_pos h]
        exact hcounter d
      · rw [if_neg h, if_neg h, ← hd]
        rfl
    have hissuerPart : ∀ d : Draft, d.entry.issuer = "" →
        ((if entry.issuer ≠ "" then [bytesPart 3 (toUtf8 entry.issuer)] else []).map snd).foldl
            (readParameter u) d =
          { d with entry := { d.entry with issuer := withoutMark entry.issuer } } := by
      intro d hd
      by_cases h : entry.issuer = ""
      · rw [if_neg (not_not_intro h), h, show withoutMark "" = "" from rfl, ← hd]
        rfl
      · rw [if_pos h]
        exact hissuer d
    rw [parameterParts, map_append, foldl_append, map_append, foldl_append, map_append, foldl_append,
      map_cons, map_cons, foldl_cons, foldl_cons, hfirst, hname, map_nil, foldl_nil, hissuerPart _ rfl,
      map_cons, map_cons, map_cons, foldl_cons, foldl_cons, foldl_cons, hreads, hdigits, htype,
      map_nil, foldl_nil, hcounterPart _ rfl]
    rfl
  rw [hdraft, Draft.finish]
  dsimp only
  rw [Bool.not_true, if_neg Bool.false_ne_true]
  by_cases hblank : withoutMark entry.name = ""
  · rw [if_pos hblank, migrated, if_pos hblank]
  · rw [if_neg hblank, migrated, if_neg hblank]

theorem mapM_some {α β : Type} {f : α → Option β} {g : α → β} {l : List α} (h : ∀ x ∈ l, f x = some (g x)) :
    l.mapM f = some (l.map g) := by
  induction l with
  | nil => rfl
  | cons x l ih =>
    rw [mapM_cons, h x mem_cons_self, ih fun y hy => h y (mem_cons_of_mem _ hy)]
    rfl

def keyOf (entry : Entry) : List UInt8 := (base32Decode entry.secret).getD []

theorem Usable.keyOf {entry : Entry} {key : List UInt8} (h : Usable entry key) : keyOf entry = key := by
  rw [OTP.keyOf, h.decoded, getD_some]

variable {entries : List Entry}

/-- The entries of a payload and what follows them, as they are written and as they are read. -/
def payloadParts (entries : List Entry) : List (List UInt8 × PbField) :=
  (entries.map fun e => bytesPart 1 (migrationParameters (keyOf e) e)) ++
    [uintPart 2 1, uintPart 3 1, uintPart 4 0]

variable (h : ∀ e ∈ entries, ∃ key, Usable e key)

include h

theorem payloadParts_bytes (hne : entries ≠ []) :
    (payloadParts entries).flatMap fst = migrationPayload entries ∧ migrationPayload entries ≠ [] := by
  have hentry : ∀ e ∈ entries, migrationEntry e = pbWriteBytes 1 (migrationParameters (keyOf e) e) := by
    intro e he
    obtain ⟨key, husable⟩ := h e he
    have hkey : key.isEmpty = false := by simpa using husable.filled
    rw [migrationEntry, husable.decoded, husable.keyOf]
    dsimp only
    rw [hkey, if_neg Bool.false_ne_true]
  have hentries : entries.flatMap migrationEntry =
      (entries.map fun e => bytesPart 1 (migrationParameters (keyOf e) e)).flatMap fst := by
    rw [flatMap_map]
    exact flatMap_congr hentry
  have hfilled : entries.flatMap migrationEntry ≠ [] := by
    obtain ⟨e, rest, rfl⟩ := exists_cons_of_ne_nil hne
    rw [flatMap_cons, hentry e mem_cons_self, pbWriteBytes, append_assoc, append_assoc]
    exact append_ne_nil_of_left_ne_nil (pbWriteVarint_ne_nil _) _
  have hempty : (entries.flatMap migrationEntry).isEmpty = false := by simpa using hfilled
  rw [migrationPayload, hempty, if_neg Bool.false_ne_true]
  refine ⟨?_, append_ne_nil_of_left_ne_nil (append_ne_nil_of_left_ne_nil (append_ne_nil_of_left_ne_nil hfilled _) _) _⟩
  rw [payloadParts, flatMap_append, ← hentries, append_assoc, append_assoc]
  rfl

theorem readPayload_export (hne : entries ≠ [])
    (hfits : (migrationPayload entries).length < 2 ^ 31) :
    readPayload u (migrationPayload entries) = some (entries.map fun e => .ok (migrated (keyOf e) e)) := by
  obtain ⟨hbytes, -⟩ := payloadParts_bytes h hne
  have hsize : ∀ e ∈ entries, (migrationParameters (keyOf e) e).length < 2 ^ 31 := by
    intro e he
    have hpart : bytesPart 1 (migrationParameters (keyOf e) e) ∈ payloadParts entries :=
      mem_append_left _ (mem_map.mpr ⟨e, he, rfl⟩)
    refine lt_of_le_of_lt ((length_le_pbWriteBytes 1 _).trans ?_) hfits
    rw [← hbytes]
    exact length_part_le hpart
  have hwritten : ∀ p ∈ payloadParts entries, Written p.1 p.2 := by
    intro p hp
    rcases mem_append.mp hp with hp | hp
    · obtain ⟨e, he, rfl⟩ := mem_map.mp hp
      have hlt := hsize e he
      exact written_bytes (by decide) (by omega)
    simp only [mem_cons, not_mem_nil, or_false] at hp
    rcases hp with rfl | rfl | rfl
    · exact written_uint (by decide) (by decide)
    · exact written_uint (by decide) (by decide)
    · exact written_uint (by decide) (by decide)
  have hfields : ((payloadParts entries).map snd).filter (fun f => decide (f.field = 1 ∧ f.wireType = 2)) =
      entries.map fun e => ⟨1, 2, 0, migrationParameters (keyOf e) e⟩ := by
    rw [payloadParts, map_append, List.map_map, List.filter_append, List.filter_eq_self.mpr]
    · exact append_nil _
    · intro f hf
      obtain ⟨e, -, rfl⟩ := mem_map.mp hf
      rfl
  rw [readPayload, ← hbytes, pbReadFields_written hwritten]
  show ((((payloadParts entries).map snd).filter fun f => decide (f.field = 1 ∧ f.wireType = 2)).mapM fun f => do
    let parameters ← pbReadFields f.bytes
    return (parameters.foldl (readParameter u) {}).finish) = _
  rw [hfields, mapM_map, mapM_some]
  intro e he
  obtain ⟨key, husable⟩ := h e he
  have hlt := hsize e he
  show (pbReadFields (migrationParameters (keyOf e) e)).bind
    (fun parameters => some (parameters.foldl (readParameter u) {}).finish) = _
  rw [← parameterParts_bytes, pbReadFields_written (parameterParts_written (by omega)), bind_some,
    draft_finish (by rw [husable.keyOf]; exact husable.filled)]

/-- A link with entries reads back to one entry for each; a link without any is refused. -/
theorem parse_export (hcarries : Carries u (migrationPayload entries)) :
    parseFromMigrationLink u (exportToMigrationLink u entries) =
      ⟨if entries = [] then none else some (entries.map fun e => migrated (keyOf e) e), []⟩ := by
  by_cases hne : entries = []
  · subst hne
    rw [if_pos rfl]
    show parseFromMigrationLink u "" = _
    rw [parseFromMigrationLink, show String.ofList (Scan.trimmed "".toList) = "" from rfl, hcarries.empty]
  obtain ⟨-, hfilled⟩ := payloadParts_bytes h hne
  have hempty : (migrationPayload entries).isEmpty = false := by simpa using hfilled
  rw [if_neg hne, exportToMigrationLink, hempty, if_neg Bool.false_ne_true, parseFromMigrationLink, hcarries.url]
  dsimp only
  rw [sameName_self, if_neg Bool.true_eq_false.mp, if_neg (hcarries.filled hfilled), hcarries.base64, hempty,
    if_neg Bool.false_ne_true, readPayload_export h hne hcarries.fits]
  dsimp only
  have hentries : (entries.map fun e => (Except.ok (migrated (keyOf e) e) : Except String Entry)).filterMap (fun r => r.toOption) =
      entries.map fun e => migrated (keyOf e) e := by
    rw [filterMap_map]
    exact congrFun filterMap_eq_map' _
  have hskipped : (entries.map fun e => (Except.ok (migrated (keyOf e) e) : Except String Entry)).filterMap (fun r =>
      match r with
      | .error problem => some problem
      | .ok _ => none) = [] := by
    rw [filterMap_map, filterMap_eq_nil_iff]
    intro e _
    rfl
  have hmapped : (entries.map fun e => migrated (keyOf e) e).isEmpty = false := by simpa using hne
  rw [hentries, hskipped, hmapped, if_neg Bool.false_ne_true]

end

/-! ## What survives -/

/-- The same code at every time and counter, and the same names where there is a name. -/
structure Same (hash : Mac) (now : Int) (entry entry' : Entry) : Prop where
  code : ∀ unixTime, generateCode hash now entry' unixTime = generateCode hash now entry unixTime
  counters : ∀ counter unixTime, generateCode hash now { entry' with counter := counter } unixTime =
    generateCode hash now { entry with counter := counter } unixTime
  names : entry.name ≠ "" → entry'.name = entry.name ∧ entry'.issuer = entry.issuer

/-- The import of the export gives one entry for each, in order, that is the same. -/
def Survives (hash : Mac) (now : Int) (u : LinkCodec) (entries : List Entry) : Prop :=
  ∃ out, (parseFromMigrationLink u (exportToMigrationLink u entries)).entries = some out ∧
    Forall₂ (Same hash now) entries out

/-- Six or eight digits, and no byte order mark at the start of a name. -/
structure Portable (entry : Entry) : Prop where
  digits : entry.digits = 6 ∨ entry.digits = 8
  marks : entry.name ≠ "" → entry.name.toList.head? ≠ some byteOrderMark ∧ entry.issuer.toList.head? ≠ some byteOrderMark

section

variable {hash : Mac} {now : Int} {entry : Entry} {key : List UInt8}

theorem migrated_usable (h : Usable entry key) : Usable (migrated key entry) key := by
  refine ⟨base32Decode_encode key, h.filled, ?_,
    fun _ => (by decide : MIN_PERIOD ≤ DEFAULT_PERIOD ∧ DEFAULT_PERIOD ≤ MAX_PERIOD)⟩
  show MIN_DIGITS ≤ (if entry.digits = 8 then 8 else DEFAULT_DIGITS) ∧
    (if entry.digits = 8 then 8 else DEFAULT_DIGITS) ≤ MAX_DIGITS
  split
  · decide
  · decide

theorem migrated_valid (h : Usable entry key) : validate (migrated key entry) = "" :=
  (validate_iff _).mpr ⟨base32Encode_ne_blank h.filled, key, migrated_usable h⟩

theorem codeOf_migrated (hdigits : entry.digits = 6 ∨ entry.digits = 8)
    (hperiod : entry.type = .TOTP → entry.period = 30)
    (counter : Int64) (unixTime : Int) :
    codeOf hash now key { migrated key entry with counter := counter } unixTime =
      codeOf hash now key { entry with counter := counter } unixTime := by
  have hkept : (if entry.digits = 8 then 8 else DEFAULT_DIGITS) = entry.digits := by
    rcases hdigits with h | h
    · rw [h]
      rfl
    · rw [h]
      rfl
  have htime : entry.type = .TOTP → (migrated key entry).period = entry.period := fun htype => (hperiod htype).symm
  rw [codeOf, codeOf, migrated]
  dsimp only
  rw [hkept]
  cases htype : entry.type with
  | HOTP => rfl
  | TOTP =>
    rw [hperiod htype]
    rfl

theorem same_iff (hhash : ∀ a k m, 20 ≤ (hash a k m).length) (hvalid : validate entry = "") (h : Usable entry key)
    (hperiod : entry.type = .TOTP → entry.period = 30) : Same hash now entry (migrated key entry) ↔ Portable entry := by
  have hcode : ∀ t, generateCode hash now entry t = codeOf hash now key entry t := generateCode_eq hvalid h.decoded
  have hcode' : ∀ t, generateCode hash now (migrated key entry) t = codeOf hash now key (migrated key entry) t :=
    generateCode_eq (migrated_valid h) (migrated_usable h).decoded
  constructor
  · intro hsame
    refine ⟨?_, fun hname => ?_⟩
    · have hlen := congrArg (fun code : String => (code.length : Int)) ((hcode' 0).symm.trans ((hsame.code 0).trans (hcode 0)))
      rw [length_codeOf hhash (migrated_usable h), length_codeOf hhash h] at hlen
      have hshown : (migrated key entry).digits = if entry.digits = 8 then 8 else DEFAULT_DIGITS := rfl
      rw [hshown] at hlen
      by_cases hdigits : entry.digits = 8
      · exact .inr hdigits
      · rw [if_neg hdigits] at hlen
        exact .inl hlen.symm
    · obtain ⟨hsameName, hsameIssuer⟩ := hsame.names hname
      have hissuer : withoutMark entry.issuer = entry.issuer := hsameIssuer
      have hissuer' : entry.issuer.toList.head? ≠ some byteOrderMark := withoutMark_eq_self.mp hissuer
      refine ⟨fun hmark => ?_, hissuer'⟩
      have hcut : withoutMark entry.name ≠ entry.name := fun hself => withoutMark_eq_self.mp hself hmark
      by_cases hblank : withoutMark entry.name = ""
      · -- the name was the mark alone, and the issuer took its place
        have hshown : (migrated key entry).name = withoutMark entry.issuer := if_pos hblank
        rw [hshown, hissuer] at hsameName
        rw [hsameName] at hissuer'
        exact hissuer' hmark
      · have hshown : (migrated key entry).name = withoutMark entry.name := if_neg hblank
        exact hcut (hshown.symm.trans hsameName)
  · intro hportable
    have hcounters := fun (counter : Int64) (t : Int) =>
      @codeOf_migrated hash now entry key hportable.digits hperiod counter t
    refine ⟨fun t => ?_, fun counter t => ?_, fun hname => ?_⟩
    · rw [hcode, hcode']
      cases htype : entry.type with
      | HOTP =>
        have hkept : migrated key entry = { migrated key entry with counter := entry.counter } := by
          rw [migrated, if_pos htype]
        rw [hkept]
        exact hcounters entry.counter t
      | TOTP =>
        have hany : ∀ e : Entry, e.type = .TOTP →
          codeOf hash now key { e with counter := 0 } t = codeOf hash now key e t := by
          intro e he
          rw [codeOf, codeOf, he]
        rw [← hany entry htype, ← hany (migrated key entry) htype]
        exact hcounters 0 t
    · have hvalid' : validate { entry with counter := counter } = "" := hvalid
      have hmigrated : validate { migrated key entry with counter := counter } = "" := migrated_valid h
      rw [generateCode_eq hvalid' h.decoded, generateCode_eq hmigrated (migrated_usable h).decoded]
      exact hcounters counter t
    · obtain ⟨hmark, hmark'⟩ := hportable.marks hname
      have hself := withoutMark_eq_self.mpr hmark
      have hshown : (migrated key entry).name = withoutMark entry.name := if_neg (by rwa [hself])
      exact ⟨hshown.trans hself, withoutMark_eq_self.mpr hmark'⟩

end

/-- **Migration links.** Entries that are usable survive an export and an import exactly when
there are any, all have six or eight digits, and no name starts with a byte order mark. -/
theorem migration_survives_iff (hash : Mac) (now : Int) (u : LinkCodec) (entries : List Entry)
    (hhash : ∀ a k m, 20 ≤ (hash a k m).length) (hvalid : ∀ e ∈ entries, validate e = "")
    (hperiod : ∀ e ∈ entries, e.type = .TOTP → e.period = 30) (hcarries : Carries u (migrationPayload entries)) :
    Survives hash now u entries ↔ entries ≠ [] ∧ ∀ e ∈ entries, Portable e := by
  have husable : ∀ e ∈ entries, Usable e (keyOf e) := by
    intro e he
    obtain ⟨-, key, h⟩ := (validate_iff e).mp (hvalid e he)
    rwa [h.keyOf]
  rw [Survives, parse_export (fun e he => ⟨keyOf e, husable e he⟩) hcarries]
  by_cases hne : entries = []
  · rw [if_pos hne]
    exact iff_of_false (fun ⟨_, hout, _⟩ => by cases hout) fun h => h.1 hne
  rw [if_neg hne]
  have hsame : Forall₂ (Same hash now) entries (entries.map fun e => migrated (keyOf e) e) ↔
    ∀ e ∈ entries, Portable e := by
    rw [forall₂_map_right_iff, forall₂_same]
    exact forall₂_congr fun e he => same_iff hhash (hvalid e he) (husable e he) (hperiod e he)
  constructor
  · rintro ⟨out, hout, hall⟩
    rw [← some.inj hout] at hall
    exact ⟨hne, hsame.mp hall⟩
  · rintro ⟨-, hall⟩
    exact ⟨_, rfl, hsame.mpr hall⟩

/-! ## Two links -/

/-- A codec that knows the base64 text of one payload. -/
def codecOf (payload : List UInt8) (text : String) : LinkCodec where
  toLink scheme host data := scheme ++ "://" ++ host ++ "?data=" ++ data
  ofLink link := if link = "otpauth-migration://offline?data=" ++ text then some ⟨"otpauth-migration", text⟩ else none
  toBase64 bytes := if bytes = payload then text else ""
  fromBase64 data := if data = text then payload else []
  malformed _ := "\ufffd"

/-- The MAC of the key 12345678901234567890 and the counter 0, by SHA1. -/
def sampleMac : Mac := fun _ _ _ => [204, 147, 207, 24, 80, 141, 148, 147, 76, 100, 182, 93, 139,
      167, 102, 127, 183, 205, 228, 176]

def alice : Entry where
  name := "alice"
  issuer := "ACME"
  secret := "GEZDGNBVGY3TQOJQGEZDGNBVGY3TQOJQ"
  type := .HOTP

/-- The same entry with seven digits. -/
def aliceSeven : Entry := { alice with digits := 7 }

/-- Both entries have one payload, since the format cannot tell six digits from seven. -/
def aliceText : String := "CisKFDEyMzQ1Njc4OTAxMjM0NTY3ODkwEgVhbGljZRoEQUNNRSABKAEwATgAEAEYASAA"

theorem codecOf_carries {entries : List Entry} (hfits : (migrationPayload entries).length < 2 ^ 31) :
    Carries (codecOf (migrationPayload entries) aliceText) (migrationPayload entries) := by
  have hlink : String.ofList (Scan.trimmed ("otpauth-migration" ++ "://" ++ "offline" ++ "?data=" ++ aliceText).toList) =
      "otpauth-migration://offline?data=" ++ aliceText := by decide
  have hempty : "" ≠ "otpauth-migration://offline?data=" ++ aliceText := by decide
  have htext : aliceText ≠ "" := by decide
  refine ⟨hfits, ?_, ?_, ?_, ?_⟩
  · simpa [codecOf] using fun _ => htext
  · simp [codecOf]
  · simp only [codecOf, if_pos, hlink]
  · simp only [codecOf, if_neg hempty]

theorem length_sampleMac (a : Algorithm) (key message : List UInt8) :
    20 ≤ (sampleMac a key message).length := Nat.le_refl 20

theorem alice_survives : Survives sampleMac 0 (codecOf (migrationPayload [alice]) aliceText) [alice] :=
  (migration_survives_iff sampleMac 0 (codecOf (migrationPayload [alice]) aliceText) [alice] length_sampleMac
    (by decide) (by decide) (codecOf_carries (by decide))).mpr
    ⟨cons_ne_nil _ _, fun e he => by
      rw [mem_singleton.mp he]
      exact ⟨by decide, fun _ => by decide⟩⟩

/-- A usable entry with seven digits comes back with six, and an empty list does not come back. -/
theorem aliceSeven_lost :
    ¬(∀ (hash : Mac) (now : Int) (u : LinkCodec) (entries : List Entry), (∀ a k m, 20 ≤ (hash a k m).length) →
        (∀ e ∈ entries, validate e = "") → (∀ e ∈ entries, e.type = .TOTP → e.period = 30) →
        Carries u (migrationPayload entries) → Survives hash now u entries) ∧
      generateCode sampleMac 0 aliceSeven 0 = "4755224" ∧
        generateCode sampleMac 0 (migrated (keyOf aliceSeven) aliceSeven) 0 = "755224" := by
  have husable : Usable aliceSeven (keyOf aliceSeven) := by
    obtain ⟨-, key, h⟩ := (validate_iff aliceSeven).mp (by decide)
    rwa [h.keyOf]
  refine ⟨fun hall => ?_, by decide, by decide⟩
  obtain ⟨out, hout, hsame⟩ := hall sampleMac 0 (codecOf (migrationPayload [aliceSeven]) aliceText) [aliceSeven]
    length_sampleMac (by decide) (by decide) (codecOf_carries (by decide))
  rw [parse_export (fun e he => ⟨_, mem_singleton.mp he ▸ husable⟩) (codecOf_carries (by decide)),
    if_neg (cons_ne_nil _ _)] at hout
  rw [← some.inj hout] at hsame
  have hcode := (forall₂_cons.mp hsame).1.code 0
  cases hcode

end Waterdisco.OTP
