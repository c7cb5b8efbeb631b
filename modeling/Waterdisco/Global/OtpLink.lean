import Waterdisco.Db.RestoreSteps
import Waterdisco.Global.OtpMigration

/-!
# Links of one entry

`ExportToLink` writes an entry as an `otpauth` link and `ParseFromLink` reads one.  Issuer and
name share the path, separated by the first colon, and the issuer is in the query again.
`QUrl` is a parameter, and so is the change of letters between upper and lower case.

    base32Decode (normalizeSecret s) = base32Decode s                (normalizeSecret_contract)
    the entry comes back ↔ no colon in the issuer, and none in a name without issuer
                                                                     (link_survives_iff)
-/

namespace Waterdisco.OTP

open String List Scan
open Restore (signed toText signed_toText)

/-! ## Secrets -/

/-- Empty where the secret is not accepted. -/
def normalizeSecret (secret : String) : String :=
  match base32Decode secret with
  | none => ""
  | some decoded => if decoded.isEmpty then "" else base32Encode decoded

/-- **Base32 there and back**: for every key, and for every secret that is accepted. -/
theorem normalizeSecret_contract :
    (∀ key, base32Decode (base32Encode key) = some key) ∧
      ∀ secret, normalizeSecret secret ≠ "" →
        (∃ key, base32Decode secret = some key ∧ base32Decode (normalizeSecret secret) = some key) ∧
          normalizeSecret (normalizeSecret secret) = normalizeSecret secret := by
  refine ⟨base32Decode_encode, fun secret haccepted => ?_⟩
  cases hkey : base32Decode secret with
  | none =>
    rw [normalizeSecret, hkey] at haccepted
    exact absurd rfl haccepted
  | some key =>
    have hfilled : ¬key.isEmpty = true := by
      intro hempty
      rw [normalizeSecret, hkey] at haccepted
      exact haccepted (if_pos hempty)
    have hnormal : ∀ text, base32Decode text = some key → normalizeSecret text = base32Encode key := by
      intro text htext
      rw [normalizeSecret, htext]
      exact if_neg hfilled
    have hsame := base32Decode_encode key
    rw [hnormal secret hkey, hnormal _ hsame]
    exact ⟨⟨key, rfl, hsame⟩, rfl⟩

theorem normalizeSecret_contract_padded : normalizeSecret "me-======" = "ME" ∧
    normalizeSecret (normalizeSecret "me-======") = "ME" :=
  have h : normalizeSecret "me-======" = "ME" := by decide
  ⟨h, (normalizeSecret_contract.2 "me-======" (by rw [h]; decide)).2.trans h⟩

/-! ## Links -/

/-- What `QUrl` holds of a link, the items of the query decoded. -/
structure Url where
  scheme : String
  host : String
  path : String
  query : List (String × String)
deriving DecidableEq

/-- `QUrl::toString(QUrl::FullyEncoded)` and the reading of a text, none where it is not valid; `QString::toUpper` and `toLower`. -/
structure LinkText where
  ofUrl : Url → String
  toUrl : String → Option Url
  toUpper : String → String
  toLower : String → String

def trimmed (text : String) : String := ofList (Scan.trimmed text.toList)

def Url.queryItem (url : Url) (key : String) : Option String := (url.query.find? fun item => item.1 == key).map (·.2)

/-- Empty where there is no item. -/
def Url.queryItemValue (url : Url) (key : String) : String := (url.queryItem key).getD ""

def algorithmToString : Algorithm → String
  | .SHA256 => "SHA256"
  | .SHA512 => "SHA512"
  | .SHA1 => "SHA1"

def typeToString : EntryType → String
  | .HOTP => "hotp"
  | .TOTP => "totp"

def number (n : Int) : String := ofList (toText n)

def exportUrl (entry : Entry) : Url where
  scheme := "otpauth"
  host := typeToString entry.type
  path := "/" ++ (if entry.issuer.isEmpty then entry.name else entry.issuer ++ ":" ++ entry.name)
  query := [("secret", entry.secret)] ++ (if entry.issuer.isEmpty then [] else [("issuer", entry.issuer)]) ++
    [("algorithm", algorithmToString entry.algorithm), ("digits", number entry.digits)] ++
    [match entry.type with
      | .HOTP => ("counter", number entry.counter.toInt)
      | .TOTP => ("period", number entry.period)]

def otpBadSecret (entry : Entry) : String :=
  otpEntryLabel entry ++ ": the secret is not valid base32 (letters A-Z and digits 2-7)."

def otpBadDigits (entry : Entry) (value : String) : String :=
  otpEntryLabel entry ++ ": " ++ value ++ " digits are not supported (use " ++ number MIN_DIGITS ++ " to " ++
    number MAX_DIGITS ++ ")."

def otpBadPeriod (entry : Entry) (value : String) : String :=
  otpEntryLabel entry ++ ": a period of \"" ++ value ++ "\" seconds is not supported (use " ++
    number MIN_PERIOD ++ " to " ++
    number MAX_PERIOD ++ ")."

def otpBadCounter (entry : Entry) (value : String) : String :=
  otpEntryLabel entry ++ ": the counter \"" ++ value ++ "\" is not a whole number of 0 or more."

/-- Issuer and name of a label, which the first colon separates. -/
def labelParts (label : String) : String × String :=
  match cut ':' label.toList with
  | some (issuer, name) => (trimmed (ofList issuer), trimmed (ofList name))
  | none => ("", trimmed label)

/-- Issuer and name as the path and the query have them. -/
def readLabel (url : Url) : Entry :=
  let parts := labelParts (match url.path.toList with
    | '/' :: rest => ofList rest
    | _ => url.path)
  let issuer := trimmed (url.queryItemValue "issuer")
  let issuer := if issuer.isEmpty then parts.1 else issuer
  { name := if parts.2.isEmpty then issuer else parts.2, issuer := issuer }

/-- A number of a range, as it is read from a text without blanks around it. -/
def readNumber (low high : Int) (text : String) : Option Int :=
  (signed text.toList).filter fun n => decide (low ≤ n ∧ n ≤ high)

section

variable (t : LinkText)

def exportToLink (entry : Entry) : String := t.ofUrl (exportUrl entry)

def typeFromString (name : String) : Option EntryType :=
  let normalized := t.toLower (trimmed name)
  if normalized = "hotp" then some .HOTP
  else if normalized = "totp" ∨ normalized = "" then some .TOTP
  else none

def algorithmFromString (name : String) : Option Algorithm :=
  let normalized := (t.toUpper (trimmed name)).toList.filter (· ≠ '-')
  if normalized = "SHA256".toList then some .SHA256
  else if normalized = "SHA512".toList then some .SHA512
  else if normalized = "SHA1".toList ∨ normalized = [] then some .SHA1
  else none

/-- An item of the query that is read where it is there; the entry keeps its default otherwise. -/
def readItem {α : Type} (url : Url) (key : String) (keep : α) (read : String → Option α) (bad : String → String) :
    Except String α :=
  match url.queryItem key with
  | none => .ok keep
  | some value => match read value with
    | none => .error (bad value)
    | some x => .ok x

/-- The number of an item; `bad` says the text without the blanks around it. -/
def readNumberItem (url : Url) (key : String) (keep low high : Int) (bad : String → String) : Except String Int :=
  readItem url key keep (fun value => readNumber low high (trimmed value)) fun value => bad (trimmed value)

def readUrl (url : Url) : Except String Entry :=
  let entry := readLabel url
  let secret := url.queryItemValue "secret"
  match typeFromString t url.host with
  | none => .error (otpBadType entry url.host)
  | some type =>
    if (trimmed secret).isEmpty then .error (otpNoSecret entry)
    else if (normalizeSecret secret).isEmpty then .error (otpBadSecret entry)
    else do
      let algorithm ← readItem url "algorithm" .SHA1 (algorithmFromString t) (otpBadAlgorithm entry)
      let digits ← readNumberItem url "digits" DEFAULT_DIGITS MIN_DIGITS MAX_DIGITS (otpBadDigits entry)
      let period ← (if type = .TOTP then
          readNumberItem url "period" DEFAULT_PERIOD MIN_PERIOD MAX_PERIOD (otpBadPeriod entry)
        else .ok DEFAULT_PERIOD)
      let counter ← (if type = .HOTP then readNumberItem url "counter" 0 0 (2 ^ 63 - 1) (otpBadCounter entry) else .ok 0)
      .ok { entry with type := type, secret := normalizeSecret secret, algorithm := algorithm, digits := digits, period := period,
                       counter := Int64.ofInt counter }

/-- The entry of a link, or the problem; the problem is empty where it is no such link. -/
def parseFromLink (link : String) : Except String Entry :=
  match t.toUrl (trimmed link) with
  | none => .error ""
  | some url => if sameName url.scheme "otpauth" then readUrl t url else .error ""

end

/-! ## There and back -/

/-- Letters that are in the case already stay. -/
structure LinkText.Cases (t : LinkText) : Prop where
  upper : ∀ s : String, (s.toList.all fun c => c.isUpper || c.isDigit) = true → t.toUpper s = s
  lower : ∀ s : String, s.toList.all Char.isLower = true → t.toLower s = s

/-- The fields that a link has for the entry. -/
structure Returned (entry entry' : Entry) : Prop where
  name : entry'.name = entry.name
  issuer : entry'.issuer = entry.issuer
  secret : entry'.secret = entry.secret
  algorithm : entry'.algorithm = entry.algorithm
  type : entry'.type = entry.type
  digits : entry'.digits = entry.digits
  period : entry.type = .TOTP → entry'.period = entry.period
  counter : entry.type = .HOTP → entry'.counter = entry.counter

theorem count_trimmed {c : Char} (hc : Scan.isSpace c = false) (text : List Char) :
    (Scan.trimmed text).count c = text.count c := by
  have hdrop : ∀ l : List Char, (l.dropWhile Scan.isSpace).count c = l.count c := by
    intro l
    have hnone : (l.takeWhile Scan.isSpace).count c = 0 := by
      rw [count_eq_zero]
      intro hmem
      rw [mem_takeWhile_imp hmem] at hc
      cases hc
    conv => rhs; rw [← takeWhile_append_dropWhile (p := Scan.isSpace) (l := l), count_append, hnone, Nat.zero_add]
  rw [Scan.trimmed, count_reverse, hdrop, count_reverse, hdrop]

theorem readNumber_number {low high n : Int} (h : low ≤ n ∧ n ≤ high) (hnonneg : 0 ≤ n) :
    readNumber low high (trimmed (number n)) = some n := by
  have hspace : ∀ c ∈ toText n, Scan.isSpace c = false := by
    intro c hc
    rw [toText, if_neg (by omega)] at hc
    obtain ⟨d, hd, rfl⟩ := mem_toDigits (by omega) hc
    have hall : ∀ d : Fin 10, Scan.isSpace (Nat.digitChar d.val) = false := by decide
    exact hall ⟨d, hd⟩
  rw [readNumber, trimmed, number, toList_ofList, toList_ofList, trimmed_of_no_space hspace, signed_toText,
    Option.filter_some, if_pos (decide_eq_true h)]

section

variable {t : LinkText} {entry : Entry}

theorem typeFromString_typeToString (ht : t.Cases) (type : EntryType) :
    typeFromString t (typeToString type) = some type := by
  have hlower : t.toLower (trimmed (typeToString type)) = typeToString type := by
    cases type with
    | TOTP => exact ht.lower "totp" (by decide)
    | HOTP => exact ht.lower "hotp" (by decide)
  rw [typeFromString, hlower]
  cases type <;> decide

theorem algorithmFromString_algorithmToString (ht : t.Cases) (algorithm : Algorithm) :
    algorithmFromString t (algorithmToString algorithm) = some algorithm := by
  have hupper : t.toUpper (trimmed (algorithmToString algorithm)) = algorithmToString algorithm := by
    cases algorithm with
    | SHA1 => exact ht.upper "SHA1" (by decide)
    | SHA256 => exact ht.upper "SHA256" (by decide)
    | SHA512 => exact ht.upper "SHA512" (by decide)
  rw [algorithmFromString, hupper]
  cases algorithm <;> decide

/-- The items that are written, whether there is an issuer or not. -/
theorem queryItem_export :
    (exportUrl entry).queryItem "secret" = some entry.secret ∧
      (exportUrl entry).queryItem "algorithm" = some (algorithmToString entry.algorithm) ∧
      (exportUrl entry).queryItem "digits" = some (number entry.digits) ∧
      (entry.type = .TOTP → (exportUrl entry).queryItem "period" = some (number entry.period)) ∧
      (entry.type = .HOTP → (exportUrl entry).queryItem "counter" = some (number entry.counter.toInt)) := by
  refine ⟨?_, ?_, ?_, fun htype => ?_, fun htype => ?_⟩
  all_goals
    rw [Url.queryItem, exportUrl]
    split <;> simp [List.find?, *]

theorem queryItemValue_issuer : (exportUrl entry).queryItemValue "issuer" = entry.issuer := by
  rw [Url.queryItemValue, Url.queryItem, exportUrl]
  split
  · next hempty =>
    rw [isEmpty_iff.mp hempty]
    cases entry.type <;> simp [List.find?]
  · simp [List.find?]

theorem readItem_some {α : Type} {url : Url} {key value : String} {keep x : α} {read : String → Option α}
    {bad : String → String} (hitem : url.queryItem key = some value) (hread : read value = some x) :
    readItem url key keep read bad = .ok x := by
  rw [readItem, hitem]
  dsimp only
  rw [hread]

theorem readNumberItem_number {url : Url} {key : String} {keep low high n : Int} {bad : String → String}
    (hitem : url.queryItem key = some (number n)) (h : low ≤ n ∧ n ≤ high) (hnonneg : 0 ≤ n) :
    readNumberItem url key keep low high bad = .ok n := by
  rw [readNumberItem, readItem, hitem]
  dsimp only
  rw [readNumber_number h hnonneg]

/-- The label decides about issuer and name; all other fields of the link come back. -/
def linked (entry : Entry) : Entry :=
  { readLabel (exportUrl entry) with
    type := entry.type, secret := entry.secret, algorithm := entry.algorithm, digits := entry.digits,
    period := if entry.type = .TOTP then entry.period else DEFAULT_PERIOD,
    counter := if entry.type = .HOTP then entry.counter else 0 }

theorem readUrl_export (ht : t.Cases) {key : List UInt8} (h : Usable entry key)
    (hshown : Scan.trimmed entry.secret.toList ≠ [])
    (hnormal : normalizeSecret entry.secret = entry.secret) (hcounter : 0 ≤ entry.counter.toInt) :
    readUrl t (exportUrl entry) = .ok (linked entry) := by
  obtain ⟨hsecret, halgorithm, hdigits, hperiod, hnumber⟩ := @queryItem_export entry
  have hvalue : (exportUrl entry).queryItemValue "secret" = entry.secret := by
    rfl
  have hblank : ¬(trimmed entry.secret).isEmpty = true := by
    rw [String.isEmpty_iff, trimmed, String.ofList_eq_empty_iff]
    exact hshown
  have hfilled : ¬entry.secret.isEmpty = true := by
    intro hempty
    rw [isEmpty_iff.mp hempty] at hshown
    exact hshown rfl
  have hlow := h.digits
  have hmin : (4 : Int) ≤ entry.digits := hlow.1
  have htype : typeFromString t (exportUrl entry).host = some entry.type := typeFromString_typeToString ht entry.type
  rw [readUrl, htype, hvalue, hnormal, linked]
  dsimp only [bind, Except.bind]
  rw [if_neg hblank, if_neg hfilled, readItem_some halgorithm (algorithmFromString_algorithmToString ht entry.algorithm),
    readNumberItem_number hdigits hlow (by omega)]
  cases hkind : entry.type with
  | TOTP =>
    have hrange := h.period hkind
    have hmin : (1 : Int) ≤ entry.period := hrange.1
    rw [if_pos rfl, if_pos rfl, readNumberItem_number (hperiod hkind) hrange (by omega)]
    rfl
  | HOTP =>
    have hmax : entry.counter.toInt ≤ 2 ^ 63 - 1 := by
      have := entry.counter.toInt_lt
      omega
    rw [if_pos rfl, if_pos rfl, readNumberItem_number (hnumber hkind) ⟨hcounter, hmax⟩ hcounter]
    dsimp only
    rw [Int64.ofInt_toInt]
    rfl

/-! ## Labels -/

def exportLabel (entry : Entry) : String := if entry.issuer.isEmpty then entry.name else entry.issuer ++ ":" ++ entry.name

/-- No colon where the label is cut at a wrong place. -/
structure Apart (entry : Entry) : Prop where
  issuer : ':' ∉ entry.issuer.toList
  name : entry.issuer = "" → ':' ∉ entry.name.toList

theorem labelParts_plain {label : String} (h : ':' ∉ label.toList) : labelParts label = ("", trimmed label) := by
  rw [labelParts, cut_eq_none h]

theorem labelParts_pair {issuer name : String} (h : ':' ∉ issuer.toList) :
    labelParts (issuer ++ ":" ++ name) = (trimmed issuer, trimmed name) := by
  have hlabel : (issuer ++ ":" ++ name).toList = issuer.toList ++ ':' :: name.toList := by simp
  rw [labelParts, hlabel, cut_append h]
  simp only [ofList_toList]

/-- The name takes all colons of a label but the first. -/
theorem count_labelParts {label : String} (h : ':' ∈ label.toList) :
    (labelParts label).1.toList.count ':' = 0 ∧ (labelParts label).2.toList.count ':' + 1 = label.toList.count ':' := by
  obtain ⟨issuer, name, hlabel, hnot⟩ := eq_append_cons_of_mem h
  have hfirst := count_eq_zero.mpr hnot
  rw [labelParts, hlabel, cut_append hnot]
  dsimp only
  rw [trimmed, trimmed, toList_ofList, toList_ofList, toList_ofList, toList_ofList,
    count_trimmed (by decide), count_trimmed (by decide), count_append, hfirst, count_cons_self, Nat.zero_add]
  exact ⟨rfl, rfl⟩

theorem readLabel_export (hissuer : trimmed entry.issuer = entry.issuer) :
    readLabel (exportUrl entry) =
      let parts := labelParts (exportLabel entry)
      let issuer := if entry.issuer.isEmpty then parts.1 else entry.issuer
      { name := if parts.2.isEmpty then issuer else parts.2, issuer := issuer } := by
  have hpath : (exportUrl entry).path.toList = '/' :: (exportLabel entry).toList := by
    rw [exportUrl, exportLabel, toList_append]
    rfl
  rw [readLabel, hpath, queryItemValue_issuer, hissuer]
  simp only [ofList_toList]

theorem label_survives_iff (hname : trimmed entry.name = entry.name) (hissuer : trimmed entry.issuer = entry.issuer)
    (hfilled : entry.name ≠ "") :
    ((readLabel (exportUrl entry)).name = entry.name ∧
      (readLabel (exportUrl entry)).issuer = entry.issuer) ↔ Apart entry := by
  have hshown : ¬entry.name.isEmpty = true := fun hempty => hfilled (isEmpty_iff.mp hempty)
  rw [readLabel_export hissuer, exportLabel]
  dsimp only
  by_cases hnone : entry.issuer = ""
  · rw [if_pos (isEmpty_iff.mpr hnone), if_pos (isEmpty_iff.mpr hnone)]
    by_cases hcolon : ':' ∈ entry.name.toList
    · -- the first colon of the name is gone
      obtain ⟨hfirst, hrest⟩ := count_labelParts hcolon
      refine iff_of_false (fun h => ?_) fun h => h.name hnone hcolon
      have hsame := congrArg (fun text : String => text.toList.count ':') h.1
      split at hsame
      · omega
      · omega
    · rw [labelParts_plain hcolon, hname, if_neg hshown]
      exact iff_of_true ⟨rfl, hnone.symm⟩ ⟨by simp [hnone], fun _ => hcolon⟩
  have hthere : ¬entry.issuer.isEmpty = true := fun hempty => hnone (isEmpty_iff.mp hempty)
  rw [if_neg hthere, if_neg hthere]
  by_cases hcolon : ':' ∈ entry.issuer.toList
  · -- the name begins within the issuer
    obtain ⟨hfirst, hrest⟩ := @count_labelParts (entry.issuer ++ ":" ++ entry.name) (by simp [hcolon])
    refine iff_of_false (fun h => ?_) fun h => h.issuer hcolon
    have hsome : 0 < entry.issuer.toList.count ':' := count_pos_iff.mpr hcolon
    have hlabel : (entry.issuer ++ ":" ++ entry.name).toList.count ':' =
        entry.issuer.toList.count ':' + (entry.name.toList.count ':' + 1) := by simp [count_append]
    have hsame := congrArg (fun text : String => text.toList.count ':') h.1
    split at hsame
    · next hempty =>
      rw [isEmpty_iff.mp hempty] at hrest
      simp at hrest
      omega
    · omega
  · rw [labelParts_pair hcolon, hname, if_neg hshown]
    exact iff_of_true ⟨rfl, rfl⟩ ⟨hcolon, fun h => absurd h hnone⟩

theorem parse_link (ht : t.Cases) (hvalid : validate entry = "") (hnormal : normalizeSecret entry.secret = entry.secret)
    (hcounter : 0 ≤ entry.counter.toInt) (hcarries : t.toUrl (trimmed (exportToLink t entry)) = some (exportUrl entry)) :
    parseFromLink t (exportToLink t entry) = .ok (linked entry) := by
  obtain ⟨hshown, key, husable⟩ := (validate_iff entry).mp hvalid
  rw [parseFromLink, hcarries]
  have hscheme : sameName (exportUrl entry).scheme "otpauth" = true := (by decide : sameName "otpauth" "otpauth" = true)
  dsimp only
  rw [if_pos hscheme]
  exact readUrl_export ht husable hshown hnormal hcounter

/-- **Links**: a valid entry comes back from its link exactly when no colon moves the cut of the label. -/
theorem link_survives_iff (t : LinkText) (ht : t.Cases) (entry : Entry) (hvalid : validate entry = "")
    (hnormal : normalizeSecret entry.secret = entry.secret) (hname : trimmed entry.name = entry.name)
    (hissuer : trimmed entry.issuer = entry.issuer) (hfilled : entry.name ≠ "") (hcounter : 0 ≤ entry.counter.toInt)
    (hcarries : t.toUrl (trimmed (exportToLink t entry)) = some (exportUrl entry)) :
    (∃ entry', parseFromLink t (exportToLink t entry) = .ok entry' ∧ Returned entry entry') ↔ Apart entry := by
  rw [parse_link ht hvalid hnormal hcounter hcarries, ← label_survives_iff hname hissuer hfilled]
  constructor
  · rintro ⟨entry', hread, hsame⟩
    obtain rfl := Except.ok.inj hread
    have hsameName := hsame.name
    have hsameIssuer := hsame.issuer
    simp only [linked] at hsameName hsameIssuer
    exact ⟨hsameName, hsameIssuer⟩
  · rintro ⟨hsameName, hsameIssuer⟩
    refine ⟨_, rfl, ?_⟩
    have hissuer' : (linked entry).issuer = entry.issuer := by
      simp only [linked]
      exact hsameIssuer
    have hname' : (linked entry).name = entry.name := by
      exact hsameName
    exact
      { name := hname'
        issuer := hissuer'
        secret := by simp only [linked]
        algorithm := by simp only [linked]
        type := by simp only [linked]
        digits := by simp only [linked]
        period := fun htype => by simp only [linked, if_pos htype]
        counter := fun htype => by simp only [linked, if_pos htype] }

end

/-! ## An issuer in the name -/

/-- The reading and the writing of one link. -/
def linkTextOf (url : Url) (text : String) : LinkText where
  ofUrl _ := text
  toUrl link := if link = text then some url else none
  toUpper s := ofList (s.toList.map Char.toUpper)
  toLower s := ofList (s.toList.map Char.toLower)

theorem linkTextOf_cases (url : Url) (text : String) : (linkTextOf url text).Cases where
  upper s hs := by
    have hkept : s.toList.map Char.toUpper = s.toList := by
      refine (map_congr_left fun c hc => ?_).trans (map_id _)
      have hcase := all_eq_true.mp hs c hc
      have hupper : c.isUpper = decide (c.val ≥ 'A'.val ∧ c.val ≤ 'Z'.val) := rfl
      simp only [hupper, Char.isDigit, Bool.or_eq_true, Bool.and_eq_true, decide_eq_true_eq] at hcase
      delta Char.toUpper
      rw [dif_neg (by grind)]
      rfl
    show ofList _ = s
    rw [hkept, ofList_toList]
  lower s hs := by
    have hkept : s.toList.map Char.toLower = s.toList := by
      refine (map_congr_left fun c hc => ?_).trans (map_id _)
      have hcase := all_eq_true.mp hs c hc
      have hlower : c.isLower = (decide (c.val ≥ 'a'.val) && decide (c.val ≤ 'z'.val)) := rfl
      delta Char.toLower
      rw [dif_neg (by grind)]
      rfl
    show ofList _ = s
    rw [hkept, ofList_toList]

def bob : Entry where
  name := "bob"
  issuer := "mail"
  secret := "GEZDGNBV"

def bobText : LinkText := linkTextOf (exportUrl bob) "otpauth://totp/mail:bob?secret=GEZDGNBV&issuer=mail&algorithm=SHA1&digits=6&period=30"

theorem bob_link_survives :
    ∃ entry', parseFromLink bobText (exportToLink bobText bob) = .ok entry' ∧ Returned bob entry' :=
  (link_survives_iff _ (linkTextOf_cases _ _) bob (by decide) (by decide) (by decide) (by decide) (by decide) (by decide)
    (by decide +kernel)).mpr ⟨by decide, by decide⟩

/-- The issuer written into the name. -/
def mailBob : Entry := { bob with name := "mail:bob", issuer := "" }

def mailBobText : LinkText := linkTextOf (exportUrl mailBob) "otpauth://totp/mail:bob?secret=GEZDGNBV&algorithm=SHA1&digits=6&period=30"

theorem mailBob_lost :
    (validate mailBob = "" ∧ normalizeSecret mailBob.secret = mailBob.secret ∧
      mailBobText.toUrl (trimmed (exportToLink mailBobText mailBob)) = some (exportUrl mailBob)) ∧
      parseFromLink mailBobText (exportToLink mailBobText mailBob) = .ok bob ∧ ¬Returned mailBob bob :=
  ⟨by decide +kernel, by decide +kernel, fun h => absurd h.name (by decide)⟩

end Waterdisco.OTP
