import Waterdisco.Global.Duration

/-!
# IP addresses and prefixes

`validationParseIp` goes through a text once, with the number of bytes read and the place of
`::` as its state.  It accepts the texts of the grammar (`IsV4`, `IsV6`) and no other.

    validationIpv4Fields text ↔ IsV4 text                          (ipv4Fields_iff)
    validationIpv6 text ↔ IsV6 text, for a text without a zone     (ipv6_iff)
    ip, cidr                                                       (ip_contract)
-/

namespace Waterdisco.Validation

open List Option Nat Scan

inductive ValidationIp where
  | invalid
  | v4
  | v6 (zoned : Bool)
deriving DecidableEq

inductive Family where
  | any
  | v4
  | v6
deriving DecidableEq

inductive Empty where
  | allowed
  | required

/-! ## Reading -/

/-- `validationIpv4Fields` from a character on: the value and the length of the field so far, the dots, and the
character before. -/
def ipv4Loop (val pos digLen : Nat) (prev : Option Char) : List Char → Bool
  | [] => pos == 3
  | c :: rest =>
    match decimalDigit c with
    | some d =>
      if digLen == 1 && val == 0 then false
      else if val * 10 + d > 255 then false
      else ipv4Loop (val * 10 + d) pos (digLen + 1) (some c) rest
    | none =>
      if c != '.' then false
      else if prev == none || rest.isEmpty || prev == some '.' then false
      else if pos == 3 then false
      else ipv4Loop 0 (pos + 1) 0 (some c) rest

def validationIpv4Fields (text : List Char) : Bool := ipv4Loop 0 0 0 none text

def hexDigit (c : Char) : Bool := (ipListParseHexDigit c).isSome

/-- The digits of a group and what follows them; `none` where there are too many. -/
def scanGroup (off acc : Nat) : List Char → Option (Nat × List Char)
  | [] => some (off, [])
  | c :: rest =>
    match ipListParseHexDigit c with
    | none => some (off, c :: rest)
    | some d => if off > 3 || acc * 16 + d > 0xFFFF then none else scanGroup (off + 1) (acc * 16 + d) rest

/-- The end of the text, with `i` bytes read. -/
def ipv6Finish (i : Nat) (ellipsis : Bool) (text : List Char) : Bool :=
  if !text.isEmpty then false
  else if i < 16 then ellipsis
  else !ellipsis

/-- The loop over the groups; a turn reads two bytes at least, so that `turns` are left of the sixteen. -/
def ipv6Loop : Nat → Nat → Bool → List Char → Bool
  | 0, i, ellipsis, text => ipv6Finish i ellipsis text
  | turns + 1, i, ellipsis, text =>
    match scanGroup 0 0 text with
    | none => false
    | some (off, rest) =>
      if off == 0 then false
      else
        match rest with
        | [] => ipv6Finish (i + 2) ellipsis []
        | '.' :: _ =>
          if !ellipsis && i != 12 then false
          else if i + 4 > 16 then false
          else if !validationIpv4Fields text then false
          else ipv6Finish (i + 4) ellipsis []
        | ':' :: [] => false
        | ':' :: ':' :: more =>
          if ellipsis then false
          else if more.isEmpty then ipv6Finish (i + 2) true []
          else ipv6Loop turns (i + 2) true more
        | ':' :: more => ipv6Loop turns (i + 2) ellipsis more
        | _ => false

/-- An address without a zone. -/
def ipv6Body : List Char → Bool
  | ':' :: ':' :: rest => if rest.isEmpty then true else ipv6Loop 8 0 true rest
  | text => ipv6Loop 8 0 false text

/-- `validationIpv6`: whether the text is accepted, and whether it has a zone. -/
def validationIpv6 (text : List Char) : Bool × Bool :=
  match cut '%' text with
  | none => (ipv6Body text, false)
  | some (body, zone) => if zone.isEmpty then (false, false) else (ipv6Body body, true)

def special (c : Char) : Bool := c == '.' || c == ':' || c == '%'

def validationParseIp (text : List Char) : ValidationIp :=
  match text.find? special with
  | some '.' => if validationIpv4Fields text then .v4 else .invalid
  | some ':' => if (validationIpv6 text).1 then .v6 (validationIpv6 text).2 else .invalid
  | _ => .invalid

def validationIpMessage : Family → String
  | .v4 => "Not a valid IPv4 address (four numbers from 0 to 255 separated by dots)."
  | .v6 => "Not a valid IPv6 address."
  | .any => "Not a valid IP address."

def validationCheckIp (ip : ValidationIp) (family : Family) : String :=
  if ip = .invalid then validationIpMessage family
  else if family = .v4 ∧ ip ≠ .v4 then validationIpMessage family
  else if family = .v6 ∧ ip = .v4 then validationIpMessage family
  else if ip = .v6 true then "An IPv6 zone (the part starting with %) is not allowed here."
  else ""

def validationEmpty : Empty → String
  | .required => "This field is required."
  | .allowed => ""

def ip (text : String) (family : Family) (empty : Empty) : String :=
  let t := trimmed text.toList
  if t.isEmpty then validationEmpty empty else validationCheckIp (validationParseIp t) family

def cutLast (c : Char) (text : List Char) : Option (List Char × List Char) :=
  (cut c text.reverse).map (fun p => (p.2.reverse, p.1.reverse))

def prefixMessage : String := "Use an address with a prefix length, for example 10.0.0.0/8 or fd00::/8."

def cidr (text : String) (family : Family) (allowBareIp : Bool) (empty : Empty) : String :=
  let t := trimmed text.toList
  if t.isEmpty then validationEmpty empty
  else
    match cutLast '/' t with
    | none => if allowBareIp then validationCheckIp (validationParseIp t) family else prefixMessage
    | some (address, bits) =>
      let ip := validationParseIp address
      let message := validationCheckIp ip family
      if !message.isEmpty then message
      else if bits.contains '.' then "Use a prefix length instead of a netmask, for example 10.0.0.0/8."
      else if bits.isEmpty || !bits.all (fun c => (decimalDigit c).isSome) then prefixMessage
      else if bits.length > 1 && bits.head? == some '0' then "Write the prefix length without leading zeros."
      else
        let maxBits := if ip = .v4 then 32 else 128
        if bits.length > 3 || digitsValue 0 bits > maxBits then
          "The prefix length must be from 0 to " ++ toString maxBits ++ "."
        else ""

/-! ## The grammar -/

/-- A decimal number without leading zeros. -/
structure IsDecimal (text : List Char) (most : Nat) : Prop where
  ne : text ≠ []
  digits : ∀ c ∈ text, (decimalDigit c).isSome = true
  noZero : text.head? = some '0' → text = ['0']
  le : digitsValue 0 text ≤ most

/-- Four numbers with dots between them. -/
def IsV4 (text : List Char) : Prop :=
  ∃ a b c d, IsDecimal a 255 ∧ IsDecimal b 255 ∧ IsDecimal c 255 ∧ IsDecimal d 255 ∧
    text = a ++ '.' :: (b ++ '.' :: (c ++ '.' :: d))

/-- One to four hexadecimal digits. -/
structure IsGroup (text : List Char) : Prop where
  ne : text ≠ []
  le : text.length ≤ 4
  digits : ∀ c ∈ text, hexDigit c = true

/-- That many groups with a colon between them. -/
inductive Groups : Nat → List Char → Prop where
  | one {g : List Char} (h : IsGroup g) : Groups 1 g
  | cons {g rest : List Char} {n : Nat} (h : IsGroup g) (hrest : Groups n rest) : Groups (n + 1) (g ++ ':' :: rest)

/-- The same with an IPv4 address for the last two, or without it. -/
inductive Parts : Nat → List Char → Prop where
  | one {g : List Char} (h : IsGroup g) : Parts 1 g
  | v4 {text : List Char} (h : IsV4 text) : Parts 2 text
  | cons {g rest : List Char} {n : Nat} (h : IsGroup g) (hrest : Parts n rest) : Parts (n + 1) (g ++ ':' :: rest)

/-- Eight groups, or fewer and one `::` for the others. -/
def IsV6 (text : List Char) : Prop :=
  Parts 8 text ∨
    ∃ l r m n, (Groups m l ∨ (l = [] ∧ m = 0)) ∧ (Parts n r ∨ (r = [] ∧ n = 0)) ∧ m + n ≤ 7 ∧ text = l ++ ':' :: ':' :: r

/-! ## IPv4 -/

theorem le_pow_digitsValue (v : Nat) (digits : List Char) : v * 10 ^ digits.length ≤ digitsValue v digits := by
  induction digits generalizing v with
  | nil => rw [length_nil, pow_zero, mul_one]; exact le_refl v
  | cons c rest ih =>
    have hstep : v * 10 ≤ v * 10 + (decimalDigit c).getD 0 := le_add_right _ _
    have hpow : v * 10 ^ (c :: rest).length = v * 10 * 10 ^ rest.length := by
      rw [length_cons, pow_succ', mul_assoc]
    rw [hpow]
    exact le_trans (mul_le_mul_right _ hstep) (ih _)

variable {c : Char} {text l r : List Char} {most d n : Nat} {prev : Option Char}

theorem decimalDigit_zero (h : decimalDigit c = some 0) : c = '0' := by
  unfold decimalDigit at h
  split at h
  · next hc =>
    have hsub := some.inj h
    have hz : '0'.toNat = 48 := rfl
    have hge : 48 ≤ c.toNat := hc.1
    have hnat : c.toNat = '0'.toNat := by omega
    exact Char.toNat_inj.mp hnat
  · cases h

theorem IsDecimal.length_le (h : IsDecimal text most) (hmost : most < 1000) : text.length ≤ 3 := by
  obtain ⟨c, rest, rfl⟩ := exists_cons_of_ne_nil h.ne
  obtain ⟨d, hd⟩ := isSome_iff_exists.mp (h.digits c (.head _))
  by_cases hzero : d = 0
  · subst hzero
    have hc := decimalDigit_zero hd
    rw [h.noZero (by rw [head?_cons, hc])]
    decide
  by_contra hlong
  have hle := h.le
  rw [digitsValue_cons hd, zero_mul, zero_add] at hle
  have hpow := le_pow_digitsValue d rest
  have hlength : 3 ≤ rest.length := by rw [length_cons] at hlong; omega
  have h1000 : 10 ^ 3 ≤ 10 ^ rest.length := Nat.pow_le_pow_right (by decide) hlength
  have hmul : 10 ^ rest.length ≤ d * 10 ^ rest.length := Nat.le_mul_of_pos_left _ (Nat.pos_of_ne_zero hzero)
  omega

/-- That many numbers with dots between them. -/
def Octets : Nat → List Char → Prop
  | 0, _ => False
  | 1, text => IsDecimal text 255
  | n + 2, text => ∃ a rest, IsDecimal a 255 ∧ text = a ++ '.' :: rest ∧ Octets (n + 1) rest

theorem octets_iff (text : List Char) : Octets 4 text ↔ IsV4 text := by
  constructor
  · rintro ⟨a, _, ha, rfl, b, _, hb, rfl, c, d, hc, rfl, hd⟩
    exact ⟨a, b, c, d, ha, hb, hc, hd, rfl⟩
  · rintro ⟨a, b, c, d, ha, hb, hc, hd, rfl⟩
    exact ⟨a, _, ha, rfl, b, _, hb, rfl, c, d, hc, rfl, hd⟩

theorem digitsValue_append_one (h : decimalDigit c = some d) (v : Nat) (digits : List Char) :
    digitsValue v (digits ++ [c]) = digitsValue v digits * 10 + d := by
  rw [digitsValue, foldl_append, foldl_cons, foldl_nil, h]
  rfl

theorem IsDecimal.of_append (h : IsDecimal (l ++ r) most) (hl : l ≠ []) : IsDecimal l most where
  ne := hl
  digits := fun c hc => h.digits c (mem_append_left r hc)
  noZero := by
    intro hhead
    obtain ⟨c, rest, rfl⟩ := exists_cons_of_ne_nil hl
    have hwhole := h.noZero hhead
    rw [cons_append, cons.injEq] at hwhole
    rw [hwhole.1, (append_eq_nil_iff.mp hwhole.2).1]
  le := by
    have hfold : digitsValue 0 (l ++ r) = digitsValue (digitsValue 0 l) r := by
      rw [digitsValue, foldl_append]
      rfl
    exact le_trans (le_digitsValue _ r) (hfold ▸ h.le)

theorem isDecimal_append_one {done : List Char} (h : IsDecimal done 255) (hc : decimalDigit c = some d) :
    IsDecimal (done ++ [c]) 255 ↔ ¬ (done.length = 1 ∧ digitsValue 0 done = 0) ∧ digitsValue 0 done * 10 + d ≤ 255 := by
  constructor
  · intro hmore
    refine ⟨fun ⟨hlength, hvalue⟩ => ?_, digitsValue_append_one hc 0 done ▸ hmore.le⟩
    obtain ⟨a, rfl⟩ := length_eq_one_iff.mp hlength
    obtain ⟨e, he⟩ := isSome_iff_exists.mp (h.digits a (.head _))
    rw [digitsValue_cons he, zero_mul, zero_add] at hvalue
    obtain rfl : e = 0 := hvalue
    have hwhole := hmore.noZero (by rw [decimalDigit_zero he]; rfl)
    exact absurd (congrArg length hwhole) (by simp)
  · rintro ⟨hone, hle⟩
    refine ⟨by simp, fun x hx => ?_, fun hhead => ?_, (digitsValue_append_one hc 0 done).symm ▸ hle⟩
    · obtain hx | hx := mem_append.mp hx
      · exact h.digits x hx
      · rw [mem_singleton.mp hx, hc]
        rfl
    · obtain ⟨a, rest, rfl⟩ := exists_cons_of_ne_nil h.ne
      have hzero := h.noZero hhead
      rw [hzero] at hone
      exact absurd ⟨rfl, by decide⟩ hone

theorem dot_not_digit : decimalDigit '.' = none := by decide

/-- The text goes on with the rest of a field, and with the fields behind it. -/
def FieldGoes (done : List Char) (pos : Nat) (text : List Char) : Prop :=
  ∃ more rest, text = more ++ rest ∧ IsDecimal (done ++ more) 255 ∧
    (rest = [] ∧ pos = 3 ∨ ∃ r, rest = '.' :: r ∧ r ≠ [] ∧ pos ≠ 3 ∧ ipv4Loop 0 (pos + 1) 0 (some '.') r = true)

theorem ipv4Loop_field {done : List Char} (hdone : IsDecimal done 255) (hprev : prev ≠ none ∧ prev ≠ some '.')
    (pos : Nat) (text : List Char) :
    ipv4Loop (digitsValue 0 done) pos done.length prev text = true ↔ FieldGoes done pos text := by
  induction text generalizing done prev with
  | nil =>
    rw [ipv4Loop, beq_iff_eq]
    constructor
    · intro hpos
      exact ⟨[], [], rfl, (append_nil done).symm ▸ hdone, .inl ⟨rfl, hpos⟩⟩
    rintro ⟨more, rest, heq, -, ⟨-, hpos⟩ | ⟨r, hr, -⟩⟩
    · exact hpos
    · rw [hr] at heq
      exact absurd (congrArg length heq) (by simp)
  | cons c text ih =>
    cases hc : decimalDigit c with
    | some d =>
      have hmore : FieldGoes done pos (c :: text) ↔ FieldGoes (done ++ [c]) pos text := by
        constructor
        · rintro ⟨more, rest, heq, hdec, hrest⟩
          cases more with
          | nil =>
            rw [nil_append] at heq
            subst heq
            obtain ⟨hnil, -⟩ | ⟨r, hr, -⟩ := hrest
            · cases hnil
            · obtain ⟨rfl, -⟩ := cons.inj hr
              exact absurd hc (by rw [dot_not_digit]; simp)
          | cons a more =>
            obtain ⟨rfl, rfl⟩ := cons.inj heq
            exact ⟨more, rest, rfl, by rwa [append_assoc, singleton_append], hrest⟩
        · rintro ⟨more, rest, rfl, hdec, hrest⟩
          exact ⟨c :: more, rest, rfl, by rwa [append_assoc, singleton_append] at hdec, hrest⟩
      rw [hmore, ipv4Loop, hc]
      dsimp only
      by_cases hnext : IsDecimal (done ++ [c]) 255
      · obtain ⟨hone, hle⟩ := (isDecimal_append_one hdone hc).mp hnext
        have hfirst : (done.length == 1 && digitsValue 0 done == 0) = false := by
          rw [Bool.and_eq_false_iff, beq_eq_false_iff_ne, beq_eq_false_iff_ne]
          exact not_and_or.mp hone
        have hnot : ¬ some c = some '.' := by
          intro heq
          rw [some.inj heq, dot_not_digit] at hc
          cases hc
        rw [hfirst, if_neg Bool.false_ne_true, if_neg (by omega), ← ih hnext ⟨some_ne_none c, hnot⟩,
          digitsValue_append_one hc, length_append, length_singleton]
      constructor
      · intro hloop
        split at hloop
        · cases hloop
        next hone =>
        split at hloop
        · cases hloop
        next hle =>
        refine absurd ((isDecimal_append_one hdone hc).mpr ⟨fun hboth => hone ?_, by omega⟩) hnext
        rw [hboth.1, hboth.2]
        rfl
      · rintro ⟨more, rest, -, hdec, -⟩
        exact absurd (hdec.of_append (by simp)) hnext
    | none =>
      have hfirst : ∀ {more rest : List Char}, c :: text = more ++ rest → IsDecimal (done ++ more) 255 → more = [] := by
        intro more rest heq hdec
        cases more with
        | nil => rfl
        | cons a more =>
          obtain ⟨rfl, -⟩ := cons.inj heq
          exact absurd (hdec.digits c (by simp)) (by rw [hc]; decide)
      rw [ipv4Loop, hc]
      dsimp only
      constructor
      · intro hloop
        split at hloop
        · cases hloop
        next hdot =>
        obtain rfl : c = '.' := by simpa using hdot
        split at hloop
        · cases hloop
        next hend =>
        split at hloop
        · cases hloop
        next hpos =>
        have hne : text ≠ [] := by
          rintro rfl
          exact hend (by simp)
        exact ⟨[], '.' :: text, rfl, (append_nil done).symm ▸ hdone,
          .inr ⟨text, rfl, hne, by simpa using hpos, hloop⟩⟩
      · rintro ⟨more, rest, heq, hdec, hrest⟩
        obtain rfl := hfirst heq hdec
        rw [nil_append] at heq
        subst heq
        obtain ⟨hnil, -⟩ | ⟨r, hr, hne, hpos, hloop⟩ := hrest
        · cases hnil
        obtain ⟨rfl, rfl⟩ := cons.inj hr
        have hnone : (prev == none) = false := beq_eq_false_iff_ne.mpr hprev.1
        have hdot : (prev == some '.') = false := beq_eq_false_iff_ne.mpr hprev.2
        have hempty : text.isEmpty = false := by simpa using hne
        rw [hnone, hdot, hempty]
        simpa [hpos] using hloop

theorem Octets.head (h : Octets (n + 1) text) : ∃ c rest, text = c :: rest ∧ (decimalDigit c).isSome = true := by
  have hdecimal : ∀ {a : List Char} (r : List Char), IsDecimal a 255 → ∃ c rest,
    a ++ r = c :: rest ∧ (decimalDigit c).isSome = true := by
    intro a r ha
    obtain ⟨c, rest, rfl⟩ := exists_cons_of_ne_nil ha.ne
    exact ⟨c, rest ++ r, rfl, ha.digits c mem_cons_self⟩
  cases n with
  | zero =>
    have hhead := hdecimal [] (show IsDecimal text 255 from h)
    rwa [append_nil] at hhead
  | succ n =>
    obtain ⟨a, rest, ha, rfl, -⟩ := h
    exact hdecimal _ ha

theorem isDecimal_one (hc : decimalDigit c = some d) : IsDecimal [c] 255 where
  ne := by simp
  digits := by
    intro x hx
    rw [mem_singleton.mp hx, hc]
    rfl
  noZero := fun h => by rw [some.inj h]
  le := by
    have hle := decimalDigit_le hc
    rw [digitsValue_cons hc]
    show 0 * 10 + d ≤ 255
    omega

theorem ipv4Loop_first (hc : decimalDigit c = some d) (pos : Nat) (prev : Option Char) (text : List Char) :
    ipv4Loop 0 pos 0 prev (c :: text) = true ↔ FieldGoes [c] pos text := by
  have hle := decimalDigit_le hc
  have hdot : some c ≠ some '.' := by
    intro heq
    rw [some.inj heq, dot_not_digit] at hc
    cases hc
  have hvalue : digitsValue 0 [c] = 0 * 10 + d := digitsValue_cons hc 0 []
  have hfield := ipv4Loop_field (isDecimal_one hc) ⟨some_ne_none c, hdot⟩ pos text
  rw [hvalue] at hfield
  rw [ipv4Loop, hc]
  dsimp only
  rw [if_neg (by simp), if_neg (by omega)]
  exact hfield

theorem ipv4Loop_head {pos : Nat} (hprev : prev = none ∨ prev = some '.')
    (h : ipv4Loop 0 pos 0 prev (c :: text) = true) : (decimalDigit c).isSome = true := by
  cases hc : decimalDigit c with
  | some d => rfl
  | none =>
    rw [ipv4Loop, hc] at h
    dsimp only at h
    by_cases hdot : c = '.'
    · obtain rfl | rfl := hprev <;> simp [hdot] at h
    · rw [if_pos (by simpa using hdot)] at h
      cases h

/-- The fields from the start of one of them on. -/
theorem ipv4Loop_octets {pos : Nat} (hpos : n + pos = 3) (hprev : prev = none ∨ prev = some '.')
    (htext : text ≠ []) : ipv4Loop 0 pos 0 prev text = true ↔ Octets (n + 1) text := by
  induction n generalizing pos prev text with
  | zero =>
    obtain ⟨c, rest, rfl⟩ := exists_cons_of_ne_nil htext
    constructor
    · intro hloop
      obtain ⟨d, hd⟩ := isSome_iff_exists.mp (ipv4Loop_head hprev hloop)
      obtain ⟨more, tail, rfl, hdec, ⟨rfl, -⟩ | ⟨r, -, -, hne, -⟩⟩ := (ipv4Loop_first hd pos prev rest).mp hloop
      · rw [append_nil]
        exact hdec
      · exact absurd hpos (by omega)
    · intro h
      have hdec : IsDecimal (c :: rest) 255 := h
      obtain ⟨d, hd⟩ := isSome_iff_exists.mp (hdec.digits c (.head _))
      exact (ipv4Loop_first hd pos prev rest).mpr ⟨rest, [], (append_nil rest).symm, hdec, .inl ⟨rfl, by omega⟩⟩
  | succ n ih =>
    have hfrom : ∀ r, r ≠ [] → (ipv4Loop 0 (pos + 1) 0 (some '.') r = true ↔ Octets (n + 1) r) :=
      fun r hr => ih (by omega) (.inr rfl) hr
    obtain ⟨c, rest, rfl⟩ := exists_cons_of_ne_nil htext
    constructor
    · intro hloop
      obtain ⟨d, hd⟩ := isSome_iff_exists.mp (ipv4Loop_head hprev hloop)
      obtain ⟨more, tail, rfl, hdec, ⟨-, hend⟩ | ⟨r, rfl, hr, -, hnext⟩⟩ := (ipv4Loop_first hd pos prev rest).mp hloop
      · exact absurd hpos (by omega)
      · exact ⟨c :: more, r, hdec, rfl, (hfrom r hr).mp hnext⟩
    · rintro ⟨a, r, ha, heq, hr⟩
      obtain ⟨b, more, rfl⟩ := exists_cons_of_ne_nil ha.ne
      obtain ⟨rfl, rfl⟩ := cons.inj heq
      obtain ⟨d, hd⟩ := isSome_iff_exists.mp (ha.digits c (.head _))
      obtain ⟨x, tail, hcons, -⟩ := hr.head
      have hne : r ≠ [] := by
        rw [hcons]
        exact cons_ne_nil x tail
      exact (ipv4Loop_first hd pos prev _).mpr ⟨more, '.' :: r, rfl, ha,
        .inr ⟨r, rfl, hne, by omega, (hfrom r hne).mpr hr⟩⟩

theorem ipv4Fields_iff (text : List Char) : validationIpv4Fields text = true ↔ IsV4 text := by
  rw [← octets_iff]
  cases text with
  | nil =>
    constructor
    · intro h
      cases h
    · intro h
      obtain ⟨c, rest, heq, -⟩ := h.head
      cases heq
  | cons c rest => exact ipv4Loop_octets rfl (.inl rfl) (cons_ne_nil c rest)

/-! ## IPv6 -/

theorem hexDigit_of_decimal (h : (decimalDigit c).isSome = true) : hexDigit c = true := by
  unfold decimalDigit at h
  split at h
  · next hc => rw [hexDigit, ipListParseHexDigit, if_pos hc]; rfl
  · cases h

def digitsOf (text : List Char) : List Char := text.takeWhile hexDigit

def afterDigits (text : List Char) : List Char := text.dropWhile hexDigit

theorem digitsOf_append_after (text : List Char) : digitsOf text ++ afterDigits text = text := takeWhile_append_dropWhile

theorem digits_append (rest : List Char) (hl : ∀ c ∈ l, hexDigit c = true)
    (hrest : ∀ c, rest.head? = some c → hexDigit c = false) :
    digitsOf (l ++ rest) = l ∧ afterDigits (l ++ rest) = rest := by
  have hnil : rest.takeWhile hexDigit = [] ∧ rest.dropWhile hexDigit = rest := by
    cases rest with
    | nil => exact ⟨rfl, rfl⟩
    | cons c tail =>
      have hc := hrest c rfl
      exact ⟨by simp [hc], by simp [hc]⟩
  rw [digitsOf, afterDigits, takeWhile_append_of_pos hl, dropWhile_append_of_pos hl, hnil.1, hnil.2, append_nil]
  exact ⟨rfl, rfl⟩

theorem scanGroup_from {off acc : Nat} (hacc : acc < 16 ^ off) (hoff : off ≤ 4) (text : List Char) :
    scanGroup off acc text = if off + (digitsOf text).length ≤
      4 then some (off + (digitsOf text).length, afterDigits text) else none := by
  induction text generalizing off acc with
  | nil => simp [scanGroup, digitsOf, afterDigits, hoff]
  | cons c rest ih =>
    cases hc : ipListParseHexDigit c with
    | none =>
      have hnot : hexDigit c = false := by rw [hexDigit, hc]; rfl
      simp [scanGroup, digitsOf, afterDigits, hc, hnot, hoff]
    | some d =>
      have hhex : hexDigit c = true := by rw [hexDigit, hc]; rfl
      have hlength : (digitsOf (c :: rest)).length = (digitsOf rest).length + 1 := by simp [digitsOf, hhex]
      have hafter : afterDigits (c :: rest) = afterDigits rest := by simp [afterDigits, hhex]
      have hd := hexDigit_lt hc
      rw [scanGroup, hc, hlength, hafter]
      dsimp only
      by_cases hfull : off > 3
      · rw [if_pos (by simp [hfull]), if_neg (by omega)]
      have hnext : acc * 16 + d < 16 ^ (off + 1) := by
        rw [pow_succ]
        omega
      have hbound : 16 ^ (off + 1) ≤ 16 ^ 4 := Nat.pow_le_pow_right (by decide) (by omega)
      have hsmall : ¬ acc * 16 + d > 0xFFFF := by omega
      rw [if_neg (by simp [hfull, hsmall]), ih hnext (by omega), add_assoc, add_comm 1]

theorem scanGroup_start (text : List Char) :
    scanGroup 0 0 text = if (digitsOf text).length ≤
      4 then some ((digitsOf text).length, afterDigits text) else none := by
  rw [scanGroup_from (by decide) (by decide), zero_add]

theorem colon_not_digit : hexDigit ':' = false := by decide

theorem digits_group {g : List Char} (h : IsGroup g) : digitsOf g = g ∧ afterDigits g = [] := by
  have hsplit := digits_append [] h.digits (by simp)
  rwa [append_nil] at hsplit

theorem digits_colon {g : List Char} (h : IsGroup g) (rest : List Char) :
    digitsOf (g ++ ':' :: rest) = g ∧ afterDigits (g ++ ':' :: rest) = ':' :: rest :=
  digits_append (':' :: rest) h.digits (fun _ hc => by rw [← some.inj hc, colon_not_digit])

theorem digits_v4 (h : IsV4 text) :
    digitsOf text ≠ [] ∧ (digitsOf text).length ≤ 3 ∧ ∃ rest, afterDigits text = '.' :: rest := by
  obtain ⟨a, b, c, d, ha, -, -, -, rfl⟩ := h
  obtain ⟨hdigits, hafter⟩ := digits_append ('.' :: (b ++ '.' :: (c ++ '.' :: d)))
    (fun x hx => hexDigit_of_decimal (ha.digits x hx)) (fun x hx => by rw [← some.inj hx]; decide)
  rw [hdigits, hafter]
  exact ⟨ha.ne, ha.length_le (by decide), _, rfl⟩

theorem isGroup_digitsOf (hne : digitsOf text ≠ []) (hle : (digitsOf text).length ≤ 4) : IsGroup (digitsOf text) where
  ne := hne
  le := hle
  digits := fun _ hc => mem_takeWhile_imp hc

/-- The first group decides how the rest is read. -/
theorem parts_iff (n : Nat) (text : List Char) :
    Parts n text ↔
      (afterDigits text = [] ∧ n = 1 ∧ IsGroup (digitsOf text)) ∨ (n = 2 ∧ IsV4 text) ∨
        ∃ r m, afterDigits text = ':' :: r ∧ n = m + 1 ∧ IsGroup (digitsOf text) ∧ Parts m r := by
  constructor
  · intro h
    cases h with
    | one hg => exact .inl ⟨(digits_group hg).2, rfl, (digits_group hg).1.symm ▸ hg⟩
    | v4 h4 => exact .inr (.inl ⟨rfl, h4⟩)
    | cons hg hrest =>
      refine .inr (.inr ⟨_, _, (digits_colon hg _).2, rfl, ?_, hrest⟩)
      rw [(digits_colon hg _).1]
      exact hg
  · have hsplit := digitsOf_append_after text
    rintro (⟨hafter, rfl, hg⟩ | ⟨rfl, h4⟩ | ⟨r, m, hafter, rfl, hg, hrest⟩)
    · rw [hafter, append_nil] at hsplit
      exact hsplit ▸ .one hg
    · exact .v4 h4
    · rw [hafter] at hsplit
      exact hsplit ▸ .cons hg hrest

theorem Parts.ne (h : Parts n text) : digitsOf text ≠ [] ∧ (digitsOf text).length ≤ 4 := by
  obtain ⟨-, -, hg⟩ | ⟨-, h4⟩ | ⟨-, -, -, -, hg, -⟩ := (parts_iff n text).mp h
  · exact ⟨hg.ne, hg.le⟩
  · exact ⟨(digits_v4 h4).1, le_trans (digits_v4 h4).2.1 (by decide)⟩
  · exact ⟨hg.ne, hg.le⟩

theorem head_of_digits (h : digitsOf text ≠ []) : text ≠ [] ∧ text.head? ≠ some ':' := by
  cases text with
  | nil => exact absurd rfl h
  | cons c rest =>
    refine ⟨cons_ne_nil c rest, fun heq => h ?_⟩
    rw [head?_cons, some.injEq] at heq
    simp [digitsOf, heq, colon_not_digit]

theorem Parts.head (h : Parts n text) : text ≠ [] ∧ text.head? ≠ some ':' :=
  head_of_digits h.ne.1

theorem Parts.pos (h : Parts n text) : 0 < n := by
  cases h <;> omega

/-- Groups, `::` and what may follow it, with fewer than `most` groups in all. -/
def Gap (most : Nat) (text : List Char) : Prop :=
  ∃ l r m n, Groups m l ∧ (Parts n r ∨ r = [] ∧ n = 0) ∧ m + n < most ∧ text = l ++ ':' :: ':' :: r

theorem gap_iff (most : Nat) (text : List Char) :
    Gap most text ↔ IsGroup (digitsOf text) ∧
      ((∃ r n, afterDigits text = ':' :: ':' :: r ∧ (Parts n r ∨ r = [] ∧ n = 0) ∧ 1 + n < most) ∨
        ∃ r m, afterDigits text = ':' :: r ∧ most = m + 1 ∧ Gap m r) := by
  constructor
  · rintro ⟨l, r, m, n, hl, hr, hmost, rfl⟩
    cases hl with
    | one hg =>
      obtain ⟨hdigits, hafter⟩ := digits_colon hg (':' :: r)
      rw [hdigits, hafter]
      exact ⟨hg, .inl ⟨r, n, rfl, hr, hmost⟩⟩
    | @cons g rest k hg hrest =>
      rw [append_assoc, cons_append]
      obtain ⟨hdigits, hafter⟩ := digits_colon hg (rest ++ ':' :: ':' :: r)
      rw [hdigits, hafter]
      exact ⟨hg, .inr ⟨_, most - 1, rfl, by omega, rest, r, k, n, hrest, hr, by omega, rfl⟩⟩
  · have hsplit := digitsOf_append_after text
    rintro ⟨hg, ⟨r, n, hafter, hr, hmost⟩ | ⟨r, m, hafter, rfl, l, tail, k, n, hl, htail, hmost, rfl⟩⟩
    · rw [hafter] at hsplit
      exact ⟨_, r, 1, n, .one hg, hr, hmost, hsplit.symm⟩
    · rw [hafter] at hsplit
      refine ⟨_, tail, k + 1, n, .cons hg hl, htail, by omega, hsplit.symm.trans ?_⟩
      rw [append_assoc, cons_append]

theorem Gap.head (h : Gap most text) : text ≠ [] ∧ text.head? ≠ some ':' :=
  head_of_digits ((gap_iff most text).mp h).1.ne

theorem ipv6Loop_turn (left i : Nat) (ellipsis : Bool) (text : List Char) :
    ipv6Loop (left + 1) i ellipsis text = true ↔ IsGroup (digitsOf text) ∧
      (afterDigits text = [] ∧ ipv6Finish (i + 2) ellipsis [] = true ∨
        (∃ r, afterDigits text = '.' :: r ∧ (ellipsis = true ∨ i = 12) ∧ i + 4 ≤ 16 ∧ IsV4 text ∧
          ipv6Finish (i + 4) ellipsis [] = true) ∨
        (∃ r, afterDigits text = ':' :: ':' :: r ∧ ellipsis = false ∧
          (r = [] ∧ ipv6Finish (i + 2) true [] = true ∨ r ≠ [] ∧ ipv6Loop left (i + 2) true r = true)) ∨
        ∃ r, afterDigits text = ':' :: r ∧ r ≠ [] ∧ r.head? ≠ some ':' ∧ ipv6Loop left (i + 2) ellipsis r = true) := by
  by_cases hg : IsGroup (digitsOf text)
  · have hzero : ((digitsOf text).length == 0) = false := by simpa using hg.ne
    rw [ipv6Loop, scanGroup_start, if_pos hg.le]
    dsimp only
    rw [hzero, if_neg Bool.false_ne_true]
    simp only [hg, true_and, ← ipv4Fields_iff]
    split
    · next hafter => simp [hafter]
    · next r hafter =>
      simp only [hafter]
      cases ellipsis <;> grind
    · next hafter =>
      simp only [hafter]
      grind
    · next r hafter =>
      simp only [hafter]
      cases ellipsis <;> cases r <;> simp
    · next r hr hr' hafter =>
      obtain ⟨c, tail, rfl⟩ := exists_cons_of_ne_nil hr
      have hcolon : c ≠ ':' := fun heq => hr' tail (by rw [heq])
      simp [hafter, hcolon]
    · next hnil hdot hcolon => grind
  · have hempty : (digitsOf text).length ≤ 4 → digitsOf text = [] := by
      intro hle
      by_contra hne
      exact hg (isGroup_digitsOf hne hle)
    rw [ipv6Loop, scanGroup_start]
    by_cases hle : (digitsOf text).length ≤ 4
    · rw [hempty hle] at hg ⊢
      simp [hg]
    · simp [hle, hg]

theorem ipv6Finish_true (i : Nat) : ipv6Finish i true [] = true ↔ i < 16 := by
  unfold ipv6Finish
  by_cases hi : i < 16 <;> simp [hi]

theorem ipv6Finish_false (i : Nat) : ipv6Finish i false [] = true ↔ 16 ≤ i := by
  unfold ipv6Finish
  by_cases hi : i < 16
  · simp [hi]
  · simp [hi]
    omega

/-- After `::`: fewer groups than are left. -/
theorem ipv6Loop_true {left i : Nat} (hi : i + 2 * left = 16) (text : List Char) :
    ipv6Loop left i true text = true ↔ ∃ n, n < left ∧ Parts n text := by
  induction left generalizing i text with
  | zero =>
    have hfinish : ipv6Loop 0 i true text = false := by
      rw [ipv6Loop, ipv6Finish, if_neg (by omega : ¬ i < 16)]
      split <;> rfl
    constructor
    · intro h
      rw [hfinish] at h
      cases h
    · rintro ⟨n, hn, -⟩
      exact absurd hn (not_lt_zero n)
  | succ left ih =>
    rw [ipv6Loop_turn]
    constructor
    · rintro ⟨hg, ⟨hafter, hend⟩ | ⟨r, hafter, -, hroom, h4, hend⟩ | ⟨r, -, hfalse, -⟩ | ⟨r, hafter, hne, -, hloop⟩⟩
      · have hlt := (ipv6Finish_true _).mp hend
        exact ⟨1, by omega, (parts_iff 1 text).mpr (.inl ⟨hafter, rfl, hg⟩)⟩
      · have hlt := (ipv6Finish_true _).mp hend
        exact ⟨2, by omega, .v4 h4⟩
      · cases hfalse
      · obtain ⟨n, hn, hparts⟩ := (ih (by omega) r).mp hloop
        exact ⟨n + 1, by omega, (parts_iff _ text).mpr (.inr (.inr ⟨r, n, hafter, rfl, hg, hparts⟩))⟩
    · rintro ⟨n, hn, hparts⟩
      have hgroup := isGroup_digitsOf hparts.ne.1 hparts.ne.2
      refine ⟨hgroup, ?_⟩
      obtain ⟨hafter, rfl, -⟩ | ⟨rfl, h4⟩ | ⟨r, m, hafter, rfl, -, hrest⟩ := (parts_iff n text).mp hparts
      · exact .inl ⟨hafter, (ipv6Finish_true _).mpr (by omega)⟩
      · obtain ⟨-, -, r, hafter⟩ := digits_v4 h4
        exact .inr (.inl ⟨r, hafter, .inl rfl, by omega, h4, (ipv6Finish_true _).mpr (by omega)⟩)
      · have hne : r ≠ [] ∧ r.head? ≠ some ':' := hrest.head
        exact .inr (.inr (.inr ⟨r, hafter, hne.1, hne.2, (ih (by omega) r).mpr ⟨m, by omega, hrest⟩⟩))

/-- Before `::`: all the groups that are left, or fewer with `::` among them. -/
theorem ipv6Loop_false {left i : Nat} (hi : i + 2 * left = 16) (htext : text ≠ []) :
    ipv6Loop left i false text = true ↔ Parts left text ∨ Gap left text := by
  induction left generalizing i text with
  | zero =>
    have hfinish : ipv6Loop 0 i false text = false := by
      rw [ipv6Loop, ipv6Finish, if_pos (by simpa using htext)]
    constructor
    · intro h
      rw [hfinish] at h
      cases h
    · rintro (h | ⟨l, r, m, n, -, -, hlt, -⟩)
      · exact absurd h.pos (lt_irrefl 0)
      · exact absurd hlt (not_lt_zero _)
  | succ left ih =>
    rw [ipv6Loop_turn]
    constructor
    · rintro ⟨hg, ⟨hafter, hend⟩ | ⟨r, hafter, htwelve, hroom, h4, hend⟩ | ⟨r, hafter, -,
        hrest⟩ | ⟨r, hafter, hne, -, hloop⟩⟩
      · have hge := (ipv6Finish_false _).mp hend
        obtain rfl : left = 0 := by omega
        exact .inl ((parts_iff _ text).mpr (.inl ⟨hafter, rfl, hg⟩))
      · obtain hfalse | htwelve := htwelve
        · cases hfalse
        · obtain rfl : left = 1 := by omega
          exact .inl (.v4 h4)
      · refine .inr ((gap_iff _ text).mpr ⟨hg, .inl ?_⟩)
        obtain ⟨rfl, hend⟩ | ⟨hne, hloop⟩ := hrest
        · have hlt := (ipv6Finish_true _).mp hend
          exact ⟨[], 0, hafter, .inr ⟨rfl, rfl⟩, by omega⟩
        · obtain ⟨n, hn, hparts⟩ := (ipv6Loop_true (by omega) r).mp hloop
          exact ⟨r, n, hafter, .inl hparts, by omega⟩
      · obtain hparts | hgap := (ih (by omega) hne).mp hloop
        · exact .inl ((parts_iff _ text).mpr (.inr (.inr ⟨r, left, hafter, rfl, hg, hparts⟩)))
        · exact .inr ((gap_iff _ text).mpr ⟨hg, .inr ⟨r, left, hafter, rfl, hgap⟩⟩)
    · rintro (hparts | hgap)
      · refine ⟨isGroup_digitsOf hparts.ne.1 hparts.ne.2, ?_⟩
        obtain ⟨hafter, hone, -⟩ | ⟨htwo, h4⟩ | ⟨r, m, hafter, hm, -, hrest⟩ := (parts_iff _ text).mp hparts
        · exact .inl ⟨hafter, (ipv6Finish_false _).mpr (by omega)⟩
        · obtain ⟨-, -, r, hafter⟩ := digits_v4 h4
          exact .inr (.inl ⟨r, hafter, .inr (by omega), by omega, h4, (ipv6Finish_false _).mpr (by omega)⟩)
        obtain rfl : left = m := by omega
        have hne := hrest.head
        exact .inr (.inr (.inr ⟨r, hafter, hne.1, hne.2, (ih (by omega) hne.1).mpr (.inl hrest)⟩))
      · obtain ⟨hg, ⟨r, n, hafter, hr, hmost⟩ | ⟨r, m, hafter, hm, hrest⟩⟩ := (gap_iff _ text).mp hgap
        · refine ⟨hg, .inr (.inr (.inl ⟨r, hafter, rfl, ?_⟩))⟩
          obtain hparts | ⟨rfl, rfl⟩ := hr
          · exact .inr ⟨hparts.head.1, (ipv6Loop_true (by omega) r).mpr ⟨n, by omega, hparts⟩⟩
          · exact .inl ⟨rfl, (ipv6Finish_true _).mpr (by omega)⟩
        · obtain rfl : left = m := by omega
          have hne := hrest.head
          exact ⟨hg, .inr (.inr (.inr ⟨r, hafter, hne.1, hne.2, (ih (by omega) hne.1).mpr (.inr hrest)⟩))⟩

theorem isV6_iff_gap (hhead : ∀ r, text ≠ ':' :: ':' :: r) : IsV6 text ↔ Parts 8 text ∨ Gap 8 text := by
  constructor
  · rintro (h | ⟨l, r, m, n, hl | ⟨rfl, rfl⟩, hr, hle, rfl⟩)
    · exact .inl h
    · exact .inr ⟨l, r, m, n, hl, hr, by omega, rfl⟩
    · exact absurd rfl (hhead r)
  · rintro (h | ⟨l, r, m, n, hl, hr, hlt, rfl⟩)
    · exact .inl h
    · exact .inr ⟨l, r, m, n, .inl hl, hr, by omega, rfl⟩

theorem isV6_of_gap_first (r : List Char) : IsV6 (':' :: ':' :: r) ↔ r = [] ∨ ∃ n, n < 8 ∧ Parts n r := by
  constructor
  · rintro (h | ⟨l, tail, m, n, hl | ⟨rfl, rfl⟩, hr, hle, heq⟩)
    · exact absurd rfl h.head.2
    · have hgap : Gap 8 (':' :: ':' :: r) := ⟨l, tail, m, n, hl, hr, by omega, heq⟩
      exact absurd rfl hgap.head.2
    · simp only [nil_append, cons.injEq, true_and] at heq
      subst heq
      obtain hparts | ⟨rfl, -⟩ := hr
      · exact .inr ⟨n, by omega, hparts⟩
      · exact .inl rfl
  · rintro (rfl | ⟨n, hn, hparts⟩)
    · exact .inr ⟨[], [], 0, 0, .inr ⟨rfl, rfl⟩, .inr ⟨rfl, rfl⟩, by decide, rfl⟩
    · exact .inr ⟨[], r, 0, n, .inr ⟨rfl, rfl⟩, .inl hparts, by omega, rfl⟩

theorem ipv6Body_iff (text : List Char) : ipv6Body text = true ↔ IsV6 text := by
  unfold ipv6Body
  split
  · next r =>
    rw [isV6_of_gap_first]
    by_cases hr : r = []
    · simp [hr]
    · rw [if_neg (by simpa using hr), ipv6Loop_true (by omega)]
      simp [hr]
  next hhead =>
  by_cases htext : text = []
  · subst htext
    constructor
    · intro h
      cases h
    intro h
    obtain h | h := (isV6_iff_gap hhead).mp h
    · exact absurd rfl h.head.1
    · exact absurd rfl h.head.1
  · rw [ipv6Loop_false (by omega) htext, isV6_iff_gap hhead]

/-! ## Characters -/

/-- What an address without a zone consists of. -/
def ipChar (c : Char) : Prop := hexDigit c = true ∨ c = '.' ∨ c = ':'

theorem IsDecimal.chars (h : IsDecimal text most) : ∀ c ∈ text, ipChar c :=
  fun c hc => .inl (hexDigit_of_decimal (h.digits c hc))

theorem ipChars_append (hl : ∀ x ∈ l, ipChar x) (hc : ipChar c) (hr : ∀ x ∈ r, ipChar x) :
    ∀ x ∈ l ++ c :: r, ipChar x := by
  intro x hx
  obtain hx | hx := mem_append.mp hx
  · exact hl x hx
  obtain rfl | hx := mem_cons.mp hx
  · exact hc
  · exact hr x hx

theorem IsV4.chars (h : IsV4 text) : ∀ c ∈ text, ipChar c := by
  obtain ⟨a, b, c, d, ha, hb, hc, hd, rfl⟩ := h
  have hdot : ipChar '.' := .inr (.inl rfl)
  exact ipChars_append ha.chars hdot (ipChars_append hb.chars hdot (ipChars_append hc.chars hdot hd.chars))

theorem IsGroup.chars (h : IsGroup text) : ∀ c ∈ text, ipChar c := fun c hc => .inl (h.digits c hc)

theorem colon_ipChar : ipChar ':' := .inr (.inr rfl)

theorem Parts.chars (h : Parts n text) : ∀ c ∈ text, ipChar c := by
  induction h with
  | one hg => exact hg.chars
  | v4 h4 => exact h4.chars
  | cons hg _ ih => exact ipChars_append hg.chars colon_ipChar ih

theorem Groups.chars (h : Groups n text) : ∀ c ∈ text, ipChar c := by
  induction h with
  | one hg => exact hg.chars
  | cons hg _ ih => exact ipChars_append hg.chars colon_ipChar ih

theorem IsV6.chars (h : IsV6 text) : ∀ c ∈ text, ipChar c := by
  obtain h | ⟨l, r, m, n, hl, hr, -, rfl⟩ := h
  · exact h.chars
  have hleft : ∀ c ∈ l, ipChar c := by
    obtain hl | ⟨rfl, -⟩ := hl
    · exact hl.chars
    · simp
  have hright : ∀ c ∈ r, ipChar c := by
    obtain hr | ⟨rfl, -⟩ := hr
    · exact hr.chars
    · simp
  have hmore := ipChars_append (l := []) (by simp) colon_ipChar hright
  exact ipChars_append hleft colon_ipChar hmore

theorem no_percent (h : ∀ c ∈ text, ipChar c) : '%' ∉ text := by
  intro hmem
  obtain hhex | hdot | hcolon := h '%' hmem
  · cases hhex
  · cases hdot
  · cases hcolon

/-! ## Families -/

theorem find_special {rest : List Char} (hl : ∀ x ∈ l, hexDigit x = true) (hc : special c = true) :
    (l ++ c :: rest).find? special = some c := by
  have hnone : l.find? special = none := by
    rw [find?_eq_none]
    intro x hx hspecial
    have hhex := hl x hx
    simp only [special, Bool.or_eq_true, beq_iff_eq] at hspecial
    obtain (rfl | rfl) | rfl := hspecial <;> cases hhex
  rw [find?_append, hnone, none_or, find?_cons, hc]

theorem IsV4.special (h : IsV4 text) : text.find? special = some '.' := by
  obtain ⟨a, b, c, d, ha, -, -, -, rfl⟩ := h
  exact find_special (fun x hx => hexDigit_of_decimal (ha.digits x hx)) (by decide)

theorem digits_hex (text : List Char) : ∀ c ∈ digitsOf text, hexDigit c = true := fun _ hc => mem_takeWhile_imp hc

theorem IsV6.special (h : IsV6 text) : text.find? special = some ':' := by
  have hcolon : ∀ r, afterDigits text = ':' :: r → text.find? Validation.special = some ':' := by
    intro r hafter
    have hsplit := digitsOf_append_after text
    rw [hafter] at hsplit
    rw [← hsplit]
    exact find_special (digits_hex text) (by decide)
  by_cases hhead : ∃ r, text = ':' :: ':' :: r
  · obtain ⟨r, rfl⟩ := hhead
    rfl
  obtain hparts | hgap := (isV6_iff_gap (fun r hr => hhead ⟨r, hr⟩)).mp h
  · obtain ⟨-, hone, -⟩ | ⟨htwo, -⟩ | ⟨r, m, hafter, -⟩ := (parts_iff 8 text).mp hparts
    · cases hone
    · cases htwo
    · exact hcolon r hafter
  · obtain ⟨-, ⟨r, n, hafter, -⟩ | ⟨r, m, hafter, -⟩⟩ := (gap_iff 8 text).mp hgap
    · exact hcolon _ hafter
    · exact hcolon _ hafter

theorem parse_v4_iff (text : List Char) : validationParseIp text = .v4 ↔ IsV4 text := by
  constructor
  · intro h
    unfold validationParseIp at h
    split at h
    · split at h
      · next hfields => exact (ipv4Fields_iff text).mp hfields
      · cases h
    · split at h <;> cases h
    · cases h
  · intro h
    rw [validationParseIp, h.special]
    exact if_pos ((ipv4Fields_iff text).mpr h)

theorem parse_v6_iff (text : List Char) : validationParseIp text = .v6 false ↔ IsV6 text := by
  constructor
  · intro h
    unfold validationParseIp at h
    split at h
    · split at h <;> cases h
    · split at h
      · next haccepted =>
        have hzone : (validationIpv6 text).2 = false := by injection h
        unfold validationIpv6 at haccepted hzone
        split at haccepted
        · exact (ipv6Body_iff text).mp haccepted
        next body zone hcut =>
        rw [hcut] at hzone
        dsimp only at hzone
        split at haccepted
        · cases haccepted
        next hempty =>
        rw [if_neg hempty] at hzone
        cases hzone
      · cases h
    · cases h
  · intro h
    have hcut := cut_eq_none (no_percent h.chars)
    have hread : validationIpv6 text = (true, false) := by
      rw [validationIpv6, hcut]
      dsimp only
      rw [(ipv6Body_iff text).mpr h]
    rw [validationParseIp, h.special, hread]
    rfl

theorem check_iff (ip : ValidationIp) : validationCheckIp ip .any = "" ↔ ip = .v4 ∨ ip = .v6 false := by
  cases ip with
  | invalid => decide
  | v4 => decide
  | v6 zoned => cases zoned <;> decide

theorem checkParse_iff (text : List Char) : validationCheckIp (validationParseIp text) .any = "" ↔
    IsV4 text ∨ IsV6 text := by
  rw [check_iff, parse_v4_iff, parse_v6_iff]

/-! ## Prefixes -/

/-- An address, a slash and a length that fits its family. -/
def IsPrefix (text : List Char) : Prop :=
  ∃ address bits, text = address ++ '/' :: bits ∧
    (IsV4 address ∧ IsDecimal bits 32 ∨ IsV6 address ∧ IsDecimal bits 128)

theorem cutLast_some (h : cutLast c text = some (l, r)) : text = l ++ c :: r := by
  obtain ⟨⟨a, b⟩, hcut, heq⟩ := map_eq_some_iff.mp h
  obtain ⟨rfl, rfl⟩ := Prod.mk.inj heq
  have hsplit := congrArg reverse (cut_some hcut).1
  rwa [reverse_reverse, reverse_append, reverse_cons, append_assoc] at hsplit

theorem cutLast_append (h : c ∉ r) (l : List Char) : cutLast c (l ++ c :: r) = some (l, r) := by
  have hreverse : (l ++ c :: r).reverse = r.reverse ++ c :: l.reverse := by simp
  rw [cutLast, hreverse, cut_append (by simpa using h)]
  simp

theorem IsDecimal.not_mem (h : IsDecimal text most) (hc : decimalDigit c = none) :
    c ∉ text := by
  intro hmem
  have hsome := h.digits c hmem
  rw [hc] at hsome
  cases hsome

theorem bits_iff {bits : List Char} {maxBits : Nat} (hmax : maxBits = 32 ∨ maxBits = 128) :
    ((if bits.contains '.' then "Use a prefix length instead of a netmask, for example 10.0.0.0/8."
      else if bits.isEmpty || !bits.all (fun c => (decimalDigit c).isSome) then prefixMessage
      else if bits.length > 1 && bits.head? == some '0' then "Write the prefix length without leading zeros."
      else if bits.length > 3 || digitsValue 0 bits > maxBits then
        "The prefix length must be from 0 to " ++ toString maxBits ++ "."
      else "") = "") ↔ IsDecimal bits maxBits := by
  have hmessage : ("The prefix length must be from 0 to " ++ toString maxBits ++ "." : String) ≠ "" := by
    obtain rfl | rfl := hmax <;> decide
  constructor
  · intro h
    split at h
    · simp at h
    split at h
    · exact absurd h (by decide)
    next hdigits =>
    split at h
    · simp at h
    next hzero =>
    split at h
    · exact absurd h hmessage
    next hrange =>
    simp only [Bool.or_eq_true, List.isEmpty_iff, Bool.not_eq_true', not_or, Bool.not_eq_false,
      List.all_eq_true] at hdigits
    simp only [Bool.or_eq_true, decide_eq_true_eq, not_or, not_lt] at hrange
    refine ⟨hdigits.1, hdigits.2, fun hhead => ?_, hrange.2⟩
    obtain ⟨c, rest, rfl⟩ := exists_cons_of_ne_nil hdigits.1
    cases hhead
    simp only [List.length_cons, List.head?_cons, BEq.rfl, Bool.and_true, decide_eq_true_eq] at hzero
    rw [List.length_eq_zero_iff.mp (by omega : rest.length = 0)]
  · intro h
    have hdot := h.not_mem dot_not_digit
    have hall : bits.all (fun c => (decimalDigit c).isSome) = true := List.all_eq_true.mpr h.digits
    have hne : bits.isEmpty = false := by simpa using h.ne
    have hzero : (decide (bits.length > 1) && bits.head? == some '0') = false := by
      rw [Bool.and_eq_false_iff, decide_eq_false_iff_not, beq_eq_false_iff_ne]
      by_cases hhead : bits.head? = some '0'
      · rw [h.noZero hhead]
        exact .inl (by decide)
      · exact .inr hhead
    have hlength := h.length_le (by omega)
    have hle := h.le
    rw [if_neg (by simpa using hdot), hall, hne, hzero]
    simp
    omega

/-- The length of a prefix is checked against the family of its address. -/
theorem cidr_slash {text : String} {address bits : List Char}
    (hcut : cutLast '/' (trimmed text.toList) = some (address, bits))
    (empty : Empty) : cidr text .any false empty = "" ↔ IsV4 address ∧ IsDecimal bits 32 ∨
    IsV6 address ∧ IsDecimal bits 128 := by
  have hne : (trimmed text.toList).isEmpty = false := by
    rw [cutLast_some hcut]
    simp
  rw [cidr]
  rw [hne, if_neg Bool.false_ne_true, hcut]
  dsimp only
  by_cases h4 : validationParseIp address = .v4
  · have hnot : ¬ IsV6 address := by
      rw [← parse_v6_iff, h4]
      simp
    have hcheck : validationCheckIp .v4 .any = "" := by decide
    rw [h4, hcheck, if_neg (by simp), if_pos rfl, bits_iff (.inl rfl)]
    simp [hnot, (parse_v4_iff address).mp h4]
  by_cases h6 : validationParseIp address = .v6 false
  · have hcheck : validationCheckIp (.v6 false) .any = "" := by decide
    have hnot : ¬ IsV4 address := fun h => h4 ((parse_v4_iff address).mpr h)
    have hfamily : (if ValidationIp.v6 false = .v4 then 32 else 128) = 128 := if_neg (by simp)
    rw [h6, hcheck, if_neg (by simp), hfamily, bits_iff (.inr rfl)]
    simp [hnot, (parse_v6_iff address).mp h6]
  · have hcheck : validationCheckIp (validationParseIp address) .any ≠ "" := by
      rw [Ne, check_iff]
      exact not_or.mpr ⟨h4, h6⟩
    have hnot4 : ¬ IsV4 address := fun h => h4 ((parse_v4_iff address).mpr h)
    have hnot6 : ¬ IsV6 address := fun h => h6 ((parse_v6_iff address).mpr h)
    simp [hcheck, hnot4, hnot6]

theorem cidr_iff {text : String} (hne : trimmed text.toList ≠ []) (empty : Empty) :
    cidr text .any false empty = "" ↔ IsPrefix (trimmed text.toList) := by
  cases hcut : cutLast '/' (trimmed text.toList) with
  | none =>
    have hmessage : cidr text .any false empty = prefixMessage := by
      rw [cidr]
      rw [if_neg (by simpa using hne), hcut]
      rfl
    rw [hmessage]
    constructor
    · intro h
      exact absurd h (by decide)
    rintro ⟨address, bits, heq, hbits⟩
    have hslash : '/' ∉ bits := by
      obtain ⟨-, h⟩ | ⟨-, h⟩ := hbits <;> exact h.not_mem (by decide)
    rw [heq, cutLast_append hslash] at hcut
    cases hcut
  | some parts =>
    obtain ⟨address, bits⟩ := parts
    rw [cidr_slash hcut]
    constructor
    · intro h
      exact ⟨address, bits, cutLast_some hcut, h⟩
    rintro ⟨address', bits', heq, hbits⟩
    have hslash : '/' ∉ bits' := by
      obtain ⟨-, h⟩ | ⟨-, h⟩ := hbits <;> exact h.not_mem (by decide)
    rw [heq, cutLast_append hslash, some.injEq, Prod.mk.injEq] at hcut
    rwa [← hcut.1, ← hcut.2]

theorem ip_iff {text : String} (hne : trimmed text.toList ≠ []) (empty : Empty) :
    ip text .any empty = "" ↔ IsV4 (trimmed text.toList) ∨ IsV6 (trimmed text.toList) := by
  rw [ip, if_neg (by simpa using hne), checkParse_iff]

theorem isV4_ne (h : IsV4 text) : text ≠ [] := by
  rintro rfl
  exact absurd h.special (by decide)

theorem isV6_ne (h : IsV6 text) : text ≠ [] := by
  rintro rfl
  exact absurd h.special (by decide)

theorem isPrefix_ne (h : IsPrefix text) : text ≠ [] := by
  obtain ⟨address, bits, rfl, -⟩ := h
  simp

/-- **Addresses and prefixes.** A text is accepted exactly when it is one of the grammar; where nothing is required of
the field, the blank text is accepted as well. -/
theorem ip_contract (text : String) :
    (ip text .any .required = "" ↔ IsV4 (trimmed text.toList) ∨ IsV6 (trimmed text.toList)) ∧
      (ip text .any .allowed = "" ↔ trimmed text.toList = [] ∨ IsV4 (trimmed text.toList) ∨ IsV6 (trimmed text.toList)) ∧
      (cidr text .any false .required = "" ↔ IsPrefix (trimmed text.toList)) ∧
      (cidr text .any false .allowed = "" ↔ trimmed text.toList = [] ∨ IsPrefix (trimmed text.toList)) := by
  by_cases hne : trimmed text.toList = []
  · have h4 : ¬ IsV4 (trimmed text.toList) := fun h => isV4_ne h hne
    have h6 : ¬ IsV6 (trimmed text.toList) := fun h => isV6_ne h hne
    have hp : ¬ IsPrefix (trimmed text.toList) := fun h => isPrefix_ne h hne
    have hmessage : validationEmpty .required ≠ "" := by decide
    refine ⟨?_, ?_, ?_, ?_⟩
    · simp [ip, hne, hmessage, hne ▸ h4, hne ▸ h6]
    · simp [ip, hne, validationEmpty]
    · simp [cidr, hne, hmessage, hne ▸ hp]
    · simp [cidr, hne, validationEmpty]
  · refine ⟨ip_iff hne _, ?_, cidr_iff hne _, ?_⟩
    · rw [ip_iff hne, or_iff_right hne]
    · rw [cidr_iff hne, or_iff_right hne]

end Waterdisco.Validation
