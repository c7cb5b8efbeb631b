import Waterdisco.Scan.IpListNetwork

/-!
# Durations

`parseDurationNs` adds up components of a number and a unit in 64 unsigned bits, where the
limit `2 ^ 63` is allowed for the negative end; `formatDuration` writes such a text.

    parseDurationNs text = the exact signed sum, or nothing where it does not fit
      ↔ no components with the sum 2 ^ 63 are followed by one of 2 ^ 63        (parseDurationNs_iff)
    parseDurationNs (formatDuration ns) = ns                                   (parseDurationNs_format)
-/

namespace Waterdisco.Validation

open List Nat Option Bool Scan

/-- `kLimit`, which an accumulator may reach for the negative end. -/
def kLimit : Nat := 2 ^ 63

/-- An unsigned accumulator, and whether an operation on the way to it has wrapped. -/
structure Acc where
  value : Nat
  wrapped : Bool := false
deriving DecidableEq

def Acc.add (a : Acc) (n : Nat) : Acc := ⟨(a.value + n) % 2 ^ 64, a.wrapped || decide (2 ^ 64 ≤ a.value + n)⟩

def Acc.mul (a : Acc) (n : Nat) : Acc := ⟨a.value * n % 2 ^ 64, a.wrapped || decide (2 ^ 64 ≤ a.value * n)⟩

def durationUnits : List (List Char × Nat) :=
  [(['n', 's'], 1), (['u', 's'], 1000), (['µ', 's'], 1000), (['μ', 's'], 1000), (['m', 's'], 1000000),
    (['s'], 1000000000), (['m'], 60000000000), (['h'], 3600000000000), (['d'], 86400000000000)]

def durationUnit (name : List Char) : Nat :=
  match durationUnits.find? (fun entry => entry.1 == name) with
  | some entry => entry.2
  | none => 0

/-! ## Reading -/

/-- The digits before a point; an error tells whether anything wrapped before it. -/
def scanInteger (v : Acc) : List Char → Except Bool (Acc × List Char)
  | [] => .ok (v, [])
  | c :: rest =>
    match decimalDigit c with
    | none => .ok (v, c :: rest)
    | some digit =>
      if v.value > kLimit / 10 then .error v.wrapped
      else
        let v := (v.mul 10).add digit
        if v.value > kLimit then .error v.wrapped else scanInteger v rest

/-- The digits after a point: their number, how many of them count, and the rest of the text. -/
def scanFraction (f : Nat) (places : Nat) (overflow : Bool) : List Char → Nat × Nat × List Char
  | [] => (f, places, [])
  | c :: rest =>
    match decimalDigit c with
    | none => (f, places, c :: rest)
    | some digit =>
      if overflow || f > (kLimit - 1) / 10 || f * 10 + digit > kLimit then scanFraction f places true rest
      else scanFraction (f * 10 + digit) (places + 1) false rest

def unitChar (c : Char) : Bool := c != '.' && (decimalDigit c).isNone

/-- `fraction f unit places` is the part of the unit that the digits after the point are, in whole nanoseconds. -/
def scanComponent (fraction : Nat → Nat → Nat → Nat) (d : Acc) (text : List Char) : Except Bool (Acc × List Char) :=
  if text.head?.any unitChar then .error d.wrapped
  else
    match scanInteger ⟨0, d.wrapped⟩ text with
    | .error wrapped => .error wrapped
    | .ok (v, rest) =>
      let (f, places, after) :=
        match rest with
        | '.' :: digits => scanFraction 0 0 false digits
        | _ => (0, 0, rest)
      let pre := rest.length != text.length
      let post := after.length + 1 < rest.length
      let unit := durationUnit (after.takeWhile unitChar)
      if !pre && !post then .error v.wrapped
      else if unit == 0 || v.value > kLimit / unit then .error v.wrapped
      else
        let v := v.mul unit
        let v := if f > 0 then v.add (fraction f unit places) else v
        if v.value > kLimit then .error v.wrapped
        else
          let sum : Acc := ({ d with wrapped := v.wrapped } : Acc).add v.value
          if sum.value > kLimit then .error sum.wrapped else .ok (sum, after.dropWhile unitChar)

/-- The components of a text; each of them takes a character at least. -/
def scanComponents (fraction : Nat → Nat → Nat → Nat) : Nat → Acc → List Char → Except Bool Acc
  | _, d, [] => .ok d
  | 0, d, _ :: _ => .error d.wrapped
  | left + 1, d, c :: rest =>
    match scanComponent fraction d (c :: rest) with
    | .error wrapped => .error wrapped
    | .ok (d, rest) => scanComponents fraction left d rest

/-- The sign of a text and what follows it. -/
def signOf : List Char → Bool × List Char
  | '-' :: rest => (true, rest)
  | '+' :: rest => (false, rest)
  | text => (false, text)

/-- `ParseDurationNs`, and whether an accumulator wrapped. -/
def parseDurationNs (fraction : Nat → Nat → Nat → Nat) (text : String) : Option Int × Bool :=
  let (neg, body) := signOf (trimmed text.toList)
  if body == ['0'] then (some 0, false)
  else if body.isEmpty then (none, false)
  else
    match scanComponents fraction body.length ⟨0, false⟩ body with
    | .error wrapped => (none, wrapped)
    | .ok d =>
      if neg then (some (if d.value = kLimit then -(2 : Int) ^ 63 else -(d.value : Int)), d.wrapped)
      else if d.value > kLimit - 1 then (none, d.wrapped)
      else (some d.value, d.wrapped)

/-! ## Writing -/

def formatUnits : List (Nat × List Char) → Nat → List Char
  | [], _ => []
  | (unit, name) :: rest, v =>
    (if v / unit = 0 then [] else toDigits 10 (v / unit) ++ name) ++ formatUnits rest (v % unit)

/-- `validationFormatDuration` of a 64-bit number. -/
def formatDuration (ns : Int) : String :=
  if ns = 0 then "0s"
  else
    String.ofList ((if ns < 0 then ['-'] else []) ++
      formatUnits [(3600000000000, ['h']), (60000000000, ['m']), (1000000000, ['s']), (1000000, ['m', 's']),
        (1000, ['u', 's']), (1, ['n', 's'])] ns.natAbs)

/-! ## Components -/

def digitsValue (v : Nat) (digits : List Char) : Nat := digits.foldl (fun n c => n * 10 + (decimalDigit c).getD 0) v

/-- A number and a unit. -/
structure Component where
  digits : List Char
  unit : List Char × Nat
  digits_ne : digits ≠ []
  isDigit : ∀ c ∈ digits, (decimalDigit c).isSome = true
  isUnit : unit ∈ durationUnits

namespace Component

def value (c : Component) : Nat := digitsValue 0 c.digits * c.unit.2

def text (c : Component) : List Char := c.digits ++ c.unit.1

end Component

open Component (text value)

def total (cs : List Component) : Nat := (cs.map value).sum

def joined (cs : List Component) : List Char := cs.flatMap text

/-- The components of a text without a decimal point, after its sign. -/
structure DurationText (text : String) where
  sign : List Char
  components : List Component
  isSign : sign = [] ∨ sign = ['+'] ∨ sign = ['-']
  components_ne : components ≠ []
  eq : trimmed text.toList = sign ++ joined components

/-- The signed sum where it fits 64 signed bits. -/
def exactSum (sign : List Char) (cs : List Component) : Option Int :=
  let sum : Int := if sign = ['-'] then -(total cs : Int) else total cs
  if -(2 : Int) ^ 63 ≤ sum ∧ sum < 2 ^ 63 then some sum else none

/-- Components that add up to the limit are followed by one that is the limit. -/
def Overshoots (cs : List Component) : Prop :=
  ∃ init last rest, cs = init ++ last :: rest ∧ total init = kLimit ∧ last.value = kLimit

section

variable {fraction : Nat → Nat → Nat → Nat}

variable {c : Char} {d : Nat} {rest : List Char} {cs : List Component}

theorem decimalDigit_le (h : decimalDigit c = some d) : d ≤ 9 := by
  unfold decimalDigit at h
  split at h
  · next hc =>
    cases h
    have h9 : c.toNat ≤ '9'.toNat := hc.2
    have hv : '9'.toNat = 57 := rfl
    have hz : '0'.toNat = 48 := rfl
    omega
  · cases h

theorem le_digitsValue (v : Nat) (digits : List Char) : v ≤ digitsValue v digits := by
  induction digits generalizing v with
  | nil => exact le_refl v
  | cons c rest ih => exact le_trans (by omega) (ih (v * 10 + (decimalDigit c).getD 0))

theorem digitsValue_cons (h : decimalDigit c = some d) (v : Nat) (rest : List Char) :
    digitsValue v (c :: rest) = digitsValue (v * 10 + d) rest := by
  rw [digitsValue, foldl_cons, h]
  rfl

/-- The digits of a component are read up to its unit, or given up where their number is above the limit. -/
theorem scanInteger_digits {digits : List Char} (hdigits : ∀ c ∈ digits, (decimalDigit c).isSome = true)
    (hrest : ∀ c, rest.head? = some c → decimalDigit c = none) {v : Nat} (hv : v ≤ kLimit) (w : Bool) :
    scanInteger ⟨v, w⟩ (digits ++ rest) =
      if digitsValue v digits ≤ kLimit then .ok (⟨digitsValue v digits, w⟩, rest) else .error w := by
  induction digits generalizing v with
  | nil =>
    have hvalue : digitsValue v [] = v := rfl
    rw [hvalue, if_pos hv, List.nil_append]
    cases rest with
    | nil => rfl
    | cons c tail => rw [scanInteger, hrest c rfl]
  | cons c tail ih =>
    obtain ⟨d, hd⟩ := Option.isSome_iff_exists.mp (hdigits c (.head _))
    have hd9 := decimalDigit_le hd
    have hvalue := digitsValue_cons hd v tail
    have hle := le_digitsValue (v * 10 + d) tail
    rw [List.cons_append, scanInteger, hd, hvalue]
    dsimp only
    by_cases hbig : v > kLimit / 10
    · have hover : ¬ digitsValue (v * 10 + d) tail ≤ kLimit := by
        unfold kLimit at hbig ⊢
        omega
      rw [if_pos hbig, if_neg hover]
    have hstep : (((⟨v, w⟩ : Acc).mul 10).add d) = ⟨v * 10 + d, w⟩ := by
      have h10 : v * 10 < 2 ^ 64 := by unfold kLimit at hbig; omega
      have hsum : v * 10 + d < 2 ^ 64 := by unfold kLimit at hbig; omega
      simp only [Acc.mul, Acc.add, Nat.mod_eq_of_lt h10, Nat.mod_eq_of_lt hsum, Nat.not_le.mpr h10, Nat.not_le.mpr hsum,
        decide_false, Bool.or_false]
    rw [if_neg hbig, hstep]
    dsimp only
    by_cases hmore : v * 10 + d > kLimit
    · rw [if_pos hmore, if_neg (by omega)]
    · rw [if_neg hmore]
      exact ih (fun x hx => hdigits x (.tail _ hx)) (by omega)

theorem durationUnits_spec {u : List Char × Nat} (h : u ∈ durationUnits) :
    u.1 ≠ [] ∧ (∀ c ∈ u.1, unitChar c = true) ∧ durationUnit u.1 = u.2 ∧ 0 < u.2 := by
  have hall : ∀ u ∈ durationUnits, u.1 ≠ [] ∧ u.1.all unitChar = true ∧ durationUnit u.1 = u.2 ∧ 0 < u.2 :=
    all_iff_forall_prop.mp (by decide)
  obtain ⟨hne, hchars, hunit, hpos⟩ := hall u h
  exact ⟨hne, all_eq_true.mp hchars, hunit, hpos⟩

/-- The text after a component: another component or nothing. -/
def Fresh (rest : List Char) : Prop := ∀ c, rest.head? = some c → unitChar c = false

theorem takeWhile_unit {u : List Char} (hu : ∀ c ∈ u, unitChar c = true) (hrest : Fresh rest) :
    (u ++ rest).takeWhile unitChar = u ∧ (u ++ rest).dropWhile unitChar = rest := by
  have hnil : rest.takeWhile unitChar = [] ∧ rest.dropWhile unitChar = rest := by
    cases rest with
    | nil => exact ⟨rfl, rfl⟩
    | cons c tail =>
      have hc := hrest c rfl
      exact ⟨by simp [hc], by simp [hc]⟩
  rw [takeWhile_append_of_pos hu, dropWhile_append_of_pos hu, hnil.1, hnil.2, append_nil]
  exact ⟨rfl, rfl⟩

theorem scanComponent_text (c : Component) (hrest : Fresh rest) (d : Acc) :
    scanComponent fraction d (c.text ++ rest) =
      if c.value ≤ kLimit then
        (if (d.add c.value).value > kLimit then .error (d.add c.value).wrapped else .ok (d.add c.value, rest))
      else .error d.wrapped := by
  obtain ⟨hname, hchars, hunit, hpos⟩ := durationUnits_spec c.isUnit
  obtain ⟨first, tail, hdigits⟩ := List.exists_cons_of_ne_nil c.digits_ne
  obtain ⟨digit, hdigit⟩ := Option.isSome_iff_exists.mp (c.isDigit first (by simp [hdigits]))
  have hhead : (c.text ++ rest).head?.any unitChar = false := by
    simp [text, hdigits, unitChar, hdigit]
  have hafter : ∀ x, (c.unit.1 ++ rest).head? = some x → unitChar x = true := by
    intro x hx
    obtain ⟨u, us, hcons⟩ := List.exists_cons_of_ne_nil hname
    rw [hcons, List.cons_append, List.head?_cons] at hx
    exact Option.some.inj hx ▸ hchars u (by simp [hcons])
  have hscan : scanInteger ⟨0, d.wrapped⟩ (c.text ++ rest) =
      if digitsValue 0 c.digits ≤ kLimit then .ok (⟨digitsValue 0 c.digits, d.wrapped⟩, c.unit.1 ++ rest)
      else .error d.wrapped := by
    rw [text, List.append_assoc]
    refine scanInteger_digits c.isDigit (fun x hx => ?_) (Nat.zero_le _) _
    have hx := hafter x hx
    simp only [unitChar, Bool.and_eq_true, Option.isNone_iff_eq_none] at hx
    exact hx.2
  have hpoint : ∀ {α : Type} (f : List Char → α) (g : α),
      (match c.unit.1 ++ rest with
        | '.' :: digits => f digits
        | _ => g) = g := by
    intro α f g
    split
    · next digits heq => exact absurd (hafter '.' (by rw [heq]; rfl)) (by decide)
    · rfl
  have hlength : ((c.unit.1 ++ rest).length != (c.text ++ rest).length) = true := by
    have := List.length_pos_iff.mpr c.digits_ne
    simp only [bne_iff_ne, text, List.length_append]
    omega
  rw [scanComponent, if_neg (by rw [hhead]; exact Bool.false_ne_true), hscan]
  by_cases hle : digitsValue 0 c.digits ≤ kLimit
  · rw [if_pos hle]
    dsimp only
    rw [hpoint (fun digits => scanFraction 0 0 false digits)]
    dsimp only
    rw [hlength, (takeWhile_unit hchars hrest).1, (takeWhile_unit hchars hrest).2, hunit]
    have hiff : digitsValue 0 c.digits > kLimit / c.unit.2 ↔ ¬ c.value ≤ kLimit := by
      rw [value, gt_iff_lt, Nat.div_lt_iff_lt_mul hpos, Nat.not_le]
    have hzero : (c.unit.2 == 0) = false := by simpa using Nat.pos_iff_ne_zero.mp hpos
    by_cases hvalue : c.value ≤ kLimit
    · have hmul : (⟨digitsValue 0 c.digits, d.wrapped⟩ : Acc).mul c.unit.2 = ⟨c.value, d.wrapped⟩ := by
        have hlt : digitsValue 0 c.digits * c.unit.2 < 2 ^ 64 := by
          have h63 : c.value ≤ 2 ^ 63 := hvalue
          rw [value] at h63
          omega
        simp only [Acc.mul, value, Nat.mod_eq_of_lt hlt, Nat.not_le.mpr hlt, decide_false, Bool.or_false]
      have hbig : ¬ digitsValue 0 c.digits > kLimit / c.unit.2 := fun hgt => hiff.mp hgt hvalue
      simp only [hzero, hbig, hmul, hvalue, Nat.not_lt.mpr hvalue, Bool.not_true, Bool.false_and, Bool.false_eq_true,
        Bool.false_or, decide_false, if_false, if_true, gt_iff_lt, Nat.lt_irrefl]
    · have hbig : digitsValue 0 c.digits > kLimit / c.unit.2 := hiff.mpr hvalue
      simp [hbig, hvalue]
  · have hvalue : ¬ c.value ≤ kLimit := by
      have := Nat.le_mul_of_pos_right (digitsValue 0 c.digits) hpos
      rw [value]
      omega
    rw [if_neg hle, if_neg hvalue]

/-! ## Sums -/

/-- The values of components, added up as the accumulator does it. -/
def addAll : Acc → List Nat → Except Bool Acc
  | d, [] => .ok d
  | d, v :: rest =>
    if v ≤ kLimit then (if (d.add v).value > kLimit then .error (d.add v).wrapped else addAll (d.add v) rest)
    else .error d.wrapped

/-- Whether anything wrapped on the way. -/
def wrappedOf : Except Bool Acc → Bool
  | .error wrapped => wrapped
  | .ok d => d.wrapped

theorem fresh_joined (cs : List Component) : Fresh (joined cs) := by
  intro x hx
  cases cs with
  | nil => cases hx
  | cons c rest =>
    obtain ⟨first, tail, hdigits⟩ := exists_cons_of_ne_nil c.digits_ne
    obtain ⟨digit, hdigit⟩ := isSome_iff_exists.mp (c.isDigit first (by simp [hdigits]))
    have hfirst : (joined (c :: rest)).head? = some first := by
      simp [joined, text, hdigits]
    obtain rfl : first = x := some.inj (hfirst.symm.trans hx)
    simp [unitChar, hdigit]

theorem length_text_pos (c : Component) : 0 < c.text.length := by
  have := length_pos_iff.mpr c.digits_ne
  rw [text, length_append]
  omega

theorem scanComponents_joined (cs : List Component) {left : Nat} (hleft : (joined cs).length ≤ left) (d : Acc) :
    scanComponents fraction left d (joined cs) = addAll d (cs.map value) := by
  induction cs generalizing left d with
  | nil =>
    cases left with
    | zero => rfl
    | succ left => rfl
  | cons c rest ih =>
    have hpos := length_text_pos c
    have hjoined : joined (c :: rest) = c.text ++ joined rest := rfl
    rw [hjoined, length_append] at hleft
    obtain ⟨first, tail, htext⟩ := exists_cons_of_ne_nil (ne_nil_of_length_pos hpos)
    cases left with
    | zero => omega
    | succ left =>
      have hstep : scanComponent fraction d (c.text ++ joined rest) = _ := scanComponent_text c (fresh_joined rest) d
      rw [hjoined, map_cons, addAll]
      rw [htext, cons_append] at hstep ⊢
      rw [scanComponents, hstep]
      by_cases hvalue : c.value ≤ kLimit
      · rw [if_pos hvalue, if_pos hvalue]
        by_cases hsum : (d.add c.value).value > kLimit
        · rw [if_pos hsum, if_pos hsum]
        · rw [if_neg hsum, if_neg hsum]
          exact ih (by omega) (d.add c.value)
      · rw [if_neg hvalue, if_neg hvalue]

theorem addAll_sticky (values : List Nat) {d : Acc} (h : d.wrapped = true) : wrappedOf (addAll d values) = true := by
  induction values generalizing d with
  | nil => exact h
  | cons v rest ih =>
    have hadd : (d.add v).wrapped = true := by simp [Acc.add, h]
    rw [addAll]
    split
    · split
      · exact hadd
      · exact ih hadd
    · exact h

/-- Below the limit nothing wraps but the sum of the limit with itself. -/
theorem add_of_le {v : Nat} (hd : d ≤ kLimit) (hv : v ≤ kLimit) (h : ¬ (d = kLimit ∧ v = kLimit)) :
    (⟨d, false⟩ : Acc).add v = ⟨d + v, false⟩ := by
  have hlt : d + v < 2 ^ 64 := by unfold kLimit at *; omega
  simp only [Acc.add, Nat.mod_eq_of_lt hlt, Nat.not_le.mpr hlt, decide_false, Bool.or_false]

/-- **Added up.** The sum is exact, and wraps only where the limit is added to the limit. -/
theorem addAll_exact (values : List Nat) (hd : d ≤ kLimit)
    (h : ∀ init last rest, values = init ++ last :: rest → ¬ (d + init.sum = kLimit ∧ last = kLimit)) :
    addAll ⟨d, false⟩ values = if d + values.sum ≤ kLimit then .ok ⟨d + values.sum, false⟩ else .error false := by
  induction values generalizing d with
  | nil => rw [addAll, sum_nil, add_zero, if_pos hd]
  | cons v rest ih =>
    rw [addAll, sum_cons]
    by_cases hv : v ≤ kLimit
    · have hadd : (⟨d, false⟩ : Acc).add v = ⟨d + v, false⟩ := add_of_le hd hv (h [] v rest rfl)
      rw [if_pos hv, hadd]
      dsimp only
      by_cases hsum : d + v > kLimit
      · rw [if_pos hsum, if_neg (by omega)]
      rw [if_neg hsum, ih (by omega), add_assoc]
      intro init last tail heq hboth
      refine h (v :: init) last tail (by rw [heq]; rfl) ?_
      rw [sum_cons]
      omega
    · rw [if_neg hv, if_neg (by omega)]

theorem addAll_wraps {values init rest : List Nat} {last : Nat} (hd : d ≤ kLimit) (heq : values = init ++ last :: rest)
    (hinit : d + init.sum = kLimit) (hlast : last = kLimit) : wrappedOf (addAll ⟨d, false⟩ values) = true := by
  induction init generalizing values d with
  | nil =>
    subst heq hlast
    obtain rfl : d = kLimit := hinit
    rw [nil_append, addAll, if_pos (.refl)]
    have hwrap : ((⟨kLimit, false⟩ : Acc).add kLimit) = ⟨0, true⟩ := by decide
    rw [hwrap]
    exact addAll_sticky rest rfl
  | cons v init ih =>
    rw [sum_cons] at hinit
    have hpos : 0 < kLimit := by decide
    subst heq
    rw [cons_append, addAll, if_pos (by omega)]
    by_cases hfull : d = kLimit ∧ v = kLimit
    · omega
    rw [add_of_le hd (by omega) hfull]
    dsimp only
    rw [if_neg (by omega)]
    exact ih (by omega) rfl (by omega)

theorem overshoots_iff (cs : List Component) :
    Overshoots cs ↔ ∃ init last rest, cs.map value = init ++ last :: rest ∧ init.sum = kLimit ∧ last = kLimit := by
  constructor
  · rintro ⟨init, last, rest, rfl, hinit, hlast⟩
    exact ⟨init.map value, last.value, rest.map value, by simp, hinit, hlast⟩
  rintro ⟨init, last, rest, heq, hinit, hlast⟩
  obtain ⟨first, second, rfl, hfirst, hsecond⟩ := map_eq_append_iff.mp heq
  obtain ⟨c, tail, rfl, hc, -⟩ := map_eq_cons_iff.mp hsecond
  exact ⟨first, c, tail, rfl, by rw [total, hfirst, hinit], hc.trans hlast⟩

/-! ## Texts of components -/

theorem signOf_sign {sign body : List Char} (hsign : sign = [] ∨ sign = ['+'] ∨ sign = ['-'])
    (hbody : ∀ c, body.head? = some c → (decimalDigit c).isSome = true) :
    signOf (sign ++ body) = (decide (sign = ['-']), body) := by
  obtain rfl | rfl | rfl := hsign
  · cases body with
    | nil => rfl
    | cons c rest =>
      have hc := hbody c rfl
      have hminus : c ≠ '-' := by rintro rfl; cases hc
      have hplus : c ≠ '+' := by rintro rfl; cases hc
      rw [nil_append, signOf.eq_def]
      split
      · next heq => exact absurd (cons.inj heq).1 hminus
      · next heq => exact absurd (cons.inj heq).1 hplus
      · rfl
  · rfl
  · rfl

theorem joined_head (h : (joined cs).head? = some c) : (decimalDigit c).isSome = true := by
  cases cs with
  | nil => cases h
  | cons d rest =>
    obtain ⟨first, tail, hdigits⟩ := exists_cons_of_ne_nil d.digits_ne
    have hfirst : (joined (d :: rest)).head? = some first := by simp [joined, text, hdigits]
    exact some.inj (hfirst.symm.trans h) ▸ d.isDigit first (by simp [hdigits])

/-- A component is no bare number. -/
theorem joined_ne (h : cs ≠ []) : joined cs ≠ [] ∧ joined cs ≠ ['0'] := by
  obtain ⟨c, rest, rfl⟩ := exists_cons_of_ne_nil h
  have hdigits := length_pos_iff.mpr c.digits_ne
  have hunit := length_pos_iff.mpr (durationUnits_spec c.isUnit).1
  have hlength : 2 ≤ (joined (c :: rest)).length := by
    simp only [joined, flatMap_cons, text, length_append]
    omega
  constructor
  · intro hnil
    rw [hnil] at hlength
    exact absurd hlength (by decide)
  · intro hzero
    rw [hzero] at hlength
    simp at hlength

theorem parseDurationNs_text {text : String} (h : DurationText text) :
    parseDurationNs fraction text =
      match addAll ⟨0, false⟩ (h.components.map value) with
      | .error wrapped => (none, wrapped)
      | .ok d =>
        if h.sign = ['-'] then (some (if d.value = kLimit then -(2 : Int) ^ 63 else -(d.value : Int)), d.wrapped)
        else if d.value > kLimit - 1 then (none, d.wrapped)
        else (some d.value, d.wrapped) := by
  obtain ⟨hnil, hzero⟩ := joined_ne h.components_ne
  rw [parseDurationNs, h.eq, signOf_sign h.isSign (fun _ => joined_head)]
  dsimp only
  rw [if_neg (by simpa using hzero), if_neg (by simpa using hnil), scanComponents_joined _ (.refl)]
  simp only [decide_eq_true_eq]

theorem parseDurationNs_exact {text : String} (h : DurationText text) (hover : ¬ Overshoots h.components) :
    parseDurationNs fraction text = (exactSum h.sign h.components, false) := by
  have hsum := addAll_exact (h.components.map value) (d := 0) (zero_le _) (by
    intro init last rest heq hboth
    rw [zero_add] at hboth
    exact hover ((overshoots_iff _).mpr ⟨init, last, rest, heq, hboth⟩))
  rw [parseDurationNs_text h, hsum, zero_add, exactSum]
  have htotal : (h.components.map value).sum = total h.components := rfl
  have hlimit : kLimit = 2 ^ 63 := rfl
  rw [htotal]
  by_cases hfits : total h.components ≤ kLimit
  · rw [if_pos hfits]
    dsimp only
    by_cases hneg : h.sign = ['-']
    · rw [if_pos hneg, if_pos hneg]
      by_cases hend : total h.components = kLimit
      · rw [if_pos hend, if_pos (by omega), hend, hlimit]
        rfl
      · rw [if_neg hend, if_pos (by omega)]
    · rw [if_neg hneg, if_neg hneg]
      by_cases hend : total h.components > kLimit - 1
      · rw [if_pos hend, if_neg (by omega)]
      · rw [if_neg hend, if_pos (by omega)]
  · rw [if_neg hfits]
    by_cases hneg : h.sign = ['-']
    · rw [if_pos hneg, if_neg (by omega)]
    · rw [if_neg hneg, if_neg (by omega)]

theorem parseDurationNs_wraps {text : String} (h : DurationText text) (hover : Overshoots h.components) :
    (parseDurationNs fraction text).2 = true := by
  obtain ⟨init, last, rest, heq, hinit, hlast⟩ := (overshoots_iff _).mp hover
  have hwraps := addAll_wraps (zero_le _) heq ((zero_add _).trans hinit) hlast
  rw [parseDurationNs_text h]
  cases hrun : addAll ⟨0, false⟩ (h.components.map value) with
  | error wrapped =>
    rwa [hrun] at hwraps
  | ok d =>
    rw [hrun] at hwraps
    dsimp only
    split
    · exact hwraps
    · split <;> exact hwraps

/-! ## Texts that are written -/

theorem digitsValue_of_read {digits : List Char} {n : Nat} (h : readDigits 10 decimalDigit digits = some n) :
    digitsValue 0 digits = n := by
  have hfrom : ∀ (l : List Char) (v : Nat),
      l.foldlM (fun value c => (decimalDigit c).map (fun d => value * 10 + d)) v = some n → digitsValue v l = n := by
    intro l
    induction l with
    | nil =>
      intro v hv
      exact some.inj hv
    | cons c rest ih =>
      intro v hv
      rw [foldlM_cons] at hv
      obtain ⟨next, hnext, hrest⟩ := bind_eq_some_iff.mp hv
      obtain ⟨d, hd, rfl⟩ := map_eq_some_iff.mp hnext
      rw [digitsValue_cons hd]
      exact ih _ hrest
  exact hfrom digits 0 h

theorem digitsValue_toDigits (n : Nat) : digitsValue 0 (toDigits 10 n) = n :=
  digitsValue_of_read (readDigits_toDigits (by omega) decimalDigit_digitChar n)

theorem isDigit_toDigits {n : Nat} (h : c ∈ toDigits 10 n) : (decimalDigit c).isSome = true := by
  obtain ⟨d, hd, rfl⟩ := mem_toDigits (by omega) h
  rw [decimalDigit_digitChar d hd]
  rfl

def leftOver : List (Nat × List Char) → Nat → Nat
  | [], v => v
  | (unit, _) :: rest, v => leftOver rest (v % unit)

/-- The units are written as components that add up to the value but for what is left. -/
theorem formatUnits_joined (table : List (Nat × List Char))
    (htable : ∀ u ∈ table, (u.2, u.1) ∈ durationUnits) (v : Nat) :
    ∃ cs, formatUnits table v = joined cs ∧ total cs + leftOver table v = v := by
  induction table generalizing v with
  | nil => exact ⟨[], rfl, zero_add v⟩
  | cons u rest ih =>
    obtain ⟨unit, name⟩ := u
    obtain ⟨cs, hcs, hsum⟩ := ih (fun u hu => htable u (.tail _ hu)) (v % unit)
    have hdiv := div_add_mod v unit
    rw [formatUnits, leftOver, hcs]
    by_cases hzero : v / unit = 0
    · rw [if_pos hzero]
      rw [hzero, mul_zero, zero_add] at hdiv
      exact ⟨cs, rfl, by omega⟩
    let c : Component := {
      digits := toDigits 10 (v / unit)
      unit := (name, unit)
      digits_ne := toDigits_ne_nil
      isDigit := fun _ => isDigit_toDigits
      isUnit := htable (unit, name) (.head _) }
    have hvalue : c.value = v / unit * unit := by
      show digitsValue 0 (toDigits 10 (v / unit)) * unit = _
      rw [digitsValue_toDigits]
    have htotal : total (c :: cs) = c.value + total cs := by rw [total, map_cons, sum_cons, total]
    rw [if_neg hzero]
    refine ⟨c :: cs, rfl, ?_⟩
    rw [htotal, hvalue, mul_comm]
    omega

theorem total_pos_ne (h : total cs ≠ 0) : cs ≠ [] := by
  rintro rfl
  exact h rfl

theorem joined_no_space (h : c ∈ joined cs) : Scan.isSpace c = false := by
  obtain ⟨component, -, hc⟩ := mem_flatMap.mp h
  obtain hdigit | hunit := mem_append.mp hc
  · have hsome := component.isDigit c hdigit
    unfold decimalDigit at hsome
    split at hsome
    · next hrange =>
      have hle : c.toNat ≤ 57 := hrange.2
      have hge : 48 ≤ c.toNat := hrange.1
      unfold Scan.isSpace
      simp
      omega
    · cases hsome
  · have hall : ∀ u ∈ durationUnits, (u.1.all fun c => !Scan.isSpace c) = true := all_iff_forall_prop.mp (by decide)
    have hspace := all_eq_true.mp (hall _ component.isUnit) c hunit
    rwa [not_eq_true'] at hspace

theorem formatDuration_text (ns : Int) :
    ∃ h : DurationText (formatDuration ns), total h.components = ns.natAbs ∧ (h.sign = ['-'] ↔ ns < 0) := by
  by_cases hzero : ns = 0
  · subst hzero
    exact ⟨⟨[], [⟨['0'], (['s'], 1000000000), by decide, all_iff_forall_prop.mp (by decide),
      by decide⟩], .inl rfl, by simp,
      by decide⟩, by decide, by decide⟩
  obtain ⟨cs, hcs, hsum⟩ := formatUnits_joined [(3600000000000, ['h']), (60000000000, ['m']), (1000000000, ['s']),
    (1000000, ['m', 's']), (1000, ['u', 's']), (1, ['n', 's'])] (by decide) ns.natAbs
  simp only [leftOver, mod_one, add_zero] at hsum
  have htext : (formatDuration ns).toList = (if ns < 0 then ['-'] else []) ++ joined cs := by
    rw [formatDuration, if_neg hzero, String.toList_ofList, hcs]
  have hspace : ∀ c ∈ (if ns < 0 then ['-'] else []) ++ joined cs, Scan.isSpace c = false := by
    intro c hc
    obtain hsign | hbody := mem_append.mp hc
    · split at hsign
      · rw [mem_singleton.mp hsign]
        decide
      · cases hsign
    · exact joined_no_space hbody
  refine ⟨⟨if ns < 0 then ['-'] else [], cs, ?_, total_pos_ne (by omega), ?_⟩, hsum, ?_⟩
  · split
    · exact .inr (.inr rfl)
    · exact .inl rfl
  · rw [htext, trimmed_of_no_space hspace]
  · dsimp only
    split <;> simp [*]

theorem not_overshoots (h : total cs ≤ kLimit) : ¬ Overshoots cs := by
  rintro ⟨init, last, rest, rfl, hinit, hlast⟩
  have hsum : total (init ++ last :: rest) = total init + (last.value + total rest) := by
    simp [total]
  have hpos : 0 < kLimit := by decide
  omega

/-- **Durations.** A text of components gives their exact sum, or nothing where it does not fit, and wraps nowhere,
unless components that add up to `2 ^ 63` are followed by one of `2 ^ 63`; and what is written is read back. -/
theorem parseDurationNs_contract (fraction : Nat → Nat → Nat → Nat) :
    (∀ (text : String) (h : DurationText text),
      parseDurationNs fraction text = (exactSum h.sign h.components, false) ↔ ¬ Overshoots h.components) ∧
    ∀ ns : Int64, parseDurationNs fraction (formatDuration ns.toInt) = (some ns.toInt, false) := by
  refine ⟨fun text h => ⟨fun heq hover => ?_, parseDurationNs_exact h⟩, fun ns => ?_⟩
  · have hwraps : (parseDurationNs fraction text).2 = true := parseDurationNs_wraps h hover
    rw [heq] at hwraps
    cases hwraps
  obtain ⟨h, htotal, hsign⟩ := formatDuration_text ns.toInt
  have hlow := ns.le_toInt
  have hhigh := ns.toInt_lt
  have hlimit : kLimit = 2 ^ 63 := rfl
  rw [parseDurationNs_exact h (not_overshoots (by omega)), exactSum, htotal]
  by_cases hneg : ns.toInt < 0
  · rw [if_pos (hsign.mpr hneg), if_pos (by omega)]
    have habs : -(ns.toInt.natAbs : Int) = ns.toInt := by omega
    rw [habs]
  rw [if_neg (fun heq => hneg (hsign.mp heq)), if_pos (by omega)]
  have habs : (ns.toInt.natAbs : Int) = ns.toInt := by omega
  rw [habs]

/-- The text of the limit in nanoseconds, twice. -/
def limitTwice : String := "9223372036854775808ns9223372036854775808ns"

def limitComponent : Component where
  digits := "9223372036854775808".toList
  unit := (['n', 's'], 1)
  digits_ne := by decide
  isDigit := all_iff_forall_prop.mp (by decide)
  isUnit := by decide

def limitTwiceText : DurationText limitTwice where
  sign := []
  components := [limitComponent, limitComponent]
  isSign := .inl rfl
  components_ne := by simp
  eq := by decide +kernel

/-- The sum is 2^64, which wraps to nothing and is returned as 0. -/
theorem limit_twice_is_zero :
    parseDurationNs (fun _ _ _ => 0) limitTwice = (some 0, true) ∧
      exactSum limitTwiceText.sign limitTwiceText.components = none := by
  decide +kernel

end

end Waterdisco.Validation
