import Mathlib.Tactic.SplitIfs

/-!
# What the core's regex engine does not support

`validationRe2Unsupported` scans a pattern once, from left to right.  It keeps the weight of the
last atom (the product of the counts of the repeats nested in it) and, for each open group, the
largest weight in the group so far.

    step s c rest      one turn of the loop, at `c`
    unsupported p      what is reported of a pattern
-/

namespace Waterdisco.Re2

open List Option Nat Prod

abbrev Text := List Char

def digit (c : Char) : Bool := '0' ≤ c && c ≤ '9'

def hexDigit (c : Char) : Bool := digit c || ('a' ≤ c && c ≤ 'f') || ('A' ≤ c && c ≤ 'F')

def asciiAlnum (c : Char) : Bool := digit c || ('a' ≤ c && c ≤ 'z') || ('A' ≤ c && c ≤ 'Z')

/-- What is before and behind the first place of `mark`, as `indexOf` finds it. -/
def cutAt (mark : Text) : Text → Option (Text × Text)
  | [] => if mark.isEmpty then some ([], []) else none
  | c :: rest =>
    if mark.isPrefixOf (c :: rest) then some ([], (c :: rest).drop mark.length)
    else (cutAt mark rest).map (fun parts => (c :: parts.1, parts.2))

/-- The value of decimal digits. -/
def decimal (digits : Text) : Nat := digits.foldl (fun n c => 10 * n + (c.toNat - '0'.toNat)) 0

def hexDigitValue (c : Char) : Nat :=
  if digit c then c.toNat - '0'.toNat
  else if 'a' ≤ c then c.toNat - 'a'.toNat + 10
  else c.toNat - 'A'.toNat + 10

def hexadecimal (digits : Text) : Nat := digits.foldl (fun n c => 16 * n + hexDigitValue c) 0

/-! ## Escapes -/

/-- What an escape or a group leaves of the pattern, and what of it is not supported. -/
structure Scanned where
  bad : Text := []
  rest : Text

/-- Go knows Unicode categories and scripts; the lookup ignores `_`, `-` and blanks. -/
def badProperty (name : Text) : Bool :=
  let name := if name.head? = some '^' then name.tail else name
  let name := name.dropWhile (fun c => c == '_' || c == '-' || c == ' ')
  name.head? == some 'X' || name.head? == some 'x' || name.any (fun c => c == '&' || c == ':' || c == '=')

/-- `\p` and `\P`; `d` is the letter. -/
def property (d : Char) (text : Text) : Scanned :=
  match text with
  | [] => ⟨[], []⟩
  | '{' :: inner =>
    match cutAt ['}'] inner with
    | none => ⟨[], text⟩
    | some (name, rest) => ⟨if badProperty name then '\\' :: d :: '{' :: (name ++ ['}']) else [], rest⟩
  | c :: rest => ⟨if badProperty [c] then ['\\', d, c] else [], rest⟩

/-- `\x` with exactly two hex digits, or one or more in braces up to 10FFFF. -/
def hexEscape (text : Text) : Scanned :=
  match text with
  | '{' :: inner =>
    match cutAt ['}'] inner with
    | none => ⟨'\\' :: 'x' :: text, []⟩
    | some (digits, rest) =>
      if !digits.isEmpty && digits.all hexDigit && hexadecimal digits ≤ 0x10FFFF then ⟨[], rest⟩
      else ⟨'\\' :: 'x' :: '{' :: (digits ++ ['}']), rest⟩
  | a :: b :: rest => if hexDigit a && hexDigit b then ⟨[], rest⟩ else ⟨['\\', 'x', a, b], text⟩
  | _ => ⟨'\\' :: 'x' :: text, text⟩

def plainEscapes : List Char := ['d', 'D', 's', 'S', 'w', 'W', 'a', 'f', 'n', 'r', 't', 'v', '0']

def assertions : List Char := ['A', 'b', 'B', 'z']

def octalDigit (c : Char) : Bool := '0' ≤ c && c ≤ '7'

/-- `validationRe2Escape`: the backslash is followed by `d` and `rest`. -/
def escape (inClass : Bool) (d : Char) (rest : Text) : Scanned :=
  if d.toNat < 0x80 && !asciiAlnum d then ⟨[], rest⟩
  else if d = 'p' ∨ d = 'P' then property d rest
  else if d = 'x' then hexEscape rest
  else if d ∈ plainEscapes then ⟨[], rest⟩
  else if d ∈ assertions ∧ inClass = false then ⟨[], rest⟩
  else if octalDigit d && rest.head?.any octalDigit then ⟨[], rest⟩
  else ⟨['\\', d], rest⟩

/-! ## Groups -/

def captureName (name : Text) : Bool := !name.isEmpty && name.all (fun c => asciiAlnum c || c == '_')

structure Group where
  bad : Text := []
  rest : Text
  opens : Bool := true

/-- The loop over flags; `seen` is what was read, backwards. -/
def flagsLoop (negated sawFlag : Bool) (seen : Text) : Text → Option Group
  | [] => none
  | f :: rest =>
    let token := '(' :: '?' :: (f :: seen).reverse
    if f = ':' ∨ f = ')' then
      if negated && !sawFlag then some ⟨token, rest, true⟩ else some ⟨[], rest, decide (f = ':')⟩
    else if f = '-' then
      if negated then some ⟨token, rest, true⟩ else flagsLoop true false (f :: seen) rest
    else if f = 'i' ∨ f = 'm' ∨ f = 's' ∨ f = 'U' then flagsLoop negated true (f :: seen) rest
    else some ⟨token, rest, true⟩

/-- What Go never has behind `(?`. -/
def notGo : List Char := ['=', '!', '>', '(', '#', '|', '\'', 'R', '&', '+']

/-- The refusal of so much of the text behind `(?`. -/
def groupToken (rest : Text) (length : Nat) : Group := ⟨'(' :: '?' :: rest.take length, rest, true⟩

def namedGroup (nameStart : Nat) (rest : Text) : Group :=
  match cutAt ['>'] rest with
  | none => ⟨[], rest, true⟩
  | some (before, after) =>
    if captureName (before.drop nameStart) then ⟨[], after, true⟩ else groupToken rest (before.length + 1)

/-- `validationRe2Group`, behind `(?`. -/
def group (rest : Text) : Group :=
  let c0 := rest.headD '\x00'
  let c1 := rest.tail.headD '\x00'
  if c0 = 'P' ∧ c1 = '<' then namedGroup 2 rest
  else if c0 = '<' ∧ c1 ≠ '=' ∧ c1 ≠ '!' then namedGroup 1 rest
  else if c0 = '<' ∨ c0 = 'P' ∧ (c1 = '=' ∨ c1 = '>') ∨ c0 = '-' ∧ digit c1 = true then groupToken rest 2
  else if c0 ∈ notGo ∨ digit c0 = true then groupToken rest 1
  else (flagsLoop false false [] rest).getD ⟨[], rest, true⟩

/-! ## Repeats -/

/-- A number without a leading zero, and what follows; a longer one is only known to be large. -/
def repeatNumber (text : Text) : Option (Nat × Text) :=
  let digits := text.takeWhile digit
  if digits.isEmpty || (digits.length > 1 && digits.head? == some '0') then none
  else some (if digits.length > 7 then 100000000 else decimal digits, text.dropWhile digit)

/-- The maximum behind the minimum: the same, an open one (`none`) or a number of its own. -/
def repeatMax (min : Nat) (after : Text) : Option (Option Nat × Text) :=
  match after with
  | ',' :: rest =>
    if rest.head? = some '}' then some (none, rest)
    else (repeatNumber rest).map (fun number => (some number.1, number.2))
  | _ => some (some min, after)

/-- `validationRepeatEnd`, behind the brace; `none` is a literal brace. -/
def repeatEnd (text : Text) : Option (Nat × Option Nat × Text) :=
  match repeatNumber text with
  | none => none
  | some (min, after) =>
    match repeatMax min after with
    | some (max, '}' :: rest) => some (min, max, rest)
    | _ => none

/-! ## The scan -/

inductive Report where
  | unsupported (token : Text)
  | tooManyRepeats

def Report.text : Report → String
  | .unsupported token => "The core's regex engine (RE2) does not support \"" ++ String.ofList token ++ "\"."
  | .tooManyRepeats =>
    "The core's regex engine (RE2) allows at most 1000 repetitions, counting nested repeats multiplied together."

structure Scan where
  /-- The largest weights of the open groups, the innermost first. -/
  groups : List Nat := [1]
  last : Nat := 0
  inClass : Bool := false
  /-- Nothing of the class was read. -/
  classStart : Bool := false

def Scan.commit (s : Scan) : Scan :=
  match s.groups with
  | [] => { s with last := 0 }
  | g :: groups => { s with groups := max g s.last :: groups, last := 0 }

def Scan.atom (s : Scan) : Scan := { s.commit with last := 1 }

inductive Step where
  | stop (report : Option Report)
  | go (s : Scan) (rest : Text)

/-- A `?` behind a repeat makes it lazy. -/
def skipLazy (rest : Text) : Text := if rest.head? = some '?' then rest.tail else rest

open Step

def classStep (s : Scan) (c : Char) (rest : Text) : Step :=
  let plain := go { s with inClass := !(c == ']' && !s.classStart), classStart := false } rest
  if c = '[' ∧ rest.head? = some ':' then
    match cutAt [':', ']'] rest.tail with
    | some (_, after) => .go { s with classStart := false } after
    | none => plain
  else plain

/-- An escape is an atom, or a part of a class. -/
def Scan.pastEscape (s : Scan) : Scan := if s.inClass then { s with classStart := false } else s.atom

def backslashStep (s : Scan) (rest : Text) : Step :=
  match rest with
  | [] => .stop none
  | d :: rest =>
    if d = 'Q' ∧ s.inClass = false then
      match cutAt ['\\', 'E'] rest with
      | none => .stop none
      | some (_, after) => .go s.pastEscape after
    else if (escape s.inClass d rest).bad.isEmpty then .go s.pastEscape (escape s.inClass d rest).rest
    else .stop (some (.unsupported (escape s.inClass d rest).bad))

def openStep (s : Scan) (rest : Text) : Step :=
  if rest.head? = some '*' then
    match cutAt [')'] rest with
    | none => .stop (some (.unsupported ['(', '*']))
    | some (before, _) => .stop (some (.unsupported ('(' :: (before ++ [')']))))
  else if rest.head? = some '?' then
    let found := group rest.tail
    if !found.bad.isEmpty then .stop (some (.unsupported found.bad))
    else if found.opens then .go { s.commit with groups := 1 :: s.commit.groups } found.rest
    else .go s.commit found.rest
  else .go { s.commit with groups := 1 :: s.commit.groups } rest

def closeStep (s : Scan) (rest : Text) : Step :=
  match s.commit.groups with
  | g :: h :: groups => .go { s.commit with groups := h :: groups, last := g } rest
  | _ => .go s.commit rest

/-- A counted repeat that ends before `after`; `token` is its text. -/
def countedStep (s : Scan) (min : Nat) (max : Option Nat) (token after : Text) : Step :=
  if 1000 < min ∨ max.any (1000 < ·) then .stop (some .tooManyRepeats)
  else if after.head? = some '+' then .stop (some (.unsupported (token ++ ['+'])))
  else if max = some 0 then .go { s with last := 1 } (skipLazy after)
  else if 1 < max.getD min then
    if 1000 < s.last * max.getD min then .stop (some .tooManyRepeats)
    else .go { s with last := s.last * max.getD min } (skipLazy after)
  else .go s (skipLazy after)

/-- One turn of the loop. -/
def step (s : Scan) (c : Char) (rest : Text) : Step :=
  if c = '\\' then backslashStep s rest
  else if s.inClass then classStep s c rest
  else if c = '[' then
    .go { s.atom with inClass := true, classStart := true } (if rest.head? = some '^' then rest.tail else rest)
  else if c = '(' then openStep s rest
  else if c = ')' then closeStep s rest
  else if c = '|' then .go s.commit rest
  else if c = '*' ∨ c = '+' ∨ c = '?' then
    if rest.head? = some '+' then .stop (some (.unsupported [c, '+'])) else .go s (skipLazy rest)
  else if c = '{' then
    match repeatEnd rest with
    | none => .go s.atom rest
    | some (min, max, after) => countedStep s min max ((c :: rest).take (rest.length + 1 - after.length)) after
  else .go s.atom rest

/-- The loop; each turn reads something, so the length of the pattern is fuel enough. -/
def scan : Nat → Scan → Text → Option Report
  | _, _, [] => none
  | 0, _, _ :: _ => none
  | fuel + 1, s, c :: rest =>
    match step s c rest with
    | .stop report => report
    | .go s rest => scan fuel s rest

/-- `validationRe2Unsupported` -/
def unsupported (p : Text) : Option Report := scan p.length {} p

/-! ## Every turn reads something -/

variable {t rest after rest' : Text} {min : Nat} {max : Option Nat} {s s' : Scan}

theorem cutAt_length {mark a b : Text} (h : cutAt mark t = some (a, b)) :
    a.length + mark.length + b.length = t.length := by
  induction t generalizing a with
  | nil =>
    rw [cutAt] at h
    split_ifs at h with hmark
    · simp only [some.injEq, mk.injEq] at h
      obtain ⟨rfl, rfl⟩ := h
      simp [isEmpty_iff.mp hmark]
  | cons c t ih =>
    rw [cutAt] at h
    split_ifs at h with hprefix
    · simp only [some.injEq, mk.injEq] at h
      obtain ⟨rfl, rfl⟩ := h
      have hle := ( isPrefixOf_iff_prefix.mp hprefix).length_le
      simp only [length_nil, length_drop]
      omega
    · obtain ⟨⟨a', b'⟩, hcut, hparts⟩ := map_eq_some_iff.mp h
      simp only [mk.injEq] at hparts
      obtain ⟨rfl, rfl⟩ := hparts
      have hlen := ih hcut
      simp only [length_cons]
      omega

theorem property_length (d : Char) (text : Text) : (property d text).rest.length ≤ text.length := by
  unfold property
  split
  · exact .refl
  · rename_i inner
    cases hcut : cutAt ['}'] inner with
    | none => exact .refl
    | some parts =>
      have hlen := cutAt_length hcut
      simp only [length_cons, length_nil] at hlen ⊢
      omega
  · simp

theorem hexEscape_length (text : Text) : (hexEscape text).rest.length ≤ text.length := by
  unfold hexEscape
  split
  · rename_i inner
    cases hcut : cutAt ['}'] inner with
    | none => simp
    | some parts =>
      have hlen := cutAt_length hcut
      simp only [length_cons, length_nil] at hlen ⊢
      split_ifs <;> simp only <;> omega
  · split_ifs <;> simp
    omega
  · exact .refl

theorem escape_length (inClass : Bool) (d : Char) (rest : Text) : (escape inClass d rest).rest.length ≤ rest.length := by
  unfold escape
  split_ifs
  · exact .refl
  · exact property_length d rest
  · exact hexEscape_length rest
  all_goals exact .refl

theorem flagsLoop_length {negated sawFlag : Bool} {seen : Text} {found : Group}
    (h : flagsLoop negated sawFlag seen t = some found) : found.rest.length ≤ t.length := by
  induction t generalizing negated sawFlag seen with
  | nil => exact absurd h (by simp [flagsLoop])
  | cons f t ih =>
    have hread {found' : Group} (hfound : some found' = some found) (hrest : found'.rest = t) :
        found.rest.length ≤ (f :: t).length := by
      rw [← some.inj hfound, hrest]
      exact le_succ _
    rw [flagsLoop] at h
    split_ifs at h
    · exact hread h rfl
    · exact hread h rfl
    · exact hread h rfl
    · exact le_succ_of_le (ih h)
    · exact le_succ_of_le (ih h)
    · exact hread h rfl

theorem namedGroup_length (nameStart : Nat) (rest : Text) : (namedGroup nameStart rest).rest.length ≤ rest.length := by
  unfold namedGroup
  cases hcut : cutAt ['>'] rest with
  | none => exact .refl
  | some parts =>
    have hlen := cutAt_length hcut
    dsimp only
    split_ifs
    · simp only
      omega
    · exact .refl

theorem group_length (rest : Text) : (group rest).rest.length ≤ rest.length := by
  unfold group
  dsimp only
  split_ifs
  · exact namedGroup_length 2 rest
  · exact namedGroup_length 1 rest
  · exact .refl
  · exact .refl
  cases hloop : flagsLoop false false [] rest with
  | none => exact .refl
  | some found =>
    rw [getD_some]
    exact flagsLoop_length hloop

theorem repeatNumber_length {text : Text} {n : Nat} (h : repeatNumber text = some (n, after)) :
    after.length ≤ text.length := by
  unfold repeatNumber at h
  dsimp only at h
  split_ifs at h
  all_goals
    simp only [some.injEq, mk.injEq] at h
    exact h.2 ▸ (dropWhile_sublist digit).length_le

theorem repeatMax_length (h : repeatMax min after = some (max, rest)) :
    rest.length ≤ after.length := by
  unfold repeatMax at h
  split at h
  · rename_i text
    split_ifs at h
    · simp only [some.injEq, mk.injEq] at h
      simp [h.2]
    obtain ⟨⟨n, rest'⟩, hnumber, hparts⟩ := map_eq_some_iff.mp h
    simp only [mk.injEq] at hparts
    exact le_succ_of_le (hparts.2 ▸ repeatNumber_length hnumber)
  · simp only [some.injEq, mk.injEq] at h
    simp [h.2]

theorem repeatEnd_length {text : Text} (h : repeatEnd text = some (min, max, rest)) :
    rest.length ≤ text.length := by
  unfold repeatEnd at h
  split at h
  · cases h
  rename_i hnumber
  split at h
  · rename_i hmax
    simp only [some.injEq, mk.injEq] at h
    obtain ⟨-, -, rfl⟩ := h
    have hbrace := repeatMax_length hmax
    rw [length_cons] at hbrace
    exact Nat.le_trans (Nat.le_of_succ_le hbrace) (repeatNumber_length hnumber)
  · cases h

theorem skipLazy_length (rest : Text) : (skipLazy rest).length ≤ rest.length := by
  unfold skipLazy
  split_ifs
  · exact length_tail ▸ sub_le _ _
  · exact .refl

theorem classStep_length {c : Char} (h : classStep s c rest = .go s' rest') :
    rest'.length ≤ rest.length := by
  unfold classStep at h
  dsimp only at h
  split_ifs at h
  · split at h
    · rename_i hcut
      obtain ⟨-, rfl⟩ := go.inj h
      have hlen := cutAt_length hcut
      rw [length_tail] at hlen
      omega
    · exact (go.inj h).2 ▸ .refl
  · exact (go.inj h).2 ▸ .refl

theorem backslashStep_length (h : backslashStep s rest = .go s' rest') :
    rest'.length ≤ rest.length := by
  unfold backslashStep at h
  cases rest with
  | nil => cases h
  | cons d rest =>
    dsimp only at h
    split_ifs at h
    · split at h
      · cases h
      rename_i hcut
      have hlen := cutAt_length hcut
      obtain ⟨-, rfl⟩ := go.inj h
      simp only [length_cons] at hlen ⊢
      omega
    · exact (go.inj h).2 ▸ le_succ_of_le (escape_length s.inClass d rest)

theorem openStep_length (h : openStep s rest = .go s' rest') :
    rest'.length ≤ rest.length := by
  have htail : (group rest.tail).rest.length ≤ rest.length := by
    have hlen := group_length rest.tail
    rw [length_tail] at hlen
    omega
  unfold openStep at h
  dsimp only at h
  split_ifs at h
  · split at h <;> cases h
  · exact (go.inj h).2 ▸ htail
  · exact (go.inj h).2 ▸ htail
  · exact (go.inj h).2 ▸ .refl

theorem countedStep_length {token : Text}
    (h : countedStep s min max token after = .go s' rest') : rest'.length ≤ after.length := by
  unfold countedStep at h
  split_ifs at h <;> exact (go.inj h).2 ▸ skipLazy_length after

theorem step_length {c : Char} (h : step s c rest = .go s' rest') :
    rest'.length ≤ rest.length := by
  unfold step at h
  by_cases hbackslash : c = '\\'
  · rw [if_pos hbackslash] at h
    exact backslashStep_length h
  rw [if_neg hbackslash] at h
  by_cases hclass : s.inClass = true
  · rw [if_pos hclass] at h
    exact classStep_length h
  rw [if_neg hclass] at h
  by_cases hopenClass : c = '['
  · rw [if_pos hopenClass] at h
    obtain ⟨-, rfl⟩ := go.inj h
    split_ifs
    · exact length_tail ▸ sub_le _ _
    · exact .refl
  rw [if_neg hopenClass] at h
  by_cases hopen : c = '('
  · rw [if_pos hopen] at h
    exact openStep_length h
  rw [if_neg hopen] at h
  by_cases hclose : c = ')'
  · rw [if_pos hclose] at h
    unfold closeStep at h
    split at h <;> exact (go.inj h).2 ▸ .refl
  rw [if_neg hclose] at h
  by_cases hbar : c = '|'
  · rw [if_pos hbar] at h
    exact (go.inj h).2 ▸ .refl
  rw [if_neg hbar] at h
  by_cases hrepeat : c = '*' ∨ c = '+' ∨ c = '?'
  · rw [if_pos hrepeat] at h
    split_ifs at h
    exact (go.inj h).2 ▸ skipLazy_length rest
  rw [if_neg hrepeat] at h
  by_cases hbrace : c = '{'
  · rw [if_pos hbrace] at h
    split at h
    · exact (go.inj h).2 ▸ .refl
    · rename_i hend
      exact Nat.le_trans (countedStep_length h) (repeatEnd_length hend)
  · rw [if_neg hbrace] at h
    exact (go.inj h).2 ▸ .refl

theorem scan_fuel {fuel : Nat} (h : t.length ≤ fuel) : scan fuel s t = scan t.length s t := by
  induction fuel using Nat.strongRecOn generalizing s t with
  | ind fuel ih =>
    cases t with
    | nil => cases fuel <;> rfl
    | cons c rest =>
      obtain ⟨fuel, rfl⟩ := Nat.exists_eq_add_one_of_ne_zero (Nat.ne_of_gt (Nat.lt_of_lt_of_le (Nat.succ_pos _) h))
      rw [length_cons] at h ⊢
      rw [scan, scan]
      cases hstep : step s c rest with
      | stop report => rfl
      | go s' rest' =>
        have hlen := step_length hstep
        have hleft := ih fuel (by omega) (s := s') (t := rest') (by omega)
        have hright := ih rest.length (by omega) (s := s') (t := rest') hlen
        exact hleft.trans hright.symm

end Waterdisco.Re2
