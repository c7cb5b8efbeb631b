import Waterdisco.Global.Re2

/-!
# Go's regular expressions

The grammar of Go's `regexp/syntax` for literals, escapes, classes, groups, alternation and
repeats, and the limit that it puts on repeats.

    Parses part s s' r     the text `s` down to its end `s'` is the expression `r`
    Regex.weight r         the largest product of the counts of repeats nested in one another
    Regex.TooMany r        a count or such a product is above 1000
    tooMany_iff_refused    it is what Go refuses
-/

namespace Waterdisco.Re2

/-- A repeat: `*`, `+` and `?`, or counts in braces. -/
inductive Rep where
  | simple
  | counted (min : Nat) (max : Option Nat)
deriving DecidableEq

/-- What adds no atom. -/
inductive Gap where
  | flags
  | emptyQuote
deriving DecidableEq

/-- What the weights of an expression depend on. -/
inductive Regex where
  | empty
  /-- A literal, an escape or a quoted text. -/
  | atom
  /-- `strays`: a range in the class ends in a bracket that looks like the start of a named class. -/
  | cls (strays : Bool)
  | group (body : Regex)
  /-- `behind`: the last gap before the repeat. -/
  | repeated (x : Regex) (behind : Option Gap) (rep : Rep)
  | concat (x y : Regex)
  | alternate (x y : Regex)

/-! ## Repeats nested in one another -/

/-- The largest product with one more repeat around; `{0}` cuts off what is below it. -/
def Rep.times (weight : Nat) : Rep → Nat
  | .simple => weight
  | .counted min max => if max = some 0 then 1 else Max.max 1 (max.getD min) * weight

/-- A count is above 1000. -/
def Rep.TooLarge : Rep → Prop
  | .simple => False
  | .counted min max => 1000 < min ∨ max.any (1000 < ·) = true

instance : (rep : Rep) → Decidable rep.TooLarge
  | .simple => inferInstanceAs (Decidable False)
  | .counted _ _ => inferInstanceAs (Decidable (_ ∨ _))

namespace Regex

def weight : Regex → Nat
  | empty | atom | cls _ => 1
  | group body => body.weight
  | repeated x _ rep => rep.times x.weight
  | concat x y | alternate x y => max x.weight y.weight

/-- Some count, or some product of counts, is above 1000. -/
def TooMany : Regex → Prop
  | empty | atom | cls _ => False
  | group body => body.TooMany
  | repeated x _ rep => x.TooMany ∨ rep.TooLarge ∨ 1000 < rep.times x.weight
  | concat x y | alternate x y => x.TooMany ∨ y.TooMany

instance decidableTooMany : (r : Regex) → Decidable r.TooMany
  | empty | atom | cls _ => inferInstanceAs (Decidable False)
  | group body => decidableTooMany body
  | repeated x _ _ => @instDecidableOr _ _ (decidableTooMany x) (inferInstanceAs (Decidable (_ ∨ _)))
  | concat x y | alternate x y => @instDecidableOr _ _ (decidableTooMany x) (decidableTooMany y)

/-- Go's `repeatIsValid`: at most `n` copies of the innermost thing. -/
def repeatIsValid : Regex → Nat → Bool
  | empty, _ | atom, _ | cls _, _ => true
  | group body, n => body.repeatIsValid n
  | repeated x _ .simple, n => x.repeatIsValid n
  | repeated x _ (.counted min max), n =>
    if max = some 0 then true
    else if n < max.getD min then false
    else x.repeatIsValid (if 0 < max.getD min then n / max.getD min else n)
  | concat x y, n | alternate x y, n => x.repeatIsValid n && y.repeatIsValid n

/-- Go's parser refuses a count above 1000, and calls `repeatIsValid` for every repeat of two or more. -/
def Refused : Regex → Prop
  | empty | atom | cls _ => False
  | group body => body.Refused
  | repeated x _ .simple => x.Refused
  | repeated x b (.counted min max) =>
    x.Refused ∨ (Rep.counted min max).TooLarge ∨
      ((2 ≤ min ∨ max.any (2 ≤ ·) = true) ∧ (repeated x b (.counted min max)).repeatIsValid 1000 = false)
  | concat x y | alternate x y => x.Refused ∨ y.Refused

/-- No class strays. -/
def NoStray : Regex → Prop
  | empty | atom => True
  | cls strays => strays = false
  | group body => body.NoStray
  | repeated x _ _ => x.NoStray
  | concat x y | alternate x y => x.NoStray ∧ y.NoStray

/-- The expression without the counted repeats behind flag-only groups; those above 1000 stay.  A repeat behind an
empty quote is left with an atom of its own. -/
def kept : Regex → Regex
  | empty => empty
  | atom => atom
  | cls strays => cls strays
  | group body => group body.kept
  | repeated x none rep => repeated x.kept none rep
  | repeated x (some .flags) rep => if rep ≠ .simple ∧ ¬rep.TooLarge then x.kept else repeated x.kept (some .flags) rep
  | repeated x (some .emptyQuote) rep => concat x.kept (repeated atom none rep)
  | concat x y => concat x.kept y.kept
  | alternate x y => alternate x.kept y.kept

end Regex

theorem Rep.times_pos {weight : Nat} (h : 0 < weight) (rep : Rep) : 0 < rep.times weight := by
  cases rep with
  | simple => exact h
  | counted min max =>
    rw [Rep.times]
    split_ifs
    · exact Nat.one_pos
    · exact Nat.mul_pos (Nat.le_max_left 1 _) h

theorem Regex.weight_pos (r : Regex) : 0 < r.weight := by
  induction r with
  | empty | atom | cls => exact Nat.one_pos
  | group body ih => exact ih
  | repeated x b rep ih => exact Rep.times_pos ih rep
  | concat x y ihx | alternate x y ihx => exact Nat.lt_of_lt_of_le ihx (Nat.le_max_left _ _)

open Regex

/-- Dividing what is left by each count is comparing the product. -/
theorem Regex.repeatIsValid_iff (r : Regex) {n : Nat} (hn : 0 < n) : r.repeatIsValid n = true ↔ r.weight ≤ n := by
  induction r generalizing n with
  | empty | atom | cls => exact ⟨fun _ => hn, fun _ => rfl⟩
  | group body ih => exact ih hn
  | repeated x b rep ih =>
    cases rep with
    | simple => exact ih hn
    | counted min max =>
      rw [repeatIsValid, weight, Rep.times]
      by_cases hzero : max = some 0
      · simp only [hzero, if_true]
        exact ⟨fun _ => hn, fun _ => trivial⟩
      have hweight := x.weight_pos
      simp only [hzero, if_false]
      by_cases hm : 0 < max.getD min
      · have hmax : Max.max 1 (max.getD min) = max.getD min := Nat.max_eq_right hm
        rw [hmax, if_pos hm]
        by_cases hlt : n < max.getD min
        · rw [if_pos hlt]
          have hle := Nat.le_mul_of_pos_right (max.getD min) hweight
          exact ⟨by simp, fun h => absurd h (by omega)⟩
        · rw [if_neg hlt, ih (Nat.div_pos (Nat.le_of_not_lt hlt) hm), Nat.le_div_iff_mul_le hm, Nat.mul_comm]
      · have hm0 : max.getD min = 0 := Nat.eq_zero_of_not_pos hm
        have hlt : ¬n < 0 := Nat.not_lt_zero n
        rw [hm0, if_neg hlt, if_neg (Nat.lt_irrefl 0), ih hn]
        simp
  | concat x y ihx ihy | alternate x y ihx ihy =>
    rw [repeatIsValid, Bool.and_eq_true, ihx hn, ihy hn]
    exact Nat.max_le.symm

/-- An expression with a product above 1000 has too many. -/
theorem Regex.tooMany_of_weight {r : Regex} (h : 1000 < r.weight) : r.TooMany := by
  induction r with
  | empty | atom | cls =>
    rw [weight] at h
    omega
  | group body ih => exact ih h
  | repeated x b rep ih => exact .inr (.inr h)
  | concat x y ihx ihy | alternate x y ihx ihy =>
    rw [weight] at h
    by_cases hx : 1000 < x.weight
    · exact .inl (ihx hx)
    · exact .inr (ihy (by omega))

theorem Rep.times_of_small {min : Nat} {max : Option Nat} (hsmall : ¬(2 ≤ min ∨ max.any (2 ≤ ·) = true)) {weight : Nat}
    (h : 1000 < (Rep.counted min max).times weight) : 1000 < weight := by
  rw [Rep.times] at h
  split_ifs at h with hzero
  · omega
  have hm : max.getD min ≤ 1 := by
    cases max with
    | none => simp at hsmall ⊢; omega
    | some m => simp at hsmall ⊢; omega
  have hone : Max.max 1 (max.getD min) = 1 := by omega
  rwa [hone, Nat.one_mul] at h

/-- **A count or a product above 1000** is what Go refuses. -/
theorem Regex.tooMany_iff_refused (r : Regex) : r.TooMany ↔ r.Refused := by
  induction r with
  | empty | atom | cls => exact Iff.rfl
  | group body ih => exact ih
  | repeated x b rep ih =>
    cases rep with
    | simple =>
      refine ⟨?_, fun h => .inl (ih.mpr h)⟩
      rintro (h | h | h)
      · exact ih.mp h
      · exact h.elim
      · exact ih.mp (tooMany_of_weight h)
    | counted min max =>
      have hvalid := (repeated x b (.counted min max)).repeatIsValid_iff (n := 1000) (by decide)
      have hinvalid : (repeated x b (.counted min max)).repeatIsValid 1000 = false ↔
          1000 < (Rep.counted min max).times x.weight := by
        rw [← Bool.not_eq_true, hvalid, Nat.not_le]
        rfl
      rw [TooMany, Refused, ih, hinvalid]
      constructor
      · rintro (h | h | h)
        · exact .inl h
        · exact .inr (.inl h)
        · by_cases hbig : 2 ≤ min ∨ max.any (2 ≤ ·) = true
          · exact .inr (.inr ⟨hbig, h⟩)
          · exact .inl (ih.mp (tooMany_of_weight (Rep.times_of_small hbig h)))
      · rintro (h | h | h)
        · exact .inl h
        · exact .inr (.inl h)
        · exact .inr (.inr h.2)
  | concat x y ihx ihy | alternate x y ihx ihy => exact or_congr ihx ihy

/-! ## Grammar -/

/-- A decimal number without a leading zero. -/
def Number (t : Text) (n : Nat) : Prop :=
  t ≠ [] ∧ t.all digit = true ∧ (1 < t.length → t.head? ≠ some '0') ∧ n = decimal t

/-- What stands between the braces of a repeat. -/
inductive Counts : Text → Nat → Option Nat → Prop where
  | exact {t : Text} {n : Nat} : Number t n → Counts t n (some n)
  | atLeast {t : Text} {n : Nat} : Number t n → Counts (t ++ [',']) n none
  | range {t u : Text} {n m : Nat} : Number t n → Number u m → Counts (t ++ ',' :: u) n (some m)

/-- A brace is followed by counts. -/
def CountsAhead (s : Text) : Prop := ∃ t min max rest, Counts t min max ∧ s = t ++ '}' :: rest

/-- A repeat comes next. -/
def RepeatAhead (s : Text) : Prop :=
  s.head? = some '*' ∨ s.head? = some '+' ∨ s.head? = some '?' ∨ ∃ rest, s = '{' :: rest ∧ CountsAhead rest

inductive Operator : Text → Text → Rep → Prop where
  | simple {c : Char} {s : Text} : c = '*' ∨ c = '+' ∨ c = '?' → Operator (c :: s) s .simple
  | counted {t s : Text} {min : Nat} {max : Option Nat} : Counts t min max → (∀ m ∈ max, min ≤ m) →
      Operator ('{' :: (t ++ '}' :: s)) s (.counted min max)

/-- A repeat, which Go does not let another one follow at once. -/
inductive Repeat : Text → Text → Rep → Prop where
  | greedy {s s' : Text} {rep : Rep} : Operator s s' rep → ¬RepeatAhead s' → Repeat s s' rep
  | lazy {s s' : Text} {rep : Rep} : Operator s ('?' :: s') rep → ¬RepeatAhead s' → Repeat s s' rep

/-- An escape for one character, behind its backslash. -/
inductive CharEscape : Text → Text → Prop where
  | mark {c : Char} {s : Text} : c.toNat < 0x80 → asciiAlnum c = false → CharEscape (c :: s) s
  | letter {c : Char} {s : Text} : c ∈ ['a', 'f', 'n', 'r', 't', 'v'] → CharEscape (c :: s) s
  /-- Up to three octal digits, of which a single one is 0. -/
  | octal {c : Char} {digits s : Text} : octalDigit c = true → digits.all octalDigit = true → digits.length ≤ 2 →
      (digits.length < 2 → s.head?.any octalDigit = false) → (c = '0' ∨ digits ≠ []) → CharEscape (c :: (digits ++ s)) s
  | hex {a b : Char} {s : Text} : hexDigit a = true → hexDigit b = true → CharEscape ('x' :: a :: b :: s) s
  | hexBraces {digits s : Text} : digits ≠ [] → digits.all hexDigit = true → hexadecimal digits ≤ 0x10FFFF →
      CharEscape ('x' :: '{' :: (digits ++ '}' :: s)) s

/-- A property's name: letters, digits, `_`, `-` and blanks, behind a `^` or not; none starts with an X. -/
def PropertyName (name : Text) : Prop :=
  ∃ negated body, name = negated ++ body ∧ (negated = [] ∨ negated = ['^']) ∧
    (∀ c ∈ body, asciiAlnum c = true ∨ c = '_' ∨ c = '-' ∨ c = ' ') ∧
    ∀ c ∈ (body.dropWhile (fun c => c == '_' || c == '-' || c == ' ')).head?, c ≠ 'X' ∧ c ≠ 'x'

/-- An escape for a class of characters. -/
inductive ClassEscape : Text → Text → Prop where
  | perl {c : Char} {s : Text} : c ∈ ['d', 'D', 's', 'S', 'w', 'W'] → ClassEscape (c :: s) s
  | property {d c : Char} {s : Text} : d = 'p' ∨ d = 'P' → PropertyName [c] → ClassEscape (d :: c :: s) s
  | propertyBraces {d : Char} {name s : Text} : d = 'p' ∨ d = 'P' → PropertyName name →
      ClassEscape (d :: '{' :: (name ++ '}' :: s)) s

/-- What looks like the rest of a named class's text, behind its bracket. -/
def NamedAhead (s : Text) : Prop := ∃ a b, s = ':' :: (a ++ ':' :: ']' :: b)

/-- One character of a class; `first` lets it be a `]`. -/
inductive ClassChar (first : Bool) : Text → Text → Prop where
  | plain {c : Char} {s : Text} : c ≠ '\\' → (c = ']' → first = true) → ¬(c = '[' ∧
      NamedAhead s) → ClassChar first (c :: s) s
  | escape {s s' : Text} : CharEscape s s' → ClassChar first ('\\' :: s) s'

/-- The upper end of a range, which Go takes for a character whatever follows. -/
inductive RangeEnd : Text → Text → Bool → Prop where
  | plain {c : Char} {s : Text} : c ≠ '\\' → c ≠ ']' → ¬(c = '[' ∧ NamedAhead s) → RangeEnd (c :: s) s false
  | bracket {s : Text} : NamedAhead s → RangeEnd ('[' :: s) s true
  | escape {s s' : Text} : CharEscape s s' → RangeEnd ('\\' :: s) s' false

/-- A `-` that makes a range of what is before it. -/
def RangeAhead (s : Text) : Prop := ∃ c rest, s = '-' :: c :: rest ∧ c ≠ ']'

/-- The items of a class down to its closing bracket, and whether a range strays. -/
inductive Items : Bool → Text → Text → Bool → Prop where
  | close {s : Text} : Items false (']' :: s) s false
  | named {first b : Bool} {name s s' : Text} : ¬[':', ']'] <:+: name → Items false s s' b →
      Items first ('[' :: ':' :: (name ++ ':' :: ']' :: s)) s' b
  | classEscape {first b : Bool} {s s₁ s' : Text} : ClassEscape s s₁ → Items false s₁ s' b → Items first ('\\' :: s) s' b
  | single {first b : Bool} {s s₁ s' : Text} : ClassChar first s s₁ → ¬RangeAhead s₁ → Items false s₁ s' b →
      Items first s s' b
  | range {first strays b : Bool} {s s₁ s₂ s' : Text} : ClassChar first s ('-' :: s₁) → RangeEnd s₁ s₂ strays →
      Items false s₂ s' b → Items first s s' (strays || b)

/-- A class, behind its bracket. -/
inductive Class : Text → Text → Bool → Prop where
  | plain {s s' : Text} {b : Bool} : s.head? ≠ some '^' → Items true s s' b → Class s s' b
  | negated {s s' : Text} {b : Bool} : Items true s s' b → Class ('^' :: s) s' b

def isFlag (c : Char) : Bool := c == 'i' || c == 'm' || c == 's' || c == 'U'

/-- Flags that are set, then a `-` and flags that are cleared. -/
inductive Flags : Text → Prop where
  | set {on : Text} : on.all isFlag = true → Flags on
  | clear {on off : Text} : on.all isFlag = true → off ≠ [] → off.all isFlag = true → Flags (on ++ '-' :: off)

/-- The opening of a group, behind its parenthesis. -/
inductive Opening : Text → Text → Prop where
  | plain {s : Text} : s.head? ≠ some '?' → s.head? ≠ some '*' → Opening s s
  | named {name s : Text} : captureName name = true → Opening ('?' :: 'P' :: '<' :: (name ++ '>' :: s)) s
  | shortNamed {name s : Text} : captureName name = true → Opening ('?' :: '<' :: (name ++ '>' :: s)) s
  | flags {t s : Text} : Flags t → Opening ('?' :: (t ++ ':' :: s)) s

/-- The text behind `\Q`, up to `\E` or to the end of the pattern. -/
inductive Quoted (text : Text) : Text → Text → Prop where
  | closed {s : Text} : ¬['\\', 'E'] <:+: text → Quoted text (text ++ '\\' :: 'E' :: s) s
  | unclosed : ¬['\\', 'E'] <:+: text → Quoted text text []

/-- One or more flag-only groups and empty quotes, and which is the last. -/
inductive Gaps : Text → Text → Gap → Prop where
  | flags {t s : Text} : Flags t → Gaps ('(' :: '?' :: (t ++ ')' :: s)) s .flags
  | emptyQuote {s s' : Text} : Quoted [] s s' → Gaps ('\\' :: 'Q' :: s) s' .emptyQuote
  | more {s s₁ s' : Text} {gap gap' : Gap} : Gaps s s₁ gap → Gaps s₁ s' gap' → Gaps s s' gap'

/-- A piece is a base with its repeats. -/
inductive Part where
  | base
  | piece
  | concat
  | regex

/-- The characters that are not literals. -/
def special : List Char := ['\\', '*', '+', '?', '(', ')', '[', '{', '|']

/-- The text from the first place down to the second is the part. -/
inductive Parses : Part → Text → Text → Regex → Prop where
  | literal {c : Char} {s : Text} : c ∉ special → Parses .base (c :: s) s .atom
  | brace {s : Text} : ¬CountsAhead s → Parses .base ('{' :: s) s .atom
  | charEscape {s s' : Text} : CharEscape s s' → Parses .base ('\\' :: s) s' .atom
  | classEscape {s s' : Text} : ClassEscape s s' → Parses .base ('\\' :: s) s' .atom
  | assertion {c : Char} {s : Text} : c ∈ assertions → Parses .base ('\\' :: c :: s) s .atom
  | quote {text s s' : Text} : text ≠ [] → Quoted text s s' → Parses .base ('\\' :: 'Q' :: s) s' .atom
  | cls {s s' : Text} {strays : Bool} : Class s s' strays → Parses .base ('[' :: s) s' (.cls strays)
  | group {s s₁ s' : Text} {body : Regex} : Opening s s₁ → Parses .regex s₁ (')' :: s') body →
      Parses .base ('(' :: s) s' (.group body)
  | base {s s' : Text} {x : Regex} : Parses .base s s' x → Parses .piece s s' x
  | repeated {s s₁ s' : Text} {x : Regex} {rep : Rep} : Parses .base s s₁ x → Repeat s₁ s' rep →
      Parses .piece s s' (.repeated x none rep)
  | behind {s s₁ s₂ s' : Text} {x : Regex} {gap : Gap} {rep : Rep} : Parses .piece s s₁ x → Gaps s₁ s₂ gap →
      Repeat s₂ s' rep → Parses .piece s s' (.repeated x (some gap) rep)
  | nil {s : Text} : Parses .concat s s .empty
  | gaps {s s₁ s' : Text} {x : Regex} {gap : Gap} : Gaps s s₁ gap → Parses .concat s₁ s' x → Parses .concat s s' x
  | next {s s₁ s' : Text} {x y : Regex} : Parses .piece s s₁ x → Parses .concat s₁ s' y → Parses .concat s s' (.concat x y)
  | last {s s' : Text} {x : Regex} : Parses .concat s s' x → Parses .regex s s' x
  | alternate {s s₁ s' : Text} {x y : Regex} : Parses .concat s ('|' :: s₁) x → Parses .regex s₁ s' y →
      Parses .regex s s' (.alternate x y)

end Waterdisco.Re2
