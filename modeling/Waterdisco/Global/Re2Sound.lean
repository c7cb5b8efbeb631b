import Mathlib.Algebra.Ring.Int.Defs
import Mathlib.Algebra.Ring.Nat
import Mathlib.Data.Bool.AllAny
import Waterdisco.Global.Re2Syntax

/-!
# What the scan reports of Go's regular expressions

A repeat multiplies the weight that the scan has last; behind a flag-only group that weight is
gone and behind an empty quote it is that of an atom, so the scan judges another expression
(`Regex.kept`).

    result s t                 what is reported from a place on
    Exact s s' x               the scan leaves the part with its weight in `last`
    Judges s s' x              it leaves it with its weight in `last` or in the group
    reports_iff_kept           when the report is right
-/

namespace Waterdisco.Re2

open List Prod Nat Regex Rep

/-- What is reported of the rest of a pattern. -/
def result (s : Scan) (t : Text) : Option Report := scan t.length s t

variable {c : Char} {rest rest' t a s s' name text s₁ : Text} {first : Bool} {n min : Nat} {rep : Rep} {x : Regex}

theorem result_go {s s' : Scan} (h : step s c rest = .go s' rest') :
    result s (c :: rest) = result s' rest' := by
  rw [result, length_cons, scan, h]
  exact scan_fuel (step_length h)

theorem result_stop {s : Scan} {report : Option Report} (h : step s c rest = .stop report) :
    result s (c :: rest) = report := by
  rw [result, length_cons, scan, h]

/-! ## Searching -/

theorem cutAt_eq {mark b : Text} (h : cutAt mark t = some (a, b)) : t = a ++ (mark ++ b) := by
  induction t generalizing a with
  | nil =>
    rw [cutAt] at h
    split_ifs at h with hmark
    obtain ⟨rfl, rfl⟩ := h
    simp [isEmpty_iff.mp hmark]
  | cons c t ih =>
    rw [cutAt] at h
    split_ifs at h with hprefix
    · simp only [Option.some.injEq, mk.injEq] at h
      obtain ⟨rfl, rfl⟩ := h
      obtain ⟨rest, hrest⟩ := isPrefixOf_iff_prefix.mp hprefix
      simp [← hrest]
    · obtain ⟨⟨a', b'⟩, hcut, hparts⟩ := Option.map_eq_some_iff.mp h
      obtain ⟨rfl, rfl⟩ := hparts
      rw [ih hcut, cons_append]

theorem cutAt_single (h : c ∉ a) (b : Text) : cutAt [c] (a ++ c :: b) = some (a, b) := by
  induction a with
  | nil => simp [cutAt]
  | cons x a ih =>
    rw [mem_cons, not_or] at h
    simp [cutAt, h.1, ih h.2]

theorem cutAt_pair {x y : Char} (hxy : x ≠ y) (h : ¬[x, y] <:+: a) (b : Text) :
    cutAt [x, y] (a ++ x :: y :: b) = some (a, b) := by
  induction a with
  | nil => simp [cutAt]
  | cons c a ih =>
    have hrest : ¬[x, y] <:+: a := fun hin => h (hin.trans (suffix_cons c a).isInfix)
    have hprefix : [x, y].isPrefixOf (c :: (a ++ x :: y :: b)) = false := by
      rw [Bool.eq_false_iff]
      intro hpre
      obtain ⟨rest, hrest⟩ := isPrefixOf_iff_prefix.mp hpre
      simp only [cons_append, nil_append, cons.injEq] at hrest
      obtain ⟨rfl, hrest⟩ := hrest
      cases a with
      | nil =>
        simp only [nil_append, cons.injEq] at hrest
        exact hxy hrest.1.symm
      | cons d a =>
        obtain ⟨rfl, -⟩ := hrest
        exact h ⟨[], a, rfl⟩
    rw [cons_append, cutAt, hprefix, ih hrest]
    rfl

/-! ## Escapes -/

theorem not_mem_of_all {p : Char → Bool} (hc : p c = false) (h : t.all p = true) : c ∉ t := by
  intro hmem
  rw [all_eq_true.mp h c hmem] at hc
  cases hc

theorem octal_facts (h : octalDigit c = true) :
    digit c = true ∧ c ∉ special ∧ c ≠ ']' ∧ c ≠ 'Q' ∧ c ≠ 'p' ∧ c ≠ 'P' ∧ c ≠ 'x' ∧
      c ∉ assertions ∧ (c ≠ '0' → c ∉ plainEscapes) := by
  have hrange : '0' ≤ c ∧ c ≤ '7' := by simpa [octalDigit] using h
  have hother : ∀ x : Char, octalDigit x = false → c ≠ x := by
    rintro x hx rfl
    rw [h] at hx
    cases hx
  have hnone : ∀ l : List Char, (∀ x ∈ l, octalDigit x = false) → c ∉ l := fun l hl hmem => hother c (hl c hmem) rfl
  refine ⟨?_, hnone _ (all_iff_forall_prop.mp (by decide)), hother _ (by decide),
    hother _ (by decide), hother _ (by decide), hother _ (by decide),
    hother _ (by decide), hnone _ (all_iff_forall_prop.mp (by decide)), ?_⟩
  · have h9 : c ≤ '9' := Nat.le_trans hrange.2 (by decide)
    simp [digit, hrange.1, h9]
  · intro h0 hmem
    have hrest : ∀ x ∈ plainEscapes, octalDigit x = true → x = '0' := all_iff_forall_prop.mp (by decide)
    exact h0 (hrest c hmem h)

theorem CharEscape.scanned (h : CharEscape s s') (inClass : Bool) :
    ∃ d rest extra, s = d :: rest ∧ d ≠ 'Q' ∧ extra.all octalDigit = true ∧
      escape inClass d rest = ⟨[], extra ++ s'⟩ := by
  cases h with
  | @mark c s hascii halnum =>
    refine ⟨c, _, [], rfl, ?_, rfl, ?_⟩
    · rintro rfl
      cases halnum
    · have hcond : (decide (c.toNat < 0x80) && !asciiAlnum c) = true := by simp [hascii, halnum]
      rw [escape, if_pos hcond]
      rfl
  | @letter c s hc =>
    have hfacts : ∀ x ∈ ['a', 'f', 'n', 'r', 't', 'v'], x ≠ 'Q' ∧ asciiAlnum x = true ∧ x ≠ 'p' ∧ x ≠ 'P' ∧ x ≠ 'x' ∧
        x ∈ plainEscapes := all_iff_forall_prop.mp (by decide)
    obtain ⟨hq, halnum, hp, hP, hx, hplain⟩ := hfacts c hc
    exact ⟨c, _, [], rfl, hq, rfl, by simp [escape, halnum, hp, hP, hx, hplain]⟩
  | @octal c digits s hc hdigits hlen hmax hfirst =>
    obtain ⟨hdigit, -, -, hq, hp, hP, hx, hassert, hplain⟩ := octal_facts hc
    have halnum : asciiAlnum c = true := by simp [asciiAlnum, hdigit]
    refine ⟨c, _, digits, rfl, hq, hdigits, ?_⟩
    by_cases h0 : c = '0'
    · have hzero : c ∈ plainEscapes := h0 ▸ (by decide)
      simp [escape, halnum, hp, hP, hx, hzero]
    have hne := hfirst.resolve_left h0
    cases digits with
    | nil => exact absurd rfl hne
    | cons x digits =>
      have hx' : octalDigit x = true := all_eq_true.mp hdigits x mem_cons_self
      simp [escape, halnum, hp, hP, hx, hplain h0, hassert, hc, hx']
  | @hex a b s ha hb =>
    have hbrace : a ≠ '{' := by
      rintro rfl
      cases ha
    have halnum : asciiAlnum 'x' = true := by decide
    refine ⟨'x', _, [], rfl, by decide, rfl, ?_⟩
    simp [escape, halnum, hexEscape, ha, hb]
  | @hexBraces digits s hne hdigits hvalue =>
    have halnum : asciiAlnum 'x' = true := by decide
    have hcut := cutAt_single (not_mem_of_all (c := '}') (by decide) hdigits) s'
    refine ⟨'x', _, [], rfl, by decide, rfl, ?_⟩
    simp only [escape, halnum, hexEscape, hcut, hdigits, hvalue]
    simp [hne]

theorem badProperty_of_name (h : PropertyName name) : badProperty name = false := by
  obtain ⟨negated, body, rfl, hnegated, hbody, hfirst⟩ := h
  have hmarks : body.dropWhile (fun c => c == '_' || c == '-' || c == ' ') ⊆ body := (dropWhile_sublist _).subset
  have hcaret : body.head? ≠ some '^' := by
    intro hhead
    have hc := hbody '^' (mem_of_mem_head? hhead)
    revert hc
    decide
  have hname : (if (negated ++ body).head? = some '^' then (negated ++ body).tail else negated ++ body) = body := by
    rcases hnegated with rfl | rfl
    · rw [nil_append, if_neg hcaret]
    · rfl
  rw [badProperty, hname]
  simp only [Bool.or_eq_false_iff, beq_eq_false_iff_ne, any_eq_false]
  refine ⟨⟨?_, ?_⟩, ?_⟩
  · intro hhead
    exact (hfirst 'X' hhead).1 rfl
  · intro hhead
    exact (hfirst 'x' hhead).2 rfl
  intro c hc
  rcases hbody c (hmarks hc) with halnum | rfl | rfl | rfl
  · have hother : ∀ x : Char, asciiAlnum x = false → c ≠ x := by
      rintro x hx rfl
      rw [halnum] at hx
      cases hx
    simp [hother '&' (by decide), hother ':' (by decide), hother '=' (by decide)]
  all_goals decide

theorem not_mem_of_name (h : PropertyName name) : '}' ∉ name := by
  obtain ⟨negated, body, rfl, hnegated, hbody, -⟩ := h
  rw [mem_append, not_or]
  constructor
  · rcases hnegated with rfl | rfl <;> decide
  intro hmem
  have hc := hbody '}' hmem
  revert hc
  decide

theorem ClassEscape.scanned (h : ClassEscape s s') (inClass : Bool) :
    ∃ d rest, s = d :: rest ∧ d ≠ 'Q' ∧ escape inClass d rest = ⟨[], s'⟩ := by
  cases h with
  | @perl c s hc =>
    have hfacts : ∀ x ∈ ['d', 'D', 's', 'S', 'w', 'W'], x ≠ 'Q' ∧ asciiAlnum x = true ∧ x ≠ 'p' ∧ x ≠ 'P' ∧ x ≠ 'x' ∧
        x ∈ plainEscapes := all_iff_forall_prop.mp (by decide)
    obtain ⟨hq, halnum, hp, hP, hx, hplain⟩ := hfacts c hc
    exact ⟨c, _, rfl, hq, by simp [escape, halnum, hp, hP, hx, hplain]⟩
  | @property d c s hd hname =>
    have hq : d ≠ 'Q' ∧ asciiAlnum d = true := by rcases hd with rfl | rfl <;> decide
    have hc : c ≠ '{' := by
      rintro rfl
      obtain ⟨negated, body, hsplit, hnegated, hbody, -⟩ := hname
      rcases hnegated with rfl | rfl
      · have hmem := hbody '{' (by rw [← nil_append body, ← hsplit]; exact mem_cons_self)
        revert hmem
        decide
      · simp at hsplit
    refine ⟨d, _, rfl, hq.1, ?_⟩
    simp [escape, hq.2, hd, Re2.property, badProperty_of_name hname]
  | @propertyBraces d name s hd hname =>
    have hq : d ≠ 'Q' ∧ asciiAlnum d = true := by rcases hd with rfl | rfl <;> decide
    refine ⟨d, _, rfl, hq.1, ?_⟩
    simp [escape, hq.2, hd, Re2.property, cutAt_single (not_mem_of_name hname), badProperty_of_name hname]

/-! ## Atoms -/

def outside (g : Nat) (groups : List Nat) (last : Nat) : Scan := ⟨g :: groups, last, false, false⟩

theorem step_literal (hc : c ∉ special) (g : Nat) (groups : List Nat) (last : Nat) (rest : Text) :
    step (outside g groups last) c rest = .go (outside (max g last) groups 1) rest := by
  simp only [special, mem_cons, not_mem_nil, or_false, not_or] at hc
  obtain ⟨hbackslash, hstar, hplus, hquestion, hopen, hclose, hclass, hbrace, hbar⟩ := hc
  simp [step, outside, hbackslash, hstar, hplus, hquestion, hopen, hclose, hclass, hbrace, hbar, Scan.atom, Scan.commit]

/-- Digits behind an escape are atoms of weight 1 and change nothing. -/
theorem result_digits {digits : Text} (h : digits.all octalDigit = true) {g : Nat} (hg : 1 ≤ g)
    (groups : List Nat) (rest : Text) :
    result (outside g groups 1) (digits ++ rest) = result (outside g groups 1) rest := by
  induction digits with
  | nil => rfl
  | cons c digits ih =>
    rw [all_cons, Bool.and_eq_true] at h
    have hstep := step_literal (octal_facts h.1).2.1 g groups 1 (digits ++ rest)
    rw [max_eq_left hg] at hstep
    rw [cons_append, result_go hstep, ih h.2]

theorem step_escape {d : Char} (hq : d ≠ 'Q') (h : escape false d rest = ⟨[], rest'⟩) (g : Nat)
    (groups : List Nat) (last : Nat) :
    step (outside g groups last) '\\' (d :: rest) = .go (outside (max g last) groups 1) rest' := by
  simp [step, outside, backslashStep, hq, h, Scan.pastEscape, Scan.atom, Scan.commit]

/-! ## Classes -/

/-- In a class, outside of which `last` waits. -/
def inside (groups : List Nat) (last : Nat) (first : Bool) : Scan := ⟨groups, last, true, first⟩

theorem step_inside_escape {d : Char} (hq : escape true d rest = ⟨[], rest'⟩) (groups : List Nat)
    (last : Nat) (first : Bool) : step (inside groups last first) '\\' (d :: rest) =
    .go (inside groups last false) rest' := by
  simp [step, inside, backslashStep, hq, Scan.pastEscape]

theorem step_inside_plain (hc : c ≠ '\\') (hclose : c = ']' → first = true)
    (hnamed : ¬(c = '[' ∧ NamedAhead rest)) (groups : List Nat) (last : Nat) :
    step (inside groups last first) c rest = .go (inside groups last false) rest := by
  have hstays : (!(c == ']' && !first)) = true := by
    by_cases hbracket : c = ']'
    · simp [hclose hbracket]
    · simp [hbracket]
  rw [step, if_neg hc, inside, if_pos rfl, classStep]
  simp only [hstays]
  split_ifs with hopen
  · cases hcut : cutAt [':', ']'] rest.tail with
    | none => rfl
    | some parts =>
      refine absurd ⟨hopen.1, parts.1, parts.2, ?_⟩ hnamed
      cases rest with
      | nil => exact absurd hopen.2 (by simp)
      | cons x rest =>
        obtain rfl := Option.some.inj hopen.2
        exact congrArg (cons ':') (cutAt_eq hcut)
  · rfl

theorem result_inside_digits {digits : Text} (h : digits.all octalDigit = true) (groups : List Nat)
    (last : Nat) (rest : Text) :
    result (inside groups last false) (digits ++ rest) = result (inside groups last false) rest := by
  induction digits with
  | nil => rfl
  | cons c digits ih =>
    rw [all_cons, Bool.and_eq_true] at h
    obtain ⟨-, hspecial, hclose, -⟩ := octal_facts h.1
    have hbackslash : c ≠ '\\' := by
      rintro rfl
      exact hspecial (by decide)
    have hopen : c ≠ '[' := by
      rintro rfl
      exact hspecial (by decide)
    rw [cons_append, result_go (step_inside_plain hbackslash (fun hc => absurd hc hclose) (fun hc => hopen hc.1) groups last),
      ih h.2]

theorem CharEscape.result_inside (h : CharEscape s s') (groups : List Nat) (last : Nat) (first : Bool) :
    result (inside groups last first) ('\\' :: s) = result (inside groups last false) s' := by
  obtain ⟨d, rest, extra, rfl, -, hextra, hescape⟩ := h.scanned true
  rw [result_go (step_inside_escape hescape groups last first), result_inside_digits hextra]

theorem ClassChar.result_inside (h : ClassChar first s s') (groups : List Nat) (last : Nat) :
    result (inside groups last first) s = result (inside groups last false) s' := by
  cases h with
  | plain hc hclose hnamed => exact result_go (step_inside_plain hc hclose hnamed groups last)
  | escape hescape => exact hescape.result_inside groups last first

/-- A class that does not stray is left at its closing bracket. -/
theorem Items.result_inside {b : Bool} (h : Items first s s' b) (hb : b = false) (groups : List Nat)
    (last : Nat) : result (inside groups last first) s = result ⟨groups, last, false, false⟩ s' := by
  induction h with
  | close => exact result_go (by simp [step, inside, classStep])
  | @named first b name s s' hname _ ih =>
    have hcut := cutAt_pair (by decide : ':' ≠ ']') hname s
    have hstep : step (inside groups last first) '[' (':' :: (name ++ ':' :: ']' :: s)) =
      .go (inside groups last false) s := by
      simp [step, inside, classStep, hcut]
    rw [result_go hstep]
    exact ih hb
  | classEscape hescape _ ih =>
    obtain ⟨d, rest, rfl, -, hd⟩ := hescape.scanned true
    rw [result_go (step_inside_escape hd groups last _)]
    exact ih hb
  | single hchar _ _ ih =>
    rw [hchar.result_inside]
    exact ih hb
  | range hchar hend _ ih =>
    rw [Bool.or_eq_false_iff] at hb
    have hminus : ∀ rest, result (inside groups last false) ('-' :: rest) = result (inside groups last false) rest :=
      fun rest => result_go (step_inside_plain (by decide) (by decide) (by simp) groups last)
    rw [hchar.result_inside, hminus, ← ih hb.2]
    cases hend with
    | plain hc hclose hnamed => exact result_go (step_inside_plain hc (fun h => absurd h hclose) hnamed groups last)
    | bracket => exact absurd hb.1 (by decide)
    | escape hescape => exact hescape.result_inside groups last false

theorem Class.result_outside (h : Class s s' false) (g : Nat) (groups : List Nat) (last : Nat) :
    result (outside g groups last) ('[' :: s) = result (outside (max g last) groups 1) s' := by
  have hopen : ∀ rest : Text, step (outside g groups last) '[' rest =
      .go (inside (max g last :: groups) 1 true) (if rest.head? = some '^' then rest.tail else rest) := by
    simp [step, outside, inside, Scan.atom, Scan.commit]
  rw [result_go (hopen s)]
  cases h with
  | plain hcaret hitems =>
    rw [if_neg hcaret]
    exact hitems.result_inside rfl _ 1
  | negated hitems => exact hitems.result_inside rfl _ 1

/-! ## Groups -/

theorem flag_facts {f : Char} (h : isFlag f = true) :
    f ≠ ':' ∧ f ≠ ')' ∧ f ≠ '-' ∧ f ≠ 'P' ∧ f ≠ '<' ∧ f ∉ notGo ∧ digit f = false ∧
      (f = 'i' ∨ f = 'm' ∨ f = 's' ∨ f = 'U') := by
  have hcases : f = 'i' ∨ f = 'm' ∨ f = 's' ∨ f = 'U' := by simpa [isFlag, or_assoc] using h
  rcases hcases with rfl | rfl | rfl | rfl <;> decide

theorem flagsLoop_set {on : Text} (h : on.all isFlag = true) (negated sawFlag : Bool) (seen rest : Text) :
    ∃ seen', flagsLoop negated sawFlag seen (on ++ rest) = flagsLoop negated (sawFlag || !on.isEmpty) seen' rest := by
  induction on generalizing sawFlag seen with
  | nil => exact ⟨seen, by simp⟩
  | cons f on ih =>
    rw [all_cons, Bool.and_eq_true] at h
    obtain ⟨hcolon, hclose, hminus, -, -, -, -, hflag⟩ := flag_facts h.1
    obtain ⟨seen', hloop⟩ := ih h.2 true (f :: seen)
    refine ⟨seen', ?_⟩
    rw [cons_append, flagsLoop, if_neg (by simp [hcolon, hclose]), if_neg hminus, if_pos hflag, hloop]
    simp

theorem flagsLoop_end (hc : c = ':' ∨ c = ')') {negated sawFlag : Bool} (h : negated = true → sawFlag = true)
    (seen rest : Text) : flagsLoop negated sawFlag seen (c :: rest) = some ⟨[], rest, decide (c = ':')⟩ := by
  have hok : (negated && !sawFlag) = false := by
    cases negated with
    | false => rfl
    | true => simp [h rfl]
  rw [flagsLoop, if_pos hc, hok]
  rfl

theorem Flags.loop (h : Flags t) (hc : c = ':' ∨ c = ')') (s : Text) :
    flagsLoop false false [] (t ++ c :: s) = some ⟨[], s, decide (c = ':')⟩ := by
  cases h with
  | set hon =>
    obtain ⟨seen, hloop⟩ := flagsLoop_set hon false false [] (c :: s)
    rw [hloop, flagsLoop_end hc (by simp)]
  | @clear on off hon hne hoff =>
    obtain ⟨seen, hloop⟩ := flagsLoop_set hon false false [] ('-' :: (off ++ c :: s))
    obtain ⟨seen', hrest⟩ := flagsLoop_set hoff true false ('-' :: seen) (c :: s)
    have hsaw : (false || !off.isEmpty) = true := by simp [hne]
    have hminus : ∀ sawFlag, flagsLoop false sawFlag seen ('-' :: (off ++ c :: s)) =
        flagsLoop true false ('-' :: seen) (off ++ c :: s) := by
      simp [flagsLoop]
    rw [append_assoc, cons_append, hloop, hminus, hrest, hsaw, flagsLoop_end hc (fun _ => rfl)]

theorem group_flags (h : Flags t) (hc : c = ':' ∨ c = ')') (s : Text) :
    group (t ++ c :: s) = ⟨[], s, decide (c = ':')⟩ := by
  have hstart : ∃ c0 rest, t ++ c :: s = c0 :: rest ∧ c0 ≠ 'P' ∧ c0 ≠ '<' ∧ c0 ∉ notGo ∧ digit c0 = false ∧
      (c0 = '-' → digit (rest.headD '\x00') = false) := by
    have hend : c ≠ 'P' ∧ c ≠ '<' ∧ c ∉ notGo ∧ digit c = false ∧ c ≠ '-' := by rcases hc with rfl | rfl <;> decide
    have hset : ∀ {on : Text}, on.all isFlag = true → on ≠ [] → ∀ rest, ∃ c0 rest', on ++ rest = c0 :: rest' ∧ c0 ≠ 'P' ∧
        c0 ≠ '<' ∧ c0 ∉ notGo ∧ digit c0 = false ∧ (c0 = '-' → digit (rest'.headD '\x00') = false) := by
      intro on hon hne rest
      cases on with
      | nil => exact absurd rfl hne
      | cons f on =>
        rw [all_cons, Bool.and_eq_true] at hon
        obtain ⟨-, -, hminus, hP, hangle, hnot, hdigit, -⟩ := flag_facts hon.1
        exact ⟨f, on ++ rest, rfl, hP, hangle, hnot, hdigit, fun h => absurd h hminus⟩
    cases h with
    | set hon =>
      cases t with
      | nil => exact ⟨c, s, rfl, hend.1, hend.2.1, hend.2.2.1, hend.2.2.2.1, fun h => absurd h hend.2.2.2.2⟩
      | cons f t => exact hset hon (by simp) _
    | @clear on off hon hne hoff =>
      rw [append_assoc, cons_append]
      cases on with
      | nil =>
        refine ⟨'-', off ++ c :: s, rfl, by decide, by decide, by decide, by decide, fun _ => ?_⟩
        cases off with
        | nil => exact absurd rfl hne
        | cons f off =>
          rw [all_cons, Bool.and_eq_true] at hoff
          exact (flag_facts hoff.1).2.2.2.2.2.2.1
      | cons f on => exact hset hon (by simp) _
  have hloop := h.loop hc s
  obtain ⟨c0, rest, hsplit, hP, hangle, hnot, hdigit, hminus⟩ := hstart
  rw [hsplit] at hloop ⊢
  have hdash : ¬(c0 = '-' ∧ digit (rest.headD '\x00') = true) := by
    rintro ⟨h0, h1⟩
    rw [hminus h0] at h1
    cases h1
  unfold group
  simp only [headD_cons, tail_cons, hP, hangle, hnot, hdigit, hdash, false_and, or_false, if_false,
    Bool.false_eq_true, hloop, Option.getD_some]

theorem not_mem_captureName (h : captureName name = true) : '>' ∉ name := by
  rw [captureName, Bool.and_eq_true] at h
  exact not_mem_of_all (p := fun c => asciiAlnum c || c == '_') (by decide) h.2

theorem namedGroup_name (h : captureName name = true) {before : Text} (hbefore : '>' ∉ before) (s : Text) :
    namedGroup before.length (before ++ (name ++ '>' :: s)) = ⟨[], s, true⟩ := by
  have hnot : '>' ∉ before ++ name := by
    rw [mem_append, not_or]
    exact ⟨hbefore, not_mem_captureName h⟩
  have hcut := cutAt_single hnot s
  rw [append_assoc] at hcut
  rw [namedGroup, hcut]
  simp [h]

theorem Opening.result_outside (h : Opening s s') (g : Nat) (groups : List Nat) (last : Nat) :
    result (outside g groups last) ('(' :: s) = result (outside 1 (max g last :: groups) 0) s' := by
  have hopens : ∀ rest, group rest = ⟨[], s', true⟩ →
      step (outside g groups last) '(' ('?' :: rest) = .go (outside 1 (max g last :: groups) 0) s' := by
    intro rest hgroup
    simp [step, outside, openStep, hgroup, Scan.commit]
  cases h with
  | plain hquestion hstar =>
    refine result_go ?_
    simp [step, outside, openStep, hquestion, hstar, Scan.commit]
  | @named name s hname =>
    refine result_go (hopens _ ?_)
    have hnamed := namedGroup_name hname (show '>' ∉ ['P', '<'] by decide) s'
    simpa [group] using hnamed
  | @shortNamed name s hname =>
    refine result_go (hopens _ ?_)
    have hnamed := namedGroup_name hname (show '>' ∉ ['<'] by decide) s'
    have hfirst : (name ++ '>' :: s').headD '\x00' ≠ '=' ∧ (name ++ '>' :: s').headD '\x00' ≠ '!' := by
      rw [captureName, Bool.and_eq_true] at hname
      cases name with
      | nil => exact absurd hname.1 (by decide)
      | cons c name =>
        have hc := all_eq_true.mp hname.2 c mem_cons_self
        constructor
        · rintro rfl
          cases hc
        · rintro rfl
          cases hc
    have hP : '<' ≠ 'P' := by decide
    unfold group
    simp only [headD_cons, tail_cons, hP, hfirst, false_and, if_false, ne_eq, not_false_eq_true, and_self, if_true]
    exact hnamed
  | flags hflags => exact result_go (hopens _ (group_flags hflags (.inl rfl) s'))

/-- A quoted text is an atom, also one that the pattern ends in. -/
theorem Quoted.result_outside (h : Quoted text s s') (g : Nat) (groups : List Nat) (last : Nat) :
    result (outside g groups last) ('\\' :: 'Q' :: s) = result (outside (max g last) groups 1) s' := by
  cases h with
  | @closed s htext =>
    refine result_go ?_
    simp [step, outside, backslashStep, cutAt_pair (by decide : '\\' ≠ 'E') htext s', Scan.pastEscape, Scan.atom,
      Scan.commit]
  | unclosed htext =>
    have hcut : cutAt ['\\', 'E'] s = none := by
      rw [Option.eq_none_iff_forall_ne_some]
      rintro ⟨a, b⟩ hcut
      exact htext ⟨a, b, by rw [append_assoc, ← cutAt_eq hcut]⟩
    have hstep : step (outside g groups last) '\\' ('Q' :: s) = .stop none :=
      by simp [step, outside, backslashStep, hcut]
    exact result_stop hstep

/-- What the scan has last behind a gap. -/
def Gap.last : Gap → Nat
  | .flags => 0
  | .emptyQuote => 1

theorem Gap.max_last {g : Nat} (hg : 1 ≤ g) (gap : Gap) : max g gap.last = g := by
  cases gap
  · exact Nat.max_zero g
  · exact max_eq_left hg

theorem Gaps.result_outside {gap : Gap} (h : Gaps s s' gap) {g : Nat} (hg : 1 ≤ g) (groups : List Nat) (last : Nat) :
    result (outside g groups last) s = result (outside (max g last) groups gap.last) s' := by
  induction h generalizing g last with
  | @flags t s ht =>
    refine result_go ?_
    simp [step, outside, openStep, group_flags ht (.inr rfl) s, Scan.commit, Gap.last]
  | emptyQuote hquoted => exact hquoted.result_outside g groups last
  | @more s s₁ s' gap gap' _ _ ih ih' =>
    have hgroup : 1 ≤ max g last := le_trans hg (le_max_left g last)
    rw [ih hg, ih' hgroup, gap.max_last hgroup]

/-! ## Repeats -/

/-- A number that is read as itself, or as another one above 1000. -/
def Capped (n n' : Nat) : Prop := n' = n ∨ 1000 < n ∧ 1000 < n'

theorem decimal_ge (digits : Text) (n : Nat) :
    n * 10 ^ digits.length ≤ digits.foldl (fun n c => 10 * n + (c.toNat - '0'.toNat)) n := by
  induction digits generalizing n with
  | nil => simp
  | cons c digits ih =>
    refine le_trans ?_ (ih (10 * n + (c.toNat - '0'.toNat)))
    rw [length_cons, pow_succ, mul_comm (10 ^ digits.length) 10, ← mul_assoc]
    exact mul_le_mul_right _ (by omega)

theorem decimal_long (h : Number t n) (hlong : 7 < t.length) : 1000 < n := by
  obtain ⟨-, hdigits, hzero, rfl⟩ := h
  cases t with
  | nil => cases hlong
  | cons c digits =>
    have hc : digit c = true := all_eq_true.mp hdigits c mem_cons_self
    have hne : c ≠ '0' := fun heq => hzero (by omega) (congrArg some heq)
    have hfirst : 1 ≤ 10 * 0 + (c.toNat - '0'.toNat) := by
      have hle : '0'.toNat ≤ c.toNat := by
        have hrange : '0' ≤ c ∧ c ≤ '9' := by simpa [digit] using hc
        exact hrange.1
      have hneq : c.toNat ≠ '0'.toNat := fun heq => hne (Char.toNat_inj.mp heq)
      omega
    have hge := decimal_ge digits (10 * 0 + (c.toNat - '0'.toNat))
    have hpow : 10 ^ 7 ≤ 10 ^ digits.length := Nat.pow_le_pow_right (by decide) (by rw [length_cons] at hlong; omega)
    have hprod := mul_le_mul_right (10 ^ digits.length) hfirst
    rw [decimal, foldl_cons]
    omega

theorem repeatNumber_number (h : Number t n) (hrest : rest.head?.any digit = false) :
    ∃ n', Capped n n' ∧ repeatNumber (t ++ rest) = some (n', rest) := by
  obtain ⟨hne, hdigits, hzero, hn⟩ := h
  have hnone : rest.takeWhile digit = [] := by
    cases rest with
    | nil => rfl
    | cons c rest =>
      have hc : digit c = false := by simpa using hrest
      simp [hc]
  have hall : ∀ c ∈ t, digit c = true := all_eq_true.mp hdigits
  have htake : (t ++ rest).takeWhile digit = t := by rw [takeWhile_append_of_pos hall, hnone, append_nil]
  have hdrop : (t ++ rest).dropWhile digit = rest := by
    have hsplit := takeWhile_append_dropWhile (p := digit) (l := t ++ rest)
    rw [htake] at hsplit
    exact append_cancel_left hsplit
  have hok : (t.isEmpty || (t.length > 1 && t.head? == some '0')) = false := by
    have hleading : ¬(t.length > 1 ∧ t.head? = some '0') := fun hc => hzero hc.1 hc.2
    simpa [hne] using hleading
  refine ⟨if t.length > 7 then 100000000 else decimal t, ?_, ?_⟩
  · by_cases hlong : t.length > 7
    · rw [if_pos hlong]
      exact .inr ⟨decimal_long ⟨hne, hdigits, hzero, hn⟩ hlong, by decide⟩
    · rw [if_neg hlong]
      exact .inl hn.symm
  · simp only [repeatNumber, htake, hdrop, hok, Bool.false_eq_true, if_false]

theorem number_of_repeatNumber {after : Text} (h : repeatNumber text = some (n, after)) :
    ∃ t, text = t ++ after ∧ Number t (decimal t) := by
  unfold repeatNumber at h
  dsimp only at h
  split_ifs at h with hbad hlong
  all_goals
    simp only [Option.some.injEq, mk.injEq] at h
    rw [Bool.or_eq_true, not_or, Bool.and_eq_true] at hbad
    refine ⟨text.takeWhile digit, ?_, ?_, ?_, ?_, rfl⟩
    · rw [← h.2]
      exact (takeWhile_append_dropWhile).symm
    · intro hnil
      exact hbad.1 (by rw [hnil]; rfl)
    · exact all_takeWhile
    · intro hlen hhead
      exact hbad.2 ⟨decide_eq_true hlen, by rw [hhead]; rfl⟩

theorem countsAhead_of_repeatEnd {max : Option Nat}
    (h : repeatEnd text = some (min, max, rest)) : CountsAhead text := by
  unfold repeatEnd at h
  split at h
  · cases h
  rename_i n after hnumber
  obtain ⟨t, rfl, ht⟩ := number_of_repeatNumber hnumber
  split at h
  · rename_i max' rest' hmax
    unfold repeatMax at hmax
    split at hmax
    · rename_i upper
      split_ifs at hmax
      · simp only [Option.some.injEq, mk.injEq] at hmax
        exact ⟨t ++ [','], _, _, rest', .atLeast ht, by rw [hmax.2]; simp⟩
      obtain ⟨⟨m, rest''⟩, hupper, hparts⟩ := Option.map_eq_some_iff.mp hmax
      obtain ⟨-, rfl⟩ := hparts
      obtain ⟨u, rfl, hu⟩ := number_of_repeatNumber hupper
      exact ⟨t ++ ',' :: u, _, _, rest', .range ht hu, by simp⟩
    · simp only [Option.some.injEq, mk.injEq] at hmax
      exact ⟨t, _, _, rest', .exact ht, by rw [hmax.2]⟩
  · cases h

/-- The two maxima are both open, or as the numbers are read. -/
def CappedMax : Option Nat → Option Nat → Prop
  | none, none => True
  | some m, some m' => Capped m m'
  | _, _ => False

theorem Counts.read {max : Option Nat} (h : Counts t min max) (s : Text) :
    ∃ min' max', Capped min min' ∧ CappedMax max max' ∧ repeatEnd (t ++ '}' :: s) = some (min', max', s) := by
  have hbrace : ('}' :: s : Text).head?.any digit = false := (by decide : digit '}' = false)
  have hcomma : ∀ rest : Text, (',' :: rest).head?.any digit = false := fun _ => (by decide : digit ',' = false)
  cases h with
  | exact ht =>
    obtain ⟨n', hcap, hread⟩ := repeatNumber_number ht hbrace
    exact ⟨n', some n', hcap, hcap, by rw [repeatEnd, hread]; rfl⟩
  | @atLeast t n ht =>
    obtain ⟨n', hcap, hread⟩ := repeatNumber_number ht (hcomma ('}' :: s))
    refine ⟨n', none, hcap, trivial, ?_⟩
    rw [append_assoc, cons_append, nil_append, repeatEnd, hread]
    rfl
  | @range t u n m ht hu =>
    obtain ⟨n', hcap, hread⟩ := repeatNumber_number ht (hcomma (u ++ '}' :: s))
    obtain ⟨m', hcap', hread'⟩ := repeatNumber_number hu hbrace
    have hhead : (u ++ '}' :: s).head? ≠ some '}' := by
      obtain ⟨hne, hdigits, -, -⟩ := hu
      cases u with
      | nil => exact absurd rfl hne
      | cons c u =>
        have hc := all_eq_true.mp hdigits c mem_cons_self
        rintro heq
        cases heq
        cases hc
    refine ⟨n', some m', hcap, hcap', ?_⟩
    rw [append_assoc, cons_append, repeatEnd, hread]
    simp only [repeatMax, if_neg hhead, hread', Option.map_some]

theorem skipLazy_of_ne (h : rest.head? ≠ some '?') : skipLazy rest = rest := by rw [skipLazy, if_neg h]

theorem skipLazy_lazy (rest : Text) : skipLazy ('?' :: rest) = rest := by simp [skipLazy]

theorem Repeat.operator (h : Repeat s s' rep) :
    ∃ after, Operator s after rep ∧ after.head? ≠ some '+' ∧ skipLazy after = s' := by
  cases h with
  | greedy hop hnone => exact ⟨s', hop, fun h => hnone (.inr (.inl h)),
      skipLazy_of_ne fun h => hnone (.inr (.inr (.inl h)))⟩
  | lazy hop _ => exact ⟨'?' :: s', hop, by simp, skipLazy_lazy s'⟩

/-- The turn at counts that were read as `min'` and `max'`. -/
theorem countedStep_read {min' : Nat} {max max' : Option Nat} (hmin : Capped min min') (hmax : CappedMax max max')
    {after : Text} (hplus : after.head? ≠ some '+') (token : Text) (s : Scan) (hlast : s.last ≤ 1000) :
    ((Rep.counted min max).TooLarge ∨ 1000 < (Rep.counted min max).times s.last →
      countedStep s min' max' token after = .stop (some .tooManyRepeats)) ∧
    (¬((Rep.counted min max).TooLarge ∨ 1000 < (Rep.counted min max).times s.last) →
      countedStep s min' max' token after = .go { s with last := (counted min max).times s.last } (skipLazy after)) := by
  have hlarge : (1000 < min' ∨ max'.any (1000 < ·) = true) ↔ (counted min max).TooLarge := by
    have hnum : ∀ {n n' : Nat}, Capped n n' → (1000 < n' ↔ 1000 < n) := by
      rintro n n' (rfl | ⟨h, h'⟩)
      · exact Iff.rfl
      · exact ⟨fun _ => h, fun _ => h'⟩
    refine or_congr (hnum hmin) ?_
    cases max with
    | none =>
      cases max' with
      | none => exact Iff.rfl
      | some m' => exact hmax.elim
    | some m =>
      cases max' with
      | none => exact hmax.elim
      | some m' => simpa using hnum hmax
  by_cases hbig : (counted min max).TooLarge
  · refine ⟨fun _ => ?_, fun h => absurd (.inl hbig) h⟩
    rw [countedStep, if_pos (hlarge.mpr hbig)]
  have hmin' : min' = min := by
    rcases hmin with h | h
    · exact h
    · exact absurd (.inl h.1) hbig
  have hmax' : max' = max := by
    cases max with
    | none =>
      cases max' with
      | none => rfl
      | some m' => exact hmax.elim
    | some m =>
      cases max' with
      | none => exact hmax.elim
      | some m' =>
        rcases hmax with h | h
        · rw [h]
        · exact absurd (.inr (by simpa using h.1)) hbig
  subst hmin' hmax'
  simp only [hbig, false_or]
  rw [countedStep, if_neg (fun h => hbig (hlarge.mp h)), if_neg hplus, times]
  by_cases hzero : max' = some 0
  · simp only [hzero, if_true]
    exact ⟨by simp, fun _ => trivial⟩
  simp only [hzero, if_false]
  by_cases hm : 1 < max'.getD min'
  · have hone : Max.max 1 (max'.getD min') = max'.getD min' := by omega
    simp only [hm, if_true, hone, mul_comm s.last]
    exact ⟨fun h => if_pos h, fun h => if_neg h⟩
  have hone : Max.max 1 (max'.getD min') = 1 := by omega
  simp only [hm, if_false, hone, one_mul]
  exact ⟨fun h => absurd h (by omega), fun _ => trivial⟩

theorem Repeat.result_outside (h : Repeat s s' rep) (g : Nat) (groups : List Nat) {last : Nat}
    (hlast : last ≤ 1000) :
    (rep.TooLarge ∨ 1000 < rep.times last → result (outside g groups last) s = some .tooManyRepeats) ∧
    (¬(rep.TooLarge ∨ 1000 < rep.times last) →
      result (outside g groups last) s = result (outside g groups (rep.times last)) s') := by
  obtain ⟨after, hop, hplus, hlazy⟩ := h.operator
  cases hop with
  | @simple c after hc =>
    refine ⟨?_, fun _ => ?_⟩
    · rintro (h | h)
      · exact h.elim
      · exact absurd hlast (not_le.mpr h)
    have hother : c ≠ '\\' ∧ c ≠ '[' ∧ c ≠ '(' ∧ c ≠ ')' ∧ c ≠ '|' := by rcases hc with rfl | rfl | rfl <;> decide
    refine result_go ?_
    simp only [step, outside, hother, hc, hplus, if_false, if_true, Bool.false_eq_true, hlazy]
    rfl
  | @counted t after min max hcounts hle =>
    obtain ⟨min', max', hmin, hmax, hread⟩ := hcounts.read after
    obtain ⟨hstop, hgo⟩ := countedStep_read hmin hmax hplus
      (('{' :: (t ++ '}' :: after)).take ((t ++ '}' :: after).length + 1 - after.length)) (outside g groups last) hlast
    have hstep : step (outside g groups last) '{' (t ++ '}' :: after) =
        countedStep (outside g groups last) min' max'
          (('{' :: (t ++ '}' :: after)).take ((t ++ '}' :: after).length + 1 - after.length)) after := by
      simp [step, outside, hread]
    refine ⟨fun h => result_stop (hstep.trans (hstop h)), fun h => ?_⟩
    rw [result_go (hstep.trans (hgo h)), hlazy]
    rfl

/-! ## Expressions -/

/-- The scan refuses the part, or leaves it with its weight in `last`. -/
def Exact (s s' : Text) (x : Regex) : Prop :=
  ∀ g groups last, 1 ≤ g →
    (x.TooMany → result (outside g groups last) s = some .tooManyRepeats) ∧
    (¬x.TooMany → result (outside g groups last) s = result (outside (max g last) groups x.weight) s')

/-- The scan refuses the part, or leaves it with its weight in `last` or in the group. -/
def Judges (s s' : Text) (x : Regex) : Prop :=
  ∀ g groups last, 1 ≤ g →
    (x.TooMany → result (outside g groups last) s = some .tooManyRepeats) ∧
    (¬x.TooMany → ∃ g' last', 1 ≤ g' ∧ max g' last' = max (max g last) x.weight ∧
      result (outside g groups last) s = result (outside g' groups last') s')

theorem Exact.judges (h : Exact s s' x) : Judges s s' x := fun g groups last hg =>
  ⟨(h g groups last hg).1, fun hx => ⟨max g last, x.weight, le_trans hg (le_max_left _ _), rfl,
   (h g groups last hg).2 hx⟩⟩

theorem exact_atom (h : ∀ g groups last, 1 ≤ g →
    result (outside g groups last) s = result (outside (max g last) groups 1) s') : Exact s s' .atom :=
  fun g groups last hg => ⟨fun hx => hx.elim, fun _ => h g groups last hg⟩

theorem CharEscape.exact (h : CharEscape s s') : Exact ('\\' :: s) s' .atom := by
  refine exact_atom fun g groups last hg => ?_
  obtain ⟨d, rest, extra, rfl, hq, hextra, hescape⟩ := h.scanned false
  rw [result_go (step_escape hq hescape g groups last), result_digits hextra (le_trans hg (le_max_left _ _))]

theorem ClassEscape.exact (h : ClassEscape s s') : Exact ('\\' :: s) s' .atom := by
  refine exact_atom fun g groups last _ => ?_
  obtain ⟨d, rest, rfl, hq, hescape⟩ := h.scanned false
  exact result_go (step_escape hq hescape g groups last)

theorem exact_assertion (hc : c ∈ assertions) (s : Text) : Exact ('\\' :: c :: s) s .atom := by
  have hfacts : ∀ x ∈ assertions, x ≠ 'Q' ∧ asciiAlnum x = true ∧ x ≠ 'p' ∧ x ≠ 'P' ∧ x ≠ 'x' ∧
    x ∉ plainEscapes := all_iff_forall_prop.mp (by decide)
  obtain ⟨hq, halnum, hp, hP, hx, hplain⟩ := hfacts c hc
  refine exact_atom fun g groups last _ => result_go (step_escape hq ?_ g groups last)
  simp [escape, halnum, hp, hP, hx, hplain, hc]

theorem exact_brace (h : ¬CountsAhead s) : Exact ('{' :: s) s .atom := by
  have hnone : repeatEnd s = none := by
    cases hend : repeatEnd s with
    | none => rfl
    | some counts => exact absurd (countsAhead_of_repeatEnd hend) h
  refine exact_atom fun g groups last _ => result_go ?_
  simp [step, outside, hnone, Scan.atom, Scan.commit]

theorem Judges.group {body : Regex} (hopen : Opening s s₁) (h : Judges s₁ (')' :: s') body) :
    Exact ('(' :: s) s' (.group body) := by
  intro g groups last hg
  obtain ⟨hstop, hgo⟩ := h 1 (max g last :: groups) 0 (le_refl 1)
  rw [hopen.result_outside]
  refine ⟨hstop, fun hx => ?_⟩
  obtain ⟨g', last', -, hmax, hresult⟩ := hgo hx
  have hweight := body.weight_pos
  have hg' : max g' last' = body.weight := by omega
  rw [hresult]
  refine result_go ?_
  simp [step, outside, closeStep, Scan.commit, hg', weight]

theorem Exact.repeated (hx : Exact s s₁ x) (hrep : Repeat s₁ s' rep) : Exact s s' (.repeated x none rep) := by
  intro g groups last hg
  obtain ⟨hstop, hgo⟩ := hx g groups last hg
  by_cases hmany : x.TooMany
  · exact ⟨fun _ => hstop hmany, fun h => absurd (.inl hmany) h⟩
  have hweight : x.weight ≤ 1000 := Nat.le_of_not_lt fun h => hmany (tooMany_of_weight h)
  obtain ⟨hrefuse, hread⟩ := hrep.result_outside (max g last) groups hweight
  rw [hgo hmany]
  refine ⟨?_, fun h => hread fun hbad => h (.inr hbad)⟩
  rintro (h | h)
  · exact absurd h hmany
  · exact hrefuse h

theorem Judges.behindFlags {s₂ : Text} (hx : Judges s s₁ x.kept) (hflags : Gaps s₁ s₂ .flags)
    (hrep : Repeat s₂ s' rep) : Judges s s' (Regex.repeated x (some .flags) rep).kept := by
  intro g groups last hg
  obtain ⟨hstop, hgo⟩ := hx g groups last hg
  by_cases hmany : x.kept.TooMany
  · have hkept : (repeated x (some .flags) rep).kept.TooMany := by
      rw [kept]
      split_ifs
      · exact hmany
      · exact .inl hmany
    exact ⟨fun _ => hstop hmany, fun h => absurd hkept h⟩
  obtain ⟨g', last', hg', hmax, hresult⟩ := hgo hmany
  obtain ⟨hrefuse, hread⟩ := hrep.result_outside (max g' last') groups (zero_le 1000)
  rw [hresult, hflags.result_outside hg', kept]
  cases rep with
  | simple =>
    have hfew : ¬(repeated x.kept (some .flags) .simple).TooMany := by
      rintro (h | h | h)
      · exact hmany h
      · exact h
      · exact hmany (tooMany_of_weight h)
    have hnone : ¬(simple.TooLarge ∨ 1000 < simple.times 0) := by decide
    refine ⟨fun h => absurd h hfew, fun _ => ⟨max g' last', 0, le_trans hg' (le_max_left _ _), ?_, hread hnone⟩⟩
    rw [Nat.max_zero, hmax]
    rfl
  | counted min max =>
    by_cases hlarge : (counted min max).TooLarge
    · have hkept : (repeated x.kept (some .flags) (.counted min max)).TooMany := .inr (.inl hlarge)
      simp only [hlarge, not_true_eq_false, and_false, if_false]
      exact ⟨fun _ => hrefuse (.inl hlarge), fun h => absurd hkept h⟩
    have htimes : (counted min max).times 0 ≤ 1 := by
      rw [times]
      split_ifs <;> omega
    have hnone : ¬((counted min max).TooLarge ∨ 1000 < (counted min max).times 0) := by
      rintro (h | h)
      · exact hlarge h
      · omega
    simp only [hlarge, ne_eq, reduceCtorEq, not_false_eq_true, and_self, if_true]
    refine ⟨fun h => absurd h hmany, fun _ => ⟨Max.max g' last', _, le_trans hg' (le_max_left _ _), ?_, hread hnone⟩⟩
    omega

theorem Judges.nil (s : Text) : Judges s s .empty := fun g groups last hg =>
  ⟨fun h => h.elim, fun _ => ⟨g, last, hg, by rw [weight]; omega, rfl⟩⟩

theorem Judges.gaps {gap : Gap} (hgaps : Gaps s s₁ gap) (h : Judges s₁ s' x) : Judges s s' x := by
  intro g groups last hg
  have hgroup : 1 ≤ max g last := Nat.le_trans hg (Nat.le_max_left _ _)
  have hhere := h (max g last) groups gap.last hgroup
  rwa [gap.max_last hgroup, ← hgaps.result_outside hg] at hhere

/-- One part after another, where `between` is what the scan makes of what stands between them. -/
theorem Judges.join {s₂ : Text} {y z : Regex} (hx : Judges s s₁ x) (hy : Judges s₂ s' y)
    (hbetween : ∀ g groups last, 1 ≤ g → ∃ g' last', 1 ≤ g' ∧ max g' last' = max g last ∧
      result (outside g groups last) s₁ = result (outside g' groups last') s₂)
    (hmany : z.TooMany ↔ x.TooMany ∨ y.TooMany) (hweight : z.weight = max x.weight y.weight) : Judges s s' z := by
  intro g groups last hg
  obtain ⟨hstop, hgo⟩ := hx g groups last hg
  by_cases hxmany : x.TooMany
  · exact ⟨fun _ => hstop hxmany, fun h => absurd (hmany.mpr (.inl hxmany)) h⟩
  obtain ⟨g₁, last₁, hg₁, hmax₁, hresult₁⟩ := hgo hxmany
  obtain ⟨g₂, last₂, hg₂, hmax₂, hresult₂⟩ := hbetween g₁ groups last₁ hg₁
  obtain ⟨hstop', hgo'⟩ := hy g₂ groups last₂ hg₂
  rw [hresult₁, hresult₂]
  refine ⟨fun h => hstop' ((hmany.mp h).resolve_left hxmany), fun h => ?_⟩
  obtain ⟨g₃, last₃, hg₃, hmax₃, hresult₃⟩ := hgo' fun hymany => h (hmany.mpr (.inr hymany))
  exact ⟨g₃, last₃, hg₃, by omega, hresult₃⟩

/-- Behind an empty quote a repeat is that of an atom. -/
theorem Judges.behindQuote {s₂ : Text} (hx : Judges s s₁ x.kept) (hquote : Gaps s₁ s₂ .emptyQuote)
    (hrep : Repeat s₂ s' rep) : Judges s s' (Regex.repeated x (some .emptyQuote) rep).kept := by
  have hatom : Exact s₁ s₂ .atom := exact_atom fun g groups last hg => hquote.result_outside hg groups last
  refine hx.join (hatom.repeated hrep).judges ?_ Iff.rfl rfl
  exact fun g groups last hg => ⟨g, last, hg, rfl, rfl⟩

theorem Parses.judged {part : Part} (h : Parses part s s' x) (hstray : x.NoStray) :
    (part = .base → Exact s s' x.kept) ∧ Judges s s' x.kept := by
  have hbase : ∀ {s s' : Text} {x : Regex}, Exact s s' x → (Part.base = .base → Exact s s' x) ∧ Judges s s' x :=
    fun h => ⟨fun _ => h, h.judges⟩
  induction h with
  | literal hc => exact hbase (exact_atom fun g groups last _ => result_go (step_literal hc g groups last _))
  | brace hcounts => exact hbase (exact_brace hcounts)
  | charEscape hescape => exact hbase hescape.exact
  | classEscape hescape => exact hbase hescape.exact
  | assertion hc => exact hbase (exact_assertion hc _)
  | quote _ hquoted => exact hbase (exact_atom fun g groups last _ => hquoted.result_outside g groups last)
  | cls hclass =>
    obtain rfl := hstray
    have hexact : Exact _ _ (.cls false) := fun g groups last _ =>
      ⟨fun h => h.elim, fun _ => hclass.result_outside g groups last⟩
    exact hbase hexact
  | group hopen _ ih => exact hbase (Judges.group hopen (ih hstray).2)
  | base _ ih => exact ⟨by simp, (ih hstray).2⟩
  | repeated _ hrep ih =>
    exact ⟨by simp, (((ih hstray).1 rfl).repeated hrep).judges⟩
  | @behind _ _ _ _ _ gap _ _ hgaps hrep ih =>
    refine ⟨by simp, ?_⟩
    cases gap with
    | flags => exact (ih hstray).2.behindFlags hgaps hrep
    | emptyQuote => exact (ih hstray).2.behindQuote hgaps hrep
  | nil => exact ⟨by simp, Judges.nil _⟩
  | gaps hgaps _ ih => exact ⟨by simp, (ih hstray).2.gaps hgaps⟩
  | next _ _ ihx ihy =>
    refine ⟨by simp, (ihx hstray.1).2.join (ihy hstray.2).2 ?_ Iff.rfl rfl⟩
    exact fun g groups last hg => ⟨g, last, hg, rfl, rfl⟩
  | last _ ih => exact ⟨by simp, (ih hstray).2⟩
  | @alternate s s₁ s' x y _ _ ihx ihy =>
    refine ⟨by simp, (ihx hstray.1).2.join (ihy hstray.2).2 ?_ Iff.rfl rfl⟩
    refine fun g groups last hg => ⟨max g last, 0, Nat.le_trans hg (Nat.le_max_left _ _), Nat.max_zero _, result_go ?_⟩
    simp [step, outside, Scan.commit]

/-- The scan reports too many repetitions of what is kept. -/
theorem unsupported_iff_kept {r : Regex} (h : Parses .regex text [] r) (hstray : r.NoStray) :
    unsupported text = some .tooManyRepeats ↔ r.kept.TooMany := by
  obtain ⟨hstop, hgo⟩ := (h.judged hstray).2 1 [] 0 (le_refl 1)
  refine ⟨fun hreport => ?_, hstop⟩
  refine Decidable.byContradiction fun hfew => ?_
  obtain ⟨g', last', -, -, hresult⟩ := hgo hfew
  have hnone : unsupported text = none := hresult
  rw [hnone] at hreport
  cases hreport

/-- **The report of too many repetitions is right** exactly where it makes no difference that the counted repeats behind
flag-only groups are left out and those behind empty quotes have an atom of their own. -/
theorem reports_iff_kept (text : Text) (r : Regex) (h : Parses .regex text [] r) (hstray : r.NoStray) :
    (unsupported text = some .tooManyRepeats ↔ r.TooMany) ↔ (r.kept.TooMany ↔ r.TooMany) := by
  rw [unsupported_iff_kept h hstray]

section Tests

/-- `a{100}`, a gap and `{100}` -/
def hundreds (gap : Gap) : Regex :=
  .concat (.repeated (.repeated .atom none (.counted 100 (some 100))) (some gap) (.counted 100 (some 100))) .empty

theorem hundreds_parses {c : Char} (hc : c ∉ ['*', '+', '?', '{']) {gap : Gap}
    (h : Gaps (c :: t ++ "{100}".toList) "{100}".toList gap) :
    Parses .regex ("a{100}".toList ++ (c :: t ++ "{100}".toList)) [] (hundreds gap) := by
  have hundred : Counts ['1', '0', '0'] 100 (some 100) := .exact ⟨by decide, by decide, by decide, by decide⟩
  have hcounted (s : Text) (hs : ¬RepeatAhead s) :
    Repeat ('{' :: (['1', '0', '0'] ++ '}' :: s)) s (.counted 100 (some 100)) :=
    .greedy (.counted hundred (by decide)) hs
  have hgap : ¬RepeatAhead (c :: t ++ "{100}".toList) := by
    simp only [mem_cons, not_mem_nil, or_false, not_or] at hc
    rintro (h | h | h | ⟨rest, h, -⟩)
    · exact hc.1 (Option.some.inj h)
    · exact hc.2.1 (Option.some.inj h)
    · exact hc.2.2.1 (Option.some.inj h)
    · exact hc.2.2.2 (cons.inj h).1
  have hend : ¬RepeatAhead [] := by
    rintro (h | h | h | ⟨rest, h, -⟩) <;> simp at h
  exact .last (.next (.behind (.repeated (.literal (by decide)) (hcounted _ hgap)) h (hcounted _ hend)) .nil)

theorem flagged_parses : Parses .regex "a{100}(?i){100}".toList [] (hundreds .flags) :=
  hundreds_parses (c := '(') (t := "?i)".toList) (by decide) (.flags (t := ['i']) (.set (by decide)))

theorem quoted_parses : Parses .regex "a{100}\\Q\\E{100}".toList [] (hundreds .emptyQuote) :=
  hundreds_parses (c := '\\') (t := "Q\\E".toList) (by decide) (.emptyQuote (.closed (by decide)))

end Tests

/-- The report on `a{100}(?i){100}` would be right if its second repeat made no difference. -/
theorem reports_iff_kept_flagged :
    (unsupported "a{100}(?i){100}".toList = some .tooManyRepeats ↔ (hundreds .flags).TooMany) ↔
      ((hundreds .flags).kept.TooMany ↔ (hundreds .flags).TooMany) :=
  reports_iff_kept _ (hundreds .flags) flagged_parses ⟨trivial, trivial⟩

/-- Nothing is reported of `a{100}(?i){100}` and `a{100}\Q\E{100}`, which Go refuses for 10000 repetitions. -/
theorem not_reports_flagged :
    (Parses .regex "a{100}(?i){100}".toList [] (hundreds .flags) ∧ (hundreds .flags).Refused ∧
        ¬(unsupported "a{100}(?i){100}".toList = some .tooManyRepeats ↔ (hundreds .flags).TooMany)) ∧
      Parses .regex "a{100}\\Q\\E{100}".toList [] (hundreds .emptyQuote) ∧ (hundreds .emptyQuote).Refused ∧
        ¬(unsupported "a{100}\\Q\\E{100}".toList = some .tooManyRepeats ↔ (hundreds .emptyQuote).TooMany) := by
  have hmany (gap : Gap) : (hundreds gap).TooMany := by cases gap <;> decide
  have hfalse {text : Text} (gap : Gap) (hnone : unsupported text = none) :
      ¬(unsupported text = some .tooManyRepeats ↔ (hundreds gap).TooMany) := by
    rw [hnone]
    exact fun h => absurd (h.mpr (hmany gap)) (by simp)
  have hrefused (gap : Gap) : (hundreds gap).Refused := (hundreds gap).tooMany_iff_refused.mp (hmany gap)
  exact ⟨⟨flagged_parses, hrefused .flags, hfalse .flags (by decide)⟩, quoted_parses, hrefused .emptyQuote,
    hfalse .emptyQuote (by decide)⟩

end Waterdisco.Re2
