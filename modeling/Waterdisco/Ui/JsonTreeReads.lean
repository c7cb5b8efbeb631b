import Mathlib.Data.Bool.AllAny
import Waterdisco.Ui.JsonTree

/-!
# What the editor's parser reads

The grammar of RFC 8259 with comments as white space, over a text that starts at an offset: it
gives the tree of the value with the spans of its parts.

    Spells q n off t v      the text `t` at `off` writes `v`, which has at most `n` levels
    Document q text root    a document
    parse_document          every document is read
-/

namespace Waterdisco.JsonEdit

open List Except Prod Value

/-! ## Grammar -/

/-- What may stand between two tokens. -/
inductive Trivia : Text → Prop where
  | nil : Trivia []
  | space {c : UInt16} {rest : Text} : isSpace c = true → Trivia rest → Trivia (c :: rest)
  | line {body rest : Text} : ch '\n' ∉ body → Trivia rest → Trivia (ch '/' :: ch '/' :: (body ++ ch '\n' :: rest))
  | block {body rest : Text} : ¬[ch '*', ch '/'] <:+: body → Trivia rest →
      Trivia (ch '/' :: ch '*' :: (body ++ ch '*' :: ch '/' :: rest))

/-- Behind the value a line comment may also end with the text. -/
inductive LastTrivia : Text → Prop where
  | trivia {a : Text} : Trivia a → LastTrivia a
  | line {a body : Text} : Trivia a → ch '\n' ∉ body → LastTrivia (a ++ ch '/' :: ch '/' :: body)

def isAsciiDigit (c : UInt16) : Bool := ch '0' ≤ c && c ≤ ch '9'

def Digits (t : Text) : Prop := t ≠ [] ∧ ∀ c ∈ t, isAsciiDigit c = true

/-- `int`: no digit stands behind a leading 0. -/
def IntText (t : Text) : Prop := Digits t ∧ (t.head? = some (ch '0') → t = [ch '0'])

def FracText (t : Text) : Prop := t = [] ∨ ∃ d, Digits d ∧ t = ch '.' :: d

def ExpText (t : Text) : Prop :=
  t = [] ∨ ∃ e sign d, (e = ch 'e' ∨ e = ch 'E') ∧ (sign = [] ∨ sign = [ch '+'] ∨ sign = [ch '-']) ∧ Digits d ∧
    t = e :: (sign ++ d)

/-- `number`, and whether it has neither fraction nor exponent. -/
inductive NumberText : Text → Bool → Prop where
  | mk {minus int frac exp : Text} : (minus = [] ∨ minus = [ch '-']) → IntText int → FracText frac → ExpText exp →
      NumberText (minus ++ (int ++ (frac ++ exp))) (frac.isEmpty && exp.isEmpty)

def escapes : List (UInt16 × UInt16) :=
  [(ch '"', 0x22), (ch '\\', 0x5C), (ch '/', 0x2F), (ch 'b', 0x08), (ch 'f', 0x0C), (ch 'n', 0x0A),
   (ch 'r', 0x0D), (ch 't', 0x09)]

/-- What stands between the quotes, and the text it writes. -/
inductive StringBody : Text → Text → Prop where
  | nil : StringBody [] []
  | unit {c : UInt16} {body text : Text} : 0x20 ≤ c → c ≠ ch '"' → c ≠ ch '\\' → StringBody body text →
      StringBody (c :: body) (c :: text)
  | escape {esc code : UInt16} {body text : Text} : (esc, code) ∈ escapes → StringBody body text →
      StringBody (ch '\\' :: esc :: body) (code :: text)
  | unicode {a b c d : UInt16} {body text : Text} : isHex a = true → isHex b = true → isHex c = true → isHex d = true →
      StringBody body text →
      StringBody (ch '\\' :: ch 'u' :: a :: b :: c :: d :: body)
        ((((hexValue a * 16 + hexValue b) * 16 + hexValue c) * 16 + hexValue d) :: text)

def quoted (body : Text) : Text := ch '"' :: (body ++ [ch '"'])

section
variable {D : Type} (q : Qt D)

/-- A value without parts, whose text starts at `off`. -/
inductive Scalar (off : Nat) : Text → Value D → Prop where
  | null : Scalar off (units "null") (.null ⟨off, 4⟩)
  | true : Scalar off (units "true") (.bool ⟨off, 4⟩ Bool.true)
  | false : Scalar off (units "false") (.bool ⟨off, 5⟩ Bool.false)
  | number {t : Text} {integral : Bool} {number : D} : NumberText t integral → q.toDouble t = some number →
      Scalar off t (.number ⟨off, t.length⟩ number integral)
  | string {body text : Text} : StringBody body text → Scalar off (quoted body) (.string ⟨off,
      (quoted body).length⟩ text)

/-- One or more elements of `R`, with commas between them. -/
inductive Elements (R : Nat → Text → Value D → Prop) : Nat → Text → List (Value D) → Prop where
  | last {off : Nat} {a t b : Text} {v : Value D} : Trivia a → R (off + a.length) t v → Trivia b →
      Elements R off (a ++ (t ++ b)) [v]
  | more {off : Nat} {a t b rest : Text} {v : Value D} {vs : List (Value D)} : Trivia a → R (off + a.length) t v →
      Trivia b → Elements R (off + a.length + t.length + b.length + 1) rest vs →
      Elements R off (a ++ (t ++ (b ++ ch ',' :: rest))) (v :: vs)

inductive ArrayText (R : Nat → Text → Value D → Prop) (off : Nat) : Text → Value D → Prop where
  | empty {a : Text} : Trivia a → ArrayText R off (ch '[' :: (a ++ [ch ']'])) (.array ⟨off, a.length + 2⟩ [])
  | elements {body : Text} {vs : List (Value D)} : Elements R (off + 1) body vs →
      ArrayText R off (ch '[' :: (body ++ [ch ']'])) (.array ⟨off, body.length + 2⟩ vs)

/-- A key with its span, a colon and a value of `R`. -/
inductive MemberText (R : Nat → Text → Value D → Prop) (off : Nat) : Text → Text → Span → Value D → Prop where
  | mk {body key a b t : Text} {v : Value D} : StringBody body key → Trivia a → Trivia b →
      R (off + (quoted body).length + a.length + 1 + b.length) t v →
      MemberText R off (quoted body ++ (a ++ ch ':' :: (b ++ t))) key ⟨off, (quoted body).length⟩ v

def Members.cons (key : Text) (keySpan : Span) (member : Value D) (m : Members D) : Members D :=
  ⟨key :: m.keys, keySpan :: m.keySpans, member :: m.members⟩

inductive MembersText (R : Nat → Text → Value D → Prop) : Nat → Text → Members D → Prop where
  | last {off : Nat} {a t b key : Text} {keySpan : Span} {v : Value D} : Trivia a →
      MemberText R (off + a.length) t key keySpan v → Trivia b →
      MembersText R off (a ++ (t ++ b)) (.cons key keySpan v {})
  | more {off : Nat} {a t b rest key : Text} {keySpan : Span} {v : Value D} {m : Members D} : Trivia a →
      MemberText R (off + a.length) t key keySpan v → Trivia b →
      MembersText R (off + a.length + t.length + b.length + 1) rest m →
      MembersText R off (a ++ (t ++ (b ++ ch ',' :: rest))) (.cons key keySpan v m)

inductive ObjectText (R : Nat → Text → Value D → Prop) (off : Nat) : Text → Value D → Prop where
  | empty {a : Text} : Trivia a → ObjectText R off (ch '{' :: (a ++ [ch '}'])) (.object ⟨off, a.length + 2⟩ [] [] [])
  | members {body : Text} {m : Members D} : MembersText R (off + 1) body m →
      ObjectText R off (ch '{' :: (body ++ [ch '}'])) (m.object ⟨off, body.length + 2⟩)

/-- The text at `off` writes the value, which is nested at most so many levels deep. -/
def Spells : Nat → Nat → Text → Value D → Prop
  | 0, off, t, v => Scalar q off t v
  | n + 1, off, t, v => Scalar q off t v ∨ ArrayText (Spells n) off t v ∨ ObjectText (Spells n) off t v

/-- The whole text writes the value. -/
def Document (levels : Nat) (text : Text) (root : Value D) : Prop :=
  ∃ a t b, Trivia a ∧ Spells q levels a.length t root ∧ LastTrivia b ∧ text = a ++ (t ++ b)

end

/-! ## Trivia -/

theorem skip_nil (mode : Mode) (pos : Nat) : skip mode pos [] = ⟨pos, []⟩ := by cases mode <;> rfl

variable {c : UInt16} {body b : Text}

theorem skip_space (hc : isSpace c = true) (pos : Nat) (rest : Text) :
    skip .between pos (c :: rest) = skip .between (pos + 1) rest := by
  cases rest <;> simp [skip, hc]

theorem skip_openLine (pos : Nat) (rest : Text) :
    skip .between pos (ch '/' :: ch '/' :: rest) = skip .line (pos + 2) rest := by
  have hslash : isSpace (ch '/') = false := by decide
  simp [skip, hslash]

theorem skip_openBlock (pos : Nat) (rest : Text) :
    skip .between pos (ch '/' :: ch '*' :: rest) = skip .block (pos + 2) rest := by
  have hslash : isSpace (ch '/') = false := by decide
  have hline : ch '*' ≠ ch '/' := by decide
  simp [skip, hslash, hline]

theorem skip_line (h : ch '\n' ∉ body) (pos : Nat) (rest : Text) :
    skip .line pos (body ++ ch '\n' :: rest) = skip .between (pos + body.length + 1) rest := by
  induction body generalizing pos with
  | nil => simp [skip]
  | cons c body ih =>
    rw [mem_cons, not_or] at h
    rw [cons_append, skip, if_neg (Ne.symm h.1), ih h.2, length_cons]
    congr 1
    omega

theorem skip_lastLine (h : ch '\n' ∉ body) (pos : Nat) : skip .line pos body = ⟨pos + body.length, []⟩ := by
  induction body generalizing pos with
  | nil => rfl
  | cons c body ih =>
    rw [mem_cons, not_or] at h
    rw [skip, if_neg (Ne.symm h.1), ih h.2, length_cons]
    congr 1
    omega

theorem skip_block (h : ¬[ch '*', ch '/'] <:+: body) (pos : Nat) (rest : Text) :
    skip .block pos (body ++ ch '*' :: ch '/' :: rest) = skip .between (pos + body.length + 2) rest := by
  induction body generalizing pos with
  | nil => simp [skip]
  | cons c body ih =>
    have hrest : ¬[ch '*', ch '/'] <:+: body := fun hin => h (hin.trans (suffix_cons c body).isInfix)
    have hstep : skip .block pos (c :: (body ++ ch '*' :: ch '/' :: rest)) =
        skip .block (pos + 1) (body ++ ch '*' :: ch '/' :: rest) := by
      cases body with
      | nil =>
        have hslash : ¬(c = ch '*' ∧ ch '*' = ch '/') := fun hc => absurd hc.2 (by decide)
        simp [skip, hslash]
      | cons d body =>
        have hclose : ¬(c = ch '*' ∧ d = ch '/') := by
          rintro ⟨rfl, rfl⟩
          exact h ⟨[], body, rfl⟩
        rw [cons_append, skip]
        simp only [hclose, if_false]
    rw [cons_append, hstep, ih hrest, length_cons]
    congr 1
    omega

theorem Trivia.skip {a : Text} (h : Trivia a) (pos : Nat) (rest : Text) :
    JsonEdit.skip .between pos (a ++ rest) = JsonEdit.skip .between (pos + a.length) rest := by
  induction h generalizing pos with
  | nil => rfl
  | space hc _ ih =>
    rw [cons_append, skip_space hc, ih, length_cons]
    congr 1
    omega
  | line hbody _ ih =>
    rw [cons_append, cons_append, skip_openLine, append_assoc, cons_append, skip_line hbody, ih]
    congr 1
    simp only [length_cons, length_append]
    omega
  | block hbody _ ih =>
    rw [cons_append, cons_append, skip_openBlock, append_assoc, cons_append, cons_append,
      skip_block hbody, ih]
    congr 1
    simp only [length_cons, length_append]
    omega

theorem LastTrivia.skip (h : LastTrivia b) (pos : Nat) :
    JsonEdit.skip .between pos b = ⟨pos + b.length, []⟩ := by
  cases h with
  | trivia ha =>
    have hskip := ha.skip pos []
    rw [append_nil] at hskip
    rw [hskip, skip_nil]
  | line ha hbody =>
    rw [ha.skip, skip_openLine, skip_lastLine hbody]
    congr 1
    simp only [length_cons, length_append]
    omega

/-- A unit that starts a token. -/
def Opens (c : UInt16) : Prop := isSpace c = false ∧ c ≠ ch '/'

theorem skip_token (h : Opens c) (pos : Nat) (rest : Text) :
    skip .between pos (c :: rest) = ⟨pos, c :: rest⟩ := by
  cases rest with
  | nil => simp [skip, h.1]
  | cons next rest => simp [skip, h.1, h.2]

theorem Trivia.skipTrivia {a : Text} (ha : Trivia a) (hc : Opens c) (pos : Nat) (rest : Text) :
    JsonEdit.skipTrivia ⟨pos, a ++ c :: rest⟩ = ⟨pos + a.length, c :: rest⟩ :=
  (ha.skip pos (c :: rest)).trans (skip_token hc (pos + a.length) rest)

/-! ## Tokens -/

section
variable {D : Type} (q : Qt D)

theorem escaped_of_mem {esc code : UInt16} (h : (esc, code) ∈ escapes) : escaped esc = some code := by
  have hall : ∀ e ∈ escapes, escaped e.1 = some e.2 := all_iff_forall_prop.mp (by decide)
  exact hall (esc, code) h

theorem StringBody.loop {body text : Text} (h : StringBody body text) (start pos : Nat) (tail read : Text) :
    stringLoop q start pos (body ++ ch '"' :: tail) read = .ok (read ++ text, ⟨pos + body.length + 1, tail⟩) := by
  have hback : ch '\\' ≠ ch '"' := by decide
  induction h generalizing pos read with
  | nil =>
    rw [nil_append, stringLoop.eq_def]
    simp
  | unit hctl hquote hescape _ ih =>
    have hnot : ¬_ < (0x20 : UInt16) := UInt16.not_lt.mpr hctl
    rw [cons_append, stringLoop.eq_def]
    simp only [hquote, hescape, hnot, if_false, ih, append_assoc, singleton_append, length_cons]
    congr 4
    omega
  | escape hesc _ ih =>
    rw [cons_append, cons_append, stringLoop.eq_def]
    simp only [hback, if_false, if_true, escaped_of_mem hesc, ih, append_assoc, singleton_append, length_cons]
    congr 4
    omega
  | unicode ha hb hc hd _ ih =>
    have hu : escaped (ch 'u') = none := by decide
    rw [cons_append, cons_append, cons_append, cons_append, cons_append, cons_append,
      stringLoop.eq_def]
    simp only [hback, if_false, if_true, hu, q.toUShort_hex _ _ _ _ ha hb hc hd, ih, append_assoc,
      singleton_append, length_cons]
    congr 4
    omega

theorem parseString_quoted {body text : Text} (h : StringBody body text) (pos : Nat) (tail : Text) :
    parseString q ⟨pos, quoted body ++ tail⟩ =
      .ok (text, ⟨pos, (quoted body).length⟩, ⟨pos + (quoted body).length, tail⟩) := by
  have hloop := h.loop q pos (pos + 1) tail []
  have hlen : (quoted body).length = body.length + 2 := by simp [quoted]
  have htext : (⟨pos, quoted body ++ tail⟩ : Cursor).rest.tail = body ++ ch '"' :: tail := by simp [quoted]
  rw [parseString, htext, hloop, hlen]
  simp only [nil_append, ok.injEq, mk.injEq, Span.mk.injEq, Cursor.mk.injEq, true_and, and_true]
  omega

theorem parseKeyword_append (keyword : Text) (value : Span → Value D) (pos : Nat) (tail : Text) :
    parseKeyword keyword value ⟨pos, keyword ++ tail⟩ =
      .ok (value ⟨pos, keyword.length⟩, ⟨pos + keyword.length, tail⟩) := by
  simp [parseKeyword]

/-! ### Numbers -/

/-- The scanner takes the text, wherever it stands, and has then seen a fraction or an exponent, or not. -/
def Scans (before : Bool) (t : Text) (after : Bool) : Prop :=
  ∀ tail, scanNumber q before (t ++ tail) = (t ++ (scanNumber q after tail).1, (scanNumber q after tail).2)

theorem Scans.append {q : Qt D} {a b : Text} {first second third : Bool} (ha : Scans q first a second)
    (hb : Scans q second b third) : Scans q first (a ++ b) third := by
  intro tail
  rw [append_assoc, ha, hb, append_assoc]

theorem scans_nil (fractional : Bool) : Scans q fractional [] fractional := fun _ => rfl

variable {tail t : Text} {c : UInt16}

theorem isDigit_of_ascii (h : isAsciiDigit c = true) : q.isDigit c = true := by
  have hlt : c < 128 := by
    rw [isAsciiDigit, Bool.and_eq_true, decide_eq_true_eq, decide_eq_true_eq] at h
    exact UInt16.lt_of_le_of_lt h.2 (by decide)
  rw [q.isDigit_ascii c hlt]
  exact h

theorem scans_digits (h : ∀ c ∈ t, isAsciiDigit c = true) (fractional : Bool) :
    Scans q fractional t fractional := by
  intro tail
  induction t with
  | nil => rfl
  | cons c t ih =>
    have hc := isDigit_of_ascii q (h c (.head _))
    rw [cons_append, scanNumber.eq_def]
    simp only [hc, if_true, ih (fun x hx => h x (mem_cons_of_mem c hx)), cons_append]

/-- A point or the letter of an exponent. -/
def isMark (c : UInt16) : Prop := c = ch '.' ∨ c = ch 'e' ∨ c = ch 'E'

theorem isDigit_mark (h : isMark c) : q.isDigit c = false := by
  rcases h with rfl | rfl | rfl <;> exact (q.isDigit_ascii _ (by decide)).trans (by decide)

theorem isSign_digit (h : isAsciiDigit c = true) : isSign c = false := by
  have hminus : c ≠ ch '-' := by
    rintro rfl
    cases h
  have hplus : c ≠ ch '+' := by
    rintro rfl
    cases h
  simp [isSign, hminus, hplus]

theorem scans_mark (hc : isMark c) {d : Text} (hd : Digits d) (fractional : Bool) :
    Scans q fractional (c :: d) true := by
  intro tail
  obtain ⟨hne, hdigits⟩ := hd
  cases d with
  | nil => exact absurd rfl hne
  | cons x d =>
    have hsign := isSign_digit (hdigits x (.head _))
    have hscan := scans_digits q hdigits true tail
    rw [cons_append] at hscan
    rw [cons_append, cons_append, scanNumber.eq_def]
    simp only [isDigit_mark q hc, Bool.false_eq_true, if_false, hsign, hscan, cons_append]
    exact if_pos hc

theorem scans_signedMark {sign : UInt16} (hc : isMark c) (hs : isSign sign = true) {d : Text}
    (hd : ∀ x ∈ d, isAsciiDigit x = true) (fractional : Bool) : Scans q fractional (c :: sign :: d) true := by
  intro tail
  rw [cons_append, cons_append, scanNumber.eq_def]
  simp only [isDigit_mark q hc, Bool.false_eq_true, if_false, hs, if_true, scans_digits q hd true tail, cons_append]
  exact if_pos hc

theorem scans_frac (h : FracText t) : Scans q false t !t.isEmpty := by
  rcases h with rfl | ⟨d, hd, rfl⟩
  · exact scans_nil q false
  · exact scans_mark q (.inl rfl) hd false

theorem scans_exp (h : ExpText t) (fractional : Bool) : Scans q fractional t (fractional || !t.isEmpty) := by
  rcases h with rfl | ⟨e, sign, d, he, hsign, hd, rfl⟩
  · simpa using scans_nil q fractional
  have hmark : isMark e := .inr he
  rw [isEmpty_cons, Bool.not_false, Bool.or_true]
  rcases hsign with rfl | rfl | rfl
  · exact scans_mark q hmark hd fractional
  · exact scans_signedMark q hmark (by decide) hd.2 fractional
  · exact scans_signedMark q hmark (by decide) hd.2 fractional

/-- What may follow a value: white space, a comment, the punctuation of its container, or nothing. -/
def Delimited (tail : Text) : Prop :=
  ∀ c ∈ tail.head?, isSpace c = true ∨ c = ch '/' ∨ c = ch ',' ∨ c = ch ']' ∨ c = ch '}'

theorem scanNumber_delimited (h : Delimited tail) (fractional : Bool) :
    scanNumber q fractional tail = ([], fractional, tail) := by
  cases tail with
  | nil => rfl
  | cons c tail =>
    have hc : c < 128 ∧ isAsciiDigit c = false ∧ ¬isMark c := by
      have hspace : isSpace c = true → c = ch ' ' ∨ c = ch '\t' ∨ c = ch '\n' ∨ c = ch '\r' := by
        simp [isSpace, or_assoc]
      rcases h c rfl with hs | rfl | rfl | rfl | rfl
      · rcases hspace hs with rfl | rfl | rfl | rfl <;> simp only [isMark] <;> decide
      all_goals
        simp only [isMark]
        decide
    have hdigit : q.isDigit c = false := (q.isDigit_ascii c hc.1).trans hc.2.1
    rw [scanNumber.eq_def]
    simp only [hdigit, Bool.false_eq_true, if_false]
    exact if_neg hc.2.2

theorem signedNumber_text {integral : Bool} (h : NumberText t integral) (htail : Delimited tail) :
    signedNumber q (t ++ tail) = (t, !integral, tail) := by
  obtain ⟨hminus, ⟨⟨hne, hdigits⟩, -⟩, hfrac, hexp⟩ := h
  rename_i minus int frac exp
  have hscan := (scans_digits q hdigits false).append ((scans_frac q hfrac).append (scans_exp q hexp (!frac.isEmpty))) tail
  rw [scanNumber_delimited q htail, append_nil] at hscan
  have hflag : (!frac.isEmpty || !exp.isEmpty) = !(frac.isEmpty && exp.isEmpty) := (Bool.not_and _ _).symm
  rw [hflag] at hscan
  rcases hminus with rfl | rfl
  · rw [nil_append]
    cases int with
    | nil => exact absurd rfl hne
    | cons c int =>
      have hsign := isSign_digit (hdigits c mem_cons_self)
      rw [cons_append, cons_append] at hscan ⊢
      simp only [signedNumber, hsign, Bool.false_eq_true, if_false, hscan]
  · have hsign : isSign (ch '-') = true := by decide
    rw [cons_append, nil_append, cons_append]
    simp only [signedNumber, hsign, if_true, hscan]

theorem parseNumber_text {integral : Bool} (h : NumberText t integral) {number : D}
    (hnumber : q.toDouble t = some number) (pos : Nat) (htail : Delimited tail) :
    parseNumber q ⟨pos, t ++ tail⟩ = .ok (.number ⟨pos, t.length⟩ number integral, ⟨pos + t.length, tail⟩) := by
  have hne : t ≠ [] := by
    obtain ⟨hminus, ⟨⟨hint, -⟩, -⟩, -, -⟩ := h
    simp [hint]
  simp only [parseNumber, signedNumber_text q h htail, hne, if_false, hnumber, Bool.not_not]

end

/-! ## Values -/

theorem delimited_trivia (hb : Trivia b) {x : UInt16} (hx : x = ch ',' ∨ x = ch ']' ∨ x = ch '}') (tail : Text) :
    Delimited (b ++ x :: tail) := by
  intro c hc
  cases hb with
  | nil =>
    cases hc
    rcases hx with rfl | rfl | rfl <;> simp
  | space hspace =>
    cases hc
    exact .inl hspace
  | line | block =>
    cases hc
    exact .inr (.inl rfl)

theorem delimited_last (hb : LastTrivia b) : Delimited b := by
  cases hb with
  | trivia ha =>
    intro c hc
    cases ha with
    | nil => cases hc
    | space hspace =>
      cases hc
      exact .inl hspace
    | line | block =>
      cases hc
      exact .inr (.inl rfl)
  | line ha =>
    intro c hc
    cases ha with
    | nil =>
      cases hc
      exact .inr (.inl rfl)
    | space hspace =>
      cases hc
      exact .inl hspace
    | line | block =>
      cases hc
      exact .inr (.inl rfl)

section
variable {D : Type} (q : Qt D) {R : Nat → Text → Value D → Prop} {parse : Cursor → Except Failure (Value D × Cursor)}

/-- `parse` reads what `R` writes, behind any white space. -/
def Reads (R : Nat → Text → Value D → Prop) (parse : Cursor → Except Failure (Value D × Cursor)) : Prop :=
  ∀ {off : Nat} {a t tail : Text} {v : Value D}, Trivia a → R (off + a.length) t v → Delimited tail →
    parse ⟨off, a ++ (t ++ tail)⟩ = .ok (v, ⟨off + a.length + t.length, tail⟩)

/-- No text of `R` is empty or starts like white space or like an array's end. -/
def Starts (R : Nat → Text → Value D → Prop) : Prop :=
  ∀ {off : Nat} {t : Text} {v : Value D}, R off t v → ∃ c rest, t = c :: rest ∧ Opens c ∧ c ≠ ch ']'

theorem opens_comma : Opens (ch ',') := ⟨by decide, by decide⟩

theorem opens_close : Opens (ch ']') := ⟨by decide, by decide⟩

theorem opens_brace : Opens (ch '}') := ⟨by decide, by decide⟩

theorem opens_quote : Opens (ch '"') := ⟨by decide, by decide⟩

theorem opens_colon : Opens (ch ':') := ⟨by decide, by decide⟩

variable {off : Nat} {body a t key : Text} {v : Value D} {keySpan : Span}

theorem Elements.entered (hstarts : Starts R) {vs : List (Value D)} (h : Elements R off body vs)
    (tail : Text) : (skipTrivia ⟨off, body ++ tail⟩).peek ≠ ch ']' := by
  cases h with
  | last ha hR =>
    obtain ⟨c, rest, rfl, hopens, hc⟩ := hstarts hR
    rw [append_assoc, append_assoc, cons_append, ha.skipTrivia hopens]
    exact hc
  | more ha hR =>
    obtain ⟨c, rest, rfl, hopens, hc⟩ := hstarts hR
    rw [append_assoc, append_assoc, cons_append, ha.skipTrivia hopens]
    exact hc

theorem elementsLoop_turn (hreads : Reads R parse) (hstarts : Starts R) {b : Text}
    (ha : Trivia a) (hR : R (off + a.length) t v) (hb : Trivia b) {x : UInt16} (hx : x = ch ',' ∨ x = ch ']')
    (start fuel : Nat) (tail : Text) (elements : List (Value D)) :
    elementsLoop parse start (fuel + 1) (skipTrivia ⟨off, a ++ (t ++ (b ++ x :: tail))⟩) elements =
      if x = ch ',' then
        if (skipTrivia ⟨off + a.length + t.length + b.length + 1, tail⟩).peek = ch ']' then
          fail "Trailing comma" ((skipTrivia ⟨off + a.length + t.length + b.length + 1, tail⟩).pos - 1)
        else
          elementsLoop parse start fuel (skipTrivia ⟨off + a.length + t.length + b.length + 1, tail⟩) (elements ++ [v])
      else .ok (.array ⟨start, off + a.length + t.length + b.length + 1 - start⟩ (elements ++ [v]),
        ⟨off + a.length + t.length + b.length + 1, tail⟩) := by
  obtain ⟨c, rest, rfl, hopens, -⟩ := hstarts hR
  have hxopens : Opens x := by
    rcases hx with rfl | rfl
    · exact opens_comma
    · exact opens_close
  have hplace : R (off + a.length + ([] : Text).length) (c :: rest) v := hR
  have hread := hreads .nil hplace (delimited_trivia hb (hx.imp_right .inl) tail)
  rw [nil_append, length_nil, Nat.add_zero] at hread
  rw [cons_append, ha.skipTrivia hopens, elementsLoop, ← cons_append, hread]
  simp only [bind, Except.bind, hb.skipTrivia hxopens, Cursor.peek, Cursor.next, headD_cons, tail_cons]
  rcases hx with rfl | rfl
  · simp
  · have hne : ch ']' ≠ ch ',' := by decide
    simp [hne]

theorem elementsLoop_reads (hreads : Reads R parse) (hstarts : Starts R) {vs : List (Value D)}
    (h : Elements R off body vs) (start : Nat) {fuel : Nat} (tail : Text)
    (hfuel : (skipTrivia ⟨off, body ++ ch ']' :: tail⟩).rest.length < fuel) (elements : List (Value D)) :
    elementsLoop parse start fuel (skipTrivia ⟨off, body ++ ch ']' :: tail⟩) elements =
      .ok (.array ⟨start, off + body.length + 1 - start⟩ (elements ++ vs), ⟨off + body.length + 1, tail⟩) := by
  induction h generalizing fuel elements with
  | @last off a t b v ha hR hb =>
    obtain ⟨fuel, rfl⟩ := Nat.exists_eq_add_one_of_ne_zero (Nat.ne_of_gt (Nat.lt_of_le_of_lt (Nat.zero_le _) hfuel))
    have hne : ch ']' ≠ ch ',' := by decide
    rw [append_assoc, append_assoc, elementsLoop_turn hreads hstarts ha hR hb (.inr rfl), if_neg hne,
      length_append, length_append]
    simp only [Nat.add_assoc]
  | @more off a t b rest v vs ha hR hb hrest ih =>
    obtain ⟨fuel, rfl⟩ := Nat.exists_eq_add_one_of_ne_zero (Nat.ne_of_gt (Nat.lt_of_le_of_lt (Nat.zero_le _) hfuel))
    have hlast : (skipTrivia ⟨off + a.length + t.length + b.length + 1, rest ++ ch ']' :: tail⟩).rest.length < fuel := by
      have hle := skipTrivia_le ⟨off + a.length + t.length + b.length + 1, rest ++ ch ']' :: tail⟩
      obtain ⟨c, t', rfl, hopens, -⟩ := hstarts hR
      rw [append_assoc, append_assoc, cons_append, ha.skipTrivia hopens] at hfuel
      simp only [length_cons, length_append] at hfuel hle ⊢
      omega
    rw [append_assoc, append_assoc, append_assoc, cons_append,
      elementsLoop_turn hreads hstarts ha hR hb (.inl rfl), if_pos rfl, if_neg (hrest.entered hstarts (ch ']' :: tail)),
      ih hlast, append_assoc, singleton_append]
    simp only [length_append, length_cons, ok.injEq, mk.injEq, array.injEq, Span.mk.injEq,
      Cursor.mk.injEq, true_and, and_true]
    omega

theorem parseArray_text (hreads : Reads R parse) (hstarts : Starts R)
    (h : ArrayText R off t v) (tail : Text) :
    parseArray parse ⟨off, t ++ tail⟩ = .ok (v, ⟨off + t.length, tail⟩) := by
  cases h with
  | @empty a ha =>
    have hskip : skipTrivia (Cursor.next ⟨off, ch '[' :: (a ++ [ch ']']) ++ tail⟩) =
      ⟨off + 1 + a.length, ch ']' :: tail⟩ := by
      rw [cons_append, append_assoc]
      exact ha.skipTrivia opens_close (off + 1) tail
    rw [parseArray, hskip]
    simp only [Cursor.peek, Cursor.next, headD_cons, tail_cons, if_true, length_cons, length_append,
      length_nil, ok.injEq, mk.injEq, array.injEq, Span.mk.injEq, Cursor.mk.injEq, true_and, and_true]
    omega
  | @elements body vs hbody =>
    have hnext : Cursor.next ⟨off, ch '[' :: (body ++ [ch ']']) ++ tail⟩ = ⟨off + 1, body ++ ch ']' :: tail⟩ := by
      rw [cons_append, append_assoc]
      rfl
    rw [parseArray, hnext]
    simp only [hbody.entered hstarts (ch ']' :: tail), if_false]
    rw [elementsLoop_reads hreads hstarts hbody off tail (Nat.lt_succ_self _) []]
    simp only [nil_append, length_cons, length_append, length_nil, ok.injEq, mk.injEq,
      array.injEq, Span.mk.injEq, Cursor.mk.injEq, true_and, and_true]
    omega

/-! ## Members -/

theorem MemberText.opens (h : MemberText R off t key keySpan v) :
    ∃ rest, t = ch '"' :: rest := by
  cases h with
  | mk => exact ⟨_, rfl⟩

theorem parseMember_text (hreads : Reads R parse)
    (h : MemberText R off t key keySpan v) {tail : Text} (htail : Delimited tail) :
    parseMember q parse ⟨off, t ++ tail⟩ = .ok (key, keySpan, v, ⟨off + t.length, tail⟩) := by
  cases h with
  | @mk body key a b t v hbody ha hb hR =>
    have hskip : skipTrivia ⟨off, quoted body ++ (a ++ ch ':' :: (b ++ t)) ++ tail⟩ =
        ⟨off, quoted body ++ (a ++ ch ':' :: (b ++ (t ++ tail)))⟩ := by
      have hfirst := skip_token opens_quote off (body ++ [ch '"'] ++ (a ++ ch ':' :: (b ++ (t ++ tail))))
      rw [append_assoc, append_assoc, cons_append, append_assoc]
      exact hfirst
    have hexpect : expect (ch ':') "Expected a colon after the property name"
        ⟨off + (quoted body).length, a ++ ch ':' :: (b ++ (t ++ tail))⟩ =
        .ok ⟨off + (quoted body).length + a.length + 1, b ++ (t ++ tail)⟩ := by
      simp [expect, ha.skipTrivia opens_colon, Cursor.peek, Cursor.next]
    have hpeek : Cursor.peek ⟨off, quoted body ++ (a ++ ch ':' :: (b ++ (t ++ tail)))⟩ = ch '"' := rfl
    rw [parseMember, hskip]
    simp only [hpeek, ne_eq, not_true_eq_false, if_false, parseString_quoted q hbody, bind, Except.bind, hexpect,
      hreads hb hR htail, length_append, length_cons, Except.ok.injEq, Prod.mk.injEq, Cursor.mk.injEq, true_and,
      and_true]
    omega

theorem membersLoop_turn (hreads : Reads R parse) {b : Text}
    (ha : Trivia a) (hmember : MemberText R (off + a.length) t key keySpan v) (hb : Trivia b) {x : UInt16}
    (hx : x = ch ',' ∨ x = ch '}') (start fuel : Nat) (tail : Text) (m : Members D) :
    membersLoop q parse start (fuel + 1) (skipTrivia ⟨off, a ++ (t ++ (b ++ x :: tail))⟩) m =
      if x = ch ',' then
        if (skipTrivia ⟨off + a.length + t.length + b.length + 1, tail⟩).peek = ch '}' then
          fail "Trailing comma" ((skipTrivia ⟨off + a.length + t.length + b.length + 1, tail⟩).pos - 1)
        else
          membersLoop q parse start fuel (skipTrivia ⟨off + a.length + t.length + b.length + 1, tail⟩)
            (m.append key keySpan v)
      else .ok ((m.append key keySpan v).object ⟨start, off + a.length + t.length + b.length + 1 - start⟩,
        ⟨off + a.length + t.length + b.length + 1, tail⟩) := by
  have hxopens : Opens x := by
    rcases hx with rfl | rfl
    · exact opens_comma
    · exact opens_brace
  have hread := parseMember_text q hreads hmember (delimited_trivia hb (hx.imp_right .inr) tail)
  obtain ⟨rest, rfl⟩ := hmember.opens
  rw [cons_append, ha.skipTrivia opens_quote, membersLoop, ← cons_append, hread]
  simp only [bind, Except.bind, hb.skipTrivia hxopens, Cursor.peek, Cursor.next, headD_cons, tail_cons]
  rcases hx with rfl | rfl
  · simp
  · have hne : ch '}' ≠ ch ',' := by decide
    simp [hne]

theorem MembersText.entered {m : Members D} (h : MembersText R off body m) (tail : Text) :
    (skipTrivia ⟨off, body ++ tail⟩).peek ≠ ch '}' := by
  cases h with
  | last ha hmember =>
    obtain ⟨rest, rfl⟩ := hmember.opens
    rw [append_assoc, append_assoc, cons_append, ha.skipTrivia opens_quote]
    exact (by decide : ch '"' ≠ ch '}')
  | more ha hmember =>
    obtain ⟨rest, rfl⟩ := hmember.opens
    rw [append_assoc, append_assoc, cons_append, ha.skipTrivia opens_quote]
    exact (by decide : ch '"' ≠ ch '}')

/-- The members of one list after those of another. -/
def Members.concat (m n : Members D) : Members D := ⟨m.keys ++ n.keys, m.keySpans ++ n.keySpans, m.members ++ n.members⟩

theorem append_concat (m n : Members D) (key : Text) (keySpan : Span) (v : Value D) :
    (m.append key keySpan v).concat n = m.concat (.cons key keySpan v n) := by
  simp [Members.append, Members.concat, Members.cons]

theorem membersLoop_reads (hreads : Reads R parse) {n : Members D} (h : MembersText R off body n)
    (start : Nat) {fuel : Nat} (tail : Text) (hfuel : (skipTrivia ⟨off, body ++ ch '}' :: tail⟩).rest.length < fuel)
    (m : Members D) :
    membersLoop q parse start fuel (skipTrivia ⟨off, body ++ ch '}' :: tail⟩) m =
      .ok ((m.concat n).object ⟨start, off + body.length + 1 - start⟩, ⟨off + body.length + 1, tail⟩) := by
  induction h generalizing fuel m with
  | @last off a t b key keySpan v ha hmember hb =>
    obtain ⟨fuel, rfl⟩ := Nat.exists_eq_add_one_of_ne_zero (Nat.ne_of_gt (Nat.lt_of_le_of_lt (Nat.zero_le _) hfuel))
    have hne : ch '}' ≠ ch ',' := by decide
    rw [append_assoc, append_assoc, membersLoop_turn q hreads ha hmember hb (.inr rfl), if_neg hne,
      ← append_concat, length_append, length_append]
    simp only [Nat.add_assoc, Members.concat, append_nil]
  | @more off a t b rest key keySpan v n ha hmember hb hrest ih =>
    obtain ⟨fuel, rfl⟩ := Nat.exists_eq_add_one_of_ne_zero (Nat.ne_of_gt (Nat.lt_of_le_of_lt (Nat.zero_le _) hfuel))
    have hlast : (skipTrivia ⟨off + a.length + t.length + b.length + 1, rest ++ ch '}' :: tail⟩).rest.length < fuel := by
      have hle := skipTrivia_le ⟨off + a.length + t.length + b.length + 1, rest ++ ch '}' :: tail⟩
      obtain ⟨t', rfl⟩ := hmember.opens
      rw [append_assoc, append_assoc, cons_append, ha.skipTrivia opens_quote] at hfuel
      simp only [length_cons, length_append] at hfuel hle ⊢
      omega
    rw [append_assoc, append_assoc, append_assoc, cons_append,
      membersLoop_turn q hreads ha hmember hb (.inl rfl), if_pos rfl, if_neg (hrest.entered (ch '}' :: tail)),
      ih hlast, append_concat]
    simp only [length_append, length_cons, ok.injEq, mk.injEq, Members.object, object.injEq,
      Span.mk.injEq, Cursor.mk.injEq, true_and, and_true]
    omega

theorem parseObject_text (hreads : Reads R parse) (h : ObjectText R off t v)
    (tail : Text) : parseObject q parse ⟨off, t ++ tail⟩ = .ok (v, ⟨off + t.length, tail⟩) := by
  cases h with
  | @empty a ha =>
    have hskip : skipTrivia (Cursor.next ⟨off, ch '{' :: (a ++ [ch '}']) ++ tail⟩) =
      ⟨off + 1 + a.length, ch '}' :: tail⟩ := by
      rw [cons_append, append_assoc]
      exact ha.skipTrivia opens_brace (off + 1) tail
    rw [parseObject, hskip]
    simp only [Cursor.peek, Cursor.next, headD_cons, tail_cons, if_true, length_cons, length_append,
      length_nil, ok.injEq, mk.injEq, object.injEq, Span.mk.injEq, Cursor.mk.injEq, true_and, and_true]
    omega
  | @members body m hbody =>
    have hnext : Cursor.next ⟨off, ch '{' :: (body ++ [ch '}']) ++ tail⟩ = ⟨off + 1, body ++ ch '}' :: tail⟩ := by
      rw [cons_append, append_assoc]
      rfl
    rw [parseObject, hnext]
    simp only [hbody.entered (ch '}' :: tail), if_false]
    rw [membersLoop_reads q hreads hbody off tail (Nat.lt_succ_self _) {}]
    simp only [Members.concat, Members.object, nil_append, length_cons, length_append, length_nil,
      ok.injEq, mk.injEq, object.injEq, Span.mk.injEq, Cursor.mk.injEq, true_and, and_true]
    omega

/-! ## Documents -/

theorem NumberText.starts {integral : Bool} (h : NumberText t integral) :
    ∃ c rest, t = c :: rest ∧ (c = ch '-' ∨ isAsciiDigit c = true) := by
  obtain ⟨rfl | rfl, ⟨⟨hne, hdigits⟩, -⟩, -, -⟩ := h
  · rename_i int frac exp
    cases int with
    | nil => exact absurd rfl hne
    | cons c int => exact ⟨c, int ++ (frac ++ exp), rfl, .inr (hdigits c (.head _))⟩
  · exact ⟨_, _, rfl, .inl rfl⟩

/-- A number is left to the last branch of the switch. -/
theorem number_start {c : UInt16} (h : c = ch '-' ∨ isAsciiDigit c = true) :
    Opens c ∧ c ≠ ch ']' ∧ c ≠ ch '{' ∧ c ≠ ch '[' ∧ c ≠ ch '"' ∧ c ≠ ch 't' ∧ c ≠ ch 'f' ∧ c ≠ ch 'n' := by
  have hother : ∀ x : UInt16, x ≠ ch '-' → isAsciiDigit x = false → c ≠ x := by
    rintro x hminus hdigit rfl
    rcases h with h | h
    · exact hminus h
    · rw [hdigit] at h
      cases h
  have hspace : isSpace c = false := by
    simp only [isSpace, Bool.or_eq_false_iff, beq_eq_false_iff_ne]
    exact ⟨⟨⟨hother _ (by decide) (by decide), hother _ (by decide) (by decide)⟩, hother _ (by decide) (by decide)⟩,
      hother _ (by decide) (by decide)⟩
  exact ⟨⟨hspace, hother _ (by decide) (by decide)⟩, hother _ (by decide) (by decide), hother _ (by decide) (by decide),
    hother _ (by decide) (by decide), hother _ (by decide) (by decide), hother _ (by decide) (by decide),
    hother _ (by decide) (by decide), hother _ (by decide) (by decide)⟩

theorem Scalar.starts (h : Scalar q off t v) :
    ∃ c rest, t = c :: rest ∧ Opens c ∧ c ≠ ch ']' := by
  cases h with
  | null => exact ⟨_, _, rfl, ⟨by decide, by decide⟩, by decide⟩
  | true => exact ⟨_, _, rfl, ⟨by decide, by decide⟩, by decide⟩
  | false => exact ⟨_, _, rfl, ⟨by decide, by decide⟩, by decide⟩
  | number ht =>
    obtain ⟨c, rest, rfl, hc⟩ := ht.starts
    exact ⟨c, rest, rfl, (number_start hc).1, (number_start hc).2.1⟩
  | string => exact ⟨_, _, rfl, opens_quote, by decide⟩

theorem spells_starts (levels : Nat) : Starts (Spells q levels) := by
  intro off t v h
  cases levels with
  | zero => exact Scalar.starts q h
  | succ levels =>
    rcases h with h | h | h
    · exact h.starts
    · cases h with
      | empty | elements => exact ⟨_, _, rfl, ⟨by decide, by decide⟩, by decide⟩
    · cases h with
      | empty | members => exact ⟨_, _, rfl, ⟨by decide, by decide⟩, by decide⟩

theorem parseValue_trivia (left : Nat) (ha : Trivia a) {c : UInt16} (hc : Opens c) (off : Nat) (rest : Text) :
    parseValue q (left + 1) ⟨off, a ++ c :: rest⟩ = parseValue q (left + 1) ⟨off + a.length, c :: rest⟩ := by
  have hskip : skipTrivia ⟨off + a.length, c :: rest⟩ = ⟨off + a.length, c :: rest⟩ := skip_token hc _ rest
  simp only [parseValue, ha.skipTrivia hc, hskip]

theorem parseValue_scalar (left : Nat) (h : Scalar q off t v) {tail : Text}
    (htail : Delimited tail) : parseValue q (left + 1) ⟨off, t ++ tail⟩ = .ok (v, ⟨off + t.length, tail⟩) := by
  obtain ⟨c, rest, hstart, hopens, -⟩ := h.starts
  have hskip : skipTrivia ⟨off, t ++ tail⟩ = ⟨off, t ++ tail⟩ := by
    rw [hstart]
    exact skip_token hopens off (rest ++ tail)
  rw [parseValue, hskip]
  cases h with
  | null => exact parseKeyword_append (units "null") _ off tail
  | true => exact parseKeyword_append (units "true") (fun span => .bool span Bool.true) off tail
  | false => exact parseKeyword_append (units "false") (fun span => .bool span Bool.false) off tail
  | number ht hnumber =>
    obtain ⟨x, xs, hx, hfirst⟩ := ht.starts
    obtain ⟨-, -, hobject, harray, hstring, htrue, hfalse, hnull⟩ := number_start hfirst
    have hread := parseNumber_text q ht hnumber off htail
    subst hx
    simp only [cons_append, hobject, harray, hstring, htrue, hfalse, hnull, if_false]
    exact hread
  | string hbody =>
    have hread := parseString_quoted q hbody off tail
    have hobject : ch '"' ≠ ch '{' := by decide
    have harray : ch '"' ≠ ch '[' := by decide
    simp only [quoted, cons_append] at hread ⊢
    simp only [hobject, harray, if_false, if_true, hread, bind, Except.bind]

theorem parseValue_reads (levels : Nat) : Reads (Spells q levels) (parseValue q (levels + 1)) := by
  induction levels with
  | zero =>
    intro off a t tail v ha h htail
    obtain ⟨c, rest, rfl, hopens, -⟩ := spells_starts q 0 h
    rw [cons_append, parseValue_trivia q 0 ha hopens, ← cons_append]
    exact parseValue_scalar q 0 h htail
  | succ levels ih =>
    intro off a t tail v ha h htail
    obtain ⟨c, rest, hstart, hopens, -⟩ := spells_starts q (levels + 1) h
    have htrivia := parseValue_trivia q (levels + 1) ha hopens off (rest ++ tail)
    rw [← cons_append, ← hstart] at htrivia
    rw [htrivia]
    have hskip : skipTrivia ⟨off + a.length, t ++ tail⟩ = ⟨off + a.length, t ++ tail⟩ := by
      rw [hstart]
      exact skip_token hopens _ (rest ++ tail)
    rcases h with h | h | h
    · exact parseValue_scalar q (levels + 1) h htail
    · have hread := parseArray_text ih (spells_starts q levels) h tail
      have hobject : ch '[' ≠ ch '{' := by decide
      obtain ⟨t', rfl⟩ : ∃ t', t = ch '[' :: t' := by cases h <;> exact ⟨_, rfl⟩
      rw [parseValue, hskip]
      exact hread
    · have hread := parseObject_text q ih h tail
      obtain ⟨t', rfl⟩ : ∃ t', t = ch '{' :: t' := by cases h <;> exact ⟨_, rfl⟩
      rw [parseValue, hskip]
      exact hread

end

section
variable {D : Type} (q : Qt D)

/-- **Every document is read**, with its spans, and every text is answered. -/
theorem parse_document :
    (∀ text root, Document q kMaxParseDepth text root → parse q text = .ok root) ∧
      ∀ text, (∃ root, parse q text = .ok root) ∨
        ∃ message span, parse q text = .error (.error message span) ∧ span.offset ≤ text.length := by
  refine ⟨?_, parse_ends q⟩
  rintro text root ⟨a, t, b, ha, ht, hb, rfl⟩
  obtain ⟨c, rest, hstart, hopens, -⟩ := spells_starts q kMaxParseDepth ht
  have hfirst : skipTrivia ⟨0, a ++ (t ++ b)⟩ = ⟨a.length, t ++ b⟩ := by
    rw [hstart, cons_append, ha.skipTrivia hopens, Nat.zero_add]
  have hread := parseValue_reads q kMaxParseDepth .nil ht (delimited_last hb)
  simp only [nil_append, length_nil, Nat.add_zero] at hread
  have hne : t ++ b ≠ [] := by simp [hstart]
  have hend : (skipTrivia ⟨a.length + t.length, b⟩).rest = [] := by rw [skipTrivia, hb.skip]
  rw [parse, hfirst]
  simp only [hne, if_false, hread, bind, Except.bind, hend, ne_eq, not_true_eq_false]

end

section Tests

/-- The conversions of the tests: `1` is a double, and the exponent of `1e400` is too large. -/
def testQt : Qt Nat where
  isDigit := isAsciiDigit
  toDouble t := if t = units "1" then some 1 else none
  toUShort
    | [a, b, c, d] =>
      if isHex a && isHex b && isHex c && isHex d then
        some (((hexValue a * 16 + hexValue b) * 16 + hexValue c) * 16 + hexValue d)
      else none
    | _ => none
  isDigit_ascii _ _ := rfl
  toUShort_hex a b c d ha hb hc hd := by simp [ha, hb, hc, hd]

theorem one_spelled (levels : Nat) (off : Nat) : Spells testQt levels off (units "1") (.number ⟨off, 1⟩ 1 true) := by
  have hone : NumberText (units "1") true := by
    have hint : IntText (units "1") := ⟨⟨by decide, all_iff_forall_prop.mp (by decide)⟩, by decide⟩
    exact .mk (.inl rfl) hint (.inl rfl) (.inl rfl)
  have hscalar : Scalar testQt off (units "1") (.number ⟨off, 1⟩ 1 true) := .number hone rfl
  cases levels with
  | zero => exact hscalar
  | succ => exact .inl hscalar

end Tests

/-- A list with a space in it and a comment behind it. -/
theorem parse_document_commented : parse testQt (units "[ 1]//") = .ok (.array ⟨0, 4⟩ [.number ⟨2, 1⟩ 1 true]) := by
  have hspace : Trivia [ch ' '] := .space (by decide) .nil
  have hinside : Elements (Spells testQt 95) 1 ([ch ' '] ++ (units "1" ++ [])) [.number ⟨2, 1⟩ 1 true] :=
    .last hspace (one_spelled 95 2) .nil
  have hcomment : LastTrivia ([] ++ ch '/' :: ch '/' :: []) := .line .nil (by decide)
  exact (parse_document testQt).1 _ _ ⟨[], units "[ 1]", units "//", .nil,
    .inr (.inl (.elements hinside)), hcomment, rfl⟩

/-- The number `1e400` of the grammar is not read. -/
theorem not_parse_overflow :
    NumberText (units "1e400") false ∧ parse testQt (units "1e400") = .error (.error "Invalid number" ⟨0, 5⟩) := by
  have hint : IntText (units "1") := ⟨⟨by decide, all_iff_forall_prop.mp (by decide)⟩, by decide⟩
  have hexp : ExpText (units "e400") :=
    .inr ⟨ch 'e', [], units "400", .inl rfl, .inl rfl, ⟨by decide, all_iff_forall_prop.mp (by decide)⟩, rfl⟩
  have hnumber : NumberText ([] ++ (units "1" ++ ([] ++ units "e400"))) false := .mk (.inl rfl) hint (.inl rfl) hexp
  exact ⟨hnumber, rfl⟩

end Waterdisco.JsonEdit
