import Mathlib.Tactic.SplitIfs

/-!
# The editor's JSON parser

`JsonEdit::Parse` reads a document with comments into a tree whose values and keys know where
they stand.  A text is its UTF-16 code units; what is used of Qt's number conversions is a
parameter (`Qt`).

    skip mode pos rest           white space and comments
    parseValue q left c          a value, with `left` levels of nesting left
    parse q text                 a document
-/

namespace Waterdisco.JsonEdit

open List Prod

/-- A `QString`. -/
abbrev Text := List UInt16

/-- `QLatin1Char`. -/
def ch (c : Char) : UInt16 := UInt16.ofNat c.toNat

/-- `QStringLiteral` of ASCII. -/
def units (s : String) : Text := s.toList.map ch

structure Span where
  offset : Nat := 0
  length : Nat := 0
deriving DecidableEq

/-- A value with its span; an object's keys, their spans and the members are in the same order. -/
inductive Value (D : Type) where
  | null (span : Span)
  | bool (span : Span) (boolValue : Bool)
  | number (span : Span) (numberValue : D) (integral : Bool)
  | string (span : Span) (stringValue : Text)
  | array (span : Span) (elements : List (Value D))
  | object (span : Span) (keys : List Text) (keySpans : List Span) (members : List (Value D))

def isHex (c : UInt16) : Bool :=
  (ch '0' ≤ c && c ≤ ch '9') || (ch 'a' ≤ c && c ≤ ch 'f') || (ch 'A' ≤ c && c ≤ ch 'F')

def hexValue (c : UInt16) : UInt16 :=
  if c ≤ ch '9' then c - ch '0' else if c ≤ ch 'F' then c - ch 'A' + 10 else c - ch 'a' + 10

/-- What is used of Qt's characters and conversions. -/
structure Qt (D : Type) where
  /-- `QChar::isDigit`. -/
  isDigit : UInt16 → Bool
  /-- `QString::toDouble`, where it succeeds. -/
  toDouble : Text → Option D
  /-- `QString::toUShort` with base 16. -/
  toUShort : Text → Option UInt16
  isDigit_ascii : ∀ c, c < 128 → isDigit c = (ch '0' ≤ c && c ≤ ch '9')
  toUShort_hex : ∀ a b c d, isHex a → isHex b → isHex c → isHex d →
    toUShort [a, b, c, d] = some (((hexValue a * 16 + hexValue b) * 16 + hexValue c) * 16 + hexValue d)

/-- The text from `m_pos` on, and `m_pos`. -/
structure Cursor where
  pos : Nat
  rest : Text

/-- A failed parse; `stuck` is a loop that did not come to its end. -/
inductive Failure where
  | stuck
  | error (message : String) (span : Span)

def kMaxParseDepth : Nat := 96

def fail {α : Type} (message : String) (offset : Nat) (length : Nat := 1) : Except Failure α :=
  .error (.error message ⟨offset, length⟩)

/-! ## Tokens -/

def isSpace (c : UInt16) : Bool := c == ch ' ' || c == ch '\t' || c == ch '\n' || c == ch '\r'

/-- The three loops of `skipTrivia`. -/
inductive Mode where
  | between
  | line
  | block

def skip : Mode → Nat → Text → Cursor
  | _, pos, [] => ⟨pos, []⟩
  | .between, pos, c :: rest =>
    if isSpace c then skip .between (pos + 1) rest
    else
      match rest with
      | [] => ⟨pos, [c]⟩
      | next :: rest =>
        if c = ch '/' ∧ next = ch '/' then skip .line (pos + 2) rest
        else if c = ch '/' ∧ next = ch '*' then skip .block (pos + 2) rest
        else ⟨pos, c :: next :: rest⟩
  | .line, pos, c :: rest =>
    -- the line's end is white space of the outer loop
    if c = ch '\n' then skip .between (pos + 1) rest else skip .line (pos + 1) rest
  | .block, pos, c :: rest =>
    match rest with
    | [] => ⟨pos + 1, []⟩
    | next :: rest =>
      if c = ch '*' ∧ next = ch '/' then skip .between (pos + 2) rest else skip .block (pos + 1) (next :: rest)

def skipTrivia (c : Cursor) : Cursor := skip .between c.pos c.rest

/-- 0 at the end. -/
def Cursor.peek (c : Cursor) : UInt16 := c.rest.headD 0

/-- `m_pos++`. -/
def Cursor.next (c : Cursor) : Cursor := ⟨c.pos + 1, c.rest.tail⟩

def expect (c : UInt16) (message : String) (cursor : Cursor) : Except Failure Cursor :=
  let cursor := skipTrivia cursor
  if cursor.peek ≠ c then fail message cursor.pos else .ok cursor.next

/-- What an escape of one letter stands for. -/
def escaped (esc : UInt16) : Option UInt16 :=
  if esc = ch '"' then some (ch '"')
  else if esc = ch '\\' then some (ch '\\')
  else if esc = ch '/' then some (ch '/')
  else if esc = ch 'b' then some 8
  else if esc = ch 'f' then some 12
  else if esc = ch 'n' then some 10
  else if esc = ch 'r' then some 13
  else if esc = ch 't' then some 9
  else none

section
variable {D : Type} (q : Qt D)

def stringLoop (start : Nat) : Nat → Text → Text → Except Failure (Text × Cursor)
  | _, [], _ => fail "Unterminated string" start
  | pos, c :: rest, text =>
    if c = ch '"' then .ok (text, ⟨pos + 1, rest⟩)
    else if c = ch '\\' then
      match rest with
      | [] => fail "Unterminated escape sequence" pos
      | esc :: rest =>
        match escaped esc with
        | some unit => stringLoop start (pos + 2) rest (text ++ [unit])
        | none =>
          if esc = ch 'u' then
            match rest with
            | h₁ :: h₂ :: h₃ :: h₄ :: rest =>
              match q.toUShort [h₁, h₂, h₃, h₄] with
              | some code => stringLoop start (pos + 6) rest (text ++ [code])
              | none => fail "Invalid unicode escape sequence" pos 6
            | _ => fail "Incomplete unicode escape sequence" pos 2
          else fail "Invalid escape sequence" pos 2
    else if c < 0x20 then fail "Control character in string" pos
    else stringLoop start (pos + 1) rest (text ++ [c])

/-- The string, its span and what follows. -/
def parseString (c : Cursor) : Except Failure (Text × Span × Cursor) :=
  match stringLoop q c.pos (c.pos + 1) c.rest.tail [] with
  | .error failure => .error failure
  | .ok (text, after) => .ok (text, ⟨c.pos, after.pos - c.pos⟩, after)

def parseKeyword (keyword : Text) (value : Span → Value D) (c : Cursor) : Except Failure (Value D × Cursor) :=
  if c.rest.take keyword.length ≠ keyword then fail "Invalid value" c.pos
  else .ok (value ⟨c.pos, keyword.length⟩, ⟨c.pos + keyword.length, c.rest.drop keyword.length⟩)

def isSign (c : UInt16) : Bool := c == ch '-' || c == ch '+'

/-- What the loop of `parseNumber` takes, whether it saw a fraction or an exponent, and what follows. -/
def scanNumber : Bool → Text → Text × Bool × Text
  | fractional, [] => ([], fractional, [])
  | fractional, c :: rest =>
    if q.isDigit c then
      let scanned := scanNumber fractional rest
      (c :: scanned.1, scanned.2)
    else if c = ch '.' ∨ c = ch 'e' ∨ c = ch 'E' then
      match rest with
      | [] => ([c], true, [])
      | sign :: rest =>
        if isSign sign then
          let scanned := scanNumber true rest
          (c :: sign :: scanned.1, scanned.2)
        else
          let scanned := scanNumber true (sign :: rest)
          (c :: scanned.1, scanned.2)
    else ([], fractional, c :: rest)

/-- A sign, then what the loop takes. -/
def signedNumber (text : Text) : Text × Bool × Text :=
  match text with
  | [] => ([], false, [])
  | c :: rest =>
    if isSign c then
      let scanned := scanNumber q false rest
      (c :: scanned.1, scanned.2)
    else scanNumber q false (c :: rest)

def parseNumber (c : Cursor) : Except Failure (Value D × Cursor) :=
  let scanned := signedNumber q c.rest
  if scanned.1 = [] then fail "Invalid value" c.pos
  else
    match q.toDouble scanned.1 with
    | none => fail "Invalid number" c.pos scanned.1.length
    | some number => .ok (.number ⟨c.pos, scanned.1.length⟩ number !scanned.2.1, ⟨c.pos + scanned.1.length, scanned.2.2⟩)

/-! ## Values -/

/-- The loop of `parseArray`, which `parse` reads the elements for. -/
def elementsLoop (parse : Cursor → Except Failure (Value D × Cursor)) (start : Nat) :
    Nat → Cursor → List (Value D) → Except Failure (Value D × Cursor)
  | 0, _, _ => .error .stuck
  | fuel + 1, c, elements => do
    let (element, c) ← parse c
    let elements := elements ++ [element]
    let c := skipTrivia c
    if c.peek = ch ',' then
      let after := skipTrivia c.next
      if after.peek = ch ']' then fail "Trailing comma" (after.pos - 1) else elementsLoop parse start fuel after elements
    else if c.peek = ch ']' then .ok (.array ⟨start, c.pos + 1 - start⟩ elements, c.next)
    else fail "Expected a comma or a closing bracket" c.pos

def parseArray (parse : Cursor → Except Failure (Value D × Cursor)) (c : Cursor) : Except Failure (Value D × Cursor) :=
  let inside := skipTrivia c.next
  if inside.peek = ch ']' then .ok (.array ⟨c.pos, inside.pos + 1 - c.pos⟩ [], inside.next)
  else elementsLoop parse c.pos (inside.rest.length + 1) inside []

structure Members (D : Type) where
  keys : List Text := []
  keySpans : List Span := []
  members : List (Value D) := []

def Members.append (m : Members D) (key : Text) (keySpan : Span) (member : Value D) : Members D :=
  ⟨m.keys ++ [key], m.keySpans ++ [keySpan], m.members ++ [member]⟩

def Members.object (m : Members D) (span : Span) : Value D := .object span m.keys m.keySpans m.members

/-- A key, a colon and a value. -/
def parseMember (parse : Cursor → Except Failure (Value D × Cursor)) (c : Cursor) :
    Except Failure (Text × Span × Value D × Cursor) :=
  let c := skipTrivia c
  if c.peek ≠ ch '"' then fail "Expected a property name in quotes" c.pos
  else do
    let (key, keySpan, c) ← parseString q c
    let c ← expect (ch ':') "Expected a colon after the property name" c
    let (member, c) ← parse c
    .ok (key, keySpan, member, c)

def membersLoop (parse : Cursor → Except Failure (Value D × Cursor)) (start : Nat) :
    Nat → Cursor → Members D → Except Failure (Value D × Cursor)
  | 0, _, _ => .error .stuck
  | fuel + 1, c, members => do
    let (key, keySpan, member, c) ← parseMember q parse c
    let members := members.append key keySpan member
    let c := skipTrivia c
    if c.peek = ch ',' then
      let after := skipTrivia c.next
      if after.peek = ch '}' then fail "Trailing comma" (after.pos - 1) else membersLoop parse start fuel after members
    else if c.peek = ch '}' then .ok (members.object ⟨start, c.pos + 1 - start⟩, c.next)
    else fail "Expected a comma or a closing brace" c.pos

def parseObject (parse : Cursor → Except Failure (Value D × Cursor)) (c : Cursor) : Except Failure (Value D × Cursor) :=
  let inside := skipTrivia c.next
  if inside.peek = ch '}' then .ok (.object ⟨c.pos, inside.pos + 1 - c.pos⟩ [] [] [], inside.next)
  else membersLoop q parse c.pos (inside.rest.length + 1) inside {}

/-- `left` counts down: it is `kMaxParseDepth + 1 - depth`. -/
def parseValue : Nat → Cursor → Except Failure (Value D × Cursor)
  | 0, c => fail "The document is nested too deeply" c.pos
  | left + 1, c =>
    let c := skipTrivia c
    match c.rest with
    | [] => fail "Unexpected end of document" c.pos 0
    | head :: _ =>
      if head = ch '{' then parseObject q (parseValue left) c
      else if head = ch '[' then parseArray (parseValue left) c
      else if head = ch '"' then do
        let (text, span, c) ← parseString q c
        .ok (.string span text, c)
      else if head = ch 't' then parseKeyword (units "true") (fun span => .bool span true) c
      else if head = ch 'f' then parseKeyword (units "false") (fun span => .bool span false) c
      else if head = ch 'n' then parseKeyword (units "null") .null c
      else parseNumber q c

/-- `JsonEdit::Parse`. -/
def parse (text : Text) : Except Failure (Value D) :=
  let c := skipTrivia ⟨0, text⟩
  if c.rest = [] then fail "Empty document" c.pos 0
  else do
    let (root, c) ← parseValue q (kMaxParseDepth + 1) c
    let c := skipTrivia c
    if c.rest ≠ [] then fail "Unexpected content after the end of the document" c.pos else .ok root

end

/-! ## Every parse ends -/

/-- The size of the whole text. -/
def Cursor.size (c : Cursor) : Nat := c.pos + c.rest.length

/-- What a reader at a cursor gives: it has read something of the same text, or its error starts in the text or at
its end. -/
def Ends {α : Type} (after : α → Cursor) (c : Cursor) : Except Failure α → Prop
  | .ok x => (after x).size = c.size ∧ (after x).rest.length < c.rest.length
  | .error .stuck => False
  | .error (.error _ span) => span.offset ≤ c.size

variable {α : Type} {c : Cursor}

variable {after : α → Cursor}

theorem ends_fail {message : String} {offset length : Nat} (h : offset ≤ c.size) :
    Ends after c (fail message offset length) := h

variable {r : Except Failure α}

/-- A reader further on in the same text. -/
theorem Ends.of_later {later : Cursor} (h : Ends after later r)
    (hsize : later.size = c.size) (hrest : later.rest.length ≤ c.rest.length) : Ends after c r := by
  cases r with
  | ok x => exact ⟨h.1.trans hsize, Nat.lt_of_lt_of_le h.2 hrest⟩
  | error failure =>
    cases failure with
    | stuck => exact h
    | error message span => exact Nat.le_trans h (Nat.le_of_eq hsize)

/-- One reader after another. -/
theorem Ends.bind {β : Type} {last : β → Cursor}
    (h : Ends after c r) {f : α → Except Failure β}
    (hf : ∀ x, (after x).size = c.size → (after x).rest.length < c.rest.length → Ends last (after x) (f x)) :
    Ends last c (r >>= f) := by
  cases r with
  | ok x => exact (hf x h.1 h.2).of_later h.1 (Nat.le_of_lt h.2)
  | error failure =>
    cases failure with
    | stuck => exact h
    | error message span => exact h

/-- The same reader with another result. -/
theorem Ends.map {β : Type} {last : β → Cursor}
    (h : Ends after c r) {f : α → β} (hf : ∀ x, last (f x) = after x) : Ends last c (r >>= fun x => .ok (f x)) := by
  cases r with
  | ok x =>
    refine ⟨?_, ?_⟩
    · rw [hf]
      exact h.1
    · rw [hf]
      exact h.2
  | error failure =>
    cases failure with
    | stuck => exact h
    | error message span => exact h

theorem skip_ends (mode : Mode) (pos : Nat) (rest : Text) :
    (skip mode pos rest).size = pos + rest.length ∧ (skip mode pos rest).rest.length ≤ rest.length := by
  fun_induction skip mode pos rest with
  | case1 | case3 | case6 | case9 => simp [Cursor.size]
  | case2 | case4 | case5 | case7 | case8 | case10 | case11 =>
    simp only [length_cons] at *
    omega

theorem skipTrivia_size (c : Cursor) : (skipTrivia c).size = c.size := (skip_ends .between c.pos c.rest).1

theorem skipTrivia_le (c : Cursor) : (skipTrivia c).rest.length ≤ c.rest.length := (skip_ends .between c.pos c.rest).2

theorem Cursor.pos_le_size (c : Cursor) : c.pos ≤ c.size := Nat.le_add_right _ _

/-- Where something that is not the end's 0 was seen, there is a unit to go past. -/
theorem Cursor.next_ends {x : UInt16} (h : c.peek = x) (hx : x ≠ 0) :
    c.next.size = c.size ∧ c.next.rest.length < c.rest.length := by
  rcases c with ⟨pos, _ | ⟨y, rest⟩⟩
  · exact absurd h.symm hx
  · simp [Cursor.next, Cursor.size]
    omega

open Cursor (next_ends peek pos_le_size)

/-- A reader that starts behind white space. -/
theorem Ends.of_skipped (h : Ends after (skipTrivia c) r) :
    Ends after c r := h.of_later (skipTrivia_size c) (skipTrivia_le c)

theorem expect_ends {x : UInt16} (hx : x ≠ 0) (message : String) (c : Cursor) : Ends id c (expect x message c) := by
  apply Ends.of_skipped
  unfold expect
  by_cases hpeek : (skipTrivia c).peek = x
  · simp only [hpeek, ne_eq, not_true_eq_false, if_false]
    exact next_ends hpeek hx
  · simp only [hpeek, ne_eq, not_false_eq_true, if_true]
    exact ends_fail (pos_le_size _)

section
variable {D : Type} (q : Qt D)

theorem stringLoop_ends {start pos : Nat} (hstart : start ≤ pos) (rest text : Text) :
    Ends snd ⟨pos, rest⟩ (stringLoop q start pos rest text) := by
  fun_induction stringLoop q start pos rest text with
  | case1 => exact ends_fail (by simp only [Cursor.size]; omega)
  | case2 => exact ⟨by simp only [Cursor.size, length_cons]; omega, by simp⟩
  | case3 | case6 | case7 | case8 | case9 => exact ends_fail (pos_le_size ⟨_, _⟩)
  | case4 | case5 | case10 =>
    rename_i ih
    refine (ih (by omega)).of_later ?_ ?_
    · simp only [Cursor.size, length_cons]
      omega
    · simp only [length_cons]
      omega

variable {c : Cursor}

theorem parseString_ends (h : c.peek = ch '"') : Ends (fun x => x.2.2) c (parseString q c) := by
  obtain ⟨hsize, hrest⟩ := next_ends h (by decide)
  have hloop := (stringLoop_ends q (Nat.le_succ c.pos) c.rest.tail []).of_later (c := c) hsize (Nat.le_of_lt hrest)
  unfold parseString
  cases hread : stringLoop q c.pos (c.pos + 1) c.rest.tail [] with
  | error failure =>
    rw [hread] at hloop
    cases failure with
    | stuck => exact hloop
    | error message span => exact hloop
  | ok read =>
    rwa [hread] at hloop

theorem parseKeyword_ends {keyword : Text} (hne : keyword ≠ []) (value : Span → Value D) (c : Cursor) :
    Ends snd c (parseKeyword keyword value c) := by
  unfold parseKeyword
  by_cases htake : c.rest.take keyword.length = keyword
  · simp only [htake, ne_eq, not_true_eq_false, if_false]
    have hlen : keyword.length ≤ c.rest.length := by
      have h := congrArg length htake
      rw [length_take] at h
      omega
    have hpos : 0 < keyword.length := length_pos_iff.mpr hne
    refine ⟨?_, ?_⟩
    · simp only [Cursor.size, length_drop]
      omega
    · simp only [length_drop]
      omega
  · simp only [htake, ne_eq, not_false_eq_true, if_true]
    exact ends_fail (pos_le_size c)

theorem scanNumber_append (fractional : Bool) (text : Text) :
    (scanNumber q fractional text).1 ++ (scanNumber q fractional text).2.2 = text := by
  fun_induction scanNumber q fractional text with
  | case1 | case3 | case6 => rfl
  | case2 | case4 | case5 =>
    rename_i ih
    simpa using ih

theorem signedNumber_append (text : Text) : (signedNumber q text).1 ++ (signedNumber q text).2.2 = text := by
  unfold signedNumber
  cases text with
  | nil => rfl
  | cons c rest =>
    by_cases hsign : isSign c = true
    · simpa [hsign] using scanNumber_append q false rest
    · simpa [hsign] using scanNumber_append q false (c :: rest)

theorem parseNumber_ends (c : Cursor) : Ends snd c (parseNumber q c) := by
  have hlen := congrArg length (signedNumber_append q c.rest)
  rw [length_append] at hlen
  unfold parseNumber
  by_cases hnil : (signedNumber q c.rest).1 = []
  · simp only [hnil, if_true]
    exact ends_fail (pos_le_size c)
  have hpos := length_pos_iff.mpr hnil
  simp only [hnil, if_false]
  cases q.toDouble (signedNumber q c.rest).1 with
  | none => exact ends_fail (pos_le_size c)
  | some number =>
    refine ⟨?_, ?_⟩
    · simp only [Cursor.size]
      omega
    · show (signedNumber q c.rest).2.2.length < c.rest.length
      omega

/-! ### Values -/

section
variable {parse : Cursor → Except Failure (Value D × Cursor)} (hparse : ∀ c, Ends snd c (parse c))
include hparse

omit hparse in
/-- Behind an item is a comma and the rest of the loop, or the closing unit. -/
theorem separator_ends {next : Cursor} {close : UInt16} (hnull : close ≠ 0)
    {loop : Cursor → Except Failure (Value D × Cursor)}
    {value : Value D} {message : String}
    (hloop : ∀ c, c.size = next.size → c.rest.length < next.rest.length → Ends snd c (loop c)) :
    Ends snd next
      (let c := skipTrivia next
      if c.peek = ch ',' then
        let after := skipTrivia c.next
        if after.peek = close then fail "Trailing comma" (after.pos - 1) else loop after
      else if c.peek = close then .ok (value, c.next)
      else fail message c.pos) := by
  apply Ends.of_skipped
  by_cases hcomma : (skipTrivia next).peek = ch ','
  · obtain ⟨hnsize, hnrest⟩ := next_ends hcomma (by decide)
    have hle := skipTrivia_le next
    have hle' := skipTrivia_le (skipTrivia next).next
    have hsize := skipTrivia_size next
    have hsize' := skipTrivia_size (skipTrivia next).next
    simp only [hcomma, if_true]
    by_cases hclose : (skipTrivia (skipTrivia next).next).peek = close
    · simp only [hclose, if_true]
      refine ends_fail ?_
      have hpos := (skipTrivia (skipTrivia next).next).pos_le_size
      omega
    · simp only [hclose, if_false]
      exact (hloop _ (by omega) (by omega)).of_later (by omega) (by omega)
  · simp only [hcomma, if_false]
    by_cases hclose : (skipTrivia next).peek = close
    · simp only [hclose, if_true]
      exact next_ends hclose hnull
    · simp only [hclose, if_false]
      exact ends_fail (pos_le_size _)

theorem elementsLoop_ends (start : Nat) {fuel : Nat} (hfuel : c.rest.length < fuel) (elements : List (Value D)) :
    Ends snd c (elementsLoop parse start fuel c elements) := by
  induction fuel generalizing c elements with
  | zero => exact absurd hfuel (Nat.not_lt_zero _)
  | succ fuel ih =>
    refine (hparse c).bind fun ⟨element, next⟩ _ hrest => ?_
    exact separator_ends (by decide) fun after _ hlater => ih (by dsimp only at hrest hlater; omega) _

theorem parseArray_ends (h : c.peek = ch '[') : Ends snd c (parseArray parse c) := by
  obtain ⟨hsize, hrest⟩ := next_ends h (by decide)
  refine Ends.of_later ?_ hsize (Nat.le_of_lt hrest)
  apply Ends.of_skipped
  unfold parseArray
  by_cases hclose : (skipTrivia c.next).peek = ch ']'
  · simp only [hclose, if_true]
    exact next_ends hclose (by decide)
  · simp only [hclose, if_false]
    exact elementsLoop_ends hparse c.pos (Nat.lt_succ_self _) []

theorem parseMember_ends (c : Cursor) : Ends (fun x => x.2.2.2) c (parseMember q parse c) := by
  apply Ends.of_skipped
  unfold parseMember
  by_cases hquote : (skipTrivia c).peek = ch '"'
  · simp only [hquote, ne_eq, not_true_eq_false, if_false]
    refine (parseString_ends q hquote).bind fun ⟨key, keySpan, next⟩ _ _ => ?_
    refine (expect_ends (by decide) _ next).bind fun next' _ _ => ?_
    exact (hparse next').map fun _ => rfl
  · simp only [hquote, ne_eq, not_false_eq_true, if_true]
    exact ends_fail (pos_le_size _)

theorem membersLoop_ends (start : Nat) {fuel : Nat} (hfuel : c.rest.length < fuel) (members : Members D) :
    Ends snd c (membersLoop q parse start fuel c members) := by
  induction fuel generalizing c members with
  | zero => exact absurd hfuel (Nat.not_lt_zero _)
  | succ fuel ih =>
    refine (parseMember_ends q hparse c).bind fun ⟨key, keySpan, member, next⟩ _ hrest => ?_
    exact separator_ends (by decide) fun after _ hlater => ih (by dsimp only at hrest hlater; omega) _

theorem parseObject_ends (h : c.peek = ch '{') : Ends snd c (parseObject q parse c) := by
  obtain ⟨hsize, hrest⟩ := next_ends h (by decide)
  refine Ends.of_later ?_ hsize (Nat.le_of_lt hrest)
  apply Ends.of_skipped
  unfold parseObject
  by_cases hclose : (skipTrivia c.next).peek = ch '}'
  · simp only [hclose, if_true]
    exact next_ends hclose (by decide)
  · simp only [hclose, if_false]
    exact membersLoop_ends q hparse c.pos (Nat.lt_succ_self _) {}

end

theorem parseValue_ends (left : Nat) (c : Cursor) : Ends snd c (parseValue q left c) := by
  induction left generalizing c with
  | zero => exact ends_fail (pos_le_size c)
  | succ left ih =>
    apply Ends.of_skipped
    cases hrest : (skipTrivia c).rest with
    | nil =>
      simp only [parseValue, hrest]
      exact ends_fail (pos_le_size _)
    | cons head rest =>
      have hpeek : (skipTrivia c).peek = head := by rw [peek, hrest]; rfl
      simp only [parseValue, hrest]
      split_ifs with hobject harray hstring htrue hfalse hnull
      · exact parseObject_ends q ih (hpeek.trans hobject)
      · exact parseArray_ends ih (hpeek.trans harray)
      · exact (parseString_ends q (hpeek.trans hstring)).map fun _ => rfl
      · exact parseKeyword_ends (by decide) _ _
      · exact parseKeyword_ends (by decide) _ _
      · exact parseKeyword_ends (by decide) _ _
      · exact parseNumber_ends q _

/-- **Every parse ends**, in a tree or in an error that starts in the text or at its end. -/
theorem parse_ends (text : Text) :
    (∃ root, parse q text = .ok root) ∨
      ∃ message span, parse q text = .error (.error message span) ∧ span.offset ≤ text.length := by
  have hsize : (skipTrivia ⟨0, text⟩).size = text.length := (skipTrivia_size ⟨0, text⟩).trans (Nat.zero_add _)
  have hstart : (skipTrivia ⟨0, text⟩).pos ≤ text.length := hsize ▸ pos_le_size _
  have hvalue := parseValue_ends q (kMaxParseDepth + 1) (skipTrivia ⟨0, text⟩)
  unfold parse
  by_cases hempty : (skipTrivia ⟨0, text⟩).rest = []
  · simp only [hempty, if_true]
    exact .inr ⟨_, _, rfl, hstart⟩
  simp only [hempty, if_false]
  cases hread : parseValue q (kMaxParseDepth + 1) (skipTrivia ⟨0, text⟩) with
  | error failure =>
    rw [hread] at hvalue
    cases failure with
    | stuck => exact hvalue.elim
    | error message span => exact .inr ⟨message, span, rfl, Nat.le_trans hvalue (Nat.le_of_eq hsize)⟩
  | ok read =>
    rw [hread] at hvalue
    by_cases hend : (skipTrivia read.2).rest = []
    · exact .inl ⟨read.1, by simp [bind, Except.bind, hend]⟩
    refine .inr ⟨"Unexpected content after the end of the document", ⟨(skipTrivia read.2).pos, 1⟩, ?_, ?_⟩
    · simp [bind, Except.bind, hend, fail]
    have hpos := (skipTrivia read.2).pos_le_size
    have hread' := skipTrivia_size read.2
    have hkept := hvalue.1
    show (skipTrivia read.2).pos ≤ text.length
    omega

end

end Waterdisco.JsonEdit
