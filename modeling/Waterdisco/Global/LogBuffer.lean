import Mathlib.Data.List.Infix
import Waterdisco.Lib.Segments

/-!
# The lines of the log in memory

`bufferUserLog` splits a chunk and keeps the newest lines, as many as fit two caps;
`bufferedLinesAfter` finds the lines after a number by arithmetic on the numbers, which are
contiguous.

    texts = the lines of a chunk, trimmed and clipped        (linesOf_texts)
    lines = the longest end of the log that fits             (evict_longest)
    linesAfter = the lines with a number above `after`       (linesAfter_spec)
    what a poller has not passed by it has received          (logBuffer_contract)
-/

namespace Waterdisco.LogBuffer

open List

def kMaxLines : Nat := 5000
/-- UTF-16 bytes of text held. -/
def kMaxBytes : Int := 4 * 1024 * 1024
def kMaxLineLength : Nat := 8192

abbrev Text := List UInt16

structure BufferedLine where
  seq : Nat
  time : Int
  text : Text
deriving DecidableEq

structure BufferedSlice where
  lines : List BufferedLine
  newestSeq : Nat
  oldestSeq : Nat
  more : Bool

structure Ring where
  lines : List BufferedLine := []
  bytes : Int := 0
  lastSeq : Nat := 0

def textBytes (text : Text) : Int := text.length * 2

def isHighSurrogate (c : UInt16) : Bool := decide (0xd800 ≤ c) && decide (c ≤ 0xdbff)

/-- A long line ends with an ellipsis, and not within a pair. -/
def clipped (line : Text) : Text :=
  if line.length ≤ kMaxLineLength then line
  else
    let keep := kMaxLineLength - 1
    let keep := if ((line)[keep - 1]?).any isHighSurrogate then keep - 1 else keep
    line.take keep ++ [0x2026]

/-- The lines of a chunk that are buffered. -/
def texts (chunk : Text) : List Text :=
  (chunk.splitOn 0x0a).filterMap (fun line =>
    let line := if line.getLast? = some 0x0d then line.dropLast else line
    if line.isEmpty then none else some (clipped line))

def tooMany (lines : List BufferedLine) (bytes : Int) : Prop := kMaxLines < lines.length ∨ kMaxBytes < bytes

instance (lines : List BufferedLine) (bytes : Int) : Decidable (tooMany lines bytes) := by
  unfold tooMany
  infer_instance

/-- The oldest lines go until the rest fits. -/
def evict (lastSeq : Nat) : List BufferedLine → Int → Ring
  | [], bytes => ⟨[], bytes, lastSeq⟩
  | line :: rest, bytes =>
    if tooMany (line :: rest) bytes then evict lastSeq rest (bytes - textBytes line.text) else ⟨line :: rest, bytes, lastSeq⟩

def push (now : Int) (ring : Ring) (text : Text) : Ring :=
  evict (ring.lastSeq + 1) (ring.lines ++ [⟨ring.lastSeq + 1, now, text⟩]) (ring.bytes + textBytes text)

def bufferUserLog (ring : Ring) (now : Int) (chunk : Text) : Ring := (texts chunk).foldl (push now) ring

def slice (ring : Ring) (first : Nat) (limit : Int) : BufferedSlice :=
  let stop := min ring.lines.length (first + limit.toNat)
  { lines := (ring.lines.take stop).drop first
    newestSeq := ring.lastSeq
    oldestSeq := (ring.lines.head?.map (·.seq)).getD 0
    more := decide (stop < ring.lines.length) }

def bufferedLinesAfter (ring : Ring) (after : Nat) (limit : Int) : BufferedSlice :=
  match ring.lines with
  | [] => slice ring ring.lines.length limit
  | front :: _ =>
    if ring.lastSeq ≤ after then slice ring ring.lines.length limit
    else slice ring (if after < front.seq then 0 else after - front.seq + 1) limit

/-! ## The log and a poller -/

inductive Event where
  | log (now : Int) (chunk : Text)
  | poll (limit : Int)

/-- A poller feeds back the number of the last line that it saw. -/
structure State where
  ring : Ring := {}
  after : Nat
  received : List BufferedLine := []

def step (s : State) : Event → State
  | .log now chunk => { s with ring := bufferUserLog s.ring now chunk }
  | .poll limit =>
    let lines := (bufferedLinesAfter s.ring s.after limit).lines
    { s with after := (lines.getLast?.map (·.seq)).getD s.after, received := s.received ++ lines }

def run (start : Nat) (events : List Event) : State := events.foldl step { after := start }

/-- Every line that was logged so far, with its number. -/
def logged (lines : List BufferedLine) : Event → List BufferedLine
  | .log now chunk => (texts chunk).foldl (fun lines text => lines ++ [⟨lines.length + 1, now, text⟩]) lines
  | .poll _ => lines

/-! ## Lines -/

/-- The unit is the first one of a pair. -/
def PairAt (line : Text) (k : Nat) : Prop := ∃ c, (line)[k]? = some c ∧ 0xd800 ≤ c ∧ c ≤ 0xdbff

/-- What is logged of a line that is not empty: all of it, or its first 8191 units and an ellipsis, one unit less where a pair
would be cut. -/
def ClippedTo (line text : Text) : Prop :=
  line.length ≤ 8192 ∧ text = line ∨ 8192 < line.length ∧ ∃ keep, keep <+: line ∧ text = keep ++ [0x2026] ∧
    (keep.length = 8191 ∧ ¬PairAt line 8190 ∨ keep.length = 8190 ∧ PairAt line 8190)

/-- What is logged of the text between two line feeds, which may end with a carriage return. -/
def LoggedAs (piece : Text) : Option Text → Prop
  | none => piece = [] ∨ piece = [0x0d]
  | some text => ∃ line, (piece = line ++ [0x0d] ∨ piece = line ∧
      line.getLast? ≠ some 0x0d) ∧ line ≠ [] ∧ ClippedTo line text

/-- The lines of a chunk. -/
def LinesOf (chunk : Text) (texts : List Text) : Prop :=
  ∃ pieces out, chunk = [0x0a].intercalate pieces ∧ (∀ piece ∈ pieces, 0x0a ∉ piece ∧ LoggedAs piece (out piece)) ∧
    texts = pieces.filterMap out

theorem clippedTo_clipped (line : Text) : ClippedTo line (clipped line) := by
  unfold clipped
  split
  · next hshort => exact .inl ⟨hshort, rfl⟩
  next hlong =>
  have hlong : 8192 < line.length := Nat.not_le.mp hlong
  have hpair : ((line)[8190]?).any isHighSurrogate = true ↔ PairAt line 8190 := by
    simp [PairAt, isHighSurrogate, Option.any_eq_true]
  show ClippedTo line (line.take (if ((line)[8190]?).any isHighSurrogate then 8190 else 8191) ++ [0x2026])
  refine .inr ⟨hlong, _, take_prefix _ _, rfl, ?_⟩
  by_cases hcut : ((line)[8190]?).any isHighSurrogate = true
  · rw [if_pos hcut]
    exact .inr ⟨length_take_of_le (by omega), hpair.mp hcut⟩
  · rw [if_neg hcut]
    exact .inl ⟨length_take_of_le (by omega), fun h => hcut (hpair.mpr h)⟩

theorem linesOf_texts (chunk : Text) : LinesOf chunk (texts chunk) := by
  refine ⟨chunk.splitOn 0x0a, _, (intercalate_splitOn _).symm,
    fun piece hpiece => ⟨not_mem_of_mem_splitOn _ _ _ hpiece, ?_⟩, rfl⟩
  by_cases hreturn : piece.getLast? = some 0x0d
  · obtain ⟨line, rfl⟩ := getLast?_eq_some_iff.mp hreturn
    rw [if_pos hreturn, dropLast_concat]
    cases line with
    | nil => exact .inr rfl
    | cons c rest => exact ⟨c :: rest, .inl rfl, cons_ne_nil _ _, clippedTo_clipped _⟩
  · rw [if_neg hreturn]
    cases piece with
    | nil => exact .inl rfl
    | cons c rest => exact ⟨c :: rest, .inr ⟨rfl, hreturn⟩, cons_ne_nil _ _, clippedTo_clipped _⟩

/-! ## The caps -/

def bytesOf : List BufferedLine → Int
  | [] => 0
  | line :: rest => textBytes line.text + bytesOf rest

def Fits (lines : List BufferedLine) : Prop := lines.length ≤ kMaxLines ∧ bytesOf lines ≤ kMaxBytes

theorem bytesOf_append (a b : List BufferedLine) : bytesOf (a ++ b) = bytesOf a + bytesOf b := by
  induction a with
  | nil => simp [bytesOf]
  | cons line rest ih =>
    rw [cons_append, bytesOf, bytesOf, ih]
    omega

theorem bytesOf_nonneg (lines : List BufferedLine) : 0 ≤ bytesOf lines := by
  induction lines with
  | nil => exact Int.le_refl 0
  | cons line rest ih =>
    rw [bytesOf, textBytes]
    omega

theorem Fits.front {a b : List BufferedLine} (h : Fits (a ++ b)) : Fits a := by
  obtain ⟨hcount, hbytes⟩ := h
  rw [bytesOf_append] at hbytes
  have := bytesOf_nonneg b
  rw [length_append] at hcount
  exact ⟨by omega, by omega⟩

/-- `lines` is the longest end of `all` that fits. -/
structure Longest (all lines : List BufferedLine) : Prop where
  suffix : lines <:+ all
  fits : Fits lines
  longest : ∀ longer, longer <:+ all → Fits longer → longer <:+ lines

theorem evict_longest (lastSeq : Nat) (lines : List BufferedLine) :
    Longest lines (evict lastSeq lines (bytesOf lines)).lines ∧
      (evict lastSeq lines (bytesOf lines)).bytes = bytesOf (evict lastSeq lines (bytesOf lines)).lines ∧
      (evict lastSeq lines (bytesOf lines)).lastSeq = lastSeq := by
  induction lines with
  | nil => exact ⟨⟨suffix_refl _, ⟨Nat.zero_le _, show (0 : Int) ≤ kMaxBytes by decide⟩, fun _ h _ => h⟩, rfl, rfl⟩
  | cons line rest ih =>
    unfold evict
    by_cases hmany : tooMany (line :: rest) (bytesOf (line :: rest))
    · have hleft : bytesOf (line :: rest) - textBytes line.text = bytesOf rest := by
        rw [bytesOf]
        omega
      rw [if_pos hmany, hleft]
      refine ⟨⟨ih.1.suffix.trans (suffix_cons line rest), ih.1.fits, fun longer hlonger hfits => ?_⟩, ih.2⟩
      rcases suffix_cons_iff.mp hlonger with rfl | hrest
      · unfold tooMany at hmany
        obtain ⟨hcount, hbytes⟩ := hfits
        omega
      · exact ih.1.longest longer hrest hfits
    · rw [if_neg hmany]
      obtain ⟨hcount, hbytes⟩ := not_or.mp hmany
      exact ⟨⟨suffix_refl _, ⟨not_lt.mp hcount, Int.not_lt.mp hbytes⟩, fun _ h _ => h⟩, rfl, rfl⟩

theorem Longest.push {all lines lines' : List BufferedLine} (h : Longest all lines) (line : BufferedLine)
    (hpush : Longest (lines ++ [line]) lines') : Longest (all ++ [line]) lines' := by
  obtain ⟨before, rfl⟩ := h.suffix
  refine ⟨hpush.suffix.trans ⟨before, by simp⟩, hpush.fits, fun longer hlonger hfits => hpush.longest longer ?_ hfits⟩
  rcases eq_nil_or_concat longer with rfl | ⟨front, last, rfl⟩
  · exact nil_suffix
  rw [concat_eq_append] at hlonger hfits ⊢
  obtain ⟨rest, hrest⟩ := hlonger
  rw [← append_assoc] at hrest
  obtain ⟨hfront, hlast⟩ := append_inj' hrest rfl
  obtain ⟨more, hmore⟩ := h.longest front ⟨rest, hfront⟩ hfits.front
  exact ⟨more, by rw [hlast, ← hmore, append_assoc]⟩

/-! ## Numbers -/

/-- The state of the buffer after `all` was logged. -/
structure Sound (all : List BufferedLine) (ring : Ring) : Prop where
  longest : Longest all ring.lines
  bytes : ring.bytes = bytesOf ring.lines
  last : ring.lastSeq = all.length
  seqs : all.map (·.seq) = range' 1 all.length

section
variable {all : List BufferedLine} {ring : Ring}

theorem push_eq (h : Sound all ring) (now : Int) (text : Text) :
    push now ring text = evict (all.length + 1) (ring.lines ++ [⟨all.length + 1, now, text⟩])
      (bytesOf (ring.lines ++ [⟨all.length + 1, now, text⟩])) := by
  rw [push, h.last, h.bytes, bytesOf_append]
  simp [bytesOf]

theorem Sound.push (h : Sound all ring) (now : Int) (text : Text) :
    Sound (all ++ [⟨all.length + 1, now, text⟩]) (push now ring text) := by
  obtain ⟨hlongest, hbytes, hlast⟩ := evict_longest (all.length + 1) (ring.lines ++ [⟨all.length + 1, now, text⟩])
  rw [push_eq h]
  refine ⟨h.longest.push _ hlongest, hbytes, by rw [hlast, List.length_append]; rfl, ?_⟩
  rw [List.map_append, h.seqs, List.length_append, List.length_singleton, List.range'_1_concat, Nat.add_comm 1]
  rfl

theorem Sound.lines_seqs (h : Sound all ring) :
    ring.lines.length ≤ all.length ∧
      ring.lines.map (·.seq) = range' (all.length - ring.lines.length + 1) ring.lines.length := by
  have hseqs := h.seqs
  obtain ⟨before, rfl⟩ := h.longest.suffix
  rw [map_append, length_append, ← range'_append_1] at hseqs
  obtain ⟨-, hlines⟩ := append_inj hseqs (by simp)
  rw [hlines, length_append]
  exact ⟨by omega, by congr 1; omega⟩

variable {lines : List BufferedLine}

theorem pairwise_of_range' {s n : Nat} (h : lines.map (·.seq) = range' s n) :
    lines.Pairwise (fun a b => a.seq < b.seq) := by
  have hpair : (lines.map (·.seq)).Pairwise (· < ·) := h ▸ pairwise_lt_range'
  exact pairwise_map.mp hpair

/-- On contiguous numbers the lines after a number are an end of the list. -/
theorem filter_after {s : Nat} (h : lines.map (·.seq) = range' s lines.length) (after : Nat) :
    lines.filter (fun line => after < line.seq) = lines.drop (after + 1 - s) := by
  induction lines generalizing s with
  | nil => simp
  | cons line rest ih =>
    rw [map_cons, length_cons, range'_succ, cons.injEq] at h
    by_cases hafter : after < s
    · have hrest := ih h.2
      rw [show after + 1 - (s + 1) = 0 by omega] at hrest
      rw [filter_cons_of_pos (by simpa [h.1] using hafter), hrest, show after + 1 - s = 0 by omega]
      rfl
    · rw [filter_cons_of_neg (by simpa [h.1] using hafter), ih h.2,
        show after + 1 - s = after + 1 - (s + 1) + 1 by omega, drop_succ_cons]

theorem slice_spec {first : Nat} (h : first ≤ ring.lines.length) (limit : Int) :
    (slice ring first limit).lines = (ring.lines.drop first).take limit.toNat ∧
      ((slice ring first limit).more = true ↔ limit.toNat < (ring.lines.drop first).length) := by
  have hlength : (ring.lines.drop first).length = ring.lines.length - first := length_drop
  constructor
  · show (ring.lines.take _).drop first = _
    rw [drop_take, take_eq_take_iff, hlength]
    omega
  · rw [hlength, slice, decide_eq_true_eq]
    omega

/-- The lines with a number above `after`, `limit` of them at most. -/
theorem linesAfter_spec (h : Sound all ring) (after : Nat) (limit : Int) :
    (bufferedLinesAfter ring after limit).lines = (ring.lines.filter (fun line => after < line.seq)).take limit.toNat ∧
      ((bufferedLinesAfter ring after limit).more = true ↔
        limit.toNat < (ring.lines.filter (fun line => after < line.seq)).length) := by
  obtain ⟨hle, hseqs⟩ := h.lines_seqs
  rw [filter_after hseqs]
  unfold bufferedLinesAfter
  split
  · next hnil =>
    have hslice := slice_spec (le_refl ring.lines.length) limit
    rwa [drop_length, ← drop_nil, ← hnil] at hslice
  next front rest hlines =>
  have hfront : front.seq = all.length - ring.lines.length + 1 := by
    rw [hlines, map_cons, length_cons, range'_succ, cons.injEq] at hseqs
    rw [hseqs.1, hlines, length_cons]
  split
  · next hlast =>
    rw [h.last] at hlast
    rw [drop_eq_nil_of_le (by omega), ← drop_length]
    exact slice_spec (le_refl _) limit
  · next hlast =>
    rw [h.last] at hlast
    rw [show after + 1 - (all.length - ring.lines.length + 1) = if after < front.seq then 0 else after - front.seq + 1 by
      split <;> omega]
    exact slice_spec (by split <;> omega) limit

/-! ## The poller -/

/-- What the poller passed by and what it received. -/
structure Polled (start : Nat) (all : List BufferedLine) (s : State) : Prop where
  sound : Sound all s.ring
  from_start : start ≤ s.after ∧ s.after ≤ max start all.length
  order : s.received.Pairwise (fun a b => a.seq < b.seq)
  received : ∀ line ∈ s.received, line ∈ all ∧ line.seq ≤ s.after
  passed : ∀ line ∈ s.ring.lines, start < line.seq → line.seq ≤ s.after → line ∈ s.received

variable {start : Nat} {s : State}

theorem Polled.push (h : Polled start all s) (now : Int) (text : Text) :
    Polled start (all ++ [⟨all.length + 1, now, text⟩]) { s with ring := push now s.ring text } := by
  have hbound := h.from_start
  refine ⟨h.sound.push now text, ⟨hbound.1, ?_⟩, h.order, fun line hline => ?_, fun line hline hstart hafter => ?_⟩
  · rw [length_append]
    dsimp only
    omega
  · exact ⟨mem_append_left _ (h.received line hline).1, (h.received line hline).2⟩
  have hlongest := (evict_longest (all.length + 1) (s.ring.lines ++ [⟨all.length + 1, now, text⟩])).1
  rw [← push_eq h.sound] at hlongest
  rcases mem_append.mp (hlongest.suffix.mem hline) with hold | hnew
  · exact h.passed line hold hstart hafter
  rw [mem_singleton.mp hnew] at hstart hafter
  dsimp only at hstart hafter
  omega

theorem le_last (h : lines.Pairwise (fun a b => a.seq < b.seq)) (seq : Nat) :
    ∀ line ∈ lines, line.seq ≤ (lines.getLast?.map (·.seq)).getD seq := by
  rcases eq_nil_or_concat lines with rfl | ⟨front, last, rfl⟩
  · exact fun _ hline => absurd hline not_mem_nil
  intro line hline
  rw [concat_eq_append] at h hline ⊢
  rw [getLast?_append_of_ne_nil _ (cons_ne_nil _ _)]
  show line.seq ≤ last.seq
  rcases mem_append.mp hline with hfront | hlast
  · exact le_of_lt ((pairwise_append.mp h).2.2 line hfront last (mem_singleton_self _))
  · rw [mem_singleton.mp hlast]

variable (h : Polled start all s)

include h

theorem Polled.poll (limit : Int) : Polled start all (step s (.poll limit)) := by
  obtain ⟨hbound, hlen⟩ := h.from_start
  have hring := pairwise_of_range' h.sound.lines_seqs.2
  have hlines := (linesAfter_spec h.sound s.after limit).1
  generalize hnew : (bufferedLinesAfter s.ring s.after limit).lines = new at hlines
  have hpair : new.Pairwise (fun a b => a.seq < b.seq) := hlines ▸ ((hring.filter _).sublist (take_sublist _ _))
  have hmem : ∀ line ∈ new, line ∈ s.ring.lines ∧ s.after < line.seq := by
    intro line hline
    rw [hlines] at hline
    obtain ⟨hheld, hafter⟩ := mem_filter.mp (mem_of_mem_take hline)
    exact ⟨hheld, of_decide_eq_true hafter⟩
  have hlast := le_last hpair s.after
  have hseq : s.after ≤ (new.getLast?.map (·.seq)).getD s.after ∧
      (new.getLast?.map (·.seq)).getD s.after ≤ max start all.length := by
    cases hend : new.getLast? with
    | none => exact ⟨le_refl _, hlen⟩
    | some last =>
      obtain ⟨hheld, hafter⟩ := hmem last (mem_of_getLast? hend)
      have hin : last.seq ∈ all.map (·.seq) := mem_map_of_mem (h.sound.longest.suffix.mem hheld)
      rw [h.sound.seqs, mem_range'_1] at hin
      show s.after ≤ last.seq ∧ last.seq ≤ _
      omega
  have hstep : step s (.poll limit) =
      { s with after := (new.getLast?.map (·.seq)).getD s.after, received := s.received ++ new } := by rw [step, hnew]
  rw [hstep]
  refine ⟨h.sound, ⟨by dsimp only; omega, hseq.2⟩, ?_, fun line hline => ?_, fun line hline hstart hpassed => ?_⟩
  · refine pairwise_append.mpr ⟨h.order, hpair, fun a ha b hb => ?_⟩
    exact lt_of_le_of_lt (h.received a ha).2 (hmem b hb).2
  · rcases mem_append.mp hline with hold | hin
    · exact ⟨(h.received line hold).1, (h.received line hold).2.trans hseq.1⟩
    · exact ⟨h.sound.longest.suffix.mem (hmem line hin).1, hlast line hin⟩
  refine mem_append.mpr ?_
  by_cases hafter : line.seq ≤ s.after
  · exact .inl (h.passed line hline hstart hafter)
  right
  -- a line that is left over comes after the last one that is returned
  have hin : line ∈ s.ring.lines.filter (fun line => s.after < line.seq) := mem_filter.mpr ⟨hline, by simpa using hafter⟩
  have hsorted := hring.filter (fun line => s.after < line.seq)
  rw [← take_append_drop limit.toNat (s.ring.lines.filter _), ← hlines] at hin hsorted
  refine (mem_append.mp hin).resolve_right (fun hleft => ?_)
  cases hend : new.getLast? with
  | none => rw [hend] at hpassed; exact hafter hpassed
  | some last =>
    rw [hend] at hpassed
    exact absurd ((pairwise_append.mp hsorted).2.2 last (mem_of_getLast? hend) line hleft) (not_lt.mpr hpassed)

theorem Polled.log (now : Int) (chunk : Text) :
    Polled start (logged all (.log now chunk)) (step s (.log now chunk)) := by
  show Polled start ((texts chunk).foldl _ all) { s with ring := (texts chunk).foldl (LogBuffer.push now) s.ring }
  generalize texts chunk = rest
  induction rest generalizing all s with
  | nil => exact h
  | cons text rest ih => exact ih (h.push now text)

theorem Polled.run (events : List Event) :
    Polled start (events.foldl logged all) (events.foldl step s) := by
  induction events generalizing all s with
  | nil => exact h
  | cons event rest ih =>
    cases event with
    | log now chunk => exact ih (h.log now chunk)
    | poll limit => exact ih (h.poll limit)

end

/-- **The lines of the log.** The log is made of the lines of the chunks.  The held lines are the longest end of it that fits,
with contiguous numbers up to the last one and their size as the count of bytes; the lines after a number are the first `limit`
held ones above it, with `more` when there is another; and a poller has received what was held when it passed it by, once and in
order. -/
theorem logBuffer_contract (start : Nat) (events : List Event) :
    (∀ chunk, LinesOf chunk (texts chunk)) ∧
      Longest (events.foldl logged []) (run start events).ring.lines ∧
      (run start events).ring.lines.map (·.seq) =
        range' ((run start events).ring.lastSeq - (run start events).ring.lines.length + 1) (run start events).ring.lines.length ∧
      (run start events).ring.lastSeq = (events.foldl logged []).length ∧
      (run start events).ring.bytes = bytesOf (run start events).ring.lines ∧
      (∀ after limit, (bufferedLinesAfter (run start events).ring after limit).lines =
          ((run start events).ring.lines.filter (fun line => after < line.seq)).take limit.toNat ∧
        ((bufferedLinesAfter (run start events).ring after limit).more = true ↔
          limit.toNat < ((run start events).ring.lines.filter (fun line => after < line.seq)).length)) ∧
      (run start events).received.Pairwise (fun a b => a.seq < b.seq) ∧
      (∀ line ∈ (run start events).received, line ∈ events.foldl logged []) ∧
      ∀ line ∈ (run start events).ring.lines, start < line.seq → line.seq ≤ (run start events).after →
        line ∈ (run start events).received := by
  have hempty : Polled start [] { after := start } :=
    ⟨⟨(evict_longest 0 []).1, rfl, rfl, rfl⟩, ⟨le_refl _, le_max_left _ _⟩, .nil, by simp, by simp⟩
  have h := hempty.run events
  exact ⟨linesOf_texts, h.sound.longest, h.sound.last ▸ h.sound.lines_seqs.2, h.sound.last,
    h.sound.bytes, linesAfter_spec h.sound, h.order,
    fun line hline => (h.received line hline).1, h.passed⟩

/-- Two lines, one with a carriage return and one empty, and a poller that takes one line at a time. -/
def twoPolls : List Event := [.log 7 [0x61, 0x0d, 0x0a, 0x0a, 0x62], .poll 1, .poll 1]

theorem logBuffer_contract_polls :
    (run 0 twoPolls).received = [⟨1, 7, [0x61]⟩, ⟨2, 7, [0x62]⟩] ∧
      LinesOf [0x61, 0x0d, 0x0a, 0x0a, 0x62] [[0x61], [0x62]] ∧
      Longest [⟨1, 7, [0x61]⟩, ⟨2, 7, [0x62]⟩] (run 0 twoPolls).ring.lines :=
  ⟨by decide, (logBuffer_contract 0 twoPolls).1 _, (logBuffer_contract 0 twoPolls).2.1⟩

end Waterdisco.LogBuffer
