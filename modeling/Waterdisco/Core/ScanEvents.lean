import Mathlib.Algebra.Ring.Int.Defs
import Mathlib.Algebra.Ring.Nat

/-!
# The events of a scan session

`emit` numbers an event and puts it into a ring of `eventRingSize` slots; `Events(after)` pages
through the ring from a number on.  Both count in 64 bits.

    Events(after) = the events numbered max(after + 1, last - 63, 1) to last, and last     (events_contract)
-/

namespace Waterdisco.ScanEvents

open List Function

def eventRingSize : Nat := 256
def eventPageSize : Nat := 64

def int64 (n : Int) : Int := n.bmod (2 ^ 64)

structure Event where
  seq : Int := 0
  kind : String := ""
  phase : String := ""
  target : String := ""
  latencyMs : Int := 0
  error : String := ""

/-- The arguments of `emit`; the latency is in nanoseconds. -/
structure Emit where
  kind : String
  phase : String
  target : String
  latency : Int
  errText : String

structure Session where
  ring : Nat → Event := fun _ => {}
  lastSeq : Int := 0

def slot (seq : Int) : Nat := (seq % eventRingSize).toNat

def event (seq : Int) (e : Emit) : Event :=
  ⟨seq, e.kind, e.phase, e.target, (e.latency.tdiv 1000000).bmod (2 ^ 32), e.errText⟩

def emit (s : Session) (e : Emit) : Session :=
  let seq := int64 (s.lastSeq + 1)
  { ring := update s.ring (slot seq) (event seq e), lastSeq := seq }

def Events (s : Session) (after : Int) : List Event × Int :=
  if s.lastSeq ≤ after then ([], s.lastSeq)
  else
    let first := max (max (int64 (after + 1)) (int64 (s.lastSeq - eventPageSize + 1))) 1
    ((range (s.lastSeq + 1 - first).toNat).map fun (i : Nat) => s.ring (slot (first + i)), s.lastSeq)

/-- The events of the calls, the first one numbered behind `n`. -/
def emitted (n : Int) : List Emit → List Event
  | [] => []
  | e :: emits => event (n + 1) e :: emitted (n + 1) emits

/-- A poller that feeds back the number it got, with a batch of events before each of its polls. -/
def poll (s : Session) (after : Int) : List (List Emit) → List Event
  | [] => []
  | batch :: batches =>
    let s := batch.foldl emit s
    (Events s after).1 ++ poll s (Events s after).2 batches

/-! ## What the ring holds -/

theorem length_emitted (n : Int) (emits : List Emit) : (emitted n emits).length = emits.length := by
  induction emits generalizing n with
  | nil => rfl
  | cons e emits ih => rw [emitted, length_cons, length_cons, ih]

theorem emitted_append (n : Int) (a b : List Emit) : emitted n (a ++ b) = emitted n a ++ emitted (n + a.length) b := by
  induction a generalizing n with
  | nil => simp [emitted]
  | cons e a ih => simp [emitted, ih, Int.add_assoc, Int.add_comm 1]

/-- The last `eventRingSize` of the events so far. -/
structure Holds (s : Session) (sent : List Event) : Prop where
  lastSeq : s.lastSeq = sent.length
  ring : ∀ k < sent.length, sent.length ≤ k + 256 → sent[k]? = some (s.ring (slot (k + 1)))

theorem Holds.start : Holds {} [] := ⟨rfl, fun k hk => absurd hk (Nat.not_lt_zero k)⟩

variable {s : Session} {sent : List Event}

theorem int64_of_lt {n : Int} (hlow : -2 ^ 63 ≤ n) (hhigh : n < 2 ^ 63) : int64 n = n :=
  Int.bmod_eq_of_le (by omega) (by omega)

theorem Holds.emit (h : Holds s sent) (e : Emit) (hfit : sent.length + 1 < 2 ^ 63) :
    Holds (emit s e) (sent ++ [event (sent.length + 1) e]) := by
  have hseq : int64 (s.lastSeq + 1) = sent.length + 1 := by rw [h.lastSeq, int64_of_lt (by omega) (by omega)]
  refine ⟨by rw [ScanEvents.emit, length_append]; exact hseq, fun k hk hnear => ?_⟩
  rw [length_append, length_singleton] at hk hnear
  simp only [ScanEvents.emit, hseq]
  by_cases hlast : k = sent.length
  · rw [hlast, getElem?_concat_length, update_self]
  · -- of the numbers of one turn only the new one has its slot
    have hslot : slot (k + 1) ≠ slot (sent.length + 1) := by simp only [slot, eventRingSize]; omega
    rw [getElem?_append_left (by omega), h.ring k (by omega) (by omega), update_of_ne hslot]

theorem Holds.run (h : Holds s sent) (emits : List Emit) (hfit : sent.length + emits.length < 2 ^ 63) :
    Holds (emits.foldl ScanEvents.emit s) (sent ++ emitted sent.length emits) := by
  induction emits generalizing s sent with
  | nil => rwa [emitted, append_nil]
  | cons e emits ih =>
    rw [length_cons] at hfit
    have hmore := ih (h.emit e (by omega)) (by rw [length_append, length_singleton]; omega)
    rwa [length_append, length_singleton, append_assoc] at hmore

/-! ## Pages -/

theorem Holds.page (h : Holds s sent) {k count : Nat} (hcount : k + count = sent.length) (hnear : count ≤ 256) :
    (range count).map (fun (i : Nat) => s.ring (slot (k + 1 + i))) = sent.drop k := by
  refine ext_getElem? fun i => ?_
  rw [getElem?_drop, getElem?_map]
  by_cases hi : i < count
  · rw [getElem?_range hi, h.ring (k + i) (by omega) (by omega), Int.natCast_add, Int.add_right_comm]
    rfl
  · rw [getElem?_eq_none (by rw [length_range]; omega), getElem?_eq_none (by omega)]
    rfl

theorem filter_emitted (n first : Int) (emits : List Emit) :
    (emitted n emits).filter (fun e => first ≤ e.seq) = (emitted n emits).drop (first - n - 1).toNat := by
  induction emits generalizing n with
  | nil => simp [emitted]
  | cons e emits ih =>
    rw [emitted]
    by_cases hfirst : first ≤ n + 1
    · rw [filter_cons_of_pos (by exact decide_eq_true hfirst), ih, show (first - (n + 1) - 1).toNat = 0 by omega,
        show (first - n - 1).toNat = 0 by omega]
      rfl
    · rw [filter_cons_of_neg (by rw [decide_eq_true_eq]; exact hfirst), ih,
        show (first - n - 1).toNat = (first - (n + 1) - 1).toNat + 1 by omega]
      rfl

theorem Holds.Events (h : Holds s sent) (hfit : sent.length < 2 ^ 63) {after : Int}
    (hlow : -2 ^ 63 ≤ after) (hhigh : after < 2 ^ 63) :
    Events s after = (sent.drop (max (max (after + 1) (sent.length - 63)) 1 - 1).toNat, (sent.length : Int)) := by
  unfold ScanEvents.Events
  rw [h.lastSeq]
  split
  · rw [drop_eq_nil_of_le (by omega)]
  · obtain ⟨k, hk⟩ : ∃ k : Nat, max (max (after + 1) ((sent.length : Int) - 63)) 1 = k + 1 :=
      ⟨(max (max (after + 1) ((sent.length : Int) - 63)) 1 - 1).toNat, by omega⟩
    have hpage : (sent.length : Int) - eventPageSize + 1 = sent.length - 63 := by simp only [eventPageSize]; omega
    rw [int64_of_lt (n := after + 1) (by omega) (by omega), hpage,
      int64_of_lt (n := sent.length - 63) (by omega) (by omega), hk,
      show ((k : Int) + 1 - 1).toNat = k by omega, ← @Holds.page _ _ h k (sent.length - k) (by omega) (by omega)]
    dsimp only
    rw [show ((sent.length : Int) + 1 - (k + 1)).toNat = sent.length - k by omega]

theorem Holds.poll (h : Holds s sent) {batches : List (List Emit)} (hbatches : ∀ b ∈ batches, b.length ≤ 64)
    (hfit : sent.length + batches.flatten.length < 2 ^ 63) :
    poll s sent.length batches = emitted sent.length batches.flatten := by
  induction batches generalizing s sent with
  | nil => rfl
  | cons batch batches ih =>
    rw [flatten_cons, length_append] at hfit
    have hrun := h.run batch (by omega)
    have hbatch := hbatches batch (.head _)
    have hlen : (sent ++ emitted sent.length batch).length = sent.length + batch.length := by
      rw [length_append, length_emitted]
    -- the page begins with the first event of the batch
    have hfirst : (max (max ((sent.length : Int) + 1) ((sent.length + batch.length : Nat) - 63)) 1 - 1).toNat = sent.length := by
      omega
    have hmore := ih hrun (fun b hb => hbatches b (.tail _ hb)) (by omega)
    rw [hlen] at hmore
    simp only [ScanEvents.poll]
    rw [hrun.Events (by omega) (by omega) (by omega), hlen, hfirst, drop_left, hmore, flatten_cons, emitted_append]
    rfl

/-- **Events after a number**, as long as the numbers fit. -/
theorem events_contract (emits : List Emit) (hfit : emits.length < 2 ^ 63 - 1) :
    (∀ after : Int, -2 ^ 63 ≤ after → after < 2 ^ 63 →
      Events (emits.foldl emit {}) after =
        ((emitted 0 emits).filter (fun e => max (max (after + 1) (emits.length - 63)) 1 ≤ e.seq),
          (emits.length : Int))) ∧
      ∀ batches : List (List Emit), (∀ b ∈ batches, b.length ≤ 64) → emits.length + batches.flatten.length < 2 ^ 63 - 1 →
        poll (emits.foldl emit {}) emits.length batches = emitted emits.length batches.flatten := by
  have h := Holds.start.run emits (by rw [length_nil]; omega)
  rw [nil_append] at h
  have hlen := length_emitted 0 emits
  refine ⟨fun after hlow hhigh => ?_, fun batches hbatches hmore => ?_⟩
  · rw [h.Events (by rw [length_nil, Int.ofNat_zero, hlen]; omega) hlow hhigh, filter_emitted]
    simp [hlen]
  · simpa [hlen] using h.poll hbatches (by rw [length_nil, Int.ofNat_zero, hlen]; omega)

def ping : Emit := ⟨"ok", "icmp", "192.0.2.1", 3000000, ""⟩

theorem ping_events :
    poll ([ping, ping].foldl emit {}) 2 [[ping], [], [ping, ping]] = emitted 2 [ping, ping, ping] :=
  (events_contract [ping, ping] (by decide)).2 _ (by decide) (by decide)

/-- The number behind the last one of 64 bits is below zero. -/
theorem numbers_wrap : Events ((replicate (2 ^ 63) ping).foldl emit {}) 0 = ([], -2 ^ 63) := by
  have h := Holds.start.run (replicate (2 ^ 63 - 1) ping) (by rw [length_replicate, length_nil]; decide)
  have hlast := h.lastSeq
  rw [nil_append, length_emitted, length_replicate] at hlast
  have hwrap : int64 (((2 ^ 63 - 1 : Nat) : Int) + 1) = -2 ^ 63 := by decide
  rw [show 2 ^ 63 = 2 ^ 63 - 1 + 1 by decide, replicate_succ', foldl_append, foldl_cons, foldl_nil, emit, hlast,
    hwrap, Events, if_pos (by decide)]

end Waterdisco.ScanEvents
