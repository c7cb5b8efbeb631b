import Mathlib.Algebra.Order.Group.Int
import Mathlib.Algebra.BigOperators.Group.List.Basic
import Mathlib.Tactic.Abel

/-!
# Traffic by minute

`AddConfigDelta` and `AddAppDelta` credit an accumulator for the minute that they computed
before they took the lock; who finds another minute there takes the accumulated rows with it
and writes them after the lock.

    written + in a thread's hands + accumulated = the deltas of the minute     (traffic_contract)
-/

namespace Waterdisco.TrafficStats

open List

structure Delta where
  up : Int := 0
  down : Int := 0
deriving DecidableEq

attribute [ext] Delta

instance : Add Delta := ⟨fun a b => ⟨a.up + b.up, a.down + b.down⟩⟩
instance : Zero Delta := ⟨{}⟩

instance : AddCommMonoid Delta where
  add_assoc a b c := Delta.ext (Int.add_assoc ..) (Int.add_assoc ..)
  add_comm a b := Delta.ext (Int.add_comm ..) (Int.add_comm ..)
  zero_add a := Delta.ext (Int.zero_add _) (Int.zero_add _)
  add_zero a := Delta.ext (Int.add_zero _) (Int.add_zero _)
  nsmul := nsmulRec

/-! ## Sums by key -/

section

variable {κ : Type} [DecidableEq κ]

/-- What a key has in a hash or a table. -/
def amount (pairs : List (κ × Delta)) (key : κ) : Delta := ((pairs.filter (fun p => p.1 = key)).map (·.2)).sum

/-- One more delta for a key: `auto& d = accum[key]`, or an upsert of a row. -/
def credit : List (κ × Delta) → κ → Delta → List (κ × Delta)
  | [], key, d => [(key, d)]
  | p :: rest, key, d => if p.1 = key then (key, p.2 + d) :: rest else p :: credit rest key d

@[simp] theorem amount_nil (key : κ) : amount [] key = 0 := rfl

theorem amount_cons (p : κ × Delta) (pairs : List (κ × Delta)) (key : κ) :
    amount (p :: pairs) key = (if p.1 = key then p.2 else 0) + amount pairs key := by
  by_cases h : p.1 = key <;> simp [amount, h]

theorem amount_append (a b : List (κ × Delta)) (key : κ) : amount (a ++ b) key = amount a key + amount b key := by
  simp [amount]

theorem amount_credit (pairs : List (κ × Delta)) (key other : κ) (d : Delta) :
    amount (credit pairs key d) other = amount pairs other + if key = other then d else 0 := by
  induction pairs with
  | nil => simp [credit, amount_cons]
  | cons p rest ih =>
    unfold credit
    by_cases hkey : p.1 = key
    · rw [if_pos hkey, amount_cons, amount_cons, hkey]
      by_cases hother : key = other
      · simp only [hother, if_pos]
        abel
      · simp [hother]
    · rw [if_neg hkey, amount_cons, amount_cons, ih]
      abel

/-- The rows of a bucket that `drainLocked` takes; a key without traffic has none. -/
def drained (bucket : Int) (accum : List (κ × Delta)) : List ((Int × κ) × Delta) :=
  (accum.filter (fun p => p.2 ≠ 0)).map (fun p => ((bucket, p.1), p.2))

theorem amount_drained (bucket minute : Int) (accum : List (κ × Delta)) (key : κ) :
    amount (drained bucket accum) (minute, key) = if bucket = minute then amount accum key else 0 := by
  induction accum with
  | nil => simp [drained]
  | cons p rest ih =>
    unfold drained at ih ⊢
    by_cases hzero : p.2 = 0
    · rw [filter_cons_of_neg (by simp [hzero]), ih, amount_cons, hzero]
      simp
    · rw [filter_cons_of_pos (by simp [hzero]), map_cons, amount_cons, ih, amount_cons]
      by_cases hminute : bucket = minute <;> simp [hminute]

def upsertBatch (table rows : List ((Int × κ) × Delta)) : List ((Int × κ) × Delta) :=
  rows.foldl (fun table row => credit table row.1 row.2) table

theorem amount_upsertBatch (table rows : List ((Int × κ) × Delta)) (key : Int × κ) :
    amount (upsertBatch table rows) key = amount table key + amount rows key := by
  induction rows generalizing table with
  | nil => simp [upsertBatch]
  | cons row rest ih =>
    rw [upsertBatch, foldl_cons, ← upsertBatch, ih, amount_credit, amount_cons]
    abel

end

/-! ## The manager -/

/-- One of the two accumulators, with its table and the rows that threads have taken and not yet written. -/
structure Side (κ : Type) where
  accum : List (κ × Delta) := []
  taken : List (List ((Int × κ) × Delta)) := []
  table : List ((Int × κ) × Delta) := []

structure Manager where
  currentBucket : Int := 0
  config : Side Int := {}
  app : Side String := {}

def alignMinute (secs : Int) : Int := secs.tdiv 60 * 60

/-- A locked section, or the write of a batch.  `disabled` and `now` are what the call read before the lock. -/
inductive Event where
  | addConfigDelta (disabled : Bool) (now profileId : Int) (d : Delta)
  | addAppDelta (disabled : Bool) (now : Int) (processName : String) (d : Delta)
  | flush (disabled : Bool)
  | writeConfig (i : Nat)
  | writeApp (i : Nat)

section

variable {κ : Type} [DecidableEq κ]

def Side.drainLocked (side : Side κ) (bucket : Int) : Side κ :=
  { side with accum := [], taken := side.taken ++ [drained bucket side.accum] }

def Side.write (side : Side κ) (i : Nat) : Side κ :=
  { side with taken := side.taken.eraseIdx i, table := upsertBatch side.table ((side.taken[i]?).getD []) }

end

def Manager.drainLocked (m : Manager) : Manager :=
  { m with config := m.config.drainLocked m.currentBucket, app := m.app.drainLocked m.currentBucket }

/-- The bucket that just ended is drained. -/
def Manager.enter (m : Manager) (nowBucket : Int) : Manager :=
  let m := if m.currentBucket ≠ 0 ∧ nowBucket ≠ m.currentBucket then m.drainLocked else m
  { m with currentBucket := nowBucket }

def step (m : Manager) : Event → Manager
  | .addConfigDelta disabled now profileId d =>
    if disabled || d = 0 then m
    else
      let m := m.enter (alignMinute now)
      { m with config := { m.config with accum := credit m.config.accum profileId d } }
  | .addAppDelta disabled now processName d =>
    if disabled || processName.isEmpty || d = 0 then m
    else
      let m := m.enter (alignMinute now)
      { m with app := { m.app with accum := credit m.app.accum processName d } }
  | .flush disabled => if disabled || m.currentBucket = 0 then m else m.drainLocked
  | .writeConfig i => { m with config := m.config.write i }
  | .writeApp i => { m with app := m.app.write i }

def run (events : List Event) : Manager := events.foldl step {}

/-- The delta that a call credits, under the minute that it computed; one without a process is not taken. -/
def Event.deltas : Event → List ((Int × (Int ⊕ String)) × Delta)
  | .addConfigDelta disabled now profileId d => if disabled then [] else [((alignMinute now, .inl profileId), d)]
  | .addAppDelta disabled now processName d =>
    if disabled || processName.isEmpty then [] else [((alignMinute now, .inr processName), d)]
  | _ => []

/-- The clock as a call read it. -/
def Event.clock : Event → Option Int
  | .addConfigDelta _ now _ _ | .addAppDelta _ now _ _ => some now
  | _ => none

/-! ## What is held for a minute -/

section

variable {κ : Type} [DecidableEq κ]

def Side.total (side : Side κ) (bucket : Int) (key : Int × κ) : Delta :=
  amount side.table key + (side.taken.map (amount · key)).sum + if bucket = key.1 then amount side.accum key.2 else 0

theorem Side.total_drain (side : Side κ) (bucket next : Int) (key : Int × κ) :
    (side.drainLocked bucket).total next key = side.total bucket key := by
  have hrows := amount_drained bucket key.1 side.accum key.2
  unfold total drainLocked
  simp [hrows, add_assoc]

theorem sum_eraseIdx {α : Type} (l : List α) (f : α → Delta) (i : Nat) :
    ((l.eraseIdx i).map f).sum + ((l[i]?).map f).getD 0 = (l.map f).sum := by
  induction l generalizing i with
  | nil => rfl
  | cons x rest ih =>
    cases i with
    | zero => simp [add_comm]
    | succ i =>
      simp only [eraseIdx_cons_succ, map_cons, sum_cons, getElem?_cons_succ, ← ih i]
      abel

theorem Side.total_write (side : Side κ) (i : Nat) (bucket : Int) (key : Int × κ) :
    (side.write i).total bucket key = side.total bucket key := by
  unfold total write
  rw [amount_upsertBatch, ← sum_eraseIdx side.taken (amount · key) i]
  have hrow : amount ((side.taken[i]?).getD []) key = ((side.taken[i]?).map (amount · key)).getD 0 := by
    cases side.taken[i]? <;> rfl
  rw [hrow]
  abel

theorem Side.total_credit (side : Side κ) (bucket : Int) (k : κ) (d : Delta) (key : Int × κ) :
    Side.total { side with accum := credit side.accum k d } bucket key =
      side.total bucket key + if (bucket, k) = key then d else 0 := by
  unfold total
  rw [amount_credit]
  by_cases hbucket : bucket = key.1
  · by_cases hk : k = key.2 <;> simp [hbucket, hk, Prod.ext_iff, add_assoc]
  · simp [hbucket, Prod.ext_iff]

end

def Manager.total (m : Manager) (minute : Int) : Int ⊕ String → Delta
  | .inl profileId => m.config.total m.currentBucket (minute, profileId)
  | .inr processName => m.app.total m.currentBucket (minute, processName)

open Manager (enter total)

/-- Before the first minute nothing is accumulated. -/
def Started (m : Manager) : Prop := m.currentBucket = 0 → m.config.accum = [] ∧ m.app.accum = []

theorem Side.total_empty {κ : Type} [DecidableEq κ] {side : Side κ} (h : side.accum = [])
    (bucket next : Int) (key : Int × κ) :
    side.total next key = side.total bucket key := by simp [total, h]

/-- Going to another minute leaves what each minute has, as rows or in the accumulator. -/
theorem total_enter {m : Manager} (h : Started m) (next minute : Int) (key : Int ⊕ String) :
    (m.enter next).total minute key = m.total minute key := by
  unfold enter
  by_cases hdrain : m.currentBucket ≠ 0 ∧ next ≠ m.currentBucket
  · rw [if_pos hdrain]
    cases key with
    | inl profileId => exact m.config.total_drain _ next (minute, profileId)
    | inr processName => exact m.app.total_drain _ next (minute, processName)
  · rw [if_neg hdrain]
    by_cases hnone : m.currentBucket = 0
    · cases key with
      | inl profileId => exact Side.total_empty (h hnone).1 _ _ _
      | inr processName => exact Side.total_empty (h hnone).2 _ _ _
    · obtain rfl : next = m.currentBucket := by tauto
      cases key <;> rfl

theorem alignMinute_ne {now : Int} (h : 60 ≤ now) : alignMinute now ≠ 0 := by
  unfold alignMinute
  rw [Int.tdiv_eq_ediv_of_nonneg (by omega)]
  omega

/-- **One locked section or one write** moves no delta to another minute. -/
theorem step_total {m : Manager} (h : Started m) {e : Event} (hclock : ∀ now ∈ e.clock, 60 ≤ now) :
    Started (step m e) ∧ ∀ minute key, (step m e).total minute key =
      m.total minute key + amount e.deltas (minute, key) := by
  cases e with
  | addConfigDelta disabled now profileId d =>
    by_cases hskip : (disabled || decide (d = 0)) = true
    · rw [step, if_pos hskip]
      cases disabled <;> simp_all [Event.deltas, amount_cons]
    obtain rfl : disabled = false := by simp_all
    rw [step, if_neg hskip]
    refine ⟨fun h0 => absurd h0 (alignMinute_ne (hclock now rfl)), fun minute key => ?_⟩
    rw [← total_enter h (alignMinute now)]
    cases key with
    | inl id =>
      refine (Side.total_credit _ (alignMinute now) profileId d (minute, id)).trans ?_
      simp [total, Event.deltas, amount_cons, enter]
    | inr name => simp [Event.deltas, amount_cons, total]
  | addAppDelta disabled now processName d =>
    by_cases hskip : (disabled || processName.isEmpty || decide (d = 0)) = true
    · rw [step, if_pos hskip]
      cases disabled <;> cases hempty : processName.isEmpty <;> simp_all [Event.deltas, amount_cons]
    obtain ⟨rfl, hname⟩ : disabled = false ∧ processName.isEmpty = false := by simp_all
    rw [step, if_neg hskip]
    refine ⟨fun h0 => absurd h0 (alignMinute_ne (hclock now rfl)), fun minute key => ?_⟩
    rw [← total_enter h (alignMinute now)]
    cases key with
    | inl id => simp [Event.deltas, hname, amount_cons, total]
    | inr name =>
      refine (Side.total_credit _ (alignMinute now) processName d (minute, name)).trans ?_
      simp [total, Event.deltas, hname, amount_cons, enter]
  | flush disabled =>
    rw [step]
    split
    · exact ⟨h, fun _ _ => (add_zero _).symm⟩
    refine ⟨fun _ => ⟨rfl, rfl⟩, fun minute key => Eq.trans ?_ (add_zero _).symm⟩
    cases key with
    | inl profileId => exact m.config.total_drain _ _ (minute, profileId)
    | inr processName => exact m.app.total_drain _ _ (minute, processName)
  | writeConfig i =>
    refine ⟨h, fun minute key => Eq.trans ?_ (add_zero _).symm⟩
    cases key with
    | inl profileId => exact m.config.total_write i _ (minute, profileId)
    | inr processName => rfl
  | writeApp i =>
    refine ⟨h, fun minute key => Eq.trans ?_ (add_zero _).symm⟩
    cases key with
    | inl profileId => rfl
    | inr processName => exact m.app.total_write i _ (minute, processName)

theorem total_foldl (events : List Event) (hclock : ∀ e ∈ events, ∀ now ∈ e.clock, 60 ≤ now)
    (minute : Int) (key : Int ⊕ String)
    (m : Manager) (h : Started m) :
    (events.foldl step m).total minute key =
      m.total minute key + amount (events.flatMap Event.deltas) (minute, key) := by
  induction events generalizing m with
  | nil => exact (add_zero _).symm
  | cons e rest ih =>
    obtain ⟨hstarted, htotal⟩ := step_total h (hclock e (.head _))
    rw [foldl_cons, ih (fun x hx => hclock x (.tail _ hx)) _ hstarted, htotal, flatMap_cons, amount_append,
      add_assoc]

theorem total_empty (minute : Int) (key : Int ⊕ String) : total {} minute key = 0 := by
  cases key <;> simp [total, Side.total]

/-- **Traffic by minute.** After any run, with every clock reading past the first minute, the rows that are written, those that a
thread has still to write and the accumulator have together, for each minute and profile or process, the sum of the deltas
whose own minute it is. -/
theorem traffic_contract (events : List Event) (hclock : ∀ e ∈ events, ∀ now ∈ e.clock, 60 ≤ now)
    (minute : Int) (key : Int ⊕ String) :
    (run events).total minute key = amount (events.flatMap Event.deltas) (minute, key) := by
  rw [run, total_foldl events hclock minute key {} (fun _ => ⟨rfl, rfl⟩), total_empty, zero_add]

/-- A thread that has written its batch has it no more in hand. -/
theorem taken_write {κ : Type} [DecidableEq κ] (side : Side κ) {i : Nat} (h : i < side.taken.length) :
    (side.write i).taken.length + 1 = side.taken.length := length_eraseIdx_add_one h

/-- Where no thread has rows in hand and nothing is accumulated, the table alone has the sums. -/
theorem table_of_written (events : List Event) (hclock : ∀ e ∈ events, ∀ now ∈ e.clock, 60 ≤ now)
    (minute profileId : Int)
    (htaken : (run events).config.taken = []) (haccum : (run events).config.accum = []) :
    amount (run events).config.table (minute, profileId) =
      amount (events.flatMap Event.deltas) (minute, .inl profileId) := by
  have h := total_foldl events hclock minute (.inl profileId) {} (fun _ => ⟨rfl, rfl⟩)
  rw [total_empty, zero_add, ← run] at h
  simpa [total, Side.total, htaken, haccum] using h

/-- A thread that is late by a minute, and a flush, around a minute boundary. -/
def lateThread : List Event :=
  [.addConfigDelta false 125 1 ⟨5, 7⟩, .addConfigDelta false 119 1 ⟨1, 1⟩,
   .addAppDelta false 130 "a" ⟨2, 0⟩, .writeConfig 1, .flush false]

theorem lateThread_total :
    (run lateThread).total 60 (.inl 1) = ⟨1, 1⟩ ∧ (run lateThread).config.table = [((60, 1), ⟨1, 1⟩)] :=
  ⟨(traffic_contract lateThread (by decide) 60 (.inl 1)).trans (by decide), by decide⟩

end Waterdisco.TrafficStats
