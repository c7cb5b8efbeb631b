import Mathlib.Data.List.Basic

/-!
# Tables and statements

A table has columns and rows; one without columns does not exist.  Statements run in
order until one throws.

    runStatements throws n l s = (true, run l s)        if none of them throws     (runStatements_eq)
    (runStatements throws n l s).1 = true  ↔  none of them throws                  (runStatements_done_iff)
-/

namespace Waterdisco

open List

/-! ## Tables -/

structure Table (Row : Type*) where
  columns : List String
  rows : List Row
deriving DecidableEq

namespace Table

variable {Row : Type*}

def isPresent (t : Table Row) : Bool := !t.columns.isEmpty

def hasColumn (t : Table Row) (column : String) : Bool := t.columns.contains column

/-- `UPDATE` without a condition. -/
def update (t : Table Row) (f : Row → Row) : Table Row := { t with rows := t.rows.map f }

/-- `DELETE`, then `INSERT ... SELECT` of the rows that are wanted, each with the columns both sides have. -/
def replace (main bak : Table Row) (copied : (String → Bool) → Row → Row) (stays comes : Row → Bool) : Table Row :=
  if !main.isPresent || !bak.isPresent then main
  else if !main.columns.any bak.hasColumn then main
  else
    let both := fun column => main.hasColumn column && bak.hasColumn column
    { main with rows := main.rows.filter stays ++ (bak.rows.filter comes).map (copied both) }

@[simp] theorem columns_replace (main bak : Table Row) (copied : (String → Bool) → Row → Row)
    (stays comes : Row → Bool) :
    (main.replace bak copied stays comes).columns = main.columns := by
  rw [replace]
  split
  · rfl
  split
  · rfl
  · rfl

theorem rows_replace {main bak : Table Row} {copied : (String → Bool) → Row → Row} (stays comes : Row → Bool)
    (hpresent : main.isPresent = true) (hsame : bak.hasColumn = main.hasColumn)
    (hcopied : ∀ r ∈ bak.rows, copied main.hasColumn r = r) :
    (main.replace bak copied stays comes).rows = main.rows.filter stays ++ bak.rows.filter comes := by
  obtain ⟨c, columns, hcolumns⟩ : ∃ c columns, main.columns = c :: columns := by
    cases h : main.columns with
    | nil => simp [isPresent, h] at hpresent
    | cons c columns => exact ⟨c, columns, rfl⟩
  have hc : bak.hasColumn c = true := by
    rw [hsame]
    simp [hasColumn, hcolumns]
  have hbak : bak.isPresent = true := by
    cases h : bak.columns with
    | nil => simp [hasColumn, h] at hc
    | cons c columns => simp [isPresent, h]
  have hany : main.columns.any bak.hasColumn = true := any_eq_true.mpr ⟨c, by simp [hcolumns], hc⟩
  have hboth : (fun column => main.hasColumn column && bak.hasColumn column) = main.hasColumn := by
    funext column
    rw [hsame, Bool.and_self]
  rw [replace, hpresent, hbak, hany, hboth]
  show main.rows.filter stays ++ (bak.rows.filter comes).map (copied main.hasColumn) = _
  rw [map_congr_left fun r hr => hcopied r (mem_of_mem_filter hr), map_id']

end Table

/-! ## Statements -/

section

variable {State : Type*}

def run (l : List (State → State)) (s : State) : State := l.foldl (fun s statement => statement s) s

@[simp] theorem run_nil (s : State) : run [] s = s := rfl

@[simp] theorem run_cons (statement : State → State) (l : List (State → State)) (s : State) :
    run (statement :: l) s = run l (statement s) := rfl

theorem run_append (l m : List (State → State)) (s : State) : run (l ++ m) s = run m (run l s) := foldl_append

/-- Whether all have run, and the state then; `throws` tells of each statement, counted from `n`. -/
def runStatements (throws : Nat → Bool) : Nat → List (State → State) → State → Bool × State
  | _, [], s => (true, s)
  | n, statement :: rest, s => if throws n then (false, s) else runStatements throws (n + 1) rest (statement s)

theorem runStatements_done_iff (throws : Nat → Bool) (n : Nat) (l : List (State → State)) (s : State) :
    (runStatements throws n l s).1 = true ↔ ∀ i < l.length, throws (n + i) = false := by
  induction l generalizing n s with
  | nil => simp [runStatements]
  | cons statement l ih =>
    rw [runStatements]
    constructor
    · intro h i hi
      cases hn : throws n with
      | true => simp [hn] at h
      | false =>
        rw [hn] at h
        match i with
        | 0 => exact hn
        | i + 1 =>
          have hlater := (ih (n + 1) (statement s)).mp h i (by simpa using hi)
          rwa [Nat.add_right_comm] at hlater
    · intro h
      have hn : throws n = false := h 0 (by simp)
      rw [hn]
      refine (ih (n + 1) (statement s)).mpr fun i hi => ?_
      have hlater := h (i + 1) (by simpa using hi)
      rwa [← Nat.add_assoc, Nat.add_right_comm] at hlater

theorem runStatements_eq {throws : Nat → Bool} {n : Nat} {l : List (State → State)} {s : State}
    (h : (runStatements throws n l s).1 = true) : (runStatements throws n l s).2 = run l s := by
  induction l generalizing n s with
  | nil => rfl
  | cons statement l ih =>
    rw [runStatements] at h ⊢
    cases hn : throws n with
    | true => simp [hn] at h
    | false =>
      rw [hn] at h
      exact ih h

end

end Waterdisco
