import Mathlib.Data.List.Dedup
import Mathlib.Data.List.Lex
import Mathlib.Data.List.Sort
import Mathlib.Algebra.Order.Ring.Rat
import Mathlib.Data.Prod.Lex

/-!
# Tables of cells

A row gives every column a cell; a cell of no column of its table is NULL.  The rows are in
some order, which no statement reads.

    every column given, the row of the same columns  →  fill r = r                     (fill_eq)
    the rows of one partition  =  they in their order, numbered 0, 1, …               (numbered_part)
-/

namespace Waterdisco.Sql

open List Function

/-! ## Cells -/

inductive Value
  | null
  | integer (n : Int)
  | real (x : Rat)
  | text (s : String)
  | blob (bytes : List UInt8)
deriving DecidableEq

namespace Value

/-- NULL, then numbers, text and bytes. -/
def kind : Value → Nat
  | null => 0
  | integer _ | real _ => 1
  | text _ => 2
  | blob _ => 3

def number : Value → Rat
  | integer n => n
  | real x => x
  | _ => 0

def content : Value → List Nat
  | text s => s.toList.map Char.toNat
  | blob bytes => bytes.map UInt8.toNat
  | _ => []

def key (v : Value) : Nat ×ₗ (Rat ×ₗ List Nat) := toLex (v.kind, toLex (v.number, v.content))

def le (a b : Value) : Prop := a.key ≤ b.key

instance : DecidableRel le := fun a b => inferInstanceAs (Decidable (a.key ≤ b.key))

theorem total (a b : Value) : a.le b ∨ b.le a := le_total a.key b.key

theorem trans {a b c : Value} (hab : a.le b) (hbc : b.le c) : a.le c := le_trans (b := b.key) hab hbc

/-- The cell of an integer column. -/
def toInt : Value → Int
  | integer n => n
  | _ => 0

end Value

abbrev Row := String → Value

structure CellTable where
  columns : List String
  /-- what a column gets that an `INSERT` does not name -/
  default : String → Value
  rows : List Row
  named : columns ≠ []
  clean : ∀ r ∈ rows, ∀ c, c ∉ columns → r c = .null

namespace CellTable

/-! ## Statements -/

/-- `DELETE ... WHERE`. -/
def delete (t : CellTable) (p : Row → Bool) : CellTable where
  columns := t.columns
  default := t.default
  rows := t.rows.filter (fun r => !p r)
  named := t.named
  clean := fun r hr => t.clean r (mem_of_mem_filter hr)

/-- A new row of which the columns `given` are known. -/
def fill (t : CellTable) (given : String → Bool) (r : Row) : Row :=
  fun c => if c ∈ t.columns then if given c then r c else t.default c else .null

/-- `INSERT ... SELECT`. -/
def insert (t : CellTable) (given : String → Bool) (rows : List Row) : CellTable where
  columns := t.columns
  default := t.default
  rows := t.rows ++ rows.map (t.fill given)
  named := t.named
  clean := by
    intro r hr c hc
    obtain hold | hnew := mem_append.mp hr
    · exact t.clean r hold c hc
    · obtain ⟨s, -, rfl⟩ := mem_map.mp hnew
      exact if_neg hc

/-- `UPDATE ... SET`. -/
def set (t : CellTable) (column : String) (f : Row → Value) : CellTable where
  columns := t.columns
  default := t.default
  rows := if column ∈ t.columns then t.rows.map (fun r => update r column (f r)) else t.rows
  named := t.named
  clean := by
    intro r hr c hc
    split at hr
    · next hcolumn =>
      obtain ⟨s, hs, rfl⟩ := mem_map.mp hr
      have hne : c ≠ column := by
        rintro rfl
        exact hc hcolumn
      rw [update_of_ne hne]
      exact t.clean s hs c hc
    · exact t.clean r hr c hc

variable (t : CellTable)

theorem fill_eq {given : String → Bool} {r : Row} (hgiven : ∀ c ∈ t.columns, given c = true)
    (hr : ∀ c, c ∉ t.columns → r c = .null) : t.fill given r = r := by
  funext c
  by_cases hc : c ∈ t.columns
  · show (if c ∈ t.columns then if given c then r c else t.default c else .null) = r c
    rw [if_pos hc, if_pos (hgiven c hc)]
  · exact (if_neg hc).trans (hr c hc).symm

/-- A row without the cell of a column. -/
def erase (column : String) (r : Row) : Row := update r column .null

theorem erase_set (column : String) (f : Row → Value) :
    (t.set column f).rows.map (erase column) = t.rows.map (erase column) := by
  show (if column ∈ t.columns then t.rows.map (fun r => update r column (f r)) else t.rows).map (erase column) = _
  split
  · rw [map_map]
    refine map_congr_left (fun r _ => ?_)
    exact update_idem _ _ _
  · rfl

end CellTable

/-! ## Numbers in a partition -/

def numberedPart (part order column : String) (rows : List Row) (v : Value) : List Row :=
  ((rows.filter (fun r => r part = v)).insertionSort (fun r s => (r order).le (s order))).mapIdx
    (fun i r => update r column (.integer i))

def numbered (part order column : String) (rows : List Row) : List Row :=
  (rows.map (fun r => r part)).dedup.flatMap (numberedPart part order column rows)

theorem part_of_mem {part order column : String} {rows : List Row} {v : Value} (hne : part ≠ column) {r : Row}
    (hr : r ∈ numberedPart part order column rows v) : r part = v := by
  obtain ⟨i, hi, rfl⟩ := mem_mapIdx.mp hr
  rw [update_of_ne hne]
  have hmem := getElem_mem hi
  rw [mem_insertionSort] at hmem
  exact of_decide_eq_true (mem_filter.mp hmem).2

theorem filter_flatMap_part {part : String} {block : Value → List Row}
    (hblock : ∀ w, ∀ r ∈ block w, r part = w) (v : Value)
    {vs : List Value} (hvs : vs.Nodup) :
    (vs.flatMap block).filter (fun r => r part = v) = if v ∈ vs then block v else [] := by
  induction vs with
  | nil => rfl
  | cons w rest ih =>
    obtain ⟨hw, hrest⟩ := nodup_cons.mp hvs
    rw [flatMap_cons, filter_append, ih hrest]
    by_cases hv : v = w
    · subst hv
      rw [filter_eq_self.mpr (fun r hr => decide_eq_true (hblock v r hr)), if_neg hw, if_pos mem_cons_self, append_nil]
    have hnone : (block w).filter (fun r => r part = v) = [] := by
      refine filter_eq_nil_iff.mpr (fun r hr heq => hv ?_)
      rw [← of_decide_eq_true heq, hblock w r hr]
    rw [hnone, nil_append]
    by_cases hmem : v ∈ rest
    · rw [if_pos hmem, if_pos (.tail _ hmem)]
    · rw [if_neg hmem, if_neg (fun h => hmem ((mem_cons.mp h).resolve_left hv))]

/-- **A partition** is numbered in its order. -/
theorem numbered_part {part column : String} (order : String) (hne : part ≠ column) (rows : List Row) (v : Value) :
    (numbered part order column rows).filter (fun r => r part = v) = numberedPart part order column rows v := by
  rw [numbered, filter_flatMap_part (fun w r hr => part_of_mem hne hr) v (nodup_dedup _)]
  split
  · rfl
  next hv =>
  have hnone : rows.filter (fun r => r part = v) = [] := by
    refine filter_eq_nil_iff.mpr (fun r hr heq => hv ?_)
    rw [mem_dedup]
    exact mem_map.mpr ⟨r, hr, of_decide_eq_true heq⟩
  rw [numberedPart, hnone]
  rfl

theorem sorted_part (part order : String) (rows : List Row) (v : Value) :
    ((rows.filter (fun r => r part = v)).insertionSort (fun r s => (r order).le (s order))).Pairwise
      (fun r s => (r order).le (s order)) := by
  have : Std.Total (fun r s : Row => (r order).le (s order)) := ⟨fun _ _ => Value.total _ _⟩
  have : IsTrans Row (fun r s : Row => (r order).le (s order)) := ⟨fun _ _ _ => Value.trans⟩
  exact pairwise_insertionSort _ _

end Waterdisco.Sql
