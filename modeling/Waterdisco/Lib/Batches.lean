import Mathlib.Data.List.Basic

/-!
# Batches

A list cut into batches of `n`, the last one shorter; put together again they are
the list (`flatten_batches`).
-/

namespace Waterdisco

open List

section
variable {α : Type}

def batchesLoop (n : Nat) : Nat → List α → List (List α)
  | 0, _ => []
  | fuel + 1, l => if l.isEmpty then [] else l.take n :: batchesLoop n fuel (l.drop n)

def batches (n : Nat) (l : List α) : List (List α) := batchesLoop n l.length l

theorem flatten_batchesLoop {n : Nat} (hn : 0 < n) (fuel : Nat) (l : List α) (h : l.length ≤ fuel) :
    (batchesLoop n fuel l).flatten = l := by
  induction fuel generalizing l with
  | zero => simp [batchesLoop, eq_nil_of_length_eq_zero (Nat.le_zero.mp h)]
  | succ fuel ih =>
    cases l with
    | nil => rfl
    | cons a l =>
      have hdrop : ((a :: l).drop n).length ≤ fuel := by
        rw [length_drop]
        omega
      simp only [batchesLoop, isEmpty_cons, Bool.false_eq_true, if_false, flatten_cons, ih _ hdrop]
      exact take_append_drop n (a :: l)

theorem flatten_batches {n : Nat} (hn : 0 < n) (l : List α) : (batches n l).flatten = l :=
  flatten_batchesLoop hn l.length l (.refl)

theorem mem_of_mem_batches {n : Nat} {l batch : List α} {a : α} (hn : 0 < n) (hb : batch ∈ batches n l)
    (ha : a ∈ batch) : a ∈ l := by
  rw [← flatten_batches hn l]
  exact mem_flatten.mpr ⟨batch, hb, ha⟩

end

end Waterdisco
