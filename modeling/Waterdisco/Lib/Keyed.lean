import Mathlib.Data.List.Sort

/-!
# Lists in the order of a key

A table read with `ORDER BY key` is a list sorted by that key.  Where the keys are
different, reading on after the last key seen is reading on where the last page
ended, and the rows up to a bound are a prefix.

    sortBy (a ++ b) = sortBy a ++ b      for b sorted and after a    (sortBy_append)
    l.filter (key > key of the m-th) = l.drop (m + 1)                (filter_after)
    x ∈ l, no key twice → theRow (key x) l = some x                  (theRow_of_mem)
-/

namespace Waterdisco

open List

section
variable {α : Type} (key : α → Nat)

/-- The list in the order of the key. -/
def sortBy (l : List α) : List α := l.insertionSort (fun a b => key a ≤ key b)

variable (l : List α)

theorem sortBy_perm : (sortBy key l).Perm l := perm_insertionSort _ l

theorem sortBy_pairwise : (sortBy key l).Pairwise (fun a b => key a ≤ key b) := by
  exact pairwise_insertionSort _ l

theorem sortBy_strict (h : (l.map key).Nodup) : (sortBy key l).Pairwise (fun a b => key a < key b) := by
  have hnodup : ((sortBy key l).map key).Nodup := ((sortBy_perm key l).map key).nodup_iff.mpr h
  rw [Nodup, pairwise_map] at hnodup
  refine ((sortBy_pairwise key l).and hnodup).imp ?_
  omega

theorem sortBy_map {f : α → α} (hf : ∀ a, key (f a) = key a) : sortBy key (l.map f) = (sortBy key l).map f :=
  (map_insertionSort (r := fun a b => key a ≤ key b) (s := fun a b => key a ≤ key b) f l
    fun a _ b _ => by rw [hf, hf]).symm

theorem orderedInsert_append (x : α) (l b : List α) (hx : ∀ y ∈ b, key x ≤ key y) :
    (l ++ b).orderedInsert (fun a b => key a ≤ key b) x = l.orderedInsert (fun a b => key a ≤ key b) x ++ b := by
  induction l with
  | nil =>
    cases b with
    | nil => rfl
    | cons y b =>
      exact orderedInsert_cons_of_le _ b (hx y (by simp))
  | cons z l ih =>
    simp only [cons_append, orderedInsert_cons]
    by_cases hz : key x ≤ key z
    · rw [if_pos hz, if_pos hz]
      rfl
    · rw [if_neg hz, if_neg hz, ih]
      rfl

/-- Rows that come after the ones that are there are read after them. -/
theorem sortBy_append (a b : List α) (hb : b.Pairwise (fun x y => key x ≤ key y))
    (hab : ∀ x ∈ a, ∀ y ∈ b, key x ≤ key y) : sortBy key (a ++ b) = sortBy key a ++ b := by
  induction a with
  | nil => exact hb.insertionSort_eq
  | cons x a ih =>
    have ih' := ih (fun z hz => hab z (.tail _ hz))
    unfold sortBy at *
    rw [cons_append, insertionSort_cons, ih', insertionSort_cons]
    exact orderedInsert_append key x _ b (hab x (by simp))

/-! ## Pages -/

/-- The rows after the `m`-th, by its key and by its place. -/
theorem filter_after (h : l.Pairwise (fun a b => key a < key b)) (m : Nat) (x : α)
    (hx : l[m]? = some x) : l.filter (fun y => key x < key y) = l.drop (m + 1) := by
  induction l generalizing m with
  | nil => simp at hx
  | cons y l ih =>
    rw [pairwise_cons] at h
    cases m with
    | zero =>
      simp only [getElem?_cons_zero, Option.some.injEq] at hx
      subst hx
      rw [filter_cons_of_neg (by simp), drop_succ_cons, drop_zero, filter_eq_self]
      intro z hz
      simpa using h.1 z hz
    | succ m =>
      have hlt : key y < key x := h.1 x (mem_of_getElem? hx)
      rw [filter_cons_of_neg (by simp; omega), drop_succ_cons]
      exact ih h.2 m hx

/-- The rows up to one bound, then those up to the next. -/
theorem filter_upTo_append (h : l.Pairwise (fun a b => key a ≤ key b)) (p q : α → Bool)
    (hp : ∀ x y, key x ≤ key y → p y = true → p x = true) :
    l.filter p ++ l.filter (fun x => !p x && q x) = l.filter (fun x => p x || q x) := by
  induction l with
  | nil => rfl
  | cons x l ih =>
    rw [pairwise_cons] at h
    by_cases hx : p x = true
    · rw [filter_cons_of_pos hx, filter_cons_of_neg (by simp [hx]), filter_cons_of_pos (by simp [hx]),
        cons_append, ih h.2]
    -- nothing after `x` is below the first bound either
    have hnone : ∀ y ∈ l, p y = false := by
      intro y hy
      by_contra hc
      exact hx (hp x y (h.1 y hy) (by simpa using hc))
    have hempty : (x :: l).filter p = [] := by
      rw [filter_eq_nil_iff]
      intro y hy
      rcases mem_cons.mp hy with rfl | hy
      · exact hx
      · simp [hnone y hy]
    rw [hempty, nil_append]
    apply filter_congr
    intro y hy
    rcases mem_cons.mp hy with rfl | hy
    · simp [hx]
    · simp [hnone y hy]

end

/-! ## The one row of a key -/

section
variable {α κ : Type} [DecidableEq κ] (key : α → κ)

/-- The row of a key, where there is just one. -/
def theRow (k : κ) (l : List α) : Option α :=
  match l.filter (fun x => key x == k) with
  | [x] => some x
  | _ => none

theorem theRow_of_mem {l : List α} {x : α} (h : (l.map key).Nodup) (hx : x ∈ l) : theRow key (key x) l = some x := by
  have hfilter : l.filter (fun y => key y == key x) = [x] := by
    induction l with
    | nil => cases hx
    | cons y l ih =>
      rw [map_cons, nodup_cons] at h
      rcases mem_cons.mp hx with rfl | hx
      · have hnone : l.filter (fun z => key z == key x) = [] := by
          rw [filter_eq_nil_iff]
          intro z hz
          rw [beq_iff_eq]
          intro heq
          exact h.1 (heq ▸ mem_map_of_mem hz)
        rw [filter_cons_of_pos (by simp), hnone]
      · have hne : key y ≠ key x := fun heq => h.1 (heq ▸ mem_map_of_mem hx)
        rw [filter_cons_of_neg (by simpa using hne), ih h.2 hx]
  rw [theRow, hfilter]

theorem theRow_perm {k : κ} {l l' : List α} {x : α} (hperm : l.Perm l') (h : theRow key k l' = some x) :
    theRow key k l = some x := by
  unfold theRow at h ⊢
  have hfilter := hperm.filter (fun y => key y == k)
  split at h
  · rename_i y hy
    rw [hy] at hfilter
    rw [perm_singleton.mp hfilter]
    exact h
  · cases h

theorem theRow_append {k : κ} {a l b : List α} (ha : k ∉ a.map key) (hb : k ∉ b.map key) :
    theRow key k (a ++ l ++ b) = theRow key k l := by
  have hnone {l : List α} (hl : k ∉ l.map key) : l.filter (fun y => key y == k) = [] := by
    rw [filter_eq_nil_iff]
    intro y hy
    rw [beq_iff_eq]
    rintro rfl
    exact hl (mem_map_of_mem hy)
  unfold theRow
  rw [filter_append, filter_append, hnone ha, hnone hb, nil_append, append_nil]

end

/-! ## Any order of keys -/

section
variable {α κ : Type} [LinearOrder κ] (key : α → κ)

/-- The list in the order of a key of any ordered type. -/
def orderBy (l : List α) : List α := l.insertionSort fun a b => key a ≤ key b

theorem orderBy_perm (l : List α) : (orderBy key l).Perm l := perm_insertionSort _ l

theorem orderBy_pairwise (l : List α) : (orderBy key l).Pairwise fun a b => key a ≤ key b := by
  exact pairwise_insertionSort _ l

theorem orderBy_eq {l l' : List α} (h : (l.map key).Nodup) (hperm : l'.Perm l)
    (hsorted : l'.Pairwise fun a b => key a ≤ key b) :
    orderBy key l = l' := by
  have hanti : ∀ a b, a ∈ orderBy key l → b ∈ l' → key a ≤ key b → key b ≤ key a → a = b := by
    intro a b ha hb hab hba
    have hin : a ∈ l := (orderBy_perm key l).mem_iff.mp ha
    exact inj_on_of_nodup_map h hin (hperm.mem_iff.mp hb) (le_antisymm hab hba)
  exact Perm.eq_of_pairwise hanti (orderBy_pairwise key l) hsorted ((orderBy_perm key l).trans hperm.symm)

theorem orderBy_of_pairwise {l : List α} (h : l.Pairwise fun a b => key a ≤ key b) :
    orderBy key l = l := h.insertionSort_eq

end

end Waterdisco
