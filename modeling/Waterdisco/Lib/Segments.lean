import Mathlib.Data.List.Basic

/-!
# Lexical paths

A path is a list of segments; some segments are skipped (the empty one and the
current directory) and some go up.  `resolve` walks down from a root and fails
when it would leave it; `normalize` is the cleaning that keeps the ups it cannot
resolve.

    resolve ns = some q  ↔  normalize ns = q with no up left in front

(`normalize_of_resolve`, `normalize_of_escape`).
-/

namespace Waterdisco

open List

theorem not_mem_of_mem_splitOn {α : Type} [DecidableEq α] (c : α) (path : List α) : ∀ seg ∈ path.splitOn c, c ∉ seg := by
  induction path with
  | nil => simp
  | cons x path ih =>
    rw [splitOn_cons_eq_if_modifyHead]
    split
    · intro seg hseg
      rcases mem_cons.mp hseg with rfl | hseg
      · simp
      · exact ih seg hseg
    rename_i hx
    have hx : x ≠ c := by simpa using hx
    cases hs : path.splitOn c with
    | nil => exact absurd hs (splitOn_ne_nil c path)
    | cons a rest =>
      rw [hs] at ih
      intro seg hseg
      rcases mem_cons.mp hseg with rfl | hseg
      · simp [Ne.symm hx, ih a mem_cons_self]
      · exact ih seg (.tail _ hseg)

section
variable {ν : Type} (skip up : ν → Bool)

/-- The segments below the root that `ns` leads to from `at`, if it stays below. -/
def resolveFrom : List ν → List ν → Option (List ν)
  | here, [] => some here
  | here, n :: ns =>
    if skip n then resolveFrom here ns
    else if up n then (if here.isEmpty then none else resolveFrom here.dropLast ns)
    else resolveFrom (here ++ [n]) ns

/-- The cleaned segments: an up takes the last name away, and stays if there is none. -/
def normalizeFrom : List ν → List ν → List ν
  | here, [] => here
  | here, n :: ns =>
    if skip n then normalizeFrom here ns
    else if up n then
      (match here.getLast? with
      | none => normalizeFrom [n] ns
      | some last => if up last then normalizeFrom (here ++ [n]) ns else normalizeFrom here.dropLast ns)
    else normalizeFrom (here ++ [n]) ns

/-- Neither skipped nor up. -/
def Plain (l : List ν) : Prop := ∀ n ∈ l, skip n = false ∧ up n = false

variable {skip up}

theorem Plain.dropLast {l : List ν} (h : Plain skip up l) : Plain skip up l.dropLast :=
  fun n hn => h n (dropLast_subset l hn)

theorem Plain.snoc {l : List ν} (h : Plain skip up l) {n : ν} (hs : skip n = false) (hu : up n = false) :
    Plain skip up (l ++ [n]) := by
  intro m hm
  rcases mem_append.mp hm with hm | hm
  · exact h m hm
  · rw [mem_singleton.mp hm]
    exact ⟨hs, hu⟩

theorem Plain.resolveFrom {here ns q : List ν} (h : Plain skip up here)
    (hr : resolveFrom skip up here ns = some q) : Plain skip up q := by
  induction ns generalizing here with
  | nil =>
    rw [← Option.some.inj hr]
    exact h
  | cons n ns ih =>
    unfold Waterdisco.resolveFrom at hr
    split at hr
    · exact ih h hr
    rename_i hs
    split at hr
    · split at hr
      · cases hr
      · exact ih h.dropLast hr
    · rename_i hu
      exact ih (h.snoc (by simpa using hs) (by simpa using hu)) hr

/-- An up in front is never taken away. -/
theorem normalizeFrom_head (skip : ν → Bool) {u : ν} (hu : up u = true) (rest ns : List ν) :
    ∃ tail, normalizeFrom skip up (u :: rest) ns = u :: tail := by
  induction ns generalizing rest with
  | nil => exact ⟨rest, rfl⟩
  | cons n ns ih =>
    unfold normalizeFrom
    split
    · exact ih rest
    split
    · rw [getLast?_eq_some_getLast (cons_ne_nil u rest)]
      simp only
      split
      · exact ih (rest ++ [n])
      rename_i hlast
      cases rest with
      | nil => exact absurd hu hlast
      | cons m rest =>
        exact ih _
    · exact ih (rest ++ [n])

theorem normalize_cases {here ns : List ν} (h : Plain skip up here) :
    match resolveFrom skip up here ns with
    | some q => normalizeFrom skip up here ns = q
    | none => ∃ u tail, up u = true ∧ skip u = false ∧ normalizeFrom skip up here ns = u :: tail := by
  induction ns generalizing here with
  | nil => rfl
  | cons n ns ih =>
    unfold resolveFrom normalizeFrom
    by_cases hs : skip n = true
    · rw [if_pos hs, if_pos hs]
      exact ih h
    rw [if_neg hs, if_neg hs]
    by_cases hu : up n = true
    · rw [if_pos hu, if_pos hu]
      by_cases hne : here = []
      · obtain ⟨tail, ht⟩ := normalizeFrom_head skip hu [] ns
        subst hne
        exact ⟨n, tail, hu, by simpa using hs, ht⟩
      rw [if_neg (by simpa using hne), getLast?_eq_some_getLast hne]
      simp only [(h _ (getLast_mem hne)).2, Bool.false_eq_true, if_false]
      exact ih h.dropLast
    · rw [if_neg hu, if_neg hu]
      exact ih (h.snoc (by simpa using hs) (by simpa using hu))

/-- A path that stays below the root cleans to what it leads to. -/
theorem normalize_of_resolve {here ns q : List ν} (h : Plain skip up here)
    (hr : resolveFrom skip up here ns = some q) : normalizeFrom skip up here ns = q := by
  simpa only [hr] using @normalize_cases ν skip up here ns h

/-- A path that leaves the root cleans to one that begins with an up. -/
theorem normalize_of_escape {here ns : List ν} (h : Plain skip up here)
    (hr : resolveFrom skip up here ns = none) :
    ∃ u tail, up u = true ∧ skip u = false ∧ normalizeFrom skip up here ns = u :: tail := by
  simpa only [hr] using @normalize_cases ν skip up here ns h

/-- Both walks only keep segments they met. -/
theorem resolveFrom_subset {here ns q : List ν} (h : resolveFrom skip up here ns = some q) :
    ∀ seg ∈ q, seg ∈ here ∨ seg ∈ ns := by
  induction ns generalizing here with
  | nil =>
    rw [← Option.some.inj h]
    exact fun seg hseg => .inl hseg
  | cons n ns ih =>
    unfold resolveFrom at h
    intro seg hseg
    have key : ∀ here', resolveFrom skip up here' ns = some q →
        (∀ m ∈ here', m ∈ here ∨ m = n) → seg ∈ here ∨ seg ∈ n :: ns := by
      intro here' h' hsub
      rcases ih h' seg hseg with hm | hm
      · rcases hsub seg hm with hm | rfl
        · exact .inl hm
        · exact .inr mem_cons_self
      · exact .inr (.tail _ hm)
    split at h
    · exact key here h fun m hm => .inl hm
    split at h
    · split at h
      · cases h
      · exact key _ h fun m hm => .inl (dropLast_subset here hm)
    refine key _ h fun m hm => ?_
    rcases mem_append.mp hm with hm | hm
    · exact .inl hm
    · exact .inr (mem_singleton.mp hm)

theorem resolveFrom_plain {ns : List ν} (h : Plain skip up ns) (here : List ν) :
    resolveFrom skip up here ns = some (here ++ ns) := by
  induction ns generalizing here with
  | nil => simp [resolveFrom]
  | cons n ns ih =>
    have hn := h n mem_cons_self
    simp only [resolveFrom, hn.1, hn.2, Bool.false_eq_true, if_false]
    rw [ih (fun m hm => h m (.tail _ hm)), append_assoc, singleton_append]

end

end Waterdisco
