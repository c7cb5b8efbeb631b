import Mathlib.Data.List.Basic

/-!
# Walks along links

Nodes with one link each: a node ends the way, names the node after it, or names
something that is not there.  `Walk n path` says that following the links from `n`
comes to an end and shows `path` on the way; a node that only relays shows nothing.
`Leads n path m` is the part of a way up to the node `m`.

    Walk n p → Walk n q → p = q                                   (Walk.unique)
    Leads n p m → (Walk n r ↔ ∃ q, Walk m q ∧ r = p ++ q)          (Leads.walk_iff)
-/

namespace Waterdisco

open List

inductive Link (ν : Type) where
  | ends
  | goes (node : ν)
  | lost
deriving DecidableEq

section
variable {ν β : Type} (next : ν → Link ν) (shows : ν → List β)

/-- The links from a node come to an end, and this is what they show on the way. -/
inductive Walk : ν → List β → Prop
  | ends {n : ν} (h : next n = .ends) : Walk n (shows n)
  | goes {n m : ν} {path : List β} (h : next n = .goes m) (rest : Walk m path) : Walk n (shows n ++ path)

/-- The links from a node come to another, and this is what they show before it. -/
inductive Leads : ν → List β → ν → Prop
  | here (n : ν) : Leads n [] n
  | goes {n m k : ν} {path : List β} (h : next n = .goes m) (rest : Leads m path k) : Leads n (shows n ++ path) k

variable {next shows}

theorem Walk.of_ends {n : ν} {path : List β} (h : next n = .ends) (hw : Walk next shows n path) : path = shows n := by
  cases hw with
  | ends => rfl
  | goes h' => rw [h] at h'; cases h'

theorem Walk.of_goes {n m : ν} {path : List β} (h : next n = .goes m) (hw : Walk next shows n path) :
    ∃ rest, Walk next shows m rest ∧ path = shows n ++ rest := by
  cases hw with
  | ends h' => rw [h] at h'; cases h'
  | goes h' rest =>
    rw [h] at h'
    cases h'
    exact ⟨_, rest, rfl⟩

/-- There is one way to go. -/
theorem Walk.unique {n : ν} {p q : List β} (hp : Walk next shows n p) (hq : Walk next shows n q) : p = q := by
  induction hp generalizing q with
  | ends h => exact (hq.of_ends h).symm
  | goes h _ ih =>
    obtain ⟨rest, hrest, rfl⟩ := hq.of_goes h
    rw [ih hrest]

theorem Leads.one {n m : ν} (h : next n = .goes m) : Leads next shows n (shows n) m := by
  have := @Leads.goes ν β next shows n m m [] h (.here m)
  rwa [append_nil] at this

theorem Leads.trans {n m k : ν} {p q : List β} (h : Leads next shows n p m) (h' : Leads next shows m q k) :
    Leads next shows n (p ++ q) k := by
  induction h with
  | here => exact h'
  | goes h _ ih =>
    rw [append_assoc]
    exact .goes h (ih h')

theorem Leads.walk_iff {n m : ν} {p r : List β} (h : Leads next shows n p m) :
    Walk next shows n r ↔ ∃ q, Walk next shows m q ∧ r = p ++ q := by
  induction h generalizing r with
  | here => simp
  | goes h _ ih =>
    constructor
    · intro hw
      obtain ⟨rest, hrest, rfl⟩ := hw.of_goes h
      obtain ⟨q, hq, rfl⟩ := ih.mp hrest
      exact ⟨q, hq, (append_assoc _ _ _).symm⟩
    · rintro ⟨q, hq, rfl⟩
      rw [append_assoc]
      exact .goes h (ih.mpr ⟨q, hq, rfl⟩)

theorem leads_row (node : Nat → ν) (items : List β)
    (hnext : ∀ i, i < items.length → next (node i) = .goes (node (i + 1)))
    (hshows : ∀ i (h : i < items.length), shows (node i) = [items[i]]) :
    Leads next shows (node 0) items (node items.length) := by
  induction items generalizing node with
  | nil => exact .here _
  | cons b items ih =>
    have hrest := ih (fun i => node (i + 1)) (fun i hi => hnext (i + 1) (by simpa using hi))
      (fun i hi => hshows (i + 1) (by simpa using hi))
    have h0 := hshows 0 (by simp)
    have := @Leads.goes ν β next shows _ _ _ _ (hnext 0 (by simp)) hrest
    rwa [h0] at this

theorem walk_row (node : Nat → ν) (items : List β) (hne : items ≠ [])
    (hnext : ∀ i, i + 1 < items.length → next (node i) = .goes (node (i + 1)))
    (hends : ∀ i, i + 1 = items.length → next (node i) = .ends)
    (hshows : ∀ i (h : i < items.length), shows (node i) = [items[i]]) : Walk next shows (node 0) items := by
  induction items generalizing node with
  | nil => exact absurd rfl hne
  | cons b items ih =>
    have h0 : shows (node 0) = [b] := hshows 0 (by simp)
    cases items with
    | nil =>
      rw [← h0]
      exact Walk.ends (hends 0 rfl)
    | cons c items =>
      have hrest : Walk next shows (node 1) (c :: items) :=
        ih (fun i => node (i + 1)) (by simp) (fun i hi => hnext (i + 1) (by simpa using hi))
          (fun i hi => hends (i + 1) (by simpa using hi)) (fun i hi => hshows (i + 1) (by simpa using hi))
      have := Walk.goes (hnext 0 (by simp)) hrest
      rwa [h0] at this

end

end Waterdisco
