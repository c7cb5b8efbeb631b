import Mathlib.Algebra.BigOperators.Group.Finset.Basic

/-!
# Meters

A meter shows a growing value; it is read from time to time, and each reading names its owner.
What an owner has used is the sum of the last values of its meters.  It grows with each reading
by what the meter grew since its last one.

    r.value = last l r.meter + d → total (l ++ [r]) k = total l k + if r.owner = k then d else 0     (total_concat)
    Grown inc l new → total (l ++ new) k = total l k + ∑ of inc over the owner's readings            (total_append)
-/

namespace Waterdisco

open List

structure Reading (ι κ M : Type*) where
  meter : ι
  owner : κ
  value : M

namespace Reading

variable {ι κ M : Type*}

/-- No meter changes its owner. -/
def OneOwner (l : List (Reading ι κ M)) : Prop := ∀ a ∈ l, ∀ b ∈ l, a.meter = b.meter → a.owner = b.owner

variable {l new : List (Reading ι κ M)} {i : ι}

theorem OneOwner.append_left {l' : List (Reading ι κ M)} (h : OneOwner (l ++ l')) : OneOwner l :=
  fun a ha b hb => h a (mem_append_left _ ha) b (mem_append_left _ hb)

variable [DecidableEq ι] [AddCommMonoid M]

/-- The last value of a meter, 0 before the first reading. -/
def last (l : List (Reading ι κ M)) (i : ι) : M := l.foldl (fun v r => if r.meter = i then r.value else v) 0

/-- Each of the new readings shows what its meter showed last and its increment. -/
def Grown (inc : Reading ι κ M → M) : List (Reading ι κ M) → List (Reading ι κ M) → Prop
  | _, [] => True
  | l, r :: new => r.value = last l r.meter + inc r ∧ Grown inc (l ++ [r]) new

/-! ## Last values -/

theorem last_concat (l : List (Reading ι κ M)) (r : Reading ι κ M) (i : ι) :
    last (l ++ [r]) i = if r.meter = i then r.value else last l i := by
  rw [last, foldl_append]
  rfl

theorem last_unread (h : ∀ r ∈ l, r.meter ≠ i) : last l i = 0 := by
  induction l using reverseRecOn with
  | nil => rfl
  | append_singleton l r ih =>
    rw [last_concat, if_neg (h r (by simp))]
    exact ih (fun a ha => h a (mem_append_left _ ha))

theorem last_mem (l : List (Reading ι κ M)) (i : ι) : last l i = 0 ∨ ∃ r ∈ l, r.meter = i ∧ last l i = r.value := by
  induction l using reverseRecOn with
  | nil => exact .inl rfl
  | append_singleton l r ih =>
    rw [last_concat]
    by_cases hi : r.meter = i
    · exact .inr ⟨r, by simp, hi, if_pos hi⟩
    rw [if_neg hi]
    rcases ih with h | ⟨a, ha, h⟩
    · exact .inl h
    · exact .inr ⟨a, mem_append_left _ ha, h⟩

theorem last_append_unread (h : ∀ r ∈ new, r.meter ≠ i) :
    last (l ++ new) i = last l i := by
  induction new generalizing l with
  | nil => rw [append_nil]
  | cons r new ih =>
    rw [append_cons, ih (fun a ha => h a (.tail _ ha)), last_concat, if_neg (h r (.head _))]

theorem last_append_of_mem (hnew : (new.map meter).Nodup) {r : Reading ι κ M} (hr : r ∈ new) :
    last (l ++ new) r.meter = r.value := by
  obtain ⟨front, back, rfl⟩ := append_of_mem hr
  rw [map_append, map_cons, nodup_append, nodup_cons] at hnew
  have hback : ∀ a ∈ back, a.meter ≠ r.meter := fun a ha heq => hnew.2.1.1 (mem_map.mpr ⟨a, ha, heq⟩)
  rw [append_cons front, ← append_assoc, last_append_unread hback, ← append_assoc, last_concat, if_pos rfl]

/-- Readings of different meters may be compared with what was read before all of them. -/
theorem grown_of_nodup {inc : Reading ι κ M → M} (hnew : (new.map meter).Nodup)
    (h : ∀ r ∈ new, r.value = last l r.meter + inc r) : Grown inc l new := by
  induction new generalizing l with
  | nil => trivial
  | cons r new ih =>
    rw [map_cons, nodup_cons] at hnew
    refine ⟨h r mem_cons_self, ih hnew.2 fun a ha => ?_⟩
    rw [last_concat, if_neg]
    · exact h a (.tail _ ha)
    · exact fun heq => hnew.1 (mem_map.mpr ⟨a, ha, heq.symm⟩)

/-! ## Totals -/

variable [DecidableEq κ]

def metersOf (l : List (Reading ι κ M)) (k : κ) : Finset ι := ((l.filter (fun r => r.owner = k)).map meter).toFinset

def total (l : List (Reading ι κ M)) (k : κ) : M := ∑ i ∈ metersOf l k, last l i

omit [AddCommMonoid M] in
theorem mem_metersOf {k : κ} : i ∈ metersOf l k ↔ ∃ r ∈ l, r.owner = k ∧ r.meter = i := by
  simp only [metersOf, mem_toFinset, mem_map, mem_filter, decide_eq_true_eq, and_assoc]

omit [AddCommMonoid M] in
theorem metersOf_concat (l : List (Reading ι κ M)) (r : Reading ι κ M) (k : κ) :
    metersOf (l ++ [r]) k = if r.owner = k then insert r.meter (metersOf l k) else metersOf l k := by
  by_cases hk : r.owner = k
  · simp [metersOf, hk, eq_comm]
  · simp [metersOf, hk]

/-- **A reading adds what its meter grew by.** -/
theorem total_concat {r : Reading ι κ M} (howner : OneOwner (l ++ [r])) {d : M}
    (h : r.value = last l r.meter + d) (k : κ) : total (l ++ [r]) k = total l k + if r.owner = k then d else 0 := by
  have hlast : ∀ i, i ≠ r.meter → last (l ++ [r]) i = last l i := by
    intro i hi
    rw [last_concat, if_neg (Ne.symm hi)]
  have hself : last (l ++ [r]) r.meter = last l r.meter + d := by rw [last_concat, if_pos rfl, h]
  rw [total, total, metersOf_concat]
  by_cases hk : r.owner = k
  · rw [if_pos hk, if_pos hk]
    have hothers : ∑ i ∈ (metersOf l k).erase r.meter,
    last (l ++ [r]) i = ∑ i ∈ (metersOf l k).erase r.meter, last l i :=
      Finset.sum_congr rfl (fun i hi => hlast i (Finset.ne_of_mem_erase hi))
    by_cases hmem : r.meter ∈ metersOf l k
    · rw [Finset.insert_eq_of_mem hmem, ← Finset.add_sum_erase _ _ hmem, ← Finset.add_sum_erase _ _ hmem, hothers, hself]
      exact add_right_comm _ _ _
    have hnew : last l r.meter = 0 := by
      refine last_unread (fun a ha heq => hmem (mem_metersOf.mpr ⟨a, ha, ?_, heq⟩))
      exact (howner a (mem_append_left _ ha) r (by simp) heq).trans hk
    rw [Finset.erase_eq_of_notMem hmem] at hothers
    rw [Finset.sum_insert hmem, hself, hothers, hnew, zero_add, add_comm]
  · rw [if_neg hk, if_neg hk, add_zero]
    refine Finset.sum_congr rfl (fun i hi => hlast i ?_)
    rintro rfl
    obtain ⟨a, ha, hak, hmeter⟩ := mem_metersOf.mp hi
    exact hk ((howner a (mem_append_left _ ha) r (by simp) hmeter).symm.trans hak)

/-- **New readings add their increments.** -/
theorem total_append {inc : Reading ι κ M → M} (howner : OneOwner (l ++ new))
    (h : Grown inc l new) (k : κ) :
    total (l ++ new) k = total l k + ((new.filter (fun r => r.owner = k)).map inc).sum := by
  induction new generalizing l with
  | nil => simp
  | cons r new ih =>
    rw [append_cons] at howner ⊢
    rw [ih howner h.2, total_concat howner.append_left h.1, add_assoc]
    by_cases hk : r.owner = k <;> simp [hk]

end Reading

end Waterdisco
