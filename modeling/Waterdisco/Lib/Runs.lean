import Mathlib.Logic.Relation

/-!
# Runs

A run is a list of events folded into a state, or a chain of a step relation.
What one step keeps, a run keeps (`foldl_keeps`, `reaches_keeps`).  A run whose
events have to meet a condition on the state they are met in is `AllMeet`.

Threads are a list; one of them moves at a time, which is `List.set`.  How many
of them are in a given situation changes by the one that moved
(`countP_set_of_getElem?`).
-/

namespace Waterdisco

open List

section
variable {σ α : Type}

theorem foldl_keeps (step : σ → α → σ) (P : σ → Prop) (hstep : ∀ s a, P s → P (step s a)) (l : List α) (s : σ)
    (h : P s) : P (l.foldl step s) := by
  induction l generalizing s with
  | nil => exact h
  | cons a l ih => exact ih (step s a) (hstep s a h)

/-- Every event of the run meets `C` in the state it is met in. -/
def AllMeet (step : σ → α → σ) (C : σ → α → Prop) : σ → List α → Prop
  | _, [] => True
  | s, a :: l => C s a ∧ AllMeet step C (step s a) l

/-- What every event that meets `C` keeps, a run of such events keeps. -/
theorem AllMeet.keeps {step : σ → α → σ} {C : σ → α → Prop} {P : σ → Prop}
    (hstep : ∀ s a, C s a → P s → P (step s a)) {l : List α} {s : σ} (hl : AllMeet step C s l) (h : P s) :
    P (l.foldl step s) := by
  induction l generalizing s with
  | nil => exact h
  | cons a l ih => exact ih hl.2 (hstep s a hl.1 h)

instance {step : σ → α → σ} {C : σ → α → Prop} [∀ s a, Decidable (C s a)] (s : σ) (l : List α) :
    Decidable (AllMeet step C s l) :=
  match l with
  | [] => .isTrue trivial
  | a :: l =>
    have : Decidable (AllMeet step C (step s a) l) := instDecidableAllMeet (step s a) l
    inferInstanceAs (Decidable (C s a ∧ AllMeet step C (step s a) l))

theorem AllMeet.append {step : σ → α → σ} {C : σ → α → Prop} {l l' : List α} {s : σ} (h : AllMeet step C s (l ++ l')) :
    AllMeet step C s l ∧ AllMeet step C (l.foldl step s) l' := by
  induction l generalizing s with
  | nil => exact ⟨trivial, h⟩
  | cons a l ih =>
    obtain ⟨hl, hl'⟩ := ih h.2
    exact ⟨⟨h.1, hl⟩, hl'⟩

theorem allMeet_of_forall {step : σ → α → σ} {C : α → Prop} {l : List α} (h : ∀ a ∈ l, C a) (s : σ) :
    AllMeet step (fun _ a => C a) s l := by
  induction l generalizing s with
  | nil => trivial
  | cons a l ih => exact ⟨h a (by simp), ih (fun b hb => h b (.tail _ hb)) _⟩

theorem reaches_keeps {step : σ → σ → Prop} {P : σ → Prop} (hstep : ∀ a b, step a b → P a → P b) {a b : σ}
    (hab : Relation.ReflTransGen step a b) (h : P a) : P b := by
  induction hab with
  | refl => exact h
  | tail _ hbc ih => exact hstep _ _ hbc ih

end

/-! ## Threads -/

section
variable {α : Type}

theorem countP_set_of_getElem? (p : α → Bool) (l : List α) (k : Nat) (a b : α) (h : l[k]? = some a) :
    (l.set k b).countP p + (if p a then 1 else 0) = l.countP p + (if p b then 1 else 0) := by
  induction l generalizing k with
  | nil => simp at h
  | cons c l ih =>
    cases k with
    | zero =>
      simp only [getElem?_cons_zero, Option.some.injEq] at h
      subst h
      simp only [set_cons_zero, countP_cons]
      omega
    | succ k =>
      have := ih k (by simpa using h)
      simp only [set_cons_succ, countP_cons]
      omega

/-- What holds of every thread and of the one that moved holds of every thread afterwards. -/
theorem forall_mem_set {P : α → Prop} {l : List α} {k : Nat} {b : α} (h : ∀ a ∈ l, P a) (hb : P b) :
    ∀ a ∈ l.set k b, P a := by
  intro a ha
  rcases mem_or_eq_of_mem_set ha with hl | rfl
  · exact h a hl
  · exact hb

end

end Waterdisco
