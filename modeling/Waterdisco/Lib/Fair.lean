import Mathlib.Order.WellFounded

/-!
# Schedules

An infinite run with the event of every step.  What a step keeps holds at all times
(`Schedule.keeps`), and what is worked towards is reached: some events bring the goal
closer, no other event takes it further away, and such events keep coming
(`Schedule.eventually`).
-/

namespace Waterdisco

open Nat

variable {σ α ρ : Type}

/-- States and events, one after another. -/
structure Schedule (step : σ → α → Option σ) (first : σ) where
  state : Nat → σ
  event : Nat → α
  start : state 0 = first
  next : ∀ n, step (state n) (event n) = some (state (n + 1))

namespace Schedule

variable {step : σ → α → Option σ} {first : σ} {P : σ → Prop}

variable (r : Schedule step first)

/-- What a step keeps holds from the time on at which it holds once. -/
theorem keeps_from (hstep : ∀ n, P (r.state n) → P (r.state (n + 1))) {n m : Nat} (hnm : n ≤ m)
    (h : P (r.state n)) : P (r.state m) := by
  induction m, hnm using le_induction with
  | base => exact h
  | succ m _ ih => exact hstep m ih

theorem keeps (hfirst : P first) (hstep : ∀ n, P (r.state n) → P (r.state (n + 1))) (n : Nat) :
    P (r.state n) := r.keeps_from hstep (zero_le n) (r.start.symm ▸ hfirst)

/-- A goal is reached when the work on it goes on: work lowers a rank, and nothing else raises it. -/
theorem eventually {lt : ρ → ρ → Prop} (hwf : WellFounded lt) (rank : σ → ρ) (Work : α → Prop)
    (Goal : σ → Prop)
    (hwork : ∀ n, P (r.state n) → ¬ Goal (r.state n) → Work (r.event n) →
      Goal (r.state (n + 1)) ∨ lt (rank (r.state (n + 1))) (rank (r.state n)))
    (hother : ∀ n, P (r.state n) → ¬ Goal (r.state n) → ¬ Work (r.event n) →
      Goal (r.state (n + 1)) ∨ rank (r.state (n + 1)) = rank (r.state n))
    (hkeep : ∀ n, P (r.state n) → P (r.state (n + 1)))
    (hfair : ∀ n, P (r.state n) → ∃ m, n ≤ m ∧ (Goal (r.state m) ∨ Work (r.event m))) {n : Nat} (hn : P (r.state n)) :
    ∃ m, n ≤ m ∧ Goal (r.state m) := by
  generalize hrank : rank (r.state n) = x
  induction x using hwf.induction generalizing n with
  | _ x ih =>
    obtain ⟨m, hnm, hm⟩ := hfair n hn
    obtain ⟨d, rfl⟩ := Nat.exists_eq_add_of_le hnm
    clear hnm
    -- `d` steps before the work
    induction d generalizing n with
    | zero =>
      by_cases hgoal : Goal (r.state n)
      · exact ⟨n, le_refl n, hgoal⟩
      have hw : Work (r.event n) := hm.resolve_left hgoal
      obtain hreached | hlower := hwork n hn hgoal hw
      · exact ⟨n + 1, le_succ n, hreached⟩
      · obtain ⟨k, hk, hreached⟩ := ih _ (hrank ▸ hlower) (hkeep n hn) rfl
        exact ⟨k, by omega, hreached⟩
    | succ d ihd =>
      by_cases hgoal : Goal (r.state n)
      · exact ⟨n, le_refl n, hgoal⟩
      by_cases hw : Work (r.event n)
      · obtain hreached | hlower := hwork n hn hgoal hw
        · exact ⟨n + 1, le_succ n, hreached⟩
        · obtain ⟨k, hk, hreached⟩ := ih _ (hrank ▸ hlower) (hkeep n hn) rfl
          exact ⟨k, by omega, hreached⟩
      · obtain hreached | hsame := hother n hn hgoal hw
        · exact ⟨n + 1, le_succ n, hreached⟩
        have hnext : n + (d + 1) = n + 1 + d := by omega
        obtain ⟨k, hk, hreached⟩ := ihd (hkeep n hn) (hsame.trans hrank) (hnext ▸ hm)
        exact ⟨k, by omega, hreached⟩

end Schedule

end Waterdisco
