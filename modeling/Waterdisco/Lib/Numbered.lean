import Mathlib.Data.List.Range
import Mathlib.Data.List.Nodup

/-!
# Names with ascending numbers

A counter that only goes up hands out names `f n`.  `Numbered f lo hi l` says that `l`
is such names, in order, with numbers from `lo` on and below `hi`; the names handed out
by two stretches of the counter go one after the other.

    Numbered f lo mid a → Numbered f mid hi b → Numbered f lo hi (a ++ b)   (Numbered.append)
    no name twice below hi → l.Nodup                                        (Numbered.nodup)
-/

namespace Waterdisco

open List

section
variable {α : Type} {f : Nat → α} {lo mid hi : Nat} {a b l : List α}

def Numbered (f : Nat → α) (lo hi : Nat) (l : List α) : Prop :=
  ∃ numbers : List Nat, numbers.Pairwise (· < ·) ∧ (∀ n ∈ numbers, lo ≤ n ∧ n < hi) ∧ l = numbers.map f

theorem Numbered.nil (f : Nat → α) (lo hi : Nat) : Numbered f lo hi [] :=
  ⟨[], Pairwise.nil, by simp, rfl⟩

theorem Numbered.append (ha : Numbered f lo mid a) (hb : Numbered f mid hi b) (hlo : lo ≤ mid) (hhi : mid ≤ hi) :
    Numbered f lo hi (a ++ b) := by
  obtain ⟨is, his, hbelow, rfl⟩ := ha
  obtain ⟨js, hjs, habove, rfl⟩ := hb
  refine ⟨is ++ js, ?_, ?_, by rw [map_append]⟩
  · rw [pairwise_append]
    refine ⟨his, hjs, fun i hi j hj => ?_⟩
    have := hbelow i hi
    have := habove j hj
    omega
  · intro i hi'
    rcases mem_append.mp hi' with h | h
    · have := hbelow i h
      omega
    · have := habove i h
      omega

/-- The first names from `lo` on. -/
theorem Numbered.range (f : Nat → α) {count : Nat} (h : lo + count ≤ hi) :
    Numbered f lo hi ((range count).map (fun i => f (lo + i))) := by
  refine ⟨(List.range count).map (lo + ·), ?_, ?_, by rw [List.map_map]; rfl⟩
  · rw [pairwise_map]
    exact pairwise_lt_range.imp (by intro i j hij; omega)
  intro n hn
  obtain ⟨i, hi, rfl⟩ := mem_map.mp hn
  rw [mem_range] at hi
  omega

theorem Numbered.mem {x : α} (h : Numbered f lo hi l) (hx : x ∈ l) : ∃ n, x = f n := by
  obtain ⟨numbers, _, _, rfl⟩ := h
  obtain ⟨n, _, rfl⟩ := mem_map.mp hx
  exact ⟨n, rfl⟩

/-- Names that are different below `n` are all different. -/
theorem Numbered.nodup {n : Nat} (h : Numbered f lo hi l) (hn : hi ≤ n)
    (hf : ∀ i j, i < j → j < n → f i ∈ l → f i ≠ f j) : l.Nodup := by
  obtain ⟨numbers, hup, hbound, rfl⟩ := h
  rw [Nodup, pairwise_map]
  refine hup.imp_of_mem ?_
  intro i j hi hj hij
  have := hbound j hj
  exact hf i j hij (by omega) (mem_map_of_mem hi)

end

end Waterdisco
