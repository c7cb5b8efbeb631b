import Mathlib.Data.Nat.ModEq
import Mathlib.Data.Nat.Prime.Basic
import Mathlib.Data.Fintype.Pigeonhole
import Mathlib.Data.Nat.Bitwise

/-!
# Permutations of an initial segment

`PermutesBelow N f`: `f` maps the numbers below `N` one to one to themselves.
The rounds of a mixer do (`permutes_add`, `permutes_xorShift`, `permutes_mul`),
so do their compositions, and walking along the cycles of such an `f` until a
smaller bound is met permutes the numbers below that bound (`permutes_walk`).
A list read in the order of such a permutation is a permutation of the list
(`perm_map_range`).

`search` is the binary search for the first index where a monotone test holds.
-/

namespace Waterdisco

open Nat List

/-- One to one on the numbers below `N`. -/
structure PermutesBelow (N : Nat) (f : Nat → Nat) : Prop where
  maps : ∀ x, x < N → f x < N
  inj : ∀ x y, x < N → y < N → f x = f y → x = y

namespace PermutesBelow

variable {N : Nat} {f g : Nat → Nat}

theorem comp (hg : PermutesBelow N g) (hf : PermutesBelow N f) : PermutesBelow N (fun x => g (f x)) where
  maps x hx := hg.maps _ (hf.maps x hx)
  inj x y hx hy h := hf.inj x y hx hy (hg.inj _ _ (hf.maps x hx) (hf.maps y hy) h)

theorem iterate (hf : PermutesBelow N f) (k : Nat) : PermutesBelow N (f^[k]) := by
  induction k with
  | zero => exact ⟨fun x hx => hx, fun x y _ _ h => h⟩
  | succ k ih => exact ih.comp hf

end PermutesBelow

/-! ## Rounds modulo a power of two -/

theorem permutes_add (w a : Nat) : PermutesBelow (2 ^ w) (fun x => (x + a) % 2 ^ w) where
  maps x _ := Nat.mod_lt _ (Nat.two_pow_pos w)
  inj x y hx hy h := by
    exact (ModEq.add_right_cancel' a h).eq_of_lt_of_lt hx hy

theorem eq_zero_of_eq_shiftRight {d s : Nat} (hs : 1 ≤ s) (h : d = d >>> s) : d = 0 := by
  by_contra hne
  have hlt : d / 2 ^ s < d := Nat.div_lt_self (by omega) (Nat.one_lt_two_pow (by omega))
  omega

theorem permutes_xorShift (w s : Nat) (hs : 1 ≤ s) : PermutesBelow (2 ^ w) (fun x => x ^^^ (x >>> s)) where
  maps x hx := by
    refine Nat.xor_lt_two_pow hx (Nat.lt_of_le_of_lt ?_ hx)
    rw [Nat.shiftRight_eq_div_pow]
    exact Nat.div_le_self _ _
  inj x y _ _ h := by
    -- the difference of the two is its own shift
    have hd : (x ^^^ y) ^^^ ((x ^^^ y) >>> s) = 0 := by
      rw [Nat.shiftRight_xor_distrib]
      calc (x ^^^ y) ^^^ (x >>> s ^^^ y >>> s)
          = (x ^^^ x >>> s) ^^^ (y ^^^ y >>> s) := by
            rw [Nat.xor_assoc, Nat.xor_assoc, ← Nat.xor_assoc y, Nat.xor_comm y, Nat.xor_assoc]
        _ = 0 := by rw [h, Nat.xor_self]
    have h0 := eq_zero_of_eq_shiftRight hs (Nat.xor_eq_zero_iff.mp hd)
    exact Nat.xor_eq_zero_iff.mp h0

theorem permutes_mul (w m : Nat) (hm : w = 0 ∨ m % 2 = 1) :
    PermutesBelow (2 ^ w) (fun x => (x * m) % 2 ^ w) where
  maps x _ := Nat.mod_lt _ (Nat.two_pow_pos w)
  inj x y hx hy h := by
    rcases hm with rfl | hm
    · omega
    have hco : Nat.gcd (2 ^ w) m = 1 := by
      refine Coprime.pow_left w ?_
      rw [coprime_two_left, odd_iff]
      exact hm
    exact (ModEq.cancel_right_of_coprime hco h).eq_of_lt_of_lt hx hy

/-! ## Cycle walking -/

/-- Steps along `f` until a value below `total` is met. -/
def walk (f : Nat → Nat) (total : Nat) : Nat → Nat → Nat
  | 0, y => y
  | fuel + 1, y => if total ≤ y then walk f total fuel (f y) else y

/-- The walk stops at the first value below `total`. -/
theorem walk_eq {f : Nat → Nat} {total : Nat} :
    ∀ (fuel y k : Nat), k ≤ fuel → (∀ j < k, total ≤ f^[j] y) → f^[k] y < total →
      walk f total fuel y = f^[k] y := by
  intro fuel
  induction fuel with
  | zero =>
    intro y k hk _ _
    have hk : k = 0 := by omega
    subst hk
    rfl
  | succ fuel ih =>
    intro y k hk hbefore hlast
    unfold walk
    cases k with
    | zero =>
      have hlast : y < total := hlast
      rw [if_neg (by omega)]
      rfl
    | succ k =>
      have h0 : total ≤ y := hbefore 0 (by omega)
      rw [if_pos h0]
      refine ih (f y) k (by omega) (fun j hj => ?_) hlast
      exact hbefore (j + 1) (by omega)

section
variable {N total : Nat} {f : Nat → Nat}

/-- Every value below `N` comes back to itself within `N` steps. -/
theorem PermutesBelow.returns (hf : PermutesBelow N f) {x : Nat} (hx : x < N) :
    ∃ k, 1 ≤ k ∧ k ≤ N ∧ f^[k] x = x := by
  have hmap : ∀ k, f^[k] x < N := fun k => (hf.iterate k).maps x hx
  obtain ⟨i, j, hne, hij⟩ := Fintype.exists_ne_map_eq_of_card_lt
    (fun k : Fin (N + 1) => (⟨f^[k] x, hmap k⟩ : Fin N)) (by simp)
  have hval : f^[i] x = f^[j] x := congrArg Fin.val hij
  have key : ∀ i j : Fin (N + 1), i < j → f^[i] x = f^[j] x → ∃ k, 1 ≤ k ∧ k ≤ N ∧ f^[k] x = x := by
    intro i j hlt he
    refine ⟨j - i, by omega, by omega, ?_⟩
    refine ((hf.iterate i).inj _ _ (hmap _) hx ?_)
    rw [← Function.iterate_add_apply, show (i : Nat) + (j - i) = j by omega]
    exact he.symm
  rcases lt_or_gt_of_ne (fun e => hne (Fin.ext e)) with hlt | hlt
  · exact key i j hlt hval
  · exact key j i hlt hval.symm

/-- The first return below `total`, counted from one step on. -/
theorem PermutesBelow.first_return (hf : PermutesBelow N f) {x : Nat} (hx : x < total) (hN : total ≤ N) :
    ∃ k, k < N ∧ (∀ j < k, total ≤ f^[j + 1] x) ∧ f^[k + 1] x < total := by
  have hex : ∃ k, f^[k + 1] x < total := by
    obtain ⟨k, hk, -, he⟩ := hf.returns (lt_of_lt_of_le hx hN)
    exact ⟨k - 1, by rw [show k - 1 + 1 = k by omega, he]; exact hx⟩
  refine ⟨Nat.find hex, ?_, fun j hj => ?_, Nat.find_spec hex⟩
  · obtain ⟨k, hk, hkN, he⟩ := hf.returns (lt_of_lt_of_le hx hN)
    have hle : Nat.find hex ≤ k - 1 := Nat.find_min' hex (by rw [show k - 1 + 1 = k by omega, he]; exact hx)
    omega
  · exact Nat.le_of_not_lt (Nat.find_min hex hj)

/-- **Cycle walking** permutes the numbers below `total`, and `N` steps are enough. -/
theorem permutes_walk (hf : PermutesBelow N f) (hN : total ≤ N) {fuel : Nat} (hfuel : N ≤ fuel) :
    PermutesBelow total (fun x => walk f total fuel (f x)) := by
  have hwalk : ∀ x, x < total → ∃ k, (∀ j < k, total ≤ f^[j + 1] x) ∧ f^[k + 1] x < total ∧
      walk f total fuel (f x) = f^[k + 1] x := by
    intro x hx
    obtain ⟨k, hk, hbefore, hlast⟩ := hf.first_return hx hN
    exact ⟨k, hbefore, hlast, walk_eq fuel (f x) k (by omega) hbefore hlast⟩
  -- two starts that end together: the longer walk would have met the shorter one's start
  have hinj : ∀ x y k l, x < total → y < total → k ≤ l → (∀ j < l, total ≤ f^[j + 1] y) →
      f^[k + 1] x = f^[l + 1] y → x = y := by
    intro x y k l hx hy hkl hbefore he
    have hxN := lt_of_lt_of_le hx hN
    have hyN := lt_of_lt_of_le hy hN
    have hsplit : f^[k + 1] (f^[l - k] y) = f^[l + 1] y := by
      rw [← Function.iterate_add_apply, show k + 1 + (l - k) = l + 1 by omega]
    have hmid : x = f^[l - k] y :=
      (hf.iterate (k + 1)).inj _ _ hxN ((hf.iterate _).maps y hyN) (he.trans hsplit.symm)
    rcases Nat.eq_zero_or_pos (l - k) with h0 | h0
    · rw [h0] at hmid
      exact hmid
    have := hbefore (l - k - 1) (by omega)
    rw [show l - k - 1 + 1 = l - k by omega, ← hmid] at this
    omega
  refine ⟨fun x hx => ?_, fun x y hx hy h => ?_⟩
  · obtain ⟨k, -, hlast, he⟩ := hwalk x hx
    simp only [he]
    exact hlast
  obtain ⟨k, hbk, -, hek⟩ := hwalk x hx
  obtain ⟨l, hbl, -, hel⟩ := hwalk y hy
  simp only [hek, hel] at h
  rcases le_total k l with hkl | hkl
  · exact hinj x y k l hx hy hkl hbl h
  · exact (hinj y x l k hy hx hkl hbk h.symm).symm

end

theorem perm_map_range {α : Type} {N : Nat} {f : Nat → Nat} (hf : PermutesBelow N f) (g : Nat → α) :
    ((range N).map fun x => g (f x)).Perm ((range N).map g) := by
  have hnd : ((range N).map f).Nodup := by
    refine Nodup.map_on ?_ nodup_range
    intro x hx y hy h
    exact hf.inj x y (mem_range.mp hx) (mem_range.mp hy) h
  have hsub : (range N).map f ⊆ range N := by
    intro y hy
    obtain ⟨x, hx, rfl⟩ := mem_map.mp hy
    exact mem_range.mpr (hf.maps x (mem_range.mp hx))
  have hperm : ((range N).map f).Perm (range N) :=
    (subperm_of_subset hnd hsub).perm_of_length_le (by simp)
  have := hperm.map g
  rwa [map_map] at this

/-! ## Binary search -/

/-- The loop of a binary search between `i` and `j`. -/
def searchLoop (test : Nat → Bool) : Nat → Nat → Nat → Nat
  | 0, i, _ => i
  | fuel + 1, i, j =>
    if i < j then
      let h := (i + j) / 2
      if test h then searchLoop test fuel i h else searchLoop test fuel (h + 1) j
    else i

/-- `sort.Search`: the first index below `n` where `test` holds, or `n`. -/
def search (n : Nat) (test : Nat → Bool) : Nat := searchLoop test n 0 n

theorem searchLoop_spec (test : Nat → Bool) :
    ∀ (fuel i j : Nat), i ≤ j → j - i ≤ fuel →
      (∀ a b, i ≤ a → a ≤ b → b < j → test a = true → test b = true) →
      let r := searchLoop test fuel i j
      i ≤ r ∧ r ≤ j ∧ (∀ a, i ≤ a → a < r → test a = false) ∧ (∀ a, r ≤ a → a < j → test a = true) := by
  intro fuel
  induction fuel with
  | zero =>
    intro i j hij hf _
    have : i = j := by omega
    subst this
    exact ⟨.refl, .refl, fun a h1 h2 => by simp [searchLoop] at h2; omega,
      fun a h1 h2 => by simp [searchLoop] at h1; omega⟩
  | succ fuel ih =>
    intro i j hij hf hmono
    simp only [searchLoop]
    split
    · rename_i hlt
      split
      · rename_i htest
        obtain ⟨h1, h2, h3, h4⟩ := ih i ((i + j) / 2) (by omega) (by omega)
          (fun a b ha hab hb => hmono a b ha hab (by omega))
        refine ⟨h1, by omega, h3, fun a ha haj => ?_⟩
        by_cases hah : a < (i + j) / 2
        · exact h4 a ha hah
        · exact hmono ((i + j) / 2) a (by omega) (by omega) haj htest
      rename_i htest
      have htest : test ((i + j) / 2) = false := by simpa using htest
      obtain ⟨h1, h2, h3, h4⟩ := ih ((i + j) / 2 + 1) j (by omega) (by omega)
        (fun a b ha hab hb => hmono a b (by omega) hab hb)
      refine ⟨by omega, h2, fun a ha har => ?_, h4⟩
      by_cases hah : (i + j) / 2 < a
      · exact h3 a (by omega) har
      cases hta : test a with
      | false => rfl
      | true =>
        have := hmono a ((i + j) / 2) ha (by omega) (by omega) hta
        rw [htest] at this
        cases this
    · exact ⟨.refl, hij, fun a h1 h2 => by omega, fun a h1 h2 => by omega⟩

/-- **Binary search** over a monotone test. -/
theorem search_spec (n : Nat) (test : Nat → Bool)
    (hmono : ∀ a b, a ≤ b → b < n → test a = true → test b = true) :
    search n test ≤ n ∧ (∀ a, a < search n test → test a = false) ∧
      ∀ a, search n test ≤ a → a < n → test a = true := by
  obtain ⟨-, h2, h3, h4⟩ := searchLoop_spec test n 0 n (by omega) (by omega)
    (fun a b _ hab hb => hmono a b hab hb)
  exact ⟨h2, fun a ha => h3 a (by omega) ha, h4⟩

end Waterdisco
