import Mathlib.Data.List.Nodup

/-!
# Queues by key

`Buckets κ α` is a queue of values for every key, the shape of a hash of lists
whose lists are only appended to and taken from at the front.  `Distinct` says
that no value is queued twice, under one key or under two.  A take hands out a
value that is then queued nowhere (`takeFirst_spec`), so a run of takes never
hands out a value twice.
-/

namespace Waterdisco

open List

/-- One queue of values for every key; a key never used has the empty queue. -/
def Buckets (κ α : Type) : Type := κ → List α

namespace Buckets

variable {κ α β : Type} [DecidableEq κ]

def empty : Buckets κ α := fun _ => []

/-- Appends `x` to the queue of `k`. -/
def append (b : Buckets κ α) (k : κ) (x : α) : Buckets κ α :=
  fun k' => if k' = k then b k' ++ [x] else b k'

/-- Takes the first value of the queue of `k`. -/
def takeFirst (b : Buckets κ α) (k : κ) : Option (α × Buckets κ α) :=
  match b k with
  | [] => none
  | x :: xs => some (x, fun k' => if k' = k then xs else b k')

/-- The values of `l`, queued in order under their keys. -/
def ofList (key : β → κ) (val : β → α) (l : List β) : Buckets κ α :=
  l.foldl (fun b e => b.append (key e) (val e)) empty

/-- No value is queued twice. -/
structure Distinct (b : Buckets κ α) : Prop where
  nodup : ∀ k, (b k).Nodup
  owner : ∀ k k' x, x ∈ b k → x ∈ b k' → k = k'

theorem mem_append (b : Buckets κ α) (k k' : κ) (x y : α) :
    y ∈ b.append k x k' ↔ y ∈ b k' ∨ (k' = k ∧ y = x) := by
  unfold append
  split
  · rename_i h; simp [h]
  · rename_i h; simp [h]

variable (key : β → κ) (val : β → α) (l : List β)

theorem mem_foldl_append (b : Buckets κ α) (k : κ) (y : α) :
    y ∈ (l.foldl (fun b e => b.append (key e) (val e)) b) k ↔
      y ∈ b k ∨ ∃ e ∈ l, key e = k ∧ val e = y := by
  induction l generalizing b with
  | nil => simp
  | cons e l ih =>
    rw [foldl_cons, ih, mem_append]
    constructor
    · rintro ((h | ⟨rfl, rfl⟩) | ⟨e', he', h⟩)
      · exact .inl h
      · exact .inr ⟨e, .head _, rfl, rfl⟩
      · exact .inr ⟨e', mem_cons_of_mem _ he', h⟩
    · rintro (h | ⟨e', he', hk, hv⟩)
      · exact .inl (.inl h)
      · rcases mem_cons.mp he' with rfl | he'
        · exact .inl (.inr ⟨hk.symm, hv.symm⟩)
        · exact .inr ⟨e', he', hk, hv⟩

theorem mem_ofList (k : κ) (y : α) :
    y ∈ (ofList key val l : Buckets κ α) k ↔ ∃ e ∈ l, key e = k ∧ val e = y := by
  unfold ofList
  rw [mem_foldl_append]
  simp [empty]

theorem Distinct.append {b : Buckets κ α} (hb : Distinct b) (k : κ) (x : α)
    (hx : ∀ k', x ∉ b k') : Distinct (b.append k x) where
  nodup k' := by
    unfold Buckets.append
    split
    · refine nodup_append.mpr ⟨hb.nodup k', by simp, ?_⟩
      intro a ha c hc e
      rw [mem_singleton] at hc
      exact hx k' (by rw [← hc, ← e]; exact ha)
    · exact hb.nodup k'
  owner k₁ k₂ y h₁ h₂ := by
    rw [mem_append] at h₁ h₂
    rcases h₁ with h₁ | ⟨e₁, rfl⟩
    · rcases h₂ with h₂ | ⟨-, rfl⟩
      · exact hb.owner k₁ k₂ y h₁ h₂
      · exact absurd h₁ (hx k₁)
    rcases h₂ with h₂ | ⟨e₂, -⟩
    · exact absurd h₂ (hx k₂)
    · rw [e₁, e₂]

theorem distinct_foldl (b : Buckets κ α)
    (hb : Distinct b) (hl : (l.map val).Nodup) (hx : ∀ e ∈ l, ∀ k, val e ∉ b k) :
    Distinct (l.foldl (fun b e => b.append (key e) (val e)) b) := by
  induction l generalizing b with
  | nil => exact hb
  | cons e l ih =>
    rw [map_cons, nodup_cons] at hl
    apply ih
    · exact hb.append _ _ (hx e (.head _))
    · exact hl.2
    intro e' he' k h
    rcases (mem_append b (key e) k (val e) (val e')).mp h with h | ⟨-, h⟩
    · exact hx e' (.tail _ he') k h
    · exact hl.1 (h ▸ mem_map_of_mem he')

theorem distinct_ofList (hl : (l.map val).Nodup) :
    Distinct (ofList key val l : Buckets κ α) :=
  distinct_foldl key val l empty ⟨fun _ => nodup_nil, fun _ _ _ h => by cases h⟩ hl
    fun _ _ _ h => by cases h

/-- **One take.**  The value handed out was queued under `k`; afterwards every
other value is queued where it was and this one nowhere. -/
theorem takeFirst_spec {b b' : Buckets κ α} {k : κ} {x : α} (hb : Distinct b)
    (h : b.takeFirst k = some (x, b')) :
    x ∈ b k ∧ Distinct b' ∧ ∀ k' y, y ∈ b' k' ↔ y ∈ b k' ∧ y ≠ x := by
  unfold takeFirst at h
  cases hk : b k with
  | nil => rw [hk] at h; cases h
  | cons z zs =>
    rw [hk] at h
    obtain ⟨rfl, rfl⟩ := Prod.mk.inj (Option.some.inj h)
    have hnd := hb.nodup k
    rw [hk, nodup_cons] at hnd
    have hmem : ∀ k' y, y ∈ (if k' = k then zs else b k') ↔ y ∈ b k' ∧ y ≠ z := by
      intro k' y
      split
      · rename_i e
        rw [e, hk, mem_cons]
        constructor
        · intro hy
          exact ⟨.inr hy, fun e => hnd.1 (e ▸ hy)⟩
        · rintro ⟨hy | hy, hne⟩
          · exact absurd hy hne
          · exact hy
      · rename_i hne
        refine ⟨fun hy => ⟨hy, fun e => hne ?_⟩, fun hy => hy.1⟩
        exact hb.owner k' k y hy (by rw [hk, e]; exact (.head _))
    refine ⟨.head _, ⟨?_, ?_⟩, hmem⟩
    · intro k'
      split
      · exact hnd.2
      · exact hb.nodup k'
    · intro k₁ k₂ y h₁ h₂
      exact hb.owner k₁ k₂ y ((hmem k₁ y).mp h₁).1 ((hmem k₂ y).mp h₂).1

end Buckets

end Waterdisco
