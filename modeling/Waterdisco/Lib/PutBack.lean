import Mathlib.Data.List.InsertIdx

/-!
# Elements put back at their places

The elements of a kind are cut out of a list with their indexes and put back into a list
of another length, each at its index or at the end.

    what was there keeps its order, and so does what is put back    (filter_putBack_not, filter_putBack)
    a list put back into its own rest is the list                   (putBack_cutOut)
-/

namespace Waterdisco

open List Nat

variable {α : Type} (p : α → Bool)

/-- The elements of the kind, with their indexes. -/
def cutOut (l : List α) : List (α × Nat) := l.zipIdx.filter (fun x => p x.1)

def putBack (base : List α) (pieces : List (α × Nat)) : List α :=
  pieces.foldl (fun l x => l.insertIdx (min x.2 l.length) x.1) base

/-- Indexes that go up. -/
def Rising (pieces : List (α × Nat)) : Prop := pieces.Pairwise (fun x y => x.2 < y.2)

def lower (pieces : List (α × Nat)) : List (α × Nat) := pieces.map (fun x => (x.1, x.2 - 1))

variable {p}

theorem cutOut_cons (a : α) (l : List α) :
    cutOut p (a :: l) = (if p a then [(a, 0)] else []) ++ (cutOut p l).map (fun x => (x.1, x.2 + 1)) := by
  have hshift : (l.zipIdx 1).filter (fun x => p x.1) = (cutOut p l).map (fun x => (x.1, x.2 + 1)) := by
    rw [cutOut, List.zipIdx_succ, List.filter_map]
    rfl
  rw [cutOut, List.zipIdx_cons, List.filter_cons, Nat.zero_add, hshift]
  by_cases ha : p a = true <;> simp [ha]

variable {pieces : List (α × Nat)} {q : α → Bool} (l : List α)

theorem rising_cutOut : Rising (cutOut p l) := by
  induction l with
  | nil => exact Pairwise.nil
  | cons a l ih =>
    have hup : Rising ((cutOut p l).map (fun x => (x.1, x.2 + 1))) :=
      pairwise_map.mpr (ih.imp (fun hlt => succ_lt_succ hlt))
    rw [cutOut_cons]
    by_cases ha : p a = true
    · rw [if_pos ha]
      refine pairwise_cons.mpr ⟨fun x hx => ?_, hup⟩
      obtain ⟨y, -, rfl⟩ := mem_map.mp hx
      exact succ_pos _
    · rw [if_neg ha]
      exact hup

theorem cutOut_map_fst : (cutOut p l).map (·.1) = l.filter p := by
  induction l with
  | nil => rfl
  | cons a l ih =>
    have hmap : ((cutOut p l).map (fun x => (x.1, x.2 + 1))).map (·.1) = (cutOut p l).map (·.1) := by
      rw [map_map]
      rfl
    rw [cutOut_cons, map_append, hmap, ih, filter_cons]
    by_cases ha : p a = true <;> simp [ha]

theorem mem_cutOut {l : List α} {x : α × Nat} (h : x ∈ cutOut p l) : p x.1 = true := (mem_filter.mp h).2

/-! ## One element -/

theorem putBack_cons_base {b : α} (h : ∀ x ∈ pieces, 0 < x.2) (base : List α) :
    putBack (b :: base) pieces = b :: putBack base (lower pieces) := by
  induction pieces generalizing base with
  | nil => rfl
  | cons x rest ih =>
    obtain ⟨e, i⟩ := x
    have hi : 0 < i := h (e, i) mem_cons_self
    obtain ⟨j, rfl⟩ := Nat.exists_eq_succ_of_ne_zero (Nat.pos_iff_ne_zero.mp hi)
    have hmin : min (j + 1) (b :: base).length = min j base.length + 1 := by
      rw [length_cons]
      omega
    show putBack ((b :: base).insertIdx (min (j + 1) (b :: base).length) e) rest = _
    rw [hmin, insertIdx_succ_cons, ih (fun x hx => h x (.tail _ hx))]
    rfl

/-- The first piece goes in front where its index is 0 or nothing else is left. -/
theorem putBack_cons_piece {e : α} {i : Nat} {rest : List (α × Nat)} (h : Rising ((e, i) :: rest)) {base : List α}
    (hfront : i = 0 ∨ base = []) : putBack base ((e, i) :: rest) = e :: putBack base (lower rest) := by
  have hpos : ∀ x ∈ rest, 0 < x.2 := fun x hx => Nat.lt_of_le_of_lt (Nat.zero_le i) ((List.pairwise_cons.mp h).1 x hx)
  have hmin : min i base.length = 0 := by
    obtain rfl | rfl := hfront
    · exact Nat.zero_min _
    · exact Nat.min_zero _
  show putBack (base.insertIdx (min i base.length) e) rest = _
  rw [hmin, insertIdx_zero, putBack_cons_base hpos]

theorem Rising.lower (h : Rising pieces) (hpos : ∀ x ∈ pieces, 0 < x.2) : Rising (lower pieces) := by
  refine pairwise_map.mpr (Pairwise.imp_of_mem (fun hx hy hlt => ?_) h)
  have := hpos _ hx
  have := hpos _ hy
  dsimp only
  omega

theorem lower_map_fst (pieces : List (α × Nat)) : (lower pieces).map (·.1) = pieces.map (·.1) := by
  rw [lower, map_map]
  rfl

/-! ## The whole list -/

theorem filter_insertIdx {a : α} (ha : q a = false) (l : List α) (i : Nat) :
    (l.insertIdx i a).filter q = l.filter q := by
  induction l generalizing i with
  | nil => cases i <;> simp [ha]
  | cons b l ih =>
    cases i with
    | zero => simp [ha]
    | succ i => simp [filter_cons, ih]

/-- What was there is there, in its order. -/
theorem filter_putBack_not (h : ∀ x ∈ pieces, q x.1 = false) (base : List α) :
    (putBack base pieces).filter q = base.filter q := by
  induction pieces generalizing base with
  | nil => rfl
  | cons x rest ih =>
    show (putBack (base.insertIdx _ x.1) rest).filter q = _
    rw [ih (fun y hy => h y (.tail _ hy)), filter_insertIdx (h x (.head _))]

theorem filter_putBack (hrising : Rising pieces) {base : List α}
    (hpieces : ∀ x ∈ pieces, q x.1 = true) (hbase : ∀ b ∈ base, q b = false) :
    (putBack base pieces).filter q = pieces.map (·.1) := by
  induction hlength : base.length + pieces.length generalizing base pieces with
  | zero =>
    have hb : base = [] := length_eq_zero_iff.mp (by omega)
    have hp : pieces = [] := length_eq_zero_iff.mp (by omega)
    rw [hb, hp]
    rfl
  | succ n ih =>
    have hlowerKind : ∀ {rest : List (α × Nat)}, (∀ x ∈ rest, q x.1 = true) → ∀ x ∈ lower rest, q x.1 = true := by
      intro rest hrest x hx
      obtain ⟨y, hy, rfl⟩ := mem_map.mp hx
      exact hrest y hy
    have hlowerLength : ∀ rest : List (α × Nat), (lower rest).length = rest.length := fun rest => length_map _
    -- a piece comes first, or an element of the base does
    by_cases hfront : ∃ e i rest, pieces = (e, i) :: rest ∧ (i = 0 ∨ base = [])
    · obtain ⟨e, i, rest, rfl, hi⟩ := hfront
      have hpos : ∀ x ∈ rest, 0 < x.2 := fun x hx =>
        Nat.lt_of_le_of_lt (Nat.zero_le i) ((List.pairwise_cons.mp hrising).1 x hx)
      have hrest : ∀ x ∈ rest, q x.1 = true := fun x hx => hpieces x (.tail _ hx)
      rw [length_cons] at hlength
      rw [putBack_cons_piece hrising hi, filter_cons_of_pos (hpieces _ (.head _)),
        ih (Rising.lower (pairwise_cons.mp hrising).2 hpos) (hlowerKind hrest) hbase (by rw [hlowerLength]; omega), lower_map_fst]
      rfl
    cases base with
    | nil =>
      cases pieces with
      | nil => rfl
      | cons x rest => exact absurd ⟨x.1, x.2, rest, rfl, .inr rfl⟩ hfront
    | cons b base =>
      have hpos : ∀ x ∈ pieces, 0 < x.2 := by
        intro x hx
        cases pieces with
        | nil => cases hx
        | cons y rest =>
          have hy : 0 < y.2 := Nat.pos_of_ne_zero (fun hzero => hfront ⟨y.1, y.2, rest, rfl, .inl hzero⟩)
          obtain rfl | hx := mem_cons.mp hx
          · exact hy
          · exact Nat.lt_trans hy ((List.pairwise_cons.mp hrising).1 x hx)
      rw [length_cons] at hlength
      rw [putBack_cons_base hpos, filter_cons_of_neg (by simp [hbase b mem_cons_self]),
        ih (hrising.lower hpos) (hlowerKind hpieces) (fun c hc => hbase c (.tail _ hc))
          (by rw [hlowerLength]; omega), lower_map_fst]

theorem putBack_cutOut : putBack (l.filter (fun a => !p a)) (cutOut p l) = l := by
  induction l with
  | nil => rfl
  | cons a l ih =>
    have hlower : lower ((cutOut p l).map (fun x => (x.1, x.2 + 1))) = cutOut p l := by
      rw [lower, map_map]
      exact map_id _
    have hpos : ∀ x ∈ (cutOut p l).map (fun x => (x.1, x.2 + 1)), 0 < x.2 := by
      intro x hx
      obtain ⟨y, -, rfl⟩ := mem_map.mp hx
      exact succ_pos _
    have hrising := rising_cutOut (p := p) (a :: l)
    rw [cutOut_cons] at hrising ⊢
    by_cases ha : p a = true
    · rw [if_pos ha, singleton_append] at hrising ⊢
      rw [filter_cons_of_neg (by simp [ha]), putBack_cons_piece hrising (.inl rfl), hlower, ih]
    · rw [if_neg ha, nil_append, filter_cons_of_pos (by simp [ha]), putBack_cons_base hpos, hlower, ih]

end Waterdisco
