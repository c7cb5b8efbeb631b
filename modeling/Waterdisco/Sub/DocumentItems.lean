import Waterdisco.Sub.Document

/-!
# The items of a document

A document is cut into lines, but a line that opens with a bracket runs to the bracket that closes it.

    the items, with the line breaks between them, are the text             (items_contract)
    lines, objects and arrays on lines of their own are items as they are
-/

namespace Waterdisco.Document

open List Nat Bool

/-- The items in order, with the skipped line breaks put back. -/
inductive MadeOf : List Text → Text → Prop where
  | nil : MadeOf [] []
  | skipped {items s} : MadeOf items s → MadeOf items ('\n' :: s)
  | item {items s} (item : Text) : item ≠ [] → MadeOf items s → MadeOf (item :: items) (item ++ s)

def opens (c : Char) : Bool := c == '{' || c == '['
def closes (c : Char) : Bool := c == '}' || c == ']'

/-- What may stand between the quotes of a JSON string. -/
inductive Quoted : Text → Prop where
  | nil : Quoted []
  | char {c s} : c ≠ '"' → c ≠ '\\' → Quoted s → Quoted (c :: s)
  | escape {c s} : Quoted s → Quoted ('\\' :: c :: s)

/-- What may stand between the brackets of a JSON object or array: strings, objects and arrays, and anything else but
quotes and brackets. -/
inductive Inside : Text → Prop where
  | nil : Inside []
  | char {c s} : c ≠ '"' → opens c = false → closes c = false → Inside s → Inside (c :: s)
  | string {q s} : Quoted q → Inside s → Inside ('"' :: q ++ '"' :: s)
  | nested {o t c s} : opens o = true → Inside t → closes c = true → Inside s → Inside (o :: t ++ c :: s)

/-- A line, or a JSON object or array. -/
inductive IsItem : Text → Prop where
  | line {s} : s ≠ [] → '\n' ∉ s → s.head?.all (fun c => !opens c) = true → IsItem s
  | block {o t c} : opens o = true → Inside t → closes c = true → IsItem (o :: t ++ [c])

/-- Items joined by one or more line breaks. -/
inductive Joined : List Text → Text → Prop where
  | nil : Joined [] []
  | one (item) : Joined [item] item
  | cons {items s} (item) (more : Nat) : Joined items s → Joined (item :: items) (item ++
      '\n' :: replicate more '\n' ++ s)

/-! ## Rounds of the loop -/

theorem itemsLoop_nil (fuel : Nat) : itemsLoop fuel [] = [] := by
  cases fuel <;> rfl

theorem itemsLoop_enough {fuel fuel' : Nat} {s : Text} (h : s.length ≤ fuel) (h' : s.length ≤ fuel') :
    itemsLoop fuel s = itemsLoop fuel' s := by
  induction fuel generalizing fuel' s with
  | zero =>
    cases s with
    | nil => rw [itemsLoop_nil, itemsLoop_nil]
    | cons => simp at h
  | succ fuel ih =>
    cases s with
    | nil => rw [itemsLoop_nil, itemsLoop_nil]
    | cons c rest =>
      cases fuel' with
      | zero => simp at h'
      | succ fuel' =>
        rw [length_cons] at h h'
        have hshort (n : Nat) : itemsLoop fuel ((c :: rest).drop (n + 1)) = itemsLoop fuel' ((c :: rest).drop (n + 1)) :=
          ih (by rw [length_drop, length_cons]; omega) (by rw [length_drop, length_cons]; omega)
        unfold itemsLoop
        split
        · exact hshort 0
        split
        · rw [hshort]
        · dsimp only
          rw [hshort]

theorem forEachItem_break (s : Text) : forEachItem ('\n' :: s) = forEachItem s := rfl

theorem forEachItem_block {c : Char} {rest : Text} {last : Nat} (hc : opens c = true)
    (h : matchingClose (c :: rest) = some last) :
    forEachItem (c :: rest) = (c :: rest).take (last + 1) :: forEachItem ((c :: rest).drop (last + 1)) := by
  have hne : (c == '\n') = false := by
    rcases Bool.or_eq_true .. ▸ hc with h | h <;> rw [eq_of_beq h] <;> rfl
  rw [forEachItem, length_cons, itemsLoop, hne]
  unfold opens at hc
  rw [if_neg Bool.false_ne_true, hc, if_pos rfl, h]
  exact congrArg _ (itemsLoop_enough (by rw [List.length_drop, length_cons]; omega) (.refl))

theorem forEachItem_line {c : Char} {rest : Text} (hc : c ≠ '\n')
    (h : (if opens c then matchingClose (c :: rest) else none) = none) :
    forEachItem (c :: rest) =
      (c :: rest).takeWhile (· != '\n') :: forEachItem
      ((c :: rest).drop (((c :: rest).takeWhile (· != '\n')).length + 1)) := by
  rw [forEachItem, length_cons, itemsLoop, if_neg (by simpa using hc)]
  unfold opens at h
  rw [h]
  exact congrArg _ (itemsLoop_enough (by rw [length_drop, length_cons]; omega) (.refl))

/-! ## The text is made of its items -/

/-- The first line, with the line break behind it where there is one. -/
theorem line_cut (s : Text) :
    s = s.takeWhile (· != '\n') ∧ s.drop ((s.takeWhile (· != '\n')).length + 1) = [] ∨
      s = s.takeWhile (· != '\n') ++ '\n' :: s.drop ((s.takeWhile (· != '\n')).length + 1) := by
  induction s with
  | nil => exact .inl ⟨rfl, rfl⟩
  | cons c s ih =>
    by_cases hbreak : c = '\n'
    · exact .inr (by simp [hbreak])
    · rcases ih with ⟨hline, hend⟩ | hcut
      · exact .inl (by simp [hbreak, ← hline])
      · exact .inr (by simp [hbreak, ← hcut])

theorem forEachItem_madeOf (s : Text) : MadeOf (forEachItem s) s := by
  induction hsize : s.length using Nat.strongRecOn generalizing s with
  | ind n ih =>
    subst hsize
    cases s with
    | nil => exact .nil
    | cons c rest =>
      have hrest (k : Nat) : MadeOf (forEachItem ((c :: rest).drop (k + 1))) ((c :: rest).drop (k + 1)) :=
        ih _ (by rw [length_drop, length_cons]; omega) _ rfl
      by_cases hbreak : c = '\n'
      · rw [hbreak]
        exact .skipped (hrest 0)
      cases hblock : (if opens c then matchingClose (c :: rest) else none) with
      | some last =>
        have hc : opens c = true := by
          by_contra hc
          rw [if_neg hc] at hblock
          cases hblock
        rw [if_pos hc] at hblock
        rw [forEachItem_block hc hblock]
        have hmade := MadeOf.item ((c :: rest).take (last + 1)) (by simp) (hrest last)
        rwa [take_append_drop] at hmade
      | none =>
        rw [forEachItem_line hbreak hblock]
        have hne : (c :: rest).takeWhile (· != '\n') ≠ [] := by simp [hbreak]
        have hmore := hrest ((c :: rest).takeWhile (· != '\n')).length
        rcases line_cut (c :: rest) with ⟨hline, hend⟩ | hcut
        · rw [hend] at hmore ⊢
          have hmade := MadeOf.item _ hne hmore
          rw [append_nil] at hmade
          exact hline ▸ hmade
        · have hmade := MadeOf.item _ hne (.skipped hmore)
          rwa [← hcut] at hmade

/-! ## Brackets -/

theorem opens_ne {c : Char} (h : opens c = true) : (c == '"') = false ∧ (c == '\n') = false := by
  rcases or_eq_true .. ▸ h with h | h <;> rw [eq_of_beq h] <;> exact ⟨rfl, rfl⟩

theorem closes_ne {c : Char} (h : closes c = true) : (c == '"') = false ∧ opens c = false := by
  rcases or_eq_true .. ▸ h with h | h <;> rw [eq_of_beq h] <;> exact ⟨rfl, rfl⟩

variable {depth i j : Nat} {rest : Text}

theorem loop_quoted {q : Text} (h : Quoted q) (hj : i + q.length + 1 = j) :
    matchingCloseLoop depth true false i (q ++ '"' :: rest) = matchingCloseLoop depth false false j rest := by
  induction h generalizing i with
  | nil =>
    subst hj
    rfl
  | @char c s hquote hescape _ ih =>
    rw [length_cons] at hj
    have hc : (c != '"') = true := bne_iff_ne.mpr hquote
    refine Eq.trans ?_ (ih (i := i + 1) (by omega))
    rw [cons_append, matchingCloseLoop, hc]
    simp [hescape]
  | escape _ ih =>
    rw [length_cons, length_cons] at hj
    exact ih (i := i + 1 + 1) (by omega)

theorem loop_opens {o : Char} (h : opens o = true) :
    matchingCloseLoop depth false false i (o :: rest) = matchingCloseLoop (depth + 1) false false (i + 1) rest := by
  have hquote := (opens_ne h).1
  unfold opens at h
  rw [matchingCloseLoop, hquote, h]
  rfl

theorem loop_closes {c : Char} (h : closes c = true) :
    matchingCloseLoop (depth + 1) false false i (c :: rest) =
      if depth == 0 then some i else matchingCloseLoop depth false false (i + 1) rest := by
  obtain ⟨hquote, hnest⟩ := closes_ne h
  unfold opens at hnest
  unfold closes at h
  rw [matchingCloseLoop, hquote, hnest, h]
  rfl

theorem loop_inside {s : Text} (h : Inside s) (hdepth : 0 < depth) (hj : i + s.length = j) :
    matchingCloseLoop depth false false i (s ++ rest) = matchingCloseLoop depth false false j rest := by
  induction h generalizing depth i j rest with
  | nil =>
    subst hj
    rfl
  | char hquote hopen hclose _ ih =>
    rw [length_cons] at hj
    refine Eq.trans ?_ (ih (i := i + 1) hdepth (by omega))
    unfold opens at hopen
    unfold closes at hclose
    simp [matchingCloseLoop, hquote, hopen, hclose]
  | @string q s hq _ ih =>
    rw [length_append, length_cons, length_cons] at hj
    rw [append_assoc, cons_append]
    exact (loop_quoted hq rfl).trans (ih (i := i + 1 + q.length + 1) hdepth (by omega))
  | @nested o t c s ho _ hc _ iht ihs =>
    rw [length_append, length_cons, length_cons] at hj
    rw [append_assoc, cons_append, loop_opens ho, iht (succ_pos _) rfl, cons_append, loop_closes hc,
      if_neg (by simpa using ne_of_gt hdepth)]
    exact ihs hdepth (by omega)

/-- The bracket that closes an object or array is its last character. -/
theorem matchingClose_block {o c : Char} {t : Text} (ho : opens o = true) (h : Inside t) (hc : closes c = true) :
    matchingClose (o :: t ++ c :: rest) = some (t.length + 1) := by
  rw [matchingClose, cons_append, loop_opens ho, loop_inside h (Nat.succ_pos _) rfl, loop_closes hc,
    Nat.zero_add, Nat.add_comm]
  rfl

/-! ## Items come back -/

theorem forEachItem_item {item : Text} (h : IsItem item) (hrest : rest = [] ∨ ∃ s, rest = '\n' :: s) :
    forEachItem (item ++ rest) = item :: forEachItem rest := by
  cases h with
  | line hne hline hfirst =>
    obtain ⟨c, line, rfl⟩ := exists_cons_of_ne_nil hne
    have hc : opens c = false := by simpa using hfirst
    have htake : (c :: line ++ rest).takeWhile (· != '\n') = c :: line := by
      rw [takeWhile_append_of_pos fun d hd => bne_iff_ne.mpr fun hbreak : d = '\n' => hline (hbreak ▸ hd)]
      rcases hrest with rfl | ⟨s, rfl⟩ <;> simp
    rw [cons_append] at htake ⊢
    rw [forEachItem_line (fun hbreak => hline (hbreak ▸ (.head _))) (if_neg (by simp [hc])), htake, ← cons_append,
      ← drop_drop, drop_left]
    rcases hrest with rfl | ⟨s, rfl⟩ <;> rfl
  | @block o t c ho ht hc =>
    have hlast := @matchingClose_block rest o c t ho ht hc
    have hsplit : o :: t ++ c :: rest = (o :: t ++ [c]) ++ rest := by simp
    rw [hsplit] at hlast
    have hsize : t.length + 1 + 1 = (o :: t ++ [c]).length := by simp
    refine (@forEachItem_block o (t ++ [c] ++ rest) _ ho hlast).trans ?_
    show (o :: t ++ [c] ++ rest).take _ :: forEachItem ((o :: t ++ [c] ++ rest).drop _) = _
    rw [hsize, take_left, drop_left]

theorem forEachItem_breaks (more : Nat) (s : Text) : forEachItem (replicate more '\n' ++ s) = forEachItem s := by
  induction more with
  | zero => rfl
  | succ more ih => exact ih

theorem Joined.forEachItem {items : List Text} {s : Text} (h : Joined items s) (hitems : ∀ item ∈ items, IsItem item) :
    forEachItem s = items := by
  induction h with
  | nil => rfl
  | one item =>
    have := forEachItem_item (hitems item (.head _)) (.inl rfl)
    rwa [append_nil] at this
  | cons item more _ ih =>
    rw [append_assoc, cons_append, forEachItem_item (hitems item (.head _)) (.inr ⟨_, rfl⟩), forEachItem_break,
      forEachItem_breaks, ih fun i hi => hitems i (.tail _ hi)]

/-- **Items of a text.** -/
theorem items_contract :
    (∀ s : Text, (∀ fuel, s.length ≤ fuel → itemsLoop fuel s = forEachItem s) ∧ MadeOf (forEachItem s) s) ∧
      ∀ (items : List Text) (s : Text), (∀ item ∈ items, IsItem item) → Joined items s → forEachItem s = items :=
  ⟨fun s => ⟨fun _ h => itemsLoop_enough h (.refl), forEachItem_madeOf s⟩, fun _ _ hitems h => h.forEachItem hitems⟩

/-- A JSON object over two lines, blank lines, and a link. -/
theorem items_contract_two :
    forEachItem "\x7b\n1\x7d\n\n\nss://x".toList = ["\x7b\n1\x7d".toList, "ss://x".toList] := by
  refine items_contract.2 _ _ (forall_mem_cons.mpr ⟨?_, forall_mem_singleton.mpr ?_⟩) (.cons _ 2 (.one _))
  · exact .block (t := ['\n', '1']) (by decide) (.char (by decide) (by decide) (by decide)
      (.char (by decide) (by decide) (by decide) .nil)) (by decide)
  · exact .line (by decide) (by decide) (by decide)

end Waterdisco.Document
