import Waterdisco.Lib.Editing

/-!
# Reading an object without regard to case

A decoder that matches keys without regard to case takes the last spelling of a name.
What holds of every spelling holds of the one it takes, so a document with nothing left at
a place reads as one without it.

    NoneLeft (within name L) (obj o)  →  NoneLeft L (readNamed o name)      (noneLeft_within)
-/

namespace Waterdisco

open List

def spellings (o : Members Json) (name : String) : Members Json := o.filter fun m => sameName m.1 name

/-- The value of the last spelling of a name, null where there is none. -/
def readNamed (o : Members Json) (name : String) : Json := ((spellings o name).getLast?.map (·.2)).getD .null

theorem readNamed_of_forall {P : Json → Prop} {o : Members Json} {name : String} (hnull : P .null)
    (h : ∀ m ∈ o, sameName m.1 name = true → P m.2) : P (readNamed o name) := by
  rw [readNamed]
  cases hlast : (spellings o name).getLast? with
  | none => exact hnull
  | some m =>
    have hm := mem_filter.mp (mem_of_getLast? hlast)
    exact h m hm.1 hm.2

theorem readNamed_mem (o : Members Json) (name : String) :
    readNamed o name = .null ∨ ∃ m ∈ o, sameName m.1 name = true ∧ readNamed o name = m.2 := by
  rw [readNamed]
  cases hlast : (spellings o name).getLast? with
  | none => exact .inl rfl
  | some m =>
    have hm := mem_filter.mp (mem_of_getLast? hlast)
    exact .inr ⟨m, hm.1, hm.2, rfl⟩

/-! ## What is left at a place -/

section

variable {L : Place} {j : Json} {o : Members Json} {name : String}

theorem NoneLeft.oneOf {Ls : List Place} (h : NoneLeft (oneOf Ls) j) (hL : L ∈ Ls) : NoneLeft L j := by
  intro s path value hat
  have hnone := h s path value hat
  rw [Waterdisco.oneOf, any_eq_false] at hnone
  simpa using hnone L hL

theorem noneLeft_within (h : NoneLeft (within name L) (.obj o)) : NoneLeft L (readNamed o name) := by
  refine readNamed_of_forall (fun _ _ _ hat => nomatch hat) fun m hm hname s path value hat => ?_
  have hnone := h (.key m.1) (s :: path) value (.member hm hat)
  simpa [within, hname] using hnone

theorem noneLeft_named {test : Json → Bool} (h : NoneLeft (named name test) (.obj o)) (hnull : test .null = false) :
    test (readNamed o name) = false := by
  refine readNamed_of_forall (P := fun value => test value = false) hnull fun m hm hname => ?_
  have hnone := h (.key m.1) [] m.2 (.member hm (.here _))
  simpa [named, hname] using hnone

theorem noneLeft_anyKey {test : String → Json → Bool} (h : NoneLeft (anyKey test) (.obj o)) {m : String × Json}
    (hm : m ∈ o) : test m.1 m.2 = false :=
  h (.key m.1) [] m.2 (.member hm (.here _))

theorem NoneLeft.toObject (h : NoneLeft L j) : NoneLeft L (.obj j.toObject) := by
  cases j with
  | obj members => exact h
  | _ =>
    intro s path value hat
    cases hat with
    | member hm _ => cases hm

theorem noneLeft_eachItem {L : Json → Place} (h : NoneLeft (eachItem L) j) {x : Json} (hx : x ∈ j.toArray) :
    NoneLeft (L x) x := by
  cases j with
  | arr items => exact fun s path value hat => h (.item x) (s :: path) value (.item hx hat)
  | _ => cases hx

theorem noneLeft_itemsThat {test : Json → Bool} (h : NoneLeft (itemsThat test) j) {x : Json} (hx : x ∈ j.toArray) :
    test x = false := by
  cases j with
  | arr items => exact h (.item x) [] x (.item hx (.here _))
  | _ => cases hx

end

/-! ## What a place does not reach -/

/-- Two places that agree on a document take the same out of it. -/
theorem prune_congr {L M : Place} {j : Json}
    (h : ∀ s path value, At j (s :: path) value → L (s :: path) value = M (s :: path) value) :
    prune L j = prune M j := by
  induction j using Json.induct generalizing L M with
  | null | bool | num | double | str => rfl
  | arr items ih =>
    have hitem : ∀ x ∈ items, prunedItem L x = prunedItem M x := by
      intro x hx
      have hbelow : prune (L.after (.item x)) x = prune (M.after (.item x)) x :=
        ih x hx fun s path value hat => h (.item x) (s :: path) value (.item hx hat)
      rw [prunedItem, prunedItem, h (.item x) [] x (.item hx (.here _)), hbelow]
    rw [prune, prune, pruneItems_eq, pruneItems_eq, filterMap_congr hitem]
  | obj members ih =>
    have hmember : ∀ m ∈ members, pruned L m = pruned M m := by
      intro m hm
      have hbelow : prune (L.after (.key m.1)) m.2 = prune (M.after (.key m.1)) m.2 :=
        ih m hm fun s path value hat => h (.key m.1) (s :: path) value (.member hm hat)
      rw [pruned, pruned, h (.key m.1) [] m.2 (.member hm (.here _)), hbelow]
    rw [prune, prune, pruneMembers_eq, pruneMembers_eq, filterMap_congr hmember]

theorem valueAt_pruneMembers {L : Place} {key : String} (h : ∀ path value, L (.key key :: path) value = false)
    (o : Members Json) : valueAt (pruneMembers L o) key = valueAt o key := by
  rw [pruneMembers_eq]
  induction o with
  | nil => rfl
  | cons m o ih =>
    obtain ⟨k, value⟩ := m
    by_cases hk : k = key
    · subst hk
      have hsame : prune (L.after (.key k)) value = value := prune_empty (fun s path below => h _ _) value
      simp [pruned, h, hsame, valueAt]
    have hskip : (k == key) = false := by simpa using hk
    rw [filterMap_cons, pruned]
    split
    · rename_i hnone
      rw [ih]
      simp [valueAt, hskip]
    rename_i m' hsome
    split at hsome
    · cases hsome
    rw [← Option.some.inj hsome]
    simp only [valueAt, find?_cons, hskip]
    exact ih

theorem readNamed_pruneMembers {L M : Place} {name : String} (o : Members Json)
    (hstay : ∀ k value, sameName k name = true → L [.key k] value = false)
    (hbelow : ∀ k, sameName k name = true → L.after (.key k) = M) :
    readNamed (pruneMembers L o) name = prune M (readNamed o name) := by
  have hfilter : spellings (pruneMembers L o) name = (spellings o name).map fun m => (m.1, prune M m.2) := by
    rw [pruneMembers_eq]
    induction o with
    | nil => rfl
    | cons m o ih =>
      rw [spellings, spellings] at *
      cases hname : sameName m.1 name with
      | true =>
        have hkeep : pruned L m = some (m.1, prune M m.2) := by
          rw [pruned, hstay m.1 m.2 hname, hbelow m.1 hname]
          rfl
        rw [filterMap_cons_some hkeep, filter_cons_of_pos (by simpa using hname),
          filter_cons_of_pos (by simpa using hname), ih, map_cons]
      | false =>
        rw [filter_cons_of_neg (by simp [hname]), ← ih, filterMap_cons, pruned]
        split
        · rfl
        rename_i m' hsome
        split at hsome
        · cases hsome
        · rw [← Option.some.inj hsome, filter_cons_of_neg (by simp [hname])]
  rw [readNamed, readNamed, hfilter, getLast?_map]
  cases (spellings o name).getLast? <;> rfl

/-- A letter that is folded to another one comes before it, the long s and the Kelvin sign apart. -/
theorem foldChar_cases {c : Char} (hs : foldChar c ≠ 's') (hk : foldChar c ≠ 'k') :
    c = foldChar c ∨ c.toNat < (foldChar c).toNat := by
  have hlong : c ≠ '\u017f' := by
    rintro rfl
    exact hs rfl
  have hkelvin : c ≠ '\u212a' := by
    rintro rfl
    exact hk rfl
  have hfold : foldChar c = c.toLower := by rw [foldChar, if_neg hlong, if_neg hkelvin]
  rw [hfold]
  delta Char.toLower
  split
  · right
    rename_i hupper
    have hle : c.val.toNat ≤ 90 := hupper.2
    have hsum : (c.val + 32).toNat = c.val.toNat + 32 := by
      exact Nat.mod_eq_of_lt (by show c.val.toNat + 32 < _; omega)
    show c.val.toNat < (c.val + 32).toNat
    omega
  · exact .inl rfl

theorem not_lt_spelling {cs : List Char}
    (h : ∀ l ∈ cs.map foldChar, l ≠ 's' ∧ l ≠ 'k' ∧ l.toNat < 0x10000) :
    ¬ (cs.map foldChar).flatMap units < cs.flatMap units := by
  induction cs with
  | nil => simp
  | cons c cs ih =>
    rw [map_cons, forall_mem_cons] at h
    obtain ⟨⟨hs, hk, hsmall⟩, hrest⟩ := h
    have hcases := foldChar_cases hs hk
    have hc : c.toNat < 0x10000 := by
      rcases hcases with heq | hlt
      · rw [heq]
        exact hsmall
      · omega
    have hu : units c = [c.toNat] := if_pos hc
    have hu' : units (foldChar c) = [(foldChar c).toNat] := if_pos hsmall
    rw [map_cons, flatMap_cons, flatMap_cons, hu, hu', singleton_append, singleton_append,
      cons_lt_cons_iff]
    rintro (hlt | ⟨-, htail⟩)
    · rcases hcases with heq | hlt'
      · rw [← heq] at hlt
        omega
      · omega
    · exact ih hrest htail

/-- A name in small letters that comes after all its other spellings in the order of the keys. -/
def lastSpelling (name : String) : Bool :=
  name.toList.all fun c => foldChar c == c && c != 's' && c != 'k' && decide (c.toNat < 0x10000)

theorem not_lt_of_lastSpelling {key name : String} (h : lastSpelling name = true) (hsame : sameName key name = true) :
    ¬ utf16 name < utf16 key := by
  rw [lastSpelling, all_eq_true] at h
  have hfold : name.toList = key.toList.map foldChar := by
    have hself : name.toList.map foldChar = name.toList := by
      have hid : ∀ c ∈ name.toList, foldChar c = id c := by
        intro c hc
        have hc' := h c hc
        simp only [Bool.and_eq_true, beq_iff_eq] at hc'
        exact hc'.1.1.1
      rw [map_congr_left hid, map_id]
    rw [← hself]
    exact (sameName_iff.mp hsame).symm
  rw [utf16, utf16, hfold]
  refine not_lt_spelling fun l hl => ?_
  rw [← hfold] at hl
  have hl' := h l hl
  simp only [Bool.and_eq_true, bne_iff_ne, decide_eq_true_iff] at hl'
  exact ⟨hl'.1.1.2, hl'.1.2, hl'.2⟩

theorem readNamed_last {o : Members Json} {name : String} (hsorted : sortedKeys o) (hmem : name ∈ keysOf o)
    (hlast : lastSpelling name = true) : readNamed o name = (valueAt o name).getD .null := by
  obtain ⟨m, hm, rfl⟩ := mem_map.mp hmem
  obtain ⟨front, back, rfl⟩ := append_of_mem hm
  have hnodup := hsorted.nodup
  rw [sortedKeys, keysOf_append, keysOf_cons, pairwise_append] at hsorted
  rw [keysOf_append, keysOf_cons, nodup_append] at hnodup
  have hfront : m.1 ∉ keysOf front := fun hin => hnodup.2.2 _ hin _ (.head _) rfl
  have hback : spellings back m.1 = [] := by
    rw [spellings, filter_eq_nil_iff]
    intro b hb hname
    have hafter := (pairwise_cons.mp hsorted.2.1).1 b.1 (mem_map.mpr ⟨b, hb, rfl⟩)
    exact not_lt_of_lastSpelling hlast hname hafter
  have hvalue : valueAt (front ++ m :: back) m.1 = some m.2 := valueAt_append_cons hfront m.2 back
  rw [hvalue, readNamed, spellings, filter_append, filter_cons_of_pos (by simp)]
  rw [spellings] at hback
  rw [hback]
  simp

end Waterdisco
