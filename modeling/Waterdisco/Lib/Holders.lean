import Mathlib.Data.List.DropRight
import Waterdisco.Lib.Reading

/-!
# Objects that a decoder merges

A decoder that matches keys without regard to case, and takes several objects one after the
other for one, sees for each name the values of all its spellings, in order (`values`).  A
place is the index of an object and a key in it; a program that edits such objects takes
places out and puts values in.

    values hs name = the values at the places of the name           (values_eq)
    removing places of a name keeps the values of any other          (values_removeAll_other)
-/

namespace Waterdisco

open List Prod Nat Option

/-! ## Putting a key into an object -/

section

variable {V : Type*}

/-- A key that is there keeps its place, a new one goes where the order of keys wants it. -/
def insertKey (o : Members V) (key : String) (value : V) : Members V :=
  if key ∈ keysOf o then replaceKey o key value
  else o.takeWhile (fun m => decide (utf16 m.1 < utf16 key)) ++
    (key, value) :: o.dropWhile (fun m => decide (utf16 m.1 < utf16 key))

variable {key : String} (o : Members V)

theorem keysOf_replaceKey (key : String) (value : V) : keysOf (replaceKey o key value) = keysOf o := by
  rw [keysOf, replaceKey, List.map_map]
  refine List.map_congr_left fun m _ => ?_
  show (if (m.1 == key) = true then (key, value) else m).1 = m.1
  split
  · rename_i h
    exact (beq_iff_eq.mp h).symm
  · rfl

theorem valueAt_replaceKey {o : Members V} (h : key ∈ keysOf o) (value : V) (other : String) :
    valueAt (replaceKey o key value) other = if other = key then some value else valueAt o other := by
  induction o with
  | nil => cases h
  | cons m o ih =>
    rw [replaceKey, map_cons, valueAt, find?_cons]
    by_cases hm : m.1 = key
    · rw [if_pos (by simpa using hm)]
      by_cases hother : other = key
      · simp [hother]
      have hne : (key == other) = false := beq_false_of_ne (Ne.symm hother)
      have hne' : (m.1 == other) = false := by rw [hm, hne]
      rw [if_neg hother, hne, valueAt, find?_cons, hne']
      by_cases hin : key ∈ keysOf o
      · have hrest := ih hin
        rwa [if_neg hother, replaceKey, valueAt, valueAt] at hrest
      have hsame := replaceKey_of_notMem hin value
      rw [replaceKey] at hsame
      rw [hsame]
    have hin : key ∈ keysOf o := (mem_cons.mp h).resolve_left (Ne.symm hm)
    rw [if_neg (by simpa using hm), valueAt, find?_cons]
    cases hother : m.1 == other with
    | true =>
      have hne : other ≠ key := by
        rintro rfl
        exact hm (beq_iff_eq.mp hother)
      rw [if_neg hne]
    | false =>
      have hrest := ih hin
      rwa [replaceKey, valueAt, valueAt] at hrest

theorem valueAt_removeKey (key other : String) :
    valueAt (removeKey o key) other = if other = key then none else valueAt o other := by
  rw [valueAt, removeKey, find?_filter]
  by_cases h : other = key
  · rw [if_pos h]
    have hnone : o.find? (fun m => decide ((m.1 != key) = true ∧ (m.1 == other) = true)) = none := by
      rw [find?_eq_none]
      intro m _
      simp [h]
    rw [hnone]
    rfl
  · rw [if_neg h, valueAt]
    congr 1
    congr 1
    funext m
    by_cases hm : m.1 = other
    · simp [hm, h]
    · simp [hm]

theorem keysOf_removeKey (key : String) : keysOf (removeKey o key) = (keysOf o).filter (· != key) := by
  rw [keysOf, keysOf, removeKey, List.filter_map]
  rfl

theorem valueAt_eq_none {o : Members V} : valueAt o key = none ↔ key ∉ keysOf o := by
  rw [valueAt, map_eq_none_iff, find?_eq_none]
  constructor
  · intro h hmem
    obtain ⟨m, hm, rfl⟩ := mem_map.mp hmem
    exact h m hm (by simp)
  · intro h m hm heq
    exact h (mem_map.mpr ⟨m, hm, beq_iff_eq.mp heq⟩)

/-- Only the key itself has another value. -/
theorem valueAt_insertKey (key : String) (value : V) (other : String) :
    valueAt (insertKey o key value) other = if other = key then some value else valueAt o other := by
  rw [insertKey]
  split
  · rename_i h
    exact valueAt_replaceKey h value other
  rename_i h
  have hleft : key ∉ keysOf (o.takeWhile fun m => decide (utf16 m.1 < utf16 key)) :=
    fun hin => h (map_subset _ (takeWhile_subset _) hin)
  by_cases hother : other = key
  · rw [if_pos hother, hother]
    exact valueAt_append_cons hleft value _
  have hne : (key == other) = false := beq_false_of_ne (Ne.symm hother)
  rw [if_neg hother, valueAt, valueAt, find?_append, find?_cons, hne]
  conv_rhs => rw [← takeWhile_append_dropWhile (p := fun m => decide (utf16 m.1 < utf16 key)) (l := o), find?_append]

theorem keysNamed_insertKey_other {name : String} (h : sameName key name = false) (o : Members V) (value : V) :
    keysNamed (insertKey o key value) name = keysNamed o name := by
  rw [insertKey]
  split
  · rw [keysNamed, keysOf_replaceKey]
    rfl
  · rw [keysNamed, keysNamed, keysOf_append, keysOf_cons, filter_append, filter_cons_of_neg (by simp [h]),
      ← filter_append, ← keysOf_append, takeWhile_append_dropWhile]

theorem keysNamed_insertKey_first {name : String} (h : sameName key name = true) {o : Members V}
    (hnone : keysNamed o name = []) (value : V) : keysNamed (insertKey o key value) name = [key] := by
  have hfresh : key ∉ keysOf o := by
    intro hin
    have hmem : key ∈ keysNamed o name := mem_filter.mpr ⟨hin, h⟩
    rw [hnone] at hmem
    cases hmem
  have hall : ∀ l : Members V, (∀ m ∈ l, m ∈ o) → (keysOf l).filter (sameName · name) = [] := by
    intro l hl
    rw [filter_eq_nil_iff]
    intro k hk hname
    have hmem : k ∈ keysNamed o name := mem_filter.mpr ⟨map_subset _ hl hk, hname⟩
    rw [hnone] at hmem
    cases hmem
  rw [insertKey, if_neg hfresh, keysNamed, keysOf_append, keysOf_cons, filter_append,
    filter_cons, if_pos (show sameName (key, value).1 name = true from h),
    hall _ (takeWhile_subset _), hall _ (dropWhile_subset _)]
  rfl

end

/-! ## Places -/

section

variable {V : Type*}

/-- The places of a name, with the objects counted from `n`. -/
def placesFrom (n : Nat) (hs : List (Members V)) (name : String) : List (Nat × String) :=
  (hs.zipIdx n).flatMap fun h => (keysNamed h.1 name).map fun key => (h.2, key)

/-- All places of a name, in order. -/
def placesNamed (hs : List (Members V)) (name : String) : List (Nat × String) := placesFrom 0 hs name

/-- What is at a place. -/
def valueIn (hs : List (Members V)) (place : Nat × String) : Option V := hs[place.1]?.bind fun o => valueAt o place.2

/-- Without the place. -/
def removeIn (hs : List (Members V)) (place : Nat × String) : List (Members V) :=
  hs.modify place.1 fun o => removeKey o place.2

/-- With this value at the place. -/
def insertIn (hs : List (Members V)) (place : Nat × String) (value : V) : List (Members V) :=
  hs.modify place.1 fun o => insertKey o place.2 value

/-- What a decoder sees for a name: the values of all its spellings, in order. -/
def values (hs : List (Members V)) (name : String) : List V :=
  hs.flatMap fun o => (o.filter fun m => sameName m.1 name).map snd

/-- Every object has each key once. -/
def DistinctKeys (hs : List (Members V)) : Prop := ∀ o ∈ hs, (keysOf o).Nodup

variable {o : Members V} {name : String} {f : Members V → Members V} {p : Nat × String} (n : Nat)

theorem placesFrom_cons (o : Members V) (hs : List (Members V)) (name : String) :
    placesFrom n (o :: hs) name = (keysNamed o name).map (fun key => (n, key)) ++ placesFrom (n + 1) hs name := by
  rw [placesFrom, zipIdx_cons, flatMap_cons]
  rfl

variable {hs : List (Members V)}

theorem le_of_mem_placesFrom {n : Nat} {place : Nat × String}
    (h : place ∈ placesFrom n hs name) : n ≤ place.1 ∧ place.1 < n + hs.length ∧ sameName place.2 name = true := by
  induction hs generalizing n with
  | nil => cases h
  | cons o hs ih =>
    rw [placesFrom_cons] at h
    rcases mem_append.mp h with h | h
    · obtain ⟨key, hkey, rfl⟩ := mem_map.mp h
      exact ⟨le_refl n, by simp, (mem_filter.mp hkey).2⟩
    obtain ⟨hle, hlt, hname⟩ := ih h
    rw [length_cons]
    exact ⟨by omega, by omega, hname⟩

theorem values_keyed (h : (keysOf o).Nodup) (name : String) :
    (o.filter fun m => sameName m.1 name).map snd = (keysNamed o name).filterMap (valueAt o) := by
  have hkeys : keysNamed o name = (o.filter fun m => sameName m.1 name).map fst := by
    rw [keysNamed, keysOf, List.filter_map]
    rfl
  rw [hkeys, filterMap_map, ← filterMap_eq_map]
  refine filterMap_congr fun m hm => ?_
  exact (valueAt_of_mem h (mem_filter.mp hm).1).symm

theorem values_eq_from (h : DistinctKeys hs) (n : Nat) (before : List (Members V))
    (hn : before.length = n) (name : String) :
    values hs name = (placesFrom n hs name).filterMap (valueIn (before ++ hs)) := by
  induction hs generalizing n before with
  | nil => rfl
  | cons o hs ih =>
    have hrest := ih (fun o' ho' => h o' (mem_cons_of_mem o ho')) (n + 1) (before ++ [o]) (by simp [hn])
    rw [append_assoc, singleton_append] at hrest
    have hhere : ∀ key, valueIn (before ++ o :: hs) (n, key) = valueAt o key := by
      intro key
      rw [valueIn, ← hn]
      simp
    rw [placesFrom_cons, filterMap_append, ← hrest, values, flatMap_cons, values_keyed (h o (.head _)),
      filterMap_map]
    congr 1
    exact filterMap_congr fun key _ => (hhere key).symm

/-- The values of a name stand at its places. -/
theorem values_eq (h : DistinctKeys hs) (name : String) :
    values hs name = (placesNamed hs name).filterMap (valueIn hs) := values_eq_from h 0 [] rfl name

theorem placesFrom_nodup (h : DistinctKeys hs) (n : Nat) (name : String) :
    (placesFrom n hs name).Nodup := by
  induction hs generalizing n with
  | nil => exact nodup_nil
  | cons o hs ih =>
    rw [placesFrom_cons, nodup_append]
    refine ⟨?_, ih (fun o' ho' => h o' (mem_cons_of_mem o ho')) (n + 1), ?_⟩
    · refine Nodup.map (fun a b hab => (mk.inj hab).2) ?_
      exact (h o (.head _)).filter _
    intro a ha b hb hab
    obtain ⟨key, -, rfl⟩ := mem_map.mp ha
    have hle := (le_of_mem_placesFrom hb).1
    rw [← hab] at hle
    exact not_succ_le_self n hle

/-! ### Taking out and putting in -/

theorem placesFrom_modify {key : String} (i : Nat) (hs : List (Members V))
    (hf : ∀ o, keysNamed (f o) name = (keysNamed o name).filter (· != key)) :
    placesFrom n (hs.modify i f) name = (placesFrom n hs name).filter (· != (n + i, key)) := by
  have hother : ∀ (o : Members V) (a b : Nat), a ≠ b →
      ((keysNamed o name).map fun k => (a, k)).filter (· != (b, key)) = (keysNamed o name).map fun k => (a, k) := by
    intro o a b hab
    rw [filter_eq_self]
    intro q hq
    obtain ⟨k, -, rfl⟩ := mem_map.mp hq
    simp [hab]
  have hlater : ∀ (os : List (Members V)) (a b : Nat), b < a →
      (placesFrom a os name).filter (· != (b, key)) = placesFrom a os name := by
    intro os a b hab
    rw [filter_eq_self]
    intro q hq
    have hle := (le_of_mem_placesFrom hq).1
    have hne : q ≠ (b, key) := by
      rintro rfl
      exact absurd hle (by simpa using hab)
    simpa using hne
  induction hs generalizing n i with
  | nil =>
    rw [modify_nil]
    rfl
  | cons o hs ih =>
    cases i with
    | zero =>
      rw [modify_zero_cons, placesFrom_cons, placesFrom_cons, filter_append, hf, hlater hs (n + 1) (n + 0) (by omega),
        List.filter_map]
      congr 2
      refine filter_congr fun k _ => ?_
      by_cases hk : k = key
      · rw [hk]
        simp
      have hne : ((n, k) : Nat × String) ≠ (n, key) := fun h => hk (mk.inj h).2
      rw [bne_iff_ne.mpr hk]
      exact (bne_iff_ne.mpr hne).symm
    | succ i =>
      rw [modify_succ_cons, placesFrom_cons, placesFrom_cons, filter_append, hother o n (n + (i + 1)) (by omega), ih,
        add_right_comm, add_assoc]

theorem placesNamed_removeIn (hs : List (Members V)) (p : Nat × String) (name : String) :
    placesNamed (removeIn hs p) name = (placesNamed hs name).filter (· != p) := by
  have hf : ∀ o : Members V, keysNamed (removeKey o p.2) name = (keysNamed o name).filter (· != p.2) := by
    intro o
    rw [keysNamed, keysNamed, keysOf_removeKey, List.filter_filter, List.filter_filter]
    exact filter_congr fun k _ => Bool.and_comm _ _
  have hmodify := placesFrom_modify 0 p.1 hs hf
  rwa [zero_add] at hmodify

theorem valueIn_removeIn (hs : List (Members V)) (p q : Nat × String) :
    valueIn (removeIn hs p) q = if q = p then none else valueIn hs q := by
  rw [valueIn, removeIn, getElem?_modify, valueIn]
  obtain ⟨i, key⟩ := p
  obtain ⟨j, other⟩ := q
  by_cases hij : i = j
  · subst hij
    cases ho : hs[i]? with
    | none => simp
    | some o =>
      show valueAt (if i = i then removeKey o key else o) other = _
      rw [if_pos rfl, valueAt_removeKey]
      simp
  have hne : ((j, other) : Nat × String) ≠ (i, key) := fun h => hij (mk.inj h).1.symm
  rw [if_neg hne]
  cases hs[j]? with
  | none => rfl
  | some o =>
    show valueAt (if i = j then removeKey o key else o) other = _
    rw [if_neg hij]
    rfl

theorem valueIn_insertIn (hp : p.1 < hs.length) (value : V) (q : Nat × String) :
    valueIn (insertIn hs p value) q = if q = p then some value else valueIn hs q := by
  rw [valueIn, insertIn, getElem?_modify, valueIn]
  obtain ⟨i, key⟩ := p
  obtain ⟨j, other⟩ := q
  by_cases hij : i = j
  · subst hij
    rw [getElem?_eq_getElem hp]
    show valueAt (if i = i then insertKey _ key value else _) other = _
    rw [if_pos rfl, valueAt_insertKey]
    simp
  have hne : ((j, other) : Nat × String) ≠ (i, key) := fun h => hij (mk.inj h).1.symm
  rw [if_neg hne]
  cases hs[j]? with
  | none => rfl
  | some o =>
    show valueAt (if i = j then insertKey o key value else o) other = _
    rw [if_neg hij]
    rfl

theorem placesFrom_modify_same (i : Nat) (hs : List (Members V))
    (hf : ∀ o ∈ hs[i]?, keysNamed (f o) name = keysNamed o name) :
    placesFrom n (hs.modify i f) name = placesFrom n hs name := by
  induction hs generalizing n i with
  | nil => rw [modify_nil]
  | cons o hs ih =>
    cases i with
    | zero =>
      rw [modify_zero_cons, placesFrom_cons, placesFrom_cons, hf o (by simp)]
    | succ i =>
      rw [modify_succ_cons, placesFrom_cons, placesFrom_cons, ih (n + 1) i (fun o ho => hf o (by simpa using ho))]

theorem placesNamed_insertIn
    (h : sameName p.2 name = false ∨ valueIn hs p ≠ none) (value : V) :
    placesNamed (insertIn hs p value) name = placesNamed hs name := by
  refine placesFrom_modify_same 0 p.1 hs fun o ho => ?_
  rcases h with h | h
  · exact keysNamed_insertKey_other h o value
  rw [valueIn, ho] at h
  have hin : p.2 ∈ keysOf o := by
    by_contra hnot
    exact h (valueAt_eq_none.mpr hnot)
  rw [insertKey, if_pos hin, keysNamed, keysOf_replaceKey]
  rfl

theorem placesNamed_insertIn_first (hp : p.1 < hs.length)
    (hname : sameName p.2 name = true) (hnone : placesNamed hs name = []) (value : V) :
    placesNamed (insertIn hs p value) name = [p] := by
  obtain ⟨i, key⟩ := p
  have hfrom : ∀ (n : Nat) (i : Nat) (hs : List (Members V)), i < hs.length → placesFrom n hs name = [] →
      placesFrom n (hs.modify i fun o => insertKey o key value) name = [(n + i, key)] := by
    intro n i hs
    induction hs generalizing n i with
    | nil =>
      intro hi
      exact absurd hi (not_lt_zero i)
    | cons o hs ih =>
      intro hi hempty
      rw [placesFrom_cons, append_eq_nil_iff, map_eq_nil_iff] at hempty
      cases i with
      | zero =>
        rw [modify_zero_cons, placesFrom_cons, hempty.2, keysNamed_insertKey_first hname hempty.1]
        rfl
      | succ i =>
        rw [modify_succ_cons, placesFrom_cons, hempty.1,
          ih (n + 1) i (by simpa using hi) hempty.2, add_right_comm, add_assoc]
        rfl
  have hplaces := hfrom 0 i hs hp hnone
  rwa [zero_add] at hplaces

theorem DistinctKeys.modify (h : DistinctKeys hs) (i : Nat)
    (hf : ∀ o, (keysOf o).Nodup → (keysOf (f o)).Nodup) : DistinctKeys (hs.modify i f) := by
  intro o' ho'
  obtain ⟨j, hj, rfl⟩ := getElem_of_mem ho'
  rw [getElem_modify]
  split
  · exact hf _ (h _ (getElem_mem _))
  · exact h _ (getElem_mem _)

theorem nodup_removeKey (h : (keysOf o).Nodup) (key : String) : (keysOf (removeKey o key)).Nodup := by
  rw [keysOf_removeKey]
  exact h.filter _

theorem nodup_insertKey (h : (keysOf o).Nodup) (key : String) (value : V) :
    (keysOf (insertKey o key value)).Nodup := by
  rw [insertKey]
  split
  · rw [keysOf_replaceKey]
    exact h
  rename_i hfresh
  rw [keysOf_append, keysOf_cons, nodup_middle, ← keysOf_append, takeWhile_append_dropWhile]
  exact nodup_cons.mpr ⟨hfresh, h⟩

end

/-! ### One value put in -/

section

variable {V : Type*} {hs : List (Members V)}

variable {p : Nat × String} {name : String}

theorem mem_placesNamed :
    p ∈ placesNamed hs name ↔ sameName p.2 name = true ∧ valueIn hs p ≠ none := by
  have hfrom : ∀ (n : Nat) (os : List (Members V)), p ∈ placesFrom n os name ↔
      sameName p.2 name = true ∧ n ≤ p.1 ∧ ∃ o, os[p.1 - n]? = some o ∧ valueAt o p.2 ≠ none := by
    intro n os
    induction os generalizing n with
    | nil => simp [placesFrom]
    | cons o os ih =>
      rw [placesFrom_cons, mem_append, ih]
      constructor
      · rintro (hhere | ⟨hname, hle, o', ho', hvalue⟩)
        · obtain ⟨key, hkey, rfl⟩ := mem_map.mp hhere
          obtain ⟨hin, hname⟩ := mem_filter.mp hkey
          refine ⟨hname, le_refl n, o, by simp, fun hnone => ?_⟩
          exact valueAt_eq_none.mp hnone hin
        · refine ⟨hname, by omega, o', ?_, hvalue⟩
          have hsucc : p.1 - n = (p.1 - (n + 1)) + 1 := by omega
          rw [hsucc, getElem?_cons_succ, ho']
      · rintro ⟨hname, hle, o', ho', hvalue⟩
        by_cases heq : p.1 = n
        · left
          rw [heq, Nat.sub_self, List.getElem?_cons_zero] at ho'
          cases ho'
          refine mem_map.mpr ⟨p.2, mem_filter.mpr ⟨?_, hname⟩, by rw [← heq]⟩
          by_contra hnot
          exact hvalue (valueAt_eq_none.mpr hnot)
        · right
          refine ⟨hname, by omega, o', ?_, hvalue⟩
          have hsucc : p.1 - n = (p.1 - (n + 1)) + 1 := by omega
          rwa [hsucc, getElem?_cons_succ] at ho'
  rw [placesNamed, hfrom, Nat.sub_zero]
  refine and_congr_right fun _ => ?_
  rw [valueIn]
  constructor
  · rintro ⟨-, o, ho, hvalue⟩
    rw [ho]
    exact hvalue
  intro hvalue
  cases ho : hs[p.1]? with
  | none =>
    rw [ho] at hvalue
    exact absurd rfl hvalue
  | some o =>
    rw [ho] at hvalue
    exact ⟨zero_le _, o, rfl, hvalue⟩

variable (h : DistinctKeys hs)

include h

theorem mem_values {v : V} :
    v ∈ values hs name ↔ ∃ p, sameName p.2 name = true ∧ valueIn hs p = some v := by
  rw [values_eq h, mem_filterMap]
  constructor
  · rintro ⟨p, hp, hv⟩
    exact ⟨p, (mem_placesNamed.mp hp).1, hv⟩
  · rintro ⟨p, hp, hv⟩
    exact ⟨p, mem_placesNamed.mpr ⟨hp, by rw [hv]; exact some_ne_none v⟩, hv⟩

theorem distinctKeys_insertIn (p : Nat × String) (value : V) : DistinctKeys (insertIn hs p value) :=
  h.modify p.1 fun _ ho => nodup_insertKey ho p.2 value

theorem values_insertIn_other (hp : p.1 < hs.length)
    (hname : sameName p.2 name = false) (value : V) : values (insertIn hs p value) name = values hs name := by
  rw [values_eq (distinctKeys_insertIn h p value), values_eq h, placesNamed_insertIn (.inl hname)]
  refine filterMap_congr fun q hq => ?_
  have hne : q ≠ p := by
    rintro rfl
    have hsame := (le_of_mem_placesFrom hq).2.2
    rw [hname] at hsame
    cases hsame
  rw [valueIn_insertIn hp, if_neg hne]

/-- A value put at the first place of a name that had none is its only one. -/
theorem values_insertIn_first (hp : p.1 < hs.length)
    (hname : sameName p.2 name = true) (hnone : placesNamed hs name = []) (value : V) :
    values (insertIn hs p value) name = [value] := by
  rw [values_eq (distinctKeys_insertIn h p value), placesNamed_insertIn_first hp hname hnone,
    filterMap_cons_some (by rw [valueIn_insertIn hp, if_pos rfl])]
  rfl

theorem placesNamed_eq_nil (hnone : values hs name = []) : placesNamed hs name = [] := by
  rw [eq_nil_iff_forall_not_mem]
  intro p hp
  obtain ⟨hname, hvalue⟩ := mem_placesNamed.mp hp
  obtain ⟨v, hv⟩ := ne_none_iff_exists'.mp hvalue
  have hmem := (mem_values h).mpr ⟨p, hname, hv⟩
  rw [hnone] at hmem
  cases hmem

end

/-! ### Many places -/

section

variable {V : Type*}

/-- Without any of the places. -/
def removeAll (hs : List (Members V)) (ps : List (Nat × String)) : List (Members V) := ps.foldl removeIn hs

/-- With each value at its place. -/
def insertAll (hs : List (Members V)) (pvs : List ((Nat × String) × V)) : List (Members V) :=
  pvs.foldl (fun hs pv => insertIn hs pv.1 pv.2) hs

theorem length_removeAll (hs : List (Members V)) (ps : List (Nat × String)) : (removeAll hs ps).length = hs.length := by
  induction ps generalizing hs with
  | nil => rfl
  | cons p ps ih => rw [removeAll, foldl_cons, ← removeAll, ih, removeIn, length_modify]

theorem distinctKeys_removeAll {hs : List (Members V)} (h : DistinctKeys hs) (ps : List (Nat × String)) :
    DistinctKeys (removeAll hs ps) := by
  induction ps generalizing hs with
  | nil => exact h
  | cons p ps ih => exact ih (h.modify p.1 fun o ho => nodup_removeKey ho p.2)

theorem placesNamed_removeAll (hs : List (Members V)) (ps : List (Nat × String)) (name : String) :
    placesNamed (removeAll hs ps) name = (placesNamed hs name).filter fun q => decide (q ∉ ps) := by
  induction ps generalizing hs with
  | nil => simp [removeAll]
  | cons p ps ih =>
    rw [removeAll, foldl_cons, ← removeAll, ih, placesNamed_removeIn, List.filter_filter]
    refine filter_congr fun q _ => ?_
    by_cases hq : q = p
    · simp [hq]
    · simp [hq]

theorem valueIn_removeAll (hs : List (Members V)) (ps : List (Nat × String)) (q : Nat × String) :
    valueIn (removeAll hs ps) q = if q ∈ ps then none else valueIn hs q := by
  induction ps generalizing hs with
  | nil => simp [removeAll]
  | cons p ps ih =>
    rw [removeAll, foldl_cons, ← removeAll, ih, valueIn_removeIn]
    by_cases hq : q = p
    · simp [hq]
    · simp [hq]

variable {name : String} {pvs : List ((Nat × String) × V)}

/-- Taking out places of one name keeps the values of any other. -/
theorem values_removeAll_other {hs : List (Members V)} (h : DistinctKeys hs) {ps : List (Nat × String)}
    (hps : ∀ p ∈ ps, sameName p.2 name = false) : values (removeAll hs ps) name = values hs name := by
  have hapart : ∀ q ∈ placesNamed hs name, q ∉ ps := by
    intro q hq hin
    have hname := (le_of_mem_placesFrom hq).2.2
    rw [hps q hin] at hname
    cases hname
  have hplaces : placesNamed (removeAll hs ps) name = placesNamed hs name := by
    rw [placesNamed_removeAll, filter_eq_self]
    intro q hq
    exact decide_eq_true (hapart q hq)
  rw [values_eq (distinctKeys_removeAll h ps), values_eq h, hplaces]
  refine filterMap_congr fun q hq => ?_
  rw [valueIn_removeAll, if_neg (hapart q hq)]

theorem length_insertAll (hs : List (Members V)) (pvs : List ((Nat × String) × V)) :
    (insertAll hs pvs).length = hs.length := by
  induction pvs generalizing hs with
  | nil => rfl
  | cons pv pvs ih => rw [insertAll, foldl_cons, ← insertAll, ih, insertIn, length_modify]

theorem distinctKeys_insertAll {hs : List (Members V)} (h : DistinctKeys hs) (pvs : List ((Nat × String) × V)) :
    DistinctKeys (insertAll hs pvs) := by
  induction pvs generalizing hs with
  | nil => exact h
  | cons pv pvs ih => exact ih (h.modify pv.1.1 fun o ho => nodup_insertKey ho pv.1.2 pv.2)

theorem valueIn_lt {hs : List (Members V)} {p : Nat × String} (h : valueIn hs p ≠ none) : p.1 < hs.length := by
  by_contra hge
  rw [valueIn, getElem?_eq_none (not_lt.mp hge)] at h
  exact h rfl

theorem valueIn_insertAll {hs : List (Members V)} (h : ∀ pv ∈ pvs, valueIn hs pv.1 ≠ none)
    (hnodup : (pvs.map fst).Nodup) (q : Nat × String) :
    valueIn (insertAll hs pvs) q = ((pvs.find? fun pv => pv.1 == q).map snd).or (valueIn hs q) := by
  induction pvs generalizing hs with
  | nil => rfl
  | cons pv pvs ih =>
    rw [map_cons, nodup_cons] at hnodup
    have hlt := valueIn_lt (h pv (.head _))
    have hvalue := valueIn_insertIn hlt pv.2
    rw [insertAll, foldl_cons, ← insertAll, ih _ hnodup.2, hvalue, find?_cons]
    · by_cases hq : q = pv.1
      · subst hq
        have hskip : pvs.find? (fun pv' => pv'.1 == pv.1) = none := by
          rw [find?_eq_none]
          intro pv' hpv' heq
          exact hnodup.1 (mem_map.mpr ⟨pv', hpv', beq_iff_eq.mp heq⟩)
        simp [hskip]
      · rw [if_neg hq, beq_false_of_ne (Ne.symm hq)]
    · intro pv' hpv'
      rw [hvalue]
      split
      · exact some_ne_none _
      · exact h pv' (.tail _ hpv')

theorem placesNamed_insertAll {hs : List (Members V)}
    (h : ∀ pv ∈ pvs, valueIn hs pv.1 ≠ none) (name : String) :
    placesNamed (insertAll hs pvs) name = placesNamed hs name := by
  induction pvs generalizing hs with
  | nil => rfl
  | cons pv pvs ih =>
    have hhere := h pv mem_cons_self
    rw [insertAll, foldl_cons, ← insertAll, ih, placesNamed_insertIn (.inr hhere)]
    intro pv' hpv'
    rw [valueIn_insertIn (valueIn_lt hhere)]
    split
    · exact some_ne_none _
    · exact h pv' (.tail _ hpv')

theorem values_insertAll_other {hs : List (Members V)} (hkeys : DistinctKeys hs)
    (h : ∀ pv ∈ pvs, valueIn hs pv.1 ≠ none) (hnodup : (pvs.map fst).Nodup)
    (hname : ∀ pv ∈ pvs, sameName pv.1.2 name = false) : values (insertAll hs pvs) name = values hs name := by
  rw [values_eq (distinctKeys_insertAll hkeys pvs), values_eq hkeys, placesNamed_insertAll h]
  refine filterMap_congr fun q hq => ?_
  rw [valueIn_insertAll h hnodup]
  have hskip : pvs.find? (fun pv => pv.1 == q) = none := by
    rw [find?_eq_none]
    intro pv hpv heq
    have hq' := (le_of_mem_placesFrom hq).2.2
    rw [← beq_iff_eq.mp heq, hname pv hpv] at hq'
    cases hq'
  rw [hskip]
  rfl

theorem values_insertAll {hs : List (Members V)} (hkeys : DistinctKeys hs) {vs : List V}
    (hlen : vs.length = (placesNamed hs name).length) (hvalue : ∀ p ∈ placesNamed hs name, valueIn hs p ≠ none) :
    values (insertAll hs ((placesNamed hs name).zip vs)) name = vs := by
  have hfst : ((placesNamed hs name).zip vs).map fst = placesNamed hs name := map_fst_zip (by omega)
  have hsnd : ((placesNamed hs name).zip vs).map snd = vs := map_snd_zip (by omega)
  have hnodup : (((placesNamed hs name).zip vs).map fst).Nodup := by
    rw [hfst]
    exact placesFrom_nodup hkeys 0 name
  have hin : ∀ pv ∈ (placesNamed hs name).zip vs, valueIn hs pv.1 ≠ none := by
    intro pv hpv
    refine hvalue pv.1 ?_
    rw [← hfst]
    exact mem_map_of_mem hpv
  have hput : ∀ pv ∈ (placesNamed hs name).zip vs,
      valueIn (insertAll hs ((placesNamed hs name).zip vs)) pv.1 = some pv.2 := by
    intro pv hpv
    rw [valueIn_insertAll hin hnodup]
    obtain ⟨front, back, hsplit⟩ := append_of_mem hpv
    rw [hsplit] at hnodup ⊢
    rw [map_append, map_cons, nodup_append] at hnodup
    have hskip : front.find? (fun pv' => pv'.1 == pv.1) = none := by
      rw [find?_eq_none]
      intro pv' hpv' heq
      exact hnodup.2.2 _ (mem_map_of_mem hpv') _ (.head _) (beq_iff_eq.mp heq)
    simp [find?_append, hskip]
  have hall : (((placesNamed hs name).zip vs).map fst).filterMap
      (valueIn (insertAll hs ((placesNamed hs name).zip vs))) = ((placesNamed hs name).zip vs).map snd := by
    rw [filterMap_map]
    exact (filterMap_congr hput).trans (congrFun filterMap_eq_map' _)
  rw [values_eq (distinctKeys_insertAll hkeys _), placesNamed_insertAll hin]
  rwa [hfst, hsnd] at hall

end

/-! ## Null -/

def Json.isNull : Json → Bool
  | .null => true
  | _ => false

variable {v : Json} {vs : List Json}

theorem Json.eq_null (h : v.isNull = true) : v = .null := by
  cases v with
  | null => rfl
  | _ => cases h

theorem Json.eq_obj (h : v.isObject = true) : ∃ o, v = .obj o := by
  cases v with
  | obj o => exact ⟨o, rfl⟩
  | _ => cases h

/-- What a null has not discarded. -/
def live (vs : List Json) : List Json := vs.rtakeWhile fun v => !v.isNull

/-- How many values the last null discards, itself among them. -/
def discarded (vs : List Json) : Nat := vs.zipIdx.foldl (fun d v => if v.1.isNull then v.2 + 1 else d) 0

theorem discarded_concat (vs : List Json) (v : Json) :
    discarded (vs ++ [v]) = if v.isNull then vs.length + 1 else discarded vs := by
  rw [discarded, zipIdx_append, foldl_append]
  show (if v.isNull = true then 0 + vs.length + 1 else discarded vs) = _
  rw [zero_add]

theorem discarded_le (vs : List Json) : discarded vs ≤ vs.length := by
  induction vs using reverseRecOn with
  | nil => exact le_refl 0
  | append_singleton vs v ih =>
    rw [discarded_concat, length_append, length_singleton]
    split
    · exact .refl
    · exact le_succ_of_le ih

/-- A null discards what is before it. -/
theorem drop_discarded (vs : List Json) : vs.drop (discarded vs) = live vs := by
  induction vs using reverseRecOn with
  | nil => rfl
  | append_singleton vs v ih =>
    rw [discarded_concat, live]
    cases hv : v.isNull with
    | true =>
      rw [rtakeWhile_concat_neg _ _ _ (by simp [hv]), if_pos rfl]
      exact drop_eq_nil_of_le (by simp)
    | false =>
      rw [rtakeWhile_concat_pos _ _ _ (by simp [hv]), if_neg Bool.false_ne_true,
        drop_append_of_le_length (discarded_le vs),
        ih, live]

theorem live_of_objects (h : ∀ v ∈ vs, v.isObject = true) : live vs = vs := by
  rw [live, rtakeWhile_eq_self_iff]
  intro v hv
  cases v with
  | null => cases h _ hv
  | _ => rfl

theorem live_subset (h : v ∈ live vs) : v ∈ vs := (rtakeWhile_suffix _ _).subset h

theorem live_not_null (h : v ∈ live vs) : v.isNull = false := by
  have hall := mem_rtakeWhile_imp h
  simpa using hall

/-- The object a pointer field holds: the objects of its live spellings, none of them before a null. -/
def pointer (hs : List (Members Json)) (name : String) : Option (List (Members Json)) :=
  match live (values hs name) with
  | [] => none
  | vs => some (vs.map Json.toObject)

end Waterdisco
