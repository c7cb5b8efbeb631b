import Mathlib.Data.List.Nodup

/-!
# Members of an object

An object is the list of its members, each key once.  A program that edits one walks over
the keys, reads the value of each and keeps, drops or replaces it; with distinct keys that
walk is one pass over the members.

    visitKeys fate keys o = o.filterMap (settle fate)        (visitKeys_eq)

Names are compared without regard to case.
-/

namespace Waterdisco

open List Option

abbrev Members (V : Type*) := List (String × V)

/-! ## Names -/

/-- Simple case folding as far as it reaches the ASCII letters: the long s and the Kelvin sign fold to `s` and `k`. -/
def foldChar (c : Char) : Char :=
  if c = '\u017f' then 's' else if c = '\u212a' then 'k' else c.toLower

def foldName (s : String) : List Char := s.toList.map foldChar

/-- Equality without regard to case, against a name of ASCII characters. -/
def sameName (key name : String) : Bool := foldName key == foldName name

theorem sameName_iff {key name : String} : sameName key name = true ↔ foldName key = foldName name := by
  rw [sameName, beq_iff_eq]

@[simp] theorem sameName_self (name : String) : sameName name name = true := sameName_iff.mpr rfl

theorem sameName_unique {key name other : String} (h : sameName key name = true) (hne : foldName name ≠ foldName other) :
    sameName key other = false := by
  cases hother : sameName key other with
  | false => rfl
  | true => exact absurd ((sameName_iff.mp h).symm.trans (sameName_iff.mp hother)) hne

/-! ## Keys and values -/

section

variable {V ι : Type*}

def keysOf (o : Members V) : List String := o.map Prod.fst

def keysNamed (o : Members V) (name : String) : List String := (keysOf o).filter (sameName · name)

/-- The value of a key in just this spelling. -/
def valueAt (o : Members V) (key : String) : Option V := (o.find? (fun m => m.1 == key)).map (·.2)

def removeKey (o : Members V) (key : String) : Members V := o.filter (fun m => m.1 != key)

def replaceKey (o : Members V) (key : String) (value : V) : Members V :=
  o.map fun m => if m.1 == key then (key, value) else m

@[simp] theorem keysOf_nil : keysOf ([] : Members V) = [] := rfl

@[simp] theorem keysOf_cons (m : String × V) (o : Members V) : keysOf (m :: o) = m.1 :: keysOf o := rfl

@[simp] theorem keysOf_append (o o' : Members V) : keysOf (o ++ o') = keysOf o ++ keysOf o' := map_append

variable {o rest : Members V} {key : String}

theorem valueAt_append_cons (h : key ∉ keysOf o) (value : V) (rest : Members V) :
    valueAt (o ++ (key, value) :: rest) key = some value := by
  have hskip : o.find? (fun m => m.1 == key) = none := by
    rw [find?_eq_none]
    intro m hm heq
    exact h (mem_map.mpr ⟨m, hm, beq_iff_eq.mp heq⟩)
  simp [valueAt, find?_append, hskip]

theorem valueAt_of_mem (h : (keysOf o).Nodup) {m : String × V} (hm : m ∈ o) :
    valueAt o m.1 = some m.2 := by
  obtain ⟨front, back, rfl⟩ := append_of_mem hm
  rw [keysOf_append, keysOf_cons, nodup_append] at h
  exact valueAt_append_cons (fun hin => h.2.2 _ hin _ (.head _) rfl) m.2 back

variable (h : key ∉ keysOf o)

include h

theorem removeKey_of_notMem : removeKey o key = o := by
  rw [removeKey, filter_eq_self]
  intro m hm
  rw [bne_iff_ne]
  intro heq
  exact h (mem_map.mpr ⟨m, hm, heq⟩)

theorem replaceKey_of_notMem (value : V) :
    replaceKey o key value = o := by
  have hself : ∀ m ∈ o, (if m.1 == key then (key, value) else m) = m := by
    intro m hm
    rw [if_neg]
    intro heq
    exact h (List.mem_map.mpr ⟨m, hm, beq_iff_eq.mp heq⟩)
  rw [replaceKey, List.map_congr_left hself, List.map_id']

theorem removeKey_append_cons (h' : key ∉ keysOf rest)
    (value : V) : removeKey (o ++ (key, value) :: rest) key = o ++ rest := by
  have hleft := removeKey_of_notMem h
  have hright := removeKey_of_notMem h'
  simp only [removeKey] at hleft hright ⊢
  rw [filter_append, hleft, filter_cons_of_neg (by simp), hright]

theorem replaceKey_append_cons (h' : key ∉ keysOf rest)
    (value new : V) : replaceKey (o ++ (key, value) :: rest) key new = o ++ (key, new) :: rest := by
  have hleft := replaceKey_of_notMem h new
  have hright := replaceKey_of_notMem h' new
  simp only [replaceKey] at hleft hright ⊢
  rw [map_append, hleft, map_cons, hright, if_pos (by simp)]

omit h

/-! ## Walking over the keys -/

/-- What becomes of the value of a key. -/
inductive Fate (V : Type*) where
  | keep
  | drop
  | put (value : V)

def Fate.left : Fate V → V → Option V
  | .keep, value => some value
  | .drop, _ => none
  | .put new, _ => some new

def Fate.changes : Fate V → Bool
  | .keep => false
  | _ => true

/-- An object under edit: whether anything changed, and what was reported on the way. -/
structure Edited (V ι : Type*) where
  members : Members V
  changed : Bool := false
  issues : List ι := []

def visitKey (fate : String → V → Fate V × List ι) (e : Edited V ι) (key : String) : Edited V ι :=
  match valueAt e.members key with
  | none => e
  | some value =>
    match fate key value with
    | (.keep, issues) => { e with issues := e.issues ++ issues }
    | (.drop, issues) => ⟨removeKey e.members key, true, e.issues ++ issues⟩
    | (.put new, issues) => ⟨replaceKey e.members key new, true, e.issues ++ issues⟩

def visitKeys (fate : String → V → Fate V × List ι) (keys : List String) (e : Edited V ι) : Edited V ι :=
  keys.foldl (visitKey fate) e

/-- The loop over every spelling of a name. -/
def forNamed (o : Members V) (name : String) (fate : String → V → Fate V × List ι) : Edited V ι :=
  visitKeys fate (keysNamed o name) { members := o }

def forKeys (o : Members V) (fate : String → V → Fate V × List ι) : Edited V ι :=
  visitKeys fate (keysOf o) { members := o }

variable (p : String → Bool) (fate : String → V → Fate V × List ι)

def settle (m : String × V) : Option (String × V) :=
  if p m.1 then ((fate m.1 m.2).1.left m.2).map (m.1, ·) else some m

def touches (m : String × V) : Bool := p m.1 && (fate m.1 m.2).1.changes

def noted (m : String × V) : List ι := if p m.1 then (fate m.1 m.2).2 else []

theorem visitKey_append_cons {m : String × V} (hleft : m.1 ∉ keysOf o)
    (hright : m.1 ∉ keysOf rest) (hp : p m.1 = true) (changed : Bool) (issues : List ι) :
    visitKey fate ⟨o ++ m :: rest, changed, issues⟩ m.1 =
      ⟨o ++ (settle p fate m).toList ++ rest, changed || touches p fate m, issues ++ noted p fate m⟩ := by
  obtain ⟨key, value⟩ := m
  have hvalue : valueAt (o ++ (key, value) :: rest) key = some value := valueAt_append_cons hleft value rest
  rcases hfate : fate key value with ⟨fated, new⟩
  cases fated with
  | keep => simp [visitKey, hvalue, hfate, settle, touches, noted, hp, Fate.left, Fate.changes]
  | drop =>
    have hremove := removeKey_append_cons hleft hright value
    simp [visitKey, hvalue, hfate, settle, touches, noted, hp, Fate.left, Fate.changes, hremove]
  | put w =>
    have hreplace := replaceKey_append_cons hleft hright value w
    simp [visitKey, hvalue, hfate, settle, touches, noted, hp, Fate.left, Fate.changes, hreplace]

/-- The walk over the rest of an object whose front is settled: the front stays as it is. -/
theorem visitKeys_append (todo : Members V) (done : Members V) (h : (keysOf (done ++ todo)).Nodup)
    (changed : Bool) (issues : List ι) :
    visitKeys fate ((keysOf todo).filter p) ⟨done ++ todo, changed, issues⟩ =
      ⟨done ++ todo.filterMap (settle p fate), changed || todo.any (touches p fate),
        issues ++ todo.flatMap (noted p fate)⟩ := by
  induction todo generalizing done changed issues with
  | nil => simp [visitKeys]
  | cons m todo ih =>
    rw [keysOf_append, keysOf_cons, nodup_append] at h
    obtain ⟨hdone, htodo, hapart⟩ := h
    rw [nodup_cons] at htodo
    have hleft : m.1 ∉ keysOf done := fun hmem => hapart _ hmem _ (.head _) rfl
    have hkept : (keysOf ((done ++ (settle p fate m).toList) ++ todo)).Nodup := by
      have hkeys : ∀ key ∈ keysOf (settle p fate m).toList, key = m.1 := by
        intro key hkey
        obtain ⟨m', hm', rfl⟩ := mem_map.mp hkey
        rw [mem_toList, settle] at hm'
        split at hm'
        · obtain ⟨w, -, rfl⟩ := map_eq_some_iff.mp hm'
          rfl
        · rw [some.inj hm']
      have hone : (keysOf (settle p fate m).toList).Nodup := by
        cases settle p fate m <;> simp
      rw [keysOf_append, keysOf_append, nodup_append, nodup_append]
      refine ⟨⟨hdone, hone, ?_⟩, htodo.2, ?_⟩
      · intro a ha b hb hab
        rw [hkeys b hb] at hab
        exact hleft (hab ▸ ha)
      intro a ha b hb hab
      rcases mem_append.mp ha with ha | ha
      · exact hapart a ha b (.tail _ hb) hab
      · rw [hkeys a ha] at hab
        exact htodo.1 (hab ▸ hb)
    cases hp : p m.1 with
    | true =>
      have hstep := visitKey_append_cons p fate hleft htodo.1 hp changed issues
      have hrest := ih _ hkept (changed || touches p fate m) (issues ++ noted p fate m)
      rw [keysOf_cons, filter_cons_of_pos hp, visitKeys, foldl_cons, hstep]
      rw [visitKeys] at hrest
      rw [hrest]
      cases hs : settle p fate m <;> simp [hs, Bool.or_assoc]
    | false =>
      have hstay : settle p fate m = some m := by simp [settle, hp]
      have hquiet : touches p fate m = false := by simp [touches, hp]
      have hnone : noted p fate m = [] := by simp [noted, hp]
      have hrest := ih _ hkept changed issues
      rw [hstay, toList_some] at hrest
      rw [keysOf_cons, filter_cons_of_neg (by simp [hp])]
      simp only [append_assoc, singleton_append] at hrest
      rw [hrest]
      simp [hstay, hquiet, hnone]

theorem visitKeys_eq (o : Members V) (h : (keysOf o).Nodup) :
    visitKeys fate ((keysOf o).filter p) ⟨o, false, []⟩ =
      ⟨o.filterMap (settle p fate), o.any (touches p fate), o.flatMap (noted p fate)⟩ := by
  have hall := visitKeys_append p fate o [] (by simpa using h) false []
  simpa using hall

end

end Waterdisco
