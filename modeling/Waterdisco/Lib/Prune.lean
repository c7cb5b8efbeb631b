import Mathlib.Algebra.Ring.Int.Defs
import Mathlib.Algebra.Ring.Nat
import Waterdisco.Lib.Json
import Waterdisco.Lib.Members

/-!
# Taking listed values out of a document

A place is a way into a document together with a test of the value found there.  `prune`
takes out every member and every list item at a listed place and leaves the rest as it is;
`removed` counts what it takes out.

    prune M (prune L j) = prune (L or M) j   when L and M start with different names   (prune_either)
    removed L j = 0 ↔ nothing listed is left                                           (removed_eq_zero_iff)
    removed L (prune L j) = 0                when L is settled                         (removed_prune)
-/

namespace Waterdisco

open List Bool Option

/-- One step into a document: the member of a key, or an item of a list. -/
inductive Step where
  | key (name : String)
  | item (value : Json)
deriving Repr

/-- The places a document is searched at. -/
abbrev Place := List Step → Json → Bool

/-- The places below one step. -/
def Place.after (L : Place) (s : Step) : Place := fun path value => L (s :: path) value

/-- A value at the end of a way into a document. -/
inductive At : Json → List Step → Json → Prop where
  | here (j : Json) : At j [] j
  | member {members : Members Json} {m : String × Json} {path : List Step} {value : Json} :
      m ∈ members → At m.2 path value → At (.obj members) (.key m.1 :: path) value
  | item {items : List Json} {x : Json} {path : List Step} {value : Json} :
      x ∈ items → At x path value → At (.arr items) (.item x :: path) value

variable {j : Json} {o : Members Json} {M : Place}

theorem At.eq_of_nil {value : Json} (h : At j [] value) : value = j := by
  cases h
  rfl

mutual

def prune (L : Place) : Json → Json
  | .obj members => .obj (pruneMembers L members)
  | .arr items => .arr (pruneItems L items)
  | j => j

def pruneItems (L : Place) : List Json → List Json
  | [] => []
  | x :: items => if L [.item x] x then pruneItems L items else prune (L.after (.item x)) x :: pruneItems L items

def pruneMembers (L : Place) : Members Json → Members Json
  | [] => []
  | m :: members =>
    if L [.key m.1] m.2 then pruneMembers L members else pruneMember (L.after (.key m.1)) m :: pruneMembers L members

def pruneMember (L : Place) : String × Json → String × Json
  | (key, value) => (key, prune L value)

end

mutual

def removed (L : Place) : Json → Nat
  | .obj members => removedMembers L members
  | .arr items => removedItems L items
  | _ => 0

def removedItems (L : Place) : List Json → Nat
  | [] => 0
  | x :: items => (if L [.item x] x then 1 else removed (L.after (.item x)) x) + removedItems L items

def removedMembers (L : Place) : Members Json → Nat
  | [] => 0
  | m :: members =>
    (if L [.key m.1] m.2 then 1 else removedMember (L.after (.key m.1)) m) + removedMembers L members

def removedMember (L : Place) : String × Json → Nat
  | (_, value) => removed L value

end

/-- Induction over a document: a list from its items, an object from its values. -/
theorem Json.induct {P : Json → Prop} (null : P .null) (bool : ∀ b, P (.bool b)) (num : ∀ n, P (.num n))
    (double : ∀ b, P (.double b)) (str : ∀ s, P (.str s)) (arr : ∀ items, (∀ x ∈ items, P x) → P (.arr items))
    (obj : ∀ members : Members Json, (∀ m ∈ members, P m.2) → P (.obj members)) (j : Json) : P j :=
  @Json.rec P (fun items => ∀ x ∈ items, P x) (fun members => ∀ m ∈ members, P m.2) (fun m => P m.2)
    null bool num double str arr obj
    (fun _ hx => absurd hx not_mem_nil) (fun _ _ h ih x hx => (mem_cons.mp hx).elim (fun e => e ▸ h) (ih x))
    (fun _ hx => absurd hx not_mem_nil) (fun _ _ h ih x hx => (mem_cons.mp hx).elim (fun e => e ▸ h) (ih x))
    (fun _ _ h => h) j

/-! ## One level at a time -/

def pruned (L : Place) (m : String × Json) : Option (String × Json) :=
  if L [.key m.1] m.2 then none else some (m.1, prune (L.after (.key m.1)) m.2)

def prunedItem (L : Place) (x : Json) : Option Json :=
  if L [.item x] x then none else some (prune (L.after (.item x)) x)

def removedAt (L : Place) (m : String × Json) : Nat :=
  if L [.key m.1] m.2 then 1 else removed (L.after (.key m.1)) m.2

def removedItem (L : Place) (x : Json) : Nat :=
  if L [.item x] x then 1 else removed (L.after (.item x)) x

theorem pruneMembers_eq (L : Place) (o : Members Json) : pruneMembers L o = o.filterMap (pruned L) := by
  induction o with
  | nil => rfl
  | cons m o ih =>
    rw [pruneMembers, ih, filterMap_cons, pruned, pruneMember]
    split <;> rfl

theorem pruneItems_eq (L : Place) (items : List Json) : pruneItems L items = items.filterMap (prunedItem L) := by
  induction items with
  | nil => rfl
  | cons x items ih =>
    rw [pruneItems, ih, filterMap_cons, prunedItem]
    split <;> rfl

variable {L : Place}

theorem mem_pruneMembers {m : String × Json} (hm : m ∈ o)
    (hkeep : L [.key m.1] m.2 = false) : (m.1, prune (L.after (.key m.1)) m.2) ∈ pruneMembers L o := by
  rw [pruneMembers_eq]
  refine mem_filterMap.mpr ⟨m, hm, ?_⟩
  rw [pruned, hkeep]
  rfl

theorem removedMembers_eq (L : Place) (o : Members Json) : removedMembers L o = (o.map (removedAt L)).sum := by
  induction o with
  | nil => rfl
  | cons m o ih =>
    rw [removedMembers, ih, map_cons, sum_cons, removedAt, removedMember]

theorem removedItems_eq (L : Place) (items : List Json) : removedItems L items = (items.map (removedItem L)).sum := by
  induction items with
  | nil => rfl
  | cons x items ih =>
    rw [removedItems, ih, map_cons, sum_cons, removedItem]

theorem removedMembers_eq_zero :
    removedMembers L o = 0 ↔ ∀ m ∈ o, L [.key m.1] m.2 = false ∧ removed (L.after (.key m.1)) m.2 = 0 := by
  rw [removedMembers_eq, List.sum_eq_zero_iff_forall_eq_nat]
  simp only [List.mem_map, forall_exists_index, and_imp, forall_apply_eq_imp_iff₂, removedAt]
  refine forall₂_congr fun m _ => ?_
  cases L [.key m.1] m.2 <;> simp

theorem removedItems_eq_zero {items : List Json} :
    removedItems L items = 0 ↔ ∀ x ∈ items, L [.item x] x = false ∧ removed (L.after (.item x)) x = 0 := by
  rw [removedItems_eq, List.sum_eq_zero_iff_forall_eq_nat]
  simp only [List.mem_map, forall_exists_index, and_imp, forall_apply_eq_imp_iff₂, removedItem]
  refine forall₂_congr fun x _ => ?_
  cases L [.item x] x <;> simp

/-- Where nothing is taken out the document stays as it is. -/
theorem prune_of_removed_eq_zero (h : removed L j = 0) : prune L j = j := by
  induction j using Json.induct generalizing L with
  | null | bool | num | double | str => rfl
  | arr items ih =>
    rw [removed, removedItems_eq_zero] at h
    have hself : ∀ x ∈ items, prunedItem L x = some x := by
      intro x hx
      rw [prunedItem, if_neg (by simp [(h x hx).1]), ih x hx (h x hx).2]
    rw [prune, pruneItems_eq, filterMap_congr hself, filterMap_some]
  | obj members ih =>
    rw [removed, removedMembers_eq_zero] at h
    have hself : ∀ m ∈ members, pruned L m = some m := by
      intro m hm
      rw [pruned, if_neg (by simp [(h m hm).1]), ih m hm (h m hm).2]
    rw [prune, pruneMembers_eq, filterMap_congr hself, filterMap_some]

theorem pruneMembers_of_removed_eq_zero (h : removedMembers L o = 0) :
    pruneMembers L o = o := by
  have hobj : removed L (.obj o) = 0 := by rw [removed, h]
  simpa [prune] using prune_of_removed_eq_zero hobj

/-- Nothing at a listed place is left in a document. -/
def NoneLeft (L : Place) (j : Json) : Prop :=
  ∀ s path value, At j (s :: path) value → L (s :: path) value = false

theorem noneLeft_of_removed (h : removed L j = 0) : NoneLeft L j := by
  intro s path value hat
  generalize hway : s :: path = way at hat
  induction hat generalizing L s path with
  | here => cases hway
  | @member members m path' value hm hat ih =>
    obtain ⟨key, v⟩ := m
    rw [removed, removedMembers_eq_zero] at h
    obtain ⟨hhere, hbelow⟩ := h (key, v) hm
    cases path' with
    | nil => cases hat; exact hhere
    | cons t rest => exact ih hbelow t rest rfl
  | @item items x path' value hx hat ih =>
    rw [removed, removedItems_eq_zero] at h
    obtain ⟨hhere, hbelow⟩ := h x hx
    cases path' with
    | nil => cases hat; exact hhere
    | cons t rest => exact ih hbelow t rest rfl

/-! ## Describing places -/

/-- The member of one name, where its value passes a test. -/
def named (name : String) (test : Json → Bool) : Place
  | [.key k], value => sameName k name && test value
  | _, _ => false

/-- Any member, where its key and value pass a test. -/
def anyKey (test : String → Json → Bool) : Place
  | [.key k], value => test k value
  | _, _ => false

/-- Places inside the members of one name. -/
def within (name : String) (L : Place) : Place
  | .key k :: path, value => sameName k name && L path value
  | _, _ => false

/-- Places inside the items of a list. -/
def eachItem (L : Json → Place) : Place
  | .item x :: path, value => L x path value
  | _, _ => false

/-- The items of a list that pass a test. -/
def itemsThat (test : Json → Bool) : Place
  | [.item _], value => test value
  | _, _ => false

def oneOf (Ls : List Place) : Place := fun path value => Ls.any fun L => L path value

/-- Only the members of an object are listed. -/
structure KeysFirst (L : Place) : Prop where
  root : ∀ value, L [] value = false
  item : ∀ x path value, L (.item x :: path) value = false

/-- Every listed way starts with the name. -/
def Headed (name : String) (L : Place) : Prop :=
  ∀ k path value, L (.key k :: path) value = true → sameName k name = true

/-- Taking the listed values out settles the matter: nothing listed lies below a listed
place, and an item that was pruned is searched as it was before. -/
structure Settled (L : Place) : Prop where
  leafy : ∀ path s rest value below, L path value = true → L (path ++ s :: rest) below = false
  steady : ∀ path x rest value,
    L (path ++ .item (prune (fun way => L (path ++ .item x :: way)) x) :: rest) value = L (path ++ .item x :: rest) value

theorem removed_empty (h : ∀ s path value, L (s :: path) value = false) (j : Json) : removed L j = 0 := by
  induction j using Json.induct generalizing L with
  | null | bool | num | double | str => rfl
  | arr items ih =>
    rw [removed, removedItems_eq_zero]
    exact fun x hx => ⟨h _ _ _, ih x hx (fun s path value => h _ _ _)⟩
  | obj members ih =>
    rw [removed, removedMembers_eq_zero]
    exact fun m hm => ⟨h _ _ _, ih m hm (fun s path value => h _ _ _)⟩

theorem prune_empty (h : ∀ s path value, L (s :: path) value = false) (j : Json) : prune L j = j :=
  prune_of_removed_eq_zero (removed_empty h j)

theorem Settled.after (h : Settled L) (s : Step) : Settled (L.after s) :=
  ⟨fun path t rest value below hl => h.leafy (s :: path) t rest value below hl,
    fun path x rest value => h.steady (s :: path) x rest value⟩

/-- A value that stays where it is stays after what is below it is taken out. -/
theorem Settled.kept (h : Settled L) (s : Step) {value : Json} (hkeep : L [s] value = false) :
    L [s] (prune (L.after s) value) = false := by
  by_cases hever : ∃ w, L [s] w = true
  · obtain ⟨w, hw⟩ := hever
    have hempty : ∀ t path below, L.after s (t :: path) below = false :=
      fun t path below => h.leafy [s] t path w below hw
    rw [prune_empty hempty, hkeep]
  · cases hv : L [s] (prune (L.after s) value) with
    | false => rfl
    | true => exact absurd ⟨_, hv⟩ hever

/-- Nothing is left to take out of a pruned document. -/
theorem removed_prune (h : Settled L) (j : Json) : removed L (prune L j) = 0 := by
  induction j using Json.induct generalizing L with
  | null | bool | num | double | str => rfl
  | arr items ih =>
    rw [prune, removed, removedItems_eq_zero, pruneItems_eq]
    intro y hy
    obtain ⟨x, hx, hxy⟩ := mem_filterMap.mp hy
    rw [prunedItem] at hxy
    split at hxy
    · cases hxy
    rename_i hkeep
    have hy' : prune (L.after (.item x)) x = y := some.inj hxy
    have hkeep' : L [.item x] x = false := by simpa using hkeep
    have hsame : L.after (.item y) = L.after (.item x) := by
      funext path value
      rw [← hy']
      exact h.steady [] x path value
    constructor
    · have hitem : L [.item y] y = L [.item x] y := by
        rw [← hy']
        exact h.steady [] x [] _
      rw [hitem, ← hy']
      exact h.kept (.item x) hkeep'
    · rw [hsame, ← hy']
      exact ih x hx (h.after _)
  | obj members ih =>
    rw [prune, removed, removedMembers_eq_zero, pruneMembers_eq]
    intro m' hm'
    obtain ⟨m, hm, heq⟩ := mem_filterMap.mp hm'
    rw [pruned] at heq
    split at heq
    · cases heq
    rename_i hkeep
    have hkeep' : L [.key m.1] m.2 = false := by simpa using hkeep
    rw [← some.inj heq]
    exact ⟨h.kept (.key m.1) hkeep', ih m hm (h.after _)⟩

/-! ## Rules for places -/

/-- The places of one name in an object, settled when taken out. -/
structure Listing (name : String) (L : Place) : Prop where
  settled : Settled L
  keysFirst : KeysFirst L
  headed : Headed name L

theorem listing_named (name : String) (test : Json → Bool) : Listing name (named name test) where
  settled := by
    refine ⟨?_, ?_⟩
    · intro path s rest value below h
      match path, h with
      | [.key k], _ => rfl
    intro path x rest value
    match path with
    | [] => rfl
    | [.key k] => rfl
    | .item y :: path => rfl
    | .key k :: t :: path => rfl
  keysFirst := ⟨fun _ => rfl, fun _ _ _ => rfl⟩
  headed := by
    intro k path value h
    match path, h with
    | [], h => exact (and_eq_true_iff.mp h).1

theorem settled_anyKey (test : String → Json → Bool) : Settled (anyKey test) := by
  refine ⟨?_, ?_⟩
  · intro path s rest value below h
    match path, h with
    | [.key k], _ => rfl
  intro path x rest value
  match path with
  | [] => rfl
  | [.key k] => rfl
  | .item y :: path => rfl
  | .key k :: t :: path => rfl

theorem settled_itemsThat (test : Json → Bool) : Settled (itemsThat test) := by
  refine ⟨?_, ?_⟩
  · intro path s rest value below h
    match path, h with
    | [.item x], _ => rfl
  intro path x rest value
  match path, rest with
  | [], [] => rfl
  | [], t :: rest => rfl
  | [.item y], _ => rfl
  | .key k :: path, _ => rfl
  | .item y :: t :: path, _ => rfl

theorem listing_within (name : String) (h : Settled L) : Listing name (within name L) where
  settled := by
    refine ⟨?_, ?_⟩
    · intro path s rest value below hl
      match path, hl with
      | .key k :: path, hl =>
        have hl' := and_eq_true_iff.mp hl
        show (sameName k name && L (path ++ s :: rest) below) = false
        rw [h.leafy path s rest value below hl'.2, Bool.and_false]
    · intro path x rest value
      match path with
      | [] => rfl
      | .item y :: path => rfl
      | .key k :: path =>
        have hsteady := h.steady path x rest value
        show (sameName k name && L (path ++ .item (prune (fun way v => sameName k name &&
          L (path ++ .item x :: way) v) x)
          :: rest) value) = (sameName k name && L (path ++ .item x :: rest) value)
        cases sameName k name with
        | false => rfl
        | true =>
          exact hsteady
  keysFirst := ⟨fun _ => rfl, fun _ _ _ => rfl⟩
  headed := fun _ _ _ hl => (and_eq_true_iff.mp hl).1

theorem settled_eachItem {L : Json → Place} (h : ∀ x, Settled (L x)) (hsame : ∀ x, L (prune (L x) x) = L x) :
    Settled (eachItem L) := by
  refine ⟨?_, ?_⟩
  · intro path s rest value below hl
    match path, hl with
    | .item x :: path, hl => exact (h x).leafy path s rest value below hl
  intro path x rest value
  match path with
  | [] => exact congrFun (congrFun (hsame x) rest) value
  | .key k :: path => rfl
  | .item y :: path => exact (h y).steady path x rest value

/-- No way is listed by both. -/
def Apart (L M : Place) : Prop :=
  ∀ k, (∀ path value, L (.key k :: path) value = false) ∨ (∀ path value, M (.key k :: path) value = false)

def either (L M : Place) : Place := fun path value => L path value || M path value

theorem KeysFirst.either (hL : KeysFirst L) (hM : KeysFirst M) : KeysFirst (either L M) :=
  ⟨fun value => by simp [Waterdisco.either, hL.root, hM.root],
    fun x path value => by simp [Waterdisco.either, hL.item, hM.item]⟩

/-- Below one key only one of two places that are apart lists anything. -/
theorem Apart.after_key (h : Apart L M) (k : String) :
    (either L M).after (.key k) = M.after (.key k) ∧ (∀ path value, L (.key k :: path) value = false) ∨
      (either L M).after (.key k) = L.after (.key k) ∧ (∀ path value, M (.key k :: path) value = false) := by
  rcases h k with hnone | hnone
  · left
    refine ⟨?_, hnone⟩
    funext path value
    simp [Place.after, either, hnone]
  · right
    refine ⟨?_, hnone⟩
    funext path value
    simp [Place.after, either, hnone]

theorem settled_either (hL : Settled L) (hM : Settled M) (kL : KeysFirst L) (kM : KeysFirst M)
    (hapart : Apart L M) : Settled (either L M) := by
  have key := kL.either kM
  refine ⟨?_, ?_⟩
  · intro path s rest value below hl
    match path, hl with
    | [], hl => rw [key.root] at hl; cases hl
    | .item y :: path, hl => rw [key.item] at hl; cases hl
    | .key k :: path, hl =>
      change (either L M).after (.key k) path value = true at hl
      show (either L M).after (.key k) (path ++ s :: rest) below = false
      rcases hapart.after_key k with ⟨heq, -⟩ | ⟨heq, -⟩ <;> rw [heq] at hl ⊢
      · exact (hM.after (.key k)).leafy path s rest value below hl
      · exact (hL.after (.key k)).leafy path s rest value below hl
  · intro path x rest value
    match path with
    | [] => rw [nil_append, nil_append, key.item, key.item]
    | .item y :: path => rw [cons_append, cons_append, key.item, key.item]
    | .key k :: path =>
      show (either L M).after (.key k) (path ++
        .item (prune (fun way => (either L M).after (.key k) (path ++ .item x :: way)) x)
        :: rest) value = (either L M).after (.key k) (path ++ .item x :: rest) value
      rcases hapart.after_key k with ⟨heq, -⟩ | ⟨heq, -⟩ <;> rw [heq]
      · exact (hM.after (.key k)).steady path x rest value
      · exact (hL.after (.key k)).steady path x rest value

/-- One place after the other is both at once, member by member. -/
theorem pruned_either (h : Apart L M) (m : String × Json) :
    (pruned L m).bind (pruned M) = pruned (either L M) m := by
  have happ : either L M [.key m.1] m.2 = (either L M).after (.key m.1) [] m.2 := rfl
  rcases h.after_key m.1 with ⟨heq, hnone⟩ | ⟨heq, hnone⟩
  · have hbelow : ∀ s path value, L.after (.key m.1) (s :: path) value = false := fun s path value => hnone _ _
    rw [pruned, pruned, happ, heq, hnone, prune_empty hbelow]
    rfl
  have hbelow : ∀ s path value, M.after (.key m.1) (s :: path) value = false := fun s path value => hnone _ _
  rw [pruned, pruned, happ, heq]
  show _ = if L [.key m.1] m.2 then none else _
  split
  · rfl
  · rw [bind_some, pruned, hnone, prune_empty hbelow]
    rfl

theorem pruneMembers_either (h : Apart L M) (o : Members Json) :
    pruneMembers M (pruneMembers L o) = pruneMembers (either L M) o := by
  rw [pruneMembers_eq, pruneMembers_eq, pruneMembers_eq, filterMap_filterMap]
  exact filterMap_congr fun m _ => pruned_either h m

theorem removedMembers_either (h : Apart L M) (o : Members Json) :
    removedMembers (either L M) o = removedMembers L o + removedMembers M (pruneMembers L o) := by
  rw [pruneMembers_eq]
  induction o with
  | nil => rfl
  | cons m o ih =>
    have hone : removedAt (either L M) m = removedAt L m + removedMembers M (pruned L m).toList := by
      have happ : either L M [.key m.1] m.2 = (either L M).after (.key m.1) [] m.2 := rfl
      rcases h.after_key m.1 with ⟨heq, hnone⟩ | ⟨heq, hnone⟩
      · have hbelow : ∀ s path value, L.after (.key m.1) (s :: path) value = false := fun s path value => hnone _ _
        rw [removedAt, removedAt, pruned, happ, heq, hnone, prune_empty hbelow, removed_empty hbelow]
        simp only [removedMembers_eq, false_eq_true, if_false, toList_some, map_cons, map_nil,
          sum_cons, sum_nil, Nat.zero_add, Nat.add_zero, removedAt]
        rfl
      · have hbelow : ∀ s path value, M.after (.key m.1) (s :: path) value = false := fun s path value => hnone _ _
        rw [removedAt, removedAt, pruned, happ, heq]
        cases hl : L [.key m.1] m.2 <;> simp [removedMembers_eq, removedAt, Place.after, hl, hnone]
        exact removed_empty hbelow _
    have hsplit : removedMembers M ((m :: o).filterMap (pruned L)) =
        removedMembers M (pruned L m).toList + removedMembers M (o.filterMap (pruned L)) := by
      rw [filterMap_cons]
      cases pruned L m <;> simp [removedMembers_eq]
    rw [removedMembers_eq, map_cons, sum_cons, hone, hsplit, removedMembers_eq L, map_cons, sum_cons]
    rw [removedMembers_eq, removedMembers_eq L] at ih
    omega

/-! ## Lists of listings -/

theorem Headed.apart {name : String} (hL : Headed name L)
    (hM : ∀ k path value, M (.key k :: path) value = true → sameName k name = false) : Apart L M := by
  intro k
  cases hk : sameName k name with
  | false =>
    left
    intro path value
    cases hl : L (.key k :: path) value with
    | false => rfl
    | true => rw [hL k path value hl] at hk; cases hk
  | true =>
    right
    intro path value
    cases hm : M (.key k :: path) value with
    | false => rfl
    | true => rw [hM k path value hm] at hk; cases hk

theorem keysFirst_oneOf {Ls : List Place} (h : ∀ L ∈ Ls, KeysFirst L) : KeysFirst (oneOf Ls) where
  root := by
    intro value
    rw [oneOf, List.any_eq_false]
    intro L hL
    simp [(h L hL).root]
  item := by
    intro x path value
    rw [oneOf, List.any_eq_false]
    intro L hL
    simp [(h L hL).item]

section

variable {parts : List (String × Place)} {name : String} {L : Place}

theorem Listing.apart_oneOf (hL : Listing name L) (h : ∀ part ∈ parts, Listing part.1 part.2)
    (hname : foldName name ∉ parts.map (fun part => foldName part.1)) : Apart L (oneOf (parts.map (·.2))) := by
  refine hL.headed.apart ?_
  intro k path value hlisted
  rw [oneOf, List.any_map, List.any_eq_true] at hlisted
  obtain ⟨part, hpart, hin⟩ := hlisted
  have hother := (h part hpart).headed k path value hin
  cases hk : sameName k name with
  | false => rfl
  | true =>
    have hsame : foldName part.1 = foldName name := (sameName_iff.mp hother).symm.trans (sameName_iff.mp hk)
    exact absurd (List.mem_map.mpr ⟨part, hpart, hsame⟩) hname

theorem settled_oneOf (h : ∀ part ∈ parts, Listing part.1 part.2)
    (hnames : (parts.map (fun part => foldName part.1)).Nodup) : Settled (oneOf (parts.map (·.2))) := by
  induction parts with
  | nil => exact ⟨fun _ _ _ _ _ hl => absurd hl (by simp [oneOf]), fun _ _ _ _ => rfl⟩
  | cons part parts ih =>
    rw [map_cons, nodup_cons] at hnames
    have hhead := h part mem_cons_self
    have htail : ∀ other ∈ parts, Listing other.1 other.2 := fun other hother => h other (.tail _ hother)
    have hkeys : KeysFirst (oneOf (parts.map (·.2))) := by
      refine keysFirst_oneOf fun M hM => ?_
      obtain ⟨other, hother, rfl⟩ := mem_map.mp hM
      exact (htail other hother).keysFirst
    exact settled_either hhead.settled (ih htail hnames.2) hhead.keysFirst hkeys (hhead.apart_oneOf htail hnames.1)

end

/-! ## Lists that keep their items -/

/-- No item of a list is listed itself. -/
def KeepsItems (L : Place) : Prop := ∀ path x value, L (path ++ [.item x]) value = false

theorem keepsItems_named (name : String) (test : Json → Bool) : KeepsItems (named name test) := by
  intro path x value
  match path with
  | [] => rfl
  | [s] => cases s <;> rfl
  | s :: t :: path => cases s <;> rfl

theorem keepsItems_within (name : String) (h : KeepsItems L) : KeepsItems (within name L) := by
  intro path x value
  match path with
  | [] => rfl
  | .item y :: path => rfl
  | .key k :: path =>
    show (sameName k name && L (path ++ [.item x]) value) = false
    rw [h path x value, Bool.and_false]

theorem keepsItems_eachItem {L : Json → Place} (h : ∀ x, KeepsItems (L x)) (hroot : ∀ x value, L x [] value = false) :
    KeepsItems (eachItem L) := by
  intro path x value
  match path with
  | [] => exact hroot x value
  | .key k :: path => rfl
  | .item y :: path => exact h y path x value

theorem keepsItems_oneOf {Ls : List Place} (h : ∀ L ∈ Ls, KeepsItems L) : KeepsItems (oneOf Ls) := by
  intro path x value
  rw [oneOf, List.any_eq_false]
  intro L hL
  simp [h L hL path x value]

end Waterdisco
