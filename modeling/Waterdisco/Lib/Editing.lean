import Waterdisco.Lib.Prune

/-!
# Edits that take values out

An edit walks over an object and reports what it takes out.  It cleans a place when its
result is the pruned object, it says whether anything went, and it reports once for each
value taken out.  Edits of different names, one after the other, clean all their places.

    edits clean Ls  →  inTurn edits cleans oneOf Ls          (cleaned_inTurn)
-/

namespace Waterdisco

open List Nat Option

/-! ## Proper objects -/

def units (c : Char) : List Nat :=
  if c.toNat < 0x10000 then [c.toNat]
  else [0xd800 + (c.toNat - 0x10000) / 0x400, 0xdc00 + (c.toNat - 0x10000) % 0x400]

/-- The order of keys is that of their UTF-16 code units. -/
def utf16 (s : String) : List Nat := s.toList.flatMap units

def sortedKeys {V : Type*} (o : Members V) : Prop := (keysOf o).Pairwise fun a b => utf16 a < utf16 b

instance {V : Type*} (o : Members V) : Decidable (sortedKeys o) :=
  inferInstanceAs (Decidable ((keysOf o).Pairwise fun a b => utf16 a < utf16 b))

theorem sortedKeys.nodup {V : Type*} {o : Members V} (h : sortedKeys o) : (keysOf o).Nodup :=
  List.Pairwise.imp (fun {a b} hlt (heq : a = b) => List.lt_irrefl (utf16 a) (heq ▸ hlt)) h

mutual

/-- Every object in the document has its keys in order, each once. -/
def proper : Json → Bool
  | .obj members => decide (sortedKeys members) && properMembers members
  | .arr items => properItems items
  | _ => true

def properItems : List Json → Bool
  | [] => true
  | x :: items => proper x && properItems items

def properMembers : Members Json → Bool
  | [] => true
  | m :: members => properMember m && properMembers members

def properMember : String × Json → Bool
  | (_, value) => proper value

end

/-- An object as a parser hands it over. -/
structure JsonObject where
  members : Members Json
  ok : proper (.obj members) = true

theorem properItems_iff {items : List Json} : properItems items = true ↔ ∀ x ∈ items, proper x = true := by
  induction items with
  | nil => simp [properItems]
  | cons x items ih => simp [properItems, ih]

theorem properMembers_iff {o : Members Json} : properMembers o = true ↔ ∀ m ∈ o, proper m.2 = true := by
  induction o with
  | nil => simp [properMembers]
  | cons m o ih =>
    obtain ⟨key, value⟩ := m
    simp [properMembers, properMember, ih]

theorem proper_obj_iff {o : Members Json} :
    proper (.obj o) = true ↔ sortedKeys o ∧ ∀ m ∈ o, proper m.2 = true := by
  rw [proper, Bool.and_eq_true, decide_eq_true_iff, properMembers_iff]

theorem proper_toObject {v : Json} (h : proper v = true) : proper (.obj v.toObject) = true := by
  cases v with
  | obj members => exact h
  | _ => rfl

theorem keysOf_filterMap_sublist {L : Place} (o : Members Json) :
    (keysOf (o.filterMap (pruned L))).Sublist (keysOf o) := by
  induction o with
  | nil => exact Sublist.refl _
  | cons m o ih =>
    rw [filterMap_cons, pruned]
    split
    · rename_i heq
      split at heq
      · exact ih.cons _
      · cases heq
    · rename_i m' heq
      split at heq
      · cases heq
      · rw [← some.inj heq]
        exact ih.cons_cons _

theorem proper_prune {j : Json} (L : Place) (h : proper j = true) : proper (prune L j) = true := by
  induction j using Json.induct generalizing L with
  | null | bool | num | double | str => rfl
  | arr items ih =>
    rw [proper, properItems_iff] at h
    rw [prune, proper, properItems_iff, pruneItems_eq]
    intro y hy
    obtain ⟨x, hx, hxy⟩ := mem_filterMap.mp hy
    rw [prunedItem] at hxy
    split at hxy
    · cases hxy
    · rw [← some.inj hxy]
      exact ih x hx _ (h x hx)
  | obj members ih =>
    rw [proper_obj_iff] at h
    rw [prune, proper_obj_iff, pruneMembers_eq]
    refine ⟨h.1.sublist (keysOf_filterMap_sublist members), ?_⟩
    intro m' hm'
    obtain ⟨m, hm, heq⟩ := mem_filterMap.mp hm'
    rw [pruned] at heq
    split at heq
    · cases heq
    · rw [← some.inj heq]
      exact ih m hm _ (h.2 m hm)

/-! ## Depth -/

mutual

def depth : Json → Nat
  | .obj members => depthMembers members + 1
  | .arr items => depthItems items + 1
  | _ => 0

def depthItems : List Json → Nat
  | [] => 0
  | x :: items => max (depth x) (depthItems items)

def depthMembers : Members Json → Nat
  | [] => 0
  | m :: members => max (depthMember m) (depthMembers members)

def depthMember : String × Json → Nat
  | (_, value) => depth value

end

theorem depthItems_le_iff {items : List Json} {n : Nat} : depthItems items ≤ n ↔ ∀ x ∈ items, depth x ≤ n := by
  induction items with
  | nil => simp [depthItems]
  | cons x items ih =>
    rw [depthItems, Nat.max_le, ih]
    simp

theorem depthMembers_le_iff {o : Members Json} {n : Nat} : depthMembers o ≤ n ↔ ∀ m ∈ o, depth m.2 ≤ n := by
  induction o with
  | nil => simp [depthMembers]
  | cons m o ih =>
    rw [depthMembers, Nat.max_le, ih, depthMember]
    simp

theorem depth_prune_le (L : Place) (j : Json) : depth (prune L j) ≤ depth j := by
  induction j using Json.induct generalizing L with
  | null | bool | num | double | str => exact .refl
  | arr items ih =>
    refine succ_le_succ (depthItems_le_iff.mpr ?_)
    rw [pruneItems_eq]
    intro y hy
    obtain ⟨x, hx, hxy⟩ := mem_filterMap.mp hy
    rw [prunedItem] at hxy
    split at hxy
    · cases hxy
    · rw [← some.inj hxy]
      exact le_trans (ih x hx _) (depthItems_le_iff.mp (.refl) x hx)
  | obj members ih =>
    refine succ_le_succ (depthMembers_le_iff.mpr ?_)
    rw [pruneMembers_eq]
    intro m' hm'
    obtain ⟨m, hm, heq⟩ := mem_filterMap.mp hm'
    rw [pruned] at heq
    split at heq
    · cases heq
    · rw [← some.inj heq]
      exact le_trans (ih m hm _) (depthMembers_le_iff.mp (.refl) m hm)

/-! ## Cleaning -/

section

variable {ι : Type*} {good : ι → Prop}

/-- An object cleaned of what is listed, with one good report for each value taken out. -/
structure Cleaned (good : ι → Prop) (L : Place) (o : Members Json) (e : Edited Json ι) : Prop where
  members : e.members = pruneMembers L o
  changed : e.changed = (removedMembers L o != 0)
  counted : e.issues.length = removedMembers L o
  reported : ∀ issue ∈ e.issues, good issue

/-- An edit that cleans every proper object up to a depth. -/
def Cleans (good : ι → Prop) (n : Nat) (L : Place) (edit : Members Json → Edited Json ι) : Prop :=
  ∀ o, proper (.obj o) = true → depthMembers o ≤ n → Cleaned good L o (edit o)

variable {n : Nat} {L : Place} {o : Members Json}

theorem Cleans.mono {k : Nat} {edit : Members Json → Edited Json ι} (h : Cleans good n L edit)
    (hle : k ≤ n) : Cleans good k L edit :=
  fun o ho hdepth => h o ho (le_trans hdepth hle)

variable (ho : proper (.obj o) = true)

include ho

/-- A walk cleans a place when it settles each member as the place says. -/
theorem cleaned_visitKeys (p : String → Bool)
    (fate : String → Json → Fate Json × List ι) (hsettle : ∀ m ∈ o, settle p fate m = pruned L m)
    (htouch : ∀ m ∈ o, touches p fate m = (removedAt L m != 0))
    (hcount : ∀ m ∈ o, (noted p fate m).length = removedAt L m)
    (hgood : ∀ m ∈ o, ∀ issue ∈ noted p fate m, good issue) :
    Cleaned good L o (visitKeys fate ((keysOf o).filter p) ⟨o, false, []⟩) := by
  rw [visitKeys_eq p fate o (proper_obj_iff.mp ho).1.nodup]
  refine ⟨?_, ?_, ?_, ?_⟩
  · rw [pruneMembers_eq]
    exact filterMap_congr hsettle
  · show o.any (touches p fate) = _
    cases hany : o.any (touches p fate) with
    | false =>
      rw [List.any_eq_false] at hany
      have hzero : removedMembers L o = 0 := by
        rw [removedMembers_eq, List.sum_eq_zero_iff_forall_eq_nat]
        intro k hk
        obtain ⟨m, hm, rfl⟩ := mem_map.mp hk
        have hm' := hany m hm
        rw [htouch m hm] at hm'
        simpa using hm'
      rw [hzero]
      rfl
    | true =>
      rw [List.any_eq_true] at hany
      obtain ⟨m, hm, hm'⟩ := hany
      rw [htouch m hm, bne_iff_ne] at hm'
      symm
      rw [bne_iff_ne, removedMembers_eq]
      intro hzero
      rw [List.sum_eq_zero_iff_forall_eq_nat] at hzero
      exact hm' (hzero _ (mem_map.mpr ⟨m, hm, rfl⟩))
  · show (o.flatMap (noted p fate)).length = _
    rw [removedMembers_eq, length_flatMap, map_congr_left hcount]
  · intro issue hissue
    obtain ⟨m, hm, hin⟩ := mem_flatMap.mp hissue
    exact hgood m hm issue hin

/-- A walk that drops the members a test finds, with one report for each. -/
theorem cleaned_drop (p : String → Bool)
    (test : String → Json → Bool) (issue : String → Json → ι)
    (hlisted : ∀ k value, L [.key k] value = (p k && test k value))
    (hbelow : ∀ k s path value, L (.key k :: s :: path) value = false) (hgood : ∀ k value, good (issue k value)) :
    Cleaned good L o (visitKeys (fun k value => if test k value then (.drop, [issue k value]) else (.keep, []))
      ((keysOf o).filter p) ⟨o, false, []⟩) := by
  have hprune : ∀ k value, prune (L.after (.key k)) value = value :=
    fun k value => prune_empty (fun s path below => hbelow k s path below) value
  have hremoved : ∀ k value, removed (L.after (.key k)) value = 0 :=
    fun k value => removed_empty (fun s path below => hbelow k s path below) value
  refine cleaned_visitKeys ho p _ ?_ ?_ ?_ ?_
  · intro m _
    cases hp : p m.1 <;> cases ht : test m.1 m.2 <;> simp [settle, pruned, hlisted, hprune, hp, ht, Fate.left]
  · intro m _
    cases hp : p m.1 <;> cases ht : test m.1 m.2 <;> simp [touches, removedAt, hlisted, hremoved, hp, ht, Fate.changes]
  · intro m _
    cases hp : p m.1 <;> cases ht : test m.1 m.2 <;> simp [noted, removedAt, hlisted, hremoved, hp, ht]
  intro m _ found hfound
  cases hp : p m.1 <;> cases ht : test m.1 m.2 <;> simp [noted, hp, ht] at hfound
  rw [hfound]
  exact hgood m.1 m.2

/-- What a walk does with one value cleans it of what is listed inside. -/
structure Cleared (good : ι → Prop) (L : Place) (value : Json) (r : Fate Json × List ι) : Prop where
  left : r.1.left value = some (prune L value)
  changes : r.1.changes = (removed L value != 0)
  counted : r.2.length = removed L value
  reported : ∀ issue ∈ r.2, good issue

theorem cleaned_within (name : String)
    (hroot : ∀ value, L [] value = false) (fate : String → Json → Fate Json × List ι)
    (h : ∀ m ∈ o, Cleared good L m.2 (fate m.1 m.2)) : Cleaned good (within name L) o (forNamed o name fate) := by
  have hsame : ∀ k, sameName k name = true → (within name L).after (.key k) = L := by
    intro k hk
    funext path value
    simp [Place.after, within, hk]
  have hother : ∀ k, sameName k name = false → ∀ s path value,
    (within name L).after (.key k) (s :: path) value = false := by
    intro k hk s path value
    simp [Place.after, within, hk]
  have hkey : ∀ k value, within name L [.key k] value = false := by
    simp [within, hroot]
  refine cleaned_visitKeys ho (sameName · name) fate ?_ ?_ ?_ ?_
  · intro m hm
    cases hk : sameName m.1 name with
    | true => simp [settle, pruned, hkey, hk, hsame m.1 hk, (h m hm).left]
    | false => simp [settle, pruned, hkey, hk, prune_empty (hother m.1 hk)]
  · intro m hm
    cases hk : sameName m.1 name with
    | true => simp [touches, removedAt, hkey, hk, hsame m.1 hk, (h m hm).changes]
    | false => simp [touches, removedAt, hkey, hk, removed_empty (hother m.1 hk)]
  · intro m hm
    cases hk : sameName m.1 name with
    | true => simp [noted, removedAt, hkey, hk, hsame m.1 hk, (h m hm).counted]
    | false => simp [noted, removedAt, hkey, hk, removed_empty (hother m.1 hk)]
  · intro m hm issue hissue
    cases hk : sameName m.1 name with
    | true =>
      simp only [noted, hk, if_true] at hissue
      exact (h m hm).reported issue hissue
    | false => simp [noted, hk] at hissue

omit ho

theorem removed_toObject (h : KeysFirst L) (value : Json) :
    removed L value = removedMembers L value.toObject := by
  cases value with
  | obj members => rfl
  | arr items =>
    exact removedItems_eq_zero.mpr fun x _ => ⟨h.item x [] x, removed_empty (fun s path below => h.item _ _ _) x⟩
  | _ => rfl

theorem prune_toObject (h : KeysFirst L) (value : Json) :
    prune L value = if removedMembers L value.toObject != 0 then .obj (pruneMembers L value.toObject) else value := by
  split
  · rename_i hsome
    cases value with
    | obj members => rfl
    | _ => simp [Json.toObject, removedMembers] at hsome
  · rename_i hnone
    refine prune_of_removed_eq_zero ?_
    rw [removed_toObject h]
    simpa using hnone

def inTurn : List (Members Json → Edited Json ι) → Members Json → Edited Json ι
  | [], o => { members := o }
  | edit :: edits, o =>
    let first := edit o
    let rest := inTurn edits first.members
    ⟨rest.members, first.changed || rest.changed, first.issues ++ rest.issues⟩

/-- A run of edits may be written out in a longer one. -/
theorem inTurn_flatten (edits more : List (Members Json → Edited Json ι)) (o : Members Json) :
    inTurn (inTurn edits :: more) o = inTurn (edits ++ more) o := by
  induction edits generalizing o with
  | nil => simp [inTurn]
  | cons edit edits ih =>
    have hrest := ih (edit o).members
    simp only [inTurn, cons_append] at hrest ⊢
    rw [← hrest]
    simp [Bool.or_assoc]

theorem Cleaned.andThen {M : Place} {first rest : Edited Json ι} (hL : Cleaned good L o first)
    (hM : Cleaned good M first.members rest) (hapart : Apart L M) :
    Cleaned good (either L M) o ⟨rest.members, first.changed || rest.changed, first.issues ++ rest.issues⟩ := by
  have hsum := removedMembers_either hapart o
  rw [← hL.members] at hsum
  refine ⟨?_, ?_, ?_, ?_⟩
  · show rest.members = _
    rw [hM.members, hL.members, pruneMembers_either hapart]
  · show (first.changed || rest.changed) = _
    rw [hL.changed, hM.changed, hsum]
    rcases Nat.eq_zero_or_pos (removedMembers L o) with hzero | hpos
    · rw [hzero, zero_add]
      rfl
    have hleft : (removedMembers L o != 0) = true := by
      rw [bne_iff_ne]
      omega
    have hboth : (removedMembers L o + removedMembers M first.members != 0) = true := by
      rw [bne_iff_ne]
      omega
    rw [hleft, hboth, Bool.true_or]
  · show (first.issues ++ rest.issues).length = _
    rw [length_append, hL.counted, hM.counted, hsum]
  · intro issue hissue
    rcases mem_append.mp hissue with hin | hin
    · exact hL.reported issue hin
    · exact hM.reported issue hin

/-- One edit among several, with the name and the place it is for. -/
structure Part (ι : Type*) where
  name : String
  place : Place
  edit : Members Json → Edited Json ι

/-- A part does its own work up to a depth. -/
structure Part.Sound (good : ι → Prop) (n : Nat) (part : Part ι) : Prop where
  listing : Listing part.name part.place
  cleans : Cleans good n part.place part.edit

theorem Part.Sound.mono {k : Nat} {part : Part ι} (h : part.Sound good n) (hle : k ≤ n) : part.Sound good k :=
  ⟨h.listing, h.cleans.mono hle⟩

theorem cleans_inTurn {parts : List (Part ι)} (h : ∀ part ∈ parts, part.Sound good n)
    (hnames : (parts.map (fun part => foldName part.name)).Nodup) :
    Cleans good n (oneOf (parts.map (·.place))) (inTurn (parts.map (·.edit))) := by
  induction parts with
  | nil =>
    intro o _ _
    have hzero : removedMembers (oneOf []) o = 0 := by
      have hempty := removed_empty (fun _ _ _ => rfl : ∀ s path value, oneOf [] (s :: path) value = false) (.obj o)
      simpa [removed] using hempty
    refine ⟨(pruneMembers_of_removed_eq_zero hzero).symm, ?_, ?_, ?_⟩
    · show false = (removedMembers (oneOf []) o != 0)
      rw [hzero]
      rfl
    · exact hzero.symm
    · intro issue hissue
      cases hissue
  | cons part parts ih =>
    intro o ho hdepth
    rw [map_cons, nodup_cons] at hnames
    have hhead := h part mem_cons_self
    have htail : ∀ other ∈ parts, other.Sound good n := fun other hother => h other (.tail _ hother)
    have hfirst := hhead.cleans o ho hdepth
    have ho' : proper (.obj (part.edit o).members) = true := by
      rw [hfirst.members]
      exact proper_prune part.place ho
    have hdepth' : depthMembers (part.edit o).members ≤ n := by
      have hle := depth_prune_le part.place (.obj o)
      rw [hfirst.members]
      exact le_trans (succ_le_succ_iff.mp hle) hdepth
    have hrest := ih htail hnames.2 _ ho' hdepth'
    have hapart : Apart part.place (oneOf (parts.map (·.place))) := by
      have hnames' : foldName part.name ∉ (parts.map fun q => (q.name, q.place)).map (fun q => foldName q.1) := by
        rw [List.map_map]
        exact hnames.1
      have hall : ∀ q ∈ parts.map (fun q => (q.name, q.place)), Listing q.1 q.2 := by
        intro q hq
        obtain ⟨other, hother, rfl⟩ := mem_map.mp hq
        exact (htail other hother).listing
      have hgoal := hhead.listing.apart_oneOf hall hnames'
      rwa [List.map_map] at hgoal
    exact hfirst.andThen hrest hapart

theorem settled_parts {parts : List (Part ι)} (h : ∀ part ∈ parts, part.Sound good n)
    (hnames : (parts.map (fun part => foldName part.name)).Nodup) : Settled (oneOf (parts.map (·.place))) := by
  have hall : ∀ q ∈ parts.map (fun q => (q.name, q.place)), Listing q.1 q.2 := by
    intro q hq
    obtain ⟨other, hother, rfl⟩ := List.mem_map.mp hq
    exact (h other hother).listing
  have hgoal := settled_oneOf hall (by rw [List.map_map]; exact hnames)
  rwa [List.map_map] at hgoal

end

end Waterdisco
