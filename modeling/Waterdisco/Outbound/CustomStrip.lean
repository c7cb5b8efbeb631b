import Waterdisco.Outbound.Custom

/-!
# What each loop of the sanitiser cleans

One lemma for each loop of custom.cpp: the places it takes values out of, as places of a
document.  A loop that edits inner objects cleans, inside the name, what the edit cleans.

    stripNamed        named name (not blank)                 (cleans_stripNamed)
    editObjectNamed   within name L                          (cleans_editObjectNamed)
    editListNamed     within name (eachItem L)               (cleans_editListNamed)
-/

namespace Waterdisco.Custom

open List Nat

def Issue.Warns (issue : Issue) : Prop := issue.severity = .warning

open Issue (Warns)

instance (issue : Issue) : Decidable issue.Warns := inferInstanceAs (Decidable (issue.severity = .warning))

def notBlank (value : Json) : Bool := !isBlank value

section

variable {n : Nat} {L : Place}

theorem cleans_stripThat (n : Nat) (name at' message : String) (test : Json → Bool) (shown : Json → String) :
    Cleans Warns n (named name test) (fun o => stripThat o name at' message test shown) := by
  intro o ho _
  let issue : String → Json → Issue :=
    fun key value => { severity := .warning, field := at' ++ key, message := message, value := shown value }
  have hwarns : ∀ key value, (issue key value).Warns := fun _ _ => rfl
  exact cleaned_drop ho (sameName · name) (fun _ value => test value) issue (fun _ _ => rfl) (fun _ _ _ _ => rfl) hwarns

variable {value : Json} {edit : Members Json → String → Edited Json Issue} (name at' : String)

theorem depth_toObject (h : depth value ≤ n + 1) : depthMembers value.toObject ≤ n := by
  cases value with
  | obj members => exact succ_le_succ_iff.mp h
  | _ => exact zero_le _

theorem Cleaned.cleared (hkeys : KeysFirst L) {e : Edited Json Issue}
    (h : Cleaned Warns L value.toObject e) :
    Cleared Warns L value (if e.changed then (.put (.obj e.members), e.issues) else (.keep, e.issues)) := by
  have hremoved := removed_toObject hkeys value
  have hprune := prune_toObject hkeys value
  rw [← h.changed, ← h.members] at hprune
  have hchanged : e.changed = (removed L value != 0) := by rw [h.changed, hremoved]
  have hcount : e.issues.length = removed L value := by rw [h.counted, hremoved]
  cases hc : e.changed with
  | true =>
    rw [hc] at hprune hchanged
    exact ⟨congrArg some hprune.symm, hchanged, hcount, h.reported⟩
  | false =>
    rw [hc] at hprune hchanged
    exact ⟨congrArg some hprune.symm, hchanged, hcount, h.reported⟩

theorem cleans_editInner (hkeys : KeysFirst L)
    (h : ∀ key, Cleans Warns n L (edit · key)) :
    Cleans Warns (n + 1) (within name L) (fun o => editInner o name edit) := by
  intro o ho hdepth
  refine cleaned_within ho name hkeys.root _ ?_
  intro m hm
  have hproper := proper_toObject ((proper_obj_iff.mp ho).2 m hm)
  have hshallow := depth_toObject (depthMembers_le_iff.mp hdepth m hm)
  exact Cleaned.cleared hkeys (h m.1 _ hproper hshallow)

theorem cleans_editObjectNamed
    (hkeys : KeysFirst L) (h : ∀ inner, Cleans Warns n L (edit · inner)) :
    Cleans Warns (n + 1) (within name L) (fun o => editObjectNamed o name at' edit) :=
  cleans_editInner name hkeys fun key => h (at' ++ key ++ ".")

/-! ## Lists -/

/-- The loop over the items: each is edited in its place. -/
structure ItemsCleaned (L : Place) (xs : List Json) (r : List Json × Bool × List Issue) : Prop where
  items : r.1 = pruneItems L xs
  changed : r.2.1 = (removedItems L xs != 0)
  counted : r.2.2.length = removedItems L xs
  reported : ∀ issue ∈ r.2.2, issue.Warns

theorem editItems_cleaned {L : Json → Place} {label : String}
    {items : List Json} (hkeys : ∀ x, KeysFirst (L x))
    (h : ∀ x ∈ items, ∀ at', Cleaned Warns (L x) x.toObject (edit x.toObject at')) (i : Nat) :
    ItemsCleaned (eachItem L) items (editItems edit label i items) := by
  induction items generalizing i with
  | nil => exact ⟨rfl, rfl, rfl, fun _ hin => absurd hin not_mem_nil⟩
  | cons x items ih =>
    have hrest := ih (fun y hy => h y (.tail _ hy)) (i + 1)
    have hitem := h x (.head _) (label ++ "[" ++ toString i ++ "].")
    have hcleared := Cleaned.cleared (hkeys x) hitem
    have hafter : (eachItem L).after (.item x) = L x := rfl
    have hhere : eachItem L [.item x] x = false := (hkeys x).root x
    generalize hedit : edit x.toObject (label ++ "[" ++ toString i ++ "].") = e at hcleared hitem
    have hx : (if e.changed then Json.obj e.members else x) = prune (L x) x := by
      have hleft := hcleared.left
      cases hc : e.changed <;> rw [hc] at hleft <;> exact Option.some.inj hleft
    have hchanged : e.changed = (removed (L x) x != 0) := by rw [hitem.changed, removed_toObject (hkeys x)]
    have hcount : e.issues.length = removed (L x) x := by rw [hitem.counted, removed_toObject (hkeys x)]
    have hsum : removedItems (eachItem L) (x :: items) = removed (L x) x + removedItems (eachItem L) items := by
      rw [removedItems, hhere, hafter]
      rfl
    refine ⟨?_, ?_, ?_, ?_⟩
    · rw [editItems, hedit]
      rw [hx, hrest.items, pruneItems, hhere, hafter]
      rfl
    · rw [editItems, hedit]
      rw [hchanged, hrest.changed, hsum]
      cases removed (L x) x with
      | zero => rw [zero_add]; rfl
      | succ k => rw [add_right_comm]; rfl
    · rw [editItems, hedit]
      rw [length_append, hcount, hrest.counted, hsum]
    · intro issue hissue
      rw [editItems, hedit] at hissue
      rcases mem_append.mp hissue with hin | hin
      · exact hitem.reported issue hin
      · exact hrest.reported issue hin

theorem removed_toArray {L : Place} (hobj : ∀ k path value, L (.key k :: path) value = false) (value : Json) :
    removed L value = removedItems L value.toArray := by
  cases value with
  | arr items => rfl
  | obj members =>
    exact removedMembers_eq_zero.mpr fun m _ => ⟨hobj m.1 [] m.2, removed_empty (fun s path below => hobj _ _ _) m.2⟩
  | _ => rfl

/-- An edit of the items, written back when it changed something. -/
theorem ItemsCleaned.cleared {L : Place} (hobj : ∀ k path value, L (.key k :: path) value = false)
    {r : List Json × Bool × List Issue} (h : ItemsCleaned L value.toArray r) :
    Cleared Warns L value (if r.2.1 then (.put (.arr r.1), r.2.2) else (.keep, r.2.2)) := by
  have hremoved := removed_toArray hobj value
  have hchanged : r.2.1 = (removed L value != 0) := by rw [h.changed, hremoved]
  have hcount : r.2.2.length = removed L value := by rw [h.counted, hremoved]
  cases hc : r.2.1 with
  | true =>
    rw [hc] at hchanged
    have hprune : prune L value = .arr r.1 := by
      cases value with
      | arr items => rw [prune, h.items]; rfl
      | _ => rw [hremoved] at hchanged; simp [Json.toArray, removedItems] at hchanged
    exact ⟨congrArg some hprune.symm, hchanged, hcount, h.reported⟩
  | false =>
    rw [hc] at hchanged
    have hzero : removed L value = 0 := by simpa using hchanged.symm
    exact ⟨congrArg some (prune_of_removed_eq_zero hzero).symm, hchanged, hcount, h.reported⟩

theorem cleans_editListNamed {L : Json → Place}
    (hkeys : ∀ x, KeysFirst (L x))
    (h : ∀ x at', proper x = true → depth x ≤ n → Cleaned Warns (L x) x.toObject (edit x.toObject at')) :
    Cleans Warns (n + 1) (within name (eachItem L)) (fun o => editListNamed o name at' edit) := by
  intro o ho hdepth
  refine cleaned_within ho name (fun _ => rfl) _ ?_
  intro m hm
  have hproper : ∀ x ∈ m.2.toArray, proper x = true := by
    have hv := (proper_obj_iff.mp ho).2 m hm
    cases hval : m.2 with
    | arr items =>
      rwa [hval, proper, properItems_iff] at hv
    | _ => exact fun x hx => absurd hx not_mem_nil
  have hshallow : ∀ x ∈ m.2.toArray, depth x ≤ n := by
    have hv := depthMembers_le_iff.mp hdepth m hm
    cases hval : m.2 with
    | arr items =>
      rw [hval, depth] at hv
      exact depthItems_le_iff.mp (succ_le_succ_iff.mp hv)
    | _ => exact fun x hx => absurd hx not_mem_nil
  exact ItemsCleaned.cleared (fun _ _ _ => rfl)
    (editItems_cleaned hkeys (fun x hx inner => h x inner (hproper x hx) (hshallow x hx)) 0)

theorem cleans_editListNamed_same
    (hkeys : KeysFirst L) (h : ∀ inner, Cleans Warns n L (edit · inner)) :
    Cleans Warns (n + 1) (within name (eachItem fun _ => L)) (fun o => editListNamed o name at' edit) := by
  refine cleans_editListNamed name at' (fun _ => hkeys) ?_
  intro x inner hproper hdepth
  exact h inner _ (proper_toObject hproper) (depth_toObject (le_succ_of_le hdepth))

/-! ## Edits with their places -/

/-- An edit that cleans a settled place of an object, wherever the object stands. -/
structure Cleaner (n : Nat) (L : Place) (edit : Members Json → String → Edited Json Issue) : Prop where
  settled : Settled L
  keysFirst : KeysFirst L
  cleans : ∀ at', Cleans Warns n L (edit · at')

theorem sound_stripThat (n : Nat) (name at' message : String) (test : Json → Bool) (shown : Json → String) :
    Part.Sound Warns n ⟨name, named name test, fun o => stripThat o name at' message test shown⟩ :=
  ⟨listing_named name test, cleans_stripThat n name at' message test shown⟩

theorem sound_stripNamed (n : Nat) (name at' message : String) (showValue : Bool) :
    Part.Sound Warns n ⟨name, named name notBlank, fun o => stripNamed o name at' message showValue⟩ :=
  sound_stripThat n name at' message notBlank _

theorem cleaner_stripThat (n : Nat) (name message : String) (test : Json → Bool) (shown : Json → String) :
    Cleaner n (named name test) (fun o at' => stripThat o name at' message test shown) :=
  ⟨(listing_named name test).settled, (listing_named name test).keysFirst,
    fun at' => cleans_stripThat n name at' message test shown⟩

theorem cleaner_stripNamed (n : Nat) (name message : String) (showValue : Bool) :
    Cleaner n (named name notBlank) (fun o at' => stripNamed o name at' message showValue) :=
  cleaner_stripThat n name message notBlank _

theorem Cleaner.sound (h : Cleaner n L edit) (name at' : String) :
    Part.Sound Warns (n + 1) ⟨name, within name L, fun o => editObjectNamed o name at' edit⟩ :=
  ⟨listing_within name h.settled, cleans_editObjectNamed name at' h.keysFirst h.cleans⟩

theorem Cleaner.soundList (h : Cleaner n L edit) (name at' : String) :
    Part.Sound Warns (n + 1) ⟨name, within name (eachItem fun _ => L), fun o => editListNamed o name at' edit⟩ :=
  ⟨listing_within name (settled_eachItem (fun _ => h.settled) (fun _ => rfl)),
    cleans_editListNamed_same name at' h.keysFirst h.cleans⟩

theorem Cleaner.within (h : Cleaner n L edit) (name : String) :
    Cleaner (n + 1) (within name L) (fun o at' => editObjectNamed o name at' edit) :=
  ⟨(listing_within name h.settled).settled, (listing_within name h.settled).keysFirst,
    fun at' => cleans_editObjectNamed name at' h.keysFirst h.cleans⟩

theorem cleaner_inTurn (parts : String → List (Part Issue)) (names : List String) {places : List Place}
    (hplaces : ∀ at', (parts at').map (·.place) = places) (hparts : ∀ at', (parts at').map (·.name) = names)
    (hnames : (names.map foldName).Nodup) (h : ∀ at', ∀ part ∈ parts at', part.Sound Warns n) :
    Cleaner n (oneOf places) (fun o at' => inTurn ((parts at').map (·.edit)) o) := by
  have hfolded : ∀ at', ((parts at').map (fun part => foldName part.name)).Nodup := by
    intro at'
    rwa [← hparts at', map_map] at hnames
  refine ⟨hplaces "" ▸ settled_parts (h "") (hfolded ""), ?_,
    fun at' => hplaces at' ▸ cleans_inTurn (h at') (hfolded at')⟩
  refine keysFirst_oneOf fun M hM => ?_
  rw [← hplaces ""] at hM
  obtain ⟨part, hpart, rfl⟩ := mem_map.mp hM
  exact (h "" part hpart).listing.keysFirst

end

/-! ## A whole profile -/

section

variable {Text : Type*} (codec : Codec Text) (isLoopback : String → Bool) {L : Place} {custom : Profile Text}

def Profile.root (custom : Profile Text) : Members Json := (codec.read custom.config).members

theorem stripForeignState_type (issues : List Issue) :
    (stripForeignState codec isLoopback custom issues).1.type = custom.type := by
  rw [stripForeignState]
  split <;> rfl

variable (hclean : Cleaned Warns L (custom.root codec) (stripRoot isLoopback custom.type (custom.root codec)))

include hclean

/-- The text that is left holds the pruned object. -/
theorem stripForeignState_root (issues : List Issue) :
    (stripForeignState codec isLoopback custom issues).1.root codec = pruneMembers L (custom.root codec) := by
  have hproper : proper (.obj (pruneMembers L (custom.root codec))) = true :=
    proper_prune L (codec.read custom.config).ok
  show ((if (stripRoot isLoopback custom.type (custom.root codec)).changed then _ else custom) : Profile Text).root codec = _
  split
  · show (codec.read (codec.write (stripRoot isLoopback custom.type (custom.root codec)).members)).members = _
    rw [hclean.members, codec.read_write _ hproper]
  rename_i hsame
  rw [hclean.changed] at hsame
  exact (pruneMembers_of_removed_eq_zero (by simpa using hsame)).symm

theorem stripForeignState_issues (issues : List Issue) :
    ∃ new, (stripForeignState codec isLoopback custom issues).2 = issues ++ new ∧
      new.length = removedMembers L (custom.root codec) ∧ ∀ issue ∈ new, issue.Warns :=
  ⟨_, rfl, hclean.counted, hclean.reported⟩

theorem stripForeignState_noneLeft (hsettled : Settled L) (issues : List Issue) :
    NoneLeft L (.obj ((stripForeignState codec isLoopback custom issues).1.root codec)) := by
  rw [stripForeignState_root codec isLoopback hclean]
  exact noneLeft_of_removed (removed_prune hsettled (.obj (custom.root codec)))

/-- A profile of which nothing is left to take out is left alone. -/
theorem stripForeignState_of_none (hnone : removedMembers L (custom.root codec) = 0) (issues : List Issue) :
    stripForeignState codec isLoopback custom issues = (custom, issues) := by
  have hsame : (stripRoot isLoopback custom.type (custom.root codec)).changed = false := by
    rw [hclean.changed, hnone]
    rfl
  have hquiet : (stripRoot isLoopback custom.type (custom.root codec)).issues = [] := by
    rw [← length_eq_zero_iff, hclean.counted, hnone]
  show ((if (stripRoot isLoopback custom.type (custom.root codec)).changed then _ else custom),
    issues ++ (stripRoot isLoopback custom.type (custom.root codec)).issues) = (custom, issues)
  rw [hsame, hquiet, append_nil]
  rfl

theorem stripForeignState_again (hsettled : Settled L)
    (hagain : Cleaned Warns L (pruneMembers L (custom.root codec))
      (stripRoot isLoopback custom.type (pruneMembers L (custom.root codec)))) (issues later : List Issue) :
    stripForeignState codec isLoopback (stripForeignState codec isLoopback custom issues).1 later =
      ((stripForeignState codec isLoopback custom issues).1, later) := by
  have htype : (stripForeignState codec isLoopback custom issues).1.type = custom.type :=
    stripForeignState_type codec isLoopback issues
  have hroot := stripForeignState_root codec isLoopback hclean issues
  have hzero : removedMembers L (pruneMembers L (custom.root codec)) = 0 := by
    have hnone := removed_prune hsettled (.obj (custom.root codec))
    rwa [prune, removed] at hnone
  refine stripForeignState_of_none codec isLoopback ?_ ?_ later (L := L)
  · rw [hroot, htype]
    exact hagain
  · rw [hroot]
    exact hzero

end

end Waterdisco.Custom
