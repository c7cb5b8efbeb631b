import Waterdisco.Route.Rules

/-!
# Raw routes

A raw route names profiles by numbers: every number under a key `outbound` or `final`, at any
depth.  `look` is the value at a position with the key it stands under.

    collectRawOutboundIds lists the numbers, each once; translateRawOutbounds puts a tag in
      place of each and leaves everything else                   (rawOutbounds_contract)
-/

namespace Waterdisco.Route

open Config List

/-! ## Positions -/

/-- What an object or a list holds, with the keys. -/
def entries : Json → List (Option String × Json)
  | .obj members => members.map fun m => (some m.1, m.2)
  | .arr items => items.map fun x => (none, x)
  | _ => []

/-- The value at a position below a value, with the key it stands under. -/
def look (node : Option String × Json) : List Nat → Option (Option String × Json)
  | [] => some node
  | i :: path =>
    match (entries node.2)[i]? with
    | none => none
    | some next => look next path

/-- A value without what it holds: the keys of an object, the length of a list. -/
def frame : Json → Json
  | .obj members => .obj (members.map fun m => (m.1, .null))
  | .arr items => .arr (items.map fun _ => .null)
  | value => value

/-- A number that names an outbound. -/
def isSlot : Option String × Json → Bool
  | (some key, value) => isRawOutbound key value
  | (none, _) => false

/-- The id is named at or below a value. -/
def Names (node : Option String × Json) (id : Int) : Prop :=
  ∃ path value, look node path = some value ∧ isSlot value = true ∧ rawToInt value.2 = id

theorem entries_of_slot {node : Option String × Json} (h : isSlot node = true) : entries node.2 = [] := by
  obtain ⟨key, value⟩ := node
  cases key with
  | none => cases h
  | some key =>
    cases value with
    | arr items => simp [isSlot, isRawOutbound] at h
    | obj members => simp [isSlot, isRawOutbound] at h
    | _ => rfl

theorem names_iff {node : Option String × Json} {id : Int} :
    Names node id ↔ (isSlot node = true ∧ rawToInt node.2 = id) ∨ ∃ next ∈ entries node.2, Names next id := by
  constructor
  · rintro ⟨path, value, hlook, hslot⟩
    cases path with
    | nil =>
      cases hlook
      exact .inl hslot
    | cons i path =>
      rw [look] at hlook
      split at hlook
      · cases hlook
      · next next hnext => exact .inr ⟨next, mem_of_getElem? hnext, path, value, hlook, hslot⟩
  · rintro (hslot | ⟨next, hmem, path, value, hlook, hslot⟩)
    · exact ⟨[], node, rfl, hslot⟩
    · obtain ⟨i, hi⟩ := mem_iff_getElem?.mp hmem
      refine ⟨i :: path, value, ?_, hslot⟩
      rw [look, hi]
      exact hlook

/-! ## Collecting -/

/-- `out'` is `out` and the ids of `P`, each once. -/
structure Collected (out out' : List Int) (P : Int → Prop) : Prop where
  nodup : out.Nodup → out'.Nodup
  mem : ∀ id, id ∈ out' ↔ id ∈ out ∨ P id

mutual

theorem collected_rec (j : Json) (out : List Int) :
    Collected out (collectRawOutboundIdsRec j out) fun id => ∃ next ∈ entries j, Names next id := by
  cases j with
  | obj members =>
    obtain ⟨hnodup, hmem⟩ := collected_members members out
    rw [collectRawOutboundIdsRec]
    exact ⟨hnodup, fun id => by rw [hmem]; simp only [entries, mem_map, exists_exists_and_eq_and]⟩
  | arr items =>
    obtain ⟨hnodup, hmem⟩ := collected_items items out
    rw [collectRawOutboundIdsRec]
    exact ⟨hnodup, fun id => by rw [hmem]; simp [entries]⟩
  | _ => exact ⟨id, fun id => by simp [collectRawOutboundIdsRec, entries]⟩

theorem collected_items (items : List Json) (out : List Int) :
    Collected out (collectRawItems items out) fun id => ∃ x ∈ items, Names (none, x) id := by
  cases items with
  | nil => exact ⟨id, fun id => by simp [collectRawItems]⟩
  | cons x rest =>
    obtain ⟨hnodup, hmem⟩ := collected_rec x out
    obtain ⟨hnodup', hmem'⟩ := collected_items rest (collectRawOutboundIdsRec x out)
    rw [collectRawItems]
    refine ⟨fun h => hnodup' (hnodup h), fun id => ?_⟩
    have hx : Names (none, x) id ↔ ∃ next ∈ entries x, Names next id := by
      rw [names_iff]
      simp [isSlot]
    rw [hmem', hmem, exists_mem_cons_iff, hx, or_assoc]

theorem collected_members (members : List (String × Json)) (out : List Int) :
    Collected out (collectRawMembers members out) fun id => ∃ m ∈ members, Names (some m.1, m.2) id := by
  cases members with
  | nil => exact ⟨id, fun id => by simp [collectRawMembers]⟩
  | cons m rest =>
    obtain ⟨hnodup, hmem⟩ := collected_member m out
    obtain ⟨hnodup', hmem'⟩ := collected_members rest (collectRawMember m out)
    rw [collectRawMembers]
    refine ⟨fun h => hnodup' (hnodup h), fun id => ?_⟩
    rw [hmem', hmem, exists_mem_cons_iff, or_assoc]

theorem collected_member (m : String × Json) (out : List Int) :
    Collected out (collectRawMember m out) fun id => Names (some m.1, m.2) id := by
  obtain ⟨key, value⟩ := m
  have hnames := @names_iff (some key, value)
  rw [collectRawMember]
  split
  · next hslot =>
    have hnone := @entries_of_slot (some key, value) hslot
    rw [hnone] at hnames
    split
    · next hin =>
      refine ⟨id, fun id => ?_⟩
      rw [hnames]
      constructor
      · exact .inl
      rintro (h | ⟨-, rfl⟩ | ⟨_, hmem, -⟩)
      · exact h
      · simpa using hin
      · cases hmem
    next hout =>
    refine ⟨fun h => ?_, fun id => ?_⟩
    · rw [nodup_append]
      exact ⟨h, by simp, fun a ha b hb => by
        rw [mem_singleton.mp hb]
        rintro rfl
        exact hout (by simpa using ha)⟩
    · rw [hnames, mem_append, mem_singleton]
      constructor
      · rintro (h | rfl)
        · exact .inl h
        · exact .inr (.inl ⟨hslot, rfl⟩)
      rintro (h | ⟨-, rfl⟩ | ⟨_, hmem, -⟩)
      · exact .inl h
      · exact .inr rfl
      · cases hmem
  · next hslot =>
    obtain ⟨hnodup, hmem⟩ := collected_rec value out
    refine ⟨hnodup, fun id => ?_⟩
    rw [hmem, hnames]
    constructor
    · exact Or.imp_right .inr
    rintro (h | ⟨h, -⟩ | h)
    · exact .inl h
    · exact absurd h hslot
    · exact .inr h

end

/-! ## Translating -/

section

variable (map : OutboundMap)

/-- What the translation leaves at a position. -/
def replaced (node : Option String × Json) : Option String × Json :=
  (node.1, if isSlot node then .str ((map.tag (rawToInt node.2)).getD Tags.proxy) else translateRawOutboundsRec map node.2)

theorem translateRawItems_eq (items : List Json) :
    translateRawItems map items = items.map (translateRawOutboundsRec map) := by
  induction items with
  | nil => rfl
  | cons x rest ih => rw [translateRawItems, ih, map_cons]

theorem translateRawMembers_eq (members : List (String × Json)) :
    translateRawMembers map members = members.map (translateRawMember map) := by
  induction members with
  | nil => rfl
  | cons m rest ih => rw [translateRawMembers, ih, map_cons]

theorem replaced_member (m : String × Json) :
    replaced map (some m.1, m.2) = (some (translateRawMember map m).1, (translateRawMember map m).2) := by
  obtain ⟨key, value⟩ := m
  rw [translateRawMember, replaced]
  have hsame : isSlot (some key, value) = isRawOutbound key value := rfl
  rw [hsame]
  by_cases hslot : isRawOutbound key value = true
  · rw [if_pos hslot, if_pos hslot]
  · rw [if_neg hslot, if_neg hslot]

theorem entries_translate (j : Json) : entries (translateRawOutboundsRec map j) = (entries j).map (replaced map) := by
  cases j with
  | obj members =>
    rw [translateRawOutboundsRec, translateRawMembers_eq, entries, entries, map_map, map_map]
    exact map_congr_left fun m _ => (replaced_member map m).symm
  | arr items =>
    rw [translateRawOutboundsRec, translateRawItems_eq, entries, entries, map_map, map_map]
    exact map_congr_left fun _ _ => rfl
  | _ => rfl

theorem look_replaced (path : List Nat) (node : Option String × Json) :
    look (replaced map node) path = (look node path).map (replaced map) := by
  induction path generalizing node with
  | nil => rfl
  | cons i path ih =>
    have hentries : entries (replaced map node).2 = (entries node.2).map (replaced map) := by
      rw [replaced]
      by_cases hslot : isSlot node = true
      · rw [if_pos hslot, entries_of_slot hslot]
        rfl
      · rw [if_neg hslot, entries_translate]
    rw [look, look, hentries, getElem?_map]
    cases (entries node.2)[i]? with
    | none => rfl
    | some next => exact ih next

theorem frame_translate (j : Json) : frame (translateRawOutboundsRec map j) = frame j := by
  cases j with
  | obj members =>
    rw [translateRawOutboundsRec, translateRawMembers_eq, frame, frame, map_map]
    refine congrArg Json.obj (map_congr_left fun m _ => ?_)
    have hkey := congrArg Prod.fst (replaced_member map m)
    exact Prod.ext (Option.some.inj hkey).symm rfl
  | arr items =>
    rw [translateRawOutboundsRec, translateRawItems_eq, frame, frame, map_map]
    rfl
  | _ => rfl

/-- No number is left under the keys. -/
theorem not_isSlot_replaced (node : Option String × Json) : isSlot (replaced map node) = false := by
  obtain ⟨key, value⟩ := node
  cases key with
  | none => rfl
  | some key =>
    rw [replaced]
    by_cases hslot : isSlot (some key, value) = true
    · rw [if_pos hslot]
      simp [isSlot, isRawOutbound]
    rw [if_neg hslot]
    cases value with
    | num n => simpa [isSlot, translateRawOutboundsRec] using hslot
    | double bits => simpa [isSlot, translateRawOutboundsRec] using hslot
    | _ => simp [isSlot, isRawOutbound, translateRawOutboundsRec]

/-- What is listed, what is replaced and what stays. -/
structure RawContract (route : Json) : Prop where
  once : (collectRawOutboundIds route).Nodup
  listed : ∀ id, id ∈ collectRawOutboundIds route ↔
    ∃ path key value, look (none, route) path = some (some key, value) ∧
      isRawOutbound key value = true ∧ rawToInt value = id
  tags : ∀ path key value, look (none, route) path = some (some key, value) → isRawOutbound key value = true →
    look (none, translateRawOutbounds route map) path =
      some (some key, .str ((map.tag (rawToInt value)).getD Tags.proxy))
  rest : ∀ path node, look (none, route) path = some node → isSlot node = false →
    ∃ value, look (none, translateRawOutbounds route map) path = some (node.1, value) ∧ frame value = frame node.2
  positions : ∀ path, (look (none, translateRawOutbounds route map) path).isSome = (look (none, route) path).isSome
  gone : collectRawOutboundIds (translateRawOutbounds route map) = []

theorem mem_collectRawOutboundIds (route : Json) (id : Int) :
    id ∈ collectRawOutboundIds route ↔ Names (none, route) id := by
  rw [collectRawOutboundIds, (collected_rec route []).mem, names_iff]
  simp [isSlot]

/-- **Numbers are listed and replaced at the same positions**, in every raw route. -/
theorem rawOutbounds_contract (route : Json) : RawContract map route := by
  have htranslate : ∀ path, look (none, translateRawOutbounds route map) path =
    (look (none, route) path).map (replaced map) :=
    fun path => look_replaced map path (none, route)
  refine ⟨(collected_rec route []).nodup nodup_nil, fun id => ?_, fun path key value hlook hslot => ?_,
    fun path node hlook hslot => ?_, fun path => ?_, ?_⟩
  · rw [mem_collectRawOutboundIds]
    constructor
    · rintro ⟨path, ⟨key, value⟩, hlook, hslot, hid⟩
      cases key with
      | none => cases hslot
      | some key => exact ⟨path, key, value, hlook, hslot, hid⟩
    · rintro ⟨path, key, value, hlook, hslot, hid⟩
      exact ⟨path, _, hlook, hslot, hid⟩
  · have hreplaced : isSlot (some key, value) = true := hslot
    rw [htranslate, hlook, Option.map_some, replaced, if_pos hreplaced]
  · refine ⟨translateRawOutboundsRec map node.2, ?_, frame_translate map node.2⟩
    rw [htranslate, hlook, Option.map_some, replaced, if_neg (by simp [hslot])]
  · rw [htranslate, Option.isSome_map]
  · rw [eq_nil_iff_forall_not_mem]
    intro id hid
    obtain ⟨path, node, hlook, hslot, -⟩ := (mem_collectRawOutboundIds _ id).mp hid
    rw [htranslate] at hlook
    obtain ⟨before, -, rfl⟩ := Option.map_eq_some_iff.mp hlook
    rw [not_isSlot_replaced] at hslot
    cases hslot

end

/-- **A fraction is listed as 0**, an integer that is nowhere in the route. -/
theorem not_listed_integers : ¬∀ (route : Json) (id : Int), id ∈ collectRawOutboundIds route ↔
    ∃ path key, look (none, route) path = some (some key, .num id) ∧ (key = "outbound" ∨ key = "final") := by
  intro h
  -- the bits of 1.5
  obtain ⟨path, key, hlook, -⟩ := (h (.obj [("final", .double 0x3ff8000000000000)]) 0).mp (by decide)
  match path with
  | [] => simp [look] at hlook
  | [0] => simp [look, entries] at hlook
  | 0 :: i :: path => simp [look, entries] at hlook
  | (i + 1) :: path => simp [look, entries] at hlook

end Waterdisco.Route
