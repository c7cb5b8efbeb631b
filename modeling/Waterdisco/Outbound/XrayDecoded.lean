import Waterdisco.Outbound.XrayStream

/-!
# What the core reads of an Xray stream

The outbound as Go's decoder hands it to Xray (`decode`): the streams, sockopts and
settings are merged over their spellings, `extra` replaces the settings of its holder, and
`xhttpSettings` outranks `splithttpSettings`.  Of every other field all the values are
kept, in order, so that whatever Go makes of them is a function of what is kept.

    pointer (edited) name = edit of (pointer name)               (editLive_pointer)
    values (edited) other = values other                         (editLive_other)
-/

namespace Waterdisco.XrayStream

open List Bool Nat Json

/-! ## Decoded values -/

abbrev Fields := String → List Json

/-- The fields besides the known ones. -/
def others (n : List Object) (known : List String) : Fields := fun name =>
  if known.any (sameName name) then [] else values n name

structure Sockopt where
  dialerProxy : String
  interface : String
  others : Fields

def decodeSockopt (n : List Object) : Sockopt where
  dialerProxy := lastText n "dialerProxy"
  interface := lastText n "interface"
  others := others n ["dialerProxy", "interface"]

structure Tls where
  useSystemCA : Option Bool
  others : Fields

def decodeTls (n : List Object) : Tls where
  useSystemCA := (xrayStreamLast n "useSystemCA" false).map toBool
  others := others n ["useSystemCA"]

structure Leg where
  security : String
  sockopt : Option Sockopt
  tls : Option Tls
  others : Fields

def decodeLeg (known : List String) (n : List Object) : Leg where
  security := lastText n "security"
  sockopt := (pointer n "sockopt").map decodeSockopt
  tls := (pointer n "tlsSettings").map decodeTls
  others := others n ("security" :: "sockopt" :: "tlsSettings" :: known)

structure Settings where
  leg : Option Leg
  others : Fields

def decodeSettings (n : List Object) : Settings where
  leg := (pointer n "downloadSettings").map (decodeLeg [])
  others := others n ["downloadSettings", "extra"]

/-- The settings of a holder, and those of its `extra`, which replace them. -/
structure Holder where
  own : Settings
  extra : Option Settings

def decodeHolder (n : List Object) : Holder where
  own := decodeSettings n
  extra := (values n "extra").getLast?.map fun extra => decodeSettings [extra.toObject]

structure Stream where
  main : Leg
  xhttp : Option Holder
  splithttp : Option Holder

def decodeStream (n : List Object) : Stream where
  main := decodeLeg ["xhttpSettings", "splithttpSettings"] n
  xhttp := (pointer n "xhttpSettings").map decodeHolder
  splithttp := (pointer n "splithttpSettings").map decodeHolder

structure Outbound where
  stream : Option Stream
  others : Fields

/-- What the core reads of an outbound. -/
def decode (outbound : Object) : Outbound where
  stream := (pointer [outbound] "streamSettings").map decodeStream
  others := others [outbound] ["streamSettings"]

def Holder.settings (h : Holder) : Settings := h.extra.getD h.own

def Stream.downloadLeg (s : Stream) : Option Leg := (s.xhttp.or s.splithttp).bind fun h => h.settings.leg

/-! ## Type errors -/

/-- A field that Go decodes into a struct. -/
def Fits (n : List Object) (name : String) : Prop := ∀ v ∈ values n name, v.isNull = true ∨ v.isObject = true

instance (n : List Object) (name : String) : Decidable (Fits n name) :=
  inferInstanceAs (Decidable (∀ v ∈ values n name, v.isNull = true ∨ v.isObject = true))

structure FitsLeg (n : List Object) : Prop where
  sockopt : Fits n "sockopt"
  tls : Fits n "tlsSettings"

structure FitsSettings (n : List Object) : Prop where
  field : Fits n "downloadSettings"
  leg : ∀ l, pointer n "downloadSettings" = some l → FitsLeg l

structure FitsHolder (n : List Object) : Prop where
  own : FitsSettings n
  field : ∀ e, (values n "extra").getLast? = some e → e.isNull = true ∨ e.isObject = true
  extra : ∀ e, (values n "extra").getLast? = some e → FitsSettings [e.toObject]

structure FitsStream (n : List Object) : Prop where
  main : FitsLeg n
  xhttpField : Fits n "xhttpSettings"
  xhttp : ∀ h, pointer n "xhttpSettings" = some h → FitsHolder h
  splithttpField : Fits n "splithttpSettings"
  splithttp : ∀ h, pointer n "splithttpSettings" = some h → FitsHolder h

/-- The outbound decodes without a type error, as far as the edits go. -/
structure Decodes (outbound : Object) : Prop where
  field : Fits [outbound] "streamSettings"
  stream : ∀ s, pointer [outbound] "streamSettings" = some s → FitsStream s

/-! ## Nodes -/

/-- Objects as a parser hands them over. -/
def Proper (n : List Object) : Prop := ∀ o ∈ n, proper (.obj o) = true

variable {n : List Object}

theorem Proper.distinct (h : Proper n) : DistinctKeys n :=
  fun o ho => (proper_obj_iff.mp (h o ho)).1.nodup

variable {name : String}

theorem Proper.values (h : Proper n) {v : Json} (hv : v ∈ values n name) : proper v = true := by
  obtain ⟨o, ho, hv⟩ := mem_flatMap.mp hv
  obtain ⟨m, hm, rfl⟩ := mem_map.mp hv
  exact (proper_obj_iff.mp (h o ho)).2 m (mem_filter.mp hm).1

/-- The values of a name are in order, whatever becomes of the other names. -/
def ProperAt (n : List Object) (name : String) : Prop := ∀ v ∈ values n name, proper v = true

theorem ProperAt.pointer (h : ProperAt n name) {s : List Object}
    (hs : pointer n name = some s) : Proper s := by
  rw [Waterdisco.pointer] at hs
  split at hs
  · cases hs
  cases hs
  intro o ho
  obtain ⟨v, hv, rfl⟩ := mem_map.mp ho
  exact proper_toObject (h v (live_subset hv))

theorem pointer_ne_nil {s : List Object} (hs : pointer n name = some s) : s ≠ [] := by
  rw [pointer] at hs
  split at hs
  · cases hs
  rename_i hne
  cases hs
  intro hnil
  exact hne (map_eq_nil_iff.mp hnil)

theorem pointer_congr {n' : List Object} (h : values n' name = values n name) :
    pointer n' name = pointer n name := by
  rw [pointer, pointer, h]

theorem pointer_of_objects {os : List Object} (h : values n name = os.map obj)
    (hne : os ≠ []) : pointer n name = some os := by
  have hlive : live (values n name) = os.map obj := by
    rw [h]
    refine live_of_objects fun v hv => ?_
    obtain ⟨o, -, rfl⟩ := mem_map.mp hv
    rfl
  have hback : (os.map obj).map toObject = os := by
    rw [map_map]
    exact map_id os
  rw [pointer, hlive]
  obtain ⟨o, rest, rfl⟩ := exists_cons_of_ne_nil hne
  exact congrArg some hback

/-! ## Editing live objects -/

theorem values_places {hs : List Object} (h : DistinctKeys hs) (name : String) :
    (placesNamed hs name).map (fun s => (valueIn hs s).getD .null) = values hs name := by
  rw [values_eq h, ← filterMap_eq_map]
  refine filterMap_congr fun p hp => ?_
  obtain ⟨v, hv⟩ := Option.ne_none_iff_exists'.mp (mem_placesNamed.mp hp).2
  show some ((valueIn hs p).getD .null) = valueIn hs p
  rw [hv]
  rfl

theorem filter_notMem_take {α : Type*} [BEq α] [LawfulBEq α] {l : List α} (h : l.Nodup) (k : Nat) :
    l.filter (fun x => decide (x ∉ l.take k)) = l.drop k := by
  have hnodup : (l.take k ++ l.drop k).Nodup := by rwa [take_append_drop]
  have hfront : (l.take k).filter (fun x => decide (x ∉ l.take k)) = [] := by
    rw [filter_eq_nil_iff]
    simp
  have hback : (l.drop k).filter (fun x => decide (x ∉ l.take k)) = l.drop k := by
    rw [filter_eq_self]
    intro x hx
    exact decide_eq_true fun hin => (nodup_append.mp hnodup).2.2 x hin x hx rfl
  calc l.filter (fun x => decide (x ∉ l.take k))
      = (l.take k ++ l.drop k).filter (fun x => decide (x ∉ l.take k)) := by rw [take_append_drop]
    _ = l.drop k := by rw [filter_append, hfront, hback, nil_append]

theorem map_fst_zip_sublist {α β : Type*} (l : List α) (m : List β) : ((l.zip m).map Prod.fst).Sublist l := by
  induction l generalizing m with
  | nil => exact Sublist.refl _
  | cons a l ih =>
    cases m with
    | nil => exact nil_sublist _
    | cons b m => exact (ih m).cons_cons a

section

variable {hs : List Object} {name : String}

/-- The holders without what a null discards. -/
def kept (hs : List Object) (name : String) : List Object :=
  removeAll hs ((placesNamed hs name).take (discarded (values hs name)))

theorem kept_distinct (h : DistinctKeys hs) : DistinctKeys (kept hs name) := distinctKeys_removeAll h _

theorem kept_length : (kept hs name).length = hs.length := length_removeAll _ _

theorem kept_places (h : DistinctKeys hs) :
    placesNamed (kept hs name) name = (placesNamed hs name).drop (discarded (values hs name)) := by
  rw [kept, placesNamed_removeAll]
  exact filter_notMem_take (placesFrom_nodup h 0 name) _

theorem kept_values (h : DistinctKeys hs) : values (kept hs name) name = live (values hs name) := by
  have hsame : ∀ p ∈ (placesNamed hs name).drop (discarded (values hs name)),
      ((valueIn (kept hs name) p).getD .null) = ((valueIn hs p).getD .null) := by
    intro p hp
    have hnodup : ((placesNamed hs name).take (discarded (values hs name)) ++
        (placesNamed hs name).drop (discarded (values hs name))).Nodup := by
      rw [take_append_drop]
      exact placesFrom_nodup h 0 name
    rw [kept, valueIn_removeAll, if_neg fun hin => (nodup_append.mp hnodup).2.2 p hin p hp rfl]
  rw [← values_places (kept_distinct h), kept_places h, map_congr_left hsame, map_drop, values_places h, drop_discarded]

theorem kept_other (h : DistinctKeys hs) {other : String} (hother : foldName other ≠ foldName name) :
    values (kept hs name) other = values hs other := by
  refine values_removeAll_other h fun p hp => ?_
  exact sameName_unique (mem_placesNamed.mp (take_subset _ _ hp)).1 (Ne.symm hother)

variable {create : Bool} {edit : List Object → List Object}

theorem writeBack_other (h : DistinctKeys hs) {ps : List (Nat × String)}
    (hps : ps = placesNamed hs name) {other : String}
    (hother : foldName other ≠ foldName name) :
    values (xrayStreamWriteBack hs ps edit).holders other = values hs other := by
  have hin : ∀ pv ∈ ps.zip ((edit (ps.map fun s => ((valueIn hs s).getD .null).toObject)).map obj),
    pv.1 ∈ placesNamed hs name :=
    fun pv hpv => by
      rw [← hps]
      exact (of_mem_zip hpv).1
  refine values_insertAll_other h (fun pv hpv => (mem_placesNamed.mp (hin pv hpv)).2) ?_ fun pv hpv => ?_
  · refine Sublist.nodup ?_ (placesFrom_nodup h 0 name)
    rw [hps]
    exact map_fst_zip_sublist _ _
  · exact sameName_unique (mem_placesNamed.mp (hin pv hpv)).1 (Ne.symm hother)

variable (name edit) in
theorem writeBack_values (h : DistinctKeys hs)
    (hlen : (edit ((values hs name).map toObject)).length = (values hs name).length) :
    values (xrayStreamWriteBack hs (placesNamed hs name) edit).holders name =
      (edit ((values hs name).map toObject)).map obj := by
  have hobjects : (placesNamed hs name).map (fun s => ((valueIn hs s).getD .null).toObject) =
    (values hs name).map toObject := by
    rw [← values_places h, map_map]
    rfl
  have hcount : (placesNamed hs name).length = (values hs name).length := by
    rw [← values_places h, length_map]
  rw [xrayStreamWriteBack, hobjects]
  refine values_insertAll h ?_ fun p hp => (mem_placesNamed.mp hp).2
  rw [length_map, hlen, hcount]

variable (h : DistinctKeys hs)

include h

/-- With no type error the edit is given the live spellings, or a new one. -/
theorem editLive_eq (hfits : Fits hs name) :
    xrayStreamEditLive hs name create edit =
      if live (values hs name) = [] then
        if !create || hs.isEmpty then ⟨kept hs name, none⟩
        else
          xrayStreamWriteBack (insertIn (kept hs name) (hs.length - 1, name) (.obj [])) [(hs.length - 1, name)] edit
      else xrayStreamWriteBack (kept hs name) (placesNamed (kept hs name) name) edit := by
  have hall : ((placesNamed (kept hs name) name).filter fun s => ((valueIn (kept hs name) s).getD .null).isObject) =
      placesNamed (kept hs name) name := by
    rw [filter_eq_self]
    intro p hp
    have hmem : (valueIn (kept hs name) p).getD .null ∈ live (values hs name) := by
      rw [← kept_values h, ← values_places (kept_distinct h)]
      exact mem_map_of_mem hp
    rcases hfits _ (live_subset hmem) with hnull | hobj
    · rw [live_not_null hmem] at hnull
      cases hnull
    · exact hobj
  have hempty : (placesNamed (kept hs name) name).isEmpty = true ↔ live (values hs name) = [] := by
    rw [← kept_values h, ← values_places (kept_distinct h), List.isEmpty_iff, List.map_eq_nil_iff]
  have hnil : (kept hs name).isEmpty = hs.isEmpty := by
    rw [Bool.eq_iff_iff, List.isEmpty_iff_length_eq_zero, List.isEmpty_iff_length_eq_zero, kept_length]
  rw [xrayStreamEditLive]
  rw [values_places h, ← kept, ← kept_places h, hall, kept_length, hnil]
  by_cases hlive : live (values hs name) = []
  · rw [if_pos hlive, if_pos (hempty.mpr hlive)]
  · rw [if_neg hlive, if_neg (fun hh => hlive (hempty.mp hh))]

/-- The new spelling of a field that has none. -/
theorem created_spec (hne : hs ≠ []) (hlive : live (values hs name) = []) :
    DistinctKeys (insertIn (kept hs name) (hs.length - 1, name) (.obj [])) ∧
      placesNamed (insertIn (kept hs name) (hs.length - 1, name) (.obj [])) name = [(hs.length - 1, name)] ∧
      values (insertIn (kept hs name) (hs.length - 1, name) (.obj [])) name = [.obj []] := by
  have hlt : ((hs.length - 1, name) : Nat × String).1 < (kept hs name).length := by
    rw [kept_length]
    exact Nat.sub_lt (List.length_pos_iff.mpr hne) Nat.one_pos
  have hnone : placesNamed (kept hs name) name = [] :=
    placesNamed_eq_nil (kept_distinct h) (by rw [kept_values h, hlive])
  exact ⟨distinctKeys_insertIn (kept_distinct h) _ _, placesNamed_insertIn_first hlt (sameName_self name) hnone _,
    values_insertIn_first (kept_distinct h) hlt (sameName_self name) hnone _⟩

theorem writeBack_distinct (ps : List (Nat × String)) :
    DistinctKeys (xrayStreamWriteBack hs ps edit).holders := distinctKeys_insertAll h _

theorem editLive_distinct (hfits : Fits hs name) :
    DistinctKeys (xrayStreamEditLive hs name create edit).holders := by
  rw [editLive_eq h hfits]
  split
  · split
    · exact kept_distinct h
    rename_i hlive hcreate
    have hne : hs ≠ [] := by
      rintro rfl
      simp at hcreate
    exact writeBack_distinct (created_spec h hne hlive).1 _
  · exact writeBack_distinct (kept_distinct h) _

omit h

theorem editLive_length : (xrayStreamEditLive hs name create edit).holders.length = hs.length := by
  rw [xrayStreamEditLive]
  split
  · split
    · exact length_removeAll _ _
    · show (insertAll _ _).length = _
      rw [length_insertAll, insertIn, length_modify, length_removeAll]
  · show (insertAll _ _).length = _
    rw [length_insertAll, length_removeAll]

theorem editLive_other (h : DistinctKeys hs) (hfits : Fits hs name) {other : String}
    (hother : foldName other ≠ foldName name) :
    values (xrayStreamEditLive hs name create edit).holders other = values hs other := by
  rw [editLive_eq h hfits]
  split
  · split
    · exact kept_other h hother
    rename_i hlive hcreate
    have hne : hs ≠ [] := by
      rintro rfl
      simp at hcreate
    obtain ⟨hdistinct, hplaces, -⟩ := created_spec h hne hlive
    rw [writeBack_other hdistinct hplaces.symm hother, values_insertIn_other (kept_distinct h) _ _, kept_other h hother]
    · rw [kept_length]
      exact Nat.sub_lt (List.length_pos_iff.mpr hne) Nat.one_pos
    · exact sameName_unique (sameName_self name) (Ne.symm hother)
  · rw [writeBack_other (kept_distinct h) rfl hother, kept_other h hother]

theorem pointer_eq_none {n : List Object} {field : String} : pointer n field = none ↔ live (values n field) = [] := by
  rw [pointer]
  cases live (values n field) with
  | nil => exact iff_of_true rfl rfl
  | cons => exact iff_of_false (Option.some_ne_none _) (cons_ne_nil _ _)

theorem pointer_eq_some {n : List Object} {field : String} (h : live (values n field) ≠ []) :
    pointer n field = some ((live (values n field)).map toObject) := by
  rw [pointer]
  cases hlive : live (values n field) with
  | nil => exact absurd hlive h
  | cons => rfl

/-- The field holds what the edit makes of what it held. -/
theorem editLive_values (h : DistinctKeys hs) (hne : hs ≠ []) (hfits : Fits hs name)
    (hedit : ∀ os, (edit os).length = os.length) :
    values (xrayStreamEditLive hs name create edit).holders name =
      match pointer hs name with
      | some n => (edit n).map obj
      | none => if create then (edit [[]]).map obj else [] := by
  rw [editLive_eq h hfits]
  by_cases hlive : live (values hs name) = []
  · rw [if_pos hlive, pointer_eq_none.mpr hlive]
    cases create with
    | false => exact (kept_values h).trans hlive
    | true =>
      obtain ⟨hdistinct, hplaces, hvalues⟩ := created_spec h hne hlive
      have hfilled : hs.isEmpty = false := by simpa using hne
      rw [hfilled, Bool.not_true, Bool.or_false, if_neg Bool.false_ne_true, ← hplaces]
      have hwritten := writeBack_values name edit hdistinct (by rw [hedit, length_map])
      rwa [hvalues] at hwritten
  · have hwritten := writeBack_values name edit (kept_distinct h : DistinctKeys (kept hs name)) (by rw [hedit, length_map])
    rw [kept_values h] at hwritten
    rw [if_neg hlive, pointer_eq_some hlive]
    exact hwritten

theorem editLive_pointer (h : DistinctKeys hs) (hne : hs ≠ []) (hfits : Fits hs name)
    (hedit : ∀ os, (edit os).length = os.length) :
    pointer (xrayStreamEditLive hs name create edit).holders name =
      match pointer hs name with
      | some n => some (edit n)
      | none => if create then some (edit [[]]) else none := by
  have hvalues : values (xrayStreamEditLive hs name create edit).holders name = _ := editLive_values h hne hfits hedit
  have hfilled : ∀ os : List Object, os ≠ [] → edit os ≠ [] := by
    intro os hos hnil
    have hlen := hedit os
    rw [hnil] at hlen
    exact hos (length_eq_zero_iff.mp hlen.symm)
  cases hpointer : pointer hs name with
  | some n =>
    rw [hpointer] at hvalues
    exact pointer_of_objects hvalues (hfilled n (pointer_ne_nil hpointer))
  | none =>
    rw [hpointer] at hvalues
    cases create with
    | false =>
      rw [if_neg Bool.false_ne_true, pointer_eq_none, hvalues]
      rfl
    | true => exact pointer_of_objects hvalues (hfilled _ (cons_ne_nil _ _))

theorem editLive_given (h : DistinctKeys hs) (hfits : Fits hs name) :
    (xrayStreamEditLive hs name false edit).given = pointer hs name := by
  rw [editLive_eq h hfits]
  by_cases hlive : live (values hs name) = []
  · rw [if_pos hlive, pointer_eq_none.mpr hlive]
    rfl
  · rw [if_neg hlive, pointer_eq_some hlive, ← kept_values h, ← values_places (kept_distinct h), map_map]
    rfl

end

end Waterdisco.XrayStream
