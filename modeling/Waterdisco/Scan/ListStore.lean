import Mathlib
import Waterdisco.Lists.Tables

/-!
# The lists as a scan sees them

A list with the entries its readers see.  No list holds an address and port twice or
an empty address, so writing what was read stores it unchanged (`unique_eq_self`).
-/

namespace Waterdisco.Scan

open List Nat String Option Lists

/-- One address and port. -/
def sameKey (a b : Entry) : Bool := decide (a.cidr = b.cidr) && decide (a.port = b.port)

/-- What a list can hold. -/
structure Stored (entries : List Entry) : Prop where
  named : ∀ e ∈ entries, e.cidr ≠ ""
  distinct : Distinct entries

structure StoredList where
  id : Int
  role : Role := .user
  relatedTestId : Int := -1
  entries : List Entry := []
  stored : Stored entries

structure Store where
  lists : List StoredList := []
  lastId : Int := 0

/-! ## What is stored -/

theorem stored_nil : Stored [] := ⟨by simp, Pairwise.nil⟩

theorem Stored.sublist {entries entries' : List Entry} (h : Stored entries) (hsub : entries'.Sublist entries) :
    Stored entries' :=
  ⟨fun e he => h.named e (hsub.subset he), Pairwise.sublist hsub h.distinct⟩

theorem uniqueLoop_named (entries : List Entry) (seen : List String) :
    ∀ e ∈ uniqueLoop entries seen, e.cidr ≠ "" := by
  induction entries generalizing seen with
  | nil => simp [uniqueLoop]
  | cons x entries ih =>
    simp only [uniqueLoop]
    by_cases hx : x.cidr.isEmpty
    · rw [if_pos hx]
      exact ih seen
    by_cases hseen : uniqueKey x ∈ seen
    · rw [if_neg hx, if_pos hseen]
      exact ih seen
    rw [if_neg hx, if_neg hseen]
    intro e he
    rcases mem_cons.mp he with rfl | he
    · simpa using hx
    · exact ih _ e he

theorem unique_stored (entries : List Entry) : Stored (unique entries) :=
  ⟨uniqueLoop_named entries [], unique_distinct entries⟩

/-- Inserts an entry, or only its latency when the address and port are there. -/
def upsertEntry (entries : List Entry) (e : Entry) : List Entry :=
  if e.cidr = "" then entries
  else if entries.any (sameKey e) then
    entries.map (fun x => if sameKey e x then { x with latencyMs := e.latencyMs } else x)
  else entries ++ [e]

theorem upsertEntry_stored {entries : List Entry} (h : Stored entries) (e : Entry) :
    Stored (upsertEntry entries e) := by
  unfold upsertEntry
  by_cases he : e.cidr = ""
  · rw [if_pos he]
    exact h
  rw [if_neg he]
  by_cases hany : entries.any (sameKey e) = true
  · rw [if_pos hany]
    constructor
    · intro x hx
      obtain ⟨y, hy, rfl⟩ := mem_map.mp hx
      split <;> exact h.named y hy
    unfold Distinct
    rw [pairwise_map]
    refine h.distinct.imp ?_
    intro a b hab
    split <;> split <;> exact hab
  rw [if_neg hany]
  constructor
  · intro x hx
    rcases mem_append.mp hx with hx | hx
    · exact h.named x hx
    · rw [mem_singleton.mp hx]
      exact he
  · unfold Distinct
    rw [pairwise_append]
    refine ⟨h.distinct, by simp, ?_⟩
    rintro a ha b hb ⟨hcidr, hport⟩
    rw [mem_singleton.mp hb] at hcidr hport
    apply hany
    rw [List.any_eq_true]
    exact ⟨a, ha, by simp [sameKey, hcidr, hport]⟩

theorem upsert_stored {entries : List Entry} (h : Stored entries) (hits : List Entry) :
    Stored (hits.foldl upsertEntry entries) := by
  induction hits generalizing entries with
  | nil => exact h
  | cons e hits ih => exact ih (upsertEntry_stored h e)

/-! ## The calls -/

namespace Store

def get? (store : Store) (id : Int) : Option StoredList := store.lists.find? (fun l => l.id = id)

def entries (store : Store) (id : Int) : List Entry := ((store.get? id).map StoredList.entries).getD []

def addIpList (store : Store) (role : Role) (relatedTestId : Int) (entries : List Entry) :
    Option (Store × Int) :=
  let id := store.lastId + 1
  if id ≤ 0 then none
  else if (store.get? id).isSome then none
  else some ({
    lists := store.lists ++ [{
      id := id, role := role, relatedTestId := relatedTestId, entries := unique entries
      stored := unique_stored entries }]
    lastId := id }, id)

def setEntries (store : Store) (id : Int) (entries : List Entry) (h : Stored entries) : Store :=
  { store with lists := store.lists.map (fun l => if l.id = id then { l with entries := entries, stored := h } else l) }

def replaceEntries (store : Store) (id : Int) (entries : List Entry) : Store :=
  store.setEntries id (unique entries) (unique_stored entries)

def clearEntries (store : Store) (id : Int) : Store := store.setEntries id [] stored_nil

def deleteIpList (store : Store) (id : Int) : Store :=
  { store with lists := store.lists.filter (fun l => l.id ≠ id) }

def upsertEntries (store : Store) (id : Int) (hits : List Entry) : Store :=
  match store.get? id with
  | none => store
  | some l => store.setEntries id (hits.foldl upsertEntry l.entries) (upsert_stored l.stored hits)

def removeEntries (store : Store) (id : Int) (dead : List Entry) : Store :=
  match store.get? id with
  | none => store
  | some l =>
    store.setEntries id (l.entries.filter (fun e => !dead.any (sameKey e))) (l.stored.sublist filter_sublist)

def entryCount (store : Store) (id : Int) : Nat := (store.entries id).length

end Store

/-! ## Reading what was written -/

theorem toList_toString (n : Int) :
    (toString n).toList = (if n < 0 then ['-'] else []) ++ toDigits 10 n.natAbs := by
  cases n with
  | ofNat m => exact toList_repr
  | negSucc m =>
    show ("-" ++ (m + 1).repr).toList = _
    rw [toList_append, toList_repr, if_pos (Int.negSucc_lt_zero m)]
    rfl

theorem not_mem_digits {c : Char} (hc : c.isDigit = false) (m : Nat) : c ∉ toDigits 10 m := by
  intro hm
  rw [isDigit_of_mem_toDigits (by omega) (by omega) hm] at hc
  cases hc

theorem space_not_mem_toString (n : Int) : ' ' ∉ (toString n).toList := by
  rw [toList_toString, mem_append]
  rintro (h | h)
  · split at h <;> simp at h
  · exact not_mem_digits (by decide) _ h

/-- The last separator tells the two sides apart. -/
theorem append_sep_inj {a a' b b' : List Char} (hb : ' ' ∉ b) (hb' : ' ' ∉ b')
    (h : a ++ ' ' :: b = a' ++ ' ' :: b') : a = a' ∧ b = b' := by
  rw [append_eq_append_iff] at h
  rcases h with ⟨c, rfl, hc⟩ | ⟨c, rfl, hc⟩
  · cases c with
    | nil => simpa using hc
    | cons x c =>
      simp only [cons_append, cons.injEq] at hc
      exact absurd (hc.2 ▸ mem_append_right c (by simp)) hb
  · cases c with
    | nil => simpa using hc.symm
    | cons x c =>
      simp only [cons_append, cons.injEq] at hc
      exact absurd (hc.2 ▸ mem_append_right c (by simp)) hb'

theorem uniqueKey_inj {a b : Entry} (h : uniqueKey a = uniqueKey b) :
    a.cidr = b.cidr ∧ a.port = b.port := by
  have hlist := congrArg String.toList h
  simp only [uniqueKey, String.toList_append, List.append_assoc] at hlist
  have hsep := append_sep_inj (space_not_mem_toString a.port) (space_not_mem_toString b.port) hlist
  exact ⟨toList_injective hsep.1, Int.repr_inj.mp (toList_injective hsep.2)⟩

theorem uniqueLoop_eq_self {entries : List Entry} (h : Stored entries) (seen : List String)
    (hseen : ∀ e ∈ entries, uniqueKey e ∉ seen) : uniqueLoop entries seen = entries := by
  induction entries generalizing seen with
  | nil => rfl
  | cons x entries ih =>
    have hne : ¬ x.cidr.isEmpty = true := by simpa using h.named x (by simp)
    have hrest : ∀ e ∈ entries, uniqueKey e ∉ uniqueKey x :: seen := by
      intro e he hmem
      rcases mem_cons.mp hmem with heq | hmem
      · have hkey := uniqueKey_inj heq
        exact (rel_of_pairwise_cons h.distinct he) ⟨hkey.1.symm, hkey.2.symm⟩
      · exact hseen e (.tail _ he) hmem
    rw [uniqueLoop, if_neg hne, if_neg (hseen x (by simp)), ih (h.sublist (sublist_cons_self x entries)) _ hrest]

theorem unique_eq_self {entries : List Entry} (h : Stored entries) : unique entries = entries :=
  uniqueLoop_eq_self h [] (by simp)

namespace Store

variable {store store' : Store} {relatedTestId : Int}

variable {id : Int}

theorem get?_id {l : StoredList} (h : store.get? id = some l) : l.id = id := by
  simpa using find?_some h

open Store

theorem entries_of_get? {l : StoredList} (h : store.get? id = some l) :
    store.entries id = l.entries := by
  simp [entries, h]

theorem entries_stored (store : Store) (id : Int) : Stored (store.entries id) := by
  unfold entries
  cases store.get? id with
  | none => exact stored_nil
  | some l => exact l.stored

/-! ## What a call leaves alone -/

theorem get?_setEntries (store : Store) (id j : Int) (entries : List Entry) (h : Stored entries) :
    (store.setEntries id entries h).get? j =
      (store.get? j).map (fun l => if l.id = id then { l with entries := entries, stored := h } else l) := by
  unfold get? setEntries
  rw [find?_map]
  congr 2
  funext l
  simp only [Function.comp_def]
  split <;> rfl

theorem get?_setEntries_of_ne {id j : Int} {entries : List Entry} (h : Stored entries)
    (hne : j ≠ id) : (store.setEntries id entries h).get? j = store.get? j := by
  rw [get?_setEntries]
  cases hl : store.get? j with
  | none => rfl
  | some l =>
    rw [map_some, if_neg]
    rw [get?_id hl]
    exact hne

/-- A call that writes the entries of one list: the others stay, and so do all roles. -/
structure Touches (store store' : Store) (id : Int) : Prop where
  others : ∀ j, j ≠ id → store'.get? j = store.get? j
  roles : ∀ j, (store'.get? j).map StoredList.role = (store.get? j).map StoredList.role
  lastId : store'.lastId = store.lastId

theorem Touches.refl (store : Store) (id : Int) : Touches store store id := ⟨fun _ _ => rfl, fun _ => rfl, rfl⟩

theorem Touches.trans {a b c : Store} (hab : Touches a b id) (hbc : Touches b c id) : Touches a c id :=
  ⟨fun j hj => (hbc.others j hj).trans (hab.others j hj), fun j => (hbc.roles j).trans (hab.roles j),
    hbc.lastId.trans hab.lastId⟩

theorem Touches.role {id j : Int} (h : Touches store store' id) {l' : StoredList}
    (hl' : store'.get? j = some l') : ∃ l, store.get? j = some l ∧ l.role = l'.role := by
  have := h.roles j
  rw [hl', map_some] at this
  exact map_eq_some_iff.mp this.symm

theorem touches_setEntries (store : Store) (id : Int) {entries : List Entry} (h : Stored entries) :
    Touches store (store.setEntries id entries h) id := by
  refine ⟨fun j hj => get?_setEntries_of_ne h hj, ?_, rfl⟩
  intro j
  rw [get?_setEntries, Option.map_map]
  congr 1
  funext l
  simp only [Function.comp_def]
  split <;> rfl

theorem touches_upsertEntries (store : Store) (id : Int) (hits : List Entry) :
    Touches store (store.upsertEntries id hits) id := by
  unfold upsertEntries
  split
  · exact Touches.refl store id
  · exact touches_setEntries store id _

theorem touches_removeEntries (store : Store) (id : Int) (dead : List Entry) :
    Touches store (store.removeEntries id dead) id := by
  unfold removeEntries
  split
  · exact Touches.refl store id
  · exact touches_setEntries store id _

theorem get?_deleteIpList_of_ne {id j : Int} (hne : j ≠ id) :
    (store.deleteIpList id).get? j = store.get? j := by
  unfold get? deleteIpList
  rw [find?_filter]
  congr 1
  funext l
  by_cases hl : l.id = j
  · simp [hl, hne]
  · simp [hl]

/-- The list that was added: under an id that was free, with the entries once each. -/
structure Added (store store' : Store) (id : Int) (role : Role) (relatedTestId : Int)
    (entries : List Entry) : Prop where
  pos : 0 < id
  above : store.lastId < id
  lastId : store'.lastId = id
  free : store.get? id = none
  list : ∃ l, store'.get? id = some l ∧ l.role = role ∧ l.relatedTestId = relatedTestId ∧
    l.entries = unique entries
  others : ∀ j, j ≠ id → store'.get? j = store.get? j

theorem addIpList_spec {role : Role}
    {entries : List Entry} (h : store.addIpList role relatedTestId entries = some (store', id)) :
    Added store store' id role relatedTestId entries := by
  unfold addIpList at h
  by_cases hpos : store.lastId + 1 ≤ 0
  · rw [if_pos hpos] at h
    cases h
  rw [if_neg hpos] at h
  by_cases hsome : (store.get? (store.lastId + 1)).isSome = true
  · rw [if_pos hsome] at h
    cases h
  rw [if_neg hsome] at h
  obtain ⟨rfl, rfl⟩ := h
  have hfree : store.get? (store.lastId + 1) = none := by simpa using hsome
  refine ⟨by omega, by omega, rfl, hfree, ?_, ?_⟩
  · refine ⟨{ id := store.lastId + 1, role := role, relatedTestId := relatedTestId
              entries := unique entries, stored := unique_stored entries }, ?_, rfl, rfl, rfl⟩
    unfold get? at hfree ⊢
    rw [find?_append, hfree]
    simp
  · intro j hj
    unfold get?
    have hne : ¬ store.lastId + 1 = j := fun hc => hj hc.symm
    simp [hne]

/-! ## Copies -/

/-- The id of a copy that is there or was deleted: no other list is under it. -/
def Known (store : Store) (id : Int) : Prop :=
  0 ≤ id → id ≤ store.lastId ∧ ∀ l, store.get? id = some l → l.role = .scanSnapshot

theorem known_neg (store : Store) (h : id < 0) : Known store id := fun h' => by omega

theorem Known.deleted (h : Known store id) (j : Int) : Known (store.deleteIpList j) id := by
  intro hid
  obtain ⟨hle, hrole⟩ := h hid
  refine ⟨hle, ?_⟩
  intro l hl
  by_cases hj : id = j
  · subst hj
    unfold get? deleteIpList at hl
    have hmem := mem_of_find?_eq_some hl
    have hl' := find?_some hl
    simp only [mem_filter, decide_eq_true_eq] at hmem hl'
    exact absurd hl' hmem.2
  · rw [get?_deleteIpList_of_ne hj] at hl
    exact hrole l hl

/-- Every copy that a scan made stays as it is, and its id stays its own. -/
structure KeepsCopies (store store' : Store) : Prop where
  copies : ∀ j l, store.get? j = some l → l.role = .scanSnapshot → store'.get? j = some l
  known : ∀ j, Known store j → Known store' j

theorem KeepsCopies.refl (store : Store) : KeepsCopies store store := ⟨fun _ _ h _ => h, fun _ h => h⟩

theorem Touches.known (h : Touches store store' id) (j : Int)
    (hj : Known store j) : Known store' j := by
  intro hpos
  obtain ⟨hle, hrole⟩ := hj hpos
  refine ⟨by rw [h.lastId]; exact hle, ?_⟩
  intro l' hl'
  obtain ⟨l, hl, heq⟩ := h.role hl'
  rw [← heq]
  exact hrole l hl

theorem Touches.keepsCopies (h : Touches store store' id)
    (hid : ∀ l, store.get? id = some l → l.role ≠ .scanSnapshot) : KeepsCopies store store' := by
  refine ⟨?_, h.known⟩
  intro j l hj hrole
  by_cases hji : j = id
  · subst hji
    exact absurd hrole (hid l hj)
  · rw [h.others j hji]
    exact hj

theorem Added.known {role : Role}
    {entries : List Entry} (h : Added store store' id role relatedTestId entries) (j : Int)
    (hj : Known store j) : Known store' j := by
  intro hpos
  obtain ⟨hle, hrole⟩ := hj hpos
  have habove := h.above
  have hlast := h.lastId
  refine ⟨by omega, ?_⟩
  intro l hl
  rw [h.others j (by omega)] at hl
  exact hrole l hl

theorem Added.copy_known {entries : List Entry}
    (h : Added store store' id .scanSnapshot relatedTestId entries) : Known store' id := by
  intro _
  obtain ⟨l, hl, hrole, -⟩ := h.list
  refine ⟨by rw [h.lastId], ?_⟩
  intro l' hl'
  rw [hl] at hl'
  rw [← some.inj hl']
  exact hrole

theorem Added.keepsCopies {role : Role}
    {entries : List Entry} (h : Added store store' id role relatedTestId entries) : KeepsCopies store store' := by
  refine ⟨?_, h.known⟩
  intro j l hj _
  by_cases hji : j = id
  · subst hji
    rw [h.free] at hj
    cases hj
  · rw [h.others j hji]
    exact hj

end Store

end Waterdisco.Scan
