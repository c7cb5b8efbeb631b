import Mathlib.Data.List.Perm.Basic
import Mathlib.Data.List.Nodup
import Waterdisco.Lib.Runs

/-!
# The profiles of a group

Every change of the list is one locked section; a batch add takes its scan before its lock and
`Resort` sorts a copy outside, so each of the two is a pair of steps.

    SwapProfiles, EmplaceProfile and Resort permute the list      (step_perm)
    ids come and go as they are added and removed                 (mem_step)
    no id is there twice where no batch finds what it adds        (groupProfiles_contract)
-/

namespace Waterdisco.ProfileOrder

open List

inductive GroupSortMethod where
  | raw
  | byType
  | byAddress
  | byName
  | byTestResult
  | byId
  | byTraffic
  | bySecurity
  | byLatency
deriving DecidableEq

structure GroupSortAction where
  method : GroupSortMethod := .raw
  descending : Bool := false
deriving DecidableEq

/-- The order is kept when profiles come and go. -/
def GroupSortAction.keepsSorted (sort : GroupSortAction) : Bool := sort.method != .raw && sort.method != .byId

/-- What a batch add saw before its lock. -/
structure Scan where
  currentProfiles : List Int
  ids : List Int

/-- What a `Resort` sorts. -/
structure Copy where
  before : List Int
  action : GroupSortAction

structure Group where
  profiles : List Int := []
  sort : GroupSortAction := {}
  scans : List Scan := []
  copies : List Copy := []

/-- A stable sort by `comesBefore`, with the disabled profiles behind. -/
def sortProfileIdList (comesBefore : Int → Int → Bool) (disabled : Int → Bool) (ids : List Int) : List Int :=
  let sorted := ids.mergeSort (fun a b => !comesBefore b a)
  sorted.filter (fun id => !disabled id) ++ sorted.filter disabled

/-- The steps; a resort whose copy is stale copies again. -/
inductive Event where
  | setSort (action : GroupSortAction)
  | addProfile (id : Int)
  | scanBatch (ids : List Int)
  | addProfileBatch (i : Nat)
  | removeProfile (id : Int)
  | removeProfileBatch (ids : List Int)
  | swapProfiles (idx1 idx2 : Nat)
  | emplaceProfile (idx newIdx : Nat)
  | copy
  | publish (i : Nat) (comesBefore : Int → Int → Bool) (disabled : Int → Bool)

/-- The ids that a batch adds. -/
def Scan.added (scan : Scan) : List Int := scan.ids.filter (fun id => !scan.currentProfiles.contains id)

def swapItemsAt (l : List Int) (i j : Nat) : List Int :=
  match l[i]?, l[j]? with
  | some a, some b => (l.set i b).set j a
  | _, _ => l

def emplace (l : List Int) (idx newIdx : Nat) : List Int :=
  match l[idx]? with
  | none => l
  | some id => (l.insertIdx (newIdx + 1) id).eraseIdx (if idx < newIdx then idx else idx + 1)

def Group.publish (g : Group) (copy : Copy) (after : List Int) : Group :=
  if g.profiles = copy.before ∧ g.sort = copy.action then { g with profiles := after } else g

def step (g : Group) : Event → Group
  | .setSort action => { g with sort := action }
  | .addProfile id => if g.profiles.contains id then g else { g with profiles := g.profiles ++ [id] }
  | .scanBatch ids => { g with scans := g.scans ++ [⟨g.profiles, ids⟩] }
  | .addProfileBatch i =>
    match g.scans[i]? with
    | none => g
    | some scan => { g with profiles := g.profiles ++ scan.added, scans := g.scans.eraseIdx i }
  | .removeProfile id => { g with profiles := g.profiles.filter (fun x => x != id) }
  | .removeProfileBatch ids => { g with profiles := g.profiles.filter (fun x => !ids.contains x) }
  | .swapProfiles idx1 idx2 => { g with profiles := swapItemsAt g.profiles idx1 idx2 }
  | .emplaceProfile idx newIdx =>
    if g.profiles.length ≤ newIdx then g else { g with profiles := emplace g.profiles idx newIdx }
  | .copy => if g.sort.keepsSorted then { g with copies := g.copies ++ [⟨g.profiles, g.sort⟩] } else g
  | .publish i comesBefore disabled =>
    match g.copies[i]? with
    | none => g
    | some copy =>
      { g with copies := g.copies.eraseIdx i }.publish copy (sortProfileIdList comesBefore disabled copy.before)

def run (g : Group) (events : List Event) : Group := events.foldl step g

def Event.moves : Event → Bool
  | .swapProfiles _ _ | .emplaceProfile _ _ | .copy | .publish _ _ _ => true
  | _ => false

def Event.added (g : Group) : Event → List Int
  | .addProfile id => [id]
  | .addProfileBatch i => (g.scans[i]?.map Scan.added).getD []
  | _ => []

def Event.removed : Event → List Int
  | .removeProfile id => [id]
  | .removeProfileBatch ids => ids
  | _ => []

/-- A batch has no new id twice, and none was added since its scan. -/
def Meets (g : Group) : Event → Prop
  | .addProfileBatch i => ∀ scan ∈ g.scans[i]?, scan.added.Nodup ∧ ∀ id ∈ scan.added, id ∉ g.profiles
  | _ => True

/-! ## One step -/

theorem sort_perm (comesBefore : Int → Int → Bool) (disabled : Int → Bool) (ids : List Int) :
    (sortProfileIdList comesBefore disabled ids).Perm ids :=
  perm_append_comm.trans ((filter_append_perm disabled _).trans (mergeSort_perm ids _))

theorem swap_perm (l : List Int) (i j : Nat) : (swapItemsAt l i j).Perm l := by
  unfold swapItemsAt
  split
  · next a b ha hb =>
    obtain ⟨hi, rfl⟩ := List.getElem?_eq_some_iff.mp ha
    obtain ⟨hj, rfl⟩ := List.getElem?_eq_some_iff.mp hb
    exact set_set_perm hi hj
  · exact .refl l

/-- The id is put in behind its new place and taken out where it was, one further on when that is behind. -/
theorem emplace_perm {l : List Int} (idx : Nat) {newIdx : Nat} (h : newIdx < l.length) :
    (emplace l idx newIdx).Perm l := by
  unfold emplace
  split
  · exact .refl l
  next id hid =>
  have hput := perm_insertIdx id l (show newIdx + 1 ≤ l.length from h)
  have htaken : (l.insertIdx (newIdx + 1) id)[if idx < newIdx then idx else idx + 1]? = some id := by
    rw [getElem?_insertIdx]
    split
    · rw [if_pos (by omega), hid]
    obtain rfl | hbehind := Nat.eq_or_lt_of_le (show newIdx ≤ idx by omega)
    · rw [if_neg (by omega), if_pos rfl, if_pos (by omega)]
    · rw [if_neg (by omega), if_neg (by omega), Nat.add_sub_cancel, hid]
  obtain ⟨hlt, hget⟩ := List.getElem?_eq_some_iff.mp htaken
  have hcons := getElem_cons_eraseIdx_perm hlt
  rw [hget] at hcons
  exact (hcons.trans hput).cons_inv

/-- **The moves permute the list**, also a resort that publishes what it sorted outside the lock. -/
theorem step_perm (g : Group) {e : Event} (h : e.moves = true) : (step g e).profiles.Perm g.profiles := by
  cases e with
  | swapProfiles idx1 idx2 => exact swap_perm g.profiles idx1 idx2
  | emplaceProfile idx newIdx =>
    simp only [step]
    split
    · exact .refl _
    · next hlt => exact emplace_perm idx (Nat.not_le.mp hlt)
  | copy =>
    simp only [step]
    split <;> exact .refl _
  | publish i comesBefore disabled =>
    simp only [step, Group.publish]
    split
    · exact .refl _
    split
    · next hsame =>
      rw [← hsame.1]
      exact sort_perm comesBefore disabled _
    · exact .refl _
  | _ => cases h

theorem mem_step (g : Group) (e : Event) (id : Int) :
    id ∈ (step g e).profiles ↔ (id ∈ g.profiles ∨ id ∈ e.added g) ∧ id ∉ e.removed := by
  cases hmoves : e.moves with
  | true =>
    rw [(step_perm g hmoves).mem_iff]
    cases e with
    | swapProfiles | emplaceProfile | copy | publish => simp [Event.added, Event.removed]
    | _ => cases hmoves
  | false =>
    cases e with
    | addProfile x =>
      simp only [step, Event.added, Event.removed]
      split <;> grind
    | addProfileBatch i =>
      simp only [step, Event.added, Event.removed]
      split <;> simp [*]
    | swapProfiles | emplaceProfile | copy | publish => cases hmoves
    | _ => simp [step, Event.added, Event.removed]

theorem nodup_step {g : Group} {e : Event} (hmeets : Meets g e) (h : g.profiles.Nodup) : (step g e).profiles.Nodup := by
  cases hmoves : e.moves with
  | true => exact (step_perm g hmoves).nodup_iff.mpr h
  | false =>
    cases e with
    | setSort action => exact h
    | scanBatch ids => exact h
    | addProfile x =>
      simp only [step]
      split
      · exact h
      · next hnew => exact nodup_append.mpr ⟨h, nodup_singleton x, by grind⟩
    | addProfileBatch i =>
      simp only [step]
      split
      · exact h
      next scan hscan =>
      obtain ⟨hnodup, hnew⟩ := hmeets scan hscan
      exact nodup_append.mpr ⟨h, hnodup, fun a ha b hb heq => hnew b hb (heq ▸ ha)⟩
    | removeProfile x => exact h.filter _
    | removeProfileBatch ids => exact h.filter _
    | swapProfiles | emplaceProfile | copy | publish => cases hmoves

/-- **The profiles of a group.** In a run in which no batch, when it takes its lock, has a new id twice or one that was added
since its scan, no id is ever there twice; moves permute the list, and ids come and go as they are added and removed. -/
theorem groupProfiles_contract (g : Group) (hg : g.profiles.Nodup) (events : List Event)
    (hmeets : AllMeet step Meets g events) :
    (run g events).profiles.Nodup ∧
      (∀ e, e.moves = true → (step (run g events) e).profiles.Perm (run g events).profiles) ∧
      ∀ e id, id ∈ (step (run g events) e).profiles ↔
        (id ∈ (run g events).profiles ∨ id ∈ e.added (run g events)) ∧ id ∉ e.removed :=
  ⟨hmeets.keeps (P := fun g => g.profiles.Nodup) (fun _ _ => nodup_step) hg, fun _ => step_perm _, mem_step _⟩

/-- An import beside a resort that comes too late. -/
def importAndResort : List Event :=
  [.setSort { method := .byName }, .addProfile 3, .addProfile 5, .copy, .scanBatch [5, 4], .swapProfiles 0 1,
    .publish 0 (fun a b => a < b) (fun _ => false), .addProfileBatch 0]

theorem importAndResort_profiles :
    (run {} importAndResort).profiles = [5, 3, 4] ∧ (run {} importAndResort).profiles.Nodup := by
  refine ⟨by decide +kernel, (groupProfiles_contract {} nodup_nil importAndResort ?_).1⟩
  refine ⟨trivial, trivial, trivial, trivial, trivial, trivial, trivial, ?_, trivial⟩
  intro scan hscan
  obtain rfl : ⟨[3, 5], [5, 4]⟩ = scan := Option.some.inj hscan
  decide +kernel

theorem batch_adds_twice :
    ¬ (run {} [.scanBatch [5], .addProfile 5, .addProfileBatch 0]).profiles.Nodup ∧
      ¬ (run {} [.scanBatch [5, 5], .addProfileBatch 0]).profiles.Nodup := by
  decide

end Waterdisco.ProfileOrder
