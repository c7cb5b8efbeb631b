import Mathlib.Data.List.Nodup

/-!
# Profile rows and group listings

A profile is a row of the table `profiles`; a group holds the ids of its
profiles in the order they are shown.  Nothing rebuilds a listing from the rows,
so the two have to be kept in step by whoever changes one of them.

`ListingOk s gid` is that agreement for one group: every row of the group is
listed exactly once, and no id of a deleted row is listed.  `Wf` is what the
table and the id counter guarantee.  Deleting a batch keeps both, whatever the
transaction answers (`batchDeleteProfiles_ok`); a refused batch changes no row
and no listing.

Left out: the columns no modelled function reads, and the weak pointers of the
identity map (a live object and its row hold the same values).
-/

namespace Waterdisco.Db

open List Option

/-- The outbound of a profile, as what its virtual methods export. -/
structure Outbound where
  profileId : Int := -1
  name : String := ""
  exportToJson : List UInt8 := []
  exportIdentity : List UInt8 := []
  exportJsonLink : String := ""
  displayTypeAndName : String := ""
  /-- `EffectiveSecurity().isInsecure()` -/
  insecure : Bool := false
deriving DecidableEq

structure Profile where
  id : Int := -1
  gid : Int := 0
  type : String := ""
  name : String := ""
  latency : Int := 0
  outbound : Outbound := {}
deriving DecidableEq

def kLatencyConnectOnly : Int := -2

/-- Untested profiles are neither working nor unavailable. -/
def Profile.isWorking (p : Profile) : Bool :=
  decide (0 < p.latency ∨ p.latency = kLatencyConnectOnly)

/-- The options of a subscription that a refresh reads. -/
structure SubscriptionOptions where
  keepWorking : Bool := false
  removeDuplicates : Bool := false
  removeInsecure : Bool := false
  removeInvalid : Bool := false
deriving DecidableEq

structure Group where
  id : Int := -1
  url : String := ""
  profiles : List Int := []
  subOptions : SubscriptionOptions := {}
  /-- `KeepsSorted()`: the kept sort is not the manual order. -/
  keepsSorted : Bool := false
deriving DecidableEq

/-- The profile table, the groups and the settings a refresh reads. -/
structure Store where
  rows : List Profile := []
  profileLastId : Int := 0
  tombstones : List Int := []
  groups : List Group := []
  startedId : Int := -1919
  currentGroup : Int := 0
  allowStoppingActiveProfile : Bool := false
  subClear : Bool := false
  startupProfiles : List Int := []
  disabledProfiles : List Int := []

namespace Store

def getProfile (s : Store) (id : Int) : Option Profile := s.rows.find? fun r => r.id == id

/-- The rows of `ids` that exist, in the order of `ids`. -/
def getProfileBatch (s : Store) (ids : List Int) : List Profile := ids.filterMap s.getProfile

def getProfileIdsByType (s : Store) (type : String) : List Int :=
  (s.rows.filter fun r => r.type == type).map (·.id)

def getGroup (s : Store) (gid : Int) : Option Group := s.groups.find? fun g => g.id == gid

/-- `group->profiles` of the group `gid`. -/
def listing (s : Store) (gid : Int) : List Int := ((s.getGroup gid).map (·.profiles)).getD []

/-- Rewrites the listing of the group `gid`. -/
def relist (s : Store) (gid : Int) (f : List Int → List Int) : Store :=
  { s with groups := s.groups.map fun g => if g.id = gid then { g with profiles := f g.profiles } else g }

/-- `ProfilesRepo::Save`: a row already deleted is not written back. -/
def save (s : Store) (p : Profile) : Store :=
  if p.id < 0 ∨ p.id ∈ s.tombstones then s
  else { s with rows := s.rows.map fun r => if r.id = p.id then p else r }

end Store

/-! ## Inserting a batch -/

/-- How one `AddProfileBatch` goes: the group is gone before ids are drawn, or
once the lock is held, or the statements run and some of their chunks fail
(which the repository only reports).  `drawn` is whether the id counter answered. -/
inductive InsertOutcome where
  | noGroup
  | lostGroup (drawn : Bool)
  | inserted (drawn : Bool) (failedChunks : List Nat)
deriving DecidableEq

/-- The id counter answered, or was not asked. -/
def InsertOutcome.idsDrawn : InsertOutcome → Bool
  | .noGroup => true
  | .lostGroup drawn => drawn
  | .inserted drawn _ => drawn

/-- `NewProfileIDRange`: the first of `n` ids, 0 when the counter cannot be read. -/
def Store.newProfileIDRange (s : Store) (n : Nat) (drawn : Bool) : Int × Store :=
  if n = 0 then (0, s)
  else if drawn then (s.profileLastId + 1, { s with profileLastId := s.profileLastId + n })
  else (0, s)

/-- Rows per `INSERT` statement: `BATCH_LIMIT_WRITE / 18`. -/
def insertChunkRows : Nat := 1500 / 18

def assignIds (gid : Int) : Int → List Profile → List Profile
  | _, [] => []
  | next, p :: ps =>
    if p.id < 0 then
      { p with id := next, gid := gid, outbound := { p.outbound with profileId := next } } ::
        assignIds gid (next + 1) ps
    else p :: assignIds gid next ps

/-- The rows of the statements that went through: a statement inserts all its
rows or none, and an id that is already a row's refuses it. -/
def execBatchInsertProfiles (failedChunks : List Nat) (rows added : List Profile) : List Profile :=
  let refused := (added.zipIdx.filter fun r => decide (r.1.id ∈ rows.map (·.id))).map (·.2 / insertChunkRows)
  (added.zipIdx.filter fun r => !decide (r.2 / insertChunkRows ∈ failedChunks ++ refused)).map (·.1)

def groupAddProfileBatch (profiles ids : List Int) : List Int :=
  profiles ++ ids.filter fun id => !decide (id ∈ profiles)

/-- Answers whether the batch was stored, the profiles with their ids, and the store. -/
def Store.addProfileBatch (s : Store) (profiles : List Profile) (gid : Int) (outcome : InsertOutcome) :
    Bool × List Profile × Store :=
  let gid := if gid < 0 then s.currentGroup else gid
  let toAdd := profiles.filter fun p => decide (p.id < 0)
  if outcome = .noGroup then (false, profiles, s)
  else if toAdd.isEmpty then (true, profiles, s)
  else
    let (firstId, s) := s.newProfileIDRange toAdd.length outcome.idsDrawn
    match outcome with
    | .inserted _ failedChunks =>
      let added := assignIds gid firstId toAdd
      let s := { s with rows := s.rows ++ execBatchInsertProfiles failedChunks s.rows added }
      (true, assignIds gid firstId profiles,
        s.relist gid fun l => groupAddProfileBatch l (added.map (·.id)))
    | _ => (false, profiles, s)

/-! ## Deleting a batch -/

/-- What the outside decides in one `BatchDeleteProfiles`: whether the
transaction commits, and the started profile once the running one was stopped. -/
structure DeleteEnv where
  committed : Bool := true
  afterStop : Int := -1919

def groupRemoveProfileBatch (profiles ids : List Int) : List Int :=
  profiles.filter fun id => !decide (id ∈ ids)

/-- The ids the transaction deletes: the running profile is stopped or dropped. -/
def Store.deletable (s : Store) (ids : List Int) (stopRunningProfile : Bool) : List Int :=
  if s.startedId ∈ ids ∧ stopRunningProfile = false then ids.filter fun id => !decide (id = s.startedId)
  else ids

/-- The committed delete: rows gone and tombstoned, then the listings. -/
def Store.deleteRows (s : Store) (ids : List Int) : Store :=
  let profiles := s.getProfileBatch ids
  { s with
    rows := s.rows.filter fun r => !decide (r.id ∈ ids)
    tombstones := s.tombstones ++ profiles.map (·.id)
    groups := s.groups.map fun g =>
      if g.id ∈ profiles.map (·.gid) then { g with profiles := groupRemoveProfileBatch g.profiles ids } else g
    startupProfiles := s.startupProfiles.filter fun id => !decide (id ∈ ids)
    disabledProfiles := s.disabledProfiles.filter fun id => !decide (id ∈ ids) }

/-- Answers whether it succeeded, the ids left in the list it was handed, and the store. -/
def Store.batchDeleteProfiles (s : Store) (ids : List Int) (stopRunningProfile : Bool) (env : DeleteEnv) :
    Bool × List Int × Store :=
  let s' := if s.startedId ∈ ids ∧ stopRunningProfile = true then { s with startedId := env.afterStop } else s
  let ids := s.deletable ids stopRunningProfile
  if ids.isEmpty then (true, ids, s')
  else if env.committed = false then (false, ids, s')
  else (true, ids, s'.deleteRows ids)

/-! ## What the store keeps -/

/-- What the table and its id counter guarantee: ids are unique, drawn from the
counter and never reused, and a group only lists rows of its own. -/
structure Store.Wf (s : Store) : Prop where
  idsNodup : (s.rows.map (·.id)).Nodup
  lastId : -1 ≤ s.profileLastId
  idsNonneg : ∀ r ∈ s.rows, 0 ≤ r.id
  idsLe : ∀ r ∈ s.rows, r.id ≤ s.profileLastId
  tombLe : ∀ id ∈ s.tombstones, id ≤ s.profileLastId
  tombGone : ∀ r ∈ s.rows, r.id ∉ s.tombstones
  groupIds : ∀ g ∈ s.groups, 0 ≤ g.id
  listedLe : ∀ g ∈ s.groups, ∀ id ∈ g.profiles, id ≤ s.profileLastId
  listedOwn : ∀ g ∈ s.groups, ∀ r ∈ s.rows, r.id ∈ g.profiles → r.gid = g.id

/-- Rows and listing agree: every row of the group is listed exactly once and no
id of a deleted row is listed. -/
def Store.ListingOk (s : Store) (gid : Int) : Prop :=
  (∀ r ∈ s.rows, r.gid = gid → (s.listing gid).count r.id = 1) ∧
    ∀ id ∈ s.listing gid, id ∉ s.tombstones

instance (s : Store) (gid : Int) : Decidable (s.ListingOk gid) :=
  inferInstanceAs (Decidable (_ ∧ _))

namespace Store

variable {s : Store}

theorem getProfile_eq_some {id : Int} {p : Profile} (h : s.getProfile id = some p) :
    p ∈ s.rows ∧ p.id = id := by
  exact ⟨mem_of_find?_eq_some h, by simpa using find?_some h⟩

theorem getProfile_of_mem (hw : s.Wf) {p : Profile} (hp : p ∈ s.rows) :
    s.getProfile p.id = some p := by
  unfold getProfile
  cases h : s.rows.find? (fun r => r.id == p.id) with
  | none => exact absurd (find?_eq_none.mp h p hp) (by simp)
  | some q =>
    have hq := mem_of_find?_eq_some h
    have he : q.id = p.id := by simpa using find?_some h
    rw [inj_on_of_nodup_map hw.idsNodup hq hp he]

theorem mem_getProfileBatch (hw : s.Wf) (ids : List Int) (p : Profile) :
    p ∈ s.getProfileBatch ids ↔ p ∈ s.rows ∧ p.id ∈ ids := by
  unfold getProfileBatch
  rw [mem_filterMap]
  constructor
  · rintro ⟨id, hid, h⟩
    obtain ⟨hp, rfl⟩ := getProfile_eq_some h
    exact ⟨hp, hid⟩
  · rintro ⟨hp, hid⟩
    exact ⟨p.id, hid, getProfile_of_mem hw hp⟩

theorem mem_map_getProfileBatch (hw : s.Wf) (ids : List Int) (id : Int) :
    id ∈ (s.getProfileBatch ids).map (·.id) ↔ id ∈ s.rows.map (·.id) ∧ id ∈ ids := by
  rw [List.mem_map, List.mem_map]
  constructor
  · rintro ⟨p, hp, rfl⟩
    obtain ⟨hr, hi⟩ := (mem_getProfileBatch hw ids p).mp hp
    exact ⟨⟨p, hr, rfl⟩, hi⟩
  · rintro ⟨⟨p, hp, rfl⟩, hi⟩
    exact ⟨p, (mem_getProfileBatch hw ids p).mpr ⟨hp, hi⟩, rfl⟩

/-! ### Groups -/

variable {gid : Int} (ids : List Int)

theorem getGroup_mem {g : Group} (h : s.getGroup gid = some g) :
    g ∈ s.groups ∧ g.id = gid := by
  exact ⟨mem_of_find?_eq_some h, by simpa using find?_some h⟩

/-- Rewriting groups without touching their ids rewrites the group that is found. -/
theorem find?_group_map (f : Group → Group) (hf : ∀ g, (f g).id = g.id) (l : List Group) (gid : Int) :
    (l.map f).find? (fun g => g.id == gid) = (l.find? fun g => g.id == gid).map f := by
  induction l with
  | nil => rfl
  | cons g l ih =>
    rw [map_cons, find?_cons, find?_cons, hf]
    cases g.id == gid with
    | true => rfl
    | false => exact ih

theorem listing_relist (gid : Int) (f : List Int → List Int) (hg : (s.getGroup gid).isSome) :
    (s.relist gid f).listing gid = f (s.listing gid) := by
  obtain ⟨g, hg⟩ := isSome_iff_exists.mp hg
  unfold listing getGroup relist at *
  rw [find?_group_map _ (fun g => by split <;> rfl), hg]
  simp [show g.id = gid by simpa using find?_some hg]

theorem isSome_getGroup_relist (gid gid' : Int) (f : List Int → List Int) :
    ((s.relist gid f).getGroup gid').isSome = (s.getGroup gid').isSome := by
  unfold getGroup relist
  rw [find?_group_map _ (fun g => by split <;> rfl)]
  simp

theorem mem_listing {id : Int} (h : id ∈ s.listing gid) :
    ∃ g ∈ s.groups, g.id = gid ∧ id ∈ g.profiles := by
  unfold listing at h
  cases hg : s.getGroup gid with
  | none => rw [hg] at h; simp at h
  | some g =>
    rw [hg] at h
    obtain ⟨hm, he⟩ := getGroup_mem hg
    exact ⟨g, hm, he, h⟩

theorem Wf.gid_of_listed (hw : s.Wf) {r : Profile} (hr : r ∈ s.rows)
    (h : r.id ∈ s.listing gid) : r.gid = gid := by
  obtain ⟨g, hg, rfl, hm⟩ := mem_listing h
  exact hw.listedOwn g hg r hr hm

theorem Wf.listing_le (hw : s.Wf) {id : Int} (h : id ∈ s.listing gid) : id ≤ s.profileLastId := by
  obtain ⟨g, hg, -, hm⟩ := mem_listing h
  exact hw.listedLe g hg id hm

theorem relist_wf (hw : s.Wf) (gid : Int) (f : List Int → List Int)
    (hle : ∀ g ∈ s.groups, g.id = gid → ∀ id ∈ f g.profiles, id ≤ s.profileLastId)
    (hown : ∀ g ∈ s.groups, g.id = gid → ∀ r ∈ s.rows, r.id ∈ f g.profiles → r.gid = gid) :
    (s.relist gid f).Wf where
  idsNodup := hw.idsNodup
  lastId := hw.lastId
  idsNonneg := hw.idsNonneg
  idsLe := hw.idsLe
  tombLe := hw.tombLe
  tombGone := hw.tombGone
  groupIds g hg := by
    obtain ⟨g₀, hg₀, rfl⟩ := mem_map.mp hg
    split
    · exact hw.groupIds g₀ hg₀
    · exact hw.groupIds g₀ hg₀
  listedLe g hg id hid := by
    obtain ⟨g₀, hg₀, rfl⟩ := mem_map.mp hg
    split at hid
    · rename_i he
      exact hle g₀ hg₀ he id hid
    · exact hw.listedLe g₀ hg₀ id hid
  listedOwn g hg r hr hm := by
    obtain ⟨g₀, hg₀, rfl⟩ := mem_map.mp hg
    split at hm
    · rename_i he
      rw [if_pos he]
      exact (hown g₀ hg₀ he r hr hm).trans he.symm
    rename_i he
    rw [if_neg he]
    exact hw.listedOwn g₀ hg₀ r hr hm

/-! ### A committed delete -/

theorem deleteRows_wf (hw : s.Wf) (ids : List Int) : (s.deleteRows ids).Wf where
  idsNodup := hw.idsNodup.sublist (filter_sublist.map _)
  lastId := hw.lastId
  idsNonneg r hr := hw.idsNonneg r (mem_of_mem_filter hr)
  idsLe r hr := hw.idsLe r (mem_of_mem_filter hr)
  tombLe id hid := by
    rcases mem_append.mp hid with hid | hid
    · exact hw.tombLe id hid
    · obtain ⟨p, hp, rfl⟩ := mem_map.mp hid
      exact hw.idsLe p ((mem_getProfileBatch hw ids p).mp hp).1
  tombGone r hr hm := by
    obtain ⟨hr, hd⟩ := mem_filter.mp hr
    rcases mem_append.mp hm with hm | hm
    · exact hw.tombGone r hr hm
    · have := ((mem_map_getProfileBatch hw ids r.id).mp hm).2
      simp [this] at hd
  groupIds g hg := by
    obtain ⟨g₀, hg₀, rfl⟩ := mem_map.mp hg
    split
    · exact hw.groupIds g₀ hg₀
    · exact hw.groupIds g₀ hg₀
  listedLe g hg id hid := by
    obtain ⟨g₀, hg₀, rfl⟩ := mem_map.mp hg
    split at hid
    · exact hw.listedLe g₀ hg₀ id (mem_of_mem_filter hid)
    · exact hw.listedLe g₀ hg₀ id hid
  listedOwn g hg r hr hm := by
    obtain ⟨g₀, hg₀, rfl⟩ := mem_map.mp hg
    have hr := (mem_filter.mp hr).1
    split at hm
    · rename_i hin
      rw [if_pos hin]
      exact hw.listedOwn g₀ hg₀ r hr (mem_of_mem_filter hm)
    rename_i hin
    rw [if_neg hin]
    exact hw.listedOwn g₀ hg₀ r hr hm

theorem isSome_getGroup_deleteRows (gid : Int) :
    ((s.deleteRows ids).getGroup gid).isSome = (s.getGroup gid).isSome := by
  unfold getGroup deleteRows
  rw [find?_group_map _ (fun g => by split <;> rfl)]
  simp

theorem listing_deleteRows (gid : Int) :
    (s.deleteRows ids).listing gid =
      if gid ∈ (s.getProfileBatch ids).map (·.gid) then groupRemoveProfileBatch (s.listing gid) ids
      else s.listing gid := by
  unfold listing getGroup deleteRows
  rw [find?_group_map _ (fun g => by split <;> rfl)]
  cases hg : s.groups.find? (fun g => g.id == gid) with
  | none => simp [groupRemoveProfileBatch]
  | some g =>
    have he : g.id = gid := by simpa using find?_some hg
    rw [map_some, map_some, map_some, getD_some, getD_some, he]
    split <;> rfl

theorem mem_listing_deleteRows {ids : List Int} {id : Int}
    (h : id ∈ (s.deleteRows ids).listing gid) : id ∈ s.listing gid := by
  rw [listing_deleteRows] at h
  split at h
  · exact mem_of_mem_filter h
  · exact h

theorem count_listing_deleteRows {ids : List Int} {r : Profile}
    (hr : r ∈ (s.deleteRows ids).rows) (gid : Int) :
    ((s.deleteRows ids).listing gid).count r.id = (s.listing gid).count r.id := by
  have hkeep := (mem_filter.mp hr).2
  rw [listing_deleteRows]
  split
  · unfold groupRemoveProfileBatch
    exact count_filter hkeep
  · rfl

theorem deleteRows_alive (hw : s.Wf) (ids : List Int)
    (h : ∀ id ∈ s.listing gid, id ∉ s.tombstones) :
    ∀ id ∈ (s.deleteRows ids).listing gid, id ∉ (s.deleteRows ids).tombstones := by
  intro id hid hm
  have hl := mem_listing_deleteRows hid
  rcases mem_append.mp hm with hm | hm
  · exact h id hl hm
  -- a deleted row listed here is a row of this group, so the listing was cleaned of it
  obtain ⟨p, hp, rfl⟩ := mem_map.mp hm
  obtain ⟨hpr, hpi⟩ := (mem_getProfileBatch hw ids p).mp hp
  have hgid : p.gid = gid := hw.gid_of_listed hpr hl
  rw [listing_deleteRows, if_pos (mem_map.mpr ⟨p, hp, hgid⟩)] at hid
  simp [groupRemoveProfileBatch, hpi] at hid

theorem deleteRows_listingOk (hw : s.Wf) (ids : List Int) (h : s.ListingOk gid) :
    (s.deleteRows ids).ListingOk gid := by
  refine ⟨fun r hr hg => ?_, deleteRows_alive hw ids h.2⟩
  rw [count_listing_deleteRows hr]
  exact h.1 r (mem_of_mem_filter hr) hg

/-! ### `AddProfileBatch` -/

/-- The ids given to a batch of new profiles: the next ones, in order. -/
def nextIds (last : Int) (n : Nat) : List Int := (range n).map fun (i : Nat) => last + 1 + (i : Int)

theorem mem_nextIds {last x : Int} {n : Nat} : x ∈ nextIds last n ↔ last < x ∧ x ≤ last + n := by
  unfold nextIds
  rw [List.mem_map]
  constructor
  · rintro ⟨i, hi, rfl⟩
    rw [mem_range] at hi
    omega
  · rintro ⟨h1, h2⟩
    exact ⟨(x - last - 1).toNat, mem_range.mpr (by omega), by omega⟩

theorem nextIds_nodup (last : Int) (n : Nat) : (nextIds last n).Nodup := by
  refine Nodup.map ?_ nodup_range
  intro i j h
  have h : last + 1 + (i : Int) = last + 1 + (j : Int) := h
  omega

theorem assignIds_ids (gid last : Int) (ps : List Profile) (h : ∀ p ∈ ps, p.id < 0) :
    (assignIds gid (last + 1) ps).map (·.id) = nextIds last ps.length := by
  induction ps generalizing last with
  | nil => rfl
  | cons p ps ih =>
    have hp := h p mem_cons_self
    have ih := ih (last + 1) fun q hq => h q (.tail _ hq)
    simp only [assignIds, if_pos hp, map_cons, length_cons, ih]
    unfold nextIds
    rw [List.range_succ_eq_map, List.map_cons, List.map_map]
    congr 1
    · simp
    · refine map_congr_left fun i _ => ?_
      simp only [Function.comp_apply, Nat.succ_eq_add_one]
      omega

theorem assignIds_gid (gid next : Int) (ps : List Profile) (h : ∀ p ∈ ps, p.id < 0) :
    ∀ p ∈ assignIds gid next ps, p.gid = gid := by
  induction ps generalizing next with
  | nil => simp [assignIds]
  | cons q ps ih =>
    have hq := h q mem_cons_self
    intro p hp
    rw [assignIds, if_pos hq] at hp
    rcases mem_cons.mp hp with rfl | hp
    · rfl
    · exact ih (next + 1) (fun r hr => h r (.tail _ hr)) p hp

theorem execBatchInsertProfiles_sublist (failed : List Nat) (rows added : List Profile) :
    (execBatchInsertProfiles failed rows added).Sublist added := by
  have h : (execBatchInsertProfiles failed rows added).Sublist (added.zipIdx.map (·.1)) :=
    filter_sublist.map _
  simpa using h

def batchGroup (s : Store) (gid : Int) : Int := if gid < 0 then s.currentGroup else gid

/-- **One batch of new profiles** is refused, with at most some ids lost, or
stored: the profiles get the next ids, some of them become rows, and all of them
are listed. -/
theorem addProfileBatch_cases (s : Store) (ps : List Profile) (gid : Int) (o : InsertOutcome)
    (hneg : ∀ p ∈ ps, p.id < 0) (hne : ps ≠ []) (hdrawn : o.idsDrawn = true) :
    (∃ last, s.profileLastId ≤ last ∧
        s.addProfileBatch ps gid o = (false, ps, { s with profileLastId := last })) ∨
      ∃ sub, sub.Sublist (assignIds (s.batchGroup gid) (s.profileLastId + 1) ps) ∧
        s.addProfileBatch ps gid o =
          (true, assignIds (s.batchGroup gid) (s.profileLastId + 1) ps,
            Store.relist { s with profileLastId := s.profileLastId + ps.length, rows := s.rows ++ sub }
              (s.batchGroup gid)
              fun l => groupAddProfileBatch l (nextIds s.profileLastId ps.length)) := by
  have hall : (ps.filter fun p => decide (p.id < 0)) = ps :=
    filter_eq_self.mpr fun p hp => by simpa using hneg p hp
  have hlen : ps.length ≠ 0 := by simpa using hne
  have hempty : ps.isEmpty = false := by simpa using hne
  have hrange : s.newProfileIDRange ps.length true =
      (s.profileLastId + 1, { s with profileLastId := s.profileLastId + ps.length }) := by
    unfold newProfileIDRange
    rw [if_neg hlen, if_pos rfl]
  unfold addProfileBatch
  simp only [hall, hempty, hdrawn, hrange]
  cases o with
  | noGroup => exact .inl ⟨s.profileLastId, by omega, rfl⟩
  | lostGroup => exact .inl ⟨s.profileLastId + ps.length, by omega, rfl⟩
  | inserted drawn failed =>
    refine .inr ⟨_, execBatchInsertProfiles_sublist failed s.rows _, ?_⟩
    rw [if_neg (by simp), assignIds_ids _ _ _ hneg]
    rfl

/-- New rows under new ids, listed in their group, keep the store sound. -/
theorem addRows_wf (hw : s.Wf) (gid : Int) (ps sub : List Profile) (hneg : ∀ p ∈ ps, p.id < 0)
    (hsub : sub.Sublist (assignIds gid (s.profileLastId + 1) ps)) :
    (Store.relist { s with profileLastId := s.profileLastId + ps.length, rows := s.rows ++ sub } gid
      fun l => groupAddProfileBatch l (nextIds s.profileLastId ps.length)).Wf := by
  have hids : (sub.map (·.id)).Sublist (nextIds s.profileLastId ps.length) := by
    rw [← assignIds_ids gid s.profileLastId ps hneg]
    exact hsub.map _
  have hnew : ∀ r ∈ sub, s.profileLastId < r.id ∧ r.id ≤ s.profileLastId + ps.length := fun r hr =>
    mem_nextIds.mp (hids.subset (mem_map_of_mem hr))
  have hgid : ∀ r ∈ sub, r.gid = gid := fun r hr => assignIds_gid gid _ ps hneg r (hsub.subset hr)
  have hlast := hw.lastId
  have hbase : Wf { s with profileLastId := s.profileLastId + ps.length, rows := s.rows ++ sub } := by
    refine ⟨?_, ?_, ?_, ?_, ?_, ?_, hw.groupIds, ?_, ?_⟩
    · rw [map_append, nodup_append]
      refine ⟨hw.idsNodup, (nextIds_nodup _ _).sublist hids, ?_⟩
      rintro a ha b hb rfl
      obtain ⟨r, hr, rfl⟩ := mem_map.mp ha
      obtain ⟨q, hq, he⟩ := mem_map.mp hb
      have h1 := hw.idsLe r hr
      have h2 := (hnew q hq).1
      omega
    · show -1 ≤ s.profileLastId + ps.length
      omega
    · intro r hr
      rcases mem_append.mp hr with hr | hr
      · exact hw.idsNonneg r hr
      · have := hnew r hr
        omega
    · intro r hr
      show r.id ≤ s.profileLastId + ps.length
      rcases mem_append.mp hr with hr | hr
      · have := hw.idsLe r hr
        omega
      · exact (hnew r hr).2
    · intro id hid
      have := hw.tombLe id hid
      show id ≤ s.profileLastId + ps.length
      omega
    · intro r hr hm
      rcases mem_append.mp hr with hr | hr
      · exact hw.tombGone r hr hm
      have h1 := hw.tombLe r.id hm
      have h2 := (hnew r hr).1
      omega
    · intro g hg id hid
      have := hw.listedLe g hg id hid
      show id ≤ s.profileLastId + ps.length
      omega
    · intro g hg r hr hm
      rcases mem_append.mp hr with hr | hr
      · exact hw.listedOwn g hg r hr hm
      have h1 := hw.listedLe g hg r.id hm
      have h2 := (hnew r hr).1
      omega
  refine relist_wf hbase gid _ ?_ ?_
  · intro g hg _ id hid
    rcases mem_append.mp hid with hid | hid
    · exact hbase.listedLe g hg id hid
    · exact (mem_nextIds.mp (mem_of_mem_filter hid)).2
  · intro g hg he r hr hm
    rcases mem_append.mp hr with hr | hr
    · rcases mem_append.mp hm with hm | hm
      · exact (hw.listedOwn g hg r hr hm).trans he
      have h1 := (mem_nextIds.mp (mem_of_mem_filter hm)).1
      have h2 := hw.idsLe r hr
      omega
    · exact hgid r hr

/-! ### `BatchDeleteProfiles` -/

/-- Stopping the running profile touches neither rows nor listings. -/
theorem batchDeleteProfiles_cases (s : Store) (ids : List Int) (stop : Bool) (env : DeleteEnv) :
    ∃ started : Int,
      let s' := { s with startedId := started }
      s.batchDeleteProfiles ids stop env =
        if (s.deletable ids stop).isEmpty then (true, s.deletable ids stop, s')
        else if env.committed = false then (false, s.deletable ids stop, s')
        else (true, s.deletable ids stop, s'.deleteRows (s.deletable ids stop)) := by
  by_cases hr : s.startedId ∈ ids ∧ stop = true
  · exact ⟨env.afterStop, by simp only [batchDeleteProfiles, if_pos hr]⟩
  · exact ⟨s.startedId, by simp only [batchDeleteProfiles, if_neg hr]⟩

theorem batchDeleteProfiles_ids (s : Store) (ids : List Int) (stop : Bool) (env : DeleteEnv) :
    (s.batchDeleteProfiles ids stop env).2.1 = s.deletable ids stop := by
  obtain ⟨started, h⟩ := batchDeleteProfiles_cases s ids stop env
  rw [h]
  split
  · rfl
  · split <;> rfl

theorem Wf.started (hw : s.Wf) (started : Int) : Wf { s with startedId := started } :=
  ⟨hw.idsNodup, hw.lastId, hw.idsNonneg, hw.idsLe, hw.tombLe, hw.tombGone, hw.groupIds, hw.listedLe,
    hw.listedOwn⟩

theorem batchDeleteProfiles_wf (hw : s.Wf) (ids : List Int) (stop : Bool) (env : DeleteEnv) :
    (s.batchDeleteProfiles ids stop env).2.2.Wf := by
  obtain ⟨started, h⟩ := batchDeleteProfiles_cases s ids stop env
  rw [h]
  split
  · exact hw.started started
  split
  · exact hw.started started
  · exact deleteRows_wf (hw.started started) _

/-- **Deleting a batch keeps rows and listings in agreement**, whether the
transaction commits or not. -/
theorem batchDeleteProfiles_ok (hw : s.Wf) (ids : List Int) (stop : Bool) (env : DeleteEnv)
    (h : s.ListingOk gid) : (s.batchDeleteProfiles ids stop env).2.2.ListingOk gid := by
  obtain ⟨started, hc⟩ := batchDeleteProfiles_cases s ids stop env
  rw [hc]
  split
  · exact h
  split
  · exact h
  · exact deleteRows_listingOk (hw.started started) _ h

theorem isSome_getGroup_batchDeleteProfiles (stop : Bool) (env : DeleteEnv) (gid : Int) :
    ((s.batchDeleteProfiles ids stop env).2.2.getGroup gid).isSome = (s.getGroup gid).isSome := by
  obtain ⟨started, hc⟩ := batchDeleteProfiles_cases s ids stop env
  rw [hc]
  split
  · rfl
  split
  · rfl
  · exact isSome_getGroup_deleteRows _ gid

end Store

end Waterdisco.Db
