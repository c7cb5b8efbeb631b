import Mathlib.Logic.Function.Basic
import Waterdisco.Lib.Runs

/-!
# Profile objects and their rows

`ProfilesRepo` hands out shared objects, which outlive their rows.  Every operation is what
it does before its locked section and the locked section; the threads go through them in any
order.  `gone` remembers whose row was deleted.

    no row, no object for a deleted id                       (Sound)
    a batch delete knows what it deletes, an object is not saved while it is added
      → it stays so in every run                             (profiles_contract)
-/

namespace Waterdisco.ProfilesRepo

open Function (update)

/-- The columns, with `data` for those besides the group and the traffic. -/
structure Row (δ : Type) where
  gid : Int
  data : δ
  dl : Int := 0
  up : Int := 0

/-- `held` while anyone holds the object. -/
structure Profile (δ : Type) where
  id : Int := -1
  gid : Int := 0
  data : δ
  dl : Int := 0
  up : Int := 0
  held : Bool := true

/-- What a thread has in hand before its locked section. -/
inductive Phase (δ : Type) where
  | idle
  | adding (ref : Nat) (id : Int)
  | addingBatch (toAdd : List Nat) (firstId gid : Int)
  | saving (rows : List (Int × Row δ)) (valid : List Nat)
  | savingTraffic (id dl up : Int)
  | deleting (ids existing : List Int)
  | deletingGroup (gid : Int) (listed : List Int)

structure Repo (δ : Type) where
  rows : Int → Option (Row δ)
  lastId : Int
  groups : Int → Option (List Int)
  objects : List (Profile δ) := []
  identityMap : Int → Option Nat := fun _ => none
  tombstones : Int → Bool := fun _ => false
  threads : Nat → Phase δ := fun _ => .idle
  gone : Int → Bool := fun _ => false

section

variable {δ : Type}

def Profile.toRow (p : Profile δ) : Row δ := ⟨p.gid, p.data, p.dl, p.up⟩

namespace Repo

def goes (s : Repo δ) (k : Nat) (phase : Phase δ) : Repo δ := { s with threads := update s.threads k phase }

def identify (s : Repo δ) (id : Int) (ref : Nat) : Repo δ := { s with identityMap := update s.identityMap id (some ref) }

/-- A statement that writes a row; a failure is only reported. -/
def write (s : Repo δ) (stored : Bool) (id : Int) (row : Row δ) : Repo δ :=
  if stored then { s with rows := update s.rows id (some row) } else s

/-- An object that an operation can be handed. -/
def object (s : Repo δ) (ref : Nat) : Option (Profile δ) := s.objects[ref]?.filter (·.held)

/-- 0 where the counter cannot be read. -/
def newProfileIDRange (s : Repo δ) (n : Nat) (drawn : Bool) : Int × Repo δ :=
  if drawn then (s.lastId + 1, { s with lastId := s.lastId + n }) else (0, s)

/-! ## Adding -/

def addProfile (s : Repo δ) (k ref : Nat) (gid : Int) (drawn : Bool) : Repo δ :=
  match s.object ref with
  | none => s
  | some p =>
    if p.id ≥ 0 then s
    else
      let (newId, s) := s.newProfileIDRange 1 drawn
      goes { s with objects := s.objects.modify ref (fun p => { p with id := newId, gid := gid }) } k (.adding ref newId)

def addProfileLocked (s : Repo δ) (ref : Nat) (newId : Int) (stored : Int → Bool) : Repo δ :=
  match s.objects[ref]? with
  | none => s
  | some p => if (s.groups p.gid).isNone then s else (s.identify newId ref).write (stored p.id) p.id p.toRow

def addProfileBatch (s : Repo δ) (k : Nat) (profiles : List Nat) (gid : Int) (drawn : Bool) : Repo δ :=
  if (s.groups gid).isNone then s
  else
    let toAdd := profiles.filter (fun ref => (s.object ref).any (fun p => p.id < 0))
    if toAdd.isEmpty then s
    else
      let (firstId, s) := s.newProfileIDRange toAdd.length drawn
      s.goes k (.addingBatch toAdd firstId gid)

/-- The ids in their order, from `id` on. -/
def assignIds (gid : Int) : Int → List Nat → Repo δ → Repo δ
  | _, [], s => s
  | id, ref :: rest, s =>
    assignIds gid (id + 1) rest
      (({ s with objects := s.objects.modify ref (fun p => { p with id := id, gid := gid }) } : Repo δ).identify id ref)

/-- `INSERT`, which a row that is there refuses. -/
def insertRow (stored : Int → Bool) (s : Repo δ) (ref : Nat) : Repo δ :=
  match s.objects[ref]? with
  | none => s
  | some p => s.write (stored p.id && (s.rows p.id).isNone) p.id p.toRow

def addProfileBatchLocked (s : Repo δ) (toAdd : List Nat) (firstId gid : Int) (stored : Int → Bool) : Repo δ :=
  if (s.groups gid).isNone then s else toAdd.foldl (insertRow stored) (assignIds gid firstId toAdd s)

/-! ## Saving -/

def save (s : Repo δ) (ref : Nat) (stored : Bool) : Repo δ :=
  match s.object ref with
  | none => s
  | some p => if p.id < 0 || s.tombstones p.id then s else (s.write stored p.id p.toRow).identify p.id ref

def saveBatch (s : Repo δ) (k : Nat) (profiles : List Nat) : Repo δ :=
  let valid := profiles.filter (fun ref => (s.object ref).any (fun p => 0 ≤ p.id))
  if valid.isEmpty then s
  else s.goes k (.saving (valid.filterMap (fun ref => s.objects[ref]?.map (fun p => (p.id, p.toRow)))) valid)

def replaceRow (stored : Int → Bool) (s : Repo δ) (row : Int × Row δ) : Repo δ :=
  if s.tombstones row.1 then s else s.write (stored row.1) row.1 row.2

def identifySaved (s : Repo δ) (ref : Nat) : Repo δ :=
  match s.objects[ref]? with
  | none => s
  | some p => if s.tombstones p.id then s else s.identify p.id ref

def saveBatchLocked (s : Repo δ) (rows : List (Int × Row δ)) (valid : List Nat) (stored : Int → Bool) : Repo δ :=
  valid.foldl identifySaved (rows.foldl (replaceRow stored) s)

/-- `UPDATE`, which changes nothing where there is no row. -/
def updateTraffic (s : Repo δ) (id dl up : Int) : Repo δ :=
  { s with rows := update s.rows id ((s.rows id).map (fun row => { row with dl := dl, up := up })) }

def saveTraffic (s : Repo δ) (k ref : Nat) : Repo δ :=
  match s.object ref with
  | none => s
  | some p => if p.id < 0 then s else s.goes k (.savingTraffic p.id p.dl p.up)

def saveTrafficBatch (s : Repo δ) (profiles : List Nat) (ok : Bool) : Repo δ :=
  if ok then
    profiles.foldl (fun s ref =>
      match s.object ref with
      | none => s
      | some p => if p.id < 0 then s else s.updateTraffic p.id p.dl p.up) s
  else s

/-! ## Loading -/

def getProfile (s : Repo δ) (id : Int) : Option Nat × Repo δ :=
  match (s.identityMap id).filter (fun ref => (s.object ref).isSome) with
  | some ref => (some ref, s)
  | none =>
    match s.rows id with
    | none => (none, { s with identityMap := update s.identityMap id none })
    | some row =>
      (some s.objects.length,
        ({ s with objects := s.objects ++ [{ id := id, gid := row.gid, data := row.data, dl := row.dl, up := row.up }] } : Repo δ).identify id
          s.objects.length)

/-- The objects by their ids, in the order of `ids`. -/
def getProfileBatch : List Int → Repo δ → List (Int × Nat) × Repo δ
  | [], s => ([], s)
  | id :: rest, s =>
    let (ref, s) := s.getProfile id
    let (found, s) := getProfileBatch rest s
    (ref.toList.map (fun ref => (id, ref)) ++ found, s)

/-! ## Deleting -/

/-- The rows of `dead` go; of them, the ids of `known` are forgotten. -/
def remove (s : Repo δ) (dead known : Int → Bool) : Repo δ :=
  { s with
    rows := fun id => if dead id then none else s.rows id
    identityMap := fun id => if known id then none else s.identityMap id
    tombstones := fun id => known id || s.tombstones id
    gone := fun id => dead id && (s.rows id).isSome || s.gone id }

def batchDeleteProfiles (s : Repo δ) (k : Nat) (ids : List Int) (stopRunningProfile : Bool) (startedId : Int) : Repo δ :=
  let ids := if ids.contains startedId && !stopRunningProfile then ids.filter (fun id => id != startedId) else ids
  if ids.isEmpty then s
  else
    let (profiles, s) := getProfileBatch ids s
    s.goes k (.deleting ids (profiles.filterMap (fun x => s.objects[x.2]?.map (·.id))))

def deleteGroup (s : Repo δ) (k : Nat) (gid : Int) : Repo δ := s.goes k (.deletingGroup gid ((s.groups gid).getD []))

def deleteGroupLocked (s : Repo δ) (gid : Int) (listed : List Int) : Repo δ :=
  let owned := fun id => listed.contains id || (s.rows id).any (fun row => row.gid == gid)
  { s.remove owned owned with groups := update s.groups gid none }

/-! ## Steps -/

end Repo

inductive Event (δ : Type) where
  | newProfile (data : δ)
  | edit (ref : Nat) (data : δ) (gid dl up : Int)
  | drop (ref : Nat)
  /-- a group, or what it lists, as any other operation leaves it -/
  | relist (gid : Int) (listing : Option (List Int))
  | addProfile (k ref : Nat) (gid : Int) (drawn : Bool)
  | addProfileBatch (k : Nat) (profiles : List Nat) (gid : Int) (drawn : Bool)
  | save (ref : Nat) (stored : Bool)
  | saveBatch (k : Nat) (profiles : List Nat)
  | saveTraffic (k ref : Nat)
  | saveTrafficBatch (profiles : List Nat) (ok : Bool)
  | getProfile (id : Int)
  | getProfileBatch (ids : List Int)
  | batchDeleteProfiles (k : Nat) (ids : List Int) (stopRunningProfile : Bool) (startedId : Int)
  | deleteGroup (k : Nat) (gid : Int)
  /-- the locked section of a thread: whether its transaction commits, and which rows its statements store -/
  | locked (k : Nat) (ok : Bool) (stored : Int → Bool)

namespace Repo

def locked (s : Repo δ) (ok : Bool) (stored : Int → Bool) : Phase δ → Repo δ
  | .idle => s
  | .adding ref newId => s.addProfileLocked ref newId stored
  | .addingBatch toAdd firstId gid => s.addProfileBatchLocked toAdd firstId gid stored
  | .saving rows valid => s.saveBatchLocked rows valid stored
  | .savingTraffic id dl up => if ok then s.updateTraffic id dl up else s
  | .deleting ids existing => if ok then s.remove ids.contains existing.contains else s
  | .deletingGroup gid listed => if ok then s.deleteGroupLocked gid listed else s

def isIdle (s : Repo δ) (k : Nat) : Bool :=
  match s.threads k with
  | .idle => true
  | _ => false

def step (s : Repo δ) : Event δ → Repo δ
  | .newProfile data => { s with objects := s.objects ++ [{ data := data }] }
  | .edit ref data gid dl up => { s with objects := s.objects.modify ref (fun p => { p with data, gid, dl, up }) }
  | .drop ref => { s with objects := s.objects.modify ref (fun p => { p with held := false }) }
  | .relist gid listing => { s with groups := update s.groups gid listing }
  | .addProfile k ref gid drawn => if s.isIdle k then s.addProfile k ref gid drawn else s
  | .addProfileBatch k profiles gid drawn => if s.isIdle k then s.addProfileBatch k profiles gid drawn else s
  | .save ref stored => s.save ref stored
  | .saveBatch k profiles => if s.isIdle k then s.saveBatch k profiles else s
  | .saveTraffic k ref => if s.isIdle k then s.saveTraffic k ref else s
  | .saveTrafficBatch profiles ok => s.saveTrafficBatch profiles ok
  | .getProfile id => (s.getProfile id).2
  | .getProfileBatch ids => (getProfileBatch ids s).2
  | .batchDeleteProfiles k ids stop started => if s.isIdle k then s.batchDeleteProfiles k ids stop started else s
  | .deleteGroup k gid => if s.isIdle k then s.deleteGroup k gid else s
  | .locked k ok stored => (s.goes k .idle).locked ok stored (s.threads k)

end Repo

end

end Waterdisco.ProfilesRepo
