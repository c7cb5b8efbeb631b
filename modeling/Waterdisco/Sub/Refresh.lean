import Mathlib.Data.List.Dedup
import Mathlib.Data.List.Count
import Waterdisco.Sub.Import

/-!
# A subscription refresh

`applyRefresh` fits the arrivals of a document into a group: it clears the group
if asked to, imports the document against what is left, plans the difference,
writes the new listing, deletes what went stale and puts the survivors of that
delete back.

The listing is written before the delete runs.  The survivors that are put back
are the running profile and the working ones, so rows and listing agree in the
end exactly when the delete left no other row behind:

    ListingOk after ↔ the transaction of the diff's delete commits
                      ∨ no row it was to delete exists     (applyRefresh_listingOk_iff)

Left out: notices, logs and events, and the profile a delete stopped, which only
a reconnect reads.
-/

namespace Waterdisco.Sub

open Waterdisco.Db

inductive Failure where
  | none
  | fetch
  | empty
  | database
deriving DecidableEq

structure UpdateOutcome where
  failure : Failure := .none
  error : String := ""
  added : Nat := 0
  updated : Nat := 0
  removed : Nat := 0
  kept : Nat := 0

/-- What the outside decides in one refresh. -/
structure RefreshEnv where
  /-- The profiles `ParseDocument` finds in the body. -/
  arrivals : List Profile := []
  inserts : Nat → InsertOutcome := fun _ => .inserted true []
  clearDelete : DeleteEnv := {}
  diffDelete : DeleteEnv := {}
  flaggedDelete : DeleteEnv := {}
  /-- `Configs::IsValid`, asked of the core. -/
  isValid : Profile → Bool := fun _ => true
  coreUnreachable : Bool := false
  /-- `ProfileIdComesBefore` under the group's sort. -/
  comesBefore : Int → Int → Bool := fun _ _ => false

/-! ## Deleting -/

structure DeleteOutcome where
  ok : Bool := false
  deleted : List Int := []
  kept : List Int := []

/-- `BatchDeleteProfiles` silently drops the running profile from the list it was handed. -/
def deleteProfiles (s : Store) (ids : List Int) (env : DeleteEnv) : DeleteOutcome × Store :=
  let (ok, deleted, s) := s.batchDeleteProfiles ids s.allowStoppingActiveProfile env
  ({ ok, deleted, kept := ids.dedup.filter fun id => !decide (id ∈ deleted) }, s)

/-- `ProfileFilter::Uniq` with `keep_last` off. -/
def uniq (profiles : List Profile) : List Profile :=
  profiles.foldl (fun out ent =>
    if ent.outbound.exportJsonLink ∈ out.map (·.outbound.exportJsonLink) then out else out ++ [ent]) []

/-- Flags the profiles that match and are not flagged yet. -/
def collect (profiles : List Profile) (doomed : List Int) (isMatch : Profile → Bool) : List Int :=
  profiles.foldl (fun doomed ent =>
    if ent.id ∈ doomed ∨ isMatch ent = false then doomed else doomed ++ [ent.id]) doomed

def flaggedIds (env : RefreshEnv) (options : SubscriptionOptions) (profiles : List Profile) : List Int :=
  let doomed := if options.removeDuplicates then
      collect profiles [] fun ent => !decide (ent.id ∈ (uniq profiles).map (·.id)) else []
  let doomed := if options.removeInsecure then collect profiles doomed (·.outbound.insecure) else doomed
  if options.removeInvalid then
    if env.coreUnreachable then doomed else collect profiles doomed fun ent => !env.isValid ent
  else doomed

def removeFlagged (env : RefreshEnv) (s : Store) (ids : List Int) (options : SubscriptionOptions) :
    DeleteOutcome × Store :=
  if options.removeDuplicates = false ∧ options.removeInsecure = false ∧ options.removeInvalid = false then
    ({ ok := true }, s)
  else
    let doomed := flaggedIds env options (s.getProfileBatch ids)
    if doomed.isEmpty then ({ ok := true }, s) else deleteProfiles s doomed env.flaggedDelete

/-! ## The listing -/

/-- The auto selectors of a listing, with their positions. -/
def stickyOf (selectors listing : List Int) : List (Nat × Int) :=
  (listing.zipIdx.filter fun p => decide (p.1 ∈ selectors)).map fun p => (p.2, p.1)

/-- The listing without its auto selectors. -/
def membersOf (sticky : List (Nat × Int)) (listing : List Int) : List Int :=
  listing.filter fun id => !decide (id ∈ sticky.map (·.2))

def insertSticky (listing : List Int) (sticky : List (Nat × Int)) : List Int :=
  sticky.foldl (fun l p => l.insertIdx (min p.1 l.length) p.2) listing

/-- Nothing rebuilds the listing from the rows: a survivor left out here is orphaned. -/
def restore (previousOrder listing : List Int) (id : Int) : List Int :=
  if id ∈ listing then listing
  else match previousOrder.idxOf? id with
    | none => listing.insertIdx listing.length id
    | some position => listing.insertIdx (min position listing.length) id

/-- `Group::Resort`. -/
def resort (env : RefreshEnv) (s : Store) (gid : Int) : Store :=
  match s.getGroup gid with
  | none => s
  | some g =>
    if g.keepsSorted then
      s.relist gid fun l =>
        let sorted := l.mergeSort fun a b => !env.comesBefore b a
        (sorted.filter fun id => !decide (id ∈ s.disabledProfiles)) ++
          sorted.filter fun id => decide (id ∈ s.disabledProfiles)
    else s

/-! ## The stages -/

section
variable (digest : List UInt8 → Digest) (env : RefreshEnv) (gid : Int)

def oldEntryOf (ent : Profile) : OldEntry where
  id := ent.id
  keys := { content := contentKeyOf digest ent, identity := identityKeyOf digest ent }
  display := ent.outbound.displayTypeAndName

/-- `sub_clear`: what is not working goes first. -/
def clearStage (s : Store) (options : SubscriptionOptions) (sticky : List (Nat × Int)) :
    DeleteOutcome × Store :=
  let doomed := membersOf sticky (s.listing gid)
  let doomed := if options.keepWorking then
      doomed.filter fun id =>
        !decide (id ∈ ((s.getProfileBatch doomed).filter (·.isWorking)).map (·.id))
    else doomed
  deleteProfiles s doomed env.clearDelete

/-- The update pair `(oldId, newId)`: the old row takes the new row's outbound. -/
def applyUpdate (s : Store) (pair : Int × Int) : Store :=
  match s.getProfile pair.1, s.getProfile pair.2 with
  | some oldEnt, some newEnt =>
    s.save { oldEnt with
      outbound := { newEnt.outbound with profileId := pair.1 }
      name := newEnt.outbound.name }
  | _, _ => s

/-- The diff branch up to its delete: the plan, the ids that go stale, those that
stay because they work, and the store with the new listing. -/
structure DiffStage where
  old : List OldEntry
  plan : ReconcilePlan
  stale : List Int
  keptWorking : List Int
  previousOrder : List Int
  store : Store

def diffStage (s : Store) (options : SubscriptionOptions) (sticky : List (Nat × Int)) : DiffStage :=
  let ents := s.getProfileBatch (membersOf sticky (s.listing gid))
  let old := ents.map (oldEntryOf digest)
  let working := if options.keepWorking then (ents.filter (·.isWorking)).map (·.id) else []
  let imported := importAll digest env.inserts
    { store := s, sink := { gid, index := some (ContentIndex.ofOld old) } } env.arrivals
  let plan := reconcile old imported.sink.entries (imported.sink.index.getD (ContentIndex.ofOld old))
  let updated := plan.updates.foldl applyUpdate imported.store
  { old, plan
    stale := plan.stale.filter fun id => !decide (id ∈ working)
    keptWorking := plan.stale.filter fun id => decide (id ∈ working)
    previousOrder := updated.listing gid
    store := updated.relist gid fun _ => insertSticky plan.order sticky }

/-- The delete of the diff branch and the survivors put back. -/
def diffDelete (d : DiffStage) : DeleteOutcome × Store :=
  let (outcome, s) := deleteProfiles d.store d.stale env.diffDelete
  (outcome, s.relist gid fun l => (outcome.kept ++ d.keptWorking).foldl (restore d.previousOrder) l)

/-- The end of a refresh: the flagged profiles go, and the kept sort is applied. -/
def finishStage (s : Store) (options : SubscriptionOptions) (sticky : List (Nat × Int)) :
    DeleteOutcome × Store :=
  let (flagged, s) := removeFlagged env s (membersOf sticky (s.listing gid)) options
  (flagged, resort env s gid)

def databaseFailure (result : UpdateOutcome) : UpdateOutcome :=
  { result with failure := .database, error := "Some profiles could not be deleted from the database." }

/-- The diff branch and what follows it; `removed` were deleted by the clearing. -/
def refreshDiff (s : Store) (options : SubscriptionOptions) (sticky : List (Nat × Int)) (removed : Nat) :
    UpdateOutcome × Store :=
  let d := diffStage digest env gid s options sticky
  let (outcome, s) := diffDelete env gid d
  let (flagged, s) := finishStage env gid s options sticky
  let result : UpdateOutcome := {
    added := d.plan.added.length
    updated := d.plan.updates.length
    removed := removed + (d.old.filter fun e => decide (e.id ∈ outcome.deleted)).length +
      flagged.deleted.length
    kept := (outcome.kept ++ d.keptWorking ++ flagged.kept).dedup.length }
  (if outcome.ok && flagged.ok then result else databaseFailure result, s)

/-- A cleared group takes the whole document. -/
def refreshCleared (s : Store) (options : SubscriptionOptions) (sticky : List (Nat × Int)) (removed : Nat) :
    UpdateOutcome × Store :=
  let imported := importAll digest env.inserts { store := s, sink := { gid } } env.arrivals
  let (flagged, s) := finishStage env gid imported.store options sticky
  let result : UpdateOutcome := {
    added := (imported.sink.entries.filter (·.stored)).length
    removed := removed + flagged.deleted.length
    kept := flagged.kept.dedup.length }
  (if flagged.ok then result else databaseFailure result, s)

end

/-- Where a refresh goes once the document is fetched. -/
inductive Route where
  | stop (result : UpdateOutcome) (store : Store)
  | cleared (store : Store) (removed : Nat)
  | diff (store : Store) (removed : Nat)

section
variable (digest : List UInt8 → Digest) (trimmed : String → String) (env : RefreshEnv)

def route (s : Store) (g : Group) (url : String) (sticky : List (Nat × Int)) : Route :=
  if trimmed g.url ≠ url then
    .stop { failure := .fetch, error := "The subscription URL changed during the update." } s
  else if env.arrivals.isEmpty then .stop { failure := .empty } s
  else if s.subClear then
    let (outcome, s) := clearStage env g.id s g.subOptions sticky
    if outcome.ok = false then
      .stop { failure := .database
              error := "The old profiles could not be deleted from the database." } s
    else if (membersOf sticky (s.listing g.id)).isEmpty then .cleared s outcome.deleted.length
    else .diff s outcome.deleted.length
  else .diff s 0

/-- The auto selectors of the group when the refresh begins. -/
def groupSticky (s : Store) (g : Group) : List (Nat × Int) :=
  stickyOf (s.getProfileIdsByType "autoselector") (s.listing g.id)

def applyRefresh (s : Store) (g : Group) (url : String) : UpdateOutcome × Store :=
  let sticky := groupSticky s g
  match route trimmed env s g url sticky with
  | .stop result s => (result, s)
  | .cleared s removed => refreshCleared digest env g.id s g.subOptions sticky removed
  | .diff s removed => refreshDiff digest env g.id s g.subOptions sticky removed

end

end Waterdisco.Sub
