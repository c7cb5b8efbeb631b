import Waterdisco.Lib.Keyed

/-!
# The repository of address lists

A list has a header in `ip_lists` and its entries in `ip_list_entries`, in rows of
a generation.  Readers only see the generation the header names; a bulk write
fills another one, chunk by chunk, and flips the header with its last chunk.
Each transaction, and each read under the lock, is one `step` of a call here; its
answer says whether the database carries it out.
-/

namespace Waterdisco.Lists

/-- `IpListEntry`. -/
structure Entry where
  cidr : String
  port : Int := 0
  latencyMs : Int := 0
deriving DecidableEq

/-- `IpList::Role`. -/
inductive Role where
  | user
  | scanResult
  | scanSnapshot
deriving DecidableEq

/-- A row of `ip_lists`, with the columns these calls read. -/
structure Header where
  id : Int
  role : Role := .user
  relatedTestId : Int := -1
  entriesGeneration : Nat := 0
deriving DecidableEq

/-- A row of `ip_list_entries`. -/
structure Row where
  listId : Int
  generation : Nat
  entryOrder : Nat
  entry : Entry
deriving DecidableEq

/-- The tables, and the counter `NewIpListID` draws from. -/
structure Db where
  ipLists : List Header := []
  rows : List Row := []
  ipListLastId : Int := 0
deriving DecidableEq

/-- `kIpListsRepoChunkRows`. -/
def chunkRows : Nat := 20000

/-! ## Statements -/

def header? (db : Db) (id : Int) : Option Header := db.ipLists.find? (fun l => l.id = id)

/-- `ipListsRepoGeneration`. -/
def generation? (db : Db) (id : Int) : Option Nat := (header? db id).map Header.entriesGeneration

/-- The rows of a generation, `ORDER BY entry_order`. -/
def select (db : Db) (id : Int) (generation : Nat) : List Row :=
  sortBy Row.entryOrder (db.rows.filter (fun r => r.listId = id ∧ r.generation = generation))

/-- What readers see of a list; a list that is not there has no entries. -/
def liveEntries (db : Db) (id : Int) : List Entry :=
  match generation? db id with
  | none => []
  | some generation => (select db id generation).map Row.entry

/-- `UPDATE ip_lists SET entries_generation`. -/
def setGeneration (db : Db) (id : Int) (generation : Nat) : Db :=
  { db with ipLists := db.ipLists.map (fun l => if l.id = id then { l with entriesGeneration := generation } else l) }

/-- The primary key and the unique index of the entries. -/
def conflicts (a b : Row) : Bool :=
  decide (a.listId = b.listId) && decide (a.generation = b.generation) &&
    (decide (a.entryOrder = b.entryOrder) ||
      (decide (a.entry.cidr = b.entry.cidr) && decide (a.entry.port = b.entry.port)))

def insertOrIgnore (rows : List Row) (r : Row) : List Row :=
  if rows.any (conflicts r) then rows else rows ++ [r]

/-- `INSERT`: one row that is in the way fails the statement. -/
def insertRows (rows new : List Row) : Option (List Row) :=
  match new with
  | [] => some rows
  | r :: new => if rows.any (conflicts r) then none else insertRows (rows ++ [r]) new

def entryRows (id : Int) (generation : Nat) (entries : List Entry) : List Row :=
  entries.zipIdx.map (fun p => { listId := id, generation := generation, entryOrder := p.2, entry := p.1 })

def insertEntries (db : Db) (id : Int) (generation : Nat) (entries : List Entry) (start stop : Nat) : Db :=
  { db with rows := (((entryRows id generation entries).take stop).drop start).foldl insertOrIgnore db.rows }

/-- `DELETE FROM ip_list_entries` of a generation, up to a bound if there is one. -/
def deleteRows (db : Db) (id : Int) (generation : Nat) (bound : Option Nat) : Db :=
  { db with rows := db.rows.filter (fun r =>
      !(decide (r.listId = id) && decide (r.generation = generation) && bound.all (fun b => r.entryOrder ≤ b))) }

/-- `DELETE FROM ip_lists`; the rows go with the header. -/
def deleteHeader (db : Db) (id : Int) : Db :=
  { db with
    ipLists := db.ipLists.filter (fun l => l.id ≠ id)
    rows := db.rows.filter (fun r => r.listId ≠ id) }

/-- `NewIpListID` and `ipListsRepoInsertHeader` in one transaction. -/
def insertHeader (db : Db) (role : Role) (relatedTestId : Int) : Option (Db × Int) :=
  let id := db.ipListLastId + 1
  if id ≤ 0 then none
  else if (header? db id).isSome then none
  else some ({ db with
    ipLists := db.ipLists ++ [{ id := id, role := role, relatedTestId := relatedTestId }]
    ipListLastId := id }, id)

/-! ## Transactions -/

def uniqueKey (entry : Entry) : String := entry.cidr ++ " " ++ toString entry.port

def uniqueLoop : List Entry → List String → List Entry
  | [], _ => []
  | entry :: entries, seen =>
    if entry.cidr.isEmpty then uniqueLoop entries seen
    else if uniqueKey entry ∈ seen then uniqueLoop entries seen
    else entry :: uniqueLoop entries (uniqueKey entry :: seen)

/-- `ipListsRepoUnique`: the first of each address and port. -/
def unique (entries : List Entry) : List Entry := uniqueLoop entries []

/-- One round of `ipListsRepoPurgeGeneration`, and whether there is more. -/
def purgeChunk (db : Db) (id : Int) (generation : Nat) : Option (Db × Bool) :=
  -- a restore on the main connection can make this generation the live one again
  if generation? db id = some generation then none
  else match (select db id generation)[chunkRows - 1]? with
  | some r => some (deleteRows db id generation (some r.entryOrder), true)
  | none => some (deleteRows db id generation none, false)

/-- The reads of `ipListsRepoPurgeExcept`: a generation below `keep`, else one above. -/
def findStale (db : Db) (id : Int) (keep : Int) : Option Nat :=
  match db.rows.find? (fun r => r.listId = id ∧ (r.generation : Int) < keep) with
  | some r => some r.generation
  | none => (db.rows.find? (fun r => r.listId = id ∧ keep < (r.generation : Int))).map Row.generation

/-- `ipListsRepoBumpGeneration`: a generation above every row. -/
def bumpGeneration (db : Db) (id : Int) (requireDetached : Bool) : Option (Db × Nat) :=
  match header? db id with
  | none => none
  | some l =>
    if requireDetached = true ∧ ¬ (l.role = .scanSnapshot ∧ l.relatedTestId = -1) then none
    else
      let fresh := (db.rows.filter (fun r => r.listId = id)).foldl (fun m r => max m r.generation) l.entriesGeneration + 1
      some (setGeneration db id fresh, fresh)

def chunkEnd (entries : List Entry) (start : Nat) : Nat := min (start + chunkRows) entries.length

/-- One round of `ipListsRepoStage`. -/
def stageChunk (db : Db) (id : Int) (current target : Nat) (entries : List Entry) (start : Nat) : Option Db :=
  if generation? db id = some current then
    let staged := insertEntries db id target entries start (chunkEnd entries start)
    some (if chunkEnd entries start = entries.length then setGeneration staged id target else staged)
  else none

/-- One round of the copy in `CopyAsUserList`; the bound is where the next one goes on. -/
def copyChunk (db : Db) (id sourceId : Int) (sourceGeneration : Nat) (after : Option Nat) :
    Option (Db × Option Nat) :=
  if generation? db id = some 0 then
    let rest := (select db sourceId sourceGeneration).filter (fun r => after.all (fun a => a < r.entryOrder))
    let bound := rest[chunkRows - 1]?.map Row.entryOrder
    let new := (rest.filter (fun r => bound.all (fun b => r.entryOrder ≤ b))).map
      (fun r => { r with listId := id, generation := 1 })
    match insertRows db.rows new with
    | none => none
    | some rows =>
      some (if bound.isNone then setGeneration { db with rows := rows } id 1 else { db with rows := rows }, bound)
  else none

/-- `ipListsRepoPurgeLeftovers`. -/
def purgeLeftovers (db : Db) : Db :=
  let stale := db.ipLists.filter (fun l =>
    db.rows.any (fun r => r.listId = l.id ∧ r.generation < l.entriesGeneration) ||
      db.rows.any (fun r => r.listId = l.id ∧ l.entriesGeneration < r.generation))
  { db with rows := stale.foldl (fun rows l =>
      (rows.filter (fun r => !(decide (r.listId = l.id) && decide (r.generation < l.entriesGeneration)))).filter
        (fun r => !(decide (r.listId = l.id) && decide (l.entriesGeneration < r.generation)))) db.rows }

/-- `createTables` on tables that are there. -/
def createTables (db : Db) : Db := purgeLeftovers db

/-! ## Calls -/

/-- What follows an `ipListsRepoPurgeExcept`. -/
inductive Next where
  | stage (current : Nat) (entries : List Entry)
  | finish
  | discard (expected : Int) (result : Bool)
deriving DecidableEq

/-- Where a call stands. -/
inductive Pc where
  | replace (entries : List Entry)
  | clear
  | delete (onlyIfDetached : Bool)
  | add (role : Role) (relatedTestId : Int) (entries : List Entry)
  | copy (sourceId : Int)
  | findStale (keep : Int) (next : Next)
  | purgeStale (keep : Int) (stale : Nat) (next : Next)
  | stage (current : Nat) (entries : List Entry) (start : Nat) (added : Bool)
  | purge (generation : Nat) (result : Bool)
  | copyChunk (sourceId : Int) (sourceGeneration : Nat) (after : Option Nat)
  | dropHeader (expected : Int) (purged result : Bool)
  | done (result : Bool)
deriving DecidableEq

structure Call where
  id : Int
  pc : Pc
deriving DecidableEq

/-- After the purge, which `purged` or gave up. -/
def Next.pc : Next → Bool → Pc
  | .stage current entries, true => .stage current entries 0 false
  | .stage _ _, false => .done false
  | .finish, _ => .done true
  | .discard expected result, purged => .dropHeader expected purged result

/-- The last statement of `ipListsRepoDiscard`. -/
def dropHeader (db : Db) (id : Int) (expected : Int) (purged : Bool) : Db :=
  if expected < 0 then deleteHeader db id
  else if purged = true ∧ (generation? db id).any (fun g => (g : Int) = expected) then deleteHeader db id
  else db

/-- One transaction or one read of a call; `ok` is whether the database carries it out. -/
def step (db : Db) (c : Call) (ok : Bool) : Db × Call :=
  let goes := fun (db : Db) (pc : Pc) => (db, { c with pc := pc })
  match c.pc with
  | .replace entries =>
    match if ok then generation? db c.id else none with
    | none => goes db (.done false)
    | some current => goes db (.findStale current (.stage current entries))
  | .clear =>
    match if ok then bumpGeneration db c.id false else none with
    | none => goes db (.done false)
    | some (db', fresh) => goes db' (.findStale fresh .finish)
  | .delete onlyIfDetached =>
    match if ok then bumpGeneration db c.id onlyIfDetached else none with
    | none => goes db (.done false)
    | some (db', fresh) => goes db' (.findStale fresh (.discard fresh true))
  | .add role relatedTestId entries =>
    match if ok then insertHeader db role relatedTestId else none with
    | none => goes db (.done false)
    | some (db', id) =>
      if chunkRows < entries.length then (db', { id := id, pc := .stage 0 entries 0 true })
      else (insertEntries db' id 0 entries 0 entries.length, { id := id, pc := .done true })
  | .copy sourceId =>
    match if ok then generation? db sourceId else none with
    | none => goes db (.done false)
    | some sourceGeneration =>
      match insertHeader db .user (-1) with
      | none => goes db (.done false)
      | some (db', id) => (db', { id := id, pc := .copyChunk sourceId sourceGeneration none })
  | .findStale keep next =>
    if ok = false then goes db (next.pc false)
    else match findStale db c.id keep with
    | some stale => goes db (.purgeStale keep stale next)
    | none => goes db (next.pc true)
  | .purgeStale keep stale next =>
    match if ok then purgeChunk db c.id stale else none with
    | none => goes db (next.pc false)
    | some (db', more) => goes db' (if more then .purgeStale keep stale next else .findStale keep next)
  | .stage current entries start added =>
    match if ok then stageChunk db c.id current (current + 1) entries start else none with
    | none =>
      goes db (if added then .findStale (-1) (.discard (-1) false) else .purge (current + 1) false)
    | some db' =>
      if chunkEnd entries start < entries.length then
        goes db' (.stage current entries (chunkEnd entries start) added)
      else goes db' (if added then .done true else .purge current true)
  | .purge generation result =>
    match if ok then purgeChunk db c.id generation else none with
    | none => goes db (.done result)
    | some (db', more) => goes db' (if more then .purge generation result else .done result)
  | .copyChunk sourceId sourceGeneration after =>
    match if ok then copyChunk db c.id sourceId sourceGeneration after else none with
    | none => goes db (.findStale (-1) (.discard (-1) false))
    | some (db', bound) =>
      goes db' (if bound.isNone then .done true else .copyChunk sourceId sourceGeneration bound)
  | .dropHeader expected purged result =>
    goes (if ok then dropHeader db c.id expected purged else db) (.done result)
  | .done result => goes db (.done result)

/-- The calls with their arguments; the id of an added list is its id before the call. -/
inductive Op where
  | ReplaceEntries (id : Int) (entries : List Entry)
  | ClearEntries (id : Int)
  | DeleteIpList (id : Int) (onlyIfDetached : Bool)
  | AddIpList (id : Int) (role : Role) (relatedTestId : Int) (entries : List Entry)
  | CopyAsUserList (sourceId : Int)

/-- A call before its first statement. -/
def Op.call : Op → Call
  | .ReplaceEntries id entries => { id := id, pc := if id < 0 then .done false else .replace (unique entries) }
  | .ClearEntries id => { id := id, pc := if id < 0 then .done false else .clear }
  | .DeleteIpList id onlyIfDetached => { id := id, pc := if id < 0 then .done false else .delete onlyIfDetached }
  | .AddIpList id role relatedTestId entries =>
    { id := id, pc := if 0 ≤ id then .done false else .add role relatedTestId (unique entries) }
  | .CopyAsUserList sourceId => { id := -1, pc := if sourceId < 0 then .done false else .copy sourceId }

/-- A call alone: it makes as many steps as there are answers. -/
def run (db : Db) (op : Op) (answers : List Bool) : Db × Call :=
  answers.foldl (fun s ok => step s.1 s.2 ok) (db, op.call)

end Waterdisco.Lists
