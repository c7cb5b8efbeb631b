import Waterdisco.Lib.Batches
import Waterdisco.Scan.ListStore

/-!
# Upserting and removing entries

Both calls go through their entries in chunks, each in a transaction of its own that
re-reads the generation and, to insert, the highest order.  To a reader an upsert is
the fold of `upsertEntry`, which this sums up (`foldl_upsertEntry`):

    the old entries, then the new pairs, each with the last latency that was given for it
-/

namespace Waterdisco.Lists

open List Bool Nat
open Scan (sameKey upsertEntry)

/-! ## The calls -/

/-- The rows, the next order and the rows appended so far. -/
structure Upserting where
  rows : List Row
  order : Nat
  appended : Nat := 0

def isRowOf (id : Int) (generation : Nat) (e : Entry) (r : Row) : Bool :=
  decide (r.listId = id ∧ r.generation = generation ∧ r.entry.cidr = e.cidr ∧ r.entry.port = e.port)

def setLatency (id : Int) (generation : Nat) (e : Entry) (r : Row) : Row :=
  if isRowOf id generation e r then { r with entry := { r.entry with latencyMs := e.latencyMs } } else r

/-- `INSERT OR IGNORE`, and `UPDATE` where it inserted nothing. -/
def upsertRow (id : Int) (generation : Nat) (s : Upserting) (e : Entry) : Upserting :=
  if e.cidr.isEmpty then s
  else
    let rows := insertOrIgnore s.rows ⟨id, generation, s.order, e⟩
    if s.rows.length < rows.length then ⟨rows, s.order + 1, s.appended + 1⟩
    else { s with rows := rows.map (setLatency id generation e) }

def upsertChunk (id : Int) (db : Db) (generation : Nat) (chunk : List Entry) : Db × Nat :=
  let order := match (select db id generation).getLast? with
    | some r => r.entryOrder + 1
    | none => 0
  let s := chunk.foldl (upsertRow id generation) { rows := db.rows, order }
  ({ db with rows := s.rows }, s.appended)

def removeRow (id : Int) (generation : Nat) (s : List Row × Nat) (e : Entry) : List Row × Nat :=
  (s.1.filter fun r => !isRowOf id generation e r, s.2 + s.1.countP (isRowOf id generation e))

def removeChunk (id : Int) (db : Db) (generation : Nat) (chunk : List Entry) : Db × Nat :=
  let s := chunk.foldl (removeRow id generation) (db.rows, 0)
  ({ db with rows := s.1 }, s.2)

/-- The chunks from number `k` on; `commits` tells which transactions the database carries out. -/
def chunkLoop (work : Db → Nat → List Entry → Db × Nat) (id : Int) (commits : Nat → Bool) :
    List (List Entry) → Nat → Option Nat → Db → Db × Nat
  | [], _, _, db => (db, 0)
  | chunk :: chunks, k, pinned, db =>
    match generation? db id with
    | none => (db, 0)
    | some generation =>
      -- replaced between two chunks
      if pinned.any (· != generation) || !commits k then (db, 0)
      else
        let (db', n) := work db generation chunk
        let (db'', m) := chunkLoop work id commits chunks (k + 1) (some generation) db'
        (db'', n + m)

def inChunks (work : Db → Nat → List Entry → Db × Nat) (db : Db) (id : Int) (entries : List Entry)
    (commits : Nat → Bool) : Db × Nat :=
  if id < 0 ∨ entries = [] then (db, 0) else chunkLoop work id commits (batches chunkRows entries) 0 none db

def UpsertEntries (db : Db) (id : Int) : List Entry → (Nat → Bool) → Db × Nat := inChunks (upsertChunk id) db id

def RemoveEntries (db : Db) (id : Int) : List Entry → (Nat → Bool) → Db × Nat := inChunks (removeChunk id) db id

/-! ## What a reader sees -/

/-- The address and port, with the last latency that is given for them. -/
def lastGiven (entries : List Entry) (x : Entry) : Entry :=
  match (entries.filter fun e => e.cidr ≠ "" && sameKey e x).getLast? with
  | some e => { x with latencyMs := e.latencyMs }
  | none => x

/-- The first entry of each new address and port. -/
def newPairs (old : List Entry) : List Entry → List Entry
  | [] => []
  | e :: entries =>
    if e.cidr = "" || old.any (sameKey e) then newPairs old entries else e :: newPairs (old ++ [e]) entries

theorem sameKey_iff {a b : Entry} : sameKey a b = true ↔ a.cidr = b.cidr ∧ a.port = b.port := by simp [sameKey]

theorem newPairs_congr {old old' : List Entry} (h : ∀ e, old.any (sameKey e) = old'.any (sameKey e))
    (entries : List Entry) :
    newPairs old entries = newPairs old' entries := by
  induction entries generalizing old old' with
  | nil => rfl
  | cons e entries ih =>
    have hsnoc : ∀ x, (old ++ [e]).any (sameKey x) = (old' ++ [e]).any (sameKey x) := fun x => by
      rw [any_append, any_append, h x]
    rw [newPairs, newPairs, h e, ih h, ih hsnoc]

theorem mem_newPairs {old entries : List Entry} {x : Entry} (h : x ∈ newPairs old entries) :
    old.any (sameKey x) = false := by
  induction entries generalizing old with
  | nil => cases h
  | cons e entries ih =>
    rw [newPairs] at h
    split at h
    · exact ih h
    rename_i hnew
    rcases mem_cons.mp h with rfl | h
    · exact (or_eq_false_iff.mp (eq_false_iff.mpr hnew)).2
    have hall := ih h
    rw [any_append, or_eq_false_iff] at hall
    exact hall.1

/-- What one entry does to the latency of a row. -/
def given (e x : Entry) : Entry := if sameKey e x then { x with latencyMs := e.latencyMs } else x

theorem given_of_ne {e x : Entry} (h : sameKey e x = false) : given e x = x := by rw [given, h]; rfl

theorem sameKey_given (a e x : Entry) : sameKey a (given e x) = sameKey a x := by
  unfold given
  split <;> rfl

theorem lastGiven_cons {e : Entry} (he : e.cidr ≠ "") (entries : List Entry) (x : Entry) :
    lastGiven (e :: entries) x = lastGiven entries (given e x) := by
  unfold lastGiven
  simp only [List.filter_cons, sameKey_given, he, ne_eq, not_false_eq_true, decide_true, Bool.true_and]
  cases hkey : sameKey e x with
  | false => rw [given_of_ne hkey]; rfl
  | true =>
    rw [if_pos rfl, List.getLast?_cons]
    cases (entries.filter fun e => decide (¬e.cidr = "") && sameKey e x).getLast? <;> simp [given, hkey]

theorem lastGiven_empty {e : Entry} (he : e.cidr = "") (entries : List Entry) :
    lastGiven (e :: entries) = lastGiven entries := by
  funext x
  simp [lastGiven, he]

/-- A pair that is there is no new one. -/
theorem newPairs_given {old : List Entry} {e : Entry} (hold : old.any (sameKey e) = true) (entries : List Entry) :
    (newPairs old entries).map (given e) = newPairs old entries := by
  have hsame : ∀ x ∈ newPairs old entries, given e x = id x := fun x hx => given_of_ne <| eq_false_iff.mpr fun hkey => by
    obtain ⟨y, hy, hey⟩ := any_eq_true.mp hold
    rw [sameKey_iff] at hkey hey
    have hxy : sameKey x y = true := sameKey_iff.mpr ⟨hkey.1.symm.trans hey.1, hkey.2.symm.trans hey.2⟩
    exact absurd (any_eq_true.mpr ⟨y, hy, hxy⟩) (by simp [mem_newPairs hx])
  rw [map_congr_left hsame, map_id]

theorem foldl_upsertEntry (old entries : List Entry) :
    entries.foldl upsertEntry old = (old ++ newPairs old entries).map (lastGiven entries) := by
  induction entries generalizing old with
  | nil =>
    have hid : lastGiven [] = id := rfl
    rw [newPairs, List.append_nil, hid, List.map_id, List.foldl_nil]
  | cons e entries ih =>
    rw [List.foldl_cons, newPairs, ih, upsertEntry]
    by_cases he : e.cidr = ""
    · simp [he, lastGiven_empty he]
    have hlast : ∀ l : List Entry, l.map (lastGiven (e :: entries)) =
      (l.map (given e)).map (lastGiven entries) := fun l => by
      rw [List.map_map]
      exact List.map_congr_left fun x _ => lastGiven_cons he entries x
    rw [hlast, if_neg he]
    cases hold : old.any (sameKey e) with
    | true =>
      have hkeys : ∀ x, (old.map (given e)).any (sameKey x) = old.any (sameKey x) := fun x => by
        rw [List.any_map]
        exact congrArg old.any (funext fun y => sameKey_given x e y)
      simp only [he, decide_false, Bool.or_true, if_true, List.map_append, newPairs_given hold]
      rw [← newPairs_congr hkeys]
      rfl
    | false =>
      have hself : given e e = e := by unfold given; split <;> rfl
      have hsame : ∀ x ∈ old, given e x = id x := fun x hx => given_of_ne (by simpa using List.any_eq_false.mp hold x hx)
      have hmem : (old ++ [e]).any (sameKey e) = true := by simp [sameKey_iff]
      simp only [he, decide_false, Bool.or_false, Bool.false_eq_true, if_false, List.map_append,
        List.map_cons, newPairs_given hmem,
        hself, List.map_congr_left hsame, List.map_id]
      simp

/-! ## A chunk -/

variable {db : Db} {id : Int} {g : Nat} {entries : List Entry}

theorem select_map (db : Db) {f : Row → Row} (hf : ∀ r, (f r).listId = r.listId ∧ (f r).generation = r.generation ∧
    (f r).entryOrder = r.entryOrder) (j : Int) (g' : Nat) :
    select { db with rows := db.rows.map f } j g' = (select db j g').map f := by
  have hpred : ((fun r : Row => decide (r.listId = j ∧ r.generation = g')) ∘ f) =
    fun r => decide (r.listId = j ∧ r.generation = g') := by
    funext r
    simp [hf r]
  rw [select, filter_map, hpred, sortBy_map _ _ fun r => (hf r).2.2, ← select]

/-- What a reader sees afterwards, with `n` entries more; nothing else is read differently. -/
structure Upserted (db : Db) (id : Int) (g : Nat) (entries : List Entry) (db' : Db) (n : Nat) : Prop where
  lists : db'.ipLists = db.ipLists
  wf : Wf db'
  live : (select db' id g).map Row.entry = entries.foldl upsertEntry ((select db id g).map Row.entry)
  count : n + (select db id g).length = (select db' id g).length
  others : ∀ j g', ¬ (j = id ∧ g' = g) → select db' j g' = select db j g'

/-- In a chunk: the next order is free. -/
structure Filled (db : Db) (id : Int) (g : Nat) (done : List Entry) (s : Upserting) : Prop
    extends Upserted db id g done { db with rows := s.rows } s.appended where
  order : ∀ r ∈ select { db with rows := s.rows } id g, r.entryOrder < s.order

theorem setLatency_keys (e : Entry) (r : Row) : (setLatency id g e r).listId = r.listId ∧
    (setLatency id g e r).generation = r.generation ∧ (setLatency id g e r).entryOrder = r.entryOrder := by
  unfold setLatency
  split <;> exact ⟨rfl, rfl, rfl⟩

theorem conflicts_setLatency (e : Entry) (a b : Row) :
    conflicts (setLatency id g e a) (setLatency id g e b) = conflicts a b := by
  unfold setLatency
  split <;> split <;> rfl

theorem Filled.update {done : List Entry} {s : Upserting} (h : Filled db id g done s) {e : Entry}
    (hlive : (done ++ [e]).foldl upsertEntry ((select db id g).map Row.entry) =
      ((select { db with rows := s.rows } id g).map Row.entry).map (given e)) :
    Filled db id g (done ++ [e]) { s with rows := s.rows.map (setLatency id g e) } := by
  have hselect := select_map { db with rows := s.rows } (@setLatency_keys id g e)
  refine ⟨⟨rfl, ⟨h.wf.ids, pairwise_map.mpr (h.wf.rows.imp ?_), fun r hr => ?_⟩, ?_, ?_,
    fun j g' hne => ?_⟩, fun r hr => ?_⟩
  · exact fun hab => (conflicts_setLatency e _ _).trans hab
  · obtain ⟨r, hin, rfl⟩ := mem_map.mp hr
    rw [(setLatency_keys e r).1]
    exact h.wf.parent r hin
  · rw [hselect, hlive, map_map, map_map]
    refine map_congr_left fun r hr => ?_
    obtain ⟨-, rfl, rfl⟩ := mem_select.mp hr
    have hkey : isRowOf r.listId r.generation e r = sameKey e r.entry := by simp [isRowOf, sameKey, eq_comm]
    simp only [Function.comp, setLatency, given, hkey]
    split <;> rfl
  · rw [hselect, length_map]
    exact h.count
  · have hsame : ∀ r ∈ select db j g', setLatency id g e r = r := fun r hr => by
      obtain ⟨-, rfl, rfl⟩ := mem_select.mp hr
      exact if_neg (by simp only [isRowOf, decide_eq_true_eq]; exact fun hrow => hne ⟨hrow.1, hrow.2.1⟩)
    rw [hselect, h.others j g' hne, map_congr_left hsame, map_id']
  · rw [hselect] at hr
    obtain ⟨r, hin, rfl⟩ := mem_map.mp hr
    rw [(setLatency_keys e r).2.2]
    exact h.order r hin

theorem Filled.insert {done : List Entry} {s : Upserting} (h : Filled db id g done s)
    (hg : generation? db id = some g) {e : Entry}
    (hnew : s.rows.any (conflicts ⟨id, g, s.order, e⟩) = false)
    (hlive : (done ++ [e]).foldl upsertEntry ((select db id g).map Row.entry) =
      (select { db with rows := s.rows } id g).map Row.entry ++ [e]) :
    Filled db id g (done ++ [e]) ⟨s.rows ++ [⟨id, g, s.order, e⟩], s.order + 1, s.appended + 1⟩ := by
  have hselect := select_append { db with rows := s.rows } { db with rows := s.rows ++ [⟨id, g, s.order, e⟩] } [⟨id, g, s.order, e⟩] id g rfl
    (by simp) (pairwise_singleton _ _) fun a ha b hb => by rw [mem_singleton.mp hb]; exact le_of_lt (h.order a ha)
  refine ⟨⟨rfl, ⟨h.wf.ids, pairwise_snoc h.wf.rows hnew, fun r hr => ?_⟩, ?_, ?_, fun j g' hne => ?_⟩, fun r hr => ?_⟩
  · rcases mem_append.mp hr with hr | hr
    · exact h.wf.parent r hr
    · rw [mem_singleton.mp hr]
      exact Option.isSome_iff_exists.mpr ⟨g, hg⟩
  · rw [hselect, hlive, map_append]
    rfl
  · rw [hselect, length_append, ← h.count]
    exact Nat.add_right_comm _ _ _
  · rw [← h.others j g' hne]
    refine select_append_of_ne { db with rows := s.rows } _ _ j g' rfl fun r hr => ?_
    rw [mem_singleton.mp hr]
    exact fun hrow => hne ⟨hrow.1.symm, hrow.2.symm⟩
  · rw [hselect] at hr
    rcases mem_append.mp hr with hr | hr
    · exact lt_succ_of_lt (h.order r hr)
    · rw [mem_singleton.mp hr]
      exact lt_succ_self _

theorem Filled.row {done : List Entry} {s : Upserting} (h : Filled db id g done s)
    (hg : generation? db id = some g) (e : Entry) :
    Filled db id g (done ++ [e]) (upsertRow id g s e) := by
  unfold upsertRow
  by_cases he : e.cidr = ""
  · rw [if_pos (by simp [he])]
    exact { h with live := by rw [h.live, List.foldl_append]; simp [upsertEntry, he] }
  rw [if_neg (by simpa using he)]
  have hany : s.rows.any (conflicts ⟨id, g, s.order, e⟩) =
    ((select { db with rows := s.rows } id g).map Row.entry).any (sameKey e) := by
    rw [Bool.eq_iff_iff, List.any_map, List.any_eq_true, List.any_eq_true]
    constructor
    · rintro ⟨r, hr, hconf⟩
      simp only [conflicts, Bool.and_eq_true, Bool.or_eq_true, decide_eq_true_eq] at hconf
      have hin : r ∈ select { db with rows := s.rows } id g := mem_select.mpr ⟨hr, hconf.1.1.symm, hconf.1.2.symm⟩
      rcases hconf.2 with horder | hkey
      · exact absurd (h.order r hin) (by omega)
      · exact ⟨r, hin, sameKey_iff.mpr hkey⟩
    · rintro ⟨r, hr, hkey⟩
      obtain ⟨hin, rfl, rfl⟩ := mem_select.mp hr
      exact ⟨r, hin, by simpa [conflicts] using .inr (sameKey_iff.mp hkey)⟩
  have hfold : (done ++ [e]).foldl upsertEntry ((select db id g).map Row.entry) =
      upsertEntry ((select { db with rows := s.rows } id g).map Row.entry) e := by rw [h.live, List.foldl_append]; rfl
  rw [upsertEntry, if_neg he, ← hany] at hfold
  unfold insertOrIgnore
  split at hfold <;> rename_i hold
  · simp only [if_pos hold, Nat.lt_irrefl, if_false]
    exact h.update hfold
  · simp only [if_neg hold, List.length_append, List.length_singleton, Nat.lt_add_one, if_true]
    exact h.insert hg (by simpa using hold) hfold

theorem upsertChunk_spec (hdb : Wf db) (hg : generation? db id = some g) (chunk : List Entry) :
    Upserted db id g chunk (upsertChunk id db g chunk).1 (upsertChunk id db g chunk).2 := by
  suffices hrows : ∀ (chunk done : List Entry) (s : Upserting), Filled db id g done s →
      Filled db id g (done ++ chunk) (chunk.foldl (upsertRow id g) s) by
    refine (hrows chunk [] _ ⟨⟨rfl, hdb, rfl, Nat.zero_add _, fun _ _ _ => rfl⟩, fun r hr => ?_⟩).toUpserted
    have hstrict := select_strict hdb id g
    split
    · rename_i last hlast
      obtain ⟨init, heq⟩ := getLast?_eq_some_iff.mp hlast
      rw [heq] at hr hstrict
      rcases mem_append.mp hr with hr | hr
      · exact lt_succ_of_lt ((pairwise_append.mp hstrict).2.2 r hr last (mem_singleton_self _))
      · rw [mem_singleton.mp hr]
        exact lt_succ_self _
    · rename_i hlast
      rw [getLast?_eq_none_iff.mp hlast] at hr
      cases hr
  intro chunk
  induction chunk with
  | nil => simp
  | cons e chunk ih =>
    intro done s h
    simpa using ih _ _ (h.row hg e)

theorem Upserted.append {a b : List Entry} {db' db'' : Db} {n m : Nat} (h : Upserted db id g a db' n)
    (h' : Upserted db' id g b db'' m) : Upserted db id g (a ++ b) db'' (n + m) where
  lists := h'.lists.trans h.lists
  wf := h'.wf
  live := by rw [h'.live, h.live, foldl_append]
  count := by rw [← h'.count, ← h.count]; omega
  others j g' hne := (h'.others j g' hne).trans (h.others j g' hne)

/-- The rows of the named pairs are gone. -/
structure Removed (db : Db) (id : Int) (g : Nat) (entries : List Entry) (db' : Db) (n : Nat) : Prop where
  lists : db'.ipLists = db.ipLists
  rows : db'.rows = db.rows.filter fun r => !entries.any (isRowOf id g · r)
  count : n + db'.rows.length = db.rows.length

theorem removeChunk_spec (chunk : List Entry) :
    Removed db id g chunk (removeChunk id db g chunk).1 (removeChunk id db g chunk).2 := by
  suffices hrows : ∀ (chunk : List Entry) (s : List Row × Nat), (chunk.foldl (removeRow id g) s).1 =
      s.1.filter (fun r => !chunk.any (isRowOf id g · r)) ∧
      (chunk.foldl (removeRow id g) s).2 + (chunk.foldl (removeRow id g) s).1.length = s.2 + s.1.length from
    ⟨rfl, (hrows chunk _).1, (hrows chunk _).2.trans (Nat.zero_add _)⟩
  intro chunk
  induction chunk with
  | nil => simp
  | cons e chunk ih =>
    intro s
    obtain ⟨hrows, hcount⟩ := ih (removeRow id g s e)
    refine ⟨hrows.trans ?_, hcount.trans ?_⟩
    · simp [removeRow, List.filter_filter, Bool.and_comm]
    · have := @length_eq_length_filter_add _ s.1 (isRowOf id g e)
      simp only [removeRow, countP_eq_length_filter]
      omega

theorem Removed.append {a b : List Entry} {db' db'' : Db} {n m : Nat} (h : Removed db id g a db' n)
    (h' : Removed db' id g b db'' m) : Removed db id g (a ++ b) db'' (n + m) where
  lists := h'.lists.trans h.lists
  rows := by rw [h'.rows, h.rows, List.filter_filter]; simp [Bool.and_comm]
  count := by rw [← h.count, ← h'.count]; omega

/-! ## The loop -/

theorem generation?_congr {db' : Db} (h : db'.ipLists = db.ipLists) (j : Int) :
    generation? db' j = generation? db j := by
  rw [generation?, header?, h, ← header?, ← generation?]

theorem inChunks_spec {work : Db → Nat → List Entry → Db × Nat} {commits : Nat → Bool} (hcommits : ∀ k, commits k = true)
    {P : Db → List Entry → Db → Nat → Prop} (hnil : ∀ db, Wf db → P db [] db 0)
    (hwork : ∀ db, Wf db → generation? db id = some g → ∀ chunk, P db chunk (work db g chunk).1 (work db g chunk).2 ∧
      Wf (work db g chunk).1 ∧ (work db g chunk).1.ipLists = db.ipLists)
    (happend : ∀ {db a db' n b db'' m}, P db a db' n → P db' b db'' m → P db (a ++ b) db'' (n + m))
    (hdb : Wf db) (hid : 0 ≤ id) (hg : generation? db id = some g) (entries : List Entry) :
    P db entries (inChunks work db id entries commits).1 (inChunks work db id entries commits).2 := by
  have hloop : ∀ (chunks : List (List Entry)) (k : Nat) (pinned : Option Nat) (db : Db),
    (∀ g' ∈ pinned, g' = g) → Wf db →
      generation? db id = some g → P db chunks.flatten (chunkLoop work id commits chunks k pinned db).1
        (chunkLoop work id commits chunks k pinned db).2 := by
    intro chunks
    induction chunks with
    | nil => exact fun _ _ db _ hdb _ => hnil db hdb
    | cons chunk chunks ih =>
      intro k pinned db hpinned hdb hg
      have hsame : (pinned.any (· != g) || !commits k) = false := by
        cases pinned <;> simp_all
      obtain ⟨hone, hwf, hlists⟩ := hwork db hdb hg chunk
      simp only [chunkLoop, hg, hsame, false_eq_true, if_false, flatten_cons]
      exact happend hone (ih (k + 1) (some g) _ (by simp) hwf ((generation?_congr hlists id).trans hg))
  unfold inChunks
  split <;> rename_i hnone
  · obtain rfl := hnone.resolve_left (Int.not_lt.mpr hid)
    exact hnil db hdb
  · rw [← flatten_batches (by decide : 0 < chunkRows) entries]
    simpa only [flatten_batches (by decide : 0 < chunkRows)] using hloop (batches chunkRows entries) 0 none db (by simp) hdb hg

/-- The list of generation `g` after an upsert that appended `n` rows. -/
structure AfterUpsert (db : Db) (id : Int) (g : Nat) (entries : List Entry) (db' : Db) (n : Nat) : Prop where
  wf : Wf db'
  generation : generation? db' id = some g
  live : liveEntries db' id = (liveEntries db id ++ newPairs (liveEntries db id) entries).map (lastGiven entries)
  appended : n = (newPairs (liveEntries db id) entries).length
  distinct : (select db' id g).Pairwise fun a b =>
    a.entryOrder < b.entryOrder ∧ ¬ (a.entry.cidr = b.entry.cidr ∧ a.entry.port = b.entry.port)
  others : ∀ j ≠ id, liveEntries db' j = liveEntries db j

/-- **Upserted entries and their removal.** -/
theorem upsert_contract {commits : Nat → Bool} (hcommits : ∀ k, commits k = true) (hdb : Wf db) (hid : 0 ≤ id)
    (hg : generation? db id = some g) (entries : List Entry) :
    let upserted := UpsertEntries db id entries commits
    let removed := RemoveEntries upserted.1 id entries commits
    AfterUpsert db id g entries upserted.1 upserted.2 ∧
      removed.1.rows = upserted.1.rows.filter (fun r => !entries.any (isRowOf id g · r)) ∧
      removed.2 + removed.1.rows.length = upserted.1.rows.length := by
  have hup : Upserted db id g entries (UpsertEntries db id entries commits).1 (UpsertEntries db id entries commits).2 :=
    inChunks_spec hcommits (fun _ hdb => ⟨rfl, hdb, rfl, Nat.zero_add _, fun _ _ _ => rfl⟩)
      (fun _ hdb hg chunk => ⟨upsertChunk_spec hdb hg chunk, (upsertChunk_spec hdb hg chunk).wf,
        rfl⟩) Upserted.append hdb hid hg entries
  have hg' := (generation?_congr hup.lists id).trans hg
  have hrem := inChunks_spec (P := fun db => Removed db id g) hcommits (fun _ _ => ⟨rfl, by simp, Nat.zero_add _⟩)
    (fun _ hdb _ chunk => ⟨removeChunk_spec chunk,
      filter_wf hdb _ (removeChunk_spec chunk).rows rfl, rfl⟩) Removed.append
    hup.wf hid hg' entries
  have hlive := hup.live
  rw [foldl_upsertEntry, ← liveEntries_of_generation hg, ← liveEntries_of_generation hg'] at hlive
  refine ⟨⟨hup.wf, hg', hlive, ?_, ?_, fun j hj => ?_⟩, hrem.rows, hrem.count⟩
  · have hlength := congrArg length hlive
    have hcount := hup.count
    rw [liveEntries_of_generation hg, liveEntries_of_generation hg'] at hlength
    simp only [length_map, length_append] at hlength
    rw [liveEntries_of_generation hg]
    omega
  · refine (select_strict hup.wf id g).and ?_
    refine ((sortBy_perm _ _).symm.pairwise (hup.wf.rows.filter _) fun hab =>
      (conflicts_comm _ _).trans hab).imp_of_mem ?_
    intro a b ha hb hab hkey
    obtain ⟨-, rfl, rfl⟩ := mem_select.mp ha
    obtain ⟨-, hid, hgen⟩ := mem_select.mp hb
    simp [conflicts, hid, hgen, hkey] at hab
  · exact KeepsList.liveEntries ⟨generation?_congr hup.lists j, fun g' _ => hup.others j g' fun h => hj h.1⟩

/-- A list of one entry, with another one to come twice. -/
def oneEntry : Db := { ipLists := [⟨1, .user, -1, 0⟩], rows := [⟨1, 0, 0, ⟨"10.0.0.0/8", 443, 5⟩⟩], ipListLastId := 1 }

theorem oneEntry_upserted :
    AfterUpsert oneEntry 1 0 [⟨"::/0", 80, 1⟩, ⟨"::/0", 80, 2⟩]
      (UpsertEntries oneEntry 1 [⟨"::/0", 80, 1⟩, ⟨"::/0", 80, 2⟩] fun _ => true).1
      (UpsertEntries oneEntry 1 [⟨"::/0", 80, 1⟩, ⟨"::/0", 80, 2⟩] fun _ => true).2 :=
  (upsert_contract (fun _ => rfl) ⟨by decide, by decide, by decide⟩ (by decide) rfl _).1

/-- An entry without an address is skipped. -/
theorem nameless_skipped :
    UpsertEntries oneEntry 1 [⟨"", 80, 1⟩] (fun _ => true) = (oneEntry, 0) := by
  decide

end Waterdisco.Lists
