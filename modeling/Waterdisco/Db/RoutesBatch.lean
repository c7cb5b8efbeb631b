import Waterdisco.Db.RoutesSound

/-!
# All routing profiles at once

The rules of a chunk of profiles arrive sorted by profile and order, and each goes to its
profile.  For one profile these are its own rules in order (`chunk_of_profile`), and a
profile is in one chunk only, wherever the chunks are cut.

    the rules of a chunk, of one profile = the rules of the profile       (chunk_of_profile)
    getAllInChunks = loadFromDatabase of every id that is not cached      (getAll_eq_load)
    over every run of saves and deletions                                 (routes_kept)
-/

namespace Waterdisco.RoutesRepo

open Routing List Option
open Function (update update_of_ne update_self)
open Route (trimmed)

variable {u : JsonText} {db : Database}

/-! ## The rules of one profile -/

/-- The rules that a SELECT for one profile reads. -/
def rulesOf (u : JsonText) (db : Database) (id : Int32) : List RouteRule :=
  (orderBy orderKey (db.rules.filter fun rule => rule .route_profile_id = .integer id.toInt)).map fun rule =>
    routeRuleFromJson (ruleJsonFromRow u (ruleSelectColumns.map rule) 0)

def addRules (rules : List RouteRule) (p : RouteProfile) : RouteProfile := { p with rules := p.rules ++ rules }

theorem addRules_addRules (rules rules' : List RouteRule) (p : RouteProfile) :
    addRules rules' (addRules rules p) = addRules (rules ++ rules') p := by
  rw [addRules, addRules, addRules, append_assoc]

theorem mem_cells {ids : List Int32} {id : Int32} :
    Cell.integer id.toInt ∈ (ids.map fun id => Cell.integer id.toInt) ↔ id ∈ ids := by
  rw [List.mem_map]
  constructor
  · rintro ⟨id', hin, heq⟩
    rw [← Int32.toInt_inj.mp (Cell.integer.inj heq)]
    exact hin
  · exact fun hin => ⟨id, hin, rfl⟩

/-- **The rules of a chunk**, those of one of its profiles: sorted by profile and order, they are in order. -/
theorem chunk_of_profile (h : Wf db) {chunk : List Int32} {id : Int32} (hid : id ∈ chunk) :
    (orderBy chunkKey (db.rules.filter fun rule =>
      rule .route_profile_id ∈ chunk.map fun id => .integer id.toInt)).filter
        (fun rule => rule .route_profile_id = .integer id.toInt) =
      orderBy orderKey (db.rules.filter fun rule => rule .route_profile_id = .integer id.toInt) := by
  have hkey : ∀ rule ∈ db.rules.filter fun rule => rule .route_profile_id = .integer id.toInt,
    chunkKey rule = toLex (id.toInt, orderKey rule) := by
    intro rule hrule
    rw [chunkKey, of_decide_eq_true (mem_filter.mp hrule).2]
    rfl
  symm
  apply orderBy_eq
  · have hplaces := h.places.sublist ((filter_sublist (p := fun rule =>
      rule .route_profile_id = .integer id.toInt)).map _)
    rw [map_congr_left hkey] at hplaces
    rw [Nodup, pairwise_map] at hplaces ⊢
    exact hplaces.imp fun hne heq => hne (by rw [heq])
  · refine ((orderBy_perm chunkKey _).filter _).trans ?_
    rw [List.filter_filter]
    refine Perm.of_eq (filter_congr fun rule _ => ?_)
    rw [← Bool.decide_and, decide_eq_decide]
    refine and_iff_left_of_imp fun heq => ?_
    rw [heq]
    exact mem_cells.mpr hid
  · have hsorted := (orderBy_pairwise chunkKey (db.rules.filter fun rule =>
      rule .route_profile_id ∈ chunk.map fun id => .integer id.toInt)).filter
      fun rule => rule .route_profile_id = .integer id.toInt
    refine hsorted.imp_of_mem fun {a b} ha hb hle => ?_
    have hinside : ∀ {rule}, rule ∈ (orderBy chunkKey (db.rules.filter fun rule =>
      rule .route_profile_id ∈ chunk.map fun id => .integer id.toInt)).filter
        (fun rule => rule .route_profile_id = .integer id.toInt) → chunkKey rule = toLex (id.toInt, orderKey rule) := by
      intro rule hrule
      rw [chunkKey, of_decide_eq_true (mem_filter.mp hrule).2]
      rfl
    rw [hinside ha, hinside hb, Prod.Lex.toLex_le_toLex] at hle
    rcases hle with hlt | ⟨-, hle⟩
    · exact absurd hlt (lt_irrefl _)
    · exact hle

def ruleOf (u : JsonText) (row : RuleRow) : RouteRule :=
    routeRuleFromJson (ruleJsonFromRow u (ruleSelectColumns.map row) 0)

theorem addRow_apply (byId : ById) (row : RuleRow) (id : Int32) :
    addRow u byId row id = if (row .route_profile_id).getInt = id then (byId id).map (addRules [ruleOf u row]) else byId id := by
  have hrest : ruleJsonFromRow u (chunkSelectColumns.map row) 1 = ruleJsonFromRow u (ruleSelectColumns.map row) 0 := by
    rw [chunkSelectColumns, map_cons, ruleJsonFromRow_cons]
  have hid : (getColumn (chunkSelectColumns.map row) 0).getInt = (row .route_profile_id).getInt := rfl
  rw [addRow]
  rw [hid, hrest]
  split_ifs with h
  · subst h
    cases hp : byId (row .route_profile_id).getInt with
    | none => exact hp
    | some p => exact update_self ..
  · cases byId (row .route_profile_id).getInt with
    | none => rfl
    | some p => exact update_of_ne (Ne.symm h) ..

theorem map_addRules_nil (p : Option RouteProfile) : p.map (addRules []) = p := by
  cases p with
  | none => rfl
  | some p => exact congrArg some (by rw [addRules, append_nil])

theorem foldl_addRow (rows : List RuleRow) (byId : ById) (id : Int32) :
    rows.foldl (addRow u) byId id =
      (byId id).map (addRules ((rows.filter fun row => (row .route_profile_id).getInt = id).map (ruleOf u))) := by
  induction rows generalizing byId with
  | nil => exact (map_addRules_nil _).symm
  | cons row rows ih =>
    rw [foldl_cons, ih, addRow_apply]
    by_cases hid : (row .route_profile_id).getInt = id
    · rw [if_pos hid, List.filter_cons_of_pos (by simpa using hid), Option.map_map, map_cons]
      exact congrArg (fun f => (byId id).map f) (funext (addRules_addRules _ _))
    · rw [if_neg hid, filter_cons_of_neg (by simpa using hid)]

theorem load_chunk (h : Wf db) (chunk : List Int32) (byId : ById) (id : Int32) :
    loadRulesForProfileIdsChunk u db chunk byId id =
      if id ∈ chunk then (byId id).map (addRules (rulesOf u db id)) else byId id := by
  rw [loadRulesForProfileIdsChunk]
  by_cases hempty : chunk.isEmpty = true
  · rw [if_pos hempty, isEmpty_iff.mp hempty, if_neg not_mem_nil]
  rw [if_neg hempty, foldl_addRow]
  have howner : ∀ rule ∈ orderBy chunkKey (db.rules.filter fun rule =>
    rule .route_profile_id ∈ chunk.map fun id => .integer id.toInt),
      rule ∈ db.rules ∧ rule .route_profile_id ∈ chunk.map fun id => .integer id.toInt := by
    intro rule hrule
    obtain ⟨hin, hchunk⟩ := mem_filter.mp ((orderBy_perm chunkKey _).mem_iff.mp hrule)
    exact ⟨hin, of_decide_eq_true hchunk⟩
  have hcell : ∀ rule ∈ db.rules, ((rule .route_profile_id).getInt = id ↔
    rule .route_profile_id = .integer id.toInt) := by
    intro rule hrule
    obtain ⟨id', hid'⟩ := h.owners rule hrule
    rw [hid', read_integer, Cell.integer.injEq, Int32.toInt_inj]
  have hfilter := filter_congr (p := fun rule : RuleRow => decide ((rule .route_profile_id).getInt = id))
    (q := fun rule => decide (rule .route_profile_id = .integer id.toInt))
    fun rule hrule => decide_eq_decide.mpr (hcell rule (howner rule hrule).1)
  rw [hfilter]
  split
  · rename_i hin
    rw [chunk_of_profile h hin]
    rfl
  rename_i hout
  have hnone : (orderBy chunkKey (db.rules.filter fun rule =>
    rule .route_profile_id ∈ chunk.map fun id => .integer id.toInt)).filter
      (fun rule => rule .route_profile_id = .integer id.toInt) = [] := by
    rw [filter_eq_nil_iff]
    intro rule hrule heq
    have hmem := (howner rule hrule).2
    rw [of_decide_eq_true heq] at hmem
    exact hout (mem_cells.mp hmem)
  rw [hnone]
  exact map_addRules_nil _

/-! ## All chunks -/

theorem load_chunks (h : Wf db) (cached : ById) (chunks : List (List Int32))
    (hnodup : chunks.flatten.Nodup) (byId : ById) (id : Int32) :
    chunks.foldl (fun byId chunk => loadRulesForProfileIdsChunk u db (chunk.filter fun id => (cached id).isNone) byId) byId id =
      if id ∈ chunks.flatten ∧ cached id = none then (byId id).map (addRules (rulesOf u db id)) else byId id := by
  induction chunks generalizing byId with
  | nil => rw [foldl_nil, if_neg fun hin => not_mem_nil hin.1]
  | cons chunk chunks ih =>
    rw [flatten_cons, nodup_append] at hnodup
    rw [foldl_cons, ih hnodup.2.1, load_chunk h, flatten_cons]
    simp only [mem_filter, mem_append, isNone_iff_eq_none]
    by_cases hcached : cached id = none
    · by_cases hhere : id ∈ chunk
      · have hlater : id ∉ chunks.flatten := fun hin => hnodup.2.2 id hhere id hin rfl
        rw [if_neg fun hin => hlater hin.1, if_pos ⟨hhere, hcached⟩, if_pos ⟨.inl hhere, hcached⟩]
      · simp only [hhere, false_and, false_or, if_false]
    · simp only [hcached, and_false, if_false]

theorem foldl_profiles (value : ProfileRow → RouteProfile) {rows : List ProfileRow}
    (h : (rows.map fun row => (row .id).getInt).Nodup)
    (byId : ById) {row : ProfileRow} (hrow : row ∈ rows) :
    rows.foldl (fun (byId : ById) row => update byId (row .id).getInt (some (value row))) byId (row .id).getInt = some (value row) := by
  have hother : ∀ (rows : List ProfileRow) (byId : ById) (id : Int32), id ∉ (rows.map fun row => (row .id).getInt) →
      rows.foldl (fun (byId : ById) row => update byId (row .id).getInt (some (value row))) byId id = byId id := by
    intro rows
    induction rows with
    | nil => exact fun _ _ _ => rfl
    | cons row' rows ih =>
      intro byId id hid
      rw [map_cons, mem_cons, not_or] at hid
      rw [foldl_cons, ih _ _ hid.2, update_of_ne hid.1]
  induction rows generalizing byId with
  | nil => cases hrow
  | cons row' rows ih =>
    rw [map_cons, nodup_cons] at h
    rw [foldl_cons]
    rcases mem_cons.mp hrow with rfl | hrow
    · rw [hother _ _ _ h.1, update_self]
    · exact ih h.2 _ hrow

/-- The profiles in the order of their ids. -/
def rowsInOrder (db : Database) : List ProfileRow := orderBy (fun row : ProfileRow => (row .id).getInt64) db.profiles

theorem mem_rowsInOrder {row : ProfileRow} : row ∈ rowsInOrder db ↔ row ∈ db.profiles := (orderBy_perm _ _).mem_iff

theorem Wf.ids_nodup (h : Wf db) : ((rowsInOrder db).map fun row => (row .id).getInt).Nodup := by
  have hperm : ((rowsInOrder db).map fun row => (row .id).getInt).Perm (db.profiles.map fun row => (row .id).getInt) :=
    (orderBy_perm _ _).map _
  rw [hperm.nodup_iff]
  have hdistinct := h.distinct
  rw [Nodup, pairwise_map] at hdistinct ⊢
  refine hdistinct.imp_of_mem fun {a b} ha hb hne heq => hne ?_
  obtain ⟨id, hid⟩ := h.ids a ha
  obtain ⟨id', hid'⟩ := h.ids b hb
  rw [hid, hid', read_integer, read_integer] at heq
  rw [hid, hid', heq]

theorem Wf.find (h : Wf db) {row : ProfileRow} (hrow : row ∈ db.profiles) :
    db.profiles.find? (fun other => other .id = .integer (row .id).getInt.toInt) = some row := by
  obtain ⟨id, hid⟩ := h.ids row hrow
  rw [hid, read_integer, ← hid]
  cases hfind : db.profiles.find? fun other => decide (other .id = row .id) with
  | none => exact absurd (decide_eq_true rfl) (find?_eq_none.mp hfind row hrow)
  | some other =>
    have heq := of_decide_eq_true (find?_some (p := fun other : ProfileRow => decide (other .id = row .id)) hfind)
    rw [inj_on_of_nodup_map h.distinct (mem_of_find?_eq_some hfind) hrow heq]

/-- **All profiles** are those in use, and the others as they are loaded one by one, however the ids are cut into chunks. -/
theorem getAll_eq_load (h : Wf db) {limit : Nat} (hlimit : 0 < limit) (cached : ById) :
    (getAllInChunks limit u db cached).map some =
      (GetAllRouteProfileIds db).map fun id => (cached id).or (loadFromDatabase u db id) := by
  let value : ProfileRow → RouteProfile := fun row =>
    (cached (row .id).getInt).getD (routeProfileFromProfileRow u (profileSelectColumns.map row))
  let byId : ById := (rowsInOrder db).foldl (fun (byId : ById) row =>
    update byId (row .id).getInt (some (value row))) fun _ => none
  let loaded : ById := (batches limit (GetAllRouteProfileIds db)).foldl (fun byId chunk =>
    loadRulesForProfileIdsChunk u db (chunk.filter fun id => (cached id).isNone) byId) byId
  have hall : getAllInChunks limit u db cached = (GetAllRouteProfileIds db).filterMap loaded := by
    have hstep : addProfile u cached = fun (byId : ById) row => update byId (row .id).getInt (some (value row)) := by
      funext byId row
      show _ = update byId (row .id).getInt (some (getD _ _))
      rw [addProfile]
      cases cached (row .id).getInt <;> rfl
    rw [getAllInChunks, hstep]
    rfl
  have hflatten : (batches limit (GetAllRouteProfileIds db)).flatten = GetAllRouteProfileIds db :=
    flatten_batches hlimit _
  have hloaded : ∀ id ∈ GetAllRouteProfileIds db, loaded id = (cached id).or (loadFromDatabase u db id) := by
    intro id hid
    obtain ⟨row, hrow, rfl⟩ := mem_map.mp hid
    have hstored := mem_rowsInOrder.mp hrow
    have hbase : byId (row .id).getInt = some (value row) := foldl_profiles value h.ids_nodup _ hrow
    rw [show loaded (row .id).getInt = _ from load_chunks h cached _ (by rw [hflatten]; exact h.ids_nodup) byId _, hflatten, hbase]
    cases hcached : cached (row .id).getInt with
    | some shared =>
      rw [if_neg fun hin => (by cases hin.2)]
      show some (getD (cached _) _) = _
      rw [hcached]
      rfl
    | none =>
      rw [if_pos ⟨hid, rfl⟩, none_or, loadFromDatabase, h.find hstored]
      show some (addRules _ (getD (cached _) _)) = _
      rw [hcached]
      rfl
  rw [hall]
  have hmap : ∀ ids : List Int32, (∀ id ∈ ids, (loaded id).isSome = true) →
    (ids.filterMap loaded).map some = ids.map loaded := by
    intro ids hids
    induction ids with
    | nil => rfl
    | cons id ids ih =>
      rw [forall_mem_cons] at hids
      obtain ⟨p, hp⟩ := isSome_iff_exists.mp hids.1
      rw [filterMap_cons_some hp, map_cons, map_cons, ih hids.2, hp]
  rw [hmap _ fun id hid => ?_]
  · exact map_congr_left hloaded
  rw [hloaded id hid]
  obtain ⟨row, hrow, rfl⟩ := mem_map.mp hid
  rw [loadFromDatabase, h.find (mem_rowsInOrder.mp hrow)]
  cases cached (row .id).getInt <;> rfl

/-! ## Runs -/

inductive Op where
  | save (p : RouteProfile)
  | delete (ids : List Int32)

def step (u : JsonText) (db : Database) : Op → Database
  | .save p => saveToDatabase u db p p.id
  | .delete ids => deleteProfiles db ids

def run (u : JsonText) (ops : List Op) : Database := ops.foldl (step u) {}

theorem Wf.step (h : Wf db) (op : Op) : Wf (step u db op) := by
  cases op with
  | save p => exact h.save p p.id
  | delete ids => exact h.delete ids

theorem run_wf (u : JsonText) (ops : List Op) : Wf (run u ops) := by
  induction ops using reverseRecOn with
  | nil => exact Wf.empty
  | append_singleton ops op ih =>
    rw [run, foldl_append]
    exact ih.step op

/-- **Routing profiles** over every run of saves and deletions: a profile that is saved is loaded as it was, and
loading all of them at once gives what loading each gives. -/
theorem routes_kept (u : JsonText) (hu : u.Lawful) (ops : List Op) :
    (∀ p : RouteProfile, Storable u p → loadFromDatabase u (run u (ops ++ [.save p])) p.id = some p) ∧
    ∀ (cached : ById) (limit : Nat), 0 < limit →
      (getAllInChunks limit u (run u ops) cached).map some =
        (GetAllRouteProfileIds (run u ops)).map fun id => (cached id).or (loadFromDatabase u (run u ops) id) := by
  constructor
  · intro p hp
    rw [run, foldl_append]
    exact load_save hu _ hp
  · intro cached limit hlimit
    exact getAll_eq_load (run_wf u ops) hlimit cached

/-- Reads and writes two documents. -/
def smallJson : JsonText where
  compact doc :=
    match doc with
    | .arr [] => "[]"
    | .arr [.str "a.com"] => "[\"a.com\"]"
    | _ => "null"
  parse text := if text = "[]" then some (.arr []) else if text = "[\"a.com\"]" then some (.arr [.str "a.com"]) else none

theorem smallJson_lawful : smallJson.Lawful := ⟨by decide⟩

theorem smallJson_empty : smallJson.Carries (.arr []) := ⟨⟨by decide, by decide⟩, rfl⟩

theorem smallJson_site : smallJson.Carries (.arr [.str "a.com"]) := ⟨⟨by decide, by decide⟩, rfl⟩

def oneSite : RouteProfile := { id := 1, name := "home", rules := [{ name := "sites", domain := ["a.com"], invert := true }], autoUpdate := true }

theorem oneSite_storable : Storable smallJson oneSite := by
  have hsite : listToArray ["a.com"] = .arr [.str "a.com"] := rfl
  constructor
  · intro s hs
    simp only [oneSite, mem_cons, not_mem_nil, or_false] at hs
    rcases hs with rfl | rfl | rfl <;> exact ⟨by decide, by decide⟩
  · intro rule hrule s hs
    obtain rfl := mem_singleton.mp hrule
    simp only [RouteRule.texts, mem_cons, not_mem_nil, or_false] at hs
    rcases hs with rfl | rfl | rfl | rfl | rfl | rfl | rfl | rfl | rfl | rfl | rfl | rfl <;> exact ⟨by decide, by decide⟩
  · intro rule hrule list hlist
    obtain rfl := mem_singleton.mp hrule
    have hnil : Kept smallJson [] := ⟨fun _ hs => absurd hs not_mem_nil, smallJson_empty⟩
    simp only [RouteRule.lists, mem_cons, not_mem_nil, or_false] at hlist
    have hone : Kept smallJson ["a.com"] := ⟨by decide, hsite ▸ smallJson_site⟩
    rcases hlist with rfl | rfl | h
    · exact hnil
    · exact hone
    have hempty : list = [] := by simpa using h
    rw [hempty]
    exact hnil
  · exact smallJson_empty
  · exact smallJson_empty
  · intro _ hmem
    cases hmem
  · intro hown
    cases hown
  · decide

theorem routes_kept_oneSite :
    loadFromDatabase smallJson (run smallJson ([.delete [1]] ++ [.save oneSite])) oneSite.id = some oneSite ∧
    (getAllInChunks 1 smallJson (run smallJson [.save oneSite]) fun _ => none).map some =
      (GetAllRouteProfileIds (run smallJson [.save oneSite])).map fun id =>
        or none (loadFromDatabase smallJson (run smallJson [.save oneSite]) id) :=
  ⟨(routes_kept smallJson smallJson_lawful [.delete [1]]).1 oneSite oneSite_storable,
    (routes_kept smallJson smallJson_lawful [.save oneSite]).2 (fun _ => none) 1 (by decide)⟩

/-! ## Profiles that change -/

/-- Texts without a NUL, lists without blank items, DNS settings trimmed and only where they are used, a time below 2⁵³. -/
structure Tidy (u : JsonText) (p : RouteProfile) : Prop where
  texts : ∀ s ∈ [p.name, p.rawRoute, p.remoteURL] ++ p.rules.flatMap RouteRule.texts, Char.ofNat 0 ∉ s.toList
  lists : ∀ rule ∈ p.rules, ∀ list ∈ RouteRule.lists rule, Kept u list
  endpoints : u.Carries (idsToArray p.endpointProfileIDs)
  innerHops : u.Carries (idsToArray p.innerHopEndpointIDs)
  dns : ∀ dns ∈ p.dns, p.customDns = true ∧ u.Carries dns.toJson ∧
    trimmed dns.remoteDns = dns.remoteDns ∧ trimmed dns.directDns = dns.directDns
  time : p.remoteLastUpdate.toInt < 2 ^ 53

/-- Set to use DNS settings of its own, without any. -/
def ownless : RouteProfile := { id := 1, customDns := true }

/-- A name that starts with a byte order mark. -/
def marked : RouteProfile := { id := 1, name := "\ufeffhome" }

/-- A time below -2⁵³. -/
def ancient : RouteProfile := { id := 1, remoteLastUpdate := -9007199254740993 }

theorem tidy_of_empty {p : RouteProfile} (hrules : p.rules = [])
    (hendpoints : p.endpointProfileIDs = []) (hhops : p.innerHopEndpointIDs = [])
    (hdns : p.dns = none) (htexts : ∀ s ∈ [p.name, p.rawRoute, p.remoteURL], Char.ofNat 0 ∉ s.toList)
    (htime : p.remoteLastUpdate.toInt < 2 ^ 53) : Tidy smallJson p where
  texts := by
    rw [hrules, flatMap_nil, append_nil]
    exact htexts
  lists := by
    rw [hrules]
    exact fun _ hrule => absurd hrule not_mem_nil
  endpoints := by
    rw [hendpoints]
    exact smallJson_empty
  innerHops := by
    rw [hhops]
    exact smallJson_empty
  dns := by
    rw [hdns]
    exact fun _ hin => (by cases hin)
  time := htime

/-- **The flag without DNS settings is dropped**, and so are a byte order mark and the last bit of a large negative time. -/
theorem tidy_not_kept :
    (Tidy smallJson ownless ∧ loadFromDatabase smallJson (run smallJson [.save ownless]) 1 ≠ some ownless) ∧
    (Tidy smallJson marked ∧ loadFromDatabase smallJson (run smallJson [.save marked]) 1 ≠ some marked) ∧
    (Tidy smallJson ancient ∧ loadFromDatabase smallJson (run smallJson [.save ancient]) 1 ≠ some ancient) := by
  refine ⟨⟨tidy_of_empty rfl rfl rfl rfl (by decide) (by decide), ?_⟩,
    ⟨tidy_of_empty rfl rfl rfl rfl (by decide) (by decide), ?_⟩,
    ⟨tidy_of_empty rfl rfl rfl rfl (by decide) (by decide), ?_⟩⟩
  · intro h
    exact absurd (congrArg (Option.map RouteProfile.customDns) h) (by decide)
  · intro h
    exact absurd (congrArg (Option.map RouteProfile.name) h) (by decide)
  · intro h
    exact absurd (congrArg (Option.map RouteProfile.remoteLastUpdate) h) (by decide)

end Waterdisco.RoutesRepo
