import Waterdisco.Db.RestoreSteps

/-!
# The tables after a restore

What each table holds after the transaction (`After`, `restored_after`), and which database a
setting came from: one that is not stale came with its table (`fresh_row`), a stale one is the
host's (`stale_row`).
-/

namespace Waterdisco.Restore

open List Db EntityIds

section

variable (parts : BackupParts) (keys : List String) (host : Stored .host) (bak : Stored .backup)

/-! ## Replaced tables -/

theorem profilesReplaced_eq : profilesReplaced parts host.db bak.db = parts.profiles := by
  rw [profilesReplaced, host.current.profiles.isPresent "id" (by decide),
    bak.current.profiles.isPresent "id" (by decide),
    Bool.and_true, Bool.and_true]

theorem groupsReplaced_eq : groupsReplaced parts host.db bak.db = parts.profiles := by
  rw [groupsReplaced, host.current.groups.isPresent "id" (by decide), bak.current.groups.isPresent "id" (by decide),
    Bool.and_true, Bool.and_true]

theorem routesReplaced_eq : routesReplaced parts host.db bak.db = parts.routes := by
  rw [routesReplaced, host.current.routeProfiles.isPresent "id" (by decide),
    bak.current.routeProfiles.isPresent "id" (by decide), Bool.and_true, Bool.and_true]

theorem settingsReplaced_eq : settingsReplaced parts host.db bak.db = parts.settings := by
  rw [settingsReplaced, host.current.settings.isPresent "key" (by decide),
    bak.current.settings.isPresent "key" (by decide),
    Bool.and_true, Bool.and_true]

theorem contains_keepHostId (p : Bool) (key other : String) (kept : List String) :
    (keepHostId p key kept).contains other = (kept.contains other || (!p && other == key)) := by
  rw [keepHostId]
  cases p with
  | true => simp
  | false =>
    split
    · by_cases hother : other = key
      · simp [hother]
      · simp [hother]
    rename_i hhas
    have hkey : kept.contains key = true := by simpa using hhas
    by_cases hother : other = key
    · rw [hother, hkey, Bool.true_or]
    · rw [beq_false_of_ne hother, Bool.and_false, Bool.or_false]

theorem kept_rememberId : (settingKeepKeys parts keys host.db bak.db).contains "remember_id" =
    (keys.contains "remember_id" || !parts.profiles) := by
  rw [settingKeepKeys, keptIds, contains_keepHostId, contains_keepHostId, contains_keepHostId, profilesReplaced_eq]
  simp

theorem kept_currentGroup : (settingKeepKeys parts keys host.db bak.db).contains "current_group" =
    (keys.contains "current_group" || !parts.profiles) := by
  rw [settingKeepKeys, keptIds, contains_keepHostId, contains_keepHostId, contains_keepHostId, groupsReplaced_eq]
  simp

theorem kept_currentRoute : (settingKeepKeys parts keys host.db bak.db).contains "current_route_id" =
    (keys.contains "current_route_id" || !parts.routes) := by
  rw [settingKeepKeys, keptIds, contains_keepHostId, contains_keepHostId, contains_keepHostId, routesReplaced_eq]
  simp

/-! ## Where a table and its setting come from -/

/-- The database a table comes from. -/
def source (replaced : Bool) : Db := if replaced then bak.db else host.db

def sourceOrigin (replaced : Bool) : Origin := if replaced then .backup else .host

variable {parts keys host bak}

variable {p : Bool} {key : String} {x : Int × Origin}

variable (hkept : (settingKeepKeys parts keys host.db bak.db).contains key = (keys.contains key || !p))

include hkept in
theorem fresh_row
    (hfresh : (p && keptHere parts keys host.db bak.db key) = false) {r : SettingRow}
    (hr : settingRow (copied parts keys host bak) key = some r) :
    settingRow (source host bak p) key = some r ∧ r.origin = sourceOrigin p := by
  rw [copied_settingRow, hkept] at hr
  rw [keptHere, settingsReplaced_eq, hkept] at hfresh
  cases p with
  | false =>
    rw [Bool.not_false, Bool.or_true, Bool.not_true, Bool.and_false] at hr
    exact ⟨hr, host.settingsFrom r (mem_of_find?_eq_some hr)⟩
  | true =>
    have hcond : parts.settings = true ∧ (keys.contains key || !true) = false := by simpa using hfresh
    rw [hcond.1, hcond.2] at hr
    exact ⟨hr, bak.settingsFrom r (mem_of_find?_eq_some hr)⟩

include hkept in
theorem stale_row
    (hstale : (p && keptHere parts keys host.db bak.db key) = true) :
    p = true ∧ (parts.settings = false ∨ key ∈ keys) ∧
      settingRow (copied parts keys host bak) key = settingRow host.db key := by
  rw [keptHere, settingsReplaced_eq, hkept, Bool.and_eq_true] at hstale
  obtain ⟨rfl, hhere⟩ := hstale
  rw [copied_settingRow, hkept]
  cases hsettings : parts.settings with
  | false => exact ⟨rfl, .inl rfl, rfl⟩
  | true =>
    rw [hsettings] at hhere
    have hkey : keys.contains key = true := by simpa using hhere
    rw [hkey]
    exact ⟨rfl, .inr (contains_iff_mem.mp hkey), rfl⟩

/-! ## The repaired settings -/

variable (parts keys host bak)

def repaired : Db := run (repairs parts keys host.db bak.db) (copied parts keys host bak)

theorem repaired_eq : repaired parts keys host bak =
    repairCurrentRoute parts keys host.db bak.db
      (repairCurrentGroup parts keys host.db bak.db (repairRememberId parts keys host.db bak.db (copied parts keys host bak))) := by
  rw [repaired, repairs, host.current.settings.isPresent "key" (by decide)]
  rfl

theorem repairRememberId_only (d : Db) : SettingsOnly d (repairRememberId parts keys host.db bak.db d) := by
  rw [repairRememberId]
  split
  · split
    · exact ⟨_, rfl⟩
    · exact .refl d
  · exact .refl d

theorem repairRememberId_other {other : String} (h : other ≠ "remember_id") (d : Db) :
    settingRow (repairRememberId parts keys host.db bak.db d) other = settingRow d other := by
  rw [repairRememberId]
  split
  · split
    · rw [settingRow_set, if_neg h]
    · rfl
  · rfl

theorem repaired_only : SettingsOnly (copied parts keys host bak) (repaired parts keys host bak) := by
  rw [repaired_eq]
  exact ((repairRememberId_only parts keys host bak _).trans (repairSettingId_only _ _ _ _ _)).trans
    (repairSettingId_only _ _ _ _ _)

theorem copied_profileIds : (copied parts keys host bak).profileIds = (source host bak parts.profiles).profileIds := by
  rw [profileIds, copied_profiles, source]
  split
  · rfl
  · rfl

theorem copied_groupIds : (copied parts keys host bak).groupIds = (source host bak parts.profiles).groupIds := by
  rw [groupIds, copied_groups, source]
  split
  · rfl
  · rfl

theorem copied_routeIds : (copied parts keys host bak).routeIds = (source host bak parts.routes).routeIds := by
  rw [routeIds, copied_routeProfiles, source]
  split
  · rfl
  · rfl

/-- What a setting held names a row of the database it came from, or nothing. -/
def Resolved (key : String) (ids : Db → List (Int × Origin)) : Prop :=
  ∀ p r, settingRow (source host bak p) key = some r → Names (ids (source host bak p)) (sourceOrigin p) (toInt r.value)

theorem resolved_currentGroup : Resolved host bak "current_group" Db.groupIds := by
  intro p r hr
  cases p with
  | false => exact host.currentGroup r hr
  | true => exact bak.currentGroup r hr

theorem resolved_currentRoute : Resolved host bak "current_route_id" Db.routeIds := by
  intro p r hr
  cases p with
  | false => exact host.currentRoute r hr
  | true => exact bak.currentRoute r hr

variable {host bak}

theorem source_profileIds_origin (h : x ∈ (source host bak p).profileIds) : x.2 = sourceOrigin p := by
  obtain ⟨r, hr, rfl⟩ := mem_map.mp h
  cases p with
  | false => exact host.profilesFrom r hr
  | true => exact bak.profilesFrom r hr

theorem source_groupIds_origin (h : x ∈ (source host bak p).groupIds) : x.2 = sourceOrigin p := by
  obtain ⟨r, hr, rfl⟩ := mem_map.mp h
  cases p with
  | false => exact host.groupsFrom r hr
  | true => exact bak.groupsFrom r hr

theorem source_routeIds_origin (h : x ∈ (source host bak p).routeIds) : x.2 = sourceOrigin p := by
  obtain ⟨r, hr, rfl⟩ := mem_map.mp h
  cases p with
  | false => exact host.routesFrom r hr
  | true => exact bak.routesFrom r hr

variable (host bak)

theorem source_groupInts (p : Bool) : ∀ id ∈ (source host bak p).groups.rows.map GroupRow.id, IsInt id := by
  intro id hid
  obtain ⟨r, hr, rfl⟩ := mem_map.mp hid
  cases p with
  | false => exact host.groupInts r hr
  | true => exact bak.groupInts r hr

theorem source_routeInts (p : Bool) : ∀ id ∈ (source host bak p).routeProfiles.rows.map RouteProfileRow.id, IsInt id := by
  intro id hid
  obtain ⟨r, hr, rfl⟩ := mem_map.mp hid
  cases p with
  | false => exact host.routeInts r hr
  | true => exact bak.routeInts r hr

theorem repaired_rememberId : SettingOk (repaired parts keys host bak) "remember_id" (source host bak parts.profiles).profileIds none := by
  have hrow : settingRow (repaired parts keys host bak) "remember_id" =
      settingRow (repairRememberId parts keys host.db bak.db (copied parts keys host bak)) "remember_id" := by
    rw [repaired_eq, repairCurrentRoute, repairSettingId_other _ _ _ _ _ (by decide), repairCurrentGroup,
      repairSettingId_other _ _ _ _ _ (by decide)]
  intro r hr
  left
  rw [hrow, repairRememberId] at hr
  split at hr
  · rename_i id hid
    split at hr
    · rw [settingRow_set, if_pos rfl] at hr
      cases hr
      left
      decide
    rename_i hkept
    rw [databaseSettingId, hr] at hid
    cases hid
    by_cases hneg : toInt r.value < 0
    · exact .inl hneg
    rw [not_and_or, not_or, not_not] at hkept
    obtain ⟨hfresh, hexists⟩ := hkept.resolve_left (not_not.mpr (not_lt.mp hneg))
    rw [profilesReplaced_eq, Bool.not_eq_true] at hfresh
    obtain ⟨-, horigin⟩ := fresh_row (kept_rememberId parts keys host bak) hfresh hr
    right
    have hmem : toInt r.value ∈ (copied parts keys host bak).profileIds.map Prod.fst := by
      rw [profileIds, map_map]
      exact hexists
    rw [copied_profileIds] at hmem
    obtain ⟨x, hx, hxid⟩ := mem_map.mp hmem
    rw [horigin, ← hxid, ← source_profileIds_origin hx]
    exact hx
  · rename_i hnone
    rw [databaseSettingId, hr] at hnone
    cases hnone

theorem names_of_fresh {ids : List (Int × Origin)} (horigin : ∀ x ∈ ids, x.2 = sourceOrigin p)
    (hkept : (settingKeepKeys parts keys host.db bak.db).contains key = (keys.contains key || !p))
    (hfresh : (p && keptHere parts keys host.db bak.db key) = false) {d : Db}
    (hd : settingRow d key = settingRow (copied parts keys host bak) key) (r : SettingRow)
    (hr : settingRow d key = some r)
    (hmem : toInt r.value ∈ ids.map Prod.fst) : Names ids r.origin (toInt r.value) := by
  rw [hd] at hr
  obtain ⟨-, hrow⟩ := fresh_row hkept hfresh hr
  obtain ⟨x, hx, hxid⟩ := mem_map.mp hmem
  right
  rw [hrow, ← hxid, ← horigin x hx]
  exact hx

theorem names_of_empty {ids : Db → List (Int × Origin)} (hempty : ids (source host bak p) = [])
    (hresolved : Resolved host bak key ids)
    (hkept : (settingKeepKeys parts keys host.db bak.db).contains key = (keys.contains key || !p))
    (hhost : p = true → (parts.settings = false ∨ key ∈ keys) → ∀ id,
      databaseSettingId host.db key = some id → id < 0) {d : Db}
    (hd : settingRow d key = settingRow (copied parts keys host bak) key) (r : SettingRow)
    (hr : settingRow d key = some r) :
    toInt r.value < 0 := by
  rw [hd] at hr
  cases hstale : p && keptHere parts keys host.db bak.db key with
  | false =>
    obtain ⟨hrow, -⟩ := fresh_row hkept hstale hr
    have hnames := hresolved p r hrow
    rw [hempty] at hnames
    exact hnames.resolve_right not_mem_nil
  | true =>
    obtain ⟨hp, hsettings, hrow⟩ := stale_row hkept hstale
    rw [hrow] at hr
    exact hhost hp hsettings _ (by rw [databaseSettingId, hr]; rfl)

/-! ## The counters -/

/-- The counters of the restored kinds, moved past the ids and past the backup's counters. -/
def moved (d : Db) (e : EntityIds) : EntityIds :=
  let bakIds := bak.db.entityIds
  let move := fun (part has : Bool) (counter : EntityIds → Int) (ids : List Int) =>
    if part then raised has (bakIds.rows.map counter) ids (counter e) else counter e
  let entity := parts.profiles || parts.routes
  { profileLastId := move entity bakIds.isPresent profileLastId (d.profiles.rows.map ProfileRow.id)
    groupLastId := move entity bakIds.isPresent groupLastId (d.groups.rows.map GroupRow.id)
    routeProfileLastId :=
      move entity bakIds.isPresent routeProfileLastId (d.routeProfiles.rows.map RouteProfileRow.id)
    otpProfileLastId :=
      move parts.otp (bakIds.hasColumn "otp_profile_last_id") otpProfileLastId (d.otpProfiles.rows.map OtpProfileRow.id)
    ipListLastId :=
      move parts.ipLists (bakIds.hasColumn "ip_list_last_id") ipListLastId (d.ipLists.rows.map IpListRow.id)
    ipScanLastId :=
      move parts.ipLists (bakIds.hasColumn "ip_scan_last_id") ipScanLastId (d.ipScans.rows.map IpScanRow.id) }

theorem counters_eq (d : Db) :
    run (counters parts bak.db) d = { d with entityIds := d.entityIds.update (moved parts bak d) } := by
  obtain ⟨profiles, routes, settings, otp, ipLists⟩ := parts
  cases profiles <;> cases routes <;> cases otp <;> cases ipLists
  case false.false.false.false =>
    show d = { d with entityIds := { d.entityIds with rows := d.entityIds.rows.map id } }
    rw [map_id]
  all_goals
    simp only [counters, Table.update, Bool.or_false, Bool.or_true, Bool.or_self, if_true, Bool.false_eq_true, if_false,
      nil_append, append_nil, cons_append, run_cons, run_nil, map_map]
    rfl

theorem le_maxOr0 {ids : List Int} {id : Int} (h : id ∈ ids) : id ≤ maxOr0 ids := by
  cases hmax : ids.max? with
  | none => exact absurd (max?_eq_none_iff.mp hmax ▸ h) not_mem_nil
  | some m =>
    rw [maxOr0, hmax]
    exact (max?_eq_some_iff.mp hmax).2 id h

theorem le_raised {bakHas : Bool} {bakCounters ids : List Int} {counter id : Int} (h : id ∈ ids) :
    id ≤ raised bakHas bakCounters ids counter := by
  have hmax := le_maxOr0 h
  rw [raised]
  split
  · exact le_max_of_le_left (le_max_of_le_right hmax)
  · exact le_max_of_le_right hmax

/-- A counter that is moved is past the ids; one that is not covers what it covered. -/
theorem forall_le_raised_iff {Row : Type*} {part has : Bool} {rows l : List Row} {id : Row → Int} {baks : List Int}
    {counter : Int} (hrows : part = false → rows = l) :
    (∀ r ∈ rows, id r ≤ if part then raised has baks (rows.map id) counter else counter) ↔
      (part = false → ∀ r ∈ l, id r ≤ counter) := by
  cases part with
  | true => exact iff_of_true (fun r hr => le_raised (mem_map_of_mem hr)) (fun h => by cases h)
  | false =>
    rw [hrows rfl]
    exact ⟨fun h _ => h, fun h => h rfl⟩

/-! ## The restored database -/

/-- The database at `COMMIT`. -/
def restored : Db := run (body parts keys host.db bak.db) host.db

theorem columns_groups : (repaired parts keys host bak).groups.hasColumn "route_id" = true := by
  obtain ⟨t, ht⟩ := repaired_only parts keys host bak
  have hcolumns : (repaired parts keys host bak).groups.columns = host.db.groups.columns := by
    rw [ht, copied_eq]
    exact columns_if (Table.columns_replace _ _ _ _ _)
  rw [Table.hasColumn, hcolumns]
  exact (congrFun host.current.groups "route_id").trans (by decide)

theorem columns_routeProfiles : (repaired parts keys host bak).routeProfiles.hasColumn "source_gid" = true := by
  obtain ⟨t, ht⟩ := repaired_only parts keys host bak
  have hcolumns : (repaired parts keys host bak).routeProfiles.columns = host.db.routeProfiles.columns := by
    rw [ht, copied_eq]
    exact columns_if (Table.columns_replace _ _ _ _ _)
  rw [Table.hasColumn, hcolumns]
  exact (congrFun host.current.routeProfiles "source_gid").trans (by decide)

theorem resets_eq : run (resets parts host.db bak.db) (repaired parts keys host bak) =
    if parts.profiles != parts.routes then
      { repaired parts keys host bak with
        groups := (repaired parts keys host bak).groups.update fun r => { r with routeId := -1 }
        routeProfiles := (repaired parts keys host bak).routeProfiles.update fun r => { r with sourceGid := -1 } }
    else repaired parts keys host bak := by
  rw [resets, groupsReplaced_eq, routesReplaced_eq]
  split
  · rw [run_cons, columns_groups, if_pos rfl, run_cons]
    show (if (repaired parts keys host bak).routeProfiles.hasColumn "source_gid" = true then _ else _) = _
    rw [columns_routeProfiles, if_pos rfl]
  · rfl

/-- What each table holds after the transaction. -/
structure After (d : Db) : Prop where
  profiles : d.profiles.rows = (source host bak parts.profiles).profiles.rows
  groupsOrder : d.groupsOrder.rows = (source host bak parts.profiles).groupsOrder.rows
  groups : d.groups.rows =
    if parts.profiles != parts.routes then (source host bak parts.profiles).groups.rows.map fun r => { r with routeId := -1 }
    else (source host bak parts.profiles).groups.rows
  routeRules : d.routeRules.rows = (source host bak parts.routes).routeRules.rows
  routeProfiles : d.routeProfiles.rows =
    if parts.profiles != parts.routes then (source host bak parts.routes).routeProfiles.rows.map fun r => { r with sourceGid := -1 }
    else (source host bak parts.routes).routeProfiles.rows
  settings : d.settings = (repaired parts keys host bak).settings
  otpProfiles : d.otpProfiles.rows = (source host bak parts.otp).otpProfiles.rows
  ipScans : d.ipScans.rows = (source host bak parts.ipLists).ipScans.rows
  ipLists : d.ipLists.rows = (source host bak parts.ipLists).ipLists.rows
  entityIds : d.entityIds.rows = host.db.entityIds.rows.map (moved parts bak d)

theorem rows_source {Row : Type*} (table : Db → Table Row) (c : Bool) :
    (if c = true then (table bak.db).rows else (table host.db).rows) = (table (source host bak c)).rows := by
  cases c with
  | false => rfl
  | true => rfl

/-- The copied tables are still there after the repairs. -/
theorem repaired_after {d : Db} (hd : repaired parts keys host bak = d) :
    d.profiles.rows = (source host bak parts.profiles).profiles.rows ∧
      d.groupsOrder.rows = (source host bak parts.profiles).groupsOrder.rows ∧
      d.groups.rows = (source host bak parts.profiles).groups.rows ∧
      d.routeRules.rows = (source host bak parts.routes).routeRules.rows ∧
      d.routeProfiles.rows = (source host bak parts.routes).routeProfiles.rows ∧
      d.otpProfiles.rows = (source host bak parts.otp).otpProfiles.rows ∧
      d.ipScans.rows = (source host bak parts.ipLists).ipScans.rows ∧
      d.ipLists.rows = (source host bak parts.ipLists).ipLists.rows ∧ d.entityIds = host.db.entityIds := by
  obtain ⟨t, ht⟩ := repaired_only parts keys host bak
  rw [← hd, ht]
  refine ⟨?_, ?_, ?_, ?_, ?_, ?_, ?_, ?_, by rw [copied_eq]⟩
  · exact (copied_profiles parts keys host bak).trans (rows_source host bak profiles _)
  · exact (copied_groupsOrder parts keys host bak).trans (rows_source host bak groupsOrder _)
  · exact (copied_groups parts keys host bak).trans (rows_source host bak groups _)
  · exact (copied_routeRules parts keys host bak).trans (rows_source host bak routeRules _)
  · exact (copied_routeProfiles parts keys host bak).trans (rows_source host bak routeProfiles _)
  · exact (copied_otpProfiles parts keys host bak).trans (rows_source host bak otpProfiles _)
  · exact (copied_ipScans parts keys host bak).trans (rows_source host bak ipScans _)
  · exact (copied_ipLists parts keys host bak).trans (rows_source host bak ipLists _)

theorem restored_after : After parts keys host bak (restored parts keys host bak) := by
  have hrun : restored parts keys host bak =
      run (counters parts bak.db) (run (resets parts host.db bak.db) (repaired parts keys host bak)) := by
    rw [restored, body, run_append, run_append, run_append]
    rfl
  obtain ⟨hprofiles, hgroupsOrder, hgroups, hrules, hroutes, hotp, hscans, hlists, hids⟩ :=
    repaired_after parts keys host bak rfl
  rw [hrun, counters_eq, resets_eq]
  cases hapart : parts.profiles != parts.routes with
  | false =>
    refine ⟨hprofiles, hgroupsOrder, ?_, hrules, ?_, rfl, hotp, hscans, hlists, ?_⟩
    · rw [hapart]
      exact hgroups
    · rw [hapart]
      exact hroutes
    · show (repaired parts keys host bak).entityIds.rows.map _ = _
      rw [hids]
      rfl
  | true =>
    refine ⟨hprofiles, hgroupsOrder, ?_, hrules, ?_, rfl, hotp, hscans, hlists, ?_⟩
    · rw [hapart, ← hgroups]
      rfl
    · rw [hapart, ← hroutes]
      rfl
    · show (repaired parts keys host bak).entityIds.rows.map _ = _
      rw [hids]
      rfl

end

end Waterdisco.Restore
