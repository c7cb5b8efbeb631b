import Waterdisco.Db.Restore

/-!
# The steps of a restore

`Sound` is what a restore should leave behind: every reference names a row that came from
where the reference came from.  Between databases of the current schema the tables of a part
are those of the backup (`copied_profiles` and its like), a kept setting is the host's
(`copied_settingRow`), and a repaired setting is in order (`repaired_ok`, `repaired_names`).
-/

namespace Waterdisco.Restore

open List Nat Prod Option

/-! ## The current schema -/

def profileColumns : List String :=
  ["id", "type", "name", "gid", "latency", "latency_at", "connect_time_ms", "rx_speed_mbps", "site_score",
   "performance_test_status", "dl_speed", "ul_speed", "test_country", "ip_out", "outbound_json",
   "traffic_dl", "traffic_up",
   "endpoint_json", "created_at", "updated_at"]

def groupOrderColumns : List String := ["group_id", "display_order"]

def groupColumns : List String :=
  ["id", "archive", "skip_auto_update", "name", "url", "info", "sub_last_update", "front_proxy_id", "landing_proxy_id",
   "column_width_json", "profiles_json", "scroll_last_profile", "auto_clear_unavailable",
   "test_sort_by", "traffic_sort_by",
   "test_items_to_show", "type_sort_by", "sub_options_json", "sub_metadata_json", "endpoint_json", "sort_method",
   "sort_descending", "route_id", "import_sub_route", "created_at", "updated_at"]

def ruleColumns : List String :=
  ["route_profile_id", "rule_order", "name", "type", "ip_version", "network", "protocol", "inbound_json", "domain_json",
   "domain_suffix_json", "domain_keyword_json", "domain_regex_json", "source_ip_cidr_json", "source_ip_is_private",
   "ip_cidr_json", "ip_is_private", "source_port_json", "source_port_range_json", "port_json", "port_range_json",
   "process_name_json", "process_path_json", "process_path_regex_json", "rule_set_json", "invert",
   "outbound_id", "action",
   "reject_method", "no_drop", "override_address", "override_port", "sniffers_json", "sniff_override_dest", "strategy",
   "wifi_ssid_json", "wifi_bssid_json", "tls_spoof", "tls_spoof_method", "package_name_json", "tls_fragment",
   "tls_fragment_fallback_delay", "tls_record_fragment", "disabled"]

def routeProfileColumns : List String :=
  ["id", "name", "default_outbound_id", "is_raw", "raw_route", "prevent_modifications", "is_remote",
   "remote_url", "auto_update",
   "remote_last_update", "endpoint_profile_ids", "inner_hop_endpoint_ids", "dns_json", "custom_dns",
   "source_gid", "created_at",
   "updated_at"]

def settingColumns : List String := ["key", "value"]

def markerColumns : List String := ["key", "marked_at"]

def otpProfileColumns : List String :=
  ["id", "name", "issuer", "secret", "algorithm", "type", "digits", "period", "counter",
   "sort_order", "created_at", "updated_at"]

def ipListEntryColumns : List String := ["ip_list_id", "generation", "entry_order", "cidr", "port", "latency_ms"]

def ipScanColumns : List String :=
  ["id", "name", "kind", "sort_order", "base_list_id", "result_list_id", "config_json", "status",
   "mode", "snapshot_list_id",
   "seed", "cursor", "total", "spec_hash", "rescan_snapshot_list_id", "rescan_cursor",
   "rescan_total", "found", "removed",
   "last_error", "started_at", "finished_at", "created_at", "updated_at"]

def ipListColumns : List String :=
  ["id", "name", "related_test_id", "role", "source_kind", "source", "auto_update", "update_interval", "last_update",
   "last_error", "sort_order", "entries_generation", "created_at", "updated_at"]

def entityIdColumns : List String :=
  ["profile_last_id", "group_last_id", "route_profile_last_id", "otp_profile_last_id",
   "ip_list_last_id", "ip_scan_last_id"]

/-- The table has just these columns, in any order. -/
def OfSchema {Row : Type*} (t : Table Row) (columns : List String) : Prop := t.hasColumn = columns.contains

structure Current (d : Db) : Prop where
  profiles : OfSchema d.profiles profileColumns
  groupsOrder : OfSchema d.groupsOrder groupOrderColumns
  groups : OfSchema d.groups groupColumns
  routeRules : OfSchema d.routeRules ruleColumns
  routeProfiles : OfSchema d.routeProfiles routeProfileColumns
  settings : OfSchema d.settings settingColumns
  markers : OfSchema d.markers markerColumns
  otpProfiles : OfSchema d.otpProfiles otpProfileColumns
  ipListEntries : OfSchema d.ipListEntries ipListEntryColumns
  ipScans : OfSchema d.ipScans ipScanColumns
  ipLists : OfSchema d.ipLists ipListColumns
  entityIds : OfSchema d.entityIds entityIdColumns
  filled : ∀ r ∈ d.routeRules.rows, ∀ c ∈ r.filled, d.routeRules.hasColumn c = true

section

variable {Row : Type*} {t u : Table Row} {columns : List String}

theorem OfSchema.isPresent (h : OfSchema t columns) (c : String) (hc : columns.contains c = true) :
    t.isPresent = true := by
  have hhas : t.hasColumn c = true := by rw [h, hc]
  cases hnil : t.columns with
  | nil => simp [Table.hasColumn, hnil] at hhas
  | cons => simp [Table.isPresent, hnil]

theorem OfSchema.rows_replace {copied : (String → Bool) → Row → Row} (ht : OfSchema t columns) (hu : OfSchema u columns)
    (c : String) (hc : columns.contains c = true) (hcopied : ∀ r ∈ u.rows, copied columns.contains r = r)
    (stays comes : Row → Bool) :
    (t.replace u copied stays comes).rows = t.rows.filter stays ++ u.rows.filter comes :=
  Table.rows_replace stays comes (ht.isPresent c hc) (hu.trans ht.symm) fun r hr => by rw [ht]; exact hcopied r hr

theorem OfSchema.rows_copyTable {copied : (String → Bool) → Row → Row} (ht : OfSchema t columns)
    (hu : OfSchema u columns)
    (c : String) (hc : columns.contains c = true) (hcopied : ∀ r ∈ u.rows, copied columns.contains r = r) :
    (copyTable copied t u).rows = u.rows := by
  rw [copyTable, ht.rows_replace hu c hc hcopied]
  simp

end

/-! ## References -/

def Db.profileIds (d : Db) : List (Int × Origin) := d.profiles.rows.map fun r => (r.id, r.origin)

def Db.groupIds (d : Db) : List (Int × Origin) := d.groups.rows.map fun r => (r.id, r.origin)

def Db.routeIds (d : Db) : List (Int × Origin) := d.routeProfiles.rows.map fun r => (r.id, r.origin)

/-- A predefined id is negative; any other names a row that came from where the reference came from. -/
def Names (rows : List (Int × Origin)) (origin : Origin) (id : Int) : Prop := id < 0 ∨ (id, origin) ∈ rows

def RouteProfileRow.profileRefs (r : RouteProfileRow) : List Int :=
  r.defaultOutboundId :: (r.endpointProfileIds ++ r.innerHopEndpointIds)

structure References (d : Db) : Prop where
  routeIds : ∀ r ∈ d.groups.rows, Names d.routeIds r.origin r.routeId
  sourceGids : ∀ r ∈ d.routeProfiles.rows, Names d.groupIds r.origin r.sourceGid
  outboundIds : ∀ r ∈ d.routeRules.rows, Names d.profileIds r.origin r.outboundId
  profileRefs : ∀ r ∈ d.routeProfiles.rows, ∀ id ∈ r.profileRefs, Names d.profileIds r.origin id

/-- The id in the setting is none, came with its row, or is the existing one that the call resets to.
A value that is the one to reset to already is not written again. -/
def SettingOk (d : Db) (key : String) (rows : List (Int × Origin)) (fallback : Option Int) : Prop :=
  ∀ r, settingRow d key = some r →
    Names rows r.origin (toInt r.value) ∨
      (r.origin = .call ∨ fallback = some (toInt r.value)) ∧ toInt r.value ∈ rows.map fst

structure SettingReferences (d : Db) : Prop where
  rememberId : SettingOk d "remember_id" d.profileIds none
  currentGroup : SettingOk d "current_group" d.groupIds (firstGroup d)
  currentRoute : SettingOk d "current_route_id" d.routeIds (lowestRoute d)

/-- The setting names a row, where there are any. -/
def NamesExisting (d : Db) (key : String) (ids : List Int) : Prop := ids ≠ [] → ∃ id ∈ ids,
    databaseSettingId d key = some id

@[mk_iff] structure Covered (d : Db) (e : EntityIds) : Prop where
  profiles : ∀ r ∈ d.profiles.rows, r.id ≤ e.profileLastId
  groups : ∀ r ∈ d.groups.rows, r.id ≤ e.groupLastId
  routeProfiles : ∀ r ∈ d.routeProfiles.rows, r.id ≤ e.routeProfileLastId
  otpProfiles : ∀ r ∈ d.otpProfiles.rows, r.id ≤ e.otpProfileLastId
  ipLists : ∀ r ∈ d.ipLists.rows, r.id ≤ e.ipListLastId
  ipScans : ∀ r ∈ d.ipScans.rows, r.id ≤ e.ipScanLastId

/-- What a restore should leave behind. -/
structure Sound (d : Db) : Prop where
  references : References d
  settings : SettingReferences d
  currentGroup : NamesExisting d "current_group" (d.groups.rows.map GroupRow.id)
  currentRoute : NamesExisting d "current_route_id" (d.routeProfiles.rows.map RouteProfileRow.id)
  counters : ∀ e ∈ d.entityIds.rows, Covered d e

/-- A database of the current schema whose references name rows of its own. -/
structure Stored (origin : Origin) where
  db : Db
  current : Current db
  groupInts : ∀ r ∈ db.groups.rows, IsInt r.id
  routeInts : ∀ r ∈ db.routeProfiles.rows, IsInt r.id
  profilesFrom : ∀ r ∈ db.profiles.rows, r.origin = origin
  groupsFrom : ∀ r ∈ db.groups.rows, r.origin = origin
  rulesFrom : ∀ r ∈ db.routeRules.rows, r.origin = origin
  routesFrom : ∀ r ∈ db.routeProfiles.rows, r.origin = origin
  settingsFrom : ∀ r ∈ db.settings.rows, r.origin = origin
  references : References db
  rememberId : ∀ r, settingRow db "remember_id" = some r → Names db.profileIds origin (toInt r.value)
  currentGroup : ∀ r, settingRow db "current_group" = some r → Names db.groupIds origin (toInt r.value)
  currentRoute : ∀ r, settingRow db "current_route_id" = some r → Names db.routeIds origin (toInt r.value)

/-! ## Settings -/

theorem digitChar_plain (d : Nat) (h : d < 10) : isSpace (digitChar d) = false ∧ digitChar d ≠ '-' ∧
    digitChar d ≠ '+' := by
  revert d
  decide

theorem trim_of_plain {text : List Char} (h : ∀ c ∈ text, isSpace c = false) :
    (text.dropWhile isSpace).rdropWhile isSpace = text := by
  have hleft : text.dropWhile isSpace = text := by
    rw [dropWhile_eq_self_iff]
    intro hlen
    rw [h _ (getElem_mem hlen)]
    exact Bool.false_ne_true
  rw [hleft, rdropWhile_eq_self_iff]
  intro hne
  rw [h _ (getLast_mem hne)]
  exact Bool.false_ne_true

theorem digits_plain (n : Nat) : ∀ c ∈ toDigits 10 n, isSpace c = false ∧ c ≠ '-' ∧ c ≠ '+' := by
  intro c hc
  obtain ⟨d, hd, rfl⟩ := mem_toDigits (by omega) hc
  exact digitChar_plain d hd

theorem signed_toText (n : Int) : signed (toText n) = some n := by
  have hread := readDigits_toDigits (by omega) decimalDigit_digitChar n.natAbs
  have hplain := digits_plain n.natAbs
  have hsome : (toDigits 10 n.natAbs).isEmpty = false := by simp
  rw [toText]
  split
  · rename_i hneg
    rw [signed, hsome, hread]
    have hvalue : -(n.natAbs : Int) = n := by omega
    exact congrArg some hvalue
  rw [signed]
  · rw [hsome, hread]
    have hvalue : (n.natAbs : Int) = n := by omega
    exact congrArg some hvalue
  · intro rest heq
    exact (hplain '-' (by rw [heq]; exact (.head _))).2.1 rfl
  · intro rest heq
    exact (hplain '+' (by rw [heq]; exact (.head _))).2.2 rfl

theorem toInt_toText {n : Int} (h : IsInt n) : toInt (toText n) = n := by
  have hplain := digits_plain n.natAbs
  have htrim : ((toText n).dropWhile isSpace).rdropWhile isSpace = toText n := by
    refine trim_of_plain fun c hc => ?_
    rw [toText] at hc
    split at hc
    · rcases mem_cons.mp hc with rfl | hc
      · rfl
      · exact (hplain c hc).1
    · exact (hplain c hc).1
  rw [toInt, htrim, signed_toText]
  exact if_pos h

theorem find?_filter_key (p : String → Bool) (rows : List SettingRow) (key : String) :
    (rows.filter fun r => p r.key).find? (fun r => r.key == key) =
      if p key then rows.find? (fun r => r.key == key) else none := by
  induction rows with
  | nil => cases p key <;> rfl
  | cons r rows ih =>
    rw [filter_cons, find?_cons]
    by_cases hr : r.key = key
    · rw [hr]
      cases hp : p key with
      | false => simpa [hp] using ih
      | true => simp [hr]
    · rw [beq_false_of_ne hr]
      cases p r.key with
      | false => exact ih
      | true =>
        show find? _ (r :: _) = _
        rw [find?_cons, beq_false_of_ne hr]
        exact ih

theorem settingRow_set (key : String) (id : Int) (d : Db) (other : String) :
    settingRow (databaseSetSettingId key id d) other =
      if other = key then some ⟨key, toText id, .call⟩ else settingRow d other := by
  show (d.settings.rows.filter (fun r : SettingRow => r.key != key) ++ [(⟨key, toText id, .call⟩ : SettingRow)]).find?
    (fun r : SettingRow => r.key == other) = _
  rw [find?_append, find?_filter_key (fun k => k != key)]
  by_cases h : other = key
  · simp [h]
  rw [if_neg h, if_pos (by simpa using h)]
  have hnew : [(⟨key, toText id, .call⟩ : SettingRow)].find? (fun r => r.key == other) = none := by
    rw [find?_cons, beq_false_of_ne (Ne.symm h)]
    rfl
  rw [hnew, or_none]
  rfl

theorem databaseSettingId_set {key : String} {id : Int} (hid : IsInt id) (d : Db) :
    databaseSettingId (databaseSetSettingId key id d) key = some id := by
  rw [databaseSettingId, settingRow_set, if_pos rfl]
  exact congrArg some (toInt_toText hid)

/-! ## Repaired ids -/

/-- The two databases differ in their settings at most. -/
def SettingsOnly (d d' : Db) : Prop := ∃ t, d' = { d with settings := t }

theorem SettingsOnly.refl (d : Db) : SettingsOnly d d := ⟨d.settings, rfl⟩

theorem SettingsOnly.trans {d d' d'' : Db} (h : SettingsOnly d d') (h' : SettingsOnly d' d'') : SettingsOnly d d'' := by
  obtain ⟨t, rfl⟩ := h
  obtain ⟨u, rfl⟩ := h'
  exact ⟨u, rfl⟩

section

variable (key : String) (stale : Bool) (ids : List Int) (fallback : Option Int) (d : Db)

theorem repairSettingId_only : SettingsOnly d (repairSettingId key stale ids fallback d) := by
  unfold repairSettingId repairId
  split
  · split
    · split
      · exact .refl d
      · exact ⟨_, rfl⟩
    · exact .refl d
  · exact .refl d

theorem repairSettingId_other {other : String} (h : other ≠ key) :
    settingRow (repairSettingId key stale ids fallback d) other = settingRow d other := by
  unfold repairSettingId repairId
  split
  · split
    · split
      · rfl
      · rw [settingRow_set, if_neg h]
    · rfl
  · rfl

variable (hint : ∀ id, fallback = some id → IsInt id)

include hint in
/-- An id stays if it resolves and is not stale, or if there is nothing to reset it to. -/
theorem repairSettingId_cases :
    (settingRow (repairSettingId key stale ids fallback d) key = settingRow d key ∧ stale = false ∧
        ∃ id ∈ ids, databaseSettingId d key = some id) ∨
      (settingRow (repairSettingId key stale ids fallback d) key = settingRow d key ∧ fallback = none) ∨
      ∃ id, fallback = some id ∧ databaseSettingId (repairSettingId key stale ids fallback d) key = some id := by
  unfold repairSettingId repairId
  split
  · right
    split
    · rename_i id
      right
      split
      · rename_i hsame
        exact ⟨id, rfl, hsame.symm⟩
      · exact ⟨id, rfl, databaseSettingId_set (hint id rfl) d⟩
    · exact .inl ⟨rfl, rfl⟩
  · rename_i hkept
    left
    rw [not_or, not_or] at hkept
    obtain ⟨hsome, hfresh, hresolves⟩ := hkept
    obtain ⟨id, hid⟩ := ne_none_iff_exists'.mp hsome
    refine ⟨rfl, by simpa using hfresh, id, ?_, hid⟩
    by_contra hnone
    exact hresolves (by simp [hid, hnone])

variable {key} {stale} {fallback} {d} {rows : List (Int × Origin)}

include hint

theorem repaired_ok (hmem : ∀ id, fallback = some id → id ∈ rows.map fst)
    (hkept : stale = false → ∀ r, settingRow d key = some r → toInt r.value ∈ rows.map fst →
      Names rows r.origin (toInt r.value))
    (hnone : fallback = none → ∀ r, settingRow d key = some r → Names rows r.origin (toInt r.value)) :
    SettingOk (repairSettingId key stale (rows.map fst) fallback d) key rows fallback := by
  intro r hr
  rcases repairSettingId_cases key stale (rows.map fst) fallback d hint with
    ⟨hsame, hfresh, id, hid, hread⟩ | ⟨hsame, hfallback⟩ | ⟨id, hfallback, hread⟩
  · rw [hsame] at hr
    rw [databaseSettingId, hr] at hread
    cases hread
    exact .inl (hkept hfresh r hr hid)
  · rw [hsame] at hr
    exact .inl (hnone hfallback r hr)
  · rw [databaseSettingId, hr] at hread
    cases hread
    exact .inr ⟨.inr hfallback, hmem _ hfallback⟩

theorem repaired_names (hmem : ∀ id, fallback = some id → id ∈ ids)
    (hnone : fallback = none → ids = []) : NamesExisting (repairSettingId key stale ids fallback d) key ids := by
  intro hids
  rcases repairSettingId_cases key stale ids fallback d hint with
    ⟨hsame, -, id, hid, hread⟩ | ⟨-, hfallback⟩ | ⟨id, hfallback, hread⟩
  · refine ⟨id, hid, ?_⟩
    rw [databaseSettingId, hsame]
    exact hread
  · exact absurd (hnone hfallback) hids
  · exact ⟨id, hmem id hfallback, hread⟩

end

/-! ### What the ids are reset to -/

theorem firstGroup_mem {d : Db} {id : Int} (h : firstGroup d = some id) : id ∈ d.groups.rows.map GroupRow.id := by
  rw [firstGroup] at h
  split at h
  · rename_i o ho
    cases h
    have hlisted := List.minOn?_mem ho
    exact of_decide_eq_true (mem_filter.mp hlisted).2
  · exact min?_mem h

theorem firstGroup_eq_none {d : Db} (h : firstGroup d = none) : d.groups.rows.map GroupRow.id = [] := by
  rw [firstGroup] at h
  split at h
  · cases h
  · exact min?_eq_none_iff.mp h

theorem lowestRoute_mem {d : Db} {id : Int} (h : lowestRoute d = some id) :
    id ∈ d.routeProfiles.rows.map RouteProfileRow.id :=
  min?_mem h

theorem lowestRoute_eq_none {d : Db} (h : lowestRoute d = none) : d.routeProfiles.rows.map RouteProfileRow.id = [] :=
  min?_eq_none_iff.mp h

/-! ## The copied tables -/

section

variable (parts : BackupParts) (keys : List String) (host : Stored .host) (bak : Stored .backup)

/-- The database after the copies. -/
def copied : Db := run (copies parts keys host.db bak.db) host.db

theorem copied_eq : copied parts keys host bak =
    { profiles := if parts.profiles then copyTable (fun _ r => r) host.db.profiles bak.db.profiles else host.db.profiles
      groupsOrder := if parts.profiles then copyTable (fun _ r => r) host.db.groupsOrder bak.db.groupsOrder else host.db.groupsOrder
      groups := if parts.profiles then copyTable GroupRow.copied host.db.groups bak.db.groups else host.db.groups
      routeRules := if parts.routes then copyRules host.db.routeRules bak.db.routeRules else host.db.routeRules
      routeProfiles :=
        if parts.routes then copyTable RouteProfileRow.copied host.db.routeProfiles bak.db.routeProfiles else host.db.routeProfiles
      settings :=
        if parts.settings then
          copySettings (settingKeepKeys parts keys host.db bak.db) host.db.settings bak.db.settings
        else host.db.settings
      markers :=
        if parts.settings then
          (let markers := copyTable (fun _ r => r) host.db.markers bak.db.markers
           if !bak.db.markers.isPresent && markers.isPresent then { markers with rows := [] } else markers)
        else host.db.markers
      otpProfiles := if parts.otp then copyTable (fun _ r => r) host.db.otpProfiles bak.db.otpProfiles else host.db.otpProfiles
      ipListEntries :=
        if parts.ipLists then copyTable (fun _ r => r) host.db.ipListEntries bak.db.ipListEntries else host.db.ipListEntries
      ipScans := if parts.ipLists then copyTable (fun _ r => r) host.db.ipScans bak.db.ipScans else host.db.ipScans
      ipLists := if parts.ipLists then copyTable (fun _ r => r) host.db.ipLists bak.db.ipLists else host.db.ipLists
      entityIds := host.db.entityIds } := by
  obtain ⟨profiles, routes, settings, otp, ipLists⟩ := parts
  cases profiles <;> cases routes <;> cases settings <;> cases otp <;> cases ipLists
  all_goals
    unfold copied copies copyProfileTables copyRouteTables copySettingTables copyOtpTables copyIpListTables
    first
    | rfl
    | simp only [if_true, Bool.false_eq_true, if_false, nil_append, append_nil, cons_append, run_cons, run_nil]
      split <;> rfl

/-! ### Their rows -/

theorem rows_if {Row : Type*} {c : Bool} {u v : Table Row} {rows : List Row} (h : u.rows = rows) :
    (if c = true then u else v).rows = if c = true then rows else v.rows := by
  split
  · exact h
  · rfl

theorem columns_if {Row : Type*} {c : Bool} {u v : Table Row} (h : u.columns = v.columns) :
    (if c = true then u else v).columns = v.columns := by
  split
  · exact h
  · rfl

theorem copied_profiles : (copied parts keys host bak).profiles.rows =
    if parts.profiles then bak.db.profiles.rows else host.db.profiles.rows := by
  rw [copied_eq]
  exact rows_if (host.current.profiles.rows_copyTable bak.current.profiles "id" (by decide) fun _ _ => rfl)

theorem copied_groupsOrder : (copied parts keys host bak).groupsOrder.rows =
    if parts.profiles then bak.db.groupsOrder.rows else host.db.groupsOrder.rows := by
  rw [copied_eq]
  exact rows_if (host.current.groupsOrder.rows_copyTable bak.current.groupsOrder "group_id" (by decide) fun _ _ => rfl)

theorem copied_groups : (copied parts keys host bak).groups.rows =
    if parts.profiles then bak.db.groups.rows else host.db.groups.rows := by
  rw [copied_eq]
  exact rows_if (host.current.groups.rows_copyTable bak.current.groups "id" (by decide) fun _ _ => rfl)

theorem copied_routeProfiles : (copied parts keys host bak).routeProfiles.rows =
    if parts.routes then bak.db.routeProfiles.rows else host.db.routeProfiles.rows := by
  rw [copied_eq]
  exact rows_if (host.current.routeProfiles.rows_copyTable bak.current.routeProfiles "id" (by decide) fun _ _ => rfl)

theorem copied_otpProfiles : (copied parts keys host bak).otpProfiles.rows =
    if parts.otp then bak.db.otpProfiles.rows else host.db.otpProfiles.rows := by
  rw [copied_eq]
  exact rows_if (host.current.otpProfiles.rows_copyTable bak.current.otpProfiles "id" (by decide) fun _ _ => rfl)

theorem copied_ipScans : (copied parts keys host bak).ipScans.rows =
    if parts.ipLists then bak.db.ipScans.rows else host.db.ipScans.rows := by
  rw [copied_eq]
  exact rows_if (host.current.ipScans.rows_copyTable bak.current.ipScans "id" (by decide) fun _ _ => rfl)

theorem copied_ipLists : (copied parts keys host bak).ipLists.rows =
    if parts.ipLists then bak.db.ipLists.rows else host.db.ipLists.rows := by
  rw [copied_eq]
  exact rows_if (host.current.ipLists.rows_copyTable bak.current.ipLists "id" (by decide) fun _ _ => rfl)

/-- Between databases of one schema no rule is skipped. -/
theorem keepRow_eq_true (r : RuleRow) : keepRow host.db.routeRules bak.db.routeRules r = true := by
  rw [keepRow, List.all_eq_true]
  intro column hcolumn
  have hbak : bak.db.routeRules.hasColumn column = true := by simpa [Table.hasColumn] using hcolumn
  rw [bak.current.routeRules, ← host.current.routeRules] at hbak
  rw [hbak, Bool.true_or]

theorem skippedRules_eq_zero : skippedRules host.db.routeRules bak.db.routeRules = 0 := by
  rw [skippedRules]
  split
  · rfl
  · simp [keepRow_eq_true host bak]

theorem copied_routeRules : (copied parts keys host bak).routeRules.rows =
    if parts.routes then bak.db.routeRules.rows else host.db.routeRules.rows := by
  rw [copied_eq]
  refine rows_if ?_
  have hkept : bak.db.routeRules.rows.filter (keepRow host.db.routeRules bak.db.routeRules) = bak.db.routeRules.rows :=
    List.filter_eq_self.mpr fun r _ => keepRow_eq_true host bak r
  have hsame : OfSchema ({ bak.db.routeRules with rows := bak.db.routeRules.rows } : Table RuleRow) ruleColumns :=
    bak.current.routeRules
  have hcopied : ∀ r ∈ bak.db.routeRules.rows, r.copied ruleColumns.contains = r := by
    intro r hr
    have hfilled : r.filled.filter ruleColumns.contains = r.filled :=
      List.filter_eq_self.mpr fun c hc => by rw [← bak.current.routeRules]; exact bak.current.filled r hr c hc
    rw [RuleRow.copied, hfilled]
    rfl
  simp only [copyRules, hkept, skippedRules_eq_zero host bak, Nat.lt_irrefl, if_false, List.map_id']
  rw [host.current.routeRules.rows_replace hsame "outbound_id" (by decide) hcopied]
  simp

theorem copied_settingRow (key : String) : settingRow (copied parts keys host bak) key =
    if parts.settings && !(settingKeepKeys parts keys host.db bak.db).contains key then settingRow bak.db key
    else settingRow host.db key := by
  rw [settingRow, copied_eq]
  cases parts.settings with
  | false => rfl
  | true =>
    generalize settingKeepKeys parts keys host.db bak.db = kept
    show (copySettings kept host.db.settings bak.db.settings).rows.find? _ = _
    rw [copySettings, host.current.settings.rows_replace bak.current.settings "key" (by decide) fun _ _ => rfl,
      find?_append, find?_filter_key kept.contains, find?_filter_key (fun k => !kept.contains k)]
    cases kept.contains key with
    | false => rfl
    | true =>
      show (settingRow host.db key).or none = settingRow host.db key
      rw [or_none]

end

end Waterdisco.Restore
