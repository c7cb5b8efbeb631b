import Waterdisco.Db.RestoreAfter

/-!
# What a restore leaves behind

The ids of the settings, the route of a group and the group of a route are repaired; the
profiles that rules and routes name are not, so restoring one of the two parts alone leaves
them naming unrelated servers.

    no late throw  →  (the call meets its purpose  ↔  it throws, or Restorable)      (restoreSelective_iff)
-/

namespace Waterdisco.Restore

open List

section

variable (parts : BackupParts) (keys : List String) (host : Stored .host) (bak : Stored .backup)

/-! ## When a restore is sound -/

/-- The profiles that rules and routes name. -/
def Db.profileRefs (d : Db) : List Int :=
  d.routeRules.rows.map RuleRow.outboundId ++ d.routeProfiles.rows.flatMap RouteProfileRow.profileRefs

/-- The counters were ahead of the tables that stay the host's. -/
structure CountersHeld : Prop where
  entities : parts.profiles = false → parts.routes = false → ∀ e ∈ host.db.entityIds.rows,
    (∀ r ∈ host.db.profiles.rows, r.id ≤ e.profileLastId) ∧ (∀ r ∈ host.db.groups.rows, r.id ≤ e.groupLastId) ∧
      ∀ r ∈ host.db.routeProfiles.rows, r.id ≤ e.routeProfileLastId
  otp : parts.otp = false → ∀ e ∈ host.db.entityIds.rows, ∀ r ∈ host.db.otpProfiles.rows, r.id ≤ e.otpProfileLastId
  ipLists : parts.ipLists = false → ∀ e ∈ host.db.entityIds.rows,
    (∀ r ∈ host.db.ipLists.rows, r.id ≤ e.ipListLastId) ∧ ∀ r ∈ host.db.ipScans.rows, r.id ≤ e.ipScanLastId

/-- No profile is named across the parts, a host's id that is kept has something to be reset to,
and where nothing is restored the host was in order. -/
structure Restorable : Prop where
  profileRefs : parts.profiles = parts.routes ∨ ∀ id ∈ (source host bak parts.routes).profileRefs, id < 0
  currentGroup : parts.profiles = true → bak.db.groups.rows = [] → (parts.settings = false ∨ "current_group" ∈ keys) →
    ∀ id, databaseSettingId host.db "current_group" = some id → id < 0
  currentRoute : parts.routes = true → bak.db.routeProfiles.rows = [] →
    (parts.settings = false ∨ "current_route_id" ∈ keys) →
    ∀ id, databaseSettingId host.db "current_route_id" = some id → id < 0
  untouched : parts.anyDb = false →
    NamesExisting host.db "current_group" (host.db.groups.rows.map GroupRow.id) ∧
      NamesExisting host.db "current_route_id" (host.db.routeProfiles.rows.map RouteProfileRow.id)
  counters : CountersHeld parts host

/-! ### References -/

variable {p : Bool} {r : RouteProfileRow} {d' : Db} {key : String}

theorem sourceOrigin_inj {q : Bool} (h : sourceOrigin p = sourceOrigin q) : p = q := by
  cases p <;> cases q <;> first | rfl | cases h

theorem source_references (p : Bool) : References (source host bak p) := by
  cases p with
  | false => exact host.references
  | true => exact bak.references

variable {host bak}

theorem source_rules_origin {r : RuleRow} (h : r ∈ (source host bak p).routeRules.rows) : r.origin = sourceOrigin p := by
  cases p with
  | false => exact host.rulesFrom r h
  | true => exact bak.rulesFrom r h

theorem source_routes_origin (h : r ∈ (source host bak p).routeProfiles.rows) :
    r.origin = sourceOrigin p := by
  cases p with
  | false => exact host.routesFrom r h
  | true => exact bak.routesFrom r h

variable {parts keys} {d : Db}

variable (h : After parts keys host bak d)

include h

theorem After.profileIds : d.profileIds = (source host bak parts.profiles).profileIds := by
  rw [Db.profileIds, h.profiles]
  rfl

theorem After.groupIds : d.groupIds = (source host bak parts.profiles).groupIds := by
  rw [Db.groupIds, h.groups]
  split
  · rw [map_map]
    rfl
  · rfl

theorem After.routeIds : d.routeIds = (source host bak parts.routes).routeIds := by
  rw [Db.routeIds, h.routeProfiles]
  split
  · rw [map_map]
    rfl
  · rfl

theorem After.mem_routeProfiles (hr : r ∈ d.routeProfiles.rows) :
    ∃ r' ∈ (source host bak parts.routes).routeProfiles.rows, r.profileRefs = r'.profileRefs ∧ r.origin = r'.origin := by
  rw [h.routeProfiles] at hr
  split at hr
  · obtain ⟨r', hr', rfl⟩ := mem_map.mp hr
    exact ⟨r', hr', rfl, rfl⟩
  · exact ⟨r, hr, rfl, rfl⟩

theorem After.routeProfiles_mem
    (hr : r ∈ (source host bak parts.routes).routeProfiles.rows) :
    ∃ r' ∈ d.routeProfiles.rows, r'.profileRefs = r.profileRefs ∧ r'.origin = r.origin := by
  rw [h.routeProfiles]
  split
  · exact ⟨_, mem_map_of_mem hr, rfl, rfl⟩
  · exact ⟨r, hr, rfl, rfl⟩

theorem After.references_of_together (htogether : parts.profiles = parts.routes) : References d := by
  have hnone : (parts.profiles != parts.routes) = false := by simp [htogether]
  have hgroups := h.groups
  have hroutes := h.routeProfiles
  rw [hnone] at hgroups hroutes
  have hsource := source_references host bak parts.routes
  refine ⟨?_, ?_, ?_, ?_⟩
  · rw [h.routeIds, hgroups, htogether]
    exact hsource.routeIds
  · rw [h.groupIds, hroutes, htogether]
    exact hsource.sourceGids
  · rw [h.profileIds, h.routeRules, htogether]
    exact hsource.outboundIds
  · rw [h.profileIds, hroutes, htogether]
    exact hsource.profileRefs

theorem After.references_of_apart (hapart : parts.profiles ≠ parts.routes)
    (hnone : ∀ id ∈ (source host bak parts.routes).profileRefs, id < 0) : References d := by
  have hdiffer : (parts.profiles != parts.routes) = true := by simpa using hapart
  have hgroups := h.groups
  have hroutes := h.routeProfiles
  rw [hdiffer] at hgroups hroutes
  refine ⟨?_, ?_, ?_, ?_⟩
  · intro r hr
    rw [hgroups] at hr
    obtain ⟨r', -, rfl⟩ := mem_map.mp hr
    exact .inl (show (-1 : Int) < 0 by omega)
  · intro r hr
    rw [hroutes] at hr
    obtain ⟨r', -, rfl⟩ := mem_map.mp hr
    exact .inl (show (-1 : Int) < 0 by omega)
  · intro r hr
    rw [h.routeRules] at hr
    exact .inl (hnone _ (mem_append_left _ (mem_map_of_mem hr)))
  · intro r hr id hid
    obtain ⟨r', hr', hrefs, -⟩ := h.mem_routeProfiles hr
    rw [hrefs] at hid
    exact .inl (hnone _ (mem_append_right _ (mem_flatMap.mpr ⟨r', hr', hid⟩)))

omit h

theorem names_apart (hapart : parts.profiles ≠ parts.routes) {id : Int}
    (h : Names (source host bak parts.profiles).profileIds (sourceOrigin parts.routes) id) : id < 0 := by
  rcases h with hneg | hmem
  · exact hneg
  · exact absurd (sourceOrigin_inj (source_profileIds_origin hmem)).symm hapart

include h in
theorem After.references_iff :
    References d ↔ parts.profiles = parts.routes ∨ ∀ id ∈ (source host bak parts.routes).profileRefs, id < 0 := by
  constructor
  · intro hreferences
    by_cases htogether : parts.profiles = parts.routes
    · exact .inl htogether
    right
    intro id hid
    rcases mem_append.mp hid with hrule | hroute
    · obtain ⟨r, hr, rfl⟩ := mem_map.mp hrule
      have hnames := hreferences.outboundIds r (by rw [h.routeRules]; exact hr)
      rw [h.profileIds, source_rules_origin hr] at hnames
      exact names_apart htogether hnames
    · obtain ⟨r, hr, hid⟩ := mem_flatMap.mp hroute
      obtain ⟨r', hr', hrefs, horigin⟩ := h.routeProfiles_mem hr
      have hnames := hreferences.profileRefs r' hr' id (by rw [hrefs]; exact hid)
      rw [h.profileIds, horigin, source_routes_origin hr] at hnames
      exact names_apart htogether hnames
  · rintro (htogether | hnone)
    · exact h.references_of_together htogether
    · by_cases htogether : parts.profiles = parts.routes
      · exact h.references_of_together htogether
      · exact h.references_of_apart htogether hnone

/-! ### Settings -/

theorem SettingOk.of_row {d : Db} {rows : List (Int × Origin)} {fallback : Option Int}
    (h : SettingOk d key rows fallback) (hrow : settingRow d' key = settingRow d key) : SettingOk d' key rows fallback :=
  fun r hr => h r (by rw [← hrow]; exact hr)

theorem NamesExisting.of_row {d : Db} {ids : List Int} (h : NamesExisting d key ids)
    (hrow : settingRow d' key = settingRow d key) : NamesExisting d' key ids := by
  intro hids
  obtain ⟨id, hid, hread⟩ := h hids
  exact ⟨id, hid, by rw [databaseSettingId, hrow]; exact hread⟩

theorem repaired_ok_iff {ids : Db → List (Int × Origin)} {fallback : Option Int} {d : Db}
    (hkept : (settingKeepKeys parts keys host.db bak.db).contains key = (keys.contains key || !p))
    (horigin : ∀ x ∈ ids (source host bak p), x.2 = sourceOrigin p) (hresolved : Resolved host bak key ids)
    (hint : ∀ id, fallback = some id → IsInt id)
    (hmem : ∀ id, fallback = some id → id ∈ (ids (source host bak p)).map Prod.fst)
    (hnone : fallback = none → ids (source host bak p) = [])
    (hd : settingRow d key = settingRow (copied parts keys host bak) key)
    (hd' : settingRow d' key =
      settingRow (repairSettingId key (p && keptHere parts keys host.db bak.db key) ((ids (source host bak p)).map Prod.fst)
        fallback d) key) :
    SettingOk d' key (ids (source host bak p)) fallback ↔
      (p = true → ids (source host bak p) = [] → (parts.settings = false ∨ key ∈ keys) →
        ∀ id, databaseSettingId host.db key = some id → id < 0) := by
  constructor
  · rintro hok rfl hempty hsettings id hid
    obtain ⟨r, hr, rfl⟩ := Option.map_eq_some_iff.mp hid
    have hhere : (settingKeepKeys parts keys host.db bak.db).contains key = true ∨ parts.settings = false := by
      rcases hsettings with hsettings | hkey
      · exact .inr hsettings
      · exact .inl (by rw [hkept, contains_iff_mem.mpr hkey, Bool.true_or])
    have hcopied : settingRow (copied parts keys host bak) key = some r := by
      rw [copied_settingRow, ← hr]
      rcases hhere with hhere | hhere
      · rw [hhere, Bool.not_true, Bool.and_false]
        rfl
      · rw [hhere, Bool.false_and]
        rfl
    have hfallback : fallback = none := by
      cases hf : fallback with
      | none => rfl
      | some id =>
        have hin := hmem id hf
        rw [hempty] at hin
        cases hin
    have hrow : settingRow d' key = some r := by
      rw [hd', hfallback, ← hcopied, ← hd]
      rcases repairSettingId_cases key (true && keptHere parts keys host.db bak.db key)
        ((ids (source host bak true)).map Prod.fst) none d (fun _ h => by cases h) with ⟨h, -⟩ | ⟨h, -⟩ | ⟨id, h, -⟩
      · exact h
      · exact h
      · cases h
    rcases hok r hrow with hnames | ⟨-, hin⟩
    · rw [hempty] at hnames
      exact hnames.resolve_right not_mem_nil
    · rw [hempty] at hin
      cases hin
  · intro hhost
    refine SettingOk.of_row (repaired_ok hint hmem ?_ ?_) hd'
    · intro hfresh r hr hin
      exact names_of_fresh parts keys host bak horigin hkept hfresh hd r hr hin
    · intro hfallback r hr
      exact .inl (names_of_empty parts keys host bak (hnone hfallback) hresolved hkept
        (fun hp hsettings id hid => hhost hp (hnone hfallback) hsettings id hid) hd r hr)

theorem firstGroup_congr {d : Db} (horder : d'.groupsOrder.rows = d.groupsOrder.rows)
    (hgroups : d'.groups.rows.map GroupRow.id = d.groups.rows.map GroupRow.id) : firstGroup d' = firstGroup d := by
  rw [firstGroup, firstGroup, horder, hgroups]

theorem groupIds_fst (d : Db) : d.groupIds.map Prod.fst = d.groups.rows.map GroupRow.id := by
  rw [Db.groupIds, map_map]
  rfl

theorem routeIds_fst (d : Db) : d.routeIds.map Prod.fst = d.routeProfiles.rows.map RouteProfileRow.id := by
  rw [Db.routeIds, map_map]
  rfl

include h

theorem After.settingRow_eq (key : String) :
    settingRow d key = settingRow (repaired parts keys host bak) key := by
  rw [settingRow, settingRow, h.settings]

theorem After.groups_ids :
    d.groups.rows.map GroupRow.id = (source host bak parts.profiles).groupIds.map Prod.fst := by
  rw [← groupIds_fst, h.groupIds]

theorem After.routes_ids :
    d.routeProfiles.rows.map RouteProfileRow.id = (source host bak parts.routes).routeIds.map Prod.fst := by
  rw [← routeIds_fst, h.routeIds]

theorem After.groupRow :
    settingRow d "current_group" =
      settingRow (repairSettingId "current_group" (parts.profiles && keptHere parts keys host.db bak.db "current_group")
        ((source host bak parts.profiles).groupIds.map Prod.fst) (firstGroup d)
        (repairRememberId parts keys host.db bak.db (copied parts keys host bak))) "current_group" := by
  obtain ⟨t, ht⟩ := repairRememberId_only parts keys host bak (copied parts keys host bak)
  have hids : (copied parts keys host bak).groups.rows.map GroupRow.id =
      (source host bak parts.profiles).groupIds.map Prod.fst := by
    rw [← groupIds_fst, copied_groupIds]
  have hfirst : firstGroup d = firstGroup (copied parts keys host bak) :=
    firstGroup_congr
      (by rw [h.groupsOrder, copied_groupsOrder]; exact (rows_source host bak Db.groupsOrder _).symm)
      (by rw [h.groups_ids, hids])
  rw [h.settingRow_eq, repaired_eq, repairCurrentRoute, repairSettingId_other _ _ _ _ _ (by decide), repairCurrentGroup,
    groupsReplaced_eq, hfirst, ht, ← hids]
  rfl

theorem After.routeRow :
    settingRow d "current_route_id" =
      settingRow (repairSettingId "current_route_id" (parts.routes &&
        keptHere parts keys host.db bak.db "current_route_id")
        ((source host bak parts.routes).routeIds.map Prod.fst) (lowestRoute d)
        (repairCurrentGroup parts keys host.db bak.db
          (repairRememberId parts keys host.db bak.db (copied parts keys host bak)))) "current_route_id" := by
  obtain ⟨t, ht⟩ : SettingsOnly (copied parts keys host bak) (repairCurrentGroup parts keys host.db bak.db
      (repairRememberId parts keys host.db bak.db (copied parts keys host bak))) :=
    (repairRememberId_only parts keys host bak _).trans (repairSettingId_only _ _ _ _ _)
  have hids : (copied parts keys host bak).routeProfiles.rows.map RouteProfileRow.id =
      (source host bak parts.routes).routeIds.map Prod.fst := by
    rw [← routeIds_fst, copied_routeIds]
  have hlowest : lowestRoute d = lowestRoute (copied parts keys host bak) := by
    rw [lowestRoute, lowestRoute, h.routes_ids, hids]
  rw [h.settingRow_eq, repaired_eq, repairCurrentRoute, routesReplaced_eq, hlowest, ht, ← hids]
  rfl

theorem After.rememberId_ok : SettingOk d "remember_id" d.profileIds none := by
  rw [h.profileIds]
  exact (repaired_rememberId parts keys host bak).of_row (h.settingRow_eq _)

theorem After.firstGroup_int {id : Int} (hid : firstGroup d = some id) : IsInt id := by
  have hmem := firstGroup_mem hid
  rw [h.groups_ids, groupIds_fst] at hmem
  exact source_groupInts host bak parts.profiles id hmem

theorem After.lowestRoute_int {id : Int} (hid : lowestRoute d = some id) : IsInt id := by
  have hmem := lowestRoute_mem hid
  rw [h.routes_ids, routeIds_fst] at hmem
  exact source_routeInts host bak parts.routes id hmem

theorem After.currentGroup_iff :
    SettingOk d "current_group" d.groupIds (firstGroup d) ↔
      (parts.profiles = true → bak.db.groups.rows = [] → (parts.settings = false ∨ "current_group" ∈ keys) →
        ∀ id, databaseSettingId host.db "current_group" = some id → id < 0) := by
  rw [h.groupIds, repaired_ok_iff (kept_currentGroup parts keys host bak) (fun x hx => source_groupIds_origin hx)
    (resolved_currentGroup host bak) (fun id hid => h.firstGroup_int hid)
    (fun id hid => by rw [← h.groups_ids]; exact firstGroup_mem hid)
    (fun hnone => by
      have hids := firstGroup_eq_none hnone
      rw [h.groups_ids, map_eq_nil_iff] at hids
      exact hids)
    (repairRememberId_other parts keys host bak (by decide) _) h.groupRow]
  refine forall_congr' fun hp => ?_
  rw [hp, Db.groupIds, map_eq_nil_iff]
  rfl

theorem After.currentRoute_iff :
    SettingOk d "current_route_id" d.routeIds (lowestRoute d) ↔
      (parts.routes = true → bak.db.routeProfiles.rows = [] → (parts.settings = false ∨ "current_route_id" ∈ keys) →
        ∀ id, databaseSettingId host.db "current_route_id" = some id → id < 0) := by
  have hrow : settingRow (repairCurrentGroup parts keys host.db bak.db
      (repairRememberId parts keys host.db bak.db (copied parts keys host bak))) "current_route_id" =
      settingRow (copied parts keys host bak) "current_route_id" := by
    rw [repairCurrentGroup, repairSettingId_other _ _ _ _ _ (by decide),
      repairRememberId_other parts keys host bak (by decide)]
  rw [h.routeIds, repaired_ok_iff (kept_currentRoute parts keys host bak) (fun x hx => source_routeIds_origin hx)
    (resolved_currentRoute host bak) (fun id hid => h.lowestRoute_int hid)
    (fun id hid => by rw [← h.routes_ids]; exact lowestRoute_mem hid)
    (fun hnone => by
      have hids := lowestRoute_eq_none hnone
      rw [h.routes_ids, map_eq_nil_iff] at hids
      exact hids)
    hrow h.routeRow]
  refine forall_congr' fun hp => ?_
  rw [hp, Db.routeIds, map_eq_nil_iff]
  rfl

theorem After.currentGroup_names :
    NamesExisting d "current_group" (d.groups.rows.map GroupRow.id) := by
  rw [h.groups_ids]
  refine (repaired_names _ (fun id hid => h.firstGroup_int hid) (fun id hid => ?_) fun hnone => ?_).of_row h.groupRow
  · rw [← h.groups_ids]
    exact firstGroup_mem hid
  · rw [← h.groups_ids]
    exact firstGroup_eq_none hnone

theorem After.currentRoute_names :
    NamesExisting d "current_route_id" (d.routeProfiles.rows.map RouteProfileRow.id) := by
  rw [h.routes_ids]
  refine (repaired_names _ (fun id hid => h.lowestRoute_int hid) (fun id hid => ?_) fun hnone => ?_).of_row h.routeRow
  · rw [← h.routes_ids]
    exact lowestRoute_mem hid
  · rw [← h.routes_ids]
    exact lowestRoute_eq_none hnone

/-! ### Counters -/

theorem After.counters_iff :
    (∀ e ∈ d.entityIds.rows, Covered d e) ↔ CountersHeld parts host := by
  have hentity : (parts.profiles || parts.routes) = false ↔ parts.profiles = false ∧ parts.routes = false := by simp
  have hmoved (e : EntityIds) := (covered_iff d (moved parts bak d e)).trans
    (and_congr (forall_le_raised_iff (l := host.db.profiles.rows) fun hp => by rw [h.profiles, (hentity.mp hp).1]; rfl)
      (and_congr (forall_le_raised_iff (l := host.db.groups.rows) fun hp => by
          rw [h.groups, (hentity.mp hp).1, (hentity.mp hp).2]; rfl)
        (and_congr (forall_le_raised_iff (l := host.db.routeProfiles.rows) fun hp => by
            rw [h.routeProfiles, (hentity.mp hp).1, (hentity.mp hp).2]; rfl)
          (and_congr (forall_le_raised_iff (l := host.db.otpProfiles.rows) fun hp => by rw [h.otpProfiles, hp]; rfl)
            (and_congr (forall_le_raised_iff (l := host.db.ipLists.rows) fun hp => by rw [h.ipLists, hp]; rfl)
              (forall_le_raised_iff (l := host.db.ipScans.rows) fun hp => by rw [h.ipScans, hp]; rfl))))))
  rw [h.entityIds, forall_mem_map]
  constructor
  · intro hall
    refine ⟨fun hp hr e he => ?_, fun ho e he => ((hmoved e).mp (hall e he)).2.2.2.1 ho, fun hl e he => ?_⟩
    · obtain ⟨h1, h2, h3, -⟩ := (hmoved e).mp (hall e he)
      exact ⟨h1 (hentity.mpr ⟨hp, hr⟩), h2 (hentity.mpr ⟨hp, hr⟩), h3 (hentity.mpr ⟨hp, hr⟩)⟩
    · obtain ⟨-, -, -, -, h5, h6⟩ := (hmoved e).mp (hall e he)
      exact ⟨h5 hl, h6 hl⟩
  · intro hheld e he
    refine (hmoved e).mpr ⟨fun hp => ?_, fun hp => ?_, fun hp => ?_, fun ho => hheld.otp ho e he,
      fun hl => ?_, fun hl => ?_⟩
    · exact (hheld.entities (hentity.mp hp).1 (hentity.mp hp).2 e he).1
    · exact (hheld.entities (hentity.mp hp).1 (hentity.mp hp).2 e he).2.1
    · exact (hheld.entities (hentity.mp hp).1 (hentity.mp hp).2 e he).2.2
    · exact (hheld.ipLists hl e he).1
    · exact (hheld.ipLists hl e he).2

omit h

/-! ## The call -/

theorem sound_restored_iff (hany : parts.anyDb = true) :
    Sound (restored parts keys host bak) ↔ Restorable parts keys host bak := by
  have h := restored_after parts keys host bak
  have hnot : parts.anyDb = false → False := by simp [hany]
  constructor
  · intro hsound
    exact ⟨h.references_iff.mp hsound.references, h.currentGroup_iff.mp hsound.settings.currentGroup,
      h.currentRoute_iff.mp hsound.settings.currentRoute, fun hnone => (hnot hnone).elim,
        h.counters_iff.mp hsound.counters⟩
  intro hrestorable
  exact ⟨h.references_iff.mpr hrestorable.profileRefs,
    ⟨h.rememberId_ok, h.currentGroup_iff.mpr hrestorable.currentGroup, h.currentRoute_iff.mpr hrestorable.currentRoute⟩,
    h.currentGroup_names, h.currentRoute_names, h.counters_iff.mpr hrestorable.counters⟩

theorem sound_host_iff (hany : parts.anyDb = false) : Sound host.db ↔ Restorable parts keys host bak := by
  have hparts : parts.profiles = false ∧ parts.routes = false ∧ parts.settings = false ∧ parts.otp = false ∧
      parts.ipLists = false := by
    simpa [BackupParts.anyDb, and_assoc] using hany
  obtain ⟨hprofiles, hroutes, -, hotp, hlists⟩ := hparts
  have hfrom : ∀ {key} {r : SettingRow}, settingRow host.db key = some r → r.origin = .host :=
    fun hr => host.settingsFrom _ (mem_of_find?_eq_some hr)
  constructor
  · intro hsound
    refine ⟨.inl (hprofiles.trans hroutes.symm), fun hp => ?_, fun hp => ?_,
      fun _ => ⟨hsound.currentGroup, hsound.currentRoute⟩,
      fun _ _ e he => ?_, fun _ e he => ?_, fun _ e he => ?_⟩
    · rw [hprofiles] at hp
      cases hp
    · rw [hroutes] at hp
      cases hp
    · have hcovered := hsound.counters e he
      exact ⟨hcovered.profiles, hcovered.groups, hcovered.routeProfiles⟩
    · exact (hsound.counters e he).otpProfiles
    · have hcovered := hsound.counters e he
      exact ⟨hcovered.ipLists, hcovered.ipScans⟩
  · intro hrestorable
    refine ⟨host.references, ⟨fun r hr => .inl ?_, fun r hr => .inl ?_, fun r hr => .inl ?_⟩,
      (hrestorable.untouched hany).1, (hrestorable.untouched hany).2, fun e he => ?_⟩
    · rw [hfrom hr]
      exact host.rememberId r hr
    · rw [hfrom hr]
      exact host.currentGroup r hr
    · rw [hfrom hr]
      exact host.currentRoute r hr
    · obtain ⟨hp, hg, hr⟩ := hrestorable.counters.entities hprofiles hroutes e he
      obtain ⟨hl, hs⟩ := hrestorable.counters.ipLists hlists e he
      exact ⟨hp, hg, hr, hrestorable.counters.otp hotp e he, hl, hs⟩

variable (parts keys host bak) (throws : Nat → Bool)

/-- Some statement up to `COMMIT` throws. -/
def Aborts : Prop := parts.anyDb = true ∧ ∃ i ≤ 3 + (body parts keys host.db bak.db).length, throws i = true

/-- The rows are in order, or they are the host's where the call has thrown. -/
def Meets (result : Outcome × Db) : Prop :=
  match result.1 with
  | .threw => result.2 = host.db
  | .returned _ => Sound result.2

variable {throws}

/-- Up to `COMMIT` a throw leaves the host's rows. -/
theorem restoreSelective_of_aborts (h : Aborts parts keys host bak throws) :
    restoreSelective parts keys host.db bak.db throws = (.threw, host.db) := by
  obtain ⟨hany, i, hi, hthrows⟩ := h
  rw [restoreSelective, transaction, hany]
  dsimp only
  cases hbegun : (runStatements throws 0 [id, id, id] host.db).1 with
  | false => rfl
  | true =>
    cases hfilled : (runStatements throws 3 (body parts keys host.db bak.db) host.db).1 with
    | false => rfl
    | true =>
      rw [runStatements_done_iff] at hbegun hfilled
      have hlast : i = 3 + (body parts keys host.db bak.db).length := by
        by_contra hne
        by_cases hlt : i < 3
        · have hfalse := hbegun i hlt
          rw [Nat.zero_add, hthrows] at hfalse
          cases hfalse
        have hfalse := hfilled (i - 3) (by omega)
        rw [Nat.add_sub_cancel' (by omega), hthrows] at hfalse
        cases hfalse
      rw [← hlast, hthrows]
      rfl

/-- Otherwise the transaction is done; a throw after it is reported all the same. -/
theorem restoreSelective_of_commits (hany : parts.anyDb = true) (h : ¬ Aborts parts keys host bak throws) :
    restoreSelective parts keys host.db bak.db throws =
      (if throws (4 + (body parts keys host.db bak.db).length) ||
        throws (5 + (body parts keys host.db bak.db).length) then .threw
       else .returned (if parts.routes then skippedRules host.db.routeRules bak.db.routeRules else 0),
       restored parts keys host bak) := by
  have hquiet : ∀ i ≤ 3 + (body parts keys host.db bak.db).length, throws i = false := by
    intro i hi
    cases hthrows : throws i with
    | false => rfl
    | true => exact absurd ⟨hany, i, hi, hthrows⟩ h
  have hbegun : (runStatements throws 0 [id, id, id] host.db).1 = true := by
    rw [runStatements_done_iff]
    intro i hi
    exact hquiet _ (by simp only [length_cons, length_nil] at hi; omega)
  have hfilled : (runStatements throws 3 (body parts keys host.db bak.db) host.db).1 = true := by
    rw [runStatements_done_iff]
    intro i hi
    exact hquiet _ (by omega)
  rw [restoreSelective, transaction, hany]
  dsimp only
  rw [hbegun, hfilled, hquiet _ (.refl), runStatements_eq hfilled]
  show (if (throws (4 + _) || throws (5 + _)) = true then _ else _) = _
  split
  · rfl
  · rfl

/-- **A selective restore.**  Where no statement after `COMMIT` throws, a restore leaves the rows
in order if and only if it throws before, or the parts are restorable. -/
theorem restoreSelective_iff
    (hlate : ∀ i, 3 + (body parts keys host.db bak.db).length < i → throws i = false) :
    Meets host (restoreSelective parts keys host.db bak.db throws) ↔
      Aborts parts keys host bak throws ∨ Restorable parts keys host bak := by
  by_cases haborts : Aborts parts keys host bak throws
  · rw [restoreSelective_of_aborts parts keys host bak haborts]
    exact iff_of_true rfl (.inl haborts)
  rw [or_iff_right haborts]
  cases hany : parts.anyDb with
  | false =>
    rw [restoreSelective, transaction, hany]
    exact sound_host_iff hany
  | true =>
    rw [restoreSelective_of_commits parts keys host bak hany haborts, hlate _ (by omega), hlate _ (by omega)]
    exact sound_restored_iff hany

end

/-! ## Rules that lose their server -/

def emptyDb : Db where
  profiles := ⟨profileColumns, []⟩
  groupsOrder := ⟨groupOrderColumns, []⟩
  groups := ⟨groupColumns, []⟩
  routeRules := ⟨ruleColumns, []⟩
  routeProfiles := ⟨routeProfileColumns, []⟩
  settings := ⟨settingColumns, []⟩
  markers := ⟨markerColumns, []⟩
  otpProfiles := ⟨otpProfileColumns, []⟩
  ipListEntries := ⟨ipListEntryColumns, []⟩
  ipScans := ⟨ipScanColumns, []⟩
  ipLists := ⟨ipListColumns, []⟩
  entityIds := ⟨entityIdColumns, [⟨7, 1, 1, 0, 0, 0⟩]⟩

/-- One profile, one group, and a route with a rule that sends traffic to the profile. -/
def ruledDb (origin : Origin) : Db :=
  { emptyDb with
    profiles := ⟨profileColumns, [⟨7, origin⟩]⟩
    groups := ⟨groupColumns, [⟨1, -1, origin⟩]⟩
    routeRules := ⟨ruleColumns, [⟨1, 0, 7, [], origin⟩]⟩
    routeProfiles := ⟨routeProfileColumns, [⟨1, -1, [], [], -1, origin⟩]⟩ }

def ruled (origin : Origin) : Stored origin where
  db := ruledDb origin
  current := ⟨rfl, rfl, rfl, rfl, rfl, rfl, rfl, rfl, rfl, rfl, rfl, rfl, by simp [ruledDb]⟩
  groupInts := by simp [ruledDb, IsInt]
  routeInts := by simp [ruledDb, IsInt]
  profilesFrom := by simp [ruledDb]
  groupsFrom := by simp [ruledDb]
  rulesFrom := by simp [ruledDb]
  routesFrom := by simp [ruledDb]
  settingsFrom := by simp [ruledDb, emptyDb]
  references := by
    refine ⟨?_, ?_, ?_, ?_⟩
    · simp [ruledDb, Names]
    · simp [ruledDb, Names]
    · simp [ruledDb, Names, Db.profileIds]
    · simp [ruledDb, Names, RouteProfileRow.profileRefs]
  rememberId := by simp [ruledDb, emptyDb, settingRow]
  currentGroup := by simp [ruledDb, emptyDb, settingRow]
  currentRoute := by simp [ruledDb, emptyDb, settingRow]

/-- The host's rule names the host's profile 7; after the backup's profiles alone are restored
it names the backup's profile 7, another server. -/
theorem ruled_profiles_unsound :
    (restored { profiles := true } [] (ruled .host) (ruled .backup)).routeRules.rows = [⟨1, 0, 7, [], .host⟩] ∧
      (restored { profiles := true } [] (ruled .host) (ruled .backup)).profiles.rows = [⟨7, .backup⟩] ∧
      ¬ Meets (ruled .host)
        (restoreSelective { profiles := true } [] (ruled .host).db (ruled .backup).db (fun _ => false)) := by
  have hafter := restored_after { profiles := true } [] (ruled .host) (ruled .backup)
  refine ⟨hafter.routeRules, hafter.profiles, ?_⟩
  have haborts : ¬ Aborts { profiles := true } [] (ruled .host) (ruled .backup) (fun _ => false) := by
    rintro ⟨-, i, -, h⟩
    cases h
  rw [restoreSelective_of_commits { profiles := true } [] (ruled .host) (ruled .backup) rfl haborts]
  intro hsound
  rcases ((sound_restored_iff rfl).mp hsound).profileRefs with h | h
  · cases h
  · exact absurd (h 7 (by decide)) (by decide)

/-- Restored together, profiles and routes keep their rules. -/
theorem restoreSelective_iff_together :
    Meets (ruled .host)
        (restoreSelective { profiles := true, routes := true } [] (ruled .host).db (ruled .backup).db (fun _ => false)) ↔
      Aborts { profiles := true, routes := true } [] (ruled .host) (ruled .backup) (fun _ => false) ∨
        Restorable { profiles := true, routes := true } [] (ruled .host) (ruled .backup) :=
  restoreSelective_iff { profiles := true, routes := true } [] (ruled .host) (ruled .backup) (fun _ _ => rfl)

end Waterdisco.Restore
