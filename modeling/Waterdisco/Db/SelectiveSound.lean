import Waterdisco.Db.Selective

/-!
# What a backup of some parts brings back

Every statement is followed on one table at a time: the copies replace the tables of the
chosen parts (`run_copies`), the repairs write three settings, the resets one column of two
tables, and the counters are a table of their own.

    the parts of the source come back, the rest of the host stays    (RoundTrip)
    rules with a value in a column that the host lacks are left out  (RulesCopied)
-/

namespace Waterdisco.Selective

open Sql List Option CellTable
open Restore (BackupParts Outcome noProfileId toInt toText raised keepHostId)

variable {getText : Value → List Char} {parts : BackupParts} {keys : List String} {host bak : Db}

def partTables (parts : BackupParts) : List String :=
  (if parts.profiles then kProfileTables else []) ++ (if parts.routes then kRouteTables else []) ++
    (if parts.settings then kSettingsTables else []) ++ (if parts.otp then kOtpTables else []) ++
    (if parts.ipLists then kIpListTables else [])

def currentIds : List String := ["remember_id", "current_group", "current_route_id"]

/-- Tables of one schema: the same ones, with the same columns. -/
structure SameSchema (host source : Db) : Prop where
  tables : ∀ table, tableExists host table = tableExists source table
  columns : ∀ table h s, host table = some h → source table = some s → ∀ c, c ∈ h.columns ↔ c ∈ s.columns

/-! ## One table at a time -/

theorem on_self (table : String) (f : CellTable → CellTable) (d : Db) :
    on table f d table = (d table).map f := Function.update_self _ _ _

variable {table key : String} {ts : List String} {main b : CellTable} {v : Value} {throws : Nat → Bool} {n : Nat} (d : Db)

theorem on_of_ne {other : String} (h : other ≠ table) (f : CellTable → CellTable) (d : Db) :
    on table f d other = d other :=
  Function.update_of_ne h _ _

def afterCopy (keys : List String) (host bak : Db) (parts : BackupParts) (table : String)
    (main : Option CellTable) : Option CellTable :=
  match bak table with
  | some b => main.map (fun t => copyTable table (if table = "settings" then settingKeepKeys parts keys host bak else []) t b)
  | none => main

/-- The statements of a run change the tables of `tables` to what is copied, and no others. -/
def Copies (keys : List String) (host bak : Db) (parts : BackupParts) (statements : List (Db → Db))
    (tables : List String) : Prop :=
  ∀ (d : Db) table, (table ≠ "markers" ∨ tableExists bak "markers" = true ∨ d table = none) →
    run statements d table = if table ∈ tables then afterCopy keys host bak parts table (d table) else d table

theorem afterCopy_none (table : String) : afterCopy keys host bak parts table none = none := by
  unfold afterCopy
  cases bak table <;> rfl

theorem Copies.append {l m : List (Db → Db)} {us : List String} (hl : Copies keys host bak parts l ts)
    (hm : Copies keys host bak parts m us) (hdisjoint : ∀ t ∈ ts, t ∉ us) :
    Copies keys host bak parts (l ++ m) (ts ++ us) := by
  intro d table hmarkers
  have hmarkers' : table ≠ "markers" ∨ tableExists bak "markers" = true ∨ run l d table = none := by
    refine hmarkers.imp id (fun h => h.imp id (fun hnone => ?_))
    rw [hl d table hmarkers, hnone, afterCopy_none, ite_self]
  rw [run_append, hm _ table hmarkers', hl d table hmarkers]
  by_cases hts : table ∈ ts
  · rw [if_neg (hdisjoint table hts), if_pos hts, if_pos (mem_append_left _ hts)]
  by_cases hus : table ∈ us
  · rw [if_pos hus, if_neg hts, if_pos (mem_append_right _ hus)]
  · rw [if_neg hus, if_neg hts, if_neg (fun h => (mem_append.mp h).elim hts hus)]

theorem Copies.nil : Copies keys host bak parts [] [] := fun _ _ _ => (if_neg not_mem_nil).symm

theorem copied_self (table : String) (keep : List String) (d : Db) :
    copied bak table keep d table = match bak table with
      | some b => (d table).map (fun t => copyTable table keep t b)
      | none => d table := by
  rw [copied]
  cases bak table with
  | some b => exact on_self _ _ _
  | none => rfl

theorem copied_of_ne {other : String} (h : other ≠ table) (keep : List String) (d : Db) :
    copied bak table keep d other = d other := by
  rw [copied]
  cases bak table with
  | some b => exact on_of_ne h _ _
  | none => rfl

open Copies

theorem Copies.tables {tables : List String} (h : tables.Nodup) :
    Copies keys host bak parts (copyTables parts keys host bak tables) tables := by
  induction tables with
  | nil => exact nil
  | cons t rest ih =>
    obtain ⟨ht, hrest⟩ := nodup_cons.mp h
    intro d table hmarkers
    have hrun : run (copyTables parts keys host bak (t :: rest)) d table =
        run (copyTables parts keys host bak rest) (copied bak t (if t = "settings" then settingKeepKeys parts keys host bak else []) d)
          table := rfl
    have hmarkers' : table ≠ "markers" ∨ tableExists bak "markers" = true ∨
        copied bak t (if t = "settings" then settingKeepKeys parts keys host bak else []) d table = none := by
      refine hmarkers.imp id (fun h => h.imp id (fun hnone => ?_))
      by_cases heq : table = t
      · rw [← heq, copied_self, hnone]
        cases bak table <;> rfl
      · rw [copied_of_ne heq, hnone]
    rw [hrun, ih hrest _ table hmarkers']
    by_cases heq : table = t
    · subst heq
      rw [if_neg ht, if_pos mem_cons_self, copied_self]
      rfl
    rw [copied_of_ne heq]
    by_cases hmem : table ∈ rest
    · rw [if_pos hmem, if_pos (.tail _ hmem)]
    · rw [if_neg hmem, if_neg (fun h => (mem_cons.mp h).elim heq hmem)]

theorem Copies.clearMarkers : Copies keys host bak parts (Selective.clearMarkers bak) [] := by
  intro d table hmarkers
  rw [if_neg not_mem_nil, Selective.clearMarkers]
  split
  · rfl
  next hno =>
  obtain hne | hyes | hnone := hmarkers
  · exact on_of_ne hne _ _
  · exact absurd hyes hno
  show on "markers" clear d table = d table
  by_cases heq : table = "markers"
  · rw [heq] at hnone
    rw [heq, on_self, hnone]
    rfl
  · exact on_of_ne heq _ _

theorem Copies.ite {c : Bool} {l : List (Db → Db)} (h : Copies keys host bak parts l ts) :
    Copies keys host bak parts (if c then l else []) (if c then ts else []) := by
  cases c with
  | true => exact h
  | false => exact nil

theorem parts_disjoint :
    ∀ p r s o i : Bool, (∀ t ∈ (if p then kProfileTables else []), t ∉ if r then kRouteTables else []) ∧
      (∀ t ∈ (if p then kProfileTables else []) ++ (if r then kRouteTables else []),
        t ∉ if s then kSettingsTables else []) ∧
      (∀ t ∈ (if p then kProfileTables else []) ++ (if r then kRouteTables else []) ++
        (if s then kSettingsTables else []),
        t ∉ if o then kOtpTables else []) ∧
      (∀ t ∈ (if p then kProfileTables else []) ++ (if r then kRouteTables else []) ++
        (if s then kSettingsTables else []) ++
        (if o then kOtpTables else []), t ∉ if i then kIpListTables else []) := by
  decide

theorem run_copies : Copies keys host bak parts (copies parts keys host bak) (partTables parts) := by
  have hsettings : Copies keys host bak parts (copyTables parts keys host bak kSettingsTables ++
    clearMarkers bak) kSettingsTables := by
    have hcopied : Copies keys host bak parts (copyTables parts keys host bak kSettingsTables) kSettingsTables :=
      tables (by decide)
    have h := hcopied.append Copies.clearMarkers (fun _ _ => not_mem_nil)
    rwa [append_nil] at h
  obtain ⟨hroutes, hsettings', hotp, hlists⟩ :=
    parts_disjoint parts.profiles parts.routes parts.settings parts.otp parts.ipLists
  have hprofiles : Copies keys host bak parts (copyTables parts keys host bak kProfileTables) kProfileTables := tables (by decide)
  exact ((((hprofiles.ite.append (tables (by decide)).ite hroutes).append hsettings.ite hsettings').append
    (tables (by decide)).ite hotp).append (tables (by decide)).ite hlists)

/-! ## The snapshot -/

/-- The tables of the other parts. -/
def leftOut (parts : BackupParts) : List String :=
  (if parts.profiles then [] else kProfileTables) ++ (if parts.routes then [] else kRouteTables) ++
    (if parts.settings then [] else kSettingsTables) ++ (if parts.otp then [] else kOtpTables) ++
    (if parts.ipLists then [] else kIpListTables)

theorem not_leftOut : ∀ p r s o i : Bool, ∀ t ∈ partTables { profiles := p, routes := r, settings := s, otp := o, ipLists := i },
    t ∉ leftOut { profiles := p, routes := r, settings := s, otp := o, ipLists := i } := by
  decide

def Wipes (f : Db → Db) (tables : List String) : Prop := ∀ d table,
    f d table = if table ∈ tables then (d table).map clear else d table

theorem clear_clear (x : Option CellTable) : (x.map clear).map clear = x.map clear := by
  cases x with
  | none => rfl
  | some t =>
    show some (clear (clear t)) = some (clear t)
    unfold clear delete
    simp

theorem Wipes.comp {f g : Db → Db} {us : List String} (hf : Wipes f ts) (hg : Wipes g us) :
    Wipes (fun d => g (f d)) (ts ++ us) := by
  intro d table
  show g (f d) table = _
  rw [hg, hf]
  by_cases hts : table ∈ ts
  · rw [if_pos hts, if_pos (mem_append_left _ hts)]
    split
    · exact clear_clear _
    · rfl
  · by_cases hus : table ∈ us
    · rw [if_pos hus, if_neg hts, if_pos (mem_append_right _ hus)]
    · rw [if_neg hus, if_neg hts, if_neg (fun h => (mem_append.mp h).elim hts hus)]

theorem Wipes.wipe (tables : List String) : Wipes (Selective.wipe tables) tables := by
  induction tables with
  | nil => exact fun _ _ => (if_neg not_mem_nil).symm
  | cons t rest ih =>
    have hone : Wipes (on t clear) [t] := by
      intro d table
      by_cases heq : table = t
      · rw [heq, on_self, if_pos (mem_singleton.mpr rfl)]
      · rw [on_of_ne heq, if_neg (fun h => heq (mem_singleton.mp h))]
    exact hone.comp ih

theorem Wipes.unless {f : Db → Db} (c : Bool) (h : Wipes f ts) :
    Wipes (fun d => if c then d else f d) (if c then [] else ts) := by
  cases c with
  | true => exact fun _ _ => (if_neg not_mem_nil).symm
  | false => exact h

theorem keepParts_wipes (parts : BackupParts) : Wipes (keepParts parts) (leftOut parts) :=
  (((((Wipes.wipe kProfileTables).unless parts.profiles).comp ((Wipes.wipe kRouteTables).unless parts.routes)).comp
    ((Wipes.wipe kSettingsTables).unless parts.settings)).comp ((Wipes.wipe kOtpTables).unless parts.otp)).comp
    ((Wipes.wipe kIpListTables).unless parts.ipLists)

theorem settings_mem (h : parts.settings = true) : "settings" ∈ partTables parts := by
  simp [partTables, h, kSettingsTables]

theorem delete_none (t : CellTable) : t.delete (keyIn []) = t := by
  have hrows : t.rows.filter (fun r => !keyIn [] r) = t.rows := filter_eq_self.mpr (fun _ _ => rfl)
  unfold delete
  congr 1

theorem backupSelective_eq (parts : BackupParts) (excluded : List String) (source : Db) (table : String) :
    backupSelective parts excluded source table =
      if table ∈ leftOut parts then (source table).map clear
      else if parts.settings = true ∧ table = "settings" then (source table).map (fun t => t.delete (keyIn excluded))
      else source table := by
  have hdest := keepParts_wipes parts source table
  have hsettings : parts.settings = true → "settings" ∉ leftOut parts := fun h =>
    not_leftOut parts.profiles parts.routes parts.settings parts.otp parts.ipLists "settings" (settings_mem h)
  unfold backupSelective
  by_cases hstrip : parts.settings = true ∧ table = "settings"
  · have hpart := hstrip.1
    have hout := hsettings hpart
    rw [hstrip.2] at hdest ⊢
    rw [if_neg hout]
    refine Eq.trans ?_ (if_pos ⟨hpart, rfl⟩).symm
    have hdest := hdest.trans (if_neg hout)
    cases hempty : excluded.isEmpty with
    | true =>
      have hcond : ¬ (parts.settings && !true) = true := by simp
      rw [if_neg hcond, hdest, List.isEmpty_iff.mp hempty]
      simp only [delete_none, Option.map_id_fun', id]
    | false =>
      have hcond : (parts.settings && !false) = true := by simp [hpart]
      rw [if_pos hcond, on_self, hdest]
  · rw [if_neg hstrip]
    refine Eq.trans ?_ hdest
    split
    · next hcond =>
      refine on_of_ne (fun heq => hstrip ⟨?_, heq⟩) _ _
      exact (Bool.and_eq_true_iff.mp hcond).1
    · rfl

theorem backupSelective_columns (parts : BackupParts) (excluded : List String) (source : Db) (table : String) :
    (backupSelective parts excluded source table).map columns = (source table).map columns := by
  rw [backupSelective_eq]
  split
  · rw [Option.map_map]
    rfl
  split
  · rw [Option.map_map]
    rfl
  · rfl

theorem backupSelective_leftOut (parts : BackupParts) (excluded : List String) (source : Db)
    (h : table ∈ leftOut parts) :
    rowsOf (backupSelective parts excluded source) table = [] := by
  rw [rowsOf, backupSelective_eq, if_pos h]
  cases source table with
  | none => rfl
  | some t =>
    show t.rows.filter _ = []
    simp

theorem SameSchema.snapshot {source : Db} (h : SameSchema host source) (parts : BackupParts) (excluded : List String) :
    SameSchema host (backupSelective parts excluded source) := by
  have hcolumns := backupSelective_columns parts excluded source
  refine ⟨fun table => ?_, fun table t s ht hs c => ?_⟩
  · rw [h.tables table]
    have := congrArg isSome (hcolumns table)
    simpa [tableExists] using this.symm
  have hmap := hcolumns table
  rw [hs] at hmap
  obtain ⟨s', hs', heq⟩ := map_eq_some_iff.mp hmap.symm
  rw [h.columns table t s' ht hs' c, heq]

/-! ## Tables of one schema -/

variable (hsame : ∀ c, c ∈ main.columns ↔ c ∈ b.columns)

include hsame in
theorem keepRow_same (r : Row) :
    keepRow table main b r = true := by
  have hnone : b.columns.filter (fun c => decide (c ∉ main.columns)) = [] :=
    filter_eq_nil_iff.mpr (fun c hc hno => of_decide_eq_true hno ((hsame c).mpr hc))
  unfold keepRow
  rw [hnone]
  split <;> rfl

include hsame in
/-- A table that is copied has the rows that stay and those that come. -/
theorem rows_copyTable (keep : List String) :
    (copyTable table keep main b).rows = main.rows.filter (fun r => !replacedKey keep r) ++
      b.rows.filter (replacedKey keep) := by
  have hkeep : ∀ r, keepRow table main b r = true := keepRow_same hsame
  have hcommon : (common main b).isEmpty = false := by
    obtain ⟨c, hc⟩ := exists_mem_of_ne_nil _ main.named
    have hmem : c ∈ common main b := mem_filter.mpr ⟨hc, decide_eq_true ((hsame c).mp hc)⟩
    cases hl : common main b with
    | nil =>
      rw [hl] at hmem
      cases hmem
    | cons => rfl
  have hskipped : skippedRows table main b = 0 := by
    unfold skippedRows
    rw [filter_eq_nil_iff.mpr (fun r _ => by rw [hkeep r]; exact Bool.false_ne_true)]
    rfl
  unfold copyTable
  rw [hcommon, hskipped]
  simp only [Bool.false_eq_true, if_false, Nat.lt_irrefl, hkeep, Bool.true_and]
  show main.rows.filter _ ++ (b.rows.filter _).map _ = _
  congr 1
  refine (map_congr_left (fun r hr => ?_)).trans (map_id _)
  refine fill_eq _ (fun c hc => decide_eq_true ((hsame c).mp hc)) (fun c hc => ?_)
  exact b.clean r (mem_of_mem_filter hr) c (fun h => hc ((hsame c).mpr h))

/-! ## Settings -/

def keyed (v : Value) (rows : List Row) : List Row := rows.filter (fun r => decide (r "key" = v))

def inKeys (keys : List String) (v : Value) : Bool := keys.any (fun key => v == .text key)

theorem keyed_append (v : Value) (l m : List Row) : keyed v (l ++ m) = keyed v l ++ keyed v m := filter_append ..

theorem keyed_filter {p : Row → Bool} {b : Bool} (h : ∀ r : Row, r "key" = v → p r = b) (rows : List Row) :
    keyed v (rows.filter p) = if b then keyed v rows else [] := by
  unfold keyed
  rw [List.filter_filter]
  cases b with
  | true =>
    refine List.filter_congr (fun r _ => ?_)
    by_cases hr : r "key" = v
    · simp [hr, h r hr]
    · simp [hr]
  | false =>
    refine List.filter_eq_nil_iff.mpr (fun r _ hr => ?_)
    obtain ⟨hkey, hp⟩ := Bool.and_eq_true_iff.mp hr
    rw [h r (of_decide_eq_true hkey)] at hp
    cases hp

theorem replacedKey_eq (hv : v ≠ .null) (keep : List String) {r : Row} (hr : r "key" = v) :
    replacedKey keep r = !inKeys keep v := by
  unfold replacedKey keyIn inKeys
  rw [hr]
  cases keep with
  | nil => rfl
  | cons k rest => simp [hv]

theorem keyed_copyTable (hv : v ≠ .null) (hsame : ∀ c, c ∈ main.columns ↔ c ∈ b.columns)
    (table : String) (keep : List String) :
    keyed v (copyTable table keep main b).rows = if inKeys keep v then keyed v main.rows else keyed v b.rows := by
  have hstay : ∀ r : Row, r "key" = v → (!replacedKey keep r) = inKeys keep v := by
    intro r hr
    rw [replacedKey_eq hv keep hr, Bool.not_not]
  rw [rows_copyTable hsame, keyed_append, keyed_filter hstay, keyed_filter (fun r hr => replacedKey_eq hv keep hr)]
  cases inKeys keep v with
  | true => exact append_nil _
  | false => rfl

theorem mem_keepHostId {replaced : Bool} {k : String} {keys : List String} (h : k ∈ keepHostId replaced key keys) :
    k ∈ keys ∨ k = key := by
  unfold keepHostId at h
  split at h
  · exact (mem_append.mp h).imp id mem_singleton.mp
  · exact .inl h

theorem subset_keepHostId (replaced : Bool) (key : String) {keys : List String} {k : String} (h : k ∈ keys) :
    k ∈ keepHostId replaced key keys := by
  unfold keepHostId
  split
  · exact mem_append_left _ h
  · exact h

theorem inKeys_settingKeepKeys (hv : ∀ key ∈ currentIds, v ≠ .text key) :
    inKeys (settingKeepKeys parts keys host bak) v = inKeys keys v := by
  rw [Bool.eq_iff_iff, inKeys, inKeys, List.any_eq_true, List.any_eq_true]
  constructor
  · rintro ⟨k, hk, heq⟩
    have hv' : v = .text k := beq_iff_eq.mp heq
    refine ⟨k, ?_, heq⟩
    obtain h | rfl := mem_keepHostId hk
    · obtain h | rfl := mem_keepHostId h
      · obtain h | rfl := mem_keepHostId h
        · exact h
        · exact absurd hv' (hv _ (by decide))
      · exact absurd hv' (hv _ (by decide))
    · exact absurd hv' (hv _ (by decide))
  · rintro ⟨k, hk, heq⟩
    exact ⟨k, subset_keepHostId _ _ (subset_keepHostId _ _ (subset_keepHostId _ _ hk)), heq⟩

/-- Only the settings differ, and of them only the ids. -/
structure IdsOnly (d d' : Db) : Prop where
  other : ∀ table, table ≠ "settings" → d' table = d table
  keys : ∀ v, v ≠ .null → (∀ key ∈ currentIds, v ≠ .text key) →
    keyed v (rowsOf d' "settings") = keyed v (rowsOf d "settings")

theorem IdsOnly.refl : IdsOnly d d := ⟨fun _ _ => rfl, fun _ _ _ => rfl⟩

theorem IdsOnly.trans {d d' d'' : Db} (h : IdsOnly d d') (h' : IdsOnly d' d'') : IdsOnly d d'' :=
  ⟨fun t ht => (h'.other t ht).trans (h.other t ht), fun v hv hids => (h'.keys v hv hids).trans (h.keys v hv hids)⟩

theorem rowsOf_on (table : String) (f : CellTable → CellTable) (d : Db) :
    rowsOf (on table f d) table = ((d table).map (fun t => (f t).rows)).getD [] := by
  rw [rowsOf, on_self, Option.map_map]
  rfl

theorem IdsOnly.set (hkey : key ∈ currentIds) (id : Int) (d : Db) : IdsOnly d (databaseSetSettingId key id d) := by
  refine ⟨fun table htable => on_of_ne htable _ _, fun v hv hids => ?_⟩
  have hne : v ≠ .text key := hids key hkey
  rw [databaseSetSettingId, rowsOf_on, rowsOf]
  cases d "settings" with
  | none => rfl
  | some t =>
    show keyed v (t.rows.filter _ ++ [t.fill (fun c => c == "key" ||
      c == "value") (settingCells key id)]) = keyed v t.rows
    have hnew : keyed v [t.fill (fun c => c == "key" || c == "value") (settingCells key id)] = [] := by
      refine filter_eq_nil_iff.mpr (fun r hr heq => ?_)
      obtain rfl := mem_singleton.mp hr
      have heq := of_decide_eq_true heq
      have hcell : t.fill (fun c => c == "key" || c == "value") (settingCells key id) "key" =
          if "key" ∈ t.columns then .text key else .null := rfl
      rw [hcell] at heq
      split at heq
      · exact hne heq.symm
      · exact hv heq.symm
    have hold : ∀ r : Row, r "key" = v → (!(r "key" == .text key)) = true := by
      intro r hr
      rw [hr]
      simpa using hne
    rw [keyed_append, keyed_filter hold, hnew, append_nil]
    rfl

open IdsOnly (refl set)

theorem IdsOnly.repairSettingId (hkey : key ∈ currentIds) (stale : Bool) (ids : List Int)
    (fallback : Option Int) (d : Db) :
    IdsOnly d (repairSettingId getText key stale ids fallback d) := by
  unfold Selective.repairSettingId Restore.repairId
  split
  · split
    · split
      · exact refl d
      · exact set hkey _ d
    · exact refl d
  · exact refl d

theorem IdsOnly.repairRememberId : IdsOnly d (repairRememberId getText parts keys host bak d) := by
  unfold Selective.repairRememberId
  split
  · split
    · exact set (by decide) _ d
    · exact refl d
  · exact refl d

theorem IdsOnly.repairs (getText : Value → List Char) (parts : BackupParts) (keys : List String)
    (host bak d : Db) : IdsOnly d (run (repairs getText parts keys host bak) d) := by
  unfold Selective.repairs
  split
  · rw [run_cons, run_cons, run_cons, run_nil]
    exact ((IdsOnly.repairRememberId d).trans (IdsOnly.repairSettingId (by decide) _ _ _ _)).trans
      (IdsOnly.repairSettingId (by decide) _ _ _ _)
  · exact refl d

/-! ## Ids across the parts, and the counters -/

/-- The tables whose references are reset, each with the column. -/
def crossReferences : List (String × String) := [("groups", "route_id"), ("route_profiles", "source_gid")]

structure ReferencesOnly (d d' : Db) : Prop where
  other : ∀ table, table ∉ crossReferences.map Prod.fst → d' table = d table
  erased : ∀ x ∈ crossReferences, (rowsOf d' x.1).map (erase x.2) = (rowsOf d x.1).map (erase x.2)

theorem ReferencesOnly.resets (parts : BackupParts) (host bak d : Db) :
    ReferencesOnly d (run (resets parts host bak) d) := by
  unfold Selective.resets
  split
  · rw [run_cons, run_cons, run_nil]
    refine ⟨fun table htable => ?_, fun x hx => ?_⟩
    · have hgroups : table ≠ "groups" := fun h => htable (by rw [h]; decide)
      have hroutes : table ≠ "route_profiles" := fun h => htable (by rw [h]; decide)
      rw [on_of_ne hroutes, on_of_ne hgroups]
    have herase : ∀ (table column : String) (e : Db),
        (rowsOf (on table (fun t => t.set column (fun _ => .integer (-1))) e) table).map (erase column) =
          (rowsOf e table).map (erase column) := by
      intro table column e
      rw [rowsOf_on, rowsOf]
      cases e table with
      | none => rfl
      | some t => exact erase_set t column _
    obtain rfl | rfl : x = ("groups", "route_id") ∨ x = ("route_profiles", "source_gid") :=
      by simpa [crossReferences] using hx
    · have hother : ∀ (f : CellTable → CellTable) (e : Db),
        rowsOf (on "route_profiles" f e) "groups" = rowsOf e "groups" := by
        intro f e
        rw [rowsOf, on_of_ne (by decide), rowsOf]
      rw [hother, herase]
    · have hother : ∀ (f : CellTable → CellTable) (e : Db),
        rowsOf (on "groups" f e) "route_profiles" = rowsOf e "route_profiles" := by
        intro f e
        rw [rowsOf, on_of_ne (by decide), rowsOf]
      rw [herase, hother]
  · exact ⟨fun _ _ => rfl, fun _ _ => rfl⟩

theorem raise_other (bakHas : Bool) (column idTable : String) (d : Db) (h : table ≠ "entity_ids") :
    raise bak bakHas column idTable d table = d table := on_of_ne h _ _

theorem counters_other (h : table ≠ "entity_ids") : run (counters parts bak) d table = d table := by
  have hall : ∀ statement ∈ counters parts bak, ∀ e : Db, statement e table = e table := by
    intro statement hmem e
    obtain hmem | hmem := mem_append.mp hmem
    · obtain hmem | hmem := mem_append.mp hmem
      · split at hmem
        · obtain rfl := mem_singleton.mp hmem
          exact (raise_other _ _ _ _ h).trans ((raise_other _ _ _ _ h).trans (raise_other _ _ _ _ h))
        · cases hmem
      · split at hmem
        · obtain rfl := mem_singleton.mp hmem
          exact raise_other _ _ _ _ h
        · cases hmem
    · split at hmem
      · obtain rfl | hmem := mem_cons.mp hmem
        · exact raise_other _ _ _ _ h
        · obtain rfl := mem_singleton.mp hmem
          exact raise_other _ _ _ _ h
      · cases hmem
  generalize counters parts bak = statements at hall
  induction statements generalizing d with
  | nil => rfl
  | cons statement rest ih =>
    rw [run_cons, ih (statement d) (fun f hf => hall f (.tail _ hf))]
    exact hall statement (.head _) d

/-! ## The round trip -/

structure RoundTrip (parts : BackupParts) (excluded preserved : List String) (source host d : Db) : Prop where
  tables : ∀ table ∉ ["groups", "route_profiles", "settings", "entity_ids"],
    rowsOf d table = rowsOf (if table ∈ partTables parts then source else host) table
  references : ∀ x ∈ crossReferences,
    (rowsOf d x.1).map (erase x.2) = (rowsOf (if x.1 ∈ partTables parts then source else host) x.1).map (erase x.2)
  /-- every key but those of the ids -/
  settings : ∀ v, v ≠ .null → (∀ key ∈ currentIds, v ≠ .text key) →
    keyed v (rowsOf d "settings") =
      if !parts.settings || inKeys preserved v then keyed v (rowsOf host "settings")
      else if inKeys excluded v then [] else keyed v (rowsOf source "settings")

theorem rowsOf_afterCopy (hsame : SameSchema host bak) (hne : table ≠ "settings") :
    ((afterCopy keys host bak parts table (host table)).map rows).getD [] = rowsOf bak table := by
  have htables := hsame.tables table
  unfold tableExists at htables
  unfold afterCopy rowsOf
  rw [if_neg hne]
  cases hbak : bak table with
  | none =>
    rw [hbak] at htables
    rw [isSome_eq_false_iff.mp htables |> isNone_iff_eq_none.mp]
  | some b =>
    rw [hbak] at htables
    obtain ⟨main, hmain⟩ := isSome_iff_exists.mp htables
    rw [hmain]
    show (copyTable table [] main b).rows = b.rows
    rw [rows_copyTable (hsame.columns table main b hmain hbak)]
    have hstay : main.rows.filter (fun r => !replacedKey [] r) = [] :=
      filter_eq_nil_iff.mpr (fun _ _ h => Bool.false_ne_true h)
    rw [hstay, nil_append]
    exact filter_eq_self.mpr (fun _ _ => rfl)

theorem restoreSelective_returned (hany : parts.anyDb = true)
    (h : (restoreSelective getText parts keys host bak throws).1 = .returned n) :
    (restoreSelective getText parts keys host bak throws).2 = run (body getText parts keys host bak) host ∧
      n = if parts.routes then (kRouteTables.map (fun t => copySkipped t host bak)).sum else 0 := by
  unfold restoreSelective Restore.transaction at h ⊢
  rw [hany] at h ⊢
  simp only [Bool.not_true, Bool.false_eq_true, if_false] at h ⊢
  split at h
  · cases h
  next hbegun =>
  split at h
  · cases h
  next hdone =>
  split at h
  · cases h
  next hafter =>
  rw [if_neg hbegun, if_neg hdone, if_neg hafter]
  have hfilled : (runStatements throws 3 (body getText parts keys host bak) host).1 = true := by
    cases hrun : (runStatements throws 3 (body getText parts keys host bak) host).1 with
    | true => rfl
    | false => simp [hrun] at hdone
  exact ⟨runStatements_eq hfilled, (Outcome.returned.inj h).symm⟩

theorem partTables_none (h : parts.anyDb = false) : partTables parts = [] ∧ parts.settings = false := by
  obtain ⟨p, r, s, o, i⟩ := parts
  simp only [BackupParts.anyDb, Bool.or_eq_false_iff] at h
  obtain ⟨⟨⟨⟨rfl, rfl⟩, rfl⟩, rfl⟩, rfl⟩ := h
  exact ⟨rfl, rfl⟩

theorem mem_partTables_settings : "settings" ∈ partTables parts ↔ parts.settings = true := by
  constructor
  · intro h
    by_contra hno
    obtain ⟨p, r, s, o, i⟩ := parts
    obtain rfl : s = false := by simpa using hno
    revert p r o i
    decide
  · exact settings_mem

theorem rowsOf_congr {d d' : Db} (h : d table = d' table) : rowsOf d table = rowsOf d' table := by
  rw [rowsOf, rowsOf, h]

theorem rows_copies (hsame : SameSchema host bak) (hne : table ≠ "settings") :
    rowsOf (run (copies parts keys host bak) host) table =
      rowsOf (if table ∈ partTables parts then bak else host) table := by
  have hmarkers : table ≠ "markers" ∨ tableExists bak "markers" = true ∨ host table = none := by
    by_cases heq : table = "markers"
    · subst heq
      cases hbak : tableExists bak "markers" with
      | true => exact .inr (.inl rfl)
      | false =>
        have hnone := (hsame.tables "markers").trans hbak
        exact .inr (.inr (isNone_iff_eq_none.mp (isSome_eq_false_iff.mp hnone)))
    · exact .inl heq
  rw [rowsOf, run_copies host table hmarkers]
  split
  · exact rowsOf_afterCopy hsame hne
  · rfl

theorem keyed_copies (hsame : SameSchema host bak) (hv : v ≠ .null) (hids : ∀ key ∈ currentIds, v ≠ .text key) :
    keyed v (rowsOf (run (copies parts keys host bak) host) "settings") =
      if !parts.settings || inKeys keys v then keyed v (rowsOf host "settings") else keyed v (rowsOf bak "settings") := by
  have hrun : rowsOf (run (copies parts keys host bak) host) "settings" =
      ((if "settings" ∈ partTables parts then afterCopy keys host bak parts "settings" (host "settings") else host "settings").map
        rows).getD [] := by
    rw [rowsOf, run_copies host "settings" (.inl (by decide))]
  rw [hrun]
  cases hpart : parts.settings with
  | false =>
    have hno : "settings" ∉ partTables parts := fun h => by
      rw [mem_partTables_settings.mp h] at hpart
      cases hpart
    rw [if_neg hno]
    rfl
  | true =>
    rw [if_pos (settings_mem hpart)]
    have htables := hsame.tables "settings"
    unfold tableExists at htables
    unfold afterCopy rowsOf
    cases hbak : bak "settings" with
    | none =>
      rw [hbak] at htables
      rw [isNone_iff_eq_none.mp (isSome_eq_false_iff.mp htables)]
      exact (ite_self _).symm
    | some b =>
      rw [hbak] at htables
      obtain ⟨main, hmain⟩ := isSome_iff_exists.mp htables
      rw [hmain]
      show keyed v (copyTable "settings" (settingKeepKeys parts keys host bak) main b).rows =
        if (false || inKeys keys v) = true then keyed v main.rows else keyed v b.rows
      rw [keyed_copyTable hv (hsame.columns "settings" main b hmain hbak), inKeys_settingKeepKeys hids, Bool.false_or]

theorem run_body (getText : Value → List Char) (parts : BackupParts) (keys : List String) (host bak d : Db) :
    (∀ table ∉ ["groups", "route_profiles", "settings", "entity_ids"],
      run (body getText parts keys host bak) d table = run (copies parts keys host bak) d table) ∧
    (∀ x ∈ crossReferences, (rowsOf (run (body getText parts keys host bak) d) x.1).map (erase x.2) =
      (rowsOf (run (copies parts keys host bak) d) x.1).map (erase x.2)) ∧
    ∀ v, v ≠ .null → (∀ key ∈ currentIds, v ≠ .text key) →
      keyed v (rowsOf (run (body getText parts keys host bak) d) "settings") =
        keyed v (rowsOf (run (copies parts keys host bak) d) "settings") := by
  have hids := IdsOnly.repairs getText parts keys host bak (run (copies parts keys host bak) d)
  have href := ReferencesOnly.resets parts host bak (run (repairs getText parts keys host bak) (run (copies parts keys host bak) d))
  have hcounters : ∀ {table : String}, table ≠ "entity_ids" → run (body getText parts keys host bak) d table =
      run (resets parts host bak) (run (repairs getText parts keys host bak) (run (copies parts keys host bak) d)) table := by
    intro table htable
    unfold body
    rw [run_append, run_append, run_append]
    exact counters_other _ htable
  refine ⟨fun table htable => ?_, fun x hx => ?_, fun v hv hv' => ?_⟩
  · have hne : table ≠ "entity_ids" ∧ table ∉ crossReferences.map Prod.fst ∧ table ≠ "settings" := by
      simp only [mem_cons, not_mem_nil, or_false, not_or] at htable
      obtain ⟨hgroups, hroutes, hsettings, hcounters⟩ := htable
      refine ⟨hcounters, ?_, hsettings⟩
      rintro (_ | ⟨_, _ | ⟨_, h⟩⟩)
      · exact hgroups rfl
      · exact hroutes rfl
      · cases h
    rw [hcounters hne.1, href.other table hne.2.1, hids.other table hne.2.2]
  · have hne : x.1 ≠ "entity_ids" ∧ x.1 ≠ "settings" := by
      revert x
      decide
    rw [rowsOf_congr (hcounters hne.1), href.erased x hx, rowsOf_congr (hids.other x.1 hne.2)]
  · rw [rowsOf_congr (hcounters (by decide)), rowsOf_congr (href.other "settings" (by decide)), hids.keys v hv hv']

theorem keyed_snapshot (hpart : parts.settings = true) (excluded : List String) (source : Db) :
    keyed v (rowsOf (backupSelective parts excluded source) "settings") =
      if inKeys excluded v then [] else keyed v (rowsOf source "settings") := by
  have hout : "settings" ∉ leftOut parts :=
    not_leftOut parts.profiles parts.routes parts.settings parts.otp parts.ipLists "settings" (settings_mem hpart)
  have htable : backupSelective parts excluded source "settings" =
    (source "settings").map (fun t => t.delete (keyIn excluded)) := by
    rw [backupSelective_eq, if_neg hout]
    exact if_pos ⟨hpart, rfl⟩
  rw [rowsOf, htable, rowsOf]
  cases source "settings" with
  | none => exact (ite_self _).symm
  | some t =>
    have hkey : ∀ r : Row, r "key" = v → (!keyIn excluded r) = !inKeys excluded v := by
      rintro r rfl
      rfl
    refine (keyed_filter hkey t.rows).trans ?_
    cases inKeys excluded v <;> rfl

theorem rowsOf_snapshot (excluded : List String) (source : Db) (hmem : table ∈ partTables parts)
    (hne : table ≠ "settings") :
    backupSelective parts excluded source table = source table := by
  have hout : table ∉ leftOut parts := not_leftOut parts.profiles parts.routes parts.settings parts.otp parts.ipLists table hmem
  rw [backupSelective_eq, if_neg hout, if_neg (fun h => hne h.2)]

theorem roundTrip {source : Db} (hsame : SameSchema host source) (excluded preserved : List String)
    (h : (restoreSelective getText parts preserved host (backupSelective parts excluded source) throws).1 = .returned n) :
    RoundTrip parts excluded preserved source host
      (restoreSelective getText parts preserved host (backupSelective parts excluded source) throws).2 := by
  cases hany : parts.anyDb with
  | false =>
    obtain ⟨hnone, hsettings⟩ := partTables_none hany
    have hhost : (restoreSelective getText parts preserved host (backupSelective parts excluded source) throws).2 = host := by
      unfold restoreSelective Restore.transaction
      rw [hany]
      rfl
    rw [hhost]
    refine ⟨fun table _ => ?_, fun x _ => ?_, fun v _ _ => ?_⟩
    · rw [hnone, if_neg not_mem_nil]
    · rw [hnone, if_neg not_mem_nil]
    · rw [hsettings]
      rfl
  | true =>
    rw [(restoreSelective_returned hany h).1]
    have hsnapshot := hsame.snapshot parts excluded
    obtain ⟨htables, hreferences, hkeys⟩ := run_body getText parts preserved host (backupSelective parts excluded source) host
    have hsource : ∀ {table : String}, table ≠ "settings" →
        rowsOf (if table ∈ partTables parts then backupSelective parts excluded source else host) table =
          rowsOf (if table ∈ partTables parts then source else host) table := by
      intro table hne
      split
      · next hmem => exact rowsOf_congr (rowsOf_snapshot excluded source hmem hne)
      · rfl
    refine ⟨fun table htable => ?_, fun x hx => ?_, fun v hv hids => ?_⟩
    · have hne : table ≠ "settings" := by
        rintro rfl
        exact htable (by decide)
      rw [rowsOf_congr (htables table htable), rows_copies hsnapshot hne, hsource hne]
    · have hne : x.1 ≠ "settings" := by
        revert x
        decide
      rw [hreferences x hx, rows_copies hsnapshot hne, hsource hne]
    · rw [hkeys v hv hids, keyed_copies hsnapshot hv hids]
      split
      · rfl
      next hcond =>
      have hpart : parts.settings = true := by
        cases hpart : parts.settings with
        | true => rfl
        | false => simp [hpart] at hcond
      exact keyed_snapshot hpart excluded source

/-! ## Rules of a wider schema -/

/-- A value in a column that the host does not have. -/
def extra (main b : CellTable) (r : Row) : Bool := b.columns.any (fun c => decide (c ∉ main.columns) && !blank (r c))

/-- The cells of a row that the host has columns for. -/
def project (columns : List String) (r : Row) : Row := fun c => if c ∈ columns then r c else .null

structure RulesCopied (main b : CellTable) (n : Nat) (rules : List Row) : Prop where
  count : n = b.rows.countP (extra main b)
  whole : n = 0 → rules = b.rows.map (project main.columns)
  /-- where some are left out: the others of a profile, in their order, with the numbers from 0 on -/
  numbered : 0 < n → ∀ profile : Value, ∃ l : List Row,
    l.Perm (b.rows.filter (fun r => !extra main b r && decide (r "route_profile_id" = profile))) ∧
    l.Pairwise (fun r s => (r "rule_order").le (s "rule_order")) ∧
    rules.filter (fun r => decide (r "route_profile_id" = profile)) =
      l.mapIdx (fun i r => project main.columns (Function.update r "rule_order" (.integer i)))

theorem keepRow_rules (main b : CellTable) (r : Row) : keepRow "route_rules" main b r = !extra main b r := by
  unfold keepRow extra
  rw [if_pos rfl, List.not_any_eq_all_not, List.all_filter]
  refine congrArg (fun p => b.columns.all p) (funext (fun c => ?_))
  cases decide (c ∉ main.columns) <;> simp

theorem fill_project (hsub : ∀ c ∈ main.columns, c ∈ b.columns) (t : CellTable) (ht : t.columns = main.columns) :
    t.fill (fun c => decide (c ∈ b.columns)) = project main.columns := by
  funext r c
  show (if c ∈ t.columns then if decide (c ∈ b.columns) = true then r c else t.default c else .null) = if c ∈ main.columns then r c else .null
  rw [ht]
  by_cases hc : c ∈ main.columns
  · rw [if_pos hc, if_pos hc, if_pos (decide_eq_true (hsub c hc))]
  · rw [if_neg hc, if_neg hc]

theorem rulesCopied (hmain : host "route_rules" = some main) (hb : bak "route_rules" = some b)
    (hsub : ∀ c ∈ main.columns, c ∈ b.columns) (hprofile : "route_profile_id" ∈ main.columns)
    (hpart : parts.routes = true)
    (preserved : List String)
    (h : (restoreSelective getText parts preserved host bak throws).1 = .returned n) :
    RulesCopied main b n (rowsOf (restoreSelective getText parts preserved host bak throws).2 "route_rules") := by
  have hany : parts.anyDb = true := by simp [BackupParts.anyDb, hpart]
  obtain ⟨hdone, hn⟩ := restoreSelective_returned hany h
  have hcommon : (common main b).isEmpty = false := by
    have hmem : "route_profile_id" ∈ common main b := mem_filter.mpr ⟨hprofile, decide_eq_true (hsub _ hprofile)⟩
    cases hl : common main b with
    | nil =>
      rw [hl] at hmem
      cases hmem
    | cons => rfl
  have hrows : rowsOf (run (body getText parts preserved host bak) host) "route_rules" =
    (copyTable "route_rules" [] main b).rows := by
    obtain ⟨htables, -, -⟩ := run_body getText parts preserved host bak host
    have hmem : "route_rules" ∈ partTables parts := by simp [partTables, hpart, kRouteTables]
    rw [rowsOf_congr (htables "route_rules" (by decide)), rowsOf,
      run_copies host "route_rules" (.inl (by decide)), if_pos hmem, hmain,
      afterCopy, hb]
    rfl
  have hskipped : n = skippedRows "route_rules" main b := by
    have hprofiles : copySkipped "route_profiles" host bak = 0 := by
      unfold copySkipped
      split
      · split
        · rfl
        next main' b' _ _ _ =>
        have hall : ∀ r : Row, keepRow "route_profiles" main' b' r = true := fun r => rfl
        unfold skippedRows
        rw [filter_eq_nil_iff.mpr (fun r _ => by rw [hall r]; exact Bool.false_ne_true)]
        rfl
      · rfl
    rw [hn, hpart]
    show copySkipped "route_rules" host bak + (copySkipped "route_profiles" host bak + 0) = _
    rw [hprofiles, copySkipped, hmain, hb]
    simp [hcommon]
  have hcount : skippedRows "route_rules" main b = b.rows.countP (extra main b) := by
    unfold skippedRows
    rw [countP_eq_length_filter]
    congr 1
    refine filter_congr (fun r _ => ?_)
    rw [keepRow_rules, Bool.not_not]
  have hcopy : (copyTable "route_rules" [] main b).rows =
      (if 0 < n then Sql.numbered "route_profile_id" "rule_order" "rule_order" (b.rows.filter (fun r => !extra main b r))
        else b.rows.filter (fun r => !extra main b r)).map (project main.columns) := by
    have hkept : b.rows.filter (fun r => keepRow "route_rules" main b r && replacedKey [] r) =
      b.rows.filter (fun r => !extra main b r) := by
      refine filter_congr (fun r _ => ?_)
      rw [keepRow_rules]
      exact Bool.and_true _
    have hwiped : main.rows.filter (fun r => !replacedKey [] r) = [] :=
      filter_eq_nil_iff.mpr (fun _ _ h => Bool.false_ne_true h)
    unfold copyTable
    rw [hcommon, if_neg Bool.false_ne_true, hkept, ← hskipped]
    show main.rows.filter _ ++ map _ _ = _
    rw [hwiped, nil_append, fill_project hsub _ (by rfl)]
  rw [hdone, hrows]
  refine ⟨hskipped.trans hcount, fun hzero => ?_, fun hpos profile => ?_⟩
  · rw [hcopy, hzero, if_neg (Nat.lt_irrefl 0)]
    congr 1
    refine filter_eq_self.mpr (fun r hr => ?_)
    have hnone : b.rows.countP (extra main b) = 0 := by rw [← hcount, ← hskipped, hzero]
    simpa using countP_eq_zero.mp hnone r hr
  · refine ⟨((b.rows.filter (fun r => !extra main b r)).filter (fun r =>
      decide (r "route_profile_id" = profile))).insertionSort
      (fun r s => (r "rule_order").le (s "rule_order")), ?_, sorted_part _ _ _ _, ?_⟩
    · refine (perm_insertionSort _ _).trans (Perm.of_eq ?_)
      rw [List.filter_filter]
      exact filter_congr (fun r _ => Bool.and_comm _ _)
    · rw [hcopy, if_pos hpos, List.filter_map]
      have hcell : ((fun r : Row => decide (r "route_profile_id" = profile)) ∘ project main.columns) =
          fun r : Row => decide (r "route_profile_id" = profile) := by
        funext r
        show decide ((if "route_profile_id" ∈ main.columns then r "route_profile_id" else .null) = profile) = _
        rw [if_pos hprofile]
      rw [hcell, numbered_part "rule_order" (by decide)]
      unfold numberedPart
      rw [List.mapIdx_eq_zipIdx_map, List.map_map, List.mapIdx_eq_zipIdx_map]
      rfl

/-- **A backup and what a restore makes of it**: the selected parts are the source's afterwards, the others
the host's; nothing else is in the snapshot; rules of a wider schema are copied whole or not at all. -/
theorem selective_contract (getText : Value → List Char) (parts : BackupParts)
    (excluded preserved : List String) (throws : Nat → Bool) (n : Nat) :
    (∀ source host, SameSchema host source →
      (restoreSelective getText parts preserved host (backupSelective parts excluded source) throws).1 = .returned n →
      RoundTrip parts excluded preserved source host
        (restoreSelective getText parts preserved host (backupSelective parts excluded source) throws).2) ∧
    (∀ source, ∀ table ∈ leftOut parts, rowsOf (backupSelective parts excluded source) table = []) ∧
    ∀ (host bak : Db) main b, parts.routes = true → host "route_rules" = some main → bak "route_rules" = some b →
      (∀ c ∈ main.columns, c ∈ b.columns) → "route_profile_id" ∈ main.columns →
      (restoreSelective getText parts preserved host bak throws).1 = .returned n →
      RulesCopied main b n (rowsOf (restoreSelective getText parts preserved host bak throws).2 "route_rules") :=
  ⟨fun _ _ hsame h => roundTrip hsame excluded preserved h,
   fun source _ h => backupSelective_leftOut parts excluded source h,
    fun _ _ _ _ hpart hmain hb hsub hprofile h => rulesCopied hmain hb hsub hprofile hpart preserved h⟩

/-! ### Small databases -/

/-- The cells of a row, column by column. -/
def rowOf (columns : List String) (cells : List Value) : Row := fun c => ((columns.zip cells).lookup c).getD .null

def tableOf (columns : List String) (hcolumns : columns ≠ []) (rows : List (List Value)) : CellTable where
  columns := columns
  default := fun _ => .null
  rows := rows.map (rowOf columns)
  named := hcolumns
  clean := by
    intro r hr c hc
    obtain ⟨cells, -, rfl⟩ := mem_map.mp hr
    have hnone : (columns.zip cells).lookup c = none := by
      refine lookup_eq_none_iff.mpr (fun x hx => ?_)
      rw [bne_iff_ne]
      rintro rfl
      exact hc (of_mem_zip hx).1
    rw [rowOf, hnone]
    rfl

def oneTable (name : String) (t : CellTable) : Db := fun table => if table = name then some t else none

def settingsDb (key value : String) : Db := oneTable "settings" (tableOf ["key",
      "value"] (by decide) [[.text key, .text value]])

def settingsPart : BackupParts := { settings := true }

/-- Rules of one profile, with the conditions of another app. -/
def rulesTable (rows : List (List Value)) : CellTable :=
    tableOf ["route_profile_id", "rule_order", "geoip"] (by decide) rows

/-- Three rules, the first one with a condition of another app. -/
def threeRules : CellTable :=
  rulesTable [[.integer 1, .integer 0, .text "cn"], [.integer 1, .integer 1, .text ""], [.integer 1, .integer 2, .null]]

def noRules : CellTable := tableOf ["route_profile_id", "rule_order"] (by decide) []

def restoredRules (b : CellTable) : Outcome × Db :=
  restoreSelective (fun _ => []) { routes := true } [] (oneTable "route_rules" noRules) (oneTable "route_rules" b) (fun _ => false)

/-- A key that is left out of the backup and not preserved has no row afterwards, and a rule keeps its number where
no rule is left out. -/
theorem excluded_key_is_lost :
    let restored := restoreSelective (fun _ => []) settingsPart [] (settingsDb "webdav_pass" "host")
      (backupSelective settingsPart ["webdav_pass"] (settingsDb "webdav_pass" "source")) (fun _ => false)
    let gap := restoredRules (rulesTable [[.integer 1, .integer 5, .text ""]])
    restored.1 = .returned 0 ∧ (keyed (.text "webdav_pass") (rowsOf (settingsDb "webdav_pass" "host") "settings")).length = 1 ∧
      keyed (.text "webdav_pass") (rowsOf restored.2 "settings") = [] ∧
      gap.1 = .returned 0 ∧ (rowsOf gap.2 "route_rules").map (· "rule_order") = [.integer 5] := by
  refine ⟨by decide, by decide, ?_, by decide, by decide⟩
  exact length_eq_zero_iff.mp (by decide)

theorem selective_contract_small :
    RoundTrip settingsPart ["webdav_pass"] ["webdav_pass"] (settingsDb "theme" "dark") (settingsDb "webdav_pass" "host")
      (restoreSelective (fun _ => []) settingsPart ["webdav_pass"] (settingsDb "webdav_pass" "host")
        (backupSelective settingsPart ["webdav_pass"] (settingsDb "theme" "dark")) (fun _ => false)).2 ∧
    RulesCopied noRules threeRules 1 (rowsOf (restoredRules threeRules).2 "route_rules") := by
  have hsame : SameSchema (settingsDb "webdav_pass" "host") (settingsDb "theme" "dark") := by
    refine ⟨fun table => ?_, fun table h s hh hs c => ?_⟩
    · unfold tableExists settingsDb oneTable
      split <;> rfl
    unfold settingsDb oneTable at hh hs
    split at hh
    · cases hh
      rw [if_pos (by assumption)] at hs
      cases hs
      exact Iff.rfl
    · cases hh
  exact ⟨(selective_contract (fun _ => []) settingsPart ["webdav_pass"] ["webdav_pass"] (fun _ => false) 0).1 _ _ hsame (by decide),
    (selective_contract (fun _ => []) { routes := true } [] [] (fun _ => false) 1).2.2 _ _ noRules threeRules rfl rfl rfl (by decide)
      (by decide) (by decide)⟩

end Waterdisco.Selective
