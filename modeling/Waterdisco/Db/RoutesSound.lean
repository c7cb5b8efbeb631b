import Mathlib.Data.List.TakeWhile
import Waterdisco.Db.Routes

/-!
# Routing profiles come back as they were saved

Each value is bound to the column that the SELECT reads at the same place (`cells_ruleRow`),
so a row reads back as its rule, and a profile as itself.  The rules of a chunk of profiles,
sorted by profile and order, are for each profile its own rules in order.

    loadFromDatabase (saveToDatabase db p) = p                         (load_save)
    GetAllRouteProfiles = loadFromDatabase of every id, in any chunks  (getAll_eq_load)
-/

namespace Waterdisco.RoutesRepo

open Routing List Option String Nat
open Route (trimmed)

/-! ## Rows -/

section

variable {κ : Type} [DecidableEq κ]

/-- What is selected is what was bound, place by place. -/
theorem map_rowOf {columns : List κ} {values : List Cell} (h : columns.Nodup)
    (hlength : columns.length = values.length) :
    columns.map (rowOf columns values) = values := by
  induction columns generalizing values with
  | nil => exact (eq_nil_of_length_eq_zero hlength.symm).symm
  | cons c columns ih =>
    cases values with
    | nil => cases hlength
    | cons v values =>
      rw [nodup_cons] at h
      have hrest : columns.map (rowOf (c :: columns) (v :: values)) = columns.map (rowOf columns values) := by
        refine map_congr_left fun c' hc' => ?_
        have hne : c ≠ c' := fun heq => h.1 (heq ▸ hc')
        rw [rowOf, rowOf, zip_cons_cons, find?_cons_of_neg (by simpa using hne)]
      rw [map_cons, hrest, ih h.2 (succ.inj hlength)]
      rw [rowOf, zip_cons_cons, find?_cons_of_pos (by simp)]
      rfl

end

/-! ## Values there and back -/

/-- A text without a NUL and without a byte order mark at its start. -/
structure Plain (s : String) : Prop where
  nul : Char.ofNat 0 ∉ s.toList
  mark : s.toList.head? ≠ some '\ufeff'

theorem read_text {s : String} (h : Plain s) : fromStdString (Cell.text s).getText = s := by
  have hall : s.toList.takeWhile (· ≠ Char.ofNat 0) = s.toList := by
    apply takeWhile_eq_self_iff.mpr
    intro c hc
    rw [decide_eq_true_iff]
    rintro rfl
    exact h.nul hc
  rw [Cell.getText, hall, ofList_toList, fromStdString]
  split
  · rename_i hempty
    exact (toList_eq_nil_iff.mp hempty).symm
  rename_i c rest hcons
  rw [if_neg]
  rintro rfl
  exact h.mark (by rw [hcons]; rfl)

theorem read_flag (b : Bool) : ((flag b).getInt != 0) = b := by
  cases b <;> rfl

theorem read_integer (n : Int32) : (Cell.integer n.toInt).getInt = n := Int32.ofInt_toInt n

/-- A document that is read back from its text, which is plain. -/
structure JsonText.Carries (u : JsonText) (doc : Json) : Prop where
  plain : Plain (u.compact doc)
  parse : u.parse (u.compact doc) = some doc

variable {u : JsonText}

theorem read_array {items : List Json} (h : u.Carries (.arr items)) :
    parseJsonArray u (Cell.text (u.compact (.arr items))).getText = .arr items := by
  rw [parseJsonArray, read_text h.plain, h.parse]

theorem toStr_comp : Json.toStr ∘ Json.str = id := rfl

/-- A list without blank items whose array is carried. -/
structure Kept (u : JsonText) (list : List String) : Prop where
  filled : ∀ item ∈ list, notBlank item = true
  carried : u.Carries (listToArray list)

theorem read_list {list : List String} (h : Kept u list) :
    arrayToList (parseJsonArray u (Cell.text (u.compact (listToArray list))).getText) = list := by
  have hcarried := h.carried
  rw [listToArray] at hcarried ⊢
  rw [read_array hcarried, List.filter_eq_self.mpr h.filled, arrayToList, Json.toArray,
    List.map_map, toStr_comp, List.map_id]

theorem read_ids {ids : List Int32} (h : u.Carries (idsToArray ids)) :
    arrayToIds (parseJsonArray u (Cell.text (u.compact (idsToArray ids))).getText) = ids := by
  rw [idsToArray] at h ⊢
  rw [read_array h, arrayToIds, Json.toArray, filterMap_map]
  have hread : (idOf ∘ fun id : Int32 => Json.num id.toInt) = some := funext fun id => congrArg some (toIntOr_num 0 id)
  rw [hread, filterMap_some]

theorem nearestDouble_eq {n : Int} (h : n.natAbs < 2 ^ 53) : nearestDouble n = n := by
  have hlog : n.natAbs.log2 - 52 = 0 := by
    by_cases hzero : n.natAbs = 0
    · rw [hzero]
      rfl
    · have hlt := (Nat.log2_lt hzero).mpr h
      omega
  rw [nearestDouble, hlog]
  simp only [Nat.pow_zero, Nat.div_one, Nat.mod_one, Nat.mul_zero, Nat.lt_one_iff, true_or, if_true, Nat.mul_one]
  exact Int.sign_mul_natAbs n

/-! ## Rules -/

def RouteRule.texts (rule : RouteRule) : List String :=
  [rule.name, rule.ipVersion, rule.network, rule.protocol, rule.action, rule.rejectMethod,
   rule.overrideAddress, rule.overridePort,
    rule.tlsFragmentFallbackDelay, rule.tlsSpoof, rule.tlsSpoofMethod, rule.strategy]

def RouteRule.lists (rule : RouteRule) : List (List String) :=
  [rule.inbound, rule.domain, rule.domainSuffix, rule.domainKeyword, rule.domainRegex,
   rule.sourceIpCidr, rule.ipCidr, rule.sourcePort,
    rule.sourcePortRange, rule.port, rule.portRange, rule.processName, rule.processPath,
    rule.processPathRegex, rule.packageName,
    rule.wifiSsid, rule.wifiBssid, rule.ruleSet, rule.sniffers]

theorem ruleInsertColumns_nodup : ruleInsertColumns.Nodup := by decide

def ruleRow (u : JsonText) (id : Int32) (order : Nat) (rule : RouteRule) : RuleRow :=
    rowOf ruleInsertColumns (ruleValues u id order rule)

theorem cells_ruleRow (id : Int32) (order : Nat) (rule : RouteRule) :
    ruleSelectColumns.map (ruleRow u id order rule) = (ruleValues u id order rule).drop 2 := by
  have h := @map_rowOf _ _ _ (ruleValues u id order rule) ruleInsertColumns_nodup rfl
  rfl

theorem ruleRow_profile (id : Int32) (order : Nat) (rule : RouteRule) :
    ruleRow u id order rule .route_profile_id = .integer id.toInt ∧
      ruleRow u id order rule .rule_order = .integer order := ⟨rfl, rfl⟩

theorem ruleJsonFromRow_cons (cell : Cell) (cells : List Cell) :
    ruleJsonFromRow u (cell :: cells) 1 = ruleJsonFromRow u cells 0 := by
  have hget : ∀ i, getColumn (cell :: cells) (1 + i) = getColumn cells (0 + i) := by
    intro i
    rw [getColumn, add_comm, getD_cons_succ, zero_add]
    rfl
  simp only [ruleJsonFromRow, hget]

/-- **A rule** is read back from its row. -/
theorem read_rule {rule : RouteRule} (htexts : ∀ s ∈ RouteRule.texts rule, Plain s)
    (hlists : ∀ list ∈ RouteRule.lists rule, Kept u list)
    (id : Int32) (order : Nat) : routeRuleFromJson (ruleJsonFromRow u (ruleSelectColumns.map (ruleRow u id order rule)) 0) = rule := by
  rw [cells_ruleRow]
  simp only [RouteRule.texts, List.mem_cons, List.not_mem_nil, or_false, forall_eq_or_imp, forall_eq] at htexts
  simp only [RouteRule.lists, List.mem_cons, List.not_mem_nil, or_false, forall_eq_or_imp, forall_eq] at hlists
  simp only [routeRuleFromJson, ruleJsonFromRow, ruleValues, List.drop_succ_cons, List.drop_zero,
    zero_add, getColumn, List.getD_cons_zero, List.getD_cons_succ,
    Json.value, List.find?_cons, String.reduceBEq, Json.toStr, Json.toBool, read_flag, read_integer, toIntOr_num]
  obtain ⟨h1, h2, h3, h4, h5, h6, h7, h8, h9, h10, h11, h12⟩ := htexts
  obtain ⟨g1, g2, g3, g4, g5, g6, g7, g8, g9, g10, g11, g12, g13, g14, g15, g16, g17, g18, g19⟩ := hlists
  simp only [read_text, read_list, h1, h2, h3, h4, h5, h6, h7, h8, h9, h10, h11, h12, g1, g2, g3,
    g4, g5, g6, g7, g8, g9, g10, g11, g12, g13, g14,
    g15, g16, g17, g18, g19]

/-! ## Profiles -/

/-- What a profile may hold to come back as it was. -/
structure Storable (u : JsonText) (p : RouteProfile) : Prop where
  texts : ∀ s ∈ [p.name, p.rawRoute, p.remoteURL], Plain s
  ruleTexts : ∀ rule ∈ p.rules, ∀ s ∈ RouteRule.texts rule, Plain s
  ruleLists : ∀ rule ∈ p.rules, ∀ list ∈ RouteRule.lists rule, Kept u list
  endpoints : u.Carries (idsToArray p.endpointProfileIDs)
  innerHops : u.Carries (idsToArray p.innerHopEndpointIDs)
  dns : ∀ dns ∈ p.dns, u.Carries dns.toJson ∧ trimmed dns.remoteDns = dns.remoteDns ∧
    trimmed dns.directDns = dns.directDns
  own : p.customDns = true → p.dns.isSome = true
  time : p.remoteLastUpdate.toInt.natAbs < 2 ^ 53

def profileRow (u : JsonText) (p : RouteProfile) (id : Int32) : ProfileRow :=
    rowOf profileInsertColumns (profileValues u p id)

theorem cells_profileRow (p : RouteProfile) (id : Int32) :
    profileSelectColumns.map (profileRow u p id) = profileValues u p id :=
  @map_rowOf _ _ _ (profileValues u p id) (by decide) rfl

/-- An absent document is an empty text, which is none. -/
structure JsonText.Lawful (u : JsonText) : Prop where
  empty : u.parse "" = none

theorem plain_empty : Plain "" := ⟨by decide, by decide⟩

/-- **A profile without its rules** is read back from its row. -/
theorem read_profile (hu : u.Lawful) {p : RouteProfile} (h : Storable u p) :
    routeProfileFromProfileRow u (profileSelectColumns.map (profileRow u p p.id)) = { p with rules := [] } := by
  rw [cells_profileRow]
  have htexts := h.texts
  simp only [List.mem_cons, List.not_mem_nil, or_false, forall_eq_or_imp, forall_eq] at htexts
  obtain ⟨hname, hraw, hurl⟩ := htexts
  have htime : Int64.ofInt (nearestDouble p.remoteLastUpdate.toInt) = p.remoteLastUpdate := by
    rw [nearestDouble_eq h.time, Int64.ofInt_toInt]
  have howns := h.own
  cases hdns : p.dns with
  | none =>
    have hflag : p.customDns = false := by
      rw [hdns] at howns
      simpa using howns
    simp only [routeProfileFromProfileRow, routeProfileFromJson, profileValues, hdns, Option.elim,
      getColumn, List.getD_cons_zero,
      List.getD_cons_succ, read_text plain_empty, hu.empty, Json.value, List.find?_cons,
      String.reduceBEq, Json.toStr, Json.toBool,
      List.nil_append, List.append_nil, List.cons_append, read_flag, read_integer, toIntOr_num,
      read_text hname, read_text hraw,
      read_text hurl, read_ids h.endpoints, read_ids h.innerHops, toInteger, Cell.getInt64, htime,
      Json.isObject, Json.toArray, List.filterMap_nil, hflag,
      Bool.false_and, List.find?_nil, if_false, Bool.false_eq_true]
  | some dns =>
    obtain ⟨hcarried, hremote, hdirect⟩ := h.dns dns hdns
    have hback : RouteDns.fromJson dns.toJson = dns := by rw [RouteDns.fromJson_toJson, hremote, hdirect]
    obtain ⟨members, hmembers⟩ : ∃ members, dns.toJson = .obj members := ⟨_, rfl⟩
    rw [hmembers] at hcarried hback
    simp only [routeProfileFromProfileRow, routeProfileFromJson, profileValues, hdns, Option.elim,
      hmembers, getColumn, List.getD_cons_zero,
      List.getD_cons_succ, read_text hcarried.plain, hcarried.parse, Json.value, List.find?_cons,
      String.reduceBEq, Json.toStr, Json.toBool,
      List.cons_append, List.nil_append, read_flag, read_integer, toIntOr_num, read_text hname, read_text hraw,
      read_text hurl, read_ids h.endpoints, read_ids h.innerHops, toInteger, Cell.getInt64, htime,
      Json.isObject, Json.toArray, List.filterMap_nil,
      hback, if_true, Option.isSome_some, Bool.and_true]

/-! ## Saved and loaded -/

variable (rows : List ProfileRow) (row : ProfileRow)

theorem upsertProfile_eq :
    upsertProfile rows row =
      if rows.any fun old => old .id = row .id then rows.map fun old => if old .id = row .id then row else old else rows ++ [row] := by
  have hmerged : ∀ old : ProfileRow, old .id = row .id →
      (fun column => if column ∈ profileUpdateColumns then row column else old column) = row := by
    intro old hid
    funext column
    by_cases hin : column ∈ profileUpdateColumns
    · rw [if_pos hin]
    have hcolumn : column = .id := by
      revert hin
      cases column <;> decide
    rw [if_neg hin, hcolumn, hid]
  refine if_congr Iff.rfl (map_congr_left fun old _ => ?_) rfl
  split
  · rename_i hid
    exact hmerged old hid
  · rfl

theorem find_upsertProfile :
    (upsertProfile rows row).find? (fun old => old .id = row .id) = some row := by
  rw [upsertProfile_eq]
  split
  · rename_i hany
    rw [find?_map]
    have hsame : ((fun old : ProfileRow => decide (old .id = row .id)) ∘ fun old =>
      if old .id = row .id then row else old) =
        fun old => decide (old .id = row .id) := by
      funext old
      show decide ((if old .id = row .id then row else old) .id = row .id) = _
      split
      · rename_i hid
        rw [decide_eq_true hid, decide_eq_true rfl]
      · rfl
    rw [hsame]
    obtain ⟨old, hold⟩ := isSome_iff_exists.mp (find?_isSome.mpr (any_eq_true.mp hany))
    have hid := of_decide_eq_true (find?_some (p := fun old : ProfileRow => decide (old .id = row .id)) hold)
    rw [hold, map_some, if_pos hid]
  · rename_i hnone
    rw [find?_append, find?_eq_none.mpr fun old hold heq => hnone (any_eq_true.mpr ⟨old, hold, heq⟩), none_or,
      find?_cons_of_pos (by simp)]

theorem rules_save (db : Database) (p : RouteProfile) (id : Int32) :
    (saveToDatabase u db p id).rules.filter (fun rule => rule .route_profile_id = .integer id.toInt) =
      p.rules.mapIdx fun order rule => ruleRow u id order rule := by
  show List.filter _ (db.rules.filter _ ++ _) = _
  rw [List.filter_append, List.filter_filter, List.filter_eq_nil_iff.mpr, List.nil_append, List.filter_eq_self.mpr]
  · rfl
  · intro row hrow
    obtain ⟨order, hlt, rfl⟩ := List.mem_mapIdx.mp hrow
    exact decide_eq_true (ruleRow_profile id order _).1
  · intro row _
    rw [Bool.and_eq_true, decide_eq_true_iff, decide_eq_true_iff]
    exact fun h => h.2 h.1

theorem order_mapIdx (id : Int32) (rules : List RouteRule) :
    orderBy orderKey (rules.mapIdx fun order rule => ruleRow u id order rule) =
      rules.mapIdx fun order rule => ruleRow u id order rule := by
  apply orderBy_of_pairwise
  rw [pairwise_iff_getElem]
  intro i j hi hj hlt
  rw [getElem_mapIdx, getElem_mapIdx]
  exact Int.ofNat_le.mpr (le_of_lt hlt)

/-- **A saved profile** is loaded as it was. -/
theorem load_save (hu : u.Lawful) (db : Database) {p : RouteProfile} (h : Storable u p) :
    loadFromDatabase u (saveToDatabase u db p p.id) p.id = some p := by
  have hfind := find_upsertProfile db.profiles (profileRow u p p.id)
  rw [loadFromDatabase, rules_save, order_mapIdx]
  show Option.map _ ((upsertProfile db.profiles (profileRow u p p.id)).find? fun row =>
    row .id = profileRow u p p.id .id) = _
  rw [hfind, map_some, read_profile hu h]
  dsimp only
  have hrules : (p.rules.mapIdx fun order rule => ruleRow u p.id order rule).map
      (fun rule => routeRuleFromJson (ruleJsonFromRow u (ruleSelectColumns.map rule) 0)) = p.rules := by
    apply ext_getElem
    · rw [List.length_map, List.length_mapIdx]
    · intro i hi hi'
      rw [getElem_map, getElem_mapIdx]
      exact read_rule (h.ruleTexts _ (getElem_mem hi')) (h.ruleLists _ (getElem_mem hi')) p.id i
  exact congrArg (fun rules => some { p with rules := rules }) hrules

/-! ## The tables over a run -/

/-- Ids are `int`s, no profile is there twice, and no rule has the place of another. -/
structure Wf (db : Database) : Prop where
  ids : ∀ row ∈ db.profiles, ∃ id : Int32, row .id = .integer id.toInt
  distinct : (db.profiles.map fun row => row .id).Nodup
  owners : ∀ rule ∈ db.rules, ∃ id : Int32, rule .route_profile_id = .integer id.toInt
  places : (db.rules.map chunkKey).Nodup

theorem Wf.empty : Wf {} := ⟨nofun, nodup_nil, nofun, nodup_nil⟩

theorem Wf.delete {db : Database} (h : Wf db) (ids : List Int32) : Wf (deleteProfiles db ids) where
  ids row hrow := h.ids row (mem_filter.mp hrow).1
  distinct := h.distinct.sublist (filter_sublist.map _)
  owners rule hrule := h.owners rule (mem_filter.mp hrule).1
  places := h.places.sublist (filter_sublist.map _)

theorem ids_upsertProfile :
    (upsertProfile rows row).map (fun row => row .id) =
      if row .id ∈ rows.map fun row => row .id then rows.map fun row => row .id else rows.map (fun row => row .id) ++ [row .id] := by
  have hany : (rows.any fun old => old .id = row .id) = true ↔ row .id ∈ rows.map fun row => row .id := by
    rw [List.any_eq_true, List.mem_map]
    exact exists_congr fun old => and_congr_right fun _ => decide_eq_true_iff
  rw [upsertProfile_eq, apply_ite (List.map fun row : ProfileRow => row .id)]
  refine if_congr hany ?_ (by rw [List.map_append]; rfl)
  rw [List.map_map]
  refine List.map_congr_left fun old _ => ?_
  show (if old .id = row .id then row else old) .id = old .id
  split
  · rename_i hid
    exact hid.symm
  · rfl

theorem Wf.save {db : Database} (h : Wf db) (p : RouteProfile) (id : Int32) : Wf (saveToDatabase u db p id) := by
  have hids := ids_upsertProfile db.profiles (profileRow u p id)
  constructor
  · intro row hrow
    have hcell : row .id ∈ (upsertProfile db.profiles (profileRow u p id)).map fun row => row .id := mem_map_of_mem hrow
    have hor : row .id ∈ (db.profiles.map fun row => row .id) ∨ row .id = profileRow u p id .id := by
      rw [hids] at hcell
      split at hcell
      · exact .inl hcell
      · exact (mem_append.mp hcell).imp_right mem_singleton.mp
    rcases hor with hold | hnew
    · obtain ⟨old, hin, hsame⟩ := mem_map.mp hold
      rw [← hsame]
      exact h.ids old hin
    · exact ⟨id, hnew⟩
  · show ((upsertProfile db.profiles (profileRow u p id)).map fun row => row .id).Nodup
    rw [hids]
    split
    · exact h.distinct
    rename_i hnew
    rw [← concat_eq_append]
    exact h.distinct.concat hnew
  · intro rule hrule
    rcases mem_append.mp hrule with hold | hnew
    · exact h.owners rule (mem_filter.mp hold).1
    · obtain ⟨order, hlt, rfl⟩ := mem_mapIdx.mp hnew
      exact ⟨id, rfl⟩
  · show ((db.rules.filter _ ++ p.rules.mapIdx fun order rule => ruleRow u id order rule).map chunkKey).Nodup
    rw [map_append, nodup_append]
    refine ⟨h.places.sublist (filter_sublist.map _), ?_, ?_⟩
    · rw [Nodup, pairwise_map, pairwise_iff_getElem]
      intro i j hi hj hlt heq
      rw [getElem_mapIdx, getElem_mapIdx] at heq
      have horder : (i : Int) = j := congrArg (fun key => (ofLex key).2) heq
      exact absurd (Int.ofNat_inj.mp horder) (Nat.ne_of_lt hlt)
    · intro key hold key' hnew heq
      subst heq
      obtain ⟨rule, hrule, rfl⟩ := mem_map.mp hold
      obtain ⟨rule', hrule', hkey⟩ := mem_map.mp hnew
      obtain ⟨order, hlt, rfl⟩ := mem_mapIdx.mp hrule'
      obtain ⟨hin, hother⟩ := mem_filter.mp hrule
      obtain ⟨id', howner⟩ := h.owners rule hin
      have howner' : id.toInt = (rule .route_profile_id).getInt64 := congrArg (fun key => (ofLex key).1) hkey
      rw [howner] at howner' hother
      exact of_decide_eq_true hother (congrArg Cell.integer howner'.symm)

end Waterdisco.RoutesRepo
