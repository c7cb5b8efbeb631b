import Waterdisco.Engine.SettingsRegistry

/-!
# What a call to Put does

Every key reads and writes members of its own (`owner`), so the entries of a call are
independent of each other, and the patch is followed through them one at a time.

    a key reads and writes members of its own only       (keys_lawful)
    the patch of a call holds what its entries ask for   (collect_gathered)
    a commit writes it and names the keys it changed     (commit_spec)
-/

namespace Waterdisco.SettingsRegistry

open List Patch
open Function (update update_of_ne update_self)

/-! ## Patches -/

section

variable {p : Patch}

theorem lookup_append (l l' : List Write) (m : Member) : lookup (l ++ l') m = (lookup l m).or (lookup l' m) := by
  induction l with
  | nil => rfl
  | cons w l ih =>
    rw [cons_append, lookup, lookup]
    split
    · rfl
    · exact ih

theorem lookup_filter_ne (l : List Write) (m m' : Member) :
    lookup (l.filter fun w => decide (w.member ≠ m)) m' = if m' = m then none else lookup l m' := by
  induction l with
  | nil => simp [lookup]
  | cons w l ih =>
    by_cases hw : w.member = m
    · rw [filter_cons_of_neg (by simpa using hw), ih, lookup]
      by_cases hm : m' = m
      · rw [if_pos hm, if_pos hm]
      · rw [if_neg hm, if_neg hm, dif_neg fun h => hm (h.symm.trans hw)]
    · rw [filter_cons_of_pos (by simpa using hw), lookup, lookup, ih]
      by_cases hm : m' = m
      · rw [if_pos hm, if_pos hm, dif_neg fun h => hw (h.trans hm)]
      · rw [if_neg hm, if_neg hm]

/-- The pending settings after a write. -/
theorem Patch.value_set (p : Patch) (key : String) (m : Member) (v : m.type) :
    (p.set key m v).value = update p.value m v := by
  funext m'
  rw [value, set]
  dsimp only
  rw [lookup_append, lookup_filter_ne]
  by_cases hm : m' = m
  · subst hm
    rw [if_pos rfl, update_self, lookup, dif_pos rfl]
    rfl
  rw [if_neg hm, update_of_ne hm, lookup, dif_neg (Ne.symm hm)]
  show ((lookup p.writes m').or none).getD _ = _
  rw [Option.or_none]
  rfl

@[simp] theorem Patch.settings_set (p : Patch) (key : String) (m : Member) (v : m.type) :
    (p.set key m v).settings = p.settings := rfl

theorem Patch.mem_keys_set (p : Patch) (key : String) (m : Member) (v : m.type) (name : String) :
    name ∈ (p.set key m v).keys ↔ name ∈ p.keys ∨ name = key := by
  show name ∈ (if key ∈ p.keys then p.keys else p.keys ++ [key]) ↔ _
  split
  · rename_i h
    exact ⟨.inl, fun hname => hname.elim id fun heq => heq ▸ h⟩
  · simp

/-- The key that a member belongs to. -/
def owner : Member → Option String
  | .bool .remember_enable => some "remember_enable"
  | .bool .disable_mixed_inbound => some "inbound_enabled"
  | .bool .random_inbound_port => some "inbound_port"
  | .bool .sub_respect_server_interval => some "sub_respect_server_interval"
  | .bool .kill_switch => some "kill_switch"
  | .bool .vpn_strict_route => some "tun_strict_route"
  | .bool .vpn_auto_redirect => some "tun_auto_redirect"
  | .bool .vpn_ipv6 => some "tun_ipv6"
  | .bool .core_dns_in_lan => some "dns_in_lan"
  | .bool .enable_ntp => some "ntp_enabled"
  | .bool .prepare_exit => none
  | .bool .noSave => none
  | .int .inbound_socks_port => some "inbound_port"
  | .int .test_concurrent => some "test_concurrency"
  | .int .url_test_timeout_ms => some "test_timeout_ms"
  | .int .sub_auto_update => some "sub_auto_update"
  | .int .route_auto_update => some "route_auto_update"
  | .int .vpn_mtu => some "tun_mtu"
  | .int .core_dns_in_port => some "dns_in_port"
  | .int .core_box_clash_api => some "clash_api_port"
  | .int .core_box_api_port => some "singbox_api_port"
  | .string .log_level => some "log_level"
  | .string .xray_log_level => some "xray_log_level"
  | .string .inbound_address => some "inbound_address"
  | .string .test_latency_url => some "test_url"
  | .string .vpn_tun_ipv4_cidr => some "tun_ipv4_cidr"
  | .string .vpn_tun_ipv6_cidr => some "tun_ipv6_cidr"
  | .string .core_box_clash_listen_addr => some "clash_listen_addr"
  | .string .core_box_clash_api_secret => none
  | .string .remote_dns => some "remote_dns"
  | .string .direct_dns => some "direct_dns"
  | .string .ntp_server_address => some "ntp_server"
  | .string .ntp_interval => some "ntp_interval"

/-- Each member is written once, under its key. -/
structure Patch.Ok (p : Patch) : Prop where
  nodup : (p.writes.map Write.member).Nodup
  owned : ∀ w ∈ p.writes, owner w.member = some w.key ∧ w.key ∈ p.keys

theorem Patch.Ok.set (h : p.Ok) {key : String} {m : Member} (hkey : owner m = some key)
    (v : m.type) : (p.set key m v).Ok := by
  constructor
  · show ((p.writes.filter (fun w : Write => decide (w.member ≠ m)) ++ [(⟨key, m, v⟩ : Write)]).map Write.member).Nodup
    rw [map_append, nodup_append]
    refine ⟨h.nodup.sublist (filter_sublist.map _), by simp, ?_⟩
    intro a ha b hb hab
    obtain ⟨w, hw, rfl⟩ := mem_map.mp ha
    have hne : w.member ≠ m := by simpa using (mem_filter.mp hw).2
    rw [map_cons, map_nil, mem_singleton] at hb
    exact hne (hab.trans hb)
  · intro w hw
    rcases mem_append.mp (show w ∈ p.writes.filter (fun w : Write => decide (w.member ≠ m)) ++
      [(⟨key, m, v⟩ : Write)] from hw) with hw | hw
    · obtain ⟨howner, hin⟩ := h.owned w (mem_filter.mp hw).1
      exact ⟨howner, (mem_keys_set p key m v _).mpr (.inl hin)⟩
    · obtain rfl := mem_singleton.mp hw
      exact ⟨hkey, (mem_keys_set p key m v _).mpr (.inr rfl)⟩

theorem Patch.ok_empty (settings : Settings) : Patch.Ok { settings := settings } := ⟨nodup_nil, nofun⟩

theorem lookup_of_mem {writes : List Write} (h : (writes.map Write.member).Nodup) {w : Write} (hw : w ∈ writes) :
    lookup writes w.member = some w.value := by
  induction writes with
  | nil => cases hw
  | cons w' writes ih =>
    rw [map_cons, nodup_cons] at h
    rw [lookup]
    rcases mem_cons.mp hw with rfl | hw
    · exact dif_pos rfl
    · rw [dif_neg fun heq : w'.member = w.member => h.1 (heq ▸ mem_map_of_mem hw), ih h.2 hw]

theorem lookup_eq_none {writes : List Write} {m : Member} : lookup writes m = none ↔ ∀ w ∈ writes, w.member ≠ m := by
  induction writes with
  | nil => exact iff_of_true rfl nofun
  | cons w writes ih =>
    rw [lookup, forall_mem_cons]
    split
    · rename_i h
      exact iff_of_false (Option.some_ne_none _) fun hall => hall.1 h
    rename_i h
    rw [ih]
    exact ⟨fun hall => ⟨h, hall⟩, And.right⟩

/-- What is written is the pending value of every member; the keys are those under which a member differs. -/
theorem commit_from (settings : Settings) {writes : List Write}
    (h : (writes.map Write.member).Nodup) (changed : List String) :
    let written := writes.foldl (fun (s : Settings × List String) w =>
      if s.1 w.member = w.value then s else (update s.1 w.member w.value, w.key :: s.2)) (settings, changed)
    (∀ m, written.1 m = (lookup writes m).getD (settings m)) ∧
      ∀ name, name ∈ written.2 ↔ name ∈ changed ∨ ∃ w ∈ writes, w.key = name ∧ settings w.member ≠ w.value := by
  induction writes generalizing settings changed with
  | nil => exact ⟨fun _ => rfl, fun name => by simp⟩
  | cons w writes ih =>
    rw [map_cons, nodup_cons] at h
    have hrest : lookup writes w.member = none := lookup_eq_none.mpr fun w' hw' heq => h.1 (heq ▸ mem_map_of_mem hw')
    have hapart : ∀ w' ∈ writes, w'.member ≠ w.member := lookup_eq_none.mp hrest
    rw [foldl_cons]
    by_cases hsame : settings w.member = w.value
    · rw [if_pos hsame]
      obtain ⟨hvalues, hkeys⟩ := ih settings h.2 changed
      refine ⟨fun m => ?_, fun name => ?_⟩
      · rw [hvalues, lookup]
        split
        · rename_i hm
          subst hm
          rw [hrest]
          exact hsame
        · rfl
      · rw [hkeys]
        simp only [mem_cons, or_and_right, exists_or, exists_eq_left]
        constructor
        · rintro (hin | hin)
          · exact .inl hin
          · exact .inr (.inr hin)
        rintro (hin | ⟨-, hne⟩ | hin)
        · exact .inl hin
        · exact absurd hsame hne
        · exact .inr hin
    rw [if_neg hsame]
    obtain ⟨hvalues, hkeys⟩ := ih (update settings w.member w.value) h.2 (w.key :: changed)
    refine ⟨fun m => ?_, fun name => ?_⟩
    · rw [hvalues, lookup]
      split
      · rename_i hm
        subst hm
        rw [hrest, Option.getD_none, update_self]
        rfl
      · rename_i hm
        rw [update_of_ne (Ne.symm hm)]
    · rw [hkeys, mem_cons]
      have hothers : (∃ w' ∈ writes, w'.key = name ∧ update settings w.member w.value w'.member ≠ w'.value) ↔
          ∃ w' ∈ writes, w'.key = name ∧ settings w'.member ≠ w'.value := by
        refine exists_congr fun w' => and_congr_right fun hw' => ?_
        rw [update_of_ne (hapart w' hw')]
      rw [hothers]
      simp only [mem_cons, or_and_right, exists_or, exists_eq_left]
      constructor
      · rintro ((rfl | hin) | hin)
        · exact .inr (.inl ⟨rfl, hsame⟩)
        · exact .inl hin
        · exact .inr (.inr hin)
      · rintro (hin | ⟨rfl, -⟩ | hin)
        · exact .inl (.inr hin)
        · exact .inl (.inl rfl)
        · exact .inr hin

theorem commit_spec (h : p.Ok) :
    (p.commit p.settings).1 = p.value ∧
      ∀ name, name ∈ (p.commit p.settings).2 ↔ ∃ m, owner m = some name ∧ p.value m ≠ p.settings m := by
  obtain ⟨hvalues, hkeys⟩ := commit_from p.settings h.nodup []
  refine ⟨funext hvalues, fun name => ?_⟩
  rw [commit]
  dsimp only
  rw [mem_filter, decide_eq_true_iff, hkeys]
  constructor
  · rintro ⟨-, hin | ⟨w, hw, rfl, hne⟩⟩
    · cases hin
    · refine ⟨w.member, (h.owned w hw).1, ?_⟩
      rw [value, lookup_of_mem h.nodup hw]
      exact Ne.symm hne
  · rintro ⟨m, howner, hne⟩
    cases hlookup : lookup p.writes m with
    | none =>
      rw [value, hlookup] at hne
      exact absurd rfl hne
    | some v =>
      have hex : ∃ w ∈ p.writes, w.member = m := by
        by_contra hnone
        rw [lookup_eq_none.mpr fun w hw heq => hnone ⟨w, hw, heq⟩] at hlookup
        cases hlookup
      obtain ⟨w, hw, rfl⟩ := hex
      obtain ⟨howner', hin⟩ := h.owned w hw
      obtain rfl := Option.some.inj (howner'.symm.trans howner)
      rw [value, lookup_of_mem h.nodup hw] at hne
      exact ⟨hin, .inr ⟨w, hw, rfl, Ne.symm hne⟩⟩

end

/-! ## Keys -/

def normal : Json → Json
  | .str text => .str (trimmed text)
  | value => value

/-- A key reads and writes members of its own, and reads back what it wrote. -/
structure Key.Lawful (k : Key) : Prop where
  get_congr : ∀ s s' : Settings, (∀ m, owner m = some k.name → s m = s' m) → k.get s = k.get s'
  set_other : ∀ v p m, owner m ≠ some k.name → (k.set v p).value m = p.value m
  get_set : ∀ v p, k.check v = none → k.get (k.set v p).value = normal v
  ok : ∀ v p, p.Ok → (k.set v p).Ok
  settings : ∀ v p, (k.set v p).settings = p.settings
  same : ∀ s, sameValue (k.get s) (k.get s) = true
  mem_keys : ∀ v p name, name ∈ (k.set v p).keys ↔ name ∈ p.keys ∨ name = k.name

section

variable {name : String} {restart : Restart} {effects : Effects}

theorem lawful_of_member {k : Key} {m : Member} (f : Json → Patch → m.type)
    (hset : ∀ v p, k.set v p = p.set k.name m (f v p))
    (howner : owner m = some k.name) (hget : ∀ s s' : Settings, s m = s' m → k.get s = k.get s')
    (hread : ∀ v p, k.check v = none → k.get (update p.value m (f v p)) = normal v)
    (hsame : ∀ s, sameValue (k.get s) (k.get s) = true) : k.Lawful where
  get_congr s s' h := hget s s' (h m howner)
  set_other v p m' h := by
    rw [hset, value_set, update_of_ne]
    rintro rfl
    exact h howner
  get_set v p h := by
    rw [hset, value_set]
    exact hread v p h
  ok v p h := by
    rw [hset]
    exact h.set howner _
  settings v p := by rw [hset, settings_set]
  same := hsame
  mem_keys v p name := by rw [hset, mem_keys_set]

theorem boolKey_lawful {m : BoolMember} (howner : owner (.bool m) = some name) (inverted : Bool) :
    (boolKey name m restart effects inverted).Lawful := by
  refine lawful_of_member (m := .bool m) (fun v _ =>
    if inverted then !v.toBool else v.toBool) (fun _ _ => rfl) howner ?_ ?_ fun _ => beq_self_eq_true _
  · intro s s' h
    show Json.bool (if inverted then !s (.bool m) else s (.bool m)) = .bool (if inverted then !s' (.bool m) else s' (.bool m))
    rw [h]
  intro v p h
  cases v with
  | bool b =>
    show Json.bool (if inverted then !update p.value (.bool m) _ (.bool m) else update p.value (.bool m) _ (.bool m)) = .bool b
    rw [update_self]
    cases inverted <;> simp [Json.toBool]
  | _ => cases h

theorem wholeNumber_eq {value : Json} {n : Int} (h : wholeNumber value = some n) : value = .num n ∧ toInt value = n := by
  have hread : toInt value = n := by rw [toInt, h, Option.getD_some]
  cases value with
  | num m =>
    rw [wholeNumber] at h
    split at h
    · cases h
      exact ⟨rfl, hread⟩
    · cases h
  | _ => cases h

theorem integerProblem_eq_none {value : Json} {min max : Int} (h : integerProblem name value min max = none) :
    ∃ n, value = .num n ∧ toInt value = n := by
  rw [integerProblem] at h
  cases hn : wholeNumber value with
  | none =>
    rw [hn] at h
    cases h
  | some n => exact ⟨n, wholeNumber_eq hn⟩

theorem intKey_lawful {m : IntMember} (howner : owner (.int m) = some name) (min max : Int) :
    (intKey name m min max restart effects).Lawful := by
  refine lawful_of_member (m := .int m) (fun v _ => toInt v) (fun _ _ => rfl) howner ?_ ?_ fun _ => beq_self_eq_true _
  · intro s s' h
    exact congrArg Json.num h
  intro v p h
  obtain ⟨n, rfl, hn⟩ := integerProblem_eq_none h
  show Json.num (update p.value (.int m) (toInt (.num n)) (.int m)) = .num n
  rw [update_self, hn]

theorem stringKey_lawful {m : StringMember} (howner : owner (.string m) = some name)
    (valid : String → Bool) (rule : String) :
    (stringKey name m restart effects valid rule).Lawful := by
  refine lawful_of_member (m := .string m) (fun v _ => trimmed v.toStr) (fun _ _ => rfl) howner ?_ ?_ fun _ => beq_self_eq_true _
  · intro s s' h
    exact congrArg Json.str h
  intro v p h
  cases v with
  | str text =>
    show Json.str (update p.value (.string m) (trimmed text) (.string m)) = .str (trimmed text)
    rw [update_self]
  | _ => cases h

theorem enumKey_lawful {m : StringMember} (howner : owner (.string m) = some name) (allowed : List String) :
    (enumKey name m restart allowed).Lawful := stringKey_lawful howner _ _

/-- A number from `low` on, or 0, for which `off` keeps the number aside. -/
theorem orOffKey_lawful {k : Key} {m : IntMember} {low : Int} {off : Int → Int} (howner : owner (.int m) = some k.name)
    (hget : ∀ s, k.get s = .num (if low ≤ s (.int m) then s (.int m) else 0))
    (hset : ∀ v p, k.set v p = p.set k.name (.int m) (if toInt v ≠ 0 then toInt v else off (p.value (.int m))))
    (hoff : ∀ stored, off stored < low)
    (hcheck : ∀ v n, wholeNumber v = some n → k.check v = none → n = 0 ∨ low ≤ n)
    (hwhole : ∀ v, k.check v = none → wholeNumber v ≠ none) :
    k.Lawful := by
  refine lawful_of_member _ hset howner (fun s s' h => by rw [hget, hget, h]) (fun v p h => ?_) fun s => by
    rw [hget]; exact beq_self_eq_true _
  obtain ⟨n, hn⟩ := Option.ne_none_iff_exists'.mp (hwhole v h)
  obtain ⟨rfl, hread⟩ := wholeNumber_eq hn
  rw [hget, update_self, hread]
  show Json.num _ = .num n
  by_cases hzero : n = 0
  · rw [if_neg (not_not_intro hzero), if_neg (Int.not_le.mpr (hoff _)), hzero]
  · rw [if_pos hzero, if_pos ((hcheck _ n hn h).resolve_left hzero)]

theorem autoUpdateOff_lt {fallback : Int} (h : kMinAutoUpdate ≤ fallback) (stored : Int) :
    autoUpdateOff stored fallback < kMinAutoUpdate := by
  have hmin : kMinAutoUpdate = 30 := rfl
  rw [autoUpdateOff]
  split_ifs <;> omega

theorem autoUpdateKey_lawful {m : IntMember} (howner : owner (.int m) = some name) {fallback : Int}
    (hfallback : kMinAutoUpdate ≤ fallback) :
    (autoUpdateKey name m fallback).Lawful := by
  refine orOffKey_lawful howner (fun _ => rfl) (fun _ _ => rfl) (autoUpdateOff_lt hfallback) (fun v n hn h => ?_) fun v h hn => ?_
  · simp only [autoUpdateKey, hn, ite_eq_right_iff, reduceCtorEq, imp_false] at h
    omega
  · simp [autoUpdateKey, hn] at h

theorem portOrOffKey_lawful {m : IntMember} (howner : owner (.int m) = some name) :
    (portOrOffKey name m restart).Lawful := by
  refine @orOffKey_lawful _ m 1 (fun stored =>
    if 0 < stored then -stored else stored) howner (fun _ => rfl) (fun _ _ => rfl)
    (fun stored => ?_) (fun v n hn h => ?_) fun v h hn => ?_
  · split_ifs <;> omega
  · simp only [portOrOffKey, hn, ite_eq_right_iff, reduceCtorEq, imp_false] at h
    omega
  · simp [portOrOffKey, hn] at h

end

theorem inboundPortKey_lawful : inboundPortKey.Lawful := by
  have hport : (intKey "inbound_port" .inbound_socks_port 1 65535 .Profile {}).Lawful := intKey_lawful rfl 1 65535
  have hvalue : ∀ v p, (inboundPortKey.set v p).value =
      update (update p.value (.int .inbound_socks_port) (toInt v)) (.bool .random_inbound_port) false := by
    intro v p
    show (((p.set "inbound_port" (.int .inbound_socks_port) (toInt v)).set "inbound_port" (.bool .random_inbound_port) false)).value = _
    rw [value_set, value_set]
  refine ⟨hport.get_congr, fun v p m h => ?_, fun v p h => ?_, fun v p h => ?_, fun _ _ => rfl,
    hport.same, fun v p name => ?_⟩
  · rw [hvalue, update_of_ne, update_of_ne]
    · rintro rfl
      exact h rfl
    · rintro rfl
      exact h rfl
  · obtain ⟨n, rfl, hn⟩ := integerProblem_eq_none h
    rw [hvalue]
    show Json.num (update (update p.value (.int .inbound_socks_port) (toInt (.num n))) (.bool .random_inbound_port) false
      (.int .inbound_socks_port)) = .num n
    have hne : Member.int .inbound_socks_port ≠ .bool .random_inbound_port := by decide
    rw [update_of_ne hne, update_self, hn]
  · exact (h.set rfl _).set rfl _
  · show name ∈ ((p.set "inbound_port" (.int .inbound_socks_port) (toInt v)).set "inbound_port" (.bool .random_inbound_port) false).keys ↔ _
    rw [mem_keys_set, mem_keys_set, or_assoc, or_self]
    rfl

theorem keys_lawful (env : Env) : ∀ k ∈ keys env, k.Lawful := by
  have hredirect : ∀ k ∈ (if env.linux then [boolKey "tun_auto_redirect" .vpn_auto_redirect .Tun { applyKillSwitch := true } false] else []),
      k.Lawful := by
    intro k hk
    split at hk
    · rw [mem_singleton.mp hk]
      exact boolKey_lawful rfl false
    · cases hk
  intro k hk
  rw [keys, mem_append, mem_append] at hk
  rcases hk with (hk | hk) | hk
  · simp only [mem_cons, not_mem_nil, or_false] at hk
    rcases hk with rfl | rfl | rfl | rfl | rfl | rfl | rfl | rfl | rfl | rfl | rfl | rfl | rfl | rfl
    · exact boolKey_lawful rfl false
    · exact enumKey_lawful rfl _
    · exact enumKey_lawful rfl _
    · exact boolKey_lawful rfl true
    · exact stringKey_lawful rfl _ _
    · exact inboundPortKey_lawful
    · exact stringKey_lawful rfl _ _
    · exact intKey_lawful rfl _ _
    · exact intKey_lawful rfl _ _
    · exact autoUpdateKey_lawful rfl (by decide)
    · exact boolKey_lawful rfl false
    · exact autoUpdateKey_lawful rfl (by decide)
    · exact boolKey_lawful rfl false
    · exact boolKey_lawful rfl false
  · exact hredirect k hk
  simp only [mem_cons, not_mem_nil, or_false] at hk
  rcases hk with rfl | rfl | rfl | rfl | rfl | rfl | rfl | rfl | rfl | rfl | rfl | rfl | rfl | rfl
  · exact intKey_lawful rfl _ _
  · exact boolKey_lawful rfl false
  · exact stringKey_lawful rfl _ _
  · exact stringKey_lawful rfl _ _
  · exact intKey_lawful rfl _ _
  · exact boolKey_lawful rfl false
  · exact portOrOffKey_lawful rfl
  · exact stringKey_lawful rfl _ _
  · exact portOrOffKey_lawful rfl
  · exact stringKey_lawful rfl _ _
  · exact stringKey_lawful rfl _ _
  · exact boolKey_lawful rfl false
  · exact stringKey_lawful rfl _ _
  · exact stringKey_lawful rfl _ _

theorem keys_names (env : Env) : ((keys env).map Key.name).Nodup := by
  have hnames : (keys env).map Key.name =
      ["remember_enable", "log_level", "xray_log_level", "inbound_enabled", "inbound_address",
       "inbound_port", "test_url",
        "test_concurrency", "test_timeout_ms", "sub_auto_update", "sub_respect_server_interval",
        "route_auto_update", "kill_switch",
        "tun_strict_route"] ++ (if env.linux then ["tun_auto_redirect"] else []) ++
      ["tun_mtu", "tun_ipv6", "tun_ipv4_cidr", "tun_ipv6_cidr", "dns_in_port", "dns_in_lan",
       "clash_api_port", "clash_listen_addr",
        "singbox_api_port", "remote_dns", "direct_dns", "ntp_enabled", "ntp_server", "ntp_interval"] := by
    rw [keys, map_append, map_append]
    cases env.linux <;> rfl
  rw [hnames]
  cases env.linux <;> decide

theorem findKey_some {env : Env} {name : String} {key : Key} (h : findKey env name = some key) :
    key ∈ keys env ∧ key.name = name := by
  refine ⟨mem_of_find?_eq_some h, ?_⟩
  have hname := find?_some (p := fun key : Key => key.name == name) h
  exact beq_iff_eq.mp hname

theorem key_unique {env : Env} {k k' : Key} (hk : k ∈ keys env) (hk' : k' ∈ keys env) (h : k.name = k'.name) : k = k' :=
  inj_on_of_nodup_map (keys_names env) hk hk' h

theorem findKey_of_mem {env : Env} {k : Key} (hk : k ∈ keys env) : findKey env k.name = some k := by
  cases hfind : findKey env k.name with
  | none => exact absurd (beq_self_eq_true k.name) (find?_eq_none.mp hfind k hk)
  | some key =>
    obtain ⟨hkey, hname⟩ := findKey_some hfind
    rw [key_unique hkey hk hname]

/-! ## The entries of a call -/

/-- The value that an entry asks for: one that is given and is not the one that is shown. -/
def asked (settings : Settings) (k : Key) (entries : Members Json) : Option Json :=
  (valueAt entries k.name).filter fun v => !(v.isNull || sameValue v (k.get settings))

/-- The patch after the entries of a call. -/
structure Gathered (env : Env) (settings : Settings) (entries : Members Json) (p p' : Patch) : Prop where
  ok : p'.Ok
  stored : p'.settings = p.settings
  kept : ∀ k ∈ keys env, asked settings k entries = none →
    (∀ m, owner m = some k.name → p'.value m = p.value m) ∧ (k.name ∈ p'.keys → k.name ∈ p.keys)
  written : ∀ k ∈ keys env, ∀ v, asked settings k entries = some v → k.get p'.value = normal v ∧ k.name ∈ p'.keys
  grows : ∀ name ∈ p.keys, name ∈ p'.keys
  others : ∀ m, (∀ k ∈ keys env, owner m ≠ some k.name) → p'.value m = p.value m

section

variable {env : Env} {settings : Settings} {entries : Members Json} {p p' : Patch}

theorem asked_cons_self {k : Key} {v : Json} :
    asked settings k ((k.name, v) :: entries) = if v.isNull || sameValue v (k.get settings) then none else some v := by
  rw [asked, valueAt, find?_cons, beq_self_eq_true]
  show Option.filter _ (some v) = _
  rw [Option.filter_some]
  cases v.isNull || sameValue v (k.get settings) <;> rfl

theorem asked_cons_ne {k : Key} {name : String} (h : name ≠ k.name) (v : Json) :
    asked settings k ((name, v) :: entries) = asked settings k entries := by
  rw [asked, asked, valueAt, find?_cons, beq_false_of_ne h]
  rfl

theorem asked_eq_none {k : Key} (h : k.name ∉ keysOf entries) : asked settings k entries = none := by
  rw [asked, valueAt_eq_none.mpr h]
  rfl

theorem gathered_skip {key : Key} (hkey : key ∈ keys env) {v : Json}
    (hskip : (v.isNull || sameValue v (key.get settings)) = true)
    (hnew : key.name ∉ keysOf entries) (h : Gathered env settings entries p p') :
    Gathered env settings ((key.name, v) :: entries) p p' := by
  have hsame : ∀ k ∈ keys env, asked settings k ((key.name, v) :: entries) = asked settings k entries := by
    intro k hk
    by_cases hname : key.name = k.name
    · obtain rfl := key_unique hkey hk hname
      rw [asked_cons_self, if_pos hskip, asked_eq_none hnew]
    · exact asked_cons_ne hname v
  exact {
    ok := h.ok
    stored := h.stored
    kept := fun k hk => hsame k hk ▸ h.kept k hk
    written := fun k hk => hsame k hk ▸ h.written k hk
    grows := h.grows
    others := h.others }

theorem gathered_set {key : Key} (hkey : key ∈ keys env) {v : Json}
    (hask : ¬(v.isNull || sameValue v (key.get settings)) = true)
    (hcheck : key.check v = none) (hnew : key.name ∉ keysOf entries)
    (h : Gathered env settings entries (key.set v p) p') :
    Gathered env settings ((key.name, v) :: entries) p p' := by
  have hlaw := keys_lawful env key hkey
  have hmem := hlaw.mem_keys v p
  constructor
  · exact h.ok
  · rw [h.stored, hlaw.settings]
  · intro k hk hnone
    have hname : key.name ≠ k.name := by
      intro hname
      obtain rfl := key_unique hkey hk hname
      rw [asked_cons_self, if_neg hask] at hnone
      cases hnone
    rw [asked_cons_ne hname] at hnone
    obtain ⟨hvalue, hin⟩ := h.kept k hk hnone
    refine ⟨fun m howner => ?_, fun hin' => ?_⟩
    · rw [hvalue m howner, hlaw.set_other]
      rw [howner]
      exact fun heq => hname (Option.some.inj heq).symm
    · exact ((hmem _).mp (hin hin')).resolve_right (Ne.symm hname)
  · intro k hk v' hsome
    by_cases hname : key.name = k.name
    · obtain rfl := key_unique hkey hk hname
      rw [asked_cons_self, if_neg hask] at hsome
      cases hsome
      obtain ⟨hvalue, -⟩ := h.kept key hkey (asked_eq_none hnew)
      exact ⟨(hlaw.get_congr _ _ hvalue).trans (hlaw.get_set v p hcheck), h.grows _ ((hmem _).mpr (.inr rfl))⟩
    · rw [asked_cons_ne hname] at hsome
      exact h.written k hk v' hsome
  · intro name hname
    exact h.grows name ((hmem name).mpr (.inl hname))
  · intro m hnone
    rw [h.others m hnone, hlaw.set_other v p m (hnone key hkey)]

theorem collect_gathered (hdistinct : (keysOf entries).Nodup) (hok : p.Ok)
    (h : collect env settings entries p = .ok p') :
    Gathered env settings entries p p' := by
  induction entries generalizing p with
  | nil =>
    rw [collect] at h
    obtain rfl := Except.ok.inj h
    exact ⟨hok, rfl, fun _ _ _ => ⟨fun _ _ => rfl, id⟩, fun _ _ _ heq => (by cases heq), fun _ => id, fun _ _ => rfl⟩
  | cons entry entries ih =>
    obtain ⟨name, v⟩ := entry
    rw [keysOf_cons, nodup_cons] at hdistinct
    rw [collect] at h
    cases hfind : findKey env name with
    | none =>
      rw [hfind] at h
      cases h
    | some key =>
      obtain ⟨hkey, rfl⟩ := findKey_some hfind
      rw [hfind] at h
      dsimp only at h
      split at h
      · rename_i hskip
        exact gathered_skip hkey hskip hdistinct.1 (ih hdistinct.2 hok h)
      rename_i hask
      split at h
      · cases h
      · rename_i hcheck
        exact gathered_set hkey hask hcheck hdistinct.1 (ih hdistinct.2 ((keys_lawful env key hkey).ok v p hok) h)

end

/-! ## The values that are shown -/

theorem valueAt_values (env : Env) (s : Settings) (name : String) :
    valueAt (Values env s) name = (findKey env name).map (·.get s) := by
  have hfold : ∀ ks : List Key, (ks.map Key.name).Nodup → ∀ o : Members Json, (∀ k ∈ ks, k.name ∉ keysOf o) →
      valueAt (ks.foldl (fun values key => insertKey values key.name (key.get s)) o) name =
        ((ks.find? fun key => key.name == name).map (·.get s)).or (valueAt o name) := by
    intro ks hks
    induction ks with
    | nil => exact fun o _ => rfl
    | cons k ks ih =>
      intro o ho
      rw [map_cons, nodup_cons] at hks
      have hfresh : ∀ k' ∈ ks, k'.name ∉ keysOf (insertKey o k.name (k.get s)) := by
        intro k' hk' hin
        rw [← not_not (a := k'.name ∈ _), ← valueAt_eq_none, valueAt_insertKey] at hin
        have hne : k'.name ≠ k.name := fun heq => hks.1 (heq ▸ mem_map_of_mem hk')
        rw [if_neg hne] at hin
        exact hin (valueAt_eq_none.mpr (ho k' (.tail _ hk')))
      rw [foldl_cons, ih hks.2 _ hfresh, valueAt_insertKey, find?_cons]
      by_cases hname : k.name = name
      · subst hname
        have hnone : (ks.find? fun key => key.name == k.name) = none := by
          rw [find?_eq_none]
          exact fun k' hk' heq => hks.1 (beq_iff_eq.mp heq ▸ mem_map_of_mem hk')
        rw [hnone, if_pos rfl, beq_self_eq_true]
        rfl
      · rw [if_neg (Ne.symm hname), beq_false_of_ne hname]
  rw [Values, hfold _ (keys_names env) [] fun _ _ => not_mem_nil]
  show Option.or _ none = _
  rw [Option.or_none]
  rfl

theorem keysOf_insertKey_perm {V : Type} (o : Members V) {key : String} (h : key ∉ keysOf o) (value : V) :
    (keysOf (insertKey o key value)).Perm (key :: keysOf o) := by
  rw [insertKey, if_neg h, keysOf_append, keysOf_cons]
  refine perm_middle.trans (Perm.cons _ ?_)
  rw [← keysOf_append, takeWhile_append_dropWhile]

theorem values_distinct (env : Env) (s : Settings) : (keysOf (Values env s)).Nodup := by
  have hfold : ∀ (ks : List Key) (o : Members Json), (keysOf o).Nodup →
      (keysOf (ks.foldl (fun values key => insertKey values key.name (key.get s)) o)).Nodup := by
    intro ks
    induction ks with
    | nil => exact fun o ho => ho
    | cons k ks ih =>
      intro o ho
      rw [foldl_cons]
      apply ih
      by_cases h : k.name ∈ keysOf o
      · rw [insertKey, if_pos h, keysOf_replaceKey]
        exact ho
      · exact (keysOf_insertKey_perm o h _).nodup_iff.mpr (nodup_cons.mpr ⟨h, ho⟩)
  exact hfold _ [] nodup_nil

end Waterdisco.SettingsRegistry
