import Waterdisco.Engine.SettingsPut

/-!
# What a run of calls keeps

A call that is refused leaves the settings; one that is not writes its patch, which is what
the call asks for over the shown values.  The port and exposure rules are checked over the
pending values, so what they exclude stays excluded over a run.

    Values after = Values before, overlaid with the entries          (Accepted.values)
    no two listeners in use share a port, before → after             (Accepted.apart)
    the Clash API is guarded, before → after                         (Accepted.guarded)
    over a run of calls                                              (settings_contract)
-/

namespace Waterdisco.SettingsRegistry

open List Option Function Patch

/-! ## Calls that are not refused -/

/-- An accepted call, with the patch that its entries gathered. -/
structure Accepted (env : Env) (before : Settings) (call : Call) (pending : Patch) : Prop where
  gathered : Gathered env before call.patch { settings := before } pending
  ports : portConflict env pending = none
  exposure : clashExposure env pending before = none
  settings : (Put env before call).settings = ((fillNtpInterval pending).commit before).1
  changed : ∀ name, name ∈ (Put env before call).changed ↔ name ∈ ((fillNtpInterval pending).commit before).2

variable {env : Env} {before : Settings} {call : Call} {pending : Patch}

/-- A call is refused and leaves the settings, or its patch is written. -/
theorem put_cases (env : Env) (before : Settings) (call : Call) :
    (∃ error, (Put env before call).error = some error ∧ (Put env before call).settings = before) ∨
      ((Put env before call).error = none ∧ ∃ pending, Accepted env before call pending) := by
  have refused : ∀ error, Put env before call = { settings := before, error := some error : Result } →
      ∃ error, (Put env before call).error = some error ∧ (Put env before call).settings = before := by
    intro error h
    rw [h]
    exact ⟨error, rfl, rfl⟩
  by_cases hexit : (before (.bool .prepare_exit) || before (.bool .noSave)) = true
  · left
    apply refused
    rw [Put, if_pos hexit]
  by_cases hediting : call.editing = true
  · left
    apply refused
    rw [Put, if_neg hexit, if_pos hediting]
  cases hcollect : collect env before call.patch { settings := before } with
  | error error =>
    left
    apply refused error
    rw [Put, if_neg hexit, if_neg hediting, hcollect]
  | ok pending =>
    have hgathered := collect_gathered call.distinct (ok_empty before) hcollect
    cases hports : portConflict env pending with
    | some problem =>
      left
      apply refused (badRequest problem)
      rw [Put, if_neg hexit, if_neg hediting, hcollect]
      dsimp only
      rw [hports]
    | none =>
      cases hexposure : clashExposure env pending before with
      | some problem =>
        left
        apply refused (badRequest problem)
        rw [Put, if_neg hexit, if_neg hediting, hcollect]
        dsimp only
        rw [hports, hexposure]
      | none =>
        by_cases hproxy : (call.context.systemProxyOn && pending.changes (.bool .disable_mixed_inbound) &&
            pending.value (.bool .disable_mixed_inbound)) = true
        · left
          apply refused ⟨409, "mixed_inbound_disabled",
            "The system proxy needs Throne's mixed inbound; turn the system proxy off first"⟩
          rw [Put, if_neg hexit, if_neg hediting, hcollect]
          dsimp only
          rw [hports, hexposure]
          exact if_pos hproxy
        · right
          by_cases hempty : ((fillNtpInterval pending).commit before).2.isEmpty = true
          · have hput : Put env before call = { settings := ((fillNtpInterval pending).commit before).1 } := by
              rw [Put, if_neg hexit, if_neg hediting, hcollect]
              dsimp only
              rw [hports, hexposure]
              exact (if_neg hproxy).trans (if_pos hempty)
            refine ⟨by rw [hput], pending, hgathered, hports, hexposure, by rw [hput], fun name => ?_⟩
            rw [hput, isEmpty_iff.mp hempty]
          have hput : (Put env before call).error = none ∧
              (Put env before call).settings = ((fillNtpInterval pending).commit before).1 ∧
              (Put env before call).changed =
                ((fillNtpInterval pending).commit before).2.mergeSort fun a b => !decide (utf16 b < utf16 a) := by
            rw [Put, if_neg hexit, if_neg hediting, hcollect]
            dsimp only
            rw [hports, hexposure]
            rw [if_neg hproxy, if_neg hempty]
            exact ⟨rfl, rfl, rfl⟩
          refine ⟨hput.1, pending, hgathered, hports, hexposure, hput.2.1, fun name => ?_⟩
          rw [hput.2.2]
          exact (mergeSort_perm _ _).mem_iff

/-! ## The interval that the core needs -/

/-- The call leaves NTP on, and changes it or the interval, which is empty. -/
def Patch.Fills (p : Patch) : Prop :=
  ("ntp_enabled" ∈ p.keys ∨ "ntp_interval" ∈ p.keys) ∧ p.value (.bool .enable_ntp) = true ∧
    p.value (.string .ntp_interval) = ""

instance (p : Patch) : Decidable p.Fills := inferInstanceAs (Decidable (_ ∧ _))

variable {m : Member} {k : Key} {s : Settings} (p : Patch)

theorem fillNtpInterval_eq :
    fillNtpInterval p = if p.Fills then p.set "ntp_interval" (.string .ntp_interval) "30m" else p := by
  have hiff : (((p.touches "ntp_enabled" || p.touches "ntp_interval") && p.value (.bool .enable_ntp)) &&
      (p.value (.string .ntp_interval) : String).isEmpty) = true ↔ p.Fills := by
    rw [Bool.and_eq_true, Bool.and_eq_true, Bool.or_eq_true, and_assoc]
    refine and_congr ?_ (and_congr Iff.rfl String.isEmpty_iff)
    exact or_congr decide_eq_true_iff decide_eq_true_iff
  by_cases h : p.Fills
  · rw [if_pos h]
    exact if_pos (hiff.mpr h)
  · rw [if_neg h]
    exact if_neg fun hon => h (hiff.mp hon)

theorem fill_value (m : Member) :
    (fillNtpInterval p).value m =
      if p.Fills then update p.value (.string .ntp_interval) "30m" m else p.value m := by
  rw [fillNtpInterval_eq]
  split
  · rw [value_set]
  · rfl

/-- No other member is written with it. -/
theorem fill_value_of_ne (h : m ≠ .string .ntp_interval) : (fillNtpInterval p).value m = p.value m := by
  rw [fill_value]
  split
  · exact update_of_ne h _ _
  · rfl

theorem fill_ok {p : Patch} (h : p.Ok) : (fillNtpInterval p).Ok := by
  rw [fillNtpInterval_eq]
  split
  · exact h.set rfl _
  · exact h

theorem fill_settings : (fillNtpInterval p).settings = p.settings := by
  rw [fillNtpInterval_eq]
  split <;> rfl

variable (h : Accepted env before call pending)

include h in
theorem Accepted.after : (Put env before call).settings = (fillNtpInterval pending).value := by
  have hcommit := (commit_spec (fill_ok h.gathered.ok)).1
  rw [fill_settings, h.gathered.stored] at hcommit
  rw [h.settings]
  exact hcommit

include h in
/-- **The keys that a call reports** are those under which a stored setting changed. -/
theorem Accepted.mem_changed (name : String) :
    name ∈ (Put env before call).changed ↔ ∃ m, owner m = some name ∧ (Put env before call).settings m ≠ before m := by
  have hcommit := (commit_spec (fill_ok h.gathered.ok)).2 name
  rw [fill_settings, h.gathered.stored] at hcommit
  rw [h.changed, h.after]
  exact hcommit

/-! ## What the call leaves in the shown values -/

/-- An entry that is given and is not the value that is shown. -/
def differs (shown entries : Members Json) (name : String) : Bool :=
  match valueAt entries name, valueAt shown name with
  | some v, some current => !(v.isNull || sameValue v current)
  | _, _ => false

/-- The value of a key under the entries of a call. -/
def entered (shown entries : Members Json) (name : String) : Option Json :=
  if differs shown entries name then (valueAt entries name).map normal else valueAt shown name

/-- The shown values overlaid with the entries of a call: a changed NTP that is on needs an interval. -/
def overlaid (shown entries : Members Json) (name : String) : Option Json :=
  if name = "ntp_interval" ∧ (differs shown entries "ntp_enabled" ∨ differs shown entries "ntp_interval") ∧
      (entered shown entries "ntp_enabled").any (sameValue (.bool true)) ∧
        (entered shown entries "ntp_interval").any (sameValue (.str "")) then
    some (.str "30m")
  else entered shown entries name

theorem differs_values (hk : k ∈ keys env) (entries : Members Json) :
    differs (Values env before) entries k.name = (asked before k entries).isSome := by
  rw [differs, valueAt_values, findKey_of_mem hk, asked]
  cases valueAt entries k.name with
  | none => rfl
  | some v =>
    show (!(v.isNull || sameValue v (k.get before))) = _
    rw [filter_some]
    cases v.isNull || sameValue v (k.get before) <;> rfl

include h in
theorem Accepted.entered_get (hk : k ∈ keys env) :
    entered (Values env before) call.patch k.name = some (k.get pending.value) := by
  rw [entered, differs_values hk, valueAt_values, findKey_of_mem hk]
  cases hask : asked before k call.patch with
  | none =>
    obtain ⟨hvalue, -⟩ := h.gathered.kept k hk hask
    exact congrArg some ((keys_lawful env k hk).get_congr _ _ hvalue).symm
  | some v =>
    obtain ⟨hread, -⟩ := h.gathered.written k hk v hask
    have hentry : valueAt call.patch k.name = some v := by
      rw [asked] at hask
      exact (filter_eq_some_iff.mp hask).1
    rw [hentry, hread]
    rfl

include h in
theorem Accepted.differs_iff (hk : k ∈ keys env) :
    differs (Values env before) call.patch k.name = true ↔ k.name ∈ pending.keys := by
  rw [differs_values hk, isSome_iff_exists]
  constructor
  · rintro ⟨v, hask⟩
    exact (h.gathered.written k hk v hask).2
  intro hin
  cases hask : asked before k call.patch with
  | none => exact absurd ((h.gathered.kept k hk hask).2 hin) not_mem_nil
  | some v => exact ⟨v, rfl⟩

theorem ntpEnabled_mem (env : Env) : boolKey "ntp_enabled" .enable_ntp .Profile {} false ∈ keys env := by
  apply mem_append_right
  simp only [mem_cons, true_or, or_true]

theorem ntpInterval_mem (env : Env) : ∃ valid rule,
    stringKey "ntp_interval" .ntp_interval .Profile {} valid rule ∈ keys env := by
  refine ⟨env.duration, "must be a duration such as 30m or 1h (units ns, us, ms, s, m, h, d)", ?_⟩
  apply mem_append_right
  simp only [mem_cons, true_or, or_true]

include h in
/-- **The values after a call** are the values before it, overlaid with its entries. -/
theorem Accepted.values (name : String) :
    valueAt (Values env (Put env before call).settings) name = overlaid (Values env before) call.patch name := by
  obtain ⟨valid, rule, hinterval⟩ := ntpInterval_mem env
  have hon := ntpEnabled_mem env
  have hfills : (name = "ntp_interval" ∧ (differs (Values env before) call.patch "ntp_enabled" = true ∨
      differs (Values env before) call.patch "ntp_interval" = true) ∧
      (entered (Values env before) call.patch "ntp_enabled").any (sameValue (.bool true)) = true ∧
      (entered (Values env before) call.patch "ntp_interval").any (sameValue (.str "")) = true) ↔
        name = "ntp_interval" ∧ pending.Fills := by
    have hEntered := h.entered_get hon
    have hEntered' := h.entered_get hinterval
    have hDiffers := h.differs_iff hon
    have hDiffers' := h.differs_iff hinterval
    simp only [boolKey, stringKey] at hEntered hEntered' hDiffers hDiffers'
    rw [hEntered, hEntered', hDiffers, hDiffers']
    refine and_congr_right fun _ => and_congr_right fun _ => and_congr ?_ ?_
    · exact beq_iff_eq.trans eq_comm
    · exact beq_iff_eq.trans eq_comm
  rw [overlaid, if_congr hfills rfl rfl, valueAt_values, h.after]
  cases hfind : findKey env name with
  | none =>
    have hname : name ≠ "ntp_interval" := by
      rintro rfl
      exact absurd (findKey_of_mem hinterval) (by rw [show (stringKey "ntp_interval" .ntp_interval .Profile {} valid rule).name = "ntp_interval" from rfl, hfind]; nofun)
    rw [if_neg fun hboth => hname hboth.1, entered]
    have hshown : valueAt (Values env before) name = none := by rw [valueAt_values, hfind]; rfl
    have hsame : differs (Values env before) call.patch name = false := by
      rw [differs, hshown]
      cases valueAt call.patch name <;> rfl
    rw [hsame, hshown]
    rfl
  | some k =>
    obtain ⟨hk, rfl⟩ := findKey_some hfind
    show some (k.get (fillNtpInterval pending).value) = _
    by_cases hname : k.name = "ntp_interval"
    · obtain rfl := key_unique hk hinterval hname
      by_cases hfill : pending.Fills
      · rw [if_pos ⟨hname, hfill⟩]
        show some (Json.str ((fillNtpInterval pending).value (.string .ntp_interval))) = _
        rw [fill_value, if_pos hfill, update_self]
      · rw [if_neg fun hboth => hfill hboth.2, h.entered_get hinterval, fillNtpInterval_eq, if_neg hfill]
    · rw [if_neg fun hboth => hname hboth.1, h.entered_get hk]
      refine congrArg some ((keys_lawful env k hk).get_congr _ _ fun m howner => fill_value_of_ne pending ?_)
      rintro rfl
      exact hname (some.inj howner).symm

/-! ## Sending the values back -/

theorem collect_skip {entries : Members Json} {p : Patch}
    (h : ∀ entry ∈ entries, ∃ k, findKey env entry.1 = some k ∧
      (entry.2.isNull || sameValue entry.2 (k.get before)) = true) :
    collect env before entries p = .ok p := by
  induction entries with
  | nil => rfl
  | cons entry entries ih =>
    rw [forall_mem_cons] at h
    obtain ⟨k, hfind, hskip⟩ := h.1
    rw [collect, hfind]
    exact (if_pos hskip).trans (ih h.2)

/-- A call whose entries are all skipped writes nothing. -/
theorem put_skip (hexit : before (.bool .prepare_exit) = false) (hsave : before (.bool .noSave) = false)
    (hediting : call.editing = false)
    (h : ∀ entry ∈ call.patch, ∃ k, findKey env entry.1 = some k ∧
      (entry.2.isNull || sameValue entry.2 (k.get before)) = true) :
    Put env before call = { settings := before } := by
  have hchanges : ∀ m, changes { settings := before } m = false := fun m => decide_eq_false fun hne => hne rfl
  have hports : portConflict env { settings := before } = none := by
    rw [portConflict, findSome?_eq_none_iff]
    intro user _
    rw [reenabled, hchanges, hchanges, hchanges]
    simp
  have hproxy : ¬(call.context.systemProxyOn && changes { settings := before } (.bool .disable_mixed_inbound) &&
      value { settings := before } (.bool .disable_mixed_inbound)) = true := by
    rw [hchanges]
    simp
  rw [Put, hexit, hsave, hediting, collect_skip h]
  dsimp only
  rw [hports]
  exact if_neg hproxy

theorem values_skipped (env : Env) (s : Settings) :
    ∀ entry ∈ Values env s, ∃ k, findKey env entry.1 = some k ∧
      (entry.2.isNull || sameValue entry.2 (k.get s)) = true := by
  intro entry hentry
  have hvalue := valueAt_of_mem (values_distinct env s) hentry
  rw [valueAt_values] at hvalue
  cases hfind : findKey env entry.1 with
  | none =>
    rw [hfind] at hvalue
    cases hvalue
  | some k =>
    rw [hfind] at hvalue
    refine ⟨k, rfl, ?_⟩
    rw [← some.inj hvalue, (keys_lawful env k (findKey_some hfind).1).same, Bool.or_true]

/-! ## Ports -/

/-- No two listeners in use share a port, the one of the Throne API included. -/
def Apart (env : Env) (s : Settings) : Prop :=
  (∀ u ∈ users, ∀ v ∈ users, u.member ≠ v.member → inUse s u = true → inUse s v = true →
    (s (.int u.member) : Int) ≠ s (.int v.member)) ∧
    (env.apiEnabled = true → ∀ u ∈ users, inUse s u = true → (s (.int u.member) : Int) ≠ env.apiPort)

/-- Ports and flags are all that counts. -/
theorem Apart.congr {s' : Settings} (hint : ∀ m, s (.int m) = s' (.int m)) (hbool : ∀ m, s (.bool m) = s' (.bool m))
    (h : Apart env s) : Apart env s' := by
  have huse : ∀ u, inUse s' u = inUse s u := by
    intro u
    rw [inUse, inUse, mixedOn, mixedOn, hint, hbool, hbool]
  constructor
  · intro u hu v hv hne
    rw [huse, huse, ← hint, ← hint]
    exact h.1 u hu v hv hne
  · intro hapi u hu
    rw [huse, ← hint]
    exact h.2 hapi u hu

theorem holder_eq_none {u : PortUser} (h : holder env s u = none) :
    (∀ v ∈ users, v.member ≠ u.member → inUse s v = true → (s (.int v.member) : Int) ≠ s (.int u.member)) ∧
      (env.apiEnabled = true → (s (.int u.member) : Int) ≠ env.apiPort) := by
  rw [holder] at h
  split at h
  · cases h
  rename_i hnone
  rw [find?_eq_none] at hnone
  constructor
  · intro v hv hne huse heq
    apply hnone v hv
    rw [huse, decide_eq_true hne, decide_eq_true heq]
    rfl
  · intro hapi heq
    rw [hapi, decide_eq_true heq] at h
    cases h

include h

theorem Accepted.port {u : PortUser} (hu : u ∈ users) (huse : inUse pending.value u = true) :
    holder env pending.value u = none ∨
      (inUse before u = true ∧ (before (.int u.member) : Int) = pending.value (.int u.member)) := by
  have hstored := h.gathered.stored
  have hpos : (0 : Int) < pending.value (.int u.member) := of_decide_eq_true (Bool.and_eq_true_iff.mp huse).1
  have hchecked := findSome?_eq_none_iff.mp h.ports u hu
  by_cases hcheck : (!pending.changes (.int u.member) && !reenabled pending u) = true
  · right
    rw [Bool.and_eq_true, Bool.not_eq_true', Bool.not_eq_true'] at hcheck
    obtain ⟨hsame, hoff⟩ := hcheck
    have hport : (before (.int u.member) : Int) = pending.value (.int u.member) := by
      have heq := of_decide_eq_false hsame
      rw [hstored, not_not] at heq
      exact heq.symm
    refine ⟨?_, hport⟩
    rw [inUse, Bool.and_eq_true] at huse ⊢
    rw [hport]
    refine ⟨huse.1, ?_⟩
    by_cases hmixed : u.member = .inbound_socks_port
    · have hon : mixedOn pending.value = true := by simpa [hmixed] using huse.2
      rw [reenabled, hon, hsame, decide_eq_true hmixed] at hoff
      have hflags : pending.changes (.bool .disable_mixed_inbound) = false ∧
        pending.changes (.bool .random_inbound_port) = false := by
        simpa using hoff
      have hbefore : mixedOn before = mixedOn pending.value := by
        have hdisable := of_decide_eq_false hflags.1
        have hrandom := of_decide_eq_false hflags.2
        rw [hstored, not_not] at hdisable hrandom
        rw [mixedOn, mixedOn, hdisable, hrandom]
      rw [hbefore, hon, Bool.or_true]
    · rw [decide_eq_true hmixed, Bool.true_or]
  · left
    rw [if_neg hcheck] at hchecked
    rwa [if_neg (Int.not_le.mpr hpos), map_eq_none_iff] at hchecked

theorem Accepted.after_of_ne (hm : m ≠ .string .ntp_interval) :
    (Put env before call).settings m = pending.value m := by
  rw [h.after, fill_value_of_ne pending hm]

/-- **The ports after a call** are apart when they were before it. -/
theorem Accepted.apart (hbefore : Apart env before) :
    Apart env (Put env before call).settings := by
  apply Apart.congr (s := pending.value)
  · exact fun m => (h.after_of_ne (m := .int m) fun heq => (by cases heq)).symm
  · exact fun m => (h.after_of_ne (m := .bool m) fun heq => (by cases heq)).symm
  constructor
  · intro u hu v hv hne hinU hinV
    rcases h.port hu hinU with hnone | ⟨hwasU, hportU⟩
    · exact fun heq => (holder_eq_none hnone).1 v hv (Ne.symm hne) hinV heq.symm
    rcases h.port hv hinV with hnone | ⟨hwasV, hportV⟩
    · exact (holder_eq_none hnone).1 u hu hne hinU
    · rw [← hportU, ← hportV]
      exact hbefore.1 u hu v hv hne hwasU hwasV
  · intro hapi u hu hinU
    rcases h.port hu hinU with hnone | ⟨hwasU, hportU⟩
    · exact (holder_eq_none hnone).2 hapi
    · rw [← hportU]
      exact hbefore.2 hapi u hu hwasU

/-! ## Exposure -/

/-- The Clash API is off, on an address of this host, or protected by a secret. -/
def Guarded (env : Env) (s : Settings) : Prop :=
  (s (.int .core_box_clash_api) : Int) ≤ 0 ∨ s (.string .core_box_clash_api_secret) ≠ "" ∨
    staysLocal env (s (.string .core_box_clash_listen_addr)) = true

/-- A key that the entries did not set keeps its members. -/
theorem Accepted.untouched (hk : k ∈ keys env) (hkey : k.name ∉ pending.keys)
    (howner : owner m = some k.name) : pending.value m = before m := by
  cases hask : asked before k call.patch with
  | none => exact (h.gathered.kept k hk hask).1 m howner
  | some v => exact absurd (h.gathered.written k hk v hask).2 hkey

omit h

theorem clash_mem (env : Env) :
    portOrOffKey "clash_api_port" .core_box_clash_api .Profile ∈ keys env ∧
      ∃ rule, stringKey "clash_listen_addr" .core_box_clash_listen_addr .Profile {} env.host rule ∈ keys env := by
  refine ⟨?_, "must be empty (127.0.0.1) or a host name or IP address, without a scheme, port or spaces", ?_⟩
  · rw [keys]
    apply mem_append_right
    simp only [mem_cons, true_or, or_true]
  · rw [keys]
    apply mem_append_right
    simp only [mem_cons, true_or, or_true]

include h in
/-- **The Clash API after a call** is guarded when it was before it. -/
theorem Accepted.guarded (hbefore : Guarded env before) :
    Guarded env (Put env before call).settings := by
  have hsecret : pending.value (.string .core_box_clash_api_secret) = before (.string .core_box_clash_api_secret) :=
    h.gathered.others _ fun _ _ => nofun
  rw [Guarded, h.after_of_ne (m := .int .core_box_clash_api) (by decide),
    h.after_of_ne (m := .string .core_box_clash_api_secret) (by decide),
    h.after_of_ne (m := .string .core_box_clash_listen_addr) (by decide), hsecret]
  obtain ⟨hapi, rule, haddress⟩ := clash_mem env
  have hexposure := h.exposure
  rw [clashExposure] at hexposure
  split at hexposure
  · rename_i huntouched
    have hkeys : "clash_api_port" ∉ pending.keys ∧ "clash_listen_addr" ∉ pending.keys := by
      simpa [Patch.touches] using huntouched
    have hport := h.untouched hapi hkeys.1 (m := .int .core_box_clash_api) rfl
    have haddr := h.untouched haddress hkeys.2 (m := .string .core_box_clash_listen_addr) rfl
    rw [hport, haddr]
    exact hbefore
  split at hexposure
  · rename_i hsafe
    exact hsafe.imp id .inl
  split at hexposure
  · rename_i hunsafe hon
    have haddr := of_decide_eq_false hon.2
    rw [h.gathered.stored, not_not] at haddr
    rw [haddr]
    exact .inr (hbefore.resolve_left (Int.not_le.mpr hon.1))
  · split at hexposure
    · rename_i hlocal
      exact .inr (.inr hlocal)
    · cases hexposure

/-! ## Runs -/

def run (env : Env) (s : Settings) (calls : List Call) : Settings :=
    calls.foldl (fun s call => (Put env s call).settings) s

theorem run_keeps {P : Settings → Prop} (hstep : ∀ s call pending, Accepted env s call pending →
      P s → P (Put env s call).settings)
    (calls : List Call) (h : P s) : P (run env s calls) := by
  induction calls generalizing s with
  | nil => exact h
  | cons call calls ih =>
    apply ih
    rcases put_cases env s call with ⟨_, -, hsame⟩ | ⟨-, pending, hput⟩
    · show P (Put env s call).settings
      rw [hsame]
      exact h
    · exact hstep s call pending hput h

/-- **The settings API**, over every run of calls. -/
theorem settings_contract (env : Env) (s : Settings) (calls : List Call) :
    (Apart env s → Apart env (run env s calls)) ∧
    (Guarded env s → Guarded env (run env s calls)) ∧
    (∀ call : Call, (Put env (run env s calls) call).error ≠ none →
      (Put env (run env s calls) call).settings = run env s calls) ∧
    (∀ call : Call, (Put env (run env s calls) call).error = none →
      (∀ name, valueAt (Values env (Put env (run env s calls) call).settings) name =
        overlaid (Values env (run env s calls)) call.patch name) ∧
      ∀ name, name ∈ (Put env (run env s calls) call).changed ↔
        ∃ m, owner m = some name ∧ (Put env (run env s calls) call).settings m ≠ run env s calls m) ∧
    ∀ call : Call, call.patch = Values env (run env s calls) → call.editing = false →
      run env s calls (.bool .prepare_exit) = false → run env s calls (.bool .noSave) = false →
      Put env (run env s calls) call = { settings := run env s calls } := by
  refine ⟨?_, ?_, fun call herror => ?_, fun call hsuccess => ?_, fun call hsame hediting hexit hsave => ?_⟩
  · exact run_keeps (fun _ _ _ h => h.apart) calls
  · exact run_keeps (fun _ _ _ h => h.guarded) calls
  · rcases put_cases env (run env s calls) call with ⟨_, -, hsame⟩ | ⟨hnone, -⟩
    · exact hsame
    · exact absurd hnone herror
  · rcases put_cases env (run env s calls) call with ⟨_, hsome, -⟩ | ⟨-, pending, hput⟩
    · rw [hsuccess] at hsome
      cases hsome
    · exact ⟨hput.values, hput.mem_changed⟩
  · exact put_skip hexit hsave hediting (hsame ▸ values_skipped env _)

/-! ## A stored text with a space -/

/-- A host whose checks accept everything. -/
def openEnv : Env where
  linux := true
  ip _ := true
  url _ := true
  cidrV4 _ := true
  cidrV6 _ := true
  host _ := true
  dnsAddress _ := true
  duration _ := true
  isLoopback _ := false
  apiEnabled := false
  apiPort := 0

/-- Settings with a log level that was stored untrimmed. -/
def spaced : Settings
  | .bool _ => false
  | .int _ => 0
  | .string .log_level => " info"
  | .string _ => ""

/-- Settings at the end of the program. -/
def exiting : Settings := update spaced (.bool .prepare_exit) true

def spacedCall : Call where
  patch := [("log_level", .str " info")]
  distinct := nodup_singleton _

/-- **An entry equal to the shown text** is not trimmed, and the values sent back while Throne exits are refused. -/
theorem spaced_kept :
    (Put openEnv spaced spacedCall).error = none ∧
    valueAt (Values openEnv (Put openEnv spaced spacedCall).settings) "log_level" ≠ some (normal (.str " info")) ∧
    (Put openEnv exiting { patch := Values openEnv exiting, distinct := values_distinct openEnv exiting }).error ≠ none := by
  have hput : Put openEnv spaced spacedCall = { settings := spaced } := by
    apply put_skip rfl rfl rfl
    intro entry hentry
    obtain rfl := mem_singleton.mp hentry
    exact ⟨_, rfl, by decide⟩
  refine ⟨rfl, ?_, ?_⟩
  · rw [valueAt_values]
    intro heq
    have htext : " info" = trimmed " info" := Json.str.inj (some.inj heq)
    exact absurd htext (by decide)
  · rw [Put]
    nofun

end Waterdisco.SettingsRegistry
