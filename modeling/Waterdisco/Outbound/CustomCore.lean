import Waterdisco.Outbound.CustomSingBox

/-!
# A foreign sing-box configuration as the core reads it

The core matches keys without regard to case and takes the last spelling.  Its type of an
outbound is therefore the last spelling of `type`, while the sanitiser looks at the one
spelled exactly so: an outbound with only `Type` is stripped of nothing.

    safe, nothing else lost, stable  ↔  every outbound that launches has the key `type`     (stripForeignState_singBox_iff)
-/

namespace Waterdisco.Custom

open List

/-! ## What the core would do -/

/-- The type the core takes an outbound or an inbound for. -/
def typeRead (o : Members Json) : String := (readNamed o "type").toStr

def sshRead (ssh : Json) : Bool := ssh.toBool || (readNamed ssh.toObject "enabled").toBool

/-- The core would start a program for this outbound or let tailnet peers in. -/
def launches (o : Members Json) : Bool :=
  if typeRead o == "tor" then
    notBlank (readNamed o "executable_path") || notBlank (readNamed o "extra_args") ||
      notBlank (readNamed o "data_directory") ||
      (readNamed o "torrc").toObject.any fun m => !isTorOptionName m.1 || isTorPluginOption m.1
  else if typeRead o == "openconnect" then
    ["csd", "hip", "tncc"].any fun name => notBlank (readNamed (readNamed o name).toObject "wrapper_path")
  else if typeRead o == "tailscale" then
    sshRead (readNamed o "ssh_server") || notBlank (readNamed o "taildrop_directory")
  else false

/-- A tun, or a local proxy without TLS on a loopback address. -/
def allowedInbound (isLoopback : String → Bool) (o : Members Json) : Bool :=
  typeRead o == "tun" ||
    (localTypes.contains (typeRead o) && isBlank (readNamed o "tls") &&
      (isBlank (readNamed o "listen") || isLoopback (readNamed o "listen").toStr))

/-- The outbounds and endpoints of a full configuration. -/
def outboundsRead (root : Members Json) : List Json :=
  (readNamed root "outbounds").toArray ++ (readNamed root "endpoints").toArray

/-- A full configuration that opens no port, writes no file and starts no program. -/
structure SafeConfig (isLoopback : String → Bool) (root : Members Json) : Prop where
  outbounds : ∀ x ∈ outboundsRead root, launches x.toObject = false
  inbounds : ∀ x ∈ (readNamed root "inbounds").toArray, allowedInbound isLoopback x.toObject = true
  services : isBlank (readNamed root "services") = true
  certificateProviders : isBlank (readNamed root "certificate_providers") = true
  logOutput : isBlank (readNamed (readNamed root "log").toObject "output") = true
  clashApi : isBlank (readNamed (readNamed root "experimental").toObject "clash_api") = true
  debugListen : isBlank (readNamed (readNamed (readNamed root "experimental").toObject "debug").toObject "listen") = true
  cachePath : isBlank (readNamed (readNamed (readNamed root "experimental").toObject "cache_file").toObject "path") = true
  pidFile : ∀ ns ∈ (readNamed root "network_namespaces").toArray, isBlank (readNamed ns.toObject "pid_file") = true

/-- What the core gets is safe. -/
def Safe (isLoopback : String → Bool) (full : Bool) (root : Members Json) : Prop :=
  if full then SafeConfig isLoopback root else launches root = false

/-! ## What may be lost -/

def namedLaunchers (x : Json) : Place := launchers (typeRead x.toObject)

/-- The named options of a full configuration, those of an outbound by the type the core takes it for. -/
def namedInConfig (isLoopback : String → Bool) : Place :=
  oneOf [within "inbounds" (itemsThat (foreignInbound isLoopback)), named "services" notBlank,
    named "certificate_providers" notBlank, within "log" (named "output" notBlank),
    within "experimental" (oneOf [named "clash_api" notBlank, within "debug" (named "listen" notBlank),
      within "cache_file" (named "path" notBlank)]),
    within "network_namespaces" (eachItem fun _ => named "pid_file" notBlank),
    within "outbounds" (eachItem namedLaunchers), within "endpoints" (eachItem namedLaunchers)]

/-- The options to be removed, by the kind of configuration. -/
def namedOptions (isLoopback : String → Bool) (full : Bool) (root : Members Json) : Place :=
  if full then namedInConfig isLoopback else launchers (typeRead root)

/-- Only values at some of the places are gone; every other key and value is as it was. -/
def OnlyLoses (L : Place) (before after : Members Json) : Prop :=
  ∃ M : Place, (∀ path value, M path value = true → L path value = true) ∧ after = pruneMembers M before

/-! ## When that is so -/

/-- The key `type` is there, spelled so, or the core finds nothing to start. -/
def Typed (o : Members Json) : Prop := "type" ∈ keysOf o ∨ launches o = false

/-- No V2Ray API that listens; the sanitiser takes one out as well. -/
def NoStatsApi (root : Members Json) : Prop :=
  ∀ m ∈ root, sameName m.1 "experimental" = true →
    ∀ api ∈ m.2.toObject, sameName api.1 "v2ray_api" = true → apiListens api.2 = false

/-- Every type stands where the sanitiser reads it. -/
def Stripped (full : Bool) (root : Members Json) : Prop :=
  if full then (∀ x ∈ outboundsRead root, Typed x.toObject) ∧ NoStatsApi root
  else usesSingBoxViaXray .outbound root = true ∨ Typed root

/-! ## One outbound -/

theorem mem_keysOf_iff {V : Type*} {o : Members V} {key : String} : key ∈ keysOf o ↔ (valueAt o key).isSome = true := by
  rw [valueAt, Option.isSome_map, find?_isSome]
  simp [keysOf]

variable {o : Members Json} {name : String}

theorem textAt_of_notMem {key : String} (h : key ∉ keysOf o) : textAt o key = "" := by
  rw [mem_keysOf_iff, Option.not_isSome_iff_eq_none] at h
  rw [textAt, h]
  rfl

/-- Small letters come last, so the key `type` is the one the core reads. -/
theorem typeRead_eq (hsorted : sortedKeys o) (hmem : "type" ∈ keysOf o) : typeRead o = textAt o "type" := by
  have hread := readNamed_last hsorted hmem (by decide)
  rw [mem_keysOf_iff, Option.isSome_iff_exists] at hmem
  obtain ⟨value, hvalue⟩ := hmem
  rw [typeRead, hread, textAt, hvalue]
  rfl

theorem blank_of_named (h : NoneLeft (named name notBlank) (.obj o)) :
    isBlank (readNamed o name) = true := by
  have hblank := noneLeft_named h rfl
  simpa [notBlank] using hblank

theorem notBlank_of_named (h : NoneLeft (named name notBlank) (.obj o)) :
    notBlank (readNamed o name) = false := noneLeft_named h rfl

theorem readNamed_of_someNamed {test : Json → Bool} (hnodup : (keysOf o).Nodup)
    (h : someNamed o name test = false) (hnull : test .null = false) : test (readNamed o name) = false := by
  refine readNamed_of_forall (P := fun value => test value = false) hnull fun m hm hname => ?_
  rw [someNamed, any_eq_false] at h
  have hkey : m.1 ∈ keysNamed o name := mem_filter.mpr ⟨mem_map.mpr ⟨m, hm, rfl⟩, hname⟩
  have hoff := h m.1 hkey
  rw [valueAt_of_mem hnodup hm] at hoff
  simpa using hoff

theorem sshRead_of_not_enabled {ssh : Json} (hnodup : (keysOf ssh.toObject).Nodup) (h : sshEnabled ssh = false) :
    sshRead ssh = false := by
  rw [sshEnabled, Bool.or_eq_false_iff] at h
  rw [sshRead, h.1, readNamed_of_someNamed hnodup h.2 rfl]
  rfl

theorem launches_tor (h : NoneLeft torPlaces (.obj o)) :
    (notBlank (readNamed o "executable_path") || notBlank (readNamed o "extra_args") ||
      notBlank (readNamed o "data_directory") ||
      (readNamed o "torrc").toObject.any fun m => !isTorOptionName m.1 || isTorPluginOption m.1) = false := by
  have hpath : NoneLeft (named "executable_path" notBlank) (.obj o) := NoneLeft.oneOf h (by simp)
  have hargs : NoneLeft (named "extra_args" notBlank) (.obj o) := NoneLeft.oneOf h (by simp)
  have hdata : NoneLeft (named "data_directory" notBlank) (.obj o) := NoneLeft.oneOf h (by simp)
  have htorrc : NoneLeft (within "torrc" (anyKey badTorOption)) (.obj o) := NoneLeft.oneOf h (by simp)
  have hoptions : ((readNamed o "torrc").toObject.any fun m => !isTorOptionName m.1 ||
    isTorPluginOption m.1) = false := by
    rw [any_eq_false]
    intro m hm
    simpa [badTorOption] using noneLeft_anyKey (noneLeft_within htorrc).toObject hm
  rw [notBlank_of_named hpath, notBlank_of_named hargs, notBlank_of_named hdata, hoptions]
  rfl

theorem launches_openconnect (h : NoneLeft openconnectPlaces (.obj o)) :
    (["csd", "hip", "tncc"].any fun name => notBlank (readNamed (readNamed o name).toObject "wrapper_path")) = false := by
  rw [any_eq_false]
  intro name hname
  have hsection : NoneLeft (within name (named "wrapper_path" notBlank)) (.obj o) := by
    refine NoneLeft.oneOf h ?_
    simp only [mem_cons, not_mem_nil, or_false] at hname
    rcases hname with rfl | rfl | rfl <;> simp
  simpa using notBlank_of_named (noneLeft_within hsection).toObject

theorem launches_tailscale (ho : proper (.obj o) = true) (h : NoneLeft tailscalePlaces (.obj o)) :
    (sshRead (readNamed o "ssh_server") || notBlank (readNamed o "taildrop_directory")) = false := by
  have hssh : NoneLeft (named "ssh_server" sshEnabled) (.obj o) := NoneLeft.oneOf h (by simp)
  have htaildrop : NoneLeft (named "taildrop_directory" notBlank) (.obj o) := NoneLeft.oneOf h (by simp)
  have hnodup : (keysOf (readNamed o "ssh_server").toObject).Nodup := by
    refine readNamed_of_forall (P := fun value => (keysOf value.toObject).Nodup) nodup_nil fun m hm _ => ?_
    exact (proper_obj_iff.mp (proper_toObject ((proper_obj_iff.mp ho).2 m hm))).1.nodup
  rw [sshRead_of_not_enabled hnodup (noneLeft_named hssh rfl), notBlank_of_named htaildrop]
  rfl

theorem launches_of_noneLeft (ho : proper (.obj o) = true)
    (h : NoneLeft (launchers (typeRead o)) (.obj o)) : launches o = false := by
  rw [launchers] at h
  rw [launches]
  split
  · rename_i htor
    rw [if_pos htor] at h
    exact launches_tor h
  rename_i htor
  rw [if_neg htor] at h
  split
  · rename_i hopen
    rw [if_pos hopen] at h
    exact launches_openconnect h
  rename_i hopen
  rw [if_neg hopen] at h
  split
  · rename_i htail
    rw [if_pos htail] at h
    exact launches_tailscale ho h
  · rfl

theorem launchers_untyped : launchers "" = oneOf [] := rfl

theorem prune_nothing (j : Json) : prune (oneOf []) j = j := prune_empty (fun _ _ _ => rfl) j

theorem pruneMembers_nothing (o : Members Json) : pruneMembers (oneOf []) o = o := by
  have hobj := prune_nothing (.obj o)
  exact Json.obj.inj hobj

/-- **One outbound**: stripped by its exact type, it launches nothing if and only if it is typed. -/
theorem launches_pruned_iff (ho : proper (.obj o) = true) :
    launches (pruneMembers (launchers (textAt o "type")) o) = false ↔ Typed o := by
  by_cases hmem : "type" ∈ keysOf o
  · have hclean : launches (pruneMembers (launchers (textAt o "type")) o) = false := by
      have hproper : proper (.obj (pruneMembers (launchers (textAt o "type")) o)) = true := proper_prune _ ho
      have hmem' : "type" ∈ keysOf (pruneMembers (launchers (textAt o "type")) o) := by
        rw [mem_keysOf_iff, valueAt_pruneMembers (launchers_other_key (by decide) _), ← mem_keysOf_iff]
        exact hmem
      have htype := typeRead_eq (proper_obj_iff.mp hproper).1 hmem'
      rw [textAt_pruneLaunchers] at htype
      refine launches_of_noneLeft hproper ?_
      rw [htype]
      exact noneLeft_of_removed (removed_prune (settled_launchers _).1 (.obj o))
    exact iff_of_true hclean (.inl hmem)
  · rw [textAt_of_notMem hmem, launchers_untyped, pruneMembers_nothing, Typed]
    simp [hmem]

/-! ## A full configuration -/

theorem typeRead_mem (hnodup : (keysOf o).Nodup) (h : keysNamed o "type" ≠ []) :
    typeRead o ∈ (keysNamed o "type").map (textAt o) := by
  obtain ⟨key, hkey⟩ := exists_mem_of_ne_nil _ h
  obtain ⟨hin, hname⟩ := mem_filter.mp hkey
  obtain ⟨m, hm, rfl⟩ := mem_map.mp hin
  have hsome : (spellings o "type").getLast? ≠ none := by
    rw [ne_eq, getLast?_eq_none_iff]
    intro hnil
    have hmem : m ∈ spellings o "type" := mem_filter.mpr ⟨hm, hname⟩
    rw [hnil] at hmem
    cases hmem
  obtain ⟨last, hlast⟩ := Option.ne_none_iff_exists'.mp hsome
  obtain ⟨hlastMem, hlastName⟩ := mem_filter.mp (mem_of_getLast? hlast)
  have hkeyLast : last.1 ∈ keysNamed o "type" := mem_filter.mpr ⟨mem_map.mpr ⟨last, hlastMem, rfl⟩, hlastName⟩
  refine mem_map.mpr ⟨last.1, hkeyLast, ?_⟩
  rw [textAt, valueAt_of_mem hnodup hlastMem, typeRead, readNamed, hlast]
  rfl

/-- An inbound whose spellings all agree is allowed whichever the core reads. -/
theorem allowedInbound_of_local {isLoopback : String → Bool} (hnodup : (keysOf o).Nodup)
    (h : isLocalSingBoxInbound isLoopback o = true) : allowedInbound isLoopback o = true := by
  rw [isLocalSingBoxInbound] at h
  split at h
  · cases h
  rename_i hsome
  have hmem : typeRead o ∈ (keysNamed o "type").map (textAt o) := by
    refine typeRead_mem hnodup fun hnil => hsome ?_
    rw [hnil]
    rfl
  rw [allowedInbound, Bool.or_eq_true]
  split at h
  · rename_i htun
    exact .inl (all_eq_true.mp htun _ hmem)
  split at h
  · cases h
  rename_i hlocal
  split at h
  · cases h
  rename_i htls
  split at h
  · cases h
  rename_i hlisten
  right
  have htype : localTypes.contains (typeRead o) = true := by
    rw [Bool.not_eq_true, Bool.not_eq_false'] at hlocal
    exact all_eq_true.mp hlocal _ hmem
  have hblank := readNamed_of_someNamed hnodup (by simpa using htls) rfl
  have hloop := readNamed_of_someNamed hnodup (by simpa using hlisten) rfl
  rw [Bool.and_eq_true, Bool.and_eq_true, Bool.or_eq_true]
  refine ⟨⟨htype, by simpa using hblank⟩, ?_⟩
  simp only [Bool.and_eq_false_iff, Bool.not_eq_false'] at hloop
  exact hloop

theorem toArray_prune_eachItem {L : Json → Place} (hroot : ∀ x value, L x [] value = false) (value : Json) :
    (prune (eachItem L) value).toArray = value.toArray.map fun x => prune (L x) x := by
  cases value with
  | arr items =>
    have hkeep : ∀ x ∈ items, prunedItem (eachItem L) x = (some ∘ fun x => prune (L x) x) x := by
      intro x _
      have hstay : eachItem L [.item x] x = false := hroot x x
      rw [prunedItem, hstay]
      rfl
    show pruneItems (eachItem L) items = items.map _
    rw [pruneItems_eq, filterMap_congr hkeep, filterMap_eq_map]
  | obj members => rfl
  | _ => rfl

section

variable {isLoopback : String → Bool} {root : Members Json}

theorem listed_outbounds {name : String} (h : name = "outbounds" ∨ name = "endpoints") {k : String}
    (hk : sameName k name = true) :
    (∀ value, listedInSingBoxConfig isLoopback [.key k] value = false) ∧
      (listedInSingBoxConfig isLoopback).after (.key k) = eachItem launchersOf := by
  have hother : ∀ other ∈ ["inbounds", "services", "certificate_providers", "log", "experimental", "network_namespaces"],
      sameName k other = false := by
    intro other hmem
    refine sameName_unique hk ?_
    rcases h with rfl | rfl <;> revert other <;> decide
  simp only [forall_mem_cons] at hother
  obtain ⟨hinbounds, hservices, hproviders, hlog, hexperimental, hnamespaces, -⟩ := hother
  have htwo : (sameName k "outbounds" || sameName k "endpoints") = true := by
    rcases h with rfl | rfl <;> simp [hk]
  constructor
  · intro value
    simp [listedInSingBoxConfig, oneOf, within, named, hservices, hproviders, eachItem, itemsThat, experimentalPlaces,
      hlog, hnamespaces]
  funext path value
  cases path with
  | nil =>
    simp [Place.after, listedInSingBoxConfig, oneOf, within, named, hservices, hproviders, eachItem, itemsThat,
      experimentalPlaces, hlog, hnamespaces]
  | cons s path =>
    simp only [Place.after, listedInSingBoxConfig, oneOf, within, named, hinbounds, hlog, hexperimental, hnamespaces,
      Bool.false_and, any_cons, any_nil, Bool.false_or, Bool.or_false, ← Bool.and_or_distrib_right, htwo,
      Bool.true_and]

theorem outboundsRead_pruned :
    outboundsRead (pruneMembers (listedInSingBoxConfig isLoopback) root) =
      (outboundsRead root).map fun x => prune (launchersOf x) x := by
  have hread : ∀ name, name = "outbounds" ∨ name = "endpoints" →
      (readNamed (pruneMembers (listedInSingBoxConfig isLoopback) root) name).toArray =
        (readNamed root name).toArray.map fun x => prune (launchersOf x) x := by
    intro name hname
    rw [readNamed_pruneMembers root (fun k value hk => (listed_outbounds hname hk).1 value)
      (fun k hk => (listed_outbounds hname hk).2)]
    exact toArray_prune_eachItem (fun x => (settled_launchers _).2.root) _
  rw [outboundsRead, hread _ (.inl rfl), hread _ (.inr rfl), outboundsRead, map_append]

variable (hroot : proper (.obj root) = true)

include hroot

theorem proper_of_read {name : String} {x : Json}
    (hx : x ∈ (readNamed root name).toArray) : proper x = true := by
  rcases readNamed_mem root name with hnull | ⟨m, hm, -, hread⟩
  · rw [hnull] at hx
    cases hx
  have hvalue := (proper_obj_iff.mp hroot).2 m hm
  rw [hread] at hx
  cases hv : m.2 with
  | arr items =>
    rw [hv, proper, properItems_iff] at hvalue
    rw [hv] at hx
    exact hvalue x hx
  | _ =>
    rw [hv] at hx
    cases hx

theorem launches_outbounds_iff :
    (∀ x ∈ outboundsRead (pruneMembers (listedInSingBoxConfig isLoopback) root), launches x.toObject = false) ↔
      ∀ x ∈ outboundsRead root, Typed x.toObject := by
  rw [outboundsRead_pruned, forall_mem_map]
  refine forall₂_congr fun x hx => ?_
  have hproper : proper x = true := by
    rcases mem_append.mp hx with hin | hin
    · exact proper_of_read hroot hin
    · exact proper_of_read hroot hin
  rw [toObject_prune]
  exact launches_pruned_iff (proper_toObject hproper)

theorem safeConfig_iff :
    SafeConfig isLoopback (pruneMembers (listedInSingBoxConfig isLoopback) root) ↔
      ∀ x ∈ outboundsRead root, Typed x.toObject := by
  refine ⟨fun h => (launches_outbounds_iff hroot).mp h.outbounds, fun h => ?_⟩
  have hnone : NoneLeft (listedInSingBoxConfig isLoopback) (.obj (pruneMembers (listedInSingBoxConfig isLoopback) root)) :=
    noneLeft_of_removed (removed_prune (cleaner_singBoxConfig isLoopback 0).settled (.obj root))
  have hproper : proper (.obj (pruneMembers (listedInSingBoxConfig isLoopback) root)) = true := proper_prune _ hroot
  generalize hroot' : pruneMembers (listedInSingBoxConfig isLoopback) root = root' at *
  have hinbounds : NoneLeft (within "inbounds" (itemsThat (foreignInbound isLoopback))) (.obj root') :=
    NoneLeft.oneOf hnone (by simp)
  have hlog : NoneLeft (within "log" (named "output" notBlank)) (.obj root') := NoneLeft.oneOf hnone (by simp)
  have hexperimental : NoneLeft (within "experimental" experimentalPlaces) (.obj root') := NoneLeft.oneOf hnone (by simp)
  have hnamespaces : NoneLeft (within "network_namespaces" (eachItem fun _ => named "pid_file" notBlank)) (.obj root') :=
    NoneLeft.oneOf hnone (by simp)
  have hinside := (noneLeft_within hexperimental).toObject
  have hdebug : NoneLeft (within "debug" (named "listen" notBlank)) (.obj (readNamed root' "experimental").toObject) :=
    NoneLeft.oneOf hinside (by simp)
  have hcache : NoneLeft (within "cache_file" (named "path" notBlank)) (.obj (readNamed root' "experimental").toObject) :=
    NoneLeft.oneOf hinside (by simp)
  exact {
    outbounds := hroot' ▸ (launches_outbounds_iff hroot).mpr h
    inbounds := by
      intro x hx
      have hlocal := noneLeft_itemsThat (noneLeft_within hinbounds) hx
      rw [foreignInbound, Bool.not_eq_false'] at hlocal
      have hx' := proper_toObject (proper_of_read hproper hx)
      exact allowedInbound_of_local (proper_obj_iff.mp hx').1.nodup hlocal
    services := blank_of_named (NoneLeft.oneOf hnone (by simp))
    certificateProviders := blank_of_named (NoneLeft.oneOf hnone (by simp))
    logOutput := blank_of_named (noneLeft_within hlog).toObject
    clashApi := blank_of_named (NoneLeft.oneOf hinside (by simp))
    debugListen := blank_of_named (noneLeft_within hdebug).toObject
    cachePath := blank_of_named (noneLeft_within hcache).toObject
    pidFile := fun ns hns => blank_of_named (noneLeft_eachItem (noneLeft_within hnamespaces) hns).toObject }

omit hroot

/-- A launcher that is listed belongs to an outbound with the key `type`, whose type the core reads the same. -/
theorem namedLaunchers_of_listed {x : Json} (hx : proper x = true) {path : List Step} {value : Json}
    (h : launchersOf x path value = true) : namedLaunchers x path value = true := by
  by_cases hmem : "type" ∈ keysOf x.toObject
  · rw [namedLaunchers, typeRead_eq (proper_obj_iff.mp (proper_toObject hx)).1 hmem]
    exact h
  · rw [launchersOf, textAt_of_notMem hmem, launchers_untyped] at h
    cases h

include hroot in
theorem named_of_listed (hstats : NoStatsApi root) {s : Step} {path : List Step}
    {value : Json} (hat : At (.obj root) (s :: path) value)
    (h : listedInSingBoxConfig isLoopback (s :: path) value = true) :
    namedInConfig isLoopback (s :: path) value = true := by
  cases hat with
  | @member _ m _ _ hm hat =>
    have hlists : ∀ name, (within name (eachItem launchersOf)) (.key m.1 :: path) value = true →
        (within name (eachItem namedLaunchers)) (.key m.1 :: path) value = true := by
      intro name hin
      obtain ⟨hname, hitem⟩ := Bool.and_eq_true_iff.mp hin
      obtain _ | ⟨_ | x, rest⟩ := path
      · cases hitem
      · cases hitem
      have hx : proper x = true := by
        generalize hv : m.2 = v at hat
        cases hat with
        | item hxin _ =>
          have hlist := (proper_obj_iff.mp hroot).2 m hm
          rw [hv, proper, properItems_iff] at hlist
          exact hlist x hxin
      exact Bool.and_eq_true_iff.mpr ⟨hname, namedLaunchers_of_listed hx hitem⟩
    have hexperimental : within "experimental" experimentalPlaces (.key m.1 :: path) value = true →
        within "experimental" (oneOf [named "clash_api" notBlank, within "debug" (named "listen" notBlank),
          within "cache_file" (named "path" notBlank)]) (.key m.1 :: path) value = true := by
      intro hin
      obtain ⟨hname, hplace⟩ := Bool.and_eq_true_iff.mp hin
      refine Bool.and_eq_true_iff.mpr ⟨hname, ?_⟩
      have hquiet : named "v2ray_api" apiListens path value = false := by
        obtain _ | ⟨k | x, _ | ⟨t, rest⟩⟩ := path
        · rfl
        · generalize hv : m.2 = v at hat
          cases hat with
          | member hapi hend =>
            rw [hend.eq_of_nil]
            rename_i api
            cases hsame : sameName api.1 "v2ray_api" with
            | false => simp [named, hsame]
            | true =>
              have hoff := hstats m hm hname api (by rw [hv]; exact hapi) hsame
              simp [named, hsame, hoff]
        all_goals rfl
      simp only [experimentalPlaces, oneOf, any_cons, any_nil, hquiet, Bool.false_or] at hplace ⊢
      exact hplace
    simp only [listedInSingBoxConfig, namedInConfig, oneOf, any_cons, any_nil, Bool.or_eq_true, Bool.or_false] at h ⊢
    rcases h with h | h | h | h | h | h | h | h
    · exact .inl h
    · exact .inr (.inl h)
    · exact .inr (.inr (.inl h))
    · exact .inr (.inr (.inr (.inl h)))
    · exact .inr (.inr (.inr (.inr (.inl (hexperimental h)))))
    · exact .inr (.inr (.inr (.inr (.inr (.inl h)))))
    · exact .inr (.inr (.inr (.inr (.inr (.inr (.inl (hlists _ h)))))))
    · exact .inr (.inr (.inr (.inr (.inr (.inr (.inr (hlists _ h)))))))

theorem namedInConfig_stats {k k' : String} (hk : sameName k "experimental" = true)
    (hk' : sameName k' "v2ray_api" = true) :
    (∀ value, namedInConfig isLoopback [.key k] value = false) ∧
      ∀ path value, namedInConfig isLoopback (.key k :: .key k' :: path) value = false := by
  have hservices : sameName k "services" = false := sameName_unique hk (by decide)
  have hproviders : sameName k "certificate_providers" = false := sameName_unique hk (by decide)
  have hlog : sameName k "log" = false := sameName_unique hk (by decide)
  have hclash : sameName k' "clash_api" = false := sameName_unique hk' (by decide)
  have hdebug : sameName k' "debug" = false := sameName_unique hk' (by decide)
  have hcache : sameName k' "cache_file" = false := sameName_unique hk' (by decide)
  constructor
  · intro value
    simp [namedInConfig, oneOf, within, named, itemsThat, eachItem, hservices, hproviders, hlog]
  · intro path value
    cases path <;> simp [namedInConfig, oneOf, within, named, itemsThat, eachItem, hlog, hclash, hdebug, hcache]

include hroot in
theorem onlyLoses_config_iff :
    OnlyLoses (namedInConfig isLoopback) root (pruneMembers (listedInSingBoxConfig isLoopback) root) ↔ NoStatsApi root := by
  constructor
  · rintro ⟨M, hnamed, heq⟩ m hm hname api hapi hapiName
    have hnone : NoneLeft (listedInSingBoxConfig isLoopback) (.obj (pruneMembers (listedInSingBoxConfig isLoopback) root)) :=
      noneLeft_of_removed (removed_prune (cleaner_singBoxConfig isLoopback 0).settled (.obj root))
    have hnot : (∀ value, namedInConfig isLoopback [.key m.1] value = false) ∧
        ∀ path value, namedInConfig isLoopback (.key m.1 :: .key api.1 :: path) value = false :=
      namedInConfig_stats hname hapiName
    have hkeeps : ∀ path value, namedInConfig isLoopback path value = false → M path value = false := by
      intro path value hoff
      cases hM : M path value with
      | false => rfl
      | true => rw [hnamed path value hM] at hoff; cases hoff
    obtain ⟨members, hv⟩ : ∃ members, m.2 = .obj members := by
      cases hv : m.2 with
      | obj members => exact ⟨members, rfl⟩
      | _ => rw [hv] at hapi; cases hapi
    rw [hv] at hapi
    -- the API stays under M, and then it is one of those that are listed no more
    have houter := mem_pruneMembers hm (hkeeps _ _ (hnot.1 m.2))
    rw [hv] at houter
    have hinner : (api.1, prune ((M.after (.key m.1)).after (.key api.1)) api.2) ∈
        pruneMembers (M.after (.key m.1)) members := mem_pruneMembers hapi (hkeeps _ _ (hnot.2 [] api.2))
    have hself : prune ((M.after (.key m.1)).after (.key api.1)) api.2 = api.2 :=
      prune_empty (fun s path below => hkeeps (.key m.1 :: .key api.1 :: s :: path) below (hnot.2 (s :: path) below)) api.2
    rw [hself] at hinner
    have hin : At (.obj (pruneMembers (M.after (.key m.1)) members)) [.key api.1] api.2 := .member hinner (.here _)
    have hat : At (.obj (pruneMembers M root)) [.key m.1, .key api.1] api.2 :=
      @At.member _ (m.1, .obj (pruneMembers (M.after (.key m.1)) members)) _ _ houter hin
    rw [← heq] at hat
    have hlisted : NoneLeft (within "experimental" experimentalPlaces) _ := NoneLeft.oneOf hnone (by simp)
    have hoff := hlisted _ _ _ hat
    cases hlistens : apiListens api.2 with
    | false => rfl
    | true => simp [within, hname, experimentalPlaces, oneOf, named, hapiName, hlistens] at hoff
  · intro hstats
    refine ⟨fun path value => listedInSingBoxConfig isLoopback path value && namedInConfig isLoopback path value,
      fun path value h => (Bool.and_eq_true_iff.mp h).2, ?_⟩
    have hsame : prune (listedInSingBoxConfig isLoopback) (.obj root) = prune (fun path value =>
        listedInSingBoxConfig isLoopback path value && namedInConfig isLoopback path value) (.obj root) := by
      refine prune_congr fun s path value hat => ?_
      cases hl : listedInSingBoxConfig isLoopback (s :: path) value with
      | false => rfl
      | true => rw [named_of_listed hroot hstats hat hl]; rfl
    exact Json.obj.inj hsame

end

/-! ## The stripped profile -/

theorem onlyLoses_outbound {root : Members Json} (hroot : proper (.obj root) = true) :
    OnlyLoses (launchers (typeRead root)) root (pruneMembers (launchers (textAt root "type")) root) := by
  by_cases hmem : "type" ∈ keysOf root
  · rw [typeRead_eq (proper_obj_iff.mp hroot).1 hmem]
    exact ⟨_, fun _ _ h => h, rfl⟩
  · rw [textAt_of_notMem hmem, launchers_untyped]
    exact ⟨oneOf [], fun _ _ h => absurd h (by simp [oneOf]), rfl⟩

theorem usesSingBoxViaXray_pruned (root : Members Json) (type : String) :
    usesSingBoxViaXray .outbound (pruneMembers (launchers type) root) = usesSingBoxViaXray .outbound root := by
  rw [usesSingBoxViaXray, usesSingBoxViaXray, objectAt, objectAt,
    valueAt_pruneMembers (launchers_other_key (by decide) type),
    valueAt_pruneMembers (launchers_other_key (by decide) type)]
  rfl

section

variable {Text : Type*} (codec : Codec Text) (isLoopback : String → Bool)

def singBoxSubType (full : Bool) : SubType := if full then .fullConfig else .outbound

/-- The places of the subtype, as the sanitiser finds them. -/
def listedForSingBox (full : Bool) (root : Members Json) : Place :=
  if full then listedInSingBoxConfig isLoopback else launchers (textAt root "type")

theorem stripRoot_cleaned (full : Bool) {root : Members Json} (hroot : proper (.obj root) = true) :
    Cleaned Issue.Warns (listedForSingBox isLoopback full root) root (stripRoot isLoopback (singBoxSubType full) root) := by
  cases full with
  | false => exact stripLaunchers_cleaned hroot (.refl) ""
  | true => exact (cleaner_singBoxConfig isLoopback _).cleans "" root hroot (.refl)

theorem listedForSingBox_pruned (full : Bool) (root : Members Json) :
    listedForSingBox isLoopback full (pruneMembers (listedForSingBox isLoopback full root) root) =
      listedForSingBox isLoopback full root := by
  cases full with
  | false => exact congrArg launchers (textAt_pruneLaunchers _ root)
  | true => rfl

theorem settled_listedForSingBox (full : Bool) (root : Members Json) :
    Settled (listedForSingBox isLoopback full root) := by
  cases full with
  | false => exact (settled_launchers _).1
  | true => exact (cleaner_singBoxConfig isLoopback 0).settled

theorem build_outbound {custom : Profile Text} (h : custom.type = .outbound) :
    build codec custom = if usesSingBoxViaXray .outbound (custom.root codec) then placeholder else custom.root codec := by
  rw [build, h]
  rfl

theorem build_fullConfig {custom : Profile Text} (h : custom.type = .fullConfig) :
    build codec custom = custom.root codec := by
  rw [build, h]
  rfl

/-- **A foreign sing-box profile as the core reads it**: what the core gets is safe, nothing
but named options is lost and a second run changes nothing, if and only if every outbound
that would launch something has the key `type` and there is no V2Ray API that listens. -/
theorem stripForeignState_singBox_iff (full : Bool) (given : Profile Text) (issues : List Issue) :
    let custom : Profile Text := { given with type := singBoxSubType full }
    let root := custom.root codec
    let after := (stripForeignState codec isLoopback custom issues).1
    (Safe isLoopback full (build codec after) ∧
        OnlyLoses (namedOptions isLoopback full root) root (after.root codec) ∧
        ∀ later, (stripForeignState codec isLoopback after later).1 = after) ↔
      Stripped full root := by
  intro custom root after
  have hroot : proper (.obj root) = true := (codec.read custom.config).ok
  have hclean := stripRoot_cleaned isLoopback full hroot
  have hafter : after.root codec = pruneMembers (listedForSingBox isLoopback full root) root :=
    stripForeignState_root codec isLoopback hclean issues
  have htype : after.type = singBoxSubType full := stripForeignState_type codec isLoopback issues
  have hstable : ∀ later, (stripForeignState codec isLoopback after later).1 = after := by
    intro later
    have hagain := stripRoot_cleaned isLoopback full (proper_prune (listedForSingBox isLoopback full root) hroot)
    have hlisted := listedForSingBox_pruned isLoopback full root
    rw [hlisted] at hagain
    have hsettled := settled_listedForSingBox isLoopback full root
    have hsame := stripForeignState_again codec isLoopback hclean hsettled hagain issues later
    rw [hsame]
  have hsafe : (Safe isLoopback full (build codec after) ∧
      OnlyLoses (namedOptions isLoopback full root) root (after.root codec)) ↔ Stripped full root := by
    cases full with
    | false =>
      rw [build_outbound codec htype, hafter]
      have hlost := onlyLoses_outbound hroot
      have hvia : usesSingBoxViaXray .outbound (pruneMembers (listedForSingBox isLoopback false root) root) =
          usesSingBoxViaXray .outbound root := usesSingBoxViaXray_pruned root _
      rw [hvia]
      show (launches _ = false ∧ _) ↔ (usesSingBoxViaXray .outbound root = true ∨ Typed root)
      cases usesSingBoxViaXray .outbound root with
      | true => exact iff_of_true ⟨rfl, hlost⟩ (.inl rfl)
      | false =>
        have hone := launches_pruned_iff hroot
        refine ⟨fun h => .inr (hone.mp h.1), fun h => ⟨hone.mpr (h.resolve_left (by simp)), hlost⟩⟩
    | true =>
      rw [build_fullConfig codec htype, hafter]
      exact and_congr (safeConfig_iff hroot) (onlyLoses_config_iff hroot)
  rw [← and_assoc, hsafe]
  exact and_iff_left hstable

end

/-! ## An outbound that is missed -/

/-- Texts that are their own objects. -/
def plainCodec : Codec JsonObject where
  read o := o
  write o := if h : proper (.obj o) = true then ⟨o, h⟩ else ⟨[], rfl⟩
  read_write o h := by simp [h]

/-- A Tor outbound whose type has a capital letter. -/
def spelledType : JsonObject := ⟨[("Type", .str "tor"), ("executable_path", .str "/bin/sh")], by decide⟩

def spelledProfile : Profile JsonObject := { type := .outbound, config := spelledType }

/-- Nothing is taken out, and the core starts the program. -/
theorem spelledType_launches :
    let after := (stripForeignState plainCodec (fun _ => false) spelledProfile []).1
    after.root plainCodec = spelledType.members ∧ typeRead (build plainCodec after) = "tor" ∧
      readNamed (build plainCodec after) "executable_path" = .str "/bin/sh" ∧
      ¬ Safe (fun _ => false) false (build plainCodec after) := by
  refine ⟨rfl, by decide, rfl, ?_⟩
  intro hsafe
  have hlaunches : launches (build plainCodec (stripForeignState plainCodec (fun _ => false) spelledProfile []).1) = true := by
    decide
  cases hsafe

end Waterdisco.Custom
