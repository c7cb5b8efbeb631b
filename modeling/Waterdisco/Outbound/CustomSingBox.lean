import Waterdisco.Lib.Reading
import Waterdisco.Outbound.CustomStrip

/-!
# Foreign sing-box configurations

The places a sing-box outbound or a full sing-box configuration is stripped of.  What an
outbound is stripped of depends on its type, which the sanitiser reads from the key
spelled `type` exactly.
-/

namespace Waterdisco.Custom

open List Nat Issue

/-! ## Places -/

/-- An option that is dropped: its name is no option name, or it makes Tor start a program. -/
def badTorOption (key : String) (_ : Json) : Bool := !isTorOptionName key || isTorPluginOption key

/-- What a Tor outbound is stripped of. -/
def torPlaces : Place :=
  oneOf [named "executable_path" notBlank, named "extra_args" notBlank, named "data_directory" notBlank,
    within "torrc" (anyKey badTorOption)]

/-- The paths of the programs that openconnect runs. -/
def openconnectPlaces : Place :=
  oneOf [within "csd" (named "wrapper_path" notBlank), within "hip" (named "wrapper_path" notBlank),
    within "tncc" (named "wrapper_path" notBlank)]

/-- What lets other devices of the tailnet in. -/
def tailscalePlaces : Place := oneOf [named "ssh_server" sshEnabled, named "taildrop_directory" notBlank]

/-- What starts a program or lets peers in, by the type of the outbound. -/
def launchers (type : String) : Place :=
  if type == "tor" then torPlaces
  else if type == "openconnect" then openconnectPlaces
  else if type == "tailscale" then tailscalePlaces
  else oneOf []

/-- An inbound that other devices could use. -/
def foreignInbound (isLoopback : String → Bool) (x : Json) : Bool := !isLocalSingBoxInbound isLoopback x.toObject

/-- What opens a port or writes a file. -/
def experimentalPlaces : Place :=
  oneOf [named "clash_api" notBlank, named "v2ray_api" apiListens, within "debug" (named "listen" notBlank),
    within "cache_file" (named "path" notBlank)]

/-- The places of an outbound, by its own type. -/
def launchersOf (x : Json) : Place := launchers (textAt x.toObject "type")

/-- All places of a full configuration. -/
def listedInSingBoxConfig (isLoopback : String → Bool) : Place :=
  oneOf [within "inbounds" (itemsThat (foreignInbound isLoopback)), named "services" notBlank,
    named "certificate_providers" notBlank, within "log" (named "output" notBlank),
    within "experimental" experimentalPlaces, within "network_namespaces" (eachItem fun _ => named "pid_file" notBlank),
    within "outbounds" (eachItem launchersOf), within "endpoints" (eachItem launchersOf)]

/-! ## Programs and shells -/

/-- The warning for an option that is dropped. -/
def torIssue (at' torrcKey key : String) (value : Json) : Issue :=
  if !isTorOptionName key then
    { severity := .warning, field := at' ++ torrcKey, message := torNameMessage, value := key }
  else
    { severity := .warning, field := at' ++ torrcKey ++ "." ++ key, message := torPluginMessage key, value := value.toStr }

theorem stripTorrc_eq (torrc : Members Json) (at' torrcKey : String) :
    stripTorrc torrc at' torrcKey = forKeys torrc fun key value =>
      if badTorOption key value then (.drop, [torIssue at' torrcKey key value]) else (.keep, []) := by
  rw [stripTorrc]
  congr 1
  funext key value
  cases hname : isTorOptionName key <;> cases hplugin : isTorPluginOption key <;>
    simp [badTorOption, torIssue, hname, hplugin]

variable (isLoopback : String → Bool) (n : Nat)

theorem cleans_stripTorrc (at' torrcKey : String) :
    Cleans Warns n (anyKey badTorOption) (fun torrc => stripTorrc torrc at' torrcKey) := by
  intro o ho _
  have hwarns : ∀ key value, (torIssue at' torrcKey key value).Warns := by
    intro key value
    rw [torIssue]
    split <;> rfl
  have hdrop := cleaned_drop ho (fun _ => true) badTorOption (torIssue at' torrcKey)
    (L := anyKey badTorOption) (fun _ _ => (Bool.true_and _).symm) (fun _ _ _ _ => rfl) hwarns
  rw [filter_true] at hdrop
  show Cleaned Warns (anyKey badTorOption) o (stripTorrc o at' torrcKey)
  rw [stripTorrc_eq]
  exact hdrop

theorem keysFirst_anyKey (test : String → Json → Bool) : KeysFirst (anyKey test) := ⟨fun _ => rfl, fun _ _ _ => rfl⟩

/-- The steps of the Tor branch, each with the place it clears. -/
def torParts (at' : String) : List (Part Issue) :=
  [⟨"executable_path", named "executable_path" notBlank,
   fun o => stripNamed o "executable_path" at' torPathMessage true⟩,
   ⟨"extra_args", named "extra_args" notBlank, fun o => stripNamed o "extra_args" at' torArgsMessage false⟩,
   ⟨"data_directory", named "data_directory" notBlank, fun o => stripNamed o "data_directory" at' torFolderMessage true⟩,
   ⟨"torrc", within "torrc" (anyKey badTorOption),
    fun o => editInner o "torrc" fun torrc torrcKey => stripTorrc torrc at' torrcKey⟩]

theorem cleaner_tor : Cleaner n torPlaces (fun o at' => inTurn ((torParts at').map (·.edit)) o) := by
  refine cleaner_inTurn torParts ["executable_path", "extra_args", "data_directory", "torrc"]
    (fun _ => rfl) (fun _ => rfl) (by decide) ?_
  intro at' part hpart
  simp only [torParts, mem_cons, not_mem_nil, or_false] at hpart
  rcases hpart with rfl | rfl | rfl | rfl
  · exact sound_stripNamed n _ _ _ _
  · exact sound_stripNamed n _ _ _ _
  · exact sound_stripNamed n _ _ _ _
  · have hcleans := cleans_editInner "torrc" (keysFirst_anyKey badTorOption) (fun key => cleans_stripTorrc n at' key)
    exact ⟨listing_within _ (settled_anyKey _), hcleans.mono (le_succ _)⟩

/-- The step for one of the programs of openconnect. -/
def wrapperPart (name at' : String) : Part Issue :=
  ⟨name, within name (named "wrapper_path" notBlank), fun o => editObjectNamed o name at' fun wrapped wrapperAt =>
    stripNamed wrapped "wrapper_path" wrapperAt (wrapperMessage name) true⟩

theorem sound_wrapperPart (name at' : String) : (wrapperPart name at').Sound Warns n :=
  ((cleaner_stripNamed n "wrapper_path" _ true).sound name at').mono (le_succ _)

theorem cleaner_openconnect :
    Cleaner n openconnectPlaces
      (fun o at' => inTurn (([wrapperPart "csd" at', wrapperPart "hip" at',
        wrapperPart "tncc" at']).map (·.edit)) o) := by
  refine cleaner_inTurn (fun at' => [wrapperPart "csd" at', wrapperPart "hip" at', wrapperPart "tncc" at'])
    ["csd", "hip", "tncc"] (fun _ => rfl) (fun _ => rfl) (by decide) ?_
  intro at' part hpart
  simp only [mem_cons, not_mem_nil, or_false] at hpart
  rcases hpart with rfl | rfl | rfl <;> exact sound_wrapperPart n _ _

def tailscaleParts (at' : String) : List (Part Issue) :=
  [⟨"ssh_server", named "ssh_server" sshEnabled,
   fun o => stripThat o "ssh_server" at' sshServerMessage sshEnabled (fun _ => "")⟩,
   ⟨"taildrop_directory", named "taildrop_directory" notBlank,
    fun o => stripNamed o "taildrop_directory" at' taildropMessage true⟩]

theorem cleaner_tailscale :
    Cleaner n tailscalePlaces (fun o at' => inTurn ((tailscaleParts at').map (·.edit)) o) := by
  refine cleaner_inTurn tailscaleParts ["ssh_server", "taildrop_directory"] (fun _ => rfl) (fun _ => rfl) (by decide) ?_
  intro at' part hpart
  simp only [tailscaleParts, mem_cons, not_mem_nil, or_false] at hpart
  rcases hpart with rfl | rfl
  · exact sound_stripThat n _ _ _ _ _
  · exact sound_stripNamed n _ _ _ _

theorem cleaner_nothing : Cleaner n (oneOf []) (fun o _ => { members := o }) :=
  cleaner_inTurn (fun _ => []) [] (fun _ => rfl) (fun _ => rfl) (by decide) (fun _ _ hpart => absurd hpart not_mem_nil)

/-- The edit that fits the type, whatever object it is applied to. -/
theorem stripLaunchers_cleaned {n : Nat} {o : Members Json} (ho : proper (.obj o) = true) (hdepth : depthMembers o ≤ n)
    (at' : String) : Cleaned Warns (launchers (textAt o "type")) o (stripLaunchers o at') := by
  rw [launchers, stripLaunchers]
  split
  · exact (cleaner_tor n).cleans at' o ho hdepth
  split
  · exact (cleaner_openconnect n).cleans at' o ho hdepth
  split
  · exact (cleaner_tailscale n).cleans at' o ho hdepth
  · exact (cleaner_nothing n).cleans at' o ho hdepth

theorem settled_launchers (type : String) : Settled (launchers type) ∧ KeysFirst (launchers type) := by
  rw [launchers]
  split
  · exact ⟨(cleaner_tor 0).settled, (cleaner_tor 0).keysFirst⟩
  split
  · exact ⟨(cleaner_openconnect 0).settled, (cleaner_openconnect 0).keysFirst⟩
  split
  · exact ⟨(cleaner_tailscale 0).settled, (cleaner_tailscale 0).keysFirst⟩
  · exact ⟨(cleaner_nothing 0).settled, (cleaner_nothing 0).keysFirst⟩

/-! ## The type stays -/

/-- The names an outbound can be stripped of something under. -/
def launcherNames : List String :=
  ["executable_path", "extra_args", "data_directory", "torrc", "csd", "hip", "tncc", "ssh_server", "taildrop_directory"]

theorem launchers_other_key {key : String} (h : ∀ name ∈ launcherNames, sameName key name = false) (type : String)
    (path : List Step) (value : Json) : launchers type (.key key :: path) value = false := by
  simp only [launcherNames, forall_mem_cons] at h
  obtain ⟨hpath, hargs, hdata, htorrc, hcsd, hhip, htncc, hssh, htaildrop, -⟩ := h
  rw [launchers]
  split
  · cases path <;> simp [torPlaces, oneOf, named, within, hpath, hargs, hdata, htorrc]
  split
  · simp [openconnectPlaces, oneOf, within, hcsd, hhip, htncc]
  split
  · cases path <;> simp [tailscalePlaces, oneOf, named, hssh, htaildrop]
  · rfl

theorem textAt_pruneLaunchers (type : String) (o : Members Json) :
    textAt (pruneMembers (launchers type) o) "type" = textAt o "type" := by
  rw [textAt, valueAt_pruneMembers (launchers_other_key (by decide) type)]
  rfl

theorem toObject_prune (L : Place) (value : Json) : (prune L value).toObject = pruneMembers L value.toObject := by
  cases value with
  | obj members => rfl
  | _ => rfl

theorem launchersOf_prune (x : Json) : launchersOf (prune (launchersOf x) x) = launchersOf x := by
  rw [launchersOf, launchersOf, toObject_prune, textAt_pruneLaunchers]

theorem sound_outboundList (name : String) :
    Part.Sound Warns (n + 1) ⟨name, within name (eachItem launchersOf),
      fun o => editListNamed o name "" stripLaunchers⟩ where
  listing := listing_within name (settled_eachItem (fun x => (settled_launchers _).1) launchersOf_prune)
  cleans := by
    refine cleans_editListNamed name "" (fun x => (settled_launchers _).2) ?_
    intro x at' hproper hdepth
    exact stripLaunchers_cleaned (proper_toObject hproper) (depth_toObject (le_succ_of_le hdepth)) at'

/-! ## Ports and files -/

theorem foreignInbounds_length (key : String) (i : Nat) (items : List Json) :
    (foreignInbounds isLoopback key i items).length = removedItems (itemsThat (foreignInbound isLoopback)) items := by
  induction items generalizing i with
  | nil => rfl
  | cons x items ih =>
    have hbelow : removed ((itemsThat (foreignInbound isLoopback)).after (.item x)) x = 0 :=
      removed_empty (fun _ _ _ => rfl) x
    rw [foreignInbounds, removedItems, hbelow]
    cases hlocal : isLocalSingBoxInbound isLoopback x.toObject with
    | true => simp [itemsThat, foreignInbound, hlocal, ih]
    | false => simp [itemsThat, foreignInbound, hlocal, ih, add_comm]

theorem foreignInbounds_warn (key : String) (i : Nat) (items : List Json) :
    ∀ issue ∈ foreignInbounds isLoopback key i items, issue.Warns := by
  induction items generalizing i with
  | nil => exact fun _ hin => absurd hin not_mem_nil
  | cons x items ih =>
    intro issue hissue
    rw [foreignInbounds] at hissue
    split at hissue
    · exact ih (i + 1) issue hissue
    rcases mem_cons.mp hissue with rfl | hin
    · rfl
    · exact ih (i + 1) issue hin

theorem pruneItems_itemsThat (test : Json → Bool) (items : List Json) :
    pruneItems (itemsThat test) items = items.filter (fun x => !test x) := by
  induction items with
  | nil => rfl
  | cons x items ih =>
    have hbelow : prune ((itemsThat test).after (.item x)) x = x := prune_empty (fun _ _ _ => rfl) x
    rw [pruneItems, hbelow, ih]
    cases ht : test x <;> simp [itemsThat, ht]

theorem removedItems_itemsThat (test : Json → Bool) (items : List Json) :
    (items.filter (fun x => !test x)).length + removedItems (itemsThat test) items = items.length := by
  induction items with
  | nil => rfl
  | cons x items ih =>
    have hbelow : removed ((itemsThat test).after (.item x)) x = 0 := removed_empty (fun _ _ _ => rfl) x
    rw [removedItems, hbelow, length_cons]
    cases ht : test x <;> simp [itemsThat, ht] <;> omega

theorem sound_stripInbounds :
    Part.Sound Warns n ⟨"inbounds", within "inbounds" (itemsThat (foreignInbound isLoopback)),
      stripInbounds isLoopback⟩ where
  listing := listing_within _ (settled_itemsThat _)
  cleans := by
    intro o ho _
    refine cleaned_within ho "inbounds" (fun _ => rfl) _ ?_
    intro m _
    let items := m.2.toArray
    let kept := items.filter fun x => isLocalSingBoxInbound isLoopback x.toObject
    have hkept : kept = pruneItems (itemsThat (foreignInbound isLoopback)) items := by
      rw [pruneItems_itemsThat]
      exact filter_congr fun x _ => (Bool.not_not _).symm
    have hcount := removedItems_itemsThat (foreignInbound isLoopback) items
    rw [← pruneItems_itemsThat, ← hkept] at hcount
    have hitems : ItemsCleaned (itemsThat (foreignInbound isLoopback)) items
        (kept, !(kept.length == items.length), foreignInbounds isLoopback m.1 0 items) := by
      refine ⟨hkept, ?_, foreignInbounds_length isLoopback m.1 0 items, foreignInbounds_warn isLoopback m.1 0 items⟩
      rw [Bool.eq_iff_iff]
      simp only [Bool.not_eq_true', beq_eq_false_iff_ne, ne_eq, bne_iff_ne]
      omega
    have hcleared := ItemsCleaned.cleared (fun _ _ _ => rfl) hitems
    show Cleared Warns _ m.2
      (if kept.length == items.length then (.keep, foreignInbounds isLoopback m.1 0 items)
       else (.put (.arr kept), foreignInbounds isLoopback m.1 0 items))
    cases hsame : kept.length == items.length <;> simpa [hsame] using hcleared

/-- The steps in `experimental`. -/
def experimentalParts (at' : String) : List (Part Issue) :=
  [⟨"clash_api", named "clash_api" notBlank, fun o => stripNamed o "clash_api" at' clashApiMessage false⟩,
   ⟨"v2ray_api", named "v2ray_api" apiListens,
    fun o => stripThat o "v2ray_api" at' v2rayApiMessage apiListens (fun _ => "")⟩,
   ⟨"debug", within "debug" (named "listen" notBlank),
    fun o => editObjectNamed o "debug" at' fun debug debugAt =>
    stripNamed debug "listen" debugAt opensPortMessage true⟩,
   ⟨"cache_file", within "cache_file" (named "path" notBlank),
    fun o => editObjectNamed o "cache_file" at' fun cache cacheAt =>
    stripNamed cache "path" cacheAt writesFileMessage true⟩]

theorem cleaner_experimental :
    Cleaner n experimentalPlaces (fun o at' => inTurn ((experimentalParts at').map (·.edit)) o) := by
  refine cleaner_inTurn experimentalParts ["clash_api", "v2ray_api", "debug", "cache_file"]
    (fun _ => rfl) (fun _ => rfl) (by decide) ?_
  intro at' part hpart
  simp only [experimentalParts, mem_cons, not_mem_nil, or_false] at hpart
  rcases hpart with rfl | rfl | rfl | rfl
  · exact sound_stripNamed n _ _ _ _
  · exact sound_stripThat n _ _ _ _ _
  · exact ((cleaner_stripNamed n "listen" opensPortMessage true).sound _ _).mono (le_succ _)
  · exact ((cleaner_stripNamed n "path" writesFileMessage true).sound _ _).mono (le_succ _)

/-- The steps of `stripSingBoxExposure`. -/
def exposureParts (isLoopback : String → Bool) : List (Part Issue) :=
  [⟨"inbounds", within "inbounds" (itemsThat (foreignInbound isLoopback)), stripInbounds isLoopback⟩,
   ⟨"services", named "services" notBlank, fun o => stripNamed o "services" "" opensPortMessage false⟩,
   ⟨"certificate_providers", named "certificate_providers" notBlank,
    fun o => stripNamed o "certificate_providers" "" opensPortMessage false⟩,
   ⟨"log", within "log" (named "output" notBlank),
    fun o => editObjectNamed o "log" "" fun log at' =>
    stripNamed log "output" at' writesFileMessage true⟩,
   ⟨"experimental", within "experimental" experimentalPlaces,
    fun o => editObjectNamed o "experimental" "" fun experimental at' =>
    inTurn ((experimentalParts at').map (·.edit)) experimental⟩,
   ⟨"network_namespaces", within "network_namespaces" (eachItem fun _ => named "pid_file" notBlank),
    fun o => editListNamed o "network_namespaces" "" fun ns at' =>
    stripNamed ns "pid_file" at' writesFileMessage true⟩]

/-- The two lists of outbounds. -/
def listParts : List (Part Issue) :=
  [⟨"outbounds", within "outbounds" (eachItem launchersOf), fun o => editListNamed o "outbounds" "" stripLaunchers⟩,
   ⟨"endpoints", within "endpoints" (eachItem launchersOf), fun o => editListNamed o "endpoints" "" stripLaunchers⟩]

theorem sound_exposureParts :
    ∀ part ∈ exposureParts isLoopback, part.Sound Warns n := by
  intro part hpart
  simp only [exposureParts, mem_cons, not_mem_nil, or_false] at hpart
  rcases hpart with rfl | rfl | rfl | rfl | rfl | rfl
  · exact sound_stripInbounds isLoopback n
  · exact sound_stripNamed n _ _ _ _
  · exact sound_stripNamed n _ _ _ _
  · exact ((cleaner_stripNamed n "output" writesFileMessage true).sound _ _).mono (le_succ _)
  · exact ((cleaner_experimental n).sound _ _).mono (le_succ _)
  · exact ((cleaner_stripNamed n "pid_file" writesFileMessage true).soundList _ _).mono (le_succ _)

theorem sound_listParts : ∀ part ∈ listParts, part.Sound Warns n := by
  intro part hpart
  simp only [listParts, mem_cons, not_mem_nil, or_false] at hpart
  rcases hpart with rfl | rfl
  · exact (sound_outboundList n "outbounds").mono (le_succ _)
  · exact (sound_outboundList n "endpoints").mono (le_succ _)

/-- The whole configuration: the exposures first, then the programs of each outbound. -/
theorem cleaner_singBoxConfig :
    Cleaner n (listedInSingBoxConfig isLoopback) (fun root _ => stripRoot isLoopback .fullConfig root) := by
  have hall : ∀ part ∈ exposureParts isLoopback ++ listParts, part.Sound Warns n := by
    intro part hpart
    rcases mem_append.mp hpart with hin | hin
    · exact sound_exposureParts isLoopback n part hin
    · exact sound_listParts n part hin
  have hflat := cleaner_inTurn (fun _ => exposureParts isLoopback ++ listParts)
    ["inbounds", "services", "certificate_providers", "log", "experimental", "network_namespaces",
     "outbounds", "endpoints"]
    (fun _ => rfl) (fun _ => rfl) (by decide) (fun _ => hall)
  refine ⟨hflat.settled, hflat.keysFirst, fun at' o ho hdepth => ?_⟩
  have hsame : stripRoot isLoopback .fullConfig o = inTurn ((exposureParts isLoopback ++ listParts).map (·.edit)) o := by
    rw [map_append]
    exact inTurn_flatten _ _ o
  show Cleaned _ _ o (stripRoot isLoopback .fullConfig o)
  rw [hsame]
  exact hflat.cleans at' o ho hdepth

end Waterdisco.Custom
