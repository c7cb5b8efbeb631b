import Waterdisco.Outbound.CustomStrip

/-!
# Foreign Xray configurations

The places of an Xray outbound and of a full Xray configuration that open a port, write a
file or run on this computer, and that the sanitiser takes out exactly these.  A stream
lies in an outbound, and in the download leg of a stream, directly or under `extra`.

    text after = prune listed (text before)          (stripForeignState_xray)
-/

namespace Waterdisco.Custom

open List

/-! ## Places -/

def isSecuritySettings (key : String) : Bool := sameName key "tlsSettings" || sameName key "realitySettings"

def isXhttpSettings (key : String) : Bool := sameName key "xhttpSettings" || sameName key "splithttpSettings"

/-- A key log of a stream, or of a download leg below it at any depth. -/
def keyLog : Place
  | [.key security, .key log], value => isSecuritySettings security && sameName log "masterKeyLog" && namesFile value
  | .key xhttp :: .key a :: .key b :: path, value =>
    isXhttpSettings xhttp &&
      (sameName a "downloadSettings" && keyLog (.key b :: path) value ||
       sameName a "extra" && sameName b "downloadSettings" && keyLog path value)
  | _, _ => false

def listedInOutbound : Place :=
  oneOf [within "settings" (named "reverse" notBlank), within "streamSettings" keyLog]

def listedInConfig : Place :=
  oneOf [named "inbounds" notBlank, named "api" notBlank, named "metrics" notBlank, named "reverse" notBlank,
    named "env" notBlank, named "geodata" notBlank,
    within "routing" (within "rules" (eachItem fun _ => named "webhook" notBlank)),
    within "log" (oneOf [named "access" namesFile, named "error" namesFile]),
    within "outbounds" (eachItem fun _ => listedInOutbound)]

/-! ## The download legs -/

theorem not_xhttp_of_security {key : String} (h : isSecuritySettings key = true) : isXhttpSettings key = false := by
  rw [isSecuritySettings, Bool.or_eq_true] at h
  rw [isXhttpSettings, Bool.or_eq_false_iff]
  rcases h with h | h
  · exact ⟨sameName_unique h (by decide), sameName_unique h (by decide)⟩
  · exact ⟨sameName_unique h (by decide), sameName_unique h (by decide)⟩

theorem keyLog_item (path : List Step) (x : Json) (rest : List Step) (value : Json) :
    keyLog (path ++ .item x :: rest) value = false := by
  induction path, value using keyLog.induct with
  | case1 security log value => rfl
  | case2 xhttp a b path value ih₁ ih₂ =>
    rw [cons_append] at ih₁
    simp [keyLog, ih₁, ih₂]
  | case3 path value h₁ h₂ =>
    match path with
    | [] => rfl
    | .item y :: path => rfl
    | [.key a] => rfl
    | .key a :: .item y :: path => rfl
    | [.key a, .key b] => rfl
    | .key a :: .key b :: .item y :: path => rfl
    | .key a :: .key b :: .key c :: path => exact absurd rfl (h₂ a b c path)

theorem keyLog_leafy (path : List Step) (s : Step) (rest : List Step) (value below : Json)
    (h : keyLog path value = true) : keyLog (path ++ s :: rest) below = false := by
  induction path, value using keyLog.induct with
  | case1 security log value =>
    have hsecurity : isSecuritySettings security = true := by
      rw [keyLog, Bool.and_eq_true, Bool.and_eq_true] at h
      exact h.1.1
    cases s with
    | item x => rfl
    | key k =>
      show (isXhttpSettings security && _) = false
      rw [not_xhttp_of_security hsecurity, Bool.false_and]
  | case2 xhttp a b path value ih₁ ih₂ =>
    rw [keyLog, Bool.and_eq_true, Bool.or_eq_true, Bool.and_eq_true, Bool.and_eq_true, Bool.and_eq_true] at h
    show (isXhttpSettings xhttp && (sameName a "downloadSettings" && keyLog (.key b :: (path ++ s :: rest)) below ||
       sameName a "extra" && sameName b "downloadSettings" && keyLog (path ++ s :: rest) below)) = false
    rcases h.2 with ⟨ha, hlog⟩ | ⟨⟨ha, -⟩, hlog⟩
    · have hbelow := ih₁ hlog
      rw [cons_append] at hbelow
      have hextra : sameName a "extra" = false := sameName_unique ha (by decide)
      rw [hbelow, hextra, Bool.and_false, Bool.false_and, Bool.false_and, Bool.or_false, Bool.and_false]
    · have hdownload : sameName a "downloadSettings" = false := sameName_unique ha (by decide)
      rw [ih₂ hlog, hdownload, Bool.and_false, Bool.false_and, Bool.or_false, Bool.and_false]
  | case3 path value h₁ h₂ =>
    rw [keyLog.eq_def] at h
    split at h
    · exact absurd rfl (h₁ _ _)
    · exact absurd rfl (h₂ _ _ _ _)
    · cases h

theorem settled_keyLog : Settled keyLog :=
  ⟨keyLog_leafy, fun path x rest value => by rw [keyLog_item, keyLog_item]⟩

theorem keysFirst_keyLog : KeysFirst keyLog := ⟨fun _ => rfl, fun _ _ _ => rfl⟩

def downloadLeg : Place :=
  oneOf [within "downloadSettings" keyLog, within "extra" (within "downloadSettings" keyLog)]

theorem keyLog_eq :
    keyLog = oneOf [within "tlsSettings" (named "masterKeyLog" namesFile),
      within "realitySettings" (named "masterKeyLog" namesFile), within "xhttpSettings" downloadLeg,
      within "splithttpSettings" downloadLeg] := by
  funext path value
  match path with
  | [] => rfl
  | .item x :: path => rfl
  | [.key a] =>
    simp [keyLog, oneOf, within, named, downloadLeg]
  | .key a :: .item y :: path => simp [keyLog, oneOf, within, named, downloadLeg]
  | [.key a, .key b] =>
    simp only [keyLog, oneOf, within, named, downloadLeg, isSecuritySettings, any_cons, any_nil]
    cases sameName a "tlsSettings" <;> cases sameName a "realitySettings" <;> simp
  | .key a :: .key b :: .item y :: path =>
    simp [keyLog, oneOf, within, named, downloadLeg]
  | .key a :: .key b :: .key c :: path =>
    simp only [keyLog, oneOf, within, named, downloadLeg, isXhttpSettings, any_cons, any_nil]
    cases sameName a "xhttpSettings" <;> cases sameName a "splithttpSettings" <;> simp [Bool.and_assoc]

/-! ## The edits -/

theorem removedMembers_of_shallow {o : Members Json} (h : depthMembers o ≤ 0) : removedMembers keyLog o = 0 := by
  rw [removedMembers_eq_zero]
  intro m hm
  have hleaf := depthMembers_le_iff.mp h m hm
  refine ⟨rfl, ?_⟩
  cases hv : m.2 with
  | obj members => rw [hv, depth] at hleaf; omega
  | arr items => rw [hv, depth] at hleaf; omega
  | _ => rfl

def legParts (fuel : Nat) (at' : String) : List (Part Issue) :=
  [⟨"downloadSettings", within "downloadSettings" keyLog,
     fun o => editObjectNamed o "downloadSettings" at' (stripXrayKeyLogUpTo fuel)⟩,
   ⟨"extra", within "extra" (within "downloadSettings" keyLog), fun o => editObjectNamed o "extra" at' fun o oAt =>
     editObjectNamed o "downloadSettings" oAt (stripXrayKeyLogUpTo fuel)⟩]

def securityPart (name at' : String) : Part Issue :=
  ⟨name, within name (named "masterKeyLog" namesFile), fun o => editObjectNamed o name at' fun security securityAt =>
    stripXrayFilePath security "masterKeyLog" securityAt⟩

def xhttpPart (fuel : Nat) (name at' : String) : Part Issue :=
  ⟨name, within name downloadLeg, fun o => editObjectNamed o name at' fun xhttp xhttpAt =>
    inTurn ((legParts fuel xhttpAt).map (·.edit)) xhttp⟩

def keyLogParts (fuel : Nat) (at' : String) : List (Part Issue) :=
  [securityPart "tlsSettings" at', securityPart "realitySettings" at', xhttpPart fuel "xhttpSettings" at',
   xhttpPart fuel "splithttpSettings" at']

variable (n : Nat)

/-- Down to any depth: each download leg is one level of the fuel. -/
theorem cleaner_stripXrayKeyLogUpTo : Cleaner n keyLog (stripXrayKeyLogUpTo n) := by
  induction n with
  | zero =>
    refine ⟨settled_keyLog, keysFirst_keyLog, ?_⟩
    intro at' o _ hdepth
    have hzero := removedMembers_of_shallow hdepth
    refine ⟨(pruneMembers_of_removed_eq_zero hzero).symm, ?_, hzero.symm, ?_⟩
    · show false = _
      rw [hzero]
      rfl
    · intro issue hissue
      cases hissue
  | succ n ih =>
    have hleg : Cleaner n downloadLeg fun xhttp xhttpAt => inTurn ((legParts n xhttpAt).map (·.edit)) xhttp := by
      refine cleaner_inTurn (legParts n) ["downloadSettings", "extra"] (fun _ => rfl) (fun _ => rfl) (by decide) ?_
      intro at' part hpart
      simp only [legParts, mem_cons, not_mem_nil, or_false] at hpart
      rcases hpart with rfl | rfl
      · exact (ih.sound _ _).mono (Nat.le_succ _)
      · exact ((ih.within "downloadSettings").sound _ _).mono (by omega)
    have hlog := cleaner_stripThat n "masterKeyLog" writesFileMessage namesFile Json.toStr
    rw [keyLog_eq]
    refine cleaner_inTurn (keyLogParts n) ["tlsSettings", "realitySettings", "xhttpSettings", "splithttpSettings"]
      (fun _ => rfl) (fun _ => rfl) (by decide) ?_
    intro at' part hpart
    simp only [keyLogParts, mem_cons, not_mem_nil, or_false] at hpart
    rcases hpart with rfl | rfl | rfl | rfl
    · exact hlog.sound _ _
    · exact hlog.sound _ _
    · exact hleg.sound _ _
    · exact hleg.sound _ _

theorem cleaner_stripXrayKeyLog : Cleaner n keyLog stripXrayKeyLog :=
  ⟨settled_keyLog, keysFirst_keyLog,
    fun at' o ho _ => (cleaner_stripXrayKeyLogUpTo (depthMembers o)).cleans at' o ho (.refl)⟩

def outboundParts (at' : String) : List (Part Issue) :=
  [⟨"settings", within "settings" (named "reverse" notBlank),
   fun o => editObjectNamed o "settings" at' fun settings settingsAt =>
     stripNamed settings "reverse" settingsAt xrayReverseMessage false⟩,
   ⟨"streamSettings", within "streamSettings" keyLog, fun o => editObjectNamed o "streamSettings" at' stripXrayKeyLog⟩]

theorem cleaner_stripXrayOutbound : Cleaner n listedInOutbound stripXrayOutbound := by
  refine cleaner_inTurn outboundParts ["settings", "streamSettings"] (fun _ => rfl) (fun _ => rfl) (by decide) ?_
  intro at' part hpart
  simp only [outboundParts, mem_cons, not_mem_nil, or_false] at hpart
  rcases hpart with rfl | rfl
  · exact ((cleaner_stripNamed n "reverse" xrayReverseMessage false).sound _ _).mono (Nat.le_succ _)
  · exact ((cleaner_stripXrayKeyLog n).sound _ _).mono (Nat.le_succ _)

def logParts (at' : String) : List (Part Issue) :=
  [⟨"access", named "access" namesFile, fun o => stripXrayFilePath o "access" at'⟩,
   ⟨"error", named "error" namesFile, fun o => stripXrayFilePath o "error" at'⟩]

theorem cleaner_log :
    Cleaner n (oneOf [named "access" namesFile, named "error" namesFile])
      (fun log at' => inTurn ((logParts at').map (·.edit)) log) := by
  refine cleaner_inTurn logParts ["access", "error"] (fun _ => rfl) (fun _ => rfl) (by decide) ?_
  intro at' part hpart
  simp only [logParts, mem_cons, not_mem_nil, or_false] at hpart
  rcases hpart with rfl | rfl
  · exact sound_stripThat n _ _ _ _ _
  · exact sound_stripThat n _ _ _ _ _

theorem cleaner_rules (message : String) :
    Cleaner (n + 1) (within "rules" (eachItem fun _ => named "webhook" notBlank))
      (fun routing at' => editListNamed routing "rules" at' fun rule ruleAt =>
        stripNamed rule "webhook" ruleAt message false) := by
  have hrule := cleaner_stripNamed n "webhook" message false
  have hsound := fun at' => hrule.soundList "rules" at'
  exact ⟨(hsound "").listing.settled, (hsound "").listing.keysFirst, fun at' => (hsound at').cleans⟩

def configParts : List (Part Issue) :=
  [⟨"inbounds", named "inbounds" notBlank, fun o => stripNamed o "inbounds" "" xrayInboundsMessage false⟩,
   ⟨"api", named "api" notBlank, fun o => stripNamed o "api" "" opensPortMessage false⟩,
   ⟨"metrics", named "metrics" notBlank, fun o => stripNamed o "metrics" "" opensPortMessage false⟩,
   ⟨"reverse", named "reverse" notBlank, fun o => stripNamed o "reverse" "" xrayReverseMessage false⟩,
   ⟨"env", named "env" notBlank, fun o => stripNamed o "env" "" environmentMessage false⟩,
   ⟨"geodata", named "geodata" notBlank, fun o => stripNamed o "geodata" "" geodataMessage false⟩,
   ⟨"routing", within "routing" (within "rules" (eachItem fun _ => named "webhook" notBlank)), fun o =>
     editObjectNamed o "routing" "" fun routing at' => editListNamed routing "rules" at' fun rule ruleAt =>
       stripNamed rule "webhook" ruleAt webhookMessage false⟩,
   ⟨"log", within "log" (oneOf [named "access" namesFile, named "error" namesFile]), fun o =>
     editObjectNamed o "log" "" fun log at' => inTurn ((logParts at').map (·.edit)) log⟩,
   ⟨"outbounds", within "outbounds" (eachItem fun _ => listedInOutbound), fun o =>
     editListNamed o "outbounds" "" stripXrayOutbound⟩]

theorem cleaner_stripXrayExposure : Cleaner n listedInConfig (fun root _ => stripXrayExposure root) := by
  refine cleaner_inTurn (fun _ => configParts)
    ["inbounds", "api", "metrics", "reverse", "env", "geodata", "routing", "log", "outbounds"]
    (fun _ => rfl) (fun _ => rfl) (by decide) ?_
  intro at' part hpart
  simp only [configParts, mem_cons, not_mem_nil, or_false] at hpart
  rcases hpart with rfl | rfl | rfl | rfl | rfl | rfl | rfl | rfl | rfl
  · exact sound_stripNamed n _ _ _ _
  · exact sound_stripNamed n _ _ _ _
  · exact sound_stripNamed n _ _ _ _
  · exact sound_stripNamed n _ _ _ _
  · exact sound_stripNamed n _ _ _ _
  · exact sound_stripNamed n _ _ _ _
  · exact ((cleaner_rules n _).sound _ _).mono (by omega)
  · exact ((cleaner_log n).sound _ _).mono (by omega)
  · exact ((cleaner_stripXrayOutbound n).soundList _ _).mono (by omega)

/-! ## The stripped configuration -/

/-- What is taken out of a full configuration or of one outbound. -/
def listedForXray (full : Bool) : Place := if full then listedInConfig else listedInOutbound

def xraySubType (full : Bool) : SubType := if full then .xrayFullConfig else .xrayOutbound

theorem keepsItems_listedInOutbound : KeepsItems listedInOutbound := by
  refine keepsItems_oneOf fun L hL => ?_
  simp only [mem_cons, not_mem_nil, or_false] at hL
  rcases hL with rfl | rfl
  · exact keepsItems_within _ (keepsItems_named _ _)
  · exact keepsItems_within _ (fun path x value => keyLog_item path x [] value)

theorem keepsItems_listedForXray (full : Bool) : KeepsItems (listedForXray full) := by
  cases full with
  | false => exact keepsItems_listedInOutbound
  | true =>
    refine keepsItems_oneOf fun L hL => ?_
    simp only [mem_cons, not_mem_nil, or_false] at hL
    rcases hL with rfl | rfl | rfl | rfl | rfl | rfl | rfl | rfl | rfl
    · exact keepsItems_named _ _
    · exact keepsItems_named _ _
    · exact keepsItems_named _ _
    · exact keepsItems_named _ _
    · exact keepsItems_named _ _
    · exact keepsItems_named _ _
    · exact keepsItems_within _ (keepsItems_within _ (keepsItems_eachItem (fun _ => keepsItems_named _ _) (fun _ _ => rfl)))
    · refine keepsItems_within _ (keepsItems_oneOf fun M hM => ?_)
      simp only [mem_cons, not_mem_nil, or_false] at hM
      rcases hM with rfl | rfl
      · exact keepsItems_named _ _
      · exact keepsItems_named _ _
    · exact keepsItems_within _ (keepsItems_eachItem (fun _ => keepsItems_listedInOutbound)
        (fun _ => (cleaner_stripXrayOutbound 0).keysFirst.root))

/-- **A foreign Xray configuration is stripped of exactly the listed values**: no spelling of
one is left, every other key, value and list position stays, there is one warning for each
value taken out, and a second run changes and reports nothing. -/
theorem stripForeignState_xray {Text : Type*} (codec : Codec Text) (isLoopback : String → Bool) (full : Bool)
    (given : Profile Text) (issues : List Issue) :
    let custom : Profile Text := { given with type := xraySubType full }
    let after := stripForeignState codec isLoopback custom issues
    let listed := listedForXray full
    NoneLeft listed (.obj (after.1.root codec)) ∧
      after.1.root codec = pruneMembers listed (custom.root codec) ∧
      KeepsItems listed ∧
      (∃ new, after.2 = issues ++ new ∧ new.length = removedMembers listed (custom.root codec) ∧
        ∀ issue ∈ new, issue.Warns) ∧
      ∀ later, stripForeignState codec isLoopback after.1 later = (after.1, later) := by
  intro custom after listed
  have hclean : Settled listed ∧ ∀ n, Cleans Issue.Warns n listed (stripRoot isLoopback custom.type) := by
    cases full with
    | false => exact ⟨(cleaner_stripXrayOutbound 0).settled, fun n => (cleaner_stripXrayOutbound n).cleans ""⟩
    | true => exact ⟨(cleaner_stripXrayExposure 0).settled, fun n => (cleaner_stripXrayExposure n).cleans ""⟩
  obtain ⟨hsettled, hcleans⟩ := hclean
  have hproper : proper (.obj (custom.root codec)) = true := (codec.read custom.config).ok
  have hfirst := hcleans _ (custom.root codec) hproper (.refl)
  have hagain := hcleans _ _ (proper_prune listed hproper) (.refl)
  exact ⟨stripForeignState_noneLeft codec isLoopback hfirst hsettled issues,
    stripForeignState_root codec isLoopback hfirst issues, keepsItems_listedForXray full,
    stripForeignState_issues codec isLoopback hfirst issues,
    stripForeignState_again codec isLoopback hfirst hsettled hagain issues⟩

end Waterdisco.Custom
