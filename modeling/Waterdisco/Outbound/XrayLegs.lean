import Waterdisco.Outbound.XrayEdits

/-!
# Edits that reach the download leg

The leg is held by the settings of `xhttpSettings`, or of `splithttpSettings` where there
are none, and there by `extra` where it is given.  An edit of legs (`EditsLeg`) goes down
this path one level at a time.

    decodeStream (edited) = (decodeStream n).mapLeg f               (editDownloadLeg_decodes)
    decode (edited outbound) = edit of decode                        (edits_decode)
-/

namespace Waterdisco.XrayStream

open List Option

/-- An edit of the objects of a leg, and what it makes of the leg. -/
structure EditsLeg (edit : List Object → List Object) (f : Leg → Leg) : Prop where
  length : ∀ n, (edit n).length = n.length
  decodes : ∀ n, Proper n → n ≠ [] → FitsLeg n → decodeLeg [] (edit n) = f (decodeLeg [] n)

theorem Ready.of_proper {n : List Object} {field : String} (h : Proper n) (hne : n ≠ [])
    (hfits : Fits n field) : Ready n field :=
  ⟨h.distinct, hne, hfits, fun _ hv => h.values hv⟩

/-! ## The holders of the leg -/

section

variable {n : List Object} {edit : List Object → List Object} {f : Leg → Leg}

theorem settings_decodes (hedit : EditsLeg edit f) (h : Proper n) (hne : n ≠ []) (hfits : FitsSettings n) :
    decodeSettings (xrayStreamEditLive n "downloadSettings" false edit).holders = (decodeSettings n).mapLeg f := by
  have honly : Only "downloadSettings" n (xrayStreamEditLive n "downloadSettings" false edit).holders :=
    fun _ hother => editLive_other h.distinct hfits.field hother
  have hpointer : pointer (xrayStreamEditLive n "downloadSettings" false edit).holders "downloadSettings" = _ :=
    editLive_pointer h.distinct hne hfits.field hedit.length
  rw [decodeSettings, honly.others (by simp), hpointer, decodeSettings, Settings.mapLeg]
  cases hleg : pointer n "downloadSettings" with
  | none => rfl
  | some l =>
    have hproper : Proper l := (Ready.of_proper h hne hfits.field).proper.pointer hleg
    have hdecoded := hedit.decodes l hproper (pointer_ne_nil hleg) (hfits.leg l hleg)
    rw [map_some, map_some, hdecoded]
    rfl

/-- Of the spellings of `extra` the last one counts. -/
theorem extra_last (h : DistinctKeys n) :
    (values n "extra").getLast? = (placesNamed n "extra").getLast?.bind (valueIn n) := by
  rw [← values_places h, getLast?_map]
  cases hplace : (placesNamed n "extra").getLast? with
  | none => rfl
  | some p =>
    obtain ⟨v, hv⟩ := ne_none_iff_exists'.mp (mem_placesNamed.mp (mem_of_getLast? hplace)).2
    show some ((valueIn n p).getD .null) = valueIn n p
    rw [hv]
    rfl

/-- A value put in at the last spelling of `extra` is the one that counts. -/
theorem extra_written (h : DistinctKeys n) {place : Nat × String}
    (hplace : (placesNamed n "extra").getLast? = some place)
    (v : Json) : (values (insertIn n place v) "extra").getLast? = some v := by
  have hvalue := (mem_placesNamed.mp (mem_of_getLast? hplace)).2
  rw [extra_last (distinctKeys_insertIn h place v), placesNamed_insertIn (.inr hvalue), hplace, bind_some,
    valueIn_insertIn (valueIn_lt hvalue), if_pos rfl]

variable {n' : List Object} {field : String}

theorem Only.decodeSettings (h : Only "extra" n n') : decodeSettings n' = decodeSettings n := by
  rw [XrayStream.decodeSettings, XrayStream.decodeSettings,
    pointer_congr (h "downloadSettings" (by decide)), h.others (by simp)]

theorem fromHolders_length (edit : List Object → List Object) (n : List Object) :
    (xrayStreamFromHolders edit n).length = n.length := by
  rw [xrayStreamFromHolders]
  split
  · exact editLive_length
  split
  · exact length_modify _ _ _
  · rfl

/-- The settings that count are edited, in `extra` where it is given. -/
theorem fromHolders_decodes (hedit : EditsLeg edit f) (h : Proper n) (hne : n ≠ []) (hfits : FitsHolder n) :
    decodeHolder (xrayStreamFromHolders edit n) = (decodeHolder n).mapLeg f := by
  have hlast := extra_last h.distinct
  rw [xrayStreamFromHolders]
  cases hplace : (placesNamed n "extra").getLast? with
  | none =>
    rw [hplace, bind_none] at hlast
    have hother : values (xrayStreamEditLive n "downloadSettings" false edit).holders "extra" = values n "extra" :=
      editLive_other h.distinct hfits.own.field (by decide)
    rw [decodeHolder, hother, hlast, settings_decodes hedit h hne hfits.own, Holder.mapLeg, decodeHolder, hlast]
    rfl
  | some place =>
    rw [hplace, bind_some] at hlast
    have hmem : place ∈ placesNamed n "extra" := mem_of_getLast? hplace
    obtain ⟨v, hv⟩ := ne_none_iff_exists'.mp (mem_placesNamed.mp hmem).2
    rw [hv] at hlast
    dsimp only
    rcases hfits.field v hlast with hnull | hobject
    · -- a null `extra` leaves no settings, so no leg
      obtain rfl : v = .null := Json.eq_null hnull
      rw [hv, decodeHolder, hlast, Holder.mapLeg]
      rfl
    obtain ⟨extra, rfl⟩ := Json.eq_obj hobject
    have hproper : Proper [extra] := by
      intro o ho
      rw [mem_singleton.mp ho]
      exact h.values (mem_of_getLast? hlast)
    have hsettings := settings_decodes hedit hproper (cons_ne_nil _ _) (hfits.extra _ hlast)
    obtain ⟨extra', hextra'⟩ := length_eq_one_iff.mp
      (editLive_length : (xrayStreamEditLive [extra] "downloadSettings" false edit).holders.length = 1)
    have hwritten := extra_written h.distinct hplace (.obj extra') 
    have honly : Only "extra" n (insertIn n place (.obj extra')) := fun other hother =>
      values_insertIn_other h.distinct (valueIn_lt (mem_placesNamed.mp hmem).2)
        (sameName_unique (mem_placesNamed.mp hmem).1 (Ne.symm hother)) _
    rw [hv]
    dsimp only
    rw [hextra', headD_cons, decodeHolder, hwritten, decodeHolder, hlast, honly.decodeSettings]
    rw [hextra'] at hsettings
    exact congrArg (fun s => (⟨decodeSettings n, some s⟩ : Holder)) hsettings

/-! ## The stream -/

/-- The settings of a stream can be edited. -/
structure Legs (n : List Object) : Prop where
  xhttp : Ready n "xhttpSettings"
  xhttpHolder : ∀ h, pointer n "xhttpSettings" = some h → FitsHolder h
  splithttp : Ready n "splithttpSettings"
  splithttpHolder : ∀ h, pointer n "splithttpSettings" = some h → FitsHolder h

theorem Legs.of_fits (h : Proper n) (hne : n ≠ []) (hfits : FitsStream n) : Legs n :=
  ⟨.of_proper h hne hfits.xhttpField, hfits.xhttp, .of_proper h hne hfits.splithttpField, hfits.splithttp⟩

theorem Legs.only (h : Legs n) (honly : Only field n n')
    (hxhttp : foldName "xhttpSettings" ≠ foldName field) (hsplithttp : foldName "splithttpSettings" ≠ foldName field)
    (hdistinct : DistinctKeys n') (hlength : n'.length = n.length) : Legs n' := by
  have hfilled : n' ≠ [] := by
    rintro rfl
    exact h.xhttp.filled (length_eq_zero_iff.mp hlength.symm)
  refine ⟨h.xhttp.of_values (honly _ hxhttp) hdistinct hfilled, fun m hm => h.xhttpHolder m ?_,
    h.splithttp.of_values (honly _ hsplithttp) hdistinct hfilled, fun m hm => h.splithttpHolder m ?_⟩
  · rw [← hm, pointer_congr (honly _ hxhttp)]
  · rw [← hm, pointer_congr (honly _ hsplithttp)]

theorem holder_pointer (hedit : EditsLeg edit f) (h : Ready n field)
    (hholder : ∀ m, pointer n field = some m → FitsHolder m) :
    (pointer (xrayStreamEditLive n field false (xrayStreamFromHolders edit)).holders field).map decodeHolder =
      ((pointer n field).map decodeHolder).map (Holder.mapLeg f) := by
  have hpointer : pointer (xrayStreamEditLive n field false (xrayStreamFromHolders edit)).holders field = _ :=
    editLive_pointer h.distinct h.filled h.fits (fromHolders_length edit)
  rw [hpointer]
  cases hm : pointer n field with
  | none => rfl
  | some m => exact congrArg some (fromHolders_decodes hedit (h.proper.pointer hm) (pointer_ne_nil hm) (hholder m hm))

theorem Only.decodeLeg_known (h : Only field n n') {known : List String}
    (hfield : field ∈ known) (hapart : ∀ name ∈ ["security", "sockopt", "tlsSettings"], foldName name ≠ foldName field) :
    decodeLeg known n' = decodeLeg known n := by
  rw [decodeLeg, decodeLeg, lastText_congr (h "security" (hapart _ (by simp))),
    pointer_congr (h "sockopt" (hapart _ (by simp))),
    pointer_congr (h "tlsSettings" (hapart _ (by simp))), h.others (by simp [hfield])]

theorem editDownloadLeg_decodes (hedit : EditsLeg edit f) (h : Legs n) :
    decodeStream (xrayStreamEditDownloadLeg edit n) = (decodeStream n).mapLeg f := by
  have honly : Only "xhttpSettings" n (xrayStreamEditLive n "xhttpSettings" false (xrayStreamFromHolders edit)).holders :=
    fun _ hother => editLive_other h.xhttp.distinct h.xhttp.fits hother
  have hxhttp := holder_pointer hedit h.xhttp h.xhttpHolder
  have hmain : decodeLeg ["xhttpSettings", "splithttpSettings"] _ = decodeLeg ["xhttpSettings", "splithttpSettings"] n :=
    honly.decodeLeg_known (by simp) (by decide)
  have hsplithttp := pointer_congr (honly "splithttpSettings" (by decide))
  have hgiven : (xrayStreamEditLive n "xhttpSettings" false (xrayStreamFromHolders edit)).given =
    pointer n "xhttpSettings" :=
    editLive_given h.xhttp.distinct h.xhttp.fits
  rw [xrayStreamEditDownloadLeg, hgiven]
  cases hheld : pointer n "xhttpSettings" with
  | some m =>
    rw [isSome_some, if_pos rfl, decodeStream, hmain, hsplithttp, hxhttp, decodeStream, hheld]
    rfl
  | none =>
    rw [isSome_none, if_neg Bool.false_ne_true]
    generalize hafter : (xrayStreamEditLive n "xhttpSettings" false (xrayStreamFromHolders edit)).holders = n' at *
    have hdistinct : DistinctKeys n' := hafter ▸ editLive_distinct h.xhttp.distinct h.xhttp.fits
    have hlength : n'.length = n.length := hafter ▸ editLive_length
    have hfilled : n' ≠ [] := by
      rintro rfl
      exact h.xhttp.filled (length_eq_zero_iff.mp hlength.symm)
    have hready : Ready n' "splithttpSettings" := h.splithttp.of_values (honly _ (by decide)) hdistinct hfilled
    have honly' : Only "splithttpSettings" n' (xrayStreamEditLive n' "splithttpSettings" false (xrayStreamFromHolders edit)).holders :=
      fun _ hother => editLive_other hready.distinct hready.fits hother
    have hedited := holder_pointer hedit hready fun m hm => h.splithttpHolder m (by rw [← hm, hsplithttp])
    have hnone := pointer_congr ( honly' "xhttpSettings" (by decide))
    rw [decodeStream, honly'.decodeLeg_known (by simp) (by decide), hmain, hnone, hxhttp, hedited,
      hsplithttp, decodeStream, hheld]
    rfl

theorem editDownloadLeg_length (edit : List Object → List Object) (n : List Object) :
    (xrayStreamEditDownloadLeg edit n).length = n.length := by
  rw [xrayStreamEditDownloadLeg]
  split
  · exact editLive_length
  · rw [editLive_length, editLive_length]

end

/-! ## The edits -/

theorem dial_editsLeg (tag : String) : EditsLeg (xrayStreamSetSockopt "dialerProxy" tag) (Leg.dial tag) :=
  ⟨fun _ => setSockopt_length "dialerProxy" tag,
    fun _ h hne hfits => dial_decodes (.of_proper h hne hfits.sockopt) [] tag⟩

theorem bind_editsLeg (iface : String) : EditsLeg (bindLeg iface) (Leg.bind iface) :=
  ⟨bindLeg_length iface, fun _ h hne hfits => bind_decodes (.of_proper h hne hfits.sockopt) []⟩

theorem trust_editsLeg : EditsLeg useSystemCA Leg.trust :=
  ⟨useSystemCA_length, fun _ h hne hfits => trust_decodes (.of_proper h hne hfits.tls) []⟩

section

variable {n : List Object}

theorem decodeStream_main {n' : List Object} {field : String} (honly : Only field n n')
    (hxhttp : foldName "xhttpSettings" ≠ foldName field) (hsplithttp : foldName "splithttpSettings" ≠ foldName field)
    {f : Leg → Leg} (hmain : decodeLeg ["xhttpSettings", "splithttpSettings"] n' =
      f (decodeLeg ["xhttpSettings", "splithttpSettings"] n)) : decodeStream n' = (decodeStream n).mapMain f := by
  rw [decodeStream, hmain, pointer_congr (honly _ hxhttp), pointer_congr (honly _ hsplithttp)]
  rfl

theorem dialStream_decodes (h : Proper n) (hne : n ≠ []) (hfits : FitsStream n) (tag : String) :
    decodeStream (xrayStreamEditDownloadLeg (xrayStreamSetSockopt "dialerProxy" tag) (xrayStreamSetSockopt "dialerProxy" tag n)) =
      ((decodeStream n).mapMain (Leg.dial tag)).mapLeg (Leg.dial tag) := by
  have hready : Ready n "sockopt" := .of_proper h hne hfits.main.sockopt
  have honly := setSockopt_only hready "dialerProxy" tag
  have hlegs : Legs (xrayStreamSetSockopt "dialerProxy" tag n) :=
    (Legs.of_fits h hne hfits).only honly (by decide) (by decide) (setSockopt_distinct hready _ _) (setSockopt_length _ _)
  rw [editDownloadLeg_decodes (dial_editsLeg tag) hlegs,
    decodeStream_main honly (by decide) (by decide) (dial_decodes hready _ tag)]

theorem trustStream_decodes (h : Proper n) (hne : n ≠ []) (hfits : FitsStream n) :
    decodeStream (xrayStreamEditDownloadLeg useSystemCA (useSystemCA n)) =
      ((decodeStream n).mapMain Leg.trust).mapLeg Leg.trust := by
  have hready : Ready n "tlsSettings" := .of_proper h hne hfits.main.tls
  have honly := useSystemCA_only hready
  have hlegs : Legs (useSystemCA n) :=
    (Legs.of_fits h hne hfits).only honly (by decide) (by decide) (useSystemCA_distinct hready) (useSystemCA_length n)
  rw [editDownloadLeg_decodes trust_editsLeg hlegs,
    decodeStream_main honly (by decide) (by decide) (trust_decodes hready _)]

theorem editOutbound_decodes {o : Object} (h : proper (.obj o) = true) (hdecodes : Decodes o) {create : Bool}
    {edit : List Object → List Object} (hlength : ∀ n, (edit n).length = n.length) :
    decode (editOutbound o create edit) =
      { decode o with
        stream :=
          match pointer [o] "streamSettings" with
          | some s => some (decodeStream (edit s))
          | none => if create then some (decodeStream (edit [[]])) else none } := by
  have hproper : Proper [o] := by
    intro o' ho'
    rw [mem_singleton.mp ho']
    exact h
  obtain ⟨o', ho'⟩ := length_eq_one_iff.mp
    (editLive_length : (xrayStreamEditLive [o] "streamSettings" create edit).holders.length = 1)
  have honly : Only "streamSettings" [o] (xrayStreamEditLive [o] "streamSettings" create edit).holders :=
    fun _ hother => editLive_other hproper.distinct hdecodes.field hother
  have hpointer : pointer (xrayStreamEditLive [o] "streamSettings" create edit).holders "streamSettings" = _ :=
    editLive_pointer hproper.distinct (cons_ne_nil _ _) hdecodes.field hlength
  rw [editOutbound, ho', headD_cons, decode, decode]
  rw [ho'] at honly hpointer
  rw [honly.others (by simp), hpointer]
  cases pointer [o] "streamSettings" with
  | some s => rfl
  | none => cases create <;> rfl

theorem decodeStream_new : decodeStream [[]] = Stream.empty := by
  have hothers : ∀ known, others [[]] known = fun _ => [] := by
    intro known
    funext name
    rw [others]
    split <;> rfl
  have hmain : decodeLeg ["xhttpSettings", "splithttpSettings"] [[]] = ⟨"", none, none, fun _ => []⟩ := by
    rw [decodeLeg, hothers]
    rfl
  rw [decodeStream, hmain]
  rfl

theorem fitsStream_new : FitsStream [[]] := by
  have hfits : ∀ name, Fits [[]] name := fun name v hv => absurd hv not_mem_nil
  have hnone : ∀ {name : String} {P : List Object → Prop}, ∀ m, pointer [[]] name = some m → P m :=
    fun m hm => absurd hm nofun
  exact ⟨⟨hfits _, hfits _⟩, hfits _, hnone, hfits _, hnone⟩

end

/-- **The edits, as the core reads them.** The dialer proxy is that of the main stream and of
the download leg, a leg that names no interface gets the one given, every tls stream without
a value of its own trusts the system certificates; all else is what it was. -/
theorem edits_decode (o : Object) (h : proper (.obj o) = true) (hdecodes : Decodes o) :
    (∀ tag, decode (setXrayDialerProxy o tag) =
        { decode o with
          stream := some ((((decode o).stream.getD .empty).mapMain (Leg.dial tag)).mapLeg (Leg.dial tag)) }) ∧
      (∀ iface, iface ≠ "" → decode (bindXrayDownloadLeg o iface) =
        { decode o with stream := (decode o).stream.map (Stream.mapLeg (Leg.bind iface)) }) ∧
      decode (useXraySystemCA o) =
        { decode o with stream := (decode o).stream.map fun s => (s.mapMain Leg.trust).mapLeg Leg.trust } := by
  have hheld : ∀ s, pointer [o] "streamSettings" = some s → Proper s ∧ s ≠ [] ∧ FitsStream s := by
    intro s hs
    have hproper : Proper [o] := by
      intro o' ho'
      rw [mem_singleton.mp ho']
      exact h
    have hready : Ready [o] "streamSettings" := .of_proper hproper (cons_ne_nil _ _) hdecodes.field
    exact ⟨hready.proper.pointer hs, pointer_ne_nil hs, hdecodes.stream s hs⟩
  have hdecode : ∀ s, pointer [o] "streamSettings" = s → (decode o).stream = s.map decodeStream := by
    rintro s rfl
    rfl
  refine ⟨fun tag => ?_, fun iface hiface => ?_, ?_⟩
  · rw [setXrayDialerProxy, editOutbound_decodes h hdecodes fun n => by rw [editDownloadLeg_length, setSockopt_length]]
    cases hs : pointer [o] "streamSettings" with
    | some s =>
      obtain ⟨hproper, hfilled, hfits⟩ := hheld s hs
      dsimp only
      rw [hdecode _ hs, dialStream_decodes hproper hfilled hfits]
      rfl
    | none =>
      dsimp only
      rw [hdecode _ hs, dialStream_decodes proper_new (cons_ne_nil _ _) fitsStream_new, decodeStream_new]
      rfl
  · have hnonempty : iface.isEmpty = false := by simpa using hiface
    rw [bindXrayDownloadLeg, hnonempty, if_neg Bool.false_ne_true,
      editOutbound_decodes h hdecodes (editDownloadLeg_length _)]
    cases hs : pointer [o] "streamSettings" with
    | some s =>
      obtain ⟨hproper, hfilled, hfits⟩ := hheld s hs
      dsimp only
      rw [hdecode _ hs, editDownloadLeg_decodes (bind_editsLeg iface) (Legs.of_fits hproper hfilled hfits)]
      rfl
    | none =>
      dsimp only
      rw [hdecode _ hs]
      rfl
  · rw [useXraySystemCA, editOutbound_decodes h hdecodes fun n => by rw [editDownloadLeg_length, useSystemCA_length]]
    cases hs : pointer [o] "streamSettings" with
    | some s =>
      obtain ⟨hproper, hfilled, hfits⟩ := hheld s hs
      dsimp only
      rw [hdecode _ hs, trustStream_decodes hproper hfilled hfits]
      rfl
    | none =>
      dsimp only
      rw [hdecode _ hs]
      rfl

/-! ## A leg in two spellings -/

/-- A leg that is spelled twice, in settings that are spelled twice. -/
def splitLeg : Object :=
  [("streamSettings", .obj [
    ("SplitHttpSettings", .obj [("downloadSettings", .obj [("security", .str "TLS"), ("tlsSettings", .obj [])])]),
    ("splithttpSettings", .obj [("DownloadSettings",
      .obj [("TLSSettings", .null), ("sockopt", .obj [("Interface", .str "wg0")])])])])]

theorem pointer_is {n : List Object} {name : String} {s : List Object} {P : List Object → Prop}
    (h : pointer n name = some s) (hp : P s) : ∀ m, pointer n name = some m → P m := by
  intro m hm
  rw [h] at hm
  exact some.inj hm ▸ hp

theorem splitLeg_fits : Decodes splitLeg := by
  refine ⟨by decide, pointer_is rfl ⟨⟨by decide, by decide⟩, by decide, nofun, by decide, pointer_is rfl ?_⟩⟩
  exact ⟨⟨by decide, pointer_is rfl ⟨by decide, by decide⟩⟩, nofun, nofun⟩

/-- The later null has discarded the tls settings, new ones are made; the interface stays. -/
theorem edits_decode_splitLeg :
    (((decode (useXraySystemCA splitLeg)).stream.bind fun s => s.downloadLeg).map fun l => l.tls.map (·.useSystemCA)) =
        some (some (some true)) ∧
      (((decode (bindXrayDownloadLeg splitLeg "eth0")).stream.bind fun s => s.downloadLeg).map fun l =>
        l.sockopt.map (·.interface)) = some (some "wg0") := by
  obtain ⟨-, hbind, htrust⟩ := edits_decode splitLeg (by decide) splitLeg_fits
  rw [htrust, hbind "eth0" (by decide)]
  exact ⟨by decide, by decide⟩

end Waterdisco.XrayStream
