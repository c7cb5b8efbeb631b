import Waterdisco.Outbound.XrayDecoded

/-!
# Edits of an Xray stream, as the core reads them

Each edit of the document is one edit of what the core reads, and nothing else: the
dialer proxy goes to the main stream and to the download leg, the interface to the leg, the
system certificates to both.

    decode (setXrayDialerProxy o tag) = (decode o).dial tag        and the like       (edits_decode)
-/

namespace Waterdisco.XrayStream

open List Option Bool

/-! ## Edits of decoded values -/

def Sockopt.empty : Sockopt := ⟨"", "", fun _ => []⟩

def Leg.dial (tag : String) (l : Leg) : Leg :=
  { l with sockopt := some { l.sockopt.getD .empty with dialerProxy := tag } }

/-- An interface of its own stays. -/
def Leg.bind (iface : String) (l : Leg) : Leg :=
  let sockopt := l.sockopt.getD .empty
  { l with sockopt := some { sockopt with interface := if sockopt.interface.isEmpty then iface else sockopt.interface } }

def Tls.empty : Tls := ⟨none, fun _ => []⟩

/-- A value of its own stays; a stream without tls stays as it is. -/
def Leg.trust (l : Leg) : Leg :=
  if xrayLower l.security = "tls" then
    let tls := l.tls.getD .empty
    { l with tls := some { tls with useSystemCA := some (tls.useSystemCA.getD true) } }
  else l

def Settings.mapLeg (f : Leg → Leg) (s : Settings) : Settings := { s with leg := s.leg.map f }

/-- The settings that count are edited. -/
def Holder.mapLeg (f : Leg → Leg) (h : Holder) : Holder :=
  match h.extra with
  | some extra => { h with extra := some (extra.mapLeg f) }
  | none => { h with own := h.own.mapLeg f }

def Stream.mapLeg (f : Leg → Leg) (s : Stream) : Stream :=
  match s.xhttp with
  | some h => { s with xhttp := some (h.mapLeg f) }
  | none => { s with splithttp := s.splithttp.map (Holder.mapLeg f) }

def Stream.mapMain (f : Leg → Leg) (s : Stream) : Stream := { s with main := f s.main }

def Stream.empty : Stream := ⟨⟨"", none, none, fun _ => []⟩, none, none⟩

/-! ## What depends on what -/

section

variable {n n' : List Object} {field : String}

theorem last_congr {name : String} (h : values n' name = values n name) (p : Bool) :
    xrayStreamLast n' name p = xrayStreamLast n name p := by
  rw [xrayStreamLast, xrayStreamLast, h]

theorem lastText_congr {name : String} (h : values n' name = values n name) : lastText n' name = lastText n name := by
  rw [lastText, lastText, last_congr h]

/-- The two nodes differ in the one field at most. -/
def Only (field : String) (n n' : List Object) : Prop :=
  ∀ other, foldName other ≠ foldName field → values n' other = values n other

theorem Only.others (h : Only field n n') {known : List String} (hfield : field ∈ known) :
    others n' known = others n known := by
  funext name
  rw [XrayStream.others, XrayStream.others]
  by_cases hname : foldName name = foldName field
  · have hknown : known.any (sameName name) = true := any_eq_true.mpr ⟨field, hfield, sameName_iff.mpr hname⟩
    rw [if_pos hknown, if_pos hknown]
  · rw [h name hname]

theorem Only.decodeLeg_sockopt (h : Only "sockopt" n n') (known : List String) :
    decodeLeg known n' = { decodeLeg known n with sockopt := (pointer n' "sockopt").map decodeSockopt } := by
  rw [decodeLeg, decodeLeg, lastText_congr (h "security" (by decide)), pointer_congr (h "tlsSettings" (by decide)),
    h.others (by simp)]

theorem Only.decodeLeg_tls (h : Only "tlsSettings" n n') (known : List String) :
    decodeLeg known n' = { decodeLeg known n with tls := (pointer n' "tlsSettings").map decodeTls } := by
  rw [decodeLeg, decodeLeg, lastText_congr (h "security" (by decide)), pointer_congr (h "sockopt" (by decide)),
    h.others (by simp)]

end

/-! ## Writing a key -/

theorem removeNamed_eq (o : Object) (name : String) :
    xrayStreamRemoveNamed o name = o.filter fun m => !sameName m.1 name := by
  have hfold : ∀ (keys : List String) (o : Object), keys.foldl removeKey o = o.filter fun m => !keys.contains m.1 := by
    intro keys
    induction keys with
    | nil => simp
    | cons key keys ih =>
      intro o
      rw [List.foldl_cons, ih, removeKey, List.filter_filter]
      refine filter_congr fun m _ => ?_
      by_cases hm : m.1 = key
      · simp [hm]
      · simp [hm]
  rw [xrayStreamRemoveNamed, hfold]
  refine filter_congr fun m hm => ?_
  have hin : (keysNamed o name).contains m.1 = sameName m.1 name := by
    rw [Bool.eq_iff_iff, List.contains_iff_mem, keysNamed, List.mem_filter]
    exact and_iff_right (mem_map_of_mem hm)
  rw [hin]

section

variable {n : List Object} {key : String}

theorem cleared_distinct (h : DistinctKeys n) : DistinctKeys (n.map fun o => xrayStreamRemoveNamed o key) := by
  intro o' ho'
  obtain ⟨o, ho, rfl⟩ := mem_map.mp ho'
  rw [removeNamed_eq]
  exact (h o ho).sublist (filter_sublist.map _)

theorem cleared_self : values (n.map fun o => xrayStreamRemoveNamed o key) key = [] := by
  rw [values, List.flatMap_map, List.flatMap_eq_nil_iff]
  intro o _
  rw [removeNamed_eq, List.filter_filter, List.map_eq_nil_iff, List.filter_eq_nil_iff]
  intro m _
  simp

theorem cleared_other {other : String} (hother : foldName other ≠ foldName key) :
    values (n.map fun o => xrayStreamRemoveNamed o key) other = values n other := by
  rw [values, values, List.flatMap_map]
  refine List.flatMap_congr fun o _ => ?_
  rw [removeNamed_eq, List.filter_filter]
  congr 1
  refine List.filter_congr fun m _ => ?_
  cases hm : sameName m.1 other with
  | false => rfl
  | true => rw [sameName_unique hm hother, Bool.not_false, Bool.and_true]

theorem setLast_length (value : Json) : (setLast key value n).length = n.length := length_modify _ _ _

theorem last_lt (hne : n ≠ []) : n.length - 1 < n.length := Nat.sub_lt (length_pos_iff.mpr hne) Nat.one_pos

theorem setLast_other (h : DistinctKeys n) (hne : n ≠ []) (value : Json) : Only key n (setLast key value n) :=
  fun _ hother => values_insertIn_other (p := (n.length - 1,
    key)) h (last_lt hne) (sameName_unique (sameName_self key) (Ne.symm hother)) value

theorem setLast_self (h : DistinctKeys n) (hne : n ≠ []) (hnone : values n key = []) (value : Json) :
    values (setLast key value n) key = [value] :=
  values_insertIn_first (p := (n.length - 1, key)) h (last_lt hne) (sameName_self key) (placesNamed_eq_nil h hnone) value

end

/-! ## Sockopts -/

theorem decodeSockopt_new : decodeSockopt [[]] = Sockopt.empty := by
  rw [decodeSockopt, Sockopt.empty]
  congr 1
  funext name
  rw [others]
  split <;> rfl

theorem decodeTls_new : decodeTls [[]] = Tls.empty := by
  rw [decodeTls, Tls.empty]
  congr 1
  funext name
  rw [others]
  split <;> rfl

theorem proper_new : Proper [[]] := by
  intro o ho
  obtain rfl := mem_singleton.mp ho
  rfl

section

variable {n : List Object}

/-- What the edit of the sockopts makes of them. -/
def written (key value : String) (n : List Object) : List Object :=
  setLast key (.str value) (n.map fun sockopt => xrayStreamRemoveNamed sockopt key)

theorem written_length (key value : String) (n : List Object) : (written key value n).length = n.length := by
  rw [written, setLast_length, length_map]

theorem written_spec (h : DistinctKeys n) (hne : n ≠ []) (key value : String) :
    Only key n (written key value n) ∧ values (written key value n) key = [.str value] := by
  have hcleared : DistinctKeys (n.map fun o => xrayStreamRemoveNamed o key) := cleared_distinct h
  have hfilled : (n.map fun o => xrayStreamRemoveNamed o key) ≠ [] := by simpa using hne
  exact ⟨fun other hother => (setLast_other hcleared hfilled _ other hother).trans (cleared_other hother),
    setLast_self hcleared hfilled cleared_self _⟩

theorem lastText_single {key value : String} (h : values n key = [.str value]) : lastText n key = value := by
  rw [lastText, xrayStreamLast, h]
  rfl

theorem decodeSockopt_dialerProxy (h : DistinctKeys n) (hne : n ≠ []) (value : String) :
    decodeSockopt (written "dialerProxy" value n) = { decodeSockopt n with dialerProxy := value } := by
  obtain ⟨honly, hself⟩ := written_spec h hne "dialerProxy" value
  rw [decodeSockopt, decodeSockopt, lastText_single hself,
    lastText_congr (honly "interface" (by decide)), honly.others (by simp)]

theorem decodeSockopt_interface (h : DistinctKeys n) (hne : n ≠ []) (value : String) :
    decodeSockopt (written "interface" value n) = { decodeSockopt n with interface := value } := by
  obtain ⟨honly, hself⟩ := written_spec h hne "interface" value
  rw [decodeSockopt, decodeSockopt, lastText_single hself,
    lastText_congr (honly "dialerProxy" (by decide)), honly.others (by simp)]

/-- A node that an edit can work on. -/
structure Ready (n : List Object) (field : String) : Prop where
  distinct : DistinctKeys n
  filled : n ≠ []
  fits : Fits n field
  proper : ProperAt n field

theorem Ready.of_values {n' : List Object} {field : String} (h : Ready n field)
    (hvalues : values n' field = values n field)
    (hdistinct : DistinctKeys n') (hfilled : n' ≠ []) : Ready n' field := by
  refine ⟨hdistinct, hfilled, fun v hv => h.fits v ?_, fun v hv => h.proper v ?_⟩
  · rw [← hvalues]
    exact hv
  · rw [← hvalues]
    exact hv

theorem Ready.held {field : String} (h : Ready n field) {s : List Object} (hs : pointer n field = some s) :
    DistinctKeys s ∧ s ≠ [] := ⟨(h.proper.pointer hs).distinct, pointer_ne_nil hs⟩

variable (h : Ready n "sockopt")

include h in
theorem setSockopt_only (key value : String) : Only "sockopt" n (xrayStreamSetSockopt key value n) :=
  fun _ hother => editLive_other h.distinct h.fits hother

theorem setSockopt_length (key value : String) : (xrayStreamSetSockopt key value n).length = n.length := editLive_length

include h

theorem setSockopt_distinct (key value : String) : DistinctKeys (xrayStreamSetSockopt key value n) :=
  editLive_distinct h.distinct h.fits

theorem setSockopt_pointer (key value : String) :
    pointer (xrayStreamSetSockopt key value n) "sockopt" =
      some (written key value ((pointer n "sockopt").getD [[]])) := by
  have hedit : pointer (xrayStreamEditLive n "sockopt" true (written key value)).holders "sockopt" = _ :=
    editLive_pointer h.distinct h.filled h.fits (written_length key value)
  cases hsockopt : pointer n "sockopt" with
  | none =>
    rwa [hsockopt] at hedit
  | some s =>
    rwa [hsockopt] at hedit

theorem sockopt_held :
    DistinctKeys ((pointer n "sockopt").getD [[]]) ∧ (pointer n "sockopt").getD [[]] ≠ [] := by
  cases hsockopt : pointer n "sockopt" with
  | none => exact ⟨proper_new.distinct, cons_ne_nil _ _⟩
  | some s => exact h.held hsockopt

omit h

theorem decodeSockopt_getD : decodeSockopt ((pointer n "sockopt").getD [[]]) =
    ((pointer n "sockopt").map decodeSockopt).getD .empty := by
  cases pointer n "sockopt" with
  | none => exact decodeSockopt_new
  | some s => rfl

include h

theorem dial_decodes (known : List String) (tag : String) :
    decodeLeg known (xrayStreamSetSockopt "dialerProxy" tag n) = (decodeLeg known n).dial tag := by
  obtain ⟨hdistinct, hfilled⟩ := sockopt_held h
  rw [(setSockopt_only h "dialerProxy" tag).decodeLeg_sockopt, setSockopt_pointer h, map_some,
    decodeSockopt_dialerProxy hdistinct hfilled, decodeSockopt_getD]
  rfl

/-! ## The download leg's interface -/

theorem own_only : Only "sockopt" n (xrayStreamEditLive n "sockopt" false id).holders :=
  fun _ hother => editLive_other h.distinct h.fits hother

theorem own_pointer :
    pointer (xrayStreamEditLive n "sockopt" false id).holders "sockopt" = pointer n "sockopt" := by
  have hpointer : pointer (xrayStreamEditLive n "sockopt" false id).holders "sockopt" = _ :=
    editLive_pointer h.distinct h.filled h.fits fun _ => rfl
  rw [hpointer]
  cases pointer n "sockopt" with
  | none => rfl
  | some s => rfl

/-- Reading the sockopts drops what a null discards, and nothing else. -/
theorem own_ready : Ready (xrayStreamEditLive n "sockopt" false id).holders "sockopt" := by
  have hread : values (xrayStreamEditLive n "sockopt" false id).holders "sockopt" = _ :=
    editLive_values h.distinct h.filled h.fits fun _ => rfl
  have hvalues : ∀ v ∈ values (xrayStreamEditLive n "sockopt" false id).holders "sockopt",
      v.isObject = true ∧ proper v = true := by
    intro v hv
    rw [hread] at hv
    cases hsockopt : pointer n "sockopt" with
    | none =>
      rw [hsockopt] at hv
      cases hv
    | some s =>
      rw [hsockopt] at hv
      obtain ⟨o, ho, rfl⟩ := mem_map.mp hv
      exact ⟨rfl, h.proper.pointer hsockopt o ho⟩
  refine ⟨editLive_distinct h.distinct h.fits, ?_, fun v hv => .inr (hvalues v hv).1, fun v hv => (hvalues v hv).2⟩
  intro hnil
  have hlen : (xrayStreamEditLive n "sockopt" false id).holders.length = n.length := editLive_length
  rw [hnil] at hlen
  exact h.filled (length_eq_zero_iff.mp hlen.symm)

omit h

theorem bindLeg_length (iface : String) (n : List Object) : (bindLeg iface n).length = n.length := by
  rw [bindLeg]
  split
  · exact editLive_length
  · rw [setSockopt_length]
    exact editLive_length

include h in
/-- The interface is written into the sockopt of a leg that names none. -/
theorem bind_decodes (known : List String) {iface : String} :
    decodeLeg known (bindLeg iface n) = (decodeLeg known n).bind iface := by
  have hown := own_ready h
  have hsame : decodeLeg known (xrayStreamEditLive n "sockopt" false id).holders = decodeLeg known n := by
    rw [(own_only h).decodeLeg_sockopt, own_pointer h]
    rfl
  have hgiven : (xrayStreamEditLive n "sockopt" false id).given = pointer n "sockopt" := editLive_given h.distinct h.fits
  rw [bindLeg, hgiven]
  by_cases hpinned : ((pointer n "sockopt").any fun sockopts => !(lastText sockopts "interface").isEmpty) = true
  · rw [if_pos hpinned, hsame]
    cases hsockopt : pointer n "sockopt" with
    | none =>
      rw [hsockopt] at hpinned
      cases hpinned
    | some s =>
      rw [hsockopt, any_some] at hpinned
      have hnamed : (lastText s "interface").isEmpty = false := by simpa using hpinned
      rw [Leg.bind, decodeLeg, hsockopt, map_some, getD_some, decodeSockopt]
      dsimp only
      rw [hnamed]
      rfl
  have hunnamed : (((pointer n "sockopt").map decodeSockopt).getD .empty).interface.isEmpty = true := by
    cases hsockopt : pointer n "sockopt" with
    | none => rfl
    | some s =>
      rw [hsockopt, any_some] at hpinned
      show (lastText s "interface").isEmpty = true
      simpa using hpinned
  obtain ⟨hdistinct, hfilled⟩ := sockopt_held hown
  rw [if_neg hpinned, (setSockopt_only hown "interface" iface).decodeLeg_sockopt, setSockopt_pointer hown, map_some,
    decodeSockopt_interface hdistinct hfilled, decodeSockopt_getD, hsame, own_pointer h, Leg.bind]
  dsimp only
  rw [if_pos]
  · rfl
  · exact hunnamed

/-! ## The system certificates -/

/-- What the edit of the tls settings makes of them. -/
def trusted (n : List Object) : List Object :=
  if (xrayStreamLast n "useSystemCA" false).isSome then n else setLast "useSystemCA" (.bool true) n

theorem trusted_length (n : List Object) : (trusted n).length = n.length := by
  rw [trusted]
  split
  · rfl
  · exact setLast_length _

theorem getLast_of_all {α : Type*} {l : List α} {a : α} (hne : l ≠ []) (hall : ∀ x ∈ l, x = a) :
    l.getLast? = some a := by
  rw [getLast?_eq_some_getLast hne, hall _ (getLast_mem hne)]

theorem last_setLast (h : DistinctKeys n) (hne : n ≠ []) {key : String} {value : Json} (hvalue : value.isNull = false)
    (hnone : xrayStreamLast n key false = none) : xrayStreamLast (setLast key value n) key false = some value := by
  have hnull : ∀ v ∈ values n key, v.isNull = true := by
    intro v hv
    rw [xrayStreamLast, getLast?_eq_none_iff, filter_eq_nil_iff] at hnone
    simpa using hnone v hv
  have hdistinct : DistinctKeys (setLast key value n) := distinctKeys_insertIn h (n.length - 1, key) value
  have hplace : valueIn (setLast key value n) = fun q => if q = (n.length - 1, key) then some value else valueIn n q :=
    funext fun q => valueIn_insertIn (p := (n.length - 1, key)) (last_lt hne) value q
  have hmem : value ∈ values (setLast key value n) key := by
    refine (mem_values hdistinct).mpr ⟨(n.length - 1, key), sameName_self key, ?_⟩
    rw [hplace]
    exact if_pos rfl
  rw [xrayStreamLast]
  refine getLast_of_all (ne_nil_of_mem (mem_filter.mpr ⟨hmem, by simp [hvalue]⟩)) fun v hv => ?_
  obtain ⟨hin, hlive⟩ := mem_filter.mp hv
  obtain ⟨q, hq, hv⟩ := (mem_values hdistinct).mp hin
  rw [hplace] at hv
  dsimp only at hv
  split at hv
  · exact (some.inj hv).symm
  · rw [hnull v ((mem_values h).mpr ⟨q, hq, hv⟩)] at hlive
    cases hlive

theorem decodeTls_trusted (h : DistinctKeys n) (hne : n ≠ []) :
    decodeTls (trusted n) = { decodeTls n with useSystemCA := some ((decodeTls n).useSystemCA.getD true) } := by
  rw [trusted]
  cases hlast : xrayStreamLast n "useSystemCA" false with
  | some v =>
    rw [isSome_some, if_pos rfl, decodeTls, hlast]
    rfl
  | none =>
    have honly : Only "useSystemCA" n (setLast "useSystemCA" (.bool true) n) := setLast_other h hne _
    rw [Option.isSome_none, if_neg Bool.false_ne_true, decodeTls, last_setLast h hne rfl hlast,
      honly.others (by simp), decodeTls, hlast]
    rfl

theorem useSystemCA_length (n : List Object) : (useSystemCA n).length = n.length := by
  rw [useSystemCA]
  split
  · rfl
  · exact editLive_length

theorem useSystemCA_only (h : Ready n "tlsSettings") : Only "tlsSettings" n (useSystemCA n) := by
  intro other hother
  rw [useSystemCA]
  split
  · rfl
  · exact editLive_other h.distinct h.fits hother

theorem useSystemCA_distinct (h : Ready n "tlsSettings") : DistinctKeys (useSystemCA n) := by
  rw [useSystemCA]
  split
  · exact h.distinct
  · exact editLive_distinct h.distinct h.fits

theorem tls_pointer (h : Ready n "tlsSettings") :
    pointer (xrayStreamEditLive n "tlsSettings" true trusted).holders "tlsSettings" =
      some (trusted ((pointer n "tlsSettings").getD [[]])) := by
  have hedit : pointer (xrayStreamEditLive n "tlsSettings" true trusted).holders "tlsSettings" = _ :=
    editLive_pointer h.distinct h.filled h.fits trusted_length
  rw [hedit]
  cases pointer n "tlsSettings" with
  | none => rfl
  | some s => rfl

theorem trust_decodes (h : Ready n "tlsSettings") (known : List String) :
    decodeLeg known (useSystemCA n) = (decodeLeg known n).trust := by
  rw [(useSystemCA_only h).decodeLeg_tls, useSystemCA, Leg.trust, decodeLeg]
  dsimp only
  by_cases hsecurity : xrayLower (lastText n "security") = "tls"
  · rw [if_pos hsecurity, if_neg (by simpa using hsecurity)]
    have hdecoded : (pointer (xrayStreamEditLive n "tlsSettings" true trusted).holders "tlsSettings").map decodeTls =
        some { ((pointer n "tlsSettings").map decodeTls).getD .empty with
          useSystemCA := some ((((pointer n "tlsSettings").map decodeTls).getD .empty).useSystemCA.getD true) } := by
      rw [tls_pointer h, map_some]
      cases htls : pointer n "tlsSettings" with
      | none =>
        rw [getD_none, decodeTls_trusted proper_new.distinct (cons_ne_nil _ _), decodeTls_new]
        rfl
      | some s =>
        rw [getD_some, decodeTls_trusted (h.held htls).1 (h.held htls).2]
        rfl
    exact congrArg (fun tls => ({ security := _, sockopt := _, tls := tls, others := _ } : Leg)) hdecoded
  · rw [if_neg hsecurity, if_pos (by simpa using hsecurity)]

end

end Waterdisco.XrayStream
