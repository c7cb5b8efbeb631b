import Waterdisco.Outbound.XraySecurity
import Waterdisco.Outbound.XrayLegs

/-!
# The label never overstates

What the core makes of an outbound is read off its decoded form (`decode`): a text or a
boolean is its last spelling that is not null, a list keeps its elements where it is decoded
into once more (`firstItems`), a raw message is its last spelling.

    label secure → the protocol encrypts, or the main stream and the download leg are
                   protected                                      (label_contract)
-/

namespace Waterdisco.XrayStream

open List Option Bool Json

/-! ## Values of a field -/

/-- The value Go keeps, a null resetting only a pointer. -/
def lastOf (vs : List Json) (pointer : Bool) : Option Json := (vs.filter fun v => pointer || !v.isNull).getLast?

def textOf (vs : List Json) : String := ((lastOf vs false).getD .null).toStr

/-- What the first element of a list is decoded from: a null or an empty list starts over. -/
def firstItems (vs : List Json) : List Json :=
    (vs.rtakeWhile fun v => !v.toArray.isEmpty).map fun v => v.toArray.headD .null

/-- A list of pointers: the nodes of its first element. -/
def firstNodes (vs : List Json) : List Object := (live (firstItems vs)).map Json.toObject

/-- A list of raw messages: its first element. -/
def firstRaw (vs : List Json) : Object := ((firstItems vs).getLast?.getD .null).toObject

variable {vs : List Json}

variable {v : Json}

theorem textOf_const (hne : vs ≠ []) (hall : ∀ w ∈ vs, w = v) : textOf vs = v.toStr := by
  unfold textOf lastOf
  cases hv : v.isNull with
  | true =>
    obtain rfl := eq_null hv
    have hnil : vs.filter (fun v => false || !v.isNull) = [] := by
      rw [filter_eq_nil_iff]
      intro w hw
      rw [hall w hw]
      decide
    rw [hnil]
    rfl
  | false =>
    have hself : vs.filter (fun v => false || !v.isNull) = vs := by
      rw [filter_eq_self]
      intro w hw
      rw [hall w hw, hv]
      rfl
    rw [hself]
    obtain ⟨w, hw⟩ := ne_none_iff_exists'.mp (fun h => hne (getLast?_eq_none_iff.mp h))
    rw [hw, hall w (mem_of_getLast? hw)]
    rfl

/-- A text that all spellings agree on up to a property that the empty text lacks. -/
theorem textOf_forall {P : String → Prop} (hempty : ¬ P "") (hne : vs ≠ []) (hall : ∀ w ∈ vs, P w.toStr) :
    P (textOf vs) := by
  have hself : vs.filter (fun v => false || !v.isNull) = vs := by
    rw [filter_eq_self]
    intro w hw
    cases hnull : w.isNull with
    | true =>
      obtain rfl := eq_null hnull
      exact absurd (hall _ hw) hempty
    | false => rfl
  unfold textOf lastOf
  rw [hself]
  obtain ⟨w, hw⟩ := ne_none_iff_exists'.mp (fun h => hne (getLast?_eq_none_iff.mp h))
  rw [hw]
  exact hall w (mem_of_getLast? hw)

theorem firstItems_const (hne : vs ≠ []) (hall : ∀ w ∈ vs, w = v) :
    firstItems vs = [] ∧ v.toArray.headD .null = .null ∨ firstItems vs ≠ [] ∧ ∀ w ∈ firstItems vs,
      w = v.toArray.headD .null := by
  unfold firstItems
  cases hv : v.toArray.isEmpty with
  | true =>
    left
    have hnil : v.toArray = [] := isEmpty_iff.mp hv
    constructor
    · rw [map_eq_nil_iff, rtakeWhile_eq_nil_iff]
      intro _
      rw [hall _ (getLast_mem _), hnil]
      decide
    · rw [hnil]
      rfl
  | false =>
    right
    have hself : vs.rtakeWhile (fun v => !v.toArray.isEmpty) = vs := by
      rw [rtakeWhile_eq_self_iff]
      intro w hw
      rw [hall w hw, hv]
      rfl
    rw [hself]
    constructor
    · exact fun h => hne (map_eq_nil_iff.mp h)
    · intro w hw
      obtain ⟨u, hu, rfl⟩ := mem_map.mp hw
      rw [hall u hu]

theorem firstNodes_const (hne : vs ≠ []) (hall : ∀ w ∈ vs, w = v) :
    (∀ n ∈ firstNodes vs, n = (v.toArray.headD .null).toObject) ∧
      ((v.toArray.headD .null).toObject ≠ [] → firstNodes vs ≠ []) := by
  unfold firstNodes
  rcases firstItems_const hne hall with ⟨hnil, hhead⟩ | ⟨hsome, hitems⟩
  · rw [hnil, hhead]
    exact ⟨nofun, fun h => absurd rfl h⟩
  constructor
  · intro n hn
    obtain ⟨w, hw, rfl⟩ := mem_map.mp hn
    rw [hitems w (live_subset hw)]
  intro hobj
  have hlive : live (firstItems vs) = firstItems vs := by
    refine live_of_objects fun w hw => ?_
    rw [hitems w hw]
    cases hhead : v.toArray.headD .null with
    | obj => rfl
    | _ =>
      rw [hhead] at hobj
      exact absurd rfl hobj
  rw [hlive]
  exact fun h => hsome (map_eq_nil_iff.mp h)

theorem firstRaw_const (hne : vs ≠ []) (hall : ∀ w ∈ vs, w = v) :
    firstRaw vs = (v.toArray.headD .null).toObject := by
  unfold firstRaw
  rcases firstItems_const hne hall with ⟨hnil, hhead⟩ | ⟨hsome, hitems⟩
  · rw [hnil, hhead]
    rfl
  obtain ⟨w, hw⟩ := ne_none_iff_exists'.mp (fun h => hsome (getLast?_eq_none_iff.mp h))
  rw [hw, ← hitems w (mem_of_getLast? hw)]
  rfl

/-! ## What spellings agree on -/

variable {o : Object}

theorem spelled_eq (h : proper (.obj o) = true) (name : String) : spelled o name = values [o] name := by
  have hnodup := (proper_obj_iff.mp h).1.nodup
  have hval : values [o] name = (keysNamed o name).filterMap (valueAt o) := by
    rw [values, flatMap_singleton]
    exact values_keyed hnodup name
  rw [hval, spelled, ← filterMap_eq_map]
  refine filterMap_congr fun key hkey => ?_
  have hin : key ∈ keysOf o := (mem_filter.mp hkey).1
  obtain ⟨v, hv⟩ := ne_none_iff_exists'.mp (fun hnone => valueAt_eq_none.mp hnone hin)
  show some ((valueAt o key).getD .null) = valueAt o key
  rw [hv]
  rfl

theorem xrayAgreed_spec (h : proper (.obj o) = true) {name : String} (hv : xrayAgreed o name = some v) :
    values [o] name ≠ [] ∧ ∀ w ∈ values [o] name, w = v := by
  rw [← spelled_eq h, spelled]
  unfold xrayAgreed at hv
  split at hv
  · cases hv
  rename_i first rest hkeys
  dsimp only at hv
  split at hv
  · rename_i hall
    cases hv
    rw [hkeys]
    refine ⟨by simp, fun w hw => ?_⟩
    rcases mem_cons.mp hw with rfl | hw
    · rfl
    · obtain ⟨key, hkey, rfl⟩ := mem_map.mp hw
      exact sameJson_eq _ _ (all_eq_true.mp hall key hkey)
  · cases hv

theorem proper_agreed (h : proper (.obj o) = true) (name : String) : proper ((xrayAgreed o name).getD .null) = true := by
  cases hv : xrayAgreed o name with
  | none => rfl
  | some v =>
    obtain ⟨hne, hall⟩ := xrayAgreed_spec h hv
    obtain ⟨w, hw⟩ := exists_mem_of_ne_nil _ hne
    rw [getD_some, ← hall w hw]
    have hp : Proper [o] := fun o' ho' => by
      rw [mem_singleton.mp ho']
      exact h
    exact hp.values hw

theorem proper_agreedObject (h : proper (.obj o) = true) (name : String) :
    proper (.obj (agreedObject o name)) = true := proper_toObject (proper_agreed h name)

theorem proper_agreedFirst (h : proper (.obj o) = true) (name : String) :
    proper (.obj (agreedFirst o name)) = true := by
  refine proper_toObject ?_
  have hp := proper_agreed h name
  generalize (xrayAgreed o name).getD .null = v at hp ⊢
  cases v with
  | arr items =>
    cases items with
    | nil => rfl
    | cons x items => exact properItems_iff.mp hp x mem_cons_self
  | _ => rfl

variable {n : List Object}

theorem values_of_nodes (ho : proper (.obj o) = true) (hne : n ≠ []) (hall : ∀ m ∈ n, m = o)
    {name : String} (hv : xrayAgreed o name = some v) : values n name ≠ [] ∧ ∀ w ∈ values n name, w = v := by
  obtain ⟨hsome, hvalues⟩ := xrayAgreed_spec ho hv
  constructor
  · obtain ⟨m, hm⟩ := exists_mem_of_ne_nil _ hne
    obtain ⟨w, hw⟩ := exists_mem_of_ne_nil _ hsome
    refine ne_nil_of_mem (a := w) (mem_flatMap.mpr ⟨m, hm, ?_⟩)
    rw [hall m hm]
    rwa [values, flatMap_singleton] at hw
  · intro w hw
    obtain ⟨m, hm, hw⟩ := mem_flatMap.mp hw
    rw [hall m hm] at hw
    refine hvalues w ?_
    rwa [values, flatMap_singleton]

theorem text_of_nodes (ho : proper (.obj o) = true) (hne : n ≠ []) (hall : ∀ m ∈ n, m = o)
    {name : String} (htext : agreedText o name ≠ "") : lastText n name = agreedText o name := by
  unfold agreedText at htext ⊢
  cases hv : xrayAgreed o name with
  | none =>
    rw [hv] at htext
    exact absurd rfl htext
  | some v =>
    obtain ⟨hsome, hvalues⟩ := values_of_nodes ho hne hall hv
    exact textOf_const hsome hvalues

/-! ## What the core reads -/

/-- A top-level address that is not null stands for the list of servers. -/
def inlinePeer (settings : Object) : Bool := (values [settings] "address").getLast?.any fun v => !v.isNull

/-- The server that Shadowsocks dials. -/
def cipher (settings : Object) : String :=
  xrayLower (lastText (if inlinePeer settings then [settings] else firstNodes (values [settings] "servers")) "method")

def encryption (settings : Object) : String :=
  lastText [if inlinePeer settings then settings else firstRaw (values (firstNodes (values [settings] "vnext")) "users")] "encryption"

namespace Outbound

def protocol (out : Outbound) : String := xrayLower (textOf (out.others "protocol"))

/-- The settings of the protocol, a raw message. -/
def settings (out : Outbound) : Object := ((out.others "settings").getLast?.getD .null).toObject

/-- The protocol encrypts by itself. -/
def Encrypts (out : Outbound) : Prop :=
  out.protocol = "shadowsocks" ∧ cipher out.settings ∉ ["", "none", "plain"] ∨ out.protocol = "wireguard" ∨
    out.protocol = "vless" ∧ encryption out.settings ∉ ["", "none"]

end Outbound

def Tls.allowInsecure (t : Tls) : Bool := ((lastOf (t.others "allowInsecure") false).getD .null).toBool

def Tls.pinned (t : Tls) : Bool :=
  ["pinnedPeerCertSha256", "verifyPeerCertByName"].any fun name => namesSome (textOf (t.others name))

namespace Leg

/-- REALITY, or TLS with `allowInsecure` off. -/
def Verified (l : Leg) : Prop :=
  xrayLower l.security = "reality" ∨ xrayLower l.security = "tls" ∧ ∀ t, l.tls = some t → t.allowInsecure = false

def server (l : Leg) : String := ((lastOf (l.others "address") true).getD .null).toStr

/-- A download leg may also be pinned, or dial a private server. -/
def Protected (env : Env) (l : Leg) : Prop :=
  xrayLower l.security = "reality" ∨
    (xrayLower l.security = "tls" ∧ ∀ t, l.tls = some t → t.allowInsecure = false ∨ t.pinned = true) ∨
    env.isPrivateHost l.server = true

end Leg

def Stream.dialsXHTTP (s : Stream) : Bool :=
  let method := (lastOf (s.main.others "method") true).getD .null
  let transport := if method.isNull then (lastOf (s.main.others "network") true).getD .null else method
  let name := xrayLower transport.toStr
  name == "xhttp" || name == "splithttp"

/-- The main stream and the leg that it dials are protected. -/
def Outbound.StreamProtected (env : Env) (out : Outbound) : Prop :=
  ∃ s, out.stream = some s ∧ s.main.Verified ∧ (s.dialsXHTTP = true → ∀ l, s.downloadLeg = some l → l.Protected env)

/-! ## The protocol -/

/-- Qt lowers a text to a name of ASCII letters only where Go does. -/
def LowersNames (toLower : String → String) : Prop :=
  ∀ text name : String, (∀ c ∈ name.toList, c.isLower = true) → toLower text = name → xrayLower text = name

section

variable {env : Env} (hlower : LowersNames env.toLower) {o : Object} (ho : proper (.obj o) = true)

include ho in
theorem settings_agreed (h : agreedObject o "settings" ≠ []) : (decode o).settings = agreedObject o "settings" := by
  unfold agreedObject at h ⊢
  cases hv : xrayAgreed o "settings" with
  | none =>
    rw [hv] at h
    exact absurd rfl h
  | some v =>
    obtain ⟨hne, hall⟩ := xrayAgreed_spec ho hv
    obtain ⟨w, hw⟩ := ne_none_iff_exists'.mp (fun hn => hne (getLast?_eq_none_iff.mp hn))
    have hothers : (decode o).others "settings" = values [o] "settings" := by
      rw [decode]
      rfl
    rw [Outbound.settings, hothers, hw, getD_some, getD_some, hall w (mem_of_getLast? hw)]

theorem xrayAgreedName_spec {l : List String} {name : String} (h : xrayAgreedName l = some name) (hname : name ≠ "") :
    l ≠ [] ∧ ∀ t ∈ l, t = name := by
  cases l with
  | nil =>
    cases h
    exact absurd rfl hname
  | cons first rest =>
    rw [xrayAgreedName] at h
    split at h
    · rename_i hall
      cases h
      refine ⟨cons_ne_nil _ _, fun t ht => ?_⟩
      rcases mem_cons.mp ht with rfl | ht
      · rfl
      · exact eq_of_beq (all_eq_true.mp hall t ht)
    · cases h

include hlower ho in
theorem protocol_agreed {name : String} (h : xrayAgreedProtocol env o = some name) (hname : name ≠ "")
    (hascii : ∀ c ∈ name.toList, c.isLower = true) : (decode o).protocol = name := by
  unfold xrayAgreedProtocol at h
  rw [spelled_eq ho] at h
  obtain ⟨hne, hall⟩ := xrayAgreedName_spec h hname
  have hothers : (decode o).others "protocol" = values [o] "protocol" := by
    rw [decode]
    rfl
  rw [Outbound.protocol, hothers]
  refine textOf_forall (P := fun t => xrayLower t = name) (fun hempty => hname hempty.symm)
    (fun hnil => hne (map_eq_nil_iff.mpr hnil)) fun v hv => hlower _ _ hascii (hall _ (mem_map.mpr ⟨v, hv, rfl⟩))

include ho in
theorem inlinePeer_agreed {b : Bool} (h : xrayInlinePeer o = some b) : inlinePeer o = b := by
  unfold xrayInlinePeer at h
  rw [spelled_eq ho] at h
  dsimp only at h
  split at h
  · cases h
  rename_i hmixed
  cases h
  unfold inlinePeer
  cases hlast : (values [o] "address").getLast? with
  | none =>
    rw [getLast?_eq_none_iff.mp hlast]
    rfl
  | some v =>
    have hmem := mem_of_getLast? hlast
    rw [any_some]
    cases hnull : v.isNull with
    | false =>
      symm
      exact any_eq_true.mpr ⟨v, hmem, by rw [hnull]; rfl⟩
    | true =>
      have hunset : (values [o] "address").any (fun v => v.isNull) = true := any_eq_true.mpr ⟨v, hmem, hnull⟩
      rw [hunset, Bool.and_true] at hmixed
      simpa using hmixed

end

section

variable {env : Env} (hlower : LowersNames env.toLower) {o : Object} (ho : proper (.obj o) = true)

include ho

/-- The server of a list that all spellings agree on. -/
theorem nodes_agreed {name : String} (h : agreedFirst o name ≠ []) :
    firstNodes (values [o] name) ≠ [] ∧ ∀ n ∈ firstNodes (values [o] name), n = agreedFirst o name := by
  unfold agreedFirst at h ⊢
  cases hv : xrayAgreed o name with
  | none =>
    rw [hv] at h
    exact absurd rfl h
  | some v =>
    rw [hv] at h
    obtain ⟨hne, hall⟩ := xrayAgreed_spec ho hv
    obtain ⟨hnodes, hsome⟩ := firstNodes_const hne hall
    exact ⟨hsome h, hnodes⟩

theorem cipher_agreed (h : agreedText (xrayPeer o "shadowsocks") "method" ≠ "") :
    cipher o = xrayLower (agreedText (xrayPeer o "shadowsocks") "method") := by
  unfold xrayPeer at h ⊢
  unfold cipher
  cases hinline : xrayInlinePeer o with
  | none =>
    rw [hinline] at h
    exact absurd rfl h
  | some b =>
    rw [hinline] at h
    rw [inlinePeer_agreed ho hinline]
    cases b with
    | true => exact congrArg xrayLower (text_of_nodes ho (cons_ne_nil _ _) (fun m hm => mem_singleton.mp hm) h)
    | false =>
      have hserver : agreedFirst o "servers" ≠ [] := by
        intro hnil
        change agreedText (agreedFirst o "servers") "method" ≠ "" at h
        rw [hnil] at h
        exact h rfl
      obtain ⟨hne, hall⟩ := nodes_agreed ho hserver
      exact congrArg xrayLower (text_of_nodes (proper_agreedFirst ho "servers") hne hall h)

theorem encryption_agreed (h : xrayVlessEncryption o ≠ "") : encryption o = xrayVlessEncryption o := by
  unfold xrayVlessEncryption at h ⊢
  unfold encryption
  cases hinline : xrayInlinePeer o with
  | none =>
    rw [hinline] at h
    exact absurd rfl h
  | some b =>
    rw [hinline] at h
    rw [inlinePeer_agreed ho hinline]
    cases b with
    | true => exact text_of_nodes ho (cons_ne_nil _ _) (fun m hm => mem_singleton.mp hm) h
    | false =>
      have hpeer : xrayPeer o "vless" = agreedFirst o "vnext" := by
        rw [xrayPeer, hinline]
        rfl
      dsimp only at h ⊢
      rw [if_neg Bool.false_ne_true, hpeer] at h ⊢
      have hproper := proper_agreedFirst ho "vnext"
      have huser : agreedFirst (agreedFirst o "vnext") "users" ≠ [] := by
        intro hnil
        rw [hnil] at h
        exact h rfl
      have hserver : agreedFirst o "vnext" ≠ [] := by
        intro hnil
        rw [hnil] at huser
        exact huser rfl
      obtain ⟨hne, hall⟩ := nodes_agreed ho hserver
      have hraw : firstRaw (values (firstNodes (values [o] "vnext")) "users") =
        agreedFirst (agreedFirst o "vnext") "users" := by
        show _ = (((xrayAgreed (agreedFirst o "vnext") "users").getD .null).toArray.headD .null).toObject
        cases hv : xrayAgreed (agreedFirst o "vnext") "users" with
        | none =>
          rw [agreedFirst, hv] at huser
          exact absurd rfl huser
        | some v =>
          obtain ⟨hsome, hvalues⟩ := values_of_nodes hproper hne hall hv
          exact firstRaw_const hsome hvalues
      rw [if_neg Bool.false_ne_true, hraw]
      exact text_of_nodes (proper_agreedFirst hproper "users") (cons_ne_nil _ _) (fun m hm => mem_singleton.mp hm) h

omit ho

include hlower ho in
/-- **A protocol that counts as encrypting** encrypts. -/
theorem encrypts_sound (h : xrayEncrypts env o ((xrayAgreedProtocol env o).getD "") = true) : (decode o).Encrypts := by
  have hknown {name : String} (hname : name ≠ "") (hp : ((xrayAgreedProtocol env o).getD "" == name) = true) :
      xrayAgreedProtocol env o = some name := by
    cases hagreed : xrayAgreedProtocol env o with
    | none =>
      rw [hagreed] at hp
      exact absurd (eq_of_beq hp).symm hname
    | some p =>
      rw [hagreed] at hp
      exact congrArg some (eq_of_beq hp)
  unfold xrayEncrypts at h
  dsimp only at h
  rw [or_eq_true, or_eq_true] at h
  rcases h with (h | h) | h
  · left
    simp only [and_eq_true, bne_iff_ne, ne_eq, not_eq_true'] at h
    obtain ⟨⟨⟨hp, hempty⟩, hnone⟩, hplain⟩ := h
    have hagreed := hknown (by decide) hp
    have hpeer : xrayOutboundPeer env o = xrayPeer (agreedObject o "settings") "shadowsocks" := by
      rw [xrayOutboundPeer, hagreed]
      rfl
    rw [hpeer] at hempty hnone hplain
    have hmethod : agreedText (xrayPeer (agreedObject o "settings") "shadowsocks") "method" ≠ "" := by
      intro hnil
      rw [hnil] at hempty
      cases hempty
    have hsettings : agreedObject o "settings" ≠ [] := by
      intro hnil
      rw [hnil] at hmethod
      exact hmethod rfl
    refine ⟨protocol_agreed hlower ho hagreed (by decide) (all_eq_true.mp (by decide)), ?_⟩
    rw [settings_agreed ho hsettings, cipher_agreed (proper_agreedObject ho "settings") hmethod]
    intro hmem
    rcases mem_cons.mp hmem with heq | hmem
    · rw [heq] at hempty
      cases hempty
    rcases mem_cons.mp hmem with heq | hmem
    · exact hnone heq
    · exact hplain (mem_singleton.mp hmem)
  · exact .inr (.inl (protocol_agreed hlower ho (hknown (by decide) h) (by decide) (all_eq_true.mp (by decide))))
  · right
    right
    rw [and_eq_true, isVlessEncrypted, and_eq_true, bne_iff_ne] at h
    obtain ⟨hp, hempty, hnone⟩ := h
    have hsome : xrayVlessEncryption (agreedObject o "settings") ≠ "" := by
      intro hnil
      rw [hnil] at hempty
      cases hempty
    have hsettings : agreedObject o "settings" ≠ [] := by
      intro hnil
      rw [hnil] at hsome
      exact hsome rfl
    refine ⟨protocol_agreed hlower ho (hknown (by decide) hp) (by decide) (all_eq_true.mp (by decide)), ?_⟩
    rw [settings_agreed ho hsettings, encryption_agreed (proper_agreedObject ho "settings") hsome]
    intro hmem
    rcases mem_cons.mp hmem with heq | hmem
    · exact hsome heq
    · exact hnone (mem_singleton.mp hmem)

end

/-! ## The streams -/

theorem values_cons (o : Object) (n : List Object) (name : String) :
    values (o :: n) name = values [o] name ++ values n name := by
  rw [values, values, values, flatMap_cons, flatMap_singleton]

theorem values_flatMap (n : List Object) (name : String) : values n name = n.flatMap fun o => values [o] name := by
  induction n with
  | nil => rfl
  | cons o n ih => rw [values_cons, ih, flatMap_cons]

section

variable {env : Env} (hlower : LowersNames env.toLower) {o : Object} (ho : proper (.obj o) = true)

/-- What the label has seen of the main streams when it is secure. -/
structure MainSecure (env : Env) (streams : List Object) (security : String) : Prop where
  known : security = "reality" ∨ security = "tls" ∧
    ∀ stream ∈ streams, ∀ tls ∈ spelled stream "tlsSettings",
      ∀ v ∈ spelled tls.toObject "allowInsecure", v.toBool = false
  some : (streams.flatMap fun stream => (spelled stream "security").map fun v => env.toLower v.toStr) ≠ []
  all : ∀ t ∈ streams.flatMap fun stream => (spelled stream "security").map fun v => env.toLower v.toStr, t = security

theorem streamSecurity_secure {env : Env} (h : (streamSecurity env o).level = .secure) :
    (∀ v ∈ spelled o "streamSettings", v.isObject = true) ∧
      ∃ security, MainSecure env ((spelled o "streamSettings").map Json.toObject) security := by
  unfold streamSecurity at h
  dsimp only at h
  generalize hsec : (if (spelled o "streamSettings").all isObject then
    (xrayAgreedName (((spelled o "streamSettings").map toObject).flatMap fun stream =>
      (spelled stream "security").map fun v => env.toLower v.toStr)).getD "" else "") = security at h
  have hne : security ≠ "" := by
    rintro rfl
    cases h
  have hobjects : (spelled o "streamSettings").all isObject = true := by
    cases hall : (spelled o "streamSettings").all isObject with
    | true => rfl
    | false =>
      rw [hall] at hsec
      exact absurd hsec.symm hne
  rw [if_pos hobjects] at hsec
  refine ⟨all_eq_true.mp hobjects, security, ?_⟩
  cases hagreed : xrayAgreedName (((spelled o "streamSettings").map toObject).flatMap fun stream =>
      (spelled stream "security").map fun v => env.toLower v.toStr) with
  | none =>
    rw [hagreed] at hsec
    exact absurd hsec.symm hne
  | some name =>
    rw [hagreed] at hsec
    obtain rfl : name = security := hsec
    obtain ⟨hsome, hall⟩ := xrayAgreedName_spec hagreed hne
    refine ⟨?_, hsome, hall⟩
    by_cases hreality : name = "reality"
    · exact .inl hreality
    right
    rw [if_neg (by simpa using hreality)] at h
    by_cases htls : name = "tls"
    · refine ⟨htls, ?_⟩
      rw [if_pos (by simpa using htls)] at h
      dsimp only at h
      intro stream hstream tls hvalue v hv
      by_contra htrue
      rw [if_pos] at h
      · cases h
      · refine any_eq_true.mpr ⟨stream, hstream, any_eq_true.mpr ⟨tls, hvalue, any_eq_true.mpr ⟨v, hv, ?_⟩⟩⟩
        simpa using htrue
    · rw [if_neg (by simpa using htls)] at h
      cases h

include hlower in
/-- **Main streams that look secure** are read as verified. -/
theorem main_verified {streams : List Object} (hstreams : Proper streams) {security : String}
    (h : MainSecure env streams security) :
    (decodeStream streams).main.Verified := by
  have hvalues : values streams "security" = streams.flatMap fun stream => spelled stream "security" := by
    rw [values_flatMap]
    exact flatMap_congr fun stream hstream => (spelled_eq (hstreams stream hstream) "security").symm
  have hmap : (streams.flatMap fun stream => (spelled stream "security").map fun v => env.toLower v.toStr) =
      (values streams "security").map fun v => env.toLower v.toStr := by
    rw [hvalues, map_flatMap]
  have hascii : ∀ c ∈ security.toList, c.isLower = true := by
    rcases h.known with rfl | ⟨rfl, _⟩ <;> exact all_eq_true.mp (by decide)
  have hne : security ≠ "" := by
    rcases h.known with rfl | ⟨rfl, _⟩ <;> decide
  have hsecurity : xrayLower (lastText streams "security") = security := by
    have hsome := h.some
    have hall := h.all
    rw [hmap] at hsome hall
    exact textOf_forall (P := fun t => xrayLower t = security) (fun hempty => hne hempty.symm)
      (fun hnil => hsome (map_eq_nil_iff.mpr hnil)) fun v hv => hlower _ _ hascii (hall _ (mem_map.mpr ⟨v, hv, rfl⟩))
  rcases h.known with hreality | ⟨htls, hoff⟩
  · exact .inl (hsecurity.trans hreality)
  refine .inr ⟨hsecurity.trans htls, fun t ht => ?_⟩
  obtain ⟨n, hn, rfl⟩ := map_eq_some_iff.mp ht
  have hothers : (decodeTls n).others "allowInsecure" = values n "allowInsecure" := rfl
  rw [Tls.allowInsecure, hothers]
  cases hlast : lastOf (values n "allowInsecure") false with
  | none => rfl
  | some v =>
    have hmem : v ∈ values n "allowInsecure" := (mem_filter.mp (mem_of_getLast? hlast)).1
    obtain ⟨tls, htls, hv⟩ := mem_flatMap.mp hmem
    rw [pointer] at hn
    have hin : ∃ w ∈ values streams "tlsSettings", w.toObject = tls := by
      split at hn
      · cases hn
      cases hn
      obtain ⟨w, hw, rfl⟩ := mem_map.mp htls
      exact ⟨w, live_subset hw, rfl⟩
    obtain ⟨w, hw, rfl⟩ := hin
    rw [values_flatMap] at hw
    obtain ⟨stream, hstream, hw⟩ := mem_flatMap.mp hw
    rw [← spelled_eq (hstreams stream hstream)] at hw
    refine hoff stream hstream w hw v ?_
    have hproper : proper w = true := by
      rw [spelled_eq (hstreams stream hstream)] at hw
      have hp : Proper [stream] := fun o' ho' => by
        rw [mem_singleton.mp ho']
        exact hstreams stream hstream
      exact hp.values hw
    rw [spelled_eq (proper_toObject hproper), values, flatMap_singleton]
    exact hv

end

/-! ## The download leg -/

/-- The objects that stand for a leg of the core. -/
structure StandsFor (n : List Object) (l : Leg) : Prop where
  some : n ≠ []
  decoded : l = decodeLeg [] n
  proper : Proper n
  fits : FitsLeg n

theorem settings_leg (h : Proper n) (hfits : FitsSettings n) {l : Leg} (hl : (decodeSettings n).leg = some l) :
    StandsFor ((xrayStreamEditLive n "downloadSettings" false id).given.getD []) l := by
  rw [editLive_given h.distinct hfits.field]
  obtain ⟨nodes, hnodes, rfl⟩ := map_eq_some_iff.mp hl
  rw [hnodes, getD_some]
  exact ⟨pointer_ne_nil hnodes, rfl, ProperAt.pointer (fun _ hv => h.values hv) hnodes, hfits.leg nodes hnodes⟩

theorem holder_leg (h : Proper n) (hfits : FitsHolder n) {l : Leg} (hl : (decodeHolder n).settings.leg = some l) :
    StandsFor (legOfHolders n) l := by
  have hlast := extra_last h.distinct
  unfold legOfHolders
  rw [Holder.settings, decodeHolder] at hl
  cases hplace : (placesNamed n "extra").getLast? with
  | none =>
    rw [hplace, bind_none] at hlast
    rw [hlast] at hl
    exact settings_leg h hfits.own hl
  | some place =>
    rw [hplace, bind_some] at hlast
    obtain ⟨e, he⟩ := ne_none_iff_exists'.mp (mem_placesNamed.mp (mem_of_getLast? hplace)).2
    rw [he] at hlast
    rw [hlast, map_some, getD_some] at hl
    dsimp only
    rw [he]
    cases e with
    | obj extra =>
      have hproper : Proper [extra] := fun o ho => by
        rw [mem_singleton.mp ho]
        exact h.values (mem_of_getLast? hlast)
      exact settings_leg hproper (hfits.extra _ hlast) hl
    | _ => cases hl

theorem stream_leg (h : Proper n) (hfits : FitsStream n) {l : Leg} (hl : (decodeStream n).downloadLeg = some l) :
    StandsFor (legOfStreams n) l := by
  unfold legOfStreams
  rw [editLive_given h.distinct hfits.xhttpField, editLive_given h.distinct hfits.splithttpField]
  rw [Stream.downloadLeg, decodeStream] at hl
  cases hxhttp : pointer n "xhttpSettings" with
  | some holders =>
    rw [hxhttp] at hl
    exact holder_leg (ProperAt.pointer (fun _ hv => h.values hv) hxhttp) (hfits.xhttp holders hxhttp) hl
  | none =>
    rw [hxhttp] at hl
    cases hsplit : pointer n "splithttpSettings" with
    | some holders =>
      rw [hsplit] at hl
      exact holder_leg (ProperAt.pointer (fun _ hv => h.values hv) hsplit) (hfits.splithttp holders hsplit) hl
    | none =>
      rw [hsplit] at hl
      cases hl

/-- **A leg that the label trusts** is protected. -/
theorem leg_protected (env : Env) {l : Leg} (h : StandsFor n l)
    (htrust : (xrayDownloadLegProtection n).1 = .verified ∨ env.isPrivateHost (xrayDownloadLegProtection n).2 = true) :
    l.Protected env := by
  obtain ⟨_, rfl, hproper, hfits⟩ := h
  have hserver : (xrayDownloadLegProtection n).2 = (decodeLeg [] n).server := by
    unfold xrayDownloadLegProtection
    dsimp only
    split
    · rfl
    · split <;> rfl
  rcases htrust with hverified | hprivate
  · unfold xrayDownloadLegProtection at hverified
    dsimp only at hverified
    by_cases hreality : xrayLower (lastText n "security") = "reality"
    · exact .inl hreality
    rw [if_neg (by simpa using hreality)] at hverified
    by_cases htls : xrayLower (lastText n "security") = "tls"
    · rw [if_neg (by simpa using htls), editLive_given hproper.distinct hfits.tls] at hverified
      refine .inr (.inl ⟨htls, fun t ht => ?_⟩)
      obtain ⟨nodes, hnodes, rfl⟩ := map_eq_some_iff.mp ht
      rw [hnodes, any_some, any_some] at hverified
      have hinsecure : (decodeTls nodes).allowInsecure =
        ((xrayStreamLast nodes "allowInsecure" false).getD .null).toBool := rfl
      have hpinned : (decodeTls nodes).pinned = pinnedTls nodes := rfl
      rw [hinsecure, hpinned]
      cases hoff : ((xrayStreamLast nodes "allowInsecure" false).getD .null).toBool with
      | false => exact .inl rfl
      | true =>
        rw [hoff] at hverified
        cases hpin : pinnedTls nodes with
        | true => exact .inr rfl
        | false =>
          rw [hpin] at hverified
          cases hverified
    · rw [if_pos (by simpa using htls)] at hverified
      cases hverified
  · rw [hserver] at hprivate
    exact .inr (.inr hprivate)

theorem withXrayDownloadLeg_secure {env : Env} {info : SecurityInfo} {host : String} {leg : List Object}
    (h : (withXrayDownloadLeg env info host leg).level = .secure) :
    info.level = .secure ∧ (leg = [] ∨ (xrayDownloadLegProtection leg).1 = .verified ∨
      env.isPrivateHost (xrayDownloadLegProtection leg).2 = true) := by
  unfold withXrayDownloadLeg at h
  dsimp only at h
  split at h
  · rename_i hstays
    refine ⟨h, .inl ?_⟩
    rw [h] at hstays
    simpa using hstays
  split at h
  · rename_i htrust
    refine ⟨h, .inr ?_⟩
    simpa using htrust
  have hlevel : (if ((xrayDownloadLegProtection leg).1 == .plain) = true then SecurityLevel.none else .weak) ≠ .secure := by
    split <;> exact nofun
  generalize (if ((xrayDownloadLegProtection leg).1 == .plain) = true then SecurityLevel.none else .weak) = level at h hlevel
  split at h
  · rename_i hdanger
    unfold SecurityInfo.isDangerous at hdanger
    rw [h] at hdanger
    cases hdanger
  · exact absurd h hlevel

/-! ## The contract -/

section

variable {env : Env}

/-- **A secure label never overstates**: as the core decodes the outbound, the protocol encrypts
by itself, or the main stream is verified and the download leg that it dials is protected. -/
theorem label_contract (hlower : LowersNames env.toLower) (o : JsonObject) (hdecodes : Decodes o.members)
    (hsecure : (xrayOutboundSecurity env o.members).level = .secure) :
    (decode o.members).Encrypts ∨ (decode o.members).StreamProtected env := by
  unfold xrayOutboundSecurity at hsecure
  dsimp only at hsecure
  split at hsecure
  · cases hsecure
  cases hencrypts : xrayEncrypts env o.members ((xrayAgreedProtocol env o.members).getD "") with
  | true => exact .inl (encrypts_sound hlower o.ok hencrypts)
  | false =>
    right
    rw [hencrypts, if_neg Bool.false_ne_true, if_neg Bool.false_ne_true] at hsecure
    have hlabel : (withXrayDownloadLeg env (streamSecurity env o.members) (xrayOutboundAddress env o.members)
        (xrayDownloadLeg o.members)).level = .secure := by
      split at hsecure
      · exact hsecure
      split at hsecure
      · cases hsecure
      · exact hsecure
    obtain ⟨hmain, hleg⟩ := withXrayDownloadLeg_secure hlabel
    obtain ⟨hobjects, security, hstreams⟩ := streamSecurity_secure hmain
    rw [spelled_eq o.ok] at hobjects hstreams
    have hlive : live (values [o.members] "streamSettings") = values [o.members] "streamSettings" :=
      live_of_objects hobjects
    have hne : values [o.members] "streamSettings" ≠ [] := by
      intro hnil
      have hsome := hstreams.some
      rw [hnil] at hsome
      exact hsome rfl
    have hpointer : pointer [o.members] "streamSettings" =
      some ((values [o.members] "streamSettings").map toObject) := by
      rw [← hlive] at hne
      rw [pointer_eq_some hne, hlive]
    have hroot : Proper [o.members] := fun m hm => by
      rw [mem_singleton.mp hm]
      exact o.ok
    have hproper : Proper ((values [o.members] "streamSettings").map toObject) :=
      ProperAt.pointer (fun _ hv => hroot.values hv) hpointer
    refine ⟨decodeStream ((values [o.members] "streamSettings").map toObject), ?_,
      main_verified hlower hproper hstreams, ?_⟩
    · rw [decode, hpointer]
      rfl
    intro hdials l hl
    have hstands := stream_leg hproper (hdecodes.stream _ hpointer) hl
    have hgiven : xrayDownloadLeg o.members = legOfStreams ((values [o.members] "streamSettings").map toObject) := by
      rw [xrayDownloadLeg, editLive_given hroot.distinct hdecodes.field, hpointer]
      exact if_pos hdials
    rw [hgiven] at hleg
    exact leg_protected env hstands (hleg.resolve_left hstands.some)

end

/-- TLS on the way up, and a plain download leg to a server of the local network. -/
def privateLeg : JsonObject where
  members := [("protocol", .str "VMess"), ("streamSettings", .obj [
    ("Security", .str "TLS"), ("network", .str "xhttp"), ("tlsSettings", .obj [("allowInsecure", .bool false)]),
    ("xhttpSettings", .obj [("downloadSettings", .obj [("address", .str "10.0.0.1")])])])]
  ok := by decide

def localNetwork : Env where
  toLower := xrayLower
  toUpper := id
  isPrivateHost host := host == "10.0.0.1"

theorem privateLeg_decodes : Decodes privateLeg.members := by
  refine ⟨by decide, pointer_is rfl ⟨⟨by decide, by decide⟩, by decide, pointer_is rfl ?_, by decide, nofun⟩⟩
  exact ⟨⟨by decide, pointer_is rfl ⟨by decide, by decide⟩⟩, nofun, nofun⟩

theorem label_contract_private :
    (xrayOutboundSecurity localNetwork privateLeg.members).label = "TLS" ∧
      ((decode privateLeg.members).Encrypts ∨ (decode privateLeg.members).StreamProtected localNetwork) :=
  ⟨by decide, label_contract (fun _ _ _ h => h) privateLeg privateLeg_decodes (by decide)⟩

end Waterdisco.XrayStream
