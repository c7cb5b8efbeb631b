import Waterdisco.Sub.OvpnConfig

/-!
# What a configuration that is read gives

`servers` lists the servers of a text, each with the port of its own line and that of
its block, and `globalPort` the port given for all.  `Promised` is what the core insists
on and what the text asks for:

    port = that of the line, else of the block, else the global one, else 1194

The clean-up at the end keeps all of it but one: a port on the line of a remote or in a
block is never compared with 65535, and one in a block may be negative
(`parseOvpnConfig_promised`).
-/

namespace Waterdisco.Ovpn

open List Option Prod Parsing Routing Reading
open Route (trimmed)

/-! ## What the text asks for -/

/-- A server of the text; a port of 0 is none. -/
structure ServerLine where
  host : String
  line : Option Int
  block : Option Int

def given (port : Int) : Option Int := if port = 0 then none else some port

/-- The server of a `remote` directive or of a connection block with a remote. -/
def serverOf (toLower : String → String) (item : Directive) : Option ServerLine :=
  if item.inlineTag = "connection" then
    let connection := readConnection toLower item.inlineBody
    if connection.remote.host = "" then none
    else some ⟨connection.remote.host, given connection.remote.port, given connection.port⟩
  else if item.inlineTag = "" ∧ item.args.head? = some "remote" then
    let remote := vpnfiParseRemote toLower item.args
    if remote.host = "" then none else some ⟨remote.host, given remote.port, none⟩
  else none

def servers (toLower : String → String) (body : String) : List ServerLine :=
  (vpnfiReadOvpnDirectives body.toList).filterMap (serverOf toLower)

def portLine (item : Directive) : Option Int :=
  if item.inlineTag = "" ∧ (item.args.head? = some "port" ∨ item.args.head? = some "rport") ∧
      portProblem (item.args.getD 1 "") = "" then some (toInt (item.args.getD 1 ""))
  else none

def globalPort (body : String) : Option Int := ((vpnfiReadOvpnDirectives body.toList).filterMap portLine).getLast?

def ServerLine.port (server : ServerLine) (global : Option Int) : Int :=
  server.line.getD (server.block.getD (global.getD kOvpnDefaultPort))

/-- The servers an outbound names: its own, or those of its list. -/
def Outbound.named (out : Outbound) : List (String × Int) :=
  if out.servers = [] then [(out.server, out.serverPort)] else out.servers.map fun remote => (remote.host, remote.port)

/-- No value is given both inline and by path. -/
structure Settings.OnePlace (settings : Settings) : Prop where
  certificate : settings.tls.certificate = [] ∨ settings.tls.certificatePath = ""
  clientCertificate : settings.tls.clientCertificate = [] ∨ settings.tls.clientCertificatePath = ""
  clientKey : settings.tls.clientKey = [] ∨ settings.tls.clientKeyPath = ""
  controlWrap : settings.tls.controlWrap.key = [] ∨ settings.tls.controlWrap.keyPath = ""
  staticKey : settings.staticKey = [] ∨ settings.staticKeyPath = ""

/-- What a text that is read gives. -/
structure Promised (toLower : String → String) (body : String) (out : Outbound) : Prop where
  named : out.named = (servers toLower body).map fun server => (server.host, server.port (globalPort body))
  alone : (servers toLower body).length = 1 → out.servers = []
  list : 1 < (servers toLower body).length → out.server = "" ∧ out.serverPort = 0 ∧
    out.servers.length = (servers toLower body).length
  ports : ∀ entry ∈ out.named, 1 ≤ entry.2 ∧ entry.2 ≤ 65535
  onePlace : out.toSettings.OnePlace
  clientPair : out.tls.hasClientCert = out.tls.hasClientKey
  remoteCertificate : out.tls.remoteCertificateEku = "" ∨ out.tls.remoteCertificateTls = ""

/-- The ports of the text are ports: that of a line, else that of its block. -/
def PortsFit (toLower : String → String) (body : String) : Prop :=
  ∀ server ∈ servers toLower body,
    match server.line, server.block with
    | some port, _ => port ≤ 65535
    | none, some port => 1 ≤ port ∧ port ≤ 65535
    | none, none => True

/-! ## Ports -/

theorem parseInt_port {text : List Char} {v : Int} (h : parseInt text = some v) (hv : 1 ≤ v) :
    ∃ n : Nat, Routing.number text = some n ∧ v = n := by
  unfold parseInt at h
  split at h
  · simp only [bind_eq_some_iff] at h
    obtain ⟨n, -, hn⟩ := h
    split at hn
    · cases hn
      omega
    · cases hn
  · simp only [bind_eq_some_iff] at h
    obtain ⟨n, hn, hv'⟩ := h
    split at hv'
    · cases hv'
      exact ⟨n, hn, rfl⟩
    · cases hv'

theorem number_signed {c : Char} (hc : decimalDigit c = none) (digits : List Char) :
    Routing.number (c :: digits) = none := by
  simp [number, readDigits, foldlM_cons, hc]

theorem toInt_of_number {value : String} {n : Nat} (hn : Routing.number (trimmed value).toList = some n)
    (hlt : n < 2 ^ 31) : toInt value = n := by
  unfold toInt
  generalize (trimmed value).toList = text at hn
  have hrange : -(2 : Int) ^ 31 ≤ n ∧ (n : Int) < 2 ^ 31 := by omega
  have hsign {c : Char} (hc : decimalDigit c = none) (digits : List Char) : text ≠ c :: digits := by
    rintro rfl
    rw [number_signed hc] at hn
    cases hn
  dsimp only
  split
  · rename_i v heq
    split at heq
    · exact absurd rfl (hsign (by decide) _)
    · exact absurd rfl (hsign (by decide) _)
    rw [hn] at heq
    obtain rfl : (n : Int) = v := some.inj heq
    exact if_pos hrange
  · rename_i heq
    split at heq
    · exact absurd rfl (hsign (by decide) _)
    · exact absurd rfl (hsign (by decide) _)
    · rw [hn] at heq
      cases heq

theorem toInt_port {value : String} (h : portProblem value = "") : 1 ≤ toInt value ∧ toInt value ≤ 65535 := by
  unfold portProblem at h
  split at h
  · simp at h
  split at h
  · rename_i v hv
    split at h
    · simp [portMessage] at h
    obtain ⟨n, hn, rfl⟩ := parseInt_port hv (by omega)
    rw [toInt_of_number hn (by omega)]
    omega
  · simp [portMessage] at h

variable {p : Parsing} {item : Directive} {server : ServerLine} {global : Option Int} (settings : Settings)
  (toLower : String → String) (rules : Rules) (r : Reading) (first : Remote) (others : List Remote)

theorem take_port (remote : Remote) (arg : String) :
    (remote.take toLower arg).port = if 0 < toInt arg then toInt arg else remote.port := by
  unfold Remote.take
  by_cases hport : 0 < toInt arg
  · rw [if_pos hport, if_pos hport]
  · rw [if_neg hport, if_neg hport]
    split <;> rfl

theorem remote_port_nonneg (args : List String) :
    0 ≤ (vpnfiParseRemote toLower args).port := by
  have hfold (rest : List String) (remote : Remote) (h : 0 ≤ remote.port) :
      0 ≤ (rest.foldl (Remote.take toLower) remote).port := by
    induction rest generalizing remote with
    | nil => exact h
    | cons arg rest ih =>
      apply ih
      rw [take_port]
      split <;> omega
  unfold vpnfiParseRemote
  split
  · rename_i host rest
    exact hfold (rest.take 2) { host := host } (Int.le_refl 0)
  · decide

theorem given_getD (port other : Int) : (given port).getD other = if port = 0 then other else port := by
  unfold given
  split <;> rfl

/-! ## The loop -/

/-- Hosts and ports as the loop has them. -/
def Parsing.named (p : Parsing) : List (String × Int) := p.remotes.map fun remote => (remote.host, remote.port)

def ServerLine.named (server : ServerLine) : String × Int := (server.host, server.line.getD (server.block.getD 0))

theorem connection_named (connection : Connection) :
    (connection.server.host, connection.server.port) =
      ServerLine.named ⟨connection.remote.host, given connection.remote.port, given connection.port⟩ := by
  simp only [Connection.server, ServerLine.named, given_getD]
  by_cases hport : connection.remote.port = 0
  · by_cases hblock : connection.port = 0 <;> simp [hport, hblock]
  · simp [hport]

theorem block_spec (p : Parsing) (item : Directive) (htag : item.inlineTag ≠ "")
    (hfatal : (p.block rules item.inlineTag item.inlineBody).fatal = "") :
    (p.block rules item.inlineTag item.inlineBody).named =
        p.named ++ (serverOf rules.toLower item).toList.map ServerLine.named ∧
      (p.block rules item.inlineTag item.inlineBody).defaultPort = (portLine item).getD p.defaultPort := by
  have hport : portLine item = none := by simp [portLine, htag]
  rw [hport]
  unfold block serverOf
  unfold block at hfatal
  by_cases hconnection : item.inlineTag = "connection"
  · rw [if_pos hconnection, if_pos hconnection]
    by_cases hhost : (readConnection rules.toLower item.inlineBody).remote.host = ""
    · rw [if_pos hhost, if_pos hhost]
      exact ⟨by simp [Parsing.note, Parsing.named], rfl⟩
    rw [if_neg hhost, if_neg hhost]
    refine ⟨?_, rfl⟩
    unfold Parsing.named
    rw [map_append]
    exact congrArg (fun entry => _ ++ [entry]) (connection_named _)
  · rw [if_neg hconnection] at hfatal
    rw [if_neg hconnection, if_neg hconnection]
    by_cases hpkcs : item.inlineTag = "pkcs12"
    · rw [if_pos hpkcs] at hfatal
      simp [fail, pkcs12Message] at hfatal
    · rw [if_neg hpkcs, if_neg (by simp [htag])]
      exact ⟨by simp [Parsing.named], rfl⟩

/-- The server and the port that a directive gives. -/
def namedBy (toLower : String → String) (key : String) (args : List String) : List (String × Int) :=
  let remote := vpnfiParseRemote toLower args
  if key = "remote" ∧ remote.host ≠ "" then [(remote.host, remote.port)] else []

def portBy (key : String) (args : List String) (port : Int) : Int :=
  if (key = "port" ∨ key = "rport") ∧ portProblem (args.getD 1 "") = "" then toInt (args.getD 1 "") else port

theorem directive_spec (p : Parsing) (key : String) (args : List String)
    (hfatal : (p.directive rules key args).fatal = "") :
    (p.directive rules key args).named = p.named ++ namedBy rules.toLower key args ∧
      (p.directive rules key args).defaultPort = portBy key args p.defaultPort := by
  have hnone (h : ¬(key = "remote" ∧ (vpnfiParseRemote rules.toLower args).host ≠ "")) :
    namedBy rules.toLower key args = [] :=
    if_neg h
  -- a directive that is neither of the two leaves both as they are
  have quiet {next : Parsing} (hremote : key ≠ "remote") (hport : ¬(key = "port" ∨ key = "rport"))
      (hnamed : next.named = p.named) (hdefault : next.defaultPort = p.defaultPort) :
      next.named = p.named ++ namedBy rules.toLower key args ∧ next.defaultPort = portBy key args p.defaultPort := by
    rw [hnone fun h => hremote h.1, portBy, if_neg fun h => hport h.1, append_nil]
    exact ⟨hnamed, hdefault⟩
  unfold directive at hfatal ⊢
  by_cases hserver : key ∈ vpnfiOvpnServerOnly
  · rw [if_pos hserver] at hfatal
    simp [fail] at hfatal
  rw [if_neg hserver] at hfatal ⊢
  by_cases hpkcs : key = "pkcs12"
  · rw [if_pos hpkcs] at hfatal
    simp [fail, pkcs12Message] at hfatal
  rw [if_neg hpkcs] at hfatal ⊢
  by_cases hdev : key = "dev" ∨ key = "dev-type"
  · rw [if_pos hdev] at hfatal ⊢
    have hkey : key ≠ "remote" ∧ ¬(key = "port" ∨ key = "rport") := by
      rcases hdev with rfl | rfl <;> decide
    by_cases htap : "tap".toList <+: (args.getD 1 "").toList
    · rw [if_pos htap] at hfatal
      simp [fail] at hfatal
    · rw [if_neg htap]
      exact quiet hkey.1 hkey.2 rfl rfl
  rw [if_neg hdev] at hfatal ⊢
  by_cases hmode : key = "mode"
  · rw [if_pos hmode] at hfatal ⊢
    by_cases hvalue : args.getD 1 "" = "server"
    · rw [if_pos hvalue] at hfatal
      simp [fail] at hfatal
    rw [if_neg hvalue]
    subst hmode
    exact quiet (by decide) (by decide) rfl rfl
  rw [if_neg hmode] at hfatal ⊢
  by_cases hremote : key = "remote"
  · have hport : portBy key args p.defaultPort = p.defaultPort := if_neg (by simp [hremote])
    rw [if_pos hremote, hport]
    by_cases hhost : (vpnfiParseRemote rules.toLower args).host = ""
    · rw [if_pos hhost, hnone fun h => h.2 hhost, append_nil]
      exact ⟨rfl, rfl⟩
    have hnew : namedBy rules.toLower key args = [_] := if_pos ⟨hremote, hhost⟩
    rw [if_neg hhost, hnew]
    refine ⟨?_, rfl⟩
    simp only [Parsing.named, map_append, map_cons, map_nil]
  rw [if_neg hremote] at hfatal ⊢
  by_cases hproto : key = "proto"
  · have hport : ¬(key = "port" ∨ key = "rport") := by
      subst hproto
      decide
    rw [if_pos hproto] at hfatal ⊢
    by_cases hnetwork : vpnfiNetwork rules.toLower (args.getD 1 "") ≠ ""
    · rw [if_pos hnetwork]
      exact quiet hremote hport rfl rfl
    rw [if_neg hnetwork] at hfatal ⊢
    by_cases hsuffix : "-server".toList <:+ (args.getD 1 "").toList
    · rw [if_pos hsuffix] at hfatal
      simp [fail] at hfatal
    · rw [if_neg hsuffix]
      exact quiet hremote hport rfl rfl
  rw [if_neg hproto] at hfatal ⊢
  by_cases hport : key = "port" ∨ key = "rport"
  · rw [if_pos hport, hnone fun h => hremote h.1, append_nil, portBy]
    by_cases hproblem : portProblem (args.getD 1 "") = ""
    · rw [if_pos hproblem, if_pos ⟨hport, hproblem⟩]
      simp only [Parsing.named, and_self]
    rw [if_neg hproblem, if_neg fun h => hproblem h.2]
    exact ⟨rfl, rfl⟩
  rw [if_neg hport]
  by_cases hrandom : key = "remote-random"
  · rw [if_pos hrandom]
    exact quiet hremote hport rfl rfl
  · rw [if_neg hrandom]
    exact quiet hremote hport rfl rfl

theorem serverOf_args (htag : item.inlineTag = "") {key : String}
    {rest : List String} (hargs : item.args = key :: rest) :
    (serverOf toLower item).toList.map ServerLine.named =
      namedBy toLower key item.args := by
  unfold serverOf namedBy
  rw [htag, if_neg (by decide)]
  have hhead : item.args.head? = some "remote" ↔ key = "remote" := by simp [hargs]
  by_cases hremote : key = "remote"
  · rw [if_pos ⟨rfl, hhead.mpr hremote⟩]
    generalize vpnfiParseRemote toLower item.args = remote
    by_cases hhost : remote.host = ""
    · simp [hhost]
    have hport : (if remote.port = 0 then 0 else remote.port) = remote.port := by
      split
      · rename_i h
        exact h.symm
      · rfl
    simp [hhost, hremote, ServerLine.named, given_getD, hport]
  · rw [if_neg (fun h => hremote (hhead.mp h.2)), if_neg (fun h => hremote h.1)]
    rfl

theorem portLine_args (htag : item.inlineTag = "") {key : String} {rest : List String}
    (hargs : item.args = key :: rest) (other : Int) :
    (portLine item).getD other = portBy key item.args other := by
  have hhead (text : String) : item.args.head? = some text ↔ key = text := by simp [hargs]
  unfold portLine portBy
  by_cases hport : (key = "port" ∨ key = "rport") ∧ portProblem (item.args.getD 1 "") = ""
  · rw [if_pos hport, if_pos ⟨htag, hport.1.imp (hhead _).mpr (hhead _).mpr, hport.2⟩, getD_some]
  have hnone : ¬(item.inlineTag = "" ∧ (item.args.head? = some "port" ∨ item.args.head? = some "rport") ∧
      portProblem (item.args.getD 1 "") = "") :=
    fun h => hport ⟨h.2.1.imp (hhead _).mp (hhead _).mp, h.2.2⟩
  rw [if_neg hport, if_neg hnone]
  rfl

theorem step_spec {rules : Rules} {next : Parsing} (h : p.step rules item = some next)
    (hfatal : next.fatal = "") :
    next.named = p.named ++ (serverOf rules.toLower item).toList.map ServerLine.named ∧
      next.defaultPort = (portLine item).getD p.defaultPort := by
  unfold step at h
  by_cases htag : item.inlineTag = ""
  · rw [if_neg (by simp [htag])] at h
    cases hargs : item.args with
    | nil =>
      rw [hargs] at h
      cases h
    | cons key rest =>
      rw [hargs] at h
      have hnext : p.directive rules key (key :: rest) = next := some.inj h
      rw [← hnext] at hfatal ⊢
      have hserver := serverOf_args rules.toLower htag hargs
      have hportLine := portLine_args htag hargs p.defaultPort
      rw [hargs] at hserver hportLine
      rw [hserver, hportLine]
      exact directive_spec rules p key (key :: rest) hfatal
  · rw [if_pos htag] at h
    have hnext : p.block rules item.inlineTag item.inlineBody = next := some.inj h
    rw [← hnext] at hfatal ⊢
    exact block_spec rules p item htag hfatal

theorem run_fatal (items : List Directive) (h : p.fatal ≠ "") :
    Parsing.run rules items p = some p := by
  cases items with
  | nil => rfl
  | cons item rest => rw [Parsing.run, if_pos h]

/-- **What the loop has gathered** when nothing was fatal: the servers of the text, in order, and its global port. -/
theorem run_spec {rules : Rules} {items : List Directive} {next : Parsing}
    (h : Parsing.run rules items p = some next) (hfatal : next.fatal = "") :
    next.named = p.named ++ (items.filterMap (serverOf rules.toLower)).map ServerLine.named ∧
      next.defaultPort = ((items.filterMap portLine).getLast?).getD p.defaultPort := by
  induction items generalizing p with
  | nil =>
    obtain rfl : p = next := some.inj h
    simp
  | cons item rest ih =>
    by_cases hp : p.fatal = ""
    · rw [Parsing.run, if_neg (not_not.mpr hp), bind_eq_some_iff] at h
      obtain ⟨mid, hstep, hrest⟩ := h
      have hmid : mid.fatal = "" := by
        by_contra hne
        rw [run_fatal rules rest hne] at hrest
        obtain rfl : mid = next := some.inj hrest
        exact hne hfatal
      obtain ⟨hnamed, hport⟩ := step_spec hstep hmid
      obtain ⟨hnamed', hport'⟩ := ih hrest
      rw [hnamed', hport', hnamed, hport]
      constructor
      · cases hserver : serverOf rules.toLower item <;> simp [hserver]
      · cases hline : portLine item <;> simp [hline, getLast?_cons]
    · rw [run_fatal rules _ hp] at h
      obtain rfl : p = next := some.inj h
      exact absurd hfatal hp

/-! ## The end of the text -/

/-- What the clean-up keeps of the client's certificate and key. -/
def SamePair (r r' : Reading) : Prop :=
  r'.out.tls.hasClientCert = r.out.tls.hasClientCert ∧ r'.out.tls.hasClientKey = r.out.tls.hasClientKey

theorem SamePair.trans {a b c : Reading} (hab : SamePair a b) (hbc : SamePair b c) : SamePair a c :=
  ⟨hbc.1.trans hab.1, hbc.2.trans hab.2⟩

theorem takeIfconfig_pair : SamePair r (r.takeIfconfig rules) := by
  unfold takeIfconfig
  split
  · exact ⟨rfl, rfl⟩
  dsimp only
  split
  · split <;> exact ⟨rfl, rfl⟩
  · split <;> exact ⟨rfl, rfl⟩

theorem takeKeyDirection_pair : SamePair r r.takeKeyDirection := by
  unfold takeKeyDirection
  split
  · exact ⟨rfl, rfl⟩
  split
  · exact ⟨rfl, rfl⟩
  split <;> exact ⟨rfl, rfl⟩

theorem takeLegacyCipher_pair : SamePair r (r.takeLegacyCipher rules) := by
  unfold takeLegacyCipher
  split
  · exact ⟨rfl, rfl⟩
  split
  · exact ⟨rfl, rfl⟩
  split
  · unfold accept
    split <;> exact ⟨rfl, rfl⟩
  · exact ⟨rfl, rfl⟩

theorem preferEku_pair : SamePair r r.preferEku := by
  unfold preferEku
  split <;> exact ⟨rfl, rfl⟩

theorem dropPaths_pair : SamePair r r.dropPaths := by
  simp only [SamePair, Reading.dropPaths, Reading.set, Tls.dropPaths, Tls.hasClientCert, Tls.hasClientKey]
  constructor
  · by_cases h : r.out.tls.clientCertificate = [] <;> simp [h]
  · by_cases h : r.out.tls.clientKey = [] <;> simp [h]

theorem fullTunnel_pair : SamePair r r.fullTunnel := ⟨rfl, rfl⟩

theorem takeNames_pair :
    SamePair r ((r.takeNetwork first others).takeName first) := ⟨rfl, rfl⟩

theorem settle_pair :
    SamePair r (r.settle rules first others) := by
  have hnames := takeNames_pair r first others
  have haddress := hnames.trans (takeIfconfig_pair rules _)
  have hdirection := haddress.trans (takeKeyDirection_pair _)
  have hcipher := hdirection.trans (takeLegacyCipher_pair rules _)
  have heku := hcipher.trans (preferEku_pair _)
  have htunnel := heku.trans (fullTunnel_pair _)
  exact htunnel.trans (dropPaths_pair _)

theorem preferEku_one :
    r.preferEku.out.tls.remoteCertificateEku = "" ∨ r.preferEku.out.tls.remoteCertificateTls = "" := by
  unfold preferEku
  split
  · exact .inr rfl
  rename_i h
  by_cases heku : r.out.tls.remoteCertificateEku = ""
  · exact .inl heku
  · exact .inr (not_not.mp (not_and.mp h heku))

theorem inline_or_path (value : List String) (path : String) : value = [] ∨ (if value = [] then path else "") = "" := by
  by_cases h : value = []
  · exact .inl h
  · exact .inr (if_neg h)

theorem dropPaths_onePlace : r.dropPaths.out.OnePlace where
  certificate := inline_or_path r.out.tls.certificate _
  clientCertificate := inline_or_path r.out.tls.clientCertificate _
  clientKey := inline_or_path r.out.tls.clientKey _
  controlWrap := inline_or_path r.out.tls.controlWrap.key _
  staticKey := inline_or_path r.out.staticKey _

theorem settle_onePlace :
    (r.settle rules first others).out.OnePlace := by
  exact dropPaths_onePlace _

/-! ## Ports and names -/

theorem withPort_port {remote : Remote} (hport : remote.port = server.line.getD (server.block.getD 0))
    (hline : ∀ port, server.line = some port → port ≠ 0) (hblock : ∀ port, server.block = some port → port ≠ 0)
    (hglobal : ∀ port, global = some port → 0 < port) :
    (remote.withPort (global.getD 0)).port = server.port global := by
  unfold Remote.withPort ServerLine.port
  rw [hport]
  cases hl : server.line with
  | some port => simp [hline port hl]
  | none =>
    cases hb : server.block with
    | some port => simp [hblock port hb]
    | none =>
      cases hg : global with
      | some port => simp [hglobal port hg]
      | none => simp

theorem given_ne {port port' : Int} (h : given port = some port') : port' = port ∧ port' ≠ 0 := by
  unfold given at h
  split at h
  · cases h
  rename_i hne
  cases h
  exact ⟨rfl, hne⟩

theorem connection_port_nonneg (body : List String) :
    0 ≤ (readConnection toLower body).remote.port := by
  have hfold (lines : List String) (block : Connection) (h : 0 ≤ block.remote.port) :
      0 ≤ (lines.foldl (Connection.read toLower) block).remote.port := by
    induction lines generalizing block with
    | nil => exact h
    | cons line rest ih =>
      apply ih
      unfold Connection.read
      split
      · exact h
      split
      · exact remote_port_nonneg toLower _
      split
      · exact h
      split
      · exact h
      · exact h
  exact hfold body {} (Int.le_refl 0)

theorem serverOf_ports {toLower : String → String}
    (h : serverOf toLower item = some server) :
    (∀ port, server.line = some port → 0 < port) ∧ ∀ port, server.block = some port → port ≠ 0 := by
  have hline {port : Int} (hnonneg : 0 ≤ port) (port' : Int) (hgiven : given port = some port') : 0 < port' := by
    obtain ⟨rfl, hne⟩ := given_ne hgiven
    omega
  unfold serverOf at h
  split at h
  · dsimp only at h
    split at h
    · cases h
    · cases h
      exact ⟨hline (connection_port_nonneg toLower _), fun port hblock => (given_ne hblock).2⟩
  split at h
  · dsimp only at h
    split at h
    · cases h
    · cases h
      exact ⟨hline (remote_port_nonneg toLower _), fun port hblock => by cases hblock⟩
  · cases h

theorem globalPort_pos {body : String} {port : Int} (h : globalPort body = some port) : 1 ≤ port ∧ port ≤ 65535 := by
  have hmem := mem_of_getLast? h
  obtain ⟨item, -, hitem⟩ := mem_filterMap.mp hmem
  unfold portLine at hitem
  split at hitem
  · rename_i hport
    cases hitem
    exact toInt_port hport.2.2
  · cases hitem

theorem port_fits (hline : ∀ port, server.line = some port → 0 < port)
    (hglobal : ∀ port, global = some port → 1 ≤ port ∧ port ≤ 65535) :
    (match server.line, server.block with
      | some port, _ => port ≤ 65535
      | none, some port => 1 ≤ port ∧ port ≤ 65535
      | none, none => True) ↔ 1 ≤ server.port global ∧ server.port global ≤ 65535 := by
  unfold ServerLine.port
  cases hl : server.line with
  | some port =>
    have := hline port hl
    simp only [getD_some]
    omega
  | none =>
    cases hb : server.block with
    | some port => simp
    | none =>
      cases hg : global with
      | some port => simp [hglobal port hg]
      | none => simp [kOvpnDefaultPort]

/-- With the ports filled in, the servers gathered are those of the text. -/
theorem remotes_named {remotes : List Remote} {lines : List ServerLine}
    (h : remotes.map (fun remote => (remote.host, remote.port)) = lines.map ServerLine.named)
    (hports : ∀ server ∈ lines, (∀ port, server.line = some port → 0 < port) ∧ ∀ port,
      server.block = some port → port ≠ 0)
    (hglobal : ∀ port, global = some port → 0 < port) :
    (remotes.map fun remote => remote.withPort (global.getD 0)).map (fun remote => (remote.host, remote.port)) =
      lines.map fun server => (server.host, server.port global) := by
  induction remotes generalizing lines with
  | nil =>
    cases lines with
    | nil => rfl
    | cons server rest => simp at h
  | cons remote rest ih =>
    cases lines with
    | nil => simp at h
    | cons server lines =>
      simp only [map_cons, cons.injEq] at h ⊢
      obtain ⟨hline, hblock⟩ := hports server mem_cons_self
      obtain ⟨hhost, hport⟩ := mk.inj h.1
      refine ⟨?_, ih h.2 fun other hmem => hports other (.tail _ hmem)⟩
      have hfilled := withPort_port hport (fun port hp => Int.ne_of_gt (hline port hp)) hblock hglobal
      exact Prod.ext hhost hfilled

theorem withServers_named :
    (settings.withServers first others).named = (first :: others).map fun remote => (remote.host, remote.port) := by
  unfold Settings.withServers
  split
  · rename_i hothers
    simp [Outbound.named, hothers]
  · simp [Outbound.named]

theorem withServers_settings :
    (settings.withServers first others).toSettings = settings := by
  unfold Settings.withServers
  split <;> rfl

theorem withServers_alone {others : List Remote} (h : others = []) :
    (settings.withServers first others).servers = [] := by
  unfold Settings.withServers
  rw [if_pos h]

theorem withServers_list {others : List Remote} (h : others ≠ []) :
    (settings.withServers first others).server = "" ∧ (settings.withServers first others).serverPort = 0 ∧
      (settings.withServers first others).servers.length = others.length + 1 := by
  unfold Settings.withServers
  rw [if_neg h]
  exact ⟨rfl, rfl, rfl⟩

theorem settle_remote :
    (r.settle rules first others).out.tls.remoteCertificateEku = "" ∨
      (r.settle rules first others).out.tls.remoteCertificateTls = "" := by
  unfold Reading.settle
  generalize Reading.takeLegacyCipher rules _ = s
  exact preferEku_one s

/-! ## The whole text -/

theorem finish_failed {rules : Rules} {out : Outbound} (h : (p.finish rules out).ok = false) :
    (p.finish rules out).problems ≠ [] := by
  unfold finish at h ⊢
  split
  · simp [Reading.failed, Reading.note]
  dsimp only at h ⊢
  split
  · simp [Reading.failed, Reading.note]
  split
  · simp [Reading.failed, Reading.note]
  rename_i hfatal hpair _ first others hremotes
  rw [if_neg hfatal, if_neg hpair, hremotes] at h
  simp at h

theorem finish_ok {rules : Rules} {out : Outbound} (h : (p.finish rules out).ok = true) :
    p.fatal = "" ∧ ∃ first others r, p.remotes.map (fun remote => remote.withPort p.defaultPort) = first :: others ∧
      r.out.tls.hasClientCert = r.out.tls.hasClientKey ∧
      (p.finish rules out).out = (Reading.settle rules r first others).out.withServers first others := by
  unfold finish at h ⊢
  by_cases hfatal : p.fatal = ""
  · rw [if_neg (not_not.mpr hfatal)] at h ⊢
    by_cases hpair : p.reading.switchClientCert.out.tls.hasClientCert ≠ p.reading.switchClientCert.out.tls.hasClientKey
    · rw [if_pos hpair] at h
      simp [failed] at h
    rw [if_neg hpair] at h ⊢
    cases hremotes : p.remotes.map (fun remote => remote.withPort p.defaultPort) with
    | nil =>
      rw [hremotes] at h
      simp [failed] at h
    | cons first others => exact ⟨hfatal, first, others, _, rfl, not_not.mp hpair, rfl⟩
  · rw [if_pos hfatal] at h
    simp [failed] at h

/-- **A text that is read keeps its promise exactly when its ports are ports**; one that is not read is reported. -/
theorem parseOvpnConfig_promised (rules : Rules) (body : String) (parsed : Parsed)
    (h : ParseOvpnConfig rules body {} = some parsed) :
    (parsed.ok = true → (Promised rules.toLower body parsed.out ↔ PortsFit rules.toLower body)) ∧
      (parsed.ok = false → parsed.problems ≠ []) := by
  unfold ParseOvpnConfig at h
  split at h
  · cases h
    exact ⟨by simp, fun _ => cons_ne_nil _ _⟩
  obtain ⟨p, hrun, rfl⟩ := map_eq_some_iff.mp h
  refine ⟨fun hok => ?_, finish_failed⟩
  obtain ⟨hfatal, first, others, r, hremotes, hpair, hout⟩ := finish_ok hok
  obtain ⟨hnamed, hport⟩ := run_spec hrun hfatal
  have hlines : ∀ server ∈ servers rules.toLower body, (∀ port, server.line = some port → 0 < port) ∧
      ∀ port, server.block = some port → port ≠ 0 := by
    intro server hmem
    obtain ⟨item, -, hitem⟩ := mem_filterMap.mp hmem
    exact serverOf_ports hitem
  have hglobal : ∀ port, globalPort body = some port → 1 ≤ port ∧ port ≤ 65535 := fun port hp => globalPort_pos hp
  have hentries : (first :: others).map (fun remote => (remote.host, remote.port)) =
      (servers rules.toLower body).map fun server => (server.host, server.port (globalPort body)) := by
    have hdefault : p.defaultPort = (globalPort body).getD 0 := hport
    rw [← hremotes, hdefault]
    exact remotes_named hnamed hlines fun port hp => Int.lt_of_lt_of_le (by decide) (hglobal port hp).1
  have hlength : (servers rules.toLower body).length = others.length + 1 := by
    have := congrArg length hentries
    simpa using this.symm
  have hout' : (p.finish rules {}).out.named =
      (servers rules.toLower body).map fun server => (server.host, server.port (globalPort body)) := by
    rw [hout, withServers_named, hentries]
  have hfits : PortsFit rules.toLower body ↔ ∀ entry ∈ (p.finish rules {}).out.named, 1 ≤ entry.2 ∧ entry.2 ≤ 65535 := by
    rw [hout', List.forall_mem_map]
    exact forall₂_congr fun server hmem => port_fits (hlines server hmem).1 hglobal
  refine ⟨fun hpromised => hfits.mpr hpromised.ports, fun hports => ?_⟩
  have hsettings : (p.finish rules {}).out.toSettings = (Reading.settle rules r first others).out := by
    rw [hout, withServers_settings]
  have hpair' := settle_pair rules r first others
  exact {
    named := hout'
    alone := fun hone => by
      rw [hout]
      exact withServers_alone _ first (length_eq_zero_iff.mp (by omega))
    list := fun hmany => by
      rw [hout, hlength]
      exact withServers_list _ first (fun hnil => by simp [hlength, hnil] at hmany)
    ports := hfits.mp hports
    onePlace := by
      rw [hsettings]
      exact settle_onePlace rules r first others
    clientPair := by
      rw [hsettings, hpair'.1, hpair'.2]
      exact hpair
    remoteCertificate := by
      rw [hsettings]
      exact settle_remote rules r first others }

/-- Every inline block has a name; `< >` opens one that has none. -/
def NamedBlocks (body : String) : Prop :=
  ∀ item ∈ vpnfiReadOvpnDirectives body.toList, item.inlineTag = "" → item.args ≠ []

/-- The code never looks at the parameters of a directive that has none. -/
theorem parseOvpnConfig_returns {body : String} (h : NamedBlocks body) (out : Outbound) :
    ∃ parsed, ParseOvpnConfig rules body out = some parsed := by
  have hrun (items : List Directive) (p : Parsing) (hitems : ∀ item ∈ items, item.inlineTag = "" → item.args ≠ []) :
      ∃ next, Parsing.run rules items p = some next := by
    induction items generalizing p with
    | nil => exact ⟨p, rfl⟩
    | cons item rest ih =>
      rw [Parsing.run]
      split
      · exact ⟨p, rfl⟩
      obtain ⟨mid, hmid⟩ : ∃ mid, p.step rules item = some mid := by
        unfold step
        split
        · exact ⟨_, rfl⟩
        rename_i htag
        split
        · rename_i hargs
          exact absurd hargs (hitems item (.head _) (not_not.mp htag))
        · exact ⟨_, rfl⟩
      rw [hmid]
      exact ih mid fun other hmem => hitems other (.tail _ hmem)
  unfold ParseOvpnConfig
  split
  · exact ⟨_, rfl⟩
  obtain ⟨next, hnext⟩ := hrun _ { reading := { out := out.toSettings.cleared, friendlyName := friendlyNameOf body.toList } } h
  rw [hnext]
  exact ⟨_, rfl⟩

/-! A text of two servers, and one whose port is too large. -/

/-- Rules that take every value as it is. -/
def plainRules : Rules where
  toLower := id
  toUpper := id
  isValidDuration _ := true
  cipherName _ := ""
  normalizeTlsCipher := id
  tlsCipher _ := ""
  tlsGroups _ := ""
  replayWindowTime _ := ""
  normalizeFingerprint := id
  fingerprint _ := ""
  ip _ := ""
  ipOrEmpty _ := ""
  parseSubnet _ := none

def twoServers : String :=
  "client\nport 1195\nremote a.example.org\n<connection>\nremote b.example.org 443 tcp\n</connection>\nca ca.pem\n<ca>\nX\n</ca>"

theorem parseOvpnConfig_promised_twoServers :
    ∃ parsed, ParseOvpnConfig plainRules twoServers {} = some parsed ∧ parsed.ok = true ∧
      parsed.out.named = [("a.example.org", 1195), ("b.example.org", 443)] ∧
      (Promised id twoServers parsed.out ↔ PortsFit id twoServers) := by
  have hread : (ParseOvpnConfig plainRules twoServers {}).map (fun parsed => (parsed.ok, parsed.out.named)) =
      some (true, [("a.example.org", 1195), ("b.example.org", 443)]) := by decide +kernel
  obtain ⟨parsed, hparsed, hvalues⟩ := map_eq_some_iff.mp hread
  obtain ⟨hok, hnamed⟩ := mk.inj hvalues
  exact ⟨parsed, hparsed, hok, hnamed, (parseOvpnConfig_promised plainRules twoServers parsed hparsed).1 hok⟩

theorem not_parseOvpnConfig_promised :
    ¬∀ (rules : Rules) (body : String) (parsed : Parsed), ParseOvpnConfig rules body {} = some parsed →
      (parsed.ok = true → Promised rules.toLower body parsed.out) ∧ (parsed.ok = false → parsed.problems ≠ []) := by
  intro h
  have hread : (ParseOvpnConfig plainRules "remote vpn.example.org 70000" {}).map
      (fun parsed => (parsed.ok, parsed.out.named)) = some (true, [("vpn.example.org", 70000)]) := by decide +kernel
  obtain ⟨parsed, hparsed, hvalues⟩ := map_eq_some_iff.mp hread
  obtain ⟨hok, hnamed⟩ := mk.inj hvalues
  have hports := ((h plainRules _ parsed hparsed).1 hok).ports
  rw [hnamed] at hports
  have := hports _ (mem_singleton_self _)
  omega

end Waterdisco.Ovpn
