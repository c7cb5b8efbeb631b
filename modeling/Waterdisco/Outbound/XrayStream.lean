import Waterdisco.Lib.Holders

/-!
# The stream of an Xray outbound

The edits of xrayStreamSetting.cpp on a JSON outbound before it goes to the core: the
outbound it is dialed through, the interface of its download leg, the system certificates.
Go's decoder merges every spelling of a pointer field, in turn, into one struct, and a null
discards the earlier ones; so an edit works on all live spellings at once
(`xrayStreamEditLive`).  The holders of a field are objects that are themselves merged.
-/

namespace Waterdisco.XrayStream

abbrev Object := Members Json

/-- Go's `strings.ToLower` against ASCII names. -/
def xrayLower (text : String) : String :=
  String.ofList (text.toList.map fun c =>
    if 'A' ≤ c ∧ c ≤ 'Z' then Char.ofNat (c.toNat + 32)
    else if c = '\u0130' then 'i'
    else if c = '\u212a' then 'k'
    else c)

def xrayStreamRemoveNamed (o : Object) (name : String) : Object := (keysNamed o name).foldl removeKey o

/-- The holders after an edit, and the objects that the edit was given, if it was made. -/
structure Live where
  holders : List Object
  given : Option (List Object)

def xrayStreamWriteBack (holders : List Object) (spellings : List (Nat × String))
    (edit : List Object → List Object) : Live :=
  let objects := spellings.map fun s => ((valueIn holders s).getD .null).toObject
  ⟨insertAll holders (spellings.zip ((edit objects).map Json.obj)), some objects⟩

/-- Drops the spellings that a null discards and edits the rest; where none is left, a new one in the last holder. -/
def xrayStreamEditLive (holders : List Object) (name : String) (create : Bool)
    (edit : List Object → List Object) : Live :=
  let spellings := placesNamed holders name
  let gone := discarded (spellings.map fun s => (valueIn holders s).getD .null)
  let kept := removeAll holders (spellings.take gone)
  -- any other non-object makes Xray refuse the config
  let rest := (spellings.drop gone).filter fun s => ((valueIn kept s).getD .null).isObject
  if rest.isEmpty then
    if !create || kept.isEmpty then ⟨kept, none⟩
    else
      let created := (kept.length - 1, name)
      xrayStreamWriteBack (insertIn kept created (.obj [])) [created] edit
  else xrayStreamWriteBack kept rest edit

/-- The value Go keeps for a field: the last one, a null resetting only a pointer field. -/
def xrayStreamLast (nodes : List Object) (name : String) (pointer : Bool) : Option Json :=
  ((values nodes name).filter fun v => pointer || !v.isNull).getLast?

/-- The text of a field, empty where it holds none. -/
def lastText (nodes : List Object) (name : String) : String := ((xrayStreamLast nodes name false).getD .null).toStr

/-- The last spelling of `extra`, even a null one, replaces the holder's own settings. -/
def xrayStreamFromHolders (edit : List Object → List Object) (holders : List Object) : List Object :=
  match (placesNamed holders "extra").getLast? with
  | none => (xrayStreamEditLive holders "downloadSettings" false edit).holders
  | some place =>
    match valueIn holders place with
    | some (.obj extra) =>
      insertIn holders place (.obj ((xrayStreamEditLive [extra] "downloadSettings" false edit).holders.headD extra))
    | _ => holders

/-- `xhttpSettings` outranks `splithttpSettings`. -/
def xrayStreamEditDownloadLeg (edit : List Object → List Object) (streams : List Object) : List Object :=
  let xhttp := xrayStreamEditLive streams "xhttpSettings" false (xrayStreamFromHolders edit)
  if xhttp.given.isSome then xhttp.holders
  else (xrayStreamEditLive xhttp.holders "splithttpSettings" false (xrayStreamFromHolders edit)).holders

/-- The key is written once, into the last of the objects. -/
def setLast (key : String) (value : Json) (objects : List Object) : List Object :=
  objects.modify (objects.length - 1) fun o => insertKey o key value

/-- Every spelling loses the key and it is written once, into the last live sockopt. -/
def xrayStreamSetSockopt (key value : String) (streams : List Object) : List Object :=
  (xrayStreamEditLive streams "sockopt" true fun sockopts =>
    setLast key (.str value) (sockopts.map fun sockopt => xrayStreamRemoveNamed sockopt key)).holders

/-- An edit of the streams of an outbound. -/
def editOutbound (outbound : Object) (create : Bool) (edit : List Object → List Object) : Object :=
  (xrayStreamEditLive [outbound] "streamSettings" create edit).holders.headD outbound

/-- Routes every leg through the outbound of this tag. -/
def setXrayDialerProxy (outbound : Object) (tag : String) : Object :=
  editOutbound outbound true fun streams =>
    xrayStreamEditDownloadLeg (xrayStreamSetSockopt "dialerProxy" tag) (xrayStreamSetSockopt "dialerProxy" tag streams)

/-- A leg that names an interface of its own keeps it. -/
def bindLeg (iface : String) (leg : List Object) : List Object :=
  let own := xrayStreamEditLive leg "sockopt" false id
  let pinned := own.given.any fun sockopts => !(lastText sockopts "interface").isEmpty
  if pinned then own.holders else xrayStreamSetSockopt "interface" iface own.holders

def bindXrayDownloadLeg (outbound : Object) (iface : String) : Object :=
  if iface.isEmpty then outbound
  else editOutbound outbound false (xrayStreamEditDownloadLeg (bindLeg iface))

/-- Xray reads `tlsSettings` only while security is tls. -/
def useSystemCA (streams : List Object) : List Object :=
  if xrayLower (lastText streams "security") != "tls" then streams
  else
    (xrayStreamEditLive streams "tlsSettings" true fun tls =>
      if (xrayStreamLast tls "useSystemCA" false).isSome then tls else setLast "useSystemCA" (.bool true) tls).holders

def useXraySystemCA (outbound : Object) : Object :=
  editOutbound outbound false fun streams => xrayStreamEditDownloadLeg useSystemCA (useSystemCA streams)

end Waterdisco.XrayStream
