import Mathlib.Data.List.Basic
import Waterdisco.Lib.Runs

/-!
# Start and Stop of the core

`server.Start` brings up an extra process, an Xray sidecar (an instance or a gate), a gate
for every full config, the system DNS and the box, each held by a global of its own;
`server.Stop` takes them down.  Requests are serialised by `lifecycleMu`, so a request is
one step.  What is up is a list of resources; how each step of a start goes is given with
the request.

    up after a start that failed = []         unless the process came up and Xray did not
    a start met while a box runs drops it                          (requests_meet_iff)
-/

namespace Waterdisco.Lifecycle

open List Option Bool

/-- What a start brings up, under a number of its own. -/
inductive Resource where
  | box (n : Nat)
  | process (n : Nat)
  | xrayInstance (n : Nat)
  | xrayGate (n : Nat)
  | xrayFullGate (n : Nat)
deriving DecidableEq

/-- The globals of the package, and what is up. -/
structure Core where
  boxInstance : Option Nat := none
  extraProcess : Option Nat := none
  xrayInstance : Option Nat := none
  xrayGate : Option Nat := none
  xrayFullGates : List Nat := []
  egressForwardingWatch : Bool := false
  autoRedirectMark : Nat := 0
  systemDnsHeld : Bool := false
  up : List Resource := []
  next : Nat := 0

structure LoadConfigReq where
  coreConfig : String := ""
  needExtraProcess : Bool := false
  extraProcessConf : Option String := none
  needXray : Bool := false
  xrayLazyStart : Bool := false
  xrayFullConfigs : List String := []
  tunIpv4Cidr : String := ""

/-- How the steps of a start go, with the text of the error. -/
structure Outcomes where
  splitArgs : Except String Unit := .ok ()
  extraConfig : Except String Unit := .ok ()
  startProcess : Except String Unit := .ok ()
  startGate : Except String Unit := .ok ()
  createInstance : Except String Unit := .ok ()
  prepareXray : Except String Unit := .ok ()
  startInstance : Except String Unit := .ok ()
  startFullGate : Nat → String → Except String Unit := fun _ _ => .ok ()
  prepareDns : Except String Unit := .ok ()
  createBox : Except String Unit := .ok ()
  applyDns : Except String Unit := .ok ()

/-- The system, and the mark that a config asks for. -/
structure World where
  darwin : Bool
  autoRedirectMarkFor : String → Nat

/-! ## Resources -/

/-- The global that a resource is held by. -/
def Core.holds (s : Core) : Resource → Prop
  | .box n => s.boxInstance = some n
  | .process n => s.extraProcess = some n
  | .xrayInstance n => s.xrayInstance = some n
  | .xrayGate n => s.xrayGate = some n
  | .xrayFullGate n => n ∈ s.xrayFullGates

def Core.opened (s : Core) (r : Resource) : Core := { s with up := r :: s.up, next := s.next + 1 }

def Core.closed (s : Core) (rs : List Resource) : Core := { s with up := s.up.filter fun r => decide (r ∉ rs) }

/-! ## The steps of a start -/

/-- The extra process; it is held before it is started. -/
def startExtraProcess (req : LoadConfigReq) (o : Outcomes) (s : Core) : Core × Option String :=
  if req.needExtraProcess then
    match o.splitArgs with
    | .error e => (s, some ("Failed to parse args: " ++ e))
    | .ok _ =>
      match if req.extraProcessConf.isSome then o.extraConfig else .ok () with
      | .error e => (s, some ("Failed to create extra.conf: " ++ e))
      | .ok _ =>
        let s' := { s with extraProcess := some s.next, next := s.next + 1 }
        match o.startProcess with
        | .error e => (s', some e)
        | .ok _ => (s'.opened (.process s.next), none)
  else (s, none)

def setXray (s : Core) (inst gate : Option Nat) : Core := { s with xrayInstance := inst, xrayGate := gate }

/-- The sidecar: a gate when it may stay cold, else an instance. -/
def startXray (req : LoadConfigReq) (o : Outcomes) (s : Core) : Core × Option String :=
  if req.needXray then
    if req.xrayLazyStart then
      match o.startGate with
      | .error e => (s, some e)
      | .ok _ => (setXray (s.opened (.xrayGate s.next)) none (some s.next), none)
    else
      match o.createInstance with
      | .error e => (s, some e)
      | .ok _ =>
        let s' := s.opened (.xrayInstance s.next)
        match o.prepareXray with
        | .error e => (s'.closed [.xrayInstance s.next], some e)
        | .ok _ =>
          match o.startInstance with
          | .error e => (s'.closed [.xrayInstance s.next], some e)
          | .ok _ => (setXray s' (some s.next) none, none)
  else (s, none)

/-- How the gates of the configs go. -/
def gateResults (o : Outcomes) (configs : List String) : List (Except String Unit) := configs.mapIdx o.startFullGate

/-- Opens each gate that goes, whatever becomes of the others. -/
def openGates : List (Except String Unit) → Core → Core × List Nat
  | [], s => (s, [])
  | .error _ :: results, s => openGates results s
  | .ok _ :: results, s =>
    let rest := openGates results (s.opened (.xrayFullGate s.next))
    (rest.1, s.next :: rest.2)

def gateError (results : List (Except String Unit)) : Option String :=
  results.findSome? fun result =>
    match result with
    | .error e => some e
    | .ok _ => none

open Resource

/-- The first config goes alone; the gates already opened are torn down on failure. -/
def startXrayFullGates (results : List (Except String Unit)) (s : Core) : Core × Except String (List Nat) :=
  match results with
  | [] => (s, .ok [])
  | .error e :: _ => (s, .error e)
  | results =>
    let gates := openGates results s
    match gateError results with
    | some e => (gates.1.closed (gates.2.map xrayFullGate), .error e)
    | none => (gates.1, .ok gates.2)

/-- What the globals of the sidecar name. -/
def Core.xray (s : Core) : List Resource :=
  (s.xrayGate.map Resource.xrayGate).toList ++ s.xrayFullGates.map Resource.xrayFullGate ++
    (s.xrayInstance.map Resource.xrayInstance).toList

/-- The globals are cleared before what they name is closed. -/
def closeXray (s : Core) : Core :=
  { s with xrayInstance := none, xrayGate := none, xrayFullGates := [] }.closed s.xray

def stopExtraProcess (s : Core) : Core :=
  { s with extraProcess := none }.closed (s.extraProcess.map process).toList

def releaseDns (s : Core) : Core := { s with systemDnsHeld := false }

def stopSidecars (s : Core) : Core := closeXray (stopExtraProcess (releaseDns s))

/-- What the deferred function makes of a start that failed, whatever the failure. -/
def failed (s : Core) (err : String) : Core × Option String :=
    ({ s with boxInstance := none, autoRedirectMark := 0 }, some err)

/-- The system DNS and the box, once the sidecars are up. -/
def startBox (w : World) (req : LoadConfigReq) (o : Outcomes) (s : Core) : Core × Option String :=
  let systemDns := w.darwin && req.tunIpv4Cidr != ""
  match if systemDns then o.prepareDns else .ok () with
  | .error e => failed (stopSidecars s) ("set up the system DNS: " ++ e)
  | .ok _ =>
    match o.createBox with
    | .error e => failed (stopSidecars s) e
    | .ok _ =>
      let s' := { s.opened (.box s.next) with boxInstance := some s.next }
      -- a service may have been pointed at the core before the error
      let s' := if systemDns then { s' with systemDnsHeld := true } else s'
      match if systemDns then o.applyDns else .ok () with
      | .error e => failed (stopSidecars ((releaseDns s').closed [.box s.next])) ("set the system DNS: " ++ e)
      | .ok _ => (if req.tunIpv4Cidr != "" then { s' with egressForwardingWatch := true } else s', none)

/-- `server.Start` -/
def start (w : World) (req : LoadConfigReq) (o : Outcomes) (s : Core) : Core × Option String :=
  if s.boxInstance.isSome then failed s "instance already started"
  else
    match startExtraProcess req o s with
    | (s, some e) => failed s e
    | (s, none) =>
      match startXray req o { s with autoRedirectMark := w.autoRedirectMarkFor req.coreConfig } with
      | (s, some e) => failed s e
      | (s, none) =>
        if req.xrayFullConfigs.isEmpty then startBox w req o s
        else
          match startXrayFullGates (gateResults o req.xrayFullConfigs) s with
          | (s, .error e) => failed (closeXray s) e
          | (s, .ok gates) => startBox w req o { s with xrayFullGates := gates }

/-- `server.Stop` -/
def stop (s : Core) : Core :=
  match s.boxInstance with
  | none => s
  | some n =>
    let s' := ({ releaseDns { s with egressForwardingWatch := false } with boxInstance := none }).closed [.box n]
    { closeXray (stopExtraProcess s') with autoRedirectMark := 0 }

inductive Request where
  | start (req : LoadConfigReq) (o : Outcomes)
  | stop

def step (w : World) (s : Core) : Request → Core
  | .start req o => (start w req o s).1
  | .stop => stop s

/-! ## What the requests are to do -/

/-- Nothing is left. -/
structure Idle (s : Core) : Prop where
  box : s.boxInstance = none
  up : s.up = []
  dns : s.systemDnsHeld = false
  mark : s.autoRedirectMark = 0

/-- Everything that is up is held by its global, so a stop finds it. -/
def Held (s : Core) : Prop := ∀ r ∈ s.up, s.holds r

/-- The instance and its sidecars are as they were, and a stop takes them down. -/
structure Kept (s s' : Core) : Prop where
  box : s'.boxInstance = s.boxInstance
  process : s'.extraProcess = s.extraProcess
  xrayInstance : s'.xrayInstance = s.xrayInstance
  xrayGate : s'.xrayGate = s.xrayGate
  xrayFullGates : s'.xrayFullGates = s.xrayFullGates
  up : s'.up = s.up
  stoppable : Idle (stop s')

/-- What is asked of a request in the state it is met in. -/
structure Meets (w : World) (s : Core) (r : Request) : Prop where
  refused : ∀ req o, r = .start req o → s.boxInstance ≠ none → Kept s (step w s r)
  fails : ∀ req o, r = .start req o → s.boxInstance = none → (start w req o s).2 ≠ none → Idle (step w s r)
  stops : r = .stop → Idle (step w s r)
  held : Held (step w s r)

/-! ## The condition -/

def Outcomes.processStarts (o : Outcomes) (req : LoadConfigReq) : Bool :=
  req.needExtraProcess && o.splitArgs.toBool &&
    (req.extraProcessConf.isNone || o.extraConfig.toBool) && o.startProcess.toBool

def Outcomes.sidecarFails (o : Outcomes) (req : LoadConfigReq) : Bool :=
  req.needXray &&
    if req.xrayLazyStart then !o.startGate.toBool
    else !(o.createInstance.toBool && o.prepareXray.toBool && o.startInstance.toBool)

/-- Xray fails after the extra process came up. -/
def Outcomes.strands (o : Outcomes) (req : LoadConfigReq) : Prop :=
  o.processStarts req = true ∧ (o.sidecarFails req = true ∨ gateError (gateResults o req.xrayFullConfigs) ≠ none)

/-- A start comes while no box runs, and its Xray does not fail after its extra process came up. -/
def Allowed (s : Core) : Request → Prop
  | .start req o => s.boxInstance = none ∧ ¬o.strands req
  | .stop => True

/-! ## Taking down -/

def Resource.isBox : Resource → Bool
  | .box _ => true
  | _ => false

def Resource.isProcess : Resource → Bool
  | .process _ => true
  | _ => false

def Resource.isFullGate : Resource → Bool
  | .xrayFullGate _ => true
  | _ => false

section

variable {s : Core}

variable (h : Held s)

include h

theorem Held.closed (rs : List Resource) : Held (s.closed rs) :=
  fun r hr => h r (mem_filter.mp hr).1

theorem closeXray_up : ∀ r ∈ (closeXray s).up, r ∈ s.up ∧ (r.isBox || r.isProcess) = true := by
  intro r hr
  obtain ⟨hup, hrest⟩ := mem_filter.mp hr
  have hnot : r ∉ s.xray := of_decide_eq_true hrest
  have hheld := h r hup
  refine ⟨hup, ?_⟩
  cases r with
  | box n => rfl
  | process n => rfl
  | xrayInstance n =>
    have hslot : s.xrayInstance = some n := hheld
    exact absurd (by simp [Core.xray, hslot]) hnot
  | xrayGate n =>
    have hslot : s.xrayGate = some n := hheld
    exact absurd (by simp [Core.xray, hslot]) hnot
  | xrayFullGate n =>
    have hslot : n ∈ s.xrayFullGates := hheld
    exact absurd (by simp [Core.xray, hslot]) hnot

theorem stopExtraProcess_up : ∀ r ∈ (stopExtraProcess s).up, r ∈ s.up ∧ r.isProcess = false := by
  intro r hr
  obtain ⟨hup, hrest⟩ := mem_filter.mp hr
  have hnot : r ∉ (s.extraProcess.map process).toList := of_decide_eq_true hrest
  refine ⟨hup, ?_⟩
  cases r with
  | process n =>
    have hslot : s.extraProcess = some n := h _ hup
    exact absurd (by simp [hslot]) hnot
  | _ => rfl

theorem stopExtraProcess_held : Held (stopExtraProcess s) := by
  intro r hr
  obtain ⟨hup, hkind⟩ := stopExtraProcess_up h r hr
  have hheld := h r hup
  cases r with
  | process n => cases hkind
  | _ => exact hheld

theorem stopSidecars_up : ∀ r ∈ (stopSidecars s).up, r ∈ s.up ∧ r.isBox = true := by
  intro r hr
  have hdns : Held (releaseDns s) := h
  obtain ⟨hup, hkind⟩ := closeXray_up (stopExtraProcess_held hdns) r hr
  obtain ⟨hup, hnot⟩ := stopExtraProcess_up hdns r hup
  refine ⟨hup, ?_⟩
  rwa [hnot, Bool.or_false] at hkind

theorem idle_of_stopSidecars (hbox : ∀ r ∈ s.up, r.isBox = false) (err : String) :
    Idle (failed (stopSidecars s) err).1 := by
  refine ⟨rfl, ?_, rfl, rfl⟩
  rw [eq_nil_iff_forall_not_mem]
  intro r hr
  obtain ⟨hup, hkind⟩ := stopSidecars_up h r hr
  rw [hbox r hup] at hkind
  cases hkind

omit h

theorem Idle.held (h : Idle s) : Held s := by
  intro r hr
  rw [h.up] at hr
  cases hr

theorem stop_idle (h : Held s) (hnone : s.boxInstance = none → Idle s) : Idle (stop s) := by
  rw [stop]
  cases hbox : s.boxInstance with
  | none => exact hnone hbox
  | some n =>
    refine ⟨rfl, ?_, rfl, rfl⟩
    rw [eq_nil_iff_forall_not_mem]
    intro r hr
    have hclosed : Held (({ releaseDns { s with egressForwardingWatch := false } with boxInstance := none }).closed [.box n]) := by
      intro r hr
      obtain ⟨hup, hrest⟩ := mem_filter.mp hr
      have hheld := h r hup
      cases r with
      | box m =>
        have hslot : s.boxInstance = some m := hheld
        rw [hbox] at hslot
        simp [some.inj hslot] at hrest
      | _ => exact hheld
    obtain ⟨hup, hkind⟩ := closeXray_up (stopExtraProcess_held hclosed) r hr
    obtain ⟨hup, hnot⟩ := stopExtraProcess_up hclosed r hup
    rw [hnot, Bool.or_false] at hkind
    have hheld := hclosed r hup
    cases r with
    | box m => cases hheld
    | _ => cases hkind

end

/-! ## Bringing up -/

section

variable {s : Core} {req : LoadConfigReq} {o : Outcomes}

/-- What a step of a start leaves to the next ones. -/
structure Brought (s s' : Core) : Prop where
  box : s'.boxInstance = s.boxInstance
  dns : s'.systemDnsHeld = s.systemDnsHeld
  held : Held s'

theorem startExtraProcess_spec (h : s.up = []) :
    Brought s (startExtraProcess req o s).1 ∧ (∀ r ∈ (startExtraProcess req o s).1.up, r.isProcess = true) ∧
      ((startExtraProcess req o s).2 ≠ none → o.processStarts req = false) ∧
      ((startExtraProcess req o s).1.up = [] ↔ o.processStarts req = false) := by
  have hheld : Held s := by
    intro r hr
    rw [h] at hr
    cases hr
  have hnone : ∀ r ∈ s.up, r.isProcess = true := by
    intro r hr
    rw [h] at hr
    cases hr
  rw [startExtraProcess, Outcomes.processStarts]
  cases req.needExtraProcess with
  | false => exact ⟨⟨rfl, rfl, hheld⟩, hnone, fun _ => rfl, iff_of_true h rfl⟩
  | true =>
    cases o.splitArgs with
    | error e => exact ⟨⟨rfl, rfl, hheld⟩, hnone, fun _ => rfl, iff_of_true h rfl⟩
    | ok =>
      have hconf : (req.extraProcessConf.isNone || o.extraConfig.toBool) =
          (if req.extraProcessConf.isSome then o.extraConfig else .ok ()).toBool := by
        cases req.extraProcessConf <;> rfl
      rw [hconf]
      cases (if req.extraProcessConf.isSome then o.extraConfig else .ok ()) with
      | error e => exact ⟨⟨rfl, rfl, hheld⟩, hnone, fun _ => rfl, iff_of_true h rfl⟩
      | ok =>
        cases o.startProcess with
        | error e =>
          refine ⟨⟨rfl, rfl, fun r hr => ?_⟩, hnone, fun _ => rfl, iff_of_true h rfl⟩
          exact absurd (show r ∈ s.up from hr) (h ▸ not_mem_nil)
        | ok =>
          have hup : ∀ r ∈ (process s.next :: s.up), r = .process s.next := by
            intro r hr
            rw [h] at hr
            exact mem_singleton.mp hr
          refine ⟨⟨rfl, rfl, fun r hr => ?_⟩, fun r hr => ?_, fun hne => absurd rfl hne,
            iff_of_false (cons_ne_nil _ _) true_eq_false.mp⟩
          · rw [hup r hr]
            rfl
          · rw [hup r hr]
            rfl

theorem opened_closed_up {r : Resource} (h : r ∉ s.up) : ((s.opened r).closed [r]).up = s.up := by
  show (r :: s.up).filter (fun r' => decide (r' ∉ [r])) = s.up
  rw [filter_cons_of_neg (by simp), filter_eq_self]
  intro r' hr'
  refine decide_eq_true fun hin => h ?_
  rwa [← mem_singleton.mp hin]

theorem startXray_spec (h : Held s) (hup : ∀ r ∈ s.up, r.isProcess = true) :
    Brought s (startXray req o s).1 ∧ (∀ r ∈ (startXray req o s).1.up, (r.isBox || r.isFullGate) = false) ∧
      ((startXray req o s).2 ≠ none → (startXray req o s).1.up = s.up) ∧
      (∀ r, r.isProcess = true → (r ∈ (startXray req o s).1.up ↔ r ∈ s.up)) ∧
      ((startXray req o s).2 ≠ none ↔ o.sidecarFails req = true) := by
  have hkind : ∀ r ∈ s.up, (r.isBox || r.isFullGate) = false := by
    intro r hr
    have hprocess := hup r hr
    cases r with
    | process n => rfl
    | _ => cases hprocess
  have hfails : ∀ e : String, (some e ≠ none ↔ true = true) := fun e => iff_of_true (some_ne_none e) rfl
  have hgoes : ((none : Option String) ≠ none ↔ false = true) := iff_of_false (fun hne => hne rfl) false_ne_true
  have hset : ∀ inst gate, Held (setXray s inst gate) := by
    intro inst gate r hr
    have hprocess := hup r hr
    have hheld := h r hr
    cases r with
    | process n => exact hheld
    | _ => cases hprocess
  have hfresh : xrayInstance s.next ∉ s.up := fun hin => false_ne_true (hup _ hin)
  have hclosed := opened_closed_up hfresh
  have hback : Held ((s.opened (.xrayInstance s.next)).closed [.xrayInstance s.next]) := by
    intro r hr
    rw [hclosed] at hr
    exact h r hr
  have hadded : ∀ {r r' : Resource}, r ≠ r' → (r ∈ r' :: s.up ↔ r ∈ s.up) :=
    fun hne => ⟨fun hr => (mem_cons.mp hr).resolve_left hne, mem_cons_of_mem _⟩
  rw [startXray, Outcomes.sidecarFails]
  cases req.needXray with
  | false => exact ⟨⟨rfl, rfl, h⟩, hkind, fun _ => rfl, fun _ _ => Iff.rfl, hgoes⟩
  | true =>
    rw [if_pos rfl, Bool.true_and]
    cases req.xrayLazyStart with
    | true =>
      cases o.startGate with
      | error e => exact ⟨⟨rfl, rfl, h⟩, hkind, fun _ => rfl, fun _ _ => Iff.rfl, hfails e⟩
      | ok =>
        refine ⟨⟨rfl, rfl, fun r hr => ?_⟩, fun r hr => ?_, fun hne => absurd rfl hne,
          fun r hr => hadded (by rintro rfl; cases hr), hgoes⟩
        · rcases mem_cons.mp hr with rfl | hr
          · rfl
          · exact hset none (some s.next) r hr
        · rcases mem_cons.mp hr with rfl | hr
          · rfl
          · exact hkind r hr
    | false =>
      rw [if_neg Bool.false_ne_true, if_neg Bool.false_ne_true]
      cases o.createInstance with
      | error e => exact ⟨⟨rfl, rfl, h⟩, hkind, fun _ => rfl, fun _ _ => Iff.rfl, hfails e⟩
      | ok =>
        cases o.prepareXray with
        | error e => exact ⟨⟨rfl, rfl, hback⟩, fun r hr => hkind r (hclosed ▸ hr), fun _ => hclosed,
            fun _ _ => by rw [hclosed], hfails e⟩
        | ok =>
          cases o.startInstance with
          | error e => exact ⟨⟨rfl, rfl, hback⟩, fun r hr => hkind r (hclosed ▸ hr),
              fun _ => hclosed, fun _ _ => by rw [hclosed], hfails e⟩
          | ok =>
            refine ⟨⟨rfl, rfl, fun r hr => ?_⟩, fun r hr => ?_, fun hne => absurd rfl hne,
              fun r hr => hadded (by rintro rfl; cases hr), hgoes⟩
            · rcases mem_cons.mp hr with rfl | hr
              · rfl
              · exact hset (some s.next) none r hr
            · rcases mem_cons.mp hr with rfl | hr
              · rfl
              · exact hkind r hr

theorem openGates_spec (results : List (Except String Unit)) (s : Core) :
    (openGates results s).1 = { s with
        up := ((openGates results s).2.map xrayFullGate).reverse ++ s.up
        next := (openGates results s).1.next } := by
  induction results generalizing s with
  | nil => rfl
  | cons result results ih =>
    cases result with
    | error e => exact ih s
    | ok =>
      rw [openGates]
      conv_lhs => rw [ih]
      simp [Core.opened]

theorem startXrayFullGates_spec {results : List (Except String Unit)} (h : Held s)
    (hup : ∀ r ∈ s.up, (r.isBox || r.isFullGate) = false) :
    match startXrayFullGates results s with
    | (s', .error _) => Brought s s' ∧ s'.up = s.up ∧ gateError results ≠ none
    | (s', .ok gates) => Brought s { s' with xrayFullGates := gates } ∧ (∀ r ∈ s'.up,
        r.isBox = false) ∧ gateError results = none := by
  have hfull : ∀ r ∈ s.up, r.isFullGate = false := fun r hr => (or_eq_false_iff.mp (hup r hr)).2
  have hbox : ∀ r ∈ s.up, r.isBox = false := fun r hr => (or_eq_false_iff.mp (hup r hr)).1
  have hset : ∀ gates, ∀ r ∈ s.up, Core.holds { s with xrayFullGates := gates } r := by
    intro gates r hr
    have hkind := hfull r hr
    have hheld := h r hr
    cases r with
    | xrayFullGate n => cases hkind
    | _ => exact hheld
  cases results with
  | nil => exact ⟨⟨rfl, rfl, hset []⟩, hbox, rfl⟩
  | cons result results =>
    cases result with
    | error e => exact ⟨⟨rfl, rfl, h⟩, rfl, some_ne_none e⟩
    | ok a =>
      have hsame := openGates_spec (.ok a :: results) s
      generalize hgates : openGates (.ok a :: results) s = opened at hsame
      obtain ⟨s', gates⟩ := opened
      dsimp only at hsame
      have hbrought : s'.boxInstance = s.boxInstance ∧ s'.systemDnsHeld = s.systemDnsHeld := by
        rw [hsame]
        exact ⟨rfl, rfl⟩
      have hup' : s'.up = (gates.map xrayFullGate).reverse ++ s.up := by
        rw [hsame]
      have hheld : ∀ r ∈ s.up, Core.holds s' r := by
        rw [hsame]
        exact hset s.xrayFullGates
      rw [startXrayFullGates]
      · rw [hgates]
        cases herror : gateError (.ok a :: results) with
        | some e =>
          have hback : (s'.closed (gates.map xrayFullGate)).up = s.up := by
            show s'.up.filter _ = s.up
            rw [hup', filter_append]
            have hgone : (gates.map xrayFullGate).reverse.filter (fun r =>
              decide (r ∉ gates.map xrayFullGate)) = [] := by
              rw [filter_eq_nil_iff]
              simp
            have hstays : s.up.filter (fun r => decide (r ∉ gates.map xrayFullGate)) = s.up := by
              rw [filter_eq_self]
              intro r hr
              refine decide_eq_true fun hin => ?_
              obtain ⟨n, -, rfl⟩ := mem_map.mp hin
              exact false_ne_true (hfull _ hr).symm
            rw [hgone, hstays, nil_append]
          refine ⟨⟨hbrought.1, hbrought.2, fun r hr => ?_⟩, hback, some_ne_none e⟩
          rw [hback] at hr
          exact hheld r hr
        | none =>
          refine ⟨⟨hbrought.1, hbrought.2, fun r hr => ?_⟩, fun r hr => ?_, rfl⟩
          · rcases mem_append.mp (hup' ▸ hr) with hr | hr
            · obtain ⟨n, hn, rfl⟩ := mem_map.mp (mem_reverse.mp hr)
              exact hn
            have hkind := hfull r hr
            have hslot := hheld r hr
            cases r with
            | xrayFullGate n => cases hkind
            | _ => exact hslot
          · rcases mem_append.mp (hup' ▸ hr) with hr | hr
            · obtain ⟨n, -, rfl⟩ := mem_map.mp (mem_reverse.mp hr)
              rfl
            · exact hbox r hr
      · exact nofun
      · exact nofun

theorem startBox_spec (w : World) (h : Held s) (hup : ∀ r ∈ s.up, r.isBox = false) :
    ((startBox w req o s).2 ≠ none → Idle (startBox w req o s).1) ∧
      ((startBox w req o s).2 = none → (startBox w req o s).1.boxInstance ≠ none ∧ Held (startBox w req o s).1) := by
  have hopened : Held { s.opened (.box s.next) with boxInstance := some s.next } := by
    intro r hr
    rcases mem_cons.mp hr with rfl | hr
    · rfl
    have hkind := hup r hr
    have hheld := h r hr
    cases r with
    | box n => cases hkind
    | _ => exact hheld
  rw [startBox]
  cases (if (w.darwin && req.tunIpv4Cidr != "") = true then o.prepareDns else .ok ()) with
  | error e => exact ⟨fun _ => idle_of_stopSidecars h hup _, nofun⟩
  | ok =>
    cases o.createBox with
    | error e => exact ⟨fun _ => idle_of_stopSidecars h hup _, nofun⟩
    | ok =>
      dsimp only
      generalize hs' : (if (w.darwin && req.tunIpv4Cidr != "") = true then
        { { s.opened (.box s.next) with boxInstance := some s.next } with systemDnsHeld := true }
        else { s.opened (.box s.next) with boxInstance := some s.next }) = s'
      have hbox : s'.boxInstance = some s.next := by
        rw [← hs']
        split <;> rfl
      have hup' : s'.up = box s.next :: s.up := by
        rw [← hs']
        split <;> rfl
      have hheld : Held s' := by
        rw [← hs']
        split
        · exact hopened
        · exact hopened
      cases (if (w.darwin && req.tunIpv4Cidr != "") = true then o.applyDns else .ok ()) with
      | error e =>
        refine ⟨fun _ => idle_of_stopSidecars (s := (releaseDns s').closed [.box s.next]) (Held.closed (s := releaseDns s') hheld _) ?_ _, nofun⟩
        intro r hr
        obtain ⟨hr, hrest⟩ := mem_filter.mp hr
        rcases mem_cons.mp (hup' ▸ hr) with rfl | hr
        · simp at hrest
        · exact hup r hr
      | ok =>
        refine ⟨fun hne => absurd rfl hne, fun _ => ?_⟩
        dsimp only
        split
        · exact ⟨by rw [hbox]; exact some_ne_none _, hheld⟩
        · exact ⟨by rw [hbox]; exact some_ne_none _, hheld⟩

/-- All or nothing is left, but for a process whose Xray failed. -/
def Leaves (req : LoadConfigReq) (o : Outcomes) (out : Core × Option String) : Prop :=
  (o.strands req → out.2 ≠ none ∧ out.1.up ≠ []) ∧
    (¬o.strands req → (out.2 ≠ none → Idle out.1) ∧ (out.2 = none → out.1.boxInstance ≠ none ∧ Held out.1))

/-- A start met while nothing is up. -/
theorem start_spec (w : World) (h : Idle s) : Leaves req o (start w req o s) := by
  obtain ⟨hextra, hprocess, hextraFails, hempty⟩ := @startExtraProcess_spec s req o h.up
  rw [start, h.box, Option.isSome_none, if_neg Bool.false_ne_true]
  generalize startExtraProcess req o s = extra at *
  obtain ⟨s₁, err⟩ := extra
  cases err with
  | some e =>
    have hnot := hextraFails (Option.some_ne_none e)
    refine ⟨fun hbad => ?_, fun _ => ⟨fun _ => ⟨rfl, hempty.mpr hnot, hextra.dns.trans h.dns, rfl⟩, nofun⟩⟩
    rw [Outcomes.strands, hnot] at hbad
    cases hbad.1
  | none =>
    dsimp only
    generalize hs₂ : ({ s₁ with autoRedirectMark := w.autoRedirectMarkFor req.coreConfig } : Core) = s₂
    have hup₂ : s₂.up = s₁.up := by rw [← hs₂]
    have hheld₂ : Held s₂ := by
      rw [← hs₂]
      exact hextra.held
    have hdns₂ : s₂.systemDnsHeld = false := by
      rw [← hs₂]
      exact hextra.dns.trans h.dns
    -- a failure that leaves what was up before it strands the process, or there was none
    have hleft : ∀ (s' : Core) (e : String), (s'.up = [] ↔ s₁.up = []) → s'.systemDnsHeld = false →
        (o.sidecarFails req = true ∨ gateError (gateResults o req.xrayFullConfigs) ≠ none) →
        Leaves req o (failed s' e) := by
      intro s' e hup hdns hfails
      refine ⟨fun hbad => ⟨Option.some_ne_none e, ?_⟩, fun hgood => ⟨fun _ => ⟨rfl, ?_, hdns, rfl⟩, nofun⟩⟩
      · show s'.up ≠ []
        rw [ne_eq, hup, hempty, hbad.1]
        exact Bool.true_eq_false.mp
      · show s'.up = []
        rw [hup, hempty]
        exact Bool.eq_false_iff.mpr fun hstarts => hgood ⟨hstarts, hfails⟩
    obtain ⟨hxray, hkind, hxrayFails, hprocesses, hsidecar⟩ :=
      @startXray_spec s₂ req o hheld₂ fun r hr => hprocess r (hup₂ ▸ hr)
    generalize startXray req o s₂ = xray at *
    obtain ⟨s₃, err⟩ := xray
    cases err with
    | some e =>
      have hup := (hxrayFails (Option.some_ne_none e)).trans hup₂
      exact hleft s₃ e (by rw [← hup]) (hxray.dns.trans hdns₂) (.inl (hsidecar.mp (Option.some_ne_none e)))
    | none =>
      have hgoes : o.sidecarFails req = false := Bool.eq_false_iff.mpr fun hfails => hsidecar.mpr hfails rfl
      have hbox : ∀ r ∈ s₃.up, r.isBox = false := fun r hr => (Bool.or_eq_false_iff.mp (hkind r hr)).1
      have hopen : ∀ s' : Core, Held s' → (∀ r ∈ s'.up, r.isBox = false) →
          gateError (gateResults o req.xrayFullConfigs) = none → Leaves req o (startBox w req o s') := by
        intro s' hheld hup hgates
        refine ⟨fun hbad => ?_, fun _ => startBox_spec w hheld hup⟩
        rw [Outcomes.strands, hgoes, hgates] at hbad
        rcases hbad.2 with hbad | hbad
        · cases hbad
        · exact absurd rfl hbad
      dsimp only
      split
      · rename_i hconfigs
        rw [List.isEmpty_iff] at hconfigs
        exact hopen s₃ hxray.held hbox (by rw [hconfigs]; rfl)
      have hgates := @startXrayFullGates_spec s₃ (gateResults o req.xrayFullConfigs) hxray.held hkind
      generalize startXrayFullGates (gateResults o req.xrayFullConfigs) s₃ = opened at *
      obtain ⟨s₄, result⟩ := opened
      cases result with
      | ok gates => exact hopen _ hgates.1.held hgates.2.1 hgates.2.2
      | error e =>
        obtain ⟨hbrought, hup, herror⟩ := hgates
        refine hleft (closeXray s₄) e ?_ (hbrought.dns.trans (hxray.dns.trans hdns₂)) (.inr herror)
        have hmem : ∀ r, r ∈ (closeXray s₄).up ↔ r ∈ s₁.up := by
          intro r
          rw [← hup₂]
          constructor
          · intro hr
            obtain ⟨hr, hrest⟩ := closeXray_up hbrought.held r hr
            rw [hbox r (hup ▸ hr), Bool.false_or] at hrest
            exact (hprocesses r hrest).mp (hup ▸ hr)
          · intro hr
            have hrest := hprocess r (hup₂ ▸ hr)
            refine List.mem_filter.mpr ⟨hup ▸ (hprocesses r hrest).mpr hr, decide_eq_true fun hin => ?_⟩
            cases r with
            | process n => simp [Core.xray] at hin
            | _ => cases hrest
        rw [List.eq_nil_iff_forall_not_mem, List.eq_nil_iff_forall_not_mem]
        exact forall_congr' fun r => not_congr (hmem r)

end

/-! ## Runs -/

/-- Between requests all that is up is held, and nothing is up without a box. -/
structure Sound (s : Core) : Prop where
  held : Held s
  idle : s.boxInstance = none → Idle s

theorem Idle.sound {s : Core} (h : Idle s) : Sound s := ⟨h.held, fun _ => h⟩

theorem sound_start : Sound {} := Idle.sound ⟨rfl, rfl, rfl, rfl⟩

theorem allowed_meets {w : World} {s : Core} {r : Request} (h : Sound s) (hr : Allowed s r) :
    Meets w s r ∧ Sound (step w s r) := by
  cases r with
  | stop =>
    have hidle := stop_idle h.held h.idle
    exact ⟨⟨fun _ _ heq => (by cases heq), fun _ _ heq => (by cases heq), fun _ => hidle, hidle.held⟩, hidle.sound⟩
  | start req o =>
    obtain ⟨hbox, hstrands⟩ := hr
    obtain ⟨hfails, hstarts⟩ := (start_spec w (h.idle hbox)).2 hstrands
    have hsound : Sound (step w s (.start req o)) := by
      by_cases herr : (start w req o s).2 = none
      · obtain ⟨hup, hheld⟩ := hstarts herr
        exact ⟨hheld, fun hnone => absurd hnone hup⟩
      · exact (hfails herr).sound
    refine ⟨⟨fun _ _ _ hne => absurd hbox hne, ?_, fun heq => (by cases heq), hsound.held⟩, hsound⟩
    intro req' o' heq _ herr
    obtain ⟨rfl, rfl⟩ := Request.start.inj heq
    exact hfails herr

theorem not_meets {w : World} {s : Core} {r : Request} (h : Sound s) (hr : ¬Allowed s r) : ¬Meets w s r := by
  intro hmeets
  cases r with
  | stop => exact hr trivial
  | start req o =>
    by_cases hbox : s.boxInstance = none
    · have hstrands : o.strands req := by
        by_contra hnot
        exact hr ⟨hbox, hnot⟩
      obtain ⟨herr, hup⟩ := (start_spec w (h.idle hbox)).1 hstrands
      exact hup (hmeets.fails req o rfl hbox herr).up
    · have hkept := (hmeets.refused req o rfl hbox).box
      obtain ⟨n, hn⟩ := ne_none_iff_exists'.mp hbox
      rw [step, start, hn, isSome_some, if_pos rfl] at hkept
      cases hkept

/-- **Start and Stop.** In every run each request does what is asked of it exactly when no
start is met while a box runs and none loses its Xray after its extra process came up. -/
theorem requests_meet_iff (w : World) (requests : List Request) :
    AllMeet (step w) (Meets w) {} requests ↔ AllMeet (step w) Allowed {} requests := by
  have hrun : ∀ s, Sound s → (AllMeet (step w) (Meets w) s requests ↔ AllMeet (step w) Allowed s requests) := by
    induction requests with
    | nil => exact fun _ _ => Iff.rfl
    | cons r requests ih =>
      intro s hs
      by_cases hr : Allowed s r
      · obtain ⟨hmeets, hsound⟩ := allowed_meets hs hr
        exact and_congr (iff_of_true hmeets hr) (ih _ hsound)
      · exact iff_of_false (fun hall => not_meets hs hr hall.1) fun hall => hr hall.1
  exact hrun {} sound_start

/-- A second start drops the box that runs, and a sidecar that fails strands the extra process. -/
theorem requests_unmet :
    ¬(∀ (w : World) (requests : List Request), AllMeet (step w) (Meets w) {} requests) ∧
      (let w : World := ⟨false, fun _ => 0⟩
       let plain : LoadConfigReq := {}
       let twice := [Request.start plain {}, .start plain {}].foldl (step w) {}
       twice.up = [.box 0] ∧ (stop twice).up = [.box 0]) ∧
      (let w : World := ⟨false, fun _ => 0⟩
       let req : LoadConfigReq := { needExtraProcess := true, needXray := true, xrayLazyStart := true }
       let stranded := step w {} (.start req { startGate := .error "port in use" })
       stranded.up = [.process 0] ∧ (stop stranded).up = [.process 0]) := by
  refine ⟨fun hall => ?_, by decide, by decide⟩
  obtain ⟨-, hsecond, -⟩ := hall ⟨false, fun _ => 0⟩ [.start {} {}, .start {} {}]
  have hkept := (hsecond.refused {} {} rfl (by decide)).box
  cases hkept

end Waterdisco.Lifecycle
