import Waterdisco.Lists.Repo

/-!
# Refreshing a list beside its edits

A refresh reads the header of a list, fetches its source, reads the header again, stores the
entries and saves the header it read the second time.  An edit reads the header and saves it
with other fields, at any time in between.

    step s event            one step of the refresh or of an edit
    lastFields fields s     what the last edit saved, or what was there at the start
    Harmless (refresh, f)   the place where that edit was saved leaves it alone
-/

namespace Waterdisco.ListRefresh

open Option Bool

/-- `IpList::SourceKind`. -/
inductive SourceKind where
  | manual
  | url
  | ruleSet
deriving DecidableEq

/-- The columns of a header that a user edits. -/
structure Fields where
  name : String
  sourceKind : SourceKind := .manual
  source : String := ""
  autoUpdate : Bool := false
  updateInterval : Int := 1440
deriving DecidableEq

/-- The columns that `SaveHeader` writes. -/
structure Header extends Fields where
  relatedTestId : Int := -1
  role : Lists.Role := .user
  lastUpdate : Int := 0
  lastError : String := ""
deriving DecidableEq

def Fields.from (f : Fields) : SourceKind × String := (f.sourceKind, f.source)

def Header.isRemote (h : Header) : Bool := h.sourceKind != .manual && !h.source.isEmpty

/-- `ipListUpdaterRefreshable`. -/
def refreshable (h : Header) : Bool := h.isRemote && h.role == .user

structure ImportOutcome where
  entries : List Lists.Entry := []
  error : String := ""
deriving DecidableEq

/-- Where `ipListUpdaterRefreshOne` is, with what it holds. -/
inductive Refresh where
  | start
  | fetching (header : Header)
  | fetched (header : Header) (outcome : ImportOutcome)
  | replacing (current : Header) (outcome : ImportOutcome)
  /-- `replaced` says whether the entries were stored. -/
  | saving (current : Header) (error : String) (replaced : Bool)
  /-- `stored` is the header that the stored entries are for, where they were stored. -/
  | done (error : String) (stored : Option Header)
deriving DecidableEq

structure State where
  header : Option Header
  entries : List Lists.Entry := []
  /-- The source that the entries were fetched from, where they were. -/
  fetchedFrom : Option (SourceKind × String) := none
  refresh : Refresh := .start
  /-- The headers that edits have read. -/
  drafts : Nat → Option Header := fun _ => none
  /-- What edits saved, latest first, and where the refresh was then. -/
  saves : List (Refresh × Fields) := []

inductive Event where
  | readHeader
  | fetch (outcome : ImportOutcome)
  | reread
  | replaceEntries (ok : Bool)
  | saveHeader (now : Int)
  | editRead (edit : Nat)
  | editSave (edit : Nat) (fields : Fields)

/-! ## Steps -/

def kGone : String := "The IP list no longer exists"

def kNotRemote : String := "Only lists with a URL or rule-set source can be updated"

def kSourceChanged : String := "The source changed during the update"

def kNotSaved : String := "The entries could not be saved"

namespace State

def readHeader (s : State) : State :=
  match s.header with
  | none => { s with refresh := .done kGone none }
  | some header => if refreshable header then { s with refresh := .fetching header } else { s with refresh := .done kNotRemote none }

/-- The list may have been edited or deleted while it downloaded. -/
def reread (s : State) (header : Header) (outcome : ImportOutcome) : State :=
  match s.header with
  | none => { s with refresh := .done kGone none }
  | some current =>
    if current.from ≠ header.from then { s with refresh := .done kSourceChanged none }
    else { s with refresh := .replacing current outcome }

def replaceEntries (s : State) (current : Header) (outcome : ImportOutcome) (ok : Bool) : State :=
  if outcome.error ≠ "" then { s with refresh := .saving current outcome.error false }
  else if !ok then { s with refresh := .saving current kNotSaved false }
  else { s with entries := outcome.entries, fetchedFrom := some current.from, refresh := .saving current "" true }

/-- The `UPDATE` of `SaveHeader` brings no list back. -/
def save (s : State) (header : Header) : State := { s with header := s.header.map (fun _ => header) }

def saveHeader (s : State) (current : Header) (error : String) (replaced : Bool) (now : Int) : State :=
  if replaced then
    { s.save { current with lastUpdate := now, lastError := "" } with refresh := .done error (some current) }
  else { s.save { current with lastError := error } with refresh := .done error none }

def editSave (s : State) (edit : Nat) (fields : Fields) : State :=
  match s.drafts edit with
  | none => s
  | some draft =>
    { s.save { draft with toFields := fields } with
      drafts := fun e => if e = edit then none else s.drafts e
      saves := (s.refresh, fields) :: s.saves }

/-- A step of the refresh out of its turn does nothing. -/
def step (s : State) : Event → State
  | .readHeader => if s.refresh = .start then s.readHeader else s
  | .fetch outcome =>
    match s.refresh with
    | .fetching header => { s with refresh := .fetched header outcome }
    | _ => s
  | .reread =>
    match s.refresh with
    | .fetched header outcome => s.reread header outcome
    | _ => s
  | .replaceEntries ok =>
    match s.refresh with
    | .replacing current outcome => s.replaceEntries current outcome ok
    | _ => s
  | .saveHeader now =>
    match s.refresh with
    | .saving current error replaced => s.saveHeader current error replaced now
    | _ => s
  | .editRead edit => { s with drafts := fun e => if e = edit then s.header else s.drafts e }
  | .editSave edit fields => s.editSave edit fields

def run (s : State) (events : List Event) : State := events.foldl step s

end State

/-- A list before its refresh. -/
def begin (header : Header) (entries : List Lists.Entry) : State := { header := some header, entries := entries }

/-! ## What is asked of the end of a run -/

/-- What the last edit saved. -/
def lastFields (initial : Fields) (s : State) : Fields :=
  match s.saves with
  | [] => initial
  | (_, fields) :: _ => fields

/-- The last edit's fields are stored, and the entries are from the source stored, if the refresh reports nothing. -/
def Settled (initial : Fields) (s : State) (error : String) : Prop :=
  s.header.map Header.toFields = some (lastFields initial s) ∧
    (error ≠ "" ∨ s.fetchedFrom = s.header.map (fun h => h.from))

instance (initial : Fields) (s : State) (error : String) : Decidable (Settled initial s error) :=
  inferInstanceAs (Decidable (_ ∧ _))

/-- An edit that was saved between the second read and the save has the fields read; one that was saved after the
entries were stored and the header saved names their source. -/
def Harmless : Refresh × Fields → Prop
  | (.replacing current _, fields) => fields = current.toFields
  | (.saving current _ _, fields) => fields = current.toFields
  | (.done _ (some stored), fields) => fields.from = stored.from
  | _ => True

/-- The last edit is harmless. -/
def LastHarmless (s : State) : Prop := ∀ save ∈ s.saves.head?, Harmless save

/-! ## Runs -/

/-- What holds at each place of the refresh. -/
def Holds (initial : Fields) (s : State) : Refresh → Prop
  | .start | .fetching _ | .fetched _ _ => s.header.map Header.toFields = some (lastFields initial s) ∧ LastHarmless s
  | .replacing current _ =>
    s.header.map Header.toFields = some (lastFields initial s) ∧
      (LastHarmless s ↔ lastFields initial s = current.toFields)
  | .saving current error replaced =>
    s.header.map Header.toFields = some (lastFields initial s) ∧
      (LastHarmless s ↔ lastFields initial s = current.toFields) ∧
      (if replaced then error = "" ∧ s.fetchedFrom = some current.from else error ≠ "")
  | .done error stored =>
    s.header.isSome ∧ (Settled initial s error ↔ LastHarmless s) ∧
      (match stored with
      | some current => error = "" ∧ s.fetchedFrom = some current.from
      | none => error ≠ "")

variable {initial : Fields} {s : State}

theorem holds_gave_up (hfields : s.header.map Header.toFields = some (lastFields initial s))
    (hlast : LastHarmless s) {error : String} (herror : error ≠ "") :
    Holds initial { s with refresh := .done error none } (.done error none) := by
  refine ⟨?_, ⟨fun _ => hlast, fun _ => ⟨hfields, .inl herror⟩⟩, herror⟩
  obtain ⟨header, hheader, -⟩ := map_eq_some_iff.mp hfields
  simp [hheader]

open State

theorem Holds.readHeader (h : Holds initial s .start) :
    Holds initial s.readHeader s.readHeader.refresh := by
  rcases s with ⟨_ | header, entries, fetchedFrom, refresh, drafts, saves⟩
  · exact holds_gave_up h.1 h.2 (by decide)
  by_cases hremote : refreshable header = true
  · simp only [readHeader, hremote, if_true]
    exact h
  · simp only [readHeader, hremote, false_eq_true, if_false]
    exact holds_gave_up h.1 h.2 (by decide)

theorem Holds.reread {header : Header} {outcome : ImportOutcome}
    (h : Holds initial s (.fetched header outcome)) :
    Holds initial (s.reread header outcome) (s.reread header outcome).refresh := by
  rcases s with ⟨_ | current, entries, fetchedFrom, refresh, drafts, saves⟩
  · exact holds_gave_up h.1 h.2 (by decide)
  by_cases hsource : current.from = header.from
  · simp only [reread, hsource, ne_eq, not_true_eq_false, if_false]
    exact ⟨h.1, fun _ => (some.inj h.1).symm, fun _ => h.2⟩
  · simp only [reread, hsource, ne_eq, not_false_eq_true, if_true]
    exact holds_gave_up h.1 h.2 (by decide)

theorem Holds.replaceEntries {current : Header} {outcome : ImportOutcome}
    (h : Holds initial s (.replacing current outcome)) (ok : Bool) :
    Holds initial (s.replaceEntries current outcome ok) (s.replaceEntries current outcome ok).refresh := by
  unfold State.replaceEntries
  by_cases hfetch : outcome.error ≠ ""
  · simp only [hfetch, ne_eq, not_false_eq_true, if_true]
    exact ⟨h.1, h.2, hfetch⟩
  cases ok with
  | false =>
    simp only [hfetch, if_false, Bool.not_false, if_true]
    exact ⟨h.1, h.2, (by decide : kNotSaved ≠ "")⟩
  | true =>
    simp only [hfetch, if_false, Bool.not_true, Bool.false_eq_true]
    exact ⟨h.1, h.2, rfl, rfl⟩

theorem Holds.saveHeader {current : Header} {error : String} {replaced : Bool}
    (h : Holds initial s (.saving current error replaced)) (now : Int) :
    Holds initial (s.saveHeader current error replaced now) (s.saveHeader current error replaced now).refresh := by
  obtain ⟨hfields, hlast, hstored⟩ := h
  obtain ⟨header, hheader, -⟩ := map_eq_some_iff.mp hfields
  cases replaced with
  | true =>
    obtain ⟨herror, hfrom⟩ := hstored
    refine ⟨by simp [State.saveHeader, State.save, hheader], ?_, herror, hfrom⟩
    refine Iff.trans ⟨fun hsettled => ?_, fun heq => ?_⟩ hlast.symm
    · have hcurrent := hsettled.1
      simp only [State.saveHeader, State.save, hheader, if_true, map_some, some.injEq] at hcurrent
      exact hcurrent.symm
    refine ⟨?_, .inr ?_⟩
    · simp only [State.saveHeader, State.save, hheader, if_true, map_some, some.injEq]
      exact heq.symm
    · simp only [State.saveHeader, State.save, hheader, if_true, map_some]
      exact hfrom
  | false =>
    refine ⟨by simp [State.saveHeader, State.save, hheader], ?_, hstored⟩
    refine Iff.trans ⟨fun hsettled => ?_, fun heq => ?_⟩ hlast.symm
    · have hcurrent := hsettled.1
      simp only [State.saveHeader, State.save, hheader, false_eq_true, if_false, map_some, some.injEq] at hcurrent
      exact hcurrent.symm
    · refine ⟨?_, .inl hstored⟩
      simp only [State.saveHeader, State.save, hheader, false_eq_true, if_false, map_some, some.injEq]
      exact heq.symm

variable (h : Holds initial s s.refresh)

include h

/-- An edit that is saved is the last one, and is stored. -/
theorem Holds.editSave (edit : Nat) (fields : Fields) :
    Holds initial (s.editSave edit fields) (s.editSave edit fields).refresh := by
  rcases s with ⟨header, entries, fetchedFrom, refresh, drafts, saves⟩
  cases hdraft : drafts edit with
  | none =>
    simp only [editSave, hdraft]
    exact h
  | some draft =>
    simp only [editSave, hdraft]
    cases refresh with
    | start | fetching | fetched =>
      obtain ⟨header, rfl, -⟩ := map_eq_some_iff.mp h.1
      simp [Holds, save, lastFields, LastHarmless, Harmless]
    | replacing =>
      obtain ⟨header, rfl, -⟩ := map_eq_some_iff.mp h.1
      simp [Holds, save, lastFields, LastHarmless, Harmless]
    | saving current error replaced =>
      obtain ⟨header, rfl, -⟩ := map_eq_some_iff.mp h.1
      simpa [Holds, save, lastFields, LastHarmless, Harmless] using h.2.2
    | done error stored =>
      obtain ⟨header, rfl⟩ := isSome_iff_exists.mp h.1
      cases stored with
      | none =>
        have herror : error ≠ "" := h.2.2
        simp [Holds, Settled, save, lastFields, LastHarmless, Harmless, herror]
      | some current =>
        obtain ⟨rfl, rfl⟩ := h.2.2
        simp [Holds, Settled, save, lastFields, LastHarmless, Harmless, eq_comm]

theorem Holds.step (event : Event) :
    Holds initial (s.step event) (s.step event).refresh := by
  cases event with
  | readHeader =>
    by_cases hstart : s.refresh = .start
    · rw [hstart] at h
      simpa only [State.step, hstart, if_true] using h.readHeader
    · simpa only [State.step, hstart, if_false] using h
  | fetch outcome =>
    cases hrefresh : s.refresh with
    | fetching header =>
      rw [hrefresh] at h
      simp only [State.step, hrefresh]
      exact h
    | _ => simpa only [State.step, hrefresh] using h
  | reread =>
    cases hrefresh : s.refresh with
    | fetched header outcome =>
      rw [hrefresh] at h
      simpa only [State.step, hrefresh] using h.reread
    | _ => simpa only [State.step, hrefresh] using h
  | replaceEntries ok =>
    cases hrefresh : s.refresh with
    | replacing current outcome =>
      rw [hrefresh] at h
      simpa only [State.step, hrefresh] using h.replaceEntries ok
    | _ => simpa only [State.step, hrefresh] using h
  | saveHeader now =>
    cases hrefresh : s.refresh with
    | saving current error replaced =>
      rw [hrefresh] at h
      simpa only [State.step, hrefresh] using h.saveHeader now
    | _ => simpa only [State.step, hrefresh] using h
  | editRead edit => exact h
  | editSave edit fields => exact h.editSave edit fields

theorem Holds.run (events : List Event) :
    Holds initial (s.run events) (s.run events).refresh := by
  induction events generalizing s with
  | nil => exact h
  | cons event rest ih => exact ih (h.step event)

omit h

theorem holds_begin (header : Header) (entries : List Lists.Entry) :
    Holds header.toFields (begin header entries) (begin header entries).refresh :=
  ⟨rfl, by simp [LastHarmless, begin]⟩

/-- **The list is settled** when a refresh is done exactly where the last edit was harmless. -/
theorem settled_iff_harmless (header : Header) (entries : List Lists.Entry) (events : List Event) (error : String)
    (stored : Option Header) (hdone : ((begin header entries).run events).refresh = .done error stored) :
    Settled header.toFields ((begin header entries).run events) error ↔
      LastHarmless ((begin header entries).run events) := by
  have h := (holds_begin header entries).run events
  rw [hdone] at h
  exact h.2.1

/-- The source is edited while it downloads, and the refresh gives up. -/
theorem settled_iff_harmless_gave_up :
    Settled { name := "a", sourceKind := .url, source := "http://a" }
        ((begin { name := "a", sourceKind := .url, source := "http://a" } []).run
          [.readHeader, .editRead 0, .fetch {},
           .editSave 0 { name := "a", sourceKind := .url, source := "http://b" }, .reread])
        kSourceChanged ↔
      LastHarmless ((begin { name := "a", sourceKind := .url, source := "http://a" } []).run
          [.readHeader, .editRead 0, .fetch {},
           .editSave 0 { name := "a", sourceKind := .url, source := "http://b" }, .reread]) :=
  settled_iff_harmless _ _ _ kSourceChanged none (by decide)

/-- The source is edited while the entries are stored, and the refresh brings the old one back. -/
theorem not_settled_window :
    ∃ stored, ((begin { name := "a", sourceKind := .url, source := "http://a" } []).run
          [.editRead 0, .readHeader, .fetch { entries := [{ cidr := "1.1.1.1" }] }, .reread, .replaceEntries true,
            .editSave 0 { name := "a", sourceKind := .url, source := "http://b" },
            .saveHeader 1]).refresh = .done "" stored ∧
      ¬Settled { name := "a", sourceKind := .url, source := "http://a" }
        ((begin { name := "a", sourceKind := .url, source := "http://a" } []).run
          [.editRead 0, .readHeader, .fetch { entries := [{ cidr := "1.1.1.1" }] }, .reread, .replaceEntries true,
            .editSave 0 { name := "a", sourceKind := .url, source := "http://b" }, .saveHeader 1]) "" :=
  ⟨_, rfl, by decide⟩

end Waterdisco.ListRefresh
