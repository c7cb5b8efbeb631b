import Mathlib.Tactic.ByContra
import Waterdisco.Lib.Runs

/-!
# Applying a pending import

`ApplyPendingImport` swaps the configuration directory for a staged one with two
renames and a backup between them.  It is a machine of file-system operations
here, one `step` each: an operation may fail, and a run that is cut short is a
process killed between two operations.

    every run that finds a valid pending import starts with the active
    configuration at `config`  →  the active configuration is at `config` or at
    the backup until the imported tree is in place            (applyRuns_kept)

The condition is what a run killed between the two renames breaks: the next one
begins by removing the backup (`removed_backup`).
-/

namespace Waterdisco.Archive

/-- The objects of the working directory an import touches; `staging` are the
directories by path. -/
structure Fs (Path Tree : Type) where
  marker : Option Path := none
  staging : Path → Option Tree := fun _ => none
  config : Option Tree := none
  backup : Option Tree := none

/-- Where a run of `ApplyPendingImport` stands; `stagingPath` is what it read from
the marker. -/
inductive Pc (Path : Type) where
  | markerExists
  | readMarker
  | removeMarker
  | removeBackup (stagingPath : Path)
  | configExists (stagingPath : Path)
  | renameConfig (stagingPath : Path)
  | renameStaging (stagingPath : Path) (hadConfig : Bool)
  | restoreConfig
  | clearMarker
  | clearBackup
  | done (ok : Bool)

/-- A run and the files; `placed` notes that an imported tree reached `config`. -/
structure St (Path Tree : Type) where
  pc : Pc Path
  fs : Fs Path Tree
  placed : Bool := false

section
variable {Path Tree : Type} [DecidableEq Path]
  -- `IsContainedStagingDirectory`, and whether a tree holds `throne.db`
  (contained : Path → Bool) (hasDb : Tree → Bool)

/-- The staging directory of a marker that passes the checks. -/
def validStaging (fs : Fs Path Tree) (stagingPath : Path) : Bool :=
  contained stagingPath && ((fs.staging stagingPath).map hasDb).getD false

/-- One file-system operation; `ok` is whether it succeeds if it can.  A rename
needs its source and a free destination. -/
def step (st : St Path Tree) (ok : Bool) : St Path Tree :=
  match st.pc with
  | .markerExists =>
    { st with pc := if st.fs.marker.isNone then .done true else .readMarker }
  | .readMarker =>
    match st.fs.marker with
    | none => { st with pc := .done false }
    | some stagingPath =>
      if ok = false then { st with pc := .done false }
      else if validStaging contained hasDb st.fs stagingPath then { st with pc := .removeBackup stagingPath }
      else { st with pc := .removeMarker }
  | .removeMarker =>
    { st with pc := .done false, fs := { st.fs with marker := if ok then none else st.fs.marker } }
  | .removeBackup p =>
    { st with pc := .configExists p, fs := { st.fs with backup := if ok then none else st.fs.backup } }
  | .configExists p =>
    { st with pc := if st.fs.config.isSome then .renameConfig p else .renameStaging p false }
  | .renameConfig p =>
    if ok = true ∧ st.fs.backup.isNone then
      { st with pc := .renameStaging p true, fs := { st.fs with config := none, backup := st.fs.config } }
    else { st with pc := .done false }
  | .renameStaging p hadConfig =>
    if ok = true ∧ st.fs.config.isNone ∧ (st.fs.staging p).isSome then
      { pc := .clearMarker
        fs := { st.fs with
          config := st.fs.staging p
          staging := fun q => if q = p then none else st.fs.staging q }
        placed := true }
    else { st with pc := if hadConfig then .restoreConfig else .done false }
  | .restoreConfig =>
    if ok = true ∧ st.fs.config.isNone then
      { st with pc := .done false, fs := { st.fs with config := st.fs.backup, backup := none } }
    else { st with pc := .done false }
  | .clearMarker =>
    { st with pc := .clearBackup, fs := { st.fs with marker := if ok then none else st.fs.marker } }
  | .clearBackup =>
    { st with pc := .done true, fs := { st.fs with backup := if ok then none else st.fs.backup } }
  | .done _ => st

/-- One run: its operations answer `answers`; when the answers end before the run
does, the process was killed there. -/
def applyPendingImport (st : St Path Tree) (answers : List Bool) : St Path Tree :=
  answers.foldl (step contained hasDb) { st with pc := .markerExists }

/-- What happens to the working directory between and during the runs. -/
inductive Event (Path Tree : Type) where
  /-- `wd.mkdir("config")` when there is none. -/
  | mkConfig (empty : Tree)
  /-- A `StageImport` up to its extraction, and with its marker. -/
  | stage (path : Path) (tree : Tree) (marked : Bool)
  | apply (answers : List Bool)

def event (st : St Path Tree) : Event Path Tree → St Path Tree
  | .mkConfig empty =>
    { st with fs := { st.fs with config := if st.fs.config.isNone then some empty else st.fs.config } }
  | .stage path tree marked =>
    { st with fs := { st.fs with
        staging := fun q => if q = path then some tree else st.fs.staging q
        marker := if marked then some path else st.fs.marker } }
  | .apply answers => applyPendingImport contained hasDb st answers

/-! ## The active configuration -/

/-- The configuration `active` is complete somewhere, or the imported tree is in place. -/
def Kept (active : Tree) (st : St Path Tree) : Prop :=
  st.placed = true ∨ st.fs.config = some active ∨ st.fs.backup = some active

/-- A run that finds a valid pending import finds the active configuration at `config`. -/
def StartsInPlace (active : Tree) (st : St Path Tree) : Event Path Tree → Prop
  | .apply _ => st.placed = true ∨ st.fs.config = some active ∨
      ∀ p, st.fs.marker = some p → validStaging contained hasDb st.fs p = false
  | _ => True

/-- Where the active configuration is while a run stands at its operations. -/
def At (active : Tree) (st : St Path Tree) : Prop :=
  st.placed = true ∨
  match st.pc with
  | .markerExists | .readMarker => st.fs.config = some active ∨
      (st.fs.backup = some active ∧
        ∀ p, st.fs.marker = some p → validStaging contained hasDb st.fs p = false)
  | .removeBackup _ | .configExists _ | .renameConfig _ => st.fs.config = some active
  | .renameStaging _ hadConfig => hadConfig = true ∧ st.fs.backup = some active
  | .restoreConfig => st.fs.backup = some active
  | .removeMarker | .done _ => st.fs.config = some active ∨ st.fs.backup = some active
  | .clearMarker | .clearBackup => False

variable {contained hasDb} {active : Tree}

variable {st : St Path Tree}

omit [DecidableEq Path] in
theorem At.kept (h : At contained hasDb active st) : Kept active st := by
  rcases h with h | h
  · exact .inl h
  refine .inr ?_
  cases hpc : st.pc <;> simp only [hpc] at h
  case markerExists => exact h.imp_right And.left
  case readMarker => exact h.imp_right And.left
  case removeMarker => exact h
  case removeBackup => exact .inl h
  case configExists => exact .inl h
  case renameConfig => exact .inl h
  case renameStaging => exact .inr h.2
  case restoreConfig => exact .inr h
  case done => exact h

/-- Once the imported tree is in place nothing is promised any more. -/
theorem step_placed (h : st.placed = true) (ok : Bool) :
    (step contained hasDb st ok).placed = true := by
  unfold step
  all_goals (repeat' split) <;> first | exact h | rfl

/-- **One operation.** -/
theorem At.step (h : At contained hasDb active st) (ok : Bool) :
    At contained hasDb active (step contained hasDb st ok) := by
  rcases h with h | h
  · exact .inl (step_placed h ok)
  unfold Archive.step
  cases hpc : st.pc <;> simp only [hpc] at h ⊢
  case markerExists =>
    split
    · exact .inr (h.imp_right And.left)
    · exact .inr h
  case readMarker =>
    cases hm : st.fs.marker with
    | none => exact .inr (h.imp_right And.left)
    | some p =>
      simp only
      split
      · exact .inr (h.imp_right And.left)
      split
      · rename_i hv
        rcases h with h | ⟨-, h⟩
        · exact .inr h
        · rw [h p hm] at hv
          cases hv
      · exact .inr (h.imp_right And.left)
  case removeMarker => exact .inr h
  case removeBackup p => exact .inr h
  case configExists p =>
    rw [h]
    exact .inr h
  case renameConfig p =>
    split
    · exact .inr ⟨rfl, h⟩
    · exact .inr (.inl h)
  case renameStaging p hadConfig =>
    split
    · exact .inl rfl
    · obtain ⟨rfl, h⟩ := h
      exact .inr h
  case restoreConfig =>
    split
    · exact .inr (.inl h)
    · exact .inr (.inr h)
  case done =>
    refine .inr ?_
    rw [hpc]
    exact h

/-- **One run**, killed anywhere: what it finds in place it keeps in place. -/
theorem applyPendingImport_kept (h : Kept active st) (answers : List Bool)
    (hstart : StartsInPlace contained hasDb active st (.apply answers)) :
    Kept active (applyPendingImport contained hasDb st answers) := by
  have hat : At contained hasDb active { st with pc := .markerExists } := by
    rcases hstart with hp | hc | hv
    · exact .inl hp
    · exact .inr (.inl hc)
    rcases h with hp | hc | hb
    · exact .inl hp
    · exact .inr (.inl hc)
    · exact .inr (.inr ⟨hb, hv⟩)
  exact (foldl_keeps (step contained hasDb) (At contained hasDb active) (fun _ ok ha => ha.step ok)
    answers _ hat).kept

theorem removed_backup {p : Path} (hplaced : st.placed = false)
    (hconfig : st.fs.config ≠ some active) (hm : st.fs.marker = some p)
    (hv : validStaging contained hasDb st.fs p = true) :
    ¬ Kept active (applyPendingImport contained hasDb st [true, true, true]) := by
  have hend : applyPendingImport contained hasDb st [true, true, true] =
      { st with pc := .configExists p, fs := { st.fs with backup := none } } := by
    simp [applyPendingImport, step, hm, hv]
  rw [hend]
  rintro (h | h | h)
  · rw [hplaced] at h
    cases h
  · exact hconfig h
  · cases h

/-- The condition on one run is exact: it is what keeps the configuration however
the run goes. -/
theorem applyPendingImport_kept_iff (h : Kept active st) (answers : List Bool) :
    (∀ cut, Kept active (applyPendingImport contained hasDb st cut)) ↔
      StartsInPlace contained hasDb active st (.apply answers) := by
  constructor
  · intro hall
    by_contra hn
    simp only [StartsInPlace, not_or, not_forall] at hn
    obtain ⟨hp, hc, p, hm, hv⟩ := hn
    exact removed_backup (by simpa using hp) hc hm (by simpa using hv) (hall _)
  · intro hstart cut
    exact applyPendingImport_kept h cut hstart

/-- **Sequences of runs.**  While every run that finds a valid pending import
starts with the active configuration at `config`, that configuration is at
`config` or at the backup at every moment until the imported tree is in place. -/
theorem applyRuns_kept (contained : Path → Bool) (hasDb : Tree → Bool) (active : Tree) (st : St Path Tree)
    (events : List (Event Path Tree)) (hactive : st.fs.config = some active)
    (hmeet : AllMeet (event contained hasDb) (StartsInPlace contained hasDb active) st events) :
    Kept active (events.foldl (event contained hasDb) st) := by
  refine hmeet.keeps ?_ (.inr (.inl hactive))
  intro st e hstart h
  cases e with
  | mkConfig empty =>
    rcases h with h | h | h
    · exact .inl h
    · exact .inr (.inl (by simp [event, h]))
    · exact .inr (.inr h)
  | stage path tree marked => exact h
  | apply answers => exact applyPendingImport_kept h answers hstart

end

/-! ## Two runs -/

/-- The working directory of a user who imported a state: the old configuration
`1`, the staged tree `2`. -/
def staged : St Nat Nat where
  pc := .done true
  fs := { marker := some 7, staging := fun p => if p = 7 then some 2 else none, config := some 1 }

instance {Path Tree : Type} [DecidableEq Tree] (active : Tree) (st : St Path Tree) : Decidable (Kept active st) :=
  inferInstanceAs (Decidable (_ ∨ _))

/-- A run whose second rename fails puts the configuration back; the next one is cut after five answers. -/
theorem staged_kept :
    Kept 1 ([Event.apply [true, true, true, true, true, false, true], .apply [true, true, true, true, true]].foldl
      (event (fun _ => true) (fun _ => true)) staged) :=
  applyRuns_kept _ _ 1 staged _ rfl ⟨.inr (.inl rfl), .inr (.inl rfl), trivial⟩

theorem staged_kept_cut : Kept 1 (applyPendingImport (fun _ => true) (fun _ => true) staged [true]) :=
  (applyPendingImport_kept_iff (.inr (.inl rfl)) []).mpr (.inr (.inl rfl)) [true]

/-- A run killed between the renames and a second one: the configuration is gone
before the imported tree is in place. -/
theorem staged_lost :
    ¬ Kept 1 ([Event.apply [true, true, true, true, true], .apply [true, true, true]].foldl
      (event (fun _ => true) (fun _ => true)) staged) := by
  decide

end Waterdisco.Archive
