import Mathlib.Algebra.Ring.Int.Defs
import Mathlib.Data.List.Basic

/-!
# The boot-resume guard

`headless-state.json` counts the boots in a row that ended soon after a profile was resumed.
`History` has the armed runs themselves, and how each ended.

    in a boot, memory and file count the runs that ended badly   (Tracks.call)
    the next boot settles a run that was left armed              (Counts.settled)
-/

namespace Waterdisco.ResumeGuard

open List

def kStrikesToSuppress : Int := 3
def maxUnstableBoots : Int := 1000000
def exitCoreGaveUp : Int := 70
def exitStuck : Int := 71

structure Exit where
  code : Int
  reason : String
  at_ : Int

/-- The members of a file of the known version, with the default of each that is missing. -/
structure Record where
  profile : Int := -1
  strikes : Int := 0
  armed : Bool := false
  armedAt : Int := 0
  bootOpen : Bool := false
  unstableBoots : Int := 0
  lastExit : Option Exit := none

/-- `file` is `none` where there is none, or none that can be read. -/
structure Guard extends Record where
  file : Option Record := none
  suppressed : Bool := false
  previousExit : Option Exit := none

def Guard.save (g : Guard) : Guard := { g with file := some g.toRecord }

def qBound (low value high : Int) : Int := max low (min value high)

/-- The constructor. -/
def load (file : Option Record) : Guard :=
  match file with
  | none => {}
  | some r =>
    let profile := if r.profile < 0 then -1 else r.profile
    let armed := decide (0 ≤ profile) && r.armed
    let g : Guard :=
      { file, profile, armed, strikes := qBound 0 r.strikes kStrikesToSuppress, armedAt := if armed then r.armedAt else 0,
        bootOpen := r.bootOpen, unstableBoots := qBound 0 r.unstableBoots maxUnstableBoots, previousExit := r.lastExit }
    -- consumed: a crash of this run must not report it again
    if r.lastExit.isSome then g.save else g

def Guard.unarm (g : Guard) : Guard := { g with armed := false, armedAt := 0 }

def Guard.strike (g : Guard) : Guard :=
  if g.armed then { g.unarm with strikes := min (g.strikes + 1) kStrikesToSuppress }.save else g

def Guard.settlePrevious (g : Guard) : Guard :=
  let unstableBoots := if g.bootOpen then min (g.unstableBoots + 1) maxUnstableBoots else g.unstableBoots
  let g := { g with unstableBoots, bootOpen := true }
  if g.armed then g.strike else g.save

def Guard.decide (g : Guard) (candidateId : Int) : Guard × Int :=
  let g := { g with suppressed := false }
  if candidateId < 0 then (g, -1)
  else if candidateId ≠ g.profile then
    let reset := { g.unarm with profile := candidateId, strikes := 0 }
    (if 0 ≤ g.profile then reset.save else reset, candidateId)
  else if kStrikesToSuppress ≤ g.strikes then ({ g with suppressed := true }, -1)
  else (g, candidateId)

inductive Call where
  | arm (profileId now : Int)
  | disarm
  | strike
  | survived (profileId : Int)
  | noteExit (code : Int) (reason : String) (now : Int)

def keepsArm (code : Int) : Bool := code = exitCoreGaveUp || code = exitStuck

def Guard.call (g : Guard) : Call → Guard
  | .arm profileId now =>
    if profileId < 0 then g
    else
      let g := if profileId ≠ g.profile then { g with profile := profileId, strikes := 0 } else g
      { g with armed := true, armedAt := now }.save
  | .disarm => if g.armed then g.unarm.save else g
  | .strike => g.strike
  | .survived profileId =>
    if profileId < 0 ∨ profileId ≠ g.profile then g
    else if g.strikes = 0 ∧ g.armed = false ∧ g.suppressed = false then g
    else { g.unarm with strikes := 0, suppressed := false }.save
  | .noteExit code reason now =>
    let g := { g with lastExit := some ⟨code, reason, now⟩ }
    (if keepsArm code then g else g.unarm).save

/-- A boot up to the call in or behind which it crashes.  A call writes at most once, at its end. -/
inductive Boot where
  | loaded
  | settled
  | decided (candidateId : Int) (calls : List Call)

open Guard

def Boot.run (file : Option Record) : Boot → Guard
  | .loaded => load file
  | .settled => (load file).settlePrevious
  | .decided candidateId calls => calls.foldl call ((load file).settlePrevious.decide candidateId).1

/-- `left` is a run that was still armed when its process crashed or exited. -/
inductive End where
  | left
  | struck
  | disarmed
  deriving DecidableEq

/-- The armed runs of `profile` since its record was last reset; one under way has no end. -/
structure History where
  profile : Int := -1
  runs : List (Option End) := []

namespace History

def close (h : History) (e : End) : History := { h with runs := h.runs.map fun r => some (r.getD e) }

def record (h : History) (profile : Int) : History :=
  if profile < 0 ∨ profile = h.profile then h else ⟨profile, []⟩

def arm (h : History) : History := if none ∈ h.runs then h else { h with runs := none :: h.runs }

def call (h : History) : Call → History
  | .arm profileId _ => if profileId < 0 then h else (h.record profileId).arm
  | .disarm => h.close .disarmed
  | .strike => h.close .struck
  | .survived profileId => if profileId = h.profile then { h with runs := [] } else h
  | .noteExit code _ _ => if keepsArm code then h else h.close .disarmed

def strikes (h : History) : Nat := h.runs.countP fun r => r = some .left || r = some .struck

variable (h : History)

theorem none_notMem_close (e : End) : none ∉ (h.close e).runs := by simp [close]

theorem close_of_closed {h : History} (hclosed : none ∉ h.runs) (e : End) : h.close e = h := by
  have hsame : ∀ r ∈ h.runs, some (r.getD e) = id r := by
    rintro (_ | r) hr
    · exact absurd hr hclosed
    · rfl
  rw [close, map_congr_left hsame, map_id]

theorem strikes_close (e : End) : (h.close e).strikes = h.strikes + if e = .disarmed then 0 else h.runs.count none := by
  obtain ⟨p, runs⟩ := h
  simp only [strikes, close]
  induction runs with
  | nil => simp
  | cons r runs ih =>
    simp only [map_cons, countP_cons, count_cons, ih]
    cases r <;> cases e <;> simp <;> omega

end History

open History

/-- The strikes and the arm of a record are those of the history. -/
structure Counts (r : Record) (h : History) : Prop where
  owner : h.runs ≠ [] → r.profile = h.profile ∧ 0 ≤ r.profile
  strikes : r.strikes = min kStrikesToSuppress h.strikes
  armed : h.runs.count none = if r.armed then 1 else 0

variable {g : Guard} {r r' : Record} {h : History}

/-- The file too, which is read after a crash. -/
def Tracks (g : Guard) (h : History) : Prop := Counts g.toRecord h ∧ Counts (load g.file).toRecord h

theorem Counts.congr (hc : Counts r h) (hp : r'.profile = r.profile) (hs : r'.strikes = r.strikes)
    (ha : r'.armed = r.armed) :
    Counts r' h :=
  ⟨hp ▸ hc.owner, hs ▸ hc.strikes, ha ▸ hc.armed⟩

theorem Counts.fresh (hruns : h.runs = []) (hs : r.strikes = 0) (ha : r.armed = false) : Counts r h :=
  ⟨fun hne => absurd hruns hne, by rw [hs, History.strikes, hruns]; rfl, by simp [ha, hruns]⟩

theorem Counts.of_empty (hc : Counts r h) (hruns : h.runs = []) : r.strikes = 0 ∧ r.armed = false := by
  have hs := hc.strikes
  have ha := hc.armed
  rw [hruns, count_nil] at ha
  refine ⟨by rw [hs, History.strikes, hruns]; rfl, ?_⟩
  cases harmed : r.armed with
  | false => rfl
  | true => simp [harmed] at ha

theorem Counts.notMem (hc : Counts r h) (ha : r.armed = false) : none ∉ h.runs :=
  count_eq_zero.mp (by rw [hc.armed, ha]; rfl)

theorem load_some (r : Record) :
    (load (some r)).profile = (if r.profile < 0 then -1 else r.profile) ∧
      (load (some r)).strikes = qBound 0 r.strikes kStrikesToSuppress ∧
      (load (some r)).armed = (decide (0 ≤ r.profile) && r.armed) := by
  have hnonneg : (0 ≤ if r.profile < 0 then -1 else r.profile) ↔ 0 ≤ r.profile := by split <;> omega
  by_cases hexit : r.lastExit.isSome <;> simp [load, hexit, save, hnonneg]

/-- What is saved is within the bounds of what is read. -/
theorem Counts.saved (hc : Counts g.toRecord h) : Tracks g.save h := by
  refine ⟨hc, ?_⟩
  obtain ⟨hp, hs, ha⟩ := load_some g.toRecord
  have hclamp : qBound 0 g.strikes kStrikesToSuppress = g.strikes := by
    rw [hc.strikes, qBound, kStrikesToSuppress]; omega
  by_cases hruns : h.runs = []
  · obtain ⟨hzero, harmed⟩ := hc.of_empty hruns
    exact .fresh hruns ((hs.trans hclamp).trans hzero) (by simp [save, ha, harmed])
  · have hid := (hc.owner hruns).2
    exact hc.congr (by simp [save, hp, Int.not_lt.mpr hid]) (hs.trans hclamp) (by simp [save, ha, hid])

theorem Counts.loaded {file : Option Record} (hc : Counts (load file).toRecord h) :
    Counts (load (load file).file).toRecord h := by
  rcases file with _ | r
  · exact hc
  by_cases hexit : r.lastExit.isSome
  · simp only [load, if_pos hexit] at hc ⊢
    exact (Counts.saved (g := _) hc).2
  · simpa [load, hexit] using hc

variable (hc : Counts g.toRecord h)

include hc

/-- A run that ends counts once, unless it was disarmed. -/
theorem Counts.close {e : End} {strikes : Int}
    (hs : strikes = if g.armed ∧ e ≠ .disarmed then min (g.strikes + 1) kStrikesToSuppress else g.strikes) :
    Counts { g.unarm with strikes }.toRecord (h.close e) := by
  have hstrikes := hc.strikes
  refine ⟨fun hne => hc.owner fun hruns => hne (by simp [History.close, hruns]), ?_,
    count_eq_zero.mpr (h.none_notMem_close e)⟩
  rw [strikes_close, hc.armed]
  by_cases ha : g.armed = true <;> by_cases he : e = .disarmed <;> simp [ha, he] at hs ⊢ <;> omega

theorem Counts.strike (ha : g.armed = true) {e : End} (he : e ≠ .disarmed) :
    Tracks g.strike (h.close e) := by
  rw [Guard.strike, if_pos ha]
  exact (hc.close (by rw [if_pos ⟨ha, he⟩])).saved

/-- A boot first settles what the one before left, with a write in any case. -/
theorem Counts.settled : Tracks g.settlePrevious (h.close .left) := by
  unfold settlePrevious
  dsimp only
  split <;> rename_i ha
  · refine Counts.strike ?_ ?_ ?_
    · exact hc.congr rfl rfl rfl
    · exact ha
    · simp
  · rw [close_of_closed (hc.notMem (by simpa using ha))]
    exact Counts.saved (hc.congr rfl rfl rfl)

omit hc

/-- The record stays where it is that of the profile, or has nothing yet. -/
theorem Counts.record (hc : Counts r h) {id : Int} (hsame : h.runs ≠ [] → id = h.profile) : Counts r (h.record id) := by
  unfold History.record
  split
  · exact hc
  rename_i hid
  obtain ⟨hs, ha⟩ := hc.of_empty (not_not.mp fun hne => hid (.inr (hsame hne)))
  exact .fresh rfl hs ha

theorem Counts.record_other (hc : Counts r h) {id : Int} (hid : ¬ id < 0) (hne : id ≠ r.profile) :
    (h.record id).runs = [] := by
  unfold History.record
  split
  · rename_i hsame
    exact not_not.mp fun hruns => hne ((hsame.resolve_left hid).trans (hc.owner hruns).1.symm)
  · rfl

theorem Tracks.decide (ht : Tracks g h) (candidateId : Int) :
    Tracks (g.decide candidateId).1 (h.record candidateId) := by
  obtain ⟨hc, hfile⟩ := ht
  unfold Guard.decide
  by_cases hneg : candidateId < 0
  · have hrecord : h.record candidateId = h := if_pos (.inl hneg)
    rw [if_pos hneg, hrecord]
    exact ⟨hc, hfile⟩
  rw [if_neg hneg]
  by_cases hne : candidateId ≠ g.profile
  · have hruns := hc.record_other hneg hne
    rw [if_pos hne]
    split <;> rename_i hhad
    · exact (Counts.fresh hruns rfl rfl).saved
    · -- nothing is written: the file has no record either
      exact ⟨.fresh hruns rfl rfl, hfile.record fun hruns => absurd (hc.owner hruns).2 hhad⟩
  · have hsame : h.runs ≠ [] → candidateId = h.profile := fun hruns => (not_not.mp hne).trans (hc.owner hruns).1
    rw [if_neg hne]
    split <;> exact ⟨hc.record hsame, hfile.record hsame⟩

theorem Counts.arm (hc : Counts r h) (hp : r.profile = h.profile) (hid : 0 ≤ r.profile) (now : Int) :
    Counts { r with armed := true, armedAt := now } h.arm := by
  unfold History.arm
  cases ha : r.armed with
  | false =>
    have hopen := hc.notMem ha
    rw [if_neg hopen]
    exact ⟨fun _ => ⟨hp, hid⟩, by simpa [History.strikes] using hc.strikes, by simp [count_eq_zero.mpr hopen]⟩
  | true =>
    have hopen := count_pos_iff.mp (by rw [hc.armed, ha]; decide : 0 < h.runs.count none)
    rw [if_pos hopen]
    exact hc.congr rfl rfl ha.symm

theorem Tracks.call (ht : Tracks g h) (c : Call) : Tracks (g.call c) (h.call c) := by
  obtain ⟨hc, hfile⟩ := ht
  cases c with
  | arm profileId now =>
    by_cases hneg : profileId < 0
    · simpa only [Guard.call, History.call, if_pos hneg] using ⟨hc, hfile⟩
    simp only [Guard.call, History.call, if_neg hneg]
    have howner : (h.record profileId).profile = profileId := by
      unfold History.record
      split
      · rename_i hsame
        exact (hsame.resolve_left hneg).symm
      · rfl
    have hid := Int.not_lt.mp hneg
    apply Counts.saved
    by_cases hne : profileId ≠ g.profile
    · have hfresh := @Counts.fresh { g.unarm.toRecord with profile := profileId, strikes := 0 } _ (hc.record_other hneg hne) rfl rfl
      simp only [if_pos hne]
      exact hfresh.arm howner.symm hid now
    obtain rfl := not_not.mp hne
    simp only [hne, if_false]
    exact (hc.record fun hruns => (hc.owner hruns).1).arm howner.symm hid now
  | disarm =>
    simp only [Guard.call, History.call]
    split <;> rename_i ha
    · exact (hc.close (by simp)).saved
    · rw [History.close_of_closed (hc.notMem (by simpa using ha))]
      exact ⟨hc, hfile⟩
  | strike =>
    by_cases ha : g.armed = true
    · exact hc.strike ha (by simp)
    · rw [History.call, Guard.call, Guard.strike, if_neg ha, History.close_of_closed (hc.notMem (by simpa using ha))]
      exact ⟨hc, hfile⟩
  | survived profileId =>
    simp only [Guard.call, History.call]
    have hcleared : profileId = h.profile ∨ h.runs = [] →
        (if profileId = h.profile then { h with runs := [] } else h).runs = [] := by
      split <;> simp_all
    split <;> rename_i hid
    · have hsame : (if profileId = h.profile then { h with runs := [] } else h) = h := by
        split
        · rw [← not_not.mp fun hruns => absurd (hc.owner hruns) (by omega)]
        · rfl
      rw [hsame]
      exact ⟨hc, hfile⟩
    · have hruns := hcleared (or_iff_not_imp_right.mpr fun hruns => by have := hc.owner hruns; omega)
      split <;> rename_i hnone
      · refine ⟨.fresh hruns hnone.1 hnone.2.1, .fresh hruns (by rw [hfile.strikes, ← hc.strikes, hnone.1]) ?_⟩
        have := hfile.armed.symm.trans hc.armed
        simpa [hnone.2.1] using this
      · exact (Counts.fresh hruns rfl rfl).saved
  | noteExit code reason now =>
    simp only [Guard.call, History.call]
    split
    · exact Counts.saved (hc.congr rfl rfl rfl)
    · exact Counts.saved ((hc.close (e := .disarmed) (show g.strikes = _ by simp)).congr rfl rfl rfl)

def Guard.markStable (g : Guard) : Guard :=
  if g.bootOpen = false ∧ g.unstableBoots = 0 then g else { g with bootOpen := false, unstableBoots := 0 }.save

def Guard.liftSuppression (g : Guard) (startedProfileId : Int) : Guard :=
  if 0 ≤ startedProfileId ∧ startedProfileId ≠ g.profile then { g with suppressed := false } else g

/-- A process starts (`load`) wherever the one before it ended. -/
inductive Event where
  | load
  | settlePrevious
  | decide (candidateId : Int)
  | call (c : Call)
  | markStable
  | liftSuppression (startedProfileId : Int)

def Guard.step (g : Guard) : Event → Guard
  | .load => load g.file
  | .settlePrevious => g.settlePrevious
  | .decide candidateId => (g.decide candidateId).1
  | .call c => g.call c
  | .markStable => g.markStable
  | .liftSuppression startedProfileId => g.liftSuppression startedProfileId

/-- The boots in a row that had no stable core yet, the one under way with them. -/
def inRow (n : Nat) : Event → Nat
  | .settlePrevious => n + 1
  | .markStable => 0
  | _ => n

def Record.Unstable (n : Nat) (r : Record) : Prop :=
  r.bootOpen = decide (0 < n) ∧ r.unstableBoots = min ((n - 1 : Nat) : Int) maxUnstableBoots

/-- In memory, and for the process after it. -/
def Streak (n : Nat) (g : Guard) : Prop := g.Unstable n ∧ (load g.file).Unstable n

variable {n : Nat}

theorem Streak.saved (h : g.Unstable n) : Streak n g.save := by
  have hbound : qBound 0 g.unstableBoots maxUnstableBoots = g.unstableBoots := by
    rw [h.2, qBound, maxUnstableBoots]
    omega
  refine ⟨h, ?_⟩
  by_cases hexit : g.lastExit.isSome <;> simpa [load, hexit, save, Record.Unstable, hbound] using h

theorem Streak.step (h : Streak n g) (e : Event) : Streak (inRow n e) (g.step e) := by
  cases e with
  | load =>
    have hload : (load g.file).file = g.file ∨ load g.file = (load g.file).save := by
      unfold load
      (repeat' split) <;> simp_all [Guard.save]
    rcases hload with hsame | hsaved
    · exact ⟨h.2, by rw [Guard.step, hsame]; exact h.2⟩
    · rw [Guard.step, hsaved]
      exact .saved h.2
  | settlePrevious =>
    have hnext : (if g.bootOpen then min (g.unstableBoots + 1) maxUnstableBoots else g.unstableBoots) =
        min (n : Int) maxUnstableBoots := by
      simp only [h.1.1, h.1.2, decide_eq_true_eq, maxUnstableBoots]
      split <;> omega
    simp only [Guard.step, Guard.settlePrevious, Guard.strike]
    split <;> exact .saved ⟨(decide_eq_true n.succ_pos).symm, hnext⟩
  | markStable =>
    simp only [Guard.step, inRow, Guard.markStable]
    split
    · rename_i hnone
      obtain rfl : n = 0 := by simpa [h.1.1] using hnone.1
      exact h
    · exact .saved ⟨rfl, rfl⟩
  | decide candidateId =>
    simp only [Guard.step, inRow, Guard.decide]
    (repeat' split) <;> first | exact h | exact .saved h.1
  | call c =>
    cases c <;> simp only [Guard.step, inRow, Guard.call, Guard.strike] <;> (repeat' split) <;>
      first | exact h | exact .saved h.1
  | liftSuppression startedProfileId =>
    simp only [Guard.step, inRow, Guard.liftSuppression]
    split <;> exact h

end Waterdisco.ResumeGuard
