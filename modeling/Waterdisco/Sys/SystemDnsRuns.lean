import Waterdisco.Lib.Runs
import Waterdisco.Sys.SystemDns

/-!
# The system DNS over any number of cores

At every moment of every run (`Recorded`):

    a service that has not its original servers is recorded with them
    the record names no other servers
    while the alias that a core added is there, the record says so

and a `RestoreStale`, or a `Release` of a core that has prepared, whose calls all succeed
leaves every service with its original servers (`systemDns_contract`).

A fresh process takes a record with its own pid for its own: it neither replays it nor
keeps it (`reused_pid_loses`).
-/

namespace Waterdisco.SysDns

open List Option Nat Relation
open Function (update update_of_ne update_self)
open Prog (Safe)

/-! ## The invariants -/

/-- What a kill at any moment leaves for the next core. -/
structure Recorded (original : String → List String) (w : World) : Prop where
  servers : ∀ s, w.servers s = original s ∨ ∃ r, w.file = some r ∧ r.services.lookup s = some (original s)
  kept : ∀ r, w.file = some r → ∀ s l, r.services.lookup s = some l → l = original s
  hasAlias : w.ours = true → w.stuck = true ∨ ∃ r, w.file = some r ∧ r.hasAlias = true
  present : w.ours = true → w.hasAlias = true

/-- Between two of its calls a core that has prepared has written what it owns; another owns nothing, and the record is not
under its pid. -/
structure Steady (w : World) (c : Core) : Prop where
  positive : c.pid ≠ 0
  pid : c.owned.pid = 0 ∨ c.owned.pid = c.pid
  prepared : c.owned.pid = c.pid → w.file = some c.owned
  fresh : c.owned.pid = 0 → c.owned = {} ∧ ∀ r, w.file = some r → r.pid ≠ c.pid
  current : c.current ≠ "" → c.current ∈ c.owned.services
  followed : c.monitor = true → c.owned.pid = c.pid

variable {original : String → List String} {w w' : World} {c : Core}

namespace Recorded

variable (h : Recorded original w)

include h

theorem failed : Recorded original w.failed := ⟨h.servers, h.kept, h.hasAlias, h.present⟩

theorem set_back {service : String} {servers : List String} (hservers : servers = original service) :
    Recorded original (w.set service servers) := by
  refine ⟨fun s => ?_, h.kept, h.hasAlias, h.present⟩
  by_cases hs : s = service
  · subst hs
    left
    show update w.servers s servers s = original s
    rw [update_self, hservers]
  · show update w.servers service servers s = original s ∨ _
    rw [update_of_ne hs]
    exact h.servers s

theorem set_away {service : String} {r : Record} (hfile : w.file = some r)
    (hlookup : r.services.lookup service = some (original service)) (servers : List String) :
    Recorded original (w.set service servers) := by
  refine ⟨fun s => ?_, h.kept, h.hasAlias, h.present⟩
  by_cases hs : s = service
  · subst hs
    exact .inr ⟨r, hfile, hlookup⟩
  show update w.servers service servers s = original s ∨ _
  rw [update_of_ne hs]
  exact h.servers s

theorem original_of_none (hfile : w.file = none) (s : String) : w.servers s = original s := by
  rcases h.servers s with heq | ⟨r, hr, -⟩
  · exact heq
  · rw [hfile] at hr
    cases hr

theorem stuck_of_none (hfile : w.file = none) (hours : w.ours = true) : w.stuck = true := by
  rcases h.hasAlias hours with hstuck | ⟨r, hr, -⟩
  · exact hstuck
  · rw [hfile] at hr
    cases hr

/-- A record is written that still has what is not put back. -/
theorem write {r : Record} (hservers : ∀ s, w.servers s = original s ∨ r.services.lookup s = some (original s))
    (hkept : ∀ s l, r.services.lookup s = some l → l = original s)
    (halias : w.ours = true → w.stuck = true ∨ r.hasAlias = true) : Recorded original { w with file := some r } := by
  refine ⟨fun s => ?_, ?_, ?_, h.present⟩
  · exact (hservers s).imp_right fun hs => ⟨r, rfl, hs⟩
  · intro r' hr'
    cases hr'
    exact hkept
  · exact fun hours => (halias hours).imp_right fun hr => ⟨r, rfl, hr⟩

theorem remove (hservers : ∀ s, w.servers s = original s) (halias : w.ours = true → w.stuck = true) :
    Recorded original { w with file := none } :=
  ⟨fun s => .inl (hservers s), fun r hr => (by cases hr), fun hours => .inl (halias hours), h.present⟩

end Recorded

variable {m left : Services} {l : List String} {service : String} {allowed : World → Nat → Prop}

theorem lookup_of_mem {s : String} (h : s ∈ m) : ∃ l, m.lookup s = some l :=
  isSome_iff_exists.mp (AList.lookup_isSome.mpr h)

theorem mem_of_lookup {s : String} (h : m.lookup s = some l) : s ∈ m :=
  AList.lookup_isSome.mp (isSome_iff_exists.mpr ⟨l, h⟩)

theorem not_mem_of_keys_isEmpty (h : m.keys.isEmpty = true) (s : String) : s ∉ m := by
  rw [AList.mem_keys, isEmpty_iff.mp h]
  exact not_mem_nil

/-! ## The alias -/

/-- What a removal of the alias leaves. -/
structure Unaliased (w w' : World) : Prop where
  file : w'.file = w.file
  servers : w'.servers = w.servers
  failures : w.failures ≤ w'.failures
  gone : w'.ours = true → w'.stuck = true

variable (h : Recorded original w)

include h in
theorem removeAlias_safe :
    Safe Step (Recorded original) (fun _ w' => Recorded original w' ∧ Unaliased w w') removeAlias w := by
  refine Safe.bind (Safe.ask (f := .pure) fun present w₁ hstep => ?_)
  obtain ⟨rfl, rfl⟩ := hstep
  refine ⟨h, ?_⟩
  show Safe _ _ _ (if w₁.hasAlias = true then _ else _) w₁
  split
  · refine Safe.bind (Safe.ask (f := .pure) fun ok w₂ hstep => ?_)
    rcases hstep with ⟨-, rfl⟩ | ⟨-, rfl⟩
    · have hstuck : Recorded original { w₁.failed with stuck := true } :=
        ⟨h.servers, h.kept, fun _ => .inl rfl, h.present⟩
      exact ⟨hstuck, hstuck, rfl, rfl, le_succ _, fun _ => rfl⟩
    have hremoved : Recorded original { w₁ with hasAlias := false, ours := false } :=
      ⟨h.servers, h.kept, fun hours => (by cases hours), fun hours => (by cases hours)⟩
    exact ⟨hremoved, hremoved, rfl, rfl, .refl, fun hours => by cases hours⟩
  · rename_i habsent
    exact ⟨h, rfl, rfl, .refl, fun hours => absurd (h.present hours) habsent⟩

/-! ## A dead core's record -/

/-- The replay: `l` is still to come. -/
structure Replaying (original : String → List String) (stored : Record) (w : World)
    (l : List String) (services : Services)
    (w' : World) : Prop where
  recorded : Recorded original w'
  file : w'.file = some stored
  aliases : w'.ours = w.ours ∧ w'.stuck = w.stuck
  failures : w.failures ≤ w'.failures
  sub : ∀ s v, services.lookup s = some v → stored.services.lookup s = some v
  back : ∀ s, s ∉ services → w'.servers s = original s
  todo : ∀ s ∈ l, s ∈ stored.services
  rest : w'.failures = w.failures → ∀ s ∈ services, s ∈ l

theorem replay_safe {stored : Record} {w₀ : World} {services : Services}
    (h : Replaying original stored w₀ (service :: l) services w) :
    Safe Step (Recorded original) (fun services w' =>
      Replaying original stored w₀ l services w') (replay stored services service) w := by
  obtain ⟨servers, hlookup⟩ := lookup_of_mem (h.todo service (.head _))
  have hservers : servers = original service := h.recorded.kept stored h.file service servers hlookup
  refine Safe.bind (Safe.ask (f := .pure) fun ok w₁ hstep => ?_)
  rw [hlookup] at hstep
  rcases hstep with ⟨rfl, rfl⟩ | ⟨rfl, rfl⟩
  · refine ⟨h.recorded.failed, ?_⟩
    refine ⟨h.recorded.failed, h.file, h.aliases, le_succ_of_le h.failures, h.sub, h.back,
      fun s hs => h.todo s (.tail _ hs), fun hsame => ?_⟩
    have hle := h.failures
    have : w.failures + 1 = w₀.failures := hsame
    omega
  refine ⟨h.recorded.set_back hservers, ?_⟩
  refine ⟨h.recorded.set_back hservers, h.file, h.aliases, h.failures, ?_, ?_,
    fun s hs => h.todo s (.tail _ hs), ?_⟩
  · intro s v hs
    by_cases heq : s = service
    · subst heq
      rw [if_pos rfl, AList.lookup_erase] at hs
      cases hs
    · rw [if_pos rfl, AList.lookup_erase_ne heq] at hs
      exact h.sub s v hs
  · intro s hs
    rw [if_pos rfl, AList.mem_erase] at hs
    by_cases heq : s = service
    · subst heq
      exact (update_self _ _ _).trans hservers
    · exact (update_of_ne heq _ _).trans (h.back s fun hin => hs ⟨heq, hin⟩)
  · intro hsame s hs
    rw [if_pos rfl, AList.mem_erase] at hs
    exact (mem_cons.mp (h.rest hsame s hs.2)).resolve_left hs.1

/-- What a replay leaves: nothing, or the record of what failed. -/
structure Replayed (stored : Record) (w : World) (left : Services) (w' : World) : Prop where
  file : (left = ∅ ∧ w'.file = none) ∨ w'.file = some { stored with hasAlias := false, services := left }
  failures : w.failures ≤ w'.failures
  gone : w'.ours = true → w'.stuck = true
  restored : w'.failures = w.failures → w'.file = none

include h

theorem replayRecord_safe {stored : Record} (hfile : w.file = some stored) :
    Safe Step (Recorded original) (fun left w' => Recorded original w' ∧
      Replayed stored w left w') (replayRecord stored) w := by
  have hlost : ∀ s, s ∉ stored.services → w.servers s = original s := by
    intro s hs
    rcases h.servers s with heq | ⟨r, hr, hlookup⟩
    · exact heq
    rw [hfile] at hr
    cases hr
    exact absurd (mem_of_lookup hlookup) hs
  refine Safe.bind (Safe.ask (f := .pure) fun order w₁ hstep => ?_)
  obtain ⟨hperm, rfl⟩ := hstep
  refine ⟨h, ?_⟩
  have hstart : Replaying original stored w₁ order stored.services w₁ :=
    ⟨h, hfile, ⟨rfl, rfl⟩, .refl, fun _ _ hs => hs, hlost, fun s hs => AList.mem_keys.mpr (hperm.subset hs),
      fun _ s hs => hperm.symm.subset (AList.mem_keys.mp hs)⟩
  refine Safe.bind ((Safe.foldlM (Q := fun l services w' => Replaying original stored w₁ l services w')
    (fun i l s w hs => replay_safe hs) hstart).mono fun services w₂ hreplayed => ?_)
  -- the alias goes before the record does
  have halias : Safe Step (Recorded original) (fun _ w' => Recorded original w' ∧ Unaliased w₂ w')
      (replayAlias stored) w₂ := by
    unfold replayAlias
    split
    · exact removeAlias_safe hreplayed.recorded
    rename_i hnone
    refine ⟨hreplayed.recorded, rfl, rfl, .refl, fun hours => ?_⟩
    rcases hreplayed.recorded.hasAlias hours with hstuck | ⟨r, hr, hin⟩
    · exact hstuck
    rw [hreplayed.file] at hr
    cases hr
    exact absurd hin hnone
  refine Safe.bind (halias.mono fun _ w₃ hw₃ => ?_)
  obtain ⟨hrecorded, hun⟩ := hw₃
  have hback : ∀ s, s ∉ services → w₃.servers s = original s := fun s hs => hun.servers ▸ hreplayed.back s hs
  show Safe _ _ _ (if services.keys.isEmpty = true then _ else _) w₃
  split
  · rename_i hempty
    refine Safe.bind (Safe.ask (f := .pure) fun _ w₄ hstep => ?_)
    obtain rfl := hstep
    have hremoved := hrecorded.remove (fun s => hback s (not_mem_of_keys_isEmpty hempty s)) hun.gone
    exact ⟨hremoved, hremoved, .inl ⟨rfl, rfl⟩, Nat.le_trans hreplayed.failures hun.failures, hun.gone, fun _ => rfl⟩
  rename_i hleft
  refine Safe.bind (Safe.ask (f := .pure) fun _ w₄ hstep => ?_)
  obtain rfl := hstep
  have hkept : ∀ s l, services.lookup s = some l → l = original s := fun s l hs =>
    h.kept stored hfile s l (hreplayed.sub s l hs)
  have hwritten := hrecorded.write (r := { stored with hasAlias := false, services := services }) (fun s => by
    by_cases hs : s ∈ services
    · obtain ⟨l, hl⟩ := lookup_of_mem hs
      exact .inr (hkept s l hl ▸ hl)
    · exact .inl (hback s hs)) hkept (fun hours => .inl (hun.gone hours))
  refine ⟨hwritten, hwritten, .inr rfl, Nat.le_trans hreplayed.failures hun.failures, hun.gone, fun hsame => ?_⟩
  have hnone : w₂.failures = w₁.failures := by
    have h₁ := hreplayed.failures
    have h₂ := hun.failures
    have h₃ : w₃.failures = w₁.failures := hsame
    omega
  refine absurd ?_ hleft
  rw [List.isEmpty_iff, List.eq_nil_iff_forall_not_mem]
  exact fun s hs => List.not_mem_nil (hreplayed.rest hnone s (AList.mem_keys.mpr hs))

/-- What `restoreStaleLocked` leaves: it does nothing without a record or with one under its own pid. -/
def Staled (c : Core) (w : World) (left : Services) (w' : World) : Prop :=
  (left = ∅ ∧ w' = w ∧ (w.file = none ∨ ∃ r, w.file = some r ∧ r.pid = c.pid)) ∨
    ∃ r, w.file = some r ∧ r.pid ≠ c.pid ∧ Replayed r w left w'

theorem restoreStaleLocked_safe (c : Core) :
    Safe Step (Recorded original) (fun left w' => Recorded original w' ∧
      Staled c w left w') (restoreStaleLocked c) w := by
  refine Safe.bind (Safe.ask (f := .pure) fun stored w₁ hstep => ?_)
  obtain ⟨rfl, rfl⟩ := hstep
  refine ⟨h, ?_⟩
  show Safe _ _ _ (match w₁.file with | none => _ | some stored => _) w₁
  split
  · rename_i hnone
    exact ⟨h, .inl ⟨rfl, rfl, .inl hnone⟩⟩
  rename_i stored hfile
  split
  · rename_i hown
    have hpid : stored.pid = c.pid := by
      rcases hown with heq | halive
      · exact heq
      · unfold alive at halive
        simpa using (Bool.and_eq_true_iff.mp halive).2
    exact ⟨h, .inl ⟨rfl, rfl, .inr ⟨stored, hfile, hpid⟩⟩⟩
  · rename_i hother
    exact (replayRecord_safe h hfile).mono fun left w₂ hw₂ =>
      ⟨hw₂.1, .inr ⟨stored, hfile, fun hpid => hother (.inl hpid), hw₂.2⟩⟩

/-- Everything is as it was before any core ran, but for an alias that could not be removed. -/
structure Restored (original : String → List String) (w : World) : Prop where
  servers : ∀ s, w.servers s = original s
  alias_gone : w.stuck = false → w.ours = false

theorem Recorded.restored (hfile : w.file = none) : Restored original w := by
  refine ⟨h.original_of_none hfile, fun hstuck => ?_⟩
  cases hours : w.ours with
  | false => rfl
  | true =>
    have := h.stuck_of_none hfile hours
    rw [hstuck] at this
    cases this

omit h

/-- What a call leaves. -/
def Left (original : String → List String) (c : Core) (w : World) : Prop := Recorded original w ∧ Steady w c

/-- A core that has not prepared finds no record of its own. -/
theorem Staled.fresh (hs : Steady w c) (h : Staled c w left w') (hr : Recorded original w') (hpid : c.owned.pid = 0) :
    (∀ r, w'.file = some r → r.pid ≠ c.pid) ∧ (w'.failures = w.failures → Restored original w') := by
  obtain ⟨-, hother⟩ := hs.fresh hpid
  rcases h with ⟨-, rfl, hnone | ⟨r, hfile, hown⟩⟩ | ⟨r, hfile, hne, hreplayed⟩
  · exact ⟨hother, fun _ => hr.restored hnone⟩
  · exact absurd hown (hother r hfile)
  refine ⟨fun r' hr' => ?_, fun hsame => hr.restored (hreplayed.restored hsame)⟩
  rcases hreplayed.file with ⟨-, hnone⟩ | hsome
  · rw [hnone] at hr'
    cases hr'
  rw [hsome] at hr'
  cases hr'
  exact hne

theorem Staled.own (hs : Steady w c) (h : Staled c w left w') (hpid : c.owned.pid = c.pid) : left = ∅ ∧ w' = w := by
  have hfile := hs.prepared hpid
  rcases h with ⟨hleft, hw, -⟩ | ⟨r, hr, hne, -⟩
  · exact ⟨hleft, hw⟩
  rw [hfile] at hr
  cases hr
  exact absurd hpid hne

include h in
theorem RestoreStale_safe (hs : Steady w c) :
    Safe Step (Recorded original)
      (fun c' w' => Left original c' w' ∧
        (c.root = true → c.owned.pid = 0 → w'.failures = w.failures → Restored original w')) (RestoreStale c) w := by
  unfold RestoreStale
  split
  · rename_i hroot
    exact ⟨⟨h, hs⟩, fun htrue => by simp [htrue] at hroot⟩
  refine Safe.bind ((restoreStaleLocked_safe h c).mono fun left w₁ hw₁ => ?_)
  obtain ⟨hr, hstaled⟩ := hw₁
  rcases hs.pid with hpid | hpid
  · obtain ⟨hother, hrestored⟩ := hstaled.fresh hs hr hpid
    refine ⟨⟨hr, { hs with prepared := fun heq => ?_, fresh := fun _ => ⟨(hs.fresh hpid).1, hother⟩ }⟩, fun _ _ => hrestored⟩
    rw [hpid] at heq
    exact absurd heq.symm hs.positive
  · obtain ⟨-, rfl⟩ := hstaled.own hs hpid
    refine ⟨⟨hr, hs⟩, fun _ hzero => ?_⟩
    rw [hpid] at hzero
    exact absurd hzero hs.positive

/-! ## Prepare -/

/-- What failed is taken over. -/
theorem Staled.merge (hs : Steady w c) (h : Staled c w left w') (hw : Recorded original w) (hr : Recorded original w') :
    (∀ s, w'.servers s = original s ∨ (left ∪ c.owned.services).lookup s = some (original s)) ∧
      (∀ s l, (left ∪ c.owned.services).lookup s = some l → l = original s) ∧
      (w'.ours = true → w'.stuck = true ∨ c.owned.hasAlias = true) := by
  rcases hs.pid with hpid | hpid
  · obtain ⟨hempty, hother⟩ := hs.fresh hpid
    have hunion : left ∪ c.owned.services = left := by
      rw [hempty]
      exact AList.union_empty
    rw [hunion]
    rcases h with ⟨rfl, rfl, hnone | ⟨r, hfile, hown⟩⟩ | ⟨r, hfile, hne, hreplayed⟩
    · exact ⟨fun s => .inl (hr.original_of_none hnone s), fun s l hl => (by cases hl),
        fun hours => .inl (hr.stuck_of_none hnone hours)⟩
    · exact absurd hown (hother r hfile)
    rcases hreplayed.file with ⟨rfl, hnone⟩ | hsome
    · exact ⟨fun s => .inl (hr.original_of_none hnone s), fun s l hl => (by cases hl),
        fun hours => .inl (hreplayed.gone hours)⟩
    refine ⟨fun s => (hr.servers s).imp_right ?_, fun s l hl => hr.kept _ hsome s l hl,
      fun hours => .inl (hreplayed.gone hours)⟩
    rintro ⟨r', hr', hl⟩
    rw [hsome] at hr'
    cases hr'
    exact hl
  obtain ⟨rfl, rfl⟩ := h.own hs hpid
  have hunion : ∅ ∪ c.owned.services = c.owned.services := AList.empty_union
  have hfile := hs.prepared hpid
  refine ⟨fun s => (hr.servers s).imp_right ?_, fun s l hl => hr.kept _ hfile s l hl,
    fun hours => (hr.hasAlias hours).imp_right ?_⟩
  · rintro ⟨r', hr', hl⟩
    rw [hfile] at hr'
    cases hr'
    exact hl
  · rintro ⟨r', hr', hl⟩
    rw [hfile] at hr'
    cases hr'
    exact hl

include h in
theorem wantsAlias_safe (c : Core) :
    Safe Step (Recorded original) (fun wanted w' => w' = w ∧
      (c.owned.hasAlias = true → wanted = true)) (wantsAlias c) w := by
  unfold wantsAlias
  split
  · exact ⟨rfl, fun _ => rfl⟩
  rename_i hnone
  refine Safe.bind (Safe.ask (f := .pure) fun present w₁ hstep => ?_)
  obtain ⟨rfl, rfl⟩ := hstep
  exact ⟨h, rfl, fun hwants => absurd hwants hnone⟩

variable (hfile : w.file = some c.owned)

include h hfile in
theorem addMissingAlias_safe :
    Safe Step (Recorded original) (fun _ w' => Recorded original w' ∧ w'.file = w.file) (addMissingAlias c) w := by
  unfold addMissingAlias
  split
  · rename_i howned
    refine Safe.bind (Safe.ask (f := .pure) fun present w₁ hstep => ?_)
    obtain ⟨rfl, rfl⟩ := hstep
    refine ⟨h, ?_⟩
    show Safe _ _ _ (if w₁.hasAlias = true then _ else _) w₁
    split
    · exact ⟨h, rfl⟩
    refine Safe.ask (f := .pure) fun added w₂ hstep => ?_
    rcases hstep with ⟨-, rfl⟩ | ⟨-, rfl⟩
    · exact ⟨h.failed, h.failed, rfl⟩
    have hadded : Recorded original { w₁ with hasAlias := true, ours := w₁.ours || !w₁.hasAlias } :=
      ⟨h.servers, h.kept, fun _ => .inr ⟨c.owned, hfile, howned⟩, fun _ => rfl⟩
    exact ⟨hadded, hadded, rfl⟩
  · exact ⟨h, rfl⟩

include h in
theorem Prepare_safe (hs : Steady w c) :
    Safe Step (Recorded original) (fun r w' => Left original r.1 w') (Prepare c) w := by
  unfold Prepare
  split
  · exact ⟨h, hs⟩
  refine Safe.bind ((restoreStaleLocked_safe h c).mono fun left w₁ hw₁ => ?_)
  obtain ⟨hr, hstaled⟩ := hw₁
  obtain ⟨hservers, hkept, halias⟩ := hstaled.merge hs h hr
  refine Safe.bind ((wantsAlias_safe hr c).mono fun wanted w₂ hw₂ => ?_)
  obtain ⟨rfl, hwanted⟩ := hw₂
  have hwritten := hr.write (r := { pid := c.pid, hasAlias := wanted, services := left ∪ c.owned.services }) hservers hkept
    fun hours => (halias hours).imp_right hwanted
  have hsteady : ∀ w' : World, w'.file = some { pid := c.pid, hasAlias := wanted, services := left ∪ c.owned.services } →
      Steady w' { c with owned := { pid := c.pid, hasAlias := wanted, services := left ∪ c.owned.services } } := by
    intro w' hfile
    refine ⟨hs.positive, .inr rfl, fun _ => hfile, fun hzero => absurd hzero hs.positive,
      fun hcurrent => ?_, fun _ => rfl⟩
    exact AList.mem_union.mpr (.inr (hs.current hcurrent))
  refine Safe.bind (Safe.ask (f := .pure) fun _ w₃ hstep => ?_)
  obtain rfl := hstep
  refine ⟨hwritten, ?_⟩
  refine Safe.bind ((addMissingAlias_safe hwritten rfl).mono fun added w₄ hw₄ => ?_)
  obtain ⟨hadded, hfile⟩ := hw₄
  show Safe _ _ _ (if (!added) = true then _ else _) w₄
  split
  · exact ⟨hadded, hsteady w₄ hfile⟩
  refine Safe.bind (Safe.ask (f := .pure) fun bound w₅ hstep => ?_)
  obtain rfl := hstep
  exact ⟨hadded, hadded, hsteady w₅ hfile⟩

/-! ## Pointing and restoring -/

/-- Two states of a core of one process that has prepared, with its record written. -/
structure Written (c c' : Core) (w : World) : Prop where
  file : w.file = some c'.owned
  pid : c'.pid = c.pid
  owner : c'.owned.pid = c.owned.pid
  current : c'.current = c.current
  monitor : c'.monitor = c.monitor

/-- What restoring one service leaves. -/
structure RestoredOne (service : String) (c : Core) (w : World) (c' : Core) (w' : World) : Prop where
  written : Written c c' w'
  failures : w.failures ≤ w'.failures
  sub : ∀ s, s ∈ c'.owned.services ↔ s ∈ c.owned.services ∧ (s = service → w'.failures ≠ w.failures)

include h hfile

theorem restoreLocked_safe
    (hin : service ∈ c.owned.services) :
    Safe Step (Recorded original) (fun c' w' => Recorded original w' ∧
      RestoredOne service c w c' w') (restoreLocked service c) w := by
  obtain ⟨servers, hlookup⟩ := lookup_of_mem hin
  have hservers := h.kept c.owned hfile service servers hlookup
  refine Safe.bind (Safe.ask (f := .pure) fun ok w₁ hstep => ?_)
  rw [hlookup] at hstep
  rcases hstep with ⟨rfl, rfl⟩ | ⟨rfl, rfl⟩
  · refine ⟨h.failed, h.failed, ⟨hfile, rfl, rfl, rfl, rfl⟩, le_succ _, fun s => ⟨fun hs => ⟨hs, fun _ => ?_⟩, And.left⟩⟩
    exact succ_ne_self _
  have hback := h.set_back hservers
  have hwritten := hback.write (r := (c.delete service).owned) (fun s => by
    rcases hback.servers s with heq | ⟨r, hr, hl⟩
    · exact .inl heq
    · by_cases hs : s = service
      · subst hs
        exact .inl ((update_self _ _ _).trans hservers)
      rw [show (w.set service servers).file = w.file from rfl, hfile] at hr
      cases hr
      exact .inr ((AList.lookup_erase_ne hs).trans hl)) (fun s l hl => by
    by_cases hs : s = service
    · subst hs
      rw [show (c.delete s).owned.services = c.owned.services.erase s from rfl, AList.lookup_erase] at hl
      cases hl
    · exact h.kept c.owned hfile s l ((AList.lookup_erase_ne hs).symm.trans hl)) (fun hours => by
    rcases h.hasAlias hours with hstuck | ⟨r, hr, halias⟩
    · exact .inl hstuck
    rw [hfile] at hr
    cases hr
    exact .inr halias)
  refine ⟨hback, ?_⟩
  refine Safe.bind (Safe.ask (f := .pure) fun _ w₂ hstep => ?_)
  obtain rfl := hstep
  refine ⟨hwritten, hwritten, ⟨rfl, rfl, rfl, rfl, rfl⟩, .refl, fun s => ?_⟩
  show s ∈ c.owned.services.erase service ↔ s ∈ c.owned.services ∧ (s = service → w.failures ≠ w.failures)
  rw [AList.mem_erase]
  tauto

/-- What pointing one service leaves: what was recorded still is. -/
structure Pointed (service : String) (c : Core) (r : Core × Bool) (w' : World) : Prop where
  written : Written c r.1 w'
  kept : ∀ s ∈ c.owned.services, s ∈ r.1.owned.services
  recorded : r.2 = true → service ∈ r.1.owned.services

theorem pointRecorded_safe
    (hin : service ∈ c.owned.services) :
    Safe Step (Recorded original) (fun r w' => Recorded original w' ∧ r.1 = c ∧
      w'.file = w.file) (pointRecorded service c) w := by
  obtain ⟨servers, hlookup⟩ := lookup_of_mem hin
  have hservers := h.kept c.owned hfile service servers hlookup
  refine Safe.bind (Safe.ask (f := .pure) fun ok w₁ hstep => ?_)
  rcases hstep with ⟨-, rfl⟩ | ⟨-, rfl⟩
  · exact ⟨h.failed, h.failed, rfl, rfl⟩
  · have haway := h.set_away hfile (hservers ▸ hlookup) [Address]
    exact ⟨haway, haway, rfl, rfl⟩

theorem pointLocked_safe
    (horiginal : original service ≠ [Address]) :
    Safe Step (Recorded original) (fun r w' => Recorded original w' ∧
      Pointed service c r w') (pointLocked service c) w := by
  unfold pointLocked
  split
  · rename_i hin
    refine (pointRecorded_safe h hfile hin).mono fun r w₁ hw₁ => ?_
    obtain ⟨hr, hcore, hsame⟩ := hw₁
    refine ⟨hr, ⟨?_, ?_, ?_, ?_, ?_⟩, ?_, ?_⟩
    · rw [hcore, hsame, hfile]
    · rw [hcore]
    · rw [hcore]
    · rw [hcore]
    · rw [hcore]
    · rw [hcore]
      exact fun s hs => hs
    · rw [hcore]
      exact fun _ => hin
  rename_i hnew
  refine Safe.bind (Safe.ask (f := .pure) fun previous w₁ hstep => ?_)
  rcases hstep with ⟨rfl, rfl⟩ | ⟨rfl, rfl⟩
  · exact ⟨h.failed, h.failed, ⟨hfile, rfl, rfl, rfl, rfl⟩, fun s hs => hs, fun hfalse => by cases hfalse⟩
  refine ⟨h, ?_⟩
  have hservers : w₁.servers service = original service := by
    rcases h.servers service with heq | ⟨r, hr, hl⟩
    · exact heq
    rw [hfile] at hr
    cases hr
    exact absurd (mem_of_lookup hl) hnew
  show Safe _ _ _ (Prog.bind (saveLocked (c.withServices (c.owned.services.insert service
    (if w₁.servers service = [Address] then [] else w₁.servers service)))) _) w₁
  rw [hservers, if_neg horiginal]
  have hwritten := h.write (r := (c.withServices (c.owned.services.insert service (original service))).owned) (fun s => by
    by_cases hs : s = service
    · subst hs
      exact .inl hservers
    · refine (h.servers s).imp_right ?_
      rintro ⟨r, hr, hl⟩
      rw [hfile] at hr
      cases hr
      exact (AList.lookup_insert_ne hs).trans hl) (fun s l hl => by
    by_cases hs : s = service
    · subst hs
      rw [show (c.withServices (c.owned.services.insert s (original s))).owned.services =
        c.owned.services.insert s (original s) from rfl, AList.lookup_insert] at hl
      exact (some.inj hl).symm
    · exact h.kept c.owned hfile s l ((AList.lookup_insert_ne hs).symm.trans hl)) (fun hours => by
    rcases h.hasAlias hours with hstuck | ⟨r, hr, halias⟩
    · exact .inl hstuck
    rw [hfile] at hr
    cases hr
    exact .inr halias)
  refine Safe.bind (Safe.ask (f := .pure) fun _ w₂ hstep => ?_)
  obtain rfl := hstep
  refine ⟨hwritten, ?_⟩
  have hin : service ∈ (c.withServices (c.owned.services.insert service (original service))).owned.services :=
    AList.mem_insert _ |>.mpr (.inl rfl)
  refine (pointRecorded_safe hwritten rfl hin).mono fun r w₃ hw₃ => ?_
  obtain ⟨hr, hcore, hsame⟩ := hw₃
  refine ⟨hr, ⟨?_, ?_, ?_, ?_, ?_⟩, ?_, ?_⟩
  · rw [hcore, hsame]
  · rw [hcore]
    rfl
  · rw [hcore]
    rfl
  · rw [hcore]
    rfl
  · rw [hcore]
    rfl
  · rw [hcore]
    exact fun s hs => AList.mem_insert _ |>.mpr (.inr hs)
  · rw [hcore]
    exact fun _ => hin

omit h hfile

theorem Steady.of_written (hs : Steady w c) (hpid : c.owned.pid = c.pid) {d : Core} (hfile : w'.file = some d.owned)
    (hsame : d.pid = c.pid) (howner : d.owned.pid = c.owned.pid)
    (hcurrent : d.current ≠ "" → d.current ∈ d.owned.services) :
    Steady w' d := by
  have hown : d.owned.pid = d.pid := howner.trans (hpid.trans hsame.symm)
  refine ⟨hsame ▸ hs.positive, .inr hown, fun _ => hfile, fun hzero => ?_, hcurrent, fun _ => hown⟩
  rw [hown, hsame] at hzero
  exact absurd hzero hs.positive

include h

theorem followLocked_safe (hs : Steady w c) (hpid : c.owned.pid = c.pid)
    (horiginal : ∀ s, original s ≠ [Address]) :
    Safe Step (Recorded original) (fun r w' => Left original r.1 w') (followLocked c) w := by
  have hfile := hs.prepared hpid
  refine Safe.bind (Safe.ask (f := .pure) fun device w₁ hstep => ?_)
  obtain rfl := hstep
  refine ⟨h, ?_⟩
  cases device with
  | none => exact ⟨h, hs⟩
  | some device =>
    refine Safe.bind (Safe.ask (f := .pure) fun service w₂ hstep => ?_)
    rcases hstep with ⟨rfl, rfl⟩ | ⟨hsome, hnonempty, rfl⟩
    · exact ⟨h.failed, h.failed, { hs with prepared := hs.prepared, fresh := hs.fresh }⟩
    refine ⟨h, ?_⟩
    cases service with
    | none => exact absurd rfl hsome
    | some service =>
      show Safe _ _ _ (if service = c.current then _ else _) w₂
      split
      · exact ⟨h, hs⟩
      rename_i hother
      refine Safe.bind ((pointLocked_safe h hfile (horiginal service)).mono fun pointed w₃ hw₃ => ?_)
      obtain ⟨hr, hpointed⟩ := hw₃
      have hkeptCurrent : pointed.1.current ≠ "" → pointed.1.current ∈ pointed.1.owned.services := by
        rw [hpointed.written.current]
        exact fun hne => hpointed.kept _ (hs.current hne)
      show Safe _ _ _ (if pointed.2 = true then _ else _) w₃
      split
      · rename_i hok
        have hin := hpointed.recorded hok
        unfold leavePrevious
        split
        · exact ⟨hr, hs.of_written (d := { pointed.1 with current := service }) hpid hpointed.written.file hpointed.written.pid
            hpointed.written.owner fun _ => hin⟩
        rename_i hcurrent
        refine Safe.bind ((restoreLocked_safe hr hpointed.written.file (hkeptCurrent hcurrent)).mono fun c' w₄ hw₄ => ?_)
        obtain ⟨hr', hone⟩ := hw₄
        have hstays : service ∈ c'.owned.services := by
          refine (hone.sub service).mpr ⟨hin, fun heq => ?_⟩
          rw [hpointed.written.current] at heq
          exact absurd heq hother
        exact ⟨hr', hs.of_written (d := { c' with current := service }) hpid hone.written.file
          (hone.written.pid.trans hpointed.written.pid) (hone.written.owner.trans hpointed.written.owner) fun _ => hstays⟩
      · exact ⟨hr, hs.of_written hpid hpointed.written.file hpointed.written.pid hpointed.written.owner hkeptCurrent⟩

theorem Apply_safe (hs : Steady w c) (horiginal : ∀ s, original s ≠ [Address]) :
    Safe Step (Recorded original) (fun r w' => Left original r.1 w') (Apply c) w := by
  unfold Apply
  split
  · exact ⟨h, hs⟩
  rename_i hprepared
  have hpid := hs.pid.resolve_left hprepared
  exact followLocked_safe h { hs with fresh := hs.fresh, followed := fun _ => hpid } hpid horiginal

theorem follow_safe (hs : Steady w c) (horiginal : ∀ s, original s ≠ [Address]) (gen : Nat) :
    Safe Step (Recorded original) (fun c' w' => Left original c' w') (follow gen c) w := by
  unfold follow
  split
  · exact ⟨h, hs⟩
  rename_i hcurrent
  have hmonitor : c.monitor = true := by
    cases hm : c.monitor with
    | true => rfl
    | false => exact absurd (.inr hm) hcurrent
  exact Safe.bind ((followLocked_safe h hs (hs.followed hmonitor) horiginal).mono fun _ _ hleft => hleft)

omit h

/-! ## Release -/

/-- The loop of a release: `l` is still to come. -/
structure Releasing (original : String → List String) (c₀ : Core) (w₀ : World) (l : List String)
    (c : Core) (w : World) : Prop where
  recorded : Recorded original w
  written : Written c₀ c w
  failures : w₀.failures ≤ w.failures
  todo : ∀ s ∈ l, s ∈ c.owned.services
  nodup : l.Nodup
  rest : w.failures = w₀.failures → ∀ s ∈ c.owned.services, s ∈ l

theorem releasing_step {c₀ : Core} {w₀ : World} (h : Releasing original c₀ w₀ (service :: l) c w) :
    Safe Step (Recorded original) (fun c' w' => Releasing original c₀ w₀ l c' w') (restoreLocked service c) w := by
  have hin := h.todo service mem_cons_self
  obtain ⟨hnotin, hnodup⟩ := nodup_cons.mp h.nodup
  refine (restoreLocked_safe h.recorded h.written.file hin).mono fun c' w' hw' => ?_
  obtain ⟨hr, hone⟩ := hw'
  refine ⟨hr, ⟨hone.written.file, hone.written.pid.trans h.written.pid, hone.written.owner.trans h.written.owner,
    hone.written.current.trans h.written.current, hone.written.monitor.trans h.written.monitor⟩,
    le_trans h.failures hone.failures, fun s hs => ?_, hnodup, fun hsame s hs => ?_⟩
  · refine (hone.sub s).mpr ⟨h.todo s (mem_cons_of_mem _ hs), fun heq => ?_⟩
    subst heq
    exact absurd hs hnotin
  · obtain ⟨hold, hfailed⟩ := (hone.sub s).mp hs
    have hfailures := h.failures
    have hfailures' := hone.failures
    have hw : w.failures = w₀.failures := by omega
    refine (mem_cons.mp (h.rest hw s hold)).resolve_left fun heq => ?_
    exact hfailed heq (by omega)

include h hfile in
theorem removeOwnedAlias_safe :
    Safe Step (Recorded original)
      (fun c' w' => Recorded original w' ∧ Unaliased w w' ∧ c' = { c with owned := { c.owned with hasAlias := false } })
      (removeOwnedAlias c) w := by
  unfold removeOwnedAlias
  split
  · exact Safe.bind ((removeAlias_safe h).mono fun _ w' hw' => ⟨hw'.1, hw'.2, rfl⟩)
  rename_i hnone
  have hcore : c = { c with owned := { c.owned with hasAlias := false } } := by
    have hfalse : c.owned.hasAlias = false := by simpa using hnone
    rw [← hfalse]
  refine ⟨h, ⟨rfl, rfl, .refl, fun hours => ?_⟩, hcore⟩
  rcases h.hasAlias hours with hstuck | ⟨r, hr, halias⟩
  · exact hstuck
  rw [hfile] at hr
  cases hr
  exact absurd halias hnone

include h

theorem removeRecordLocked_safe {r : Record} (hfile : w.file = some r) (hpid : r.pid = c.pid)
    (hservers : ∀ s, w.servers s = original s) (halias : w.ours = true → w.stuck = true) :
    Safe Step (Recorded original) (fun _ w' => Recorded original w' ∧ w'.file = none ∧ w'.failures = w.failures)
      (removeRecordLocked c) w := by
  refine Safe.bind (Safe.ask (f := .pure) fun stored w₁ hstep => ?_)
  obtain ⟨rfl, rfl⟩ := hstep
  refine ⟨h, ?_⟩
  rw [hfile]
  show Safe _ _ _ (if r.pid ≠ c.pid then _ else _) w₁
  rw [if_neg (not_not.mpr hpid)]
  refine Safe.ask (f := .pure) fun _ w₂ hstep => ?_
  obtain rfl := hstep
  have hremoved := h.remove hservers halias
  exact ⟨hremoved, hremoved, rfl, rfl⟩

theorem Release_safe (hs : Steady w c) :
    Safe Step (Recorded original)
      (fun c' w' => Left original c' w' ∧ (c.owned.pid ≠ 0 → w'.failures = w.failures →
        Restored original w')) (Release c) w := by
  unfold Release
  dsimp only
  split
  · rename_i hzero
    refine ⟨⟨h, { hs with fresh := hs.fresh, current := fun hne => absurd rfl hne, followed := fun hfalse => by cases hfalse }⟩, ?_⟩
    exact fun hprepared => absurd hzero hprepared
  rename_i hprepared
  have hpid := hs.pid.resolve_left hprepared
  have hfile := hs.prepared hpid
  refine Safe.bind (Safe.ask (f := .pure) fun order w₁ hstep => ?_)
  obtain ⟨hperm, rfl⟩ := hstep
  refine ⟨h, ?_⟩
  have hstart : Releasing original { c with followGen := c.followGen + 1, monitor := false, current := "" } w₁ order
      { c with followGen := c.followGen + 1, monitor := false, current := "" } w₁ :=
    ⟨h, ⟨hfile, rfl, rfl, rfl, rfl⟩, .refl, fun s hs => AList.mem_keys.mpr (hperm.subset hs),
      hperm.nodup_iff.mpr (AList.keys_nodup _), fun _ s hs => hperm.symm.subset (AList.mem_keys.mp hs)⟩
  refine Safe.bind ((Safe.foldlM (Q := fun l c' w' =>
    Releasing original { c with followGen := c.followGen + 1, monitor := false, current := "" } w₁ l c' w')
    (fun service l c' w' hw' => releasing_step hw') hstart).mono fun c₂ w₂ hreleased => ?_)
  refine Safe.bind ((removeOwnedAlias_safe hreleased.recorded hreleased.written.file).mono fun c₃ w₃ hw₃ => ?_)
  obtain ⟨hr, hun, rfl⟩ := hw₃
  have hfile₃ : w₃.file = some c₂.owned := hun.file.trans hreleased.written.file
  have hlost : ∀ s, s ∉ c₂.owned.services → w₃.servers s = original s := by
    intro s hnot
    rcases hr.servers s with heq | ⟨r, hr', hl⟩
    · exact heq
    rw [hfile₃] at hr'
    cases hr'
    exact absurd (mem_of_lookup hl) hnot
  have hle : w₁.failures ≤ w₃.failures := le_trans hreleased.failures hun.failures
  have hsame : c₂.pid = c.pid := hreleased.written.pid
  have howner : c₂.owned.pid = c.owned.pid := hreleased.written.owner
  show Safe _ _ _ (if (!c₂.owned.services.keys.isEmpty) = true then _ else _) w₃
  split
  · rename_i hleft
    have hwritten := hr.write (r := { c₂.owned with hasAlias := false }) (fun s => by
      by_cases hin : s ∈ c₂.owned.services
      · obtain ⟨l, hl⟩ := lookup_of_mem hin
        exact .inr (hr.kept _ hfile₃ s l hl ▸ hl)
      · exact .inl (hlost s hin)) (fun s l hl => hr.kept _ hfile₃ s l hl) (fun hours => .inl (hun.gone hours))
    refine Safe.bind (Safe.ask (f := .pure) fun _ w₄ hstep => ?_)
    obtain rfl := hstep
    refine ⟨hwritten, ⟨hwritten, ?_⟩, fun _ hfailures => ?_⟩
    · exact hs.of_written (d := { c₂ with owned := { c₂.owned with hasAlias := false } }) hpid rfl hsame howner
        fun hne => absurd hreleased.written.current hne
    have hnone : w₂.failures = w₁.failures := by
      have h₁ := hreleased.failures
      have h₂ := hun.failures
      have h₃ : w₃.failures = w₁.failures := hfailures
      omega
    have hempty : c₂.owned.services.keys = [] :=
      eq_nil_iff_forall_not_mem.mpr fun s hin => not_mem_nil (hreleased.rest hnone s (AList.mem_keys.mpr hin))
    rw [hempty] at hleft
    cases hleft
  rename_i hempty
  have hkeys : c₂.owned.services.keys.isEmpty = true := by simpa using hempty
  have hservers : ∀ s, w₃.servers s = original s := fun s => hlost s (not_mem_of_keys_isEmpty hkeys s)
  refine Safe.bind ((removeRecordLocked_safe (c := { c₂ with owned := { c₂.owned with hasAlias := false } }) hr hfile₃
    (howner.trans (hpid.trans hsame.symm)) hservers hun.gone).mono fun _ w₄ hw₄ => ?_)
  obtain ⟨hr₄, hnone, -⟩ := hw₄
  refine ⟨⟨hr₄, hsame ▸ hs.positive, .inl rfl, fun heq => ?_, fun _ => ⟨rfl, fun r hr' => ?_⟩,
    fun hne => absurd hreleased.written.current hne, fun hmonitor => ?_⟩, fun _ _ => hr₄.restored hnone⟩
  · exact absurd (heq.symm.trans rfl) (hsame ▸ hs.positive)
  · rw [hnone] at hr'
    cases hr'
  · rw [hreleased.written.monitor] at hmonitor
    cases hmonitor

/-! ## Cores, one after the other -/

inductive Call where
  | restoreStale
  | prepare
  | apply
  | interfaceChanged (gen : Nat)
  | release

/-- The core after a call; what the call returns to its caller is left out. -/
def Call.run : Call → Core → P Core
  | .restoreStale, c => RestoreStale c
  | .prepare, c => (Prepare c).bind fun r => pure r.1
  | .apply, c => (Apply c).bind fun r => pure r.1
  | .interfaceChanged gen, c => follow gen c
  | .release, c => Release c

structure Sys where
  world : World
  core : Option Core := none

/-- A process starts where none is alive, does a call, or is killed between two external operations of one: `allowed` says
which pids a process may get. -/
inductive Moves (allowed : World → Nat → Prop) : Sys → Sys → Prop
  | start {w : World} (pid : Nat) (root : Bool) (hpid : pid ≠ 0) (hallowed : allowed w pid) :
    Moves allowed ⟨w, none⟩ ⟨w, some { pid := pid, root := root }⟩
  | call {w w' : World} {c c' : Core} (call : Call) (h : Prog.Ends Step (call.run c) w c' w') : Moves allowed ⟨w, some c⟩ ⟨w', some c'⟩
  | kill {w w' : World} {c : Core} (call : Call) (h : Prog.Reaches Step (call.run c) w w') : Moves allowed ⟨w, some c⟩ ⟨w', none⟩

/-- The record, if there is one, is not under the pid of the process that starts. -/
def NotReused (w : World) (pid : Nat) : Prop := ∀ r, w.file = some r → r.pid ≠ pid

def initial (original : String → List String) (hasAlias : Bool) : Sys :=
    { world := { servers := original, hasAlias := hasAlias } }

theorem Call.toEnd_safe (hs : Steady w c) (horiginal : ∀ s, original s ≠ [Address]) (call : Call) :
    Safe Step (Recorded original) (fun c' w' => Left original c' w') (call.run c) w := by
  cases call with
  | restoreStale => exact (RestoreStale_safe h hs).mono fun _ _ hleft => hleft.1
  | prepare => exact Safe.bind (Prepare_safe h hs)
  | apply => exact Safe.bind (Apply_safe h hs horiginal)
  | interfaceChanged gen => exact follow_safe h hs horiginal gen
  | release => exact (Release_safe h hs).mono fun _ _ hleft => hleft.1

omit h

/-- What holds in every state reached. -/
structure Inv (original : String → List String) (s : Sys) : Prop where
  recorded : Recorded original s.world
  steady : ∀ c, s.core = some c → Steady s.world c

theorem inv_initial (original : String → List String) (hasAlias : Bool) : Inv original (initial original hasAlias) :=
  ⟨⟨fun _ => .inl rfl, fun r hr => (by cases hr), fun hours => (by cases hours), fun hours => (by cases hours)⟩,
    fun c hc => (by cases hc)⟩

theorem inv_moves (horiginal : ∀ s, original s ≠ [Address]) {s s' : Sys} (hm : Moves NotReused s s')
    (h : Inv original s) :
    Inv original s' := by
  cases hm with
  | start pid root hpid hallowed =>
    refine ⟨h.recorded, fun c hc => ?_⟩
    cases hc
    exact ⟨hpid, .inl rfl, fun heq => absurd heq.symm hpid, fun _ => ⟨rfl, hallowed⟩,
      fun hne => absurd rfl hne, fun hfalse => by cases hfalse⟩
  | @call w w' c c' call hends =>
    obtain ⟨hr, hs⟩ := (call.toEnd_safe h.recorded (h.steady c rfl) horiginal).ends hends
    refine ⟨hr, fun c₁ hc₁ => ?_⟩
    cases hc₁
    exact hs
  | @kill w w' c call hreaches =>
    exact ⟨(call.toEnd_safe h.recorded (h.steady c rfl) horiginal).reaches h.recorded hreaches,
      fun c₁ hc₁ => by cases hc₁⟩

/-- A service whose servers are not the original ones has them in the record. -/
def AllRecorded (original : String → List String) (w : World) : Prop :=
  ∀ s, w.servers s ≠ original s → ∃ r, w.file = some r ∧ r.services.lookup s = some (original s)

/-- The contract in a state: what is recorded, and what `RestoreStale` and `Release` leave when all their calls succeed. -/
structure Contract (original : String → List String) (s : Sys) : Prop where
  recorded : AllRecorded original s.world
  stale : ∀ c c' w', s.core = some c → c.root = true → c.owned.pid = 0 → Prog.Ends Step (RestoreStale c) s.world c' w' →
    w'.failures = s.world.failures → Restored original w'
  released : ∀ c c' w', s.core = some c → c.owned.pid ≠ 0 → Prog.Ends Step (Release c) s.world c' w' →
    w'.failures = s.world.failures → Restored original w'

theorem Inv.contract {s : Sys} (h : Inv original s) : Contract original s where
  recorded service hne := (h.recorded.servers service).resolve_left hne
  stale c _ _ hc hroot hfresh hends := ((RestoreStale_safe h.recorded (h.steady c hc)).ends hends).2 hroot hfresh
  released c _ _ hc hprepared hends := ((Release_safe h.recorded (h.steady c hc)).ends hends).2 hprepared

/-- **The system DNS over every run of cores.**  No process gets the pid that the record carries. -/
theorem systemDns_contract {original : String → List String}
    (horiginal : ∀ s, original s ≠ [Address]) (hasAlias : Bool) {s : Sys}
    (hrun : ReflTransGen (Moves NotReused) (initial original hasAlias) s) : Contract original s := by
  have hinv := reaches_keeps (P := Inv original) (fun _ _ hm => inv_moves horiginal hm) hrun (inv_initial original hasAlias)
  exact hinv.contract

/-! ## Two cores -/

/-- Every call succeeds, and the default interface is the one of Wi-Fi. -/
def obliging (w : World) : (o : Op) → Res o × World
  | .loadRecord => (w.file, w)
  | .writeRecord r => ((), { w with file := some r })
  | .removeRecord => ((), { w with file := none })
  | .dnsServers service => (some (w.servers service), w)
  | .setDNSServers service servers => (true, w.set service servers)
  | .aliasPresent => (w.hasAlias, w)
  | .addAlias => (true, { w with hasAlias := true, ours := w.ours || !w.hasAlias })
  | .removeAlias => (true, { w with hasAlias := false, ours := false })
  | .defaultInterface => (some "en0", w)
  | .serviceForDevice _ => (some "Wi-Fi", w)
  | .rangeOver keys => (keys, w)
  | .probe => (true, w)

theorem obliging_step (w : World) (o : Op) : Step w o (obliging w o).1 (obliging w o).2 := by
  cases o with
  | loadRecord => exact ⟨rfl, rfl⟩
  | writeRecord r => rfl
  | removeRecord => rfl
  | dnsServers service => exact .inr ⟨rfl, rfl⟩
  | setDNSServers service servers => exact .inr ⟨rfl, rfl⟩
  | aliasPresent => exact ⟨rfl, rfl⟩
  | addAlias => exact .inr ⟨rfl, rfl⟩
  | removeAlias => exact .inr ⟨rfl, rfl⟩
  | defaultInterface => rfl
  | serviceForDevice device => exact .inr ⟨nofun, (by decide : some "Wi-Fi" ≠ some ""), rfl⟩
  | rangeOver keys => exact ⟨.refl _, rfl⟩
  | probe => rfl

/-- A core runs these calls and is killed. -/
def World.after (w : World) (pid : Nat) (calls : List Call) : Core × World :=
  calls.foldl (fun s call => (call.run s.1).exec obliging s.2) ({ pid := pid }, w)

theorem moves_calls (calls : List Call) (c : Core) (w : World) :
    ReflTransGen (Moves allowed) ⟨w, some c⟩
      ⟨(calls.foldl (fun s call => (call.run s.1).exec obliging s.2) (c, w)).2,
        some (calls.foldl (fun s call => (call.run s.1).exec obliging s.2) (c, w)).1⟩ := by
  induction calls generalizing c w with
  | nil => exact .refl
  | cons call calls ih => exact .head (.call call (Prog.exec_ends obliging_step _ _)) (ih _ _)

theorem moves_core {w : World} {pid : Nat} (hpid : pid ≠ 0) (hallowed : allowed w pid) (calls : List Call) :
    ReflTransGen (Moves allowed) ⟨w, none⟩ ⟨(w.after pid calls).2, some (w.after pid calls).1⟩ :=
  .head (.start pid true hpid hallowed) (moves_calls calls _ _)

theorem moves_killed {w : World} {pid : Nat} (hpid : pid ≠ 0) (hallowed : allowed w pid) (calls : List Call) :
    ReflTransGen (Moves allowed) ⟨w, none⟩ ⟨(w.after pid calls).2, none⟩ :=
  (moves_core hpid hallowed calls).tail (.kill .release (Prog.execFor_reaches obliging_step 0 _ _))

def resolver : String → List String := fun _ => ["192.168.1.1"]

/-- A core points Wi-Fi at the address and is killed. -/
def leftBehind : World := (({ servers := resolver } : World).after 7 [.prepare, .apply]).2

/-- Another core finds the record and prepares under its own pid. -/
theorem systemDns_contract_two : Contract resolver ⟨(leftBehind.after 8 [.prepare]).2,
      some (leftBehind.after 8 [.prepare]).1⟩ := by
  have hfree : NotReused leftBehind 8 := by
    intro r hr
    have hpid : leftBehind.file.map Record.pid = some 7 := by decide +kernel
    rw [hr] at hpid
    rw [some.inj hpid]
    decide
  have hstart : NotReused { servers := resolver } 7 := fun r hr => by cases hr
  exact systemDns_contract (fun s => (by decide : ["192.168.1.1"] ≠ [Address])) false
    ((moves_killed (by decide) hstart [.prepare, .apply]).trans (moves_core (by decide) hfree [.prepare]))

/-- **The record is lost**: the next core has the pid of the dead one, and writes its own record over it. -/
theorem reused_pid_loses : ¬ ∀ original, (∀ s, original s ≠ [Address]) → ∀ hasAlias s,
    ReflTransGen (Moves fun _ _ => True) (initial original hasAlias) s → Contract original s := by
  intro h
  have hfirst : ReflTransGen (Moves fun _ _ => True) (initial resolver false) ⟨leftBehind, none⟩ :=
    moves_killed (by decide) trivial [.prepare, .apply]
  have hsecond : ReflTransGen (Moves fun _ _ => True) ⟨leftBehind, none⟩
      ⟨(leftBehind.after 7 [.prepare]).2, some (leftBehind.after 7 [.prepare]).1⟩ :=
       moves_core (by decide) trivial [.prepare]
  have hrun := hfirst.trans hsecond
  have hpointed : (leftBehind.after 7 [.prepare]).2.servers "Wi-Fi" = [Address] := by decide +kernel
  have hrecord : (leftBehind.after 7 [.prepare]).2.file.map (fun r => r.services.lookup "Wi-Fi") =
    some none := by decide +kernel
  obtain ⟨r, hr, hlookup⟩ := (h resolver (fun s =>
    (by decide : ["192.168.1.1"] ≠ [Address])) false _ hrun).recorded "Wi-Fi" (by
    decide)
  rw [show (⟨_, _⟩ : Sys).world.file = some r from hr, map_some, hlookup] at hrecord
  cases hrecord

end Waterdisco.SysDns
