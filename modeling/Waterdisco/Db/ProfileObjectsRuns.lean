import Waterdisco.Db.ProfileObjects

/-!
# Deleted profiles over whole runs

The ids that an add has drawn are reserved: nothing has them yet, except the one object of
an `AddProfile`.  A deleted id has no row and no object, and it is not reserved.

    Sound s → Careful s e → Sound (step s e)      (Sound.step)
-/

namespace Waterdisco.ProfilesRepo

open List Function Option Bool Repo

variable {δ : Type}

/-- The ids that a thread has drawn and not written yet. -/
def Phase.reserves : Phase δ → Int → Prop
  | .adding _ id, x => x = id
  | .addingBatch toAdd firstId _, x => firstId ≤ x ∧ x < firstId + toAdd.length
  | _, _ => False

/-- A phase without reserved ids and rows. -/
def Phase.Quiet : Phase δ → Prop
  | .adding .. | .addingBatch .. | .saving .. => False
  | _ => True

theorem Phase.Quiet.reserves {phase : Phase δ} (h : phase.Quiet) (x : Int) : ¬ phase.reserves x := by
  cases phase with
  | adding => exact absurd h id
  | addingBatch => exact absurd h id
  | _ => exact id

namespace Repo

/-- An id that can be written. -/
structure Free (s : Repo δ) (x : Int) : Prop where
  kept : s.gone x = false
  drawn : x ≤ s.lastId
  unreserved : ∀ k, ¬ (s.threads k).reserves x

structure Sound (s : Repo δ) : Prop where
  counter : 0 ≤ s.lastId
  gone : ∀ x, s.gone x = true → s.rows x = none ∧ s.identityMap x = none ∧ s.tombstones x = true ∧ x ≤ s.lastId
  rows : ∀ x, (s.rows x).isSome = true → s.Free x
  reserved : ∀ k x, (s.threads k).reserves x → 0 ≤ x ∧ x ≤ s.lastId ∧ s.gone x = false
  disjoint : ∀ k l x, (s.threads k).reserves x → (s.threads l).reserves x → k = l
  /-- an object without a row can be one that is being added, or was given up -/
  objects : ∀ (ref : Nat) p, s.objects[ref]? = some p →
    p.id ≤ s.lastId ∧ ∀ k, (s.threads k).reserves p.id → s.threads k = .adding ref p.id
  adding : ∀ k (ref : Nat) x, s.threads k = .adding ref x → ∃ p, s.objects[ref]? = some p ∧ p.id = x
  apart : ∀ k l ref x toAdd firstId gid, s.threads k = .adding ref x →
    s.threads l = .addingBatch toAdd firstId gid → ref ∉ toAdd
  saving : ∀ k rows valid, s.threads k = .saving rows valid → ∀ row ∈ rows, row.1 ≤ s.lastId ∧ ∀ l,
    ¬ (s.threads l).reserves row.1

/-- The threads of `s'` go on as in `s`, or have nothing reserved. -/
def Onward (s s' : Repo δ) : Prop := ∀ k, s'.threads k = s.threads k ∨ (s'.threads k).Quiet

theorem Onward.refl (s : Repo δ) : Onward s s := fun _ => .inl rfl

theorem Onward.goes (s : Repo δ) (k : Nat) {phase : Phase δ} (h : phase.Quiet) : Onward s (s.goes k phase) := by
  intro l
  by_cases hl : l = k
  · subst hl
    refine .inr ?_
    show (update s.threads l phase l).Quiet
    rwa [update_self]
  · exact .inl (update_of_ne hl _ _)

variable {s s' : Repo δ} {k ref : Nat} {x : Int} {p : Profile δ} {toAdd : List Nat} {rows : List (Int × Row δ)} (gid : Int)

theorem Onward.reserves (h : Onward s s') (hx : (s'.threads k).reserves x) :
    s'.threads k = s.threads k ∧ (s.threads k).reserves x := by
  obtain hsame | hquiet := h k
  · exact ⟨hsame, hsame ▸ hx⟩
  · exact absurd hx (hquiet.reserves x)

theorem Free.onward (h : s.Free x) (hlast : s.lastId ≤ s'.lastId) (hgone : s'.gone = s.gone)
    (hthreads : Onward s s') : s'.Free x :=
  ⟨hgone ▸ h.kept, Int.le_trans h.drawn hlast, fun k hx => h.unreserved k (hthreads.reserves hx).2⟩

/-- What an operation may do that deletes nothing and draws nothing. -/
theorem Sound.onward (h : Sound s) (hlast : s.lastId ≤ s'.lastId) (hgone : s'.gone = s.gone)
    (htomb : ∀ x, s.tombstones x = true → s'.tombstones x = true)
    (hidentity : ∀ x, s.gone x = true → s'.identityMap x = none) (hthreads : Onward s s')
    (hrows : ∀ x, (s'.rows x).isSome = true → (s.rows x).isSome = true ∨ s'.Free x)
    (hobjects : ∀ (ref : Nat) p', s'.objects[ref]? = some p' →
      (∃ p, s.objects[ref]? = some p ∧ p.id = p'.id) ∨ p'.id < 0 ∨ s'.Free p'.id)
    (hadding : ∀ k (ref : Nat) x, s'.threads k = .adding ref x → ∀ p, s.objects[ref]? = some p → p.id = x →
      ∃ p', s'.objects[ref]? = some p' ∧ p'.id = x) : Sound s' := by
  have hsame : ∀ {k : Nat} {ref : Nat} {x : Int}, s'.threads k = .adding ref x → s.threads k = .adding ref x := by
    intro k ref x hk
    obtain hk' | hquiet := hthreads k
    · rw [← hk', hk]
    · rw [hk] at hquiet
      exact absurd hquiet id
  refine ⟨Int.le_trans h.counter hlast, fun x hx => ?_, fun x hx => ?_, fun k x hx => ?_,
    fun k l x hk hl => ?_, fun ref p' hp' => ?_,
    fun k ref x hk => ?_, fun k l ref x toAdd firstId gid hk hl => ?_, fun k rows valid hk row hrow => ?_⟩
  · rw [hgone] at hx
    obtain ⟨hrow, -, htombstone, hle⟩ := h.gone x hx
    refine ⟨?_, hidentity x hx, htomb x htombstone, Int.le_trans hle hlast⟩
    cases hnew : s'.rows x with
    | none => rfl
    | some row =>
      obtain hold | hfree := hrows x (by rw [hnew]; rfl)
      · rw [hrow] at hold
        cases hold
      have hkept := hfree.kept
      rw [hgone, hx] at hkept
      cases hkept
  · obtain hold | hfree := hrows x hx
    · exact (h.rows x hold).onward hlast hgone hthreads
    · exact hfree
  · obtain ⟨hpos, hle, hkept⟩ := h.reserved k x (hthreads.reserves hx).2
    exact ⟨hpos, Int.le_trans hle hlast, hgone ▸ hkept⟩
  · exact h.disjoint k l x (hthreads.reserves hk).2 (hthreads.reserves hl).2
  · obtain ⟨p, hp, hid⟩ | hneg | hfree := hobjects ref p' hp'
    · obtain ⟨hle, hown⟩ := h.objects ref p hp
      rw [hid] at hle hown
      refine ⟨Int.le_trans hle hlast, fun k hk => ?_⟩
      obtain ⟨hthread, hold⟩ := hthreads.reserves hk
      exact hthread.trans (hown k hold)
    · have hcounter := h.counter
      refine ⟨by omega, fun k hk => ?_⟩
      have hpos := (h.reserved k _ (hthreads.reserves hk).2).1
      omega
    · exact ⟨hfree.drawn, fun k hk => absurd hk (hfree.unreserved k)⟩
  · obtain ⟨p, hp, hid⟩ := h.adding k ref x (hsame hk)
    exact hadding k ref x hk p hp hid
  · obtain hl' | hquiet := hthreads l
    · exact h.apart k l ref x toAdd firstId gid (hsame hk) (hl' ▸ hl)
    · rw [hl] at hquiet
      exact absurd hquiet id
  · obtain hk' | hquiet := hthreads k
    · obtain ⟨hle, hfree⟩ := h.saving k rows valid (hk' ▸ hk) row hrow
      exact ⟨Int.le_trans hle hlast, fun l hl => hfree l (hthreads.reserves hl).2⟩
    · rw [hk] at hquiet
      exact absurd hquiet id

theorem Sound.same_objects (h : Sound s) (hobjects : s'.objects = s.objects) (hlast : s.lastId ≤ s'.lastId)
    (hgone : s'.gone = s.gone) (htomb : ∀ x, s.tombstones x = true → s'.tombstones x = true)
    (hidentity : ∀ x, s.gone x = true → s'.identityMap x = none) (hthreads : Onward s s')
    (hrows : ∀ x, (s'.rows x).isSome = true → (s.rows x).isSome = true ∨ s'.Free x) : Sound s' :=
  h.onward hlast hgone htomb hidentity hthreads hrows (fun _ p' hp' => .inl ⟨p', hobjects ▸ hp', rfl⟩)
    (fun _ _ _ _ p hp hid => ⟨p, hobjects.symm ▸ hp, hid⟩)

theorem Sound.goes (h : Sound s) (k : Nat) {phase : Phase δ} (hquiet : phase.Quiet) : Sound (s.goes k phase) :=
  h.same_objects rfl (Int.le_refl _) rfl (fun _ hx => hx) (fun x hx => (h.gone x hx).2.1) (Onward.goes s k hquiet)
    (fun _ hx => .inl hx)

/-! ## Objects -/

open Onward

theorem Sound.modified (h : Sound s) (ref : Nat) {f : Profile δ → Profile δ} (hf : ∀ p, (f p).id = p.id) :
    Sound { s with objects := s.objects.modify ref f } := by
  have hget : ∀ r, (s.objects.modify ref f)[r]? = s.objects[r]?.map (fun p => if ref = r then f p else p) := by
    intro r
    rw [getElem?_modify]
    cases s.objects[r]? <;> by_cases hr : ref = r <;> simp [hr]
  refine h.onward (Int.le_refl _) rfl (fun _ hx => hx) (fun x hx => (h.gone x hx).2.1) (refl s) (fun _ hx => .inl hx)
    (fun r p' hp' => .inl ?_) (fun k r x hk p hp hid => ?_)
  · rw [hget] at hp'
    obtain ⟨p, hp, rfl⟩ := map_eq_some_iff.mp hp'
    refine ⟨p, hp, ?_⟩
    split
    · exact (hf p).symm
    · rfl
  · refine ⟨if ref = r then f p else p, ?_, ?_⟩
    · show (s.objects.modify ref f)[r]? = _
      rw [hget, hp]
      rfl
    · split
      · exact (hf p).trans hid
      · exact hid

theorem Sound.appended (h : Sound s) (hid : p.id < 0 ∨ s.Free p.id) :
    Sound { s with objects := s.objects ++ [p] } := by
  refine h.onward (Int.le_refl _) rfl (fun _ hx => hx) (fun x hx => (h.gone x hx).2.1) (refl s) (fun _ hx => .inl hx)
    (fun r p' hp' => ?_) (fun k r x hk q hq hqid => ⟨q, ?_, hqid⟩)
  · have hp' : (s.objects ++ [p])[r]? = some p' := hp'
    rw [getElem?_append] at hp'
    split at hp'
    · exact .inl ⟨p', hp', rfl⟩
    have hmem : p' ∈ [p] := mem_of_getElem? hp'
    rw [mem_singleton.mp hmem]
    exact .inr (hid.imp id (fun hfree => ⟨hfree.kept, hfree.drawn, hfree.unreserved⟩))
  · show (s.objects ++ [p])[r]? = some q
    rw [List.getElem?_append_left (List.getElem?_eq_some_iff.mp hq).1]
    exact hq

theorem Sound.identified (h : Sound s) (hx : s.gone x = false) (ref : Nat) : Sound (s.identify x ref) := by
  refine h.same_objects rfl (Int.le_refl _) rfl (fun _ hy => hy) (fun y hy => ?_) (refl s) (fun _ hy => .inl hy)
  have hne : y ≠ x := by
    rintro rfl
    rw [hx] at hy
    cases hy
  show update s.identityMap x (some ref) y = none
  rw [update_of_ne hne]
  exact (h.gone y hy).2.1

theorem Sound.written (h : Sound s) (hx : s.Free x) (stored : Bool) (row : Row δ) : Sound (s.write stored x row) := by
  unfold write
  split
  · refine h.same_objects rfl (Int.le_refl _) rfl (fun _ hy => hy) (fun y hy => (h.gone y hy).2.1) (refl s) (fun y hy => ?_)
    by_cases hne : y = x
    · subst hne
      exact .inr ⟨hx.kept, hx.drawn, hx.unreserved⟩
    have hy : (update s.rows x (some row) y).isSome = true := hy
    rw [update_of_ne hne] at hy
    exact .inl hy
  · exact h

/-! ## Loading -/

theorem Sound.getProfile (h : Sound s) (id : Int) : Sound (s.getProfile id).2 := by
  unfold Repo.getProfile
  split
  · exact h
  split
  · refine h.same_objects rfl (Int.le_refl _) rfl (fun _ hx => hx) (fun x hx => ?_) (refl s) (fun _ hx => .inl hx)
    show update s.identityMap id none x = none
    by_cases hne : x = id
    · rw [hne, update_self]
    · rw [update_of_ne hne]
      exact (h.gone x hx).2.1
  · next row hrow =>
    have hfree : s.Free id := h.rows id (by rw [hrow]; rfl)
    exact (h.appended (.inr hfree)).identified hfree.kept _

theorem Sound.getProfileBatch (h : Sound s) (ids : List Int) : Sound (getProfileBatch ids s).2 := by
  induction ids generalizing s with
  | nil => exact h
  | cons id rest ih => exact ih (h.getProfile id)

/-! ## Drawing -/

theorem Sound.draws (h : Sound s) (n : Nat) (phase : Phase δ) {objects : List (Profile δ)}
    (hphase : ∀ x, phase.reserves x → s.lastId < x ∧ x ≤ s.lastId + n)
    (hsaving : ∀ rows valid, phase ≠ .saving rows valid)
    (hobjects : ∀ (ref : Nat) p', objects[ref]? = some p' →
      s.objects[ref]? = some p' ∨ phase = .adding ref p'.id ∧ s.lastId < p'.id ∧ p'.id ≤ s.lastId + n)
    (hown : ∀ (ref : Nat) x, phase = .adding ref x → ∃ p, objects[ref]? = some p ∧ p.id = x)
    (hkeep : ∀ (ref : Nat) p, s.objects[ref]? = some p → 0 ≤ p.id → objects[ref]? = some p)
    (hadd : ∀ ref x, phase = .adding ref x → ∀ l toAdd firstId gid,
      s.threads l = .addingBatch toAdd firstId gid → ref ∉ toAdd)
    (hbatch : ∀ toAdd firstId gid, phase = .addingBatch toAdd firstId gid → ∀ l ref x,
      s.threads l = .adding ref x → ref ∉ toAdd) :
    Sound { s with lastId := s.lastId + n, objects := objects, threads := update s.threads k phase } := by
  have hcounter := h.counter
  have hthread : ∀ l, update s.threads k phase l = phase ∧ l = k ∨ update s.threads k phase l = s.threads l ∧ l ≠ k := by
    intro l
    by_cases hl : l = k
    · exact .inl ⟨by rw [hl, update_self], hl⟩
    · exact .inr ⟨update_of_ne hl _ _, hl⟩
  have hreserves : ∀ {l x}, (update s.threads k phase l).reserves x →
      l = k ∧ s.lastId < x ∧ x ≤ s.lastId + n ∨ l ≠ k ∧ (s.threads l).reserves x ∧ x ≤ s.lastId := by
    intro l x hx
    obtain ⟨heq, hl⟩ | ⟨heq, hl⟩ := hthread l
    · exact .inl ⟨hl, hphase x (heq ▸ hx)⟩
    · exact .inr ⟨hl, heq ▸ hx, (h.reserved l x (heq ▸ hx)).2.1⟩
  have hold : ∀ {x : Int}, x ≤ s.lastId → (∀ l, ¬ (s.threads l).reserves x) → ∀ l,
    ¬ (update s.threads k phase l).reserves x := by
    intro x hle hfree l hx
    obtain ⟨-, hlt, -⟩ | ⟨-, hin, -⟩ := hreserves hx
    · omega
    · exact hfree l hin
  constructor
  · show 0 ≤ s.lastId + n
    omega
  · intro x hx
    obtain ⟨hrow, hidentity, htomb, hle⟩ := h.gone x hx
    exact ⟨hrow, hidentity, htomb, by show x ≤ s.lastId + n; omega⟩
  · intro x hx
    have hfree := h.rows x hx
    have hle := hfree.drawn
    exact ⟨hfree.kept, by show x ≤ s.lastId + n; omega, hold hle hfree.unreserved⟩
  · intro l x hx
    obtain ⟨-, hlt, hle⟩ | ⟨-, hin, hle⟩ := hreserves hx
    · refine ⟨by omega, hle, ?_⟩
      by_contra hgone
      have := (h.gone x (by simpa using hgone)).2.2.2
      omega
    · have hold := h.reserved l x hin
      exact ⟨hold.1, by show x ≤ s.lastId + n; omega, hold.2.2⟩
  · intro l m x hl hm
    obtain ⟨hlk, hlt, -⟩ | ⟨-, hin, hle⟩ := hreserves hl
    · obtain ⟨hmk, -⟩ | ⟨-, -, hle⟩ := hreserves hm
      · exact hlk.trans hmk.symm
      · omega
    obtain ⟨-, hlt, -⟩ | ⟨-, hin', -⟩ := hreserves hm
    · omega
    · exact h.disjoint l m x hin hin'
  · intro ref p' hp'
    obtain hsame | ⟨hmine, hlt, hle⟩ := hobjects ref p' hp'
    · obtain ⟨hle, hown'⟩ := h.objects ref p' hsame
      refine ⟨by show p'.id ≤ s.lastId + n; omega, fun l hl => ?_⟩
      obtain ⟨-, hlt, -⟩ | ⟨hne, hin, -⟩ := hreserves hl
      · omega
      · exact (update_of_ne hne _ _).trans (hown' l hin)
    · refine ⟨hle, fun l hl => ?_⟩
      obtain ⟨rfl, -⟩ | ⟨-, -, hle'⟩ := hreserves hl
      · exact (update_self _ _ _).trans hmine
      · omega
  · intro l ref x hl
    obtain ⟨heq, -⟩ | ⟨heq, -⟩ := hthread l
    · exact hown ref x (heq.symm.trans hl)
    have hthread' := heq.symm.trans hl
    obtain ⟨p, hp, hid⟩ := h.adding l ref x hthread'
    have hpos : 0 ≤ x := (h.reserved l x (by rw [hthread']; rfl)).1
    exact ⟨p, hkeep ref p hp (hid ▸ hpos), hid⟩
  · intro l m ref x toAdd firstId gid hl hm
    obtain ⟨heq, -⟩ | ⟨heq, -⟩ := hthread l
    · obtain ⟨heq', -⟩ | ⟨heq', -⟩ := hthread m
      · cases heq.symm.trans hl ▸ heq'.symm.trans hm
      · exact hadd ref x (heq.symm.trans hl) m toAdd firstId gid (heq'.symm.trans hm)
    obtain ⟨heq', -⟩ | ⟨heq', -⟩ := hthread m
    · exact hbatch toAdd firstId gid (heq'.symm.trans hm) l ref x (heq.symm.trans hl)
    · exact h.apart l m ref x toAdd firstId gid (heq.symm.trans hl) (heq'.symm.trans hm)
  · intro l rows valid hl row hrow
    obtain ⟨heq, -⟩ | ⟨heq, -⟩ := hthread l
    · exact absurd (heq.symm.trans hl) (hsaving rows valid)
    · obtain ⟨hle, hfree⟩ := h.saving l rows valid (heq.symm.trans hl) row hrow
      exact ⟨by show row.1 ≤ s.lastId + n; omega, hold hle hfree⟩

theorem object_eq_some (h : s.object ref = some p) : s.objects[ref]? = some p :=
  (filter_eq_some_iff.mp h).1

theorem Sound.addProfile (h : Sound s) (gid : Int)
    (hfree : ∀ l toAdd firstId gid, s.threads l = .addingBatch toAdd firstId gid → ref ∉ toAdd) :
    Sound (s.addProfile k ref gid true) := by
  unfold Repo.addProfile
  split
  · exact h
  next p hp =>
  have hp := object_eq_some hp
  split
  · exact h
  have hget : ∀ r, (s.objects.modify ref (fun p => { p with id := s.lastId + 1, gid := gid }))[r]? =
      s.objects[r]?.map (fun p => if ref = r then { p with id := s.lastId + 1, gid := gid } else p) := by
    intro r
    rw [getElem?_modify]
    cases s.objects[r]? <;> by_cases hr : ref = r <;> simp [hr]
  refine h.draws 1 (.adding ref (s.lastId + 1)) ?_ (by simp) ?_ ?_ ?_ ?_ (by simp)
  · rintro x rfl
    exact ⟨by omega, by omega⟩
  · intro r p' hp'
    rw [hget] at hp'
    obtain ⟨q, hq, rfl⟩ := map_eq_some_iff.mp hp'
    by_cases hr : ref = r
    · rw [if_pos hr, hr]
      exact .inr ⟨rfl, by show s.lastId < s.lastId + 1; omega, by show s.lastId + 1 ≤ s.lastId + 1; omega⟩
    · rw [if_neg hr]
      exact .inl hq
  · rintro r x hphase
    cases hphase
    rw [hget, hp]
    simp
  · intro r q hq hpos
    have hr : ref ≠ r := by
      rintro rfl
      rw [hp] at hq
      cases hq
      omega
    rw [hget, hq]
    simp [hr]
  · rintro r x hphase
    cases hphase
    exact hfree

theorem Sound.addProfileBatch (h : Sound s) (k : Nat) (profiles : List Nat) (gid : Int) :
    Sound (s.addProfileBatch k profiles gid true) := by
  unfold Repo.addProfileBatch
  split
  · exact h
  dsimp only
  split
  · exact h
  refine h.draws (profiles.filter (fun ref => (s.object ref).any (fun p => p.id < 0))).length
    (.addingBatch _ (s.lastId + 1) gid) ?_ (by simp) (fun _ _ hp => .inl hp) (by simp) (fun _ _ hp _ => hp) (by simp) ?_
  · rintro x ⟨hge, hlt⟩
    exact ⟨by omega, by omega⟩
  · rintro toAdd firstId gid' hphase l ref x hl hmem
    cases hphase
    have hany := (mem_filter.mp hmem).2
    obtain ⟨p, hp, hid⟩ := h.adding l ref x hl
    have hpos : 0 ≤ x := (h.reserved l x (by rw [hl]; rfl)).1
    cases hobject : s.object ref with
    | none =>
      rw [hobject] at hany
      cases hany
    | some q =>
      rw [hobject] at hany
      have hq := object_eq_some hobject
      rw [hp] at hq
      cases hq
      have hneg : p.id < 0 := of_decide_eq_true hany
      omega

/-! ## Locked sections -/

/-- The ids that a thread had reserved can be written once it is done. -/
theorem Sound.released (h : Sound s) (hx : (s.threads k).reserves x) : (s.goes k .idle).Free x := by
  obtain ⟨-, hle, hkept⟩ := h.reserved k x hx
  refine ⟨hkept, hle, fun l hl => ?_⟩
  have hl : (update s.threads k .idle l).reserves x := hl
  by_cases hlk : l = k
  · rw [hlk, update_self] at hl
    exact hl
  · rw [update_of_ne hlk] at hl
    exact hlk (h.disjoint l k x hl hx)

theorem Sound.addProfileLocked (h : Sound s) {newId : Int} (hfree : s.Free newId)
    (hid : ∀ p, s.objects[ref]? = some p → p.id = newId) (stored : Int → Bool) :
    Sound (s.addProfileLocked ref newId stored) := by
  unfold Repo.addProfileLocked
  split
  · exact h
  next p hp =>
  split
  · exact h
  have hfree' : (s.identify newId ref).Free p.id := by
    rw [hid p hp]
    exact ⟨hfree.kept, hfree.drawn, hfree.unreserved⟩
  exact (h.identified hfree.kept ref).written hfree' _ _

theorem assignIds_keeps (id : Int) (toAdd : List Nat) (s : Repo δ) :
    (assignIds gid id toAdd s).threads = s.threads ∧ (assignIds gid id toAdd s).gone = s.gone ∧
    (assignIds gid id toAdd s).lastId = s.lastId ∧ (assignIds gid id toAdd s).rows = s.rows := by
  induction toAdd generalizing id s with
  | nil => exact ⟨rfl, rfl, rfl, rfl⟩
  | cons ref rest ih => exact ih (id + 1) _

theorem assignIds_other (id : Int) (s : Repo δ) {r : Nat} (hr : r ∉ toAdd) :
    (assignIds gid id toAdd s).objects[r]? = s.objects[r]? := by
  induction toAdd generalizing id s with
  | nil => rfl
  | cons ref rest ih =>
    have hne := ne_of_not_mem_cons hr
    have hrest := not_mem_of_not_mem_cons hr
    rw [assignIds, ih (id + 1) _ hrest]
    show (s.objects.modify ref _)[r]? = _
    rw [getElem?_modify_ne _ _ (Ne.symm hne)]

theorem assignIds_id (id : Int) (s : Repo δ) {r : Nat} (hr : r ∈ toAdd)
    (hp : (assignIds gid id toAdd s).objects[r]? = some p) : id ≤ p.id ∧ p.id < id + toAdd.length := by
  induction toAdd generalizing id s with
  | nil => cases hr
  | cons ref rest ih =>
    rw [length_cons]
    rw [assignIds] at hp
    by_cases hrest : r ∈ rest
    · have := ih (id + 1) _ hrest hp
      omega
    obtain rfl : r = ref := (mem_cons.mp hr).resolve_right hrest
    rw [assignIds_other gid (id + 1) _ hrest] at hp
    have hp : (s.objects.modify r (fun p => { p with id := id, gid := gid }))[r]? = some p := hp
    rw [getElem?_modify_eq] at hp
    obtain ⟨q, -, rfl⟩ := map_eq_some_iff.mp hp
    show id ≤ id ∧ id < _
    omega

variable (h : Sound s)

include h

theorem Sound.assignIds (gid : Int) {id : Int}
    (hfree : ∀ x, id ≤ x → x < id + toAdd.length → s.Free x)
    (hapart : ∀ k ref x, s.threads k = .adding ref x → ref ∉ toAdd) : Sound (assignIds gid id toAdd s) := by
  induction toAdd generalizing id s with
  | nil => exact h
  | cons ref rest ih =>
    have hlen : ((ref :: rest).length : Int) = rest.length + 1 := by simp
    have hid : s.Free id := hfree id (Int.le_refl _) (by omega)
    have hmodified : Sound { s with objects := s.objects.modify ref (fun p => { p with id := id, gid := gid }) } := by
      refine h.onward (Int.le_refl _) rfl (fun _ hx => hx) (fun x hx => (h.gone x hx).2.1) (refl s)
        (fun _ hx => .inl hx) (fun r p' hp' => ?_) (fun k r x hk p hp hpid => ⟨p, ?_, hpid⟩)
      · have hp' : (s.objects.modify ref (fun p => { p with id := id, gid := gid }))[r]? = some p' := hp'
        by_cases hr : ref = r
        · subst hr
          rw [getElem?_modify_eq] at hp'
          obtain ⟨q, -, rfl⟩ := map_eq_some_iff.mp hp'
          exact .inr (.inr ⟨hid.kept, hid.drawn, hid.unreserved⟩)
        · rw [getElem?_modify_ne _ _ hr] at hp'
          exact .inl ⟨p', hp', rfl⟩
      · have hne : ref ≠ r := by
          rintro rfl
          exact hapart k ref x hk (mem_cons_self ..)
        rw [getElem?_modify_ne _ _ hne]
        exact hp
    refine ih (hmodified.identified hid.kept ref) (fun x hge hlt => ?_)
      (fun k r x hk hmem => hapart k r x hk (.tail _ hmem))
    have hx := hfree x (by omega) (by omega)
    exact ⟨hx.kept, hx.drawn, hx.unreserved⟩

theorem Sound.insertRows (stored : Int → Bool) {refs : List Nat}
    (hfree : ∀ ref ∈ refs, ∀ p, s.objects[ref]? = some p → s.Free p.id) : Sound (refs.foldl (insertRow stored) s) := by
  induction refs generalizing s with
  | nil => exact h
  | cons ref rest ih =>
    have hhead : Sound (insertRow stored s ref) ∧ (insertRow stored s ref).objects = s.objects ∧
        ∀ x, s.Free x → (insertRow stored s ref).Free x := by
      unfold insertRow
      split
      · exact ⟨h, rfl, fun _ hx => hx⟩
      next p hp =>
      refine ⟨h.written (hfree ref (mem_cons_self ..) p hp) _ _, ?_, fun x hx => ?_⟩
      · unfold write
        split <;> rfl
      unfold write
      split
      · exact ⟨hx.kept, hx.drawn, hx.unreserved⟩
      · exact hx
    refine ih hhead.1 (fun r hr p hp => hhead.2.2 p.id (hfree r (.tail _ hr) p ?_))
    rw [← hp, hhead.2.1]

theorem Sound.addProfileBatchLocked {firstId : Int} (gid : Int)
    (hfree : ∀ x, firstId ≤ x → x < firstId + toAdd.length → s.Free x)
    (hapart : ∀ k ref x, s.threads k = .adding ref x → ref ∉ toAdd) (stored : Int → Bool) :
    Sound (s.addProfileBatchLocked toAdd firstId gid stored) := by
  unfold Repo.addProfileBatchLocked
  split
  · exact h
  obtain ⟨hthreads, hgone, hlast, -⟩ := assignIds_keeps gid firstId toAdd s
  refine (h.assignIds gid hfree hapart).insertRows stored (fun ref href p hp => ?_)
  obtain ⟨hge, hlt⟩ := assignIds_id gid firstId s href hp
  have hx := hfree p.id hge hlt
  exact ⟨hgone ▸ hx.kept, hlast ▸ hx.drawn, hthreads ▸ hx.unreserved⟩

theorem Sound.save (hfree : ∀ k id, s.threads k ≠ .adding ref id) (stored : Bool) :
    Sound (s.save ref stored) := by
  unfold Repo.save
  split
  · exact h
  next p hp =>
  split
  · exact h
  next hkept =>
  have htomb : s.tombstones p.id = false := by
    cases htomb : s.tombstones p.id with
    | false => rfl
    | true => simp [htomb] at hkept
  have hgone : s.gone p.id = false := by
    by_contra hgone
    have := (h.gone p.id (by simpa using hgone)).2.2.1
    rw [htomb] at this
    cases this
  obtain ⟨hle, hown⟩ := h.objects ref p (object_eq_some hp)
  have hx : s.Free p.id := ⟨hgone, hle, fun k hk => hfree k p.id (hown k hk)⟩
  refine (h.written hx stored p.toRow).identified ?_ ref
  unfold write
  split <;> exact hgone

theorem Sound.goesSaving (k : Nat) {valid : List Nat}
    (hrows : ∀ row ∈ rows, row.1 ≤ s.lastId ∧ ∀ l, ¬ (s.threads l).reserves row.1) :
    Sound (s.goes k (.saving rows valid)) := by
  have hthread : ∀ l, (s.goes k (.saving rows valid)).threads l = .saving rows valid ∨
      (s.goes k (.saving rows valid)).threads l = s.threads l := by
    intro l
    by_cases hl : l = k
    · subst hl
      exact .inl (update_self _ _ _)
    · exact .inr (update_of_ne hl _ _)
  have hreserves : ∀ {l x}, ((s.goes k (.saving rows valid)).threads l).reserves x →
      (s.goes k (.saving rows valid)).threads l = s.threads l ∧ (s.threads l).reserves x := by
    intro l x hx
    obtain heq | heq := hthread l
    · rw [heq] at hx
      exact absurd hx id
    · exact ⟨heq, heq ▸ hx⟩
  have hother : ∀ {l phase}, (s.goes k (.saving rows valid)).threads l = phase →
    phase ≠ .saving rows valid → s.threads l = phase := by
    intro l phase hl hne
    obtain heq | heq := hthread l
    · exact absurd (hl.symm.trans heq) hne
    · exact heq.symm.trans hl
  refine ⟨h.counter, h.gone, fun x hx => ?_, fun l x hx => h.reserved l x (hreserves hx).2,
    fun l m x hl hm => h.disjoint l m x (hreserves hl).2 (hreserves hm).2, fun ref p hp => ?_, fun l ref x hl => ?_,
    fun l m ref x toAdd firstId gid hl hm => ?_, fun l rows' valid' hl row hrow => ?_⟩
  · have hfree := h.rows x hx
    exact ⟨hfree.kept, hfree.drawn, fun l hl => hfree.unreserved l (hreserves hl).2⟩
  · obtain ⟨hle, hown⟩ := h.objects ref p hp
    exact ⟨hle, fun l hl => (hreserves hl).1.trans (hown l (hreserves hl).2)⟩
  · exact h.adding l ref x (hother hl (by simp))
  · exact h.apart l m ref x toAdd firstId gid (hother hl (by simp)) (hother hm (by simp))
  · have hrow' : row.1 ≤ s.lastId ∧ ∀ m, ¬ (s.threads m).reserves row.1 := by
      obtain heq | heq := hthread l
      · cases heq.symm.trans hl
        exact hrows row hrow
      · exact h.saving l rows' valid' (heq.symm.trans hl) row hrow
    exact ⟨hrow'.1, fun m hm => hrow'.2 m (hreserves hm).2⟩

theorem Sound.saveBatch (k : Nat) {profiles : List Nat}
    (hfree : ∀ ref ∈ profiles, ∀ k id, s.threads k ≠ .adding ref id) : Sound (s.saveBatch k profiles) := by
  unfold Repo.saveBatch
  dsimp only
  split
  · exact h
  refine h.goesSaving k (fun row hrow => ?_)
  obtain ⟨ref, href, hrow⟩ := mem_filterMap.mp hrow
  obtain ⟨p, hp, rfl⟩ := map_eq_some_iff.mp hrow
  obtain ⟨hle, hown⟩ := h.objects ref p hp
  exact ⟨hle, fun l hl => hfree ref (mem_filter.mp href).1 l p.id (hown l hl)⟩

theorem Sound.kept (hx : ¬ s.tombstones x = true) : s.gone x = false := by
  by_contra hgone
  exact hx (h.gone x (by simpa using hgone)).2.2.1

theorem Sound.replaceRows (stored : Int → Bool)
    (hrows : ∀ row ∈ rows, row.1 ≤ s.lastId ∧ ∀ l, ¬ (s.threads l).reserves row.1) :
    Sound (rows.foldl (replaceRow stored) s) := by
  induction rows generalizing s with
  | nil => exact h
  | cons row rest ih =>
    have hrow := hrows row (mem_cons_self ..)
    have hhead : Sound (replaceRow stored s row) ∧ (replaceRow stored s row).lastId = s.lastId ∧
        (replaceRow stored s row).threads = s.threads := by
      unfold replaceRow
      split
      · exact ⟨h, rfl, rfl⟩
      next htomb =>
      refine ⟨h.written ⟨h.kept htomb, hrow.1, hrow.2⟩ _ _, ?_, ?_⟩ <;>
      · unfold write
        split <;> rfl
    refine ih hhead.1 (fun r hr => ?_)
    rw [hhead.2.1, hhead.2.2]
    exact hrows r (.tail _ hr)

theorem Sound.saveBatchLocked (valid : List Nat)
    (hrows : ∀ row ∈ rows, row.1 ≤ s.lastId ∧ ∀ l, ¬ (s.threads l).reserves row.1) (stored : Int → Bool) :
    Sound (s.saveBatchLocked rows valid stored) := by
  refine foldl_keeps identifySaved Sound (fun t ref ht => ?_) valid _ (h.replaceRows stored hrows)
  unfold identifySaved
  split
  · exact ht
  split
  · exact ht
  · next htomb => exact ht.identified (ht.kept htomb) ref

theorem Sound.updateTraffic (id dl up : Int) : Sound (s.updateTraffic id dl up) := by
  refine h.same_objects rfl (Int.le_refl _) rfl (fun _ hx => hx) (fun x hx => (h.gone x hx).2.1) (refl s) (fun x hx => .inl ?_)
  have hx : (update s.rows id ((s.rows id).map (fun row => { row with dl := dl, up := up })) x).isSome = true := hx
  by_cases hne : x = id
  · subst hne
    rwa [update_self, isSome_map] at hx
  · rw [update_of_ne hne] at hx
    exact hx

theorem Sound.saveTrafficBatch (profiles : List Nat) (ok : Bool) : Sound (s.saveTrafficBatch profiles ok) := by
  unfold Repo.saveTrafficBatch
  split
  · refine foldl_keeps _ Sound (fun t ref ht => ?_) profiles s h
    split
    · exact ht
    split
    · exact ht
    · exact ht.updateTraffic _ _ _
  · exact h

omit h

/-! ## Deleting -/

theorem Sound.remove (h : Sound s) {dead known : Int → Bool}
    (hknown : ∀ x, dead x = true → (s.rows x).isSome = true → known x = true) : Sound (s.remove dead known) := by
  have hgone : ∀ {x}, s.gone x = false → (s.rows x).isSome = false ∨ dead x = false →
    (s.remove dead known).gone x = false := by
    intro x hkept hx
    show (dead x && (s.rows x).isSome || s.gone x) = false
    obtain hx | hx := hx <;> simp [hx, hkept]
  refine ⟨h.counter, fun x hx => ?_, fun x hx => ?_, fun k x hx => ?_, h.disjoint, h.objects,
    h.adding, h.apart, h.saving⟩
  · have hx : (dead x && (s.rows x).isSome || s.gone x) = true := hx
    show (if dead x then none else s.rows x) = none ∧ (if known x then none else s.identityMap x) = none ∧
      (known x || s.tombstones x) = true ∧ x ≤ s.lastId
    obtain hdead | hgone := or_eq_true_iff.mp hx
    · obtain ⟨hdead, hrow⟩ := and_eq_true_iff.mp hdead
      have hk := hknown x hdead hrow
      exact ⟨if_pos hdead, if_pos hk, by rw [hk]; rfl, (h.rows x hrow).drawn⟩
    obtain ⟨hrow, hidentity, htomb, hle⟩ := h.gone x hgone
    refine ⟨?_, ?_, by rw [htomb, Bool.or_true], hle⟩
    · split
      · rfl
      · exact hrow
    · split
      · rfl
      · exact hidentity
  · have hx : (if dead x then none else s.rows x).isSome = true := hx
    split at hx
    · cases hx
    next hdead =>
    have hfree := h.rows x hx
    exact ⟨hgone hfree.kept (.inr (by simpa using hdead)), hfree.drawn, hfree.unreserved⟩
  · obtain ⟨hpos, hle, hkept⟩ := h.reserved k x hx
    refine ⟨hpos, hle, hgone hkept (.inl ?_)⟩
    by_contra hrow
    exact (h.rows x (eq_true_of_ne_false hrow)).unreserved k hx

theorem Sound.relisted (h : Sound s) (groups : Int → Option (List Int)) : Sound { s with groups := groups } :=
  h.same_objects rfl (Int.le_refl _) rfl (fun _ hx => hx) (fun x hx => (h.gone x hx).2.1) (refl s) (fun _ hx => .inl hx)

theorem Sound.deleteGroupLocked (h : Sound s) (gid : Int) (listed : List Int) : Sound (s.deleteGroupLocked gid listed) :=
  (h.remove (fun _ hx _ => hx)).relisted _

theorem Sound.batchDeleteProfiles (h : Sound s) (k : Nat) (ids : List Int) (stop : Bool) (started : Int) :
    Sound (s.batchDeleteProfiles k ids stop started) := by
  unfold Repo.batchDeleteProfiles
  generalize (if ids.contains started && !stop then ids.filter (fun id => id != started) else ids) = ids
  dsimp only
  split
  · exact h
  · refine (h.getProfileBatch _).goes k ?_
    trivial

/-! ## Runs -/

/-- A batch delete found the rows that it deletes; an object is not saved while its own add runs, nor
added twice at once; the counter answers. -/
def Careful (s : Repo δ) : Event δ → Prop
  | .addProfile _ ref _ drawn => drawn = true ∧ ∀ l toAdd firstId gid, s.threads l = .addingBatch toAdd firstId gid → ref ∉ toAdd
  | .addProfileBatch _ _ _ drawn => drawn = true
  | .save ref _ => ∀ k id, s.threads k ≠ .adding ref id
  | .saveBatch _ profiles => ∀ ref ∈ profiles, ∀ k id, s.threads k ≠ .adding ref id
  | .locked k ok _ => ∀ ids existing, s.threads k = .deleting ids existing → ok = true → ∀ x ∈ ids, (s.rows x).isSome = true → x ∈ existing
  | _ => True

theorem Sound.locked (h : Sound s) (k : Nat) (ok : Bool) (stored : Int → Bool)
    (hdelete : ∀ ids existing, s.threads k = .deleting ids existing → ok = true → ∀ x ∈ ids,
      (s.rows x).isSome = true → x ∈ existing) :
    Sound ((s.goes k .idle).locked ok stored (s.threads k)) := by
  have hidle : Sound (s.goes k .idle) := h.goes k trivial
  have hthread : ∀ {l phase}, (s.goes k .idle).threads l = phase → phase ≠ .idle → s.threads l = phase := by
    intro l phase hl hne
    by_cases hlk : l = k
    · subst hlk
      exact absurd (hl.symm.trans (update_self _ _ _)) hne
    · exact (update_of_ne hlk _ _).symm.trans hl
  cases hphase : s.threads k with
  | idle => exact hidle
  | adding ref id =>
    refine hidle.addProfileLocked (h.released (by rw [hphase]; rfl)) (fun p hp => ?_) stored
    obtain ⟨q, hq, hid⟩ := h.adding k ref id hphase
    cases hq.symm.trans hp
    exact hid
  | addingBatch toAdd firstId gid =>
    refine hidle.addProfileBatchLocked gid (fun x hge hlt =>
      h.released (by rw [hphase]; exact ⟨hge, hlt⟩)) (fun l ref x hl => ?_) stored
    exact h.apart l k ref x toAdd firstId gid (hthread hl (by simp)) hphase
  | saving rows valid =>
    refine hidle.saveBatchLocked valid (fun row hrow => ?_) stored
    obtain ⟨hle, hfree⟩ := h.saving k rows valid hphase row hrow
    have honward : Onward s (s.goes k .idle) := Onward.goes s k (by trivial)
    exact ⟨hle, fun l hl => hfree l (honward.reserves hl).2⟩
  | savingTraffic id dl up =>
    unfold Repo.locked
    dsimp only
    split
    · exact hidle.updateTraffic id dl up
    · exact hidle
  | deleting ids existing =>
    unfold Repo.locked
    dsimp only
    split
    · next hok =>
      refine hidle.remove (fun x hx hrow => ?_)
      exact contains_iff_mem.mpr (hdelete ids existing hphase hok x (contains_iff_mem.mp hx) hrow)
    · exact hidle
  | deletingGroup gid listed =>
    unfold Repo.locked
    dsimp only
    split
    · exact hidle.deleteGroupLocked gid listed
    · exact hidle

/-- **One step.** -/
theorem Sound.step (h : Sound s) {e : Event δ} (hcareful : Careful s e) : Sound (s.step e) := by
  cases e with
  | newProfile data => exact h.appended (.inl (by show (-1 : Int) < 0; omega))
  | edit ref data gid dl up => exact h.modified ref (fun _ => rfl)
  | drop ref => exact h.modified ref (fun _ => rfl)
  | relist gid listing => exact h.relisted _
  | addProfile k ref gid drawn =>
    obtain ⟨rfl, hfree⟩ := hcareful
    unfold Repo.step
    dsimp only
    split
    · exact h.addProfile gid hfree
    · exact h
  | addProfileBatch k profiles gid drawn =>
    obtain rfl : drawn = true := hcareful
    unfold Repo.step
    dsimp only
    split
    · exact h.addProfileBatch k profiles gid
    · exact h
  | save ref stored => exact h.save hcareful stored
  | saveBatch k profiles =>
    unfold Repo.step
    dsimp only
    split
    · exact h.saveBatch k hcareful
    · exact h
  | saveTraffic k ref =>
    unfold Repo.step Repo.saveTraffic
    dsimp only
    split
    · split
      · exact h
      split
      · exact h
      · exact h.goes k trivial
    · exact h
  | saveTrafficBatch profiles ok => exact h.saveTrafficBatch profiles ok
  | getProfile id => exact h.getProfile id
  | getProfileBatch ids => exact h.getProfileBatch ids
  | batchDeleteProfiles k ids stop started =>
    unfold Repo.step
    dsimp only
    split
    · exact h.batchDeleteProfiles k ids stop started
    · exact h
  | deleteGroup k gid =>
    unfold Repo.step
    dsimp only
    split
    · exact h.goes k trivial
    · exact h
  | locked k ok stored => exact h.locked k ok stored hcareful

/-- The repository as it is when the program starts. -/
def start (rows : Int → Option (Row δ)) (lastId : Int) (groups : Int → Option (List Int)) :
    Repo δ := { rows, lastId, groups }

theorem Sound.start {rows : Int → Option (Row δ)} {lastId : Int} (groups : Int → Option (List Int)) (hlast : 0 ≤ lastId)
    (hrows : ∀ x, (rows x).isSome = true → x ≤ lastId) : Sound (start rows lastId groups) where
  counter := hlast
  gone := fun _ hx => absurd hx false_ne_true
  rows := fun x hx => ⟨rfl, hrows x hx, fun _ hk => hk⟩
  reserved := fun _ _ hx => absurd hx id
  disjoint := fun _ _ _ hx => absurd hx id
  objects := fun _ _ hp => by cases hp
  adding := fun _ _ _ hk => by cases hk
  apart := fun _ _ _ _ _ _ _ hk => by cases hk
  saving := fun _ _ _ hk => by cases hk

/-! ## What was deleted -/

/-- A row that is not there any more was deleted, and that is remembered. -/
def Recorded (s s' : Repo δ) : Prop :=
  ∀ x, (s.gone x = true → s'.gone x = true) ∧ ((s.rows x).isSome = true → s'.rows x = none → s'.gone x = true)

theorem Recorded.of_rows (hgone : s'.gone = s.gone) (hrows : ∀ x, (s.rows x).isSome = true → (s'.rows x).isSome = true) :
    Recorded s s' := by
  refine fun x => ⟨fun hx => hgone ▸ hx, fun hx hnone => ?_⟩
  have hx' := hrows x hx
  rw [hnone] at hx'
  cases hx'

open Recorded

theorem Recorded.refl (s : Repo δ) : Recorded s s := of_rows rfl (fun _ hx => hx)

theorem Recorded.trans {t u : Repo δ} (hst : Recorded s t) (htu : Recorded t u) : Recorded s u := by
  refine fun x => ⟨fun hx => (htu x).1 ((hst x).1 hx), fun hx hnone => ?_⟩
  cases hrow : t.rows x with
  | none => exact (htu x).1 ((hst x).2 hx hrow)
  | some row => exact (htu x).2 (by rw [hrow]; rfl) hnone

theorem Recorded.foldl {α : Type} {step : Repo δ → α → Repo δ} (h : ∀ s a, Recorded s (step s a))
    (l : List α) (s : Repo δ) :
    Recorded s (l.foldl step s) :=
  foldl_keeps step (Recorded s) (fun t a ht => ht.trans (h t a)) l s (refl s)

theorem Recorded.write (s : Repo δ) (stored : Bool) (id : Int) (row : Row δ) : Recorded s (s.write stored id row) := by
  unfold Repo.write
  split
  · refine of_rows rfl (fun x hx => ?_)
    show (update s.rows id (some row) x).isSome = true
    by_cases hne : x = id
    · rw [hne, update_self]
      rfl
    · rw [update_of_ne hne]
      exact hx
  · exact refl s

theorem Recorded.updateTraffic (s : Repo δ) (id dl up : Int) : Recorded s (s.updateTraffic id dl up) := by
  refine of_rows rfl (fun x hx => ?_)
  show (update s.rows id ((s.rows id).map (fun row => { row with dl := dl, up := up })) x).isSome = true
  by_cases hne : x = id
  · rw [hne, update_self, isSome_map, ← hne]
    exact hx
  · rw [update_of_ne hne]
    exact hx

theorem Recorded.assignIds (id : Int) (toAdd : List Nat) (s : Repo δ) : Recorded s (assignIds gid id toAdd s) := by
  obtain ⟨-, hgone, -, hrows⟩ := assignIds_keeps gid id toAdd s
  exact of_rows hgone (fun x hx => hrows ▸ hx)

theorem Recorded.getProfile (s : Repo δ) (id : Int) : Recorded s (s.getProfile id).2 := by
  unfold Repo.getProfile
  split
  · exact refl s
  split
  · exact of_rows rfl (fun _ hx => hx)
  · exact of_rows rfl (fun _ hx => hx)

theorem Recorded.getProfileBatch (ids : List Int) (s : Repo δ) : Recorded s (getProfileBatch ids s).2 := by
  induction ids generalizing s with
  | nil => exact refl s
  | cons id rest ih => exact (getProfile s id).trans (ih _)

theorem Recorded.batchDeleteProfiles (s : Repo δ) (k : Nat) (ids : List Int) (stop : Bool) (started : Int) :
    Recorded s (s.batchDeleteProfiles k ids stop started) := by
  unfold Repo.batchDeleteProfiles
  generalize (if ids.contains started && !stop then ids.filter (fun id => id != started) else ids) = ids
  dsimp only
  split
  · exact refl s
  · exact getProfileBatch ids s

theorem Recorded.remove (s : Repo δ) (dead known : Int → Bool) : Recorded s (s.remove dead known) := by
  refine fun x => ⟨fun hx => ?_, fun hx hnone => ?_⟩
  · show (dead x && (s.rows x).isSome || s.gone x) = true
    rw [hx, Bool.or_true]
  have hnone : (if dead x then none else s.rows x) = none := hnone
  show (dead x && (s.rows x).isSome || s.gone x) = true
  split at hnone
  · next hdead => rw [hdead, hx]; rfl
  · rw [hnone] at hx
    cases hx

theorem Recorded.locked (s : Repo δ) (ok : Bool) (stored : Int → Bool) (phase : Phase δ) :
    Recorded s (s.locked ok stored phase) := by
  cases phase with
  | idle => exact refl s
  | adding ref id =>
    unfold Repo.locked Repo.addProfileLocked
    dsimp only
    split
    · exact refl s
    split
    · exact refl s
    · exact (of_rows rfl (fun _ hx => hx)).trans (write (s.identify id ref) _ _ _)
  | addingBatch toAdd firstId gid =>
    unfold Repo.locked Repo.addProfileBatchLocked
    dsimp only
    split
    · exact refl s
    refine (assignIds gid firstId toAdd s).trans (foldl (fun t ref => ?_) toAdd _)
    unfold insertRow
    split
    · exact refl t
    · exact write _ _ _ _
  | saving rows valid =>
    refine (foldl (fun t row => ?_) rows s).trans (foldl (fun t ref => ?_) valid _)
    · unfold replaceRow
      split
      · exact refl t
      · exact write _ _ _ _
    · unfold identifySaved
      split
      · exact refl t
      split
      · exact refl t
      · exact of_rows rfl (fun _ hx => hx)
  | savingTraffic id dl up =>
    unfold Repo.locked
    dsimp only
    split
    · exact updateTraffic s id dl up
    · exact refl s
  | deleting ids existing =>
    unfold Repo.locked
    dsimp only
    split
    · exact remove s _ _
    · exact refl s
  | deletingGroup gid listed =>
    unfold Repo.locked
    dsimp only
    split
    · intro x
      exact remove s (fun id => listed.contains id || (s.rows id).any (fun (row : Row δ) => row.gid == gid))
        (fun id => listed.contains id || (s.rows id).any (fun (row : Row δ) => row.gid == gid)) x
    · exact refl s

theorem Recorded.step (s : Repo δ) (e : Event δ) : Recorded s (s.step e) := by
  have hsame : ∀ t : Repo δ, t.gone = s.gone → t.rows = s.rows → Recorded s t :=
    fun t hgone hrows => of_rows hgone (fun x hx => hrows ▸ hx)
  cases e with
  | newProfile | edit | drop | relist => exact hsame _ rfl rfl
  | addProfile k ref gid drawn =>
    unfold Repo.step Repo.addProfile Repo.newProfileIDRange
    dsimp only
    split
    · split
      · exact refl s
      split
      · exact refl s
      · cases drawn <;> exact hsame _ rfl rfl
    · exact refl s
  | addProfileBatch k profiles gid drawn =>
    unfold Repo.step Repo.addProfileBatch Repo.newProfileIDRange
    dsimp only
    split
    · split
      · exact refl s
      split
      · exact refl s
      · cases drawn <;> exact hsame _ rfl rfl
    · exact refl s
  | save ref stored =>
    unfold Repo.step Repo.save
    dsimp only
    split
    · exact refl s
    split
    · exact refl s
    · exact (write s _ _ _).trans (of_rows rfl (fun _ hx => hx))
  | saveBatch k profiles =>
    unfold Repo.step Repo.saveBatch
    dsimp only
    split
    · split
      · exact refl s
      · exact hsame _ rfl rfl
    · exact refl s
  | saveTraffic k ref =>
    unfold Repo.step Repo.saveTraffic
    dsimp only
    split
    · split
      · exact refl s
      split
      · exact refl s
      · exact hsame _ rfl rfl
    · exact refl s
  | saveTrafficBatch profiles ok =>
    unfold Repo.step Repo.saveTrafficBatch
    dsimp only
    split
    · refine foldl (fun t ref => ?_) profiles s
      split
      · exact refl t
      split
      · exact refl t
      · exact updateTraffic t _ _ _
    · exact refl s
  | getProfile id => exact getProfile s id
  | getProfileBatch ids => exact getProfileBatch ids s
  | batchDeleteProfiles k ids stop started =>
    unfold Repo.step
    dsimp only
    split
    · exact batchDeleteProfiles s k ids stop started
    · exact refl s
  | deleteGroup k gid =>
    unfold Repo.step Repo.deleteGroup
    dsimp only
    split
    · exact hsame _ rfl rfl
    · exact refl s
  | locked k ok stored => exact (hsame (s.goes k .idle) rfl rfl).trans (locked _ ok stored _)

theorem Sound.getProfile_gone (h : Sound s) {id : Int} (hgone : s.gone id = true) : (s.getProfile id).1 = none := by
  obtain ⟨hrow, hidentity, -⟩ := h.gone id hgone
  unfold Repo.getProfile
  rw [hidentity, hrow]
  rfl

theorem Sound.getProfileBatch_gone (h : Sound s) {id : Int} (hgone : s.gone id = true) (ids : List Int) (ref : Nat) :
    (id, ref) ∉ (Repo.getProfileBatch ids s).1 := by
  induction ids generalizing s with
  | nil => exact not_mem_nil
  | cons other rest ih =>
    intro hmem
    obtain hhead | hrest := mem_append.mp hmem
    · obtain ⟨found, hfound, heq⟩ := mem_map.mp hhead
      cases heq
      have hfound : ref ∈ (s.getProfile id).1.toList := hfound
      rw [h.getProfile_gone hgone] at hfound
      cases hfound
    · exact ih (h.getProfile other) ((Recorded.getProfile s other id).1 hgone) hrest

/-- **A profile that was deleted stays deleted** where deletes know what they delete. -/
theorem profiles_contract {rows : Int → Option (Row δ)} {lastId : Int}
    (groups : Int → Option (List Int)) (hlast : 0 ≤ lastId)
    (hrows : ∀ x, (rows x).isSome = true → x ≤ lastId) (first deleting later : List (Event δ))
    (hcareful : AllMeet Repo.step Careful (start rows lastId groups) (first ++ deleting ++ later)) {id : Int}
    (hthere : ((first.foldl Repo.step (start rows lastId groups)).rows id).isSome = true)
    (hdeleted : ((first ++ deleting).foldl Repo.step (start rows lastId groups)).rows id = none) :
    let s := (first ++ deleting ++ later).foldl step (start rows lastId groups)
    s.rows id = none ∧ (s.getProfile id).1 = none ∧ ∀ ids ref, (id, ref) ∉ (getProfileBatch ids s).1 := by
  intro s
  have hsound : Sound s := hcareful.keeps (fun _ _ hc hs => hs.step hc) (Sound.start groups hlast hrows)
  have hgone : s.gone id = true := by
    rw [foldl_append] at hdeleted
    have hmiddle := (Recorded.foldl Recorded.step deleting _ id).2 hthere hdeleted
    have hend := (Recorded.foldl Recorded.step later _ id).1 hmiddle
    show ((first ++ deleting ++ later).foldl step (start rows lastId groups)).gone id = true
    rwa [foldl_append, foldl_append]
  exact ⟨(hsound.gone id hgone).1, hsound.getProfile_gone hgone,
    fun ids ref => hsound.getProfileBatch_gone hgone ids ref⟩

/-- One stored server, in the group 0. -/
def oneRow : Int → Option (Row String) := fun id => if id = 1 then some { gid := 0, data := "server" } else none

def oneGroup : Int → Option (List Int) := fun gid => if gid = 0 then some [1] else none

theorem profiles_contract_saved :
    let s := ([.getProfile 1] ++ [.deleteGroup 0 0, .locked 0 true (fun _ => true)] ++
      [.save 0 true] : List (Event String)).foldl
      step (start oneRow 1 oneGroup)
    s.rows 1 = none ∧ (s.getProfile 1).1 = none ∧ ∀ ids ref, (1, ref) ∉ (getProfileBatch ids s).1 := by
  refine profiles_contract oneGroup (by decide) (fun x hx => ?_) [.getProfile 1] [.deleteGroup 0 0,
    .locked 0 true (fun _ => true)]
    [.save 0 true] ⟨trivial, trivial, ?_, ?_, trivial⟩ (by decide) (by decide)
  · unfold oneRow at hx
    split at hx
    · omega
    · cases hx
  · intro ids existing hthread
    cases hthread
  · intro k id hthread
    have hthread : update (update (fun _ => Phase.idle) 0 (.deletingGroup 0 [1])) 0 .idle k =
      Phase.adding 0 id := hthread
    rw [update_idem] at hthread
    by_cases hk : k = 0
    · rw [hk, update_self] at hthread
      cases hthread
    · rw [update_of_ne hk] at hthread
      cases hthread

/-- A batch delete that looked for the id before the add stored its row. -/
theorem unknown_delete_comes_back :
    ∃ (first deleting later : List (Event String)) (id : Int),
      ((first.foldl step (start (fun _ => none) 0 oneGroup)).rows id).isSome = true ∧
      ((first ++ deleting).foldl step (start (fun _ => none) 0 oneGroup)).rows id = none ∧
      (((first ++ deleting).foldl step (start (fun _ => none) 0 oneGroup)).getProfile id).1 = some 0 ∧
      (((first ++ deleting ++ later).foldl step (start (fun _ => none) 0 oneGroup)).rows id).isSome = true :=
  ⟨[.newProfile "server", .addProfile 0 0 0 true, .batchDeleteProfiles 1 [1] true (-1), .locked 0 true (fun _ => true)],
    [.locked 1 true (fun _ => true)], [.save 0 true], 1, by decide⟩

end Repo

end Waterdisco.ProfilesRepo
