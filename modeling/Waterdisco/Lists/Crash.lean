import Waterdisco.Lib.Runs
import Waterdisco.Lists.Tables

/-!
# A call killed between two transactions

A call alone makes one transaction after the other; a kill cuts it after any of
them, and the next start runs `createTables`.

    Wf db  →  every list reads as before the call, or every list reads as after
    the completed call; no row of another generation than the live one is left
                                                            (killed_then_started)

The invariant is `Ready`: what a call has still to do fits the tables.
-/

namespace Waterdisco.Lists

/-- A call as seen from outside: its list, what readers see of it before and after,
and whether its header stays. -/
structure Plan where
  target : Int
  before : List Entry
  after : List Entry
  fixed : Bool

/-- What a purge is followed by fits the tables. -/
def NextReady (plan : Plan) (db : Db) (keep : Int) : Next → Prop
  | .stage current entries =>
    keep = current ∧ generation? db plan.target = some current ∧ entries = plan.after ∧ Distinct entries
  | .finish => liveEntries db plan.target = plan.after
  | .discard _ result =>
    plan.fixed = false ∧ (plan.before = [] ∨ plan.after = []) ∧
      (result = true → liveEntries db plan.target = plan.after ∧ plan.after = [])

/-- What a call has still to do fits the tables. -/
def Ready (plan : Plan) (db : Db) (c : Call) : Prop :=
  match c.pc with
  | .replace entries => c.id = plan.target ∧ entries = plan.after ∧ Distinct entries
  | .clear => c.id = plan.target ∧ plan.after = []
  | .delete _ => c.id = plan.target ∧ plan.after = [] ∧ plan.fixed = false
  | .add _ _ entries =>
    plan.target = db.ipListLastId + 1 ∧ liveEntries db plan.target = plan.before ∧ entries = plan.after ∧
      Distinct entries ∧ plan.fixed = false
  | .copy sourceId =>
    plan.target = db.ipListLastId + 1 ∧ liveEntries db plan.target = plan.before ∧
      plan.after = liveEntries db sourceId ∧ plan.fixed = false
  | .findStale keep next => c.id = plan.target ∧ NextReady plan db keep next
  | .purgeStale keep _ next => c.id = plan.target ∧ NextReady plan db keep next
  | .stage current entries start added =>
    c.id = plan.target ∧ entries = plan.after ∧ Distinct entries ∧ generation? db plan.target = some current ∧
      Staged db plan.target (current + 1) entries start ∧ start ≤ entries.length ∧
      (added = true → plan.before = [] ∧ plan.fixed = false)
  | .purge _ result => c.id = plan.target ∧ (result = true → liveEntries db plan.target = plan.after)
  | .copyChunk sourceId sourceGeneration after =>
    c.id = plan.target ∧ sourceId ≠ plan.target ∧ generation? db sourceId = some sourceGeneration ∧
      Copied db plan.target sourceId sourceGeneration after ∧ plan.before = [] ∧ plan.fixed = false ∧
      plan.after = (select db sourceId sourceGeneration).map Row.entry
  | .dropHeader _ _ result =>
    c.id = plan.target ∧ plan.fixed = false ∧ (plan.before = [] ∨ plan.after = []) ∧
      (result = true → liveEntries db plan.target = plan.after ∧ plan.after = [])
  | .done result => result = true → liveEntries db plan.target = plan.after

/-- A version of list `id` becomes the live one, under a generation above the last. -/
structure Publishes (db db' : Db) (id : Int) (version : List Entry) : Prop where
  above : ∃ g g', generation? db id = some g ∧ generation? db' id = some g' ∧ g < g'
  live : liveEntries db' id = version

/-- What one step of a call does, seen from outside. -/
structure Moved (plan : Plan) (db db' : Db) (c' : Call) : Prop where
  wf : Wf db'
  others : ∀ j, j ≠ plan.target → KeepsList db db' j
  live : KeepsList db db' plan.target ∨ Publishes db db' plan.target plan.after ∨
    (plan.fixed = false ∧ (liveEntries db' plan.target = plan.before ∨ liveEntries db' plan.target = plan.after))
  ready : Ready plan db' c'

variable {db db' : Db} {c' : Call} {keep : Int} {next : Next}

theorem moved_keeps {plan : Plan} (hwf : Wf db') (hk : ∀ j, KeepsList db db' j)
    (hr : Ready plan db' c') : Moved plan db db' c' :=
  ⟨hwf, fun j _ => hk j, .inl (hk plan.target), hr⟩

theorem moved_same {plan : Plan} (hwf : Wf db) (hr : Ready plan db c') : Moved plan db db c' :=
  moved_keeps hwf (KeepsList.refl db) hr

theorem Moved.header {plan : Plan} (hm : Moved plan db db' c') (hf : plan.fixed = true) :
    (generation? db' plan.target).isSome = (generation? db plan.target).isSome := by
  rcases hm.live with hk | hp | ⟨hf', -⟩
  · rw [hk.generation]
  · obtain ⟨g, g', hg, hg', -⟩ := hp.above
    rw [hg, hg']
    rfl
  · rw [hf] at hf'
    simp at hf'

/-! ## The steps -/

theorem NextReady.keeps {plan : Plan} (hk : KeepsList db db' plan.target)
    (h : NextReady plan db keep next) : NextReady plan db' keep next := by
  cases next with
  | stage current entries =>
    obtain ⟨h1, h2, h3⟩ := h
    exact ⟨h1, hk.generation ▸ h2, h3⟩
  | finish =>
    show liveEntries db' plan.target = plan.after
    rw [hk.liveEntries]
    exact h
  | discard expected result =>
    obtain ⟨h1, h2, h3⟩ := h
    refine ⟨h1, h2, ?_⟩
    rw [hk.liveEntries]
    exact h3

theorem NextReady.gaveUp {plan : Plan} (h : NextReady plan db keep next) :
    Ready plan db { id := plan.target, pc := next.pc false } := by
  cases next with
  | stage current entries => exact fun h => absurd h (by simp)
  | finish => exact fun _ => h
  | discard expected result => exact ⟨rfl, h⟩

/-- A purge that found nothing more. -/
theorem NextReady.purged {plan : Plan} (hnone : findStale db plan.target keep = none) (h : NextReady plan db keep next) :
    Ready plan db { id := plan.target, pc := next.pc true } := by
  cases next with
  | stage current entries =>
    obtain ⟨hkeep, hgen, hent, hd⟩ := h
    have hempty : select db plan.target (current + 1) = [] := by
      apply findStale_eq_none hnone
      omega
    exact ⟨rfl, hent, hd, hgen, by rw [Staged, hempty]; simp, Nat.zero_le _, by simp⟩
  | finish => exact fun _ => h
  | discard expected result => exact ⟨rfl, h⟩

theorem bump_moved {plan : Plan} {fresh : Nat} (hs : BumpStep db db' plan.target fresh)
    (hafter : plan.after = []) (hr : liveEntries db' plan.target = plan.after → Ready plan db' c') :
    Moved plan db db' c' := by
  have hlive : liveEntries db' plan.target = plan.after := by
    rw [liveEntries_of_generation hs.generation, hs.empty, hafter]
    rfl
  obtain ⟨current, hcur, hlt⟩ := hs.above
  exact ⟨hs.wf, hs.others, .inr (.inl ⟨⟨current, fresh, hcur, hs.generation, hlt⟩, hlive⟩), hr hlive⟩

variable (hdb : Wf db)

include hdb

theorem stage_moved {plan : Plan} (c : Call) (current : Nat) (entries : List Entry) (start : Nat)
    (added ok : Bool) (hpc : c.pc = .stage current entries start added) (hr : Ready plan db c) :
    Moved plan db (step db c ok).1 (step db c ok).2 := by
  simp only [Ready, hpc] at hr
  obtain ⟨hid, hent, hd, hgen, hst, hstart, hadd⟩ := hr
  simp only [step, hpc]
  split
  · apply moved_same hdb
    cases added with
    | true =>
      obtain ⟨hb, hf⟩ := hadd rfl
      exact ⟨hid, hf, .inl hb, by simp⟩
    | false => exact ⟨hid, by simp⟩
  rename_i db' hstep
  have hchunk := (Option.ite_none_right_eq_some.mp hstep).2
  rw [hid] at hchunk
  have hs := stageChunk_spec hdb hd hst hstart (by omega) hchunk
  have hgen' := hs.generation
  by_cases hend : chunkEnd entries start < entries.length
  · -- one of the chunks before the last: the live generation is the old one
    rw [if_pos hend]
    rw [if_neg (by omega)] at hgen'
    refine moved_keeps hs.wf ?_ ⟨hid, hent, hd, hgen', hs.staged, chunkEnd_le entries start, hadd⟩
    intro j
    by_cases hj : j = plan.target
    · subst hj
      refine ⟨by rw [hgen', hgen], ?_⟩
      intro g hg
      rw [hgen] at hg
      simp only [Option.some.injEq] at hg
      subst hg
      exact hs.unchanged
    · exact hs.others j hj
  rw [if_neg hend]
  have heq : chunkEnd entries start = entries.length := by
    have := chunkEnd_le entries start
    omega
  rw [if_pos heq] at hgen'
  have hlive : liveEntries db' plan.target = plan.after := by
    rw [liveEntries_of_generation hgen', hs.staged, heq, ← hent]
    rw [List.take_of_length_le (by rw [entryRows_length])]
    exact entryRows_map _ _ _
  have habove : ∃ g g', generation? db plan.target = some g ∧ generation? db' plan.target = some g' ∧ g < g' :=
    ⟨current, current + 1, hgen, hgen', by omega⟩
  refine ⟨hs.wf, hs.others, .inr (.inl ⟨habove, hlive⟩), ?_⟩
  cases added with
  | true => exact fun _ => hlive
  | false => exact ⟨hid, fun _ => hlive⟩

theorem add_moved {plan : Plan} (c : Call) (role : Role) (relatedTestId : Int)
    (entries : List Entry) (ok : Bool) (hpc : c.pc = .add role relatedTestId entries) (hr : Ready plan db c) :
    Moved plan db (step db c ok).1 (step db c ok).2 := by
  simp only [Ready, hpc] at hr
  obtain ⟨htarget, hbefore, hent, hd, hfixed⟩ := hr
  simp only [step, hpc]
  split
  · exact moved_same hdb (fun h => absurd h (by simp))
  rename_i db' id hstep
  have hins := (Option.ite_none_right_eq_some.mp hstep).2
  have hs := insertHeader_spec hdb hins
  have hid : id = plan.target := hs.number.trans htarget.symm
  subst hid
  have hbefore' : plan.before = [] := by
    rw [← hbefore]
    unfold liveEntries
    rw [hs.new]
  have hzero : ∀ g, Staged db' plan.target g entries 0 := by
    intro g
    rw [Staged, hs.empty g]
    simp
  have hlive0 : liveEntries db' plan.target = plan.before := by
    rw [liveEntries_of_generation hs.generation, hs.empty, hbefore']
    rfl
  split
  · exact ⟨hs.wf, hs.others, .inr (.inr ⟨hfixed, .inl hlive0⟩), rfl, hent, hd, hs.generation,
      hzero 1, Nat.zero_le _, fun _ => ⟨hbefore', hfixed⟩⟩
  have hst := insertEntries_staged hs.wf hd (hzero 0) (Nat.zero_le entries.length)
  have hsome : (generation? db' plan.target).isSome = true := by simp [hs.generation]
  have hlive : liveEntries (insertEntries db' plan.target 0 entries 0 entries.length) plan.target = plan.after := by
    have hgen : generation? (insertEntries db' plan.target 0 entries 0 entries.length) plan.target = some 0 :=
      hs.generation
    rw [liveEntries_of_generation hgen, hst, ← hent, List.take_of_length_le (by rw [entryRows_length])]
    exact entryRows_map _ _ _
  refine ⟨insertEntries_wf hs.wf _ _ _ _ _ hsome, ?_, .inr (.inr ⟨hfixed, .inr hlive⟩), fun _ => hlive⟩
  intro j hj
  have hk := hs.others j hj
  refine ⟨hk.generation, fun g hg => ?_⟩
  rw [insertEntries_select_of_ne hs.wf hd (hzero 0) (Nat.zero_le _) (fun h => hj h.1.symm)]
  exact hk.select g hg

theorem copy_moved {plan : Plan} (c : Call) (sourceId : Int) (ok : Bool)
    (hpc : c.pc = .copy sourceId) (hr : Ready plan db c) : Moved plan db (step db c ok).1 (step db c ok).2 := by
  simp only [Ready, hpc] at hr
  obtain ⟨htarget, hbefore, hafter, hfixed⟩ := hr
  simp only [step, hpc]
  split
  · exact moved_same hdb (fun h => absurd h (by simp))
  rename_i sourceGeneration hgen
  split
  · exact moved_same hdb (fun h => absurd h (by simp))
  rename_i db' id hins
  have hgen' := (Option.ite_none_right_eq_some.mp hgen).2
  have hs := insertHeader_spec hdb hins
  have hid : id = plan.target := hs.number.trans htarget.symm
  subst hid
  have hne : sourceId ≠ plan.target := by
    intro h
    rw [h, hs.new] at hgen'
    simp at hgen'
  have hk := hs.others sourceId hne
  have hbefore' : plan.before = [] := by
    rw [← hbefore]
    unfold liveEntries
    rw [hs.new]
  have hlive : liveEntries db' plan.target = plan.before := by
    rw [liveEntries_of_generation hs.generation, hs.empty, hbefore']
    rfl
  refine ⟨hs.wf, hs.others, .inr (.inr ⟨hfixed, .inl hlive⟩), rfl, hne, ?_, ?_, hbefore', hfixed, ?_⟩
  · rw [hk.generation, hgen']
  · rw [Copied, hs.empty]
    simp
  · rw [hafter, liveEntries_of_generation hgen', hk.select _ hgen']

theorem copyChunk_moved {plan : Plan} (c : Call) (sourceId : Int) (sourceGeneration : Nat)
    (after : Option Nat) (ok : Bool) (hpc : c.pc = .copyChunk sourceId sourceGeneration after) (hr : Ready plan db c) :
    Moved plan db (step db c ok).1 (step db c ok).2 := by
  simp only [Ready, hpc] at hr
  obtain ⟨hid, hne, hgen, hc, hbefore, hfixed, hafter⟩ := hr
  simp only [step, hpc]
  split
  · exact moved_same hdb ⟨hid, hfixed, .inl hbefore, by simp⟩
  rename_i db' bound hstep
  have hchunk := (Option.ite_none_right_eq_some.mp hstep).2
  rw [hid] at hchunk
  have hs := copyChunk_spec hdb hne hc hchunk
  have hk := hs.others sourceId hne
  cases bound with
  | none =>
    obtain ⟨hgen', hsel⟩ := hs.last rfl
    have hlive : liveEntries db' plan.target = plan.after := by
      rw [liveEntries_of_generation hgen', hsel, hafter, List.map_map]
      rfl
    exact ⟨hs.wf, hs.others, .inr (.inr ⟨hfixed, .inr hlive⟩), fun _ => hlive⟩
  | some b =>
    obtain ⟨hgen', hcopied⟩ := hs.more rfl
    refine moved_keeps hs.wf ?_ ⟨hid, hne, ?_, hcopied, hbefore, hfixed, ?_⟩
    · intro j
      by_cases hj : j = plan.target
      · subst hj
        refine ⟨by rw [hgen', hs.live], ?_⟩
        intro g hg
        rw [hs.live] at hg
        simp only [Option.some.injEq] at hg
        subst hg
        exact hs.empty
      · exact hs.others j hj
    · rw [hk.generation, hgen]
    · rw [hafter, hk.select _ hgen]

theorem dropHeader_moved {plan : Plan} (c : Call) (expected : Int) (purged result ok : Bool)
    (hpc : c.pc = .dropHeader expected purged result) (hr : Ready plan db c) :
    Moved plan db (step db c ok).1 (step db c ok).2 := by
  simp only [Ready, hpc] at hr
  obtain ⟨hid, hfixed, hempty, hres⟩ := hr
  simp only [step, hpc]
  have hkeep : Moved plan db db { c with pc := .done result } := moved_same hdb (fun h => (hres h).1)
  have hdrop : Moved plan db (deleteHeader db c.id) { c with pc := .done result } := by
    have hs := deleteHeader_spec hdb c.id
    rw [hid] at hs ⊢
    have hlive : liveEntries (deleteHeader db plan.target) plan.target = [] := by
      unfold liveEntries
      rw [hs.generation]
    refine ⟨hs.wf, hs.others, .inr (.inr ⟨hfixed, ?_⟩), ?_⟩
    · rcases hempty with h | h
      · exact .inl (by rw [hlive, h])
      · exact .inr (by rw [hlive, h])
    · intro h
      rw [hlive, (hres h).2]
  unfold dropHeader
  split
  · split
    · exact hdrop
    split
    · exact hdrop
    · exact hkeep
  · exact hkeep

theorem step_moved {plan : Plan} (c : Call) (ok : Bool) (hr : Ready plan db c) :
    Moved plan db (step db c ok).1 (step db c ok).2 := by
  obtain ⟨id, pc⟩ := c
  cases pc with
  | replace entries =>
    obtain ⟨rfl, hent, hd⟩ := hr
    simp only [step]
    split
    · exact moved_same hdb (fun h => absurd h (by simp))
    rename_i current hcur
    have hgen := (Option.ite_none_right_eq_some.mp hcur).2
    exact moved_same hdb ⟨rfl, rfl, hgen, hent, hd⟩
  | clear =>
    obtain ⟨rfl, hafter⟩ := hr
    simp only [step]
    split
    · exact moved_same hdb (fun h => absurd h (by simp))
    rename_i db' fresh hbump
    have hb := (Option.ite_none_right_eq_some.mp hbump).2
    exact bump_moved (bumpGeneration_spec hdb hb) hafter (fun hlive => ⟨rfl, hlive⟩)
  | delete onlyIfDetached =>
    obtain ⟨rfl, hafter, hfixed⟩ := hr
    simp only [step]
    split
    · exact moved_same hdb (fun h => absurd h (by simp))
    rename_i db' fresh hbump
    have hb := (Option.ite_none_right_eq_some.mp hbump).2
    exact bump_moved (bumpGeneration_spec hdb hb) hafter
      (fun hlive => ⟨rfl, hfixed, .inr hafter, fun _ => ⟨hlive, hafter⟩⟩)
  | add role relatedTestId entries => exact add_moved hdb _ role relatedTestId entries ok rfl hr
  | copy sourceId => exact copy_moved hdb _ sourceId ok rfl hr
  | findStale keep next =>
    obtain ⟨rfl, hnext⟩ := hr
    simp only [step]
    split
    · exact moved_same hdb hnext.gaveUp
    split
    · exact moved_same hdb ⟨rfl, hnext⟩
    · rename_i hnone
      exact moved_same hdb (hnext.purged hnone)
  | purgeStale keep stale next =>
    obtain ⟨rfl, hnext⟩ := hr
    simp only [step]
    split
    · exact moved_same hdb hnext.gaveUp
    rename_i db' more hstep
    have hpurge := (Option.ite_none_right_eq_some.mp hstep).2
    obtain ⟨hwf, hk⟩ := purgeChunk_spec hdb hpurge
    apply moved_keeps hwf hk
    cases more <;> exact ⟨rfl, hnext.keeps (hk plan.target)⟩
  | stage current entries start added => exact stage_moved hdb _ current entries start added ok rfl hr
  | purge generation result =>
    obtain ⟨rfl, hres⟩ := hr
    simp only [step]
    split
    · exact moved_same hdb hres
    rename_i db' more hstep
    have hpurge := (Option.ite_none_right_eq_some.mp hstep).2
    obtain ⟨hwf, hk⟩ := purgeChunk_spec hdb hpurge
    have hres' : result = true → liveEntries db' plan.target = plan.after := by
      rw [(hk plan.target).liveEntries]
      exact hres
    apply moved_keeps hwf hk
    cases more with
    | true => exact ⟨rfl, hres'⟩
    | false => exact hres'
  | copyChunk sourceId sourceGeneration after => exact copyChunk_moved hdb _ sourceId sourceGeneration after ok rfl hr
  | dropHeader expected purged result => exact dropHeader_moved hdb _ expected purged result ok rfl hr
  | done result =>
    simp only [step]
    exact moved_same hdb hr

omit hdb

/-! ## Whole calls -/

/-- The list a call is about; `AddIpList` and `CopyAsUserList` draw a new one. -/
def Op.target (db : Db) : Op → Int
  | .ReplaceEntries id _ | .ClearEntries id | .DeleteIpList id _ => id
  | .AddIpList _ _ _ _ | .CopyAsUserList _ => db.ipListLastId + 1

/-- The entries that list has when the call is completed. -/
def Op.result (db : Db) : Op → List Entry
  | .ReplaceEntries _ entries | .AddIpList _ _ _ entries => unique entries
  | .ClearEntries _ | .DeleteIpList _ _ => []
  | .CopyAsUserList sourceId => liveEntries db sourceId

/-- The header of the list stays. -/
def Op.isFixed : Op → Bool
  | .ReplaceEntries _ _ | .ClearEntries _ => true
  | _ => false

def Op.plan (db : Db) (op : Op) : Plan :=
  { target := op.target db
    before := liveEntries db (op.target db)
    after := op.result db
    fixed := op.isFixed }

/-- What readers see of every list when the call is completed. -/
def completed (db : Db) (op : Op) (j : Int) : List Entry := if j = op.target db then op.result db else liveEntries db j

theorem ready_call (db : Db) (op : Op) : Ready (op.plan db) db op.call := by
  cases op with
  | ReplaceEntries id entries =>
    unfold Op.call
    by_cases h : id < 0
    · simp [h, Ready]
    · simp only [h, if_false, Ready]
      exact ⟨rfl, rfl, unique_distinct entries⟩
  | ClearEntries id =>
    unfold Op.call
    by_cases h : id < 0
    · simp [h, Ready]
    · simp only [h, if_false, Ready]
      exact ⟨rfl, rfl⟩
  | DeleteIpList id onlyIfDetached =>
    unfold Op.call
    by_cases h : id < 0
    · simp [h, Ready]
    · simp only [h, if_false, Ready]
      exact ⟨rfl, rfl, rfl⟩
  | AddIpList id role relatedTestId entries =>
    unfold Op.call
    by_cases h : 0 ≤ id
    · simp [h, Ready]
    · simp only [h, if_false, Ready]
      exact ⟨rfl, rfl, rfl, unique_distinct entries, rfl⟩
  | CopyAsUserList sourceId =>
    unfold Op.call
    by_cases h : sourceId < 0
    · simp [h, Ready]
    · simp only [h, if_false, Ready]
      exact ⟨rfl, rfl, rfl, rfl⟩

/-- Where a call can be, from the tables `db` it began with. -/
structure Under (plan : Plan) (db : Db) (s : Db × Call) : Prop where
  wf : Wf s.1
  others : ∀ j, j ≠ plan.target → liveEntries s.1 j = liveEntries db j ∧
    (generation? s.1 j).isSome = (generation? db j).isSome
  live : liveEntries s.1 plan.target = plan.before ∨ liveEntries s.1 plan.target = plan.after
  header : plan.fixed = true → (generation? s.1 plan.target).isSome = (generation? db plan.target).isSome
  ready : Ready plan s.1 s.2

theorem under_step (plan : Plan) (db : Db) (s : Db × Call) (ok : Bool) (h : Under plan db s) :
    Under plan db (step s.1 s.2 ok) := by
  have hm := step_moved h.wf s.2 ok h.ready
  refine ⟨hm.wf, ?_, ?_, ?_, hm.ready⟩
  · intro j hj
    have hk := hm.others j hj
    rw [hk.liveEntries, hk.generation]
    exact h.others j hj
  · rcases hm.live with hl | hl | ⟨-, hl⟩
    · rw [hl.liveEntries]
      exact h.live
    · exact .inr hl.live
    · exact hl
  · intro hf
    rw [← h.header hf, hm.header hf]

theorem under_run (db : Db) (hdb : Wf db) (op : Op) (answers : List Bool) :
    Under (op.plan db) db (run db op answers) :=
  foldl_keeps (fun s ok => step s.1 s.2 ok) (Under (op.plan db) db) (under_step _ db) answers _
    ⟨hdb, fun _ _ => ⟨rfl, rfl⟩, .inl rfl, fun _ => rfl, ready_call db op⟩

/-- What an interrupted call leaves for the next start: all lists as before it or all
lists as after it, and no row that is not live.  A call that returned is completed, and
no header but the one an `AddIpList`, a `CopyAsUserList` or a `DeleteIpList` is about has
come or gone. -/
structure Survives (db : Db) (op : Op) (killed : Db × Call) : Prop where
  entries : (∀ j, liveEntries (createTables killed.1) j = liveEntries db j) ∨
    (∀ j, liveEntries (createTables killed.1) j = completed db op j)
  leftovers : ∀ r ∈ (createTables killed.1).rows, generation? (createTables killed.1) r.listId = some r.generation
  returned : killed.2.pc = .done true → ∀ j, liveEntries killed.1 j = completed db op j
  headers : ∀ j, (j ≠ op.target db ∨ op.isFixed = true) →
    (generation? (createTables killed.1) j).isSome = (generation? db j).isSome

/-- **A call killed after any of its transactions leaves the content before it or
its completed result.** -/
theorem killed_then_started (db : Db) (hdb : Wf db) (op : Op) (answers : List Bool) :
    Survives db op (run db op answers) := by
  have hu := under_run db hdb op answers
  obtain ⟨hk, hleft⟩ := createTables_spec hu.wf
  refine ⟨?_, hleft, ?_, ?_⟩
  · rcases hu.live with hlive | hlive
    · left
      intro j
      rw [(hk j).liveEntries]
      by_cases hj : j = op.target db
      · rw [hj]
        exact hlive
      · exact (hu.others j hj).1
    right
    intro j
    rw [(hk j).liveEntries]
    unfold completed
    by_cases hj : j = op.target db
    · rw [if_pos hj, hj]
      exact hlive
    · rw [if_neg hj]
      exact (hu.others j hj).1
  · intro hdone j
    have hr := hu.ready
    simp only [Ready, hdone] at hr
    unfold completed
    by_cases hj : j = op.target db
    · rw [if_pos hj, hj]
      exact hr trivial
    · rw [if_neg hj]
      exact (hu.others j hj).1
  · intro j hj
    by_cases htarget : j = op.target db
    · subst htarget
      rcases hj with hj | hj
      · exact absurd rfl hj
      · exact hu.header hj
    · exact (hu.others j htarget).2

/-- A list with one entry in generation 2, and a row an earlier kill left in generation 3. -/
def oneList : Db :=
  { ipLists := [{ id := 1, entriesGeneration := 2 }]
    rows := [{ listId := 1, generation := 2, entryOrder := 0, entry := { cidr := "1.1.1.1" } },
      { listId := 1, generation := 3, entryOrder := 0, entry := { cidr := "9.9.9.9" } }]
    ipListLastId := 1 }

theorem oneList_wf : Wf oneList := ⟨by decide, by decide, by decide⟩

/-- A replacement killed in the purge that comes before its staging. -/
theorem oneList_killed : Wf oneList ∧
    Survives oneList (.ReplaceEntries 1 [{ cidr := "8.8.8.8" }])
      (run oneList (.ReplaceEntries 1 [{ cidr := "8.8.8.8" }]) [true, true]) :=
  ⟨oneList_wf, killed_then_started oneList oneList_wf _ _⟩

end Waterdisco.Lists
