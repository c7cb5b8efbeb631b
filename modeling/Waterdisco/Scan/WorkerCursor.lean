import Waterdisco.Scan.WorkerPass

/-!
# No target is passed over

The results that the calls of a pass returned are kept beside the run.

    every position before the cursor of a pass has had a result, and a pass that
    completes without the limit has had one for every position        (cursor_probed)
-/

namespace Waterdisco.Scan

open Nat Option List IpScan Store Touches

/-! ## What the calls returned -/

/-- A pass: its targets, and the positions with a result, with their targets. -/
structure Pass where
  spec : Spec := {}
  probed : List (Nat × Target) := []

/-- A pass that was marked completed; `limited` if by the stop-after limit. -/
structure Completion where
  limited : Bool
  total : Nat
  pass : Pass

/-- A run with its passes: the initial one, the rescan, and those that completed. -/
structure Traced where
  world : World
  initial : Pass := {}
  rescan : Pass := {}
  completions : List Completion := []

section
variable (netip : Netip)

/-- The call returned a result for the target at the position. -/
def Pass.Probed (pass : Pass) (p : Nat) : Prop :=
  ∃ target, (p, target) ∈ pass.probed ∧ (netip.newTargets pass.spec).atPosition p = some target

def chunkAnswer (run : Run) (env : ChunkEnv) : ProbeAnswer :=
  scanProbe netip (probeRequest run.scan run.spec run.scan.activeCursor run.scan.chunkSize) env.first.call

/-- The results of a turn; one that ends at the top makes no call. -/
def returnedResults (run : Run) (env : ChunkEnv) : List (Nat × Target) :=
  if run.scan.limitReached = true ∨ run.scan.activeTotal ≤ run.scan.activeCursor ∨
    (run.stop || env.stopTop) = true then []
  else (chunkAnswer netip run env).response.results.map (fun p => (p.1, p.2.target))

def Pass.add (pass : Pass) (results : List (Nat × Target)) : Pass := { pass with probed := pass.probed ++ results }

/-- A start that builds a spec begins a pass. -/
def beginInitial (p : Prepared) (initial : Pass) : Pass :=
  if p.spec.entries = [] ∨ p.scan.rescan = true then initial else { spec := p.spec }

def beginRescan (p : Prepared) (rescan : Pass) : Pass :=
  if p.spec.entries = [] ∨ p.scan.rescan = false then rescan else { spec := p.spec }

def traceStart (t : Traced) (mode : StartMode) (env : PrepareEnv) : Traced :=
  let p := prepareStart netip t.world mode env
  { t with
    world := startRun netip t.world mode env
    initial := beginInitial p t.initial
    rescan := beginRescan p t.rescan }

def traceChunk (t : Traced) (r : Running) (env : ChunkEnv) (stopFinish : Bool) : Traced :=
  let run := r.run t.world
  let results := returnedResults netip run env
  { world := stepChunk netip t.world r env stopFinish
    initial := if run.scan.rescan then t.initial else t.initial.add results
    rescan := if run.scan.rescan then t.rescan.add results else t.rescan
    completions := match (chunk netip run env).2 with
      | .returned true _ =>
        t.completions ++ [{
          limited := run.scan.limitReached, total := run.scan.activeTotal
          pass := (if run.scan.rescan then t.rescan else t.initial).add results }]
      | _ => t.completions }

def traceStep (t : Traced) : Event → Traced
  | .start mode env => if t.world.running.isSome then t else traceStart netip t mode env
  | .chunk env stopFinish =>
    match t.world.running with
    | none => t
    | some r => traceChunk netip t r env stopFinish
  | e => { t with world := step netip t.world e }

/-- The run beside the passes is the run. -/
theorem traceStep_world (t : Traced) (e : Event) : (traceStep netip t e).world = step netip t.world e := by
  cases e with
  | start mode env =>
    simp only [traceStep, step]
    split <;> rfl
  | chunk env stopFinish =>
    simp only [traceStep, step]
    cases t.world.running <;> rfl
  | pause => rfl
  | edit listId entries => rfl

theorem Pass.Probed.add {pass : Pass} {p : Nat} (h : pass.Probed netip p) (results : List (Nat × Target)) :
    (pass.add results).Probed netip p := by
  obtain ⟨target, hmem, hat⟩ := h
  exact ⟨target, mem_append_left _ hmem, hat⟩

/-! ## The cursor after a turn -/

theorem runChunk_next (scan : IpScan) (basePort : Int) (spec : Spec) (chunkStart maxTargets : Nat) (stop : Bool)
    (env : RunChunkEnv) :
    (runChunk netip scan basePort spec chunkStart maxTargets stop env).next ≤
      max chunkStart (scanProbe netip (probeRequest scan spec chunkStart maxTargets) env.call).response.nextCursor := by
  unfold runChunk
  simp only
  repeat' split
  all_goals first
    | exact .refl
    | exact le_max_left _ _

theorem confirmRounds_next (scan : IpScan) (basePort : Int) (chunkStart : Nat) (envs : Nat → RoundEnv) (n k : Nat)
    (c : Confirmed) :
    (confirmRounds netip scan basePort chunkStart envs n k c).next ≤ max chunkStart c.next := by
  induction n generalizing k c with
  | zero => exact le_max_right _ _
  | succ n ih =>
    rw [confirmRounds]
    simp only
    split
    · exact le_max_right _ _
    split
    · exact le_max_left _ _
    split
    · split
      · exact le_max_left _ _
      · exact le_max_right _ _
    · exact ih _ _

theorem confirmChunk_next (run : Run) (env : ChunkEnv) :
    (confirmChunk netip run run.stop env).next ≤
      max run.scan.activeCursor (chunkAnswer netip run env).response.nextCursor := by
  have hfirst := runChunk_next netip run.scan run.basePort run.spec run.scan.activeCursor run.scan.chunkSize run.stop
    env.first
  unfold confirmChunk
  simp only
  split
  · have := confirmRounds_next netip run.scan run.basePort run.scan.activeCursor env.rounds rescanRetries 0
      { result := (firstChunk netip run run.stop env).result, next := (firstChunk netip run run.stop env).next
        stop := (firstChunk netip run run.stop env).stop }
    refine Nat.le_trans this (Nat.max_le.mpr ⟨Nat.le_max_left _ _, hfirst⟩)
  · exact hfirst

theorem nextCursor_le (configPhase : Bool) (result : ChunkResult) (unverified : Bool) (chunkStart next total : Nat) :
    nextCursor configPhase result unverified chunkStart next total ≤ max chunkStart next := by
  refine le_trans (min_le_left _ _) ?_
  split
  · exact le_max_left _ _
  split
  · split
    · exact le_max_left _ _
    · exact le_max_right _ _
  · exact le_max_right _ _

end

@[simp] theorem IpScan.setCursor_rescan (scan : IpScan) (c : Nat) : (scan.setCursor c).rescan = scan.rescan := by
  unfold setCursor
  split <;> rfl

@[simp] theorem IpScan.setCursor_activeTotal (scan : IpScan) (c : Nat) :
    (scan.setCursor c).activeTotal = scan.activeTotal := by
  unfold activeTotal
  rw [setCursor_rescan]
  unfold setCursor
  split <;> rfl

@[simp] theorem IpScan.setCursor_resultListId (scan : IpScan) (c : Nat) :
    (scan.setCursor c).resultListId = scan.resultListId := by
  unfold setCursor
  split <;> rfl

theorem IpScan.setCursor_activeCursor (scan : IpScan) : scan.setCursor scan.activeCursor = scan := by
  unfold setCursor activeCursor
  split <;> rfl

section
variable {netip : Netip}

variable {spec : Spec} {total : Nat} {p q : Prepared} {entries : List Lists.Entry} {l : StoredList} {t : Traced} (run : Run)
  (env : PrepareEnv)

theorem storeChunk_scan (result : ChunkResult) (verdict : Verdict) :
    ∃ removed found, (storeChunk run result verdict).scan = run.scan.counted removed found := by
  unfold storeChunk
  split
  · exact ⟨run.scan.removed, run.scan.found, rfl⟩
  · exact ⟨_, _, rfl⟩

theorem chunkCursor_probed (env : ChunkEnv) (p : Nat) (hstart : run.scan.activeCursor ≤ p)
    (hp : p < chunkCursor netip run env) :
    ∃ target, (p, target) ∈ (chunkAnswer netip run env).response.results.map (fun p => (p.1, p.2.target)) ∧
      (netip.newTargets run.spec).atPosition p = some target := by
  have hnext := confirmChunk_next netip run env
  have hcursor : p < max run.scan.activeCursor (confirmChunk netip run run.stop env).next :=
    lt_of_lt_of_le hp (nextCursor_le _ _ _ _ _ _)
  have hanswer : p < (chunkAnswer netip run env).response.nextCursor := by omega
  obtain ⟨r, hr⟩ := scanProbe_finished netip
    (probeRequest run.scan run.spec run.scan.activeCursor run.scan.chunkSize) env.first.call p hstart hanswer
  exact ⟨r.target, mem_map.mpr ⟨(p, r), hr, rfl⟩, (scanProbe_result netip _ _ hr).2⟩

theorem chunk_scan (env : ChunkEnv) :
    ∃ removed found cursor, (chunk netip run env).1.scan = (run.scan.counted removed found).setCursor cursor ∧
      ∀ p, run.scan.activeCursor ≤ p → p < cursor → ∃ target, (p, target) ∈ returnedResults netip run env ∧
        (netip.newTargets run.spec).atPosition p = some target := by
  have hsame : run.scan = (run.scan.counted run.scan.removed run.scan.found).setCursor run.scan.activeCursor :=
    (setCursor_activeCursor run.scan).symm
  unfold chunk returnedResults
  by_cases hlimit : run.scan.limitReached = true
  · rw [if_pos hlimit]
    exact ⟨_, _, _, hsame, by omega⟩
  by_cases htotal : run.scan.activeTotal ≤ run.scan.activeCursor
  · rw [if_neg hlimit, if_pos htotal]
    exact ⟨_, _, _, hsame, by omega⟩
  by_cases hstop : (run.stop || env.stopTop) = true
  · rw [if_neg hlimit, if_neg htotal, if_pos hstop]
    exact ⟨_, _, _, hsame, by omega⟩
  have hnot : ¬ (run.scan.limitReached = true ∨ run.scan.activeTotal ≤ run.scan.activeCursor ∨
      (run.stop || env.stopTop) = true) := by
    rintro (h | h | h)
    · exact hlimit h
    · exact htotal h
    · exact hstop h
  rw [if_neg hlimit, if_neg htotal, if_neg hstop, if_neg hnot]
  obtain ⟨removed, found, heq⟩ := storeChunk_scan run (confirmChunk netip run run.stop env).result
    (chunkVerdict netip run run.stop env)
  refine ⟨removed, found, chunkCursor netip run env, ?_, chunkCursor_probed run env⟩
  show (storeChunk run _ _).scan.setCursor _ = _
  rw [heq]

/-! ## What a scan keeps between two steps -/

/-- The copy that a pass runs over: it gives the targets of the pass, all of them. -/
def Copy (netip : Netip) (lists : Store) (id : Int) (build : List Lists.Entry → Spec) (spec : Spec) (total : Nat) :
    Prop :=
  (∃ l, lists.get? id = some l ∧ l.role = .scanSnapshot ∧ build l.entries = spec) ∧
    total = (netip.newTargets spec).total

theorem Copy.keeps {lists lists' : Store} {id : Int} {build : List Lists.Entry → Spec}
    (h : Copy netip lists id build spec total) (hk : KeepsCopies lists lists') :
    Copy netip lists' id build spec total := by
  obtain ⟨⟨l, hl, hrole, hbuild⟩, htotal⟩ := h
  exact ⟨⟨l, hk.copies id l hl hrole, hrole, hbuild⟩, htotal⟩

theorem Copy.keepsOne {lists lists' : Store} {id : Int} {build : List Lists.Entry → Spec}
    (h : Copy netip lists id build spec total) (hk : lists'.get? id = lists.get? id) :
    Copy netip lists' id build spec total := by
  obtain ⟨⟨l, hl, hrole, hbuild⟩, htotal⟩ := h
  exact ⟨⟨l, by rw [hk]; exact hl, hrole, hbuild⟩, htotal⟩

variable (netip) in
/-- Both cursors pass over positions with a result only, and a pass that can be taken up
has its copy. -/
structure Core (scan : IpScan) (lists : Store) (initial rescan : Pass) : Prop where
  probed : ∀ p, p < scan.cursor → initial.Probed netip p
  rescanProbed : ∀ p, p < scan.rescanCursor → rescan.Probed netip p
  copy : 0 ≤ scan.snapshotListId → 0 < scan.total →
    Copy netip lists scan.snapshotListId (initialSpec scan) initial.spec scan.total
  apart : 0 ≤ scan.snapshotListId → 0 < scan.total → scan.rescanSnapshotListId ≠ scan.snapshotListId
  rescanCopy : scan.rescan = true → 0 ≤ scan.rescanSnapshotListId → 0 < scan.rescanTotal →
    Copy netip lists scan.rescanSnapshotListId rescanSpec rescan.spec scan.rescanTotal
  known : Known lists scan.snapshotListId
  rescanKnown : Known lists scan.rescanSnapshotListId

variable {scan : IpScan} {lists lists' : Store} {initial rescan : Pass}

variable (h : Core netip scan lists initial rescan)

include h in
theorem Core.keeps (hk : KeepsCopies lists lists') :
    Core netip scan lists' initial rescan :=
  { h with
    copy := fun h1 h2 => (h.copy h1 h2).keeps hk
    rescanCopy := fun h1 h2 h3 => (h.rescanCopy h1 h2 h3).keeps hk
    known := hk.known _ h.known
    rescanKnown := hk.known _ h.rescanKnown }

/-! ## A turn -/

theorem touches_storeChunk (result : ChunkResult) (verdict : Verdict) :
    Touches run.lists (storeChunk run result verdict).lists run.scan.resultListId := by
  have hhits : ∀ rescan, Touches run.lists (storeHits rescan run.lists run.scan.resultListId result)
      run.scan.resultListId := by
    intro rescan
    unfold storeHits
    split
    · exact refl _ _
    split
    · exact (touches_upsertEntries _ _ _).trans (touches_removeEntries _ _ _)
    · exact touches_upsertEntries _ _ _
  have hdead : ∀ lists dead, Touches lists (removeDead lists run.scan.resultListId dead) run.scan.resultListId := by
    intro lists dead
    unfold removeDead
    split
    · exact refl _ _
    · exact touches_removeEntries _ _ _
  unfold storeChunk
  split
  · exact refl _ _
  · exact (hhits _).trans (hdead _ _)

theorem touches_chunk (env : ChunkEnv) :
    Touches run.lists (chunk netip run env).1.lists run.scan.resultListId := by
  unfold chunk
  split
  · exact refl _ _
  split
  · exact refl _ _
  split
  · exact refl _ _
  · exact touches_storeChunk run _ _

theorem core_chunk {run : Run} {env : ChunkEnv} (h : Core netip run.scan run.lists initial rescan)
    (hspec : run.spec = (if run.scan.rescan then rescan else initial).spec)
    (hresult : ∀ l, run.lists.get? run.scan.resultListId = some l → l.role ≠ .scanSnapshot) :
    Core netip (chunk netip run env).1.scan (chunk netip run env).1.lists
      (if run.scan.rescan then initial else initial.add (returnedResults netip run env))
      (if run.scan.rescan then rescan.add (returnedResults netip run env) else rescan) := by
  obtain ⟨removed, found, cursor, hscan, hprobed⟩ := @chunk_scan netip run env
  refine Core.keeps ?_ ((touches_chunk run env).keepsCopies hresult)
  rw [hscan]
  unfold setCursor
  cases hre : run.scan.rescan with
  | true =>
    have hre' : (run.scan.counted removed found).rescan = true := hre
    simp only [hre, hre', if_true] at hspec hprobed ⊢
    refine ⟨h.probed, ?_, h.copy, h.apart, h.rescanCopy, h.known, h.rescanKnown⟩
    intro p hp
    by_cases hbefore : p < run.scan.rescanCursor
    · exact (h.rescanProbed p hbefore).add netip _
    have hactive : run.scan.activeCursor ≤ p := by
      unfold activeCursor
      rw [hre, if_pos rfl]
      omega
    obtain ⟨target, hmem, hat⟩ := hprobed p hactive hp
    rw [hspec] at hat
    exact ⟨target, mem_append_right _ hmem, hat⟩
  | false =>
    have hre' : (run.scan.counted removed found).rescan = false := hre
    simp only [hre, hre', Bool.false_eq_true, if_false] at hspec hprobed ⊢
    refine ⟨?_, h.rescanProbed, h.copy, h.apart, h.rescanCopy, h.known, h.rescanKnown⟩
    intro p hp
    by_cases hbefore : p < run.scan.cursor
    · exact (h.probed p hbefore).add netip _
    have hactive : run.scan.activeCursor ≤ p := by
      unfold activeCursor
      rw [hre, if_neg (by simp)]
      omega
    obtain ⟨target, hmem, hat⟩ := hprobed p hactive hp
    rw [hspec] at hat
    exact ⟨target, mem_append_right _ hmem, hat⟩

/-! ## The end of a pass -/

theorem deleteList_get? {id j : Int} (h : 0 ≤ id → j ≠ id) : (deleteList lists id).get? j = lists.get? j := by
  unfold deleteList
  split
  · rfl
  · exact get?_deleteIpList_of_ne (h (by omega))

theorem Known.deleteList {id j : Int} (h : Known lists id) : Known (deleteList lists j) id := by
  unfold Scan.deleteList
  split
  · exact h
  · exact h.deleted j

include h

theorem core_finishCompleted :
    Core netip (finishCompleted scan lists).1 (finishCompleted scan lists).2 initial rescan := by
  unfold finishCompleted
  by_cases hre : scan.rescan = true
  · have hcopy : 0 ≤ scan.snapshotListId → 0 < scan.total →
        Copy netip (deleteList lists scan.rescanSnapshotListId) scan.snapshotListId (initialSpec scan) initial.spec
          scan.total := by
      intro h1 h2
      refine (h.copy h1 h2).keepsOne (deleteList_get? ?_)
      intro _ hc
      exact h.apart h1 h2 hc.symm
    have hcore : Core netip { scan with rescanSnapshotListId := -1, lastError := "" }
        (deleteList lists scan.rescanSnapshotListId) initial rescan := by
      refine ⟨h.probed, h.rescanProbed, hcopy, ?_, ?_, Known.deleteList h.known, known_neg _ (by simp)⟩
      · intro h1 _ hc
        simp only at h1 hc
        omega
      · intro _ h2
        simp only at h2
        omega
    simp only [if_pos hre]
    split
    · exact ⟨hcore.probed, hcore.rescanProbed, hcore.copy, hcore.apart, fun hc => absurd hc (by simp [IpScan.rescan]),
        hcore.known, hcore.rescanKnown⟩
    · exact ⟨hcore.probed, hcore.rescanProbed, hcore.copy, hcore.apart, hcore.rescanCopy, hcore.known,
        hcore.rescanKnown⟩
  · simp only [if_neg hre]
    refine ⟨h.probed, h.rescanProbed, ?_, ?_, fun hc => absurd hc hre, known_neg _ (by simp),
      Known.deleteList h.rescanKnown⟩
    · intro h1
      simp only at h1
      omega
    · intro h1
      simp only at h1
      omega

theorem core_finishStopped (initialStatus : ScanStatus) (error : String) :
    Core netip (finishStopped initialStatus scan error) lists initial rescan := by
  refine ⟨h.probed, h.rescanProbed, h.copy, h.apart, ?_, h.known, h.rescanKnown⟩
  intro h1 h2 h3
  refine h.rescanCopy ?_ h2 h3
  by_cases hre : scan.rescan = true
  · exact hre
  have hmode : (finishStopped initialStatus scan error).mode = scan.mode := by simp [finishStopped, hre]
  unfold IpScan.rescan at h1 ⊢
  rwa [hmode] at h1

theorem core_finishPass (initialStatus : ScanStatus) (stop completed : Bool)
    (error : String) :
    Core netip (finishPass initialStatus scan lists stop completed error).scan
      (finishPass initialStatus scan lists stop completed error).lists initial rescan := by
  unfold finishPass
  split
  · exact core_finishCompleted h
  · exact core_finishStopped h _ _

omit h

theorem finishPass_running (initialStatus : ScanStatus) (scan : IpScan) (lists : Store) (stop completed : Bool)
    (error : String) : (finishPass initialStatus scan lists stop completed error).running = none := by
  unfold finishPass
  split <;> rfl

/-! ## The start of a pass -/

theorem countTargets_ok {stop : Bool} {env : PrepareEnv}
    (h : countTargets netip scan spec stop env = .ok total) : total = (netip.newTargets spec).total := by
  unfold countTargets at h
  cases hok : (scanProbe netip (probeRequest scan spec 0 0) env.count).ok with
  | false => simp [hok] at h
  | true =>
    have hcount := scanProbe_count (Int.le_refl 0) hok
    simp only [hok, Bool.true_eq_false, false_or] at h
    split at h
    · cases h
    · rw [← Except.ok.inj h]
      exact hcount

theorem countTargets_error {stop stop' : Bool} {env : PrepareEnv} {error : String}
    (h : countTargets netip scan spec stop env = .error (stop', error)) : error ≠ "" ∨ stop' = true := by
  unfold countTargets at h
  simp only at h
  split at h
  · simp only [Except.error.injEq, Prod.mk.injEq] at h
    obtain ⟨hstop, herror⟩ := h
    rw [hstop] at herror
    by_cases hs : stop' = true
    · exact .inr hs
    left
    rw [if_neg hs] at herror
    rw [← herror]
    split
    · decide
    · assumption
  · cases h

theorem countCopy_cases (p : Prepared) (setTotal : IpScan → Nat → IpScan) (noTarget : String) (env : PrepareEnv) :
    (countCopy netip p setTotal noTarget env).lists = p.lists ∧ (countCopy netip p setTotal noTarget env).spec = p.spec ∧
      ((countCopy netip p setTotal noTarget env).scan = p.scan ∧
          ((countCopy netip p setTotal noTarget env).error ≠ "" ∨
            (countCopy netip p setTotal noTarget env).stop = true) ∨
        (countCopy netip p setTotal noTarget env).scan = setTotal p.scan (netip.newTargets p.spec).total) := by
  unfold countCopy
  cases hcount : countTargets netip p.scan p.spec p.stop env with
  | error e => exact ⟨rfl, rfl, .inl ⟨rfl, countTargets_error hcount⟩⟩
  | ok total =>
    rw [countTargets_ok hcount]
    exact ⟨rfl, rfl, .inr rfl⟩

theorem ensureScanResultList_spec {env : PrepareEnv} {scan' : IpScan}
    (h : ensureScanResultList scan lists env = some (scan', lists')) :
    (∃ id, scan' = { scan with resultListId := id }) ∧ KeepsCopies lists lists' ∧
      ∃ l, lists'.get? scan'.resultListId = some l ∧ l.role = .scanResult := by
  unfold ensureScanResultList at h
  by_cases hknown : (knownResultList scan lists env).isSome = true
  · rw [if_pos hknown] at h
    obtain ⟨rfl, rfl⟩ := h
    refine ⟨⟨scan.resultListId, rfl⟩, KeepsCopies.refl _, ?_⟩
    obtain ⟨l, hl⟩ := isSome_iff_exists.mp hknown
    unfold knownResultList at hl
    split at hl
    · rw [filter_eq_some_iff, Bool.and_eq_true, beq_iff_eq] at hl
      exact ⟨l, hl.1, hl.2.1⟩
    · cases hl
  · rw [if_neg hknown] at h
    split at h
    · obtain ⟨⟨lists'', id⟩, hadd, heq⟩ := map_eq_some_iff.mp h
      obtain ⟨rfl, rfl⟩ := heq
      have hadded := addIpList_spec hadd
      obtain ⟨l, hl, hrole, -⟩ := hadded.list
      exact ⟨⟨id, rfl⟩, hadded.keepsCopies, l, hl, hrole⟩
    · cases h

variable (netip) in
/-- A prepared scan: its passes hold, and one that goes on knows where. -/
structure PreparedOk (q : Prepared) (initial rescan : Pass) : Prop where
  core : Core netip q.scan q.lists (beginInitial q initial) (beginRescan q rescan)
  result : q.error = "" → q.stop = false → ∀ l, q.lists.get? q.scan.resultListId = some l → l.role ≠ .scanSnapshot
  begun : q.error = "" → q.stop = false → q.spec.entries ≠ [] → q.scan.activeTotal = (netip.newTargets q.spec).total
  resumed : q.error = "" → q.stop = false → q.spec.entries = [] →
    q.scan.rescanResumable = true ∨ q.scan.rescan = false ∧ q.scan.canResumeInitial = true

theorem beginInitial_nil (h : q.spec.entries = []) : beginInitial q initial = initial := by
  rw [beginInitial, if_pos (.inl h)]

theorem beginRescan_nil (h : q.spec.entries = []) : beginRescan q rescan = rescan := by
  rw [beginRescan, if_pos (.inl h)]

theorem beginInitial_new (hne : q.spec.entries ≠ []) (h : q.scan.rescan = false) :
    beginInitial q initial = { spec := q.spec } := by
  rw [beginInitial, if_neg (by simp [hne, h])]

theorem beginRescan_new (hne : q.spec.entries ≠ []) (h : q.scan.rescan = true) :
    beginRescan q rescan = { spec := q.spec } := by
  rw [beginRescan, if_neg (by simp [hne, h])]

theorem beginInitial_rescan (h : q.scan.rescan = true) : beginInitial q initial = initial := by
  rw [beginInitial, if_pos (.inr h)]

theorem preparedOk_failed (h : Core netip q.scan q.lists initial rescan) (hspec : q.spec.entries = [])
    (hfail : q.error ≠ "" ∨ q.stop = true) : PreparedOk netip q initial rescan := by
  have hnot : q.error = "" → q.stop = false → False := by
    intro herror hstop
    rcases hfail with hfail | hfail
    · exact hfail herror
    · rw [hstop] at hfail
      cases hfail
  refine ⟨?_, fun h1 h2 => (hnot h1 h2).elim, fun h1 h2 => (hnot h1 h2).elim, fun h1 h2 => (hnot h1 h2).elim⟩
  rw [beginInitial_nil hspec, beginRescan_nil hspec]
  exact h

/-- A start that takes up a paused pass. -/
theorem preparedOk_resumed (h : Core netip q.scan q.lists initial rescan) (hspec : q.spec.entries = [])
    (hresult : ∀ l, q.lists.get? q.scan.resultListId = some l → l.role ≠ .scanSnapshot)
    (hgoes : q.scan.rescanResumable = true ∨ q.scan.rescan = false ∧ q.scan.canResumeInitial = true) :
    PreparedOk netip q initial rescan := by
  refine ⟨?_, fun _ _ => hresult, fun _ _ hc => absurd hspec hc, fun _ _ _ => hgoes⟩
  rw [beginInitial_nil hspec, beginRescan_nil hspec]
  exact h

theorem familyFilter_sublist (entries : List Lists.Entry) (ipv6 : Bool) :
    (scanWorkerFamilyFilter entries ipv6).Sublist entries := by
  unfold scanWorkerFamilyFilter
  split
  · exact Sublist.refl _
  · exact filter_sublist

theorem readEntries_stored (ok : Bool) (lists : Store) (id : Int) : Stored (readEntries ok lists id) := by
  unfold readEntries
  split
  · exact lists.entries_stored id
  · exact stored_nil

theorem readEntries_eq {ok : Bool} {id : Int} (hl : lists.get? id = some l)
    (hne : readEntries ok lists id ≠ []) : readEntries ok lists id = l.entries := by
  cases ok with
  | true => exact entries_of_get? hl
  | false => exact absurd rfl hne

theorem buildSpec_entries_ne_nil (h : entries ≠ []) (ports : List Int) (mode : PortMode)
    (shuffle : Bool) (seed : UInt64) : (scanWorkerBuildSpec entries ports mode shuffle seed).entries ≠ [] := by
  simpa [scanWorkerBuildSpec] using h

theorem added_ne {store store' : Store} {id j : Int} {role : Lists.Role} {relatedTestId : Int}
    (h : Added store store' id role relatedTestId entries)
    (hl : store.get? j = some l) : j ≠ id := by
  intro hc
  rw [hc, h.free] at hl
  cases hl

/-- A copy that could not be counted, or was: what it takes for the passes to hold. -/
theorem preparedOk_counted (hne : q.spec.entries ≠ [])
    (hcore : Core netip q.scan q.lists (beginInitial q initial) (beginRescan q rescan))
    (hresult : ∀ l, q.lists.get? q.scan.resultListId = some l → l.role ≠ .scanSnapshot)
    (hbegun : (q.error ≠ "" ∨ q.stop = true) ∨ q.scan.activeTotal = (netip.newTargets q.spec).total) :
    PreparedOk netip q initial rescan := by
  refine ⟨hcore, fun _ _ => hresult, ?_, fun _ _ hc => absurd hc hne⟩
  intro herror hstop _
  rcases hbegun with (hfail | hfail) | htotal
  · exact absurd herror hfail
  · rw [hstop] at hfail
    cases hfail
  · exact htotal

theorem copy_added {relatedTestId id j : Int} (hstored : Stored entries)
    (hadded : Added lists lists' id .scanSnapshot relatedTestId entries)
    (hl : lists.get? j = some l) (hrole : l.role = .scanResult) :
    (∃ copy, lists'.get? id = some copy ∧ copy.role = .scanSnapshot ∧ copy.entries = entries) ∧
      ∀ l', lists'.get? j = some l' → l'.role ≠ .scanSnapshot := by
  obtain ⟨copy, hcopy, hcopyRole, -, hcopyEntries⟩ := hadded.list
  rw [unique_eq_self hstored] at hcopyEntries
  refine ⟨⟨copy, hcopy, hcopyRole, hcopyEntries⟩, ?_⟩
  intro l' hl'
  rw [hadded.others j (added_ne hadded hl), hl] at hl'
  rw [← some.inj hl', hrole]
  decide

theorem copyBase_ok (hspec : p.spec.entries = [])
    (hentries : entries ≠ []) (hstored : Stored entries) {scan : IpScan} (hscan : p.scan = scan.resetInitial)
    (hl : p.lists.get? p.scan.resultListId = some l) (hrole : l.role = .scanResult) :
    PreparedOk netip (copyBase netip p entries env) initial rescan := by
  unfold copyBase
  cases hadd : (if env.snapshotAdded then p.lists.addIpList .scanSnapshot p.scan.id entries else none) with
  | none =>
    refine preparedOk_failed ⟨?_, ?_, ?_, ?_, ?_, ?_, ?_⟩ hspec (.inl (by simp))
    all_goals simp only [hscan, IpScan.resetInitial, IpScan.rescan]
    all_goals first
      | exact known_neg _ (by omega)
      | simp
  | some added =>
    obtain ⟨lists, id⟩ := added
    split at hadd
    · have hadded := addIpList_spec hadd
      have hpos := hadded.pos
      obtain ⟨⟨copy, hcopy, hcopyRole, hcopyEntries⟩, hres⟩ := copy_added hstored hadded hl hrole
      have hcases := @countCopy_cases netip { p with
        scan := { p.scan with snapshotListId := id, seed := env.seed }
        lists := lists
        spec := initialSpec { p.scan with snapshotListId := id, seed := env.seed } entries }
        (fun scan total => { scan with total := total }) "The base IP list holds no valid target" env
      simp only
      generalize countCopy netip _ _ _ env = q at hcases
      obtain ⟨hlists, hqspec, hq⟩ := hcases
      have hne : q.spec.entries ≠ [] := by
        rw [hqspec]
        exact buildSpec_entries_ne_nil hentries _ _ _ _
      rw [hscan] at hq hqspec hres
      rcases hq with ⟨hqscan, hfail⟩ | hqscan
      · refine preparedOk_counted hne ⟨?_, ?_, ?_, ?_, ?_, ?_, ?_⟩ (by rw [hqscan, hlists]; exact hres) (.inl hfail)
        all_goals simp only [hqscan, hlists, IpScan.resetInitial, IpScan.rescan]
        all_goals first
          | exact known_neg _ (by omega)
          | exact hadded.copy_known
          | simp
      have hre : q.scan.rescan = false := by
        rw [hqscan]
        rfl
      have htotal : q.scan.activeTotal = (netip.newTargets q.spec).total := by
        rw [activeTotal, hre, hqscan, hqspec]
        rfl
      refine preparedOk_counted hne ?_ (by rw [hqscan, hlists]; exact hres) (.inr htotal)
      rw [beginInitial_new hne hre]
      refine ⟨?_, ?_, ?_, ?_, fun hc => absurd hc (by simp [hre]), ?_, ?_⟩
      · intro p' hp'
        rw [hqscan] at hp'
        exact absurd hp' (not_lt_zero p')
      · intro p' hp'
        rw [hqscan] at hp'
        exact absurd hp' (not_lt_zero p')
      · intro _ _
        rw [activeTotal, hre] at htotal
        refine ⟨⟨copy, ?_, hcopyRole, ?_⟩, htotal⟩
        · rw [hlists, hqscan]
          exact hcopy
        · rw [hcopyEntries, hqspec, hqscan]
          rfl
      · intro _ _ hc
        rw [hqscan] at hc
        have hc' : (-1 : Int) = id := hc
        omega
      · rw [hqscan, hlists]
        exact hadded.copy_known
      · rw [hqscan, hlists]
        exact known_neg _ (show (-1 : Int) < 0 by omega)
    · cases hadd

theorem prepareInitial_ok (h : Core netip p.scan p.lists initial rescan)
    (hspec : p.spec.entries = []) : PreparedOk netip (prepareInitial netip p env) initial rescan := by
  unfold prepareInitial
  cases hbase : (if env.baseRead then p.lists.get? p.scan.baseListId else none) with
  | none => exact preparedOk_failed h hspec (.inl (by simp))
  | some base =>
    simp only
    by_cases hempty : base.entries = []
    · rw [if_pos hempty]
      exact preparedOk_failed h hspec (.inl (by simp))
    rw [if_neg hempty]
    by_cases hfamily : scanWorkerFamilyFilter base.entries p.scan.config.scanIPv6 = []
    · rw [if_pos hfamily]
      exact preparedOk_failed h hspec (.inl (by simp))
    rw [if_neg hfamily]
    by_cases hstop : (p.stop || env.stopPrepare) = true
    · rw [if_pos hstop]
      exact preparedOk_failed h hspec (.inr rfl)
    rw [if_neg hstop]
    cases hensure : ensureScanResultList p.scan p.lists env with
    | none => exact preparedOk_failed h hspec (.inl (by simp))
    | some ensured =>
      obtain ⟨scan, lists⟩ := ensured
      obtain ⟨⟨rid, rfl⟩, hkeeps, l, hl, hrole⟩ := ensureScanResultList_spec hensure
      have hclear := touches_setEntries lists rid stored_nil
      obtain ⟨l', hl', hrole'⟩ : ∃ l', (lists.clearEntries rid).get? rid = some l' ∧ l'.role = .scanResult := by
        have := hclear.roles rid
        rw [hl, map_some, hrole] at this
        exact map_eq_some_iff.mp this
      -- neither copy that is deleted is the result list
      have hne : ∀ id, Known p.lists id → 0 ≤ id → rid ≠ id := by
        intro id hknown hpos hc
        have := ((hclear.known id (hkeeps.known id hknown)) hpos).2 l' (by rw [← hc]; exact hl')
        rw [hrole'] at this
        cases this
      refine copyBase_ok env hspec hfamily ?_ rfl (l := l') ?_ hrole'
      · exact base.stored.sublist (familyFilter_sublist _ _)
      show (deleteList (deleteList (lists.clearEntries rid) p.scan.snapshotListId)
        p.scan.rescanSnapshotListId).get? rid = some l'
      rw [deleteList_get? (hne _ h.rescanKnown), deleteList_get? (hne _ h.known)]
      exact hl'

theorem copyResults_ok (hspec : p.spec.entries = [])
    (hcore : Core netip p.scan p.lists initial rescan) (hentries : entries ≠ []) (hstored : Stored entries)
    (hcursor : p.scan.rescanCursor = 0) (htotal : p.scan.rescanTotal = 0)
    (hl : p.lists.get? p.scan.resultListId = some l) (hrole : l.role = .scanResult) :
    PreparedOk netip (copyResults netip p entries env) initial rescan := by
  unfold copyResults
  cases hadd : (if env.snapshotAdded then p.lists.addIpList .scanSnapshot p.scan.id entries else none) with
  | none => exact preparedOk_failed hcore hspec (.inl (by simp))
  | some added =>
    obtain ⟨lists, id⟩ := added
    split at hadd
    · have hadded := addIpList_spec hadd
      obtain ⟨⟨copy, hcopy, hcopyRole, hcopyEntries⟩, hres⟩ := copy_added hstored hadded hl hrole
      have hcases := @countCopy_cases netip { p with
        scan := { p.scan with rescanSnapshotListId := id, mode := .rescanResult, removed := 0, lastError := "" }
        lists := lists
        spec := rescanSpec entries }
        (fun scan total => { scan with rescanTotal := total }) "The result list holds no valid target" env
      simp only
      generalize countCopy netip _ _ _ env = q at hcases
      obtain ⟨hlists, hqspec, hq⟩ := hcases
      have hne : q.spec.entries ≠ [] := by
        rw [hqspec]
        exact buildSpec_entries_ne_nil hentries _ _ _ _
      have hinitial : 0 ≤ p.scan.snapshotListId → 0 < p.scan.total →
          Copy netip lists p.scan.snapshotListId (initialSpec p.scan) initial.spec p.scan.total ∧
            id ≠ p.scan.snapshotListId := by
        intro h1 h2
        obtain ⟨⟨l', hl', _⟩, _⟩ := hcore.copy h1 h2
        exact ⟨(hcore.copy h1 h2).keeps hadded.keepsCopies, (added_ne hadded hl').symm⟩
      have hre : q.scan.rescan = true := by
        rcases hq with ⟨hqscan, -⟩ | hqscan <;> rw [hqscan] <;> rfl
      have hresult : ∀ l', q.lists.get? q.scan.resultListId = some l' → l'.role ≠ .scanSnapshot := by
        rcases hq with ⟨hqscan, -⟩ | hqscan <;> rw [hqscan, hlists] <;> exact hres
      have hcore' : ∀ total, (0 < total → total = (netip.newTargets (rescanSpec entries)).total) →
          Core netip { p.scan with
            rescanSnapshotListId := id, mode := .rescanResult, removed := 0, lastError := "", rescanTotal := total }
            lists initial { spec := rescanSpec entries } := by
        intro total ht
        refine ⟨hcore.probed, ?_, fun h1 h2 => (hinitial h1 h2).1, fun h1 h2 => (hinitial h1 h2).2, ?_,
          hadded.known _ hcore.known, hadded.copy_known⟩
        · intro p' hp'
          have hp'' : p' < p.scan.rescanCursor := hp'
          omega
        · intro _ _ h3
          refine ⟨⟨copy, hcopy, hcopyRole, ?_⟩, ht h3⟩
          rw [hcopyEntries]
      rcases hq with ⟨hqscan, hfail⟩ | hqscan
      · refine preparedOk_counted hne ?_ hresult (.inl hfail)
        rw [beginInitial_rescan hre, beginRescan_new hne hre, hqscan, hlists, hqspec]
        have := hcore' p.scan.rescanTotal (by omega)
        exact this
      · refine preparedOk_counted hne ?_ hresult (.inr ?_)
        · rw [beginInitial_rescan hre, beginRescan_new hne hre, hqscan, hlists, hqspec]
          exact hcore' _ (fun _ => rfl)
        · rw [activeTotal, hre, hqscan, hqspec]
          rfl
    · cases hadd

include h in
theorem core_dropRescan :
    Core netip { scan with rescanSnapshotListId := -1, rescanCursor := 0, rescanTotal := 0 }
      (deleteList lists scan.rescanSnapshotListId) initial rescan := by
  refine ⟨h.probed, ?_, ?_, ?_, ?_, Known.deleteList h.known, known_neg _ (by simp)⟩
  · intro p hp
    exact absurd hp (not_lt_zero p)
  · intro h1 h2
    refine (h.copy h1 h2).keepsOne (deleteList_get? ?_)
    intro _ hc
    exact h.apart h1 h2 hc.symm
  · intro h1 _ hc
    simp only at h1 hc
    omega
  · intro _ h2
    simp only at h2
    omega

include h in
theorem Core.withResult (id : Int) :
    Core netip { scan with resultListId := id } lists initial rescan :=
  ⟨h.probed, h.rescanProbed, h.copy, h.apart, h.rescanCopy, h.known, h.rescanKnown⟩

theorem prepareRescan_ok (h : Core netip p.scan p.lists initial rescan)
    (hspec : p.spec.entries = []) : PreparedOk netip (prepareRescan netip p env) initial rescan := by
  unfold prepareRescan
  by_cases hstop : (p.stop || env.stopPrepare) = true
  · rw [if_pos hstop]
    exact preparedOk_failed h hspec (.inr rfl)
  rw [if_neg hstop]
  simp only
  cases hensure : ensureScanResultList { p.scan with rescanSnapshotListId := -1, rescanCursor := 0, rescanTotal := 0 }
      (deleteList p.lists p.scan.rescanSnapshotListId) env with
  | none => exact preparedOk_failed (core_dropRescan h) hspec (.inl (by simp))
  | some ensured =>
    obtain ⟨scan, lists⟩ := ensured
    obtain ⟨⟨rid, rfl⟩, hkeeps, l, hl, hrole⟩ := ensureScanResultList_spec hensure
    have hcore := ((core_dropRescan h).keeps hkeeps).withResult rid
    simp only
    by_cases hempty : readEntries env.resultRead lists rid = []
    · rw [if_pos hempty]
      exact preparedOk_failed hcore hspec (.inl (by simp))
    rw [if_neg hempty]
    by_cases hfamily : scanWorkerFamilyFilter (readEntries env.resultRead lists rid) p.scan.config.scanIPv6 = []
    · rw [if_pos hfamily]
      exact preparedOk_failed hcore hspec (.inl (by simp))
    rw [if_neg hfamily]
    exact copyResults_ok env hspec hcore hfamily
      ((readEntries_stored _ lists rid).sublist (familyFilter_sublist _ _)) rfl rfl hl hrole

theorem prepareResume_ok (h : Core netip p.scan p.lists initial rescan)
    (hspec : p.spec.entries = []) (hresume : p.scan.rescanResumable = true ∨ p.scan.canResumeInitial = true) :
    PreparedOk netip (prepareResume p env) initial rescan := by
  have hcore : Core netip (if p.scan.rescanResumable then p.scan else { p.scan with mode := .initial }) p.lists initial
      rescan := by
    split
    · exact h
    · exact ⟨h.probed, h.rescanProbed, h.copy, h.apart, fun hc => absurd hc (by simp [IpScan.rescan]), h.known,
        h.rescanKnown⟩
  have hgoes : (if p.scan.rescanResumable then p.scan else { p.scan with mode := .initial }).rescanResumable = true ∨
      (if p.scan.rescanResumable then p.scan else { p.scan with mode := .initial }).rescan = false ∧
        (if p.scan.rescanResumable then p.scan else { p.scan with mode := .initial }).canResumeInitial = true := by
    by_cases hre : p.scan.rescanResumable = true
    · rw [if_pos hre]
      exact .inl hre
    · rw [if_neg hre]
      exact .inr ⟨rfl, hresume.resolve_left hre⟩
  unfold prepareResume
  generalize (if p.scan.rescanResumable then p.scan else { p.scan with mode := .initial }) = scan at hcore hgoes
  by_cases hstop : (p.stop || env.stopPrepare) = true
  · rw [if_pos hstop]
    exact preparedOk_failed hcore hspec (.inr rfl)
  rw [if_neg hstop]
  cases hensure : ensureScanResultList scan p.lists env with
  | none => exact preparedOk_failed hcore hspec (.inl (by simp))
  | some ensured =>
    obtain ⟨scan', lists⟩ := ensured
    obtain ⟨⟨rid, rfl⟩, hkeeps, l, hl, hrole⟩ := ensureScanResultList_spec hensure
    refine preparedOk_resumed ((hcore.keeps hkeeps).withResult rid) hspec ?_ hgoes
    intro l' hl'
    have hl'' : lists.get? rid = some l' := hl'
    rw [hl] at hl''
    rw [← some.inj hl'', hrole]
    decide

theorem prepareStart_ok {w : World} (mode : StartMode) (env : PrepareEnv)
    (h : Core netip w.scan w.lists initial rescan) :
    PreparedOk netip (prepareStart netip w mode env) initial rescan := by
  have hcore : Core netip { w.scan with status := .running, lastError := "" } w.lists initial rescan :=
    ⟨h.probed, h.rescanProbed, h.copy, h.apart, h.rescanCopy, h.known, h.rescanKnown⟩
  unfold prepareStart
  by_cases hbase : w.scan.configPhase = true ∧ env.baseError ≠ ""
  · rw [if_pos hbase]
    exact preparedOk_failed hcore rfl (.inl hbase.2)
  rw [if_neg hbase]
  by_cases hstop : env.stopFirst = true
  · rw [if_pos hstop]
    exact preparedOk_failed hcore rfl (.inr rfl)
  rw [if_neg hstop]
  unfold preparePass
  cases mode with
  | fromInitial => exact prepareInitial_ok env hcore rfl
  | rescanResults => exact prepareRescan_ok env hcore rfl
  | resume =>
    simp only
    split
    · exact prepareInitial_ok env hcore rfl
    rename_i hresume
    refine prepareResume_ok env hcore rfl ?_
    by_cases hre : rescanResumable { w.scan with status := .running, lastError := "" } = true
    · exact .inl hre
    right
    by_contra hcan
    exact hresume ⟨by simpa using hre, by simpa using hcan⟩

variable (netip) in
/-- A worker before a chunk: it has the targets of its pass, and knows how many. -/
structure Ready (spec : Spec) (scan : IpScan) (lists : Store) (initial rescan : Pass) : Prop where
  total : scan.activeTotal = (netip.newTargets spec).total
  pass : spec = (if scan.rescan then rescan else initial).spec
  result : ∀ l, lists.get? scan.resultListId = some l → l.role ≠ .scanSnapshot

theorem loadSpec_ok (h : PreparedOk netip p initial rescan) (herror : p.error = "")
    (hstop : p.stop = false) :
    Core netip (loadSpec p env).scan (loadSpec p env).lists (beginInitial p initial) (beginRescan p rescan) ∧
      ((loadSpec p env).error = "" → Ready netip (loadSpec p env).spec (loadSpec p env).scan (loadSpec p env).lists
        (beginInitial p initial) (beginRescan p rescan)) := by
  have hresult := h.result herror hstop
  have hcore := h.core
  unfold loadSpec
  by_cases hspec : p.spec.entries ≠ []
  · rw [if_pos hspec]
    refine ⟨hcore, fun _ => ⟨h.begun herror hstop hspec, ?_, hresult⟩⟩
    cases hre : p.scan.rescan with
    | true => rw [beginRescan_new hspec hre, if_pos rfl]
    | false => rw [beginInitial_new hspec hre, if_neg (by simp)]
  rw [if_neg hspec]
  have hnil : p.spec.entries = [] := by simpa using hspec
  have hgoes := h.resumed herror hstop hnil
  cases hre : p.scan.rescan with
  | true =>
    have hresumable : 0 ≤ p.scan.rescanSnapshotListId ∧ p.scan.rescanCursor < p.scan.rescanTotal := by
      rcases hgoes with hgoes | hgoes
      · simp only [rescanResumable, decide_eq_true_eq] at hgoes
        exact hgoes.2
      · rw [hgoes.1] at hre
        cases hre
    obtain ⟨⟨l, hl, -, hbuild⟩, htotal⟩ := hcore.rescanCopy hre hresumable.1 (by omega)
    simp only [if_true]
    split
    · refine ⟨⟨hcore.probed, hcore.rescanProbed, hcore.copy, ?_, ?_, hcore.known, known_neg _ (by simp)⟩,
        by simp⟩
      · intro h1 _ hc
        simp only at h1 hc
        omega
      · intro _ h2
        simp only at h2
        omega
    · rename_i hread
      have hentries := readEntries_eq hl hread
      refine ⟨hcore, fun _ => ⟨?_, ?_, hresult⟩⟩
      · simp only [activeTotal, hre, if_true]
        rw [hentries, hbuild, htotal]
      · simp only [hre, if_true]
        rw [hentries, hbuild]
  | false =>
    have hresumable : 0 ≤ p.scan.snapshotListId ∧ 0 < p.scan.total := by
      rcases hgoes with hgoes | hgoes
      · simp only [rescanResumable, decide_eq_true_eq] at hgoes
        rw [hgoes.1] at hre
        cases hre
      have := hgoes.2
      simp only [canResumeInitial, decide_eq_true_eq] at this
      exact ⟨this.1, this.2.1⟩
    obtain ⟨⟨l, hl, -, hbuild⟩, htotal⟩ := hcore.copy hresumable.1 hresumable.2
    simp only [Bool.false_eq_true, if_false]
    split
    · refine ⟨⟨hcore.probed, hcore.rescanProbed, ?_, ?_, hcore.rescanCopy, known_neg _ (by simp),
        hcore.rescanKnown⟩, by simp⟩
      · intro h1
        simp only at h1
        omega
      · intro h1
        simp only at h1
        omega
    · rename_i hread
      have hentries := readEntries_eq hl hread
      refine ⟨hcore, fun _ => ⟨?_, ?_, hresult⟩⟩
      · simp only [activeTotal, hre, Bool.false_eq_true, if_false]
        rw [hentries, hbuild, htotal]
      · simp only [hre, Bool.false_eq_true, if_false]
        rw [hentries, hbuild]

theorem loadStart_ok {w : World} (mode : StartMode) (env : PrepareEnv) (h : Core netip w.scan w.lists initial rescan) :
    Core netip (loadStart netip w mode env).scan (loadStart netip w mode env).lists
        (beginInitial (prepareStart netip w mode env) initial) (beginRescan (prepareStart netip w mode env) rescan) ∧
      ((loadStart netip w mode env).error = "" → (loadStart netip w mode env).stop = false →
        Ready netip (loadStart netip w mode env).spec (loadStart netip w mode env).scan (loadStart netip w mode env).lists
          (beginInitial (prepareStart netip w mode env) initial) (beginRescan (prepareStart netip w mode env) rescan)) := by
  have hprepared := prepareStart_ok (w := w) mode env h
  unfold loadStart
  generalize prepareStart netip w mode env = p at hprepared
  by_cases herror : p.error ≠ ""
  · rw [if_pos herror]
    exact ⟨hprepared.core, fun hc => absurd hc herror⟩
  rw [if_neg herror]
  by_cases hstop : (p.stop || env.stopLoad) = true
  · rw [if_pos hstop]
    exact ⟨hprepared.core, fun _ hc => absurd hc (by simp)⟩
  rw [if_neg hstop]
  have hstop' : p.stop = false := by
    cases hp : p.stop with
    | false => rfl
    | true => simp [hp] at hstop
  have := loadSpec_ok env hprepared (by simpa using herror) hstop'
  exact ⟨this.1, fun h1 _ => this.2 h1⟩

/-! ## Runs -/

variable (netip) in
/-- The passes hold, a worker is ready, and what completed without the limit is complete. -/
structure Inv (t : Traced) : Prop where
  core : Core netip t.world.scan t.world.lists t.initial t.rescan
  ready : ∀ r, t.world.running = some r → Ready netip r.spec t.world.scan t.world.lists t.initial t.rescan
  completed : ∀ c ∈ t.completions, c.limited = false →
    c.total = (netip.newTargets c.pass.spec).total ∧ ∀ p, p < c.total → c.pass.Probed netip p

theorem inv_start (h : Inv netip t) (mode : StartMode) (env : PrepareEnv) :
    Inv netip (traceStart netip t mode env) := by
  have hload := loadStart_ok (w := t.world) mode env h.core
  unfold traceStart startRun
  generalize loadStart netip t.world mode env = q at hload
  by_cases hgo : q.error ≠ "" ∨ q.stop = true
  · rw [if_pos hgo]
    refine ⟨core_finishPass hload.1 _ _ _ _, ?_, h.completed⟩
    intro r hr
    cases hr
  rw [if_neg hgo]
  have hready := hload.2 (by simpa using fun hc => hgo (.inl hc)) (by simpa using fun hc => hgo (.inr hc))
  refine ⟨?_, ?_, h.completed⟩
  · simp only
    split
    · exact hload.1
    · exact ⟨hload.1.probed, hload.1.rescanProbed, hload.1.copy, hload.1.apart, hload.1.rescanCopy, hload.1.known,
        hload.1.rescanKnown⟩
  · intro r hr
    simp only [some.injEq] at hr
    rw [← hr]
    split
    · exact hready
    · exact ⟨hready.total, hready.pass, hready.result⟩

theorem chunk_completed {run : Run} {env : ChunkEnv} {error : String}
    (h : (chunk netip run env).2 = .returned true error) :
    run.scan.limitReached = true ∨ run.scan.activeTotal ≤ run.scan.activeCursor := by
  unfold chunk at h
  split at h
  · exact .inl (by assumption)
  split at h
  · exact .inr (by assumption)
  split at h
  · cases h
  unfold chunkBody at h
  simp only at h
  repeat' split at h
  all_goals cases h

include h in
/-- The positions before the cursor of the pass that runs. -/
theorem Core.active_probed (p : Nat) (hp : p < scan.activeCursor) :
    (if scan.rescan then rescan else initial).Probed netip p := by
  unfold activeCursor at hp
  cases hre : scan.rescan with
  | true =>
    rw [hre, if_pos rfl] at hp
    exact h.rescanProbed p hp
  | false =>
    rw [hre, if_neg (by simp)] at hp
    exact h.probed p hp

theorem inv_chunk (h : Inv netip t) (r : Running) (hr : t.world.running = some r) (env : ChunkEnv)
    (stopFinish : Bool) : Inv netip (traceChunk netip t r env stopFinish) := by
  have hready := h.ready r hr
  have hcore := @core_chunk netip _ _ (r.run t.world) env h.core hready.pass hready.result
  obtain ⟨removed, found, cursor, hscan, -⟩ := @chunk_scan netip (r.run t.world) env
  have htouches := @touches_chunk netip (r.run t.world) env
  have hready' : Ready netip r.spec (chunk netip (r.run t.world) env).1.scan (chunk netip (r.run t.world) env).1.lists
      (if (r.run t.world).scan.rescan then t.initial else t.initial.add (returnedResults netip (r.run t.world) env))
      (if (r.run t.world).scan.rescan then t.rescan.add (returnedResults netip (r.run t.world) env) else t.rescan) := by
    refine ⟨?_, ?_, ?_⟩
    · rw [hscan, setCursor_activeTotal]
      exact hready.total
    · rw [hscan, setCursor_rescan]
      have hsame : ((r.run t.world).scan.counted removed found).rescan = t.world.scan.rescan := rfl
      have hsame' : (r.run t.world).scan.rescan = t.world.scan.rescan := rfl
      rw [hready.pass, hsame, hsame']
      cases t.world.scan.rescan <;> rfl
    · rw [hscan, setCursor_resultListId]
      intro l' hl'
      obtain ⟨l, hl, hrole⟩ := htouches.role hl'
      rw [← hrole]
      exact hready.result l hl
  refine ⟨?_, ?_, ?_⟩
  · unfold traceChunk stepChunk
    generalize chunk netip (r.run t.world) env = outcome at hcore
    obtain ⟨run, loop⟩ := outcome
    cases loop with
    | again => exact hcore
    | returned completed error => exact core_finishPass hcore _ _ _ _
  · intro r' hr'
    unfold traceChunk stepChunk at hr' ⊢
    generalize chunk netip (r.run t.world) env = outcome at hready' hr'
    obtain ⟨run, loop⟩ := outcome
    cases loop with
    | again =>
      simp only [some.injEq] at hr'
      rw [← hr']
      exact hready'
    | returned completed error =>
      simp only [finishPass_running] at hr'
      cases hr'
  · intro c hc
    unfold traceChunk at hc
    simp only at hc
    split at hc
    · rename_i error hloop
      rcases mem_append.mp hc with hc | hc
      · exact h.completed c hc
      rw [mem_singleton.mp hc]
      intro hlimit
      rcases chunk_completed hloop with hl | hend
      · rw [hl] at hlimit
        cases hlimit
      refine ⟨?_, ?_⟩
      · show t.world.scan.activeTotal = (netip.newTargets (if t.world.scan.rescan then t.rescan else t.initial).spec).total
        rw [← hready.pass]
        exact hready.total
      · intro p hp
        exact (h.core.active_probed p (lt_of_lt_of_le hp hend)).add netip _
    · exact h.completed c hc

theorem inv_edit (h : Inv netip t) (listId : Int) (entries : List Lists.Entry) :
    Inv netip { t with world := step netip t.world (.edit listId entries) } := by
  have hedit : KeepsCopies t.world.lists (editList t.world.lists listId entries) ∧
      Touches t.world.lists (editList t.world.lists listId entries) listId := by
    unfold editList
    split
    · rename_i hrole
      have htouches := touches_setEntries t.world.lists listId (unique_stored entries)
      refine ⟨htouches.keepsCopies ?_, htouches⟩
      intro l hl
      rw [hl] at hrole
      simpa using hrole
    · exact ⟨KeepsCopies.refl _, refl _ _⟩
  refine ⟨h.core.keeps hedit.1, ?_, h.completed⟩
  intro r hr
  have hready := h.ready r hr
  refine ⟨hready.total, hready.pass, ?_⟩
  intro l' hl'
  obtain ⟨l, hl, hrole⟩ := hedit.2.role hl'
  rw [← hrole]
  exact hready.result l hl

theorem inv_step (t : Traced) (e : Event) (h : Inv netip t) : Inv netip (traceStep netip t e) := by
  cases e with
  | start mode env =>
    simp only [traceStep]
    split
    · exact h
    · exact inv_start h mode env
  | chunk env stopFinish =>
    simp only [traceStep]
    cases hr : t.world.running with
    | none => exact h
    | some r => exact inv_chunk h r hr env stopFinish
  | pause =>
    refine ⟨h.core, ?_, h.completed⟩
    intro r hr
    obtain ⟨r', hr', rfl⟩ := map_eq_some_iff.mp hr
    have := h.ready r' hr'
    exact ⟨this.total, this.pass, this.result⟩
  | edit listId entries => exact inv_edit h listId entries

end

/-- A scan that was added and not started yet. -/
def newWorld (id : Int) (kind : ScanKind) (baseListId resultListId : Int) (config : ScanConfig) (lists : Store) :
    World where
  scan := { id := id, kind := kind, baseListId := baseListId, resultListId := resultListId, config := config }
  lists := lists

def runTraced (netip : Netip) (w : World) (events : List Event) : Traced :=
  events.foldl (traceStep netip) { world := w }

/-- The cursors pass over positions with a result only, and a pass that was marked
completed without the limit has one for each of its positions. -/
structure NonePassedOver (netip : Netip) (t : Traced) : Prop where
  initial : ∀ p, p < t.world.scan.cursor → t.initial.Probed netip p
  rescan : ∀ p, p < t.world.scan.rescanCursor → t.rescan.Probed netip p
  completed : ∀ c ∈ t.completions, c.limited = false →
    c.total = (netip.newTargets c.pass.spec).total ∧ ∀ p, p < c.total → c.pass.Probed netip p

theorem foldl_traceStep_world (netip : Netip) (t : Traced) (events : List Event) :
    (events.foldl (traceStep netip) t).world = events.foldl (step netip) t.world := by
  induction events generalizing t with
  | nil => rfl
  | cons e events ih => rw [foldl_cons, foldl_cons, ih, traceStep_world]

theorem runTraced_world (netip : Netip) (w : World) (events : List Event) :
    (runTraced netip w events).world = events.foldl (step netip) w := foldl_traceStep_world netip { world := w } events

theorem inv_new (netip : Netip) (id : Int) (kind : ScanKind) (baseListId resultListId : Int) (config : ScanConfig)
    (lists : Store) : Inv netip { world := newWorld id kind baseListId resultListId config lists } := by
  refine ⟨⟨?_, ?_, ?_, ?_, ?_, ?_, ?_⟩, ?_, ?_⟩
  all_goals simp only [newWorld]
  all_goals first
    | exact known_neg _ (by omega)
    | simp

theorem inv_run (netip : Netip) (id : Int) (kind : ScanKind) (baseListId resultListId : Int) (config : ScanConfig)
    (lists : Store) (events : List Event) :
    Inv netip (runTraced netip (newWorld id kind baseListId resultListId config lists) events) :=
  foldl_keeps (traceStep netip) (Inv netip) inv_step events _ (inv_new netip id kind baseListId resultListId config lists)

/-- **No target is passed over.**  Whatever the calls and the checks answer, and however
often the scan is started, paused and resumed. -/
theorem cursor_probed (netip : Netip) (id : Int) (kind : ScanKind) (baseListId resultListId : Int) (config : ScanConfig)
    (lists : Store) (events : List Event) :
    (runTraced netip (newWorld id kind baseListId resultListId config lists) events).world =
        events.foldl (step netip) (newWorld id kind baseListId resultListId config lists) ∧
      NonePassedOver netip (runTraced netip (newWorld id kind baseListId resultListId config lists) events) := by
  have hinv := inv_run netip id kind baseListId resultListId config lists events
  exact ⟨runTraced_world netip _ events, hinv.core.probed, hinv.core.rescanProbed, hinv.completed⟩

end Waterdisco.Scan
