import Waterdisco.Scan.WorkerCursor

/-!
# What a rescan removes

    an entry that a step of a rescan pass takes out of the result list failed in the
    chunk and in every retry, with its family found up, or was replaced by a hit of
    the same address under another port                         (rescan_removed)

The retries look for the entry again because the text it is stored under is read back
as the address it stands for (`retry_failures`).
-/

namespace Waterdisco.Scan

open List Option Prod

/-! ## Where results come from -/

section
variable (netip : Netip)

/-- The entry stands for a target of the results. -/
def FromResults (results : List (Nat × Result)) (e : Lists.Entry) : Prop :=
  ∃ p r, (p, r) ∈ results ∧ e.cidr = entryText netip r.target.addr ∧ e.port = r.target.port

/-- The candidate stands for a target of the results. -/
def CandidateOf (results : List (Nat × Result)) (c : ProbeOutcome) : Prop :=
  ∃ p r, (p, r) ∈ results ∧ c.address = netip.string r.target.addr ∧ c.port = r.target.port

variable {netip}

variable {results : List (Nat × Result)}

theorem mem_failuresOf {localFailure : Bool} {e : Lists.Entry}
    (h : e ∈ failuresOf netip results localFailure) : FromResults netip results e := by
  obtain ⟨⟨p, r⟩, hmem, rfl⟩ := mem_map.mp h
  exact ⟨p, r, (mem_filter.mp hmem).1, rfl, rfl⟩

theorem mem_candidatesOf {scan : IpScan} {c : ProbeOutcome}
    (h : c ∈ candidatesOf netip scan results) : CandidateOf netip results c := by
  obtain ⟨⟨p, r⟩, hmem, rfl⟩ := mem_map.mp h
  exact ⟨p, r, (mem_filter.mp hmem).1, rfl, rfl⟩

theorem CandidateOf.entry {c : ProbeOutcome} (h : CandidateOf netip results c) :
    FromResults netip results (scanWorkerEntry c.address c.port 0) := by
  obtain ⟨p, r, hmem, haddress, hport⟩ := h
  refine ⟨p, r, hmem, ?_, hport⟩
  rw [haddress]
  rfl

end

/-! ## What a chunk result keeps -/

/-- Every row that is replaced has a hit of its address under another port. -/
def ReplacedByHits (result : ChunkResult) : Prop :=
  ∀ x ∈ result.replaced, ∃ hit ∈ result.hits, hit.cidr = x.cidr ∧ hit.port ≠ x.port

/-- What every chunk result has, with the failures that may be in it. -/
structure ChunkOk (P : Lists.Entry → Prop) (result : ChunkResult) : Prop where
  failures : ∀ e ∈ result.failures, P e
  replaced : ReplacedByHits result

section
variable {P : Lists.Entry → Prop} {result : ChunkResult}

variable (h : ChunkOk P result)

include h

theorem ChunkOk.addHit (rescan : Bool) (c : ProbeOutcome) (port latencyMs : Int) :
    ChunkOk P (addHit rescan result c port latencyMs) := by
  refine ⟨h.failures, ?_⟩
  intro x hx
  have hold : x ∈ result.replaced →
      ∃ hit ∈ (Scan.addHit rescan result c port latencyMs).hits, hit.cidr = x.cidr ∧ hit.port ≠ x.port := by
    intro hx
    obtain ⟨hit, hmem, hhit⟩ := h.replaced x hx
    exact ⟨hit, mem_append_left _ hmem, hhit⟩
  simp only [Scan.addHit] at hx
  split at hx
  · rename_i hport
    rcases mem_append.mp hx with hx | hx
    · exact hold hx
    · rw [mem_singleton.mp hx]
      exact ⟨scanWorkerEntry c.address port latencyMs, mem_append_right _ (by simp), rfl, hport.2⟩
  · exact hold hx

theorem ChunkOk.addFailure {c : ProbeOutcome} (hc : P (scanWorkerEntry c.address c.port 0)) :
    ChunkOk P (addFailure result c) := by
  refine ⟨?_, h.replaced⟩
  intro e he
  rcases mem_append.mp he with he | he
  · exact h.failures e he
  · rw [mem_singleton.mp he]
    exact hc

theorem ChunkOk.withAborted (aborted : Bool) : ChunkOk P { result with aborted := aborted } :=
  ⟨h.failures, h.replaced⟩

theorem ChunkOk.withError (error : String) : ChunkOk P { result with error := error } :=
  ⟨h.failures, h.replaced⟩

omit h

theorem chunkOk_empty : ChunkOk P {} := ⟨by simp, by simp [ReplacedByHits]⟩

include h in
theorem ChunkOk.addProbeHits (rescan : Bool) (candidates : List ProbeOutcome) :
    ChunkOk P (addProbeHits rescan candidates result) := by
  unfold Scan.addProbeHits
  induction candidates generalizing result with
  | nil => exact h
  | cons c candidates ih => exact ih (h.addHit rescan c _ _)

/-! ## The config tests -/

variable {batch : List ProbeOutcome}

theorem batchAt_mem {index : Int} {c : ProbeOutcome} (h : batchAt batch index = some c) : c ∈ batch := by
  unfold batchAt at h
  split at h
  · cases h
  · exact mem_of_getElem? h

variable (hbatch : ∀ c ∈ batch, P (scanWorkerEntry c.address c.port 0))

include h hbatch

theorem ChunkOk.addUnsupported
    (indices : List Int) : ChunkOk P (indices.foldl (addUnsupported batch) result) := by
  induction indices generalizing result with
  | nil => exact h
  | cons i indices ih =>
    refine ih ?_
    unfold Scan.addUnsupported
    split
    · exact h
    · rename_i c hc
      exact h.addFailure (hbatch c (batchAt_mem hc))

theorem ChunkOk.reportResult
    (rescan : Bool) (basePort : Int) (env : BatchEnv) (reported : List Int) (item : TestResult) :
    ChunkOk P (reportResult rescan basePort batch env (result, reported) item).1 := by
  unfold Scan.reportResult
  simp only
  split
  · exact h
  rename_i c hc
  split
  · exact h
  simp only
  split
  · exact h.addHit rescan c _ _
  split
  · exact h.withAborted true
  split
  · exact h.addHit rescan c _ _
  · exact h.addFailure (hbatch c (batchAt_mem hc))

theorem ChunkOk.reportResults
    (rescan : Bool) (basePort : Int) (env : BatchEnv) (items : List TestResult) (reported : List Int) :
    ChunkOk P (items.foldl (Scan.reportResult rescan basePort batch env) (result, reported)).1 := by
  induction items generalizing result reported with
  | nil => exact h
  | cons item items ih =>
    rw [foldl_cons]
    exact ih (h.reportResult hbatch rescan basePort env reported item) _

omit h hbatch

theorem testBatch_ok (rescan : Bool) (basePort : Int) (env : BatchEnv) (run : TestRun) (h : ChunkOk P run.result)
    (hbatch : ∀ c ∈ batch, P (scanWorkerEntry c.address c.port 0)) :
    ChunkOk P (testBatch rescan basePort batch env run).result := by
  unfold testBatch
  simp only
  split
  · exact h.withAborted true
  split
  · exact h
  split
  · exact h.addUnsupported hbatch _
  split
  · split
    · exact (h.addUnsupported hbatch _).withAborted true
    · exact h.addUnsupported hbatch _
  · exact ((h.addUnsupported hbatch _).reportResults hbatch rescan basePort env _ _).withAborted _

theorem testBatches_ok (rescan : Bool) (basePort : Int) (envs : Nat → BatchEnv) (bs : List (List ProbeOutcome)) (k : Nat)
    (run : TestRun) (h : ChunkOk P run.result)
    (hbatches : ∀ b ∈ bs, ∀ c ∈ b, P (scanWorkerEntry c.address c.port 0)) :
    ChunkOk P (testBatches rescan basePort envs bs k run).result := by
  induction bs generalizing k run with
  | nil => exact h
  | cons b bs ih =>
    have hb := testBatch_ok rescan basePort (envs k) run h (hbatches b (by simp))
    rw [testBatches]
    split
    · exact hb
    · exact ih _ _ hb (fun b' hb' => hbatches b' (.tail _ hb'))

theorem subBatch_pos (scan : IpScan) : 0 < scan.subBatch := by
  unfold IpScan.subBatch clamp
  split <;> omega

theorem testConfigs_ok (scan : IpScan) (basePort : Int) (envs : Nat → BatchEnv) {candidates : List ProbeOutcome}
    (stop : Bool) (h : ChunkOk P result) (hcandidates : ∀ c ∈ candidates, P (scanWorkerEntry c.address c.port 0)) :
    ChunkOk P (testConfigs scan basePort envs candidates result stop).result :=
  testBatches_ok _ _ _ _ _ _ h (fun _ hb c hc => hcandidates c (mem_of_mem_batches (subBatch_pos scan) hb hc))

end

/-! ## A chunk -/

section
variable {netip : Netip}

theorem runChunk_ok (scan : IpScan) (basePort : Int) (spec : Spec) (chunkStart maxTargets : Nat) (stop : Bool)
    (env : RunChunkEnv) :
    ChunkOk (FromResults netip
        (scanProbe netip (probeRequest scan spec chunkStart maxTargets) env.call).response.results)
      (runChunk netip scan basePort spec chunkStart maxTargets stop env).result := by
  unfold runChunk
  simp only
  generalize scanProbe netip (probeRequest scan spec chunkStart maxTargets) env.call = answer
  have hfailed : ∀ aborted, ChunkOk (FromResults netip answer.response.results)
      { failures := failuresOf netip answer.response.results false
        localFailures := failuresOf netip answer.response.results true, aborted := aborted } := by
    intro aborted
    exact ⟨fun e he => mem_failuresOf he, by simp [ReplacedByHits]⟩
  have hhits : ChunkOk (FromResults netip answer.response.results)
      (cutShort scan (candidatesOf netip scan answer.response.results)) := by
    unfold cutShort
    split
    · exact chunkOk_empty
    · exact chunkOk_empty.addProbeHits _ _
  split
  · split
    · exact hhits.withAborted true
    · exact hhits.withError _
  split
  · exact (hfailed _).addProbeHits _ _
  split
  · exact hfailed _
  split
  · exact hfailed true
  · exact (testConfigs_ok scan basePort env.batches _ (hfailed _)
      (fun c hc => (mem_candidatesOf hc).entry)).withError _

end

/-! ## Retries -/

/-- The entry has the text of a target. -/
def HostText (e : Lists.Entry) : Prop := ∃ a, e.cidr = entryText goNetip a

/-- One of the entries has the address and the port. -/
def HasKey (entries : List Lists.Entry) (e : Lists.Entry) : Prop := ∃ x ∈ entries, x.cidr = e.cidr ∧ x.port = e.port

theorem FromResults.hostText {results : List (Nat × Result)} {e : Lists.Entry} (h : FromResults goNetip results e) :
    HostText e := by
  obtain ⟨-, r, -, hcidr, -⟩ := h
  exact ⟨r.target.addr, hcidr⟩

variable {entries : List Lists.Entry} {lists : Store} (p : Prepared) (env : PrepareEnv)

theorem target_of_hosts (hhost : ∀ e ∈ entries, HostText e) {p : Nat} {t : Target}
    (hp : p < (goNetip.newTargets (rescanSpec entries)).total)
    (ht : (goNetip.newTargets (rescanSpec entries)).atPosition p = some t) :
    ∃ x ∈ entries, x.cidr = entryText goNetip t.addr ∧ x.port = t.port := by
  obtain ⟨entry, hentry, pre, ports, hvalid, hcontains, hport⟩ :=
    newTargets_target goNetip.trimSpace goNetip.parsePrefix goNetip.parseAddr (rescanSpec entries) rfl hp ht
  obtain ⟨x, hx, rfl⟩ := mem_map.mp hentry
  obtain ⟨a, ha⟩ := hhost x hx
  unfold validEntry at hvalid
  simp only [ha, parseTargetPrefix_entryText] at hvalid
  split at hvalid
  · cases hvalid
  obtain ⟨rfl, rfl⟩ := hvalid
  refine ⟨x, hx, ?_, ?_⟩
  · rw [ha, host_contains hcontains, entryText_unmapped]
  have hdefault : normalizePorts (rescanSpec entries).defaultPorts = [] := rfl
  have hmode : (rescanSpec entries).portMode = .list := rfl
  rw [hdefault, hmode] at hport
  unfold entryPorts at hport
  by_cases hzero : x.port.toNat ≠ 0
  · simp [hzero] at hport
    omega
  simp only [hzero] at hport
  simp at hport
  omega

theorem retry_failures (hhost : ∀ e ∈ entries, HostText e) (scan : IpScan) (basePort : Int)
    (maxTargets : Nat) (stop : Bool) (env : RunChunkEnv) :
    ∀ e ∈ (runChunk goNetip scan basePort (rescanSpec entries) 0 maxTargets stop env).result.failures,
      HasKey entries e := by
  intro e he
  obtain ⟨p, r, hmem, hcidr, hport⟩ :=
    (@runChunk_ok goNetip scan basePort (rescanSpec entries) 0 maxTargets stop env).failures e he
  obtain ⟨hp, hat⟩ := scanProbe_result goNetip _ _ hmem
  obtain ⟨x, hx, hx1, hx2⟩ := target_of_hosts hhost hp hat
  exact ⟨x, hx, by rw [hx1, hcidr], by rw [hx2, hport]⟩

/-- A retry that ended in neither an error nor an abort, and failed for the entry. -/
structure FailedAgain (e : Lists.Entry) (round : ChunkResult) : Prop where
  noError : round.error = ""
  notAborted : round.aborted = false
  failed : HasKey round.failures e

theorem confirmRounds_failures (scan : IpScan) (basePort : Int) (chunkStart : Nat) (envs : Nat → RoundEnv) (n k : Nat)
    (c : Confirmed) (hhost : ∀ f ∈ c.result.failures, HostText f) {e : Lists.Entry}
    (he : HasKey (confirmRounds goNetip scan basePort chunkStart envs n k c).result.failures e) :
    HasKey c.result.failures e ∧ ∀ round ∈ (confirmRounds goNetip scan basePort chunkStart envs n k c).rounds,
      round ∈ c.rounds ∨ FailedAgain e round := by
  have hempty : ¬ HasKey [] e := by
    rintro ⟨x, hx, -⟩
    cases hx
  induction n generalizing k c with
  | zero => exact ⟨he, fun round hr => .inl hr⟩
  | succ n ih =>
    rw [confirmRounds] at he ⊢
    simp only at he ⊢
    split at he
    · rename_i hnil
      rw [hnil] at he
      exact absurd he hempty
    rename_i hne
    simp only [if_neg hne]
    split at he
    · exact absurd he hempty
    rename_i hstop
    simp only [if_neg hstop]
    split at he
    · split at he
      · exact absurd he hempty
      · exact absurd he hempty
    rename_i hbad
    simp only [if_neg hbad]
    have hretry := retry_failures hhost scan basePort c.result.failures.length (c.stop || (envs k).stopWait)
      (envs k).chunk
    have hhost' := fun f hf => ((@runChunk_ok goNetip scan basePort (rescanSpec c.result.failures) 0
      c.result.failures.length (c.stop || (envs k).stopWait) (envs k).chunk).failures f hf).hostText
    obtain ⟨hkey, hrounds⟩ := ih _ _ hhost' he
    obtain ⟨y, hy, hy1, hy2⟩ := hkey
    obtain ⟨x, hx, hx1, hx2⟩ := hretry y hy
    refine ⟨⟨x, hx, hx1.trans hy1, hx2.trans hy2⟩, ?_⟩
    intro round hround
    rcases hrounds round hround with hr | hr
    · rcases mem_append.mp hr with hr | hr
      · exact .inl hr
      right
      rw [mem_singleton.mp hr]
      exact ⟨by simpa using fun hc => hbad (.inl hc), by simpa using fun hc => hbad (.inr hc), y, hy, hy1, hy2⟩
    · exact .inr hr

theorem confirmRounds_replaced (scan : IpScan) (basePort : Int) (chunkStart : Nat) (envs : Nat → RoundEnv) (n k : Nat)
    (c : Confirmed) (h : ReplacedByHits c.result) :
    ReplacedByHits (confirmRounds goNetip scan basePort chunkStart envs n k c).result := by
  induction n generalizing k c with
  | zero => exact h
  | succ n ih =>
    rw [confirmRounds]
    simp only
    split
    · exact h
    split
    · exact h
    split
    · split
      · exact h
      · exact h
    have hretry := (@runChunk_ok goNetip scan basePort (rescanSpec c.result.failures) 0
      c.result.failures.length (c.stop || (envs k).stopWait) (envs k).chunk).replaced
    refine ih _ _ ?_
    intro x hx
    rcases mem_append.mp hx with hx | hx
    · obtain ⟨hit, hmem, hhit⟩ := h x hx
      exact ⟨hit, mem_append_left _ hmem, hhit⟩
    · obtain ⟨hit, hmem, hhit⟩ := hretry x hx
      exact ⟨hit, mem_append_right _ hmem, hhit⟩

theorem confirmChunk_failures (run : Run) (env : ChunkEnv) {e : Lists.Entry}
    (he : HasKey (confirmChunk goNetip run run.stop env).result.failures e) :
    HasKey (firstChunk goNetip run run.stop env).result.failures e ∧
      ∀ round ∈ (confirmChunk goNetip run run.stop env).rounds, FailedAgain e round := by
  unfold confirmChunk at he ⊢
  simp only at he ⊢
  split at he
  · rename_i hretry
    simp only [if_pos hretry]
    have hhost := fun f hf => ((@runChunk_ok goNetip run.scan run.basePort run.spec run.scan.activeCursor
      run.scan.chunkSize run.stop env.first).failures f hf).hostText
    obtain ⟨hkey, hrounds⟩ := confirmRounds_failures run.scan run.basePort run.scan.activeCursor env.rounds rescanRetries
      0 _ hhost he
    refine ⟨hkey, ?_⟩
    intro round hround
    rcases hrounds round hround with hr | hr
    · cases hr
    · exact hr
  · rename_i hretry
    simp only [if_neg hretry]
    exact ⟨he, by simp⟩

theorem confirmChunk_replaced (run : Run) (env : ChunkEnv) :
    ReplacedByHits (confirmChunk goNetip run run.stop env).result := by
  have hfirst := (@runChunk_ok goNetip run.scan run.basePort run.spec run.scan.activeCursor
    run.scan.chunkSize run.stop env.first).replaced
  unfold confirmChunk
  simp only
  split
  · exact confirmRounds_replaced _ _ _ _ _ _ _ hfirst
  · exact hfirst

/-! ## What is stored -/

theorem hasKey_of_sameKey {e : Lists.Entry} (h : entries.any (sameKey e) = true) :
    HasKey entries e := by
  obtain ⟨x, hx, heq⟩ := any_eq_true.mp h
  simp only [sameKey, Bool.and_eq_true, decide_eq_true_eq] at heq
  exact ⟨x, hx, heq.1.symm, heq.2.symm⟩

theorem HasKey.upsertEntry {e : Lists.Entry} (h : HasKey entries e) (hit : Lists.Entry) :
    HasKey (upsertEntry entries hit) e := by
  obtain ⟨x, hx, h1, h2⟩ := h
  unfold Scan.upsertEntry
  split
  · exact ⟨x, hx, h1, h2⟩
  split
  · refine ⟨_, mem_map.mpr ⟨x, hx, rfl⟩, ?_⟩
    split <;> exact ⟨h1, h2⟩
  · exact ⟨x, mem_append_left _ hx, h1, h2⟩

theorem HasKey.upsert {e : Lists.Entry} (h : HasKey entries e) (hits : List Lists.Entry) :
    HasKey (hits.foldl Scan.upsertEntry entries) e := by
  induction hits generalizing entries with
  | nil => exact h
  | cons hit hits ih => exact ih (h.upsertEntry hit)

theorem hasKey_upserted (entries : List Lists.Entry) {hits : List Lists.Entry} {hit : Lists.Entry} (hmem : hit ∈ hits)
    (hne : hit.cidr ≠ "") : HasKey (hits.foldl upsertEntry entries) hit := by
  induction hits generalizing entries with
  | nil => cases hmem
  | cons x hits ih =>
    rcases mem_cons.mp hmem with rfl | hmem
    · refine HasKey.upsert ?_ hits
      unfold upsertEntry
      rw [if_neg hne]
      split
      · rename_i hany
        obtain ⟨y, hy, h1, h2⟩ := hasKey_of_sameKey hany
        refine ⟨_, mem_map.mpr ⟨y, hy, rfl⟩, ?_⟩
        split <;> exact ⟨h1, h2⟩
      · exact ⟨hit, mem_append_right _ (by simp), rfl, rfl⟩
    · exact ih _ hmem

namespace Store

theorem entries_setEntries {store : Store} {id : Int} {l : StoredList} (hl : store.get? id = some l)
    {entries : List Lists.Entry} (h : Stored entries) : (store.setEntries id entries h).entries id = entries := by
  unfold Store.entries
  rw [get?_setEntries, hl, map_some, if_pos (get?_id hl)]
  rfl

theorem entries_upsertEntries {store : Store} {id : Int} {l : StoredList} (hl : store.get? id = some l)
    (hits : List Lists.Entry) : (store.upsertEntries id hits).entries id = hits.foldl upsertEntry l.entries := by
  unfold Store.upsertEntries
  rw [hl]
  exact entries_setEntries hl _

theorem removed_key {store : Store} {id : Int} {dead : List Lists.Entry} {e : Lists.Entry}
    (h : HasKey (store.entries id) e) (hgone : ¬ HasKey ((store.removeEntries id dead).entries id) e) :
    HasKey dead e := by
  cases hl : store.get? id with
  | none =>
    have hsame : store.removeEntries id dead = store := by simp [Store.removeEntries, hl]
    rw [hsame] at hgone
    exact absurd h hgone
  | some l =>
    obtain ⟨x, hx, h1, h2⟩ := h
    rw [entries_of_get? hl] at hx
    have hentries : (store.removeEntries id dead).entries id = l.entries.filter (fun e => !dead.any (sameKey e)) := by
      unfold Store.removeEntries
      rw [hl]
      exact entries_setEntries hl _
    rw [hentries] at hgone
    by_cases hany : dead.any (sameKey x) = true
    · obtain ⟨d, hd, hd1, hd2⟩ := hasKey_of_sameKey hany
      exact ⟨d, hd, hd1.trans h1, hd2.trans h2⟩
    · exact absurd ⟨x, mem_filter.mpr ⟨hx, by simpa using hany⟩, h1, h2⟩ hgone

end Store

theorem storeChunk_lost {run : Run} {result : ChunkResult} {verdict : Verdict} {e : Lists.Entry}
    (h : HasKey (run.lists.entries run.scan.resultListId) e)
    (hgone : ¬ HasKey ((storeChunk run result verdict).lists.entries run.scan.resultListId) e) :
    HasKey result.replaced e ∨ HasKey (deadEntries run.scan.rescan result verdict) e := by
  unfold storeChunk at hgone
  split at hgone
  · exact absurd h hgone
  by_cases hstored : HasKey ((storeHits run.scan.rescan run.lists run.scan.resultListId result).entries
      run.scan.resultListId) e
  · right
    unfold removeDead at hgone
    split at hgone
    · exact absurd hstored hgone
    · exact Store.removed_key hstored hgone
  · left
    unfold storeHits at hstored
    split at hstored
    · exact absurd h hstored
    have hupsert : HasKey ((run.lists.upsertEntries run.scan.resultListId result.hits).entries
        run.scan.resultListId) e := by
      cases hl : run.lists.get? run.scan.resultListId with
      | none =>
        have hsame : run.lists.upsertEntries run.scan.resultListId result.hits = run.lists := by
          simp [Store.upsertEntries, hl]
        rw [hsame]
        exact h
      | some l =>
        rw [Store.entries_of_get? hl] at h
        rw [Store.entries_upsertEntries hl]
        exact h.upsert _
    split at hstored
    · exact Store.removed_key hupsert hstored
    · exact absurd hupsert hstored

/-! ## The reasons -/

/-- The check of the family of an entry was made in this turn, and answered up. -/
def FamilyUp (run : Run) (env : ChunkEnv) (e : Lists.Entry) : Prop :=
  if scanWorkerIsIpv6 e then (chunkVerdict goNetip run run.stop env).ipv6Up = true ∧ env.ipv6Up = true
  else (chunkVerdict goNetip run run.stop env).ipv4Up = true ∧ env.ipv4Up = true

/-- The entry failed in the chunk and in every retry that was made; there was no error
and no stop request before the network was checked, and its family was up. -/
structure FailedThroughout (run : Run) (env : ChunkEnv) (e : Lists.Entry) : Prop where
  failed : HasKey (firstChunk goNetip run run.stop env).result.failures e
  again : ∀ round ∈ (confirmChunk goNetip run run.stop env).rounds, FailedAgain e round
  up : FamilyUp run env e
  noError : (confirmChunk goNetip run run.stop env).result.error = ""
  notStopped : (confirmChunk goNetip run run.stop env).stop = false ∧ env.stopGuard = false

/-- A hit of the address under another port was stored. -/
def ReplacedByHit (run : Run) (env : ChunkEnv) (e : Lists.Entry) : Prop :=
  ∃ hit ∈ (confirmChunk goNetip run run.stop env).result.hits, hit.cidr = e.cidr ∧ hit.port ≠ e.port ∧
    HasKey ((run.lists.upsertEntries run.scan.resultListId
      (confirmChunk goNetip run run.stop env).result.hits).entries run.scan.resultListId) hit

/-- A verdict that lets entries go: no error, no stop request, and the checks as they were answered. -/
theorem verify_verified {rescan : Bool} {result : ChunkResult} {stop up4 up6 : Bool}
    (hguarded : (verify rescan result stop up4 up6).guarded = true)
    (hverified : (verify rescan result stop up4 up6).unverified = false) :
    result.error = "" ∧ stop = false ∧ ((verify rescan result stop up4 up6).ipv4Up = true → up4 = true) ∧
      ((verify rescan result stop up4 up6).ipv6Up = true → up6 = true) := by
  unfold verify at hguarded hverified ⊢
  by_cases hg : isGuarded rescan result = false
  · rw [if_pos hg] at hguarded
    cases hguarded
  rw [if_neg hg] at hverified ⊢
  cases stop with
  | true => cases hverified
  | false =>
    simp only [Bool.false_eq_true, if_false]
    have herror : result.error = "" := by
      simp only [isGuarded, Bool.not_eq_false, Bool.and_eq_true, decide_eq_true_eq] at hg
      exact hg.1.1
    refine ⟨herror, trivial, ?_, ?_⟩
    · unfold checkNetwork
      simp only
      split <;> exact fun h => h
    unfold checkNetwork
    simp only
    split
    all_goals
      intro h
      simp only [Bool.and_eq_true] at h
      exact h.2

theorem isIpv6_of_cidr {a b : Lists.Entry} (h : a.cidr = b.cidr) : scanWorkerIsIpv6 a = scanWorkerIsIpv6 b := by
  unfold scanWorkerIsIpv6
  rw [h]

theorem chunk_removed {run : Run} {env : ChunkEnv} {e : Lists.Entry}
    (h : e ∈ run.lists.entries run.scan.resultListId)
    (hgone : ¬ HasKey ((chunk goNetip run env).1.lists.entries run.scan.resultListId) e) :
    FailedThroughout run env e ∨ ReplacedByHit run env e := by
  have hkey : HasKey (run.lists.entries run.scan.resultListId) e := ⟨e, h, rfl, rfl⟩
  unfold chunk at hgone
  split at hgone
  · exact absurd hkey hgone
  split at hgone
  · exact absurd hkey hgone
  split at hgone
  · exact absurd hkey hgone
  rcases storeChunk_lost hkey hgone with hreplaced | hdead
  · right
    obtain ⟨x, hx, h1, h2⟩ := hreplaced
    obtain ⟨hit, hmem, hcidr, hport⟩ := confirmChunk_replaced run env x hx
    refine ⟨hit, hmem, hcidr.trans h1, by rw [← h2]; exact hport, ?_⟩
    cases hl : run.lists.get? run.scan.resultListId with
    | none =>
      simp [Store.entries, hl] at h
    | some l =>
      rw [Store.entries_upsertEntries hl]
      refine hasKey_upserted _ hmem ?_
      rw [hcidr.trans h1]
      exact (run.lists.entries_stored run.scan.resultListId).named e h
  left
  obtain ⟨x, hx, h1, h2⟩ := hdead
  unfold deadEntries at hx
  split at hx
  · rename_i hcond
    obtain ⟨hfail, hup⟩ := mem_filter.mp hx
    obtain ⟨herror, hstop, hup4, hup6⟩ := verify_verified hcond.2.1 hcond.2.2
    obtain ⟨hfirst, hagain⟩ := confirmChunk_failures run env ⟨x, hfail, h1, h2⟩
    refine ⟨hfirst, hagain, ?_, herror, by simpa using hstop⟩
    rw [isIpv6_of_cidr h1] at hup
    unfold FamilyUp
    split at hup
    · rename_i h6
      rw [if_pos h6]
      exact ⟨hup, hup6 hup⟩
    rename_i h6
    rw [if_neg h6]
    exact ⟨hup, hup4 hup⟩
  · cases hx

/-! ## Passes -/

/-- The step belongs to a rescan pass: its start, one of its turns, or a pause. -/
def InRescan (w : World) : Event → Prop
  | .start mode _ => w.running = none ∧ (mode = .rescanResults ∨ mode = .resume ∧ w.scan.rescanResumable = true)
  | .chunk _ _ => w.scan.rescan = true
  | .pause => True
  | .edit _ _ => False

/-- The list stays under its id. -/
def KeepsList (lists lists' : Store) (j : Int) : Prop := ∀ l, lists.get? j = some l → lists'.get? j = some l

theorem KeepsList.trans {a b c : Store} {j : Int} (hab : KeepsList a b j) (hbc : KeepsList b c j) : KeepsList a c j :=
  fun l h => hbc l (hab l h)

theorem keepsList_added {store store' : Store} {id j : Int} {role : Lists.Role} {relatedTestId : Int}
    (h : Store.Added store store' id role relatedTestId entries) :
    KeepsList store store' j := by
  intro l hl
  rw [h.others j (added_ne h hl)]
  exact hl

theorem keepsList_ensure {scan scan' : IpScan} {lists' : Store} {env : PrepareEnv} {j : Int}
    (h : ensureScanResultList scan lists env = some (scan', lists')) : KeepsList lists lists' j := by
  unfold ensureScanResultList at h
  split at h
  · simp only [some.injEq, mk.injEq] at h
    rw [h.2]
    exact fun l hl => hl
  split at h
  · obtain ⟨⟨lists'', id⟩, hadd, heq⟩ := map_eq_some_iff.mp h
    simp only [mk.injEq] at heq
    rw [← heq.2]
    exact keepsList_added (Store.addIpList_spec hadd)
  · cases h

theorem keepsList_delete {id j : Int} (h : 0 ≤ id → j ≠ id) : KeepsList lists (deleteList lists id) j := by
  intro l hl
  rw [deleteList_get? h]
  exact hl

theorem keepsList_countCopy (setTotal : IpScan → Nat → IpScan) (noTarget : String) (env : PrepareEnv) :
    (countCopy goNetip p setTotal noTarget env).lists = p.lists := by
  unfold countCopy
  split <;> rfl

theorem keepsList_prepareRescan {j : Int}
    (hj : 0 ≤ p.scan.rescanSnapshotListId → j ≠ p.scan.rescanSnapshotListId) :
    KeepsList p.lists (prepareRescan goNetip p env).lists j := by
  have hdelete := @keepsList_delete p.lists _ j hj
  unfold prepareRescan
  split
  · exact fun l hl => hl
  simp only
  split
  · exact hdelete
  rename_i scan' lists' hensure
  have hkept := hdelete.trans (keepsList_ensure hensure)
  split
  · exact hkept
  split
  · exact hkept
  unfold copyResults
  split
  · exact hkept
  rename_i lists'' id hadd
  rw [keepsList_countCopy]
  split at hadd
  · exact hkept.trans (keepsList_added (Store.addIpList_spec hadd))
  · cases hadd

theorem keepsList_prepareResume (j : Int) :
    KeepsList p.lists (prepareResume p env).lists j := by
  unfold prepareResume
  simp only
  split
  · exact fun l hl => hl
  split
  · exact fun l hl => hl
  · rename_i hensure
    exact keepsList_ensure hensure

theorem loadSpec_lists : (loadSpec p env).lists = p.lists := by
  unfold loadSpec
  simp only
  repeat' split
  all_goals rfl

theorem keepsList_startRun {w : World} {mode : StartMode} {env : PrepareEnv} {j : Int}
    (hmode : mode = .rescanResults ∨ mode = .resume ∧ w.scan.rescanResumable = true)
    (hj : 0 ≤ w.scan.rescanSnapshotListId → j ≠ w.scan.rescanSnapshotListId) :
    KeepsList w.lists (startRun goNetip w mode env).lists j := by
  have hprepare : KeepsList w.lists (prepareStart goNetip w mode env).lists j := by
    unfold prepareStart
    split
    · exact fun l hl => hl
    split
    · exact fun l hl => hl
    rcases hmode with rfl | ⟨rfl, hresumable⟩
    · exact keepsList_prepareRescan { scan := { w.scan with status := .running, lastError := "" }, lists := w.lists } env hj
    unfold preparePass
    have hgo : ({ w.scan with status := .running, lastError := "" } : IpScan).rescanResumable = true := hresumable
    simp only [hgo, Bool.true_eq_false, false_and, if_false]
    exact keepsList_prepareResume { scan := { w.scan with status := .running, lastError := "" }, lists := w.lists } env j
  have hload : (loadStart goNetip w mode env).lists = (prepareStart goNetip w mode env).lists := by
    unfold loadStart
    simp only
    split
    · rfl
    split
    · rfl
    · exact loadSpec_lists _ env
  unfold startRun finishPass
  simp only [Bool.false_eq_true, if_false]
  split
  · rw [hload]
    exact hprepare
  · rw [hload]
    exact hprepare

theorem keepsList_finishPass {scan : IpScan} (initialStatus : ScanStatus) (lists : Store) (stop completed : Bool)
    (error : String) {j : Int} (hrescan : scan.rescan = true)
    (hj : 0 ≤ scan.rescanSnapshotListId → j ≠ scan.rescanSnapshotListId) :
    KeepsList lists (finishPass initialStatus scan lists stop completed error).lists j := by
  unfold finishPass
  split
  · unfold finishCompleted
    simp only [if_pos hrescan]
    exact keepsList_delete hj
  · exact fun l hl => hl

theorem HasKey.kept {lists' : Store} {j : Int} {x : Lists.Entry} (h : HasKey (lists.entries j) x)
    (hk : KeepsList lists lists' j) : HasKey (lists'.entries j) x := by
  cases hl : lists.get? j with
  | none =>
    obtain ⟨y, hy, -⟩ := h
    simp [Store.entries, hl] at hy
  | some l =>
    rw [Store.entries_of_get? hl] at h
    rw [Store.entries_of_get? (hk l hl)]
    exact h

theorem stepChunk_removed {w : World} {r : Running} {env : ChunkEnv} {stopFinish : Bool} {x : Lists.Entry}
    (hrescan : w.scan.rescan = true)
    (hj : 0 ≤ w.scan.rescanSnapshotListId → w.scan.resultListId ≠ w.scan.rescanSnapshotListId)
    (hx : x ∈ w.lists.entries w.scan.resultListId)
    (hgone : ¬ HasKey ((stepChunk goNetip w r env stopFinish).lists.entries w.scan.resultListId) x) :
    FailedThroughout (r.run w) env x ∨ ReplacedByHit (r.run w) env x := by
  refine @chunk_removed (r.run w) env x hx ?_
  intro hkey
  apply hgone
  obtain ⟨removed, found, cursor, hscan, -⟩ := @chunk_scan goNetip (r.run w) env
  have hrescan' : (chunk goNetip (r.run w) env).1.scan.rescan = true := by
    rw [hscan, IpScan.setCursor_rescan]
    exact hrescan
  have hcopy : (chunk goNetip (r.run w) env).1.scan.rescanSnapshotListId = w.scan.rescanSnapshotListId := by
    rw [hscan]
    unfold IpScan.setCursor
    split <;> rfl
  unfold stepChunk
  split
  · rename_i run heq
    rwa [heq] at hkey
  rename_i run completed error heq
  rw [heq] at hkey hrescan' hcopy
  exact hkey.kept (keepsList_finishPass _ _ _ _ _ hrescan' (by rw [hcopy]; exact hj))

/-- **What a rescan removes.**  In every run, an entry that a step of a rescan pass takes
out of the result list is taken out by a turn: it failed in the chunk and in every retry,
with its family up, or a hit of its address under another port took its place. -/
theorem rescan_removed (id : Int) (kind : ScanKind) (baseListId resultListId : Int) (config : ScanConfig) (lists : Store)
    (events : List Event) (w : World)
    (hw : w = events.foldl (step goNetip) (newWorld id kind baseListId resultListId config lists))
    (e : Event) (hrescan : InRescan w e) (l : StoredList) (hl : w.lists.get? w.scan.resultListId = some l)
    (hrole : l.role = .scanResult) (x : Lists.Entry) (hx : x ∈ l.entries)
    (hgone : ¬ HasKey ((step goNetip w e).lists.entries w.scan.resultListId) x) :
    ∃ env stopFinish r, e = .chunk env stopFinish ∧ w.running = some r ∧
      (FailedThroughout (r.run w) env x ∨ ReplacedByHit (r.run w) env x) := by
  have hinv := inv_run goNetip id kind baseListId resultListId config lists events
  have hcore := hinv.core
  rw [runTraced_world, ← hw] at hcore
  have hj : 0 ≤ w.scan.rescanSnapshotListId → w.scan.resultListId ≠ w.scan.rescanSnapshotListId := by
    intro hpos hsame
    have hcopy := (hcore.rescanKnown hpos).2 l (by rw [← hsame]; exact hl)
    rw [hrole] at hcopy
    cases hcopy
  have hmem : x ∈ w.lists.entries w.scan.resultListId := by
    rw [Store.entries_of_get? hl]
    exact hx
  have hkey : HasKey (w.lists.entries w.scan.resultListId) x := ⟨x, hmem, rfl, rfl⟩
  cases e with
  | start mode env =>
    obtain ⟨hidle, hmode⟩ := hrescan
    simp only [step, hidle, isSome_none, Bool.false_eq_true, if_false] at hgone
    exact absurd (hkey.kept (keepsList_startRun hmode hj)) hgone
  | chunk env stopFinish =>
    cases hr : w.running with
    | none =>
      simp only [step, hr] at hgone
      exact absurd hkey hgone
    | some r =>
      simp only [step, hr] at hgone
      exact ⟨env, stopFinish, r, rfl, rfl, stepChunk_removed hrescan hj hmem hgone⟩
  | pause => exact absurd hkey hgone
  | edit listId entries => exact hrescan.elim

def oneTarget (passed : Bool) : RunChunkEnv :=
  { call := { probe := { events := [.launch, .finish 0 { passed := passed }] } } }

def oneHost : Lists.Entry := { cidr := "10.0.0.0", port := 443 }

def oneHostLists : Store := ((({} : Store).addIpList .user (-1) [oneHost]).map fst).getD {}

/-- A scan that found its one target, and a rescan that has begun. -/
def foundOnce : List Event :=
  [.start .fromInitial {}, .chunk { first := oneTarget true } false, .chunk {} false, .start .rescanResults {}]

def foundOnceWorld : World := foundOnce.foldl (step goNetip) (newWorld 7 .generic 1 (-1) { shuffle := false } oneHostLists)

def failedThroughoutTurn : Event :=
  .chunk { first := oneTarget false, rounds := fun _ => { chunk := oneTarget false } } false

theorem foundOnceWorld_result : (foundOnceWorld.lists.get? foundOnceWorld.scan.resultListId).isSome = true := by
  decide +kernel

/-- The target no longer answers, and goes. -/
theorem rescan_removed_foundOnce :
    ∃ env stopFinish r, failedThroughoutTurn = .chunk env stopFinish ∧ foundOnceWorld.running = some r ∧
      (FailedThroughout (r.run foundOnceWorld) env oneHost ∨ ReplacedByHit (r.run foundOnceWorld) env oneHost) := by
  have hgone : (step goNetip foundOnceWorld failedThroughoutTurn).lists.entries foundOnceWorld.scan.resultListId = [] := by
    decide +kernel
  refine rescan_removed 7 .generic 1 (-1) { shuffle := false } oneHostLists foundOnce foundOnceWorld rfl
    failedThroughoutTurn ?_ (get _ foundOnceWorld_result) (some_get _).symm ?_ oneHost ?_ ?_
  · show foundOnceWorld.scan.rescan = true
    decide +kernel
  · decide +kernel
  · decide +kernel
  · rw [hgone]
    rintro ⟨x, hx, -⟩
    cases hx

end Waterdisco.Scan
