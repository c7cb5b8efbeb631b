import Mathlib
import Waterdisco.Lib.Runs
import Waterdisco.Scan.Netip

/-!
# One probe call

`Probe` launches one goroutine for each position of a chunk; they finish in any
order, some not at all when the context is cancelled or the egress is lost.  The
cursor it returns is the first position without a result.

    start ≤ p < NextCursor  →  p has a result              (probe_finished)
    every result is the target of its position             (probe_result)
-/

namespace Waterdisco.Scan

open List Option Prod

/-! ## Goroutines -/

/-- What probing a target gives; `noEgress` is the cause `ErrNoEgress`. -/
structure Outcome where
  passed : Bool := true
  localFailure : Bool := false
  noEgress : Bool := false
  probePort : Nat := 0
  icmpMs : Int := 0
  tcpMs : Int := 0
  tlsMs : Int := 0
  httpMs : Int := 0
deriving DecidableEq

structure Result where
  target : Target
  outcome : Outcome
deriving DecidableEq

inductive ProbeEvent where
  /-- The launch loop goes around once. -/
  | launch
  /-- The context of the session is cancelled. -/
  | cancel
  /-- The goroutine of a position returns from `safeTarget`. -/
  | finish (index : Nat) (outcome : Outcome)
deriving DecidableEq

structure ProbeRun where
  launched : Nat := 0
  launching : Bool := true
  /-- The positions whose goroutine is over. -/
  ended : List Nat := []
  /-- The positions with a result, in the order the results were appended. -/
  finished : List (Nat × Outcome) := []
  cancelled : Bool := false
  egressLost : Bool := false

def probeStep (count : Nat) (run : ProbeRun) : ProbeEvent → ProbeRun
  | .launch =>
    if run.launching = false ∨ count ≤ run.launched then run
    else if run.cancelled then { run with launching := false }
    else { run with launched := run.launched + 1 }
  | .cancel => { run with cancelled := true }
  | .finish index outcome =>
    if index < run.launched ∧ index ∉ run.ended then
      let run := { run with ended := index :: run.ended }
      if outcome.noEgress then { run with egressLost := true, cancelled := true }
      -- a failure caused by the abort is not a measurement
      else if outcome.passed = false ∧ run.cancelled = true then run
      else { run with finished := run.finished ++ [(index, outcome)] }
    else run

def runProbe (count : Nat) (events : List ProbeEvent) : ProbeRun := events.foldl (probeStep count) {}

/-! ## The call -/

def maxChunkTargets : Int := 2 ^ 16

structure ProbeRequest where
  spec : Spec
  cursor : Nat
  maxTargets : Int
  icmp : Bool
  tcp : Bool
  http : Bool

def ProbeRequest.anyPhase (req : ProbeRequest) : Bool := req.icmp || req.tcp || req.http

/-- The results come with their positions here. -/
structure ProbeResponse where
  total : Nat := 0
  nextCursor : Nat := 0
  aborted : Bool := false
  results : List (Nat × Result) := []
deriving DecidableEq

/-- What a call meets: an error of `newProbePlan`, one of `icmpCheck`, and the run. -/
structure ProbeEnv where
  planError : Option String := none
  icmpError : Option String := none
  events : List ProbeEvent := []
deriving DecidableEq

def errEgressLost : String := "no default interface; the scan was paused"

/-- The first position that is not finished. -/
def firstUnfinished (count : Nat) (finished : List Nat) : Option Nat :=
  (range count).find? (fun i => !finished.contains i)

/-- The results of a chunk that begins at `start`. -/
def resultsOf (targets : Targets) (start : Nat) (finished : List (Nat × Outcome)) : List (Nat × Result) :=
  finished.filterMap (fun p => (targets.atPosition (start + p.1)).map (fun target => (start + p.1, ⟨target, p.2⟩)))

def probe (targets : Targets) (req : ProbeRequest) (env : ProbeEnv) : ProbeResponse × Option String :=
  let response : ProbeResponse := { total := targets.total, nextCursor := min req.cursor targets.total }
  if req.maxTargets ≤ 0 ∨ targets.total ≤ req.cursor then (response, none)
  else
    let count := min (min req.maxTargets maxChunkTargets).toNat (targets.total - req.cursor)
    match env.planError with
    | some error => (response, some error)
    | none =>
      if req.anyPhase = false then
        ({ response with
          results := resultsOf targets req.cursor ((range count).map (fun i => (i, {})))
          nextCursor := req.cursor + count }, none)
      else match if req.icmp then env.icmpError else none with
      | some error => (response, some error)
      | none =>
        let run := runProbe count env.events
        let next := firstUnfinished count (run.finished.map fst)
        ({ response with
          results := resultsOf targets req.cursor run.finished
          nextCursor := req.cursor + next.getD count
          aborted := next.isSome },
          if run.egressLost then some errEgressLost else none)

/-! ## The call over RPC -/

/-- What a `ScanProbe` call meets: the transport fails, the session is refused, or it runs. -/
structure CallEnv where
  transport : Option String := none
  acquire : Option String := none
  probe : ProbeEnv := {}

/-- What the caller gets; `ok` is whether an answer came at all. -/
structure ProbeAnswer where
  ok : Bool
  coreError : String := ""
  error : String := ""
  response : ProbeResponse := {}

def scanProbe (netip : Netip) (req : ProbeRequest) (env : CallEnv) : ProbeAnswer :=
  match env.transport with
  | some coreError => { ok := false, coreError := coreError }
  | none =>
    match if 0 < req.maxTargets then env.acquire else none with
    | some error => { ok := true, error := error }
    | none =>
      let answer := probe (netip.newTargets req.spec) req env.probe
      { ok := true, error := answer.2.getD "", response := answer.1 }

/-! ## What a call returns -/

/-- The positions with a result were launched, each once. -/
structure ProbeInv (count : Nat) (run : ProbeRun) : Prop where
  launched : run.launched ≤ count
  finished : ∀ p ∈ run.finished, p.1 < run.launched

theorem probeStep_inv (count : Nat) (run : ProbeRun) (e : ProbeEvent) (h : ProbeInv count run) :
    ProbeInv count (probeStep count run e) := by
  cases e with
  | launch =>
    simp only [probeStep]
    split
    · exact h
    split
    · exact ⟨h.launched, h.finished⟩
    refine ⟨?_, fun p hp => Nat.lt_succ_of_lt (h.finished p hp)⟩
    show run.launched + 1 ≤ count
    omega
  | cancel => exact ⟨h.launched, h.finished⟩
  | finish index outcome =>
    simp only [probeStep]
    split
    · rename_i hindex
      split
      · exact ⟨h.launched, h.finished⟩
      split
      · exact ⟨h.launched, h.finished⟩
      refine ⟨h.launched, ?_⟩
      intro p hp
      rcases mem_append.mp hp with hp | hp
      · exact h.finished p hp
      · rw [mem_singleton.mp hp]
        exact hindex.1
    · exact h

theorem runProbe_inv (count : Nat) (events : List ProbeEvent) : ProbeInv count (runProbe count events) :=
  foldl_keeps (probeStep count) (ProbeInv count) (probeStep_inv count) events {} ⟨Nat.zero_le _, by simp⟩

theorem firstUnfinished_spec {count i : Nat} {finished : List Nat}
    (h : i < (firstUnfinished count finished).getD count) :
    i < count ∧ i ∈ finished := by
  unfold firstUnfinished at h
  cases hf : (range count).find? (fun i => !finished.contains i) with
  | none =>
    rw [hf] at h
    rw [find?_range_eq_none] at hf
    have := hf i h
    exact ⟨h, by simpa using this⟩
  | some j =>
    rw [hf] at h
    simp only [getD_some] at h
    rw [find?_range_eq_some] at hf
    obtain ⟨-, hj, hall⟩ := hf
    have hi := hall i h
    have hjlt : j < count := mem_range.mp hj
    exact ⟨by omega, by simpa using hi⟩

variable {p : Nat} {r : Result} (netip : Netip) (req : ProbeRequest) (env : CallEnv)

theorem mem_resultsOf {targets : Targets} {start : Nat} {finished : List (Nat × Outcome)}
    (h : (p, r) ∈ resultsOf targets start finished) :
    targets.atPosition p = some r.target ∧ ∃ i, (i, r.outcome) ∈ finished ∧ p = start + i := by
  unfold resultsOf at h
  rw [mem_filterMap] at h
  obtain ⟨⟨i, outcome⟩, hmem, hr⟩ := h
  rw [map_eq_some_iff] at hr
  obtain ⟨target, ht, heq⟩ := hr
  obtain ⟨rfl, rfl⟩ := heq
  exact ⟨ht, i, hmem, rfl⟩

theorem resultsOf_of_mem {targets : Targets} {start i : Nat} {outcome : Outcome} {finished : List (Nat × Outcome)}
    (h : (i, outcome) ∈ finished) (hsome : (targets.atPosition (start + i)).isSome = true) :
    ∃ r, (start + i, r) ∈ resultsOf targets start finished := by
  obtain ⟨target, ht⟩ := isSome_iff_exists.mp hsome
  refine ⟨⟨target, outcome⟩, ?_⟩
  unfold resultsOf
  rw [mem_filterMap]
  exact ⟨(i, outcome), h, by rw [ht]; rfl⟩

theorem chunk_le {total cursor : Nat} {maxTargets : Int} (h : ¬ (maxTargets ≤ 0 ∨ total ≤ cursor)) :
    cursor + min (min maxTargets maxChunkTargets).toNat (total - cursor) ≤ total := by
  omega

/-- **Every position before the returned cursor has a result.** -/
theorem probe_finished (env : ProbeEnv) (p : Nat) (hstart : req.cursor ≤ p)
    (hp : p < (probe (netip.newTargets req.spec) req env).1.nextCursor) :
    ∃ r, (p, r) ∈ (probe (netip.newTargets req.spec) req env).1.results := by
  unfold probe at hp ⊢
  by_cases hcount : req.maxTargets ≤ 0 ∨ (netip.newTargets req.spec).total ≤ req.cursor
  · simp only [if_pos hcount] at hp
    omega
  simp only [if_neg hcount] at hp ⊢
  have hle := chunk_le hcount
  generalize min (min req.maxTargets maxChunkTargets).toNat ((netip.newTargets req.spec).total - req.cursor) = count
    at hp hle ⊢
  have hsome : ∀ i, i < count → ((netip.newTargets req.spec).atPosition (req.cursor + i)).isSome = true := by
    intro i hi
    apply newTargets_atPosition
    show req.cursor + i < (netip.newTargets req.spec).total
    omega
  have heq : p = req.cursor + (p - req.cursor) := by omega
  cases hplan : env.planError with
  | some error =>
    simp only [hplan] at hp
    omega
  | none =>
    simp only [hplan] at hp ⊢
    by_cases hphase : req.anyPhase = false
    · simp only [if_pos hphase] at hp ⊢
      have hi : p - req.cursor < count := by omega
      have hmem : (p - req.cursor, ({} : Outcome)) ∈ (range count).map (fun i => (i, ({} : Outcome))) :=
        mem_map.mpr ⟨p - req.cursor, mem_range.mpr hi, rfl⟩
      rw [heq]
      exact resultsOf_of_mem hmem (hsome _ hi)
    simp only [if_neg hphase] at hp ⊢
    cases hicmp : (if req.icmp then env.icmpError else none) with
    | some error =>
      simp only [hicmp] at hp
      omega
    | none =>
      simp only [hicmp] at hp ⊢
      have hbefore : p - req.cursor <
          (firstUnfinished count ((runProbe count env.events).finished.map fst)).getD count := by omega
      obtain ⟨hlt, hfin⟩ := firstUnfinished_spec hbefore
      obtain ⟨⟨i, outcome⟩, hmem, hi⟩ := mem_map.mp hfin
      subst hi
      rw [heq]
      exact resultsOf_of_mem hmem (hsome _ hlt)

theorem probe_result (targets : Targets) (req : ProbeRequest) (env : ProbeEnv)
    (h : (p, r) ∈ (probe targets req env).1.results) : p < targets.total ∧ targets.atPosition p = some r.target := by
  unfold probe at h
  by_cases hcount : req.maxTargets ≤ 0 ∨ targets.total ≤ req.cursor
  · simp [if_pos hcount] at h
  simp only [if_neg hcount] at h
  have hle := chunk_le hcount
  generalize min (min req.maxTargets maxChunkTargets).toNat (targets.total - req.cursor) = count at h hle
  cases hplan : env.planError with
  | some error => simp [hplan] at h
  | none =>
    simp only [hplan] at h
    by_cases hphase : req.anyPhase = false
    · simp only [if_pos hphase] at h
      obtain ⟨ht, i, hi, rfl⟩ := mem_resultsOf h
      obtain ⟨j, hj, heq⟩ := mem_map.mp hi
      rw [mem_range] at hj
      simp only [mk.injEq] at heq
      exact ⟨by omega, ht⟩
    simp only [if_neg hphase] at h
    cases hicmp : (if req.icmp then env.icmpError else none) with
    | some error => simp [hicmp] at h
    | none =>
      simp only [hicmp] at h
      obtain ⟨ht, i, hi, rfl⟩ := mem_resultsOf h
      have hinv := runProbe_inv count env.events
      have := hinv.finished _ hi
      have := hinv.launched
      exact ⟨by omega, ht⟩

/-- The answer of a call that ran is the one of `probe`; any other is empty. -/
theorem scanProbe_response :
    (scanProbe netip req env).response = (probe (netip.newTargets req.spec) req env.probe).1 ∨
      (scanProbe netip req env).response = {} := by
  unfold scanProbe
  cases env.transport with
  | some coreError => exact .inr rfl
  | none =>
    cases (if 0 < req.maxTargets then env.acquire else none) with
    | some error => exact .inr rfl
    | none => exact .inl rfl

/-- Every position between the cursor of a call and the one it answers has a result. -/
theorem scanProbe_finished (p : Nat) (hstart : req.cursor ≤ p)
    (hp : p < (scanProbe netip req env).response.nextCursor) :
    ∃ r, (p, r) ∈ (scanProbe netip req env).response.results := by
  rcases scanProbe_response netip req env with h | h
  · rw [h] at hp ⊢
    exact probe_finished netip req env.probe p hstart hp
  · rw [h] at hp
    exact absurd hp (Nat.not_lt_zero p)

theorem scanProbe_result
    (h : (p, r) ∈ (scanProbe netip req env).response.results) :
    p < (netip.newTargets req.spec).total ∧ (netip.newTargets req.spec).atPosition p = some r.target := by
  rcases scanProbe_response netip req env with hr | hr
  · rw [hr] at h
    exact probe_result _ req env.probe h
  · rw [hr] at h
    cases h

theorem scanProbe_count {netip : Netip} {req : ProbeRequest} {env : CallEnv} (hmax : req.maxTargets ≤ 0)
    (hok : (scanProbe netip req env).ok = true) :
    (scanProbe netip req env).response.total = (netip.newTargets req.spec).total := by
  unfold scanProbe at hok ⊢
  cases htransport : env.transport with
  | some coreError => simp [htransport] at hok
  | none =>
    rw [if_neg (show ¬ 0 < req.maxTargets by omega)]
    rw [probe, if_pos (.inl hmax)]

end Waterdisco.Scan
