import Waterdisco.Lib.Meters
import Waterdisco.Lib.Runs
import Mathlib.Algebra.Order.Monoid.Prod
import Mathlib.Algebra.Order.Sub.Prod
import Mathlib.Algebra.Order.Ring.Nat
import Mathlib.Algebra.Order.Sub.Basic

/-!
# Traffic of the processes

`ConnectionLister::update` polls the core's connections and credits each process with what its
connections carried since the poll before.  The core answers with the live connections and a
ring of the recently closed ones, read one after the other.

    update d l resp            one answer
    poll d l answer            a failed query is an empty answer
-/

namespace Waterdisco.Stats

open List Reading

/-- Bytes up and down. -/
abbrev Traffic := Nat × Nat

/-- The fields that the statistics read. -/
structure ConnectionMetaData where
  id : String
  upload : Nat
  download : Nat
  process : String
  processPath : String
deriving DecidableEq

structure QueryConnectionsResp where
  active : List ConnectionMetaData := []
  closed : List ConnectionMetaData := []

/-- A call of `AddAppDelta`. -/
structure AppDelta where
  processName : String
  path : String
  delta : Traffic

structure ConnectionLister where
  lastBytes : String → Option Traffic := fun _ => none
  accountedClosed : List String := []
  deltas : List AppDelta := []

def ConnectionMetaData.traffic (c : ConnectionMetaData) : Traffic := (c.upload, c.download)

def ConnectionMetaData.processName (c : ConnectionMetaData) : String :=
    if c.process.isEmpty then "Unknown" else c.process

namespace ConnectionLister

/-- What the counters grew by; a counter that shrank counts as 0. -/
def grown (l : ConnectionLister) (c : ConnectionMetaData) : Traffic := c.traffic - (l.lastBytes c.id).getD 0

def credit (l : ConnectionLister) (c : ConnectionMetaData) : List AppDelta :=
  if l.grown c = 0 then [] else [{ processName := c.processName, path := c.processPath, delta := l.grown c }]

/-- The baseline is that of the poll before for both lists. -/
def update (disableTrafficStats : Bool) (l : ConnectionLister) (resp : QueryConnectionsResp) : ConnectionLister :=
  if disableTrafficStats then l
  else
    { lastBytes := resp.active.foldl (fun last c => Function.update last c.id (some c.traffic)) (fun _ => none)
      accountedClosed := resp.closed.map ConnectionMetaData.id
      deltas := l.deltas ++ resp.active.flatMap l.credit ++
        (resp.closed.filter (fun c => !l.accountedClosed.contains c.id)).flatMap l.credit }

/-- `QueryConnections` of a failed call. -/
def queryConnections (answer : Option QueryConnectionsResp) : QueryConnectionsResp := answer.getD {}

def poll (disableTrafficStats : Bool) (l : ConnectionLister) (answer : Option QueryConnectionsResp) : ConnectionLister :=
  l.update disableTrafficStats (queryConnections answer)

def polls (answers : List (Option QueryConnectionsResp)) : ConnectionLister := answers.foldl (poll false) {}

def credited (l : ConnectionLister) (processName : String) : Traffic :=
  ((l.deltas.filter (fun d => d.processName = processName)).map AppDelta.delta).sum

end ConnectionLister

open ConnectionLister (queryConnections)

/-! ## What the core reported -/

def ConnectionMetaData.reading (c : ConnectionMetaData) : Reading String String Traffic :=
  { meter := c.id, owner := c.processName, value := c.traffic }

open ConnectionMetaData (reading)

@[simp] theorem reading_meter (c : ConnectionMetaData) : c.reading.meter = c.id := rfl

@[simp] theorem reading_owner (c : ConnectionMetaData) : c.reading.owner = c.processName := rfl

/-- In the order in which they were read: the active list before the closed one. -/
def QueryConnectionsResp.reports (resp : QueryConnectionsResp) : List (Reading String String Traffic) :=
  resp.active.map reading ++ resp.closed.map reading

def reports (answers : List (Option QueryConnectionsResp)) : List (Reading String String Traffic) :=
  answers.flatMap (fun answer => (queryConnections answer).reports)

open ConnectionLister

/-- **Every process is credited with the last counters of its connections.** -/
def CreditsAll (answers : List (Option QueryConnectionsResp)) : Prop :=
  ∀ processName, (polls answers).credited processName = total (reports answers) processName

def QueryConnectionsResp.has (id : String) (resp : QueryConnectionsResp) : Bool :=
  resp.active.any (fun c => c.id == id) || resp.closed.any (fun c => c.id == id)

/-- What holds of the connections in all answers so far. -/
structure Metered (answers : List (Option QueryConnectionsResp)) : Prop where
  oneProcess : OneOwner (reports answers)
  distinctActive : ∀ resp, some resp ∈ answers → (resp.active.map ConnectionMetaData.id).Nodup
  distinctClosed : ∀ resp, some resp ∈ answers → (resp.closed.map ConnectionMetaData.id).Nodup
  neverShrink : (reports answers).Pairwise (fun a b => a.meter = b.meter → a.value ≤ b.value)

/-- Connections that are active for some polls, then in the ring for some, then gone. -/
structure Connections (answers : List (Option QueryConnectionsResp)) : Prop extends Metered answers where
  staysClosed : (answers.filterMap (·)).Pairwise
    (fun a b => ∀ id, id ∈ a.closed.map ConnectionMetaData.id → id ∉ b.active.map ConnectionMetaData.id)
  staysGone : ∀ id,
    (((answers.filterMap (·)).dropWhile (fun resp => !resp.has id)).dropWhile (·.has id)).all (fun resp => !resp.has id) = true

/-! ## Steady polls -/

/-- The answer before the next one. -/
def previous (before : List (Option QueryConnectionsResp)) : QueryConnectionsResp :=
  queryConnections before.getLast?.join

/-- The last counters of a connection are the ones that the next answer is compared with. -/
structure Steady (before : List (Option QueryConnectionsResp)) (answer : Option QueryConnectionsResp) : Prop where
  /-- A connection that was reported before was active in the poll before, unless it carried nothing. -/
  active : ∀ c ∈ (queryConnections answer).active,
    last ((previous before).active.map reading) c.id = last (reports before) c.id
  /-- So was one that is new in the ring; it carried nothing between the two lists of one poll. -/
  closed : ∀ c ∈ (queryConnections answer).closed, c.id ∉ (previous before).closed.map ConnectionMetaData.id →
    last ((previous before).active.map reading) c.id = last (reports before) c.id ∧
      ∀ a ∈ (queryConnections answer).active, a.id = c.id → a.traffic = last (reports before) c.id
  /-- A connection in the ring keeps its counters. -/
  ring : ∀ c ∈ (queryConnections answer).closed, c.id ∈ (previous before).closed.map ConnectionMetaData.id →
    c.traffic = last
      (reports before ++ (queryConnections answer).active.map reading) c.id

/-- Every answer of the run is steady when it comes. -/
def SteadyRun (answers : List (Option QueryConnectionsResp)) : Prop :=
  AllMeet (fun before answer => before ++ [answer]) Steady [] answers

/-! ## One poll -/

theorem foldl_concat {α : Type} (l l' : List α) : l'.foldl (fun before a => before ++ [a]) l = l ++ l' := by
  induction l' generalizing l with
  | nil => rw [foldl_nil, append_nil]
  | cons a l' ih => rw [foldl_cons, ih, append_assoc, singleton_append]

theorem reports_concat (before : List (Option QueryConnectionsResp)) (answer : Option QueryConnectionsResp) :
    reports (before ++ [answer]) = reports before ++ (queryConnections answer).reports := by
  simp [reports]

theorem previous_concat (before : List (Option QueryConnectionsResp)) (answer : Option QueryConnectionsResp) :
    previous (before ++ [answer]) = queryConnections answer := by
  simp [previous]

namespace ConnectionLister

theorem lastBytes_update (l : ConnectionLister) (resp : QueryConnectionsResp) (id : String) :
    ((l.update false resp).lastBytes id).getD 0 = last (resp.active.map reading) id := by
  rw [update, if_neg Bool.false_ne_true]
  dsimp only
  induction resp.active using reverseRecOn with
  | nil => rfl
  | append_singleton front c ih =>
    rw [foldl_append, map_append, map_singleton, last_concat]
    by_cases hid : c.id = id
    · subst hid
      simp [reading]
    · rw [foldl_cons, foldl_nil, Function.update_of_ne (Ne.symm hid), ih]
      exact (if_neg hid).symm

theorem sum_credit_one (l : ConnectionLister) (c : ConnectionMetaData) (processName : String) :
    (((l.credit c).filter (fun d => d.processName = processName)).map AppDelta.delta).sum =
      if c.processName = processName then l.grown c else 0 := by
  rw [credit]
  by_cases hzero : l.grown c = 0
  · rw [if_pos hzero, hzero, ite_self]
    rfl
  · rw [if_neg hzero]
    by_cases hname : c.processName = processName <;> simp [hname]

theorem sum_credit (l : ConnectionLister) (accounted : ConnectionMetaData → Bool)
    (inc : Reading String String Traffic → Traffic)
    (cs : List ConnectionMetaData) (h : ∀ c ∈ cs,
      inc c.reading = if accounted c then 0 else l.grown c) (processName : String) :
    ((((cs.filter (fun c => !accounted c)).flatMap l.credit).filter (fun d =>
      d.processName = processName)).map AppDelta.delta).sum =
      (((cs.map reading).filter (fun r => r.owner = processName)).map inc).sum := by
  induction cs with
  | nil => rfl
  | cons c cs ih =>
    have hrest := ih (fun a ha => h a (.tail _ ha))
    have hc := h c mem_cons_self
    have hright : (((((c :: cs).map reading)).filter (fun r => r.owner = processName)).map inc).sum =
        (if c.processName = processName then inc c.reading else 0) +
          (((cs.map reading).filter (fun r => r.owner = processName)).map inc).sum := by
      by_cases hname : c.processName = processName <;> simp [hname]
    rw [hright, ← hrest, hc]
    cases haccounted : accounted c with
    | true => simp [haccounted]
    | false =>
      rw [filter_cons_of_pos (by simp [haccounted]), flatMap_cons, filter_append, map_append, sum_append,
        sum_credit_one, if_neg Bool.false_ne_true]

end ConnectionLister

/-! ## Runs -/

/-- What a poll goes by, after the answers so far. -/
structure Agrees (before : List (Option QueryConnectionsResp)) (l : ConnectionLister) : Prop where
  lastBytes : ∀ id, (l.lastBytes id).getD 0 = last ((previous before).active.map reading) id
  accounted : l.accountedClosed = (previous before).closed.map ConnectionMetaData.id
  credits : ∀ processName, l.credited processName = total (reports before) processName

variable {before : List (Option QueryConnectionsResp)} {answer : Option QueryConnectionsResp} {l : ConnectionLister}

theorem Metered.append_left {after : List (Option QueryConnectionsResp)} (h : Metered (before ++ after)) :
    Metered before := by
  obtain ⟨howner, hactive, hclosed, hshrink⟩ := h
  rw [reports, flatMap_append] at howner hshrink
  exact ⟨howner.append_left, fun resp hresp => hactive resp (mem_append_left _ hresp),
    fun resp hresp => hclosed resp (mem_append_left _ hresp), (pairwise_append.mp hshrink).1⟩

theorem le_of_neverShrink {l new : List (Reading String String Traffic)}
    (h : (l ++ new).Pairwise (fun a b => a.meter = b.meter → a.value ≤ b.value)) :
    ∀ r ∈ new, last l r.meter ≤ r.value := by
  intro r hr
  rcases last_mem l r.meter with hzero | ⟨a, ha, hmeter, hvalue⟩
  · rw [hzero]
    exact zero_le
  · rw [hvalue]
    exact (pairwise_append.mp h).2.2 a ha r hr hmeter

theorem map_meter (cs : List ConnectionMetaData) :
    (cs.map reading).map meter = cs.map ConnectionMetaData.id := by
  rw [map_map]
  rfl

theorem Metered.nodup
    (h : Metered (before ++ [answer])) :
    ((queryConnections answer).active.map ConnectionMetaData.id).Nodup ∧
      ((queryConnections answer).closed.map ConnectionMetaData.id).Nodup := by
  cases answer with
  | none => exact ⟨nodup_nil, nodup_nil⟩
  | some resp => exact ⟨h.distinctActive resp (by simp), h.distinctClosed resp (by simp)⟩

theorem Agrees.grown_active {resp : QueryConnectionsResp}
    (h : Agrees before l) (hids : (resp.active.map ConnectionMetaData.id).Nodup)
    (hle : ∀ r ∈ resp.active.map reading, last (reports before) r.meter ≤ r.value)
    (hactive : ∀ c ∈ resp.active,
      last ((previous before).active.map reading) c.id = last (reports before) c.id) :
    Grown (fun r => r.value - (l.lastBytes r.meter).getD 0) (reports before)
      (resp.active.map reading) := by
  apply grown_of_nodup
  · rwa [map_meter]
  intro r hr
  have hgrown := hle r hr
  obtain ⟨c, hc, rfl⟩ := mem_map.mp hr
  simp only [reading_meter] at hgrown ⊢
  rw [h.lastBytes, hactive c hc, add_tsub_cancel_of_le hgrown]

/-- The growth of the ring: none for what it held before, and none between the two lists. -/
theorem Agrees.grown_closed
    (h : Agrees before l) (hmetered : Metered (before ++ [answer])) (hsteady : Steady before answer)
    (hle : ∀ r ∈ (queryConnections answer).closed.map reading,
      last (reports before ++ (queryConnections answer).active.map reading) r.meter ≤ r.value) :
    Grown (fun r => if l.accountedClosed.contains r.meter then 0 else r.value - (l.lastBytes r.meter).getD 0)
      (reports before ++ (queryConnections answer).active.map reading)
      ((queryConnections answer).closed.map reading) := by
  obtain ⟨hactiveIds, hclosedIds⟩ := hmetered.nodup
  apply grown_of_nodup
  · rwa [map_meter]
  intro r hr
  have hgrown := hle r hr
  obtain ⟨c, hc, rfl⟩ := mem_map.mp hr
  by_cases hring : c.reading.meter ∈ l.accountedClosed
  · rw [if_pos (contains_iff_mem.mpr hring), add_zero]
    exact hsteady.ring c hc (h.accounted ▸ hring)
  obtain ⟨hlast, hboth⟩ := hsteady.closed c hc (h.accounted ▸ hring)
  have hsame : last
      (reports before ++ (queryConnections answer).active.map reading) c.id =
        last (reports before) c.id := by
    by_cases hin : ∃ a ∈ (queryConnections answer).active, a.id = c.id
    · obtain ⟨a, ha, hid⟩ := hin
      have hread := last_append_of_mem (l := reports before) (by rwa [map_meter]) (mem_map_of_mem ha)
      rw [reading_meter, hid] at hread
      exact hread.trans (hboth a ha hid)
    · apply last_append_unread
      intro r hr heq
      obtain ⟨a, ha, rfl⟩ := mem_map.mp hr
      exact hin ⟨a, ha, heq⟩
  rw [if_neg (fun haccounted => hring (contains_iff_mem.mp haccounted))]
  rw [reading_meter, hsame] at hgrown ⊢
  rw [h.lastBytes, hlast, add_tsub_cancel_of_le hgrown]

/-- **A steady poll credits what its reports add.** -/
theorem Agrees.poll
    (hmetered : Metered (before ++ [answer])) (hsteady : Steady before answer) (h : Agrees before l) :
    Agrees (before ++ [answer]) (l.poll false answer) where
  lastBytes id := by
    rw [previous_concat]
    exact l.lastBytes_update _ id
  accounted := by
    rw [previous_concat]
    rfl
  credits processName := by
    have hshrink := hmetered.neverShrink
    have howner := hmetered.oneProcess
    rw [reports_concat, QueryConnectionsResp.reports, ← append_assoc] at hshrink howner
    have hactive := h.grown_active hmetered.nodup.1 (le_of_neverShrink (pairwise_append.mp hshrink).1) hsteady.active
    have hclosed := h.grown_closed hmetered hsteady (le_of_neverShrink hshrink)
    rw [reports_concat, QueryConnectionsResp.reports, ← append_assoc, total_append howner hclosed,
      total_append howner.append_left hactive, ← h.credits]
    have hfirst := l.sum_credit (fun _ => false) (fun r => r.value - (l.lastBytes r.meter).getD 0)
      (queryConnections answer).active (fun c _ => rfl) processName
    have hsecond := l.sum_credit (fun c => l.accountedClosed.contains c.id)
      (fun r => if l.accountedClosed.contains r.meter then 0 else r.value - (l.lastBytes r.meter).getD 0)
      (queryConnections answer).closed (fun c _ => rfl) processName
    rw [← hfirst, ← hsecond]
    simp [ConnectionLister.credited, ConnectionLister.poll, ConnectionLister.update, add_assoc]

theorem agrees_polls {answers : List (Option QueryConnectionsResp)} (hmetered : Metered answers)
    (hsteady : SteadyRun answers) :
    Agrees answers (polls answers) := by
  induction answers using reverseRecOn with
  | nil => exact ⟨fun _ => rfl, rfl, fun _ => rfl⟩
  | append_singleton before answer ih =>
    obtain ⟨hbefore, hlast⟩ := AllMeet.append hsteady
    rw [polls, foldl_append]
    refine Agrees.poll hmetered ?_ (ih hmetered.append_left hbefore)
    have hstate := hlast.1
    rwa [foldl_concat, nil_append] at hstate

/-- **No byte is credited twice**, and none is lost, in a run of steady polls. -/
theorem credits_of_steady (answers : List (Option QueryConnectionsResp)) (h : Connections answers)
    (hsteady : SteadyRun answers)
    (front back : List (Option QueryConnectionsResp)) (hrun : answers = front ++ back) : CreditsAll front := by
  subst hrun
  exact (agrees_polls h.append_left (AllMeet.append hsteady).1).credits

def download (id : String) (n : Nat) : ConnectionMetaData :=
  { id, upload := 0, download := n, process := "curl", processPath := "/usr/bin/curl" }

open QueryConnectionsResp

/-- A connection that is live, grows, is closed, stays in the ring and is gone. -/
theorem credits_of_steady_download :
    CreditsAll [some { active := [download "a" 40] }, some { active := [download "a" 70] },
      some { closed := [download "a" 100] },
      some { closed := [download "a" 100] }, some {}] := by
  refine credits_of_steady _ ⟨⟨?_, ?_, ?_, by decide⟩, ?_, ?_⟩ ?_ _ [] (append_nil _).symm
  · unfold OneOwner; decide
  · simp [download]
  · simp [download]
  · simp [download]
  · intro id
    by_cases hid : "a" = id <;> simp [has, download, hid]
  · unfold SteadyRun AllMeet
    refine ⟨⟨by decide, by decide, by decide⟩, ⟨by decide, by decide, by decide⟩, ⟨by decide, by decide, by decide⟩, ?_⟩
    exact ⟨⟨by decide, by decide, by decide⟩, ⟨by decide, by decide, by decide⟩, trivial⟩

/-- A connection that closes between the readings of the two lists, and one that is live on both sides of a failed poll. -/
theorem not_creditsAll_both_failed :
    Connections [some { active := [download "a" 100], closed := [download "a" 100] }] ∧
      ¬CreditsAll [some { active := [download "a" 100], closed := [download "a" 100] }] ∧
      Connections [some { active := [download "a" 100] }, none, some { active := [download "a" 100] }] ∧
      ¬CreditsAll [some { active := [download "a" 100] }, none, some { active := [download "a" 100] }] := by
  refine ⟨⟨⟨?_, ?_, ?_, by decide⟩, ?_, ?_⟩, ?_, ⟨⟨?_, ?_, ?_, by decide⟩, ?_, ?_⟩, ?_⟩
  · unfold OneOwner; decide
  · simp [download]
  · simp [download]
  · simp [download]
  · intro id
    by_cases hid : "a" = id <;> simp [has, download, hid]
  · exact fun h => absurd (h "curl") (by decide +kernel)
  · unfold OneOwner; decide
  · simp [download]
  · simp [download]
  · simp [download]
  · intro id
    by_cases hid : "a" = id <;> simp [has, download, hid]
  · exact fun h => absurd (h "curl") (by decide +kernel)

end Waterdisco.Stats
