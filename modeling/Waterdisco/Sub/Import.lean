import Mathlib.Data.List.Perm.Basic
import Waterdisco.Db.Profiles
import Waterdisco.Sub.Reconcile

/-!
# The import sink

`ImportSink::add` meets the arrivals of a document one by one: an arrival whose
content the group already holds claims that profile, the others wait in a chunk
and are inserted together.  What a run of adds keeps is `ImportInv`; from it

    (old ids distinct) → (old ids drawn from the counter) →
      the plan of `reconcile` partitions old ids, fresh rows and the order

for every sequence of arrivals and every outcome of the chunk inserts
(`reconcile_of_import`).
-/

namespace Waterdisco.Sub

open Waterdisco.Db List Prod Option NewEntry ContentIndex Store

/-- Arrivals inserted by one `AddProfileBatch`. -/
def kInsertChunk : Nat := 500

section
variable (digest : List UInt8 → Digest)

def contentKeyOf (ent : Profile) : Digest := digest ent.outbound.exportToJson

def identityKeyOf (ent : Profile) : Digest :=
  digest (ent.type.toUTF8.data.toList ++ [124] ++ ent.outbound.exportIdentity)

end

/-- The sink; `flushes` counts its `AddProfileBatch` calls. -/
structure ImportSink where
  gid : Int
  index : Option ContentIndex := none
  entries : List NewEntry := []
  destination : Int := -1
  added : List Int := []
  chunk : List Profile := []
  entryIndex : List Nat := []
  flushes : Nat := 0

structure Import where
  store : Store
  sink : ImportSink

/-- `entries[i].id = id` for each pair, in order. -/
def setIds (entries : List NewEntry) (ids : List (Nat × Int)) : List NewEntry :=
  ids.foldl (fun es p => es.modify p.1 fun e => { e with id := p.2 }) entries

section
variable (digest : List UInt8 → Digest) (outcomes : Nat → InsertOutcome)

def flush (st : Import) : Import :=
  if st.sink.chunk.isEmpty then st
  else
    let (ok, chunk, store) := st.store.addProfileBatch st.sink.chunk st.sink.gid (outcomes st.sink.flushes)
    let sink := { st.sink with chunk := [], entryIndex := [], flushes := st.sink.flushes + 1 }
    if ok then
      { store
        sink := { sink with
          entries := setIds sink.entries (st.sink.entryIndex.zip (chunk.map (·.id)))
          added := sink.added ++ chunk.map (·.id)
          destination := (chunk.head?.map (·.gid)).getD sink.destination } }
    else { store, sink }

/-- An arrival that reached no old profile waits for its insert. -/
def enqueue (st : Import) (entry : NewEntry) (ent : Profile) : Import :=
  let sink := { st.sink with
    entryIndex := st.sink.entryIndex ++ [st.sink.entries.length]
    entries := st.sink.entries ++ [entry]
    chunk := st.sink.chunk ++ [ent] }
  if kInsertChunk ≤ sink.chunk.length then flush outcomes { st with sink } else { st with sink }

def add (st : Import) (ent : Profile) : Import :=
  let entry : NewEntry := { display := ent.outbound.displayTypeAndName }
  match st.sink.index with
  | none => enqueue outcomes st entry ent
  | some index =>
    let content := contentKeyOf digest ent
    let index := index.noteArrival content
    let known := index.knows content
    let entry := { entry with keys := { content }, contentKnown := known }
    match index.claim content with
    | some (oldId, index) =>
      { st with sink := { st.sink with
          index := some index
          entries := st.sink.entries ++ [{ entry with id := oldId, reused := true }] } }
    | none =>
      let entry := if known then entry
        else { entry with keys := { content, identity := identityKeyOf digest ent } }
      enqueue outcomes { st with sink := { st.sink with index := some index } } entry ent

/-- A whole document: every arrival, then the chunk still waiting. -/
def importAll (st : Import) (arrivals : List Profile) : Import :=
  flush outcomes (arrivals.foldl (add digest outcomes) st)

end

/-! ## Writing the ids back -/

theorem modify_fresh_perm (x : Int) (hx : 0 ≤ x) :
    ∀ (es : List NewEntry) (i : Nat) (e : NewEntry), es[i]? = some e → e.reused = false → e.id < 0 →
      (((es.modify i fun e => { e with id := x }).filter (·.fresh)).map (·.id)).Perm
        (x :: (es.filter (·.fresh)).map (·.id)) := by
  intro es
  induction es with
  | nil => intro i e h; simp at h
  | cons a es ih =>
    intro i e h hr hid
    cases i with
    | zero =>
      have ha : a = e := by simpa using h
      subst ha
      have hold : a.fresh = false := by simp [fresh, stored]; omega
      have hnew : fresh { a with id := x } = true := by
        simp [fresh, stored, hr, hx]
      rw [modify_zero_cons, filter_cons_of_pos hnew, filter_cons_of_neg (by simp [hold])]
      exact Perm.refl _
    | succ i =>
      have ih := ih i e (by simpa using h) hr hid
      rw [modify_succ_cons]
      by_cases hf : a.fresh = true
      · rw [filter_cons_of_pos hf, filter_cons_of_pos hf, map_cons, map_cons]
        exact (ih.cons a.id).trans (Perm.swap _ _ _)
      · rw [filter_cons_of_neg hf, filter_cons_of_neg hf]
        exact ih

theorem modify_reused (x : Int) :
    ∀ (es : List NewEntry) (i : Nat), (∀ e, es[i]? = some e → e.reused = false) →
      ((es.modify i fun e => { e with id := x }).filter (·.reused)).map (·.id) =
        (es.filter (·.reused)).map (·.id) := by
  intro es
  induction es with
  | nil => intro i _; simp
  | cons a es ih =>
    intro i h
    cases i with
    | zero =>
      have ha : a.reused = false := h a (by simp)
      rw [modify_zero_cons, filter_cons_of_neg (by simp [ha]), filter_cons_of_neg (by simp [ha])]
    | succ i =>
      have ih := ih i fun e he => h e (by simpa using he)
      rw [modify_succ_cons]
      by_cases hr : a.reused = true
      · rw [filter_cons_of_pos hr, filter_cons_of_pos hr, map_cons, map_cons, ih]
      · rw [filter_cons_of_neg hr, filter_cons_of_neg hr]
        exact ih

/-- The positions of `ids` hold arrivals that wait for an id. -/
def Waiting (es : List NewEntry) (is : List Nat) : Prop :=
  ∀ i ∈ is, ∃ e, es[i]? = some e ∧ e.reused = false ∧ e.id < 0

/-- What an entry took from its arrival. -/
def NewEntry.source (e : NewEntry) : Digest × String := (e.keys.content, e.display)

theorem map_source_modify (x : Int) (es : List NewEntry) (i : Nat) :
    (es.modify i fun e => { e with id := x }).map (·.source) = es.map (·.source) := by
  induction es generalizing i with
  | nil => simp
  | cons a es ih =>
    cases i with
    | zero => simp [source]
    | succ i => rw [modify_succ_cons, map_cons, map_cons, ih]

/-- **Writing a chunk's ids back** adds exactly those ids to the fresh ones and
leaves the reused entries and what came with the arrivals alone. -/
theorem setIds_spec (ids : List (Nat × Int)) :
    ∀ es : List NewEntry, (ids.map (·.1)).Nodup → Waiting es (ids.map (·.1)) → (∀ p ∈ ids, 0 ≤ p.2) →
      (((setIds es ids).filter (·.fresh)).map (·.id)).Perm
          (ids.map (·.2) ++ (es.filter (·.fresh)).map (·.id)) ∧
        ((setIds es ids).filter (·.reused)).map (·.id) = (es.filter (·.reused)).map (·.id) ∧
        (setIds es ids).map (·.source) = es.map (·.source) := by
  induction ids with
  | nil => intro es _ _ _; exact ⟨Perm.refl _, rfl, rfl⟩
  | cons p ids ih =>
    intro es hnd hw hpos
    rw [map_cons, nodup_cons] at hnd
    obtain ⟨e, he, hr, hid⟩ := hw p.1 (by simp)
    have hw' : Waiting (es.modify p.1 fun e => { e with id := p.2 }) (ids.map (·.1)) := by
      intro i hi
      have hne : p.1 ≠ i := fun h => hnd.1 (h ▸ hi)
      rw [getElem?_modify_ne _ _ hne]
      exact hw i (by simp [mem_map.mp hi])
    obtain ⟨h1, h2, h3⟩ := ih _ hnd.2 hw' fun q hq => hpos q (.tail _ hq)
    have hstep := modify_fresh_perm p.2 (hpos p (.head _)) es p.1 e he hr hid
    refine ⟨?_, ?_, ?_⟩
    · refine h1.trans ((hstep.append_left _).trans ?_)
      exact perm_middle
    · rw [← modify_reused p.2 es p.1 (fun e' he' => by rw [he] at he'; cases he'; exact hr)]
      exact h2
    · rw [← map_source_modify p.2 es p.1]
      exact h3

/-! ## What a run of adds keeps -/

/-- The sink over `index` after `arrivals`: `old` was indexed and `last` was the
id counter when the import began. -/
structure ImportInv (digest : List UInt8 → Digest) (old : List OldEntry) (last : Int)
    (arrivals : List Profile) (st : Import) (index : ContentIndex) : Prop where
  indexed : st.sink.index = some index
  arrived : st.sink.entries.map (·.source) =
    arrivals.map fun p => (contentKeyOf digest p, p.outbound.displayTypeAndName)
  chunkNew : ∀ p ∈ st.sink.chunk, p.id < 0
  indexLen : st.sink.entryIndex.length = st.sink.chunk.length
  indexNodup : st.sink.entryIndex.Nodup
  waiting : Waiting st.sink.entries st.sink.entryIndex
  lastLe : last ≤ st.store.profileLastId
  fresh : ((st.sink.entries.filter (·.fresh)).map (·.id)).Perm st.sink.added
  addedNodup : st.sink.added.Nodup
  addedRange : ∀ id ∈ st.sink.added, last < id ∧ id ≤ st.store.profileLastId
  reused : (st.sink.entries.filter (·.reused)).map (·.id) = index.claimedIds
  distinct : index.unclaimed.Distinct
  unclaimed : ∀ k x, x ∈ index.unclaimed k → x ∈ old.map (·.id) ∧ x ∉ index.claimedIds
  claimedNodup : index.claimedIds.Nodup
  claimedOld : ∀ id ∈ index.claimedIds, id ∈ old.map (·.id)

section
variable {digest : List UInt8 → Digest} {outcomes : Nat → InsertOutcome} {old : List OldEntry} {last : Int}
  {arrivals : List Profile} {st : Import} {index : ContentIndex}

theorem ImportInv.start (digest : List UInt8 → Digest) (old : List OldEntry) (store : Store) (gid : Int)
    (hold : (old.map (·.id)).Nodup) :
    ImportInv digest old store.profileLastId []
      { store, sink := { gid, index := some (ofOld old) } } (ofOld old) where
  indexed := rfl
  arrived := rfl
  chunkNew p hp := by cases hp
  indexLen := rfl
  indexNodup := nodup_nil
  waiting i hi := by cases hi
  lastLe := Int.le_refl _
  fresh := Perm.refl _
  addedNodup := nodup_nil
  addedRange id hid := by cases hid
  reused := rfl
  distinct := Buckets.distinct_ofList _ _ _ hold
  unclaimed k x hx := by
    obtain ⟨e, he, -, rfl⟩ := (Buckets.mem_ofList _ _ old k x).mp hx
    exact ⟨mem_map_of_mem he, by simp [ofOld]⟩
  claimedNodup := nodup_nil
  claimedOld id hid := by cases hid

variable (h : ImportInv digest old last arrivals st index)

include h

/-- Inserting the waiting chunk, or losing it. -/
theorem ImportInv.flush (hlast : -1 ≤ last)
    (hdrawn : ∀ i, (outcomes i).idsDrawn = true) :
    ImportInv digest old last arrivals (flush outcomes st) index := by
  unfold Sub.flush
  split
  · exact h
  rename_i hne
  have hne : st.sink.chunk ≠ [] := by simpa using hne
  rcases addProfileBatch_cases st.store st.sink.chunk st.sink.gid (outcomes st.sink.flushes)
    h.chunkNew hne (hdrawn _) with ⟨l, hl, heq⟩ | ⟨sub, hsub, heq⟩
  · rw [heq]
    exact ⟨h.indexed, h.arrived, by simp, rfl, nodup_nil, by simp [Waiting],
      Int.le_trans h.lastLe hl, h.fresh, h.addedNodup,
      fun id hid => ⟨(h.addedRange id hid).1, Int.le_trans (h.addedRange id hid).2 hl⟩,
      h.reused, h.distinct, h.unclaimed, h.claimedNodup, h.claimedOld⟩
  · rw [heq]
    have hids := assignIds_ids (st.store.batchGroup st.sink.gid) st.store.profileLastId
      st.sink.chunk h.chunkNew
    have hlen : st.sink.entryIndex.length =
        (nextIds st.store.profileLastId st.sink.chunk.length).length := by
      rw [h.indexLen]; simp [nextIds]
    have hfst : (st.sink.entryIndex.zip
        (nextIds st.store.profileLastId st.sink.chunk.length)).map fst =
        st.sink.entryIndex := map_fst_zip (by omega)
    have hsnd : (st.sink.entryIndex.zip
        (nextIds st.store.profileLastId st.sink.chunk.length)).map snd =
        nextIds st.store.profileLastId st.sink.chunk.length := map_snd_zip (by omega)
    have hle := h.lastLe
    obtain ⟨h1, h2, h3⟩ := setIds_spec
      (st.sink.entryIndex.zip (nextIds st.store.profileLastId st.sink.chunk.length))
      st.sink.entries (by rw [hfst]; exact h.indexNodup) (by rw [hfst]; exact h.waiting) (by
        intro p hp
        have := mem_nextIds.mp (of_mem_zip hp).2
        omega)
    rw [hsnd] at h1
    simp only [if_true, hids]
    refine ⟨h.indexed, h3.trans h.arrived, by simp, rfl, nodup_nil, by simp [Waiting],
      ?_, ?_, ?_, ?_, h2.trans h.reused, h.distinct, h.unclaimed, h.claimedNodup, h.claimedOld⟩
    · show last ≤ st.store.profileLastId + st.sink.chunk.length
      omega
    · exact h1.trans ((h.fresh.append_left _).trans perm_append_comm)
    · refine nodup_append.mpr ⟨h.addedNodup, nextIds_nodup _ _, ?_⟩
      rintro a ha b hb rfl
      have h1 := (h.addedRange a ha).2
      have h2 := (mem_nextIds.mp hb).1
      omega
    · intro id hid
      show last < id ∧ id ≤ st.store.profileLastId + st.sink.chunk.length
      rcases mem_append.mp hid with hid | hid
      · have := h.addedRange id hid
        omega
      · have := mem_nextIds.mp hid
        omega

/-- An entry that waits is no stored row yet, whatever became of the index. -/
theorem ImportInv.enqueue (hlast : -1 ≤ last)
    (hdrawn : ∀ i, (outcomes i).idsDrawn = true) (entry : NewEntry) (ent : Profile)
    (hid : entry.id = -1) (hr : entry.reused = false) (hent : ent.id < 0)
    (hsrc : entry.source = (contentKeyOf digest ent, ent.outbound.displayTypeAndName)) :
    ImportInv digest old last (arrivals ++ [ent]) (enqueue outcomes st entry ent) index := by
  have hinv : ImportInv digest old last (arrivals ++ [ent])
      { st with sink := { st.sink with
          entryIndex := st.sink.entryIndex ++ [st.sink.entries.length]
          entries := st.sink.entries ++ [entry]
          chunk := st.sink.chunk ++ [ent] } } index := by
    have hfr : entry.fresh = false := by simp [NewEntry.fresh, NewEntry.stored, hid]
    have hold : ∀ i ∈ st.sink.entryIndex, i < st.sink.entries.length := by
      intro i hi
      obtain ⟨e, he, -⟩ := h.waiting i hi
      exact (List.getElem?_eq_some_iff.mp he).1
    refine ⟨h.indexed, ?_, ?_, ?_, ?_, ?_, h.lastLe, ?_, h.addedNodup, h.addedRange, ?_, h.distinct,
      h.unclaimed, h.claimedNodup, h.claimedOld⟩
    · rw [map_append, map_append, h.arrived, map_singleton, map_singleton, hsrc]
    · intro p hp
      rcases mem_append.mp hp with hp | hp
      · exact h.chunkNew p hp
      · rw [mem_singleton.mp hp]; exact hent
    · simp [h.indexLen]
    · refine nodup_append.mpr ⟨h.indexNodup, by simp, ?_⟩
      rintro a ha b hb rfl
      rw [mem_singleton] at hb
      have := hold a ha
      omega
    · intro i hi
      rcases mem_append.mp hi with hi | hi
      · obtain ⟨e, he, hw⟩ := h.waiting i hi
        exact ⟨e, by rw [getElem?_append_left (hold i hi)]; exact he, hw⟩
      · rw [mem_singleton.mp hi]
        exact ⟨entry, by simp, hr, by omega⟩
    · rw [filter_append, filter_cons_of_neg (by simp [hfr]), filter_nil, append_nil]
      exact h.fresh
    · rw [filter_append, filter_cons_of_neg (by simp [hr]), filter_nil, append_nil]
      exact h.reused
  unfold Sub.enqueue
  simp only
  split
  · exact hinv.flush hlast hdrawn
  · exact hinv

theorem ImportInv.noteArrival (content : Digest) :
    ImportInv digest old last arrivals
      { st with sink := { st.sink with index := some (index.noteArrival content) } }
      (index.noteArrival content) :=
  ⟨rfl, h.arrived, h.chunkNew, h.indexLen, h.indexNodup, h.waiting, h.lastLe, h.fresh, h.addedNodup,
    h.addedRange, h.reused, h.distinct, h.unclaimed, h.claimedNodup, h.claimedOld⟩

theorem ImportInv.claim {content : Digest}
    {oldId : Int} {index' : ContentIndex} (hc : index.claim content = some (oldId, index'))
    (entry : NewEntry) (ent : Profile) (hid : entry.id = oldId) (hr : entry.reused = true)
    (hsrc : entry.source = (contentKeyOf digest ent, ent.outbound.displayTypeAndName)) :
    ImportInv digest old last (arrivals ++ [ent])
      { st with sink := { st.sink with
          index := some index'
          entries := st.sink.entries ++ [entry] } } index' := by
  unfold ContentIndex.claim at hc
  cases ht : index.unclaimed.takeFirst content with
  | none => rw [ht] at hc; cases hc
  | some pair =>
    obtain ⟨id, rest⟩ := pair
    rw [ht] at hc
    obtain ⟨rfl, rfl⟩ := mk.inj (some.inj hc)
    obtain ⟨hin, hdist, hrest⟩ := Buckets.takeFirst_spec h.distinct ht
    obtain ⟨hold, hnew⟩ := h.unclaimed _ _ hin
    have hfr : entry.fresh = false := by simp [NewEntry.fresh, hr]
    refine ⟨rfl, ?_, h.chunkNew, h.indexLen, h.indexNodup, ?_, h.lastLe, ?_, h.addedNodup, h.addedRange,
      ?_, hdist, ?_, ?_, ?_⟩
    · rw [map_append, map_append, h.arrived, map_singleton, map_singleton, hsrc]
    · intro i hi
      obtain ⟨e, he, hw⟩ := h.waiting i hi
      exact ⟨e, by rw [List.getElem?_append_left (List.getElem?_eq_some_iff.mp he).1]; exact he, hw⟩
    · rw [filter_append, filter_cons_of_neg (by simp [hfr]), filter_nil, append_nil]
      exact h.fresh
    · rw [filter_append, map_append, h.reused, filter_cons_of_pos hr, filter_nil,
        map_singleton, hid]
    · intro k x hx
      obtain ⟨hx, hne⟩ := (hrest k x).mp hx
      obtain ⟨hxo, hxc⟩ := h.unclaimed k x hx
      exact ⟨hxo, by simp [hxc, hne]⟩
    · refine nodup_append.mpr ⟨h.claimedNodup, by simp, ?_⟩
      rintro a ha b hb rfl
      rw [mem_singleton] at hb
      exact hnew (hb ▸ ha)
    · intro x hx
      rcases mem_append.mp hx with hx | hx
      · exact h.claimedOld x hx
      · rw [mem_singleton.mp hx]; exact hold

theorem ImportInv.add (hlast : -1 ≤ last)
    (hdrawn : ∀ i, (outcomes i).idsDrawn = true) (ent : Profile) (hent : ent.id < 0) :
    ∃ index', ImportInv digest old last (arrivals ++ [ent]) (add digest outcomes st ent) index' := by
  unfold Sub.add
  simp only [h.indexed]
  have hnote := h.noteArrival (contentKeyOf digest ent)
  cases hc : (index.noteArrival (contentKeyOf digest ent)).claim (contentKeyOf digest ent) with
  | some pair =>
    obtain ⟨oldId, index'⟩ := pair
    exact ⟨index', hnote.claim hc _ ent rfl rfl rfl⟩
  | none =>
    refine ⟨_, hnote.enqueue hlast hdrawn _ ent ?_ ?_ hent ?_⟩
    all_goals split <;> rfl

/-- **A whole document.** -/
theorem ImportInv.importAll (hlast : -1 ≤ last)
    (hdrawn : ∀ i, (outcomes i).idsDrawn = true) (more : List Profile) (hmore : ∀ p ∈ more, p.id < 0) :
    ∃ index', ImportInv digest old last (arrivals ++ more) (importAll digest outcomes st more) index' := by
  unfold Sub.importAll
  induction more generalizing arrivals st index with
  | nil => exact ⟨index, by simpa using h.flush hlast hdrawn⟩
  | cons ent more ih =>
    obtain ⟨index₁, h₁⟩ := h.add hlast hdrawn ent (hmore ent (.head _))
    obtain ⟨index₂, h₂⟩ := ih h₁ fun p hp => hmore p (.tail _ hp)
    exact ⟨index₂, by simpa using h₂⟩

/-- What the sink leaves is what `reconcile` relies on. -/
theorem ImportInv.toArrived
    (hold : (old.map (·.id)).Nodup) (hle : ∀ id ∈ old.map (·.id), id ≤ last) :
    Arrived old st.sink.entries index where
  oldNodup := hold
  freshNodup := h.fresh.nodup_iff.mpr h.addedNodup
  freshNew e he hf hm := by
    have hin : e.id ∈ st.sink.added :=
      h.fresh.mem_iff.mp (mem_map_of_mem (mem_filter.mpr ⟨he, hf⟩))
    have h1 := (h.addedRange e.id hin).1
    have h2 := hle e.id hm
    omega
  reused := h.reused
  claimedNodup := h.claimedNodup
  claimedOld := h.claimedOld

end

/-! ## The plan of an import -/

/-- The id that stands for a stored arrival: the old one it updates, else its own. -/
def standsFor (updates : List (Int × Int)) (e : NewEntry) : Int :=
  if e.reused then e.id else ((updates.find? fun p => p.2 == e.id).map (·.1)).getD e.id

/-- A plan over the arrivals `entries`, of which `added` became new rows: it
sorts the old ids, the new rows and the order. -/
structure PlanPartition (old : List OldEntry) (entries : List NewEntry) (added : List Int)
    (index : ContentIndex) (plan : ReconcilePlan) : Prop where
  old : ∀ id ∈ old.map (·.id),
    (id ∈ index.claimedIds ∧ (plan.updates.map fst).count id = 0 ∧ id ∉ plan.stale) ∨
    (id ∉ index.claimedIds ∧ (plan.updates.map fst).count id = 1 ∧ id ∉ plan.stale) ∨
    (id ∉ index.claimedIds ∧ (plan.updates.map fst).count id = 0 ∧ id ∈ plan.stale)
  fresh : ∀ id ∈ added,
    (id ∈ plan.order ∧ id ∉ plan.stale ∧ (plan.updates.map snd).count id = 0) ∨
    (id ∉ plan.order ∧ id ∈ plan.stale ∧ (plan.updates.map snd).count id = 1)
  orderNodup : plan.order.Nodup
  orderStale : ∀ id ∈ plan.order, id ∉ plan.stale
  order : plan.order = (entries.filter (·.stored)).map (standsFor plan.updates)

/-- The import of `arrivals` over the old profiles `old` of a group, and its plan:
one entry for every arrival, in arrival order, and a plan that partitions. -/
def ImportReconciles (digest : List UInt8 → Digest) (outcomes : Nat → InsertOutcome) (store : Store)
    (gid : Int) (old : List OldEntry) (arrivals : List Profile) : Prop :=
  let st := importAll digest outcomes
    { store, sink := { gid, index := some (ContentIndex.ofOld old) } } arrivals
  st.sink.entries.map (·.source) =
      arrivals.map (fun p => (contentKeyOf digest p, p.outbound.displayTypeAndName)) ∧
    ∃ index, st.sink.index = some index ∧
      PlanPartition old st.sink.entries st.sink.added index (reconcile old st.sink.entries index)

theorem find?_snd_eq (l : List (Int × Int)) (hnd : (l.map snd).Nodup) (o n : Int) :
    (l.find? fun p => p.2 == n).map (·.1) = some o ↔ (o, n) ∈ l := by
  constructor
  · intro h
    obtain ⟨p, hp, rfl⟩ := map_eq_some_iff.mp h
    have hn : p.2 = n := by simpa using find?_some hp
    rw [← hn]
    exact mem_of_find?_eq_some hp
  · intro h
    cases hf : l.find? (fun p => p.2 == n) with
    | none => exact absurd (find?_eq_none.mp hf (o, n) h) (by simp)
    | some p =>
      have hn : p.2 = n := by simpa using find?_some hf
      rw [inj_on_of_nodup_map hnd (mem_of_find?_eq_some hf) h hn]
      rfl

/-- The loop's map from arrivals to old ids is read off the plan's updates. -/
theorem Arrived.represent_eq {old : List OldEntry} {incoming : List NewEntry} {index : ContentIndex}
    (h : Arrived old incoming index) (e : NewEntry) :
    represent (pairByIdentity old incoming index).supersededBy e =
      standsFor (reconcile old incoming index).updates e := by
  unfold represent standsFor
  rw [reconcile_updates]
  congr 2
  apply ext
  intro o
  rw [h.pairInv.superseded, find?_snd_eq _ h.pairInv.sndNodup]

/-- **The plan of an import partitions**: old ids, new rows and the order, for
every sequence of arrivals and however the chunk inserts go, as long as the id
counter answers. -/
theorem importReconciles_of_drawn (digest : List UInt8 → Digest) (outcomes : Nat → InsertOutcome)
    (store : Store) (gid : Int) (old : List OldEntry) (arrivals : List Profile)
    (hold : (old.map (·.id)).Nodup) (hle : ∀ id ∈ old.map (·.id), id ≤ store.profileLastId)
    (hlast : -1 ≤ store.profileLastId) (hnew : ∀ p ∈ arrivals, p.id < 0)
    (hdrawn : ∀ i, (outcomes i).idsDrawn = true) :
    ImportReconciles digest outcomes store gid old arrivals := by
  obtain ⟨index, hinv⟩ :=
    (ImportInv.start digest old store gid hold).importAll hlast hdrawn arrivals hnew
  have harr := hinv.toArrived hold hle
  refine ⟨hinv.arrived, index, hinv.indexed, ?_, ?_, (reconcile_order harr).2, ?_, ?_⟩
  · exact fun id hid => reconcile_old harr id hid
  · intro id hid
    obtain ⟨e, he, rfl⟩ := mem_map.mp (hinv.fresh.mem_iff.mpr hid)
    obtain ⟨he, hf⟩ := mem_filter.mp he
    exact reconcile_fresh harr e he hf
  · exact fun id hid => harr.order_stale hid
  · rw [(reconcile_order harr).1]
    exact map_congr_left fun e _ => harr.represent_eq e

/-- A group of three old profiles, the first two of one content. -/
def threeOld : List OldEntry :=
  [{ id := 3, keys := { content := [1], identity := [7] } },
   { id := 4, keys := { content := [1], identity := [8] } },
   { id := 5, keys := { content := [2], identity := [124, 9] } }]

/-- One arrival claims 3, one updates 5 through the row 6, and one is new. -/
theorem importReconciles_threeOld :
    ImportReconciles id (fun _ => .inserted true []) { profileLastId := 5, groups := [{ id := 1 }] } 1 threeOld
      [{ outbound := { exportToJson := [1] } },
       { outbound := { exportToJson := [3], exportIdentity := [9] } },
       { outbound := { exportToJson := [4], exportIdentity := [6] } }] :=
  importReconciles_of_drawn _ _ _ _ _ _ (by decide) (by decide) (by decide) (by decide) (fun _ => rfl)

theorem ImportReconciles.order_not_stale {digest : List UInt8 → Digest} {outcomes : Nat → InsertOutcome}
    {store : Store} {gid : Int} {old : List OldEntry} {arrivals : List Profile}
    (h : ImportReconciles digest outcomes store gid old arrivals) :
    let sink := (importAll digest outcomes
      { store, sink := { gid, index := some (ofOld old) } } arrivals).sink
    let plan := reconcile old sink.entries (sink.index.getD (ofOld old))
    ∀ id ∈ plan.order, id ∉ plan.stale := by
  obtain ⟨-, index, hidx, hplan⟩ := h
  simp only [hidx, getD_some]
  exact hplan.orderStale

/-- When the id counter cannot be read, the batch goes on from id 0: with an old
profile 0 that goes stale, the new row takes its id and is listed as it is deleted. -/
theorem not_importReconciles_undrawn :
    ¬ ImportReconciles id (fun _ => .inserted false [])
      { rows := [{ id := 0, gid := 1 }], profileLastId := 5, groups := [{ id := 1, profiles := [0] }] } 1
      [{ id := 0, keys := { content := [1], identity := [7] } }]
      [{ outbound := { exportToJson := [2], exportIdentity := [9] } }] := by
  intro h
  exact absurd h.order_not_stale (by decide)

end Waterdisco.Sub
