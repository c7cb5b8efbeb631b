import Waterdisco.Lib.Buckets

/-!
# The diff of a subscription refresh

`ContentIndex` hands each old profile out at most once, to an arrival of the
same content; `reconcile` then pairs what the content pass never saw by
identity and turns both passes into a plan.

    Arrived old incoming index →
      every old id: claimed, or updated once, or stale                    (reconcile_old)
      every fresh id: in the order, or stale and the second of one update (reconcile_fresh)
      the order: one id per stored arrival, none twice, none stale        (reconcile_order)

`Arrived` is what the sink of `Waterdisco.Sub.Import` keeps while the arrivals
come in.
-/

namespace Waterdisco.Sub

open List Prod Option

/-- A SHA-256 digest; the empty one stands for a key that was never computed. -/
abbrev Digest := List UInt8

structure ProfileKeys where
  content : Digest := []
  identity : Digest := []
deriving DecidableEq

structure OldEntry where
  id : Int := -1
  keys : ProfileKeys := {}
  display : String := ""

structure NewEntry where
  id : Int := -1
  reused : Bool := false
  contentKnown : Bool := false
  keys : ProfileKeys := {}
  display : String := ""

/-! ## The content pass -/

/-- Each old profile is claimed at most once, in group order, by identical
arrivals in arrival order. -/
structure ContentIndex where
  unclaimed : Buckets Digest Int
  known : List Digest
  arrivals : List Digest := []
  claimedIds : List Int := []

namespace ContentIndex

def ofOld (old : List OldEntry) : ContentIndex where
  unclaimed := Buckets.ofList (·.keys.content) (·.id) old
  known := old.map (·.keys.content)

def knows (index : ContentIndex) (content : Digest) : Bool := decide (content ∈ index.known)

def claim (index : ContentIndex) (content : Digest) : Option (Int × ContentIndex) :=
  match index.unclaimed.takeFirst content with
  | none => none
  | some (id, rest) =>
    some (id, { index with unclaimed := rest, claimedIds := index.claimedIds ++ [id] })

def noteArrival (index : ContentIndex) (content : Digest) : ContentIndex :=
  { index with arrivals := content :: index.arrivals }

def arrived (index : ContentIndex) (content : Digest) : Bool := decide (content ∈ index.arrivals)

def isClaimed (index : ContentIndex) (id : Int) : Bool := decide (id ∈ index.claimedIds)

end ContentIndex

/-! ## The plan -/

structure ReconcilePlan where
  order : List Int := []
  updates : List (Int × Int) := []
  stale : List Int := []
  added : List String := []
  updated : List String := []
  deleted : List String := []

/-- What the identity loop of `reconcile` carries. -/
structure Pairing where
  leftoverByIdentity : Buckets Digest Int
  updates : List (Int × Int) := []
  updated : List String := []
  supersededBy : Int → Option Int := fun _ => none
  matchedOld : List Int := []

/-- One arrival of the identity loop: a stored row of unknown content takes
over the first leftover of its identity. -/
def pairArrival (st : Pairing) (entry : NewEntry) : Pairing :=
  if entry.id < 0 ∨ entry.reused = true ∨ entry.contentKnown = true then st
  else match st.leftoverByIdentity.takeFirst entry.keys.identity with
    | none => st
    | some (oldId, rest) =>
      { leftoverByIdentity := rest
        updates := st.updates ++ [(oldId, entry.id)]
        updated := st.updated ++ [entry.display]
        supersededBy := fun n => if n = entry.id then some oldId else st.supersededBy n
        matchedOld := oldId :: st.matchedOld }

/-- One arrival of the ordering loop. -/
def placeArrival (supersededBy : Int → Option Int) (plan : ReconcilePlan) (entry : NewEntry) :
    ReconcilePlan :=
  if entry.id < 0 then plan
  else if entry.reused then { plan with order := plan.order ++ [entry.id] }
  else match supersededBy entry.id with
    | some oldId => { plan with order := plan.order ++ [oldId], stale := plan.stale ++ [entry.id] }
    | none => { plan with order := plan.order ++ [entry.id], added := plan.added ++ [entry.display] }

/-- Identity pairing only sees leftovers whose content never arrived. -/
def leftovers (old : List OldEntry) (index : ContentIndex) : List OldEntry :=
  old.filter fun e => !(index.isClaimed e.id || index.arrived e.keys.content)

def pairByIdentity (old : List OldEntry) (incoming : List NewEntry) (index : ContentIndex) : Pairing :=
  incoming.foldl pairArrival
    { leftoverByIdentity := Buckets.ofList (·.keys.identity) (·.id) (leftovers old index) }

/-- Neither claimed by content nor matched by identity. -/
def gone (old : List OldEntry) (index : ContentIndex) (pairing : Pairing) : List OldEntry :=
  old.filter fun e => !(index.isClaimed e.id || decide (e.id ∈ pairing.matchedOld))

def reconcile (old : List OldEntry) (incoming : List NewEntry) (index : ContentIndex) :
    ReconcilePlan :=
  let pairing := pairByIdentity old incoming index
  incoming.foldl (placeArrival pairing.supersededBy)
    { updates := pairing.updates
      updated := pairing.updated
      stale := (gone old index pairing).map (·.id)
      deleted := (gone old index pairing).map (·.display) }

/-! ## The ordering loop in closed form -/

/-- A stored arrival reached the database: added, or reused from the group. -/
def NewEntry.stored (e : NewEntry) : Bool := decide (0 ≤ e.id)

/-- A stored arrival that is a row of its own, not a reused old profile. -/
def NewEntry.fresh (e : NewEntry) : Bool := e.stored && !e.reused

open NewEntry (fresh stored)

/-- The id that stands for an arrival in the order. -/
def represent (supersededBy : Int → Option Int) (e : NewEntry) : Int :=
  if e.reused then e.id else (supersededBy e.id).getD e.id

theorem placeAll (sup : Int → Option Int) (incoming : List NewEntry) (plan : ReconcilePlan) :
    (incoming.foldl (placeArrival sup) plan).order =
        plan.order ++ (incoming.filter (·.stored)).map (represent sup) ∧
      (incoming.foldl (placeArrival sup) plan).stale =
        plan.stale ++ ((incoming.filter (·.fresh)).filter fun e => (sup e.id).isSome).map (·.id) ∧
      (incoming.foldl (placeArrival sup) plan).updates = plan.updates := by
  induction incoming generalizing plan with
  | nil => simp
  | cons e incoming ih =>
    rw [foldl_cons]
    obtain ⟨ho, hs, hu⟩ := ih (placeArrival sup plan e)
    rw [ho, hs, hu]
    unfold placeArrival
    by_cases hneg : e.id < 0
    · have h0 : ¬ (0 ≤ e.id) := by omega
      simp [hneg, stored, fresh, h0]
    have h0 : 0 ≤ e.id := by omega
    by_cases hr : e.reused = true
    · simp [hneg, hr, stored, fresh, represent, h0]
    cases hsup : sup e.id with
    | none => simp [hneg, hr, hsup, stored, fresh, represent, h0]
    | some o => simp [hneg, hr, hsup, stored, fresh, represent, h0]

/-! ## The identity loop -/

/-- The loop's state after the arrivals `done`, over the leftovers `l₀` it started from. -/
structure PairInv (l₀ : Buckets Digest Int) (done : List NewEntry) (st : Pairing) : Prop where
  distinct : st.leftoverByIdentity.Distinct
  left : ∀ k x, x ∈ st.leftoverByIdentity k ↔ x ∈ l₀ k ∧ x ∉ st.matchedOld
  matched : ∀ x, x ∈ st.matchedOld ↔ x ∈ st.updates.map fst
  fromLeft : ∀ x ∈ st.matchedOld, ∃ k, x ∈ l₀ k
  fstNodup : (st.updates.map fst).Nodup
  superseded : ∀ o n, st.supersededBy n = some o ↔ (o, n) ∈ st.updates
  fromFresh : ∀ p ∈ st.updates, p.2 ∈ (done.filter (·.fresh)).map (·.id)
  sndNodup : (st.updates.map snd).Nodup

variable {l₀ : Buckets Digest Int}

theorem PairInv.start (h : l₀.Distinct) :
    PairInv l₀ [] { leftoverByIdentity := l₀ } where
  distinct := h
  left := by simp
  matched := by simp
  fromLeft := by simp
  fstNodup := by simp
  superseded := by simp
  fromFresh := by simp
  sndNodup := by simp

/-- An arrival the loop skips changes nothing but the list of arrivals seen. -/
theorem PairInv.skip {done : List NewEntry} {st : Pairing}
    (h : PairInv l₀ done st) (e : NewEntry) : PairInv l₀ (done ++ [e]) st where
  distinct := h.distinct
  left := h.left
  matched := h.matched
  fromLeft := h.fromLeft
  fstNodup := h.fstNodup
  superseded := h.superseded
  fromFresh p hp := by
    rw [filter_append, map_append]
    exact mem_append_left _ (h.fromFresh p hp)
  sndNodup := h.sndNodup

theorem PairInv.step {done : List NewEntry} {st : Pairing}
    (h : PairInv l₀ done st) (e : NewEntry)
    (hnew : e.fresh = true → e.id ∉ (done.filter (·.fresh)).map (·.id)) :
    PairInv l₀ (done ++ [e]) (pairArrival st e) := by
  unfold pairArrival
  split
  · exact h.skip e
  rename_i hskip
  rw [not_or, not_or] at hskip
  obtain ⟨hid, hr, -⟩ := hskip
  have hfresh : e.fresh = true := by simp [fresh, stored, hr]; omega
  have hnew := hnew hfresh
  have hsnd : e.id ∉ st.updates.map snd := by
    intro hm
    obtain ⟨p, hp, he⟩ := mem_map.mp hm
    exact hnew (he ▸ h.fromFresh p hp)
  cases hk : st.leftoverByIdentity.takeFirst e.keys.identity with
  | none => exact h.skip e
  | some pair =>
    obtain ⟨oldId, rest⟩ := pair
    obtain ⟨hin, hdist, hrest⟩ := Buckets.takeFirst_spec h.distinct hk
    have hold : oldId ∈ l₀ e.keys.identity ∧ oldId ∉ st.matchedOld := (h.left _ _).mp hin
    refine ⟨hdist, ?_, ?_, ?_, ?_, ?_, ?_, ?_⟩
    · intro k x
      rw [hrest, h.left, mem_cons, not_or]
      tauto
    · intro x
      rw [mem_cons, h.matched, map_append, mem_append]
      simp
      tauto
    · intro x hx
      rcases mem_cons.mp hx with rfl | hx
      · exact ⟨_, hold.1⟩
      · exact h.fromLeft x hx
    · rw [map_append, nodup_append]
      refine ⟨h.fstNodup, by simp, ?_⟩
      intro a ha b hb
      simp only [map_cons, map_nil, mem_singleton] at hb
      rintro rfl
      exact hold.2 ((h.matched _).mpr (hb ▸ ha))
    · intro o n
      show (if n = e.id then some oldId else st.supersededBy n) = some o ↔ _
      rw [mem_append, mem_singleton, mk.injEq]
      split
      · rename_i hn
        rw [hn]
        constructor
        · intro ho; exact .inr ⟨(some.inj ho).symm, rfl⟩
        · rintro (hm | ⟨rfl, -⟩)
          · exact absurd (mem_map.mpr ⟨_, hm, rfl⟩) hsnd
          · rfl
      · rename_i hn
        rw [h.superseded]
        simp [hn]
    · intro p hp
      rw [filter_append, map_append, mem_append]
      rcases mem_append.mp hp with hp | hp
      · exact .inl (h.fromFresh p hp)
      · rw [mem_singleton.mp hp]
        exact .inr (by simp [hfresh])
    · rw [map_append, nodup_append]
      refine ⟨h.sndNodup, by simp, ?_⟩
      intro a ha b hb
      simp only [map_cons, map_nil, mem_singleton] at hb
      rintro rfl
      exact hsnd (hb ▸ ha)

theorem PairInv.run (todo : List NewEntry) :
    ∀ (done : List NewEntry) (st : Pairing), PairInv l₀ done st →
      (((done ++ todo).filter (·.fresh)).map (·.id)).Nodup →
      PairInv l₀ (done ++ todo) (todo.foldl pairArrival st) := by
  induction todo with
  | nil => intro done st h _; simpa using h
  | cons e todo ih =>
    intro done st h hnd
    have hassoc : done ++ e :: todo = (done ++ [e]) ++ todo := by simp
    rw [hassoc] at hnd ⊢
    refine ih _ _ (h.step e ?_) hnd
    intro hf
    rw [append_assoc, filter_append, map_append, nodup_append] at hnd
    intro hm
    exact hnd.2.2 _ hm _ (by simp [hf]) rfl

/-! ## The plan -/

/-- What the sink keeps of the arrivals it stored against `index`. -/
structure Arrived (old : List OldEntry) (incoming : List NewEntry) (index : ContentIndex) : Prop where
  oldNodup : (old.map (·.id)).Nodup
  freshNodup : ((incoming.filter (·.fresh)).map (·.id)).Nodup
  freshNew : ∀ e ∈ incoming, e.fresh = true → e.id ∉ old.map (·.id)
  reused : (incoming.filter (·.reused)).map (·.id) = index.claimedIds
  claimedNodup : index.claimedIds.Nodup
  claimedOld : ∀ id ∈ index.claimedIds, id ∈ old.map (·.id)

section
variable {old : List OldEntry} {incoming : List NewEntry} {index : ContentIndex}

variable (h : Arrived old incoming index)

include h in
theorem Arrived.pairInv :
    PairInv (Buckets.ofList (·.keys.identity) (·.id) (leftovers old index)) incoming
      (pairByIdentity old incoming index) := by
  have hl : ((leftovers old index).map (·.id)).Nodup :=
    h.oldNodup.sublist (filter_sublist.map _)
  have := PairInv.run incoming [] _ (PairInv.start (Buckets.distinct_ofList (·.keys.identity) _ _ hl))
    h.freshNodup
  rwa [nil_append] at this

variable {x : Int}

include h in
theorem Arrived.matched_old
    (hx : x ∈ (pairByIdentity old incoming index).matchedOld) :
    x ∈ old.map (·.id) ∧ x ∉ index.claimedIds := by
  obtain ⟨k, hk⟩ := h.pairInv.fromLeft x hx
  rw [Buckets.mem_ofList] at hk
  obtain ⟨e, he, -, rfl⟩ := hk
  obtain ⟨heo, hc⟩ := mem_filter.mp he
  refine ⟨mem_map_of_mem heo, ?_⟩
  simp [ContentIndex.isClaimed] at hc
  exact hc.1

theorem Arrived.mem_order (_h : Arrived old incoming index) (x : Int) :
    x ∈ (reconcile old incoming index).order ↔ ∃ e ∈ incoming, e.stored = true ∧
      represent (pairByIdentity old incoming index).supersededBy e = x := by
  unfold reconcile
  rw [(placeAll _ _ _).1]
  simp [List.mem_map, mem_filter, and_assoc]

theorem Arrived.mem_stale (_h : Arrived old incoming index) (x : Int) :
    x ∈ (reconcile old incoming index).stale ↔
      (x ∈ old.map (·.id) ∧ x ∉ index.claimedIds ∧
        x ∉ (pairByIdentity old incoming index).matchedOld) ∨
      ∃ e ∈ incoming, e.fresh = true ∧ e.id = x ∧
        ∃ o, (pairByIdentity old incoming index).supersededBy x = some o := by
  unfold reconcile
  rw [(placeAll _ _ _).2.1]
  rw [mem_append, List.mem_map, List.mem_map]
  apply or_congr
  · constructor
    · rintro ⟨e, he, rfl⟩
      obtain ⟨heo, hc⟩ := mem_filter.mp he
      simp [ContentIndex.isClaimed] at hc
      exact ⟨mem_map_of_mem heo, hc.1, hc.2⟩
    · rintro ⟨hx, hc, hm⟩
      obtain ⟨e, heo, rfl⟩ := mem_map.mp hx
      exact ⟨e, mem_filter.mpr ⟨heo, by simp [ContentIndex.isClaimed, hc, hm]⟩, rfl⟩
  · constructor
    · rintro ⟨e, he, rfl⟩
      obtain ⟨he, hs⟩ := mem_filter.mp he
      obtain ⟨hei, hf⟩ := mem_filter.mp he
      exact ⟨e, hei, hf, rfl, isSome_iff_exists.mp hs⟩
    · rintro ⟨e, hei, hf, rfl, hs⟩
      exact ⟨e, mem_filter.mpr ⟨mem_filter.mpr ⟨hei, hf⟩, isSome_iff_exists.mpr hs⟩, rfl⟩

theorem reconcile_updates :
    (reconcile old incoming index).updates = (pairByIdentity old incoming index).updates := by
  unfold reconcile
  rw [(placeAll _ _ _).2.2]

include h in
/-- **Old profiles.**  Each is exactly one of claimed by content, the first of
exactly one update, or stale. -/
theorem reconcile_old (x : Int) (hx : x ∈ old.map (·.id)) :
    (x ∈ index.claimedIds ∧ ((reconcile old incoming index).updates.map fst).count x = 0 ∧
        x ∉ (reconcile old incoming index).stale) ∨
      (x ∉ index.claimedIds ∧ ((reconcile old incoming index).updates.map fst).count x = 1 ∧
        x ∉ (reconcile old incoming index).stale) ∨
      (x ∉ index.claimedIds ∧ ((reconcile old incoming index).updates.map fst).count x = 0 ∧
        x ∈ (reconcile old incoming index).stale) := by
  rw [reconcile_updates, h.mem_stale]
  have hnofresh : ¬ ∃ e ∈ incoming, e.fresh = true ∧ e.id = x ∧
      ∃ o, (pairByIdentity old incoming index).supersededBy x = some o := by
    rintro ⟨e, he, hf, rfl, -⟩
    exact h.freshNew e he hf hx
  have hmatched := h.pairInv.matched x
  by_cases hm : x ∈ (pairByIdentity old incoming index).matchedOld
  · have hc := (h.matched_old hm).2
    have hcount := count_eq_one_of_mem h.pairInv.fstNodup (hmatched.mp hm)
    refine .inr (.inl ⟨hc, hcount, ?_⟩)
    rintro (⟨-, -, hn⟩ | hf)
    · exact hn hm
    · exact hnofresh hf
  · have hcount := count_eq_zero_of_not_mem (fun hf => hm (hmatched.mpr hf))
    by_cases hc : x ∈ index.claimedIds
    · refine .inl ⟨hc, hcount, ?_⟩
      rintro (⟨-, hn, -⟩ | hf)
      · exact hn hc
      · exact hnofresh hf
    · exact .inr (.inr ⟨hc, hcount, .inl ⟨hx, hc, hm⟩⟩)

variable (hx : x ∈ (reconcile old incoming index).order)

include h hx in
theorem Arrived.order_old :
    (x ∈ index.claimedIds ∨ x ∈ (pairByIdentity old incoming index).matchedOld) ∨
      ∃ e ∈ incoming, e.fresh = true ∧ e.id = x ∧
        (pairByIdentity old incoming index).supersededBy x = none := by
  obtain ⟨e, he, hs, rfl⟩ := (h.mem_order x).mp hx
  unfold represent
  by_cases hr : e.reused = true
  · rw [if_pos hr]
    refine .inl (.inl ?_)
    rw [← h.reused]
    exact mem_map_of_mem (mem_filter.mpr ⟨he, hr⟩)
  · rw [if_neg hr]
    have hf : e.fresh = true := by simp [fresh, hs, hr]
    cases hsup : (pairByIdentity old incoming index).supersededBy e.id with
    | none => exact .inr ⟨e, he, hf, rfl, hsup⟩
    | some o =>
      refine .inl (.inr ((h.pairInv.matched o).mpr ?_))
      exact mem_map.mpr ⟨_, (h.pairInv.superseded o e.id).mp hsup, rfl⟩

include h in
theorem Arrived.claimed_mem_order (hx : x ∈ index.claimedIds)
    (h0 : 0 ≤ x) : x ∈ (reconcile old incoming index).order := by
  rw [← h.reused] at hx
  obtain ⟨e, he, rfl⟩ := mem_map.mp hx
  obtain ⟨he, hr⟩ := mem_filter.mp he
  exact (h.mem_order _).mpr ⟨e, he, by simpa [stored] using h0, by simp [represent, hr]⟩

include h in
theorem Arrived.updated_mem_order
    (hx : x ∈ (reconcile old incoming index).updates.map fst) :
    x ∈ (reconcile old incoming index).order := by
  rw [reconcile_updates] at hx
  obtain ⟨⟨o, n⟩, hp, rfl⟩ := mem_map.mp hx
  obtain ⟨e, he, hn⟩ := mem_map.mp (h.pairInv.fromFresh _ hp)
  obtain ⟨he, hf⟩ := mem_filter.mp he
  have hf' : e.stored = true ∧ e.reused = false := by simpa [fresh] using hf
  have hs := (h.pairInv.superseded o e.id).mpr (by rw [show e.id = n from hn]; exact hp)
  exact (h.mem_order _).mpr ⟨e, he, hf'.1, by simp [represent, hf'.2, hs]⟩

include h hx in
theorem Arrived.order_source :
    x ∈ old.map (·.id) ∨ x ∈ (incoming.filter (·.fresh)).map (·.id) := by
  rcases h.order_old hx with (hc | hm) | ⟨e, he, hf, rfl, -⟩
  · exact .inl (h.claimedOld x hc)
  · exact .inl (h.matched_old hm).1
  · exact .inr (mem_map_of_mem (mem_filter.mpr ⟨he, hf⟩))

include h in
theorem Arrived.stale_source
    (hx : x ∈ (reconcile old incoming index).stale) :
    x ∈ old.map (·.id) ∨ x ∈ (incoming.filter (·.fresh)).map (·.id) := by
  rcases (h.mem_stale x).mp hx with ⟨ho, -⟩ | ⟨e, he, hf, rfl, -⟩
  · exact .inl ho
  · exact .inr (mem_map_of_mem (mem_filter.mpr ⟨he, hf⟩))

include h hx in
theorem Arrived.order_stale : x ∉ (reconcile old incoming index).stale := by
  rw [h.mem_stale]
  rcases h.order_old hx with (hc | hm) | ⟨e, he, hf, rfl, hsup⟩
  · rintro (⟨-, hn, -⟩ | ⟨e, he, hf, rfl, -⟩)
    · exact hn hc
    · exact h.freshNew e he hf (h.claimedOld _ hc)
  · rintro (⟨-, -, hn⟩ | ⟨e, he, hf, rfl, -⟩)
    · exact hn hm
    · exact h.freshNew e he hf (h.matched_old hm).1
  rintro (⟨ho, -⟩ | ⟨-, -, -, -, o, hs⟩)
  · exact h.freshNew e he hf ho
  · rw [hsup] at hs; cases hs

include h in
/-- **Fresh rows.**  Each is exactly one of listed in the order, or stale as the
second of exactly one update. -/
theorem reconcile_fresh (e : NewEntry) (he : e ∈ incoming)
    (hf : e.fresh = true) :
    (e.id ∈ (reconcile old incoming index).order ∧ e.id ∉ (reconcile old incoming index).stale ∧
        ((reconcile old incoming index).updates.map snd).count e.id = 0) ∨
      (e.id ∉ (reconcile old incoming index).order ∧ e.id ∈ (reconcile old incoming index).stale ∧
        ((reconcile old incoming index).updates.map snd).count e.id = 1) := by
  have hst : e.stored = true := by simp [fresh] at hf; exact hf.1
  have hr : e.reused = false := by simp [fresh] at hf; exact hf.2
  rw [reconcile_updates]
  cases hsup : (pairByIdentity old incoming index).supersededBy e.id with
  | none =>
    left
    have hin : e.id ∈ (reconcile old incoming index).order :=
      (h.mem_order _).mpr ⟨e, he, hst, by simp [represent, hr, hsup]⟩
    refine ⟨hin, h.order_stale hin, count_eq_zero_of_not_mem ?_⟩
    intro hm
    obtain ⟨⟨o, n⟩, hp, hn⟩ := mem_map.mp hm
    have hs := (h.pairInv.superseded o n).mpr hp
    rw [show n = e.id from hn, hsup] at hs
    cases hs
  | some o =>
    right
    have hstale : e.id ∈ (reconcile old incoming index).stale :=
      (h.mem_stale _).mpr (.inr ⟨e, he, hf, rfl, o, hsup⟩)
    refine ⟨fun ho => h.order_stale ho hstale, hstale, ?_⟩
    apply count_eq_one_of_mem h.pairInv.sndNodup
    exact mem_map.mpr ⟨_, (h.pairInv.superseded o e.id).mp hsup, rfl⟩

/-- Distinct values of `f` over the entries that satisfy `p`, position by position. -/
theorem pairwise_of_filter_nodup (p : NewEntry → Bool) (l : List NewEntry)
    (h : ((l.filter p).map (·.id)).Nodup) :
    l.Pairwise fun a b => p a = true → p b = true → a.id ≠ b.id := by
  rwa [Nodup, pairwise_map, pairwise_filter] at h

include h in
/-- **The order.**  One id for every stored arrival, in arrival order, none twice. -/
theorem reconcile_order :
    (reconcile old incoming index).order =
        (incoming.filter (·.stored)).map
          (represent (pairByIdentity old incoming index).supersededBy) ∧
      (reconcile old incoming index).order.Nodup := by
  have heq : (reconcile old incoming index).order = (incoming.filter (·.stored)).map
      (represent (pairByIdentity old incoming index).supersededBy) := by
    unfold reconcile
    rw [(placeAll _ _ _).1]
    rfl
  refine ⟨heq, ?_⟩
  set pairs := pairByIdentity old incoming index
  rw [heq, Nodup, pairwise_map, pairwise_filter]
  have hreused : ((incoming.filter (·.reused)).map (·.id)).Nodup := by
    rw [h.reused]; exact h.claimedNodup
  have hpair := (pairwise_of_filter_nodup _ _ hreused).and
    (pairwise_of_filter_nodup _ _ h.freshNodup)
  -- an id claimed by content stands for no fresh row
  have hcross : ∀ a ∈ incoming, ∀ b ∈ incoming, a.reused = true → b.fresh = true →
      represent pairs.supersededBy b ≠ a.id := by
    intro a ha b hb hra hfb
    have hac : a.id ∈ index.claimedIds := by
      rw [← h.reused]; exact mem_map_of_mem (mem_filter.mpr ⟨ha, hra⟩)
    have hrb : b.reused = false := by simp [fresh] at hfb; exact hfb.2
    simp only [represent, hrb, Bool.false_eq_true, if_false]
    cases hsup : pairs.supersededBy b.id with
    | none =>
      intro e
      rw [getD_none] at e
      exact h.freshNew b hb hfb (e ▸ h.claimedOld _ hac)
    | some o =>
      intro e
      rw [getD_some] at e
      have hom : o ∈ pairs.matchedOld :=
        (h.pairInv.matched o).mpr
          (mem_map.mpr ⟨_, (h.pairInv.superseded o b.id).mp hsup, rfl⟩)
      exact (h.matched_old hom).2 (e ▸ hac)
  refine hpair.imp_of_mem ?_
  rintro a b ha hb ⟨hru, hfr⟩ hsa hsb
  by_cases hra : a.reused = true
  · have hrepa : represent pairs.supersededBy a = a.id := by
      simp [represent, hra]
    by_cases hrb : b.reused = true
    · have hrepb : represent pairs.supersededBy b = b.id := by
        simp [represent, hrb]
      rw [hrepa, hrepb]
      exact hru hra hrb
    · rw [hrepa]
      exact (hcross a ha b hb hra (by simp [fresh, hsb, hrb])).symm
  have hfa : a.fresh = true := by simp [fresh, hsa, hra]
  by_cases hrb : b.reused = true
  · have hrepb : represent pairs.supersededBy b = b.id := by
      simp [represent, hrb]
    rw [hrepb]
    exact hcross b hb a ha hrb hfa
  have hfb : b.fresh = true := by simp [fresh, hsb, hrb]
  have hne := hfr hfa hfb
  have hnew : ∀ c ∈ incoming, c.fresh = true →
      c.id ∉ pairs.updates.map fst := by
    intro c hc hfc hm
    exact h.freshNew c hc hfc (h.matched_old ((h.pairInv.matched _).mpr hm)).1
  simp only [represent, hra, hrb, Bool.false_eq_true, if_false]
  cases hsupa : pairs.supersededBy a.id with
  | none =>
    cases hsupb : pairs.supersededBy b.id with
    | none => exact hne
    | some o =>
      rintro rfl
      exact hnew a ha hfa (mem_map.mpr ⟨_, (h.pairInv.superseded _ _).mp hsupb, rfl⟩)
  | some o =>
    have hpa := (h.pairInv.superseded _ _).mp hsupa
    cases hsupb : pairs.supersededBy b.id with
    | none =>
      rintro rfl
      exact hnew b hb hfb (mem_map.mpr ⟨_, hpa, rfl⟩)
    | some o' =>
      rintro rfl
      have hpb := (h.pairInv.superseded _ _).mp hsupb
      have := inj_on_of_nodup_map h.pairInv.fstNodup hpa hpb rfl
      exact hne (congrArg snd this)

end

end Waterdisco.Sub
