import Waterdisco.Sub.Refresh

/-!
# Rows and listing across a refresh

Through the import and the updates the rows only grow and keep their groups
(`Grown`, `SameRows`).  The plan then sorts every row of the group into listed,
sticky or stale (`DiffStage` lemmas), and the delete and the restores decide what
becomes of the stale ones.
-/

namespace Waterdisco.Sub

open Waterdisco.Db List Option Store

/-! ## Listings -/

theorem insertSticky_perm (sticky : List (Nat × Int)) (l : List Int) :
    (insertSticky l sticky).Perm (sticky.map (·.2) ++ l) := by
  unfold insertSticky
  induction sticky generalizing l with
  | nil => exact Perm.refl _
  | cons p sticky ih =>
    refine (ih _).trans ?_
    refine ((perm_insertIdx p.2 l (Nat.min_le_right _ _)).append_left _).trans ?_
    exact perm_middle

theorem restore_perm (prev l : List Int) (id : Int) (h : id ∉ l) : (restore prev l id).Perm (id :: l) := by
  unfold restore
  rw [if_neg h]
  split
  · exact perm_insertIdx id l (.refl)
  · exact perm_insertIdx id l (Nat.min_le_right _ _)

/-- Restoring lists what was missing once and leaves the rest as it was. -/
theorem count_restoreAll (prev ids : List Int) (l : List Int) (x : Int) :
    (ids.foldl (restore prev) l).count x = if x ∈ l then l.count x else if x ∈ ids then 1 else 0 := by
  induction ids generalizing l with
  | nil =>
    split
    · rfl
    rename_i h
    exact count_eq_zero_of_not_mem h
  | cons id ids ih =>
    rw [foldl_cons, ih]
    by_cases hid : id ∈ l
    · have hsame : restore prev l id = l := by unfold restore; rw [if_pos hid]
      rw [hsame]
      by_cases hx : x ∈ l
      · rw [if_pos hx, if_pos hx]
      · have hne : x ≠ id := fun e => hx (e ▸ hid)
        simp [hx, hne]
    · have hp := restore_perm prev l id hid
      simp only [hp.count_eq x, hp.mem_iff]
      by_cases he : x = id
      · subst he
        simp [hid, count_eq_zero_of_not_mem hid]
      · have he' : id ≠ x := fun e => he e.symm
        simp [he, he']

theorem mem_restoreAll (prev ids : List Int) (l : List Int) (x : Int) :
    x ∈ ids.foldl (restore prev) l ↔ x ∈ l ∨ x ∈ ids := by
  rw [← count_pos_iff, count_restoreAll]
  by_cases hx : x ∈ l
  · simp [hx]
  by_cases hi : x ∈ ids
  · simp [hx, hi]
  · simp [hx, hi]

theorem stickyOf_ids (selectors l : List Int) :
    (stickyOf selectors l).map (·.2) = l.filter fun id => decide (id ∈ selectors) := by
  unfold stickyOf
  rw [List.map_map]
  have h : ∀ n, ((l.zipIdx n).filter fun p => decide (p.1 ∈ selectors)).map (·.1) =
      l.filter fun id => decide (id ∈ selectors) := by
    induction l with
    | nil => intro n; rfl
    | cons a l ih =>
      intro n
      by_cases ha : a ∈ selectors
      · simp [ha, ih (n + 1)]
      · simp [ha, ih (n + 1)]
  exact h 0

theorem mem_membersOf (sticky : List (Nat × Int)) (l : List Int) (x : Int) :
    x ∈ membersOf sticky l ↔ x ∈ l ∧ x ∉ sticky.map (·.2) := by
  unfold membersOf
  simp

theorem resort_listing_perm (env : RefreshEnv) (s : Store) (gid : Int) :
    ((resort env s gid).listing gid).Perm (s.listing gid) := by
  unfold resort
  cases hg : s.getGroup gid with
  | none => exact Perm.refl _
  | some g =>
    simp only
    split
    · rw [listing_relist _ _ (by rw [hg]; rfl)]
      have hsort := mergeSort_perm (s.listing gid) fun a b => !env.comesBefore b a
      refine Perm.trans ?_ hsort
      have hpart := filter_append_perm (fun id => !decide (id ∈ s.disabledProfiles))
        ((s.listing gid).mergeSort fun a b => !env.comesBefore b a)
      simpa using hpart
    · exact Perm.refl _

theorem resort_rows (env : RefreshEnv) (s : Store) (gid : Int) :
    (resort env s gid).rows = s.rows ∧ (resort env s gid).tombstones = s.tombstones := by
  unfold resort
  split
  · exact ⟨rfl, rfl⟩
  · split <;> exact ⟨rfl, rfl⟩

theorem resort_listingOk (env : RefreshEnv) (s : Store) (gid : Int) :
    (resort env s gid).ListingOk gid ↔ s.ListingOk gid := by
  unfold ListingOk
  have hp := resort_listing_perm env s gid
  rw [(resort_rows env s gid).1, (resort_rows env s gid).2]
  simp only [hp.count_eq, hp.mem_iff]

/-! ## The import -/

/-- The store while a document is imported into the group `gid` of `s₀`. -/
structure Grown (gid : Int) (s₀ : Store) (st : Import) : Prop where
  wf : st.store.Wf
  rows : ∃ fresh, st.store.rows = s₀.rows ++ fresh ∧ ∀ r ∈ fresh, r.gid = gid ∧ r.id ∈ st.sink.added
  tombstones : st.store.tombstones = s₀.tombstones
  group : (st.store.getGroup gid).isSome
  started : st.store.startedId = s₀.startedId
  allow : st.store.allowStoppingActiveProfile = s₀.allowStoppingActiveProfile
  sinkGid : st.sink.gid = gid
  chunkNew : ∀ p ∈ st.sink.chunk, p.id < 0

section
variable {digest : List UInt8 → Digest} {outcomes : Nat → InsertOutcome} {gid : Int} {s₀ : Store} {st : Import}

theorem Grown.sink (h : Grown gid s₀ st) (sink : ImportSink) (hadded : sink.added = st.sink.added)
    (hgid : sink.gid = st.sink.gid) (hchunk : ∀ p ∈ sink.chunk, p.id < 0) :
    Grown gid s₀ { st with sink } where
  wf := h.wf
  rows := by
    obtain ⟨fresh, heq, hf⟩ := h.rows
    exact ⟨fresh, heq, fun r hr => by rw [hadded]; exact hf r hr⟩
  tombstones := h.tombstones
  group := h.group
  started := h.started
  allow := h.allow
  sinkGid := hgid.trans h.sinkGid
  chunkNew := hchunk

theorem Grown.flush (h : Grown gid s₀ st) (hdrawn : ∀ i, (outcomes i).idsDrawn = true) :
    Grown gid s₀ (flush outcomes st) := by
  unfold Sub.flush
  split
  · exact h
  rename_i hne
  have hne : st.sink.chunk ≠ [] := by simpa using hne
  have hgid : st.store.batchGroup gid = gid := by
    obtain ⟨g, hg⟩ := isSome_iff_exists.mp h.group
    obtain ⟨hm, he⟩ := getGroup_mem hg
    have := h.wf.groupIds g hm
    unfold batchGroup
    rw [if_neg (by omega)]
  rcases addProfileBatch_cases st.store st.sink.chunk st.sink.gid (outcomes st.sink.flushes)
    h.chunkNew hne (hdrawn _) with ⟨l, hl, heq⟩ | ⟨sub, hsub, heq⟩
  · rw [heq]
    refine ⟨?_, h.rows, h.tombstones, h.group, h.started, h.allow, h.sinkGid, by simp⟩
    exact ⟨h.wf.idsNodup, Int.le_trans h.wf.lastId hl, h.wf.idsNonneg,
      fun r hr => Int.le_trans (h.wf.idsLe r hr) hl, fun id hid => Int.le_trans (h.wf.tombLe id hid) hl,
      h.wf.tombGone, h.wf.groupIds, fun g hg id hid => Int.le_trans (h.wf.listedLe g hg id hid) hl,
      h.wf.listedOwn⟩
  · rw [heq]
    rw [h.sinkGid, hgid] at hsub ⊢
    have hids := assignIds_ids gid st.store.profileLastId st.sink.chunk h.chunkNew
    have hgids := assignIds_gid gid (st.store.profileLastId + 1) st.sink.chunk h.chunkNew
    simp only [if_true, hids]
    refine ⟨addRows_wf h.wf gid _ sub h.chunkNew hsub, ?_, h.tombstones, ?_, h.started, h.allow,
      h.sinkGid, by simp⟩
    · obtain ⟨fresh, hrows, hf⟩ := h.rows
      refine ⟨fresh ++ sub, ?_, ?_⟩
      · show st.store.rows ++ sub = _
        rw [hrows, append_assoc]
      intro r hr
      rcases mem_append.mp hr with hr | hr
      · exact ⟨(hf r hr).1, mem_append_left _ (hf r hr).2⟩
      refine ⟨hgids r (hsub.subset hr), mem_append_right _ ?_⟩
      rw [← hids]
      exact mem_map_of_mem (hsub.subset hr)
    · rw [isSome_getGroup_relist]
      exact h.group

theorem Grown.add (h : Grown gid s₀ st) (hdrawn : ∀ i, (outcomes i).idsDrawn = true) (ent : Profile)
    (hent : ent.id < 0) : Grown gid s₀ (add digest outcomes st ent) := by
  have henq : ∀ (index : Option ContentIndex) (entry : NewEntry),
      Grown gid s₀ (enqueue outcomes { st with sink := { st.sink with index } } entry ent) := by
    intro index entry
    have hpush : Grown gid s₀ { st with sink := { st.sink with
        index
        entryIndex := st.sink.entryIndex ++ [st.sink.entries.length]
        entries := st.sink.entries ++ [entry]
        chunk := st.sink.chunk ++ [ent] } } := by
      refine h.sink _ rfl rfl ?_
      intro p hp
      rcases mem_append.mp hp with hp | hp
      · exact h.chunkNew p hp
      · rw [mem_singleton.mp hp]; exact hent
    unfold enqueue
    simp only
    split
    · exact hpush.flush hdrawn
    · exact hpush
  unfold Sub.add
  cases hi : st.sink.index with
  | none =>
    have := henq none { display := ent.outbound.displayTypeAndName }
    rwa [← hi] at this
  | some index =>
    simp only
    split
    · exact h.sink _ rfl rfl h.chunkNew
    · exact henq _ _

theorem Grown.importAll (digest : List UInt8 → Digest) (h : Grown gid s₀ st)
    (hdrawn : ∀ i, (outcomes i).idsDrawn = true) (arrivals : List Profile) (hnew : ∀ p ∈ arrivals, p.id < 0) :
    Grown gid s₀ (importAll digest outcomes st arrivals) := by
  unfold Sub.importAll
  induction arrivals generalizing st with
  | nil => exact h.flush hdrawn
  | cons ent arrivals ih =>
    exact ih (h.add hdrawn ent (hnew ent (.head _))) fun p hp => hnew p (.tail _ hp)

end

/-! ## The updates -/

/-- Rows keep their ids and groups, and nothing else of the store changes. -/
structure SameRows (s s' : Store) : Prop where
  rows : s'.rows.map (fun r => (r.id, r.gid)) = s.rows.map fun r => (r.id, r.gid)
  last : s'.profileLastId = s.profileLastId
  tombstones : s'.tombstones = s.tombstones
  groups : s'.groups = s.groups
  started : s'.startedId = s.startedId
  allow : s'.allowStoppingActiveProfile = s.allowStoppingActiveProfile

theorem SameRows.refl (s : Store) : SameRows s s := ⟨rfl, rfl, rfl, rfl, rfl, rfl⟩

theorem SameRows.trans {a b c : Store} (h : SameRows a b) (h' : SameRows b c) : SameRows a c :=
  ⟨h'.rows.trans h.rows, h'.last.trans h.last, h'.tombstones.trans h.tombstones, h'.groups.trans h.groups,
    h'.started.trans h.started, h'.allow.trans h.allow⟩

theorem SameRows.exists_row {s s' : Store} (h : SameRows s s') {r : Profile} (hr : r ∈ s'.rows) :
    ∃ q ∈ s.rows, q.id = r.id ∧ q.gid = r.gid := by
  have hm : (r.id, r.gid) ∈ s.rows.map fun r => (r.id, r.gid) := by
    rw [← h.rows]; exact mem_map.mpr ⟨r, hr, rfl⟩
  obtain ⟨q, hq, he⟩ := mem_map.mp hm
  exact ⟨q, hq, congrArg Prod.fst he, congrArg Prod.snd he⟩

theorem SameRows.wf {s s' : Store} (h : SameRows s s') (hw : s.Wf) : s'.Wf where
  idsNodup := by
    have hids : s'.rows.map (·.id) = s.rows.map (·.id) := by
      simpa [List.map_map, Function.comp_def] using congrArg (List.map Prod.fst) h.rows
    rw [hids]
    exact hw.idsNodup
  lastId := by rw [h.last]; exact hw.lastId
  idsNonneg r hr := by
    obtain ⟨q, hq, he, -⟩ := h.exists_row hr
    rw [← he]; exact hw.idsNonneg q hq
  idsLe r hr := by
    obtain ⟨q, hq, he, -⟩ := h.exists_row hr
    rw [← he, h.last]; exact hw.idsLe q hq
  tombLe := by rw [h.tombstones, h.last]; exact hw.tombLe
  tombGone r hr := by
    obtain ⟨q, hq, he, -⟩ := h.exists_row hr
    rw [← he, h.tombstones]; exact hw.tombGone q hq
  groupIds := by rw [h.groups]; exact hw.groupIds
  listedLe := by rw [h.groups, h.last]; exact hw.listedLe
  listedOwn g hg r hr hm := by
    obtain ⟨q, hq, he, hgid⟩ := h.exists_row hr
    rw [h.groups] at hg
    rw [← hgid]
    exact hw.listedOwn g hg q hq (by rw [he]; exact hm)

theorem applyUpdate_same (s : Store) (hw : s.Wf) (pair : Int × Int) : SameRows s (applyUpdate s pair) := by
  unfold applyUpdate
  split
  · rename_i oldEnt newEnt hold hnew
    unfold save
    split
    · exact SameRows.refl s
    refine ⟨?_, rfl, rfl, rfl, rfl, rfl⟩
    rw [List.map_map]
    refine map_congr_left fun r hr => ?_
    obtain ⟨hmem, -⟩ := getProfile_eq_some hold
    simp only [Function.comp_apply]
    split
    · rename_i he
      rw [inj_on_of_nodup_map hw.idsNodup hr hmem he]
    · rfl
  · exact SameRows.refl s

theorem applyUpdates_same (pairs : List (Int × Int)) (s : Store) (hw : s.Wf) :
    SameRows s (pairs.foldl applyUpdate s) := by
  induction pairs generalizing s with
  | nil => exact SameRows.refl s
  | cons p pairs ih =>
    have h := applyUpdate_same s hw p
    exact h.trans (ih _ (h.wf hw))

/-! ## The diff branch up to its delete -/

/-- The store a diff starts from: rows and listing agree, and the auto selectors
noted at the start are still listed. -/
structure DiffPre (gid : Int) (sticky : List (Nat × Int)) (s : Store) : Prop where
  wf : s.Wf
  group : (s.getGroup gid).isSome
  ok : s.ListingOk gid
  sticky : (sticky.map (·.2)).Sublist (s.listing gid)

/-- What the plan makes of the rows of the group: each is listed once or stale. -/
structure DiffSpec (gid : Int) (d : DiffStage) : Prop where
  wf : d.store.Wf
  group : (d.store.getGroup gid).isSome
  own : ∀ r ∈ d.store.rows, r.id ∈ d.plan.stale → r.gid = gid
  sorted : ∀ r ∈ d.store.rows, r.gid = gid → (d.store.listing gid).count r.id = 1 ∨ r.id ∈ d.plan.stale
  unlisted : ∀ id ∈ d.plan.stale, id ∉ d.store.listing gid
  alive : ∀ id, id ∈ d.store.listing gid ∨ id ∈ d.plan.stale → id ∉ d.store.tombstones
  staleLe : ∀ id ∈ d.plan.stale, id ≤ d.store.profileLastId
  working : ∀ id, id ∈ d.plan.stale ↔ id ∈ d.stale ∨ id ∈ d.keptWorking
  apart : ∀ id ∈ d.stale, id ∉ d.keptWorking

section
variable {digest : List UInt8 → Digest} {env : RefreshEnv} {gid : Int} {s : Store}
  {sticky : List (Nat × Int)}

variable (h : DiffPre gid sticky s)

include h

theorem DiffPre.old_nodup :
    ((s.getProfileBatch (membersOf sticky (s.listing gid))).map (·.id)).Nodup := by
  -- only rows load, and a row of the group is listed once
  have hids : (s.getProfileBatch (membersOf sticky (s.listing gid))).map (·.id) =
      (membersOf sticky (s.listing gid)).filter fun id => (s.getProfile id).isSome := by
    unfold getProfileBatch
    generalize membersOf sticky (s.listing gid) = l
    induction l with
    | nil => rfl
    | cons id l ih =>
      cases hp : s.getProfile id with
      | none => simp [hp, ih]
      | some p => simp [hp, ih, (getProfile_eq_some hp).2]
  rw [hids, nodup_iff_count_le_one]
  intro x
  by_cases hx : (s.getProfile x).isSome
  · obtain ⟨p, hp⟩ := isSome_iff_exists.mp hx
    obtain ⟨hpr, rfl⟩ := getProfile_eq_some hp
    have hcount := count_filter (p := fun id => (s.getProfile id).isSome)
      (l := membersOf sticky (s.listing gid)) hx
    rw [hcount]
    by_cases hl : p.id ∈ s.listing gid
    · have hc := h.ok.1 p hpr (h.wf.gid_of_listed hpr hl)
      have hle : (membersOf sticky (s.listing gid)).count p.id ≤ (s.listing gid).count p.id :=
        filter_sublist.count_le _
      omega
    · have hm : p.id ∉ membersOf sticky (s.listing gid) := fun hm =>
        hl ((mem_membersOf _ _ _).mp hm).1
      rw [count_eq_zero_of_not_mem hm]
      omega
  · rw [count_eq_zero_of_not_mem (by simp [hx])]
    omega

theorem DiffPre.grown (index : Option ContentIndex) :
    Grown gid s { store := s, sink := { gid, index } } where
  wf := h.wf
  rows := ⟨[], by simp, by simp⟩
  tombstones := rfl
  group := h.group
  started := rfl
  allow := rfl
  sinkGid := rfl
  chunkNew p hp := by cases hp

theorem DiffPre.mem_old {x : Int}
    (hx : x ∈ (s.getProfileBatch (membersOf sticky (s.listing gid))).map (·.id)) :
    ∃ r ∈ s.rows, r.id = x ∧ r.gid = gid ∧ x ∈ s.listing gid ∧ x ∉ sticky.map (·.2) := by
  rw [mem_map_getProfileBatch h.wf] at hx
  obtain ⟨hr, hm⟩ := hx
  obtain ⟨r, hrow, rfl⟩ := mem_map.mp hr
  obtain ⟨hl, hs⟩ := (mem_membersOf _ _ _).mp hm
  exact ⟨r, hrow, rfl, h.wf.gid_of_listed hrow hl, hl, hs⟩

end

/-- The import of the diff branch, before its plan is applied. -/
structure Imported (gid : Int) (sticky : List (Nat × Int)) (s : Store) (old : List OldEntry)
    (imported : Import) (index : ContentIndex) : Prop where
  pre : DiffPre gid sticky s
  oldIds : old.map (·.id) = (s.getProfileBatch (membersOf sticky (s.listing gid))).map (·.id)
  grown : Grown gid s imported
  arrived : Arrived old imported.sink.entries index
  fresh : ((imported.sink.entries.filter (·.fresh)).map (·.id)).Perm imported.sink.added
  last : s.profileLastId ≤ imported.store.profileLastId
  added : ∀ id ∈ imported.sink.added, s.profileLastId < id ∧ id ≤ imported.store.profileLastId

section
variable {gid : Int} {sticky : List (Nat × Int)} {s : Store} {old : List OldEntry} {imported : Import}
  {index : ContentIndex}

variable {x : Int} {r : Profile}

variable (h : Imported gid sticky s old imported index)
  (hx : x ∈ (reconcile old imported.sink.entries index).order ∨ x ∈ (reconcile old imported.sink.entries index).stale)

include h hx

theorem Imported.source :
    (∃ r ∈ s.rows, r.id = x ∧ r.gid = gid ∧ x ∈ s.listing gid ∧ x ∉ sticky.map (·.2)) ∨
      x ∈ imported.sink.added := by
  have hsrc : x ∈ old.map (·.id) ∨ x ∈ (imported.sink.entries.filter (·.fresh)).map (·.id) := by
    rcases hx with hx | hx
    · exact h.arrived.order_source hx
    · exact h.arrived.stale_source hx
  rcases hsrc with ho | hf
  · rw [h.oldIds] at ho
    exact .inl (h.pre.mem_old ho)
  · exact .inr (h.fresh.mem_iff.mp hf)

theorem Imported.not_sticky : x ∉ sticky.map (·.2) := by
  rcases h.source hx with ⟨-, -, -, -, -, hs⟩ | ha
  · exact hs
  intro hs
  have h1 := h.pre.wf.listing_le (h.pre.sticky.subset hs)
  have h2 := (h.added x ha).1
  omega

theorem Imported.plan_le : x ≤ imported.store.profileLastId := by
  rcases h.source hx with ⟨r, hr, rfl, -⟩ | ha
  · obtain ⟨fresh, hrows, -⟩ := h.grown.rows
    exact h.grown.wf.idsLe r (by rw [hrows]; exact mem_append_left _ hr)
  · exact (h.added x ha).2

theorem Imported.plan_alive : x ∉ s.tombstones := by
  rcases h.source hx with ⟨r, hr, rfl, -⟩ | ha
  · exact h.pre.wf.tombGone r hr
  intro ht
  have h1 := h.pre.wf.tombLe x ht
  have h2 := (h.added x ha).1
  omega

omit h hx

include h

variable (hr : r ∈ imported.store.rows)

include hr

theorem Imported.plan_own
    (hx : r.id ∈ (reconcile old imported.sink.entries index).order ∨
      r.id ∈ (reconcile old imported.sink.entries index).stale) : r.gid = gid := by
  obtain ⟨fresh, hrows, hfresh⟩ := h.grown.rows
  rw [hrows] at hr
  rcases mem_append.mp hr with hr | hr
  · rcases h.source hx with ⟨q, hq, he, hg, -⟩ | ha
    · rw [← inj_on_of_nodup_map h.pre.wf.idsNodup hq hr he]
      exact hg
    have h1 := (h.added r.id ha).1
    have h2 := h.pre.wf.idsLe r hr
    omega
  · exact (hfresh r hr).1

theorem Imported.sticky_own (hx : r.id ∈ sticky.map (·.2)) : r.gid = gid := by
  have hl := h.pre.sticky.subset hx
  obtain ⟨fresh, hrows, hfresh⟩ := h.grown.rows
  rw [hrows] at hr
  rcases mem_append.mp hr with hr | hr
  · exact h.pre.wf.gid_of_listed hr hl
  · exact (hfresh r hr).1

/-- **The plan sorts the rows of the group**: listed, auto selector or stale. -/
theorem Imported.sorted (hg : r.gid = gid) :
    (r.id ∈ (reconcile old imported.sink.entries index).order ∨ (sticky.map (·.2)).count r.id = 1) ∨
      r.id ∈ (reconcile old imported.sink.entries index).stale := by
  obtain ⟨fresh, hrows, hfresh⟩ := h.grown.rows
  rw [hrows] at hr
  rcases mem_append.mp hr with hr | hr
  · have hone := h.pre.ok.1 r hr hg
    have hl : r.id ∈ s.listing gid := count_pos_iff.mp (by omega)
    by_cases hs : r.id ∈ sticky.map (·.2)
    · have h1 := h.pre.sticky.count_le r.id
      have h2 := count_pos_iff.mpr hs
      exact .inl (.inr (by omega))
    have ho : r.id ∈ old.map (·.id) := by
      rw [h.oldIds, mem_map_getProfileBatch h.pre.wf]
      exact ⟨mem_map_of_mem hr, (mem_membersOf _ _ _).mpr ⟨hl, hs⟩⟩
    rcases reconcile_old h.arrived r.id ho with ⟨hc, -⟩ | ⟨-, hu, -⟩ | ⟨-, -, hst⟩
    · exact .inl (.inl (h.arrived.claimed_mem_order hc (h.pre.wf.idsNonneg r hr)))
    · exact .inl (.inl (h.arrived.updated_mem_order (count_pos_iff.mp (by omega))))
    · exact .inr hst
  · obtain ⟨e, he, hid⟩ := mem_map.mp (h.fresh.mem_iff.mpr (hfresh r hr).2)
    obtain ⟨he, hf⟩ := mem_filter.mp he
    rcases reconcile_fresh h.arrived e he hf with ⟨ho, -⟩ | ⟨-, hst, -⟩
    · exact .inl (.inl (by rw [← hid]; exact ho))
    · exact .inr (by rw [← hid]; exact hst)

omit hr

theorem Imported.listing (updated : Store)
    (hsame : SameRows imported.store updated) :
    (updated.relist gid fun _ =>
        insertSticky (reconcile old imported.sink.entries index).order sticky).listing gid =
      insertSticky (reconcile old imported.sink.entries index).order sticky := by
  rw [listing_relist]
  unfold getGroup
  rw [hsame.groups]
  exact h.grown.group

theorem Imported.mem_listing (updated : Store)
    (hsame : SameRows imported.store updated) (x : Int) :
    x ∈ (updated.relist gid fun _ =>
        insertSticky (reconcile old imported.sink.entries index).order sticky).listing gid ↔
      x ∈ sticky.map (·.2) ∨ x ∈ (reconcile old imported.sink.entries index).order := by
  rw [h.listing updated hsame, (insertSticky_perm _ _).mem_iff, mem_append]

theorem Imported.diffSpec (working previous : List Int)
    (updated : Store) (hsame : SameRows imported.store updated) :
    DiffSpec gid {
      old, plan := reconcile old imported.sink.entries index
      stale := (reconcile old imported.sink.entries index).stale.filter fun id => !decide (id ∈ working)
      keptWorking := (reconcile old imported.sink.entries index).stale.filter fun id => decide (id ∈ working)
      previousOrder := previous
      store := updated.relist gid fun _ =>
        insertSticky (reconcile old imported.sink.entries index).order sticky } := by
  have hstickyLe : ∀ id ∈ sticky.map (·.2), id ≤ imported.store.profileLastId := fun id hid =>
    Int.le_trans (h.pre.wf.listing_le (h.pre.sticky.subset hid)) h.last
  have hlist := h.mem_listing updated hsame
  refine ⟨?_, ?_, ?_, ?_, ?_, ?_, ?_, ?_, ?_⟩
  · show (updated.relist gid fun _ =>
      insertSticky (reconcile old imported.sink.entries index).order sticky).Wf
    refine relist_wf (hsame.wf h.grown.wf) gid _ ?_ ?_
    · intro g hg hgid id hid
      rw [(insertSticky_perm _ _).mem_iff, mem_append] at hid
      rw [hsame.last]
      rcases hid with hid | hid
      · exact hstickyLe id hid
      · exact h.plan_le (.inl hid)
    · intro g hg hgid r hr hm
      obtain ⟨q, hq, he, hqg⟩ := hsame.exists_row hr
      rw [(insertSticky_perm _ _).mem_iff, mem_append, ← he] at hm
      rw [← hqg]
      rcases hm with hm | hm
      · exact h.sticky_own hq hm
      · exact h.plan_own hq (.inl hm)
  · rw [isSome_getGroup_relist]
    unfold getGroup
    rw [hsame.groups]
    exact h.grown.group
  · intro r hr hst
    obtain ⟨q, hq, he, hqg⟩ := hsame.exists_row hr
    rw [← hqg]
    exact h.plan_own hq (.inr (by rw [he]; exact hst))
  · intro r hr hg
    obtain ⟨q, hq, he, hqg⟩ := hsame.exists_row hr
    show count r.id (Store.listing _ gid) = 1 ∨ _
    rw [h.listing updated hsame, (insertSticky_perm _ _).count_eq, count_append, ← he]
    rcases h.sorted hq (hqg.trans hg) with (ho | hs) | hst
    · have h1 := count_eq_one_of_mem (reconcile_order h.arrived).2 ho
      have h2 := count_eq_zero_of_not_mem (h.not_sticky (.inl ho))
      exact .inl (by omega)
    · have h1 : q.id ∉ (reconcile old imported.sink.entries index).order := fun ho =>
        h.not_sticky (.inl ho) (count_pos_iff.mp (by omega))
      have h2 := count_eq_zero_of_not_mem h1
      exact .inl (by omega)
    · exact .inr hst
  · intro id hst hl
    rcases (hlist id).mp hl with hs | ho
    · exact h.not_sticky (.inr hst) hs
    · exact h.arrived.order_stale ho hst
  · intro id hid
    show id ∉ updated.tombstones
    rw [hsame.tombstones, h.grown.tombstones]
    rcases hid with hl | hst
    · rcases (hlist id).mp hl with hs | ho
      · exact h.pre.ok.2 id (h.pre.sticky.subset hs)
      · exact h.plan_alive (.inl ho)
    · exact h.plan_alive (.inr hst)
  · intro id hst
    show id ≤ updated.profileLastId
    rw [hsame.last]
    exact h.plan_le (.inr hst)
  · intro id
    simp only [mem_filter]
    by_cases hw : id ∈ working
    · simp [hw]
    · simp [hw]
  · intro id hst hk
    have h1 := (mem_filter.mp hst).2
    have h2 := (mem_filter.mp hk).2
    simp [of_decide_eq_true h2] at h1

end

/-- **The diff up to its delete.** -/
theorem diffStage_spec (digest : List UInt8 → Digest) (env : RefreshEnv) {gid : Int} {s : Store}
    {sticky : List (Nat × Int)} (h : DiffPre gid sticky s) (options : SubscriptionOptions)
    (hnew : ∀ p ∈ env.arrivals, p.id < 0) (hdrawn : ∀ i, (env.inserts i).idsDrawn = true) :
    DiffSpec gid (diffStage digest env gid s options sticky) := by
  have hids : ((s.getProfileBatch (membersOf sticky (s.listing gid))).map (oldEntryOf digest)).map (·.id) =
      (s.getProfileBatch (membersOf sticky (s.listing gid))).map (·.id) := by
    rw [List.map_map]; rfl
  have hnd := h.old_nodup
  rw [← hids] at hnd
  obtain ⟨index, hinv⟩ := (ImportInv.start digest _ s gid hnd).importAll h.wf.lastId hdrawn env.arrivals hnew
  have himp : Imported gid sticky s _ _ index := {
    pre := h
    oldIds := hids
    grown := (h.grown _).importAll digest hdrawn env.arrivals hnew
    arrived := hinv.toArrived hnd fun id hid => by
      rw [hids] at hid
      obtain ⟨r, hr, rfl, -⟩ := h.mem_old hid
      exact h.wf.idsLe r hr
    fresh := hinv.fresh
    last := hinv.lastLe
    added := hinv.addedRange }
  unfold diffStage
  simp only [hinv.indexed, getD_some]
  exact himp.diffSpec _ _ _ (applyUpdates_same _ _ himp.grown.wf)

/-! ## The delete and the survivors -/

/-- The ids the diff's transaction deletes. -/
def DiffStage.doomed (d : DiffStage) : List Int :=
  d.store.deletable d.stale d.store.allowStoppingActiveProfile

section
variable {env : RefreshEnv} {gid : Int} {d : DiffStage}

theorem mem_deletable (s : Store) (ids : List Int) (stop : Bool) {x : Int} (h : x ∈ s.deletable ids stop) :
    x ∈ ids := by
  unfold deletable at h
  split at h
  · exact mem_of_mem_filter h
  · exact h

/-- A delete that leaves the rows alone, or one that removes exactly `ids`. -/
theorem batchDelete_effect (s : Store) (ids : List Int) (stop : Bool) (e : DeleteEnv) :
    ∃ started : Int, ((s.batchDeleteProfiles ids stop e).2.2 = { s with startedId := started } ∧
        ((s.deletable ids stop).isEmpty = true ∨ e.committed = false)) ∨
      ((s.batchDeleteProfiles ids stop e).2.2 =
          deleteRows { s with startedId := started } (s.deletable ids stop) ∧ e.committed = true) := by
  obtain ⟨started, hc⟩ := batchDeleteProfiles_cases s ids stop e
  refine ⟨started, ?_⟩
  rw [hc]
  split
  · rename_i h
    exact .inl ⟨rfl, .inl h⟩
  split
  · rename_i h
    exact .inl ⟨rfl, .inr h⟩
  · rename_i h
    exact .inr ⟨rfl, by simpa using h⟩

theorem mem_kept (s : Store) (ids : List Int) (e : DeleteEnv) (x : Int) :
    x ∈ (deleteProfiles s ids e).1.kept ↔
      x ∈ ids ∧ x ∉ s.deletable ids s.allowStoppingActiveProfile := by
  unfold deleteProfiles
  simp only [mem_filter, mem_dedup, batchDeleteProfiles_ids]
  simp

theorem diffDelete_store (env : RefreshEnv) (gid : Int) (d : DiffStage) :
    (diffDelete env gid d).2 =
      (d.store.batchDeleteProfiles d.stale d.store.allowStoppingActiveProfile env.diffDelete).2.2.relist gid
        fun l => ((deleteProfiles d.store d.stale env.diffDelete).1.kept ++ d.keptWorking).foldl
          (restore d.previousOrder) l := rfl

/-- The survivors that are put back: stale ids that the transaction leaves alone. -/
theorem DiffSpec.mem_survivors (h : DiffSpec gid d) (x : Int) :
    x ∈ (deleteProfiles d.store d.stale env.diffDelete).1.kept ++ d.keptWorking ↔
      x ∈ d.plan.stale ∧ x ∉ d.doomed := by
  rw [mem_append, mem_kept, h.working]
  constructor
  · rintro (⟨hs, hd⟩ | hk)
    · exact ⟨.inl hs, hd⟩
    · exact ⟨.inr hk, fun hd => h.apart x (mem_deletable _ _ _ hd) hk⟩
  · rintro ⟨hs | hk, hd⟩
    · exact .inl ⟨hs, hd⟩
    · exact .inr hk

theorem DiffSpec.group_delete (h : DiffSpec gid d) (e : DeleteEnv) :
    (((d.store.batchDeleteProfiles d.stale d.store.allowStoppingActiveProfile e).2.2).getGroup gid).isSome := by
  rw [isSome_getGroup_batchDeleteProfiles]
  exact h.group

theorem batchDelete_shrinks {s : Store} (hw : s.Wf) (ids : List Int) (stop : Bool) (e : DeleteEnv) (gid : Int) :
    let s' := (s.batchDeleteProfiles ids stop e).2.2
    (∀ r ∈ s'.rows, r ∈ s.rows ∧ (s'.listing gid).count r.id = (s.listing gid).count r.id) ∧
      s'.profileLastId = s.profileLastId ∧ (∀ x ∈ s'.listing gid, x ∈ s.listing gid) ∧
      ∀ x ∈ s'.tombstones, x ∈ s.tombstones ∨ x ∈ s.deletable ids stop := by
  obtain ⟨started, ⟨heq, -⟩ | ⟨heq, -⟩⟩ := batchDelete_effect s ids stop e
  · rw [heq]
    exact ⟨fun r hr => ⟨hr, rfl⟩, rfl, fun x hx => hx, fun x hx => .inl hx⟩
  rw [heq]
  refine ⟨fun r hr => ⟨mem_of_mem_filter hr, count_listing_deleteRows hr gid⟩, rfl,
    fun x hx => mem_listing_deleteRows hx, fun x hx => ?_⟩
  rcases mem_append.mp hx with hx | hx
  · exact .inl hx
  · exact .inr ((mem_map_getProfileBatch (hw.started started) _ x).mp hx).2

variable (h : DiffSpec gid d)

include h

theorem DiffSpec.wf_delete : (diffDelete env gid d).2.Wf := by
  have hw := batchDeleteProfiles_wf h.wf d.stale d.store.allowStoppingActiveProfile env.diffDelete
  obtain ⟨hrows, hlast, -, -⟩ := batchDelete_shrinks h.wf d.stale d.store.allowStoppingActiveProfile
    env.diffDelete gid
  rw [diffDelete_store]
  refine relist_wf hw gid _ ?_ ?_
  · intro g hg _ x hx
    rcases (mem_restoreAll _ _ _ x).mp hx with hx | hx
    · exact hw.listedLe g hg x hx
    · rw [hlast]
      exact h.staleLe x ((h.mem_survivors x).mp hx).1
  · intro g hg he r hr hx
    rcases (mem_restoreAll _ _ _ r.id).mp hx with hx | hx
    · exact (hw.listedOwn g hg r hr hx).trans he
    · exact h.own r (hrows r hr).1 ((h.mem_survivors r.id).mp hx).1

theorem DiffSpec.listing_delete :
    (diffDelete env gid d).2.listing gid =
      ((deleteProfiles d.store d.stale env.diffDelete).1.kept ++ d.keptWorking).foldl
        (restore d.previousOrder)
        ((d.store.batchDeleteProfiles d.stale d.store.allowStoppingActiveProfile
          env.diffDelete).2.2.listing gid) := by
  rw [diffDelete_store, listing_relist _ _ (h.group_delete _)]

/-- **The delete went through, or had no row to delete**: rows and listing agree. -/
theorem DiffSpec.listingOk_delete
    (hcond : env.diffDelete.committed = true ∨ ∀ r ∈ d.store.rows, r.id ∉ d.doomed) :
    (diffDelete env gid d).2.ListingOk gid := by
  obtain ⟨hrows, -, hsub, htomb⟩ := batchDelete_shrinks h.wf d.stale d.store.allowStoppingActiveProfile
    env.diffDelete gid
  obtain ⟨started, heffect⟩ := batchDelete_effect d.store d.stale d.store.allowStoppingActiveProfile env.diffDelete
  have hlisting := @listing_delete env _ _ h
  have hstore := diffDelete_store env gid d
  generalize (d.store.batchDeleteProfiles d.stale d.store.allowStoppingActiveProfile env.diffDelete).2.2 = after
    at hrows hsub htomb heffect hlisting hstore
  have hgone : ∀ r ∈ after.rows, r.id ∉ d.doomed := by
    intro r hr hd
    rcases hcond with hc | hc
    · rcases heffect with ⟨-, he | he⟩ | ⟨heq, -⟩
      · rw [List.isEmpty_iff] at he
        unfold DiffStage.doomed at hd
        rw [he] at hd
        cases hd
      · rw [hc] at he
        cases he
      · rw [heq] at hr
        have := (mem_filter.mp hr).2
        simp only [DiffStage.doomed] at hd
        simp [hd] at this
    · exact hc r (hrows r hr).1 hd
  refine ⟨fun r hr hg => ?_, fun x hx => ?_⟩
  · rw [hstore] at hr
    rw [hlisting, count_restoreAll]
    obtain ⟨hr₀, hcount⟩ := hrows r hr
    rcases h.sorted r hr₀ hg with hone | hst
    · have hin : r.id ∈ after.listing gid := count_pos_iff.mp (by omega)
      rw [if_pos hin]
      omega
    · have hout : r.id ∉ after.listing gid := fun hl => h.unlisted r.id hst (hsub r.id hl)
      rw [if_neg hout, if_pos ((h.mem_survivors r.id).mpr ⟨hst, hgone r hr⟩)]
  · have halive : ∀ y ∈ after.listing gid, y ∉ after.tombstones := by
      rcases heffect with ⟨heq, -⟩ | ⟨heq, -⟩
      · rw [heq]
        exact fun y hy => h.alive y (.inl hy)
      · rw [heq]
        exact deleteRows_alive (h.wf.started started) _ fun y hy => h.alive y (.inl hy)
    rw [hlisting, mem_restoreAll] at hx
    rw [hstore]
    rcases hx with hx | hx
    · exact halive x hx
    obtain ⟨hst, hnd⟩ := (h.mem_survivors x).mp hx
    intro ht
    rcases htomb x ht with ht | hd
    · exact h.alive x (.inr hst) ht
    · exact hnd hd

/-- **The delete failed with a row to delete**: that row stays and is not listed. -/
theorem DiffSpec.orphan_delete (hfail : env.diffDelete.committed = false) {r : Profile}
    (hr : r ∈ d.store.rows) (hd : r.id ∈ d.doomed) :
    r ∈ (diffDelete env gid d).2.rows ∧ r.gid = gid ∧ r.id ∉ (diffDelete env gid d).2.listing gid := by
  have hst : r.id ∈ d.plan.stale := (h.working r.id).mpr (.inl (mem_deletable _ _ _ hd))
  obtain ⟨-, -, hsub, -⟩ := batchDelete_shrinks h.wf d.stale d.store.allowStoppingActiveProfile
    env.diffDelete gid
  refine ⟨?_, h.own r hr hst, ?_⟩
  · obtain ⟨started, ⟨heq, -⟩ | ⟨-, hc⟩⟩ := batchDelete_effect d.store d.stale
      d.store.allowStoppingActiveProfile env.diffDelete
    · rw [diffDelete_store, heq]
      exact hr
    · rw [hfail] at hc
      cases hc
  · rw [h.listing_delete, mem_restoreAll]
    rintro (hl | hk)
    · exact h.unlisted r.id hst (hsub r.id hl)
    · exact ((h.mem_survivors r.id).mp hk).2 hd

end

/-! ## The end of a refresh -/

theorem mem_collect (profiles : List Profile) (doomed : List Int) (isMatch : Profile → Bool) {x : Int}
    (h : x ∈ collect profiles doomed isMatch) : x ∈ doomed ∨ x ∈ profiles.map (·.id) := by
  unfold collect at h
  induction profiles generalizing doomed with
  | nil => exact .inl h
  | cons p profiles ih =>
    rw [foldl_cons] at h
    rcases ih _ h with h | h
    · split at h
      · exact .inl h
      rcases mem_append.mp h with h | h
      · exact .inl h
      · exact .inr (by simp [mem_singleton.mp h])
    · exact .inr (.tail _ h)

theorem mem_flaggedIds (env : RefreshEnv) (options : SubscriptionOptions) (profiles : List Profile) {x : Int}
    (h : x ∈ flaggedIds env options profiles) : x ∈ profiles.map (·.id) := by
  unfold flaggedIds at h
  have hdup : ∀ m : Profile → Bool,
      x ∈ (if options.removeDuplicates then collect profiles [] m else []) → x ∈ profiles.map (·.id) := by
    intro m hx
    split at hx
    · rcases mem_collect _ _ _ hx with hx | hx
      · cases hx
      · exact hx
    · cases hx
  have hins : ∀ m m' : Profile → Bool,
      x ∈ (if options.removeInsecure then
        collect profiles (if options.removeDuplicates then collect profiles [] m else []) m'
      else if options.removeDuplicates then collect profiles [] m else []) → x ∈ profiles.map (·.id) := by
    intro m m' hx
    split at hx
    · rcases mem_collect _ _ _ hx with hx | hx
      · exact hdup m hx
      · exact hx
    · exact hdup m hx
  simp only at h
  split at h
  · split at h
    · exact hins _ _ h
    rcases mem_collect _ _ _ h with h | h
    · exact hins _ _ h
    · exact h
  · exact hins _ _ h

theorem removeFlagged_cases (env : RefreshEnv) (s : Store) (hw : s.Wf) (ids : List Int)
    (options : SubscriptionOptions) :
    (removeFlagged env s ids options).2 = s ∨
      ∃ doomed, (∀ x ∈ doomed, x ∈ ids) ∧ (removeFlagged env s ids options).2 =
        (s.batchDeleteProfiles doomed s.allowStoppingActiveProfile env.flaggedDelete).2.2 := by
  unfold removeFlagged
  split
  · exact .inl rfl
  simp only
  split
  · exact .inl rfl
  · refine .inr ⟨flaggedIds env options (s.getProfileBatch ids), fun x hx => ?_, rfl⟩
    exact ((mem_map_getProfileBatch hw ids x).mp (mem_flaggedIds _ _ _ hx)).2

section
variable (env : RefreshEnv) {gid : Int} {s : Store} (options : SubscriptionOptions)
  (sticky : List (Nat × Int))

theorem finishStage_listingOk (hw : s.Wf) (h : s.ListingOk gid) :
    (finishStage env gid s options sticky).2.ListingOk gid := by
  show (resort env (removeFlagged env s _ options).2 gid).ListingOk gid
  rw [resort_listingOk]
  rcases removeFlagged_cases env s hw (membersOf sticky (s.listing gid)) options with heq | ⟨doomed, -, heq⟩
  · rw [heq]
    exact h
  · rw [heq]
    exact batchDeleteProfiles_ok hw _ _ _ h

theorem finishStage_orphan (hw : s.Wf) {r : Profile} (hr : r ∈ s.rows) (hl : r.id ∉ s.listing gid) :
    r ∈ (finishStage env gid s options sticky).2.rows ∧
      r.id ∉ (finishStage env gid s options sticky).2.listing gid := by
  show r ∈ (resort env (removeFlagged env s _ options).2 gid).rows ∧
    r.id ∉ (resort env (removeFlagged env s _ options).2 gid).listing gid
  rw [(resort_rows _ _ _).1, (resort_listing_perm _ _ _).mem_iff]
  rcases removeFlagged_cases env s hw (membersOf sticky (s.listing gid)) options with heq | ⟨doomed, hsub, heq⟩
  · rw [heq]
    exact ⟨hr, hl⟩
  rw [heq]
  obtain ⟨-, -, hlist, -⟩ := batchDelete_shrinks hw doomed s.allowStoppingActiveProfile env.flaggedDelete gid
  refine ⟨?_, fun hm => hl (hlist r.id hm)⟩
  obtain ⟨started, ⟨heq, -⟩ | ⟨heq, -⟩⟩ := batchDelete_effect s doomed s.allowStoppingActiveProfile
    env.flaggedDelete
  · rw [heq]
    exact hr
  · rw [heq]
    have hkeep : r.id ∉ s.deletable doomed s.allowStoppingActiveProfile := fun hd =>
      hl ((mem_membersOf _ _ _).mp (hsub _ (mem_deletable _ _ _ hd))).1
    exact mem_filter.mpr ⟨hr, by simp [hkeep]⟩

end

/-! ## The whole refresh -/

theorem groupSticky_sublist (s : Store) (g : Group) :
    ((groupSticky s g).map (·.2)).Sublist (s.listing g.id) := by
  unfold groupSticky
  rw [stickyOf_ids]
  exact filter_sublist

/-- Clearing deletes members only, so the auto selectors stay listed. -/
theorem clearStage_pre (env : RefreshEnv) {s : Store} {gid : Int} {sticky : List (Nat × Int)}
    (options : SubscriptionOptions) (h : DiffPre gid sticky s) :
    DiffPre gid sticky (clearStage env gid s options sticky).2 := by
  obtain ⟨doomed, hsub, heq⟩ : ∃ doomed, (∀ x ∈ doomed, x ∉ sticky.map (·.2)) ∧
      (clearStage env gid s options sticky).2 =
        (s.batchDeleteProfiles doomed s.allowStoppingActiveProfile env.clearDelete).2.2 := by
    refine ⟨_, fun x hx => ?_, rfl⟩
    split at hx
    · exact ((mem_membersOf _ _ _).mp (mem_of_mem_filter hx)).2
    · exact ((mem_membersOf _ _ _).mp hx).2
  rw [heq]
  refine ⟨batchDeleteProfiles_wf h.wf _ _ _, ?_, batchDeleteProfiles_ok h.wf _ _ _ h.ok, ?_⟩
  · rw [isSome_getGroup_batchDeleteProfiles]
    exact h.group
  obtain ⟨started, ⟨heq, -⟩ | ⟨heq, -⟩⟩ := batchDelete_effect s doomed s.allowStoppingActiveProfile
    env.clearDelete
  · rw [heq]
    exact h.sticky
  · rw [heq, listing_deleteRows]
    split
    · have hself : (sticky.map (·.2)).filter
          (fun id => !decide (id ∈ s.deletable doomed s.allowStoppingActiveProfile)) = sticky.map (·.2) := by
        refine filter_eq_self.mpr fun x hx => ?_
        have hnd : x ∉ s.deletable doomed s.allowStoppingActiveProfile := fun hd =>
          hsub x (mem_deletable _ _ _ hd) hx
        simp [hnd]
      rw [← hself]
      exact h.sticky.filter _
    · exact h.sticky

theorem route_pre {trimmed : String → String} {env : RefreshEnv} {s s₁ : Store} {g : Group} {url : String}
    {removed : Nat} (hw : s.Wf) (hg : s.getGroup g.id = some g) (hok : s.ListingOk g.id)
    (hdiff : route trimmed env s g url (groupSticky s g) = .diff s₁ removed) :
    DiffPre g.id (groupSticky s g) s₁ := by
  have hpre : DiffPre g.id (groupSticky s g) s := ⟨hw, by rw [hg]; rfl, hok, groupSticky_sublist s g⟩
  unfold route at hdiff
  split at hdiff
  · cases hdiff
  split at hdiff
  · cases hdiff
  split at hdiff
  · simp only at hdiff
    split at hdiff
    · cases hdiff
    split at hdiff
    · cases hdiff
    · cases hdiff
      exact clearStage_pre env g.subOptions hpre
  · cases hdiff
    exact hpre

/-- **A refresh through the diff branch** leaves rows and listing in agreement
exactly when the transaction of its delete commits or has no row to delete. -/
theorem applyRefresh_listingOk_iff (digest : List UInt8 → Digest) (trimmed : String → String) (env : RefreshEnv)
    (s s₁ : Store) (g : Group) (url : String) (removed : Nat)
    (hw : s.Wf) (hg : s.getGroup g.id = some g) (hok : s.ListingOk g.id)
    (hnew : ∀ p ∈ env.arrivals, p.id < 0) (hdrawn : ∀ i, (env.inserts i).idsDrawn = true)
    (hdiff : route trimmed env s g url (groupSticky s g) = .diff s₁ removed) :
    (applyRefresh digest trimmed env s g url).2.ListingOk g.id ↔
      env.diffDelete.committed = true ∨
        ∀ r ∈ (diffStage digest env g.id s₁ g.subOptions (groupSticky s g)).store.rows,
          r.id ∉ (diffStage digest env g.id s₁ g.subOptions (groupSticky s g)).doomed := by
  have hspec := diffStage_spec digest env (route_pre hw hg hok hdiff) g.subOptions hnew hdrawn
  have heq : (applyRefresh digest trimmed env s g url).2 =
      (finishStage env g.id (diffDelete env g.id
        (diffStage digest env g.id s₁ g.subOptions (groupSticky s g))).2 g.subOptions (groupSticky s g)).2 := by
    unfold applyRefresh
    simp only [hdiff]
    rfl
  rw [heq]
  constructor
  · intro h
    by_contra hcond
    rw [not_or] at hcond
    obtain ⟨hfail, hrow⟩ := hcond
    have hfail : env.diffDelete.committed = false := by simpa using hfail
    have hrow : ∃ r ∈ (diffStage digest env g.id s₁ g.subOptions (groupSticky s g)).store.rows,
        r.id ∈ (diffStage digest env g.id s₁ g.subOptions (groupSticky s g)).doomed := by
      by_contra hn
      exact hrow fun r hr hd => hn ⟨r, hr, hd⟩
    obtain ⟨r, hr, hd⟩ := hrow
    obtain ⟨hr₁, hgid, hl₁⟩ := hspec.orphan_delete hfail hr hd
    obtain ⟨hr₂, hl₂⟩ := finishStage_orphan env g.subOptions (groupSticky s g) hspec.wf_delete hr₁ hl₁
    have hone := h.1 r hr₂ hgid
    rw [count_eq_zero_of_not_mem hl₂] at hone
    omega
  · intro hcond
    exact finishStage_listingOk env g.subOptions _ hspec.wf_delete (hspec.listingOk_delete hcond)

/-- A group of one server and one auto selector. -/
def smallGroup : Group := { id := 1, url := "u", profiles := [2, 3] }

def smallStore : Store where
  rows := [{ id := 2, gid := 1, type := "autoselector" },
           { id := 3, gid := 1, type := "vless", outbound := { exportToJson := [1], exportIdentity := [7] } }]
  profileLastId := 3
  groups := [smallGroup]

theorem smallStore_wf : smallStore.Wf where
  idsNodup := by decide
  lastId := by decide
  idsNonneg := by decide
  idsLe := by decide
  tombLe := by decide
  tombGone := by decide
  groupIds := by decide
  listedLe := by decide
  listedOwn := by decide

/-- A document with one server the group does not hold. -/
def smallEnv (committed : Bool) : RefreshEnv where
  arrivals := [{ type := "vless", outbound := { exportToJson := [2], exportIdentity := [9] } }]
  diffDelete := { committed }

/-- The refresh replaces the server and keeps the auto selector in its place. -/
theorem smallStore_refreshed :
    (applyRefresh id id (smallEnv true) smallStore smallGroup "u").2.ListingOk 1 :=
  (applyRefresh_listingOk_iff id id (smallEnv true) smallStore smallStore smallGroup "u" 0 smallStore_wf rfl
    (by decide) (by decide) (fun _ => rfl) rfl).mpr (.inl rfl)

/-- When the delete fails, the old server's row stays and nothing lists it. -/
theorem smallStore_orphaned :
    smallStore.ListingOk 1 ∧
      route id (smallEnv false) smallStore smallGroup "u" (groupSticky smallStore smallGroup) =
        .diff smallStore 0 ∧
      ¬ (applyRefresh id id (smallEnv false) smallStore smallGroup "u").2.ListingOk 1 :=
  ⟨by decide, rfl, by decide⟩

end Waterdisco.Sub
