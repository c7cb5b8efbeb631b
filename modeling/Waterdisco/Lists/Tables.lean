import Waterdisco.Lists.Repo

/-!
# What the transactions do to the tables

The constraints of the two tables are `Wf`.  Every transaction keeps them, and
says what becomes of the lists readers see: a purge and a chunk that is not the
last keep every list (`KeepsList`), the last chunk and a bump publish.

    purgeChunk_keeps, stageChunk_more, stageChunk_last, bumpGeneration_spec,
    insertHeader_spec, deleteHeader_spec, copyChunk_more, copyChunk_last,
    createTables_spec
-/

namespace Waterdisco.Lists

open List Nat

/-- The constraints of the tables: primary keys, unique index and foreign key. -/
structure Wf (db : Db) : Prop where
  ids : (db.ipLists.map Header.id).Nodup
  rows : db.rows.Pairwise (fun a b => conflicts a b = false)
  parent : ∀ r ∈ db.rows, (generation? db r.listId).isSome = true

/-- Readers see the same of list `j`. -/
structure KeepsList (db db' : Db) (j : Int) : Prop where
  generation : generation? db' j = generation? db j
  select : ∀ g, generation? db j = some g → select db' j g = select db j g

theorem KeepsList.refl (db : Db) (j : Int) : KeepsList db db j := ⟨rfl, fun _ _ => rfl⟩

variable {db db' : Db} {j : Int} {g start stop target : Nat} {r : Row} {rows : List Row} {entries : List Entry}

theorem KeepsList.liveEntries (h : KeepsList db db' j) :
    liveEntries db' j = liveEntries db j := by
  unfold Lists.liveEntries
  rw [h.generation]
  split
  · rfl
  · rename_i g hg
    rw [h.select g hg]

theorem liveEntries_of_generation (h : generation? db j = some g) :
    liveEntries db j = (select db j g).map Row.entry := by
  unfold liveEntries
  rw [h]

/-! ## Headers -/

variable {id : Int}

theorem header?_eq_some {l : Header} (h : header? db id = some l) :
    l ∈ db.ipLists ∧ l.id = id := by
  exact ⟨mem_of_find?_eq_some h, by simpa using find?_some h⟩

theorem header?_of_mem (hdb : Wf db) {l : Header} (h : l ∈ db.ipLists) : header? db l.id = some l := by
  have hsome : (header? db l.id).isSome = true := by
    unfold header?
    rw [find?_isSome]
    exact ⟨l, h, by simp⟩
  obtain ⟨m, hm⟩ := Option.isSome_iff_exists.mp hsome
  obtain ⟨hmem, hid⟩ := header?_eq_some hm
  rw [hm, inj_on_of_nodup_map hdb.ids hmem h hid]

theorem generation?_setGeneration (db : Db) (id j : Int) (g : Nat) :
    generation? (setGeneration db id g) j = if j = id then (generation? db id).map (fun _ => g) else generation? db j := by
  unfold generation? header? setGeneration
  rw [find?_map]
  have hcomp : (fun l : Header => decide (l.id = j)) ∘
      (fun l => if l.id = id then { l with entriesGeneration := g } else l) = fun l => decide (l.id = j) := by
    funext l
    simp only [Function.comp]
    split <;> rfl
  rw [hcomp]
  by_cases hj : j = id
  · subst hj
    rw [if_pos rfl]
    cases hf : db.ipLists.find? (fun l => decide (l.id = j)) with
    | none => rfl
    | some l =>
      have hl : l.id = j := by simpa using find?_some hf
      simp [hl]
  · rw [if_neg hj]
    cases hf : db.ipLists.find? (fun l => decide (l.id = j)) with
    | none => rfl
    | some l =>
      have hl : l.id = j := by simpa using find?_some hf
      simp [hl, hj]

theorem setGeneration_wf (hdb : Wf db) (id : Int) (g : Nat) : Wf (setGeneration db id g) := by
  refine ⟨?_, hdb.rows, ?_⟩
  · have hmap : (setGeneration db id g).ipLists.map Header.id = db.ipLists.map Header.id := by
      unfold setGeneration
      rw [map_map]
      apply map_congr_left
      intro l _
      simp only [Function.comp]
      split <;> rfl
    rw [hmap]
    exact hdb.ids
  · intro r hr
    have := hdb.parent r hr
    rw [generation?_setGeneration]
    split
    · rename_i heq
      rw [← heq]
      simpa using this
    · exact this

/-! ## Rows -/

theorem mem_select :
    r ∈ select db id g ↔ r ∈ db.rows ∧ r.listId = id ∧ r.generation = g := by
  unfold select
  rw [(sortBy_perm Row.entryOrder _).mem_iff, mem_filter]
  simp

theorem select_congr
    (h : db'.rows.filter (fun r => r.listId = id ∧ r.generation = g) =
      db.rows.filter (fun r => r.listId = id ∧ r.generation = g)) : select db' id g = select db id g := by
  unfold select
  rw [h]

theorem select_filter (db db' : Db) (p : Row → Bool) (id : Int) (g : Nat) (hrows : db'.rows = db.rows.filter p)
    (hp : ∀ r, r.listId = id → r.generation = g → p r = true) : select db' id g = select db id g := by
  apply select_congr
  rw [hrows, filter_filter]
  apply filter_congr
  intro r _
  by_cases hr : r.listId = id ∧ r.generation = g
  · simp [hr, hp r hr.1 hr.2]
  · simp [hr]

theorem select_append_of_ne (db db' : Db) (new : List Row) (id : Int) (g : Nat) (hrows : db'.rows = db.rows ++ new)
    (hnew : ∀ r ∈ new, ¬ (r.listId = id ∧ r.generation = g)) : select db' id g = select db id g := by
  apply select_congr
  rw [hrows, filter_append]
  have hnil : new.filter (fun r => decide (r.listId = id ∧ r.generation = g)) = [] := by
    rw [filter_eq_nil_iff]
    intro r hr
    simpa using hnew r hr
  rw [hnil, append_nil]

theorem select_append (db db' : Db) (new : List Row) (id : Int) (g : Nat) (hrows : db'.rows = db.rows ++ new)
    (hnew : ∀ r ∈ new, r.listId = id ∧ r.generation = g)
    (hsorted : new.Pairwise (fun a b => a.entryOrder ≤ b.entryOrder))
    (hafter : ∀ a ∈ select db id g, ∀ b ∈ new, a.entryOrder ≤ b.entryOrder) :
    select db' id g = select db id g ++ new := by
  have hself : new.filter (fun r => decide (r.listId = id ∧ r.generation = g)) = new := by
    rw [filter_eq_self]
    intro r hr
    simpa using hnew r hr
  unfold select
  rw [hrows, filter_append, hself]
  apply sortBy_append Row.entryOrder _ _ hsorted
  intro a ha b hb
  refine hafter a ?_ b hb
  rw [mem_filter] at ha
  rw [mem_select]
  exact ⟨ha.1, by simpa using ha.2⟩

theorem select_strict (hdb : Wf db) (id : Int) (g : Nat) :
    (select db id g).Pairwise (fun a b => a.entryOrder < b.entryOrder) := by
  apply sortBy_strict
  rw [Nodup, pairwise_map]
  have hfilter := hdb.rows.filter (fun r => decide (r.listId = id ∧ r.generation = g))
  refine hfilter.imp_of_mem ?_
  intro a b ha hb hconf heq
  simp only [mem_filter, decide_eq_true_eq] at ha hb
  simp [conflicts, ha.2, hb.2, heq] at hconf

theorem conflicts_comm (a b : Row) : conflicts a b = conflicts b a := by
  unfold conflicts
  simp only [eq_comm]

theorem pairwise_snoc (h : rows.Pairwise (fun a b => conflicts a b = false))
    (hr : rows.any (conflicts r) = false) : (rows ++ [r]).Pairwise (fun a b => conflicts a b = false) := by
  rw [pairwise_append]
  refine ⟨h, pairwise_singleton _ _, ?_⟩
  intro a ha b hb
  rw [mem_singleton] at hb
  subst hb
  rw [any_eq_false] at hr
  rw [conflicts_comm]
  simpa using hr a ha

/-- `INSERT OR IGNORE` keeps the constraints. -/
theorem foldl_insertOrIgnore_pairwise (new rows : List Row) (h : rows.Pairwise (fun a b => conflicts a b = false)) :
    (new.foldl insertOrIgnore rows).Pairwise (fun a b => conflicts a b = false) := by
  induction new generalizing rows with
  | nil => exact h
  | cons r new ih =>
    apply ih
    unfold insertOrIgnore
    split
    · exact h
    · rename_i hany
      exact pairwise_snoc h (by simpa using hany)

theorem mem_foldl_insertOrIgnore (new rows : List Row) (h : r ∈ new.foldl insertOrIgnore rows) :
    r ∈ rows ∨ r ∈ new := by
  induction new generalizing rows with
  | nil => exact .inl h
  | cons x new ih =>
    rcases ih _ h with hr | hr
    · unfold insertOrIgnore at hr
      split at hr
      · exact .inl hr
      rcases mem_append.mp hr with hr | hr
      · exact .inl hr
      · rw [mem_singleton] at hr
        exact .inr (by simp [hr])
    · exact .inr (.tail _ hr)

theorem foldl_insertOrIgnore (new rows : List Row) (h : (rows ++ new).Pairwise (fun a b => conflicts a b = false)) :
    new.foldl insertOrIgnore rows = rows ++ new := by
  induction new generalizing rows with
  | nil => simp
  | cons r new ih =>
    have hany : rows.any (conflicts r) = false := by
      rw [any_eq_false]
      intro a ha
      rw [pairwise_append] at h
      have := h.2.2 a ha r (by simp)
      rw [conflicts_comm] at this
      simp [this]
    have hone : insertOrIgnore rows r = rows ++ [r] := by
      unfold insertOrIgnore
      rw [hany]
      rfl
    rw [foldl_cons, hone, ih _ (by simpa using h)]
    simp

theorem insertRows_eq {new rows' : List Row} (h : insertRows rows new = some rows') : rows' = rows ++ new := by
  induction new generalizing rows with
  | nil =>
    simp only [insertRows, Option.some.injEq] at h
    simp [h]
  | cons r new ih =>
    simp only [insertRows] at h
    split at h
    · simp at h
    · rw [ih h]
      simp

theorem insertRows_pairwise {new rows' : List Row} (h : insertRows rows new = some rows')
    (hrows : rows.Pairwise (fun a b => conflicts a b = false)) :
    rows'.Pairwise (fun a b => conflicts a b = false) := by
  induction new generalizing rows with
  | nil =>
    simp only [insertRows, Option.some.injEq] at h
    exact h ▸ hrows
  | cons r new ih =>
    simp only [insertRows] at h
    split at h
    · simp at h
    · rename_i hany
      exact ih h (pairwise_snoc hrows (by simpa using hany))

/-! ## Purges -/

theorem filter_wf (hdb : Wf db) (p : Row → Bool) (hrows : db'.rows = db.rows.filter p)
    (hlists : db'.ipLists = db.ipLists) : Wf db' := by
  refine ⟨hlists ▸ hdb.ids, hrows ▸ hdb.rows.filter p, ?_⟩
  intro r hr
  rw [hrows] at hr
  have := hdb.parent r (mem_of_mem_filter hr)
  unfold generation? header? at *
  rw [hlists]
  exact this

/-- A purge takes rows of a generation that is not the live one. -/
theorem purgeChunk_spec {more : Bool} (hdb : Wf db)
    (h : purgeChunk db id g = some (db', more)) : Wf db' ∧ ∀ j, KeepsList db db' j := by
  unfold purgeChunk at h
  split at h
  · simp at h
  rename_i hlive
  have hcase : ∃ bound, db' = deleteRows db id g bound := by
    split at h
    · simp only [Option.some.injEq, Prod.mk.injEq] at h
      exact ⟨_, h.1.symm⟩
    · simp only [Option.some.injEq, Prod.mk.injEq] at h
      exact ⟨_, h.1.symm⟩
  obtain ⟨bound, rfl⟩ := hcase
  refine ⟨filter_wf hdb _ rfl rfl, fun j => ⟨rfl, ?_⟩⟩
  intro g' hg'
  apply select_filter db _ _ j g' rfl
  intro r hj hr
  have hne : ¬ (r.listId = id ∧ r.generation = g) := by
    rintro ⟨hid, hg⟩
    apply hlive
    rw [← hid, hj, hg', ← hr, hg]
  by_cases hid : r.listId = id
  · have hg : r.generation ≠ g := fun hg => hne ⟨hid, hg⟩
    simp [hg]
  · simp [hid]

/-- When nothing stale is found, only the kept generation has rows. -/
theorem findStale_eq_none {keep : Int} (h : findStale db id keep = none)
    (hg : (g : Int) ≠ keep) : select db id g = [] := by
  unfold findStale at h
  split at h
  · simp at h
  rename_i hbelow
  simp only [Option.map_eq_none_iff] at h
  rw [find?_eq_none] at h hbelow
  rw [eq_nil_iff_forall_not_mem]
  intro r hr
  rw [mem_select] at hr
  obtain ⟨hr, hid, hrg⟩ := hr
  have h1 := hbelow r hr
  have h2 := h r hr
  simp only [decide_eq_true_eq, not_and] at h1 h2
  omega

/-! ## Publishing -/

/-- No two entries have one address and port. -/
def Distinct (entries : List Entry) : Prop :=
  entries.Pairwise (fun a b => ¬ (a.cidr = b.cidr ∧ a.port = b.port))

theorem mem_uniqueLoop {seen : List String} {e : Entry} (h : e ∈ uniqueLoop entries seen) :
    uniqueKey e ∉ seen := by
  induction entries generalizing seen with
  | nil => simp [uniqueLoop] at h
  | cons x entries ih =>
    simp only [uniqueLoop] at h
    split at h
    · exact ih h
    split at h
    · exact ih h
    rename_i hx
    rcases mem_cons.mp h with rfl | h
    · exact hx
    · exact fun hmem => ih h (.tail _ hmem)

theorem uniqueLoop_distinct (entries : List Entry) (seen : List String) : Distinct (uniqueLoop entries seen) := by
  induction entries generalizing seen with
  | nil => exact Pairwise.nil
  | cons x entries ih =>
    simp only [uniqueLoop]
    split
    · exact ih seen
    split
    · exact ih seen
    refine Pairwise.cons ?_ (ih _)
    rintro e he ⟨hcidr, hport⟩
    apply mem_uniqueLoop he
    simp [uniqueKey, hcidr, hport]

theorem unique_distinct (entries : List Entry) : Distinct (unique entries) := uniqueLoop_distinct entries []

theorem entryRows_length (id : Int) (g : Nat) (entries : List Entry) :
    (entryRows id g entries).length = entries.length := by
  simp [entryRows]

theorem entryRows_map (id : Int) (g : Nat) (entries : List Entry) :
    (entryRows id g entries).map Row.entry = entries := by
  unfold entryRows
  rw [map_map]
  exact zipIdx_map_fst 0 entries

theorem mem_entryRows (h : r ∈ entryRows id g entries) :
    r.listId = id ∧ r.generation = g := by
  unfold entryRows at h
  rw [mem_map] at h
  obtain ⟨p, -, rfl⟩ := h
  exact ⟨rfl, rfl⟩

theorem entryRows_pairwise (id : Int) (g : Nat) (entries : List Entry) (h : Distinct entries) :
    (entryRows id g entries).Pairwise (fun a b => conflicts a b = false ∧ a.entryOrder < b.entryOrder) := by
  unfold Distinct at h
  rw [pairwise_iff_getElem] at h ⊢
  intro i j hi hj hij
  rw [entryRows_length] at hi hj
  have := h i j hi hj hij
  simp only [entryRows, getElem_map, getElem_zipIdx]
  refine ⟨?_, by omega⟩
  simp only [conflicts, decide_true, Bool.true_and, Bool.or_eq_false_iff, decide_eq_false_iff_not,
    Bool.and_eq_false_iff]
  refine ⟨by omega, ?_⟩
  by_cases hc : entries[i].cidr = entries[j].cidr
  · exact .inr (fun hp => this ⟨hc, hp⟩)
  · exact .inl hc

/-- The first `n` entries are in the generation `target`. -/
def Staged (db : Db) (id : Int) (target : Nat) (entries : List Entry) (n : Nat) : Prop :=
  select db id target = (entryRows id target entries).take n

theorem take_chunk (l : List Row) (h : start ≤ stop) :
    l.take stop = l.take start ++ (l.take stop).drop start := by
  have htake : (l.take stop).take start = l.take start := by rw [take_take, min_eq_left h]
  rw [← htake, take_append_drop]

theorem insertEntries_rows (hdb : Wf db)
    (hd : Distinct entries) (hs : Staged db id target entries start) (hle : start ≤ stop) :
    (insertEntries db id target entries start stop).rows =
      db.rows ++ ((entryRows id target entries).take stop).drop start := by
  apply foldl_insertOrIgnore
  have hpair := (entryRows_pairwise id target entries hd).sublist (take_sublist stop _)
  rw [pairwise_append]
  refine ⟨hdb.rows, (hpair.sublist (drop_sublist start _)).imp (fun h => h.1), ?_⟩
  intro a ha b hb
  obtain ⟨hbid, hbg⟩ := mem_entryRows (mem_of_mem_take (mem_of_mem_drop hb))
  by_cases hab : a.listId = id ∧ a.generation = target
  · -- a row staged before stands earlier in the list
    have hstaged : a ∈ (entryRows id target entries).take start := by
      rw [← hs, mem_select]
      exact ⟨ha, hab⟩
    rw [take_chunk _ hle, pairwise_append] at hpair
    exact (hpair.2.2 a hstaged b hb).1
  · unfold conflicts
    rw [hbid, hbg]
    by_cases hid : a.listId = id
    · have hg : a.generation ≠ target := fun hg => hab ⟨hid, hg⟩
      simp [hg]
    · simp [hid]

theorem insertEntries_staged (hdb : Wf db)
    (hd : Distinct entries) (hs : Staged db id target entries start) (hle : start ≤ stop) :
    Staged (insertEntries db id target entries start stop) id target entries stop := by
  have hpair := (entryRows_pairwise id target entries hd).sublist (take_sublist stop _)
  unfold Staged at *
  rw [select_append db _ _ id target (insertEntries_rows hdb hd hs hle), hs, ← take_chunk _ hle]
  · intro r hr
    exact mem_entryRows (mem_of_mem_take (mem_of_mem_drop hr))
  · exact (hpair.sublist (drop_sublist start _)).imp (fun h => le_of_lt h.2)
  intro a ha b hb
  rw [hs] at ha
  rw [take_chunk _ hle, pairwise_append] at hpair
  exact le_of_lt (hpair.2.2 a ha b hb).2

theorem insertEntries_wf (hdb : Wf db) (id : Int) (target : Nat) (entries : List Entry) (start stop : Nat)
    (hid : (generation? db id).isSome = true) : Wf (insertEntries db id target entries start stop) := by
  refine ⟨hdb.ids, foldl_insertOrIgnore_pairwise _ _ hdb.rows, ?_⟩
  intro r hr
  rcases mem_foldl_insertOrIgnore _ _ hr with hr | hr
  · exact hdb.parent r hr
  have := (mem_entryRows (mem_of_mem_take (mem_of_mem_drop hr))).1
  rw [this]
  exact hid

/-- Other lists and other generations do not see the inserted rows. -/
theorem insertEntries_select_of_ne (hdb : Wf db)
    (hd : Distinct entries) (hs : Staged db id target entries start) (hle : start ≤ stop)
    (hne : ¬ (id = j ∧ target = g)) :
    select (insertEntries db id target entries start stop) j g = select db j g := by
  apply select_append_of_ne db _ _ j g (insertEntries_rows hdb hd hs hle)
  rintro r hr ⟨h1, h2⟩
  obtain ⟨h3, h4⟩ := mem_entryRows (mem_of_mem_take (mem_of_mem_drop hr))
  exact hne ⟨h3 ▸ h1, h4 ▸ h2⟩

theorem chunkEnd_le (entries : List Entry) (start : Nat) : chunkEnd entries start ≤ entries.length :=
  min_le_right _ _

theorem le_chunkEnd (entries : List Entry) (start : Nat) (h : start ≤ entries.length) :
    start ≤ chunkEnd entries start := by
  unfold chunkEnd
  omega

/-- What a round of the staging does: the chunk is in, other lists are untouched,
and the header is flipped with the last one. -/
structure StageStep (db db' : Db) (id : Int) (current target : Nat) (entries : List Entry) (start : Nat) : Prop where
  wf : Wf db'
  others : ∀ j, j ≠ id → KeepsList db db' j
  live : generation? db id = some current
  staged : Staged db' id target entries (chunkEnd entries start)
  unchanged : select db' id current = select db id current
  generation : generation? db' id = some (if chunkEnd entries start = entries.length then target else current)

theorem stageChunk_spec (hdb : Wf db) {current : Nat}
    (hd : Distinct entries) (hs : Staged db id target entries start) (hstart : start ≤ entries.length)
    (hne : target ≠ current) (h : stageChunk db id current target entries start = some db') :
    StageStep db db' id current target entries start := by
  unfold stageChunk at h
  split at h
  · rename_i hlive
    simp only [Option.some.injEq] at h
    have hle := le_chunkEnd entries start hstart
    have hsome : (generation? db id).isSome = true := by simp [hlive]
    have hwf := insertEntries_wf hdb id target entries start (chunkEnd entries start) hsome
    have hstaged := insertEntries_staged hdb hd hs hle
    have hsel := fun j g => insertEntries_select_of_ne (j := j) (g := g) hdb hd hs hle
    have hgen : ∀ j, generation? (insertEntries db id target entries start (chunkEnd entries start)) j =
      generation? db j := fun _ => rfl
    subst h
    split
    · rename_i hend
      refine ⟨setGeneration_wf hwf id target, ?_, hlive, hstaged, hsel id current (fun h => hne h.2), ?_⟩
      · intro j hj
        refine ⟨?_, fun g _ => hsel j g (fun h => hj h.1.symm)⟩
        rw [generation?_setGeneration, if_neg hj, hgen]
      · rw [generation?_setGeneration, if_pos rfl, hgen, hlive]
        simp [hend]
    · rename_i hend
      refine ⟨hwf, ?_, hlive, hstaged, hsel id current (fun h => hne h.2), ?_⟩
      · intro j hj
        exact ⟨rfl, fun g _ => hsel j g (fun h => hj h.1.symm)⟩
      · rw [hgen, hlive, if_neg hend]
  · simp at h

theorem le_foldl_max (rows : List Row) (m : Nat) :
    m ≤ rows.foldl (fun m r => max m r.generation) m ∧
      ∀ r ∈ rows, r.generation ≤ rows.foldl (fun m r => max m r.generation) m := by
  induction rows generalizing m with
  | nil => simp
  | cons x rows ih =>
    obtain ⟨h1, h2⟩ := ih (max m x.generation)
    simp only [foldl_cons]
    refine ⟨by omega, ?_⟩
    intro r hr
    rcases mem_cons.mp hr with rfl | hr
    · omega
    · exact h2 r hr

/-- A bump publishes a generation without rows, above every one there was. -/
structure BumpStep (db db' : Db) (id : Int) (fresh : Nat) : Prop where
  wf : Wf db'
  others : ∀ j, j ≠ id → KeepsList db db' j
  above : ∃ current, generation? db id = some current ∧ current < fresh
  generation : generation? db' id = some fresh
  empty : select db' id fresh = []

theorem bumpGeneration_spec (hdb : Wf db) {requireDetached : Bool} {fresh : Nat}
    (h : bumpGeneration db id requireDetached = some (db', fresh)) : BumpStep db db' id fresh := by
  unfold bumpGeneration at h
  split at h
  · simp at h
  rename_i l hl
  split at h
  · simp at h
  simp only [Option.some.injEq, Prod.mk.injEq] at h
  obtain ⟨rfl, hfresh⟩ := h
  have hmax := le_foldl_max (db.rows.filter (fun r => decide (r.listId = id))) l.entriesGeneration
  have hgen : generation? db id = some l.entriesGeneration := by simp [generation?, hl]
  rw [hfresh]
  refine ⟨setGeneration_wf hdb id _, ?_, ⟨_, hgen, by omega⟩, ?_, ?_⟩
  · intro j hj
    refine ⟨?_, fun _ _ => rfl⟩
    rw [generation?_setGeneration, if_neg hj]
  · rw [generation?_setGeneration, if_pos rfl, hgen]
    rfl
  rw [eq_nil_iff_forall_not_mem]
  intro r hr
  rw [mem_select] at hr
  have := hmax.2 r (mem_filter.mpr ⟨hr.1, by simp [hr.2.1]⟩)
  omega

/-! ## Headers that come and go -/

theorem select_of_no_header (hdb : Wf db) (h : generation? db id = none) (g : Nat) :
    select db id g = [] := by
  rw [eq_nil_iff_forall_not_mem]
  intro r hr
  rw [mem_select] at hr
  have := hdb.parent r hr.1
  rw [hr.2.1, h] at this
  simp at this

structure HeaderStep (db db' : Db) (id : Int) : Prop where
  wf : Wf db'
  others : ∀ j, j ≠ id → KeepsList db db' j
  number : id = db.ipListLastId + 1
  new : generation? db id = none
  generation : generation? db' id = some 0
  empty : ∀ g, select db' id g = []

theorem insertHeader_spec (hdb : Wf db) {role : Role} {relatedTestId id : Int}
    (h : insertHeader db role relatedTestId = some (db', id)) : HeaderStep db db' id := by
  simp only [insertHeader] at h
  split at h
  · simp at h
  split at h
  · simp at h
  rename_i hnew
  obtain ⟨rfl, rfl⟩ := h
  have hnone : header? db (db.ipListLastId + 1) = none := by simpa using hnew
  have hgen : generation? db (db.ipListLastId + 1) = none := by simp [generation?, hnone]
  have hother : ∀ j, j ≠ db.ipListLastId + 1 → generation? { db with
      ipLists := db.ipLists ++ [{ id := db.ipListLastId + 1, role := role, relatedTestId := relatedTestId }]
      ipListLastId := db.ipListLastId + 1 } j = generation? db j := by
    intro j hj
    unfold generation? header?
    simp [Ne.symm hj]
  refine ⟨⟨?_, hdb.rows, ?_⟩, ?_, rfl, hgen, ?_, fun g => select_of_no_header hdb hgen g⟩
  · simp only [map_append, map_cons, map_nil]
    rw [nodup_append]
    refine ⟨hdb.ids, nodup_singleton _, ?_⟩
    intro a ha b hb heq
    obtain ⟨l, hl, rfl⟩ := mem_map.mp ha
    rw [mem_singleton] at hb
    unfold header? at hnone
    rw [find?_eq_none] at hnone
    apply hnone l hl
    simp [heq, hb]
  · intro r hr
    have hparent := hdb.parent r hr
    rw [hother]
    · exact hparent
    · intro hid
      rw [hid, hgen] at hparent
      simp at hparent
  · intro j hj
    exact ⟨hother j hj, fun _ _ => rfl⟩
  · unfold generation? header?
    unfold header? at hnone
    rw [find?_append, hnone]
    simp

structure DropStep (db db' : Db) (id : Int) : Prop where
  wf : Wf db'
  others : ∀ j, j ≠ id → KeepsList db db' j
  generation : generation? db' id = none

theorem deleteHeader_spec (hdb : Wf db) (id : Int) : DropStep db (deleteHeader db id) id := by
  have hother : ∀ j, j ≠ id → generation? (deleteHeader db id) j = generation? db j := by
    intro j hj
    unfold generation? header? deleteHeader
    rw [find?_filter]
    congr 2
    funext l
    by_cases hl : l.id = j
    · simp [hl, hj]
    · simp [hl]
  refine ⟨⟨?_, hdb.rows.filter _, ?_⟩, ?_, ?_⟩
  · exact hdb.ids.sublist (filter_sublist.map Header.id)
  · intro r hr
    rw [deleteHeader, mem_filter] at hr
    rw [hother r.listId (by simpa using hr.2)]
    exact hdb.parent r hr.1
  · intro j hj
    refine ⟨hother j hj, fun g _ => ?_⟩
    apply select_filter db _ _ j g rfl
    intro r hr _
    simpa [hr] using hj
  · unfold generation? header? deleteHeader
    rw [Option.map_eq_none_iff, find?_eq_none]
    simp

/-! ## Copies -/

def Row.copyTo (id : Int) (r : Row) : Row := { r with listId := id, generation := 1 }

/-- The rows of the source up to `after` are copied. -/
def Copied (db : Db) (id sourceId : Int) (sourceGeneration : Nat) (after : Option Nat) : Prop :=
  select db id 1 =
    ((select db sourceId sourceGeneration).filter (fun r => after.any (fun a => r.entryOrder ≤ a))).map (Row.copyTo id)

structure CopyStep (db db' : Db) (id sourceId : Int) (sourceGeneration : Nat) (bound : Option Nat) : Prop where
  wf : Wf db'
  others : ∀ j, j ≠ id → KeepsList db db' j
  live : generation? db id = some 0
  empty : select db' id 0 = select db id 0
  more : bound.isSome = true → generation? db' id = some 0 ∧ Copied db' id sourceId sourceGeneration bound
  last : bound = none → generation? db' id = some 1 ∧
    select db' id 1 = (select db sourceId sourceGeneration).map (Row.copyTo id)

/-- What is copied with a chunk goes on where the last one ended. -/
theorem copied_rows (l : List Row) (hl : l.Pairwise (fun a b => a.entryOrder ≤ b.entryOrder)) (after bound : Option Nat)
    (hbound : ∀ a b, after = some a → bound = some b → a < b) :
    l.filter (fun r => after.any (fun a => r.entryOrder ≤ a)) ++
        (l.filter (fun r => after.all (fun a => a < r.entryOrder))).filter (fun r =>
          bound.all (fun b => r.entryOrder ≤ b)) =
      l.filter (fun r => bound.all (fun b => r.entryOrder ≤ b)) := by
  have hnot : ∀ r : Row, after.all (fun a => decide (a < r.entryOrder)) =
      !after.any (fun a => decide (r.entryOrder ≤ a)) := by
    intro r
    cases after with
    | none => rfl
    | some a =>
      simp only [Option.all_some, Option.any_some]
      by_cases h : a < r.entryOrder
      · rw [decide_eq_true h, decide_eq_false (by omega)]
        rfl
      · rw [decide_eq_false h, decide_eq_true (by omega)]
        rfl
  have hsplit := filter_upTo_append Row.entryOrder l hl (fun r => after.any (fun a => r.entryOrder ≤ a))
    (fun r => bound.all (fun b => r.entryOrder ≤ b)) (by
      intro x y hxy hy
      cases after with
      | none => simp at hy
      | some a =>
        simp only [Option.any_some, decide_eq_true_eq] at hy ⊢
        omega)
  rw [filter_filter]
  have hright : l.filter (fun r => after.any (fun a => decide (r.entryOrder ≤ a)) ||
      bound.all (fun b => decide (r.entryOrder ≤ b))) =
        l.filter (fun r => bound.all (fun b => decide (r.entryOrder ≤ b))) := by
    apply filter_congr
    intro r _
    cases hb : bound with
    | none => simp
    | some b =>
      cases ha : after with
      | none => simp
      | some a =>
        have := hbound a b ha hb
        simp only [Option.any_some, Option.all_some]
        by_cases h : r.entryOrder ≤ a
        · rw [decide_eq_true h, decide_eq_true (by omega)]
          rfl
        · rw [decide_eq_false h]
          rfl
  rw [hright] at hsplit
  rw [← hsplit]
  congr 1
  apply filter_congr
  intro r _
  rw [hnot r]
  exact Bool.and_comm _ _

theorem copyChunk_spec (hdb : Wf db) {id sourceId : Int} {sourceGeneration : Nat} {after bound : Option Nat}
    (hne : sourceId ≠ id) (hc : Copied db id sourceId sourceGeneration after)
    (h : copyChunk db id sourceId sourceGeneration after = some (db', bound)) :
    CopyStep db db' id sourceId sourceGeneration bound := by
  unfold copyChunk at h
  split at h
  · rename_i hlive
    simp only at h
    generalize hrest : (select db sourceId sourceGeneration).filter
      (fun r => after.all (fun a => decide (a < r.entryOrder))) = rest at h
    generalize hb : rest[chunkRows - 1]?.map Row.entryOrder = b at h
    split at h
    · simp at h
    rename_i rows hins
    simp only [Option.some.injEq, Prod.mk.injEq] at h
    obtain ⟨hdb', rfl⟩ := h
    have hrows := insertRows_eq hins
    have hpair := insertRows_pairwise hins hdb.rows
    change rows = db.rows ++ (rest.filter (fun r => b.all (fun b => decide (r.entryOrder ≤ b)))).map (Row.copyTo id)
      at hrows
    have hsorted : (select db sourceId sourceGeneration).Pairwise (fun a b => a.entryOrder ≤ b.entryOrder) :=
      sortBy_pairwise Row.entryOrder _
    have hbound : ∀ x y, after = some x → b = some y → x < y := by
      intro x y hx hy
      rw [hy] at hb
      simp only [Option.map_eq_some_iff] at hb
      obtain ⟨r, hr, rfl⟩ := hb
      have := mem_of_getElem? hr
      rw [← hrest, mem_filter, hx] at this
      simpa using this.2
    -- the rows with the chunk, whatever the header says
    have hsel : select { db with rows := rows } id 1 = ((select db sourceId sourceGeneration).filter
        (fun r => b.all (fun b => decide (r.entryOrder ≤ b)))).map (Row.copyTo id) := by
      rw [select_append db _ _ id 1 hrows, hc, ← map_append, ← hrest,
        copied_rows _ hsorted after b hbound]
      · intro r hr
        obtain ⟨x, -, rfl⟩ := mem_map.mp hr
        exact ⟨rfl, rfl⟩
      · rw [pairwise_map, ← hrest]
        exact (hsorted.filter _).filter _
      · intro x hx y hy
        rw [hc] at hx
        obtain ⟨x, hx1, rfl⟩ := mem_map.mp hx
        obtain ⟨y, hy1, rfl⟩ := mem_map.mp hy
        have hx' := (mem_filter.mp hx1).2
        have hy' := mem_of_mem_filter hy1
        rw [← hrest, mem_filter] at hy'
        show x.entryOrder ≤ y.entryOrder
        cases after with
        | none => simp at hx'
        | some a =>
          have h1 : x.entryOrder ≤ a := by simpa using hx'
          have h2 : a < y.entryOrder := by simpa using hy'.2
          omega
    have hother : ∀ j g, ¬ (id = j ∧ 1 = g) → select { db with rows := rows } j g = select db j g := by
      intro j g hjg
      apply select_append_of_ne db _ _ j g hrows
      intro r hr hr'
      obtain ⟨x, -, rfl⟩ := mem_map.mp hr
      exact hjg hr'
    have hwf : Wf { db with rows := rows } := by
      refine ⟨hdb.ids, hpair, ?_⟩
      intro r hr
      rw [hrows] at hr
      rcases mem_append.mp hr with hr | hr
      · exact hdb.parent r hr
      obtain ⟨x, -, rfl⟩ := mem_map.mp hr
      show (generation? db id).isSome = true
      simp [hlive]
    have hgen : ∀ j, generation? { db with rows := rows } j = generation? db j := fun _ => rfl
    cases hbn : b with
    | none =>
      rw [hbn] at hdb' hsel
      simp only [Option.isNone_none, if_true] at hdb'
      subst hdb'
      refine ⟨setGeneration_wf hwf id 1, ?_, hlive, hother id 0 (by simp), by simp, ?_⟩
      · intro j hj
        refine ⟨?_, fun g _ => hother j g (fun h => hj h.1.symm)⟩
        rw [generation?_setGeneration, if_neg hj, hgen]
      intro _
      refine ⟨?_, ?_⟩
      · rw [generation?_setGeneration, if_pos rfl, hgen, hlive]
        rfl
      · show select { db with rows := rows } id 1 = _
        simpa using hsel
    | some y =>
      rw [hbn] at hdb' hsel
      simp only [Option.isNone_some, Bool.false_eq_true, if_false] at hdb'
      subst hdb'
      refine ⟨hwf, ?_, hlive, hother id 0 (by simp), ?_, by simp⟩
      · intro j hj
        exact ⟨rfl, fun g _ => hother j g (fun h => hj h.1.symm)⟩
      intro _
      refine ⟨hlive, ?_⟩
      unfold Copied
      rw [hother sourceId sourceGeneration (fun h => hne h.1.symm)]
      exact hsel
  · simp at h

/-! ## The start-up purge -/

theorem foldl_filter {α β : Type} (p : β → α → Bool) (l : List β) (rows : List α) :
    l.foldl (fun rows b => rows.filter (p b)) rows = rows.filter (fun r => l.all (fun b => p b r)) := by
  induction l generalizing rows with
  | nil => simp
  | cons b l ih =>
    rw [foldl_cons, ih, filter_filter]
    apply filter_congr
    simp [Bool.and_comm]

/-- The rows of another generation than the header's. -/
def isLeftover (l : Header) (r : Row) : Bool :=
  decide (r.listId = l.id) && decide (r.generation ≠ l.entriesGeneration)

theorem purgeLeftovers_rows (db : Db) :
    (purgeLeftovers db).rows = db.rows.filter (fun r =>
      (db.ipLists.filter (fun l => db.rows.any (isLeftover l))).all (fun l => !isLeftover l r)) := by
  have hone : ∀ (rows : List Row) (l : Header),
      (rows.filter (fun r => !(decide (r.listId = l.id) && decide (r.generation < l.entriesGeneration)))).filter
        (fun r => !(decide (r.listId = l.id) && decide (l.entriesGeneration < r.generation))) =
      rows.filter (fun r => !isLeftover l r) := by
    intro rows l
    rw [filter_filter]
    apply filter_congr
    intro r _
    unfold isLeftover
    by_cases hid : r.listId = l.id
    · by_cases hlt : r.generation < l.entriesGeneration
      · simp [hid, hlt, Nat.ne_of_lt hlt]
      by_cases hgt : l.entriesGeneration < r.generation
      · simp [hid, hgt, ne_of_gt hgt]
      · have heq : r.generation = l.entriesGeneration := by omega
        simp [heq]
    · simp [hid]
  have hstale : ∀ l : Header,
      (db.rows.any (fun r => decide (r.listId = l.id ∧ r.generation < l.entriesGeneration)) ||
        db.rows.any (fun r => decide (r.listId = l.id ∧ l.entriesGeneration < r.generation))) =
      db.rows.any (isLeftover l) := by
    intro l
    rw [Bool.eq_iff_iff, Bool.or_eq_true]
    simp only [any_eq_true, isLeftover, decide_eq_true_eq, Bool.and_eq_true]
    constructor
    · rintro (⟨r, hr, hid, hlt⟩ | ⟨r, hr, hid, hlt⟩)
      · exact ⟨r, hr, hid, by omega⟩
      · exact ⟨r, hr, hid, by omega⟩
    rintro ⟨r, hr, hid, hne⟩
    rcases lt_or_gt_of_ne hne with hlt | hgt
    · exact .inl ⟨r, hr, hid, hlt⟩
    · exact .inr ⟨r, hr, hid, hgt⟩
  unfold purgeLeftovers
  simp only [hone, hstale]
  exact foldl_filter (fun l r => !isLeftover l r) _ db.rows

theorem createTables_spec (hdb : Wf db) :
    (∀ j, KeepsList db (createTables db) j) ∧
      ∀ r ∈ (createTables db).rows, generation? (createTables db) r.listId = some r.generation := by
  have hgen : ∀ j, generation? (createTables db) j = generation? db j := fun _ => rfl
  have hrows := purgeLeftovers_rows db
  constructor
  · intro j
    refine ⟨hgen j, ?_⟩
    intro g hg
    apply select_filter db _ _ j g hrows
    intro r hj hr
    rw [all_eq_true]
    intro l hl
    have hmem := mem_of_mem_filter hl
    simp only [isLeftover, Bool.not_eq_true', Bool.and_eq_false_iff, decide_eq_false_iff_not]
    by_cases hid : r.listId = l.id
    · right
      have hh := header?_of_mem hdb hmem
      rw [← hid, hj] at hh
      have hlg : l.entriesGeneration = g := by simpa [generation?, hh] using hg
      omega
    · exact .inl hid
  · intro r hr
    change r ∈ (purgeLeftovers db).rows at hr
    rw [hrows, mem_filter, all_eq_true] at hr
    obtain ⟨hmem, hall⟩ := hr
    obtain ⟨g, hg⟩ := Option.isSome_iff_exists.mp (hdb.parent r hmem)
    rw [hgen, hg]
    obtain ⟨l, hl, rfl⟩ := Option.map_eq_some_iff.mp hg
    obtain ⟨hlmem, hlid⟩ := header?_eq_some hl
    by_contra hne
    have hleft : isLeftover l r = true := by
      simp only [isLeftover, Bool.and_eq_true, decide_eq_true_eq]
      refine ⟨hlid.symm, ?_⟩
      intro heq
      exact hne (by rw [heq])
    have hstale : l ∈ db.ipLists.filter (fun l => db.rows.any (isLeftover l)) := by
      rw [mem_filter]
      exact ⟨hlmem, any_eq_true.mpr ⟨r, hmem, hleft⟩⟩
    have := hall l hstale
    simp [hleft] at this

end Waterdisco.Lists
