import Waterdisco.Lists.Crash

/-!
# Reading a list while it is replaced

`GetEntries` reads a list page by page and checks the generation before every
page; when a writer has published in between it starts over once, under one hold
of the lock.  `ReplaceEntries` and `ClearEntries` calls on the list come one after
the other (`ListClaim`), their transactions between the pages of any number of
readers.

    a read that returns a list returns one published version of it; a version is
    what the list was at first, or what one call publishes      (getEntries_versions)
-/

namespace Waterdisco.Lists

open List Option

/-! ## Readers -/

/-- Where a `GetEntries` stands. -/
inductive ReadPc where
  | start (attempt : Nat)
  /-- In `ipListsRepoReadGeneration`; `after` is the last order read, `remaining` none for no limit. -/
  | reading (attempt generation : Nat) (after remaining : Option Nat) (out : List Entry)
  /-- `none` is the empty list after a failed statement or for a list that is not there. -/
  | returned (result : Option (List Entry))
deriving DecidableEq

/-- A `GetEntries(id, offset, limit)`; `failed` notes that one of its statements threw. -/
structure Reader where
  offset : Int
  limit : Int
  pc : ReadPc := .start 0
  failed : Bool := false
deriving DecidableEq

/-- The limit of a read; a negative one is none. -/
def Reader.bound (r : Reader) : Option Nat := if r.limit < 0 then none else some r.limit.toNat

/-- The entries from `offset` on, up to a number of them. -/
def slice (offset : Nat) (bound : Option Nat) (version : List Entry) : List Entry :=
  match bound with
  | none => version.drop offset
  | some limit => (version.drop offset).take limit

def Reader.slice (r : Reader) (version : List Entry) : List Entry := Lists.slice r.offset.toNat r.bound version

def pageSize (remaining : Option Nat) : Nat :=
  match remaining with
  | none => chunkRows
  | some remaining => min remaining chunkRows

def readPage (rows : List Row) (offset : Nat) (after : Option Nat) (page : Nat) : List Row :=
  match after with
  | none => (rows.drop offset).take page
  | some a => (rows.filter (fun r => a < r.entryOrder)).take page

def lastOrder (after : Option Nat) (rows : List Row) : Option Nat :=
  match rows.getLast? with
  | none => after
  | some r => some r.entryOrder

def nextAttempt (attempt : Nat) : ReadPc := if attempt + 1 < 2 then .start (attempt + 1) else .returned none

/-- One page, and the end of the loop with it. -/
def readChunk (db : Db) (id : Int) (r : Reader) (attempt generation : Nat) (after remaining : Option Nat)
    (out : List Entry) : ReadPc :=
  if generation? db id ≠ some generation then nextAttempt attempt
  else
    let page := pageSize remaining
    let rows := readPage (select db id generation) r.offset.toNat after page
    let left := remaining.map (fun n => n - rows.length)
    if rows.length < page ∨ left = some 0 then .returned (some (out ++ rows.map Row.entry))
    else .reading attempt generation (lastOrder after rows) left (out ++ rows.map Row.entry)

/-- One step of a reader: the read of the generation, or a page. -/
def readStep (db : Db) (id : Int) (r : Reader) (ok : Bool) : Reader :=
  match r.pc with
  | .start attempt =>
    if ok = false then { r with pc := .returned none, failed := true }
    else match generation? db id with
    | none => { r with pc := .returned none }
    | some generation =>
      if r.bound = some 0 then { r with pc := .returned (some []) }
      else { r with pc := .reading attempt generation none r.bound [] }
  | .reading attempt generation after remaining out =>
    if ok = false then { r with pc := .returned none, failed := true }
    else { r with pc := readChunk db id r attempt generation after remaining out }
  | .returned _ => r

/-- The reader is in its second attempt, which keeps `WriteMutex` from its first statement on. -/
def Reader.locks (r : Reader) : Bool :=
  match r.pc with
  | .reading attempt _ _ _ _ => decide (attempt = 1)
  | _ => false

/-! ## Writers and readers together -/

inductive Write where
  | replace (entries : List Entry)
  | clear
deriving DecidableEq

def Write.op (id : Int) : Write → Op
  | .replace entries => .ReplaceEntries id entries
  | .clear => .ClearEntries id

/-- What a call publishes. -/
def Write.version : Write → List Entry
  | .replace entries => unique entries
  | .clear => []

structure World where
  db : Db
  /-- Calls in front of their `ListClaim`. -/
  waiting : List Write := []
  /-- The call that holds the claim, and what it publishes. -/
  running : Option (Call × List Entry) := none
  readers : List Reader := []
  /-- The reader that keeps `WriteMutex` between its pages. -/
  hold : Option Nat := none
  /-- The versions readers could see, the live one first. -/
  published : List (List Entry)

inductive Event where
  | write (w : Write)
  | read (offset limit : Int)
  /-- A waiting call gets the claim. -/
  | claim (k : Nat)
  /-- The call that holds the claim makes its next step. -/
  | proceed (ok : Bool)
  /-- A reader makes its next step. -/
  | page (k : Nat) (ok : Bool)

def Pc.isDone : Pc → Bool
  | .done _ => true
  | _ => false

def proceed (id : Int) (w : World) (ok : Bool) : World :=
  match w.running, w.hold with
  | some (c, version), none =>
    let next := step w.db c ok
    { w with
      db := next.1
      -- the claim goes with the call
      running := if next.2.pc.isDone then none else some (next.2, version)
      published := if generation? next.1 id = generation? w.db id then w.published else version :: w.published }
  | _, _ => w

def page (id : Int) (w : World) (k : Nat) (ok : Bool) : World :=
  match w.readers[k]? with
  | none => w
  | some r =>
    if w.hold.any (fun j => j ≠ k) then w
    else
      let next := readStep w.db id r ok
      { w with readers := w.readers.set k next, hold := if next.locks then some k else none }

def event (id : Int) (w : World) : Event → World
  | .write x => { w with waiting := w.waiting ++ [x] }
  | .read offset limit => { w with readers := w.readers ++ [{ offset := offset, limit := limit }] }
  | .claim k =>
    match w.waiting[k]?, w.running with
    | some x, none => { w with waiting := w.waiting.eraseIdx k, running := some ((x.op id).call, x.version) }
    | _, _ => w
  | .proceed ok => proceed id w ok
  | .page k ok => page id w k ok

def runEvents (id : Int) (db : Db) (events : List Event) : World :=
  events.foldl (event id) { db := db, published := [liveEntries db id] }

/-! ## Pages -/

/-- The rows read so far are the first `n` of those asked for. -/
structure PageOk (rows : List Row) (offset : Nat) (bound after remaining : Option Nat) (out : List Entry) (n : Nat) :
    Prop where
  le : n ≤ (rows.drop offset).length
  read : out = ((rows.drop offset).take n).map Row.entry
  first : after = none → n = 0
  last : ∀ a, after = some a → 0 < n ∧ ∃ x, rows[offset + n - 1]? = some x ∧ x.entryOrder = a
  left : remaining = bound.map (fun limit => limit - n)
  more : remaining ≠ some 0

theorem pageOk_start (rows : List Row) (offset : Nat) (bound : Option Nat) (h : bound ≠ some 0) :
    PageOk rows offset bound none bound [] 0 :=
  ⟨Nat.zero_le _, by simp, fun _ => rfl, by simp, by simp, h⟩

/-- The next page goes on where the last one ended. -/
theorem PageOk.readPage_eq {rows : List Row} {offset : Nat} {bound after remaining : Option Nat}
    {out : List Entry} {n : Nat}
    (hrows : rows.Pairwise (fun a b => a.entryOrder < b.entryOrder)) (h : PageOk rows offset bound after remaining out n)
    (page : Nat) :
    readPage rows offset after page = ((rows.drop offset).drop n).take page := by
  unfold readPage
  cases hafter : after with
  | none => rw [h.first hafter, drop_zero]
  | some a =>
    obtain ⟨hpos, x, hx, rfl⟩ := h.last a hafter
    show (rows.filter (fun y => x.entryOrder < y.entryOrder)).take page = _
    rw [filter_after Row.entryOrder rows hrows _ x hx, drop_drop]
    have heq : offset + n - 1 + 1 = offset + n := by omega
    rw [heq]

theorem pageSize_pos {remaining : Option Nat} (h : remaining ≠ some 0) : 0 < pageSize remaining := by
  have hchunk : 0 < chunkRows := by decide
  cases remaining with
  | none => exact hchunk
  | some m =>
    have : m ≠ 0 := fun hm => h (by rw [hm])
    show 0 < min m chunkRows
    omega

theorem pageSize_le {m : Nat} : pageSize (some m) ≤ m := Nat.min_le_left _ _

/-- What a page makes of the read: it is over with the slice asked for, or goes on. -/
theorem PageOk.page {rows : List Row} {offset : Nat} {bound after remaining : Option Nat}
    {out : List Entry} {n : Nat}
    (hrows : rows.Pairwise (fun a b => a.entryOrder < b.entryOrder))
    (h : PageOk rows offset bound after remaining out n) :
    let got := readPage rows offset after (pageSize remaining)
    let left := remaining.map (fun n => n - got.length)
    if got.length < pageSize remaining ∨ left = some 0 then
      out ++ got.map Row.entry = slice offset bound (rows.map Row.entry)
    else PageOk rows offset bound (lastOrder after got) left (out ++ got.map Row.entry) (n + got.length) := by
  intro got left
  have hgot : got = ((rows.drop offset).drop n).take (pageSize remaining) := h.readPage_eq hrows _
  have hpos := pageSize_pos h.more
  have hlen : got.length = min (pageSize remaining) ((rows.drop offset).length - n) := by
    rw [hgot, length_take, length_drop]
  have hout : out ++ got.map Row.entry = ((rows.drop offset).take (n + got.length)).map Row.entry := by
    have hself : got = ((rows.drop offset).drop n).take got.length := by
      rw [hgot, length_take]
      exact take_eq_take_min
    rw [h.read, ← map_append]
    conv_lhs => rw [hself]
    rw [← take_add]
  have hrem := h.left
  by_cases hend : got.length < pageSize remaining ∨ left = some 0
  · rw [if_pos hend, hout]
    unfold slice
    cases hb : bound with
    | none =>
      -- no limit: the page was short, and there is nothing after it
      rw [hb] at hrem
      have hshort : got.length < pageSize remaining := by
        rcases hend with hs | hl
        · exact hs
        · simp [left, hrem] at hl
      rw [take_of_length_le (by omega), map_drop]
    | some limit =>
      rw [hb] at hrem
      simp only [map_some] at hrem
      simp only
      rw [← map_drop, ← map_take]
      have hps : pageSize remaining ≤ limit - n := by
        rw [hrem]
        exact pageSize_le
      rcases hend with hs | hl
      · rw [take_of_length_le (by omega), take_of_length_le (by omega)]
      simp only [left, hrem, map_some, some.injEq] at hl
      have hne : limit - n ≠ 0 := by
        intro h0
        apply h.more
        rw [hrem, h0]
      have heq : n + got.length = limit := by omega
      rw [heq]
  · rw [if_neg hend]
    have hfull : got.length = pageSize remaining := by
      omega
    have hne : got ≠ [] := by
      intro h0
      rw [h0] at hfull
      simp only [length_nil] at hfull
      omega
    obtain ⟨x, hx⟩ : ∃ x, got.getLast? = some x := by
      cases hl : got.getLast? with
      | none => exact absurd (getLast?_eq_none_iff.mp hl) hne
      | some x => exact ⟨x, rfl⟩
    refine ⟨by omega, hout, ?_, ?_, ?_, fun hl => hend (.inr hl)⟩
    · intro hnone
      simp [lastOrder, hx] at hnone
    · intro a ha
      simp only [lastOrder, hx, some.injEq] at ha
      refine ⟨by omega, x, ?_, ha⟩
      rw [getLast?_eq_getElem?, hgot, getElem?_take_of_lt (by rw [← hgot]; omega), getElem?_drop,
        getElem?_drop] at hx
      rw [← hx]
      congr 1
      rw [← hgot]
      omega
    · show remaining.map (fun m => m - got.length) = bound.map (fun limit => limit - (n + got.length))
      rw [hrem, Option.map_map]
      congr 1
      funext limit
      simp only [Function.comp]
      omega

/-! ## The invariant -/

/-- Where reader `k` can stand: a read of the live generation has read a part of it,
and in the second attempt the generation it reads stays the live one. -/
def ReaderOk (id : Int) (db0 : Db) (w : World) (k : Nat) (r : Reader) : Prop :=
  match r.pc with
  | .start attempt => attempt < 2
  | .reading attempt generation after remaining out =>
    attempt < 2 ∧ (attempt = 1 → w.hold = some k ∧ generation? w.db id = some generation) ∧
      (∀ g, generation? w.db id = some g → generation ≤ g) ∧
      (generation? w.db id = some generation →
        ∃ n, PageOk (select w.db id generation) r.offset.toNat r.bound after remaining out n)
  | .returned (some l) => ∃ version ∈ w.published, l = r.slice version
  | .returned none => r.failed = true ∨ generation? db0 id = none

/-- What every event keeps; `P` holds of the versions. -/
structure Inv (P : List Entry → Prop) (id : Int) (db0 : Db) (w : World) : Prop where
  wf : Wf w.db
  header : (generation? w.db id).isSome = (generation? db0 id).isSome
  live : ∃ older, w.published = liveEntries w.db id :: older
  versions : ∀ version ∈ w.published, P version
  waiting : ∀ x ∈ w.waiting, P x.version
  running : ∀ c version, w.running = some (c, version) → P version ∧
    ∃ plan : Plan, plan.target = id ∧ plan.fixed = true ∧ plan.after = version ∧ Ready plan w.db c
  readers : ∀ k r, w.readers[k]? = some r → ReaderOk id db0 w k r

variable {P : List Entry → Prop} {id : Int} {db0 : Db} {w : World}

theorem inv_start (hdb : Wf db0) (hP : P (liveEntries db0 id)) :
    Inv P id db0 { db := db0, published := [liveEntries db0 id] } :=
  { wf := hdb
    header := rfl
    live := ⟨[], rfl⟩
    versions := by simpa using hP
    waiting := by simp
    running := by simp
    readers := by simp }

theorem ReaderOk.congr {w' : World} {k : Nat} {r : Reader} (h : ReaderOk id db0 w k r) (hdb : w'.db = w.db)
    (hhold : w'.hold = w.hold) (hpub : w'.published = w.published) : ReaderOk id db0 w' k r := by
  unfold ReaderOk at *
  rw [hdb, hhold, hpub]
  exact h

theorem inv_claim (h : Inv P id db0 w) (x : Write) (k : Nat) (hk : w.waiting[k]? = some x) :
    Inv P id db0 { w with waiting := w.waiting.eraseIdx k, running := some ((x.op id).call, x.version) } := by
  refine { h with waiting := ?_, running := ?_, readers := ?_ }
  · intro y hy
    exact h.waiting y (mem_of_mem_eraseIdx hy)
  · intro c version hc
    obtain ⟨rfl, rfl⟩ := hc
    refine ⟨h.waiting x (mem_of_getElem? hk), (x.op id).plan w.db, ?_, ?_, ?_, ready_call w.db (x.op id)⟩
    · cases x <;> rfl
    · cases x <;> rfl
    · cases x <;> rfl
  · intro j r hj
    exact (h.readers j r hj).congr rfl rfl rfl

theorem readerOk_written {w' : World} {k : Nat} {r : Reader} (h : ReaderOk id db0 w k r) (hhold : w.hold = none)
    (hmem : ∀ version ∈ w.published, version ∈ w'.published)
    (hdb : KeepsList w.db w'.db id ∨ ∃ g g', generation? w.db id = some g ∧ generation? w'.db id = some g' ∧ g < g') :
    ReaderOk id db0 w' k r := by
  unfold ReaderOk at *
  cases hpc : r.pc with
  | start attempt => simpa [hpc] using h
  | returned result =>
    simp only [hpc] at h ⊢
    cases result with
    | none => exact h
    | some l =>
      obtain ⟨version, hv, hl⟩ := h
      exact ⟨version, hmem version hv, hl⟩
  | reading attempt generation after remaining out =>
    simp only [hpc] at h ⊢
    obtain ⟨hatt, hsecond, hle, hpage⟩ := h
    refine ⟨hatt, ?_, ?_, ?_⟩
    · intro h1
      have := (hsecond h1).1
      rw [hhold] at this
      simp at this
    · intro g hg
      rcases hdb with hk | ⟨g1, g2, hg1, hg2, hlt⟩
      · exact hle g (by rw [← hk.generation]; exact hg)
      have := hle g1 hg1
      rw [hg2] at hg
      simp only [some.injEq] at hg
      omega
    · intro hg
      rcases hdb with hk | ⟨g1, g2, hg1, hg2, hlt⟩
      · rw [hk.generation] at hg
        rw [hk.select generation hg]
        exact hpage hg
      -- a generation that was replaced does not come back
      have := hle g1 hg1
      rw [hg2] at hg
      simp only [some.injEq] at hg
      omega

theorem inv_proceed (h : Inv P id db0 w) (ok : Bool) : Inv P id db0 (proceed id w ok) := by
  unfold proceed
  split
  · rename_i c version hrun hhold
    obtain ⟨hP, plan, rfl, hfixed, hafter, hready⟩ := h.running c version hrun
    have hm := step_moved h.wf c ok hready
    obtain ⟨older, hlive⟩ := h.live
    generalize step w.db c ok = next at hm ⊢
    obtain ⟨db', c'⟩ := next
    simp only at hm ⊢
    have hrunning : ∀ d version', (if c'.pc.isDone = true then none else some (c', version)) = some (d, version') →
        P version' ∧ ∃ plan' : Plan, plan'.target = plan.target ∧ plan'.fixed = true ∧ plan'.after = version' ∧
          Ready plan' db' d := by
      intro d version' hd
      split at hd
      · simp at hd
      obtain ⟨rfl, rfl⟩ := hd
      exact ⟨hP, plan, rfl, hfixed, hafter, hm.ready⟩
    rcases hm.live with hk | hp | ⟨hf, -⟩
    · rw [if_pos hk.generation]
      refine ⟨hm.wf, ?_, ⟨older, ?_⟩, h.versions, h.waiting, hrunning, ?_⟩
      · rw [hk.generation]
        exact h.header
      · rw [hk.liveEntries]
        exact hlive
      · intro j r hj
        exact readerOk_written (h.readers j r hj) hhold (fun _ hv => hv) (.inl hk)
    · obtain ⟨g, g', hg, hg', hlt⟩ := hp.above
      have hne : generation? db' plan.target ≠ generation? w.db plan.target := by
        rw [hg, hg']
        intro heq
        simp only [some.injEq] at heq
        omega
      rw [if_neg hne]
      refine ⟨hm.wf, ?_, ⟨w.published, ?_⟩, ?_, h.waiting, hrunning, ?_⟩
      · rw [hm.header hfixed]
        exact h.header
      · rw [hp.live, hafter]
      · intro v hv
        rcases mem_cons.mp hv with rfl | hv
        · exact hP
        · exact h.versions v hv
      · intro j r hj
        exact readerOk_written (h.readers j r hj) hhold (fun _ hv => mem_cons_of_mem _ hv)
          (.inr ⟨g, g', hg, hg', hlt⟩)
    · rw [hfixed] at hf
      simp at hf
  · exact h

theorem readStep_ok (h : Inv P id db0 w) (k : Nat) (r : Reader) (hr : w.readers[k]? = some r) (ok : Bool)
    (w' : World) (hdb : w'.db = w.db) (hpub : w'.published = w.published)
    (hhold : (readStep w.db id r ok).locks = true → w'.hold = some k) :
    ReaderOk id db0 w' k (readStep w.db id r ok) := by
  have hok := h.readers k r hr
  obtain ⟨older, hlive⟩ := h.live
  have hheader := h.header
  unfold ReaderOk at hok
  unfold readStep at hhold ⊢
  cases hpc : r.pc with
  | start attempt =>
    simp only [hpc] at hok hhold ⊢
    cases ok with
    | false => exact .inl rfl
    | true =>
      cases hg : generation? w.db id with
      | none =>
        rw [hg] at hheader
        exact .inr (by simpa using hheader.symm)
      | some generation =>
        simp only [hg] at hhold ⊢
        by_cases hb : r.bound = some 0
        · rw [if_pos hb]
          refine ⟨liveEntries w.db id, by rw [hpub, hlive]; simp, ?_⟩
          show [] = r.slice (liveEntries w.db id)
          simp [Reader.slice, slice, hb]
        rw [if_neg hb] at hhold ⊢
        refine ⟨hok, ?_, ?_, ?_⟩
        · intro h1
          rw [hdb]
          exact ⟨hhold (by simp [Reader.locks, h1]), hg⟩
        · intro g hg'
          rw [hdb, hg] at hg'
          simp only [some.injEq] at hg'
          omega
        · intro _
          exact ⟨0, pageOk_start _ _ _ hb⟩
  | returned result =>
    simp only [hpc] at hok ⊢
    unfold ReaderOk
    simp only [hpc, hpub]
    cases result with
    | none => exact hok
    | some l => exact hok
  | reading attempt generation after remaining out =>
    simp only [hpc] at hok hhold ⊢
    obtain ⟨hatt, hsecond, hle, hpage⟩ := hok
    cases ok with
    | false => exact .inl rfl
    | true =>
      simp only [Bool.true_eq_false, if_false] at hhold ⊢
      unfold readChunk at hhold ⊢
      by_cases hg : generation? w.db id = some generation
      · rw [if_neg (by simp [hg])] at hhold ⊢
        simp only at hhold ⊢
        obtain ⟨n, hn⟩ := hpage hg
        have hstrict := select_strict h.wf id generation
        have hstep := hn.page hstrict
        split at hhold
        · rename_i hend
          rw [if_pos hend] at hstep ⊢
          refine ⟨liveEntries w.db id, by rw [hpub, hlive]; simp, ?_⟩
          rw [hstep, liveEntries_of_generation hg]
          rfl
        rename_i hend
        rw [if_neg hend] at hstep ⊢
        refine ⟨hatt, ?_, ?_, ?_⟩
        · intro h1
          rw [hdb]
          exact ⟨hhold (by simp [Reader.locks, h1]), hg⟩
        · rw [hdb]
          exact hle
        · intro _
          rw [hdb]
          exact ⟨_, hstep⟩
      · -- a writer has published since: only the first attempt can see that
        rw [if_pos hg]
        have h0 : attempt = 0 := by
          have : attempt ≠ 1 := fun h1 => hg (hsecond h1).2
          omega
        subst h0
        show (1 : Nat) < 2
        omega

theorem inv_page (h : Inv P id db0 w) (k : Nat) (ok : Bool) : Inv P id db0 (page id w k ok) := by
  unfold page
  split
  · exact h
  rename_i r hr
  split
  · exact h
  rename_i hfree
  have hmine : ∀ j, w.hold = some j → j = k := by
    intro j hj
    rw [hj] at hfree
    simpa using hfree
  refine ⟨h.wf, h.header, h.live, h.versions, h.waiting, h.running, ?_⟩
  intro j x hx
  by_cases hjk : j = k
  · subst hjk
    have hlt : j < w.readers.length := (List.getElem?_eq_some_iff.mp hr).1
    have hx' : x = readStep w.db id r ok := by
      simp only [getElem?_set_self hlt, some.injEq] at hx
      exact hx.symm
    rw [hx']
    refine readStep_ok h j r hr ok _ rfl rfl ?_
    intro hl
    simp [hl]
  have hx' : w.readers[j]? = some x := by
    rwa [getElem?_set_ne (Ne.symm hjk)] at hx
  have hok := h.readers j x hx'
  unfold ReaderOk at *
  cases hpc : x.pc with
  | start attempt => simpa [hpc] using hok
  | returned result =>
    simp only [hpc] at hok ⊢
    cases result with
    | none => exact hok
    | some l => exact hok
  | reading attempt generation after remaining out =>
    simp only [hpc] at hok ⊢
    obtain ⟨hatt, hsecond, hle, hpage⟩ := hok
    refine ⟨hatt, ?_, hle, hpage⟩
    intro h1
    exact absurd (hmine j (hsecond h1).1) hjk

/-- The events whose calls publish what `P` allows. -/
def Allowed (P : List Entry → Prop) : Event → Prop
  | .write x => P x.version
  | _ => True

theorem inv_event (w : World) (e : Event) (hP : Allowed P e) (h : Inv P id db0 w) : Inv P id db0 (event id w e) := by
  cases e with
  | write x =>
    refine { h with waiting := ?_, readers := fun j r hj => (h.readers j r hj).congr rfl rfl rfl }
    intro y hy
    rcases mem_append.mp hy with hy | hy
    · exact h.waiting y hy
    · rw [mem_singleton.mp hy]
      exact hP
  | read offset limit =>
    refine { h with readers := ?_ }
    intro j r hj
    rcases Nat.lt_or_ge j w.readers.length with hlt | hge
    · change (w.readers ++ [_])[j]? = some r at hj
      rw [getElem?_append_left hlt] at hj
      exact (h.readers j r hj).congr rfl rfl rfl
    change (w.readers ++ [_])[j]? = some r at hj
    rw [getElem?_append_right hge, getElem?_singleton] at hj
    split at hj
    · simp only [some.injEq] at hj
      subst hj
      show (0 : Nat) < 2
      omega
    · simp at hj
  | claim k =>
    simp only [event]
    split
    · rename_i x hx hrun
      exact inv_claim h x k hx
    · exact h
  | proceed ok => exact inv_proceed h ok
  | page k ok => exact inv_page h k ok

/-! ## Every run -/

/-- A version of the list in a run: what it was at first, or what a call of the run publishes. -/
def IsVersion (id : Int) (db : Db) (events : List Event) (version : List Entry) : Prop :=
  version = liveEntries db id ∨ ∃ x, Event.write x ∈ events ∧ version = x.version

/-- What the reads of a run return. -/
structure ReadsVersions (id : Int) (db : Db) (events : List Event) : Prop where
  /-- The published versions are whole. -/
  published : ∀ version ∈ (runEvents id db events).published, IsVersion id db events version
  /-- A read that returns a list returns what it asked for of one published version. -/
  slices : ∀ r ∈ (runEvents id db events).readers, ∀ l, r.pc = .returned (some l) →
    ∃ version ∈ (runEvents id db events).published, l = r.slice version
  /-- A read of the whole list returns one. -/
  whole : ∀ r ∈ (runEvents id db events).readers, r.offset = 0 → r.limit = -1 → ∀ l, r.pc = .returned (some l) →
    l ∈ (runEvents id db events).published
  /-- A read of a list that is there returns one unless a statement of it fails. -/
  answered : ∀ r ∈ (runEvents id db events).readers, r.pc = .returned none →
    r.failed = true ∨ generation? db id = none

/-- **Every read that returns a list returns exactly one published version of it.** -/
theorem getEntries_versions (id : Int) (db : Db) (hdb : Wf db) (events : List Event) : ReadsVersions id db events := by
  have hallowed : ∀ e ∈ events, Allowed (IsVersion id db events) e := by
    intro e he
    cases e with
    | write x => exact .inr ⟨x, he, rfl⟩
    | _ => trivial
  have hinv : Inv (IsVersion id db events) id db (runEvents id db events) :=
    AllMeet.keeps (P := Inv (IsVersion id db events) id db) (fun w e hP h => inv_event w e hP h)
      (allMeet_of_forall hallowed _) (inv_start hdb (.inl rfl))
  have hslices : ∀ r ∈ (runEvents id db events).readers, ∀ l, r.pc = .returned (some l) →
      ∃ version ∈ (runEvents id db events).published, l = r.slice version := by
    intro r hr l hl
    obtain ⟨k, hk⟩ := getElem?_of_mem hr
    have hok := hinv.readers k r hk
    simp only [ReaderOk, hl] at hok
    exact hok
  refine ⟨hinv.versions, hslices, ?_, ?_⟩
  · intro r hr hoff hlim l hl
    obtain ⟨version, hv, rfl⟩ := hslices r hr l hl
    have hslice : r.slice version = version := by
      simp [Reader.slice, slice, Reader.bound, hoff, hlim]
    rw [hslice]
    exact hv
  · intro r hr hl
    obtain ⟨k, hk⟩ := getElem?_of_mem hr
    have hok := hinv.readers k r hk
    simp only [ReaderOk, hl] at hok
    exact hok

/-- A replacement published between the read of the generation and the first page
sends the reader to its second attempt. -/
theorem oneList_replaced_read : Wf oneList ∧ ReadsVersions 1 oneList
    [.write (.replace [{ cidr := "8.8.8.8" }]), .read 0 (-1), .claim 0, .proceed true, .page 0 true, .proceed true,
      .proceed true, .proceed true, .proceed true, .page 0 true, .page 0 true, .page 0 true] :=
  ⟨oneList_wf, getEntries_versions 1 oneList oneList_wf _⟩

end Waterdisco.Lists
