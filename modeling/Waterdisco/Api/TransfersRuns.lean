import Waterdisco.Api.TransfersSound
import Waterdisco.Lib.Runs

/-!
# The transfers over whole runs

For every run of requests, reports, deadlines and sweeps, in any order:

    every request is answered once, or waits with an armed timer      (Settled)
    the file of an upload holds its accepted chunks                   (Upload)
    Apply sees only what arrived whole, was inspected and checked     (Justified)
    the sweep spares what a worker is busy with                       (sweep_spares)

A file outlives its transfer for good where a drop meets a content check that has the
file open: its report removes nothing.  In the runs without such a drop no file is left
(`transfers_contract`); with one there is (`check_leaves_file`).
-/

namespace Waterdisco.Transfers

open List Function Nat Option Shelf Router And Worker

/-! ## Handlers -/

/-- Where `c` holds, no file is left behind. -/
structure Kept (env : Env) (c : Prop) (s : Shelf) : Prop where
  sound : Sound env s
  tidy : c → Tidy s

structure Handled (env : Env) (c : Prop) (s : Router) : Prop where
  shelf : Kept env c s.shelf
  desk : ∀ r, s.desk.At r

variable {env : Env} {c : Prop} {m : Moment} {s : Router} {request id : Nat}

variable {desk : Desk} {shelf : Shelf} {t : Transfer} {k : Kind} {chunk : Bytes} {f : Transfer → Transfer} {w : Worker}
  {a : Applying}

theorem Handled.of_respond (h : Kept env c shelf) (hd : desk.Open request) (x : Response) :
    Handled env c (respond ⟨desk, shelf⟩ request x) := ⟨h, hd.respond⟩

theorem Handled.fail (h : Handled env c ⟨desk, shelf⟩) (waiter : Option Nat) (x : Response) :
    Handled env c (fail ⟨desk, shelf⟩ waiter x) := ⟨h.shelf, fun r => (h.desk r).fail waiter⟩

theorem Handled.answerWaiter (h : Handled env c ⟨desk, shelf⟩) (waiter : Option Nat) (x : Response) :
    Handled env c (answerWaiter ⟨desk, shelf⟩ waiter x) := by
  cases waiter with
  | none => exact h
  | some w => exact ⟨h.shelf, fun r => (h.desk r).answer⟩

theorem answerWaiter_shelf (waiter : Option Nat) (x : Response) : (s.answerWaiter waiter x).shelf = s.shelf := by
  cases waiter <;> rfl

theorem Desk.Open.answerWaiter (hd : s.desk.Open request) (waiter : Option Nat) (x : Response) :
    (s.answerWaiter waiter x).desk.Open request := by
  cases waiter with
  | none => exact hd
  | some w => exact hd.answer w

theorem Upload.congr {files : Path → Option Bytes} {log : List Did} {u : Transfer}
    (h : Upload env files log t) (hid : u.id = t.id)
    (hpath : u.path = t.path) (hsize : u.size = t.size) (hreceived : u.received = t.received)
    (hsha : u.sha256 = t.sha256)
    (hfed : u.Receiving → t.Receiving ∧ u.hash = t.hash) (hfull : ¬ u.Receiving → ¬ t.Receiving)
    (hwhole : u.complete = true → t.complete = true ∨ .inspected t.id (chunksOf t.id log) ∈ log) :
    Upload env files log u := by
  constructor
  · rw [hid, hpath]; exact h.file
  · rw [hid, hreceived]; exact h.received
  · rw [hsize, hreceived]; exact h.bound
  · rw [hid, hsize, hsha]; exact h.announced
  · intro hu
    rw [hid, (hfed hu).2]
    exact h.fed (hfed hu).1
  · intro hu
    rw [hid, hsize, hreceived, hsha]
    exact h.full (hfull hu)
  · intro hu
    rw [hid]
    exact (hwhole hu).elim h.whole fun hin => hin

theorem Kept.touch {s : Shelf} (h : Kept env c s) (k : Kind) (id : Nat) (now : Int) : Kept env c (s.touch k id now) := by
  refine ⟨h.sound.modify (fun _ => rfl) (fun _ => rfl) (fun _ hc => hc) (fun _ _ _ _ hw => hw) ?_,
    fun hc => (h.tidy hc).modify fun _ => rfl⟩
  exact fun _ t ht _ => (h.sound.uploads t ht).congr rfl rfl rfl rfl rfl (fun hu => ⟨hu, rfl⟩) (fun hu => hu) .inl

theorem mem_touch {s : Shelf} (h : s.find k id = some t) (now : Int) :
    { t with touchedAt := now } ∈ (s.touch k id now).transfers k := by
  obtain ⟨ht, hid⟩ := find_some h
  rw [touch, modify_transfers]
  refine mem_map.mpr ⟨t, ht, ?_⟩
  rw [edited, if_pos ⟨rfl, hid⟩]

theorem Sound.unused {s : Shelf} (h : Sound env s) (label : String) :
    (∀ k, ∀ u ∈ s.transfers k, u.id ≠ s.lastTransferId + 1 ∧ u.path ≠ s.TempPath label) ∧
      (∀ w ∈ s.workers, s.lastTransferId + 1 ≠ w.id ∧ s.TempPath label ≠ w.path) ∧
      (∀ a ∈ s.stops, s.lastTransferId + 1 ≠ a.id) ∧ .deleted (s.lastTransferId + 1) ∉ s.log := by
  have hpath : ∀ p : Path, p.uuid < s.drawn → p ≠ s.TempPath label := by
    intro p hp heq
    rw [heq] at hp
    exact lt_irrefl _ hp
  refine ⟨fun k u hu => ⟨?_, hpath _ (h.ids k u hu).2⟩,
    fun w hw => ⟨?_, (hpath _ (h.workerIds w hw).2).symm⟩, fun a ha => ?_, fun hin => ?_⟩
  · have := (h.ids k u hu).1
    omega
  · have := (h.workerIds w hw).1
    omega
  · have := (h.stops a ha).1
    omega
  · have := (h.gone _ hin).1
    omega

theorem postBackup_handled (h : Kept env c s.shelf) (hd : s.desk.Open request) (body : Body BackupBody) :
    Handled env c (s.postBackup m request body) := by
  unfold postBackup
  split
  · exact .of_respond h hd _
  split
  · exact .of_respond h hd _
  split
  · exact .of_respond h hd _
  rename_i body _ chosen _ _
  obtain ⟨hlists, hworkers, hstops, hgone⟩ := h.sound.unused "api-backup"
  have hkept := @Sound.keep _ _ h.sound.nextTransfer.drawPath .backups
    { id := s.shelf.lastTransferId + 1, path := s.shelf.TempPath "api-backup", working := true,
      waiter := body.options.waiter request }
    m.now rfl (lt_succ_self _) hlists hworkers hstops hgone (fun hk => by cases hk)
  refine ⟨⟨hkept.runOnNewThread ⟨.refl, lt_succ_self _⟩ ?_ ?_ ?_, fun hc => ?_⟩, hd.hold _⟩
  · exact fun v hv => ⟨(hworkers v hv).1.symm, (hworkers v hv).2.symm⟩
  · intro k t ht heq
    rcases mem_keep ht with ht | ⟨rfl, rfl⟩
    · exact absurd heq (not_or.mpr (hlists k t ht))
    · exact ⟨rfl, rfl, rfl, rfl⟩
  · intro t ht hid
    rcases mem_keep ht with ht | ⟨hk, -⟩
    · exact absurd hid (hlists .restores t ht).1
    · cases hk
  · have htidy : Tidy s.shelf.nextTransfer.drawPath := h.tidy hc
    exact (htidy.keep _ _ _).runOnNewThread _

theorem getBackup_handled (h : Kept env c s.shelf) (hd : s.desk.Open request)
    (offset length : Query) (read : Option String) :
    Handled env c (s.getBackup env m request id offset length read) := by
  unfold getBackup
  split
  · split
    · exact .of_respond h hd _
    split
    · exact .of_respond h hd _
    have htouched := h.touch .backups id m.now
    dsimp only
    split
    · exact .of_respond htouched hd _
    split
    · exact .of_respond htouched hd _
    · split <;> split <;> exact .of_respond htouched hd _
  · exact .of_respond h hd _

/-- No content check is reading the file of a transfer of this id. -/
def Spared (s : Shelf) (id : Nat) : Prop := ∀ w ∈ s.workers, w.id = id → w.reads = true → w.checks = false

theorem Kept.drop {s : Shelf} (h : Kept env c s) (ht : t ∈ s.transfers k) :
    Kept env (c ∧ Spared s t.id) (s.drop k t) := by
  refine ⟨h.sound.drop (h.sound.alone ht), fun hc => (h.tidy hc.1).drop (h.sound.alone ht) fun w hw hpath => ?_⟩
  exact hc.2 w hw (h.sound.own w hw k t ht (.inr hpath.symm)).1.symm

theorem Kept.mono {s : Shelf} {c' : Prop} (h : Kept env c s) (hc : c' → c) : Kept env c' s :=
    ⟨h.sound, fun hc' => h.tidy (hc hc')⟩

theorem Handled.mono {c' : Prop} (h : Handled env c s) (hc : c' → c) : Handled env c' s := ⟨h.shelf.mono hc, h.desk⟩

open Handled (answerWaiter fail mono)

theorem Sound.spared {s : Shelf} (h : Sound env s) (ht : t ∈ s.transfers .backups) : Spared s t.id := by
  intro w hw hid _
  have hkind := (h.own w hw .backups t ht (.inl hid.symm)).2.2.1
  unfold checks
  cases hjob : w.job with
  | build parts => rfl
  | inspect => rfl
  | check a =>
    rw [hjob] at hkind
    cases hkind

variable (h : Kept env c s.shelf)

include h

variable (hd : s.desk.Open request)

include hd

theorem deleteBackup_handled : Handled env c (s.deleteBackup request id) := by
  unfold deleteBackup
  split
  · exact .of_respond h hd _
  rename_i transfer hfind
  obtain ⟨ht, -⟩ := find_some hfind
  refine ⟨?_, (hd.answerWaiter _ _).respond⟩
  show Kept env c ((s.answerWaiter _ _).shelf.drop .backups transfer)
  rw [answerWaiter_shelf]
  exact (h.drop ht).mono fun hc => ⟨hc, h.sound.spared ht⟩

theorem deleteRestore_handled :
    Handled env (c ∧ Spared s.shelf id) (s.deleteRestore request id) := by
  unfold deleteRestore
  split
  · exact .of_respond (h.mono left) hd _
  rename_i transfer hfind
  obtain ⟨ht, hid⟩ := find_some hfind
  refine ⟨?_, (hd.answerWaiter _ _).respond⟩
  show Kept env _ ((s.answerWaiter _ _).shelf.drop .restores transfer)
  rw [answerWaiter_shelf]
  exact (h.drop ht).mono fun hc => ⟨hc.1, hid.symm ▸ hc.2⟩

theorem getRestore_handled : Handled env c (s.getRestore m request id) := by
  unfold getRestore
  split
  · exact .of_respond h hd _
  · dsimp only
    exact .of_respond (h.touch .restores id m.now) hd _

omit hd

omit h

theorem Kept.startUpload {s : Shelf} (h : Kept env c s) (size : Nat) (sha256 : String) (now : Int) :
    Kept env c (((s.drawPath.nextTransfer.write (s.TempPath "api-restore") []).note
      (.announced (s.lastTransferId + 1) size sha256)).keep .restores
        { id := s.lastTransferId + 1, upload := true, path := s.TempPath "api-restore", size := size, sha256 := sha256.toLower,
          hash := some [] } now) := by
  obtain ⟨hlists, hworkers, hstops, hgone⟩ := h.sound.unused "api-restore"
  have hwritten : Sound env (s.drawPath.nextTransfer.write (s.TempPath "api-restore") []) := by
    refine h.sound.drawPath.nextTransfer.withFiles (fun t ht =>
      update_of_ne (hlists .restores t ht).2 _ _) fun p bytes hp => ?_
    by_cases heq : p = s.TempPath "api-restore"
    · rw [heq]
      exact lt_succ_self _
    · rw [update_of_ne heq] at hp
      exact lt_succ_of_lt (h.sound.stored p bytes hp)
  have hnoted := hwritten.note (d := .announced (s.lastTransferId + 1) size sha256) (fun _ => rfl) (fun _ _ _ heq => by cases heq)
    (fun _ heq => by cases heq)
  have hempty : chunksOf (s.lastTransferId + 1) s.log = [] := h.sound.fresh _ (lt_succ_self _)
  constructor
  · refine hnoted.keep rfl (lt_succ_self _) hlists hworkers hstops ?_ fun _ => ?_
    · intro hin
      rcases mem_cons.mp hin with heq | hin
      · cases heq
      · exact hgone hin
    · constructor
      · show update s.files (s.TempPath "api-restore") (some []) (s.TempPath "api-restore") =
          some (chunksOf (s.lastTransferId + 1) s.log)
        rw [hempty]
        exact update_self _ _ _
      · show (chunksOf (s.lastTransferId + 1) s.log).length = 0
        rw [hempty]
        rfl
      · exact zero_le _
      · exact ⟨sha256, .head _, rfl⟩
      · intro _
        show some [] = some (chunksOf (s.lastTransferId + 1) s.log)
        rw [hempty]
      · exact fun hreceiving => absurd ⟨rfl, rfl, rfl⟩ hreceiving
      · exact fun hc => by cases hc
  · intro hc p bytes hp
    by_cases heq : p = s.TempPath "api-restore"
    · exact .inl ⟨.restores, _, mem_keep_self _ _ _ _, heq.symm⟩
    have hold : s.files p = some bytes := (update_of_ne heq _ _).symm.trans hp
    have htidy : Tidy s := h.tidy hc
    exact htidy.keep .restores _ now p bytes hold

theorem postRestore_handled (h : Kept env c s.shelf) (hd : s.desk.Open request)
    (body : Body RestoreBody) (created : Option String) :
    Handled env c (s.postRestore m request body created) := by
  unfold postRestore
  split
  · exact .of_respond h hd _
  split
  · rename_i body size sha256 hsize hsha256
    split
    · exact .of_respond h hd _
    split
    · exact .of_respond h hd _
    split
    · exact .of_respond h hd _
    split
    · exact .of_respond h hd _
    split
    · exact .of_respond ⟨h.sound.drawPath, h.tidy⟩ hd _
    · exact .of_respond (h.startUpload _ _ _) hd _
  · exact .of_respond h hd _

/-! ## Chunks -/

theorem resized_append (bytes more : Bytes) : resized (bytes ++ more) bytes.length = bytes := by
  rw [resized, List.take_left', Nat.sub_eq_zero_of_le (by rw [List.length_append]; omega)]
  · exact List.append_nil _
  · rfl

theorem Upload.append_failed {s : Shelf} (h : Upload env s.files s.log t) {w : Writing}
    (hw : w.whole chunk = false) : s.append t.path t.received chunk w = s := by
  have hsame : s.write t.path (chunksOf t.id s.log) = s := by
    rw [write, ← h.file, update_eq_self]
  unfold append
  rw [h.file, ← h.received]
  dsimp only [getD_some]
  rw [if_neg (by simp [hw])]
  split
  · rw [resized_append, hsame]
  have hresized := resized_append (chunksOf t.id s.log) []
  rw [append_nil] at hresized
  rw [hresized, hsame]

theorem Sound.no_worker {s : Shelf} (h : Sound env s) (hin : t ∈ s.transfers k) (hidle : t.working = false) :
    ∀ w ∈ s.workers, w.id ≠ t.id ∧ w.path ≠ t.path := by
  intro w hw
  have hne : ¬ (t.id = w.id ∨ t.path = w.path) := by
    intro heq
    have := (h.own w hw k t hin heq).2.2.2
    rw [hidle] at this
    cases this
  rw [not_or] at hne
  exact ⟨fun heq => hne.1 heq.symm, fun heq => hne.2 heq.symm⟩

theorem Kept.startWork {s : Shelf} (h : Kept env c s) (ht : t ∈ s.transfers .restores) (hidle : t.working = false)
    (hid : ∀ t, (f t).id = t.id) (hpath : ∀ t, (f t).path = t.path)
    (hdone : ∀ t, t.complete = true → (f t).complete = true) (hworking : ∀ t, (f t).working = true)
    (hup : Upload env s.files s.log (f t)) (job : Job) (hkind : job.kind = .restores)
    (hcheck : ∀ a, job = .check a → a.id = t.id ∧ t.complete = true) :
    Kept env c ((s.modify .restores t.id f).runOnNewThread { id := t.id, path := t.path, job := job }) := by
  have hworkers := h.sound.no_worker ht hidle
  have hmodified : Sound env (s.modify .restores t.id f) := by
    refine h.sound.modify hid hpath hdone (fun _ _ _ u _ => hworking u) fun _ u hu huid => ?_
    obtain ⟨-, rfl⟩ := h.sound.one .restores .restores u t hu ht (.inl huid)
    exact hup
  have hmem : ∀ k, ∀ u ∈ (s.modify .restores t.id f).transfers k, u.id = t.id ∨ u.path = t.path →
    k = .restores ∧ u = f t := by
    intro k u hu heq
    rw [modify_transfers] at hu
    obtain ⟨v, hv, rfl⟩ := mem_map.mp hu
    rw [edited_same Transfer.id hid, edited_same Transfer.path hpath] at heq
    obtain ⟨rfl, rfl⟩ := h.sound.one k .restores v t hv ht heq
    exact ⟨rfl, if_pos ⟨rfl, rfl⟩⟩
  constructor
  · refine hmodified.runOnNewThread (h.sound.ids .restores t ht) hworkers ?_ ?_
    · intro k u hu heq
      obtain ⟨rfl, rfl⟩ := hmem k u hu heq
      exact ⟨hid t, hpath t, hkind.symm, hworking t⟩
    intro u hu heq
    obtain ⟨-, rfl⟩ := hmem .restores u hu (.inl heq)
    constructor
    · intro _ _ hstage
      cases hstage
    · intro _ _ hstage
      cases hstage
    · exact fun a ha => ⟨(hcheck a ha).1, hdone t (hcheck a ha).2⟩
    · intro _ _ _ _ hstage
      cases hstage
  · exact fun hc => ((h.tidy hc).modify hpath).runOnNewThread _

/-- What `accept` makes of the transfer. -/
def Transfer.fedWith (t : Transfer) (chunk : Bytes) : Transfer :=
  { t with hash := t.hash.map (· ++ chunk), received := t.received + chunk.length }

theorem chunksOf_chunk (id i : Nat) (chunk : Bytes) (log : List Did) :
    chunksOf i (.chunk id chunk :: log) = if id = i then chunksOf i log ++ chunk else chunksOf i log := rfl

/-- **A chunk is accepted**: the file, the log and the digest grow by it. -/
theorem Kept.accept {s : Shelf} (h : Kept env c s) (ht : t ∈ s.transfers .restores) (hrecv : t.Receiving)
    (hbound : t.received + chunk.length ≤ t.size) {w : Writing} (hw : w.whole chunk = true) :
    Kept env c ((s.append t.path t.received chunk w).accept t.id chunk) ∧
      t.fedWith chunk ∈ ((s.append t.path t.received chunk w).accept t.id chunk).transfers .restores := by
  have hup := h.sound.uploads t ht
  have happend : s.append t.path t.received chunk w = s.write t.path (chunksOf t.id s.log ++ chunk) := by
    unfold append
    rw [h.sound.uploads t ht |>.file]
    exact if_pos hw
  have hworkers := h.sound.no_worker ht hrecv.1
  rw [happend]
  let s' := (s.write t.path (chunksOf t.id s.log ++ chunk)).accept t.id chunk
  have htransfers : ∀ k, s'.transfers k = (s.transfers k).map (edited .restores t.id (fun u => u.fedWith chunk) k) :=
    fun k => modify_transfers _ _ _ _ k
  have hmem : ∀ k u, u ∈ s'.transfers k → (k = .restores ∧ u = t.fedWith chunk) ∨
    (u ∈ s.transfers k ∧ u.id ≠ t.id ∧ u.path ≠ t.path) := by
    intro k u hu
    rw [htransfers] at hu
    obtain ⟨v, hv, rfl⟩ := mem_map.mp hu
    by_cases heq : v.id = t.id ∨ v.path = t.path
    · obtain ⟨rfl, rfl⟩ := h.sound.one k .restores v t hv ht heq
      rw [edited, if_pos ⟨rfl, rfl⟩]
      exact .inl ⟨rfl, rfl⟩
    rw [not_or] at heq
    rw [edited, if_neg (fun hboth => heq.1 hboth.2)]
    exact .inr ⟨hv, heq⟩
  have hother : ∀ i, i ≠ t.id → chunksOf i (.chunk t.id chunk :: s.log) = chunksOf i s.log := by
    intro i hi
    rw [chunksOf_chunk, if_neg (Ne.symm hi)]
  have hown : chunksOf t.id (.chunk t.id chunk :: s.log) = chunksOf t.id s.log ++ chunk := by
    rw [chunksOf_chunk, if_pos rfl]
  have hnotdone : t.complete = true → False := fun hc => by rw [hrecv.2.1] at hc; cases hc
  have hfed : t.fedWith chunk ∈ s'.transfers .restores := by
    rw [htransfers]
    refine mem_map.mpr ⟨t, ht, ?_⟩
    rw [edited, if_pos ⟨rfl, rfl⟩]
  refine ⟨⟨?_, fun hc => ?_⟩, hfed⟩
  · refine { h.sound with
      ids := ?_, one := ?_, own := ?_, uploads := ?_, knows := ?_, stops := ?_, gone := ?_, fresh := ?_, justified := ?_
      stored := ?_, sweeping := ?_ }
    · intro k u hu
      rcases hmem k u hu with ⟨-, rfl⟩ | ⟨hu, -⟩
      · exact h.sound.ids .restores t ht
      · exact h.sound.ids k u hu
    · intro k k' u u' hu hu' heq
      rcases hmem k u hu with ⟨rfl, rfl⟩ | ⟨hold, hne⟩ <;> rcases hmem k' u' hu' with ⟨rfl, rfl⟩ | ⟨hold', hne'⟩
      · exact ⟨rfl, rfl⟩
      · exact absurd heq (not_or.mpr ⟨hne'.1.symm, hne'.2.symm⟩)
      · exact absurd heq (not_or.mpr hne)
      · exact h.sound.one k k' u u' hold hold' heq
    · intro v hv k u hu heq
      rcases hmem k u hu with ⟨rfl, rfl⟩ | ⟨hold, -⟩
      · exact absurd heq (not_or.mpr ⟨(hworkers v hv).1.symm, (hworkers v hv).2.symm⟩)
      · exact h.sound.own v hv k u hold heq
    · intro u hu
      rcases hmem .restores u hu with ⟨-, rfl⟩ | ⟨hold, hne⟩
      · obtain ⟨raw, hraw, hsha⟩ := hup.announced
        constructor
        · exact (update_self _ _ _).trans (congrArg some hown.symm)
        · show (chunksOf t.id (.chunk t.id chunk :: s.log)).length = t.received + chunk.length
          rw [hown, length_append, hup.received]
        · exact hbound
        · exact ⟨raw, mem_cons_of_mem _ hraw, hsha⟩
        · intro _
          show t.hash.map (· ++ chunk) = some (chunksOf t.id (.chunk t.id chunk :: s.log))
          rw [hup.fed hrecv, hown]
          rfl
        · exact fun hnot => absurd hrecv hnot
        · exact fun hc => absurd hc hnotdone
      · exact ((h.sound.uploads u hold).files (update_of_ne hne.2 _ _)).note (hother u.id hne.1)
    · intro v hv u hu heq
      rcases hmem .restores u hu with ⟨-, rfl⟩ | ⟨hold, hne⟩
      · exact absurd heq.symm (hworkers v hv).1
      · exact (h.sound.knows v hv u hold heq).note (hother u.id hne.1)
    · intro a ha
      refine ⟨(h.sound.stops a ha).1, fun u hu heq => ?_⟩
      rcases hmem .restores u hu with ⟨-, rfl⟩ | ⟨hold, hne⟩
      · exact absurd ((h.sound.stops a ha).2 t ht heq).1 hnotdone
      obtain ⟨hcomplete, hchecked⟩ := (h.sound.stops a ha).2 u hold heq
      refine ⟨hcomplete, ?_⟩
      show Checked (.chunk t.id chunk :: s.log) _ _ (chunksOf u.id (.chunk t.id chunk :: s.log))
      rw [hother u.id hne.1]
      exact hchecked.mono _
    · intro i hi
      rcases mem_cons.mp hi with heq | hi
      · cases heq
      refine ⟨(h.sound.gone i hi).1, fun k u hu => ?_⟩
      rcases hmem k u hu with ⟨-, rfl⟩ | ⟨hold, -⟩
      · exact (h.sound.gone i hi).2 .restores t ht
      · exact (h.sound.gone i hi).2 k u hold
    · intro i hi
      have hne : i ≠ t.id := by
        rintro rfl
        exact absurd hi (not_lt.mpr (h.sound.ids .restores t ht).1)
      exact (hother i hne).trans (h.sound.fresh i hi)
    · exact h.sound.justified.cons fun _ _ _ heq => by cases heq
    · intro p bytes hp
      by_cases heq : p = t.path
      · rw [heq]
        exact (h.sound.ids .restores t ht).2
      · exact h.sound.stored p bytes ((update_of_ne heq _ _).symm.trans hp)
    · intro k hne
      refine h.sound.sweeping k fun hnil => hne ?_
      rw [htransfers, hnil]
      rfl
  · have htidy : Tidy (s.write t.path (chunksOf t.id s.log ++ chunk)) := (h.tidy hc).write (.inl ⟨.restores, t, ht, rfl⟩)
    exact htidy.modify (f := fun u => u.fedWith chunk) fun _ => rfl

theorem Sound.spared_of_idle {s : Shelf} (h : Sound env s) (ht : t ∈ s.transfers k)
    (hidle : t.working = false) : Spared s t.id := fun w hw hid _ => absurd hid (h.no_worker ht hidle w hw).1

variable (h : Kept env c s.shelf)

include h

variable (hd : s.desk.Open request)

include hd

theorem finishUpload_handled
    (ht : t.fedWith chunk ∈ s.shelf.transfers .restores) (hrecv : t.Receiving)
    (hfull : t.received + chunk.length = t.size)
    (options : WaitOptions) : Handled env c (s.finishUpload env request t chunk options) := by
  have hup := h.sound.uploads _ ht
  have hdigest : t.hash.getD [] ++ chunk = chunksOf t.id s.shelf.log := by
    have hfed : t.hash.map (· ++ chunk) = some (chunksOf t.id s.shelf.log) := hup.fed hrecv
    cases hhash : t.hash with
    | none =>
      rw [hhash] at hfed
      cases hfed
    | some bytes =>
      rw [hhash] at hfed
      exact some.inj hfed
  unfold finishUpload
  dsimp only
  rw [hdigest]
  split
  · refine Handled.of_respond ?_ hd _
    exact (h.drop ht).mono fun hc => ⟨hc, h.sound.spared_of_idle ht hrecv.1⟩
  rename_i hsha
  rw [ne_eq, not_not] at hsha
  refine ⟨?_, hd.hold _⟩
  refine h.startWork (f := fun u => { u with hash := none, working := true, waiter := options.waiter request }) ht hrecv.1
    (fun _ => rfl) (fun _ => rfl) (fun _ hc => hc) (fun _ => rfl) ?_ .inspect rfl (fun _ ha => by cases ha)
  obtain ⟨raw, hraw, hrawsha⟩ := hup.announced
  constructor
  · exact hup.file
  · exact hup.received
  · exact hup.bound
  · exact ⟨raw, hraw, hrawsha⟩
  · exact fun hreceiving => by cases hreceiving.1
  · exact fun _ => ⟨hfull, hsha⟩
  · exact hup.whole

theorem putChunk_handled
    (ht : t ∈ s.shelf.transfers .restores) (hrecv : t.Receiving) (hbound : t.received + chunk.length ≤ t.size)
    (options : WaitOptions) (w : Writing) : Handled env c (s.putChunk env request t chunk options w) := by
  unfold putChunk
  split
  · rename_i hw
    rw [(h.sound.uploads t ht).append_failed (by simpa using hw)]
    exact .of_respond h hd _
  rename_i hw
  obtain ⟨hkept, hin⟩ := h.accept ht hrecv hbound (w := w) (by simpa using hw)
  split
  · exact .of_respond hkept hd _
  · exact finishUpload_handled (s := ⟨s.desk, _⟩) hkept hd hin hrecv (by omega) options

theorem putRestore_handled (body : Body ChunkBody) (w : Writing) :
    Handled env c (s.putRestore env m request id body w) := by
  unfold putRestore
  split
  · exact .of_respond h hd _
  split
  · split
    · exact .of_respond h hd _
    rename_i body _ _ offset data _ _ _ transfer hfind
    have htouched := h.touch .restores id m.now
    have hin := mem_touch hfind m.now
    split
    · exact .of_respond htouched hd _
    split
    · exact .of_respond htouched hd _
    split
    · exact .of_respond htouched hd _
    split
    · exact .of_respond htouched hd _
    split
    · exact .of_respond htouched hd _
    split
    · exact .of_respond htouched hd _
    split
    · exact .of_respond htouched hd _
    rename_i hfailure hworking hcomplete _ _ chunk _ _ hsize
    have hrecv : Transfer.Receiving { transfer with touchedAt := m.now } :=
      ⟨by simpa using hworking, by simpa using hcomplete, by simpa using hfailure⟩
    exact putChunk_handled (s := ⟨s.desk, _⟩) htouched hd hin hrecv (not_lt.mp hsize) body.options w
  · exact .of_respond h hd _

theorem postRestoreApply_handled (body : Body ApplyBody) :
    Handled env c (s.postRestoreApply m request id body) := by
  unfold postRestoreApply
  split
  · exact .of_respond h hd _
  split
  · exact .of_respond h hd _
  rename_i body _ transfer hfind
  have htouched := h.touch .restores id m.now
  have hin := mem_touch hfind m.now
  obtain ⟨-, rfl⟩ := find_some hfind
  split
  · exact .of_respond htouched hd _
  split
  · exact .of_respond htouched hd _
  split
  · exact .of_respond htouched hd _
  split
  · exact .of_respond htouched hd _
  split
  · exact .of_respond htouched hd _
  split
  · exact .of_respond htouched hd _
  rename_i hfailure hworking hcomplete _ parts _ _ _ _
  have hidle : transfer.working = false := by simpa using hworking
  have hwhole : transfer.complete = true := by simpa using hcomplete
  refine ⟨?_, hd.hold _⟩
  refine htouched.startWork
    (f := fun u => { u with working := true, waiter := body.options.waiter request }) hin hidle
    (fun _ => rfl) (fun _ => rfl) (fun _ hc => hc) (fun _ => rfl) ?_
    (.check { id := transfer.id, parts := parts, waiter := body.options.waiter request }) rfl ?_
  · refine (htouched.sound.uploads _ hin).congr rfl rfl rfl rfl rfl ?_ ?_ .inl
    · exact fun hreceiving => by cases hreceiving.1
    · intro _ hreceiving
      rw [show transfer.complete = false from hreceiving.2.1] at hwhole
      cases hwhole
  · intro a ha
    obtain rfl := Job.check.inj ha
    exact ⟨rfl, hwhole⟩

omit hd

omit h

/-! ## Workers -/

theorem Sound.own_kind {s : Shelf} (h : Sound env s) (hw : w ∈ s.workers) (hkind : w.job.kind = .backups)
    (ht : t ∈ s.transfers .restores) : t.id ≠ w.id ∧ t.path ≠ w.path := by
  have hne : ¬ (t.id = w.id ∨ t.path = w.path) := fun heq => by
    have := (h.own w hw .restores t ht heq).2.2.1
    rw [hkind] at this
    cases this
  exact not_or.mp hne

theorem Kept.commit {s : Shelf} (h : Kept env c s) (k : Nat) (bytes : Bytes) (held : Parts) :
    Kept env c (s.commit k bytes held) := by
  unfold Shelf.commit
  cases hw : s.workers[k]? with
  | none => exact h
  | some w =>
    have hin : w ∈ s.workers := mem_of_getElem? hw
    dsimp only
    split
    · rename_i parts hjob hstage
      have hkind : w.job.kind = .backups := by rw [hjob]; rfl
      have hsound : Sound env (s.write w.path bytes) := by
        refine h.sound.withFiles (fun t ht => update_of_ne (h.sound.own_kind hin hkind ht).2 _ _) fun p b hp => ?_
        by_cases heq : p = w.path
        · rw [heq]
          exact (h.sound.workerIds w hin).2
        · rw [update_of_ne heq] at hp
          exact h.sound.stored p b hp
      refine ⟨hsound.setStage hw fun t ht hid => absurd hid (h.sound.own_kind hin hkind ht).1, fun hc => ?_⟩
      have hchecks : w.checks = false := by rw [checks, hjob]
      have htidy : Tidy (s.write w.path bytes) := (h.tidy hc).write (.inr ⟨w, hin, rfl, hchecks⟩)
      exact htidy.setStage hw _
    · exact h

theorem Kept.openFile {s : Shelf} (h : Kept env c s) (k : Nat) : Kept env c (s.openFile k) := by
  unfold Shelf.openFile
  cases hw : s.workers[k]? with
  | none => exact h
  | some w =>
    have hin : w ∈ s.workers := mem_of_getElem? hw
    dsimp only
    split
    · rename_i held bytes hopens hfile
      refine ⟨h.sound.setStage hw fun t ht hid => ?_, fun hc => (h.tidy hc).setStage hw _⟩
      have hpath := (h.sound.own w hin .restores t ht (.inl hid)).2.1
      constructor
      · intro b _ hstage
        obtain ⟨rfl, -⟩ := Stage.reading.inj hstage
        rw [← hpath, (h.sound.uploads t ht).file] at hfile
        exact (some.inj hfile).symm
      · intro _ _ hstage
        cases hstage
      · exact (h.sound.knows w hin t ht hid).check
      · intro _ _ _ _ hstage
        cases hstage
    · exact h

theorem Worker.verdict_inspected {failure : String} {info : Info} (h : w.ends env (.inspected failure info) = true)
    (hok : inspectFailure failure info = "") :
    ∃ bytes held, w.stage = .reading bytes held ∧ w.verdict (.inspected failure info) = [.inspected w.id bytes] := by
  unfold ends at h
  unfold verdict
  cases hjob : w.job with
  | build parts => rw [hjob] at h; cases h
  | check a => rw [hjob] at h; cases h
  | inspect =>
    rw [hjob] at h
    cases hstage : w.stage with
    | ready =>
      rw [hstage] at h
      have hfailure : failure ≠ "" := by simpa using h
      unfold inspectFailure at hok
      rw [if_neg (fun hboth => hfailure hboth.1)] at hok
      exact absurd hok hfailure
    | reading bytes held =>
      refine ⟨bytes, held, rfl, ?_⟩
      dsimp only
      rw [if_pos hok, read, hstage]
      rfl
    | written held => rw [hstage] at h; cases h
    | closed o => rw [hstage] at h; cases h

theorem Worker.verdict_checked {problem : String} {refused : Bool} (hjob : w.job = .check a)
    (h : w.ends env (.checked problem refused) = true) (hok : problem = "") :
    (∃ bytes held, w.stage = .reading bytes held ∧
      w.verdict (.checked problem refused) = [.checked w.id a.parts (some bytes)]) ∨
      (w.verdict (.checked problem refused) = [.checked w.id a.parts none] ∧
        a.parts.profiles = false ∧ a.parts.routes = false) := by
  subst hok
  unfold ends at h
  unfold verdict read
  rw [hjob] at h ⊢
  cases hstage : w.stage with
  | ready =>
    rw [hstage] at h
    right
    simpa using h
  | reading bytes held => exact .inl ⟨bytes, held, rfl, rfl⟩
  | written held => rw [hstage] at h; cases h
  | closed o => rw [hstage] at h; cases h

/-- A verdict is no chunk, no call of `Apply` and no deletion. -/
theorem Worker.verdict_cases (w : Worker) (o : Outcome) :
    w.verdict o = [] ∨ (∃ bytes, w.verdict o = [.inspected w.id bytes]) ∨ ∃ parts bytes,
      w.verdict o = [.checked w.id parts bytes] := by
  unfold verdict
  split
  · split
    · exact .inr (.inl ⟨_, rfl⟩)
    · exact .inl rfl
  · split
    · exact .inr (.inr ⟨_, _, rfl⟩)
    · exact .inl rfl
  · exact .inl rfl

theorem Kept.finish {s : Shelf} (h : Kept env c s) (k : Nat) (o : Outcome) : Kept env c (s.finish env k o) := by
  unfold Shelf.finish
  cases hw : s.workers[k]? with
  | none => exact h
  | some w =>
    have hin : w ∈ s.workers := mem_of_getElem? hw
    dsimp only
    split
    · rename_i hends
      have hquiet : ∀ i, chunksOf i (w.verdict o ++ s.log) = chunksOf i s.log := by
        intro i
        rcases w.verdict_cases o with heq | ⟨_, heq⟩ | ⟨_, _, heq⟩ <;> rw [heq] <;> rfl
      have hnoted : Sound env { s with log := w.verdict o ++ s.log } := by
        rcases w.verdict_cases o with heq | ⟨bytes, heq⟩ | ⟨parts, bytes, heq⟩
        · rw [heq]
          exact h.sound
        · rw [heq]
          exact h.sound.note (fun _ => rfl) (fun _ _ _ heq => by cases heq) (fun _ heq => by cases heq)
        · rw [heq]
          exact h.sound.note (fun _ => rfl) (fun _ _ _ heq => by cases heq) (fun _ heq => by cases heq)
      refine ⟨hnoted.setStage hw fun t ht hid => ?_, fun hc => (h.tidy hc).setStage hw _⟩
      have hknows := h.sound.knows w hin t ht hid
      have hchunks : chunksOf t.id (w.verdict o ++ s.log) = chunksOf t.id s.log := hquiet t.id
      constructor
      · intro _ _ hstage
        cases hstage
      · intro failure info hstage hok
        obtain rfl := Stage.closed.inj hstage
        obtain ⟨bytes, held, hreading, hverdict⟩ := verdict_inspected hends hok
        rw [show chunksOf t.id ({ s with log := _ } : Shelf).log = _ from hchunks,
          ← hknows.read bytes held hreading, hid, hverdict]
        exact .head _
      · exact hknows.check
      · intro a problem refused hjob hstage hok
        obtain rfl := Stage.closed.inj hstage
        rw [hchunks, hid]
        have hcheck : w.job = .check a := hjob
        rcases verdict_checked hcheck hends hok with ⟨bytes, held, hreading, hverdict⟩ | ⟨hverdict, hparts⟩
        · rw [← hid, ← hknows.read bytes held hreading, hid, hverdict]
          exact .inl mem_cons_self
        · rw [hverdict]
          exact .inr ⟨.head _, hparts⟩
    · exact h

/-! ## Reports -/

theorem Shelf.modify_modify (s : Shelf) (k : Kind) {g : Transfer → Transfer} (hid : ∀ t, (f t).id = t.id) :
    (s.modify k id f).modify k id g = s.modify k id (g ∘ f) := by
  have hlist : (s.modify k id f).transfers k =
    (s.transfers k).map fun t => if t.id = id then f t else t := s.setList_self k _
  unfold modify at hlist ⊢
  rw [hlist]
  unfold setList
  rw [List.map_map]
  have hupdate : ∀ l l' : List Transfer, update (update s.transfers k l) k l' = update s.transfers k l' :=
    fun l l' => update_idem _ _ _
  simp only [hupdate]
  congr 2
  refine List.map_congr_left fun t _ => ?_
  by_cases ht : t.id = id
  · simp [ht, hid]
  · simp [ht]

theorem Shelf.modify_drop (s : Shelf) (k : Kind) (hid : ∀ t, (f t).id = t.id) (t : Transfer) :
    (s.modify k t.id f).drop k t = s.drop k t := by
  have hlist : (s.modify k t.id f).transfers k =
    (s.transfers k).map fun u => if u.id = t.id then f u else u := s.setList_self k _
  have hfilter : ((s.modify k t.id f).transfers k).filter (fun u => u.id != t.id) =
    (s.transfers k).filter fun u => u.id != t.id := by
    rw [hlist]
    induction s.transfers k with
    | nil => rfl
    | cons u l ih =>
      rw [map_cons, filter_cons, filter_cons, ih]
      by_cases hu : u.id = t.id
      · simp [hu, hid]
      · simp [hu]
  unfold drop
  rw [hfilter]
  unfold modify setList
  have hupdate : ∀ l l' : List Transfer, update (update s.transfers k l) k l' = update s.transfers k l' :=
    fun l l' => update_idem _ _ _
  simp only [hupdate]

theorem Shelf.settle_modify (s : Shelf) (k : Kind) (id : Nat) (now : Int) (g : Transfer → Transfer) :
    (s.settle k id now).modify k id g = s.modify k id fun t =>
      g { t with working := false, waiter := none, touchedAt := now } :=
  s.modify_modify k fun _ => rfl

theorem Shelf.settle_drop (s : Shelf) (k : Kind) {id : Nat} (hid : t.id = id) (now : Int) :
    (s.settle k id now).drop k t = s.drop k t := by
  subst hid
  exact s.modify_drop k (f := fun t => { t with working := false, waiter := none, touchedAt := now }) (fun _ => rfl) t

theorem Sound.spared_retired {s : Shelf} (h : Sound env s) {k : Nat} (hw : s.workers[k]? = some w) :
    Spared (s.retire k) w.id := fun v hv hid _ => absurd hid (h.retired hw v hv).1

theorem Kept.report_gone {s : Shelf} (h : Kept env c s) {k : Nat} (hw : s.workers[k]? = some w)
    (hfind : s.find w.job.kind w.id = none) : Kept env c ((s.retire k).remove w.path) := by
  have hin : w ∈ s.workers := mem_of_getElem? hw
  refine ⟨(h.sound.retire k).remove fun t ht heq => ?_, fun hc => (h.tidy hc).retire_remove h.sound hw⟩
  obtain ⟨hid, -, hkind, -⟩ := h.sound.own w hin .restores t ht (.inr heq)
  exact find_none hfind t (hkind ▸ ht) hid

theorem Kept.retire_listed {s : Shelf} (h : Kept env c s) {k : Nat} (hw : s.workers[k]? = some w) {k' : Kind}
    (ht : t ∈ s.transfers k') (hid : t.id = w.id) : Kept env c (s.retire k) := by
  refine ⟨h.sound.retire k, fun hc => (h.tidy hc).retire hw (.inr ⟨k', t, ht, ?_⟩)⟩
  exact (h.sound.own w (mem_of_getElem? hw) k' t ht (.inl hid)).2.1

theorem buildReport_handled (h : Handled env c s) {k : Nat} (hw : s.shelf.workers[k]? = some w)
    (hkind : w.job.kind = .backups) (failure : String) (size : Nat) (sha256 : String) (written : Parts) :
    Handled env c ((⟨s.desk, s.shelf.retire k⟩ : Router).buildReport m w failure size sha256 written) := by
  unfold buildReport
  split
  · rename_i hfind
    exact ⟨h.shelf.report_gone hw (by rw [hkind]; exact hfind), h.desk⟩
  rename_i entry hfind
  obtain ⟨hin, hid⟩ := find_some hfind
  have hkept := h.shelf.retire_listed hw hin hid
  split
  · refine fail ?_ _ _
    refine ⟨?_, h.desk⟩
    rw [settle_drop _ _ hid]
    exact (hkept.drop hin).mono fun hc => ⟨hc, hid ▸ h.shelf.sound.spared_retired hw⟩
  · refine answerWaiter ?_ _ _
    refine ⟨?_, h.desk⟩
    rw [settle_modify]
    refine ⟨hkept.sound.modify (fun _ => rfl) (fun _ => rfl) (fun _ _ => rfl) ?_ (fun hk => by cases hk),
      fun hc => (hkept.tidy hc).modify fun _ => rfl⟩
    exact fun v hv hvid => absurd hvid (h.shelf.sound.retired hw v hv).1

theorem inspectReport_handled (h : Handled env c s) {k : Nat} (hw : s.shelf.workers[k]? = some w)
    (hkind : w.job.kind = .restores) {failure : String} {info : Info}
    (hstage : w.stage = .closed (.inspected failure info)) :
    Handled env c ((⟨s.desk, s.shelf.retire k⟩ : Router).inspectReport m w failure info) := by
  unfold inspectReport
  split
  · rename_i hfind
    exact ⟨h.shelf.report_gone hw (by rw [hkind]; exact hfind), h.desk⟩
  rename_i entry hfind
  obtain ⟨hin, hid⟩ := find_some hfind
  have hworker : w ∈ s.shelf.workers := mem_of_getElem? hw
  have hworking : entry.working = true := (h.shelf.sound.own w hworker .restores entry hin (.inl hid)).2.2.2
  have hup := h.shelf.sound.uploads entry hin
  have hkept := h.shelf.retire_listed hw hin hid
  have hnot : ¬ entry.Receiving := fun hreceiving => by
    rw [hreceiving.1] at hworking
    cases hworking
  have hfree := h.shelf.sound.retired hw
  dsimp only
  split
  · rename_i hfailed
    split
    · refine answerWaiter ?_ _ _
      refine ⟨?_, h.desk⟩
      rw [settle_drop _ _ hid]
      exact (hkept.drop hin).mono fun hc => ⟨hc, hid ▸ h.shelf.sound.spared_retired hw⟩
    refine ⟨?_, h.desk⟩
    rw [settle_modify]
    refine ⟨hkept.sound.modify (fun _ => rfl) (fun _ => rfl) (fun _ hc => hc) (fun v hv hvid =>
      absurd hvid (hfree v hv).1) ?_,
      fun hc => (hkept.tidy hc).modify fun _ => rfl⟩
    intro _ t ht htid
    obtain ⟨-, rfl⟩ := h.shelf.sound.one .restores .restores t entry ht hin (.inl (htid.trans hid.symm))
    exact hup.congr rfl rfl rfl rfl rfl (fun hreceiving => absurd hreceiving.2.2 hfailed) (fun _ => hnot) .inl
  · rename_i hok
    refine answerWaiter ?_ _ _
    refine ⟨?_, h.desk⟩
    rw [settle_modify]
    refine ⟨hkept.sound.modify (fun _ => rfl) (fun _ => rfl) (fun _ _ => rfl) (fun v hv hvid =>
      absurd hvid (hfree v hv).1) ?_,
      fun hc => (hkept.tidy hc).modify fun _ => rfl⟩
    intro _ t ht htid
    obtain ⟨-, rfl⟩ := h.shelf.sound.one .restores .restores t entry ht hin (.inl (htid.trans hid.symm))
    have hinspected := (h.shelf.sound.knows w hworker t hin hid).inspected failure info hstage (not_not.mp hok)
    exact hup.congr rfl rfl rfl rfl rfl (fun hreceiving => by cases hreceiving.2.1) (fun _ => hnot) fun _ => .inr hinspected

/-! ## Applying -/

/-- What is known of an upload when its content check has accepted it. -/
def Accepted (s : Shelf) (a : Applying) : Prop :=
  a.id ≤ s.lastTransferId ∧
    ∀ t ∈ s.transfers .restores, t.id = a.id → t.complete = true ∧ Checked s.log t.id a.parts (chunksOf t.id s.log)

theorem Sound.mayApply {s : Shelf} (h : Sound env s) (ha : Accepted s a)
    (ht : t ∈ s.transfers .restores) (hid : t.id = a.id) : MayApply env s.log a.id a.parts (s.files t.path) := by
  have hup := h.uploads t ht
  obtain ⟨hcomplete, hchecked⟩ := ha.2 t ht hid
  have hnot : ¬ t.Receiving := fun hreceiving => by
    rw [hreceiving.2.1] at hcomplete
    cases hcomplete
  obtain ⟨hsize, hsha⟩ := hup.full hnot
  obtain ⟨raw, hraw, hrawsha⟩ := hup.announced
  rw [← hid]
  constructor
  · exact hup.file
  · rw [hup.received, hsize]
    exact ⟨raw, hraw, hsha.trans hrawsha⟩
  · exact hup.whole hcomplete
  · exact hchecked
  · exact fun hin => (h.gone t.id hin).2 .restores t ht rfl

/-- `apply` restores the archive. -/
def Moment.Applies (m : Moment) : Prop :=
  m.exiting = false ∧ m.quiet = none ∧ m.applyResult.refused = false ∧ m.applyFailure = ""

theorem apply_handled (h : Handled env c s) (ha : Accepted s.shelf a) :
    Handled env (c ∧ (m.Applies → Spared s.shelf a.id)) (s.apply m a) := by
  unfold apply
  split
  · exact (h.fail _ _).mono left
  rename_i entry hfind
  obtain ⟨hin, hid⟩ := find_some hfind
  split
  · exact (h.fail _ _).mono left
  rename_i hexiting
  split
  · exact (h.fail _ _).mono left
  rename_i hquiet
  have hnoted : Kept env c (s.shelf.note (.applied a.id a.parts (s.shelf.files entry.path))) := by
    refine ⟨h.shelf.sound.note (fun _ => rfl) ?_ (fun _ heq => by cases heq), h.shelf.tidy⟩
    intro id parts bytes heq
    obtain ⟨rfl, rfl, rfl⟩ := Did.applied.inj heq
    exact h.shelf.sound.mayApply ha hin hid
  split
  · exact mono (fail ⟨hnoted, h.desk⟩ _ _) left
  rename_i hrefused
  split
  · exact mono (fail ⟨hnoted, h.desk⟩ _ _) left
  rename_i hok
  refine answerWaiter ?_ _ _
  refine ⟨?_, h.desk⟩
  have hdropped := hnoted.drop (k := .restores) (t := entry) hin
  have happlies : m.Applies := ⟨by simpa using hexiting, hquiet, by simpa using hrefused, not_not.mp hok⟩
  exact ⟨{ hdropped.sound with }, fun hc => hdropped.tidy ⟨hc.1, hid ▸ hc.2 happlies⟩⟩

theorem afterStop_handled (h : Handled env c s) (ha : Accepted s.shelf a) :
    Handled env (c ∧ (m.Applies → Spared s.shelf a.id)) (s.afterStop m a) := by
  unfold afterStop
  split
  · exact (h.fail _ _).mono left
  split
  · refine ⟨⟨{ h.shelf.sound with stops := ?_ }, fun hc => h.shelf.tidy hc.1⟩, h.desk⟩
    intro b hb
    rcases mem_append.mp hb with hb | hb
    · exact h.shelf.sound.stops b hb
    · obtain rfl := mem_singleton.mp hb
      exact ha
  · exact apply_handled h ha

theorem checkReport_handled (h : Handled env c s) {k : Nat} (hw : s.shelf.workers[k]? = some w)
    (hjob : w.job = .check a) {problem : String} {refused : Bool}
    (hstage : w.stage = .closed (.checked problem refused)) :
    Handled env c ((⟨s.desk, s.shelf.retire k⟩ : Router).checkReport m w a problem refused) := by
  have hworker : w ∈ s.shelf.workers := mem_of_getElem? hw
  have hchecks : w.checks = true := by rw [checks, hjob]
  have hretired : Kept env c (s.shelf.retire k) :=
    ⟨h.shelf.sound.retire k, fun hc => (h.shelf.tidy hc).retire hw (.inl hchecks)⟩
  have hfree := h.shelf.sound.retired hw
  unfold checkReport
  split
  · exact ⟨hretired, h.desk⟩
  rename_i entry hfind
  obtain ⟨hin, hid⟩ := find_some hfind
  have hknows := h.shelf.sound.knows w hworker entry hin hid
  obtain ⟨haid, hcomplete⟩ := hknows.check a hjob
  have hsettled : Kept env c ((s.shelf.retire k).settle .restores w.id m.now) := by
    refine ⟨hretired.sound.modify (fun _ => rfl) (fun _ => rfl) (fun _ hc => hc) (fun v hv hvid =>
      absurd hvid (hfree v hv).1) ?_,
      fun hc => (hretired.tidy hc).modify fun _ => rfl⟩
    intro _ t ht htid
    obtain ⟨-, rfl⟩ := h.shelf.sound.one .restores .restores t entry ht hin (.inl (htid.trans hid.symm))
    have hdone : ∀ u : Transfer, u.complete = t.complete → ¬ u.Receiving := fun u hu hreceiving => by
      have hfalse := hreceiving.2.1
      rw [hu, hcomplete] at hfalse
      cases hfalse
    exact (h.shelf.sound.uploads t hin).congr rfl rfl rfl rfl rfl (fun hreceiving => absurd hreceiving (hdone _ rfl))
      (fun _ => hdone _ rfl) .inl
  split
  · exact fail ⟨hsettled, h.desk⟩ _ _
  rename_i hok
  have haccepted : Accepted ((s.shelf.retire k).settle .restores w.id m.now) a := by
    have hle : a.id ≤ s.shelf.lastTransferId := haid ▸ (h.shelf.sound.workerIds w hworker).1
    refine ⟨hle, fun u hu huid => ?_⟩
    rw [Shelf.settle, modify_transfers] at hu
    obtain ⟨t, ht, rfl⟩ := mem_map.mp hu
    rw [edited_same Transfer.id (f := fun t =>
      { t with working := false, waiter := none, touchedAt := m.now }) (fun _ => rfl) t]
      at huid ⊢
    obtain ⟨-, rfl⟩ := h.shelf.sound.one .restores .restores t entry ht hin (.inl (huid.trans (haid.trans hid.symm)))
    exact ⟨edited_keeps (P := fun t => t.complete = true) hcomplete fun _ _ => hcomplete,
      hknows.checked a problem refused hjob hstage (not_not.mp hok)⟩
  refine (afterStop_handled (s := ⟨s.desk, _⟩) ⟨hsettled, h.desk⟩ haccepted).mono fun hc => ⟨hc, fun _ => ?_⟩
  rw [haid]
  exact h.shelf.sound.spared_retired hw

theorem report_handled (h : Handled env c s) (k : Nat) : Handled env c (s.report m k) := by
  unfold report
  cases hw : s.shelf.workers[k]? with
  | none => exact h
  | some w =>
    dsimp only
    split
    · rename_i hjob hstage
      exact buildReport_handled h hw (by rw [hjob]; rfl) _ _ _ _
    · rename_i hjob hstage
      exact inspectReport_handled h hw (by rw [hjob]; rfl) hstage
    · rename_i hjob hstage
      exact checkReport_handled h hw hjob hstage
    · exact h

theorem stopFinished_handled (h : Handled env c s) :
    Handled env (c ∧ ∀ a ∈ s.shelf.stops.head?, m.Applies → Spared s.shelf a.id) (s.stopFinished m) := by
  unfold stopFinished
  split
  · exact h.mono left
  rename_i a stops hstops
  have hrest : Kept env c { s.shelf with stops := stops } := by
    refine ⟨{ h.shelf.sound with stops := fun b hb => h.shelf.sound.stops b ?_ }, h.shelf.tidy⟩
    rw [hstops]
    exact .tail _ hb
  have haccepted : Accepted { s.shelf with stops := stops } a := h.shelf.sound.stops a (by rw [hstops]; exact (.head _))
  refine (apply_handled (s := ⟨s.desk, _⟩) ⟨hrest, h.desk⟩ haccepted).mono fun hc => ⟨hc.1, hc.2 a ?_⟩
  rw [hstops]
  rfl

/-! ## The sweep -/

theorem Kept.dropAll {s : Shelf} (h : Kept env c s) (k : Kind) {l : List Transfer}
    (hl : ∀ t ∈ l, s.Alone k t ∧ ∀ w ∈ s.workers, w.path ≠ t.path) : Kept env c (l.foldl (fun s t => s.drop k t) s) := by
  induction l generalizing s with
  | nil => exact h
  | cons t l ih =>
    obtain ⟨halone, hfree⟩ := hl t mem_cons_self
    have hdropped : Kept env c (s.drop k t) :=
      ⟨h.sound.drop halone, fun hc => (h.tidy hc).drop halone fun w hw hpath => absurd hpath (hfree w hw)⟩
    have hlast : (s.drop k t).lastTransferId = s.lastTransferId := by
      unfold Shelf.drop Shelf.remove
      split <;> rfl
    refine ih hdropped fun u hu => ?_
    obtain ⟨hualone, hufree⟩ := hl u (.tail _ hu)
    refine ⟨⟨hlast ▸ hualone.id_le, fun k' v hv => hualone.only k' v (mem_drop_transfers.mp hv).1⟩, ?_⟩
    rw [drop_workers]
    exact hufree

theorem Shelf.mem_dropAll {s : Shelf} {k' : Kind} {l : List Transfer} {u : Transfer} :
    u ∈ (l.foldl (fun s t => s.drop k t) s).transfers k' ↔ u ∈ s.transfers k' ∧ (k' = k → ∀ t ∈ l, u.id ≠ t.id) := by
  induction l generalizing s with
  | nil => simp
  | cons t l ih =>
    rw [foldl_cons, ih, mem_drop_transfers, forall_mem_cons]
    tauto

def expired (now : Int) (t : Transfer) : Bool := !t.working && decide (kIdleMs ≤ now - t.touchedAt)

/-- The two loops of the sweep. -/
def Shelf.sweepLists (s : Shelf) (now : Int) : Shelf :=
  let s := ((s.transfers .backups).filter (expired now)).foldl (fun s t => s.drop .backups t) s
  ((s.transfers .restores).filter (expired now)).foldl (fun s t => s.drop .restores t) s

theorem Shelf.sweep_eq (s : Shelf) (now : Int) : s.sweep now =
    if ((s.sweepLists now).transfers .backups).isEmpty && ((s.sweepLists now).transfers .restores).isEmpty then
      { s.sweepLists now with transferSweep := false } else s.sweepLists now := rfl

theorem Kept.dropExpired {s : Shelf} (h : Kept env c s) (k : Kind) (now : Int) :
    Kept env c (((s.transfers k).filter (expired now)).foldl (fun s t => s.drop k t) s) := by
  refine h.dropAll k fun t ht => ?_
  obtain ⟨hin, hexpired⟩ := mem_filter.mp ht
  have hidle : t.working = false := by
    simpa using (Bool.and_eq_true_iff.mp hexpired).1
  exact ⟨h.sound.alone hin, fun w hw => (h.sound.no_worker hin hidle w hw).2⟩

theorem Kept.sweep {s : Shelf} (h : Kept env c s) (now : Int) : Kept env c (s.sweep now) := by
  have hlists : Kept env c (s.sweepLists now) := (h.dropExpired .backups now).dropExpired .restores now
  rw [sweep_eq]
  split
  · rename_i hempty
    rw [Bool.and_eq_true, List.isEmpty_iff, List.isEmpty_iff] at hempty
    refine ⟨{ hlists.sound with sweeping := fun k hne => ?_ }, hlists.tidy⟩
    cases k with
    | backups => exact absurd hempty.1 hne
    | restores => exact absurd hempty.2 hne
  · exact hlists

/-- **A transfer that a worker is busy with is not swept.** -/
theorem Sound.sweep_spares {s : Shelf} (h : Sound env s) (ht : t ∈ s.transfers k)
    (hw : w ∈ s.workers) (hid : w.id = t.id) (now : Int) : t ∈ (s.sweep now).transfers k := by
  have hworking := (h.own w hw k t ht (.inl hid.symm)).2.2.2
  have hspared : ∀ k', ∀ u ∈ (s.transfers k').filter (expired now), t.id ≠ u.id := by
    intro k' u hu heq
    obtain ⟨hin, hexpired⟩ := mem_filter.mp hu
    obtain ⟨rfl, rfl⟩ := h.one k k' t u ht hin (.inl heq)
    rw [expired, hworking] at hexpired
    cases hexpired
  have hlists : t ∈ (s.sweepLists now).transfers k := by
    refine mem_dropAll.mpr ⟨mem_dropAll.mpr ⟨ht, fun _ => hspared .backups⟩, fun hk u hu => ?_⟩
    obtain ⟨hin, hexpired⟩ := mem_filter.mp hu
    exact hspared .restores u (mem_filter.mpr ⟨(mem_dropAll.mp hin).1, hexpired⟩)
  rw [sweep_eq]
  split
  · exact hlists
  · exact hlists

/-! ## Steps and runs -/

/-- The event drops no restore whose content check is reading the file. -/
def Spares (s : Router) (e : Act × Moment) : Prop :=
  match e.1 with
  | .request none (.deleteRestore id) => s.shelf.restarting = false → Spared s.shelf id
  | .stopFinished => ∀ a ∈ s.shelf.stops.head?, e.2.Applies → Spared s.shelf a.id
  | _ => True

theorem dispatch_handled (h : Handled env c s) (refused : Option Response) (r : Request) :
    Handled env (c ∧ Spares s (.request refused r, m)) (s.dispatch env m refused r) := by
  have hd := Desk.open_next h.desk
  unfold dispatch
  dsimp only
  split
  · exact .of_respond (h.shelf.mono left) hd _
  rename_i hrestarting
  split
  · exact .of_respond (h.shelf.mono left) hd _
  have hshelf : Kept env c (⟨{ s.desk with requests := s.desk.requests + 1 }, s.shelf⟩ : Router).shelf := h.shelf
  cases r with
  | postBackup body => exact (postBackup_handled hshelf hd body).mono left
  | getBackup id offset length read => exact (getBackup_handled hshelf hd offset length read).mono left
  | deleteBackup id => exact (deleteBackup_handled hshelf hd).mono left
  | postRestore body created => exact (postRestore_handled hshelf hd body created).mono left
  | putRestore id body w => exact (putRestore_handled hshelf hd body w).mono left
  | postRestoreApply id body => exact (postRestoreApply_handled hshelf hd body).mono left
  | getRestore id => exact (getRestore_handled hshelf hd).mono left
  | deleteRestore id =>
    exact (deleteRestore_handled hshelf hd).mono fun hc => ⟨hc.1, hc.2 (by simpa using hrestarting)⟩

theorem step_handled (h : Handled env c s) (e : Act × Moment) : Handled env (c ∧ Spares s e) (step env s e) := by
  obtain ⟨a, m⟩ := e
  cases a with
  | request refused r => exact dispatch_handled h refused r
  | deadline request => exact ⟨h.shelf.mono left, fun r => (h.desk r).onTimeout⟩
  | sweep =>
    show Handled env _ (if s.shelf.transferSweep = true then _ else s)
    split
    · exact ⟨(h.shelf.sweep m.now).mono left, h.desk⟩
    · exact h.mono left
  | commit k bytes held => exact ⟨(h.shelf.commit k bytes held).mono left, h.desk⟩
  | openFile k => exact ⟨(h.shelf.openFile k).mono left, h.desk⟩
  | finish k o => exact ⟨(h.shelf.finish k o).mono left, h.desk⟩
  | report k => exact (report_handled h k).mono left
  | stopFinished => exact stopFinished_handled h

theorem start_handled (env : Env) : Handled env True {} := by
  refine ⟨⟨?_, fun _ p bytes hp => by cases hp⟩, fun r => ⟨rfl, rfl⟩⟩
  refine
    { ids := fun _ _ ht => by cases ht
      one := fun _ _ _ _ ht => by cases ht
      workerIds := fun _ hw => by cases hw
      apart := .nil
      own := fun _ hw => by cases hw
      uploads := fun _ ht => by cases ht
      knows := fun _ hw => by cases hw
      stops := fun _ ha => by cases ha
      gone := fun _ hid => by cases hid
      fresh := fun _ _ => rfl
      justified := ?_
      stored := fun _ _ hp => by cases hp
      sweeping := fun _ hne => absurd rfl hne }
  intro later id parts bytes earlier heq
  cases later <;> cases heq

theorem run_handled (h : Handled env c s) (es : List (Act × Moment)) :
    Handled env (c ∧ AllMeet (step env) Spares s es) (es.foldl (step env) s) := by
  induction es generalizing c s with
  | nil => exact h.mono left
  | cons e es ih => exact (ih (step_handled h e)).mono fun hc => ⟨⟨hc.1, hc.2.1⟩, hc.2.2⟩

/-! ## The contract -/

/-- What holds in every state reached. -/
structure Contract (env : Env) (s : Router) : Prop where
  once : ∀ r, s.desk.answered r ≤ 1
  armed : ∀ r, r < s.desk.requests → s.desk.answered r = 0 → ∃ w, s.desk.waiters r = some w ∧
    w.done = false ∧ w.deadline = true
  chunks : ∀ t ∈ s.shelf.transfers .restores,
    s.shelf.files t.path = some (chunksOf t.id s.shelf.log) ∧ (chunksOf t.id s.shelf.log).length = t.received
  justified : Justified env s.shelf.log
  swept : ∀ k, ∀ t ∈ s.shelf.transfers k, ∀ w ∈ s.shelf.workers, w.id = t.id → ∀ now, t ∈ (s.shelf.sweep now).transfers k

/-- Once no worker runs, a file belongs to a listed transfer. -/
def NoneLeft (s : Shelf) : Prop :=
  s.workers = [] → ∀ p bytes, s.files p = some bytes → ∃ k, ∃ t ∈ s.transfers k, t.path = p

theorem Desk.At.once {d : Desk} {r : Nat} (h : d.At r) : d.answered r ≤ 1 := by
  unfold Desk.At Desk.Settled Desk.Untouched at h
  split at h
  · split at h
    · omega
    · omega
  · omega

theorem Desk.At.armed {d : Desk} {r : Nat} (h : d.At r) (hr : r < d.requests) (hnone : d.answered r = 0) :
    ∃ w, d.waiters r = some w ∧ w.done = false ∧ w.deadline = true := by
  rw [Desk.At, if_pos hr, Desk.Settled] at h
  cases hw : d.waiters r with
  | none =>
    rw [hw] at h
    dsimp only at h
    omega
  | some w =>
    rw [hw] at h
    dsimp only at h
    rcases h with ⟨-, hone⟩ | ⟨hdone, hdeadline, -⟩
    · omega
    · exact ⟨w, rfl, hdone, hdeadline⟩

theorem Handled.contract (h : Handled env c s) : Contract env s where
  once r := (h.desk r).once
  armed r := (h.desk r).armed
  chunks t ht := ⟨(h.shelf.sound.uploads t ht).file, (h.shelf.sound.uploads t ht).received⟩
  justified := h.shelf.sound.justified
  swept _ _ ht _ hw hid now := h.shelf.sound.sweep_spares ht hw hid now

theorem Tidy.noneLeft {s : Shelf} (h : Tidy s) : NoneLeft s := by
  intro hnone p bytes hp
  rcases h p bytes hp with hcover | ⟨w, hw, -⟩
  · exact hcover
  · rw [hnone] at hw
    cases hw

/-- **The transfers over every run.**  No file is left either, in a run that drops no restore while its content check
reads the file. -/
theorem transfers_contract (env : Env) (es : List (Act × Moment)) :
    Contract env (run env es) ∧ (AllMeet (step env) Spares {} es → NoneLeft (run env es).shelf) := by
  have h := run_handled (start_handled env) es
  exact ⟨h.contract, fun hspared => (h.shelf.tidy ⟨trivial, hspared⟩).noneLeft⟩

/-! ## One byte is restored -/

/-- The digest and the base64 of the byte 1. -/
def oneByte : Env :=
  { sha256 := fun _ => "4bf5122f344554c53bde2ebb8cd2b7e3d1600ad631c385a5d7cce23c7785459a"
    fromBase64 := fun _ => some [1]
    toBase64 := fun _ => "AQ==" }

def idle : Moment := {}

def uploaded : List (Act × Moment) :=
  [(.request none (.postRestore (.ok { size := some 1, sha256 := some (oneByte.sha256 [1]) }) none), idle),
    (.request none (.putRestore 1 (.ok { offset := some 0, data := some "AQ==" }) { written := 1 }), idle),
    (.openFile 0, idle),
    (.finish 0 (.inspected "" { available := { profiles := true } }), idle),
    (.report 0, idle)]

def appliedRun : List (Act × Moment) :=
  uploaded ++
    [(.request none (.postRestoreApply 1 (.ok {})), idle),
      (.openFile 0, idle),
      (.finish 0 (.checked "" false), idle),
      (.report 0, idle)]

theorem transfers_contract_applied :
    AllMeet (step oneByte) Spares {} appliedRun ∧ Contract oneByte (run oneByte appliedRun) ∧
      NoneLeft (run oneByte appliedRun).shelf := by
  have hmeet : AllMeet (step oneByte) Spares {} appliedRun := by
    simp only [appliedRun, uploaded, cons_append, nil_append, AllMeet, Spares, and_self]
  exact ⟨hmeet, (transfers_contract oneByte appliedRun).1, (transfers_contract oneByte appliedRun).2 hmeet⟩

/-- The upload is deleted while the content check has its file open. -/
def deletedRun : List (Act × Moment) :=
  uploaded ++
    [(.request none (.postRestoreApply 1 (.ok {})), idle),
      (.openFile 0, idle),
      (.request none (.deleteRestore 1), idle),
      (.finish 0 (.checked "" false), idle),
      (.report 0, idle)]

/-- **The archive stays on disk**: nothing is listed, no worker runs, and the file is there. -/
theorem check_leaves_file : ¬ ∀ env es, Contract env (run env es) ∧ NoneLeft (run env es).shelf := by
  intro h
  have hend : (run oneByte deletedRun).shelf.workers.length = 0 ∧
      (run oneByte deletedRun).shelf.files ⟨"api-restore", 0⟩ = some [1] ∧
      ((run oneByte deletedRun).shelf.transfers .backups).length = 0 ∧
      ((run oneByte deletedRun).shelf.transfers .restores).length = 0 := by decide +kernel
  obtain ⟨hworkers, hfile, hbackups, hrestores⟩ := hend
  obtain ⟨k, t, ht, -⟩ := (h oneByte deletedRun).2 (eq_nil_of_length_eq_zero hworkers) _ _ hfile
  have hlist : (run oneByte deletedRun).shelf.transfers k = [] := by
    cases k with
    | backups => exact eq_nil_of_length_eq_zero hbackups
    | restores => exact eq_nil_of_length_eq_zero hrestores
  rw [hlist] at ht
  cases ht

end Waterdisco.Transfers
