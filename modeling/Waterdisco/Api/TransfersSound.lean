import Mathlib.Tactic.Tauto
import Waterdisco.Api.Transfers

/-!
# What every step of the transfers keeps

    no waiter for a request that is answered, an armed timer for one that is not   (Desk.At)
    file of an upload = its accepted chunks                                        (Upload)
    one worker for a transfer, and the transfer says so                            (Sound.own)

The files are shared with the workers, so a path belongs to one transfer and at most one
worker for good: neither an id nor a path is given twice.
-/

namespace Waterdisco.Transfers

open List Bool Shelf Desk
open Function (update update_of_ne update_self)

/-! ## Requests -/

namespace Desk

def answered (d : Desk) (request : Nat) : Nat := d.answers.countP fun a => a.1 == request

def Untouched (d : Desk) (request : Nat) : Prop := d.waiters request = none ∧ d.answered request = 0

/-- Answered once, or not yet and waiting with an armed timer. -/
def Settled (d : Desk) (request : Nat) : Prop :=
  match d.waiters request with
  | none => d.answered request = 1
  | some w => (w.done = true ∧ d.answered request = 1) ∨ (w.done = false ∧ w.deadline = true ∧ d.answered request = 0)

def At (d : Desk) (request : Nat) : Prop := if request < d.requests then d.Settled request else d.Untouched request

/-- The request that a handler is about to answer; the others are as they should be. -/
structure Open (d : Desk) (request : Nat) : Prop where
  asked : request < d.requests
  untouched : d.Untouched request
  others : ∀ r, r ≠ request → d.At r

variable {d : Desk} {request r : Nat} {x : Response}

theorem answered_append : (d.answers ++ [(request, x)]).countP (fun a => a.1 == r) =
    d.answered r + if request = r then 1 else 0 := by
  rw [countP_append, answered]
  by_cases h : request = r <;> simp [h]

theorem At.respond_other (h : d.At r) (hne : r ≠ request) : (d.respond request x).At r := by
  have hcount : (d.respond request x).answered r = d.answered r := by
    show (d.answers ++ [(request, x)]).countP _ = _
    rw [answered_append, if_neg (Ne.symm hne), add_zero]
  rw [At, Settled, Untouched, hcount]
  exact h

theorem Open.respond (h : d.Open request) : ∀ r, (d.respond request x).At r := by
  intro r
  by_cases hr : r = request
  · subst hr
    have hcount : (d.respond r x).answered r = 1 := by
      show (d.answers ++ [(r, x)]).countP _ = _
      rw [answered_append, if_pos rfl, h.untouched.2]
    rw [At, if_pos (show r < (d.respond r x).requests from h.asked), Settled]
    show match d.waiters r with | none => _ | some w => _
    rw [h.untouched.1]
    exact hcount
  · exact (h.others r hr).respond_other hr

theorem Open.makeWaiter (h : d.Open request) (timeoutMs : Nat) : ∀ r, (d.makeWaiter request timeoutMs x).At r := by
  intro r
  by_cases hr : r = request
  · subst hr
    rw [At, if_pos (show r < (d.makeWaiter r timeoutMs x).requests from h.asked), Settled]
    show match update d.waiters r _ r with | none => _ | some w => _
    rw [update_self]
    exact .inr ⟨rfl, rfl, h.untouched.2⟩
  · have hwaiters : (d.makeWaiter request timeoutMs x).waiters r = d.waiters r := update_of_ne hr _ _
    have hr' := h.others r hr
    rw [At, Settled, Untouched, hwaiters]
    exact hr'

theorem Open.hold (h : d.Open request) (options : WaitOptions) : ∀ r, (d.hold request options x).At r := by
  unfold Desk.hold
  split
  · exact h.makeWaiter _
  · exact h.respond

/-- An answer to another request than `r`, or to none. -/
theorem answer_other (hne : r ≠ request) :
    (d.answer request x).waiters r = d.waiters r ∧ (d.answer request x).answered r = d.answered r ∧
      (d.answer request x).requests = d.requests := by
  unfold answer
  cases d.waiters request with
  | none => exact ⟨rfl, rfl, rfl⟩
  | some w =>
    dsimp only
    split
    · exact ⟨rfl, rfl, rfl⟩
    refine ⟨update_of_ne hne _ _, ?_, rfl⟩
    show (d.answers ++ [(request, x)]).countP _ = _
    rw [answered_append, if_neg (Ne.symm hne), add_zero]

theorem answer_requests : (d.answer request x).requests = d.requests := by
  unfold answer
  cases d.waiters request with
  | none => rfl
  | some w => dsimp only; split <;> rfl

/-- **Once**: a waiter that is done is not answered again. -/
theorem At.answer (h : d.At r) : (d.answer request x).At r := by
  by_cases hr : r = request
  · subst hr
    unfold At at h ⊢
    rw [answer_requests]
    split at h
    · rename_i hasked
      rw [if_pos hasked]
      unfold Settled at h ⊢
      unfold answer
      cases hw : d.waiters r with
      | none =>
        rw [hw] at h
        dsimp only
        rw [hw]
        exact h
      | some w =>
        rw [hw] at h
        dsimp only at h ⊢
        by_cases hdone : w.done = true
        · rw [if_pos hdone, hw]
          exact h
        rw [if_neg hdone]
        dsimp only
        rw [update_self]
        have hzero : d.answered r = 0 := by
          rcases h with ⟨hd, -⟩ | ⟨-, -, hz⟩
          · exact absurd hd hdone
          · exact hz
        refine .inl ⟨rfl, ?_⟩
        show (d.answers ++ [(r, x)]).countP _ = _
        rw [answered_append, if_pos rfl, hzero]
    · rename_i hasked
      rw [if_neg hasked]
      unfold answer
      rw [h.1]
      exact h
  · obtain ⟨hwaiters, hcount, hrequests⟩ := answer_other (d := d) (x := x) hr
    rw [At, Settled, Untouched, hwaiters, hcount, hrequests]
    exact h

theorem Open.answer (h : d.Open request) (other : Nat) : (d.answer other x).Open request := by
  refine ⟨by rw [answer_requests]; exact h.asked, ?_, fun r hr => (h.others r hr).answer⟩
  by_cases hr : request = other
  · subst hr
    unfold Desk.answer
    rw [h.untouched.1]
    exact h.untouched
  · obtain ⟨hwaiters, hcount, -⟩ := answer_other (d := d) (x := x) hr
    rw [Untouched, hwaiters, hcount]
    exact h.untouched

theorem At.fail (h : d.At r) (waiter : Option Nat) : (d.fail waiter x).At r := by
  cases waiter with
  | none => exact h
  | some other => exact h.answer

theorem At.onTimeout (h : d.At r) : (d.onTimeout request).At r := by
  unfold Desk.onTimeout
  cases d.waiters request with
  | none => exact h
  | some w =>
    dsimp only
    split
    · exact h.answer
    · exact h

theorem open_next (h : ∀ r, d.At r) : ({ d with requests := d.requests + 1 } : Desk).Open d.requests := by
  have huntouched : d.Untouched d.requests := by
    have := h d.requests
    rwa [At, if_neg (lt_irrefl _)] at this
  refine ⟨Nat.lt_succ_self _, huntouched, fun r hr => ?_⟩
  have hr' := h r
  unfold At at hr' ⊢
  by_cases hlt : r < d.requests
  · rw [if_pos hlt] at hr'
    rw [if_pos (show r < d.requests + 1 by omega)]
    exact hr'
  rw [if_neg hlt] at hr'
  rw [if_neg (show ¬ r < d.requests + 1 by omega)]
  exact hr'

end Desk

/-! ## The log -/

/-- The accepted chunks of an upload, in order. -/
def chunksOf (id : Nat) : List Did → Bytes
  | [] => []
  | .chunk i bytes :: log => if i = id then chunksOf id log ++ bytes else chunksOf id log
  | .announced _ _ _ :: log => chunksOf id log
  | .inspected _ _ :: log => chunksOf id log
  | .checked _ _ _ :: log => chunksOf id log
  | .deleted _ :: log => chunksOf id log
  | .applied _ _ _ :: log => chunksOf id log

/-- The content check accepted the file; without profiles and routes it has nothing to read there. -/
def Checked (log : List Did) (id : Nat) (parts : Parts) (bytes : Bytes) : Prop :=
  .checked id parts (some bytes) ∈ log ∨ (.checked id parts none ∈ log ∧ parts.profiles = false ∧ parts.routes = false)

/-- What must have happened before `Apply` reads the file of a transfer. -/
structure MayApply (env : Env) (log : List Did) (id : Nat) (parts : Parts) (bytes : Option Bytes) : Prop where
  file : bytes = some (chunksOf id log)
  announced : ∃ raw, .announced id (chunksOf id log).length raw ∈ log ∧ env.sha256 (chunksOf id log) = raw.toLower
  inspected : .inspected id (chunksOf id log) ∈ log
  checked : Checked log id parts (chunksOf id log)
  listed : .deleted id ∉ log

/-- Every call of `Apply` was allowed by what had happened until then. -/
def Justified (env : Env) (log : List Did) : Prop :=
  ∀ later id parts bytes earlier, log = later ++ .applied id parts bytes :: earlier → MayApply env earlier id parts bytes

variable {log : List Did} {t : Transfer}

theorem Justified.cons {env : Env} {d : Did} (h : Justified env log)
    (hd : ∀ id parts bytes, d = .applied id parts bytes → MayApply env log id parts bytes) :
    Justified env (d :: log) := by
  intro later id parts bytes earlier heq
  cases later with
  | nil =>
    obtain ⟨rfl, rfl⟩ := cons.inj heq
    exact hd id parts bytes rfl
  | cons d' later => exact h later id parts bytes earlier (cons.inj heq).2

variable {id : Nat}

theorem Checked.mono {parts : Parts} {bytes : Bytes} (h : Checked log id parts bytes) (d : Did) :
    Checked (d :: log) id parts bytes :=
  h.imp (.tail _) fun h => ⟨mem_cons_of_mem _ h.1, h.2⟩

/-! ## The shelf -/

def Transfer.Receiving (t : Transfer) : Prop := t.working = false ∧ t.complete = false ∧ t.failure = ""

/-- An upload: its file holds the accepted chunks; once it stops receiving, all that was announced. -/
structure Upload (env : Env) (files : Path → Option Bytes) (log : List Did) (t : Transfer) : Prop where
  file : files t.path = some (chunksOf t.id log)
  received : (chunksOf t.id log).length = t.received
  bound : t.received ≤ t.size
  announced : ∃ raw, .announced t.id t.size raw ∈ log ∧ t.sha256 = raw.toLower
  fed : t.Receiving → t.hash = some (chunksOf t.id log)
  full : ¬ t.Receiving → t.received = t.size ∧ env.sha256 (chunksOf t.id log) = t.sha256
  whole : t.complete = true → .inspected t.id (chunksOf t.id log) ∈ log

/-- What the worker of a restore has found out about its transfer. -/
structure Knows (log : List Did) (w : Worker) (t : Transfer) : Prop where
  read : ∀ bytes held, w.stage = .reading bytes held → bytes = chunksOf t.id log
  inspected : ∀ failure info, w.stage = .closed (.inspected failure info) → inspectFailure failure info = "" →
    .inspected t.id (chunksOf t.id log) ∈ log
  check : ∀ a, w.job = .check a → a.id = w.id ∧ t.complete = true
  checked : ∀ a problem refused, w.job = .check a → w.stage = .closed (.checked problem refused) → problem = "" →
    Checked log t.id a.parts (chunksOf t.id log)

structure Sound (env : Env) (s : Shelf) : Prop where
  ids : ∀ k, ∀ t ∈ s.transfers k, t.id ≤ s.lastTransferId ∧ t.path.uuid < s.drawn
  one : ∀ k k' t t', t ∈ s.transfers k → t' ∈ s.transfers k' → t.id = t'.id ∨ t.path = t'.path → k = k' ∧ t = t'
  workerIds : ∀ w ∈ s.workers, w.id ≤ s.lastTransferId ∧ w.path.uuid < s.drawn
  apart : s.workers.Pairwise fun a b => a.id ≠ b.id ∧ a.path ≠ b.path
  own : ∀ w ∈ s.workers, ∀ k, ∀ t ∈ s.transfers k, t.id = w.id ∨ t.path = w.path →
    t.id = w.id ∧ t.path = w.path ∧ k = w.job.kind ∧ t.working = true
  uploads : ∀ t ∈ s.transfers .restores, Upload env s.files s.log t
  knows : ∀ w ∈ s.workers, ∀ t ∈ s.transfers .restores, t.id = w.id → Knows s.log w t
  stops : ∀ a ∈ s.stops, a.id ≤ s.lastTransferId ∧
    ∀ t ∈ s.transfers .restores, t.id = a.id → t.complete = true ∧ Checked s.log t.id a.parts (chunksOf t.id s.log)
  gone : ∀ id, .deleted id ∈ s.log → id ≤ s.lastTransferId ∧ ∀ k, ∀ t ∈ s.transfers k, t.id ≠ id
  fresh : ∀ id, s.lastTransferId < id → chunksOf id s.log = []
  justified : Justified env s.log
  stored : ∀ p bytes, s.files p = some bytes → p.uuid < s.drawn
  sweeping : ∀ k, s.transfers k ≠ [] → s.transferSweep = true

/-- A file belongs to a listed transfer, or to a worker whose report removes it. -/
def Tidy (s : Shelf) : Prop :=
  ∀ p bytes, s.files p = some bytes →
    (∃ k, ∃ t ∈ s.transfers k, t.path = p) ∨ ∃ w ∈ s.workers, w.path = p ∧ w.checks = false

namespace Shelf

variable {k k' : Kind} {t : Transfer}

theorem find_some {s : Shelf} (h : s.find k id = some t) : t ∈ s.transfers k ∧ t.id = id := by
  have hid := find?_some h
  exact ⟨mem_of_find?_eq_some h, by simpa using hid⟩

theorem find_none {s : Shelf} (h : s.find k id = none) : ∀ t ∈ s.transfers k, t.id ≠ id := by
  intro t ht heq
  have := find?_eq_none.mp h t ht
  simp [heq] at this

theorem setList_self (s : Shelf) (k : Kind) (l : List Transfer) : (s.setList k l).transfers k = l := update_self _ _ _

theorem setList_of_ne (s : Shelf) (h : k' ≠ k) (l : List Transfer) : (s.setList k l).transfers k' = s.transfers k' :=
  update_of_ne h _ _

/-- What a write to one transfer makes of any. -/
def edited (k : Kind) (id : Nat) (f : Transfer → Transfer) (k' : Kind) (t : Transfer) : Transfer :=
  if k' = k ∧ t.id = id then f t else t

theorem modify_transfers (s : Shelf) (k : Kind) (id : Nat) (f : Transfer → Transfer) (k' : Kind) :
    (s.modify k id f).transfers k' = (s.transfers k').map (edited k id f k') := by
  by_cases hk : k' = k
  · subst hk
    rw [modify, setList_self]
    refine map_congr_left fun t _ => ?_
    by_cases hid : t.id = id <;> simp [edited, hid]
  · rw [modify, setList_of_ne s hk]
    exact (map_id'' (fun t => by simp [edited, hk]) _).symm

theorem mem_drop_transfers {s : Shelf} {u : Transfer} :
    u ∈ (s.drop k t).transfers k' ↔ u ∈ s.transfers k' ∧ (k' = k → u.id ≠ t.id) := by
  have hlists : (s.drop k t).transfers = (s.setList k ((s.transfers k).filter fun u => u.id != t.id)).transfers := by
    unfold drop remove
    split <;> rfl
  rw [hlists]
  by_cases hk : k' = k
  · subst hk
    rw [setList_self, mem_filter]
    simp
  · rw [setList_of_ne s hk]
    simp [hk]

theorem drop_workers (s : Shelf) (k : Kind) (t : Transfer) : (s.drop k t).workers = s.workers := by
  unfold drop remove
  split <;> rfl

theorem mem_keep {s : Shelf} {u : Transfer} {now : Int} (hu : u ∈ (s.keep k t now).transfers k') :
    u ∈ s.transfers k' ∨ (k' = k ∧ u = { t with touchedAt := now }) := by
  by_cases hk : k' = k
  · subst hk
    have hlist : (s.keep k' t now).transfers k' = s.transfers k' ++ [{ t with touchedAt := now }] := s.setList_self k' _
    rw [hlist] at hu
    rcases mem_append.mp hu with hu | hu
    · exact .inl hu
    · exact .inr ⟨rfl, mem_singleton.mp hu⟩
  · have hlist : (s.keep k t now).transfers k' = s.transfers k' := s.setList_of_ne hk _
    rw [hlist] at hu
    exact .inl hu

theorem mem_keep_self (s : Shelf) (k : Kind) (t : Transfer) (now : Int) :
    { t with touchedAt := now } ∈ (s.keep k t now).transfers k := by
  have hlist : (s.keep k t now).transfers k = s.transfers k ++ [{ t with touchedAt := now }] := s.setList_self k _
  rw [hlist]
  exact mem_append_right _ (mem_singleton_self _)

theorem edited_keeps {f : Transfer → Transfer} {P : Transfer → Prop} (h : P t)
    (hf : k' = k → t.id = id → P (f t)) : P (edited k id f k' t) := by
  unfold edited
  split
  · rename_i heq
    exact hf heq.1 heq.2
  · exact h

theorem edited_same {α : Type} (g : Transfer → α) {f : Transfer → Transfer} (hf : ∀ t, g (f t) = g t)
    (t : Transfer) : g (edited k id f k' t) = g t := by
  unfold edited
  split
  · exact hf t
  · rfl

theorem remove_files (s : Shelf) (p q : Path) :
    (s.remove p).files q = if q = p ∧ s.heldOpen p = false then none else s.files q := by
  unfold remove
  by_cases hheld : s.heldOpen p = true
  · rw [if_pos hheld, if_neg (by simp [hheld])]
  rw [if_neg hheld]
  by_cases hq : q = p
  · subst hq
    simp [hheld]
  · rw [if_neg (by tauto)]
    exact update_of_ne hq _ _

end Shelf

/-- Nobody else has the id or the path of a transfer. -/
structure Shelf.Alone (s : Shelf) (k : Kind) (t : Transfer) : Prop where
  id_le : t.id ≤ s.lastTransferId
  only : ∀ k', ∀ u ∈ s.transfers k', u.id = t.id ∨ u.path = t.path → k' = k ∧ u = t

theorem Upload.note {env : Env} {files : Path → Option Bytes} (h : Upload env files log t)
    {d : Did} (hd : chunksOf t.id (d :: log) = chunksOf t.id log) : Upload env files (d :: log) t := by
  obtain ⟨raw, hraw, hsha⟩ := h.announced
  constructor
  · rw [hd]; exact h.file
  · rw [hd]; exact h.received
  · exact h.bound
  · exact ⟨raw, mem_cons_of_mem _ hraw, hsha⟩
  · rw [hd]; exact h.fed
  · rw [hd]; exact h.full
  · rw [hd]; exact fun hc => mem_cons_of_mem _ (h.whole hc)

theorem Upload.files {env : Env} {files files' : Path → Option Bytes}
    (h : Upload env files log t) (hfile : files' t.path = files t.path) : Upload env files' log t :=
  ⟨by rw [hfile]; exact h.file, h.received, h.bound, h.announced, h.fed, h.full, h.whole⟩

theorem Knows.note {w : Worker} (h : Knows log w t) {d : Did}
    (hd : chunksOf t.id (d :: log) = chunksOf t.id log) : Knows (d :: log) w t := by
  constructor
  · rw [hd]; exact h.read
  · rw [hd]; exact fun failure info hs hf => mem_cons_of_mem _ (h.inspected failure info hs hf)
  · exact h.check
  · rw [hd]; exact fun a problem refused hj hs hp => (h.checked a problem refused hj hs hp).mono d

namespace Sound

variable {env : Env} {s : Shelf} (h : Sound env s)
include h

theorem note {d : Did} (hquiet : ∀ id, chunksOf id (d :: s.log) = chunksOf id s.log)
    (happlied : ∀ id parts bytes, d = .applied id parts bytes → MayApply env s.log id parts bytes)
    (hdeleted : ∀ id, d = .deleted id → id ≤ s.lastTransferId ∧ ∀ k, ∀ t ∈ s.transfers k, t.id ≠ id) :
    Sound env (s.note d) := by
  refine { h with uploads := ?_, knows := ?_, stops := ?_, gone := ?_, fresh := ?_, justified := h.justified.cons happlied }
  · exact fun t ht => (h.uploads t ht).note (hquiet t.id)
  · exact fun w hw t ht hid => (h.knows w hw t ht hid).note (hquiet t.id)
  · intro a ha
    obtain ⟨hle, hall⟩ := h.stops a ha
    refine ⟨hle, fun t ht hid => ?_⟩
    obtain ⟨hcomplete, hchecked⟩ := hall t ht hid
    refine ⟨hcomplete, ?_⟩
    show Checked (d :: s.log) _ _ (chunksOf t.id (d :: s.log))
    rw [hquiet]
    exact hchecked.mono d
  · intro id hid
    rcases mem_cons.mp hid with hd | hd
    · exact hdeleted id hd.symm
    · exact h.gone id hd
  · intro id hid
    show chunksOf id (d :: s.log) = []
    rw [hquiet]
    exact h.fresh id hid

variable {k : Kind} {t : Transfer} {w : Worker}

theorem modify {f : Transfer → Transfer} (hid : ∀ t, (f t).id = t.id) (hpath : ∀ t, (f t).path = t.path)
    (hdone : ∀ t, t.complete = true → (f t).complete = true)
    (hwork : ∀ w ∈ s.workers, w.id = id → ∀ t, t.working = true → (f t).working = true)
    (hup : k = .restores → ∀ t ∈ s.transfers .restores, t.id = id → Upload env s.files s.log (f t)) :
    Sound env (s.modify k id f) := by
  have hmem : ∀ k' u, u ∈ (s.modify k id f).transfers k' → ∃ t ∈ s.transfers k', u = edited k id f k' t := by
    intro k' u hu
    rw [modify_transfers] at hu
    obtain ⟨t, ht, rfl⟩ := mem_map.mp hu
    exact ⟨t, ht, rfl⟩
  have heid : ∀ k' t, (edited k id f k' t).id = t.id := fun k' t => edited_same Transfer.id hid t
  have hepath : ∀ k' t, (edited k id f k' t).path = t.path := fun k' t => edited_same Transfer.path hpath t
  have hedone : ∀ k' t, t.complete = true → (edited k id f k' t).complete = true :=
    fun k' t hc => edited_keeps (P := fun t => t.complete = true) hc fun _ _ => hdone t hc
  refine { h with ids := ?_, one := ?_, own := ?_, uploads := ?_, knows := ?_, stops := ?_, gone := ?_, sweeping := ?_ }
  · intro k' u hu
    obtain ⟨t, ht, rfl⟩ := hmem k' u hu
    rw [heid, hepath]
    exact h.ids k' t ht
  · intro k₁ k₂ u u' hu hu' heq
    obtain ⟨t, ht, rfl⟩ := hmem k₁ u hu
    obtain ⟨t', ht', rfl⟩ := hmem k₂ u' hu'
    rw [heid, heid, hepath, hepath] at heq
    obtain ⟨rfl, rfl⟩ := h.one k₁ k₂ t t' ht ht' heq
    exact ⟨rfl, rfl⟩
  · intro w hw k' u hu heq
    obtain ⟨t, ht, rfl⟩ := hmem k' u hu
    rw [heid, hepath] at heq ⊢
    obtain ⟨hwid, hwpath, hkind, hworking⟩ := h.own w hw k' t ht heq
    refine ⟨hwid, hwpath, hkind, ?_⟩
    exact edited_keeps (P := fun t => t.working = true) hworking
      fun _ hti => hwork w hw (hwid.symm.trans hti) t hworking
  · intro u hu
    obtain ⟨t, ht, rfl⟩ := hmem .restores u hu
    exact edited_keeps (h.uploads t ht) fun hk hti => hup hk.symm t ht hti
  · intro w hw u hu heq
    obtain ⟨t, ht, rfl⟩ := hmem .restores u hu
    rw [heid] at heq
    have hk := h.knows w hw t ht heq
    refine ⟨?_, ?_, fun a ha => ⟨(hk.check a ha).1, hedone _ t (hk.check a ha).2⟩, ?_⟩ <;> rw [heid]
    · exact hk.read
    · exact hk.inspected
    · exact hk.checked
  · intro a ha
    obtain ⟨hle, hall⟩ := h.stops a ha
    refine ⟨hle, fun u hu heq => ?_⟩
    obtain ⟨t, ht, rfl⟩ := hmem .restores u hu
    rw [heid] at heq ⊢
    exact ⟨hedone _ t (hall t ht heq).1, (hall t ht heq).2⟩
  · intro i hi
    refine ⟨(h.gone i hi).1, fun k' u hu => ?_⟩
    obtain ⟨t, ht, rfl⟩ := hmem k' u hu
    rw [heid]
    exact (h.gone i hi).2 k' t ht
  · intro k' hne
    refine h.sweeping k' fun hnil => hne ?_
    rw [modify_transfers, hnil]
    rfl

omit h in
theorem mem_setList_filter {k' : Kind} {p : Transfer → Bool}
    (ht : t ∈ (s.setList k ((s.transfers k).filter p)).transfers k') : t ∈ s.transfers k' ∧ (k' = k → p t = true) := by
  by_cases hk : k' = k
  · subst hk
    rw [setList_self, mem_filter] at ht
    exact ⟨ht.1, fun _ => ht.2⟩
  · rw [setList_of_ne s hk] at ht
    exact ⟨ht, fun heq => absurd heq hk⟩

theorem shrink (k : Kind) (p : Transfer → Bool) : Sound env (s.setList k ((s.transfers k).filter p)) := by
  have hsub : ∀ k' t, t ∈ (s.setList k ((s.transfers k).filter p)).transfers k' → t ∈ s.transfers k' :=
    fun k' t ht => (mem_setList_filter ht).1
  refine { h with ids := ?_, one := ?_, own := ?_, uploads := ?_, knows := ?_, stops := ?_, gone := ?_, sweeping := ?_ }
  · exact fun k' t ht => h.ids k' t (hsub k' t ht)
  · exact fun k₁ k₂ t t' ht ht' => h.one k₁ k₂ t t' (hsub _ _ ht) (hsub _ _ ht')
  · exact fun w hw k' t ht => h.own w hw k' t (hsub _ _ ht)
  · exact fun t ht => h.uploads t (hsub _ _ ht)
  · exact fun w hw t ht => h.knows w hw t (hsub _ _ ht)
  · exact fun a ha => ⟨(h.stops a ha).1, fun t ht => (h.stops a ha).2 t (hsub _ _ ht)⟩
  · exact fun id hid => ⟨(h.gone id hid).1, fun k' t ht => (h.gone id hid).2 k' t (hsub _ _ ht)⟩
  · intro k' hne
    obtain ⟨t, ht⟩ := exists_mem_of_ne_nil _ hne
    exact h.sweeping k' (ne_nil_of_mem (hsub k' t ht))

/-- A file that no listed upload has changes. -/
theorem withFiles {files : Path → Option Bytes} (hup : ∀ t ∈ s.transfers .restores, files t.path = s.files t.path)
    (hstored : ∀ p bytes, files p = some bytes → p.uuid < s.drawn) : Sound env { s with files := files } :=
  { h with uploads := fun t ht => (h.uploads t ht).files (hup t ht), stored := hstored }

theorem remove {p : Path} (hp : ∀ t ∈ s.transfers .restores, t.path ≠ p) : Sound env (s.remove p) := by
  unfold Shelf.remove
  split
  · exact h
  refine h.withFiles (fun t ht => update_of_ne (hp t ht) _ _) fun q bytes hq => ?_
  by_cases hqp : q = p
  · subst hqp
    rw [update_self] at hq
    cases hq
  · rw [update_of_ne hqp] at hq
    exact h.stored q bytes hq

/-- A listed transfer shares its id and its path with no other. -/
theorem alone (ht : t ∈ s.transfers k) : s.Alone k t :=
  ⟨(h.ids k t ht).1, fun k' u hu heq => h.one k' k u t hu ht heq⟩

theorem drop (ht : s.Alone k t) : Sound env (s.drop k t) := by
  have hother : ∀ k' u, u ∈ (s.setList k ((s.transfers k).filter fun u => u.id != t.id)).transfers k' → u.id ≠ t.id ∧ u.path ≠ t.path := by
    intro k' u hu
    obtain ⟨hu, hne⟩ := mem_setList_filter hu
    by_contra hcon
    obtain ⟨rfl, rfl⟩ := ht.only k' u hu (by tauto)
    simpa using hne rfl
  refine ((h.shrink k fun u => u.id != t.id).note (fun _ => rfl) (fun _ _ _ heq => by cases heq) ?_).remove ?_
  · intro id heq
    obtain rfl := Did.deleted.inj heq
    exact ⟨ht.id_le, fun k' u hu => (hother k' u hu).1⟩
  · exact fun u hu => (hother .restores u hu).2

theorem fewer {workers : List Worker} (hsub : workers.Sublist s.workers) : Sound env { s with workers := workers } :=
  { h with
    workerIds := fun w hw => h.workerIds w (hsub.subset hw)
    apart := h.apart.sublist hsub
    own := fun w hw => h.own w (hsub.subset hw)
    knows := fun w hw => h.knows w (hsub.subset hw) }

/-- Nobody else works on the transfer of a worker. -/
theorem retired {k : Nat} (hw : s.workers[k]? = some w) : ∀ v ∈ (s.retire k).workers, v.id ≠ w.id ∧ v.path ≠ w.path := by
  intro v hv
  obtain ⟨i, hik, hi⟩ := mem_eraseIdx_iff_getElem?.mp hv
  have hpair := pairwise_iff_getElem.mp h.apart
  obtain ⟨hilen, hi'⟩ := List.getElem?_eq_some_iff.mp hi
  obtain ⟨hklen, hk'⟩ := List.getElem?_eq_some_iff.mp hw
  rcases lt_or_gt_of_ne hik with hlt | hgt
  · have := hpair i k hilen hklen hlt
    rwa [hi', hk'] at this
  have := hpair k i hklen hilen hgt
  rw [hi', hk'] at this
  exact ⟨this.1.symm, this.2.symm⟩

theorem retire (k : Nat) : Sound env (s.retire k) := h.fewer (eraseIdx_sublist ..)

theorem runOnNewThread (hid : w.id ≤ s.lastTransferId ∧ w.path.uuid < s.drawn)
    (hnew : ∀ v ∈ s.workers, v.id ≠ w.id ∧ v.path ≠ w.path)
    (hown : ∀ k, ∀ t ∈ s.transfers k, t.id = w.id ∨ t.path = w.path →
      t.id = w.id ∧ t.path = w.path ∧ k = w.job.kind ∧ t.working = true)
    (hknows : ∀ t ∈ s.transfers .restores, t.id = w.id → Knows s.log w t) : Sound env (s.runOnNewThread w) := by
  have hmem : ∀ v ∈ (s.runOnNewThread w).workers, v ∈ s.workers ∨ v = w := fun v hv => by
    rcases mem_append.mp hv with hv | hv
    · exact .inl hv
    · exact .inr (mem_singleton.mp hv)
  refine { h with workerIds := ?_, apart := ?_, own := ?_, knows := ?_ }
  · intro v hv
    rcases hmem v hv with hv | rfl
    · exact h.workerIds v hv
    · exact hid
  · refine pairwise_append.mpr ⟨h.apart, pairwise_singleton _ _, fun v hv u hu => ?_⟩
    obtain rfl := mem_singleton.mp hu
    exact hnew v hv
  · intro v hv
    rcases hmem v hv with hv | rfl
    · exact h.own v hv
    · exact hown
  · intro v hv
    rcases hmem v hv with hv | rfl
    · exact h.knows v hv
    · exact hknows

theorem setStage {k : Nat} (hw : s.workers[k]? = some w) {stage : Stage}
    (hknows : ∀ t ∈ s.transfers .restores, t.id = w.id → Knows s.log { w with stage := stage } t) :
    Sound env (s.setStage k w stage) := by
  have hin : w ∈ s.workers := mem_of_getElem? hw
  have hmem : ∀ v ∈ (s.setStage k w stage).workers, v ∈ s.workers ∨ v = { w with stage := stage } :=
    fun v hv => mem_or_eq_of_mem_set hv
  refine { h with workerIds := ?_, apart := ?_, own := ?_, knows := ?_ }
  · intro v hv
    rcases hmem v hv with hv | rfl
    · exact h.workerIds v hv
    · exact h.workerIds w hin
  · have hmap : (s.workers.set k { w with stage := stage }).map (fun v => (v.id, v.path)) =
      s.workers.map fun v => (v.id, v.path) := by
      rw [map_set]
      refine ext_getElem? fun i => ?_
      rw [getElem?_set]
      split
      · rename_i hki
        subst hki
        rw [getElem?_map, hw]
        split
        · rfl
        rename_i hlen
        rw [length_map] at hlen
        exact absurd (List.getElem?_eq_some_iff.mp hw).1 hlen
      · rfl
    have hpairs := pairwise_map (f := fun v : Worker => (v.id, v.path)) (R := fun a b => a.1 ≠ b.1 ∧
      a.2 ≠ b.2) |>.mpr h.apart
    rw [← hmap] at hpairs
    exact pairwise_map.mp hpairs
  · intro v hv
    rcases hmem v hv with hv | rfl
    · exact h.own v hv
    · exact h.own w hin
  · intro v hv
    rcases hmem v hv with hv | rfl
    · exact h.knows v hv
    · exact hknows

theorem keep {now : Int} (hid : t.id = s.lastTransferId) (hpath : t.path.uuid < s.drawn)
    (hnew : ∀ k, ∀ u ∈ s.transfers k, u.id ≠ t.id ∧ u.path ≠ t.path)
    (hworkers : ∀ w ∈ s.workers, t.id ≠ w.id ∧ t.path ≠ w.path)
    (hstops : ∀ a ∈ s.stops, t.id ≠ a.id) (hgone : .deleted t.id ∉ s.log)
    (hup : k = .restores → Upload env s.files s.log { t with touchedAt := now }) : Sound env (s.keep k t now) := by
  have hmem : ∀ k', ∀ u ∈ (s.keep k t now).transfers k', u ∈ s.transfers k' ∨
    (k' = k ∧ u = { t with touchedAt := now }) :=
    fun _ _ hu => mem_keep hu
  refine { h with ids := ?_, one := ?_, own := ?_, uploads := ?_, knows := ?_, stops := ?_, gone := ?_, sweeping := fun _ _ => rfl }
  · intro k' u hu
    rcases hmem k' u hu with hu | ⟨-, rfl⟩
    · exact h.ids k' u hu
    · exact ⟨le_of_eq hid, hpath⟩
  · intro k₁ k₂ u u' hu hu' heq
    rcases hmem k₁ u hu with hold | ⟨rfl, rfl⟩ <;> rcases hmem k₂ u' hu' with hold' | ⟨rfl, rfl⟩
    · exact h.one k₁ k₂ u u' hold hold' heq
    · exact absurd heq (not_or.mpr (hnew k₁ u hold))
    · exact absurd heq (not_or.mpr ⟨(hnew k₂ u' hold').1.symm, (hnew k₂ u' hold').2.symm⟩)
    · exact ⟨rfl, rfl⟩
  · intro w hw k' u hu heq
    rcases hmem k' u hu with hu | ⟨-, rfl⟩
    · exact h.own w hw k' u hu heq
    · exact absurd heq (not_or.mpr (hworkers w hw))
  · intro u hu
    rcases hmem .restores u hu with hu | ⟨hk, rfl⟩
    · exact h.uploads u hu
    · exact hup hk.symm
  · intro w hw u hu heq
    rcases hmem .restores u hu with hu | ⟨-, rfl⟩
    · exact h.knows w hw u hu heq
    · exact absurd heq (hworkers w hw).1
  · intro a ha
    refine ⟨(h.stops a ha).1, fun u hu heq => ?_⟩
    rcases hmem .restores u hu with hu | ⟨-, rfl⟩
    · exact (h.stops a ha).2 u hu heq
    · exact absurd heq (hstops a ha)
  · intro id hdel
    refine ⟨(h.gone id hdel).1, fun k' u hu => ?_⟩
    rcases hmem k' u hu with hu | ⟨-, rfl⟩
    · exact (h.gone id hdel).2 k' u hu
    · rintro rfl
      exact hgone hdel

theorem nextTransfer : Sound env s.nextTransfer :=
  { h with
    ids := fun k t ht => ⟨Nat.le_succ_of_le (h.ids k t ht).1, (h.ids k t ht).2⟩
    workerIds := fun w hw => ⟨Nat.le_succ_of_le (h.workerIds w hw).1, (h.workerIds w hw).2⟩
    stops := fun a ha => ⟨Nat.le_succ_of_le (h.stops a ha).1, (h.stops a ha).2⟩
    gone := fun id hid => ⟨Nat.le_succ_of_le (h.gone id hid).1, (h.gone id hid).2⟩
    fresh := fun id hid => h.fresh id (Nat.lt_of_succ_lt hid) }

theorem drawPath : Sound env s.drawPath :=
  { h with
    ids := fun k t ht => ⟨(h.ids k t ht).1, Nat.lt_succ_of_lt (h.ids k t ht).2⟩
    workerIds := fun w hw => ⟨(h.workerIds w hw).1, Nat.lt_succ_of_lt (h.workerIds w hw).2⟩
    stored := fun p bytes hp => Nat.lt_succ_of_lt (h.stored p bytes hp) }

end Sound

/-! ## Files that nobody lists -/

namespace Tidy

variable {s : Shelf} (h : Tidy s)
include h

theorem modify {k : Kind} {f : Transfer → Transfer} (hpath : ∀ t, (f t).path = t.path) : Tidy (s.modify k id f) := by
  intro p bytes hp
  refine (h p bytes hp).imp_left ?_
  rintro ⟨k', t, ht, hpt⟩
  refine ⟨k', edited k id f k' t, ?_, by rw [edited_same Transfer.path hpath]; exact hpt⟩
  rw [modify_transfers]
  exact mem_map_of_mem ht

theorem withWorkers {workers : List Worker} (hw : ∀ w ∈ s.workers, w.checks = false → ∃ v ∈ workers,
      v.path = w.path ∧ v.checks = false) :
    Tidy { s with workers := workers } := by
  intro p bytes hp
  refine (h p bytes hp).imp_right ?_
  rintro ⟨w, hin, hpath, hchecks⟩
  obtain ⟨v, hv, hvpath, hvchecks⟩ := hw w hin hchecks
  exact ⟨v, hv, hvpath.trans hpath, hvchecks⟩

variable {k : Nat} {w : Worker}

theorem setStage (hw : s.workers[k]? = some w) (stage : Stage) : Tidy (s.setStage k w stage) := by
  refine h.withWorkers fun v hv hchecks => ?_
  obtain ⟨i, hi⟩ := getElem?_of_mem hv
  by_cases hki : k = i
  · subst hki
    obtain rfl := Option.some.inj (hw.symm.trans hi)
    exact ⟨{ w with stage := stage }, List.mem_set (List.getElem?_eq_some_iff.mp hw).1 _, rfl, hchecks⟩
  · exact ⟨v, mem_of_getElem? ((getElem?_set_ne hki).trans hi), rfl, hchecks⟩

theorem runOnNewThread (w : Worker) : Tidy (s.runOnNewThread w) :=
  h.withWorkers fun v hv hchecks => ⟨v, mem_append_left _ hv, rfl, hchecks⟩

theorem keep (k : Kind) (t : Transfer) (now : Int) : Tidy (s.keep k t now) := by
  intro p bytes hp
  refine (h p bytes hp).imp_left ?_
  rintro ⟨k', u, hu, hpath⟩
  refine ⟨k', u, ?_, hpath⟩
  by_cases hk : k' = k
  · subst hk
    show u ∈ (s.setList k' _).transfers k'
    rw [setList_self]
    exact mem_append_left _ hu
  · show u ∈ (s.setList k _).transfers k'
    rwa [setList_of_ne s hk]

theorem write {path : Path} {bytes : Bytes}
    (hpath : (∃ k, ∃ t ∈ s.transfers k, t.path = path) ∨ ∃ w ∈ s.workers, w.path = path ∧ w.checks = false) :
    Tidy (s.write path bytes) := by
  intro p b hp
  by_cases heq : p = path
  · subst heq
    exact hpath
  · exact h p b ((update_of_ne heq _ _).symm.trans hp)

/-- **A dropped transfer leaves no file**, unless its content check is reading it. -/
theorem drop {k : Kind} {t : Transfer} (ht : s.Alone k t)
    (hspared : ∀ w ∈ s.workers, w.path = t.path → w.reads = true → w.checks = false) : Tidy (s.drop k t) := by
  intro p bytes hp
  rw [Shelf.drop, Shelf.remove_files] at hp
  split at hp
  · cases hp
  rename_i hheld
  have hworkers := s.drop_workers k t
  by_cases hpath : p = t.path
  · have hopen : s.heldOpen t.path = true := by
      by_contra hclosed
      exact hheld ⟨hpath, eq_false_iff.mpr hclosed⟩
    obtain ⟨w, hw, hreads⟩ := any_eq_true.mp hopen
    simp only [and_eq_true, decide_eq_true_eq] at hreads
    exact .inr ⟨w, hworkers ▸ hw, hreads.1.trans hpath.symm, hspared w hw hreads.1 hreads.2⟩
  · rcases h p bytes hp with ⟨k', u, hu, hup⟩ | ⟨w, hw, hcover⟩
    · refine .inl ⟨k', u, mem_drop_transfers.mpr ⟨hu, fun hk hid => ?_⟩, hup⟩
      obtain ⟨-, rfl⟩ := ht.only k' u hu (.inl hid)
      exact hpath hup.symm
    · exact .inr ⟨w, hworkers ▸ hw, hcover⟩

omit h in
theorem mem_retire {s : Shelf} {v : Worker} (hw : s.workers[k]? = some w) (hv : v ∈ s.workers) (hne : v ≠ w) :
    v ∈ (s.retire k).workers := by
  obtain ⟨i, hi⟩ := getElem?_of_mem hv
  refine mem_eraseIdx_iff_getElem?.mpr ⟨i, fun hik => hne ?_, hi⟩
  subst hik
  exact Option.some.inj (hi.symm.trans hw)

theorem retire (hw : s.workers[k]? = some w)
    (hlisted : w.checks = true ∨ ∃ k, ∃ t ∈ s.transfers k, t.path = w.path) : Tidy (s.retire k) := by
  intro p bytes hp
  rcases h p bytes hp with hcover | ⟨v, hv, hvp, hchecks⟩
  · exact .inl hcover
  by_cases hvw : v = w
  · subst hvw
    rcases hlisted with hc | ⟨k', t, ht, htp⟩
    · exact absurd (hc.symm.trans hchecks) (by decide)
    · exact .inl ⟨k', t, ht, htp.trans hvp⟩
  · exact .inr ⟨v, mem_retire hw hv hvw, hvp, hchecks⟩

/-- A report whose transfer is gone removes the file. -/
theorem retire_remove {env : Env} (hs : Sound env s) (hw : s.workers[k]? = some w) :
    Tidy ((s.retire k).remove w.path) := by
  intro p bytes hp
  rw [remove_files] at hp
  have hclosed : (s.retire k).heldOpen w.path = false := by
    refine eq_false_iff.mpr fun hopen => ?_
    obtain ⟨v, hv, hreads⟩ := any_eq_true.mp hopen
    simp only [and_eq_true, decide_eq_true_eq] at hreads
    exact (hs.retired hw v hv).2 hreads.1
  split at hp
  · cases hp
  rename_i hne
  have hpw : p ≠ w.path := fun heq => hne ⟨heq, hclosed⟩
  have hworkers : ((s.retire k).remove w.path).workers = (s.retire k).workers ∧
      ((s.retire k).remove w.path).transfers = s.transfers := by
    unfold remove
    split <;> exact ⟨rfl, rfl⟩
  rcases h p bytes hp with ⟨k', t, ht, htp⟩ | ⟨v, hv, hvp, hchecks⟩
  · exact .inl ⟨k', t, hworkers.2 ▸ ht, htp⟩
  refine .inr ⟨v, hworkers.1 ▸ mem_retire hw hv ?_, hvp, hchecks⟩
  rintro rfl
  exact hpw hvp.symm

end Tidy

end Waterdisco.Transfers
