import Waterdisco.Lib.Runs
import Waterdisco.WebDav.Index

/-!
# Devices that share a folder

A write that is accepted was computed from the list as it stands, and from a listing of
the folder that is younger than the last write (`PhaseOk`).  So an entry is dropped only
when its file is gone, and an entry of a deleted file is left only while the update of
someone else is still to come (`Inv.left`).

    steps that meet `Assumed` and `Meets` keep `Inv`              (Inv.step)
    once everything has returned the list is right                (run_listed)
    an upload enters its file although it was deleted meanwhile   (deleted_meanwhile)
-/

namespace Waterdisco.WebDav

open Option Cloud

/-! ## Invariant -/

inductive Progress where
  | waiting
  | updating
  | ended

/-- Before its change to the folder, between that and its write of the list, or after. -/
def Phase.progress : Phase → Progress
  | .file | .failed => .waiting
  | .fetch _ | .list _ _ | .write _ _ _ | .warned => .updating
  | .ended => .ended

namespace Cloud

/-- An operation of this kind has come this far. -/
def Has (s : Cloud) (kind : Kind) (progress : Progress) : Prop :=
  ∃ k op, s.ops k = some op ∧ op.kind = kind ∧ op.phase.progress = progress

/-- A `DELETE` of the file was carried out. -/
def Deleted (s : Cloud) (file : String) : Prop := s.Has (.delete file) .updating ∨ s.Has (.delete file) .ended

/-- The update of some operation is still to come, or failed with a warning. -/
def Updating (s : Cloud) : Prop := ∃ k op, s.ops k = some op ∧ op.phase.progress = .updating

/-- What was fetched is what the server has. -/
def Current (s : Cloud) (fetched : Fetched) : Prop := fetched.etag = s.index.map (fun _ => s.version)

/-- What was fetched is older than the list, or is the list. -/
structure Known (s : Cloud) (fetched : Fetched) : Prop where
  older : ∀ v, fetched.etag = some v → v ≤ s.version
  same : s.Current fetched → fetched.index = s.index.getD {}

/-- A listing of the folder that no write of the list has come after. -/
structure Listing (s : Cloud) (present : Finset String) : Prop where
  listed : ∀ entry, s.Has (.upload entry) .ended → entry.file ∈ s.files → entry.file ∈ present
  gone : ∀ name ∈ present, name ∉ s.files → s.Has (.delete name) .updating
  room : present.card < kWebDavIndexMaxEntries

def PhaseOk (s : Cloud) : Phase → Prop
  | .list _ fetched => s.Known fetched
  | .write _ fetched present => s.Known fetched ∧ (s.Current fetched → s.Listing present)
  | _ => True

end Cloud

structure Inv (s : Cloud) : Prop where
  format : (s.index.getD {}).format ≤ kWebDavIndexFormat
  phase : ∀ k op, s.ops k = some op → s.PhaseOk op.phase
  /-- The names of uploads differ. -/
  names : ∀ k k' op op' entry entry', s.ops k = some op → s.ops k' = some op' → op.kind = .upload entry →
    op'.kind = .upload entry' → op.phase.progress ≠ .waiting → op'.phase.progress ≠ .waiting →
      entry.file = entry'.file → k = k'
  deleted : ∀ name, s.Deleted name → name ∉ s.files
  uploaded : ∀ k op entry, s.ops k = some op → op.kind = .upload entry → op.phase.progress ≠ .waiting →
    entry.file ∈ s.files ∨ s.Deleted entry.file
  entered : ∀ entry, s.Has (.upload entry) .ended → entry.file ∈ s.files → s.entries entry.file = [entry]
  left : ∀ name, s.Deleted name → s.entries name ≠ [] → s.Updating

/-! ## Conditions -/

/-- What is assumed of a run: fewer backups than the list has room for, and no fourth conflict. -/
def Assumed (s : Cloud) : Event → Prop
  | .request k => ∀ op, s.ops k = some op →
    match op.phase with
    | .list _ _ => s.files.card < kWebDavIndexMaxEntries
    | .write round fetched _ => kWebDavIndexRounds ≤ round → s.Current fetched
    | _ => True
  | _ => True

/-- An upload puts a file whose name no other operation has used, and enters it while the
file is there or the update of another operation is still to come. -/
def Meets (s : Cloud) : Event → Prop
  | .request k => ∀ op entry, s.ops k = some op → op.kind = .upload entry →
    match op.phase with
    | .file => ∀ k' op', s.ops k' = some op' → op'.phase.progress ≠ .waiting → op'.kind.file ≠ entry.file
    | .write round fetched _ => s.accepts (condition round fetched) = true →
      entry.file ∈ s.files ∨ ∃ k' op', k' ≠ k ∧ s.ops k' = some op' ∧ op'.phase.progress = .updating
    | _ => True
  | _ => True

/-! ## Operations that come no further -/

section
variable {s : Cloud} {k : Nat} {op : Op}

@[simp] theorem setOp_self (s : Cloud) (k : Nat) (op : Op) : (s.setOp k op).ops k = some op := by
  simp [setOp]

theorem setOp_ne (s : Cloud) {j k : Nat} (op : Op) (h : j ≠ k) : (s.setOp k op).ops j = s.ops j := by
  simp [setOp, h]

variable {s' : Cloud}

/-- The operations of a state, one of which has changed. -/
theorem setOp_cases {new : Op} (hs : s'.ops = (s.setOp k new).ops) {j : Nat} {x : Op} (hx : s'.ops j = some x) :
    (j = k ∧ x = new) ∨ (j ≠ k ∧ s.ops j = some x) := by
  rw [hs] at hx
  by_cases heq : j = k
  · rw [heq, setOp_self] at hx
    cases hx
    exact .inl ⟨heq, rfl⟩
  · rw [setOp_ne s new heq] at hx
    exact .inr ⟨heq, hx⟩

/-- The same operations have changed the folder, and have come as far. -/
def SameProgress (s s' : Cloud) : Prop :=
  ∀ j x', s'.ops j = some x' → x'.phase.progress ≠ .waiting →
    ∃ x, s.ops j = some x ∧ x.kind = x'.kind ∧ x.phase.progress = x'.phase.progress

theorem SameProgress.has (h : SameProgress s s') {kind : Kind} {p : Progress} (hp : p ≠ .waiting)
    (hhas : s'.Has kind p) : s.Has kind p := by
  obtain ⟨j, x', hx', hkind, hpr⟩ := hhas
  obtain ⟨x, hx, hk, hsame⟩ := h j x' hx' (by rwa [hpr])
  exact ⟨j, x, hx, hk.trans hkind, hsame.trans hpr⟩

theorem SameProgress.deleted (h : SameProgress s s') {name : String} (hd : s'.Deleted name) : s.Deleted name :=
  hd.imp (h.has (by simp)) (h.has (by simp))

theorem SameProgress.updating (h : SameProgress s s') (hu : s'.Updating) : s.Updating := by
  obtain ⟨j, x', hx', hp⟩ := hu
  obtain ⟨x, hx, _, hpr⟩ := h j x' hx' (by simp [hp])
  exact ⟨j, x, hx, hpr.trans hp⟩

theorem sameProgress_setOp {phase : Phase} (hk : s.ops k = some op) (hp : phase.progress = op.phase.progress) :
    SameProgress s (s.setOp k { op with phase := phase }) ∧ SameProgress (s.setOp k { op with phase := phase }) s := by
  refine ⟨?_, ?_⟩
  · intro j x' hx' _
    rcases setOp_cases rfl hx' with ⟨rfl, rfl⟩ | ⟨_, hx⟩
    · exact ⟨op, hk, rfl, hp.symm⟩
    · exact ⟨x', hx, rfl, rfl⟩
  · intro j x hx _
    by_cases heq : j = k
    · subst heq
      rw [hk] at hx
      cases hx
      exact ⟨_, setOp_self s j _, rfl, hp⟩
    · exact ⟨x, by rw [setOp_ne s _ heq]; exact hx, rfl, rfl⟩

theorem sameProgress_start (hk : s.ops k = none) (kind : Kind) :
    SameProgress s (s.setOp k { kind := kind }) ∧ SameProgress (s.setOp k { kind := kind }) s := by
  refine ⟨?_, ?_⟩
  · intro j x' hx' hp
    rcases setOp_cases rfl hx' with ⟨rfl, rfl⟩ | ⟨_, hx⟩
    · exact absurd rfl hp
    · exact ⟨x', hx, rfl, rfl⟩
  · intro j x hx _
    have heq : j ≠ k := by
      rintro rfl
      rw [hk] at hx
      cases hx
    exact ⟨x, by rw [setOp_ne s _ heq]; exact hx, rfl, rfl⟩

theorem phaseOk_of_listing (hindex : s'.index = s.index) (hversion : s'.version = s.version)
    (hlisting : ∀ present, s.Listing present → s'.Listing present) {phase : Phase} (hok : s.PhaseOk phase) :
    s'.PhaseOk phase := by
  have hknown (f : Fetched) (hf : s.Known f) : s'.Known f := by
    refine ⟨?_, ?_⟩
    · rw [hversion]
      exact hf.older
    · rw [Current, hindex, hversion]
      exact hf.same
  cases phase with
  | list round fetched => exact hknown fetched hok
  | write round fetched present =>
    refine ⟨hknown fetched hok.1, ?_⟩
    intro hcur
    rw [Current, hindex, hversion] at hcur
    exact hlisting present (hok.2 hcur)
  | _ => trivial

/-- Only the phases within the same progress have changed. -/
theorem Inv.congr (h : Inv s) (hfiles : s'.files = s.files) (hindex : s'.index = s.index)
    (hversion : s'.version = s.version) (hsame : SameProgress s s') (hsame' : SameProgress s' s)
    (hphase : ∀ j x', s'.ops j = some x' → s.PhaseOk x'.phase) : Inv s' := by
  refine ⟨by rw [hindex]; exact h.format, ?_, ?_, ?_, ?_, ?_, ?_⟩
  · intro j x' hx'
    refine phaseOk_of_listing hindex hversion ?_ (hphase j x' hx')
    intro present hlisting
    refine ⟨?_, ?_, hlisting.room⟩
    · intro entry hhas hfile
      rw [hfiles] at hfile
      exact hlisting.listed entry (hsame.has (by simp) hhas) hfile
    · intro name hname hfile
      rw [hfiles] at hfile
      exact hsame'.has (by simp) (hlisting.gone name hname hfile)
  · intro j j' x x' entry entry' hx hx' hkind hkind' hpr hpr' hname
    obtain ⟨y, hy, hyk, hyp⟩ := hsame j x hx hpr
    obtain ⟨y', hy', hyk', hyp'⟩ := hsame j' x' hx' hpr'
    exact h.names j j' y y' entry entry' hy hy' (hyk.trans hkind) (hyk'.trans hkind') (by rwa [hyp]) (by rwa [hyp']) hname
  · intro name hname
    rw [hfiles]
    exact h.deleted name (hsame.deleted hname)
  · intro j x entry hx hkind hpr
    obtain ⟨y, hy, hyk, hyp⟩ := hsame j x hx hpr
    rw [hfiles]
    exact (h.uploaded j y entry hy (hyk.trans hkind) (by rwa [hyp])).imp id hsame'.deleted
  · intro entry hhas hfile
    rw [hfiles] at hfile
    rw [entries, hindex]
    exact h.entered entry (hsame.has (by simp) hhas) hfile
  · intro name hname hentries
    rw [entries, hindex] at hentries
    exact hsame'.updating (h.left name (hsame.deleted hname) hentries)

/-- An operation that comes no further than it was. -/
theorem Inv.move (h : Inv s) (hk : s.ops k = some op) {phase : Phase} (hp : phase.progress = op.phase.progress)
    (hok : s.PhaseOk phase) : Inv (s.setOp k { op with phase := phase }) := by
  obtain ⟨hsame, hsame'⟩ := sameProgress_setOp hk hp
  refine h.congr rfl rfl rfl hsame hsame' ?_
  intro j x' hx'
  rcases setOp_cases rfl hx' with ⟨_, rfl⟩ | ⟨_, hx⟩
  · exact hok
  · exact h.phase j x' hx

theorem Inv.start (h : Inv s) (hk : s.ops k = none) (kind : Kind) : Inv (s.setOp k { kind := kind }) := by
  obtain ⟨hsame, hsame'⟩ := sameProgress_start hk kind
  refine h.congr rfl rfl rfl hsame hsame' ?_
  intro j x' hx'
  rcases setOp_cases rfl hx' with ⟨_, rfl⟩ | ⟨_, hx⟩
  · trivial
  · exact h.phase j x' hx

/-! ## The folder changes -/

section
variable {s' : Cloud}

/-- An operation whose change to the folder is made. -/
theorem has_updating (hk : s.ops k = some op) (hwait : op.phase.progress = .waiting)
    (hops : s'.ops = (s.setOp k { op with phase := .fetch 1 }).ops) {kind : Kind} {p : Progress} (hp : p ≠ .waiting) :
    s'.Has kind p ↔ s.Has kind p ∨ (kind = op.kind ∧ p = .updating) := by
  constructor
  · rintro ⟨j, x, hx, hkind, hpr⟩
    rcases setOp_cases hops hx with ⟨_, rfl⟩ | ⟨_, hx⟩
    · exact .inr ⟨hkind.symm, hpr.symm⟩
    · exact .inl ⟨j, x, hx, hkind, hpr⟩
  · rintro (⟨j, x, hx, hkind, hpr⟩ | ⟨rfl, rfl⟩)
    · have hne : j ≠ k := by
        rintro rfl
        rw [hk] at hx
        cases hx
        exact hp (hpr.symm.trans hwait)
      exact ⟨j, x, by rw [hops, setOp_ne s _ hne]; exact hx, hkind, hpr⟩
    · exact ⟨k, { op with phase := .fetch 1 }, by rw [hops]; exact setOp_self s k _, rfl, rfl⟩

variable (hops : s'.ops = (s.setOp k { op with phase := .fetch 1 }).ops)

include hops in
theorem updating_of_self : s'.Updating :=
  ⟨k, { op with phase := .fetch 1 }, by rw [hops]; exact setOp_self s k _, rfl⟩

/-- **An operation changes the folder** and goes on with the list.  A file appears by the upload of a new name only,
and goes by its deletion only. -/
theorem Inv.folder (h : Inv s) (hk : s.ops k = some op) (hphase : op.phase = .file)
    (hops : s'.ops = (s.setOp k { op with phase := .fetch 1 }).ops) (hindex : s'.index = s.index)
    (hversion : s'.version = s.version)
    (hnew : ∀ entry, op.kind = .upload entry →
      ∀ k' op', s.ops k' = some op' → op'.phase.progress ≠ .waiting → op'.kind.file ≠ entry.file)
    (hthere : ∀ e, s.Has (.upload e) .ended → e.file ∈ s'.files → e.file ∈ s.files)
    (hkept : ∀ name ∈ s.files, name ∈ s'.files ∨ op.kind = .delete name)
    (hgone : ∀ name, s.Deleted name ∨ op.kind = .delete name → name ∉ s'.files)
    (hput : ∀ entry, op.kind = .upload entry → entry.file ∈ s'.files) : Inv s' := by
  have hwait : op.phase.progress = .waiting := by rw [hphase]; rfl
  have hended (e : Backup) : s'.Has (.upload e) .ended ↔ s.Has (.upload e) .ended := by
    rw [has_updating hk hwait hops (by simp)]
    simp
  have hdel (name : String) (p : Progress) (hp : p ≠ .waiting) :
      s'.Has (.delete name) p ↔ s.Has (.delete name) p ∨ (op.kind = .delete name ∧ p = .updating) := by
    rw [has_updating hk hwait hops hp, eq_comm (a := op.kind)]
  have hdeleted (name : String) : s'.Deleted name ↔ s.Deleted name ∨ op.kind = .delete name := by
    rw [Deleted, hdel name _ (by simp), hdel name _ (by simp), Deleted]
    tauto
  refine ⟨by rw [hindex]; exact h.format, ?_, ?_, fun name hname => hgone name ((hdeleted name).mp hname), ?_, ?_,
    fun _ _ _ => updating_of_self hops⟩
  · intro j x hx
    rcases setOp_cases hops hx with ⟨_, rfl⟩ | ⟨_, hx⟩
    · trivial
    refine phaseOk_of_listing hindex hversion (fun present hlisting => ?_) (h.phase j x hx)
    refine ⟨fun e he hfile => ?_, fun name hname hfile => ?_, hlisting.room⟩
    · rw [hended] at he
      exact hlisting.listed e he (hthere e he hfile)
    rw [hdel name _ (by simp)]
    by_cases hmem : name ∈ s.files
    · exact .inr ⟨(hkept name hmem).resolve_left hfile, rfl⟩
    · exact .inl (hlisting.gone name hname hmem)
  · intro j j' x x' e e' hx hx' hxk hxk' hp hp' hname
    rcases setOp_cases hops hx with ⟨hj, rfl⟩ | ⟨_, hx⟩ <;> rcases setOp_cases hops hx' with ⟨hj', rfl⟩ | ⟨_, hx'⟩
    · rw [hj, hj']
    · have := hnew e hxk j' x' hx' hp'
      rw [hxk'] at this
      exact absurd hname.symm this
    · have := hnew e' hxk' j x hx hp
      rw [hxk] at this
      exact absurd hname this
    · exact h.names j j' x x' e e' hx hx' hxk hxk' hp hp' hname
  · intro j x e hx hxk hp
    rw [hdeleted]
    rcases setOp_cases hops hx with ⟨_, rfl⟩ | ⟨_, hx⟩
    · exact .inl (hput e hxk)
    rcases h.uploaded j x e hx hxk hp with hmem | hdel
    · exact (hkept _ hmem).imp_right .inr
    · exact .inr (.inl hdel)
  · intro e he hfile
    rw [hended] at he
    rw [entries, hindex]
    exact h.entered e he (hthere e he hfile)

theorem Inv.putFile (h : Inv s) (hk : s.ops k = some op) {entry : Backup} (hkind : op.kind = .upload entry)
    (hphase : op.phase = .file)
    (hnew : ∀ k' op', s.ops k' = some op' → op'.phase.progress ≠ .waiting → op'.kind.file ≠ entry.file)
    (hops : s'.ops = (s.setOp k { op with phase := .fetch 1 }).ops) (hfiles : s'.files = insert entry.file s.files)
    (hindex : s'.index = s.index) (hversion : s'.version = s.version) : Inv s' := by
  have hother {kind : Kind} {p : Progress} (hp : p ≠ .waiting) (hhas : s.Has kind p) : kind.file ≠ entry.file := by
    obtain ⟨j, x, hx, rfl, rfl⟩ := hhas
    exact hnew j x hx hp
  have hold {name : String} (hname : name ≠ entry.file) (hmem : name ∈ s'.files) : name ∈ s.files := by
    rw [hfiles] at hmem
    exact (Finset.mem_insert.mp hmem).resolve_left hname
  refine h.folder hk hphase hops hindex hversion ?_ (fun e he => hold (hother (by simp) he)) ?_ ?_ ?_
  · intro e he
    rw [hkind] at he
    cases he
    exact hnew
  · intro name hmem
    rw [hfiles]
    exact .inl (Finset.mem_insert_of_mem hmem)
  · rintro name (hname | hname) hmem
    · refine h.deleted name hname (hold ?_ hmem)
      exact hname.elim (hother (by simp)) (hother (by simp))
    · rw [hkind] at hname
      cases hname
  · intro e he
    rw [hkind] at he
    cases he
    rw [hfiles]
    exact Finset.mem_insert_self _ _

theorem Inv.deleteFile (h : Inv s) (hk : s.ops k = some op) {file : String} (hkind : op.kind = .delete file)
    (hphase : op.phase = .file) (hops : s'.ops = (s.setOp k { op with phase := .fetch 1 }).ops)
    (hfiles : s'.files = s.files.erase file) (hindex : s'.index = s.index)
    (hversion : s'.version = s.version) : Inv s' := by
  have hold {name : String} (hmem : name ∈ s'.files) : name ≠ file ∧ name ∈ s.files := by
    rw [hfiles] at hmem
    exact Finset.mem_erase.mp hmem
  have hnone (entry : Backup) : op.kind ≠ .upload entry := by
    rw [hkind]
    exact nofun
  refine h.folder hk hphase hops hindex hversion (fun e he => absurd he (hnone e)) (fun e _ hmem => (hold hmem).2) ?_ ?_
    fun e he => absurd he (hnone e)
  · intro name hmem
    rw [hkind, hfiles]
    by_cases heq : name = file
    · exact .inr (by rw [heq])
    · exact .inl (Finset.mem_erase.mpr ⟨heq, hmem⟩)
  · rintro name (hname | hname) hmem
    · exact h.deleted name hname (hold hmem).2
    · rw [hkind] at hname
      cases hname
      exact (hold hmem).1 rfl

end

/-! ## The list is written -/

theorem current_of_accepts {round : Nat} {fetched : Fetched} (haccepts : s.accepts (condition round fetched) = true)
    (hlast : kWebDavIndexRounds ≤ round → s.Current fetched) : s.Current fetched := by
  by_cases hround : round < kWebDavIndexRounds
  · rw [condition, if_pos hround] at haccepts
    cases hetag : fetched.etag with
    | none =>
      rw [hetag] at haccepts
      have hnone : s.index = none := isNone_iff_eq_none.mp haccepts
      rw [Current, hetag, hnone]
      rfl
    | some v =>
      rw [hetag] at haccepts
      obtain ⟨hsome, hv⟩ := Bool.and_eq_true_iff.mp haccepts
      obtain ⟨index, hindex⟩ := isSome_iff_exists.mp hsome
      rw [Current, hetag, hindex, ← beq_iff_eq.mp hv]
      rfl
  · exact hlast (by omega)

section
variable {s' : Cloud}

theorem ended_cases (hops : s'.ops = (s.setOp k { op with phase := .ended }).ops) {kind : Kind}
    (h : s'.Has kind .ended) :
    kind = op.kind ∨ s.Has kind .ended := by
  obtain ⟨j, x, hx, hxk, hxp⟩ := h
  rcases setOp_cases hops hx with ⟨_, rfl⟩ | ⟨_, hx⟩
  · exact .inl hxk.symm
  · exact .inr ⟨j, x, hx, hxk, hxp⟩

theorem deleted_of_ended (hk : s.ops k = some op) (hup : op.phase.progress = .updating)
    (hops : s'.ops = (s.setOp k { op with phase := .ended }).ops) {name : String} :
    s'.Deleted name ↔ s.Deleted name := by
  constructor
  · rintro (⟨j, x, hx, hxk, hxp⟩ | hended)
    · rcases setOp_cases hops hx with ⟨_, rfl⟩ | ⟨_, hx⟩
      · cases hxp
      · exact .inl ⟨j, x, hx, hxk, hxp⟩
    · rcases ended_cases hops hended with hkind | hended
      · exact .inl ⟨k, op, hk, hkind.symm, hup⟩
      · exact .inr hended
  · have hkeep (p : Progress) (hhas : s.Has (.delete name) p) (hp : p ≠ .waiting) : s'.Deleted name := by
      obtain ⟨j, x, hx, hxk, hxp⟩ := hhas
      by_cases heq : j = k
      · subst heq
        rw [hk] at hx
        cases hx
        exact .inr ⟨j, { op with phase := .ended }, by rw [hops]; exact setOp_self s j _, hxk, rfl⟩
      · have hx' : s'.ops j = some x := by rw [hops, setOp_ne s _ heq]; exact hx
        cases p with
        | waiting => exact absurd rfl hp
        | updating => exact .inl ⟨j, x, hx', hxk, hxp⟩
        | ended => exact .inr ⟨j, x, hx', hxk, hxp⟩
    rintro (hhas | hhas)
    · exact hkeep _ hhas (by simp)
    · exact hkeep _ hhas (by simp)

theorem Kind.added_file (kind : Kind) : ∀ b ∈ kind.added, b.file = kind.file := by
  cases kind with
  | upload entry =>
    intro b hb
    cases hb
    rfl
  | delete file =>
    intro b hb
    cases hb

/-- **A write that is accepted.** -/
theorem Inv.write (h : Inv s) (hk : s.ops k = some op) {round : Nat} {fetched : Fetched} {present : Finset String}
    (hphase : op.phase = .write round fetched present) (hcur : s.Current fetched)
    (hmeets : ∀ entry, op.kind = .upload entry →
      entry.file ∈ s.files ∨ ∃ k' op', k' ≠ k ∧ s.ops k' = some op' ∧ op'.phase.progress = .updating)
    (hops : s'.ops = (s.setOp k { op with phase := .ended }).ops) (hfiles : s'.files = s.files)
    (hindex : s'.index = some (fetched.index.updated op.kind.file op.kind.added present))
    (hversion : s'.version = s.version + 1) : Inv s' := by
  have hup : op.phase.progress = .updating := by rw [hphase]; rfl
  have hok := h.phase k op hk
  rw [hphase] at hok
  have hlisting := hok.2 hcur
  have hentries (name : String) : s'.entries name = if name = op.kind.file then op.kind.added.toList
      else if name ∈ present then (s.entries name).head?.toList else [] := by
    rw [entries, hindex, getD_some, entries_updated _ _ _ op.kind.added_file hlisting.room,
      hok.1.same hcur]
    rfl
  have hdeleted (name : String) : s'.Deleted name ↔ s.Deleted name := deleted_of_ended hk hup hops
  have hother {j : Nat} {x : Op} (hne : j ≠ k) (hx : s.ops j = some x) : s'.ops j = some x := by
    rw [hops, setOp_ne s _ hne]
    exact hx
  refine ⟨by rw [hindex]; exact Int.le_refl _, ?_, ?_, ?_, ?_, ?_, ?_⟩
  · intro j x hx
    rcases setOp_cases hops hx with ⟨_, rfl⟩ | ⟨_, hx⟩
    · trivial
    -- what the others have fetched is old now
    have hold (f : Fetched) (hf : s.Known f) : s'.Known f ∧ ¬ s'.Current f := by
      have hnot : ¬ s'.Current f := by
        intro hc
        rw [Current, hindex, hversion] at hc
        have := hf.older (s.version + 1) hc
        omega
      refine ⟨⟨?_, fun hc => absurd hc hnot⟩, hnot⟩
      intro v hv
      have := hf.older v hv
      omega
    have hxok := h.phase j x hx
    cases hxp : x.phase with
    | list round fetched =>
      rw [hxp] at hxok
      exact (hold fetched hxok).1
    | write round fetched present =>
      rw [hxp] at hxok
      exact ⟨(hold fetched hxok.1).1, fun hc => absurd hc (hold fetched hxok.1).2⟩
    | _ => trivial
  · intro j j' x x' e e' hx hx' hxk hxk' hp hp' hname
    have hback (i : Nat) (y : Op) (hy : s'.ops i = some y) (hyp : y.phase.progress ≠ .waiting) :
        ∃ z, s.ops i = some z ∧ z.kind = y.kind ∧ z.phase.progress ≠ .waiting := by
      rcases setOp_cases hops hy with ⟨rfl, rfl⟩ | ⟨_, hy⟩
      · exact ⟨op, hk, rfl, by simp [hup]⟩
      · exact ⟨y, hy, rfl, hyp⟩
    obtain ⟨z, hz, hzk, hzp⟩ := hback j x hx hp
    obtain ⟨z', hz', hzk', hzp'⟩ := hback j' x' hx' hp'
    exact h.names j j' z z' e e' hz hz' (hzk.trans hxk) (hzk'.trans hxk') hzp hzp' hname
  · intro name hname
    rw [hfiles]
    exact h.deleted name ((hdeleted name).mp hname)
  · intro j x e hx hxk hp
    rw [hfiles, hdeleted]
    rcases setOp_cases hops hx with ⟨_, rfl⟩ | ⟨_, hx⟩
    · exact h.uploaded k op e hk hxk (by simp [hup])
    · exact h.uploaded j x e hx hxk hp
  · intro e he hfile
    rw [hfiles] at hfile
    rw [hentries]
    obtain ⟨j, x, hx, hxk, hxp⟩ := he
    rcases setOp_cases hops hx with ⟨_, rfl⟩ | ⟨hne, hx⟩
    · have hkind : op.kind = .upload e := hxk
      rw [hkind]
      exact if_pos rfl
    -- the entry of another upload: its file is in the listing
    have hfilene : e.file ≠ op.kind.file := by
      intro heq
      cases hkind : op.kind with
      | upload e' =>
        rw [hkind] at heq
        exact hne (h.names j k x op e e' hx hk hxk hkind (by simp [hxp]) (by simp [hup]) heq)
      | delete file =>
        rw [hkind] at heq
        exact h.deleted e.file (.inl ⟨k, op, hk, by rw [hkind, heq]; rfl, hup⟩) hfile
    have hended : s.Has (.upload e) .ended := ⟨j, x, hx, hxk, hxp⟩
    rw [if_neg hfilene, if_pos (hlisting.listed e hended hfile), h.entered e hended hfile]
    rfl
  · intro name hname hne
    rw [hdeleted] at hname
    have hgone := h.deleted name hname
    rw [hentries] at hne
    by_cases heq : name = op.kind.file
    · rw [if_pos heq] at hne
      cases hkind : op.kind with
      | upload e =>
        rw [hkind] at heq
        rcases hmeets e hkind with hthere | ⟨j, x, hjk, hx, hxp⟩
        · exact absurd (by rw [heq]; exact hthere) hgone
        · exact ⟨j, x, hother hjk hx, hxp⟩
      | delete file =>
        rw [hkind] at hne
        exact absurd rfl hne
    rw [if_neg heq] at hne
    by_cases hpres : name ∈ present
    · obtain ⟨j, x, hx, hxk, hxp⟩ := hlisting.gone name hpres hgone
      have hjk : j ≠ k := by
        rintro rfl
        rw [hk] at hx
        cases hx
        rw [hxk] at heq
        exact heq rfl
      exact ⟨j, x, hother hjk hx, hxp⟩
    · rw [if_neg hpres] at hne
      exact absurd rfl hne

end

/-! ## Runs -/

theorem Inv.request (h : Inv s) (hk : s.ops k = some op) (hassumed : Assumed s (.request k))
    (hmeets : Meets s (.request k)) :
    Inv (s.request k op) := by
  have ha := hassumed op hk
  have hok := h.phase k op hk
  cases hphase : op.phase with
  | file =>
    cases hkind : op.kind with
    | upload entry =>
      have hm := hmeets op entry hk hkind
      rw [hphase] at hm
      simp only [Cloud.request, hphase, hkind]
      exact h.putFile hk hkind hphase hm (by rw [← hkind]; rfl) rfl rfl rfl
    | delete file =>
      simp only [Cloud.request, hphase, hkind]
      exact h.deleteFile hk hkind hphase (by rw [← hkind]; rfl) rfl rfl rfl
  | fetch round =>
    simp only [Cloud.request, hphase]
    split
    · rename_i hnewer
      exact absurd hnewer (Int.not_lt.mpr h.format)
    refine h.move hk (by rw [hphase]; rfl) ?_
    refine ⟨?_, fun _ => rfl⟩
    intro v hv
    obtain ⟨_, _, rfl⟩ := map_eq_some_iff.mp hv
    exact .refl
  | list round fetched =>
    rw [hphase] at ha hok
    simp only [Cloud.request, hphase]
    refine h.move hk (by rw [hphase]; rfl) ⟨hok, fun _ => ⟨fun _ _ hfile => hfile, ?_, ha⟩⟩
    intro name hname hfile
    exact absurd hname hfile
  | write round fetched present =>
    rw [hphase] at ha
    simp only [Cloud.request, hphase]
    split
    · rename_i haccepts
      refine h.write hk hphase (current_of_accepts haccepts ha) ?_ rfl rfl rfl rfl
      intro entry hkind
      have hm := hmeets op entry hk hkind
      rw [hphase] at hm
      exact hm haccepts
    · exact h.move hk (by rw [hphase]; rfl) trivial
  | ended =>
    simp only [Cloud.request, hphase]
    exact h
  | warned =>
    simp only [Cloud.request, hphase]
    exact h
  | failed =>
    simp only [Cloud.request, hphase]
    exact h

theorem Inv.refuse (h : Inv s) (hk : s.ops k = some op) : Inv (s.refuse k op) := by
  cases hphase : op.phase with
  | file | fetch round | list round fetched | write round fetched present =>
    simp only [Cloud.refuse, hphase]
    exact h.move hk (by rw [hphase]; rfl) trivial
  | ended | warned | failed =>
    simp only [Cloud.refuse, hphase]
    exact h

theorem Inv.step (h : Inv s) (e : Event) (hassumed : Assumed s e) (hmeets : Meets s e) : Inv (s.step e) := by
  cases e with
  | start k kind =>
    simp only [Cloud.step]
    split
    · exact h
    · rename_i hnone
      exact h.start (by simpa using hnone) kind
  | request k =>
    simp only [Cloud.step]
    split
    · exact h
    · rename_i op hk
      exact h.request hk hassumed hmeets
  | refuse k =>
    simp only [Cloud.step]
    split
    · exact h
    · rename_i op hk
      exact h.refuse hk

end

/-- A folder and its list before any operation. -/
structure Initial (s : Cloud) : Prop where
  ops : ∀ k, s.ops k = none
  format : (s.index.getD {}).format ≤ kWebDavIndexFormat

theorem inv_initial {s : Cloud} (h : Initial s) : Inv s := by
  have hnone {k : Nat} {op : Op} (hk : s.ops k = some op) : False := by
    rw [h.ops k] at hk
    cases hk
  have hdel (name : String) (hd : s.Deleted name) : False := by
    rcases hd with ⟨k, op, hk, _⟩ | ⟨k, op, hk, _⟩
    · exact hnone hk
    · exact hnone hk
  refine ⟨h.format, ?_, ?_, ?_, ?_, ?_, ?_⟩
  · intro k op hk
    exact (hnone hk).elim
  · intro k k' op op' e e' hk
    exact (hnone hk).elim
  · intro name hd
    exact (hdel name hd).elim
  · intro k op e hk
    exact (hnone hk).elim
  · rintro e ⟨k, op, hk, _⟩
    exact (hnone hk).elim
  · intro name hd
    exact (hdel name hd).elim

/-- Every operation has returned, and none with an index warning. -/
def Cloud.AllReturned (s : Cloud) : Prop := ∀ k op, s.ops k = some op → op.phase = .ended ∨ op.phase = .failed

/-- One entry for each file that was uploaded and not deleted, and none for a deleted one. -/
structure Cloud.Listed (s : Cloud) : Prop where
  uploaded : ∀ entry, s.Has (.upload entry) .ended → ¬ s.Has (.delete entry.file) .ended →
    entry.file ∈ s.files ∧ s.entries entry.file = [entry]
  deleted : ∀ name, s.Has (.delete name) .ended → name ∉ s.files ∧ s.entries name = []

/-- **Devices.**  Where every step meets the conditions, the list is right once everything has returned. -/
theorem run_listed (s : Cloud) (hs : Initial s) (events : List Event)
    (h : AllMeet step (fun s e => Assumed s e ∧ Meets s e) s events)
    (hreturned : (events.foldl step s).AllReturned) : (events.foldl step s).Listed := by
  have hstep (s : Cloud) (e : Event) (hm : Assumed s e ∧ Meets s e) (hinv : Inv s) :
    Inv (s.step e) := hinv.step e hm.1 hm.2
  have hinv : Inv (events.foldl step s) := AllMeet.keeps hstep h (inv_initial hs)
  have hquiet (kind : Kind) : ¬ (events.foldl step s).Has kind .updating := by
    rintro ⟨k, op, hk, _, hp⟩
    rcases hreturned k op hk with hphase | hphase
    · rw [hphase] at hp
      cases hp
    · rw [hphase] at hp
      cases hp
  refine ⟨?_, ?_⟩
  · intro entry hup hdel
    obtain ⟨k, op, hk, hkind, hp⟩ := hup
    have hthere : entry.file ∈ (events.foldl step s).files := by
      rcases hinv.uploaded k op entry hk hkind (by simp [hp]) with hmem | hd | hd
      · exact hmem
      · exact absurd hd (hquiet _)
      · exact absurd hd hdel
    exact ⟨hthere, hinv.entered entry ⟨k, op, hk, hkind, hp⟩ hthere⟩
  · intro name hd
    refine ⟨hinv.deleted name (.inr hd), ?_⟩
    by_contra hne
    obtain ⟨k, op, hk, hp⟩ := hinv.left name (.inr hd) hne
    exact hquiet op.kind ⟨k, op, hk, rfl, hp⟩

/-! ## Two devices -/

section
variable {s : Cloud} {k : Nat} {op : Op} {round : Nat} {f : Fetched} {present : Finset String}

variable (hk : s.ops k = some op)

include hk

theorem request_fetch (hphase : op.phase = .fetch round) :
    Assumed s (.request k) ∧ Meets s (.request k) := by
  refine ⟨?_, ?_⟩
  · intro x hx
    rw [hk] at hx
    cases hx
    rw [hphase]
    trivial
  · intro x entry hx _
    rw [hk] at hx
    cases hx
    rw [hphase]
    trivial

theorem request_list (hphase : op.phase = .list round f)
    (hcard : s.files.card < kWebDavIndexMaxEntries) : Assumed s (.request k) ∧ Meets s (.request k) := by
  refine ⟨?_, ?_⟩
  · intro x hx
    rw [hk] at hx
    cases hx
    rw [hphase]
    exact hcard
  · intro x entry hx _
    rw [hk] at hx
    cases hx
    rw [hphase]
    trivial

theorem request_write (hphase : op.phase = .write round f present)
    (hround : round < kWebDavIndexRounds) (hfile : op.kind.file ∈ s.files) :
    Assumed s (.request k) ∧ Meets s (.request k) := by
  refine ⟨?_, ?_⟩
  · intro x hx
    rw [hk] at hx
    cases hx
    rw [hphase]
    omega
  · intro x entry hx hkind
    rw [hk] at hx
    cases hx
    rw [hphase]
    intro _
    rw [hkind] at hfile
    exact .inl hfile

theorem request_file (hphase : op.phase = .file)
    (hnew : ∀ k' op', s.ops k' = some op' → op'.phase.progress ≠ .waiting → op'.kind.file ≠ op.kind.file) :
    Assumed s (.request k) ∧ Meets s (.request k) := by
  refine ⟨?_, ?_⟩
  · intro x hx
    rw [hk] at hx
    cases hx
    rw [hphase]
    trivial
  · intro x entry hx hkind
    rw [hk] at hx
    cases hx
    rw [hphase]
    intro k' op' hk' hp
    rw [hkind] at hnew
    exact hnew k' op' hk' hp

end

def firstBackup : Backup := { file := "a.thrbackup", createdAt := some 1, size := 10, sha256 := "0a" }

def secondBackup : Backup := { file := "b.thrbackup", createdAt := some 2, size := 20, sha256 := "0b" }

/-- Two devices upload at once: the second write finds the list changed and starts over. -/
def twoUploads : List Event :=
  [.start 0 (.upload firstBackup), .start 1 (.upload secondBackup), .request 0, .request 1, .request 0, .request 1,
    .request 0, .request 1, .request 0, .request 1, .request 1, .request 1, .request 1]

theorem twoUploads_listed : (twoUploads.foldl step {}).Listed ∧
    (twoUploads.foldl step {}).index = some { backups := [some secondBackup, some firstBackup] } := by
  refine ⟨run_listed {} ⟨fun _ => rfl, by decide⟩ twoUploads ?_ ?_, by decide⟩
  · refine ⟨⟨trivial, trivial⟩, ⟨trivial, trivial⟩, request_file rfl rfl ?_,
      request_file rfl rfl ?_, request_fetch rfl rfl,
      request_fetch rfl rfl, request_list rfl rfl (by decide), request_list rfl rfl (by decide),
      request_write rfl rfl (by decide) (by decide), request_write rfl rfl (by decide) (by decide),
      request_fetch rfl rfl,
      request_list rfl rfl (by decide), request_write rfl rfl (by decide) (by decide), trivial⟩
    · intro k op hk hp
      rcases k with _ | _ | k
      · cases hk
        exact absurd rfl hp
      · cases hk
        exact absurd rfl hp
      · cases hk
    · intro k op hk hp
      rcases k with _ | _ | k
      · cases hk
        decide
      · cases hk
        exact absurd rfl hp
      · cases hk
  · intro k op hk
    rcases k with _ | _ | k
    · cases hk
      exact .inl rfl
    · cases hk
      exact .inl rfl
    · cases hk

/-- The file is deleted, and the list written, before the device that uploaded it writes the list. -/
def deletedMeanwhile : List Event :=
  [.start 0 (.upload firstBackup), .request 0, .start 1 (.delete "a.thrbackup"), .request 1,
   .request 1, .request 1, .request 1,
    .request 0, .request 0, .request 0]

theorem deleted_meanwhile : AllMeet step Assumed {} deletedMeanwhile ∧
    (deletedMeanwhile.foldl step {}).AllReturned ∧ ¬ (deletedMeanwhile.foldl step {}).Listed := by
  refine ⟨?_, ?_, ?_⟩
  · refine ⟨trivial, ?_, trivial, ?_, (request_fetch rfl rfl).1, (request_list rfl rfl (by decide)).1, ?_,
      (request_fetch rfl rfl).1, (request_list rfl rfl (by decide)).1, ?_, trivial⟩
    · intro op hop
      cases hop
      trivial
    · intro op hop
      cases hop
      trivial
    · intro op hop
      cases hop
      exact fun hlast => absurd hlast (by decide)
    · intro op hop
      cases hop
      exact fun hlast => absurd hlast (by decide)
  · intro k op hk
    rcases k with _ | _ | k
    · cases hk
      exact .inl rfl
    · cases hk
      exact .inl rfl
    · cases hk
  · intro hlisted
    have hnone := (hlisted.deleted "a.thrbackup" ⟨1, ⟨.delete "a.thrbackup", .ended⟩, rfl, rfl, rfl⟩).2
    cases hnone

end Waterdisco.WebDav
