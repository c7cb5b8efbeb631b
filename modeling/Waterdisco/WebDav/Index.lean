import Mathlib.Data.Finset.Card
import Mathlib.Data.List.Sort

/-!
# The backup list on a WebDAV server

`Upload` puts a file into the folder and `Delete` takes one out; each then brings the
list of backups up to date with `WebDavUpdateIndex`: fetch the list, list the folder,
write the list back on the condition that nobody has written it since.  Every request
is one event; those of different devices interleave in any order.

    the entries of one name in the list that is written     (entries_updated)
-/

namespace Waterdisco.WebDav

open List

/-! ## The list -/

/-- An entry of the list.  `createdAt` is what `WebDavIsoDate` makes of `created_at`. -/
structure Backup where
  file : String
  createdAt : Option Int
  size : Int
  sha256 : String
  more : List (String × String) := []
deriving DecidableEq

def kWebDavIndexFormat : Int := 1

def kWebDavIndexMaxEntries : Nat := 1000

def kWebDavIndexRounds : Nat := 4

/-- The root object.  A value of `backups` that is not an object is `none`. -/
structure Index where
  format : Int := kWebDavIndexFormat
  backups : List (Option Backup) := []
deriving DecidableEq

/-- Newest first; unknown dates sort last. -/
def webDavNewer : Option Int → Option Int → Bool
  | none, _ => false
  | some _, none => true
  | some a, some b => b < a

/-- The entries that stay: the first of each name whose file is in the folder. -/
def keepPresent (present : Finset String) : List String → List (Option Backup) → List Backup
  | _, [] => []
  | seen, none :: l => keepPresent present seen l
  | seen, some b :: l =>
    if b.file ∈ seen ∨ b.file ∉ present then keepPresent present seen l
    else b :: keepPresent present (b.file :: seen) l

def newestFirst (l : List Backup) : List Backup :=
  l.insertionSort (fun a b => webDavNewer b.createdAt a.createdAt = false)

/-- The list that is written: `added` for `file`, or nothing for it. -/
def Index.updated (index : Index) (file : String) (added : Option Backup) (present : Finset String) : Index :=
  let kept := added.toList ++ keepPresent present [file] index.backups
  { format := kWebDavIndexFormat, backups := ((newestFirst kept).take kWebDavIndexMaxEntries).map some }

/-! ## Operations -/

inductive Kind where
  | upload (entry : Backup)
  | delete (file : String)
deriving DecidableEq

def Kind.file : Kind → String
  | .upload entry => entry.file
  | .delete file => file

def Kind.added : Kind → Option Backup
  | .upload entry => some entry
  | .delete _ => none

/-- What was fetched; the server gives every list that exists a strong ETag. -/
structure Fetched where
  index : Index
  etag : Option Nat
deriving DecidableEq

inductive Phase where
  /-- Before its `PUT` or `DELETE` of the file. -/
  | file
  | fetch (round : Nat)
  | list (round : Nat) (fetched : Fetched)
  | write (round : Nat) (fetched : Fetched) (present : Finset String)
  /-- It has returned without an index warning. -/
  | ended
  | warned
  /-- It has returned without a change to the folder. -/
  | failed
deriving DecidableEq

structure Op where
  kind : Kind
  phase : Phase := .file

/-- The folder, and the operations under way on all devices. -/
structure Cloud where
  files : Finset String := ∅
  index : Option Index := none
  /-- The ETag of the list: it changes with every write. -/
  version : Nat := 0
  ops : Nat → Option Op := fun _ => none

inductive Condition where
  | ifMatch (etag : Nat)
  | ifNoneMatch
  | always

/-- After three conflicts, one unconditional write. -/
def condition (round : Nat) (fetched : Fetched) : Condition :=
  if round < kWebDavIndexRounds then
    match fetched.etag with
    | some etag => .ifMatch etag
    | none => .ifNoneMatch
  else .always

inductive Event where
  | start (k : Nat) (kind : Kind)
  /-- The server handles the next request of an operation. -/
  | request (k : Nat)
  /-- The next request is refused, or does not reach the server. -/
  | refuse (k : Nat)

namespace Cloud

def setOp (s : Cloud) (k : Nat) (op : Op) : Cloud := { s with ops := Function.update s.ops k (some op) }

def accepts (s : Cloud) : Condition → Bool
  | .ifMatch etag => s.index.isSome && s.version == etag
  | .ifNoneMatch => s.index.isNone
  | .always => true

def fetched (s : Cloud) : Fetched := ⟨s.index.getD {}, s.index.map (fun _ => s.version)⟩

def request (s : Cloud) (k : Nat) (op : Op) : Cloud :=
  match op.phase with
  | .file =>
    match op.kind with
    | .upload entry => { s with files := insert entry.file s.files }.setOp k { op with phase := .fetch 1 }
    | .delete file => { s with files := s.files.erase file }.setOp k { op with phase := .fetch 1 }
  | .fetch round =>
    -- a newer format is left alone
    if kWebDavIndexFormat < s.fetched.index.format then s.setOp k { op with phase := .ended }
    else s.setOp k { op with phase := .list round s.fetched }
  | .list round fetched => s.setOp k { op with phase := .write round fetched s.files }
  | .write round fetched present =>
    if s.accepts (condition round fetched) then
      { s with
        index := some (fetched.index.updated op.kind.file op.kind.added present)
        version := s.version + 1 }.setOp k { op with phase := .ended }
    else s.setOp k { op with phase := .fetch (round + 1) }
  | _ => s

def refuse (s : Cloud) (k : Nat) (op : Op) : Cloud :=
  match op.phase with
  | .file => s.setOp k { op with phase := .failed }
  | .fetch _ | .list _ _ | .write _ _ _ => s.setOp k { op with phase := .warned }
  | _ => s

def step (s : Cloud) : Event → Cloud
  | .start k kind => if (s.ops k).isSome then s else s.setOp k { kind := kind }
  | .request k =>
    match s.ops k with
    | none => s
    | some op => s.request k op
  | .refuse k =>
    match s.ops k with
    | none => s
    | some op => s.refuse k op

end Cloud

/-! ## What is written -/

def entriesIn (l : List (Option Backup)) (name : String) : List Backup :=
    (l.filterMap id).filter (fun b => b.file = name)

def Cloud.entries (s : Cloud) (name : String) : List Backup := entriesIn (s.index.getD {}).backups name

section
variable {present : Finset String} {name : String}

variable (seen : List String) (l : List (Option Backup))

theorem filter_keepPresent :
    (keepPresent present seen l).filter (fun b => b.file = name) =
      if name ∈ seen ∨ name ∉ present then [] else (entriesIn l name).head?.toList := by
  induction l generalizing seen with
  | nil => simp [keepPresent, entriesIn]
  | cons value l ih =>
    cases value with
    | none =>
      rw [keepPresent, ih]
      rfl
    | some b =>
      rw [keepPresent]
      have hentries : entriesIn (some b :: l) name =
        if b.file = name then b :: entriesIn l name else entriesIn l name := by
        simp only [entriesIn, filterMap_cons, id, filter_cons, decide_eq_true_eq]
      rw [hentries]
      by_cases hskip : b.file ∈ seen ∨ b.file ∉ present
      · rw [if_pos hskip, ih]
        by_cases hname : b.file = name
        · rw [hname] at hskip
          rw [if_pos hskip, if_pos hskip]
        · rw [if_neg hname]
      · rw [if_neg hskip, filter_cons, ih]
        by_cases hname : b.file = name
        · rw [hname] at hskip
          simp [hname, hskip]
        · have hne : name ≠ b.file := fun h => hname h.symm
          simp [hname, hne]

/-- Every name once, none of those seen, all of them in the folder. -/
theorem keepPresent_names :
    ((keepPresent present seen l).map Backup.file).Nodup ∧
      ∀ b ∈ keepPresent present seen l, b.file ∉ seen ∧ b.file ∈ present := by
  induction l generalizing seen with
  | nil => simp [keepPresent]
  | cons value l ih =>
    cases value with
    | none => exact ih seen
    | some b =>
      rw [keepPresent]
      by_cases hskip : b.file ∈ seen ∨ b.file ∉ present
      · rw [if_pos hskip]
        exact ih seen
      rw [if_neg hskip]
      rw [not_or, not_not] at hskip
      obtain ⟨hnodup, hall⟩ := ih (b.file :: seen)
      refine ⟨?_, ?_⟩
      · rw [map_cons, nodup_cons]
        refine ⟨?_, hnodup⟩
        intro hmem
        obtain ⟨b', hb', heq⟩ := mem_map.mp hmem
        exact (hall b' hb').1 (by rw [heq]; exact (.head _))
      · intro b' hb'
        rcases mem_cons.mp hb' with rfl | hb'
        · exact hskip
        · obtain ⟨hseen, hpres⟩ := hall b' hb'
          exact ⟨fun h => hseen (.tail _ h), hpres⟩

theorem keepPresent_length :
    (keepPresent present seen l).length ≤ present.card := by
  obtain ⟨hnodup, hall⟩ : ((keepPresent present seen l).map Backup.file).Nodup ∧
      ∀ b ∈ keepPresent present seen l, b.file ∉ seen ∧ b.file ∈ present := keepPresent_names seen l
  have hsub : ((keepPresent present seen l).map Backup.file).toFinset ⊆ present := by
    intro n hn
    rw [mem_toFinset] at hn
    obtain ⟨b, hb, rfl⟩ := mem_map.mp hn
    exact (hall b hb).2
  have hcard := Finset.card_le_card hsub
  rwa [toFinset_card_of_nodup hnodup, length_map] at hcard

theorem newestFirst_perm (l : List Backup) : (newestFirst l).Perm l := perm_insertionSort _ l

/-- **What is written.**  With room for all of them, the entries of a name are the one added
for it, or the first that was there, if its file is. -/
theorem entries_updated (index : Index) (file : String) (added : Option Backup) (hadded : ∀ b ∈ added, b.file = file)
    (hroom : present.card < kWebDavIndexMaxEntries) :
    entriesIn (index.updated file added present).backups name =
      if name = file then added.toList
      else if name ∈ present then (entriesIn index.backups name).head?.toList else [] := by
  have hlen : (newestFirst (added.toList ++ keepPresent present [file] index.backups)).length ≤
    kWebDavIndexMaxEntries := by
    rw [(newestFirst_perm _).length_eq, length_append]
    have hkeep : (keepPresent present [file] index.backups).length ≤ present.card :=
      keepPresent_length [file] index.backups
    have hone : added.toList.length ≤ 1 := by cases added <;> simp
    omega
  have hperm : (entriesIn (index.updated file added present).backups name).Perm
      ((added.toList ++ keepPresent present [file] index.backups).filter (fun b => b.file = name)) := by
    rw [entriesIn, Index.updated, filterMap_map, take_of_length_le hlen]
    rw [show (id ∘ some : Backup → Option Backup) = some from rfl, filterMap_some]
    exact (newestFirst_perm _).filter _
  rw [filter_append, filter_keepPresent] at hperm
  by_cases hname : name = file
  · rw [if_pos hname]
    have hself : added.toList.filter (fun b => b.file = name) = added.toList := by
      rw [filter_eq_self]
      intro b hb
      rw [decide_eq_true_eq, hname]
      exact hadded b (by simpa using hb)
    rw [hself, if_pos (.inl (by simp [hname])), append_nil] at hperm
    cases added with
    | none => exact perm_nil.mp hperm
    | some b => exact perm_singleton.mp hperm
  rw [if_neg hname]
  have hnone : added.toList.filter (fun b => b.file = name) = [] := by
    rw [filter_eq_nil_iff]
    intro b hb
    rw [decide_eq_true_eq, hadded b (by simpa using hb)]
    exact fun h => hname h.symm
  rw [hnone, nil_append] at hperm
  by_cases hpres : name ∈ present
  · rw [if_pos hpres]
    rw [if_neg (by simp [hname, hpres])] at hperm
    cases hhead : (entriesIn index.backups name).head? with
    | none =>
      rw [hhead] at hperm
      exact perm_nil.mp hperm
    | some b =>
      rw [hhead] at hperm
      exact perm_singleton.mp hperm
  · rw [if_neg hpres]
    rw [if_pos (.inr hpres)] at hperm
    exact perm_nil.mp hperm

end

end Waterdisco.WebDav
