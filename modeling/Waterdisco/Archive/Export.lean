import Mathlib.Algebra.BigOperators.Group.List.Basic
import Mathlib.Algebra.Ring.Int.Defs
import Mathlib.Algebra.Ring.Nat
import Waterdisco.Archive.Entries

/-!
# Writing a state archive

`createArchive` walks the configuration directory, leaves out what is excluded, and
writes the rest.  The two databases are read from their snapshot instead.

    createArchive tree = ok bytes →
      (readEntries bytes = ok (the directories and files that are not excluded)
        ↔ there are not too many, they are not too large together, no nested file has
          the name of a database and other bytes than its snapshot, no name is read
          as a resource, and no large file was skipped)        (read_created_iff)

The reader has caps for the number of entries and for all bytes that the writer does
not have.
-/

namespace Waterdisco.Archive

open List Except UInt8

/-! ## Writing -/

def writeU32 (n : Nat) : Bytes :=
  [ofNat (n / 2 ^ 24), ofNat (n / 2 ^ 16), ofNat (n / 2 ^ 8), ofNat n]

/-- The big-endian byte pairs of code units. -/
def rawUnits (s : QStr) : Bytes := s.flatMap fun c => [ofNat (c.toNat / 256), ofNat c.toNat]

/-- `stream << QString`; a path is never null. -/
def writeString (s : QStr) : Bytes := writeU32 (2 * s.length) ++ rawUnits s

/-- `stream << QByteArray`; the content of an empty file is a null array. -/
def writeByteArray (data : Bytes) : Bytes :=
  if data = [] then writeU32 0xffffffff else writeU32 data.length ++ data

def writeEntry (e : Entry) : Bytes :=
  e.type :: (writeString e.path ++ if e.type = kEntryFile then writeByteArray e.data else [])

/-- What `WriteEntries` puts into the file. -/
def writeEntries (entries : List Entry) : Bytes :=
  writeU32 kMagic ++ (writeU32 kCurrentVersion ++ (entries.flatMap writeEntry ++ [kEntryEnd]))

/-! ## The configuration directory -/

/-- A text of ASCII characters. -/
def latin1 (s : String) : QStr := s.toList.map fun c => UInt16.ofNat c.toNat

/-- What stands under a path; `data` is what reading a file gives, if it can be opened. -/
inductive Kind where
  | dir
  | file (size : Nat) (data : Option Bytes)
  | other
deriving DecidableEq

structure Item where
  path : QStr
  kind : Kind
  symLink : Bool := false

open Item

/-- A directory as the iterator lists it, with paths relative to it: names between
slashes, each path once.  Names hold no backslash, and no colon on Windows. -/
structure Tree (windows : Bool) where
  items : List Item
  names : ∀ i ∈ items, Plain isSkipped isUp (i.path.splitOn slash)
  noBackslash : ∀ i ∈ items, backslash ∉ i.path
  noDrive : windows = true → ∀ i ∈ items, colon ∉ i.path
  distinct : (items.map path).Nodup

/-- The arguments of `CreateArchive` with what the call meets.  `snapshot` reads from the
snapshot directory; `error` is the text the caller passes in, if any. -/
structure Request where
  sourceDir : QStr
  archivePath : QStr
  absoluteFilePath : QStr → QStr
  snapshot : QStr → Option Bytes
  error : Option String := some ""
  sourceExists : Bool := true
  opened : Bool := true
  committed : Bool := true

inductive CreateError where
  | noSource
  | tooLarge
  | unreadable (path : QStr)
  | notCreated (path : QStr)
  | notWritten (path : QStr)
  /-- The text that was passed in. -/
  | earlier (text : String)

/-- The message, before its path is filled in. -/
def CreateError.text : CreateError → String
  | noSource => "Configuration directory does not exist"
  | tooLarge => "A configuration file is too large to export"
  | unreadable _ => "Cannot read configuration file: %1"
  | notCreated _ => "Cannot create archive: %1"
  | notWritten _ => "Failed to write archive: %1"
  | earlier text => text

def throneDb : QStr := latin1 "throne.db"
def throneStatsDb : QStr := latin1 "throne_stats.db"

def fileName (path : QStr) : QStr := (path.splitOn slash).getLastD []

/-- Case folding, as far as the suffixes below can tell: the Kelvin sign folds to `k`. -/
def foldCase (c : UInt16) : UInt16 :=
  if 65 ≤ c ∧ c ≤ 90 then c + 32 else if c = 0x212A then 107 else c

/-- `endsWith(suffix, Qt::CaseInsensitive)` for a suffix in lower case -/
def endsWithFolded (name suffix : QStr) : Bool := suffix.isSuffixOf (name.map foldCase)

section
variable (windows : Bool) (req : Request)

def isExcluded (relPath sourcePath : QStr) : Bool :=
  let normalized := normalized windows relPath
  let firstPart := (normalized.splitOn slash).headD []
  let leaf := fileName normalized
  firstPart = latin1 "temp" || firstPart = latin1 "logs" || (latin1 ".throne-import-").isPrefixOf firstPart ||
    endsWithFolded leaf (latin1 ".log") || endsWithFolded leaf (latin1 ".lock") ||
    leaf = latin1 "throne.db-wal" || leaf = latin1 "throne.db-shm" ||
    leaf = latin1 "throne_stats.db-wal" || leaf = latin1 "throne_stats.db-shm" ||
    req.absoluteFilePath req.archivePath = req.absoluteFilePath sourcePath

def Request.excludes (item : Item) : Bool :=
  isExcluded windows req item.path (req.sourceDir ++ slash :: item.path)

/-- A file, or its snapshot when it has the name of a database. -/
def Request.readFile (path : QStr) (data : Option Bytes) : Option Bytes :=
  let leaf := fileName path
  if leaf = throneDb ∨ leaf = throneStatsDb then req.snapshot leaf else data

/-- One turn of the loop; `none` is `continue`. -/
def collectItem (item : Item) : Except CreateError (Option Entry) :=
  if isSafeRelativePath windows item.path = false ∨ req.excludes windows item = true ∨ item.symLink = true then .ok none
  else match item.kind with
  | .dir => .ok (some { type := kEntryDir, path := cleanPath windows item.path })
  | .other =>
    match req.error with
    | some text => if text ≠ "" then .error (.earlier text) else .ok none
    | none => .ok none
  | .file size data =>
    if kMaxEntryBytes < size then
      match req.error with
      | some _ => .error .tooLarge
      -- without a place for the message the file is passed over
      | none => .ok none
    else match req.readFile item.path data with
    | none => .error (.unreadable item.path)
    | some data =>
      if kMaxEntryBytes < data.length then .error .tooLarge
      else .ok (some { type := kEntryFile, path := cleanPath windows item.path, data := data })

def collect : List Item → Except CreateError (List Entry)
  | [] => .ok []
  | item :: items =>
    match collectItem windows req item with
    | .error e => .error e
    | .ok none => collect items
    | .ok (some entry) =>
      match collect items with
      | .error e => .error e
      | .ok entries => .ok (entry :: entries)

/-- `CreateArchive`: the content of the file it leaves. -/
def createArchive (items : List Item) : Except CreateError Bytes :=
  if req.sourceExists = false then .error .noSource
  else match collect windows req items with
  | .error e => .error e
  | .ok entries =>
    if req.opened = false then .error (.notCreated req.archivePath)
    else if req.committed = false then .error (.notWritten req.archivePath)
    else .ok (writeEntries entries)

/-! ## What an archive should hold -/

/-- The snapshot for the two databases, the file's own bytes otherwise. -/
def Request.content (path : QStr) (data : Option Bytes) : Bytes :=
  ((if path = throneDb ∨ path = throneStatsDb then req.snapshot path else data).getD [])

/-- Directories and files that are not excluded. -/
def exported (item : Item) : Option Entry :=
  if req.excludes windows item = true ∨ item.symLink = true then none
  else match item.kind with
  | .dir => some { type := kEntryDir, path := item.path }
  | .file _ data => some { type := kEntryFile, path := item.path, data := req.content item.path data }
  | .other => none

/-- The bytes an entry takes. -/
def entrySize (e : Entry) : Nat :=
  5 + 2 * e.path.length + if e.type = kEntryFile then 4 + e.data.length else 0

def archiveSize (entries : List Entry) : Nat := 9 + (entries.map entrySize).sum

/-- When an archive is read back as it should be. -/
structure Exportable (items : List Item) : Prop where
  count : (items.filterMap (exported windows req)).length ≤ kMaxEntries
  size : archiveSize (items.filterMap (exported windows req)) ≤ kMaxArchiveBytes
  named : ∀ i ∈ items, (exported windows req i).isSome = true → i.path.head? ≠ some colon
  noneSkipped : req.error = none → ∀ i ∈ items, (exported windows req i).isSome = true →
    ∀ size data, i.kind = .file size data → size ≤ kMaxEntryBytes
  own : ∀ i ∈ items, (exported windows req i).isSome = true → ∀ size data, i.kind = .file size data →
    i.path ≠ fileName i.path → fileName i.path = throneDb ∨ fileName i.path = throneStatsDb →
      (req.snapshot (fileName i.path)).getD [] = data.getD []

end

/-! ## The stream -/

theorem readU32_write {n : Nat} (h : n < 2 ^ 32) (rest : Bytes) : readU32 (writeU32 n ++ rest) = some (n, rest) := by
  simp only [writeU32, cons_append, nil_append, readU32, UInt8.toNat_ofNat', Option.some.injEq, Prod.mk.injEq,
    and_true]
  omega

theorem length_writeU32 (n : Nat) : (writeU32 n).length = 4 := rfl

theorem units_rawUnits (s : QStr) : units (rawUnits s) = s := by
  induction s with
  | nil => rfl
  | cons c s ih =>
    have hc := c.toNat_lt
    have hunit : UInt16.ofNat ((ofNat (c.toNat / 256)).toNat * 256 + (ofNat c.toNat).toNat) = c := by
      rw [UInt8.toNat_ofNat', UInt8.toNat_ofNat']
      have hsum : c.toNat / 256 % 256 * 256 + c.toNat % 256 = c.toNat := by omega
      rw [hsum]
      simp
    show UInt16.ofNat _ :: units (rawUnits s) = c :: s
    rw [hunit, ih]

theorem length_rawUnits (s : QStr) : (rawUnits s).length = 2 * s.length := by
  induction s with
  | nil => rfl
  | cons c s ih =>
    show (rawUnits s).length + 2 = _
    rw [ih, length_cons]
    omega

theorem readRaw_append (data rest : Bytes) : readRaw data.length (data ++ rest) = some (data, rest) := by
  unfold readRaw
  simp

theorem readString_write {s : QStr} (h : 2 * s.length < 0xffffffff) (rest : Bytes) :
    readString (writeString s ++ rest) = some (s, rest) := by
  have hraw := readRaw_append (rawUnits s) rest
  rw [length_rawUnits] at hraw
  unfold readString writeString
  rw [append_assoc, readU32_write (by omega)]
  have hne : ¬ 2 * s.length = 0xffffffff := by omega
  simp [hne, hraw, units_rawUnits]

theorem readByteArray_write {data : Bytes} (h : data.length < 0xffffffff) (rest : Bytes) :
    readByteArray (writeByteArray data ++ rest) = some (data, rest) := by
  unfold readByteArray writeByteArray
  by_cases hnil : data = []
  · rw [if_pos hnil, readU32_write (by omega), hnil]
    simp
  rw [if_neg hnil, append_assoc, readU32_write (by omega)]
  have hne : ¬ data.length = 0xffffffff := by omega
  simp [hne, readRaw_append]

theorem length_writeEntry (e : Entry) : (writeEntry e).length = entrySize e := by
  unfold writeEntry entrySize
  rw [length_cons, length_append, writeString, length_append, length_writeU32, length_rawUnits]
  by_cases hfile : e.type = kEntryFile
  · rw [if_pos hfile, if_pos hfile]
    have hdata : (writeByteArray e.data).length = 4 + e.data.length := by
      unfold writeByteArray
      by_cases hnil : e.data = []
      · rw [if_pos hnil, hnil]
        rfl
      · rw [if_neg hnil, length_append, length_writeU32]
    omega
  · rw [if_neg hfile, if_neg hfile]
    simp only [length_nil]
    omega

theorem length_writeEntries (entries : List Entry) : (writeEntries entries).length = archiveSize entries := by
  have hbody : (entries.flatMap writeEntry).length = (entries.map entrySize).sum := by
    rw [length_flatMap]
    congr 1
    exact map_congr_left fun e _ => length_writeEntry e
  unfold writeEntries archiveSize
  simp only [length_append, length_writeU32, length_singleton, hbody]
  omega

/-! ## Reading what was written -/

/-- An entry that the reader takes as it is, if there is room for it. -/
structure Entry.Plain (windows : Bool) (e : Entry) : Prop where
  type : e.type = kEntryDir ∧ e.data = [] ∨ e.type = kEntryFile
  safe : isSafeRelativePath windows e.path = true
  clean : normalized windows e.path = e.path
  small : e.data.length ≤ kMaxEntryBytes

theorem le_entrySize (e : Entry) : 2 * e.path.length ≤ entrySize e := by
  unfold entrySize
  omega

variable {windows : Bool}

theorem data_le_entrySize {e : Entry} (h : e.Plain windows) : e.data.length ≤ entrySize e := by
  unfold entrySize
  rcases h.type with ⟨-, hnil⟩ | hfile
  · rw [hnil]
    exact Nat.zero_le _
  · rw [if_pos hfile]
    omega

def Reader.take (r : Reader) (e : Entry) : Reader where
  seen := e.path :: r.seen
  totalBytes := r.totalBytes + e.data.length
  entries := r.entries ++ [e]

theorem readEntry_write {e : Entry} (h : e.Plain windows) {r : Reader} (hnew : e.path ∉ r.seen)
    (hsize : r.totalBytes + entrySize e ≤ kMaxArchiveBytes) (rest : Bytes) :
    readEntry windows r (writeEntry e ++ rest) =
      if kMaxEntries ≤ r.seen.length then .error .duplicate else .ok (some (r.take e, rest)) := by
  have hpath := le_entrySize e
  have hdata := data_le_entrySize h
  have hmax : kMaxArchiveBytes < 0xffffffff := by decide
  have hsmall := h.small
  have hkinds : e.type ≠ kEntryEnd ∧ ¬ (e.type ≠ kEntryDir ∧ e.type ≠ kEntryFile) := by
    rcases h.type with ⟨ht, -⟩ | ht
    · rw [ht]
      decide
    · rw [ht]
      decide
  unfold readEntry writeEntry
  simp only [cons_append, readU8, if_neg hkinds.1, if_neg hkinds.2, append_assoc]
  rw [readString_write (by omega)]
  simp only [h.safe, h.clean, Bool.true_eq_false, if_false, hnew, false_or]
  by_cases hfull : kMaxEntries ≤ r.seen.length
  · rw [if_pos hfull, if_pos hfull]
  rcases h.type with ⟨ht, hnil⟩ | ht
  · have hne : ¬ e.type = kEntryFile := by
      rw [ht]
      decide
    rw [if_neg hne, if_neg hne]
    obtain ⟨type, path, data⟩ := e
    subst hnil
    simp [Reader.take]
  · rw [if_pos ht, if_pos ht, readByteArray_write (by omega)]
    have hfits : ¬ kMaxArchiveBytes < r.totalBytes + e.data.length := by omega
    have hentry : ¬ kMaxEntryBytes < e.data.length := by omega
    simp only [if_neg hentry, if_neg hfits, Reader.take]

theorem readLoop_write (entries : List Entry) (hplain : ∀ e ∈ entries, e.Plain windows) (fuel : Nat)
    (r : Reader) (hfuel : entries.length < fuel) (hseen : ∀ e ∈ entries, e.path ∉ r.seen)
    (hnodup : (entries.map Entry.path).Nodup)
    (hsize : r.totalBytes + (entries.map entrySize).sum ≤ kMaxArchiveBytes) :
    readLoop windows fuel r (entries.flatMap writeEntry ++ [kEntryEnd]) =
      if entries = [] ∨ r.seen.length + entries.length ≤ kMaxEntries then .ok (r.entries ++ entries)
      else .error .duplicate := by
  induction entries generalizing fuel r with
  | nil =>
    match fuel with
    | fuel + 1 =>
      simp [readLoop, readEntry, readU8]
  | cons e entries ih =>
    match fuel with
    | fuel + 1 =>
      simp only [map_cons, sum_cons, nodup_cons, length_cons] at hsize hnodup hfuel
      have he := hplain e (by simp)
      rw [flatMap_cons, append_assoc, readLoop,
        readEntry_write he (hseen e (by simp)) (by omega)]
      by_cases hfull : kMaxEntries ≤ r.seen.length
      · have hno : ¬ (e :: entries = [] ∨ r.seen.length + (e :: entries).length ≤ kMaxEntries) := by
          simp only [reduceCtorEq, length_cons, false_or]
          omega
        rw [if_pos hfull, if_neg hno]
      rw [if_neg hfull]
      have hrest : ∀ e' ∈ entries, e'.path ∉ (r.take e).seen := by
        intro e' he' hmem
        rcases mem_cons.mp hmem with heq | hmem
        · exact hnodup.1 (heq ▸ mem_map_of_mem he')
        · exact hseen e' (.tail _ he') hmem
      have hdata := data_le_entrySize he
      have hstep := ih (fun e' he' => hplain e' (.tail _ he')) fuel (r.take e) (by omega) hrest
        hnodup.2 (by simp only [Reader.take]; omega)
      show readLoop windows fuel (r.take e) _ = _
      rw [hstep]
      have hlen : (r.take e).seen.length = r.seen.length + 1 := rfl
      have hentries : (r.take e).entries ++ entries = r.entries ++ e :: entries := by simp [Reader.take]
      rw [hlen, hentries]
      have hiff : (entries = [] ∨ r.seen.length + 1 + entries.length ≤ kMaxEntries) ↔
          (e :: entries = [] ∨ r.seen.length + (e :: entries).length ≤ kMaxEntries) := by
        simp only [reduceCtorEq, length_cons, false_or]
        constructor
        · rintro (rfl | h)
          · simp only [length_nil]
            omega
          · omega
        · intro h
          omega
      simp only [hiff]

/-- **What the reader makes of a written archive**: it is refused as a whole, refused for
the number of its entries, or read as it is. -/
theorem readEntries_write {entries : List Entry} (hplain : ∀ e ∈ entries, e.Plain windows)
    (hnodup : (entries.map Entry.path).Nodup) :
    readEntries windows (writeEntries entries) =
      if kMaxArchiveBytes < archiveSize entries then .error .size
      else if kMaxEntries < entries.length then .error .duplicate else .ok entries := by
  have hlen := length_writeEntries entries
  unfold readEntries
  rw [hlen]
  by_cases hbig : kMaxArchiveBytes < archiveSize entries
  · rw [if_pos (.inr hbig), if_pos hbig]
  have hnonempty : ¬ (archiveSize entries = 0 ∨ kMaxArchiveBytes < archiveSize entries) := by
    unfold archiveSize at *
    omega
  rw [if_neg hnonempty, if_neg hbig]
  unfold writeEntries
  rw [readU32_write (by decide)]
  simp only
  rw [readU32_write (by decide)]
  simp only [ne_eq, not_true, and_false, or_self, if_false]
  have hfuel : entries.length < (entries.flatMap writeEntry ++ [kEntryEnd]).length + 1 := by
    have hone : entries.length ≤ (entries.flatMap writeEntry).length := by
      have := length_le_sum_of_one_le (entries.map fun e => (writeEntry e).length) (by
        intro n hn
        obtain ⟨e, -, rfl⟩ := mem_map.mp hn
        rw [length_writeEntry]
        unfold entrySize
        omega)
      simpa using this
    rw [length_append]
    omega
  unfold archiveSize at hbig
  rw [readLoop_write entries hplain _ {} hfuel (by simp) hnodup (by simp only; omega)]
  by_cases hmany : kMaxEntries < entries.length
  · rw [if_pos hmany, if_neg]
    rintro (hnil | hle)
    · rw [hnil] at hmany
      cases hmany
    · simp only [length_nil] at hle
      omega
  · rw [if_neg hmany, if_pos (.inr (by simp only [length_nil]; omega))]
    rfl

/-! ## Paths of the tree -/

section
variable {windows : Bool} (tree : Tree windows) {i : Item} (hi : i ∈ tree.items)
include hi

theorem Tree.head_ne_slash : i.path.head? ≠ some slash := by
  intro hhead
  have hnames := tree.names i hi
  match hpath : i.path, hhead with
  | c :: rest, hhead =>
    have hc : c = slash := by simpa using hhead
    have hsplit : (c :: rest).splitOn slash = [] :: rest.splitOn slash := by
      rw [hc, splitOn_cons_eq_if_modifyHead, if_pos (by simp)]
    rw [hpath, hsplit] at hnames
    have := (hnames [] (by simp)).1
    simp [isSkipped] at this

theorem Tree.path_ne_nil : i.path ≠ [] := by
  intro hnil
  have := (tree.names i hi [] (by rw [hnil]; simp)).1
  simp [isSkipped] at this

theorem Tree.second_ne_colon (hw : windows = true) : i.path[1]? ≠ some colon := by
  intro hc
  exact tree.noDrive hw i hi (mem_of_getElem? hc)

theorem Tree.rootless : Rootless windows i.path := by
  refine ⟨tree.path_ne_nil hi, fun _ => toSlashes_eq_self (tree.noBackslash i hi), ?_⟩
  unfold rootLength
  rw [if_neg, if_neg (tree.head_ne_slash hi)]
  rintro ⟨hw, hc⟩
  exact tree.second_ne_colon hi hw hc

theorem Tree.cleanPath_eq : cleanPath windows i.path = i.path := by
  have hres : resolved i.path = some (i.path.splitOn slash) := resolveFrom_plain (tree.names i hi) []
  rw [(cleanPath_of_resolved (tree.rootless hi) hres (splitOn_ne_nil slash i.path)).1]
  exact intercalate_splitOn slash

theorem Tree.normalized_eq : normalized windows i.path = i.path := by
  unfold normalized
  rw [tree.cleanPath_eq hi, toSlashes_eq_self (tree.noBackslash i hi)]

theorem Tree.not_leavesRoot : leavesRoot i.path = false := by
  have hres : resolved i.path = some (i.path.splitOn slash) := resolveFrom_plain (tree.names i hi) []
  have hleaves := (leavesRoot_clean (tree.rootless hi)).mpr ⟨_, hres, splitOn_ne_nil slash i.path⟩
  rwa [tree.cleanPath_eq hi] at hleaves

theorem Tree.no_up_inside : ¬ [slash, dot, dot, slash] <:+: i.path := by
  rintro ⟨before, after, heq⟩
  have hmem : [dot, dot] ∈ i.path.splitOn slash := by
    have hpath : i.path = before ++ slash :: ([dot, dot] ++ slash :: after) := by
      rw [← heq]
      simp
    rw [hpath, splitOn_append_cons_self, splitOn_append_cons_self]
    exact mem_append_right _ (mem_append_left _ (by decide))
  have := (tree.names i hi _ hmem).2
  simp [isUp] at this

theorem Tree.isSafe_iff : isSafeRelativePath windows i.path = true ↔ i.path.head? ≠ some colon := by
  have hslash := tree.head_ne_slash hi
  have hdrive := tree.second_ne_colon hi
  have hleaves := tree.not_leavesRoot hi
  have hup := tree.no_up_inside hi
  have hnil := tree.path_ne_nil hi
  simp only [leavesRoot, Bool.or_eq_false_iff, decide_eq_false_iff_not] at hleaves
  unfold isSafeRelativePath isAbsolutePath
  rw [tree.normalized_eq hi]
  cases windows with
  | false => simp [hslash, hleaves.1.1, hleaves.1.2, hleaves.2, hup, hnil]
  | true => simp [hslash, hdrive, hleaves.1.1, hleaves.1.2, hleaves.2, hup, hnil]

end

/-! ## What is collected -/

section
variable {windows : Bool} {req : Request}

/-- The entry of a turn that did not fail. -/
def taken : Except CreateError (Option Entry) → Option Entry
  | .ok entry => entry
  | .error _ => none

theorem collect_ok {items : List Item} {entries : List Entry} (h : collect windows req items = .ok entries) :
    entries = items.filterMap (fun i => taken (collectItem windows req i)) ∧
      ∀ i ∈ items, collectItem windows req i = .ok (taken (collectItem windows req i)) := by
  induction items generalizing entries with
  | nil => exact ⟨(ok.inj h).symm, by simp⟩
  | cons item items ih =>
    rw [filterMap_cons, forall_mem_cons]
    unfold collect at h
    split at h
    · cases h
    · rename_i hnone
      rw [hnone]
      exact ⟨(ih h).1, rfl, (ih h).2⟩
    rename_i entry hsome
    split at h
    · cases h
    rename_i rest hrest
    rw [hsome]
    refine ⟨?_, rfl, (ih hrest).2⟩
    rw [← ok.inj h, (ih hrest).1]
    rfl

/-- The file is not over the cap of a file. -/
def Item.small (i : Item) : Bool :=
  match i.kind with
  | .file size _ => decide (size ≤ kMaxEntryBytes)
  | _ => true

variable (req) in
/-- The bytes that are read for an item. -/
def Request.actual (i : Item) : Bytes :=
  match i.kind with
  | .file _ data => (req.readFile i.path data).getD []
  | _ => []

open Request

/-- What a turn that did not fail collects: the entry that should be there, with the bytes
that were read, unless the path is refused or the file too large. -/
theorem collectItem_ok {i : Item} {o : Option Entry} (hclean : cleanPath windows i.path = i.path)
    (h : collectItem windows req i = .ok o) :
    o = (if isSafeRelativePath windows i.path = true ∧ i.small = true then
        (exported windows req i).map (fun e => { e with data := req.actual i }) else none) ∧
      (o.isSome = true → (req.actual i).length ≤ kMaxEntryBytes) ∧
      (req.error ≠ none → (exported windows req i).isSome = true → isSafeRelativePath windows i.path = true →
        i.small = true) := by
  unfold collectItem at h
  by_cases hskip : isSafeRelativePath windows i.path = false ∨ req.excludes windows i = true ∨ i.symLink = true
  · rw [if_pos hskip] at h
    rw [← ok.inj h]
    by_cases hsafe : isSafeRelativePath windows i.path = false
    · simp [hsafe]
    have hnone : exported windows req i = none := by
      unfold exported
      rw [if_pos (hskip.resolve_left hsafe)]
    simp [hnone]
  rw [if_neg hskip] at h
  rw [not_or] at hskip
  have hsafe : isSafeRelativePath windows i.path = true := by simpa using hskip.1
  rw [hclean] at h
  unfold exported
  rw [if_neg hskip.2]
  cases hkind : i.kind with
  | dir =>
    simp only [hkind] at h
    rw [← ok.inj h]
    simp [hsafe, small, actual, hkind]
  | other =>
    simp only [hkind] at h
    have hnone : o = none := by
      repeat' split at h
      all_goals first
        | exact (ok.inj h).symm
        | cases h
    rw [hnone]
    simp
  | file size data =>
    simp only [hkind] at h
    by_cases hlarge : kMaxEntryBytes < size
    · rw [if_pos hlarge] at h
      have hbig : ¬ i.small = true := by
        simp only [small, hkind, decide_eq_true_eq]
        omega
      cases herror : req.error with
      | some text =>
        rw [herror] at h
        cases h
      | none =>
        rw [herror] at h
        rw [← ok.inj h]
        simp [hbig]
    rw [if_neg hlarge] at h
    have hsmall : i.small = true := by
      simp only [small, hkind, decide_eq_true_eq]
      omega
    cases hread : req.readFile i.path data with
    | none =>
      rw [hread] at h
      cases h
    | some bytes =>
      rw [hread] at h
      simp only at h
      have hactual : req.actual i = bytes := by simp [actual, hkind, hread]
      split at h
      · cases h
      rw [← ok.inj h]
      simp only [hsafe, hsmall, and_self, if_true, hactual, Option.map_some, true_and]
      refine ⟨fun _ => by omega, fun _ _ _ => trivial⟩

/-! ## The bytes of a nested database -/

theorem fileName_throneDb : fileName throneDb = throneDb := by decide

theorem fileName_throneStatsDb : fileName throneStatsDb = throneStatsDb := by decide

theorem readFile_eq_content (path : QStr) (data : Option Bytes) :
    (req.readFile path data).getD [] = req.content path data ↔
      (path ≠ fileName path → fileName path = throneDb ∨ fileName path = throneStatsDb →
        (req.snapshot (fileName path)).getD [] = data.getD []) := by
  unfold readFile content
  by_cases htop : path = fileName path
  · simp only
    rw [← htop]
    simp
  have hother : ¬ (path = throneDb ∨ path = throneStatsDb) := by
    rintro (rfl | rfl)
    · exact htop fileName_throneDb.symm
    · exact htop fileName_throneStatsDb.symm
  simp only [if_neg hother, ne_eq, htop, not_false_eq_true, true_implies]
  by_cases hleaf : fileName path = throneDb ∨ fileName path = throneStatsDb
  · simp [hleaf]
  · simp [hleaf]

/-- The entry that should be there has the bytes that were read. -/
theorem exported_data {i : Item} {e : Entry} (h : exported windows req i = some e) :
    { e with data := req.actual i } = e ↔ ∀ size data, i.kind = .file size data →
      i.path ≠ fileName i.path → fileName i.path = throneDb ∨ fileName i.path = throneStatsDb →
        (req.snapshot (fileName i.path)).getD [] = data.getD [] := by
  unfold exported at h
  split at h
  · cases h
  cases hkind : i.kind with
  | dir =>
    simp only [hkind, Option.some.injEq] at h
    rw [← h]
    simp [actual, hkind]
  | other =>
    simp only [hkind] at h
    cases h
  | file size data =>
    simp only [hkind, Option.some.injEq] at h
    rw [← h]
    have hread := @readFile_eq_content req i.path data
    simp only [actual, hkind, Entry.mk.injEq, true_and, Kind.file.injEq]
    rw [hread]
    constructor
    · rintro hall _ _ ⟨rfl, rfl⟩
      exact hall
    · intro hall
      exact hall size data ⟨rfl, rfl⟩

theorem exported_path {i : Item} {e : Entry} (h : exported windows req i = some e) :
    e.path = i.path ∧ (e.type = kEntryDir ∧ req.actual i = [] ∨ e.type = kEntryFile) := by
  unfold exported at h
  split at h
  · cases h
  cases hkind : i.kind with
  | dir =>
    simp only [hkind, Option.some.injEq] at h
    rw [← h]
    simp [actual, hkind]
  | other =>
    simp only [hkind] at h
    cases h
  | file size data =>
    simp only [hkind, Option.some.injEq] at h
    rw [← h]
    simp

/-! ## The archive is read back -/

theorem filterMap_sublist_of_le {α β : Type} {l : List α} {f g : α → Option β}
    (h : ∀ a ∈ l, ∀ b, f a = some b → g a = some b) : (l.filterMap f).Sublist (l.filterMap g) := by
  induction l with
  | nil => exact Sublist.refl _
  | cons a l ih =>
    have hrest := ih fun a ha => h a (.tail _ ha)
    rw [filterMap_cons, filterMap_cons]
    cases hf : f a with
    | none =>
      cases g a with
      | none => exact hrest
      | some b => exact hrest.cons b
    | some b =>
      rw [h a (by simp) b hf]
      exact hrest.cons_cons b

theorem mem_eq_of_path {items : List Item} (h : (items.map path).Nodup) {i j : Item} (hi : i ∈ items)
    (hj : j ∈ items) (heq : i.path = j.path) : i = j := inj_on_of_nodup_map h hi hj heq

theorem taken_eq (tree : Tree windows) {i : Item} (hi : i ∈ tree.items)
    (hok : collectItem windows req i = .ok (taken (collectItem windows req i))) {e : Entry}
    (he : taken (collectItem windows req i) = some e) :
    isSafeRelativePath windows i.path = true ∧ i.small = true ∧ e.path = i.path ∧ e.Plain windows ∧
      ∃ e', exported windows req i = some e' ∧ e = { e' with data := req.actual i } := by
  obtain ⟨htaken, hlen, -⟩ := collectItem_ok (tree.cleanPath_eq hi) hok
  rw [he] at htaken hlen
  split at htaken
  · rename_i hcond
    obtain ⟨e', he', heq⟩ := Option.map_eq_some_iff.mp htaken.symm
    obtain ⟨hpath, htype⟩ := exported_path he'
    subst heq
    refine ⟨hcond.1, hcond.2, hpath, ⟨?_, ?_, ?_, hlen rfl⟩, e', he', rfl⟩
    · exact htype
    · simp only [hpath]
      exact hcond.1
    · simp only [hpath]
      exact tree.normalized_eq hi
  · cases htaken

theorem createArchive_ok (tree : Tree windows) {bytes : Bytes}
    (h : createArchive windows req tree.items = .ok bytes) :
    bytes = writeEntries (tree.items.filterMap (fun i => taken (collectItem windows req i))) ∧
      (∀ i ∈ tree.items, collectItem windows req i = .ok (taken (collectItem windows req i))) ∧
      (∀ e ∈ tree.items.filterMap (fun i => taken (collectItem windows req i)), e.Plain windows) ∧
      ((tree.items.filterMap (fun i => taken (collectItem windows req i))).map Entry.path).Nodup := by
  unfold createArchive at h
  split at h
  · cases h
  split at h
  · cases h
  rename_i entries hcollect
  obtain ⟨hentries, hok⟩ := collect_ok hcollect
  split at h
  · cases h
  split at h
  · cases h
  refine ⟨by rw [← hentries]; exact (ok.inj h).symm, hok, ?_, ?_⟩
  · intro e he
    obtain ⟨i, hi, hie⟩ := mem_filterMap.mp he
    exact (taken_eq tree hi (hok i hi) hie).2.2.2.1
  have hsub : ((tree.items.filterMap (fun i => taken (collectItem windows req i))).map Entry.path).Sublist
      (tree.items.map path) := by
    rw [map_filterMap]
    have hmap : tree.items.map path = tree.items.filterMap (fun i => some i.path) := by simp
    rw [hmap]
    refine filterMap_sublist_of_le ?_
    intro i hi p hp
    obtain ⟨e, he, rfl⟩ := Option.map_eq_some_iff.mp hp
    rw [(taken_eq tree hi (hok i hi) he).2.2.1]
  exact hsub.nodup tree.distinct

theorem Item.small_iff (i : Item) :
    i.small = true ↔ ∀ size data, i.kind = .file size data → size ≤ kMaxEntryBytes := by
  unfold small
  cases i.kind with
  | dir => simp
  | other => simp
  | file size data =>
    simp only [decide_eq_true_eq, Kind.file.injEq]
    constructor
    · rintro h _ _ ⟨rfl, rfl⟩
      exact h
    · intro h
      exact h size data ⟨rfl, rfl⟩

/-- Nothing is passed over, and nested files have their own bytes. -/
def Collects (windows : Bool) (req : Request) (items : List Item) : Prop :=
  ∀ i ∈ items, taken (collectItem windows req i) = exported windows req i

theorem filterMap_eq_iff (tree : Tree windows)
    (hok : ∀ i ∈ tree.items, collectItem windows req i = .ok (taken (collectItem windows req i))) :
    tree.items.filterMap (fun i => taken (collectItem windows req i)) = tree.items.filterMap (exported windows req) ↔
      Collects windows req tree.items := by
  constructor
  · intro heq i hi
    cases hexp : exported windows req i with
    | none =>
      have htaken := (collectItem_ok (tree.cleanPath_eq hi) (hok i hi)).1
      rwa [hexp, Option.map_none, ite_self] at htaken
    | some e =>
      have hmem : e ∈ tree.items.filterMap (fun i => taken (collectItem windows req i)) := by
        rw [heq]
        exact mem_filterMap.mpr ⟨i, hi, hexp⟩
      obtain ⟨j, hj, hje⟩ := mem_filterMap.mp hmem
      have hpath := (taken_eq tree hj (hok j hj) hje).2.2.1
      rw [(exported_path hexp).1] at hpath
      rw [mem_eq_of_path tree.distinct hi hj hpath]
      exact hje
  · exact fun h => filterMap_congr h

theorem collects_iff (tree : Tree windows)
    (hok : ∀ i ∈ tree.items, collectItem windows req i = .ok (taken (collectItem windows req i))) :
    Collects windows req tree.items ↔ ∀ i ∈ tree.items, ∀ e, exported windows req i = some e →
      i.path.head? ≠ some colon ∧ (req.error = none → i.small = true) ∧ { e with data := req.actual i } = e := by
  constructor
  · intro h i hi e he
    obtain ⟨hsafe, hsmall, -, -, e', he', heq⟩ := taken_eq tree hi (hok i hi) ((h i hi).trans he)
    rw [he] at he'
    refine ⟨(tree.isSafe_iff hi).mp hsafe, fun _ => hsmall, ?_⟩
    rw [← Option.some.inj he'] at heq
    exact heq.symm
  · intro h i hi
    obtain ⟨htaken, -, hsmall⟩ := collectItem_ok (tree.cleanPath_eq hi) (hok i hi)
    rw [htaken]
    cases hexp : exported windows req i with
    | none => simp
    | some e =>
      obtain ⟨hcolon, hskip, hdata⟩ := h i hi e hexp
      have hsafe := (tree.isSafe_iff hi).mpr hcolon
      have hfits : i.small = true := by
        by_cases herror : req.error = none
        · exact hskip herror
        · exact hsmall herror (by rw [hexp]; rfl) hsafe
      rw [if_pos ⟨hsafe, hfits⟩, Option.map_some, hdata]

theorem exportable_iff (items : List Item) :
    Exportable windows req items ↔
      (items.filterMap (exported windows req)).length ≤ kMaxEntries ∧
      archiveSize (items.filterMap (exported windows req)) ≤ kMaxArchiveBytes ∧
      ∀ i ∈ items, ∀ e, exported windows req i = some e →
        i.path.head? ≠ some colon ∧ (req.error = none → i.small = true) ∧ { e with data := req.actual i } = e := by
  constructor
  · intro h
    refine ⟨h.count, h.size, ?_⟩
    intro i hi e he
    have hsome : (exported windows req i).isSome = true := by rw [he]; rfl
    exact ⟨h.named i hi hsome, fun herror => (small_iff i).mpr (h.noneSkipped herror i hi hsome),
      (exported_data he).mpr (h.own i hi hsome)⟩
  · rintro ⟨hcount, hsize, hall⟩
    refine ⟨hcount, hsize, ?_, ?_, ?_⟩
    · intro i hi hsome
      obtain ⟨e, he⟩ := Option.isSome_iff_exists.mp hsome
      exact (hall i hi e he).1
    · intro herror i hi hsome
      obtain ⟨e, he⟩ := Option.isSome_iff_exists.mp hsome
      exact (small_iff i).mp ((hall i hi e he).2.1 herror)
    · intro i hi hsome
      obtain ⟨e, he⟩ := Option.isSome_iff_exists.mp hsome
      exact (exported_data he).mp (hall i hi e he).2.2

end

/-- **An export is read back** as every directory and file that is not excluded, exactly
when it keeps within the caps of the reader and the names and files are plain. -/
theorem read_created_iff (windows : Bool) (req : Request) (tree : Tree windows) (bytes : Bytes)
    (h : createArchive windows req tree.items = .ok bytes) :
    readEntries windows bytes = .ok (tree.items.filterMap (exported windows req)) ↔
      Exportable windows req tree.items := by
  obtain ⟨hbytes, hok, hplain, hnodup⟩ := createArchive_ok tree h
  rw [hbytes, readEntries_write hplain hnodup, exportable_iff, ← collects_iff tree hok, ← filterMap_eq_iff tree hok]
  generalize tree.items.filterMap (fun i => taken (collectItem windows req i)) = collected
  constructor
  · intro hread
    by_cases hbig : kMaxArchiveBytes < archiveSize collected
    · rw [if_pos hbig] at hread
      cases hread
    rw [if_neg hbig] at hread
    by_cases hmany : kMaxEntries < collected.length
    · rw [if_pos hmany] at hread
      cases hread
    rw [if_neg hmany] at hread
    have heq := ok.inj hread
    rw [← heq]
    exact ⟨by omega, by omega, rfl⟩
  · rintro ⟨hcount, hsize, rfl⟩
    rw [if_neg (by omega), if_neg (by omega)]

instance (l : List QStr) : Decidable (Plain isSkipped isUp l) :=
  inferInstanceAs (Decidable (∀ n ∈ l, isSkipped n = false ∧ isUp n = false))

def stateExport : Request where
  sourceDir := latin1 "/home/config"
  archivePath := latin1 "/home/state.thronestate"
  absoluteFilePath := id
  snapshot := fun leaf => if leaf = throneDb then some [9] else if leaf = throneStatsDb then some [8] else none

def flatTree : Tree false where
  items := [{ path := throneDb, kind := .file 1 (some [1]) }, { path := latin1 "keep.txt", kind := .file 0 (some []) },
    { path := latin1 "temp", kind := .dir }]
  names := by decide
  noBackslash := by decide
  noDrive := by decide
  distinct := by decide

/-- A database of the same name in a sub-directory. -/
def nestedTree : Tree false where
  items := [{ path := throneDb, kind := .file 1 (some [1]) }, { path := latin1 "old", kind := .dir },
    { path := latin1 "old/throne.db", kind := .file 1 (some [2]) }]
  names := by decide
  noBackslash := by decide
  noDrive := by decide
  distinct := by decide

theorem read_created_flat :
    ∃ bytes, createArchive false stateExport flatTree.items = .ok bytes ∧
      (readEntries false bytes = .ok (flatTree.items.filterMap (exported false stateExport)) ↔
        Exportable false stateExport flatTree.items) := by
  have hcreated : createArchive false stateExport flatTree.items = .ok (writeEntries
      [{ type := kEntryFile, path := throneDb, data := [9] }, { type := kEntryFile, path := latin1 "keep.txt" }]) := by
    rfl
  exact ⟨_, hcreated, read_created_iff false stateExport flatTree _ hcreated⟩

/-- The nested database comes back with the snapshot of the top-level one. -/
theorem nested_database_replaced :
    ∃ bytes, createArchive false stateExport nestedTree.items = .ok bytes ∧
      readEntries false bytes ≠ .ok (nestedTree.items.filterMap (exported false stateExport)) := by
  have hcreated : createArchive false stateExport nestedTree.items = .ok (writeEntries
      [{ type := kEntryFile, path := throneDb, data := [9] }, { type := kEntryDir, path := latin1 "old" },
        { type := kEntryFile, path := latin1 "old/throne.db", data := [9] }]) := by
    rfl
  refine ⟨_, hcreated, ?_⟩
  intro heq
  have hread := congrArg Except.toOption heq
  revert hread
  decide +kernel

end Waterdisco.Archive
