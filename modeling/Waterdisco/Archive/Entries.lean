import Mathlib.Data.List.Infix
import Mathlib.Data.List.Nodup
import Waterdisco.Lib.Segments

/-!
# Reading a state archive

`readEntries` is the reader of the archive format over its bytes: a header, then
entries of a type byte, a path and, for a file, its content.  A path is checked
and stored as `QDir::cleanPath` leaves it with its backslashes turned into
slashes.  On Windows `cleanPath` sees both separators, on Unix only the slash, so
there the stored path is not clean.

    readEntries bytes = ok entries →
      (every path resolves strictly inside the root, no two to one path
        ↔ the stored paths pass the same check once more, and are still
          distinct when cleaned once more)               (inside_iff_checked_again)

Strings are UTF-16 code units, as `QString` holds them.
-/

namespace Waterdisco.Archive

open List

/-- The UTF-16 code units of a `QString`. -/
abbrev QStr := List UInt16

def slash : UInt16 := 47
def backslash : UInt16 := 92
def dot : UInt16 := 46
def colon : UInt16 := 58

/-! ## Paths -/

section
variable (windows : Bool)

/-- `path.replace('\\', '/')` -/
def toSlashes (path : QStr) : QStr := path.map fun c => if c = backslash then slash else c

/-- Empty segments and single dots lead nowhere. -/
def isSkipped (segment : QStr) : Bool := segment = [] || segment = [dot]

def isUp (segment : QStr) : Bool := segment = [dot, dot]

/-- The length of the prefix of an absolute path; Windows has drives. -/
def rootLength (name : QStr) : Nat :=
  if windows = true ∧ name[1]? = some colon then (if name[2]? = some slash then 3 else 2)
  else if name.head? = some slash then 1 else 0

/-- `QDir::cleanPath`: segments between slashes are normalised; Windows turns its
own separator into a slash first. -/
def cleanPath (path : QStr) : QStr :=
  if path.isEmpty then path
  else
    let name := if windows then toSlashes path else path
    let root := rootLength windows name
    let out := [slash].intercalate
      (normalizeFrom isSkipped isUp [] ((name.drop root).splitOn slash))
    if root = 0 ∧ out.isEmpty then [dot] else name.take root ++ out

/-- `QDir::isAbsolutePath`: a slash, a resource, or a drive. -/
def isAbsolutePath (path : QStr) : Bool :=
  path.head? = some slash || path.head? = some colon || (windows && path[1]? = some colon)

/-- The form a path is checked and stored in. -/
def normalized (path : QStr) : QStr := toSlashes (cleanPath windows path)

def isSafeRelativePath (path : QStr) : Bool :=
  let normalized := normalized windows path
  !normalized.isEmpty && normalized != [dot] && !isAbsolutePath windows normalized
    && normalized != [dot, dot] && !([dot, dot, slash].isPrefixOf normalized)
    && !decide ([slash, dot, dot, slash] <:+: normalized)

end

/-! ## The stream -/

abbrev Bytes := List UInt8

def kMagic : Nat := 0x54525354
def kCurrentVersion : Nat := 2
def kLegacyVersion : Nat := 1
def kEntryEnd : UInt8 := 0
def kEntryDir : UInt8 := 1
def kEntryFile : UInt8 := 2
def kMaxArchiveBytes : Nat := 1024 * 1024 * 1024
def kMaxEntryBytes : Nat := 256 * 1024 * 1024
def kMaxEntries : Nat := 100000

/-- `stream >> quint8`; `none` is a stream status other than `Ok`. -/
def readU8 : Bytes → Option (UInt8 × Bytes)
  | [] => none
  | b :: rest => some (b, rest)

/-- `stream >> quint32`, big endian. -/
def readU32 : Bytes → Option (Nat × Bytes)
  | a :: b :: c :: d :: rest =>
    some (((a.toNat * 256 + b.toNat) * 256 + c.toNat) * 256 + d.toNat, rest)
  | _ => none

def readRaw (n : Nat) (bytes : Bytes) : Option (Bytes × Bytes) :=
  if bytes.length < n then none else some (bytes.take n, bytes.drop n)

/-- Code units from big-endian byte pairs. -/
def units : Bytes → QStr
  | hi :: lo :: rest => (UInt16.ofNat (hi.toNat * 256 + lo.toNat)) :: units rest
  | _ => []

/-- `stream >> QString`: the byte length, then UTF-16; `0xffffffff` is the null string. -/
def readString (bytes : Bytes) : Option (QStr × Bytes) := do
  let (size, rest) ← readU32 bytes
  if size = 0xffffffff then return ([], rest)
  if size % 2 = 1 then none
  let (raw, rest) ← readRaw size rest
  return (units raw, rest)

def readByteArray (bytes : Bytes) : Option (Bytes × Bytes) := do
  let (size, rest) ← readU32 bytes
  if size = 0xffffffff then return ([], rest)
  readRaw size rest

/-! ## The reader -/

structure Entry where
  type : UInt8
  path : QStr
  data : Bytes := []
deriving DecidableEq

inductive ReadError where
  | size
  | header
  | truncated
  | unknownType
  | unsafePath
  | duplicate
  | invalidFile
  | expands
deriving DecidableEq

def ReadError.text : ReadError → String
  | size => "Archive size is invalid"
  | header => "Invalid Waterdisco state archive"
  | truncated => "Archive is truncated"
  | unknownType => "Archive contains an unknown entry type"
  | unsafePath => "Archive contains an unsafe path"
  | duplicate => "Archive contains duplicate or too many entries"
  | invalidFile => "Archive contains an invalid file entry"
  | expands => "Archive expands beyond the allowed size"

/-- What the reading loop carries. -/
structure Reader where
  seen : List QStr := []
  totalBytes : Nat := 0
  entries : List Entry := []

/-- One entry, or the end (`none`). -/
def readEntry (windows : Bool) (r : Reader) (bytes : Bytes) :
    Except ReadError (Option (Reader × Bytes)) :=
  match readU8 bytes with
  | none => .error .truncated
  | some (type, bytes) =>
    if type = kEntryEnd then .ok none
    else if type ≠ kEntryDir ∧ type ≠ kEntryFile then .error .unknownType
    else match readString bytes with
      | none => .error .unsafePath
      | some (stored, bytes) =>
        if isSafeRelativePath windows stored = false then .error .unsafePath
        else
          let path := normalized windows stored
          if path ∈ r.seen ∨ kMaxEntries ≤ r.seen.length then .error .duplicate
          else
            let seen := path :: r.seen
            if type = kEntryFile then
              match readByteArray bytes with
              | none => .error .invalidFile
              | some (data, bytes) =>
                if kMaxEntryBytes < data.length then .error .invalidFile
                else
                  let totalBytes := r.totalBytes + data.length
                  if kMaxArchiveBytes < totalBytes then .error .expands
                  else .ok (some ({ seen, totalBytes, entries := r.entries ++ [{ type, path, data }] }, bytes))
            else .ok (some ({ r with seen, entries := r.entries ++ [{ type, path }] }, bytes))

/-- The loop; an entry takes at least its type byte, so `fuel` bounds it. -/
def readLoop (windows : Bool) : Nat → Reader → Bytes → Except ReadError (List Entry)
  | 0, _, _ => .error .truncated
  | fuel + 1, r, bytes =>
    match readEntry windows r bytes with
    | .error e => .error e
    | .ok none => .ok r.entries
    | .ok (some (r, bytes)) => readLoop windows fuel r bytes

/-- `ReadEntries` over the content of a readable archive file. -/
def readEntries (windows : Bool) (bytes : Bytes) : Except ReadError (List Entry) :=
  if bytes.length = 0 ∨ kMaxArchiveBytes < bytes.length then .error .size
  else match readU32 bytes with
    | none => .error .header
    | some (magic, rest) => match readU32 rest with
      | none => .error .header
      | some (version, rest) =>
        if magic ≠ kMagic ∨ (version ≠ kLegacyVersion ∧ version ≠ kCurrentVersion) then .error .header
        else readLoop windows (rest.length + 1) {} rest

/-! ## What the archive stores -/

def streamPaths : Nat → Bytes → List QStr
  | 0, _ => []
  | fuel + 1, bytes =>
    match readU8 bytes with
    | none => []
    | some (type, bytes) =>
      if type = kEntryEnd then []
      else match readString bytes with
        | none => []
        | some (stored, bytes) =>
          if type = kEntryFile then
            match readByteArray bytes with
            | none => [stored]
            | some (_, bytes) => stored :: streamPaths fuel bytes
          else stored :: streamPaths fuel bytes

/-- The stored paths of an archive: its stream after the two header words. -/
def archivePaths (bytes : Bytes) : List QStr := streamPaths (bytes.length - 7) (bytes.drop 8)

/-- Where a path leads, segment by segment, from the extraction root. -/
def resolved (path : QStr) : Option (List QStr) := resolveFrom isSkipped isUp [] (path.splitOn slash)

/-- Every entry strictly inside the root, no two at one place. -/
def Inside (entries : List Entry) : Prop :=
  (∀ e ∈ entries, ∃ q, resolved e.path = some q ∧ q ≠ []) ∧ (entries.map fun e => resolved e.path).Nodup

def leavesRoot (path : QStr) : Bool :=
  path = [dot] || path = [dot, dot] || [dot, dot, slash].isPrefixOf path

/-! ## The loop -/

/-- What is kept of the entries read so far: their paths are the seen ones, each once. -/
structure Reader.Ok (r : Reader) : Prop where
  seen : r.seen = (r.entries.map (·.path)).reverse
  nodup : (r.entries.map (·.path)).Nodup

variable {r : Reader} {bytes : Bytes} {entries : List Entry} {path : QStr} {q : List QStr}

variable {windows : Bool}

theorem readEntry_ok {r' : Reader} {rest : Bytes} (hr : r.Ok)
    (h : readEntry windows r bytes = .ok (some (r', rest))) :
    ∃ type stored data after, readU8 bytes = some (type, after) ∧ type ≠ kEntryEnd ∧
      isSafeRelativePath windows stored = true ∧ r'.Ok ∧
      r'.entries = r.entries ++ [{ type, path := normalized windows stored, data }] ∧
      ∀ fuel, streamPaths (fuel + 1) bytes = stored :: streamPaths fuel rest := by
  unfold readEntry at h
  cases h8 : readU8 bytes with
  | none => rw [h8] at h; cases h
  | some p =>
    obtain ⟨type, after⟩ := p
    rw [h8] at h
    simp only at h
    split at h
    · cases h
    rename_i hend
    split at h
    · cases h
    cases hs : readString after with
    | none => rw [hs] at h; cases h
    | some p =>
      obtain ⟨stored, after'⟩ := p
      rw [hs] at h
      simp only at h
      split at h
      · cases h
      rename_i hsafe
      have hsafe : isSafeRelativePath windows stored = true := by simpa using hsafe
      split at h
      · cases h
      rename_i hseen
      rw [not_or] at hseen
      have hok : ∀ (data : Bytes) (total : Nat), Reader.Ok
          { seen := normalized windows stored :: r.seen, totalBytes := total,
            entries := r.entries ++ [{ type, path := normalized windows stored, data }] } := by
        intro data total
        refine ⟨by simp [hr.seen], ?_⟩
        simp only [map_append, map_cons, map_nil]
        refine nodup_append.mpr ⟨hr.nodup, by simp, ?_⟩
        rintro a ha b hb rfl
        rw [mem_singleton] at hb
        exact hseen.1 (by rw [hr.seen, mem_reverse, ← hb]; exact ha)
      split at h
      · rename_i hfile
        cases hd : readByteArray after' with
        | none => rw [hd] at h; cases h
        | some p =>
          obtain ⟨data, after''⟩ := p
          rw [hd] at h
          simp only at h
          split at h
          · cases h
          split at h
          · cases h
          cases h
          refine ⟨type, stored, data, after, rfl, hend, hsafe, hok _ _, rfl, fun fuel => ?_⟩
          simp only [streamPaths, h8, if_neg hend, hs, if_pos hfile, hd]
      · rename_i hfile
        cases h
        refine ⟨type, stored, [], after, rfl, hend, hsafe, hok _ _, rfl, fun fuel => ?_⟩
        simp only [streamPaths, h8, if_neg hend, hs, if_neg hfile]

theorem readEntry_end (h : readEntry windows r bytes = .ok none)
    (fuel : Nat) : streamPaths (fuel + 1) bytes = [] := by
  unfold readEntry at h
  unfold streamPaths
  cases h8 : readU8 bytes with
  | none => rfl
  | some p =>
    rw [h8] at h
    simp only at h ⊢
    split at h
    · rename_i he
      rw [if_pos he]
    repeat' split at h
    all_goals cases h

/-- **The whole stream**: the entries are the stored paths, checked, normalised and
without repeats. -/
theorem readLoop_ok (fuel : Nat)
    (hr : r.Ok) (h : readLoop windows fuel r bytes = .ok entries) :
    entries.map (·.path) = r.entries.map (·.path) ++ (streamPaths fuel bytes).map (normalized windows) ∧
      (entries.map (·.path)).Nodup ∧
      ∀ p ∈ streamPaths fuel bytes, isSafeRelativePath windows p = true := by
  induction fuel generalizing r bytes with
  | zero => cases h
  | succ fuel ih =>
    unfold readLoop at h
    split at h
    · cases h
    · rename_i hnone
      cases h
      rw [readEntry_end hnone fuel]
      exact ⟨by simp, hr.nodup, by simp⟩
    rename_i r' rest hsome
    obtain ⟨type, stored, data, after, -, -, hsafe, hr', hent, hpaths⟩ := readEntry_ok hr hsome
    obtain ⟨h1, h2, h3⟩ := ih hr' h
    rw [hpaths fuel]
    refine ⟨?_, h2, ?_⟩
    · rw [h1, hent]
      simp
    intro p hp
    rcases mem_cons.mp hp with rfl | hp
    · exact hsafe
    · exact h3 p hp

theorem readU32_spec {rest : Bytes} {n : Nat} (h : readU32 bytes = some (n, rest)) :
    rest = bytes.drop 4 ∧ bytes.length = rest.length + 4 := by
  match bytes, h with
  | a :: b :: c :: d :: tail, h =>
    obtain ⟨-, rfl⟩ := Prod.mk.inj (Option.some.inj h)
    exact ⟨rfl, rfl⟩

theorem readEntries_ok
    (h : readEntries windows bytes = .ok entries) :
    entries.map (·.path) = (archivePaths bytes).map (normalized windows) ∧
      (entries.map (·.path)).Nodup ∧ ∀ p ∈ archivePaths bytes, isSafeRelativePath windows p = true := by
  unfold readEntries at h
  split at h
  · cases h
  cases h1 : readU32 bytes with
  | none => rw [h1] at h; cases h
  | some p =>
    obtain ⟨magic, rest⟩ := p
    rw [h1] at h
    simp only at h
    cases h2 : readU32 rest with
    | none => rw [h2] at h; cases h
    | some p =>
      obtain ⟨version, rest'⟩ := p
      rw [h2] at h
      simp only at h
      split at h
      · cases h
      obtain ⟨hd1, hl1⟩ := readU32_spec h1
      obtain ⟨hd2, hl2⟩ := readU32_spec h2
      have hfuel : bytes.length - 7 = rest'.length + 1 := by omega
      have hdrop : bytes.drop 8 = rest' := by rw [hd2, hd1, drop_drop]
      unfold archivePaths
      rw [hfuel, hdrop]
      have hstart : Reader.Ok {} := ⟨rfl, nodup_nil⟩
      simpa using readLoop_ok (rest'.length + 1) hstart h

/-! ## Clean paths -/

theorem plain_nil : Plain isSkipped isUp [] := fun _ h => by cases h

theorem resolved_plain (h : resolved path = some q) :
    Plain isSkipped isUp q ∧ ∀ seg ∈ q, slash ∉ seg := by
  refine ⟨plain_nil.resolveFrom h, fun seg hseg => ?_⟩
  rcases resolveFrom_subset h seg hseg with hm | hm
  · cases hm
  · exact not_mem_of_mem_splitOn slash path seg hm

theorem toSlashes_toSlashes (path : QStr) : toSlashes (toSlashes path) = toSlashes path := by
  unfold toSlashes
  rw [map_map]
  refine map_congr_left fun c _ => ?_
  split <;> simp_all [slash, backslash]

/-- A path without a root that `cleanPath` sees as it is. -/
structure Rootless (windows : Bool) (path : QStr) : Prop where
  ne : path ≠ []
  seen : windows = true → toSlashes path = path
  root : rootLength windows path = 0

theorem cleanPath_rootless (h : Rootless windows path) :
    cleanPath windows path =
      if ([slash].intercalate (normalizeFrom isSkipped isUp [] (path.splitOn slash))).isEmpty then [dot]
      else [slash].intercalate (normalizeFrom isSkipped isUp [] (path.splitOn slash)) := by
  have hname : (if windows = true then toSlashes path else path) = path := by
    split
    · rename_i hw
      exact h.seen hw
    · rfl
  unfold cleanPath
  have hne : path.isEmpty = false := by simpa using h.ne
  simp only [hname, hne, h.root, Bool.false_eq_true, if_false, drop_zero, take_zero,
    nil_append, true_and]

theorem intercalate_plain (hne : q ≠ []) (hp : Plain isSkipped isUp q)
    (hs : ∀ seg ∈ q, slash ∉ seg) :
    ([slash].intercalate q).isEmpty = false ∧ leavesRoot ([slash].intercalate q) = false := by
  have hsplit := splitOn_intercalate slash hs hne
  have hno : ∀ l : QStr, (∃ seg ∈ l.splitOn slash, isSkipped seg = true ∨ isUp seg = true) →
      [slash].intercalate q ≠ l := by
    rintro l ⟨seg, hseg, hk⟩ rfl
    rw [hsplit] at hseg
    rcases hk with hk | hk
    · rw [(hp seg hseg).1] at hk; cases hk
    · rw [(hp seg hseg).2] at hk; cases hk
  constructor
  · have := hno [] ⟨[], by simp, .inl rfl⟩
    simpa using this
  unfold leavesRoot
  have h1 := hno [dot] ⟨[dot], by decide, .inl rfl⟩
  have h2 := hno [dot, dot] ⟨[dot, dot], by decide, .inr rfl⟩
  have h3 : [dot, dot, slash].isPrefixOf ([slash].intercalate q) = false := by
    by_contra hpre
    have hpre : [dot, dot, slash].isPrefixOf ([slash].intercalate q) = true := by simpa using hpre
    obtain ⟨tail, ht⟩ := isPrefixOf_iff_prefix.mp hpre
    refine hno ([dot, dot] ++ slash :: tail) ⟨[dot, dot], ?_, .inr rfl⟩ ht.symm
    rw [splitOn_append_cons_self]
    exact mem_append_left _ (by decide)
  simp [h1, h2, h3]

/-- **Cleaning once more tells where a path leads.** -/
theorem leavesRoot_clean (h : Rootless windows path) :
    leavesRoot (cleanPath windows path) = false ↔ ∃ q, resolved path = some q ∧ q ≠ [] := by
  rw [cleanPath_rootless h]
  cases hr : resolved path with
  | none =>
    obtain ⟨u, tail, hu, -, ht⟩ := normalize_of_escape plain_nil hr
    have hu : u = [dot, dot] := by simpa [isUp] using hu
    rw [ht, hu]
    cases tail with
    | nil => simp [leavesRoot, intercalate]
    | cons a tail => simp [leavesRoot, intercalate, isPrefixOf]
  | some q =>
    rw [normalize_of_resolve plain_nil hr]
    by_cases hq : q = []
    · subst hq
      simp [leavesRoot, intercalate]
    obtain ⟨hp, hs⟩ := resolved_plain hr
    obtain ⟨h1, h2⟩ := intercalate_plain hq hp hs
    rw [h1]
    simp [h2, hq]

theorem cleanPath_of_resolved (h : Rootless windows path)
    (hr : resolved path = some q) (hq : q ≠ []) :
    cleanPath windows path = [slash].intercalate q ∧ ([slash].intercalate q).splitOn slash = q := by
  obtain ⟨hp, hs⟩ := resolved_plain hr
  rw [cleanPath_rootless h, normalize_of_resolve plain_nil hr, (intercalate_plain hq hp hs).1]
  exact ⟨rfl, splitOn_intercalate slash hs hq⟩

theorem isSafe_parts {stored : QStr} (h : isSafeRelativePath windows stored = true) :
    normalized windows stored ≠ [] ∧ leavesRoot (normalized windows stored) = false ∧
      isAbsolutePath windows (normalized windows stored) = false := by
  unfold isSafeRelativePath at h
  simp only [Bool.and_eq_true, Bool.not_eq_true', bne_iff_ne, ne_eq, isEmpty_eq_false_iff] at h
  obtain ⟨⟨⟨⟨⟨h1, h2⟩, h3⟩, h4⟩, h5⟩, -⟩ := h
  exact ⟨h1, by simp [leavesRoot, h2, h4, h5], h3⟩

theorem rootless_of_relative (h : isAbsolutePath windows path = false) :
    rootLength windows path = 0 := by
  unfold isAbsolutePath at h
  simp only [Bool.or_eq_false_iff, Bool.and_eq_false_iff, decide_eq_false_iff_not] at h
  unfold rootLength
  rw [if_neg, if_neg h.1.1]
  rintro ⟨hw, hc⟩
  rcases h.2 with h | h
  · rw [hw] at h; cases h
  · exact h hc

theorem rootless_normalized {stored : QStr} (h : isSafeRelativePath windows stored = true) :
    Rootless windows (normalized windows stored) :=
  ⟨(isSafe_parts h).1, fun _ => toSlashes_toSlashes _, rootless_of_relative (isSafe_parts h).2.2⟩

theorem resolves_iff
    (h : readEntries windows bytes = .ok entries) :
    (∀ e ∈ entries, ∃ q, resolved e.path = some q ∧ q ≠ []) ↔
      ∀ p ∈ archivePaths bytes, leavesRoot (cleanPath windows (normalized windows p)) = false := by
  obtain ⟨hpaths, -, hsafe⟩ := readEntries_ok h
  constructor
  · intro hall p hp
    have hm : normalized windows p ∈ entries.map (·.path) := by
      rw [hpaths]; exact mem_map_of_mem hp
    obtain ⟨e, he, hpe⟩ := mem_map.mp hm
    rw [leavesRoot_clean (rootless_normalized (hsafe p hp)), ← hpe]
    exact hall e he
  · intro hall e he
    have hm : e.path ∈ (archivePaths bytes).map (normalized windows) := by
      rw [← hpaths]; exact mem_map_of_mem he
    obtain ⟨p, hp, hpe⟩ := mem_map.mp hm
    rw [← hpe]
    exact (leavesRoot_clean (rootless_normalized (hsafe p hp))).mp (hall p hp)

theorem resolved_eq_iff {p p' : QStr} (hp : Rootless windows p) (hp' : Rootless windows p')
    (h : leavesRoot (cleanPath windows p) = false) (h' : leavesRoot (cleanPath windows p') = false) :
    resolved p = resolved p' ↔ cleanPath windows p = cleanPath windows p' := by
  obtain ⟨q, hq, hne⟩ := (leavesRoot_clean hp).mp h
  obtain ⟨q', hq', hne'⟩ := (leavesRoot_clean hp').mp h'
  obtain ⟨hc, hs⟩ := cleanPath_of_resolved hp hq hne
  obtain ⟨hc', hs'⟩ := cleanPath_of_resolved hp' hq' hne'
  rw [hc, hc', hq, hq']
  constructor
  · intro e
    rw [Option.some.inj e]
  · intro e
    rw [← hs, ← hs', e]

theorem distinct_iff
    (h : readEntries windows bytes = .ok entries)
    (hall : ∀ p ∈ archivePaths bytes, leavesRoot (cleanPath windows (normalized windows p)) = false) :
    (entries.map fun e => resolved e.path).Nodup ↔
      ((archivePaths bytes).map fun p => cleanPath windows (normalized windows p)).Nodup := by
  obtain ⟨hpaths, -, hsafe⟩ := readEntries_ok h
  have hmap : (entries.map fun e => resolved e.path) =
      (archivePaths bytes).map fun p => resolved (normalized windows p) := by
    have := congrArg (map resolved) hpaths
    simpa [map_map, Function.comp_def] using this
  have hsame : ∀ p ∈ archivePaths bytes, ∀ p' ∈ archivePaths bytes,
      (resolved (normalized windows p) = resolved (normalized windows p') ↔
        cleanPath windows (normalized windows p) = cleanPath windows (normalized windows p')) :=
    fun p hp p' hp' => resolved_eq_iff (rootless_normalized (hsafe p hp)) (rootless_normalized (hsafe p' hp'))
      (hall p hp) (hall p' hp')
  rw [hmap, Nodup, Nodup, pairwise_map, pairwise_map]
  constructor
  · exact fun hn => hn.imp_of_mem fun ha hb hne e => hne ((hsame _ ha _ hb).mpr e)
  · exact fun hn => hn.imp_of_mem fun ha hb hne e => hne ((hsame _ ha _ hb).mp e)

/-- **What an accepted archive extracts.**  Its entries stay strictly inside the
root and apart exactly when its stored paths, in the form they were accepted in,
do not leave the root when cleaned once more and are still distinct then. -/
theorem inside_iff_checked_again (windows : Bool) (bytes : Bytes) (entries : List Entry)
    (h : readEntries windows bytes = .ok entries) :
    Inside entries ↔
      (∀ p ∈ archivePaths bytes, leavesRoot (cleanPath windows (normalized windows p)) = false) ∧
        ((archivePaths bytes).map fun p => cleanPath windows (normalized windows p)).Nodup := by
  unfold Inside
  rw [resolves_iff h]
  exact and_congr_right fun hall => distinct_iff h hall

/-- The archive of the directory entries `a/b` and `a\c`. -/
def plainArchive : Bytes :=
  [0x54, 0x52, 0x53, 0x54, 0, 0, 0, 2, 1, 0, 0, 0, 6, 0, 97, 0, 47, 0, 98, 1, 0, 0, 0, 6, 0, 97, 0, 92, 0, 99, 0]

/-- `a/b` and `a/c` -/
def plainEntries : List Entry := [{ type := 1, path := [97, 47, 98] }, { type := 1, path := [97, 47, 99] }]

theorem plainArchive_inside : readEntries false plainArchive = .ok plainEntries ∧ Inside plainEntries :=
  ⟨by decide, (inside_iff_checked_again false plainArchive _ (by decide)).mpr ⟨by decide, by decide⟩⟩

/-- The archive of one directory entry `.\..`, a single name to `cleanPath` on Unix. -/
def parentArchive : Bytes :=
  [0x54, 0x52, 0x53, 0x54, 0, 0, 0, 2, 1, 0, 0, 0, 8, 0, 46, 0, 92, 0, 46, 0, 46, 0]

/-- It is accepted, and its entry is the parent of the extraction root. -/
theorem parentArchive_not_inside :
    readEntries false parentArchive = .ok [{ type := 1, path := [46, 47, 46, 46] }] ∧
      ¬ Inside [{ type := 1, path := [46, 47, 46, 46] }] := by
  refine ⟨by decide, fun h => ?_⟩
  obtain ⟨q, hq, -⟩ := h.1 _ mem_cons_self
  exact absurd (hq.symm.trans (by decide : resolved [46, 47, 46, 46] = none)) (by simp)

/-! ## Where the paths are clean -/

theorem toSlashes_eq_self (h : backslash ∉ path) : toSlashes path = path := by
  conv_rhs => rw [← map_id path]
  refine map_congr_left fun c hc => ?_
  have hne : c ≠ backslash := fun e => h (e ▸ hc)
  rw [if_neg hne, id]

end Waterdisco.Archive
