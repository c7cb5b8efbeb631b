import Waterdisco.Api.Remote

/-!
# The allowed addresses

The setting is a text of addresses and networks; `ParseAllowList` makes the list of networks
that a worker with a LAN configuration admits peers from.  An entry that is neither is left out,
and an empty list admits everyone.

    parseAllowList parseSubnet text      the networks of the text
    EntryAdmits env parseSubnet e a      the entry is a written network that holds the address
-/

namespace Waterdisco.Remote

open List

variable {Addr Body : Type} (env : Env Addr Body) (parseSubnet : String → Addr × Int)

/-! ## Parsing -/

/-- `[,\s]`, which is a comma or ASCII white space. -/
def separator (c : Char) : Bool := c == ',' || c == ' ' || ('\t' ≤ c && c ≤ '\r')

/-- `text.split(separators, Qt::SkipEmptyParts)`. -/
def allowEntries (text : String) : List String :=
  ((text.toList.splitOnP separator).filter (fun part => !part.isEmpty)).map String.ofList

/-- `entry.section('/', 0, 0)`. -/
def entryHost (entry : String) : List Char := entry.toList.takeWhile (· != '/')

/-- An address without a prefix is a network of its own. -/
def withPrefix (entry : String) : String :=
  if entry.toList.contains '/' then entry else entry ++ if (entryHost entry).contains ':' then "/128" else "/32"

def parseAllowEntry (entry : String) : Option (Addr × Int) :=
  -- parseSubnet alone takes abbreviated IPv4
  if !(entryHost entry).contains ':' && (entryHost entry).count '.' != 3 then none
  else
    let subnet := parseSubnet (withPrefix entry)
    if 0 ≤ subnet.2 then some subnet else none

def parseAllowList (text : String) : List (Addr × Int) := (allowEntries text).filterMap (parseAllowEntry parseSubnet)

/-! ## What an entry says -/

/-- Written with four dotted parts or with colons. -/
def Written (entry : String) : Prop := ((entryHost entry).splitOn '.').length = 4 ∨ ':' ∈ entryHost entry

/-- It is an address or a network. -/
def Valid (entry : String) : Prop := Written entry ∧ 0 ≤ (parseSubnet (withPrefix entry)).2

/-- Its network holds the address. -/
def EntryAdmits (entry : String) (address : Addr) : Prop :=
  Valid parseSubnet entry ∧ env.isInSubnet address (parseSubnet (withPrefix entry)) = true

instance (entry : String) : Decidable (Written entry) :=
  inferInstanceAs (Decidable (((entryHost entry).splitOn '.').length = 4 ∨ ':' ∈ entryHost entry))

instance (entry : String) : Decidable (Valid parseSubnet entry) :=
  inferInstanceAs (Decidable (Written entry ∧ 0 ≤ (parseSubnet (withPrefix entry)).2))

instance (entry : String) (address : Addr) : Decidable (EntryAdmits env parseSubnet entry address) :=
  inferInstanceAs (Decidable (Valid parseSubnet entry ∧ env.isInSubnet address (parseSubnet (withPrefix entry)) = true))

theorem length_splitOn (c : Char) (text : List Char) : (text.splitOn c).length = text.count c + 1 := by
  induction text with
  | nil => rfl
  | cons x rest ih =>
    rw [splitOn_cons_eq_if_modifyHead]
    by_cases hx : x = c
    · subst hx
      simp [ih]
    · have hne : (x == c) = false := by simpa using hx
      simp [hne, ih, count_cons]

theorem written_iff (entry : String) :
    Written entry ↔ (!(entryHost entry).contains ':' && (entryHost entry).count '.' != 3) = false := by
  have hfour : (entryHost entry).count '.' + 1 = 4 ↔ (entryHost entry).count '.' = 3 := by omega
  rw [Written, length_splitOn, hfour, Bool.and_eq_false_iff, Bool.not_eq_false', contains_iff_mem, bne_eq_false_iff_eq]
  exact or_comm

theorem parseAllowEntry_eq_some {entry : String} {subnet : Addr × Int} :
    parseAllowEntry parseSubnet entry = some subnet ↔ Valid parseSubnet entry ∧
      parseSubnet (withPrefix entry) = subnet := by
  rw [parseAllowEntry, Valid, written_iff]
  cases hskip : !(entryHost entry).contains ':' && (entryHost entry).count '.' != 3 with
  | true => simp
  | false =>
    by_cases hvalid : 0 ≤ (parseSubnet (withPrefix entry)).2
    · simp [hvalid]
    · simp [hvalid]

theorem parseAllowList_eq_nil {text : String} :
    parseAllowList parseSubnet text = [] ↔ ∀ entry ∈ allowEntries text, ¬Valid parseSubnet entry := by
  rw [parseAllowList, filterMap_eq_nil_iff]
  refine forall₂_congr fun entry _ => ?_
  rw [Option.eq_none_iff_forall_ne_some]
  constructor
  · intro h hvalid
    exact h _ ((parseAllowEntry_eq_some parseSubnet).mpr ⟨hvalid, rfl⟩)
  · intro h subnet hsubnet
    exact h ((parseAllowEntry_eq_some parseSubnet).mp hsubnet).1

theorem any_parseAllowList (text : String) (address : Addr) :
    (parseAllowList parseSubnet text).any (env.isInSubnet address) = true ↔
      ∃ entry ∈ allowEntries text, EntryAdmits env parseSubnet entry address := by
  rw [any_eq_true]
  constructor
  · rintro ⟨subnet, hsubnet, hin⟩
    obtain ⟨entry, hentry, hparse⟩ := mem_filterMap.mp hsubnet
    obtain ⟨hvalid, rfl⟩ := (parseAllowEntry_eq_some parseSubnet).mp hparse
    exact ⟨entry, hentry, hvalid, hin⟩
  · rintro ⟨entry, hentry, hvalid, hin⟩
    exact ⟨_, mem_filterMap.mpr ⟨entry, hentry, (parseAllowEntry_eq_some parseSubnet).mpr ⟨hvalid, rfl⟩⟩, hin⟩

/-! ## Peers -/

theorem isAllowed_outside [DecidableEq Addr] {w : Worker Addr Body} (hlan : w.config.lan = true) {address : Addr}
    (hpeer : w.isLocal env address = false) :
    w.isAllowed env address = (w.config.allow.isEmpty || w.config.allow.any (env.isInSubnet address)) := by
  rw [Worker.isAllowed, hpeer, hlan]
  cases w.config.allow with
  | nil => rfl
  | cons subnet rest => rfl

/-- **An outside peer is admitted by what the entries say** exactly where some entry is an address or a network. -/
theorem isAllowed_iff_entries [DecidableEq Addr] (text : String) (w : Worker Addr Body) (hlan : w.config.lan = true)
    (hallow : w.config.allow = parseAllowList parseSubnet text) (address : Addr)
    (hpeer : w.isLocal env address = false) :
    (w.isAllowed env address = true ↔ ∃ entry ∈ allowEntries text, EntryAdmits env parseSubnet entry address) ↔
      ∃ entry ∈ allowEntries text, Valid parseSubnet entry := by
  have hempty := @parseAllowList_eq_nil _ parseSubnet text
  rw [isAllowed_outside env hlan hpeer, hallow, ← any_parseAllowList, Bool.or_eq_true, List.isEmpty_iff]
  constructor
  · intro h
    by_contra hnone
    push Not at hnone
    -- the empty list admits the address, and nothing in it does
    rw [hempty.mpr hnone] at h
    simp at h
  · rintro ⟨entry, hentry, hvalid⟩
    have hne : ¬parseAllowList parseSubnet text = [] := fun hnil => hempty.mp hnil entry hentry hvalid
    simp only [hne, false_or]

section Tests

/-- Addresses are IPv4 ones, by value. -/
def testEnv : Env Nat Unit where
  aeadWrite _ _ _ _ := []
  aeadRead _ _ _ _ := none
  hmac _ _ := []
  parseRequest _ := .error ""
  serializeResponse _ := []
  normalizedPeer := id
  text _ := ""
  isLoopback address := address / 2 ^ 24 == 127
  isEvery _ := false
  isInSubnet address subnet := address / 2 ^ (32 - subnet.2.toNat) == subnet.1 / 2 ^ (32 - subnet.2.toNat)

/-- What `QHostAddress::parseSubnet` gives for the texts of the tests. -/
def testSubnet (text : String) : Nat × Int :=
  if text == "192.168.1.0/24" then (3232235776, 24) else if text == "10" then (167772160, 8) else (0, -1)

def testWorker (text : String) : Worker Nat Unit :=
  Worker.apply testEnv {} { enabled := true, lan := true, key := replicate kKeySize 0, allow := parseAllowList testSubnet text } true

end Tests

/-- A mistyped entry beside a network: 192.168.1.7 is admitted by the network. -/
theorem isAllowed_iff_entries_mixed :
    ((testWorker "10, 192.168.1.0/24").isAllowed testEnv 3232235783 = true ↔
        ∃ entry ∈ allowEntries "10, 192.168.1.0/24", EntryAdmits testEnv testSubnet entry 3232235783) ∧
      (testWorker "10, 192.168.1.0/24").isAllowed testEnv 3232235783 = true :=
  ⟨(isAllowed_iff_entries testEnv testSubnet "10, 192.168.1.0/24" (testWorker "10, 192.168.1.0/24") rfl rfl 3232235783
      (by decide)).mpr ⟨"192.168.1.0/24", by decide, by decide⟩, by decide⟩

/-- The list `10` names no address, and 8.8.8.8 is admitted. -/
theorem not_isAllowed_iff_entries :
    ¬((testWorker "10").isAllowed testEnv 134744072 = true ↔
        ∃ entry ∈ allowEntries "10", EntryAdmits testEnv testSubnet entry 134744072) := by
  decide

end Waterdisco.Remote
