import Waterdisco.Scan.IpListRanges
import Waterdisco.Scan.ListStore

/-!
# What a list is read as

    every entry of a text is in normal form and means to the core the network it was
      read as ↔ no range of the text crosses the IPv4-mapped addresses from less than
      2 ^ 32 below them                                        (entries_read_iff)

A range that crosses them gets the block of all mapped addresses, which the core takes
for the whole of IPv4.
-/

namespace Waterdisco.Scan

open List Option String Nat IpListParseToken

/-! ## Ranges -/

theorem ipListParseRangeEnd_ok {text : List Char} {addr : IpListParseAddr}
    (h : ipListParseRangeEnd text = some addr) : addr.Valid ∧ ipListParseIsMapped addr = false := by
  unfold ipListParseRangeEnd at h
  simp only at h
  generalize (if text.head? = some '[' ∧ text.getLast? = some ']' then (text.drop 1).take (text.length - 2)
    else text) = inner at h
  split at h
  · cases h
  split at h
  · cases h
  rename_i a ha
  have hvalid := ipListParseAddress_valid ha
  rw [← some.inj h]
  split
  · exact ⟨⟨by simp, by simp only; omega, fun _ => ⟨rfl, Nat.mod_lt _ (Nat.two_pow_pos 32)⟩⟩, by
      simp [ipListParseIsMapped]⟩
  · rename_i hmapped
    exact ⟨hvalid, by simpa using hmapped⟩

variable {first last : IpListParseAddr} {p : Parser} {networks : List (IpListParseAddr × Nat)} (line : Line)

theorem rangeLast_ok {right : List Char} (hf : first.Valid)
    (h : rangeLast first right = some last) :
    last.Valid ∧ ipListParseIsMapped last = false ∧ last.v6 = first.v6 := by
  unfold rangeLast at h
  split at h
  · rename_i octet hoctet
    split at h
    · cases h
    have h4 : first.v6 = false := by
      by_contra hc
      rw [if_pos (by simpa using hc)] at hoctet
      cases hoctet
    obtain ⟨hz, hlo⟩ := hf.v4 h4
    rw [← some.inj h]
    refine ⟨⟨hf.hi, by simp only; omega, fun _ => ⟨hz, by simp only; omega⟩⟩, ?_, rfl⟩
    simp [ipListParseIsMapped, h4]
  · split at h
    · cases h
    rename_i a ha
    split at h
    · cases h
    rename_i hsame
    rw [← some.inj h]
    exact ⟨(ipListParseRangeEnd_ok ha).1, (ipListParseRangeEnd_ok ha).2, by simpa using hsame⟩

/-- The ends of a range: addresses of one family in order, neither a mapped one. -/
structure RangeOk (first last : IpListParseAddr) : Prop where
  firstValid : first.Valid
  lastValid : last.Valid
  family : first.v6 = last.v6
  le : first.value ≤ last.value
  firstPlain : ipListParseIsMapped first = false
  lastPlain : ipListParseIsMapped last = false

theorem rangeEnds_ok {token : List Char} {port : Option Nat}
    (h : rangeEnds token = some (first, last, port)) : RangeOk first last ∧ '-' ∈ token := by
  unfold rangeEnds at h
  split at h
  · cases h
  rename_i left right hcut
  split at h
  · cases h
  split at h
  · cases h
  rename_i a ha
  obtain ⟨havalid, haplain⟩ := ipListParseRangeEnd_ok ha
  split at h
  · cases h
  rename_i b hb
  obtain ⟨hbvalid, hbplain, hfamily⟩ := rangeLast_ok havalid hb
  refine ⟨?_, mem_of_cut hcut⟩
  by_cases hless : ipListParseLess b a = true
  · rw [if_pos hless] at h
    obtain ⟨rfl, rfl, -⟩ := h
    exact ⟨hbvalid, havalid, hfamily, le_of_lt ((less_iff hbvalid havalid).mp hless), hbplain, haplain⟩
  · rw [if_neg hless] at h
    obtain ⟨rfl, rfl, -⟩ := h
    refine ⟨havalid, hbvalid, hfamily.symm, ?_, haplain, hbplain⟩
    exact Nat.le_of_not_lt fun hc => hless ((less_iff hbvalid havalid).mpr hc)

/-! ## Tokens -/

/-- The token is a range that crosses the mapped addresses. -/
def RangeCrosses (token : List Char) : Prop :=
  ∃ first last port, rangeEnds token = some (first, last, port) ∧ CrossesMapped first last

/-- The networks of a token that names addresses. -/
def tokenNetworks (token : List Char) : List (IpListParseAddr × Nat) :=
  ((ipListParseAddressToken token).map Prod.fst).getD []

theorem tokenNetworks_of_ends {token : List Char} {port : Option Nat}
    (h : rangeEnds token = some (first, last, port)) :
    tokenNetworks token = (ipListParseCoverRange first last).getD [] := by
  have hdash := (rangeEnds_ok h).2
  unfold tokenNetworks ipListParseAddressToken
  rw [if_neg (ne_nil_of_mem hdash), if_pos hdash, ipListParseRangeToken, h]
  simp only [Option.map_map]
  cases ipListParseCoverRange first last <;> rfl

theorem tokenNetworks_ok (token : List Char) :
    (RangeCrosses token → (addrOf true mappedStart, 96) ∈ tokenNetworks token) ∧
      (¬ RangeCrosses token → ∀ n ∈ tokenNetworks token, IsNetwork n) := by
  constructor
  · rintro ⟨first, last, port, hends, hcross⟩
    have hok := (rangeEnds_ok hends).1
    have hsome : ∃ blocks, ipListParseCoverRange first last = some blocks := by
      unfold ipListParseCoverRange
      rw [if_neg]
      · exact ⟨_, rfl⟩
      have habove := hcross.above
      unfold IpListParseAddr.value mappedStart at habove
      omega
    obtain ⟨blocks, hblocks⟩ := hsome
    rw [tokenNetworks_of_ends hends, hblocks]
    exact (coverRange_networks hok.firstValid hok.lastValid hok.family hok.le hok.firstPlain hok.lastPlain hblocks).1 hcross
  · intro hcross n hn
    by_cases hdash : '-' ∈ token
    · cases hends : rangeEnds token with
      | none =>
        unfold tokenNetworks ipListParseAddressToken at hn
        rw [if_neg (ne_nil_of_mem hdash), if_pos hdash, ipListParseRangeToken, hends] at hn
        cases hn
      | some ends =>
        obtain ⟨first, last, port⟩ := ends
        have hok := (rangeEnds_ok hends).1
        rw [tokenNetworks_of_ends hends] at hn
        cases hblocks : ipListParseCoverRange first last with
        | none =>
          rw [hblocks] at hn
          cases hn
        | some blocks =>
          rw [hblocks] at hn
          exact (coverRange_networks hok.firstValid hok.lastValid hok.family hok.le hok.firstPlain hok.lastPlain hblocks).2
            (fun hc => hcross ⟨first, last, port, hends, hc⟩) n hn
    unfold tokenNetworks ipListParseAddressToken at hn
    split at hn
    · cases hn
    split at hn
    · cases hn
    rename_i network port hparts
    cases hnetwork : ipListParseNetwork network with
    | none =>
      rw [hnetwork] at hn
      cases hn
    | some m =>
      rw [hnetwork] at hn
      have hnm : n = m := by simpa using hn
      rw [hnm]
      exact ipListParseNetwork_ok hnetwork

/-! ## The parser -/

def networksOf (tokens : List IpListParseToken) : List (IpListParseAddr × Nat) :=
  tokens.flatMap IpListParseToken.networks

/-- The entries are the texts of the networks, and each has one. -/
structure Parser.Holds (p : Parser) (networks : List (IpListParseAddr × Nat)) : Prop where
  seen : ∀ key ∈ p.seen, ∃ e ∈ p.result.entries, Lists.uniqueKey e = key
  sound : ∀ e ∈ p.result.entries, ∃ n ∈ networks, e.cidr = ofList (ipListParseCidr n.1 n.2)
  complete : ∀ n ∈ networks, ∃ e ∈ p.result.entries, e.cidr = ofList (ipListParseCidr n.1 n.2)

variable (h : p.Holds networks)

include h

theorem Parser.Holds.addCidr (port : Int)
    (n : IpListParseAddr × Nat) : (p.addCidr port (ipListParseCidr n.1 n.2)).Holds (networks ++ [n]) := by
  have hsound : ∀ e ∈ p.result.entries, ∃ m ∈ networks ++ [n], e.cidr = ofList (ipListParseCidr m.1 m.2) := by
    intro e he
    obtain ⟨m, hm, heq⟩ := h.sound e he
    exact ⟨m, mem_append_left _ hm, heq⟩
  unfold Parser.addCidr
  simp only
  split
  · rename_i hseen
    refine ⟨h.seen, hsound, ?_⟩
    intro m hm
    rcases mem_append.mp hm with hm | hm
    · exact h.complete m hm
    rw [mem_singleton.mp hm]
    obtain ⟨e, he, hkey⟩ := h.seen _ hseen
    exact ⟨e, he, (uniqueKey_inj (b := { cidr := ofList (ipListParseCidr n.1 n.2), port := port }) hkey).1⟩
  refine ⟨?_, ?_, ?_⟩
  · intro key hkey
    rcases mem_cons.mp hkey with rfl | hkey
    · exact ⟨_, mem_append_right _ (mem_singleton.mpr rfl), rfl⟩
    · obtain ⟨e, he, heq⟩ := h.seen key hkey
      exact ⟨e, mem_append_left _ he, heq⟩
  · intro e he
    rcases mem_append.mp he with he | he
    · exact hsound e he
    · rw [mem_singleton.mp he]
      exact ⟨n, by simp, rfl⟩
  · intro m hm
    rcases mem_append.mp hm with hm | hm
    · obtain ⟨e, he, heq⟩ := h.complete m hm
      exact ⟨e, mem_append_left _ he, heq⟩
    · rw [mem_singleton.mp hm]
      exact ⟨_, mem_append_right _ (mem_singleton.mpr rfl), rfl⟩

theorem Parser.Holds.add
    (defaultPort : Int) (ns : List (IpListParseAddr × Nat)) (port : Option Nat) :
    (p.add defaultPort ns port).Holds (networks ++ ns) := by
  unfold Parser.add
  rw [foldl_map]
  induction ns generalizing p networks with
  | nil =>
    rw [append_nil]
    exact h
  | cons n ns ih =>
    rw [foldl_cons, append_cons]
    exact ih (h.addCidr _ n)

theorem Parser.Holds.reject
    (token : List Char) : (p.reject token).Holds networks := ⟨h.seen, h.sound, h.complete⟩

theorem Parser.Holds.rejectAll
    (tokens : List IpListParseToken) : (tokens.foldl (fun p token => p.reject token.text) p).Holds networks := by
  induction tokens generalizing p with
  | nil => exact h
  | cons token tokens ih => exact ih (h.reject token.text)

omit h

/-- Only addresses have networks. -/
def OnlyAddresses (tokens : List IpListParseToken) : Prop := ∀ t ∈ tokens, t.kind ≠ .address → t.networks = []

theorem addTokens_holds (defaultPort : Int) (line : Line) (tokens : List IpListParseToken)
    (htokens : OnlyAddresses tokens)
    (consumed : Bool) (hconsumed : consumed = true → ∀ next, tokens.head? = some next → next.kind = .port)
    (h : p.Holds networks) :
    (addTokens defaultPort line consumed tokens p).Holds (networks ++ networksOf tokens) := by
  induction tokens generalizing consumed p networks with
  | nil =>
    rw [networksOf, flatMap_nil, append_nil]
    exact h
  | cons token rest ih =>
    have hrest : OnlyAddresses rest := fun t ht => htokens t (.tail _ ht)
    have hnetworks : networksOf (token :: rest) = token.networks ++ networksOf rest := flatMap_cons
    have hother : token.kind ≠ .address → networks ++ networksOf (token :: rest) = networks ++ networksOf rest := by
      intro hk
      rw [hnetworks, htokens token (by simp) hk, nil_append]
    rw [addTokens]
    cases consumed with
    | true =>
      rw [if_pos rfl, hother (by rw [hconsumed rfl token rfl]; decide)]
      exact ih hrest false (by simp) h
    | false =>
      rw [if_neg (by simp)]
      cases hkind : token.kind with
      | address =>
        rw [hnetworks, ← List.append_assoc]
        simp only
        split
        · exact ih hrest false (by simp) (h.add _ _ _)
        split
        · exact ih hrest false (by simp) (h.add _ _ _)
        split
        · rename_i next hnext
          refine ih hrest true ?_ (h.add _ _ _)
          intro _ next' hnext'
          rw [hnext'] at hnext
          simp only [filter_eq_some_iff, beq_iff_eq] at hnext
          rw [some.inj hnext.1]
          exact hnext.2
        · exact ih hrest false (by simp) (h.add _ _ _)
      | port =>
        rw [hother (by rw [hkind]; decide)]
        simp only
        split
        · exact ih hrest false (by simp) h
        · exact ih hrest false (by simp) (h.reject _)
      | other =>
        rw [hother (by rw [hkind]; decide)]
        simp only
        split
        · exact ih hrest false (by simp) (h.reject _)
        · exact ih hrest false (by simp) h

theorem readToken_networks (field : Nat) (text : List Char) : (readToken field text).networks = tokenNetworks text := by
  unfold readToken tokenNetworks
  cases ipListParseAddressToken text with
  | some found => rfl
  | none =>
    simp only
    split <;> rfl

theorem onlyAddresses_tokens : OnlyAddresses line.tokens := by
  intro t ht hkind
  obtain ⟨f, -, ht⟩ := mem_flatMap.mp ht
  obtain ⟨text, -, rfl⟩ := mem_map.mp ht
  unfold readToken at hkind ⊢
  split
  · rename_i heq
    rw [heq] at hkind
    exact absurd rfl hkind
  · split <;> rfl

theorem rejectLine_holds (h : p.Holds networks) :
    (rejectLine line p).Holds networks := by
  have hp : ∀ first tabular column, Parser.Holds
      { p with firstContentLine := first, tabularFile := tabular, portColumn := column } networks :=
    fun _ _ _ => ⟨h.seen, h.sound, h.complete⟩
  unfold rejectLine
  simp only
  split
  · exact hp _ _ _
  split
  · exact (hp _ _ _).rejectAll _
  split
  · exact (hp _ _ _).rejectAll _
  · exact (hp _ _ _).reject _

theorem parseLine_holds (defaultPort : Int) (line : Line)
    (h : p.Holds networks) : (parseLine defaultPort p line).Holds (networks ++ networksOf line.tokens) := by
  unfold parseLine
  simp only
  split
  · rename_i hnil
    rw [hnil, networksOf, flatMap_nil, append_nil]
    exact h
  split
  · rename_i hall
    have hnone : networksOf line.tokens = [] := by
      unfold networksOf
      rw [flatMap_eq_nil_iff]
      intro t ht
      refine onlyAddresses_tokens line t ht ?_
      have := all_eq_true.mp hall t ht
      simpa using this
    rw [hnone, append_nil]
    exact rejectLine_holds line h
  · exact addTokens_holds defaultPort line _ (onlyAddresses_tokens line) false (by simp) ⟨h.seen, h.sound, h.complete⟩

/-- The tokens of all lines. -/
def textTokens (content : List Char) : List (List Char) :=
  (contentLines content).flatMap (fun line => line.tokens.map text)

theorem readToken_text (field : Nat) (text : List Char) : (readToken field text).text = text := by
  unfold readToken
  split
  · rfl
  · split <;> rfl

theorem networksOf_tokens :
    networksOf line.tokens = (line.tokens.map text).flatMap tokenNetworks := by
  unfold networksOf
  rw [flatMap_map]
  unfold flatMap
  congr 1
  refine map_congr_left ?_
  intro t ht
  obtain ⟨f, -, ht⟩ := mem_flatMap.mp ht
  obtain ⟨text, -, rfl⟩ := mem_map.mp ht
  rw [readToken_networks, readToken_text]

/-- **The entries are the networks of the tokens.** -/
theorem parseIpListText_holds (content : List Char) (defaultPort : Int) :
    (∀ e ∈ (parseIpListText content defaultPort).entries, ∃ t ∈ textTokens content, ∃ n ∈ tokenNetworks t,
        e.cidr = ofList (ipListParseCidr n.1 n.2)) ∧
      ∀ t ∈ textTokens content, ∀ n ∈ tokenNetworks t, ∃ e ∈ (parseIpListText content defaultPort).entries,
        e.cidr = ofList (ipListParseCidr n.1 n.2) := by
  unfold parseIpListText
  generalize (if defaultPort < 0 ∨ 65535 < defaultPort then 0 else defaultPort) = port
  have hrun : ∀ (lines : List Line) (p : Parser) (networks : List (IpListParseAddr × Nat)), p.Holds networks →
      (lines.foldl (parseLine port) p).Holds
        (networks ++ (lines.flatMap (fun line => line.tokens.map text)).flatMap tokenNetworks) := by
    intro lines
    induction lines with
    | nil => simp
    | cons line lines ih =>
      intro p networks h
      have := ih _ _ (parseLine_holds port line h)
      rw [List.foldl_cons, List.flatMap_cons, List.flatMap_append, ← networksOf_tokens, ← List.append_assoc]
      exact this
  have hfinal := hrun (contentLines content) {} [] ⟨by simp, by simp, by simp⟩
  constructor
  · intro e he
    obtain ⟨n, hn, heq⟩ := hfinal.sound e he
    obtain ⟨t, ht, hnt⟩ := mem_flatMap.mp hn
    exact ⟨t, ht, n, hnt, heq⟩
  · intro t ht n hn
    exact hfinal.complete n (mem_flatMap.mpr ⟨t, ht, hn⟩)

/-! ## Both sides -/

/-- The entry is the network: its text is in normal form, and the core reads it as the same
family, base and length. -/
structure ReadAs (e : Lists.Entry) (n : IpListParseAddr × Nat) : Prop where
  text : e.cidr = ofList (ipListParseCidr n.1 n.2)
  normal : normalizeCidr e.cidr = e.cidr
  core : ∃ range, parseTargetPrefix goNetip.trimSpace goNetip.parsePrefix goNetip.parseAddr e.cidr = some range ∧
    range.addr.is4 = !n.1.v6 ∧ range.addr.value = n.1.value ∧ range.bits = n.2

/-- **What a list is read as.**  Every entry stands for a network of its text on both
sides, exactly when no range of the text crosses the mapped addresses. -/
theorem entries_read_iff (content : List Char) (defaultPort : Int) :
    (∀ e ∈ (parseIpListText content defaultPort).entries, ∃ t ∈ textTokens content, ∃ n ∈ tokenNetworks t, ReadAs e n) ↔
      ∀ t ∈ textTokens content, ¬ RangeCrosses t := by
  obtain ⟨hsound, hcomplete⟩ := parseIpListText_holds content defaultPort
  constructor
  · intro hall t ht hcross
    obtain ⟨e, he, htext⟩ := hcomplete t ht _ ((tokenNetworks_ok t).1 hcross)
    obtain ⟨-, -, n, -, hread⟩ := hall e he
    have hnormal := hread.normal
    rw [htext] at hnormal
    exact absurd hnormal (by decide +kernel)
  · intro hnone e he
    obtain ⟨t, ht, n, hn, htext⟩ := hsound e he
    have hnetwork := (tokenNetworks_ok t).2 (hnone t ht) n hn
    refine ⟨t, ht, n, hn, htext, ?_, hnetwork.range, ?_, rfl, rfl, rfl⟩
    · rw [htext]
      exact normalizeCidr_cidr hnetwork
    · rw [htext]
      exact parseTargetPrefix_cidr hnetwork

/-- Two networks around the mapped addresses. -/
def crossingText : List Char := "::fffe:ffff:ffff-::1:0:0:0".toList

/-- The block in the middle has no normal form, and the core takes it for all of IPv4. -/
theorem crossing_not_normal :
    ∃ e ∈ (parseIpListText crossingText 0).entries, normalizeCidr e.cidr = "" ∧ e.cidr = "::ffff:0:0/96" ∧
      (parseTargetPrefix goNetip.trimSpace goNetip.parsePrefix goNetip.parseAddr e.cidr).map
        (fun range => (range.addr.is4, range.addr.value, range.bits)) = some (true, 0, 0) := by
  decide +kernel

end Waterdisco.Scan
