import Waterdisco.Scan.IpListRead

/-!
# What is written is read back

    one line of `formatEntry` for each entry is read as the same addresses and ports, in
    the same order, nothing rejected and nothing twice         (formatEntry_read)

A line is one word, or a network and a port with a blank between them.
-/

namespace Waterdisco.Scan

open List Option String Nat

/-! ## Lines of words -/

/-- The characters of a word that is written. -/
def wordChars : List Char := '/' :: '[' :: ']' :: addressChars

structure Word (w : List Char) : Prop where
  ne : w ≠ []
  chars : ∀ c ∈ w, c ∈ wordChars

def spaced (w : List Char) : Option (List Char) → List Char
  | none => w
  | some v => w ++ ' ' :: v

variable {w : List Char} {v : Option (List Char)} {port : Nat} {n : IpListParseAddr × Nat} {e : Lists.Entry}
  (addr : IpListParseAddr)

theorem mem_spaced (hw : Word w) (hv : ∀ x ∈ v, Word x) {c : Char}
    (h : c ∈ spaced w v) : c ∈ ' ' :: wordChars := by
  cases v with
  | none => exact .tail _ (hw.chars c h)
  | some v =>
    rcases mem_append.mp h with h | h
    · exact .tail _ (hw.chars c h)
    rcases mem_cons.mp h with rfl | h
    · exact .head _
    · exact .tail _ ((hv v rfl).chars c h)

theorem Word.space (h : Word w) : ∀ c ∈ w, isSpace c = false := by
  have hchar : ∀ c ∈ wordChars, isSpace c = false := all_iff_forall_prop.mp (by decide)
  exact fun c hc => hchar c (h.chars c hc)

theorem trimmed_spaced (hw : Word w) (hv : ∀ x ∈ v, Word x) :
    trimmed (spaced w v) = spaced w v := by
  apply trimmed_of_ends
  · intro c hc
    have hmem : c ∈ w := by
      cases v with
      | none => exact mem_of_head? hc
      | some v =>
        rw [spaced, head?_append_of_ne_nil _ hw.ne] at hc
        exact mem_of_head? hc
    exact hw.space c hmem
  · intro c hc
    cases v with
    | none => exact hw.space c (mem_of_getLast? hc)
    | some v =>
      have hne := (hv v rfl).ne
      rw [spaced, getLast?_append_of_ne_nil _ (by simp), getLast?_cons_of_ne_nil hne] at hc
      exact (hv v rfl).space c (mem_of_getLast? hc)

theorem no_comment {text : List Char} (hhash : '#' ∉ text) (hslash : text.count '/' ≤ 1) :
    withoutComment text = text := by
  unfold withoutComment
  rw [cut_eq_none hhash]
  simp only [map_none, getD_none]
  split
  · rename_i i hi
    exfalso
    obtain ⟨hlt, hp, -⟩ := findIdx?_eq_some_iff_getElem.mp hi
    have hsuffix : text.tails[i] <:+ text := (mem_tails _ _).mp (getElem_mem hlt)
    obtain ⟨rest, hrest⟩ := isPrefixOf_iff_prefix.mp hp
    have hcount := hsuffix.sublist.count_le '/'
    rw [← hrest] at hcount
    simp only [count_append, count_cons_self, count_nil] at hcount
    omega
  · rfl

theorem split_spaced (hw : Word w) (hv : ∀ x ∈ v, Word x) :
    ipListParseSplit (spaced w v) false = w :: v.toList := by
  have hfilter : ∀ x, Word x → (!x.isEmpty) = true := by
    intro x hx
    have := hx.ne
    simpa using this
  unfold ipListParseSplit
  rw [if_neg (by simp)]
  cases v with
  | none =>
    rw [spaced, splitOnP_eq_singleton hw.space]
    simp [hfilter w hw]
  | some v =>
    rw [spaced, splitOnP_append_cons_of_forall_mem hw.space _ (by decide), splitOnP_eq_singleton (hv v rfl).space]
    simp [hfilter w hw, hfilter v (hv v rfl)]

theorem unquote_word (h : Word w) : ipListParseUnquote w = w := by
  have hquote : ∀ c ∈ wordChars, isQuote c = false := all_iff_forall_prop.mp (by decide)
  have hdrop : ∀ l : List Char, (∀ c ∈ l, c ∈ wordChars) → l.dropWhile isQuote = l := by
    intro l hl
    cases l with
    | nil => rfl
    | cons c l => simp [List.dropWhile, hquote c (hl c (by simp))]
  unfold ipListParseUnquote
  rw [trimmed_of_no_space h.space, hdrop w h.chars, hdrop _ (by simpa using h.chars), reverse_reverse,
    trimmed_of_no_space h.space]

theorem readLine_spaced (hw : Word w) (hv : ∀ x ∈ v, Word x)
    (hslash : (spaced w v).count '/' ≤ 1) :
    readLine (spaced w v) = some { text := spaced w v, separated := false, fields := w :: v.toList } := by
  have hchar : ∀ c ∈ ' ' :: wordChars, isDash c = false ∧ ipListParseIsSeparator c = false ∧ c ≠ ';' ∧ c ≠ '#' :=
    all_iff_forall_prop.mp (by decide)
  have hmem := fun c (hc : c ∈ spaced w v) => hchar c (mem_spaced hw hv hc)
  have hdash : (spaced w v).any isDash = false := by
    rw [List.any_eq_false]
    intro c hc
    simp [(hmem c hc).1]
  have hsep : (spaced w v).any ipListParseIsSeparator = false := by
    rw [List.any_eq_false]
    intro c hc
    simp [(hmem c hc).2.1]
  have hnot : ¬ (spaced w v = [] ∨ (spaced w v).head? = some ';') := by
    rintro (hnil | hhead)
    · cases v with
      | none => exact hw.ne hnil
      | some v => simp [spaced] at hnil
    · exact (hmem ';' (mem_of_head? hhead)).2.2.1 rfl
  have hfields : (w :: v.toList).map ipListParseUnquote = w :: v.toList := by
    rw [map_cons, unquote_word hw]
    cases v with
    | none => rfl
    | some v => simp [unquote_word (hv v rfl)]
  unfold readLine
  simp only
  rw [no_comment (fun hc => (hmem '#' hc).2.2.2 rfl) hslash, trimmed_spaced hw hv, if_neg hnot, hdash]
  simp only [Bool.false_eq_true, if_false, hsep, split_spaced hw hv, hfields]

theorem fieldWords_word (h : Word w) : fieldWords w = [w] := by
  have hsplit := split_spaced (v := none) h (by simp)
  rw [spaced] at hsplit
  have hne : (!w.isEmpty) = true := by
    have := h.ne
    simpa using this
  unfold fieldWords
  rw [hsplit]
  simp [unquote_word h, hne]

theorem tokens_spaced (hw : Word w) (hv : ∀ x ∈ v, Word x) (text : List Char) :
    Line.tokens { text := text, separated := false, fields := w :: v.toList } =
      readToken 0 w :: v.toList.map (readToken 1) := by
  unfold Line.tokens
  cases v with
  | none => simp [fieldWords_word hw]
  | some v => simp [fieldWords_word hw, fieldWords_word (hv v rfl)]

/-! ## Words that are written -/

theorem addressChars_sub : ∀ c ∈ addressChars, c ∈ wordChars := all_iff_forall_prop.mp (by decide)

theorem mem_port_digits {c : Char} (h : c ∈ toDigits 10 port) : c ∈ addressChars.take 16 :=
  mem_digits (by omega) (by omega) h

theorem word_digits (port : Nat) : Word (toDigits 10 port) := by
  refine ⟨toDigits_ne_nil, ?_⟩
  have hsub : ∀ c ∈ addressChars.take 16, c ∈ wordChars := all_iff_forall_prop.mp (by decide)
  exact fun c hc => hsub c (mem_port_digits hc)

theorem word_cidr (n : IpListParseAddr × Nat) : Word (ipListParseCidr n.1 n.2) := by
  refine ⟨cidr_ne_nil _ _, ?_⟩
  intro c hc
  rcases mem_cidr hc with hc | rfl
  · exact addressChars_sub c hc
  · decide

theorem ipListParsePort_digits (h : port ≤ 65535) : ipListParsePort (toDigits 10 port) = some port := by
  unfold ipListParsePort
  rw [ipListParseDecimal_digits (by omega) (by omega)]
  simp only
  rw [if_neg (by omega)]

theorem two_colons (hi lo : Nat) : 2 ≤ (formatV6 hi lo).count ':' := by
  rcases formatV6_eq hi lo with h | ⟨l, r, n, -, -, h⟩
  · rw [h]
    simp only [addressGroups, groupTexts, map_cons, map_nil, joinGroups, flatMap_cons, flatMap_nil,
      append_nil, count_append, count_cons_self]
    omega
  · rw [h]
    simp only [count_append, count_cons_self]
    omega

theorem colon_not_mem_v4 {addr : IpListParseAddr} (h : addr.v6 = false) : ':' ∉ ipListParseFormat addr := by
  unfold ipListParseFormat
  rw [h, if_neg (by simp)]
  exact formatV4_not_mem (by decide) (by decide)

theorem colons_cidr (n : IpListParseAddr × Nat) : (ipListParseCidr n.1 n.2).count ':' ≠ 1 := by
  have hdigits : (toDigits 10 n.2).count ':' = 0 := count_eq_zero.mpr (colon_not_mem (by omega) (by omega))
  have hcount : (ipListParseCidr n.1 n.2).count ':' = (ipListParseFormat n.1).count ':' := by
    unfold ipListParseCidr
    split
    · rfl
    · rw [count_append, count_cons_of_ne (by decide), hdigits, add_zero]
  rw [hcount]
  cases h6 : n.1.v6 with
  | true =>
    have := two_colons n.1.hi n.1.lo
    unfold ipListParseFormat
    rw [h6, if_pos rfl]
    omega
  | false =>
    rw [count_eq_zero.mpr (colon_not_mem_v4 h6)]
    omega

theorem bracket_not_mem_format : ']' ∉ ipListParseFormat addr :=
  fun hc => absurd (mem_ipListParseFormat hc) (by decide)

theorem not_mem_word (h : Word w) : '-' ∉ w := fun hc => absurd (h.chars _ hc) (by decide)

theorem addressToken_cidr (h : IsNetwork n) :
    ipListParseAddressToken (ipListParseCidr n.1 n.2) = some ([n], none) := by
  have hhead : ¬ (ipListParseCidr n.1 n.2).head? = some '[' := by
    intro hc
    rcases mem_cidr (mem_of_head? hc) with hc | hc
    · exact absurd hc (by decide)
    · cases hc
  unfold ipListParseAddressToken tokenParts
  rw [if_neg (cidr_ne_nil _ _), if_neg (not_mem_word (word_cidr n)), if_neg hhead, if_neg (colons_cidr n)]
  simp only [ipListParseNetwork_cidr h, map_some]

theorem cidr_host (h : n.2 = ipListParseBits n.1) :
    ipListParseCidr n.1 n.2 = ipListParseFormat n.1 := by
  unfold ipListParseCidr
  rw [if_pos (by omega)]

theorem addressToken_v4 (h : IsNetwork n) (hhost : n.2 = ipListParseBits n.1)
    (h4 : n.1.v6 = false) (hport : port ≤ 65535) :
    ipListParseAddressToken (ipListParseFormat n.1 ++ ':' :: toDigits 10 port) = some ([n], some port) := by
  have hnetwork := ipListParseNetwork_cidr h
  rw [cidr_host hhost] at hnetwork
  have hcolon := colon_not_mem_v4 h4
  have hdigits : (toDigits 10 port).count ':' = 0 := count_eq_zero.mpr (colon_not_mem (by omega) (by omega))
  have hdash : '-' ∉ ipListParseFormat n.1 ++ ':' :: toDigits 10 port := by
    intro hc
    rcases mem_append.mp hc with hc | hc
    · exact absurd (mem_ipListParseFormat hc) (by decide)
    rcases mem_cons.mp hc with hc | hc
    · cases hc
    · exact absurd (mem_port_digits hc) (by decide)
  have hhead : ¬ (ipListParseFormat n.1 ++ ':' :: toDigits 10 port).head? = some '[' := by
    rw [head?_append_of_ne_nil _ (format_ne_nil _)]
    intro hc
    exact absurd (mem_ipListParseFormat (mem_of_head? hc)) (by decide)
  have hcount : (ipListParseFormat n.1 ++ ':' :: toDigits 10 port).count ':' = 1 := by
    rw [count_append, count_cons_self, count_eq_zero.mpr hcolon, hdigits]
  unfold ipListParseAddressToken tokenParts
  rw [if_neg (by simp), if_neg hdash, if_neg hhead, if_pos hcount, cut_append hcolon]
  simp only [ipListParsePort_digits hport, map_some, hnetwork]

theorem networkParts_brackets :
    networkParts (trimmed ('[' :: ipListParseFormat addr ++ [']'])) = some (ipListParseFormat addr, none) := by
  have hspace : ∀ c ∈ '[' :: ipListParseFormat addr ++ [']'], isSpace c = false := by
    have hchar : ∀ c ∈ wordChars, isSpace c = false := all_iff_forall_prop.mp (by decide)
    intro c hc
    refine hchar c ?_
    rcases mem_append.mp hc with hc | hc
    · rcases mem_cons.mp hc with rfl | hc
      · decide
      · exact addressChars_sub c (mem_ipListParseFormat hc)
    · rw [mem_singleton.mp hc]
      decide
  rw [trimmed_of_no_space hspace]
  unfold networkParts networkBody
  simp only [cons_append]
  rw [cut_append (bracket_not_mem_format addr)]
  simp [cut_eq_none (slash_not_mem_format addr)]

theorem addressToken_v6 (h : IsNetwork n) (hhost : n.2 = ipListParseBits n.1)
    (hport : port ≤ 65535) :
    ipListParseAddressToken ('[' :: ipListParseFormat n.1 ++ ']' :: ':' :: toDigits 10 port) =
      some ([n], some port) := by
  have hpos := h.pos
  have hnetwork : ipListParseNetwork ('[' :: ipListParseFormat n.1 ++ [']']) = some n := by
    unfold ipListParseNetwork
    rw [networkParts_brackets]
    simp only [ipListParseAddress_format n.1 h.valid, networkLength]
    unfold unmapNetwork
    rw [← hhost, if_neg h.plain]
    simp only
    rw [if_neg (by omega), mask_of_network h]
  have hdash : '-' ∉ '[' :: ipListParseFormat n.1 ++ ']' :: ':' :: toDigits 10 port := by
    simp only [cons_append, mem_cons, mem_append]
    rintro (hc | hc | hc | hc | hc)
    · cases hc
    · exact absurd (mem_ipListParseFormat hc) (by decide)
    · cases hc
    · cases hc
    · exact absurd (mem_port_digits hc) (by decide)
  have hbracket : ']' ∉ '[' :: ipListParseFormat n.1 := by
    intro hc
    rcases mem_cons.mp hc with hc | hc
    · cases hc
    · exact bracket_not_mem_format _ hc
  unfold ipListParseAddressToken tokenParts
  rw [if_neg (by simp), if_neg hdash, if_pos (by simp), cut_append hbracket]
  simp only [head?_cons, if_true, tail_cons, ipListParsePort_digits hport, map_some, hnetwork]

theorem readToken_port (hport : port ≤ 65535) :
    readToken 1 (toDigits 10 port) =
      { text := toDigits 10 port, field := 1, kind := .port, port := some port } := by
  have hchar : ∀ c ∈ toDigits 10 port, c ∈ addressChars.take 16 := fun c hc => mem_port_digits hc
  have hnot : ∀ x : Char, x ∉ addressChars.take 16 → x ∉ toDigits 10 port := fun x hx hc => hx (hchar x hc)
  have hnone : ipListParseAddressToken (toDigits 10 port) = none := by
    have hhead : ¬ (toDigits 10 port).head? = some '[' := fun hc =>
      absurd (hchar _ (mem_of_head? hc)) (by decide)
    have hcount : ¬ (toDigits 10 port).count ':' = 1 := by
      rw [count_eq_zero.mpr (hnot ':' (by decide))]
      omega
    have hparts := @networkParts_trimmed (toDigits 10 port) (fun c hc => by
      have hsub : ∀ c ∈ addressChars.take 16, c ∈ addressChars := all_iff_forall_prop.mp (by decide)
      exact hsub c (hchar c hc))
    have haddress : ipListParseAddress (toDigits 10 port) = none := by
      unfold ipListParseAddress ipListParseV4
      rw [if_neg (hnot ':' (by decide)), splitOn_eq_singleton (hnot '.' (by decide))]
      simp only [mapM_cons, mapM_nil]
      cases ipListParseOctet (toDigits 10 port) <;> rfl
    unfold ipListParseAddressToken tokenParts
    rw [if_neg toDigits_ne_nil, if_neg (hnot '-' (by decide)), if_neg hhead, if_neg hcount]
    simp only [ipListParseNetwork, hparts, haddress, map_none]
  unfold readToken
  rw [hnone, ipListParsePort_digits hport]

/-! ## Entries -/

theorem isHostCidr_iff (h : IsNetwork n) :
    isHostCidr (ipListParseCidr n.1 n.2) = true ↔ n.2 = ipListParseBits n.1 := by
  have hle := h.le
  unfold isHostCidr
  rw [if_neg (cidr_ne_nil _ _)]
  by_cases hhost : n.2 = ipListParseBits n.1
  · rw [cidr_host hhost, cut_eq_none (slash_not_mem_format _)]
    simp [hhost]
  rw [cut_cidr (by omega)]
  simp only [hhost, iff_false, beq_iff_eq]
  intro heq
  cases h6 : n.1.v6 with
  | true =>
    have hcolon : ':' ∈ ipListParseFormat n.1 := by
      unfold ipListParseFormat
      rw [h6, if_pos rfl]
      exact colon_mem_formatV6 _ _
    rw [if_pos hcolon] at heq
    have h128 : n.2 = 128 := toDigits_inj (heq.trans (by decide))
    apply hhost
    rw [h128, ipListParseBits, h6, if_pos rfl]
  | false =>
    rw [if_neg (colon_not_mem_v4 h6)] at heq
    have h32 : n.2 = 32 := toDigits_inj (heq.trans (by decide))
    apply hhost
    rw [h32, ipListParseBits, h6, if_neg (by simp)]

theorem slashes_format : (ipListParseFormat addr).count '/' = 0 :=
  count_eq_zero.mpr (slash_not_mem_format addr)

theorem slashes_digits (n : Nat) : (toDigits 10 n).count '/' = 0 := count_eq_zero.mpr (slash_not_mem_digits n)

theorem slashes_cidr (n : IpListParseAddr × Nat) : (ipListParseCidr n.1 n.2).count '/' ≤ 1 := by
  unfold ipListParseCidr
  split
  · rw [slashes_format]
    omega
  · rw [count_append, slashes_format, count_cons_self, slashes_digits]

/-- A written line: one word with the address and its port, or the network and the port. -/
structure Written (n : IpListParseAddr × Nat) (port : Nat) (w : List Char) (v : Option (List Char)) (q : Option Nat) :
    Prop where
  word : Word w
  behind : ∀ x ∈ v, Word x
  slashes : (spaced w v).count '/' ≤ 1
  token : ipListParseAddressToken w = some ([n], q)
  port : v = none ∧ portOr 0 q = port ∨ q = none ∧ v = some (toDigits 10 port) ∧ 0 < port

theorem portOr_some (h : 0 < port) : portOr 0 (some port) = port := by
  obtain ⟨p, rfl⟩ : ∃ p, port = p + 1 := ⟨port - 1, by omega⟩
  simp [portOr]

theorem formatEntry_written (h : IsNetwork n) (hport : port ≤ 65535)
    (hcidr : e.cidr = ofList (ipListParseCidr n.1 n.2)) (heport : e.port = port) :
    ∃ w v q, formatEntry e = spaced w v ∧ Written n port w v q := by
  have htoken := addressToken_cidr h
  unfold formatEntry
  simp only [hcidr, heport, toList_ofList]
  by_cases hhost : n.2 = ipListParseBits n.1
  · rw [if_pos ((isHostCidr_iff h).mpr hhost)]
    have hformat := cidr_host hhost
    rw [hformat] at htoken ⊢
    rw [cut_eq_none (slash_not_mem_format _)]
    simp only [map_none, getD_none, formatTarget, Int.toNat_natCast]
    have hword : Word (ipListParseFormat n.1) := by
      rw [← hformat]
      exact word_cidr n
    by_cases hzero : (port : Int) ≤ 0
    · rw [if_pos hzero]
      refine ⟨ipListParseFormat n.1, none, none, rfl, hword, by simp, ?_, htoken, .inl ⟨rfl, ?_⟩⟩
      · rw [spaced, slashes_format]
        omega
      · simp only [portOr]
        omega
    rw [if_neg hzero]
    have hpos : 0 < port := by omega
    cases h6 : n.1.v6 with
    | true =>
      have hcolon : ':' ∈ ipListParseFormat n.1 := by
        unfold ipListParseFormat
        rw [h6, if_pos rfl]
        exact colon_mem_formatV6 _ _
      rw [if_pos hcolon]
      refine ⟨_, none, some port, rfl, ⟨by simp, ?_⟩, by simp, ?_, addressToken_v6 h hhost hport,
        .inl ⟨rfl, portOr_some hpos⟩⟩
      · intro c hc
        simp only [cons_append, mem_cons, mem_append] at hc
        rcases hc with rfl | hc | rfl | rfl | hc
        · decide
        · exact hword.chars c hc
        · decide
        · decide
        · exact (word_digits port).chars c hc
      · rw [spaced, count_append, count_cons_of_ne (by decide), count_cons_of_ne (by decide),
          count_cons_of_ne (by decide), slashes_format, slashes_digits]
        omega
    | false =>
      rw [if_neg (colon_not_mem_v4 h6)]
      refine ⟨_, none, some port, rfl, ⟨by simp, ?_⟩, by simp, ?_, addressToken_v4 h hhost h6 hport,
        .inl ⟨rfl, portOr_some hpos⟩⟩
      · intro c hc
        rcases mem_append.mp hc with hc | hc
        · exact hword.chars c hc
        rcases mem_cons.mp hc with rfl | hc
        · decide
        · exact (word_digits port).chars c hc
      · rw [spaced, count_append, count_cons_of_ne (by decide), slashes_format, slashes_digits]
        omega
  · rw [if_neg (fun hc => hhost ((isHostCidr_iff h).mp hc))]
    by_cases hzero : (port : Int) ≤ 0
    · rw [if_pos hzero]
      refine ⟨_, none, none, rfl, word_cidr n, by simp, slashes_cidr n, htoken, .inl ⟨rfl, ?_⟩⟩
      simp only [portOr]
      omega
    rw [if_neg hzero]
    refine ⟨_, some (toDigits 10 port), none, by simp [spaced], word_cidr n, ?_, ?_, htoken,
      .inr ⟨rfl, rfl, by omega⟩⟩
    · rintro x hx
      rw [← mem_some.mp hx]
      exact word_digits port
    · have := slashes_cidr n
      rw [spaced, count_append, count_cons_of_ne (by decide), slashes_digits]
      omega

theorem parseLine_written
    {q : Option Nat} (h : Written n port w v q) (hport : port ≤ 65535) {p : Parser} (hp : p.tabularFile = false)
    (text : List Char) :
    parseLine 0 p { text := text, separated := false, fields := w :: v.toList } =
      Parser.addCidr port { p with firstContentLine := false } (ipListParseCidr n.1 n.2) := by
  have htoken : readToken 0 w = { text := w, kind := .address, networks := [n], port := q } := by
    unfold readToken
    rw [h.token]
  unfold parseLine
  simp only [tokens_spaced h.word h.behind]
  rw [if_neg (by simp), htoken]
  rcases h.port with ⟨rfl, hq⟩ | ⟨rfl, rfl, hpos⟩
  · cases q with
    | some q =>
      simp only [toList_none, map_nil, all_cons, all_nil, bne_self_eq_false, Bool.false_and,
        Bool.false_eq_true, if_false, addTokens]
      rw [Parser.add, hq]
      rfl
    | none =>
      simp only [toList_none, map_nil, all_cons, all_nil, bne_self_eq_false, Bool.false_and,
        Bool.false_eq_true, if_false, addTokens, hp, head?_nil, filter_none]
      rw [Parser.add, hq]
      rfl
  · simp only [toList_some, map_cons, map_nil, readToken_port hport, all_cons, all_nil,
      bne_self_eq_false, Bool.false_and, Bool.false_eq_true, if_false, addTokens, hp, head?_cons,
      filter_some, beq_self_eq_true, if_true]
    rw [Parser.add, portOr_some hpos]
    rfl

/-! ## Lists -/

/-- An entry that can be written: a network in normal form and a port. -/
structure Writable (e : Lists.Entry) : Prop where
  named : e.cidr ≠ ""
  normal : normalizeCidr e.cidr = e.cidr
  port : 0 ≤ e.port ∧ e.port ≤ 65535

/-- One entry a line. -/
def listText (entries : List Lists.Entry) : List Char := entries.flatMap (fun e => formatEntry e ++ ['\n'])

theorem readLine_entry (h : Writable e) :
    '\n' ∉ formatEntry e ∧ (formatEntry e).head? ≠ some (Char.ofNat 0xFEFF) ∧ ∃ line,
      readLine (formatEntry e) = some line ∧
      ∀ p : Parser, p.tabularFile = false →
        parseLine 0 p line = Parser.addCidr e.port { p with firstContentLine := false } e.cidr.toList := by
  obtain ⟨n, hn, hcidr⟩ := network_of_fixed h.normal h.named
  obtain ⟨port, hport⟩ : ∃ port : Nat, e.port = port := ⟨e.port.toNat, by have := h.port; omega⟩
  have hle : port ≤ 65535 := by
    have := h.port.2
    omega
  obtain ⟨w, v, q, hformat, hwritten⟩ := formatEntry_written hn hle hcidr hport
  have hchars := fun c (hc : c ∈ formatEntry e) => mem_spaced hwritten.word hwritten.behind (hformat ▸ hc)
  refine ⟨fun hc => absurd (hchars _ hc) (by decide), fun hc => absurd (hchars _ (mem_of_head? hc)) (by decide),
    _, by rw [hformat]; exact readLine_spaced hwritten.word hwritten.behind hwritten.slashes, ?_⟩
  intro p hp
  rw [parseLine_written hwritten hle hp, hcidr, hport, toList_ofList]

theorem splitOn_listText (entries : List Lists.Entry) (h : ∀ e ∈ entries, '\n' ∉ formatEntry e) :
    (listText entries).splitOn '\n' = entries.map formatEntry ++ [[]] := by
  induction entries with
  | nil => rfl
  | cons e entries ih =>
    have hrest := ih fun x hx => h x (.tail _ hx)
    have htext : listText (e :: entries) = formatEntry e ++ '\n' :: listText entries := by simp [listText]
    rw [htext, splitOn_append_cons_self_of_not_mem (h e (by simp)), hrest]
    rfl

/-- The entries that were read so far, none rejected and none twice. -/
structure Parser.Reads (p : Parser) (entries : List Lists.Entry) : Prop where
  same : p.result.entries.map (fun e => (e.cidr, e.port)) = entries.map (fun e => (e.cidr, e.port))
  seen : ∀ key ∈ p.seen, ∃ e ∈ entries, Lists.uniqueKey e = key
  rejected : p.result.rejected = 0
  duplicates : p.result.duplicates = 0
  tabular : p.tabularFile = false

theorem Parser.Reads.step {p : Parser} {entries : List Lists.Entry} (h : p.Reads entries)
    (hnew : ∀ x ∈ entries, ¬ (x.cidr = e.cidr ∧ x.port = e.port)) :
    (Parser.addCidr e.port { p with firstContentLine := false } e.cidr.toList).Reads (entries ++ [e]) := by
  have hkey : e.cidr ++ " " ++ toString e.port ∉ p.seen := by
    intro hmem
    obtain ⟨x, hx, heq⟩ := h.seen _ hmem
    exact hnew x hx (uniqueKey_inj heq)
  unfold Parser.addCidr
  simp only [ofList_toList, if_neg hkey]
  refine ⟨?_, ?_, h.rejected, h.duplicates, h.tabular⟩
  · simp only [map_append, h.same, map_cons, map_nil]
  intro key hmem
  rcases mem_cons.mp hmem with rfl | hmem
  · exact ⟨e, by simp, rfl⟩
  · obtain ⟨x, hx, heq⟩ := h.seen key hmem
    exact ⟨x, mem_append_left _ hx, heq⟩

theorem reads_lines (entries done : List Lists.Entry) (hw : ∀ e ∈ entries, Writable e)
    (hdistinct : Lists.Distinct (done ++ entries)) (p : Parser) (hp : p.Reads done) :
    (((entries.map formatEntry).filterMap readLine).foldl (parseLine 0) p).Reads (done ++ entries) := by
  induction entries generalizing done p with
  | nil => simpa using hp
  | cons e entries ih =>
    obtain ⟨-, -, line, hline, hparse⟩ := readLine_entry (hw e (by simp))
    have hnew : ∀ x ∈ done, ¬ (x.cidr = e.cidr ∧ x.port = e.port) := by
      intro x hx
      exact (pairwise_append.mp hdistinct).2.2 x hx e (by simp)
    have hnext := hp.step hnew
    rw [map_cons, filterMap_cons, hline]
    simp only [foldl_cons]
    rw [hparse p hp.tabular, append_cons]
    exact ih (done ++ [e]) (fun x hx => hw x (.tail _ hx)) (by rw [← append_cons]; exact hdistinct)
      _ hnext

/-- **What is written is read back.**  The same addresses and ports in the same order,
nothing rejected and nothing twice. -/
theorem formatEntry_read (entries : List Lists.Entry) (hdistinct : Lists.Distinct entries)
    (hw : ∀ e ∈ entries, Writable e) :
    (parseIpListText (listText entries) 0).entries.map (fun e => (e.cidr, e.port)) =
        entries.map (fun e => (e.cidr, e.port)) ∧
      (parseIpListText (listText entries) 0).rejected = 0 ∧ (parseIpListText (listText entries) 0).duplicates = 0 := by
  have hhead : (listText entries).head? ≠ some (Char.ofNat 0xFEFF) := by
    cases entries with
    | nil => simp [listText]
    | cons e entries =>
      obtain ⟨-, hbom, line, hline, -⟩ := readLine_entry (hw e (by simp))
      have htext : listText (e :: entries) = formatEntry e ++ '\n' :: listText entries := by simp [listText]
      rw [htext]
      intro hc
      by_cases hnil : formatEntry e = []
      · rw [hnil, nil_append, head?_cons] at hc
        cases hc
      · rw [head?_append_of_ne_nil _ hnil] at hc
        exact hbom hc
  have hlines : contentLines (listText entries) = (entries.map formatEntry).filterMap readLine := by
    unfold contentLines
    simp only [if_neg hhead]
    rw [splitOn_listText entries (fun e he => (readLine_entry (hw e he)).1), filterMap_append]
    simp [readLine, withoutComment, cut, trimmed]
  have hreads := reads_lines entries [] hw hdistinct {} ⟨rfl, by simp, rfl, rfl, rfl⟩
  unfold parseIpListText
  simp only [hlines]
  rw [if_neg (by omega)]
  exact ⟨hreads.same, hreads.rejected, hreads.duplicates⟩

/-- A network with a port and a host without one. -/
theorem formatEntry_read_two :
    (parseIpListText (listText [{ cidr := "10.0.0.0/8", port := 443 }, { cidr := "2001:db8::1" }]) 0).entries.map
      (fun e => (e.cidr, e.port)) = [("10.0.0.0/8", 443), ("2001:db8::1", 0)] := by
  refine (formatEntry_read [{ cidr := "10.0.0.0/8", port := 443 }, { cidr := "2001:db8::1" }] ?_ ?_).1
  · exact pairwise_pair.mpr (by decide)
  intro e he
  simp only [mem_cons, not_mem_nil, or_false] at he
  rcases he with rfl | rfl
  · exact ⟨by decide, by decide +kernel, by decide⟩
  · exact ⟨by decide, by decide +kernel, by decide⟩

end Waterdisco.Scan
