import Waterdisco.Sub.DocumentItems

/-!
# Share links, one a line

A list of share links is read link by link, each as if it stood alone, as long as no mark
of a whole file is found anywhere in the joined text.  The marks are searched for in the
whole text, names and parameters of links included, so one link can turn all the others
into a broken Clash file.

    every reading of the formats delivers line by line  ↔  at most one line, or no mark      (lines_independent_iff)
-/

namespace Waterdisco.Document

open List Nat

/-! ## Links and lines -/

/-- A scheme, `://`, and anything but a line break. -/
structure Link where
  first : Char
  scheme : Text
  rest : Text
  alpha : first.isAlpha = true
  schemeChars : scheme.all isSchemeChar = true
  oneLine : '\n' ∉ rest

def Link.tail (l : Link) : Text := ':' :: '/' :: '/' :: l.rest

def Link.text (l : Link) : Text := l.first :: (l.scheme ++ l.tail)

open Link

def joined (lines : List Link) : Text := ['\n'].intercalate (lines.map text)

/-- Some mark of a whole file is in the text. -/
def detected (text : Text) : Bool :=
  finds text "proxies:" || hasWireGuardSections text || looksLikeOvpnConfig text || looksLikeOpenConnectProfile text

variable {Out : Type*}

/-- Every line is read as if it stood alone. -/
def Independent (f : Formats Out) (lines : List Link) : Prop :=
  parseDocument f (joined lines) = lines.flatMap fun l => parseDocument f l.text

/-! ## Nested documents -/

section

variable {Out : Type*} (f : Formats Out)

/-- The documents a link holds. -/
def linkCalls (line : Text) : List Call :=
  if startsWith line "//" || startsWith line "#" || decide (line.length < 2) then []
  else if startsWith line "json://" then []
  else if startsWithNoCase line "throne://add/".toList then []
  else if startsWithNoCase line "vpn://".toList then
    ((f.vpnDocuments line).getD []).map fun d => ⟨d.1, false, true, d.2⟩
  else []

def bodyCalls (text : Text) (needParse : Bool) (overrideName : String) : List Call :=
  if detected text then []
  else if needParse && text.contains '\n' then (forEachItem text).map fun item => ⟨item, true, false, overrideName⟩
  else linkCalls f text

/-- The documents a document holds. -/
def innerCalls (c : Call) : List Call :=
  let text := trim c.text
  if text.isEmpty then []
  else if c.allowBase64 && looksLikeBase64 text && !(f.decodeBase64 text).isEmpty then
    [⟨f.decodeBase64 text, false, true, c.overrideName⟩]
  else if (startsWith text "\x7b" || startsWith text "[") && (f.json text).isSome then []
  else bodyCalls f text c.needParse c.overrideName

/-- Documents are nested at most so many levels. -/
def withinDepth : Nat → Call → Bool
  | 0, _ => false
  | levels + 1, c => (innerCalls f c).all (withinDepth levels)

/-- The documents in a `vpn://` link leave one level for the line it stands in. -/
def NestedWithin (l : Link) : Prop := ∀ c ∈ linkCalls f (trim l.text), withinDepth f (kMaxDepth - 1) c = true

variable {f} {read read' : Call → List Out}

theorem link_congr {line : Text} (h : ∀ c ∈ linkCalls f line, read c = read' c) (name : String) :
    link f read line name = link f read' line name := by
  rw [linkCalls] at h
  rw [link, link]
  split
  · rfl
  rename_i hplain
  rw [if_neg hplain] at h
  split
  · rfl
  rename_i hjson
  rw [if_neg hjson] at h
  split
  · rfl
  rename_i hthrone
  rw [if_neg hthrone] at h
  split
  · rename_i hvpn
    rw [if_pos hvpn] at h
    rw [vpnLink, vpnLink]
    cases hdocs : f.vpnDocuments line with
    | none => rfl
    | some documents =>
      have hsame : documents.flatMap (fun d => read ⟨d.1, false, true, d.2⟩) =
          documents.flatMap fun d => read' ⟨d.1, false, true, d.2⟩ := by
        refine flatMap_congr fun d hd => h _ ?_
        rw [hdocs]
        exact mem_map.mpr ⟨d, hd, rfl⟩
      simp only [hsame]
  · rfl

theorem documentBody_eq (read : Call → List Out) {text : Text} (h : detected text = false)
    (needParse : Bool) (name : String) :
    documentBody f read text needParse name =
      if needParse && text.contains '\n' then (forEachItem text).flatMap fun item => read ⟨item, true, false, name⟩
      else link f read text name := by
  simp only [detected, Bool.or_eq_false_iff] at h
  obtain ⟨⟨⟨hclash, hwire⟩, hovpn⟩, hconnect⟩ := h
  simp [documentBody, hclash, hwire, hovpn, hconnect]

theorem documentBody_congr {text : Text} {needParse : Bool} {name : String}
    (h : ∀ c ∈ bodyCalls f text needParse name, read c = read' c) :
    documentBody f read text needParse name = documentBody f read' text needParse name := by
  cases hdetected : detected text with
  | true =>
    simp only [detected, Bool.or_eq_true] at hdetected
    rw [documentBody, documentBody]
    split
    · rfl
    split
    · rfl
    split
    · rfl
    split
    · rfl
    · simp_all
  | false =>
    rw [bodyCalls, hdetected] at h
    rw [documentBody_eq read hdetected, documentBody_eq read' hdetected]
    split
    · rename_i hlines
      rw [if_pos hlines] at h
      exact flatMap_congr fun item hitem => h _ (mem_map.mpr ⟨item, hitem, rfl⟩)
    rename_i hlines
    rw [if_neg hlines] at h
    exact link_congr h name

theorem documentStep_congr {c : Call} (h : ∀ i ∈ innerCalls f c, read i = read' i) :
    documentStep f read c = documentStep f read' c := by
  rw [innerCalls] at h
  rw [documentStep, documentStep]
  split
  · rfl
  rename_i hsome
  rw [if_neg hsome] at h
  split
  · rename_i hbase
    rw [if_pos hbase] at h
    exact h _ (mem_singleton.mpr rfl)
  rename_i hbase
  rw [if_neg hbase] at h
  split
  · rename_i hbracket
    cases hjson : f.json (trim c.text) with
    | some delivered => rfl
    | none =>
      rw [hbracket, hjson] at h
      simp only [documentBody_congr h]
  · rename_i hbracket
    have hopen : (startsWith (trim c.text) "\x7b" || startsWith (trim c.text) "[") = false := by simpa using hbracket
    rw [hopen] at h
    exact documentBody_congr h

/-- Levels that are not needed change nothing. -/
theorem document_succ {n : Nat} {c : Call} (h : withinDepth f n c = true) : document f n c = document f (n + 1) c := by
  induction n generalizing c with
  | zero => cases h
  | succ n ih =>
    rw [withinDepth, all_eq_true] at h
    exact documentStep_congr fun i hi => ih (h i hi)

end

/-! ## The shape of a line -/

variable {c : Char} {s t : Text} {lines : List Link} {mark : String} (l : Link)

theorem isAlpha_plain (h : c.isAlpha = true) :
    isSpace c = false ∧ c ≠ '\u00a0' ∧ c ≠ '\ufeff' ∧ c ≠ '\n' ∧ c ≠ ':' ∧ c ≠ '/' ∧ c ≠ '#' ∧
      c ≠ ';' ∧ c ≠ '<' ∧ c ≠ '\x7b' ∧
      c ≠ '[' ∧ c ≠ ' ' ∧ c ≠ '\t' := by
  have hne : ∀ d : Char, d.isAlpha = false → c ≠ d := fun d hd heq => by rw [heq, hd] at h; cases h
  refine ⟨?_, hne _ rfl, hne _ rfl, hne _ rfl, hne _ rfl, hne _ rfl, hne _ rfl, hne _ rfl, hne _ rfl, hne _ rfl,
    hne _ rfl, hne _ rfl, hne _ rfl⟩
  simp [isSpace, hne ' ' rfl, hne '\t' rfl, hne '\n' rfl, hne '\r' rfl, hne '\u000b' rfl, hne '\u000c' rfl]

theorem Link.newline_notMem : '\n' ∉ l.text := by
  have hscheme : '\n' ∉ l.scheme := fun hmem => absurd (all_eq_true.mp l.schemeChars _ hmem) (by decide)
  simp only [text, tail, mem_cons, mem_append, not_or]
  exact ⟨(isAlpha_plain l.alpha).2.2.2.1.symm, hscheme, by decide, by decide, by decide, l.oneLine⟩

def blank (c : Char) : Bool := isSpace c || c == '\u00a0'

theorem rdropWhile_stop {p : Char → Bool} (hc : p c = false) (a b : Text) :
    (a ++ c :: b).rdropWhile p = a ++ c :: b.rdropWhile p := by
  induction b using reverseRecOn with
  | nil =>
    rw [rdropWhile_concat_neg p a c (by simp [hc])]
    rfl
  | append_singleton b x ih =>
    rw [← cons_append, ← append_assoc]
    by_cases hx : p x = true
    · rw [rdropWhile_concat_pos p _ x hx, ih, rdropWhile_concat_pos p b x hx]
    · rw [rdropWhile_concat_neg p _ x hx, rdropWhile_concat_neg p b x hx]
      simp

/-- The link without the blanks at its end. -/
def Link.trimmed (l : Link) : Link :=
  { l with
    rest := l.rest.rdropWhile blank
    oneLine := fun hmem => l.oneLine (( rdropWhile_prefix blank l.rest).sublist.subset hmem) }

/-- Only the end of a text that starts with a letter is trimmed. -/
theorem trim_alpha (hc : c.isAlpha = true) (s : Text) : trim (c :: s) = (c :: s).rdropWhile blank := by
  obtain ⟨hspace, hnbsp, hbom, -⟩ := isAlpha_plain hc
  rw [trim, dropWhile_cons_of_neg (by simp [hspace, hnbsp, hbom])]
  rfl

theorem trim_front {front : Text} (hfront : front = [] ∨ ∃ d s, front = d :: s ∧ d.isAlpha = true) (l : Link) :
    trim (front ++ l.text) = front ++ l.trimmed.text := by
  have hsplit : ∀ rest : Text, front ++ (l.first :: (l.scheme ++ (':' :: '/' :: '/' :: rest))) =
      (front ++ l.first :: (l.scheme ++ [':', '/'])) ++ '/' :: rest := by
    simp
  have halpha : ∃ d s, front ++ l.text = d :: s ∧ d.isAlpha = true := by
    rcases hfront with rfl | ⟨d, s, rfl, hd⟩
    · exact ⟨l.first, _, rfl, l.alpha⟩
    · exact ⟨d, s ++ l.text, rfl, hd⟩
  obtain ⟨d, s, heq, hd⟩ := halpha
  rw [heq, trim_alpha hd, ← heq]
  show (front ++ (l.first :: (l.scheme ++ (':' :: '/' :: '/' :: l.rest)))).rdropWhile blank =
    front ++ (l.first :: (l.scheme ++ (':' :: '/' :: '/' :: l.rest.rdropWhile blank)))
  rw [hsplit, hsplit, rdropWhile_stop (by decide)]

theorem trim_link : trim l.text = l.trimmed.text := trim_front (.inl rfl) l

theorem trimmed_trimmed : trim l.trimmed.text = l.trimmed.text := by
  rw [trim_link]
  simp [Link.trimmed, Link.text, Link.tail, rdropWhile_idempotent]

/-! ## The joined text -/

theorem joined_single : joined [l] = l.text := by simp [joined, intercalate]

theorem joined_cons (h : lines ≠ []) : joined (l :: lines) = l.text ++ '\n' :: joined lines := by
  obtain ⟨m, lines, rfl⟩ := exists_cons_of_ne_nil h
  simp [joined, intercalate]

theorem joined_head (lines : List Link) : ∃ s, joined (l :: lines) = l.first :: s := by
  cases lines with
  | nil => exact ⟨_, joined_single l⟩
  | cons m lines =>
    exact ⟨_, rfl⟩

/-- All lines but the last, each with its line break. -/
def front (lines : List Link) : Text := lines.flatMap fun l => l.text ++ ['\n']

theorem joined_concat (lines : List Link) (l : Link) : joined (lines ++ [l]) = front lines ++ l.text := by
  induction lines with
  | nil => exact joined_single l
  | cons m lines ih =>
    rw [cons_append, joined_cons m (by simp), ih]
    simp [front]

theorem trim_joined (lines : List Link) (l : Link) : trim (joined (lines ++ [l])) = joined (lines ++ [l.trimmed]) := by
  rw [joined_concat, joined_concat]
  refine trim_front ?_ l
  cases lines with
  | nil => exact .inl rfl
  | cons m lines => exact .inr ⟨m.first, _, rfl, m.alpha⟩

theorem forEachLine_joined (h : lines ≠ []) : forEachLine (joined lines) = lines.map text := by
  refine splitOn_intercalate '\n' ?_ (by simpa using h)
  intro text htext
  obtain ⟨l, -, rfl⟩ := mem_map.mp htext
  exact l.newline_notMem

theorem joined_made (lines : List Link) : Joined (lines.map text) (joined lines) := by
  induction lines with
  | nil => exact .nil
  | cons l lines ih =>
    by_cases hlines : lines = []
    · rw [hlines, joined_single]
      exact .one l.text
    · rw [joined_cons l hlines]
      simpa using Joined.cons l.text 0 ih

theorem Link.isItem (l : Link) : IsItem l.text := by
  obtain ⟨-, -, -, -, -, -, -, -, -, hbrace, hbracket, -⟩ := isAlpha_plain l.alpha
  exact .line (cons_ne_nil _ _) l.newline_notMem (by simp [text, opens, hbrace, hbracket])

theorem forEachItem_joined (lines : List Link) : forEachItem (joined lines) = lines.map text := by
  refine (joined_made lines).forEachItem fun item hitem => ?_
  obtain ⟨l, -, rfl⟩ := mem_map.mp hitem
  exact l.isItem

/-! ## Marks that a link cannot have -/

theorem isAlpha_schemeChar (h : c.isAlpha = true) : isSchemeChar c = true := by
  simp [isSchemeChar, Char.isAlphanum, h]

theorem Link.dropScheme : l.text.dropWhile isSchemeChar = l.tail := by
  have hall : ∀ c ∈ l.first :: l.scheme, isSchemeChar c = true := by
    intro c hc
    rcases mem_cons.mp hc with rfl | hc
    · exact isAlpha_schemeChar l.alpha
    · exact all_eq_true.mp l.schemeChars c hc
  rw [text, ← cons_append, dropWhile_append_of_pos hall]
  rfl

theorem Link.not_startsWith {more : Text}
    (hmark : mark.toList.dropWhile isSchemeChar = c :: more) (hc : c ≠ ':') : startsWith l.text mark = false := by
  cases hstart : startsWith l.text mark with
  | false => rfl
  | true =>
    obtain ⟨rest, heq⟩ := isPrefixOf_iff_prefix.mp hstart
    have hdrop := l.dropScheme
    have hsplit : (mark.toList ++ rest).dropWhile isSchemeChar = c :: (more ++ rest) := by
      have hword := takeWhile_append_dropWhile (p := isSchemeChar) (l := mark.toList)
      rw [hmark] at hword
      have hstop : isSchemeChar c = false := by
        have hhead := head?_dropWhile_not isSchemeChar mark.toList
        rw [hmark] at hhead
        simpa using hhead
      rw [← hword, append_assoc, dropWhile_append_of_pos (fun x hx => mem_takeWhile_imp hx), cons_append,
        dropWhile_cons_of_neg (by simp [hstop])]
    rw [← heq, hsplit] at hdrop
    exact absurd (cons.inj hdrop).1 hc

theorem Link.not_startsWith_head {more : Text} (hmark : mark.toList = c :: more)
    (hc : c.isAlpha = false) : startsWith l.text mark = false := by
  have hne : (c == l.first) = false := by
    rw [beq_eq_false_iff_ne]
    rintro rfl
    rw [l.alpha] at hc
    cases hc
  rw [startsWith, hmark, text, isPrefixOf, hne, Bool.false_and]

theorem Link.colon_mem : ':' ∈ l.text := by simp [text, tail]

theorem Link.ne_mark (hmark : ':' ∉ mark.toList) : (l.text == mark.toList) = false := by
  rw [beq_eq_false_iff_ne]
  intro heq
  exact hmark (heq ▸ l.colon_mem)

theorem Link.not_ovpn : isOvpnRemote l.text = false ∧ isOvpnClient l.text = false := by
  constructor
  · simp only [isOvpnRemote, any_cons, any_nil, Bool.or_false, Bool.or_eq_false_iff]
    exact ⟨l.not_startsWith rfl (by decide), l.ne_mark (by decide), l.ne_mark (by decide), l.ne_mark (by decide),
      l.ne_mark (by decide), l.ne_mark (by decide)⟩
  · simp only [isOvpnClient, Bool.or_eq_false_iff]
    exact ⟨⟨⟨⟨l.ne_mark (by decide), l.ne_mark (by decide)⟩, l.not_startsWith rfl (by decide)⟩,
      l.not_startsWith rfl (by decide)⟩, l.not_startsWith rfl (by decide)⟩

theorem ovpnLoop_links (lines : List Link) : ovpnLoop false false (lines.map text) = false := by
  induction lines with
  | nil => rfl
  | cons l lines ih =>
    obtain ⟨hremote, hclient⟩ := l.trimmed.not_ovpn
    rw [map_cons, ovpnLoop, trim_link]
    simp only [hremote, hclient, Bool.or_false, Bool.false_and]
    split
    · exact ih
    · exact ih

theorem commandLine_links (lines : List Link) : commandLine ((l :: lines).map text) = false := by
  have hcomment : startsWith l.trimmed.text "#" = false := l.trimmed.not_startsWith_head rfl rfl
  have hcommand : startsWith l.trimmed.text "openconnect " = false := l.trimmed.not_startsWith rfl (by decide)
  have hsome : l.trimmed.text.isEmpty = false := rfl
  rw [map_cons, commandLine, trim_link]
  simp only [hcomment, hsome, hcommand, Bool.or_false]
  rfl

theorem dropBlanks_link : dropBlanks l.text = l.text := by
  obtain ⟨-, -, -, -, -, -, -, -, -, -, -, hspace, htab⟩ := isAlpha_plain l.alpha
  rw [dropBlanks, text, dropWhile_cons_of_neg (by simp [hspace, htab])]

/-- After `protocol` a link goes on as a scheme or with its colon. -/
theorem fileMatch_link : fileMatch l.text = false := by
  rw [fileMatch, dropBlanks_link]
  cases hstart : startsWith l.text "protocol" with
  | false => rfl
  | true =>
    obtain ⟨rest, heq⟩ := isPrefixOf_iff_prefix.mp hstart
    have hdrop := l.dropScheme
    rw [← heq, dropWhile_append_of_pos (all_eq_true.mp (by decide))] at hdrop
    have hafter : (l.text.drop "protocol".length) = rest := by
      rw [← heq]
      rfl
    simp only [Bool.true_and, hafter]
    cases rest with
    | nil => rfl
    | cons c rest =>
      by_cases hc : c = ' ' ∨ c = '\t' ∨ c = '='
      · have hstop : isSchemeChar c = false := by rcases hc with rfl | rfl | rfl <;> rfl
        rw [dropWhile_cons_of_neg (by simp [hstop])] at hdrop
        have hcolon : c = ':' := (cons.inj hdrop).1
        rcases hc with rfl | rfl | rfl <;> cases hcolon
      · simp only [not_or] at hc
        rw [dropBlanks, dropWhile_cons_of_neg (by simp [hc.1, hc.2.1])]
        split
        · rename_i heq'
          exact absurd (cons.inj heq').1 hc.2.2
        · rfl

/-! ## A match stays when blanks follow -/

variable (ht : t.head?.all (fun c => !isWordChar c) = true)

include ht

theorem protocolWord_append (h : protocolWord s = true) :
    protocolWord (s ++ t) = true := by
  rw [protocolWord, any_eq_true] at h ⊢
  obtain ⟨name, hname, hmatch⟩ := h
  refine ⟨name, hname, ?_⟩
  rw [Bool.and_eq_true] at hmatch ⊢
  obtain ⟨rest, rfl⟩ := isPrefixOf_iff_prefix.mp hmatch.1
  have hlength : name.toList.length = name.length := String.length_toList
  have hend := hmatch.2
  rw [← hlength, drop_left] at hend
  refine ⟨ isPrefixOf_iff_prefix.mpr ⟨rest ++ t, by simp⟩, ?_⟩
  rw [append_assoc, ← hlength, drop_left]
  cases rest with
  | nil => cases t <;> simp_all
  | cons c rest => simpa using hend

theorem cliMatchAt_append (h : cliMatchAt s = true) :
    cliMatchAt (s ++ t) = true := by
  rw [cliMatchAt, Bool.and_eq_true] at h ⊢
  obtain ⟨rest, rfl⟩ := isPrefixOf_iff_prefix.mp h.1
  have hlength : "--protocol".toList.length = "--protocol".length := rfl
  have hmatch := h.2
  rw [← hlength, drop_left] at hmatch
  refine ⟨ isPrefixOf_iff_prefix.mpr ⟨rest ++ t, by simp⟩, ?_⟩
  rw [append_assoc, ← hlength, drop_left]
  cases rest with
  | nil => cases hmatch
  | cons c rest =>
    rw [cons_append]
    rw [Bool.and_eq_true] at hmatch ⊢
    exact ⟨hmatch.1, protocolWord_append ht hmatch.2⟩

theorem cliMatch_append (free : Bool)
    (h : cliMatch free s = true) : cliMatch free (s ++ t) = true := by
  induction s generalizing free with
  | nil => cases h
  | cons c s ih =>
    rw [cliMatch, Bool.or_eq_true] at h
    rw [cons_append, cliMatch, Bool.or_eq_true]
    rcases h with h | h
    · left
      rw [Bool.and_eq_true] at h ⊢
      exact ⟨h.1, cliMatchAt_append ht h.2⟩
    · exact .inr (ih (isSpace c) h)

omit ht

theorem Link.text_eq :
    ∃ blanks : Text, l.text = l.trimmed.text ++ blanks ∧ blanks.head?.all (fun c => !isWordChar c) = true := by
  have hsplit : l.rest = l.rest.rdropWhile blank ++ l.rest.rtakeWhile blank := by
    rw [rdropWhile, rtakeWhile, ← reverse_append, takeWhile_append_dropWhile, reverse_reverse]
  refine ⟨l.rest.rtakeWhile blank, ?_, ?_⟩
  · show l.first :: (l.scheme ++ ':' :: '/' :: '/' :: l.rest) =
      (l.first :: (l.scheme ++ ':' :: '/' :: '/' :: l.rest.rdropWhile blank)) ++ l.rest.rtakeWhile blank
    simp
  · cases htake : l.rest.rtakeWhile blank with
    | nil => rfl
    | cons c blanks =>
      have hblank : blank c = true := by
        have hmem : c ∈ l.rest.rtakeWhile blank := by rw [htake]; exact .head _
        exact mem_rtakeWhile_imp hmem
      simp only [blank, isSpace, Bool.or_eq_true, beq_iff_eq] at hblank
      rcases hblank with (((((rfl | rfl) | rfl) | rfl) | rfl) | rfl) | rfl <;> rfl

/-! ## No mark in the text, no mark in a line -/

theorem finds_mono {part text : Text} (h : part <:+: text) (hnone : finds text mark = false) :
    finds part mark = false := by
  rw [finds, decide_eq_false_iff_not] at hnone ⊢
  exact fun hin => hnone (hin.trans h)

theorem line_inside {l : Link} (hl : l ∈ lines) : l.text <:+: joined lines := by
  induction lines with
  | nil => cases hl
  | cons m lines ih =>
    by_cases hlines : lines = []
    · subst hlines
      rw [mem_singleton.mp hl, joined_single]
    rw [joined_cons m hlines]
    rcases mem_cons.mp hl with rfl | hl
    · exact (prefix_append _ _).isInfix
    · exact (ih hl).trans (IsSuffix.isInfix ⟨m.text ++ ['\n'], by simp⟩)

theorem Link.not_openConnect (hany : finds l.text "<AnyConnectProfile" = false)
    (hlist : finds l.text "<ServerList" = false) (hcli : cliMatch true l.text = false) :
    looksLikeOpenConnectProfile l.text = false := by
  have hone : forEachLine l.text = [l].map text := by
    have hlines := forEachLine_joined (cons_ne_nil l [])
    rwa [joined_single] at hlines
  rw [looksLikeOpenConnectProfile, hany, hlist, hone, commandLine_links]
  simp [hcli, fileMatch_link]

theorem Link.not_detected (h : detected (joined lines) = false) {l : Link} (hl : l ∈ lines) :
    detected l.trimmed.text = false := by
  obtain ⟨blanks, htext, hend⟩ := l.text_eq
  have hin : l.trimmed.text <:+: joined lines :=
    (IsPrefix.isInfix ⟨blanks, htext.symm⟩).trans (line_inside hl)
  have hne : lines ≠ [] := ne_nil_of_mem hl
  simp only [detected, Bool.or_eq_false_iff] at h
  obtain ⟨⟨⟨hclash, hwire⟩, -⟩, hconnect⟩ := h
  simp only [looksLikeOpenConnectProfile, Bool.or_eq_false_iff] at hconnect
  obtain ⟨⟨⟨hany, hlist⟩, hlines⟩, -⟩ := hconnect
  rw [forEachLine_joined hne, any_map, any_eq_false] at hlines
  have hcli : cliMatch true l.trimmed.text = false := by
    cases hmatch : cliMatch true l.trimmed.text with
    | false => rfl
    | true =>
      have hraw := cliMatch_append hend true hmatch
      rw [← htext] at hraw
      exact absurd (by simp [hraw]) (hlines l hl)
  have hovpn : looksLikeOvpnConfig l.trimmed.text = false := by
    have hone := forEachLine_joined (cons_ne_nil l.trimmed [])
    rw [joined_single] at hone
    rw [looksLikeOvpnConfig, hone]
    exact ovpnLoop_links [l.trimmed]
  have hwire' : hasWireGuardSections l.trimmed.text = false := by
    rw [hasWireGuardSections, Bool.and_eq_false_iff] at hwire ⊢
    exact hwire.imp (finds_mono hin) (finds_mono hin)
  have hconnect' := l.trimmed.not_openConnect (finds_mono hin hany) (finds_mono hin hlist) hcli
  rw [detected, finds_mono hin hclash, hwire', hovpn, hconnect']
  rfl

/-! ## Reading the lines -/

theorem not_base64 {text : Text} (h : ':' ∈ text) : looksLikeBase64 text = false := by
  have hall : text.all isBase64Char = false := by
    rw [all_eq_false]
    exact ⟨':', h, by decide⟩
  rw [looksLikeBase64, hall, Bool.and_false]

theorem colon_mem_joined (h : lines ≠ []) : ':' ∈ joined lines := by
  obtain ⟨l, lines, rfl⟩ := exists_cons_of_ne_nil h
  exact (line_inside (.head _)).subset l.colon_mem

theorem not_wrapped (h : lines ≠ []) : looksLikeWrappedBase64 (joined lines) = false := by
  obtain ⟨l, lines, rfl⟩ := exists_cons_of_ne_nil h
  have hline : l.text.rdropWhile isSpace = (l.first :: (l.scheme ++ [':', '/'])) ++
    '/' :: l.rest.rdropWhile isSpace := by
    rw [← rdropWhile_stop (by decide)]
    simp [Link.text, Link.tail]
  have hcolon : (l.text.rdropWhile isSpace).all isBase64Char = false := by
    rw [all_eq_false]
    exact ⟨':', by simp [hline], by decide⟩
  have hsome : (l.text.rdropWhile isSpace).isEmpty = false := by
    rw [hline]
    rfl
  rw [looksLikeWrappedBase64, forEachLine_joined (by simp), map_cons, wrappedLoop]
  simp [hcolon, hsome]

theorem decoded_joined (f : Formats Out) (h : lines ≠ []) :
    decoded f (joined lines) = joined lines := by
  simp [decoded, not_base64 (colon_mem_joined h), not_wrapped h]

section

variable {Out : Type*} (f : Formats Out) (read : Call → List Out)

theorem Link.documentStep_eq (l : Link) (allowBase64 needParse : Bool) (name : String) :
    documentStep f read ⟨l.text, allowBase64, needParse, name⟩ = documentBody f read l.trimmed.text needParse name := by
  have hsome : l.trimmed.text.isEmpty = false := rfl
  have hbrace : startsWith l.trimmed.text "\x7b" = false := l.trimmed.not_startsWith_head rfl rfl
  have hbracket : startsWith l.trimmed.text "[" = false := l.trimmed.not_startsWith_head rfl rfl
  rw [documentStep, trim_link]
  simp [hsome, hbrace, hbracket, not_base64 l.trimmed.colon_mem]

theorem Link.body_eq (l : Link) (h : detected l.trimmed.text = false) (needParse : Bool) (name : String) :
    documentBody f read l.trimmed.text needParse name = link f read l.trimmed.text name := by
  have hline : l.trimmed.text.contains '\n' = false := by
    have hnone := l.trimmed.newline_notMem
    simpa using hnone
  rw [documentBody_eq read h, hline, Bool.and_false]
  rfl

theorem parseDocument_line (l : Link) :
    parseDocument f l.text = documentBody f (document f kMaxDepth) l.trimmed.text true "" := by
  have hdecoded := decoded_joined f (cons_ne_nil l.trimmed [])
  rw [joined_single] at hdecoded
  have hsome : l.trimmed.text.isEmpty = false := rfl
  have hagain : l.trimmed.trimmed.text = l.trimmed.text := by
    rw [← trim_link, trimmed_trimmed]
  rw [parseDocument, trim_link, hsome, hdecoded]
  show documentStep f (document f kMaxDepth) ⟨l.trimmed.text, false, true, ""⟩ = _
  rw [l.trimmed.documentStep_eq, hagain]

theorem parseDocument_joined (lines : List Link) (l : Link) :
    parseDocument f (joined (lines ++ [l])) =
      documentBody f (document f kMaxDepth) (trim (joined (lines ++ [l]))) true "" := by
  have hne : lines ++ [l.trimmed] ≠ [] := by simp
  have hhead : ∃ d s, joined (lines ++ [l.trimmed]) = d :: s ∧ d.isAlpha = true := by
    cases lines with
    | nil => exact ⟨_, _, (joined_head l.trimmed []).choose_spec, l.alpha⟩
    | cons m lines => exact ⟨_, _, (joined_head m (lines ++ [l.trimmed])).choose_spec, m.alpha⟩
  have hagain : trim (joined (lines ++ [l.trimmed])) = joined (lines ++ [l.trimmed]) := by
    rw [trim_joined]
    have hsame : l.trimmed.trimmed.text = l.trimmed.text := by rw [← trim_link, trimmed_trimmed]
    rw [joined_concat, joined_concat, hsame]
  obtain ⟨d, s, hds, hd⟩ := hhead
  have hstart : ∀ mark : String, ∀ c more, mark.toList = c :: more → c.isAlpha = false →
      startsWith (joined (lines ++ [l.trimmed])) mark = false := by
    intro mark c more hmark hc
    have hne' : (c == d) = false := by
      rw [beq_eq_false_iff_ne]
      rintro rfl
      rw [hd] at hc
      cases hc
    rw [startsWith, hmark, hds, isPrefixOf, hne', Bool.false_and]
  have hsome : (joined (lines ++ [l.trimmed])).isEmpty = false := by rw [hds]; rfl
  rw [parseDocument, trim_joined, hsome, decoded_joined f hne]
  show documentStep f (document f kMaxDepth) ⟨joined (lines ++ [l.trimmed]), false, true, ""⟩ = _
  rw [documentStep, hagain]
  simp [hsome, hstart "\x7b" _ _ rfl rfl, hstart "[" _ _ rfl rfl]

end

section

variable {Out : Type*} {f : Formats Out}

theorem Link.item_eq (l : Link) (h : detected l.trimmed.text = false) (hnested : NestedWithin f l) :
    document f kMaxDepth ⟨l.text, true, false, ""⟩ = parseDocument f l.text := by
  rw [parseDocument_line, l.body_eq f (document f kMaxDepth) h]
  show documentStep f (document f (kMaxDepth - 1)) ⟨l.text, true, false, ""⟩ = _
  rw [l.documentStep_eq, l.body_eq f (document f (kMaxDepth - 1)) h]
  refine link_congr (fun c hc => ?_) ""
  rw [← trim_link] at hc
  exact document_succ (hnested c hc)

theorem contains_newline {lines : List Link} (h : lines ≠ []) (l : Link) :
    (joined (lines ++ [l])).contains '\n' = true := by
  obtain ⟨m, lines, rfl⟩ := exists_cons_of_ne_nil h
  rw [contains_iff_mem, cons_append, joined_cons m (by simp)]
  simp

theorem independent_of_not_detected {lines : List Link} {l : Link} (hlines : lines ≠ [])
    (h : detected (trim (joined (lines ++ [l]))) = false) (hnested : ∀ m ∈ lines ++ [l], NestedWithin f m) :
    Independent f (lines ++ [l]) := by
  have hjoined := trim_joined lines l
  rw [hjoined] at h
  rw [Independent, parseDocument_joined, hjoined, documentBody_eq _ h, contains_newline hlines,
    Bool.and_true, if_pos rfl,
    forEachItem_joined, flatMap_map]
  have hlast : detected l.trimmed.text = false := by
    have hl := not_detected h (mem_append_right lines (.head _))
    rwa [← trim_link, trimmed_trimmed] at hl
  have hfront : ∀ m ∈ lines, detected m.trimmed.text = false :=
    fun m hm => not_detected h (mem_append_left _ hm)
  have hlastItem : document f kMaxDepth ⟨l.trimmed.text, true, false, ""⟩ =
    document f kMaxDepth ⟨l.text, true, false, ""⟩ := by
    have hstep : ∀ read : Call → List Out,
        documentStep f read ⟨l.trimmed.text, true, false, ""⟩ = documentStep f read ⟨l.text, true, false, ""⟩ := by
      intro read
      rw [l.trimmed.documentStep_eq, l.documentStep_eq, ← trim_link l.trimmed, trimmed_trimmed]
    exact hstep _
  rw [flatMap_append, flatMap_append, flatMap_singleton, flatMap_singleton, hlastItem,
    l.item_eq hlast (hnested l (by simp))]
  congr 1
  exact flatMap_congr fun m hm => m.item_eq (hfront m hm) (hnested m (mem_append_left _ hm))

theorem independent_of_short {lines : List Link} (h : lines.length ≤ 1) : Independent f lines := by
  match lines, h with
  | [], _ => rfl
  | [l], _ =>
    rw [Independent, joined_single]
    simp

end

/-! ## A mark anywhere -/

/-- Formats that deliver one thing for every text, and more for one text. -/
def oneText (x : Out) (text : Text) (count : Nat) : Formats Out :=
  let deliver := fun t => if t = text then replicate count x else [x]
  { decodeBase64 := fun _ => []
    fromBase64 := fun _ => []
    json := fun _ => none
    jsonSyntax := fun _ => x
    clash := deliver
    wireguardFile := fun t _ => deliver t
    openVpnFile := deliver
    openConnectProfile := deliver
    jsonLink := fun _ _ => [x]
    vpnDocuments := fun _ => none
    vpnUndecoded := fun _ => x
    vpnEmpty := fun _ => x
    schemeReport := fun _ _ => x
    parseLink := fun _ _ _ => [x] }

section

variable {Out : Type*} (x : Out) (text : Text) (count : Nat) (read : Call → List Out)

theorem body_marked (h : detected text = true) (needParse : Bool) (name : String) :
    documentBody (oneText x text count) read text needParse name = replicate count x := by
  simp only [detected, Bool.or_eq_true] at h
  rw [documentBody]
  split
  · exact if_pos rfl
  split
  · exact if_pos rfl
  split
  · exact if_pos rfl
  split
  · exact if_pos rfl
  · simp_all

theorem linkCalls_oneText (line : Text) : linkCalls (oneText x text count) line = [] := by
  rw [linkCalls]
  split
  · rfl
  split
  · rfl
  split
  · rfl
  split
  · show map _ ((none : Option (List (Text × String))).getD []) = []
    rfl
  · rfl

theorem link_length (line : Text) (name : String) : (link (oneText x text count) read line name).length ≤ 1 := by
  rw [link]
  split
  · exact zero_le 1
  split
  · exact le_refl 1
  split
  · exact le_refl 1
  split
  · exact le_refl 1
  split
  · split
    · exact zero_le 1
    · exact le_refl 1
  · exact le_refl 1

theorem body_length (l : Link) (h : l.trimmed.text ≠ text) (needParse : Bool) (name : String) :
    (documentBody (oneText x text count) read l.trimmed.text needParse name).length ≤ 1 := by
  have hone : (if l.trimmed.text = text then replicate count x else [x]).length ≤ 1 := by
    rw [if_neg h]
    exact le_refl 1
  cases hdetected : detected l.trimmed.text with
  | false =>
    rw [l.body_eq _ _ hdetected]
    exact link_length x text count read _ _
  | true =>
    simp only [detected, Bool.or_eq_true] at hdetected
    rw [documentBody]
    split
    · exact hone
    split
    · exact hone
    split
    · exact hone
    split
    · exact hone
    · simp_all

end

/-- With a mark in several lines, some reading of the formats tells them apart from single lines. -/
theorem not_independent_of_detected (x : Out) {l : Link} (hlines : lines ≠ [])
    (h : detected (trim (joined (lines ++ [l]))) = true) :
    ¬ Independent (oneText x (trim (joined (lines ++ [l]))) (lines.length + 2)) (lines ++ [l]) := by
  intro hindependent
  have hlength := congrArg length hindependent
  rw [parseDocument_joined, body_marked x _ _ _ h, length_replicate, length_flatMap] at hlength
  have hsum : ∀ ms : List Link, (∀ m ∈ ms, m.trimmed.text ≠ trim (joined (lines ++ [l]))) →
      (ms.map fun m => (parseDocument (oneText x (trim (joined (lines ++ [l]))) (lines.length + 2)) m.text).length).sum ≤
        ms.length := by
    intro ms hms
    induction ms with
    | nil => exact le_refl 0
    | cons m ms ih =>
      have hhead := body_length x (trim (joined (lines ++ [l]))) (lines.length + 2)
        (document (oneText x (trim (joined (lines ++ [l]))) (lines.length + 2)) kMaxDepth) m (hms m (.head _)) true ""
      have htail := ih fun m' hm' => hms m' (.tail _ hm')
      rw [map_cons, sum_cons, parseDocument_line, length_cons]
      omega
  have hle := hsum (lines ++ [l]) (by
    intro m _ heq
    have hnewline := contains_newline hlines l.trimmed
    rw [trim_joined] at heq
    rw [← heq, contains_iff_mem] at hnewline
    exact m.trimmed.newline_notMem hnewline)
  rw [length_append, length_singleton] at hle
  omega

/-- **Line by line.**  Whatever the formats deliver, a list of links is read line by line, if
and only if it has at most one line or no mark of a whole file is in the joined text. -/
theorem lines_independent_iff [Inhabited Out] (lines : List Link) :
    (∀ f : Formats Out, (∀ l ∈ lines, NestedWithin f l) → Independent f lines) ↔
      lines.length ≤ 1 ∨ detected (trim (joined lines)) = false := by
  rcases lt_or_ge 1 lines.length with hmany | hfew
  · obtain ⟨front, l, rfl⟩ : ∃ front l, lines = front ++ [l] :=
      ⟨_, _, (dropLast_append_getLast (ne_nil_of_length_pos (by omega))).symm⟩
    have hfront : front ≠ [] := by
      rintro rfl
      simp at hmany
    constructor
    · intro h
      right
      cases hdetected : detected (trim (joined (front ++ [l]))) with
      | false => rfl
      | true =>
        refine absurd (h _ ?_) (not_independent_of_detected (default : Out) hfront hdetected)
        intro m _ c hc
        rw [linkCalls_oneText] at hc
        cases hc
    · rintro (hshort | hnone) f hnested
      · omega
      · exact independent_of_not_detected hfront hnone hnested
  · exact iff_of_true (fun f _ => independent_of_short hfew) (.inl hfew)

/-- Formats that deliver the text they were handed, under the name of the format. -/
def named : Formats (String × Text) where
  decodeBase64 := fun _ => []
  fromBase64 := fun _ => []
  json := fun _ => none
  jsonSyntax := fun text => ("syntax", text)
  clash := fun text => [("clash", text)]
  wireguardFile := fun text _ => [("wireguard", text)]
  openVpnFile := fun text => [("openvpn", text)]
  openConnectProfile := fun text => [("openconnect", text)]
  jsonLink := fun line _ => [("json", line)]
  vpnDocuments := fun _ => none
  vpnUndecoded := fun line => ("vpn", line)
  vpnEmpty := fun line => ("vpn", line)
  schemeReport := fun line _ => ("scheme", line)
  parseLink := fun type line _ => [(type, line)]

/-- `trojan://p@h:1#proxies:` and `trojan://p@h:2#b`. -/
def clashNamed : List Link :=
  [⟨'t', "rojan".toList, "p@h:1#proxies:".toList, rfl, rfl, by decide⟩,
   ⟨'t', "rojan".toList, "p@h:2#b".toList, rfl, rfl, by decide⟩]

/-- The first link is named after a mark: both lines are handed to the Clash reader as one
file, and the second link is not read at all. -/
theorem clashNamed_not_independent :
    clashNamed.map (fun l => String.ofList l.text) = ["trojan://p@h:1#proxies:", "trojan://p@h:2#b"] ∧
      parseDocument named (joined clashNamed) = [("clash", joined clashNamed)] ∧ ¬ Independent named clashNamed := by
  refine ⟨by decide +kernel, by decide +kernel, ?_⟩
  rw [Independent]
  decide +kernel

end Waterdisco.Document
