import Waterdisco.Sub.DocumentLines

/-!
# A document and its base64 encoding

`ParseDocument` and `ShippedRoutingLink` decode a body that looks like base64, on one line
or wrapped, each for itself.  What base64 is is a parameter: an encoding over the alphabet
that both decoders undo, line breaks being skipped by the lenient one (`Base64`).

    a body between blanks          =  the body               (parseDocument_surrounded)
    its encoding, plain or wrapped =  the body               (encoded_contract)
-/

namespace Waterdisco.Document

open List Bool Nat

section

variable {Out : Type*} (f : Formats Out)

/-! ## Algorithm -/

/-- The first routing link of a body, empty where there is none. -/
def shippedRoutingLink (body : Text) : Text :=
  if (trim body).isEmpty then []
  else (((forEachLine (decoded f (trim body))).map trim).find? isRoutingLink).getD []

end

/-! ## Encodings -/

/-- What base64 makes of a text: the strict and the lenient decoder undo it. -/
structure Base64 {Out : Type*} (f : Formats Out) (text encoded : Text) : Prop where
  alphabet : ∀ c ∈ encoded, isBase64Char c = true
  nonempty : text ≠ [] → encoded ≠ []
  strict : f.decodeBase64 encoded = text
  lenient : ∀ body, body.filter (fun c => c != '\n' && c != '\r') = encoded → f.fromBase64 body = text

/-- `whole` in lines of `column` characters, the last one no longer, between LF or CRLF. -/
inductive Wrapped (column : Nat) : Text → Text → Prop
  | last {line : Text} : line ≠ [] → line.length ≤ column → Wrapped column line line
  | lf {line rest wrapped : Text} : line.length = column → Wrapped column rest wrapped →
      Wrapped column (line ++ rest) (line ++ '\n' :: wrapped)
  | crlf {line rest wrapped : Text} : line.length = column → Wrapped column rest wrapped →
      Wrapped column (line ++ rest) (line ++ '\r' :: '\n' :: wrapped)

/-! ## Blanks -/

def blankLeft (c : Char) : Bool := isSpace c || c == '\u00a0' || c == '\ufeff'

variable {c : Char} {pre post whole wrapped line : Text} {column : Nat} (s : Text)

theorem blankLeft_of_blank (h : blank c = true) : blankLeft c = true := by
  unfold blankLeft
  unfold blank at h
  rw [h, Bool.true_or]

theorem trim_eq : trim s = (s.dropWhile blankLeft).rdropWhile blank := rfl

theorem dropWhile_append_all {p : Char → Bool} (h : ∀ c ∈ pre, p c = true) (s : Text) :
    (pre ++ s).dropWhile p = s.dropWhile p := by
  induction pre with
  | nil => rfl
  | cons c rest ih =>
    rw [cons_append, dropWhile_cons_of_pos (h c (.head _))]
    exact ih (fun d hd => h d (.tail _ hd))

theorem rdropWhile_append_all {p : Char → Bool} (h : ∀ c ∈ post, p c = true) (s : Text) :
    (s ++ post).rdropWhile p = s.rdropWhile p := by
  unfold rdropWhile
  rw [reverse_append, dropWhile_append_all (fun c hc => h c (mem_reverse.mp hc))]

theorem trim_surrounded (hpre : ∀ c ∈ pre, blankLeft c = true) (hpost : ∀ c ∈ post, blank c = true) (s : Text) :
    trim (pre ++ s ++ post) = trim s := by
  rw [trim_eq, trim_eq, append_assoc, dropWhile_append_all hpre, dropWhile_append]
  split
  · next hnone =>
    have hpost' : post.dropWhile blankLeft = [] := dropWhile_eq_nil_iff.mpr (fun c hc => blankLeft_of_blank (hpost c hc))
    rw [isEmpty_iff.mp hnone, hpost']
  · exact rdropWhile_append_all hpost _

theorem trim_split :
    ∃ pre post, s = pre ++ trim s ++ post ∧ (∀ c ∈ pre, blankLeft c = true) ∧ ∀ c ∈ post, blank c = true := by
  refine ⟨s.takeWhile blankLeft, (s.dropWhile blankLeft).rtakeWhile blank, ?_,
    fun c hc => mem_takeWhile_imp hc, fun c hc => ?_⟩
  · rw [trim_eq, append_assoc, rdropWhile_append_rtakeWhile, takeWhile_append_dropWhile]
  · exact mem_rtakeWhile_imp hc

theorem trim_trim : trim (trim s) = trim s := by
  obtain ⟨pre, post, hs, hpre, hpost⟩ := trim_split s
  have h := trim_surrounded hpre hpost (trim s)
  rw [← hs] at h
  exact h.symm

/-! ## Lines between blanks -/

def fullLines (s : Text) : List Text := ((forEachLine s).map trim).filter (fun line => !line.isEmpty)

theorem fullLines_cons (hc : blankLeft c = true) (s : Text) : fullLines (c :: s) = fullLines s := by
  unfold fullLines forEachLine
  rw [splitOn_cons_eq_if_modifyHead]
  split
  · rfl
  obtain ⟨line, rest, hlines⟩ := exists_cons_of_ne_nil (splitOn_ne_nil '\n' s)
  rw [hlines, modifyHead_cons, map_cons, map_cons]
  have htrim : trim ([c] ++ line ++ []) = trim line := trim_surrounded (by simpa using hc) (by simp) line
  rw [append_nil, singleton_append] at htrim
  rw [htrim]

theorem splitOn_concat (hc : c ≠ '\n') (s : Text) :
    ∃ lines last, s.splitOn '\n' = lines ++ [last] ∧ (s ++ [c]).splitOn '\n' = lines ++ [last ++ [c]] := by
  induction s with
  | nil =>
    refine ⟨[], [], rfl, ?_⟩
    exact splitOn_eq_singleton (by simpa using fun h => hc h.symm)
  | cons d rest ih =>
    obtain ⟨lines, last, hlines, hmore⟩ := ih
    rw [cons_append, splitOn_cons_eq_if_modifyHead, splitOn_cons_eq_if_modifyHead, hlines, hmore]
    split
    · exact ⟨[] :: lines, last, rfl, rfl⟩
    cases lines with
    | nil => exact ⟨[], d :: last, rfl, rfl⟩
    | cons line lines => exact ⟨(d :: line) :: lines, last, rfl, rfl⟩

theorem fullLines_concat (hc : blank c = true) (s : Text) : fullLines (s ++ [c]) = fullLines s := by
  unfold fullLines forEachLine
  by_cases hnl : c = '\n'
  · subst hnl
    rw [splitOn_append_cons_self, splitOn_nil, map_append, filter_append]
    exact append_nil _
  obtain ⟨lines, last, hlines, hmore⟩ := splitOn_concat hnl s
  have htrim : trim ([] ++ last ++ [c]) = trim last := trim_surrounded (by simp) (by simpa using hc) last
  rw [nil_append] at htrim
  rw [hlines, hmore, map_append, map_append, map_singleton, map_singleton, htrim]

theorem fullLines_surrounded (hpre : ∀ c ∈ pre, blankLeft c = true) (hpost : ∀ c ∈ post, blank c = true) (s : Text) :
    fullLines (pre ++ s ++ post) = fullLines s := by
  have hleft : ∀ t : Text, fullLines (pre ++ t) = fullLines t := by
    intro t
    induction pre with
    | nil => rfl
    | cons c rest ih =>
      rw [cons_append, fullLines_cons (hpre c (.head _))]
      exact ih (fun d hd => hpre d (.tail _ hd))
  rw [append_assoc, hleft]
  induction post using reverseRecOn with
  | nil => rw [append_nil]
  | append_singleton rest c ih =>
    rw [← append_assoc, fullLines_concat (hpost c (by simp))]
    exact ih (fun d hd => hpost d (mem_append_left _ hd))

theorem fullLines_trim : fullLines (trim s) = fullLines s := by
  obtain ⟨pre, post, hs, hpre, hpost⟩ := trim_split s
  have h := fullLines_surrounded hpre hpost (trim s)
  rw [← hs] at h
  exact h.symm

theorem find_fullLines : ((forEachLine s).map trim).find? isRoutingLink = (fullLines s).find? isRoutingLink := by
  unfold fullLines
  induction (forEachLine s).map trim with
  | nil => rfl
  | cons line rest ih =>
    cases line with
    | nil => rw [find?_cons_of_neg (by decide), ih]; rfl
    | cons c line =>
      rw [filter_cons_of_pos (by rfl)]
      cases h : isRoutingLink (c :: line) with
      | true => rw [find?_cons_of_pos h, find?_cons_of_pos h]
      | false => rw [find?_cons_of_neg (by simp [h]), find?_cons_of_neg (by simp [h]), ih]

/-! ## Encoded bodies -/

theorem base64_plain (h : isBase64Char c = true) :
    isSpace c = false ∧ blankLeft c = false ∧ blank c = false ∧ c ≠ '\n' ∧ c ≠ '\r' := by
  have hne : ∀ d : Char, isBase64Char d = false → c ≠ d := by
    rintro d hd rfl
    rw [hd] at h
    cases h
  have hspace : isSpace c = false := by
    simp [isSpace, hne ' ' rfl, hne '\t' rfl, hne '\n' rfl, hne '\r' rfl, hne '\u000b' rfl, hne '\u000c' rfl]
  exact ⟨hspace, by simp [blankLeft, hspace, hne '\u00a0' rfl, hne '\ufeff' rfl],
    by simp [blank, hspace, hne '\u00a0' rfl],
    hne _ rfl, hne _ rfl⟩

theorem trim_self {s : Text} (hfirst : ∀ c ∈ s.head?, blankLeft c = false)
    (hlast : ∀ c ∈ s.getLast?, blank c = false) : trim s = s := by
  rw [trim_eq]
  have hleft : s.dropWhile blankLeft = s := by
    cases s with
    | nil => rfl
    | cons c rest => exact dropWhile_cons_of_neg (by rw [hfirst c rfl]; exact false_ne_true)
  rw [hleft]
  induction s using reverseRecOn with
  | nil => rfl
  | append_singleton rest c => exact rdropWhile_concat_neg _ _ _ (by rw [hlast c (by simp)]; exact false_ne_true)

variable (h : Wrapped column whole wrapped)

include h in
theorem Wrapped.ne_nil : wrapped ≠ [] := by
  cases h with
  | last hne => exact hne
  | lf => simp
  | crlf => simp

variable (hplain : ∀ c ∈ whole, isBase64Char c = true)

include h hplain in
/-- The line breaks are all that is put in. -/
theorem Wrapped.filter : wrapped.filter (fun c => c != '\n' && c != '\r') = whole := by
  have hline : ∀ {line : Text}, (∀ c ∈ line, isBase64Char c = true) →
    line.filter (fun c => c != '\n' && c != '\r') = line := by
    intro line hl
    refine filter_eq_self.mpr (fun c hc => ?_)
    obtain ⟨-, -, -, hlf, hcr⟩ := base64_plain (hl c hc)
    simp [hlf, hcr]
  induction h with
  | last => exact hline hplain
  | lf _ _ ih =>
    rw [filter_append, hline (fun c hc => hplain c (mem_append_left _ hc))]
    congr 1
    exact ih (fun c hc => hplain c (mem_append_right _ hc))
  | crlf _ _ ih =>
    rw [filter_append, hline (fun c hc => hplain c (mem_append_left _ hc))]
    congr 1
    exact ih (fun c hc => hplain c (mem_append_right _ hc))

include h in
/-- The ends of a wrapped text are those of the text. -/
theorem Wrapped.trimmed (hpos : 0 < column)
    (hplain : ∀ c ∈ whole, isBase64Char c = true) : trim wrapped = wrapped := by
  have hfirst : ∀ {line rest : Text}, line.length = column → (∀ c ∈ line, isBase64Char c = true) →
      ∀ c ∈ (line ++ rest).head?, blankLeft c = false := by
    intro line rest hlen hl c hc
    cases line with
    | nil =>
      rw [length_nil] at hlen
      omega
    | cons d line =>
      obtain rfl : d = c := by simpa using hc
      exact (base64_plain (hl d (.head _))).2.1
  have hends : (∀ c ∈ wrapped.head?, blankLeft c = false) ∧ ∀ c ∈ wrapped.getLast?, blank c = false := by
    induction h with
    | last =>
      exact ⟨fun c hc => (base64_plain (hplain c (mem_of_mem_head? hc))).2.1,
        fun c hc => (base64_plain (hplain c (mem_of_mem_getLast? hc))).2.2.1⟩
    | lf hlen hrest ih =>
      refine ⟨hfirst hlen (fun c hc => hplain c (mem_append_left _ hc)), fun c hc => ?_⟩
      have hne := hrest.ne_nil
      rw [getLast?_append_cons, getLast?_cons_of_ne_nil hne] at hc
      exact (ih (fun d hd => hplain d (mem_append_right _ hd))).2 c hc
    | crlf hlen hrest ih =>
      refine ⟨hfirst hlen (fun c hc => hplain c (mem_append_left _ hc)), fun c hc => ?_⟩
      have hne := hrest.ne_nil
      rw [getLast?_append_cons, getLast?_cons_of_ne_nil (by simp), getLast?_cons_of_ne_nil hne] at hc
      exact (ih (fun d hd => hplain d (mem_append_right _ hd))).2 c hc
  exact trim_self hends.1 hends.2

variable (hl : ∀ c ∈ line, isBase64Char c = true)

include hl in
theorem rdropWhile_line (hpost : ∀ c ∈ post, isSpace c = true) :
    (line ++ post).rdropWhile isSpace = line := by
  rw [rdropWhile_append_all hpost]
  induction line using reverseRecOn with
  | nil => rfl
  | append_singleton rest c =>
    refine rdropWhile_concat_neg _ _ _ ?_
    rw [(base64_plain (hl c (by simp))).1]
    exact false_ne_true

theorem wrappedLoop_line (lines : Nat) (post : Text) (more : List Text) (hpos : 0 < column) (hne : line ≠ [])
    (hl : ∀ c ∈ line, isBase64Char c = true) (hpost : ∀ c ∈ post, isSpace c = true) (hle : line.length ≤ column) :
    wrappedLoop column lines false ((line ++ post) :: more) =
      wrappedLoop column (lines + 1) (decide (line.length < column)) more := by
  have hempty : line.isEmpty = false := by
    cases line with
    | nil => exact absurd rfl hne
    | cons => rfl
  have hall : line.all isBase64Char = true := List.all_eq_true.mpr hl
  have hzero : (column == 0) = false := by
    rw [beq_eq_false_iff_ne]
    omega
  have hwide : decide (column < line.length) = false := decide_eq_false (by omega)
  rw [wrappedLoop]
  simp only [rdropWhile_line hl hpost, hempty, hall, hzero, hwide, Bool.not_true,
    Bool.false_eq_true, if_false, Bool.or_self]

theorem wrappedLoop_first {more : List Text} (hne : line ≠ []) (hl : ∀ c ∈ line, isBase64Char c = true)
    (hpost : ∀ c ∈ post, isSpace c = true) :
    wrappedLoop 0 0 false ((line ++ post) :: more) = wrappedLoop line.length 1 false more := by
  have hempty : line.isEmpty = false := by
    cases line with
    | nil => exact absurd rfl hne
    | cons => rfl
  have hall : line.all isBase64Char = true := List.all_eq_true.mpr hl
  rw [wrappedLoop]
  simp only [rdropWhile_line hl hpost, hempty, hall, Bool.not_true, Bool.false_eq_true, if_false,
    beq_self_eq_true, if_true]

include hl in
theorem newline_notMem : '\n' ∉ line :=
  fun hmem => (base64_plain (hl _ hmem)).2.2.2.1 rfl

include hl in
theorem newline_notMem_cr : '\n' ∉ line ++ ['\r'] := by
  intro hmem
  obtain hmem | hmem := mem_append.mp hmem
  · exact newline_notMem hl hmem
  · simp at hmem

theorem forEachLine_cons (h : '\n' ∉ line) (rest : Text) :
    forEachLine (line ++ '\n' :: rest) = line :: forEachLine rest := by
  unfold forEachLine
  rw [splitOn_append_cons_self, splitOn_eq_singleton h]
  rfl

include h in
theorem Wrapped.loop (hpos : 0 < column)
    (hplain : ∀ c ∈ whole, isBase64Char c = true) (lines : Nat) :
    ∃ more, wrappedLoop column lines false (forEachLine wrapped) = some (column, lines + more) ∧ 0 < more := by
  induction h generalizing lines with
  | @last line hne hle =>
    refine ⟨1, ?_, by omega⟩
    have hone := wrappedLoop_line lines [] [] hpos hne hplain (by simp) hle
    rw [append_nil] at hone
    unfold forEachLine
    rw [splitOn_eq_singleton (newline_notMem hplain), hone]
    rfl
  | @lf line rest wrapped hlen hrest ih =>
    have hl : ∀ c ∈ line, isBase64Char c = true := fun c hc => hplain c (mem_append_left _ hc)
    have hne : line ≠ [] := by
      rintro rfl
      rw [length_nil] at hlen
      omega
    obtain ⟨more, hmore, hpos'⟩ := ih (fun c hc => hplain c (mem_append_right _ hc)) (lines + 1)
    refine ⟨1 + more, ?_, by omega⟩
    have hone := wrappedLoop_line lines [] (forEachLine wrapped) hpos hne hl (by simp) (le_of_eq hlen)
    rw [append_nil, hlen, decide_eq_false (lt_irrefl column)] at hone
    rw [forEachLine_cons (newline_notMem hl), hone, hmore, Nat.add_assoc]
  | @crlf line rest wrapped hlen hrest ih =>
    have hl : ∀ c ∈ line, isBase64Char c = true := fun c hc => hplain c (mem_append_left _ hc)
    have hne : line ≠ [] := by
      rintro rfl
      rw [length_nil] at hlen
      omega
    obtain ⟨more, hmore, hpos'⟩ := ih (fun c hc => hplain c (mem_append_right _ hc)) (lines + 1)
    refine ⟨1 + more, ?_, by omega⟩
    have hone := wrappedLoop_line lines ['\r'] (forEachLine wrapped) hpos hne hl (by simp [isSpace]) (le_of_eq hlen)
    rw [hlen, decide_eq_false (lt_irrefl column)] at hone
    have hlines := forEachLine_cons (newline_notMem_cr hl) wrapped
    rw [append_assoc, singleton_append] at hlines
    rw [hlines, hone, hmore, Nat.add_assoc]

include h in
theorem Wrapped.looksLike (hpos : 0 < column) (h4 : 4 ∣ column)
    (hplain : ∀ c ∈ whole, isBase64Char c = true) (hlines : column < whole.length) :
    looksLikeBase64 wrapped = false ∧ looksLikeWrappedBase64 wrapped = true := by
  have hmod : (column % 4 == 0) = true := beq_iff_eq.mpr (mod_eq_zero_of_dvd h4)
  have hbreak : '\n' ∈ wrapped → looksLikeBase64 wrapped = false := by
    intro hmem
    unfold looksLikeBase64
    rw [and_eq_false_iff]
    refine .inr (all_eq_false.mpr ⟨'\n', hmem, by decide⟩)
  have hdone : ∀ {line : Text} (post : Text) {more : List Text}, line.length = column →
    (∀ c ∈ line, isBase64Char c = true) →
      (∀ c ∈ post, isSpace c = true) → forEachLine wrapped = (line ++ post) :: more →
      (∃ n, wrappedLoop column 1 false more = some (column, 1 + n) ∧ 0 < n) → looksLikeWrappedBase64 wrapped = true := by
    intro line post more hlen hl hpost heq hloop
    obtain ⟨n, hn, hpos'⟩ := hloop
    have hne : line ≠ [] := by
      rintro rfl
      rw [length_nil] at hlen
      omega
    unfold looksLikeWrappedBase64
    rw [heq, wrappedLoop_first hne hl hpost, hlen, hn]
    show (decide (2 ≤ 1 + n) && column % 4 == 0) = true
    rw [hmod, Bool.and_true]
    exact decide_eq_true (by omega)
  cases h with
  | last hne hle => omega
  | @lf line rest wrapped hlen hrest =>
    have hl : ∀ c ∈ line, isBase64Char c = true := fun c hc => hplain c (mem_append_left _ hc)
    refine ⟨hbreak (by simp), hdone [] hlen hl (by simp) ?_
      (hrest.loop hpos (fun c hc => hplain c (mem_append_right _ hc)) 1)⟩
    rw [append_nil]
    exact forEachLine_cons (newline_notMem hl) wrapped
  | @crlf line rest wrapped hlen hrest =>
    have hl : ∀ c ∈ line, isBase64Char c = true := fun c hc => hplain c (mem_append_left _ hc)
    refine ⟨hbreak (by simp), hdone ['\r'] hlen hl (by simp [isSpace]) ?_
      (hrest.loop hpos (fun c hc => hplain c (mem_append_right _ hc)) 1)⟩
    have hlines := forEachLine_cons (newline_notMem_cr hl) wrapped
    rwa [append_assoc, singleton_append] at hlines

/-! ## The two entry points -/

section

variable {Out : Type*} {f : Formats Out}

theorem document_trim (levels : Nat) (text : Text) (allowBase64 needParse : Bool) (name : String) :
    document f (levels + 1) ⟨trim text, allowBase64, needParse, name⟩ =
      document f (levels + 1) ⟨text, allowBase64, needParse, name⟩ := by
  rw [document, document, documentStep, documentStep, trim_trim]

theorem parse_of_decoded {body text : Text} (hbody : trim body ≠ []) (htext : trim text ≠ [])
    (hplain : looksLikeBase64 (trim text) = false) (hwrapped : looksLikeWrappedBase64 (trim text) = false)
    (h : trim (decoded f (trim body)) = trim text) :
    parseDocument f body = parseDocument f text ∧ shippedRoutingLink f body = shippedRoutingLink f text := by
  have hself : decoded f (trim text) = trim text := by
    unfold decoded
    rw [hplain, hwrapped, if_neg Bool.false_ne_true, if_neg Bool.false_ne_true]
  have hempty : ∀ {s : Text}, trim s ≠ [] → ¬ (trim s).isEmpty = true := fun hs he => hs (isEmpty_iff.mp he)
  constructor
  · rw [parseDocument, parseDocument, if_neg (hempty hbody), if_neg (hempty htext), hself, ← document_trim, h]
  · rw [shippedRoutingLink, shippedRoutingLink, if_neg (hempty hbody), if_neg (hempty htext), hself,
      find_fullLines, find_fullLines,
      ← fullLines_trim, h]

/-- **However a document is encoded**, it is read as the document: plain, in base64 on one line, or wrapped. -/
theorem encoded_contract {text encoded : Text} (h64 : Base64 f text encoded) (hblank : trim text ≠ [])
    (hplain : looksLikeBase64 (trim text) = false)
    (hwrapped : looksLikeWrappedBase64 (trim text) = false) (pre post : Text)
    (hpre : ∀ c ∈ pre, blankLeft c = true) (hpost : ∀ c ∈ post, blank c = true) (column : Nat)
    (hpos : 0 < column) (h4 : 4 ∣ column)
    (body : Text) (hbody : body = text ∨ body = encoded ∨ Wrapped column encoded body ∧ column < encoded.length) :
    parseDocument f (pre ++ body ++ post) = parseDocument f text ∧
      shippedRoutingLink f (pre ++ body ++ post) = shippedRoutingLink f text := by
  have htext : text ≠ [] := by
    rintro rfl
    exact hblank rfl
  have hne := h64.nonempty htext
  have halphabet := h64.alphabet
  have hencoded : ∀ t : Text, t ≠ [] → (if t.isEmpty then body else t) = t := by
    intro t ht
    rw [if_neg (fun he => ht (isEmpty_iff.mp he))]
  obtain rfl | rfl | ⟨hwrap, hlines⟩ := hbody
  · have htrim := trim_surrounded hpre hpost body
    refine parse_of_decoded (htrim ▸ hblank) hblank hplain hwrapped ?_
    rw [htrim, decoded, hplain, hwrapped, if_neg Bool.false_ne_true, if_neg Bool.false_ne_true, trim_trim]
  · have hself : trim body = body :=
      trim_self (fun c hc => (base64_plain (halphabet c (mem_of_mem_head? hc))).2.1)
        (fun c hc => (base64_plain (halphabet c (mem_of_mem_getLast? hc))).2.2.1)
    have htrim := (trim_surrounded hpre hpost body).trans hself
    have hlooks : looksLikeBase64 body = true := by
      unfold looksLikeBase64
      rw [and_eq_true_iff]
      exact ⟨by simpa using hne, all_eq_true.mpr halphabet⟩
    refine parse_of_decoded (by rw [htrim]; exact hne) hblank hplain hwrapped ?_
    rw [htrim, decoded, if_pos hlooks, h64.strict, hencoded text htext]
  · obtain ⟨hno, hyes⟩ := hwrap.looksLike hpos h4 halphabet hlines
    have htrim := (trim_surrounded hpre hpost body).trans (hwrap.trimmed hpos halphabet)
    have hdecoded : f.fromBase64 body = text := h64.lenient body (hwrap.filter halphabet)
    refine parse_of_decoded (by rw [htrim]; exact hwrap.ne_nil) hblank hplain hwrapped ?_
    rw [htrim, decoded, hno, if_neg Bool.false_ne_true, if_pos hyes, hdecoded, hencoded text htext]

/-- A base64 that knows one text. -/
def oneEncoding (text encoded : Text) : Formats Text where
  decodeBase64 := fun s => if s = encoded then text else []
  fromBase64 := fun s => if s.filter (fun c => c != '\n' && c != '\r') = encoded then text else []
  json := fun _ => none
  jsonSyntax := id
  clash := fun _ => []
  wireguardFile := fun _ _ => []
  openVpnFile := fun _ => []
  openConnectProfile := fun _ => []
  jsonLink := fun _ _ => []
  vpnDocuments := fun _ => none
  vpnUndecoded := id
  vpnEmpty := id
  schemeReport := fun line _ => line
  parseLink := fun _ line _ => [line]

/-- A link and its line break in two lines of at most twelve characters. -/
theorem encoded_contract_wrapped :
    parseDocument (oneEncoding "ss://a@b:1\n".toList "c3M6Ly9hQGI6MQo=".toList) " c3M6Ly9hQGI6\r\nMQo=\r\n".toList =
      parseDocument (oneEncoding "ss://a@b:1\n".toList "c3M6Ly9hQGI6MQo=".toList) "ss://a@b:1\n".toList := by
  have h64 : Base64 (oneEncoding "ss://a@b:1\n".toList "c3M6Ly9hQGI6MQo=".toList) "ss://a@b:1\n".toList "c3M6Ly9hQGI6MQo=".toList :=
    ⟨all_eq_true.mp (by decide), fun _ => by decide, by decide, fun _ h => if_pos h⟩
  have hwrap : Wrapped 12 "c3M6Ly9hQGI6MQo=".toList "c3M6Ly9hQGI6\r\nMQo=".toList := by
    have hlast : Wrapped 12 "MQo=".toList "MQo=".toList := Wrapped.last (by decide) (by decide)
    have hline : "c3M6Ly9hQGI6".toList.length = 12 := by decide
    exact Wrapped.crlf hline hlast
  exact (encoded_contract h64 (by decide) (by decide) (by decide) " ".toList "\r\n".toList
    (all_eq_true.mp (by decide)) (all_eq_true.mp (by decide)) 12 (by decide) (by decide) _ (.inr (.inr ⟨hwrap, by decide⟩))).1

end

end Waterdisco.Document
