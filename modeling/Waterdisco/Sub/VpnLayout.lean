import Mathlib.Data.Bool.AllAny
import Mathlib.Data.List.Forall2
import Waterdisco.Sub.VpnFile

/-!
# Written OpenVPN configurations

Arguments in double quotes, inline blocks, comments and blank lines, with either line ending, are read back as they were
written.  A comment may not end in a single backslash right before an item: the item would be the rest of the comment.

    vpnfiReadOvpnDirectives (the lines of the items) = the items      (directives_contract)
-/

namespace Waterdisco.Ovpn

open List

/-! ## Writing -/

def escaped (arg : List Char) : List Char := arg.flatMap fun c => if c = '"' ∨ c = '\\' then ['\\', c] else [c]

def argsLine : List String → List Char
  | [] => []
  | [arg] => '"' :: escaped arg.toList ++ ['"']
  | arg :: arg' :: args => '"' :: escaped arg.toList ++ '"' :: ' ' :: argsLine (arg' :: args)

/-- The lines of an item. -/
def Directive.written (item : Directive) : List (List Char) :=
  if item.inlineTag = "" then [argsLine item.args]
  else ('<' :: item.inlineTag.toList ++ ['>']) :: item.inlineBody.map String.toList ++
    [closingLine item.inlineTag.toList]

abbrev OneLine (text : List Char) : Prop := ∀ c ∈ text, c ≠ '\n' ∧ c ≠ '\r'

/-- Arguments on a line, or a block whose tag is a word. -/
inductive Proper : Directive → Prop where
  | args {args} : args ≠ [] → (∀ arg ∈ args, OneLine arg.toList) → Proper { args := args }
  | block {tag body} : tag ≠ "" → (∀ c ∈ tag.toList, Scan.isSpace c = false) → tag.toList.head? ≠ some '/' →
    (∀ line ∈ body, Scan.trimmed line.toList = line.toList ∧ OneLine line.toList ∧
      line.toList ≠ closingLine tag.toList) →
    body.head? ≠ some "" → body.getLast? ≠ some "" → Proper { inlineTag := tag, inlineBody := body }

/-- A blank line, or a comment. -/
def Noise (line : List Char) : Prop := '\n' ∉ line ∧ ∀ c ∈ (cleaned line).head?, c = '#' ∨ c = ';'

def Ends (line raw : List Char) : Prop := raw = line ∨ raw = line ++ ['\r']

/-- The lines of items with blank lines and comments in between; whether an item comes first. -/
inductive Laid : Bool → List Directive → List (List Char) → Prop where
  | nil : Laid false [] []
  | noise {first items lines line} : Noise line → (goesOn (cleaned line) = true → first = false) →
    Laid first items lines → Laid false items (line :: lines)
  | item {first items lines raws} {item : Directive} : Proper item → Forall₂ Ends item.written raws →
    Laid first items lines → Laid true (item :: items) (raws ++ lines)

/-! ## Arguments -/

theorem tokenizeFrom_quote (inToken : Bool) (token rest : List Char) :
    tokenizeFrom (some '"') inToken token ('"' :: rest) = tokenizeFrom none inToken token rest := by
  rw [tokenizeFrom.eq_def]
  simp

theorem tokenizeFrom_escaped (token arg rest : List Char) :
    tokenizeFrom (some '"') true token (escaped arg ++ '"' :: rest) = tokenizeFrom none true (token ++ arg) rest := by
  induction arg generalizing token with
  | nil => rw [append_nil]; exact tokenizeFrom_quote true token rest
  | cons c arg ih =>
    have hcons : escaped (c :: arg) ++ '"' :: rest =
        (if c = '"' ∨ c = '\\' then ['\\', c] else [c]) ++ (escaped arg ++ '"' :: rest) := by
      simp [escaped]
    obtain ⟨next, more, hmore⟩ := exists_cons_of_ne_nil (l := escaped arg ++ '"' :: rest) (by simp)
    rw [hcons, show token ++ c :: arg = token ++ [c] ++ arg by simp, ← ih]
    by_cases hspecial : c = '"' ∨ c = '\\'
    · rw [if_pos hspecial, tokenizeFrom.eq_def]
      simp [hspecial]
    · rw [if_neg hspecial, tokenizeFrom.eq_def]
      rw [not_or] at hspecial
      simp [hmore, hspecial]

theorem vpnfiTokenize_argsLine (args : List String) : vpnfiTokenize (argsLine args) = args := by
  have hopen (arg : String) (rest : List Char) :
      tokenizeFrom none false [] ('"' :: escaped arg.toList ++ '"' :: rest) =
        tokenizeFrom none true arg.toList rest := by
    rw [cons_append, tokenizeFrom.eq_def]
    simpa [Scan.isSpace] using tokenizeFrom_escaped [] arg.toList rest
  fun_induction argsLine args with
  | case1 => rfl
  | case2 arg =>
    rw [vpnfiTokenize, hopen]
    simp [tokenizeFrom]
  | case3 arg arg' args ih =>
    rw [vpnfiTokenize, hopen, tokenizeFrom.eq_def]
    simpa [Scan.isSpace, vpnfiTokenize] using ih

/-! ## Lines -/

variable {c : Char} {line raw tag : List Char} {lines raws rest : List (List Char)} {args : List String} {item : Directive}

theorem cleaned_ends (h : Ends line raw) (hline : OneLine line) (htrim : Scan.trimmed line = line) :
    cleaned raw = line := by
  have hfilter : line.filter (fun c => c ≠ '\r') = line := filter_eq_self.mpr fun c hc => by simpa using (hline c hc).2
  unfold cleaned
  rcases h with rfl | rfl
  · rw [hfilter, htrim]
  · rw [filter_append, hfilter]
    simpa using htrim

theorem opensBlock_of_head (h : c ≠ '<') : opensBlock (c :: line) = false := by
  simp [opensBlock, h]

theorem argsLine_ends (h : args ≠ []) : ∃ middle, argsLine args = '"' :: (middle ++ ['"']) := by
  fun_induction argsLine args with
  | case1 => exact absurd rfl h
  | case2 arg => exact ⟨escaped arg.toList, rfl⟩
  | case3 arg arg' args ih =>
    obtain ⟨middle, hmiddle⟩ := ih (cons_ne_nil _ _)
    exact ⟨escaped arg.toList ++ '"' :: ' ' :: '"' :: middle, by simp [hmiddle]⟩

theorem mem_argsLine (h : c ∈ argsLine args) :
    c ∈ ['"', ' ', '\\'] ∨ ∃ arg ∈ args, c ∈ arg.toList := by
  have hescaped (arg : List Char) (h : c ∈ escaped arg) : c = '\\' ∨ c ∈ arg := by
    obtain ⟨d, hd, hc⟩ := mem_flatMap.mp h
    split at hc <;> simp at hc <;> grind
  fun_induction argsLine args with
  | case1 => cases h
  | case2 arg => grind
  | case3 arg arg' args ih => grind

theorem oneLine_argsLine (h : ∀ arg ∈ args, OneLine arg.toList) : OneLine (argsLine args) := by
  intro c hc
  obtain hc | ⟨arg, harg, hc⟩ := mem_argsLine hc
  · exact (by simp [OneLine] : OneLine ['"', ' ', '\\']) c hc
  · exact h arg harg c hc

theorem readLines_args (hne : args ≠ []) (hargs : ∀ arg ∈ args, OneLine arg.toList) (hraw : Ends (argsLine args) raw) :
    readLines none [] (raw :: lines) = { args := args } :: readLines none [] lines := by
  obtain ⟨middle, hends⟩ := argsLine_ends hne
  have hlast : (argsLine args).getLast? = some '"' := by rw [hends, ← cons_append, getLast?_concat]
  have htrim : Scan.trimmed (argsLine args) = argsLine args := by
    refine Scan.trimmed_of_ends ?_ ?_
    · rw [hends]
      rintro c ⟨⟩
      decide
    · rw [hlast]
      rintro c ⟨⟩
      decide
  rw [readLines, cleaned_ends hraw (oneLine_argsLine hargs) htrim]
  have hgoes : goesOn (argsLine args) = false := by
    rw [goesOn, hlast]
    rfl
  have hblock : opensBlock (argsLine args) = false := by
    rw [hends]
    exact opensBlock_of_head (by decide)
  simp [hgoes, hblock, lineDirective, vpnfiTokenize_argsLine, hne]

/-! ## Blocks -/

theorem readLines_block {acc body : List (List Char)}
    (hbody : ∀ line ∈ body, Scan.trimmed line = line ∧ OneLine line ∧ line ≠ closingLine tag)
    (hclosing : Scan.trimmed (closingLine tag) = closingLine tag ∧ OneLine (closingLine tag))
    (hraws : Forall₂ Ends (body ++ [closingLine tag]) raws) :
    readLines (some (tag, acc)) [] (raws ++ rest) = blockDirective tag (acc ++ body) :: readLines none [] rest := by
  induction body generalizing acc raws with
  | nil =>
    obtain ⟨raw, raws, hraw, hnil, rfl⟩ := forall₂_cons_left_iff.mp hraws
    obtain rfl := forall₂_nil_left_iff.mp hnil
    rw [cons_append, readLines]
    simp only [cleaned_ends hraw hclosing.2 hclosing.1, if_true, nil_append, append_nil]
  | cons line body ih =>
    obtain ⟨raw, raws, hraw, hmore, rfl⟩ := forall₂_cons_left_iff.mp hraws
    obtain ⟨htrim, hline, hne⟩ := hbody line mem_cons_self
    rw [cons_append, readLines]
    simp only [cleaned_ends hraw hline htrim, hne, if_false]
    rw [ih (fun l hl => hbody l (mem_cons_of_mem _ hl)) hmore, append_assoc]
    rfl

theorem blockBody_map {body : List String} (hhead : body.head? ≠ some "") (hlast : body.getLast? ≠ some "") :
    blockBody (body.map String.toList) = body := by
  have hdrop (l : List String) (h : l.head? ≠ some "") :
      (l.map String.toList).dropWhile isEmpty = l.map String.toList := by
    cases l with
    | nil => rfl
    | cons line l =>
      have hline : line.toList.isEmpty = false := by simpa using h
      rw [map_cons, dropWhile_cons_of_neg (by simp [hline])]
  have hreverse := hdrop body.reverse (by simpa using hlast)
  rw [map_reverse] at hreverse
  simp [blockBody, hdrop body hhead, hreverse, Function.comp_def]

theorem Proper.oneLine (h : Proper item) (hline : line ∈ item.written) : OneLine line := by
  cases h with
  | @args args _ hargs =>
    rw [Directive.written, if_pos rfl] at hline
    exact mem_singleton.mp hline ▸ oneLine_argsLine hargs
  | @block tag body hne hword _ hbody =>
    have hone (front : List Char) (hfront : OneLine front) : OneLine (front ++ tag.toList ++ ['>']) := by
      intro c hc
      rcases mem_append.mp hc with hc | hc
      · rcases mem_append.mp hc with hc | hc
        · exact hfront c hc
        · have hspace := hword c hc
          constructor <;> (rintro rfl; exact absurd hspace (by decide))
      · rw [mem_singleton.mp hc]
        decide
    rw [Directive.written, if_neg hne, mem_append, mem_cons, mem_singleton] at hline
    rcases hline with (rfl | hline) | rfl
    · exact hone ['<'] (by simp [OneLine])
    · obtain ⟨text, htext, rfl⟩ := mem_map.mp hline
      exact (hbody text htext).2.1
    · exact hone "</".toList (all_iff_forall_prop.mp (by decide))

theorem readLines_item (h : Proper item) (hraws : Forall₂ Ends item.written raws) :
    readLines none [] (raws ++ lines) = item :: readLines none [] lines := by
  have hone : ∀ l ∈ item.written, OneLine l := fun _ => h.oneLine
  cases h with
  | @args args hne hargs =>
    rw [Directive.written, if_pos rfl] at hraws
    obtain ⟨raw, raws, hraw, hnil, rfl⟩ := forall₂_cons_left_iff.mp hraws
    obtain rfl := forall₂_nil_left_iff.mp hnil
    exact readLines_args hne hargs hraw
  | @block tag body hne hword hslash hbody hhead hlast =>
    have hwritten : Directive.written { inlineTag := tag, inlineBody := body } =
        ('<' :: tag.toList ++ ['>']) :: (body.map String.toList ++ [closingLine tag.toList]) := if_neg hne
    rw [hwritten] at hraws
    obtain ⟨raw, raws, hraw, hmore, rfl⟩ := forall₂_cons_left_iff.mp hraws
    obtain ⟨first, more, htag⟩ := exists_cons_of_ne_nil (l := tag.toList) (by simpa using hne)
    have hbracket (front : List Char) (hfront : front.head? = some '<') :
        Scan.trimmed (front ++ tag.toList ++ ['>']) = front ++ tag.toList ++ ['>'] := by
      refine Scan.trimmed_of_ends (fun c hc => ?_) (fun c hc => ?_)
      · cases front with
        | nil => cases hfront
        | cons d front =>
          cases hfront
          cases hc
          decide
      · rw [getLast?_concat] at hc
        cases hc
        decide
    have hopens : opensBlock ('<' :: tag.toList ++ ['>']) = true := by
      rw [htag] at hslash ⊢
      simp only [head?_cons, ne_eq, Option.some.injEq] at hslash
      have hend : ('<' :: first :: more ++ ['>']).getLast? = some '>' := getLast?_concat
      unfold opensBlock
      rw [hend]
      simp [isPrefixOf, Ne.symm hslash]
    have htagOf : blockTag ('<' :: tag.toList ++ ['>']) = tag.toList := by
      rw [blockTag, cons_append, tail_cons, dropLast_concat, Scan.trimmed_of_no_space hword]
    rw [cons_append, readLines]
    rw [cleaned_ends hraw (hone _ (hwritten ▸ mem_cons_self)) (hbracket ['<'] rfl), htagOf]
    simp only [hopens, true_and, if_true]
    rw [readLines_block (fun line hline => ?_) ⟨hbracket "</".toList rfl,
      hone _ (hwritten ▸ mem_cons_of_mem _ (by simp))⟩ hmore]
    · rw [nil_append, blockDirective, blockBody_map hhead hlast, String.ofList_toList]
    · obtain ⟨text, htext, rfl⟩ := mem_map.mp hline
      exact hbody text htext

/-! ## Whole texts -/

/-- The start of a comment. -/
def Comment (text : List Char) : Prop := ∃ c rest, text = c :: rest ∧ (c = '#' ∨ c = ';')

theorem Comment.append {text : List Char} (h : Comment text) (more : List Char) : Comment (text ++ more) := by
  obtain ⟨c, rest, rfl, hc⟩ := h
  exact ⟨c, rest ++ more, rfl, hc⟩

theorem Comment.lineDirective {text : List Char} (h : Comment text) : lineDirective text = [] := by
  obtain ⟨c, rest, rfl, hc⟩ := h
  have hnone : vpnfiTokenize (c :: rest) = [] := by
    rw [vpnfiTokenize, tokenizeFrom.eq_def]
    rcases hc with rfl | rfl <;> simp [Scan.isSpace]
  rw [Ovpn.lineDirective, if_pos hnone]

/-- A comment that goes on is joined with what follows, and what it is joined with is never an item. -/
theorem readLines_laid {first : Bool} {items : List Directive} (h : Laid first items lines) :
    ∀ pending, pending = [] ∨ first = false ∧ Comment pending → readLines none pending lines = items := by
  induction h with
  | nil =>
    rintro pending (rfl | ⟨-, hpending⟩)
    · rfl
    · rw [readLines, hpending.lineDirective, ite_self]
  | @noise first items lines line hline hgoes _ ih =>
    intro pending hpending
    have hblock : opensBlock (cleaned line) = false := by
      cases hclean : cleaned line with
      | nil => rfl
      | cons c rest =>
        exact opensBlock_of_head (by rcases hline.2 c (by rw [hclean]; rfl) with rfl | rfl <;> decide)
    have hcomment (hne : cleaned line ≠ []) : Comment (cleaned line) := by
      obtain ⟨c, rest, hclean⟩ := exists_cons_of_ne_nil hne
      exact ⟨c, rest, hclean, hline.2 c (by rw [hclean]; rfl)⟩
    have hstart (hgoes : goesOn (cleaned line) = true) : Comment (cleaned line).dropLast := by
      obtain ⟨c, rest, hclean, hc⟩ := hcomment (by rintro hnil; rw [hnil] at hgoes; cases hgoes)
      rw [hclean] at hgoes ⊢
      cases rest with
      | nil => rcases hc with rfl | rfl <;> cases hgoes
      | cons d rest => exact ⟨c, _, rfl, hc⟩
    rw [readLines]
    simp only [hblock, Bool.false_eq_true, and_false, if_false]
    split
    · rename_i hcontinues
      refine ih _ (.inr ⟨hgoes hcontinues, ?_⟩)
      rcases hpending with rfl | ⟨-, hpending⟩
      · exact (hstart hcontinues).append _
      · rw [append_assoc]
        exact hpending.append _
    · have hlineDirective : lineDirective (pending ++ cleaned line) = [] := by
        rcases hpending with rfl | ⟨-, hpending⟩
        · by_cases hne : cleaned line = []
          · rw [hne]
            rfl
          · exact (hcomment hne).lineDirective
        · exact (hpending.append _).lineDirective
      rw [hlineDirective]
      exact ih [] (.inl rfl)
  | item hitem hraws _ ih =>
    rintro pending (rfl | ⟨hfalse, -⟩)
    · rw [readLines_item hitem hraws, ih [] (.inl rfl)]
    · cases hfalse

theorem ends_notMem {written : List (List Char)} (h : Forall₂ Ends written raws)
    (hwritten : ∀ line ∈ written, OneLine line) : ∀ raw ∈ raws, '\n' ∉ raw := by
  induction h with
  | nil => exact fun _ hraw => absurd hraw not_mem_nil
  | @cons line raw _ _ hends _ ih =>
    have hline := hwritten line mem_cons_self
    refine forall_mem_cons.mpr ⟨fun hbreak => ?_, ih fun l hl => hwritten l (mem_cons_of_mem _ hl)⟩
    rcases hends with rfl | rfl
    · exact (hline _ hbreak).1 rfl
    · exact (hline '\n' (by simpa using hbreak)).1 rfl

/-- **Written items are read back.** -/
theorem directives_contract {first : Bool} {items : List Directive} (h : Laid first items lines) :
    vpnfiReadOvpnDirectives (['\n'].intercalate lines) = items := by
  have hread := readLines_laid h [] (.inl rfl)
  by_cases hnil : lines = []
  · rw [hnil] at hread ⊢
    exact hread
  · have hbreaks : ∀ line ∈ lines, '\n' ∉ line := by
      clear hread hnil
      induction h with
      | nil => simp
      | noise hline _ _ ih => exact forall_mem_cons.mpr ⟨hline.1, ih⟩
      | @item first items lines raws item hitem hraws _ ih =>
        exact forall_mem_append.mpr ⟨ends_notMem hraws fun _ => hitem.oneLine, ih⟩
    rw [vpnfiReadOvpnDirectives, splitLines, splitOn_intercalate '\n' hbreaks hnil]
    exact hread

theorem remark_read :
    vpnfiReadOvpnDirectives (['\n'].intercalate ["; \\\\".toList,
      argsLine ["remote", "a \"b\\"] ++ ['\r'], "<ca>".toList,
        "PEM".toList, "</ca>".toList]) =
      [{ args := ["remote", "a \"b\\"] }, { inlineTag := "ca", inlineBody := ["PEM"] }] :=
  have hblock : Laid true [{ inlineTag := "ca", inlineBody := ["PEM"] }] (["<ca>".toList,
    "PEM".toList, "</ca>".toList] ++ []) :=
    .item (.block (by decide) (by simp [Scan.isSpace]) (by decide) (by simp [OneLine, closingLine]; decide)
        (by decide) (by decide))
      (.cons (.inl rfl) (.cons (.inl rfl) (.cons (.inl rfl) .nil))) .nil
  directives_contract (.noise ⟨by decide, fun c hc => by cases hc; decide⟩ (by decide)
    (@Laid.item _ _ _ [_] _ (.args (by simp) (by simp [OneLine])) (.cons (.inr rfl) .nil) hblock))

/-- A comment that ends in a backslash takes the item behind it. -/
theorem comment_takes_item : vpnfiReadOvpnDirectives "# keep \\\n\"dev\" \"tun\"".toList = [] := by decide +kernel

end Waterdisco.Ovpn
