import Waterdisco.Scan.IpListParse

/-!
# Header pairs as one text

    parseHeaderPairs (getHeadersString headers) = headers      (headers_contract)

Words end at blanks, at `=` and at a closing quote; only a quoted word may be empty.
-/

namespace Waterdisco.Headers

open List

abbrev Text := List Char

def formatted : List Text → List Text
  | name :: value :: rest => (name ++ '=' :: '"' :: (value ++ ['"'])) :: formatted rest
  | _ => []

def getHeadersString (headers : List Text) : Text :=
  if headers.length % 2 ≠ 0 then [] else [' '].intercalate (formatted headers)

/-- The words of what is left, in a quote or not, with one begun. -/
def words (inQuote : Bool) (curr : Text) : Text → List Text
  | [] => if curr = [] then [] else [curr]
  | ch :: rest =>
    if inQuote then
      if ch = '"' then curr :: words false [] rest else words true (curr ++ [ch]) rest
    else if ch = '"' then words true curr rest
    else if ch = ' ' ∨ ch = '=' then if curr = [] then words false [] rest else curr :: words false [] rest
    else words false (curr ++ [ch]) rest

def parseHeaderPairs (rawHeader : Text) : List Text :=
  let list := words false [] rawHeader
  if list.length % 2 ≠ 0 then [] else list

def names : List Text → List Text
  | name :: _ :: rest => name :: names rest
  | rest => rest

/-- `Checks::HeaderPairs`: empty, or what is wrong. -/
def HeaderPairs (text : Text) : String :=
  let t := Scan.trimmed text
  if t = [] then ""
  else if '|' ∈ t then "Must not contain \"|\", which separates headers in share links."
  else
    let pairs := parseHeaderPairs t
    if t.count '"' % 2 = 0 ∧ pairs ≠ [] ∧ ∀ name ∈ names pairs, Scan.trimmed name ≠ [] then ""
    else "Write Name=value pairs separated by spaces, quoting values that contain spaces, for example User-Agent=\"Mozilla/5.0\" X-Token=abc."

/-- Every quote opens where a value starts: no word is begun, and the last one is a name. -/
def quotesEncloseValues (inQuote begun value : Bool) : Text → Bool
  | [] => true
  | ch :: rest =>
    if inQuote then
      if ch = '"' then quotesEncloseValues false false (!value) rest else quotesEncloseValues true false value rest
    else if ch = '"' then !begun && value && quotesEncloseValues true false value rest
    else if ch = ' ' ∨ ch = '=' then quotesEncloseValues false false (value ^^ begun) rest
    else quotesEncloseValues false true value rest

/-! ## Pairs that come back -/

def Plain (w : Text) : Prop := ∀ c ∈ w, c ≠ '"' ∧ ¬ (c = ' ' ∨ c = '=')

/-- Names and values in turn, each fit to be written down. -/
def Fits : Bool → List Text → Prop
  | _, [] => True
  | false, name :: rest => (name ≠ [] ∧ Plain name) ∧ Fits true rest
  | true, value :: rest => '"' ∉ value ∧ Fits false rest

variable {curr rest : Text}

theorem words_plain {w : Text} (h : Plain w) : words false curr (w ++ rest) = words false (curr ++ w) rest := by
  induction w generalizing curr with
  | nil => rw [nil_append, append_nil]
  | cons c w ih =>
    obtain ⟨hquote, hsep⟩ := h c mem_cons_self
    rw [cons_append, words, if_neg Bool.false_ne_true, if_neg hquote, if_neg hsep,
      ih fun d hd => h d (mem_cons_of_mem _ hd), append_assoc]
    rfl

theorem words_quoted {v : Text} (h : '"' ∉ v) :
    words true curr (v ++ '"' :: rest) = (curr ++ v) :: words false [] rest := by
  induction v generalizing curr with
  | nil => simp [words]
  | cons c v ih =>
    rw [mem_cons, not_or] at h
    rw [cons_append, words, if_pos rfl, if_neg (Ne.symm h.1), ih h.2, append_assoc]
    rfl

theorem words_pair {name value : Text} (hne : name ≠ []) (hname : Plain name) (hvalue : '"' ∉ value) :
    words false [] (name ++ '=' :: '"' :: (value ++ ['"']) ++ rest) = name :: value :: words false [] rest := by
  have hopen : words false name ('=' :: '"' :: (value ++ '"' :: rest)) =
    name :: words true [] (value ++ '"' :: rest) := by
    simp [words, hne]
  rw [append_assoc, words_plain hname, nil_append, cons_append, cons_append, append_assoc, singleton_append, hopen,
    words_quoted hvalue, nil_append]

theorem words_formatted : ∀ {l : List Text}, Fits false l → l.length % 2 = 0 →
    words false [] ([' '].intercalate (formatted l)) = l
  | [], _, _ => rfl
  | [_], _, hlen => absurd hlen (by simp)
  | [name, value], ⟨⟨hne, hname⟩, hvalue, _⟩, _ => by
    have h := @words_pair [] _ _ hne hname hvalue
    simpa [formatted, intercalate, words] using h
  | name :: value :: name' :: rest, ⟨⟨hne, hname⟩, hvalue, hrest⟩, hlen => by
    obtain ⟨value', rest, rfl⟩ : ∃ value' rest', rest = value' :: rest' := by
      cases rest with
      | nil => simp at hlen
      | cons value' rest' => exact ⟨value', rest', rfl⟩
    have ih := words_formatted hrest (by simp only [length_cons] at hlen ⊢; omega)
    have hjoin : [' '].intercalate (formatted (name :: value :: name' :: value' :: rest)) =
        name ++ '=' :: '"' :: (value ++ ['"']) ++ ' ' :: [' '].intercalate (formatted (name' :: value' :: rest)) := by
      simp [formatted, intercalate]
    rw [hjoin, words_pair hne hname hvalue, words, if_neg Bool.false_ne_true, if_neg (by decide),
      if_pos (.inl rfl), if_pos rfl, ih]

/-- What the parser reads is fit to be written down. -/
theorem fits_words {text : Text} :
    ∀ {inQuote begun value curr}, quotesEncloseValues inQuote begun value text = true →
      (inQuote = true → value = true ∧ '"' ∉ curr) → (inQuote = false → begun = decide (curr ≠ []) ∧ Plain curr) →
      Fits value (words inQuote curr text) := by
  have hword {value : Bool} {curr : Text} {l : List Text} (hne : curr ≠ []) (hplain : Plain curr) (h : Fits (!value) l) :
      Fits value (curr :: l) := by
    cases value with
    | false => exact ⟨⟨hne, hplain⟩, h⟩
    | true => exact ⟨fun hmem => (hplain _ hmem).1 rfl, h⟩
  induction text with
  | nil =>
    intro inQuote begun value curr _ hin hout
    unfold words
    split
    · cases value <;> trivial
    · rename_i hne
      cases inQuote with
      | true =>
        obtain ⟨rfl, hquote⟩ := hin rfl
        exact ⟨hquote, trivial⟩
      | false => exact hword hne (hout rfl).2 (by cases value <;> trivial)
  | cons ch text ih =>
    intro inQuote begun value curr h hin hout
    unfold quotesEncloseValues at h
    unfold words
    cases inQuote with
    | true =>
      obtain ⟨rfl, hquote⟩ := hin rfl
      simp only [if_true] at h ⊢
      split at h
      · rename_i hch
        rw [if_pos hch]
        exact ⟨hquote, ih h (by simp) fun _ => ⟨rfl, by simp [Plain]⟩⟩
      · rename_i hch
        rw [if_neg hch]
        exact ih h (fun _ => ⟨rfl, by simpa [hquote] using Ne.symm hch⟩) (by simp)
    | false =>
      obtain ⟨rfl, hplain⟩ := hout rfl
      simp only [Bool.false_eq_true, if_false] at h ⊢
      split at h
      · rename_i hch
        rw [if_pos hch]
        simp only [Bool.and_eq_true, Bool.not_eq_true', decide_eq_false_iff_not, not_not] at h
        obtain ⟨⟨hnil, rfl⟩, h⟩ := h
        exact ih h (fun _ => ⟨rfl, by simp [hnil]⟩) (by simp)
      · rename_i hch
        rw [if_neg hch]
        split at h
        · rename_i hsep
          rw [if_pos hsep]
          by_cases hnil : curr = []
          · rw [if_pos hnil]
            exact ih (by simpa [hnil] using h) (by simp) fun _ => ⟨by simp, by simp [Plain]⟩
          · rw [if_neg hnil]
            refine hword hnil hplain (@ih _ false _ _ (by simpa [hnil] using h) (by simp) fun _ =>
              ⟨by simp, by simp [Plain]⟩)
        · rename_i hsep
          rw [if_neg hsep]
          refine ih h (by simp) fun _ => ⟨by simp, fun c hc => ?_⟩
          rcases mem_append.mp hc with hc | hc
          · exact hplain c hc
          · rw [mem_singleton.mp hc]
            exact ⟨hch, hsep⟩

theorem parseHeaderPairs_getHeadersString {l : List Text} (h : Fits false l) (hlen : l.length % 2 = 0) :
    parseHeaderPairs (getHeadersString l) = l := by
  have hodd : ¬ l.length % 2 ≠ 0 := not_not_intro hlen
  unfold getHeadersString parseHeaderPairs
  rw [if_neg hodd, words_formatted h hlen]
  exact if_neg hodd

/-- **Header pairs come back** from their text, and the text of a field from its pairs. -/
theorem headers_contract :
    (∀ headers : List (Text × Text), (∀ h ∈ headers, (h.1 ≠ [] ∧ ∀ c ∈ h.1, c ≠ ' ' ∧ c ≠ '=' ∧ c ≠ '"') ∧ '"' ∉ h.2) →
      parseHeaderPairs (getHeadersString (headers.flatMap fun h => [h.1, h.2])) = headers.flatMap fun h => [h.1, h.2]) ∧
    ∀ text : Text, HeaderPairs text = "" → quotesEncloseValues false false false text = true →
      (parseHeaderPairs text).length % 2 = 0 ∧
        parseHeaderPairs (getHeadersString (parseHeaderPairs text)) = parseHeaderPairs text := by
  constructor
  · intro headers hheaders
    have hfits : Fits false (headers.flatMap fun h => [h.1, h.2]) := by
      induction headers with
      | nil => trivial
      | cons h headers ih =>
        obtain ⟨⟨hne, hname⟩, hvalue⟩ := hheaders h mem_cons_self
        refine ⟨⟨hne, fun c hc => ⟨(hname c hc).2.2, ?_⟩⟩, hvalue, ih fun h' hh => hheaders h' (mem_cons_of_mem _ hh)⟩
        rintro (rfl | rfl)
        · exact (hname _ hc).1 rfl
        · exact (hname _ hc).2.1 rfl
    exact parseHeaderPairs_getHeadersString hfits (by simp)
  · intro text _ hquotes
    have hfits : Fits _ (words false [] text) := fits_words hquotes (by simp) fun _ => ⟨rfl, by simp [Plain]⟩
    by_cases hlen : (words false [] text).length % 2 = 0
    · have hparse : parseHeaderPairs text = words false [] text := if_neg (by simpa using hlen)
      rw [hparse]
      exact ⟨hlen, parseHeaderPairs_getHeadersString hfits hlen⟩
    · have hparse : parseHeaderPairs text = [] := if_pos hlen
      rw [hparse]
      exact ⟨rfl, rfl⟩

theorem headers_contract_agent :
    parseHeaderPairs (getHeadersString ["User-Agent".toList, "Mozilla 5.0".toList]) =
      ["User-Agent".toList, "Mozilla 5.0".toList] ∧
      parseHeaderPairs (getHeadersString (parseHeaderPairs "a=\"b c\" d=e".toList)) =
        ["a", "b c", "d", "e"].map String.toList :=
  ⟨headers_contract.1 [("User-Agent".toList, "Mozilla 5.0".toList)] (by simp),
    (headers_contract.2 "a=\"b c\" d=e".toList (by decide) (by decide)).2.trans (by decide)⟩

end Waterdisco.Headers
