import CssGuard.Proofs.Sheet.Renewal

/-!
# Characters of a sanitized sheet

Outside of strings and URLs, everything in the values, selectors and media queries of a
sanitized sheet is a name, a number or a known mark. A character that is in none of these
gets into a sheet through a string or a URL only, or as a brace around a block.

- `IsUnwritten`: the characters that are in no name, no number and no mark
- `IsUnwritten.not_mem_emitted`: values made of tokens without such a character
- `IsUnwritten.not_mem_query`: media queries
- `Atom.cases_text`: a token of a value, if it is no string and no URL
-/

namespace CssGuard

open Text Escape
open scoped Text.ByCharacter

/-- The marks of values and media queries, besides those that selectors have, too. -/
def valueMarks : List Char :=
  ['\n', '!', '%', '(', ')', ',', '-', '/', ';', '@']

/-- The character is no name character and no mark. -/
structure IsUnwritten (x : Char) : Prop extends IsUnnamed x where
  not_value : x ∉ valueMarks

theorem isNameChar_of_isDigit {c : Char} (h : isDigit c) : isNameChar c := by
  rcases ascii_or_foreign c with hascii | hforeign
  · exact forall_ascii (fun c => isDigit c → isNameChar c) (by decide) hascii h
  · exact isNameChar_of_isForeign hforeign

theorem isNameChar_of_isSmall {c : Char} (h : isSmall c) : isNameChar c :=
  isNameChar_of_isPlainNameChar (isPlainNameChar_of_isLetter (isLetter_of_isSmall h))

namespace IsUnwritten

variable {x : Char} (hx : IsUnwritten x)
include hx

/-! ## Names and numbers -/

theorem ne {c : Char} (h : isNameChar c ∨ c ∈ selectorMarks ∨ c ∈ valueMarks) :
    x ≠ c := by
  rintro rfl
  exact h.elim hx.not_name fun h => h.elim hx.not_mark hx.not_value

theorem not_mem_of_all {p : Char → Bool} (hp : ∀ c, p c → isNameChar c) {t : Text}
    (ht : t.all p) : x ∉ t :=
  fun hmem => hx.not_name (hp x (List.all_eq_true.mp ht x hmem))

theorem not_mem_bareName {n : Text} (h : IsBareName n) : x ∉ n :=
  fun hmem => hx.not_name (h.all x hmem)

theorem not_mem_numeral {t : Text} (h : IsNumeral t) : x ∉ t := by
  have hmark : ∀ c ∈ numberMarks, isNameChar c ∨ c ∈ selectorMarks ∨ c ∈ valueMarks := by
    decide
  refine h.not_mem (fun hdecimal => ?_) (fun hmem => hx.ne (hmark x hmem) rfl)
    (hx.ne (by decide)) (mt isNameChar_of_isSmall hx.not_name)
  exact hx.not_name (isNameChar_of_isDigit (isDigit_of_isDecimal hdecimal))

theorem not_mem_maybeLine {t q : Text} (h : IsMaybeLine t q) (ht : x ∉ t) : x ∉ q := by
  rcases h with rfl | rfl
  · exact ht
  · simp [ht, hx.ne (c := '\n') (by decide)]

/-- The texts of a line have the characters of what stands on it, and a newline. -/
theorem not_mem_of_isLineOf {accepts : Text → Bool} (h : ∀ t, accepts t → x ∉ t)
    {t : Text} (ht : isLineOf accepts t) : x ∉ t := by
  rcases cases_of_isLineOf ht with hline | ⟨t', rfl, hline⟩
  · exact h t hline
  · simp [h t' hline, hx.ne (c := '\n') (by decide)]

theorem not_mem_idSuffix (c : Confinement) : x ∉ c.idSuffix := by
  refine hx.not_mem_of_isLineOf (fun t ht => hx.not_mem_of_all (fun d hd => ?_) ht)
    c.idSuffix_valid
  rcases Bool.or_eq_true_iff.mp hd with hword | hhyphen
  · exact isNameChar_of_isWordChar hword
  · rw [of_decide_eq_true hhyphen]
    decide

theorem not_mem_start (c : Confinement) : x ∉ c.start := by
  have hvalid := c.containerClass_valid
  unfold Confinement.start
  split
  · exact List.not_mem_nil
  · rename_i name hname
    rw [hname] at hvalid
    have hclass : x ∉ name := hx.not_mem_of_isLineOf (fun _ => hx.not_mem_ident) hvalid
    simp [hclass, hx.ne (c := '.') (by decide), hx.ne (c := ' ') (by decide)]

/-! ## Values -/

theorem not_mem_plainKeyword {t : Text} (h : isPlainKeyword t) : x ∉ t := by
  rcases Bool.or_eq_true_iff.mp h with hident | hsign
  · exact hx.not_mem_ident hident
  · obtain ⟨c, hc, heq⟩ := List.any_eq_true.mp hsign
    rw [of_decide_eq_true heq, List.mem_singleton]
    exact hx.ne
      ((by decide : ∀ c ∈ valueSigns, isNameChar c ∨ c ∈ selectorMarks ∨ c ∈ valueMarks) c
        hc)

/-- The scraps of a call are the name of a permitted function, what is between the
parentheses, and the parentheses. -/
theorem not_mem_call {e : Entry} (he : e.IsPlain) {n : Text}
    (hn : withoutVendor n ∈ e.functionNames) {inner : List Scrap}
    (hinner : ∀ a ∈ inner, x ∉ a.text) :
    ∀ a ∈ .plain (n ++ ['(']) :: inner ++ [.plain Token.closeParen], x ∉ a.text := by
  have hopener : x ∉ n ++ ['('] := by
    simp [hx.not_mem_ident (isPlainIdent_function he hn).1, hx.ne (c := '(') (by decide)]
  have hcloser : x ∉ [')'] := by
    simp [hx.ne (c := ')') (by decide)]
  exact List.forall_mem_append.mpr
    ⟨List.forall_mem_cons.mpr ⟨hopener, hinner⟩, List.forall_mem_singleton.mpr hcloser⟩

/-- Where no entry that a value gets to lets the character in, it is not in the value. The
induction is on the origins of the value. -/
theorem not_mem_emitted {ctx : ValueContext} (hctx : ctx.IsPlain) {G : Text → Prop}
    {K : Entry → Prop}
    (hK : ∀ {e f : Entry} {name : Text}, K e → ctx.schema.function? e name = some f → K f)
    (hatom : ∀ {e : Entry} {a : Scrap}, K e → e.IsPlain →
      Atom ctx Shape G e a → x ∉ a.text)
    {levels : Nat} {e : Entry} {ts : List Token} {scraps : List Scrap} (hk : K e)
    (he : e.IsPlain) (h : Emitted ctx Shape G levels e ts scraps) :
    ∀ a ∈ scraps, x ∉ a.text := by
  induction h with
  | nil => exact fun a ha => absurd ha List.not_mem_nil
  | atom ha _ ih => exact List.forall_mem_cons.mpr ⟨hatom hk he ha, ih hk he⟩
  | call _ _ _ hfunction _ _ _ ihinner ih =>
    obtain ⟨hn, hf⟩ := Schema.mem_of_function? hfunction
    have hcall := hx.not_mem_call he hn (ihinner (hK hk hfunction) (hctx.entries _ hf))
    rw [List.append_cons]
    exact List.forall_mem_append.mpr ⟨hcall, ih hk he⟩

theorem not_mem_importance (important : Bool) :
    ∀ a ∈ importance important, x ∉ a.text := by
  cases important with
  | false => exact fun a ha => absurd ha List.not_mem_nil
  | true =>
    have hmark : ∀ c ∈ importantMark, isNameChar c ∨ c ∈ selectorMarks ∨
      c ∈ valueMarks := by decide
    exact List.forall_mem_singleton.mpr fun hmem => hx.ne (hmark x hmem) rfl

/-! ## Media queries -/

theorem not_mem_mediaKeyword {t : Text} (h : isMediaKeyword.keyword t) : x ∉ t := by
  unfold isMediaKeyword.keyword at h
  split at h
  · rename_i c rest
    obtain ⟨hc, hrest⟩ := Bool.and_eq_true_iff.mp h
    have hname : ∀ d, (isSmall d || d = '-') → isNameChar d := by
      intro d hd
      rcases Bool.or_eq_true_iff.mp hd with hsmall | hhyphen
      · exact isNameChar_of_isSmall hsmall
      · rw [of_decide_eq_true hhyphen]
        decide
    exact List.not_mem_cons_of_ne_of_not_mem (hx.ne (.inl (isNameChar_of_isSmall hc)))
      (hx.not_mem_of_all hname hrest)
  · cases h

theorem not_mem_mediaValue? {words : List Text} {text : Text}
    (h : mediaValue? words = some text) : x ∉ text := by
  rcases mediaValue?_cases h with
    ⟨-, hnumber | hkeyword⟩ | ⟨high, low, -, hhigh, hlow, rfl⟩
  · obtain ⟨t, ⟨ht, -⟩, hline⟩ := isNumeral_of_isMediaNumber hnumber
    exact hx.not_mem_maybeLine hline (hx.not_mem_numeral ht)
  · exact hx.not_mem_of_isLineOf (fun _ => hx.not_mem_mediaKeyword) hkeyword
  · have hhigh :=
      hx.not_mem_of_all (fun _ => isNameChar_of_isDigit) (Bool.and_eq_true_iff.mp hhigh).2
    have hlow :=
      hx.not_mem_of_all (fun _ => isNameChar_of_isDigit) (Bool.and_eq_true_iff.mp hlow).2
    simp [hhigh, hlow, hx.ne (c := '/') (by decide)]

theorem not_mem_mediaFeature? {words : List Text} {text : Text}
    (h : mediaFeature? words = some text) : x ∉ text := by
  have hname : ∀ feature ∈ mediaFeatures, x ∉ feature := fun _ hfeature =>
    hx.not_mem_ident (isPlainIdent_of_mem_mediaFeatures _ hfeature)
  rcases mediaFeature?_cases h with
    ⟨-, hfeature⟩ | ⟨feature, value, valueText, -, hfeature, hvalue, rfl⟩
  · exact hname _ hfeature
  · simp [hname _ hfeature, hx.not_mem_mediaValue? hvalue, hx.ne (c := ':') (by decide)]

theorem not_mem_mediaConditions? {words conditions : List Text}
    (h : mediaConditions? words = some conditions) : ∀ t ∈ conditions, x ∉ t := by
  fun_induction mediaConditions? words generalizing conditions with
  | case1 =>
    cases h
    exact fun t ht => absurd ht List.not_mem_nil
  | case3 rest _ after _ _ ih =>
    obtain ⟨feature, hfeature, hmore⟩ := Option.bind_eq_some_iff.mp h
    obtain ⟨more, hconditions, rfl⟩ := Option.map_eq_some_iff.mp hmore
    have hfirst : x ∉ '(' :: feature ++ [')'] := by
      simp [hx.not_mem_mediaFeature? hfeature, hx.ne (c := '(') (by decide),
        hx.ne (c := ')') (by decide)]
    exact List.forall_mem_cons.mpr ⟨hfirst, ih hconditions⟩
  | case2 | case4 | case5 => cases h

theorem not_mem_mediaBody? {words : List Text} {text : Text}
    (h : mediaBody? mediaTypes words = some text) : x ∉ text := by
  obtain ⟨medium, rest, conditions, -, hmedium, hconditions, rfl⟩ := mediaBody?_cases h
  rw [List.mem_append, conditionsText, List.mem_flatMap]
  rintro (hmem | ⟨condition, hcondition, hmem⟩)
  · exact hx.not_mem_ident (isPlainIdent_of_mem_mediaTypes _ hmedium) hmem
  · rcases List.mem_append.mp hmem with hmem | hmem
    · have hword : ∀ c ∈ " and ".toList, isNameChar c ∨ c ∈ selectorMarks ∨
          c ∈ valueMarks := by
        decide
      exact hx.ne (hword x hmem) rfl
    · exact hx.not_mem_mediaConditions? hconditions condition hcondition hmem

theorem not_mem_mediaQuery? {words : List Text} {text : Text}
    (h : mediaQuery? mediaTypes words = some text) : x ∉ text := by
  rcases mediaQuery?_cases h with ⟨mark, rest, body, -, hmark, hbody, rfl⟩ |
    ⟨-, -, -, -, hbody⟩
  · have hword : x ∉ mark := by
      rcases hmark with rfl | rfl <;> exact hx.not_mem_ident (by decide)
    simp [hword, hx.not_mem_mediaBody? hbody, hx.ne (c := ' ') (by decide)]
  · exact hx.not_mem_mediaBody? hbody

theorem not_mem_query {text : Text} {ts : List Token} (h : IsQuery text ts) :
    x ∉ text := by
  intro hmem
  have hnewline : x ≠ '\n' := hx.ne (by decide)
  exact hx.not_mem_mediaQuery? h.renews (List.mem_filter.mpr ⟨hmem,
    by simpa using hnewline⟩)

end IsUnwritten

/-! ## Tokens of a value -/

/-- What is left of a token under an entry: a string, a URL, or
something without such characters. -/
theorem Atom.cases_text {ctx : ValueContext} (hctx : ctx.IsPlain)
    {G : Text → Prop} {e : Entry} (he : e.IsPlain) {a : Scrap}
    (h : Atom ctx Shape G e a) :
    (∀ x, IsUnwritten x → x ∉ a.text) ∨ (e.allows .quotedString ∧
      ∃ s, a = .plain (quote s)) ∨
      e.allows .url ∧ ∃ uri, G uri ∧ a = .url (Url.escape uri) := by
  cases h with
  | @keyword raw hraw hform =>
    refine .inl fun x hx => ?_
    show x ∉ lower raw
    rcases Form.says_of_eq hform with hinherit | hliteral
    · rw [hinherit]
      exact hx.not_mem_ident (by decide)
    · have hplain := hx.not_mem_plainKeyword (he.literals _ hliteral)
      -- a keyword of the entry, maybe with the mark of a vendor in front of it
      rcases withoutVendor_cases (lower raw) with heq | ⟨mark, hmark, heq⟩
      · rwa [heq] at hplain
      · have hident := isPlainIdent_vendor hmark fun c (hc : c ∈ []) =>
          absurd hc List.not_mem_nil
        rw [List.append_nil] at hident
        rw [heq, List.mem_append]
        exact not_or.mpr ⟨hx.not_mem_ident hident, hplain⟩
  | @color raw hraw hform =>
    refine .inl fun x hx => ?_
    obtain ⟨digits, heq, -, hall⟩ := hraw.exists_of_isHashColor (Form.says_of_eq hform)
    have hdigits : x ∉ digits := fun hmem =>
      hx.not_name (isNameChar_of_isSmallNameChar (isSmallNameChar_of_isSmallHexDigit
        (hall x hmem)))
    show x ∉ lower raw
    simp [heq, hdigits, hx.ne (c := '#') (by decide)]
  | quantity hraw hform hnormal =>
    refine .inl fun x hx => ?_
    obtain ⟨t, ht, hline⟩ := isNumeral_of_normalQuantity? hnormal
    rw [Scrap.text_ofText]
    exact hx.not_mem_maybeLine hline (hx.not_mem_numeral ht)
  | name hraw hform hentry hsuffix =>
    refine .inl fun x hx => ?_
    have hname := hraw.isBareName (Form.says_of_eq hform).2
    obtain ⟨n, hn, hline⟩ := exists_name_suffix hname (hctx.suffix _ hsuffix)
    rw [Scrap.text_ofText]
    exact hx.not_mem_maybeLine hline (hx.not_mem_bareName hn)
  | property hraw hform hentry hglobal hfind =>
    refine .inl fun x hx hmem => ?_
    obtain ⟨-, hall⟩ := hraw.exists_of_isName (Form.says_of_eq hform).2
    exact hx.not_name (isNameChar_of_isSmallNameChar (hall x hmem))
  | string hraw hform hurl hentry =>
    exact .inr (.inl ⟨(Bool.and_eq_true_iff.mp hentry).1, _, rfl⟩)
  | @words ws hws hne =>
    obtain ⟨raw, hraw⟩ := List.exists_mem_of_ne_nil ws hne
    have hwords := (Form.says_of_eq (hws raw hraw).2).1
    rw [(quoteWords_eq (chars_of_words (fun _ h => h) hws)).1]
    exact .inr (.inl ⟨(Bool.and_eq_true_iff.mp hwords).2, _, rfl⟩)
  | @url uri hgrant hentry hpolicy => exact .inr (.inr ⟨hentry, uri, hgrant, rfl⟩)

end CssGuard
