import CssGuard.Proofs.Lexer.Shapes
import CssGuard.Selector.Confinement

/-!
# Tests of tokens

The rest of the library judges tokens by their texts, and some of its tests admit texts
that no token has: a name with a final newline, a string with something after it. Of a
token, each test says what it seems to say.

- `Shape.of_stringBody?`, `Shape.of_urlBody?`: strings and URLs
- `Shape.isPlainIdent`, `Shape.isBareName`, `Shape.exists_of_isWord`: names and words
- `Shape.exists_of_isHashColor`, `Shape.isDecimal_of_isDigits`: colours and digits
- `Shape.nameChars_of_lower`, `Shape.quote_mem_of_parens`: what a
  token with certain characters is
-/

namespace CssGuard

open Text Lexeme
open scoped Text.ByCharacter

/-! ## Strings and URLs -/

theorem bodyUpTo?_escapeString (s ending : Text) :
    bodyUpTo? ending (Escape.escapeString s ++ '"' :: ending) =
      some (Escape.escapeString s) := by
  rw [bodyUpTo?, closedBody?_append (isStringBody_escapeString s)]
  exact if_pos (.inl rfl)

theorem stringBody?_quote (s : Text) :
    Token.stringBody? (Escape.quote s) = some (Escape.escapeString s) :=
  bodyUpTo?_escapeString s []

theorem urlBody?_quote (s : Text) :
    Token.urlBody? ("url(" ++ Escape.quote s ++ ")") = some (Escape.escapeString s) := by
  have hsplit : "url(".toList ++ Escape.quote s ++ ")".toList =
      'u' :: 'r' :: 'l' :: '(' :: '"' :: (Escape.escapeString s ++ '"' :: [')']) := by
    simp [Escape.quote]
  rw [hsplit, Token.urlBody?, if_pos (by decide)]
  exact bodyUpTo?_escapeString s [')']

/-- A token that passes for a string is one. -/
theorem Shape.of_stringBody? {t : Token} (h : Shape t) {body : Text}
    (hbody : t.stringBody? = some body) :
    ∃ s, '\x00' ∉ s ∧ t = Escape.quote s ∧ body = Escape.escapeString s := by
  unfold Token.stringBody? at hbody
  split at hbody
  · rename_i rest
    rcases h.quoted_of_mem (List.mem_cons_self ..) with ⟨s, hnul, heq⟩ | ⟨s, hnul, heq⟩
    · refine ⟨s, hnul, heq, ?_⟩
      have := stringBody?_quote s
      rw [← heq, Token.stringBody?, hbody] at this
      exact Option.some.inj this
    · cases heq
  · cases hbody

/-- A token that passes for a URL is one. -/
theorem Shape.of_urlBody? {t : Token} (h : Shape t) {body : Text}
    (hbody : t.urlBody? = some body) :
    ∃ s, '\x00' ∉ s ∧ t = "url(" ++ Escape.quote s ++ ")" ∧
    body = Escape.escapeString s := by
  have hmem : '"' ∈ t := by
    unfold Token.urlBody? at hbody
    split at hbody
    · simp
    · cases hbody
  rcases h.quoted_of_mem hmem with ⟨s, hnul, heq⟩ | ⟨s, hnul, heq⟩
  · -- a string does not begin with a letter
    rw [heq] at hbody
    unfold Token.urlBody? at hbody
    split at hbody
    · rename_i hcons
      rw [← (List.cons.inj hcons).1] at hbody
      cases hbody
    · cases hbody
  · refine ⟨s, hnul, heq, ?_⟩
    have := urlBody?_quote s
    rw [← heq, hbody] at this
    exact Option.some.inj this

/-! ## Names -/

theorem beginsNumber_lower {t : Text} (h : BeginsNumber t) : BeginsNumber (lower t) := by
  have hlowered : ∀ {c : Char}, isDecimal c ∨ c = '.' → IsLowered c := by
    rintro c (hc | rfl)
    · exact isLowered_of_isDigit (isDigit_of_isDecimal hc)
    · exact isLowered_of_ascii (by decide) rfl
  unfold BeginsNumber at h
  split at h
  · rename_i c rest
    rcases h with h | h | ⟨h, d, more, rfl, hd⟩
    · rw [lower, (hlowered (.inl h)).lowerAfter_cons]
      exact .inl h
    · rw [lower, (hlowered (.inr h)).lowerAfter_cons]
      exact .inr (.inl h)
    · have hsign : IsLowered c := by
        rcases h with rfl | rfl <;> exact isLowered_of_ascii (by decide) rfl
      rw [lower, hsign.lowerAfter_cons, (hlowered hd).lowerAfter_cons]
      exact .inr (.inr ⟨h, d, _, rfl, hd⟩)
  · cases h

/-- A token whose lower-case form does not begin like a number has no newline. -/
theorem Shape.no_newline {t : Token} (h : Shape t) (hbegins : ¬ BeginsNumber (lower t)) :
    '\n' ∉ lower t := by
  intro hc
  have hmem := mem_of_mem_lower hc (by decide) (by decide)
  exact hbegins (beginsNumber_lower (h.beginsNumber_of_newline hmem))

theorem of_isLineOf_of_no_newline {accepts : Text → Bool} {t : Text}
    (h : isLineOf accepts t) (hc : '\n' ∉ t) : accepts t := by
  rcases cases_of_isLineOf h with h' | ⟨t', rfl, -⟩
  · exact h'
  · exact absurd (List.mem_append_right _ (List.mem_singleton.mpr rfl)) hc

/-- A token that passes for an identifier is one. -/
theorem Shape.isPlainIdent {t : Token} (h : Shape t) (hline : isIdentLine t) :
    Text.isPlainIdent t := by
  rcases cases_of_isLineOf hline with hident | ⟨t', rfl, hident⟩
  · exact hident
  · have hnumber :=
      h.beginsNumber_of_newline (List.mem_append_right _ (List.mem_singleton.mpr rfl))
    exact absurd ((isBareName_of_isPlainIdent hident).begins.append _)
      hnumber.not_beginsName

theorem begins_of_small {c : Char} (h : isSmall c || c = '_') :
    isNameStart c ∧ ¬ isDigit c := by
  have hascii : c.toNat < 0x80 := by
    rcases Bool.or_eq_true_iff.mp h with h | h
    · exact ascii_of_isSmall h
    · rw [of_decide_eq_true h]
      decide
  rw [isDigit_eq_of_ascii hascii]
  exact forall_ascii (fun c => (isSmall c || c = '_') → isNameStart c ∧ ¬ isPlainDigit c)
    (by decide) hascii h

/-- A word without its final newline. -/
theorem exists_of_isWord {w : Text} (h : isWord w) :
    ∃ c rest, (isSmall c || c = '_') ∧
    (∀ d ∈ rest, isSmallNameChar d) ∧ IsMaybeLine (c :: rest) w := by
  have hbody : ∀ u : Text, isWord.word u → ∃ c rest, u = c :: rest ∧
      (isSmall c || c = '_') ∧ ∀ d ∈ rest, isSmallNameChar d := by
    intro u hu
    cases u with
    | nil => cases hu
    | cons c rest =>
      obtain ⟨hc, hrest⟩ := Bool.and_eq_true_iff.mp hu
      exact ⟨c, rest, rfl, hc, List.all_eq_true.mp hrest⟩
  rcases cases_of_isLineOf h with hu | ⟨u, rfl, hu⟩
  · obtain ⟨c, rest, rfl, hc, hrest⟩ := hbody _ hu
    exact ⟨c, rest, hc, hrest, .inl rfl⟩
  · obtain ⟨c, rest, rfl, hc, hrest⟩ := hbody _ hu
    exact ⟨c, rest, hc, hrest, .inr rfl⟩

theorem IsMaybeLine.eq_of_no_newline {t q : Text} (h : IsMaybeLine t q) (hc : '\n' ∉ q) :
    q = t := by
  rcases h with h | h
  · exact h
  · rw [h] at hc
    exact absurd (List.mem_append_right _ (List.mem_singleton.mpr rfl)) hc

theorem IsMaybeLine.exists_cons {c : Char} {t q : Text} (h : IsMaybeLine (c :: t) q) :
    ∃ rest, q = c :: rest := by
  rcases h with rfl | rfl
  · exact ⟨t, rfl⟩
  · exact ⟨t ++ ['\n'], rfl⟩

/-- A token that passes for a word has only characters of words. -/
theorem Shape.exists_of_isWord {t : Token} (h : Shape t) (hword : isWord (lower t)) :
    ∃ c rest, lower t = c :: rest ∧ (isSmall c || c = '_') ∧ ∀ d ∈ rest,
    isSmallNameChar d := by
  obtain ⟨c, rest, hc, hrest, hline⟩ := CssGuard.exists_of_isWord hword
  refine ⟨c, rest, hline.eq_of_no_newline (h.no_newline fun hnumber => ?_), hc, hrest⟩
  obtain ⟨more, heq⟩ := hline.exists_cons
  rw [heq] at hnumber
  exact hnumber.not_beginsName (beginsName_cons (begins_of_small hc) more)

/-- A token that passes for a name, in lower case. -/
theorem Shape.exists_of_isName {t : Token} (h : Shape t) (hname : isName (lower t)) :
    BeginsName (lower t) ∧ ∀ d ∈ lower t, isSmallNameChar d := by
  have hall : ∀ {c : Char} {rest : Text}, (isSmall c || c = '_') →
      (∀ d ∈ rest, isSmallNameChar d) → ∀ d ∈ c :: rest, isSmallNameChar d := by
    intro c rest hc hrest
    refine List.forall_mem_cons.mpr ⟨?_, hrest⟩
    rcases Bool.or_eq_true_iff.mp hc with hc | hc <;> simp [isSmallNameChar, hc]
  have hline := h.no_newline
  unfold isName at hname
  split at hname
  · rename_i w heq
    obtain ⟨c, rest, hc, hrest, hmaybe⟩ := CssGuard.exists_of_isWord hname
    obtain ⟨more, rfl⟩ := hmaybe.exists_cons
    have hbegins : BeginsName (lower t) := by
      rw [heq]
      exact begins_of_small hc
    refine ⟨hbegins, ?_⟩
    have hnew : '\n' ∉ c :: more := fun hmem =>
      hline (fun hnumber => hnumber.not_beginsName hbegins)
        (heq ▸ List.mem_cons_of_mem _ hmem)
    rw [heq, hmaybe.eq_of_no_newline hnew]
    exact List.forall_mem_cons.mpr ⟨rfl, hall hc hrest⟩
  · obtain ⟨c, rest, heq, hc, hrest⟩ := h.exists_of_isWord hname
    rw [heq]
    exact ⟨beginsName_cons (begins_of_small hc) rest, hall hc hrest⟩

/-- What becomes a character that begins names is one. -/
theorem isNameStart_of_lowersTo {c d : Char} (h : LowersTo c d) (hd : isNameStart d) :
    isNameStart c := by
  rcases ascii_or_foreign c with hc | hc
  · rcases h with h | ⟨rfl, -⟩
    · rw [lowerChar, if_pos hc, List.mem_singleton] at h
      subst h
      exact forall_ascii (fun c => isNameStart c.toLower → isNameStart c)
        (by decide) hc hd
    · exact absurd hc (by decide)
  · exact isNameStart_of_isForeign hc

theorem beginsName_of_lower {t : Text} (h : BeginsName (lower t))
    (hdigit : Escape.NoLeadingDigit t) : BeginsName t := by
  cases t with
  | nil => exact h
  | cons c t =>
    obtain ⟨d, rest, heq, hcd⟩ := exists_lowerAfter_cons [] c t
    rw [lower, heq] at h
    -- a hyphen stays what it is, and then the next character decides
    by_cases hdash : c = '-'
    · subst hdash
      have hd : d = '-' := by
        rw [(isLowered_of_ascii (by decide) rfl).lowerAfter_cons] at heq
        exact (List.cons.inj heq).1.symm
      subst hd
      cases t with
      | nil =>
        rw [(isLowered_of_ascii (by decide) rfl).lowerAfter_cons] at heq
        rw [← (List.cons.inj heq).2] at h
        exact absurd h.1 (by decide)
      | cons c t =>
        rw [(isLowered_of_ascii (by decide) rfl).lowerAfter_cons] at heq
        obtain ⟨d, rest', heq', hcd'⟩ := exists_lowerAfter_cons ['-'] c t
        rw [← (List.cons.inj heq).2, heq'] at h
        exact ⟨isNameStart_of_lowersTo hcd' h.1, hdigit⟩
    · have hd : isNameStart d := by
        unfold BeginsName at h
        split at h
        · rename_i hcons
          cases hcons
          exact absurd (eq_of_lowersTo hcd (by decide) (by decide)) hdash
        · rename_i hcons
          cases hcons
          exact h.1
        · cases h
      refine beginsName_cons ⟨isNameStart_of_lowersTo hcd hd, ?_⟩ t
      unfold Escape.NoLeadingDigit at hdigit
      split at hdigit
      · rename_i hcons
        cases hcons
        exact absurd rfl hdash
      · rename_i hcons
        cases hcons
        exact hdigit
      · rename_i hcons
        cases hcons

/-- A token that passes for a name is written without escapes. -/
theorem Shape.isBareName {t : Token} (h : Shape t) (hname : isName (lower t)) :
    IsBareName t := by
  obtain ⟨hbegins, hall⟩ := h.exists_of_isName hname
  -- a mark in the token would be in its lower-case form
  have hmark : ∀ c ∈ t, c.toNat < 0x80 → c.toLower = c → isSmallNameChar c := by
    intro c hc hascii hkeep
    exact hall c (hkeep ▸ toLower_mem_lower hc hascii)
  have hno : ∀ c, c ∈ t → c.toNat < 0x80 ∧ c.toLower = c ∧ ¬ isSmallNameChar c → False :=
    fun c hc ⟨h₁, h₂, h₃⟩ => h₃ (hmark c hc h₁ h₂)
  cases h with
  | space h => exact (hno ' ' (by simp [h, Token.space]) (by decide)).elim
  | string s hnul h => exact (hno '"' (by simp [h, Escape.quote]) (by decide)).elim
  | url s hnul h => exact (hno '"' (by simp [h, Escape.quote]) (by decide)).elim
  | codeRange rest hrest hlower h => exact (hno '+' (by simp [h]) (by decide)).elim
  | number digits unit hdigits hunit h =>
    have hnumber := beginsNumber_lower ((beginsNumber_of_accepts hdigits).append unit)
    rw [← h] at hnumber
    exact absurd hbegins hnumber.not_beginsName
  | atKeyword s hs h => exact (hno '@' (by simp [h]) (by decide)).elim
  | hash s hs h => exact (hno '#' (by simp [h]) (by decide)).elim
  | call s hs h => exact (hno '(' (by simp [h]) (by decide)).elim
  | name s hs h =>
    have hback : '\\' ∉ Escape.escapeIdent s := fun hmem =>
      hno '\\' (h ▸ hmem) (by decide)
    obtain ⟨heq, hchars, hdigit⟩ := Escape.escapeIdent_of_no_backslash hback
    rw [heq] at h
    subst h
    exact ⟨hchars, beginsName_of_lower hbegins hdigit⟩
  | operator c hc h => exact (hno '=' (by simp [h]) (by decide)).elim
  | delimiter c hc h =>
    have hclass : ∀ c ∈ punctuation, ¬ isSmallNameChar c ∨ c = '-' := by decide
    have hascii : ∀ c ∈ punctuation, c.toNat < 0x80 ∧ c.toLower = c := by decide
    rcases hclass c hc with hsmall | rfl
    · exact (hno c (by simp [h]) ⟨(hascii c hc).1, (hascii c hc).2, hsmall⟩).elim
    · subst h
      exact absurd hbegins.1 (by decide)

/-! ## Other tests -/

/-- A token that passes for a colour is one. -/
theorem Shape.exists_of_isHashColor {t : Token} (h : Shape t)
    (hcolor : isHashColor (lower t)) :
    ∃ digits, lower t = '#' :: digits ∧ digits ≠ [] ∧ ∀ c ∈ digits,
    isSmallHexDigit c := by
  have hbody : ∀ u : Text, isHashColor.color u → ∃ digits, u = '#' :: digits ∧
      digits ≠ [] ∧ ∀ c ∈ digits, isSmallHexDigit c := by
    intro u hu
    unfold isHashColor.color at hu
    split at hu
    · rename_i digits
      obtain ⟨hall, hlength⟩ := Bool.and_eq_true_iff.mp hu
      refine ⟨digits, rfl, ?_, List.all_eq_true.mp hall⟩
      rintro rfl
      cases hlength
    · cases hu
  have hnumber : ∀ u : Text, ¬ BeginsNumber ('#' :: u) := by
    rintro u (h | h | ⟨h | h, -⟩)
    · exact absurd h (by decide)
    · cases h
    · cases h
    · cases h
  rcases cases_of_isLineOf hcolor with hu | ⟨u, heq, hu⟩
  · exact hbody _ hu
  · obtain ⟨digits, rfl, -⟩ := hbody _ hu
    refine absurd ?_ (h.no_newline ?_)
    · rw [heq]
      exact List.mem_append_right _ (List.mem_singleton.mpr rfl)
    · rw [heq]
      exact hnumber _

/-- A token that passes for a keyword of a media feature is one. -/
theorem Shape.exists_of_isMediaKeyword {t : Token} (h : Shape t)
    (hword : isMediaKeyword (lower t)) :
    ∃ c rest, lower t = c :: rest ∧ isSmall c ∧ ∀ d ∈ rest, isSmall d || d = '-' := by
  have hbody : ∀ u : Text, isMediaKeyword.keyword u → ∃ c rest,
      u = c :: rest ∧ isSmall c ∧ ∀ d ∈ rest, isSmall d || d = '-' := by
    intro u hu
    cases u with
    | nil => cases hu
    | cons c rest =>
      obtain ⟨hc, hrest⟩ := Bool.and_eq_true_iff.mp hu
      exact ⟨c, rest, rfl, hc, List.all_eq_true.mp hrest⟩
  rcases cases_of_isLineOf hword with hu | ⟨u, heq, hu⟩
  · exact hbody _ hu
  · obtain ⟨c, rest, rfl, hc, -⟩ := hbody _ hu
    refine absurd ?_ (h.no_newline fun hnumber => ?_)
    · rw [heq]
      exact List.mem_append_right _ (List.mem_singleton.mpr rfl)
    · rw [heq] at hnumber
      refine hnumber.not_beginsName (beginsName_cons (begins_of_small ?_) _)
      simp [hc]

theorem run_whole {t : Text} (h : ∀ c ∈ t, isDecimal c) :
    number.run .whole t = some .whole := by
  induction t with
  | nil => rfl
  | cons c t ih =>
    have hstep : number.step .whole c = some .whole :=
      if_pos (h c (List.mem_cons_self ..))
    rw [Automaton.run, hstep]
    exact ih fun d hd => h d (List.mem_cons_of_mem _ hd)

/-- Decimal digits are a number. -/
theorem isNumeral_of_isDecimal {t : Text} (hne : t ≠ []) (h : ∀ c ∈ t, isDecimal c) :
    IsNumeral t := by
  obtain ⟨c, t, rfl⟩ := List.exists_cons_of_ne_nil hne
  have hstep : number.step .start c = some .whole := if_pos (h c (List.mem_cons_self ..))
  have hrun : number.run .start (c :: t) = some .whole := by
    rw [Automaton.run, hstep]
    exact run_whole fun d hd => h d (List.mem_cons_of_mem _ hd)
  rw [← List.append_nil (c :: t)]
  exact isNumeral_of_run hrun rfl rfl

/-- A token of digits is a number in decimal digits, and it is in lower case. -/
theorem Shape.isDecimal_of_isDigits {t : Token} (h : Shape t)
    (hdigits : isDigits (lower t)) : lower t = t ∧ t ≠ [] ∧ ∀ c ∈ t, isDecimal c := by
  obtain ⟨hne, hall⟩ := Bool.and_eq_true_iff.mp hdigits
  have hall := List.all_eq_true.mp hall
  have hdigit : ∀ c ∈ t, isDigit c := by
    intro c hc
    obtain ⟨d, hd, hcd⟩ := exists_mem_lower hc
    rw [eq_of_lowersTo_of_isDigit hcd (hall d hd)]
    exact hall d hd
  have hlower : lower t = t :=
    lower_eq_self fun c hc => isLowered_of_isDigit (hdigit c hc)
  rw [hlower] at hne
  have hne : t ≠ [] := by simpa using hne
  refine ⟨hlower, hne, ?_⟩
  -- every shape but numbers and names has a character that is no digit
  have hno : ∀ c, c ∈ t → ¬ isDigit c → False := fun c hc hnot => hnot (hdigit c hc)
  cases h with
  | space h => exact (hno ' ' (by simp [h, Token.space]) (by decide)).elim
  | string s hnul h => exact (hno '"' (by simp [h, Escape.quote]) (by decide)).elim
  | url s hnul h => exact (hno '"' (by simp [h, Escape.quote]) (by decide)).elim
  | codeRange rest hrest hlower h => exact (hno '+' (by simp [h]) (by decide)).elim
  | number digits unit haccepts hunit h =>
    intro c hc
    have hc' := hdigit c hc
    rw [h] at hc
    rcases mem_number haccepts hunit hc with hdec | hletter | hmark
    · exact hdec
    · have hascii := ascii_of_isPlainNameChar (isPlainNameChar_of_isLetter hletter)
      rw [isDigit_eq_of_ascii hascii] at hc'
      exact absurd hletter (forall_ascii (fun c => isPlainDigit c → ¬ isLetter c)
        (by decide) hascii hc')
    · exact absurd hc' ((by decide :
        ∀ c ∈ ['.', '+', '-', '%', '\n'], ¬ isDigit c) c hmark)
  | atKeyword s hs h => exact (hno '@' (by simp [h]) (by decide)).elim
  | hash s hs h => exact (hno '#' (by simp [h]) (by decide)).elim
  | call s hs h => exact (hno '(' (by simp [h]) (by decide)).elim
  | name s hs h =>
    have hback : '\\' ∉ Escape.escapeIdent s := fun hmem =>
      hno '\\' (h ▸ hmem) (by decide)
    obtain ⟨heq, -, hlead⟩ := Escape.escapeIdent_of_no_backslash hback
    rw [heq] at h
    subst h
    obtain ⟨c, rest, rfl⟩ := List.exists_cons_of_ne_nil hne
    unfold Escape.NoLeadingDigit at hlead
    split at hlead
    · rename_i hcons
      exact (hno '-' (hcons ▸ List.mem_cons_self ..) (by decide)).elim
    · rename_i hcons
      cases hcons
      exact absurd (hdigit c (List.mem_cons_self ..)) hlead
    · rename_i hcons
      cases hcons
  | operator c hc h => exact (hno '=' (by simp [h]) (by decide)).elim
  | delimiter c hc h =>
    exact (hno c (by simp [h]) ((by decide : ∀ c ∈ punctuation, ¬ isDigit c) c hc)).elim

/-- A token that begins with a hyphen and a letter is a name. -/
theorem Shape.nameChars_of_lower {t : Token} (h : Shape t) {d : Char} {rest : Text}
    (hlower : lower t = '-' :: d :: rest) (hd : isSmall d) :
    ∀ c ∈ t, isNameChar c ∨ c ∈ ['\\', ' ', '('] := by
  -- nothing but a hyphen becomes a hyphen in lower case
  have hhead : ∀ {c : Char} {u : Text}, t = c :: u → c = '-' := by
    rintro c u rfl
    obtain ⟨d', rest', heq, hcd⟩ := exists_lowerAfter_cons [] c u
    rw [lower, heq] at hlower
    rw [(List.cons.inj hlower).1] at hcd
    exact eq_of_lowersTo hcd (by decide) (by decide)
  have hident : ∀ {s : Text}, ∀ c ∈ Escape.escapeIdent s, isNameChar c ∨
      c ∈ ['\\', ' ', '('] := by
    intro s c hc
    rcases Escape.mem_escapeIdent hc with hc | rfl | rfl
    · exact .inl hc
    · exact .inr (by decide)
    · exact .inr (by decide)
  cases h with
  | space h => cases hhead h
  | string s hnul h => cases hhead h
  | url s hnul h => cases hhead h
  | codeRange rest hrest hlower h => cases hhead h
  | number digits unit hdigits hunit h =>
    have hnumber := beginsNumber_lower ((beginsNumber_of_accepts hdigits).append unit)
    rw [← h, hlower] at hnumber
    refine absurd (begins_of_small ?_) fun hname => hnumber.not_beginsName hname
    simp [hd]
  | atKeyword s hs h => cases hhead h
  | hash s hs h => cases hhead h
  | call s hs h =>
    intro c hc
    rw [h] at hc
    rcases List.mem_append.mp hc with hc | hc
    · exact hident c hc
    · rw [List.mem_singleton.mp hc]
      exact .inr (by decide)
  | name s hs h => exact h ▸ hident
  | operator c hc h =>
    rw [hhead h] at hc
    exact absurd hc (by decide)
  | delimiter c hc h =>
    rw [hhead h] at h
    rw [h, lower_eq_self (by simpa using isLowered_of_ascii (by decide) rfl)] at hlower
    cases hlower

/-- A token with two parentheses in it has quotes between them. -/
theorem Shape.quote_mem_of_parens {t : Token} (h : Shape t) (hopen : '(' ∈ t)
    (hclose : ')' ∈ t) : '"' ∈ t := by
  rcases h.cases_of_mem hclose (by decide) with
    ⟨s, -, rfl⟩ | ⟨s, -, rfl⟩ | ⟨d, hd, rfl⟩ | ⟨rfl, -⟩ | h | h
  · exact List.mem_cons_self ..
  · simp [Escape.quote]
  · exact absurd hclose ((by decide : ∀ d ∈ ['~', '|', '^', '$',
      '*'], ')' ∉ [d, '=']) d hd)
  · exact absurd hopen (by decide)
  · cases h
  · cases h

end CssGuard
