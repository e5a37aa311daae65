import CssGuard.Proofs.Lexer.Longest
import CssGuard.Proofs.Lexer.Reading
import CssGuard.Proofs.Text.Classes

/-!
# Which reader takes a text

The kinds of lexemes are tried in a fixed order. A kind is passed over when the first
characters of the text rule it out; here is what rules out each kind.

- `NumberState.cases_of_step`: what the recognizers of numbers do with one character
- `space?_eq_none`, …, `operator?_eq_none`: one kind passed over
- `first?_eq_number?`, `first?_eq_word?`: all kinds before a certain one
-/

namespace CssGuard.NumberState

open Text

/-! ## One character of a number -/

/-- The state after a digit. -/
def afterDigit : NumberState → NumberState
  | .start | .sign | .whole => .whole
  | .wholePoint | .point | .fraction => .fraction
  | .exponentMark | .exponentSign | .exponent => .exponent

/-- A digit can come anywhere. A point comes before all digits or after the
first ones, a sign before all digits or at the beginning of an exponent, and
an exponent after digits. -/
theorem cases_of_step {isMark : Char → Bool} {s s' : NumberState} {c : Char}
    (h : (numberWith isMark).step s c = some s') :
    (isDecimal c ∧ s' = s.afterDigit) ∨
    (c = '.' ∧ ((s = .start ∨ s = .sign) ∧ s' = .point ∨ s = .whole ∧ s' = .wholePoint)) ∨
    ((c = '+' ∨ c = '-') ∧ (s = .start ∧ s' = .sign ∨ s = .exponentMark ∧
      s' = .exponentSign)) ∨
    (isMark c ∧ (s = .whole ∨ s = .fraction) ∧ s' = .exponentMark) := by
  cases s <;> simp only [numberWith, numberWith.mark] at h <;> grind [afterDigit]

/-- Other characters cannot begin a number. -/
theorem step_start_eq_none {c : Char} (hdecimal : ¬ isDecimal c) (hpoint : c ≠ '.')
    (hsign : ¬ (c = '+' ∨ c = '-')) : number.step .start c = none := by
  refine Option.eq_none_iff_forall_ne_some.mpr fun s h => ?_
  rcases cases_of_step h with ⟨hc, -⟩ | ⟨hc, -⟩ | ⟨hc, -⟩ | ⟨-, hs, -⟩
  · exact hdecimal hc
  · exact hpoint hc
  · exact hsign hc
  · exact hs.elim nofun nofun

/-- After a sign there is a digit or a point. -/
theorem step_sign_eq_none {c : Char} (hdecimal : ¬ isDecimal c) (hpoint : c ≠ '.') :
    number.step .sign c = none := by
  refine Option.eq_none_iff_forall_ne_some.mpr fun s h => ?_
  rcases cases_of_step h with ⟨hc, -⟩ | ⟨hc, -⟩ | ⟨-, hs⟩ | ⟨-, hs, -⟩
  · exact hdecimal hc
  · exact hpoint hc
  · exact hs.elim nofun nofun
  · exact hs.elim nofun nofun

end CssGuard.NumberState

namespace CssGuard.Lexeme

open Text

/-! ## One kind -/

theorem space?_eq_none {c : Char} {t : Text} (h : ¬ isSpace c) :
    space? (c :: t) = none := by
  rw [space?, List.takeWhile_cons, if_neg h]
  rfl

theorem comment?_eq_none {c : Char} {t : Text} (h : c = '/' → t.head? ≠ some '*') :
    comment? (c :: t) = none := by
  unfold comment?
  split
  · rename_i heq
    cases heq
    exact absurd rfl (h rfl)
  · rfl

theorem mark?_eq_none {c : Char} {t : Text} (hless : c ≠ '<')
    (hdash : c = '-' → t.head? ≠ some '-') : mark? (c :: t) = none := by
  unfold mark?
  split
  · rename_i heq
    cases heq
    exact absurd rfl hless
  · rename_i heq
    cases heq
    exact absurd rfl (hdash rfl)
  · rfl

theorem string?_eq_none {c : Char} {t : Text} (h : c ≠ '"' ∧ c ≠ '\'') :
    string? (c :: t) = none := by
  rw [string?, if_neg]
  rintro (hc | hc)
  · exact h.1 hc
  · exact h.2 hc

/-- A letter is a name character. -/
theorem isNameChar_of_toLower_eq {c d : Char} (h : c.toLower = d) (hd : isSmall d) :
    isNameChar c := by
  rcases ascii_or_foreign c with hc | hc
  · exact forall_ascii (fun c => isSmall c.toLower → isNameChar c) (by decide) hc (h ▸ hd)
  · exact isNameChar_of_isForeign hc

/-- A URL begins with its name and a parenthesis. -/
theorem url?_eq_none {t : Text}
    (h : ¬ ((t.takeWhile isNameChar).map Char.toLower = ['u', 'r', 'l'] ∧
    (t.dropWhile isNameChar).head? = some '(')) : url? t = none := by
  unfold url?
  split
  · rename_i u r l rest
    split
    · rename_i hurl
      obtain ⟨hu, hr, hl⟩ := hurl
      refine absurd ?_ h
      have hparen : ¬ isNameChar '(' := by decide
      rw [List.takeWhile_cons, List.dropWhile_cons,
        if_pos (isNameChar_of_toLower_eq hu rfl),
        if_pos (isNameChar_of_toLower_eq hu rfl), List.takeWhile_cons,
        List.dropWhile_cons, if_pos (isNameChar_of_toLower_eq hr rfl),
        if_pos (isNameChar_of_toLower_eq hr rfl), List.takeWhile_cons,
        List.dropWhile_cons, if_pos (isNameChar_of_toLower_eq hl rfl),
        if_pos (isNameChar_of_toLower_eq hl rfl), List.takeWhile_cons,
        List.dropWhile_cons, if_neg hparen, if_neg hparen, List.map_cons, List.map_cons,
        List.map_cons, hu, hr, hl]
      exact ⟨rfl, rfl⟩
    · rfl
  · rfl

theorem codeRange?_eq_none {t : Text} (h : (t.dropWhile isNameChar).head? ≠ some '+') :
    codeRange? t = none := by
  unfold codeRange?
  split
  · rename_i u rest
    split
    · rename_i hu
      refine absurd ?_ h
      rw [List.dropWhile_cons, if_pos (isNameChar_of_toLower_eq hu rfl),
        List.dropWhile_cons, if_neg (by decide)]
      rfl
    · rfl
  · rfl

theorem number?_eq_none {t : Text} (h : number.Stuck .start t) : number? t = none := by
  rw [number?, number.longest?_eq_none (by decide) h]
  rfl

theorem atKeyword?_eq_none {c : Char} {t : Text} (h : c ≠ '@') :
    atKeyword? (c :: t) = none := by
  unfold atKeyword?
  split
  · rename_i heq
    cases heq
    exact absurd rfl h
  · rfl

theorem hash?_eq_none {c : Char} {t : Text} (h : c ≠ '#') : hash? (c :: t) = none := by
  unfold hash?
  split
  · rename_i heq
    cases heq
    exact absurd rfl h
  · rfl

/-- The text begins no identifier. -/
def BeginsNoIdent : Text → Prop
  | '-' :: c :: _ => ¬ isNameStart c ∧ c ≠ '\\'
  | c :: _ => ¬ isNameStart c ∧ c ≠ '\\'
  | [] => True

theorem beginsNoIdent_cons {c : Char} (hdash : c ≠ '-') (hc : ¬ isNameStart c ∧ c ≠ '\\')
    (t : Text) : BeginsNoIdent (c :: t) := by
  unfold BeginsNoIdent
  split
  · rename_i heq
    cases heq
    exact absurd rfl hdash
  · rename_i heq
    cases heq
    exact hc
  · trivial

theorem ident?_eq_none {t : Text} (h : BeginsNoIdent t) : ident? t = none := by
  have hword : ∀ {c : Char} {t : Text}, ¬ isNameStart c ∧ c ≠ '\\' →
      ident?.word? (c :: t) = none := by
    rintro c t ⟨h₁, h₂⟩
    rw [ident?.word?, if_neg]
    rintro (h | h)
    · exact h₁ h
    · exact h₂ h
  unfold ident?
  split
  · rename_i rest
    cases rest with
    | nil => rfl
    | cons c rest => rw [hword h]; rfl
  · rename_i hne
    cases t with
    | nil => rfl
    | cons c rest =>
      refine hword ?_
      unfold BeginsNoIdent at h
      split at h
      · rename_i heq
        exact absurd heq (hne _)
      · rename_i heq
        cases heq
        exact h
      · rename_i heq
        cases heq

theorem word?_eq_none {t : Text} (h : BeginsNoIdent t) : word? t = none := by
  rw [word?, ident?_eq_none h]
  rfl

theorem operator?_eq_none {c : Char} {t : Text}
    (h : t.head? = some '=' → c ∉ ['~', '|', '^', '$', '*']) :
    operator? (c :: t) = none := by
  unfold operator?
  split
  · rename_i heq
    cases heq
    refine if_neg ?_
    simpa using h rfl
  · rfl

/-! ## Several kinds -/

/-- What does not begin with a letter begins neither a URL nor a range of code points. -/
theorem url?_eq_none_of_head {c : Char} {t : Text} (h : c.toLower ≠ 'u') :
    url? (c :: t) = none := by
  unfold url?
  split
  · rename_i heq
    cases heq
    exact if_neg fun hurl => h hurl.1
  · rfl

theorem codeRange?_eq_none_of_head {c : Char} {t : Text} (h : c.toLower ≠ 'u') :
    codeRange? (c :: t) = none := by
  unfold codeRange?
  split
  · rename_i heq
    cases heq
    exact if_neg h
  · rfl

/-- The readers up to the range of code points give nothing. -/
structure PassesEarly (t : Text) : Prop where
  space : space? t = none
  comment : comment? t = none
  mark : mark? t = none
  string : string? t = none
  url : url? t = none
  codeRange : codeRange? t = none

theorem first?_of_passesEarly {t : Text} (h : PassesEarly t) :
    first? t =
      (number? t <|> atKeyword? t <|> hash? t <|> word? t <|> operator? t <|>
        delimiter? t) := by
  rw [first?, h.space, h.comment, h.mark, h.string, h.url, h.codeRange]
  rfl

/-- A number is taken when nothing before it is. -/
theorem first?_eq_number? {t : Text} {found : Lexeme × Text} (h : PassesEarly t)
    (hnumber : number? t = some found) : first? t = some found := by
  rw [first?_of_passesEarly h, hnumber]
  rfl

/-- A word is taken when nothing before it is. -/
theorem first?_eq_word? {t : Text} {found : Lexeme × Text} (h : PassesEarly t)
    (hnumber : number? t = none) (hat : atKeyword? t = none) (hhash : hash? t = none)
    (hword : word? t = some found) : first? t = some found := by
  rw [first?_of_passesEarly h, hnumber, hat, hhash, hword]
  rfl

end CssGuard.Lexeme
