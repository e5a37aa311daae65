import CssGuard.Proofs.Lexer.NormalForms

/-!
# Escaped texts are read back

A text without NUL, escaped for a string, is read back as one string, or as one URL inside
of the parentheses of a URL, and stands for the text. Escaped for an identifier it stands
for the text, too, but it is one name only if the text is no lone hyphen and does not
begin with two: a hyphen is a name character, so it is not escaped, and what begins with
it is a name only if one could begin after it.

- `lex_escaped`: strings and URLs
- `clean_escapeIdent`, `lexemes_escapeIdent`, `lexemes_hyphen`: the
  lexemes of an escaped identifier
- `lexemes_escapeIdent_iff`: the texts that are read back as one name
-/

namespace CssGuard

open Text Lexeme

/-! ## Strings -/

/-- A text without NUL is what its two escaped forms stand for, and between quotes it is
one token, alone and as the target of a URL, with nothing to report. -/
theorem lex_escaped {t : Text} (h : '\x00' ∉ t) :
    Escape.decode (Escape.escapeString t) = t ∧ Escape.decode (Escape.escapeIdent t) = t ∧
      let quoted : Text := '"' :: Escape.escapeString t ++ ['"']
      lex quoted = ⟨[quoted], []⟩ ∧
        lex ("url(" ++ quoted ++ ")") = ⟨["url(" ++ quoted ++ ")"], []⟩ := by
  refine ⟨Escape.decode_escapeString h, Escape.decode_escapeIdent h, ?_, ?_⟩
  · refine (reads_quote h).lex_alone fun heq => ?_
    cases (List.cons.inj heq).1
  · refine (reads_urlQuote h).lex_alone fun heq => ?_
    cases (List.cons.inj heq).1

/-- Quotes, a line break before a hexadecimal digit, a backslash before a space, and a
character of two digits before a third one. -/
theorem lex_escaped_hexDigits :
    let t : Text := "'\"\na\\ \x1fb\r\n9\t-"
    '\x00' ∉ t ∧ Escape.decode (Escape.escapeString t) = t ∧
      Escape.decode (Escape.escapeIdent t) = t ∧
      let quoted : Text := '"' :: Escape.escapeString t ++ ['"']
      lex quoted = ⟨[quoted], []⟩ ∧
        lex ("url(" ++ quoted ++ ")") = ⟨["url(" ++ quoted ++ ")"], []⟩ :=
  ⟨by decide, lex_escaped (by decide)⟩

/-! ## Identifiers -/

theorem clean_escapeIdent (t : Text) :
    clean (Escape.escapeIdent t) = Escape.escapeIdent t :=
  clean_eq_self fun _ hc => isClean_of_mem_escape (Escape.mem_escapeIdent hc)

/-- A text that is no lone hyphen and does not begin with two is written as one name. -/
theorem lexemes_escapeIdent {t : Text} (hne : t ≠ []) (hlone : t ≠ ['-'])
    (htwo : ¬ ['-', '-'] <+: t) :
    lexemes (Escape.escapeIdent t) =
      [⟨.name (Escape.escapeIdent t), Escape.escapeIdent t⟩] := by
  have hspelling := isSpelling_escapeIdent hne hlone htwo
  have hrange := codeRange?_name hspelling (starts_nil _) (by decide)
  have hfirst := hspelling.first?_name (starts_nil _) (by decide) hrange
  rw [List.append_nil] at hfirst
  rw [lexemes_of_first? hfirst, lexemes_of_first?_none rfl]

/-- A hyphen that begins no name is read alone. -/
theorem lexemes_hyphen {t : Text} (h : t = ['-'] ∨ ['-', '-'] <+: t) :
    ∃ ls, lexemes (Escape.escapeIdent t) = ⟨.delimiter '-', ['-']⟩ :: ls := by
  rcases h with rfl | ⟨u, rfl⟩
  · exact ⟨_,
      lexemes_of_first? (by decide : first? ['-'] = some (⟨.delimiter '-', ['-']⟩, []))⟩
  · have hescape : Escape.escapeIdent (['-', '-'] ++ u) =
        '-' :: '-' :: Escape.escapeName u :=
      Escape.escapeIdent_hyphen '-' u
    have hmark : (Escape.escapeName u).head? ≠ some '>' := fun hhead =>
      absurd (Escape.mem_escapeName (List.mem_of_mem_head? hhead)) (by decide)
    rw [hescape]
    exact ⟨_, lexemes_of_first? (first?_hyphens hmark)⟩

/-- A text without NUL that is not empty, escaped for an identifier, is read as one
name, which is its own token, with nothing to report, exactly if it is no lone hyphen
and does not begin with two. -/
theorem lexemes_escapeIdent_iff {t : Text} (hne : t ≠ []) (hnul : '\x00' ∉ t) :
    (lexemes (clean (Escape.escapeIdent t)) =
        [⟨.name (Escape.escapeIdent t), Escape.escapeIdent t⟩] ∧
      lex (Escape.escapeIdent t) = ⟨[Escape.escapeIdent t], []⟩) ↔
    t ≠ ['-'] ∧ ¬ ['-', '-'] <+: t := by
  constructor
  · rintro ⟨hname, -⟩
    rw [clean_escapeIdent] at hname
    rw [← not_or]
    intro hhyphen
    obtain ⟨ls, hls⟩ := lexemes_hyphen hhyphen
    rw [hname] at hls
    cases (List.cons.inj hls).1
  · rintro ⟨hlone, htwo⟩
    refine ⟨by rw [clean_escapeIdent, lexemes_escapeIdent hne hlone htwo], ?_⟩
    have hreads := (isSpelling_escapeIdent hne hlone htwo).reads_name
    rw [Escape.decode_escapeIdent hnul] at hreads
    refine hreads.lex_alone fun heq => ?_
    -- a space is written only at the end of an escape
    have hdecode := Escape.decode_escapeIdent hnul
    rw [heq] at hdecode
    subst hdecode
    exact absurd heq (by decide)

/-- A hyphen before a digit that is none of the decimal ones, and then one of the marks
that hide style sheets from old readers. -/
theorem lexemes_escapeIdent_iff_decorated :
    let t : Text := "-²-->"
    t ≠ [] ∧ '\x00' ∉ t ∧
      lexemes (clean (Escape.escapeIdent t)) =
        [⟨.name (Escape.escapeIdent t), Escape.escapeIdent t⟩] ∧
      lex (Escape.escapeIdent t) = ⟨[Escape.escapeIdent t], []⟩ :=
  ⟨by decide, by decide, (lexemes_escapeIdent_iff (by decide) (by decide)).mpr
    (by decide)⟩

/-- A name with two hyphens in front is written as it is, and is read as a hyphen and
another name. A lone hyphen is read as a delimiter. -/
theorem lexemes_escapeIdent_hyphens :
    Escape.escapeIdent "--a" = "--a".toList ∧
      lexemes (clean "--a".toList) = [⟨.delimiter '-', ['-']⟩, ⟨.name "-a", "-a"⟩] ∧
      lex "--a".toList = ⟨["-", "-a"], []⟩ ∧
      Escape.escapeIdent "-" = "-".toList ∧
      lexemes (clean "-".toList) = [⟨.delimiter '-', ['-']⟩] := by
  have hfirst : first? "--a".toList = some (⟨.delimiter '-', ['-']⟩, "-a".toList) := by
    decide
  have hsecond : first? "-a".toList = some (⟨.name "-a", "-a"⟩, []) := by decide
  have hlone : first? "-".toList = some (⟨.delimiter '-', ['-']⟩, []) := by decide
  have hhyphens : lexemes "--a".toList = [⟨.delimiter '-', ['-']⟩,
      ⟨.name "-a", "-a"⟩] := by
    rw [lexemes_of_first? hfirst, lexemes_of_first? hsecond, lexemes_of_first?_none rfl]
  have hclean : clean "--a".toList = "--a".toList := by decide
  refine ⟨by decide, by rw [hclean, hhyphens], ?_, by decide, ?_⟩
  · rw [lex, hclean, hhyphens]
    decide
  · rw [show clean "-".toList = "-".toList by decide, lexemes_of_first? hlone,
      lexemes_of_first?_none rfl]

end CssGuard
