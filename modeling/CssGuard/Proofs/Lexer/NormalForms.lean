import CssGuard.Proofs.Lexer.Shapes

/-!
# Tokens that stand alone

A token is meant as a normal form: read once more, by itself, it should give itself. It
does, with a few exceptions that are all of two kinds. A unit may take a line break with
it, which is not read as a part of it. And a name may stand for a text that needs more
than its escapes: one that begins with two hyphens, or a lone hyphen where a name is part
of a token.

- `Token.isFrayed`: the exceptions
- `isSpelling_escapeIdent`: any other name is written so that it is read as a name
- `codeRange?_range`: ranges of code points are read back
- `lex_eq_of_not_isFrayed`, `lex_ne_of_isFrayed`: tokens by their shape
- `lex_alone_iff`: the tokens of a style sheet, read alone
-/

namespace CssGuard

open Text Lexeme
open scoped Text.ByCharacter

/-- The tokens that are not read back when they stand alone: those with a line break,
names that begin with two hyphens, and a lone hyphen as the name of a rule or a call. -/
def Token.isFrayed (t : Token) : Bool :=
  '\n' ∈ t || ['-', '-'].isPrefixOf t || ['@', '-', '-'].isPrefixOf t || t = ['@', '-'] ||
    t = ['-', '(']

/-! ## Reading a text alone -/

/-- Nothing may follow. -/
def nothing : Char → Bool :=
  fun _ => false

theorem eq_nil_of_starts_nothing {t : Text} (h : Starts nothing t) : t = [] := by
  cases t with
  | nil => rfl
  | cons c t => cases starts_cons.mp h

/-- A text that is one lexeme. -/
theorem reads_alone {t : Text} {l : Lexeme} {tok : Token}
    (hfirst : first? t = some (l, [])) (htoken : l.token? = some tok)
    (hissue : ∀ p, l.issue? p = none) (hclean : ∀ c ∈ t, isClean c) :
    Reads nothing t [tok] := by
  refine reads_of_first? (fun rest hrest => ?_) htoken hissue hclean
  rw [eq_nil_of_starts_nothing hrest, List.append_nil]
  exact hfirst

theorem Reads.lex_alone {follow : Char → Bool} {t : Text} {tok : Token}
    (h : Reads follow t [tok]) (hspace : tok ≠ Token.space) : lex t = ⟨[tok], []⟩ := by
  rw [lex_of_reads h, List.foldr_cons, List.foldr_nil, consCollapsed_of_ne hspace,
    List.dropWhile_cons, if_neg (by simpa using hspace)]

/-- A text that begins with another token than itself is not read back. -/
theorem lex_ne_of_first? {t rest : Text} {l : Lexeme} {tok : Token}
    (hclean : ∀ c ∈ t, isClean c) (hfirst : first? t = some (l, rest))
    (htoken : l.token? = some tok) (hspace : tok ≠ Token.space) (hne : tok ≠ t) :
    lex t ≠ ⟨[t], []⟩ := by
  intro h
  have hvalue : (lex t).value = (tokensFrom t).dropWhile (· = Token.space) := by
    rw [lex, clean_eq_self hclean]
    rfl
  have htokens : tokensFrom t = tok :: tokensFrom rest := by
    rw [tokensFrom_of_first? hfirst, htoken]
    exact consCollapsed_of_ne hspace _
  rw [h, htokens, List.dropWhile_cons, if_neg (by simpa using hspace)] at hvalue
  exact hne (List.cons.inj hvalue).1.symm

/-! ## Names with escapes -/

theorem run_digits {ds : Text} (h : ∀ d ∈ ds, isHexDigit d) : ∀ {count : Nat},
    count + ds.length ≤ 6 →
    nameRun.run (.digits count) ds = some (.digits (count + ds.length)) := by
  induction ds with
  | nil => intro count _; rfl
  | cons d ds ih =>
    intro count hcount
    rw [List.length_cons] at hcount ⊢
    have hstep : nameRun.step (.digits count) d = some (.digits (count + 1)) :=
      if_pos ⟨h d (List.mem_cons_self ..), by omega⟩
    rw [Automaton.run, hstep]
    show nameRun.run (.digits (count + 1)) ds = _
    rw [ih (fun e he => h e (List.mem_cons_of_mem _ he)) (by omega), Nat.add_assoc,
      Nat.add_comm 1 ds.length]

/-- An escape is read to its end: it has at most six digits,
and the space belongs to it. -/
theorem run_hexEscape (c : Char) :
    nameRun.run .plain (Escape.hexEscape c) = some .plain := by
  have hlength : (hex c.toNat).length ≤ 6 :=
    (Nat.length_toDigits_le_iff (by decide) (by decide)).mpr
      (Nat.lt_of_lt_of_le (Escape.toNat_lt c) (by decide))
  have hhex : ∀ d ∈ hex c.toNat, isHexDigit d :=
    fun d hd => Escape.isHexDigit_of_mem_hex hd
  obtain ⟨d, ds, hds⟩ := List.exists_cons_of_ne_nil
    (List.length_pos_iff.mp (Nat.length_toDigits_pos (b := 16) (n := c.toNat)))
  have hds : hex c.toNat = d :: ds := hds
  rw [hds, List.length_cons] at hlength
  rw [hds] at hhex
  have hfirst : nameRun.step .backslash d = some (.digits 1) :=
    if_pos (hhex d (List.mem_cons_self ..))
  have hdigits : nameRun.run .backslash (d :: ds) = some (.digits (1 + ds.length)) := by
    rw [Automaton.run, hfirst]
    exact run_digits (fun e he => hhex e (List.mem_cons_of_mem _ he)) (by omega)
  rw [Escape.hexEscape, hds, List.cons_append]
  show nameRun.run .backslash ((d :: ds) ++ [' ']) = _
  rw [Automaton.run_append, hdigits]
  rfl

theorem run_written {p : Prop} [Decidable p] {c : Char} (hp : p → isNameChar c) :
    nameRun.run .plain (if p then [c] else Escape.hexEscape c) = some .plain := by
  split
  · rename_i h
    exact run_nameRun fun d hd => List.mem_singleton.mp hd ▸ hp h
  · exact run_hexEscape c

theorem run_escapeName (t : Text) :
    nameRun.run .plain (Escape.escapeName t) = some .plain := by
  induction t with
  | nil => rfl
  | cons c t ih =>
    rw [Escape.escapeName_cons, Automaton.run_append, run_written id]
    exact ih

theorem isClean_of_mem_escape {c : Char} (h : isNameChar c ∨ c = '\\' ∨ c = ' ') :
    isClean c := by
  rcases h with h | rfl | rfl
  · exact (isClean_of_isNameChar h).1
  · decide
  · decide

/-- The first character of a name, or the one after a hyphen, is written
so that it begins a name. -/
theorem exists_escapeLead {c : Char} (hc : c ≠ '-') (t : Text) :
    ∃ d u, Escape.escapeLead c ++ t = d :: u ∧ beginsWord d := by
  unfold Escape.escapeLead
  split
  · rename_i h
    refine ⟨c, t, rfl, beginsWord_iff.mpr (.inl ⟨?_, h.2⟩)⟩
    have hname := h.1
    simp only [isNameChar, Bool.or_eq_true, decide_eq_true_eq] at hname
    rcases hname with (hstart | hdigit) | hhyphen
    · exact hstart
    · have hascii : c.toNat < 0x80 :=
        ascii_of_isPlainNameChar (by simp [isPlainNameChar, hdigit])
      rw [← isDigit_eq_of_ascii hascii] at hdigit
      exact absurd hdigit h.2
    · exact absurd hhyphen hc
  · exact ⟨'\\', _, rfl, rfl⟩

/-- A name is written so that it is read as a name, unless it begins
with two hyphens or is one. -/
theorem isSpelling_escapeIdent {s : Text} (hne : s ≠ []) (hlone : s ≠ ['-'])
    (htwo : ¬ ['-', '-'] <+: s) : IsSpelling (Escape.escapeIdent s) := by
  have hrun : ∀ c t, nameRun.run .plain (Escape.escapeLead c ++ Escape.escapeName t) =
      some .plain := by
    intro c t
    rw [Automaton.run_append, Escape.escapeLead, run_written And.left]
    exact run_escapeName t
  have hclean : ∀ c ∈ Escape.escapeIdent s, isClean c := fun c hc =>
    isClean_of_mem_escape (Escape.mem_escapeIdent hc)
  obtain ⟨c, s, rfl⟩ := List.exists_cons_of_ne_nil hne
  by_cases hc : c = '-'
  · subst hc
    obtain ⟨d, s, rfl⟩ : ∃ d u, s = d :: u :=
      List.exists_cons_of_ne_nil fun heq => hlone (by rw [heq])
    have hd : d ≠ '-' := by
      rintro rfl
      exact htwo ⟨s, rfl⟩
    obtain ⟨e, u, heq, he⟩ := exists_escapeLead hd (Escape.escapeName s)
    rw [Escape.escapeIdent_hyphen] at hclean ⊢
    refine ⟨hrun d s, ?_, hclean⟩
    rw [heq]
    exact he
  · obtain ⟨e, u, heq, he⟩ := exists_escapeLead hc (Escape.escapeName s)
    rw [Escape.escapeIdent_cons hc] at hclean ⊢
    refine ⟨hrun c s, ?_, hclean⟩
    rw [heq]
    exact beginsIdent_cons he u

/-- What is written for a text that begins with two hyphens does so, too. -/
theorem prefix_escapeIdent {s : Text} (h : ['-', '-'] <+: s) :
    ['-', '-'] <+: Escape.escapeIdent s := by
  obtain ⟨u, rfl⟩ := h
  exact ⟨Escape.escapeName u, (Escape.escapeIdent_hyphen '-' u).symm⟩

/-! ## Ranges of code points -/

theorem atMost_append {p : Char → Bool} {t rest : Text} (hall : ∀ c ∈ t, p c)
    (hrest : ∀ c ∈ rest.head?, ¬ p c) : ∀ {n : Nat}, t.length ≤ n →
      atMost p n (t ++ rest) = (t, rest) := by
  induction t with
  | nil =>
    intro n _
    cases n with
    | zero => rfl
    | succ n =>
      cases rest with
      | nil => rfl
      | cons c rest => exact if_neg (hrest c rfl)
  | cons c t ih =>
    intro n hn
    obtain ⟨n, rfl⟩ : ∃ m, n = m + 1 := ⟨n - 1, by rw [List.length_cons] at hn; omega⟩
    have hc : p c := hall c (List.mem_cons_self ..)
    rw [List.cons_append, atMost, if_pos hc,
      ih (fun d hd => hall d (List.mem_cons_of_mem _ hd)) (Nat.le_of_succ_le_succ hn)]

theorem IsRangeEnd.atMost_append {p : Char → Bool} {t rest : Text} (h : IsRangeEnd p t)
    (hrest : ∀ c ∈ rest.head?, ¬ p c) : atMost p 6 (t ++ rest) = (t, rest) :=
  CssGuard.atMost_append h.all hrest h.length_le

/-- A range of code points is read as a whole. -/
theorem codeRange?_range {rest : Text} (h : IsRange rest) :
    codeRange? ('u' :: '+' :: rest) = some (⟨.codeRange, 'u' :: '+' :: rest⟩, []) := by
  cases h with
  | single hlow =>
    have hread : atMost (fun c => isHexDigit c || c = '?') 6 (rest ++ []) = (rest, []) :=
      hlow.atMost_append (by rintro c ⟨⟩)
    rw [List.append_nil] at hread
    rw [codeRange?, if_pos (by decide), hread]
    exact if_neg (by simpa using hlow.ne_nil)
  | @pair low high hlow hhigh =>
    have hread : atMost (fun c => isHexDigit c || c = '?') 6 (low ++ '-' :: high) =
        (low, '-' :: high) :=
      hlow.atMost_append (by rintro c ⟨⟩; decide)
    have hread' : atMost isHexDigit 6 (high ++ []) = (high, []) :=
      hhigh.atMost_append (by rintro c ⟨⟩)
    rw [List.append_nil] at hread'
    rw [codeRange?, if_pos (by decide), hread]
    dsimp only
    rw [if_neg (by simpa using hlow.ne_nil)]
    show (if (atMost isHexDigit 6 high).1.isEmpty then _ else _) = _
    rw [hread']
    exact if_neg (by simpa using hhigh.ne_nil)

theorem first?_range {rest : Text} (h : IsRange rest) :
    first? ('u' :: '+' :: rest) = some (⟨.codeRange, 'u' :: '+' :: rest⟩, []) := by
  have hurl : url? ('u' :: '+' :: rest) = none := by
    refine url?_eq_none ?_
    rintro ⟨htake, -⟩
    cases (show ['u'] = ['u', 'r', 'l'] from htake)
  rw [first?, space?_eq_none (by decide), comment?_eq_none fun h => absurd h (by decide),
    mark?_eq_none (by decide) fun h => absurd h (by decide),
    string?_eq_none (by decide), hurl, codeRange?_range h]
  rfl

/-! ## Tokens by their shape -/

/-- What has no closing parenthesis in it is no URL. -/
theorem url?_eq_none_of_not_mem {t : Text} (h : ')' ∉ t) : url? t = none := by
  cases hurl : url? t with
  | none => rfl
  | some found =>
    obtain ⟨l, rest⟩ := found
    refine absurd ?_ h
    rw [← (splits_url? hurl).1]
    refine List.mem_append_left _ ?_
    unfold url? at hurl
    split at hurl
    · split at hurl
      · obtain ⟨⟨source, target, after⟩, -, hurl⟩ := Option.bind_eq_some_iff.mp hurl
        dsimp only at hurl
        split at hurl
        · cases hurl
          exact List.mem_append_right _ (List.mem_singleton.mpr rfl)
        · cases hurl
      · cases hurl
    · cases hurl

/-- A character that is replaced before reading stands in no token. -/
theorem Shape.isClean {t : Token} (h : Shape t) : ∀ c ∈ t, isClean c := by
  have hclass : ∀ d ∈ ['\r', '\x0c', '\x00'], ¬ isBareChar d ∧ Escape.isStringSpecial d ∧
      d ∉ ['"', '\\'] ∧ d ∉ "url(".toList ∧ d ∉ ")".toList ∧ d ∉ punctuation ∧
      d ≠ '@' ∧ d ≠ '#' ∧ ∀ c ∈ ['~', '|', '^', '$', '*'], d ∉ [c, '='] := by
    decide
  have hnot : ∀ d ∈ ['\r', '\x0c', '\x00'], d ∉ t := by
    intro d hd hmem
    obtain ⟨hbare, hspecial, hmark, hurl, hparen, hpunctuation, hat, hhash, hoperator⟩ :=
      hclass d hd
    rcases h.cases_of_mem hmem hbare with ⟨s, -, rfl⟩ | ⟨s, -, rfl⟩ | ⟨c, hc, rfl⟩ |
      ⟨-, h⟩ | h | h
    · exact Escape.not_mem_quote hspecial hmark s hmem
    · rcases List.mem_append.mp hmem with hmem | hmem
      · rcases List.mem_append.mp hmem with hmem | hmem
        · exact hurl hmem
        · exact Escape.not_mem_quote hspecial hmark s hmem
      · exact hparen hmem
    · exact hoperator c hc hmem
    · exact hpunctuation h
    · exact hat h
    · exact hhash h
  intro c hc
  have hne : ∀ d ∈ ['\r', '\x0c', '\x00'], c ≠ d := fun d hd heq => hnot d hd (heq ▸ hc)
  simp only [List.forall_mem_cons, List.not_mem_nil, false_implies, implies_true,
    and_true] at hne
  simp [CssGuard.isClean, hne]

theorem isUnitText_of_accepts {u : Text} (h : u = ['%'] || isRunOf isLetter u) :
    IsUnitText u :=
  (Bool.or_eq_true_iff.mp h).imp of_decide_eq_true fun h =>
    List.all_eq_true.mp (Bool.and_eq_true_iff.mp h).2

theorem IsUnitText.not_newline_mem {u : Text} (h : IsUnitText u) : '\n' ∉ u := by
  rcases h with rfl | hletters
  · decide
  · exact fun hmem => absurd (hletters _ hmem) (by decide)

/-- A unit is letters or a percent sign, or it has taken a line break along. -/
theorem isUnitText_or_line {unit : Text} (h : unit = [] ∨ isUnit unit) :
    IsUnitText unit ∨ ∃ u, unit = u ++ ['\n'] ∧ IsUnitText u := by
  rcases h with rfl | h
  · exact .inl (.inr fun c hc => by cases hc)
  · rcases cases_of_isLineOf h with hunit | ⟨u, rfl, hu⟩
    · exact .inl (isUnitText_of_accepts hunit)
    · exact .inr ⟨u, rfl, isUnitText_of_accepts hu⟩

/-- A delimiter alone is read back. -/
theorem first?_delimiter :
    ∀ c ∈ punctuation, first? [c] = some (⟨.delimiter c, [c]⟩, []) := by
  decide

/-- A token that is not frayed is read back. -/
theorem lex_eq_of_not_isFrayed {t : Token} (h : Shape t) (hspace : t ≠ Token.space)
    (hfrayed : ¬ t.isFrayed) : lex t = ⟨[t], []⟩ := by
  have hclean := h.isClean
  simp only [Token.isFrayed, Bool.or_eq_true, decide_eq_true_eq, not_or,
    List.isPrefixOf_iff_prefix] at hfrayed
  obtain ⟨⟨⟨⟨hline, htwo⟩, hatTwo⟩, hat⟩, hcall⟩ := hfrayed
  -- one case for each kind of lexeme; that of the token itself is the
  -- same, but for a lone hyphen
  cases h with
  | space h => exact absurd h hspace
  | string s hnul h =>
    subst h
    exact (reads_quote hnul).lex_alone hspace
  | url s hnul h =>
    subst h
    exact (reads_urlQuote hnul).lex_alone hspace
  | codeRange rest hrest hlower h =>
    have hread : first? t = some (⟨.codeRange, t⟩, []) := by
      rw [h]
      exact first?_range hrest
    exact (reads_alone hread (congrArg some hlower) (fun p => rfl) hclean).lex_alone
      hspace
  | number digits unit hdigits hunit h =>
    subst h
    rcases isUnitText_or_line hunit with hunit | ⟨u, rfl, -⟩
    · exact (reads_number hdigits hunit).lex_alone hspace
    · exact absurd (by simp) hline
  | atKeyword s hs h =>
    subst h
    have hspelling : IsSpelling (Escape.escapeIdent s) := by
      refine isSpelling_escapeIdent hs.ne_nil ?_ fun h => hatTwo ?_
      · rintro rfl
        exact hat (by decide)
      · exact List.cons_prefix_cons.mpr ⟨rfl, prefix_escapeIdent h⟩
    have hreads := hspelling.reads_atKeyword
    rw [Escape.decode_escapeIdent hs.not_nul] at hreads
    exact hreads.lex_alone hspace
  | hash s hs h =>
    subst h
    have hne : Escape.escapeName s ≠ [] := by
      intro heq
      have hdecode := Escape.decode_escapeName hs.not_nul
      rw [heq] at hdecode
      exact hs.ne_nil hdecode.symm
    have hreads := reads_hashRun (run_escapeName s) hne fun c hc =>
      hclean c (List.mem_cons_of_mem _ hc)
    rw [Escape.decode_escapeName hs.not_nul] at hreads
    exact hreads.lex_alone hspace
  | call s hs h =>
    subst h
    have hspelling : IsSpelling (Escape.escapeIdent s) := by
      refine isSpelling_escapeIdent hs.ne_nil ?_ fun h => htwo ?_
      · rintro rfl
        exact hcall (by decide)
      · exact (prefix_escapeIdent h).trans (List.prefix_append _ _)
    -- the name may be the one for a URL, but alone it has no target and no end
    have hurl : url? (Escape.escapeIdent s ++ ['(']) = none := by
      refine url?_eq_none_of_not_mem fun hmem => ?_
      rcases List.mem_append.mp hmem with hmem | hmem
      · exact absurd (Escape.mem_escapeIdent hmem) (by decide)
      · exact absurd hmem (by decide)
    have hreads : Reads nothing (Escape.escapeIdent s ++ ['(']) _ :=
      hspelling.reads_call fun rest hrest => by rwa [eq_nil_of_starts_nothing hrest]
    rw [Escape.decode_escapeIdent hs.not_nul] at hreads
    exact hreads.lex_alone hspace
  | name s hs h =>
    subst h
    by_cases hlone : s = ['-']
    · -- a lone hyphen is read as a delimiter, which is the same token
      subst hlone
      exact (reads_lone (c := '-') (by decide)).lex_alone (by decide)
    · have hspelling := isSpelling_escapeIdent hs.ne_nil hlone fun h =>
        htwo (prefix_escapeIdent h)
      have hreads := hspelling.reads_name
      rw [Escape.decode_escapeIdent hs.not_nul] at hreads
      exact hreads.lex_alone hspace
  | operator c hc h =>
    subst h
    exact (reads_operator hc).lex_alone hspace
  | delimiter c hc h =>
    subst h
    exact (reads_alone (first?_delimiter c hc) (if_pos hc) (fun p => if_pos hc)
      hclean).lex_alone hspace

/-! ## Frayed tokens -/

/-- Two hyphens that begin no mark are read one by one. -/
theorem first?_hyphens {u : Text} (h : u.head? ≠ some '>') :
    first? ('-' :: '-' :: u) = some (⟨.delimiter '-', ['-']⟩, '-' :: u) := by
  have hmark : mark? ('-' :: '-' :: u) = none := by
    unfold mark?
    split
    · rename_i heq
      cases heq
    · rename_i heq
      cases heq
      exact absurd rfl h
    · rfl
  have hearly : PassesEarly ('-' :: '-' :: u) :=
    ⟨space?_eq_none (by decide), comment?_eq_none fun h => absurd h (by decide), hmark,
      string?_eq_none (by decide), url?_eq_none_of_head (by decide),
      codeRange?_eq_none_of_head (by decide)⟩
  have hstuck : number.Stuck .start ('-' :: '-' :: u) := by
    rintro s ⟨⟩
    exact ⟨by decide, number.stuck_of_step_eq_none (by decide)⟩
  have hident : BeginsNoIdent ('-' :: '-' :: u) := ⟨by decide, by decide⟩
  rw [first?_of_passesEarly hearly, number?_eq_none hstuck,
    atKeyword?_eq_none (by decide), hash?_eq_none (by decide), word?_eq_none hident,
    operator?_eq_none fun h => absurd h (by simp)]
  rfl

/-- An at-sign before a hyphen that begins no name is read alone. -/
theorem first?_atHyphen {u : Text} (h : BeginsNoIdent ('-' :: u)) :
    first? ('@' :: '-' :: u) = some (⟨.delimiter '@', ['@']⟩, '-' :: u) := by
  have hword : BeginsNoIdent ('@' :: '-' :: u) := ⟨by decide, by decide⟩
  rw [first?_of_passesEarly (passesEarly_mark (.inl rfl) _),
    number?_eq_none (number.stuck_of_step_eq_none (by decide)), atKeyword?,
    ident?_eq_none h, hash?_eq_none (by decide), word?_eq_none hword, operator?_eq_none
      fun h => absurd h (by simp)]
  rfl

/-- A number is read without the line break that its unit has taken along. -/
theorem lex_ne_of_newline {t : Token} (h : Shape t) (hline : '\n' ∈ t) :
    lex t ≠ ⟨[t], []⟩ := by
  obtain ⟨digits, unit, hdigits, hunit, rfl⟩ := exists_number_of_newline h hline
  have hdigit : '\n' ∉ digits := by
    obtain ⟨s, hrun, -⟩ := (accepts_iff _ _).mp hdigits
    exact fun hmem => absurd (isDecimal_or_mem_of_run hrun _ hmem) (by decide)
  rcases isUnitText_or_line hunit with hunit | ⟨u, rfl, hu⟩
  · rcases List.mem_append.mp hline with hmem | hmem
    · exact absurd hmem hdigit
    · exact absurd hmem hunit.not_newline_mem
  · have hspace : Reads anything ['\n'] [Token.space] := reads_space rfl rfl
    have hreads := (reads_number hdigits hu).append_cons hspace rfl
    rw [List.append_assoc] at hreads
    -- the text gives the number and a space, and it is neither
    intro hlex
    have hmem : digits ++ (u ++ ['\n']) ∈ (lex (digits ++ (u ++ ['\n']))).value := by
      rw [hlex]
      exact List.mem_singleton.mpr rfl
    rw [lex_of_reads hreads] at hmem
    have hmem := mem_of_mem_foldr_consCollapsed ((List.dropWhile_sublist _).subset hmem)
    rcases List.mem_cons.mp hmem with heq | hmem
    · have hlength := congrArg List.length heq
      simp at hlength
    · rw [List.mem_singleton.mp hmem] at hline
      exact absurd hline (by decide)

/-- A frayed token is not read back. -/
theorem lex_ne_of_isFrayed {t : Token} (h : Shape t) (hfrayed : t.isFrayed) :
    lex t ≠ ⟨[t], []⟩ := by
  have hclean := h.isClean
  simp only [Token.isFrayed, Bool.or_eq_true, decide_eq_true_eq,
    List.isPrefixOf_iff_prefix] at hfrayed
  rcases hfrayed with (((hline | ⟨u, rfl⟩) | ⟨u, rfl⟩) | rfl) | rfl
  · exact lex_ne_of_newline h hline
  · -- three such characters would be a mark, but in a name the third one is escaped
    have hmark : u.head? ≠ some '>' := by
      intro hhead
      have hmem : '>' ∈ ['-', '-'] ++ u :=
        List.mem_append_right _ (List.mem_of_mem_head? hhead)
      rcases h.cases_of_mem hmem (by decide) with
        ⟨s, -, h⟩ | ⟨s, -, h⟩ | ⟨d, -, h⟩ | ⟨h, -⟩ | h | h
      · cases congrArg List.head? h
      · cases congrArg List.head? h
      · cases congrArg (List.head? ∘ List.tail) h
      · cases congrArg List.head? h
      · cases h
      · cases h
    exact lex_ne_of_first? hclean (first?_hyphens hmark) rfl (by decide) (by simp)
  · exact lex_ne_of_first? hclean (first?_atHyphen ⟨by decide, by decide⟩) rfl
      (by decide) (by simp)
  · exact lex_ne_of_first? hclean (first?_atHyphen ⟨by decide, by decide⟩) rfl
      (by decide) (by decide)
  · exact lex_ne_of_first? hclean (by decide : first? ['-', '('] = some (⟨.delimiter '-',
      ['-']⟩, ['('])) rfl (by decide) (by decide)

/-- A token of a style sheet, read alone, gives itself and nothing to report,
exactly when it is not frayed. -/
theorem lex_alone_iff {css : Text} {t : Token} (h : t ∈ (lex css).value)
    (hspace : t ≠ Token.space) : lex t = ⟨[t], []⟩ ↔ ¬ t.isFrayed := by
  have hshape := shape_of_mem_lex h
  constructor
  · intro hlex hfrayed
    exact lex_ne_of_isFrayed hshape hfrayed hlex
  · exact lex_eq_of_not_isFrayed hshape hspace

/-- The opening of a call may have the name for a URL, which an
escape has kept from being one. -/
theorem lex_alone_iff_urlCall :
    "url(".toList ∈ (lex "u\\72l(".toList).value ∧
    "url(".toList ≠ Token.space ∧ lex "url(".toList = ⟨["url(".toList], []⟩ := by
  have hreads : Reads nothing "u\\72l(".toList ["url(".toList] :=
    reads_alone (l := ⟨.call "u\\72l", "u\\72l("⟩) (by decide) (by decide)
      (fun p => rfl) (by decide)
  have hmem : "url(".toList ∈ (lex "u\\72l(".toList).value := by
    rw [hreads.lex_alone (by decide)]
    exact List.mem_singleton.mpr rfl
  exact ⟨hmem, by decide, (lex_alone_iff hmem (by decide)).mpr (by decide)⟩

/-- Two escaped hyphens give a name that is not read back, and an
escaped line break a number. -/
theorem lex_ne_hyphens_line :
    ("--".toList ∈ (lex "\\-\\-".toList).value ∧ "--".toList ≠ Token.space ∧
      lex "--".toList ≠ ⟨["--".toList], []⟩) ∧
    ("1p\n".toList ∈ (lex "1p\\a ".toList).value ∧ "1p\n".toList ≠ Token.space ∧
      lex "1p\n".toList ≠ ⟨["1p\n".toList], []⟩) := by
  have hhyphens : Reads nothing "\\-\\-".toList ["--".toList] :=
    reads_alone (l := ⟨.name "\\-\\-", "\\-\\-"⟩) (by decide) (by decide)
      (fun p => rfl) (by decide)
  have hline : Reads nothing "1p\\a ".toList ["1p\n".toList] :=
    reads_alone (l := ⟨.number "1" "p\\a ", "1p\\a "⟩) (by decide) (by decide)
      (fun p => rfl) (by decide)
  have hmem : "--".toList ∈ (lex "\\-\\-".toList).value := by
    rw [hhyphens.lex_alone (by decide)]
    exact List.mem_singleton.mpr rfl
  have hmem' : "1p\n".toList ∈ (lex "1p\\a ".toList).value := by
    rw [hline.lex_alone (by decide)]
    exact List.mem_singleton.mpr rfl
  exact ⟨⟨hmem, by decide, lex_ne_of_isFrayed (shape_of_mem_lex hmem) (by decide)⟩,
    ⟨hmem', by decide, lex_ne_of_isFrayed (shape_of_mem_lex hmem') (by decide)⟩⟩

end CssGuard
