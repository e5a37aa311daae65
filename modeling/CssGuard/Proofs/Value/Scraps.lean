import CssGuard.Declaration
import CssGuard.Event.Statements
import CssGuard.Proofs.Lexer.Numerals
import CssGuard.Proofs.Schema
import CssGuard.Proofs.Url.Escape

/-!
# Written values are read back

A written value is a row of scraps: tokens by themselves, calls taken apart at their
parentheses. It has a space between two scraps, except before a comma, before a closing
parenthesis and after an opening one, and it is read back scrap by scrap.

- `Scrap`: a part of a written value, its text and the tokens it is read back as
- `spread`: the text of a row of scraps
- `Scrap.IsLegible`: the scrap is read back in front of what follows it in a value
- `Scrap.IsAtom`: the scrap is legible and no part of a call
- `reads_spread`: a row of legible scraps is read back
-/

namespace CssGuard

open Text Escape
open scoped Text.ByCharacter

/-- A part of a written value. -/
inductive Scrap where
  /-- A token that is read back as itself. -/
  | plain (t : Token)
  /-- A token with a newline after it. -/
  | line (t : Token)
  /-- A URL. -/
  | url (uri : Text)
  /-- The mark of importance. -/
  | important
deriving DecidableEq

namespace Scrap

/-- The scrap as it is written. -/
def text : Scrap → Text
  | plain t => t
  | line t => t ++ ['\n']
  | url uri => ['u', 'r', 'l', '(', '"'] ++ uri ++ ['"', ')']
  | important => importantMark

/-- The tokens that the scrap is read back as. -/
def tokens : Scrap → List Token
  | plain t | line t => [t]
  | url uri => ["url(" ++ quote uri ++ ")"]
  | important => [['!'], "important"]

/-- The tokens of the scrap with the space that a newline leaves. -/
def reading : Scrap → List Token
  | line t => [t, Token.space]
  | a => a.tokens

/-- The scrap opens a call. -/
def opens (a : Scrap) : Bool :=
  Token.opensParen a.text

/-- No space is written before the scrap. -/
def isTight (a : Scrap) : Bool :=
  a.text = Token.comma || a.text = Token.closeParen

end Scrap

/-- The text of a row of scraps, after an opening parenthesis or not. -/
def spread (opened : Bool) : List Scrap → Text
  | [] => []
  | a :: rest =>
    (if opened || a.isTight then [] else [' ']) ++ a.text ++ spread a.opens rest

/-- The tokens that a row of scraps is read back as, with their spaces. -/
def spreadTokens (opened : Bool) : List Scrap → List Token
  | [] => []
  | a :: rest =>
    (if opened || a.isTight then [] else [Token.space]) ++ a.reading ++
      spreadTokens a.opens rest

/-- What follows a scrap in a value, unless it opens a call. -/
def endsValue (c : Char) : Bool :=
  c ∈ [' ', ',', ')', ';']

/-- A token that a value is read back as: no space, and nothing
that ends a value or a name. -/
structure IsValueToken (t : Token) : Prop where
  not_space : t ≠ Token.space
  not_colon : t ≠ Token.colon
  not_structural : ¬ t.isStructural

/-- The token begins like a URL. -/
def Token.beginsUrl (t : Token) : Bool :=
  List.isPrefixOf ['u', 'r', 'l', '('] t

/-- The scrap is read back in front of what follows it in a value, and only
a URL is read back as one. -/
structure Scrap.IsLegible (a : Scrap) : Prop where
  reads : Reads (if a.opens then anything else endsValue) a.text a.reading
  tokens : ∀ t ∈ a.tokens, IsValueToken t
  url : ∀ t ∈ a.tokens, t.beginsUrl → ∃ uri, a = .url uri

/-- The scrap is legible, and it is no parenthesis of a call. -/
structure Scrap.IsAtom (a : Scrap) : Prop extends a.IsLegible where
  opens_eq : a.opens = false
  not_close : a.text ≠ Token.closeParen

/-! ## Rows -/

theorem starts_spread {scraps : List Scrap} {rest : Text}
    (hrest : Starts endsValue rest) : Starts endsValue (spread false scraps ++ rest) := by
  cases scraps with
  | nil => exact hrest
  | cons a scraps =>
    rw [spread]
    by_cases htight : a.isTight
    · have htext : a.text = Token.comma ∨ a.text = Token.closeParen := by
        simpa [Scrap.isTight] using htight
      rw [htight]
      rcases htext with h | h
      · rw [h]
        exact starts_cons.mpr (by decide)
      · rw [h]
        exact starts_cons.mpr (by decide)
    · rw [Bool.not_eq_true] at htight
      rw [htight]
      exact starts_cons.mpr (by decide)

/-- A row of legible scraps is read back. -/
theorem reads_spread {scraps : List Scrap} (h : ∀ a ∈ scraps, a.IsLegible) :
    ∀ opened, Reads endsValue (spread opened scraps) (spreadTokens opened scraps) := by
  induction scraps with
  | nil => exact fun _ => reads_nil _
  | cons a scraps ih =>
    intro opened
    have ha := (h a (List.mem_cons_self ..)).reads
    have hscraps := ih fun b hb => h b (List.mem_cons_of_mem _ hb)
    have hbody : Reads endsValue (a.text ++ spread a.opens scraps)
        (a.reading ++ spreadTokens a.opens scraps) := by
      by_cases hopens : a.opens
      · rw [if_pos hopens] at ha
        exact ha.append_of_anything (hscraps _)
      · rw [if_neg hopens] at ha
        rw [Bool.not_eq_true] at hopens
        rw [hopens]
        exact ha.append (hscraps false) fun rest hrest => starts_spread hrest
    rw [spread, spreadTokens, List.append_assoc, List.append_assoc]
    split
    · exact hbody
    · exact (reads_space rfl (by decide)).append_of_anything hbody

theorem filter_spreadTokens {scraps : List Scrap} (h : ∀ a ∈ scraps, a.IsLegible) :
    ∀ opened, (spreadTokens opened scraps).filter (· ≠ Token.space) =
      scraps.flatMap Scrap.tokens := by
  induction scraps with
  | nil => exact fun _ => rfl
  | cons a scraps ih =>
    intro opened
    have hgap : (if opened || a.isTight then ([] : List Token) else [Token.space]).filter
        (· ≠ Token.space) = [] := by
      split <;> rfl
    have htokens : a.tokens.filter (· ≠ Token.space) = a.tokens :=
      List.filter_eq_self.mpr fun t ht =>
        decide_eq_true ((h a (List.mem_cons_self ..)).tokens t ht).not_space
    have hreading : a.reading.filter (· ≠ Token.space) = a.tokens := by
      cases a with
      | line t =>
        rw [show Scrap.reading (.line t) = (Scrap.line t).tokens ++ [Token.space]
          from rfl, List.filter_append, htokens]
        rfl
      | plain t => exact htokens
      | url uri => exact htokens
      | important => exact htokens
    rw [spreadTokens, List.filter_append, List.filter_append, hgap, hreading,
      ih (fun b hb => h b (List.mem_cons_of_mem _ hb)), List.flatMap_cons]
    rfl

theorem mem_spreadTokens {scraps : List Scrap} {t : Token} : ∀ {opened : Bool},
    t ∈ spreadTokens opened scraps → t = Token.space ∨ ∃ a ∈ scraps, t ∈ a.tokens := by
  induction scraps with
  | nil => intro opened h; cases h
  | cons a scraps ih =>
    intro opened h
    rw [spreadTokens, List.mem_append, List.mem_append] at h
    rcases h with (h | h) | h
    · split at h
      · cases h
      · exact .inl (List.mem_singleton.mp h)
    · cases a with
      | line t' =>
        rcases List.mem_cons.mp h with h | h
        · exact .inr ⟨_, List.mem_cons_self .., List.mem_singleton.mpr h⟩
        · exact .inl (List.mem_singleton.mp h)
      | plain t' => exact .inr ⟨_, List.mem_cons_self .., h⟩
      | url uri => exact .inr ⟨_, List.mem_cons_self .., h⟩
      | important => exact .inr ⟨_, List.mem_cons_self .., h⟩
    · rcases ih h with h | ⟨b, hb, h⟩
      · exact .inl h
      · exact .inr ⟨b, List.mem_cons_of_mem _ hb, h⟩

/-! ## Legible scraps -/

theorem endsName_of_endsValue (c : Char) (h : endsValue c) : endsName c :=
  (by decide : ∀ c ∈ [' ', ',', ')', ';'], endsName c) c (of_decide_eq_true h)

theorem endsNumber_of_endsValue (c : Char) (h : endsValue c) : endsNumber c :=
  (by decide : ∀ c ∈ [' ', ',', ')', ';'], endsNumber c) c (of_decide_eq_true h)

theorem opensParen_eq_false {t : Token} (h : '(' ∉ t) : t.opensParen = false := by
  rw [Token.opensParen, decide_eq_false_iff_not]
  intro hlast
  obtain ⟨front, rfl⟩ := List.getLast?_eq_some_iff.mp hlast
  exact h (List.mem_append_right _ (List.mem_singleton.mpr rfl))

/-- What begins like a URL has a parenthesis behind a name. -/
theorem Token.exists_of_beginsUrl {t : Token} (h : t.beginsUrl) :
    ∃ rest, t = 'u' :: 'r' :: 'l' :: '(' :: rest := by
  obtain ⟨rest, rfl⟩ := List.isPrefixOf_iff_prefix.mp h
  exact ⟨rest, rfl⟩

theorem Token.not_beginsUrl {t : Token} (h : '(' ∉ t) : ¬ t.beginsUrl := by
  intro hurl
  obtain ⟨rest, rfl⟩ := Token.exists_of_beginsUrl hurl
  exact h (by simp)

/-- A token by itself, maybe with a newline. -/
theorem isAtom_of_reads {a : Scrap} {t : Token} (htokens : a.tokens = [t])
    (hopens : a.opens = false) (hclose : a.text ≠ Token.closeParen)
    (hreads : Reads endsValue a.text a.reading) (ht : IsValueToken t)
    (hurl : ¬ t.beginsUrl) : a.IsAtom := by
  refine ⟨⟨?_, ?_, ?_⟩, hopens, hclose⟩
  · rw [hopens]
    exact hreads
  · rw [htokens]
    exact List.forall_mem_singleton.mpr ht
  · rw [htokens]
    exact List.forall_mem_singleton.mpr fun h => absurd h hurl

/-- The marks by which values, names and blocks end. -/
def endMarks : List Char :=
  [' ', ':', '\x7b', '\x7d', ';']

/-- A token whose first character is none of the marks that matter. -/
theorem isValueToken_cons {c : Char} {t : Text} (h : c ∉ endMarks) :
    IsValueToken (c :: t) := by
  simp only [endMarks, List.mem_cons, List.not_mem_nil, or_false, not_or] at h
  refine ⟨?_, ?_, ?_⟩
  · rintro heq
    exact h.1 (List.cons.inj heq).1
  · rintro heq
    exact h.2.1 (List.cons.inj heq).1
  · simp [Token.isStructural, Token.openBrace, Token.closeBrace, Token.semicolon, h]

theorem IsBareName.isValueToken {n : Text} (hn : IsBareName n) (t : Text) :
    IsValueToken (n ++ t) := by
  have hmark : ∀ c ∈ n, c ∉ endMarks := by
    intro c hc hmem
    exact absurd (hn.all c hc) ((by decide : ∀ c ∈ endMarks, ¬ isNameChar c) c hmem)
  rcases hn.cases with ⟨c, rest, rfl, -⟩ | ⟨c, rest, rfl, -⟩
  · exact isValueToken_cons (hmark _ (List.mem_cons_self ..))
  · exact isValueToken_cons (hmark _ (List.mem_cons_self ..))

theorem IsBareName.isValueToken_self {n : Text} (hn : IsBareName n) : IsValueToken n := by
  rw [← List.append_nil n]
  exact hn.isValueToken []

theorem IsBareName.not_mem_parens {n : Text} (hn : IsBareName n) :
    ∀ c ∈ ['(', ')'], c ∉ n :=
  fun c hc h => absurd (hn.all _ h) ((by decide : ∀ c ∈ ['(', ')'], ¬ isNameChar c) c hc)

theorem IsBareName.not_paren_mem {n : Text} (hn : IsBareName n) : '(' ∉ n :=
  hn.not_mem_parens _ (by decide)

/-- A token without parentheses by itself. -/
theorem isAtom_plain {t : Token} {follow : Char → Bool}
    (hparens : ∀ c ∈ ['(', ')'], c ∉ t) (hreads : Reads follow t [t])
    (hfollow : ∀ c, endsValue c → follow c) (ht : IsValueToken t) :
    (Scrap.plain t).IsAtom := by
  refine isAtom_of_reads rfl (opensParen_eq_false (hparens _ (by decide))) ?_
    (hreads.mono hfollow) ht (Token.not_beginsUrl (hparens _ (by decide)))
  rintro (rfl : t = Token.closeParen)
  exact hparens ')' (by decide) (List.mem_singleton.mpr rfl)

/-- A token without parentheses and a newline after it. -/
theorem isAtom_line {t : Token} {follow : Char → Bool} (hparens : ∀ c ∈ ['(', ')'], c ∉ t)
    (hreads : Reads follow t [t]) (hline : follow '\n') (ht : IsValueToken t) :
    (Scrap.line t).IsAtom := by
  have hlast : (Scrap.line t).text.getLast? = some '\n' := List.getLast?_concat
  refine isAtom_of_reads rfl ?_ ?_ ?_ ht (Token.not_beginsUrl (hparens _ (by decide)))
  · rw [Scrap.opens, Token.opensParen, hlast]
    decide
  · intro hclose
    rw [hclose] at hlast
    exact absurd hlast (by decide)
  · exact (hreads.append_cons (reads_space (by decide) (by decide)) hline).mono
      fun _ _ => rfl

theorem isAtom_name {n : Text} (hn : IsBareName n) : (Scrap.plain n).IsAtom :=
  isAtom_plain hn.not_mem_parens (reads_name hn) endsName_of_endsValue
    hn.isValueToken_self

theorem isAtom_nameLine {n : Text} (hn : IsBareName n) : (Scrap.line n).IsAtom :=
  isAtom_line hn.not_mem_parens (reads_name hn) (by decide) hn.isValueToken_self

theorem IsNumeral.isValueToken {t : Text} (h : IsNumeral t) : IsValueToken t := by
  obtain ⟨digits, unit, rfl, hdigits, -⟩ := h
  obtain ⟨c, rest, rfl, hc, -⟩ := (beginsNumber_of_accepts hdigits).exists_cons
  refine isValueToken_cons fun hmem => ?_
  rcases hc with hc | hc
  · exact absurd hc ((by decide : ∀ c ∈ endMarks, ¬ isDecimal c) c hmem)
  · exact (by decide : ∀ c ∈ endMarks, ¬ (c = '.' ∨ c = '+' ∨ c = '-')) c hmem hc

/-- Digits, the marks of numbers and units are all there is in a number. -/
theorem IsNumeral.not_mem {t : Text} (h : IsNumeral t) {c : Char}
    (hdecimal : ¬ isDecimal c) (hmark : c ∉ numberMarks) (hpercent : c ≠ '%')
    (hsmall : ¬ isSmall c) : c ∉ t := by
  obtain ⟨digits, unit, rfl, hdigits, hunit⟩ := h
  obtain ⟨s, hrun, -⟩ := (accepts_iff _ _).mp hdigits
  intro hmem
  rcases List.mem_append.mp hmem with hmem | hmem
  · exact (isDecimal_or_mem_of_run hrun _ hmem).elim hdecimal hmark
  · rcases Bool.or_eq_true_iff.mp hunit with hunit | hall
    · rw [of_decide_eq_true hunit] at hmem
      exact hpercent (List.mem_singleton.mp hmem)
    · exact hsmall (List.all_eq_true.mp hall _ hmem)

theorem IsNumeral.not_mem_parens {t : Text} (h : IsNumeral t) :
    ∀ c ∈ ['(', ')'], c ∉ t := by
  have hclass : ∀ c ∈ ['(', ')'], ¬ isDecimal c ∧ c ∉ numberMarks ∧ c ≠ '%' ∧
      ¬ isSmall c := by
    decide
  intro c hc
  obtain ⟨hdecimal, hmark, hpercent, hsmall⟩ := hclass c hc
  exact h.not_mem hdecimal hmark hpercent hsmall

theorem isAtom_numeral {t : Text} (h : IsNumeral t) : (Scrap.plain t).IsAtom :=
  isAtom_plain h.not_mem_parens (reads_numeral h) endsNumber_of_endsValue h.isValueToken

theorem isAtom_numeralLine {t : Text} (h : IsNumeral t) : (Scrap.line t).IsAtom :=
  isAtom_line h.not_mem_parens (reads_numeral h) (by decide) h.isValueToken

theorem isAtom_sign {c : Char} (hc : c ∈ valueSigns) : (Scrap.plain [c]).IsAtom := by
  have hclass : ∀ c ∈ valueSigns, c ∈ loneChars ∧
      (∀ d ∈ [' ', ',', ')', ';'], endsLone c d) ∧
      (∀ d ∈ ['(', ')'], d ∉ [c]) ∧ c ∉ endMarks := by
    decide
  obtain ⟨hlone, hends, hparens, hmark⟩ := hclass c hc
  exact isAtom_plain hparens (reads_lone hlone)
    (fun d hd => hends d (of_decide_eq_true hd)) (isValueToken_cons hmark)

theorem isAtom_hash {n : Text} (hall : ∀ c ∈ n, isNameChar c) (hne : n ≠ []) :
    (Scrap.plain ('#' :: n)).IsAtom := by
  refine isAtom_plain (fun c hc h => ?_) (reads_hash hall hne) endsName_of_endsValue
    (isValueToken_cons (by decide))
  have hclass : ∀ c ∈ ['(', ')'], c ≠ '#' ∧ ¬ isNameChar c := by decide
  rcases List.mem_cons.mp h with h | h
  · exact (hclass c hc).1 h
  · exact (hclass c hc).2 (hall _ h)

theorem isAtom_quote {s : Text} (h : '\x00' ∉ s) : (Scrap.plain (quote s)).IsAtom := by
  refine isAtom_of_reads rfl ?_ ?_ ((reads_quote h).mono fun _ _ => rfl)
    (isValueToken_cons (by decide)) ?_
  · rw [Scrap.opens, Token.opensParen, decide_eq_false_iff_not]
    show ('"' :: escapeString s ++ ['"']).getLast? ≠ some '('
    rw [List.getLast?_concat]
    decide
  · intro hclose
    cases (List.cons.inj hclose).1
  · intro hurl
    obtain ⟨rest, heq⟩ := Token.exists_of_beginsUrl hurl
    cases (List.cons.inj heq).1

theorem isLegible_call {n : Text} (hn : IsBareName n)
    (hurl : n.map Char.toLower ≠ ['u', 'r', 'l']) :
    (Scrap.plain (n ++ ['('])).IsLegible := by
  refine ⟨?_, List.forall_mem_singleton.mpr (hn.isValueToken ['(']),
    List.forall_mem_singleton.mpr fun h => ?_⟩
  · have hopens : (Scrap.plain (n ++ ['('])).opens = true := by
      rw [Scrap.opens, Token.opensParen, Scrap.text, List.getLast?_concat]
      decide
    rw [hopens, if_pos rfl]
    exact reads_call hn hurl
  · -- the first parenthesis stands behind the name
    obtain ⟨rest, heq⟩ := Token.exists_of_beginsUrl h
    have hmark : ∀ c ∈ n, decide (c ≠ '(') = true := by
      intro c hc
      refine decide_eq_true ?_
      rintro rfl
      exact hn.not_paren_mem hc
    have hname : (n ++ ['(']).takeWhile (· ≠ '(') = n := by
      rw [List.takeWhile_append_of_pos hmark]
      exact List.append_nil n
    rw [heq] at hname
    exact absurd (by rw [← hname]; rfl) hurl

theorem isLegible_closeParen : (Scrap.plain Token.closeParen).IsLegible := by
  refine ⟨?_, List.forall_mem_singleton.mpr (isValueToken_cons (by decide)),
    List.forall_mem_singleton.mpr fun h => absurd h (by decide)⟩
  exact (reads_mark (by decide) (by decide)).mono fun _ _ => rfl

theorem isAtom_important : Scrap.important.IsAtom := by
  have hname : IsBareName "important".toList := isBareName_of_isPlainIdent (by decide)
  refine ⟨⟨?_, ?_, fun t ht hurl => ?_⟩, by decide, by decide⟩
  · exact (reads_mark (c := '!') (by decide) (by decide)).append_of_anything
      ((reads_name hname).mono endsName_of_endsValue)
  · exact List.forall_mem_cons.mpr ⟨isValueToken_cons (by decide),
      List.forall_mem_singleton.mpr (isValueToken_cons (by decide))⟩
  · exact absurd hurl ((by decide : ∀ t ∈ Scrap.important.tokens, ¬ t.beginsUrl) t ht)

theorem isAtom_url {uri : Text} (h : ∀ c ∈ uri, ¬ Url.isSpecial c) :
    (Scrap.url uri).IsAtom := by
  have hreads := reads_url (Url.isStringBody_of_not_isSpecial h) fun c hc =>
    Url.isClean_of_not_isSpecial (h c hc)
  have hquoted : "url(\"".toList ++ uri ++ "\")".toList = (Scrap.url uri).text := by
    simp [Scrap.text]
  rw [Url.decode_of_not_isSpecial h, hquoted] at hreads
  have hopens : (Scrap.url uri).opens = false := by
    have htext : (Scrap.url uri).text =
        ['u', 'r', 'l', '(', '"'] ++ uri ++ ['"'] ++ [')'] := by
      rw [List.append_assoc]
      rfl
    rw [Scrap.opens, Token.opensParen, decide_eq_false_iff_not, htext,
      List.getLast?_concat]
    decide
  refine ⟨⟨?_, List.forall_mem_singleton.mpr (isValueToken_cons (by decide)),
    fun _ _ _ => ⟨uri, rfl⟩⟩, hopens, fun hclose => ?_⟩
  · rw [hopens]
    exact hreads.mono fun _ _ => rfl
  · cases (List.cons.inj hclose).1

end CssGuard
