import CssGuard.Proofs.Escape
import CssGuard.Proofs.Lexer.Readers

/-!
# Tokens are read back

Each kind of token that is written is read back as itself, in front of any
character that does not extend it.

- `reads_lone`, `reads_operator`: single characters and operators
- `IsSpelling`, `IsSpelling.reads_name`, `IsSpelling.reads_call`: names with their escapes
- `IsBareName`, `reads_name`, `reads_call`, `reads_hash`: names without escapes
- `reads_string`, `reads_url`: what stands between double quotes
- `reads_quote`, `reads_urlQuote`: strings and URLs in their normal form
-/

namespace CssGuard

open Text Lexeme
open scoped Text.ByCharacter

/-! ## Single characters -/

/-- The characters that are written as tokens of their own. -/
def loneChars : List Char :=
  ['!', '(', ')', '*', '+', ',', '-', '.', '/', ':', ';', '=', '>', '[', ']', '\x7b',
    '\x7d', '~']

/-- The character `d` after the lone character `c` is not read together with it. -/
def endsLone (c d : Char) : Bool :=
  if c = '*' || c = '~' then d ≠ '='
  else if c = '+' then !(isDecimal d || d = '.')
  else if c = '-' then !(isDecimal d || d = '.' || isNameStart d || d = '\\' || d = '-')
  else if c = '.' then !isDecimal d
  else if c = '/' then d ≠ '*'
  else true

theorem not_starts_of_head {follow : Char → Bool} {d : Char} {t : Text}
    (h : Starts follow t) (hd : follow d = false) : t.head? ≠ some d := by
  intro heq
  have := h d heq
  rw [hd] at this
  cases this

theorem passesEarly_lone {c : Char} {rest : Text} (hc : c ∈ loneChars)
    (hrest : Starts (endsLone c) rest) : PassesEarly (c :: rest) := by
  have hclass : ∀ c ∈ loneChars, ¬ isSpace c ∧ c ≠ '<' ∧ (c ≠ '"' ∧ c ≠ '\'') ∧
      c.toLower ≠ 'u' := by
    decide
  obtain ⟨hspace, hless, hquote, hu⟩ := hclass c hc
  refine ⟨space?_eq_none hspace, comment?_eq_none ?_, mark?_eq_none hless ?_,
    string?_eq_none hquote, url?_eq_none_of_head hu, codeRange?_eq_none_of_head hu⟩
  · rintro rfl
    exact not_starts_of_head hrest (by decide)
  · rintro rfl
    exact not_starts_of_head hrest (by decide)

theorem stuck_lone {c : Char} {rest : Text} (hc : c ∈ loneChars)
    (hrest : Starts (endsLone c) rest) : number.Stuck .start (c :: rest) := by
  have hdecimal : ∀ c ∈ loneChars, ¬ isDecimal c := by decide
  -- only a point or a sign can begin a number, and then a digit or point has to follow
  have hnext : ∀ d ∈ rest.head?, c = '.' ∨ c = '+' ∨ c = '-' →
      ¬ isDecimal d ∧ (c ≠ '.' → d ≠ '.') := by
    rintro d hd (rfl | rfl | rfl)
    · exact ⟨by simpa [endsLone] using hrest d hd, fun h => absurd rfl h⟩
    · have := hrest d hd
      simp only [endsLone] at this
      simp_all
    · have := hrest d hd
      simp only [endsLone] at this
      simp_all
  intro s hs
  rcases NumberState.cases_of_step hs with
    ⟨hdigit, -⟩ | ⟨hpoint, hs⟩ | ⟨hsign, hs⟩ | ⟨-, hs, -⟩
  · exact absurd hdigit (hdecimal c hc)
  · obtain rfl : s = .point := hs.elim (·.2) nofun
    refine ⟨by decide, ?_⟩
    cases rest with
    | nil => trivial
    | cons d rest =>
      exact number.stuck_of_step_eq_none (if_neg (hnext d rfl (.inl hpoint)).1)
  · obtain rfl : s = .sign := hs.elim (·.2) nofun
    refine ⟨by decide, ?_⟩
    cases rest with
    | nil => trivial
    | cons d rest =>
      obtain ⟨hd, hd'⟩ := hnext d rfl (.inr hsign)
      have hpoint : c ≠ '.' := by
        rintro rfl
        exact hsign.elim nofun nofun
      exact number.stuck_of_step_eq_none (NumberState.step_sign_eq_none hd (hd' hpoint))
  · exact hs.elim nofun nofun

theorem beginsNoIdent_lone {c : Char} {rest : Text} (hc : c ∈ loneChars)
    (hrest : Starts (endsLone c) rest) : BeginsNoIdent (c :: rest) := by
  have hclass : ∀ c ∈ loneChars, ¬ isNameStart c ∧ c ≠ '\\' := by decide
  unfold BeginsNoIdent
  split
  · rename_i d _ heq
    cases heq
    have := hrest d rfl
    simp only [endsLone] at this
    simp_all
  · rename_i heq
    cases heq
    exact hclass c hc
  · trivial

/-- A lone character is read back as itself. -/
theorem reads_lone {c : Char} (hc : c ∈ loneChars) : Reads (endsLone c) [c] [[c]] := by
  have hclass : ∀ c ∈ loneChars, c ≠ '@' ∧ c ≠ '#' ∧ c ∈ punctuation ∧ isClean c ∧
      (c ∈ ['~', '|', '^', '$', '*'] → endsLone c '=' = false) := by
    decide
  obtain ⟨hat, hhash, hpunctuation, hclean, hoperator⟩ := hclass c hc
  refine reads_of_first? (l := ⟨.delimiter c, [c]⟩) (fun rest hrest => ?_)
    (if_pos hpunctuation) (fun p => if_pos hpunctuation)
      (fun d hd => List.mem_singleton.mp hd ▸ hclean)
  rw [List.singleton_append, first?_of_passesEarly (passesEarly_lone hc hrest),
    number?_eq_none (stuck_lone hc hrest), atKeyword?_eq_none hat, hash?_eq_none hhash,
    word?_eq_none (beginsNoIdent_lone hc hrest), operator?_eq_none fun h hmem =>
      not_starts_of_head hrest (hoperator hmem) h]
  rfl

/-- Most characters are read back whatever follows. -/
theorem reads_mark {c : Char} (hc : c ∈ loneChars)
    (h : c ∉ ['*', '~', '+', '-', '.', '/']) : Reads anything [c] [[c]] := by
  refine (reads_lone hc).mono fun d _ => ?_
  simp only [List.mem_cons, List.not_mem_nil, or_false, not_or] at h
  simp [endsLone, h]

/-- The operators of two characters are read back whatever follows. -/
theorem reads_operator {c : Char} (hc : c ∈ ['~', '|', '^', '$', '*']) :
    Reads anything [c, '='] [[c, '=']] := by
  have hclass : ∀ c ∈ ['~', '|', '^', '$', '*'], ¬ isSpace c ∧ c ≠ '/' ∧
      c ≠ '<' ∧ c ≠ '-' ∧
      (c ≠ '"' ∧ c ≠ '\'') ∧ c.toLower ≠ 'u' ∧ number.step .start c = none ∧
      c ≠ '@' ∧ c ≠ '#' ∧ (¬ isNameStart c ∧ c ≠ '\\') ∧ isClean c := by
    decide
  obtain ⟨hspace, hslash, hless, hdash, hquote, hu, hstep, hat, hhash, hname, hclean⟩ :=
    hclass c hc
  refine reads_of_first? (l := ⟨.operator, [c, '=']⟩) (fun rest _ => ?_) rfl
    (fun p => rfl) ?_
  · have hearly : PassesEarly (c :: '=' :: rest) :=
      ⟨space?_eq_none hspace, comment?_eq_none fun h => absurd h hslash,
        mark?_eq_none hless fun h => absurd h hdash, string?_eq_none hquote,
        url?_eq_none_of_head hu, codeRange?_eq_none_of_head hu⟩
    rw [List.cons_append, List.singleton_append, first?_of_passesEarly hearly,
      number?_eq_none (number.stuck_of_step_eq_none hstep), atKeyword?_eq_none hat,
      hash?_eq_none hhash, word?_eq_none (beginsNoIdent_cons hdash hname _),
      operator?, if_pos]
    · rfl
    · simpa using hc
  · intro d hd
    rcases List.mem_cons.mp hd with rfl | hd
    · exact hclean
    · rw [List.mem_singleton.mp hd]
      decide

/-! ## Names -/

/-- A character that begins a name, or an escape in its place. A digit begins a number. -/
def beginsWord (c : Char) : Bool :=
  isNameStart c && !isDigit c || c = '\\'

/-- The text begins like a name, maybe with a hyphen. -/
def BeginsIdent : Text → Prop
  | '-' :: c :: _ => beginsWord c
  | c :: _ => beginsWord c
  | [] => False

/-- A name as it is written, with or without escapes, none of which is open at its end. -/
structure IsSpelling (n : Text) : Prop where
  run : nameRun.run .plain n = some .plain
  begins : BeginsIdent n
  clean : ∀ c ∈ n, isClean c

theorem ne_of_isNameStart {c d : Char} (h : isNameStart c) (hd : ¬ isNameStart d) :
    c ≠ d := by
  rintro rfl
  exact hd h

theorem ne_of_isNameChar {c d : Char} (h : isNameChar c) (hd : ¬ isNameChar d) :
    c ≠ d := by
  rintro rfl
  exact hd h

theorem ne_of_beginsWord {c d : Char} (h : beginsWord c) (hd : ¬ beginsWord d) :
    c ≠ d := by
  rintro rfl
  exact hd h

/-- A name character is kept when a text is cleaned, and it is no white space. -/
theorem isClean_of_isNameChar {c : Char} (h : isNameChar c) :
    isClean c ∧ ¬ isSpace c := by
  have hne : ∀ d ∈ ['\r', '\x0c', '\x00', ' ', '\t', '\n'], c ≠ d := fun d hd =>
    ne_of_isNameChar h ((by decide : ∀ d ∈ ['\r', '\x0c', '\x00', ' ', '\t', '\n'],
      ¬ isNameChar d) d hd)
  simp only [List.forall_mem_cons, List.not_mem_nil, false_implies, implies_true,
    and_true] at hne
  simp [isClean, isSpace, hne]

theorem isNameChar_of_isNameStart {c : Char} (h : isNameStart c) : isNameChar c := by
  simp [isNameChar, h]

theorem beginsWord_iff {c : Char} :
    beginsWord c ↔ (isNameStart c ∧ ¬ isDigit c) ∨ c = '\\' := by
  simp [beginsWord]

/-- What begins a name is no white space and begins no number. -/
theorem not_isSpace_of_beginsWord {c : Char} (h : beginsWord c) :
    ¬ isSpace c ∧ ¬ isDecimal c := by
  rcases beginsWord_iff.mp h with ⟨hstart, hdigit⟩ | rfl
  · exact ⟨(isClean_of_isNameChar (isNameChar_of_isNameStart hstart)).2,
      fun hc => hdigit (isDigit_of_isDecimal hc)⟩
  · decide

theorem BeginsIdent.cases {t : Text} (h : BeginsIdent t) :
    (∃ c u, t = c :: u ∧ beginsWord c) ∨ (∃ c u, t = '-' :: c :: u ∧ beginsWord c) := by
  unfold BeginsIdent at h
  split at h
  · exact .inr ⟨_, _, rfl, h⟩
  · exact .inl ⟨_, _, rfl, h⟩
  · cases h

theorem beginsIdent_cons {c : Char} (h : beginsWord c) (t : Text) :
    BeginsIdent (c :: t) := by
  unfold BeginsIdent
  split
  · rename_i heq
    cases heq
    exact absurd h (by decide)
  · rename_i heq
    cases heq
    exact h
  · rename_i heq
    cases heq

theorem BeginsIdent.append {t : Text} (h : BeginsIdent t) (u : Text) :
    BeginsIdent (t ++ u) := by
  rcases h.cases with ⟨c, t, rfl, hc⟩ | ⟨c, t, rfl, hc⟩
  · exact beginsIdent_cons hc _
  · exact hc

/-- Up to the word, nothing is read from what begins like a name. -/
theorem first?_ident {t : Text} {found : Lexeme × Text} (h : BeginsIdent t)
    (hurl : url? t = none) (hrange : codeRange? t = none) (hword : word? t = some found) :
    first? t = some found := by
  rcases h.cases with ⟨c, u, rfl, hc⟩ | ⟨c, u, rfl, hc⟩
  · -- no other kind begins with such a character
    obtain ⟨hspace, hdecimal⟩ := not_isSpace_of_beginsWord hc
    have hne : ∀ d, ¬ beginsWord d → c ≠ d := fun d hd => ne_of_beginsWord hc hd
    have hstep : number.step .start c = none :=
      NumberState.step_start_eq_none hdecimal (hne _ (by decide))
        fun h => h.elim (hne _ (by decide)) (hne _ (by decide))
    have hearly : PassesEarly (c :: u) :=
      ⟨space?_eq_none hspace, comment?_eq_none fun h => absurd h (hne _ (by decide)),
        mark?_eq_none (hne _ (by decide)) fun h => absurd h (hne _ (by decide)),
        string?_eq_none ⟨hne _ (by decide), hne _ (by decide)⟩, hurl, hrange⟩
    exact first?_eq_word? hearly (number?_eq_none (number.stuck_of_step_eq_none hstep))
      (atKeyword?_eq_none (hne _ (by decide))) (hash?_eq_none (hne _ (by decide))) hword
  · -- a hyphen could also begin a mark or a number, but not before such a character
    have hne : ∀ d, ¬ beginsWord d → c ≠ d := fun d hd => ne_of_beginsWord hc hd
    have hstuck : number.Stuck .start ('-' :: c :: u) := by
      rintro s ⟨⟩
      exact ⟨by decide, number.stuck_of_step_eq_none
        (NumberState.step_sign_eq_none (not_isSpace_of_beginsWord hc).2
          (hne _ (by decide)))⟩
    have hearly : PassesEarly ('-' :: c :: u) :=
      ⟨space?_eq_none (by decide), comment?_eq_none fun h => absurd h (by decide),
        mark?_eq_none (by decide) fun _ h => hne _ (by decide) (Option.some.inj h),
        string?_eq_none (by decide), hurl, hrange⟩
    exact first?_eq_word? hearly (number?_eq_none hstuck) (atKeyword?_eq_none (by decide))
      (hash?_eq_none (by decide)) hword

/-- What ends a run of name characters. -/
def endsRun (c : Char) : Bool :=
  !(isNameChar c || c = '\\')

theorem longest?_nameRun {n rest : Text} (hn : nameRun.run .plain n = some .plain)
    (hrest : Starts endsRun rest) : nameRun.longest? (n ++ rest) = some (n, rest) := by
  refine nameRun.longest?_append hn rfl ?_
  cases rest with
  | nil => trivial
  | cons c rest =>
    have hc := starts_cons.mp hrest
    simp only [endsRun, Bool.not_eq_true', Bool.or_eq_false_iff,
      decide_eq_false_iff_not] at hc
    refine nameRun.stuck_of_step_eq_none ?_
    show (if isNameChar c then some RunState.plain else if c = '\\' then some .backslash
      else none) = none
    rw [hc.1, if_neg Bool.false_ne_true, if_neg hc.2]

theorem ident?_append {n rest : Text} (hn : IsSpelling n) (hrest : Starts endsRun rest) :
    ident? (n ++ rest) = some (n, rest) := by
  have hword : ∀ {c : Char} {t : Text}, beginsWord c →
      nameRun.run .plain (c :: t) = some .plain →
      ident?.word? (c :: t ++ rest) = some (c :: t, rest) := by
    intro c t hc hrun
    rw [List.cons_append, ident?.word?, if_pos ((beginsWord_iff.mp hc).imp And.left id),
      ← List.cons_append, longest?_nameRun hrun hrest]
    rfl
  rcases hn.begins.cases with ⟨c, t, rfl, hc⟩ | ⟨c, t, rfl, hc⟩
  · unfold ident?
    split
    · rename_i heq
      cases heq
      exact absurd hc (by decide)
    · exact hword hc hn.run
  · show (ident?.word? (c :: t ++ rest)).map _ = _
    -- the hyphen is a name character, so the run goes on as it began
    rw [hword hc hn.run]
    rfl

/-- A run is made of name characters, or the first other one begins an escape. -/
theorem all_or_head?_dropWhile {n : Text} {s : RunState}
    (h : nameRun.run .plain n = some s) :
    (∀ c ∈ n, isNameChar c) ∨ ∀ rest, ((n ++ rest).dropWhile isNameChar).head? =
      some '\\' := by
  induction n with
  | nil => exact .inl fun c hc => by cases hc
  | cons c n ih =>
    obtain ⟨s₁, hstep, hrun⟩ := Option.bind_eq_some_iff.mp h
    rw [show nameRun.step .plain c = if isNameChar c then some .plain
      else if c = '\\' then
      some .backslash else none from rfl] at hstep
    by_cases hc : isNameChar c
    · rw [if_pos hc] at hstep
      cases hstep
      rcases ih hrun with hall | hhead
      · exact .inl (List.forall_mem_cons.mpr ⟨hc, hall⟩)
      · refine .inr fun rest => ?_
        rw [List.cons_append, List.dropWhile_cons, if_pos hc]
        exact hhead rest
    · rw [if_neg hc] at hstep
      refine .inr fun rest => ?_
      rw [List.cons_append, List.dropWhile_cons, if_neg hc]
      split at hstep
      · rename_i hslash
        rw [hslash]
        rfl
      · cases hstep

theorem takeWhile_name {n rest : Text} (hn : ∀ c ∈ n, isNameChar c)
    (hrest : Starts endsRun rest) :
    (n ++ rest).takeWhile isNameChar = n ∧ (n ++ rest).dropWhile isNameChar = rest := by
  induction n with
  | nil =>
    cases rest with
    | nil => exact ⟨rfl, rfl⟩
    | cons c rest =>
      have hc := starts_cons.mp hrest
      simp only [endsRun, Bool.not_eq_true', Bool.or_eq_false_iff] at hc
      rw [List.nil_append, List.takeWhile_cons, List.dropWhile_cons, hc.1]
      exact ⟨rfl, rfl⟩
  | cons c n ih =>
    have hc := hn c (List.mem_cons_self ..)
    obtain ⟨htake, hdrop⟩ := ih fun d hd => hn d (List.mem_cons_of_mem _ hd)
    rw [List.cons_append, List.takeWhile_cons, List.dropWhile_cons, if_pos hc,
      if_pos hc, htake, hdrop]
    exact ⟨rfl, rfl⟩

/-- A name begins no URL, unless it is the name for one and a parenthesis follows. -/
theorem url?_name {n rest : Text} (hn : IsSpelling n) (hrest : Starts endsRun rest)
    (hurl : n.map Char.toLower = ['u', 'r', 'l'] → rest.head? ≠ some '(') :
    url? (n ++ rest) = none := by
  refine url?_eq_none ?_
  rintro ⟨htake, hdrop⟩
  rcases all_or_head?_dropWhile hn.run with hall | hhead
  · obtain ⟨htake', hdrop'⟩ := takeWhile_name hall hrest
    rw [htake'] at htake
    rw [hdrop'] at hdrop
    exact hurl htake hdrop
  · rw [hhead rest] at hdrop
    cases hdrop

theorem codeRange?_name {n rest : Text} (hn : IsSpelling n) (hrest : Starts endsRun rest)
    (hplus : rest.head? ≠ some '+') : codeRange? (n ++ rest) = none := by
  refine codeRange?_eq_none ?_
  rcases all_or_head?_dropWhile hn.run with hall | hhead
  · rw [(takeWhile_name hall hrest).2]
    exact hplus
  · rw [hhead rest]
    decide

/-- What ends a name. -/
def endsName (c : Char) : Bool :=
  endsRun c && c ≠ '(' && c ≠ '+'

theorem starts_endsRun {rest : Text} (h : Starts endsName rest) : Starts endsRun rest :=
  h.mono fun _ hc => (Bool.and_eq_true_iff.mp (Bool.and_eq_true_iff.mp hc).1).1

/-- What begins with a mark that no other kind of lexeme before names begins with. -/
theorem passesEarly_mark {c : Char} (hc : c = '@' ∨ c = '#') (t : Text) :
    PassesEarly (c :: t) := by
  rcases hc with rfl | rfl
  all_goals exact ⟨space?_eq_none (by decide), comment?_eq_none
    fun h => absurd h (by decide), mark?_eq_none (by decide)
      fun h => absurd h (by decide), string?_eq_none (by decide),
    url?_eq_none_of_head (by decide), codeRange?_eq_none_of_head (by decide)⟩

namespace IsSpelling

variable {n : Text} (hn : IsSpelling n)

include hn

/-- A name is the first lexeme of a text, where it opens no call and
begins no range of code points. -/
theorem first?_name {rest : Text} (hrest : Starts endsRun rest)
    (hparen : rest.head? ≠ some '(') (hrange : codeRange? (n ++ rest) = none) :
    first? (n ++ rest) = some (⟨.name n, n⟩, rest) := by
  refine first?_ident (hn.begins.append rest) (url?_name hn hrest
    fun _ => hparen) hrange ?_
  rw [word?, ident?_append hn hrest, Option.map_some]
  dsimp only
  split
  · exact absurd rfl hparen
  · rfl

/-- A name is read back decoded and escaped anew, where it
begins no range of code points. -/
theorem reads_name_of {follow : Char → Bool}
    (hfollow : ∀ c, follow c → endsRun c ∧ c ≠ '(')
    (hrange : ∀ rest, Starts follow rest → codeRange? (n ++ rest) = none) :
    Reads follow n [Escape.escapeIdent (Escape.decode n)] := by
  refine reads_of_first? (l := ⟨.name n, n⟩) (fun rest hrest => ?_) rfl
    (fun p => rfl) hn.clean
  have hrun : Starts endsRun rest := hrest.mono fun c hc => (hfollow c hc).1
  exact hn.first?_name hrun (fun h => (hfollow _ (hrest _ h)).2 rfl) (hrange rest hrest)

/-- A name is read back decoded and escaped anew. -/
theorem reads_name : Reads endsName n [Escape.escapeIdent (Escape.decode n)] := by
  refine hn.reads_name_of (fun c hc => ?_) fun rest hrest => ?_
  · obtain ⟨⟨hrun, hparen⟩, -⟩ :=
      (Bool.and_eq_true_iff.mp hc).imp_left Bool.and_eq_true_iff.mp
    exact ⟨hrun, of_decide_eq_true hparen⟩
  · exact codeRange?_name hn (starts_endsRun hrest) (not_starts_of_head hrest (by decide))

/-- The opening of a call is read back, where it opens no URL. -/
theorem reads_call {follow : Char → Bool}
    (hurl : ∀ rest, Starts follow rest → url? (n ++ '(' :: rest) = none) :
    Reads follow (n ++ ['(']) [Escape.escapeIdent (Escape.decode n) ++ ['(']] := by
  refine reads_of_first? (l := ⟨.call n, n ++ ['(']⟩) (fun rest hrest => ?_) rfl
    (fun p => rfl) ?_
  · have hrun : Starts endsRun ('(' :: rest) := starts_cons.mpr (by decide)
    rw [List.append_assoc, List.singleton_append]
    refine first?_ident (hn.begins.append _) (hurl rest hrest) (codeRange?_name hn hrun
      (by simp)) ?_
    rw [word?, ident?_append hn hrun]
    rfl
  · intro c hc
    rcases List.mem_append.mp hc with hc | hc
    · exact hn.clean c hc
    · rw [List.mem_singleton.mp hc]
      decide

/-- An at-sign and a name are read back as one token. -/
theorem reads_atKeyword :
    Reads endsName ('@' :: n) ['@' :: Escape.escapeIdent (Escape.decode n)] := by
  refine reads_of_first? (l := ⟨.atKeyword n, '@' :: n⟩) (fun rest hrest => ?_) rfl
    (fun p => rfl) (List.forall_mem_cons.mpr ⟨by decide, hn.clean⟩)
  rw [List.cons_append, first?_of_passesEarly (passesEarly_mark (.inl rfl) _),
    number?_eq_none (number.stuck_of_step_eq_none (by decide)), atKeyword?,
    ident?_append hn (starts_endsRun hrest)]
  rfl

end IsSpelling

/-- A number sign and a run of name characters and escapes are read back as one token. -/
theorem reads_hashRun {n : Text} (hrun : nameRun.run .plain n = some .plain)
    (hne : n ≠ []) (hclean : ∀ c ∈ n, isClean c) :
    Reads endsName ('#' :: n) ['#' :: Escape.escapeName (Escape.decode n)] := by
  refine reads_of_first? (l := ⟨.hash n, '#' :: n⟩) (fun rest hrest => ?_) rfl
    (fun p => rfl) (List.forall_mem_cons.mpr ⟨by decide, hclean⟩)
  rw [List.cons_append, first?_of_passesEarly (passesEarly_mark (.inr rfl) _),
    number?_eq_none (number.stuck_of_step_eq_none (by decide)),
    atKeyword?_eq_none (by decide), hash?, longest?_nameRun hrun (starts_endsRun hrest),
    Option.filter_some, if_pos]
  · rfl
  · simpa using hne

/-! ## Names without escapes -/

/-- The text begins like a name: with a character that is no
digit, maybe after a hyphen. -/
def BeginsName : Text → Prop
  | '-' :: c :: _ => isNameStart c ∧ ¬ isDigit c
  | c :: _ => isNameStart c ∧ ¬ isDigit c
  | [] => False

/-- A name that is written without escapes. -/
structure IsBareName (n : Text) : Prop where
  all : ∀ c ∈ n, isNameChar c
  begins : BeginsName n

theorem IsBareName.not_newline_mem {n : Text} (h : IsBareName n) : '\n' ∉ n :=
  fun hmem => absurd (h.all _ hmem) (by decide)

theorem IsBareName.cases {n : Text} (h : IsBareName n) :
    (∃ c t, n = c :: t ∧ isNameStart c ∧ ¬ isDigit c) ∨
    (∃ c t, n = '-' :: c :: t ∧ isNameStart c ∧ ¬ isDigit c) := by
  have hbegins := h.begins
  unfold BeginsName at hbegins
  split at hbegins
  · exact .inr ⟨_, _, rfl, hbegins⟩
  · exact .inl ⟨_, _, rfl, hbegins⟩
  · cases hbegins

theorem beginsName_cons {c : Char} (h : isNameStart c ∧ ¬ isDigit c) (t : Text) :
    BeginsName (c :: t) := by
  unfold BeginsName
  split
  · rename_i heq
    cases heq
    exact absurd h.1 (by decide)
  · rename_i heq
    cases heq
    exact h
  · rename_i heq
    cases heq

theorem BeginsName.append {t : Text} (h : BeginsName t) (u : Text) :
    BeginsName (t ++ u) := by
  unfold BeginsName at h
  split at h
  · exact h
  · exact beginsName_cons h _
  · cases h

/-- A text of name characters leads to no open escape. -/
theorem run_nameRun {n : Text} (h : ∀ c ∈ n, isNameChar c) :
    nameRun.run .plain n = some .plain := by
  induction n with
  | nil => rfl
  | cons c n ih =>
    have hstep : nameRun.step .plain c = some .plain :=
      if_pos (h c (List.mem_cons_self ..))
    rw [Automaton.run, hstep]
    exact ih fun d hd => h d (List.mem_cons_of_mem _ hd)

theorem IsBareName.isSpelling {n : Text} (hn : IsBareName n) : IsSpelling n where
  run := run_nameRun hn.all
  begins := by
    rcases hn.cases with ⟨c, t, rfl, hc⟩ | ⟨c, t, rfl, hc⟩
    · exact beginsIdent_cons (beginsWord_iff.mpr (.inl hc)) t
    · exact beginsWord_iff.mpr (.inl hc)
  clean c hc := (isClean_of_isNameChar (hn.all c hc)).1

theorem IsBareName.noLeadingDigit {n : Text} (hn : IsBareName n) :
    Escape.NoLeadingDigit n := by
  have hbegins := hn.begins
  unfold BeginsName at hbegins
  split at hbegins
  · exact hbegins.2
  · rename_i c t hne
    rw [Escape.NoLeadingDigit]
    · exact hbegins.2
    · exact hne
  · trivial

theorem IsBareName.escapeIdent_eq {n : Text} (hn : IsBareName n) :
    Escape.escapeIdent n = n :=
  Escape.escapeIdent_eq_self hn.all hn.noLeadingDigit

theorem decode_name {n : Text} (hn : ∀ c ∈ n, isNameChar c) : Escape.decode n = n :=
  Escape.decode_eq_self fun h => absurd (hn _ h) (by decide)

/-- A name is read back as itself. -/
theorem reads_name {n : Text} (hn : IsBareName n) : Reads endsName n [n] := by
  have hreads := hn.isSpelling.reads_name
  rwa [decode_name hn.all, hn.escapeIdent_eq] at hreads

/-- The opening of a call is read back as itself, unless it is the name for a URL. -/
theorem reads_call {n : Text} (hn : IsBareName n)
    (hurl : n.map Char.toLower ≠ ['u', 'r', 'l']) :
    Reads anything (n ++ ['(']) [n ++ ['(']] := by
  have hreads : Reads anything (n ++ ['(']) _ := hn.isSpelling.reads_call fun rest _ =>
    url?_name hn.isSpelling (starts_cons.mpr (by decide)) fun h => absurd h hurl
  rwa [decode_name hn.all, hn.escapeIdent_eq] at hreads

/-- A number sign and a run of name characters are read back as one token. -/
theorem reads_hash {n : Text} (hall : ∀ c ∈ n, isNameChar c) (hne : n ≠ []) :
    Reads endsName ('#' :: n) ['#' :: n] := by
  have hreads := reads_hashRun (run_nameRun hall) hne fun c hc =>
    (isClean_of_isNameChar (hall c hc)).1
  rwa [decode_name hall, Escape.escapeName_eq_self hall] at hreads

/-- An at-sign and a name are read back as one token. -/
theorem reads_atKeyword {n : Text} (hn : IsBareName n) :
    Reads endsName ('@' :: n) ['@' :: n] := by
  have hreads := hn.isSpelling.reads_atKeyword
  rwa [decode_name hn.all, hn.escapeIdent_eq] at hreads

/-- An identifier in plain characters is written without escapes. -/
theorem isBareName_of_isPlainIdent {n : Text} (h : isPlainIdent n) : IsBareName n := by
  have hbegins : ∀ {c : Char}, (isLetter c || c = '_') → isNameStart c ∧ ¬ isDigit c := by
    intro c hc
    have hascii := ascii_of_isPlainNameChar (isPlainNameChar_of_begins hc)
    rw [isDigit_eq_of_ascii hascii]
    exact forall_ascii (fun c => (isLetter c || c = '_') → isNameStart c ∧
      ¬ isPlainDigit c) (by decide) hascii hc
  refine ⟨fun c hc => isNameChar_of_isPlainNameChar (all_of_isPlainIdent h c hc), ?_⟩
  rcases isPlainIdent_cases h with ⟨c, rest, rfl, hc, -⟩ | ⟨c, rest, rfl, hc, -⟩
  · exact beginsName_cons (hbegins hc) rest
  · exact hbegins hc

/-! ## Between quotes -/

/-- The text can stand between double quotes as it is. -/
def IsStringBody (b : Text) : Prop :=
  (stringBody '"').run false b = some false

theorem IsStringBody.append {b b' : Text} (h : IsStringBody b) (h' : IsStringBody b') :
    IsStringBody (b ++ b') := by
  rw [IsStringBody, Automaton.run_append, h]
  exact h'

theorem isStringBody_flatMap {t : Text} {f : Char → Text}
    (h : ∀ c ∈ t, IsStringBody (f c)) : IsStringBody (t.flatMap f) := by
  induction t with
  | nil => rfl
  | cons c t ih =>
    rw [List.flatMap_cons]
    exact (h c (List.mem_cons_self ..)).append (ih
      fun d hd => h d (List.mem_cons_of_mem _ hd))

theorem isStringBody_singleton {c : Char} (hc : c ≠ '\\' ∧ c ≠ '"' ∧ ¬ isNewline c) :
    IsStringBody [c] := by
  have hstep : (stringBody '"').step false c = some false := by
    show (if c = '\\' then some true else if c = '"' ∨ isNewline c then none
      else some false) = _
    rw [if_neg hc.1, if_neg]
    rintro (h | h)
    · exact hc.2.1 h
    · exact hc.2.2 h
  rw [IsStringBody, Automaton.run, hstep]
  rfl

/-- An escaped text can stand between double quotes. -/
theorem isStringBody_escapeString (t : Text) : IsStringBody (Escape.escapeString t) := by
  refine isStringBody_flatMap fun c _ => ?_
  by_cases hc : Escape.isStringSpecial c
  · rw [if_pos hc]
    exact forall_ascii (fun c => (stringBody '"').run false (Escape.hexEscape c) =
      some false) (by decide) (Escape.ascii_of_isStringSpecial hc)
  · rw [if_neg hc]
    refine isStringBody_singleton ⟨?_, ?_, ?_⟩
    · rintro rfl
      exact hc rfl
    · rintro rfl
      exact hc rfl
    · intro hnewline
      simp only [isNewline, Bool.or_eq_true, decide_eq_true_eq] at hnewline
      rcases hnewline with (rfl | rfl) | rfl
      all_goals exact hc rfl

theorem isClean_of_ge {c : Char} (h : 0x20 ≤ c.toNat) : isClean c := by
  have hne : ∀ d ∈ ['\r', '\x0c', '\x00'], c ≠ d := by
    rintro d hd rfl
    have : ∀ d ∈ ['\r', '\x0c', '\x00'], d.toNat < 0x20 := by decide
    have := this c hd
    omega
  simp only [List.forall_mem_cons, List.not_mem_nil, false_implies, implies_true,
    and_true] at hne
  simp [isClean, hne]

theorem isClean_escapeString (t : Text) : ∀ c ∈ Escape.escapeString t, isClean c := by
  intro c hc
  obtain ⟨d, -, hd⟩ := List.mem_flatMap.mp hc
  split at hd
  · rcases Escape.mem_hexEscape hd with rfl | h | rfl
    · decide
    · exact (isClean_of_isNameChar (isNameChar_of_isPlainNameChar
        (Escape.isPlainNameChar_of_isHexDigit h))).1
    · decide
  · rename_i hspecial
    rw [List.mem_singleton.mp hd]
    refine isClean_of_ge ?_
    simp only [Escape.isStringSpecial, Bool.or_eq_true, decide_eq_true_eq,
      not_or] at hspecial
    omega

theorem longest?_stringBody {b rest : Text} (hb : IsStringBody b) :
    (stringBody '"').longest? (b ++ '"' :: rest) = some (b, '"' :: rest) :=
  (stringBody '"').longest?_append hb rfl (Automaton.stuck_of_step_eq_none _ rfl)

theorem closedBody?_append {b rest : Text} (hb : IsStringBody b) :
    closedBody? '"' (b ++ '"' :: rest) = some (b, rest) := by
  rw [closedBody?, longest?_stringBody hb]
  rfl

/-- What stands between double quotes is read back decoded and escaped anew. -/
theorem reads_string {b : Text} (hb : IsStringBody b) (hclean : ∀ c ∈ b, isClean c) :
    Reads anything ('"' :: b ++ ['"']) [Escape.quote (Escape.decode b)] := by
  refine reads_of_first? (l := ⟨.string b, '"' :: b ++ ['"']⟩) (fun rest _ => ?_) rfl
    (fun p => rfl) ?_
  · have hstring : string? ('"' :: (b ++ '"' :: rest)) =
        some (⟨.string b, '"' :: b ++ ['"']⟩, rest) := by
      rw [string?, if_pos (.inl rfl), longest?_stringBody hb]
      rfl
    rw [List.append_assoc, List.singleton_append, List.cons_append, first?,
      space?_eq_none (by decide), comment?_eq_none fun h => absurd h (by decide),
      mark?_eq_none (by decide) fun h => absurd h (by decide), hstring]
    rfl
  · intro c hc
    rcases List.mem_append.mp hc with hc | hc
    · rcases List.mem_cons.mp hc with rfl | hc
      · decide
      · exact hclean c hc
    · rw [List.mem_singleton.mp hc]
      decide

/-- A string token is read back as itself. -/
theorem reads_quote {t : Text} (h : '\x00' ∉ t) :
    Reads anything (Escape.quote t) [Escape.quote t] := by
  have := reads_string (isStringBody_escapeString t) (isClean_escapeString t)
  rwa [Escape.decode_escapeString h] at this

/-- A URL with a string inside is read back with the string decoded and escaped anew. -/
theorem reads_url {b : Text} (hb : IsStringBody b) (hclean : ∀ c ∈ b, isClean c) :
    Reads anything ("url(\"" ++ b ++ "\")")
      ["url(" ++ Escape.quote (Escape.decode b) ++ ")"] := by
  refine reads_of_first? (l := ⟨.url b, "url(\"" ++ b ++ "\")"⟩) (fun rest _ => ?_) rfl
    (fun p => rfl) ?_
  · have htarget : target? ('"' :: (b ++ '"' :: ')' :: rest)) =
        some ('"' :: b ++ ['"'], b, ')' :: rest) := by
      rw [target?, if_pos (.inl rfl), closedBody?_append hb]
      rfl
    have hurl : url? ('u' :: 'r' :: 'l' :: '(' :: '"' :: (b ++ '"' :: ')' :: rest)) =
        some (⟨.url b, "url(\"" ++ b ++ "\")"⟩, rest) := by
      rw [url?, if_pos (by decide), List.takeWhile_cons, if_neg (by decide),
        List.dropWhile_cons, if_neg (by decide), htarget]
      simp [isSpace]
    have hsplit : "url(\"".toList ++ b ++ "\")".toList ++ rest =
        'u' :: 'r' :: 'l' :: '(' :: '"' :: (b ++ '"' :: ')' :: rest) := by
      simp
    rw [hsplit, first?, space?_eq_none (by decide), comment?_eq_none
      fun h => absurd h (by decide), mark?_eq_none (by decide)
        fun h => absurd h (by decide), string?_eq_none (by decide), hurl]
    rfl
  · intro c hc
    rcases List.mem_append.mp hc with hc | hc
    · rcases List.mem_append.mp hc with hc | hc
      · exact (by decide : ∀ c ∈ "url(\"".toList, isClean c) c hc
      · exact hclean c hc
    · exact (by decide : ∀ c ∈ "\")".toList, isClean c) c hc

/-- A URL token is read back as itself. -/
theorem reads_urlQuote {t : Text} (h : '\x00' ∉ t) :
    Reads anything ("url(" ++ Escape.quote t ++ ")") ["url(" ++
      Escape.quote t ++ ")"] := by
  have hreads := reads_url (isStringBody_escapeString t) (isClean_escapeString t)
  have htext : "url(\"".toList ++ Escape.escapeString t ++ "\")".toList =
      "url(".toList ++ Escape.quote t ++ ")".toList := by
    simp [Escape.quote]
  rwa [Escape.decode_escapeString h, htext] at hreads

end CssGuard
