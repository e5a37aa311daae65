import CssGuard.Automaton
import CssGuard.Escape
import CssGuard.Text.Blank

/-!
# Lexemes

A style sheet is cut into lexemes: white space, comments, strings, names, numbers and so
on, each the longest piece of its kind, the kinds tried in a fixed order. A character that
begins nothing else is a lexeme by itself, so every text is cut completely.

- `Lexeme`: a piece of a text and what it was recognized as
- `Lexeme.first?`: the lexeme at the beginning of a text, and the rest
- `lexemes`: all lexemes of a text (`_TOKEN_PATTERN`)
- `splits_first?`, `flatMap_text_lexemes`: nothing is lost
-/

namespace CssGuard

open Text

/-- What a piece of a text was recognized as, with the parts that matter later. -/
inductive Lexeme.Kind where
  /-- White space, a comment, or a mark that hides style sheets from old readers. -/
  | blank
  /-- A comment that runs to the end. -/
  | openComment
  /-- A string and what stands between its quotes. -/
  | string (body : Text)
  /-- A string that its line does not end. -/
  | openString
  /-- A URL and its target, as written. -/
  | url (target : Text)
  /-- A range of code points. -/
  | codeRange
  /-- A number and its unit, empty if it has none. -/
  | number (digits unit : Text)
  /-- An at-sign and a name. -/
  | atKeyword (name : Text)
  /-- A number sign and a name. -/
  | hash (name : Text)
  /-- A name and the parenthesis that follows it. -/
  | call (name : Text)
  /-- A name. -/
  | name (name : Text)
  /-- An operator of an attribute selector. -/
  | operator
  /-- Any other character. -/
  | delimiter (c : Char)
deriving DecidableEq

/-- A piece of a text and what it was recognized as. -/
structure Lexeme where
  kind : Lexeme.Kind
  text : Text
deriving DecidableEq

/-! ## Automata for the pieces -/

/-- What has been read of a comment after its opening. -/
inductive CommentState where
  | inside
  | star
  | closed
deriving DecidableEq

/-- The rest of a comment after its opening, up to the first closing. -/
def commentEnd : Automaton CommentState where
  start := .inside
  step
    | .inside, c => some (if c = '*' then .star else .inside)
    | .star, c => some (if c = '/' then .closed else if c = '*' then .star else .inside)
    | .closed, _ => none
  final s := s = .closed

/-- What has been read of a run of characters and escapes. -/
inductive RunState where
  | plain
  | backslash
  | digits (count : Nat)
deriving DecidableEq

/-- A run of characters that satisfy `p` and of escapes. -/
def escapedRun (p : Char → Bool) : Automaton RunState where
  start := .plain
  step
    | .plain, c => plain c
    | .backslash, c =>
      if isHexDigit c then some (.digits 1) else if isNewline c then none else some .plain
    | .digits count, c =>
      if isHexDigit c ∧ count < 6 then some (.digits (count + 1))
      else if isSpace c then some .plain
      else plain c
  final s := s ≠ .backslash
where
  /-- Reads a character where no escape is open. -/
  plain (c : Char) : Option RunState :=
    if p c then some .plain else if c = '\\' then some .backslash else none

/-- A run of name characters and escapes. -/
def nameRun : Automaton RunState :=
  escapedRun isNameChar

/-- A character that can stand in a URL without quotes. -/
def isUrlChar (c : Char) : Bool :=
  !(isBlank c || c = '"' || c = '\'' || c = '(' || c = ')' || c = '\\' || c.toNat < 0x20
    || c = '\x7f')

/-- A run of URL characters and escapes. -/
def urlRun : Automaton RunState :=
  escapedRun isUrlChar

/-- The inside of a string; a backslash takes any character with it, a line break too. -/
def stringBody (mark : Char) : Automaton Bool where
  start := false
  step
    | true, _ => some false
    | false, c =>
      if c = '\\' then some true else if c = mark ∨ isNewline c then none else some false
  final escaping := !escaping

/-- What has been read of a number. -/
inductive NumberState where
  | start
  | sign
  | whole
  | wholePoint
  | point
  | fraction
  | exponentMark
  | exponentSign
  | exponent
deriving DecidableEq

/-- A number: sign, digits, a point only before digits, and an exponent after
one of the given letters. -/
def numberWith (isMark : Char → Bool) : Automaton NumberState where
  start := .start
  step
    | .start, c =>
      if isDecimal c then some .whole
      else if c = '.' then some .point
      else if c = '+' ∨ c = '-' then some .sign
      else none
    | .sign, c =>
      if isDecimal c then some .whole else if c = '.' then some .point else none
    | .whole, c =>
      if isDecimal c then some .whole else if c = '.' then some .wholePoint else mark c
    | .wholePoint, c | .point, c => if isDecimal c then some .fraction else none
    | .fraction, c => if isDecimal c then some .fraction else mark c
    | .exponentMark, c =>
      if isDecimal c then some .exponent
      else if c = '+' ∨ c = '-' then some .exponentSign
      else none
    | .exponentSign, c | .exponent, c => if isDecimal c then some .exponent else none
  final s := s = .whole || s = .fraction || s = .exponent
where
  /-- Reads the letter that begins an exponent. -/
  mark (c : Char) : Option NumberState :=
    if isMark c then some .exponentMark else none

/-- A number as it stands in a style sheet. -/
def number : Automaton NumberState :=
  numberWith fun c => c = 'e' || c = 'E'

/-! ## Pieces -/

namespace Lexeme

/-- An identifier and the rest: maybe a hyphen, then a run of name characters and escapes
that begins with neither a digit nor a hyphen. -/
def ident? (t : Text) : Option (Text × Text) :=
  match t with
  | '-' :: rest => (word? rest).map fun (w, rest) => ('-' :: w, rest)
  | _ => word? t
where
  /-- The run after the hyphen. -/
  word? (t : Text) : Option (Text × Text) :=
    match t with
    | c :: _ =>
      if isNameStart c ∨ c = '\\' then (nameRun.longest? t).filter
        fun (w, _) => !w.isEmpty
      else none
    | [] => none

/-- White space. -/
def space? (t : Text) : Option (Lexeme × Text) :=
  if (t.takeWhile isSpace).isEmpty then none
  else some (⟨.blank, t.takeWhile isSpace⟩, t.dropWhile isSpace)

/-- A comment, which runs to the end of the text when it is not closed. -/
def comment? : Text → Option (Lexeme × Text)
  | '/' :: '*' :: rest =>
    match commentEnd.longest? rest with
    | some (body, after) => some (⟨.blank, '/' :: '*' :: body⟩, after)
    | none => some (⟨.openComment, '/' :: '*' :: rest⟩, [])
  | _ => none

/-- One of the two marks that hide style sheets from old readers. -/
def mark? : Text → Option (Lexeme × Text)
  | '<' :: '!' :: '-' :: '-' :: rest => some (⟨.blank, "<!--"⟩, rest)
  | '-' :: '-' :: '>' :: rest => some (⟨.blank, "-->"⟩, rest)
  | _ => none

/-- What stands after an opening quote: the inside of the string, and
the rest if it is closed. -/
def closedBody? (mark : Char) (t : Text) : Option (Text × Text) :=
  match (stringBody mark).longest? t with
  | some (body, c :: after) => if c = mark then some (body, after) else none
  | _ => none

/-- A string, which ends before a line break when it is not closed. -/
def string? : Text → Option (Lexeme × Text)
  | [] => none
  | c :: rest =>
    if c = '"' ∨ c = '\'' then
      match (stringBody c).longest? rest with
      | none => none
      | some (body, after) =>
        match after with
        | [] => some (⟨.openString, c :: body⟩, [])
        | d :: after =>
          if d = c then some (⟨.string body, c :: body ++ [c]⟩, after)
          else some (⟨.openString, c :: body⟩, d :: after)
    else none

/-- The target of a URL: a string or a run of URL characters. Gives the source
text, the target and the rest. -/
def target? (t : Text) : Option (Text × Text × Text) :=
  match t with
  | [] => some ([], [], [])
  | c :: rest =>
    if c = '"' ∨ c = '\'' then
      (closedBody? c rest).map fun (body, after) => (c :: body ++ [c], body, after)
    else (urlRun.longest? t).map fun (target, after) => (target, target, after)

/-- A URL: its name in any case, and in parentheses the target
with white space around it. -/
def url? : Text → Option (Lexeme × Text)
  | u :: r :: l :: '(' :: rest =>
    if u.toLower = 'u' ∧ r.toLower = 'r' ∧ l.toLower = 'l' then
      let spaces := rest.takeWhile isSpace
      (target? (rest.dropWhile isSpace)).bind fun (source, target, after) =>
        match after.dropWhile isSpace with
        | ')' :: after' =>
          some (⟨.url target,
            u :: r :: l :: '(' :: spaces ++ source ++ after.takeWhile isSpace ++
              [')']⟩, after')
        | _ => none
    else none
  | _ => none

/-- At most `n` characters that satisfy `p`, and the rest. -/
def atMost (p : Char → Bool) : Nat → Text → Text × Text
  | 0, t => ([], t)
  | _, [] => ([], [])
  | n + 1, c :: rest =>
    if p c then (c :: (atMost p n rest).1, (atMost p n rest).2) else ([], c :: rest)

/-- A range of code points: one end, in which question marks stand for any
digit, and maybe a second one. -/
def codeRange? : Text → Option (Lexeme × Text)
  | u :: '+' :: rest =>
    if u.toLower = 'u' then
      let (low, after) := atMost (fun c => isHexDigit c || c = '?') 6 rest
      if low.isEmpty then none
      else
        match after with
        | '-' :: rest' =>
          let (high, after') := atMost isHexDigit 6 rest'
          if high.isEmpty then some (⟨.codeRange, u :: '+' :: low⟩, after)
          else some (⟨.codeRange, u :: '+' :: low ++ '-' :: high⟩, after')
        | _ => some (⟨.codeRange, u :: '+' :: low⟩, after)
    else none
  | _ => none

/-- A number with its unit: a percent sign or an identifier. -/
def number? (t : Text) : Option (Lexeme × Text) :=
  (number.longest? t).map fun (digits, rest) =>
    match rest with
    | '%' :: after => (⟨.number digits ['%'], digits ++ ['%']⟩, after)
    | _ =>
      match ident? rest with
      | some (unit, after) => (⟨.number digits unit, digits ++ unit⟩, after)
      | none => (⟨.number digits [], digits⟩, rest)

/-- An at-sign and a name. -/
def atKeyword? : Text → Option (Lexeme × Text)
  | '@' :: rest =>
    (ident? rest).map fun (name, after) => (⟨.atKeyword name, '@' :: name⟩, after)
  | _ => none

/-- A number sign and a run of name characters and escapes. -/
def hash? : Text → Option (Lexeme × Text)
  | '#' :: rest =>
    ((nameRun.longest? rest).filter fun (name, _) => !name.isEmpty).map
      fun (name, after) =>
      (⟨.hash name, '#' :: name⟩, after)
  | _ => none

/-- A name, together with a parenthesis that follows it. -/
def word? (t : Text) : Option (Lexeme × Text) :=
  (ident? t).map fun (name, rest) =>
    match rest with
    | '(' :: after => (⟨.call name, name ++ ['(']⟩, after)
    | _ => (⟨.name name, name⟩, rest)

/-- An operator of an attribute selector, of those with two characters. -/
def operator? : Text → Option (Lexeme × Text)
  | c :: '=' :: rest =>
    if c = '~' ∨ c = '|' ∨ c = '^' ∨ c = '$' ∨ c = '*' then
      some (⟨.operator, [c, '=']⟩, rest)
    else none
  | _ => none

/-- A character by itself. -/
def delimiter? : Text → Option (Lexeme × Text)
  | c :: rest => some (⟨.delimiter c, [c]⟩, rest)
  | [] => none

/-- The lexeme at the beginning of a text, and the rest. -/
def first? (t : Text) : Option (Lexeme × Text) :=
  space? t <|> comment? t <|> mark? t <|> string? t <|> url? t <|> codeRange?
    t <|> number? t <|> atKeyword? t <|> hash? t <|> word? t <|> operator? t <|>
    delimiter? t

/-! ## Nothing is lost -/

/-- A reader takes a non-empty beginning of the text off it. -/
def Splits (read : Text → Option (Lexeme × Text)) : Prop :=
  ∀ ⦃t l rest⦄, read t = some (l, rest) → l.text ++ rest = t ∧ l.text ≠ []

theorem Splits.orElse {f g : Text → Option (Lexeme × Text)} (hf : Splits f)
    (hg : Splits g) : Splits fun t => f t <|> g t := by
  intro t l rest h
  cases hft : f t with
  | some found => exact hf (by simpa [hft] using h)
  | none => exact hg (by simpa [hft] using h)

theorem append_of_ident? {t w r : Text} (h : ident? t = some (w, r)) :
    w ++ r = t ∧ w ≠ [] := by
  have hword : ∀ {t w r : Text}, ident?.word? t = some (w, r) → w ++ r = t ∧ w ≠ [] := by
    intro t w r h
    unfold ident?.word? at h
    split at h
    · split at h
      · simp only [Option.filter_eq_some_iff] at h
        exact ⟨nameRun.append_of_longest? h.1, by simpa using h.2⟩
      · cases h
    · cases h
  unfold ident? at h
  split at h
  · simp only [Option.map_eq_some_iff, Prod.exists, Prod.mk.injEq] at h
    obtain ⟨w', r', hw, rfl, rfl⟩ := h
    simp [(hword hw).1]
  · exact hword h

theorem splits_space? : Splits space? := by
  intro t l rest h
  unfold space? at h
  split at h
  · cases h
  · cases h; simp_all [List.takeWhile_append_dropWhile]

theorem splits_comment? : Splits comment? := by
  intro t l rest h
  unfold comment? at h
  split at h
  · split at h
    · rename_i hbody
      cases h
      simp [commentEnd.append_of_longest? hbody]
    · cases h; simp
  · cases h

theorem splits_mark? : Splits mark? := by
  intro t l rest h
  unfold mark? at h
  split at h <;> cases h <;> simp

theorem splits_string? : Splits string? := by
  intro t l rest h
  unfold string? at h
  split at h
  · cases h
  · split at h
    · split at h
      · cases h
      · rename_i hbody
        have happ := (stringBody _).append_of_longest? hbody
        split at h
        · cases h; simpa using happ
        · split at h
          · rename_i heq
            cases h; simp_all
          · cases h; simp_all
    · cases h

theorem append_of_closedBody? {mark : Char} {t body after : Text}
    (h : closedBody? mark t = some (body, after)) : body ++ mark :: after = t := by
  unfold closedBody? at h
  split at h
  · rename_i hbody
    split at h
    · rename_i heq
      cases h; subst heq
      exact (stringBody _).append_of_longest? hbody
    · cases h
  · cases h

theorem append_of_target? {t source target after : Text}
    (h : target? t = some (source, target, after)) : source ++ after = t := by
  unfold target? at h
  split at h
  · cases h; rfl
  · split at h
    · simp only [Option.map_eq_some_iff, Prod.exists, Prod.mk.injEq] at h
      obtain ⟨body, after', hbody, rfl, rfl, rfl⟩ := h
      simp [append_of_closedBody? hbody]
    · simp only [Option.map_eq_some_iff, Prod.exists, Prod.mk.injEq] at h
      obtain ⟨body, after', hbody, rfl, rfl, rfl⟩ := h
      exact urlRun.append_of_longest? hbody

theorem splits_url? : Splits url? := by
  intro t l rest h
  unfold url? at h
  split at h
  · split at h
    · simp only [Option.bind_eq_some_iff, Prod.exists] at h
      obtain ⟨source, target, after, htarget, h⟩ := h
      split at h
      · rename_i after' hafter
        cases h
        have h₁ := append_of_target? htarget
        have h₂ := List.takeWhile_append_dropWhile (p := isSpace) (l := after)
        simp_all
      · cases h
    · cases h
  · cases h

theorem append_atMost (p : Char → Bool) (n : Nat) (t : Text) :
    (atMost p n t).1 ++ (atMost p n t).2 = t := by
  fun_induction atMost p n t <;> simp_all

theorem splits_codeRange? : Splits codeRange? := by
  intro t l rest h
  unfold codeRange? at h
  split at h
  · rename_i u body
    split at h
    · have hlow := append_atMost (fun c => isHexDigit c || c = '?') 6 body
      revert h hlow
      generalize atMost (fun c => isHexDigit c || c = '?') 6 body = found
      obtain ⟨low, after⟩ := found
      intro h hlow
      dsimp only at h hlow
      split at h
      · cases h
      · split at h
        · rename_i body'
          have hhigh := append_atMost isHexDigit 6 body'
          revert h hhigh
          generalize atMost isHexDigit 6 body' = found
          obtain ⟨high, after'⟩ := found
          intro h hhigh
          dsimp only at h hhigh
          split at h <;> cases h <;> simp_all
        · cases h; simp_all
    · cases h
  · cases h

theorem splits_number? : Splits number? := by
  intro t l rest h
  simp only [number?, Option.map_eq_some_iff, Prod.exists] at h
  obtain ⟨digits, after, hdigits, h⟩ := h
  have happ := number.append_of_longest? hdigits
  have hne : digits ≠ [] := by
    rintro rfl
    exact absurd (number.accepts_of_longest? hdigits) (by decide)
  split at h
  · cases h; simp_all
  · split at h
    · rename_i hunit
      cases h
      simp [(append_of_ident? hunit).1, happ, hne]
    · cases h; exact ⟨happ, hne⟩

theorem splits_atKeyword? : Splits atKeyword? := by
  intro t l rest h
  unfold atKeyword? at h
  split at h
  · simp only [Option.map_eq_some_iff, Prod.exists, Prod.mk.injEq] at h
    obtain ⟨name, after, hname, rfl, rfl⟩ := h
    simp [(append_of_ident? hname).1]
  · cases h

theorem splits_hash? : Splits hash? := by
  intro t l rest h
  unfold hash? at h
  split at h
  · simp only [Option.map_eq_some_iff, Option.filter_eq_some_iff, Prod.exists,
      Prod.mk.injEq] at h
    obtain ⟨name, after, ⟨hname, -⟩, rfl, rfl⟩ := h
    simp [nameRun.append_of_longest? hname]
  · cases h

theorem splits_word? : Splits word? := by
  intro t l rest h
  simp only [word?, Option.map_eq_some_iff, Prod.exists] at h
  obtain ⟨name, after, hname, h⟩ := h
  have happ := append_of_ident? hname
  split at h <;> cases h <;> simp_all

theorem splits_operator? : Splits operator? := by
  intro t l rest h
  unfold operator? at h
  split at h
  · split at h <;> cases h
    simp
  · cases h

theorem splits_delimiter? : Splits delimiter? := by
  intro t l rest h
  unfold delimiter? at h
  split at h <;> cases h
  simp

/-- The first lexeme is a non-empty beginning of the text. -/
theorem splits_first? : Splits first? :=
  splits_space?.orElse <| splits_comment?.orElse <| splits_mark?.orElse <|
    splits_string?.orElse <| splits_url?.orElse <| splits_codeRange?.orElse <|
      splits_number?.orElse <|
    splits_atKeyword?.orElse <| splits_hash?.orElse <| splits_word?.orElse <|
    splits_operator?.orElse splits_delimiter?

theorem length_lt_of_first? {t rest : Text} {l : Lexeme} (h : first? t = some (l, rest)) :
    rest.length < t.length := by
  obtain ⟨happ, hne⟩ := splits_first? h
  have := List.length_pos_iff.2 hne
  rw [← happ, List.length_append]
  omega

/-- The lexemes of a text, after those already found (backwards). -/
def allFrom (found : List Lexeme) (t : Text) : List Lexeme :=
  match h : first? t with
  | none => found.reverse
  | some (l, rest) =>
    have := length_lt_of_first? h
    allFrom (l :: found) rest
termination_by t.length

end Lexeme

/-- All lexemes of a text, in order. -/
def lexemes (t : Text) : List Lexeme :=
  Lexeme.allFrom [] t

theorem Lexeme.allFrom_eq (found : List Lexeme) (t : Text) :
    allFrom found t = found.reverse ++ lexemes t := by
  have key : ∀ n, ∀ t : Text, t.length < n → ∀ found more : List Lexeme,
      allFrom (more ++ found) t = found.reverse ++ allFrom more t := by
    intro n
    induction n with
    | zero => intro t ht; omega
    | succ n ih =>
      intro t ht found more
      rw [allFrom, allFrom]
      split
      · simp
      · rename_i l rest hfirst
        have := length_lt_of_first? hfirst
        exact ih rest (by omega) found (l :: more)
  simpa [lexemes] using key (t.length + 1) t (by omega) found []

theorem lexemes_of_first?_none {t : Text} (h : Lexeme.first? t = none) :
    lexemes t = [] := by
  rw [lexemes, Lexeme.allFrom]
  split
  · rfl
  · simp_all

theorem lexemes_of_first? {t rest : Text} {l : Lexeme}
    (h : Lexeme.first? t = some (l, rest)) : lexemes t = l :: lexemes rest := by
  rw [lexemes, Lexeme.allFrom]
  split
  · simp_all
  · simp_all [Lexeme.allFrom_eq]

theorem Lexeme.first?_isSome {t : Text} (h : t ≠ []) : (first? t).isSome := by
  cases t with
  | nil => exact absurd rfl h
  | cons c rest => simp [first?, delimiter?]

/-- The lexemes of a text make it up. -/
theorem flatMap_text_lexemes (t : Text) : (lexemes t).flatMap Lexeme.text = t := by
  have key : ∀ n, ∀ t : Text, t.length < n → (lexemes t).flatMap Lexeme.text = t := by
    intro n
    induction n with
    | zero => intro t ht; omega
    | succ n ih =>
      intro t ht
      cases hfirst : Lexeme.first? t with
      | none =>
        cases t with
        | nil => simp [lexemes_of_first?_none hfirst]
        | cons c rest =>
          exact absurd (Lexeme.first?_isSome (List.cons_ne_nil c rest)) (by simp [hfirst])
      | some found =>
        obtain ⟨l, rest⟩ := found
        have := Lexeme.length_lt_of_first? hfirst
        rw [lexemes_of_first? hfirst, List.flatMap_cons, ih rest (by omega)]
        exact (Lexeme.splits_first? hfirst).1
  exact key (t.length + 1) t (by omega)

end CssGuard
