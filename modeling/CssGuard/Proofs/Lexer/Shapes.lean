import CssGuard.Proofs.Lexer.Numerals
import CssGuard.Proofs.Text.Lower

/-!
# The shapes of tokens

Which texts can be tokens. A token is the normal form of a lexeme, and what is known of
the lexeme by its kind says which characters the token can have.

- `IsRange`, `IsNamed`: what stands in ranges of code points and in names
- `Shape`: the texts of the kinds of tokens
- `shape_of_mem_lex`: every token has one of them
- `Shape.cases_of_mem`, `Shape.quoted_of_mem`: tokens with unusual characters in them
- `exists_number_of_newline`: only a number has a newline in it
-/

namespace CssGuard

open Text Lexeme
open scoped Text.ByCharacter

/-! ## What the readers give -/

/-- A character of a range of code points. -/
def isRangeChar (c : Char) : Bool :=
  isHexDigit c || c = '?' || c = '-'

/-- One end of a range of code points, of the given digits. -/
structure IsRangeEnd (p : Char → Bool) (t : Text) : Prop where
  ne_nil : t ≠ []
  length_le : t.length ≤ 6
  all : ∀ c ∈ t, p c

/-- What follows the plus sign of a range of code points: one end, in which question marks
stand for any digit, and maybe another one. -/
inductive IsRange : Text → Prop where
  | single {low : Text} (hlow : IsRangeEnd (fun c => isHexDigit c || c = '?') low) :
    IsRange low
  | pair {low high : Text} (hlow : IsRangeEnd (fun c => isHexDigit c || c = '?') low)
      (hhigh : IsRangeEnd isHexDigit high) : IsRange (low ++ '-' :: high)

theorem IsRange.all {t : Text} (h : IsRange t) : ∀ c ∈ t, isRangeChar c := by
  have hlow : ∀ {low : Text}, IsRangeEnd (fun c => isHexDigit c || c = '?') low →
      ∀ c ∈ low, isRangeChar c :=
    fun h c hc => Bool.or_eq_true_iff.mpr (.inl (h.all c hc))
  cases h with
  | single h => exact hlow h
  | pair h hhigh =>
    intro c hc
    rcases List.mem_append.mp hc with hc | hc
    · exact hlow h c hc
    · rcases List.mem_cons.mp hc with rfl | hc
      · rfl
      · simp only [isRangeChar, hhigh.all c hc, Bool.true_or]

/-- A text that a name can stand for. -/
structure IsNamed (s : Text) : Prop where
  ne_nil : s ≠ []
  not_nul : '\x00' ∉ s

/-- What is known of a lexeme read from a text, by its kind. -/
def Lexeme.Fits (t : Text) (l : Lexeme) : Prop :=
  match l.kind with
  | .string body => body ⊆ t
  | .url target => target ⊆ t
  | .codeRange => ∃ u rest, l.text = u :: '+' :: rest ∧ u.toLower = 'u' ∧ IsRange rest
  | .number digits _ => number.accepts digits
  | .atKeyword name | .hash name | .call name | .name name =>
    name ⊆ t ∧ Escape.decode name ≠ []
  | .operator => ∃ c ∈ ['~', '|', '^', '$', '*'], l.text = [c, '=']
  | _ => True

/-- What a reader gives fits the text it was read from. -/
def Lexeme.Fitting (read : Text → Option (Lexeme × Text)) : Prop :=
  ∀ ⦃t l rest⦄, read t = some (l, rest) → l.Fits t

theorem Lexeme.Fitting.orElse {f g : Text → Option (Lexeme × Text)} (hf : Fitting f)
    (hg : Fitting g) : Fitting fun t => f t <|> g t := by
  intro t l rest h
  cases hft : f t with
  | some found => exact hf (by simpa [hft] using h)
  | none => exact hg (by simpa [hft] using h)

theorem fitting_space? : Fitting space? := by
  intro t l rest h
  unfold space? at h
  split at h
  · cases h
  · cases h
    trivial

theorem fitting_comment? : Fitting comment? := by
  intro t l rest h
  unfold comment? at h
  split at h
  · split at h
    · cases h
      trivial
    · cases h
      trivial
  · cases h

theorem fitting_mark? : Fitting mark? := by
  intro t l rest h
  unfold mark? at h
  split at h <;> cases h <;> trivial

theorem fitting_string? : Fitting string? := by
  intro t l rest h
  unfold string? at h
  split at h
  · cases h
  · split at h
    · split at h
      · cases h
      · rename_i body after hbody
        have happ := (stringBody _).append_of_longest? hbody
        split at h
        · cases h
          trivial
        · split at h
          · cases h
            show body ⊆ _
            rw [← happ]
            exact fun c hc => List.mem_cons_of_mem _ (List.mem_append_left _ hc)
          · cases h
            trivial
    · cases h

theorem subset_of_target? {t source target after : Text}
    (h : target? t = some (source, target, after)) : target ⊆ t := by
  unfold target? at h
  split at h
  · cases h
    exact List.Subset.refl _
  · split at h
    · obtain ⟨⟨body, after'⟩, hbody, heq⟩ := Option.map_eq_some_iff.mp h
      cases heq
      rw [← append_of_closedBody? hbody]
      exact fun c hc => List.mem_cons_of_mem _ (List.mem_append_left _ hc)
    · obtain ⟨⟨run, after'⟩, hrun, heq⟩ := Option.map_eq_some_iff.mp h
      cases heq
      rw [← urlRun.append_of_longest? hrun]
      exact List.subset_append_left _ _

theorem fitting_url? : Fitting url? := by
  intro t l rest h
  unfold url? at h
  split at h
  · rename_i body
    split at h
    · obtain ⟨⟨source, target, after⟩, htarget, h⟩ := Option.bind_eq_some_iff.mp h
      dsimp only at h
      split at h
      · cases h
        show target ⊆ _
        intro c hc
        have hdrop := subset_of_target? htarget hc
        have := (List.dropWhile_sublist (l := body) isSpace).subset hdrop
        simp only [List.mem_cons]
        exact .inr (.inr (.inr (.inr this)))
      · cases h
    · cases h
  · cases h

theorem all_of_atMost {p : Char → Bool} {n : Nat} {t : Text} :
    ∀ c ∈ (atMost p n t).1, p c := by
  fun_induction atMost p n t with
  | case1 => intro c hc; cases hc
  | case2 => intro c hc; cases hc
  | case3 n c rest hp ih => exact List.forall_mem_cons.mpr ⟨hp, ih⟩
  | case4 => intro c hc; cases hc

theorem length_atMost_le (p : Char → Bool) (n : Nat) (t : Text) :
    (atMost p n t).1.length ≤ n := by
  fun_induction atMost p n t with
  | case1 => exact Nat.le_refl 0
  | case2 => exact Nat.zero_le _
  | case3 n c rest hp ih => exact Nat.succ_le_succ ih
  | case4 => exact Nat.zero_le _

theorem isRangeEnd_atMost {p : Char → Bool} {t : Text} (h : ¬ (atMost p 6 t).1.isEmpty) :
    IsRangeEnd p (atMost p 6 t).1 :=
  ⟨fun heq => h (List.isEmpty_iff.mpr heq), length_atMost_le p 6 t, all_of_atMost⟩

theorem fitting_codeRange? : Fitting codeRange? := by
  intro t l rest h
  unfold codeRange? at h
  split at h
  · rename_i u body
    split at h
    · rename_i hu
      dsimp only at h
      split at h
      · cases h
      · rename_i hlow
        have hlow := isRangeEnd_atMost hlow
        split at h
        · split at h
          · cases h
            exact ⟨u, _, rfl, hu, .single hlow⟩
          · rename_i hhigh
            cases h
            exact ⟨u, _, rfl, hu, .pair hlow (isRangeEnd_atMost hhigh)⟩
        · cases h
          exact ⟨u, _, rfl, hu, .single hlow⟩
    · cases h
  · cases h

theorem fitting_number? : Fitting number? := by
  intro t l rest h
  obtain ⟨⟨digits, after⟩, hdigits, h⟩ := Option.map_eq_some_iff.mp h
  have haccepts := number.accepts_of_longest? hdigits
  dsimp only at h
  split at h
  · cases h
    exact haccepts
  · split at h
    · cases h
      exact haccepts
    · cases h
      exact haccepts

/-- A run of name characters and escapes stands for something. -/
theorem decode_ne_nil_of_longest? {t name rest : Text}
    (h : nameRun.longest? t = some (name, rest)) (hne : name ≠ []) :
    Escape.decode name ≠ [] := by
  obtain ⟨s, hrun, hfinal, -⟩ := nameRun.stuck_of_longest? h
  obtain ⟨c, name, rfl⟩ := List.exists_cons_of_ne_nil hne
  by_cases hc : c = '\\'
  · subst hc
    cases name with
    | nil =>
      cases hrun
      cases hfinal
    | cons d name =>
      have hrun : nameRun.run .backslash (d :: name) = some s := hrun
      obtain ⟨s₁, hstep, -⟩ := Option.bind_eq_some_iff.mp hrun
      show (Escape.read .backslash d).1 ++
        Escape.decodeFrom (Escape.read .backslash d).2 name ≠ []
      rw [Escape.read]
      split
      · exact Escape.decodeFrom_digits_ne_nil
      · -- the run goes on, so this is no line break, and it stands for itself
        rename_i hhex
        have hline : ¬ isNewline d := by
          intro hline
          cases hstep.symm.trans ((if_neg hhex).trans (if_pos hline))
        have hreturn : d ≠ '\r' := by
          rintro rfl
          exact hline rfl
        rw [if_neg hreturn, if_neg hline]
        exact List.cons_ne_nil _ _
  · rw [Escape.decode, Escape.decodeFrom_cons_plain hc]
    exact List.cons_ne_nil _ _

theorem decode_ne_nil_of_ident? {t name rest : Text} (h : ident? t = some (name, rest)) :
    Escape.decode name ≠ [] := by
  have hword : ∀ {t name rest : Text}, ident?.word? t = some (name, rest) →
      Escape.decode name ≠ [] := by
    intro t name rest h
    unfold ident?.word? at h
    split at h
    · split at h
      · obtain ⟨hlongest, hne⟩ := Option.filter_eq_some_iff.mp h
        exact decode_ne_nil_of_longest? hlongest (by simpa using hne)
      · cases h
    · cases h
  unfold ident? at h
  split at h
  · obtain ⟨⟨w, after⟩, -, heq⟩ := Option.map_eq_some_iff.mp h
    cases heq
    rw [Escape.decode, Escape.decodeFrom_cons_plain (by decide)]
    exact List.cons_ne_nil _ _
  · exact hword h

theorem subset_of_ident? {t name rest : Text} (h : ident? t = some (name, rest)) :
    name ⊆ t := by
  rw [← (append_of_ident? h).1]
  exact List.subset_append_left name rest

theorem fitting_atKeyword? : Fitting atKeyword? := by
  intro t l rest h
  unfold atKeyword? at h
  split at h
  · obtain ⟨⟨name, after⟩, hname, heq⟩ := Option.map_eq_some_iff.mp h
    cases heq
    exact ⟨fun c hc => List.mem_cons_of_mem _ (subset_of_ident? hname hc),
      decode_ne_nil_of_ident? hname⟩
  · cases h

theorem fitting_hash? : Fitting hash? := by
  intro t l rest h
  unfold hash? at h
  split at h
  · obtain ⟨⟨name, after⟩, hfound, heq⟩ := Option.map_eq_some_iff.mp h
    obtain ⟨hname, hne⟩ := Option.filter_eq_some_iff.mp hfound
    cases heq
    refine ⟨fun c hc => List.mem_cons_of_mem _ ?_,
      decode_ne_nil_of_longest? hname (by simpa using hne)⟩
    rw [← nameRun.append_of_longest? hname]
    exact List.mem_append_left _ hc
  · cases h

theorem fitting_word? : Fitting word? := by
  intro t l rest h
  obtain ⟨⟨name, after⟩, hname, h⟩ := Option.map_eq_some_iff.mp h
  have hfits := And.intro (subset_of_ident? hname) (decode_ne_nil_of_ident? hname)
  dsimp only at h
  split at h
  · cases h
    exact hfits
  · cases h
    exact hfits

theorem fitting_operator? : Fitting operator? := by
  intro t l rest h
  unfold operator? at h
  split at h
  · split at h
    · rename_i c _ hc
      cases h
      exact ⟨c, by simpa using hc, rfl⟩
    · cases h
  · cases h

theorem fitting_delimiter? : Fitting delimiter? := by
  intro t l rest h
  unfold delimiter? at h
  split at h
  · cases h
    trivial
  · cases h

/-- The first lexeme of a text fits it. -/
theorem fitting_first? : Fitting first? :=
  fitting_space?.orElse <| fitting_comment?.orElse <| fitting_mark?.orElse <|
    fitting_string?.orElse <| fitting_url?.orElse <| fitting_codeRange?.orElse <|
    fitting_number?.orElse <| fitting_atKeyword?.orElse <| fitting_hash?.orElse <|
    fitting_word?.orElse <| fitting_operator?.orElse fitting_delimiter?

/-- A lexeme of a text is the first one of some rest of it. -/
theorem exists_first?_of_mem_lexemes {l : Lexeme} (n : Nat) : ∀ {t : Text}, t.length < n →
    l ∈ lexemes t → ∃ t' rest, first? t' = some (l, rest) ∧ t' <:+ t := by
  induction n with
  | zero => intro t ht; omega
  | succ n ih =>
    intro t ht h
    cases hfirst : first? t with
    | none =>
      rw [lexemes_of_first?_none hfirst] at h
      cases h
    | some found =>
      obtain ⟨l', rest⟩ := found
      rw [lexemes_of_first? hfirst] at h
      rcases List.mem_cons.mp h with rfl | h
      · exact ⟨t, rest, hfirst, List.suffix_refl t⟩
      · have hlt := length_lt_of_first? hfirst
        obtain ⟨t', rest', ht', hsuffix⟩ := ih (by omega) h
        exact ⟨t', rest', ht', hsuffix.trans ⟨l'.text, (splits_first? hfirst).1⟩⟩

theorem fits_of_mem_lexemes {l : Lexeme} {t : Text} (h : l ∈ lexemes t) :
    ∃ t', l.Fits t' ∧ t' ⊆ t := by
  obtain ⟨t', rest, hfirst, hsuffix⟩ :=
    exists_first?_of_mem_lexemes (t.length + 1) (by omega) h
  exact ⟨t', fitting_first? hfirst, hsuffix.subset⟩

/-! ## Shapes -/

/-- The text of a token of one of the kinds. -/
inductive Shape (t : Token) : Prop where
  | space (h : t = Token.space)
  | string (s : Text) (hnul : '\x00' ∉ s) (h : t = Escape.quote s)
  | url (s : Text) (hnul : '\x00' ∉ s) (h : t = "url(" ++ Escape.quote s ++ ")")
  | codeRange (rest : Text) (hrest : IsRange rest) (hlower : lower t = t)
    (h : t = 'u' :: '+' :: rest)
  | number (digits unit : Text) (hdigits : number.accepts digits)
    (hunit : unit = [] ∨ isUnit unit)
      (h : t = digits ++ unit)
  | atKeyword (s : Text) (hs : IsNamed s) (h : t = '@' :: Escape.escapeIdent s)
  | hash (s : Text) (hs : IsNamed s) (h : t = '#' :: Escape.escapeName s)
  | call (s : Text) (hs : IsNamed s) (h : t = Escape.escapeIdent s ++ ['('])
  | name (s : Text) (hs : IsNamed s) (h : t = Escape.escapeIdent s)
  | operator (c : Char) (hc : c ∈ ['~', '|', '^', '$', '*']) (h : t = [c, '='])
  | delimiter (c : Char) (hc : c ∈ punctuation) (h : t = [c])

theorem ascii_of_isRangeChar {c : Char} (h : isRangeChar c) : c.toNat < 0x80 := by
  simp only [isRangeChar, Bool.or_eq_true, decide_eq_true_eq] at h
  rcases h with (h | rfl) | rfl
  · exact Escape.ascii_of_isHexDigit h
  · decide
  · decide

theorem IsRangeEnd.map_toLower {p : Char → Bool} {t : Text} (h : IsRangeEnd p t)
    (hp : ∀ c, p c → p c.toLower) : IsRangeEnd p (t.map Char.toLower) where
  ne_nil heq := h.ne_nil (List.map_eq_nil_iff.mp heq)
  length_le := by
    rw [List.length_map]
    exact h.length_le
  all d hd := by
    obtain ⟨c, hc, rfl⟩ := List.mem_map.mp hd
    exact hp c (h.all c hc)

theorem IsRange.map_toLower {t : Text} (h : IsRange t) :
    IsRange (t.map Char.toLower) := by
  have hhex : ∀ c, isHexDigit c → isHexDigit c.toLower := fun c hc =>
    forall_ascii (fun c => isHexDigit c → isHexDigit c.toLower) (by decide)
      (Escape.ascii_of_isHexDigit hc) hc
  have hdigit : ∀ c, (isHexDigit c || c = '?') →
      (isHexDigit c.toLower || c.toLower = '?') := by
    intro c hc
    rcases Bool.or_eq_true_iff.mp hc with hc | hc
    · rw [hhex c hc]
      rfl
    · rw [of_decide_eq_true hc]
      rfl
  cases h with
  | single hlow => exact .single (hlow.map_toLower hdigit)
  | pair hlow hhigh =>
    rw [List.map_append, List.map_cons]
    exact .pair (hlow.map_toLower hdigit) (hhigh.map_toLower hhex)

theorem lower_codeRange {u : Char} {rest : Text} (hu : u.toLower = 'u')
    (hrest : IsRange rest) :
    lower (u :: '+' :: rest) = 'u' :: '+' :: rest.map Char.toLower := by
  have hascii : ∀ c ∈ u :: '+' :: rest, c.toNat < 0x80 := by
    refine List.forall_mem_cons.mpr ⟨?_, List.forall_mem_cons.mpr ⟨by decide, fun c hc =>
      ascii_of_isRangeChar (hrest.all c hc)⟩⟩
    rcases ascii_or_foreign u with h | h
    · exact h
    · rw [toLower_of_isForeign h] at hu
      rw [hu]
      decide
  rw [lower_of_ascii hascii, List.map_cons, List.map_cons, hu]
  rfl

/-- The token of a lexeme has one of the shapes. -/
theorem shape_of_token? {t : Text} {l : Lexeme} {tok : Token} (hfits : l.Fits t)
    (hnul : '\x00' ∉ t) (h : l.token? = some tok) : Shape tok := by
  have hnamed : ∀ {name : Text}, name ⊆ t ∧ Escape.decode name ≠ [] →
      IsNamed (Escape.decode name) :=
    fun h => ⟨h.2, Escape.not_nul_mem_decode fun hmem => hnul (h.1 hmem)⟩
  obtain ⟨kind, text⟩ := l
  cases kind with
  | blank =>
    cases h
    exact .space rfl
  | openComment =>
    cases h
    exact .space rfl
  | string body =>
    cases h
    exact .string _ (Escape.not_nul_mem_decode fun hmem => hnul (hfits hmem)) rfl
  | openString => cases h
  | url target =>
    cases h
    exact .url _ (Escape.not_nul_mem_decode fun hmem => hnul (hfits hmem)) rfl
  | codeRange =>
    obtain ⟨u, rest, heq, hu, hrest⟩ := hfits
    cases h
    dsimp only at heq
    have hlower := lower_codeRange hu hrest
    refine .codeRange _ hrest.map_toLower (lower_lower_of_ascii_or_isDigit ?_)
      (by rw [heq, hlower])
    rw [heq, hlower]
    exact List.forall_mem_cons.mpr ⟨by decide, List.forall_mem_cons.mpr ⟨by
      decide, fun c hc =>
      .inl (ascii_of_isRangeChar (hrest.map_toLower.all c hc))⟩⟩
  | number digits unit =>
    simp only [token?] at h
    split at h
    · rename_i hunit
      cases h
      refine .number digits (Escape.decode unit) hfits ?_ rfl
      rcases hunit with hempty | hunit
      · rw [List.isEmpty_iff.mp hempty]
        exact .inl rfl
      · exact .inr hunit
    · cases h
  | atKeyword name =>
    cases h
    exact .atKeyword _ (hnamed hfits) rfl
  | hash name =>
    cases h
    exact .hash _ (hnamed hfits) rfl
  | call name =>
    cases h
    exact .call _ (hnamed hfits) rfl
  | name name =>
    cases h
    exact .name _ (hnamed hfits) rfl
  | operator =>
    obtain ⟨c, hc, heq⟩ := hfits
    cases h
    exact .operator c hc heq
  | delimiter c =>
    simp only [token?] at h
    split at h
    · rename_i hc
      cases h
      exact .delimiter c hc rfl
    · cases h

theorem not_nul_mem_clean (css : Text) : '\x00' ∉ clean css := by
  have hchar : ∀ c, cleanChar c ≠ '\x00' := by
    intro c
    unfold cleanChar
    repeat' split
    · decide
    · decide
    · assumption
  have key : ∀ (t : Text) (s : Bool × Text), '\x00' ∉ s.2 →
      '\x00' ∉ (t.foldl (fun (afterReturn, done) c =>
        if afterReturn ∧ c = '\n' then (false, done)
          else (c = '\r', cleanChar c :: done)) s).2 := by
    intro t
    induction t with
    | nil => exact fun s hs => hs
    | cons c t ih =>
      intro s hs
      refine ih _ ?_
      obtain ⟨afterReturn, done⟩ := s
      dsimp only
      split
      · exact hs
      · simpa using ⟨Ne.symm (hchar c), hs⟩
  rw [clean, List.mem_reverse]
  exact key css (false, []) (by simp)

theorem mem_of_mem_foldr_consCollapsed {t : Token} {ts : List Token}
    (h : t ∈ ts.foldr consCollapsed []) : t ∈ ts := by
  induction ts with
  | nil => exact h
  | cons x ts ih =>
    rw [List.foldr_cons, consCollapsed] at h
    split at h
    · exact List.mem_cons_of_mem _ (ih h)
    · rcases List.mem_cons.mp h with rfl | h
      · exact List.mem_cons_self ..
      · exact List.mem_cons_of_mem _ (ih h)

/-- Every token of a style sheet has one of the shapes. -/
theorem shape_of_mem_lex {css : Text} {t : Token} (h : t ∈ (lex css).value) :
    Shape t := by
  have hmem := mem_of_mem_foldr_consCollapsed
    ((List.dropWhile_sublist (l := _) (· = Token.space)).subset h)
  obtain ⟨l, hl, htoken⟩ := List.mem_filterMap.mp hmem
  obtain ⟨t', hfits, hsub⟩ := fits_of_mem_lexemes hl
  exact shape_of_token? hfits (fun hnul => not_nul_mem_clean css (hsub hnul)) htoken

/-! ## Characters of tokens -/

theorem mem_unit {c : Char} {unit : Text} (h : unit = [] ∨ isUnit unit) (hc : c ∈ unit) :
    c = '%' ∨ isLetter c ∨ c = '\n' := by
  have hbody : ∀ {u : Text}, (u = ['%'] || isRunOf isLetter u) → c ∈ u → c = '%' ∨
      isLetter c := by
    intro u hu hc
    rcases Bool.or_eq_true_iff.mp hu with hu | hu
    · rw [of_decide_eq_true hu, List.mem_singleton] at hc
      exact .inl hc
    · exact .inr (List.all_eq_true.mp (Bool.and_eq_true_iff.mp hu).2 c hc)
  rcases h with rfl | h
  · cases hc
  · rcases cases_of_isLineOf h with hu | ⟨u, rfl, hu⟩
    · exact (hbody hu hc).imp id .inl
    · rcases List.mem_append.mp hc with hc | hc
      · exact (hbody hu hc).imp id .inl
      · exact .inr (.inr (List.mem_singleton.mp hc))

/-- A character of a number is a digit, a letter, or one of a few marks. -/
theorem mem_number {c : Char} {digits unit : Text} (hdigits : number.accepts digits)
    (hunit : unit = [] ∨ isUnit unit) (hc : c ∈ digits ++ unit) :
    isDecimal c ∨ isLetter c ∨ c ∈ ['.', '+', '-', '%', '\n'] := by
  obtain ⟨s, hrun, -⟩ := (accepts_iff _ _).mp hdigits
  rcases List.mem_append.mp hc with hc | hc
  · rcases isDecimal_or_mem_of_run hrun c hc with h | h
    · exact .inl h
    · exact .inr ((by decide : ∀ c ∈ numberMarks, isLetter c ∨ c ∈ ['.', '+', '-',
        '%', '\n']) c h)
  · rcases mem_unit hunit hc with rfl | h | rfl
    · exact .inr (.inr (by decide))
    · exact .inr (.inl h)
    · exact .inr (.inr (by decide))

/-- The characters that stand in tokens without quotes. -/
def isBareChar (c : Char) : Bool :=
  isNameChar c || c ∈ ['\\', ' ', '(', '.', '+', '%', '\n', '?']

theorem isBareChar_of_mem_escapeIdent {s : Text} {c : Char}
    (h : c ∈ Escape.escapeIdent s) : isBareChar c := by
  rcases Escape.mem_escapeIdent h with h | rfl | rfl
  · simp [isBareChar, h]
  · decide
  · decide

theorem isBareChar_of_mem_number {c : Char} {digits unit : Text}
    (hdigits : number.accepts digits) (hunit : unit = [] ∨ isUnit unit)
    (hc : c ∈ digits ++ unit) : isBareChar c := by
  rcases mem_number hdigits hunit hc with h | h | h
  · rcases ascii_or_foreign c with hascii | hforeign
    · rw [isDecimal_eq_of_ascii hascii] at h
      simp [isBareChar, isNameChar, h]
    · simp [isBareChar, isNameChar_of_isForeign hforeign]
  · simp [isBareChar, isNameChar_of_isPlainNameChar (isPlainNameChar_of_isLetter h)]
  · exact (by decide : ∀ c ∈ ['.', '+', '-', '%', '\n'], isBareChar c) c h

/-- A token that has another character in it is in quotes, or begins with a mark. -/
theorem Shape.cases_of_mem {t : Token} (h : Shape t) {c : Char} (hc : c ∈ t)
    (hbare : ¬ isBareChar c) :
    (∃ s, '\x00' ∉ s ∧ t = Escape.quote s) ∨
    (∃ s, '\x00' ∉ s ∧ t = "url(" ++ Escape.quote s ++ ")") ∨
    (∃ d ∈ ['~', '|', '^', '$', '*'], t = [d, '=']) ∨ (t = [c] ∧ c ∈ punctuation) ∨
    c = '@' ∨ c = '#' := by
  cases h with
  | space h =>
    rw [h] at hc
    rw [List.mem_singleton.mp hc] at hbare
    exact absurd (by decide) hbare
  | string s hnul h => exact .inl ⟨s, hnul, h⟩
  | url s hnul h => exact .inr (.inl ⟨s, hnul, h⟩)
  | codeRange rest hrest hlower h =>
    rw [h, List.mem_cons, List.mem_cons] at hc
    rcases hc with rfl | rfl | hc
    · exact absurd (by decide) hbare
    · exact absurd (by decide) hbare
    · exact absurd (forall_ascii (fun c => isRangeChar c → isBareChar c) (by decide)
        (ascii_of_isRangeChar (hrest.all c hc)) (hrest.all c hc)) hbare
  | number digits unit hdigits hunit h =>
    rw [h] at hc
    exact absurd (isBareChar_of_mem_number hdigits hunit hc) hbare
  | atKeyword s hs h =>
    rw [h] at hc
    rcases List.mem_cons.mp hc with rfl | hc
    · exact .inr (.inr (.inr (.inr (.inl rfl))))
    · exact absurd (isBareChar_of_mem_escapeIdent hc) hbare
  | hash s hs h =>
    rw [h] at hc
    rcases List.mem_cons.mp hc with rfl | hc
    · exact .inr (.inr (.inr (.inr (.inr rfl))))
    · rcases Escape.mem_escapeName hc with hc | rfl | rfl
      · exact absurd (by simp [isBareChar, hc]) hbare
      · exact absurd (by decide) hbare
      · exact absurd (by decide) hbare
  | call s hs h =>
    rw [h] at hc
    rcases List.mem_append.mp hc with hc | hc
    · exact absurd (isBareChar_of_mem_escapeIdent hc) hbare
    · rw [List.mem_singleton.mp hc] at hbare
      exact absurd (by decide) hbare
  | name s hs h =>
    rw [h] at hc
    exact absurd (isBareChar_of_mem_escapeIdent hc) hbare
  | operator d hd h => exact .inr (.inr (.inl ⟨d, hd, h⟩))
  | delimiter d hd h =>
    rw [h, List.mem_singleton] at hc
    subst hc
    exact .inr (.inr (.inr (.inl ⟨h, hd⟩)))

/-- Only strings and URLs have quotes in them. -/
theorem Shape.quoted_of_mem {t : Token} (h : Shape t) (hc : '"' ∈ t) :
    (∃ s, '\x00' ∉ s ∧ t = Escape.quote s) ∨
    (∃ s, '\x00' ∉ s ∧ t = "url(" ++ Escape.quote s ++ ")") := by
  rcases h.cases_of_mem hc (by decide) with h | h | ⟨d, hd, rfl⟩ | ⟨-, h⟩ | h | h
  · exact .inl h
  · exact .inr h
  · exact absurd hc ((by decide : ∀ d ∈ ['~', '|', '^', '$', '*'], '"' ∉ [d, '=']) d hd)
  · exact absurd h (by decide)
  · cases h
  · cases h

/-- Only a number has a newline in it. -/
theorem exists_number_of_newline {t : Token} (h : Shape t) (hc : '\n' ∈ t) :
    ∃ digits unit, number.accepts digits ∧ (unit = [] ∨ isUnit unit) ∧
    t = digits ++ unit := by
  have hident : ∀ {s : Text}, '\n' ∉ Escape.escapeIdent s := fun hc =>
    absurd (Escape.mem_escapeIdent hc) (by decide)
  cases h with
  | space h => exact absurd (h ▸ hc) (by decide)
  | string s hnul h => exact absurd (h ▸ hc) (Escape.not_newline_mem_quote s)
  | url s hnul h =>
    rw [h] at hc
    rcases List.mem_append.mp hc with hc | hc
    · rcases List.mem_append.mp hc with hc | hc
      · exact absurd hc (by decide)
      · exact absurd hc (Escape.not_newline_mem_quote s)
    · exact absurd hc (by decide)
  | codeRange rest hrest hlower h =>
    rw [h] at hc
    rcases List.mem_cons.mp hc with hc | hc
    · cases hc
    · rcases List.mem_cons.mp hc with hc | hc
      · cases hc
      · exact absurd (hrest.all _ hc) (by decide)
  | number digits unit hdigits hunit h => exact ⟨digits, unit, hdigits, hunit, h⟩
  | atKeyword s hs h =>
    rw [h] at hc
    rcases List.mem_cons.mp hc with hc | hc
    · cases hc
    · exact absurd hc hident
  | hash s hs h =>
    rw [h] at hc
    rcases List.mem_cons.mp hc with hc | hc
    · cases hc
    · exact absurd (Escape.mem_escapeName hc) (by decide)
  | call s hs h =>
    rw [h] at hc
    rcases List.mem_append.mp hc with hc | hc
    · exact absurd hc hident
    · exact absurd hc (by decide)
  | name s hs h => exact absurd (h ▸ hc) hident
  | operator d hd h =>
    rw [h] at hc
    exact absurd hc ((by decide : ∀ d ∈ ['~', '|', '^', '$', '*'], '\n' ∉ [d, '=']) d hd)
  | delimiter d hd h =>
    rw [h, List.mem_singleton] at hc
    exact absurd (hc ▸ hd) (by decide)

theorem Shape.beginsNumber_of_newline {t : Token} (h : Shape t) (hc : '\n' ∈ t) :
    BeginsNumber t := by
  obtain ⟨digits, unit, hdigits, -, rfl⟩ := exists_number_of_newline h hc
  exact (beginsNumber_of_accepts hdigits).append unit

end CssGuard
