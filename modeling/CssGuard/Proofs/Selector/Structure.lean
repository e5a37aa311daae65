import CssGuard.Proofs.Selector.Reading

/-!
# The structure of sanitized selectors

The tokens of a sanitized list of selectors are read as one selector up to the block after
it: every bracket is closed, and nothing else in it matters to the structure of a sheet.
Neither do the spaces that are collapsed when it is read back.

- `fits`: the tokens can stand in a selector, and each square bracket is closed
- `readSelector_of_fits`: such tokens are read as a selector
- `isQuiet`: no pseudo-class among the tokens tells visited links from others
- `fits_listReading`, `isQuiet_listReading`: sanitized selectors
-/

namespace CssGuard

open Text Escape
open scoped Text.ByCharacter

/-- A token that has no meaning for the structure of a sheet, and
is no bracket and no colon. -/
def isOrdinary (t : Token) : Bool :=
  t ∉ [['['], [']'], Token.colon] && !t.opensParen && !t.isStructural && !t.isAt &&
    !t.beginsUrl

/-- The tokens can stand in a selector, inside square brackets or not,
and all brackets get closed. -/
def fits (inside : Bool) : List Token → Bool
  | [] => !inside
  | t :: ts =>
    if t = ['['] then !inside && fits true ts
    else if t = [']'] then inside && fits false ts
    else (t = Token.colon || isOrdinary t) && fits inside ts

/-- No colon is followed by a pseudo-class that tells visited links from others. -/
def isQuiet (afterColon : Bool) : List Token → Bool
  | [] => true
  | t :: ts => !(afterColon && t ∈ historyPseudoClasses) && isQuiet (t = Token.colon) ts

/-! ## Tokens -/

/-- The marks with which no ordinary token begins. -/
def structureMarks : List Char :=
  ['[', ']', ':', '\x7b', '\x7d', ';', '@']

theorem isOrdinary_of_head {c : Char} {t : Text} (hc : c ∉ structureMarks)
    (hopens : Token.opensParen (c :: t) = false) (hurl : ¬ Token.beginsUrl (c :: t)) :
    isOrdinary (c :: t) := by
  simp only [structureMarks, List.mem_cons, List.not_mem_nil, or_false, not_or] at hc
  simp [isOrdinary, hopens, Token.isStructural, Token.openBrace, Token.closeBrace,
    Token.semicolon, Token.colon, Token.isAt, hc, hurl]

theorem isOrdinary_of_not_paren {c : Char} {t : Text} (hc : c ∉ structureMarks)
    (hparen : '(' ∉ c :: t) : isOrdinary (c :: t) :=
  isOrdinary_of_head hc (opensParen_eq_false hparen) (Token.not_beginsUrl hparen)

theorem IsBareName.isOrdinary {n : Text} (hn : IsBareName n) : isOrdinary n := by
  have hmark : ∀ c ∈ structureMarks, ¬ isNameChar c := by decide
  obtain ⟨c, t, rfl⟩ : ∃ c t, n = c :: t := by
    rcases hn.cases with ⟨c, t, rfl, -⟩ | ⟨c, t, rfl, -⟩
    · exact ⟨_, _, rfl⟩
    · exact ⟨_, _, rfl⟩
  exact isOrdinary_of_not_paren (fun hc => hmark c hc (hn.all c (List.mem_cons_self ..)))
    hn.not_paren_mem

theorem isOrdinary_of_isPlainIdent {n : Text} (h : isPlainIdent n) : isOrdinary n :=
  (isBareName_of_isPlainIdent h).isOrdinary

theorem isOrdinary_quote (s : Text) : isOrdinary (quote s) := by
  refine isOrdinary_of_head (by decide) ?_ fun hurl => ?_
  · rw [Token.opensParen, decide_eq_false_iff_not]
    show ('"' :: escapeString s ++ ['"']).getLast? ≠ some '('
    rw [List.getLast?_concat]
    decide
  · obtain ⟨rest, heq⟩ := Token.exists_of_beginsUrl hurl
    cases (List.cons.inj heq).1

theorem isOrdinary_of_mem_lineTokens {t q : Text} (h : IsMaybeLine t q) (hnew : '\n' ∉ t)
    (ht : isOrdinary t) : ∀ t' ∈ lineTokens q, isOrdinary t' := by
  rcases h with rfl | rfl
  · rw [lineTokens, if_neg fun hlast => hnew (List.mem_of_getLast? hlast)]
    exact List.forall_mem_singleton.mpr ht
  · rw [lineTokens, if_pos List.getLast?_concat, List.dropLast_concat]
    exact List.forall_mem_cons.mpr ⟨ht, List.forall_mem_singleton.mpr (by decide)⟩

/-! ## Brackets -/

theorem fits_cons_of_isOrdinary {t : Token} (ht : isOrdinary t) (inside : Bool)
    (ts : List Token) : fits inside (t :: ts) = fits inside ts := by
  have hmem : t ∉ [['['], [']'], Token.colon] := by
    simp only [isOrdinary, Bool.and_eq_true] at ht
    exact of_decide_eq_true ht.1.1.1.1
  simp only [List.mem_cons, List.not_mem_nil, or_false, not_or] at hmem
  rw [fits, if_neg hmem.1, if_neg hmem.2.1, ht, Bool.or_true]
  rfl

/-- Ordinary tokens change nothing. -/
theorem fits_append_of_isOrdinary {ts : List Token} (h : ∀ t ∈ ts, isOrdinary t)
    (inside : Bool) (us : List Token) : fits inside (ts ++ us) = fits inside us := by
  induction ts with
  | nil => rfl
  | cons t ts ih =>
    obtain ⟨ht, hts⟩ := List.forall_mem_cons.mp h
    rw [List.cons_append, fits_cons_of_isOrdinary ht, ih hts]

theorem fits_squeeze (ts : List Token) :
    ∀ inside, fits inside (squeeze ts) = fits inside ts := by
  have hspace : isOrdinary Token.space := by decide
  induction ts with
  | nil => exact fun _ => rfl
  | cons t ts ih =>
    intro inside
    rw [squeeze]
    split
    · rename_i h
      rw [h.1, fits_cons_of_isOrdinary hspace, ih]
    · rw [fits, fits, ih, ih, ih]

theorem not_of_fits {ts : List Token} : ∀ {inside : Bool}, fits inside ts →
    ∀ t ∈ ts, ¬ t.isStructural ∧ ¬ t.isAt ∧ ¬ t.beginsUrl := by
  induction ts with
  | nil => exact fun _ t ht => absurd ht List.not_mem_nil
  | cons t ts ih =>
    intro inside h
    rw [fits] at h
    split at h
    · rename_i hopen
      rw [hopen]
      exact List.forall_mem_cons.mpr ⟨by decide, ih (Bool.and_eq_true_iff.mp h).2⟩
    · split at h
      · rename_i hclose
        rw [hclose]
        exact List.forall_mem_cons.mpr ⟨by decide, ih (Bool.and_eq_true_iff.mp h).2⟩
      · obtain ⟨ht, h⟩ := Bool.and_eq_true_iff.mp h
        refine List.forall_mem_cons.mpr ⟨?_, ih h⟩
        rcases Bool.or_eq_true_iff.mp ht with hcolon | ht
        · rw [of_decide_eq_true hcolon]
          decide
        · simp only [isOrdinary, Bool.and_eq_true, Bool.not_eq_true'] at ht
          simp [ht]

/-- Tokens that fit are read as a selector up to the block that follows. -/
theorem readSelector_of_fits {ts : List Token} : ∀ {inside : Bool}, fits inside ts →
    ∀ rest, readSelector (if inside then [[']']]
      else []) (ts ++ Token.openBrace :: rest) = ⟨ts, [], Token.openBrace :: rest⟩ := by
  induction ts with
  | nil =>
    intro inside h rest
    cases inside with
    | true => cases h
    | false => rfl
  | cons t ts ih =>
    intro inside h rest
    rw [fits] at h
    rw [List.cons_append, readSelector]
    split at h
    · rename_i hopen
      obtain ⟨hinside, h⟩ := Bool.and_eq_true_iff.mp h
      cases inside with
      | true => cases hinside
      | false =>
        -- a bracket opens, and the closing one is awaited
        have hcloser : closer? t = some [']'] := if_pos hopen
        rw [hcloser]
        show (readSelector [[']']] _).cons t = _
        rw [show [[']']] = if true then [([']'] : Token)] else [] from rfl, ih h]
        rfl
    · rename_i hopen
      split at h
      · rename_i hclose
        -- the awaited bracket closes
        obtain ⟨rfl, h⟩ := Bool.and_eq_true_iff.mp h
        subst hclose
        show (readSelector [] _).cons _ = _
        rw [show [] = if false then [([']'] : Token)] else [] from rfl, ih h]
        rfl
      · rename_i hclose
        obtain ⟨ht, h⟩ := Bool.and_eq_true_iff.mp h
        -- any other token neither opens nor ends anything
        have hplain : t.opensParen = false ∧ t.isStructural = false ∧ t.isAt = false := by
          rcases Bool.or_eq_true_iff.mp ht with hcolon | ht
          · rw [of_decide_eq_true hcolon]
            decide
          · simp only [isOrdinary, Bool.and_eq_true, Bool.not_eq_true'] at ht
            exact ⟨ht.1.1.1.2, ht.1.1.2, ht.1.2⟩
        obtain ⟨hparen, hstructural, hat⟩ := hplain
        have hcloser : closer? t = none := by
          rw [closer?, if_neg hopen, if_neg (by simp [hparen])]
        have hhead : ¬ (if inside then [([']'] : Token)] else []).head? = some t := by
          cases inside with
          | true => exact fun heq => hclose (Option.some.inj heq).symm
          | false => simp
        rw [hcloser]
        show (if _ then _ else _) = _
        rw [if_neg hhead, hstructural, hat]
        show (readSelector _ _).cons t = _
        rw [ih h]
        rfl

/-! ## Pseudo-classes -/

theorem isQuiet_append_of_isOrdinary {ts : List Token} (h : ∀ t ∈ ts, isOrdinary t)
    (us : List Token) : isQuiet false (ts ++ us) = isQuiet false us := by
  induction ts with
  | nil => rfl
  | cons t ts ih =>
    obtain ⟨ht, hts⟩ := List.forall_mem_cons.mp h
    have hcolon : t ≠ Token.colon := by
      rintro rfl
      exact absurd ht (by decide)
    rw [List.cons_append, isQuiet, decide_eq_false hcolon, ih hts]
    rfl

/-- A space separates a colon from what follows. -/
theorem isQuiet_space (after : Bool) (ts : List Token) :
    isQuiet after (Token.space :: ts) = isQuiet false ts := by
  have hspace : Token.space ∉ historyPseudoClasses := by decide
  have hcolon : decide (Token.space = Token.colon) = false := by decide
  rw [isQuiet, decide_eq_false hspace, hcolon, Bool.and_false]
  rfl

theorem isQuiet_squeeze (ts : List Token) :
    ∀ after, isQuiet after (squeeze ts) = isQuiet after ts := by
  induction ts with
  | nil => exact fun _ => rfl
  | cons t ts ih =>
    intro after
    rw [squeeze]
    split
    · rename_i h
      obtain ⟨rfl, hhead⟩ := h
      -- what is left begins with a space of its own
      obtain ⟨us, hus⟩ := List.head?_eq_some_iff.mp hhead
      rw [isQuiet_space, ← ih false, hus, isQuiet_space, isQuiet_space]
    · rw [isQuiet, isQuiet, ih]

theorem isQuiet_of_append {ts us : List Token} :
    ∀ {after : Bool}, isQuiet after (ts ++ us) → isQuiet after ts := by
  induction ts with
  | nil => exact fun _ => rfl
  | cons t ts ih =>
    intro after h
    rw [List.cons_append, isQuiet, Bool.and_eq_true] at h
    rw [isQuiet, Bool.and_eq_true]
    exact ⟨h.1, ih h.2⟩

theorem isQuiet_dropEndSpace {ts : List Token} (h : isQuiet false ts) :
    isQuiet false (dropEndSpace ts) := by
  unfold dropEndSpace
  split
  · rename_i hlast
    obtain ⟨front, rfl⟩ := List.getLast?_eq_some_iff.mp hlast
    rw [List.dropLast_concat]
    exact isQuiet_of_append h
  · exact h

/-- In quiet tokens no colon stands right before such a pseudo-class. -/
theorem not_infix_of_isQuiet {ts : List Token} {after : Bool} (h : isQuiet after ts)
    {name : Text} (hname : name ∈ historyPseudoClasses) :
    ¬ [Token.colon, name] <:+: ts := by
  rintro ⟨before, rest, rfl⟩
  induction before generalizing after with
  | nil =>
    simp only [List.nil_append, List.cons_append, isQuiet, Bool.and_eq_true] at h
    simp [hname] at h
  | cons t before ih =>
    rw [List.cons_append, List.cons_append, isQuiet, Bool.and_eq_true] at h
    exact ih h.2

/-! ## Sanitized selectors -/

/-- The tokens pass through: brackets are closed, and no pseudo-class tells visited links
from others unless it may. -/
structure Passes (sensitive : Bool) (ts : List Token) : Prop where
  fits : ∀ us, fits false (ts ++ us) = CssGuard.fits false us
  quiet : sensitive = false → ∀ us, isQuiet false (ts ++ us) = isQuiet false us

theorem passes_of_isOrdinary {sensitive : Bool} {ts : List Token}
    (h : ∀ t ∈ ts, isOrdinary t) : Passes sensitive ts :=
  ⟨fits_append_of_isOrdinary h false, fun _ => isQuiet_append_of_isOrdinary h⟩

theorem Passes.append {sensitive : Bool} {ts us : List Token} (ht : Passes sensitive ts)
    (hu : Passes sensitive us) : Passes sensitive (ts ++ us) where
  fits vs := by rw [List.append_assoc, ht.fits, hu.fits]
  quiet h vs := by rw [List.append_assoc, ht.quiet h, hu.quiet h]

theorem passes_flatMap {α : Type} {sensitive : Bool} {xs : List α}
    {tokens : α → List Token} (h : ∀ x ∈ xs, Passes sensitive (tokens x)) :
    Passes sensitive (xs.flatMap tokens) := by
  induction xs with
  | nil => exact passes_of_isOrdinary fun t ht => absurd ht List.not_mem_nil
  | cons x xs ih =>
    obtain ⟨hx, hxs⟩ := List.forall_mem_cons.mp h
    rw [List.flatMap_cons]
    exact hx.append (ih hxs)

/-- Ordinary tokens between square brackets. -/
theorem passes_bracketed {sensitive : Bool} {ts : List Token}
    (h : ∀ t ∈ ts, isOrdinary t) : Passes sensitive (['['] :: ts ++ [[']']]) where
  fits us := by
    show CssGuard.fits true (ts ++ [[']']] ++ us) = _
    rw [List.append_assoc, fits_append_of_isOrdinary h]
    rfl
  quiet _ us := by
    show isQuiet false (ts ++ [[']']] ++ us) = _
    rw [List.append_assoc, isQuiet_append_of_isOrdinary h]
    rfl

theorem isOrdinary_id {name suffix : Text} (hname : isPlainIdent name)
    (hsuffix : isIdSuffix suffix) :
    ∀ t ∈ lineTokens ('#' :: name ++ suffix), isOrdinary t := by
  obtain ⟨n, hn, hline⟩ := exists_name_suffix (isBareName_of_isPlainIdent hname) hsuffix
  have hmem : ∀ c, c ≠ '#' → ¬ isNameChar c → c ∉ '#' :: n := by
    intro c hhash hname hmem
    rcases List.mem_cons.mp hmem with h | h
    · exact hhash h
    · exact hname (hn.all _ h)
  exact isOrdinary_of_mem_lineTokens (hline.cons '#') (hmem _ (by decide) (by decide))
    (isOrdinary_of_not_paren (by decide) (hmem _ (by decide) (by decide)))

theorem passes_qualifier {sensitive : Bool} {suffix : Text} (hsuffix : isIdSuffix suffix)
    {q : Qualifier} (h : q.IsPlain) : Passes sensitive (q.reading suffix) := by
  cases q with
  | id name => exact passes_of_isOrdinary (isOrdinary_id h hsuffix)
  | className name =>
    exact passes_of_isOrdinary (List.forall_mem_cons.mpr ⟨by decide,
      List.forall_mem_singleton.mpr (isOrdinary_of_isPlainIdent h)⟩)
  | attr name test =>
    obtain ⟨hname, htest⟩ := h
    have hname := isOrdinary_of_isPlainIdent hname
    cases test with
    | none => exact passes_bracketed (List.forall_mem_singleton.mpr hname)
    | some test =>
      have hoperators : ∀ t ∈ matchOperators, isOrdinary t := by decide
      have hinside : ∀ t ∈ [name, test.operator, quote test.value] ++
          (if test.ignoresCase then [Token.space, ['i']] else []), isOrdinary t := by
        intro t ht
        rcases List.mem_append.mp ht with ht | ht
        · simp only [List.mem_cons, List.not_mem_nil, or_false] at ht
          rcases ht with rfl | rfl | rfl
          · exact hname
          · exact hoperators _ (htest test rfl).1
          · exact isOrdinary_quote _
        · split at ht
          · exact (by decide : ∀ t ∈ [Token.space, ['i']], isOrdinary t) t ht
          · cases ht
      exact passes_bracketed hinside

theorem passes_pseudo {sensitive : Bool} {p : Pseudo} (h : p.isKnown)
    (hp : sensitive = false → ¬ p.isHistory) : Passes sensitive p.reading := by
  have hname := isOrdinary_of_isPlainIdent (isPlainIdent_of_isKnown h)
  have hcolon : p.name ≠ Token.colon := by
    intro heq
    rw [heq] at hname
    exact absurd hname (by decide)
  refine ⟨fun us => ?_, fun hs us => ?_⟩
  · have : CssGuard.fits false (p.name :: us) = CssGuard.fits false us :=
      fits_cons_of_isOrdinary hname false us
    unfold Pseudo.reading
    split <;> exact this
  · have hquiet : ∀ after, isQuiet after (p.name :: us) = isQuiet false us := by
      intro after
      have hhistory : decide (p.name ∈ historyPseudoClasses) = false := by
        simpa [Pseudo.isHistory] using hp hs
      rw [isQuiet, hhistory, decide_eq_false hcolon, Bool.and_false]
      rfl
    have hmark : decide (Token.colon ∈ historyPseudoClasses) = false := by decide
    unfold Pseudo.reading
    split
    · show isQuiet false (Token.colon :: Token.colon :: p.name :: us) = _
      rw [isQuiet, isQuiet, hmark, hquiet]
      rfl
    · show isQuiet false (Token.colon :: p.name :: us) = _
      rw [isQuiet, hquiet]
      rfl

theorem passes_compound {c : Confinement} {sensitive : Bool} {s : Compound}
    (h : s.IsPlain c.idSuffix) (hs : sensitive = false → s.isSensitive = false) :
    Passes sensitive (s.reading c.idSuffix) := by
  refine Passes.append (Passes.append ?_ ?_) ?_
  · split
    · exact passes_of_isOrdinary fun t ht => absurd ht List.not_mem_nil
    · rename_i hne
      refine passes_of_isOrdinary (List.forall_mem_singleton.mpr ?_)
      rcases h.element with hnone | hstar | hident
      · exact absurd hnone hne
      · rw [hstar]
        decide
      · exact isOrdinary_of_isPlainIdent hident
  · exact passes_flatMap fun q hq => passes_qualifier c.idSuffix_valid (h.qualifiers q hq)
  · cases hp : s.pseudo with
    | none => exact passes_of_isOrdinary fun t ht => absurd ht List.not_mem_nil
    | some p =>
      refine passes_pseudo (h.known p hp) fun hfalse => ?_
      have := hs hfalse
      rw [Compound.isSensitive, hp] at this
      simpa using this

theorem mem_combinatorReading {combinator t : Token} (h : isCombinator combinator)
    (ht : t ∈ combinatorReading combinator) : t ∈ [Token.space, ['>'], ['+'], ['~']] := by
  rcases cases_of_isCombinator h with rfl | rfl | rfl | rfl <;>
    exact (by decide :
      ∀ t ∈ combinatorReading _, t ∈ [Token.space, ['>'], ['+'], ['~']]) t ht

theorem isOrdinary_of_mem_combinatorReading {combinator : Token}
    (h : isCombinator combinator) :
    ∀ t ∈ combinatorReading combinator, isOrdinary t := fun t ht =>
  (by decide : ∀ t ∈ [Token.space, ['>'], ['+'], ['~']], isOrdinary t) t
    (mem_combinatorReading h ht)

theorem passes_others {c : Confinement} {sensitive : Bool}
    {others : List (Token × Compound)}
    (h : ∀ o ∈ others, isCombinator o.1 ∧ o.2.IsPlain c.idSuffix)
    (hs : sensitive = false → others.any (·.2.isSensitive) = false) :
    Passes sensitive (others.flatMap fun (combinator, s) =>
      combinatorReading combinator ++ s.reading c.idSuffix) := by
  refine passes_flatMap fun o ho => ?_
  obtain ⟨combinator, s⟩ := o
  obtain ⟨hcombinator, hplain⟩ := h _ ho
  refine Passes.append ?_ (passes_compound hplain fun hfalse => ?_)
  · exact passes_of_isOrdinary (isOrdinary_of_mem_combinatorReading hcombinator)
  · simpa using List.any_eq_false.mp (hs hfalse) _ ho

theorem isOrdinary_of_mem_startReading (c : Confinement) :
    ∀ t ∈ c.startReading, isOrdinary t := by
  have hvalid := c.containerClass_valid
  unfold Confinement.startReading
  cases hclass : c.containerClass with
  | none => exact fun t ht => absurd ht List.not_mem_nil
  | some name =>
    rw [hclass] at hvalid
    obtain ⟨n, hn, hline⟩ := exists_isBareName_of_isIdentLine hvalid
    have hname := isOrdinary_of_mem_lineTokens hline hn.not_newline_mem hn.isOrdinary
    intro t ht
    rcases List.mem_append.mp ht with ht | ht
    · rcases List.mem_cons.mp ht with rfl | ht
      · decide
      · exact hname t ht
    · rw [List.mem_singleton.mp ht]
      decide

theorem passes_complex {c : Confinement} {sensitive : Bool} {s : Complex}
    (h : s.IsPlain c.idSuffix) (hs : sensitive = false → s.isSensitive = false) :
    Passes sensitive (s.reading c) := by
  refine Passes.append (Passes.append ?_ ?_) ?_
  · exact passes_of_isOrdinary (isOrdinary_of_mem_startReading c)
  · exact passes_compound h.first fun hfalse => (Bool.or_eq_false_iff.mp (hs hfalse)).1
  · exact passes_others h.others fun hfalse => (Bool.or_eq_false_iff.mp (hs hfalse)).2

theorem passes_listReading {c : Confinement} {sensitive : Bool} {ss : List Complex}
    (h : ∀ s ∈ ss, s.IsValid c ∧ (sensitive = false → s.isSensitive = false)) :
    Passes sensitive (listReading c ss) := by
  induction ss with
  | nil => exact passes_of_isOrdinary fun t ht => absurd ht List.not_mem_nil
  | cons s rest ih =>
    obtain ⟨⟨hvalid, hs⟩, hrest⟩ := List.forall_mem_cons.mp h
    cases rest with
    | nil => exact passes_complex hvalid.isPlain hs
    | cons s' rest =>
      refine Passes.append (Passes.append (passes_complex hvalid.isPlain hs) ?_)
        (ih hrest)
      exact passes_of_isOrdinary (by decide)

/-- The tokens of sanitized selectors fit. -/
theorem fits_listReading {c : Confinement} {ss : List Complex}
    (h : ∀ s ∈ ss, s.IsValid c) : fits false (listReading c ss) := by
  have hpasses : Passes true (listReading c ss) :=
    passes_listReading fun s hs => ⟨h s hs, by simp⟩
  have := hpasses.fits []
  rw [List.append_nil] at this
  rw [this]
  rfl

/-- The tokens of selectors that say nothing about visited links are quiet. -/
theorem isQuiet_listReading {c : Confinement} {ss : List Complex}
    (h : ∀ s ∈ ss, s.IsValid c ∧ s.isSensitive = false) :
    isQuiet false (listReading c ss) := by
  have hpasses : Passes false (listReading c ss) :=
    passes_listReading fun s hs => ⟨(h s hs).1, fun _ => (h s hs).2⟩
  have := hpasses.quiet rfl []
  rw [List.append_nil] at this
  rw [this]
  rfl

/-! ## The first token -/

/-- The tokens begin with a token that is no space. -/
def BeginsWithToken : List Token → Prop
  | t :: _ => t ≠ Token.space
  | [] => False

theorem BeginsWithToken.append {ts : List Token} (h : BeginsWithToken ts)
    (us : List Token) : BeginsWithToken (ts ++ us) := by
  cases ts with
  | nil => cases h
  | cons t ts => exact h

theorem beginsWithToken_lineTokens {c : Char} {t : Text} (hc : c ≠ ' ') (hne : t ≠ []) :
    BeginsWithToken (lineTokens (c :: t)) := by
  have hspace : ∀ u : Text, c :: u ≠ Token.space := fun u heq => hc (List.cons.inj heq).1
  unfold lineTokens
  split
  · rw [List.dropLast_cons_of_ne_nil hne]
    exact hspace _
  · exact hspace _

theorem beginsWithToken_qualifier {suffix : Text} {q : Qualifier} (h : q.IsPlain) :
    BeginsWithToken (q.reading suffix) := by
  cases q with
  | id name =>
    refine beginsWithToken_lineTokens (by decide) fun hnil => ?_
    have hplain : isPlainIdent name := h
    rw [(List.append_eq_nil_iff.mp hnil).1] at hplain
    cases hplain
  | className name =>
    show ['.'] ≠ Token.space
    decide
  | attr name test =>
    have hbracket : (['['] : Token) ≠ Token.space := by decide
    cases test <;> exact hbracket

theorem beginsWithToken_compound {suffix : Text} {s : Compound} (h : s.IsPlain suffix) :
    BeginsWithToken (s.reading suffix) := by
  have hne := h.ne_nil
  unfold Compound.reading
  by_cases helement : s.element = []
  · rw [if_pos helement, List.nil_append]
    cases hqs : s.qualifiers with
    | nil =>
      cases hp : s.pseudo with
      | none => simp [Compound.text, helement, hqs, hp] at hne
      | some p =>
        show BeginsWithToken p.reading
        have hcolon : Token.colon ≠ Token.space := by decide
        unfold Pseudo.reading
        split <;> exact hcolon
    | cons q qs =>
      rw [List.flatMap_cons, List.append_assoc]
      refine (beginsWithToken_qualifier (h.qualifiers q ?_)).append _
      rw [hqs]
      exact List.mem_cons_self ..
  · rw [if_neg helement]
    show s.element ≠ Token.space
    rcases h.element with hnone | hstar | hident
    · exact absurd hnone helement
    · rw [hstar]
      decide
    · intro heq
      rw [heq] at hident
      exact absurd hident (by decide)

theorem beginsWithToken_complex {c : Confinement} {s : Complex}
    (h : s.IsPlain c.idSuffix) : BeginsWithToken (s.reading c) := by
  unfold Complex.reading Confinement.startReading
  split
  · exact (beginsWithToken_compound h.first).append _
  · show ['.'] ≠ Token.space
    decide

/-- The tokens of sanitized selectors begin with a token that is no space. -/
theorem beginsWithToken_listReading {c : Confinement} {ss : List Complex}
    (h : ∀ s ∈ ss, s.IsValid c) (hne : ss ≠ []) : BeginsWithToken (listReading c ss) := by
  obtain ⟨s, rest, rfl⟩ := List.exists_cons_of_ne_nil hne
  have hs := beginsWithToken_complex (h s (List.mem_cons_self ..)).isPlain
  cases rest with
  | nil => exact hs
  | cons s' rest => exact (hs.append _).append _

end CssGuard
