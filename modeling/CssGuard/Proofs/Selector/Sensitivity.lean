import CssGuard.Proofs.Selector.Grammar
import CssGuard.Proofs.Selector.Lists
import CssGuard.Proofs.Selector.Scope

/-!
# Selectors that tell visited links from others

A sanitized selector is kept apart from the others exactly if it is read back with a
pseudo-class that tells visited links from others. The compound selectors with such a
pseudo-class are links, unless the suffix of ids ends with a newline: the newline is read
as a combinator, and what follows it is a compound selector of its own.

- `MentionsHistory`: a pseudo-class that tells visited links
  from others is among the tokens
- `LinksAreNamed`: compound selectors with such a pseudo-class are links
- `isQuiet_reading`: where a selector mentions such a pseudo-class
- `mem_compoundsOf_reading`: the compound selectors that are read back
- `sensitive_iff_mentionsHistory`: all sanitized selectors
-/

namespace CssGuard

open Text

/-- A colon stands right before a pseudo-class that tells visited links from others. -/
def MentionsHistory (ts : List Token) : Prop :=
  ∃ name ∈ historyPseudoClasses, [Token.colon, name] <:+: ts

/-- Every compound selector that ends with such a pseudo-class
begins with the name of a link. -/
def LinksAreNamed (c : Confinement) (ts : List Token) : Prop :=
  ∀ part ∈ compoundsOf ts, ∀ name ∈ historyPseudoClasses, [Token.colon, name] <:+ part →
    part.head? = c.tagPolicy ['a']

theorem Complex.Satisfies.isPlain {c : Confinement} {s : Complex}
    (h : s.Satisfies fun _ compound => compound.IsPlain c.idSuffix ∧
      compound.NamesLinks c) :
    s.IsPlain c.idSuffix where
  first := h.first.1
  others o ho := (forall_of_othersSatisfy h.others o ho).imp_right And.left

/-! ## Pseudo-classes that are mentioned -/

theorem MentionsHistory.mono {ts us : List Token} (h : MentionsHistory ts)
    (hwithin : ts <:+: us) : MentionsHistory us := by
  obtain ⟨name, hname, hmention⟩ := h
  exact ⟨name, hname, hmention.trans hwithin⟩

theorem mentionsHistory_of_not_isQuiet {ts : List Token} {after : Bool}
    (h : isQuiet after ts = false) :
    (after ∧ ∃ name ∈ historyPseudoClasses, ts.head? = some name) ∨
    MentionsHistory ts := by
  induction ts generalizing after with
  | nil => cases h
  | cons t ts ih =>
    rw [isQuiet, Bool.and_eq_false_iff] at h
    rcases h with h | h
    · -- the pseudo-class stands right here
      obtain ⟨hafter, ht⟩ := Bool.and_eq_true_iff.mp (Bool.not_eq_eq_eq_not.mp h)
      exact .inl ⟨hafter, t, of_decide_eq_true ht, rfl⟩
    · rcases ih h with ⟨hcolon, name, hname, hhead⟩ | hmention
      · obtain ⟨us, rfl⟩ := List.head?_eq_some_iff.mp hhead
        rw [of_decide_eq_true hcolon]
        exact .inr ⟨name, hname, [], us, rfl⟩
      · exact .inr (hmention.mono (List.suffix_cons t ts).isInfix)

theorem mentionsHistory_iff {ts : List Token} :
    MentionsHistory ts ↔ isQuiet false ts = false := by
  constructor
  · rintro ⟨name, hname, hwithin⟩
    exact Bool.eq_false_iff.mpr fun hquiet => not_infix_of_isQuiet hquiet hname hwithin
  · intro h
    exact (mentionsHistory_of_not_isQuiet h).resolve_left fun hafter =>
      absurd hafter.1 (by decide)

theorem isQuiet_consCollapsed (after : Bool) (t : Token) (ts : List Token) :
    isQuiet after (consCollapsed t ts) = isQuiet after (t :: ts) := by
  unfold consCollapsed
  split
  · rename_i h
    obtain ⟨rfl, hnil | hhead⟩ := h
    · rw [hnil, isQuiet_space]
      rfl
    · obtain ⟨us, rfl⟩ := List.head?_eq_some_iff.mp hhead
      rw [isQuiet_space, isQuiet_space, isQuiet_space]
  · rfl

/-- Spaces that are collapsed separate a colon from a name no less than before. -/
theorem isQuiet_collapseSpaces (ts : List Token) :
    isQuiet false (collapseSpaces ts) = isQuiet false ts := by
  have hfold : ∀ after, isQuiet after (ts.foldr consCollapsed []) = isQuiet after ts := by
    induction ts with
    | nil => exact fun _ => rfl
    | cons t ts ih =>
      intro after
      rw [List.foldr_cons, isQuiet_consCollapsed, isQuiet, isQuiet, ih]
  have hdrop : ∀ us : List Token, isQuiet false (us.dropWhile (· = Token.space)) =
      isQuiet false us := by
    intro us
    induction us with
    | nil => rfl
    | cons t us ih =>
      by_cases ht : t = Token.space
      · rw [List.dropWhile_cons_of_pos (by simpa using ht), ih, ht, isQuiet_space]
      · rw [List.dropWhile_cons_of_neg (by simpa using ht)]
  rw [collapseSpaces, hdrop, hfold]

theorem mentionsHistory_compound (suffix : Text) {s : Compound} (h : s.isSensitive) :
    MentionsHistory (s.reading suffix) := by
  obtain ⟨p, hp, hhistory⟩ := (Option.any_eq_true _ _).mp h
  have hreading : [Token.colon, p.name] <:+ p.reading := by
    unfold Pseudo.reading
    split
    · exact List.suffix_append [Token.colon] [Token.colon, p.name]
    · exact List.suffix_refl _
  refine ⟨p.name, of_decide_eq_true hhistory, ?_⟩
  rw [Compound.reading, hp, Option.elim_some]
  exact (hreading.trans (List.suffix_append _ _)).isInfix

section Confinement

variable {c : Confinement} {s : Complex}

/-- A selector mentions such a pseudo-class exactly if one of its
compound selectors has one. -/
theorem isQuiet_reading (h : s.IsPlain c.idSuffix) :
    isQuiet false (s.reading c) = !s.isSensitive := by
  cases hsensitive : s.isSensitive with
  | false =>
    have hquiet := (passes_complex h fun _ => hsensitive).quiet rfl []
    rwa [List.append_nil] at hquiet
  | true =>
    refine mentionsHistory_iff.mp ?_
    rw [Complex.reading]
    rcases Bool.or_eq_true_iff.mp hsensitive with hfirst | hothers
    · have hwithin : s.first.reading c.idSuffix <:+: c.startReading ++
          s.first.reading c.idSuffix :=
        (List.suffix_append _ _).isInfix
      exact (mentionsHistory_compound _ hfirst).mono
        (hwithin.trans (List.prefix_append _ _).isInfix)
    · obtain ⟨o, ho, hcompound⟩ := List.any_eq_true.mp hothers
      refine (mentionsHistory_compound c.idSuffix hcompound).mono ?_
      refine List.IsInfix.trans ?_ (List.suffix_append _ _).isInfix
      refine (List.suffix_append (combinatorReading o.1) _).isInfix.trans ?_
      exact List.infix_of_mem_flatten (List.mem_map.mpr ⟨o, ho, rfl⟩)

theorem value_lex_text (h : s.IsPlain c.idSuffix) :
    (lex (s.text c)).value = collapseSpaces (s.reading c) := by
  rw [lex_of_reads (reads_complex h)]
  rfl

/-- What a sanitized selector mentions when it is read back. -/
theorem mentionsHistory_lex_text (h : s.IsPlain c.idSuffix) :
    MentionsHistory (lex (s.text c)).value ↔ s.isSensitive := by
  rw [mentionsHistory_iff, value_lex_text h, isQuiet_collapseSpaces, isQuiet_reading h,
    Bool.not_eq_false']

/-! ## Compound selectors that are read back -/

/-- The container is a class and a space, whether or not there is a newline in it. -/
theorem foldl_startReading (c : Confinement) :
    c.startReading = [] ∨ ∃ n, IsPiece n ∧
    c.startReading.foldl SpaceScan.next ⟨0, []⟩ = ⟨0, [Token.space, n, ['.']]⟩ := by
  have hvalid := c.containerClass_valid
  unfold Confinement.startReading
  cases hclass : c.containerClass with
  | none => exact .inl rfl
  | some name =>
    rw [hclass] at hvalid
    obtain ⟨n, hn, hline⟩ := exists_isBareName_of_isIdentLine hvalid
    have hpiece := isPiece_of_isBareName hn
    have hclass : [['.'], n].foldl SpaceScan.next ⟨0, []⟩ = ⟨0, [n, ['.']]⟩ :=
      foldl_pieces (List.forall_mem_cons.mpr ⟨isPiece_of_head (by decide) (by decide),
        List.forall_mem_singleton.mpr hpiece⟩) 0 []
    have hspace := next_space hpiece.solid [['.']]
    refine .inr ⟨n, hpiece, ?_⟩
    dsimp only
    rcases lineTokens_cases hn.not_newline_mem hline with heq | heq
    · rw [heq]
      show ([['.'], n] ++ [Token.space]).foldl SpaceScan.next _ = _
      rw [List.foldl_append, hclass]
      exact hspace
    · rw [heq]
      show ([['.'], n] ++ [Token.space] ++ [Token.space]).foldl SpaceScan.next _ = _
      rw [List.foldl_append, List.foldl_append, hclass, List.foldl_cons, List.foldl_nil,
        List.foldl_cons, List.foldl_nil, hspace]
      rfl

theorem compoundsOf_collapseSpaces (ts : List Token) :
    compoundsOf (collapseSpaces ts) = compoundsOf ts := by
  rw [compoundsOf, normalizeSpaces_collapseSpaces]
  rfl

/-- The compound selectors that are read back are the class of the container
and those that were written. -/
theorem mem_compoundsOf_reading (hnew : '\n' ∉ c.idSuffix) (h : s.IsPlain c.idSuffix)
    {part : List Token} (hpart : part ∈ compoundsOf (s.reading c)) :
    (∃ n, part = [['.'], n]) ∨ ∃ compound ∈ s.compounds,
    part = compound.tokens c.idSuffix := by
  obtain ⟨hscan, hends⟩ := scans_body hnew h
  have hparts := s.toList_parts c.idSuffix
  rw [compoundsOf, Complex.reading_eq] at hpart
  rcases foldl_startReading c with hstart | ⟨n, hn, hstart⟩
  · rw [hstart, List.nil_append, normalizeSpaces_body hnew h, splitAtTop_tokens hnew h,
      hparts] at hpart
    obtain ⟨compound, hcompound, rfl⟩ := List.mem_map.mp hpart
    exact .inr ⟨compound, hcompound, rfl⟩
  · have hspaces : normalizeSpaces (c.startReading ++ s.body c.idSuffix) =
        [['.'], n] ++ Token.space :: s.tokens c.idSuffix := by
      rw [normalizeSpaces, List.foldl_append, hstart, hscan, trimmed_of_endsSolid hends,
        List.reverse_append, List.reverse_reverse]
      rfl
    have hclass : Unsplit isCombinator [['.'], n] := unsplit_pieces isCombinator_of_solid
      (List.forall_mem_cons.mpr ⟨isPiece_of_head (by decide) (by decide),
        List.forall_mem_singleton.mpr hn⟩)
    have hsplit : splitAtTop isCombinator 0 (Token.space :: s.tokens c.idSuffix) =
        (s.parts c.idSuffix).separate Token.space := by
      rw [← splitAtTop_tokens hnew h]
      rfl
    rw [hspaces, hclass, hsplit] at hpart
    rcases List.mem_cons.mp hpart with rfl | hpart
    · exact .inl ⟨n, rfl⟩
    · have hmem : part ∈ (s.parts c.idSuffix).toList := hpart
      rw [hparts] at hmem
      obtain ⟨compound, hcompound, rfl⟩ := List.mem_map.mp hmem
      exact .inr ⟨compound, hcompound, rfl⟩

/-- A compound selector that ends with such a pseudo-class is a link. -/
theorem head?_tokens {compound : Compound} (hplain : compound.IsPlain c.idSuffix)
    (hlinks : compound.NamesLinks c)
    (hpolicy : ∀ name element, c.tagPolicy name = some element → isPlainIdent element)
    {name : Text} (hname : name ∈ historyPseudoClasses)
    (hends : [Token.colon, name] <:+ compound.tokens c.idSuffix) :
    (compound.tokens c.idSuffix).head? = c.tagPolicy ['a'] := by
  have hcolon : name ≠ Token.colon := by
    rintro rfl
    exact absurd hname (by decide)
  obtain ⟨p, hp, rfl⟩ := exists_pseudo_of_infix hplain hends.isInfix hcolon
  have hlink := hlinks p hp (decide_eq_true hname)
  have helement : compound.element ≠ [] := by
    intro heq
    exact absurd (hpolicy _ _ hlink) (by rw [heq]; decide)
  rw [hlink, Compound.tokens, if_neg helement]
  rfl

theorem linksAreNamed_text (hnew : '\n' ∉ c.idSuffix)
    (hpolicy : ∀ name element, c.tagPolicy name = some element → isPlainIdent element)
    (h : s.Satisfies fun _ compound => compound.IsPlain c.idSuffix ∧
      compound.NamesLinks c) :
    LinksAreNamed c (lex (s.text c)).value := by
  have hothers := forall_of_othersSatisfy h.others
  have hplain := h.isPlain
  rw [value_lex_text hplain]
  intro part hpart name hname hends
  rw [compoundsOf_collapseSpaces] at hpart
  rcases mem_compoundsOf_reading hnew hplain hpart with
    ⟨n, rfl⟩ | ⟨compound, hcompound, rfl⟩
  · -- the class of the container has no pseudo-class
    have heq := hends.eq_of_length rfl
    cases heq
  · rcases List.mem_cons.mp hcompound with rfl | hcompound
    · exact head?_tokens h.first.1 h.first.2 hpolicy hname hends
    · obtain ⟨o, ho, rfl⟩ := List.mem_map.mp hcompound
      exact head?_tokens (hothers o ho).2.1 (hothers o ho).2.2 hpolicy hname hends

end Confinement

/-! ## A newline in the suffix -/

/-- What follows a space outside brackets is a compound selector of its own. -/
theorem mem_compoundsOf_append {ts us kept : List Token} {t : Token}
    (hts : ts.foldl SpaceScan.next ⟨0, []⟩ = ⟨0, t :: kept⟩) (ht : absorbsSpace t = false)
    (hne : us ≠ []) (hus : ∀ u ∈ us, IsPiece u) :
    us ∈ compoundsOf (ts ++ Token.space :: us) := by
  have hflat : ∀ t, isCombinator t → bracketDepth 0 t = 0 := by
    intro t ht
    rcases cases_of_isCombinator ht with rfl | rfl | rfl | rfl <;> rfl
  have hspaces : normalizeSpaces (ts ++ Token.space :: us) =
      (t :: kept).reverse ++ Token.space :: us := by
    rw [normalizeSpaces, List.foldl_append, hts, List.foldl_cons, next_space ht,
      foldl_pieces hus, trimmed_of_endsSolid (endsSolid_pieces hne hus),
      List.reverse_append, List.reverse_reverse, List.reverse_cons, List.append_assoc]
    rfl
  have hdepth : (t :: kept).reverse.foldl bracketDepth 0 = 0 := by
    have hkept := SpaceScan.keptDepth_foldl_next (s := ⟨0, []⟩) rfl ts
    rw [hts] at hkept
    exact (SpaceScan.foldl_bracketDepth_reverse _).trans hkept
  have hsplit := unsplit_pieces isCombinator_of_solid hus []
  rw [List.append_nil] at hsplit
  rw [compoundsOf, hspaces, splitAtTop_append hflat rfl hdepth, Parts.toList_join, hsplit]
  refine List.mem_append_right _ (List.mem_cons.mpr (.inl ?_))
  exact (List.append_nil _).symm

/-- A link with an id. -/
def linkWithId (link : Text) : Complex :=
  ⟨⟨link, [.id ['x']], some ⟨false, "link"⟩⟩, []⟩

theorem isPlain_linkWithId {link : Text} (h : isPlainIdent link) (suffix : Text) :
    (linkWithId link).IsPlain suffix where
  first :=
    { element := .inr (.inr h)
      qualifiers := List.forall_mem_singleton.mpr (by decide : isPlainIdent ['x'])
      known := by
        rintro p ⟨⟩
        decide
      ne_nil := by simp [linkWithId, Compound.text, Qualifier.text] }
  others := fun o ho => absurd ho List.not_mem_nil

/-- A link with an id is let through where links have a name. -/
theorem text_linkWithId_mem {ctx : SelectorContext} {link : Text}
    (hlink : ctx.confinement.tagPolicy ['a'] = some link) :
    (linkWithId link).text ctx.confinement ∈
      (sanitizeSelectors ctx (lex "#x:link").value).value.sensitive := by
  have hselectors : splitSelectors (lex "#x:link").value =
      [[['#', 'x'], Token.colon, "link".toList]] := by
    decide +kernel
  have hcompound : IsCompound (ctx.compound true) [['#', 'x'], Token.colon, "link".toList]
      ⟨Subject.none, [.id ['x']], some ⟨false, "link"⟩⟩ :=
    .intro .none (.cons (@IsQualifier.id _ _ ['x'] (by decide))
      (.ending (@IsEnding.pseudoClass "link" (by decide))))
  have hfits : Analysis.Fits (ctx.compound true)
      ⟨Subject.none, [.id ['x']], some ⟨false, "link"⟩⟩ := by
    rintro p ⟨⟩
    refine ⟨fun _ => ⟨.inl rfl, ?_⟩, fun hroot => absurd hroot (by decide)⟩
    show (ctx.confinement.tagPolicy ['a']).isSome
    rw [hlink]
    rfl
  have hwritten : Analysis.written ctx.confinement
      ⟨Subject.none, [.id ['x']], some ⟨false, "link"⟩⟩ = (linkWithId link).first := by
    have helement : ctx.confinement.elementFor Subject.none (some ⟨false, "link"⟩) =
        link := by
      rw [Confinement.elementFor, if_pos (by decide), hlink]
      rfl
    rw [Analysis.written, helement]
    rfl
  have hcomplex := sanitizeComplex_of_isCompound ctx hcompound hfits (by
    rw [hwritten]
    simp [linkWithId, Compound.text, Qualifier.text])
  rw [hwritten] at hcomplex
  rw [sanitizeSelectors, hselectors, sanitizeEach, sanitizeSelector,
    if_neg (by decide), hcomplex]
  exact List.mem_singleton_self _

/-- A newline at the end of an id is read as a space. -/
theorem exists_lineTokens_id {name suffix : Text} (hname : isPlainIdent name)
    (hsuffix : isIdSuffix suffix) (hnew : '\n' ∈ suffix) :
    ∃ n, IsPiece ('#' :: n) ∧ lineTokens ('#' :: name ++ suffix) = ['#' :: n,
      Token.space] := by
  obtain ⟨n, hn, hline⟩ := exists_name_suffix (isBareName_of_isPlainIdent hname) hsuffix
  refine ⟨n, isPiece_hash fun hmem => absurd (hn.all _ hmem) (by decide), ?_⟩
  rcases hline with heq | heq
  · exact absurd (heq ▸ List.mem_append_right name hnew) hn.not_newline_mem
  · rw [List.cons_append, heq, ← List.cons_append, lineTokens,
      if_pos List.getLast?_concat, List.dropLast_concat]

/-- After a newline the pseudo-class stands alone. -/
theorem mem_compoundsOf_linkWithId {c : Confinement} (hnew : '\n' ∈ c.idSuffix)
    {link : Text} (hident : isPlainIdent link) :
    [Token.colon, "link".toList] ∈ compoundsOf ((linkWithId link).reading c) := by
  obtain ⟨n, hn, hid⟩ :=
    @exists_lineTokens_id ['x'] c.idSuffix (by decide) c.idSuffix_valid hnew
  have hreading : (linkWithId link).reading c =
      (c.startReading ++ [link, '#' :: n]) ++ Token.space :: [Token.colon,
        "link".toList] := by
    have hne : link ≠ [] := by
      rintro rfl
      exact absurd hident (by decide)
    have hid : lineTokens ('#' :: 'x' :: c.idSuffix) = ['#' :: n, Token.space] := hid
    simp [Complex.reading, linkWithId, Compound.reading, Qualifier.reading,
      Pseudo.reading, hid, hne]
  obtain ⟨kept, hkept⟩ : ∃ kept, c.startReading.foldl SpaceScan.next ⟨0,
      []⟩ = ⟨0, kept⟩ := by
    rcases foldl_startReading c with hstart | ⟨m, -, hstart⟩
    · exact ⟨[], by rw [hstart]; rfl⟩
    · exact ⟨_, hstart⟩
  have hscan : (c.startReading ++ [link, '#' :: n]).foldl SpaceScan.next ⟨0, []⟩ =
      ⟨0, ('#' :: n) :: link :: kept⟩ := by
    have hpieces : ∀ t ∈ [link, '#' :: n], IsPiece t := List.forall_mem_cons.mpr
      ⟨isPiece_of_isPlainIdent hident, List.forall_mem_singleton.mpr hn⟩
    rw [List.foldl_append, hkept, foldl_pieces hpieces]
    rfl
  rw [hreading]
  exact mem_compoundsOf_append hscan hn.solid (List.cons_ne_nil _ _)
    (isPiece_pseudo (p := ⟨false, "link"⟩) (by decide))

theorem not_linksAreNamed_linkWithId {c : Confinement} (hnew : '\n' ∈ c.idSuffix)
    {link : Text} (hlink : c.tagPolicy ['a'] = some link) (hident : isPlainIdent link) :
    ¬ LinksAreNamed c (lex ((linkWithId link).text c)).value := by
  intro hnamed
  have hmem := mem_compoundsOf_linkWithId hnew hident
  rw [value_lex_text (isPlain_linkWithId hident _)] at hnamed
  rw [← compoundsOf_collapseSpaces] at hmem
  have hhead := hnamed _ hmem "link" (by decide) (List.suffix_refl _)
  rw [hlink] at hhead
  exact ne_colon_of_isPlainIdent hident (Option.some.inj hhead)

/-! ## Sanitized selectors -/

/-- Where links have no name, nothing is let through that tells
visited links from others. -/
theorem isSome_of_isSensitive {c : Confinement} {s : Complex}
    (h : s.Satisfies fun _ compound => compound.IsPlain c.idSuffix ∧
      compound.NamesLinks c)
    (hsensitive : s.isSensitive) : (c.tagPolicy ['a']).isSome := by
  have hcompound : ∀ {compound : Compound}, compound.NamesLinks c → compound.isSensitive →
      (c.tagPolicy ['a']).isSome := by
    intro compound hlinks hs
    obtain ⟨p, hp, hhistory⟩ := (Option.any_eq_true _ _).mp hs
    rw [hlinks p hp hhistory]
    rfl
  rcases Bool.or_eq_true_iff.mp hsensitive with hfirst | hothers
  · exact hcompound h.first.2 hfirst
  · obtain ⟨o, ho, hs⟩ := List.any_eq_true.mp hothers
    exact hcompound (forall_of_othersSatisfy h.others o ho).2.2 hs

/-- A selector is kept apart from the others exactly if it is read back with a
pseudo-class that tells visited links from others. All compound selectors with such a
pseudo-class are links, except where links have a name and the suffix of ids has a newline
in it. -/
theorem sensitive_iff_mentionsHistory {ctx : SelectorContext}
    (hpolicy : ∀ name element, ctx.confinement.tagPolicy name = some element →
      isPlainIdent element) :
    (∀ (css : Text), ∀ t ∈ (sanitizeSelectors ctx (lex css).value).value.insensitive ++
        (sanitizeSelectors ctx (lex css).value).value.sensitive,
      t ∈ (sanitizeSelectors ctx (lex css).value).value.sensitive ↔
        MentionsHistory (lex t).value) ∧
    ((∀ (css : Text), ∀ t ∈ (sanitizeSelectors ctx (lex css).value).value.sensitive,
        LinksAreNamed ctx.confinement (lex t).value) ↔
      '\n' ∉ ctx.confinement.idSuffix ∨ ctx.confinement.tagPolicy ['a'] = none) := by
  have hconsists := fun css : Text => consistsOf_sanitizeSelectors
    (P := fun _ s => s.IsPlain ctx.confinement.idSuffix ∧ s.NamesLinks ctx.confinement)
    (fun hshape h => exists_isPlain_of_sanitizeCompound hpolicy hshape h)
    fun token (htoken : token ∈ (lex css).value) => shape_of_mem_lex htoken
  refine ⟨fun css t ht => ⟨fun hmem => ?_, fun hmention => ?_⟩, fun hall => ?_,
    fun hsafe css t ht => ?_⟩
  · obtain ⟨s, hs, hsensitive, rfl⟩ := (hconsists css).sensitive t hmem
    exact (mentionsHistory_lex_text hs.isPlain).mpr hsensitive
  · rcases List.mem_append.mp ht with hi | hs
    · obtain ⟨s, hs, hinsensitive, rfl⟩ := (hconsists css).insensitive t hi
      rw [mentionsHistory_lex_text hs.isPlain, hinsensitive] at hmention
      cases hmention
    · exact hs
  · -- a link with an id tells whether there is a newline
    by_cases hnew : '\n' ∈ ctx.confinement.idSuffix
    · right
      cases hlink : ctx.confinement.tagPolicy ['a'] with
      | none => rfl
      | some link =>
        exact absurd (hall "#x:link" _ (text_linkWithId_mem hlink))
          (not_linksAreNamed_linkWithId hnew hlink (hpolicy _ _ hlink))
    · exact .inl hnew
  · obtain ⟨s, hs, hsensitive, rfl⟩ := (hconsists css).sensitive t ht
    -- where links have no name there is no such selector
    rcases hsafe with hnew | hnone
    · exact linksAreNamed_text hnew hpolicy hs
    · have hsome := isSome_of_isSensitive hs hsensitive
      rw [hnone] at hsome
      cases hsome

/-- A pseudo-class in capitals is mentioned, and a string that looks like one is not. -/
theorem sensitive_iff_mentionsHistory_string :
    (sanitizeSelectors { confinement := .standard }
      (lex "p > *:VISITED b, [title=':link']").value).value =
      ⟨["[title=\":link\"]"], ["p > a:visited b"]⟩ ∧
    ¬ MentionsHistory (lex "[title=\":link\"]").value ∧
    MentionsHistory (lex "p > a:visited b").value ∧
    LinksAreNamed .standard (lex "p > a:visited b").value := by
  have hpolicy : ∀ name element, Confinement.standard.tagPolicy name = some element →
      isPlainIdent element :=
    fun _ _ h => isPlainIdent_of_mem_safeElements _ (mem_safeElements_of_standard h).1
  have hvalue : (sanitizeSelectors { confinement := .standard }
      (lex "p > *:VISITED b, [title=':link']").value).value =
      ⟨["[title=\":link\"]"], ["p > a:visited b"]⟩ := by
    decide +kernel
  obtain ⟨hmentions, hlinks⟩ :=
    @sensitive_iff_mentionsHistory { confinement := .standard } hpolicy
  have hmentions := hmentions "p > *:VISITED b, [title=':link']"
  have hlinks := hlinks.mpr (.inl List.not_mem_nil) "p > *:VISITED b, [title=':link']"
  rw [hvalue] at hmentions hlinks
  refine ⟨hvalue, fun hmention => ?_, ?_, hlinks _ (List.mem_singleton_self _)⟩
  · exact absurd ((hmentions _ (by decide)).mpr hmention) (by decide)
  · exact (hmentions _ (by decide)).mp (by decide)

/-- A confinement whose suffix is a newline. -/
def lined : Confinement :=
  { Confinement.standard with idSuffix := ['\n'], idSuffix_valid := by decide }

/-- After a newline, what was written for a link is no link any more. -/
theorem not_linksAreNamed_lined :
    (sanitizeSelectors { confinement := lined } (lex "#x:link").value).value =
      ⟨[], ["a#x\n:link"]⟩ ∧
    (lex "a#x\n:link").value =
      [['a'], ['#', 'x'], Token.space, Token.colon, "link".toList] ∧
    ¬ LinksAreNamed lined (lex "a#x\n:link").value := by
  refine ⟨by decide +kernel, by decide +kernel, fun hnamed => ?_⟩
  have hmem : [Token.colon, "link".toList] ∈ compoundsOf (lex "a#x\n:link").value := by
    decide +kernel
  have hhead := hnamed _ hmem "link" (by decide) (List.suffix_refl _)
  exact absurd hhead (by decide)

end CssGuard
