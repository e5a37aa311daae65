import CssGuard.Proofs.Selector.Scope

/-!
# Sanitizing selectors again

Without a container and a suffix, a sanitized list of selectors that is read
back and sanitized again stays as it is: each selector is let through once
more, and with the same text.

- `Confinement.IsBare`: nothing is added to a selector, and no
  name of an element is changed
- `isCompound_tokens`, `sanitizeCompound_tokens`: the parts of a selector
- `sanitizeSelector_tokens`: one selector of a list
- `Selection.ofComplexes`: complex selectors, each in the list where it belongs
- `value_sanitizeSelectors_reading`: a whole list
- `sanitizeSelectors_again`: each selector that is left of a list, by itself
- `IsUnnamed`, `IsUnselectable`: the characters that no selector has by itself
-/

namespace CssGuard

open Text Escape

/-- Nothing is added to a selector, and the elements are the standard ones. -/
structure Confinement.IsBare (c : Confinement) : Prop where
  tagPolicy : c.tagPolicy = TagPolicy.standard
  unsuffixed : c.idSuffix = []
  uncontained : c.containerClass = none

theorem Confinement.IsBare.not_newline_mem {c : Confinement} (h : c.IsBare) :
    '\n' ∉ c.idSuffix := by
  rw [h.unsuffixed]
  exact List.not_mem_nil

/-! ## Attributes -/

/-- The tokens of a test, without spaces. -/
def testTokens : Option AttributeTest → List Token
  | none => []
  | some t => [t.operator, quote t.value] ++ if t.ignoresCase then [['i']] else []

theorem tokens_attr (suffix name : Text) (test : Option AttributeTest) :
    (Qualifier.attr name test).tokens suffix =
      ['['] :: ((name :: testTokens test) ++ [[']']]) := by
  cases test with
  | none => rfl
  | some t => simp [Qualifier.tokens, testTokens]

theorem isTestValue_quote {s : Text} (h : '\x00' ∉ s) : IsTestValue (quote s) s := by
  have hvalue := IsTestValue.string (stringBody?_quote s)
  rwa [decode_escapeString h] at hvalue

theorem isIdentLine_of_isPlainIdent {n : Text} (h : isPlainIdent n) : isIdentLine n := by
  rw [isIdentLine, isLineOf, h]
  rfl

/-- An attribute selector that was let through has the form of
one, and is written as it is. -/
theorem isAttribute_testTokens {element name : Text} {test : Option AttributeTest}
    (h : (Qualifier.attr name test).IsValid [] element) :
    IsAttribute [] standardAttributes element (name :: testTokens test)
      (.attr name test) := by
  obtain ⟨hname, hlower, kind, hkind, htest⟩ := h
  have hident := isIdentLine_of_isPlainIdent hname
  have hkind' : attributeKind? standardAttributes element (lower name) = some kind := by
    rw [hlower, hkind]
  cases test with
  | none =>
    have hpresent : IsAttribute [] standardAttributes element [name] _ :=
      .present hident hkind'
    rwa [hlower] at hpresent
  | some t =>
    obtain ⟨hoperator, hvalue, hcarries⟩ := htest t rfl
    obtain ⟨operator, value, ignoresCase⟩ := t
    have hcarried := hcarries rfl
    have hflag : lower ['i'] = ['i'] := by decide
    cases ignoresCase with
    | false =>
      have hcompared :=
        @IsAttribute.compared _ _ _ _ _ _ none _ _ _ hident hkind' hoperator
          (isTestValue_quote hvalue) (by simp) hcarried
      rwa [hlower] at hcompared
    | true =>
      have hcompared :=
        @IsAttribute.compared _ _ _ _ _ _ (some ['i']) _ _ _ hident hkind' hoperator
          (isTestValue_quote hvalue) (by simpa using hflag) hcarried
      rwa [hlower] at hcompared

/-! ## Compound selectors -/

section Compound

variable {ctx : CompoundContext} (htable : ctx.attributes = standardAttributes)
  (hbare : ctx.confinement.IsBare)

include htable hbare in
/-- A qualifier that was let through has the form of one, and is written as it is. -/
theorem isQualifier_tokens {element : Text} {q : Qualifier} (h : q.IsValid [] element) :
    IsQualifier ctx element (q.tokens []) q := by
  cases q with
  | id name =>
    have hid : IsQualifier ctx element ['#' :: name] (.id name) :=
      .id (IsSelectableName.selectable h)
    rwa [← List.append_nil ('#' :: name)] at hid
  | className name => exact .className (IsSelectableName.selectable h)
  | attr name test =>
    have hattribute := isAttribute_testTokens h
    rw [← htable, ← hbare.unsuffixed] at hattribute
    rw [tokens_attr]
    exact .attr hattribute

theorem lower_of_isKnown {p : Pseudo} (h : p.isKnown) : lower p.name = p.name :=
  (by decide : ∀ n ∈ pseudoClasses ++ historyPseudoClasses ++ pseudoElements,
    lower n = n) _ (mem_of_isKnown h)

/-- A pseudo-class that is known has the form of one. -/
theorem isEnding_reading {p : Pseudo} (h : p.isKnown) : IsEnding p.reading (some p) := by
  have hlower := lower_of_isKnown h
  obtain ⟨isElement, name⟩ := p
  dsimp only at hlower
  cases isElement with
  | true =>
    have hending :=
      @IsEnding.pseudoElement name (by rw [hlower]; exact of_decide_eq_true h)
    rwa [hlower] at hending
  | false =>
    have hending := @IsEnding.pseudoClass name (by
      rw [hlower]
      exact (Bool.or_eq_true_iff.mp h).imp of_decide_eq_true of_decide_eq_true)
    rwa [hlower] at hending

include htable hbare in
theorem arePieces_tokens {element : Text} {qs : List Qualifier}
    (hqs : ∀ q ∈ qs, q.IsValid [] element) {pseudo : Option Pseudo}
    (hknown : ∀ p ∈ pseudo, p.isKnown) :
    ArePieces ctx element (qs.flatMap (Qualifier.tokens []) ++
      pseudo.elim [] Pseudo.reading) qs pseudo := by
  induction qs with
  | nil =>
    refine .ending ?_
    cases pseudo with
    | none => exact .none
    | some p => exact isEnding_reading (hknown p rfl)
  | cons q qs ih =>
    obtain ⟨hq, hqs⟩ := List.forall_mem_cons.mp hqs
    rw [List.flatMap_cons, List.append_assoc]
    exact .cons (isQualifier_tokens htable hbare hq) (ih hqs)

include hbare in
/-- An element that was let through is accepted under its own name. -/
theorem isSubject_element {element : Text} (h : IsElement element) :
    IsSubject ctx (if element = [] then [] else [element]) ⟨element, element⟩ := by
  rcases h with rfl | rfl | hsafe
  · exact .none
  · exact .star
  · have hclass : ∀ n ∈ safeElements, lower n = n ∧ n ≠ [] ∧ n ≠ "html".toList := by
      decide +kernel
    obtain ⟨hlower, hne, hhtml⟩ := hclass element hsafe
    have hident := isIdentLine_of_isPlainIdent (isPlainIdent_of_mem_safeElements _ hsafe)
    have hpolicy : ctx.confinement.tagPolicy element = some element := by
      rw [hbare.tagPolicy]
      exact if_pos hsafe
    have helement := @IsSubject.element ctx element element
      (by rwa [hlower]) (fun heq => absurd (hlower.symm.trans heq) hhtml)
        (by rwa [hlower])
    rw [if_neg hne]
    rwa [hlower] at helement

/-- A compound selector that was let through, taken apart. -/
def Compound.analysis (s : Compound) : Analysis :=
  ⟨⟨s.element, s.element⟩, s.qualifiers, s.pseudo⟩

include htable hbare in
theorem isCompound_tokens {s : Compound} (h : s.IsValid ctx.confinement ctx.isLast) :
    IsCompound ctx (s.tokens []) s.analysis := by
  have hqualifiers := h.qualifiers
  rw [hbare.unsuffixed] at hqualifiers
  rw [Compound.tokens, List.append_assoc]
  exact .intro (isSubject_element hbare h.element)
    (arePieces_tokens htable hbare hqualifiers h.known)

include hbare in
/-- The pseudo-class of a compound selector that was let
through may stand where it does. -/
theorem fits_analysis {s : Compound} (h : s.IsValid ctx.confinement ctx.isLast) :
    s.analysis.Fits ctx := by
  intro p hp
  constructor
  · intro hvisited
    refine ⟨.inr (.inr (h.history p hp hvisited)), ?_⟩
    rw [hbare.tagPolicy]
    decide
  · intro hroot
    cases hlast : ctx.isLast with
    | true => exact .inl rfl
    | false => exact absurd hbare.uncontained (h.root p hp hroot hlast)

include hbare in
theorem written_analysis {s : Compound} (h : s.IsValid ctx.confinement ctx.isLast) :
    s.analysis.written ctx.confinement = s := by
  have helement : ctx.confinement.elementFor ⟨s.element, s.element⟩ s.pseudo =
      s.element := by
    cases hhistory : s.pseudo.any Pseudo.isHistory with
    | false => exact elementFor_of_not_isHistory hhistory
    | true =>
      obtain ⟨p, hp, hvisited⟩ := (Option.any_eq_true _ _).mp hhistory
      have hlink : TagPolicy.standard ['a'] = some ['a'] := if_pos (by decide)
      rw [Confinement.elementFor, if_pos hhistory, hbare.tagPolicy, hlink,
        h.history p hp hvisited]
      rfl
  rw [Analysis.written, Compound.analysis, helement]

include htable hbare in
/-- A compound selector that was let through is let through
again, and nothing is reported. -/
theorem sanitizeCompound_tokens {s : Compound}
    (h : s.IsValid ctx.confinement ctx.isLast) :
    sanitizeCompound ctx (s.tokens []) = pure (some ⟨s.text [], s.isSensitive⟩) := by
  have hwritten := written_analysis hbare h
  have hcompound := sanitizeCompound_of_isCompound (isCompound_tokens htable hbare h)
    (fits_analysis hbare h) (by rw [hwritten]; exact h.ne_nil)
  rwa [hwritten, hbare.unsuffixed] at hcompound

end Compound

/-! ## Complex selectors and lists -/

section Complex

variable {c : Confinement} (hbare : c.IsBare)

include hbare in
theorem sanitizeCompounds_parts {others : List (Token × Compound)}
    (h : AreOthers c others) :
    sanitizeCompounds { confinement := c } (others.map fun (combinator, s) =>
      (combinator, s.tokens [])) =
      pure (some ⟨others.flatMap fun (combinator, s) => combinatorText combinator ++
        s.text [], others.any (·.2.isSensitive)⟩) := by
  induction others with
  | nil => rfl
  | cons other rest ih =>
    obtain ⟨combinator, s⟩ := other
    obtain ⟨-, hs, hrest⟩ := h
    have hcompound := @sanitizeCompound_tokens
      ⟨c, standardAttributes, rest.isEmpty⟩ rfl hbare s hs
    rw [List.map_cons, sanitizeCompounds, List.isEmpty_map, hcompound, pure_bind]
    dsimp only
    rw [ih hrest, pure_bind, List.flatMap_cons, List.any_cons]

include hbare in
/-- A complex selector that was let through is let through
again, and nothing is reported. -/
theorem sanitizeSelector_tokens {s : Complex} (h : s.IsValid c) :
    sanitizeSelector { confinement := c } (s.tokens []) =
      pure (some ⟨s.text c, s.isSensitive⟩) := by
  have hnew := hbare.not_newline_mem
  obtain ⟨-, front, t, hconcat, -⟩ := scans_body hnew h.isPlain
  have hsplit := splitAtTop_tokens hnew h.isPlain
  rw [hbare.unsuffixed] at hconcat hsplit
  have hempty : (s.tokens []).isEmpty = false := by
    rw [hconcat]
    simp
  have hfirst := @sanitizeCompound_tokens
    ⟨c, standardAttributes, s.others.isEmpty⟩ rfl hbare s.first h.first
  have hcomplex : sanitizeComplex { confinement := c } (s.tokens []) =
      pure (some ⟨s.text c, s.isSensitive⟩) := by
    rw [sanitizeComplex, hsplit]
    dsimp only [Complex.parts]
    rw [List.isEmpty_map, hfirst, pure_bind]
    dsimp only
    rw [sanitizeCompounds_parts hbare h.others, pure_bind, Complex.text, hbare.unsuffixed,
      Complex.isSensitive]
  rw [sanitizeSelector, hempty, if_neg Bool.false_ne_true, hcomplex, pure_bind]

/-- The texts of complex selectors, each in the list where it belongs. -/
def Selection.ofComplexes (c : Confinement) (ss : List Complex) : Selection :=
  ⟨(ss.filter (!·.isSensitive)).map (Complex.text c),
    (ss.filter (·.isSensitive)).map (Complex.text c)⟩

include hbare in
/-- Selectors that were let through are let through again, and nothing is reported. -/
theorem sanitizeEach_tokens {ss : List Complex} (h : ∀ s ∈ ss, s.IsValid c) :
    sanitizeEach { confinement := c } (ss.map (Complex.tokens [])) =
      pure (Selection.ofComplexes c ss) := by
  induction ss with
  | nil => rfl
  | cons s rest ih =>
    obtain ⟨hs, hrest⟩ := List.forall_mem_cons.mp h
    rw [List.map_cons, sanitizeEach, sanitizeSelector_tokens hbare hs, pure_bind,
      ih hrest, pure_bind]
    simp only [Selection.cons, Selection.ofComplexes, List.filter_cons]
    cases s.isSensitive <;> rfl

end Complex

/-- A space at the end combines nothing. -/
theorem normalizeSpaces_concat_space (ts : List Token) :
    normalizeSpaces (ts ++ [Token.space]) = normalizeSpaces ts := by
  rw [normalizeSpaces, normalizeSpaces, List.foldl_append, List.foldl_cons,
    List.foldl_nil]
  generalize ts.foldl SpaceScan.next ⟨0, []⟩ = s
  unfold SpaceScan.next
  rw [if_pos rfl]
  split
  · rfl
  · rename_i hsolid
    have hhead : s.kept.head? ≠ some Token.space := by
      intro hhead
      rw [hhead] at hsolid
      exact hsolid (Bool.or_true _)
    rw [SpaceScan.trimmed, SpaceScan.trimmed, if_pos List.head?_cons, if_neg hhead]
    rfl

theorem splitSelectors_dropEndSpace (ts : List Token) :
    splitSelectors (dropEndSpace ts) = splitSelectors ts := by
  unfold dropEndSpace
  split
  · rename_i hlast
    obtain ⟨front, rfl⟩ := List.getLast?_eq_some_iff.mp hlast
    rw [List.dropLast_concat, splitSelectors, splitSelectors,
      normalizeSpaces_concat_space]
  · rfl

theorem stays_listReading {c : Confinement} (hbare : c.IsBare) {ss : List Complex}
    (h : ∀ s ∈ ss, s.IsValid c) : Stays (listReading c ss) := by
  have hbody : ∀ s : Complex, s.IsValid c → Stays (s.reading c) := by
    intro s hs
    rw [Complex.reading_eq, Confinement.startReading, hbare.uncontained]
    exact stays_body hbare.not_newline_mem hs.isPlain
  induction ss with
  | nil => exact stays_nil
  | cons s rest ih =>
    obtain ⟨hs, hrest⟩ := List.forall_mem_cons.mp h
    cases rest with
    | nil => exact hbody s hs
    | cons s' rest =>
      have hcomma : Stays [Token.comma] := stays_of_no_space (by decide)
      have hmore :=
        (ih hrest).space_cons (beginsWithToken_listReading hrest (List.cons_ne_nil _ _))
      rw [listReading_cons_cons, List.append_assoc]
      exact (hbody s hs).append (hcomma.append hmore)

/-- A sanitized list of selectors that is read back stays as it is. -/
theorem value_sanitizeSelectors_reading {c : Confinement} (hbare : c.IsBare)
    {ss : List Complex} (h : ∀ s ∈ ss, s.IsValid c) (hne : ss ≠ []) :
    (sanitizeSelectors { confinement := c }
      (dropEndSpace (squeeze (listReading c ss)))).value =
      Selection.ofComplexes c ss := by
  rw [sanitizeSelectors, splitSelectors_dropEndSpace,
    (stays_listReading hbare h).squeeze_eq,
    splitSelectors_listReading hbare.not_newline_mem hbare.uncontained h hne,
    hbare.unsuffixed, sanitizeEach_tokens hbare h, Traced.value_pure]

/-! ## Each selector by itself -/

/-- A selector that was let through, read back as a list of its own. -/
theorem sanitizeSelectors_text {c : Confinement} (hbare : c.IsBare) {s : Complex}
    (h : s.IsValid c) :
    (lex (s.text c)).trace = [] ∧
      sanitizeSelectors { confinement := c } (lex (s.text c)).value =
        pure (Selection.ofComplexes c [s]) := by
  have hnew := hbare.not_newline_mem
  have hlex := lex_complex hnew h (by rw [hbare.uncontained]; simp)
  have hsingle : ∀ s' ∈ [s], s'.IsValid c := List.forall_mem_singleton.mpr h
  have hsplit := splitSelectors_listReading hnew hbare.uncontained hsingle
    (List.cons_ne_nil _ _)
  rw [hbare.unsuffixed] at hsplit
  rw [hlex]
  refine ⟨rfl, ?_⟩
  show sanitizeEach _ (splitSelectors (listReading c [s])) = _
  rw [hsplit, sanitizeEach_tokens hbare hsingle]

/-- Every selector that is left of a list stays as it is: it is read back without a
report, and as a list of its own it is let through with the same text, into the same of
the two lists, and nothing is reported. -/
theorem sanitizeSelectors_again (css : Text) :
    (∀ t ∈ (sanitizeSelectors { confinement := .standard }
        (lex css).value).value.insensitive,
      (lex t).trace = [] ∧
        sanitizeSelectors { confinement := .standard } (lex t).value = ⟨⟨[t], []⟩, []⟩) ∧
    ∀ t ∈ (sanitizeSelectors { confinement := .standard }
        (lex css).value).value.sensitive,
      (lex t).trace = [] ∧
        sanitizeSelectors { confinement := .standard } (lex t).value =
          ⟨⟨[], [t]⟩, []⟩ := by
  have hbare : Confinement.standard.IsBare := ⟨rfl, rfl, rfl⟩
  have hvalid := @isValid_sanitizeSelectors { confinement := .standard } rfl rfl _
    fun token (htoken : token ∈ (lex css).value) => shape_of_mem_lex htoken
  constructor
  · intro t ht
    obtain ⟨s, hs, hsensitive, rfl⟩ := hvalid.insensitive t ht
    obtain ⟨hlex, hselection⟩ := sanitizeSelectors_text hbare hs
    refine ⟨hlex, hselection.trans ?_⟩
    simp only [Selection.ofComplexes, List.filter_cons, hsensitive]
    rfl
  · intro t ht
    obtain ⟨s, hs, hsensitive, rfl⟩ := hvalid.sensitive t ht
    obtain ⟨hlex, hselection⟩ := sanitizeSelectors_text hbare hs
    refine ⟨hlex, hselection.trans ?_⟩
    simp only [Selection.ofComplexes, List.filter_cons, hsensitive]
    rfl

/-- A link that is written with a star and capitals, next to an
attribute whose value is escaped. -/
theorem sanitizeSelectors_again_mixed :
    (sanitizeSelectors { confinement := .standard }
      (lex "*:LINK, [title='<x>' I]>P:Hover, p:visited").value).value =
      ⟨["[title=\"\\3c x\\3e \" i] > p:hover"], ["a:link"]⟩ ∧
    sanitizeSelectors { confinement := .standard }
      (lex "[title=\"\\3c x\\3e \" i] > p:hover").value =
      ⟨⟨["[title=\"\\3c x\\3e \" i] > p:hover"], []⟩, []⟩ ∧
    sanitizeSelectors { confinement := .standard } (lex "a:link").value =
      ⟨⟨[], ["a:link"]⟩, []⟩ := by
  have hselection : (sanitizeSelectors { confinement := .standard }
      (lex "*:LINK, [title='<x>' I]>P:Hover, p:visited").value).value =
      ⟨["[title=\"\\3c x\\3e \" i] > p:hover"], ["a:link"]⟩ := by
    decide +kernel
  obtain ⟨hinsensitive, hsensitive⟩ :=
    sanitizeSelectors_again "*:LINK, [title='<x>' I]>P:Hover, p:visited"
  rw [hselection] at hinsensitive hsensitive
  exact ⟨hselection, (hinsensitive _ (List.mem_singleton_self _)).2,
    (hsensitive _ (List.mem_singleton_self _)).2⟩

/-! ## Characters that are not written -/

/-- The marks between the names of a selector. -/
def selectorMarks : List Char :=
  ['#', '.', '[', ']', '*', ':', ' ', '>', '+', '~', '=', '|', '^', '$']

/-- The character is no name character and no mark. Only a string, a suffix or a container
can bring it into a selector. -/
structure IsUnnamed (x : Char) : Prop where
  not_name : ¬ isNameChar x
  not_mark : x ∉ selectorMarks

/-- The character is escaped in strings, too. Only a suffix or a container can
bring it into a selector. -/
structure IsUnselectable (x : Char) : Prop extends IsUnnamed x where
  special : isStringSpecial x
  not_escape : x ∉ ['"', '\\']

namespace IsUnnamed

variable {x : Char} (hx : IsUnnamed x)
include hx

theorem not_mem_ident {n : Text} (h : isPlainIdent n) : x ∉ n :=
  fun hmem => hx.not_name (isNameChar_of_isPlainNameChar (all_of_isPlainIdent h x hmem))

theorem not_mem_of_subset {t : Text} (h : t ⊆ selectorMarks) : x ∉ t :=
  fun hmem => hx.not_mark (h hmem)

theorem not_mem_operator {o : Token} (h : o ∈ matchOperators) : x ∉ o :=
  hx.not_mem_of_subset ((by decide : ∀ o ∈ matchOperators, o ⊆ selectorMarks) o h)

theorem not_mem_flag (ignoresCase : Bool) :
    x ∉ (if ignoresCase then [' ', 'i'] else []) := by
  have hspace : x ∉ [' '] := hx.not_mem_of_subset (by decide)
  have hletter : x ≠ 'i' := fun heq => hx.not_name (heq ▸ by decide)
  rw [List.mem_singleton] at hspace
  split <;> simp [hspace, hletter]

theorem not_mem_element {c : Confinement} {isLast : Bool} {s : Compound}
    (h : s.IsValid c isLast) : x ∉ s.element := by
  rcases h.element with heq | heq | hsafe
  · rw [heq]
    exact List.not_mem_nil
  · rw [heq]
    exact hx.not_mem_of_subset (by decide)
  · exact hx.not_mem_ident (isPlainIdent_of_mem_safeElements _ hsafe)

theorem not_mem_pseudo {c : Confinement} {isLast : Bool} {s : Compound}
    (h : s.IsValid c isLast) : x ∉ s.pseudo.elim [] Pseudo.render := by
  cases hp : s.pseudo with
  | none => exact List.not_mem_nil
  | some p =>
    have hname := hx.not_mem_ident (isPlainIdent_of_isKnown (h.known p hp))
    have hcolon : x ∉ (if p.isElement then [':', ':'] else [':']) := by
      split <;> exact hx.not_mem_of_subset (by decide)
    exact fun hmem => (List.mem_append.mp hmem).elim hcolon hname

theorem not_mem_combinator {combinator : Token} (h : isCombinator combinator) :
    x ∉ combinatorText combinator := by
  refine hx.not_mem_of_subset ?_
  rcases cases_of_isCombinator h with heq | heq | heq | heq
  all_goals
    rw [heq]
    decide

end IsUnnamed

namespace IsUnselectable

variable {x : Char} (hx : IsUnselectable x)
include hx

theorem not_mem_quoted (t : Text) : x ∉ quote t :=
  not_mem_quote hx.special hx.not_escape t

theorem not_mem_qualifier {suffix element : Text} (hsuffix : x ∉ suffix) {q : Qualifier}
    (h : q.IsValid suffix element) : x ∉ q.text suffix := by
  have hopen : x ∉ ['#', '.', '[', ']'] := hx.not_mem_of_subset (by decide)
  simp only [List.mem_cons, List.not_mem_nil, not_or, or_false] at hopen
  cases q with
  | id name =>
    have hname := hx.not_mem_ident h.plain
    simp [Qualifier.text, hname, hsuffix, hopen]
  | className name =>
    have hname := hx.not_mem_ident h.plain
    simp [Qualifier.text, hname, hopen]
  | attr name test =>
    obtain ⟨hname, -, kind, -, htest⟩ := h
    have hname := hx.not_mem_ident hname
    cases test with
    | none => simp [Qualifier.text, hname, hopen]
    | some t =>
      have hoperator := hx.not_mem_operator (htest t rfl).operator
      simp [Qualifier.text, AttributeTest.render, hname, hoperator,
        hx.not_mem_quoted, hopen, hx.not_mem_flag t.ignoresCase]

theorem not_mem_compound {c : Confinement} (hsuffix : x ∉ c.idSuffix) {isLast : Bool}
    {s : Compound} (h : s.IsValid c isLast) : x ∉ s.text c.idSuffix := by
  rw [Compound.text, List.mem_append, List.mem_append, List.mem_flatMap]
  rintro ((hmem | ⟨q, hq, hmem⟩) | hmem)
  · exact hx.not_mem_element h hmem
  · exact hx.not_mem_qualifier hsuffix (h.qualifiers q hq) hmem
  · exact hx.not_mem_pseudo h hmem

theorem not_mem_others {c : Confinement} (hsuffix : x ∉ c.idSuffix)
    {others : List (Token × Compound)} (h : AreOthers c others) :
    ∀ o ∈ others, x ∉ combinatorText o.1 ++ o.2.text c.idSuffix := by
  induction others with
  | nil => exact fun o ho => absurd ho List.not_mem_nil
  | cons o others ih =>
    obtain ⟨hcombinator, hcompound, hothers⟩ := h
    refine List.forall_mem_cons.mpr ⟨fun hmem => ?_, ih hothers⟩
    rcases List.mem_append.mp hmem with hmem | hmem
    · exact hx.not_mem_combinator hcombinator hmem
    · exact hx.not_mem_compound hsuffix hcompound hmem

/-- A selector that was let through has such a character only
in its suffix or container. -/
theorem not_mem_complex {c : Confinement} (hsuffix : x ∉ c.idSuffix)
    (hstart : x ∉ c.start) {s : Complex} (h : s.IsValid c) : x ∉ s.text c := by
  rw [Complex.text, List.mem_append, List.mem_append, List.mem_flatMap]
  rintro ((hmem | hmem) | ⟨o, ho, hmem⟩)
  · exact hstart hmem
  · exact hx.not_mem_compound hsuffix h.first hmem
  · exact hx.not_mem_others hsuffix h.others o ho hmem

end IsUnselectable

/-- A selector that was let through has no newline. -/
theorem Complex.IsValid.not_newline_mem_text {c : Confinement} (hbare : c.IsBare)
    {s : Complex} (h : s.IsValid c) : '\n' ∉ s.text c := by
  have hnewline : IsUnselectable '\n' := ⟨⟨by decide, by decide⟩, by decide, by decide⟩
  have hstart : c.start = [] := by
    rw [Confinement.start, hbare.uncontained]
  refine hnewline.not_mem_complex hbare.not_newline_mem ?_ h
  rw [hstart]
  exact List.not_mem_nil

end CssGuard
