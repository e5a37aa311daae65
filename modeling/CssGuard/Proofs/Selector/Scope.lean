import CssGuard.Proofs.Selector.Splitting
import CssGuard.Proofs.Lexer.Shapes

/-!
# Selectors stay inside their container

Every sanitized selector is one complex selector below the container, if there is one, and
every id in it has the suffix. Without a container no selector starts from the outermost
element to go on from there.

- `compoundsOf`: the compound selectors of a selector, as they are read
- `IsOneSelector`: the tokens are those of one complex selector
- `GoesInside`: a compound selector does not select the outermost element
- `confined_sanitizeSelectors`: sanitized selectors are confined
-/

namespace CssGuard

open Text Escape
open scoped Text.ByCharacter

/-- The compound selectors of a complex selector, as tokens. -/
def compoundsOf (ts : List Token) : List (List Token) :=
  (splitAtTop isCombinator 0 (normalizeSpaces ts)).toList

/-- The tokens are those of one complex selector: it begins with a compound
selector and not with a combinator, every combinator stands between two compound
selectors, and there is no comma. -/
structure IsOneSelector (ts : List Token) : Prop where
  begins : ∃ t rest, ts = t :: rest ∧ isCombinator t = false
  compounds : ∀ part ∈ compoundsOf ts, part ≠ []
  comma : Token.comma ∉ ts

/-- The compound selector names neither the outermost element nor a pseudo-class of it. -/
structure GoesInside (part : List Token) : Prop where
  element : ∀ t ∈ part.head?, lower t ≠ "html"
  pseudo : ∀ name ∈ rootPseudoClasses, ¬ [Token.colon, name] <:+: part

/-! ## Tokens -/

/-- A token of a sanitized compound selector: no comma and no combinator but maybe a
space, and an id has the suffix. -/
structure IsScoped (suffix : Text) (t : Token) : Prop where
  solid : t = Token.space ∨ absorbsSpace t = false
  suffixed : t.head? = some '#' → suffix <:+ t

theorem IsPiece.isScoped {t : Token} (h : IsPiece t) (hhead : t.head? ≠ some '#')
    (suffix : Text) : IsScoped suffix t :=
  ⟨.inr h.solid, fun heq => absurd heq hhead⟩

theorem isScoped_of_isPlainIdent {n : Text} (h : isPlainIdent n) (suffix : Text) :
    IsScoped suffix n := by
  refine (isPiece_of_isPlainIdent h).isScoped (fun hhead => ?_) suffix
  exact absurd ((isBareName_of_isPlainIdent h).all '#' (List.mem_of_head? hhead))
    (by decide)

theorem isScoped_mark {c : Char} (hc : c ∉ ['#', '>', '+', '~', ',']) (suffix : Text) :
    IsScoped suffix [c] := by
  simp only [List.mem_cons, List.not_mem_nil, or_false, not_or] at hc
  constructor
  · by_cases hspace : c = ' '
    · exact .inl (by rw [hspace]; rfl)
    · exact .inr (by simp [absorbsSpace, isCombinator, Token.space, Token.comma,
        hc, hspace])
  · intro hhead
    exact absurd (Option.some.inj hhead) hc.1

section Parts

variable {c : Confinement} (hnew : '\n' ∉ c.idSuffix)

include hnew in
theorem isScoped_qualifier {element : Text} {q : Qualifier}
    (h : q.IsValid c.idSuffix element) :
    ∀ t ∈ q.reading c.idSuffix, IsScoped c.idSuffix t := by
  have hmark : ∀ {c' : Char}, c' ∉ ['#', '>', '+', '~', ','] → IsScoped c.idSuffix [c'] :=
    fun hc => isScoped_mark hc _
  cases q with
  | id name =>
    rw [Qualifier.reading, lineTokens_id hnew h.plain]
    refine List.forall_mem_singleton.mpr
      ⟨.inr (isPiece_id c.idSuffix_valid hnew h.plain).solid, ?_⟩
    exact fun _ => List.suffix_append _ _
  | className name =>
    exact List.forall_mem_cons.mpr ⟨hmark (by decide),
      List.forall_mem_singleton.mpr (isScoped_of_isPlainIdent h.plain _)⟩
  | attr name test =>
    obtain ⟨hname, -, kind, -, htest⟩ := h
    have hname := isScoped_of_isPlainIdent hname c.idSuffix
    cases test with
    | none =>
      exact List.forall_mem_cons.mpr ⟨hmark (by decide), List.forall_mem_cons.mpr ⟨hname,
        List.forall_mem_singleton.mpr (hmark (by decide))⟩⟩
    | some test =>
      have hoperators : ∀ t ∈ matchOperators, t.head? ≠ some '#' := by decide
      have hoperator := (htest test rfl).operator
      have hvalue : IsScoped c.idSuffix (quote test.value) :=
        (isPiece_quote _).isScoped (fun hhead => by cases hhead) _
      refine List.forall_mem_append.mpr ⟨List.forall_mem_append.mpr ⟨?_,
        fun t ht => ?_⟩, ?_⟩
      · exact List.forall_mem_cons.mpr ⟨hmark (by decide),
          List.forall_mem_cons.mpr ⟨hname,
            List.forall_mem_cons.mpr ⟨(isPiece_of_mem_matchOperators _ hoperator).isScoped
              (hoperators _ hoperator) _, List.forall_mem_singleton.mpr hvalue⟩⟩⟩
      · split at ht
        · rcases List.mem_cons.mp ht with rfl | ht
          · exact hmark (by decide)
          · rw [List.mem_singleton.mp ht]
            exact hmark (by decide)
        · cases ht
      · exact List.forall_mem_singleton.mpr (hmark (by decide))

include hnew in
theorem isScoped_compound {isLast : Bool} {s : Compound} (h : s.IsValid c isLast) :
    ∀ t ∈ s.reading c.idSuffix, IsScoped c.idSuffix t := by
  refine List.forall_mem_append.mpr ⟨List.forall_mem_append.mpr ⟨fun t ht => ?_,
    fun t ht => ?_⟩, fun t ht => ?_⟩
  · split at ht
    · cases ht
    · rename_i hne
      rw [List.mem_singleton.mp ht]
      rcases h.element with hnone | hstar | hsafe
      · exact absurd hnone hne
      · rw [hstar]
        exact isScoped_mark (by decide) _
      · exact isScoped_of_isPlainIdent (isPlainIdent_of_mem_safeElements _ hsafe) _
  · obtain ⟨q, hq, ht⟩ := List.mem_flatMap.mp ht
    exact isScoped_qualifier hnew (h.qualifiers q hq) t ht
  · cases hp : s.pseudo with
    | none =>
      rw [hp] at ht
      cases ht
    | some p =>
      rw [hp, Option.elim_some] at ht
      rcases mem_pseudo_reading ht with rfl | rfl
      · exact isScoped_mark (by decide) _
      · exact isScoped_of_isPlainIdent (isPlainIdent_of_isKnown (h.known p hp)) _

/-- A token of a sanitized selector: no comma, and an id has the suffix. -/
structure IsConfined (suffix : Text) (t : Token) : Prop where
  comma : t ≠ Token.comma
  suffixed : t.head? = some '#' → suffix <:+ t

theorem IsScoped.isConfined {suffix : Text} {t : Token} (h : IsScoped suffix t) :
    IsConfined suffix t := by
  refine ⟨?_, h.suffixed⟩
  rintro rfl
  exact h.solid.elim (by decide) (by decide)

theorem isConfined_combinator {combinator : Token} (h : isCombinator combinator)
    (suffix : Text) : ∀ t ∈ combinatorReading combinator, IsConfined suffix t := by
  have hmarks : ∀ t ∈ [Token.space, ['>'], ['+'], ['~']], t ≠ Token.comma ∧
      t.head? ≠ some '#' := by
    decide
  intro t ht
  obtain ⟨hcomma, hhash⟩ := hmarks t (mem_combinatorReading h ht)
  exact ⟨hcomma, fun hhead => absurd hhead hhash⟩

include hnew in
theorem isConfined_others {others : List (Token × Compound)} (h : AreOthers c others) :
    ∀ t ∈ others.flatMap fun (combinator, s) =>
        combinatorReading combinator ++ s.reading c.idSuffix,
      IsConfined c.idSuffix t := by
  induction others with
  | nil => exact fun t ht => absurd ht List.not_mem_nil
  | cons other rest ih =>
    obtain ⟨combinator, s⟩ := other
    obtain ⟨hcombinator, hs, hrest⟩ := h
    rw [List.flatMap_cons]
    exact List.forall_mem_append.mpr ⟨List.forall_mem_append.mpr
      ⟨isConfined_combinator hcombinator _,
        fun t ht => (isScoped_compound hnew hs t ht).isConfined⟩, ih hrest⟩

include hnew in
theorem isConfined_body {s : Complex} (h : s.IsValid c) :
    ∀ t ∈ s.body c.idSuffix, IsConfined c.idSuffix t :=
  List.forall_mem_append.mpr
    ⟨fun t ht => (isScoped_compound hnew h.first t ht).isConfined,
      isConfined_others hnew h.others⟩

/-! ## One selector -/

include hnew in
theorem compoundsOf_body {s : Complex} (h : s.IsValid c) :
    compoundsOf (s.body c.idSuffix) = s.compounds.map (Compound.tokens c.idSuffix) := by
  rw [compoundsOf, normalizeSpaces_body hnew h.isPlain, splitAtTop_tokens hnew h.isPlain,
    Complex.toList_parts]

/-- The compound selectors of a complex selector, with their places. -/
theorem areOthers_all {s : Complex} (h : s.IsValid c) :
    AreOthers c ((Token.space, s.first) :: s.others) :=
  ⟨rfl, h.first, h.others⟩

theorem exists_isValid_of_areOthers {others : List (Token × Compound)}
    (h : AreOthers c others) :
    ∀ s ∈ others.map Prod.snd, ∃ isLast, s.IsValid c isLast := by
  induction others with
  | nil => exact fun s hs => absurd hs List.not_mem_nil
  | cons other rest ih => exact List.forall_mem_cons.mpr ⟨⟨_, h.2.1⟩, ih h.2.2⟩

/-- All compound selectors but the last are valid in front of others. -/
theorem isValid_of_mem_dropLast {others : List (Token × Compound)}
    (h : AreOthers c others) :
    ∀ s ∈ (others.map Prod.snd).dropLast, s.IsValid c false := by
  induction others with
  | nil => exact fun s hs => absurd hs List.not_mem_nil
  | cons other rest ih =>
    cases rest with
    | nil => exact fun s hs => absurd hs List.not_mem_nil
    | cons other' rest => exact List.forall_mem_cons.mpr ⟨h.2.1, ih h.2.2⟩

include hnew in
theorem isOneSelector_body {s : Complex} (h : s.IsValid c) :
    IsOneSelector (s.body c.idSuffix) where
  begins := by
    have hbegins := beginsWithToken_compound h.first.isPlain
    have hscoped := isScoped_compound hnew h.first
    rw [Complex.body]
    cases hreading : s.first.reading c.idSuffix with
    | nil =>
      rw [hreading] at hbegins
      cases hbegins
    | cons t rest =>
      rw [hreading] at hbegins hscoped
      refine ⟨t, _, List.cons_append .., ?_⟩
      exact isCombinator_of_solid t
        ((hscoped t (List.mem_cons_self ..)).solid.resolve_left hbegins)
  compounds part hpart := by
    rw [compoundsOf_body hnew h] at hpart
    obtain ⟨s', hs', rfl⟩ := List.mem_map.mp hpart
    obtain ⟨isLast, hvalid⟩ := exists_isValid_of_areOthers (areOthers_all h) s' hs'
    obtain ⟨front, t, heq, -⟩ := endsSolid_compound hnew hvalid.isPlain
    rw [heq]
    exact List.append_ne_nil_of_right_ne_nil _ (List.cons_ne_nil _ _)
  comma hmem := (isConfined_body hnew h _ hmem).comma rfl

/-! ## The outermost element -/

/-- A token at the front that is not the first of two is not needed to find them. -/
theorem infix_of_append {t u : Token} {front back : List Token}
    (h : [t, u] <:+: front ++ back) (hfront : t ∉ front) : [t, u] <:+: back := by
  induction front with
  | nil => exact h
  | cons x front ih =>
    obtain ⟨hx, hfront⟩ := not_or.mp (mt List.mem_cons.mpr hfront)
    rcases List.infix_cons_iff.mp h with hprefix | h
    · exact absurd (List.cons_prefix_cons.mp hprefix).1 hx
    · exact ih h hfront

theorem ne_colon_of_isPlainIdent {n : Text} (h : isPlainIdent n) : Token.colon ≠ n := by
  rintro rfl
  exact absurd h (by decide)

theorem colon_not_mem_qualifier {suffix : Text} {q : Qualifier} (h : q.IsPlain) :
    Token.colon ∉ q.tokens suffix := by
  have hmark : ∀ {d : Char} {t : Text}, d ≠ ':' → Token.colon ≠ d :: t :=
    fun hd heq => hd (List.cons.inj heq).1.symm
  cases q with
  | id name => simpa [Qualifier.tokens] using hmark (d := '#') (by decide)
  | className name =>
    simpa [Qualifier.tokens, ne_colon_of_isPlainIdent h] using hmark (by decide)
  | attr name test =>
    obtain ⟨hname, htest⟩ := h
    have hname := ne_colon_of_isPlainIdent hname
    have hopen : Token.colon ≠ ['['] := hmark (by decide)
    have hclose : Token.colon ≠ [']'] := hmark (by decide)
    have hflag : Token.colon ≠ ['i'] := hmark (by decide)
    cases test with
    | none => simp [Qualifier.tokens, hname, hopen, hclose]
    | some test =>
      have hoperator : Token.colon ≠ test.operator := by
        rintro heq
        exact absurd (heq ▸ (htest test rfl).1) (by decide)
      have hvalue : Token.colon ≠ quote test.value := hmark (by decide)
      cases hcase : test.ignoresCase <;>
        simp [Qualifier.tokens, hcase, hname, hopen, hclose, hflag, hoperator, hvalue]

/-- A pair of a colon and a name in a compound selector is its pseudo-class. -/
theorem exists_pseudo_of_infix {s : Compound} (h : s.IsPlain c.idSuffix) {name : Text}
    (hname : [Token.colon, name] <:+: s.tokens c.idSuffix) (hcolon : name ≠ Token.colon) :
    ∃ p ∈ s.pseudo, p.name = name := by
  have hfront : Token.colon ∉ (if s.element = [] then [] else [s.element]) ++
      s.qualifiers.flatMap (Qualifier.tokens c.idSuffix) := by
    intro hmem
    rcases List.mem_append.mp hmem with hmem | hmem
    · split at hmem
      · cases hmem
      · rename_i hne
        have heq := List.mem_singleton.mp hmem
        rcases h.element with hnone | hstar | hident
        · exact hne hnone
        · exact absurd (heq.trans hstar) (by decide)
        · exact ne_colon_of_isPlainIdent hident heq
    · obtain ⟨q, hq, hmem⟩ := List.mem_flatMap.mp hmem
      exact colon_not_mem_qualifier (h.qualifiers q hq) hmem
  have hinfix := infix_of_append hname hfront
  cases hp : s.pseudo with
  | none =>
    rw [hp] at hinfix
    exact absurd (List.infix_nil.mp hinfix) (List.cons_ne_nil _ _)
  | some p =>
    rw [hp, Option.elim_some] at hinfix
    have hmem : name ∈ p.reading :=
      hinfix.subset (List.mem_cons_of_mem _ (List.mem_singleton_self _))
    exact ⟨p, rfl, ((mem_pseudo_reading hmem).resolve_left hcolon).symm⟩

/-- The first token of a compound selector is a mark, a star or
the name of a safe element. -/
theorem first_compound {isLast : Bool} {s : Compound} (h : s.IsValid c isLast) {t : Token}
    (ht : t ∈ (s.tokens c.idSuffix).head?) :
    (∃ d rest, t = d :: rest ∧ d ∈ ['#', '.', '[', ':', '*']) ∨ t ∈ safeElements := by
  by_cases helement : s.element = []
  · obtain ⟨d, rest, heq, hd⟩ := exists_mark_of_no_element helement ht
    exact .inl ⟨d, rest, heq, List.mem_append_left ['*'] hd⟩
  · rw [Compound.tokens, if_neg helement] at ht
    have heq : t = s.element := (Option.some.inj ht).symm
    rcases h.element with hnone | hstar | hsafe
    · exact absurd hnone helement
    · exact .inl ⟨'*', [], heq.trans hstar, by decide⟩
    · exact .inr (heq ▸ hsafe)

/-- A compound selector in front of others, without a container. -/
theorem goesInside_tokens {s : Compound} (h : s.IsValid c false)
    (hnone : c.containerClass = none) : GoesInside (s.tokens c.idSuffix) where
  element t ht heq := by
    rcases first_compound h ht with ⟨d, rest, rfl, hd⟩ | hsafe
    · have hmark : ∀ d ∈ ['#', '.', '[', ':', '*'], d.toNat < 0x80 ∧ d.toLower = d ∧
          d ≠ 'h' := by
        decide
      obtain ⟨hascii, hlower, hne⟩ := hmark d hd
      obtain ⟨rest', hrest⟩ := lower_cons (isLowered_of_ascii hascii hlower) rest
      exact hne (List.cons.inj (hrest.symm.trans heq)).1
    · exact absurd heq
        ((by decide +kernel : ∀ e ∈ safeElements, lower e ≠ "html") t hsafe)
  pseudo name hname hinfix := by
    have hcolon : name ≠ Token.colon := by
      rintro rfl
      exact absurd hname (by decide)
    obtain ⟨p, hp, rfl⟩ := exists_pseudo_of_infix h.isPlain hinfix hcolon
    have hroot : p.isRoot := by
      have hknown := h.known p hp
      have helements : ∀ n ∈ rootPseudoClasses, n ∉ pseudoElements := by decide
      unfold Pseudo.isKnown at hknown
      split at hknown
      · exact absurd (of_decide_eq_true hknown) (helements _ hname)
      · rename_i helement
        simp [Pseudo.isRoot, helement, hname]
    exact h.root p hp hroot rfl hnone

/-! ## Sanitized selectors -/

theorem startReading_of_isPlainIdent {name : Text} (hname : c.containerClass = some name)
    (hplain : isPlainIdent name) : c.startReading = [['.'], name, Token.space] := by
  have hline : lineTokens name = [name] :=
    if_neg fun hlast =>
      not_newline_mem_of_isPlainIdent hplain (List.mem_of_getLast? hlast)
  rw [Confinement.startReading, hname]
  dsimp only
  rw [hline]
  rfl

include hnew in
/-- A sanitized selector is read back as it was written. -/
theorem lex_complex {s : Complex} (h : s.IsValid c)
    (hclass : ∀ name ∈ c.containerClass, isPlainIdent name) :
    lex (s.text c) = ⟨s.reading c, []⟩ := by
  have hbody := stays_body hnew h.isPlain
  have hstays : Stays (s.reading c) := by
    rw [Complex.reading_eq]
    cases hname : c.containerClass with
    | none =>
      rw [Confinement.startReading, hname]
      exact hbody
    | some name =>
      have hplain := hclass name hname
      have hclass : Stays [['.'], name] := stays_pieces (List.forall_mem_cons.mpr
        ⟨isPiece_of_head (by decide) (by decide),
          List.forall_mem_singleton.mpr (isPiece_of_isPlainIdent hplain)⟩)
      rw [startReading_of_isPlainIdent hname hplain]
      exact hclass.append (hbody.space_cons (beginsWithToken_body h.isPlain))
  have hbegins := beginsWithToken_complex h.isPlain
  rw [lex_of_reads (reads_complex h.isPlain), hstays, List.append_nil]
  cases hreading : s.reading c with
  | nil => rfl
  | cons t rest =>
    rw [hreading] at hbegins
    have hspace : t ≠ Token.space := hbegins
    rw [List.dropWhile_cons, if_neg (by simpa using hspace)]

end Parts

/-- Every selector that is left of a list stays inside its container: it is read back as
the class of the container, a space and one complex selector. Its ids have the suffix, and
without a container no compound selector but the last is the outermost element or a
pseudo-class of it. -/
theorem confined_sanitizeSelectors {c : Confinement}
    (hpolicy : c.tagPolicy = TagPolicy.standard)
    (hclass : ∀ name ∈ c.containerClass, isPlainIdent name)
    (hsuffix : ∀ d ∈ c.idSuffix, isWordChar d ∨ d = '-') (css : Text) {t : Text}
    (ht : t ∈
      (sanitizeSelectors { confinement := c } (lex css).value).value.insensitive ++
        (sanitizeSelectors { confinement := c } (lex css).value).value.sensitive) :
    ∃ body, IsOneSelector body ∧
      (∀ tok ∈ (lex t).value, tok.head? = some '#' → c.idSuffix <:+ tok) ∧
      match c.containerClass with
      | some name => lex t = ⟨['.'] :: name :: Token.space :: body, []⟩
      | none =>
        lex t = ⟨body, []⟩ ∧ ∀ part ∈ (compoundsOf body).dropLast, GoesInside part := by
  have hnew : '\n' ∉ c.idSuffix := by
    intro hmem
    rcases hsuffix _ hmem with hword | hhyphen
    · exact absurd hword (by decide)
    · cases hhyphen
  have hvalid := @isValid_sanitizeSelectors { confinement := c } rfl hpolicy _
    fun token (htoken : token ∈ (lex css).value) => shape_of_mem_lex htoken
  obtain ⟨s, hs, rfl⟩ : ∃ s : Complex, s.IsValid c ∧ t = s.text c := by
    rcases List.mem_append.mp ht with ht | ht
    · obtain ⟨s, hs, -, rfl⟩ := hvalid.insensitive t ht
      exact ⟨s, hs, rfl⟩
    · obtain ⟨s, hs, -, rfl⟩ := hvalid.sensitive t ht
      exact ⟨s, hs, rfl⟩
  have hbody : ∀ tok ∈ s.body c.idSuffix, tok.head? = some '#' → c.idSuffix <:+ tok :=
    fun tok htok => (isConfined_body hnew hs tok htok).suffixed
  refine ⟨s.body c.idSuffix, isOneSelector_body hnew hs, ?_⟩
  rw [lex_complex hnew hs hclass, Complex.reading_eq]
  cases hname : c.containerClass with
  | none =>
    rw [Confinement.startReading, hname]
    refine ⟨hbody, rfl, fun part hpart => ?_⟩
    rw [compoundsOf_body hnew hs, ← List.map_dropLast] at hpart
    obtain ⟨s', hs', rfl⟩ := List.mem_map.mp hpart
    exact goesInside_tokens (isValid_of_mem_dropLast (areOthers_all hs) s' hs') hname
  | some name =>
    have hplain := hclass name hname
    rw [startReading_of_isPlainIdent hname hplain]
    refine ⟨List.forall_mem_append.mpr ⟨?_, hbody⟩, rfl⟩
    exact List.forall_mem_cons.mpr ⟨fun h => absurd h (by decide),
      List.forall_mem_cons.mpr ⟨(isScoped_of_isPlainIdent hplain _).suffixed,
        List.forall_mem_singleton.mpr fun h => absurd h (by decide)⟩⟩

/-- A confinement with a container and a suffix. -/
def boxed : Confinement where
  idSuffix := "-x"
  containerClass := some "box"
  idSuffix_valid := by decide

/-- A descendant with an id, next to a selector that begins with a combinator. -/
theorem confined_sanitizeSelectors_boxed :
    (sanitizeSelectors { confinement := boxed }
      (lex "> b, p   #id:hover").value).value.insensitive =
      [".box p #id-x:hover".toList] ∧
    ∃ body, IsOneSelector body ∧
      (∀ tok ∈ (lex ".box p #id-x:hover").value, tok.head? = some '#' →
        "-x".toList <:+ tok) ∧
      lex ".box p #id-x:hover" = ⟨['.'] :: "box".toList :: Token.space :: body, []⟩ := by
  have hselectors : (sanitizeSelectors { confinement := boxed }
      (lex "> b, p   #id:hover").value).value.insensitive =
        [".box p #id-x:hover".toList] := by
    decide +kernel
  refine ⟨hselectors, ?_⟩
  exact confined_sanitizeSelectors (c := boxed) rfl (by decide)
    (by decide) "> b, p   #id:hover"
      (List.mem_append_left _ (hselectors ▸ List.mem_singleton_self _))

end CssGuard
