import CssGuard.Proofs.Lexer.TokenTests
import CssGuard.Selector.List

/-!
# Compound selectors, piece by piece

A compound selector is let through exactly if it is put together from an element,
qualifiers and a pseudo-class, in this order, each of a form that can be written anew.
Here are these forms, for any tokens, any tag policy and any table of attributes.

- `Qualifier`, `Compound`: what is written for a compound selector
- `IsAttribute`, `IsQualifier`, `IsEnding`, `IsSubject`: the forms of the pieces
- `Analysis`, `IsCompound`: a compound selector taken apart
- `Pseudo.Fits`: where a pseudo-class may stand
- `sanitizeCompound_of_isCompound`: what has this form is let
  through, and nothing is reported
- `exists_isCompound_of_sanitizeCompound`: what is let through has this form
-/

namespace CssGuard

open Text Escape
open scoped Text.ByCharacter

/-! ## What is written -/

/-- What follows the element of a compound selector, up to its pseudo-class. -/
inductive Qualifier where
  | id (name : Text)
  | className (name : Text)
  | attr (name : Text) (test : Option AttributeTest)

/-- The text of a qualifier, when ids get the given suffix. -/
def Qualifier.text (suffix : Text) : Qualifier → Text
  | id name => '#' :: name ++ suffix
  | className name => '.' :: name
  | attr name none => '[' :: name ++ [']']
  | attr name (some test) => '[' :: name ++ test.render test.value ++ [']']

/-- A compound selector: the element as it is written, or nothing, then its qualifiers,
then maybe a pseudo-class. -/
structure Compound where
  element : Text
  qualifiers : List Qualifier
  pseudo : Option Pseudo

namespace Compound

/-- The text of a compound selector. -/
def text (suffix : Text) (c : Compound) : Text :=
  c.element ++ c.qualifiers.flatMap (Qualifier.text suffix) ++
    c.pseudo.elim [] Pseudo.render

/-- The compound selector tells visited links from others. -/
def isSensitive (c : Compound) : Bool :=
  c.pseudo.any Pseudo.isHistory

end Compound

/-! ## The forms of the pieces -/

/-- The value in a test of an attribute: a string, or an
identifier that stands for itself. -/
inductive IsTestValue : Token → Text → Prop
  | string {t : Token} {body : Text} (h : t.stringBody? = some body) :
    IsTestValue t (decode body)
  | ident {t : Token} (h : isIdentLine t) : IsTestValue t t

/-- The tokens between square brackets ask for an attribute of an element, or compare its
value. They are written as `q`. -/
inductive IsAttribute (suffix : Text) (table : AttributeTable) (source : Text) :
    List Token → Qualifier → Prop
  | present {name : Token} {kind : AttributeKind} (hname : isIdentLine name)
      (hkind : attributeKind? table source (lower name) = some kind) :
      IsAttribute suffix table source [name] (.attr (lower name) none)
  | compared {name operator t : Token} {flag : Option Token} {kind : AttributeKind}
      {value carried : Text} (hname : isIdentLine name)
      (hkind : attributeKind? table source (lower name) = some kind)
      (hoperator : operator ∈ matchOperators) (hvalue : IsTestValue t value)
      (hflag : ∀ f ∈ flag, lower f = ['i'])
      (hcarried : translateValue? suffix kind operator value flag.isSome = some carried) :
      IsAttribute suffix table source (name :: operator :: t :: flag.toList)
        (.attr (lower name) (some ⟨operator, carried, flag.isSome⟩))

/-- The tokens are an id, a class or an attribute selector on an
element, and are written as `q`. -/
inductive IsQualifier (ctx : CompoundContext) (source : Text) :
    List Token → Qualifier → Prop
  | id {name : Text} (h : isSelectable name) :
    IsQualifier ctx source ['#' :: name] (.id name)
  | className {name : Token} (h : isSelectable name) :
      IsQualifier ctx source [['.'], name] (.className name)
  | attr {body : List Token} {q : Qualifier}
      (h : IsAttribute ctx.confinement.idSuffix ctx.attributes source body q) :
      IsQualifier ctx source (['['] :: (body ++ [[']']])) q

/-- The tokens are the end of a compound selector: nothing, or a pseudo-class or
pseudo-element that is known. -/
inductive IsEnding : List Token → Option Pseudo → Prop
  | none : IsEnding [] none
  | pseudoClass {name : Token} (h : lower name ∈ pseudoClasses ∨
    lower name ∈ historyPseudoClasses) :
      IsEnding [Token.colon, name] (some ⟨false, lower name⟩)
  | pseudoElement {name : Token} (h : lower name ∈ pseudoElements) :
      IsEnding [Token.colon, Token.colon, name] (some ⟨true, lower name⟩)

/-- The tokens are qualifiers on an element, and then the end of a compound selector. -/
inductive ArePieces (ctx : CompoundContext) (source : Text) :
    List Token → List Qualifier → Option Pseudo → Prop
  | ending {ts : List Token} {pseudo : Option Pseudo} (h : IsEnding ts pseudo) :
      ArePieces ctx source ts [] pseudo
  | cons {ts us : List Token} {q : Qualifier} {qs : List Qualifier}
    {pseudo : Option Pseudo}
      (h : IsQualifier ctx source ts q) (hs : ArePieces ctx source us qs pseudo) :
      ArePieces ctx source (ts ++ us) (q :: qs) pseudo

/-- The tokens are the element of a compound selector: nothing, a star, or a name that the
tag policy accepts. The outermost element has no others below it. -/
inductive IsSubject (ctx : CompoundContext) : List Token → Subject → Prop
  | none : IsSubject ctx [] Subject.none
  | star : IsSubject ctx [['*']] ⟨['*'], ['*']⟩
  | element {t : Token} {element : Text} (hident : isIdentLine (lower t))
      (hhtml : lower t = "html" → ctx.isLast)
      (hpolicy : ctx.confinement.tagPolicy (lower t) = some element) :
      IsSubject ctx [t] ⟨element, lower t⟩

/-- A compound selector taken apart. -/
structure Analysis where
  subject : Subject
  qualifiers : List Qualifier
  pseudo : Option Pseudo

/-- The tokens are those of a compound selector. -/
inductive IsCompound (ctx : CompoundContext) : List Token → Analysis → Prop
  | intro {us vs : List Token} {subject : Subject} {qs : List Qualifier}
    {pseudo : Option Pseudo}
      (hsubject : IsSubject ctx us subject)
      (hpieces : ArePieces ctx subject.source vs qs pseudo) :
      IsCompound ctx (us ++ vs) ⟨subject, qs, pseudo⟩

/-- The pseudo-class may stand on the element: only links are visited, and where there is
no container the outermost element is not left for others. -/
structure Pseudo.Fits (ctx : CompoundContext) (source : Text) (p : Pseudo) : Prop where
  link : p.isHistory → (source = [] ∨ source = ['*'] ∨ source = ['a']) ∧
    (ctx.confinement.tagPolicy ['a']).isSome
  inside : p.isRoot → ctx.isLast ∨ ctx.confinement.containerClass.isSome

/-- The element that is written: where visited links are told from
others, the name for a link. -/
def Confinement.elementFor (c : Confinement) (subject : Subject)
    (pseudo : Option Pseudo) : Text :=
  if pseudo.any Pseudo.isHistory then (c.tagPolicy ['a']).getD [] else subject.element

namespace Analysis

/-- The pseudo-class may stand where it does. -/
def Fits (ctx : CompoundContext) (a : Analysis) : Prop :=
  ∀ p ∈ a.pseudo, p.Fits ctx a.subject.source

/-- What is written for a compound selector. -/
def written (c : Confinement) (a : Analysis) : Compound :=
  ⟨c.elementFor a.subject a.pseudo, a.qualifiers, a.pseudo⟩

end Analysis

/-! ## Attributes -/

theorem mem_of_isIdentLine {t : Text} (h : isIdentLine t) {c : Char} (hc : c ∈ t) :
    isPlainNameChar c ∨ c = '\n' := by
  rcases cases_of_isLineOf h with hident | ⟨u, rfl, hident⟩
  · exact .inl (all_of_isPlainIdent hident c hc)
  · rcases List.mem_append.mp hc with hc | hc
    · exact .inl (all_of_isPlainIdent hident c hc)
    · exact .inr (List.mem_singleton.mp hc)

theorem isIdentLine_of_isSelectable {name : Text} (h : isSelectable name) :
    isIdentLine name :=
  (Bool.and_eq_true_iff.mp (Bool.and_eq_true_iff.mp h).1).1

theorem stringBody?_of_isIdentLine {t : Token} (h : isIdentLine t) :
    t.stringBody? = none := by
  unfold Token.stringBody?
  split
  · rcases mem_of_isIdentLine h (List.mem_cons_self ..) with hc | hc
    · exact absurd hc (by decide)
    · cases hc
  · rfl

theorem attributeValue?_eq_some_iff {t : Token} {value : Text} :
    attributeValue? t = some value ↔ IsTestValue t value := by
  constructor
  · intro h
    unfold attributeValue? at h
    split at h
    · rename_i body hbody
      cases h
      exact .string hbody
    · split at h
      · rename_i hident
        cases h
        exact .ident hident
      · cases h
  · rintro (hbody | hident)
    · rw [attributeValue?, hbody]
    · rw [attributeValue?, stringBody?_of_isIdentLine hident]
      exact if_pos hident

/-- A comparison is an operator, a value, and maybe the flag for ignoring case. -/
theorem read_eq_ok_iff {name : Text} {tokens : List Token} {test : AttributeTest} :
    AttributeTest.read name tokens = .ok test ↔ ∃ operator t,
      ∃ flag : Option Token, ∃ value, tokens = operator :: t :: flag.toList ∧
      operator ∈ matchOperators ∧ IsTestValue t value ∧
      (∀ f ∈ flag, lower f = ['i']) ∧ test = ⟨operator, value, flag.isSome⟩ := by
  constructor
  · intro h
    unfold AttributeTest.read at h
    split at h
    · rename_i operator t flags
      split at h
      · rename_i hcond
        obtain ⟨hoperator, hlength⟩ := Bool.and_eq_true_iff.mp hcond
        have hoperator := of_decide_eq_true hoperator
        split at h
        · cases h
        · rename_i value hvalue
          have hvalue := attributeValue?_eq_some_iff.mp hvalue
          split at h
          · cases h
            exact ⟨operator, t, none, value, rfl, hoperator, hvalue, by simp, rfl⟩
          · rename_i flag more
            -- the length leaves room for one flag only
            have hmore : more = [] := by simpa using of_decide_eq_true hlength
            split at h
            · rename_i hflag
              cases h
              refine ⟨operator, t, some flag,
                value, by rw [hmore]; rfl, hoperator, hvalue, ?_, rfl⟩
              rintro f ⟨⟩
              exact hflag
            · cases h
      · cases h
    · cases h
  · rintro ⟨operator, t, flag, value, rfl, hoperator, hvalue, hflag, rfl⟩
    have hvalue := attributeValue?_eq_some_iff.mpr hvalue
    cases flag with
    | none => simp [AttributeTest.read, hoperator, hvalue]
    | some f => simp [AttributeTest.read, hoperator, hvalue, hflag f rfl]

theorem sanitizeTest_cons {suffix name : Text} {kind : AttributeKind}
    {tokens : List Token} {test : AttributeTest} {carried : Text}
    (hread : AttributeTest.read name tokens = .ok test)
    (hcarried : translateValue? suffix kind test.operator test.value test.ignoresCase =
      some carried) :
    sanitizeTest suffix name kind tokens = .ok (test.render carried) := by
  cases tokens with
  | nil => cases hread
  | cons t tokens =>
    rw [sanitizeTest]
    · rw [hread]
      dsimp only [bind, Except.bind]
      rw [hcarried]
    · simp

/-- An attribute selector of this form is let through. -/
theorem sanitizeAttribute_of_isAttribute {suffix source : Text} {table : AttributeTable}
    {body : List Token} {q : Qualifier} (h : IsAttribute suffix table source body q) :
    sanitizeAttribute suffix table source body = .ok (q.text suffix) := by
  cases h with
  | present hname hkind =>
    rw [sanitizeAttribute, if_pos hname]
    dsimp only
    rw [hkind]
    show Except.ok _ = _
    simp [Qualifier.text]
  | @compared name _ _ _ _ _ _ hname hkind hoperator hvalue hflag hcarried =>
    have hread := (@read_eq_ok_iff (lower name) _ _).mpr
      ⟨_, _, _, _, rfl, hoperator, hvalue, hflag, rfl⟩
    rw [sanitizeAttribute, if_pos hname]
    dsimp only
    rw [hkind]
    dsimp only
    rw [sanitizeTest_cons hread hcarried]
    rfl

/-- An attribute selector that is let through has this form. -/
theorem exists_isAttribute_of_sanitizeAttribute {suffix source : Text}
    {table : AttributeTable} {body : List Token} {text : Text}
    (h : sanitizeAttribute suffix table source body = .ok text) :
    ∃ q, IsAttribute suffix table source body q := by
  unfold sanitizeAttribute at h
  split at h
  · cases h
  · rename_i name rest
    split at h
    · rename_i hname
      dsimp only at h
      split at h
      · cases h
      · rename_i kind hkind
        cases rest with
        | nil => exact ⟨_, .present hname hkind⟩
        | cons t rest =>
          -- a comparison is refused if it cannot be read, or its
          -- value cannot be carried over
          cases hread : AttributeTest.read (lower name) (t :: rest) with
          | error cause =>
            rw [sanitizeTest, hread] at h
            · cases h
            · simp
          | ok test =>
            obtain ⟨operator, t, flag, value, heq, hoperator, hvalue, hflag, rfl⟩ :=
              read_eq_ok_iff.mp hread
            cases hcarried : translateValue? suffix kind operator value flag.isSome with
            | none =>
              rw [sanitizeTest, hread] at h
              · dsimp only [bind, Except.bind] at h
                rw [hcarried] at h
                cases h
              · simp
            | some carried =>
              rw [heq]
              exact ⟨_, .compared hname hkind hoperator hvalue hflag hcarried⟩
    · cases h

/-- Between the brackets stands no bracket that closes them. -/
theorem closeBracket_not_mem {suffix source : Text} {table : AttributeTable}
    {body : List Token} {q : Qualifier} (h : IsAttribute suffix table source body q) :
    [']'] ∉ body := by
  have hident : ¬ isIdentLine [']'] := by decide
  have hvalue : ∀ value, ¬ IsTestValue [']'] value := by
    intro value hvalue
    cases hvalue with
    | string hbody => cases hbody
    | ident h => exact hident h
  cases h with
  | present hname =>
    intro hmem
    exact hident (List.mem_singleton.mp hmem ▸ hname)
  | @compared _ _ _ flag _ _ _ hname _ hoperator htest hflag =>
    intro hmem
    simp only [List.mem_cons, Option.mem_toList] at hmem
    rcases hmem with rfl | rfl | rfl | hmem
    · exact hident hname
    · exact absurd hoperator (by decide)
    · exact hvalue _ htest
    · exact absurd (hflag _ hmem) (by decide)

/-! ## Pieces -/

section Pieces

variable {ctx : CompoundContext} {subject : Subject}

/-- An attribute selector is taken up to its bracket. -/
theorem sanitizePieces_bracket {body : List Token} {q : Qualifier}
    (h : IsAttribute ctx.confinement.idSuffix ctx.attributes subject.source body q)
    (front : Text) (rest : List Token) :
    sanitizePieces ctx subject front (['['] :: (body ++ [']'] :: rest)) =
      sanitizePieces ctx subject (front ++ q.text ctx.confinement.idSuffix) rest := by
  have hinside : ∀ t ∈ body, decide (t ≠ [']']) = true := by
    intro t ht
    refine decide_eq_true fun heq => ?_
    exact closeBracket_not_mem h (heq ▸ ht)
  have htake : (body ++ [']'] :: rest).takeWhile (· ≠ [']']) = body := by
    rw [List.takeWhile_append_of_pos hinside]
    exact List.append_nil _
  have hdrop : (body ++ [']'] :: rest).dropWhile (· ≠ [']']) = [']'] :: rest := by
    rw [List.dropWhile_append_of_pos hinside]
    rfl
  rw [sanitizePieces.eq_def]
  dsimp only
  rw [if_neg (by decide), if_neg (by decide), if_pos rfl]
  split
  · rename_i hnil
    rw [hdrop] at hnil
    cases hnil
  · rename_i after hcons
    rw [hdrop] at hcons
    cases hcons
    rw [htake, sanitizeAttribute_of_isAttribute h]

/-- A qualifier is taken, and the pieces after it are looked at. -/
theorem sanitizePieces_of_isQualifier {ts : List Token} {q : Qualifier}
    (h : IsQualifier ctx subject.source ts q) (front : Text) (rest : List Token) :
    sanitizePieces ctx subject front (ts ++ rest) =
      sanitizePieces ctx subject (front ++ q.text ctx.confinement.idSuffix) rest := by
  cases h with
  | @id name hname =>
    have hselectable : isSelectable (List.tail ('#' :: name)) := hname
    rw [List.singleton_append, sanitizePieces.eq_def]
    dsimp only
    rw [if_pos List.head?_cons, if_pos hselectable, List.append_assoc]
    rfl
  | @className name hname =>
    show sanitizePieces ctx subject front (['.'] :: name :: rest) = _
    rw [sanitizePieces, if_neg (by decide), if_pos rfl, if_pos hname]
    rfl
  | attr hattribute =>
    rw [List.cons_append, List.append_assoc]
    exact sanitizePieces_bracket hattribute front rest

/-- What follows a colon is read as a pseudo-class that is known exactly
if it has the form of one. -/
theorem read_eq_iff {tokens : List Token} {p : Pseudo} :
    Pseudo.read tokens = (p, []) ∧ p.isKnown ↔
      IsEnding (Token.colon :: tokens) (some p) := by
  have hempty : ∀ isElement, ¬ (Pseudo.mk isElement []).isKnown := by decide
  constructor
  · rintro ⟨hread, hknown⟩
    unfold Pseudo.read at hread
    split at hread
    · cases hread
      exact .pseudoElement (of_decide_eq_true hknown)
    · cases hread
      exact absurd hknown (hempty _)
    · cases hread
      refine .pseudoClass ?_
      exact (Bool.or_eq_true_iff.mp hknown).imp of_decide_eq_true of_decide_eq_true
    · cases hread
      exact absurd hknown (hempty _)
  · intro h
    cases h with
    | @pseudoClass name hname =>
      have hcolon : name ≠ Token.colon := by
        rintro rfl
        exact absurd hname (by decide)
      constructor
      · rw [Pseudo.read]
        · exact fun _ _ heq _ => hcolon heq
        · exact fun heq _ => hcolon heq
      · simpa [Pseudo.isKnown] using hname
    | pseudoElement hname => exact ⟨rfl, decide_eq_true hname⟩

theorem isKnown_of_isEnding {ts : List Token} {p : Pseudo} (h : IsEnding ts (some p)) :
    p.isKnown := by
  cases h with
  | pseudoClass hname => exact (read_eq_iff.mpr (.pseudoClass hname)).2
  | pseudoElement hname => exact (read_eq_iff.mpr (.pseudoElement hname)).2

/-- What may be wrong with a pseudo-class, apart from the refusal
of links by the tag policy. -/
theorem pseudoIssue?_eq_none_iff {source : Text} {p : Pseudo} {rest : List Token} :
    pseudoIssue? ctx source p rest = none ↔ p.isKnown ∧
      (p.isHistory → source = [] ∨ source = ['*'] ∨ source = ['a']) ∧
      (p.isRoot → ctx.isLast ∨ ctx.confinement.containerClass.isSome) ∧ rest = [] := by
  have hnext : ∀ {c : Prop} [Decidable c] {cause : Issue} {next : Option Issue},
      (if c then some cause else next) = none ↔ ¬ c ∧ next = none := by
    intro c _ cause next
    split <;> simp [*]
  have hrest : (if !rest.isEmpty then some Issue.pseudoNotLast else none) = none ↔
      rest = [] := by
    cases rest <;> simp
  rw [pseudoIssue?, hnext, hnext, hnext, hrest]
  refine and_congr (by simp) (and_congr ?_ (and_congr_left' ?_))
  · cases p.isHistory <;> simp [Decidable.or_iff_not_imp_left]
  · cases ctx.isLast <;> cases ctx.confinement.containerClass <;> simp

/-- A pseudo-class at the end, where it may stand. -/
theorem sanitizePieces_of_isEnding {ts : List Token} {pseudo : Option Pseudo}
    (h : IsEnding ts pseudo) (hfits : ∀ p ∈ pseudo, p.Fits ctx subject.source)
    (front : Text) (hne : ctx.confinement.elementFor subject pseudo ++ front ++
      pseudo.elim [] Pseudo.render ≠ []) :
    sanitizePieces ctx subject front ts =
      pure (some ⟨ctx.confinement.elementFor subject pseudo ++ front ++
        pseudo.elim [] Pseudo.render, pseudo.any Pseudo.isHistory⟩) := by
  cases pseudo with
  | none =>
    cases h
    rw [Option.elim_none, List.append_nil] at hne ⊢
    rw [sanitizePieces, if_neg]
    · rfl
    · simpa [Confinement.elementFor] using hne
  | some p =>
    obtain ⟨tokens, rfl⟩ : ∃ tokens, ts = Token.colon :: tokens := by
      cases h <;> exact ⟨_, rfl⟩
    obtain ⟨hread, hknown⟩ := read_eq_iff.mpr h
    obtain ⟨hlink, hinside⟩ := hfits p rfl
    have hissue : pseudoIssue? ctx subject.source p [] = none :=
      pseudoIssue?_eq_none_iff.mpr ⟨hknown, fun hp => (hlink hp).1, hinside, rfl⟩
    rw [sanitizePieces.eq_def]
    dsimp only
    rw [if_neg (by decide), if_neg (by decide), if_neg (by decide), if_pos rfl,
      sanitizePseudo, hread]
    dsimp only
    rw [hissue]
    dsimp only
    -- with a pseudo-class of the history the name of links comes first
    cases hhistory : p.isHistory with
    | false =>
      rw [Confinement.elementFor, Option.any_some, hhistory]
      rfl
    | true =>
      obtain ⟨link, hpolicy⟩ := Option.isSome_iff_exists.mp (hlink hhistory).2
      rw [if_pos rfl, Confinement.elementFor, Option.any_some, hhistory, hpolicy]
      rfl

/-- Pieces of these forms are let through. -/
theorem sanitizePieces_of_arePieces {ts : List Token} {qs : List Qualifier}
    {pseudo : Option Pseudo} (h : ArePieces ctx subject.source ts qs pseudo)
    (hfits : ∀ p ∈ pseudo, p.Fits ctx subject.source) (front : Text)
    (hne : ctx.confinement.elementFor subject pseudo ++ front ++
      qs.flatMap (Qualifier.text ctx.confinement.idSuffix) ++ pseudo.elim
      [] Pseudo.render ≠ []) :
    sanitizePieces ctx subject front ts =
      pure (some ⟨ctx.confinement.elementFor subject pseudo ++ front ++
        qs.flatMap (Qualifier.text ctx.confinement.idSuffix) ++
          pseudo.elim [] Pseudo.render,
        pseudo.any Pseudo.isHistory⟩) := by
  induction h generalizing front with
  | ending h =>
    rw [List.flatMap_nil, List.append_nil] at hne ⊢
    exact sanitizePieces_of_isEnding h hfits front hne
  | @cons ts us q qs pseudo hq hs ih =>
    -- the text of the qualifier goes to the front
    have hfront : ctx.confinement.elementFor subject pseudo ++ front ++
        (q :: qs).flatMap (Qualifier.text ctx.confinement.idSuffix) =
        ctx.confinement.elementFor subject pseudo ++
          (front ++ q.text ctx.confinement.idSuffix) ++
            qs.flatMap (Qualifier.text ctx.confinement.idSuffix) := by
      simp
    rw [hfront] at hne ⊢
    rw [sanitizePieces_of_isQualifier hq]
    exact ih hfits _ hne

/-- The pieces that are let through have these forms. -/
theorem exists_arePieces_of_sanitizePieces {front : Text} {ts : List Token}
    {selected : Selected}
    (h : (sanitizePieces ctx subject front ts).value = some selected) :
    ∃ qs pseudo, ArePieces ctx subject.source ts qs pseudo ∧
      (∀ p ∈ pseudo, p.Fits ctx subject.source) ∧
      ctx.confinement.elementFor subject pseudo ++ front ++
        qs.flatMap (Qualifier.text ctx.confinement.idSuffix) ++
          pseudo.elim [] Pseudo.render ≠ [] := by
  -- a qualifier in front of pieces that have these forms
  have hcons : ∀ {front : Text} {ts us : List Token} {q : Qualifier},
      IsQualifier ctx subject.source ts q →
      (∃ qs pseudo, ArePieces ctx subject.source us qs pseudo ∧
        (∀ p ∈ pseudo, p.Fits ctx subject.source) ∧
        ctx.confinement.elementFor subject pseudo ++
          (front ++ q.text ctx.confinement.idSuffix) ++
            qs.flatMap (Qualifier.text ctx.confinement.idSuffix) ++
          pseudo.elim [] Pseudo.render ≠ []) →
      ∃ qs pseudo, ArePieces ctx subject.source (ts ++ us) qs pseudo ∧
        (∀ p ∈ pseudo, p.Fits ctx subject.source) ∧
        ctx.confinement.elementFor subject pseudo ++ front ++
          qs.flatMap (Qualifier.text ctx.confinement.idSuffix) ++
          pseudo.elim [] Pseudo.render ≠ [] := by
    rintro front ts us q hq ⟨qs, pseudo, hpieces, hfits, hne⟩
    exact ⟨q :: qs, pseudo, .cons hq hpieces, hfits, by simpa using hne⟩
  fun_induction sanitizePieces ctx subject front ts with
  | case1 front text =>
    rw [Traced.value_pure] at h
    split at h
    · cases h
    · rename_i hne
      refine ⟨[], none, .ending .none, by simp, ?_⟩
      have htext : subject.element ++ front ≠ [] :=
        fun hnil => hne (List.isEmpty_iff.mpr hnil)
      simpa [Confinement.elementFor] using htext
  | case2 front t rest hhash hselectable ih =>
    obtain ⟨name, rfl⟩ := List.head?_eq_some_iff.mp hhash
    refine @hcons _ ['#' :: name] _ _ (.id hselectable) ?_
    have hih := ih h
    rw [List.append_assoc] at hih
    exact hih
  | case5 front name rest hselectable _ ih =>
    exact @hcons _ [['.'], name] _ _ (.className hselectable) (ih h)
  | case9 front rest bracket after hdrop _ text htext _ _ ih =>
    obtain ⟨q, hq⟩ := exists_isAttribute_of_sanitizeAttribute htext
    have htext' : text = q.text ctx.confinement.idSuffix := by
      rw [sanitizeAttribute_of_isAttribute hq] at htext
      cases htext
      rfl
    -- what was dropped begins with the bracket at which the attribute ends
    have hbracket : bracket = [']'] := by
      have hhead := List.head?_dropWhile_not (fun t : Token => decide (t ≠ [']'])) rest
      rw [hdrop] at hhead
      simpa using hhead
    have hsplit : ['['] :: rest =
        (['['] :: (rest.takeWhile (· ≠ [']']) ++ [[']']])) ++ after := by
      have happend :=
        List.takeWhile_append_dropWhile (p := fun t : Token => decide (t ≠ [']']))
          (l := rest)
      rw [hdrop, hbracket] at happend
      rw [List.cons_append, List.append_assoc]
      exact congrArg (['['] :: ·) happend.symm
    have hih := ih h
    rw [htext'] at hih
    rw [hsplit]
    exact hcons (.attr hq) hih
  | case10 front rest =>
    unfold sanitizePseudo at h
    generalize hread : Pseudo.read rest = pr at h
    obtain ⟨p, more⟩ := pr
    dsimp only at h
    split at h
    · cases h
    · rename_i hissue
      obtain ⟨hknown, hsource, hinside, rfl⟩ := pseudoIssue?_eq_none_iff.mp hissue
      refine ⟨[], some p, .ending (read_eq_iff.mp ⟨hread, hknown⟩), ?_, ?_⟩
      · rintro _ ⟨⟩
        refine ⟨fun hhistory => ⟨hsource hhistory, ?_⟩, hinside⟩
        rw [if_pos hhistory] at h
        obtain ⟨link, hlink, -⟩ := Option.map_eq_some_iff.mp h
        exact Option.isSome_of_mem hlink
      · cases hp : p.isElement <;> simp [Pseudo.render, hp]
  | case3 | case4 | case6 | case7 | case8 | case11 => cases h

end Pieces

/-! ## Compound selectors -/

section Compound

variable {ctx : CompoundContext}

/-- What begins with a mark names no element. -/
theorem sanitizeCompound_mark {c : Char} (hc : c ∈ ['#', '.', '[', ':']) (t : Text)
    (rest : List Token) :
    sanitizeCompound ctx ((c :: t) :: rest) =
      sanitizePieces ctx Subject.none [] ((c :: t) :: rest) := by
  have hclass : ∀ c ∈ ['#', '.', '[', ':'], c.toNat < 0x80 ∧ c.toLower = c ∧ c ≠ '*' ∧
      ¬ isPlainNameChar c ∧ c ≠ '\n' := by
    decide
  obtain ⟨hascii, hkeep, hstar, hname, hnew⟩ := hclass c hc
  obtain ⟨t', hlower⟩ := lower_cons (isLowered_of_ascii hascii hkeep) t
  have hline : ¬ isIdentLine (c :: t') := by
    intro hline
    rcases mem_of_isIdentLine hline (List.mem_cons_self ..) with h | h
    · exact hname h
    · exact hnew h
  rw [sanitizeCompound, hlower, if_neg fun heq => hstar (List.cons.inj heq).1,
    if_neg hline]

/-- Pieces begin with a mark. -/
theorem exists_mark_of_arePieces {source : Text} {ts : List Token} {qs : List Qualifier}
    {pseudo : Option Pseudo} (h : ArePieces ctx source ts qs pseudo) (hne : ts ≠ []) :
    ∃ c ∈ ['#', '.', '[', ':'], ∃ t rest, ts = (c :: t) :: rest := by
  cases h with
  | ending h =>
    cases h with
    | none => exact absurd rfl hne
    | pseudoClass => exact ⟨':', by decide, [], _, rfl⟩
    | pseudoElement => exact ⟨':', by decide, [], _, rfl⟩
  | cons h =>
    cases h with
    | id => exact ⟨'#', by decide, _, _, rfl⟩
    | className => exact ⟨'.', by decide, [], _, rfl⟩
    | attr => exact ⟨'[', by decide, [], _, rfl⟩

/-- The element is taken, and the pieces after it are looked at. -/
theorem sanitizeCompound_of_isSubject {us vs : List Token} {subject : Subject}
    (h : IsSubject ctx us subject) {qs : List Qualifier} {pseudo : Option Pseudo}
    (hpieces : ArePieces ctx subject.source vs qs pseudo) (hne : us ++ vs ≠ []) :
    sanitizeCompound ctx (us ++ vs) = sanitizePieces ctx subject [] vs := by
  cases h with
  | none =>
    obtain ⟨c, hc, t, rest, rfl⟩ := exists_mark_of_arePieces hpieces hne
    exact sanitizeCompound_mark hc t rest
  | star =>
    have hlower : lower ['*'] = ['*'] := by decide
    rw [List.singleton_append, sanitizeCompound, hlower, if_pos rfl]
  | @element t element hident hhtml hpolicy =>
    have hstar : lower t ≠ ['*'] := by
      intro heq
      rw [heq] at hident
      exact absurd hident (by decide)
    have hancestor : (lower t = "html" && !ctx.isLast) = false := by
      cases hlast : ctx.isLast with
      | true => exact Bool.and_false _
      | false =>
        rw [hlast] at hhtml
        exact Bool.and_eq_false_imp.mpr fun heq =>
          absurd (hhtml (of_decide_eq_true heq)) (by decide)
    rw [List.singleton_append, sanitizeCompound, if_neg hstar, if_pos hident,
      hancestor, hpolicy]
    rfl

/-- A compound selector of this form is let through, and nothing is reported. -/
theorem sanitizeCompound_of_isCompound {ts : List Token} {a : Analysis}
    (h : IsCompound ctx ts a) (hfits : a.Fits ctx)
    (hne : (a.written ctx.confinement).text ctx.confinement.idSuffix ≠ []) :
    sanitizeCompound ctx ts =
      pure (some ⟨(a.written ctx.confinement).text ctx.confinement.idSuffix,
        (a.written ctx.confinement).isSensitive⟩) := by
  cases h with
  | @intro us vs subject qs pseudo hsubject hpieces =>
    have hpiece := sanitizePieces_of_arePieces hpieces hfits []
    rw [List.append_nil] at hpiece
    have htokens : us ++ vs ≠ [] := by
      intro hnil
      obtain ⟨rfl, rfl⟩ := List.append_eq_nil_iff.mp hnil
      -- without tokens there is nothing to write
      have hempty := hpiece hne
      cases hsubject
      rw [sanitizePieces] at hempty
      cases congrArg Traced.value hempty
    rw [sanitizeCompound_of_isSubject hsubject hpieces htokens]
    exact hpiece hne

/-- A compound selector that is let through has this form. -/
theorem exists_isCompound_of_sanitizeCompound {ts : List Token} {selected : Selected}
    (h : (sanitizeCompound ctx ts).value = some selected) :
    ∃ a, IsCompound ctx ts a ∧ a.Fits ctx ∧
      (a.written ctx.confinement).text ctx.confinement.idSuffix ≠ [] ∧
      selected = ⟨(a.written ctx.confinement).text ctx.confinement.idSuffix,
        (a.written ctx.confinement).isSensitive⟩ := by
  have hexists : ∃ a, IsCompound ctx ts a ∧ a.Fits ctx ∧
      (a.written ctx.confinement).text ctx.confinement.idSuffix ≠ [] := by
    -- at most the first token is about the element, and pieces follow it
    have hintro : ∀ {us vs : List Token} {subject : Subject}, IsSubject ctx us subject →
        (sanitizePieces ctx subject [] vs).value = some selected →
        ∃ a, IsCompound ctx (us ++ vs) a ∧ a.Fits ctx ∧
          (a.written ctx.confinement).text ctx.confinement.idSuffix ≠ [] := by
      intro us vs subject hsubject hvalue
      obtain ⟨qs, pseudo, hpieces, hfits, hne⟩ :=
        exists_arePieces_of_sanitizePieces hvalue
      rw [List.append_nil] at hne
      exact ⟨⟨subject, qs, pseudo⟩, .intro hsubject hpieces, hfits, hne⟩
    unfold sanitizeCompound at h
    split at h
    · cases h
    · rename_i t rest
      dsimp only at h
      by_cases hstar : lower t = ['*']
      · rw [if_pos hstar] at h
        rw [(lower_eq_mark_iff (by decide) (by decide) (by decide)).mp hstar]
        exact hintro .star h
      · rw [if_neg hstar] at h
        by_cases hident : isIdentLine (lower t)
        · rw [if_pos hident] at h
          split at h
          · cases h
          · rename_i hhtml
            split at h
            · cases h
            · rename_i element hpolicy
              refine hintro (.element hident (fun heq => ?_) hpolicy) h
              simpa [heq] using hhtml
        · rw [if_neg hident] at h
          exact hintro .none h
  obtain ⟨a, ha, hfits, hne⟩ := hexists
  rw [sanitizeCompound_of_isCompound ha hfits hne] at h
  exact ⟨a, ha, hfits, hne, (Option.some.inj h).symm⟩

end Compound

end CssGuard
