import CssGuard.Proofs.Selector.Pieces

/-!
# The syntax of sanitized selectors

A sanitized selector is rebuilt from parts of a few kinds. Here is what is known of
the parts of a selector that was let through, with any tag policy that gives plain
names, and with the standard one.

- `Complex`: compound selectors with combinators between them
- `Compound.IsPlain`, `Complex.IsPlain`: the parts of a
  selector are plain names and strings
- `Qualifier.IsValid`, `Compound.IsValid`, `Complex.IsValid`: the
  parts of a selector let through
- `Selection.IsValid`: the selectors that are left of a list
- `consistsOf_sanitizeSelectors`: what holds of every selector let
  through holds of those of a list
- `isValid_sanitizeSelectors`: a sanitized list of selectors is valid
-/

namespace CssGuard

open Text Escape

/-! ## Parts -/

/-- A complex selector: compound selectors, all but the first after a combinator. -/
structure Complex where
  first : Compound
  others : List (Token × Compound)

namespace Complex

/-- The text of a complex selector. -/
def text (c : Confinement) (s : Complex) : Text :=
  c.start ++ s.first.text c.idSuffix ++
    s.others.flatMap fun (combinator, compound) =>
      combinatorText combinator ++ compound.text c.idSuffix

/-- The complex selector tells visited links from others. -/
def isSensitive (s : Complex) : Bool :=
  s.first.isSensitive || s.others.any (·.2.isSensitive)

end Complex

theorem cases_of_isCombinator {t : Token} (h : isCombinator t) :
    t = Token.space ∨ t = ['>'] ∨ t = ['+'] ∨ t = ['~'] := by
  simpa [isCombinator, or_assoc] using h

/-! ## Valid parts -/

/-- A name of an id or a class, written in plain characters. -/
structure IsSelectableName (name : Text) : Prop where
  plain : isPlainIdent name
  selectable : isSelectable name

/-- A test of an attribute that was let through. The value was already carried over, so
without a suffix it carries over as it is. -/
structure AttributeTest.IsValid (suffix : Text) (kind : AttributeKind)
    (t : AttributeTest) : Prop where
  operator : t.operator ∈ matchOperators
  value : '\x00' ∉ t.value
  carries : suffix = [] → translateValue? [] kind t.operator t.value t.ignoresCase =
    some t.value

/-- A qualifier that was let through on an element. -/
def Qualifier.IsValid (suffix element : Text) : Qualifier → Prop
  | id name | className name => IsSelectableName name
  | attr name test => isPlainIdent name ∧ lower name = name ∧
      ∃ kind, attributeKind? standardAttributes element name = some kind ∧
        ∀ t ∈ test, t.IsValid suffix kind

/-- The element of a compound selector that was let through. -/
def IsElement (element : Text) : Prop :=
  element = [] ∨ element = ['*'] ∨ element ∈ safeElements

/-- A compound selector that was let through, as the last one of its selector or not. -/
structure Compound.IsValid (c : Confinement) (isLast : Bool) (s : Compound) : Prop where
  element : IsElement s.element
  qualifiers : ∀ q ∈ s.qualifiers, q.IsValid c.idSuffix s.element
  known : ∀ p ∈ s.pseudo, p.isKnown
  history : ∀ p ∈ s.pseudo, p.isHistory → s.element = ['a']
  root : ∀ p ∈ s.pseudo, p.isRoot → isLast = false → c.containerClass ≠ none
  ne_nil : s.text c.idSuffix ≠ []

/-- The compound selectors after the first that were let through. -/
def AreOthers (c : Confinement) : List (Token × Compound) → Prop
  | [] => True
  | (combinator, s) :: rest =>
    isCombinator combinator ∧ s.IsValid c rest.isEmpty ∧ AreOthers c rest

/-- A complex selector that was let through. -/
structure Complex.IsValid (c : Confinement) (s : Complex) : Prop where
  first : s.first.IsValid c s.others.isEmpty
  others : AreOthers c s.others

/-- The selectors that are left of a list are the texts of complex selectors that were let
through, each in the list where it belongs. -/
structure Selection.IsValid (c : Confinement) (selection : Selection) : Prop where
  insensitive : ∀ t ∈ selection.insensitive, ∃ s : Complex, s.IsValid c ∧
    s.isSensitive = false ∧ t = s.text c
  sensitive : ∀ t ∈ selection.sensitive, ∃ s : Complex, s.IsValid c ∧
    s.isSensitive = true ∧ t = s.text c

/-! ## Plain parts -/

/-- The names of a qualifier are plain, and its value can be written in a string. -/
def Qualifier.IsPlain : Qualifier → Prop
  | id name | className name => isPlainIdent name
  | attr name test => isPlainIdent name ∧
      ∀ t ∈ test, t.operator ∈ matchOperators ∧ '\x00' ∉ t.value

/-- A compound selector whose names are plain. -/
structure Compound.IsPlain (suffix : Text) (s : Compound) : Prop where
  element : s.element = [] ∨ s.element = ['*'] ∨ isPlainIdent s.element
  qualifiers : ∀ q ∈ s.qualifiers, q.IsPlain
  known : ∀ p ∈ s.pseudo, p.isKnown
  ne_nil : s.text suffix ≠ []

/-- A complex selector whose names are plain. -/
structure Complex.IsPlain (suffix : Text) (s : Complex) : Prop where
  first : s.first.IsPlain suffix
  others : ∀ o ∈ s.others, isCombinator o.1 ∧ o.2.IsPlain suffix

/-- Where visited links are told from others, the element is the name for a link. -/
def Compound.NamesLinks (c : Confinement) (s : Compound) : Prop :=
  ∀ p ∈ s.pseudo, p.isHistory → c.tagPolicy ['a'] = some s.element

theorem isPlainIdent_of_mem_safeElements : ∀ n ∈ safeElements, isPlainIdent n := by
  decide

/-- The standard tag policy gives safe elements their own names. -/
theorem mem_safeElements_of_standard {name element : Text}
    (h : TagPolicy.standard name = some element) :
    element ∈ safeElements ∧ name = element := by
  unfold TagPolicy.standard at h
  split at h
  · rename_i hsafe
    cases h
    exact ⟨hsafe, rfl⟩
  · cases h

theorem Qualifier.IsValid.isPlain {suffix element : Text} {q : Qualifier}
    (h : q.IsValid suffix element) : q.IsPlain := by
  cases q with
  | id name => exact IsSelectableName.plain h
  | className name => exact IsSelectableName.plain h
  | attr name test =>
    obtain ⟨hname, -, kind, -, htest⟩ := h
    exact ⟨hname, fun t ht => ⟨(htest t ht).operator, (htest t ht).value⟩⟩

theorem Compound.IsValid.isPlain {c : Confinement} {isLast : Bool} {s : Compound}
    (h : s.IsValid c isLast) : s.IsPlain c.idSuffix where
  element := h.element.imp_right (Or.imp_right (isPlainIdent_of_mem_safeElements _))
  qualifiers q hq := (h.qualifiers q hq).isPlain
  known := h.known
  ne_nil := h.ne_nil

theorem AreOthers.isPlain {c : Confinement} {others : List (Token × Compound)}
    (h : AreOthers c others) :
    ∀ o ∈ others, isCombinator o.1 ∧ o.2.IsPlain c.idSuffix := by
  induction others with
  | nil => exact fun o ho => absurd ho List.not_mem_nil
  | cons other rest ih => exact List.forall_mem_cons.mpr ⟨⟨h.1, h.2.1.isPlain⟩, ih h.2.2⟩

theorem Complex.IsValid.isPlain {c : Confinement} {s : Complex} (h : s.IsValid c) :
    s.IsPlain c.idSuffix :=
  ⟨h.first.isPlain, h.others.isPlain⟩

/-! ## Attributes -/

theorem not_nul_mem_of_isPlainIdent {t : Text} (h : isPlainIdent t) : '\x00' ∉ t :=
  fun hmem => absurd (all_of_isPlainIdent h _ hmem) (by decide)

theorem not_newline_mem_of_isPlainIdent {n : Text} (h : isPlainIdent n) : '\n' ∉ n :=
  fun hmem => absurd (all_of_isPlainIdent h _ hmem) (by decide)

theorem isPlainIdent_lower_of_token {t : Token} (ht : Shape t) (h : isIdentLine t) :
    isPlainIdent (lower t) ∧ lower (lower t) = lower t := by
  have hplain := isPlainIdent_lower (ht.isPlainIdent h)
  refine ⟨hplain, lower_lower_of_ascii ?_⟩
  exact ascii_of_isPlainIdent (isPlainIdent_lower hplain)

theorem not_nul_mem_of_isTestValue {t : Token} (ht : Shape t) {value : Text}
    (h : IsTestValue t value) : '\x00' ∉ value := by
  cases h with
  | string hbody =>
    obtain ⟨s, hnul, -, rfl⟩ := ht.of_stringBody? hbody
    rw [decode_escapeString hnul]
    exact hnul
  | ident hident => exact not_nul_mem_of_isPlainIdent (ht.isPlainIdent hident)

/-- What a value is carried over to, and that without a suffix it stays as it is. -/
theorem translateValue?_cases {suffix : Text} {kind : AttributeKind} {operator : Token}
    {value value' : Text} {ignoresCase : Bool}
    (h : translateValue? suffix kind operator value ignoresCase = some value') :
    (value' = value ∨ value' = value ++ suffix) ∧
      (suffix = [] → translateValue? [] kind operator value' ignoresCase =
        some value') := by
  unfold translateValue? at h
  split at h
  · rename_i hkept
    cases h
    exact ⟨.inl rfl, fun _ => by rw [translateValue?, if_pos hkept]⟩
  · rename_i hkept
    split at h
    · cases h
    · rename_i carry hcarry
      split at h
      · cases h
      · rename_i hvalue
        -- without a suffix a value stays as it is, whichever way it is carried over
        have hagain : suffix = [] → translateValue? [] kind operator value ignoresCase =
            some value := by
          rintro rfl
          rw [translateValue?, if_neg hkept, hcarry]
          show (if _ then _ else _) = _
          rw [if_neg hvalue]
          cases carry
          · rfl
          · show some (value ++ []) = _
            rw [List.append_nil]
        cases carry
        · cases h
          exact ⟨.inl rfl, hagain⟩
        · cases h
          refine ⟨.inr rfl, ?_⟩
          rintro rfl
          rw [List.append_nil]
          exact hagain rfl

theorem not_nul_mem_of_isIdSuffix {suffix : Text} (h : isIdSuffix suffix) :
    '\x00' ∉ suffix := by
  have hall : ∀ {u : Text}, (u.all fun c => isWordChar c || c = '-') = true →
      '\x00' ∉ u := by
    intro u hu hmem
    exact absurd (List.all_eq_true.mp hu _ hmem) (by decide)
  rcases cases_of_isLineOf h with hu | ⟨u, rfl, hu⟩
  · exact hall hu
  · intro hmem
    rcases List.mem_append.mp hmem with hmem | hmem
    · exact hall hu hmem
    · cases List.mem_singleton.mp hmem

/-- What is said of every element is not said otherwise of links. -/
theorem attributeKind?_link {element name : Text} {kind : AttributeKind}
    (helement : element = [] ∨ element = ['*'] ∨ element = ['a'])
    (h : attributeKind? standardAttributes element name = some kind) :
    attributeKind? standardAttributes ['a'] name = some kind := by
  have hgeneral : ∀ kind,
      standardAttributes.lookup (attributeKey ['*'] name) = some kind →
      attributeKind? standardAttributes ['a'] name = some kind := by
    intro kind hlookup
    have htable : standardAttributes.all (fun (key, _) =>
        !List.isPrefixOf ['*', ':', ':'] key ||
          (standardAttributes.lookup ('a' :: key.tail)).isNone)
        = true := by
      decide
    have hkey : ∀ c, attributeKey [c] name = c :: ':' :: ':' :: name := fun c => rfl
    have hmem : (attributeKey ['*'] name, kind) ∈ standardAttributes := by
      obtain ⟨l₁, l₂, heq, -⟩ := List.lookup_eq_some_iff.mp hlookup
      rw [heq]
      exact List.mem_append_right _ (List.mem_cons_self ..)
    have hnone := List.all_eq_true.mp htable _ hmem
    rw [hkey '*'] at hnone
    have hlink : standardAttributes.lookup (attributeKey ['a'] name) = none := by
      rw [hkey]
      simpa using hnone
    rw [attributeKind?, if_neg (by decide), hlink]
    exact hlookup
  rcases helement with rfl | rfl | rfl
  · rw [attributeKind?, if_pos (.inl rfl)] at h
    exact hgeneral kind h
  · rw [attributeKind?, if_pos (.inr rfl)] at h
    exact hgeneral kind h
  · exact h

/-! ## Qualifiers -/

/-- A token that passes for an id is one. -/
theorem isSelectableName_of_hash {name : Text} (ht : Shape ('#' :: name))
    (h : isSelectable name) : IsSelectableName name := by
  refine ⟨?_, h⟩
  refine of_isLineOf_of_no_newline (isIdentLine_of_isSelectable h) fun hnew => ?_
  have hnumber := ht.beginsNumber_of_newline (List.mem_cons_of_mem _ hnew)
  rcases hnumber with h | h | ⟨h | h, -⟩
  · exact absurd h (by decide)
  · cases h
  · cases h
  · cases h

theorem isSelectableName_of_token {t : Token} (ht : Shape t) (h : isSelectable t) :
    IsSelectableName t :=
  ⟨ht.isPlainIdent (isIdentLine_of_isSelectable h), h⟩

/-- An attribute selector that is made of tokens is written in plain names. -/
theorem IsAttribute.isPlain {suffix source : Text} {table : AttributeTable}
    (hsuffix : isIdSuffix suffix) {body : List Token} {q : Qualifier}
    (h : IsAttribute suffix table source body q) (hbody : ∀ t ∈ body, Shape t) :
    q.IsPlain := by
  cases h with
  | present hname =>
    exact ⟨(isPlainIdent_lower_of_token (hbody _ (List.mem_cons_self ..)) hname).1,
      by simp⟩
  | compared hname _ hoperator hvalue _ hcarried =>
    obtain ⟨hfirst, hrest⟩ := List.forall_mem_cons.mp hbody
    have hnul := not_nul_mem_of_isTestValue
      (hrest _ (List.mem_cons_of_mem _ (List.mem_cons_self ..))) hvalue
    refine ⟨(isPlainIdent_lower_of_token hfirst hname).1, ?_⟩
    rintro t ⟨⟩
    refine ⟨hoperator, ?_⟩
    rcases (translateValue?_cases hcarried).1 with rfl | rfl
    · exact hnul
    · intro hmem
      exact (List.mem_append.mp hmem).elim hnul (not_nul_mem_of_isIdSuffix hsuffix)

/-- A qualifier that is made of tokens is written in plain names. -/
theorem IsQualifier.isPlain {ctx : CompoundContext} {source : Text} {ts : List Token}
    {q : Qualifier} (h : IsQualifier ctx source ts q) (hts : ∀ t ∈ ts, Shape t) :
    q.IsPlain := by
  cases h with
  | id hname =>
    exact (isSelectableName_of_hash (hts _ (List.mem_cons_self ..)) hname).plain
  | className hname =>
    exact (isSelectableName_of_token
      (hts _ (List.mem_cons_of_mem _ (List.mem_cons_self ..))) hname).plain
  | attr hattribute =>
    refine hattribute.isPlain ctx.confinement.idSuffix_valid fun t ht => hts t ?_
    exact List.mem_cons_of_mem _ (List.mem_append_left _ ht)

/-- With the standard attributes, a qualifier that is made of tokens is valid. -/
theorem IsQualifier.isValid {ctx : CompoundContext}
    (htable : ctx.attributes = standardAttributes) {source : Text} {ts : List Token}
    {q : Qualifier} (h : IsQualifier ctx source ts q) (hts : ∀ t ∈ ts, Shape t) :
    q.IsValid ctx.confinement.idSuffix source := by
  have hplain := h.isPlain hts
  cases h with
  | id hname => exact ⟨hplain, hname⟩
  | className hname => exact ⟨hplain, hname⟩
  | attr hattribute =>
    rw [htable] at hattribute
    have hfirst : ∀ {name : Token} {rest : List Token},
        (∀ t ∈ ['['] :: (name :: rest ++ [[']']]), Shape t) → Shape name :=
      fun hts => hts _ (List.mem_cons_of_mem _ (List.mem_cons_self ..))
    cases hattribute with
    | present hname hkind =>
      have hlower := (isPlainIdent_lower_of_token (hfirst hts) hname).2
      exact ⟨hplain.1, hlower, _, hkind, by simp⟩
    | compared hname hkind _ _ _ hcarried =>
      have hlower := (isPlainIdent_lower_of_token (hfirst hts) hname).2
      refine ⟨hplain.1, hlower, _, hkind, ?_⟩
      rintro t ⟨⟩
      obtain ⟨hoperator, hnul⟩ := hplain.2 _ rfl
      exact ⟨hoperator, hnul, (translateValue?_cases hcarried).2⟩

/-- What holds of every qualifier made of tokens holds of the qualifiers among pieces. -/
theorem ArePieces.forall_qualifiers {ctx : CompoundContext} {source : Text}
    {P : Qualifier → Prop} (hP : ∀ {ts : List Token} {q : Qualifier},
      IsQualifier ctx source ts q → (∀ t ∈ ts, Shape t) → P q)
    {ts : List Token} {qs : List Qualifier} {pseudo : Option Pseudo}
    (h : ArePieces ctx source ts qs pseudo) (hts : ∀ t ∈ ts, Shape t) :
    ∀ q ∈ qs, P q := by
  induction h with
  | ending => exact fun q hq => absurd hq List.not_mem_nil
  | cons hq _ ih =>
    obtain ⟨hfirst, hrest⟩ := List.forall_mem_append.mp hts
    exact List.forall_mem_cons.mpr ⟨hP hq hfirst, ih hrest⟩

theorem ArePieces.isKnown {ctx : CompoundContext} {source : Text} {ts : List Token}
    {qs : List Qualifier} {pseudo : Option Pseudo}
    (h : ArePieces ctx source ts qs pseudo) : ∀ p ∈ pseudo, p.isKnown := by
  induction h with
  | ending h =>
    rintro p rfl
    exact isKnown_of_isEnding h
  | cons _ _ ih => exact ih

/-! ## Compound selectors -/

section Compound

variable {ctx : CompoundContext}

/-- Where a pseudo-class tells visited links from others, the
name for a link is written. -/
theorem elementFor_of_isHistory {subject : Subject} {p : Pseudo} (hp : p.isHistory)
    (hfits : p.Fits ctx subject.source) :
    ctx.confinement.tagPolicy ['a'] =
      some (ctx.confinement.elementFor subject (some p)) := by
  obtain ⟨link, hlink⟩ := Option.isSome_iff_exists.mp (hfits.link hp).2
  rw [Confinement.elementFor, Option.any_some, if_pos hp, hlink]
  rfl

theorem elementFor_of_not_isHistory {c : Confinement} {subject : Subject}
    {pseudo : Option Pseudo} (h : pseudo.any Pseudo.isHistory = false) :
    c.elementFor subject pseudo = subject.element := by
  rw [Confinement.elementFor, h]
  rfl

/-- What holds of the name for a link, and of the element that was given,
holds of the one written. -/
theorem elementFor_cases {P : Text → Prop} {a : Analysis} (hfits : a.Fits ctx)
    (hlink : ∀ link, ctx.confinement.tagPolicy ['a'] = some link → P link)
    (helement : P a.subject.element) :
    P (ctx.confinement.elementFor a.subject a.pseudo) := by
  cases hhistory : a.pseudo.any Pseudo.isHistory with
  | false =>
    rw [elementFor_of_not_isHistory hhistory]
    exact helement
  | true =>
    obtain ⟨p, hp, hvisited⟩ := (Option.any_eq_true _ _).mp hhistory
    rw [hp]
    exact hlink _ (elementFor_of_isHistory hvisited (hfits p hp))

/-- What is let through of a compound selector is plain, when the tag
policy gives plain names. -/
theorem exists_isPlain_of_sanitizeCompound
    (hpolicy : ∀ name element, ctx.confinement.tagPolicy name = some element →
      isPlainIdent element)
    {tokens : List Token} (htokens : ∀ t ∈ tokens, Shape t) {selected : Selected}
    (h : (sanitizeCompound ctx tokens).value = some selected) :
    ∃ s : Compound, (s.IsPlain ctx.confinement.idSuffix ∧ s.NamesLinks ctx.confinement) ∧
      selected = ⟨s.text ctx.confinement.idSuffix, s.isSensitive⟩ := by
  obtain ⟨a, ha, hfits, hne, rfl⟩ := exists_isCompound_of_sanitizeCompound h
  refine ⟨a.written ctx.confinement, ⟨⟨?_, ?_, ?_, hne⟩, ?_⟩, rfl⟩
  · refine elementFor_cases (P := fun e => e = [] ∨ e = ['*'] ∨ isPlainIdent e) hfits
      (fun link hlink => .inr (.inr (hpolicy _ _ hlink))) ?_
    cases ha with
    | intro hsubject =>
      cases hsubject with
      | none => exact .inl rfl
      | star => exact .inr (.inl rfl)
      | element _ _ helement => exact .inr (.inr (hpolicy _ _ helement))
  · cases ha with
    | intro _ hpieces =>
      exact hpieces.forall_qualifiers IsQualifier.isPlain
        (List.forall_mem_append.mp htokens).2
  · cases ha with
    | intro _ hpieces => exact hpieces.isKnown
  · rintro p (hp : a.pseudo = some p) hvisited
    show _ = some (ctx.confinement.elementFor a.subject a.pseudo)
    rw [hp]
    exact elementFor_of_isHistory hvisited (hfits p hp)

variable (htable : ctx.attributes = standardAttributes)
  (hpolicy : ctx.confinement.tagPolicy = TagPolicy.standard)

include hpolicy in
/-- The standard tag policy keeps the names of elements. -/
theorem isElement_of_isSubject {us : List Token} {subject : Subject}
    (h : IsSubject ctx us subject) :
    IsElement subject.source ∧ subject.element = subject.source := by
  cases h with
  | none => exact ⟨.inl rfl, rfl⟩
  | star => exact ⟨.inr (.inl rfl), rfl⟩
  | element _ _ helement =>
    rw [hpolicy] at helement
    obtain ⟨hsafe, heq⟩ := mem_safeElements_of_standard helement
    exact ⟨.inr (.inr (heq ▸ hsafe)), heq.symm⟩

theorem Qualifier.IsValid.link {suffix element : Text} {q : Qualifier}
    (h : q.IsValid suffix element)
    (helement : element = [] ∨ element = ['*'] ∨ element = ['a']) :
    q.IsValid suffix ['a'] := by
  cases q with
  | id name => exact h
  | className name => exact h
  | attr name test =>
    obtain ⟨hplain, hlower, kind, hkind, htest⟩ := h
    exact ⟨hplain, hlower, kind, attributeKind?_link helement hkind, htest⟩

include htable hpolicy in
/-- What is let through of a compound selector is valid. -/
theorem exists_of_sanitizeCompound {tokens : List Token} (htokens : ∀ t ∈ tokens, Shape t)
    {selected : Selected} (h : (sanitizeCompound ctx tokens).value = some selected) :
    ∃ s : Compound, s.IsValid ctx.confinement ctx.isLast ∧
      selected = ⟨s.text ctx.confinement.idSuffix, s.isSensitive⟩ := by
  have hsafe : ['a'] ∈ safeElements := by decide
  have hlink : ctx.confinement.tagPolicy ['a'] = some ['a'] := by
    rw [hpolicy]
    exact if_pos hsafe
  obtain ⟨a, ha, hfits, hne, rfl⟩ := exists_isCompound_of_sanitizeCompound h
  -- only links are visited, so the element becomes the one for links
  have hhistory : ∀ p ∈ a.pseudo, p.isHistory →
      ctx.confinement.elementFor a.subject a.pseudo = ['a'] := by
    intro p hp hvisited
    rw [hp]
    exact Option.some.inj
      ((elementFor_of_isHistory hvisited (hfits p hp)).symm.trans hlink)
  cases ha with
  | @intro us vs subject qs pseudo hsubject hpieces =>
    obtain ⟨helement, hsame⟩ := isElement_of_isSubject hpolicy hsubject
    have hvalid := hpieces.forall_qualifiers (IsQualifier.isValid htable)
      (List.forall_mem_append.mp htokens).2
    refine ⟨_, ⟨?_, ?_, hpieces.isKnown, hhistory, ?_, hne⟩, rfl⟩
    · refine elementFor_cases (P := IsElement) hfits (fun link heq => ?_)
        (hsame ▸ helement)
      cases hlink.symm.trans heq
      exact .inr (.inr hsafe)
    · intro q hq
      show q.IsValid _ (ctx.confinement.elementFor subject pseudo)
      cases hvisited : pseudo.any Pseudo.isHistory with
      | false =>
        rw [elementFor_of_not_isHistory hvisited, hsame]
        exact hvalid q hq
      | true =>
        obtain ⟨p, hp, hvisited⟩ := (Option.any_eq_true _ _).mp hvisited
        rw [show ctx.confinement.elementFor subject pseudo =
          ['a'] from hhistory p hp hvisited]
        exact (hvalid q hq).link ((hfits p hp).link hvisited).1
    · intro p hp hroot hlast hnone
      rcases (hfits p hp).inside hroot with h | h
      · exact absurd (hlast.symm.trans h) (by decide)
      · rw [hnone] at h
        cases h

end Compound

/-! ## Splitting -/

theorem mem_splitAtTop (isSeparator : Token → Bool) (tokens : List Token) : ∀ depth,
    (∀ t ∈ (splitAtTop isSeparator depth tokens).first, t ∈ tokens) ∧
    ∀ part ∈ (splitAtTop isSeparator depth tokens).others,
      isSeparator part.1 ∧ ∀ t ∈ part.2, t ∈ tokens := by
  induction tokens with
  | nil =>
    exact fun _ => ⟨fun t ht => ht, fun part hpart => absurd hpart List.not_mem_nil⟩
  | cons t tokens ih =>
    intro depth
    rw [splitAtTop]
    split
    · rename_i h
      obtain ⟨hfirst, hothers⟩ := ih 0
      refine ⟨fun t ht => absurd ht List.not_mem_nil,
        List.forall_mem_cons.mpr ⟨⟨?_, ?_⟩, ?_⟩⟩
      · exact (Bool.and_eq_true_iff.mp h).2
      · exact fun t ht => List.mem_cons_of_mem _ (hfirst t ht)
      · intro part hpart
        obtain ⟨hsep, hmem⟩ := hothers part hpart
        exact ⟨hsep, fun t ht => List.mem_cons_of_mem _ (hmem t ht)⟩
    · obtain ⟨hfirst, hothers⟩ := ih (bracketDepth depth t)
      refine ⟨fun t' ht' => ?_, fun part hpart => ?_⟩
      · rcases List.mem_cons.mp ht' with rfl | ht'
        · exact List.mem_cons_self ..
        · exact List.mem_cons_of_mem _ (hfirst t' ht')
      · obtain ⟨hsep, hmem⟩ := hothers part hpart
        exact ⟨hsep, fun t ht => List.mem_cons_of_mem _ (hmem t ht)⟩

theorem mem_trimmed {s : SpaceScan} {t : Token} (h : t ∈ s.trimmed) : t ∈ s.kept := by
  unfold SpaceScan.trimmed at h
  split at h
  · exact List.mem_of_mem_tail h
  · exact h

theorem mem_next {s : SpaceScan} {t t' : Token} (h : t' ∈ (s.next t).kept) :
    t' = t ∨ t' ∈ s.kept := by
  unfold SpaceScan.next at h
  split at h
  · split at h
    · exact .inr h
    · exact List.mem_cons.mp h
  · rcases List.mem_cons.mp h with h | h
    · exact .inl h
    · split at h
      · exact .inr (mem_trimmed h)
      · exact .inr h

theorem mem_foldl_next {ts : List Token} {t : Token} : ∀ {s : SpaceScan},
    t ∈ (ts.foldl SpaceScan.next s).kept → t ∈ s.kept ∨ t ∈ ts := by
  induction ts with
  | nil => exact fun h => .inl h
  | cons t' ts ih =>
    intro s h
    rcases ih h with h | h
    · rcases mem_next h with rfl | h
      · exact .inr (List.mem_cons_self ..)
      · exact .inl h
    · exact .inr (List.mem_cons_of_mem _ h)

theorem mem_of_mem_splitSelectors {tokens part : List Token}
    (hpart : part ∈ splitSelectors tokens) : ∀ t ∈ part, t ∈ tokens := by
  intro t ht
  have hnormal : t ∈ normalizeSpaces tokens := by
    obtain ⟨hfirst, hothers⟩ :=
      mem_splitAtTop (· = Token.comma) (normalizeSpaces tokens) 0
    rcases List.mem_cons.mp hpart with rfl | hpart
    · exact hfirst t ht
    · obtain ⟨other, hother, rfl⟩ := List.mem_map.mp hpart
      exact (hothers other hother).2 t ht
  rcases mem_foldl_next (mem_trimmed (List.mem_reverse.mp hnormal)) with h | h
  · cases h
  · exact h

/-! ## Complex selectors and lists -/

/-- What stands after the combinators of a selector satisfies `P`, as the last or not. -/
def OthersSatisfy {α : Type} (P : Bool → α → Prop) : List (Token × α) → Prop
  | [] => True
  | (combinator, s) :: rest =>
    isCombinator combinator ∧ P rest.isEmpty s ∧ OthersSatisfy P rest

/-- The compound selectors of a complex selector satisfy `P`, as the last one or not. -/
structure Complex.Satisfies (P : Bool → Compound → Prop) (s : Complex) : Prop where
  first : P s.others.isEmpty s.first
  others : OthersSatisfy P s.others

/-- The selectors that are left of a list are the texts of complex selectors with a
property, each in the list where it belongs. -/
structure Selection.ConsistsOf (c : Confinement) (S : Complex → Prop)
    (selection : Selection) : Prop where
  insensitive : ∀ t ∈ selection.insensitive, ∃ s : Complex, S s ∧ s.isSensitive = false ∧
    t = s.text c
  sensitive : ∀ t ∈ selection.sensitive, ∃ s : Complex, S s ∧ s.isSensitive = true ∧
    t = s.text c

theorem areOthers_of_othersSatisfy {c : Confinement} {others : List (Token × Compound)}
    (h : OthersSatisfy (fun isLast s => s.IsValid c isLast) others) :
    AreOthers c others := by
  induction others with
  | nil => trivial
  | cons other rest ih => exact ⟨h.1, h.2.1, ih h.2.2⟩

theorem forall_of_othersSatisfy {P : Compound → Prop} {others : List (Token × Compound)}
    (h : OthersSatisfy (fun _ => P) others) : ∀ o ∈ others, isCombinator o.1 ∧ P o.2 := by
  induction others with
  | nil => exact fun o ho => absurd ho List.not_mem_nil
  | cons other rest ih => exact List.forall_mem_cons.mpr ⟨⟨h.1, h.2.1⟩, ih h.2.2⟩

section Complex

variable {ctx : SelectorContext} {P : Bool → Compound → Prop}
  (hP : ∀ {isLast : Bool} {tokens : List Token} {selected : Selected},
    (∀ t ∈ tokens, Shape t) →
    (sanitizeCompound ⟨ctx.confinement, ctx.attributes, isLast⟩ tokens).value =
      some selected →
    ∃ s : Compound, P isLast s ∧ selected = ⟨s.text ctx.confinement.idSuffix,
      s.isSensitive⟩)

include hP in
theorem exists_of_sanitizeCompounds {parts : List (Token × List Token)}
    (hparts : ∀ part ∈ parts, isCombinator part.1 ∧ ∀ t ∈ part.2, Shape t)
    {selected : Selected} (h : (sanitizeCompounds ctx parts).value = some selected) :
    ∃ others : List (Token × Compound), OthersSatisfy P others ∧
      others.isEmpty = parts.isEmpty ∧
      selected = ⟨others.flatMap fun (combinator, compound) =>
        combinatorText combinator ++ compound.text ctx.confinement.idSuffix,
        others.any (·.2.isSensitive)⟩ := by
  induction parts generalizing selected with
  | nil =>
    cases h
    exact ⟨[], trivial, rfl, rfl⟩
  | cons part rest ih =>
    obtain ⟨combinator, tokens⟩ := part
    obtain ⟨⟨hcombinator, htokens⟩, hrest⟩ := List.forall_mem_cons.mp hparts
    simp only [sanitizeCompounds, Traced.value_bind] at h
    split at h
    · cases h
    · rename_i compound hcompound
      obtain ⟨s, hs, rfl⟩ := hP htokens hcompound
      simp only [Traced.value_bind] at h
      split at h
      · cases h
      · rename_i more hmore
        obtain ⟨others, hothers, hempty, rfl⟩ := ih hrest hmore
        cases h
        refine ⟨(combinator, s) :: others, ⟨hcombinator, ?_, hothers⟩, rfl, ?_⟩
        · rw [hempty]
          exact hs
        · rw [List.flatMap_cons, List.any_cons]

include hP in
/-- What holds of the compound selectors let through holds of
those of a complex selector. -/
theorem exists_of_sanitizeSelector {tokens : List Token} (htokens : ∀ t ∈ tokens, Shape t)
    {selected : Selected} (h : (sanitizeSelector ctx tokens).value = some selected) :
    ∃ s : Complex, s.Satisfies P ∧ selected = ⟨s.text ctx.confinement,
      s.isSensitive⟩ := by
  have hcomplex : (sanitizeComplex ctx tokens).value = some selected := by
    simp only [sanitizeSelector, Traced.value_bind] at h
    split at h
    · rename_i selected' hselected
      cases h
      split at hselected
      · cases hselected
      · exact hselected
    · cases h
  obtain ⟨hfirst, hothers⟩ := mem_splitAtTop isCombinator tokens 0
  simp only [sanitizeComplex, Traced.value_bind] at hcomplex
  split at hcomplex
  · cases hcomplex
  · rename_i first hcompound
    obtain ⟨s, hs, rfl⟩ := hP (fun t ht => htokens t (hfirst t ht)) hcompound
    simp only [Traced.value_bind] at hcomplex
    split at hcomplex
    · cases hcomplex
    · rename_i more hmore
      obtain ⟨others, hvalid, hempty, rfl⟩ := exists_of_sanitizeCompounds hP
        (fun part hpart => ⟨(hothers part hpart).1,
          fun t ht => htokens t ((hothers part hpart).2 t ht)⟩) hmore
      cases hcomplex
      refine ⟨⟨s, others⟩, ⟨?_, hvalid⟩, rfl⟩
      rw [hempty]
      exact hs

include hP in
theorem consistsOf_sanitizeEach {parts : List (List Token)}
    (hparts : ∀ part ∈ parts, ∀ t ∈ part, Shape t) :
    (sanitizeEach ctx parts).value.ConsistsOf ctx.confinement (Complex.Satisfies P) := by
  induction parts with
  | nil =>
    exact ⟨fun t ht => absurd ht List.not_mem_nil, fun t ht => absurd ht List.not_mem_nil⟩
  | cons part rest ih =>
    obtain ⟨hpart, hrest⟩ := List.forall_mem_cons.mp hparts
    have hmore := ih hrest
    simp only [sanitizeEach, Traced.value_bind, Traced.value_pure]
    split
    · rename_i selected hselected
      obtain ⟨s, hs, rfl⟩ := exists_of_sanitizeSelector hP hpart hselected
      unfold Selection.cons
      split
      · rename_i hsensitive
        exact ⟨hmore.insensitive, List.forall_mem_cons.mpr ⟨⟨s, hs, hsensitive, rfl⟩,
          hmore.sensitive⟩⟩
      · rename_i hsensitive
        exact ⟨List.forall_mem_cons.mpr ⟨⟨s, hs, by simpa using hsensitive, rfl⟩,
          hmore.insensitive⟩, hmore.sensitive⟩
    · exact hmore

include hP in
/-- What holds of the compound selectors let through holds of those of a list. -/
theorem consistsOf_sanitizeSelectors {tokens : List Token}
    (htokens : ∀ t ∈ tokens, Shape t) :
    (sanitizeSelectors ctx tokens).value.ConsistsOf ctx.confinement
      (Complex.Satisfies P) :=
  consistsOf_sanitizeEach hP fun _ hpart t ht =>
    htokens t (mem_of_mem_splitSelectors hpart t ht)

end Complex

/-- The selectors that are left of a list are valid. -/
theorem isValid_sanitizeSelectors {ctx : SelectorContext}
    (htable : ctx.attributes = standardAttributes)
    (hpolicy : ctx.confinement.tagPolicy = TagPolicy.standard) {tokens : List Token}
    (htokens : ∀ t ∈ tokens, Shape t) :
    (sanitizeSelectors ctx tokens).value.IsValid ctx.confinement := by
  have hvalid :=
    consistsOf_sanitizeSelectors (P := fun isLast s => s.IsValid ctx.confinement isLast)
      (fun hshape h => exists_of_sanitizeCompound htable hpolicy hshape h) htokens
  have hcomplex : ∀ {s : Complex},
      s.Satisfies (fun isLast s => s.IsValid ctx.confinement isLast) →
      s.IsValid ctx.confinement :=
    fun h => ⟨h.first, areOthers_of_othersSatisfy h.others⟩
  constructor
  · intro t ht
    obtain ⟨s, hs, hsensitive, rfl⟩ := hvalid.insensitive t ht
    exact ⟨s, hcomplex hs, hsensitive, rfl⟩
  · intro t ht
    obtain ⟨s, hs, hsensitive, rfl⟩ := hvalid.sensitive t ht
    exact ⟨s, hcomplex hs, hsensitive, rfl⟩

end CssGuard
