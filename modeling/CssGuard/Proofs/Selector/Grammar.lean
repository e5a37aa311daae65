import CssGuard.Proofs.Selector.Splitting

/-!
# The grammar of selectors

A complex selector is let through exactly if it consists of compound selectors with
combinators between them, each of a form that can be written anew, and if no pseudo-class
stands where it may not. Brackets that are not closed, and those that close nothing, are
no exception: they are in no compound selector.

- `IsComplex`: compound selectors of one kind, with combinators between them
- `IsWellFormed`, `IsAllowed`: the kinds of compound selectors
- `unsplit_isCompound`: no compound selector is split
- `isComplex_iff_satisfies`: where a complex selector is split, its compound selectors end
- `sanitizeComplex_of_isCompound`: one compound selector by itself
- `isSome_sanitizeComplex_iff`: what is let through
-/

namespace CssGuard

open Text
open scoped Text.ByCharacter

/-- The tokens are compound selectors with combinators between them. The compound
selectors satisfy `P`, as the last one or not. -/
inductive IsComplex (P : Bool → List Token → Prop) : List Token → Prop
  | last {ts : List Token} (h : P true ts) : IsComplex P ts
  | cons {ts us : List Token} {t : Token} (h : P false ts) (ht : isCombinator t)
    (hs : IsComplex P us) :
      IsComplex P (ts ++ t :: us)

/-- What a compound selector of a complex selector depends on. -/
def SelectorContext.compound (ctx : SelectorContext) (isLast : Bool) : CompoundContext :=
  ⟨ctx.confinement, ctx.attributes, isLast⟩

/-- The tokens are a compound selector: an element, qualifiers and a
pseudo-class, but not nothing. -/
def IsWellFormed (ctx : SelectorContext) (isLast : Bool) (ts : List Token) : Prop :=
  ts ≠ [] ∧ ∃ a, IsCompound (ctx.compound isLast) ts a

/-- The tokens are a compound selector whose pseudo-class may stand where it does. -/
def IsAllowed (ctx : SelectorContext) (isLast : Bool) (ts : List Token) : Prop :=
  ts ≠ [] ∧ ∃ a, IsCompound (ctx.compound isLast) ts a ∧ a.Fits (ctx.compound isLast)

/-! ## Nothing is split inside a compound selector -/

theorem isPiece_of_isIdentLine {t : Token} (h : isIdentLine t) : IsPiece t := by
  refine isPiece_of_chars ?_ fun c hc hmem => ?_
  · rintro rfl
    cases h
  · have hmarks : ∀ c ∈ '(' :: splitMarks, ¬ isPlainNameChar c ∧ c ≠ '\n' := by decide
    exact (mem_of_isIdentLine h hmem).elim (hmarks c hc).1 (hmarks c hc).2

/-- Case makes no difference to the marks at which a selector is split. -/
theorem isPiece_of_isIdentLine_lower {t : Token} (h : isIdentLine (lower t)) :
    IsPiece t := by
  refine isPiece_of_chars ?_ fun c hc hmem => ?_
  · rintro rfl
    cases h
  · have hmarks : ∀ c ∈ '(' :: splitMarks,
        c.toNat < 0x80 ∧ ¬ isPlainNameChar c.toLower ∧ c.toLower ≠ '\n' := by decide
    obtain ⟨hascii, hname, hnew⟩ := hmarks c hc
    exact (mem_of_isIdentLine h (toLower_mem_lower hmem hascii)).elim hname hnew

theorem eq_of_stringBody? {t : Token} {body : Text} (h : t.stringBody? = some body) :
    t = '"' :: body ++ ['"'] ∨ t = '"' :: body ++ ['"', '\n'] := by
  unfold Token.stringBody? bodyUpTo? at h
  split at h
  · split at h
    · rename_i hclosed
      split at h
      · rename_i hafter
        cases h
        rw [← Lexeme.append_of_closedBody? hclosed]
        rcases hafter with rfl | rfl
        · exact .inl rfl
        · exact .inr rfl
      · cases h
    · cases h
  · cases h

/-- A string opens no parenthesis, since it ends with a quote or a newline. -/
theorem isPiece_of_stringBody? {t : Token} {body : Text} (h : t.stringBody? = some body) :
    IsPiece t := by
  have hlast : t.getLast? ≠ some '(' := by
    rcases eq_of_stringBody? h with rfl | rfl <;> simp [List.getLast?_cons]
  rcases eq_of_stringBody? h with rfl | rfl
  all_goals exact isPiece_of_head (by decide) (decide_eq_false hlast)

theorem isPiece_of_isTestValue {t : Token} {value : Text} (h : IsTestValue t value) :
    IsPiece t := by
  cases h with
  | string hbody => exact isPiece_of_stringBody? hbody
  | ident hident => exact isPiece_of_isIdentLine hident

theorem isPiece_of_isAttribute {suffix source : Text} {table : AttributeTable}
    {body : List Token} {q : Qualifier} (h : IsAttribute suffix table source body q) :
    ∀ t ∈ body, IsPiece t := by
  cases h with
  | present hname => exact List.forall_mem_singleton.mpr (isPiece_of_isIdentLine hname)
  | @compared _ _ _ flag _ _ _ hname _ hoperator hvalue hflag =>
    have hflags : ∀ f ∈ flag.toList, IsPiece f := by
      intro f hf
      refine isPiece_of_isIdentLine_lower ?_
      rw [hflag f (Option.mem_toList.mp hf)]
      decide
    exact List.forall_mem_cons.mpr ⟨isPiece_of_isIdentLine hname, List.forall_mem_cons.mpr
      ⟨isPiece_of_mem_matchOperators _ hoperator, List.forall_mem_cons.mpr
        ⟨isPiece_of_isTestValue hvalue, hflags⟩⟩⟩

theorem isPiece_of_isEnding {ts : List Token} {pseudo : Option Pseudo}
    (h : IsEnding ts pseudo) : ∀ t ∈ ts, IsPiece t := by
  have hcolon : IsPiece Token.colon := isPiece_of_head (by decide) (by decide)
  have hknown : ∀ name ∈ pseudoClasses ++ historyPseudoClasses ++ pseudoElements,
      isIdentLine name := by
    decide
  cases h with
  | none => exact fun t ht => absurd ht List.not_mem_nil
  | pseudoClass hname =>
    have hname := isPiece_of_isIdentLine_lower
      (hknown _ (List.mem_append_left _ (List.mem_append.mpr hname)))
    exact List.forall_mem_cons.mpr ⟨hcolon, List.forall_mem_singleton.mpr hname⟩
  | pseudoElement hname =>
    have hname := isPiece_of_isIdentLine_lower (hknown _ (List.mem_append_right _ hname))
    exact List.forall_mem_cons.mpr ⟨hcolon, List.forall_mem_cons.mpr ⟨hcolon,
      List.forall_mem_singleton.mpr hname⟩⟩

section Compound

variable {ctx : CompoundContext}

theorem isPiece_of_isSubject {us : List Token} {subject : Subject}
    (h : IsSubject ctx us subject) : ∀ t ∈ us, IsPiece t := by
  cases h with
  | none => exact fun t ht => absurd ht List.not_mem_nil
  | star => exact List.forall_mem_singleton.mpr (isPiece_of_head (by decide) (by decide))
  | element hident =>
    exact List.forall_mem_singleton.mpr (isPiece_of_isIdentLine_lower hident)

theorem unsplit_isQualifier {source : Text} {ts : List Token} {q : Qualifier}
    (h : IsQualifier ctx source ts q) : Unsplit isCombinator ts := by
  cases h with
  | @id name hname =>
    refine unsplit_pieces isCombinator_of_solid (List.forall_mem_singleton.mpr ?_)
    refine isPiece_hash fun hmem => ?_
    rcases mem_of_isIdentLine (isIdentLine_of_isSelectable hname) hmem with hc | hc
    · exact absurd hc (by decide)
    · cases hc
  | className hname =>
    refine unsplit_pieces isCombinator_of_solid (List.forall_mem_cons.mpr ⟨?_, ?_⟩)
    · exact isPiece_of_head (by decide) (by decide)
    · exact List.forall_mem_singleton.mpr
        (isPiece_of_isIdentLine (isIdentLine_of_isSelectable hname))
  | attr hattribute =>
    exact unsplit_bracketed isCombinator_of_solid (isPiece_of_isAttribute hattribute)

theorem unsplit_arePieces {source : Text} {ts : List Token} {qs : List Qualifier}
    {pseudo : Option Pseudo} (h : ArePieces ctx source ts qs pseudo) :
    Unsplit isCombinator ts := by
  induction h with
  | ending h => exact unsplit_pieces isCombinator_of_solid (isPiece_of_isEnding h)
  | cons hq _ ih => exact (unsplit_isQualifier hq).append ih

/-- No combinator stands in a compound selector outside its brackets. -/
theorem unsplit_isCompound {ts : List Token} {a : Analysis} (h : IsCompound ctx ts a) :
    Unsplit isCombinator ts := by
  cases h with
  | intro hsubject hpieces =>
    exact (unsplit_pieces isCombinator_of_solid (isPiece_of_isSubject hsubject)).append
      (unsplit_arePieces hpieces)

/-! ## One compound selector -/

/-- Something is written for a compound selector unless it is empty. -/
theorem text_written_ne_nil
    (hpolicy : ∀ name element, ctx.confinement.tagPolicy name = some element →
      element ≠ [])
    {ts : List Token} {a : Analysis} (h : IsCompound ctx ts a) (hne : ts ≠ []) :
    (a.written ctx.confinement).text ctx.confinement.idSuffix ≠ [] := by
  cases h with
  | @intro us vs subject qs pseudo hsubject hpieces =>
    cases pseudo with
    | some p =>
      cases hp : p.isElement <;> simp [Analysis.written, Compound.text, Pseudo.render, hp]
    | none =>
      show subject.element ++ qs.flatMap _ ++ [] ≠ []
      rw [List.append_nil]
      cases hsubject with
      | star => exact List.cons_ne_nil _ _
      | element hident hhtml hname =>
        exact List.append_ne_nil_of_left_ne_nil (hpolicy _ _ hname) _
      | none =>
        -- the tokens are qualifiers, and each is written as something
        refine List.append_ne_nil_of_right_ne_nil _ ?_
        cases hpieces with
        | ending hending =>
          cases hending
          exact absurd rfl hne
        | cons hq =>
          rw [List.flatMap_cons]
          refine List.append_ne_nil_of_left_ne_nil ?_ _
          cases hq with
          | id | className => exact List.cons_ne_nil _ _
          | attr hattribute => cases hattribute <;> exact List.cons_ne_nil _ _

/-- A compound selector is let through exactly if it is not empty, has the form of one,
and its pseudo-class may stand where it does. -/
theorem isSome_sanitizeCompound_iff
    (hpolicy : ∀ name element, ctx.confinement.tagPolicy name = some element →
      element ≠ [])
    {ts : List Token} :
    (sanitizeCompound ctx ts).value.isSome ↔
      ts ≠ [] ∧ ∃ a, IsCompound ctx ts a ∧ a.Fits ctx := by
  constructor
  · intro h
    obtain ⟨selected, hselected⟩ := Option.isSome_iff_exists.mp h
    obtain ⟨a, ha, hfits, -⟩ := exists_isCompound_of_sanitizeCompound hselected
    refine ⟨?_, a, ha, hfits⟩
    rintro rfl
    cases hselected
  · rintro ⟨hne, a, ha, hfits⟩
    rw [sanitizeCompound_of_isCompound ha hfits (text_written_ne_nil hpolicy ha hne)]
    rfl

end Compound

/-! ## Complex selectors -/

/-- The parts between combinators satisfy `P`, as the last one or not. -/
structure Parts.Satisfies (P : Bool → List Token → Prop) (p : Parts) : Prop where
  first : P p.others.isEmpty p.first
  others : OthersSatisfy P p.others

/-- The tokens that were split. -/
def Parts.tokens (p : Parts) : List Token :=
  p.first ++ p.others.flatMap fun (t, ts) => t :: ts

theorem tokens_splitAtTop (isSeparator : Token → Bool) (depth : Nat) (ts : List Token) :
    (splitAtTop isSeparator depth ts).tokens = ts := by
  induction ts generalizing depth with
  | nil => rfl
  | cons t ts ih =>
    rw [splitAtTop]
    split
    · exact congrArg (t :: ·) (ih 0)
    · exact congrArg (t :: ·) (ih _)

theorem isComplex_tokens {P : Bool → List Token → Prop} {first : List Token}
    {others : List (Token × List Token)} (h : Parts.Satisfies P ⟨first, others⟩) :
    IsComplex P (Parts.tokens ⟨first, others⟩) := by
  induction others generalizing first with
  | nil =>
    rw [Parts.tokens, List.flatMap_nil, List.append_nil]
    exact .last h.first
  | cons other rest ih =>
    obtain ⟨hcombinator, hother, hrest⟩ := h.others
    rw [Parts.tokens, List.flatMap_cons, List.cons_append]
    exact .cons h.first hcombinator (ih ⟨hother, hrest⟩)

/-- Where compound selectors are not split, a complex selector is split into them. -/
theorem isComplex_iff_satisfies {P : Bool → List Token → Prop}
    (hP : ∀ isLast ts, P isLast ts → Unsplit isCombinator ts) {ts : List Token} :
    IsComplex P ts ↔ (splitAtTop isCombinator 0 ts).Satisfies P := by
  constructor
  · -- each compound selector is taken whole, so the splits are at the combinators
    -- between them
    intro h
    induction h with
    | @last ts h =>
      have hsplit := hP true ts h []
      rw [List.append_nil] at hsplit
      rw [hsplit]
      refine ⟨?_, trivial⟩
      show P true (ts ++ [])
      rwa [List.append_nil]
    | @cons ts us t h ht hs ih =>
      have hseparate : splitAtTop isCombinator 0 (t :: us) =
          (splitAtTop isCombinator 0 us).separate t := by
        rw [splitAtTop, ht]
        rfl
      rw [hP false ts h, hseparate]
      refine ⟨?_, ht, ih.first, ih.others⟩
      show P false (ts ++ [])
      rwa [List.append_nil]
  · intro h
    have hcomplex := isComplex_tokens h
    rwa [tokens_splitAtTop] at hcomplex

section Complex

variable (ctx : SelectorContext)

/-- Compound selectors are let through together exactly if each is let through. -/
theorem isSome_sanitizeCompounds_iff {others : List (Token × List Token)}
    (hothers : ∀ o ∈ others, isCombinator o.1) :
    (sanitizeCompounds ctx others).value.isSome ↔ OthersSatisfy
      (fun isLast ts => (sanitizeCompound (ctx.compound isLast) ts).value.isSome)
        others := by
  induction others with
  | nil => exact ⟨fun _ => trivial, fun _ => rfl⟩
  | cons other rest ih =>
    obtain ⟨t, ts⟩ := other
    obtain ⟨ht, hrest⟩ := List.forall_mem_cons.mp hothers
    have ih := ih hrest
    simp only [sanitizeCompounds, OthersSatisfy, Traced.value_bind]
    show _ ↔ _ ∧ (sanitizeCompound ⟨_, _, _⟩ ts).value.isSome ∧ _
    cases (sanitizeCompound ⟨ctx.confinement, ctx.attributes, rest.isEmpty⟩ ts).value with
    | none => simp
    | some compound =>
      simp only [Traced.value_bind, ← ih, ht, true_and, Option.isSome_some]
      cases (sanitizeCompounds ctx rest).value <;> simp

theorem isSome_sanitizeComplex_iff_satisfies {ts : List Token} :
    (sanitizeComplex ctx ts).value.isSome ↔ (splitAtTop isCombinator 0 ts).Satisfies
      fun isLast us => (sanitizeCompound (ctx.compound isLast) us).value.isSome := by
  have hothers := isSome_sanitizeCompounds_iff ctx
    fun o ho => ((mem_splitAtTop isCombinator ts 0).2 o ho).1
  have hsatisfies : ∀ {P : Bool → List Token → Prop} {p : Parts},
      p.Satisfies P ↔ P p.others.isEmpty p.first ∧ OthersSatisfy P p.others :=
    ⟨fun h => ⟨h.first, h.others⟩, fun h => ⟨h.1, h.2⟩⟩
  rw [hsatisfies, ← hothers]
  simp only [sanitizeComplex, Traced.value_bind]
  show _ ↔ (sanitizeCompound ⟨_, _, _⟩ _).value.isSome ∧ _
  cases (sanitizeCompound ⟨ctx.confinement, ctx.attributes,
    (splitAtTop isCombinator 0 ts).others.isEmpty⟩ (splitAtTop isCombinator 0
      ts).first).value with
  | none => simp
  | some first =>
    simp only [Traced.value_bind, Option.isSome_some, true_and]
    cases (sanitizeCompounds ctx (splitAtTop isCombinator 0 ts).others).value <;> simp

/-- A compound selector by itself is let through, and nothing is reported. -/
theorem sanitizeComplex_of_isCompound {ts : List Token} {a : Analysis}
    (h : IsCompound (ctx.compound true) ts a) (hfits : a.Fits (ctx.compound true))
    (hne : (a.written ctx.confinement).text ctx.confinement.idSuffix ≠ []) :
    sanitizeComplex ctx ts =
      pure (some ⟨Complex.text ctx.confinement ⟨a.written ctx.confinement, []⟩,
        (a.written ctx.confinement).isSensitive⟩) := by
  have hsplit := unsplit_isCompound h []
  rw [List.append_nil] at hsplit
  have hparts : splitAtTop isCombinator 0 ts = ⟨ts, []⟩ := by
    rw [hsplit]
    exact congrArg (Parts.mk · []) (List.append_nil ts)
  have hcompound : sanitizeCompound ⟨ctx.confinement, ctx.attributes, true⟩ ts = _ :=
    sanitizeCompound_of_isCompound h hfits hne
  rw [sanitizeComplex, hparts]
  dsimp only
  rw [List.isEmpty_nil, hcompound, pure_bind]
  show pure (some (Selected.mk _ (_ || false))) = _
  rw [Bool.or_false]
  rfl

/-- A complex selector is let through exactly if it is in the grammar: compound selectors
with combinators between them, where each is an element, qualifiers and a pseudo-class,
not all left out, and where no pseudo-class stands where it may not. -/
theorem isSome_sanitizeComplex_iff
    (hpolicy : ∀ name element, ctx.confinement.tagPolicy name = some element →
      element ≠ [])
    {ts : List Token} :
    (sanitizeComplex ctx ts).value.isSome ↔ IsComplex (IsAllowed ctx) ts := by
  have hallowed :
      (fun isLast us => ((sanitizeCompound (ctx.compound isLast) us).value.isSome :
        Prop)) =
      IsAllowed ctx :=
    funext₂ fun isLast _ =>
      propext (@isSome_sanitizeCompound_iff (ctx.compound isLast) hpolicy _)
  have hunsplit : ∀ isLast ts, IsAllowed ctx isLast ts → Unsplit isCombinator ts := by
    rintro isLast ts ⟨-, a, ha, -⟩
    exact unsplit_isCompound ha
  rw [isSome_sanitizeComplex_iff_satisfies, hallowed, isComplex_iff_satisfies hunsplit]

end Complex

/-- A combinator in a string and capitals in a flag and a pseudo-class are in the grammar;
a bracket that closes nothing is not. -/
theorem isSome_sanitizeComplex_iff_link :
    (sanitizeComplex { confinement := .standard }
      ["[", "title", "~=", "\"x > y\"", "I", "]", ">", "*", ":", "Link"]).value.isSome ∧
    IsComplex (IsAllowed { confinement := .standard })
      ["[", "title", "~=", "\"x > y\"", "I", "]", ">", "*", ":", "Link"] ∧
    ¬ IsComplex (IsAllowed { confinement := .standard }) ["p", "]", ">", "b"] := by
  have hpolicy : ∀ name element, Confinement.standard.tagPolicy name = some element →
      element ≠ [] := by
    rintro name element h rfl
    exact absurd (isPlainIdent_of_mem_safeElements _ (mem_safeElements_of_standard h).1)
      (by decide)
  have haccepted : (sanitizeComplex { confinement := .standard }
      ["[", "title", "~=", "\"x > y\"", "I", "]", ">", "*", ":",
        "Link"]).value.isSome := by
    decide +kernel
  have hrefused : ¬ (sanitizeComplex { confinement := .standard } ["p", "]", ">",
      "b"]).value.isSome := by
    decide +kernel
  exact ⟨haccepted, (isSome_sanitizeComplex_iff _ hpolicy).mp haccepted,
    mt (isSome_sanitizeComplex_iff _ hpolicy).mpr hrefused⟩

/-- A confinement that knows no element. -/
def unnamed : Confinement :=
  { Confinement.standard with tagPolicy := fun _ => none }

/-- The form of the compound selectors is not all: visited links are told from
others only on links, and only where links have a name, and the outermost
element is not left for others. -/
theorem isWellFormed_and_refused :
    (IsComplex (IsWellFormed { confinement := .standard }) ["p", ":", "visited"] ∧
      (sanitizeComplex { confinement := .standard } ["p", ":", "visited"]).value = none) ∧
    (IsComplex (IsWellFormed { confinement := .standard }) [":", "root", " ", "p"] ∧
      (sanitizeComplex { confinement := .standard } [":", "root", " ", "p"]).value =
        none) ∧
    (IsComplex (IsWellFormed { confinement := unnamed }) [":", "visited"] ∧
      (sanitizeComplex { confinement := unnamed } [":", "visited"]).value = none) := by
  have hp : IsSubject (SelectorContext.compound { confinement := .standard } true) ["p"]
      ⟨"p", "p"⟩ :=
    @IsSubject.element _ "p" _ (by decide) (fun _ => rfl) (by decide +kernel)
  have hvisited : IsEnding [":", "visited"] (some ⟨false, "visited"⟩) :=
    @IsEnding.pseudoClass "visited" (by decide)
  have hroot : IsEnding [":", "root"] (some ⟨false, "root"⟩) :=
    @IsEnding.pseudoClass "root" (by decide)
  refine ⟨⟨?_, by decide +kernel⟩, ⟨?_, by decide +kernel⟩, ⟨?_, by decide +kernel⟩⟩
  · exact .last ⟨by decide, _, IsCompound.intro hp (.ending hvisited)⟩
  · have hfirst : IsWellFormed { confinement := .standard } false [":", "root"] :=
      ⟨by decide, _, IsCompound.intro .none (.ending hroot)⟩
    have hlast : IsWellFormed { confinement := .standard } true ["p"] :=
      ⟨by decide, _, IsCompound.intro hp (.ending .none)⟩
    exact .cons hfirst rfl (.last hlast)
  · exact .last ⟨by decide, _, IsCompound.intro .none (.ending hvisited)⟩

end CssGuard
