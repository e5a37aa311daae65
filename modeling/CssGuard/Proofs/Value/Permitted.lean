import CssGuard.Proofs.Value.Forms

/-!
# What the schema permits

Each token of a sanitized value has one of nine forms, and the schema permits
this form for the property, or inside of calls for the function. The tokens that
are sanitized may be any texts.

- `Permitted`: the tokens that are permitted for an entry
- `Emitted.permitted`: tokens with an origin are permitted
- `permitted_sanitizeProperty`: the tokens of a sanitized value
  are permitted for the property
-/

namespace CssGuard

open Text Escape

/-- The tokens that are permitted for an entry, with calls nested at most `levels` deep
and URLs that satisfy `G`. -/
inductive Permitted (ctx : ValueContext) (G : Text → Prop) : Nat → Entry → Token → Prop
  | inherit {levels : Nat} {e : Entry} : Permitted ctx G levels e "inherit"
  | keyword {levels : Nat} {e : Entry} {t : Token}
    (hliteral : withoutVendor t ∈ e.literals) : Permitted ctx G levels e t
  | color {levels : Nat} {e : Entry} {t : Token} (hentry : e.allows .hashColor)
    (ht : isHashColor t) : Permitted ctx G levels e t
  /-- A number that begins with a digit. -/
  | quantity {levels : Nat} {e : Entry} {t : Token} (hentry : e.allows .quantity)
    (ht : isQuantity t) (hhead : ∀ c ∈ t.head?, c ∉ ['+', '-', '.']) :
    Permitted ctx G levels e t
  | negative {levels : Nat} {e : Entry} {t : Token} (hentry : e.allows .negativeQuantity)
    (ht : isQuantity t) (hhead : t.head? = some '-') : Permitted ctx G levels e t
  | string {levels : Nat} {e : Entry} (s : Text) (hentry : e.allows .quotedString) :
    Permitted ctx G levels e (quote s)
  /-- Words that were written without quotes. -/
  | words {levels : Nat} {e : Entry} {ws : List Text} (hentry : e.allows .quotedString)
    (hws : ∀ w ∈ ws, isWord w) (hne : ws ≠ []) :
    Permitted ctx G levels e (quoteWords (joined [' '] ws))
  | url {levels : Nat} {e : Entry} {uri : Text} (hentry : e.allows .url)
    (hpolicy : ctx.policy.isSome) (hgrant : G uri) :
    Permitted ctx G levels e (Url.token uri)
  | call {levels : Nat} {e f : Entry} {n : Text} {args : List Token}
    (hfunction : ctx.schema.function? e (withoutVendor n) = some f) (hne : args ≠ [])
    (hargs : ∀ t ∈ args, Permitted ctx G levels f t) :
    Permitted ctx G (levels + 1) e (n ++ ['('] ++ joinValue args ++ [')'])
  /-- A name of the document with the suffix that such names get. -/
  | name {levels : Nat} {e : Entry} {n suffix : Text} (hentry : e.allows .globalName)
    (hname : isName (lower n)) (hsuffix : ctx.idSuffix = some suffix) :
    Permitted ctx G levels e (n ++ suffix)
  /-- The name of a property. -/
  | property {levels : Nat} {e : Entry} {t : Token} (hentry : e.allows .propertyName)
    (hname : t ∈ ctx.schema.names) (hproperty : ¬ List.isSuffixOf ['(', ')'] t) :
    Permitted ctx G levels e t

variable {ctx : ValueContext} {S : Token → Prop} {G : Text → Prop}
  {levels : Nat} {e : Entry}

/-! ## Origins -/

theorem isLineOf_of_isMaybeLine {accepts : Text → Bool} {t q : Text} (hnew : '\n' ∉ t)
    (h : isLineOf accepts t) (hline : IsMaybeLine t q) : isLineOf accepts q := by
  have haccepts : accepts t := by
    rcases cases_of_isLineOf h with haccepts | ⟨t', rfl, -⟩
    · exact haccepts
    · exact absurd (List.mem_append_right _ (List.mem_singleton.mpr rfl)) hnew
  rcases hline with rfl | rfl
  · exact h
  · simp [isLineOf, haccepts]

/-- A number in normal form begins with no plus sign and no point, and with a minus sign
only where this is permitted. -/
theorem permitted_of_normalQuantity? {q t : Text}
    (h : normalQuantity? e (lower q) = some t) : Permitted ctx G levels e t := by
  obtain ⟨n, hn, hline⟩ := isNumeral_of_normalQuantity? h
  have hnew : '\n' ∉ n := hn.not_mem (by decide) (by decide) (by decide) (by decide)
  have hnumber := (normalQuantity?_eq_self h (not_capital_mem_lower q) hn hline).1
  have hquantity : isQuantity t := isLineOf_of_isMaybeLine hnew hnumber hline
  rcases (cases_of_normalQuantity? h).2 with ⟨u, rfl, hentry⟩ | ⟨hentry, hhead⟩
  · exact .negative hentry hquantity rfl
  · exact .quantity hentry hquantity hhead

theorem chars_of_isWord {w : Text} (h : isWord w) :
    ∀ c ∈ w, isSmallNameChar c ∨ c = '\n' := by
  obtain ⟨c, rest, hc, hrest, hline⟩ := exists_of_isWord h
  have hchars : ∀ d ∈ c :: rest, isSmallNameChar d := by
    refine List.forall_mem_cons.mpr ⟨?_, hrest⟩
    rcases Bool.or_eq_true_iff.mp hc with hc | hc <;> simp [isSmallNameChar, hc]
  rcases hline with rfl | rfl
  · exact fun d hd => .inl (hchars d hd)
  · refine List.forall_mem_append.mpr ⟨fun d hd => .inl (hchars d hd),
      fun d hd => .inr ?_⟩
    exact List.mem_singleton.mp hd

theorem chars_of_isName {t : Text} (h : isName t) :
    ∀ c ∈ t, isSmallNameChar c ∨ c = '\n' := by
  unfold isName at h
  split at h
  · exact List.forall_mem_cons.mpr ⟨.inl rfl, chars_of_isWord h⟩
  · exact chars_of_isWord h

theorem Atom.permitted {a : Scrap} (h : Atom ctx S G e a) :
    Permitted ctx G levels e a.text := by
  cases h with
  | keyword hraw hform =>
    rcases Form.says_of_eq hform with hinherit | hliteral
    · rw [Scrap.text, hinherit]
      exact .inherit
    · exact .keyword hliteral
  | color hraw hform hentry => exact .color hentry (Form.says_of_eq hform)
  | quantity hraw hform hnormal =>
    rw [Scrap.text_ofText]
    exact permitted_of_normalQuantity? hnormal
  | name hraw hform hentry hsuffix =>
    rw [Scrap.text_ofText]
    obtain ⟨htakes, hname⟩ := Form.says_of_eq hform
    rw [Entry.takesNames, hentry, Bool.or_false] at htakes
    exact .name htakes hname hsuffix
  | property hraw hform hentry hglobal hfind =>
    obtain ⟨f, hf⟩ := Option.isSome_iff_exists.mp hfind
    refine .property hentry (Schema.mem_names_of_find? hf) fun hsuffix => ?_
    -- there is no parenthesis in a name, so it is not the key of a function
    have hmem :=
      (List.isSuffixOf_iff_suffix.mp hsuffix).subset (by decide : ')' ∈ ['(', ')'])
    rcases chars_of_isName (Form.says_of_eq hform).2 _ hmem with hc | hc
    · exact absurd hc (by decide)
    · exact absurd hc (by decide)
  | string hraw hform hurl hentry => exact .string _ (Bool.and_eq_true_iff.mp hentry).1
  | @words ws hws hne =>
    obtain ⟨raw, hraw⟩ := List.exists_mem_of_ne_nil _ hne
    have htakes := (Form.says_of_eq (hws raw hraw).2).1
    refine .words (Bool.and_eq_true_iff.mp htakes).2 (fun w hw => ?_) (by simpa using hne)
    obtain ⟨raw, hraw, rfl⟩ := List.mem_map.mp hw
    exact (Form.says_of_eq (hws raw hraw).2).2
  | url hgrant hentry hpolicy =>
    rw [Scrap.text_url_escape]
    exact .url hentry hpolicy hgrant

/-- Tokens with an origin are permitted. -/
theorem Emitted.permitted {ts : List Token} {scraps : List Scrap}
    (h : Emitted ctx S G levels e ts scraps) : ∀ t ∈ ts, Permitted ctx G levels e t := by
  induction h with
  | nil => exact fun _ hmem => absurd hmem List.not_mem_nil
  | atom ha _ ih => exact List.forall_mem_cons.mpr ⟨ha.permitted, ih⟩
  | call hraw hlower hform hfunction hargs _ _ ihinner ih =>
    exact List.forall_mem_cons.mpr ⟨.call hfunction hargs ihinner, ih⟩

/-! ## Properties -/

theorem permitted_of_find? {name : Text} (hfind : ctx.schema.find? (lower name) = some e)
    (value : List Token) : ∀ t ∈ (sanitizeProperty ctx name value).value,
      Permitted ctx (Granted ctx.policy (sanitizeProperty ctx name value).trace
        (lower name)) maxCallDepth e t := by
  have hresult : sanitizeProperty ctx name value = (do
      let kept ← sanitizeAt ctx (lower name) maxCallDepth e value
      pure (if kept.refused then [] else kept.tokens)) := by
    rw [sanitizeProperty, hfind]
  have htrace : (sanitizeAt ctx (lower name) maxCallDepth e value).trace ⊆
      (sanitizeProperty ctx name value).trace := by
    rw [hresult]
    exact List.subset_append_left ..
  obtain ⟨scraps, hemitted⟩ :=
    @emitted_sanitizeAt ctx (fun _ => True) _ _ _ _ _ (fun _ _ => trivial) htrace
  intro t ht
  refine hemitted.permitted t ?_
  rw [hresult, Traced.value_bind, Traced.value_pure] at ht
  split at ht
  · cases ht
  · exact ht

/-- Every token that is left of a value is permitted for the property, whatever
the tokens of the value are. -/
theorem permitted_sanitizeProperty (ctx : ValueContext) (name : Text)
    (value : List Token) :
    ∀ t ∈ (sanitizeProperty ctx name value).value, ∃ e,
      ctx.schema.find? (lower name) = some e ∧
      Permitted ctx (Granted ctx.policy (sanitizeProperty ctx name value).trace
        (lower name)) maxCallDepth e t := by
  intro t ht
  cases hfind : ctx.schema.find? (lower name) with
  | none =>
    rw [sanitizeProperty, hfind] at ht
    cases ht
  | some e => exact ⟨e, rfl, permitted_of_find? hfind value t ht⟩

/-- A length, by numbers or as a sum of them. -/
def lengthContext : ValueContext where
  policy := none
  base := none
  schema.entries := [⟨"width", .only [.quantity], [], [("calc", 1)]⟩,
    ⟨"calc()", .only [.quantity], [["+"]], [("calc", 1)]⟩]
  schema.index := [("calc()", 1), ("width", 0)]
  idSuffix := none

theorem permitted_sanitizeProperty_nested :
    let value : List Token :=
      ["CALC(", ".5px", "+", "-moz-calc(", "+2em", "-3em", "x", ")", ")"]
    let sum : Token := "calc(0.5px + -moz-calc(2em 0))"
    sum ∈ (sanitizeProperty lengthContext "width" value).value ∧
      ∃ e, lengthContext.schema.find? (lower "width") = some e ∧
        Permitted lengthContext
          (Granted lengthContext.policy
            (sanitizeProperty lengthContext "width" value).trace (lower "width"))
          maxCallDepth e sum := by
  intro value sum
  have hmem : sum ∈ (sanitizeProperty lengthContext "width" value).value := by
    decide +kernel
  exact ⟨hmem, permitted_sanitizeProperty lengthContext "width" value sum hmem⟩

end CssGuard
