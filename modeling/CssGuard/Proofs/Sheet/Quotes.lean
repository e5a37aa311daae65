import CssGuard.Proofs.Sheet.Characters
import CssGuard.Proofs.Text.Quotes

/-!
# Quotes of a sanitized sheet

The quotes of a sanitized sheet come in pairs. Between the quotes of a pair is the body of
a string or of a URL, and only that of a URL follows `url(`. Braces outside of the pairs
are those around blocks, so they balance; inside, they are as they come.

- `IsQuotedRow`, `Emitted.isQuotedRow`: the scraps of a value
- `Declared.wellQuoted`, `Complex.IsValid.wellQuoted`: declarations and selectors
- `Item.IsSound.wellQuoted`: the items of a sanitized sheet
- `Nested.count_quotedPart`: braces outside of quotes balance
-/

namespace CssGuard

open Text Escape
open scoped Text.ByCharacter

/-- A text without quotes and braces: a string, a URL or a block
would have to bring them. -/
def IsPlainText (t : Text) : Prop :=
  ∀ x, IsUnwritten x → x ∉ t

variable {U : Text → Prop}

/-! ## Rows of scraps -/

/-- The character is no brace. -/
def IsNoBrace (c : Char) : Prop :=
  c ∉ ['\x7b', '\x7d']

instance : DecidablePred IsNoBrace :=
  fun c => inferInstanceAs (Decidable (c ∉ ['\x7b', '\x7d']))

theorem IsPlainText.bare {t : Text} (h : IsPlainText t) :
    ∀ c ∈ t, c ≠ '"' ∧ IsNoBrace c := by
  have hunwritten : ∀ x ∈ ['"', '\x7b', '\x7d'], IsUnwritten x := by
    have hchars : ∀ x ∈ ['"', '\x7b', '\x7d'], ¬ isNameChar x ∧ x ∉ selectorMarks ∧
        x ∉ valueMarks := by
      decide
    exact fun x hx => ⟨⟨(hchars x hx).1, (hchars x hx).2.1⟩, (hchars x hx).2.2⟩
  intro c hc
  have hne : c ∉ ['"', '\x7b', '\x7d'] := fun hmem => h c (hunwritten c hmem) hc
  rw [List.mem_cons, not_or] at hne
  exact hne

theorem IsPlainText.wellQuoted {t : Text} (h : IsPlainText t) :
    WellQuoted IsNoBrace U t :=
  .of_bare h.bare

theorem endsQuote_of_endsValue {c : Char} (h : endsValue c) : endsQuote c :=
  (by decide : ∀ c ∈ [' ', ',', ')', ';'], endsQuote c) c (of_decide_eq_true h)

/-- What ends in something else than a parenthesis begins no URL. -/
theorem not_urlOpener_suffix {t : Text} {c : Char} (h : t.getLast? = some c)
    (hc : c ≠ '(') : ¬ urlOpener <:+ t := by
  rintro ⟨front, rfl⟩
  simp only [urlOpener, List.getLast?_append_cons, List.getLast?_cons_cons,
    List.getLast?_singleton, Option.some.injEq] at h
  exact hc h.symm

/-- The row of scraps is well quoted behind any text, unless its first scrap is a
string where a URL begins. -/
def IsQuotedRow (U : Text → Prop) (row : List Scrap) : Prop :=
  ∀ (opened : Bool) (before : Text), (opened → ¬ urlOpener <:+ before) →
    QuotedAfter IsNoBrace U before (spread opened row ++ [';'])

theorem spread_append_cons (opened : Bool) (front : List Scrap) (a : Scrap)
    (row : List Scrap) :
    spread opened (front ++ a :: row) =
      spread opened (front ++ [a]) ++ spread a.opens row := by
  induction front generalizing opened with
  | nil => simp [spread]
  | cons b front ih => simp [spread, ih]

/-- A scrap by itself, with a space in front unless something was opened. -/
theorem spread_cons_of_loose {a : Scrap} (htight : a.isTight = false)
    (hopens : a.opens = false) (opened : Bool) (row : List Scrap) :
    spread opened (a :: row) = (if opened then []
      else [' ']) ++ (a.text ++ spread false row) := by
  rw [spread, htight, hopens, Bool.or_false, List.append_assoc]

namespace IsQuotedRow

variable {row : List Scrap}

theorem nil : IsQuotedRow U [] :=
  fun _ before _ =>
    QuotedAfter.of_bare (List.forall_mem_singleton.mpr ⟨by decide, by decide⟩) before

/-- Scraps without quotes and braces. -/
theorem append_plain (front : List Scrap) {a : Scrap}
    (hfront : ∀ b ∈ front ++ [a], IsPlainText b.text)
    (hopens : a.opens = false) (h : IsQuotedRow U row) :
    IsQuotedRow U (front ++ a :: row) := by
  intro opened before _
  have hplain : IsPlainText (spread opened (front ++ [a])) := by
    intro x hx
    rw [mem_spread (hx.ne (by decide))]
    rintro ⟨b, hb, hmem⟩
    exact hfront b hb x hx hmem
  rw [spread_append_cons, hopens, List.append_assoc]
  exact (hplain.wellQuoted before).append (h false _ (by simp))

theorem not_urlOpener_gap {opened : Bool} {before : Text}
    (hbefore : opened → ¬ urlOpener <:+ before) :
    ¬ urlOpener <:+ before ++ (if opened then [] else [' ']) := by
  cases opened with
  | true => simpa using hbefore rfl
  | false => exact not_urlOpener_suffix List.getLast?_concat (by decide)

theorem gap {opened : Bool} {before t : Text}
    (h : QuotedAfter IsNoBrace U (before ++ if opened then [] else [' ']) t) :
    QuotedAfter IsNoBrace U before ((if opened then [] else [' ']) ++ t) := by
  cases opened with
  | true => simpa using h
  | false => exact .bare (by decide) (by decide) h

theorem cons_string {s : Text} (hopens : (Scrap.plain (quote s)).opens = false)
    (h : IsQuotedRow U row) : IsQuotedRow U (.plain (quote s) :: row) := by
  intro opened before hbefore
  have htext : spread opened (.plain (quote s) :: row) ++ [';'] = (if opened then []
      else [' ']) ++ ('"' :: escapeString s ++ '"' :: (spread false row ++ [';'])) := by
    have htight : (Scrap.plain (quote s)).isTight = false := by
      simp [Scrap.isTight, Scrap.text, quote, Token.comma, Token.closeParen]
    rw [spread_cons_of_loose htight hopens]
    simp [Scrap.text, quote]
  obtain ⟨next, rest, hrest⟩ := List.exists_cons_of_ne_nil
    (List.append_ne_nil_of_right_ne_nil (spread false row) (List.cons_ne_nil ';' []))
  have hnext : endsValue next := by
    have hstarts : Starts endsValue (spread false row ++ [';']) :=
      starts_spread (starts_cons.mpr (by decide))
    rw [hrest] at hstarts
    exact starts_cons.mp hstarts
  rw [htext, hrest]
  refine gap (.pair (not_mem_escapeString (by decide) (by decide) s)
    (fun hurl => absurd hurl (not_urlOpener_gap hbefore))
      (endsQuote_of_endsValue hnext) ?_)
  rw [← hrest]
  exact h false _ (by simp)

theorem cons_url {uri : Text} (hopens : (Scrap.url uri).opens = false)
    (hquote : '"' ∉ uri) (hU : U uri) (h : IsQuotedRow U row) :
    IsQuotedRow U (.url uri :: row) := by
  intro opened before hbefore
  have htext : spread opened (.url uri :: row) ++ [';'] =
      (if opened then [] else [' ']) ++
        (urlOpener ++ ('"' :: uri ++ '"' :: ')' :: (spread false row ++ [';']))) := by
    have htight : (Scrap.url uri).isTight = false := by
      simp [Scrap.isTight, Scrap.text, Token.comma, Token.closeParen]
    rw [spread_cons_of_loose htight hopens]
    simp [Scrap.text, urlOpener]
  have hopener : WellQuoted IsNoBrace U urlOpener := .of_bare (by decide)
  rw [htext]
  refine gap ((hopener _).append (.pair hquote (fun _ => hU) (by decide) ?_))
  exact .bare (by decide) (by decide) (h false _ (by simp))

end IsQuotedRow

/-! ## Values and lines -/

/-- The entry permits neither strings nor URLs. -/
def Entry.IsQuoteless (e : Entry) : Prop :=
  e.allows .quotedString = false ∧ e.allows .url = false

/-- Strings and URLs are not arguments of functions. -/
def Schema.HasQuotelessFunctions (s : Schema) : Prop :=
  ∀ e ∈ s.entries, ∀ name f, s.function? e name = some f → f.IsQuoteless

/-- The functions of the default table have numbers and keywords as arguments. -/
theorem hasQuotelessFunctions_defaultSchema : defaultSchema.HasQuotelessFunctions := by
  have htable : ∀ d ∈ defaultTable, (d.permissions.allows .quotedString ||
      d.permissions.allows .url) → ¬ List.isSuffixOf ['(', ')'] (lower d.name) := by
    decide +kernel
  intro e he name f hfunction
  obtain ⟨d, hd, hname, hpermissions⟩ :=
    Schema.exists_of_function? comesFrom_of_mem_defaultSchema he hfunction
  have hkey : List.isSuffixOf ['(', ')'] (lower d.name) := by
    rw [hname, List.isSuffixOf_iff_suffix]
    exact List.suffix_append _ _
  rw [Entry.IsQuoteless, Entry.allows, Entry.allows, hpermissions]
  exact Bool.or_eq_false_iff.mp (Bool.eq_false_iff.mpr
    fun hallows => htable d hd hallows hkey)

theorem IsUnwritten.not_mem_quoteless {x : Char} (hx : IsUnwritten x) {ctx : ValueContext}
    (hctx : ctx.IsPlain) (hschema : ctx.schema.HasQuotelessFunctions) {G : Text → Prop}
    {levels : Nat} {e : Entry} (he : e ∈ ctx.schema.entries) (hquoteless : e.IsQuoteless)
    {ts : List Token} {scraps : List Scrap} (h : Emitted ctx Shape G levels e ts scraps) :
    ∀ a ∈ scraps, x ∉ a.text := by
  have hstep : ∀ {e f : Entry} {name : Text}, e ∈ ctx.schema.entries ∧ e.IsQuoteless →
      ctx.schema.function? e name = some f → f ∈ ctx.schema.entries ∧ f.IsQuoteless :=
    fun ⟨he, _⟩ hf => ⟨(Schema.mem_of_function? hf).2, hschema _ he _ _ hf⟩
  refine hx.not_mem_emitted hctx hstep ?_ ⟨he, hquoteless⟩ (hctx.entries e he) h
  rintro e a ⟨-, hquoteless⟩ he ha
  rcases ha.cases_text hctx he with hplain | ⟨hstring, -⟩ | ⟨hurl, -⟩
  · exact hplain x hx
  · exact absurd hstring (by simp [hquoteless.1])
  · exact absurd hurl (by simp [hquoteless.2])

/-- The induction is on the origins of a value. A string or a URL stands for itself, and a
call has none of them, so its parts are plain up to the closing parenthesis. -/
theorem Emitted.isQuotedRow {ctx : ValueContext} (hctx : ctx.IsPlain)
    (hschema : ctx.schema.HasQuotelessFunctions) {G : Text → Prop}
    (hU : ∀ uri, G uri → U (Url.escape uri)) {levels : Nat} {e : Entry}
    (he : e ∈ ctx.schema.entries) {ts : List Token} {scraps : List Scrap}
    (h : Emitted ctx Shape G levels e ts scraps) {row : List Scrap}
    (hrow : IsQuotedRow U row) : IsQuotedRow U (scraps ++ row) := by
  induction h with
  | nil => exact hrow
  | atom ha _ ih =>
    have hplain := hctx.entries _ he
    have hopens := (ha.isAtom hctx (fun _ h => h) hplain).opens_eq
    rcases ha.cases_text hctx hplain with hplain | ⟨-, s, rfl⟩ | ⟨-, uri, hgrant, rfl⟩
    · exact IsQuotedRow.append_plain [] (List.forall_mem_singleton.mpr hplain) hopens
        (ih he)
    · exact (ih he).cons_string hopens
    · have hquote : '"' ∉ Url.escape uri :=
        fun hmem => absurd (Url.not_isSpecial_of_mem_escape hmem) (by decide)
      exact (ih he).cons_url hopens hquote (hU uri hgrant)
  | @call _ _ f raw n _ _ inner scraps hraw hlower hform hfunction hargs hinner _ _ ih =>
    obtain ⟨hn, hf⟩ := Schema.mem_of_function? hfunction
    have hfront : ∀ b ∈ .plain (n ++ ['(']) :: inner ++ [Scrap.plain Token.closeParen],
        IsPlainText b.text := fun b hb x hx => hx.not_mem_call (hctx.entries _ he) hn
      (hx.not_mem_quoteless hctx hschema hf (hschema _ he _ _ hfunction) hinner) b hb
    have hcall := IsQuotedRow.append_plain _ hfront (by decide) (ih he)
    simpa using hcall

/-- The quotes of a line come in pairs, and it has no brace outside of them. -/
theorem Declared.wellQuoted {ctx : ValueContext} (hctx : ctx.IsPlain)
    (hschema : ctx.schema.HasQuotelessFunctions) {G : Text → Text → Prop}
    (hU : ∀ name uri, G name uri → U (Url.escape uri)) {d : Declaration} {l : Line}
    (h : Declared ctx Shape G d l) : WellQuoted IsNoBrace U l.text := by
  cases h with
  | @intro name e kept scraps important hname hlower hfind hne hkept =>
    have he := (Schema.mem_of_find? hfind).1
    have himportance : IsQuotedRow U (importance important) := by
      cases important with
      | false => exact .nil
      | true =>
        exact IsQuotedRow.append_plain []
          (List.forall_mem_singleton.mpr fun x hx => hx.not_mem_importance true _
            (by decide))
          isAtom_important.opens_eq .nil
    have hrow := hkept.isQuotedRow hctx hschema (hU name) he himportance
    have hfront : IsPlainText (name ++ [':']) := fun x hx => by
      simp [hx.not_mem_ident hname, hx.ne (c := ':') (by decide)]
    intro before
    have htext : Line.text ⟨name, scraps ++ importance important⟩ =
        name ++ [':'] ++ (spread true (scraps ++ importance important) ++ [';']) := by
      simp [Line.text]
    rw [htext]
    refine (hfront.wellQuoted before).append (hrow true _ fun _ => ?_)
    rw [← List.append_assoc]
    exact not_urlOpener_suffix List.getLast?_concat (by decide)

/-! ## Selectors -/

/-- The string in the test of an attribute follows the sign of a comparison. -/
theorem AttributeTest.wellQuoted {front : Text} (hfront : IsPlainText front)
    {t : AttributeTest} (hoperator : t.operator ∈ matchOperators) :
    WellQuoted IsNoBrace U (front ++ t.render t.value ++ [']']) := by
  have hplain : IsPlainText (front ++ t.operator) := fun x hx => by
    simp [hfront x hx, hx.not_mem_operator hoperator]
  have hlast : t.operator.getLast? = some '=' :=
    (by decide : ∀ o ∈ matchOperators, o.getLast? = some '=') _ hoperator
  have hflag : ∃ next rest, (if t.ignoresCase then [' ', 'i']
      else []) ++ [']'] = next :: rest ∧ endsQuote next ∧ IsPlainText (next :: rest) := by
    cases t.ignoresCase with
    | true =>
      refine ⟨' ', ['i', ']'], rfl, by decide, fun x hx => ?_⟩
      simp [hx.ne (c := ' ') (by decide), hx.ne (c := 'i') (by decide),
        hx.ne (c := ']') (by decide)]
    | false =>
      refine ⟨']', [], rfl, by decide, fun x hx => ?_⟩
      simp [hx.ne (c := ']') (by decide)]
  obtain ⟨next, rest, hflag, hnext, hrest⟩ := hflag
  have htext : front ++ t.render t.value ++ [']'] =
      front ++ t.operator ++ ('"' :: escapeString t.value ++ '"' :: next :: rest) := by
    rw [← hflag]
    simp [AttributeTest.render, quote]
  rw [htext]
  intro before
  refine (hplain.wellQuoted before).append
    (.pair (not_mem_escapeString (by decide) (by decide) _) (fun hurl => absurd hurl ?_)
      hnext (hrest.wellQuoted _))
  refine not_urlOpener_suffix (c := '=') ?_ (by decide)
  rw [← List.append_assoc, List.getLast?_append, hlast]
  rfl

theorem Qualifier.IsValid.wellQuoted (c : Confinement) {element : Text} {q : Qualifier}
    (h : q.IsValid c.idSuffix element) : WellQuoted IsNoBrace U (q.text c.idSuffix) := by
  cases q with
  | id name =>
    have hplain : IsPlainText ('#' :: name ++ c.idSuffix) := fun x hx => by
      simp [hx.not_mem_ident h.plain, hx.not_mem_idSuffix c, hx.ne (c := '#') (by decide)]
    exact hplain.wellQuoted
  | className name =>
    have hplain : IsPlainText ('.' :: name) := fun x hx => by
      simp [hx.not_mem_ident h.plain, hx.ne (c := '.') (by decide)]
    exact hplain.wellQuoted
  | attr name test =>
    obtain ⟨hname, -, kind, -, htest⟩ := h
    have hfront : IsPlainText ('[' :: name) := fun x hx => by
      simp [hx.not_mem_ident hname, hx.ne (c := '[') (by decide)]
    cases test with
    | none =>
      have hplain : IsPlainText ('[' :: name ++ [']']) := fun x hx => by
        simp [hx.not_mem_ident hname, hx.ne (c := '[') (by decide),
          hx.ne (c := ']') (by decide)]
      exact hplain.wellQuoted
    | some t => exact AttributeTest.wellQuoted hfront (htest t rfl).operator

theorem Compound.IsValid.wellQuoted {c : Confinement} {isLast : Bool} {s : Compound}
    (h : s.IsValid c isLast) : WellQuoted IsNoBrace U (s.text c.idSuffix) := by
  have helement : IsPlainText s.element := fun x hx => hx.not_mem_element h
  have hpseudo : IsPlainText (s.pseudo.elim [] Pseudo.render) :=
    fun x hx => hx.not_mem_pseudo h
  have hqualifiers : WellQuoted IsNoBrace U
      (s.qualifiers.flatMap (Qualifier.text c.idSuffix)) :=
    .flatMap fun q hq => (h.qualifiers q hq).wellQuoted c
  exact (helement.wellQuoted.append hqualifiers).append hpseudo.wellQuoted

theorem AreOthers.wellQuoted {c : Confinement} {others : List (Token × Compound)}
    (h : AreOthers c others) :
    ∀ o ∈ others, WellQuoted IsNoBrace U (combinatorText o.1 ++ o.2.text c.idSuffix) := by
  induction others with
  | nil => exact fun o ho => absurd ho List.not_mem_nil
  | cons o others ih =>
    obtain ⟨hcombinator, hcompound, hothers⟩ := h
    have hplain : IsPlainText (combinatorText o.1) :=
      fun x hx => hx.not_mem_combinator hcombinator
    exact List.forall_mem_cons.mpr ⟨hplain.wellQuoted.append hcompound.wellQuoted,
      ih hothers⟩

theorem Complex.IsValid.wellQuoted {c : Confinement} {s : Complex} (h : s.IsValid c) :
    WellQuoted IsNoBrace U (s.text c) := by
  have hstart : IsPlainText c.start := fun x hx => hx.not_mem_start c
  exact (hstart.wellQuoted.append h.first.wellQuoted).append
    (.flatMap (AreOthers.wellQuoted h.others))

/-! ## Sheets -/

/-- In front of a brace, a text without braces outside of quotes changes nothing. -/
theorem count_quotedPart_append {t : Text} (ht : WellQuoted IsNoBrace U t) {c : Char}
    (hc : c ∈ ['\x7b', '\x7d']) (u : Text) :
    (quotedPart true (t ++ u)).count c = (quotedPart true u).count c := by
  have hnone : c ∉ quotedPart true t :=
    fun hmem => (ht []).forall_mem_quotedPart c hmem hc
  rw [quotedPart_append_of_even (ht []).even_count, List.count_append,
    List.count_eq_zero.mpr hnone, Nat.zero_add]

section Sheets

variable {ctx : SheetContext} (hctx : ctx.IsStandard)
  (hschema : ctx.schema.HasQuotelessFunctions) {T : Trace}
  (hU : ∀ user uri, Granted ctx.policy T user uri → U (Url.escape uri))

theorem Item.wellQuoted_header (U : Text → Prop) {queries : List (Text × List Token)}
    (h : ∀ q ∈ queries, IsQuery q.1 q.2) :
    WellQuoted IsNoBrace U (mediaKeyword ++
      ' ' :: joined ", " (queries.map Prod.fst)) := by
  have hplain : ∀ q ∈ queries.map Prod.fst, IsPlainText q :=
    List.forall_mem_map.mpr fun q hq x hx => hx.not_mem_query (h q hq)
  have hfront : WellQuoted IsNoBrace U (mediaKeyword ++ [' ']) := .of_bare (by decide)
  have hqueries : WellQuoted IsNoBrace U (joined ", " (queries.map Prod.fst)) :=
    .joined (.of_bare (by decide)) fun q hq => (hplain q hq).wellQuoted
  simpa using hfront.append hqueries

theorem Item.wellQuoted_selectors (U : Text → Prop) {c : Confinement}
    {selectors : List Complex} (h : ∀ s ∈ selectors, s.IsValid c) :
    WellQuoted IsNoBrace U (joined ", " (selectors.map (Complex.text c))) :=
  .joined (.of_bare (by decide)) (List.forall_mem_map.mpr fun s hs => (h s hs).wellQuoted)

include hctx hschema hU

theorem Item.wellQuoted_lines {lines : List Line}
    (h : ∀ l ∈ lines, l.HasOrigin ctx.values T) :
    WellQuoted IsNoBrace U (lines.flatMap Line.text) := by
  refine .flatMap fun l hl => ?_
  obtain ⟨d, hd⟩ := h l hl
  exact hd.wellQuoted hctx.values hschema hU

/-- The quotes of an item come in pairs. -/
theorem Item.IsSound.wellQuoted {item : Item} (h : item.IsSound ctx T) :
    WellQuoted (fun _ => True) U (item.text ctx.confinement) := by
  have hbrace : ∀ c ∈ ['\x7b', '\x7d'], WellQuoted (fun _ => True) U [c] := fun c hc =>
    .of_bare (List.forall_mem_singleton.mpr
      ⟨(by decide : ∀ c ∈ ['\x7b', '\x7d'], c ≠ '"') c hc, trivial⟩)
  have hvalid := h.valid
  cases item with
  | opening queries =>
    exact ((Item.wellQuoted_header U hvalid.2).mono fun _ _ => trivial).append
      (hbrace _ (by decide))
  | closing => exact hbrace _ (by decide)
  | rule selectors lines =>
    obtain ⟨⟨-, hselectors⟩, -, hlines⟩ := hvalid
    have hheader := (Item.wellQuoted_selectors U hselectors).mono fun _ _ => trivial
    have hbody := (Item.wellQuoted_lines hctx hschema hU hlines).mono fun _ _ => trivial
    have hitem := ((hheader.append (hbrace '\x7b' (by decide))).append hbody).append
      (hbrace '\x7d' (by decide))
    simpa [Item.text] using hitem

/-- An item has the braces outside of quotes that open and close its blocks. -/
theorem Item.IsSound.count_quotedPart {item : Item} (h : item.IsSound ctx T)
    {depth depth' : Nat} (hsteps : item.Steps depth depth') :
    depth + (quotedPart true (item.text ctx.confinement)).count '\x7b' =
      depth' + (quotedPart true (item.text ctx.confinement)).count '\x7d' := by
  have hvalid := h.valid
  cases hsteps with
  | @opening queries =>
    have hheader := Item.wellQuoted_header U hvalid.2
    rw [Item.text, count_quotedPart_append hheader (by decide),
      count_quotedPart_append hheader (by decide)]
    simp [quotedPart]
  | closing => simp [Item.text, quotedPart]
  | @rule selectors lines =>
    obtain ⟨⟨-, hselectors⟩, -, hlines⟩ := hvalid
    have hheader := Item.wellQuoted_selectors U hselectors
    have hbody := Item.wellQuoted_lines hctx hschema hU hlines
    have hcount : ∀ c ∈ ['\x7b', '\x7d'], (quotedPart true
        (Item.text ctx.confinement (.rule selectors lines))).count c = ['\x7b',
        '\x7d'].count c := by
      intro c hc
      rw [Item.text, List.append_assoc, count_quotedPart_append hheader hc,
        List.cons_append, quotedPart_cons (by decide), List.count_append,
        count_quotedPart_append hbody hc, ← List.count_append]
      rfl
    rw [hcount _ (by decide), hcount _ (by decide)]
    rfl

/-- The braces outside of quotes balance, since those of the items do. -/
theorem Nested.count_quotedPart {items : List Item} {depth depth' : Nat}
    (hnested : Nested depth items depth') (hitems : ∀ item ∈ items, item.IsSound ctx T) :
    depth + (quotedPart true (items.flatMap (Item.text ctx.confinement))).count '\x7b' =
      depth' +
        (quotedPart true (items.flatMap (Item.text ctx.confinement))).count '\x7d' := by
  induction hnested with
  | nil => rfl
  | @cons depth depth' depth'' item items hsteps _ ih =>
    obtain ⟨hitem, hitems⟩ := List.forall_mem_cons.mp hitems
    have heven := (hitem.wellQuoted hctx hschema hU []).even_count
    have hbalance := hitem.count_quotedPart hctx hschema hU hsteps
    have hrest := ih hitems
    rw [List.flatMap_cons, quotedPart_append_of_even heven, List.count_append,
      List.count_append]
    omega

end Sheets

end CssGuard
