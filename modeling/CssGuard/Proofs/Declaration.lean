import CssGuard.Proofs.Declaration.Visited
import CssGuard.Proofs.Event.Rendering
import CssGuard.Proofs.Value.Written

/-!
# Sanitized declarations

A sanitized declaration is written on a line of its own: the name of a property of the
schema, a colon, the scraps of its value and a semicolon. It is read back as a declaration
of the same property, and the filter for visited links leaves it out or leaves it as it
is.

- `Line`: a declaration as it is written, its tokens and the event it is read back as
- `Declared`: a declaration has its origins, and is written as a line
- `declared_of_sanitizeDeclaration`: the declarations that are kept
- `readBody_lines`: lines are read back one by one
- `Declaration.IsDelimited`, `filterHistory_tokens`: declarations that the filter for
  visited links finds again, and what it leaves of them
- `value_filterHistory`: what is left in a rule about visited links
-/

namespace CssGuard

open Text
open scoped Text.ByCharacter

/-! ## Names of properties -/

/-- The lower-case form of a token that is the key of an entry is a plain
identifier: it is no key of a function, because a token with parentheses in
it has quotes between them. -/
theorem Shape.isPlainIdent_of_isPlainKey {raw : Token} (hraw : Shape raw)
    (hkey : isPlainKey (lower (lower (lower raw)))) :
    Text.isPlainIdent (lower raw) ∧ lower (lower raw) = lower raw := by
  have hmark : ∀ c ∈ ['(', ')', '"'], (c.toNat < 0x80 ∧ c.toLower = c) ∧ ¬ isSmall c := by
    decide
  have hmem : ∀ c ∈ ['(', ')', '"'], c ∈ lower (lower (lower raw)) ↔ c ∈ raw := by
    intro c hc
    obtain ⟨⟨hascii, hkeep⟩, hsmall⟩ := hmark c hc
    rw [mem_lower_iff hascii hkeep hsmall, mem_lower_iff hascii hkeep hsmall,
      mem_lower_iff hascii hkeep hsmall]
  rcases Bool.or_eq_true_iff.mp hkey with hident | hfunction
  · have hascii := ascii_of_isPlainIdent hident
    have htwice := lower_lower_of_ascii hascii
    rw [htwice] at hident hascii
    have honce := lower_lower_of_ascii hascii
    rw [honce] at hident
    exact ⟨hident, honce⟩
  · obtain ⟨hparens, hquote⟩ := Bool.and_eq_true_iff.mp hfunction
    have hsub := (List.isSuffixOf_iff_suffix.mp hparens).subset
    have hopen := (hmem '(' (by decide)).mp (hsub (by decide))
    have hclose := (hmem ')' (by decide)).mp (hsub (by decide))
    exact absurd ((hmem '"' (by decide)).mpr (hraw.quote_mem_of_parens hopen hclose))
      (of_decide_eq_true hquote)

theorem isPropertyName_of_isPlainIdent {n : Text} (h : isPlainIdent n) :
    Token.isPropertyName n := by
  have hn := isBareName_of_isPlainIdent h
  rw [Token.isPropertyName, Bool.and_eq_true, opensParen_eq_false hn.not_paren_mem]
  refine ⟨?_, rfl⟩
  rcases hn.cases with ⟨c, t, rfl, hc, -⟩ | ⟨c, t, rfl, hc, -⟩
  · unfold Token.isPropertyName.begins
    split
    · rename_i heq
      rw [(List.cons.inj heq).1] at hc
      exact absurd hc (by decide)
    · rename_i heq
      rw [← (List.cons.inj heq).1, hc]
      rfl
    · rename_i heq
      cases heq
  · show (isNameStart c || decide (c = '\\')) = true
    rw [hc]
    rfl

/-! ## Lines -/

/-- A declaration as it is written. -/
structure Line where
  name : Text
  row : List Scrap

namespace Line

/-- The text of a line. -/
def text (l : Line) : Text :=
  l.name ++ ':' :: spread true l.row ++ [';']

/-- The tokens of its value, with their spaces. -/
def spaced (l : Line) : List Token :=
  squeeze (spreadTokens true l.row)

/-- The tokens of its value. -/
def value (l : Line) : List Token :=
  l.row.flatMap Scrap.tokens

/-- The tokens of a line. -/
def tokens (l : Line) : List Token :=
  l.name :: Token.colon :: l.spaced ++ [Token.semicolon]

/-- What a line is read back as. -/
def event (l : Line) : Event :=
  .declaration l.name l.value

/-- The line can be read back. -/
structure IsLegible (l : Line) : Prop where
  name : isPlainIdent l.name
  lowered : lower l.name = l.name
  row : ∀ a ∈ l.row, a.IsLegible
  ne_nil : l.row ≠ []

variable {l : Line}

/-- A line gives its tokens, whatever follows it. -/
theorem IsLegible.lexes (h : l.IsLegible) : Lexes l.text l.tokens := by
  have hcolon : Reads anything [':'] [Token.colon] := reads_mark (by decide) (by decide)
  have hsemicolon : Reads anything [';'] [Token.semicolon] :=
    reads_mark (by decide) (by decide)
  have hname := (reads_name (isBareName_of_isPlainIdent h.name)).lexes
    (by decide) hcolon (by decide)
  rw [squeeze_singleton] at hname
  have hvalue := (reads_spread h.row true).lexes (by decide) hsemicolon (by decide)
  have htext : l.text = (l.name ++ [':']) ++ (spread true l.row ++ [';']) := by
    simp [text]
  rw [htext]
  exact hname.append hvalue

theorem IsLegible.filter_spaced (h : l.IsLegible) :
    l.spaced.filter (· ≠ Token.space) = l.value := by
  rw [spaced, filter_squeeze, filter_spreadTokens h.row, value]

theorem IsLegible.value_ne_nil (h : l.IsLegible) : l.value ≠ [] := by
  obtain ⟨a, row, hrow⟩ := List.exists_cons_of_ne_nil h.ne_nil
  rw [value, hrow, List.flatMap_cons]
  cases a with
  | plain t => exact List.cons_ne_nil _ _
  | line t => exact List.cons_ne_nil _ _
  | url uri => exact List.cons_ne_nil _ _
  | important => exact List.cons_ne_nil _ _

theorem IsLegible.isValueToken_of_mem (h : l.IsLegible) {t : Token} (ht : t ∈ l.value) :
    IsValueToken t := by
  obtain ⟨a, ha, ht⟩ := List.mem_flatMap.mp ht
  exact (h.row a ha).tokens t ht

theorem IsLegible.not_isStructural (h : l.IsLegible) :
    ∀ t ∈ l.spaced, ¬ t.isStructural := by
  intro t ht
  by_cases hspace : t = Token.space
  · rw [hspace]
    decide
  · refine (h.isValueToken_of_mem (t := t) ?_).not_structural
    rw [← h.filter_spaced]
    exact List.mem_filter.mpr ⟨ht, decide_eq_true hspace⟩

end Line

/-! ## Reading lines back -/

/-- Lines are read back one by one, up to the end of their ruleset. -/
theorem readBody_lines {lines : List Line} (h : ∀ l ∈ lines, l.IsLegible)
    (rest : List Token) :
    readBody (lines.flatMap Line.tokens ++ Token.closeBrace :: rest) =
      ⟨lines.map fun l => .event l.event, rest⟩ := by
  induction lines with
  | nil =>
    rw [List.flatMap_nil, List.nil_append, readBody, if_pos rfl]
    rfl
  | cons l lines ih =>
    obtain ⟨hl, hlines⟩ := List.forall_mem_cons.mp h
    have htokens : (l :: lines).flatMap Line.tokens ++ Token.closeBrace :: rest =
        l.name :: (Token.colon :: l.spaced ++ Token.semicolon ::
          (lines.flatMap Line.tokens ++ Token.closeBrace :: rest)) := by
      simp [Line.tokens]
    rw [htokens, readBody_declaration (isPropertyName_of_isPlainIdent hl.name)
      hl.not_isStructural (hl.filter_spaced.symm ▸ hl.value_ne_nil), hl.filter_spaced,
      hl.lowered, ih hlines]
    rfl

/-! ## Where declarations come from -/

/-- The scrap of the mark of importance, if it is there. -/
def importance (important : Bool) : List Scrap :=
  if important then [.important] else []

theorem map_text_importance (important : Bool) :
    (importance important).map Scrap.text =
      if important then [importantMark] else [] := by
  cases important with
  | false => rfl
  | true => rfl

/-- The declaration of a property with a value that has its origins, whose URLs are what
`G` grants the property, and the line it is written as. -/
inductive Declared (ctx : ValueContext) (S : Token → Prop) (G : Text → Text → Prop) :
    Declaration → Line → Prop
  | intro {name : Text} {e : Entry} {kept : List Token} {scraps : List Scrap}
    (important : Bool) (hname : isPlainIdent name) (hlower : lower name = name)
    (hfind : ctx.schema.find? name = some e) (hne : kept ≠ [])
    (hkept : Emitted ctx S (G name) maxCallDepth e kept scraps) :
    Declared ctx S G ⟨name, kept ++ (importance important).map Scrap.text⟩
      ⟨name, scraps ++ importance important⟩

variable {ctx : ValueContext} {S : Token → Prop} {G : Text → Text → Prop} {T : Trace}

theorem Declared.name_eq {d : Declaration} {l : Line} (h : Declared ctx S G d l) :
    l.name = d.name := by
  cases h
  rfl

theorem Declared.find? {d : Declaration} {l : Line} (h : Declared ctx S G d l) :
    ∃ e, ctx.schema.find? l.name = some e := by
  cases h with
  | intro important hname hlower hfind => exact ⟨_, hfind⟩

theorem Declared.isLegible (hctx : ctx.IsPlain) (hS : ∀ t, S t → Shape t)
    {d : Declaration} {l : Line} (h : Declared ctx S G d l) : l.IsLegible := by
  cases h with
  | intro important hname hlower hfind hne hkept =>
    have he := hctx.entries _ (Schema.mem_of_find? hfind).1
    refine ⟨hname, hlower, fun a ha => ?_,
      List.append_ne_nil_of_left_ne_nil (hkept.scraps_ne_nil hne) _⟩
    rcases List.mem_append.mp ha with ha | ha
    · exact hkept.isLegible hctx hS he a ha
    · unfold importance at ha
      split at ha
      · rw [List.mem_singleton.mp ha]
        exact isAtom_important.toIsLegible
      · cases ha

theorem joinValue_append (ts us : List Token) (h : ts ≠ []) :
    joinValue (ts ++ us) = joinValue ts ++ joinTail us := by
  obtain ⟨t, ts, rfl⟩ := List.exists_cons_of_ne_nil h
  simp [joinValue, joinTail]

/-- A declaration is written as its line. -/
theorem Declared.render_eq (hctx : ctx.IsPlain) (hS : ∀ t, S t → Shape t)
    {d : Declaration} {l : Line} (h : Declared ctx S G d l) : d.render = l.text := by
  cases h with
  | intro important hname hlower hfind hne hkept =>
    have he := hctx.entries _ (Schema.mem_of_find? hfind).1
    have hmark : joinTail ((importance important).map Scrap.text) =
        spread false (importance important) := by
      cases important with
      | false => rfl
      | true => decide
    rw [Declaration.render, Declaration.text, Line.text, (hkept.joins hctx hS he _).2 hne,
      joinValue_append _ _ hne, hmark]

/-- The name and the value of a declaration hold no mark of their own. -/
theorem Declared.not_mem_marks (hctx : ctx.IsPlain) (hS : ∀ t, S t → Shape t)
    {d : Declaration} {l : Line} (h : Declared ctx S G d l) :
    ∀ t ∈ d.name :: d.value, t ∉ [Token.space, Token.colon, Token.semicolon] := by
  have hname :=
    (isAtom_name (isBareName_of_isPlainIdent (h.isLegible hctx hS).name)).text_not_mem
  rw [h.name_eq] at hname
  refine List.forall_mem_cons.mpr ⟨hname, ?_⟩
  cases h with
  | intro important hname hlower hfind hne hkept =>
    have he := hctx.entries _ (Schema.mem_of_find? hfind).1
    intro t ht
    rcases List.mem_append.mp ht with ht | ht
    · exact hkept.not_mem_marks hctx hS he t ht
    · cases important with
      | false => cases ht
      | true =>
        rw [List.mem_singleton.mp ht]
        decide

theorem mem_of_mem_splitImportant {value : List Token} {t : Token}
    (h : t ∈ (splitImportant value).1) : t ∈ value := by
  unfold splitImportant at h
  split at h
  · rename_i last rest heq
    split at h
    · refine List.mem_reverse.mp ?_
      rw [heq]
      exact List.mem_cons_of_mem _ (List.mem_cons_of_mem _ (List.mem_reverse.mp h))
    · exact h
  · exact h

/-- A declaration that is kept has its origins. -/
theorem declared_of_sanitizeDeclaration (hctx : ctx.IsPlain) (hS : ∀ t, S t → Shape t)
    {raw : Token} {value : List Token} (hraw : S raw) (hvalue : ∀ t ∈ value, S t)
    (hT : (sanitizeDeclaration ctx (lower raw) value).trace ⊆ T) {d : Declaration}
    (h : (sanitizeDeclaration ctx (lower raw) value).value = some d) :
    ∃ l, Declared ctx S (Granted ctx.policy T) d l := by
  have hkeptOf : ∀ t ∈ (splitImportant value).1, S t :=
    fun t ht => hvalue t (mem_of_mem_splitImportant ht)
  unfold sanitizeDeclaration at h hT
  generalize splitImportant value = split at h hT hkeptOf
  obtain ⟨value', important⟩ := split
  dsimp only at h hT hkeptOf
  rw [Traced.trace_bind, List.append_subset] at hT
  rw [Traced.value_bind, Traced.value_pure] at h
  split at h
  · cases h
  rename_i hempty
  cases h
  unfold sanitizeProperty at hT hempty ⊢
  split at hempty
  · exact absurd rfl hempty
  rename_i e hfind
  rw [hfind] at hT
  -- a property with an entry has a plain name, so the token spells it as it is
  obtain ⟨hmem, hkey⟩ := Schema.mem_of_find? hfind
  have hplain := (hctx.entries _ hmem).name
  rw [hkey] at hplain
  obtain ⟨hident, hlower⟩ := (hS raw hraw).isPlainIdent_of_isPlainKey hplain
  simp only [hlower, Traced.value_bind, Traced.trace_bind, Traced.value_pure,
    List.append_subset] at hT hempty hfind ⊢
  obtain ⟨scraps, hscraps⟩ := emitted_sanitizeAt hkeptOf hT.1.1
  split at hempty
  · exact absurd rfl hempty
  · rename_i hrefused
    rw [if_neg hrefused]
    rw [← map_text_importance]
    exact ⟨_, .intro important hident hlower hfind (by simpa using hempty) hscraps⟩

/-! ## Visited links -/

/-- The declaration can be found among the tokens of others: it has a value, its name is
in small letters, and no token of it is left out or taken for its end. -/
structure Declaration.IsDelimited (d : Declaration) : Prop where
  lowered : lower d.name = d.name
  value_ne_nil : d.value ≠ []
  not_mem_marks : ∀ t ∈ d.name :: d.value, t ∉ [Token.space, Token.semicolon]

instance (d : Declaration) : Decidable d.IsDelimited :=
  decidable_of_iff (lower d.name = d.name ∧ d.value ≠ [] ∧
      ∀ t ∈ d.name :: d.value, t ∉ [Token.space, Token.semicolon])
    ⟨fun h => ⟨h.1, h.2.1, h.2.2⟩, fun h => ⟨h.lowered, h.value_ne_nil, h.not_mem_marks⟩⟩

/-- A mark other than the colon is no token of a delimited declaration. -/
theorem Declaration.IsDelimited.not_mem {d : Declaration} (h : d.IsDelimited)
    {mark : Token} (hmark : mark ∈ [Token.space, Token.semicolon]) :
    mark ∉ d.name :: Token.colon :: d.value := by
  intro hmem
  rcases List.mem_cons.mp hmem with rfl | hmem
  · exact h.not_mem_marks _ (List.mem_cons_self ..) hmark
  · rcases List.mem_cons.mp hmem with rfl | hmem
    · exact absurd hmark (by decide)
    · exact h.not_mem_marks _ (List.mem_cons_of_mem _ hmem) hmark

/-- What is left of one declaration: all of it, or nothing and the report. -/
def Declaration.inLink (s : Schema) (d : Declaration) : Traced Text :=
  if s.allowsInLink d.name then pure d.render
  else Traced.reporting (.historySensitiveProperty d.name) []

theorem filterHistoryOne_eq_inLink {d : Declaration} (h : d.IsDelimited) (s : Schema) :
    filterHistoryOne s (d.name :: Token.colon :: d.value) = d.inLink s := by
  have hfilter : (d.name :: Token.colon :: d.value).filter (· ≠ Token.space) =
      d.name :: Token.colon :: d.value :=
    List.filter_eq_self.mpr fun t ht => decide_eq_true fun hspace =>
      h.not_mem (List.mem_cons_self ..) (hspace ▸ ht)
  rw [filterHistoryOne, hfilter]
  simp only [h.lowered, List.erase_cons_head,
    List.isEmpty_eq_false_iff.mpr h.value_ne_nil]
  rfl

/-- What is left of a declaration depends on nothing after it, nor does anything after it
depend on the declaration. -/
theorem filterHistory_append {d : Declaration} (h : d.IsDelimited) (s : Schema)
    (rest : List Token) :
    filterHistory s (d.tokens ++ rest) = (do
      let text ← d.inLink s
      let more ← filterHistory s rest
      pure (text ++ more)) := by
  have htokens : d.tokens ++ rest =
      (d.name :: Token.colon :: d.value) ++ Token.semicolon :: rest := by
    simp [Declaration.tokens]
  rw [filterHistory_eq, htokens, fields_append (h.not_mem (by decide)), Traced.collect,
    filterHistoryOne_eq_inLink h]
  simp only [filterHistory_eq, bind_assoc, pure_bind, List.flatten_cons]

/-- The filter finds the declarations again: those that may be there are left as they are
written, in their order, and each of the others is reported once. -/
theorem filterHistory_tokens (s : Schema) {ds : List Declaration}
    (h : ∀ d ∈ ds, d.IsDelimited) :
    filterHistory s (ds.flatMap Declaration.tokens) =
      ⟨(ds.filter fun d => s.allowsInLink d.name).flatMap Declaration.render,
        (ds.filter fun d => !s.allowsInLink d.name).map fun d =>
          .issue (.historySensitiveProperty d.name)⟩ := by
  induction ds with
  | nil => rfl
  | cons d ds ih =>
    obtain ⟨hd, hds⟩ := List.forall_mem_cons.mp h
    rw [List.flatMap_cons, filterHistory_append hd, ih hds, Declaration.inLink,
      List.filter_cons, List.filter_cons]
    by_cases hlink : s.allowsInLink d.name
    · simp only [hlink]
      exact congrArg (Traced.mk _) (List.append_nil _)
    · simp only [hlink]
      exact congrArg
        (fun T => Traced.mk _ (.issue (.historySensitiveProperty d.name) :: T))
          (List.append_nil _)

/-- Declarations with colons and commas in their values. -/
def punctuated : List Declaration :=
  [⟨"width", [":", "a", ",", ":"]⟩, ⟨"color", [":", "red", ",", ":"]⟩, ⟨"a", ["b"]⟩,
    ⟨"cursor", ["help"]⟩]

/-- Colons and commas in a value that is dropped, or in one
that is kept, divide nothing. -/
theorem filterHistory_tokens_punctuated :
    (∀ d ∈ punctuated, d.IsDelimited) ∧
    filterHistory defaultSchema (punctuated.flatMap Declaration.tokens) =
      ⟨"color:: red, :;cursor:help;",
        [.issue (.historySensitiveProperty "width"),
          .issue (.historySensitiveProperty "a")]⟩ := by
  have h : ∀ d ∈ punctuated, d.IsDelimited := by decide +kernel
  refine ⟨h, (filterHistory_tokens defaultSchema h).trans ?_⟩
  decide +kernel

theorem Declared.isDelimited (hctx : ctx.IsPlain) (hS : ∀ t, S t → Shape t)
    {d : Declaration} {l : Line} (h : Declared ctx S G d l) : d.IsDelimited where
  lowered := by
    rw [← h.name_eq]
    exact (h.isLegible hctx hS).lowered
  value_ne_nil := by
    cases h with
    | intro important hname hlower hfind hne hkept =>
      exact List.append_ne_nil_of_left_ne_nil hne _
  not_mem_marks t ht hmem := h.not_mem_marks hctx hS t ht (by
    rcases List.mem_cons.mp hmem with rfl | hmem
    · decide
    · rw [List.mem_singleton.mp hmem]
      decide)

/-- In a rule about visited links those declarations are left that
may be there, as they are. -/
theorem value_filterHistory (hctx : ctx.IsPlain) (hS : ∀ t, S t → Shape t) (s : Schema)
    {ds : List Declaration} (h : ∀ d ∈ ds, ∃ l, Declared ctx S G d l) :
    (filterHistory s (ds.flatMap Declaration.tokens)).value =
      (ds.filter fun d => s.allowsInLink d.name).flatMap Declaration.render := by
  induction ds with
  | nil => rfl
  | cons d ds ih =>
    obtain ⟨⟨l, hl⟩, hds⟩ := List.forall_mem_cons.mp h
    rw [List.flatMap_cons, filterHistory_append (hl.isDelimited hctx hS),
      Traced.value_bind, Traced.value_bind, Traced.value_pure, ih hds, Declaration.inLink,
      List.filter_cons]
    split
    · rfl
    · rfl

end CssGuard
