import CssGuard.Proofs.Sheet.Renewal

/-!
# Sanitized sheets that stay as they are

A sanitized sheet stays as it is when it is sanitized again, if its URLs do when they are
seen from the base again, it has no newline and no number in it begins with a digit
outside ASCII. Without a base nothing changes from the second time on.

- `valueTokens`: the tokens of the values of a sheet
- `IsTidy`: a sheet without newlines and without such numbers
- `value_sanitizeSheet_again_iff`: when a sanitized sheet stays as it is
- `value_sanitizeSheet_thrice`: without a base, the second time is
  the last that changes anything
- `sanitizeStylesheet_again`: what this says of a configuration that accepts every URL
-/

namespace CssGuard

open Text

/-- The declarations of a sheet, as they are read. -/
def readDeclarations (css : Text) : List (Text × List Token) :=
  (rulesets (events (sheetSignals (lex css).value))).flatMap Ruleset.declarations

/-- The tokens of the values of a sheet. -/
def valueTokens (css : Text) : List Token :=
  (readDeclarations css).flatMap Prod.snd

/-- The sheet has no newline, and no token of a value begins
with a digit outside ASCII. -/
structure IsTidy (css : Text) : Prop where
  no_newline : '\n' ∉ css
  numbers : ∀ t ∈ valueTokens css, beginsForeign t = false

/-! ## Values of items -/

variable {c : Confinement} {items : List Item}

theorem declarations_items (c : Confinement) (items : List Item) :
    (items.flatMap (Item.rulesets c)).flatMap Ruleset.declarations =
      (items.flatMap Item.lines).map fun l => (l.name, l.value) := by
  induction items with
  | nil => rfl
  | cons item items ih =>
    have hitem : (item.rulesets c).flatMap Ruleset.declarations =
        item.lines.map fun l => (l.name, l.value) := by
      cases item with
      | opening => rfl
      | closing => rfl
      | rule ss lines => exact List.flatMap_singleton ..
    rw [List.flatMap_cons, List.flatMap_append, hitem, ih, List.flatMap_cons,
      List.map_append]

theorem readDeclarations_items (h : ∀ item ∈ items, item.IsValid c Line.IsLegible)
    (hnested : Nested 0 items 0) :
    readDeclarations (items.flatMap (Item.text c)) =
      (items.flatMap Item.lines).map fun l => (l.name, l.value) := by
  have hrulesets : rulesets (.startSheet :: items.flatMap (Item.events c) ++
      [.endSheet]) = items.flatMap (Item.rulesets c) :=
    (rulesets_items c items [.endSheet]).trans (List.append_nil _)
  rw [readDeclarations, lex_items h, sheetSignals_items h hnested,
    events_map_event, hrulesets, declarations_items]

theorem mem_valueTokens_items (h : ∀ item ∈ items, item.IsValid c Line.IsLegible)
    (hnested : Nested 0 items 0) {t : Token} :
    t ∈ valueTokens (items.flatMap (Item.text c)) ↔
      ∃ l ∈ items.flatMap Item.lines, t ∈ l.value := by
  rw [valueTokens, readDeclarations_items h hnested, List.flatMap_map, List.mem_flatMap]

variable {ctx : SheetContext} {T : Trace}

theorem hasOrigin_of_mem_lines (h : ∀ item ∈ items, item.IsSound ctx T) :
    ∀ l ∈ items.flatMap Item.lines, l.HasOrigin ctx.values T := by
  intro l hl
  obtain ⟨item, hitem, hl⟩ := List.mem_flatMap.mp hl
  have hvalid := (h item hitem).valid
  cases item with
  | opening => cases hl
  | closing => cases hl
  | rule ss lines => exact hvalid.2.2 l hl

theorem shape_of_mem_lines (h : ∀ item ∈ items, item.IsValid c Line.IsLegible)
    (hshape : ∀ t ∈ items.flatMap (Item.tokens c), Shape t) :
    ∀ l ∈ items.flatMap Item.lines, ∀ t ∈ l.value, Shape t := by
  intro l hl t ht
  obtain ⟨item, hitem, hl⟩ := List.mem_flatMap.mp hl
  exact hshape t (List.mem_flatMap.mpr ⟨item, hitem,
    (Item.mem_tokens_of_mem_value (h item hitem) hl ht).1⟩)

/-- A newline in a scrap is one in the sheet. -/
theorem newline_mem_of_mem_lines (c : Confinement) {l : Line}
    (hl : l ∈ items.flatMap Item.lines) {a : Scrap} (ha : a ∈ l.row)
    (hnew : '\n' ∈ a.text) : '\n' ∈ items.flatMap (Item.text c) := by
  obtain ⟨item, hitem, hl⟩ := List.mem_flatMap.mp hl
  refine List.mem_flatMap.mpr ⟨item, hitem, ?_⟩
  have hspread := (mem_spread (by decide) true l.row).mpr ⟨a, ha, hnew⟩
  cases item with
  | opening => cases hl
  | closing => cases hl
  | rule ss lines =>
    refine List.mem_append_left _ (List.mem_append_right _ (List.mem_cons_of_mem _ ?_))
    refine List.mem_flatMap.mpr ⟨l, hl,
      List.mem_append_left _ (List.mem_append_right _ ?_)⟩
    exact List.mem_cons_of_mem _ hspread

/-! ## Sheets that stay -/

/-- A sanitized sheet stays as it is if and only if it is tidy and its URLs stay. -/
theorem value_sanitizeSheet_again_iff (hctx : ctx.IsOpen) (css : Text) :
    (sanitizeSheet ctx (sanitizeSheet ctx css).value).value =
      (sanitizeSheet ctx css).value ↔ IsTidy (sanitizeSheet ctx css).value ∧
        ∀ t ∈ valueTokens (sanitizeSheet ctx css).value, t.UrlStays ctx.base := by
  obtain ⟨items, items', htext, hnested, hsound, hshape, s, hrenewal, hagain⟩ :=
    exists_isRenewal hctx css
  have hvalid := fun item hitem => (hsound item hitem).isValid hctx.toIsStandard
  have horigin := hasOrigin_of_mem_lines hsound
  have hshapes := shape_of_mem_lines hvalid hshape
  have hlegible := fun l hl => (horigin l hl).isLegible hctx.toIsStandard.values
  have hnul : ∀ l ∈ items.flatMap Item.lines, ∀ a ∈ l.row, ∀ uri, a = .url uri →
      '\x00' ∉ uri :=
    fun l hl => (horigin l hl).elim fun _ hd => hd.not_nul_mem
  rw [hagain, hrenewal.text, htext]
  show items'.flatMap _ = _ ↔ _
  constructor
  · intro heq
    -- the same text is read back as the same declarations
    have hdeclarations := readDeclarations_items hrenewal.valid hrenewal.nested
    rw [heq, readDeclarations_items hvalid hnested] at hdeclarations
    have hstays := hrenewal.renew.lines.stays_of_eq hdeclarations.symm
    have hnew := hrenewal.renew.not_newline_mem hctx.bare hvalid fun l hl =>
      (horigin l hl).elim fun _ hd => hd.not_newline_mem hctx.isOpen_values
    rw [heq] at hnew
    refine ⟨⟨hnew, fun t ht => ?_⟩, fun t ht => ?_⟩
    · obtain ⟨l, hl, ht⟩ := (mem_valueTokens_items hvalid hnested).mp ht
      obtain ⟨a, ha, ht⟩ := List.mem_flatMap.mp ht
      obtain ⟨a', hagain, -⟩ := hstays l hl a ha
      exact (Scrap.beginsForeign_eq_of_again? hagain).1 t ht
    · obtain ⟨l, hl, ht⟩ := (mem_valueTokens_items hvalid hnested).mp ht
      obtain ⟨a, ha, hta⟩ := List.mem_flatMap.mp ht
      refine Scrap.urlStays_of_mem_tokens ((hlegible l hl).row a ha)
        (fun u hu => hshapes l hl u (List.mem_flatMap.mpr ⟨a, ha, hu⟩))
          (hnul l hl a ha) ?_ t hta
      rintro uri rfl
      obtain ⟨a', hagain, htokens⟩ := hstays l hl _ ha
      exact Scrap.again?_of_tokens_eq (hnul l hl _ ha uri rfl) hagain htokens
  · rintro ⟨⟨hnew, hnumbers⟩, hurls⟩
    refine hrenewal.renew.text_eq hvalid hnew fun l hl a ha => ?_
    have hmem : ∀ t ∈ a.tokens,
        t ∈ valueTokens (items.flatMap (Item.text ctx.confinement)) :=
      fun t ht => (mem_valueTokens_items hvalid hnested).mpr ⟨l, hl,
        List.mem_flatMap.mpr ⟨a, ha, ht⟩⟩
    exact Scrap.again?_eq_self (fun hmem => hnew (newline_mem_of_mem_lines _ hl ha hmem))
      (hnul l hl a ha) (fun t ht => hnumbers t (hmem t ht)) fun t ht =>
        hurls t (hmem t ht)

/-- A sheet that was sanitized twice is tidy. -/
theorem isTidy_sanitizeSheet_again (hctx : ctx.IsOpen) (css : Text) :
    IsTidy (sanitizeSheet ctx (sanitizeSheet ctx css).value).value := by
  obtain ⟨items, items', -, -, hsound, -, s, hrenewal, hagain⟩ :=
    exists_isRenewal hctx css
  have hvalid := fun item hitem => (hsound item hitem).isValid hctx.toIsStandard
  have hnew : ∀ l ∈ items.flatMap Item.lines, ∀ t ∈ l.value, '\n' ∉ t := fun l hl =>
    (hasOrigin_of_mem_lines hsound l hl).elim fun _ hd =>
      hd.not_newline_mem hctx.isOpen_values
  rw [hagain, hrenewal.text]
  refine ⟨hrenewal.renew.not_newline_mem hctx.bare hvalid hnew, fun t ht => ?_⟩
  obtain ⟨l, hl, ht⟩ := (mem_valueTokens_items hrenewal.valid hrenewal.nested).mp ht
  exact (hrenewal.renew.lines.forall_mem hnew l hl).2 t ht

/-- An escaped URL that was harmless stays as it is without a base. -/
theorem Url.again?_escape {uri : Text} (h : Url.isHarmless uri) :
    Url.again? none (Url.escape uri) = some (Url.escape uri) := by
  rw [Url.again?, Url.resolve, if_pos (Url.isHarmless_escape h), Url.escape_escape]

/-- Without a base the URLs of a sanitized sheet stay. -/
theorem urlStays_sanitizeSheet (hctx : ctx.IsOpen) (css : Text) :
    ∀ t ∈ valueTokens (sanitizeSheet ctx css).value, t.UrlStays none := by
  obtain ⟨items, -, htext, hnested, hsound, hshape, -⟩ := exists_isRenewal hctx css
  have hvalid := fun item hitem => (hsound item hitem).isValid hctx.toIsStandard
  rw [htext]
  intro t ht
  obtain ⟨l, hl, ht⟩ := (mem_valueTokens_items hvalid hnested).mp ht
  obtain ⟨a, ha, hta⟩ := List.mem_flatMap.mp ht
  have horigin := hasOrigin_of_mem_lines hsound l hl
  have hlegible := horigin.isLegible hctx.toIsStandard.values
  have hshapes := shape_of_mem_lines hvalid hshape l hl
  obtain ⟨d, hd⟩ := horigin
  refine Scrap.urlStays_of_mem_tokens (hlegible.row a ha)
    (fun u hu => hshapes u (List.mem_flatMap.mpr ⟨a, ha, hu⟩))
      (hd.not_nul_mem a ha) ?_ t hta
  rintro uri rfl
  obtain ⟨granted, ⟨ask, asked, -, -, -, hharmless⟩, rfl⟩ := hd.granted_of_mem ha
  exact Url.again?_escape hharmless

/-- Without a base, nothing changes from the second time on. -/
theorem value_sanitizeSheet_thrice (hctx : ctx.IsOpen) (hbase : ctx.base = none)
    (css : Text) :
    (sanitizeSheet ctx (sanitizeSheet ctx (sanitizeSheet ctx css).value).value).value =
      (sanitizeSheet ctx (sanitizeSheet ctx css).value).value := by
  refine (value_sanitizeSheet_again_iff hctx _).mpr
    ⟨isTidy_sanitizeSheet_again hctx css, ?_⟩
  rw [hbase]
  exact urlStays_sanitizeSheet hctx _

/-! ## Configurations -/

/-- The policy that accepts every URL as it is. -/
def Url.acceptAll : Url.Policy :=
  fun uri _ => some uri

theorem isOpen_standard (base : Option Text) :
    (SheetContext.standard .standard (some Url.acceptAll) base).IsOpen where
  toIsStandard := isStandard_standard ..
  policy := rfl
  bare := ⟨rfl, rfl, rfl⟩

/-- With the standard confinement and a policy that accepts every URL, a tidy sheet that
was sanitized stays as it is if and only if its URLs do when they are seen from the base
again. Without a base they always do. -/
theorem sanitizeStylesheet_again (base : Option Text) (css : Text) :
    (∃ out again,
      sanitizeStylesheet (.standard .standard (some Url.acceptAll) base) css = .ok out ∧
      sanitizeStylesheet (.standard .standard (some Url.acceptAll) base) out.value =
        .ok again ∧
      (IsTidy out.value →
        (again.value = out.value ↔ ∀ t ∈ valueTokens out.value, t.UrlStays base))) ∧
    ∃ out again,
      sanitizeStylesheet (.standard .standard (some Url.acceptAll) none) css = .ok out ∧
      sanitizeStylesheet (.standard .standard (some Url.acceptAll) none) out.value =
        .ok again ∧
      (IsTidy out.value → again.value = out.value) := by
  refine ⟨⟨_, _, sanitizeStylesheet_standard .., sanitizeStylesheet_standard ..,
    fun htidy => ?_⟩, _, _, sanitizeStylesheet_standard ..,
    sanitizeStylesheet_standard .., fun htidy => ?_⟩
  · rw [value_sanitizeSheet_again_iff (isOpen_standard base)]
    exact and_iff_right htidy
  · exact (value_sanitizeSheet_again_iff (isOpen_standard none) css).mpr
      ⟨htidy, urlStays_sanitizeSheet (isOpen_standard none) css⟩

/-- A URL that was seen from an absolute base stays. -/
theorem sanitizeStylesheet_again_absolute :
    ∃ out again,
      sanitizeStylesheet (.standard .standard (some Url.acceptAll) (some "http://h/d/x"))
        "a\x7bbackground:url(c)\x7d" = .ok out ∧
      sanitizeStylesheet (.standard .standard (some Url.acceptAll) (some "http://h/d/x"))
        out.value = .ok again ∧
      out.value = "a\x7bbackground:url(\"http://h/d/c\");\x7d".toList ∧
      again.value = out.value := by
  obtain ⟨⟨out, again, hout, hagain, h⟩, -⟩ :=
    sanitizeStylesheet_again (some "http://h/d/x") "a\x7bbackground:url(c)\x7d"
  have htext : out.value = "a\x7bbackground:url(\"http://h/d/c\");\x7d".toList := by
    rw [sanitizeStylesheet_standard] at hout
    cases hout
    decide +kernel
  have htokens : valueTokens out.value = ["url(\"http://h/d/c\")".toList] := by
    rw [htext]
    decide +kernel
  have htidy : IsTidy out.value := by
    refine ⟨?_, ?_⟩
    · rw [htext]
      decide
    · rw [htokens]
      decide
  refine ⟨out, again, hout, hagain, htext, (h htidy).mpr ?_⟩
  rw [htokens]
  refine List.forall_mem_singleton.mpr fun body hbody => ?_
  have hinside : Token.urlBody? "url(\"http://h/d/c\")" = some "http://h/d/c".toList := by
    decide
  rw [Option.some.inj (hbody.symm.trans hinside)]
  decide

/-- A URL that was seen from a relative base is seen from it once more, and changes. -/
theorem sanitizeStylesheet_again_relative :
    ∃ out again,
      sanitizeStylesheet (.standard .standard (some Url.acceptAll) (some "x/y"))
        "a\x7bbackground:url(\"c\");\x7d" = .ok out ∧
      sanitizeStylesheet (.standard .standard (some Url.acceptAll) (some "x/y"))
        out.value = .ok again ∧
      out.value = "a\x7bbackground:url(\"x/c\");\x7d".toList ∧
      again.value = "a\x7bbackground:url(\"x/x/c\");\x7d".toList ∧
      again.value ≠ out.value := by
  have hout : (sanitizeSheet (.standard .standard (some Url.acceptAll) (some "x/y"))
      "a\x7bbackground:url(\"c\");\x7d").value =
        "a\x7bbackground:url(\"x/c\");\x7d".toList := by
    decide +kernel
  have hagain : (sanitizeSheet (.standard .standard (some Url.acceptAll) (some "x/y"))
      "a\x7bbackground:url(\"x/c\");\x7d").value =
        "a\x7bbackground:url(\"x/x/c\");\x7d".toList := by
    decide +kernel
  refine ⟨_, _, sanitizeStylesheet_standard .., sanitizeStylesheet_standard ..,
    hout, ?_, ?_⟩
  · rw [hout, hagain]
  · rw [hout, hagain]
    decide

end CssGuard
