import CssGuard.Proofs.Event.Declarations
import CssGuard.Proofs.Event.Rendering
import CssGuard.Proofs.Sheet.Recursion

/-!
# Style attributes are bodies of rulesets

The declarations of a style attribute are read as those of a ruleset are, up to the brace
that ends the ruleset. They agree when the attribute closes no brace that it did not open:
then the brace after it is either met where a declaration could begin, or it is taken by a
block that the attribute left open, and in that case there is nothing after the block in
the attribute either.

- `readBody_of_resumes`: the brace comes after the same declarations and issues
- `sanitizeSelectors_paragraph`: a selector that no confinement by a suffix changes
- `runSheet_paragraph`: a style attribute and the ruleset with the same declarations
-/

namespace CssGuard

open Text

/-! ## Reading -/

variable {depth : Nat}

/-- The brace that ends a ruleset, or a block that takes it, comes after the same
declarations and issues as the end of the attribute. -/
theorem readBody_of_resumes {ts us : List Token}
    (h : Resumes depth [Token.closeBrace] ts us) :
    readBody us = ⟨declarationSignals ts, []⟩ := by
  have htail := endsDeclaration_closeBrace depth
  -- the induction follows the attribute; where it ends, the ruleset has
  -- its brace left or nothing
  fun_induction declarationSignals ts generalizing us with
  | case1 =>
    cases h with
    | within h => rw [List.nil_append, readBody, if_pos rfl]
    | ended =>
      cases depth with
      | zero =>
        show readBody [Token.closeBrace] = _
        rw [readBody, if_pos rfl]
      | succ k =>
        show readBody [] = _
        rw [readBody]
  | case2 t rest hskip ih =>
    obtain ⟨h⟩ := h
    have hclose : t ≠ Token.closeBrace := by
      rintro rfl
      exact h.not_close
    have hopen : t ≠ Token.openBrace := by
      rintro rfl
      exact absurd hskip (by decide)
    rw [List.cons_append, readBody, if_neg hclose, if_pos (by tauto)]
    exact ih (.within (h.of_cons hopen hclose))
  | case3 rest _ hskip ih =>
    obtain ⟨h⟩ := h
    rw [List.cons_append, readBody, if_neg (by decide), if_neg (by decide), if_pos rfl]
    exact ih (afterBlock_resumes htail 0 h.of_open)
  | case4 t rest hskip hopen _ ih =>
    obtain ⟨h⟩ := h
    simp only [not_or] at hskip
    obtain ⟨after, hafter, hread⟩ :=
      readDeclaration_resumes htail t (h.of_cons hopen hskip.2.2)
    rw [List.cons_append, readBody, if_neg hskip.2.2, if_neg (by tauto), if_neg hopen,
      hread, ih hafter]
    rfl

/-- The tokens of a sheet with one ruleset for paragraphs, which has the given body. -/
def paragraph (body : List Token) : List Token :=
  [['p'], Token.openBrace] ++ body ++ [Token.closeBrace]

/-- The sheet has the declarations and issues of the attribute, between the start and
the end of its one ruleset. -/
theorem sheetSignals_paragraph {ts : List Token} (h : Balance 0 ts depth) :
    sheetSignals (paragraph ts) =
      .event .startSheet :: .event (.startRuleset [['p']]) ::
        (declarationSignals ts ++ [.event .endRuleset, .event .endSheet]) := by
  have hread : readStatement 0 ['p'] (Token.openBrace :: (ts ++ [Token.closeBrace])) =
      ⟨.event (.startRuleset [['p']]) :: declarationSignals ts ++ [.event .endRuleset],
        0, []⟩ := by
    rw [← List.nil_append (Token.openBrace :: _),
      readStatement_ruleset (by decide) (by decide) (by decide) rfl,
      readBody_of_resumes (.within h)]
    rfl
  have htokens : paragraph ts = ['p'] :: Token.openBrace :: (ts ++ [Token.closeBrace]) :=
    rfl
  rw [sheetSignals, htokens, statementSignals, hread, statementSignals]
  simp [closingSignals]

/-! ## Sanitizing -/

/-- A confinement by a suffix has no container and no tag policy of its own. -/
theorem eq_of_ofSettings {suffix : Text} {c : Confinement}
    (h : Confinement.ofSettings { idSuffix := .text suffix } = .ok c) :
    c.idSuffix = suffix ∧ c.containerClass = none ∧ c.tagPolicy = TagPolicy.standard := by
  by_cases hsuffix : isIdSuffix suffix
  · simp [Confinement.ofSettings, Confinement.checkIdSuffix,
      Confinement.checkContainerClass, hsuffix, Bind.bind, Except.bind] at h
    subst h
    exact ⟨rfl, rfl, rfl⟩
  · simp [Confinement.ofSettings, Confinement.checkIdSuffix, hsuffix, Bind.bind,
      Except.bind] at h

/-- The selector for paragraphs stays as it is. -/
theorem sanitizeSelectors_paragraph {c : Confinement}
    (hcontainer : c.containerClass = none) (htags : c.tagPolicy = TagPolicy.standard) :
    sanitizeSelectors { confinement := c } [['p']] = pure ⟨[['p']], []⟩ := by
  have hcompound : sanitizeCompound ⟨c, standardAttributes, true⟩ [['p']] =
      pure (some ⟨['p'], false⟩) := by
    rw [sanitizeCompound, if_neg (by decide), if_pos (by decide), if_neg (by simp), htags,
      show TagPolicy.standard (lower ['p']) = some ['p'] by decide]
    dsimp only
    rw [sanitizePieces]
    rfl
  have hcomplex : sanitizeComplex { confinement := c } [['p']] =
      pure (some ⟨['p'], false⟩) := by
    rw [sanitizeComplex, show splitAtTop isCombinator 0 [['p']] = ⟨[['p']], []⟩ by decide]
    simp [hcompound, sanitizeCompounds, Confinement.start, hcontainer]
  rw [sanitizeSelectors, show splitSelectors [['p']] = [[['p']]] by
    decide, sanitizeEach, sanitizeSelector,
      if_neg (by decide), hcomplex]
  rfl

theorem isInBody_of_declares {S : Token → Prop} {signal : Signal}
    (h : signal.Declares S) : signal.isInBody := by
  cases signal with
  | issue cause => rfl
  | event e =>
    cases e with
    | declaration name value => rfl
    | _ => cases h

theorem Traced.collect_bind_pure {α β γ : Type} (f : α → Traced β) (g : β → γ)
    (l : List α) :
    Traced.collect (fun a => do let b ← f a; pure (g b)) l = (do
      let bs ← Traced.collect f l
      pure (bs.map g)) := by
  induction l with
  | nil => rfl
  | cons a l ih =>
    rw [Traced.collect, ih, Traced.collect]
    simp only [bind_assoc, pure_bind, List.map_cons]

theorem declarationText_eq_declaredBy (ctx : ValueContext) :
    declarationText ctx = fun signal => (do
    let kept ← declaredBy ctx signal
    pure (kept.flatMap Declaration.render)) := by
  funext signal
  fun_cases declarationText ctx signal with
  | case1 cause => rfl
  | case2 name value => simp only [declaredBy, keptDeclaration, bind_assoc, pure_bind]
  | case3 e he =>
    cases e with
    | declaration name value => exact absurd rfl (he name value)
    | _ => rfl

/-- The text of an attribute is that of the declarations that are left of it. -/
theorem collectDeclarations_eq (ctx : ValueContext) (ts : List Token) :
    collectDeclarations ctx ts = (do
      let kept ← Traced.collect (declaredBy ctx) (declarationSignals ts)
      pure (kept.flatten.flatMap Declaration.render)) := by
  rw [collectDeclarations, declarationText_eq_declaredBy, Traced.collect_bind_pure,
    bind_assoc]
  simp only [pure_bind, List.flatten_eq_flatMap, List.flatMap_assoc, List.flatMap_map, id]

theorem groupText_paragraph (body : Text) :
    groupText [['p']] body = if body = [] then []
      else 'p' :: '\x7b' :: body ++ ['\x7d'] := by
  simp [groupText, joined]

theorem groupTexts_paragraph (schema : Schema) (ds : List Declaration) :
    groupTexts schema ⟨[['p']], []⟩ ds =
      pure (groupText [['p']] (ds.flatMap Declaration.render)) := by
  simp [groupTexts, groupText]

/-- A ruleset for paragraphs writes its body as the text of an
attribute, inside of braces. -/
theorem writes_paragraph {ctx : SheetContext}
    (hcontainer : ctx.confinement.containerClass = none)
    (htags : ctx.confinement.tagPolicy = TagPolicy.standard) (ts : List Token) :
    Writes .start (runSheet ctx .start
        (.event (.startRuleset [['p']]) :: (declarationSignals ts ++
          [.event .endRuleset]))) (do
      let body ← collectDeclarations ctx.values ts
      pure (groupText [['p']] body)) := by
  have hbody : ∀ signal ∈ declarationSignals ts, signal.isInBody := fun signal hsignal =>
    isInBody_of_declares (declares_of_mem_declarationSignals (fun _ _ => trivial)
      signal hsignal)
  have hwrites := writes_body ctx .start ⟨[['p']], []⟩ hbody
  simp only [groupTexts_paragraph] at hwrites
  rw [runSheet_ruleset rfl, sanitizeSelectors_paragraph hcontainer htags, pure_bind,
    collectDeclarations_eq, bind_assoc]
  simp only [pure_bind]
  exact hwrites

/-- A style attribute that closes no brace it did not open, and a sheet with one ruleset
for paragraphs around the same tokens: the sheet has the declarations and issues of the
attribute inside of its ruleset, and sanitized under the same suffix it is the sanitized
attribute inside of its braces, or empty if nothing is left of the attribute. The same is
reported and asked for both. -/
theorem runSheet_paragraph (ctx : SheetContext) {suffix : Text}
    (hctx : Confinement.ofSettings { idSuffix := .text suffix } = .ok ctx.confinement)
    {ts : List Token}
    (hts : ∀ n, (ts.take n).count Token.closeBrace ≤ (ts.take n).count Token.openBrace) :
    let collected :=
      collectDeclarations ⟨ctx.policy, ctx.base, ctx.schema, some suffix⟩ ts
    let sheet := runSheet ctx .start (sheetSignals (paragraph ts))
    sheetSignals (paragraph ts) =
        .event .startSheet :: .event (.startRuleset [['p']]) ::
          (declarationSignals ts ++ [.event .endRuleset, .event .endSheet]) ∧
      sheet.value.text =
        (if collected.value = [] then []
          else 'p' :: '\x7b' :: collected.value ++ ['\x7d']) ∧
      sheet.trace = collected.trace := by
  intro collected sheet
  obtain ⟨hsuffix, hcontainer, htags⟩ := eq_of_ofSettings hctx
  have hsignals := sheetSignals_paragraph (balance_of_take hts)
  have hwrites := writes_paragraph hcontainer htags ts
  have hcollected : collectDeclarations ctx.values ts = collected := by
    rw [SheetContext.values, hsuffix]
  rw [hcollected] at hwrites
  have hsheet : sheet = (do
      let state ← runSheet ctx .start
        (.event (.startRuleset [['p']]) :: (declarationSignals ts ++
          [.event .endRuleset]))
      pure { state with stack := [] }) := by
    have hend : sheetSignals (paragraph ts) = .event .startSheet ::
        ((.event (.startRuleset [['p']]) :: (declarationSignals ts ++
          [.event .endRuleset])) ++ [.event .endSheet]) := by
      simp [hsignals]
    show runSheet ctx .start (sheetSignals (paragraph ts)) = _
    rw [hend, runSheet_startSheet, runSheet_append]
    rfl
  refine ⟨hsignals, ?_, ?_⟩
  · rw [hsheet, ← groupText_paragraph]
    exact hwrites.text
  · rw [hsheet, Traced.trace_bind, hwrites.trace]
    simp

/-- A declaration with a block, one without a colon, a kept one, and a
block that is never closed. -/
def unclosedAttribute : List Token :=
  ["a", Token.colon, Token.openBrace, Token.closeBrace, Token.semicolon, "b",
    Token.semicolon, "color", Token.colon, "red", Token.semicolon, Token.openBrace, "c"]

theorem runSheet_paragraph_unclosedAttribute :
    let ctx : SheetContext :=
      { confinement := { idSuffix := "-x" }, policy := none, base := none }
    let collected :=
      collectDeclarations ⟨none, none, ctx.schema, some "-x"⟩ unclosedAttribute
    let sheet := runSheet ctx .start (sheetSignals (paragraph unclosedAttribute))
    Confinement.ofSettings { idSuffix := .text "-x" } = .ok ctx.confinement ∧
      (∀ n, (unclosedAttribute.take n).count Token.closeBrace ≤
        (unclosedAttribute.take n).count Token.openBrace) ∧
      sheetSignals (paragraph unclosedAttribute) =
        .event .startSheet :: .event (.startRuleset [['p']]) ::
          (declarationSignals unclosedAttribute ++
            [.event .endRuleset, .event .endSheet]) ∧
      sheet.value.text =
        (if collected.value = [] then []
          else 'p' :: '\x7b' :: collected.value ++ ['\x7d']) ∧
      sheet.trace = collected.trace := by
  intro ctx collected sheet
  have htake : ∀ n, (unclosedAttribute.take n).count Token.closeBrace ≤
      (unclosedAttribute.take n).count Token.openBrace := by
    intro n
    by_cases hn : n < 13
    · have hall : ∀ n < 13, (unclosedAttribute.take n).count Token.closeBrace ≤
          (unclosedAttribute.take n).count Token.openBrace := by decide
      exact hall n hn
    · rw [List.take_of_length_le (Nat.le_of_not_lt hn)]
      decide
  exact ⟨rfl, htake, runSheet_paragraph ctx rfl htake⟩

end CssGuard
