import CssGuard.Proofs.Event.Rules
import CssGuard.Proofs.Sheet.Run

/-!
# The sanitizer as a function of rules

The sanitizer sees one event at a time and knows by its stack what is open. When the
events are those of rules, all this amounts to a function that follows the rules: a media
rule is its header and the texts of the rules in its block, of any other at-rule nothing
is left, and a ruleset is written once for each of its two groups of selectors. The run
and the function agree on the text, and on all that is reported and asked on the way.

- `Rules.sanitized`: the function
- `runSheet_eq_pure_of_isEliding`: inside of a rule that is not
  written nothing happens at all
- `Writes`: what signals add to the text of a sheet, with the same
  things open before and after
- `Rules.writes_signals`: rules write what the function gives
- `runSheet_rules`: sheets of rules
- `exists_value_sanitizeSheet`: every sheet is sanitized as the rules that it consists of
-/

namespace CssGuard

open Text

/-! ## The function -/

/-- What is left of a declaration. -/
def keptDeclaration (ctx : ValueContext) (d : Text × List Token) :
    Traced (List Declaration) := do
  let kept ← sanitizeDeclaration ctx d.1 d.2
  pure kept.toList

/-- The text of a group of selectors with their declarations, which
is nothing without either. -/
def groupText (selectors : List Text) (body : Text) : Text :=
  if selectors = [] ∨ body = [] then []
    else joined ", " selectors ++ '\x7b' :: body ++ ['\x7d']

/-- The text of both groups of selectors: those that say nothing about visited links with
all declarations, then the others with the declarations that may be set for such links. -/
def groupTexts (schema : Schema) (selection : Selection) (ds : List Declaration) :
    Traced Text := do
  let history ← if selection.sensitive = [] then pure []
    else filterHistory schema (ds.flatMap Declaration.tokens)
  pure (groupText selection.insensitive (ds.flatMap Declaration.render) ++
    groupText selection.sensitive history)

/-- The text of a ruleset. Without selectors nobody looks at its declarations. -/
def rulesetText (ctx : SheetContext) (selector : List Token)
    (declarations : List (Text × List Token)) : Traced Text := do
  let selection ← sanitizeSelectors { confinement := ctx.confinement } selector
  if selection.isEmpty then pure []
  else do
    let kept ← Traced.collect (keptDeclaration ctx.values) declarations
    groupTexts ctx.schema selection kept.flatten

/-- The header of a media rule, unless no media is left. Other at-rules are reported. -/
def mediaHeader (ctx : SheetContext) (name : Text) (header : List Token) :
    Traced (Option Text) :=
  if name = "@media" then do
    let media ← filterMedia ctx.mediaTypes header
    if media = [] then Traced.reporting .mediaRuleWithoutMedia none else pure (some media)
  else if name = "@import" then Traced.reporting .importWithoutFetcher none
  else Traced.reporting (.disallowedAtRule name) none

/-- The text of a media rule whose block has the text `inner`. Where no media is left,
nothing of the block is looked at. -/
def mediaRuleText (media : Option Text) (inner : Traced Text) : Traced Text :=
  match media with
  | none => pure []
  | some media => do
    let inner ← inner
    pure (("@media " : Text) ++ media ++ '\x7b' :: inner ++ ['\x7d'])

namespace Rules

/-- The sanitized text of rules. -/
def sanitized (ctx : SheetContext) : Rules → Traced Text
  | nil => pure []
  | atRule name header rest => do
    let _ ← mediaHeader ctx name header
    rest.sanitized ctx
  | block name header body rest => do
    let media ← mediaHeader ctx name header
    let own ← mediaRuleText media (body.sanitized ctx)
    let more ← rest.sanitized ctx
    pure (own ++ more)
  | ruleset selector declarations rest => do
    let own ← rulesetText ctx selector declarations
    let more ← rest.sanitized ctx
    pure (own ++ more)

/-- The events of rules, as signals without issues among them. -/
def signals (rules : Rules) : List Signal :=
  rules.events.map .event

end Rules

/-- The signals of declarations. -/
def declarationsSignals (declarations : List (Text × List Token)) : List Signal :=
  declarations.map fun d => .event (declarationEvent d)

variable {ctx : SheetContext} {s : SheetState}

theorem Rules.signals_atRule (name : Text) (header : List Token) (rest : Rules) :
    (Rules.atRule name header rest).signals =
      [.event (.startAtRule name header), .event .endAtRule] ++ rest.signals :=
  rfl

theorem Rules.signals_block (name : Text) (header : List Token) (body rest : Rules) :
    (Rules.block name header body rest).signals =
      (.event (.startAtRule name header) :: .event .startBlock ::
        (body.signals ++ [.event .endBlock, .event .endAtRule])) ++ rest.signals := by
  simp [Rules.signals, Rules.events]

theorem Rules.signals_ruleset (selector : List Token)
    (declarations : List (Text × List Token)) (rest : Rules) :
    (Rules.ruleset selector declarations rest).signals =
      (.event (.startRuleset selector) :: (declarationsSignals declarations ++
        [.event .endRuleset])) ++ rest.signals := by
  simp [Rules.signals, Rules.events, declarationsSignals]

/-! ## Inside of a rule that is not written -/

@[simp] theorem SheetState.pop_push (s : SheetState) (m : Marker) : (s.push m).pop = s :=
  rfl

theorem SheetState.isEliding_congr {s s' : SheetState} (h : s'.stack = s.stack) :
    s'.isEliding = s.isEliding := by
  rw [SheetState.isEliding, SheetState.isEliding, h]

@[simp] theorem SheetState.isEliding_push (s : SheetState) (m : Marker) :
    (s.push m).isEliding = decide (m = .elided) := by
  simp [SheetState.isEliding, SheetState.push]

theorem SheetState.startBlock_of_isEliding (h : s.isEliding) : s.startBlock = s := by
  obtain ⟨parts, stack⟩ := s
  unfold SheetState.startBlock
  split
  · rename_i hstack
    simp [SheetState.isEliding, show stack = _ from hstack] at h
  · rfl

theorem SheetState.endBlock_of_isEliding (h : s.isEliding) : s.endBlock = s := by
  obtain ⟨parts, stack⟩ := s
  unfold SheetState.endBlock
  split
  · rename_i hstack
    simp [SheetState.isEliding, show stack = _ from hstack] at h
  · rfl

theorem runSheet_event (ctx : SheetContext) (s : SheetState) (e : Event)
    (rest : List Signal) :
    runSheet ctx s (.event e :: rest) = s.step ctx e >>=
    fun step => runSheet ctx step.state rest :=
  rfl

theorem runSheet_declarations_elided (s : SheetState)
    (declarations : List (Text × List Token)) :
    runSheet ctx (s.push .elided) (declarationsSignals declarations) =
      pure (s.push .elided) := by
  induction declarations with
  | nil => rfl
  | cons d declarations ih => exact ih

/-- Inside of a rule that is not written rules change nothing, report
nothing and ask for nothing. -/
theorem runSheet_eq_pure_of_isEliding (rules : Rules) :
    ∀ {s : SheetState}, s.isEliding → runSheet ctx s rules.signals = pure s := by
  induction rules with
  | nil => exact fun _ => rfl
  | atRule name header rest ih =>
    intro s h
    have hstart : s.startAtRule ctx name header = pure { state := s.push .elided } :=
      if_pos h
    rw [Rules.signals_atRule, List.cons_append, runSheet_event, SheetState.step,
      hstart, pure_bind]
    exact ih h
  | block name header body rest ihbody ihrest =>
    intro s h
    have hstart : s.startAtRule ctx name header = pure { state := s.push .elided } :=
      if_pos h
    -- the block is inside of a rule that is not written as well, so the
    -- hypothesis holds for its rules
    have hinside : (s.push .elided).isEliding := by simp
    rw [Rules.signals_block, List.cons_append, runSheet_event, SheetState.step,
      hstart, pure_bind, List.cons_append, runSheet_event, SheetState.step, pure_bind,
      SheetState.startBlock_of_isEliding hinside, List.append_assoc, runSheet_append,
      ihbody hinside, pure_bind]
    exact ihrest h
  | ruleset selector declarations rest ih =>
    intro s h
    have hstart : s.startRuleset ctx selector = pure (s.push .elided) := if_pos h
    rw [Rules.signals_ruleset, List.cons_append, runSheet_event, SheetState.step,
      hstart, pure_bind, pure_bind, List.append_assoc, runSheet_append,
      runSheet_declarations_elided, pure_bind]
    exact ih h

/-! ## Rulesets -/

/-- What a signal of a body declares. -/
def declaredBy (ctx : ValueContext) : Signal → Traced (List Declaration)
  | .issue cause => Traced.reporting cause []
  | .event (.declaration name value) => keptDeclaration ctx (name, value)
  | .event _ => pure []

/-- The signal is an issue or a declaration. -/
def Signal.isInBody : Signal → Bool
  | .issue _ => true
  | .event (.declaration _ _) => true
  | .event _ => false

/-- The signals of a body add the declarations that are left to
those of the open ruleset. -/
theorem runSheet_body (ctx : SheetContext) (s : SheetState) (selection : Selection)
    {body : List Signal} (hbody : ∀ signal ∈ body, signal.isInBody) :
    ∀ ds : List Declaration,
      runSheet ctx (s.push (.ruleset selection ds)) body = (do
        let kept ← Traced.collect (declaredBy ctx.values) body
        pure (s.push (.ruleset selection (ds ++ kept.flatten)))) := by
  induction body with
  | nil => exact fun ds => by simp [runSheet, Traced.collect]
  | cons signal body ih =>
    obtain ⟨hsignal, hrest⟩ := List.forall_mem_cons.mp hbody
    intro ds
    cases signal with
    | issue cause =>
      rw [runSheet, ih hrest ds, Traced.collect]
      simp [declaredBy, Traced.report, Traced.note, Traced.reporting, Bind.bind]
    | event e =>
      cases e with
      | declaration name value =>
        have hdeclare : (s.push (.ruleset selection ds)).declare ctx name value = (do
            let kept ← keptDeclaration ctx.values (name, value)
            pure (s.push (.ruleset selection (ds ++ kept)))) := by
          simp [SheetState.declare, SheetState.push, keptDeclaration]
        rw [runSheet_event, SheetState.step, hdeclare, Traced.collect]
        simp [declaredBy, ih hrest]
      | _ => cases hsignal

theorem Traced.collect_map {α β γ : Type} (f : β → Traced γ) (g : α → β) (l : List α) :
    Traced.collect f (l.map g) = Traced.collect (fun a => f (g a)) l := by
  induction l with
  | nil => rfl
  | cons a l ih => rw [List.map_cons, Traced.collect, Traced.collect, ih]

theorem collect_declaredBy_declarationsSignals (ctx : ValueContext)
    (declarations : List (Text × List Token)) :
    Traced.collect (declaredBy ctx) (declarationsSignals declarations) =
      Traced.collect (keptDeclaration ctx) declarations :=
  Traced.collect_map _ _ _

theorem isInBody_of_mem_declarationsSignals (declarations : List (Text × List Token)) :
    ∀ signal ∈ declarationsSignals declarations, signal.isInBody :=
  List.forall_mem_map.mpr fun _ _ => rfl

theorem flatten_ruleText_eq_groupText (selectors : List Text) (body : Text) :
    (ruleText selectors body).flatten = groupText selectors body := by
  unfold ruleText groupText
  by_cases h : selectors = [] ∨ body = []
  · rw [if_pos h, if_pos (by simpa using h), List.flatten_nil]
  · rw [if_neg h, if_neg (by simpa using h), List.flatten_singleton]

/-- The texts of a ruleset one after the other are those of its groups. -/
theorem flatten_rulesetTexts (schema : Schema) (selection : Selection)
    (ds : List Declaration) :
    (do let texts ← rulesetTexts schema selection ds; pure texts.flatten) =
      groupTexts schema selection ds := by
  unfold rulesetTexts groupTexts
  dsimp only
  by_cases hsensitive : selection.sensitive = []
  · simp [hsensitive, flatten_ruleText_eq_groupText, groupText]
  by_cases hds : ds = []
  · -- without declarations there is nothing to filter
    have hhistory : filterHistory schema [] = pure [] := rfl
    simp [hds, hsensitive, hhistory, flatten_ruleText_eq_groupText, groupText]
  · simp [hds, hsensitive, flatten_ruleText_eq_groupText]

/-! ## What a run writes -/

/-- The run from `s` writes `out`: it is added to the text, the same things are open
before and after, and the same happens on the way. -/
structure Writes (s : SheetState) (run : Traced SheetState) (out : Traced Text) :
    Prop where
  text : run.value.text = s.text ++ out.value
  stack : run.value.stack = s.stack
  trace : run.trace = out.trace

namespace Writes

theorem pure (s : SheetState) : Writes s (pure s) (pure []) :=
  ⟨(List.append_nil _).symm, rfl, rfl⟩

/-- What is computed before anything is written is computed on both sides. -/
theorem bind {α : Type} {x : Traced α} {f : α → Traced SheetState} {g : α → Traced Text}
    (h : Writes s (f x.value) (g x.value)) : Writes s (x >>= f) (x >>= g) :=
  ⟨h.text, h.stack, congrArg (x.trace ++ ·) h.trace⟩

/-- The signals that follow write from a state with the same things open. -/
theorem append {first rest : List Signal} {out more : Traced Text}
    (h : Writes s (runSheet ctx s first) out)
    (hrest : ∀ s' : SheetState, s'.stack = s.stack →
      Writes s' (runSheet ctx s' rest) more) :
    Writes s (runSheet ctx s (first ++ rest)) (do
      let own ← out; let more ← more; Pure.pure (own ++ more)) := by
  have hmore := hrest _ h.stack
  rw [runSheet_append]
  constructor
  · rw [Traced.value_bind, hmore.text, h.text, List.append_assoc]
    rfl
  · rw [Traced.value_bind, hmore.stack, h.stack]
  · rw [Traced.trace_bind, hmore.trace, h.trace, Traced.trace_bind, Traced.trace_bind,
      Traced.trace_pure, List.append_nil]

end Writes

/-- The end of a ruleset writes its groups. -/
theorem writes_endRuleset (ctx : SheetContext) (s : SheetState) (selection : Selection)
    (ds : List Declaration) :
    Writes s ((s.push (.ruleset selection ds)).endRuleset ctx)
      (groupTexts ctx.schema selection ds) := by
  rw [← flatten_rulesetTexts]
  exact .bind (have h := s.text_foldl_write _; ⟨h.1, h.2, rfl⟩)

theorem runSheet_ruleset (hs : s.isEliding = false) (selector : List Token)
    (body : List Signal) :
    runSheet ctx s (.event (.startRuleset selector) :: (body ++ [.event .endRuleset])) =
      (do
        let selection ← sanitizeSelectors { confinement := ctx.confinement } selector
        let marker : Marker :=
          if selection.isEmpty then .elided else .ruleset selection []
        let state ← runSheet ctx (s.push marker) body
        state.endRuleset ctx) := by
  simp [SheetState.step, SheetState.startRuleset, hs, runSheet_append, runSheet]

/-- A ruleset with selectors writes what is left of its body. -/
theorem writes_body (ctx : SheetContext) (s : SheetState) (selection : Selection)
    {body : List Signal} (hbody : ∀ signal ∈ body, signal.isInBody) :
    Writes s (runSheet ctx (s.push (.ruleset selection [])) body >>=
      SheetState.endRuleset ctx) (do
      let kept ← Traced.collect (declaredBy ctx.values) body
      groupTexts ctx.schema selection kept.flatten) := by
  rw [runSheet_body ctx s selection hbody, bind_assoc]
  simp only [pure_bind, List.nil_append]
  exact .bind (writes_endRuleset ctx s selection _)

theorem writes_ruleset (hs : s.isEliding = false) (selector : List Token)
    (declarations : List (Text × List Token)) :
    Writes s (runSheet ctx s
        (.event (.startRuleset selector) :: (declarationsSignals declarations ++
          [.event .endRuleset])))
      (rulesetText ctx selector declarations) := by
  rw [runSheet_ruleset hs]
  refine .bind ?_
  by_cases hempty : (sanitizeSelectors { confinement := ctx.confinement }
    selector).value.isEmpty
  · simp only [if_pos hempty, runSheet_declarations_elided, pure_bind]
    exact .pure s
  · simp only [if_neg hempty]
    rw [← collect_declaredBy_declarationsSignals]
    exact writes_body ctx s _ (isInBody_of_mem_declarationsSignals declarations)

/-! ## Rules -/

/-- The marker of an at-rule with the given media. -/
def Marker.ofMedia : Option Text → Marker
  | none => .elided
  | some media => .atRule ("@media " ++ media)

theorem startAtRule_eq_mediaHeader (hlevels : ctx.importLevels = none)
    (hs : s.isEliding = false) (name : Text) (header : List Token) :
    s.startAtRule ctx name header = (do
      let media ← mediaHeader ctx name header
      pure { state := s.push (.ofMedia media) }) := by
  unfold SheetState.startAtRule mediaHeader
  rw [if_neg (by simp [hs])]
  split
  · rw [bind_assoc]
    refine congrArg _ (funext fun media => ?_)
    cases media <;> rfl
  · split
    · rw [importRequest, hlevels]
      rfl
    · rfl

/-- The header of a media rule is written when its block begins. -/
theorem SheetState.text_startBlock_push (s : SheetState) (header : Text) :
    (s.push (.atRule header)).startBlock.text = s.text ++ (header ++ ['\x7b']) :=
  SheetState.text_write (s.push (.atRule header)) _

/-- The end of the block of a media rule is written, and then the rule ends as well. -/
theorem SheetState.text_pop_endBlock {header : Text} {stack : List Marker}
    (h : s.stack = .atRule header :: stack) :
    s.endBlock.pop.text = s.text ++ ['\x7d'] ∧ s.endBlock.pop.stack = stack := by
  obtain ⟨parts, _⟩ := s
  cases h
  exact ⟨SheetState.text_write _ _, rfl⟩

/-- The block of an at-rule writes the header, what the rules in it write, and its end. -/
theorem writes_block {body : Rules} {out : Traced Text}
    (hbody : ∀ s : SheetState, s.isEliding = false →
      Writes s (runSheet ctx s body.signals) out)
    (s : SheetState) (media : Option Text) :
    Writes s (runSheet ctx (s.push (.ofMedia media)) (.event .startBlock ::
        (body.signals ++ [.event .endBlock, .event .endAtRule])))
          (mediaRuleText media out) := by
  have hrun : runSheet ctx (s.push (.ofMedia media)) (.event .startBlock ::
        (body.signals ++ [.event .endBlock, .event .endAtRule])) = (do
      let state ← runSheet ctx (s.push (.ofMedia media)).startBlock body.signals
      pure state.endBlock.pop) := by
    rw [runSheet_event, SheetState.step, pure_bind, runSheet_append]
    rfl
  rw [hrun]
  cases media with
  | none =>
    have hinside : (s.push (.ofMedia none)).isEliding := by simp [Marker.ofMedia]
    rw [SheetState.startBlock_of_isEliding hinside,
      runSheet_eq_pure_of_isEliding body hinside, pure_bind,
      SheetState.endBlock_of_isEliding hinside]
    exact .pure s
  | some media =>
    -- the header is written when the block opens, so the rules in
    -- it write after the header
    have hinner := hbody (s.push (.ofMedia (some media))).startBlock rfl
    obtain ⟨htext, hstack⟩ := SheetState.text_pop_endBlock hinner.stack
    constructor
    · have hheader : (s.push (.ofMedia (some media))).startBlock.text =
          s.text ++ (("@media " : Text) ++ media ++ ['\x7b']) := s.text_startBlock_push _
      show (runSheet ctx _ body.signals).value.endBlock.pop.text =
        s.text ++ (("@media " : Text) ++ media ++ '\x7b' :: out.value ++ ['\x7d'])
      rw [htext, hinner.text, hheader]
      simp only [List.append_assoc, List.cons_append, List.nil_append]
    · exact hstack
    · rw [Traced.trace_bind, Traced.trace_pure, hinner.trace]
      rfl

namespace Rules

/-- Rules that stand where something is written write what the function gives. -/
theorem writes_signals (hlevels : ctx.importLevels = none) (rules : Rules) :
    ∀ s : SheetState, s.isEliding = false →
      Writes s (runSheet ctx s rules.signals) (rules.sanitized ctx) := by
  induction rules with
  | nil => exact fun s _ => .pure s
  | atRule name header rest ih =>
    intro s hs
    rw [signals_atRule, List.cons_append, runSheet_event, SheetState.step,
      startAtRule_eq_mediaHeader hlevels hs, bind_assoc]
    exact .bind (ih s hs)
  | block name header body rest ihbody ihrest =>
    intro s hs
    rw [signals_block, sanitized, ← bind_assoc]
    -- the rest is read in another state, of which only the stack is
    -- known; it decides about eliding
    refine .append ?_ fun s' hstack =>
      ihrest s' ((SheetState.isEliding_congr hstack).trans hs)
    rw [runSheet_event, SheetState.step, startAtRule_eq_mediaHeader hlevels hs,
      bind_assoc]
    exact .bind (writes_block ihbody s _)
  | ruleset selector declarations rest ih =>
    intro s hs
    rw [signals_ruleset, sanitized]
    exact .append (writes_ruleset hs selector declarations) fun s' hstack =>
      ih s' ((SheetState.isEliding_congr hstack).trans hs)

end Rules

/-! ## Sheets -/

theorem runSheet_startSheet (ctx : SheetContext) (s : SheetState) (rest : List Signal) :
    runSheet ctx s (.event .startSheet :: rest) = runSheet ctx .start rest := by
  rw [runSheet_event, SheetState.step, pure_bind]

/-- A sheet of rules, in two parts: after the first part nothing is open, and in the end
the text is that of the first part and then that of the second part, with all that is
reported and asked. Inside of a rule that is not written nothing of this happens. -/
theorem runSheet_rules (ctx : SheetContext) (s : SheetState) (before after : Rules) :
    let ctx := { ctx with importLevels := none }
    let opening := .event .startSheet :: before.signals
    let sheet := runSheet ctx s (opening ++ after.signals ++ [.event .endSheet])
    (runSheet ctx s opening).value.stack = [] ∧
      sheet.value.stack = [] ∧
      sheet.value.text = (before.sanitized ctx).value ++ (after.sanitized ctx).value ∧
      sheet.trace = (before.sanitized ctx).trace ++ (after.sanitized ctx).trace ∧
      ∀ inside : SheetState, inside.isEliding →
        runSheet ctx inside before.signals = pure inside := by
  intro ctx opening sheet
  have hbefore : Writes .start (runSheet ctx .start before.signals)
      (before.sanitized ctx) :=
    before.writes_signals rfl .start rfl
  have hboth := hbefore.append fun s' hstack =>
    after.writes_signals rfl s' (SheetState.isEliding_congr hstack)
  have hsheet : sheet = (do
      let state ← runSheet ctx .start (before.signals ++ after.signals)
      pure { state with stack := [] }) := by
    show runSheet ctx s (.event .startSheet :: before.signals ++ after.signals ++
      [.event .endSheet]) = _
    rw [List.cons_append, List.cons_append, runSheet_startSheet, runSheet_append]
    rfl
  refine ⟨?_, ?_, ?_, ?_, fun inside h => runSheet_eq_pure_of_isEliding before h⟩
  · rw [runSheet_startSheet, hbefore.stack]
    rfl
  · rw [hsheet]
    rfl
  · rw [hsheet]
    exact hboth.text
  · rw [hsheet, Traced.trace_bind, hboth.trace, Traced.trace_bind, Traced.trace_bind]
    simp

/-! ## Texts of sheets -/

/-- Issues between the events do not change what is written. -/
theorem value_runSheet_events (ctx : SheetContext) (s : SheetState)
    (signals : List Signal) :
    (runSheet ctx s signals).value =
      (runSheet ctx s ((events signals).map .event)).value := by
  induction signals generalizing s with
  | nil => rfl
  | cons signal signals ih =>
    cases signal with
    | issue cause => exact ih s
    | event e => exact ih _

/-- Every sheet consists of rules, and it is sanitized as they are. -/
theorem exists_value_sanitizeSheet (ctx : SheetContext) (css : Text) :
    ∃ rules : Rules,
      events (sheetSignals (lex css).value) = .startSheet :: rules.events ++ [.endSheet] ∧
      (sanitizeSheet ctx css).value =
        (rules.sanitized { ctx with importLevels := none }).value := by
  obtain ⟨rules, hrules, -⟩ := exists_rules (lex css).value
  refine ⟨rules, by rw [events_sheetSignals, hrules], ?_⟩
  rw [value_sanitizeSheet, value_runSheet_events, hrules]
  exact (rules.writes_signals rfl .start rfl).text

end CssGuard
