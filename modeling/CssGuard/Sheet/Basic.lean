import CssGuard.Declaration
import CssGuard.Event.Statements
import CssGuard.Media
import CssGuard.Selector.List

/-!
# Sheets under sanitization

A sheet is sanitized event by event. What is open is known by a stack of markers; rulesets
are written when they end, because only then all their declarations are known.

- `SheetContext`: what a sheet depends on
- `Part`: a piece of the output, or the place of an imported sheet
- `Marker`, `SheetState`: what is open, and the output so far
- `importRequest`: what an `@import` rule asks for (`_import`)
- `SheetState.step`: one event (`StylesheetSanitizer`)
-/

namespace CssGuard

open Text

/-- What a sheet depends on. -/
structure SheetContext where
  confinement : Confinement
  policy : Option Url.Policy
  schema : Schema := defaultSchema
  mediaTypes : List Text := CssGuard.mediaTypes
  /-- The URL of the sheet. -/
  base : Option Text
  /-- How many levels of sheets may be imported below this one; without
  it no import is followed. -/
  importLevels : Option Nat := none

/-- What the values of a sheet depend on. -/
def SheetContext.values (ctx : SheetContext) : ValueContext :=
  ⟨ctx.policy, ctx.base, ctx.schema, some ctx.confinement.idSuffix⟩

/-- A piece of the output. -/
inductive Part where
  /-- Sanitized text. -/
  | text (t : Text)
  /-- The place of the imported sheet with the given number. -/
  | slot (number : Nat)
deriving DecidableEq

/-- What is open. -/
inductive Marker where
  /-- Something of which nothing is written. -/
  | elided
  /-- An at-rule with the given header. -/
  | atRule (header : Text)
  /-- A ruleset, with its selectors and the declarations so far. -/
  | ruleset (selection : Selection) (declarations : List Declaration)
deriving DecidableEq

/-- The state of a sheet. -/
structure SheetState where
  /-- The output so far. -/
  parts : List Part
  /-- What is open, innermost first. -/
  stack : List Marker
deriving DecidableEq

/-- What an `@import` rule asks for. -/
structure ImportRequest where
  uri : Text
  /-- The media that the imported sheet is for, if there are any. -/
  media : Option Text
deriving DecidableEq

namespace SheetState

/-- The state before the first event. -/
def start : SheetState := ⟨[], []⟩

/-- Whatever comes is not written. -/
def isEliding (s : SheetState) : Bool :=
  s.stack.head? = some .elided

/-- The state with one more thing open. -/
def push (m : Marker) (s : SheetState) : SheetState :=
  { s with stack := m :: s.stack }

/-- The state without the innermost open thing. -/
def pop (s : SheetState) : SheetState :=
  { s with stack := s.stack.tail }

/-- The state with more output. -/
def write (t : Text) (s : SheetState) : SheetState :=
  { s with parts := s.parts ++ [.text t] }

/-- The state with the place of an imported sheet. -/
def addSlot (number : Nat) (s : SheetState) : SheetState :=
  { s with parts := s.parts ++ [.slot number] }

/-- Texts that are written one by one. -/
theorem foldl_write (s : SheetState) (ts : List Text) :
    ts.foldl (fun s t => s.write t) s = { s with parts := s.parts ++ ts.map .text } := by
  induction ts generalizing s with
  | nil => simp
  | cons t ts ih =>
    rw [List.foldl_cons, ih]
    simp [write]

end SheetState

/-! ## Imports -/

/-- The target of an `@import` rule: a string or a URL. -/
def importTarget? (t : Token) : Option Text :=
  (t.stringBody?.or t.urlBody?).map Escape.decode

/-- The media of an `@import` rule, from what follows its target. -/
def importMedia (ctx : SheetContext) (target : Text) (tokens : List Token) :
    Traced (Option (Option Text)) :=
  if tokens.all (· = Token.space) then pure (some none)
  else do
    let media ← filterMedia ctx.mediaTypes tokens
    if media.isEmpty then Traced.reporting (.importWithoutMedia target) none
    else pure (some (some media))

/-- The request of an `@import` rule with a target, if it is within reach
and the policy accepts it. -/
def importTarget (ctx : SheetContext) (levels : Nat) (target : Text)
    (tokens : List Token) : Traced (Option ImportRequest) := do
  match ← importMedia ctx target tokens with
  | none => pure none
  | some media =>
    match levels with
    | 0 => Traced.reporting (.importTooDeep target) none
    | _ + 1 =>
      match ← Url.accept ctx.policy (Url.resolve ctx.base target) "@import" with
      | none => Traced.reporting (.rejectedImport target) none
      | some uri => pure (some ⟨uri, media⟩)

/-- The request of an `@import` rule, if there is to be one. -/
def importRequest (ctx : SheetContext) (s : SheetState) (header : List Token) :
    Traced (Option ImportRequest) :=
  match ctx.importLevels with
  | none => Traced.reporting .importWithoutFetcher none
  | some levels =>
    if s.stack.isEmpty then
      match header.dropWhile (· = Token.space) with
      | [] => Traced.reporting .malformedImport none
      | first :: rest =>
        match importTarget? first with
        | none => Traced.reporting .malformedImport none
        | some target => importTarget ctx levels target rest
    else Traced.reporting .misplacedImport none

/-! ## Events -/

/-- The state after an event, and the sheet it asks for. -/
structure SheetStep where
  state : SheetState
  request : Option ImportRequest := none

/-- Opens an at-rule. Only `@media` and `@import` are understood; of any other at-rule
nothing is written, its block included. -/
def SheetState.startAtRule (ctx : SheetContext) (s : SheetState) (name : Text)
    (header : List Token) : Traced SheetStep :=
  if s.isEliding then pure { state := s.push .elided }
  else if name = "@media" then do
    let media ← filterMedia ctx.mediaTypes header
    if media.isEmpty then
      Traced.reporting .mediaRuleWithoutMedia { state := s.push .elided }
    else pure { state := s.push (.atRule ("@media " ++ media)) }
  else if name = "@import" then do
    let request ← importRequest ctx s header
    pure { state := s.push .elided, request }
  else Traced.reporting (.disallowedAtRule name) { state := s.push .elided }

/-- Opens the block of an at-rule. -/
def SheetState.startBlock (s : SheetState) : SheetState :=
  match s.stack with
  | .atRule header :: _ => s.write (header ++ ['\x7b'])
  | _ => s

/-- Closes the block of an at-rule; what follows before the end of
the rule does not belong to it.
-/
def SheetState.endBlock (s : SheetState) : SheetState :=
  match s.stack with
  | .atRule _ :: _ => (s.write ['\x7d']).pop.push .elided
  | _ => s

/-- Opens a ruleset. -/
def SheetState.startRuleset (ctx : SheetContext) (s : SheetState)
    (selector : List Token) : Traced SheetState :=
  if s.isEliding then pure (s.push .elided)
  else do
    let selection ← sanitizeSelectors { confinement := ctx.confinement } selector
    pure (s.push (if selection.isEmpty then .elided else .ruleset selection []))

/-- The text of a ruleset, if it has selectors and declarations. -/
def ruleText (selectors : List Text) (body : Text) : List Text :=
  if selectors.isEmpty || body.isEmpty then []
  else [joined ", " selectors ++ '\x7b' :: body ++ ['\x7d']]

/-- The texts of a ruleset: for the selectors that say nothing about visited links all
declarations, for the others those that are left. -/
def rulesetTexts (schema : Schema) (selection : Selection)
    (declarations : List Declaration) : Traced (List Text) :=
  let plain := ruleText selection.insensitive (declarations.flatMap Declaration.render)
  if selection.sensitive.isEmpty || declarations.isEmpty then pure plain
  else do
    let body ← filterHistory schema (declarations.flatMap Declaration.tokens)
    pure (plain ++ ruleText selection.sensitive body)

/-- Closes a ruleset, which is written unless it is empty. -/
def SheetState.endRuleset (ctx : SheetContext) (s : SheetState) : Traced SheetState :=
  match s.stack with
  | .ruleset selection declarations :: _ => do
    let texts ← rulesetTexts ctx.schema selection declarations
    pure (texts.foldl (fun s t => s.write t) s.pop)
  | _ => pure s.pop

/-- Adds a declaration to an open ruleset. -/
def SheetState.declare (ctx : SheetContext) (s : SheetState) (name : Text)
    (value : List Token) : Traced SheetState :=
  match s.stack with
  | .ruleset selection declarations :: stack => do
    let declaration ← sanitizeDeclaration ctx.values name value
    pure { s with stack := .ruleset selection (declarations ++
      declaration.toList) :: stack }
  | _ => pure s

/-- Takes an event. -/
def SheetState.step (ctx : SheetContext) (s : SheetState) : Event → Traced SheetStep
  | .startSheet => pure { state := .start }
  | .endSheet => pure { state := { s with stack := [] } }
  | .startAtRule name header => s.startAtRule ctx name header
  | .endAtRule => pure { state := s.pop }
  | .startBlock => pure { state := s.startBlock }
  | .endBlock => pure { state := s.endBlock }
  | .startRuleset selector => do
    let state ← s.startRuleset ctx selector
    pure { state }
  | .endRuleset => do
    let state ← s.endRuleset ctx
    pure { state }
  | .declaration name value => do
    let state ← s.declare ctx name value
    pure { state }

end CssGuard
