import CssGuard.Sheet.Basic

/-!
# Sanitizing sheets

A whole sheet without imports: its text is lexed, read and sanitized.

- `runSheet`: the signals of a sheet, one after the other
- `sanitizeSheet`: the sanitized text of a sheet (`sanitize_stylesheet`)
- `SheetSettings`: a configuration as it is given, and its check
- `replay`: events of any origin, with the state after each
-/

namespace CssGuard

/-- The text of output in which imported sheets have the given texts. -/
def partsText (imported : Nat → Text) (parts : List Part) : Text :=
  parts.flatMap fun
    | .text t => t
    | .slot number => imported number

/-- The output of a sheet without imports. -/
def SheetState.text (s : SheetState) : Text :=
  partsText (fun _ => []) s.parts

/-- Takes signals, with the issues among them in their place. -/
def runSheet (ctx : SheetContext) (s : SheetState) : List Signal → Traced SheetState
  | [] => pure s
  | .issue cause :: rest => do
    Traced.report cause
    runSheet ctx s rest
  | .event e :: rest => do
    let step ← s.step ctx e
    runSheet ctx step.state rest

/-- The sanitized text of a style sheet whose imports are dropped. -/
def sanitizeSheet (ctx : SheetContext) (css : Text) : Traced Text := do
  let tokens ← lex css
  let state ← runSheet { ctx with importLevels := none } .start (sheetSignals tokens)
  pure state.text

/-! ## Configurations -/

/-- The configuration of a sheet as it is given. -/
structure SheetSettings where
  confinement : Option Confinement
  policy : Hook Url.Policy
  schema : Schema := defaultSchema
  mediaTypes : List Text := CssGuard.mediaTypes
  base : Option Text

/-- What the sheet depends on, if the configuration can be used. -/
def SheetSettings.check (s : SheetSettings) : Except Misuse SheetContext := do
  let confinement ← Confinement.required s.confinement
  let policy ← s.policy.checked "url_policy"
  .ok
    { confinement, policy, schema := s.schema, mediaTypes := s.mediaTypes,
      base := s.base }

/-- Sanitizes a style sheet whose imports are dropped. -/
def sanitizeStylesheet (s : SheetSettings) (css : Text) :
    Except Misuse (Traced Text) := do
  let ctx ← s.check
  .ok (sanitizeSheet ctx css)

/-! ## Events of any origin -/

/-- The event cannot be taken without a confinement. -/
def SheetState.needsConfinement (s : SheetState) : Event → Bool
  | .startRuleset _ => !s.isEliding
  | _ => false

/-- Takes events of any origin, balanced or not, and gives the state and the trace of
each. Without a confinement, the first event that needs one is refused. -/
def replay (ctx : Option Confinement → SheetContext) (confinement : Option Confinement)
    (s : SheetState) : List Event → Except Misuse (List (Traced SheetState))
  | [] => .ok []
  | e :: rest =>
    if confinement.isNone && s.needsConfinement e then .error .noConfinement
    else do
      let step := s.step (ctx confinement) e
      let more ← replay ctx confinement step.value.state rest
      .ok (⟨step.value.state, step.trace⟩ :: more)

end CssGuard
