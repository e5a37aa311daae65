import CssGuard.Import.Session

/-!
# Sheets with imports

A sheet whose imports are followed. Each import that is accepted becomes a
request, answered at once or later, in any order; the output always has the sheets
delivered so far in their places.

- `ImportContext`: what the sheets depend on, and which requests are answered at once
- `runWithImports`: the signals of a sheet, with a request for each import (`_import`)
- `deliver`: the text of a requested sheet (`on_result`)
- `Assembly`: the main sheet with its imports (`SanitizationResult`)
- `Assembly.begin`, `Assembly.deliver?`: the main sheet, and the answers to its requests
  (`sanitize_stylesheet_with_externals`)
-/

namespace CssGuard

/-- What a sheet and its imports depend on. -/
structure ImportContext where
  sheet : SheetContext
  /-- The text of a requested sheet, for the requests that are answered at once. -/
  prompt : Text → Option Text

/-- Makes a request, and answers it if that is done at once. -/
abbrev MakeRequest := ImportRequest → Session → Traced Session

/-- Takes the signals of a sheet, with a request for each import. -/
def runWithImports (ctx : SheetContext) (request : MakeRequest) :
    SheetState → Session → List Signal → Traced (SheetState × Session)
  | state, session, [] => pure (state, session)
  | state, session, .issue cause :: rest => do
    Traced.report cause
    runWithImports ctx request state session rest
  | state, session, .event e :: rest => do
    let step ← state.step ctx e
    match step.request with
    | none => runWithImports ctx request step.state session rest
    | some r =>
      let number := session.requests.length
      let session ← request r session
      runWithImports ctx request (step.state.addSlot number) session rest

/-- Makes a request from the sheet of request `parent`, or from the main sheet. If it is
answered at once, the answer goes to `answer`. -/
def makeRequest (ctx : ImportContext) (parent : Option Nat) (levels : Nat)
    (answer : Nat → Text → Session → Traced Session) : MakeRequest :=
  fun r session => do
    Traced.note (.requested r.uri)
    let number := session.requests.length
    let session := session.register parent levels r
    match ctx.prompt r.uri with
    | none => pure session
    | some css => answer number css session

/-- Sanitizes the text delivered for a request, given how its own requests are made. Only
the first text that is delivered counts. -/
def deliverWith (ctx : ImportContext) (levels : Nat) (request : MakeRequest)
    (number : Nat) (css : Text) (session : Session) : Traced Session :=
  match session.requests[number]? with
  | none => pure session
  | some r =>
    if r.isPending then do
      let sheet := { ctx.sheet with base := some r.uri, importLevels := some levels }
      let tokens ← lex css
      let (state, session) ← runWithImports sheet request .start session
        (sheetSignals tokens)
      session.close number state.parts
    else pure session

/-- Delivers the text of a sheet below which `levels` levels of sheets may be imported. -/
def deliver (ctx : ImportContext) :
    (levels : Nat) → (number : Nat) → Text → Session → Traced Session
  | 0, number, css, session =>
    deliverWith ctx 0 (fun _ session => pure session) number css session
  | levels + 1, number, css, session =>
    deliverWith ctx (levels + 1) (makeRequest ctx (some number) levels
      (deliver ctx levels)) number css session

/-! ## The main sheet -/

/-- The main sheet with its imports. -/
structure Assembly where
  parts : List Part
  session : Session

namespace Assembly

/-- The output with the imports delivered so far. -/
def text (a : Assembly) : Text :=
  a.session.textOf a.parts

/-- Some requests are not yet delivered. -/
def moreToCome (a : Assembly) : Bool :=
  a.session.pending > 0

/-- The result as a value. -/
def shown (a : Assembly) : Text :=
  "SanitizationResult(text=" ++ Text.quoted a.text ++ ", more_to_come="
    ++ (if a.moreToCome then "True" else "False") ++ ")"

/-- Sanitizes the main sheet, below which `levels` levels of sheets may be imported. -/
def begin (ctx : ImportContext) (levels : Nat) (css : Text) : Traced Assembly := do
  let request : MakeRequest := match levels with
    | 0 => fun _ session => pure session
    | levels + 1 => makeRequest ctx none levels (CssGuard.deliver ctx levels)
  let tokens ← lex css
  let (state, session) ← runWithImports { ctx.sheet with importLevels := some levels }
    request .start .start (sheetSignals tokens)
  pure ⟨state.parts, session⟩

/-- Sanitizes the main sheet, dropping its imports. -/
def withoutImports (ctx : SheetContext) (css : Text) : Traced Assembly := do
  let tokens ← lex css
  let state ← runSheet { ctx with importLevels := none } .start (sheetSignals tokens)
  pure ⟨state.parts, .start⟩

/-- Delivers a text to a request; there must be one with the number. -/
def deliver? (ctx : ImportContext) (a : Assembly) (number : Nat) (css : Text) :
    Option (Traced Assembly) :=
  (a.session.requests[number]?).map fun r => do
    let session ← CssGuard.deliver ctx r.levels number css a.session
    pure { a with session }

end Assembly

/-! ## Configurations -/

/-- The configuration of a sheet with imports as it is given. -/
structure ImportSettings where
  sheet : SheetSettings
  /-- Answers requests, some of them at once. -/
  fetcher : Hook (Text → Option Text)
  /-- Takes the text of complete imports. -/
  continuation : Hook Unit
  /-- How many levels of sheets may be imported. -/
  maxDepth : Int := 8

/-- What a sheet and its imports depend on, if the configuration can be used, and whether
imports are followed. That takes both a fetcher and a continuation. -/
def ImportSettings.check (s : ImportSettings) : Except Misuse (ImportContext × Bool) := do
  let sheet ← s.sheet.check
  let fetcher ← s.fetcher.checked "fetcher"
  let continuation ← s.continuation.checked "continuation"
  .ok (⟨sheet, fetcher.getD fun _ => none⟩, fetcher.isSome && continuation.isSome)

/-- Sanitizes a main sheet with the given configuration. -/
def ImportSettings.begin (s : ImportSettings) (css : Text) :
    Except Misuse (ImportContext × Traced Assembly) := do
  let (ctx, follows) ← s.check
  .ok (ctx, if follows then Assembly.begin ctx s.maxDepth.toNat css
    else Assembly.withoutImports ctx.sheet css)

end CssGuard
