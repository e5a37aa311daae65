import CssGuard.Arguments
import CssGuard.Sheet.Sanitize

/-!
# Inspection

A look at all that happens to a style sheet: its tokens, its events, what was
dropped, and what is left of it.

- `eventLines`: events, indented by what is open (`EventPrinter`)
- `inspect`: the whole look (`debug_css`)
- `InspectArguments.read`: the arguments of the command line
-/

namespace CssGuard

open Text

/-- Text and the newline that ends it. -/
def line (t : Text) : Text :=
  t ++ ['\n']

/-! ## Events -/

/-- An event as it is listed. -/
def Event.shown : Event → Text
  | .startSheet => "start_stylesheet"
  | .endSheet => "end_stylesheet"
  | .startAtRule name header => "start_atrule " ++ quoted name ++ " " ++ quotedList header
  | .endAtRule => "end_atrule"
  | .startBlock => "start_block"
  | .endBlock => "end_block"
  | .startRuleset selector => "start_ruleset " ++ quotedList selector
  | .endRuleset => "end_ruleset"
  | .declaration name value => "declaration " ++ quoted name ++ " " ++ quotedList value

/-- The event opens something. -/
def Event.opens : Event → Bool
  | .startSheet | .startAtRule .. | .startBlock | .startRuleset _ => true
  | _ => false

/-- The event closes something. -/
def Event.closes : Event → Bool
  | .endSheet | .endAtRule | .endBlock | .endRuleset => true
  | _ => false

/-- Events, each on a line that is indented by what is open. -/
def eventLines (depth : Nat) : List Event → Text
  | [] => []
  | e :: rest =>
    let depth := if e.closes then depth - 1 else depth
    line (List.replicate (2 * depth) ' ' ++ e.shown)
      ++ eventLines (if e.opens then depth + 1 else depth) rest

/-! ## The whole look -/

/-- What an inspection gives. -/
structure Inspection where
  /-- What is printed. -/
  output : Text
  /-- What happened while the tokens and the events were listed. -/
  trace : Trace
  /-- Why the sheet was not sanitized. -/
  misuse : Option Misuse

/-- The arguments of an inspection. -/
structure InspectArguments where
  css : Option Text := none
  base : Option Text := none
  idSuffix : Option Text := none
  containerClass : Option Text := none

/-- A setting that is a text or absent. -/
def Setting.ofOption : Option Text → Setting
  | none => .absent
  | some t => .text t

/-- The numbered tokens. -/
def tokenLines (tokens : List Token) : Text :=
  tokens.zipIdx.flatMap fun (t, i) =>
    line ("  " ++ padded ' ' 3 (decimal i) ++ ": " ++ quoted t)

/-- What was dropped, or that nothing was. -/
def droppedLines (trace : Trace) : Text :=
  match trace.diagnostics with
  | [] => line "  (nothing)"
  | list => list.flatMap fun d => line ("  " ++ d.summary)

/-- Lists the tokens and events of a style sheet, then sanitizes it with a
policy that accepts every URL. -/
def inspect (a : InspectArguments) : Inspection :=
  let css := a.css.getD []
  let tokens := lex css
  let signals := sheetSignals tokens.value
  let listing := line ("Input: " ++ (Setting.ofOption a.css).shown)
    ++ line "\nTokens:" ++ tokenLines tokens.value
    ++ line "\nEvents:" ++ eventLines 0 (events signals)
  let trace := tokens.trace ++ tokens.trace ++ (issues signals).map Notice.issue
  match Confinement.ofSettings
      { idSuffix := .ofOption a.idSuffix,
        containerClass := .ofOption a.containerClass } with
  | .error misuse => ⟨listing, trace, some misuse⟩
  | .ok confinement =>
    let policy : Url.Policy := fun uri _ => some uri
    let result := sanitizeSheet { confinement, policy, base := a.base } css
    let dropped := line "\nDropped:" ++ droppedLines result.trace
    ⟨listing ++ dropped ++ line ("\nOutput: " ++ quoted result.value), trace, none⟩

/-! ## The command line -/

/-- The options of the command. -/
def inspectOptions : OptionNames :=
  { valued := ["--base-uri", "--id-suffix", "--container-class"] }

namespace InspectArguments

/-- The arguments with the option of a name set. -/
def set (a : InspectArguments) (name : Text) (value : Option Text) : InspectArguments :=
  if name = "--base-uri" then { a with base := value }
  else if name = "--id-suffix" then { a with idSuffix := value }
  else if name = "--container-class" then { a with containerClass := value }
  else a

/-- The arguments with one more of a command line; an operand is the style sheet. -/
def add (a : InspectArguments) : Argument → InspectArguments
  | .operand css => { a with css := some css }
  | .option name value => a.set name value

/-- Reads the arguments of a command line. -/
def read (args : List Text) : InspectArguments :=
  (inspectOptions.read args).foldl add {}

/-- The arguments with a style sheet, which is the given one if there is none yet. -/
def withInput (a : InspectArguments) (input : Text) : InspectArguments :=
  { a with css := some (a.css.getD input) }

end InspectArguments

end CssGuard
