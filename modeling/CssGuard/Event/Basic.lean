import CssGuard.Token

/-!
# Events

The structure of a style sheet as a sequence of events, with the issues met on the
way in their place among them.

- `Event`: a rule or block opens or closes, or a declaration is
  complete (`StylesheetHandler`)
- `Signal`: an event or an issue
- `events`, `issues`: the two kinds of signals apart
-/

namespace CssGuard

/-! ## Tokens with a meaning of their own -/

namespace Token

/-- The token that opens a block. -/
@[match_pattern] def openBrace : Token := ['\x7b']

/-- The token that closes a block. -/
@[match_pattern] def closeBrace : Token := ['\x7d']

/-- The token that ends a declaration or a rule without a block. -/
@[match_pattern] def semicolon : Token := [';']

/-- The token between a property and its value. -/
@[match_pattern] def colon : Token := [':']

/-- The token between the members of a list. -/
@[match_pattern] def comma : Token := [',']

/-- The token that closes a call. -/
@[match_pattern] def closeParen : Token := [')']

/-- The token ends with an opening parenthesis. -/
def opensParen (t : Token) : Bool :=
  t.getLast? = some '('

/-- The token begins an at-rule. -/
def isAt (t : Token) : Bool :=
  t.head? = some '@'

end Token

/-! ## Events and signals -/

/-- A step in the structure of a style sheet. -/
inductive Event where
  | startSheet
  | endSheet
  | startAtRule (name : Text) (header : List Token)
  | endAtRule
  | startBlock
  | endBlock
  | startRuleset (selector : List Token)
  | endRuleset
  | declaration (name : Text) (value : List Token)
deriving DecidableEq

/-- An event, or an issue met between two events. -/
inductive Signal where
  | event (e : Event)
  | issue (cause : Issue)
deriving DecidableEq

namespace Signal

/-- The event of a signal. -/
def event? : Signal → Option Event
  | event e => some e
  | issue _ => none

/-- The issue of a signal. -/
def issue? : Signal → Option Issue
  | event _ => none
  | issue cause => some cause

end Signal

/-- The events among signals, in order. -/
def events (signals : List Signal) : List Event :=
  signals.filterMap Signal.event?

/-- The issues among signals, in order. -/
def issues (signals : List Signal) : List Issue :=
  signals.filterMap Signal.issue?

end CssGuard
