import CssGuard.Value.Sanitize

/-!
# Declarations

A sanitized declaration, and what is left of the declarations of a rule that tells visited
links from others. A page can measure how such a rule draws its links, so only properties
that give nothing away are left.

- `Declaration`: a property and its value
- `sanitizeDeclaration`: a declaration of a sheet, with its mark of importance
  (`declaration`, `_split_important`)
- `filterHistory`: the declarations that are left in a rule about visited links
  (`filter_history_sensitive`)
-/

namespace CssGuard

open Text

/-- A property, by its name in the schema, and the tokens of its value. -/
structure Declaration where
  name : Text
  value : List Token
deriving DecidableEq

namespace Declaration

/-- The declaration as tokens. -/
def tokens (d : Declaration) : List Token :=
  d.name :: Token.colon :: d.value ++ [Token.semicolon]

/-- The text of a property and its value. -/
def text (name : Text) (value : List Token) : Text :=
  name ++ ':' :: joinValue value ++ [';']

/-- The text of the declaration. -/
def render (d : Declaration) : Text :=
  text d.name d.value

end Declaration

/-- A value without the mark of importance at its end, and whether it was there. -/
def splitImportant (value : List Token) : List Token × Bool :=
  match value.reverse with
  | last :: ['!'] :: rest =>
    if lower last = "important" then (rest.reverse, true) else (value, false)
  | _ => (value, false)

/-- The token that marks importance. -/
def importantMark : Token := "!important"

/-- Sanitizes a declaration; nothing is left of one without a value. -/
def sanitizeDeclaration (ctx : ValueContext) (name : Text) (value : List Token) :
    Traced (Option Declaration) := do
  let (value, important) := splitImportant value
  let kept ← sanitizeProperty ctx (lower name) value
  pure (if kept.isEmpty then none
    else some ⟨lower name, kept ++ if important then [importantMark] else []⟩)

/-! ## Visited links -/

/-- The property may be set for visited links. -/
def Schema.allowsInLink (s : Schema) (name : Text) : Bool :=
  (s.find? name).any (·.allows .inLink)

/-- Where the filter stands: between two declarations, or inside of one, of a property
that may be set for visited links or not, before or after the colon, and with the
tokens of the value so far. -/
inductive HistoryState where
  | between
  | inside (name : Text) (allowed seenColon : Bool) (value : List Token)

namespace HistoryState

/-- What is left of the declaration if it ends here. -/
def text : HistoryState → Text
  | between => []
  | inside name allowed _ value =>
    if allowed && !value.isEmpty then Declaration.text name value else []

/-- Reads a token of a declaration. The first one is the property, and the first colon
after it divides it from its value. -/
def step (s : Schema) (t : Token) : HistoryState → Traced HistoryState
  | between =>
    let name := lower t
    if s.allowsInLink name then pure (inside name true false [])
    else Traced.reporting (.historySensitiveProperty name) (inside name false false [])
  | inside name allowed seenColon value =>
    if t = Token.colon ∧ !seenColon then pure (inside name allowed true value)
    else pure (inside name allowed seenColon (if allowed then value ++ [t] else value))

end HistoryState

/-- Goes on with what is left of the declarations before, and
from where the filter stands. -/
def filterHistoryFrom (s : Schema) : Text → HistoryState → List Token → Traced Text
  | out, state, [] => pure (out ++ state.text)
  | out, state, t :: rest =>
    if t = Token.semicolon then filterHistoryFrom s (out ++ state.text) .between rest
    else if t = Token.space then filterHistoryFrom s out state rest
    else do
      let state ← state.step s t
      filterHistoryFrom s out state rest

/-- What is left of declarations given as tokens, each ended by a semicolon. -/
def filterHistory (s : Schema) (tokens : List Token) : Traced Text :=
  filterHistoryFrom s [] .between tokens

end CssGuard
