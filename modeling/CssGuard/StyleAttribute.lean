import CssGuard.Declaration
import CssGuard.Event.Declarations

/-!
# Style attributes

A style attribute is a list of declarations without selectors and blocks.

- `declarationText`: the text of one declaration
- `collectDeclarations`: the text of declarations read from
  tokens (`_DeclarationCollector`)
- `sanitizeStyleAttribute`: the sanitized text of a style attribute
  (`sanitize_style_attribute`)
-/

namespace CssGuard

/-- The text of what a signal declares. -/
def declarationText (ctx : ValueContext) : Signal → Traced Text
  | .issue cause => Traced.reporting cause []
  | .event (.declaration name value) => do
    let declaration ← sanitizeDeclaration ctx name value
    pure (declaration.toList.flatMap Declaration.render)
  | .event _ => pure []

/-- The text of declarations given as tokens. -/
def collectDeclarations (ctx : ValueContext) (tokens : List Token) : Traced Text := do
  let texts ← Traced.collect (declarationText ctx) (declarationSignals tokens)
  pure texts.flatten

/-- The configuration of a style attribute as it is given. -/
structure AttributeSettings where
  policy : Hook Url.Policy
  base : Option Text
  schema : Schema := defaultSchema
  idSuffix : Option Text

/-- Sanitizes a style attribute. -/
def sanitizeStyleAttribute (s : AttributeSettings) (css : Text) :
    Except Misuse (Traced Text) := do
  let policy ← s.policy.checked "url_policy"
  .ok do
    let tokens ← lex css
    collectDeclarations ⟨policy, s.base, s.schema, s.idSuffix⟩ tokens

end CssGuard
