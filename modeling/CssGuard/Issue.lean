import CssGuard.Text.Quoted

/-!
# Issues

Everything that is dropped is reported. An `Issue` is the cause, with what is needed to
describe it; its code, its wording and its place in the text are read off by three
functions, and a `Diagnostic` is the record that a report holds.

- `Issue`: why something was dropped
- `Issue.code`, `Issue.wording`, `Issue.position?`: the stable
  code, the sentence, the place
- `Diagnostic`, `Diagnostic.summary`, `Diagnostic.shown`: a report entry and its two
  textual forms (`ParseError`)
- `Misuse`: a configuration that is refused before any text is
  looked at (`CssSanitizerError`)
-/

namespace CssGuard

/-- A token is its normalized text. -/
abbrev Token := Text

/-- A place in a text: line and column, both counted from one. -/
structure Position where
  line : Nat
  column : Nat
deriving DecidableEq

namespace Position

/-- The first character of a text. -/
def start : Position := ⟨1, 1⟩

/-- The place after a character. -/
def next (p : Position) (c : Char) : Position :=
  if c = '\n' then ⟨p.line + 1, 1⟩ else ⟨p.line, p.column + 1⟩

/-- The place after a text. -/
def advance (p : Position) (t : Text) : Position :=
  t.foldl next p

end Position

/-- Why something was dropped. -/
inductive Issue where
  /-- A comment runs to the end of the text. -/
  | unterminatedComment (position : Position)
  /-- A string ends with its line or with the text. -/
  | unterminatedString (position : Position)
  /-- A number is followed by a name that is no unit. -/
  | badUnit (position : Position) (unit : Text)
  /-- A character begins no token. -/
  | unexpectedCharacter (position : Position) (c : Char)
  /-- An at-rule has neither a semicolon nor a block. -/
  | unterminatedAtRule (name : Token)
  /-- An at-rule would open one block too many. -/
  | blocksTooDeep (name : Token) (depth : Nat)
  /-- A selector leaves a bracket open. -/
  | unbalancedSelector
  /-- A selector is not followed by a block. -/
  | selectorWithoutBlock
  /-- A declaration does not begin with a name. -/
  | declarationWithoutName (token : Token)
  /-- A property name is not followed by a colon. -/
  | declarationWithoutColon (name : Token)
  /-- A declaration has a block in its value. -/
  | declarationWithBlock (name : Token)
  /-- The schema does not know the property. -/
  | unknownProperty (name : Text)
  /-- A URL of a value was refused. -/
  | rejectedUrl (property uri : Text)
  /-- A call is not closed. -/
  | unterminatedCall (opener : Token)
  /-- A call stands inside too many others. -/
  | callsTooDeep (opener : Token) (depth : Nat)
  /-- The property does not permit the function. -/
  | disallowedCall (opener : Token) (property : Text)
  /-- The property does not permit the token. -/
  | disallowedValue (token : Token) (property : Text)
  /-- The element `html` is selected as an ancestor. -/
  | htmlAncestor
  /-- One of `:root` and `:scope` is selected as an ancestor. -/
  | rootAncestor (pseudo : Text)
  /-- The tag policy refuses the element. -/
  | disallowedElement (element : Text)
  /-- The name after `#` is not allowed. -/
  | badId (token : Token)
  /-- The name after `.` is not allowed. -/
  | badClass (name : Token)
  /-- Something follows a pseudo-class. -/
  | pseudoNotLast
  /-- The token cannot stand in a compound selector. -/
  | strayInSelector (token : Token)
  /-- The pseudo-class or pseudo-element is not on the list. -/
  | disallowedPseudo (pseudo : Text)
  /-- One of `:link` and `:visited` stands on an element that is no link. -/
  | historyPseudoOn (name element : Text)
  /-- A `[` is not closed. -/
  | unclosedAttribute
  /-- The brackets do not hold an attribute name. -/
  | namelessAttribute
  /-- The attribute is not known for the element. -/
  | disallowedAttribute (name : Text)
  /-- What follows the attribute name is no operator and value. -/
  | malformedAttribute (name : Text)
  /-- The value is neither a name nor a string. -/
  | badAttributeValue (name : Text) (value : Token)
  /-- The flag after the value is not `i`. -/
  | badAttributeFlag (name : Text) (flag : Token)
  /-- The test has no counterpart in a confined document. -/
  | untranslatableAttribute (name operator kind : Text)
  /-- A complex selector was dropped. -/
  | untranslatableSelector (selector : Text)
  /-- A media query is not on the list. -/
  | disallowedMediaQuery (query : Text)
  /-- No query of an `@media` rule is left. -/
  | mediaRuleWithoutMedia
  /-- No query of an `@import` rule is left. -/
  | importWithoutMedia (target : Text)
  /-- The at-rule is not understood. -/
  | disallowedAtRule (name : Text)
  /-- Imports are not followed. -/
  | importWithoutFetcher
  /-- An `@import` rule stands inside a block. -/
  | misplacedImport
  /-- An `@import` rule names no URL. -/
  | malformedImport
  /-- An `@import` rule stands in too deep a sheet. -/
  | importTooDeep (target : Text)
  /-- The URL of an `@import` rule was refused. -/
  | rejectedImport (target : Text)
  /-- The property could tell visited links from others. -/
  | historySensitiveProperty (name : Text)
deriving DecidableEq

namespace Issue

open Text

/-- The stable code of the cause. -/
def code : Issue → Text
  | unterminatedComment _ => "unterminated-comment"
  | unterminatedString _ => "unterminated-string"
  | badUnit .. => "bad-unit"
  | unexpectedCharacter .. => "unexpected-character"
  | unterminatedAtRule _ => "unterminated-at-rule"
  | blocksTooDeep .. | callsTooDeep .. => "nesting-too-deep"
  | unbalancedSelector | selectorWithoutBlock | badId _ | badClass _ | pseudoNotLast
  | strayInSelector _ | unclosedAttribute | namelessAttribute | malformedAttribute _
  | badAttributeValue .. | badAttributeFlag .. => "malformed-selector"
  | declarationWithoutName _ | declarationWithoutColon _ | declarationWithBlock _ =>
    "malformed-declaration"
  | unknownProperty _ => "unknown-property"
  | rejectedUrl .. | rejectedImport _ => "rejected-url"
  | unterminatedCall _ => "unterminated-function"
  | disallowedCall .. => "disallowed-function"
  | disallowedValue .. => "disallowed-value"
  | htmlAncestor | rootAncestor _ => "root-selector"
  | disallowedElement _ => "disallowed-element"
  | disallowedPseudo _ | historyPseudoOn .. => "disallowed-pseudo-class"
  | disallowedAttribute _ => "disallowed-attribute"
  | untranslatableAttribute .. => "untranslatable-attribute"
  | untranslatableSelector _ => "untranslatable-selector"
  | disallowedMediaQuery _ | mediaRuleWithoutMedia | importWithoutMedia _ =>
    "disallowed-media-query"
  | disallowedAtRule _ => "disallowed-at-rule"
  | importWithoutFetcher => "import-without-fetcher"
  | misplacedImport => "misplaced-import"
  | malformedImport => "malformed-import"
  | importTooDeep _ => "import-too-deep"
  | historySensitiveProperty _ => "history-sensitive-property"

/-- The sentence that describes the cause; some causes have none beyond their code. -/
def wording : Issue → Option Text
  | unterminatedComment _ | unterminatedString _ => none
  | badUnit _ unit => some ("Dropped number with unit " ++ quoted unit)
  | unexpectedCharacter _ c => some ("Dropped " ++ quoted [c])
  | unterminatedAtRule name => some ("Dropped " ++ name ++ " without ';' or block")
  | blocksTooDeep name depth =>
    some ("Dropped " ++ name ++ " nested " ++ decimal depth ++ " blocks deep")
  | unbalancedSelector => some "Dropped selector with unbalanced brackets"
  | selectorWithoutBlock => some "Dropped selector without a declaration block"
  | declarationWithoutName token =>
    some ("Dropped declaration starting with " ++ quoted token)
  | declarationWithoutColon name => some ("Dropped " ++ quoted name ++ " without ':'")
  | declarationWithBlock name => some ("Dropped " ++ quoted name ++ " containing a block")
  | unknownProperty name => some ("Dropped unknown property " ++ quoted name)
  | rejectedUrl property uri => some ("Dropped " ++ property ++ " URL " ++ quoted uri)
  | unterminatedCall opener => some ("Dropped unterminated " ++ opener ++ "...")
  | callsTooDeep opener depth =>
    some ("Dropped " ++ opener ++ "...) nested " ++ decimal depth ++ " calls deep")
  | disallowedCall opener property =>
    some ("Dropped " ++ opener ++ "...) in " ++ property)
  | disallowedValue token property =>
    some ("Dropped " ++ quoted token ++ " from " ++ property)
  | htmlAncestor => some "Dropped selector with html as an ancestor"
  | rootAncestor pseudo => some ("Dropped selector with " ++ pseudo ++ " as an ancestor")
  | disallowedElement element => some ("Dropped selector on <" ++ element ++ ">")
  | badId token => some ("Dropped selector with id " ++ quoted token)
  | badClass name => some ("Dropped selector with class " ++ quoted name)
  | pseudoNotLast => some "Dropped selector with a non-trailing pseudo-class"
  | strayInSelector token => some ("Dropped selector containing " ++ quoted token)
  | disallowedPseudo pseudo => some ("Dropped selector with " ++ pseudo)
  | historyPseudoOn name element =>
    some ("Dropped :" ++ name ++ " on <" ++ element ++ ">")
  | unclosedAttribute => some "Dropped selector with unclosed ["
  | namelessAttribute => some "Dropped malformed attribute selector"
  | disallowedAttribute name => some ("Dropped selector on attribute " ++ quoted name)
  | malformedAttribute name => some ("Dropped malformed [" ++ name ++ "] selector")
  | badAttributeValue name value =>
    some ("Dropped [" ++ name ++ "] selector with value " ++ quoted value)
  | badAttributeFlag name flag =>
    some ("Dropped [" ++ name ++ "] selector with flag " ++ quoted flag)
  | untranslatableAttribute name operator kind =>
    some ("Dropped [" ++ name ++ operator ++ "...] on a " ++ kind ++ " attribute")
  | untranslatableSelector selector => some ("Dropped selector " ++ quoted selector)
  | disallowedMediaQuery query => some ("Dropped media query " ++ quoted query)
  | mediaRuleWithoutMedia => some "Dropped @media rule with no allowed media"
  | importWithoutMedia target =>
    some ("Dropped @import " ++ quoted target ++ " with no allowed media")
  | disallowedAtRule name => some ("Dropped " ++ name ++ " rule")
  | importWithoutFetcher => some "Dropped @import without a fetcher"
  | misplacedImport => some "Dropped @import inside a block"
  | malformedImport => some "Dropped @import without a URL"
  | importTooDeep target | rejectedImport target =>
    some ("Dropped @import " ++ quoted target)
  | historySensitiveProperty name => some ("Dropped " ++ name ++ " from a :visited rule")

/-- The place of the cause; only the lexer knows one. -/
def position? : Issue → Option Position
  | unterminatedComment position | unterminatedString position | badUnit position _
  | unexpectedCharacter position _ => some position
  | _ => none

end Issue

/-! ## Diagnostics -/

/-- An entry of a report. Line and column may each be unknown. -/
structure Diagnostic where
  code : Text
  line : Option Int
  column : Option Int
  message : Text
deriving DecidableEq

namespace Diagnostic

open Text

/-- An entry whose message is the code when there is no other. -/
def make (code : Text) (line column : Option Int) (message : Option Text) : Diagnostic :=
  let message := message.getD []
  { code, line, column, message := if message.isEmpty then code else message }

/-- The entry that reports an issue. -/
def ofIssue (issue : Issue) : Diagnostic :=
  let place := issue.position?
  make issue.code (place.map fun p => p.line) (place.map fun p => p.column) issue.wording

/-- Two entries report the same thing when they agree up to the message. -/
def sameAs (a b : Diagnostic) : Bool :=
  a.code == b.code && a.line == b.line && a.column == b.column

/-- The entry on one line: place, code and message, without the parts that say nothing. -/
def summary (d : Diagnostic) : Text :=
  let place : Text := match d.line, d.column with
    | some line, some column =>
      "(" ++ decimalInt line ++ "," ++ decimalInt column ++ "): "
    | _, _ => []
  let message : Text := if d.message = d.code then [] else " - " ++ d.message
  place ++ d.code ++ message

/-- The entry as a value: its code, and its place when that is fully known. -/
def shown (d : Diagnostic) : Text :=
  let place : Text := match d.line, d.column with
    | some line, some column =>
      ", line=" ++ decimalInt line ++ ", column=" ++ decimalInt column
    | _, _ => []
  "ParseError(" ++ quoted d.code ++ place ++ ")"

end Diagnostic

/-! ## Misuse -/

/-- A value of a configuration, of whatever kind it was given. -/
inductive Setting where
  | absent
  | flag (value : Bool)
  | number (value : Int)
  | text (value : Text)
deriving DecidableEq

/-- A setting as a message shows it. -/
def Setting.shown : Setting → Text
  | absent => "None"
  | flag true => "True"
  | flag false => "False"
  | number value => Text.decimalInt value
  | text value => Text.quoted value

/-- Why a configuration is refused. -/
inductive Misuse where
  /-- The suffix for ids is no text of word characters and hyphens. -/
  | invalidIdSuffix (value : Setting)
  /-- The class of the container is no identifier. -/
  | invalidContainerClass (value : Setting)
  /-- What was given for the role cannot be called. -/
  | notCallable (role : Text)
  /-- No confinement was given. -/
  | noConfinement
  /-- A schema entry permits a function that has no entry. -/
  | unknownFunction (entry function : Text)
deriving DecidableEq

/-- The sentence that describes the misuse. -/
def Misuse.message : Misuse → Text
  | invalidIdSuffix value => "Invalid id suffix: " ++ value.shown
  | invalidContainerClass value => "Invalid container class: " ++ value.shown
  | notCallable role => role ++ " must be callable"
  | noConfinement => "virtualization must be a Virtualization instance"
  | unknownFunction entry function =>
    "Schema entry " ++ Text.quoted entry ++ " refers to unknown function " ++
      Text.quoted function

/-- A callback of a configuration: not given, given but of no use, or given. -/
inductive Hook (α : Type) where
  | absent
  | unusable
  | supplied (value : α)

/-- The callback, if one was given; one that is of no use is refused. -/
def Hook.checked {α : Type} (role : Text) : Hook α → Except Misuse (Option α)
  | absent => .ok none
  | unusable => .error (.notCallable role)
  | supplied value => .ok (some value)

end CssGuard
