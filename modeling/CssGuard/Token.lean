import CssGuard.Lexeme
import CssGuard.Text.Lower
import CssGuard.Trace

/-!
# Tokens

A token is a text in one of a few normal forms: strings always in double quotes and
escaped anew, URLs always with a string inside, names with the fewest escapes, and one
space for any run of white space and comments. The rest of the library looks at nothing
else.

- `Lexeme.token?`: the token of a lexeme, if it has one
- `Lexeme.issue?`: what is wrong with a lexeme
- `lex`: the tokens of a style sheet, with what was dropped on the way (`lex_css`)
-/

namespace CssGuard

open Text Escape

/-- The token for white space. -/
def Token.space : Token := [' ']

namespace Lexeme

/-- A unit of a number: a percent sign, or letters. -/
def isUnit (unit : Text) : Bool :=
  isLineOf (fun u => u = ['%'] || isRunOf isLetter u) unit

/-- The characters that are tokens by themselves. -/
def punctuation : List Char :=
  ['!', '%', '&', '(', ')', '*', '+', ',', '-', '.', '/', ':', ';', '<', '=', '>',
    '?', '@', '[', ']', '^', '\x7b', '|', '\x7d', '~']

/-- The token of a lexeme, in its normal form. -/
def token? (l : Lexeme) : Option Token :=
  match l.kind with
  | .blank | .openComment => some Token.space
  | .string body => some (quote (decode body))
  | .openString => none
  | .url target => some ("url(" ++ quote (decode target) ++ ")")
  | .codeRange => some (lower l.text)
  | .number digits unit =>
    if unit.isEmpty ∨ isUnit (decode unit) then some (digits ++ decode unit) else none
  | .atKeyword name => some ('@' :: escapeIdent (decode name))
  | .hash name => some ('#' :: escapeName (decode name))
  | .call name => some (escapeIdent (decode name) ++ "(")
  | .name name => some (escapeIdent (decode name))
  | .operator => some l.text
  | .delimiter c => if c ∈ punctuation then some [c] else none

/-- What is to be reported about a lexeme at a place. -/
def issue? (p : Position) (l : Lexeme) : Option Issue :=
  match l.kind with
  | .openComment => some (.unterminatedComment p)
  | .openString => some (.unterminatedString p)
  | .number _ unit =>
    if unit.isEmpty ∨ isUnit (decode unit) then none else some (.badUnit p (decode unit))
  | .delimiter c => if c ∈ punctuation then none else some (.unexpectedCharacter p c)
  | _ => none

end Lexeme

/-- A character after line breaks are made alike and NUL is replaced. -/
def cleanChar (c : Char) : Char :=
  if c = '\r' ∨ c = '\x0c' then '\n' else if c = '\x00' then '�' else c

/-- A text whose only line break is the line feed, and which has no NUL. A carriage return
takes a line feed that follows it along. -/
def clean (t : Text) : Text :=
  (t.foldl (fun (afterReturn, done) c =>
    if afterReturn ∧ c = '\n' then (false, done) else (c = '\r', cleanChar c :: done))
    (false, [])).2.reverse

/-- Puts a token before a list, unless it is a space that ends the
list or precedes another one. -/
def consCollapsed (t : Token) (rest : List Token) : List Token :=
  if t = Token.space ∧ (rest = [] ∨ rest.head? = some Token.space) then rest
    else t :: rest

/-- Tokens with runs of spaces made one, and none at either end. -/
def collapseSpaces (ts : List Token) : List Token :=
  (ts.foldr consCollapsed []).dropWhile (· = Token.space)

/-- The issues of lexemes that follow each other from the beginning of a text. -/
def lexemeIssues (ls : List Lexeme) : List Issue :=
  (ls.foldl step (Position.start, [])).2.reverse
where
  /-- The position after a lexeme, and the issues up to there, last first. -/
  step : Position × List Issue → Lexeme → Position × List Issue
    | (p, found), l => (p.advance l.text, (l.issue? p).toList ++ found)

/-- The tokens of a style sheet. -/
def lex (css : Text) : Traced (List Token) :=
  let ls := lexemes (clean css)
  ⟨collapseSpaces (ls.filterMap Lexeme.token?), (lexemeIssues ls).map Notice.issue⟩

end CssGuard
