import CssGuard.Text.Printable

/-!
# Quoted text

How a text is shown inside a message: between quotes, on one line, with everything that
would not be seen written as an escape.

- `quoteMark`: double quotes only around a text that has single quotes and no double ones
- `shown`: one character inside the quotes
- `quoted`, `quotedList`: a text, and a list of texts, as they are shown
-/

namespace CssGuard.Text

/-- The quote put around a text. -/
def quoteMark (t : Text) : Char :=
  if '\'' ∈ t ∧ '"' ∉ t then '"' else '\''

/-- An escape of fixed width: the shortest of `\x`, `\u` and `\U`
that has room for the character.
-/
def codeEscape (c : Char) : Text :=
  let n := c.toNat
  if n < 0x100 then "\\x" ++ padded '0' 2 (hex n)
  else if n < 0x10000 then "\\u" ++ padded '0' 4 (hex n)
  else "\\U" ++ padded '0' 8 (hex n)

/-- A character as it stands between the quotes `mark`. -/
def shown (mark c : Char) : Text :=
  if c = mark ∨ c = '\\' then ['\\', c]
  else if c = '\n' then "\\n"
  else if c = '\r' then "\\r"
  else if c = '\t' then "\\t"
  else if isPrintable c then [c]
  else codeEscape c

/-- A text as a message shows it. -/
def quoted (t : Text) : Text :=
  let mark := quoteMark t
  mark :: t.flatMap (shown mark) ++ [mark]

/-- A list of texts as a message shows it. -/
def quotedList (ts : List Text) : Text :=
  "[" ++ joined ", " (ts.map quoted) ++ "]"

end CssGuard.Text
