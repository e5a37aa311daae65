import CssGuard.Text.Ascii
import CssGuard.Text.Digit

/-!
# Escapes

A backslash gives a character that could not stand there as itself: by up to six
hexadecimal digits and an optional white space that ends them, or by the character itself.
A backslash before a line break stands for nothing.

- `decode`: a text with its escapes resolved (`decode_css`)
- `hexEscape`: the escape that is always possible (`_hex_escape`)
- `escapeString`, `escapeName`, `escapeIdent`: texts made safe inside a string, inside a
  name, and as a whole identifier (`escape_css_string`, `escape_css_ident`)
-/

namespace CssGuard.Escape

open Text

/-! ## Decoding -/

/-- What has been read of an escape. -/
inductive Mode where
  /-- No escape is open. -/
  | plain
  /-- A backslash was read. -/
  | backslash
  /-- A backslash and `count` digits with the given value were read. -/
  | digits (value count : Nat)
  /-- An escape was ended by a carriage return, which takes a line feed with it. -/
  | afterReturn
deriving DecidableEq

/-- The character with a given number; numbers that are no character, and zero, give
the replacement character. -/
def ofCode (n : Nat) : Char :=
  if n = 0 ∨ (0xD800 ≤ n ∧ n ≤ 0xDFFF) ∨ 0x10FFFF < n then '�' else Char.ofNat n

/-- Reads a character where no escape is open. -/
def readPlain (c : Char) : Text × Mode :=
  if c = '\\' then ([], .backslash) else ([c], .plain)

/-- Reads a character: what it adds to the text, and what is open after it. -/
def read : Mode → Char → Text × Mode
  | .plain, c => readPlain c
  | .backslash, c =>
    if isHexDigit c then ([], .digits (hexValue c) 1)
    else if c = '\r' then ([], .afterReturn)
    else if isNewline c then ([], .plain)
    else ([c], .plain)
  | .digits value count, c =>
    if isHexDigit c ∧ count < 6 then ([], .digits (16 * value + hexValue c) (count + 1))
    else if c = '\r' then ([ofCode value], .afterReturn)
    else if isSpace c then ([ofCode value], .plain)
    else (ofCode value :: (readPlain c).1, (readPlain c).2)
  | .afterReturn, c => if c = '\n' then ([], .plain) else readPlain c

/-- What the end of the text adds: the digits read so far, or a
backslash that escapes nothing. -/
def finish : Mode → Text
  | .plain | .afterReturn => []
  | .backslash => ['\\']
  | .digits value _ => [ofCode value]

/-- Decodes a text after what has been read of an escape. -/
def decodeFrom (mode : Mode) : Text → Text
  | [] => finish mode
  | c :: rest => (read mode c).1 ++ decodeFrom (read mode c).2 rest

/-- A text with its escapes resolved. -/
def decode (t : Text) : Text :=
  decodeFrom .plain t

/-! ## Encoding -/

/-- The escape of a character by its number, ended by a space. -/
def hexEscape (c : Char) : Text :=
  '\\' :: hex c.toNat ++ [' ']

/-- Characters that must not stand in a string as themselves: controls, quotes, the
backslash, and what could matter to an enclosing element. -/
def isStringSpecial (c : Char) : Bool :=
  c.toNat < 0x20 || c = '\x7f' || c = '"' || c = '\'' || c = '\\' || c = '<' || c = '>' ||
    c = '&'

/-- A text for use between double quotes. -/
def escapeString (t : Text) : Text :=
  t.flatMap fun c => if isStringSpecial c then hexEscape c else [c]

/-- A string token for a text. -/
def quote (t : Text) : Text :=
  '"' :: escapeString t ++ ['"']

/-- A text for use inside a name: everything but name characters is escaped. -/
def escapeName (t : Text) : Text :=
  t.flatMap fun c => if isNameChar c then [c] else hexEscape c

/-- Escapes a digit that would make a name begin like a number. -/
def escapeLeadingDigit : Text → Text
  | '-' :: c :: rest => if isDigit c then '-' :: hexEscape c ++ rest else '-' :: c :: rest
  | c :: rest => if isDigit c then hexEscape c ++ rest else c :: rest
  | [] => []

/-- A text as an identifier. -/
def escapeIdent (t : Text) : Text :=
  escapeLeadingDigit (escapeName t)

end CssGuard.Escape
