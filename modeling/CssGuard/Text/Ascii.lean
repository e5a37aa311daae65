import CssGuard.Text.Basic

/-!
# Character classes of style sheets

The classes that the grammar of style sheets is written in. They know ASCII only, except
that every other character may stand in a name.
-/

namespace CssGuard.Text

/-- White space between tokens. -/
def isSpace (c : Char) : Bool :=
  c = ' ' || c = '\t' || c = '\n' || c = '\r' || c = '\x0c'

/-- A line break, which ends a string. -/
def isNewline (c : Char) : Bool :=
  c = '\n' || c = '\r' || c = '\x0c'

/-- A capital or small letter. -/
def isLetter (c : Char) : Bool :=
  c.isAlpha

/-- A small letter. -/
def isSmall (c : Char) : Bool :=
  c.isLower

/-- A digit from 0 to 9. -/
def isPlainDigit (c : Char) : Bool :=
  c.isDigit

/-- A hexadecimal digit. -/
def isHexDigit (c : Char) : Bool :=
  c.isDigit || ('a' ≤ c && c ≤ 'f') || ('A' ≤ c && c ≤ 'F')

/-- The value of a hexadecimal digit. -/
def hexValue (c : Char) : Nat :=
  if c.isDigit then c.toNat - '0'.toNat
  else if 'a' ≤ c then c.toNat - 'a'.toNat + 10
  else c.toNat - 'A'.toNat + 10

/-- A character outside ASCII. -/
def isForeign (c : Char) : Bool :=
  0x80 ≤ c.toNat

/-- A character that can begin a name as it is. -/
def isNameStart (c : Char) : Bool :=
  isLetter c || c = '_' || isForeign c

/-- A character that can stand in a name as it is. -/
def isNameChar (c : Char) : Bool :=
  isNameStart c || isPlainDigit c || c = '-'

/-- A character of an identifier that needs no escape anywhere: ASCII letters,
digits, hyphen and low line. -/
def isPlainNameChar (c : Char) : Bool :=
  isLetter c || isPlainDigit c || c = '_' || c = '-'

/-- An identifier in plain characters: a letter or low line, maybe after one hyphen, then
letters, digits, hyphens and low lines. -/
def isPlainIdent : Text → Bool
  | '-' :: c :: rest => (isLetter c || c = '_') && rest.all isPlainNameChar
  | c :: rest => (isLetter c || c = '_') && rest.all isPlainNameChar
  | [] => false

end CssGuard.Text
