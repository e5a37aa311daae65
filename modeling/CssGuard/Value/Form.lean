import CssGuard.Event.Basic
import CssGuard.Schema.Basic

/-!
# Forms of value tokens

What a token of a value is, judged by its own text: a string, a keyword, a colour, a
quantity, a URL, the opening of a call, a name or a word. The text need not come from the
lexer, so each form says exactly which texts have it. Several forms also admit one final
newline.

- `stringBody?`, `urlBody?`: the inside of a string token, and of a URL token
- `isHashColor`, `isQuantity`, `isName`, `isWord`: texts in
  small letters of the other forms
- `Form`, `Form.of`: the form of a token for an entry of the schema
-/

namespace CssGuard

open Text

/-! ## Texts of each form -/

/-- What stands between double quotes, when the text is a string token followed by
`ending`, and maybe a newline. -/
def bodyUpTo? (ending : Text) (t : Text) : Option Text :=
  match Lexeme.closedBody? '"' t with
  | some (body, after) =>
    if after = ending ∨ after = ending ++ ['\n'] then some body else none
  | none => none

/-- What stands between the quotes of a string token. -/
def Token.stringBody? : Token → Option Text
  | '"' :: rest => bodyUpTo? [] rest
  | _ => none

/-- What stands between the quotes of a URL token, whose name may be in any case. -/
def Token.urlBody? : Token → Option Text
  | u :: r :: l :: '(' :: '"' :: rest =>
    if u.toLower = 'u' ∧ r.toLower = 'r' ∧ l.toLower = 'l' then bodyUpTo? [')'] rest
    else none
  | _ => none

/-- A hexadecimal digit, in small letters. -/
def isSmallHexDigit (c : Char) : Bool :=
  isPlainDigit c || ('a' ≤ c && c ≤ 'f')

/-- A number sign and three or six hexadecimal digits. -/
def isHashColor (t : Text) : Bool :=
  isLineOf color t
where
  /-- A colour without a newline at the end. -/
  color : Text → Bool
    | '#' :: digits =>
      digits.all isSmallHexDigit && (digits.length = 3 || digits.length = 6)
    | _ => false

/-- A number whose exponent begins with a small letter. -/
def smallNumber : Automaton NumberState :=
  numberWith fun c => c = 'e'

/-- A unit, in small letters: nothing, a percent sign, or letters. -/
def isSmallUnit (t : Text) : Bool :=
  t = ['%'] || t.all isSmall

/-- A number with its unit. -/
def isQuantity (t : Text) : Bool :=
  isLineOf (fun t => (smallNumber.longest? t).any fun (_, unit) => isSmallUnit unit) t

/-- A character of a name, in small letters. -/
def isSmallNameChar (c : Char) : Bool :=
  isSmall c || isPlainDigit c || c = '_' || c = '-'

/-- A word: a small letter or low line, then small letters,
digits, low lines and hyphens. -/
def isWord (t : Text) : Bool :=
  isLineOf word t
where
  /-- A word without a newline at the end. -/
  word : Text → Bool
    | c :: rest => (isSmall c || c = '_') && rest.all isSmallNameChar
    | [] => false

/-- A name: a word, maybe after a hyphen. -/
def isName (t : Text) : Bool :=
  match t with
  | '-' :: rest => isWord rest
  | _ => isWord t

/-! ## The form of a token -/

/-- The form of a token of a value. -/
inductive Form where
  /-- No text, or a space. -/
  | blank
  /-- The beginning of a string, and its inside if it is complete. -/
  | string (body : Option Text)
  /-- A keyword. -/
  | keyword
  /-- A colour in hexadecimal digits. -/
  | color
  /-- The beginning of a quantity. -/
  | quantity
  /-- The beginning and end of a URL, and its inside if it is complete. -/
  | url (body : Option Text)
  /-- The opening of a call. -/
  | call
  /-- A name where names are looked for. -/
  | name
  /-- A word where words are looked for. -/
  | word
  /-- Anything else. -/
  | other
deriving DecidableEq

/-- The token begins like a quantity: with a digit, or as a
quantity with a sign or a point. -/
def beginsQuantity (t : Text) : Bool :=
  match t with
  | c :: _ => isPlainDigit c || ((c = '+' || c = '-' || c = '.') && isQuantity t)
  | [] => false

/-- Names are looked for under the entry. -/
def Entry.takesNames (e : Entry) : Bool :=
  e.allows .globalName || e.allows .propertyName

/-- Words are looked for under the entry. -/
def Entry.takesWords (e : Entry) : Bool :=
  e.allows .unreservedWord && !e.allows .url && e.allows .quotedString

/-- The form of a token for an entry. Only strings, URLs and global names keep their case,
so `t` is the token in small letters. -/
def Form.ofLower (e : Entry) (raw t : Token) : Form :=
  if t.isEmpty || t.head? = some ' ' then .blank
  else if t.head? = some '"' then .string raw.stringBody?
  else if t = "inherit" || withoutVendor t ∈ e.literals then .keyword
  else if isHashColor t then .color
  else if beginsQuantity t then .quantity
  else if List.isPrefixOf ['u', 'r', 'l', '('] t && t.getLast? = some ')' then
    .url raw.urlBody?
  else if t.opensParen then .call
  else if e.takesNames && isName t && !List.isSuffixOf ['_', '_'] t then .name
  else if e.takesWords && isWord t then .word
  else .other

/-- The form of a token for an entry. -/
def Form.of (e : Entry) (raw : Token) : Form :=
  ofLower e raw (lower raw)

end CssGuard
