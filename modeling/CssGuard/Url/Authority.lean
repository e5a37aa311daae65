import CssGuard.Text.Ascii
import CssGuard.Text.Lower

/-!
# Authorities

The authority of a URL names a host, maybe with user information in front and a port
behind. A host in brackets is an address of sixteen bytes or of a future kind.

- `isAddress`: the text is an address of sixteen bytes, maybe with a zone
- `isAuthority`: the text can stand as an authority
- `host?`: the host that an authority names
-/

namespace CssGuard.Url

open Text

/-! ## Addresses -/

/-- A number from 0 to 255 without leading zeros. -/
def isOctet (t : Text) : Bool :=
  isRunOf isPlainDigit t && t.length ≤ 3 && (t = ['0'] || t.head? ≠ some '0')
    && t.foldl (fun n c => 10 * n + hexValue c) 0 ≤ 255

/-- An address of four bytes. -/
def isShortAddress (t : Text) : Bool :=
  (fields '.' t).length = 4 && (fields '.' t).all isOctet

/-- Up to four hexadecimal digits. -/
def isGroup (t : Text) : Bool :=
  isRunOf isHexDigit t && t.length ≤ 4

/-- The groups of an address, the last of which may be given as an address of four bytes
that counts for two. Nothing is given for a last group that is malformed. -/
def groups? (t : Text) : Option (List Text) :=
  let parts := fields ':' t
  match parts.getLast? with
  | some last =>
    if '.' ∈ last then
      if isShortAddress last then some (parts.dropLast ++ [['0'], ['0']]) else none
    else some parts
  | none => none

/-- Groups at one side of a gap: all written out, or none at all,
which leaves one empty text. -/
def besideGap? (groups : List Text) : Option (List Text) :=
  if groups = [[]] then some [] else if groups.all isGroup then some groups else none

/-- Eight groups, or fewer with one gap that stands for the missing ones. -/
def areGroups (groups : List Text) : Bool :=
  let inner := groups.tail.dropLast
  match inner.span (!·.isEmpty) with
  | (_, []) => groups.length = 8 && groups.all isGroup
  | (before, _ :: after) =>
    match besideGap? (groups.take 1 ++ before),
      besideGap? (after ++ groups.getLast?.toList) with
    | some high, some low => high.length + low.length ≤ 7
    | _, _ => false

/-- An address of sixteen bytes. -/
def isLongAddress (t : Text) : Bool :=
  (fields ':' t).length ≥ 3 && (groups? t).any areGroups

/-- An address of sixteen bytes, maybe with a zone after a percent sign. -/
def isAddress (t : Text) : Bool :=
  match cut '%' t with
  | (address, none) => isLongAddress address
  | (address, some zone) => !zone.isEmpty && '%' ∉ zone && isLongAddress address

/-- An address of a kind to come: a version in hexadecimal digits, a point, and at
least one more character. -/
def isFutureAddress : Text → Bool
  | 'v' :: rest =>
    match rest.span isHexDigit with
    | (_ :: _, '.' :: _ :: _) => true
    | _ => false
  | _ => false

/-- What may stand between brackets. -/
def isBracketed (host : Text) : Bool :=
  if host.head? = some 'v' then isFutureAddress host else isAddress host

/-! ## Authorities -/

/-- Characters whose compatibility form has one of the delimiters `/`,
`?`, `#`, `@` and `:` in it. -/
def delimiterForms : List Char :=
  ['⁇', '⁈', '⁉', '℀', '℁', '℅', '℆', '⩴', '︓', '︖', '﹕', '﹖', '﹟', '﹫', '＃', '／',
    '：', '？', '＠']

/-- The host of an authority, as written, and whether it stands in brackets. -/
def hostPart (authority : Text) : Text × Bool :=
  let place := afterLast '@' authority
  match cut '[' place with
  | (_, some inside) => ((cut ']' inside).1, true)
  | (_, none) => ((cut ':' place).1, false)

/-- Nothing stands before the brackets, and nothing but a port after them. -/
def bracketsAlone (authority : Text) : Bool :=
  match cut '[' (afterLast '@' authority) with
  | (before, some inside) =>
    before.isEmpty && ((cut ']' inside).2.all fun after => after.isEmpty || after.head? =
      some ':')
  | (_, none) => true

/-- The text can stand as an authority: brackets come in pairs around an address, and no
character hides a delimiter. -/
def isAuthority (t : Text) : Bool :=
  let opens := decide ('[' ∈ t)
  let closes := decide (']' ∈ t)
  opens = closes && (!opens || (bracketsAlone t && isBracketed (hostPart t).1))
    && !t.any (· ∈ delimiterForms)

/-- The host that an authority names, in lower case up to its zone. -/
def host? (authority : Text) : Option Text :=
  let host := (hostPart authority).1
  if host.isEmpty then none
  else match cut '%' host with
    | (name, none) => some (lower name)
    | (name, some zone) => some (lower name ++ '%' :: zone)

end CssGuard.Url
