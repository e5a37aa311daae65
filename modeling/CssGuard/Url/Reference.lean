import CssGuard.Url.Authority

/-!
# References

A reference to a document, as in a style sheet: a URL, or what is left of one when the
rest is that of the sheet itself.

- `Reference`, `Reference.parse?`, `Reference.render`: the parts of
  a reference, read and written
- `resolve`: a reference seen from a base (`resolve_uri`)
-/

namespace CssGuard.Url

open Text

/-! ## Parts -/

/-- The parts of a reference; a part that is not there is empty. -/
structure Reference where
  scheme : Text
  authority : Text
  path : Text
  /-- What follows a semicolon in the last segment of the path. -/
  parameters : Text
  query : Text
  fragment : Text
deriving DecidableEq

/-- A character of a scheme. -/
def isSchemeChar (c : Char) : Bool :=
  isLetter c || isPlainDigit c || c = '+' || c = '.' || c = '-'

/-- The scheme of a text, in lower case, and what follows its colon. -/
def splitScheme? (t : Text) : Option (Text × Text) :=
  match cut ':' t with
  | (c :: scheme, some rest) =>
    if isLetter c && scheme.all isSchemeChar then some (lower (c :: scheme), rest)
    else none
  | _ => none

/-- The schemes whose references can be relative. -/
def relativeSchemes : List Text :=
  ["", "ftp", "http", "gopher", "nntp", "imap", "wais", "file", "https", "shttp",
    "mms", "prospero", "rtsp", "rtspu", "sftp", "svn", "svn+ssh", "ws", "wss"]

/-- The schemes whose references have an authority. -/
def authoritySchemes : List Text :=
  relativeSchemes ++ (["telnet", "snews", "rsync", "nfs", "git", "git+ssh"] : List Text)

/-- The schemes whose paths end in parameters. -/
def parameterSchemes : List Text :=
  ["", "ftp", "hdl", "prospero", "http", "imap", "https", "shttp", "rtsp", "rtspu",
    "sip", "sips", "mms", "sftp", "tel"]

/-- A reference as it is read: controls and spaces in front of it are left out, tabs
and line breaks everywhere. -/
def readable (t : Text) : Text :=
  (t.dropWhile (·.toNat ≤ 0x20)).filter fun c => !(c = '\t' || c = '\n' || c = '\r')

/-- The path and the parameters of its last segment. -/
def splitParameters (path : Text) : Text × Text :=
  let last := afterLast '/' path
  match cut ';' last with
  | (_, none) => (path, [])
  | (segment, some parameters) =>
    (path.take (path.length - last.length) ++ segment, parameters)

/-- The parts after the scheme. Nothing is given for a malformed authority. -/
def parseAfterScheme? (scheme t : Text) : Option Reference :=
  let (authority, rest) : Text × Text := match t with
    | '/' :: '/' :: rest => rest.span fun c => !(c = '/' || c = '?' || c = '#')
    | _ => ([], t)
  if isAuthority authority then
    let (rest, fragment) := cut '#' rest
    let (path, query) := cut '?' rest
    let (path, parameters) := if scheme ∈ parameterSchemes then splitParameters path
      else (path, [])
    some ⟨scheme, authority, path, parameters, query.getD [], fragment.getD []⟩
  else none

/-- The parts of a reference, with a scheme for one that has none. -/
def Reference.parse? (scheme t : Text) : Option Reference :=
  match splitScheme? (readable t) with
  | some (scheme, rest) => parseAfterScheme? scheme rest
  | none => parseAfterScheme? scheme (readable t)

/-- A text with a mark in front, unless it is empty. -/
def marked (mark t : Text) : Text :=
  if t.isEmpty then [] else mark ++ t

/-- The authority and the path of a reference. An authority is written, even if it is
empty, for a scheme that has one, unless the path itself begins with two slashes. -/
def Reference.location (r : Reference) : Text :=
  let path := r.path ++ marked ";" r.parameters
  if !r.authority.isEmpty || (!r.scheme.isEmpty && r.scheme ∈ authoritySchemes
      && !List.isPrefixOf ['/', '/'] path) then
    let slash : Text := if path.isEmpty || path.head? = some '/' then [] else "/"
    "//" ++ r.authority ++ slash ++ path
  else path

/-- The text of a reference. -/
def Reference.render (r : Reference) : Text :=
  (if r.scheme.isEmpty then [] else r.scheme ++ [':']) ++ r.location ++ marked "?" r.query
    ++ marked "#" r.fragment

/-! ## Resolution -/

/-- Segments without the empty ones between the first and the last. -/
def dropEmptyInside : List Text → List Text
  | [] => []
  | first :: rest => first :: rest.dropLast.filter (!·.isEmpty) ++ rest.getLast?.toList

/-- A segment that stands for a directory and not for a name. -/
def isDots (segment : Text) : Bool :=
  segment = ['.'] || segment = ['.', '.']

/-- The directory reached by following segments; going up from the top stays there. -/
def walk (segments : List Text) : List Text :=
  (segments.foldl (fun trail segment =>
    if segment = ['.', '.'] then trail.tail
    else if segment = ['.'] then trail
    else segment :: trail) []).reverse

/-- A path seen from the path of a base. -/
def resolvePath (base path : Text) : Text :=
  let baseSegments := fields '/' base
  let directory := if baseSegments.getLast? = some [] then baseSegments
    else baseSegments.dropLast
  let segments :=
    if path.head? = some '/' then fields '/' path
    else dropEmptyInside (directory ++ fields '/' path)
  let trail := walk segments ++ (if segments.getLast?.any isDots then [[]] else [])
  let resolved := joined "/" trail
  if resolved.isEmpty then "/" else resolved

/-- A reference without an authority of its own, seen from a base with the same scheme. -/
def Reference.from (base r : Reference) : Reference :=
  if r.path.isEmpty && r.parameters.isEmpty then
    { base with query := if r.query.isEmpty then base.query
      else r.query, fragment := r.fragment }
  else { r with authority := base.authority, path := resolvePath base.path r.path }

/-- A reference seen from a non-empty base. Nothing is given when either is malformed. -/
def join? (base uri : Text) : Option Text :=
  if uri.isEmpty then some base
  else do
    let b ← Reference.parse? [] base
    let r ← Reference.parse? b.scheme uri
    if r.scheme ≠ b.scheme ∨ r.scheme ∉ relativeSchemes then some uri
    else if r.authority.isEmpty then some (Reference.from b r).render
    else some r.render

/-- A reference seen from a base. It stays as it is without a base, and when it cannot be
resolved. -/
def resolve (base : Option Text) (uri : Text) : Text :=
  match base with
  | none | some [] => uri
  | some base => (join? base uri).getD uri

end CssGuard.Url
