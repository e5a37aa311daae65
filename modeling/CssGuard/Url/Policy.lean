import CssGuard.Text.Blank
import CssGuard.Trace
import CssGuard.Url.Reference

/-!
# URL policies

No URL is let through without being asked for: it must have no scheme or a harmless one,
the policy must return a URL for it, and that URL must pass the same test.

- `Policy`: returns the URL to use in place of another, or refuses it
- `scheme?`, `isHarmless`: the scheme of a URL, and the test of it (`uri_scheme`)
- `accept`: a URL run through the test, the policy, and the test again (`safe_uri`)
- `token`: the token for an accepted URL (`normalize_url`)
- `Rule`, `Rule.accepts`, `Rule.policy`: a policy given by data
  (`UrlRule`, `make_url_policy`)
-/

namespace CssGuard.Url

open Text

/-- A policy returns the URL to use for a URL in a property or at-rule, or refuses it. -/
abbrev Policy := Text → Text → Option Text

/-- The scheme of a URL, in lower case. -/
def scheme? (t : Text) : Option Text :=
  (splitScheme? t).map Prod.fst

/-- The schemes that cannot run a script. -/
def harmlessSchemes : List Text :=
  ["http", "https", "mailto"]

/-- The URL has no scheme or a harmless one, blanks around it aside. -/
def isHarmless (uri : Text) : Bool :=
  (scheme? (strip uri)).all (· ∈ harmlessSchemes)

/-- The URL to use for a URL, if the policy returns one and both are harmless. -/
def accept (policy : Option Policy) (uri user : Text) : Traced (Option Text) :=
  match policy with
  | none => pure none
  | some ask =>
    if isHarmless uri then
      ⟨(ask uri user).filter isHarmless, [.consulted uri user]⟩
    else pure none

/-- What is accepted is harmless, and the policy returned it when it was asked. -/
theorem granted_of_accept {policy : Option Policy} {uri user granted : Text}
    (h : (accept policy uri user).value = some granted) :
    ∃ ask, policy = some ask ∧ ask uri user = some granted ∧ isHarmless granted ∧
      (accept policy uri user).trace = [.consulted uri user] := by
  unfold accept at h ⊢
  split at h
  · cases h
  · rename_i ask
    split at h
    · rename_i hharmless
      obtain ⟨hgranted, hsafe⟩ := Option.filter_eq_some_iff.mp h
      exact ⟨ask, rfl, hgranted, hsafe, by rw [if_pos hharmless]⟩
    · cases h

/-! ## Tokens -/

/-- A character that could end a URL token, begin an escape or upset error recovery. -/
def isSpecial (c : Char) : Bool :=
  c.toNat ≤ 0x20 || c = '\x7f' || c = '"' || c = '\'' || c = '(' || c = ')' || c =
    '*' || c = '<' || c = '>' || c = '\\'

/-- A special character as a percent sign and two hexadecimal digits. -/
def percentEscape (c : Char) : Text :=
  '%' :: padded '0' 2 (hex c.toNat)

/-- A URL with its special characters escaped. -/
def escape (uri : Text) : Text :=
  uri.flatMap fun c => if isSpecial c then percentEscape c else [c]

/-- The token for an accepted URL. -/
def token (uri : Text) : Token :=
  "url(\"" ++ escape uri ++ "\")"

/-! ## Rules -/

/-- A policy given by data. -/
structure Rule where
  /-- References without a scheme. -/
  allowRelative : Bool
  /-- References into the same document. -/
  allowFragment : Bool
  /-- References that take only their scheme from the base. -/
  allowSchemeless : Bool
  /-- The schemes of the URLs that are allowed. -/
  schemes : List Text
  /-- The hosts of the URLs that are allowed; without a list, any host. -/
  hosts : Option (List Text)

namespace Rule

/-- What is allowed where nothing else is said. -/
def standard : Rule :=
  ⟨true, true, false, ["http", "https"], none⟩

/-- A rule whose schemes and hosts are in lower case. -/
def lowered (r : Rule) : Rule :=
  { r with schemes := r.schemes.map lower, hosts := r.hosts.map (·.map lower) }

/-- The URL names an allowed host. -/
def allowsHost (r : Rule) (uri : Text) : Bool :=
  match r.hosts with
  | none => true
  | some hosts =>
    ((Reference.parse? [] uri).bind fun p => host? p.authority).any (· ∈ hosts)

/-- The rule allows a URL, blanks around it aside. -/
def accepts (r : Rule) (uri : Text) : Bool :=
  let uri := strip uri
  if uri.isEmpty then false
  else if uri.head? = some '#' then r.allowFragment
  else if List.isPrefixOf ['/', '/'] uri then r.allowSchemeless && r.allowsHost uri
  else match scheme? uri with
    | none => r.allowRelative
    | some scheme => scheme ∈ r.schemes && r.allowsHost uri

/-- The policy that returns the URLs a rule allows as they are. -/
def policy (r : Rule) : Policy :=
  fun uri _ => if r.accepts uri then some uri else none

end Rule

end CssGuard.Url
