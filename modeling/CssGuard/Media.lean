import CssGuard.Event.Basic
import CssGuard.Text.Digit

/-!
# Media queries

A media query names a kind of medium, and may ask for features of it. Queries in a list
are kept or dropped one by one, and those that are kept are written anew.

- `mediaTypes`, `mediaFeatures`: the media and the features that can be asked for
  (`MEDIA_TYPES`, `MEDIA_FEATURES`)
- `mediaFeature?`: a feature between parentheses (`_media_feature`)
- `mediaQuery?`: a whole query (`_media_query`)
- `filterMedia`: a list of queries (`filter_media_query`)
-/

namespace CssGuard

open Text

/-- The media that can be named. -/
def mediaTypes : List Text :=
  Text.ofStrings
    ["all", "aural", "braille", "embossed", "handheld", "print", "projection",
      "screen", "speech", "tty", "tv"]

/-- The features that can be asked for. -/
def mediaFeatures : List Text :=
  Text.ofStrings
    ["aspect-ratio", "color", "color-index", "device-aspect-ratio", "device-height",
      "device-width", "grid", "height", "hover", "max-aspect-ratio", "max-color",
      "max-color-index", "max-device-aspect-ratio", "max-device-height",
      "max-device-width", "max-height", "max-monochrome", "max-resolution", "max-width",
      "min-aspect-ratio", "min-color", "min-color-index", "min-device-aspect-ratio",
      "min-device-height", "min-device-width", "min-height", "min-monochrome",
      "min-resolution", "min-width", "monochrome", "orientation", "pointer",
      "prefers-color-scheme", "prefers-reduced-motion", "resolution", "scan", "width"]

/-! ## Values of features -/

/-- A number without an exponent. -/
def fixedNumber : Automaton NumberState :=
  numberWith fun _ => false

/-- A number without sign and exponent, maybe with a unit in small letters. -/
def isMediaNumber (t : Text) : Bool :=
  isLineOf (fun t => t.head? ≠ some '+' && t.head? ≠ some '-'
    && (fixedNumber.longest? t).any fun (_, unit) => unit.all isSmall) t

/-- A small letter, then small letters and hyphens. -/
def isMediaKeyword (t : Text) : Bool :=
  isLineOf keyword t
where
  /-- A keyword without a newline at the end. -/
  keyword : Text → Bool
    | c :: rest => isSmall c && rest.all fun c => isSmall c || c = '-'
    | [] => false

/-- The value of a feature, in small letters: a number, a keyword, or
the ratio of two numbers. -/
def mediaValue? : List Text → Option Text
  | [value] => if isMediaNumber value || isMediaKeyword value then some value else none
  | [high, ['/'], low] =>
    if isDigits high && isDigits low then some (high ++ '/' :: low) else none
  | _ => none

/-- What stands between parentheses, in small letters: a feature, and maybe its value. -/
def mediaFeature? : List Text → Option Text
  | feature :: rest =>
    if feature ∈ mediaFeatures then
      match rest with
      | [] => some feature
      | Token.colon :: value => (mediaValue? value).map (feature ++ ':' :: ·)
      | _ => none
    else none
  | [] => none

/-! ## Queries -/

/-- The features that follow a medium, each after `and` and between
parentheses, in small letters.
-/
def mediaConditions? : List Text → Option (List Text)
  | [] => some []
  | and :: ['('] :: rest =>
    if and = "and" then
      match h : rest.dropWhile (· ≠ Token.closeParen) with
      | [] => none
      | _ :: after =>
        have : after.length < rest.length := by
          have := (List.dropWhile_sublist (l := rest) (· ≠ Token.closeParen)).length_le
          simp only [h, List.length_cons] at this
          omega
        (mediaFeature? (rest.takeWhile (· ≠ Token.closeParen))).bind fun feature =>
          (mediaConditions? after).map (('(' :: feature ++ [')']) :: ·)
    else none
  | _ => none
termination_by ts => ts.length

/-- A medium and its features, in small letters. -/
def mediaBody? (types : List Text) : List Text → Option Text
  | medium :: rest =>
    if medium ∈ types then
      (mediaConditions? rest).map fun conditions =>
        medium ++ conditions.flatMap fun condition => " and " ++ condition
    else none
  | [] => none

/-- A query, in small letters and without spaces. -/
def mediaQuery? (types : List Text) (words : List Text) : Option Text :=
  match words with
  | first :: rest =>
    if first = "only" ∨ first = "not" then
      (mediaBody? types rest).map fun body => first ++ ' ' :: body
    else mediaBody? types words
  | [] => none

/-- One query of a list. A query that is dropped is reported. -/
def filterQuery (types : List Text) (tokens : List Token) : Traced (List Text) :=
  match mediaQuery? types ((tokens.filter (· ≠ Token.space)).map lower) with
  | some query => pure [query]
  | none => Traced.reporting (.disallowedMediaQuery tokens.flatten) []

/-- The queries of a list that are kept, with commas between them. -/
def filterMedia (types : List Text) (header : List Token) : Traced Text := do
  let queries ← Traced.collect (filterQuery types) (fields Token.comma header)
  pure (joined ", " queries.flatten)

end CssGuard
