import CssGuard.Sheet.Sanitize

/-!
# Checks of sanitized sheets

What every sanitized style sheet should satisfy: its braces balance, its URLs have
harmless schemes, and it is its own sanitized form.

- `outputUrls`: the URLs of a sanitized sheet
- `problems`: what is wrong with one (`check_output`)
-/

namespace CssGuard.Fuzz

open Text

/-- Sanitizes a test case with a policy that accepts every URL. -/
def sanitize (css : Text) : Traced Text :=
  sanitizeSheet
    { confinement := .standard
      policy := some fun uri _ => some uri
      base := some "http://example.com/style.css" } css

/-- The quoted URL at the start of a text, and what follows it. -/
def urlAt? : Text → Option (Text × Text)
  | 'u' :: 'r' :: 'l' :: '(' :: '"' :: rest =>
    match rest.dropWhile (· ≠ '"') with
    | '"' :: ')' :: after => some (rest.takeWhile (· ≠ '"'), after)
    | _ => none
  | _ => none

/-- What follows a quoted URL is shorter than the text. -/
theorem length_lt_of_urlAt? {t url after : Text} (h : urlAt? t = some (url, after)) :
    after.length < t.length := by
  unfold urlAt? at h
  split at h
  · rename_i rest
    split at h
    · rename_i tail hd
      have hl :=
        (List.dropWhile_sublist (l := rest) (fun c : Char => decide (c ≠ '"'))).length_le
      rw [hd] at hl
      simp only [Option.some.injEq, Prod.mk.injEq] at h
      simp only [← h.2, List.length_cons] at hl ⊢
      omega
    · simp at h
  · simp at h

/-- The quoted URLs of a text after those already found, which are in reverse order. -/
def urlsFrom (found : List Text) (t : Text) : List Text :=
  match _h : urlAt? t with
  | some (url, after) => urlsFrom (url :: found) after
  | none =>
    match t with
    | [] => found.reverse
    | _ :: rest => urlsFrom found rest
termination_by t.length
decreasing_by
  · exact length_lt_of_urlAt? _h
  · simp

/-- The quoted URLs of a text, in order. -/
def outputUrls (t : Text) : List Text :=
  urlsFrom [] t

/-- The schemes that a URL may have in a sanitized sheet. -/
def allowedSchemes : List Text :=
  ["http:", "https:", "mailto:"]

/-- The URL has a scheme, and not one of the allowed. -/
def isUnsafeUrl (url : Text) : Bool :=
  (url.takeWhile (· ≠ '/')).contains ':' &&
    !allowedSchemes.any fun scheme => List.isPrefixOf scheme (lower url)

/-- Opening and closing braces are equal in number. -/
def hasBalancedBraces (t : Text) : Bool :=
  t.count '\x7b' == t.count '\x7d'

/-- As much of a text as a report shows. -/
def excerpt (t : Text) : Text :=
  quoted (t.take 200)

/-- What is wrong with a sanitized sheet. -/
def problems (output : Text) : Traced (List Text) := do
  let again ← sanitize output
  let braces : List Text := if hasBalancedBraces output then [] else ["unbalanced braces"]
  let urls := ((outputUrls output).filter isUnsafeUrl).map fun url =>
    "unsafe url " ++ quoted url
  let repeated := if again = output then [] else ["not idempotent: " ++ excerpt again]
  return braces ++ urls ++ repeated

end CssGuard.Fuzz
