import CssGuard.Fuzz.Tape

/-!
# Hostile style sheets

Generators of malformed and hostile style sheets, from single words to whole sheets.

- `word`, `blanks`, `compound`, `selector`, `url`, `value`, `declaration`, `ruleset`,
  `atRule`, `garbage`, `deepNesting`, `longValue`: pieces
- `sheet`: a whole style sheet (`generate_fuzzed_css`)
-/

namespace CssGuard.Fuzz

open Draw

/-! ## Material -/

/-- Elements, safe and unsafe. -/
def elements : List Text :=
  Text.ofStrings
    ["a", "p", "div", "span", "ul", "ol", "li", "table", "td", "th", "label",
      "img", "input", "form", "h1", "em", "strong", "html", "body", "head", "script",
      "style", "iframe", "object", "embed", "svg", "math", "*"]

/-- Pseudo-classes and pseudo-elements, known and unknown. -/
def pseudos : List Text :=
  Text.ofStrings
    [":hover", ":focus", ":active", ":visited", ":link", ":first-child", ":last-child",
      ":nth-child(2n+1)", ":not(.x)", ":has(a)", "::before", "::after",
      "::selection", ":bogus", ":", "::"]

/-- Attribute selectors, well-formed and malformed. -/
def attributes : List Text :=
  Text.ofStrings
    ["[href]", "[href^=javascript]", "[id=x]", "[id$=x i]", "[title='x']",
      "[title=\"a\" s]", "[headers~=a]", "[class|=x]", "[for=x]", "[onclick]",
      "[style*=x]", "[data-x]", "[", "[=]", "[id=]"]

/-- Combinators, and what looks like them. -/
def combinators : List Text :=
  [" ", " > ", "+", " ~ ", ">>", ",", " , ", "", "||"]

/-- Properties, known and unknown. -/
def properties : List Text :=
  Text.ofStrings
    ["color", "background", "background-image", "background-color", "width",
      "margin", "padding", "display", "position", "font-family", "font", "counter-reset",
      "transition", "cursor", "list-style-image", "z-index", "behavior", "-moz-binding",
      "expression", "COLOR", "-webkit-transition"]

/-- Values, permitted and not. -/
def values : List Text :=
  Text.ofStrings
    ["red", "#ABCDEF", "#abcd", "10px", "-5px", "+.5em", "50%", "1e3px",
      "auto", "inherit", "fixed", "absolute", "Arial Black", "serif", ",", "rgb(1, 2, 3)",
      "rgba(0,0,0,.5)", "calc(100% - 10px)", "calc(1px",
      "linear-gradient(to right, red, blue)", "expression(alert(1))", "attr(x)", "item",
      "none", "!important", "! important", "/", "*"]

/-- URLs, harmless and not. -/
def urls : List Text :=
  Text.ofStrings
    ["http://example.com/a.png", "https://example.com/a.png", "a.png", "../img/a.png",
      "//cdn.example/a.png", "javascript:alert(1)", "JaVaScRiPt:alert(1)",
      "java\\73 cript:alert(1)", "data:text/html,x", "vbscript:x", "mailto:a@b.example",
      " javascript:x", "a\"b", "a)b", "a\\", "", "http://x/\"),url(javascript:x)"]

/-- Beginnings of at-rules. -/
def atRules : List Text :=
  Text.ofStrings
    ["@media screen", "@media print, fax", "@media only screen and (min-width: 100px)",
      "@media (max-width: 10em)", "@media screen and (bogus: 1)", "@media",
      "@font-face", "@page", "@keyframes x", "@supports (display: grid)",
      "@charset 'utf-8';", "@namespace x url(y);", "@import 'x.css';",
      "@import url(javascript:x);", "@", "@-moz-document url-prefix()"]

/-- Characters that upset readers: controls, odd spaces, escapes and marks. -/
def specials : List Text :=
  Text.ofStrings
    ["\x00", "\x01", "\x0b", "\x0c", "\x7f", "\ufffd", "\u00a0", "\u2028",
      "\u2029", "\u200b", "\ufeff", "\\", "\\0", "\\26 ", "\\7d", "\\\n", "/*", "*/",
      "<!--", "-->", "<", ">", "&"]

/-- Letters, digits, the hyphen and the low line. -/
def wordChars : List Text :=
  "abcdefghijklmnopqrstuvwxyzABCDEFGHIJKLMNOPQRSTUVWXYZ0123456789-_".toList.map
    fun c => [c]

/-- White space, and what may be taken for it. -/
def blankTexts : List Text :=
  [" ", "\t", "\n", "\r", "\x0c", "\x0b", "\x00", "/**/", ""]

/-- What may stand around a URL. -/
def urlFrames : List (Text × Text) :=
  [("url(", ")"), ("url('", "')"), ("url(\"", "\")"), ("URL(", ")"), ("url( ", " )"),
    ("url(", ""), ("'", "'")]

/-- Stray punctuation. -/
def punctuation : List Text :=
  ("\x7b\x7d[]();:,@!#.>+~*\"'\\/".toList.map fun c => [c]) ++ specials

/-! ## Pieces -/

/-- A word of letters and digits. -/
def word (low high : Int) : Draw Text := do
  let count ← between low high
  choices wordChars count

/-- White space, some of it odd. -/
def blanks : Draw Text := do
  let count ← between 0 3
  choices blankTexts count

/-- One piece of a compound selector. -/
def selectorPiece : Draw Text := do
  match ← between 0 4 with
  | 0 => return '#' :: (← word 0 8)
  | 1 => return '.' :: (← word 0 8)
  | 2 => choice attributes
  | 3 => choice pseudos
  | _ => choice specials

/-- A compound selector. -/
def compound : Draw Text := do
  let element ← if ← chance 80 then choice elements else pure []
  let count ← between 0 3
  let pieces ← times selectorPiece count.toNat
  return element ++ pieces.flatten

/-- A list of selectors with combinators of all kinds. -/
def selector : Draw Text := do
  let first ← compound
  let count ← between 0 4
  let more ← times (do return (← choice combinators) ++ (← compound)) count.toNat
  return first ++ more.flatten

/-- A URL. -/
def url : Draw Text := do
  let target ← choice urls
  let (opening, closing) ← choice urlFrames
  return opening ++ target ++ closing

/-- One piece of a value. -/
def valuePiece : Draw Text := do
  match ← between 0 7 with
  | 0 => choice values
  | 1 => url
  | 2 => word 1 10
  | 3 => choice specials
  | 4 => return '"' :: (← word 0 20) ++ ['"']
  | 5 => return '\'' :: (← word 0 20)
  | 6 => choice ["rgb(", "calc(", "url(", "(", ")", "[", "]"]
  | _ => return '\x7b' :: (← word 0 20) ++ ['\x7d']

/-- A value. -/
def value : Draw Text := do
  let count ← between 0 5
  let pieces ← times valuePiece count.toNat
  let text := Text.joined (← blanks) pieces
  return if text.isEmpty then " " else text

/-- The name of a property. -/
def propertyName : Draw Text := do
  match ← between 0 3 with
  | 0 => choice properties
  | 1 => word 1 12
  | 2 => return []
  | _ => return (← choice specials) ++ (← choice properties)

/-- A declaration. -/
def declaration : Draw Text := do
  let name ← propertyName
  let separator ← choice ([":", " : ", "", "::", ";"] : List Text)
  let value ← value
  let terminator ← choice ([";", "", ";;", " ; ", "\x7d"] : List Text)
  return name ++ separator ++ value ++ terminator

/-- A ruleset, maybe not closed. -/
def ruleset : Draw Text := do
  let count ← between 0 6
  let declarations ← times declaration count.toNat
  let closing ← choice (["\x7d", "\x7d", "\x7d", "", "\x7d\x7d", "]\x7d"] : List Text)
  let selector ← selector
  let blanks ← blanks
  return selector ++ blanks ++ '\x7b' :: declarations.flatten ++ closing

/-- An at-rule, maybe with a block, in which at-rules nest at most `levels` deep. -/
def atRule : (levels : Nat) → Draw Text
  | 0 => do
    let header ← choice atRules
    if ← ends header then return header
    else finish header ruleset
  | levels + 1 => do
    let header ← choice atRules
    if ← ends header then return header
    else finish header (do if ← chance 30 then atRule levels else ruleset)
where
  /-- Decides whether the rule ends after its header. -/
  ends (header : Text) : Draw Bool :=
    if header.getLast? = some ';' then pure true else chance 20
  /-- A block of statements after a header. -/
  finish (header : Text) (statement : Draw Text) : Draw Text := do
    let count ← between 0 4
    let body ← times statement count.toNat
    let closing ← choice (["\x7d", "\x7d", ""] : List Text)
    return header ++ " \x7b" ++ body.flatten ++ closing

/-- Stray punctuation and escapes. -/
def garbage : Draw Text := do
  let count ← between 1 20
  choices punctuation count

/-- Brackets nested very deep. -/
def deepNesting : Draw Text := do
  let depth ← between 10 3000
  let opener ← choice (["\x7b", "(", "[", "rgb(", "@media screen \x7b"] : List Text)
  return "a\x7bcolor:" ++ (List.replicate depth.toNat opener).flatten ++ "red"

/-- A very long value. -/
def longValue : Draw Text := do
  let value ← choice values
  let count ← between 100 1000
  return "p \x7b margin: " ++ Text.joined " " (List.replicate count.toNat value) ++
    " \x7d"

/-- At-rules in a generated sheet nest this deep. -/
def atRuleLevels : Nat := 4

/-- A whole style sheet. -/
def sheet : Draw Text := do
  let count ← between 1 15
  let parts ← times (do
    let piece ← weighted ruleset
      [(60, ruleset), (20, atRule atRuleLevels), (10, garbage), (3, deepNesting),
        (2, longValue)]
    return (← piece) ++ (← blanks)) count.toNat
  return parts.flatten

end CssGuard.Fuzz
