import CssGuard.Selector.Compound
import CssGuard.Selector.Split

/-!
# Lists of selectors

A list of selectors is sanitized selector by selector; one that cannot be rebuilt is
dropped as a whole. Selectors that tell visited links from others are kept apart, since
only few properties may be set for them.

- `sanitizeComplex`: compound selectors and the combinators
  between them (`_sanitize_complex`)
- `Selection`: the selectors that are left (`SelectorResult`)
- `sanitizeSelectors`: a list of selectors (`sanitize_selectors`)
- `sanitizeTolerantly`: the same, given up where a dropped selector is not
  tolerated (`on_untranslatable`)
-/

namespace CssGuard

/-- What selectors depend on. -/
structure SelectorContext where
  confinement : Confinement
  attributes : AttributeTable := standardAttributes

/-- A combinator with the spaces around it. -/
def combinatorText (t : Token) : Text :=
  if t = Token.space then t else ' ' :: t ++ [' ']

/-- Compound selectors, each after a combinator. -/
def sanitizeCompounds (ctx : SelectorContext) :
    List (Token × List Token) → Traced (Option Selected)
  | [] => pure (some ⟨[], false⟩)
  | (combinator, tokens) :: rest => do
    match ← sanitizeCompound ⟨ctx.confinement, ctx.attributes, rest.isEmpty⟩ tokens with
    | none => pure none
    | some compound =>
      match ← sanitizeCompounds ctx rest with
      | none => pure none
      | some more =>
        pure (some ⟨combinatorText combinator ++ compound.text ++ more.text,
          compound.isSensitive || more.isSensitive⟩)

/-- What every selector begins with. -/
def Confinement.start (c : Confinement) : Text :=
  match c.containerClass with
  | none => []
  | some name => '.' :: name ++ [' ']

/-- A complex selector. -/
def sanitizeComplex (ctx : SelectorContext) (tokens : List Token) :
    Traced (Option Selected) := do
  let parts := splitAtTop isCombinator 0 tokens
  match ← sanitizeCompound ⟨ctx.confinement, ctx.attributes,
    parts.others.isEmpty⟩ parts.first with
  | none => pure none
  | some first =>
    match ← sanitizeCompounds ctx parts.others with
    | none => pure none
    | some more =>
      pure (some ⟨ctx.confinement.start ++ first.text ++ more.text,
        first.isSensitive || more.isSensitive⟩)

/-- One selector of a list. A selector that is dropped is reported. -/
def sanitizeSelector (ctx : SelectorContext) (tokens : List Token) :
    Traced (Option Selected) := do
  match ← (if tokens.isEmpty then pure none else sanitizeComplex ctx tokens) with
  | some selected => pure (some selected)
  | none => Traced.reporting (.untranslatableSelector tokens.flatten) none

/-! ## Lists -/

/-- The selectors that are left of a list. -/
structure Selection where
  /-- Those that say nothing about visited links. -/
  insensitive : List Text
  /-- Those that tell visited links from others. -/
  sensitive : List Text
deriving DecidableEq

namespace Selection

/-- No selector. -/
def empty : Selection := ⟨[], []⟩

/-- A selector in front of others. -/
def cons (s : Selected) (rest : Selection) : Selection :=
  if s.isSensitive then { rest with sensitive := s.text :: rest.sensitive }
  else { rest with insensitive := s.text :: rest.insensitive }

/-- No selector is left. -/
def isEmpty (s : Selection) : Bool :=
  s.insensitive.isEmpty && s.sensitive.isEmpty

end Selection

/-- The selectors of a list, as tokens. -/
def splitSelectors (tokens : List Token) : List (List Token) :=
  (splitAtTop (· = Token.comma) 0 (normalizeSpaces tokens)).toList

/-- Sanitizes selectors one after the other. -/
def sanitizeEach (ctx : SelectorContext) : List (List Token) → Traced Selection
  | [] => pure .empty
  | tokens :: rest => do
    let selected ← sanitizeSelector ctx tokens
    let more ← sanitizeEach ctx rest
    pure (match selected with
      | some s => more.cons s
      | none => more)

/-- Sanitizes a list of selectors. -/
def sanitizeSelectors (ctx : SelectorContext) (tokens : List Token) : Traced Selection :=
  sanitizeEach ctx (splitSelectors tokens)

/-- A list of selectors that may have been given up. -/
structure Screening where
  /-- The selectors that are left, unless the list was given up. -/
  selection : Option Selection
  /-- The selectors that were dropped. -/
  dropped : List (List Token)

/-- Whether to go on when a selector is dropped: the answer to the tokens of the selectors
that were dropped before it, and to its own tokens. -/
abbrev GoesOn := List (List Token) → List Token → Bool

/-- Sanitizes selectors one after the other, after some were dropped, and asks about each
that is dropped whether to go on. -/
def screenEach (ctx : SelectorContext) (goesOn : GoesOn) (before : List (List Token)) :
    List (List Token) → Traced Screening
  | [] => pure ⟨some .empty, before⟩
  | tokens :: rest => do
    match ← sanitizeSelector ctx tokens with
    | some s =>
      let more ← screenEach ctx goesOn before rest
      pure { more with selection := more.selection.map (·.cons s) }
    | none =>
      if goesOn before tokens then screenEach ctx goesOn (before ++ [tokens]) rest
      else pure ⟨none, before ++ [tokens]⟩

/-- Sanitizes a list of selectors, and asks about each that is
dropped whether to go on. -/
def sanitizeTolerantly (ctx : SelectorContext) (goesOn : GoesOn) (tokens : List Token) :
    Traced Screening :=
  screenEach ctx goesOn [] (splitSelectors tokens)

end CssGuard
