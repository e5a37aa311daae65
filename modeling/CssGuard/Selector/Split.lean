import CssGuard.Event.Basic

/-!
# Splitting selectors

A list of selectors is split at commas and a selector at its combinators, in
both cases only outside brackets. White space is a combinator too, so the spaces
that are none are removed first.

- `bracketDepth`: the number of open brackets after a token
- `isCombinator`: the tokens between two compound selectors
- `normalizeSpaces`: tokens without the spaces that combine
  nothing (`_normalize_whitespace`)
- `splitAtTop`: the parts between separators outside brackets (`_split_top_level`)
-/

namespace CssGuard

/-- The number of open brackets after a token; a closing bracket that
closes nothing does not count. -/
def bracketDepth (depth : Nat) (t : Token) : Nat :=
  if t = ['['] || t.opensParen then depth + 1
  else if t = [']'] || t = Token.closeParen then depth - 1
  else depth

/-- A token between two compound selectors. -/
def isCombinator (t : Token) : Bool :=
  t = Token.space || t = ['>'] || t = ['+'] || t = ['~']

/-- A token next to which white space means nothing. -/
def absorbsSpace (t : Token) : Bool :=
  isCombinator t || t = Token.comma

/-- Tokens kept so far, backwards, and the number of open brackets. -/
structure SpaceScan where
  depth : Nat
  kept : List Token
deriving DecidableEq

/-- The kept tokens without a space at the end. -/
def SpaceScan.trimmed (s : SpaceScan) : List Token :=
  if s.kept.head? = some Token.space then s.kept.tail else s.kept

/-- Takes the next token. -/
def SpaceScan.next (s : SpaceScan) (t : Token) : SpaceScan :=
  if t = Token.space then
    if s.depth > 0 || s.kept.head?.all absorbsSpace then s
      else { s with kept := t :: s.kept }
  else
    let depth := bracketDepth s.depth t
    ⟨depth, t :: if depth = 0 && absorbsSpace t then s.trimmed else s.kept⟩

/-- Tokens without the spaces that combine nothing: those inside brackets, at either end,
and next to a comma or another combinator. -/
def normalizeSpaces (ts : List Token) : List Token :=
  (ts.foldl SpaceScan.next ⟨0, []⟩).trimmed.reverse

/-- The parts of a token list, and the separators before all but the first. -/
structure Parts where
  first : List Token
  others : List (Token × List Token)
deriving DecidableEq

namespace Parts

/-- A token added to the front of the first part. -/
def cons (t : Token) (p : Parts) : Parts :=
  { p with first := t :: p.first }

/-- A separator, with an empty part before it. -/
def separate (t : Token) (p : Parts) : Parts :=
  ⟨[], (t, p.first) :: p.others⟩

/-- The parts without their separators. -/
def toList (p : Parts) : List (List Token) :=
  p.first :: p.others.map Prod.snd

end Parts

/-- Splits tokens at the separators outside brackets, when `depth` brackets are open. -/
def splitAtTop (isSeparator : Token → Bool) (depth : Nat) : List Token → Parts
  | [] => ⟨[], []⟩
  | t :: rest =>
    if depth = 0 && isSeparator t then (splitAtTop isSeparator 0 rest).separate t
    else (splitAtTop isSeparator (bracketDepth depth t) rest).cons t

end CssGuard
