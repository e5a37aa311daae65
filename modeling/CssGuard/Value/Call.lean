import CssGuard.Event.Basic

/-!
# Calls

A call is opened by a token that ends with a parenthesis and is closed by the parenthesis
that matches it. One pass over the tokens finds the matches.

- `Token.opensCall`: the token opens a call
- `callEnds`: the places of the openers that are closed, with the places where
  they are closed (`_call_ends`)
-/

namespace CssGuard

/-- The token opens a call. A parenthesis inside an open string opens none. -/
def Token.opensCall (t : Token) : Bool :=
  t.opensParen && t.head? ≠ some '"' && t.head? ≠ some '\''

/-- The state of the pass: the place of the next token, the places of the calls that are
open, innermost first, and the matches found. -/
structure CallScan where
  place : Nat
  opened : List Nat
  found : List (Nat × Nat)
deriving DecidableEq

/-- Takes the next token. -/
def CallScan.next (s : CallScan) (t : Token) : CallScan :=
  if t = Token.closeParen then
    match s.opened with
    | [] => { s with place := s.place + 1 }
    | i :: opened => ⟨s.place + 1, opened, (i, s.place) :: s.found⟩
  else if t.opensCall then { s with place := s.place + 1, opened := s.place :: s.opened }
  else { s with place := s.place + 1 }

/-- The calls that are closed: the place of the opener and the place
of its closing parenthesis. -/
def callEnds (ts : List Token) : List (Nat × Nat) :=
  (ts.foldl CallScan.next ⟨0, [], []⟩).found

end CssGuard
