import CssGuard.Text.Basic

/-!
# Ranges of code points

A character property given as a table: closed ranges of code points in ascending order.
-/

namespace CssGuard.Text

/-- Closed ranges of code points, in ascending order. -/
abbrev Ranges := List (Nat × Nat)

/-- Whether a code point lies in one of the ranges; the search ends
at the first later range. -/
def Ranges.containsCode (n : Nat) : Ranges → Bool
  | [] => false
  | (first, last) :: rest =>
    if n < first then false else n ≤ last || Ranges.containsCode n rest

/-- Whether a character lies in one of the ranges. -/
def Ranges.contains (ranges : Ranges) (c : Char) : Bool :=
  ranges.containsCode c.toNat

end CssGuard.Text
