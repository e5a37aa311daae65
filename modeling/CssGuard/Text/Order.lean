import CssGuard.Text.Basic

/-!
# Order of texts

Texts in the order of their code points, and lists of texts as sorted sets.
-/

namespace CssGuard.Text

/-- The first text comes before the second one, or they are equal: the first character in
which they differ decides, and a beginning comes before the whole. -/
def atMostAs : Text → Text → Bool
  | [], _ => true
  | _ :: _, [] => false
  | a :: s, b :: t => a < b || (a = b && atMostAs s t)

/-- The texts of a list, each once, in order. -/
def sortedSet (ts : List Text) : List Text :=
  ts.eraseDups.mergeSort atMostAs

end CssGuard.Text
