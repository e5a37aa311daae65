/-!
# Text

A text is the list of its characters, so that recognizers and rewriters recurse over it
and their laws are laws of lists.

- `Text`: a list of characters; a string literal stands for its characters
- `isLineOf`: acceptance up to one final newline
- `fields`, `cut`, `afterLast`: splitting a text at a character
- `decimal`, `decimalInt`, `hex`, `padded`: numbers as text
-/

namespace CssGuard

/-- A text is its characters in order. -/
abbrev Text := List Char

/-- A string literal stands for its characters. -/
instance : Coe String Text := ⟨String.toList⟩

namespace Text

/-- Texts are compared character by character. -/
scoped instance lawfulBEq : LawfulBEq Text :=
  inferInstance

end Text

namespace Text.ByCharacter

/-- A statement about the characters of a text is decided by going through the text, and
not through all characters. -/
scoped instance decidableForallMem (p : Char → Prop) [DecidablePred p] (t : Text) :
    Decidable (∀ c, c ∈ t → p c) :=
  List.decidableBAll p t

/-- So is the existence of a character. -/
scoped instance decidableExistsMem (p : Char → Prop) [DecidablePred p] (t : Text) :
    Decidable (∃ c, c ∈ t ∧ p c) :=
  List.decidableBEx p t

end Text.ByCharacter

namespace Text

/-- A list of string literals as texts. -/
def ofStrings (list : List String) : List Text :=
  list.map String.toList

/-! ## Acceptance -/

/-- The test `accepts` holds of the text, or of the text without one final newline. -/
def isLineOf (accepts : Text → Bool) (t : Text) : Bool :=
  accepts t || (t.getLast? == some '\n' && accepts t.dropLast)

/-- A non-empty text whose characters all satisfy `p`. -/
def isRunOf (p : Char → Bool) (t : Text) : Bool :=
  !t.isEmpty && t.all p

/-! ## Splitting -/

/-- The parts of a list between the occurrences of `sep`; always at least one. -/
def fields {α : Type} [DecidableEq α] (sep : α) : List α → List (List α)
  | [] => [[]]
  | a :: rest =>
    if a = sep then [] :: fields sep rest
    else match fields sep rest with
      | [] => [[a]]
      | field :: more => (a :: field) :: more

/-- Joins texts with `sep` between them. -/
def joined (sep : Text) : List Text → Text
  | [] => []
  | [t] => t
  | t :: rest => t ++ sep ++ joined sep rest

/-- The text before the first `c`, and the text after it if there is one. -/
def cut (c : Char) (t : Text) : Text × Option Text :=
  match t.span (· ≠ c) with
  | (before, []) => (before, none)
  | (before, _ :: after) => (before, some after)

/-- The text after the last `c`, which is the whole text when there is none. -/
def afterLast (c : Char) (t : Text) : Text :=
  (t.reverse.takeWhile (· ≠ c)).reverse

/-- Whether `part` occurs in a text. -/
def hasPart (part : Text) : Text → Bool
  | [] => part.isEmpty
  | c :: rest => part.isPrefixOf (c :: rest) || hasPart part rest

/-! ## Numbers as text -/

/-- A number in decimal digits. -/
def decimal (n : Nat) : Text :=
  Nat.toDigits 10 n

/-- An integer in decimal digits, with a sign when it is negative. -/
def decimalInt : Int → Text
  | .ofNat n => decimal n
  | .negSucc n => '-' :: decimal (n + 1)

/-- A number in small hexadecimal digits. -/
def hex (n : Nat) : Text :=
  Nat.toDigits 16 n

/-- A text filled up from the left with `fill` to at least `width` characters. -/
def padded (fill : Char) (width : Nat) (t : Text) : Text :=
  List.replicate (width - t.length) fill ++ t

end Text

end CssGuard
