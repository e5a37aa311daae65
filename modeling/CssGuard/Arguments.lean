import CssGuard.Text.Digit

/-!
# Arguments of a command line

An argument is an option or an operand. What begins with a hyphen need not be an option: a
negative number is an operand, and so is a text with a space in it that names no option,
such as a style sheet that begins with a hyphen.

- `OptionNames`: the options of a command
- `OptionNames.classify`: one argument by itself
- `OptionNames.read`: all arguments, each option with its value
-/

namespace CssGuard

open Text

/-- The options of a command, by name. -/
structure OptionNames where
  /-- Those that take a value. -/
  valued : List Text
  /-- Those that stand for themselves. -/
  switches : List Text := []

/-- An argument of a command line. -/
inductive Argument where
  /-- A text that is no option. -/
  | operand (text : Text)
  /-- An option, and its value if there is one. -/
  | option (name : Text) (value : Option Text)
deriving DecidableEq

/-- Digits, or a point with digits after it and maybe in front of it. -/
def isUnsignedNumber (t : Text) : Bool :=
  match cut '.' t with
  | (whole, none) => isRunOf isDecimal whole
  | (whole, some fraction) => whole.all isDecimal && isRunOf isDecimal fraction

/-- A number with a minus sign. -/
def isNegativeNumber : Text → Bool
  | '-' :: t => isLineOf isUnsignedNumber t
  | _ => false

namespace OptionNames

/-- All options. -/
def all (names : OptionNames) : List Text :=
  names.valued ++ names.switches

/-- The only long option that begins with a text. -/
def abbreviated? (names : OptionNames) (start : Text) : Option Text :=
  match names.all.filter fun name => List.isPrefixOf start name with
  | [name] => some name
  | _ => none

/-- The option of one letter that takes a value and is followed by it at once. -/
def attached? (names : OptionNames) (t : Text) : Option Argument :=
  if t.take 2 ∈ names.valued then some (.option (t.take 2) (some (t.drop 2))) else none

/-- The option that a text stands for. A name may be followed by an equals sign and a
value, and a long one may be cut short while it is clear. -/
def option? (names : OptionNames) (t : Text) : Option Argument :=
  if t ∈ names.all then some (.option t none)
  else
    let (name, value) := cut '=' t
    if name ∈ names.all then some (.option name value)
    else if List.isPrefixOf ['-', '-'] t then
      (names.abbreviated? name).map fun name => .option name value
    else names.attached? t

/-- What an argument is. One that looks like an option and names none is taken for an
option, unless it is a number or has a space in it. -/
def classify (names : OptionNames) (t : Text) : Argument :=
  if t.head? ≠ some '-' || t = ['-'] then .operand t
  else
    match names.option? t with
    | some a => a
    | none => if isNegativeNumber t || t.contains ' ' then .operand t else .option t none

/-- Reads the arguments of a command. The value of an option may be the next argument, and
after two hyphens there are only operands. -/
def read (names : OptionNames) : List Text → List Argument
  | [] => []
  | t :: rest =>
    if t = ['-', '-'] then rest.map .operand
    else
      match names.classify t, rest with
      | .option name none, value :: others =>
        if name ∈ names.valued then .option name (some value) :: read names others
        else .option name none :: read names (value :: others)
      | a, rest => a :: read names rest

end OptionNames

end CssGuard
