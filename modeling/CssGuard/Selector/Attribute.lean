import CssGuard.Selector.Confinement
import CssGuard.Trace
import CssGuard.Value.Form

/-!
# Attribute selectors

An attribute selector names an attribute, and may compare its value. In a confined
document values that name things have a suffix, so only the comparisons that carry over
are kept, with the suffix added where it is needed.

- `translateValue?`: the value to compare with in a confined document (`_attribute_value`)
- `AttributeTest.read`: the name, operator, value and flag between the brackets
- `sanitizeAttribute`: the text of an attribute selector (`_attribute`)
-/

namespace CssGuard

open Text Escape

/-- The operators of attribute selectors. -/
def matchOperators : List Token :=
  ["=", "~=", "|=", "^=", "$=", "*="]

/-- How a comparison carries over to a confined document. -/
inductive Carry where
  /-- With the same value. -/
  | same
  /-- With the suffix added to the value. -/
  | suffixed

/-- How a comparison of names carries over when every name has a suffix. -/
def carryName (operator : Token) : Option Carry :=
  if operator = "=" || operator = "$=" then some .suffixed
  else if operator = "^=" then some .same
  else none

/-- How a comparison of lists of names carries over when every name has a suffix. -/
def carryNames (operator : Token) : Option Carry :=
  if operator = "~=" then some .suffixed else none

/-- How a comparison carries over for values of a kind whose names have a suffix. -/
def AttributeKind.carry (kind : AttributeKind) (operator : Token) : Option Carry :=
  match kind with
  | .id | .idRef | .globalName => carryName operator
  | .idRefs => carryNames operator
  | _ => none

/-- The values of the kind are the same in a confined document. -/
def AttributeKind.isKept : AttributeKind → Bool
  | .plain | .classes | .localName => true
  | _ => false

/-- The value to compare with in a confined document, if the comparison carries over. A
comparison that ignores case does not carry over when there is a suffix. -/
def translateValue? (suffix : Text) (kind : AttributeKind) (operator : Token)
    (value : Text) (ignoresCase : Bool) : Option Text :=
  if kind.isKept then some value
  else
    match kind.carry operator with
    | none => none
    | some carry =>
      if value.isEmpty || (ignoresCase && !suffix.isEmpty) then none
      else match carry with
        | .same => some value
        | .suffixed => some (value ++ suffix)

/-- A comparison of an attribute's value. -/
structure AttributeTest where
  operator : Token
  value : Text
  ignoresCase : Bool

/-- The value of a string token, or an identifier itself. -/
def attributeValue? (t : Token) : Option Text :=
  match t.stringBody? with
  | some body => some (decode body)
  | none => if isIdentLine t then some t else none

/-- Reads the comparison after the name of an attribute: an operator, a value, and maybe
the flag for ignoring case. -/
def AttributeTest.read (name : Text) : List Token → Except Issue AttributeTest
  | operator :: value :: flags =>
    if operator ∈ matchOperators && flags.length ≤ 1 then
      match attributeValue? value with
      | none => .error (.badAttributeValue name value)
      | some text =>
        match flags with
        | [] => .ok ⟨operator, text, false⟩
        | flag :: _ =>
          if lower flag = ['i'] then .ok ⟨operator, text, true⟩
          else .error (.badAttributeFlag name flag)
    else .error (.malformedAttribute name)
  | _ => .error (.malformedAttribute name)

/-- The text of a comparison. -/
def AttributeTest.render (t : AttributeTest) (value : Text) : Text :=
  t.operator ++ quote value ++ (if t.ignoresCase then [' ', 'i'] else [])

/-- The text that follows the name of an attribute of the given kind. -/
def sanitizeTest (suffix name : Text) (kind : AttributeKind) (tokens : List Token) :
    Except Issue Text :=
  match tokens with
  | [] => .ok []
  | tokens => do
    let test ← AttributeTest.read name tokens
    match translateValue? suffix kind test.operator test.value test.ignoresCase with
    | none => .error (.untranslatableAttribute name test.operator kind.label)
    | some value => .ok (test.render value)

/-- The text of the attribute selector with the given tokens between
its brackets, on an element. -/
def sanitizeAttribute (suffix : Text) (table : AttributeTable) (element : Text) :
    List Token → Except Issue Text
  | [] => .error .namelessAttribute
  | first :: rest =>
    if isIdentLine first then
      let name := lower first
      match attributeKind? table element name with
      | none => .error (.disallowedAttribute name)
      | some kind => do
        let test ← sanitizeTest suffix name kind rest
        .ok ('[' :: name ++ test ++ [']'])
    else .error .namelessAttribute

end CssGuard
