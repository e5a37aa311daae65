import CssGuard.Selector.Attribute

/-!
# Compound selectors

A compound selector is rebuilt from the pieces it may hold: an element or a star, ids,
classes and attribute selectors, and at the end one pseudo-class or pseudo-element.

- `pseudoClasses`, `historyPseudoClasses`, `pseudoElements`: the
  names that may follow a colon
- `isSelectable`: the names of ids and classes (`_valid_name`)
- `sanitizePieces`: the pieces after the element
- `sanitizeCompound`: a whole compound selector (`_Compound.sanitize`)
-/

namespace CssGuard

open Text

/-- The pseudo-classes that say nothing about visited links. -/
def pseudoClasses : List Text :=
  Text.ofStrings
    ["active", "after", "before", "blank", "checked", "default", "disabled",
      "drop", "empty", "enabled", "first", "first-child", "first-letter", "first-line",
      "first-of-type", "fullscreen", "focus", "hover", "in-range", "indeterminate",
      "invalid", "last-child", "last-of-type", "left", "only-child", "only-of-type",
      "optional", "out-of-range", "placeholder-shown", "read-only", "read-write",
      "required", "right", "root", "scope", "user-error", "valid"]

/-- The pseudo-classes that tell visited links from others. -/
def historyPseudoClasses : List Text :=
  ["link", "visited"]

/-- The pseudo-elements. -/
def pseudoElements : List Text :=
  ["after", "before", "first-letter", "first-line"]

/-- The pseudo-classes of the outermost element. -/
def rootPseudoClasses : List Text :=
  ["root", "scope"]

/-- A name that an id or a class may have: no low line in front, not two at the end. -/
def isSelectable (name : Text) : Bool :=
  isIdentLine name && name.head? ≠ some '_' && !List.isSuffixOf ['_', '_'] name

/-- What a compound selector depends on. -/
structure CompoundContext where
  confinement : Confinement
  attributes : AttributeTable
  /-- The compound is the last one of its selector. -/
  isLast : Bool

/-- The element of a compound selector: the name to write, and
the one that was written. -/
structure Subject where
  element : Text
  source : Text
deriving DecidableEq

/-- The subject of a compound selector without an element. -/
def Subject.none : Subject := ⟨[], []⟩

/-- A sanitized compound or complex selector. -/
structure Selected where
  text : Text
  /-- The selector tells visited links from others. -/
  isSensitive : Bool
deriving DecidableEq

/-! ## Pseudo-classes -/

/-- A pseudo-class or pseudo-element: its colons and its name. -/
structure Pseudo where
  isElement : Bool
  name : Text
deriving DecidableEq

namespace Pseudo

/-- Reads what follows a colon, and gives the rest; a missing name is empty. -/
def read : List Token → Pseudo × List Token
  | Token.colon :: name :: rest => (⟨true, lower name⟩, rest)
  | [Token.colon] => (⟨true, []⟩, [])
  | name :: rest => (⟨false, lower name⟩, rest)
  | [] => (⟨false, []⟩, [])

/-- The text of a pseudo-class or pseudo-element. -/
def render (p : Pseudo) : Text :=
  (if p.isElement then [':', ':'] else [':']) ++ p.name

/-- The name is on the list for its colons. -/
def isKnown (p : Pseudo) : Bool :=
  if p.isElement then p.name ∈ pseudoElements
  else p.name ∈ pseudoClasses || p.name ∈ historyPseudoClasses

/-- The pseudo-class tells visited links from others. -/
def isHistory (p : Pseudo) : Bool :=
  p.name ∈ historyPseudoClasses

/-- The pseudo-class selects the outermost element. -/
def isRoot (p : Pseudo) : Bool :=
  !p.isElement && p.name ∈ rootPseudoClasses

end Pseudo

/-- What is wrong with a pseudo-class on a subject, when `rest` follows it. -/
def pseudoIssue? (ctx : CompoundContext) (source : Text) (p : Pseudo)
    (rest : List Token) : Option Issue :=
  if !p.isKnown then some (.disallowedPseudo p.render)
  else if p.isHistory && !(source = [] || source = ['*'] || source = ['a']) then
    some (.historyPseudoOn p.name source)
  else if p.isRoot && !ctx.isLast && ctx.confinement.containerClass.isNone then
    some (.rootAncestor p.render)
  else if !rest.isEmpty then some .pseudoNotLast
  else none

/-- The end of a compound selector with a pseudo-class. Only links are visited, so on them
the element is the name for a link. -/
def sanitizePseudo (ctx : CompoundContext) (subject : Subject) (front : Text)
    (tokens : List Token) :
    Traced (Option Selected) :=
  let (p, rest) := Pseudo.read tokens
  match pseudoIssue? ctx subject.source p rest with
  | some cause => Traced.reporting cause none
  | none =>
    if p.isHistory then
      pure ((ctx.confinement.tagPolicy ['a']).map fun link =>
        ⟨link ++ front ++ p.render, true⟩)
    else pure (some ⟨subject.element ++ front ++ p.render, false⟩)

/-! ## Pieces -/

/-- The rest of a compound selector, when `front` was written after the subject. -/
def sanitizePieces (ctx : CompoundContext) (subject : Subject) (front : Text) :
    List Token → Traced (Option Selected)
  | [] =>
    let text := subject.element ++ front
    pure (if text.isEmpty then none else some ⟨text, false⟩)
  | t :: rest =>
    if t.head? = some '#' then
      if isSelectable t.tail then
        sanitizePieces ctx subject (front ++ t ++ ctx.confinement.idSuffix) rest
      else Traced.reporting (.badId t) none
    else if t = ['.'] then
      match rest with
      | [] => Traced.reporting (.badClass []) none
      | name :: rest =>
        if isSelectable name then sanitizePieces ctx subject (front ++ '.' :: name) rest
        else Traced.reporting (.badClass name) none
    else if t = ['['] then
      match h : rest.dropWhile (· ≠ [']']) with
      | [] => Traced.reporting .unclosedAttribute none
      | _ :: after =>
        have : after.length < rest.length := by
          have := (List.dropWhile_sublist (l := rest) (· ≠ [']'])).length_le
          simp only [h, List.length_cons] at this
          omega
        match sanitizeAttribute ctx.confinement.idSuffix ctx.attributes subject.source
            (rest.takeWhile (· ≠ [']'])) with
        | .error cause => Traced.reporting cause none
        | .ok text => sanitizePieces ctx subject (front ++ text) after
    else if t = Token.colon then sanitizePseudo ctx subject front rest
    else Traced.reporting (.strayInSelector t) none
termination_by ts => ts.length

/-- A compound selector. -/
def sanitizeCompound (ctx : CompoundContext) : List Token → Traced (Option Selected)
  | [] => pure none
  | t :: rest =>
    let name := lower t
    if name = ['*'] then sanitizePieces ctx ⟨['*'], ['*']⟩ [] rest
    else if isIdentLine name then
      if name = "html" && !ctx.isLast then Traced.reporting .htmlAncestor none
      else
        match ctx.confinement.tagPolicy name with
        | none => Traced.reporting (.disallowedElement name) none
        | some element => sanitizePieces ctx ⟨element, name⟩ [] rest
    else sanitizePieces ctx Subject.none [] (t :: rest)

end CssGuard
