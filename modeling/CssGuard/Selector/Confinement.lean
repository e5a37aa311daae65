import CssGuard.Issue
import CssGuard.Markup
import CssGuard.Text.Ascii
import CssGuard.Text.Word

/-!
# Confinement

How selectors are confined to a part of a document: every selector begins at a container,
ids get a suffix, and element names are chosen by a tag policy. A confinement whose texts
could change the structure of a selector is refused, so one that exists is valid.

- `isIdentLine`, `isIdSuffix`: the texts that are accepted as a class and as a suffix
- `Confinement`: a valid confinement (`Virtualization`)
- `Confinement.ofSettings`: a confinement from settings of any kind
-/

namespace CssGuard

open Text

/-- An identifier in plain characters, maybe with a final newline. -/
def isIdentLine (t : Text) : Bool :=
  isLineOf isPlainIdent t

/-- Word characters and hyphens, maybe with a final newline. -/
def isIdSuffix (t : Text) : Bool :=
  isLineOf (List.all · fun c => isWordChar c || c = '-') t

/-- How selectors are confined. -/
structure Confinement where
  /-- What every id gets appended. -/
  idSuffix : Text := []
  /-- The class of the container; without it selectors are not prefixed. -/
  containerClass : Option Text := none
  /-- The names written in place of the names of elements. -/
  tagPolicy : TagPolicy := TagPolicy.standard
  idSuffix_valid : isIdSuffix idSuffix := by decide
  containerClass_valid : containerClass.all isIdentLine := by rfl

namespace Confinement

/-- No container, no suffix, and the names of safe elements. -/
def standard : Confinement := {}

/-- The confinement, which must be given. -/
def required : Option Confinement → Except Misuse Confinement
  | none => .error .noConfinement
  | some c => .ok c

/-- The settings of a confinement. -/
structure Settings where
  idSuffix : Setting := .text []
  containerClass : Setting := .absent
  tagPolicy : Hook TagPolicy := .supplied TagPolicy.standard

/-- A text that is valid as a suffix. -/
def checkIdSuffix (value : Setting) : Except Misuse { t : Text // isIdSuffix t } :=
  match value with
  | .text t => if h : isIdSuffix t then .ok ⟨t, h⟩ else .error (.invalidIdSuffix value)
  | _ => .error (.invalidIdSuffix value)

/-- A text that is valid as the class of a container, if there is one. -/
def checkContainerClass (value : Setting) :
    Except Misuse { c : Option Text // c.all isIdentLine } :=
  match value with
  | .absent => .ok ⟨none, rfl⟩
  | .text t =>
    if h : isIdentLine t then .ok ⟨some t, h⟩ else .error (.invalidContainerClass value)
  | _ => .error (.invalidContainerClass value)

/-- The confinement with the given settings. -/
def ofSettings (s : Settings) : Except Misuse Confinement := do
  let suffix ← checkIdSuffix s.idSuffix
  let container ← checkContainerClass s.containerClass
  match s.tagPolicy with
  | .supplied policy => .ok ⟨suffix, container, policy, suffix.2, container.2⟩
  | _ => .error (.notCallable "tag_policy")

end Confinement

end CssGuard
