import CssGuard.Issue
import CssGuard.Text.Lower
import CssGuard.Text.Order

/-!
# Schemas

A schema says, property by property, which forms of tokens a value may hold: which kinds
of tokens (`Permission`), which keywords, and calls of which functions. A function has an
entry of its own, under its name followed by `()`, so its arguments are described in the
same way. Entries may refer to each other and to themselves, so a reference is the place
of an entry among all of them.

- `Permission`, `Permissions`: kinds of tokens, and sets of them (`PropBit`)
- `Entry`: what one property or function permits (`SchemaEntry`)
- `Schema`, `Schema.find?`, `Schema.function?`: entries by name, and the functions an
  entry permits (`PropertySchema`)
- `Schema.ofTable`: a schema from plain definitions; a function without an
  entry is refused (`from_table`)
-/

namespace CssGuard

open Text

/-! ## Permissions -/

/-- A kind of token that a value may hold, or a use that a property may have. -/
inductive Permission where
  /-- Numbers, with or without a unit. -/
  | quantity
  /-- Colours in hexadecimal digits. -/
  | hashColor
  /-- Numbers below zero. -/
  | negativeQuantity
  /-- Strings. -/
  | quotedString
  /-- URLs. -/
  | url
  /-- Words that are put between quotes. -/
  | unreservedWord
  /-- Names that are global to the document. -/
  | globalName
  /-- Names of properties. -/
  | propertyName
  /-- The property may differ between visited and other links. -/
  | inLink
deriving DecidableEq

namespace Permission

/-- All permissions, by ascending place. -/
def all : List Permission :=
  [quantity, hashColor, negativeQuantity, quotedString, url, unreservedWord, globalName,
    propertyName,
    inLink]

/-- The binary place that stands for the permission. -/
def place : Permission → Nat
  | quantity => 0
  | hashColor => 1
  | negativeQuantity => 2
  | quotedString => 3
  | url => 4
  | unreservedWord => 6
  | globalName => 9
  | propertyName => 10
  | inLink => 11

/-- The name under which a permission is listed. -/
def label : Permission → Text
  | quantity => "QUANTITY"
  | hashColor => "HASH_VALUE"
  | negativeQuantity => "NEGATIVE_QUANTITY"
  | quotedString => "QSTRING"
  | url => "URL"
  | unreservedWord => "UNRESERVED_WORD"
  | globalName => "GLOBAL_NAME"
  | propertyName => "PROPERTY_NAME"
  | inLink => "ALLOWED_IN_LINK"

end Permission

/-- A set of permissions as a number; places that stand for no permission are kept. -/
structure Permissions where
  code : Nat
deriving DecidableEq

namespace Permissions

/-- The set holds a permission. -/
def allows (ps : Permissions) (p : Permission) : Bool :=
  ps.code.testBit p.place

/-- The set has a place in common with a number. -/
def meets (ps : Permissions) (mask : Nat) : Bool :=
  ps.code &&& mask ≠ 0

/-- The set of the listed permissions. -/
def only (list : List Permission) : Permissions :=
  ⟨list.foldl (fun code p => code ||| 1 <<< p.place) 0⟩

/-- The permissions of the set, by ascending place. -/
def known (ps : Permissions) : List Permission :=
  Permission.all.filter ps.allows

/-- The places of the set that stand for no permission. -/
def unknown (ps : Permissions) : Nat :=
  ps.code - (only ps.known).code

/-- The set as it is listed: the names, then the other places as
one number, then the whole. -/
def shown (ps : Permissions) : Text :=
  let names := ps.known.map Permission.label
  let others := if ps.unknown = 0 ∨ names.isEmpty then [] else [decimal ps.unknown]
  let list : Text := if names.isEmpty then [] else "." ++ joined "|" (names ++ others)
  "<PropBit" ++ list ++ ": " ++ decimal ps.code ++ ">"

end Permissions

/-! ## Entries -/

/-- A reference to an entry: its place among the entries, in the
order in which they were made. -/
abbrev EntryRef := Nat

/-- What one property or function permits. -/
structure Entry where
  name : Text
  permissions : Permissions
  /-- The keywords, in groups. -/
  groups : List (List Text)
  /-- The entries of the functions that may be called, under their
  names without parentheses. -/
  functions : List (Text × EntryRef)
deriving DecidableEq

namespace Entry

/-- The entry holds a permission. -/
def allows (e : Entry) (p : Permission) : Bool :=
  e.permissions.allows p

/-- The keywords of all groups. -/
def literals (e : Entry) : List Text :=
  e.groups.flatten

/-- The names of the functions that may be called. -/
def functionNames (e : Entry) : List Text :=
  e.functions.map Prod.fst

/-- The entry as a value: its name and its permissions. -/
def shown (e : Entry) : Text :=
  "SchemaEntry(" ++ quoted e.name ++ ", " ++ e.permissions.shown ++ ")"

end Entry

/-- The entries that were made, and names that refer to them. -/
structure Schema where
  /-- All entries, in the order in which they were made; an entry may have
  lost its name to a later one. -/
  entries : List Entry
  /-- The entry under each name, in order. -/
  index : List (Text × EntryRef)
  /-- Each name is there once. -/
  names_nodup : (index.map Prod.fst).Nodup := by decide
  /-- Under a name there is an entry of this name. -/
  index_valid : ∀ p ∈ index, entries[p.2]?.map Entry.name = some p.1 := by decide
deriving DecidableEq

namespace Schema

/-- The schema without entries. -/
def empty : Schema :=
  ⟨[], [], .nil, fun _ h => nomatch h⟩

/-- The entry that is referred to. -/
def get? (s : Schema) (ref : EntryRef) : Option Entry :=
  s.entries[ref]?

/-- The entry under a name. -/
def find? (s : Schema) (name : Text) : Option Entry :=
  (s.index.lookup name).bind s.get?

/-- The name of the entry for a function. -/
def functionKey (function : Text) : Text :=
  function ++ "()"

/-- The entry that `e` has for a function. -/
def function? (s : Schema) (e : Entry) (function : Text) : Option Entry :=
  (e.functions.lookup function).bind s.get?

/-- The names, in order. -/
def names (s : Schema) : List Text :=
  s.index.map Prod.fst

end Schema

/-! ## Tables -/

/-- The definition of an entry: names in any case, functions with their parentheses. -/
structure Definition where
  name : Text
  permissions : Permissions := ⟨0⟩
  groups : List (List Text) := []
  functions : List Text := []

/-- The entry of a definition, which has no functions yet. -/
def Definition.entry (d : Definition) : Entry :=
  ⟨lower d.name, d.permissions, d.groups, []⟩

namespace Schema

/-- Puts a value under a name: in place of the value that has it, or at the end. -/
def assign {α : Type} (name : Text) (value : α) : List (Text × α) → List (Text × α)
  | [] => [(name, value)]
  | p :: rest => if p.1 = name then (name, value) :: rest else p :: assign name value rest

theorem mem_assign {α : Type} {name : Text} {value : α} {list : List (Text × α)}
    {p : Text × α} (h : p ∈ assign name value list) : p = (name, value) ∨ p ∈ list := by
  fun_induction assign name value list with grind

/-- A name is added at the end, or is there already. -/
theorem map_fst_assign {α : Type} (name : Text) (value : α) (list : List (Text × α)) :
    (assign name value list).map Prod.fst =
      if name ∈ list.map Prod.fst then list.map Prod.fst
      else list.map Prod.fst ++ [name] := by
  fun_induction assign name value list with grind

/-- Makes the entry of a definition and refers to it by its name. -/
def declare (s : Schema) (d : Definition) : Schema where
  entries := s.entries ++ [d.entry]
  index := assign d.entry.name s.entries.length s.index
  names_nodup := by
    have hnodup := s.names_nodup
    rw [map_fst_assign]
    split
    · exact hnodup
    · grind
  index_valid := by
    intro p hp
    rcases mem_assign hp with rfl | hp
    · rw [List.getElem?_concat_length]
      rfl
    · have hvalid := s.index_valid p hp
      obtain ⟨e, he, -⟩ := Option.map_eq_some_iff.mp hvalid
      rw [List.getElem?_append_left (List.getElem?_eq_some_iff.mp he).1, hvalid]

/-- To change the functions of an entry changes no name. -/
theorem map_name_modify (f : List (Text × EntryRef) → List (Text × EntryRef))
    (entries : List Entry) (owner ref : EntryRef) :
    (entries.modify owner fun e => { e with functions := f e.functions })[ref]?.map
      Entry.name = entries[ref]?.map Entry.name := by
  rw [List.getElem?_modify]
  cases entries[ref]? with
  | none => rfl
  | some e => exact congrArg some (by dsimp only; split <;> rfl)

/-- Lets the entry at `owner` refer to the entry at `target` by the name of a function. -/
def link (s : Schema) (owner : EntryRef) (function : Text) (target : EntryRef) :
    Schema where
  entries := s.entries.modify owner fun e =>
    { e with functions := assign function target e.functions }
  index := s.index
  names_nodup := s.names_nodup
  index_valid := by
    intro p hp
    rw [map_name_modify, s.index_valid p hp]

/-- Links a definition's entry to the entry of a function that the definition lists. The
function has to be listed with its parentheses, and its name has to be known. -/
def resolve (d : Definition) (owner : EntryRef) (s : Schema) (function : Text) :
    Except Misuse Schema :=
  let key := lower function
  match s.index.lookup key with
  | none => .error (.unknownFunction d.name function)
  | some target =>
    if List.isSuffixOf ['(', ')'] key then .ok (s.link owner key.dropLast.dropLast target)
    else .error (.unknownFunction d.name function)

/-- Links the entry under a definition's name to those of all functions that it lists. -/
def resolveAll (s : Schema) (d : Definition) : Except Misuse Schema :=
  match s.index.lookup d.entry.name with
  | none => .ok s
  | some owner => d.functions.foldlM (resolve d owner) s

/-- The schema with the definitions of a table. All entries are made before the first of
them is linked, so that a definition may list functions that are defined after it, or
itself. A later definition of a name takes the place of the earlier ones, and is linked to
the functions of all of them. The first function that cannot be linked is refused. -/
def ofTable (table : List Definition) : Except Misuse Schema :=
  table.foldlM resolveAll (table.foldl declare empty)

end Schema

/-! ## Vendor names -/

/-- What vendors put in front of names of their own. -/
def vendorMarks : List Text :=
  ["-webkit-", "-moz-", "-ms-", "-o-"]

/-- A name without what a vendor put in front of it. -/
def withoutVendor (name : Text) : Text :=
  match vendorMarks.find? (List.isPrefixOf · name) with
  | some mark => name.drop mark.length
  | none => name

end CssGuard
