import CssGuard.Text.Basic

/-!
# Elements and attributes

What selectors may speak about: the elements that can be selected, and the attributes that
can be tested, each with the kind of its values.

- `safeElements`, `TagPolicy`: the elements, and a choice of the names written in their
  place (`SAFE_ELEMENTS`, `default_tag_policy`)
- `AttributeKind`: the kind of an attribute's values, which decides which tests carry over
  to a document whose names were changed (`AttrType`)
- `AttributeTable`, `attributeKind?`: the attributes of elements (`attribute_type`)
-/

namespace CssGuard

open scoped Text

/-! ## Elements -/

/-- The elements that can be selected. -/
def safeElements : List Text :=
  Text.ofStrings
    ["a", "abbr", "acronym", "address", "area", "article", "aside", "audio", "b",
      "bdi", "bdo", "big", "blockquote", "br", "button", "canvas", "caption", "center",
      "cite", "code", "col", "colgroup", "data", "datalist", "dd", "del", "details",
      "dfn", "dialog", "dir", "div", "dl", "dt", "em", "fieldset", "figcaption", "figure",
      "font", "footer", "form", "h1", "h2", "h3", "h4", "h5", "h6", "header", "hgroup",
      "hr", "i", "img", "input", "ins", "kbd", "label", "legend", "li", "main", "map",
      "mark", "menu", "meter", "nav", "nobr", "ol", "optgroup", "option", "output", "p",
      "picture", "pre", "progress", "q", "rp", "rt", "ruby", "s", "samp", "section",
      "select", "small", "source", "span", "strike", "strong", "sub", "summary", "sup",
      "table", "tbody", "td", "textarea", "tfoot", "th", "thead", "time", "tr", "track",
      "tt", "u", "ul", "var", "video", "wbr"]

/-- A tag policy returns the name to write in place of an
element's, or refuses the element. -/
abbrev TagPolicy := Text → Option Text

/-- Safe elements keep their names, others are refused. -/
def TagPolicy.standard : TagPolicy :=
  fun name => if name ∈ safeElements then some name else none

/-! ## Attributes -/

/-- The kind of an attribute's values. -/
inductive AttributeKind where
  | plain
  | classes
  | localName
  | globalName
  | id
  | idRef
  | idRefs
  | uri
  | uriFragment
  | script
  | style
  | frameTarget
deriving DecidableEq

namespace AttributeKind

/-- All kinds. -/
def all : List AttributeKind :=
  [plain, classes, localName, globalName, id, idRef, idRefs, uri, uriFragment,
    script, style, frameTarget]

/-- The name of a kind. -/
def label : AttributeKind → Text
  | plain => "none"
  | classes => "classes"
  | localName => "local_name"
  | globalName => "global_name"
  | id => "id"
  | idRef => "idref"
  | idRefs => "idrefs"
  | uri => "uri"
  | uriFragment => "uri_fragment"
  | script => "script"
  | style => "style"
  | frameTarget => "frame_target"

/-- The kind with a name. -/
def ofLabel? (name : Text) : Option AttributeKind :=
  all.find? (·.label = name)

end AttributeKind

/-- Kinds by element and attribute, written `element::attribute`; a
star stands for every element.
-/
abbrev AttributeTable := List (Text × AttributeKind)

/-- The key of an element's attribute. -/
def attributeKey (element name : Text) : Text :=
  element ++ "::" ++ name

/-- The kind of an attribute of an element, or of every element when it is empty or a
star. What is said of the element comes before what is said of every element. -/
def attributeKind? (table : AttributeTable) (element name : Text) :
    Option AttributeKind :=
  let general := table.lookup (attributeKey ['*'] name)
  if element = [] ∨ element = ['*'] then general
  else (table.lookup (attributeKey element name)).or general

/-- Attributes of one kind, by their keys. -/
def ofKind (kind : AttributeKind) (keys : List String) : AttributeTable :=
  keys.map fun key => (key.toList, kind)

/-- The attributes that can be tested where nothing else is said. -/
def standardAttributes : AttributeTable :=
  List.flatten
    [
      ofKind .plain ["*::dir", "*::hidden", "*::lang", "*::tabindex", "*::title",
        "a::hreflang", "a::rel", "a::type", "area::shape", "button::disabled",
        "button::type", "button::value", "col::span", "colgroup::span", "form::method",
        "img::alt", "img::height", "img::width", "input::checked", "input::disabled",
        "input::placeholder", "input::readonly", "input::type", "input::value",
        "ol::start", "ol::type", "option::selected", "option::value", "select::multiple",
        "td::colspan", "td::rowspan", "th::colspan", "th::rowspan", "th::scope",
        "ul::type"],
      ofKind .classes ["*::class"],
      ofKind .localName ["button::name", "input::name", "select::name", "textarea::name"],
      ofKind .globalName ["a::name", "form::name", "img::name", "map::name"],
      ofKind .id ["*::id"],
      ofKind .idRef ["label::for"],
      ofKind .idRefs ["td::headers", "th::headers"],
      ofKind .uri ["a::href", "area::href", "form::action", "img::src", "input::src"],
      ofKind .uriFragment ["img::usemap"],
      ofKind .script ["*::onclick", "*::onload"],
      ofKind .style ["*::style"],
      ofKind .frameTarget ["a::target", "area::target", "form::target"]]

end CssGuard
