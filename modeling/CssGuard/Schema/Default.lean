import CssGuard.Schema.Basic

/-!
# The default schema

What is permitted where nothing else is said: common properties of text, boxes, borders,
layout, lists, tables, counters and transitions.

- `defaultTable`: the definitions
- `defaultSchema`: the schema (`DEFAULT_SCHEMA`)
-/

namespace CssGuard

namespace DefaultSchema

open Permissions (only)

/-! ## Keywords -/

def commas : List Text := [","]

def slashes : List Text := ["/"]

def autoKeyword : List Text := ["auto"]

def noneKeyword : List Text := ["none"]

def normalKeyword : List Text := ["normal"]

def colors : List Text :=
  ["aqua", "black", "blue", "currentcolor", "fuchsia", "gray", "green", "grey",
    "lime", "maroon", "navy", "olive", "orange", "purple", "red", "silver", "teal",
    "transparent", "white", "yellow"]

def borderStyles : List Text :=
  ["dashed", "dotted", "double", "groove", "hidden", "inset", "none", "outset",
    "ridge", "solid"]

def borderWidths : List Text := ["medium", "thick", "thin"]

def fontFamilies : List Text :=
  ["cursive", "fantasy", "monospace", "sans-serif", "serif", "system-ui"]

def fontSizes : List Text :=
  ["large", "larger", "medium", "small", "smaller", "x-large", "x-small",
    "xx-large", "xx-small"]

def fontStyles : List Text := ["italic", "oblique"]

def fontWeights : List Text := ["bold", "bolder", "lighter"]

def fontVariants : List Text := ["small-caps"]

def displays : List Text :=
  ["block", "contents", "flex", "flow-root", "grid", "inline", "inline-block",
    "inline-flex", "inline-grid", "inline-table", "list-item", "none", "table",
    "table-caption", "table-cell", "table-column", "table-column-group",
    "table-footer-group", "table-header-group", "table-row", "table-row-group"]

/-- Without `fixed`: a fixed box can be drawn over the embedding page. -/
def positions : List Text := ["absolute", "relative", "static", "sticky"]

def sides : List Text := ["bottom", "center", "left", "right", "top"]

def textAligns : List Text := ["center", "end", "justify", "left", "right", "start"]

def textDecorations :
    List Text := ["blink", "line-through", "none", "overline", "underline"]

def textTransforms : List Text := ["capitalize", "lowercase", "none", "uppercase"]

def whiteSpaces : List Text := ["normal", "nowrap", "pre", "pre-line", "pre-wrap"]

def verticalAligns : List Text :=
  ["baseline", "bottom", "middle", "sub", "super", "text-bottom", "text-top", "top"]

def visibilities : List Text := ["collapse", "hidden", "visible"]

def overflows : List Text := ["auto", "hidden", "scroll", "visible"]

def floats : List Text := ["left", "none", "right"]

def clears : List Text := ["both", "left", "none", "right"]

def cursors : List Text :=
  ["auto", "crosshair", "default", "e-resize", "help", "move", "n-resize", "ne-resize",
    "not-allowed", "nw-resize", "pointer", "progress", "s-resize", "se-resize",
    "sw-resize", "text", "w-resize", "wait"]

def listStyleTypes : List Text :=
  ["circle", "decimal", "decimal-leading-zero", "disc", "lower-alpha", "lower-greek",
    "lower-latin", "lower-roman", "none", "square", "upper-alpha", "upper-latin",
    "upper-roman"]

def listStylePositions : List Text := ["inside", "outside"]

def backgroundRepeats : List Text :=
  ["no-repeat", "repeat", "repeat-x", "repeat-y", "round", "space"]

def backgroundAttachments : List Text := ["local", "scroll"]

def backgroundSizes : List Text := ["auto", "contain", "cover"]

def borderCollapses : List Text := ["collapse", "separate"]

def tableLayouts : List Text := ["auto", "fixed"]

def wordBreaks : List Text := ["break-all", "break-word", "keep-all", "normal"]

def overflowWraps : List Text := ["anywhere", "break-word", "normal"]

def boxSizings : List Text := ["border-box", "content-box"]

def timings : List Text :=
  ["ease", "ease-in", "ease-in-out", "ease-out", "linear", "step-end", "step-start"]

def flexDirections : List Text := ["column", "column-reverse", "row", "row-reverse"]

def flexWraps : List Text := ["nowrap", "wrap", "wrap-reverse"]

def alignments : List Text :=
  ["baseline", "center", "end", "flex-end", "flex-start", "space-around", "space-between",
    "space-evenly", "start", "stretch"]

def gradientDirections : List Text := ["bottom", "left", "right", "to", "top"]

def radialShapes : List Text :=
  ["at", "circle", "closest-corner", "closest-side", "ellipse", "farthest-corner",
    "farthest-side"]

def calcOperators : List Text := ["*", "+", "-", "/"]

/-! ## Functions -/

def calcFunction : List Text := ["calc()"]

def colorFunctions : List Text := ["rgb()", "rgba()", "hsl()", "hsla()"]

def imageFunctions : List Text :=
  ["linear-gradient()", "radial-gradient()", "repeating-linear-gradient()"]

/-! ## Entries of a kind -/

/-- Keywords only. -/
def nothing : Permissions := ⟨0⟩

/-- A length, which may be calculated. -/
def plainLength (name : Text) (groups : List (List Text)) : Definition :=
  ⟨name, only [.quantity], groups, calcFunction⟩

/-- A length that may be below zero. -/
def signedLength (name : Text) (groups : List (List Text)) : Definition :=
  ⟨name, only [.quantity, .negativeQuantity], groups, calcFunction⟩

/-- A colour. -/
def color (name : Text) : Definition :=
  ⟨name, only [.hashColor], [colors], colorFunctions⟩

/-- A colour that may differ between visited and other links. -/
def linkColor (name : Text) : Definition :=
  ⟨name, only [.hashColor, .inLink], [colors], colorFunctions⟩

/-- A border: style, width and colour. -/
def border (name : Text) : Definition :=
  ⟨name, only [.hashColor, .quantity], [borderStyles, borderWidths, colors],
    colorFunctions⟩

end DefaultSchema

open Permissions (only)
open DefaultSchema

/-- The definitions of the default schema. -/
def defaultTable : List Definition :=
  [
    -- Functions.
    ⟨"rgb()", only [.quantity], [commas, slashes], []⟩,
    ⟨"rgba()", only [.quantity], [commas, slashes], []⟩,
    ⟨"hsl()", only [.quantity], [commas, slashes], []⟩,
    ⟨"hsla()", only [.quantity], [commas, slashes], []⟩,
    ⟨"calc()", only [.quantity, .negativeQuantity], [calcOperators], calcFunction⟩,
    ⟨"linear-gradient()", only [.hashColor, .quantity, .negativeQuantity], [commas,
      gradientDirections, colors], colorFunctions ++ calcFunction⟩,
    ⟨"repeating-linear-gradient()", only [.hashColor, .quantity, .negativeQuantity],
      [commas, gradientDirections, colors], colorFunctions ++ calcFunction⟩,
    ⟨"radial-gradient()", only [.hashColor, .quantity],
      [commas, radialShapes, sides, colors], colorFunctions ++ calcFunction⟩,
    -- Colours and backgrounds.
    linkColor "color",
    color "background-color",
    color "border-color",
    color "border-top-color",
    color "border-right-color",
    color "border-bottom-color",
    color "border-left-color",
    color "outline-color",
    ⟨"background", only [.hashColor, .quantity, .negativeQuantity, .url], [colors,
      backgroundRepeats, backgroundAttachments, sides, noneKeyword, commas, slashes,
      backgroundSizes], colorFunctions ++ imageFunctions⟩,
    ⟨"background-image", only [.url], [noneKeyword, commas], imageFunctions⟩,
    ⟨"background-repeat", nothing, [backgroundRepeats, commas], []⟩,
    ⟨"background-attachment", nothing, [backgroundAttachments, commas], []⟩,
    ⟨"background-position", only [.quantity, .negativeQuantity], [sides, commas],
      calcFunction⟩,
    ⟨"background-size", only [.quantity], [backgroundSizes, commas], calcFunction⟩,
    ⟨"opacity", only [.quantity], [], []⟩,
    -- Box model.
    plainLength "width" [autoKeyword],
    plainLength "height" [autoKeyword],
    plainLength "min-width" [autoKeyword],
    plainLength "min-height" [autoKeyword],
    plainLength "max-width" [noneKeyword],
    plainLength "max-height" [noneKeyword],
    signedLength "margin" [autoKeyword],
    signedLength "margin-top" [autoKeyword],
    signedLength "margin-right" [autoKeyword],
    signedLength "margin-bottom" [autoKeyword],
    signedLength "margin-left" [autoKeyword],
    plainLength "padding" [],
    plainLength "padding-top" [],
    plainLength "padding-right" [],
    plainLength "padding-bottom" [],
    plainLength "padding-left" [],
    ⟨"box-sizing", nothing, [boxSizings], []⟩,
    -- Borders.
    border "border",
    border "border-top",
    border "border-right",
    border "border-bottom",
    border "border-left",
    border "outline",
    ⟨"border-style", nothing, [borderStyles], []⟩,
    plainLength "border-width" [borderWidths],
    ⟨"border-radius", only [.quantity], [slashes], calcFunction⟩,
    ⟨"border-collapse", nothing, [borderCollapses], []⟩,
    plainLength "border-spacing" [],
    -- Layout.
    ⟨"display", nothing, [displays], []⟩,
    ⟨"position", nothing, [positions], []⟩,
    signedLength "top" [autoKeyword],
    signedLength "right" [autoKeyword],
    signedLength "bottom" [autoKeyword],
    signedLength "left" [autoKeyword],
    ⟨"z-index", only [.quantity, .negativeQuantity], [autoKeyword], []⟩,
    ⟨"float", nothing, [floats], []⟩,
    ⟨"clear", nothing, [clears], []⟩,
    ⟨"visibility", nothing, [visibilities], []⟩,
    ⟨"overflow", nothing, [overflows], []⟩,
    ⟨"overflow-x", nothing, [overflows], []⟩,
    ⟨"overflow-y", nothing, [overflows], []⟩,
    signedLength "vertical-align" [verticalAligns],
    ⟨"flex-direction", nothing, [flexDirections], []⟩,
    ⟨"flex-wrap", nothing, [flexWraps], []⟩,
    ⟨"flex", only [.quantity], [autoKeyword, noneKeyword], []⟩,
    ⟨"flex-grow", only [.quantity], [], []⟩,
    ⟨"flex-shrink", only [.quantity], [], []⟩,
    plainLength "flex-basis" [autoKeyword],
    ⟨"justify-content", nothing, [alignments], []⟩,
    ⟨"align-items", nothing, [alignments], []⟩,
    ⟨"align-self", nothing, [alignments, autoKeyword], []⟩,
    plainLength "gap" [normalKeyword],
    -- Text and fonts.
    ⟨"font", only [.quantity, .quotedString, .unreservedWord],
      [fontFamilies, fontSizes, fontStyles, fontWeights, fontVariants, normalKeyword,
        commas, slashes], []⟩,
    ⟨"font-family", only [.quotedString, .unreservedWord], [fontFamilies, commas], []⟩,
    plainLength "font-size" [fontSizes],
    ⟨"font-style", nothing, [fontStyles, normalKeyword], []⟩,
    ⟨"font-weight", only [.quantity], [fontWeights, normalKeyword], []⟩,
    ⟨"font-variant", nothing, [fontVariants, normalKeyword], []⟩,
    plainLength "line-height" [normalKeyword],
    signedLength "letter-spacing" [normalKeyword],
    signedLength "word-spacing" [normalKeyword],
    ⟨"text-align", nothing, [textAligns], []⟩,
    ⟨"text-decoration", only [.hashColor], [textDecorations, colors], colorFunctions⟩,
    signedLength "text-indent" [],
    ⟨"text-transform", nothing, [textTransforms], []⟩,
    ⟨"white-space", nothing, [whiteSpaces], []⟩,
    ⟨"word-break", nothing, [wordBreaks], []⟩,
    ⟨"word-wrap", nothing, [overflowWraps], []⟩,
    ⟨"overflow-wrap", nothing, [overflowWraps], []⟩,
    ⟨"cursor", only [.inLink], [cursors], []⟩,
    -- Lists and tables.
    ⟨"list-style", only [.url], [listStyleTypes, listStylePositions], []⟩,
    ⟨"list-style-type", nothing, [listStyleTypes], []⟩,
    ⟨"list-style-position", nothing, [listStylePositions], []⟩,
    ⟨"list-style-image", only [.url], [noneKeyword], []⟩,
    ⟨"table-layout", nothing, [tableLayouts], []⟩,
    ⟨"caption-side", nothing, [["bottom", "top"]], []⟩,
    ⟨"empty-cells", nothing, [["hide", "show"]], []⟩,
    -- Counters and transitions.
    ⟨"counter-reset", only [.globalName, .quantity, .negativeQuantity],
      [noneKeyword], []⟩,
    ⟨"counter-increment", only [.globalName, .quantity, .negativeQuantity],
      [noneKeyword], []⟩,
    ⟨"transition-property", only [.propertyName], [["all"], noneKeyword, commas], []⟩,
    ⟨"transition-duration", only [.quantity], [commas], []⟩,
    ⟨"transition-timing-function", nothing, [timings, commas], []⟩,
    ⟨"transition", only [.propertyName, .quantity], [["all"], noneKeyword, timings,
      commas], []⟩]

/-- The schema that is used where no other is given. -/
@[irreducible] def defaultSchema : Schema :=
  match Schema.ofTable defaultTable with
  | .ok schema => schema
  | .error _ => .empty

end CssGuard
