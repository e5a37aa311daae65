import CssGuard.Schema.Default
import CssGuard.Url.Policy
import CssGuard.Value.Call
import CssGuard.Value.Form

/-!
# Sanitizing a value

The tokens of a value are kept, put into normal form or dropped, each by its form and by
what the schema permits the property. The arguments of a call are sanitized in the same
way under the entry of the function. One refused URL empties the whole value.

- `ValueContext`: the property and all that its value depends on (`_Context`)
- `normalQuantity?`: a quantity without a plus sign and with a digit
  before its point (`_number`)
- `keep`: what is kept of one token
- `sanitizeAt`: the tokens of a value or of the arguments of a call (`_sanitize`)
- `sanitizeProperty`: the value of a property (`sanitize_property`)
- `joinValue`: the text of a value (`join_value`)
-/

namespace CssGuard

open Text Escape

/-- What a value depends on. -/
structure ValueContext where
  policy : Option Url.Policy
  /-- The URL of the sheet. -/
  base : Option Text
  schema : Schema
  /-- What global names get appended; without it they are dropped. -/
  idSuffix : Option Text

/-- Calls nested deeper than this are dropped. -/
def maxCallDepth : Nat := 32

/-- The text of a value: a space before every token but commas. -/
def joinValue : List Token → Text
  | [] => []
  | t :: rest => t ++ rest.flatMap fun t => if t = Token.comma then t else ' ' :: t

/-! ## Single tokens -/

/-- A number with a digit before its point. -/
def leadZero : Text → Text
  | '.' :: rest => '0' :: '.' :: rest
  | t => t

/-- A quantity in normal form, if the entry permits it. Where only quantities above zero
are permitted, one below zero becomes zero. -/
def normalQuantity? (e : Entry) (t : Token) : Option Token :=
  if isQuantity t then
    match t with
    | '+' :: rest => if e.allows .quantity then some (leadZero rest) else none
    | '-' :: rest =>
      if e.allows .negativeQuantity then some ('-' :: leadZero rest)
      else if e.allows .quantity then some ['0']
      else none
    | t => if e.allows .quantity then some (leadZero t) else none
  else none

/-- What is kept of a token. -/
inductive Piece where
  /-- A token by itself. -/
  | token (t : Token)
  /-- A word, which goes between quotes together with the words next to it. -/
  | word (w : Text)
deriving DecidableEq

/-- A part of a value while it is put together. -/
structure Draft where
  pieces : List Piece
  /-- A URL was refused. -/
  refused : Bool
deriving DecidableEq

namespace Draft

/-- Nothing. -/
def empty : Draft := ⟨[], false⟩

/-- One token. -/
def single (t : Token) : Draft := ⟨[.token t], false⟩

/-- A token if there is one. -/
def ofOption (t : Option Token) : Draft := ⟨(t.map Piece.token).toList, false⟩

/-- One part after another. -/
def append (d d' : Draft) : Draft := ⟨d.pieces ++ d'.pieces, d.refused || d'.refused⟩

end Draft

/-- The token for a URL of a value, or the report of its refusal. -/
def keepUrl (ctx : ValueContext) (property body : Text) : Traced Draft := do
  let uri := decode body
  match ← Url.accept ctx.policy (Url.resolve ctx.base uri) property with
  | some uri => pure (.single (Url.token uri))
  | none => Traced.reporting (.rejectedUrl property uri) ⟨[], true⟩

/-- What is kept of a token that opens no call. -/
def keepForm (ctx : ValueContext) (property : Text) (e : Entry) (raw : Token) :
    Form → Traced Draft
  | .string (some body) =>
    if e.allows .url && !e.allows .unreservedWord then
      if ctx.policy.isSome then keepUrl ctx property body else pure .empty
    else if e.allows .quotedString && !(e.allows .url && e.allows .unreservedWord) then
      pure (.single (quote (decode body)))
    else pure .empty
  | .keyword => pure (.single (lower raw))
  | .color => pure (if e.allows .hashColor then .single (lower raw) else .empty)
  | .quantity => pure (.ofOption (normalQuantity? e (lower raw)))
  | .url (some body) =>
    if e.allows .url && ctx.policy.isSome then keepUrl ctx property body else pure .empty
  | .name =>
    if !e.allows .propertyName then pure (.ofOption (ctx.idSuffix.map (raw ++ ·)))
    else if !e.allows .globalName && (ctx.schema.find? (lower raw)).isSome then
      pure (.single (lower raw))
    else pure .empty
  | .word => pure ⟨[.word (lower raw)], false⟩
  | _ => pure .empty

/-- What is kept of a token that opens no call. A token of which
nothing is kept is reported. -/
def keep (ctx : ValueContext) (property : Text) (e : Entry) (raw : Token) :
    Traced Draft :=
  match Form.of e raw with
  | .blank => pure .empty
  | form => do
    let draft ← keepForm ctx property e raw form
    if draft.pieces.isEmpty then Traced.report (.disallowedValue raw property)
    pure draft

/-! ## Values -/

/-- A sanitized value. -/
structure Kept where
  tokens : List Token
  /-- A URL was refused. -/
  refused : Bool
deriving DecidableEq

/-- A string token for words that were written without quotes. -/
def quoteWords (words : Text) : Token :=
  '"' :: words ++ ['"']

/-- The tokens of pieces, when words were read that are not yet between quotes. -/
def coalesce (pending : Option Text) : List Piece → List Token
  | [] => (pending.map quoteWords).toList
  | .word w :: rest =>
    coalesce (some (match pending with
      | none => w
      | some words => words ++ ' ' :: w)) rest
  | .token t :: rest => (pending.map quoteWords).toList ++ t :: coalesce none rest

/-- A part of a value with its words between quotes. -/
def Draft.finish (d : Draft) : Kept :=
  ⟨coalesce none d.pieces, d.refused⟩

/-- Sanitizes the arguments of a call under the entry of its function. -/
abbrev SanitizeArguments := Entry → List Token → Traced Kept

/-- What is kept of a call with the given arguments. -/
def keepCall (ctx : ValueContext) (property : Text) (e : Entry)
    (inner : Option SanitizeArguments) (opener : Token) (arguments : List Token) :
    Traced Draft :=
  match inner with
  | none => Traced.reporting (.callsTooDeep opener maxCallDepth) .empty
  | some inner =>
    match ctx.schema.function? e (withoutVendor opener.dropLast) with
    | none => Traced.reporting (.disallowedCall opener property) .empty
    | some function => do
      let kept ← inner function arguments
      if kept.refused then pure ⟨[], true⟩
      else if kept.tokens.isEmpty then pure .empty
      else pure (.single (opener ++ joinValue kept.tokens ++ ")"))

/-- Sanitizes tokens from the given place on, of which the first `skip` belong to a call
that was already dealt with. A call that is not closed takes everything after it along. -/
def sanitizeFrom (ctx : ValueContext) (property : Text) (e : Entry)
    (inner : Option SanitizeArguments) (ends : List (Nat × Nat)) :
    (place skip : Nat) → List Token → Traced Draft
  | _, _, [] => pure .empty
  | place, skip + 1, _ :: rest =>
    sanitizeFrom ctx property e inner ends (place + 1) skip rest
  | place, 0, raw :: rest =>
    if Form.of e raw = .call then
      match ends.lookup place with
      | none => Traced.reporting (.unterminatedCall (lower raw)) .empty
      | some close => do
        let draft ← keepCall ctx property e inner (lower raw)
          (rest.take (close - place - 1))
        let more ← sanitizeFrom ctx property e inner ends (place + 1) (close - place) rest
        pure (draft.append more)
    else do
      let draft ← keep ctx property e raw
      let more ← sanitizeFrom ctx property e inner ends (place + 1) 0 rest
      pure (draft.append more)

/-- Sanitizes tokens under an entry, with calls nested at most `levels` deep. -/
def sanitizeAt (ctx : ValueContext) (property : Text) :
    (levels : Nat) → Entry → List Token → Traced Kept
  | 0, e, ts => do
    let draft ← sanitizeFrom ctx property e none (callEnds ts) 0 0 ts
    pure draft.finish
  | levels + 1, e, ts => do
    let draft ←
      sanitizeFrom ctx property e (some (sanitizeAt ctx property levels))
        (callEnds ts) 0 0 ts
    pure draft.finish

/-- Sanitizes the value of a property; a refused URL leaves nothing of it. -/
def sanitizeProperty (ctx : ValueContext) (name : Text) (value : List Token) :
    Traced (List Token) :=
  match ctx.schema.find? (lower name) with
  | none => Traced.reporting (.unknownProperty name) []
  | some e => do
    let kept ← sanitizeAt ctx (lower name) maxCallDepth e value
    pure (if kept.refused then [] else kept.tokens)

end CssGuard
