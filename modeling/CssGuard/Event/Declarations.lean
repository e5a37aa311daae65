import CssGuard.Event.Basic

/-!
# Reading declarations

A declaration is a property name, a colon and a value up to a semicolon or the end of the
block. A declaration that is malformed is passed over up to the place where the next one
can begin, blocks inside it as a whole.

- `afterBlock`, `afterDeclaration`: what follows a block, and a malformed declaration
  (`_skip_block`, `_skip_declaration`)
- `readValue`: the tokens of a value
- `readDeclaration`: one declaration (`_declaration`)
- `readBody`: the declarations of a ruleset, up to its end (`_ruleset`)
- `declarationSignals`: the declarations of a style attribute (`parse_declarations`)
-/

namespace CssGuard

open Text

/-- What follows a block, when `depth` blocks are open inside it. -/
def afterBlock : Nat → List Token → List Token
  | _, [] => []
  | depth, t :: rest =>
    if t = Token.openBrace then afterBlock (depth + 1) rest
    else if t = Token.closeBrace then
      match depth with
      | 0 => rest
      | depth + 1 => afterBlock depth rest
    else afterBlock depth rest

/-- Where the next declaration can begin, when `depth` blocks are
open inside the current one. -/
def afterDeclaration : Nat → List Token → List Token
  | _, [] => []
  | depth, t :: rest =>
    if t = Token.openBrace then afterDeclaration (depth + 1) rest
    else
      match depth with
      | 0 =>
        if t = Token.closeBrace then t :: rest
        else if t = Token.semicolon then rest
        else afterDeclaration 0 rest
      | depth + 1 =>
        afterDeclaration (if t = Token.closeBrace then depth else depth + 1) rest

/-- A value as it was read. -/
structure ValueReading where
  /-- The tokens of the value, spaces and blocks left out. -/
  value : List Token
  /-- Whether a block was left out. -/
  hasBlock : Bool
  /-- What follows the declaration. -/
  rest : List Token

/-- A reading with one more token at the beginning of the value. -/
def ValueReading.cons (t : Token) (r : ValueReading) : ValueReading :=
  { r with value := t :: r.value }

/-- A reading with a block left out. -/
def ValueReading.withBlock (r : ValueReading) : ValueReading :=
  { r with hasBlock := true }

/-- Reads a value, when `depth` blocks are open inside it. -/
def readValue : Nat → List Token → ValueReading
  | _, [] => ⟨[], false, []⟩
  | depth, t :: rest =>
    if t = Token.openBrace then (readValue (depth + 1) rest).withBlock
    else
      match depth with
      | 0 =>
        if t = Token.closeBrace then ⟨[], false, t :: rest⟩
        else if t = Token.semicolon then ⟨[], false, rest⟩
        else if t = Token.space then readValue 0 rest
        else (readValue 0 rest).cons t
      | depth + 1 => readValue (if t = Token.closeBrace then depth else depth + 1) rest

/-- The token can be the name of a property: it begins like an
identifier and opens no call. -/
def Token.isPropertyName (t : Token) : Bool :=
  begins t && !t.opensParen
where
  /-- The first character, after a hyphen, can begin an identifier. -/
  begins : Token → Bool
    | '-' :: c :: _ => isNameStart c || c = '\\'
    | c :: _ => isNameStart c || c = '\\'
    | [] => false

/-- Tokens without a space at the beginning. -/
def skipSpace : List Token → List Token
  | [] => []
  | t :: rest => if t = Token.space then rest else t :: rest

/-- A declaration as it was read. -/
structure DeclarationReading where
  /-- The declaration, or what is wrong with it; an empty one is neither. -/
  signal : Option Signal
  /-- What follows the declaration. -/
  rest : List Token

/-- Reads the declaration that begins with `name`. -/
def readDeclaration (name : Token) (rest : List Token) : DeclarationReading :=
  if !name.isPropertyName then
    ⟨some (.issue (.declarationWithoutName name)), afterDeclaration 0 rest⟩
  else
    match skipSpace rest with
    | Token.colon :: rest =>
      let reading := readValue 0 rest
      let signal : Option Signal :=
        if reading.hasBlock then some (.issue (.declarationWithBlock name))
        else if reading.value.isEmpty then none
        else some (.event (.declaration (lower name) reading.value))
      ⟨signal, reading.rest⟩
    | rest => ⟨some (.issue (.declarationWithoutColon name)), afterDeclaration 0 rest⟩

/-! ## The rest is never longer -/

theorem length_afterBlock_le (depth : Nat) (ts : List Token) :
    (afterBlock depth ts).length ≤ ts.length := by
  fun_induction afterBlock depth ts <;> simp_all <;> omega

theorem length_afterDeclaration_le (depth : Nat) (ts : List Token) :
    (afterDeclaration depth ts).length ≤ ts.length := by
  fun_induction afterDeclaration depth ts <;> simp_all <;> omega

theorem length_rest_readValue_le (depth : Nat) (ts : List Token) :
    (readValue depth ts).rest.length ≤ ts.length := by
  fun_induction readValue depth ts <;>
    simp_all [ValueReading.cons, ValueReading.withBlock] <;> omega

theorem length_skipSpace_le (ts : List Token) : (skipSpace ts).length ≤ ts.length := by
  fun_cases skipSpace ts <;> simp

theorem length_rest_readDeclaration_le (name : Token) (ts : List Token) :
    (readDeclaration name ts).rest.length ≤ ts.length := by
  have hskip := length_skipSpace_le ts
  unfold readDeclaration
  split
  · exact length_afterDeclaration_le 0 ts
  · split
    · rename_i rest heq
      have := length_rest_readValue_le 0 rest
      simp_all; omega
    · exact Nat.le_trans (length_afterDeclaration_le 0 _) hskip

/-! ## Lists of declarations -/

/-- The declarations of a ruleset and what follows its end. -/
structure BodyReading where
  signals : List Signal
  rest : List Token

/-- A reading with one more signal, if there is one, at the beginning. -/
def BodyReading.cons (signal : Option Signal) (r : BodyReading) : BodyReading :=
  { r with signals := signal.toList ++ r.signals }

/-- Reads the declarations of a ruleset, up to the brace that closes it. -/
def readBody : List Token → BodyReading
  | [] => ⟨[], []⟩
  | t :: rest =>
    if t = Token.closeBrace then ⟨[], rest⟩
    else if t = Token.space ∨ t = Token.semicolon then readBody rest
    else if t = Token.openBrace then
      have := length_afterBlock_le 0 rest
      readBody (afterBlock 0 rest)
    else
      have := length_rest_readDeclaration_le t rest
      (readBody (readDeclaration t rest).rest).cons (readDeclaration t rest).signal
termination_by ts => ts.length

/-- The declarations of a style attribute; a brace that closes nothing is passed over. -/
def declarationSignals : List Token → List Signal
  | [] => []
  | t :: rest =>
    if t = Token.space ∨ t = Token.semicolon ∨ t = Token.closeBrace then
      declarationSignals rest
    else if t = Token.openBrace then
      have := length_afterBlock_le 0 rest
      declarationSignals (afterBlock 0 rest)
    else
      have := length_rest_readDeclaration_le t rest
      (readDeclaration t rest).signal.toList ++
        declarationSignals (readDeclaration t rest).rest
termination_by ts => ts.length

theorem length_rest_readBody_le (ts : List Token) :
    (readBody ts).rest.length ≤ ts.length := by
  fun_induction readBody ts <;> simp_all [BodyReading.cons] <;> omega

end CssGuard
