import CssGuard.Event.Declarations

/-!
# Reading statements

A style sheet is a sequence of statements: at-rules, ended by a semicolon or followed by a
block of statements, and rulesets. Only at-rules nest, so the open blocks are known by
their number, and one pass over the tokens reads the whole sheet.

- `maxNesting`: how many blocks may be open at once (`MAX_NESTING_DEPTH`)
- `readSelector`: the selector of a ruleset (`_selector`)
- `readStatement`: one statement, or the opening or closing of a block
  (`_statement`, `_at_rule`, `_block`)
- `sheetSignals`: the signals of a style sheet (`parse_stylesheet`)
-/

namespace CssGuard

open Text

/-- At most this many blocks are open at once. -/
def maxNesting : Nat := 64

/-- A selector as it was read. -/
structure SelectorReading where
  selector : List Token
  /-- The closing brackets that are still awaited, innermost first. -/
  awaited : List Token
  /-- What follows the selector. -/
  rest : List Token

/-- The bracket that closes what a token opens. -/
def closer? (t : Token) : Option Token :=
  if t = ['['] then some [']'] else if t.opensParen then some Token.closeParen else none

/-- The token ends a selector, a header or a declaration. -/
def Token.isStructural (t : Token) : Bool :=
  t = Token.openBrace || t = Token.closeBrace || t = Token.semicolon

/-- A reading with one more token at the beginning of the selector. -/
def SelectorReading.cons (t : Token) (r : SelectorReading) : SelectorReading :=
  { r with selector := t :: r.selector }

/-- Reads a selector up to a token that cannot stand in one, when the
given brackets are awaited. -/
def readSelector (awaited : List Token) : List Token → SelectorReading
  | [] => ⟨[], awaited, []⟩
  | t :: rest =>
    match closer? t with
    | some closer => (readSelector (closer :: awaited) rest).cons t
    | none =>
      if awaited.head? = some t then (readSelector awaited.tail rest).cons t
      else if t.isStructural || t.isAt then ⟨[], awaited, t :: rest⟩
      else (readSelector awaited rest).cons t

/-- Tokens without a space at the end. -/
def dropEndSpace (ts : List Token) : List Token :=
  if ts.getLast? = some Token.space then ts.dropLast else ts

/-- What one step through a sheet gives. -/
structure StatementReading where
  signals : List Signal
  /-- How many blocks are open after the step. -/
  depth : Nat
  /-- What follows. -/
  rest : List Token

/-- Reads the at-rule with the given name, when `depth` blocks are open. -/
def readAtRule (depth : Nat) (name : Token) (rest : List Token) : StatementReading :=
  let header := rest.takeWhile fun t => !t.isStructural
  let start : Event := .startAtRule (lower name) (dropEndSpace (skipSpace header))
  match rest.dropWhile fun t => !t.isStructural with
  | Token.semicolon :: rest => ⟨[.event start, .event .endAtRule], depth, rest⟩
  | Token.openBrace :: rest =>
    if depth ≥ maxNesting then ⟨[.issue (.blocksTooDeep name depth)], depth,
      afterBlock 0 rest⟩
    else ⟨[.event start, .event .startBlock], depth + 1, rest⟩
  | rest => ⟨[.issue (.unterminatedAtRule name)], depth, rest⟩

/-- Reads the ruleset that begins with `first`, when `depth` blocks are open. A token that
neither belongs to a selector nor opens a block is passed over. -/
def readRuleset (depth : Nat) (first : Token) (rest : List Token) : StatementReading :=
  let reading := readSelector [] (first :: rest)
  match reading.rest with
  | Token.openBrace :: after =>
    if reading.awaited.isEmpty then
      let body := readBody after
      ⟨.event (.startRuleset (dropEndSpace reading.selector)) :: body.signals
        ++ [.event .endRuleset], depth, body.rest⟩
    else ⟨[.issue .unbalancedSelector], depth, afterBlock 0 after⟩
  | after =>
    if reading.selector.isEmpty then ⟨[], depth, rest⟩
    else if reading.awaited.isEmpty then ⟨[.issue .selectorWithoutBlock], depth, after⟩
    else ⟨[.issue .unbalancedSelector], depth, after⟩

/-- Reads the statement that begins with `first`, or the end of the
innermost of `depth` blocks. -/
def readStatement (depth : Nat) (first : Token) (rest : List Token) : StatementReading :=
  if first = Token.space then ⟨[], depth, rest⟩
  else if depth > 0 ∧ first = Token.closeBrace then
    ⟨[.event .endBlock, .event .endAtRule], depth - 1, rest⟩
  else if depth > 0 ∧ first = Token.semicolon then ⟨[], depth, rest⟩
  else if depth > 0 ∧ first = Token.openBrace then ⟨[], depth, afterBlock 0 rest⟩
  else if first.isAt then readAtRule depth first rest
  else readRuleset depth first rest

/-! ## The rest is shorter -/

theorem append_readSelector (awaited ts : List Token) :
    (readSelector awaited ts).selector ++ (readSelector awaited ts).rest = ts := by
  fun_induction readSelector awaited ts <;> simp_all [SelectorReading.cons]

theorem length_rest_readAtRule_le (depth : Nat) (name : Token) (ts : List Token) :
    (readAtRule depth name ts).rest.length ≤ ts.length := by
  have hdrop :=
    (List.dropWhile_sublist (l := ts) fun t : Token => !t.isStructural).length_le
  unfold readAtRule
  split
  · simp_all; omega
  · rename_i rest heq
    have := length_afterBlock_le 0 rest
    split <;> simp_all <;> omega
  · exact hdrop

theorem length_rest_readRuleset_le (depth : Nat) (first : Token) (ts : List Token) :
    (readRuleset depth first ts).rest.length ≤ ts.length := by
  have happ := congrArg List.length (append_readSelector [] (first :: ts))
  simp only [List.length_append, List.length_cons] at happ
  unfold readRuleset
  dsimp only
  split
  · rename_i after heq
    have h₁ := length_rest_readBody_le after
    have h₂ := length_afterBlock_le 0 after
    simp only [heq, List.length_cons] at happ
    split <;> simp only <;> omega
  · split
    · exact Nat.le_refl _
    · rename_i hsel
      have : 0 < (readSelector [] (first :: ts)).selector.length := by
        cases h : (readSelector [] (first :: ts)).selector <;> simp_all
      split <;> simp only <;> omega

theorem length_rest_readStatement_le (depth : Nat) (first : Token) (ts : List Token) :
    (readStatement depth first ts).rest.length ≤ ts.length := by
  have h₁ := length_rest_readAtRule_le depth first ts
  have h₂ := length_rest_readRuleset_le depth first ts
  have h₃ := length_afterBlock_le 0 ts
  unfold readStatement
  repeat' split
  all_goals first | exact Nat.le_refl _ | assumption

/-! ## Whole sheets -/

/-- The events that close `depth` blocks at the end of a sheet. -/
def closingSignals : Nat → List Signal
  | 0 => []
  | depth + 1 => .event .endBlock :: .event .endAtRule :: closingSignals depth

/-- The signals of the rest of a sheet, when `depth` blocks are open. -/
def statementSignals (depth : Nat) : List Token → List Signal
  | [] => closingSignals depth
  | first :: rest =>
    have := length_rest_readStatement_le depth first rest
    (readStatement depth first rest).signals
      ++ statementSignals (readStatement depth first rest).depth
        (readStatement depth first rest).rest
termination_by ts => ts.length

/-- The signals of a style sheet. -/
def sheetSignals (ts : List Token) : List Signal :=
  .event .startSheet :: statementSignals 0 ts ++ [.event .endSheet]

end CssGuard
