import CssGuard.Proofs.Event.Rules

/-!
# Rules are read back

Rules are written as tokens: a selector and its declarations between braces, and an
at-rule with a semicolon or with its rules between braces. Rules that are well formed are
read back as they are, with no issue, wherever they stand.

- `readDeclaration_semicolon`, `readBody_declaration`: a declaration up to its semicolon
- `readStatement_atRule`, `readStatement_opening`, `readStatement_ruleset`: one statement
- `awaitedAfter`: the closing brackets that a selector leaves open
- `Rules.tokens`, `Rules.AreWellFormed`: rules as they are
  written, and which of them can be
- `sheetSignals_tokens`: well-formed rules are read back
-/

namespace CssGuard

open Text

/-! ## Declarations -/

theorem readValue_semicolon {value rest : List Token}
    (h : ∀ t ∈ value, ¬ t.isStructural) :
    readValue 0 (value ++ Token.semicolon :: rest) =
      ⟨value.filter (· ≠ Token.space), false, rest⟩ := by
  induction value with
  | nil => rfl
  | cons t value ih =>
    obtain ⟨ht, hvalue⟩ := List.forall_mem_cons.mp h
    have ih := ih hvalue
    simp only [Token.isStructural, Bool.or_eq_true, decide_eq_true_eq, not_or] at ht
    rw [List.cons_append, readValue, if_neg ht.1.1, if_neg ht.1.2, if_neg ht.2, ih,
      List.filter_cons]
    by_cases hspace : t = Token.space
    · simp [hspace]
    · simp [hspace, ValueReading.cons]

section Declaration

variable {name : Token} {spaced : List Token} (hname : name.isPropertyName)
  (hspaced : ∀ t ∈ spaced, ¬ t.isStructural) (hne : spaced.filter (· ≠ Token.space) ≠ [])

include hname hspaced hne

theorem readDeclaration_semicolon (rest : List Token) :
    readDeclaration name (Token.colon :: spaced ++ Token.semicolon :: rest) =
      ⟨some (.event (.declaration (lower name) (spaced.filter (· ≠ Token.space)))),
        rest⟩ := by
  have hskip : skipSpace (Token.colon :: spaced ++ Token.semicolon :: rest) =
      [':'] :: (spaced ++ Token.semicolon :: rest) := rfl
  have hvalue : (spaced.filter (· ≠ Token.space)).isEmpty = false :=
    List.isEmpty_eq_false_iff.mpr hne
  rw [readDeclaration, if_neg (by rw [hname]; decide), hskip]
  simp only [readValue_semicolon hspaced, hvalue]
  rfl

/-- A declaration is read, and then the rest of its ruleset. -/
theorem readBody_declaration (rest : List Token) :
    readBody (name :: (Token.colon :: spaced ++ Token.semicolon :: rest)) =
      (readBody rest).cons (some
        (.event (.declaration (lower name) (spaced.filter (· ≠ Token.space))))) := by
  have hmarks : ∀ t ∈ [Token.closeBrace, Token.space, Token.semicolon, Token.openBrace],
      ¬ t.isPropertyName := by decide
  have hmark : ∀ t ∈ [Token.closeBrace, Token.space, Token.semicolon, Token.openBrace],
      name ≠ t :=
    fun t ht heq => hmarks t ht (heq ▸ hname)
  rw [readBody, if_neg (hmark _ (by decide)),
    if_neg (not_or.mpr ⟨hmark _ (by decide), hmark _ (by decide)⟩),
    if_neg (hmark _ (by decide)), readDeclaration_semicolon hname hspaced hne]

end Declaration

/-! ## Statements -/

/-- What begins with an at-sign is an at-rule, inside of blocks or not. -/
theorem readStatement_of_isAt {name : Token} (hname : name.isAt) (depth : Nat)
    (rest : List Token) : readStatement depth name rest = readAtRule depth name rest := by
  have hmarks : ∀ t ∈ [Token.space, Token.closeBrace, Token.semicolon, Token.openBrace],
      ¬ t.isAt := by decide
  have hne : ∀ t ∈ [Token.space, Token.closeBrace, Token.semicolon, Token.openBrace],
      name ≠ t :=
    fun t ht heq => hmarks t ht (heq ▸ hname)
  rw [readStatement, if_neg (hne _ (by decide)), if_neg fun h => hne _ (by decide) h.2,
    if_neg fun h => hne _ (by decide) h.2, if_neg fun h => hne _ (by decide) h.2,
    if_pos hname]

section AtRule

variable {name : Token} (hname : name.isAt) {header : List Token}
  (hheader : ∀ t ∈ header, ¬ t.isStructural)

include hheader

theorem takeWhile_header {mark : Token} (hmark : mark.isStructural) (rest : List Token) :
    (header ++ mark :: rest).takeWhile (fun t => !t.isStructural) = header := by
  rw [List.takeWhile_append_of_pos fun t ht => by simp [hheader t ht],
    List.takeWhile_cons_of_neg (by simp [hmark]), List.append_nil]

theorem dropWhile_header {mark : Token} (hmark : mark.isStructural) (rest : List Token) :
    (header ++ mark :: rest).dropWhile (fun t => !t.isStructural) = mark :: rest := by
  rw [List.dropWhile_append_of_pos fun t ht => by simp [hheader t ht],
    List.dropWhile_cons_of_neg (by simp [hmark])]

include hname

/-- An at-rule that ends with a semicolon. -/
theorem readStatement_atRule (depth : Nat) (rest : List Token) :
    readStatement depth name (header ++ Token.semicolon :: rest) =
      ⟨[.event (.startAtRule (lower name) (dropEndSpace (skipSpace header))),
        .event .endAtRule], depth, rest⟩ := by
  rw [readStatement_of_isAt hname, readAtRule, takeWhile_header hheader (by decide),
    dropWhile_header hheader (by decide)]
  rfl

/-- An at-rule up to the opening of its block. -/
theorem readStatement_opening {depth : Nat} (hdepth : depth < maxNesting)
    (rest : List Token) :
    readStatement depth name (header ++ Token.openBrace :: rest) =
      ⟨[.event (.startAtRule (lower name) (dropEndSpace (skipSpace header))),
        .event .startBlock], depth + 1, rest⟩ := by
  rw [readStatement_of_isAt hname, readAtRule, takeWhile_header hheader (by decide),
    dropWhile_header hheader (by decide)]
  exact if_neg (Nat.not_le.mpr hdepth)

end AtRule

/-- A selector and the body of its ruleset. -/
theorem readStatement_ruleset {first : Token} {more after : List Token}
    (hspace : first ≠ Token.space) (hstructural : ¬ first.isStructural)
    (hat : ¬ first.isAt)
    (hselector : readSelector [] (first :: more ++ Token.openBrace :: after) =
      ⟨first :: more, [], Token.openBrace :: after⟩) (depth : Nat) :
    readStatement depth first (more ++ Token.openBrace :: after) =
      ⟨.event (.startRuleset (dropEndSpace (first :: more))) :: (readBody after).signals
        ++ [.event .endRuleset], depth, (readBody after).rest⟩ := by
  simp only [Token.isStructural, Bool.or_eq_true, decide_eq_true_eq, not_or]
    at hstructural
  rw [readStatement, if_neg hspace, if_neg fun h => hstructural.1.2 h.2,
    if_neg fun h => hstructural.2 h.2, if_neg fun h => hstructural.1.1 h.2, if_neg hat,
    readRuleset, ← List.cons_append, hselector]
  rfl

/-! ## Selectors -/

/-- The closing brackets that are awaited after the tokens, innermost first. -/
def awaitedAfter (awaited : List Token) : List Token → List Token
  | [] => awaited
  | t :: ts =>
    match closer? t with
    | some closer => awaitedAfter (closer :: awaited) ts
    | none => awaitedAfter (if awaited.head? = some t then awaited.tail else awaited) ts

/-- A selector: all its brackets are closed, and nothing in it ends a selector. -/
structure IsSelector (ts : List Token) : Prop where
  ne_nil : ts ≠ []
  head : ts.head? ≠ some Token.space
  last : ts.getLast? ≠ some Token.space
  mem : ∀ t ∈ ts, ¬ t.isStructural ∧ ¬ t.isAt
  closed : awaitedAfter [] ts = []

theorem readSelector_of_awaitedAfter {ts : List Token}
    (hts : ∀ t ∈ ts, ¬ t.isStructural ∧ ¬ t.isAt) (rest : List Token) :
    ∀ {awaited : List Token}, awaitedAfter awaited ts = [] →
      readSelector awaited (ts ++ Token.openBrace :: rest) =
        ⟨ts, [], Token.openBrace :: rest⟩ := by
  induction ts with
  | nil =>
    rintro awaited rfl
    rfl
  | cons t ts ih =>
    intro awaited h
    obtain ⟨ht, hts⟩ := List.forall_mem_cons.mp hts
    rw [awaitedAfter] at h
    rw [List.cons_append, readSelector]
    cases hcloser : closer? t with
    | some closer =>
      rw [hcloser] at h
      simp only [ih hts h]
      rfl
    | none =>
      rw [hcloser] at h
      dsimp only at h ⊢
      split at h
      · rename_i hhead
        rw [if_pos hhead, ih hts h]
        rfl
      · rename_i hhead
        rw [if_neg hhead, if_neg (by simp [ht]), ih hts h]
        rfl

/-! ## Rules -/

/-- The tokens of a declaration. -/
def declarationTokens (declaration : Text × List Token) : List Token :=
  declaration.1 :: Token.colon :: declaration.2 ++ [Token.semicolon]

/-- Rules as they are written. -/
def Rules.tokens : Rules → List Token
  | nil => []
  | atRule name header rest => name :: header ++ Token.semicolon :: rest.tokens
  | block name header body rest =>
    name :: header ++ Token.openBrace :: (body.tokens ++ Token.closeBrace :: rest.tokens)
  | ruleset selector declarations rest =>
    selector ++ Token.openBrace ::
      (declarations.flatMap declarationTokens ++ Token.closeBrace :: rest.tokens)

/-- A header: no space at either end, and nothing in it ends a header. -/
structure IsHeader (ts : List Token) : Prop where
  head : ts.head? ≠ some Token.space
  last : ts.getLast? ≠ some Token.space
  mem : ∀ t ∈ ts, ¬ t.isStructural

/-- The declaration of a value, with the name of a property in lower case. -/
structure IsDeclaration (declaration : Text × List Token) : Prop where
  name : Token.isPropertyName declaration.1
  lowered : lower declaration.1 = declaration.1
  value : IsValue declaration.2

/-- At-rules have lower-case names with an at-sign, and headers; rulesets have
selectors and declarations. -/
def Rules.AreWellFormed : Rules → Prop :=
  All (fun name header => Token.isAt name ∧ lower name = name ∧ IsHeader header)
    fun selector declarations => IsSelector selector ∧ ∀ d ∈ declarations, IsDeclaration d

theorem dropEndSpace_eq_self {ts : List Token} (h : ts.getLast? ≠ some Token.space) :
    dropEndSpace ts = ts :=
  if_neg h

theorem IsHeader.trim_eq_self {ts : List Token} (h : IsHeader ts) :
    dropEndSpace (skipSpace ts) = ts := by
  cases ts with
  | nil => rfl
  | cons t ts =>
    have ht : t ≠ Token.space := fun heq => h.head (congrArg some heq)
    rw [skipSpace, if_neg ht, dropEndSpace_eq_self h.last]

theorem filter_eq_self_of_isValue {value : List Token} (h : IsValue value) :
    value.filter (· ≠ Token.space) = value :=
  List.filter_eq_self.mpr fun t ht => decide_eq_true (h.2 t ht).1

/-- Declarations are read back, up to the end of their ruleset. -/
theorem readBody_declarations {declarations : List (Text × List Token)}
    (h : ∀ d ∈ declarations, IsDeclaration d) (rest : List Token) :
    readBody (declarations.flatMap declarationTokens ++ Token.closeBrace :: rest) =
      ⟨declarations.map fun d => .event (declarationEvent d), rest⟩ := by
  induction declarations with
  | nil =>
    rw [List.flatMap_nil, List.nil_append, readBody, if_pos rfl]
    rfl
  | cons d ds ih =>
    obtain ⟨hd, hds⟩ := List.forall_mem_cons.mp h
    have hfilter := filter_eq_self_of_isValue hd.value
    have htokens : (d :: ds).flatMap declarationTokens ++ Token.closeBrace :: rest =
        d.1 :: (Token.colon :: d.2 ++ Token.semicolon ::
          (ds.flatMap declarationTokens ++ Token.closeBrace :: rest)) := by
      simp [declarationTokens]
    rw [htokens, readBody_declaration hd.name (fun t ht => (hd.value.2 t ht).2)
      (hfilter.symm ▸ hd.value.1), hfilter, hd.lowered, ih hds]
    rfl

/-- Well-formed rules are read back wherever they stand, if their
blocks can be opened there. -/
theorem statementSignals_tokens {rules : Rules} (h : rules.AreWellFormed) :
    ∀ {depth : Nat}, rules.depth + depth ≤ maxNesting → ∀ rest : List Token,
      statementSignals depth (rules.tokens ++ rest) =
        rules.events.map .event ++ statementSignals depth rest := by
  induction rules with
  | nil => exact fun _ _ => rfl
  | atRule name header rules ih =>
    intro depth hdepth rest
    obtain ⟨⟨hname, hlower, hheader⟩, hrules⟩ := h
    rw [Rules.tokens, List.append_assoc, List.cons_append, List.cons_append,
      statementSignals, readStatement_atRule hname hheader.mem, hlower,
      hheader.trim_eq_self, ih hrules hdepth]
    rfl
  | block name header body rules ihbody ihrules =>
    intro depth hdepth rest
    obtain ⟨⟨hname, hlower, hheader⟩, hbody, hrules⟩ := h
    have hinner : body.depth + (depth + 1) ≤ maxNesting := by
      rw [Rules.depth] at hdepth
      omega
    have houter : rules.depth + depth ≤ maxNesting := by
      rw [Rules.depth] at hdepth
      omega
    -- the brace after the body ends the block and its rule
    have hclose : readStatement (depth + 1) Token.closeBrace (rules.tokens ++ rest) =
        ⟨[.event .endBlock, .event .endAtRule], depth, rules.tokens ++ rest⟩ := rfl
    rw [Rules.tokens, List.append_assoc, List.cons_append, List.cons_append,
      List.append_assoc, List.cons_append, statementSignals,
      readStatement_opening hname hheader.mem (by omega : depth < maxNesting), hlower,
      hheader.trim_eq_self, ihbody hbody hinner, statementSignals, hclose,
      ihrules hrules houter]
    simp [Rules.events]
  | ruleset selector declarations rules ih =>
    intro depth hdepth rest
    obtain ⟨⟨hselector, hdeclarations⟩, hrules⟩ := h
    obtain ⟨first, more, rfl⟩ := List.exists_cons_of_ne_nil hselector.ne_nil
    have hfirst := hselector.mem first (List.mem_cons_self ..)
    have hspace : first ≠ Token.space := fun heq => hselector.head (congrArg some heq)
    -- all brackets of the selector are closed, so it is read up to the brace
    have hread := readSelector_of_awaitedAfter hselector.mem
      (declarations.flatMap declarationTokens ++
        Token.closeBrace :: (rules.tokens ++ rest))
      hselector.closed
    have htokens : (Rules.ruleset (first :: more) declarations rules).tokens ++ rest =
        first :: (more ++ Token.openBrace ::
          (declarations.flatMap declarationTokens ++
            Token.closeBrace :: (rules.tokens ++ rest))) := by
      simp [Rules.tokens]
    rw [htokens, statementSignals,
      readStatement_ruleset hspace hfirst.1 hfirst.2 hread depth,
      readBody_declarations hdeclarations, dropEndSpace_eq_self hselector.last,
      ih hrules hdepth]
    simp [Rules.events]

/-- Well-formed rules, nested within bounds, are read back as they are: a sheet that is
written from them gives their events in order, and nothing in it is reported. -/
theorem sheetSignals_tokens {rules : Rules} (h : rules.AreWellFormed)
    (hdepth : rules.depth ≤ maxNesting) :
    sheetSignals rules.tokens =
      (Event.startSheet :: rules.events ++ [Event.endSheet]).map .event := by
  have hsignals := statementSignals_tokens h (show rules.depth + 0 ≤ maxNesting
    from hdepth) []
  rw [List.append_nil, statementSignals] at hsignals
  rw [sheetSignals, hsignals]
  simp [closingSignals]

/-- An import, and a media rule around a ruleset with brackets in its selector. -/
def nestedRules : Rules :=
  .atRule "@import" ["'a'"] (.block "@media" ["print", Token.comma, Token.space, "tv"]
    (.ruleset ["a", "[", "b", "]", Token.space, ":not(", "c", ")"]
      [("color", ["red"]), ("font", ["1px", "serif"])] .nil) .nil)

theorem sheetSignals_tokens_nestedRules :
    nestedRules.AreWellFormed ∧ nestedRules.depth ≤ maxNesting ∧
      sheetSignals nestedRules.tokens =
        (Event.startSheet :: nestedRules.events ++ [Event.endSheet]).map .event := by
  have hdeclarations : ∀ d ∈ [(("color" : Text), [("red" : Token)]),
      ("font", ["1px", "serif"])], IsDeclaration d :=
    List.forall_mem_cons.mpr ⟨⟨by decide, by decide, by decide⟩,
      List.forall_mem_singleton.mpr ⟨by decide, by decide, by decide⟩⟩
  have h : nestedRules.AreWellFormed :=
    ⟨⟨by decide, by decide, by decide, by decide, by decide⟩,
      ⟨by decide, by decide, by decide, by decide, by decide⟩,
      ⟨⟨⟨by decide, by decide, by decide, by decide, by decide⟩, hdeclarations⟩, trivial⟩,
      trivial⟩
  exact ⟨h, by decide, sheetSignals_tokens h (by decide)⟩

end CssGuard
