import CssGuard.Proofs.Declaration
import CssGuard.Proofs.Media
import CssGuard.Proofs.Selector.Structure

/-!
# Sanitized sheets as items

A sanitized sheet is a row of items: the opening of a media rule, its closing
brace, and rules. Each item gives its own tokens, whatever stands next to it, and
is read back as one statement.

- `Item`: a part of a sanitized sheet, its text, its tokens and its events
- `Item.IsValid`: the item can be read back
- `Nested`: items that open and close their blocks within bounds
- `lex_items`: the tokens of a sheet are the tokens of its items
- `statementSignals_items`: the events of a sheet are the events of its items
-/

namespace CssGuard

open Text

/-- A part of a sanitized sheet. -/
inductive Item where
  /-- A media rule up to the opening of its block. -/
  | opening (queries : List (Text × List Token))
  /-- The end of a block. -/
  | closing
  /-- A ruleset. -/
  | rule (selectors : List Complex) (lines : List Line)

namespace Item

/-- The token that begins a media rule. -/
def mediaKeyword : Token :=
  ['@', 'm', 'e', 'd', 'i', 'a']

/-- The item as it is written. -/
def text (c : Confinement) : Item → Text
  | opening queries =>
    mediaKeyword ++ ' ' :: joined ", " (queries.map Prod.fst) ++ ['\x7b']
  | closing => ['\x7d']
  | rule selectors lines =>
    joined ", " (selectors.map (Complex.text c)) ++ '\x7b' :: lines.flatMap Line.text ++
      ['\x7d']

/-- The tokens of a list of queries, after the space in front of it. -/
def header (queries : List (Text × List Token)) : List Token :=
  squeeze (Token.space :: queriesReading (queries.map Prod.snd))

/-- The tokens of a list of selectors. -/
def selector (c : Confinement) (selectors : List Complex) : List Token :=
  squeeze (listReading c selectors)

/-- The tokens of an item. -/
def tokens (c : Confinement) : Item → List Token
  | opening queries => mediaKeyword :: header queries ++ [Token.openBrace]
  | closing => [Token.closeBrace]
  | rule selectors lines =>
    selector c selectors ++ Token.openBrace :: lines.flatMap Line.tokens ++
      [Token.closeBrace]

/-- What an item is read back as. -/
def events (c : Confinement) : Item → List Event
  | opening queries =>
    [.startAtRule mediaKeyword (dropEndSpace (skipSpace (header queries))), .startBlock]
  | closing => [.endBlock, .endAtRule]
  | rule selectors lines =>
    .startRuleset (dropEndSpace (selector c selectors)) :: lines.map Line.event ++
      [.endRuleset]

/-- The item is made of valid selectors, of queries that were let through and of lines
that satisfy `L`, and nothing of it is empty. -/
def IsValid (c : Confinement) (L : Line → Prop) : Item → Prop
  | opening queries => queries ≠ [] ∧ ∀ q ∈ queries, IsQuery q.1 q.2
  | closing => True
  | rule selectors lines =>
    (selectors ≠ [] ∧ ∀ s ∈ selectors, s.IsValid c) ∧ lines ≠ [] ∧ ∀ l ∈ lines, L l

theorem IsValid.mono {c : Confinement} {L L' : Line → Prop} {item : Item}
    (h : item.IsValid c L) (hL : ∀ l, L l → L' l) : item.IsValid c L' := by
  cases item with
  | opening queries => exact h
  | closing => trivial
  | rule selectors lines => exact ⟨h.1, h.2.1, fun l hl => hL l (h.2.2 l hl)⟩

/-- The number of open blocks before and after an item. -/
inductive Steps : Item → Nat → Nat → Prop
  | opening {queries : List (Text × List Token)} {depth : Nat} (h : depth < maxNesting) :
    Steps (opening queries) depth (depth + 1)
  | closing {depth : Nat} : Steps closing (depth + 1) depth
  | rule {selectors : List Complex} {lines : List Line} {depth : Nat} :
    Steps (rule selectors lines) depth depth

variable {c : Confinement}

/-! ## Tokens -/

theorem lexes {item : Item} (h : item.IsValid c Line.IsLegible) :
    Lexes (item.text c) (item.tokens c) := by
  have hopen : Reads anything ['\x7b'] [Token.openBrace] :=
    reads_mark (by decide) (by decide)
  have hclose : Lexes ['\x7d'] [Token.closeBrace] :=
    lexes_of_reads (reads_mark (by decide) (by decide)) (by decide)
  cases item with
  | opening queries =>
    have hkeyword : Reads endsName mediaKeyword [mediaKeyword] :=
      reads_atKeyword (isBareName_of_isPlainIdent (by decide))
    have hspace : Reads anything [' '] [Token.space] := reads_space rfl (by decide)
    have hheader :=
      hkeyword.append_cons (hspace.append_of_anything (reads_queries h.2)) (by decide)
    have hlexes := hheader.lexes (by decide) hopen (by decide)
    have htokens : squeeze ([mediaKeyword] ++ ([Token.space] ++
        queriesReading (queries.map Prod.snd))) = mediaKeyword :: header queries :=
      if_neg fun heq => absurd heq.1 (by decide)
    rw [htokens] at hlexes
    exact hlexes
  | closing => exact hclose
  | rule selectors lines =>
    obtain ⟨⟨-, hselectors⟩, -, hlines⟩ := h
    have hselector := (reads_complexes hselectors).lexes (by decide) hopen (by decide)
    have hbody := lexes_flatMap fun l hl => (hlines l hl).lexes
    have hitem := (hselector.append hbody).append hclose
    simpa only [text, tokens, selector, List.append_assoc, List.cons_append,
      List.nil_append] using hitem

theorem beginsWithToken_squeeze {ts : List Token} (h : BeginsWithToken ts) :
    BeginsWithToken (squeeze ts) := by
  cases ts with
  | nil => cases h
  | cons t ts =>
    rw [squeeze, if_neg fun heq => h heq.1]
    exact h

theorem beginsWithToken_tokens {item : Item} (h : item.IsValid c Line.IsLegible) :
    BeginsWithToken (item.tokens c) := by
  cases item with
  | opening queries => exact (by decide : mediaKeyword ≠ Token.space)
  | closing => exact (by decide : Token.closeBrace ≠ Token.space)
  | rule selectors lines =>
    obtain ⟨⟨hne, hselectors⟩, -⟩ := h
    exact ((beginsWithToken_squeeze (beginsWithToken_listReading hselectors hne)).append
      _).append _

/-! ## Events -/

theorem not_of_mem_header {queries : List (Text × List Token)}
    (h : ∀ q ∈ queries, IsQuery q.1 q.2) :
    ∀ t ∈ header queries, ¬ t.isStructural ∧ ¬ t.beginsUrl := by
  have hmark : ∀ t ∈ [Token.comma, Token.space], ¬ t.isStructural ∧ ¬ t.beginsUrl := by
    decide
  intro t ht
  rcases List.mem_cons.mp (mem_squeeze ht) with rfl | ht
  · exact hmark _ (by decide)
  · rcases mem_queriesReading ht with ht | ⟨ts, hts, ht⟩
    · exact hmark t ht
    · obtain ⟨q, hq, rfl⟩ := List.mem_map.mp hts
      have hquery := (h q hq).tokens t ht
      simp only [isQueryToken, Bool.and_eq_true, Bool.not_eq_true'] at hquery
      simp [hquery]

theorem readStatement_opening (c : Confinement) {queries : List (Text × List Token)}
    (h : ∀ q ∈ queries, IsQuery q.1 q.2) {depth : Nat} (hdepth : depth < maxNesting)
    (rest : List Token) :
    readStatement depth mediaKeyword (header queries ++ Token.openBrace :: rest) =
      ⟨(events c (opening queries)).map .event, depth + 1, rest⟩ := by
  have hname : lower mediaKeyword = mediaKeyword := by decide
  rw [CssGuard.readStatement_opening (by decide)
    (fun t ht => (not_of_mem_header h t ht).1) hdepth, hname]
  rfl

theorem readStatement_rule {selectors : List Complex} {lines : List Line}
    (h : (rule selectors lines).IsValid c Line.IsLegible) (depth : Nat)
    (rest : List Token) :
    ∃ first after, tokens c (rule selectors lines) ++ rest = first :: after ∧
      readStatement depth first after = ⟨(events c (rule selectors lines)).map .event,
        depth, rest⟩ := by
  obtain ⟨⟨hne, hselectors⟩, -, hlines⟩ := h
  have hbegins := beginsWithToken_squeeze (beginsWithToken_listReading hselectors hne)
  have hfits : fits false (selector c selectors) = true := by
    rw [selector, fits_squeeze]
    exact fits_listReading hselectors
  have hselector : readSelector [] (selector c selectors ++ Token.openBrace ::
      (lines.flatMap Line.tokens ++ Token.closeBrace :: rest)) = _ :=
    readSelector_of_fits hfits _
  rw [← selector] at hbegins
  generalize hevents : (events c (rule selectors lines)).map Signal.event = signals
  rw [events] at hevents
  rw [tokens]
  generalize selector c selectors = chosen at hbegins hfits hselector hevents ⊢
  cases chosen with
  | nil => cases hbegins
  | cons first chosen =>
    obtain ⟨hstructural, hat, -⟩ := not_of_fits hfits first (List.mem_cons_self ..)
    refine ⟨first, chosen ++ Token.openBrace :: (lines.flatMap Line.tokens ++
      Token.closeBrace :: rest), by simp, ?_⟩
    rw [readStatement_ruleset hbegins hstructural hat hselector depth,
      readBody_lines hlines, ← hevents]
    simp

/-- An item is read back as one statement. -/
theorem statementSignals_item {item : Item} (h : item.IsValid c Line.IsLegible)
    {depth depth' : Nat} (hsteps : item.Steps depth depth') (rest : List Token) :
    statementSignals depth (item.tokens c ++ rest) =
      (item.events c).map .event ++ statementSignals depth' rest := by
  cases hsteps with
  | opening hdepth =>
    rw [tokens, List.append_assoc, List.cons_append, statementSignals]
    rw [show ∀ ts : List Token, [Token.openBrace] ++ ts = Token.openBrace :: ts
      from fun _ => rfl, readStatement_opening c h.2 hdepth]
  | closing =>
    rw [tokens, List.singleton_append, statementSignals]
    rfl
  | rule =>
    obtain ⟨first, after, htokens, hread⟩ := readStatement_rule h depth rest
    rw [htokens, statementSignals, hread]

end Item

/-! ## Rows of items -/

/-- Items one after the other, from one number of open blocks to another. -/
inductive Nested : Nat → List Item → Nat → Prop
  | nil {depth : Nat} : Nested depth [] depth
  | cons {depth depth' depth'' : Nat} {item : Item} {items : List Item}
    (h : item.Steps depth depth') (hrest : Nested depth' items depth'') :
    Nested depth (item :: items) depth''

theorem Nested.append {depth depth' depth'' : Nat} {items items' : List Item}
    (h : Nested depth items depth') (h' : Nested depth' items' depth'') :
    Nested depth (items ++ items') depth'' := by
  induction h with
  | nil => exact h'
  | cons hstep _ ih => exact .cons hstep (ih h')

variable {c : Confinement} {items : List Item}

/-- The tokens of a sheet are the tokens of its items, and nothing in it is reported. -/
theorem lex_items (h : ∀ item ∈ items, item.IsValid c Line.IsLegible) :
    lex (items.flatMap (Item.text c)) = ⟨items.flatMap (Item.tokens c), []⟩ := by
  rw [(lexes_flatMap fun item hitem => Item.lexes (h item hitem)).lex_eq]
  cases items with
  | nil => rfl
  | cons item items =>
    have hbegins := (Item.beginsWithToken_tokens (h item (List.mem_cons_self ..))).append
      (items.flatMap (Item.tokens c))
    rw [List.flatMap_cons]
    cases hts : item.tokens c ++ items.flatMap (Item.tokens c) with
    | nil => rfl
    | cons t ts =>
      rw [hts] at hbegins
      have ht : t ≠ Token.space := hbegins
      rw [List.dropWhile_cons_of_neg (by simpa using ht)]

theorem statementSignals_items (h : ∀ item ∈ items, item.IsValid c Line.IsLegible)
    {depth depth' : Nat} (hnested : Nested depth items depth') (rest : List Token) :
    statementSignals depth (items.flatMap (Item.tokens c) ++ rest) =
      (items.flatMap (Item.events c)).map .event ++ statementSignals depth' rest := by
  induction hnested with
  | nil => rfl
  | cons hstep _ ih =>
    obtain ⟨hitem, hitems⟩ := List.forall_mem_cons.mp h
    rw [List.flatMap_cons, List.append_assoc, Item.statementSignals_item hitem hstep,
      ih hitems, List.flatMap_cons, List.map_append, List.append_assoc]

/-- The events of a sheet are the events of its items, and nothing in it is reported. -/
theorem sheetSignals_items (h : ∀ item ∈ items, item.IsValid c Line.IsLegible)
    (hnested : Nested 0 items 0) :
    sheetSignals (items.flatMap (Item.tokens c)) =
      (Event.startSheet :: items.flatMap (Item.events c) ++
        [Event.endSheet]).map .event := by
  have hsignals := statementSignals_items h hnested []
  rw [List.append_nil, statementSignals] at hsignals
  rw [sheetSignals, hsignals]
  simp [closingSignals]

theorem events_map_event (es : List Event) : events (es.map .event) = es := by
  induction es with
  | nil => rfl
  | cons e es ih =>
    rw [List.map_cons]
    exact congrArg (e :: ·) ih

theorem issues_map_event (es : List Event) : issues (es.map .event) = [] := by
  induction es with
  | nil => rfl
  | cons e es ih => exact ih

end CssGuard
