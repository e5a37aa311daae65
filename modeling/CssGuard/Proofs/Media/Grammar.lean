import CssGuard.Proofs.Media

/-!
# The grammar of media queries

A list of media queries is filtered query by query. Here are the queries that are kept,
and the text that is written for each of them; the filter is shown to keep exactly these.

- `IsMediaValue`, `IsFeature`, `AreConditions`, `IsMediaQuery`: the grammar,
  from the inside to the outside
- `mediaQuery?_eq_some_iff`: a query is let through exactly if it is in the grammar
- `Filtering`: what is kept of the parts of a list, and what is reported about the others
- `filterMedia_eq`: a list is filtered part by part
-/

namespace CssGuard

open Text
open scoped Text.ByCharacter

/-! ## Grammar

The tokens of a query, without spaces, and the text that is written for them.
Capitals are as good as small letters, but the marks between the words have
to stand there as they are. -/

/-- The value of a feature: a number, a keyword, or the ratio of two numbers. -/
inductive IsMediaValue : List Token → Text → Prop
  | word {t : Token} (h : isMediaNumber (lower t) ∨ isMediaKeyword (lower t)) :
    IsMediaValue [t] (lower t)
  | ratio {high low : Token} (hhigh : isDigits (lower high))
    (hlow : isDigits (lower low)) :
    IsMediaValue [high, ['/'], low] (lower high ++ '/' :: lower low)

/-- A feature, maybe with a value. -/
inductive IsFeature : List Token → Text → Prop
  | alone {feature : Token} (h : lower feature ∈ mediaFeatures) :
    IsFeature [feature] (lower feature)
  | valued {feature : Token} {value : List Token} {text : Text}
    (h : lower feature ∈ mediaFeatures)
      (hvalue : IsMediaValue value text) :
    IsFeature (feature :: [':'] :: value) (lower feature ++ ':' :: text)

/-- Features in parentheses, each after `and`. -/
inductive AreConditions : List Token → List Text → Prop
  | nil : AreConditions [] []
  | cons {and : Token} {inside rest : List Token} {feature : Text}
    {conditions : List Text}
      (hand : lower and = "and") (hinside : IsFeature inside feature)
      (hrest : AreConditions rest conditions) :
    AreConditions (and :: ['('] :: (inside ++ [')'] :: rest)) (('(' :: feature ++
      [')']) :: conditions)

/-- The text of a query, with spaces between its words. -/
def queryText (marks : List Text) (medium : Text) (conditions : List Text) : Text :=
  [' '].intercalate (marks ++ medium :: conditions.flatMap
    fun condition => ["and".toList, condition])

/-- A query: a medium, maybe after `only` or `not`, and conditions. -/
inductive IsMediaQuery (types : List Text) : List Token → Text → Prop
  | plain {medium : Token} {rest : List Token} {conditions : List Text}
    (hmedium : lower medium ∈ types)
      (hrest : AreConditions rest conditions) :
    IsMediaQuery types (medium :: rest) (queryText [] (lower medium) conditions)
  | marked {mark medium : Token} {rest : List Token} {conditions : List Text}
      (hmark : lower mark = "only" ∨ lower mark = "not") (hmedium : lower medium ∈ types)
      (hrest : AreConditions rest conditions) :
    IsMediaQuery types (mark :: medium :: rest)
      (queryText [lower mark] (lower medium) conditions)

theorem lower_eq_queryMark_iff {c : Char} (hc : c ∈ ['(', ')', ':', '/']) {t : Token} :
    lower t = [c] ↔ t = [c] := by
  have hmarks : ∀ c ∈ ['(', ')', ':', '/'], c.toNat < 0x80 ∧ c.toLower = c ∧
      ¬ isSmall c := by
    decide
  obtain ⟨hascii, hkeep, hsmall⟩ := hmarks c hc
  exact lower_eq_mark_iff hascii hkeep hsmall

/-! ## Features -/

theorem mediaValue?_eq_some_iff {ts : List Token} {text : Text} :
    mediaValue? (ts.map lower) = some text ↔ IsMediaValue ts text := by
  constructor
  · intro h
    rcases mediaValue?_cases h with
      ⟨hwords, hvalue⟩ | ⟨high, low, hwords, hhigh, hlow, rfl⟩
    · obtain ⟨t, rfl, rfl⟩ := List.map_eq_singleton_iff.mp hwords
      exact .word hvalue
    · obtain ⟨high, others, rfl, rfl, hothers⟩ := List.map_eq_cons_iff.mp hwords
      obtain ⟨slash, last, rfl, hslash, hlast⟩ := List.map_eq_cons_iff.mp hothers
      obtain ⟨low, rfl, rfl⟩ := List.map_eq_singleton_iff.mp hlast
      rw [(lower_eq_queryMark_iff (by decide)).mp hslash]
      exact .ratio hhigh hlow
  · intro h
    cases h with
    | word h => exact if_pos (Bool.or_eq_true_iff.mpr h)
    | @ratio high low hhigh hlow =>
      have hslash : lower ['/'] = ['/'] := by decide
      show mediaValue? [lower high, lower ['/'], lower low] = _
      rw [hslash]
      exact if_pos (Bool.and_eq_true_iff.mpr ⟨hhigh, hlow⟩)

theorem mediaFeature?_eq_some_iff {ts : List Token} {text : Text} :
    mediaFeature? (ts.map lower) = some text ↔ IsFeature ts text := by
  constructor
  · intro h
    rcases mediaFeature?_cases h with
      ⟨hwords, hfeature⟩ | ⟨feature, value, valueText, hwords, hfeature, hvalue, rfl⟩
    · obtain ⟨feature, rfl, rfl⟩ := List.map_eq_singleton_iff.mp hwords
      exact .alone hfeature
    · obtain ⟨feature, others, rfl, rfl, hothers⟩ := List.map_eq_cons_iff.mp hwords
      obtain ⟨colon, value, rfl, hcolon, rfl⟩ := List.map_eq_cons_iff.mp hothers
      rw [(lower_eq_queryMark_iff (c := ':') (by decide)).mp hcolon]
      exact .valued hfeature (mediaValue?_eq_some_iff.mp hvalue)
  · intro h
    cases h with
    | alone h => exact if_pos h
    | @valued feature value text h hvalue =>
      have hcolon : lower [':'] = [':'] := by decide
      show mediaFeature? (lower feature :: lower [':'] :: value.map lower) = _
      rw [hcolon, mediaFeature?, if_pos h, mediaValue?_eq_some_iff.mpr hvalue]
      rfl

/-- No word of a feature closes the parenthesis around it. -/
theorem IsFeature.ne_closeParen {ts : List Token} {text : Text} (h : IsFeature ts text) :
    ∀ w ∈ ts.map lower, w ≠ Token.closeParen := by
  have hfeatures : Token.closeParen ∉ mediaFeatures :=
    fun hmem => absurd (isPlainIdent_of_mem_mediaFeatures _ hmem) (by decide)
  have hvalues : ¬ (isMediaNumber Token.closeParen ∨
    isMediaKeyword Token.closeParen) := by decide
  have hdigits : ¬ isDigits Token.closeParen := by decide
  have hvalue : ∀ {value : List Token} {text : Text}, IsMediaValue value text →
      ∀ w ∈ value.map lower, w ≠ Token.closeParen := by
    rintro value text hvalue w hw rfl
    cases hvalue with
    | word h =>
      rw [← List.mem_singleton.mp hw] at h
      exact hvalues h
    | ratio hhigh hlow =>
      simp only [List.map_cons, List.map_nil, List.mem_cons, List.not_mem_nil,
        or_false] at hw
      rcases hw with hw | hw | hw
      · exact hdigits (hw ▸ hhigh)
      · exact absurd hw (by decide)
      · exact hdigits (hw ▸ hlow)
  rintro w hw rfl
  cases h with
  | alone h => exact hfeatures (List.mem_singleton.mp hw ▸ h)
  | valued h hv =>
    rcases List.mem_cons.mp hw with hw | hw
    · exact hfeatures (hw ▸ h)
    · rcases List.mem_cons.mp hw with hw | hw
      · exact absurd hw (by decide)
      · exact hvalue hv _ hw rfl

/-! ## Queries -/

theorem mediaConditions?_eq_some_iff {ts : List Token} {conditions : List Text} :
    mediaConditions? (ts.map lower) = some conditions ↔ AreConditions ts conditions := by
  constructor
  · intro h
    generalize hwords : ts.map lower = words at h
    fun_induction mediaConditions? words generalizing ts conditions with
    | case1 =>
      cases h
      rw [List.map_eq_nil_iff.mp hwords]
      exact .nil
    | case3 rest close after hdrop _ ih =>
      obtain ⟨and, others, rfl, hand, hwords⟩ := List.map_eq_cons_iff.mp hwords
      obtain ⟨paren, others, rfl, hparen, hwords⟩ := List.map_eq_cons_iff.mp hwords
      rw [eq_append_of_dropWhile hdrop] at hwords
      obtain ⟨inside, others, rfl, hinside, hwords⟩ := List.map_eq_append_iff.mp hwords
      obtain ⟨closing, others, rfl, hclosing, hwords⟩ := List.map_eq_cons_iff.mp hwords
      obtain ⟨feature, hfeature, h⟩ := Option.bind_eq_some_iff.mp h
      obtain ⟨more, hmore, rfl⟩ := Option.map_eq_some_iff.mp h
      rw [← hinside] at hfeature
      rw [(lower_eq_queryMark_iff (by decide)).mp hparen,
        (lower_eq_queryMark_iff (by decide)).mp hclosing]
      exact .cons hand (mediaFeature?_eq_some_iff.mp hfeature) (ih hwords hmore)
    | case2 | case4 | case5 => cases h
  · intro h
    induction h with
    | nil =>
      rw [List.map_nil, mediaConditions?]
    | @cons and inside rest feature conditions hand hinside _ ih =>
      -- the feature goes up to the first parenthesis that closes, and there is none in it
      have hwords : (and :: ['('] :: (inside ++ [')'] :: rest)).map lower =
          "and".toList :: ['('] :: (inside.map lower ++
            Token.closeParen :: rest.map lower) := by
        have hopen : lower ['('] = ['('] := by decide
        have hclose : lower [')'] = Token.closeParen := by decide
        rw [List.map_cons, List.map_cons, List.map_append, List.map_cons, hand,
          hopen, hclose]
      rw [hwords, mediaConditions?_cons hinside.ne_closeParen,
        mediaFeature?_eq_some_iff.mpr hinside, ih]
      rfl

theorem queryText_nil (medium : Text) (conditions : List Text) :
    queryText [] medium conditions = medium ++ conditionsText conditions := by
  induction conditions generalizing medium with
  | nil =>
    show [' '].intercalate [medium] = _
    rw [List.intercalate_singleton]
    exact (List.append_nil medium).symm
  | cons condition conditions ih =>
    show [' '].intercalate (medium :: "and".toList :: condition ::
      conditions.flatMap fun condition => ["and".toList, condition]) = _
    rw [List.intercalate_cons_cons, List.intercalate_cons_cons]
    have hrest := ih condition
    rw [queryText, List.nil_append] at hrest
    rw [hrest, conditionsText_cons]
    simp

theorem queryText_cons (mark medium : Text) (conditions : List Text) :
    queryText [mark] medium conditions =
      mark ++ ' ' :: queryText [] medium conditions := by
  show [' '].intercalate (mark :: medium :: _) = _
  rw [List.intercalate_cons_cons, List.append_assoc]
  rfl

theorem mediaBody?_eq_some_iff {types : List Text} {ts : List Token} {text : Text} :
    mediaBody? types (ts.map lower) = some text ↔ ∃ medium rest conditions,
      ts = medium :: rest ∧ lower medium ∈ types ∧ AreConditions rest conditions ∧
      text = queryText [] (lower medium) conditions := by
  constructor
  · intro h
    obtain ⟨medium, rest, conditions, hwords, hmedium, hconditions, rfl⟩ :=
      mediaBody?_cases h
    obtain ⟨medium, rest, rfl, rfl, rfl⟩ := List.map_eq_cons_iff.mp hwords
    exact ⟨medium, rest, conditions, rfl, hmedium,
      mediaConditions?_eq_some_iff.mp hconditions, (queryText_nil _ _).symm⟩
  · rintro ⟨medium, rest, conditions, rfl, hmedium, hconditions, rfl⟩
    rw [List.map_cons, mediaBody?, if_pos hmedium,
      mediaConditions?_eq_some_iff.mpr hconditions, queryText_nil]
    rfl

/-- A query is let through exactly if it is in the grammar, and it is
written as the grammar says. -/
theorem mediaQuery?_eq_some_iff {types : List Text} (honly : "only".toList ∉ types)
    (hnot : "not".toList ∉ types) {ts : List Token} {text : Text} :
    mediaQuery? types (ts.map lower) = some text ↔ IsMediaQuery types ts text := by
  constructor
  · intro h
    rcases mediaQuery?_cases h with ⟨mark, rest, body, hwords, hmark, hbody, rfl⟩ |
      ⟨-, -, -, -, hbody⟩
    · obtain ⟨mark, rest, rfl, rfl, rfl⟩ := List.map_eq_cons_iff.mp hwords
      obtain ⟨medium, rest, conditions, rfl, hmedium, hrest, rfl⟩ :=
        mediaBody?_eq_some_iff.mp hbody
      rw [← queryText_cons]
      exact .marked hmark hmedium hrest
    · obtain ⟨medium, rest, conditions, rfl, hmedium, hrest, rfl⟩ :=
        mediaBody?_eq_some_iff.mp hbody
      exact .plain hmedium hrest
  · intro h
    cases h with
    | @plain medium rest conditions hmedium hrest =>
      -- a medium is neither of the two marks, so it is not taken for one
      have hmark : ¬ (lower medium = "only" ∨ lower medium = "not") := by
        rintro (heq | heq)
        · exact honly (heq ▸ hmedium)
        · exact hnot (heq ▸ hmedium)
      rw [List.map_cons, mediaQuery?, if_neg hmark, ← List.map_cons]
      exact mediaBody?_eq_some_iff.mpr ⟨medium, rest, conditions, rfl,
        hmedium, hrest, rfl⟩
    | @marked mark medium rest conditions hmark hmedium hrest =>
      have hbody : mediaBody? types ((medium :: rest).map lower) =
          some (queryText [] (lower medium) conditions) :=
        mediaBody?_eq_some_iff.mpr ⟨medium, rest, conditions, rfl, hmedium, hrest, rfl⟩
      rw [List.map_cons, mediaQuery?, if_pos hmark, hbody, queryText_cons]
      rfl

/-! ## Lists of queries -/

/-- The queries that are kept of the parts of a list, in order, and what is reported: each
part that is no query, once. -/
inductive Filtering (types : List Text) : List (List Token) → List Text → Trace → Prop
  | nil : Filtering types [] [] []
  | keep {part : List Token} {parts : List (List Token)} {query : Text}
    {queries : List Text} {trace : Trace}
      (h : IsMediaQuery types (part.filter (· ≠ Token.space)) query)
      (hrest : Filtering types parts queries trace) :
    Filtering types (part :: parts) (query :: queries) trace
  | drop {part : List Token} {parts : List (List Token)} {queries : List Text}
    {trace : Trace}
      (h : ∀ query, ¬ IsMediaQuery types (part.filter (· ≠ Token.space)) query)
      (hrest : Filtering types parts queries trace) :
    Filtering types (part :: parts) queries
      (.issue (.disallowedMediaQuery part.flatten) :: trace)

theorem exists_filtering (types : List Text) (parts : List (List Token)) :
    ∃ queries trace, Filtering types parts queries trace := by
  induction parts with
  | nil => exact ⟨[], [], .nil⟩
  | cons part parts ih =>
    obtain ⟨queries, trace, hrest⟩ := ih
    by_cases h : ∃ query, IsMediaQuery types (part.filter (· ≠ Token.space)) query
    · obtain ⟨query, hquery⟩ := h
      exact ⟨query :: queries, trace, .keep hquery hrest⟩
    · exact ⟨queries, _, .drop (fun query hquery => h ⟨query, hquery⟩) hrest⟩

theorem Filtering.append {types : List Text} {parts parts' : List (List Token)}
    {queries queries' : List Text} {trace trace' : Trace}
    (h : Filtering types parts queries trace)
    (h' : Filtering types parts' queries' trace') :
    Filtering types (parts ++ parts') (queries ++ queries') (trace ++ trace') := by
  induction h with
  | nil => exact h'
  | keep hquery _ ih => exact .keep hquery ih
  | drop hquery _ ih => exact .drop hquery ih

/-- Every part is filtered as the grammar says. -/
theorem Filtering.collect_eq {types : List Text} (honly : "only".toList ∉ types)
    (hnot : "not".toList ∉ types) {parts : List (List Token)} {queries : List Text}
    {trace : Trace} (h : Filtering types parts queries trace) :
    (Traced.collect (filterQuery types) parts).value.flatten = queries ∧
      (Traced.collect (filterQuery types) parts).trace = trace := by
  induction h with
  | nil => exact ⟨rfl, rfl⟩
  | @keep part parts query queries trace hquery _ ih =>
    have hpart : filterQuery types part = pure [query] := by
      rw [filterQuery, (mediaQuery?_eq_some_iff honly hnot).mpr hquery]
    rw [Traced.collect, hpart]
    simp [ih]
  | @drop part parts queries trace hquery _ ih =>
    have hpart : filterQuery types part =
        Traced.reporting (.disallowedMediaQuery part.flatten) [] := by
      have hnone : mediaQuery? types ((part.filter (· ≠ Token.space)).map lower) = none :=
        Option.eq_none_iff_forall_ne_some.mpr fun query hsome =>
          hquery query ((mediaQuery?_eq_some_iff honly hnot).mp hsome)
      rw [filterQuery, hnone]
    rw [Traced.collect, hpart]
    simp [Traced.reporting, ih]

theorem fields_eq_splitOn {α : Type} [DecidableEq α] [BEq α] [LawfulBEq α] (sep : α)
    (xs : List α) : fields sep xs = xs.splitOn sep := by
  rw [List.splitOn_eq_splitOnP]
  induction xs with
  | nil => rfl
  | cons x xs ih =>
    rw [fields, ih, List.splitOnP_cons_eq_if_modifyHead]
    obtain ⟨first, others, hsplit⟩ :=
      List.exists_cons_of_ne_nil (List.splitOnP_ne_nil (· == sep) xs)
    rw [hsplit]
    by_cases hsep : x = sep
    · rw [if_pos hsep, if_pos (beq_iff_eq.mpr hsep)]
    · rw [if_neg hsep, if_neg (mt beq_iff_eq.mp hsep)]
      rfl

theorem joined_eq_intercalate (sep : Text) (ts : List Text) :
    joined sep ts = sep.intercalate ts := by
  induction ts with
  | nil => rfl
  | cons t ts ih =>
    cases ts with
    | nil => exact List.intercalate_singleton.symm
    | cons t' ts =>
      rw [List.intercalate_cons_cons, ← ih]
      rfl

/-- A list of queries is filtered as the grammar says, where no medium is called `only` or
`not`: of the parts between commas, those that are queries are kept, in the way they are
written anew, and each of the others is reported once. So the queries on both sides of a
comma are kept or dropped apart from each other. -/
theorem filterMedia_eq {types : List Text} (honly : "only".toList ∉ types)
    (hnot : "not".toList ∉ types) :
    (∀ header : List Token, ∃ queries trace,
      Filtering types (header.splitOn Token.comma) queries trace) ∧
    (∀ (header : List Token) (queries : List Text) (trace : Trace),
      Filtering types (header.splitOn Token.comma) queries trace →
      filterMedia types header = ⟨[',', ' '].intercalate queries, trace⟩) ∧
    ∀ (front back : List Token) (queries queries' : List Text) (trace trace' : Trace),
      Filtering types (front.splitOn Token.comma) queries trace →
      Filtering types (back.splitOn Token.comma) queries' trace' →
      filterMedia types (front ++ Token.comma :: back) =
        ⟨[',', ' '].intercalate (queries ++ queries'), trace ++ trace'⟩ := by
  have hfilter : ∀ (header : List Token) (queries : List Text) (trace : Trace),
      Filtering types (header.splitOn Token.comma) queries trace →
      filterMedia types header = ⟨[',', ' '].intercalate queries, trace⟩ := by
    intro header queries trace h
    obtain ⟨hvalue, htrace⟩ := h.collect_eq honly hnot
    rw [← fields_eq_splitOn] at hvalue htrace
    rw [← hvalue, ← htrace, ← joined_eq_intercalate]
    exact congrArg (Traced.mk _) (List.append_nil _)
  refine ⟨fun header => exists_filtering types _, hfilter, ?_⟩
  intro front back queries queries' trace trace' h h'
  have hparts : (front ++ Token.comma :: back).splitOn Token.comma =
      front.splitOn Token.comma ++ back.splitOn Token.comma := by
    simp only [List.splitOn_eq_splitOnP]
    exact List.splitOnP_append_cons front back (beq_self_eq_true Token.comma)
  refine hfilter _ _ _ ?_
  rw [hparts]
  exact h.append h'

/-- A query in capitals, and one whose parenthesis is not closed. -/
theorem filterMedia_eq_unclosed :
    "only".toList ∉ mediaTypes ∧ "not".toList ∉ mediaTypes ∧
    filterMedia mediaTypes
      (lex "ONLY Screen and (Min-Width: 1PX), print and (color").value =
      ⟨"only screen and (min-width:1px)",
        [.issue (.disallowedMediaQuery " print and (color")]⟩ := by
  have honly : "only".toList ∉ mediaTypes := by decide +kernel
  have hnot : "not".toList ∉ mediaTypes := by decide +kernel
  have hparts : (lex "ONLY Screen and (Min-Width: 1PX), print and (color").value.splitOn
      Token.comma =
      ([["ONLY", " ", "Screen", " ", "and", " ", "(", "Min-Width", ":", " ", "1PX", ")"],
        [" ", "print", " ", "and", " ", "(", "color"]] : List (List Token)) := by
    decide +kernel
  have hkept : IsMediaQuery mediaTypes ["ONLY", "Screen", "and", "(", "Min-Width",
      ":", "1PX", ")"] "only screen and (min-width:1px)" :=
    .marked (.inl (by decide)) (by decide +kernel) (.cons (by decide)
      (.valued (by decide +kernel) (.word (.inl (by decide +kernel)))) .nil)
  have hdropped : ∀ query, ¬ IsMediaQuery mediaTypes ["print", "and", "(",
      "color"] query := by
    intro query hquery
    have hnone : mediaQuery? mediaTypes (List.map lower ["print", "and", "(", "color"]) =
        none := by
      decide +kernel
    rw [← mediaQuery?_eq_some_iff honly hnot] at hquery
    cases hnone.symm.trans hquery
  refine ⟨honly, hnot,
    (filterMedia_eq honly hnot).2.1 _ ["only screen and (min-width:1px)"] _ ?_⟩
  rw [hparts]
  exact .keep hkept (.drop hdropped .nil)

end CssGuard
