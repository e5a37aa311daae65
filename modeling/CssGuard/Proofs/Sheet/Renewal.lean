import CssGuard.Proofs.Selector.Renewal
import CssGuard.Proofs.Sheet.History
import CssGuard.Proofs.Sheet.Lines

/-!
# Sanitizing a sheet again

A sanitized sheet is read back item by item and sanitized again. Selectors stay, media
queries lose their newlines, and of rules what becomes of their lines is left.

- `SheetContext.IsOpen`: nothing is added to a selector, and
  every harmless URL is accepted
- `ItemsRenew`: what becomes of a row of items
- `IsRenewal`: a run over a row of items writes what becomes of them
- `exists_isRenewal`: a sanitized sheet and what becomes of it
-/

namespace CssGuard

open Text

/-! ## Media rules -/

theorem fields_of_not_mem {α : Type} [DecidableEq α] {sep : α} {xs : List α}
    (h : sep ∉ xs) : fields sep xs = [xs] := by
  induction xs with
  | nil => rfl
  | cons x xs ih =>
    have hx : x ≠ sep := fun heq => h (heq ▸ List.mem_cons_self ..)
    rw [fields, if_neg hx, ih fun hmem => h (List.mem_cons_of_mem _ hmem)]

/-- What is left out between separators is left out of the fields. -/
theorem fields_filter {α : Type} [DecidableEq α] {sep : α} {p : α → Bool}
    (hp : p sep = true) (xs : List α) :
    fields sep (xs.filter p) = (fields sep xs).map (List.filter p) := by
  induction xs with
  | nil => rfl
  | cons x xs ih =>
    by_cases hsep : x = sep
    · rw [hsep, List.filter_cons_of_pos hp, fields, if_pos rfl, fields, if_pos rfl, ih]
      rfl
    · obtain ⟨field, more, heq⟩ := List.exists_cons_of_ne_nil (fields_ne_nil sep xs)
      rw [heq] at ih
      rw [fields, if_neg hsep, heq, List.filter_cons]
      by_cases hx : p x = true
      · rw [if_pos hx, fields, if_neg hsep, ih]
        simp [hx]
      · rw [if_neg hx, ih]
        simp [hx]

theorem filter_skipSpace (ts : List Token) :
    (skipSpace ts).filter (· ≠ Token.space) = ts.filter (· ≠ Token.space) := by
  cases ts with
  | nil => rfl
  | cons t ts =>
    rw [skipSpace]
    split
    · rename_i heq
      rw [heq]
      rfl
    · rfl

theorem filter_dropEndSpace (ts : List Token) :
    (dropEndSpace ts).filter (· ≠ Token.space) = ts.filter (· ≠ Token.space) := by
  rw [dropEndSpace]
  split
  · rename_i hlast
    obtain ⟨front, rfl⟩ := List.getLast?_eq_some_iff.mp hlast
    rw [List.dropLast_concat, List.filter_append]
    exact (List.append_nil _).symm
  · rfl

/-- The tokens of a list of queries without spaces have one field for each query. -/
theorem fields_queriesReading {tss : List (List Token)} (h : ∀ ts ∈ tss, Token.comma ∉ ts)
    (hne : tss ≠ []) :
    fields Token.comma ((queriesReading tss).filter (· ≠ Token.space)) =
      tss.map (List.filter (· ≠ Token.space)) := by
  induction tss with
  | nil => exact absurd rfl hne
  | cons ts rest ih =>
    obtain ⟨hts, hrest⟩ := List.forall_mem_cons.mp h
    have hcomma : Token.comma ∉ ts.filter (· ≠ Token.space) := fun hmem =>
      hts (List.mem_filter.mp hmem).1
    cases rest with
    | nil => exact fields_of_not_mem hcomma
    | cons ts' rest =>
      have hfilter : (queriesReading (ts :: ts' :: rest)).filter (· ≠ Token.space) =
          ts.filter (· ≠ Token.space) ++
            Token.comma :: (queriesReading (ts' :: rest)).filter (· ≠ Token.space) := by
        rw [queriesReading, List.append_assoc, List.filter_append]
        · rfl
        · simp
      rw [hfilter, fields_append hcomma, ih hrest (List.cons_ne_nil _ _)]
      rfl

/-- Which queries of a list are kept does not depend on its spaces. -/
theorem value_filterMedia (types : List Text) (header : List Token) :
    (filterMedia types header).value =
      joined ", " ((fields Token.comma (header.filter (· ≠ Token.space))).flatMap
        fun words =>
        (mediaQuery? types (words.map lower)).toList) := by
  have hquery : ∀ tokens : List Token, (filterQuery types tokens).value =
      (mediaQuery? types ((tokens.filter (· ≠ Token.space)).map lower)).toList := by
    intro tokens
    unfold filterQuery
    split
    · rename_i query heq
      rw [heq]
      rfl
    · rename_i heq
      rw [heq]
      rfl
  rw [filterMedia, Traced.value_bind, Traced.value_pure, value_collect,
    fields_filter (by decide), List.flatMap_map, List.flatMap_def]
  exact congrArg (joined ", " ·.flatten) (List.map_congr_left
    fun tokens _ => hquery tokens)

/-- A list of queries that is read back is kept without its newlines. -/
theorem value_filterMedia_header {queries : List (Text × List Token)} (hne : queries ≠ [])
    (h : ∀ q ∈ queries, IsQuery q.1 q.2) :
    (filterMedia mediaTypes (dropEndSpace (skipSpace (Item.header queries)))).value =
      joined ", " (queries.map fun q => withoutNewlines q.1) := by
  have hcomma : ∀ ts ∈ queries.map Prod.snd, Token.comma ∉ ts := by
    intro ts hts hmem
    obtain ⟨q, hq, rfl⟩ := List.mem_map.mp hts
    exact absurd ((h q hq).tokens _ hmem) (by decide)
  have hfilter : (Item.header queries).filter (· ≠ Token.space) =
      (queriesReading (queries.map Prod.snd)).filter (· ≠ Token.space) := by
    rw [Item.header, filter_squeeze]
    rfl
  rw [value_filterMedia, filter_dropEndSpace, filter_skipSpace, hfilter,
    fields_queriesReading hcomma (fun hnil => hne (List.map_eq_nil_iff.mp hnil)),
    List.map_map, List.flatMap_map]
  clear hcomma hfilter hne
  congr 1
  induction queries with
  | nil => rfl
  | cons q queries ih =>
    obtain ⟨hq, hqueries⟩ := List.forall_mem_cons.mp h
    have hrenews : mediaQuery? mediaTypes
        (((List.filter (· ≠ Token.space) ∘ Prod.snd) q).map lower) =
          some (withoutNewlines q.1) :=
      hq.renews
    rw [List.flatMap_cons, hrenews, ih hqueries]
    rfl

theorem ne_nil_of_mediaBody? {words : List Text} {text : Text}
    (h : mediaBody? mediaTypes words = some text) : text ≠ [] := by
  obtain ⟨medium, rest, conditions, -, hmedium, -, rfl⟩ := mediaBody?_cases h
  exact List.append_ne_nil_of_left_ne_nil
    ((by decide : ∀ m ∈ mediaTypes, m ≠ []) _ hmedium) _

/-- A query that is kept is not empty. -/
theorem ne_nil_of_mediaQuery? {words : List Text} {text : Text}
    (h : mediaQuery? mediaTypes words = some text) : text ≠ [] := by
  rcases mediaQuery?_cases h with ⟨mark, rest, body, -, -, -, rfl⟩ | ⟨-, -, -, -, hbody⟩
  · exact List.append_ne_nil_of_right_ne_nil _ (List.cons_ne_nil _ _)
  · exact ne_nil_of_mediaBody? hbody

theorem joined_ne_nil {sep t : Text} (ht : t ≠ []) (rest : List Text) :
    joined sep (t :: rest) ≠ [] := by
  cases rest with
  | nil => exact ht
  | cons u rest =>
    rw [joined, List.append_assoc]
    · exact List.append_ne_nil_of_left_ne_nil ht _
    · simp

/-- The queries that become of queries, with their tokens. -/
theorem exists_queries_withoutNewlines {queries : List (Text × List Token)}
    (h : ∀ q ∈ queries, IsQuery q.1 q.2)
    (hshape : ∀ q ∈ queries, ∀ t ∈ q.2, t ≠ Token.space → Shape t) :
    ∃ queries' : List (Text × List Token),
      queries'.map Prod.fst = queries.map (fun q => withoutNewlines q.1) ∧
      ∀ q ∈ queries', IsQuery q.1 q.2 := by
  induction queries with
  | nil => exact ⟨[], rfl, fun q hq => absurd hq List.not_mem_nil⟩
  | cons q queries ih =>
    obtain ⟨hq, hqueries⟩ := List.forall_mem_cons.mp h
    obtain ⟨hts, hrest⟩ := List.forall_mem_cons.mp hshape
    obtain ⟨queries', heq, hall⟩ := ih hqueries hrest
    have hfilter : ∀ t ∈ q.2.filter (· ≠ Token.space), Shape t := fun t ht =>
      hts t (List.mem_filter.mp ht).1 (of_decide_eq_true (List.mem_filter.mp ht).2)
    have hrenews := hq.renews
    rw [← List.filter_eq_self.mpr fun t ht => (List.mem_filter.mp ht).2] at hrenews
    obtain ⟨ts, hts⟩ := exists_isQuery hfilter hrenews
    exact ⟨(withoutNewlines q.1, ts) :: queries', congrArg (withoutNewlines q.1 :: ·) heq,
      List.forall_mem_cons.mpr ⟨hts, hall⟩⟩

/-! ## Rows of items -/

/-- The sheet is standard, nothing is added to its selectors, and every
harmless URL is accepted. -/
structure SheetContext.IsOpen (ctx : SheetContext) : Prop extends ctx.IsStandard where
  policy : ctx.policy = some fun uri _ => some uri
  bare : ctx.confinement.IsBare

theorem SheetContext.IsOpen.isOpen_values {ctx : SheetContext} (h : ctx.IsOpen) :
    ctx.values.IsOpen where
  toIsPlain := h.toIsStandard.values
  policy := h.policy
  unsuffixed := congrArg some h.bare.unsuffixed

/-- The lines of an item. -/
def Item.lines : Item → List Line
  | .rule _ lines => lines
  | _ => []

/-- What becomes of a row of items: queries lose their newlines, and a rule is left with
what becomes of its lines, unless that is nothing. -/
inductive ItemsRenew (base : Option Text) : List Item → List Item → Prop
  | nil : ItemsRenew base [] []
  | opening {queries queries' : List (Text × List Token)} {items items' : List Item}
    (hqueries : queries'.map Prod.fst = queries.map fun q => withoutNewlines q.1)
    (h : ItemsRenew base items items') :
    ItemsRenew base (.opening queries :: items) (.opening queries' :: items')
  | closing {items items' : List Item} (h : ItemsRenew base items items') :
    ItemsRenew base (.closing :: items) (.closing :: items')
  | keep {selectors : List Complex} {lines lines' : List Line} {items items' : List Item}
    (hlines : LinesRenew base lines lines') (h : ItemsRenew base items items') :
    ItemsRenew base (.rule selectors lines :: items) (.rule selectors lines' :: items')
  | drop {selectors : List Complex} {lines : List Line} {items items' : List Item}
    (hlines : LinesRenew base lines []) (h : ItemsRenew base items items') :
    ItemsRenew base (.rule selectors lines :: items) items'

variable {base : Option Text} {items items' : List Item}

theorem ItemsRenew.append (h : ItemsRenew base items items') {more more' : List Item}
    (hmore : ItemsRenew base more more') :
    ItemsRenew base (items ++ more) (items' ++ more') := by
  induction h with
  | nil => exact hmore
  | opening hqueries _ ih => exact .opening hqueries ih
  | closing _ ih => exact .closing ih
  | keep hlines _ ih => exact .keep hlines ih
  | drop hlines _ ih => exact .drop hlines ih

theorem ItemsRenew.lines (h : ItemsRenew base items items') :
    LinesRenew base (items.flatMap Item.lines) (items'.flatMap Item.lines) := by
  induction h with
  | nil => exact .nil
  | opening _ _ ih => exact ih
  | closing _ ih => exact ih
  | keep hlines _ ih => exact hlines.append ih
  | drop hlines _ ih => exact hlines.append ih

/-- A sheet without newlines whose scraps stay is the same again. -/
theorem ItemsRenew.text_eq (h : ItemsRenew base items items') {c : Confinement}
    {L : Line → Prop} (hvalid : ∀ item ∈ items, item.IsValid c L)
    (hnew : '\n' ∉ items.flatMap (Item.text c))
    (hstays : ∀ l ∈ items.flatMap Item.lines, ∀ a ∈ l.row, a.again? base = some a) :
    items'.flatMap (Item.text c) = items.flatMap (Item.text c) := by
  induction h with
  | nil => rfl
  | @opening queries queries' items items' hqueries _ ih =>
    obtain ⟨-, hvalid⟩ := List.forall_mem_cons.mp hvalid
    rw [List.flatMap_cons, List.mem_append, not_or] at hnew
    have hsame : queries.map (fun q => withoutNewlines q.1) = queries.map Prod.fst := by
      refine List.map_congr_left fun q hq => withoutNewlines_of_not_mem fun hmem =>
        hnew.1 ?_
      refine List.mem_append_left _ (List.mem_append_right _ (List.mem_cons_of_mem _ ?_))
      exact (mem_joined (by decide) _).mpr ⟨q.1, List.mem_map_of_mem hq, hmem⟩
    rw [List.flatMap_cons, List.flatMap_cons, ih hvalid hnew.2 hstays, Item.text,
      Item.text, hqueries, hsame]
  | closing _ ih =>
    obtain ⟨-, hvalid⟩ := List.forall_mem_cons.mp hvalid
    rw [List.flatMap_cons, List.mem_append, not_or] at hnew
    rw [List.flatMap_cons, List.flatMap_cons, ih hvalid hnew.2 hstays]
  | keep hlines _ ih =>
    obtain ⟨-, hvalid⟩ := List.forall_mem_cons.mp hvalid
    rw [List.flatMap_cons, List.mem_append, not_or] at hnew
    obtain ⟨hfirst, hrest⟩ := List.forall_mem_append.mp hstays
    rw [List.flatMap_cons, List.flatMap_cons, ih hvalid hnew.2 hrest,
      hlines.eq_self hfirst]
  | drop hlines _ ih =>
    -- nothing is left out where everything stays
    obtain ⟨⟨-, hne, -⟩, -⟩ := List.forall_mem_cons.mp hvalid
    exact absurd (hlines.eq_self (List.forall_mem_append.mp hstays).1).symm hne

theorem not_newline_mem_withoutNewlines (t : Text) : '\n' ∉ withoutNewlines t :=
  fun hmem => of_decide_eq_true (List.mem_filter.mp hmem).2 rfl

/-- What becomes of a sheet has no newline. -/
theorem ItemsRenew.not_newline_mem (h : ItemsRenew base items items') {c : Confinement}
    (hbare : c.IsBare) (hvalid : ∀ item ∈ items, item.IsValid c Line.IsLegible)
    (hnew : ∀ l ∈ items.flatMap Item.lines, ∀ t ∈ l.value, '\n' ∉ t) :
    '\n' ∉ items'.flatMap (Item.text c) := by
  induction h with
  | nil => exact List.not_mem_nil
  | @opening queries queries' items items' hqueries _ ih =>
    obtain ⟨-, hvalid⟩ := List.forall_mem_cons.mp hvalid
    have hjoined : '\n' ∉ joined ", " (queries'.map Prod.fst) := by
      rw [hqueries, mem_joined (by decide)]
      rintro ⟨t, ht, hmem⟩
      obtain ⟨q, -, rfl⟩ := List.mem_map.mp ht
      exact not_newline_mem_withoutNewlines _ hmem
    rw [List.flatMap_cons, List.mem_append, not_or]
    refine ⟨?_, ih hvalid hnew⟩
    rw [Item.text]
    simp only [List.mem_append, List.mem_cons, not_or]
    exact ⟨⟨by decide, by decide, hjoined⟩, by decide⟩
  | closing _ ih =>
    obtain ⟨-, hvalid⟩ := List.forall_mem_cons.mp hvalid
    rw [List.flatMap_cons, List.mem_append, not_or]
    exact ⟨(by decide : '\n' ∉ ['\x7d']), ih hvalid hnew⟩
  | @keep selectors lines lines' items items' hlines _ ih =>
    obtain ⟨⟨⟨-, hselectors⟩, -, hlegible⟩, hvalid⟩ := List.forall_mem_cons.mp hvalid
    obtain ⟨hfirst, hrest⟩ := List.forall_mem_append.mp hnew
    have hjoined : '\n' ∉ joined ", " (selectors.map (Complex.text c)) := by
      rw [mem_joined (by decide)]
      rintro ⟨t, ht, hmem⟩
      obtain ⟨s, hs, rfl⟩ := List.mem_map.mp ht
      exact (hselectors s hs).not_newline_mem_text hbare hmem
    have hbody : '\n' ∉ lines'.flatMap Line.text := by
      intro hmem
      obtain ⟨l', hl', hmem⟩ := List.mem_flatMap.mp hmem
      obtain ⟨l, hl, hname⟩ := hlines.exists_name l' hl'
      have hplain := not_newline_mem_of_isPlainIdent (hlegible l hl).name
      rw [hname] at hplain
      simp [Line.text, hplain, (hlines.forall_mem hfirst l' hl').1] at hmem
    rw [List.flatMap_cons, List.mem_append, not_or]
    refine ⟨?_, ih hvalid hrest⟩
    rw [Item.text]
    simp only [List.mem_append, List.mem_cons, not_or]
    exact ⟨⟨hjoined, by decide, hbody⟩, by decide⟩
  | drop _ _ ih =>
    obtain ⟨-, hvalid⟩ := List.forall_mem_cons.mp hvalid
    exact ih hvalid (List.forall_mem_append.mp hnew).2

/-! ## Runs -/

/-- As many at-rules are open as `depth` says, and all of them are written. -/
structure SheetState.Inside (s : SheetState) (depth : Nat) : Prop where
  length : s.stack.length = depth
  outer : ∀ m ∈ s.stack, ∃ header, m = .atRule header

/-- A run over items leads from the state `s` to the state `s'` and writes
what becomes of the items. -/
structure IsRenewal (ctx : SheetContext) (items items' : List Item) (depth depth' : Nat)
    (s s' : SheetState) : Prop where
  renew : ItemsRenew ctx.base items items'
  valid : ∀ item ∈ items', item.IsValid ctx.confinement Line.IsLegible
  nested : Nested depth items' depth'
  text : s'.text = s.text ++ items'.flatMap (Item.text ctx.confinement)
  inside : s'.Inside depth'

variable {ctx : SheetContext} {T : Trace} {s : SheetState} {depth : Nat}

theorem SheetState.Inside.isEliding_eq (h : s.Inside depth) : s.isEliding = false := by
  obtain ⟨parts, stack⟩ := s
  cases stack with
  | nil => rfl
  | cons m stack =>
    obtain ⟨header, rfl⟩ := h.outer m (List.mem_cons_self ..)
    exact decide_eq_false fun heq => by cases heq

/-- A media rule that is read back is opened without the newlines of its queries. -/
theorem state_startAtRule_header (hctx : ctx.IsStandard)
    {queries : List (Text × List Token)} (hne : queries ≠ [])
    (h : ∀ q ∈ queries, IsQuery q.1 q.2) (hs : s.isEliding = false) :
    (s.startAtRule ctx Item.mediaKeyword
      (dropEndSpace (skipSpace (Item.header queries)))).value.state =
      s.push (.atRule (Item.mediaKeyword ++ ' ' ::
        joined ", " (queries.map fun q => withoutNewlines q.1))) := by
  have hmedia : ¬ (joined ", " (queries.map fun q => withoutNewlines q.1)).isEmpty := by
    obtain ⟨q, rest, rfl⟩ := List.exists_cons_of_ne_nil hne
    rw [List.isEmpty_iff]
    exact joined_ne_nil (ne_nil_of_mediaQuery? (h q (List.mem_cons_self ..)).renews) _
  rw [SheetState.startAtRule, hs, if_neg Bool.false_ne_true, if_pos mediaName_eq.symm,
    Traced.value_bind, hctx.mediaTypes, value_filterMedia_header hne h, if_neg hmedia,
    mediaKeyword_eq, List.append_assoc]
  rfl

theorem isRenewal_opening (hctx : ctx.IsStandard) {queries : List (Text × List Token)}
    (h : Item.IsValid ctx.confinement Line.IsLegible (.opening queries))
    (hshape : ∀ q ∈ queries, ∀ t ∈ q.2, t ≠ Token.space → Shape t)
    (hdepth : depth < maxNesting) (hs : s.Inside depth) :
    ∃ items', IsRenewal ctx [.opening queries] items' depth (depth + 1) s
      (runSheet ctx s ((Item.events ctx.confinement (.opening queries)).map
        .event)).value := by
  obtain ⟨hne, hqueries⟩ := h
  obtain ⟨queries', htexts, hqueries'⟩ := exists_queries_withoutNewlines hqueries hshape
  have hne' : queries' ≠ [] := by
    rintro rfl
    exact hne (List.map_eq_nil_iff.mp htexts.symm)
  have hrun :
    (runSheet ctx s ((Item.events ctx.confinement (.opening queries)).map .event)).value =
      (s.startAtRule ctx Item.mediaKeyword
        (dropEndSpace (skipSpace (Item.header queries)))).value.state.startBlock := rfl
  rw [hrun, state_startAtRule_header hctx hne hqueries hs.isEliding_eq, ← htexts]
  refine ⟨[.opening queries'], .opening htexts .nil, ?_, .cons (.opening hdepth) .nil, ?_,
    ?_, ?_⟩
  · exact List.forall_mem_singleton.mpr ⟨hne', hqueries'⟩
  · rw [List.flatMap_singleton]
    exact SheetState.text_write ..
  · exact congrArg (· + 1) hs.length
  · exact List.forall_mem_cons.mpr ⟨⟨_, rfl⟩, hs.outer⟩

theorem isRenewal_closing (hs : s.Inside (depth + 1)) :
    IsRenewal ctx [.closing] [.closing] (depth + 1) depth s
      (runSheet ctx s ((Item.events ctx.confinement .closing).map .event)).value := by
  obtain ⟨parts, stack⟩ := s
  cases stack with
  | nil => exact absurd hs.length (by simp)
  | cons m stack =>
    obtain ⟨⟨header, rfl⟩, houter⟩ := List.forall_mem_cons.mp hs.outer
    refine ⟨.closing .nil, List.forall_mem_singleton.mpr trivial, .cons .closing .nil,
      ?_, ?_, houter⟩
    · rw [List.flatMap_singleton]
      exact SheetState.text_write ..
    · exact Nat.succ.inj hs.length

theorem ofComplexes_insensitive (c : Confinement) {ss : List Complex}
    (h : ∀ s ∈ ss, s.isSensitive = false) :
    Selection.ofComplexes c ss = ⟨ss.map (Complex.text c), []⟩ := by
  rw [Selection.ofComplexes, List.filter_eq_self.mpr fun s hs => by rw [h s hs]; rfl,
    List.filter_eq_nil_iff.mpr fun s hs => by rw [h s hs]; decide]
  rfl

theorem ofComplexes_sensitive (c : Confinement) {ss : List Complex}
    (h : ∀ s ∈ ss, s.isSensitive = true) :
    Selection.ofComplexes c ss = ⟨[], ss.map (Complex.text c)⟩ := by
  rw [Selection.ofComplexes, List.filter_eq_self.mpr h,
    List.filter_eq_nil_iff.mpr fun s hs => by rw [h s hs]; decide]
  rfl

theorem ruleText_nil (selectors : List Text) : ruleText selectors [] = [] := by
  rw [ruleText, List.isEmpty_nil, Bool.or_true]
  rfl

/-- A rule that is read back is not split, and nothing more is left out of a
rule about visited links. -/
theorem value_rulesetTexts {values : ValueContext} (hvalues : values.IsPlain)
    (c : Confinement) {schema : Schema} {G : Text → Text → Prop} {ss : List Complex}
    {ds : List Declaration} {lines : List Line}
    (hds : List.Forall₂ (Declared values Shape G) ds lines)
    (h : Item.IsOrderly schema (.rule ss lines)) :
    (rulesetTexts schema (Selection.ofComplexes c ss) ds).value =
      ruleText (ss.map (Complex.text c)) (lines.flatMap Line.text) := by
  have hrender := render_eq_of_declared hvalues hds
  rcases h with hplain | ⟨hsensitive, hallowed⟩
  · rw [ofComplexes_insensitive c hplain, rulesetTexts, hrender]
    rfl
  · have hfilter : ds.filter (fun d => schema.allowsInLink d.name) = ds := by
      refine List.filter_eq_self.mpr fun d hd => ?_
      obtain ⟨l, hl, hdeclared⟩ := (exists_of_mem_declared hds).1 d hd
      rw [← hdeclared.name_eq]
      exact hallowed l hl
    have hfiltered := value_filterHistory hvalues (fun _ hs => hs) schema fun d hd =>
      ((exists_of_mem_declared hds).1 d hd).imp fun _ hl => hl.2
    rw [ofComplexes_sensitive c hsensitive, rulesetTexts]
    dsimp only
    split
    · rename_i hempty
      simp only [Bool.or_eq_true, List.isEmpty_iff] at hempty
      rcases hempty with hnil | rfl
      · rw [hnil]
        rfl
      · cases hds
        exact (ruleText_nil _).symm
    · rw [Traced.value_bind, Traced.value_pure, hfiltered, hfilter, hrender]
      rfl

theorem flatten_ruleText (c : Confinement) {ss : List Complex} (hss : ss ≠ [])
    {lines : List Line} (hlines : lines ≠ []) :
    (ruleText (ss.map (Complex.text c)) (lines.flatMap Line.text)).flatten =
      Item.text c (.rule ss lines) := by
  have hbody : lines.flatMap Line.text ≠ [] := by
    obtain ⟨l, rest, rfl⟩ := List.exists_cons_of_ne_nil hlines
    rw [List.flatMap_cons, Line.text]
    simp
  have hempty : ¬ ((ss.map (Complex.text c)).isEmpty ||
      (lines.flatMap Line.text).isEmpty) := by
    simp only [Bool.or_eq_true, List.isEmpty_iff, List.map_eq_nil_iff, not_or]
    exact ⟨hss, hbody⟩
  rw [ruleText, if_neg hempty, List.flatten_singleton]
  rfl

/-- The declarations of a rule that is read back. -/
theorem runSheet_lines (lines : List Line) (parts : List Part) (selection : Selection)
    (stack : List Marker) : ∀ ds : List Declaration,
      (runSheet ctx ⟨parts, .ruleset selection ds :: stack⟩
        (lines.map fun l => .event l.event)).value =
        ⟨parts, .ruleset selection (ds ++ Line.renewals ctx.values lines) :: stack⟩ := by
  induction lines with
  | nil =>
    intro ds
    rw [Line.renewals, List.filterMap_nil, List.append_nil]
    rfl
  | cons l lines ih =>
    intro ds
    have hcons : Line.renewals ctx.values (l :: lines) =
        (sanitizeDeclaration ctx.values l.name l.value).value.toList ++
          Line.renewals ctx.values lines := by
      rw [Line.renewals, List.filterMap_cons]
      cases (sanitizeDeclaration ctx.values l.name l.value).value <;> rfl
    rw [hcons, ← List.append_assoc, List.map_cons, runSheet, Traced.value_bind]
    exact ih _

theorem value_startRuleset_reading (hctx : ctx.IsOpen) {ss : List Complex}
    {lines : List Line} (hne : ss ≠ []) (h : ∀ s ∈ ss, s.IsValid ctx.confinement)
    (horderly : Item.IsOrderly ctx.schema (.rule ss lines)) (hs : s.isEliding = false) :
    (s.startRuleset ctx (dropEndSpace (Item.selector ctx.confinement ss))).value =
      s.push (.ruleset (Selection.ofComplexes ctx.confinement ss) []) := by
  have hselection : ¬ (Selection.ofComplexes ctx.confinement ss).isEmpty := by
    rcases horderly with hplain | ⟨hsensitive, -⟩
    · rw [ofComplexes_insensitive _ hplain]
      simp [Selection.isEmpty, hne]
    · rw [ofComplexes_sensitive _ hsensitive]
      simp [Selection.isEmpty, hne]
  rw [SheetState.startRuleset, hs, if_neg Bool.false_ne_true, Traced.value_bind,
    Traced.value_pure, Item.selector, value_sanitizeSelectors_reading hctx.bare h hne,
    if_neg hselection]

theorem isRenewal_rule (hctx : ctx.IsOpen) {ss : List Complex} {lines : List Line}
    (h : Item.IsSound ctx T (.rule ss lines))
    (hshape : ∀ l ∈ lines, ∀ t ∈ l.value, Shape t) (hs : s.Inside depth) :
    ∃ items', IsRenewal ctx [.rule ss lines] items' depth depth s
      (runSheet ctx s ((Item.events ctx.confinement (.rule ss lines)).map
        .event)).value := by
  obtain ⟨⟨hne, hvalid⟩, -, hlines⟩ := h.valid
  obtain ⟨lines', hrenew, hdeclared⟩ := exists_linesRenew hctx.isOpen_values fun l hl =>
    ⟨hlines l hl, hshape l hl⟩
  have horderly : Item.IsOrderly ctx.schema (.rule ss lines') := by
    refine h.orderly.imp_right fun hsensitive => ⟨hsensitive.1, fun l' hl' => ?_⟩
    obtain ⟨l, hl, hname⟩ := hrenew.exists_name l' hl'
    exact hname ▸ hsensitive.2 l hl
  have hevents : (Item.events ctx.confinement (.rule ss lines)).map Signal.event =
      .event (.startRuleset (dropEndSpace (Item.selector ctx.confinement ss))) ::
        (lines.map fun l => .event l.event) ++ [.event .endRuleset] := by
    rw [Item.events, List.map_append, List.map_cons, List.map_map]
    rfl
  have hstart := value_startRuleset_reading hctx hne hvalid horderly hs.isEliding_eq
  obtain ⟨htext, hstack⟩ := s.text_foldl_write (rulesetTexts ctx.schema
    (Selection.ofComplexes ctx.confinement ss) (Line.renewals ctx.values lines)).value
  -- the events of the rule write what becomes of its lines
  have hrun :
      (runSheet ctx s ((Item.events ctx.confinement (.rule ss lines)).map .event)).value =
      (rulesetTexts ctx.schema (Selection.ofComplexes ctx.confinement ss)
        (Line.renewals ctx.values lines)).value.foldl (fun s t => s.write t) s := by
    rw [hevents, value_runSheet_ruleset hstart]
    show (SheetState.endRuleset ctx (runSheet ctx ⟨s.parts,
      _ :: s.stack⟩ _).value).value = _
    rw [runSheet_lines, List.nil_append]
    rfl
  rw [value_rulesetTexts hctx.toIsStandard.values _ hdeclared horderly]
    at htext hstack hrun
  have hinside :
      ((ruleText (ss.map (Complex.text ctx.confinement)) (lines'.flatMap Line.text)).foldl
        (fun s t => s.write t) s).Inside depth := by
    refine ⟨?_, ?_⟩
    · rw [hstack, hs.length]
    · rw [hstack]
      exact hs.outer
  rw [hrun]
  -- a rule without lines is not written
  by_cases hnil : lines' = []
  · subst hnil
    refine ⟨[], .drop hrenew .nil, fun _ h => absurd h List.not_mem_nil, .nil,
      ?_, hinside⟩
    rw [htext, List.flatMap_nil, ruleText_nil]
    rfl
  · refine ⟨[.rule ss lines'], .keep hrenew .nil, ?_, .cons .rule .nil, ?_, hinside⟩
    · refine List.forall_mem_singleton.mpr ⟨⟨hne, hvalid⟩, hnil, fun l hl => ?_⟩
      obtain ⟨d, hd⟩ := (exists_of_mem_declared hdeclared).2 l hl
      exact hd.isLegible hctx.toIsStandard.values fun _ hs => hs
    · rw [htext, flatten_ruleText _ hne hnil, List.flatMap_singleton]

theorem IsRenewal.append {depth' depth'' : Nat} {s' s'' : SheetState}
    {more more' : List Item} (h : IsRenewal ctx items items' depth depth' s s')
    (h' : IsRenewal ctx more more' depth' depth'' s' s'') :
    IsRenewal ctx (items ++ more) (items' ++ more') depth depth'' s s'' where
  renew := h.renew.append h'.renew
  valid := List.forall_mem_append.mpr ⟨h.valid, h'.valid⟩
  nested := h.nested.append h'.nested
  text := by rw [h'.text, h.text, List.flatMap_append, List.append_assoc]
  inside := h'.inside

theorem mem_queriesReading_of_mem {tss : List (List Token)} {ts : List Token}
    (hts : ts ∈ tss) {t : Token} (ht : t ∈ ts) : t ∈ queriesReading tss := by
  induction tss with
  | nil => cases hts
  | cons us rest ih =>
    cases rest with
    | nil => exact List.mem_singleton.mp hts ▸ ht
    | cons us' rest =>
      rw [queriesReading, List.mem_append, List.mem_append]
      · rcases List.mem_cons.mp hts with rfl | hts
        · exact .inl (.inl ht)
        · exact .inr (ih hts)
      · simp

theorem mem_squeeze_of_mem {ts : List Token} {t : Token} (h : t ∈ ts)
    (hspace : t ≠ Token.space) : t ∈ squeeze ts := by
  have hfilter : t ∈ ts.filter (· ≠ Token.space) :=
    List.mem_filter.mpr ⟨h, decide_eq_true hspace⟩
  rw [← filter_squeeze] at hfilter
  exact (List.mem_filter.mp hfilter).1

theorem Item.mem_tokens_of_mem_value {c : Confinement} {item : Item}
    (h : item.IsValid c Line.IsLegible) {l : Line} (hl : l ∈ item.lines) {t : Token}
    (ht : t ∈ l.value) : t ∈ item.tokens c ∧ t ≠ Token.space := by
  cases item with
  | opening => cases hl
  | closing => cases hl
  | rule ss lines =>
    rw [← (h.2.2 l hl).filter_spaced] at ht
    obtain ⟨ht, hspace⟩ := List.mem_filter.mp ht
    refine ⟨?_, of_decide_eq_true hspace⟩
    refine List.mem_append_left _ (List.mem_append_right _ (List.mem_cons_of_mem _ ?_))
    refine List.mem_flatMap.mpr ⟨l, hl, List.mem_append_left _ ?_⟩
    exact List.mem_cons_of_mem _ (List.mem_cons_of_mem _ ht)

/-- One item of a sheet that is read back. -/
theorem exists_isRenewal_item (hctx : ctx.IsOpen) {item : Item}
    (hsound : item.IsSound ctx T)
    (hshape : ∀ t ∈ item.tokens ctx.confinement, t ≠ Token.space → Shape t) {depth' : Nat}
    (hstep : item.Steps depth depth') (hs : s.Inside depth) :
    ∃ items', IsRenewal ctx [item] items' depth depth' s
      (runSheet ctx s ((item.events ctx.confinement).map .event)).value := by
  have hvalid := hsound.isValid hctx.toIsStandard
  cases hstep with
  | @opening queries _ hdepth =>
    refine isRenewal_opening hctx.toIsStandard hvalid (fun q hq t ht hspace =>
      ?_) hdepth hs
    have hreading := mem_queriesReading_of_mem (List.mem_map_of_mem hq) ht
    refine hshape t (List.mem_append_left _ (List.mem_cons_of_mem _ ?_)) hspace
    exact mem_squeeze_of_mem (List.mem_cons_of_mem _ hreading) hspace
  | closing => exact ⟨_, isRenewal_closing hs⟩
  | @rule ss lines _ =>
    refine isRenewal_rule hctx hsound (fun l hl t ht => ?_) hs
    obtain ⟨hmem, hspace⟩ := Item.mem_tokens_of_mem_value hvalid hl ht
    exact hshape t hmem hspace

/-- A row of items that is read back. -/
theorem exists_isRenewal_items (hctx : ctx.IsOpen) {depth' : Nat}
    (hnested : Nested depth items depth') (hsound : ∀ item ∈ items, item.IsSound ctx T)
    (hshape : ∀ t ∈ items.flatMap (Item.tokens ctx.confinement),
      t ≠ Token.space → Shape t) :
    ∀ {s : SheetState}, s.Inside depth → ∃ items',
      IsRenewal ctx items items' depth depth' s (runSheet ctx s
        ((items.flatMap (Item.events ctx.confinement)).map .event)).value := by
  induction hnested with
  | nil =>
    intro s hs
    exact ⟨[], .nil, fun _ h => absurd h List.not_mem_nil, .nil,
      (List.append_nil _).symm, hs⟩
  | @cons depth depth' depth'' item items hstep _ ih =>
    intro s hs
    obtain ⟨hitem, hitems⟩ := List.forall_mem_cons.mp hsound
    obtain ⟨hfirst, hrest⟩ := List.forall_mem_append.mp hshape
    obtain ⟨more, hmore⟩ := exists_isRenewal_item hctx hitem hfirst hstep hs
    obtain ⟨more', hmore'⟩ := ih hitems hrest hmore.inside
    refine ⟨more ++ more', ?_⟩
    rw [List.flatMap_cons, List.map_append, runSheet_append, Traced.value_bind]
    exact hmore.append hmore'

/-- A sanitized sheet is a row of items, and sanitized again
it is what becomes of them. -/
theorem exists_isRenewal (hctx : ctx.IsOpen) (css : Text) :
    ∃ items items', (sanitizeSheet ctx css).value = items.flatMap
      (Item.text ctx.confinement) ∧
      Nested 0 items 0 ∧
      (∀ item ∈ items, item.IsSound ctx (sanitizeSheet ctx css).trace) ∧
      (∀ t ∈ items.flatMap (Item.tokens ctx.confinement), Shape t) ∧
      ∃ s, IsRenewal ctx items items' 0 0 .start s ∧
        (sanitizeSheet ctx (sanitizeSheet ctx css).value).value = s.text := by
  obtain ⟨items, htext, hnested, hsound⟩ := exists_items hctx.toIsStandard css
  have hvalid := fun item hitem => (hsound item hitem).isValid hctx.toIsStandard
  have hlex := lex_items hvalid
  have hshape : ∀ t ∈ items.flatMap (Item.tokens ctx.confinement), Shape t := by
    intro t ht
    have hmem : t ∈ (lex (items.flatMap (Item.text ctx.confinement))).value := by
      rwa [hlex]
    exact shape_of_mem_lex hmem
  have hsignals := statementSignals_items hvalid hnested []
  rw [List.append_nil, statementSignals, show closingSignals 0 = [] from rfl,
    List.append_nil] at hsignals
  have hopen : SheetContext.IsOpen { ctx with importLevels := none } :=
    ⟨⟨hctx.tagPolicy, hctx.mediaTypes, hctx.entries⟩, hctx.policy, hctx.bare⟩
  have hsound' : ∀ item ∈ items, item.IsSound { ctx with importLevels := none }
      (sanitizeSheet ctx css).trace := fun item hitem =>
    ⟨(hsound item hitem).valid, (hsound item hitem).orderly⟩
  obtain ⟨items', h⟩ :=
    exists_isRenewal_items hopen hnested hsound' (fun t ht _ => hshape t ht) (s := .start)
      ⟨rfl, fun _ hm => absurd hm List.not_mem_nil⟩
  refine ⟨items, items', htext, hnested, hsound, hshape, _,
    ⟨h.renew, h.valid, h.nested, h.text, h.inside⟩, ?_⟩
  rw [value_sanitizeSheet, htext, hlex, hsignals]

end CssGuard
