import CssGuard.Proofs.Sheet.Items
import CssGuard.Sheet.Sanitize

/-!
# A run of the sanitizer writes items

While a sheet is sanitized, what was written is a row of items, and as many of their
blocks are open as there are media rules on the stack. A statement adds items to the row,
and at the end of the sheet all blocks are closed.

- `SheetContext.IsStandard`: the texts that a sheet may get from its context are plain
- `Item.IsOrderly`: a rule about visited links sets only what may be set there
- `Holds`: what was written and what is open, in terms of items
- `exists_holds_of_statement`: one statement adds items
- `exists_items`: a sanitized sheet is a row of items
-/

namespace CssGuard

open Text

/-- The sheet has the standard elements and media, and the
texts of its schema are plain. -/
structure SheetContext.IsStandard (ctx : SheetContext) : Prop where
  tagPolicy : ctx.confinement.tagPolicy = TagPolicy.standard
  mediaTypes : ctx.mediaTypes = CssGuard.mediaTypes
  entries : ∀ e ∈ ctx.schema.entries, e.IsPlain

theorem SheetContext.IsStandard.values {ctx : SheetContext} (h : ctx.IsStandard) :
    ctx.values.IsPlain :=
  ⟨h.entries, fun _ hsuffix => Option.some.inj hsuffix ▸ ctx.confinement.idSuffix_valid⟩

/-- The selectors of a rule agree on visited links, and a rule about them sets
only what may be set there. -/
def Item.IsOrderly (schema : Schema) : Item → Prop
  | .rule selectors lines => (∀ s ∈ selectors, s.isSensitive = false) ∨
    (∀ s ∈ selectors, s.isSensitive = true) ∧ ∀ l ∈ lines, schema.allowsInLink l.name
  | _ => True

/-- The line is that of a declaration with its origins. -/
def Line.HasOrigin (ctx : ValueContext) (T : Trace) (l : Line) : Prop :=
  ∃ d, Declared ctx Shape (Granted ctx.policy T) d l

theorem Line.HasOrigin.isLegible {ctx : ValueContext} (hctx : ctx.IsPlain)
    {T : Trace} {l : Line} (h : l.HasOrigin ctx T) : l.IsLegible := by
  obtain ⟨d, hd⟩ := h
  exact hd.isLegible hctx fun _ hshape => hshape

/-! ## Traced runs -/

theorem runSheet_append (ctx : SheetContext) (s : SheetState) (xs ys : List Signal) :
    runSheet ctx s (xs ++ ys) = runSheet ctx s xs >>= fun s' => runSheet ctx s' ys := by
  induction xs generalizing s with
  | nil => rfl
  | cons x xs ih =>
    cases x with
    | issue cause =>
      rw [List.cons_append, runSheet, runSheet, ih]
      simp [Bind.bind, Traced.report, Traced.note]
    | event e =>
      rw [List.cons_append, runSheet, runSheet]
      simp only [Bind.bind, ih]
      simp

theorem SheetState.text_write (s : SheetState) (t : Text) :
    (s.write t).text = s.text ++ t := by
  simp [SheetState.text, SheetState.write, partsText]

theorem SheetState.text_foldl_write (s : SheetState) (ts : List Text) :
    (ts.foldl (fun s t => s.write t) s).text = s.text ++ ts.flatten ∧
      (ts.foldl (fun s t => s.write t) s).stack = s.stack := by
  have hflat : partsText (fun _ => []) (ts.map .text) = ts.flatten := by
    rw [partsText, List.flatMap_map, ← List.flatMap_id]
    rfl
  rw [foldl_write, SheetState.text, partsText, List.flatMap_append]
  exact ⟨congrArg (s.text ++ ·) hflat, rfl⟩

/-! ## States -/

/-- How many media rules are open. -/
def openBlocks (stack : List Marker) : Nat :=
  stack.countP fun
    | .atRule _ => true
    | _ => false

/-- The marker of an at-rule: nothing of it is written, or it is a
media rule with its queries. -/
def Marker.IsOuter (m : Marker) : Prop :=
  m = .elided ∨ ∃ queries : List (Text × List Token),
    (queries ≠ [] ∧ ∀ q ∈ queries, IsQuery q.1 q.2) ∧
    m = .atRule (Item.mediaKeyword ++ ' ' :: joined ", " (queries.map Prod.fst))

/-- An item that a run may write. -/
structure Item.IsSound (ctx : SheetContext) (T : Trace) (item : Item) : Prop where
  valid : item.IsValid ctx.confinement (Line.HasOrigin ctx.values T)
  orderly : item.IsOrderly ctx.schema

theorem Item.IsSound.isValid {ctx : SheetContext} (hctx : ctx.IsStandard) {T : Trace}
    {item : Item} (h : item.IsSound ctx T) :
    item.IsValid ctx.confinement Line.IsLegible :=
  h.valid.mono fun _ hl => hl.isLegible hctx.values

/-- The items are what was written, and `depth` at-rules are open,
some of them media rules. -/
structure Holds (ctx : SheetContext) (T : Trace) (items : List Item) (s : SheetState)
    (depth : Nat) : Prop where
  text : s.text = items.flatMap (Item.text ctx.confinement)
  sound : ∀ item ∈ items, item.IsSound ctx T
  length : s.stack.length = depth
  outer : ∀ m ∈ s.stack, m.IsOuter
  nested : Nested 0 items (openBlocks s.stack)

variable {ctx : SheetContext} {T : Trace} {items : List Item} {s : SheetState}
  {depth : Nat}

theorem holds_start : Holds ctx T [] .start 0 where
  text := rfl
  sound _ h := absurd h List.not_mem_nil
  length := rfl
  outer _ h := absurd h List.not_mem_nil
  nested := .nil

/-- More items that leave the blocks as they are. -/
theorem Holds.append (h : Holds ctx T items s depth) {more : List Item} {s' : SheetState}
    (hstack : s'.stack = s.stack)
    (htext : s'.text = s.text ++ more.flatMap (Item.text ctx.confinement))
    (hsound : ∀ item ∈ more, item.IsSound ctx T)
    (hnested : Nested (openBlocks s.stack) more (openBlocks s.stack)) :
    Holds ctx T (items ++ more) s' depth where
  text := by rw [htext, h.text, List.flatMap_append]
  sound item hitem := (List.mem_append.mp hitem).elim (h.sound item) (hsound item)
  length := by rw [hstack, h.length]
  outer := by rw [hstack]; exact h.outer
  nested := by rw [hstack]; exact h.nested.append hnested

/-! ## At-rules -/

theorem mediaKeyword_eq : ("@media ".toList : Text) = Item.mediaKeyword ++ [' '] := by
  decide

/-- An at-rule puts its marker on the stack and writes nothing. -/
theorem exists_push_startAtRule (hctx : ctx.IsStandard) (s : SheetState) (name : Text)
    {header : List Token} (hheader : ∀ t ∈ header, Shape t) :
    ∃ m : Marker, m.IsOuter ∧ (s.startAtRule ctx name header).value.state = s.push m := by
  have helided : Marker.IsOuter .elided := .inl rfl
  unfold SheetState.startAtRule
  by_cases heliding : s.isEliding
  · rw [if_pos heliding]
    exact ⟨_, helided, rfl⟩
  rw [if_neg heliding]
  by_cases hmedia : name = "@media".toList
  · obtain ⟨queries, hvalue, hqueries⟩ := exists_queries hheader
    rw [if_pos hmedia, Traced.value_bind, hctx.mediaTypes, hvalue]
    by_cases hempty : (joined ", ".toList (queries.map Prod.fst)).isEmpty
    · rw [if_pos hempty]
      exact ⟨_, helided, rfl⟩
    · have hne : queries ≠ [] := by
        rintro rfl
        exact hempty rfl
      rw [if_neg hempty, mediaKeyword_eq, List.append_assoc]
      exact ⟨_, .inr ⟨queries, ⟨hne, hqueries⟩, rfl⟩, rfl⟩
  rw [if_neg hmedia]
  by_cases himport : name = "@import".toList
  · rw [if_pos himport]
    exact ⟨_, helided, rfl⟩
  · rw [if_neg himport]
    exact ⟨_, helided, rfl⟩

theorem openBlocks_cons_atRule (header : Text) (stack : List Marker) :
    openBlocks (.atRule header :: stack) = openBlocks stack + 1 :=
  List.countP_cons_of_pos rfl

theorem openBlocks_le (stack : List Marker) : openBlocks stack ≤ stack.length :=
  List.countP_le_length

/-- The opening of the block of an at-rule is written if the at-rule is. -/
theorem exists_holds_of_opening (h : Holds ctx T items s depth)
    (hdepth : depth < maxNesting) {m : Marker} (hm : m.IsOuter) :
    ∃ more, Holds ctx T (items ++ more) (s.push m).startBlock (depth + 1) := by
  have houter : ∀ m' ∈ (s.push m).stack, m'.IsOuter :=
    List.forall_mem_cons.mpr ⟨hm, h.outer⟩
  have hlength : (s.push m).stack.length = depth + 1 := congrArg (· + 1) h.length
  rcases hm with rfl | ⟨queries, hqueries, rfl⟩
  · refine ⟨[], ?_⟩
    rw [List.append_nil]
    exact ⟨h.text, h.sound, hlength, houter, h.nested⟩
  · refine ⟨[.opening queries], ?_, ?_, hlength, houter, ?_⟩
    · show (SheetState.write _ _).text = _
      rw [SheetState.text_write, List.flatMap_append, ← h.text, List.flatMap_singleton]
      rfl
    · intro item hitem
      rcases List.mem_append.mp hitem with hitem | hitem
      · exact h.sound item hitem
      · rw [List.mem_singleton.mp hitem]
        exact ⟨hqueries, trivial⟩
    · have hopen : openBlocks s.stack < maxNesting :=
        Nat.lt_of_le_of_lt (openBlocks_le _) (h.length ▸ hdepth)
      show Nested 0 _ (openBlocks (.atRule _ :: s.stack))
      rw [openBlocks_cons_atRule]
      exact h.nested.append (.cons (.opening hopen) .nil)

/-- The end of the block of an at-rule is written if the at-rule is. -/
theorem exists_holds_of_closing (h : Holds ctx T items s (depth + 1)) :
    ∃ more, Holds ctx T (items ++ more) s.endBlock.pop depth := by
  obtain ⟨parts, stack⟩ := s
  cases stack with
  | nil => exact absurd h.length (by simp)
  | cons m stack =>
    obtain ⟨hm, houter⟩ := List.forall_mem_cons.mp h.outer
    have hlength : stack.length = depth := Nat.succ.inj h.length
    have hnested := h.nested
    rcases hm with rfl | ⟨queries, -, rfl⟩
    · refine ⟨[], ?_⟩
      rw [List.append_nil]
      exact ⟨h.text, h.sound, hlength, houter, hnested⟩
    · refine ⟨[.closing], ?_, ?_, hlength, houter, ?_⟩
      · show (SheetState.write _ _).text = _
        rw [SheetState.text_write, List.flatMap_append, ← h.text, List.flatMap_singleton]
        rfl
      · intro item hitem
        rcases List.mem_append.mp hitem with hitem | hitem
        · exact h.sound item hitem
        · rw [List.mem_singleton.mp hitem]
          exact ⟨trivial, trivial⟩
      · rw [openBlocks_cons_atRule] at hnested
        exact hnested.append (.cons .closing .nil)

/-! ## Rulesets -/

/-- The declarations of an open ruleset, and what a body adds to them. -/
theorem exists_declarations (hctx : ctx.IsStandard) {body : List Signal}
    (hbody : ∀ signal ∈ body, signal.Declares Shape) {parts : List Part}
    {stack : List Marker} {selection : Selection} : ∀ {ds : List Declaration},
      (∀ d ∈ ds, ∃ l, Declared ctx.values Shape (Granted ctx.policy T) d l) →
      (runSheet ctx ⟨parts, .ruleset selection ds :: stack⟩ body).trace ⊆ T →
      ∃ ds', (∀ d ∈ ds', ∃ l, Declared ctx.values Shape (Granted ctx.policy T) d l) ∧
        (runSheet ctx ⟨parts, .ruleset selection ds :: stack⟩ body).value =
          ⟨parts, .ruleset selection ds' :: stack⟩ := by
  induction body with
  | nil => exact fun {ds} hds _ => ⟨ds, hds, rfl⟩
  | cons signal body ih =>
    obtain ⟨hsignal, hrest⟩ := List.forall_mem_cons.mp hbody
    intro ds hds hT
    cases signal with
    | issue cause => exact ih hrest hds (List.append_subset.mp hT).2
    | event e =>
      cases e with
      | declaration name value =>
        obtain ⟨⟨raw, hraw, rfl⟩, hvalue, -⟩ := hsignal
        rw [runSheet, Traced.trace_bind, List.append_subset] at hT
        have hdeclared : ∀ d ∈ (sanitizeDeclaration ctx.values (lower raw) value).value,
            ∃ l, Declared ctx.values Shape (Granted ctx.policy T) d l := fun d hd =>
          declared_of_sanitizeDeclaration hctx.values (fun _ h => h) hraw hvalue
            (fun n hn => hT.1 (List.mem_append_left _ (List.mem_append_left _ hn))) hd
        refine ih hrest (fun d hd => ?_) hT.2
        rcases List.mem_append.mp hd with hd | hd
        · exact hds d hd
        · exact hdeclared d (Option.mem_toList.mp hd)
      | _ => cases hsignal

theorem runSheet_elided {body : List Signal}
    (hbody : ∀ signal ∈ body, signal.Declares Shape) (parts : List Part)
    (stack : List Marker) :
    (runSheet ctx ⟨parts, .elided :: stack⟩ body).value = ⟨parts, .elided :: stack⟩ := by
  induction body with
  | nil => rfl
  | cons signal body ih =>
    obtain ⟨hsignal, hrest⟩ := List.forall_mem_cons.mp hbody
    cases signal with
    | issue cause => exact ih hrest
    | event e =>
      cases e with
      | declaration name value => exact ih hrest
      | _ => cases hsignal

/-- Declarations are written as lines. -/
theorem exists_lines (hctx : ctx.IsStandard) {ds : List Declaration}
    (hds : ∀ d ∈ ds, ∃ l, Declared ctx.values Shape (Granted ctx.policy T) d l) :
    ∃ lines : List Line, ds.flatMap Declaration.render = lines.flatMap Line.text ∧
      (∀ l ∈ lines, l.HasOrigin ctx.values T) ∧
      lines.map Line.name = ds.map Declaration.name := by
  induction ds with
  | nil => exact ⟨[], rfl, fun _ h => absurd h List.not_mem_nil, rfl⟩
  | cons d ds ih =>
    obtain ⟨⟨l, hl⟩, hds⟩ := List.forall_mem_cons.mp hds
    obtain ⟨lines, htext, horigin, hnames⟩ := ih hds
    refine ⟨l :: lines, ?_, List.forall_mem_cons.mpr ⟨⟨d, hl⟩, horigin⟩, ?_⟩
    · rw [List.flatMap_cons, List.flatMap_cons, htext, hl.render_eq hctx.values
        fun _ h => h]
    · rw [List.map_cons, List.map_cons, hl.name_eq, hnames]

theorem exists_complexes {c : Confinement} {P : Complex → Prop} {ts : List Text}
    (h : ∀ t ∈ ts, ∃ s : Complex, P s ∧ t = s.text c) :
    ∃ ss : List Complex, ts = ss.map (Complex.text c) ∧ ∀ s ∈ ss, P s := by
  induction ts with
  | nil => exact ⟨[], rfl, fun _ h => absurd h List.not_mem_nil⟩
  | cons t ts ih =>
    obtain ⟨⟨s, hs, rfl⟩, hts⟩ := List.forall_mem_cons.mp h
    obtain ⟨ss, rfl, hss⟩ := ih hts
    exact ⟨s :: ss, rfl, List.forall_mem_cons.mpr ⟨hs, hss⟩⟩

/-- The texts of one rule are those of at most one item. -/
theorem exists_items_of_ruleText {texts : List Text} {lines : List Line}
    {sensitive : Bool} (htexts : ∀ t ∈ texts, ∃ s : Complex, s.IsValid ctx.confinement ∧
      s.isSensitive = sensitive ∧ t = s.text ctx.confinement)
    (hlines : ∀ l ∈ lines, l.HasOrigin ctx.values T)
    (hallowed : sensitive = true → ∀ l ∈ lines, ctx.schema.allowsInLink l.name) :
    ∃ more : List Item, (ruleText texts (lines.flatMap Line.text)).flatten =
        more.flatMap (Item.text ctx.confinement) ∧
      (∀ item ∈ more, item.IsSound ctx T) ∧ ∀ depth, Nested depth more depth := by
  unfold ruleText
  split
  · exact ⟨[], rfl, fun _ h => absurd h List.not_mem_nil, fun _ => .nil⟩
  rename_i hempty
  simp only [Bool.or_eq_true, List.isEmpty_iff, not_or] at hempty
  obtain ⟨ss, rfl, hss⟩ := exists_complexes fun t ht =>
    (htexts t ht).imp fun s hs => (⟨⟨hs.1, hs.2.1⟩, hs.2.2⟩ :
      (s.IsValid ctx.confinement ∧ s.isSensitive = sensitive) ∧
      t = s.text ctx.confinement)
  have hss_ne : ss ≠ [] := by
    rintro rfl
    exact hempty.1 rfl
  have hlines_ne : lines ≠ [] := by
    rintro rfl
    exact hempty.2 rfl
  have horderly : Item.IsOrderly ctx.schema (.rule ss lines) := by
    cases sensitive with
    | false => exact .inl fun s hs => (hss s hs).2
    | true => exact .inr ⟨fun s hs => (hss s hs).2, hallowed rfl⟩
  refine ⟨[.rule ss lines], ?_, ?_, fun depth => .cons .rule .nil⟩
  · rw [List.flatten_singleton, List.flatMap_singleton]
    rfl
  · exact List.forall_mem_singleton.mpr
      ⟨⟨⟨hss_ne, fun s hs => (hss s hs).1⟩, hlines_ne, hlines⟩, horderly⟩

/-- The texts of a ruleset are those of items. -/
theorem exists_items_of_rulesetTexts (hctx : ctx.IsStandard) {selection : Selection}
    (hselection : selection.IsValid ctx.confinement) {ds : List Declaration}
    (hds : ∀ d ∈ ds, ∃ l, Declared ctx.values Shape (Granted ctx.policy T) d l) :
    ∃ more : List Item, (rulesetTexts ctx.schema selection ds).value.flatten =
        more.flatMap (Item.text ctx.confinement) ∧
      (∀ item ∈ more, item.IsSound ctx T) ∧ ∀ depth, Nested depth more depth := by
  obtain ⟨lines, htext, horigin, -⟩ := exists_lines hctx hds
  obtain ⟨plain, hplain, hsound, hnested⟩ :=
    exists_items_of_ruleText hselection.insensitive horigin
      (fun h => absurd h (by decide))
  rw [← htext] at hplain
  unfold rulesetTexts
  dsimp only
  split
  · exact ⟨plain, hplain, hsound, hnested⟩
  · -- the declarations that are left are written as they are
    have hallowed : ∀ d ∈ ds.filter fun d => ctx.schema.allowsInLink d.name,
        ∃ l, Declared ctx.values Shape (Granted ctx.policy T) d l :=
      fun d hd => hds d (List.mem_filter.mp hd).1
    obtain ⟨lines', htext', horigin', hnames⟩ := exists_lines hctx hallowed
    have hlink : ∀ l ∈ lines', ctx.schema.allowsInLink l.name := by
      intro l hl
      have hname : l.name ∈ lines'.map Line.name := List.mem_map_of_mem hl
      rw [hnames] at hname
      obtain ⟨d, hd, heq⟩ := List.mem_map.mp hname
      rw [← heq]
      exact (List.mem_filter.mp hd).2
    obtain ⟨more, hmore, hsound', hnested'⟩ :=
      exists_items_of_ruleText hselection.sensitive horigin' fun _ => hlink
    refine ⟨plain ++ more, ?_, ?_, fun depth => (hnested depth).append (hnested' depth)⟩
    · rw [Traced.value_bind, Traced.value_pure,
        value_filterHistory hctx.values (fun _ h => h) _ hds, htext', List.flatten_append,
        hplain, hmore, List.flatMap_append]
    · intro item hitem
      exact (List.mem_append.mp hitem).elim (hsound item) (hsound' item)

/-- A ruleset puts its marker on the stack and writes nothing. -/
theorem exists_push_startRuleset (hctx : ctx.IsStandard) (s : SheetState)
    {selector : List Token} (hselector : ∀ t ∈ selector, Shape t) :
    ∃ m, (s.startRuleset ctx selector).value = s.push m ∧
      (m = .elided ∨ ∃ selection : Selection, selection.IsValid ctx.confinement ∧
        m = .ruleset selection []) := by
  unfold SheetState.startRuleset
  split
  · exact ⟨.elided, rfl, .inl rfl⟩
  · have hselection := @isValid_sanitizeSelectors { confinement := ctx.confinement } rfl
      hctx.tagPolicy selector hselector
    rw [Traced.value_bind, Traced.value_pure]
    split
    · exact ⟨.elided, rfl, .inl rfl⟩
    · exact ⟨_, rfl, .inr ⟨_, hselection, rfl⟩⟩

theorem value_runSheet_ruleset {selector : List Token} {body : List Signal} {m : Marker}
    (hpush : (s.startRuleset ctx selector).value = s.push m) :
    (runSheet ctx s (.event (.startRuleset selector) :: body ++
      [.event .endRuleset])).value =
      ((runSheet ctx (s.push m) body).value.endRuleset ctx).value := by
  rw [List.cons_append, runSheet, Traced.value_bind, runSheet_append,
    Traced.value_bind, ← hpush]
  rfl

/-- A ruleset adds its items. -/
theorem exists_holds_of_ruleset (hctx : ctx.IsStandard) (h : Holds ctx T items s depth)
    {selector : List Token} (hselector : ∀ t ∈ selector, Shape t) {body : List Signal}
    (hbody : ∀ signal ∈ body, signal.Declares Shape)
    (hT : (runSheet ctx s (.event (.startRuleset selector) :: body ++
      [.event .endRuleset])).trace ⊆ T) :
    ∃ more, Holds ctx T (items ++ more)
      (runSheet ctx s (.event (.startRuleset selector) :: body ++
        [.event .endRuleset])).value depth := by
  obtain ⟨m, hpush, hm⟩ := exists_push_startRuleset hctx s hselector
  have hbodyT : (runSheet ctx (s.push m) body).trace ⊆ T := by
    rw [List.cons_append, runSheet, Traced.trace_bind, runSheet_append,
      Traced.trace_bind] at hT
    rw [← hpush]
    exact (List.append_subset.mp (List.append_subset.mp hT).2).1
  rw [value_runSheet_ruleset hpush]
  rcases hm with rfl | ⟨selection, hselection, rfl⟩
  · refine ⟨[], ?_⟩
    rw [List.append_nil]
    show Holds ctx T items (SheetState.endRuleset ctx (runSheet ctx ⟨s.parts,
      _ :: s.stack⟩ body).value).value _
    rw [runSheet_elided hbody]
    exact h
  · obtain ⟨ds, hds, hrun⟩ := exists_declarations hctx hbody
      (fun d hd => absurd hd List.not_mem_nil) hbodyT
    obtain ⟨more, htexts, hsound, hnested⟩ :=
      exists_items_of_rulesetTexts hctx hselection hds
    obtain ⟨htext, hstack⟩ :=
      s.text_foldl_write (rulesetTexts ctx.schema selection ds).value
    refine ⟨more, ?_⟩
    show Holds ctx T _ (SheetState.endRuleset ctx (runSheet ctx ⟨s.parts,
      _ :: s.stack⟩ body).value).value _
    rw [hrun]
    exact h.append hstack (by rw [← htexts]; exact htext) hsound (hnested _)

/-! ## Statements -/

/-- A statement adds items. -/
theorem exists_holds_of_statement (hctx : ctx.IsStandard) (h : Holds ctx T items s depth)
    {signals : List Signal} {depth' : Nat}
    (hstatement : Statement Shape depth signals depth')
    (hT : (runSheet ctx s signals).trace ⊆ T) :
    ∃ more, Holds ctx T (items ++ more) (runSheet ctx s signals).value depth' := by
  cases hstatement with
  | report cause => exact ⟨[], by rwa [List.append_nil]⟩
  | skip => exact ⟨[], by rwa [List.append_nil]⟩
  | atRule name _ hheader =>
    obtain ⟨m, hm, hpush⟩ := exists_push_startAtRule hctx s name hheader
    refine ⟨[], ?_⟩
    rw [List.append_nil]
    show Holds ctx T items (s.startAtRule ctx name _).value.state.pop _
    rw [hpush]
    exact h
  | opening hdepth name _ hheader =>
    obtain ⟨m, hm, hpush⟩ := exists_push_startAtRule hctx s name hheader
    show ∃ more,
      Holds ctx T (items ++ more) (s.startAtRule ctx name _).value.state.startBlock _
    rw [hpush]
    exact exists_holds_of_opening h hdepth hm
  | closing => exact exists_holds_of_closing h
  | ruleset hselector hbody => exact exists_holds_of_ruleset hctx h hselector hbody hT

/-- All statements of a sheet together add items, and in the end no block is open. -/
theorem exists_holds_of_statements (hctx : ctx.IsStandard) {signals : List Signal}
    (hstatements : Statements Shape depth signals) :
    ∀ {items : List Item} {s : SheetState},
      Holds ctx T items s depth → (runSheet ctx s signals).trace ⊆ T →
      ∃ more, Holds ctx T (items ++ more) (runSheet ctx s signals).value 0 := by
  induction hstatements with
  | nil =>
    intro items s h _
    exact ⟨[], by rwa [List.append_nil]⟩
  | cons hstatement _ ih =>
    intro items s h hT
    rw [runSheet_append, Traced.trace_bind, List.append_subset] at hT
    obtain ⟨more, hmore⟩ := exists_holds_of_statement hctx h hstatement hT.1
    obtain ⟨more', hmore'⟩ := ih hmore hT.2
    rw [List.append_assoc] at hmore'
    rw [runSheet_append]
    exact ⟨more ++ more', hmore'⟩

/-- What is left of a sheet is what its statements write. -/
theorem value_sanitizeSheet (ctx : SheetContext) (css : Text) :
    (sanitizeSheet ctx css).value = (runSheet { ctx with importLevels := none } .start
      (statementSignals 0 (lex css).value)).value.text := by
  rw [sanitizeSheet, Traced.value_bind, Traced.value_bind, sheetSignals,
    List.cons_append, runSheet, Traced.value_bind, runSheet_append, Traced.value_bind]
  rfl

/-- A sanitized sheet is a row of items that opens and closes its blocks within bounds. -/
theorem exists_items (hctx : ctx.IsStandard) (css : Text) :
    ∃ items, (sanitizeSheet ctx css).value = items.flatMap (Item.text ctx.confinement) ∧
      Nested 0 items 0 ∧ ∀ item ∈ items,
      item.IsSound ctx (sanitizeSheet ctx css).trace := by
  have hstatements : Statements Shape 0 (statementSignals 0 (lex css).value) :=
    statements_statementSignals fun t ht => shape_of_mem_lex ht
  generalize hT : (sanitizeSheet ctx css).trace = T
  have hsub : (runSheet { ctx with importLevels := none } .start
      (sheetSignals (lex css).value)).trace ⊆ T := by
    rw [← hT, sanitizeSheet, Traced.trace_bind, Traced.trace_bind]
    exact fun n hn => List.mem_append_right _ (List.mem_append_left _ hn)
  rw [sheetSignals, List.cons_append, runSheet, Traced.trace_bind, runSheet_append,
    Traced.trace_bind, List.append_subset, List.append_subset] at hsub
  have hstandard : SheetContext.IsStandard { ctx with importLevels := none } :=
    ⟨hctx.tagPolicy, hctx.mediaTypes, hctx.entries⟩
  obtain ⟨items, h⟩ :=
    exists_holds_of_statements hstandard hstatements holds_start hsub.2.1
  rw [List.nil_append] at h
  have hclosed := h.nested
  rw [List.length_eq_zero_iff.mp h.length] at hclosed
  exact ⟨items, (value_sanitizeSheet ctx css).trans h.text, hclosed,
    fun item hitem => ⟨(h.sound item hitem).valid, (h.sound item hitem).orderly⟩⟩

end CssGuard
