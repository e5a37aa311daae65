import CssGuard.Proofs.Event.Statements

/-!
# The events of a sheet are those of rules

Whatever the tokens of a sheet are, its events are those of a tree of rules: at-rules,
with a block of rules or without, and rulesets with their declarations. The reader keeps
no tree, only the number of open blocks, so the tree is put together from the end of the
sheet: what follows a point inside of `depth` blocks are rules, the end of a block, more
rules, and so on.

- `Rules`: at-rules and rulesets, one after the other
- `Rules.events`, `Rules.depth`: their events, and how many
  blocks stand inside one another
- `Rules.All`: what holds of all at-rules and of all rulesets
- `Completes`: what can follow a point of a sheet
- `OpenAtMost`: how many blocks are open at once
- `openRules`, `exists_rules_before`: an at-rule outside all
  others comes after whole rules
- `events_sheetSignals_wellNested`: the events of a sheet are those of rules
-/

namespace CssGuard

open Text

/-! ## Rules -/

/-- At-rules and rulesets, one after the other. -/
inductive Rules where
  | nil
  /-- An at-rule without a block, and the rules after it. -/
  | atRule (name : Text) (header : List Token) (rest : Rules)
  /-- An at-rule with a block of rules, and the rules after it. -/
  | block (name : Text) (header : List Token) (body rest : Rules)
  /-- A ruleset with its declarations, and the rules after it. -/
  | ruleset (selector : List Token) (declarations : List (Text × List Token))
    (rest : Rules)
deriving DecidableEq

/-- The event of a declaration. -/
def declarationEvent (declaration : Text × List Token) : Event :=
  .declaration declaration.1 declaration.2

namespace Rules

/-- The events of rules. -/
def events : Rules → List Event
  | nil => []
  | atRule name header rest => .startAtRule name header :: .endAtRule :: rest.events
  | block name header body rest =>
    .startAtRule name header :: .startBlock :: (body.events ++
      .endBlock :: .endAtRule :: rest.events)
  | ruleset selector declarations rest =>
    .startRuleset selector :: (declarations.map declarationEvent ++
      .endRuleset :: rest.events)

/-- How many blocks stand inside one another. -/
def depth : Rules → Nat
  | nil => 0
  | atRule _ _ rest => rest.depth
  | block _ _ body rest => max (body.depth + 1) rest.depth
  | ruleset _ _ rest => rest.depth

/-- Every at-rule has a name and a header as `A` says, every ruleset a selector and
declarations as `R` says. -/
def All (A : Text → List Token → Prop)
    (R : List Token → List (Text × List Token) → Prop) : Rules → Prop
  | nil => True
  | atRule name header rest => A name header ∧ rest.All A R
  | block name header body rest => A name header ∧ body.All A R ∧ rest.All A R
  | ruleset selector declarations rest => R selector declarations ∧ rest.All A R

/-- At-rules have names with an at-sign, and declarations have values. -/
def AreSound : Rules → Prop :=
  All (fun name _ => Token.isAt name)
    fun _ declarations => ∀ d ∈ declarations, IsValue d.2

/-- The rules are sound, and they can stand inside of `depth` blocks. -/
structure FitInside (depth : Nat) (rules : Rules) : Prop where
  sound : rules.AreSound
  depth_le : rules.depth + depth ≤ maxNesting

theorem fitInside_nil {depth : Nat} (h : depth ≤ maxNesting) : nil.FitInside depth :=
  ⟨trivial, by rwa [Rules.depth, Nat.zero_add]⟩

end Rules

/-! ## What follows a point of a sheet -/

/-- The events after a point inside of `depth` blocks: rules, the end of a block,
and the events after that. -/
inductive Completes : Nat → List Event → Prop
  | outside (rules : Rules) (h : rules.FitInside 0) : Completes 0 rules.events
  | inside {depth : Nat} (rules : Rules) (h : rules.FitInside (depth + 1))
    {es : List Event} (hrest : Completes depth es) :
    Completes (depth + 1) (rules.events ++ .endBlock :: .endAtRule :: es)

/-- What makes rules out of rules can stand in front of all that follows. -/
theorem Completes.prepend {depth : Nat} {es : List Event} (h : Completes depth es)
    (first : List Event) (hfirst : ∀ rules : Rules, rules.FitInside depth →
      ∃ more : Rules, more.FitInside depth ∧ more.events = first ++ rules.events) :
    Completes depth (first ++ es) := by
  cases h with
  | outside rules hrules =>
    obtain ⟨more, hmore, hevents⟩ := hfirst rules hrules
    exact hevents ▸ .outside more hmore
  | inside rules hrules hrest =>
    obtain ⟨more, hmore, hevents⟩ := hfirst rules hrules
    rw [← List.append_assoc, ← hevents]
    exact .inside more hmore hrest

/-- The events among the signals of a body are its declarations. -/
theorem exists_declarations_of_declares {S : Token → Prop} {body : List Signal}
    (h : ∀ signal ∈ body, signal.Declares S) :
    ∃ declarations : List (Text × List Token),
      events body = declarations.map declarationEvent ∧
      ∀ d ∈ declarations, IsValue d.2 := by
  induction body with
  | nil => exact ⟨[], rfl, fun _ hd => absurd hd List.not_mem_nil⟩
  | cons signal body ih =>
    obtain ⟨hsignal, hbody⟩ := List.forall_mem_cons.mp h
    obtain ⟨declarations, hevents, hvalues⟩ := ih hbody
    cases signal with
    | issue cause => exact ⟨declarations, hevents, hvalues⟩
    | event e =>
      cases e with
      | declaration name value =>
        refine ⟨(name, value) :: declarations, ?_,
          List.forall_mem_cons.mpr ⟨hsignal.2.2, hvalues⟩⟩
        exact congrArg (Event.declaration name value :: ·) hevents
      | _ => exact hsignal.elim

theorem events_append (signals signals' : List Signal) :
    events (signals ++ signals') = events signals ++ events signals' :=
  List.filterMap_append

variable {S : Token → Prop} {depth : Nat}

/-- A statement stands in front of what follows it. Only the opening of a block takes
rules from there: those up to the end of the block are its body. -/
theorem completes_of_statement {signals : List Signal} {depth' : Nat} {es : List Event}
    (hstatement : Statement S depth signals depth') (hdepth : depth ≤ maxNesting)
    (h : Completes depth' es) : Completes depth (events signals ++ es) := by
  cases hstatement with
  | report cause => exact h
  | skip => exact h
  | @atRule _ name hname header _ =>
    exact h.prepend [.startAtRule name header, .endAtRule] fun rules hrules =>
      ⟨.atRule name header rules, ⟨⟨hname, hrules.sound⟩, hrules.depth_le⟩, rfl⟩
  | @opening _ _ name hname header _ =>
    cases h with
    | inside body hbody hrest =>
      -- the rules up to the end of the block are its body, the others follow it
      have hprepend := hrest.prepend
        (.startAtRule name header :: .startBlock :: body.events ++
          [.endBlock, .endAtRule])
        fun rules hrules => by
          have hinner := hbody.depth_le
          have houter := hrules.depth_le
          refine ⟨.block name header body rules,
            ⟨⟨hname, hbody.sound, hrules.sound⟩, ?_⟩, ?_⟩
          · show max (body.depth + 1) rules.depth + depth ≤ maxNesting
            omega
          · simp [Rules.events]
      simpa [events, Signal.event?] using hprepend
  | closing => exact .inside .nil (Rules.fitInside_nil hdepth) h
  | @ruleset _ selector body _ hbody =>
    obtain ⟨declarations, hevents, hvalues⟩ := exists_declarations_of_declares hbody
    have hprepend := h.prepend
      (.startRuleset selector :: declarations.map declarationEvent ++ [.endRuleset])
      fun rules hrules => by
        refine ⟨.ruleset selector declarations rules,
          ⟨⟨hvalues, hrules.sound⟩, hrules.depth_le⟩, ?_⟩
        simp [Rules.events]
    rw [events_append, show events (.event (.startRuleset selector) :: body) =
      .startRuleset selector :: events body from rfl, hevents]
    exact hprepend

theorem le_maxNesting_of_statement {signals : List Signal} {depth' : Nat}
    (h : Statement S depth signals depth') (hdepth : depth ≤ maxNesting) :
    depth' ≤ maxNesting := by
  cases h with
  | opening hlt => exact hlt
  | closing => exact Nat.le_of_succ_le hdepth
  | _ => exact hdepth

/-- Statement after statement, from the end of the sheet to its beginning. -/
theorem completes_of_statements {signals : List Signal} (h : Statements S depth signals)
    (hdepth : depth ≤ maxNesting) : Completes depth (events signals) := by
  induction h with
  | nil => exact .outside .nil (Rules.fitInside_nil hdepth)
  | cons hstatement _ ih =>
    rw [events_append]
    exact completes_of_statement hstatement hdepth
      (ih (le_maxNesting_of_statement hstatement hdepth))

theorem Completes.exists_rules {es : List Event} (h : Completes 0 es) :
    ∃ rules : Rules, es = rules.events ∧ rules.FitInside 0 := by
  cases h with
  | outside rules h => exact ⟨rules, rfl, h⟩

/-- The statements of a sheet are rules. -/
theorem exists_rules (ts : List Token) :
    ∃ rules : Rules, events (statementSignals 0 ts) = rules.events ∧ rules.FitInside 0 :=
  (completes_of_statements (statements_statementSignals fun _ _ => trivial)
    (Nat.zero_le _)).exists_rules

/-- The events of a sheet are those of its statements, between its start and its end. -/
theorem events_sheetSignals (ts : List Token) :
    events (sheetSignals ts) =
      .startSheet :: events (statementSignals 0 ts) ++ [.endSheet] := by
  rw [sheetSignals, events_append]
  rfl

/-! ## Open blocks -/

/-- Inside the events, at most `k` blocks are open at once, and after them none is. -/
structure OpenAtMost (k : Nat) (es : List Event) : Prop where
  take : ∀ n, (es.take n).count .startBlock ≤ (es.take n).count .endBlock + k
  total : es.count .startBlock = es.count .endBlock

theorem OpenAtMost.append {k : Nat} {es es' : List Event} (h : OpenAtMost k es)
    (h' : OpenAtMost k es') : OpenAtMost k (es ++ es') := by
  refine ⟨fun n => ?_, ?_⟩
  · rw [List.take_append, List.count_append, List.count_append]
    have hsecond := h'.take (n - es.length)
    by_cases hn : n ≤ es.length
    · rw [Nat.sub_eq_zero_of_le hn] at hsecond ⊢
      have hfirst := h.take n
      simpa using hfirst
    · have hfirst := h.total
      rw [List.take_of_length_le (Nat.le_of_not_le hn)]
      omega
  · rw [List.count_append, List.count_append, h.total, h'.total]

theorem OpenAtMost.mono {k k' : Nat} {es : List Event} (h : OpenAtMost k es)
    (hk : k ≤ k') : OpenAtMost k' es :=
  ⟨fun n => Nat.le_trans (h.take n) (Nat.add_le_add_left hk _), h.total⟩

theorem openAtMost_of_not_mem {k : Nat} (es : List Event)
    (h : ∀ e ∈ es, e ≠ .startBlock ∧ e ≠ .endBlock) : OpenAtMost k es := by
  have hstart : .startBlock ∉ es := fun hmem => (h _ hmem).1 rfl
  have hend : .endBlock ∉ es := fun hmem => (h _ hmem).2 rfl
  refine ⟨fun n => ?_, ?_⟩
  · rw [List.count_eq_zero.mpr fun hmem => hstart (List.mem_of_mem_take hmem)]
    exact Nat.zero_le _
  · rw [List.count_eq_zero.mpr hstart, List.count_eq_zero.mpr hend]

/-- A block around the events is open with all of theirs. -/
theorem OpenAtMost.block {k : Nat} {es : List Event} (h : OpenAtMost k es) :
    OpenAtMost (k + 1) (.startBlock :: es ++ [.endBlock]) := by
  refine ⟨fun n => ?_, ?_⟩
  · cases n with
    | zero => simp
    | succ n =>
      have htake := h.take n
      have hend : (List.take (n - es.length) [Event.endBlock]).count .startBlock = 0 :=
        List.count_eq_zero.mpr fun hmem => by simpa using List.mem_of_mem_take hmem
      simp only [List.cons_append, List.take_succ_cons, List.take_append, List.count_cons,
        List.count_append, hend]
      simp only [beq_self_eq_true, if_true, beq_iff_eq, reduceCtorEq, if_false]
      omega
  · simp [h.total]

theorem Rules.openAtMost_events (rules : Rules) :
    OpenAtMost rules.depth rules.events := by
  induction rules with
  | nil => exact openAtMost_of_not_mem [] fun _ h => absurd h List.not_mem_nil
  | atRule name header rest ih =>
    exact (openAtMost_of_not_mem [.startAtRule name header, .endAtRule]
      (by simp)).append ih
  | block name header body rest ihbody ihrest =>
    have hstart : OpenAtMost (block name header body rest).depth
        [.startAtRule name header] :=
      openAtMost_of_not_mem _ (by simp)
    have hbody := ihbody.block.mono (Nat.le_max_left _ rest.depth)
    have hend : OpenAtMost (block name header body rest).depth [.endAtRule] :=
      openAtMost_of_not_mem _ (by simp)
    have hrest := ihrest.mono (Nat.le_max_right (body.depth + 1) _)
    have hall := hstart.append (hbody.append (hend.append hrest))
    rw [Rules.events]
    rw [List.append_assoc] at hall
    exact hall
  | ruleset selector declarations rest ih =>
    have hbody : OpenAtMost rest.depth (declarations.map declarationEvent) := by
      refine openAtMost_of_not_mem _ fun e he => ?_
      obtain ⟨d, -, rfl⟩ := List.mem_map.mp he
      simp [declarationEvent]
    have hstart : OpenAtMost rest.depth [.startRuleset selector] :=
      openAtMost_of_not_mem _ (by simp)
    have hend : OpenAtMost rest.depth [.endRuleset] := openAtMost_of_not_mem _ (by simp)
    exact hstart.append (hbody.append (hend.append ih))

/-! ## Open rules -/

/-- How many rules are open after an event, when `k` are open before it. -/
def Event.openAfter (k : Nat) : Event → Nat
  | startSheet | endSheet => 0
  | startAtRule .. | startRuleset _ => k + 1
  | endAtRule | endRuleset => k - 1
  | startBlock | endBlock | declaration .. => k

/-- How many rules are open after the events, when `k` are open before them. -/
def openRules (k : Nat) (es : List Event) : Nat :=
  es.foldl Event.openAfter k

theorem openRules_append (k : Nat) (es es' : List Event) :
    openRules k (es ++ es') = openRules (openRules k es) es' :=
  List.foldl_append

theorem openRules_declarations (k : Nat) (declarations : List (Text × List Token)) :
    openRules k (declarations.map declarationEvent) = k := by
  induction declarations with
  | nil => rfl
  | cons d ds ih => exact ih

/-- Between statements as many rules are open as blocks. -/
theorem openRules_statement {signals : List Signal} {depth' : Nat}
    (h : Statement S depth signals depth') :
    openRules depth (events signals) = depth' := by
  cases h with
  | @ruleset _ selector body _ hbody =>
    obtain ⟨declarations, hevents, -⟩ := exists_declarations_of_declares hbody
    rw [events_append, openRules_append]
    show openRules (openRules (depth + 1) (events body)) [.endRuleset] = depth
    rw [hevents, openRules_declarations]
    rfl
  | _ => rfl

/-- An at-rule opens at the beginning of a statement only. -/
theorem eq_nil_of_statement {signals done rest : List Signal} {depth' : Nat} {name : Text}
    {header : List Token} (h : Statement S depth signals depth')
    (heq : signals = done ++ .event (.startAtRule name header) :: rest) : done = [] := by
  have hmem : ∀ {first : Signal} {others : List Signal},
      first :: others = done ++ .event (.startAtRule name header) :: rest →
      .event (.startAtRule name header) ∉ others → done = [] := by
    intro first others heq hmem
    cases done with
    | nil => rfl
    | cons signal done =>
      have hothers := (List.cons.inj heq).2
      rw [hothers] at hmem
      exact absurd (List.mem_append_right _ (List.mem_cons_self ..)) hmem
  cases h with
  | skip => exact (List.append_eq_nil_iff.mp heq.symm).1
  | ruleset _ hbody =>
    refine hmem heq fun h => ?_
    rcases List.mem_append.mp h with h | h
    · exact hbody _ h
    · simp at h
  | _ => exact hmem heq (by simp)

/-- Where an at-rule opens with no other rule open, what comes
before it closes all blocks. -/
theorem completes_of_openRules {signals : List Signal} (h : Statements S depth signals)
    (hdepth : depth ≤ maxNesting) {name : Text} {header : List Token}
    {rest : List Signal} :
    ∀ {done : List Signal}, signals = done ++ .event (.startAtRule name header) :: rest →
      openRules depth (events done) = 0 → Completes depth (events done) := by
  induction h with
  | nil => exact fun heq => absurd heq.symm (by simp)
  | @cons depth depth' first others hstatement _ ih =>
    intro done heq hopen
    have hlater : ∀ more, done = first ++ more →
        others = more ++ .event (.startAtRule name header) :: rest →
        Completes depth (events done) := by
      rintro more rfl hothers
      rw [events_append, openRules_append, openRules_statement hstatement] at hopen
      rw [events_append]
      exact completes_of_statement hstatement hdepth
        (ih (le_maxNesting_of_statement hstatement hdepth) hothers hopen)
    rcases List.append_eq_append_iff.mp heq with
      ⟨more, hdone, hothers⟩ | ⟨more, hfirst, hothers⟩
    · exact hlater more hdone hothers
    · cases more with
      | nil =>
        exact hlater [] (by rw [hfirst, List.append_nil, List.append_nil]) hothers.symm
      | cons signal more =>
        rw [← (List.cons.inj hothers).1] at hfirst
        obtain rfl := eq_nil_of_statement hstatement hfirst
        obtain rfl : depth = 0 := hopen
        exact .outside .nil (Rules.fitInside_nil hdepth)

/-- An at-rule that opens with no other rule open comes after whole rules. -/
theorem exists_rules_before {ts : List Token} {done rest : List Signal} {name : Text}
    {header : List Token}
    (h : sheetSignals ts = done ++ .event (.startAtRule name header) :: rest)
    (hopen : openRules 0 (events done) = 0) :
    ∃ before : Rules, events (sheetSignals ts) =
      .startSheet :: before.events ++ .startAtRule name header :: events rest := by
  cases done with
  | nil => cases (List.cons.inj h).1
  | cons first done =>
    obtain ⟨hfirst, htail⟩ := List.cons.inj h
    subst hfirst
    have hstatements : ∃ more, statementSignals 0 ts =
        done ++ .event (.startAtRule name header) :: more := by
      rcases List.append_eq_append_iff.mp htail with
        ⟨more, -, hmore⟩ | ⟨more, hmore, hlast⟩
      · cases more with
        | nil => cases hmore
        | cons _ more => exact absurd (List.cons.inj hmore).2 (by simp)
      · cases more with
        | nil => cases hlast
        | cons _ more => exact ⟨more, by rw [hmore, (List.cons.inj hlast).1]⟩
    obtain ⟨more, hmore⟩ := hstatements
    obtain ⟨before, hbefore, -⟩ := (completes_of_openRules
      (statements_statementSignals fun _ _ => trivial) (Nat.zero_le _) hmore
        hopen).exists_rules
    refine ⟨before, ?_⟩
    rw [h, events_append, ← hbefore]
    rfl

/-! ## Sheets -/

/-- Whatever the tokens of a sheet are, its events are those of rules: at-rules whose
names begin with an at-sign, with or without a block of rules, and rulesets whose
declarations have values. At most `maxNesting` blocks are open at once. -/
theorem events_sheetSignals_wellNested (ts : List Token) :
    ∃ rules : Rules,
      events (sheetSignals ts) = .startSheet :: rules.events ++ [.endSheet] ∧
      rules.All (fun name _ => Token.isAt name)
        (fun _ declarations => ∀ d ∈ declarations, IsValue d.2) ∧
      rules.depth ≤ maxNesting ∧
      ∀ n, ((events (sheetSignals ts)).take n).count .startBlock ≤
        ((events (sheetSignals ts)).take n).count .endBlock + maxNesting := by
  obtain ⟨rules, hrules, hfit⟩ := exists_rules ts
  have hevents : events (sheetSignals ts) =
      .startSheet :: rules.events ++ [.endSheet] := by
    rw [events_sheetSignals, hrules]
  have hopen : OpenAtMost maxNesting (.startSheet :: rules.events ++ [.endSheet]) :=
    ((openAtMost_of_not_mem [.startSheet] (by simp)).append
      (rules.openAtMost_events.mono hfit.depth_le)).append
        (openAtMost_of_not_mem [.endSheet] (by simp))
  exact ⟨rules, hevents, hfit.sound, hfit.depth_le, hevents ▸ hopen.take⟩

end CssGuard
