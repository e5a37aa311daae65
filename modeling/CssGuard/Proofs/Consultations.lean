import CssGuard.Proofs.Schema
import CssGuard.Sheet.Sanitize
import CssGuard.StyleAttribute

/-!
# Questions to the URL policy

The policy is asked about nothing but harmless URLs, and only on behalf of properties of
the schema. This goes through every function that keeps a trace: those that deal with
selectors, media and visited links ask nothing, and the others ask only through
`Url.accept`. Besides, nothing happens but issues.

- `Traced.Asks`: what is asked while a value is computed
- `asks_sanitizeAt`, `asks_sanitizeDeclaration`: what is asked for
  a value and for a declaration
- `asks_sanitizeSheet`, `asks_collectDeclarations`: what is asked for a
  sheet and for a style attribute
- `asks_sanitizeSheet_resolved`: a sheet asks about URLs that were seen from its base
-/

namespace CssGuard

open Text

variable {α β : Type} {Q : Text → Text → Prop}

/-- An issue, or a question to the policy about a URL and a user that satisfy `Q`. -/
def Notice.IsQuestion (Q : Text → Text → Prop) : Notice → Prop
  | .issue _ => True
  | .consulted uri user => Q uri user
  | .requested _ | .continued .. => False

/-- While the value is computed, issues are reported and the policy is asked about URLs
and users that satisfy `Q`, and nothing else happens. -/
def Traced.Asks (Q : Text → Text → Prop) (x : Traced α) : Prop :=
  ∀ n ∈ x.trace, n.IsQuestion Q

theorem asks_pure (a : α) : (pure a : Traced α).Asks Q :=
  fun _ h => absurd h List.not_mem_nil

theorem Traced.Asks.bind {x : Traced α} {f : α → Traced β} (hx : x.Asks Q)
    (hf : (f x.value).Asks Q) : (x >>= f).Asks Q :=
  fun n h => (List.mem_append.mp h).elim (hx n) (hf n)

theorem Traced.Asks.mono {Q' : Text → Text → Prop} {x : Traced α} (hx : x.Asks Q)
    (h : ∀ uri user, Q uri user → Q' uri user) : x.Asks Q' := by
  intro n hn
  have hquestion := hx n hn
  cases n with
  | consulted uri user => exact h uri user hquestion
  | _ => exact hquestion

theorem asks_reporting (cause : Issue) (a : α) : (Traced.reporting cause a).Asks Q := by
  intro n h
  cases List.mem_singleton.mp h
  exact trivial

theorem asks_ite {c : Prop} [Decidable c] {x y : Traced α} (hx : c → x.Asks Q)
    (hy : ¬ c → y.Asks Q) : (if c then x else y).Asks Q := by
  split
  · exact hx ‹_›
  · exact hy ‹_›

theorem asks_collect {f : α → Traced β} {xs : List α} (h : ∀ x ∈ xs, (f x).Asks Q) :
    (Traced.collect f xs).Asks Q := by
  induction xs with
  | nil => exact asks_pure _
  | cons x xs ih =>
    refine (h x (List.mem_cons_self ..)).bind (Traced.Asks.bind ?_ (asks_pure _))
    exact ih fun y hy => h y (List.mem_cons_of_mem _ hy)

theorem asks_lex (css : Text) : (lex css).Asks Q := by
  intro n h
  obtain ⟨cause, -, rfl⟩ := List.mem_map.mp h
  exact trivial

/-! ## Selectors and media -/

theorem asks_sanitizePseudo (ctx : CompoundContext) (subject : Subject) (front : Text)
    (tokens : List Token) : (sanitizePseudo ctx subject front tokens).Asks Q := by
  unfold sanitizePseudo
  dsimp only
  split
  · exact asks_reporting _ _
  · exact asks_ite (fun _ => asks_pure _) fun _ => asks_pure _

theorem asks_sanitizePieces (ctx : CompoundContext) (subject : Subject) (front : Text)
    (tokens : List Token) : (sanitizePieces ctx subject front tokens).Asks Q := by
  fun_induction sanitizePieces ctx subject front tokens
  case case1 => exact asks_pure _
  case case2 ih | case5 ih | case9 ih => exact ih
  case case10 => exact asks_sanitizePseudo _ _ _ _
  all_goals exact asks_reporting _ _

theorem asks_sanitizeCompound (ctx : CompoundContext) (tokens : List Token) :
    (sanitizeCompound ctx tokens).Asks Q := by
  unfold sanitizeCompound
  split
  · exact asks_pure _
  · refine asks_ite (fun _ => asks_sanitizePieces _ _ _ _) fun _ =>
      asks_ite (fun _ => ?_) fun _ =>
      asks_sanitizePieces _ _ _ _
    refine asks_ite (fun _ => asks_reporting _ _) fun _ => ?_
    split
    · exact asks_reporting _ _
    · exact asks_sanitizePieces _ _ _ _

theorem asks_sanitizeCompounds (ctx : SelectorContext)
    (parts : List (Token × List Token)) : (sanitizeCompounds ctx parts).Asks Q := by
  induction parts with
  | nil => exact asks_pure _
  | cons part parts ih =>
    refine (asks_sanitizeCompound _ _).bind ?_
    split
    · exact asks_pure _
    · refine ih.bind ?_
      split
      · exact asks_pure _
      · exact asks_pure _

theorem asks_sanitizeSelector (ctx : SelectorContext) (tokens : List Token) :
    (sanitizeSelector ctx tokens).Asks Q := by
  have hcomplex : (sanitizeComplex ctx tokens).Asks Q := by
    refine (asks_sanitizeCompound _ _).bind ?_
    split
    · exact asks_pure _
    · refine (asks_sanitizeCompounds _ _).bind ?_
      split
      · exact asks_pure _
      · exact asks_pure _
  refine (asks_ite (fun _ => asks_pure _) fun _ => hcomplex).bind ?_
  split
  · exact asks_pure _
  · exact asks_reporting _ _

theorem asks_sanitizeSelectors (ctx : SelectorContext) (tokens : List Token) :
    (sanitizeSelectors ctx tokens).Asks Q := by
  unfold sanitizeSelectors
  induction splitSelectors tokens with
  | nil => exact asks_pure _
  | cons part parts ih => exact (asks_sanitizeSelector _ _).bind (ih.bind (asks_pure _))

theorem asks_filterMedia (types : List Text) (header : List Token) :
    (filterMedia types header).Asks Q := by
  refine (asks_collect fun tokens _ => ?_).bind (asks_pure _)
  unfold filterQuery
  split
  · exact asks_pure _
  · exact asks_reporting _ _

theorem asks_historyStep (s : Schema) (t : Token) (state : HistoryState) :
    (state.step s t).Asks Q := by
  cases state with
  | between => exact asks_ite (fun _ => asks_pure _) fun _ => asks_reporting _ _
  | inside name allowed seenColon value =>
    exact asks_ite (fun _ => asks_pure _) fun _ => asks_pure _

theorem asks_filterHistoryFrom (s : Schema) (tokens : List Token) :
    ∀ (out : Text) (state : HistoryState),
    (filterHistoryFrom s out state tokens).Asks Q := by
  induction tokens with
  | nil => exact fun _ _ => asks_pure _
  | cons t tokens ih =>
    intro out state
    refine asks_ite (fun _ => ih _ _) fun _ => asks_ite (fun _ => ih _ _) fun _ => ?_
    exact (asks_historyStep s t state).bind (ih out _)

theorem asks_filterHistory (s : Schema) (tokens : List Token) :
    (filterHistory s tokens).Asks Q :=
  asks_filterHistoryFrom s tokens [] .between

/-! ## Values -/

/-- The policy is asked about harmless URLs only. -/
theorem asks_accept (policy : Option Url.Policy) {uri user : Text}
    (h : Url.isHarmless uri → Q uri user) : (Url.accept policy uri user).Asks Q := by
  unfold Url.accept
  split
  · exact asks_pure _
  · refine asks_ite (fun hharmless => ?_) fun _ => asks_pure _
    intro n hmem
    cases List.mem_singleton.mp hmem
    exact h hharmless

section Values

variable {ctx : ValueContext} {property : Text}

/-- The URLs that are harmless when they are seen from the base satisfy `Q` there. -/
def Admits (Q : Text → Text → Prop) (base : Option Text) (user : Text) : Prop :=
  ∀ uri, Url.isHarmless (Url.resolve base uri) → Q (Url.resolve base uri) user

theorem asks_keepUrl (h : Admits Q ctx.base property) (body : Text) :
    (keepUrl ctx property body).Asks Q := by
  refine (asks_accept _ (h _)).bind ?_
  split
  · exact asks_pure _
  · exact asks_reporting _ _

theorem asks_keepForm (h : Admits Q ctx.base property) (e : Entry) (raw : Token)
    (form : Form) : (keepForm ctx property e raw form).Asks Q := by
  unfold keepForm
  split
  case h_1 =>
    refine asks_ite (fun _ => asks_ite (fun _ => asks_keepUrl h _) fun _ => asks_pure _)
      fun _ => ?_
    exact asks_ite (fun _ => asks_pure _) fun _ => asks_pure _
  case h_5 => exact asks_ite (fun _ => asks_keepUrl h _) fun _ => asks_pure _
  case h_6 =>
    refine asks_ite (fun _ => asks_pure _) fun _ =>
      asks_ite (fun _ => asks_pure _) fun _ => ?_
    exact asks_pure _
  all_goals exact asks_pure _

theorem asks_keep (h : Admits Q ctx.base property) (e : Entry) (raw : Token) :
    (keep ctx property e raw).Asks Q := by
  unfold keep
  split
  · exact asks_pure _
  · refine (asks_keepForm h _ _ _).bind ?_
    split
    · exact Traced.Asks.bind (asks_reporting _ _) (asks_pure _)
    · exact Traced.Asks.bind (asks_pure _) (asks_pure _)

/-- What the arguments of calls ask. -/
def AsksArguments (Q : Text → Text → Prop) : Option SanitizeArguments → Prop
  | none => True
  | some inner => ∀ f args, (inner f args).Asks Q

theorem asks_keepCall {inner : Option SanitizeArguments} (hinner : AsksArguments Q inner)
    (e : Entry) (opener : Token) (args : List Token) :
    (keepCall ctx property e inner opener args).Asks Q := by
  unfold keepCall
  split
  · exact asks_reporting _ _
  split
  · exact asks_reporting _ _
  · refine (hinner _ _).bind (asks_ite (fun _ => asks_pure _) fun _ => ?_)
    exact asks_ite (fun _ => asks_pure _) fun _ => asks_pure _

theorem asks_sanitizeFrom (h : Admits Q ctx.base property)
    (inner : Option SanitizeArguments) (hinner : AsksArguments Q inner) (e : Entry)
    (ends : List (Nat × Nat)) (ts : List Token) :
    ∀ place skip, (sanitizeFrom ctx property e inner ends place skip ts).Asks Q := by
  induction ts with
  | nil => exact fun _ _ => asks_pure _
  | cons raw rest ih =>
    intro place skip
    cases skip with
    | succ skip => exact ih _ _
    | zero =>
      unfold sanitizeFrom
      refine asks_ite (fun _ => ?_) fun _ =>
        (asks_keep h _ _).bind ((ih _ _).bind (asks_pure _))
      split
      · exact asks_reporting _ _
      · exact (asks_keepCall hinner _ _ _).bind ((ih _ _).bind (asks_pure _))

theorem asks_sanitizeAt (h : Admits Q ctx.base property) (levels : Nat) :
    ∀ e ts, (sanitizeAt ctx property levels e ts).Asks Q := by
  induction levels with
  | zero =>
    exact fun e ts => (asks_sanitizeFrom h none trivial e _ ts _ _).bind (asks_pure _)
  | succ levels ih =>
    exact fun e ts => (asks_sanitizeFrom h (some _) ih e _ ts _ _).bind (asks_pure _)

end Values

/-! ## Declarations and sheets -/

/-- The URL is harmless, and it is used by a property of the schema. -/
def IsFairQuestion (schema : Schema) (uri user : Text) : Prop :=
  Url.isHarmless uri ∧ user ∈ schema.names

/-- Besides, the URL was seen from the base. -/
def IsResolvedQuestion (schema : Schema) (base : Option Text) (uri user : Text) : Prop :=
  IsFairQuestion schema uri user ∧ ∃ reference, uri = Url.resolve base reference

theorem asks_sanitizeDeclaration (ctx : ValueContext) (name : Text) (value : List Token) :
    (sanitizeDeclaration ctx name value).Asks
      (IsResolvedQuestion ctx.schema ctx.base) := by
  refine Traced.Asks.bind ?_ (asks_pure _)
  unfold sanitizeProperty
  split
  · exact asks_reporting _ _
  · rename_i e hfind
    have hname := Schema.mem_names_of_find? hfind
    exact (asks_sanitizeAt (fun uri hharmless => ⟨⟨hharmless, hname⟩, uri,
      rfl⟩) _ _ _).bind (asks_pure _)

theorem asks_collectDeclarations (ctx : ValueContext) (tokens : List Token) :
    (collectDeclarations ctx tokens).Asks (IsFairQuestion ctx.schema) := by
  refine (asks_collect fun signal _ => ?_).bind (asks_pure _)
  unfold declarationText
  split
  · exact asks_reporting _ _
  · exact ((asks_sanitizeDeclaration _ _ _).mono fun _ _ h => h.1).bind (asks_pure _)
  · exact asks_pure _

section Sheets

variable {ctx : SheetContext}

theorem asks_importRequest (s : SheetState) (header : List Token)
    (h : ctx.importLevels ≠ none → ∀ uri, Url.isHarmless uri → Q uri "@import") :
    (importRequest ctx s header).Asks Q := by
  unfold importRequest
  split
  · exact asks_reporting _ _
  rename_i levels hlevels
  refine asks_ite (fun _ => ?_) fun _ => asks_reporting _ _
  split
  · exact asks_reporting _ _
  split
  · exact asks_reporting _ _
  refine Traced.Asks.bind ?_ ?_
  · unfold importMedia
    refine asks_ite (fun _ => asks_pure _) fun _ => (asks_filterMedia _ _).bind ?_
    exact asks_ite (fun _ => asks_reporting _ _) fun _ => asks_pure _
  split
  · exact asks_pure _
  split
  · exact asks_reporting _ _
  refine (asks_accept _ (h (by rw [hlevels]; exact Option.some_ne_none _) _)).bind ?_
  split
  · exact asks_reporting _ _
  · exact asks_pure _

theorem asks_startAtRule (s : SheetState) (name : Text) (header : List Token)
    (h : ctx.importLevels ≠ none → ∀ uri, Url.isHarmless uri → Q uri "@import") :
    (s.startAtRule ctx name header).Asks Q := by
  unfold SheetState.startAtRule
  refine asks_ite (fun _ => asks_pure _) fun _ => asks_ite (fun _ => ?_) fun _ => ?_
  · refine (asks_filterMedia _ _).bind ?_
    exact asks_ite (fun _ => asks_reporting _ _) fun _ => asks_pure _
  · refine asks_ite (fun _ => ?_) fun _ => asks_reporting _ _
    exact (asks_importRequest s header h).bind (asks_pure _)

theorem asks_startRuleset (s : SheetState) (selector : List Token) :
    (s.startRuleset ctx selector).Asks Q :=
  asks_ite (fun _ => asks_pure _) fun _ => (asks_sanitizeSelectors _ _).bind (asks_pure _)

theorem asks_endRuleset (s : SheetState) : (s.endRuleset ctx).Asks Q := by
  unfold SheetState.endRuleset
  split
  · refine Traced.Asks.bind ?_ (asks_pure _)
    unfold rulesetTexts
    exact asks_ite (fun _ => asks_pure _) fun _ =>
      (asks_filterHistory _ _).bind (asks_pure _)
  · exact asks_pure _

theorem asks_declare (s : SheetState) (name : Text) (value : List Token) :
    (s.declare ctx name value).Asks (IsResolvedQuestion ctx.schema ctx.base) := by
  unfold SheetState.declare
  split
  · exact (asks_sanitizeDeclaration _ _ _).bind (asks_pure _)
  · exact asks_pure _

/-- What an event asks: on behalf of a property of the schema, or
of an import if these are followed. -/
theorem asks_step (s : SheetState) (e : Event)
    (hfair : ∀ uri user, IsResolvedQuestion ctx.schema ctx.base uri user → Q uri user)
    (himport : ctx.importLevels ≠ none → ∀ uri, Url.isHarmless uri → Q uri "@import") :
    (s.step ctx e).Asks Q := by
  cases e with
  | startAtRule name header => exact asks_startAtRule s name header himport
  | startRuleset selector => exact (asks_startRuleset s selector).bind (asks_pure _)
  | endRuleset => exact (asks_endRuleset s).bind (asks_pure _)
  | declaration name value =>
    exact ((asks_declare s name value).mono hfair).bind (asks_pure _)
  | _ => exact asks_pure _

theorem asks_runSheet_resolved (himports : ctx.importLevels = none)
    (signals : List Signal) :
    ∀ s, (runSheet ctx s signals).Asks (IsResolvedQuestion ctx.schema ctx.base) := by
  induction signals with
  | nil => exact fun _ => asks_pure _
  | cons signal signals ih =>
    intro s
    cases signal with
    | issue cause => exact Traced.Asks.bind (asks_reporting _ _) (ih _)
    | event e =>
      exact (asks_step s e (fun _ _ h => h) fun h => absurd himports h).bind (ih _)

theorem asks_runSheet (himports : ctx.importLevels = none) (signals : List Signal)
    (s : SheetState) : (runSheet ctx s signals).Asks (IsFairQuestion ctx.schema) :=
  (asks_runSheet_resolved himports signals s).mono fun _ _ h => h.1

theorem asks_sanitizeSheet_resolved (ctx : SheetContext) (css : Text) :
    (sanitizeSheet ctx css).Asks (IsResolvedQuestion ctx.schema ctx.base) :=
  (asks_lex css).bind ((asks_runSheet_resolved rfl _ _).bind (asks_pure _))

theorem asks_sanitizeSheet (ctx : SheetContext) (css : Text) :
    (sanitizeSheet ctx css).Asks (IsFairQuestion ctx.schema) :=
  (asks_sanitizeSheet_resolved ctx css).mono fun _ _ h => h.1

end Sheets

end CssGuard
