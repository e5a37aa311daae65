import CssGuard.Event.Statements
import CssGuard.Proofs.Text.Lower

/-!
# What the events of a sheet can be

The events of a sheet come in statements: a ruleset with its declarations, an at-rule by
itself, and the opening and closing of its block. Blocks are closed as often as they are
opened, at most `maxNesting` of them are open at once, and every token of an event is one
of the sheet.

- `IsValue`: the tokens can be the value of a declaration
- `Signal.Declares`: the signal is an issue or a declaration
- `Statement`: what one step through a sheet can give
- `Statements`: step after step, until all blocks are closed
- `statements_statementSignals`: the signals of a sheet are statements
-/

namespace CssGuard

open Text

/-! ## Declarations -/

/-- A value has at least one token, and none that separates or structures. -/
def IsValue (value : List Token) : Prop :=
  value ≠ [] ∧ ∀ t ∈ value, t ≠ Token.space ∧ ¬ t.isStructural

instance (value : List Token) : Decidable (IsValue value) :=
  inferInstanceAs (Decidable (_ ∧ _))

/-- The signal is an issue, or a declaration of a value, whose tokens satisfy `S`. -/
def Signal.Declares (S : Token → Prop) : Signal → Prop
  | .issue _ => True
  | .event (.declaration name value) =>
    (∃ raw, S raw ∧ name = lower raw) ∧ (∀ t ∈ value, S t) ∧ IsValue value
  | .event _ => False

theorem afterBlock_subset (depth : Nat) (ts : List Token) : afterBlock depth ts ⊆ ts := by
  fun_induction afterBlock depth ts
  case case1 => exact List.Subset.refl _
  case case3 => exact List.subset_cons_self _ _
  case case2 ih | case4 ih | case5 ih => exact List.subset_cons_of_subset _ ih

theorem afterDeclaration_subset (depth : Nat) (ts : List Token) :
    afterDeclaration depth ts ⊆ ts := by
  fun_induction afterDeclaration depth ts
  case case1 | case3 => exact List.Subset.refl _
  case case4 => exact List.subset_cons_self _ _
  case case2 ih | case5 ih | case6 ih => exact List.subset_cons_of_subset _ ih

theorem readValue_subset (depth : Nat) (ts : List Token) :
    (readValue depth ts).value ⊆ ts ∧ (readValue depth ts).rest ⊆ ts := by
  fun_induction readValue depth ts
  case case1 => exact ⟨List.Subset.refl _, List.Subset.refl _⟩
  case case3 => exact ⟨List.nil_subset _, List.Subset.refl _⟩
  case case4 => exact ⟨List.nil_subset _, List.subset_cons_self _ _⟩
  case case6 ih => exact ⟨List.cons_subset_cons _ ih.1, List.subset_cons_of_subset _ ih.2⟩
  case case2 ih | case5 ih | case7 ih =>
    exact ih.imp (List.subset_cons_of_subset _) (List.subset_cons_of_subset _)

/-- Blocks, spaces and what ends a declaration do not get into a value. -/
theorem ne_space_and_not_isStructural_of_mem_readValue (depth : Nat) (ts : List Token) :
    ∀ t ∈ (readValue depth ts).value, t ≠ Token.space ∧ ¬ t.isStructural := by
  fun_induction readValue depth ts
  case case1 | case3 | case4 => exact fun _ h => absurd h List.not_mem_nil
  case case6 t rest hopen hclose hsemicolon hspace ih =>
    refine List.forall_mem_cons.mpr ⟨⟨hspace, ?_⟩, ih⟩
    simp [Token.isStructural, hopen, hclose, hsemicolon]
  case case2 ih | case5 ih | case7 ih => exact ih

theorem skipSpace_subset (ts : List Token) : skipSpace ts ⊆ ts := by
  unfold skipSpace
  split
  · exact List.Subset.refl _
  · split
    · exact List.subset_cons_self _ _
    · exact List.Subset.refl _

variable {S : Token → Prop}

theorem readDeclaration_spec {name : Token} {ts : List Token} (hname : S name)
    (hts : ∀ t ∈ ts, S t) :
    (∀ signal ∈ (readDeclaration name ts).signal, signal.Declares S) ∧
      (readDeclaration name ts).rest ⊆ ts := by
  have hskip := skipSpace_subset ts
  have hissue : ∀ {cause : Issue}, ∀ signal ∈ some (Signal.issue cause),
      signal.Declares S := by
    rintro cause _ ⟨⟩
    trivial
  unfold readDeclaration
  split
  · exact ⟨hissue, afterDeclaration_subset 0 ts⟩
  split
  · rename_i rest heq
    rw [heq] at hskip
    have hrest := List.subset_of_cons_subset hskip
    obtain ⟨hvalue, hafter⟩ := readValue_subset 0 rest
    refine ⟨?_, List.Subset.trans hafter hrest⟩
    dsimp only
    split
    · exact hissue
    split
    · rintro _ ⟨⟩
    · rename_i hne
      rintro _ ⟨⟩
      exact ⟨⟨name, hname, rfl⟩, fun t ht => hts t (hrest (hvalue ht)),
        fun hnil => hne (List.isEmpty_iff.mpr hnil),
        ne_space_and_not_isStructural_of_mem_readValue 0 rest⟩
  · exact ⟨hissue, List.Subset.trans (afterDeclaration_subset 0 _) hskip⟩

theorem readBody_spec {ts : List Token} (hts : ∀ t ∈ ts, S t) :
    (∀ signal ∈ (readBody ts).signals, signal.Declares S) ∧ (readBody ts).rest ⊆ ts := by
  fun_induction readBody ts with
  | case1 => exact ⟨fun _ h => absurd h List.not_mem_nil, List.Subset.refl _⟩
  | case2 => exact ⟨fun _ h => absurd h List.not_mem_nil, List.subset_cons_self _ _⟩
  | case3 t rest _ _ ih =>
    exact (ih (List.forall_mem_cons.mp hts).2).imp_right (List.subset_cons_of_subset _)
  | case4 rest _ _ _ ih =>
    have hsub := afterBlock_subset 0 rest
    obtain ⟨hsignals, hrest⟩ := ih fun t ht => hts t (List.mem_cons_of_mem _ (hsub ht))
    exact ⟨hsignals, List.subset_cons_of_subset _ (List.Subset.trans hrest hsub)⟩
  | case5 t rest _ _ _ _ ih =>
    obtain ⟨ht, hrest⟩ := List.forall_mem_cons.mp hts
    obtain ⟨hsignal, hsub⟩ := readDeclaration_spec ht hrest
    obtain ⟨hsignals, hafter⟩ := ih fun t ht => hrest t (hsub ht)
    refine ⟨fun signal h => ?_,
      List.subset_cons_of_subset _ (List.Subset.trans hafter hsub)⟩
    rcases List.mem_append.mp h with h | h
    · exact hsignal signal (Option.mem_toList.mp h)
    · exact hsignals signal h

theorem declares_of_mem_declarationSignals {ts : List Token} (hts : ∀ t ∈ ts, S t) :
    ∀ signal ∈ declarationSignals ts, signal.Declares S := by
  fun_induction declarationSignals ts with
  | case1 => exact fun _ h => absurd h List.not_mem_nil
  | case2 t rest _ ih => exact ih (List.forall_mem_cons.mp hts).2
  | case3 rest _ _ ih =>
    exact ih fun t ht => hts t (List.mem_cons_of_mem _ (afterBlock_subset 0 rest ht))
  | case4 t rest _ _ _ ih =>
    obtain ⟨ht, hrest⟩ := List.forall_mem_cons.mp hts
    obtain ⟨hsignal, hsub⟩ := readDeclaration_spec ht hrest
    intro signal h
    rcases List.mem_append.mp h with h | h
    · exact hsignal signal (Option.mem_toList.mp h)
    · exact ih (fun t ht => hrest t (hsub ht)) signal h

/-! ## Statements -/

/-- The signals of one step through a sheet whose tokens satisfy `S`, with the number of
open blocks before and after it. -/
inductive Statement (S : Token → Prop) : Nat → List Signal → Nat → Prop
  /-- Nothing but a report. -/
  | report {depth : Nat} (cause : Issue) : Statement S depth [.issue cause] depth
  /-- Nothing at all. -/
  | skip {depth : Nat} : Statement S depth [] depth
  /-- An at-rule without a block. -/
  | atRule {depth : Nat} (name : Text) (hname : Token.isAt name) {header : List Token}
    (hheader : ∀ t ∈ header, S t) :
    Statement S depth [.event (.startAtRule name header), .event .endAtRule] depth
  /-- An at-rule up to the opening of its block. -/
  | opening {depth : Nat} (hdepth : depth < maxNesting) (name : Text)
    (hname : Token.isAt name) {header : List Token} (hheader : ∀ t ∈ header, S t) :
    Statement S depth [.event (.startAtRule name header), .event .startBlock] (depth + 1)
  /-- The end of an at-rule and its block. -/
  | closing {depth : Nat} :
    Statement S (depth + 1) [.event .endBlock, .event .endAtRule] depth
  /-- A ruleset. -/
  | ruleset {depth : Nat} {selector : List Token} {body : List Signal}
    (hselector : ∀ t ∈ selector, S t) (hbody : ∀ signal ∈ body, signal.Declares S) :
    Statement S depth (.event (.startRuleset selector) :: body ++
      [.event .endRuleset]) depth

theorem mem_of_mem_dropEndSpace {t : Token} {ts : List Token} (h : t ∈ dropEndSpace ts) :
    t ∈ ts := by
  unfold dropEndSpace at h
  split at h
  · exact List.dropLast_subset _ h
  · exact h

theorem isAt_lower {name : Token} (h : name.isAt) : Token.isAt (lower name) := by
  obtain ⟨rest, rfl⟩ := List.head?_eq_some_iff.mp (of_decide_eq_true h)
  have hmark : IsLowered '@' := isLowered_of_ascii (by decide) (by decide)
  obtain ⟨rest', heq⟩ := lower_cons hmark rest
  rw [heq]
  rfl

theorem statement_readAtRule (depth : Nat) {name : Token} (hname : name.isAt)
    {ts : List Token} (hts : ∀ t ∈ ts, S t) :
    Statement S depth (readAtRule depth name ts).signals
      (readAtRule depth name ts).depth ∧ (readAtRule depth name ts).rest ⊆ ts := by
  have hheader : ∀ t ∈ dropEndSpace (skipSpace (ts.takeWhile fun t => !t.isStructural)),
      S t :=
    fun t ht => hts t ((List.takeWhile_sublist _).subset
      (skipSpace_subset _ (mem_of_mem_dropEndSpace ht)))
  have hdrop : (ts.dropWhile fun t => !t.isStructural) ⊆ ts :=
    (List.dropWhile_sublist _).subset
  unfold readAtRule
  dsimp only
  split
  · rename_i rest heq
    rw [heq] at hdrop
    exact ⟨.atRule _ (isAt_lower hname) hheader, List.subset_of_cons_subset hdrop⟩
  · rename_i rest heq
    rw [heq] at hdrop
    have hrest := List.subset_of_cons_subset hdrop
    split
    · exact ⟨.report _, List.Subset.trans (afterBlock_subset 0 rest) hrest⟩
    · rename_i hdepth
      exact ⟨.opening (Nat.lt_of_not_ge hdepth) _ (isAt_lower hname) hheader, hrest⟩
  · exact ⟨.report _, hdrop⟩

theorem statement_readRuleset (depth : Nat) {first : Token} {ts : List Token}
    (hfirst : S first) (hts : ∀ t ∈ ts, S t) :
    Statement S depth (readRuleset depth first ts).signals
      (readRuleset depth first ts).depth ∧
      ∀ t ∈ (readRuleset depth first ts).rest, S t := by
  have happ := append_readSelector [] (first :: ts)
  have hall : ∀ t ∈ first :: ts, S t := List.forall_mem_cons.mpr ⟨hfirst, hts⟩
  have hselector : ∀ t ∈ (readSelector [] (first :: ts)).selector, S t := fun t ht =>
    hall t (happ ▸ List.mem_append_left _ ht)
  have hrest : ∀ t ∈ (readSelector [] (first :: ts)).rest, S t := fun t ht =>
    hall t (happ ▸ List.mem_append_right _ ht)
  unfold readRuleset
  dsimp only
  split
  · rename_i after heq
    rw [heq] at hrest
    have hafter := (List.forall_mem_cons.mp hrest).2
    split
    · obtain ⟨hbody, hsub⟩ := readBody_spec hafter
      exact ⟨.ruleset (fun t ht => hselector t (mem_of_mem_dropEndSpace ht)) hbody,
        fun t ht => hafter t (hsub ht)⟩
    · exact ⟨.report _, fun t ht => hafter t (afterBlock_subset 0 after ht)⟩
  · split
    · exact ⟨.skip, hts⟩
    split
    · exact ⟨.report _, hrest⟩
    · exact ⟨.report _, hrest⟩

/-- One step through a sheet gives a statement. -/
theorem statement_readStatement (depth : Nat) {first : Token} {ts : List Token}
    (hfirst : S first) (hts : ∀ t ∈ ts, S t) :
    Statement S depth (readStatement depth first ts).signals
      (readStatement depth first ts).depth ∧
      ∀ t ∈ (readStatement depth first ts).rest, S t := by
  unfold readStatement
  split
  · exact ⟨.skip, hts⟩
  split
  · rename_i hclose
    obtain ⟨below, rfl⟩ := Nat.exists_eq_succ_of_ne_zero (Nat.ne_of_gt hclose.1)
    exact ⟨.closing, hts⟩
  split
  · exact ⟨.skip, hts⟩
  split
  · exact ⟨.skip, fun t ht => hts t (afterBlock_subset 0 ts ht)⟩
  split
  · rename_i hat
    obtain ⟨hstatement, hsub⟩ := statement_readAtRule depth hat hts
    exact ⟨hstatement, fun t ht => hts t (hsub ht)⟩
  · exact statement_readRuleset depth hfirst hts

/-- The signals of statements, one after the other, until all of
`depth` open blocks are closed. -/
inductive Statements (S : Token → Prop) : Nat → List Signal → Prop
  | nil : Statements S 0 []
  | cons {depth depth' : Nat} {signals rest : List Signal}
    (h : Statement S depth signals depth') (hrest : Statements S depth' rest) :
    Statements S depth (signals ++ rest)

theorem statements_closingSignals (depth : Nat) :
    Statements S depth (closingSignals depth) := by
  induction depth with
  | zero => exact .nil
  | succ depth ih => exact .cons .closing ih

/-- The signals of a sheet are statements. -/
theorem statements_statementSignals {depth : Nat} {ts : List Token}
    (hts : ∀ t ∈ ts, S t) : Statements S depth (statementSignals depth ts) := by
  fun_induction statementSignals depth ts with
  | case1 depth => exact statements_closingSignals depth
  | case2 depth first rest _ ih =>
    obtain ⟨hfirst, hrest⟩ := List.forall_mem_cons.mp hts
    obtain ⟨hstatement, hafter⟩ := statement_readStatement depth hfirst hrest
    exact .cons hstatement (ih hafter)

end CssGuard
