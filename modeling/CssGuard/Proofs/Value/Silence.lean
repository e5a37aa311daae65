import CssGuard.Proofs.Value.Emitted
import CssGuard.Proofs.Value.Refusal

/-!
# Values that are dropped silently

What is dropped of a value is reported, with one exception: a call that is permitted and
has nothing inside. So a value of which nothing is left without a report consists of
spaces and of such calls, and any value of this kind is dropped without a report.

- `Token.isBlank`: nothing is written in the token
- `ValueTree.isHollow`: nothing is written in the tree but calls
- `ValueTree.isSilent_iff`: the trees of which nothing is kept and nothing reported
- `sanitizeProperty_silent_iff`: the values that are dropped silently
-/

namespace CssGuard

open Text

/-- Nothing is written in the token. -/
def Token.isBlank (t : Token) : Bool :=
  t.isEmpty || t.head? = some ' '

/-- Nothing is written in the tree but calls of permitted functions. -/
def ValueTree.isHollow : ValueTree → Bool
  | nil => true
  | token raw rest => raw.isBlank && rest.isHollow
  | call _ _ arguments rest => arguments.isHollow && rest.isHollow
  | dropped .. | unclosed .. => false

/-! ## Single tokens -/

theorem Token.isBlank_lower (raw : Token) : Token.isBlank (lower raw) = raw.isBlank := by
  cases raw with
  | nil => rfl
  | cons c t =>
    obtain ⟨d, rest, hlower, hd⟩ := exists_lowerAfter_cons [] c t
    have hspace : d = ' ' ↔ c = ' ' := by
      constructor
      · rintro rfl
        exact eq_of_lowersTo hd (by decide) (by decide)
      · rintro rfl
        obtain ⟨t', ht'⟩ :=
          lower_cons (isLowered_of_ascii (by decide : ' '.toNat < 0x80) (by decide)) t
        exact (List.cons.inj (hlower.symm.trans ht')).1
    show Token.isBlank (lowerAfter [] (c :: t)) = _
    rw [hlower]
    simp [Token.isBlank, hspace]

theorem Form.of_eq_blank_iff {e : Entry} {raw : Token} :
    Form.of e raw = .blank ↔ raw.isBlank := by
  rw [← Token.isBlank_lower]
  constructor
  · intro h
    exact Bool.or_eq_true_iff.mpr ((Form.says_of_eq h).imp_right decide_eq_true)
  · exact fun h => if_pos h

variable {ctx : ValueContext} {property : Text}

/-- Nothing is kept and nothing reported. -/
def IsSilent (x : Traced Draft) : Prop :=
  x.value.pieces = [] ∧ x.trace.issues = []

theorem isSilent_append {x y : Traced Draft} :
    IsSilent (do
      let draft ← x
      let more ← y
      pure (draft.append more)) ↔ IsSilent x ∧ IsSilent y := by
  simp only [IsSilent, Traced.value_bind, Traced.value_pure, Draft.append,
    Traced.trace_bind, Traced.trace_pure, List.append_nil, Trace.issues_append,
    List.append_eq_nil_iff]
  exact and_and_and_comm

theorem isSilent_keep {e : Entry} {raw : Token} :
    IsSilent (keep ctx property e raw) ↔
      raw.isBlank := by
  rw [← @Form.of_eq_blank_iff e raw, IsSilent, value_keep, trace_keep,
    Trace.issues_append]
  by_cases hform : Form.of e raw = .blank
  · simp [hform, keepForm, Draft.empty, Trace.issues]
  · simp +contextual [hform, Trace.issues]

/-- A refused URL is reported, so without a report none was refused. -/
theorem ValueTree.not_refused_of_issues_eq_nil {tree : ValueTree} {e : Entry}
    (h : (tree.keep ctx property e).trace.issues = []) :
    ¬ (tree.keep ctx property e).value.refused := by
  have hurls : KeepsUrls ctx property _ _ := tree.keepsUrls e
  intro hrefused
  obtain ⟨uri, hmem, hrefuses⟩ := hurls.refused_iff.mp hrefused
  have hrejected := (hurls.rejected_iff uri).mpr ⟨hmem, hrefuses⟩
  rw [h] at hrejected
  cases hrejected

/-- The trees of which nothing is kept and nothing reported. -/
theorem ValueTree.isSilent_iff {tree : ValueTree} {e : Entry} :
    IsSilent (tree.keep ctx property e) ↔ tree.isHollow := by
  induction tree generalizing e with
  | nil => exact iff_of_true ⟨rfl, rfl⟩ rfl
  | token raw rest ih =>
    rw [keep, isSilent_append, isSilent_keep, ih, isHollow, Bool.and_eq_true]
  | call opener f arguments rest ihargs ih =>
    -- nothing is left of a refused call either, but its URL is reported
    have hinner : IsSilent (do
        let draft ← arguments.keep ctx property f
        pure (draft.finish.inCall (lower opener))) ↔
          IsSilent (arguments.keep ctx property f) := by
      simp only [IsSilent, Traced.value_bind, Traced.value_pure, Traced.trace_bind,
        Traced.trace_pure, List.append_nil]
      exact and_congr_left fun hissues =>
        (inCall_finish _ _).2 (not_refused_of_issues_eq_nil hissues)
    have happend := @isSilent_append (do
        let draft ← arguments.keep ctx property f
        pure (draft.finish.inCall (lower opener))) (rest.keep ctx property e)
    simp only [bind_assoc, pure_bind] at happend
    rw [keep, happend, isHollow, Bool.and_eq_true, ← ihargs, ← ih, ← hinner]
  | dropped opener tooDeep inside rest ih =>
    rw [keep, isSilent_append]
    exact iff_of_false (fun h => List.cons_ne_nil _ _ h.1.2) Bool.false_ne_true
  | unclosed opener inside =>
    exact iff_of_false (fun h => List.cons_ne_nil _ _ h.2) Bool.false_ne_true

/-- A value is dropped without a report if and only if nothing is written in it but calls
of permitted functions, inside of which nothing is written but such calls. -/
theorem sanitizeProperty_silent_iff (ctx : ValueContext) (name : Text)
    (value : List Token) :
    ((sanitizeProperty ctx name value).value = [] ∧
        (sanitizeProperty ctx name value).trace.issues = []) ↔
      ∃ e, ctx.schema.find? (lower name) = some e ∧
        (ValueTree.of ctx maxCallDepth e value).isHollow := by
  cases hfind : ctx.schema.find? (lower name) with
  | none =>
    rw [sanitizeProperty, hfind]
    refine iff_of_false (fun h => List.cons_ne_nil _ _ h.2) ?_
    rintro ⟨e, h, -⟩
    cases h
  | some e =>
    have hresult := sanitizeProperty_eq hfind value
    simp only [Option.some.injEq, exists_eq_left']
    rw [hresult, Traced.value_map, Traced.trace_map,
      ← @ValueTree.isSilent_iff ctx (lower name)]
    refine and_congr_left fun hissues => ?_
    rw [if_neg (ValueTree.not_refused_of_issues_eq_nil hissues), coalesce_eq_nil_iff]

/-- An empty call of a permitted function is dropped without a report. -/
theorem sanitizeProperty_silent_emptyCall :
    (∃ t ∈ ["rgb(", ")"], ¬ Token.isBlank t) ∧
      sanitizeProperty ⟨none, none, defaultSchema, none⟩ "color" ["rgb(", ")"] =
        ⟨[], []⟩ := by
  decide +kernel

end CssGuard
