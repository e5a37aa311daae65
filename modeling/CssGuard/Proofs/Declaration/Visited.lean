import CssGuard.Declaration

/-!
# The filter for visited links

The filter goes through the tokens of all declarations at once and keeps in mind where it
stands. It does the same to each declaration: what is left of the tokens up to a semicolon
does not depend on the tokens before them.

- `filterHistoryOne`: what is left of the tokens of one declaration
- `HistoryState.closing`: what is left of a declaration if its
  other tokens are still to come
- `filterHistory_eq`: the filter takes the declarations one by one
-/

namespace CssGuard

open Text

/-! ## Fields -/

theorem fields_ne_nil {α : Type} [DecidableEq α] (sep : α) (xs : List α) :
    fields sep xs ≠ [] := by
  cases xs with
  | nil => exact List.cons_ne_nil _ _
  | cons x xs =>
    rw [fields]
    split
    · exact List.cons_ne_nil _ _
    · split
      · exact List.cons_ne_nil _ _
      · exact List.cons_ne_nil _ _

theorem fields_append {α : Type} [DecidableEq α] {sep : α} {xs : List α} (h : sep ∉ xs)
    (rest : List α) : fields sep (xs ++ sep :: rest) = xs :: fields sep rest := by
  induction xs with
  | nil => exact if_pos rfl
  | cons x xs ih =>
    have hx : x ≠ sep := fun heq => h (heq ▸ List.mem_cons_self ..)
    rw [List.cons_append, fields, if_neg hx,
      ih fun hmem => h (List.mem_cons_of_mem _ hmem)]

/-! ## One declaration -/

/-- What is left of the tokens of one declaration, up to its semicolon. The first colon
divides the property from its value. -/
def filterHistoryOne (s : Schema) (tokens : List Token) : Traced Text :=
  match tokens.filter (· ≠ Token.space) with
  | [] => pure []
  | first :: rest =>
    let name := lower first
    if s.allowsInLink name then
      let value := rest.erase Token.colon
      pure (if value.isEmpty then [] else Declaration.text name value)
    else Traced.reporting (.historySensitiveProperty name) []

namespace HistoryState

/-- What is left of a declaration, the other tokens of which are still to come. -/
def closing (s : Schema) (tokens : List Token) : HistoryState → Traced Text
  | between => filterHistoryOne s tokens
  | inside name allowed seenColon value =>
    let rest := tokens.filter (· ≠ Token.space)
    let rest := if seenColon then rest else rest.erase Token.colon
    pure (inside name allowed true (if allowed then value ++ rest else value)).text

variable (s : Schema) (state : HistoryState)

theorem closing_nil : state.closing s [] = pure state.text := by
  cases state with
  | between => rfl
  | inside name allowed seenColon value => simp [closing, text]

theorem closing_space (tokens : List Token) :
    state.closing s (Token.space :: tokens) = state.closing s tokens := by
  cases state with
  | between => simp [closing, filterHistoryOne]
  | inside name allowed seenColon value => simp [closing]

/-- A token may be read before the others. -/
theorem closing_cons {t : Token} (ht : t ≠ Token.space) (tokens : List Token) :
    state.closing s (t :: tokens) = (do
      let state ← state.step s t
      state.closing s tokens) := by
  have hfilter : (t :: tokens).filter (· ≠ Token.space) =
      t :: tokens.filter (· ≠ Token.space) :=
    List.filter_cons_of_pos (p := (· ≠ Token.space)) (decide_eq_true ht)
  cases state with
  | between =>
    rw [closing, filterHistoryOne, step, hfilter]
    by_cases hallowed : s.allowsInLink (lower t)
    · simp only [hallowed, if_true, pure_bind, closing, text,
        Bool.false_eq_true, if_false, List.nil_append, Bool.true_and]
      cases (tokens.filter (· ≠ Token.space)).erase Token.colon with
      | nil => rfl
      | cons first rest => rfl
    · simp only [hallowed]
      rfl
  | inside name allowed seenColon value =>
    rw [closing, step, hfilter]
    by_cases hcolon : t = Token.colon ∧ !seenColon
    · obtain ⟨rfl, hseen⟩ := id hcolon
      obtain rfl : seenColon = false := by simpa using hseen
      simp [closing]
    · have hrest : (if seenColon then t :: tokens.filter (· ≠ Token.space)
            else (t :: tokens.filter (· ≠ Token.space)).erase Token.colon) =
          t :: if seenColon then tokens.filter (· ≠ Token.space)
            else (tokens.filter (· ≠ Token.space)).erase Token.colon := by
        grind
      rw [if_neg hcolon, pure_bind, closing, hrest]
      cases allowed with
      | false => rfl
      | true => simp

end HistoryState

/-! ## All declarations -/

/-- The induction is on the tokens, for any place where the filter may stand. -/
theorem filterHistoryFrom_eq (s : Schema) (tokens : List Token) :
    ∀ (out : Text) (state : HistoryState) {field : List Token} {more : List (List Token)},
      fields Token.semicolon tokens = field :: more →
      filterHistoryFrom s out state tokens = (do
        let text ← state.closing s field
        let texts ← Traced.collect (filterHistoryOne s) more
        pure (out ++ text ++ texts.flatten)) := by
  induction tokens with
  | nil =>
    intro out state field more hfields
    cases hfields
    rw [filterHistoryFrom, state.closing_nil, pure_bind, Traced.collect, pure_bind,
      List.flatten_nil, List.append_nil]
  | cons t tokens ih =>
    intro out state field more hfields
    obtain ⟨field', more', heq⟩ :=
      List.exists_cons_of_ne_nil (fields_ne_nil Token.semicolon tokens)
    rw [fields, heq] at hfields
    rw [filterHistoryFrom]
    split at hfields
    · rename_i hend
      cases hfields
      rw [if_pos hend, ih _ _ heq, state.closing_nil, pure_bind, Traced.collect]
      simp only [HistoryState.closing, bind_assoc, pure_bind, List.flatten_cons,
        List.append_assoc]
    · rename_i hend
      cases hfields
      rw [if_neg hend]
      by_cases hspace : t = Token.space
      · rw [if_pos hspace, ih _ _ heq, hspace, state.closing_space]
      · rw [if_neg hspace, state.closing_cons s hspace, bind_assoc]
        exact congrArg _ (funext fun state => ih out state heq)

/-- The filter takes the declarations one by one. -/
theorem filterHistory_eq (s : Schema) (tokens : List Token) :
    filterHistory s tokens = (do
      let texts ← Traced.collect (filterHistoryOne s) (fields Token.semicolon tokens)
      pure texts.flatten) := by
  obtain ⟨field, more, heq⟩ :=
    List.exists_cons_of_ne_nil (fields_ne_nil Token.semicolon tokens)
  rw [filterHistory, filterHistoryFrom_eq s tokens [] .between heq, heq, Traced.collect]
  simp only [HistoryState.closing, bind_assoc, pure_bind, List.flatten_cons,
    List.nil_append]

end CssGuard
