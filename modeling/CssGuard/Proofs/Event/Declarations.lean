import CssGuard.Proofs.Event.Recovery
import CssGuard.StyleAttribute

/-!
# Declarations keep to themselves

However a declaration is malformed, it is passed over up to the mark that ends it, and no
further. So a list of declarations that closes its own blocks is read in the same way with
a mark after it as alone: either the mark is still there where the next declaration could
begin, or the last declaration has taken it as its end.

- `EndsDeclaration`: tokens that begin with the end of a declaration
- `Resumes`: what is left of tokens, and what is left of them with such tokens behind
- `afterBlock_resumes`, `afterDeclaration_resumes`, `readValue_resumes`,
  `readDeclaration_resumes`: one step of each reader
- `declarationSignals_of_resumes`: all steps
- `collectDeclarations_append`: what is left of declarations,
  and of those after a semicolon
-/

namespace CssGuard

open Text

/-! ## Balanced tokens, from the inside -/

variable {depth : Nat}

/-- Inside of `k + 1` blocks, one of which may end with the token. -/
theorem Balance.of_inside {k : Nat} {t : Token} {ts : List Token}
    (h : Balance (k + 1) (t :: ts) depth) (hopen : t ≠ Token.openBrace) :
    Balance (if t = Token.closeBrace then k else k + 1) ts depth := by
  by_cases hclose : t = Token.closeBrace
  · subst hclose
    obtain ⟨below, hbelow, hrest⟩ := h.of_close
    cases hbelow
    rwa [if_pos rfl]
  · rw [if_neg hclose]
    exact h.of_cons hopen hclose

theorem Balance.not_close {ts : List Token} :
    ¬ Balance 0 (Token.closeBrace :: ts) depth := by
  intro h
  obtain ⟨below, hbelow, -⟩ := h.of_close
  cases hbelow

theorem Balance.eq_of_nil {k : Nat} (h : Balance k [] depth) : k = depth :=
  h.total

/-- Tokens of which no prefix closes more braces than it opens leave
some number of blocks open. -/
theorem balance_of_take {ts : List Token}
    (h : ∀ n, (ts.take n).count Token.closeBrace ≤ (ts.take n).count Token.openBrace) :
    Balance 0 ts (ts.count Token.openBrace - ts.count Token.closeBrace) := by
  have hall := h ts.length
  rw [List.take_length] at hall
  constructor
  · intro n
    have := h n
    omega
  · omega

/-! ## One step -/

/-- Met inside of a declaration of which `depth` blocks are open, the tokens add nothing
to it: it ends with the first of them, or in front of it. -/
structure EndsDeclaration (depth : Nat) (tail : List Token) : Prop where
  value : readValue depth tail = ⟨[], false, afterDeclaration depth tail⟩
  block : ∀ below, depth = below + 1 → afterBlock below tail = afterDeclaration depth tail
  space : skipSpace tail = tail
  colon : ∀ rest, tail ≠ Token.colon :: rest

/-- A brace closes the block that is open, or the ruleset around the declaration. -/
theorem endsDeclaration_closeBrace (depth : Nat) :
    EndsDeclaration depth [Token.closeBrace] where
  value := by cases depth <;> rfl
  block below h := by
    subst h
    cases below <;> rfl
  space := rfl
  colon rest h := by cases (List.cons.inj h).1

theorem endsDeclaration_semicolon (us : List Token) :
    EndsDeclaration 0 (Token.semicolon :: us) where
  value := rfl
  block below h := by cases h
  space := rfl
  colon rest h := by cases (List.cons.inj h).1

/-- What a reader leaves of tokens that leave `depth` blocks open, and what it leaves of
them with a tail behind: there the tail follows, unless the reader came to it. -/
inductive Resumes (depth : Nat) (tail : List Token) : List Token → List Token → Prop
  | within {ts : List Token} (h : Balance 0 ts depth) : Resumes depth tail ts (ts ++ tail)
  | ended : Resumes depth tail [] (afterDeclaration depth tail)

section Steps

variable {tail : List Token} (htail : EndsDeclaration depth tail)

include htail

theorem afterBlock_resumes (k : Nat) {ts : List Token} (h : Balance (k + 1) ts depth) :
    Resumes depth tail (afterBlock k ts) (afterBlock k (ts ++ tail)) := by
  fun_induction afterBlock k ts with
  | case1 k =>
    -- the block is never closed, and the tail is met inside of it
    rw [List.nil_append, htail.block k h.eq_of_nil.symm]
    exact .ended
  | case2 k rest ih =>
    simp only [List.cons_append, afterBlock, if_true]
    exact ih h.of_open
  | case3 rest hopen =>
    obtain ⟨below, hbelow, hrest⟩ := h.of_close
    cases hbelow
    simp only [List.cons_append, afterBlock, if_neg hopen, if_true]
    exact .within hrest
  | case4 rest k hopen ih =>
    obtain ⟨below, hbelow, hrest⟩ := h.of_close
    cases hbelow
    simp only [List.cons_append, afterBlock, if_neg hopen, if_true]
    exact ih hrest
  | case5 k t rest hopen hclose ih =>
    simp only [List.cons_append, afterBlock, if_neg hopen, if_neg hclose]
    exact ih (h.of_cons hopen hclose)

omit htail in
theorem afterDeclaration_resumes (k : Nat) {ts : List Token} (h : Balance k ts depth) :
    Resumes depth tail (afterDeclaration k ts) (afterDeclaration k (ts ++ tail)) := by
  fun_induction afterDeclaration k ts with
  | case1 k =>
    rw [List.nil_append, h.eq_of_nil]
    exact .ended
  | case2 k rest ih =>
    simp only [List.cons_append, afterDeclaration, if_true]
    exact ih h.of_open
  | case3 rest hopen => exact absurd h Balance.not_close
  | case4 rest hopen hclose =>
    simp only [List.cons_append, afterDeclaration, if_neg hopen, if_neg hclose, if_true]
    exact .within (h.of_cons hopen hclose)
  | case5 t rest hopen hclose hsemicolon ih =>
    simp only [List.cons_append, afterDeclaration, if_neg hopen, if_neg hclose,
      if_neg hsemicolon]
    exact ih (h.of_cons hopen hclose)
  | case6 t rest hopen k ih =>
    simp only [List.cons_append, afterDeclaration, if_neg hopen]
    exact ih (h.of_inside hopen)

/-- A value is the same with the tail, whatever is open at its end. -/
theorem readValue_resumes (k : Nat) {ts : List Token} (h : Balance k ts depth) :
    ∃ rest, Resumes depth tail (readValue k ts).rest rest ∧
      readValue k (ts ++ tail) = { readValue k ts with rest } := by
  fun_induction readValue k ts with
  | case1 k =>
    refine ⟨_, .ended, ?_⟩
    rw [List.nil_append, h.eq_of_nil, htail.value]
  | case2 k rest ih =>
    obtain ⟨after, hafter, hread⟩ := ih h.of_open
    refine ⟨after, hafter, ?_⟩
    simp only [List.cons_append, readValue, if_true, hread]
    rfl
  | case3 rest hopen =>
    -- a brace that nothing opened would end the declarations early
    exact absurd h Balance.not_close
  | case4 rest hopen hclose =>
    refine ⟨_, .within (h.of_cons hopen hclose), ?_⟩
    simp only [List.cons_append, readValue, if_neg hopen, if_neg hclose, if_true]
  | case5 rest hopen hclose hsemicolon ih =>
    obtain ⟨after, hafter, hread⟩ := ih (h.of_cons hopen hclose)
    refine ⟨after, hafter, ?_⟩
    simp only [List.cons_append, readValue, if_neg hopen, if_neg hclose,
      if_neg hsemicolon, if_true, hread]
  | case6 t rest hopen hclose hsemicolon hspace ih =>
    obtain ⟨after, hafter, hread⟩ := ih (h.of_cons hopen hclose)
    refine ⟨after, hafter, ?_⟩
    simp only [List.cons_append, readValue, if_neg hopen, if_neg hclose,
      if_neg hsemicolon, if_neg hspace, hread]
    rfl
  | case7 t rest hopen k ih =>
    simp only [List.cons_append, readValue, if_neg hopen]
    exact ih (h.of_inside hopen)

theorem skipSpace_resumes {ts : List Token} (h : Balance 0 ts depth) :
    skipSpace (ts ++ tail) = skipSpace ts ++ tail ∧ Balance 0 (skipSpace ts) depth := by
  fun_cases skipSpace ts with
  | case1 => exact ⟨htail.space, h⟩
  | case2 rest =>
    refine ⟨?_, h.of_cons (by decide) (by decide)⟩
    rw [List.cons_append, skipSpace, if_pos rfl]
  | case3 t rest hspace =>
    refine ⟨?_, h⟩
    rw [List.cons_append, skipSpace, if_neg hspace]

theorem readDeclaration_resumes (name : Token) {ts : List Token}
    (h : Balance 0 ts depth) :
    ∃ rest, Resumes depth tail (readDeclaration name ts).rest rest ∧
      readDeclaration name (ts ++ tail) = { readDeclaration name ts with rest } := by
  obtain ⟨hskip, hbalance⟩ := skipSpace_resumes htail h
  unfold readDeclaration
  split
  · exact ⟨_, afterDeclaration_resumes 0 h, rfl⟩
  rw [hskip]
  generalize skipSpace ts = us at hbalance
  cases us with
  | nil =>
    -- the tail does not begin with a colon, so no value begins there
    refine ⟨_, afterDeclaration_resumes 0 hbalance, ?_⟩
    split
    · rename_i hcons
      exact absurd hcons (htail.colon _)
    · rfl
  | cons t us =>
    rw [List.cons_append]
    split
    · rename_i hcons
      obtain ⟨rfl, rfl⟩ := List.cons.inj hcons
      obtain ⟨after, hafter, hread⟩ :=
        readValue_resumes htail 0 (hbalance.of_cons (by decide) (by decide))
      refine ⟨after, hafter, ?_⟩
      split
      · rename_i hcons
        rw [← (List.cons.inj hcons).2, hread]
      · rename_i hcolon
        exact absurd rfl (hcolon _)
    · rename_i hcolon
      split
      · rename_i hcons
        exact absurd (congrArg (· :: us) (List.cons.inj hcons).1) (hcolon us)
      · exact ⟨_, afterDeclaration_resumes 0 hbalance, rfl⟩

end Steps

/-! ## Lists of declarations -/

/-- After a semicolon, what follows is read as if it stood alone. -/
theorem declarationSignals_of_resumes {ts ts' us : List Token}
    (h : Resumes 0 (Token.semicolon :: us) ts ts') :
    declarationSignals ts' = declarationSignals ts ++ declarationSignals us := by
  have htail := endsDeclaration_semicolon us
  -- the induction follows the tokens before the semicolon, which may be
  -- taken by the last of them
  fun_induction declarationSignals ts generalizing ts' with
  | case1 =>
    cases h with
    | within h =>
      rw [List.nil_append, declarationSignals, if_pos (.inr (.inl rfl)), List.nil_append]
    | ended => rfl
  | case2 t rest hskip ih =>
    obtain ⟨h⟩ := h
    have hclose : t ≠ Token.closeBrace := by
      rintro rfl
      exact h.not_close
    have hopen : t ≠ Token.openBrace := by
      rintro rfl
      exact absurd hskip (by decide)
    rw [List.cons_append, declarationSignals, if_pos hskip]
    exact ih (.within (h.of_cons hopen hclose))
  | case3 rest _ hskip ih =>
    obtain ⟨h⟩ := h
    rw [List.cons_append, declarationSignals, if_neg hskip, if_pos rfl]
    exact ih (afterBlock_resumes htail 0 h.of_open)
  | case4 t rest hskip hopen _ ih =>
    obtain ⟨h⟩ := h
    have hclose : t ≠ Token.closeBrace := fun hclose => hskip (.inr (.inr hclose))
    obtain ⟨after, hafter, hread⟩ :=
      readDeclaration_resumes htail t (h.of_cons hopen hclose)
    rw [List.cons_append, declarationSignals, if_neg hskip, if_neg hopen,
      hread, ih hafter, List.append_assoc]

theorem Traced.collect_append {α β : Type} (f : α → Traced β) (xs ys : List α) :
    Traced.collect f (xs ++ ys) = (do
      let bs ← Traced.collect f xs
      let bs' ← Traced.collect f ys
      pure (bs ++ bs')) := by
  induction xs with
  | nil => simp [Traced.collect]
  | cons x xs ih => simp [Traced.collect, ih]

/-- Declarations that close the blocks they open, however malformed, a semicolon, and
whatever follows: the declarations and issues are those of the first part and then those
of the second, each as if it stood alone. So is the text that is left of them, and what is
reported and asked on the way. -/
theorem collectDeclarations_append {ts : List Token}
    (htake : ∀ n, (ts.take n).count Token.closeBrace ≤ (ts.take n).count Token.openBrace)
    (htotal : ts.count Token.openBrace = ts.count Token.closeBrace) (us : List Token) :
    declarationSignals (ts ++ [Token.semicolon] ++ us) =
        declarationSignals ts ++ declarationSignals us ∧
      ∀ ctx : ValueContext, collectDeclarations ctx (ts ++ [Token.semicolon] ++ us) = (do
        let text ← collectDeclarations ctx ts
        let text' ← collectDeclarations ctx us
        pure (text ++ text')) := by
  have hbalance : Balance 0 ts 0 := by
    have hleft := balance_of_take htake
    rwa [htotal, Nat.sub_self] at hleft
  have hsignals : declarationSignals (ts ++ [Token.semicolon] ++ us) =
      declarationSignals ts ++ declarationSignals us := by
    rw [List.append_assoc, List.singleton_append]
    exact declarationSignals_of_resumes (.within hbalance)
  refine ⟨hsignals, fun ctx => ?_⟩
  simp only [collectDeclarations, hsignals, Traced.collect_append, bind_assoc, pure_bind,
    List.flatten_append]

/-- A name that is none, a block in its place, a name without a colon before
a block, a block in place of a value, a value that is empty, and a
declaration that the semicolon ends. -/
def malformedAttribute : List Token :=
  ["5", "a", Token.openBrace, Token.semicolon, Token.closeBrace, Token.semicolon,
    Token.openBrace, Token.openBrace, Token.closeBrace, "b", Token.closeBrace,
    "c", Token.space, Token.openBrace, Token.closeBrace, "d", Token.semicolon,
    "e", Token.colon, Token.openBrace, "f", Token.closeBrace, "g", Token.semicolon,
    "h", Token.colon, Token.space, Token.semicolon, "color", Token.colon, "red"]

theorem collectDeclarations_append_malformedAttribute :
    (∀ n, (malformedAttribute.take n).count Token.closeBrace ≤
        (malformedAttribute.take n).count Token.openBrace) ∧
      malformedAttribute.count Token.openBrace =
        malformedAttribute.count Token.closeBrace ∧
      declarationSignals (malformedAttribute ++ [Token.semicolon] ++
          [Token.closeBrace, "width", Token.colon, "1px"]) =
        declarationSignals malformedAttribute ++
          declarationSignals [Token.closeBrace, "width", Token.colon, "1px"] ∧
      ∀ ctx : ValueContext,
        collectDeclarations ctx (malformedAttribute ++ [Token.semicolon] ++
          [Token.closeBrace, "width", Token.colon, "1px"]) = (do
        let text ← collectDeclarations ctx malformedAttribute
        let text' ←
          collectDeclarations ctx [Token.closeBrace, "width", Token.colon, "1px"]
        pure (text ++ text')) := by
  have hshort : ∀ n < malformedAttribute.length,
    (malformedAttribute.take n).count Token.closeBrace ≤
      (malformedAttribute.take n).count Token.openBrace := by decide
  have htake : ∀ n, (malformedAttribute.take n).count Token.closeBrace ≤
      (malformedAttribute.take n).count Token.openBrace := by
    intro n
    by_cases hn : n < malformedAttribute.length
    · exact hshort n hn
    · rw [List.take_of_length_le (Nat.le_of_not_lt hn)]
      decide
  exact ⟨htake, by decide, collectDeclarations_append htake (by decide) _⟩

end CssGuard
