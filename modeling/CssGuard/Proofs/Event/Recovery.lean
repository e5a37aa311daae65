import CssGuard.Proofs.Event.Statements

/-!
# Recovery from errors

Whatever is wrong with a statement, it is passed over up to the semicolon or the brace
that ends it, and no further: tokens with balanced braces that end where a statement can
end are read in the same way whatever follows them, and what follows is read as if it
stood alone.

- `Balance`: the braces among tokens, counted from one depth to another
- `Concludes`: the tokens close all open blocks and end where a statement can end
- `stays_readStatement`: a step through such tokens stays within them
- `sheetSignals_append`: what such tokens give, and what follows them gives
-/

namespace CssGuard

open Text

/-! ## Braces -/

/-- Among the tokens no brace is closed that was not opened, when `depth` of them are open
before, and `depth'` are open after them. -/
structure Balance (depth : Nat) (ts : List Token) (depth' : Nat) : Prop where
  take : ∀ n, (ts.take n).count Token.closeBrace ≤ depth +
    (ts.take n).count Token.openBrace
  total : depth + ts.count Token.openBrace = depth' + ts.count Token.closeBrace

theorem Balance.append {depth depth' depth'' : Nat} {ts us : List Token}
    (ht : Balance depth ts depth') (hu : Balance depth' us depth'') :
    Balance depth (ts ++ us) depth'' := by
  have htotal := ht.total
  constructor
  · intro n
    have hleft := ht.take n
    have hright := hu.take (n - ts.length)
    rw [List.take_append, List.count_append, List.count_append]
    by_cases hn : n ≤ ts.length
    · rw [Nat.sub_eq_zero_of_le hn, List.take_zero]
      simpa using hleft
    · rw [List.take_of_length_le (Nat.le_of_not_le hn)]
      omega
  · have htotal' := hu.total
    rw [List.count_append, List.count_append]
    omega

/-- Tokens without braces. -/
theorem balance_of_not_mem {ts : List Token}
    (h : ∀ t ∈ ts, t ∉ [Token.openBrace, Token.closeBrace]) (depth : Nat) :
    Balance depth ts depth := by
  have hcount : ∀ us : List Token, us ⊆ ts → us.count Token.openBrace = 0 ∧
      us.count Token.closeBrace = 0 := fun us hus =>
    ⟨List.count_eq_zero.mpr fun hmem => h _ (hus hmem) (by decide),
      List.count_eq_zero.mpr fun hmem => h _ (hus hmem) (by decide)⟩
  constructor
  · intro n
    rw [(hcount _ (List.take_subset n ts)).2]
    exact Nat.zero_le _
  · rw [(hcount ts (List.Subset.refl _)).1, (hcount ts (List.Subset.refl _)).2]

theorem balance_open (depth : Nat) : Balance depth [Token.openBrace] (depth + 1) := by
  constructor
  · intro n
    cases n with
    | zero => exact Nat.zero_le _
    | succ n =>
      rw [List.take_succ_cons, List.take_nil]
      exact Nat.zero_le _
  · rfl

theorem balance_close (depth : Nat) : Balance (depth + 1) [Token.closeBrace] depth := by
  constructor
  · intro n
    cases n with
    | zero => exact Nat.zero_le _
    | succ n =>
      rw [List.take_succ_cons, List.take_nil]
      exact Nat.succ_le_succ (Nat.zero_le _)
  · rfl

theorem balance_flatMap {α : Type} {xs : List α} {tokens : α → List Token} {depth : Nat}
    (h : ∀ x ∈ xs, Balance depth (tokens x) depth) :
    Balance depth (xs.flatMap tokens) depth := by
  induction xs with
  | nil => exact balance_of_not_mem (fun _ h => absurd h List.not_mem_nil) depth
  | cons x xs ih =>
    rw [List.flatMap_cons]
    exact (h x (List.mem_cons_self ..)).append (ih
      fun y hy => h y (List.mem_cons_of_mem _ hy))

theorem not_mem_braces_of_not_isStructural {t : Token} (h : ¬ t.isStructural) :
    t ∉ [Token.openBrace, Token.closeBrace] := by
  have hbrace : ∀ t ∈ [Token.openBrace, Token.closeBrace], t.isStructural := by decide
  exact fun hmem => h (hbrace t hmem)

section Tail

variable {depth depth' : Nat} {t : Token} {ts : List Token}

theorem Balance.of_open (h : Balance depth (Token.openBrace :: ts) depth') :
    Balance (depth + 1) ts depth' := by
  constructor
  · intro n
    have htake := h.take (n + 1)
    rw [List.take_succ_cons, List.count_cons_of_ne (by decide),
      List.count_cons_self] at htake
    omega
  · have htotal := h.total
    rw [List.count_cons_self, List.count_cons_of_ne (by decide)] at htotal
    omega

theorem Balance.of_close (h : Balance depth (Token.closeBrace :: ts) depth') :
    ∃ below, depth = below + 1 ∧ Balance below ts depth' := by
  have hone := h.take 1
  rw [List.take_succ_cons, List.count_cons_self, List.count_cons_of_ne (by decide),
    List.take_zero, List.count_nil, List.count_nil] at hone
  obtain ⟨below, rfl⟩ := Nat.exists_eq_add_of_le' hone
  refine ⟨below, rfl, ?_, ?_⟩
  · intro n
    have htake := h.take (n + 1)
    rw [List.take_succ_cons, List.count_cons_self, List.count_cons_of_ne (by decide)]
      at htake
    omega
  · have htotal := h.total
    rw [List.count_cons_self, List.count_cons_of_ne (by decide)] at htotal
    omega

theorem Balance.of_cons (h : Balance depth (t :: ts) depth') (hopen : t ≠ Token.openBrace)
    (hclose : t ≠ Token.closeBrace) : Balance depth ts depth' := by
  constructor
  · intro n
    have htake := h.take (n + 1)
    rwa [List.take_succ_cons, List.count_cons_of_ne hclose,
      List.count_cons_of_ne hopen] at htake
  · have htotal := h.total
    rwa [List.count_cons_of_ne hclose, List.count_cons_of_ne hopen] at htotal

end Tail

/-- The tokens close the `depth` blocks that are open before them and all that they open,
and the last of them, if there is one, ends a statement. -/
def Concludes (depth : Nat) : List Token → Prop
  | [] => depth = 0
  | t :: ts =>
    if t = Token.openBrace then Concludes (depth + 1) ts
    else if t = Token.closeBrace then 0 < depth ∧ Concludes (depth - 1) ts
    else (t = Token.semicolon ∨ ts ≠ []) ∧ Concludes depth ts

namespace Concludes

variable {depth : Nat} {t : Token} {ts : List Token}

theorem ne_nil (h : Concludes (depth + 1) ts) : ts ≠ [] := by
  rintro rfl
  cases h

theorem of_open (h : Concludes depth (Token.openBrace :: ts)) :
    Concludes (depth + 1) ts := by
  rwa [Concludes, if_pos rfl] at h

theorem of_close (h : Concludes (depth + 1) (Token.closeBrace :: ts)) :
    Concludes depth ts := by
  rw [Concludes, if_neg (by decide), if_pos rfl] at h
  exact h.2

theorem not_close : ¬ Concludes 0 (Token.closeBrace :: ts) := by
  intro h
  rw [Concludes, if_neg (by decide), if_pos rfl] at h
  exact absurd h.1 (Nat.lt_irrefl 0)

theorem of_cons (h : Concludes depth (t :: ts)) (hopen : t ≠ Token.openBrace)
    (hclose : t ≠ Token.closeBrace) : Concludes depth ts := by
  rw [Concludes, if_neg hopen, if_neg hclose] at h
  exact h.2

/-- Inside of `k + 1` blocks, one of which may end with the token. -/
theorem of_inside {k : Nat} (h : Concludes (depth + (k + 1) + 1) (t :: ts))
    (hopen : t ≠ Token.openBrace) :
    Concludes (depth + (if t = Token.closeBrace then k else k + 1) + 1) ts := by
  split
  · rename_i hclose
    subst hclose
    exact h.of_close
  · rename_i hclose
    exact h.of_cons hopen hclose

/-- A token that ends nothing is not the last. -/
theorem of_within (h : Concludes depth (t :: ts)) (ht : ¬ t.isStructural) :
    ts ≠ [] ∧ Concludes depth ts := by
  simp only [Token.isStructural, Bool.or_eq_true, decide_eq_true_eq, not_or] at ht
  rw [Concludes, if_neg ht.1.1, if_neg ht.1.2] at h
  exact ⟨h.1.resolve_left ht.2, h.2⟩

end Concludes

/-- Balanced tokens conclude if the last of them is a brace or a semicolon. -/
theorem concludes_of_balance {ts : List Token} : ∀ {depth : Nat}, Balance depth ts 0 →
    (∀ t ∈ ts.getLast?, t.isStructural) → Concludes depth ts := by
  induction ts with
  | nil =>
    intro depth h _
    have htotal := h.total
    rwa [List.count_nil, List.count_nil] at htotal
  | cons t ts ih =>
    intro depth h hlast
    have hrest : ∀ u ∈ ts.getLast?, u.isStructural := fun u hu => hlast u (by
      rw [List.getLast?_cons, Option.mem_def.mp hu]
      rfl)
    rw [Concludes]
    split
    · rename_i hopen
      subst hopen
      exact ih h.of_open hrest
    split
    · rename_i hclose
      subst hclose
      obtain ⟨below, rfl, hbelow⟩ := h.of_close
      exact ⟨Nat.succ_pos below, ih hbelow hrest⟩
    · rename_i hopen hclose
      refine ⟨?_, ih (h.of_cons hopen hclose) hrest⟩
      -- an ordinary token is the last one only if it is a semicolon
      by_cases hnil : ts = []
      · subst hnil
        have ht := hlast t rfl
        simp only [Token.isStructural, Bool.or_eq_true, decide_eq_true_eq, hopen, hclose,
          false_or] at ht
        exact .inl ht
      · exact .inr hnil

/-! ## Blocks and declarations -/

/-- The end of a block, when `k` blocks are open inside it and `depth` around it. -/
theorem afterBlock_append {depth : Nat} (k : Nat) {ts : List Token} (us : List Token)
    (h : Concludes (depth + k + 1) ts) :
    afterBlock k (ts ++ us) = afterBlock k ts ++ us ∧
    Concludes depth (afterBlock k ts) := by
  fun_induction afterBlock k ts with
  | case1 k => exact absurd rfl h.ne_nil
  | case2 k rest ih =>
    simp only [List.cons_append, afterBlock, if_true]
    exact ih h.of_open
  | case3 rest hopen =>
    refine ⟨?_, h.of_close⟩
    simp only [List.cons_append, afterBlock, if_neg hopen, if_true]
  | case4 rest k hopen ih =>
    simp only [List.cons_append, afterBlock, if_neg hopen, if_true]
    exact ih h.of_close
  | case5 k t rest hopen hclose ih =>
    simp only [List.cons_append, afterBlock, if_neg hopen, if_neg hclose]
    exact ih (h.of_cons hopen hclose)

/-- The end of a malformed declaration, when `k` blocks are open inside it and
`depth` around its ruleset. -/
theorem afterDeclaration_append {depth : Nat} (k : Nat) {ts : List Token}
    (us : List Token) (h : Concludes (depth + k + 1) ts) :
    afterDeclaration k (ts ++ us) = afterDeclaration k ts ++ us ∧
      Concludes (depth + 1) (afterDeclaration k ts) := by
  fun_induction afterDeclaration k ts with
  | case1 k => exact absurd rfl h.ne_nil
  | case2 k rest ih =>
    simp only [List.cons_append, afterDeclaration, if_true]
    exact ih h.of_open
  | case3 rest hopen =>
    refine ⟨?_, h⟩
    simp only [List.cons_append, afterDeclaration, if_neg hopen, if_true]
  | case4 rest hopen hclose =>
    refine ⟨?_, h.of_cons hopen hclose⟩
    simp only [List.cons_append, afterDeclaration, if_neg hopen, if_neg hclose, if_true]
  | case5 t rest hopen hclose hsemicolon ih =>
    simp only [List.cons_append, afterDeclaration, if_neg hopen, if_neg hclose,
      if_neg hsemicolon]
    exact ih (h.of_cons hopen hclose)
  | case6 t rest hopen k ih =>
    simp only [List.cons_append, afterDeclaration, if_neg hopen]
    exact ih (h.of_inside hopen)

theorem readValue_append {depth : Nat} (k : Nat) {ts : List Token} (us : List Token)
    (h : Concludes (depth + k + 1) ts) :
    readValue k (ts ++ us) = { readValue k ts with rest := (readValue k ts).rest ++ us } ∧
      Concludes (depth + 1) (readValue k ts).rest := by
  fun_induction readValue k ts with
  | case1 k => exact absurd rfl h.ne_nil
  | case2 k rest ih =>
    obtain ⟨happend, hrest⟩ := ih h.of_open
    refine ⟨?_, hrest⟩
    simp only [List.cons_append, readValue, if_true, happend]
    rfl
  | case3 rest hopen =>
    refine ⟨?_, h⟩
    simp only [List.cons_append, readValue, if_neg hopen, if_true]
  | case4 rest hopen hclose =>
    refine ⟨?_, h.of_cons hopen hclose⟩
    simp only [List.cons_append, readValue, if_neg hopen, if_neg hclose, if_true]
  | case5 rest hopen hclose hsemicolon ih =>
    obtain ⟨happend, hrest⟩ := ih (h.of_cons hopen hclose)
    refine ⟨?_, hrest⟩
    simp only [List.cons_append, readValue, if_neg hopen, if_neg hclose,
      if_neg hsemicolon, if_true, happend]
  | case6 t rest hopen hclose hsemicolon hspace ih =>
    obtain ⟨happend, hrest⟩ := ih (h.of_cons hopen hclose)
    refine ⟨?_, hrest⟩
    simp only [List.cons_append, readValue, if_neg hopen, if_neg hclose,
      if_neg hsemicolon, if_neg hspace, happend]
    rfl
  | case7 t rest hopen k ih =>
    simp only [List.cons_append, readValue, if_neg hopen]
    exact ih (h.of_inside hopen)

theorem skipSpace_append {depth : Nat} {ts : List Token} (us : List Token)
    (h : Concludes (depth + 1) ts) :
    skipSpace (ts ++ us) = skipSpace ts ++ us ∧ Concludes (depth + 1) (skipSpace ts) := by
  fun_cases skipSpace ts with
  | case1 => exact absurd rfl h.ne_nil
  | case2 rest =>
    refine ⟨?_, h.of_cons (by decide) (by decide)⟩
    rw [List.cons_append, skipSpace, if_pos rfl]
  | case3 t rest hspace =>
    refine ⟨?_, h⟩
    rw [List.cons_append, skipSpace, if_neg hspace]

theorem readDeclaration_append {depth : Nat} (name : Token) {ts : List Token}
    (us : List Token) (h : Concludes (depth + 1) ts) :
    readDeclaration name (ts ++ us) =
        { readDeclaration name ts with rest := (readDeclaration name ts).rest ++ us } ∧
      Concludes (depth + 1) (readDeclaration name ts).rest := by
  obtain ⟨hskip, hconcludes⟩ := skipSpace_append us h
  unfold readDeclaration
  split
  · obtain ⟨happend, hrest⟩ := afterDeclaration_append 0 us h
    rw [happend]
    exact ⟨rfl, hrest⟩
  rw [hskip]
  obtain ⟨t, rest, heq⟩ := List.exists_cons_of_ne_nil hconcludes.ne_nil
  rw [heq] at hconcludes ⊢
  rw [List.cons_append]
  split
  · rename_i hcons
    obtain ⟨rfl, rfl⟩ := List.cons.inj hcons
    obtain ⟨happend, hrest⟩ :=
      readValue_append 0 us (hconcludes.of_cons (by decide) (by decide))
    rw [happend]
    exact ⟨rfl, hrest⟩
  · rename_i hcolon
    obtain ⟨happend, hrest⟩ := afterDeclaration_append 0 us hconcludes
    split
    · rename_i hcons
      exact absurd (congrArg (· ++ us) hcons) (hcolon _)
    · rw [← List.cons_append, happend]
      exact ⟨rfl, hrest⟩

/-- The end of a ruleset. -/
theorem readBody_append {depth : Nat} {ts : List Token} (us : List Token)
    (h : Concludes (depth + 1) ts) :
    readBody (ts ++ us) = { readBody ts with rest := (readBody ts).rest ++ us } ∧
      Concludes depth (readBody ts).rest := by
  fun_induction readBody ts with
  | case1 => exact absurd rfl h.ne_nil
  | case2 rest =>
    refine ⟨?_, h.of_close⟩
    rw [List.cons_append, readBody, if_pos rfl]
  | case3 t rest hclose hskip ih =>
    have hopen : t ≠ Token.openBrace := by
      rintro rfl
      exact absurd hskip (by decide)
    rw [List.cons_append, readBody, if_neg hclose, if_pos hskip]
    exact ih (h.of_cons hopen hclose)
  | case4 rest _ hclose hskip ih =>
    obtain ⟨happend, hrest⟩ := afterBlock_append 0 us h.of_open
    rw [List.cons_append, readBody, if_neg hclose, if_neg hskip, if_pos rfl, happend]
    exact ih hrest
  | case5 t rest hclose hskip hopen _ ih =>
    obtain ⟨happend, hrest⟩ := readDeclaration_append t us (h.of_cons hopen hclose)
    obtain ⟨hbody, hafter⟩ := ih hrest
    refine ⟨?_, hafter⟩
    rw [List.cons_append, readBody, if_neg hclose, if_neg hskip, if_neg hopen, happend]
    simp only [hbody]
    rfl

/-! ## Statements -/

/-- No bracket ends a selector, a header or a declaration. -/
theorem not_isStructural_of_closer? {t closer : Token} (h : closer? t = some closer) :
    ¬ t.isStructural ∧ ¬ closer.isStructural := by
  have hnone : ∀ t ∈ [Token.openBrace, Token.closeBrace, Token.semicolon],
      closer? t = none := by
    decide
  constructor
  · intro ht
    simp only [Token.isStructural, Bool.or_eq_true, decide_eq_true_eq, or_assoc] at ht
    rw [hnone t (by simpa using ht)] at h
    cases h
  · rw [closer?] at h
    split at h
    · cases h
      decide
    · split at h
      · cases h
        decide
      · cases h

/-- A selector ends before what ends a statement. -/
theorem readSelector_append {depth : Nat} {awaited ts : List Token} (us : List Token)
    (hawaited : ∀ t ∈ awaited, ¬ t.isStructural) (h : Concludes depth ts)
    (hne : ts ≠ []) :
    readSelector awaited (ts ++ us) =
        { readSelector awaited ts with rest := (readSelector awaited ts).rest ++ us } ∧
      Concludes depth (readSelector awaited ts).rest ∧
      (readSelector awaited ts).rest ≠ [] := by
  fun_induction readSelector awaited ts with
  | case1 => exact absurd rfl hne
  | case2 awaited t rest closer hcloser ih =>
    obtain ⟨ht, hclose⟩ := not_isStructural_of_closer? hcloser
    obtain ⟨hrest, hconcludes⟩ := h.of_within ht
    obtain ⟨happend, hafter⟩ :=
      ih (List.forall_mem_cons.mpr ⟨hclose, hawaited⟩) hconcludes hrest
    refine ⟨?_, hafter⟩
    simp only [List.cons_append, readSelector, hcloser, happend]
    rfl
  | case3 awaited t rest hcloser hhead ih =>
    have ht := hawaited t (List.mem_of_mem_head? hhead)
    obtain ⟨hrest, hconcludes⟩ := h.of_within ht
    obtain ⟨happend, hafter⟩ :=
      ih (fun t ht => hawaited t (List.mem_of_mem_tail ht)) hconcludes hrest
    refine ⟨?_, hafter⟩
    simp only [List.cons_append, readSelector, hcloser, if_pos hhead, happend]
    rfl
  | case4 awaited t rest hcloser hhead hstop =>
    refine ⟨?_, h, List.cons_ne_nil _ _⟩
    simp only [List.cons_append, readSelector, hcloser, if_neg hhead, if_pos hstop]
  | case5 awaited t rest hcloser hhead hstop ih =>
    simp only [Bool.or_eq_true, not_or] at hstop
    obtain ⟨hrest, hconcludes⟩ := h.of_within hstop.1
    obtain ⟨happend, hafter⟩ := ih hawaited hconcludes hrest
    refine ⟨?_, hafter⟩
    simp only [List.cons_append, readSelector, hcloser, if_neg hhead, hstop, happend]
    rfl

/-- A header ends before what ends a statement. -/
theorem takeWhile_append_of_concludes {depth : Nat} {ts : List Token} (us : List Token)
    (h : Concludes depth ts) (hne : ts ≠ []) :
    (ts ++ us).takeWhile (fun t => !t.isStructural) = ts.takeWhile
      (fun t => !t.isStructural) ∧
      ∃ mark rest, mark.isStructural ∧ Concludes depth (mark :: rest) ∧
        ts.dropWhile (fun t => !t.isStructural) = mark :: rest ∧
        (ts ++ us).dropWhile (fun t => !t.isStructural) = mark :: (rest ++ us) := by
  induction ts with
  | nil => exact absurd rfl hne
  | cons t ts ih =>
    by_cases ht : t.isStructural
    · refine ⟨?_, t, ts, ht, h, ?_, ?_⟩
      all_goals simp [ht]
    · obtain ⟨hrest, hconcludes⟩ := h.of_within ht
      obtain ⟨htake, mark, rest, hmark, hafter, hdrop, happend⟩ := ih hconcludes hrest
      refine ⟨?_, mark, rest, hmark, hafter, ?_, ?_⟩
      · simp [ht, htake]
      · simp [ht, hdrop]
      · simp [ht, happend]

/-- A reading is the same before other tokens, which are left for later steps, and what is
left of its own tokens concludes what is open. -/
structure StatementReading.Stays (us : List Token) (reading reading' : StatementReading) :
    Prop where
  append : reading' = { reading with rest := reading.rest ++ us }
  concludes : Concludes reading.depth reading.rest

theorem stays_readAtRule {depth : Nat} (name : Token) {ts : List Token} (us : List Token)
    (h : Concludes depth ts) (hne : ts ≠ []) :
    (readAtRule depth name ts).Stays us (readAtRule depth name (ts ++ us)) := by
  obtain ⟨htake, mark, rest, hmark, hconcludes, hdrop, happend⟩ :=
    takeWhile_append_of_concludes us h hne
  unfold readAtRule
  dsimp only
  rw [htake, hdrop, happend]
  simp only [Token.isStructural, Bool.or_eq_true, decide_eq_true_eq] at hmark
  rcases hmark with (rfl | rfl) | rfl
  · -- a block that is nested too deep is passed over, any other is entered
    have hblock := hconcludes.of_open
    obtain ⟨hskip, hafter⟩ := afterBlock_append 0 us hblock
    by_cases hdepth : depth ≥ maxNesting
    · simp only [Token.openBrace, if_pos hdepth, hskip]
      exact ⟨rfl, hafter⟩
    · simp only [Token.openBrace, if_neg hdepth]
      exact ⟨rfl, hblock⟩
  · exact ⟨rfl, hconcludes⟩
  · exact ⟨rfl, hconcludes.of_cons (by decide) (by decide)⟩

section Ruleset

variable {depth : Nat} {first mark : Token} {ts selector awaited after : List Token}

theorem readRuleset_block
    (h : readSelector [] (first :: ts) = ⟨selector, awaited, Token.openBrace :: after⟩) :
    readRuleset depth first ts =
      if awaited.isEmpty then
        ⟨.event (.startRuleset (dropEndSpace selector)) :: (readBody after).signals
          ++ [.event .endRuleset], depth, (readBody after).rest⟩
      else ⟨[.issue .unbalancedSelector], depth, afterBlock 0 after⟩ := by
  rw [readRuleset, h]
  rfl

theorem readRuleset_no_block
    (h : readSelector [] (first :: ts) = ⟨selector, awaited, mark :: after⟩)
    (hmark : mark ≠ Token.openBrace) :
    readRuleset depth first ts =
      if selector.isEmpty then ⟨[], depth, ts⟩
      else if awaited.isEmpty then ⟨[.issue .selectorWithoutBlock], depth, mark :: after⟩
      else ⟨[.issue .unbalancedSelector], depth, mark :: after⟩ := by
  rw [readRuleset, h]
  dsimp only
  split
  · rename_i hcons
    exact absurd (List.cons.inj hcons).1 hmark
  · rfl

end Ruleset

theorem stays_readRuleset {depth : Nat} {first : Token} {ts : List Token}
    (us : List Token) (h : Concludes depth (first :: ts))
    (hclose : first ≠ Token.closeBrace) :
    (readRuleset depth first ts).Stays us (readRuleset depth first (ts ++ us)) := by
  obtain ⟨happend, hconcludes, hne⟩ := readSelector_append us
    (fun t ht => absurd ht List.not_mem_nil) h (List.cons_ne_nil _ _)
  have hsplit := append_readSelector [] (first :: ts)
  generalize hread : readSelector [] (first :: ts) =
    reading at happend hconcludes hne hsplit
  obtain ⟨selector, awaited, rest⟩ := reading
  obtain ⟨mark, after, rfl⟩ := List.exists_cons_of_ne_nil hne
  have happend : readSelector [] (first :: (ts ++ us)) =
      ⟨selector, awaited, mark :: (after ++ us)⟩ :=
    happend
  by_cases hopen : mark = Token.openBrace
  · subst hopen
    have hblock := hconcludes.of_open
    obtain ⟨hbody, hrest⟩ := readBody_append us hblock
    obtain ⟨hskip, hafter⟩ := afterBlock_append 0 us hblock
    rw [readRuleset_block hread, readRuleset_block happend, hbody, hskip]
    split
    · exact ⟨rfl, hrest⟩
    · exact ⟨rfl, hafter⟩
  · rw [readRuleset_no_block hread hopen, readRuleset_no_block happend hopen]
    split
    · -- nothing of a selector: only the first token is passed over
      rename_i hempty
      rw [List.isEmpty_iff.mp hempty, List.nil_append] at hsplit
      obtain ⟨rfl, rfl⟩ := List.cons.inj hsplit
      exact ⟨rfl, hconcludes.of_cons hopen hclose⟩
    split
    · exact ⟨rfl, hconcludes⟩
    · exact ⟨rfl, hconcludes⟩

/-- One step through tokens that conclude. -/
theorem stays_readStatement {depth : Nat} {first : Token} {ts : List Token}
    (us : List Token) (h : Concludes depth (first :: ts)) :
    (readStatement depth first ts).Stays us (readStatement depth first (ts ++ us)) := by
  unfold readStatement
  split
  · rename_i hspace
    subst hspace
    exact ⟨rfl, h.of_cons (by decide) (by decide)⟩
  split
  · rename_i hclose
    obtain ⟨hdepth, rfl⟩ := hclose
    obtain ⟨below, rfl⟩ := Nat.exists_eq_succ_of_ne_zero (Nat.ne_of_gt hdepth)
    exact ⟨rfl, h.of_close⟩
  rename_i hclose
  split
  · rename_i hsemicolon
    obtain ⟨-, rfl⟩ := hsemicolon
    exact ⟨rfl, h.of_cons (by decide) (by decide)⟩
  split
  · rename_i hopen
    obtain ⟨-, rfl⟩ := hopen
    obtain ⟨hskip, hafter⟩ := afterBlock_append 0 us h.of_open
    rw [hskip]
    exact ⟨rfl, hafter⟩
  split
  · rename_i hat
    have hmarks : ∀ t ∈ [Token.openBrace, Token.closeBrace, Token.semicolon],
      ¬ t.isAt := by decide
    have hstructural : ¬ first.isStructural := by
      intro ht
      simp only [Token.isStructural, Bool.or_eq_true, decide_eq_true_eq, or_assoc] at ht
      exact hmarks first (by simpa using ht) hat
    obtain ⟨hne, hrest⟩ := h.of_within hstructural
    exact stays_readAtRule first us hrest hne
  · refine stays_readRuleset us h ?_
    -- outside of all blocks there is none to close
    rintro rfl
    cases depth with
    | zero => exact Concludes.not_close h
    | succ depth => exact hclose ⟨Nat.succ_pos depth, rfl⟩

/-- Tokens that conclude are read to their end, and then what follows them. -/
theorem statementSignals_append {depth : Nat} {ts : List Token} (us : List Token)
    (h : Concludes depth ts) :
    statementSignals depth (ts ++ us) =
      statementSignals depth ts ++ statementSignals 0 us := by
  fun_induction statementSignals depth ts with
  | case1 depth =>
    obtain rfl : depth = 0 := h
    rfl
  | case2 depth first rest _ ih =>
    obtain ⟨happend, hconcludes⟩ := stays_readStatement us h
    rw [List.cons_append, statementSignals, happend, List.append_assoc]
    exact congrArg _ (ih hconcludes)

/-- Tokens with balanced braces, the last of which closes a block or is a semicolon:
however malformed they are, a sheet that begins with them gives what they give by
themselves and then what the rest of it gives by itself, events and issues alike. -/
theorem sheetSignals_append {ts : List Token}
    (htake : ∀ n, (ts.take n).count Token.closeBrace ≤ (ts.take n).count Token.openBrace)
    (htotal : ts.count Token.openBrace = ts.count Token.closeBrace)
    (hlast : ts.getLast? = some Token.closeBrace ∨ ts.getLast? = some Token.semicolon)
    (us : List Token) :
    ∃ first second : List Signal,
      sheetSignals ts = .event .startSheet :: first ++ [.event .endSheet] ∧
      sheetSignals us = .event .startSheet :: second ++ [.event .endSheet] ∧
      sheetSignals (ts ++ us) =
        .event .startSheet :: (first ++ second) ++ [.event .endSheet] := by
  have hbalance : Balance 0 ts 0 := by
    constructor
    · intro n
      rw [Nat.zero_add]
      exact htake n
    · rw [htotal]
  have hstructural : ∀ t ∈ ts.getLast?, t.isStructural := by
    intro t ht
    rcases hlast with hlast | hlast
    · rw [hlast] at ht
      cases ht
      decide
    · rw [hlast] at ht
      cases ht
      decide
  have happend := statementSignals_append us (concludes_of_balance hbalance hstructural)
  exact ⟨statementSignals 0 ts, statementSignals 0 us, rfl,
    rfl, by rw [sheetSignals, happend]⟩

/-- A bracket that stays open, a block in place of a value, an at-rule without its block,
and marks that belong to nothing. -/
def malformedTokens : List Token :=
  ["a", "[", Token.openBrace, "b", Token.closeBrace,
    "c", Token.openBrace, "d", Token.colon, Token.openBrace, Token.semicolon,
    Token.closeBrace, "@e", Token.closeBrace,
    "@f", Token.openBrace, "@g", Token.closeBrace, ")", Token.semicolon]

theorem sheetSignals_append_malformedTokens :
    ∃ first second : List Signal,
      sheetSignals malformedTokens = .event .startSheet :: first ++ [.event .endSheet] ∧
      sheetSignals [['h'], Token.openBrace, Token.closeBrace] =
        .event .startSheet :: second ++ [.event .endSheet] ∧
      sheetSignals (malformedTokens ++ [['h'], Token.openBrace, Token.closeBrace]) =
        .event .startSheet :: (first ++ second) ++ [.event .endSheet] := by
  have hshort : ∀ n < malformedTokens.length,
    (malformedTokens.take n).count Token.closeBrace ≤
      (malformedTokens.take n).count Token.openBrace := by decide
  refine sheetSignals_append (fun n => ?_) (by decide) (by decide) _
  by_cases hn : n < malformedTokens.length
  · exact hshort n hn
  · rw [List.take_of_length_le (Nat.le_of_not_lt hn)]
    decide

end CssGuard
