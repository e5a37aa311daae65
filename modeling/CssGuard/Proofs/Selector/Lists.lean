import CssGuard.Selector.List

/-!
# Lists of selectors are put together from their parts

White space is normalized and brackets are counted from one end of a list to the other. At
a comma outside brackets both begin anew, so that the selectors on one side of it have
nothing to do with those on the other.

- `foldl_next_comma`: after a comma, spaces are dropped as at the start
- `foldl_bracketDepth_normalizeSpaces`: the spaces that are dropped open and close nothing
- `splitAtTop_append`: a separator outside brackets splits a list where it stands
- `sanitizeSelectors_append`: the selectors on both sides of a
  comma are sanitized one by one
- `normalizeSpaces_collapseSpaces`: any number of spaces is as good as one
- `sanitizeTolerantly_always`: to tolerate every dropped selector is not to ask about them
-/

namespace CssGuard

/-! ## Brackets -/

theorem bracketDepth_space (depth : Nat) : bracketDepth depth Token.space = depth := rfl

theorem bracketDepth_comma (depth : Nat) : bracketDepth depth Token.comma = depth := rfl

/-- The scan for spaces counts the brackets of all tokens. -/
theorem depth_foldl_next (s : SpaceScan) (ts : List Token) :
    (ts.foldl SpaceScan.next s).depth = ts.foldl bracketDepth s.depth := by
  have hnext : ∀ (s : SpaceScan) (t : Token),
      (s.next t).depth = bracketDepth s.depth t := by
    intro s t
    by_cases ht : t = Token.space
    · rw [SpaceScan.next, if_pos ht, ht, bracketDepth_space]
      split <;> rfl
    · rw [SpaceScan.next, if_neg ht]
  induction ts generalizing s with
  | nil => rfl
  | cons t ts ih => rw [List.foldl_cons, List.foldl_cons, ih, hnext]

namespace SpaceScan

/-- The number of brackets that are open after the tokens that were kept. -/
def keptDepth (kept : List Token) : Nat :=
  kept.foldr (fun t depth => bracketDepth depth t) 0

theorem keptDepth_trimmed (s : SpaceScan) : keptDepth s.trimmed = keptDepth s.kept := by
  unfold trimmed
  cases hkept : s.kept with
  | nil => rfl
  | cons t kept =>
    split
    · rename_i hhead
      rw [Option.some.inj hhead]
      rfl
    · rfl

/-- The brackets are counted right, whatever was dropped. -/
theorem keptDepth_next {s : SpaceScan} (h : keptDepth s.kept = s.depth) (t : Token) :
    keptDepth (s.next t).kept = (s.next t).depth := by
  have hcons : ∀ kept, keptDepth kept = s.depth →
      keptDepth (t :: kept) = bracketDepth s.depth t :=
    fun kept hkept => congrArg (bracketDepth · t) hkept
  by_cases ht : t = Token.space
  · rw [next, if_pos ht]
    split
    · exact h
    · rw [hcons s.kept h, ht, bracketDepth_space]
  · rw [next, if_neg ht]
    refine hcons _ ?_
    split
    · exact s.keptDepth_trimmed.trans h
    · exact h

theorem keptDepth_foldl_next {s : SpaceScan} (h : keptDepth s.kept = s.depth)
    (ts : List Token) : keptDepth (ts.foldl next s).kept = (ts.foldl next s).depth := by
  induction ts generalizing s with
  | nil => exact h
  | cons t ts ih => exact ih (keptDepth_next h t)

/-- The kept tokens stand backwards, so they are counted from the right. -/
theorem foldl_bracketDepth_reverse (kept : List Token) :
    kept.reverse.foldl bracketDepth 0 = keptDepth kept :=
  List.foldl_reverse

end SpaceScan

/-- Brackets can be counted before or after the spaces that
combine nothing are dropped. -/
theorem foldl_bracketDepth_normalizeSpaces (ts : List Token) :
    (normalizeSpaces ts).foldl bracketDepth 0 = ts.foldl bracketDepth 0 := by
  rw [normalizeSpaces, SpaceScan.foldl_bracketDepth_reverse, SpaceScan.keptDepth_trimmed,
    SpaceScan.keptDepth_foldl_next rfl, depth_foldl_next]

/-! ## Spaces -/

namespace SpaceScan

/-- The tokens of a scan on top of a comma and what was kept before it. -/
def after (kept : List Token) (s : SpaceScan) : SpaceScan :=
  { s with kept := s.kept ++ Token.comma :: kept }

variable (kept : List Token) (s : SpaceScan)

/-- A space is dropped after a comma as it is at the start. -/
theorem all_head?_after :
    (s.after kept).kept.head?.all absorbsSpace = s.kept.head?.all absorbsSpace := by
  unfold after
  cases s.kept <;> rfl

theorem trimmed_after : (s.after kept).trimmed = s.trimmed ++ Token.comma :: kept := by
  unfold after trimmed
  cases s.kept with
  | nil => rfl
  | cons t rest =>
    show (if some t = some Token.space then rest ++ Token.comma :: kept
        else t :: rest ++ Token.comma :: kept) =
      (if some t = some Token.space then rest else t :: rest) ++ _
    by_cases ht : some t = some Token.space
    · rw [if_pos ht, if_pos ht]
    · rw [if_neg ht, if_neg ht]

theorem next_after (t : Token) : (s.after kept).next t = (s.next t).after kept := by
  -- a step looks at the last token that was kept, and a comma there is as good as none
  by_cases ht : t = Token.space
  · rw [next, next, if_pos ht, if_pos ht, all_head?_after]
    show (if s.depth > 0 || _ then s.after kept else _) = _
    split <;> rfl
  · rw [next, next, if_neg ht, if_neg ht, trimmed_after]
    dsimp only [after]
    by_cases habsorbs : bracketDepth s.depth t = 0 && absorbsSpace t
    · rw [if_pos habsorbs, if_pos habsorbs]
      rfl
    · rw [if_neg habsorbs, if_neg habsorbs]
      rfl

theorem foldl_next_after (ts : List Token) :
    ts.foldl next (s.after kept) = (ts.foldl next s).after kept := by
  induction ts generalizing s with
  | nil => rfl
  | cons t ts ih => rw [List.foldl_cons, List.foldl_cons, next_after, ih]

end SpaceScan

/-- A comma outside brackets drops the space before it, and the
scan goes on as at the start. -/
theorem foldl_next_comma {s : SpaceScan} (h : s.depth = 0) (ts : List Token) :
    (Token.comma :: ts).foldl SpaceScan.next s =
      (ts.foldl SpaceScan.next ⟨0, []⟩).after s.trimmed := by
  have hcomma : s.next Token.comma = SpaceScan.after s.trimmed ⟨0, []⟩ := by
    rw [SpaceScan.next, if_neg (by decide), h]
    rfl
  rw [List.foldl_cons, hcomma, SpaceScan.foldl_next_after]

/-- The spaces on both sides of a comma outside brackets are
dropped apart from each other. -/
theorem normalizeSpaces_append {ts : List Token} (h : ts.foldl bracketDepth 0 = 0)
    (us : List Token) :
    normalizeSpaces (ts ++ Token.comma :: us) =
      normalizeSpaces ts ++ Token.comma :: normalizeSpaces us := by
  have hdepth : (ts.foldl SpaceScan.next ⟨0, []⟩).depth = 0 :=
    (depth_foldl_next ⟨0, []⟩ ts).trans h
  rw [normalizeSpaces, List.foldl_append, foldl_next_comma hdepth,
    SpaceScan.trimmed_after, List.reverse_append, List.reverse_cons, List.append_assoc]
  rfl

/-! ## Runs of spaces -/

namespace SpaceScan

/-- A second space does nothing. -/
theorem next_space_space (s : SpaceScan) :
    (s.next Token.space).next Token.space = s.next Token.space := by
  have hspace : ∀ s : SpaceScan, s.next Token.space =
      if s.depth > 0 || s.kept.head?.all absorbsSpace then s
        else ⟨s.depth, Token.space :: s.kept⟩ :=
    fun _ => if_pos rfl
  by_cases h : s.depth > 0 || s.kept.head?.all absorbsSpace
  · rw [hspace s, if_pos h, hspace s, if_pos h]
  · rw [hspace s, if_neg h, hspace]
    exact if_pos (Bool.or_eq_true_iff.mpr (.inr rfl))

/-- A space at the end does nothing. -/
theorem trimmed_next_space (s : SpaceScan) :
    (s.next Token.space).trimmed = s.trimmed := by
  rw [next, if_pos rfl]
  split
  · rfl
  · -- the space was kept, so that what stands before it is no space
    rename_i h
    have hhead : s.kept.head? ≠ some Token.space := by
      intro hhead
      rw [hhead] at h
      exact h (Bool.or_eq_true_iff.mpr (.inr rfl))
    show s.kept = s.trimmed
    rw [trimmed, if_neg hhead]

theorem trimmed_foldl_collapsed (s : SpaceScan) (ts : List Token) :
    ((ts.foldr consCollapsed []).foldl next s).trimmed = (ts.foldl next s).trimmed := by
  induction ts generalizing s with
  | nil => rfl
  | cons t ts ih =>
    rw [List.foldr_cons, List.foldl_cons, ← ih (s.next t), consCollapsed]
    split
    · -- the space was dropped: it ends the list, or another one follows
      rename_i hcollapsed
      obtain ⟨rfl, hrest⟩ := hcollapsed
      cases hfold : ts.foldr consCollapsed [] with
      | nil => exact s.trimmed_next_space.symm
      | cons u us =>
        rw [hfold] at hrest
        have hu : u = Token.space :=
          Option.some.inj (hrest.resolve_left (List.cons_ne_nil _ _))
        rw [hu, List.foldl_cons, List.foldl_cons, next_space_space]
    · rfl

end SpaceScan

theorem foldl_next_dropWhile (ts : List Token) :
    (ts.dropWhile (· = Token.space)).foldl SpaceScan.next ⟨0, []⟩ =
      ts.foldl SpaceScan.next ⟨0, []⟩ := by
  induction ts with
  | nil => rfl
  | cons t ts ih =>
    by_cases ht : t = Token.space
    · rw [List.dropWhile_cons_of_pos (by simpa using ht), ih, ht]
      rfl
    · rw [List.dropWhile_cons_of_neg (by simpa using ht)]

/-- Any number of spaces is as good as one, and spaces at
either end are as good as none. -/
theorem normalizeSpaces_collapseSpaces (ts : List Token) :
    normalizeSpaces (collapseSpaces ts) = normalizeSpaces ts := by
  rw [normalizeSpaces, collapseSpaces, foldl_next_dropWhile,
    SpaceScan.trimmed_foldl_collapsed]
  rfl

/-! ## Parts -/

/-- Parts, a separator and other parts. -/
def Parts.join (p : Parts) (t : Token) (q : Parts) : Parts :=
  ⟨p.first, p.others ++ (t, q.first) :: q.others⟩

theorem Parts.toList_join (p : Parts) (t : Token) (q : Parts) :
    (p.join t q).toList = p.toList ++ q.toList := by
  simp [join, toList]

/-- A separator that stands outside brackets splits the tokens there. -/
theorem splitAtTop_append {isSeparator : Token → Bool}
    (hflat : ∀ t, isSeparator t → bracketDepth 0 t = 0) {t : Token} (ht : isSeparator t)
    {depth : Nat} {ts : List Token} (h : ts.foldl bracketDepth depth = 0)
    (us : List Token) :
    splitAtTop isSeparator depth (ts ++ t :: us) =
      (splitAtTop isSeparator depth ts).join t (splitAtTop isSeparator 0 us) := by
  induction ts generalizing depth with
  | nil =>
    rw [List.foldl_nil] at h
    subst h
    rw [List.nil_append, splitAtTop.eq_2, ht]
    rfl
  | cons u ts ih =>
    rw [List.cons_append, splitAtTop, splitAtTop]
    split
    · -- `u` is a separator, so that the rest is split outside brackets again
      rename_i hsep
      obtain ⟨hdepth, hsep⟩ := Bool.and_eq_true_iff.mp hsep
      rw [List.foldl_cons, of_decide_eq_true hdepth, hflat u hsep] at h
      rw [ih h]
      rfl
    · rw [ih h]
      rfl

theorem splitSelectors_append {ts : List Token} (h : ts.foldl bracketDepth 0 = 0)
    (us : List Token) :
    splitSelectors (ts ++ Token.comma :: us) =
      splitSelectors ts ++ splitSelectors us := by
  have hflat : ∀ t : Token, decide (t = Token.comma) → bracketDepth 0 t = 0 :=
    fun t ht => by rw [of_decide_eq_true ht, bracketDepth_comma]
  rw [splitSelectors, normalizeSpaces_append h,
    splitAtTop_append hflat (decide_eq_true rfl)
      ((foldl_bracketDepth_normalizeSpaces ts).trans h), Parts.toList_join]
  rfl

/-! ## Selections -/

/-- The selectors of two lists, one after the other. -/
def Selection.append (s s' : Selection) : Selection :=
  ⟨s.insensitive ++ s'.insensitive, s.sensitive ++ s'.sensitive⟩

theorem Selection.cons_append (t : Selected) (s s' : Selection) :
    (s.cons t).append s' = (s.append s').cons t := by
  unfold Selection.cons
  split <;> rfl

theorem sanitizeEach_append (ctx : SelectorContext) (xs ys : List (List Token)) :
    sanitizeEach ctx (xs ++ ys) =
      ⟨(sanitizeEach ctx xs).value.append (sanitizeEach ctx ys).value,
        (sanitizeEach ctx xs).trace ++ (sanitizeEach ctx ys).trace⟩ := by
  induction xs with
  | nil => rfl
  | cons x xs ih =>
    rw [List.cons_append, sanitizeEach, sanitizeEach, ih]
    simp only [bind, pure, List.append_nil, List.append_assoc]
    cases (sanitizeSelector ctx x).value with
    | none => rfl
    | some t => rw [Selection.cons_append]

/-- The selectors of a list do not affect each other: what comes before a comma outside
brackets and what comes after it are sanitized as if the other were not there, and what is
left and what is reported is put together in order. -/
theorem sanitizeSelectors_append (ctx : SelectorContext) {ts : List Token}
    (h : ts.foldl bracketDepth 0 = 0) (us : List Token) :
    (sanitizeSelectors ctx (ts ++ Token.comma :: us)).value.insensitive =
        (sanitizeSelectors ctx ts).value.insensitive ++
          (sanitizeSelectors ctx us).value.insensitive ∧
      (sanitizeSelectors ctx (ts ++ Token.comma :: us)).value.sensitive =
        (sanitizeSelectors ctx ts).value.sensitive ++
          (sanitizeSelectors ctx us).value.sensitive ∧
      (sanitizeSelectors ctx (ts ++ Token.comma :: us)).trace =
        (sanitizeSelectors ctx ts).trace ++ (sanitizeSelectors ctx us).trace := by
  rw [sanitizeSelectors, splitSelectors_append h, sanitizeEach_append]
  exact ⟨rfl, rfl, rfl⟩

/-- A comma in brackets and a bracket that closes nothing on one side, a bracket that
is not closed on the other. -/
theorem sanitizeSelectors_append_unbalanced :
    (lex "b , [x , y] ) ").value.foldl bracketDepth 0 = 0 ∧
    (sanitizeSelectors { confinement := .standard }
      ((lex "b , [x , y] ) ").value ++
        Token.comma :: (lex "*:visited, (p ").value)).value =
      ⟨["b"], ["a:visited"]⟩ ∧
    (sanitizeSelectors { confinement := .standard }
      ((lex "b , [x , y] ) ").value ++
        Token.comma :: (lex "*:visited, (p ").value)).trace =
      (sanitizeSelectors { confinement := .standard }
          (lex "b , [x , y] ) ").value).trace ++
        (sanitizeSelectors { confinement := .standard }
          (lex "*:visited, (p ").value).trace := by
  have hbalanced : (lex "b , [x , y] ) ").value.foldl bracketDepth 0 = 0 := by
    decide +kernel
  have hfront : (sanitizeSelectors { confinement := .standard }
      (lex "b , [x , y] ) ").value).value = ⟨["b"], []⟩ := by
    decide +kernel
  have hback : (sanitizeSelectors { confinement := .standard }
      (lex "*:visited, (p ").value).value = ⟨[], ["a:visited"]⟩ := by
    decide +kernel
  obtain ⟨hinsensitive, hsensitive, htrace⟩ :=
    sanitizeSelectors_append { confinement := .standard } hbalanced
      (lex "*:visited, (p ").value
  rw [hfront, hback] at hinsensitive hsensitive
  exact ⟨hbalanced, congr (congrArg Selection.mk hinsensitive) hsensitive, htrace⟩

/-! ## Dropped selectors -/

theorem screenEach_always (ctx : SelectorContext) (parts : List (List Token)) :
    ∀ before, Screening.selection <$> screenEach ctx (fun _ _ => true) before parts =
      some <$> sanitizeEach ctx parts := by
  induction parts with
  | nil => exact fun _ => rfl
  | cons part parts ih =>
    intro before
    rw [screenEach, sanitizeEach, map_bind, map_bind]
    congr 1
    funext selected
    cases selected with
    | none =>
      dsimp only
      rw [if_pos rfl, ih]
      simp
    | some s =>
      have hmore : (fun more : Option Selection => more.map (·.cons s)) <$>
          Screening.selection <$> screenEach ctx (fun _ _ => true) before parts =
          (fun more : Option Selection => more.map (·.cons s)) <$>
            some <$> sanitizeEach ctx parts := by rw [ih]
      simpa using hmore

/-- A list of selectors is not given up where every dropped selector is tolerated. -/
theorem sanitizeTolerantly_always (ctx : SelectorContext) (tokens : List Token) :
    Screening.selection <$> sanitizeTolerantly ctx (fun _ _ => true) tokens =
      some <$> sanitizeSelectors ctx tokens :=
  screenEach_always ctx (splitSelectors tokens) []

end CssGuard
