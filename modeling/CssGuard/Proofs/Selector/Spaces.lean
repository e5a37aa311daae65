import CssGuard.Proofs.Selector.Lists
import Mathlib.Logic.Relation

/-!
# Optional spaces in selectors

A space between two compound selectors combines them. Elsewhere it is optional: at either
end, inside brackets, next to another space, and next to a comma or another combinator.

- `absorbers`: the tokens next to which a space means nothing
- `IsOptional`: a place between tokens where a space means nothing
- `Loosens`: spaces are added at such places, one after the other
- `normalizeSpaces_insert`: the normal form is the same with an optional space as without
- `loosens_normalizeSpaces`: all tokens are their normal form with optional spaces added
- `normalizeSpaces_loosened`: optional spaces are irrelevant, and nothing else is removed
-/

namespace CssGuard

/-! ## Optional spaces -/

/-- The tokens next to which a space combines nothing. -/
def absorbers : List Token :=
  [Token.space, Token.comma, ['>'], ['+'], ['~']]

theorem absorbsSpace_iff_mem {t : Token} : absorbsSpace t ↔ t ∈ absorbers := by
  simp only [absorbsSpace, isCombinator, Bool.or_eq_true, decide_eq_true_eq, absorbers,
    List.mem_cons, List.not_mem_nil, or_false]
  constructor
  · rintro ((((h | h) | h) | h) | h) <;> simp [h]
  · rintro (h | h | h | h | h) <;> simp [h]

/-- A space between `before` and `after` means nothing. Inside brackets every space is of
this kind, so the tokens that absorb a space can be asked for at any depth. -/
inductive IsOptional : List Token → List Token → Prop
  | atStart (after : List Token) : IsOptional [] after
  | atEnd (before : List Token) : IsOptional before []
  | inBrackets {before : List Token} (after : List Token)
    (h : 0 < before.foldl bracketDepth 0) : IsOptional before after
  | behind {t : Token} (before after : List Token) (h : t ∈ absorbers) :
    IsOptional (before ++ [t]) after
  | inFrontOf {t : Token} (before after : List Token) (h : t ∈ absorbers) :
    IsOptional before (t :: after)

/-- One optional space is added. -/
inductive AddsSpace : List Token → List Token → Prop
  | insert {before after : List Token} (h : IsOptional before after) :
    AddsSpace (before ++ after) (before ++ Token.space :: after)

/-- Optional spaces are added, one after the other. -/
def Loosens : List Token → List Token → Prop :=
  Relation.ReflTransGen AddsSpace

theorem Loosens.of_isOptional {before after : List Token} (h : IsOptional before after) :
    Loosens (before ++ after) (before ++ Token.space :: after) :=
  .single (.insert h)

theorem Loosens.sublist {ts us : List Token} (h : Loosens ts us) : ts.Sublist us := by
  induction h with
  | refl => exact List.Sublist.refl ts
  | tail _ hadd ih =>
    obtain ⟨-⟩ := hadd
    exact ih.trans ((List.Sublist.refl _).append (List.sublist_cons_self ..))

theorem Loosens.filter_eq {ts us : List Token} (h : Loosens ts us) :
    ts.filter (· ≠ Token.space) = us.filter (· ≠ Token.space) := by
  induction h with
  | refl => rfl
  | tail _ hadd ih =>
    obtain ⟨-⟩ := hadd
    rw [ih, List.filter_append, List.filter_append, List.filter_cons_of_neg (by simp)]

/-! ## Added spaces are dropped -/

theorem bracketDepth_of_absorbsSpace {t : Token} (h : absorbsSpace t) (depth : Nat) :
    bracketDepth depth t = depth := by
  have hflat : ∀ t ∈ absorbers,
      ¬ (t = ['['] || t.opensParen) ∧ ¬ (t = [']'] || t = Token.closeParen) := by
    decide
  obtain ⟨hopens, hcloses⟩ := hflat t (absorbsSpace_iff_mem.mp h)
  rw [bracketDepth, if_neg hopens, if_neg hcloses]

namespace SpaceScan

variable {s : SpaceScan}

theorem next_space_eq_self (h : s.depth > 0 || s.kept.head?.all absorbsSpace) :
    s.next Token.space = s := by
  rw [next, if_pos rfl, if_pos h]

/-- A space behind a token that absorbs it does nothing. -/
theorem next_next_space {t : Token} (h : absorbsSpace t) :
    (s.next t).next Token.space = s.next t := by
  by_cases ht : t = Token.space
  · rw [ht, next_space_space]
  · refine next_space_eq_self (Bool.or_eq_true_iff.mpr (.inr ?_))
    rw [next, if_neg ht]
    exact h

/-- A space in front of a token that absorbs it does nothing. -/
theorem next_space_next {t : Token} (h : absorbsSpace t) :
    (s.next Token.space).next t = s.next t := by
  by_cases hkept : s.depth > 0 || s.kept.head?.all absorbsSpace
  · rw [next_space_eq_self hkept]
  · -- the space was kept, and the token removes it, which happens outside brackets only
    by_cases ht : t = Token.space
    · rw [ht, next_space_space]
    · have hdepth : s.depth = 0 := Nat.eq_zero_of_not_pos fun hpos =>
        hkept (Bool.or_eq_true_iff.mpr (.inl (decide_eq_true hpos)))
      have hspace : (s.next Token.space).depth = 0 := by
        rw [next, if_pos rfl, if_neg hkept, hdepth]
      have hnext : ∀ s : SpaceScan, s.depth = 0 → s.next t = ⟨0, t :: s.trimmed⟩ := by
        intro s hs
        rw [next, if_neg ht, bracketDepth_of_absorbsSpace h, hs, h]
        rfl
      rw [hnext _ hspace, hnext _ hdepth, trimmed_next_space]

end SpaceScan

/-- An optional space is dropped. -/
theorem normalizeSpaces_insert {before after : List Token} (h : IsOptional before after) :
    normalizeSpaces (before ++ Token.space :: after) =
      normalizeSpaces (before ++ after) := by
  unfold normalizeSpaces
  rw [List.foldl_append, List.foldl_append, List.foldl_cons]
  cases h with
  | atStart => rfl
  | atEnd => exact congrArg List.reverse (SpaceScan.trimmed_next_space _)
  | inBrackets _ hdepth =>
    rw [SpaceScan.next_space_eq_self]
    rw [depth_foldl_next]
    exact Bool.or_eq_true_iff.mpr (.inl (decide_eq_true hdepth))
  | behind before _ ht => rw [List.foldl_append, List.foldl_cons, List.foldl_nil,
      SpaceScan.next_next_space (absorbsSpace_iff_mem.mpr ht)]
  | inFrontOf _ after ht => rw [List.foldl_cons,
      SpaceScan.next_space_next (absorbsSpace_iff_mem.mpr ht), List.foldl_cons]

theorem Loosens.normalizeSpaces_eq {ts us : List Token} (h : Loosens ts us) :
    normalizeSpaces us = normalizeSpaces ts := by
  induction h with
  | refl => rfl
  | tail _ hadd ih =>
    obtain ⟨hoptional⟩ := hadd
    rw [normalizeSpaces_insert hoptional, ih]

/-! ## Dropped spaces were optional -/

namespace SpaceScan

variable {s : SpaceScan}

/-- A step of the scan drops optional spaces only: the one it takes,
or the one it kept before. -/
theorem loosens_next (h : keptDepth s.kept = s.depth) (t : Token) (rest : List Token) :
    Loosens ((s.next t).kept.reverse ++ rest) (s.kept.reverse ++ t :: rest) := by
  have hcons : ∀ kept : List Token,
      (t :: kept).reverse ++ rest = kept.reverse ++ t :: rest := by
    simp
  by_cases ht : t = Token.space
  · rw [next, if_pos ht]
    split
    · -- the space is dropped: inside brackets, at the start, or behind a token that
      -- absorbs it
      rename_i hdrop
      rw [ht]
      refine .of_isOptional ?_
      rcases Bool.or_eq_true_iff.mp hdrop with hdepth | hhead
      · refine .inBrackets rest ?_
        rw [foldl_bracketDepth_reverse, h]
        exact of_decide_eq_true hdepth
      · cases hkept : s.kept with
        | nil => exact .atStart rest
        | cons u kept =>
          rw [hkept] at hhead
          rw [List.reverse_cons]
          exact .behind kept.reverse rest (absorbsSpace_iff_mem.mp hhead)
    · rw [hcons]
      exact .refl
  · rw [next, if_neg ht]
    show Loosens ((t :: if bracketDepth s.depth t = 0 && absorbsSpace t then s.trimmed
      else s.kept).reverse ++ rest) _
    rw [hcons]
    split
    · -- the token absorbs the space that was kept before it, if there is one
      rename_i habsorbs
      rw [trimmed]
      split
      · rename_i hhead
        obtain ⟨kept, hkept⟩ := List.head?_eq_some_iff.mp hhead
        rw [hkept, List.tail_cons, List.reverse_cons, List.append_assoc]
        obtain ⟨-, habsorbs⟩ := Bool.and_eq_true_iff.mp habsorbs
        exact .of_isOptional (.inFrontOf kept.reverse rest
          (absorbsSpace_iff_mem.mp habsorbs))
      · exact .refl
    · exact .refl

theorem loosens_foldl_next (h : keptDepth s.kept = s.depth) (ts : List Token) :
    Loosens (ts.foldl next s).kept.reverse (s.kept.reverse ++ ts) := by
  induction ts generalizing s with
  | nil =>
    rw [List.append_nil]
    exact .refl
  | cons t ts ih => exact (ih (keptDepth_next h t)).trans (loosens_next h t ts)

theorem loosens_trimmed (s : SpaceScan) : Loosens s.trimmed.reverse s.kept.reverse := by
  rw [trimmed]
  split
  · rename_i hhead
    obtain ⟨kept, hkept⟩ := List.head?_eq_some_iff.mp hhead
    have hend : Loosens (kept.reverse ++ []) (kept.reverse ++ [Token.space]) :=
      .of_isOptional (.atEnd kept.reverse)
    rw [List.append_nil] at hend
    rw [hkept, List.tail_cons, List.reverse_cons]
    exact hend
  · exact .refl

end SpaceScan

/-- Tokens are their normal form with optional spaces added. -/
theorem loosens_normalizeSpaces (ts : List Token) : Loosens (normalizeSpaces ts) ts :=
  (SpaceScan.loosens_trimmed _).trans (SpaceScan.loosens_foldl_next (s := ⟨0, []⟩) rfl ts)

/-! ## Selectors -/

/-- Optional spaces are irrelevant. Tokens to which they are added have the same normal
form, so the same selectors are left of them, with the same reports, also where the list
is given up for a dropped selector. The normal form is its own normal form, and it is the
tokens without some of their spaces. -/
theorem normalizeSpaces_loosened (ctx : SelectorContext) (ts : List Token) :
    (∀ us, Loosens ts us →
      normalizeSpaces us = normalizeSpaces ts ∧
      sanitizeSelectors ctx us = sanitizeSelectors ctx ts ∧
      ∀ goesOn, sanitizeTolerantly ctx goesOn us = sanitizeTolerantly ctx goesOn ts) ∧
    normalizeSpaces (normalizeSpaces ts) = normalizeSpaces ts ∧
    (normalizeSpaces ts).Sublist ts ∧
    (normalizeSpaces ts).filter (· ≠ Token.space) = ts.filter (· ≠ Token.space) := by
  have hnormal := loosens_normalizeSpaces ts
  refine ⟨fun us h => ?_, hnormal.normalizeSpaces_eq.symm, hnormal.sublist,
    hnormal.filter_eq⟩
  have hsplit : splitSelectors us = splitSelectors ts := by
    rw [splitSelectors, splitSelectors, h.normalizeSpaces_eq]
  refine ⟨h.normalizeSpaces_eq, ?_, fun goesOn => ?_⟩
  · rw [sanitizeSelectors, sanitizeSelectors, hsplit]
  · rw [sanitizeTolerantly, sanitizeTolerantly, hsplit]

/-- Spaces in front of a combinator, behind a comma and in a
bracket that is not closed. -/
theorem normalizeSpaces_loosened_unclosed :
    Loosens (lex "a>b, (x").value
      ["a", " ", ">", "b", ",", " ", " ", "(", " ", "x"] ∧
    normalizeSpaces ["a", " ", ">", "b", ",", " ", " ", "(", " ", "x"] =
      normalizeSpaces (lex "a>b, (x").value ∧
    sanitizeSelectors { confinement := .standard }
        ["a", " ", ">", "b", ",", " ", " ", "(", " ", "x"] =
      sanitizeSelectors { confinement := .standard } (lex "a>b, (x").value := by
  have hlex : (lex "a>b, (x").value =
      (["a", ">", "b", ",", " ", "(", "x"] : List Token) := by
    decide +kernel
  have hcombinator : Loosens ["a", ">", "b", ",", " ", "(", "x"]
      ["a", " ", ">", "b", ",", " ", "(", "x"] :=
    .of_isOptional (.inFrontOf ["a"] ["b", ",", " ", "(",
      "x"] (by decide : ['>'] ∈ absorbers))
  have hcomma : Loosens ["a", " ", ">", "b", ",", " ", "(", "x"]
      ["a", " ", ">", "b", ",", " ", " ", "(", "x"] :=
    .of_isOptional (.behind ["a", " ", ">", "b"] [" ", "(",
      "x"] (by decide : Token.comma ∈ absorbers))
  have hbracket : Loosens ["a", " ", ">", "b", ",", " ", " ", "(", "x"]
      ["a", " ", ">", "b", ",", " ", " ", "(", " ", "x"] :=
    .of_isOptional (.inBrackets ["x"] (by decide :
      0 < List.foldl bracketDepth 0 ["a", " ", ">", "b", ",", " ", " ", "("]))
  have hall := (hcombinator.trans hcomma).trans hbracket
  have hsame := (normalizeSpaces_loosened { confinement := .standard } _).1 _ hall
  rw [hlex]
  exact ⟨hall, hsame.1, hsame.2.1⟩

end CssGuard
