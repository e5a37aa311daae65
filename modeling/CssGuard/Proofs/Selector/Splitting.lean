import CssGuard.Proofs.Selector.Structure

/-!
# Sanitized selectors are split where they were joined

A sanitized list of selectors, read back, is split into the selectors it was made of, and
each of these into its compound selectors. The spaces in it that combine nothing are those
around other combinators, after commas and in brackets.

- `Compound.tokens`, `Complex.parts`, `Complex.tokens`: the parts of a
  selector, without such spaces
- `IsPiece`: a token at which nothing is split
- `normalizeSpaces_body`, `splitAtTop_tokens`: a selector that is read back
- `splitSelectors_listReading`: a list that is read back
-/

namespace CssGuard

open Text Escape
open scoped Text.ByCharacter

/-! ## Parts without spaces -/

/-- The tokens of a qualifier, without spaces. -/
def Qualifier.tokens (suffix : Text) : Qualifier → List Token
  | id name => ['#' :: name ++ suffix]
  | className name => [['.'], name]
  | attr name none => [['['], name, [']']]
  | attr name (some test) => [['['], name, test.operator, quote test.value] ++
      (if test.ignoresCase then [['i']] else []) ++ [[']']]

/-- The tokens of a compound selector, without spaces. -/
def Compound.tokens (suffix : Text) (s : Compound) : List Token :=
  (if s.element = [] then [] else [s.element]) ++
    s.qualifiers.flatMap (Qualifier.tokens suffix) ++ s.pseudo.elim [] Pseudo.reading

/-- Without an element, a compound selector begins with a mark. -/
theorem exists_mark_of_no_element {suffix : Text} {s : Compound}
    (h : s.element = []) {t : Token} (ht : t ∈ (s.tokens suffix).head?) :
    ∃ d rest, t = d :: rest ∧ d ∈ ['#', '.', '[', ':'] := by
  rw [Compound.tokens, if_pos h, List.nil_append] at ht
  cases hqs : s.qualifiers with
  | nil =>
    rw [hqs] at ht
    cases hp : s.pseudo with
    | none =>
      rw [hp] at ht
      cases ht
    | some p =>
      have heq : t = Token.colon := by
        rw [hp, Option.elim_some, List.flatMap_nil, List.nil_append, Pseudo.reading] at ht
        split at ht <;> exact (Option.some.inj ht).symm
      exact ⟨':', [], heq, by decide⟩
  | cons q qs =>
    rw [hqs] at ht
    cases q with
    | id name => exact ⟨'#', _, (Option.some.inj ht).symm, by decide⟩
    | className name => exact ⟨'.', [], (Option.some.inj ht).symm, by decide⟩
    | attr name test =>
      cases test <;> exact ⟨'[', [], (Option.some.inj ht).symm, by decide⟩

namespace Complex

/-- The compound selectors of a complex selector. -/
def compounds (s : Complex) : List Compound :=
  s.first :: s.others.map Prod.snd

/-- The tokens of a complex selector, split at its combinators. -/
def parts (suffix : Text) (s : Complex) : Parts :=
  ⟨s.first.tokens suffix, s.others.map fun (combinator, compound) =>
    (combinator, compound.tokens suffix)⟩

/-- The tokens of a complex selector with its combinators, without other spaces. -/
def tokens (suffix : Text) (s : Complex) : List Token :=
  s.first.tokens suffix ++ s.others.flatMap fun (combinator, compound) =>
    combinator :: compound.tokens suffix

/-- The tokens of a complex selector after its container. -/
def body (suffix : Text) (s : Complex) : List Token :=
  s.first.reading suffix ++ s.others.flatMap fun (combinator, compound) =>
    combinatorReading combinator ++ compound.reading suffix

theorem reading_eq (c : Confinement) (s : Complex) :
    s.reading c = c.startReading ++ s.body c.idSuffix :=
  List.append_assoc ..

theorem toList_parts (suffix : Text) (s : Complex) :
    (s.parts suffix).toList = s.compounds.map (Compound.tokens suffix) := by
  simp [parts, Parts.toList, compounds]

end Complex

/-! ## Tokens at which nothing is split -/

/-- The token is no bracket, and white space next to it means something. -/
structure IsPiece (t : Token) : Prop where
  depth : ∀ d, bracketDepth d t = d
  solid : absorbsSpace t = false

/-- The marks with which no piece begins. -/
def splitMarks : List Char :=
  ['[', ']', ')', ' ', '>', '+', '~', ',']

theorem isPiece_of_head {c : Char} {t : Text} (hc : c ∉ splitMarks)
    (hopens : Token.opensParen (c :: t) = false) : IsPiece (c :: t) := by
  simp only [splitMarks, List.mem_cons, List.not_mem_nil, or_false, not_or] at hc
  constructor
  · intro d
    simp [bracketDepth, hopens, Token.closeParen, hc]
  · simp [absorbsSpace, isCombinator, Token.space, Token.comma, hc]

theorem isPiece_of_chars {t : Text} (hne : t ≠ []) (h : ∀ c ∈ '(' :: splitMarks, c ∉ t) :
    IsPiece t := by
  obtain ⟨c, t, rfl⟩ := List.exists_cons_of_ne_nil hne
  refine isPiece_of_head (fun hc => ?_)
    (opensParen_eq_false (h '(' (List.mem_cons_self ..)))
  exact h c (List.mem_cons_of_mem _ hc) (List.mem_cons_self ..)

theorem isPiece_of_nameChars {t : Text} (hne : t ≠ []) (h : ∀ c ∈ t, isNameChar c) :
    IsPiece t :=
  isPiece_of_chars hne fun c hc hmem =>
    absurd (h c hmem) ((by decide : ∀ c ∈ '(' :: splitMarks, ¬ isNameChar c) c hc)

theorem isPiece_of_isBareName {n : Text} (h : IsBareName n) : IsPiece n := by
  refine isPiece_of_nameChars ?_ h.all
  rintro rfl
  rcases h.cases with ⟨_, _, heq, -⟩ | ⟨_, _, heq, -⟩ <;> cases heq

theorem isPiece_of_isPlainIdent {n : Text} (h : isPlainIdent n) : IsPiece n :=
  isPiece_of_isBareName (isBareName_of_isPlainIdent h)

theorem isPiece_hash {n : Text} (h : '(' ∉ n) : IsPiece ('#' :: n) := by
  refine isPiece_of_head (by decide) (opensParen_eq_false fun hmem => ?_)
  rcases List.mem_cons.mp hmem with heq | hmem
  · cases heq
  · exact h hmem

theorem isPiece_quote (s : Text) : IsPiece (quote s) := by
  refine isPiece_of_head (by decide) ?_
  rw [Token.opensParen, decide_eq_false_iff_not]
  show ('"' :: escapeString s ++ ['"']).getLast? ≠ some '('
  rw [List.getLast?_concat]
  decide

theorem isPiece_of_mem_matchOperators : ∀ t ∈ matchOperators, IsPiece t := by
  have hall : ∀ t ∈ matchOperators, t ≠ [] ∧ ∀ c ∈ '(' :: splitMarks, c ∉ t ∨
      t = ['~', '='] := by
    decide
  intro t ht
  by_cases htilde : t = ['~', '=']
  · subst htilde
    exact ⟨fun d => by simp [bracketDepth, Token.closeParen, Token.opensParen], by decide⟩
  · exact isPiece_of_chars (hall t ht).1 fun c hc =>
      ((hall t ht).2 c hc).resolve_right htilde

/-! ## Spaces -/

/-- Scanning the tokens `ts` outside brackets keeps the tokens `us`. -/
def Scans (ts us : List Token) : Prop :=
  ∀ kept, ts.foldl SpaceScan.next ⟨0, kept⟩ = ⟨0, us.reverse ++ kept⟩

theorem scans_nil : Scans [] [] :=
  fun _ => rfl

theorem Scans.append {ts ts' us us' : List Token} (h : Scans ts us) (h' : Scans ts' us') :
    Scans (ts ++ ts') (us ++ us') := by
  intro kept
  rw [List.foldl_append, h, h', List.reverse_append, List.append_assoc]

theorem scans_flatMap {α : Type} {xs : List α} {f g : α → List Token}
    (h : ∀ x ∈ xs, Scans (f x) (g x)) : Scans (xs.flatMap f) (xs.flatMap g) := by
  induction xs with
  | nil => exact scans_nil
  | cons x xs ih =>
    obtain ⟨hx, hxs⟩ := List.forall_mem_cons.mp h
    rw [List.flatMap_cons, List.flatMap_cons]
    exact hx.append (ih hxs)

theorem next_piece {t : Token} (h : IsPiece t) (depth : Nat) (kept : List Token) :
    SpaceScan.next ⟨depth, kept⟩ t = ⟨depth, t :: kept⟩ := by
  have hspace : t ≠ Token.space := by
    rintro rfl
    cases h.solid
  rw [SpaceScan.next, if_neg hspace]
  dsimp only
  rw [h.depth, h.solid, Bool.and_false]
  rfl

/-- A space is kept after a token that means something. -/
theorem next_space {t : Token} (ht : absorbsSpace t = false) (kept : List Token) :
    SpaceScan.next ⟨0, t :: kept⟩ Token.space = ⟨0, Token.space :: t :: kept⟩ := by
  simp [SpaceScan.next, ht]

theorem foldl_pieces {ts : List Token} (h : ∀ t ∈ ts, IsPiece t) (depth : Nat)
    (kept : List Token) :
    ts.foldl SpaceScan.next ⟨depth, kept⟩ = ⟨depth, ts.reverse ++ kept⟩ := by
  induction ts generalizing kept with
  | nil => rfl
  | cons t ts ih =>
    obtain ⟨ht, hts⟩ := List.forall_mem_cons.mp h
    rw [List.foldl_cons, next_piece ht, ih hts, List.reverse_cons, List.append_assoc]
    rfl

theorem scans_pieces {ts : List Token} (h : ∀ t ∈ ts, IsPiece t) : Scans ts ts :=
  foldl_pieces h 0

/-- Tokens between square brackets, where a space in front of
the last ones is left out. -/
theorem scans_bracketed (ts flag flag' : List Token) (hts : ∀ t ∈ ts, IsPiece t)
    (hflag : ∀ kept, flag.foldl SpaceScan.next ⟨1, kept⟩ = ⟨1, flag'.reverse ++ kept⟩) :
    Scans (['['] :: ts ++ flag ++ [[']']]) (['['] :: ts ++ flag' ++ [[']']]) := by
  intro kept
  have hopen : SpaceScan.next ⟨0, kept⟩ ['['] = ⟨1, ['['] :: kept⟩ := rfl
  have hclose : ∀ kept, SpaceScan.next ⟨1, kept⟩ [']'] = ⟨0, [']'] :: kept⟩ :=
    fun _ => rfl
  rw [List.foldl_append, List.foldl_append, List.foldl_cons, List.foldl_cons,
    List.foldl_nil, hopen, foldl_pieces hts, hflag, hclose]
  simp

section Parts

variable {suffix : Text} (hsuffix : isIdSuffix suffix) (hnew : '\n' ∉ suffix)

include hsuffix hnew in
theorem isPiece_id {name : Text} (hname : isPlainIdent name) :
    IsPiece ('#' :: name ++ suffix) := by
  obtain ⟨n, hn, hline⟩ := exists_name_suffix (isBareName_of_isPlainIdent hname) hsuffix
  have heq : n = name ++ suffix := by
    rcases hline with heq | heq
    · exact heq.symm
    · have hmem : '\n' ∈ name ++ suffix :=
        heq ▸ List.mem_append_right _ (List.mem_singleton_self _)
      rcases List.mem_append.mp hmem with hmem | hmem
      · exact absurd hmem (not_newline_mem_of_isPlainIdent hname)
      · exact absurd hmem hnew
  exact isPiece_hash fun hmem => absurd (hn.all '(' (heq ▸ hmem)) (by decide)

include hnew in
theorem lineTokens_id {name : Text} (hname : isPlainIdent name) :
    lineTokens ('#' :: name ++ suffix) = ['#' :: name ++ suffix] := by
  refine if_neg fun hlast => ?_
  rcases List.mem_cons.mp (List.mem_of_getLast? hlast) with hmem | hmem
  · cases hmem
  · rcases List.mem_append.mp hmem with hmem | hmem
    · exact not_newline_mem_of_isPlainIdent hname hmem
    · exact hnew hmem

include hsuffix hnew in
theorem scans_qualifier {q : Qualifier} (h : q.IsPlain) :
    Scans (q.reading suffix) (q.tokens suffix) := by
  cases q with
  | id name =>
    rw [Qualifier.reading, lineTokens_id hnew h]
    exact scans_pieces (List.forall_mem_singleton.mpr (isPiece_id hsuffix hnew h))
  | className name =>
    refine scans_pieces (List.forall_mem_cons.mpr ⟨isPiece_of_head (by decide)
      (by decide), ?_⟩)
    exact List.forall_mem_singleton.mpr (isPiece_of_isPlainIdent h)
  | attr name test =>
    obtain ⟨hname, htest⟩ := h
    have hname := isPiece_of_isPlainIdent hname
    cases test with
    | none =>
      exact scans_bracketed [name] [] []
        (List.forall_mem_singleton.mpr hname) fun _ => rfl
    | some test =>
      have hoperator := isPiece_of_mem_matchOperators _ (htest test rfl).1
      refine scans_bracketed [name, test.operator, quote test.value]
        (if test.ignoresCase then [Token.space, ['i']] else [])
        (if test.ignoresCase then [['i']] else []) ?_ fun kept => ?_
      · exact List.forall_mem_cons.mpr ⟨hname, List.forall_mem_cons.mpr ⟨hoperator,
          List.forall_mem_singleton.mpr (isPiece_quote _)⟩⟩
      · split <;> rfl

theorem mem_pseudo_reading {p : Pseudo} {t : Token} (h : t ∈ p.reading) :
    t = Token.colon ∨ t = p.name := by
  unfold Pseudo.reading at h
  rcases List.mem_append.mp h with h | h
  · split at h <;> exact .inl (by simpa using h)
  · exact .inr (List.mem_singleton.mp h)

theorem isPiece_pseudo {p : Pseudo} (h : p.isKnown) : ∀ t ∈ p.reading, IsPiece t := by
  intro t ht
  rcases mem_pseudo_reading ht with rfl | rfl
  · exact isPiece_of_head (by decide) (by decide)
  · exact isPiece_of_isPlainIdent (isPlainIdent_of_isKnown h)

theorem isPiece_element {element : Text}
    (h : element = [] ∨ element = ['*'] ∨ isPlainIdent element) :
    ∀ t ∈ if element = [] then ([] : List Token) else [element], IsPiece t := by
  intro t ht
  split at ht
  · cases ht
  · rename_i hne
    rw [List.mem_singleton.mp ht]
    rcases h with hnone | hstar | hident
    · exact absurd hnone hne
    · rw [hstar]
      exact isPiece_of_head (by decide) (by decide)
    · exact isPiece_of_isPlainIdent hident

end Parts

section Selectors

variable {c : Confinement} (hnew : '\n' ∉ c.idSuffix)

include hnew in
theorem scans_compound {s : Compound} (h : s.IsPlain c.idSuffix) :
    Scans (s.reading c.idSuffix) (s.tokens c.idSuffix) := by
  refine Scans.append (Scans.append ?_ ?_) ?_
  · exact scans_pieces (isPiece_element h.element)
  · exact scans_flatMap fun q hq =>
      scans_qualifier c.idSuffix_valid hnew (h.qualifiers q hq)
  · cases hp : s.pseudo with
    | none => exact scans_nil
    | some p => exact scans_pieces (isPiece_pseudo (h.known p hp))

/-- White space after the tokens means something. -/
def EndsSolid (ts : List Token) : Prop :=
  ∃ front t, ts = front ++ [t] ∧ absorbsSpace t = false

theorem EndsSolid.append_left {us : List Token} (h : EndsSolid us) (ts : List Token) :
    EndsSolid (ts ++ us) := by
  obtain ⟨front, t, rfl, ht⟩ := h
  exact ⟨ts ++ front, t, (List.append_assoc ..).symm, ht⟩

theorem endsSolid_pieces {ts : List Token} (hne : ts ≠ []) (h : ∀ t ∈ ts, IsPiece t) :
    EndsSolid ts :=
  ⟨ts.dropLast, ts.getLast hne, (List.dropLast_concat_getLast hne).symm,
    (h _ (List.getLast_mem hne)).solid⟩

include hnew in
theorem endsSolid_qualifier {q : Qualifier} (h : q.IsPlain) :
    EndsSolid (q.tokens c.idSuffix) := by
  have hbracket : absorbsSpace [']'] = false := by decide
  cases q with
  | id name => exact ⟨[], _, rfl, (isPiece_id c.idSuffix_valid hnew h).solid⟩
  | className name => exact ⟨[['.']], name, rfl, (isPiece_of_isPlainIdent h).solid⟩
  | attr name test =>
    cases test with
    | none => exact ⟨[['['], name], [']'], rfl, hbracket⟩
    | some test => exact ⟨_, [']'], rfl, hbracket⟩

include hnew in
theorem endsSolid_compound {s : Compound} (h : s.IsPlain c.idSuffix) :
    EndsSolid (s.tokens c.idSuffix) := by
  unfold Compound.tokens
  cases hp : s.pseudo with
  | some p =>
    refine EndsSolid.append_left (endsSolid_pieces ?_ (isPiece_pseudo (h.known p hp))) _
    exact List.append_ne_nil_of_right_ne_nil _ (List.cons_ne_nil _ _)
  | none =>
    rw [Option.elim_none, List.append_nil]
    by_cases hqs : s.qualifiers = []
    · have helement : s.element ≠ [] := by
        intro helement
        exact h.ne_nil (by simp [Compound.text, helement, hqs, hp])
      rw [hqs, List.flatMap_nil, List.append_nil]
      refine endsSolid_pieces ?_ (isPiece_element h.element)
      rw [if_neg helement]
      exact List.cons_ne_nil _ _
    · have hlast := h.qualifiers _ (List.getLast_mem hqs)
      rw [← List.dropLast_concat_getLast hqs, List.flatMap_append, List.flatMap_singleton,
        ← List.append_assoc]
      exact (endsSolid_qualifier hnew hlast).append_left _

/-- A space after a token that means something, and the spaces
around another combinator. -/
theorem foldl_combinator {combinator : Token} (h : isCombinator combinator) {t : Token}
    (ht : absorbsSpace t = false) (kept : List Token) :
    (combinatorReading combinator).foldl SpaceScan.next ⟨0, t :: kept⟩ =
      ⟨0, combinator :: t :: kept⟩ := by
  have hspace := next_space ht kept
  rcases cases_of_isCombinator h with rfl | rfl | rfl | rfl
  · exact hspace
  all_goals
    rw [combinatorReading, if_neg (by decide), List.foldl_cons, hspace]
    rfl

include hnew in
theorem foldl_others {others : List (Token × Compound)}
    (h : ∀ o ∈ others, isCombinator o.1 ∧ o.2.IsPlain c.idSuffix) {ts : List Token}
    (hts : EndsSolid ts) (kept : List Token) :
    (others.flatMap fun (combinator, s) => combinatorReading combinator ++
      s.reading c.idSuffix).foldl SpaceScan.next ⟨0, ts.reverse ++ kept⟩ =
      ⟨0, (ts ++ others.flatMap fun (combinator, s) =>
        combinator :: s.tokens c.idSuffix).reverse ++ kept⟩ ∧
    EndsSolid (ts ++ others.flatMap fun (combinator, s) => combinator ::
      s.tokens c.idSuffix) := by
  induction others generalizing ts with
  | nil =>
    rw [List.flatMap_nil, List.flatMap_nil, List.append_nil]
    exact ⟨rfl, hts⟩
  | cons other rest ih =>
    obtain ⟨combinator, s⟩ := other
    obtain ⟨⟨hcombinator, hs⟩, hrest⟩ := List.forall_mem_cons.mp h
    obtain ⟨front, t, rfl, ht⟩ := hts
    have hnext :=
      ih hrest ((endsSolid_compound hnew hs).append_left (front ++ [t] ++ [combinator]))
    rw [List.flatMap_cons, List.flatMap_cons, List.foldl_append, List.foldl_append,
      List.reverse_append, List.reverse_singleton, List.singleton_append,
      List.cons_append, foldl_combinator hcombinator ht, scans_compound hnew hs]
    simpa using hnext

include hnew in
/-- A complex selector is scanned whole. -/
theorem scans_body {s : Complex} (h : s.IsPlain c.idSuffix) :
    Scans (s.body c.idSuffix) (s.tokens c.idSuffix) ∧
    EndsSolid (s.tokens c.idSuffix) := by
  have hothers := foldl_others hnew h.others (endsSolid_compound hnew h.first)
  refine ⟨fun kept => ?_, (hothers []).2⟩
  rw [Complex.body, List.foldl_append, scans_compound hnew h.first]
  exact (hothers kept).1

theorem trimmed_of_endsSolid {ts : List Token} (h : EndsSolid ts) (depth : Nat)
    (kept : List Token) :
    SpaceScan.trimmed ⟨depth, ts.reverse ++ kept⟩ = ts.reverse ++ kept := by
  obtain ⟨front, t, rfl, ht⟩ := h
  have hspace : t ≠ Token.space := by
    rintro rfl
    cases ht
  rw [SpaceScan.trimmed, if_neg]
  simpa using hspace

include hnew in
/-- What is left of a complex selector without the spaces that combine nothing. -/
theorem normalizeSpaces_body {s : Complex} (h : s.IsPlain c.idSuffix) :
    normalizeSpaces (s.body c.idSuffix) = s.tokens c.idSuffix := by
  obtain ⟨hscan, hends⟩ := scans_body hnew h
  rw [normalizeSpaces, hscan, trimmed_of_endsSolid hends, List.append_nil,
    List.reverse_reverse]

end Selectors

/-! ## Splitting -/

/-- Nothing is split in the tokens. -/
def Unsplit (isSeparator : Token → Bool) (ts : List Token) : Prop :=
  ∀ us, splitAtTop isSeparator 0 (ts ++ us) =
    ⟨ts ++ (splitAtTop isSeparator 0 us).first, (splitAtTop isSeparator 0 us).others⟩

section Separator

variable {isSeparator : Token → Bool}

theorem unsplit_nil : Unsplit isSeparator [] :=
  fun _ => rfl

theorem Unsplit.append {ts us : List Token} (ht : Unsplit isSeparator ts)
    (hu : Unsplit isSeparator us) : Unsplit isSeparator (ts ++ us) := by
  intro vs
  rw [List.append_assoc, ht, hu, List.append_assoc]

theorem unsplit_flatMap {α : Type} {xs : List α} {f : α → List Token}
    (h : ∀ x ∈ xs, Unsplit isSeparator (f x)) : Unsplit isSeparator (xs.flatMap f) := by
  induction xs with
  | nil => exact unsplit_nil
  | cons x xs ih =>
    obtain ⟨hx, hxs⟩ := List.forall_mem_cons.mp h
    rw [List.flatMap_cons]
    exact hx.append (ih hxs)

theorem unsplit_single {t : Token} (hdepth : bracketDepth 0 t = 0)
    (hsep : isSeparator t = false) : Unsplit isSeparator [t] := by
  intro us
  rw [List.singleton_append, splitAtTop, hsep, Bool.and_false, hdepth]
  rfl

variable (hseparator : ∀ t, absorbsSpace t = false → isSeparator t = false)

include hseparator in
theorem unsplit_pieces {ts : List Token} (h : ∀ t ∈ ts, IsPiece t) :
    Unsplit isSeparator ts := by
  induction ts with
  | nil => exact unsplit_nil
  | cons t ts ih =>
    obtain ⟨ht, hts⟩ := List.forall_mem_cons.mp h
    exact (unsplit_single (ht.depth 0) (hseparator t ht.solid)).append (ih hts)

theorem splitAtTop_inside {ts : List Token} (h : ∀ t ∈ ts, IsPiece t) (us : List Token) :
    splitAtTop isSeparator 1 (ts ++ [']'] :: us) =
      ⟨ts ++ [']'] :: (splitAtTop isSeparator 0 us).first,
        (splitAtTop isSeparator 0 us).others⟩ := by
  induction ts with
  | nil => rfl
  | cons t ts ih =>
    obtain ⟨ht, hts⟩ := List.forall_mem_cons.mp h
    rw [List.cons_append, splitAtTop, ht.depth 1, ih hts]
    rfl

include hseparator in
theorem unsplit_bracketed {ts : List Token} (h : ∀ t ∈ ts, IsPiece t) :
    Unsplit isSeparator (['['] :: ts ++ [[']']]) := by
  intro us
  have hopen : isSeparator ['['] = false := hseparator _ (by decide)
  have hdepth : bracketDepth 0 ['['] = 1 := rfl
  rw [List.append_assoc, List.cons_append, splitAtTop, hopen, Bool.and_false, hdepth]
  show (splitAtTop isSeparator 1 (ts ++ [']'] :: us)).cons _ = _
  rw [splitAtTop_inside h]
  simp [Parts.cons]

variable {c : Confinement} (hnew : '\n' ∉ c.idSuffix)

include hseparator hnew in
theorem unsplit_qualifier {q : Qualifier} (h : q.IsPlain) :
    Unsplit isSeparator (q.tokens c.idSuffix) := by
  cases q with
  | id name =>
    exact unsplit_pieces hseparator
      (List.forall_mem_singleton.mpr (isPiece_id c.idSuffix_valid hnew h))
  | className name =>
    refine unsplit_pieces hseparator
      (List.forall_mem_cons.mpr ⟨isPiece_of_head (by decide) (by decide), ?_⟩)
    exact List.forall_mem_singleton.mpr (isPiece_of_isPlainIdent h)
  | attr name test =>
    obtain ⟨hname, htest⟩ := h
    have hname := isPiece_of_isPlainIdent hname
    cases test with
    | none => exact unsplit_bracketed hseparator (List.forall_mem_singleton.mpr hname)
    | some test =>
      have hoperator := isPiece_of_mem_matchOperators _ (htest test rfl).1
      have hpieces : ∀ t ∈ [name, test.operator, quote test.value] ++
          if test.ignoresCase then [['i']] else [], IsPiece t := by
        refine List.forall_mem_append.mpr ⟨?_, fun t ht => ?_⟩
        · exact List.forall_mem_cons.mpr ⟨hname, List.forall_mem_cons.mpr ⟨hoperator,
            List.forall_mem_singleton.mpr (isPiece_quote _)⟩⟩
        · split at ht
          · rw [List.mem_singleton.mp ht]
            exact isPiece_of_head (by decide) (by decide)
          · cases ht
      exact unsplit_bracketed hseparator hpieces

include hseparator hnew in
theorem unsplit_compound {s : Compound} (h : s.IsPlain c.idSuffix) :
    Unsplit isSeparator (s.tokens c.idSuffix) := by
  refine Unsplit.append (Unsplit.append ?_ ?_) ?_
  · exact unsplit_pieces hseparator (isPiece_element h.element)
  · exact unsplit_flatMap fun q hq =>
      unsplit_qualifier hseparator hnew (h.qualifiers q hq)
  · cases hp : s.pseudo with
    | none => exact unsplit_nil
    | some p => exact unsplit_pieces hseparator (isPiece_pseudo (h.known p hp))

end Separator

section Selectors

variable {c : Confinement} (hnew : '\n' ∉ c.idSuffix)

theorem isCombinator_of_solid (t : Token) (h : absorbsSpace t = false) :
    isCombinator t = false :=
  (Bool.or_eq_false_iff.mp h).1

theorem not_comma_of_solid (t : Token) (h : absorbsSpace t = false) :
    decide (t = Token.comma) = false :=
  (Bool.or_eq_false_iff.mp h).2

include hnew in
theorem splitAtTop_others {others : List (Token × Compound)}
    (h : ∀ o ∈ others, isCombinator o.1 ∧ o.2.IsPlain c.idSuffix) :
    splitAtTop isCombinator 0 (others.flatMap fun (combinator, s) =>
      combinator :: s.tokens c.idSuffix) =
      ⟨[], others.map fun (combinator, s) => (combinator, s.tokens c.idSuffix)⟩ := by
  induction others with
  | nil => rfl
  | cons other rest ih =>
    obtain ⟨combinator, s⟩ := other
    obtain ⟨⟨hcombinator, hs⟩, hrest⟩ := List.forall_mem_cons.mp h
    rw [List.flatMap_cons, List.cons_append, splitAtTop, hcombinator,
      unsplit_compound isCombinator_of_solid hnew hs, ih hrest]
    simp [Parts.separate]

include hnew in
/-- A complex selector is split at its combinators. -/
theorem splitAtTop_tokens {s : Complex} (h : s.IsPlain c.idSuffix) :
    splitAtTop isCombinator 0 (s.tokens c.idSuffix) = s.parts c.idSuffix := by
  rw [Complex.tokens, unsplit_compound isCombinator_of_solid hnew h.first,
    splitAtTop_others hnew h.others, List.append_nil]
  rfl

include hnew in
/-- A complex selector has no comma outside brackets. -/
theorem unsplit_tokens {s : Complex} (h : s.IsPlain c.idSuffix) :
    Unsplit (· = Token.comma) (s.tokens c.idSuffix) := by
  refine (unsplit_compound not_comma_of_solid hnew h.first).append (unsplit_flatMap
    fun o ho => ?_)
  obtain ⟨combinator, s⟩ := o
  obtain ⟨hcombinator, hs⟩ := h.others _ ho
  have hsingle : Unsplit (· = Token.comma) [combinator] := by
    rcases cases_of_isCombinator hcombinator with rfl | rfl | rfl | rfl <;>
      exact unsplit_single rfl (by decide)
  exact hsingle.append (unsplit_compound not_comma_of_solid hnew hs)

/-- The tokens of complex selectors with commas between them, without other spaces. -/
def listTokens (suffix : Text) : List Complex → List Token
  | [] => []
  | [s] => s.tokens suffix
  | s :: rest => s.tokens suffix ++ Token.comma :: listTokens suffix rest

theorem listTokens_cons_cons (suffix : Text) (s s' : Complex) (rest : List Complex) :
    listTokens suffix (s :: s' :: rest) =
      s.tokens suffix ++ Token.comma :: listTokens suffix (s' :: rest) :=
  rfl

theorem listReading_cons_cons (c : Confinement) (s s' : Complex) (rest : List Complex) :
    listReading c (s :: s' :: rest) =
      s.reading c ++ [Token.comma, Token.space] ++ listReading c (s' :: rest) :=
  rfl

theorem foldl_comma {ts : List Token} (hts : EndsSolid ts) (kept : List Token) :
    [Token.comma, Token.space].foldl SpaceScan.next ⟨0, ts.reverse ++ kept⟩ =
      ⟨0, Token.comma :: (ts.reverse ++ kept)⟩ := by
  have hcomma : SpaceScan.next ⟨0, ts.reverse ++ kept⟩ Token.comma =
      ⟨0, Token.comma :: SpaceScan.trimmed ⟨0, ts.reverse ++ kept⟩⟩ := rfl
  rw [List.foldl_cons, hcomma, trimmed_of_endsSolid hts]
  rfl

include hnew in
theorem scans_listReading (hnone : c.containerClass = none) {ss : List Complex}
    (h : ∀ s ∈ ss, s.IsValid c) (hne : ss ≠ []) :
    Scans (listReading c ss) (listTokens c.idSuffix ss) ∧
    EndsSolid (listTokens c.idSuffix ss) := by
  have hstart : c.startReading = [] := by rw [Confinement.startReading, hnone]
  induction ss with
  | nil => exact absurd rfl hne
  | cons s rest ih =>
    obtain ⟨hs, hrest⟩ := List.forall_mem_cons.mp h
    have hbody := scans_body hnew hs.isPlain
    cases rest with
    | nil =>
      rw [listReading, Complex.reading_eq, hstart]
      exact hbody
    | cons s' rest =>
      obtain ⟨hscan, hends⟩ := ih hrest (List.cons_ne_nil _ _)
      refine ⟨fun kept => ?_, ?_⟩
      · rw [listReading_cons_cons, Complex.reading_eq, hstart, List.nil_append,
          List.foldl_append, List.foldl_append, hbody.1, foldl_comma hbody.2, hscan,
          listTokens_cons_cons]
        simp
      · exact (hends.append_left [Token.comma]).append_left _

include hnew in
theorem splitAtTop_listTokens {s : Complex} {ss : List Complex}
    (h : ∀ s' ∈ s :: ss, s'.IsValid c) :
    (splitAtTop (· = Token.comma) 0 (listTokens c.idSuffix (s :: ss))).toList =
      (s :: ss).map (Complex.tokens c.idSuffix) := by
  induction ss generalizing s with
  | nil =>
    have hsplit := unsplit_tokens hnew (h s (List.mem_cons_self ..)).isPlain []
    rw [List.append_nil] at hsplit
    rw [listTokens, hsplit]
    simp [splitAtTop, Parts.toList]
  | cons s' rest ih =>
    obtain ⟨hs, hrest⟩ := List.forall_mem_cons.mp h
    rw [listTokens_cons_cons, unsplit_tokens hnew hs.isPlain, splitAtTop,
      List.map_cons, ← ih hrest]
    simp [Parts.toList, Parts.separate]

include hnew in
/-- A list of selectors is split into them. -/
theorem splitSelectors_listReading (hnone : c.containerClass = none) {ss : List Complex}
    (h : ∀ s ∈ ss, s.IsValid c) (hne : ss ≠ []) :
    splitSelectors (listReading c ss) = ss.map (Complex.tokens c.idSuffix) := by
  obtain ⟨hscan, hends⟩ := scans_listReading hnew hnone h hne
  obtain ⟨s, rest, rfl⟩ := List.exists_cons_of_ne_nil hne
  rw [splitSelectors, normalizeSpaces, hscan, trimmed_of_endsSolid hends, List.append_nil,
    List.reverse_reverse, splitAtTop_listTokens hnew h]

end Selectors

/-! ## Spaces that stay -/

/-- No space of the tokens is collapsed with another. -/
def Stays (ts : List Token) : Prop :=
  ∀ us, ts.foldr consCollapsed us = ts ++ us

theorem stays_nil : Stays [] :=
  fun _ => rfl

theorem Stays.append {ts us : List Token} (ht : Stays ts) (hu : Stays us) :
    Stays (ts ++ us) := by
  intro vs
  rw [List.foldr_append, hu, ht, List.append_assoc]

theorem stays_of_no_space {ts : List Token} (h : Token.space ∉ ts) : Stays ts := by
  intro us
  induction ts with
  | nil => rfl
  | cons t ts ih =>
    obtain ⟨ht, hts⟩ := not_or.mp (mt List.mem_cons.mpr h)
    rw [List.foldr_cons, ih hts, consCollapsed_of_ne (Ne.symm ht)]
    rfl

theorem stays_flatMap {α : Type} {xs : List α} {f : α → List Token}
    (h : ∀ x ∈ xs, Stays (f x)) : Stays (xs.flatMap f) := by
  induction xs with
  | nil => exact stays_nil
  | cons x xs ih =>
    obtain ⟨hx, hxs⟩ := List.forall_mem_cons.mp h
    rw [List.flatMap_cons]
    exact hx.append (ih hxs)

/-- A space in front of another token. -/
theorem Stays.space_cons {ts : List Token} (h : Stays ts) (hbegins : BeginsWithToken ts) :
    Stays (Token.space :: ts) := by
  intro us
  cases ts with
  | nil => cases hbegins
  | cons t ts =>
    rw [List.foldr_cons, h, List.cons_append, consCollapsed, if_neg]
    · rfl
    · rintro ⟨-, hnil | hhead⟩
      · cases hnil
      · exact hbegins (Option.some.inj hhead)

theorem Stays.squeeze_eq {ts : List Token} (h : Stays ts) : squeeze ts = ts := by
  have hmark : Token.comma ≠ Token.space := by decide
  have heq := (foldr_consCollapsed_cons hmark [] ts).symm.trans (h [Token.comma])
  exact List.append_cancel_right heq

theorem IsPiece.ne_space {t : Token} (h : IsPiece t) : t ≠ Token.space := by
  rintro rfl
  cases h.solid

theorem stays_pieces {ts : List Token} (h : ∀ t ∈ ts, IsPiece t) : Stays ts :=
  stays_of_no_space fun hmem => (h _ hmem).ne_space rfl

section Selectors

variable {c : Confinement} (hnew : '\n' ∉ c.idSuffix)

include hnew in
theorem stays_qualifier {q : Qualifier} (h : q.IsPlain) :
    Stays (q.reading c.idSuffix) := by
  have hopen : Stays [['[']] := stays_of_no_space (by decide)
  have hclose : Stays [[']']] := stays_of_no_space (by decide)
  cases q with
  | id name =>
    rw [Qualifier.reading, lineTokens_id hnew h]
    exact stays_pieces (List.forall_mem_singleton.mpr
      (isPiece_id c.idSuffix_valid hnew h))
  | className name =>
    refine stays_pieces (List.forall_mem_cons.mpr ⟨isPiece_of_head (by decide)
      (by decide), ?_⟩)
    exact List.forall_mem_singleton.mpr (isPiece_of_isPlainIdent h)
  | attr name test =>
    obtain ⟨hname, htest⟩ := h
    have hname := isPiece_of_isPlainIdent hname
    cases test with
    | none =>
      exact (hopen.append (stays_pieces (List.forall_mem_singleton.mpr hname))).append
        hclose
    | some test =>
      have hoperator := isPiece_of_mem_matchOperators _ (htest test rfl).1
      have hinside : Stays [name, test.operator, quote test.value] :=
        stays_pieces (List.forall_mem_cons.mpr ⟨hname,
          List.forall_mem_cons.mpr ⟨hoperator,
            List.forall_mem_singleton.mpr (isPiece_quote _)⟩⟩)
      refine ((hopen.append hinside).append ?_).append hclose
      split
      · have hflag : (['i'] : Token) ≠ Token.space := by decide
        exact Stays.space_cons (stays_of_no_space (by decide)) hflag
      · exact stays_nil

include hnew in
theorem stays_compound {s : Compound} (h : s.IsPlain c.idSuffix) :
    Stays (s.reading c.idSuffix) := by
  refine Stays.append (Stays.append ?_ ?_) ?_
  · exact stays_pieces (isPiece_element h.element)
  · exact stays_flatMap fun q hq => stays_qualifier hnew (h.qualifiers q hq)
  · cases hp : s.pseudo with
    | none => exact stays_nil
    | some p => exact stays_pieces (isPiece_pseudo (h.known p hp))

theorem Stays.after_combinator {ts : List Token} (hts : Stays ts)
    (hbegins : BeginsWithToken ts) (combinator : Token) :
    Stays (combinatorReading combinator ++ ts) := by
  unfold combinatorReading
  split
  · rename_i hspace
    rw [hspace]
    exact hts.space_cons hbegins
  · rename_i hspace
    have hmark : Stays [combinator] := stays_of_no_space (by simpa using Ne.symm hspace)
    exact (hmark.append (hts.space_cons hbegins)).space_cons hspace

include hnew in
theorem stays_others {others : List (Token × Compound)}
    (h : ∀ o ∈ others, isCombinator o.1 ∧ o.2.IsPlain c.idSuffix) :
    Stays (others.flatMap fun (combinator, s) =>
      combinatorReading combinator ++ s.reading c.idSuffix) := by
  refine stays_flatMap fun o ho => ?_
  obtain ⟨combinator, s⟩ := o
  have hs := (h _ ho).2
  exact (stays_compound hnew hs).after_combinator (beginsWithToken_compound hs) combinator

include hnew in
/-- No space of a complex selector is collapsed with another. -/
theorem stays_body {s : Complex} (h : s.IsPlain c.idSuffix) : Stays (s.body c.idSuffix) :=
  (stays_compound hnew h.first).append (stays_others hnew h.others)

theorem beginsWithToken_body {s : Complex} (h : s.IsPlain c.idSuffix) :
    BeginsWithToken (s.body c.idSuffix) :=
  (beginsWithToken_compound h.first).append _

end Selectors

end CssGuard
