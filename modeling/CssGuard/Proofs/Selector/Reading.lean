import CssGuard.Proofs.Selector.Syntax
import CssGuard.Proofs.Value.Written

/-!
# Sanitized selectors are read back

The text of a selector whose names are plain is read back part by part. A suffix or a
class may bring a newline along, which is read back as a space.

- `Qualifier.reading`, `Compound.reading`, `Complex.reading`,
  `listReading`: the tokens of the parts
- `IsPart`: a text that may follow a part of a selector, with its tokens
- `reads_complexes`: a list of selectors is read back as these tokens
-/

namespace CssGuard

open Text Escape
open scoped Text.ByCharacter

/-! ## Tokens of the parts -/

/-- A token, with a space after it if there is a newline. -/
def lineTokens (t : Text) : List Token :=
  if t.getLast? = some '\n' then [t.dropLast, Token.space] else [t]

/-- A newline after a token is a space. -/
theorem lineTokens_cases {n t : Text} (hn : '\n' ∉ n) (hline : IsMaybeLine n t) :
    lineTokens t = [n] ∨ lineTokens t = [n, Token.space] := by
  rcases hline with rfl | rfl
  · exact .inl (if_neg fun hlast => hn (List.mem_of_getLast? hlast))
  · right
    rw [lineTokens, if_pos List.getLast?_concat, List.dropLast_concat]

/-- The tokens of a qualifier. -/
def Qualifier.reading (suffix : Text) : Qualifier → List Token
  | id name => lineTokens ('#' :: name ++ suffix)
  | className name => [['.'], name]
  | attr name none => [['['], name, [']']]
  | attr name (some test) => [['['], name, test.operator, quote test.value] ++
      (if test.ignoresCase then [Token.space, ['i']] else []) ++ [[']']]

/-- The tokens of a pseudo-class. -/
def Pseudo.reading (p : Pseudo) : List Token :=
  (if p.isElement then [Token.colon, Token.colon] else [Token.colon]) ++ [p.name]

/-- The tokens of a compound selector. -/
def Compound.reading (suffix : Text) (s : Compound) : List Token :=
  (if s.element = [] then [] else [s.element]) ++
    s.qualifiers.flatMap (Qualifier.reading suffix) ++ s.pseudo.elim [] Pseudo.reading

/-- The tokens of a combinator. -/
def combinatorReading (t : Token) : List Token :=
  if t = Token.space then [t] else [Token.space, t, Token.space]

/-- The tokens that every selector begins with. -/
def Confinement.startReading (c : Confinement) : List Token :=
  match c.containerClass with
  | none => []
  | some name => ['.'] :: lineTokens name ++ [Token.space]

/-- The tokens of a complex selector. -/
def Complex.reading (c : Confinement) (s : Complex) : List Token :=
  c.startReading ++ s.first.reading c.idSuffix ++
    s.others.flatMap fun (combinator, compound) =>
      combinatorReading combinator ++ compound.reading c.idSuffix

/-- The tokens of a list of selectors. -/
def listReading (c : Confinement) : List Complex → List Token
  | [] => []
  | [s] => s.reading c
  | s :: rest => s.reading c ++ [Token.comma, Token.space] ++ listReading c rest

/-! ## Reading back -/

/-- What follows a part of a selector. -/
def endsPart (c : Char) : Bool :=
  c ∈ ['#', '.', '[', ':', ' ', ',', '\x7b']

/-- A text that may follow a part of a selector, and its tokens. -/
structure IsPart (t : Text) (ts : List Token) : Prop where
  reads : Reads endsPart t ts
  starts : Starts endsPart t

theorem starts_append {follow : Char → Bool} {t u : Text} (ht : Starts follow t)
    (hu : Starts follow u) : Starts follow (t ++ u) := by
  cases t with
  | nil => exact hu
  | cons c t => exact starts_cons.mpr (starts_cons.mp ht)

theorem Reads.append_part {t u : Text} {ts us : List Token} (ht : Reads endsPart t ts)
    (hu : IsPart u us) : Reads endsPart (t ++ u) (ts ++ us) :=
  ht.append hu.reads fun _ hrest => starts_append hu.starts hrest

theorem isPart_nil : IsPart [] [] :=
  ⟨reads_nil _, starts_nil _⟩

theorem IsPart.append {t u : Text} {ts us : List Token} (ht : IsPart t ts)
    (hu : IsPart u us) : IsPart (t ++ u) (ts ++ us) :=
  ⟨ht.reads.append_part hu, starts_append ht.starts hu.starts⟩

theorem isPart_flatMap {α : Type} {xs : List α} {text : α → Text}
    {tokens : α → List Token} (h : ∀ x ∈ xs, IsPart (text x) (tokens x)) :
    IsPart (xs.flatMap text) (xs.flatMap tokens) := by
  induction xs with
  | nil => exact isPart_nil
  | cons x xs ih =>
    obtain ⟨hx, hxs⟩ := List.forall_mem_cons.mp h
    rw [List.flatMap_cons, List.flatMap_cons]
    exact hx.append (ih hxs)

/-- A mark that may follow a part, and what comes after it. -/
theorem isPart_cons {c : Char} {t : Text} {ts : List Token} (hc : endsPart c)
    (h : Reads endsPart (c :: t) ts) : IsPart (c :: t) ts :=
  ⟨h, starts_cons.mpr hc⟩

theorem endsName_of_endsPart (c : Char) (h : endsPart c) : endsName c :=
  (by decide : ∀ c ∈ ['#', '.', '[', ':', ' ', ',', '\x7b'], endsName c) c
    (of_decide_eq_true h)

theorem reads_plainIdent {n : Text} (h : isPlainIdent n) : Reads endsPart n [n] :=
  (reads_name (isBareName_of_isPlainIdent h)).mono endsName_of_endsPart

/-- A text that is read as one token, or as that and a space for its final newline. -/
theorem reads_lineTokens {t q : Text} {follow : Char → Bool} (h : IsMaybeLine t q)
    (hnew : '\n' ∉ t) (hreads : Reads follow t [t]) (hfollow : ∀ c, endsPart c → follow c)
    (hline : follow '\n') : Reads endsPart q (lineTokens q) := by
  rcases h with rfl | rfl
  · rw [lineTokens, if_neg fun hlast => hnew (List.mem_of_getLast? hlast)]
    exact hreads.mono hfollow
  · rw [lineTokens, if_pos List.getLast?_concat, List.dropLast_concat]
    exact (hreads.append_cons (reads_space (by decide) (by decide)) hline).mono
      fun _ _ => rfl

theorem reads_id {name suffix : Text} (hname : isPlainIdent name)
    (hsuffix : isIdSuffix suffix) :
    Reads endsPart ('#' :: name ++ suffix) (lineTokens ('#' :: name ++ suffix)) := by
  obtain ⟨n, hn, hline⟩ := exists_name_suffix (isBareName_of_isPlainIdent hname) hsuffix
  have hne : n ≠ [] := by
    rintro rfl
    exact hn.begins
  have hnew : '\n' ∉ '#' :: n :=
    List.not_mem_cons_of_ne_of_not_mem (by decide) hn.not_newline_mem
  exact reads_lineTokens (hline.cons '#') hnew (reads_hash hn.all hne)
    endsName_of_endsPart (by decide)

/-- A full stop and a name. -/
theorem reads_class {name : Text} {ts : List Token} (hbegins : BeginsName name)
    (h : Reads endsPart name ts) : Reads endsPart ('.' :: name) (['.'] :: ts) := by
  refine (reads_lone (c := '.') (by decide)).append h fun rest _ => ?_
  cases name with
  | nil => cases hbegins
  | cons c name =>
    refine starts_cons.mpr ?_
    have hdecimal : ¬ isDecimal c := by
      unfold BeginsName at hbegins
      split at hbegins
      · rename_i heq
        cases heq
        decide
      · rename_i heq
        cases heq
        exact fun hdecimal => hbegins.2 (isDigit_of_isDecimal hdecimal)
      · cases hbegins
    simp [endsLone, hdecimal]

theorem exists_isBareName_of_isIdentLine {name : Text} (h : isIdentLine name) :
    ∃ n, IsBareName n ∧ IsMaybeLine n name :=
  exists_of_isLineOf (fun _ hident => isBareName_of_isPlainIdent hident) h

/-- The class of a container. A newline at its end is read as a space. -/
theorem reads_container {name : Text} (h : isIdentLine name) :
    Reads endsPart ('.' :: name) (['.'] :: lineTokens name) := by
  obtain ⟨n, hn, hline⟩ := exists_isBareName_of_isIdentLine h
  have hbegins : BeginsName name := by
    rcases hline with rfl | rfl
    · exact hn.begins
    · exact hn.begins.append _
  exact reads_class hbegins
    (reads_lineTokens hline hn.not_newline_mem (reads_name hn) endsName_of_endsPart
      (by decide))

theorem reads_matchOperator {operator : Token} (h : operator ∈ matchOperators) :
    Reads anything operator [operator] := by
  have hlist : matchOperators = [['='], ['~', '='], ['|', '='], ['^', '='], ['$', '='],
      ['*', '=']] := by
    decide
  rw [hlist] at h
  simp only [List.mem_cons, List.not_mem_nil, or_false] at h
  rcases h with rfl | rfl | rfl | rfl | rfl | rfl
  · exact reads_mark (by decide) (by decide)
  · exact reads_operator (by decide)
  · exact reads_operator (by decide)
  · exact reads_operator (by decide)
  · exact reads_operator (by decide)
  · exact reads_operator (by decide)

/-- The name of an attribute in front of the end of its test. -/
theorem reads_attributeName {name u : Text} {us : List Token} {c : Char}
    (hname : isPlainIdent name) (hu : Reads anything (c :: u) us) (hc : endsName c) :
    Reads endsPart ('[' :: name ++ c :: u) (['['] :: name :: us) :=
  (reads_mark (c := '[') (by decide) (by decide)).append_of_anything
    (((reads_name (isBareName_of_isPlainIdent hname)).append_cons hu hc).mono
      fun _ _ => rfl)

theorem exists_cons_of_mem_matchOperators {operator : Token}
    (h : operator ∈ matchOperators) : ∃ c rest, operator = c :: rest ∧ endsName c := by
  have hall : ∀ operator ∈ matchOperators, operator.head?.any endsName := by decide
  have hhead := hall operator h
  cases operator with
  | nil => cases hhead
  | cons c rest => exact ⟨c, rest, rfl, hhead⟩

theorem isPart_qualifier {suffix : Text} (hsuffix : isIdSuffix suffix) {q : Qualifier}
    (h : q.IsPlain) : IsPart (q.text suffix) (q.reading suffix) := by
  have hclose : Reads anything [']'] [[']']] := reads_mark (by decide) (by decide)
  cases q with
  | id name => exact isPart_cons (by decide) (reads_id h hsuffix)
  | className name =>
    exact isPart_cons (by decide)
      (reads_class (isBareName_of_isPlainIdent h).begins (reads_plainIdent h))
  | attr name test =>
    obtain ⟨hname, htest⟩ := h
    cases test with
    | none => exact isPart_cons (by decide) (reads_attributeName hname hclose (by decide))
    | some test =>
      obtain ⟨hoperator, hvalue⟩ := htest test rfl
      -- what follows the name, from the closing bracket backwards
      have hflag : Reads anything ((if test.ignoresCase then [' ', 'i'] else []) ++ [']'])
          ((if test.ignoresCase then [Token.space, ['i']] else []) ++ [[']']]) := by
        split
        · refine (reads_space (c := ' ') (by decide) (by decide)).append_of_anything ?_
          exact (reads_name (n := ['i']) (isBareName_of_isPlainIdent
            (by decide))).append_cons hclose
              (by decide)
        · exact hclose
      have hrest : Reads anything (test.render test.value ++ [']'])
          ([test.operator, quote test.value] ++
            ((if test.ignoresCase then [Token.space, ['i']] else []) ++ [[']']])) := by
        rw [AttributeTest.render, List.append_assoc, List.append_assoc]
        exact (reads_matchOperator hoperator).append_of_anything
          ((reads_quote hvalue).append_of_anything hflag)
      obtain ⟨c, more, hcons, hc⟩ := exists_cons_of_mem_matchOperators hoperator
      have htext : (Qualifier.attr name (some test)).text suffix =
          '[' :: name ++ (test.render test.value ++ [']']) := List.append_assoc ..
      have hreading : (Qualifier.attr name (some test)).reading suffix =
          ['['] :: name :: ([test.operator, quote test.value] ++
            ((if test.ignoresCase then [Token.space, ['i']] else []) ++ [[']']])) := by
        simp [Qualifier.reading]
      rw [htext, hreading]
      rw [AttributeTest.render, hcons] at hrest ⊢
      exact isPart_cons (by decide) (reads_attributeName hname hrest hc)

theorem mem_of_isKnown {p : Pseudo} (h : p.isKnown) :
    p.name ∈ pseudoClasses ++ historyPseudoClasses ++ pseudoElements := by
  unfold Pseudo.isKnown at h
  split at h
  · exact List.mem_append_right _ (of_decide_eq_true h)
  · refine List.mem_append_left _ (List.mem_append.mpr ?_)
    exact (Bool.or_eq_true_iff.mp h).imp of_decide_eq_true of_decide_eq_true

theorem isPlainIdent_of_isKnown {p : Pseudo} (h : p.isKnown) : isPlainIdent p.name :=
  (by decide : ∀ n ∈ pseudoClasses ++ historyPseudoClasses ++ pseudoElements,
    isPlainIdent n) _ (mem_of_isKnown h)

theorem isPart_pseudo {p : Pseudo} (h : p.isKnown) : IsPart p.render p.reading := by
  have hcolon : Reads anything [':'] [Token.colon] := reads_mark (by decide) (by decide)
  have hname := reads_plainIdent (isPlainIdent_of_isKnown h)
  unfold Pseudo.render Pseudo.reading
  split
  · exact isPart_cons (by decide) (hcolon.append_of_anything
      (hcolon.append_of_anything hname))
  · exact isPart_cons (by decide) (hcolon.append_of_anything hname)

theorem reads_compound {c : Confinement} {s : Compound} (h : s.IsPlain c.idSuffix) :
    Reads endsPart (s.text c.idSuffix) (s.reading c.idSuffix) := by
  have hqualifiers := isPart_flatMap fun q hq =>
    isPart_qualifier c.idSuffix_valid (h.qualifiers q hq)
  have hpseudo : IsPart (s.pseudo.elim [] Pseudo.render)
      (s.pseudo.elim [] Pseudo.reading) := by
    cases hp : s.pseudo with
    | none => exact isPart_nil
    | some p => exact isPart_pseudo (h.known p hp)
  have helement : Reads endsPart s.element (if s.element = [] then []
      else [s.element]) := by
    rcases h.element with hnone | hstar | hident
    · rw [hnone]
      exact reads_nil _
    · rw [hstar]
      exact (reads_lone (c := '*') (by decide)).mono fun c hc =>
        (by decide : ∀ c ∈ ['#', '.', '[', ':', ' ', ',', '\x7b'], endsLone '*' c) c
          (of_decide_eq_true hc)
    · rw [if_neg]
      · exact reads_plainIdent hident
      · intro hnil
        rw [hnil] at hident
        cases hident
  exact (helement.append_part hqualifiers).append_part hpseudo

theorem reads_combinator {t : Token} (h : isCombinator t) :
    Reads anything (combinatorText t) (combinatorReading t) := by
  have hspace : Reads anything [' '] [Token.space] := reads_space (by decide) (by decide)
  have hmark : ∀ {c : Char}, c ∈ loneChars → endsLone c ' ' →
      Reads anything (' ' :: [c] ++ [' ']) [Token.space, [c], Token.space] :=
    fun hc hends =>
    hspace.append_of_anything ((reads_lone hc).append_cons hspace hends)
  rcases cases_of_isCombinator h with rfl | rfl | rfl | rfl
  · exact hspace
  · exact hmark (c := '>') (by decide) (by decide)
  · exact hmark (c := '+') (by decide) (by decide)
  · exact hmark (c := '~') (by decide) (by decide)

theorem exists_combinatorText (t : Token) : ∃ rest, combinatorText t = ' ' :: rest := by
  unfold combinatorText
  split
  · rename_i h
    exact ⟨[], h⟩
  · exact ⟨_, rfl⟩

theorem isPart_others {c : Confinement} {others : List (Token × Compound)}
    (h : ∀ o ∈ others, isCombinator o.1 ∧ o.2.IsPlain c.idSuffix) :
    IsPart (others.flatMap fun (combinator, s) => combinatorText combinator ++
      s.text c.idSuffix) (others.flatMap fun (combinator, s) =>
        combinatorReading combinator ++ s.reading c.idSuffix) := by
  refine isPart_flatMap fun o ho => ?_
  obtain ⟨combinator, s⟩ := o
  obtain ⟨hcombinator, hs⟩ := h _ ho
  constructor
  · exact (reads_combinator hcombinator).append_of_anything (reads_compound hs)
  · obtain ⟨more, hmore⟩ := exists_combinatorText combinator
    show Starts endsPart (combinatorText combinator ++ s.text c.idSuffix)
    rw [hmore]
    exact starts_cons.mpr (by decide)

theorem reads_start (c : Confinement) : Reads anything c.start c.startReading := by
  have hvalid := c.containerClass_valid
  unfold Confinement.start Confinement.startReading
  cases hclass : c.containerClass with
  | none => exact reads_nil _
  | some name =>
    rw [hclass] at hvalid
    have hspace : Reads anything [' '] [Token.space] :=
      reads_space (by decide) (by decide)
    exact (reads_container hvalid).append_cons hspace (by decide)

/-- A complex selector is read back. -/
theorem reads_complex {c : Confinement} {s : Complex} (h : s.IsPlain c.idSuffix) :
    Reads endsPart (s.text c) (s.reading c) := by
  rw [Complex.text, Complex.reading, List.append_assoc, List.append_assoc]
  exact (reads_start c).append_of_anything ((reads_compound h.first).append_part
    (isPart_others h.others))

/-- A list of selectors that were let through is read back. -/
theorem reads_complexes {c : Confinement} {ss : List Complex}
    (h : ∀ s ∈ ss, s.IsValid c) :
    Reads endsPart (joined ", " (ss.map (Complex.text c))) (listReading c ss) := by
  have hsep : Reads anything [',', ' '] [Token.comma, Token.space] :=
    (reads_mark (c := ',') (by decide) (by decide)).append_of_anything
      (reads_space (by decide) (by decide))
  induction ss with
  | nil => exact reads_nil _
  | cons s rest ih =>
    obtain ⟨hs, hrest⟩ := List.forall_mem_cons.mp h
    cases rest with
    | nil => exact reads_complex hs.isPlain
    | cons s' rest =>
      have htext : joined ", " ((s :: s' :: rest).map (Complex.text c)) =
          s.text c ++
            (',' :: ' ' :: joined ", " ((s' :: rest).map (Complex.text c))) := by
        rw [List.map_cons, List.map_cons, joined, ← List.map_cons]
        · simp
        · simp
      have hreading : listReading c (s :: s' :: rest) =
          s.reading c ++ (Token.comma :: Token.space :: listReading c (s' :: rest)) := by
        rw [listReading]
        · simp
        · simp
      rw [htext, hreading]
      exact (reads_complex hs.isPlain).append_cons (hsep.append_of_anything (ih hrest))
        (by decide)

end CssGuard
