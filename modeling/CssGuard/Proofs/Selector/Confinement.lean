import CssGuard.Proofs.Selector.Reading

/-!
# Confinements do not change the structure of selectors

A confinement puts its suffix after every id, and the class of its container in front of
every selector. Both are looked at when a confinement is made, so that they only have
characters of names. One newline is overlooked: it may stand at the end, where it is read
back as a space. Nothing else is.

- `isNameChar_of_mem_idSuffix`: the characters of a suffix without a newline
- `exists_lex_id`, `exists_lex_class`: what is read back, with or without a newline
- `value_lex_confined_iff`: an id with its suffix and the class of the container are read
  back as they were written exactly if there is no newline in them
-/

namespace CssGuard

open Text

theorem isNameChar_of_mem_idSuffix {suffix : Text} (h : isIdSuffix suffix)
    (hnew : '\n' ∉ suffix) : ∀ c ∈ suffix, isNameChar c := by
  intro c hc
  rcases cases_of_isLineOf h with hall | ⟨front, rfl, -⟩
  · rcases Bool.or_eq_true_iff.mp (List.all_eq_true.mp hall c hc) with hword | hhyphen
    · exact isNameChar_of_isWordChar hword
    · rw [of_decide_eq_true hhyphen]
      decide
  · exact absurd (List.mem_append_right front (List.mem_singleton_self '\n')) hnew

theorem isPlainIdent_of_isIdentLine {name : Text} (h : isIdentLine name)
    (hlast : name.getLast? ≠ some '\n') : isPlainIdent name := by
  rcases cases_of_isLineOf h with hplain | ⟨front, rfl, -⟩
  · exact hplain
  · exact absurd List.getLast?_concat hlast

/-! ## Reading back -/

theorem IsMaybeLine.eq_iff {n q : Text} (h : IsMaybeLine n q) (hnew : '\n' ∉ n) :
    n = q ↔ '\n' ∉ q := by
  constructor
  · rintro rfl
    exact hnew
  · exact fun hq => (h.eq_of_no_newline hq).symm

/-- A newline at the end of a text is not read back. -/
theorem foldr_lineTokens {n q : Text} (h : IsMaybeLine n q) (hnew : '\n' ∉ n)
    (hspace : n ≠ Token.space) : (lineTokens q).foldr consCollapsed [] = [n] := by
  rcases lineTokens_cases hnew h with heq | heq
  · rw [heq]
    exact consCollapsed_of_ne hspace []
  · rw [heq]
    exact consCollapsed_of_ne hspace []

theorem exists_lex_id {name suffix : Text} (hname : isPlainIdent name)
    (hsuffix : isIdSuffix suffix) :
    ∃ n, IsMaybeLine n (name ++ suffix) ∧ '\n' ∉ n ∧
      lex ('#' :: name ++ suffix) = ⟨['#' :: n], []⟩ := by
  obtain ⟨n, hn, hline⟩ := exists_name_suffix (isBareName_of_isPlainIdent hname) hsuffix
  refine ⟨n, hline, hn.not_newline_mem, ?_⟩
  have hhash : '\n' ∉ '#' :: n :=
    List.not_mem_cons_of_ne_of_not_mem (by decide) hn.not_newline_mem
  have hspace : '#' :: n ≠ Token.space :=
    fun heq => absurd (List.cons.inj heq).1 (by decide)
  rw [lex_of_reads (reads_id hname hsuffix)]
  rw [List.cons_append, foldr_lineTokens (hline.cons '#') hhash hspace,
    List.dropWhile_cons, if_neg (by simpa using hspace)]

theorem exists_lex_class {name : Text} (h : isIdentLine name) :
    ∃ n, IsMaybeLine n name ∧ '\n' ∉ n ∧ lex ('.' :: name) = ⟨[['.'], n], []⟩ := by
  obtain ⟨n, hn, hline⟩ := exists_isBareName_of_isIdentLine h
  refine ⟨n, hline, hn.not_newline_mem, ?_⟩
  have hspace : n ≠ Token.space := by
    rintro rfl
    exact absurd (hn.all ' ' (List.mem_singleton_self _)) (by decide)
  rw [lex_of_reads (reads_container h), List.foldr_cons,
    foldr_lineTokens hline hn.not_newline_mem hspace]
  rfl

/-- An id with the suffix of a confinement is read back as it was written, and so is the
class of its container, exactly if there is no newline in the suffix and in the class. -/
theorem value_lex_confined_iff (c : Confinement) {name : Text} (hname : isSelectable name)
    (hlast : name.getLast? ≠ some '\n') :
    ((lex ('#' :: name ++ c.idSuffix)).value = ['#' :: name ++ c.idSuffix] ↔
      '\n' ∉ c.idSuffix) ∧
    ∀ container ∈ c.containerClass,
      ((lex ('.' :: container)).value = [['.'], container] ↔ '\n' ∉ container) := by
  have hplain : isPlainIdent name := by
    simp only [isSelectable, Bool.and_eq_true] at hname
    exact isPlainIdent_of_isIdentLine hname.1.1 hlast
  constructor
  · obtain ⟨n, hline, hnew, hlex⟩ := exists_lex_id hplain c.idSuffix_valid
    have hmem : '\n' ∉ name ++ c.idSuffix ↔ '\n' ∉ c.idSuffix := by
      simp [not_newline_mem_of_isPlainIdent hplain]
    rw [hlex, ← hmem, ← hline.eq_iff hnew]
    simp
  · intro container hcontainer
    have hvalid := c.containerClass_valid
    rw [hcontainer] at hvalid
    obtain ⟨n, hline, hnew, hlex⟩ := exists_lex_class hvalid
    rw [hlex, ← hline.eq_iff hnew]
    simp

/-- A suffix with a letter outside ASCII, and a container whose
name begins with a hyphen. -/
theorem value_lex_confined_iff_foreign :
    isSelectable "x-1" ∧ "x-1".toList.getLast? ≠ some '\n' ∧
    isIdSuffix "-é" ∧ isIdentLine "-box" ∧
    (lex "#x-1-é").value = ["#x-1-é".toList] ∧
    (lex ".-box").value = [['.'], "-box".toList] := by
  have hname : isSelectable "x-1" := by decide
  have hlast : "x-1".toList.getLast? ≠ some '\n' := by decide
  have hsuffix : isIdSuffix "-é" := by decide
  have hclass : isIdentLine "-box" := by decide
  obtain ⟨hid, hcontainer⟩ :=
    value_lex_confined_iff ⟨"-é", some "-box", TagPolicy.standard, hsuffix,
      hclass⟩ hname hlast
  exact ⟨hname, hlast, hsuffix, hclass, hid.mpr (by decide : '\n' ∉ "-é".toList),
    (hcontainer _ rfl).mpr (by decide)⟩

/-- A newline passes as a suffix, and at the end of the class of a
container. Neither is read back. -/
theorem value_lex_confined_newline :
    (∃ c, Confinement.ofSettings
        { idSuffix := .text ['\n'], containerClass := .text ['a', '\n'] } = .ok c ∧
      c.idSuffix = ['\n'] ∧ c.containerClass = some ['a', '\n']) ∧
    isSelectable ['x'] ∧ ['x'].getLast? ≠ some '\n' ∧
    (lex ['#', 'x', '\n']).value = [['#', 'x']] ∧
    (lex ['.', 'a', '\n']).value = [['.'], ['a']] := by
  refine ⟨⟨_, rfl, rfl, rfl⟩, by decide, by decide, ?_, ?_⟩
  · decide +kernel
  · decide +kernel

end CssGuard
