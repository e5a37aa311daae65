import CssGuard.Proofs.Escape
import CssGuard.Proofs.Lexer.Spelling
import CssGuard.Url.Policy
import Mathlib.Data.List.TakeDrop
import Mathlib.Data.List.TakeWhile

/-!
# Escaped URLs

An escaped URL has no character that could end a URL token or begin an escape in it, and
escaping does not give a URL a scheme that it did not have.

- `not_isSpecial_of_mem_escape`: no special character is left
- `escape_eq_self`, `escape_escape`: nothing more to escape
- `isStringBody_of_not_isSpecial`: such a URL can stand between quotes
- `harmless_scheme?_escape`, `isHarmless_escape`: the scheme of an escaped URL
-/

namespace CssGuard.Url

open Text
open scoped Text.ByCharacter

theorem ascii_of_isSpecial {c : Char} (h : isSpecial c) : c.toNat < 0x80 := by
  simp only [isSpecial, Bool.or_eq_true, decide_eq_true_eq] at h
  rcases h with ((((((((h | rfl) | rfl) | rfl) | rfl) | rfl) | rfl) | rfl) | rfl) | rfl
  · omega
  all_goals decide

/-- Escaping leaves no special character. -/
theorem not_isSpecial_of_mem_escape {uri : Text} {c : Char} (h : c ∈ escape uri) :
    ¬ isSpecial c := by
  obtain ⟨d, -, hc⟩ := List.mem_flatMap.mp h
  split at hc
  · rename_i hd
    exact forall_ascii (fun d => ∀ c ∈ percentEscape d, ¬ isSpecial c) (by decide)
      (ascii_of_isSpecial hd) c hc
  · rename_i hd
    exact List.mem_singleton.mp hc ▸ hd

theorem escape_eq_self {uri : Text} (h : ∀ c ∈ uri, ¬ isSpecial c) :
    escape uri = uri := by
  induction uri with
  | nil => rfl
  | cons c uri ih =>
    rw [escape, List.flatMap_cons, if_neg (h c (List.mem_cons_self ..))]
    exact congrArg (c :: ·) (ih fun d hd => h d (List.mem_cons_of_mem _ hd))

theorem escape_escape (uri : Text) : escape (escape uri) = escape uri :=
  escape_eq_self fun _ => not_isSpecial_of_mem_escape

theorem ne_of_not_isSpecial {c d : Char} (h : ¬ isSpecial c) (hd : isSpecial d) :
    c ≠ d := by
  rintro rfl
  exact h hd

theorem isClean_of_not_isSpecial {c : Char} (h : ¬ isSpecial c) : isClean c := by
  refine isClean_of_ge ?_
  simp only [isSpecial, Bool.or_eq_true, decide_eq_true_eq, not_or] at h
  omega

/-- A text without special characters can stand between quotes as it is. -/
theorem isStringBody_of_not_isSpecial {uri : Text} (h : ∀ c ∈ uri, ¬ isSpecial c) :
    IsStringBody uri := by
  rw [show uri = uri.flatMap ([·]) from (List.flatMap_singleton' uri).symm]
  refine isStringBody_flatMap fun c hc => isStringBody_singleton ⟨?_, ?_, ?_⟩
  · exact ne_of_not_isSpecial (h c hc) (by decide)
  · exact ne_of_not_isSpecial (h c hc) (by decide)
  · intro hnewline
    simp only [isNewline, Bool.or_eq_true, decide_eq_true_eq] at hnewline
    rcases hnewline with (rfl | rfl) | rfl
    all_goals exact h _ hc (by decide)

theorem decode_of_not_isSpecial {uri : Text} (h : ∀ c ∈ uri, ¬ isSpecial c) :
    CssGuard.Escape.decode uri = uri :=
  CssGuard.Escape.decode_eq_self fun hmem => h _ hmem (by decide)

/-! ## Schemes -/

/-- A text with a scheme begins with a letter, characters of schemes and a colon. -/
theorem exists_of_scheme? {t s : Text} (h : scheme? t = some s) :
    ∃ c front rest, t = c :: front ++ ':' :: rest ∧ isLetter c ∧
      (∀ d ∈ front, isSchemeChar d) ∧ s = lower (c :: front) := by
  obtain ⟨⟨s', rest'⟩, hsplit, rfl⟩ := Option.map_eq_some_iff.mp h
  have happ := List.takeWhile_append_dropWhile (p := fun d => decide (d ≠ ':')) (l := t)
  have hhead := List.head?_dropWhile_not (fun d => decide (d ≠ ':')) t
  simp only [splitScheme?, cut, List.span_eq_takeWhile_dropWhile] at hsplit
  split at hsplit
  · rename_i c front rest hcut
    split at hcut
    · cases hcut
    · rename_i before colon after hspan
      cases hcut
      obtain ⟨htake, hdrop⟩ := Prod.mk.inj hspan
      rw [htake, hdrop] at happ
      rw [hdrop] at hhead
      have hcolon : colon = ':' := by simpa using hhead
      split at hsplit
      · rename_i hscheme
        obtain ⟨hc, hfront⟩ := Bool.and_eq_true_iff.mp hscheme
        cases hsplit
        exact ⟨c, front, _, by rw [← happ, hcolon], hc, List.all_eq_true.mp hfront, rfl⟩
      · cases hsplit
  · cases hsplit

theorem scheme?_cons {c : Char} {front : Text} (hc : isLetter c)
    (hfront : ∀ d ∈ front, isSchemeChar d) (rest : Text) :
    scheme? (c :: front ++ ':' :: rest) = some (lower (c :: front)) := by
  have hne : ∀ d ∈ c :: front, decide (d ≠ ':') := by
    refine List.forall_mem_cons.mpr ⟨?_, fun d hd => ?_⟩
    · rw [decide_eq_true_eq]
      rintro rfl
      exact absurd hc (by decide)
    · rw [decide_eq_true_eq]
      rintro rfl
      exact absurd (hfront _ hd) (by decide)
  rw [scheme?, splitScheme?, cut, List.span_eq_takeWhile_dropWhile,
    List.takeWhile_append_of_pos hne, List.dropWhile_append_of_pos hne,
    List.takeWhile_cons, List.dropWhile_cons, if_neg (by decide), if_neg (by decide),
    List.append_nil]
  dsimp only
  rw [if_pos (Bool.and_eq_true_iff.mpr ⟨hc, List.all_eq_true.mpr hfront⟩)]
  rfl

/-- What stands in front of a character that is kept is kept too. -/
theorem exists_of_escape_eq_append {front : Text} (hfront : ∀ d ∈ front, d ≠ '%') :
    ∀ {uri rest : Text}, escape uri = front ++ rest →
      ∃ rest', uri = front ++ rest' ∧ escape rest' = rest := by
  induction front with
  | nil => exact fun {uri rest} h => ⟨uri, rfl, h⟩
  | cons d front ih =>
    intro uri rest h
    cases uri with
    | nil => cases h
    | cons c uri =>
      rw [escape, List.flatMap_cons] at h
      split at h
      · exact absurd (List.cons.inj h).1.symm (hfront d (List.mem_cons_self ..))
      · obtain ⟨rfl, hrest⟩ := List.cons.inj h
        obtain ⟨rest', rfl, hescape⟩ :=
          ih (fun d hd => hfront d (List.mem_cons_of_mem _ hd)) hrest
        exact ⟨rest', rfl, hescape⟩

theorem strip_cons_append {c d : Char} (hc : ¬ isBlank c) (hd : ¬ isBlank d)
    (front rest : Text) :
    ∃ rest', strip (c :: front ++ d :: rest) = c :: front ++ d :: rest' := by
  refine ⟨(rest.reverse.dropWhile isBlank).reverse, ?_⟩
  rw [strip, List.cons_append, List.dropWhile_cons, if_neg hc, ← List.cons_append,
    List.reverse_append, List.reverse_cons, List.append_assoc, List.singleton_append,
    List.dropWhile_append]
  split
  · rename_i hempty
    rw [List.isEmpty_iff.mp hempty, List.dropWhile_cons, if_neg hd, List.reverse_cons,
      List.reverse_reverse]
    rfl
  · rw [List.reverse_append, List.reverse_cons, List.reverse_reverse, List.append_assoc]
    rfl

theorem strip_append_of_blank {front : Text} (h : ∀ d ∈ front, isBlank d) (t : Text) :
    strip (front ++ t) = strip t := by
  rw [strip, List.dropWhile_append_of_pos h, ← strip]

/-- A text is what is left of it without the blanks around it, between blanks. -/
theorem exists_append_strip (t : Text) :
    ∃ front back, t = front ++ (strip t ++ back) ∧ ∀ d ∈ front, isBlank d := by
  refine ⟨t.takeWhile isBlank,
    ((t.dropWhile isBlank).reverse.takeWhile isBlank).reverse, ?_,
    fun d hd => List.mem_takeWhile_imp hd⟩
  rw [strip, ← List.reverse_append, List.takeWhile_append_dropWhile, List.reverse_reverse,
    List.takeWhile_append_dropWhile]

/-- A scheme that an escaped URL has after blanks was there before it was escaped. -/
theorem scheme?_strip_of_escape {uri blanks front rest : Text} {c : Char}
    (heq : escape uri = blanks ++ (c :: front ++ ':' :: rest))
    (hblanks : ∀ d ∈ blanks, isBlank d) (hc : isLetter c)
    (hfront : ∀ d ∈ front, isSchemeChar d) :
    scheme? (strip uri) = some (lower (c :: front)) := by
  have hkept : ∀ d ∈ blanks ++ (c :: front ++ [':']), d ≠ '%' := by
    intro d hd
    rw [List.cons_append, List.mem_append, List.mem_cons, List.mem_append,
      List.mem_singleton] at hd
    rintro rfl
    rcases hd with hd | rfl | hd | hd
    · exact absurd (hblanks _ hd) (by decide)
    · exact absurd hc (by decide)
    · exact absurd (hfront _ hd) (by decide)
    · cases hd
  have hsplit : escape uri = blanks ++ (c :: front ++ [':']) ++ rest := by
    rw [heq]
    simp
  obtain ⟨rest', rfl, -⟩ := exists_of_escape_eq_append hkept hsplit
  have hletter : ¬ isBlank c := by
    have hascii := ascii_of_isPlainNameChar (isPlainNameChar_of_isLetter hc)
    exact forall_ascii (fun c => isLetter c → ¬ isBlank c) (by decide) hascii hc
  obtain ⟨rest'', hstrip⟩ :=
    strip_cons_append hletter (by decide : ¬ isBlank ':') front rest'
  rw [List.append_assoc, List.append_assoc, List.singleton_append,
    strip_append_of_blank hblanks, hstrip, scheme?_cons hc hfront]

/-- A harmless URL has no scheme or a harmless one after it is escaped, too. -/
theorem harmless_scheme?_escape {uri : Text} (h : isHarmless uri) :
    (scheme? (escape uri)).all (· ∈ harmlessSchemes) := by
  cases hscheme : scheme? (escape uri) with
  | none => rfl
  | some s =>
    obtain ⟨c, front, rest, heq, hc, hfront, rfl⟩ := exists_of_scheme? hscheme
    have hbefore : scheme? (strip uri) = some (lower (c :: front)) :=
      scheme?_strip_of_escape (show escape uri = [] ++ _ from heq)
        (fun d hd => absurd hd List.not_mem_nil) hc hfront
    rwa [isHarmless, hbefore] at h

/-- A harmless URL is harmless after it is escaped, too. -/
theorem isHarmless_escape {uri : Text} (h : isHarmless uri) :
    isHarmless (escape uri) := by
  rw [isHarmless]
  cases hscheme : scheme? (strip (escape uri)) with
  | none => rfl
  | some s =>
    obtain ⟨c, front, rest, heq, hc, hfront, rfl⟩ := exists_of_scheme? hscheme
    obtain ⟨blanks, back, hescape, hblanks⟩ := exists_append_strip (escape uri)
    rw [heq, List.append_assoc] at hescape
    rwa [isHarmless, scheme?_strip_of_escape hescape hblanks hc hfront] at h

end CssGuard.Url
