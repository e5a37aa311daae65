import CssGuard.Proofs.Text.Quotes
import CssGuard.Proofs.Url.Rules

/-!
# Resolved references

Seen from a base whose scheme has relative references, a reference gets the scheme of the
base, unless it has a scheme of its own or a malformed authority. A URL that stayed as it
is and shows no escape in front of its first colon therefore has a scheme there, if it is
not part of a path.

- `resolve_cases`: what a resolved reference looks like
- `lower_mem_harmlessSchemes`: the scheme in front of the first colon of an escaped URL
-/

namespace CssGuard.Url

open Text

/-! ## Parts of references -/

theorem scheme_of_parseAfterScheme? {scheme t : Text} {r : Reference}
    (h : parseAfterScheme? scheme t = some r) : r.scheme = scheme := by
  unfold parseAfterScheme? at h
  split at h
  split at h
  · cases h
    rfl
  · cases h

/-- Only an authority can be malformed. -/
theorem exists_parseAfterScheme? (scheme : Text) {t : Text} (h : ¬ ['/', '/'] <+: t) :
    ∃ r, parseAfterScheme? scheme t = some r := by
  unfold parseAfterScheme?
  split
  rename_i authority rest hparts
  split at hparts
  · exact absurd ⟨_, rfl⟩ h
  · cases hparts
    exact ⟨_, rfl⟩

theorem prefix_render {r : Reference} (h : r.scheme ≠ []) :
    r.scheme ++ [':'] <+: r.render := by
  rw [Reference.render, if_neg (by simpa using h), List.append_assoc, List.append_assoc]
  exact List.prefix_append _ _

theorem scheme_from {b r : Reference} (h : r.scheme = b.scheme) :
    (Reference.from b r).scheme = b.scheme := by
  unfold Reference.from
  split
  · rfl
  · exact h

/-- A reference without a scheme gets one, unless its authority is malformed. -/
theorem parse?_cases (scheme uri : Text) :
    namesPlace (readable uri) ∨
    ∃ r, Reference.parse? scheme uri = some r ∧ r.scheme = scheme := by
  rw [or_iff_not_imp_left, namesPlace, Bool.or_eq_true, not_or,
    List.isPrefixOf_iff_prefix, Option.not_isSome_iff_eq_none, scheme?,
    Option.map_eq_none_iff]
  rintro ⟨hslashes, hscheme⟩
  obtain ⟨r, hr⟩ := exists_parseAfterScheme? scheme hslashes
  exact ⟨r, by rw [Reference.parse?, hscheme]; exact hr, scheme_of_parseAfterScheme? hr⟩

/-! ## Resolution -/

section Resolution

variable {base : Text} {b : Reference} (hparse : Reference.parse? [] base = some b)
  (hrelative : b.scheme ∈ relativeSchemes) (hscheme : b.scheme ≠ [])

include hparse hrelative hscheme

/-- A resolved reference is the base, or it has the scheme of the base,
or nothing was done to it. -/
theorem resolve_cases (uri : Text) :
    resolve (some base) uri = base ∨ b.scheme ++ [':'] <+: resolve (some base) uri ∨
      resolve (some base) uri = uri ∧ namesPlace (readable uri) := by
  have hbase : ∃ c t, base = c :: t := by
    cases base with
    | nil =>
      cases hparse
      exact absurd rfl hscheme
    | cons c t => exact ⟨c, t, rfl⟩
  have hresolve : resolve (some base) uri = (join? base uri).getD uri := by
    obtain ⟨c, t, rfl⟩ := hbase
    rfl
  by_cases huri : uri = []
  · left
    rw [hresolve, join?, huri]
    rfl
  right
  -- the scheme of the base is the one of a reference that has none
  have hjoin : join? base uri = (Reference.parse? b.scheme uri).bind fun r =>
      if r.scheme ≠ b.scheme ∨ r.scheme ∉ relativeSchemes then some uri
      else if r.authority.isEmpty then some (Reference.from b r).render
        else some r.render := by
    rw [join?, if_neg (by simpa using huri), hparse]
    rfl
  rw [hresolve, hjoin]
  cases hr : Reference.parse? b.scheme uri with
  | none =>
    refine .inr ⟨rfl, (parse?_cases b.scheme uri).resolve_right ?_⟩
    rw [hr]
    rintro ⟨r, hnone, -⟩
    cases hnone
  | some r =>
    rw [Option.bind_some]
    by_cases hsame : r.scheme = b.scheme
    · rw [if_neg (by rw [hsame]; exact not_or.mpr ⟨not_not.mpr rfl,
        not_not.mpr hrelative⟩)]
      left
      split
      · have hfrom := scheme_from hsame
        rw [← hfrom]
        exact prefix_render (hfrom ▸ hscheme)
      · rw [← hsame]
        exact prefix_render (hsame ▸ hscheme)
    · rw [if_pos (.inl hsame)]
      refine .inr ⟨rfl, (parse?_cases b.scheme uri).resolve_right ?_⟩
      rw [hr]
      rintro ⟨r', hr', hscheme'⟩
      cases hr'
      exact hsame hscheme'

end Resolution

/-! ## The first colon -/

/-- What is read of a URL whose first colon has nothing special in front. -/
theorem readable_append_colon {front : Text} (hfront : ∀ c ∈ front, ¬ isSpecial c)
    (rest : Text) :
    readable (front ++ ':' :: rest) = front ++ ':' :: dropControls rest := by
  have hcons : readable (front ++ ':' :: rest) = dropControls (front ++ ':' :: rest) := by
    cases front with
    | nil => exact readable_cons (by decide) rest
    | cons c front => exact readable_cons (hfront c (List.mem_cons_self ..)) _
  rw [hcons, dropControls_eq_flatMap, keepsMarks_dropControls.flatMap_append_cons
    (by decide), ← dropControls_eq_flatMap, ← dropControls_eq_flatMap,
    dropControls_eq_self hfront]

/-- A harmless URL that names a place, and has no slash and nothing special in front of
its first colon, has a harmless scheme there. -/
theorem lower_mem_harmlessSchemes {uri front rest : Text} (hharmless : isHarmless uri)
    (hplace : namesPlace (readable uri)) (hescape : escape uri = front ++ ':' :: rest)
    (hcolon : ':' ∉ front) (hslash : '/' ∉ front) (hpercent : '%' ∉ front) :
    (∀ c ∈ front, c.toNat < 0x80) ∧ lower front ∈ harmlessSchemes := by
  have hkept : ∀ c ∈ front ++ [':'], c ≠ '%' := by
    rintro c hc rfl
    rcases List.mem_append.mp hc with hc | hc
    · exact hpercent hc
    · cases List.mem_singleton.mp hc
  have hplain : ∀ c ∈ front, ¬ isSpecial c := fun c hc =>
    not_isSpecial_of_mem_escape (hescape ▸ List.mem_append_left _ hc)
  obtain ⟨rest', rfl, -⟩ := exists_of_escape_eq_append hkept
    (show escape uri = front ++ [':'] ++ rest by rw [hescape]; simp)
  rw [List.append_assoc, List.singleton_append] at hplace
  rw [readable_append_colon hplain, namesPlace, Bool.or_eq_true,
    List.isPrefixOf_iff_prefix] at hplace
  rcases hplace with hslashes | hscheme
  · -- what begins with slashes has them in front of the colon
    exfalso
    cases front with
    | nil => exact absurd (List.cons_prefix_cons.mp hslashes).1 (by decide)
    | cons c front =>
      rw [← (List.cons_prefix_cons.mp hslashes).1] at hslash
      exact hslash (List.mem_cons_self ..)
  · obtain ⟨s, hs⟩ := Option.isSome_iff_exists.mp hscheme
    obtain ⟨c, scheme, after, heq, hc, hall, rfl⟩ := exists_of_scheme? hs
    have hform := List.forall_mem_append.mp (isFormChar_of_scheme hc hall)
    have hnot : ':' ∉ c :: scheme := by
      rw [List.mem_cons, not_or]
      refine ⟨?_, fun hmem => absurd (hall _ hmem) (by decide)⟩
      rintro rfl
      exact absurd hc (by decide)
    obtain rfl := eq_of_append_cons_eq hcolon hnot heq
    refine ⟨fun d hd => ascii_of_isFormChar (hform.1 d hd), ?_⟩
    have hwritten := harmless_scheme?_escape hharmless
    rw [hescape, scheme?_cons hc hall] at hwritten
    exact of_decide_eq_true hwritten

end CssGuard.Url
