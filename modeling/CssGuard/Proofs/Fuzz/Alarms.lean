import CssGuard.Fuzz.Check
import CssGuard.Proofs.Consultations
import CssGuard.Proofs.Sheet.Idempotence
import CssGuard.Proofs.Sheet.Quotes
import CssGuard.Proofs.Url.Resolution

/-!
# Alarms about sanitized sheets

The checks of a sanitized sheet count its braces and look for its URLs without regard to
strings. So braces between quotes are reported if they do not balance, and text between
two strings is reported if it looks like a URL. Of the URLs themselves, those are reported
that have an escape in front of the colon after their scheme: where a reference is read,
blanks and controls there are skipped, and where it is written, they are escaped. Nothing
else about braces and URLs is ever reported.

- `HasUrl`, `mem_outputUrls_iff`: what the search for URLs finds
- `percent_mem_of_isUnsafeUrl`: the URLs of a sanitized test case that are reported
- `quoted_sanitize`: quotes and braces of a sanitized test case
- `problems_sanitize_iff`: when the braces or a URL of a sanitized test case are reported
-/

namespace CssGuard.Fuzz

open Text
open scoped Text.ByCharacter

/-! ## The search for URLs -/

/-- The text has `u` between `url("` and `")`, after `before` and in front of `after`. -/
def HasUrl (t before u after : Text) : Prop :=
  t = before ++ urlOpener ++ '"' :: u ++ '"' :: ')' :: after ∧ '"' ∉ u

theorem urlAt?_eq_some_iff {t u after : Text} :
    urlAt? t = some (u, after) ↔ HasUrl t [] u after := by
  constructor
  · intro h
    unfold urlAt? at h
    split at h
    · rename_i rest
      split at h
      · rename_i tail hdrop
        cases h
        refine ⟨?_, fun hmem => by simpa using List.mem_takeWhile_imp hmem⟩
        have hrest :=
          List.takeWhile_append_dropWhile (p := fun c : Char => decide (c ≠ '"'))
            (l := rest)
        rw [hdrop] at hrest
        simpa [urlOpener] using hrest.symm
      · cases h
    · cases h
  · rintro ⟨rfl, hu⟩
    have hne : ∀ c ∈ u, decide (c ≠ '"') = true :=
      fun c hc => decide_eq_true fun heq => hu (heq ▸ hc)
    have htake : (u ++ '"' :: ')' :: after).takeWhile (fun c => decide (c ≠ '"')) =
        u := by
      rw [List.takeWhile_append_of_pos hne]
      simp
    have hdrop : (u ++ '"' :: ')' :: after).dropWhile (fun c => decide (c ≠ '"')) =
        '"' :: ')' :: after := by
      rw [List.dropWhile_append_of_pos hne]
      simp
    simp only [urlOpener, List.nil_append, List.cons_append, urlAt?, htake, hdrop]

theorem mem_urlsFrom_of_mem {found : List Text} {t u : Text} (h : u ∈ found) :
    u ∈ urlsFrom found t := by
  fun_induction urlsFrom found t with
  | case1 found t url after hurl ih => exact ih (List.mem_cons_of_mem _ h)
  | case2 found => exact List.mem_reverse.mpr h
  | case3 found c rest hnone ih => exact ih h

/-- What is found stands between the marks of a URL. -/
theorem exists_of_mem_urlsFrom {found : List Text} {t u : Text}
    (h : u ∈ urlsFrom found t) : u ∈ found ∨ ∃ before after, HasUrl t before u after := by
  fun_induction urlsFrom found t with
  | case1 found t url after hurl ih =>
    have hfirst := urlAt?_eq_some_iff.mp hurl
    rcases ih h with hmem | ⟨before, after', rfl, hu⟩
    · rcases List.mem_cons.mp hmem with rfl | hmem
      · exact .inr ⟨[], after, hfirst⟩
      · exact .inl hmem
    · refine .inr ⟨urlOpener ++ '"' :: url ++ '"' :: ')' :: before, after', ?_, hu⟩
      rw [hfirst.1]
      simp
  | case2 found => exact .inl (List.mem_reverse.mp h)
  | case3 found c rest hnone ih =>
    rcases ih h with hmem | ⟨before, after, rfl, hu⟩
    · exact .inl hmem
    · exact .inr ⟨c :: before, after, rfl, hu⟩

/-- The text between the marks of one URL ends in what begins another one. -/
def HasOverlap (t : Text) : Prop :=
  ∃ before u after, HasUrl t before (u ++ urlOpener) after

theorem HasOverlap.append {t : Text} (h : HasOverlap t) (front : Text) :
    HasOverlap (front ++ t) := by
  obtain ⟨before, u, after, rfl, hu⟩ := h
  exact ⟨front ++ before, u, after, by simp, hu⟩

/-- A URL after the first one of a text stands behind it, or overlaps it. -/
theorem HasUrl.cases_of_first {t before u after url rest : Text}
    (hfirst : HasUrl t [] url rest) (h : HasUrl t before u after) :
    u = url ∨ HasOverlap t ∨ ∃ before', HasUrl rest before' u after := by
  obtain ⟨ht, hurl⟩ := hfirst
  obtain ⟨ht', hu⟩ := h
  have heq : urlOpener ++ '"' :: (url ++ '"' :: ')' :: rest) =
      (before ++ urlOpener) ++ '"' :: (u ++ '"' :: ')' :: after) := by
    simpa using ht.symm.trans ht'
  rcases cases_of_append_cons_eq (by decide) heq with ⟨-, hsame⟩ | ⟨more, hbefore, hmore⟩
  · exact .inl (eq_of_append_cons_eq hu hurl hsame.symm)
  right
  rcases cases_of_append_cons_eq hurl hmore with ⟨rfl, -⟩ | ⟨more', rfl, hmore'⟩
  · -- the quote that closes the first URL is the one that opens the other
    obtain ⟨u', rfl⟩ := exists_of_append_eq_append_cons (by decide) hbefore
    exact .inl ⟨[], u', rest, ht, hurl⟩
  · cases more' with
    | nil => cases (List.cons.inj hmore').1
    | cons c more' =>
      obtain ⟨rfl, hrest⟩ := List.cons.inj hmore'
      obtain ⟨before', rfl⟩ := exists_of_append_eq_append_cons (by decide)
        (show before ++ urlOpener = (urlOpener ++ '"' :: url ++ ['"']) ++ ')' :: more' by
          simpa using hbefore)
      exact .inr ⟨before', by simpa using hrest, hu⟩

/-- Without overlaps, all that stands between the marks of a URL is found. -/
theorem mem_urlsFrom_of_hasUrl {found : List Text} {t before u after : Text}
    (hoverlap : ¬ HasOverlap t) (h : HasUrl t before u after) : u ∈ urlsFrom found t := by
  fun_induction urlsFrom found t generalizing before with
  | case1 found t url rest hurl ih =>
    have hfirst := urlAt?_eq_some_iff.mp hurl
    rcases hfirst.cases_of_first h with rfl | habsurd | ⟨before', hrest⟩
    · exact mem_urlsFrom_of_mem (List.mem_cons_self ..)
    · exact absurd habsurd hoverlap
    · refine ih (fun hrest => hoverlap ?_) hrest
      rw [hfirst.1]
      simpa using hrest.append (urlOpener ++ '"' :: url ++ ['"', ')'])
  | case2 found => exact absurd h.1 (by simp)
  | case3 found c rest hnone ih =>
    cases before with
    | nil =>
      rw [urlAt?_eq_some_iff.mpr h] at hnone
      cases hnone
    | cons d before =>
      obtain ⟨ht, hu⟩ := h
      exact ih (fun hrest => hoverlap (hrest.append [c])) ⟨(List.cons.inj ht).2, hu⟩

theorem mem_outputUrls_iff {t u : Text} (hoverlap : ¬ HasOverlap t) :
    u ∈ outputUrls t ↔ ∃ before after, HasUrl t before u after := by
  constructor
  · intro h
    exact (exists_of_mem_urlsFrom h).resolve_left List.not_mem_nil
  · rintro ⟨before, after, h⟩
    exact mem_urlsFrom_of_hasUrl hoverlap h

/-! ## Reported URLs -/

theorem isUnsafeUrl_iff {u : Text} :
    isUnsafeUrl u ↔
      ':' ∈ u.takeWhile (· ≠ '/') ∧ ∀ scheme ∈ allowedSchemes, ¬ scheme <+: lower u := by
  simp only [isUnsafeUrl, Bool.and_eq_true, List.contains_eq_mem, decide_eq_true_eq,
    Bool.not_eq_true', List.any_eq_false, List.isPrefixOf_iff_prefix]

/-- The part of a URL in front of its first colon, if that is in
no later segment of a path. -/
theorem exists_of_colon_mem {u : Text} (h : ':' ∈ u.takeWhile (· ≠ '/')) :
    ∃ front rest, u = front ++ ':' :: rest ∧ ':' ∉ front ∧ '/' ∉ front ∧
      u.takeWhile (· ≠ ':') = front := by
  obtain ⟨front, rest, hsplit, hcolon⟩ := List.eq_append_cons_of_mem h
  have hu : u = front ++ ':' :: (rest ++ u.dropWhile (· ≠ '/')) := by
    conv_lhs =>
      rw [← List.takeWhile_append_dropWhile (p := fun c : Char => decide (c ≠ '/'))
        (l := u), hsplit]
    simp
  have hslash : '/' ∉ front := fun hmem => by
    have hmem := List.mem_takeWhile_imp (hsplit ▸ List.mem_append_left _ hmem)
    simp at hmem
  refine ⟨front, _, hu, hcolon, hslash, ?_⟩
  rw [hu, List.takeWhile_append_of_pos (Url.forall_ne_of_not_mem hcolon)]
  simp

/-- A text with another character in front of its first colon has no such scheme. -/
theorem not_prefix_lower {x rest scheme : Text} {c : Char} (hcolon : ':' ∉ x)
    (hc : IsLowered c) (hscheme : c ∉ scheme) (hmem : ':' ∈ scheme) :
    ¬ scheme <+: lower (x ++ c :: rest) := by
  obtain ⟨front, back, hlower, hfront⟩ := exists_lowerAfter_append x hc [] rest
  have hcolon' : ':' ∉ front := by
    intro hmem
    obtain ⟨d, hd, hlowers⟩ := hfront _ hmem
    exact hcolon (eq_of_lowersTo hlowers (by decide) (by decide) ▸ hd)
  rintro ⟨more, hmore⟩
  rw [lower, hlower] at hmore
  rcases List.append_eq_append_iff.mp hmore with ⟨gap, rfl, -⟩ | ⟨gap, rfl, hgap⟩
  · exact hcolon' (List.mem_append_left _ hmem)
  · cases gap with
    | nil => exact hcolon' (by simpa using hmem)
    | cons d gap =>
      rw [(List.cons.inj hgap).1] at hscheme
      exact hscheme (by simp)

theorem isUnsafeUrl_of_mark {x rest : Text} {c : Char}
    (hcolon : ':' ∈ (x ++ c :: rest).takeWhile (· ≠ '/')) (hx : ':' ∉ x)
    (hc : IsLowered c) (hscheme : ∀ scheme ∈ allowedSchemes, c ∉ scheme) :
    isUnsafeUrl (x ++ c :: rest) :=
  isUnsafeUrl_iff.mpr ⟨hcolon, fun scheme hmem => not_prefix_lower hx hc
    (hscheme scheme hmem) ((by decide : ∀ scheme ∈ allowedSchemes, ':' ∈ scheme)
      scheme hmem)⟩

/-- An escape in front of the first colon. -/
theorem isUnsafeUrl_of_percent {u : Text} (hcolon : ':' ∈ u.takeWhile (· ≠ '/'))
    (hpercent : '%' ∈ u.takeWhile (· ≠ ':')) : isUnsafeUrl u := by
  obtain ⟨front, rest, hu, hfront, -, htake⟩ := exists_of_colon_mem hcolon
  rw [htake] at hpercent
  obtain ⟨x, y, rfl⟩ := List.append_of_mem hpercent
  rw [List.append_assoc, List.cons_append] at hu
  rw [hu] at hcolon ⊢
  exact isUnsafeUrl_of_mark hcolon (fun hmem => hfront (List.mem_append_left _ hmem))
    (isLowered_of_ascii (by decide) (by decide)) (by decide)

/-- What follows a closing quote. -/
theorem isUnsafeUrl_of_endsQuote {c : Char} {u : Text} (hc : endsQuote c)
    (hcolon : ':' ∈ (c :: u).takeWhile (· ≠ '/')) : isUnsafeUrl (c :: u) := by
  have hmarks : ∀ c ∈ [' ', ',', ')', ';', ']'], (c.toNat < 0x80 ∧ c.toLower = c) ∧
      ∀ scheme ∈ allowedSchemes, c ∉ scheme := by decide
  obtain ⟨⟨hascii, hkeep⟩, hscheme⟩ := hmarks c (of_decide_eq_true hc)
  exact @isUnsafeUrl_of_mark [] u c hcolon List.not_mem_nil
    (isLowered_of_ascii hascii hkeep) hscheme

/-! ## URLs of test cases -/

/-- The base of all test cases. -/
def testBase : Text :=
  "http://example.com/style.css"

theorem prefix_lower_of_ascii {t u : Text} (ht : ∀ c ∈ t, c.toNat < 0x80) (h : t <+: u) :
    lower t <+: lower u := by
  obtain ⟨rest, rfl⟩ := h
  rw [lower_of_ascii ht, lower, lowerAfter_append_of_ascii ht]
  exact List.prefix_append _ _

/-- A URL of a test case that has neither an escape nor a slash in front of its first
colon has an allowed scheme there. -/
theorem percent_mem_of_isUnsafeUrl {uri reference : Text}
    (huri : uri = Url.resolve (some testBase) reference) (hharmless : Url.isHarmless uri)
    (halarm : isUnsafeUrl (Url.escape uri)) :
    '%' ∈ (Url.escape uri).takeWhile (· ≠ ':') := by
  obtain ⟨hcolon, hscheme⟩ := isUnsafeUrl_iff.mp halarm
  obtain ⟨front, rest, hescape, hfront, hslash, htake⟩ := exists_of_colon_mem hcolon
  rw [htake]
  by_contra hpercent
  have hparse : Url.Reference.parse? [] testBase =
      some ⟨"http", "example.com", "/style.css", [], [], []⟩ := by decide +kernel
  rcases Url.resolve_cases hparse (by decide) (by decide) reference with
    hbase | hprefix | ⟨hsame, hplace⟩
  · rw [huri, hbase] at halarm
    exact absurd halarm (by decide +kernel)
  · rw [← huri] at hprefix
    have hwritten := (Url.prefix_escape_iff (by decide)).mpr hprefix
    exact hscheme _ (by decide) (prefix_lower_of_ascii (by decide) hwritten)
  · rw [← huri] at hsame
    rw [← hsame] at hplace
    obtain ⟨hascii, hmem⟩ :=
      Url.lower_mem_harmlessSchemes hharmless hplace hescape hfront hslash hpercent
    have hallowed : ∀ s ∈ Url.harmlessSchemes, s ++ [':'] ∈ allowedSchemes := by decide
    refine hscheme _ (hallowed _ hmem) ?_
    have hall : ∀ c ∈ front ++ [':'], c.toNat < 0x80 :=
      List.forall_mem_append.mpr ⟨hascii, List.forall_mem_singleton.mpr (by decide)⟩
    have hlower : lower (front ++ [':']) = lower front ++ [':'] := by
      rw [lower_of_ascii hall, lower_of_ascii hascii, List.map_append]
      rfl
    rw [← hlower]
    exact prefix_lower_of_ascii hall ⟨rest, by rw [hescape]; simp⟩

/-- The text can stand in a sanitized test case as a URL. -/
structure IsTestUrl (u : Text) : Prop where
  not_open : '(' ∉ u
  not_close : ')' ∉ u
  percent : isUnsafeUrl u → '%' ∈ u.takeWhile (· ≠ ':')

theorem sanitize_eq (css : Text) :
    sanitize css =
      sanitizeSheet (.standard .standard (some Url.acceptAll) (some testBase)) css :=
  rfl

theorem isTestUrl_of_granted {css user uri : Text}
    (h : Granted (some Url.acceptAll) (sanitize css).trace user uri) :
    IsTestUrl (Url.escape uri) := by
  obtain ⟨ask, asked, hpolicy, hasked, hask, hharmless⟩ := h
  cases hpolicy
  cases hask
  obtain ⟨-, reference, hreference⟩ := asks_sanitizeSheet_resolved _ _ _ hasked
  have hspecial : ∀ c, Url.isSpecial c → c ∉ Url.escape uri :=
    fun c hc hmem => Url.not_isSpecial_of_mem_escape hmem hc
  exact ⟨hspecial _ (by decide), hspecial _ (by decide),
    percent_mem_of_isUnsafeUrl hreference hharmless⟩

/-! ## Sanitized test cases -/

section WellQuoted

variable {P : Char → Prop} {t before u after : Text}

theorem count_append_urlOpener (before : Text) :
    (before ++ urlOpener).count '"' = before.count '"' := by
  simp [urlOpener]

/-- After pairs of quotes, what stands as a URL is one. -/
theorem HasUrl.isTestUrl (h : HasUrl t before u after) (ht : QuotedAfter P IsTestUrl [] t)
    (heven : Even (before.count '"')) : IsTestUrl u := by
  have hquote : t = (before ++ urlOpener) ++ '"' :: (u ++ '"' :: ')' :: after) := by
    rw [h.1]
    simp
  obtain ⟨body, rest, hbody, hnone, hurl⟩ :=
    ht.exists_body hquote (by rwa [count_append_urlOpener])
  obtain rfl := eq_of_append_cons_eq h.2 hnone hbody
  exact hurl (List.suffix_append _ _)

/-- Otherwise it begins behind a string. -/
theorem HasUrl.endsQuote {c : Char} (h : HasUrl t before (c :: u) after)
    (ht : QuotedAfter P IsTestUrl [] t) (hodd : ¬ Even (before.count '"')) :
    endsQuote c := by
  have hquote : t = (before ++ urlOpener) ++ '"' :: c :: (u ++ '"' :: ')' :: after) := by
    rw [h.1]
    simp
  refine ht.endsQuote_of_odd hquote ?_
  rwa [count_append_urlOpener, ← Nat.not_even_iff_odd]

/-- No URL has a parenthesis, so none begins where another one ends. -/
theorem not_hasOverlap (ht : QuotedAfter P IsTestUrl [] t) : ¬ HasOverlap t := by
  rintro ⟨before, u, after, h⟩
  by_cases heven : Even (before.count '"')
  · exact (h.isTestUrl ht heven).not_open (by simp [urlOpener])
  · -- the quote at its end opens a pair that begins with a parenthesis
    have hquote : t = (before ++ urlOpener ++ '"' :: (u ++ urlOpener)) ++ '"' ::
      (')' :: after) := h.1
    have hcount : Even ((before ++ urlOpener ++ '"' :: (u ++ urlOpener)).count '"') := by
      rw [List.count_append, count_append_urlOpener, List.count_cons_self,
        List.count_eq_zero.mpr h.2, Nat.zero_add]
      exact Nat.even_add_one.mpr heven
    have hopener : urlOpener <:+ [] ++ (before ++ urlOpener ++ '"' :: (u ++ urlOpener)) :=
      ⟨before ++ urlOpener ++ '"' :: u, by simp⟩
    obtain ⟨body, rest, hbody, -, hurl⟩ := ht.exists_body hquote hcount
    cases body with
    | nil => cases (List.cons.inj hbody).1
    | cons c body =>
      rw [← (List.cons.inj hbody).1] at hurl
      exact (hurl hopener).not_close (List.mem_cons_self ..)

/-- When what stands as a URL is reported. -/
theorem HasUrl.isUnsafeUrl_iff (h : HasUrl t before u after)
    (ht : QuotedAfter P IsTestUrl [] t) :
    isUnsafeUrl u ↔ ':' ∈ u.takeWhile (· ≠ '/') ∧
      (Even (before.count '"') → '%' ∈ u.takeWhile (· ≠ ':')) := by
  by_cases heven : Even (before.count '"')
  · rw [imp_iff_right heven]
    exact ⟨fun halarm => ⟨(Fuzz.isUnsafeUrl_iff.mp halarm).1,
      (h.isTestUrl ht heven).percent halarm⟩, fun ⟨hcolon, hpercent⟩ =>
        isUnsafeUrl_of_percent hcolon hpercent⟩
  · rw [and_iff_left fun habsurd => absurd habsurd heven]
    refine ⟨fun halarm => (Fuzz.isUnsafeUrl_iff.mp halarm).1, fun hcolon => ?_⟩
    cases u with
    | nil => cases hcolon
    | cons c u => exact isUnsafeUrl_of_endsQuote (h.endsQuote ht heven) hcolon

end WellQuoted

/-- The quotes of a sanitized test case come in pairs, and outside
of them its braces balance. -/
theorem quoted_sanitize (css : Text) :
    QuotedAfter (fun _ => True) IsTestUrl [] (sanitize css).value ∧
      (quotedPart true (sanitize css).value).count '\x7b' =
        (quotedPart true (sanitize css).value).count '\x7d' := by
  have hctx := isStandard_standard .standard (some Url.acceptAll) (some testBase)
  have hschema := hasQuotelessFunctions_defaultSchema
  rw [← SheetContext.schema_standard .standard (some Url.acceptAll) (some testBase)]
    at hschema
  have hU : ∀ user uri, Granted (some Url.acceptAll) (sanitize css).trace user uri →
      IsTestUrl (Url.escape uri) := fun _ _ => isTestUrl_of_granted
  obtain ⟨items, htext, hnested, hsound⟩ := exists_items hctx css
  rw [sanitize_eq, htext]
  have hquoted := WellQuoted.flatMap fun item hitem =>
    (hsound item hitem).wellQuoted hctx hschema hU
  refine ⟨hquoted [], ?_⟩
  simpa using hnested.count_quotedPart hctx hschema hU hsound

/-! ## Problems -/

theorem value_problems (t : Text) :
    (problems t).value =
    (if hasBalancedBraces t then [] else [("unbalanced braces" : Text)]) ++
      (((outputUrls t).filter isUnsafeUrl).map fun url => "unsafe url " ++ quoted url) ++
      (if (sanitize t).value = t then []
        else ["not idempotent: " ++ excerpt (sanitize t).value]) :=
  rfl

theorem unbalanced_mem_problems_iff (t : Text) :
    ("unbalanced braces" : Text) ∈ (problems t).value ↔
      t.count '\x7b' ≠ t.count '\x7d' := by
  have hurl : ∀ u : Text, ("unsafe url " : Text) ++ u ≠ "unbalanced braces" := by simp
  have hagain : ∀ u : Text, ("not idempotent: " : Text) ++ u ≠ "unbalanced braces" := by
    simp
  rw [value_problems, List.mem_append, List.mem_append, or_assoc, or_iff_left]
  · by_cases hbraces : t.count '\x7b' = t.count '\x7d'
    · simp [hasBalancedBraces, hbraces]
    · simp [hasBalancedBraces, hbraces]
  · rintro (hmem | hmem)
    · obtain ⟨u, -, heq⟩ := List.mem_map.mp hmem
      exact hurl _ heq
    · split at hmem
      · cases hmem
      · exact hagain _ (List.mem_singleton.mp hmem).symm

theorem unsafe_mem_problems {t u : Text} (hu : u ∈ outputUrls t)
    (halarm : isUnsafeUrl u) :
    ("unsafe url " : Text) ++ quoted u ∈ (problems t).value := by
  rw [value_problems, List.mem_append, List.mem_append]
  exact .inl (.inr (List.mem_map.mpr ⟨u, List.mem_filter.mpr ⟨hu, halarm⟩, rfl⟩))

theorem exists_unsafe_problem_iff (t : Text) :
    (∃ problem ∈ (problems t).value, ("unsafe url" : Text) <+: problem) ↔
      ∃ u ∈ outputUrls t, isUnsafeUrl u := by
  constructor
  · rintro ⟨problem, hmem, hprefix⟩
    rw [value_problems, List.mem_append, List.mem_append] at hmem
    rcases hmem with (hmem | hmem) | hmem
    · split at hmem
      · cases hmem
      · rw [List.mem_singleton.mp hmem] at hprefix
        exact absurd hprefix (by decide)
    · obtain ⟨u, hu, -⟩ := List.mem_map.mp hmem
      exact ⟨u, List.mem_filter.mp hu⟩
    · split at hmem
      · cases hmem
      · rw [List.mem_singleton.mp hmem] at hprefix
        simp at hprefix
  · rintro ⟨u, hu, halarm⟩
    exact ⟨_, unsafe_mem_problems hu halarm, [' '] ++ quoted u, rfl⟩

/-- A sanitized test case gets an alarm about its braces if and only if those between
quotes do not balance, and one about a URL if and only if something between `url("` and
`")` has a colon in its first segment, and either it is no URL, since these marks are
parts of two strings, or an escape stands in front of the colon. -/
theorem problems_sanitize_iff (css : Text) :
    (("unbalanced braces" : Text) ∈ (problems (sanitize css).value).value ↔
      (quotedPart false (sanitize css).value).count '\x7b' ≠
        (quotedPart false (sanitize css).value).count '\x7d') ∧
    ((∃ problem ∈ (problems (sanitize css).value).value,
      ("unsafe url" : Text) <+: problem) ↔
      ∃ before u after, HasUrl (sanitize css).value before u after ∧
        ':' ∈ u.takeWhile (· ≠ '/') ∧
        (Even (before.count '"') → '%' ∈ u.takeWhile (· ≠ ':'))) := by
  obtain ⟨hquoted, hbalance⟩ := quoted_sanitize css
  generalize (sanitize css).value = out at hquoted hbalance
  constructor
  · have hopening := count_eq_add_quotedPart (c := '\x7b') (by decide) false out
    have hclosing := count_eq_add_quotedPart (c := '\x7d') (by decide) false out
    rw [unbalanced_mem_problems_iff, hopening, hclosing, Bool.not_false, hbalance]
    exact not_congr Nat.add_right_cancel_iff
  · rw [exists_unsafe_problem_iff]
    constructor
    · rintro ⟨u, hu, halarm⟩
      obtain ⟨before, after, hurl⟩ := (mem_outputUrls_iff (not_hasOverlap hquoted)).mp hu
      exact ⟨before, u, after, hurl, (hurl.isUnsafeUrl_iff hquoted).mp halarm⟩
    · rintro ⟨before, u, after, hurl, hreported⟩
      exact ⟨u, (mem_outputUrls_iff (not_hasOverlap hquoted)).mpr ⟨before, after, hurl⟩,
        (hurl.isUnsafeUrl_iff hquoted).mpr hreported⟩

/-- Two strings around a colon, a brace in a string, and a blank in
front of a URL are reported. -/
theorem problems_sanitize_reported :
    ∃ css out : Text, (sanitize css).value = out ∧ out =
    "p\x7bfont-family:\"url(\";font-family:\")\x7b\";background:url(\"%20https://x/\");\x7d" ∧
    ("unbalanced braces" : Text) ∈ (problems out).value ∧
    ("unsafe url " : Text) ++ quoted ";font-family:" ∈ (problems out).value ∧
    ("unsafe url " : Text) ++ quoted "%20https://x/" ∈ (problems out).value := by
  obtain ⟨css, out, hvalue, hout⟩ : ∃ css out : Text, (sanitize css).value = out ∧ out =
    "p\x7bfont-family:\"url(\";font-family:\")\x7b\";background:url(\"%20https://x/\");\x7d" :=
    ⟨"p\x7bfont-family:\"url(\";font-family:\")\x7b\";background:url(\" https://x/\")\x7d",
      _, rfl, by decide +kernel⟩
  have hoverlap : ¬ HasOverlap out := hvalue ▸ not_hasOverlap (quoted_sanitize css).1
  have hreported : ∀ {before u after : Text}, HasUrl out before u after → isUnsafeUrl u →
      ("unsafe url " : Text) ++ quoted u ∈ (problems out).value := fun hurl =>
    unsafe_mem_problems ((mem_outputUrls_iff hoverlap).mpr ⟨_, _, hurl⟩)
  refine ⟨css, out, hvalue, hout, ?_, ?_, ?_⟩
  · rw [unbalanced_mem_problems_iff, hout]
    decide
  · exact @hreported "p\x7bfont-family:\"" ";font-family:"
      "\x7b\";background:url(\"%20https://x/\");\x7d" ⟨hout, by decide⟩ (by decide)
  · exact @hreported "p\x7bfont-family:\"url(\";font-family:\")\x7b\";background:"
      "%20https://x/" ";\x7d" ⟨hout, by decide⟩ (by decide)

end CssGuard.Fuzz
